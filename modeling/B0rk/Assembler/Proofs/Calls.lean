import B0rk.Assembler.Proofs.Steps

set_option autoImplicit false

/-! # Which assembling function calls which

The functions of the assembler as a family, in which calls go down: to a part of the expression, or
to the reference that it is assembled under. -/

namespace B0rk

open Script AsmScript

variable (A : AsmEnv)

theorem finishTest_never_fails (code : List Instruction) : ¬finishTest.Fails code := by
  rintro ⟨t, h⟩
  unfold finishTest at h
  dsimp only at h
  split at h <;> cases h

theorem AsmAction.never_fails (e : AsmAction) (code : List Instruction) : ¬e.perform.Fails code := by
  rintro ⟨t, h⟩
  cases e with
  | branch => exact finishTest_never_fails code ⟨t, h⟩
  | patch pos arg =>
    simp only [perform, B0rk.patch, Option.bind_eq_bind, Option.bind_eq_some_iff] at h
    obtain ⟨_, _, _, _, h⟩ := h
    split at h <;> cases h
  | _ => cases h

/-- The assembling functions. -/
def asmFamily : Family (List Instruction) AsmAction AsmStep where
  perform := AsmAction.perform
  run := AsmStep.run A
  body := AsmStep.script A
  run_eq := AsmStep.run_eq A
  never_fails := AsmAction.never_fails

/-- The size of the reference that something is assembled under. -/
noncomputable def Place.size : Place → ℕ
  | alone _ => 0
  | under reference => sizeOf reference

/-- Calls go down in rank. -/
noncomputable def AsmStep.rank : AsmStep → ℕ
  | function code => 8 * sizeOf code + 7
  | block code _ => 8 * sizeOf code + 6
  | statements code _ => 8 * sizeOf code + 5
  | expression expr _ (.alone _) _ => 8 * sizeOf expr + 5
  | expression expr _ (.under parent) _ => 8 * max (sizeOf expr) (sizeOf parent) + 4
  | params parameters _ => 8 * sizeOf parameters + 5
  | reference expr _ => 8 * sizeOf expr
  | dest left _ place => 8 * max (sizeOf left) place.size + 2
  | increment _ _ _ _ place _ => 8 * place.size + 2
  | load _ _ _ place | store _ _ place => 8 * place.size + 1

theorem sizeOf_refChild {child : Expression} : ∀ {expr : Expression}, expr.refChild = some child →
    sizeOf child ≤ sizeOf expr := by
  intro expr
  fun_induction Expression.refChild expr with
  | case1 type left right ih =>
    intro h
    have := ih h
    simp only [Expression.oper.sizeOf_spec, Option.some.sizeOf_spec]
    omega
  | case2 => rintro ⟨⟩
  | case3 expr _ _ =>
    rintro ⟨⟩
    exact le_rfl

/-! ## Plain scripts -/

/-- The opcodes that neither jump nor change the handlers. -/
def OpCode.isStraight (op : OpCode) : Bool := op.address.isNone && op != .popTry

/-- The number of the opcode tells which one it is, and is a word. -/
def OpCode.Proper (op : OpCode) : Prop := OpCode.ofNat op.toNat = op ∧ op.toNat < 2 ^ 64

instance (op : OpCode) : Decidable op.Proper := inferInstanceAs (Decidable (_ ∧ _))

def OpCode.isPlain (op : OpCode) : Bool := decide op.Proper && op.isStraight

theorem OpCode.proper_of_isPlain {op : OpCode} (h : op.isPlain = true) : op.Proper :=
  of_decide_eq_true (Bool.and_eq_true_iff.mp h).1

theorem OpCode.isStraight_iff {op : OpCode} :
    op.isStraight = true ↔ op.address = none ∧ op ≠ .popTry := by
  rw [isStraight, Bool.and_eq_true, Option.isNone_iff_eq_none, bne_iff_ne]

theorem OpCode.isStraight_of_isPlain {op : OpCode} (h : op.isPlain = true) : op.isStraight = true :=
  (Bool.and_eq_true_iff.mp h).2

theorem OpCode.address_of_isPlain {op : OpCode} (h : op.isPlain = true) : op.address = none :=
  (isStraight_iff.mp (isStraight_of_isPlain h)).1

/-- A script that only pushes plain instructions and calls functions with the property. -/
def Plain (P : AsmStep → Prop) : AsmScript → Prop
  | .done | .fail => True
  | .act (.push op _) rest => op.isPlain = true ∧ Plain P rest
  | .act .undefined rest => Plain P rest
  | .call c rest | .attempt c none rest => P c ∧ Plain P rest
  | .act .. | .look _ | .attempt _ (some _) _ => False

section

variable {A} {P : AsmStep → Prop} {rest : AsmScript}

theorem Plain.allCalls {script : AsmScript} (h : Plain P script) : AllCalls P script := by
  induction script with
  | done | fail => trivial
  | act e rest ih =>
    cases e with
    | push op args => exact ih h.2
    | undefined => exact ih h
    | _ => exact h.elim
  | look k ih => exact h.elim
  | call c rest ih => exact ⟨h.1, ih h.2⟩
  | attempt c success rest ih =>
    cases success with
    | none => exact ⟨h.1, ih h.2⟩
    | some e => exact h.elim

theorem Plain.imp {Q : AsmStep → Prop} {script : AsmScript} (hPQ : ∀ c, P c → Q c)
    (h : Plain P script) : Plain Q script := by
  induction script with
  | done | fail => trivial
  | act e rest ih =>
    cases e with
    | push op args => exact ⟨h.1, ih h.2⟩
    | undefined => exact ih h
    | _ => exact h.elim
  | look k ih => exact h.elim
  | call c rest ih => exact ⟨hPQ c h.1, ih h.2⟩
  | attempt c success rest ih =>
    cases success with
    | none => exact ⟨hPQ c h.1, ih h.2⟩
    | some e => exact h.elim

theorem Plain.sameCalls {script : AsmScript} (h : Plain P script) : SameCalls script script := by
  induction script with
  | done => exact .done
  | fail => exact .fail
  | act e rest ih =>
    cases e with
    | push op args => exact .act (ih h.2)
    | undefined => exact .act (ih h)
    | _ => exact h.elim
  | look k ih => exact h.elim
  | call c rest ih => exact .call (ih h.2)
  | attempt c success rest ih =>
    cases success with
    | none => exact .attempt (ih h.2)
    | some e => exact h.elim

@[simp] theorem plain_push (op : OpCode) (args : List Word) :
    Plain P (AsmScript.push op args rest) ↔ op.isPlain = true ∧ Plain P rest := Iff.rfl

@[simp] theorem plain_pushIf (cond : Bool) (op : OpCode) (h : op.isPlain = true) :
    Plain P (AsmScript.pushIf cond op rest) ↔ Plain P rest := by
  cases cond <;> simp [AsmScript.pushIf, h]

@[simp] theorem plain_undefined : Plain P AsmScript.undefined := trivial

@[simp] theorem plain_done : Plain P .done := trivial

@[simp] theorem plain_fail : Plain P .fail := trivial

@[simp] theorem plain_call (c : AsmStep) : Plain P (.call c rest) ↔ P c ∧ Plain P rest := Iff.rfl

@[simp] theorem plain_attempt (c : AsmStep) :
    Plain P (.attempt c none rest) ↔ P c ∧ Plain P rest := Iff.rfl

theorem plain_pushAll {insts : List Instruction} (h : ∀ inst ∈ insts, inst.op.isPlain = true)
    (hrest : Plain P rest) : Plain P (AsmScript.pushAll insts rest) := by
  induction insts with
  | nil => exact hrest
  | cons inst insts ih =>
    exact ⟨h inst (List.mem_cons_self ..), ih fun i hi => h i (List.mem_cons_of_mem _ hi)⟩

theorem plain_reference {place : Place} {scope : Scope}
    (h : ∀ expr, place = .under expr → P (.reference expr scope)) (hrest : Plain P rest) :
    Plain P (AsmScript.reference place scope rest) := by
  cases place with
  | alone => exact hrest
  | under expr => exact ⟨h expr rfl, hrest⟩

theorem plain_optional {expr : Option Expression} {scope : Scope} {place : Place} {needResult : Bool}
    (h : ∀ e, expr = some e → P (.expression e scope place needResult)) (hrest : Plain P rest) :
    Plain P (AsmScript.optional expr scope place needResult rest) := by
  cases expr with
  | none => exact hrest
  | some e => exact ⟨h e rfl, hrest⟩

theorem plain_operand {expr : Option Expression} {scope : Scope}
    (h : ∀ e, expr = some e → P (.expression e scope (.alone true) true)) (hrest : Plain P rest) :
    Plain P (AsmScript.operand expr scope rest) := by
  cases expr with
  | none => trivial
  | some e => exact ⟨h e rfl, hrest⟩

theorem loadScript_plain {clazz : Word} {var : String} {scope : Scope} {place : Place}
    (h : ∀ expr, place = .under expr → P (.reference expr scope)) :
    Plain P (loadScript A clazz var scope place) := by
  cases place with
  | under expr => exact ⟨h expr rfl, rfl, rfl, trivial⟩
  | alone =>
    unfold loadScript
    by_cases hclazz : clazz ≠ 0
    · rw [if_pos hclazz]
      cases A.chain clazz with
      | none => trivial
      | some chain =>
        cases h : chain.getStaticFieldId var with
        | some id => simp [h]; decide
        | none => simp [h]
    · rw [if_neg hclazz]
      cases localId A scope var with
      | some id => exact ⟨rfl, trivial⟩
      | none =>
        rcases A.clazz with _ | ⟨address, chain⟩
        · trivial
        · cases h : chain.getFieldId var with
          | some id => simp [h]; decide
          | none =>
            cases h' : chain.getStaticFieldId var with
            | some id => simp [h, h']; decide
            | none => simp [h, h']

theorem storeScript_plain {var : String} {scope : Scope} {place : Place}
    (h : ∀ expr, place = .under expr → P (.reference expr scope)) :
    Plain P (storeScript A var scope place) := by
  cases place with
  | under expr => exact ⟨h expr rfl, rfl, rfl, trivial⟩
  | alone =>
    unfold storeScript
    cases localId A scope var with
    | some id => exact ⟨rfl, trivial⟩
    | none =>
      rcases A.clazz with _ | ⟨address, chain⟩
      · trivial
      · cases h : chain.getFieldId var with
        | some id => simp [h]; decide
        | none =>
          cases h' : chain.getStaticFieldId var with
          | some id => simp [h, h']; decide
          | none => simp [h, h']

theorem incrementScript_plain {operType : OpType} {clazz : Word} {var : String} {scope : Scope}
    {place : Place} {needResult : Bool} (hload : P (.load clazz var scope place))
    (hstore : P (.store var scope place)) :
    Plain P (incrementScript A operType clazz var scope place needResult) := by
  unfold incrementScript
  split
  · exact ⟨rfl, trivial⟩
  · refine ⟨hload, ?_⟩
    rw [plain_pushIf _ _ rfl, plain_push, plain_pushIf _ _ rfl, plain_push]
    refine ⟨rfl, ?_, hstore, trivial⟩
    split <;> rfl

theorem callScript_plain {clazz : Word} {function : String} {count : ℕ} {scope : Scope} {place : Place}
    (hload : place = .alone false → P (.load 0 function scope (.alone false))) (hrest : Plain P rest) :
    Plain P (callScript A clazz function count scope place rest) := by
  unfold callScript
  by_cases hclazz : clazz ≠ 0
  · rw [if_pos hclazz]
    cases A.chain clazz with
    | none => trivial
    | some chain => exact ⟨rfl, hrest⟩
  · rw [if_neg hclazz]
    cases place with
    | under reference => exact ⟨rfl, rfl, hrest⟩
    | alone reference =>
      cases reference with
      | true => exact ⟨rfl, rfl, hrest⟩
      | false =>
        have hvar : Plain P (.attempt (.load 0 function scope (.alone false)) none
            (AsmScript.push .callObj [BitVec.ofNat 64 count] rest)) := ⟨hload rfl, rfl, hrest⟩
        dsimp only
        cases scope.getVarId A.args function with
        | some id => exact hvar
        | none =>
          rcases A.clazz with _ | ⟨address, chain⟩
          · trivial
          · dsimp only
            by_cases hfield : (chain.getFieldId function).isSome
            · rw [if_pos hfield]
              exact hvar
            · rw [if_neg hfield]
              cases chain.findMethod function with
              | none => trivial
              | some func =>
                dsimp only
                split
                · exact ⟨rfl, hrest⟩
                · exact ⟨rfl, rfl, hrest⟩

theorem operationCode_plain {operType : OpType} {type : ValueType} {ops : List OpCode}
    (h : operationCode operType type = some ops) : ∀ op ∈ ops, op.isPlain = true := by
  have hall : ∀ ops ∈ operationCode operType type, ∀ op ∈ ops, op.isPlain = true := by
    cases operType <;> cases type <;> decide
  exact hall ops h

/-- The statements that are assembled with addresses in their instructions. -/
def Expression.jumps : Expression → Bool
  | .ifExpr .. | .forExpr .. | .tryExpr .. => true
  | _ => false

theorem operTailScript_plain {type : ValueType} {operType : OpType} {left : Option Expression}
    {scope : Scope} {place : Place} {needResult : Bool}
    (hleft : ∀ e, left = some e → P (.expression e scope (.alone false) true))
    (hincrement : ∀ op clazz var, P (.increment op clazz var scope place needResult))
    (hdest : ∀ e, left = some e → P (.dest e scope place)) :
    Plain P (operTailScript type operType left scope place needResult) := by
  have increment (op : OpType) (h : op = .increment ∨ op = .decrement) :
      Plain P (operTailScript type op left scope place needResult) := by
    cases left with
    | none => rcases h with rfl | rfl <;> trivial
    | some left =>
      unfold operTailScript
      rcases hvar : left.asVar with _ | ⟨clazz, var⟩
      · rcases h with rfl | rfl <;> simp [hvar]
      · rcases h with rfl | rfl <;> simp [hvar, hincrement]
  have operation : Plain P (AsmScript.optional left scope (.alone false) true
      ((operationCode operType type).elim .fail fun ops =>
        AsmScript.pushAll (ops.map fun op => ⟨op, []⟩) .done)) := by
    refine plain_optional hleft ?_
    cases hops : operationCode operType type with
    | none => trivial
    | some ops =>
      refine plain_pushAll (fun inst hinst => ?_) trivial
      obtain ⟨op, hop, rfl⟩ := List.mem_map.mp hinst
      exact operationCode_plain hops op hop
  cases operType with
  | increment => exact increment _ (.inl rfl)
  | decrement => exact increment _ (.inr rfl)
  | set =>
    unfold operTailScript
    rw [plain_pushIf _ _ rfl]
    cases left with
    | none => trivial
    | some left => exact ⟨hdest left rfl, trivial⟩
  | reference => trivial
  | none => exact plain_optional hleft trivial
  | _ => exact operation

end

/-! ## Calls go down -/

theorem Place.size_of_under {place : Place} {expr : Expression} (h : place = .under expr) :
    place.size = sizeOf expr := by
  subst h
  rfl

theorem expression_rank_alone (expr : Expression) (scope : Scope) (place : Place) (needResult : Bool) :
    8 * sizeOf expr + 4 ≤ (AsmStep.expression expr scope place needResult).rank ∧
      8 * place.size + 4 ≤ (AsmStep.expression expr scope place needResult).rank := by
  cases place <;> simp only [AsmStep.rank, Place.size] <;> omega

/-- The calls of a function are of lower rank. -/
theorem expressionScript_plain {expr : Expression} (hexpr : expr.jumps = false) (scope : Scope)
    (place : Place) (needResult : Bool) :
    Plain (fun d => d.rank < (AsmStep.expression expr scope place needResult).rank)
      (expressionScript A expr scope place needResult) := by
  obtain ⟨hsize, hplace⟩ := expression_rank_alone expr scope place needResult
  generalize hrank : (AsmStep.expression expr scope place needResult).rank = rank at hsize hplace ⊢
  have hreference : ∀ e, place = .under e → (AsmStep.reference e scope).rank < rank := by
    rintro e rfl
    simp only [AsmStep.rank, Place.size] at hplace ⊢
    omega
  have hload : ∀ clazz var, (AsmStep.load clazz var scope place).rank < rank := by
    intro clazz var
    simp only [AsmStep.rank]
    omega
  cases expr with
  | call type clazz function parameters =>
    rw [expressionScript]
    refine ⟨?_, plain_reference hreference (callScript_plain (fun h => ?_) ?_)⟩
    · simp only [AsmStep.rank, Expression.call.sizeOf_spec] at hsize ⊢
      omega
    · subst h
      exact hload 0 function
    · rw [plain_pushIf _ _ rfl]
      trivial
  | oper type operType left right =>
    simp only [Expression.oper.sizeOf_spec] at hsize
    by_cases h : operType = .reference → ∃ reference, place = .under reference
    · rw [expressionScript_oper A h]
      refine plain_optional ?_ (operTailScript_plain ?_ ?_ ?_)
      · rintro e rfl
        simp only [AsmStep.rank, Option.some.sizeOf_spec] at hsize ⊢
        omega
      · rintro e rfl
        simp only [AsmStep.rank, Option.some.sizeOf_spec] at hsize ⊢
        omega
      · intro op clazz var
        simp only [AsmStep.rank]
        omega
      · rintro e rfl
        simp only [AsmStep.rank, Option.some.sizeOf_spec] at hsize ⊢
        omega
    · obtain ⟨rfl, hunder⟩ := Classical.not_imp.mp h
      cases place with
      | under reference => exact absurd ⟨reference, rfl⟩ hunder
      | alone inReference =>
        cases right with
        | none => trivial
        | some right =>
          rw [expressionScript]
          cases hchild : right.refChild with
          | none => trivial
          | some child =>
            have := sizeOf_refChild hchild
            refine ⟨?_, trivial⟩
            simp only [AsmStep.rank, Expression.oper.sizeOf_spec, Option.some.sizeOf_spec] at hrank ⊢
            omega
  | ifExpr | forExpr | tryExpr => cases hexpr
  | returnExpr value =>
    cases value with
    | none => exact ⟨rfl, rfl, trivial⟩
    | some value =>
      refine ⟨?_, rfl, trivial⟩
      simp only [AsmStep.rank, Expression.returnExpr.sizeOf_spec, Option.some.sizeOf_spec] at hsize ⊢
      omega
  | throwExpr value =>
    refine ⟨?_, rfl, trivial⟩
    simp only [AsmStep.rank, Expression.throwExpr.sizeOf_spec] at hsize ⊢
    omega
  | var type clazz var => exact ⟨hload clazz var, trivial⟩
  | array type clazz var index =>
    refine ⟨hload clazz var, ?_, rfl, trivial⟩
    simp only [AsmStep.rank, Expression.array.sizeOf_spec] at hsize ⊢
    omega
  | new type clazz parameters =>
    rw [expressionScript]
    by_cases haddress : A.findClass (String.intercalate "." clazz) = 0
    · simp only [if_pos haddress]
      trivial
    · simp only [if_neg haddress]
      refine ⟨?_, rfl, trivial⟩
      simp only [AsmStep.rank, Expression.new.sizeOf_spec] at hsize ⊢
      omega
  | string type str => exact ⟨rfl, trivial⟩
  | integer type i => exact ⟨rfl, trivial⟩
  | double type d => exact ⟨rfl, trivial⟩
  | function type function => cases function <;> exact ⟨rfl, trivial⟩

/-- The calls that emit addresses. -/
def AsmStep.jumps : AsmStep → Bool
  | expression expr .. => expr.jumps
  | _ => false

theorem AsmStep.plain {step : AsmStep} (hstep : step.jumps = false) :
    Plain (fun d => d.rank < step.rank) (step.script A) := by
  cases step with
  | function code =>
    refine ⟨?_, rfl, rfl, trivial⟩
    simp only [rank]
    omega
  | block code scope =>
    obtain ⟨linked, start, max, vars, code⟩ := code
    refine ⟨?_, trivial⟩
    simp only [rank, CodeBlock.code, CodeBlock.mk.sizeOf_spec]
    omega
  | statements code scope =>
    cases code with
    | nil => trivial
    | cons expr code =>
      refine ⟨?_, ?_, trivial⟩
      · simp only [rank, List.cons.sizeOf_spec]
        omega
      · simp only [rank, List.cons.sizeOf_spec]
        omega
  | expression expr scope place needResult => exact expressionScript_plain A hstep scope place needResult
  | params parameters scope =>
    cases parameters with
    | nil => trivial
    | cons param parameters =>
      refine ⟨?_, ?_, trivial⟩
      · simp only [rank, List.cons.sizeOf_spec]
        omega
      · simp only [rank, List.cons.sizeOf_spec]
        omega
  | reference expr scope =>
    cases expr with
    | oper type operType left right =>
      cases operType with
      | reference =>
        refine plain_operand ?_ ?_
        · rintro e rfl
          simp only [rank, Expression.oper.sizeOf_spec, Option.some.sizeOf_spec]
          omega
        · cases right with
          | none => trivial
          | some right =>
            refine ⟨?_, trivial⟩
            simp only [rank, Expression.oper.sizeOf_spec, Option.some.sizeOf_spec]
            omega
      | _ => trivial
    | _ => trivial
  | dest left scope place =>
    have hstore : ∀ var, (store var scope place).rank < (dest left scope place).rank := by
      intro var
      simp only [rank]
      omega
    cases left with
    | var type clazz var => exact ⟨hstore var, trivial⟩
    | array type clazz var index =>
      refine ⟨?_, ?_, rfl, trivial⟩
      · simp only [rank]
        omega
      · simp only [rank, Expression.array.sizeOf_spec]
        omega
    | oper type operType left right =>
      cases operType with
      | reference =>
        rw [script.eq_def]
        dsimp only
        rcases (Expression.oper .unknown .reference left right).refChild.bind Expression.asVar with
          _ | ⟨clazz, var⟩
        · trivial
        · refine ⟨?_, trivial⟩
          have htype : sizeOf type = sizeOf ValueType.unknown := by cases type <;> rfl
          simp only [rank, Place.size, Expression.oper.sizeOf_spec, htype]
          omega
      | _ => trivial
    | _ => trivial
  | increment operType clazz var scope place needResult =>
    refine incrementScript_plain ?_ ?_
    · simp only [rank]
      omega
    · simp only [rank]
      omega
  | load clazz var scope place =>
    refine loadScript_plain fun e he => ?_
    simp only [rank, Place.size_of_under he]
    omega
  | store var scope place =>
    refine storeScript_plain fun e he => ?_
    simp only [rank, Place.size_of_under he]
    omega

/-! ## Statements with jumps -/

theorem allCalls_optional {P : AsmStep → Prop} {rest : AsmScript} {expr : Option Expression}
    {scope : Scope} {place : Place} {needResult : Bool}
    (h : ∀ e, expr = some e → P (.expression e scope place needResult)) (hrest : AllCalls P rest) :
    AllCalls P (AsmScript.optional expr scope place needResult rest) := by
  cases expr with
  | none => exact hrest
  | some e => exact ⟨h e rfl, hrest⟩

theorem sameCalls_optional {rest rest' : AsmScript} (expr : Option Expression) (scope : Scope)
    (place : Place) (needResult : Bool) (h : SameCalls rest rest') :
    SameCalls (AsmScript.optional expr scope place needResult rest)
      (AsmScript.optional expr scope place needResult rest') := by
  cases expr with
  | none => exact h
  | some e => exact .call h

theorem expressionScript_jumps {expr : Expression} (h : expr.jumps = true) (scope : Scope)
    (place : Place) (needResult : Bool) :
    AllCalls (fun d => d.rank < (AsmStep.expression expr scope place needResult).rank)
        (expressionScript A expr scope place needResult) ∧
      SameCalls (expressionScript A expr scope place needResult)
        (expressionScript A expr scope place needResult) := by
  obtain ⟨hsize, -⟩ := expression_rank_alone expr scope place needResult
  generalize (AsmStep.expression expr scope place needResult).rank = rank at hsize ⊢
  cases expr with
  | ifExpr test trueBlock falseBlock =>
    have htest : (AsmStep.expression test scope (.alone false) true).rank < rank := by
      simp only [AsmStep.rank, Expression.ifExpr.sizeOf_spec] at hsize ⊢
      omega
    have htrue : (AsmStep.block trueBlock scope).rank < rank := by
      simp only [AsmStep.rank, Expression.ifExpr.sizeOf_spec] at hsize ⊢
      omega
    rw [expressionScript]
    cases falseBlock with
    | none =>
      exact ⟨⟨htest, fun _ => ⟨htrue, trivial⟩⟩, .attempt (.look fun _ _ => .call (.act .done))⟩
    | some falseBlock =>
      refine ⟨⟨htest, fun _ => ⟨htrue, fun _ => ⟨?_, trivial⟩⟩⟩, ?_⟩
      · simp only [AsmStep.rank, Expression.ifExpr.sizeOf_spec, Option.some.sizeOf_spec] at hsize ⊢
        omega
      · exact .attempt (.look fun _ _ => .call (.act (.look fun _ _ => .act (.call (.act .done)))))
  | forExpr init test inc body =>
    simp only [Expression.forExpr.sizeOf_spec] at hsize
    refine ⟨allCalls_optional ?_ fun _ => ⟨?_, fun _ => ⟨?_, allCalls_optional ?_ trivial⟩⟩, ?_⟩
    · rintro e rfl
      simp only [AsmStep.rank, Option.some.sizeOf_spec] at hsize ⊢
      omega
    · simp only [AsmStep.rank]
      omega
    · simp only [AsmStep.rank]
      omega
    · rintro e rfl
      simp only [AsmStep.rank, Option.some.sizeOf_spec] at hsize ⊢
      omega
    · exact sameCalls_optional _ _ _ _ (.look fun _ _ => .attempt (.look fun _ _ => .call
        (sameCalls_optional _ _ _ _ (.act (.act .done)))))
  | tryExpr tryBlock exceptionVar catchBlock =>
    rw [expressionScript]
    cases Scope.getVarId A.args (catchBlock :: scope) exceptionVar with
    | none => exact ⟨trivial, .fail⟩
    | some excepVar =>
      refine ⟨fun _ => ⟨?_, fun _ => ⟨?_, trivial⟩⟩, ?_⟩
      · simp only [AsmStep.rank, Expression.tryExpr.sizeOf_spec] at hsize ⊢
        omega
      · simp only [AsmStep.rank, Expression.tryExpr.sizeOf_spec] at hsize ⊢
        omega
      · exact .act (.look fun _ _ => .call (.act (.act (.look fun _ _ => .act (.call (.act .done))))))
  | _ => cases h


theorem AsmStep.calls_rank (step : AsmStep) :
    AllCalls (fun d => d.rank < step.rank) (step.script A) := by
  cases hjumps : step.jumps with
  | false => exact (plain A hjumps).allCalls
  | true =>
    cases step with
    | expression expr scope place needResult =>
      exact (expressionScript_jumps A hjumps scope place needResult).1
    | _ => cases hjumps

theorem AsmStep.sameCalls (step : AsmStep) : SameCalls (step.script A) (step.script A) := by
  cases hjumps : step.jumps with
  | false => exact (plain A hjumps).sameCalls
  | true =>
    cases step with
    | expression expr scope place needResult =>
      exact (expressionScript_jumps A hjumps scope place needResult).2
    | _ => cases hjumps

theorem asmFamily_makes_rank {a b : AsmStep × List Instruction} (h : (asmFamily A).Makes a b) :
    b.1.rank < a.1.rank := by
  rcases h with h | h <;> exact (a.1.calls_rank A).mentions h.mentions

theorem asmFamily_wf : WellFounded fun b a => (asmFamily A).Checks a b :=
  Subrelation.wf (fun h => asmFamily_makes_rank A (.inl h))
    (InvImage.wf (fun a : AsmStep × List Instruction => a.1.rank) Nat.lt_wfRel.wf)

end B0rk
