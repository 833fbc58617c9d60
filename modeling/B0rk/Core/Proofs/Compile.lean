import B0rk.Assembler.Proofs.Basic
import B0rk.Core.Compile
import B0rk.Core.Proofs.Assigned

set_option autoImplicit false

/-! # The assembler on the integer core

For the trees of the integer core, `assembleBlock` emits exactly the code of `CoreCode.code`: the
back-patched jumps go where that code says, and the slots are those of the numbered blocks. -/

namespace B0rk

/-- The lookups of a scope, apart from the name `this`, which `load` and `store` treat on their own. -/
def NamesOf (A : AsmEnv) (scope : Scope) (names : List (List String)) : Prop :=
  (∀ x, x ≠ "this" → scope.getVarId A.args x = Scopes.slot names x) ∧
    Scopes.slot names "this" = none

variable {A : AsmEnv} {scope : Scope} {names : List (List String)}

theorem NamesOf.enter (h : NamesOf A scope names) {vars : List String} (hthis : "this" ∉ vars)
    (linked : Bool) (max : ℕ) (code : List Expression) :
    NamesOf A (.mk linked (Scopes.start names) max vars code :: scope) (vars :: names) := by
  refine ⟨?_, ?_⟩
  · intro x hx
    rw [Scope.getVarId]
    dsimp only [CodeBlock.vars, CodeBlock.startingVarId]
    cases hindex : vars.idxOf? x with
    | some i => simp only [Scopes.slot, hindex]
    | none => simp only [Scopes.slot, hindex, h.1 x hx]
  · rw [Scopes.slot, List.idxOf?_eq_none_iff.mpr hthis]
    exact h.2

/-- A declared variable is found in its slot, by `load` and `store` as by `getVarId`. -/
theorem NamesOf.lookup (h : NamesOf A scope names) {x : String}
    (hx : (Scopes.slot names x).isSome) :
    ∃ k, scope.getVarId A.args x = some k ∧ localId A scope x = some k ∧
      slotArg names x = BitVec.ofNat 64 k := by
  obtain ⟨k, hk⟩ := Option.isSome_iff_exists.mp hx
  have hthis : x ≠ "this" := by
    rintro rfl
    rw [h.2] at hk
    cases hk
  refine ⟨k, (h.1 x hthis).trans hk, ?_, ?_⟩
  · rw [localId, if_neg hthis, h.1 x hthis, hk]
  · rw [slotArg, hk]
    rfl

theorem NamesOf.load_run (h : NamesOf A scope names) {x : String}
    (hx : (Scopes.slot names x).isSome) (code : List Instruction) :
    (load A scope 0 x none).Ok code () (code ++ [⟨.loadVar, [slotArg names x]⟩]) := by
  obtain ⟨k, -, hk, harg⟩ := h.lookup hx
  simp only [load, ne_eq, not_true_eq_false, if_false, hk, harg]
  exact pushInstruction_run _ _ _

theorem NamesOf.store_run (h : NamesOf A scope names) {x : String}
    (hx : (Scopes.slot names x).isSome) (code : List Instruction) :
    (store A scope x none).Ok code () (code ++ [⟨.storeVar, [slotArg names x]⟩]) := by
  obtain ⟨k, -, hk, harg⟩ := h.lookup hx
  simp only [store, hk, harg]
  exact pushInstruction_run _ _ _

/-! ## Expressions -/

/-- A variable that has a value is declared. -/
theorem slot_isSome {D : Scopes Unit} {x : String} (h : (D.get x).isSome) :
    (Scopes.slot D.names x).isSome := by
  obtain ⟨v, hv⟩ := Option.isSome_iff_exists.mp h
  have hagree : Scopes.Agree (fun _ _ => True) D := by
    clear hv h
    induction D with
    | nil => trivial
    | cons _ _ ih => exact ⟨fun _ _ _ _ => trivial, ih⟩
  obtain ⟨k, hk, -⟩ := Scopes.get_slot hagree hv
  exact Option.isSome_iff_exists.mpr ⟨k, hk⟩

theorem pushOperation_run (typed : Bool) (op : CoreOp) (code : List Instruction) :
    (pushOperation op.operType (operationType typed)).Ok code () (code ++ op.code typed) := by
  cases op <;> cases typed <;>
    simp [pushOperation, pushOperator, pushCMP, CoreOp.operType, operationType, CoreOp.code,
      cmpCode, pushInstruction_ok, OpCode.toNat] <;> decide

theorem assembleIncrement_run (h : NamesOf A scope names) {x : String}
    (hx : (Scopes.slot names x).isSome) (type varType : ValueType) (decrement : Bool)
    (code : List Instruction) :
    (assembleIncrement A scope (if decrement then .decrement else .increment) 0 x none true).Ok code
      () (code ++ (CoreExpr.increment type decrement varType x).code names) := by
  refine (h.load_run hx code).bind ?_
  simp only [pushIf_ok, pushInstruction_ok, Attempt.bind_ok, exists_eq_left', exists_const]
  cases decrement
  · have hstore := h.store_run hx (code ++ [⟨.loadVar, [slotArg names x]⟩, ⟨.dup, []⟩,
      ⟨.pushI, [1]⟩, ⟨.addI, []⟩])
    rw [List.append_assoc] at hstore
    simpa [CoreExpr.code] using hstore
  · have hstore := h.store_run hx (code ++ [⟨.loadVar, [slotArg names x]⟩, ⟨.dup, []⟩,
      ⟨.pushI, [1]⟩, ⟨.swap, []⟩, ⟨.subI, []⟩])
    rw [List.append_assoc] at hstore
    simpa [CoreExpr.code] using hstore

theorem assembleIncrementStatement_run (h : NamesOf A scope names) {x : String}
    (hx : (Scopes.slot names x).isSome) (type varType : ValueType) (decrement : Bool)
    (code : List Instruction) :
    (assembleIncrement A scope (if decrement then .decrement else .increment) 0 x none false).Ok
      code () (code ++ (CoreSimple.increment type decrement varType x).code names) := by
  obtain ⟨k, hk, -, harg⟩ := h.lookup hx
  rw [CoreSimple.code, harg]
  simp only [assembleIncrement, hk, pushInstruction_ok]
  cases decrement <;> rfl

/-- **An expression is assembled as an operand to its code.** -/
theorem assembleExpression_core {D : Scopes Unit} (h : NamesOf A scope D.names) {e : CoreExpr}
    (he : e.check D = true) (inReference : Bool) (code : List Instruction) :
    (assembleExpression A e.expression scope none inReference true).Ok code ()
      (code ++ e.code D.names) := by
  induction e generalizing inReference code with
  | integer type i => exact pushInstruction_run _ _ _
  | var type name => exact h.load_run (slot_isSome he) code
  | oper typed op left right ihl ihr =>
    obtain ⟨hr, hl⟩ := Bool.and_eq_true_iff.mp he
    have hoper := pushOperation_run typed op (code ++ right.code D.names ++ left.code D.names)
    rw [CoreExpr.code, ← List.append_assoc, ← List.append_assoc]
    cases op <;>
      exact (ihr hr _ _).bind ((ihl hl _ _).bind hoper)
  | not typed right ih =>
    refine (ih he _ code).bind ?_
    rw [CoreExpr.code, ← List.append_assoc]
    cases typed <;> exact pushInstruction_run _ _ _
  | increment type decrement varType name =>
    have hrun := assembleIncrement_run h (slot_isSome he) type varType decrement code
    cases decrement <;> exact Attempt.Ok.bind (Attempt.pure_ok.mpr ⟨rfl, rfl⟩) hrun

theorem CoreExpr.code_length_pos (names : List (List String)) (e : CoreExpr) :
    0 < (e.code names).length := by
  cases e with
  | oper typed op left right =>
    simp only [CoreExpr.code, List.length_append]
    cases op <;> exact Nat.add_pos_right _ (Nat.succ_pos _)
  | _ => simp [CoreExpr.code]

/-- The last instruction of an operator that a test is not collapsed with. -/
theorem CoreOp.code_last (typed : Bool) {op : CoreOp} (h : op.fused = none) :
    ∃ code inst, op.code typed = code ++ [inst] ∧
      inst.op ≠ .pushCE ∧ inst.op ≠ .pushCL ∧ inst.op ≠ .pushCLE := by
  cases op with
  | equals => cases h
  | lessThan => cases h
  | lessThanEqual => cases h
  | notEqual => exact ⟨[cmpCode typed], ⟨.pushCNE, []⟩, rfl, by decide⟩
  | greaterThan => exact ⟨[cmpCode typed], ⟨.pushCG, []⟩, rfl, by decide⟩
  | greaterThanEqual => exact ⟨[cmpCode typed], ⟨.pushCGE, []⟩, rfl, by decide⟩
  | _ =>
    refine ⟨[], _, rfl, ?_⟩
    cases typed <;> decide

/-- What a test that is not collapsed ends with. -/
theorem CoreExpr.code_last (names : List (List String)) (e : CoreExpr)
    (h : ∀ typed op left right, e = .oper typed op left right → op.fused = none) :
    ∃ code inst, e.code names = code ++ [inst] ∧
      inst.op ≠ .pushCE ∧ inst.op ≠ .pushCL ∧ inst.op ≠ .pushCLE := by
  cases e with
  | integer type i => exact ⟨[], _, rfl, nofun, nofun, nofun⟩
  | var type name => exact ⟨[], _, rfl, nofun, nofun, nofun⟩
  | oper typed op left right =>
    obtain ⟨code, inst, hcode, hlast⟩ := CoreOp.code_last typed (h typed op left right rfl)
    refine ⟨right.code names ++ left.code names ++ code, inst, ?_, hlast⟩
    rw [CoreExpr.code, hcode, List.append_assoc _ code]
  | not typed right =>
    refine ⟨right.code names, _, rfl, ?_⟩
    cases typed <;> decide
  | increment type decrement varType name => exact ⟨_, _, rfl, nofun, nofun, nofun⟩

/-- **A test is assembled to its code**, with the target of the branch left open. -/
theorem assembleTest_core {D : Scopes Unit} (h : NamesOf A scope D.names) {e : CoreExpr}
    (he : e.check D = true) (code : List Instruction) :
    (do assembleExpression A e.expression scope none false true
        finishTest : Asm Unit).Ok code ()
      (code ++ (e.test D.names).1 ++ [⟨(e.test D.names).2, [0]⟩]) := by
  refine (assembleExpression_core h he false code).bind ?_
  by_cases hfused : ∃ typed op left right branch, e = .oper typed op left right ∧
      op.fused = some branch
  · obtain ⟨typed, op, left, right, branch, rfl, hop⟩ := hfused
    have hl := CoreExpr.code_length_pos D.names left
    have hr := CoreExpr.code_length_pos D.names right
    have hlen : 2 ≤ (code ++ (right.code D.names ++ left.code D.names ++ [cmpCode typed])).length := by
      simp only [List.length_append]
      omega
    have hcode : ∀ inst, op.code typed = [cmpCode typed, inst] →
        code ++ (CoreExpr.oper typed op left right).code D.names =
          code ++ (right.code D.names ++ left.code D.names ++ [cmpCode typed]) ++ [inst] := by
      intro inst hinst
      rw [CoreExpr.code, hinst]
      simp
    have htest : (CoreExpr.oper typed op left right).test D.names =
        (right.code D.names ++ left.code D.names ++ [cmpCode typed], branch) := by
      simp only [CoreExpr.test, hop]
    rw [htest]
    cases op with
    | equals =>
      cases hop
      rw [hcode ⟨.pushCE, []⟩ rfl]
      exact finishTest_fused hlen (.inl rfl)
    | lessThan =>
      cases hop
      rw [hcode ⟨.pushCL, []⟩ rfl]
      exact finishTest_fused hlen (.inr (.inl rfl))
    | lessThanEqual =>
      cases hop
      rw [hcode ⟨.pushCLE, []⟩ rfl]
      exact finishTest_fused hlen (.inr (.inr rfl))
    | _ => cases hop
  · have hnone : ∀ typed op left right, e = .oper typed op left right → op.fused = none := by
      intro typed op left right he
      cases hop : op.fused with
      | none => rfl
      | some branch => exact absurd ⟨typed, op, left, right, branch, he, hop⟩ hfused
    have htest : e.test D.names = (e.code D.names ++ [⟨.pushI, [0]⟩, ⟨.cmpI, []⟩], .bEq) := by
      unfold CoreExpr.test
      split
      · next typed op left right =>
        split
        · next hop => rw [hnone _ _ _ _ rfl] at hop; cases hop
        · rfl
      · rfl
    obtain ⟨init, inst, hcode, hlast⟩ := CoreExpr.code_last D.names e hnone
    have hplain := finishTest_plain (code ++ init) hlast
    rw [htest, hcode]
    simpa using hplain

/-! ## Statements -/

theorem CoreSimple.assemble_core {D D' : Scopes Unit} (h : NamesOf A scope D.names)
    {s : CoreSimple} (hs : s.check D = some D') (code : List Instruction) :
    (assembleExpression A s.expression scope none false false).Ok code ()
      (code ++ s.code D.names) := by
  cases s with
  | set type varType name value =>
    rw [CoreSimple.check] at hs
    split at hs
    · next hvalue =>
      have hslot : (Scopes.slot D.names name).isSome := by
        rw [← Scopes.set_isSome (a := ()), hs]
        rfl
      have hstore := h.store_run hslot (code ++ value.code D.names)
      rw [CoreSimple.code, ← List.append_assoc]
      exact (assembleExpression_core h hvalue false code).bind
        (Attempt.Ok.bind ((pushIf_ok (u := ())).mpr (List.append_nil _)) hstore)
    · cases hs
  | increment type decrement varType name =>
    rw [CoreSimple.check] at hs
    split at hs
    · next hname =>
      have hrun := assembleIncrementStatement_run h (slot_isSome hname) type varType decrement code
      cases decrement <;> exact Attempt.Ok.bind (Attempt.pure_ok.mpr ⟨rfl, rfl⟩) hrun
    · cases hs

theorem CoreSimple.assembleOption_core {D D' : Scopes Unit} (h : NamesOf A scope D.names)
    {s : Option CoreSimple} (hs : CoreSimple.checkOption s D = some D')
    (code : List Instruction) :
    (assembleOptional A (s.map CoreSimple.expression) scope).Ok code ()
      (code ++ CoreSimple.codeOption D.names s) := by
  cases s with
  | none => exact Attempt.pure_ok.mpr ⟨rfl, (List.append_nil _).symm⟩
  | some s => exact CoreSimple.assemble_core h hs code

/-- A block of a statement, numbered from `id`. -/
def coreBlock (vars : List String) (body : CoreCode) (id : ℕ) : CodeBlock :=
  (CodeBlock.mk true 0 0 vars body.statements).setStartingVarId id

/-- What is to be shown of some statements: they are assembled to their code, behind any other code
    and under any scope with their names. -/
def CoreCode.Assembles (A : AsmEnv) (c : CoreCode) : Prop :=
  ∀ (scope : Scope) (names : List (List String)) (D D' : Scopes Unit), NamesOf A scope names →
    D.names = names → c.check D = some D' → c.avoids "this" = true → ∀ code,
      (assembleStatements A (setStatementsVarId (Scopes.start names) c.statements) scope).Ok code ()
        (code ++ c.code names code.length)

theorem CoreCode.Assembles.block {vars : List String} {body : CoreCode} {D C : Scopes Unit}
    (hbody : body.Assembles A) (h : NamesOf A scope D.names) (hthis : "this" ∉ vars)
    (havoids : body.avoids "this" = true) (hC : body.check (D.enter vars) = some C)
    (code : List Instruction) :
    (assembleBlock A (coreBlock vars body (Scopes.start D.names)) scope).Ok code ()
      (code ++ body.code (vars :: D.names) code.length) :=
  hbody _ _ _ _ (h.enter hthis true _ _) (Scopes.names_enter vars D) hC havoids code

theorem test_length (names : List (List String)) (test : CoreExpr) (code : List Instruction) :
    code.length + test.testLength names = (code ++ (test.test names).1).length + 1 := by
  rw [List.length_append, CoreExpr.testLength, Nat.add_assoc]

theorem assembleStatements_cons {expr : Expression} {statements : List Expression}
    {code code' code'' : List Instruction}
    (h : (assembleExpression A expr scope none false false).Ok code () code')
    (hrest : (assembleStatements A statements scope).Ok code' () code'') :
    (assembleStatements A (expr :: statements) scope).Ok code () code'' := h.bind hrest

/-- **Statements are assembled to their code.** -/
theorem assembleStatements_core (A : AsmEnv) (c : CoreCode) : c.Assembles A := by
  induction c with
  | done =>
    intro scope names D D' h hD hc hthis code
    exact Attempt.pure_ok.mpr ⟨rfl, (List.append_nil _).symm⟩
  | simple s rest ih =>
    rintro scope _ D D' h rfl hc hthis code
    obtain ⟨D₁, hs, hc⟩ := Option.bind_eq_some_iff.mp hc
    have hrest := ih _ _ _ _ h (CoreSimple.check_names hs) hc hthis (code ++ s.code D.names)
    have hstatement : setStatementVarId (Scopes.start D.names) s.expression = s.expression := by
      cases s <;> rfl
    rw [CoreCode.code, ← List.append_assoc, CoreCode.statements, setStatementsVarId, hstatement]
    rw [List.length_append] at hrest
    exact (CoreSimple.assemble_core h hs code).bind hrest
  | ifThen test vars body rest ihb ihr =>
    rintro scope _ D D' h rfl hc hthis code
    rw [CoreCode.check] at hc
    split at hc
    · next hcheck =>
      obtain ⟨htest, hbody⟩ := Bool.and_eq_true_iff.mp hcheck
      obtain ⟨C, hC⟩ := Option.isSome_iff_exists.mp hbody
      simp only [CoreCode.avoids, Bool.and_eq_true, decide_eq_true_eq] at hthis
      have htestRun := assembleTest_core h htest code
      have hbodyRun := ihb.block h hthis.1.1 hthis.1.2 hC
        (code ++ (test.test D.names).1 ++ [⟨(test.test D.names).2, [0]⟩])
      have hrest := ihr _ _ _ _ h rfl hc hthis.2
      have hrun := assembleStatements_cons
        (assembleIf_run none false false htestRun hbodyRun) (hrest _)
      rw [CoreCode.code, test_length, CoreExpr.testCode]
      simpa [CoreCode.statements, setStatementsVarId, setStatementVarId, setElseVarId, coreBlock,
        CodeBlock.linked, Nat.add_assoc, Nat.add_comm, Nat.add_left_comm] using hrun
    · cases hc
  | ifElse test vars body vars' body' rest ihb ihb' ihr =>
    rintro scope _ D D' h rfl hc hthis code
    rw [CoreCode.check] at hc
    split at hc
    · next htest =>
      obtain ⟨C, hC, hc⟩ := Option.bind_eq_some_iff.mp hc
      obtain ⟨C', hC', hc⟩ := Option.bind_eq_some_iff.mp hc
      have h1 : Scopes.names C.tail = D.names := by
        rw [Scopes.names_tail, CoreCode.check_names hC, Scopes.names_enter, List.tail_cons]
      have h2 : Scopes.names C'.tail = D.names := by
        rw [Scopes.names_tail, CoreCode.check_names hC', Scopes.names_enter, List.tail_cons]
      simp only [CoreCode.avoids, Bool.and_eq_true, decide_eq_true_eq] at hthis
      have htestRun := assembleTest_core h htest code
      have hbodyRun := ihb.block h hthis.1.1.1 hthis.1.1.2 hC
        (code ++ (test.test D.names).1 ++ [⟨(test.test D.names).2, [0]⟩])
      have hbodyRun' := ihb'.block h hthis.1.2.1 hthis.1.2.2 hC'
      have hrest := ihr _ _ _ _ h ((Scopes.names_meet (h1.trans h2.symm)).trans h1) hc hthis.2
      have hrun := assembleStatements_cons
        (assembleIfElse_run none false false htestRun hbodyRun rfl (hbodyRun' _)) (hrest _)
      rw [CoreCode.code, test_length, CoreExpr.testCode]
      simpa [CoreCode.statements, setStatementsVarId, setStatementVarId, setElseVarId, coreBlock,
        CodeBlock.linked, Nat.add_assoc, Nat.add_comm, Nat.add_left_comm] using hrun
    · cases hc
  | loop init test inc vars body rest ihb ihr =>
    rintro scope _ D D' h rfl hc hthis code
    obtain ⟨D₁, hinit, hc⟩ := Option.bind_eq_some_iff.mp hc
    have hnames := CoreSimple.checkOption_names hinit
    split at hc
    · next htest =>
      obtain ⟨C, hC, hc⟩ := Option.bind_eq_some_iff.mp hc
      obtain ⟨C', hinc, hc⟩ := Option.bind_eq_some_iff.mp hc
      have hCnames : Scopes.names C.tail = D.names := by
        rw [Scopes.names_tail, CoreCode.check_names hC, Scopes.names_enter, List.tail_cons, hnames]
      simp only [CoreCode.avoids, Bool.and_eq_true, decide_eq_true_eq] at hthis
      have h₁ : NamesOf A scope D₁.names := hnames ▸ h
      have hinitRun := CoreSimple.assembleOption_core h hinit code
      have htestRun := assembleTest_core h₁ htest (code ++ CoreSimple.codeOption D.names init)
      have hbodyRun := ihb.block h₁ hthis.1.1 hthis.1.2 hC (code ++
        CoreSimple.codeOption D.names init ++ (test.test D₁.names).1 ++
        [⟨(test.test D₁.names).2, [0]⟩])
      have hincRun := fun code => CoreSimple.assembleOption_core (hCnames ▸ h) hinc code
      have hrest := ihr _ _ _ _ h hnames hc hthis.2
      rw [hnames] at htestRun hbodyRun
      rw [hCnames] at hincRun
      have hrun := assembleStatements_cons
        (assembleFor_run none false false hinitRun htestRun hbodyRun (hincRun _)) (hrest _)
      rw [CoreCode.code, ← List.length_append, test_length, CoreExpr.testCode]
      simpa [CoreCode.statements, setStatementsVarId, setStatementVarId, coreBlock,
        CodeBlock.linked, Nat.add_assoc, Nat.add_comm, Nat.add_left_comm] using hrun
    · cases hc
  | ret value rest ih =>
    rintro scope _ D D' h rfl hc hthis code
    cases value with
    | none =>
      have hret : (assembleExpression A (.returnExpr none) scope none false false).Ok code ()
          (code ++ [⟨.pushI, [0]⟩] ++ [⟨.ret, []⟩]) := by
        rw [assembleExpression]
        exact (pushInstruction_run _ _ _).seq (pushInstruction_run _ _ _)
      have hrun := assembleStatements_cons hret (ih _ _ _ _ h (Scopes.names_full D) hc hthis _)
      simpa [CoreCode.code, CoreCode.statements, setStatementsVarId, setStatementVarId] using hrun
    | some value =>
      rw [CoreCode.check] at hc
      split at hc
      · next hvalue =>
        have hret : (assembleExpression A (.returnExpr (some value.expression)) scope none false
            false).Ok code () (code ++ value.code D.names ++ [⟨.ret, []⟩]) := by
          rw [assembleExpression]
          exact (assembleExpression_core h hvalue false code).seq (pushInstruction_run _ _ _)
        have hrun := assembleStatements_cons hret (ih _ _ _ _ h (Scopes.names_full D) hc hthis _)
        simpa [CoreCode.code, CoreCode.statements, setStatementsVarId, setStatementVarId,
          Nat.add_assoc] using hrun
      · cases hc

/-- The names that are seen from the body of a function. -/
theorem namesOf_body {f : CoreFunction} (hargs : A.args = f.params) (hparams : "this" ∉ f.params) :
    NamesOf A [] [f.params] := by
  have hslot (x : String) : Scopes.slot [f.params] x = getArgId f.params x := by
    rw [Scopes.slot, getArgId]
    cases f.params.idxOf? x <;> rfl
  refine ⟨?_, ?_⟩
  · intro x _
    rw [Scope.getVarId, hargs, hslot]
  · rw [hslot, getArgId, List.idxOf?_eq_none_iff.mpr hparams]
    rfl

/-- **A function of the integer core is assembled to its code.** -/
theorem assembleFunction_core {f : CoreFunction} (hargs : A.args = f.params)
    (hassigned : f.AssignedBeforeRead) (hthis : f.avoids "this" = true) :
    (assembleFunction A f.body).Ok [] () f.code' := by
  obtain ⟨D, hD⟩ := Option.isSome_iff_exists.mp hassigned
  simp only [CoreFunction.avoids, Bool.and_eq_true, decide_eq_true_eq] at hthis
  have hparams : Scopes.names [f.params.map (fun x => (x, some ()))] = [f.params] := by
    simp [Function.comp_def]
  have h : NamesOf A [] (Scopes.names [f.params.map (fun x => (x, some ()))]) :=
    hparams ▸ namesOf_body hargs hthis.1.1
  have hbody := assembleStatements_core A f.code _ _ _ _
    (h.enter hthis.1.2 false f.body.maxVarId f.body.code) (Scopes.names_enter f.vars _) hD hthis.2 []
  have hstart : Scopes.start [f.params] = f.params.length + 1 := Nat.add_comm 1 _
  rw [hparams, Scopes.start, hstart] at hbody
  refine Attempt.Ok.bind hbody ((pushInstruction_run _ _ _).bind (pushInstruction_ok.mpr ?_))
  rw [CoreFunction.code', CoreFunction.names, List.nil_append, List.append_assoc]
  rfl

end B0rk
