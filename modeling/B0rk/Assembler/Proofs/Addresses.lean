import B0rk.Assembler.Proofs.Parts
import B0rk.Assembler.Proofs.Swallowed

set_option autoImplicit false

/-! # Every address is written where its instruction is

The parts of each script, and how much code it emits at least, by recursion on the calls. -/

namespace B0rk

open Script AsmScript Relation

variable {A : AsmEnv}

/-! ## How much is emitted -/

/-- The calls that emit at least one instruction. -/
def AsmStep.emits : AsmStep → Bool
  | expression (.oper _ .reference _ _) _ (.under _) _ => false
  | function _ | expression .. | dest .. | increment .. | load .. | store .. => true
  | block .. | statements .. | params .. | reference .. => false

/-- The scripts that emit at least one instruction if they succeed. -/
def Lengthening : AsmScript → Prop
  | .done => False
  | .fail => True
  | .act (.patch ..) rest | .act .branch rest => Lengthening rest
  | .act .. => True
  | .look k => ∀ s, Lengthening (k s)
  | .call c rest | .attempt c _ rest => c.emits ∨ Lengthening rest

theorem length_of_finishTest {v u : List Instruction} (h : finishTest.Ok v () u) :
    v.length ≤ u.length := by
  obtain ⟨init, dropped, extra, op, rfl, rfl, hone, -⟩ := finishTest_ok h
  simp only [List.length_append, List.length_singleton]
  omega

theorem length_of_perform {e : AsmAction} {s u : List Instruction} (h : e.perform.Ok s () u) :
    s.length ≤ u.length ∧ ((∀ pos arg, e ≠ .patch pos arg) → e ≠ .branch → s.length < u.length) := by
  have hpush : ∀ {op : OpCode} {args : List Word}, (pushInstruction op args).Ok s () u →
      s.length < u.length := by
    intro op args h
    obtain rfl := pushInstruction_ok.mp h
    simp
  cases e with
  | push op args => exact ⟨(hpush h).le, fun _ _ => hpush h⟩
  | jump dest => exact ⟨(hpush h).le, fun _ _ => hpush h⟩
  | handler var => exact ⟨(hpush h).le, fun _ _ => hpush h⟩
  | branch => exact ⟨length_of_finishTest h, fun _ hne => absurd rfl hne⟩
  | patch pos arg =>
    refine ⟨?_, fun hne => absurd rfl (hne pos arg)⟩
    simp only [AsmAction.perform, Attempt.Ok, B0rk.patch, Option.bind_eq_bind,
      Option.bind_eq_some_iff] at h
    obtain ⟨_, _, inst, _, h⟩ := h
    split at h
    · cases h
      simp
    · cases h
  | undefined => exact absurd h (by simp [AsmAction.perform])

/-- What a call emits that succeeds, and drops nothing. -/
def Lengthens (A : AsmEnv) (c : AsmStep) : Prop :=
  ∀ s t, (asmFamily A).Succeeds (c.script A) s t →
    s.length ≤ t.length ∧ (c.emits = true → s.length < t.length)

theorem lengths_of_script {script : AsmScript} (hcalls : AllCalls (Lengthens A) script)
    {s t : List Instruction} (h : (asmFamily A).Succeeds script s t) :
    s.length ≤ t.length ∧ (Lengthening script → s.length < t.length) := by
  induction script generalizing s with
  | done =>
    obtain ⟨-, rfl⟩ := Attempt.pure_ok.mp h.1
    exact ⟨le_rfl, False.elim⟩
  | fail => exact absurd h.1 (by simp [Script.interp])
  | act e rest ih =>
    obtain ⟨u, he, hrest⟩ := h.act
    obtain ⟨hle, hlt⟩ := length_of_perform he
    obtain ⟨hle', hlt'⟩ := ih hcalls hrest
    refine ⟨hle.trans hle', fun hemits => ?_⟩
    cases e with
    | patch pos arg => exact hle.trans_lt (hlt' hemits)
    | branch => exact hle.trans_lt (hlt' hemits)
    | _ => exact (hlt (by rintro _ _ ⟨⟩) (by rintro ⟨⟩)).trans_le hle'
  | look k ih =>
    obtain ⟨hle, hlt⟩ := ih s (hcalls s) h.look
    exact ⟨hle, fun hemits => hlt (hemits s)⟩
  | call c rest ih =>
    obtain ⟨u, hc, hrest⟩ := h.call
    obtain ⟨hle, hlt⟩ := hcalls.1 s u hc
    obtain ⟨hle', hlt'⟩ := ih hcalls.2 hrest
    refine ⟨hle.trans hle', ?_⟩
    rintro (hemits | hemits)
    · exact (hlt hemits).trans_le hle'
    · exact hle.trans_lt (hlt' hemits)
  | attempt c success rest ih =>
    obtain ⟨u, v, hc, hsuccess, hrest⟩ := h.attempt
    obtain ⟨hle, hlt⟩ := hcalls.1 s u hc
    have hv : u.length ≤ v.length := by
      cases success with
      | none =>
        obtain ⟨-, rfl⟩ := Attempt.pure_ok.mp hsuccess
        exact le_rfl
      | some e => exact (length_of_perform hsuccess).1
    obtain ⟨hle', hlt'⟩ := ih hcalls.2 hrest
    refine ⟨hle.trans (hv.trans hle'), ?_⟩
    rintro (hemits | hemits)
    · exact (hlt hemits).trans_le (hv.trans hle')
    · exact (hle.trans hv).trans_lt (hlt' hemits)

section

variable {rest : AsmScript}

theorem emits_pushIf (cond : Bool) (op : OpCode) (h : Lengthening rest) :
    Lengthening (AsmScript.pushIf cond op rest) := by
  cases cond with
  | true => trivial
  | false => exact h

theorem emits_optional (expr : Option Expression) (scope : Scope) (place : Place) (needResult : Bool)
    (h : Lengthening rest) : Lengthening (AsmScript.optional expr scope place needResult rest) := by
  cases expr with
  | none => exact h
  | some e => exact .inr h

theorem emits_reference (place : Place) (scope : Scope) (h : Lengthening rest) :
    Lengthening (AsmScript.reference place scope rest) := by
  cases place with
  | alone => exact h
  | under expr => exact .inr h

theorem loadScript_emits (clazz : Word) (var : String) (scope : Scope) (place : Place) :
    Lengthening (loadScript A clazz var scope place) := by
  cases place with
  | under expr => exact .inr trivial
  | alone =>
    unfold loadScript
    by_cases hclazz : clazz ≠ 0
    · rw [if_pos hclazz]
      cases A.chain clazz with
      | none => trivial
      | some chain => cases h : chain.getStaticFieldId var <;> simp [h, Lengthening, AsmScript.push]
    · rw [if_neg hclazz]
      cases localId A scope var with
      | some id => trivial
      | none =>
        rcases A.clazz with _ | ⟨address, chain⟩
        · trivial
        · cases h : chain.getFieldId var with
          | some id => simp [h, Lengthening, AsmScript.push]
          | none => cases h' : chain.getStaticFieldId var <;> simp [h, h', Lengthening, AsmScript.push]

theorem storeScript_emits (var : String) (scope : Scope) (place : Place) :
    Lengthening (storeScript A var scope place) := by
  cases place with
  | under expr => exact .inr trivial
  | alone =>
    unfold storeScript
    cases localId A scope var with
    | some id => trivial
    | none =>
      rcases A.clazz with _ | ⟨address, chain⟩
      · trivial
      · cases h : chain.getFieldId var with
        | some id => simp [h, Lengthening, AsmScript.push]
        | none => cases h' : chain.getStaticFieldId var <;> simp [h, h', Lengthening, AsmScript.push]

theorem callScript_emits (clazz : Word) (function : String) (count : ℕ) (scope : Scope)
    (place : Place) : Lengthening (callScript A clazz function count scope place rest) := by
  unfold callScript
  by_cases hclazz : clazz ≠ 0
  · rw [if_pos hclazz]
    cases A.chain clazz with
    | none => trivial
    | some chain => trivial
  · rw [if_neg hclazz]
    cases place with
    | under reference => trivial
    | alone reference =>
      cases reference with
      | true => trivial
      | false =>
        dsimp only
        cases scope.getVarId A.args function with
        | some id => exact .inl rfl
        | none =>
          rcases A.clazz with _ | ⟨address, chain⟩
          · trivial
          · dsimp only
            by_cases hfield : (chain.getFieldId function).isSome
            · rw [if_pos hfield]
              exact .inl rfl
            · rw [if_neg hfield]
              cases chain.findMethod function with
              | none => trivial
              | some func =>
                dsimp only
                split <;> trivial

theorem operTailScript_emits {operType : OpType} (hoper : operType ≠ .reference) (type : ValueType)
    (left : Option Expression) (scope : Scope) (place : Place) (needResult : Bool) :
    Lengthening (operTailScript type operType left scope place needResult) := by
  have increment (op : OpType) (h : op = .increment ∨ op = .decrement) :
      Lengthening (operTailScript type op left scope place needResult) := by
    cases left with
    | none => rcases h with rfl | rfl <;> trivial
    | some left =>
      unfold operTailScript
      rcases hvar : left.asVar with _ | ⟨clazz, var⟩
      · rcases h with rfl | rfl <;> simp [hvar, Lengthening]
      · rcases h with rfl | rfl <;> simp [hvar, Lengthening, AsmStep.emits]
  have operation : Lengthening (AsmScript.optional left scope (.alone false) true
      ((operationCode operType type).elim .fail fun ops =>
        AsmScript.pushAll (ops.map fun op => ⟨op, []⟩) .done)) := by
    have hops : ∀ ops, operationCode operType type = some ops → ops ≠ [] := by
      cases operType <;> cases type <;> decide
    refine emits_optional _ _ _ _ ?_
    cases hcode : operationCode operType type with
    | none => trivial
    | some ops =>
      cases ops with
      | nil => exact absurd rfl (hops [] hcode)
      | cons op ops => trivial
  cases operType with
  | increment => exact increment _ (.inl rfl)
  | decrement => exact increment _ (.inr rfl)
  | set =>
    unfold operTailScript
    refine emits_pushIf _ _ ?_
    cases left with
    | none => trivial
    | some left => exact .inl rfl
  | reference => exact absurd rfl hoper
  | none => exact emits_optional _ _ _ _ trivial
  | _ => exact operation

end

theorem refChild_not_reference {child : Expression} : ∀ {expr : Expression},
    expr.refChild = some child → ∀ type left right, child ≠ .oper type .reference left right := by
  intro expr
  fun_induction Expression.refChild expr with
  | case1 type left right ih => exact ih
  | case2 => rintro ⟨⟩
  | case3 expr hsome hnone =>
    rintro h type left right rfl
    cases h
    cases right with
    | none => exact hnone _ _ rfl
    | some right => exact hsome _ _ _ rfl

theorem AsmStep.emits_alone (expr : Expression) (scope : Scope) (inReference needResult : Bool) :
    (expression expr scope (.alone inReference) needResult).emits = true := by
  cases expr with
  | oper type operType => cases operType <;> rfl
  | _ => rfl

theorem AsmStep.emits_expression {expr : Expression} {scope : Scope} {place : Place}
    {needResult : Bool} (h : (expression expr scope place needResult).emits = true) :
    Lengthening (expressionScript A expr scope place needResult) := by
  cases expr with
  | call type clazz function parameters =>
    rw [expressionScript]
    exact .inr (emits_reference _ _ (callScript_emits _ _ _ _ _))
  | oper type operType left right =>
    by_cases hoper : operType = .reference
    · subst hoper
      cases place with
      | under reference => cases h
      | alone inReference =>
        cases right with
        | none => trivial
        | some right =>
          rw [expressionScript]
          cases hchild : right.refChild with
          | none => trivial
          | some child =>
            refine .inl ?_
            have hnot := refChild_not_reference hchild
            cases child with
            | oper type operType left right =>
              cases operType with
              | reference => exact absurd rfl (hnot _ _ _)
              | _ => rfl
            | _ => rfl
    · rw [expressionScript_oper A fun h => absurd h hoper]
      exact emits_optional _ _ _ _ (operTailScript_emits hoper _ _ _ _ _)
  | ifExpr test trueBlock falseBlock => cases falseBlock <;> exact .inl (emits_alone ..)
  | forExpr init test inc body => exact emits_optional _ _ _ _ fun _ => .inl (emits_alone ..)
  | returnExpr value =>
    cases value with
    | none => trivial
    | some value => exact .inr trivial
  | tryExpr tryBlock exceptionVar catchBlock =>
    rw [expressionScript]
    cases Scope.getVarId A.args (catchBlock :: scope) exceptionVar <;> trivial
  | throwExpr value => exact .inr trivial
  | var type clazz var => exact .inl rfl
  | array type clazz var index => exact .inl rfl
  | new type clazz parameters =>
    rw [expressionScript]
    by_cases haddress : A.findClass (String.intercalate "." clazz) = 0
    · simp only [if_pos haddress]
      trivial
    · simp only [if_neg haddress]
      exact .inr trivial
  | string | integer | double => trivial
  | function type function => cases function <;> trivial

theorem AsmStep.emits_script {step : AsmStep} (h : step.emits = true) : Lengthening (step.script A) := by
  cases step with
  | function code => exact .inr trivial
  | expression expr scope place needResult => exact emits_expression h
  | dest left scope place =>
    cases left with
    | var type clazz var => exact .inl rfl
    | array type clazz var index => exact .inl rfl
    | oper type operType left right =>
      cases operType with
      | reference =>
        rw [script.eq_def]
        dsimp only
        rcases (Expression.oper .unknown .reference left right).refChild.bind Expression.asVar with
          _ | ⟨clazz, var⟩
        · trivial
        · exact .inl rfl
      | _ => trivial
    | _ => trivial
  | increment operType clazz var scope place needResult =>
    rw [script, incrementScript.eq_def]
    split
    · trivial
    · exact .inl rfl
  | load clazz var scope place => exact loadScript_emits _ _ _ _
  | store var scope place => exact storeScript_emits _ _ _
  | block | statements | params | reference => cases h

theorem AsmStep.lengthens (step : AsmStep) : Lengthens A step := by
  induction hrank : step.rank using Nat.strong_induction_on generalizing step with
  | _ rank ih =>
    intro s t h
    have hcalls : AllCalls (Lengthens A) (step.script A) :=
      AllCalls.imp (fun d hd => ih d.rank (hrank ▸ hd) d rfl) (step.calls_rank A)
    obtain ⟨hle, hlt⟩ := lengths_of_script hcalls h
    exact ⟨hle, fun hemits => hlt (emits_script hemits)⟩

theorem length_of_call {c : AsmStep} {s t : List Instruction}
    (h : (asmFamily A).Succeeds ((asmFamily A).body c) s t) :
    s.length ≤ t.length ∧ (c.emits = true → s.length < t.length) := c.lengthens s t h

/-! ## The parts of a script -/

/-- What a call that succeeds, and drops nothing, does with addresses. -/
def Owns (A : AsmEnv) (c : AsmStep) : Prop :=
  ∀ s t, (asmFamily A).Succeeds (c.script A) s t → PartOf A (c, s) (c.script A) s t ∅

section

variable {a : AsmCall} {script rest : AsmScript} {s t u : List Instruction} {filled : Set (ℕ × ℕ)}
  {c : AsmStep}

theorem PartOf.owned (hc : Owns A c) (h : (asmFamily A).Succeeds (c.script A) s u)
    (h' : PartOf A a rest u t filled) (hbefore : ∀ x ∈ filled, x.1 < s.length) :
    PartOf A a (.call c rest) s t filled :=
  .call h.run (hc s u h) h' hbefore

theorem Plain.part (h : Plain (Owns A) script) (hok : (asmFamily A).Succeeds script s t) :
    PartOf A a script s t ∅ := by
  induction script generalizing s with
  | done =>
    obtain ⟨-, rfl⟩ := Attempt.pure_ok.mp hok.1
    exact .done
  | fail => exact absurd hok.1 (by simp [Script.interp])
  | act e rest ih =>
    obtain ⟨u, he, hrest⟩ := hok.act
    cases e with
    | push op args =>
      obtain rfl := pushInstruction_ok.mp he
      exact .push (OpCode.address_of_isPlain h.1) (ih h.2 hrest) fun _ hx => hx.elim
    | undefined => exact absurd he (by simp [asmFamily, AsmAction.perform])
    | _ => exact h.elim
  | look k ih => exact h.elim
  | call c rest ih =>
    obtain ⟨u, hc, hrest⟩ := hok.call
    exact .owned h.1 hc (ih h.2 hrest) fun _ hx => hx.elim
  | attempt c success rest ih =>
    cases success with
    | some e => exact h.elim
    | none =>
      obtain ⟨u, v, hc, hsuccess, hrest⟩ := hok.attempt
      obtain ⟨-, rfl⟩ := Attempt.pure_ok.mp hsuccess
      exact .attempt hc.run (h.1 s u hc) (ih h.2 hrest) fun _ hx => hx.elim

theorem PartOf.withLast {k : Option ℕ → AsmScript} (hpos : 0 < s.length)
    (h : PartOf A a (k (some (s.length - 1))) s t filled) :
    PartOf A a (AsmScript.withLast k) s t filled := by
  refine .look ?_
  rwa [if_neg hpos.ne']

theorem succeeds_withLast {k : Option ℕ → AsmScript} (hpos : 0 < s.length)
    (h : (asmFamily A).Succeeds (AsmScript.withLast k) s t) :
    (asmFamily A).Succeeds (k (some (s.length - 1))) s t := by
  have h' := h.look
  rwa [if_neg hpos.ne'] at h'

/-- An expression that is there, or not, with what is behind it. -/
theorem PartOf.optional {expr : Option Expression} {scope : Scope} {place : Place}
    {needResult : Bool} (hc : ∀ e, expr = some e → Owns A (.expression e scope place needResult))
    (h : (asmFamily A).Succeeds (AsmScript.optional expr scope place needResult rest) s t)
    (hbefore : ∀ x ∈ filled, x.1 < s.length)
    (h' : ∀ u, s.length ≤ u.length → (asmFamily A).Succeeds rest u t →
      PartOf A a rest u t filled) :
    PartOf A a (AsmScript.optional expr scope place needResult rest) s t filled := by
  cases expr with
  | none => exact h' s le_rfl h
  | some e =>
    obtain ⟨u, hcall, hrest⟩ := h.call
    exact .owned (hc e rfl) hcall (h' u (length_of_call hcall).1 hrest) hbefore

/-- A test, and its branch at the end of the code. -/
theorem PartOf.branched {test : Expression} {scope : Scope}
    (hc : Owns A (.expression test scope (.alone false) true))
    (h : (asmFamily A).Succeeds
      (.attempt (.expression test scope (.alone false) true) (some .branch) rest) s t)
    (hbefore : ∀ x ∈ filled, x.1 < s.length)
    (h' : ∀ u, s.length < u.length → (asmFamily A).Succeeds rest u t →
      PartOf A a rest u t (insert (u.length - 1, 0) filled)) :
    PartOf A a (.attempt (.expression test scope (.alone false) true) (some .branch) rest) s t
      filled := by
  obtain ⟨v, u, hcall, hbranch, hrest⟩ := h.attempt
  have hlt := (length_of_call hcall).2 (AsmStep.emits_alone ..)
  exact .test hcall.run (hc s v hcall) hlt hbranch
    (h' u (hlt.trans_le (length_of_finishTest hbranch)) hrest) hbefore

end

/-! ## Statements with jumps -/

section

variable {a : AsmCall} {s t : List Instruction} {scope : Scope} (place : Place) (needResult : Bool)

theorem ifScript_part {test : Expression} {trueBlock : CodeBlock} {falseBlock : Option CodeBlock}
    (htest : Owns A (.expression test scope (.alone false) true))
    (htrue : Owns A (.block trueBlock scope))
    (hfalse : ∀ block, falseBlock = some block → Owns A (.block block scope))
    (h : (asmFamily A).Succeeds
      (expressionScript A (.ifExpr test trueBlock falseBlock) scope place needResult) s t) :
    PartOf A a (expressionScript A (.ifExpr test trueBlock falseBlock) scope place needResult) s t
      ∅ := by
  rw [expressionScript] at h ⊢
  refine .branched htest h (fun _ hx => hx.elim) fun u hu hbranched => ?_
  have hpos : 0 < u.length := by omega
  refine .withLast hpos ?_
  obtain ⟨v, hblock, hrest⟩ := (succeeds_withLast hpos hbranched).call
  have hv := (length_of_call hblock).1
  have hbefore : ∀ x ∈ insert (u.length - 1, 0) (∅ : Set (ℕ × ℕ)), x.1 < u.length := by
    rintro x (rfl | hx)
    · exact Nat.sub_lt hpos Nat.one_pos
    · exact hx.elim
  refine .owned htrue hblock ?_ hbefore
  cases falseBlock with
  | none =>
    obtain ⟨w, hpatch, hdone⟩ := hrest.act
    obtain ⟨-, rfl⟩ := Attempt.pure_ok.mp hdone.1
    exact .patch hpatch .done
  | some falseBlock =>
    obtain ⟨w, hjump, hrest⟩ := hrest.act
    obtain rfl := pushInstruction_ok.mp hjump
    have hw : 0 < (v ++ [(⟨.jmp, [0]⟩ : Instruction)]).length := by simp
    refine .opening (pushInstruction_run .jmp [0] v) (by rintro _ _ ⟨⟩) (by rintro _ ⟨⟩) rfl
      (.withLast hw ?_) fun x hx => (hbefore x hx).trans_le hv
    obtain ⟨w, hpatch, hrest⟩ := (succeeds_withLast hw hrest).act
    rw [Set.insert_comm]
    refine .patch hpatch ?_
    obtain ⟨w', hblock', hrest⟩ := hrest.call
    have hlast : (v ++ [(⟨.jmp, [0]⟩ : Instruction)]).length - 1 = v.length := by simp
    rw [hlast] at hrest ⊢
    obtain ⟨w'', hpatch', hdone⟩ := hrest.act
    obtain ⟨-, rfl⟩ := Attempt.pure_ok.mp hdone.1
    refine .owned (hfalse _ rfl) hblock' (.patch hpatch' .done) ?_
    rintro x (rfl | hx)
    · have := (length_of_perform (e := .patch (some (u.length - 1)) 0) hpatch).1
      rw [List.length_append, List.length_singleton] at this
      exact this
    · exact hx.elim

theorem forScript_part {init inc : Option Expression} {test : Expression} {body : CodeBlock}
    (hinit : ∀ e, init = some e → Owns A (.expression e scope (.alone false) false))
    (htest : Owns A (.expression test scope (.alone false) true)) (hbody : Owns A (.block body scope))
    (hinc : ∀ e, inc = some e → Owns A (.expression e scope (.alone false) false))
    (h : (asmFamily A).Succeeds
      (expressionScript A (.forExpr init test inc body) scope place needResult) s t) :
    PartOf A a (expressionScript A (.forExpr init test inc body) scope place needResult) s t ∅ := by
  rw [expressionScript] at h ⊢
  refine .optional hinit h (fun _ hx => hx.elim) fun r _ hinitial => .look ?_
  refine .branched htest hinitial.look (fun _ hx => hx.elim) fun u hu hbranched => ?_
  have hpos : 0 < u.length := by omega
  refine .withLast hpos ?_
  obtain ⟨v, hblock, hrest⟩ := (succeeds_withLast hpos hbranched).call
  have hbefore : ∀ n, u.length ≤ n → ∀ x ∈ insert (u.length - 1, 0) (∅ : Set (ℕ × ℕ)), x.1 < n := by
    rintro n hn x (rfl | hx)
    · exact (Nat.sub_lt hpos Nat.one_pos).trans_le hn
    · exact hx.elim
  have hv := (length_of_call hblock).1
  refine .owned hbody hblock (.optional hinc hrest (hbefore _ hv) fun w hw hback => ?_)
    (hbefore _ le_rfl)
  obtain ⟨w', hjump, hback⟩ := hback.act
  obtain rfl := pushInstruction_ok.mp hjump
  obtain ⟨w'', hpatch, hdone⟩ := hback.act
  obtain ⟨-, rfl⟩ := Attempt.pure_ok.mp hdone.1
  exact .jumpBack (.patch hpatch .done) (hbefore _ (hv.trans hw))

theorem tryScript_part {tryBlock catchBlock : CodeBlock} {exceptionVar : String}
    (htry : Owns A (.block tryBlock scope)) (hcatch : Owns A (.block catchBlock scope))
    (h : (asmFamily A).Succeeds
      (expressionScript A (.tryExpr tryBlock exceptionVar catchBlock) scope place needResult) s t) :
    PartOf A a (expressionScript A (.tryExpr tryBlock exceptionVar catchBlock) scope place needResult)
      s t ∅ := by
  rw [expressionScript] at h ⊢
  cases hvar : Scope.getVarId A.args (catchBlock :: scope) exceptionVar with
  | none =>
    rw [hvar] at h
    exact absurd h.1 (by simp [Script.interp])
  | some excepVar =>
    rw [hvar] at h
    obtain ⟨u, hpush, hrest⟩ := h.act
    obtain rfl := pushInstruction_ok.mp hpush
    have hpos (inst : Instruction) (code : List Instruction) : 0 < (code ++ [inst]).length := by simp
    have hlast (inst : Instruction) (code : List Instruction) :
        (code ++ [inst]).length - 1 = code.length := by simp
    refine .opening (pushInstruction_run .pushTry [BitVec.ofNat 64 excepVar, 0] s) (by rintro _ _ ⟨⟩)
      (by rintro _ ⟨⟩) rfl (.withLast (hpos _ _) ?_) fun _ hx => hx.elim
    obtain ⟨v, htryBlock, hrest⟩ := (succeeds_withLast (hpos _ _) hrest).call
    rw [hlast] at hrest ⊢
    have hv := (length_of_call htryBlock).1
    rw [List.length_append, List.length_singleton] at hv
    have hbefore : ∀ n, s.length < n → ∀ x ∈ insert (s.length, 1) (∅ : Set (ℕ × ℕ)), x.1 < n := by
      rintro n hn x (rfl | hx)
      · exact hn
      · exact hx.elim
    refine .owned htry htryBlock ?_ (hbefore _ (by simp))
    obtain ⟨w, hpop, hrest⟩ := hrest.act
    obtain rfl := pushInstruction_ok.mp hpop
    refine .push rfl ?_ (hbefore _ hv)
    obtain ⟨w, hjump, hrest⟩ := hrest.act
    obtain rfl := pushInstruction_ok.mp hjump
    refine .opening (pushInstruction_run .jmp [0] _) (by rintro _ _ ⟨⟩) (by rintro _ ⟨⟩) rfl
      (.withLast (hpos _ _) ?_) (hbefore _ (by simp; omega))
    obtain ⟨w, hpatch, hrest⟩ := (succeeds_withLast (hpos _ _) hrest).act
    rw [hlast] at hrest ⊢
    rw [Set.insert_comm]
    refine .patch hpatch ?_
    obtain ⟨w', hcatchBlock, hrest⟩ := hrest.call
    obtain ⟨w'', hpatch', hdone⟩ := hrest.act
    obtain ⟨-, rfl⟩ := Attempt.pure_ok.mp hdone.1
    refine .owned hcatch hcatchBlock (.patch hpatch' .done) ?_
    rintro x (rfl | hx)
    · have := (length_of_perform (e := .patch (some s.length) 1) hpatch).1
      rw [List.length_append, List.length_singleton] at this
      exact this
    · exact hx.elim

end

/-! ## All scripts -/

theorem AsmStep.owns (step : AsmStep) : Owns A step := by
  induction hrank : step.rank using Nat.strong_induction_on generalizing step with
  | _ rank ih =>
    intro s t h
    have hbelow : ∀ d : AsmStep, d.rank < step.rank → Owns A d := fun d hd => ih d.rank (hrank ▸ hd) d rfl
    cases hjumps : step.jumps with
    | false => exact ((plain A hjumps).imp hbelow).part h
    | true =>
      cases step with
      | expression expr scope place needResult =>
        have howns : ∀ checked d, Mentions (expressionScript A expr scope place needResult) checked d →
            Owns A d :=
          fun _ _ hd => hbelow _ ((AsmStep.calls_rank A _).mentions hd)
        cases expr with
        | ifExpr test trueBlock falseBlock =>
          refine ifScript_part place needResult (howns false _ .attempt)
            (howns true _ (.attemptRest (.look (s := []) .call))) ?_ h
          rintro block rfl
          exact howns true _
            (.attemptRest (.look (s := []) (.callRest (.act (.look (s := []) (.act .call))))))
        | forExpr init test inc body =>
          have hfor : ∀ checked d, Mentions (.attempt (.expression test scope (.alone false) true)
              (some .branch) (AsmScript.withLast fun bneToEndPos =>
                .call (.block body scope) <|
                AsmScript.optional inc scope (.alone false) false <|
                .act (.jump (some 0)) (.act (.patch bneToEndPos 0) .done))) checked d → Owns A d := by
            intro checked d hd
            refine howns checked d ?_
            cases init with
            | none => exact .look (s := []) hd
            | some init => exact .callRest (.look (s := []) hd)
          refine forScript_part place needResult ?_ (hfor false _ .attempt)
            (hfor true _ (.attemptRest (.look (s := []) .call))) ?_ h
          · rintro e rfl
            exact howns true _ .call
          · rintro e rfl
            exact hfor true _ (.attemptRest (.look (s := []) (.callRest .call)))
        | tryExpr tryBlock exceptionVar catchBlock =>
          cases hvar : Scope.getVarId A.args (catchBlock :: scope) exceptionVar with
          | none =>
            have hfail : AsmStep.script A (.expression (.tryExpr tryBlock exceptionVar catchBlock) scope
                place needResult) = .fail := by
              rw [script, expressionScript, hvar]
            rw [hfail] at h
            exact absurd h.1 (by simp [Script.interp])
          | some excepVar =>
            rw [expressionScript, hvar] at howns
            refine tryScript_part place needResult (howns true _ (.act (.look (s := []) .call))) ?_ h
            exact howns true _ (.act (.look (s := []) (.callRest (.act (.act (.look (s := [])
              (.act .call)))))))
        | _ => cases hjumps
      | _ => cases hjumps

/-- **Where no test has an error in it, each address of an accepted function is written by the call that
    has emitted the instruction, and no other call emits or writes anything there.** -/
theorem assembleFunction_ownAddresses {code : CodeBlock} {t : List Instruction}
    (hok : (assembleFunction A code).Ok [] () t) (htests : TestsAccepted A code) :
    OwnAddresses A (.function code, []) t := by
  have hnothing := (nothingDropped_function_iff hok).mpr htests
  have hpart : PartOf A (.function code, []) (AsmStep.script A (.function code)) [] t ∅ :=
    AsmStep.owns (.function code) [] t (Family.succeeds_body hnothing hok)
  intro pos inst arg hinst harg
  have hop : opAt t pos = some inst.op := by simp [opAt, hinst]
  obtain ⟨b, ⟨e, u, v, hemit, hmark⟩, ⟨e', u', v', hwrite, hmark'⟩, honly⟩ :=
    hpart.own pos inst.op arg (Nat.zero_le _) hop harg (Set.notMem_empty _)
  have hbelow : ∀ {b e u v}, (asmFamily A).Traces (.function code, []) (AsmStep.script A (.function code))
      [] b e u v ↔ ReflTransGen (asmFamily A).Makes (.function code, []) b ∧
        (asmFamily A).Does b e u v := Family.traces_body (F := asmFamily A) (a := (.function code, []))
  refine ⟨b, (hbelow.mp hemit).1, ⟨e, u, v, (hbelow.mp hemit).2, hmark⟩,
    ⟨e', u', v', (hbelow.mp hwrite).2, hmark'⟩, ?_⟩
  rintro b' m hb' ⟨e, u, v, hdoes, hm⟩ hat
  exact honly b' m ⟨e, u, v, hbelow.mpr ⟨hb', hdoes⟩, hm⟩ hat

/-- `return 1` -/
def acceptedBlock : CodeBlock := .mk true 1 1 [] [.returnExpr (some (.integer .integer 1))]

/-- `if (1) { return 1 }` -/
def acceptedBody : CodeBlock := .mk false 1 1 [] [.ifExpr (.integer .integer 1) acceptedBlock none]

/-- The calls that assemble it. -/
def acceptedSteps : List AsmStep :=
  let scope : Scope := [acceptedBody]
  let inner : Scope := [acceptedBlock, acceptedBody]
  [.function acceptedBody, .block acceptedBody [], .statements acceptedBody.code scope,
    .expression (.ifExpr (.integer .integer 1) acceptedBlock none) scope (.alone false) false,
    .statements [] scope, .expression (.integer .integer 1) scope (.alone false) true,
    .block acceptedBlock scope, .statements acceptedBlock.code inner,
    .expression (.returnExpr (some (.integer .integer 1))) inner (.alone false) false,
    .statements [] inner, .expression (.integer .integer 1) inner (.alone false) true]

theorem acceptedBody_tests (A : AsmEnv) : TestsAccepted A acceptedBody := by
  have hclosed : ∀ c ∈ acceptedSteps, AllCalls (· ∈ acceptedSteps) ((asmFamily A).body c) := by
    intro c hc
    simp only [acceptedSteps, List.mem_cons, List.not_mem_nil, or_false] at hc
    rcases hc with rfl | rfl | rfl | rfl | rfl | rfl | rfl | rfl | rfl | rfl | rfl <;>
      simp [asmFamily, AsmStep.script, expressionScript, AllCalls, AsmScript.push,
        AsmScript.withLast, acceptedSteps, acceptedBody, acceptedBlock, CodeBlock.code]
  intro c test scope hc htest hrefuses
  have hmem := hc.preserves hclosed (List.mem_cons_self ..)
  simp only [acceptedSteps, List.mem_cons, List.not_mem_nil, or_false] at hmem
  rcases hmem with rfl | rfl | rfl | rfl | rfl | rfl | rfl | rfl | rfl | rfl | rfl <;> cases htest
  cases refuses_push hrefuses

/-- Its branch goes to the end of the block. -/
theorem acceptedBody_ownAddresses : OwnAddresses emptyEnv (.function acceptedBody, [])
    [⟨.pushI, [1]⟩, ⟨.pushI, [0]⟩, ⟨.cmpI, []⟩, ⟨.bEq, [6]⟩, ⟨.pushI, [1]⟩, ⟨.ret, []⟩,
      ⟨.pushI, [0]⟩, ⟨.ret, []⟩] :=
  assembleFunction_ownAddresses (by rfl) (acceptedBody_tests _)

end B0rk
