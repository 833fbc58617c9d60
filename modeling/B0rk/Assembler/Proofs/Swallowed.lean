import B0rk.Assembler.Proofs.Calls
import B0rk.Assembler.Proofs.History

set_option autoImplicit false

/-! # Errors that are swallowed

The assembler does not look at the result of two calls: the test of a statement, and the load of a
variable that is called. The latter has been found by then, so an error is lost in a test, or nowhere. -/

namespace B0rk

open Script AsmScript Relation

variable {A : AsmEnv}

/-- The test of a statement. -/
inductive AsmStep.HasTest : AsmStep → Expression → Scope → Prop
  | ifExpr {test : Expression} {trueBlock : CodeBlock} {falseBlock : Option CodeBlock} {scope : Scope}
      {place : Place} {needResult : Bool} :
      HasTest (.expression (.ifExpr test trueBlock falseBlock) scope place needResult) test scope
  | forExpr {init inc : Option Expression} {test : Expression} {body : CodeBlock} {scope : Scope}
      {place : Place} {needResult : Bool} :
      HasTest (.expression (.forExpr init test inc body) scope place needResult) test scope

/-- Each call whose failure a script drops is one of those. -/
def DropsOnly (P : AsmStep → Prop) : AsmScript → Prop
  | .done | .fail => True
  | .act _ rest | .call _ rest => DropsOnly P rest
  | .look k => ∀ s, DropsOnly P (k s)
  | .attempt c _ rest => P c ∧ DropsOnly P rest

theorem DropsOnly.mentions {P : AsmStep → Prop} {script : AsmScript} {c : AsmStep}
    (h : DropsOnly P script) (hc : Mentions script false c) : P c := by
  generalize hchecked : false = checked at hc
  induction hc with
  | act _ ih => exact ih h hchecked
  | look _ ih => exact ih (h _) hchecked
  | call => cases hchecked
  | callRest _ ih => exact ih h hchecked
  | attempt => exact h.1
  | attemptRest _ ih => exact ih h.2 hchecked

section

variable {P : AsmStep → Prop} {rest : AsmScript}

theorem dropsOnly_pushIf (cond : Bool) (op : OpCode) (h : DropsOnly P rest) :
    DropsOnly P (AsmScript.pushIf cond op rest) := by
  cases cond <;> exact h

theorem dropsOnly_optional (expr : Option Expression) (scope : Scope) (place : Place)
    (needResult : Bool) (h : DropsOnly P rest) :
    DropsOnly P (AsmScript.optional expr scope place needResult rest) := by
  cases expr <;> exact h

theorem dropsOnly_reference (place : Place) (scope : Scope) (h : DropsOnly P rest) :
    DropsOnly P (AsmScript.reference place scope rest) := by
  cases place <;> exact h

theorem dropsOnly_pushAll (insts : List Instruction) (h : DropsOnly P rest) :
    DropsOnly P (AsmScript.pushAll insts rest) := by
  induction insts with
  | nil => exact h
  | cons inst insts ih => exact ih

theorem loadScript_dropsOnly (clazz : Word) (var : String) (scope : Scope) (place : Place) :
    DropsOnly P (loadScript A clazz var scope place) := by
  fun_cases loadScript A clazz var scope place <;> trivial

theorem storeScript_dropsOnly (var : String) (scope : Scope) (place : Place) :
    DropsOnly P (storeScript A var scope place) := by
  fun_cases storeScript A var scope place <;> trivial

theorem incrementScript_dropsOnly (operType : OpType) (clazz : Word) (var : String) (scope : Scope)
    (place : Place) (needResult : Bool) :
    DropsOnly P (incrementScript A operType clazz var scope place needResult) := by
  fun_cases incrementScript A operType clazz var scope place needResult
  · trivial
  · exact dropsOnly_pushIf _ _ (dropsOnly_pushIf _ _ trivial)

/-- The variable that is called is found before it is loaded. -/
theorem callScript_dropsOnly {clazz : Word} {function : String} {count : ℕ} {scope : Scope}
    {place : Place} (hload : (∃ id, scope.getVarId A.args function = some id) ∨
      (∃ address chain, A.clazz = some (address, chain) ∧ (chain.getFieldId function).isSome) →
      P (.load 0 function scope (.alone false)))
    (hrest : DropsOnly P rest) :
    DropsOnly P (callScript A clazz function count scope place rest) := by
  fun_cases callScript A clazz function count scope place rest with
  | case1 | case6 | case8 => trivial
  | case5 => exact ⟨hload (.inl ⟨_, by assumption⟩), hrest⟩
  | case7 => exact ⟨hload (.inr ⟨_, _, by assumption, by assumption⟩), hrest⟩
  | _ => exact hrest

end

theorem refuses_push {body : AsmStep → AsmScript} {op : OpCode} {args : List Word} {rest : AsmScript}
    (h : Refuses body (AsmScript.push op args rest)) : Refuses body rest := by
  cases h with
  | act h => exact h

/-- Nothing is wrong with a variable that has been found. -/
theorem loadScript_not_refuses {function : String} {scope : Scope}
    (h : (∃ id, scope.getVarId A.args function = some id) ∨
      ∃ address chain, A.clazz = some (address, chain) ∧ (chain.getFieldId function).isSome) :
    ¬Refuses (AsmStep.script A) (loadScript A 0 function scope (.alone false)) := by
  intro hrefuses
  unfold loadScript localId at hrefuses
  rw [if_neg (by simp)] at hrefuses
  by_cases hthis : function = "this"
  · rw [if_pos hthis] at hrefuses
    cases refuses_push hrefuses
  · rw [if_neg hthis] at hrefuses
    rcases hid : scope.getVarId A.args function with _ | id
    · obtain ⟨address, chain, hclazz, hfield⟩ := h.resolve_left fun ⟨id, h⟩ => by simp [hid] at h
      obtain ⟨id, hfield⟩ := Option.isSome_iff_exists.mp hfield
      rw [hid, hclazz] at hrefuses
      dsimp only at hrefuses
      rw [hfield] at hrefuses
      cases refuses_push (refuses_push hrefuses)
    · rw [hid] at hrefuses
      cases refuses_push hrefuses

/-- What the assembler does not check is a test, or the load of a variable that has been found. -/
def AsmStep.Unchecked (A : AsmEnv) (c d : AsmStep) : Prop :=
  (∃ test scope, c.HasTest test scope ∧ d = .expression test scope (.alone false) true) ∨
    ¬Refuses (AsmStep.script A) (d.script A)

theorem operTailScript_dropsOnly {P : AsmStep → Prop} (type : ValueType) (operType : OpType)
    (left : Option Expression) (scope : Scope) (place : Place) (needResult : Bool) :
    DropsOnly P (operTailScript type operType left scope place needResult) := by
  fun_cases operTailScript type operType left scope place needResult with
  | case7 =>
    refine dropsOnly_pushIf _ _ ?_
    cases left <;> trivial
  | case9 =>
    refine dropsOnly_optional _ _ _ _ ?_
    cases operationCode operType type with
    | none => trivial
    | some ops => exact dropsOnly_pushAll _ trivial
  | _ => trivial

theorem expressionScript_dropsOnly (expr : Expression) (scope : Scope) (place : Place)
    (needResult : Bool) :
    DropsOnly ((AsmStep.expression expr scope place needResult).Unchecked A)
      (expressionScript A expr scope place needResult) := by
  cases expr with
  | call type clazz function parameters =>
    rw [expressionScript]
    refine dropsOnly_reference _ _ (callScript_dropsOnly (fun h => ?_) (dropsOnly_pushIf _ _ trivial))
    exact .inr (loadScript_not_refuses h)
  | oper type operType left right =>
    by_cases h : operType = .reference → ∃ reference, place = .under reference
    · rw [expressionScript_oper A h]
      exact dropsOnly_optional _ _ _ _ (operTailScript_dropsOnly _ _ _ _ _ _)
    · obtain ⟨rfl, hunder⟩ := Classical.not_imp.mp h
      cases place with
      | under reference => exact absurd ⟨reference, rfl⟩ hunder
      | alone inReference =>
        cases right with
        | none => trivial
        | some right =>
          rw [expressionScript]
          cases right.refChild <;> trivial
  | ifExpr test trueBlock falseBlock =>
    rw [expressionScript]
    refine ⟨.inl ⟨test, scope, .ifExpr, rfl⟩, fun _ => ?_⟩
    cases falseBlock with
    | none => trivial
    | some falseBlock => exact fun _ => trivial
  | forExpr init test inc body =>
    rw [expressionScript]
    refine dropsOnly_optional _ _ _ _ fun _ => ⟨.inl ⟨test, scope, .forExpr, rfl⟩, fun _ => ?_⟩
    exact dropsOnly_optional _ _ _ _ trivial
  | returnExpr value => cases value <;> trivial
  | tryExpr tryBlock exceptionVar catchBlock =>
    rw [expressionScript]
    cases Scope.getVarId A.args (catchBlock :: scope) exceptionVar with
    | none => trivial
    | some excepVar => exact fun _ _ => trivial
  | new type clazz parameters =>
    rw [expressionScript]
    by_cases haddress : A.findClass (String.intercalate "." clazz) = 0
    · simp only [if_pos haddress]
      trivial
    · simp only [if_neg haddress]
      trivial
  | function type function => cases function <;> trivial
  | throwExpr | var | array | string | integer | double => trivial

theorem AsmStep.dropsOnly (step : AsmStep) : DropsOnly (step.Unchecked A) (step.script A) := by
  cases step with
  | expression expr scope place needResult => exact expressionScript_dropsOnly expr scope place needResult
  | statements code scope => cases code <;> trivial
  | params parameters scope => cases parameters <;> trivial
  | reference expr scope =>
    cases expr with
    | oper type operType left right =>
      cases operType with
      | reference => cases left <;> cases right <;> trivial
      | _ => trivial
    | _ => trivial
  | dest left scope place =>
    cases left with
    | oper type operType left right =>
      cases operType with
      | reference =>
        rw [script.eq_def]
        dsimp only
        rcases (Expression.oper .unknown .reference left right).refChild.bind Expression.asVar with
          _ | ⟨clazz, var⟩ <;> trivial
      | _ => trivial
    | _ => trivial
  | increment operType clazz var scope place needResult =>
    exact incrementScript_dropsOnly operType clazz var scope place needResult
  | load clazz var scope place => exact loadScript_dropsOnly clazz var scope place
  | store var scope place => exact storeScript_dropsOnly var scope place
  | function | block => trivial

/-- No test in a function has an error in it. -/
def TestsAccepted (A : AsmEnv) (code : CodeBlock) : Prop :=
  ∀ c test scope, (asmFamily A).Contains (.function code) c → c.HasTest test scope →
    ¬Refuses (AsmStep.script A) (expressionScript A test scope (.alone false) true)

/-- Every failure of an assembling function is reported by the assembling of the function body. -/
abbrev ReportsAll (A : AsmEnv) (code : CodeBlock) : Prop :=
  Reporting.Reports (asmFamily A).Checks (asmFamily A).Drops (asmFamily A).Fails (.function code, [])

theorem nothingDropped_function_iff {code : CodeBlock} {t : List Instruction}
    (hok : (assembleFunction A code).Ok [] () t) :
    Reporting.NothingDropped (asmFamily A).Checks (asmFamily A).Drops (asmFamily A).Fails
      (.function code, []) ↔ TestsAccepted A code := by
  refine (Family.nothingDropped_iff (F := asmFamily A) (AsmStep.sameCalls A) (asmFamily_wf A)
    (c := .function code) hok).trans ⟨fun h c test scope hc htest => ?_, fun h c d hc hd => ?_⟩
  · refine h c (.expression test scope (.alone false) true) hc ?_
    cases htest with
    | ifExpr => exact .attempt
    | @forExpr init => cases init with
      | none => exact .look (s := []) .attempt
      | some init => exact .callRest (.look (s := []) .attempt)
  · rcases c.dropsOnly.mentions hd with ⟨test, scope, htest, rfl⟩ | hnot
    · exact h c test scope hc htest
    · exact hnot

/-- **An error in a function body is swallowed if and only if there is one in a test, and no other one
    is found.** -/
theorem assembleFunction_reports_iff {code : CodeBlock} {r : Option Unit} {t : List Instruction}
    (h : assembleFunction A code [] = some (r, t)) :
    ReportsAll A code ↔ r = none ∨ TestsAccepted A code := by
  cases r with
  | none =>
    have hfails : (asmFamily A).Fails (.function code, []) := ⟨t, h⟩
    exact ⟨fun _ => .inl rfl, fun _ _ _ _ => hfails⟩
  | some r =>
    have hnot : ¬(asmFamily A).Fails (.function code, []) := by
      rintro ⟨t', ht'⟩
      cases h.symm.trans ht'
    rw [← nothingDropped_function_iff h]
    constructor
    · exact fun hreports => .inr fun b c hb hbc hc => hnot (hreports c (hb.tail (.inr hbc)) hc)
    · rintro (hr | hnothing)
      · cases hr
      · exact hnothing.reports fun _ _ hchecks => hchecks.fails

/-- `this; if (y) { }` -/
def swallowedBody : CodeBlock :=
  .mk false 1 1 [] [.var .unknown 0 "this", .ifExpr (.var .unknown 0 "y") (.mk true 1 1 [] []) none]

/-- In a class without a field `y` the test is not assembled, but the function is. -/
theorem swallowedBody_not_reports : ¬ReportsAll emptyClassEnv swallowedBody := by
  have hrun : assembleFunction emptyClassEnv swallowedBody [] =
      some (some (), [⟨.loadVar, [1]⟩, ⟨.pushI, [0]⟩, ⟨.ret, []⟩]) := rfl
  rw [assembleFunction_reports_iff hrun]
  rintro (h | h)
  · cases h
  · refine h (.expression (.ifExpr (.var .unknown 0 "y") (.mk true 1 1 [] []) none) [swallowedBody]
      (.alone false) false) _ _ ?_ .ifExpr (.call .fail)
    have hblock : (asmFamily emptyClassEnv).Contains (.function swallowedBody)
        (.block swallowedBody []) := .single ⟨true, .call⟩
    have hstatements : (asmFamily emptyClassEnv).Contains (.function swallowedBody)
        (.statements swallowedBody.code [swallowedBody]) := hblock.tail ⟨true, .call⟩
    exact (hstatements.tail ⟨true, .callRest .call⟩).tail ⟨true, .call⟩

end B0rk
