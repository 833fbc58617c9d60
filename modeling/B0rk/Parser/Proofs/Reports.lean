import B0rk.Parser.ClassSteps
import B0rk.Parser.Proofs.Layout
import B0rk.Parser.Proofs.Recorded

set_option autoImplicit false

/-! # Failures of nested calls

A parsing function fails with each of the functions that it calls, but for the value of a `return`
and for a function in an expression. -/

namespace B0rk

open Routine

variable {E : ClassPath} {load : LoadClass} {tokens : List Token} {fuel : ℕ} {addToExisting : Bool}

/-! ## The routines are what the functions do -/

namespace ClassPath

section

variable {run : (step : ClassStep) → Parse ClassTable step.Result}
  (hrun : run = ClassStep.run E load tokens fuel addToExisting)

include hrun

theorem importsRoutine_does (n : ℕ) (imports : Imports) :
    Does run (E.importsRoutine load tokens fuel n imports)
      (E.parseImports load tokens fuel (n + 1) imports) := by
  subst hrun
  refine .bind (.lift _) fun more => .ite (.pure _) (.bind (.lift _) fun token => .ite ?_ ?_)
  · exact .bind (.call _) fun id => .bind (.lift _) fun _ => .call _
  · exact .bind (.lift _) fun _ => .pure _

theorem classesRoutine_does (n : ℕ) (imports : Imports) :
    Does run (E.classesRoutine load tokens n imports)
      (E.parseClasses load tokens fuel addToExisting (n + 1) imports) := by
  subst hrun
  refine .bind (.lift _) fun more => .ite (.pure _) (.bind (.lift _) fun _ => ?_)
  exact .bind (.call _) fun (imports, clazz) => .bind (.call _) fun classes => .pure _

theorem superClassRoutine_does (imports : Imports) :
    Does run (E.superClassRoutine load tokens fuel imports)
      (E.parseSuperClass load tokens fuel imports) := by
  subst hrun
  exact .bind (.call _) fun id => .bind (.lift _) fun clazz => .ite .fail (.pure _)

theorem headRoutine_does (imports : Imports) :
    Does run (E.headRoutine load tokens imports) (E.parseHead load tokens fuel imports) := by
  subst hrun
  refine .bind (.lift _) fun token => .bind (.ite ?_ (.pure _)) fun (superClass, token) =>
    .ite (.pure _) .fail
  exact .bind (.call _) fun superClass => .bind (.lift _) fun token => .pure _

omit hrun in
/-- Deleting the class is what is done when its members fail. -/
theorem parseBody_eq (Q : ParserEnv ClassTable) (name : String) :
    E.parseBody Q fuel name = (do
      let resolvable ← (E.parseMembers Q fuel name fuel).onFailure fun s =>
        { s with world := s.world.rejectClass name }
      onTable (·.completeClass name)
      pure resolvable) := by
  funext s
  unfold parseBody
  rw [Attempt.bind_run, Attempt.bind_run]
  unfold Attempt.orNull Attempt.onFailure
  rcases E.parseMembers Q fuel name fuel s with _ | ⟨_ | resolvable, t⟩ <;> rfl

theorem bodyRoutine_does (imports : Imports) (name : String) :
    Does run (ClassPath.bodyRoutine fuel imports name)
      (E.parseBody (E.parser load tokens imports) fuel name) := by
  subst hrun
  rw [parseBody_eq]
  exact .bind (.callOr _ _) fun resolvable => .bind (.lift _) fun _ => .pure _

theorem namedRoutine_does (imports : Imports) (name : String) :
    Does run (E.namedRoutine load tokens fuel addToExisting imports name)
      (E.parseClassNamed load tokens fuel addToExisting imports name) := by
  refine .bind (headRoutine_does hrun imports) fun superClass => .bind (.lift _) fun parseOn => ?_
  exact .ite (bodyRoutine_does hrun imports name) (.pure _)

theorem membersRoutine_does (n : ℕ) (imports : Imports) (name : String) :
    Does run (E.membersRoutine load tokens n imports name)
      (E.parseMembers (E.parser load tokens imports) fuel name (n + 1)) := by
  subst hrun
  unfold parseMembers membersRoutine
  refine .bind (.lift _) fun more => .ite (.pure _) (.bind (.lift _) fun token => ?_)
  cases token.type with
  | tokBraceRight =>
    exact .pure _
  | tokVar =>
    exact .bind (.lift _) fun _ => .call _
  | tokFunction =>
    exact .bind (.call _) fun method => .bind (.call _) fun members => .pure _
  | _ => exact .fail

theorem methodRoutine_does (imports : Imports) (name : String) :
    Does run (E.methodRoutine load tokens fuel imports name)
      (parseMethod (E.parser load tokens imports) fuel name) := by
  subst hrun
  refine .bind (.lift _) fun method => .bind (.lift _) fun resolvable => .bind (.call _) fun _ => ?_
  exact .bind (.lift _) fun _ => .pure _

end

end ClassPath

namespace ClassStep

/-- The routines do what the functions do. -/
theorem routine_does (step : ClassStep) :
    Does (run E load tokens fuel addToExisting) (step.routine E load tokens fuel addToExisting)
      (step.run E load tokens fuel addToExisting) := by
  cases step with
  | parse => exact .bind (.call _) fun imports => .bind (.call _) fun _ => .ite (.pure _) .undefined
  | importList n imports =>
    cases n with
    | zero => exact .undefined
    | succ n => exact ClassPath.importsRoutine_does rfl n imports
  | classes n imports =>
    cases n with
    | zero => exact .undefined
    | succ n => exact ClassPath.classesRoutine_does rfl n imports
  | clazz imports => exact .bind (.call _) fun id => .bind (.call _) fun resolvable => .pure _
  | named imports name => exact ClassPath.namedRoutine_does rfl imports name
  | superClass imports => exact ClassPath.superClassRoutine_does rfl imports
  | members n imports name =>
    cases n with
    | zero => exact .undefined
    | succ n => exact ClassPath.membersRoutine_does rfl n imports name
  | method imports name => exact ClassPath.methodRoutine_does rfl imports name
  | inside imports step =>
    exact (interp_mapCalls (f := inside imports) _).trans step.routine_does

/-! ## Calls have less to do -/

/-- Calls of a lower rank, whatever they do. -/
abbrev Below (run : (step : ClassStep) → Parse ClassTable step.Result) (fuel bound : ℕ) {α : Type}
    (p : ClassRoutine α) : Prop :=
  Routine.Follows (fun step : ClassStep => step.rank fuel < bound) (fun _ => True) Eq run run p p

section

variable {run : (step : ClassStep) → Parse ClassTable step.Result} {bound : ℕ}

theorem call_below {step : ClassStep} (h : step.rank fuel < bound) :
    Below run fuel bound (ClassRoutine.call step) :=
  Routine.Follows.call (fun _ _ => .eq _) h

theorem read_below {α : Type} (x : Parse ClassTable α) :
    Below run fuel bound (liftM x : ClassRoutine α) := Routine.Follows.lift (.eq x)

theorem importsRoutine_below (n : ℕ) (imports : Imports) :
    Below run fuel (fuel + 1 + (n + 1)) (E.importsRoutine load tokens fuel n imports) := by
  have hidentifier : (inside imports (.identifier fuel)).rank fuel < fuel + 1 + (n + 1) := by
    show fuel < _
    omega
  have hrest (imports : Imports) : (importList n imports).rank fuel < fuel + 1 + (n + 1) :=
    Nat.lt_succ_self _
  refine .bind (read_below _) fun more => .ite (.pure _) (.bind (read_below _) fun token => ?_)
  refine .ite ?_ (.bind (read_below _) fun _ => .pure _)
  exact .bind (call_below hidentifier) fun id => .bind (read_below _) fun _ => call_below (hrest _)

theorem classesRoutine_below (n : ℕ) (imports : Imports) :
    Below run fuel (2 * fuel + 5 + (n + 1)) (E.classesRoutine load tokens n imports) := by
  have hclazz : (clazz imports).rank fuel < 2 * fuel + 5 + (n + 1) := by
    show 2 * fuel + 4 < _
    omega
  have hrest (imports : Imports) : (classes n imports).rank fuel < 2 * fuel + 5 + (n + 1) :=
    Nat.lt_succ_self _
  refine .bind (read_below _) fun more => .ite (.pure _) (.bind (read_below _) fun token => ?_)
  exact .bind (call_below hclazz) fun (imports, _) => .bind (call_below (hrest _)) fun _ => .pure _

theorem superClassRoutine_below (imports : Imports) :
    Below run fuel (fuel + 1) (E.superClassRoutine load tokens fuel imports) := by
  have hidentifier : (inside imports (.identifier fuel)).rank fuel < fuel + 1 := Nat.lt_succ_self _
  refine .bind (call_below hidentifier) fun id => .bind (read_below _) fun _ => ?_
  exact .ite .fail (.pure _)

theorem headRoutine_below (imports : Imports) (h : fuel + 1 < bound) :
    Below run fuel bound (E.headRoutine load tokens imports) := by
  have hsuper : (superClass imports).rank fuel < bound := h
  refine .bind (read_below _) fun token => .bind (.ite ?_ (.pure _)) fun (_, token) =>
    .ite (.pure _) .fail
  exact .bind (call_below hsuper) fun _ => .bind (read_below _) fun _ => .pure _

theorem bodyRoutine_below (imports : Imports) (name : String) (h : fuel + 2 + fuel < bound) :
    Below run fuel bound (ClassPath.bodyRoutine fuel imports name) := by
  have hmembers : (members fuel imports name).rank fuel < bound := h
  refine .bind ?_ fun resolvable => .bind (read_below _) fun _ => .pure _
  exact Routine.Follows.callOr (Φ := fun step : ClassStep => step.rank fuel < bound)
    (fun _ _ => .eq _) hmembers (fun _ _ => trivial) fun s t hst => by rw [hst]

theorem namedRoutine_below (imports : Imports) (name : String) :
    Below run fuel (2 * fuel + 3) (E.namedRoutine load tokens fuel addToExisting imports name) := by
  refine .bind (headRoutine_below imports (by omega)) fun _ => .bind (read_below _) fun parseOn => ?_
  exact .ite (bodyRoutine_below imports name (by omega)) (.pure _)

theorem membersRoutine_below (n : ℕ) (imports : Imports) (name : String) :
    Below run fuel (fuel + 2 + (n + 1)) (E.membersRoutine load tokens n imports name) := by
  have hrest : (members n imports name).rank fuel < fuel + 2 + (n + 1) := Nat.lt_succ_self _
  have hmethod : (method imports name).rank fuel < fuel + 2 + (n + 1) := by
    show fuel + 1 < _
    omega
  unfold ClassPath.membersRoutine
  refine .bind (read_below _) fun more => .ite (.pure _) (.bind (read_below _) fun token => ?_)
  split
  · exact .pure _
  · exact .bind (read_below _) fun _ => call_below hrest
  · exact .bind (call_below hmethod) fun _ => .bind (call_below hrest) fun _ => .pure _
  · exact .fail

theorem methodRoutine_below (imports : Imports) (name : String) :
    Below run fuel (fuel + 1) (E.methodRoutine load tokens fuel imports name) := by
  have hfunction : (inside imports (.function fuel)).rank fuel < fuel + 1 := Nat.lt_succ_self _
  refine .bind (read_below _) fun _ => .bind (read_below _) fun _ => ?_
  exact .bind (call_below hfunction) fun _ => .bind (read_below _) fun _ => .pure _

end

theorem parseRoutine_below {run : (step : ClassStep) → Parse ClassTable step.Result} :
    Below run fuel (3 * fuel + 6) (ClassPath.parseRoutine fuel) := by
  have himports : (importList fuel ClassPath.runtimeImport).rank fuel < 3 * fuel + 6 := by
    show fuel + 1 + fuel < _
    omega
  have hclasses (imports : Imports) : (classes fuel imports).rank fuel < 3 * fuel + 6 := by
    show 2 * fuel + 5 + fuel < _
    omega
  exact .bind (call_below himports) fun _ => .bind (call_below (hclasses _)) fun _ =>
    .ite (.pure _) .undefined

theorem classRoutine_below {run : (step : ClassStep) → Parse ClassTable step.Result}
    (imports : Imports) : Below run fuel (2 * fuel + 4) (ClassPath.classRoutine fuel imports) := by
  have hidentifier : (inside imports (.identifier fuel)).rank fuel < 2 * fuel + 4 := by
    show fuel < _
    omega
  have hnamed (imports : Imports) (name : String) :
      (named imports name).rank fuel < 2 * fuel + 4 := Nat.lt_succ_self _
  exact .bind (call_below hidentifier) fun _ => .bind (call_below (hnamed _ _)) fun _ => .pure _

/-- A function calls functions of a lower rank. -/
theorem rank_lt_of_call {step : ClassStep} {s : ParserState ClassTable}
    {a : Bool × ClassStep × ParserState ClassTable}
    (h : a ∈ (step.routine E load tokens fuel addToExisting).calls
      (run E load tokens fuel addToExisting) s) : a.2.1.rank fuel < step.rank fuel := by
  cases step with
  | parse => exact parseRoutine_below.satisfy _ _ h
  | importList n imports =>
    cases n with
    | zero => cases h
    | succ n => exact (importsRoutine_below n imports).satisfy _ _ h
  | classes n imports =>
    cases n with
    | zero => cases h
    | succ n => exact (classesRoutine_below n imports).satisfy _ _ h
  | clazz imports => exact (classRoutine_below imports).satisfy _ _ h
  | named imports name => exact (namedRoutine_below imports name).satisfy _ _ h
  | superClass imports => exact (superClassRoutine_below imports).satisfy _ _ h
  | members n imports name =>
    cases n with
    | zero => cases h
    | succ n => exact (membersRoutine_below n imports name).satisfy _ _ h
  | method imports name => exact (methodRoutine_below imports name).satisfy _ _ h
  | inside imports step =>
    have hcalls : ((inside imports step).routine E load tokens fuel addToExisting).calls
        (run E load tokens fuel addToExisting) s = _ := calls_mapCalls (f := inside imports) _ s
    rw [hcalls] at h
    obtain ⟨b, hb, rfl⟩ := List.mem_map.mp h
    have hfollows := ParserEnv.Follows.eq (E.parser load tokens imports)
    exact (hfollows.routine step fun step' _ => hfollows.step step').satisfy _ _ hb

end ClassStep

/-! ## Which failures get to the top -/

section

variable (E : ClassPath) (load : LoadClass) (tokens : List Token) (fuel : ℕ) (addToExisting : Bool)

/-- `Parser::parse` with the functions below it. -/
def parseFamily : Family (ParserState ClassTable) ClassStep ClassStep.Result where
  run := ClassStep.run E load tokens fuel addToExisting
  body := ClassStep.routine E load tokens fuel addToExisting
  run_eq step := (step.routine_does).symm

theorem checks_wf :
    WellFounded fun b a => (parseFamily E load tokens fuel addToExisting).Checks a b :=
  Subrelation.wf (fun h => ClassStep.rank_lt_of_call h)
    (InvImage.wf (fun a : ClassStep × ParserState ClassTable => a.1.rank fuel) Nat.lt_wfRel.wf)

end

open Reporting

namespace ClassPath

/-- An empty class path. -/
def noFiles : ClassPath where
  files := []
  newClass := fun _ => 1
  newClass_ne := fun _ => by decide
  newFunction := fun n => BitVec.ofNat 64 n
  createString := fun _ => 1
  addDouble := fun x _ => x
  mulDouble := fun x _ => x
  truncDouble := fun x => x

/-- A runtime that has `system.lang.Object` only. -/
def objectTable : ClassTable := ⟨[Loader.objectEntry], 0, false⟩

end ClassPath

/-- `class A { function f() { … } }`. -/
def oneMethodTokens (body : List Token) : List Token :=
  [⟨.tokClass, 1, "class", 0, 0⟩, ⟨.tokIdentifier, 1, "A", 0, 0⟩, ⟨.tokBraceLeft, 1, "\x7b", 0, 0⟩,
    ⟨.tokFunction, 1, "function", 0, 0⟩, ⟨.tokIdentifier, 1, "f", 0, 0⟩,
    ⟨.tokBracketLeft, 1, "(", 0, 0⟩, ⟨.tokBracketRight, 1, ")", 0, 0⟩,
    ⟨.tokBraceLeft, 1, "\x7b", 0, 0⟩] ++ body ++
    [⟨.tokBraceRight, 1, "\x7d", 0, 0⟩, ⟨.tokBraceRight, 1, "\x7d", 0, 0⟩]

/-- `return a +;` -/
def malformedReturn : List Token :=
  [⟨.tokReturn, 1, "return", 0, 0⟩, ⟨.tokIdentifier, 1, "a", 0, 0⟩, ⟨.tokPlus, 1, "+", 0, 0⟩,
    ⟨.tokSemicolon, 1, ";", 0, 0⟩]

/-- `g = function );` -/
def malformedFunction : List Token :=
  [⟨.tokIdentifier, 1, "g", 0, 0⟩, ⟨.tokAssign, 1, "=", 0, 0⟩, ⟨.tokFunction, 1, "function", 0, 0⟩,
    ⟨.tokBracketRight, 1, ")", 0, 0⟩, ⟨.tokSemicolon, 1, ";", 0, 0⟩]

/-- The calls that are made to parse the class. -/
def oneMethodFamily (body : List Token) : Family (ParserState ClassTable) ClassStep ClassStep.Result :=
  parseFamily ClassPath.noFiles ClassPath.halting (oneMethodTokens body) 12 false

/-- The class is parsed without an error, and some call has failed. -/
def SwallowsFailure (body : List Token) : Prop :=
  (ClassPath.noFiles.parse ClassPath.halting (oneMethodTokens body) 12 false
    ⟨0, ClassPath.objectTable⟩).map Prod.fst = some (some ()) ∧
  ¬Reports (oneMethodFamily body).Checks (oneMethodFamily body).Drops (oneMethodFamily body).Fails
    (.parse, ⟨0, ClassPath.objectTable⟩)

theorem SwallowsFailure.of_failsBelow {body : List Token}
    (hparse : (ClassPath.noFiles.parse ClassPath.halting (oneMethodTokens body) 12 false
      ⟨0, ClassPath.objectTable⟩).map Prod.fst = some (some ()))
    (hfails : (oneMethodFamily body).failsBelow 16 (.parse, ⟨0, ClassPath.objectTable⟩) = true) :
    SwallowsFailure body := by
  refine ⟨hparse, fun hreports => ?_⟩
  obtain ⟨b, hreached, hb⟩ := Family.exists_of_failsBelow hfails
  obtain ⟨t, ht⟩ := hreports b hreached hb
  change ClassPath.noFiles.parse ClassPath.halting (oneMethodTokens body) 12 false
    ⟨0, ClassPath.objectTable⟩ = some (none, t) at ht
  rw [ht] at hparse
  cases hparse

/-- `return +;` is not among them: its operator has neither operand when `resolveTypes` comes to it. -/
example : (ClassPath.noFiles.parse ClassPath.halting (oneMethodTokens
    [⟨.tokReturn, 1, "return", 0, 0⟩, ⟨.tokPlus, 1, "+", 0, 0⟩, ⟨.tokSemicolon, 1, ";", 0, 0⟩]) 12 false
      ⟨0, ClassPath.objectTable⟩).isNone = true := by decide +kernel

end B0rk
