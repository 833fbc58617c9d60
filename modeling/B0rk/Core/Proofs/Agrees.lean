import B0rk.Core.Source

set_option autoImplicit false

/-! # Functions that agree

Neither the types of its expressions nor the folding of literals has to do with what a function
returns. -/

namespace B0rk

/-- Expressions with the same value, the first of which has no more operands on the stack. -/
structure CoreExpr.Agrees (e e' : CoreExpr) : Prop where
  eval : ∀ env, e.eval env = e'.eval env
  check : ∀ D, e.check D = e'.check D
  depth : e.depth ≤ e'.depth

structure CoreSimple.Agrees (s s' : CoreSimple) : Prop where
  exec : ∀ env, s.exec env = s'.exec env
  check : ∀ D, s.check D = s'.check D
  depth : s.depth ≤ s'.depth

/-- Statements of one shape, with expressions that agree. -/
inductive CoreCode.Agrees : CoreCode → CoreCode → Prop
  | done : Agrees .done .done
  | simple {s s' : CoreSimple} {rest rest' : CoreCode} (hs : s.Agrees s')
      (hrest : Agrees rest rest') : Agrees (.simple s rest) (.simple s' rest')
  | ifThen {test test' : CoreExpr} {vars : List String} {body body' rest rest' : CoreCode}
      (htest : test.Agrees test') (hbody : Agrees body body') (hrest : Agrees rest rest') :
      Agrees (.ifThen test vars body rest) (.ifThen test' vars body' rest')
  | ifElse {test test' : CoreExpr} {vars vars' : List String}
      {body body' other other' rest rest' : CoreCode} (htest : test.Agrees test')
      (hbody : Agrees body body') (hother : Agrees other other') (hrest : Agrees rest rest') :
      Agrees (.ifElse test vars body vars' other rest) (.ifElse test' vars body' vars' other' rest')
  | loop {init init' inc inc' : Option CoreSimple} {test test' : CoreExpr} {vars : List String}
      {body body' rest rest' : CoreCode} (hinit : Option.Rel CoreSimple.Agrees init init')
      (htest : test.Agrees test') (hinc : Option.Rel CoreSimple.Agrees inc inc')
      (hbody : Agrees body body') (hrest : Agrees rest rest') :
      Agrees (.loop init test inc vars body rest) (.loop init' test' inc' vars body' rest')
  | ret {value value' : Option CoreExpr} {rest rest' : CoreCode}
      (hvalue : Option.Rel CoreExpr.Agrees value value') (hrest : Agrees rest rest') :
      Agrees (.ret value rest) (.ret value' rest')

/-! ## What agreement keeps -/

namespace CoreSimple

variable {s s' : Option CoreSimple}

theorem execOption_agrees (h : Option.Rel CoreSimple.Agrees s s') :
    execOption s = execOption s' := by
  cases h with
  | none => rfl
  | some h =>
    funext env
    exact h.exec env

theorem checkOption_agrees (h : Option.Rel CoreSimple.Agrees s s') :
    checkOption s = checkOption s' := by
  cases h with
  | none => rfl
  | some h =>
    funext D
    exact h.check D

theorem depthOption_agrees (h : Option.Rel CoreSimple.Agrees s s') :
    depthOption s ≤ depthOption s' := by
  cases h with
  | none => exact Nat.le_refl 0
  | some h => exact h.depth

end CoreSimple

namespace CoreCode.Agrees

variable {c c' : CoreCode}

theorem exec (h : c.Agrees c') (fuel : ℕ) : c.exec fuel = c'.exec fuel := by
  induction h with
  | done => rfl
  | simple hs _ ih =>
    funext env
    simp only [CoreCode.exec, hs.exec, ih]
  | ifThen htest _ _ ihb ih =>
    funext env
    simp only [CoreCode.exec, htest.eval, ihb, ih]
  | ifElse htest _ _ _ ihb ihb' ih =>
    funext env
    simp only [CoreCode.exec, htest.eval, ihb, ihb', ih]
  | loop hinit htest hinc _ _ ihb ih =>
    funext env
    have htest := funext htest.eval
    simp only [CoreCode.exec, CoreSimple.execOption_agrees hinit,
      CoreSimple.execOption_agrees hinc, htest, ihb, ih]
  | ret hvalue _ ih =>
    funext env
    cases hvalue with
    | none => rfl
    | some hvalue => simp only [CoreCode.exec, hvalue.eval]

theorem check (h : c.Agrees c') (D : Scopes Unit) : c.check D = c'.check D := by
  induction h generalizing D with
  | done => rfl
  | simple hs _ ih => simp only [CoreCode.check, hs.check, ih]
  | ifThen htest _ _ ihb ih => simp only [CoreCode.check, htest.check, ihb, ih]
  | ifElse htest _ _ _ ihb ihb' ih => simp only [CoreCode.check, htest.check, ihb, ihb', ih]
  | loop hinit htest hinc _ _ ihb ih =>
    simp only [CoreCode.check, CoreSimple.checkOption_agrees hinit,
      CoreSimple.checkOption_agrees hinc, htest.check, ihb, ih]
  | ret hvalue _ ih =>
    cases hvalue with
    | none => exact ih D.full
    | some hvalue => simp only [CoreCode.check, hvalue.check, ih]

theorem avoids (h : c.Agrees c') (name : String) : c.avoids name = c'.avoids name := by
  induction h with
  | done => rfl
  | simple _ _ ih => exact ih
  | ifThen _ _ _ ihb ih => simp only [CoreCode.avoids, ihb, ih]
  | ifElse _ _ _ _ ihb ihb' ih => simp only [CoreCode.avoids, ihb, ihb', ih]
  | loop _ _ _ _ _ ihb ih => simp only [CoreCode.avoids, ihb, ih]
  | ret _ _ ih => exact ih

theorem depth (h : c.Agrees c') : c.depth ≤ c'.depth := by
  induction h with
  | done => exact Nat.le_refl 0
  | simple hs _ ih => exact max_le_max hs.depth ih
  | ifThen htest _ _ ihb ih =>
    exact max_le_max (max_le_max htest.depth (Nat.le_refl 2)) (max_le_max ihb ih)
  | ifElse htest _ _ _ ihb ihb' ih =>
    exact max_le_max (max_le_max htest.depth (Nat.le_refl 2))
      (max_le_max (max_le_max ihb ihb') ih)
  | loop hinit htest hinc _ _ ihb ih =>
    exact max_le_max
      (max_le_max (CoreSimple.depthOption_agrees hinit) (CoreSimple.depthOption_agrees hinc))
      (max_le_max (max_le_max htest.depth (Nat.le_refl 2)) (max_le_max ihb ih))
  | ret hvalue _ ih =>
    cases hvalue with
    | none => exact max_le_max (Nat.le_refl 1) ih
    | some hvalue => exact max_le_max hvalue.depth ih

end CoreCode.Agrees

/-! ## Slots -/

/-- The greatest slot in use behind a statement, by the slots of its blocks. -/
theorem maxChildVarId_cons (max : ℕ) (expr : Expression) (code : List Expression) :
    maxChildVarId max (expr :: code) =
      maxChildVarId (((expr.blocks.filter CodeBlock.linked).map CodeBlock.maxVarId).foldl
        (fun max id => if id > max then id else max) max) code := by
  simp only [maxChildVarId, List.flatMap_cons, List.filter_append, List.foldl_append, List.foldl_map]

/-- The last slot of a block that starts at `id`. -/
def lastSlot (id : ℕ) (vars : List String) (c : CoreCode) : ℕ :=
  ((CodeBlock.mk true 0 0 vars c.statements).setStartingVarId id).maxVarId

/-- The numbering of the slots goes by the shape. -/
theorem CoreCode.Agrees.maxChildVarId_eq {c c' : CoreCode} (h : c.Agrees c') (max id : ℕ) :
    maxChildVarId max (setStatementsVarId id c.statements) =
      maxChildVarId max (setStatementsVarId id c'.statements) := by
  induction h generalizing max id with
  | done => rfl
  | @simple s s' rest rest' _ _ ih =>
    have hnone (s : CoreSimple) : (setStatementVarId id s.expression).blocks = [] := by
      cases s <;> rfl
    simp only [CoreCode.statements, setStatementsVarId, maxChildVarId_cons, hnone, ih]
  | @ifThen _ _ vars body body' _ _ _ _ _ ihb ih =>
    have hbody : lastSlot id vars body = lastSlot id vars body' := ihb _ _
    have hblocks (test : CoreExpr) (body : CoreCode) :
        ((setStatementVarId id (.ifExpr test.expression (.mk true 0 0 vars body.statements)
          none)).blocks.filter CodeBlock.linked).map CodeBlock.maxVarId = [lastSlot id vars body] := rfl
    simp only [CoreCode.statements, setStatementsVarId, maxChildVarId_cons, hblocks, hbody, ih]
  | @ifElse _ _ vars vars' body body' other other' _ _ _ _ _ _ ihb ihb' ih =>
    have hbody : lastSlot id vars body = lastSlot id vars body' := ihb _ _
    have hother : lastSlot id vars' other = lastSlot id vars' other' := ihb' _ _
    have hblocks (test : CoreExpr) (body other : CoreCode) :
        ((setStatementVarId id (.ifExpr test.expression (.mk true 0 0 vars body.statements)
          (some (.mk true 0 0 vars' other.statements)))).blocks.filter CodeBlock.linked).map
            CodeBlock.maxVarId = [lastSlot id vars body, lastSlot id vars' other] := rfl
    simp only [CoreCode.statements, setStatementsVarId, maxChildVarId_cons, hblocks, hbody, hother, ih]
  | @loop _ _ _ _ _ _ vars body body' _ _ _ _ _ _ _ ihb ih =>
    have hbody : lastSlot id vars body = lastSlot id vars body' := ihb _ _
    have hblocks (init inc : Option Expression) (test : CoreExpr) (body : CoreCode) :
        ((setStatementVarId id (.forExpr init test.expression inc
          (.mk true 0 0 vars body.statements))).blocks.filter CodeBlock.linked).map
            CodeBlock.maxVarId = [lastSlot id vars body] := rfl
    simp only [CoreCode.statements, setStatementsVarId, maxChildVarId_cons, hblocks, hbody, ih]
  | @ret value value' _ _ _ _ ih =>
    have hnone (value : Option Expression) :
        (setStatementVarId id (.returnExpr value)).blocks = [] := rfl
    simp only [CoreCode.statements, setStatementsVarId, maxChildVarId_cons, hnone, ih]

/-! ## Functions -/

/-- Functions with the same variables and with statements that agree. -/
structure CoreFunction.Agrees (f f' : CoreFunction) : Prop where
  params : f.params = f'.params
  vars : f.vars = f'.vars
  code : f.code.Agrees f'.code

namespace CoreFunction.Agrees

variable {f f' : CoreFunction}

theorem returns (h : f.Agrees f') (argv : List Word) (v : Word) :
    f.Returns argv v ↔ f'.Returns argv v := by
  have hinitial : f.initial argv = f'.initial argv := by
    rw [CoreFunction.initial, CoreFunction.initial, h.params, h.vars]
  simp only [CoreFunction.Returns, hinitial, h.code.exec]

theorem assigned (h : f.Agrees f') : f.AssignedBeforeRead ↔ f'.AssignedBeforeRead := by
  rw [CoreFunction.AssignedBeforeRead, CoreFunction.AssignedBeforeRead, h.params, h.vars,
    h.code.check]

theorem avoids (h : f.Agrees f') (name : String) : f.avoids name = f'.avoids name := by
  rw [CoreFunction.avoids, CoreFunction.avoids, h.params, h.vars, h.code.avoids]

theorem depth (h : f.Agrees f') : f.depth ≤ f'.depth :=
  max_le_max (Nat.le_refl 1) h.code.depth

theorem maxVarId (h : f.Agrees f') : f.body.maxVarId = f'.body.maxVarId := by
  rw [CoreFunction.body, CoreFunction.body, h.params, h.vars]
  exact h.code.maxChildVarId_eq _ _

end CoreFunction.Agrees

/-! ## Types -/

namespace CoreExpr

theorem eval_untyped (e : CoreExpr) : e.untyped.eval = e.eval := by
  induction e with
  | integer | var | increment => rfl
  | oper typed op left right ihl ihr =>
    funext env
    simp only [untyped, eval, ihl, ihr]
  | not typed right ih =>
    funext env
    simp only [untyped, eval, ih]

theorem check_untyped (e : CoreExpr) (D : Scopes Unit) : e.untyped.check D = e.check D := by
  induction e with
  | integer | var | increment => rfl
  | oper typed op left right ihl ihr => simp only [untyped, check, ihl, ihr]
  | not typed right ih => exact ih

theorem depth_untyped (e : CoreExpr) : e.untyped.depth = e.depth := by
  induction e with
  | integer | var | increment => rfl
  | oper typed op left right ihl ihr => simp only [untyped, depth, ihl, ihr]
  | not typed right ih => exact ih

/-- Expressions that differ in their types only agree. -/
theorem agrees_of_untyped {e e' : CoreExpr} (h : e.untyped = e'.untyped) : e.Agrees e' := by
  refine ⟨fun env => ?_, fun D => ?_, Nat.le_of_eq ?_⟩
  · rw [← eval_untyped, h, eval_untyped]
  · rw [← check_untyped, h, check_untyped]
  · rw [← depth_untyped, h, depth_untyped]

end CoreExpr

theorem CoreSimple.agrees_of_untyped {s s' : CoreSimple} (h : s.untyped = s'.untyped) :
    s.Agrees s' := by
  cases s with
  | set type varType name value =>
    cases s' with
    | set type' varType' name' value' =>
      obtain ⟨-, -, rfl, hvalue⟩ := CoreSimple.set.inj h
      have hvalue := CoreExpr.agrees_of_untyped hvalue
      refine ⟨fun env => ?_, fun D => ?_, hvalue.depth⟩
      · simp only [CoreSimple.exec, hvalue.eval]
      · simp only [CoreSimple.check, hvalue.check]
    | increment => cases h
  | increment type decrement varType name =>
    cases s' with
    | set => cases h
    | increment type' decrement' varType' name' =>
      obtain ⟨-, rfl, -, rfl⟩ := CoreSimple.increment.inj h
      exact ⟨fun _ => rfl, fun _ => rfl, Nat.le_refl 0⟩

theorem rel_of_map_eq {α β : Type} {r : α → α → Prop} {g : α → β}
    (hr : ∀ a a', g a = g a' → r a a') {a a' : Option α} (h : a.map g = a'.map g) :
    Option.Rel r a a' := by
  cases a with
  | none =>
    cases a' with
    | none => exact .none
    | some => cases h
  | some a =>
    cases a' with
    | none => cases h
    | some a' => exact .some (hr a a' (Option.some.inj h))

theorem CoreCode.agrees_of_untyped {c c' : CoreCode} (h : c.untyped = c'.untyped) :
    c.Agrees c' := by
  induction c generalizing c' with
  | done =>
    cases c' with
    | done => exact .done
    | _ => cases h
  | simple s rest ih =>
    cases c' with
    | simple s' rest' =>
      obtain ⟨hs, hrest⟩ := CoreCode.simple.inj h
      exact .simple (CoreSimple.agrees_of_untyped hs) (ih hrest)
    | _ => cases h
  | ifThen test vars body rest ihb ih =>
    cases c' with
    | ifThen test' vars' body' rest' =>
      obtain ⟨htest, rfl, hbody, hrest⟩ := CoreCode.ifThen.inj h
      exact .ifThen (CoreExpr.agrees_of_untyped htest) (ihb hbody) (ih hrest)
    | _ => cases h
  | ifElse test vars body vars' other rest ihb ihb' ih =>
    cases c' with
    | ifElse test' vars₁ body' vars₂ other' rest' =>
      obtain ⟨htest, rfl, hbody, rfl, hother, hrest⟩ := CoreCode.ifElse.inj h
      exact .ifElse (CoreExpr.agrees_of_untyped htest) (ihb hbody) (ihb' hother) (ih hrest)
    | _ => cases h
  | loop init test inc vars body rest ihb ih =>
    cases c' with
    | loop init' test' inc' vars' body' rest' =>
      obtain ⟨hinit, htest, hinc, rfl, hbody, hrest⟩ := CoreCode.loop.inj h
      exact .loop (rel_of_map_eq (fun _ _ => CoreSimple.agrees_of_untyped) hinit)
        (CoreExpr.agrees_of_untyped htest)
        (rel_of_map_eq (fun _ _ => CoreSimple.agrees_of_untyped) hinc) (ihb hbody) (ih hrest)
    | _ => cases h
  | ret value rest ih =>
    cases c' with
    | ret value' rest' =>
      obtain ⟨hvalue, hrest⟩ := CoreCode.ret.inj h
      exact .ret (rel_of_map_eq (fun _ _ => CoreExpr.agrees_of_untyped) hvalue) (ih hrest)
    | _ => cases h

/-- Functions that differ in their types only agree. -/
theorem CoreFunction.agrees_of_untyped {f f' : CoreFunction} (h : f.untyped = f'.untyped) :
    f.Agrees f' := by
  obtain ⟨hparams, hvars, hcode⟩ := CoreFunction.mk.inj h
  exact ⟨hparams, hvars, CoreCode.agrees_of_untyped hcode⟩

/-! ## Folding -/

theorem CoreOp.folded_agrees {left left' right right' : CoreExpr} (op : CoreOp)
    (hleft : left.Agrees left') (hright : right.Agrees right') :
    (op.folded left right).Agrees (.oper false op left' right') := by
  have hplain : (CoreExpr.oper false op left right).Agrees (.oper false op left' right') := by
    refine ⟨fun env => ?_, fun D => ?_, ?_⟩
    · simp only [CoreExpr.eval, hleft.eval, hright.eval]
    · simp only [CoreExpr.check, hleft.check, hright.check]
    · exact max_le_max hright.depth (Nat.add_le_add_right hleft.depth 1)
  unfold CoreOp.folded
  split
  · refine ⟨fun env => ?_, fun D => ?_, ?_⟩
    · rw [← hplain.eval]
      rfl
    · rw [← hplain.check]
      rfl
    · exact Nat.le_trans (Nat.le_succ 1) hplain.depth
  · refine ⟨fun env => ?_, fun D => ?_, ?_⟩
    · rw [← hplain.eval]
      rfl
    · rw [← hplain.check]
      rfl
    · exact Nat.le_trans (Nat.le_succ 1) hplain.depth
  · exact hplain

theorem CoreExpr.Agrees.refl (e : CoreExpr) : e.Agrees e :=
  ⟨fun _ => rfl, fun _ => rfl, Nat.le_refl _⟩

theorem SourceExpr.folded_agrees (e : SourceExpr) :
    (e.core CoreOp.folded).Agrees (e.core (.oper false)) := by
  induction e with
  | integer | literal | var | increment => exact .refl _
  | oper op left right ihl ihr => exact op.folded_agrees ihl ihr
  | not right ih =>
    refine ⟨fun env => ?_, ih.check, ih.depth⟩
    simp only [SourceExpr.core, CoreExpr.eval, ih.eval]

theorem SourceSimple.folded_agrees (s : SourceSimple) :
    (s.core CoreOp.folded).Agrees (s.core (.oper false)) := by
  cases s with
  | set x value =>
    refine ⟨fun env => ?_, fun D => ?_, value.folded_agrees.depth⟩
    · simp only [SourceSimple.core, CoreSimple.exec, value.folded_agrees.eval]
    · simp only [SourceSimple.core, CoreSimple.check, value.folded_agrees.check]
  | assign subtract x value =>
    refine ⟨fun env => ?_, fun D => ?_, max_le_max value.folded_agrees.depth (Nat.le_refl _)⟩
    · simp only [SourceSimple.core, CoreSimple.exec, CoreExpr.eval, value.folded_agrees.eval]
    · simp only [SourceSimple.core, CoreSimple.check, CoreExpr.check, value.folded_agrees.check]
      rfl
  | increment decrement x => exact ⟨fun _ => rfl, fun _ => rfl, Nat.le_refl 0⟩

theorem SourceCode.folded_agrees (c : SourceCode) :
    (c.core CoreOp.folded).Agrees (c.core (.oper false)) := by
  induction c with
  | done => exact .done
  | var x value rest ih =>
    cases value with
    | none => exact ih
    | some value =>
      exact .simple ((SourceSimple.set x value).folded_agrees) ih
  | simple s rest ih => exact .simple s.folded_agrees ih
  | ifThen test body rest ihb ih => exact .ifThen test.folded_agrees ihb ih
  | ifElse test body other rest ihb ihb' ih => exact .ifElse test.folded_agrees ihb ihb' ih
  | «while» test body rest ihb ih => exact .loop .none test.folded_agrees .none ihb ih
  | «for» init test inc body rest ihb ih =>
    exact .loop (.some init.folded_agrees) test.folded_agrees (.some inc.folded_agrees) ihb ih
  | ret value rest ih =>
    cases value with
    | none => exact .ret .none ih
    | some value => exact .ret (.some value.folded_agrees) ih

/-- **Folding the sums and products of literals does not change a function.** -/
theorem SourceFunction.parsed_agrees (f : SourceFunction) : f.parsed.Agrees f.meaning :=
  ⟨rfl, rfl, f.code.folded_agrees⟩

end B0rk
