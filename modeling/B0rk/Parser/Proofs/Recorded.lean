import B0rk.Parser.Proofs.Related
import B0rk.Parser.Recorded

set_option autoImplicit false

/-! # What is left in `m_expressions` over related runtimes -/

namespace B0rk

namespace ParserEnv.Follows

variable {World World' : Type} {good : World → Prop} {R : World → World' → Prop}
  {P : ParserEnv World} {Q : ParserEnv World'} (h : P.Follows good R Q)

include h

theorem leavesBare (n : ℕ) (queue : List QueueEntry) : leavesBare P n queue = leavesBare Q n queue := by
  induction n generalizing queue with
  | zero => rfl
  | succ n ih =>
    rcases queue with _ | ⟨_ | _ | _, queue⟩
    · rfl
    · rfl
    · unfold B0rk.leavesBare
      simp only [ih, h.buildTree]
    · rfl

theorem bindsVar (n : ℕ) (queue : List QueueEntry) : bindsVar P n queue = bindsVar Q n queue := by
  induction n generalizing queue with
  | zero => rfl
  | succ n ih =>
    rcases queue with _ | ⟨_ | _ | _, queue⟩
    · rfl
    · rfl
    · unfold B0rk.bindsVar
      simp only [ih, h.buildTree]
    · rfl

variable {s : ParserState World} {t : ParserState World'} (hR : InStep R s t)

include hR

/-- The queue comes from the first call of an expression. -/
theorem outputQueue {fuel : ℕ} {endToken : TokenType}
    (hcomes : ((ParseStep.expression (fuel + 1) endToken).run P).Comes (Over good) s) :
    outputQueue P fuel endToken s = outputQueue Q fuel endToken t := by
  have hmem : (ParseStep.loop fuel endToken [] [] 0, s) ∈
      (ParseStep.expression (fuel + 1) endToken).calls P s := by
    refine List.mem_map.mpr ⟨(true, _, s), ?_, rfl⟩
    exact Routine.mem_calls_bind (Routine.mem_calls_calling _ s) _
  have hloop := (List.forall₂_and_left _ _ |>.mp (h.calls hR hcomes)).1 _ hmem
  exact congrArg _ ((h.step (.loop fuel endToken [] [] 0)).result hR hloop)

variable {step : ParseStep} (hcomes : (step.run P).Comes (Over good) s)

include hcomes

/-- Something that is asked of the calls, and is the same for related ones. -/
theorem any_calls {p : ParseStep × ParserState World → Bool} {q : ParseStep × ParserState World' → Bool}
    (hpq : ∀ (step : ParseStep) s t, InStep R s t → (step.run P).Comes (Over good) s →
      p (step, s) = q (step, t)) :
    (step.calls P s).any p = (step.calls Q t).any q := by
  have hcalls := h.calls hR hcomes
  generalize step.calls P s = calls, step.calls Q t = calls' at hcalls
  induction hcalls with
  | nil => rfl
  | @cons a b _ _ hab _ ih =>
    obtain ⟨step', s'⟩ := a
    obtain ⟨step'', t'⟩ := b
    obtain ⟨hcomes', rfl, hR'⟩ := hab
    rw [List.any_cons, List.any_cons, hpq _ _ _ hR' hcomes', ih]

theorem filterMap_calls {β : Type} {p : ParseStep × ParserState World → Option β}
    {q : ParseStep × ParserState World' → Option β}
    (hpq : ∀ (step : ParseStep) s t, InStep R s t → (step.run P).Comes (Over good) s →
      p (step, s) = q (step, t)) :
    (step.calls P s).filterMap p = (step.calls Q t).filterMap q := by
  have hcalls := h.calls hR hcomes
  generalize step.calls P s = calls, step.calls Q t = calls' at hcalls
  induction hcalls with
  | nil => rfl
  | @cons a b _ _ hab _ ih =>
    obtain ⟨step', s'⟩ := a
    obtain ⟨step'', t'⟩ := b
    obtain ⟨hcomes', rfl, hR'⟩ := hab
    rw [List.filterMap_cons, List.filterMap_cons, hpq _ _ _ hR' hcomes', ih]

theorem exprs : ParseStep.exprs P (step.calls P s) = ParseStep.exprs Q (step.calls Q t) := by
  refine h.filterMap_calls hR hcomes fun step s t hR hcomes => ?_
  cases step with
  | expression fuel endToken => exact (h.step (.expression fuel endToken)).result hR hcomes
  | _ => rfl

theorem blocks : ParseStep.blocks P (step.calls P s) = ParseStep.blocks Q (step.calls Q t) := by
  refine h.filterMap_calls hR hcomes fun step s t hR hcomes => ?_
  cases step with
  | block fuel code => exact (h.step (.block fuel code)).result hR hcomes
  | _ => rfl

theorem step_leavesBare : step.leavesBare P s = step.leavesBare Q t := by
  cases step with
  | loop fuel endToken queue operators brackets =>
    exact congrArg (· && _)
      ((h.step (.loop fuel endToken queue operators brackets)).failsFrom hR hcomes)
  | expression fuel endToken =>
    cases fuel with
    | zero => rfl
    | succ fuel =>
      unfold ParseStep.leavesBare
      simp only [h.outputQueue hR hcomes, h.leavesBare]
  | _ => rfl

theorem step_bindsVar (n : ℕ) : step.bindsVar P n s = step.bindsVar Q n t := by
  induction n generalizing step s t with
  | zero => cases step <;> rfl
  | succ n ih =>
    cases step with
    | expression fuel endToken =>
      cases fuel with
      | zero =>
        unfold ParseStep.bindsVar
        exact congrArg _ (h.any_calls hR hcomes fun step' s t hR hcomes => ih hR hcomes)
      | succ fuel =>
        unfold ParseStep.bindsVar
        simp only [h.outputQueue hR hcomes, h.bindsVar]
        exact congrArg _ (h.any_calls hR hcomes fun step' s t hR hcomes => ih hR hcomes)
    | block => rfl
    | function => rfl
    | _ =>
      unfold ParseStep.bindsVar
      exact congrArg _ (h.any_calls hR hcomes fun step' s t hR hcomes => ih hR hcomes)

theorem step_blockBindsVar (n : ℕ) : step.blockBindsVar P n s = step.blockBindsVar Q n t := by
  induction n generalizing step s t with
  | zero => cases step <;> rfl
  | succ n ih =>
    cases step with
    | block fuel code =>
      unfold ParseStep.blockBindsVar
      exact h.any_calls hR hcomes fun step' s t hR hcomes =>
        congrArg₂ (· || ·) (h.step_bindsVar hR hcomes n) (ih hR hcomes)
    | _ => rfl

theorem anyBindsVar (n : ℕ) :
    ParseStep.anyBindsVar P n (step.calls P s) = ParseStep.anyBindsVar Q n (step.calls Q t) :=
  h.any_calls hR hcomes fun _ _ _ hR hcomes => h.step_bindsVar hR hcomes n

theorem anyBlockBindsVar (n : ℕ) :
    ParseStep.anyBlockBindsVar P n (step.calls P s) = ParseStep.anyBlockBindsVar Q n (step.calls Q t) :=
  h.any_calls hR hcomes fun _ _ _ hR hcomes => h.step_blockBindsVar hR hcomes n

theorem deletesUsed : step.deletesUsed P s = step.deletesUsed Q t := by
  cases step with
  | statement fuel code =>
    cases fuel with
    | zero => rfl
    | succ fuel =>
      have hfails : Attempt.failsFrom (parseStatement P (fuel + 1) code) s =
          Attempt.failsFrom (parseStatement Q (fuel + 1) code) t :=
        (h.step (.statement (fuel + 1) code)).failsFrom hR hcomes
      have htoken : Attempt.result (B0rk.nextToken P) s = Attempt.result (B0rk.nextToken Q) t := by
        unfold Attempt.result B0rk.nextToken
        rw [h.tokens, hR.1]
        cases Q.tokens[t.pos]? <;> rfl
      unfold ParseStep.deletesUsed ParseStep.statementRecords ParseStep.forBindsVar
      simp only [h.step_bindsVar hR hcomes, h.anyBlockBindsVar hR hcomes, h.exprs hR hcomes,
        h.blocks hR hcomes, htoken, hfails]
  | block fuel code =>
    cases fuel with
    | zero => rfl
    | succ fuel =>
      have hfails : Attempt.failsFrom (parseCodeBlock P (fuel + 1) code) s =
          Attempt.failsFrom (parseCodeBlock Q (fuel + 1) code) t :=
        (h.step (.block (fuel + 1) code)).failsFrom hR hcomes
      unfold ParseStep.deletesUsed
      simp only [h.anyBindsVar hR hcomes, hfails]
  | _ => rfl

theorem unresolvable (n : ℕ) : step.unresolvable P n s = step.unresolvable Q n t := by
  induction n generalizing step s t with
  | zero => rfl
  | succ n ih =>
    unfold ParseStep.unresolvable
    rw [h.step_leavesBare hR hcomes, h.deletesUsed hR hcomes]
    exact congrArg _ (h.any_calls hR hcomes fun step' s t hR hcomes => ih hR hcomes)

/-- Over related runtimes the entries of `m_expressions` are alike, if the call comes to an end. -/
theorem resolvable : step.resolvable P s = step.resolvable Q t := by
  unfold ParseStep.resolvable
  rw [h.unresolvable hR hcomes]

omit hR hcomes in
/-- The entries of a call that follows can be looked through in advance. -/
theorem bindResolvable {α : Type} (step : ParseStep) {f : Bool → step.Result → Parse World α}
    {g : Bool → step.Result → Parse World' α}
    (hf : ∀ resolvable a, Parse.Follows good R (f resolvable a) (g resolvable a)) :
    Parse.Follows good R
      (Attempt.read (step.resolvable P) >>= fun resolvable => step.run P >>= f resolvable)
      (Attempt.read (step.resolvable Q) >>= fun resolvable => step.run Q >>= g resolvable) where
  back s a s' hrun hgood := ((h.step step).bind (hf _)).back s a s' hrun hgood
  run s t hR a s' hrun hgood := by
    have hstep : (step.run P).Comes (Over good) s := by
      change (step.run P >>= f (step.resolvable P s)) s = some (a, s') at hrun
      rw [Attempt.bind_run] at hrun
      rcases hx : step.run P s with _ | ⟨_ | b, u⟩ <;> rw [hx] at hrun
      · cases hrun
      · obtain ⟨-, rfl⟩ := Prod.mk.inj (Option.some.inj hrun)
        exact ⟨none, u, hx, hgood⟩
      · exact ⟨some b, u, hx, (hf _ b).back u a s' hrun hgood⟩
    obtain ⟨t', hrun', hR'⟩ := ((h.step step).bind (hf _)).run s t hR a s' hrun hgood
    refine ⟨t', ?_, hR'⟩
    rw [h.resolvable hR hstep] at hrun'
    exact hrun'

end ParserEnv.Follows

end B0rk
