import B0rk.Parser.Proofs.Complete

set_option autoImplicit false

/-! # Where `resolveTypes` comes to its end

A bare operation, or an entry that has been deleted, is left in `m_expressions` only by a call that
fails and by an expression that does not make use of all that it has read. -/

namespace B0rk

open Attempt

variable {World : Type} {P : ParserEnv World} {expr : Expression} {queue : List QueueEntry}

/-! ## One expression -/

/-- A queue that is used up leaves no operation without operands. -/
theorem leavesBare_of_built {n : ℕ} (hknown : KnownOperators queue)
    (h : buildTree P n queue = some (expr, [])) : leavesBare P n queue = false := by
  rcases n with _ | n
  · cases h
  rcases queue with _ | ⟨_ | op | _, queue⟩
  · cases h
  · obtain ⟨-, rfl⟩ := Prod.mk.inj (Option.some.inj h)
    rfl
  · obtain ⟨right, between, left, hright, hleft, -⟩ := buildTree_operator.mp h
    unfold leavesBare
    by_cases hr : op.hasRightExpr = true
    · rw [if_pos hr] at hright ⊢
      obtain ⟨⟨r, q⟩, hbuild, heq⟩ := Option.map_eq_some_iff.mp hright
      obtain ⟨-, rfl⟩ := Prod.mk.inj heq
      simp only [hbuild]
      by_cases hl : op.hasLeftExpr = true
      · rw [if_pos hl] at hleft ⊢
        obtain ⟨⟨l, q'⟩, hbuild', heq'⟩ := Option.map_eq_some_iff.mp hleft
        obtain ⟨-, rfl⟩ := Prod.mk.inj heq'
        simp only [hbuild', List.any_nil]
      · rw [if_neg hl] at hleft ⊢
        obtain ⟨-, rfl⟩ := Prod.mk.inj (Option.some.inj hleft)
        rfl
    · have hl : op.hasLeftExpr = true := by
        by_contra hl
        exact hr (opTable_operand op (hknown op (List.mem_cons_self ..)) (Bool.eq_false_of_not_eq_true hl))
      rw [if_neg hr] at hright ⊢
      obtain ⟨-, rfl⟩ := Prod.mk.inj (Option.some.inj hright)
      rw [if_pos hl] at hleft
      obtain ⟨⟨l, q⟩, hbuild, heq⟩ := Option.map_eq_some_iff.mp hleft
      obtain ⟨-, rfl⟩ := Prod.mk.inj heq
      simp only [hbuild, List.any_nil]
  · cases h

/-- The operators come from `opTable`. -/
theorem outputQueue_known {fuel : ℕ} {endToken : TokenType} {s : ParserState World}
    (h : outputQueue P fuel endToken s = some queue) : KnownOperators queue := by
  obtain ⟨⟨output, operators⟩, hloop, hqueue⟩ := Option.map_eq_some_iff.mp h
  obtain ⟨t, hloop⟩ := result_eq_some.mp hloop
  rw [parseExpressionLoop_eq fuel endToken [] [] 0 rfl] at hloop
  obtain ⟨items, u, hread, hplace⟩ := bind_ok.mp hloop
  obtain ⟨hplace, -⟩ := ofOption_ok.mp hplace
  have horder : order items = some queue := by
    rw [order, hplace, Option.map_some]
    exact congrArg some hqueue
  exact order_known hread horder

/-! ## All calls -/

namespace ParseStep

variable {step : ParseStep} {s : ParserState World}

theorem leavesBare_of_complete (hsucceeds : ¬(step.run P).Fails s)
    (hcomplete : ∀ fuel endToken, step = .expression (fuel + 1) endToken → ∀ queue,
      outputQueue P fuel endToken s = some queue → Complete QueueEntry.IsVariable queue) :
    step.leavesBare P s = false := by
  cases step with
  | loop fuel endToken queue operators brackets =>
    have hfails : ¬(parseExpressionLoop P fuel endToken queue operators brackets).Fails s := hsucceeds
    rw [← failsFrom_iff, Bool.not_eq_true] at hfails
    unfold ParseStep.leavesBare
    simp only [hfails, Bool.false_and]
  | expression fuel endToken =>
    rcases fuel with _ | fuel
    · rfl
    unfold ParseStep.leavesBare
    dsimp only
    cases hqueue : outputQueue P fuel endToken s with
    | none => rfl
    | some queue =>
      have hknown := outputQueue_known hqueue
      obtain ⟨expr, hbuild⟩ := (hcomplete fuel endToken rfl queue hqueue).taken (P := P) hknown le_rfl []
      rw [List.append_nil] at hbuild
      exact leavesBare_of_built hknown hbuild
  | _ => rfl

theorem deletesUsed_of_succeeds (hsucceeds : ¬(step.run P).Fails s) : step.deletesUsed P s = false := by
  cases step with
  | statement fuel code =>
    rcases fuel with _ | fuel
    · rfl
    have hfails : ¬(parseStatement P (fuel + 1) code).Fails s := hsucceeds
    rw [← failsFrom_iff, Bool.not_eq_true] at hfails
    unfold deletesUsed
    simp only [hfails, Bool.false_and]
  | block fuel code =>
    rcases fuel with _ | fuel
    · rfl
    have hfails : ¬(parseCodeBlock P (fuel + 1) code).Fails s := hsucceeds
    rw [← failsFrom_iff, Bool.not_eq_true] at hfails
    unfold deletesUsed
    simp only [hfails, Bool.false_and]
  | _ => rfl

/-- **`resolveTypes` comes to its end** where no call fails and every expression makes use of its whole
    queue. -/
theorem resolvable_of_complete
    (h : ∀ a, Relation.ReflTransGen (fun a b => b ∈ a.1.calls P a.2) (step, s) a →
      ¬(a.1.run P).Fails a.2 ∧ ∀ fuel endToken, a.1 = .expression (fuel + 1) endToken → ∀ queue,
        outputQueue P fuel endToken a.2 = some queue → Complete QueueEntry.IsVariable queue) :
    step.resolvable P s = true := by
  have hnone (n : ℕ) : ∀ a, Relation.ReflTransGen (fun a b => b ∈ a.1.calls P a.2) (step, s) a →
      a.1.unresolvable P n a.2 = false := by
    induction n with
    | zero => exact fun a _ => rfl
    | succ n ih =>
      intro a ha
      obtain ⟨hsucceeds, hcomplete⟩ := h a ha
      unfold unresolvable
      rw [leavesBare_of_complete hsucceeds hcomplete, deletesUsed_of_succeeds hsucceeds,
        Bool.or_self, Bool.false_or, List.any_eq_false]
      intro b hb
      rw [Bool.not_eq_true]
      exact ih b (ha.tail hb)
  unfold resolvable
  rw [hnone _ (step, s) .refl]
  rfl

end ParseStep

end B0rk
