import B0rk.Lib.Attempt

set_option autoImplicit false

/-! # Computations in step

Two computations on different states, of which the second does to its state what the first does to its
own. Only those runs of the first count that come to an outcome in a good state; a run that has left
the good states does not find back. Read with one computation on both sides and a relation that holds
of equal states only, this is an invariant of the computation. -/

namespace Attempt

variable {σ τ α β : Type} {good : σ → Prop} {R : σ → τ → Prop} {x : Attempt σ α} {y : Attempt τ α}

/-- Run from related states, the second computation comes to the outcome that the first comes to in a
    good state, and leaves a related one. -/
structure Follows (good : σ → Prop) (R : σ → τ → Prop) (x : Attempt σ α) (y : Attempt τ α) :
    Prop where
  back : ∀ s a s', x s = some (a, s') → good s' → good s
  run : ∀ s t, R s t → ∀ a s', x s = some (a, s') → good s' → ∃ t', y t = some (a, t') ∧ R s' t'

namespace Follows

/-- Every computation is in step with itself. -/
theorem eq (x : Attempt σ α) : Follows (fun _ => True) Eq x x where
  back _ _ _ _ _ := trivial
  run := by
    rintro s _ rfl a s' hrun -
    exact ⟨s', hrun, rfl⟩

theorem pure (a : α) : Follows good R (Pure.pure a) (Pure.pure a) where
  back s b s' hrun hgood := by
    obtain ⟨-, rfl⟩ := Prod.mk.inj (Option.some.inj hrun)
    exact hgood
  run s t hR b s' hrun hgood := by
    obtain ⟨rfl, rfl⟩ := Prod.mk.inj (Option.some.inj hrun)
    exact ⟨t, rfl, hR⟩

theorem fail : Follows good R (fail : Attempt σ α) fail where
  back s b s' hrun hgood := by
    obtain ⟨-, rfl⟩ := Prod.mk.inj (Option.some.inj hrun)
    exact hgood
  run s t hR b s' hrun hgood := by
    obtain ⟨rfl, rfl⟩ := Prod.mk.inj (Option.some.inj hrun)
    exact ⟨t, rfl, hR⟩

theorem undefined : Follows good R (undefined : Attempt σ α) undefined where
  back _ _ _ hrun := nomatch hrun
  run _ _ _ _ _ hrun := nomatch hrun

theorem read {f : σ → α} {g : τ → α} (h : ∀ s t, R s t → f s = g t) :
    Follows good R (read f) (read g) where
  back s b s' hrun hgood := by
    obtain ⟨-, rfl⟩ := Prod.mk.inj (Option.some.inj hrun)
    exact hgood
  run s t hR b s' hrun hgood := by
    obtain ⟨rfl, rfl⟩ := Prod.mk.inj (Option.some.inj hrun)
    exact ⟨t, by rw [h s t hR]; rfl, hR⟩

theorem modify {f : σ → σ} {g : τ → τ} (hback : ∀ s, good (f s) → good s)
    (h : ∀ s t, R s t → R (f s) (g t)) : Follows good R (modify f) (modify g) where
  back s b s' hrun hgood := by
    obtain ⟨-, rfl⟩ := Prod.mk.inj (Option.some.inj hrun)
    exact hback s hgood
  run s t hR b s' hrun hgood := by
    obtain ⟨rfl, rfl⟩ := Prod.mk.inj (Option.some.inj hrun)
    exact ⟨g t, rfl, h s t hR⟩

/-- Parts in step make a sequence in step. -/
theorem bind (hx : Follows good R x y) {f : α → Attempt σ β} {g : α → Attempt τ β}
    (hf : ∀ a, Follows good R (f a) (g a)) : Follows good R (x >>= f) (y >>= g) where
  back s b s' hrun hgood := by
    rw [bind_run] at hrun
    rcases hxs : x s with _ | ⟨_ | a, u⟩ <;> rw [hxs] at hrun
    · cases hrun
    · obtain ⟨-, rfl⟩ := Prod.mk.inj (Option.some.inj hrun)
      exact hx.back s none u hxs hgood
    · exact hx.back s (some a) u hxs ((hf a).back u b s' hrun hgood)
  run s t hR b s' hrun hgood := by
    rw [bind_run] at hrun ⊢
    rcases hxs : x s with _ | ⟨_ | a, u⟩ <;> rw [hxs] at hrun
    · cases hrun
    · obtain ⟨rfl, rfl⟩ := Prod.mk.inj (Option.some.inj hrun)
      obtain ⟨t', hyt, hR'⟩ := hx.run s t hR none u hxs hgood
      exact ⟨t', by rw [hyt]; rfl, hR'⟩
    · obtain ⟨v, hyt, hR'⟩ := hx.run s t hR (some a) u hxs ((hf a).back u b s' hrun hgood)
      obtain ⟨t', hgv, hR''⟩ := (hf a).run u v hR' b s' hrun hgood
      exact ⟨t', by rw [hyt]; exact hgv, hR''⟩

theorem orNull (hx : Follows good R x y) : Follows good R (orNull x) (orNull y) where
  back s b s' hrun hgood := by
    unfold Attempt.orNull at hrun
    rcases hxs : x s with _ | ⟨a, u⟩ <;> rw [hxs] at hrun
    · cases hrun
    · obtain ⟨-, rfl⟩ := Prod.mk.inj (Option.some.inj hrun)
      exact hx.back s a u hxs hgood
  run s t hR b s' hrun hgood := by
    unfold Attempt.orNull at hrun ⊢
    rcases hxs : x s with _ | ⟨a, u⟩ <;> rw [hxs] at hrun
    · cases hrun
    · obtain ⟨rfl, rfl⟩ := Prod.mk.inj (Option.some.inj hrun)
      obtain ⟨t', hyt, hR'⟩ := hx.run s t hR a u hxs hgood
      exact ⟨t', by rw [hyt], hR'⟩

theorem onFailure (hx : Follows good R x y) {f : σ → σ} {g : τ → τ}
    (hback : ∀ s, good (f s) → good s) (h : ∀ s t, R s t → R (f s) (g t)) :
    Follows good R (x.onFailure f) (y.onFailure g) where
  back s b s' hrun hgood := by
    unfold Attempt.onFailure at hrun
    rcases hxs : x s with _ | ⟨_ | a, u⟩ <;> rw [hxs] at hrun
    · cases hrun
    · obtain ⟨-, rfl⟩ := Prod.mk.inj (Option.some.inj hrun)
      exact hx.back s none u hxs (hback u hgood)
    · obtain ⟨-, rfl⟩ := Prod.mk.inj (Option.some.inj hrun)
      exact hx.back s (some a) u hxs hgood
  run s t hR b s' hrun hgood := by
    unfold Attempt.onFailure at hrun ⊢
    rcases hxs : x s with _ | ⟨_ | a, u⟩ <;> rw [hxs] at hrun
    · cases hrun
    · obtain ⟨rfl, rfl⟩ := Prod.mk.inj (Option.some.inj hrun)
      obtain ⟨t', hyt, hR'⟩ := hx.run s t hR none u hxs (hback u hgood)
      exact ⟨g t', by rw [hyt], h _ _ hR'⟩
    · obtain ⟨rfl, rfl⟩ := Prod.mk.inj (Option.some.inj hrun)
      obtain ⟨t', hyt, hR'⟩ := hx.run s t hR (some a) u hxs hgood
      exact ⟨t', by rw [hyt], hR'⟩

theorem ite {c : Prop} [Decidable c] {x' : Attempt σ α} {y' : Attempt τ α} (hx : Follows good R x y)
    (hy : Follows good R x' y') : Follows good R (if c then x else x') (if c then y else y') := by
  by_cases h : c
  · rw [if_pos h, if_pos h]
    exact hx
  · rw [if_neg h, if_neg h]
    exact hy

end Follows

/-- The computation comes to an outcome, in a good state. -/
def Comes (good : σ → Prop) (x : Attempt σ α) (s : σ) : Prop := ∃ a s', x s = some (a, s') ∧ good s'

theorem Comes.of_orNull {s : σ} (h : (orNull x).Comes good s) : x.Comes good s := by
  obtain ⟨a, s', hrun, hgood⟩ := h
  unfold orNull at hrun
  rcases hx : x s with _ | ⟨b, u⟩ <;> rw [hx] at hrun
  · cases hrun
  · obtain ⟨-, rfl⟩ := Prod.mk.inj (Option.some.inj hrun)
    exact ⟨b, u, hx, hgood⟩

theorem Comes.of_onFailure {f : σ → σ} (hback : ∀ s, good (f s) → good s) {s : σ}
    (h : (x.onFailure f).Comes good s) : x.Comes good s := by
  obtain ⟨a, s', hrun, hgood⟩ := h
  unfold onFailure at hrun
  rcases hx : x s with _ | ⟨_ | b, u⟩ <;> rw [hx] at hrun
  · cases hrun
  · obtain ⟨-, rfl⟩ := Prod.mk.inj (Option.some.inj hrun)
    exact ⟨none, u, hx, hback u hgood⟩
  · obtain ⟨-, rfl⟩ := Prod.mk.inj (Option.some.inj hrun)
    exact ⟨some b, u, hx, hgood⟩

namespace Follows

/-- Run from related states, both come to the same, if the first comes to anything good. -/
theorem result (hx : Follows good R x y) {s : σ} {t : τ} (hR : R s t) (hs : x.Comes good s) :
    x.result s = y.result t := by
  obtain ⟨a, s', hrun, hgood⟩ := hs
  obtain ⟨t', hyt, -⟩ := hx.run s t hR a s' hrun hgood
  unfold Attempt.result
  rw [hrun, hyt]
  rfl

theorem failsFrom (hx : Follows good R x y) {s : σ} {t : τ} (hR : R s t) (hs : x.Comes good s) :
    x.failsFrom s = y.failsFrom t := by
  obtain ⟨a, s', hrun, hgood⟩ := hs
  obtain ⟨t', hyt, -⟩ := hx.run s t hR a s' hrun hgood
  unfold Attempt.failsFrom
  rw [hrun, hyt]
  cases a <;> rfl

end Follows

/-! ## What a computation does to its state -/

/-- Whatever the outcome is, the states before and behind the computation are related. -/
def Changes (Q : σ → σ → Prop) (x : Attempt σ α) : Prop := ∀ s a t, x s = some (a, t) → Q s t

namespace Changes

variable {Q : σ → σ → Prop} {z z' : Attempt σ α}

theorem pure [Std.Refl Q] (a : α) : Changes Q (Pure.pure a : Attempt σ α) := by
  intro s b t h
  obtain rfl : s = t := (Prod.mk.inj (Option.some.inj h)).2
  exact refl s

theorem fail [Std.Refl Q] : Changes Q (fail : Attempt σ α) := by
  intro s b t h
  obtain rfl : s = t := (Prod.mk.inj (Option.some.inj h)).2
  exact refl s

theorem undefined : Changes Q (undefined : Attempt σ α) := fun _ _ _ h => nomatch h

theorem read [Std.Refl Q] {f : σ → α} : Changes Q (read f) := by
  intro s b t h
  obtain rfl : s = t := (Prod.mk.inj (Option.some.inj h)).2
  exact refl s

theorem modify {f : σ → σ} (h : ∀ s, Q s (f s)) : Changes Q (modify f) := by
  intro s b t hrun
  obtain rfl : f s = t := (Prod.mk.inj (Option.some.inj hrun)).2
  exact h s

theorem bind [IsTrans σ Q] (hz : Changes Q z) {f : α → Attempt σ β} (hf : ∀ a, Changes Q (f a)) :
    Changes Q (z >>= f) := by
  intro s b t h
  rw [bind_run] at h
  rcases hrun : z s with _ | ⟨_ | a, u⟩
  · rw [hrun] at h
    cases h
  · rw [hrun] at h
    obtain rfl : u = t := (Prod.mk.inj (Option.some.inj h)).2
    exact hz s none u hrun
  · rw [hrun] at h
    exact IsTrans.trans _ _ _ (hz s (some a) u hrun) (hf a u b t h)

theorem orNull (hz : Changes Q z) : Changes Q (orNull z) := by
  intro s b t h
  unfold Attempt.orNull at h
  rcases hrun : z s with _ | ⟨a, u⟩
  · rw [hrun] at h
    cases h
  · rw [hrun] at h
    obtain rfl : u = t := (Prod.mk.inj (Option.some.inj h)).2
    exact hz s a u hrun

theorem ite {c : Prop} [Decidable c] (hz : Changes Q z) (hz' : Changes Q z') :
    Changes Q (if c then z else z') := by
  by_cases h : c
  · rw [if_pos h]
    exact hz
  · rw [if_neg h]
    exact hz'

end Changes

end Attempt
