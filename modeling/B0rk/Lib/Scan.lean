import Mathlib.Order.Nat

set_option autoImplicit false

/-! # Scanning

A text is read character by character: `read p c q` is that the character at `p` is `c` and that `q` is
behind it. A scan goes on as long as its step function allows, and so ends at a character that it does
not allow or where nothing can be read. Every place in a text that gets shorter has its scan
(`Scans.exists`), so what a loop does can be told from the scan by induction over it. -/

namespace Scan

variable {π χ σ : Type}

/-- A scan from `p` in state `s` goes on over `cs`, and ends at `r` in state `t`. -/
inductive Scans (read : π → χ → π → Prop) (step : σ → χ → Option σ) :
    σ → π → List χ → σ → π → Prop
  | halt {s : σ} {p : π} : (∀ c q, read p c q → step s c = none) → Scans read step s p [] s p
  | go {s s' t : σ} {p q r : π} {c : χ} {cs : List χ} : read p c q → step s c = some s' →
      Scans read step s' q cs t r → Scans read step s p (c :: cs) t r

variable {read : π → χ → π → Prop} {step : σ → χ → Option σ}

theorem Scans.halts {s t : σ} {p r : π} {cs : List χ} (h : Scans read step s p cs t r) :
    ∀ c q, read r c q → step t c = none := by
  induction h with
  | halt hhalt => exact hhalt
  | go _ _ _ ih => exact ih

theorem Scans.size_le (size : π → ℕ) (hsize : ∀ p c q, read p c q → size q < size p) {s t : σ}
    {p r : π} {cs : List χ} (h : Scans read step s p cs t r) : size r ≤ size p := by
  induction h with
  | halt _ => exact Nat.le_refl _
  | go hread _ _ ih => exact ih.trans (hsize _ _ _ hread).le

/-- There is a scan from every place, as long as reading makes the text shorter. -/
theorem Scans.exists (size : π → ℕ) (hsize : ∀ p c q, read p c q → size q < size p) (s : σ) (p : π) :
    ∃ cs t r, Scans read step s p cs t r := by
  induction hn : size p using Nat.strong_induction_on generalizing s p with
  | _ n ih =>
    by_cases hgo : ∃ c q s', read p c q ∧ step s c = some s'
    · obtain ⟨c, q, s', hread, hstep⟩ := hgo
      obtain ⟨cs, t, r, hscans⟩ := ih (size q) (hn ▸ hsize p c q hread) s' q rfl
      exact ⟨c :: cs, t, r, .go hread hstep hscans⟩
    · refine ⟨[], s, p, .halt fun c q hread => ?_⟩
      cases hstep : step s c with
      | none => rfl
      | some s' => exact (hgo ⟨c, q, s', hread, hstep⟩).elim

end Scan
