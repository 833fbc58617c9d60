import Mathlib.Algebra.BigOperators.Group.List.Basic
import Mathlib.Tactic.Common
import Mathlib.Algebra.Order.Ring.Int

set_option autoImplicit false

/-! # Counting operands

Entries that count up, as an operand does, or down, as an operator does with all its operands but
one. A list that comes to `k` at its end and stays below before is `k` expressions in a row, the
operators in front of their operands; such a list can be split, and no other such list begins where
it begins. -/

namespace Postfix

variable {ε : Type} {w : ε → ℤ} {j k : ℤ} {x : ε} {p p' q s s' : List ε}

/-- What a list counts. -/
def weight (w : ε → ℤ) (q : List ε) : ℤ := (q.map w).sum

@[simp] theorem weight_nil : weight w [] = 0 := rfl

@[simp] theorem weight_cons : weight w (x :: q) = w x + weight w q := by simp [weight]

@[simp] theorem weight_append : weight w (p ++ q) = weight w p + weight w q := by simp [weight]

/-- The list comes to `k` at its end, and stays below it before. -/
structure Reaches (w : ε → ℤ) (k : ℤ) (q : List ε) : Prop where
  weight_eq : weight w q = k
  below : ∀ p s, q = p ++ s → s ≠ [] → weight w p < k

theorem Reaches.append (hp : Reaches w j p) (hq : Reaches w k q) (hk : 0 < k) :
    Reaches w (j + k) (p ++ q) where
  weight_eq := by rw [weight_append, hp.weight_eq, hq.weight_eq]
  below a b h hb := by
    rcases List.append_eq_append_iff.mp h with ⟨c, rfl, hq'⟩ | ⟨c, rfl, rfl⟩
    · have := hq.below c b hq' hb
      rw [weight_append, hp.weight_eq]
      omega
    · by_cases hc : c = []
      · have := hp.weight_eq
        rw [hc, List.append_nil] at this
        omega
      · have := hp.below a c rfl hc
        omega

/-- An entry in front. -/
theorem Reaches.cons (hq : Reaches w k q) (hx : 0 < w x + k) :
    Reaches w (w x + k) (x :: q) where
  weight_eq := by rw [weight_cons, hq.weight_eq]
  below p s h hs := by
    rcases p with _ | ⟨y, p⟩
    · exact hx
    · obtain ⟨rfl, rfl⟩ := List.cons.inj h
      have := hq.below p s rfl hs
      rw [weight_cons]
      omega

/-- A list behind its first entry. -/
theorem Reaches.tail (h : Reaches w k (x :: q)) : Reaches w (k - w x) q where
  weight_eq := by
    have := h.weight_eq
    rw [weight_cons] at this
    omega
  below p s hq hs := by
    have := h.below (x :: p) s (by rw [hq]; rfl) hs
    rw [weight_cons] at this
    omega

/-- Only one list that reaches `k` is in front of a list. -/
theorem Reaches.unique (h : Reaches w k p) (h' : Reaches w k p') (heq : p ++ s = p' ++ s') :
    p = p' ∧ s = s' := by
  rcases List.append_eq_append_iff.mp heq with ⟨c, rfl, rfl⟩ | ⟨c, rfl, rfl⟩
  · by_cases hc : c = []
    · simp [hc]
    · exact absurd h.weight_eq (h'.below p c rfl hc).ne
  · by_cases hc : c = []
    · simp [hc]
    · exact absurd h'.weight_eq (h.below p' c rfl hc).ne

/-- Where no entry counts up by more than one, nothing is left out in between. -/
theorem exists_reaches (hw : ∀ x ∈ q, w x ≤ 1) (hk : 0 < k) (hle : k ≤ weight w q) :
    ∃ p s, q = p ++ s ∧ Reaches w k p := by
  induction q generalizing k with
  | nil =>
    rw [weight_nil] at hle
    omega
  | cons x q ih =>
    obtain ⟨hx, hw⟩ := List.forall_mem_cons.mp hw
    rw [weight_cons] at hle
    by_cases hone : w x = k
    · refine ⟨[x], q, rfl, by simpa using hone, fun p s h hs => ?_⟩
      rcases p with _ | ⟨y, p⟩
      · exact hk
      · simp only [List.cons_append, List.cons.injEq] at h
        exact absurd (List.append_eq_nil_iff.mp h.2.symm).2 hs
    · obtain ⟨p, s, rfl, hp⟩ := ih hw (show 0 < k - w x by omega) (by omega)
      have hcons := hp.cons (x := x) (by omega)
      rw [show w x + (k - w x) = k by omega] at hcons
      exact ⟨x :: p, s, rfl, hcons⟩

/-- A list that reaches a sum is two lists that reach the summands. -/
theorem Reaches.split (h : Reaches w (j + k) q) (hw : ∀ x ∈ q, w x ≤ 1) (hj : 0 < j) (hk : 0 < k) :
    ∃ p s, q = p ++ s ∧ Reaches w j p ∧ Reaches w k s := by
  obtain ⟨p, s, rfl, hp⟩ := exists_reaches hw hj (by rw [h.weight_eq]; omega)
  refine ⟨p, s, rfl, hp, ?_, fun a b hs hb => ?_⟩
  · have := h.weight_eq
    rw [weight_append, hp.weight_eq] at this
    omega
  · have := h.below (p ++ a) b (by rw [hs, List.append_assoc]) hb
    rw [weight_append, hp.weight_eq] at this
    omega

end Postfix
