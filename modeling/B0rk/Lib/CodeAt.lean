import Mathlib.Tactic.Common

set_option autoImplicit false

/-! # Segments of a list

`CodeAt code pc seg` says that the list `code` contains `seg` from position `pc` on, whatever stands
around it. -/

variable {α : Type}

/-- `seg` stands in `code` at `pc`. -/
def CodeAt (code : List α) (pc : ℕ) (seg : List α) : Prop :=
  ∀ k a, seg[k]? = some a → code[pc + k]? = some a

namespace CodeAt

variable {code seg seg' : List α} {pc : ℕ} {a : α}

theorem self (code : List α) : CodeAt code 0 code := by
  intro k a h
  rwa [Nat.zero_add]

theorem left (h : CodeAt code pc (seg ++ seg')) : CodeAt code pc seg := by
  intro k a hk
  refine h k a ?_
  rw [List.getElem?_append_left (List.getElem?_eq_some_iff.mp hk).1, hk]

theorem right (h : CodeAt code pc (seg ++ seg')) : CodeAt code (pc + seg.length) seg' := by
  intro k a hk
  rw [Nat.add_assoc]
  refine h _ a ?_
  rw [List.getElem?_append_right (Nat.le_add_right _ _), Nat.add_sub_cancel_left, hk]

theorem head (h : CodeAt code pc (a :: seg)) : code[pc]? = some a := h 0 a rfl

theorem tail (h : CodeAt code pc (a :: seg)) : CodeAt code (pc + 1) seg := by
  intro k b hk
  rw [Nat.add_assoc, Nat.add_comm 1]
  exact h (k + 1) b hk

theorem le_length (h : CodeAt code pc seg) (hseg : seg ≠ []) :
    pc + seg.length ≤ code.length := by
  have hpos := List.length_pos_iff.mpr hseg
  have hlast : seg.length - 1 < seg.length := Nat.sub_lt hpos Nat.one_pos
  have hget := h _ _ (List.getElem?_eq_getElem hlast)
  have := (List.getElem?_eq_some_iff.mp hget).1
  omega

end CodeAt
