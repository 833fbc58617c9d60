import Mathlib.Tactic.Common

set_option autoImplicit false

/-! # Partial correctness in `Option`

`Ensures x Q` says of a computation that its result satisfies `Q`, if it has one. -/

variable {α β : Type}

/-- The result of `x`, if there is one, satisfies `Q`. -/
def Ensures (x : Option α) (Q : α → Prop) : Prop := ∀ a, x = some a → Q a

namespace Ensures

variable {x : Option α} {P Q : α → Prop} {R : β → Prop}

theorem none : Ensures Option.none Q := nofun

theorem some {a : α} (h : Q a) : Ensures (Option.some a) Q := by
  intro b hb
  obtain rfl := Option.some.inj hb
  exact h

theorem mono (h : Ensures x P) (hPQ : ∀ a, P a → Q a) : Ensures x Q :=
  fun a ha => hPQ a (h a ha)

theorem bind {f : α → Option β} (hx : Ensures x P) (hf : ∀ a, P a → Ensures (f a) R) :
    Ensures (x >>= f) R := by
  intro b hb
  obtain ⟨a, ha, hb⟩ := Option.bind_eq_some_iff.mp hb
  exact hf a (hx a ha) b hb

/-- A step about whose result nothing has to be known. -/
theorem bind_any {f : α → Option β} (hf : ∀ a, Ensures (f a) R) : Ensures (x >>= f) R :=
  bind (P := fun _ => True) (fun _ _ => trivial) fun a _ => hf a

/-- A step of which it matters that it had this result. -/
theorem bind_eq {f : α → Option β} (hf : ∀ a, x = Option.some a → Ensures (f a) R) :
    Ensures (x >>= f) R :=
  bind (P := fun a => x = Option.some a) (fun _ h => h) hf

theorem ite {p : Prop} {_ : Decidable p} {y : Option α} (hx : p → Ensures x Q) (hy : ¬p → Ensures y Q) :
    Ensures (if p then x else y) Q := by
  split
  · next h => exact hx h
  · next h => exact hy h

end Ensures
