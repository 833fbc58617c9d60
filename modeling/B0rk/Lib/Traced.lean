import Mathlib.Tactic.Common

set_option autoImplicit false

/-! # Computations that leave a trace

A computation that may have no result, with the events that it goes through. The events before the
point at which there is no result any more are in the trace too. -/

structure Traced (ε α : Type) where
  events : List ε
  value : Option α

namespace Traced

variable {ε α β : Type}

/-- Go through an event. -/
def emit (e : ε) : Traced ε Unit := ⟨[e], some ()⟩

/-- An event under a condition. -/
def emitIf (cond : Bool) (e : ε) : Traced ε Unit := ⟨if cond then [e] else [], some ()⟩

/-- A computation without events. -/
def lift (x : Option α) : Traced ε α := ⟨[], x⟩

instance : Monad (Traced ε) where
  pure a := ⟨[], some a⟩
  bind x f :=
    match x.value with
    | none => ⟨x.events, none⟩
    | some a => ⟨x.events ++ (f a).events, (f a).value⟩

@[simp] theorem value_pure (a : α) : (pure a : Traced ε α).value = some a := rfl

@[simp] theorem events_pure (a : α) : (pure a : Traced ε α).events = [] := rfl

@[simp] theorem value_emit (e : ε) : (emit e).value = some () := rfl

@[simp] theorem events_emit (e : ε) : (emit e).events = [e] := rfl

@[simp] theorem value_emitIf (cond : Bool) (e : ε) : (emitIf cond e).value = some () := rfl

@[simp] theorem events_emitIf (cond : Bool) (e : ε) :
    (emitIf cond e).events = if cond then [e] else [] := rfl

@[simp] theorem value_lift (x : Option α) : (lift x : Traced ε α).value = x := rfl

@[simp] theorem events_lift (x : Option α) : (lift x : Traced ε α).events = [] := rfl

@[simp] theorem value_bind (x : Traced ε α) (f : α → Traced ε β) :
    (x >>= f).value = x.value.bind fun a => (f a).value := by
  show (match x.value with
    | none => ⟨x.events, none⟩
    | some a => ⟨x.events ++ (f a).events, (f a).value⟩ : Traced ε β).value = _
  cases x.value <;> rfl

/-- All events of a computation have a property. -/
def All (P : ε → Prop) (x : Traced ε α) : Prop := ∀ e ∈ x.events, P e

section

variable {P : ε → Prop}

@[simp] theorem all_pure (a : α) : All P (pure a) := nofun

@[simp] theorem all_lift (x : Option α) : All P (lift x) := nofun

@[simp] theorem all_emit {e : ε} : All P (emit e) ↔ P e := List.forall_mem_singleton

@[simp] theorem all_emitIf {cond : Bool} {e : ε} : All P (emitIf cond e) ↔ (cond = true → P e) := by
  cases cond <;> simp [All, emitIf]

/-- The events of the second part are those behind the value of the first one. -/
@[simp] theorem all_bind {x : Traced ε α} {f : α → Traced ε β} :
    All P (x >>= f) ↔ All P x ∧ ∀ a, x.value = some a → All P (f a) := by
  show All P (match x.value with
    | none => ⟨x.events, none⟩
    | some a => ⟨x.events ++ (f a).events, (f a).value⟩ : Traced ε β) ↔ _
  unfold All
  cases x.value with
  | none => simp
  | some a =>
    rw [List.forall_mem_append]
    simp

theorem all_lift_none {f : α → Traced ε β} : All P (lift none >>= f) := nofun

theorem all_lift_some {a : α} {f : α → Traced ε β} : All P (lift (some a) >>= f) ↔ All P (f a) := by
  simp

@[simp] theorem all_ite {c : Prop} [Decidable c] {x y : Traced ε α} :
    All P (if c then x else y) ↔ (c → All P x) ∧ (¬c → All P y) := by
  split
  · next hc => simp [hc]
  · next hc => simp [hc]

end

end Traced
