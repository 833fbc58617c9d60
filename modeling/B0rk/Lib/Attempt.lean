import Mathlib.Tactic.Common

set_option autoImplicit false

/-! # Computations that may fail

A function that works on a state, reports failure by its result and keeps what it has done to the
state when it fails. `none` is for a function that does not come to a result at all: one whose
behaviour is undefined, or one that runs out of fuel. -/

/-- The result `none` inside the pair is a reported failure. -/
def Attempt (σ α : Type) := σ → Option (Option α × σ)

namespace Attempt

variable {σ α β : Type}

/-- Report failure. -/
def fail : Attempt σ α := fun s => some (none, s)

/-- No result at all. -/
def undefined : Attempt σ α := fun _ => none

/-- Read something off the state. -/
def read (f : σ → α) : Attempt σ α := fun s => some (some (f s), s)

def modify (f : σ → σ) : Attempt σ Unit := fun s => some (some (), f s)

/-- Fail where there is nothing. -/
def ofOption : Option α → Attempt σ α
  | some a => fun s => some (some a, s)
  | none => fail

/-- Go on after a failure, with `none` for the result. -/
def orNull (x : Attempt σ α) : Attempt σ (Option α) := fun s =>
  match x s with
  | none => none
  | some (a, s) => some (some a, s)

/-- Something to be done when the computation fails. -/
def onFailure (x : Attempt σ α) (cleanup : σ → σ) : Attempt σ α := fun s =>
  match x s with
  | some (none, t) => some (none, cleanup t)
  | outcome => outcome

instance : Monad (Attempt σ) where
  pure a := fun s => some (some a, s)
  bind x f := fun s =>
    match x s with
    | none => none
    | some (none, s) => some (none, s)
    | some (some a, s) => f a s

/-- How a sequence goes on behind its first part. -/
theorem bind_run (x : Attempt σ α) (f : α → Attempt σ β) (s : σ) :
    (x >>= f) s = (x s).bind fun (a, t) => a.elim (some (none, t)) fun a => f a t := by
  show (match x s with
    | none => none
    | some (none, s) => some (none, s)
    | some (some a, s) => f a s) = _
  rcases x s with _ | ⟨_ | a, t⟩ <;> rfl

instance : LawfulMonad (Attempt σ) :=
  LawfulMonad.mk' (Attempt σ)
    (fun x => by
      funext s
      show (x >>= fun a => pure a) s = x s
      rw [bind_run]
      rcases x s with _ | ⟨_ | a, t⟩ <;> rfl)
    (fun _ _ => rfl)
    (fun x f g => by
      funext s
      simp only [bind_run]
      rcases x s with _ | ⟨_ | a, t⟩ <;> rfl)

/-- Run from `s`, the computation succeeds with `a` and leaves `t`. -/
def Ok (x : Attempt σ α) (s : σ) (a : α) (t : σ) : Prop := x s = some (some a, t)

/-- A computation comes to one result. -/
theorem Ok.unique {x : Attempt σ α} {s t t' : σ} {a a' : α} (h : Ok x s a t) (h' : Ok x s a' t') :
    a = a' ∧ t = t' := by
  have heq : some (some a, t) = some (some a', t') := h.symm.trans h'
  simpa using heq

@[simp] theorem pure_ok {a b : α} {s t : σ} : Ok (pure a) s b t ↔ a = b ∧ s = t := by
  show some (some a, s) = some (some b, t) ↔ _
  simp

@[simp] theorem fail_ok {b : α} {s t : σ} : Ok fail s b t ↔ False := by
  simp [Ok, fail]

@[simp] theorem ofOption_ok {a : Option α} {b : α} {s t : σ} :
    Ok (ofOption a) s b t ↔ a = some b ∧ s = t := by
  cases a <;> simp [Ok, ofOption, fail]

@[simp] theorem undefined_ok {b : α} {s t : σ} : Ok undefined s b t ↔ False := by
  simp [Ok, undefined]

@[simp] theorem read_ok {f : σ → α} {b : α} {s t : σ} : Ok (read f) s b t ↔ f s = b ∧ s = t := by
  simp [Ok, read]

@[simp] theorem modify_ok {f : σ → σ} {s t : σ} {u : Unit} : Ok (modify f) s u t ↔ f s = t := by
  simp [Ok, modify]

/-- A sequence succeeds if both parts do. -/
@[simp] theorem bind_ok {x : Attempt σ α} {f : α → Attempt σ β} {s t : σ} {b : β} :
    Ok (x >>= f) s b t ↔ ∃ a u, Ok x s a u ∧ Ok (f a) u b t := by
  unfold Ok
  rw [bind_run]
  rcases x s with _ | ⟨_ | a, u⟩
  · simp
  · simp
  · simp

theorem Ok.bind {x : Attempt σ α} {f : α → Attempt σ β} {s t u : σ} {a : α} {b : β}
    (hx : Ok x s a u) (hf : Ok (f a) u b t) : Ok (x >>= f) s b t :=
  bind_ok.mpr ⟨a, u, hx, hf⟩

/-- Behind a part that comes to no result. -/
theorem bind_none {x : Attempt σ α} {f : α → Attempt σ β} {s : σ} (hx : x s = none) :
    (x >>= f) s = none := by
  rw [bind_run, hx]
  rfl

/-- Behind a part that succeeds. -/
theorem Ok.run {x : Attempt σ α} {f : α → Attempt σ β} {s u : σ} {a : α} (hx : Ok x s a u) :
    (x >>= f) s = f a u := by
  rw [bind_run, show x s = some (some a, u) from hx]
  rfl

/-- Two sequences come to the same where their parts do. -/
theorem run_congr {x x' : Attempt σ α} {f f' : α → Attempt σ β} {s : σ} (hx : x s = x' s)
    (hf : ∀ {a t}, Ok x s a t → f a t = f' a t) : (x >>= f) s = (x' >>= f') s := by
  rw [bind_run, bind_run, ← hx]
  rcases hrun : x s with _ | ⟨_ | a, t⟩
  · rfl
  · rfl
  · exact hf hrun

theorem Ok.seq {x : Attempt σ α} {y : Attempt σ β} {s t u : σ} {a : α} {b : β} (hx : Ok x s a u)
    (hy : Ok y u b t) : Ok (x >>= fun _ => y) s b t := hx.bind hy

/-- `orNull` reports the outcome of a computation that comes to one. -/
theorem orNull_ok {x : Attempt σ α} {s t : σ} {a : Option α} :
    Ok (orNull x) s a t ↔ x s = some (a, t) := by
  unfold Ok orNull
  rcases x s with _ | ⟨b, u⟩ <;> simp

theorem Ok.orNull {x : Attempt σ α} {s t : σ} {a : α} (h : Ok x s a t) :
    Ok (orNull x) s (some a) t := orNull_ok.mpr h

/-- The result of a computation that succeeds. -/
def result (x : Attempt σ α) (s : σ) : Option α := (x s).bind (·.1)

theorem result_eq_some {x : Attempt σ α} {s : σ} {a : α} : x.result s = some a ↔ ∃ t, Ok x s a t := by
  unfold result Ok
  rcases x s with _ | ⟨_ | b, t⟩ <;> simp

/-! ## Reported failures -/

/-- Run from `s`, the computation reports failure. -/
def Fails (x : Attempt σ α) (s : σ) : Prop := ∃ t, x s = some (none, t)

/-- The same, computed. -/
def failsFrom (x : Attempt σ α) (s : σ) : Bool :=
  match x s with
  | some (none, _) => true
  | _ => false

theorem failsFrom_iff {x : Attempt σ α} {s : σ} : x.failsFrom s = true ↔ x.Fails s := by
  unfold failsFrom Fails
  rcases x s with _ | ⟨_ | a, t⟩ <;> simp

/-- A sequence fails if one of its parts does. -/
theorem bind_fails {x : Attempt σ α} {f : α → Attempt σ β} {s : σ} :
    (x >>= f).Fails s ↔ x.Fails s ∨ ∃ a t, x.Ok s a t ∧ (f a).Fails t := by
  unfold Fails Ok
  rw [bind_run]
  rcases x s with _ | ⟨_ | a, t⟩
  · simp
  · simp
  · simp

/-- A sequence fails with its first part. -/
theorem Fails.bind {x : Attempt σ α} {f : α → Attempt σ β} {s : σ} (hx : x.Fails s) :
    (x >>= f).Fails s := by
  obtain ⟨t, ht⟩ := hx
  exact ⟨t, by rw [bind_run, ht]; rfl⟩

/-- A sequence fails with what is behind a part that succeeds. -/
theorem Ok.fails {x : Attempt σ α} {f : α → Attempt σ β} {s t : σ} {a : α} (hx : Ok x s a t)
    (hf : (f a).Fails t) : (x >>= f).Fails s := by
  obtain ⟨u, hu⟩ := hf
  exact ⟨u, hx.run.trans hu⟩

theorem orNull_fails {x : Attempt σ α} {s : σ} : ¬(orNull x).Fails s := by
  rintro ⟨t, ht⟩
  unfold orNull at ht
  split at ht
  · cases ht
  · cases ht

theorem onFailure_id (x : Attempt σ α) : x.onFailure id = x := by
  funext s
  unfold onFailure
  rcases x s with _ | ⟨_ | a, t⟩ <;> rfl

@[simp] theorem onFailure_ok {x : Attempt σ α} {cleanup : σ → σ} {s t : σ} {a : α} :
    (x.onFailure cleanup).Ok s a t ↔ x.Ok s a t := by
  unfold Ok onFailure
  rcases x s with _ | ⟨_ | b, u⟩ <;> simp

@[simp] theorem onFailure_fails {x : Attempt σ α} {cleanup : σ → σ} {s : σ} :
    (x.onFailure cleanup).Fails s ↔ x.Fails s := by
  unfold Fails onFailure
  rcases x s with _ | ⟨_ | b, u⟩ <;> simp

theorem fail_fails (s : σ) : (fail : Attempt σ α).Fails s := ⟨s, rfl⟩

end Attempt
