import B0rk.Executor.Proofs.Basic
import Mathlib.Logic.Relation

set_option autoImplicit false

/-! # Runs of one activation

`Rounds` counts the rounds of the loop of `Executor::run`, so that it can tell a run that returns
within some fuel from one that goes on. -/

namespace B0rk

variable {W : Type}

/-- One round of the loop that is entered and that comes to an end, with the value of `success`. -/
def Round (E : Env W) (exec : Execute W) (s : Context W × Frame) (success : Bool)
    (t : Context W × Frame) : Prop :=
  s.2.continues = true ∧ s.1.checkStack = true ∧ step E exec s.1 s.2 = some (success, t)

/-- The states in which the loop arrives from a state. -/
def Arrives (E : Env W) (exec : Execute W) : Context W × Frame → Context W × Frame → Prop :=
  Relation.ReflTransGen (fun s t => ∃ success, Round E exec s success t)

/-- Some rounds of the loop, none of which leaves it with a failure. -/
inductive Rounds (E : Env W) (exec : Execute W) : ℕ → Context W × Frame → Context W × Frame → Prop
  | refl (s : Context W × Frame) : Rounds E exec 0 s s
  | round {n : ℕ} {s t u : Context W × Frame} (h : Round E exec s true t)
      (rest : Rounds E exec n t u) : Rounds E exec (n + 1) s u

variable {E : Env W} {exec : Execute W}

theorem Rounds.single {s t : Context W × Frame} (h : Round E exec s true t) :
    Rounds E exec 1 s t := .round h (.refl t)

theorem Rounds.trans {n m : ℕ} {s t u : Context W × Frame} (h : Rounds E exec n s t)
    (h' : Rounds E exec m t u) : Rounds E exec (n + m) s u := by
  induction h with
  | refl s => rwa [Nat.zero_add]
  | @round n s t _ hround _ ih =>
    rw [Nat.add_right_comm]
    exact .round hround (ih h')

/-- The loop goes on behind the rounds. -/
theorem runLoop_rounds {n : ℕ} {s t : Context W × Frame} (h : Rounds E exec n s t) (fuel : ℕ) :
    runLoop E exec (fuel + n) true s.1 s.2 = runLoop E exec fuel true t.1 t.2 := by
  induction h with
  | refl s => rfl
  | round hround _ ih =>
    rw [← ih, ← Nat.add_assoc, runLoop_succ hround.1 hround.2.1, hround.2.2]
    rfl

/-- With less fuel than rounds there is no result. -/
theorem runLoop_short {n fuel : ℕ} {s t : Context W × Frame} (h : Rounds E exec n s t)
    (hlt : fuel < n) : runLoop E exec fuel true s.1 s.2 = none := by
  induction h generalizing fuel with
  | refl s => cases hlt
  | round hround _ ih =>
    cases fuel with
    | zero => exact runLoop_zero hround.1 hround.2.1
    | succ fuel =>
      rw [runLoop_succ hround.1 hround.2.1, hround.2.2]
      exact ih (Nat.lt_of_succ_lt_succ hlt)

end B0rk
