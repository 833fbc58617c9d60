import B0rk.Executor.Run

set_option autoImplicit false

/-! # What one round of the executor does

Inversion lemmas for the stack operations, for `step` and for `enter`; later proofs take a round of
the loop apart with these and do not unfold it again. -/

namespace B0rk

variable {W : Type}

@[simp]
theorem Context.push_stack (ctx : Context W) (v : Value) : (ctx.push v).stack = v :: ctx.stack :=
  rfl

@[simp]
theorem Context.push_exception (ctx : Context W) (v : Value) :
    (ctx.push v).exception = ctx.exception := rfl

theorem Context.pop_some {ctx ctx' : Context W} {v : Value} (h : ctx.pop = some (v, ctx')) :
    ctx.stack = v :: ctx'.stack ∧ ctx' = { ctx with stack := ctx'.stack } := by
  unfold Context.pop at h
  split at h
  · cases h
  · next w stack hstack =>
      obtain ⟨rfl, rfl⟩ := Prod.mk.inj (Option.some.inj h)
      exact ⟨hstack, rfl⟩

theorem Context.pop_cons {ctx : Context W} {v : Value} {stack : List Value}
    (h : ctx.stack = v :: stack) : ctx.pop = some (v, { ctx with stack := stack }) := by
  simp [Context.pop, h]

theorem step_some {E : Env W} {exec : Execute W} {ctx : Context W} {frame : Frame}
    {r : Bool × Context W × Frame} (h : step E exec ctx frame = some r) :
    ∃ inst next success ctx₁ frame₁, frame.code.fetch frame.pc = some (inst, next) ∧
      opcodeTable E exec inst.op inst.args ctx { frame with pc := next } =
        some (success, ctx₁, frame₁) ∧
      afterOpcode success ctx₁ frame₁ = some r := by
  simp only [step, Option.bind_eq_bind, Option.bind_eq_some_iff] at h
  obtain ⟨⟨inst, next⟩, hfetch, ⟨success, ctx₁, frame₁⟩, hop, h⟩ := h
  exact ⟨inst, next, success, ctx₁, frame₁, hfetch, hop, h⟩

/-- One round of the loop that is not the last one. -/
theorem runLoop_succ {E : Env W} {exec : Execute W} {fuel : ℕ} {success : Bool} {ctx : Context W}
    {frame : Frame} (hcont : frame.continues = true) (hstack : ctx.checkStack = true) :
    runLoop E exec (fuel + 1) success ctx frame =
      (step E exec ctx frame).bind (fun r => runLoop E exec fuel r.1 r.2.1 r.2.2) := by
  conv_lhs => unfold runLoop
  simp only [hcont, hstack, Bool.not_true, Bool.false_eq_true, if_false]
  cases step E exec ctx frame <;> rfl

/-- The loop is left when the activation has ended, or the stack is too high. -/
theorem runLoop_end {E : Env W} {exec : Execute W} {fuel : ℕ} {success : Bool} {ctx : Context W}
    {frame : Frame} (hend : frame.continues = false) :
    runLoop E exec fuel success ctx frame = some (success, ctx) := by
  unfold runLoop
  simp [hend]

theorem runLoop_overflow {E : Env W} {exec : Execute W} {fuel : ℕ} {success : Bool}
    {ctx : Context W} {frame : Frame} (hcont : frame.continues = true)
    (hstack : ctx.checkStack = false) :
    runLoop E exec fuel success ctx frame = some (false, ctx) := by
  unfold runLoop
  simp [hcont, hstack]

theorem runLoop_zero {E : Env W} {exec : Execute W} {success : Bool} {ctx : Context W}
    {frame : Frame} (hcont : frame.continues = true) (hstack : ctx.checkStack = true) :
    runLoop E exec 0 success ctx frame = none := by
  unfold runLoop
  simp [hcont, hstack]

/-! ## Executing instructions one after the other -/

/-- The instructions of a list, as long as their functions succeed. -/
def runInstructions (E : Env W) (exec : Execute W) : List Instruction → Context W → Frame →
    Option (Bool × Context W × Frame)
  | [], ctx, frame => some (true, ctx, frame)
  | inst :: rest, ctx, frame => do
      let (success, ctx, frame) ← opcodeTable E exec inst.op inst.args ctx frame
      if success then runInstructions E exec rest ctx frame else some (false, ctx, frame)

theorem runInstructions_append {E : Env W} {exec : Execute W} {insts insts' : List Instruction}
    {ctx ctx' : Context W} {frame frame' : Frame}
    (h : runInstructions E exec insts ctx frame = some (true, ctx', frame')) :
    runInstructions E exec (insts ++ insts') ctx frame =
      runInstructions E exec insts' ctx' frame' := by
  induction insts generalizing ctx frame with
  | nil =>
    obtain ⟨-, rfl, rfl⟩ := h
    rfl
  | cons inst rest ih =>
    obtain ⟨⟨success, ctx₁, frame₁⟩, hop, h⟩ := Option.bind_eq_some_iff.mp h
    rw [List.cons_append, runInstructions, hop]
    cases success with
    | true => exact ih h
    | false => cases h

/-! ## Entering an activation -/

theorem bindArgs_some {n : ℕ} {localVars localVars' : List Value} {ctx ctx' : Context W}
    (h : bindArgs n localVars ctx = some (localVars', ctx')) :
    n ≤ ctx.stack.length ∧ ctx' = { ctx with stack := ctx.stack.drop n } ∧
      localVars'.length = localVars.length := by
  induction n generalizing localVars ctx with
  | zero =>
      obtain ⟨rfl, rfl⟩ := Prod.mk.inj (Option.some.inj h)
      exact ⟨Nat.zero_le _, rfl, rfl⟩
  | succ n ih =>
      simp only [bindArgs, Option.bind_eq_bind, Option.bind_eq_some_iff] at h
      obtain ⟨⟨v, ctx₁⟩, hpop, h⟩ := h
      obtain ⟨hstack, hctx₁⟩ := Context.pop_some hpop
      split at h
      · obtain ⟨hle, hctx', hlen⟩ := ih h
        rw [hctx', hstack, hctx₁]
        exact ⟨Nat.succ_le_succ hle, rfl, hlen.trans (List.length_set ..)⟩
      · cases h

/-- Entering an activation takes its arguments off the stack and puts its frame marker there. -/
theorem enter_some {E : Env W} {obj : Word} {code : Code} {n : ℕ} {ctx ctx' : Context W}
    {frame : Frame} (h : enter E obj code n ctx = some (ctx', frame)) :
    n ≤ ctx.stack.length ∧ ctx' = { ctx with stack := frame.marker :: ctx.stack.drop n } ∧
      frame.running = true ∧ frame.pc = 0 ∧ frame.code = code ∧ frame.handlerStack = [] ∧
      frame.localVars.length = code.localVars := by
  unfold enter at h
  dsimp only at h
  split at h
  · cases h
  · simp only [Option.bind_eq_bind, Option.bind_eq_some_iff] at h
    obtain ⟨⟨localVars, ctx₁⟩, hbind, h⟩ := h
    obtain ⟨rfl, rfl⟩ := Prod.mk.inj (Option.some.inj h)
    obtain ⟨hle, rfl, hlen⟩ := bindArgs_some hbind
    exact ⟨hle, rfl, rfl, rfl, rfl, rfl, by simpa using hlen⟩

end B0rk
