import B0rk.Core.Proofs.Run
import B0rk.Executor.Proofs.Unwind
import Mathlib.Data.Int.Notation

set_option autoImplicit false

/-! # Comparing integers

`CMP_INTEGER` sets the flags from the wrapped difference of its operands, and `overflow` says no more
than that they differ. What the instructions behind it make of the flags is the order of the
integers as long as the difference does not leave the 64 bits. -/

namespace B0rk

/-! ## Relations -/

/-- The relations of two integers. -/
inductive Comparison
  | equal | notEqual | less | lessEqual | greater | greaterEqual

namespace Comparison

def holds : Comparison → ℤ → ℤ → Bool
  | equal, l, r => l = r
  | notEqual, l, r => l ≠ r
  | less, l, r => l < r
  | lessEqual, l, r => l ≤ r
  | greater, l, r => l > r
  | greaterEqual, l, r => l ≥ r

/-- The instruction that pushes whether the relation holds. -/
def pushOp : Comparison → OpCode
  | equal => .pushCE
  | notEqual => .pushCNE
  | less => .pushCL
  | lessEqual => .pushCLE
  | greater => .pushCG
  | greaterEqual => .pushCGE

/-- The instruction that jumps if the relation holds. -/
def branchOp : Comparison → OpCode
  | equal => .bEq
  | notEqual => .bNE
  | less => .bL
  | lessEqual => .bLE
  | greater => .bG
  | greaterEqual => .bGE

/-- How `pushOp` reads the flags. -/
def pushed : Comparison → Flags → Bool
  | equal, f => f.zero
  | notEqual, f => !f.zero
  | less, f => f.sign != f.overflow
  | lessEqual, f => f.zero || f.sign != f.overflow
  | greater, f => !f.zero && f.sign == f.overflow
  | greaterEqual, f => f.sign == f.overflow

/-- How `branchOp` reads them: as `pushOp` does, but for `BLE`. -/
def taken : Comparison → Flags → Bool
  | lessEqual, f => !f.zero || f.sign == f.overflow
  | c, f => c.pushed f

/-- The difference of two words, `right - left`, is a 64-bit integer. -/
def Fits (left right : Word) : Prop :=
  -2 ^ 63 ≤ right.toInt - left.toInt ∧ right.toInt - left.toInt < 2 ^ 63

/-- When `pushOp` gives the order of two integers. -/
def PushExact : Comparison → Word → Word → Prop
  | equal, _, _ | notEqual, _, _ => True
  | _, left, right => Fits left right

/-- When `branchOp` does. -/
def BranchExact : Comparison → Word → Word → Prop
  | lessEqual, left, right => left.toInt ≤ right.toInt
  | c, left, right => c.PushExact left right

end Comparison

/-! ## The flags -/

theorem word_toInt_bounds (w : Word) : -2 ^ 63 ≤ w.toInt ∧ w.toInt < 2 ^ 63 :=
  ⟨BitVec.le_toInt w, BitVec.toInt_lt⟩

/-- The sign of a wrapped difference, and whether it is zero. -/
theorem toInt_sub_cases (left right : Word) :
    (Comparison.Fits left right ∧ (right - left).toInt = right.toInt - left.toInt) ∨
      (¬Comparison.Fits left right ∧ left.toInt < right.toInt ∧ (right - left).toInt < 0) ∨
      (¬Comparison.Fits left right ∧ right.toInt < left.toInt ∧ 0 < (right - left).toInt) := by
  have hleft := word_toInt_bounds left
  have hright := word_toInt_bounds right
  have hsub : (right - left).toInt = (right.toInt - left.toInt).bmod (2 ^ 64) :=
    BitVec.toInt_sub
  unfold Comparison.Fits
  rw [hsub, Int.bmod_def]
  norm_cast at hleft hright ⊢
  omega

/-- The flags of a comparison, by the integer that the wrapped difference is. -/
theorem cmpInteger_toInt (left right : Word) :
    (cmpInteger left right).zero = decide (left.toInt = right.toInt) ∧
      ((cmpInteger left right).sign != (cmpInteger left right).overflow) =
        decide (0 < (right - left).toInt) ∧
      ((cmpInteger left right).sign == (cmpInteger left right).overflow) =
        decide ((right - left).toInt ≤ 0) := by
  obtain ⟨hzero, hless, hgreater⟩ := cmpInteger_flags left right
  refine ⟨?_, hless, hgreater⟩
  have heq : right - left = 0 ↔ left.toInt = right.toInt := by
    have hcases := toInt_sub_cases left right
    rw [word_eq_zero]
    omega
  simp only [hzero, heq]

namespace Comparison

/-- The order is pushed exactly where the difference fits. -/
theorem pushed_iff (c : Comparison) (left right : Word) :
    c.pushed (cmpInteger left right) = c.holds left.toInt right.toInt ↔
      c.PushExact left right := by
  obtain ⟨hzero, hless, hgreater⟩ := cmpInteger_toInt left right
  have hcases := toInt_sub_cases left right
  unfold Fits at hcases
  cases c with
  | equal => simp [pushed, holds, PushExact, hzero]
  | notEqual => simp [pushed, holds, PushExact, hzero]
  | less =>
    simp only [pushed, holds, PushExact, Fits, hless, decide_eq_decide]
    omega
  | lessEqual =>
    simp only [pushed, holds, PushExact, Fits, hzero, hless, ← Bool.decide_or, decide_eq_decide]
    omega
  | greater =>
    simp only [pushed, holds, PushExact, Fits, hzero, hgreater, ← decide_not,
      ← Bool.decide_and, decide_eq_decide]
    omega
  | greaterEqual =>
    simp only [pushed, holds, PushExact, Fits, hgreater, decide_eq_decide]
    omega

/-- `BLE` jumps whatever has been compared. -/
theorem taken_lessEqual (left right : Word) : lessEqual.taken (cmpInteger left right) = true := by
  unfold taken cmpInteger Flags.ofResult
  dsimp only
  cases hzero : decide (right - left = 0) with
  | false => rfl
  | true =>
    have hsub : right - left = 0 := of_decide_eq_true hzero
    rw [hsub]
    rfl

theorem taken_iff (c : Comparison) (left right : Word) :
    c.taken (cmpInteger left right) = c.holds left.toInt right.toInt ↔
      c.BranchExact left right := by
  cases c with
  | lessEqual =>
    rw [taken_lessEqual]
    simp [holds, BranchExact]
  | equal => exact pushed_iff equal left right
  | notEqual => exact pushed_iff notEqual left right
  | less => exact pushed_iff less left right
  | greater => exact pushed_iff greater left right
  | greaterEqual => exact pushed_iff greaterEqual left right

end Comparison

/-! ## The instructions -/

section

variable {W : Type} (E : Env W) (exec : Execute W)

/-- `CMPI`, or `CMP` of two integers. -/
def ComparesIntegers (test : OpCode) (left right : Value) : Prop :=
  test = .cmpI ∨ test = .cmp ∧ left.type = .integer ∧ right.type = .integer

theorem opcode_compare {test : OpCode} {left right : Value}
    (hcmp : ComparesIntegers test left right) (ctx : Context W) (frame : Frame) :
    opcodeTable E exec test [] ((ctx.push right).push left) frame =
      some (true, ctx, { frame with flags := cmpInteger left.bits right.bits }) := by
  rcases hcmp with rfl | ⟨rfl, hleft, hright⟩
  · rfl
  · show opcodeCmp E exec [] ((ctx.push right).push left) frame = _
    have hflags : cmpNumbers E.double left right = cmpInteger left.bits right.bits := by
      rw [cmpNumbers, if_pos ⟨hleft, hright⟩]
    simp only [opcodeCmp, Context.pop, Context.push, Option.bind_eq_bind, Option.bind_some]
    rw [if_pos (Or.inl hleft), hflags]

theorem opcode_pushOp (c : Comparison) (ctx : Context W) (frame : Frame) :
    opcodeTable E exec c.pushOp [] ctx frame =
      some (true, ctx.push (Value.ofBool (c.pushed frame.flags)), frame) := by
  cases c <;> rfl

theorem opcode_branchOp (c : Comparison) (dest : Word) (ctx : Context W) (frame : Frame) :
    opcodeTable E exec c.branchOp [dest] ctx frame =
      some (true, ctx,
        if c.taken frame.flags then { frame with pc := dest.toNat } else frame) := by
  cases c <;> rfl

/-- The instruction behind a comparison pushes `1` if the left value relates to the right one, and
    `0` otherwise. -/
def PushesOrder (test : OpCode) (c : Comparison) (left right : Value) (ctx : Context W)
    (frame : Frame) : Prop :=
  runInstructions E exec [⟨test, []⟩, ⟨c.pushOp, []⟩] ((ctx.push right).push left) frame =
    some (true,
      ctx.push (Value.ofBool (c.holds left.bits.toInt right.bits.toInt)),
      { frame with flags := cmpInteger left.bits right.bits })

/-- The branch behind a comparison jumps if the left value relates to the right one, and goes on
    behind itself otherwise. -/
def JumpsOnOrder (test : OpCode) (c : Comparison) (left right : Value) (ctx : Context W)
    (frame : Frame) : Prop :=
  ∀ dest : Word,
    runInstructions E exec [⟨test, []⟩, ⟨c.branchOp, [dest]⟩] ((ctx.push right).push left) frame =
      some (true, ctx,
        { frame with
          flags := cmpInteger left.bits right.bits
          pc := if c.holds left.bits.toInt right.bits.toInt then dest.toNat else frame.pc })

theorem ofBool_inj {a b : Bool} : Value.ofBool a = Value.ofBool b ↔ a = b := by
  cases a <;> cases b <;> decide

theorem pushesOrder_iff {test : OpCode} {left right : Value}
    (hcmp : ComparesIntegers test left right) (c : Comparison) (ctx : Context W) (frame : Frame) :
    PushesOrder E exec test c left right ctx frame ↔ c.PushExact left.bits right.bits := by
  have hrun : runInstructions E exec [⟨test, []⟩, ⟨c.pushOp, []⟩] ((ctx.push right).push left)
      frame = some (true, ctx.push (Value.ofBool (c.pushed (cmpInteger left.bits right.bits))),
        { frame with flags := cmpInteger left.bits right.bits }) := by
    simp only [runInstructions, opcode_compare E exec hcmp, opcode_pushOp, Option.bind_eq_bind,
      Option.bind_some, if_true]
  rw [PushesOrder, hrun, ← c.pushed_iff]
  constructor
  · intro h
    have hctx := congrArg (fun r => r.2.1.stack) (Option.some.inj h)
    exact ofBool_inj.mp (List.cons.inj hctx).1
  · intro h
    rw [h]

theorem jumpsOnOrder_iff {test : OpCode} {left right : Value}
    (hcmp : ComparesIntegers test left right) (c : Comparison) (ctx : Context W) (frame : Frame) :
    JumpsOnOrder E exec test c left right ctx frame ↔ c.BranchExact left.bits right.bits := by
  have hrun (dest : Word) :
      runInstructions E exec [⟨test, []⟩, ⟨c.branchOp, [dest]⟩] ((ctx.push right).push left) frame =
        some (true, ctx, { frame with
          flags := cmpInteger left.bits right.bits
          pc := if c.taken (cmpInteger left.bits right.bits) then dest.toNat else frame.pc }) := by
    simp only [runInstructions, opcode_compare E exec hcmp, opcode_branchOp, Option.bind_eq_bind,
      Option.bind_some, if_true]
    split <;> rfl
  rw [← c.taken_iff]
  constructor
  · intro h
    -- a destination that is not the next instruction tells the two apart
    have hpc (dest : Word) := congrArg (fun r => r.2.2.pc)
      (Option.some.inj ((hrun dest).symm.trans (h dest)))
    have h0 := hpc 0
    have h1 := hpc 1
    dsimp only at h0 h1
    have hne : (0 : Word).toNat ≠ (1 : Word).toNat := by decide
    cases htaken : c.taken (cmpInteger left.bits right.bits) with
    | true =>
      cases hholds : c.holds left.bits.toInt right.bits.toInt with
      | true => rfl
      | false =>
        simp only [htaken, hholds, if_true, Bool.false_eq_true, if_false] at h0 h1
        exact absurd (h0.trans h1.symm) hne
    | false =>
      cases hholds : c.holds left.bits.toInt right.bits.toInt with
      | true =>
        simp only [htaken, hholds, if_true, Bool.false_eq_true, if_false] at h0 h1
        exact absurd (h0.symm.trans h1) hne
      | false => rfl
  · intro h dest
    rw [hrun dest, h]

/-- The six relations of two integers, pushed and as branches. -/
theorem comparison_iff {test : OpCode} {left right : Value}
    (hcmp : ComparesIntegers test left right) (c : Comparison) (ctx : Context W) (frame : Frame) :
    (PushesOrder E exec test c left right ctx frame ↔ c.PushExact left.bits right.bits) ∧
      (JumpsOnOrder E exec test c left right ctx frame ↔ c.BranchExact left.bits right.bits) :=
  ⟨pushesOrder_iff E exec hcmp c ctx frame, jumpsOnOrder_iff E exec hcmp c ctx frame⟩

end

/-- The integers 1 and 2 are far enough from the ends of the range. -/
theorem comparison_small :
    PushesOrder exceptionEnv (execute exceptionEnv 0) .cmp .less (Value.integer 1) (Value.integer 2)
        ⟨[], false, Value.zero, ()⟩ throwingFrame ∧
      JumpsOnOrder exceptionEnv (execute exceptionEnv 0) .cmp .less (Value.integer 1)
        (Value.integer 2) ⟨[], false, Value.zero, ()⟩ throwingFrame := by
  have hexact : Comparison.less.PushExact (Value.integer 1).bits (Value.integer 2).bits :=
    ⟨by decide, by decide⟩
  obtain ⟨hpush, hjump⟩ := comparison_iff exceptionEnv (execute exceptionEnv 0)
    (Or.inr ⟨rfl, rfl, rfl⟩ : ComparesIntegers .cmp (Value.integer 1) (Value.integer 2)) .less
    ⟨[], false, Value.zero, ()⟩ throwingFrame
  exact ⟨hpush.mpr hexact, hjump.mpr hexact⟩

/-- `BLE` jumps behind the comparison of 2 with 1, and 1 is less than the least integer for
    `PUSHCL`. -/
theorem comparison_fails :
    ¬JumpsOnOrder exceptionEnv (execute exceptionEnv 0) .cmpI .lessEqual (Value.integer 2)
        (Value.integer 1) ⟨[], false, Value.zero, ()⟩ throwingFrame ∧
      ¬PushesOrder exceptionEnv (execute exceptionEnv 0) .cmpI .less (Value.integer 1)
        (Value.integer (BitVec.intMin 64)) ⟨[], false, Value.zero, ()⟩ throwingFrame := by
  constructor
  · rw [jumpsOnOrder_iff _ _ (Or.inl rfl)]
    show ¬(2 : Word).toInt ≤ (1 : Word).toInt
    decide
  · rw [pushesOrder_iff _ _ (Or.inl rfl)]
    intro hfits
    exact absurd hfits.1 (by decide)

end B0rk
