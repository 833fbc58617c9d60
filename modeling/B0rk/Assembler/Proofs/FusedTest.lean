import B0rk.Assembler.Proofs.Basic
import B0rk.Executor.Proofs.Compare
import B0rk.Executor.Proofs.Recode

set_option autoImplicit false

/-! # The collapsed test

`assembleTest` takes the instruction off the code that pushes the result of a comparison, and branches
on the flags. It looks at the last instruction only: whatever the flags are and wherever they come
from, the branch is taken where the value that would have been pushed is zero. -/

namespace B0rk

/-! ## The emitted code -/

/-- The end of `assembleTest` without the collapsing. -/
def finishTestPlain : Asm Unit := do
  pushInstruction .pushI [0]
  pushInstruction .cmpI []
  pushInstruction .bEq [0]

namespace Comparison

/-- The relation that holds where the other one does not. -/
def complement : Comparison → Comparison
  | equal => notEqual
  | notEqual => equal
  | less => greaterEqual
  | lessEqual => greater
  | greater => lessEqual
  | greaterEqual => less

/-- The comparisons that `assembleTest` collapses. -/
def Collapsed (c : Comparison) : Prop := c = equal ∨ c = less ∨ c = lessEqual

theorem pushed_complement (c : Comparison) (flags : Flags) :
    c.complement.pushed flags = !c.pushed flags := by
  obtain ⟨zero, sign, overflow⟩ := flags
  cases c <;> cases zero <;> cases sign <;> cases overflow <;> rfl

/-- The branch of a collapsed test reads the flags as the instruction that it replaces. -/
theorem Collapsed.taken {c : Comparison} (h : c.Collapsed) (flags : Flags) :
    c.complement.taken flags = !c.pushed flags := by
  rw [← pushed_complement]
  rcases h with rfl | rfl | rfl <;> rfl

end Comparison

/-- The instructions behind the comparison, where the result is pushed and tested. -/
def plainTest (c : Comparison) (args : List Word) (dest : Word) : List Instruction :=
  [⟨c.pushOp, args⟩, ⟨.pushI, [0]⟩, ⟨.cmpI, []⟩, ⟨.bEq, [dest]⟩]

/-- The instruction behind the comparison, where the test is collapsed. -/
def fusedTest (c : Comparison) (dest : Word) : List Instruction :=
  [⟨c.complement.branchOp, [dest]⟩]

theorem finishTestPlain_run (code : List Instruction) :
    finishTestPlain.Ok code () (code ++ [⟨.pushI, [0]⟩, ⟨.cmpI, []⟩, ⟨.bEq, [0]⟩]) := by
  simp [finishTestPlain, pushInstruction_ok]

/-- `assembleTest` does without the collapsing, or drops the instruction that pushes the result. -/
theorem finishTest_cases {code code' : List Instruction} (h : finishTest.Ok code () code') :
    finishTestPlain.Ok code () code' ∨
      ∃ init args, ∃ c : Comparison, c.Collapsed ∧ code = init ++ [⟨c.pushOp, args⟩] ∧
        code' = init ++ fusedTest c 0 := by
  have hdrop {c : Comparison} (hcollapsed : c.Collapsed)
      (hlast : (if code.length > 2 then code.getLast?.map Instruction.op else none) =
        some c.pushOp)
      (hpush : (pushInstruction c.complement.branchOp [0]).Ok code.dropLast () code') :
      ∃ init args, ∃ c : Comparison, c.Collapsed ∧ code = init ++ [⟨c.pushOp, args⟩] ∧
        code' = init ++ fusedTest c 0 := by
    split at hlast
    · obtain ⟨inst, hget, hop⟩ := Option.map_eq_some_iff.mp hlast
      obtain ⟨init, rfl⟩ := List.getLast?_eq_some_iff.mp hget
      rw [List.dropLast_concat] at hpush
      exact ⟨init, inst.args, c, hcollapsed, by rw [← hop], (pushInstruction_ok.mp hpush).symm⟩
    · cases hlast
  unfold Attempt.Ok finishTest at h
  dsimp only at h
  split at h
  · next hlast => exact .inr (hdrop (c := .equal) (.inl rfl) hlast h)
  · next hlast => exact .inr (hdrop (c := .less) (.inr (.inl rfl)) hlast h)
  · next hlast => exact .inr (hdrop (c := .lessEqual) (.inr (.inr rfl)) hlast h)
  · exact .inl h

/-! ## Executing it -/

variable {W : Type} {E : Env W} {exec : Execute W}

/-- An activation that goes on has no exception pending. -/
theorem afterOpcode_running {success b : Bool} {ctx : Context W} {frame : Frame}
    {t : Context W × Frame} (h : afterOpcode success ctx frame = some (b, t))
    (hrunning : t.2.running = true) : t.1.exception = false := by
  unfold afterOpcode at h
  dsimp only at h
  split at h
  · obtain ⟨⟨ctx₁, frame₁⟩, hhandle, h⟩ := Option.bind_eq_some_iff.mp h
    obtain ⟨-, rfl⟩ := Prod.mk.inj (Option.some.inj h)
    unfold handleException at hhandle
    split at hhandle
    · obtain ⟨stack, -, hhandle⟩ := Option.bind_eq_some_iff.mp hhandle
      obtain ⟨rfl, rfl⟩ := Prod.mk.inj (Option.some.inj hhandle)
      cases hrunning
    · obtain ⟨frame₂, -, hhandle⟩ := Option.bind_eq_some_iff.mp hhandle
      obtain ⟨rfl, rfl⟩ := Prod.mk.inj (Option.some.inj hhandle)
      rfl
  · next hexc =>
    obtain ⟨-, rfl⟩ := Prod.mk.inj (Option.some.inj h)
    simpa using hexc

/-- The rounds at the instructions in front of a position. -/
def RunsBefore (E : Env W) (exec : Execute W) (stop : ℕ) :
    Context W × Frame → Context W × Frame → Prop :=
  Relation.ReflTransGen (fun s t => s.2.pc < stop ∧ ∃ success, Round E exec s success t)

section

variable {localVars : ℕ} {insts insts' : List Instruction} {s t : Context W × Frame}

theorem RunsBefore.code {stop : ℕ} (h : RunsBefore E exec stop s t) : t.2.code = s.2.code := by
  induction h with
  | refl => rfl
  | tail _ hround ih =>
    obtain ⟨-, success, hround⟩ := hround
    exact hround.code.trans ih

theorem RunsBefore.exception {stop : ℕ} (h : RunsBefore E exec stop s t)
    (hexc : s.1.exception = false) (hrunning : t.2.running = true) : t.1.exception = false := by
  cases h with
  | refl => exact hexc
  | tail _ hround =>
    obtain ⟨-, success, -, -, hstep⟩ := hround
    obtain ⟨inst, next, success₁, ctx₁, frame₁, -, -, hafter⟩ := step_some hstep
    exact afterOpcode_running hafter hrunning

/-- Codes with the same instructions in front of a position have the same rounds there. -/
theorem RunsBefore.recode {pre post : List Instruction} (post' : List Instruction)
    (h : RunsBefore E exec pre.length s t)
    (hcode : s.2.code = .ofInstructions localVars (pre ++ post)) :
    RunsBefore E exec pre.length (recoded (.ofInstructions localVars (pre ++ post')) s)
      (recoded (.ofInstructions localVars (pre ++ post')) t) := by
  induction h with
  | refl => exact .refl
  | @tail u v hu hround ih =>
    obtain ⟨hpc, success, hround⟩ := hround
    have hcode' : u.2.code = .ofInstructions localVars (pre ++ post) :=
      (RunsBefore.code hu).trans hcode
    have hsame : SameRound E exec (pre ++ post') (pre ++ post) u := by
      intro inst inst' hinst hinst'
      rw [List.getElem?_append_left hpc] at hinst hinst'
      obtain rfl : inst = inst' := Option.some.inj (hinst.symm.trans hinst')
      exact rfl
    have hlt : u.2.pc < (pre ++ post').length := by
      rw [List.length_append]
      exact Nat.lt_add_right _ hpc
    exact ih.tail ⟨hpc, success, hround.recode_at hlt hcode' hsame⟩

/-- A round of an instruction that succeeds. -/
theorem Round.of_opcode {inst : Instruction} {ctx' : Context W} {frame' : Frame}
    (hcode : s.2.code = .ofInstructions localVars insts) (hrunning : s.2.running = true)
    (hstack : s.1.stack.length < Context.stackSize) (hget : insts[s.2.pc]? = some inst)
    (hop : opcodeTable E exec inst.op inst.args s.1 { s.2 with pc := s.2.pc + 1 } =
      some (true, ctx', frame')) (hexc : ctx'.exception = false) :
    Round E exec s true (ctx', frame') := by
  have hlt : s.2.pc < s.2.code.size := by
    rw [hcode]
    exact (List.getElem?_eq_some_iff.mp hget).1
  refine ⟨Bool.and_eq_true_iff.mpr ⟨hrunning, decide_eq_true hlt⟩, decide_eq_true hstack, ?_⟩
  have hfetch : s.2.code.fetch s.2.pc = some (inst, s.2.pc + 1) := by
    rw [hcode]
    exact ofInstructions_fetch_some hget
  refine step_intro hfetch hop ?_
  unfold afterOpcode
  rw [hexc]
  rfl

/-- The flags that the test of a pushed result leaves. -/
def testedFlags (b : Bool) : Flags := cmpInteger 0 (Value.ofBool b).bits

theorem testedFlags_zero (b : Bool) : (testedFlags b).zero = !b := by
  cases b <;> decide

variable {pre rest : List Instruction} {c : Comparison} {args : List Word} {dest : Word}

/-- The collapsed test goes on behind itself if the comparison holds. -/
theorem fusedTest_rounds (hc : c.Collapsed)
    (hcode : s.2.code = .ofInstructions localVars (pre ++ fusedTest c dest ++ rest))
    (hpc : s.2.pc = pre.length) (hrunning : s.2.running = true) (hexc : s.1.exception = false)
    (hstack : s.1.stack.length < Context.stackSize) :
    Rounds E exec 1 s (s.1, { s.2 with
      pc := if c.pushed s.2.flags then pre.length + 1 else dest.toNat }) := by
  have hget : (pre ++ fusedTest c dest ++ rest)[s.2.pc]? =
      some ⟨c.complement.branchOp, [dest]⟩ := by
    rw [hpc, List.append_assoc, List.getElem?_append_right (Nat.le_refl _), Nat.sub_self]
    rfl
  refine .single (Round.of_opcode hcode hrunning hstack hget ?_ hexc)
  rw [opcode_branchOp, hc.taken, hpc]
  cases c.pushed s.2.flags <;> rfl

theorem opcode_pushOp_args (c : Comparison) (args : List Word) (ctx : Context W) (frame : Frame) :
    opcodeTable E exec c.pushOp args ctx frame =
      some (true, ctx.push (Value.ofBool (c.pushed frame.flags)), frame) := by
  cases c <;> rfl

/-- So does the one that pushes the result and compares it with zero. -/
theorem plainTest_rounds
    (hcode : s.2.code = .ofInstructions localVars (pre ++ plainTest c args dest ++ rest))
    (hpc : s.2.pc = pre.length) (hrunning : s.2.running = true) (hexc : s.1.exception = false)
    (hstack : s.1.stack.length + 2 < Context.stackSize) :
    Rounds E exec 4 s (s.1, { s.2 with
      pc := if c.pushed s.2.flags then pre.length + 4 else dest.toNat
      flags := testedFlags (c.pushed s.2.flags) }) := by
  have hget (k : ℕ) (inst : Instruction) (hinst : (plainTest c args dest)[k]? = some inst) :
      (pre ++ plainTest c args dest ++ rest)[pre.length + k]? = some inst := by
    rw [List.append_assoc, List.getElem?_append_right (Nat.le_add_right _ _),
      Nat.add_sub_cancel_left, List.getElem?_append_left (List.getElem?_eq_some_iff.mp hinst).1,
      hinst]
  obtain ⟨b, hb⟩ : ∃ b, c.pushed s.2.flags = b := ⟨_, rfl⟩
  rw [hb]
  -- the states between the four instructions
  let s₁ : Context W × Frame := (s.1.push (Value.ofBool b), { s.2 with pc := pre.length + 1 })
  let s₂ : Context W × Frame :=
    ((s.1.push (Value.ofBool b)).push (Value.integer 0), { s.2 with pc := pre.length + 2 })
  let s₃ : Context W × Frame :=
    (s.1, { s.2 with pc := pre.length + 3, flags := testedFlags b })
  have h₁ : Round E exec s true s₁ := by
    refine Round.of_opcode hcode hrunning (by omega) (hpc ▸ hget 0 _ rfl) ?_ hexc
    rw [opcode_pushOp_args, hpc, ← hb]
  have h₂ : Round E exec s₁ true s₂ := by
    refine Round.of_opcode (s := s₁) hcode hrunning ?_ (hget 1 _ rfl) rfl hexc
    show s.1.stack.length + 1 < Context.stackSize
    omega
  have h₃ : Round E exec s₂ true s₃ := by
    refine Round.of_opcode (s := s₂) hcode hrunning ?_ (hget 2 _ rfl) rfl hexc
    show s.1.stack.length + 1 + 1 < Context.stackSize
    omega
  refine .round h₁ (.round h₂ (.round h₃ (.single ?_)))
  refine Round.of_opcode (s := s₃) hcode hrunning ?_ (hget 3 _ rfl) ?_ hexc
  · show s.1.stack.length < Context.stackSize
    omega
  · show some (true, s.1, if (testedFlags b).zero then
      { s.2 with pc := dest.toNat, flags := testedFlags b }
      else { s.2 with pc := pre.length + 3 + 1, flags := testedFlags b }) = _
    rw [testedFlags_zero]
    cases b <;> rfl

end

/-! ## The collapsed test and the plain one -/

/-- The code with the collapsed test and the one with the plain test, behind `init` and whatever
    stands behind them: the same runs lead to the test, and from there to the branch or past it, with
    the same context. -/
def SameBranch (init : List Instruction) (c : Comparison) (args : List Word) : Prop :=
  ∀ (W : Type) (E : Env W) (exec : Execute W) (localVars : ℕ) (dest dest' : Word)
    (rest rest' : List Instruction) (s t : Context W × Frame),
    let plain := recoded (.ofInstructions localVars (init ++ plainTest c args dest' ++ rest'))
    s.2.code = .ofInstructions localVars (init ++ fusedTest c dest ++ rest) →
    t.2.code = s.2.code →
    (RunsBefore E exec init.length (plain s) (plain t) ↔ RunsBefore E exec init.length s t) ∧
      (RunsBefore E exec init.length s t → s.1.exception = false → t.2.running = true →
        t.2.pc = init.length → t.1.stack.length + 2 < Context.stackSize →
        ∃ (taken : Bool) (flags : Flags),
          Rounds E exec 1 t (t.1, { t.2 with
            pc := if taken then dest.toNat else init.length + 1 }) ∧
          Rounds E exec 4 (plain t) (t.1, { (plain t).2 with
            pc := if taken then dest'.toNat else init.length + 4
            flags := flags }))

theorem sameBranch (init : List Instruction) {c : Comparison} (hc : c.Collapsed)
    (args : List Word) : SameBranch init c args := by
  intro W E exec localVars dest dest' rest rest' s t plain hcode ht
  have hfused : s.2.code = .ofInstructions localVars (init ++ (fusedTest c dest ++ rest)) := by
    rw [← List.append_assoc]
    exact hcode
  have hplain (u : Context W × Frame) : plain u =
      recoded (.ofInstructions localVars (init ++ (plainTest c args dest' ++ rest'))) u := by
    rw [← List.append_assoc]
  constructor
  · constructor
    · intro h
      rw [hplain, hplain] at h
      have hback := h.recode (fusedTest c dest ++ rest) rfl
      rw [← hfused] at hback
      have hs : recoded s.2.code (plain s) = s := rfl
      have ht' : recoded s.2.code (plain t) = t := by
        rw [← ht]
        rfl
      rw [← hplain, ← hplain, hs, ht'] at hback
      exact hback
    · intro h
      rw [hplain, hplain]
      exact h.recode _ hfused
  · intro h hexc hrunning hpc hroom
    have hexc' : t.1.exception = false := h.exception hexc hrunning
    have hf : Rounds E exec 1 t (t.1, { t.2 with
        pc := if c.pushed t.2.flags then init.length + 1 else dest.toNat }) :=
      fusedTest_rounds hc (ht.trans hcode) hpc hrunning hexc'
        (Nat.lt_of_le_of_lt (Nat.le_add_right _ 2) hroom)
    have hp : Rounds E exec 4 (plain t) (t.1, { (plain t).2 with
        pc := if c.pushed t.2.flags then init.length + 4 else dest'.toNat
        flags := testedFlags (c.pushed t.2.flags) }) :=
      @plainTest_rounds W E exec _ (plain t) init rest' c args dest' rfl hpc hrunning hexc'
        hroom
    refine ⟨!c.pushed t.2.flags, testedFlags (c.pushed t.2.flags), ?_, ?_⟩
    · cases hb : c.pushed t.2.flags <;> simpa [hb] using hf
    · cases hb : c.pushed t.2.flags <;> simpa [hb] using hp

/-- **The collapsed test.** What `assembleTest` emits for a test is what it would emit without the
    collapsing, or takes its branch exactly where that takes it, with the same context. -/
theorem assembleTest_collapsed {A : AsmEnv} {test : Expression} {scope : Scope}
    {code code' plain : List Instruction}
    (hfused : (do assembleExpression A test scope none false true
                  finishTest : Asm Unit).Ok code () code')
    (hplain : (do assembleExpression A test scope none false true
                  finishTestPlain : Asm Unit).Ok code () plain) :
    code' = plain ∨ ∃ (init : List Instruction) (c : Comparison) (args : List Word),
      c.Collapsed ∧ plain = init ++ plainTest c args 0 ∧ code' = init ++ fusedTest c 0 ∧
      SameBranch init c args := by
  obtain ⟨u, code₁, hexpr, hfinish⟩ := Attempt.bind_ok.mp hfused
  obtain ⟨u', code₂, hexpr', hfinish'⟩ := Attempt.bind_ok.mp hplain
  obtain ⟨-, rfl⟩ := hexpr.unique hexpr'
  rcases finishTest_cases hfinish with hsame | ⟨init, args, c, hc, rfl, rfl⟩
  · exact .inl (hsame.unique hfinish').2
  · refine .inr ⟨init, c, args, hc, ?_, rfl, sameBranch init hc args⟩
    rw [((finishTestPlain_run _).unique hfinish').2.symm, List.append_assoc]
    rfl

/-- The test `1 < 2`. -/
def lessTest : Expression :=
  .oper .unknown .lessThan (some (.integer .unknown 1)) (some (.integer .unknown 2))

theorem assembleTest_collapsed_less :
    ∃ init c args,
      ([⟨.pushI, [2]⟩, ⟨.pushI, [1]⟩, ⟨.cmp, []⟩, ⟨.pushCL, []⟩, ⟨.pushI, [0]⟩, ⟨.cmpI, []⟩,
        ⟨.bEq, [0]⟩] : List Instruction) = init ++ plainTest c args 0 ∧
      SameBranch init c args := by
  let A : AsmEnv := ⟨none, [], fun _ => none, fun _ => false, fun _ => 0, fun _ => 0⟩
  have hfused : (do assembleExpression A lessTest [] none false true
                    finishTest : Asm Unit).Ok [] ()
      [⟨.pushI, [2]⟩, ⟨.pushI, [1]⟩, ⟨.cmp, []⟩, ⟨.bGE, [0]⟩] := rfl
  have hplain : (do assembleExpression A lessTest [] none false true
                    finishTestPlain : Asm Unit).Ok [] ()
      [⟨.pushI, [2]⟩, ⟨.pushI, [1]⟩, ⟨.cmp, []⟩, ⟨.pushCL, []⟩, ⟨.pushI, [0]⟩, ⟨.cmpI, []⟩,
        ⟨.bEq, [0]⟩] := rfl
  rcases assembleTest_collapsed hfused hplain with hsame | ⟨init, c, args, -, heq, -, hbranch⟩
  · cases hsame
  · exact ⟨init, c, args, heq, hbranch⟩

end B0rk
