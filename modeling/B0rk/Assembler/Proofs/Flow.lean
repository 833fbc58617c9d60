import B0rk.Assembler.Proofs.Addresses
import B0rk.Executor.Proofs.Handlers

set_option autoImplicit false

/-! # The flow of emitted code

Whatever the instructions do to an abstract state: if that is nothing for a jump, and a `try` and a test
leave it as it was, the emitted `if`, `for` and `try` are closed where their parts are. -/

namespace B0rk

open Script AsmScript

/-- An abstract state. -/
structure AsmFlow (σ : Type) where
  next : ℕ → Instruction → σ → Option σ
  /-- inside a `try` whose `PUSHTRY` is at the position -/
  enter : ℕ → σ → σ
  /-- with one more operand on the stack -/
  gain : σ → σ
  gain_injective : Function.Injective gain
  next_jump : ∀ {pos inst s}, inst.op.address = some 0 → next pos inst s = some s
  next_pushTry : ∀ {pos args s}, next pos ⟨.pushTry, args⟩ s = some (enter pos s)
  next_popTry : ∀ {pos pos' args s}, next pos' ⟨.popTry, args⟩ (enter pos s) = some s
  next_test : ∀ {pos inst s}, inst.op ∈ [OpCode.pushCE, .pushCL, .pushCLE] →
    next pos inst s = some (gain s)
  next_zero : ∀ {pos args s}, next pos ⟨.pushI, args⟩ s = some (gain s)
  next_compare : ∀ {pos args s}, next pos ⟨.cmpI, args⟩ (gain (gain s)) = some s

namespace AsmFlow

variable {σ : Type} (K : AsmFlow σ)

def flow : StateFlow Instruction σ := codeFlow K.next

/-- The code is continued by a part that is closed and does `f` to the state. -/
def Continues (s t : List Instruction) (f : σ → σ) : Prop :=
  ∃ seg, t = s ++ seg ∧ ∀ x, K.flow.Closed s.length seg ∅ x (f x)

/-- What a call emits if it succeeds and drops no failure. -/
def Emits (A : AsmEnv) (c : AsmStep) (f : σ → σ) : Prop :=
  ∀ s t, (asmFamily A).Succeeds (c.script A) s t → K.Continues s t f

variable {K} {A : AsmEnv} {s t u : List Instruction} {f g : σ → σ}

theorem Continues.refl : K.Continues s s id := ⟨[], (List.append_nil s).symm, fun _ => .nil⟩

theorem Continues.trans (h : K.Continues s t f) (h' : K.Continues t u g) :
    K.Continues s u (g ∘ f) := by
  obtain ⟨seg, rfl, hseg⟩ := h
  obtain ⟨seg', rfl, hseg'⟩ := h'
  refine ⟨seg ++ seg', List.append_assoc _ _ _, fun x => (hseg x).append ?_⟩
  rw [← List.length_append]
  exact hseg' (f x)

theorem Continues.push {op : OpCode} {args : List Word} (hop : op.isPlain = true)
    (hnext : ∀ x, K.next s.length ⟨op, args⟩ x = some (f x)) :
    K.Continues s (s ++ [⟨op, args⟩]) f := by
  refine ⟨_, rfl, fun x => .single (hnext x) fun hjump => ?_⟩
  have hjump : op.address.isSome = true := hjump
  rw [OpCode.address_of_isPlain hop] at hjump
  cases hjump

/-! ## Jumps -/

/-- The addresses have nothing to do with the state. -/
theorem next_address {op : OpCode} {arg : ℕ} (hop : op.address = some arg) (pos : ℕ)
    (args args' : List Word) : K.next pos ⟨op, args⟩ = K.next pos ⟨op, args'⟩ := by
  have hjump (hop : op.address = some 0) : K.next pos ⟨op, args⟩ = K.next pos ⟨op, args'⟩ := by
    funext x
    rw [K.next_jump hop, K.next_jump hop]
  cases op with
  | jmp | bEq | bNE | bL | bLE | bG | bGE => exact hjump rfl
  | pushTry =>
    funext x
    rw [K.next_pushTry, K.next_pushTry]
  | _ => cases hop

/-- The address of an instruction at the end of the code is filled in. -/
theorem closed_patch {pre post : List Instruction} {op : OpCode} {args : List Word} {pos arg : ℕ}
    {opens : Set ℕ} (hop : op.address = some arg) (harg : arg < args.length)
    (hpos : pos = s.length + pre.length) (hpre : ∀ x, K.flow.scan s.length x pre = some x)
    (hclosed : ∀ x, K.flow.Closed s.length (pre ++ ⟨op, args⟩ :: post) (insert pos opens) x x)
    (h : (B0rk.patch (some pos) arg).Ok (s ++ (pre ++ ⟨op, args⟩ :: post)) () t) :
    ∃ args', t = s ++ (pre ++ ⟨op, args'⟩ :: post) ∧
      ∀ x, K.flow.Closed s.length (pre ++ ⟨op, args'⟩ :: post) opens x x := by
  subst hpos
  have hrun := patch_run (s ++ pre) post op harg
  have hcode (inst : Instruction) : s ++ pre ++ [inst] ++ post = s ++ (pre ++ inst :: post) := by simp
  have hlength : (s ++ pre).length + 1 + post.length =
      s.length + (pre ++ (⟨op, args⟩ : Instruction) :: post).length := by
    simp only [List.length_append, List.length_cons]
    omega
  rw [hcode, hcode, hlength, List.length_append] at hrun
  refine ⟨_, (h.unique hrun).2, fun x => ?_⟩
  have hget : (pre ++ (⟨op, args⟩ : Instruction) :: post)[pre.length]? = some ⟨op, args⟩ := by simp
  have hset (inst : Instruction) : (pre ++ (⟨op, args⟩ : Instruction) :: post).set pre.length inst =
      pre ++ inst :: post := by simp
  have hfill := (hclosed x).fill hget (K.next_address hop _ _ _) le_rfl
    ⟨arg, hop, List.getElem?_set_self harg⟩ (by
      rw [List.take_length, (hclosed x).ends, List.take_left, hpre])
  rwa [hset] at hfill

/-- The part of the code behind `s`, with an address at a position that is still open. -/
def Pending (K : AsmFlow σ) (s u : List Instruction) (pos arg : ℕ) (f : σ → σ) : Prop :=
  ∃ pre op args post, u = s ++ (pre ++ ⟨op, args⟩ :: post) ∧ pos = s.length + pre.length ∧
    op.address = some arg ∧ arg < args.length ∧ ∀ x, K.flow.scan s.length x pre = some x ∧
      K.flow.Closed s.length (pre ++ ⟨op, args⟩ :: post) {pos} x (f x)

namespace Pending

variable {pos arg : ℕ}

theorem append (h : K.Pending s u pos arg f) {seg : List Instruction}
    (hseg : ∀ x, K.flow.Closed u.length seg ∅ (f x) (g x)) : K.Pending s (u ++ seg) pos arg g := by
  obtain ⟨pre, op, args, post, rfl, hpos, hop, harg, hcode⟩ := h
  refine ⟨pre, op, args, post ++ seg, by simp, hpos, hop, harg, fun x => ⟨(hcode x).1, ?_⟩⟩
  rw [← List.cons_append, ← List.append_assoc]
  refine (hcode x).2.append ?_
  rw [← List.length_append]
  exact (hseg x).mono (Set.empty_subset _)

theorem trans (h : K.Pending s u pos arg f) (h' : K.Continues u t g) :
    K.Pending s t pos arg (g ∘ f) := by
  obtain ⟨seg, rfl, hseg⟩ := h'
  exact h.append fun x => hseg (f x)

/-- The jump goes to the end of the code. -/
theorem fill (h : K.Pending s u pos arg id) (hok : (B0rk.patch (some pos) arg).Ok u () t) :
    K.Continues s t id := by
  obtain ⟨pre, op, args, post, rfl, hpos, hop, harg, hcode⟩ := h
  have hopen (x : σ) : K.flow.Closed s.length (pre ++ ⟨op, args⟩ :: post) (insert pos ∅) x x := by
    simpa using (hcode x).2
  obtain ⟨args', rfl, hclosed⟩ := closed_patch hop harg hpos (fun x => (hcode x).1) hopen hok
  exact ⟨_, rfl, hclosed⟩

/-- The jump goes behind another one, that is open now. -/
theorem turn (h : K.Pending s u pos arg id)
    (hok : (B0rk.patch (some pos) arg).Ok (u ++ [⟨.jmp, [0]⟩]) () t) :
    K.Pending s t u.length 0 id := by
  obtain ⟨pre, op, args, post, rfl, hpos, hop, harg, hcode⟩ := h
  have hlast : s ++ (pre ++ (⟨op, args⟩ : Instruction) :: post) ++ [⟨.jmp, [0]⟩] =
      s ++ (pre ++ ⟨op, args⟩ :: (post ++ [⟨.jmp, [0]⟩])) := by simp
  rw [hlast] at hok
  have hopen (x : σ) : K.flow.Closed s.length (pre ++ ⟨op, args⟩ :: (post ++ [⟨.jmp, [0]⟩]))
      (insert pos {(s ++ (pre ++ (⟨op, args⟩ : Instruction) :: post)).length}) x x := by
    rw [← List.cons_append, ← List.append_assoc]
    refine StateFlow.Closed.append ((hcode x).2.mono (by simp)) ?_
    rw [← List.length_append]
    exact .single (K.next_jump rfl) fun _ => by simp
  obtain ⟨args', rfl, hclosed⟩ := closed_patch hop harg hpos (fun x => (hcode x).1) hopen hok
  refine ⟨pre ++ ⟨op, args'⟩ :: post, .jmp, [0], [], by simp, by simp, rfl, Nat.one_pos, fun x => ⟨?_, ?_⟩⟩
  · have hends : K.flow.scan s.length x (pre ++ ⟨op, args⟩ :: post) = some x := (hcode x).2.ends
    have hnext (pos : ℕ) : K.flow.next pos ⟨op, args'⟩ = K.flow.next pos ⟨op, args⟩ :=
      K.next_address hop pos args' args
    rw [← hends]
    simp only [StateFlow.scan_append, StateFlow.scan_cons, hnext]
  · simpa using hclosed x

/-- The jump goes behind another one, that goes back to where the part starts. -/
theorem loop (h : K.Pending s u pos arg id)
    (hok : (B0rk.patch (some pos) arg).Ok (u ++ [⟨.jmp, [BitVec.ofNat 64 s.length]⟩]) () t) :
    K.Continues s t id := by
  obtain ⟨pre, op, args, post, rfl, hpos, hop, harg, hcode⟩ := h
  have hlast : s ++ (pre ++ (⟨op, args⟩ : Instruction) :: post) ++
      [⟨.jmp, [BitVec.ofNat 64 s.length]⟩] =
      s ++ (pre ++ ⟨op, args⟩ :: (post ++ [⟨.jmp, [BitVec.ofNat 64 s.length]⟩])) := by simp
  rw [hlast] at hok
  have hopen (x : σ) : K.flow.Closed s.length
      (pre ++ ⟨op, args⟩ :: (post ++ [⟨.jmp, [BitVec.ofNat 64 s.length]⟩])) (insert pos ∅) x x := by
    rw [← List.cons_append, ← List.append_assoc]
    exact StateFlow.Closed.jump (k := 0) (by simpa using (hcode x).2) (K.next_jump rfl) (Nat.zero_le _)
      ⟨0, rfl, rfl⟩ rfl
  obtain ⟨args', rfl, hclosed⟩ := closed_patch hop harg hpos (fun x => (hcode x).1) hopen hok
  exact ⟨_, rfl, hclosed⟩

end Pending

/-- The branch at the end of a test. Where a comparison is collapsed with it, no jump of the test may
    count on the value that is no longer pushed. -/
theorem Continues.test {v : List Instruction} (h : K.Continues s v K.gain) (hlt : s.length < v.length)
    (hgain : (∀ x, K.gain x = x) ∨ ∀ seg, v = s ++ seg → ∀ inst ∈ seg, inst.op.address = none)
    (hfinish : finishTest.Ok v () u) : K.Pending s u (u.length - 1) 0 id := by
  obtain ⟨seg, rfl, hseg⟩ := h
  rcases finishTest_shapes hfinish with ⟨init, inst, op, hinit, hinst, rfl, hop⟩ | rfl
  · obtain ⟨pre, rfl⟩ : ∃ pre, seg = pre ++ [inst] := by
      rcases List.eq_nil_or_concat seg with rfl | ⟨pre, last, rfl⟩
      · simp at hlt
      · rw [List.concat_eq_append, ← List.append_assoc] at hinit
        obtain ⟨-, hlast⟩ := List.append_inj' hinit rfl
        rw [List.concat_eq_append, hlast]
        exact ⟨pre, rfl⟩
    rw [← List.append_assoc] at hinit
    obtain rfl := (List.append_inj' hinit rfl).1
    have hpre (x : σ) : K.flow.scan s.length x pre = some x := by
      have hends := (hseg x).ends
      rw [StateFlow.scan_append] at hends
      obtain ⟨y, hy, hlast⟩ := Option.bind_eq_some_iff.mp hends
      rw [StateFlow.scan_singleton] at hlast
      have hvalue := (K.next_test hinst).symm.trans hlast
      rw [hy, K.gain_injective (Option.some.inj hvalue)]
    have hends (x : σ) : K.flow.scan s.length x (pre ++ [⟨op, [0]⟩]) = some x := by
      rw [StateFlow.scan_append_some (hpre x), StateFlow.scan_singleton]
      exact K.next_jump hop
    refine ⟨pre, op, [0], [], by simp, by simp, hop, Nat.one_pos, fun x => ⟨hpre x, hends x, ?_⟩⟩
    intro i z hz hjump hopen
    have hi : i < pre.length := by
      by_contra hge
      have hle := (List.getElem?_eq_some_iff.mp hz).1
      rw [List.length_append, List.length_singleton] at hle
      refine hopen ?_
      simp only [List.length_append, List.length_singleton, Set.mem_singleton_iff]
      omega
    rw [List.getElem?_append_left hi] at hz
    obtain ⟨k, hk, hgoes, hscan⟩ :=
      (hseg x).closed i z (by rwa [List.getElem?_append_left hi]) hjump (Set.notMem_empty _)
    refine ⟨k, by simpa using hk, hgoes, ?_⟩
    rw [List.take_append_of_le_length hi.le] at hscan ⊢
    rcases Nat.lt_or_ge pre.length k with hlast | hle
    · have hk : k = pre.length + 1 := by
        rw [List.length_append, List.length_singleton] at hk
        omega
      rcases hgain with hgain | hplain
      · rw [← hscan, hk, List.take_of_length_le (by simp), List.take_of_length_le (by simp), hends,
          (hseg x).ends, hgain]
      · have hnone := hplain _ rfl z (List.mem_append_left _ (List.mem_of_getElem? hz))
        have hjump : z.op.address.isSome = true := hjump
        rw [hnone] at hjump
        cases hjump
    · rw [List.take_append_of_le_length hle] at hscan ⊢
      exact hscan
  · have hclosed (x : σ) : K.flow.Closed s.length (seg ++ [⟨.pushI, [0]⟩] ++ [⟨.cmpI, []⟩]) ∅ x x :=
      ((hseg x).append (.single K.next_zero fun hjump => absurd hjump Bool.false_ne_true)).append
        (.single K.next_compare fun hjump => absurd hjump Bool.false_ne_true)
    refine ⟨seg ++ [⟨.pushI, [0]⟩] ++ [⟨.cmpI, []⟩], .bEq, [0], [], by simp, by simp, rfl,
      Nat.one_pos, fun x => ⟨(hclosed x).ends, ?_⟩⟩
    refine ((hclosed x).mono (Set.empty_subset _)).append (.single (K.next_jump rfl) fun _ => ?_)
    simp only [List.length_append, List.length_cons, List.length_nil, Set.mem_singleton_iff]
    omega

/-! ## Statements with jumps -/

/-- A call that emits no addresses. -/
def Unaddressed (A : AsmEnv) (c : AsmStep) : Prop :=
  ∀ s t, (asmFamily A).Succeeds (c.script A) s t → ∀ seg, t = s ++ seg →
    ∀ inst ∈ seg, inst.op.address = none

/-- A test, with what is behind its branch. -/
theorem Emits.branched {test : Expression} {scope : Scope} {k : Option ℕ → AsmScript}
    (htest : K.Emits A (.expression test scope (.alone false) true) K.gain)
    (hgain : (∀ x, K.gain x = x) ∨ Unaddressed A (.expression test scope (.alone false) true))
    (h : (asmFamily A).Succeeds (.attempt (.expression test scope (.alone false) true) (some .branch)
      (AsmScript.withLast k)) s t) :
    ∃ u, K.Pending s u (u.length - 1) 0 id ∧ (asmFamily A).Succeeds (k (some (u.length - 1))) u t := by
  obtain ⟨v, u, hcall, hbranch, hrest⟩ := h.attempt
  have hlt := (length_of_call hcall).2 (AsmStep.emits_alone ..)
  have hpos : 0 < u.length := (Nat.zero_le _).trans_lt (hlt.trans_le (length_of_finishTest hbranch))
  exact ⟨u, (htest s v hcall).test hlt (hgain.imp_right fun h => h s v hcall) hbranch,
    succeeds_withLast hpos hrest⟩

section

variable {scope : Scope} (place : Place) (needResult : Bool)

theorem ifScript_continues {test : Expression} {trueBlock : CodeBlock} {falseBlock : Option CodeBlock}
    (htest : K.Emits A (.expression test scope (.alone false) true) K.gain)
    (hgain : (∀ x, K.gain x = x) ∨ Unaddressed A (.expression test scope (.alone false) true))
    (htrue : K.Emits A (.block trueBlock scope) id)
    (hfalse : ∀ block, falseBlock = some block → K.Emits A (.block block scope) id)
    (h : (asmFamily A).Succeeds
      (expressionScript A (.ifExpr test trueBlock falseBlock) scope place needResult) s t) :
    K.Continues s t id := by
  rw [expressionScript] at h
  obtain ⟨u, hbranch, hrest⟩ := htest.branched hgain h
  obtain ⟨v, hblock, hrest⟩ := hrest.call
  have hpending := hbranch.trans (htrue _ _ hblock)
  cases falseBlock with
  | none =>
    obtain ⟨w, hpatch, hdone⟩ := hrest.act
    obtain ⟨-, rfl⟩ := Attempt.pure_ok.mp hdone.1
    exact hpending.fill hpatch
  | some falseBlock =>
    obtain ⟨w, hjump, hrest⟩ := hrest.act
    obtain rfl := pushInstruction_ok.mp hjump
    have hlength : 0 < (v ++ [(⟨.jmp, [0]⟩ : Instruction)]).length := by simp
    have hlast : (v ++ [(⟨.jmp, [0]⟩ : Instruction)]).length - 1 = v.length := by simp
    obtain ⟨w, hpatch, hrest⟩ := (succeeds_withLast hlength hrest).act
    rw [hlast] at hrest
    obtain ⟨w', hblock', hrest⟩ := hrest.call
    obtain ⟨w'', hpatch', hdone⟩ := hrest.act
    obtain ⟨-, rfl⟩ := Attempt.pure_ok.mp hdone.1
    exact ((hpending.turn hpatch).trans (hfalse _ rfl _ _ hblock')).fill hpatch'

theorem optional_continues {expr : Option Expression} {place : Place} {rest : AsmScript}
    (hexpr : ∀ e, expr = some e → K.Emits A (.expression e scope place needResult) id)
    (h : (asmFamily A).Succeeds (AsmScript.optional expr scope place needResult rest) s t) :
    ∃ u, K.Continues s u id ∧ (asmFamily A).Succeeds rest u t := by
  cases expr with
  | none => exact ⟨s, .refl, h⟩
  | some e =>
    obtain ⟨u, hcall, hrest⟩ := h.call
    exact ⟨u, hexpr e rfl _ _ hcall, hrest⟩

theorem forScript_continues {init inc : Option Expression} {test : Expression} {body : CodeBlock}
    (hinit : ∀ e, init = some e → K.Emits A (.expression e scope (.alone false) false) id)
    (htest : K.Emits A (.expression test scope (.alone false) true) K.gain)
    (hgain : (∀ x, K.gain x = x) ∨ Unaddressed A (.expression test scope (.alone false) true))
    (hbody : K.Emits A (.block body scope) id)
    (hinc : ∀ e, inc = some e → K.Emits A (.expression e scope (.alone false) false) id)
    (h : (asmFamily A).Succeeds
      (expressionScript A (.forExpr init test inc body) scope place needResult) s t) :
    K.Continues s t id := by
  rw [expressionScript] at h
  obtain ⟨r, hstart, hrest⟩ := optional_continues _ hinit h
  obtain ⟨u, hbranch, hrest⟩ := htest.branched hgain hrest.look
  obtain ⟨v, hblock, hrest⟩ := hrest.call
  obtain ⟨w, hback, hrest⟩ := optional_continues _ hinc hrest
  obtain ⟨w', hjump, hrest⟩ := hrest.act
  obtain rfl := pushInstruction_ok.mp hjump
  obtain ⟨w'', hpatch, hdone⟩ := hrest.act
  obtain ⟨-, rfl⟩ := Attempt.pure_ok.mp hdone.1
  exact hstart.trans (((hbranch.trans (hbody _ _ hblock)).trans hback).loop hpatch)

theorem tryScript_continues {tryBlock catchBlock : CodeBlock} {exceptionVar : String}
    (htry : K.Emits A (.block tryBlock scope) id) (hcatch : K.Emits A (.block catchBlock scope) id)
    (h : (asmFamily A).Succeeds
      (expressionScript A (.tryExpr tryBlock exceptionVar catchBlock) scope place needResult) s t) :
    K.Continues s t id := by
  rw [expressionScript] at h
  cases hvar : Scope.getVarId A.args (catchBlock :: scope) exceptionVar with
  | none =>
    rw [hvar] at h
    exact absurd h.1 (by simp [Script.interp])
  | some excepVar =>
    rw [hvar] at h
    obtain ⟨u, hpush, hrest⟩ := h.act
    obtain rfl := pushInstruction_ok.mp hpush
    have hlength (inst : Instruction) (code : List Instruction) : 0 < (code ++ [inst]).length := by simp
    have hlast (inst : Instruction) (code : List Instruction) :
        (code ++ [inst]).length - 1 = code.length := by simp
    obtain ⟨v, hblock, hrest⟩ := (succeeds_withLast (hlength _ _) hrest).call
    rw [hlast] at hrest
    have hopen : K.Pending s (s ++ [⟨.pushTry, [BitVec.ofNat 64 excepVar, 0]⟩]) s.length 1
        (K.enter s.length) :=
      ⟨[], .pushTry, _, [], rfl, rfl, rfl, by simp, fun x => ⟨rfl, .single K.next_pushTry fun _ => rfl⟩⟩
    obtain ⟨w, hpop, hrest⟩ := hrest.act
    obtain rfl := pushInstruction_ok.mp hpop
    have hclose : K.Pending s (v ++ [⟨.popTry, []⟩]) s.length 1 id :=
      (hopen.trans (htry _ _ hblock)).append fun x =>
        .single K.next_popTry fun hjump => absurd hjump Bool.false_ne_true
    obtain ⟨w, hjump, hrest⟩ := hrest.act
    obtain rfl := pushInstruction_ok.mp hjump
    obtain ⟨w, hpatch, hrest⟩ := (succeeds_withLast (hlength _ _) hrest).act
    rw [hlast] at hrest
    obtain ⟨w', hblock', hrest⟩ := hrest.call
    obtain ⟨w'', hpatch', hdone⟩ := hrest.act
    obtain ⟨-, rfl⟩ := Attempt.pure_ok.mp hdone.1
    exact ((hclose.turn hpatch).trans (hcatch _ _ hblock')).fill hpatch'

end

end AsmFlow

end B0rk
