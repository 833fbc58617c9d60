import B0rk.Executor.Proofs.Invariant
import B0rk.Executor.Proofs.Recode
import B0rk.Lib.Flow

set_option autoImplicit false

/-! # The handlers of an activation

Each `PUSHTRY` opens a `try`, each `POPTRY` closes the innermost one. In code that agrees on every way to
an instruction which ones are open there, the handlers of an activation are those of the open ones. -/

namespace B0rk

variable {W : Type}

/-- Code with a state for each place: the jumps are the instructions with an address. -/
def codeFlow {σ : Type} (next : ℕ → Instruction → σ → Option σ) : StateFlow Instruction σ where
  next := next
  jumps inst := inst.op.address.isSome
  goes inst k := ∃ arg, inst.op.address = some arg ∧ inst.args[arg]? = some (BitVec.ofNat 64 k)

/-- What an instruction does to the open `try`s, which are given by the positions of their `PUSHTRY`s. -/
def nextTries (pos : ℕ) (inst : Instruction) (tries : List ℕ) : Option (List ℕ) :=
  match inst.op with
  | .pushTry => some (pos :: tries)
  | .popTry => if tries = [] then none else some tries.tail
  | _ => some tries

/-- Which `try`s are open. -/
def tryFlow : StateFlow Instruction (List ℕ) := codeFlow nextTries

/-- The `try`s that are open before an instruction, the innermost one first. -/
def openTries (insts : List Instruction) (pc : ℕ) : Option (List ℕ) :=
  tryFlow.scan 0 [] (insts.take pc)

/-- The handler that a `PUSHTRY` installs. -/
def handlerAt (insts : List Instruction) (pos : ℕ) : Option ExceptionHandler := do
  let inst ← insts[pos]?
  let excepVar ← inst.args[0]?
  let handlerPC ← inst.args[1]?
  some ⟨excepVar.toNat, handlerPC.toNat⟩

/-- On every way to an instruction the same `try`s are open, and none at the end. -/
def Balanced (insts : List Instruction) : Prop := tryFlow.Closed 0 insts ∅ [] []

/-! ## The open `try`s -/

/-- Each of the `try`s is a `PUSHTRY` where those behind it in the list are open. -/
def Nested (insts : List Instruction) : List ℕ → Prop
  | [] => True
  | pos :: outer => insts[pos]?.map Instruction.op = some .pushTry ∧
      openTries insts pos = some outer ∧ Nested insts outer

section

variable {insts : List Instruction} {tries : List ℕ} {pc : ℕ}

theorem openTries_succ {inst : Instruction} (h : insts[pc]? = some inst) :
    openTries insts (pc + 1) = (openTries insts pc).bind (nextTries pc inst) := by
  have hsucc : tryFlow.scan 0 [] (insts.take (pc + 1)) =
      (tryFlow.scan 0 [] (insts.take pc)).bind (nextTries (0 + pc) inst) := StateFlow.scan_take_succ h
  rwa [Nat.zero_add] at hsucc

theorem nextTries_same {inst : Instruction} (hpush : inst.op ≠ .pushTry) (hpop : inst.op ≠ .popTry) :
    nextTries pc inst tries = some tries := by
  unfold nextTries
  split
  · next h => exact absurd h hpush
  · next h => exact absurd h hpop
  · rfl

theorem nested_nextTries {inst : Instruction} {tries' : List ℕ} (hinst : insts[pc]? = some inst)
    (htries : openTries insts pc = some tries) (h : Nested insts tries)
    (hnext : nextTries pc inst tries = some tries') : Nested insts tries' := by
  unfold nextTries at hnext
  split at hnext
  · next hop =>
    cases hnext
    exact ⟨by rw [hinst, Option.map_some, hop], htries, h⟩
  · cases tries with
    | nil => cases hnext
    | cons pos outer =>
      cases hnext
      exact h.2.2
  · cases hnext
    exact h

theorem openTries_nested (h : openTries insts pc = some tries) : Nested insts tries := by
  induction pc generalizing tries with
  | zero =>
    cases h
    trivial
  | succ pc ih =>
    cases hinst : insts[pc]? with
    | none =>
      have hlen := List.getElem?_eq_none_iff.mp hinst
      refine ih ?_
      rw [← h, openTries, openTries, List.take_of_length_le hlen,
        List.take_of_length_le (hlen.trans (Nat.le_succ pc))]
    | some inst =>
      rw [openTries_succ hinst] at h
      obtain ⟨before, hbefore, hnext⟩ := Option.bind_eq_some_iff.mp h
      exact nested_nextTries hinst hbefore (ih hbefore) hnext

end

/-! ## What the instructions do to handlers -/

section

variable {E : Env W} {exec : Execute W} {op : OpCode} {args : List Word} {ctx ctx' : Context W}
  {frame frame' : Frame} {b : Bool}

/-- Frames that are where they were, if they still have the handlers that they had. -/
theorem controlRel_place (handlers : List ExceptionHandler) (pc : ℕ) :
    ControlRel (fun f' f => f' = f ∧ f.handlerStack.length ≤ handlers.length ∧
      (f.handlerStack.length = handlers.length → f.pc = pc)) where
  addr h := by rw [h.1]
  localVars h := by rw [h.1]
  flags h := by rw [h.1]
  setFlags := by
    rintro f' f ⟨rfl, h⟩ flags
    exact ⟨rfl, h⟩
  stop := by
    rintro f' f ⟨rfl, h⟩
    exact ⟨rfl, h⟩
  handlers := by
    rintro f' f ⟨rfl, h, -⟩
    cases hs : f'.handlerStack with
    | nil => exact .inl ⟨rfl, rfl⟩
    | cons handler handlers' =>
      rw [hs, List.length_cons] at h
      exact .inr ⟨_, _, _, _, rfl, rfl, ⟨rfl, by simp only; omega, by simp only; omega⟩, rfl,
        ⟨rfl, by simp only; omega, by simp only; omega⟩⟩

theorem noInvariant : ContextInvariant E (fun _ => True) (fun _ _ => True) where
  le _ _ := trivial
  pop _ _ := ⟨trivial, trivial⟩
  drop _ _ := trivial
  push _ _ := trivial
  tag _ _ := trivial
  bits _ _ := trivial
  getValue _ _ := trivial
  setValue _ _ _ := trivial
  getStaticField _ _ := trivial
  setStaticField _ _ _ := trivial
  allocateObject _ _ := trivial
  arrayLoad _ _ _ := ⟨trivial, trivial⟩
  arrayStore _ _ _ _ := trivial
  throwException _ := trivial

/-- The instructions that are no jumps and do not concern handlers. -/
theorem opcodeTable_place (haddress : op.address = none) (hpop : op ≠ .popTry)
    (h : opcodeTable E exec op args ctx frame = some (b, ctx', frame')) :
    frame'.handlerStack = frame.handlerStack ∧ frame'.pc = frame.pc := by
  have hpush : op ≠ .pushTry := by
    rintro rfl
    cases haddress
  have hkeeps := opcodeTable_keeps noInvariant (fun _ _ _ _ _ _ => fun _ _ => trivial)
    (fun _ _ => trivial) trivial _ h
  have hhandlers : frame'.handlerStack = frame.handlerStack := hkeeps.2.handlerStack hpush hpop
  have hset : SetVars (fun f' f : Frame => f' = f ∧ f.handlerStack.length ≤ frame.handlerStack.length ∧
      (f.handlerStack.length = frame.handlerStack.length → f.pc = frame.pc)) := by
    rintro f' f ⟨rfl, h⟩ k v
    exact ⟨rfl, h⟩
  have hargs : ArgsRel (fun f' f : Frame => f' = f ∧
      f.handlerStack.length ≤ frame.handlerStack.length ∧
        (f.handlerStack.length = frame.handlerStack.length → f.pc = frame.pc)) op args args :=
    ⟨fun _ _ => rfl, fun j hj => absurd (hj.symm.trans haddress) nofun⟩
  have hrel := opcodeTable_controlRel (controlRel_place frame.handlerStack frame.pc) E exec
    (fun _ => hset) hargs ctx ⟨rfl, le_rfl, fun _ => rfl⟩
  rw [h] at hrel
  obtain ⟨-, -, -, -, hpc⟩ := hrel
  exact ⟨hhandlers, hpc (by rw [hhandlers])⟩

theorem setVar_place {varId : ℕ} {v : Value} (h : frame.setVar varId v = some frame') :
    frame'.pc = frame.pc ∧ frame'.handlerStack = frame.handlerStack := by
  unfold Frame.setVar at h
  split at h
  · cases h
    exact ⟨rfl, rfl⟩
  · cases h

theorem opcodeTable_jump (haddress : op.address = some 0)
    (h : opcodeTable E exec op args ctx frame = some (b, ctx', frame')) :
    frame'.handlerStack = frame.handlerStack ∧
      (frame'.pc = frame.pc ∨ ∃ dest, args[0]? = some dest ∧ frame'.pc = dest.toNat) := by
  have hbranch (cond : Flags → Bool) (h : branch cond args ctx frame = some (b, ctx', frame')) :
      frame'.handlerStack = frame.handlerStack ∧
        (frame'.pc = frame.pc ∨ ∃ dest, args[0]? = some dest ∧ frame'.pc = dest.toNat) := by
    obtain ⟨dest, hdest, h⟩ := Option.bind_eq_some_iff.mp h
    cases h
    split
    · exact ⟨rfl, .inr ⟨dest, hdest, rfl⟩⟩
    · exact ⟨rfl, .inl rfl⟩
  cases op with
  | jmp => exact hbranch (fun _ => true) h
  | bEq => exact hbranch (fun f => f.zero) h
  | bNE => exact hbranch (fun f => !f.zero) h
  | bL => exact hbranch (fun f => f.sign != f.overflow) h
  | bLE => exact hbranch (fun f => !f.zero || f.sign == f.overflow) h
  | bG => exact hbranch (fun f => !f.zero && f.sign == f.overflow) h
  | bGE => exact hbranch (fun f => f.sign == f.overflow) h
  | _ => cases haddress

end

/-! ## Runs -/

/-- The handlers of a frame are those of the `try`s that are open where it is. -/
def HandlersOpen (insts : List Instruction) (frame : Frame) : Prop :=
  ∃ tries, openTries insts frame.pc = some tries ∧
    frame.handlerStack.map some = tries.map (handlerAt insts)

section

variable {insts : List Instruction} {E : Env W} {exec : Execute W}

theorem Balanced.target (h : Balanced insts) {pos arg : ℕ} {inst : Instruction} {dest : Word}
    (hlen : insts.length < 2 ^ 64) (hinst : insts[pos]? = some inst) (haddress : inst.op.address = some arg)
    (hdest : inst.args[arg]? = some dest) : openTries insts dest.toNat = openTries insts pos := by
  obtain ⟨k, hk, ⟨arg', haddress', hdest'⟩, hscan⟩ := h.closed pos inst hinst
    (show inst.op.address.isSome = true by rw [haddress]; rfl) (Set.notMem_empty _)
  rw [haddress] at haddress'
  cases haddress'
  rw [Nat.zero_add, hdest] at hdest'
  cases hdest'
  rw [BitVec.toNat_ofNat, Nat.mod_eq_of_lt (by omega)]
  exact hscan

/-- An instruction, apart from what an exception does. -/
theorem HandlersOpen.opcode (hbalanced : Balanced insts) (hlen : insts.length < 2 ^ 64)
    {ctx ctx' : Context W} {frame frame' : Frame} {inst : Instruction} {b : Bool}
    (hinst : insts[frame.pc]? = some inst) (h : HandlersOpen insts frame)
    (hop : opcodeTable E exec inst.op inst.args ctx { frame with pc := frame.pc + 1 } =
      some (b, ctx', frame')) : HandlersOpen insts frame' := by
  obtain ⟨op, args⟩ := inst
  obtain ⟨tries, htries, hhandlers⟩ := h
  have hsucc := openTries_succ hinst
  rw [htries, Option.bind_some] at hsucc
  cases haddress : op.address with
  | none =>
    by_cases hpop : op = .popTry
    · subst hpop
      cases hs : frame.handlerStack with
      | nil =>
        rw [opcodeTable, opcodePopHandler] at hop
        simp [hs] at hop
      | cons handler handlers =>
        cases tries with
        | nil => simp [hs] at hhandlers
        | cons pos outer =>
          rw [opcodeTable, opcodePopHandler] at hop
          simp only [hs] at hop
          cases hop
          rw [hs] at hhandlers
          exact ⟨outer, hsucc, (List.cons.inj hhandlers).2⟩
    · obtain ⟨hsame, hpc⟩ := opcodeTable_place haddress hpop hop
      have hpush : op ≠ .pushTry := by
        rintro rfl
        cases haddress
      exact ⟨tries, by rw [hpc, hsucc, nextTries_same hpush hpop], by rw [hsame, hhandlers]⟩
  | some arg =>
    by_cases hpush : op = .pushTry
    · subst hpush
      obtain ⟨excepVar, hvar, hop⟩ := Option.bind_eq_some_iff.mp hop
      obtain ⟨handlerPC, hdest, hop⟩ := Option.bind_eq_some_iff.mp hop
      cases hop
      refine ⟨frame.pc :: tries, hsucc, ?_⟩
      simp [handlerAt, hinst, hvar, hdest, hhandlers]
    · have hzero : op.address = some 0 := by
        cases op <;> first | rfl | exact absurd rfl hpush | cases haddress
      obtain ⟨hsame, hpc⟩ := opcodeTable_jump hzero hop
      refine ⟨tries, ?_, by rw [hsame, hhandlers]⟩
      rcases hpc with hpc | ⟨dest, hdest, hpc⟩
      · have hpop : op ≠ .popTry := by
          rintro rfl
          cases hzero
        rw [hpc, hsucc, nextTries_same hpush hpop]
      · rw [hpc, hbalanced.target hlen hinst hzero hdest, htries]

theorem HandlersOpen.handled (hbalanced : Balanced insts) (hlen : insts.length < 2 ^ 64)
    {ctx ctx' : Context W} {frame frame' : Frame} (h : HandlersOpen insts frame)
    (hhandle : handleException ctx frame = some (ctx', frame')) : HandlersOpen insts frame' := by
  obtain ⟨tries, htries, hhandlers⟩ := h
  unfold handleException at hhandle
  cases hs : frame.handlerStack with
  | nil =>
    rw [hs] at hhandle
    obtain ⟨stack, -, hhandle⟩ := Option.bind_eq_some_iff.mp hhandle
    cases hhandle
    exact ⟨tries, htries, hs ▸ hhandlers⟩
  | cons handler handlers =>
    rw [hs] at hhandle hhandlers
    obtain ⟨frame₁, hset, hhandle⟩ := Option.bind_eq_some_iff.mp hhandle
    cases hhandle
    cases tries with
    | nil => cases hhandlers
    | cons pos outer =>
      obtain ⟨hhandler, houters⟩ := List.cons.inj hhandlers
      obtain ⟨hpush, houter, -⟩ := openTries_nested htries
      obtain ⟨inst, hinst, hop⟩ := Option.map_eq_some_iff.mp hpush
      obtain ⟨inst', hinst', hargs⟩ := Option.bind_eq_some_iff.mp hhandler.symm
      cases hinst.symm.trans hinst'
      obtain ⟨excepVar, hvar, hargs⟩ := Option.bind_eq_some_iff.mp hargs
      obtain ⟨handlerPC, hdest, hargs⟩ := Option.bind_eq_some_iff.mp hargs
      cases hargs
      have htarget := hbalanced.target hlen hinst (by rw [hop]; rfl) hdest
      obtain ⟨hpc, hstack⟩ := setVar_place hset
      exact ⟨outer, by rw [hpc, htarget, houter], by rw [hstack]; exact houters⟩

theorem HandlersOpen.round (hbalanced : Balanced insts) (hlen : insts.length < 2 ^ 64) {localVars : ℕ}
    {s t : Context W × Frame} {success : Bool} (hcode : s.2.code = .ofInstructions localVars insts)
    (h : HandlersOpen insts s.2) (hround : Round E exec s success t) : HandlersOpen insts t.2 := by
  obtain ⟨inst, next, b, ctx₁, frame₁, hfetch, hop, hafter⟩ := step_some hround.2.2
  rw [hcode] at hfetch
  obtain ⟨hinst, rfl⟩ := ofInstructions_fetch hfetch
  have hbehind : HandlersOpen insts (if b then frame₁ else { frame₁ with running := false }) := by
    have := h.opcode hbalanced hlen hinst hop
    split <;> exact this
  unfold afterOpcode at hafter
  generalize (if b then frame₁ else { frame₁ with running := false }) = frame₂ at hbehind hafter
  dsimp only at hafter
  split at hafter
  · obtain ⟨⟨ctx₂, frame₂⟩, hhandle, hafter⟩ := Option.bind_eq_some_iff.mp hafter
    cases hafter
    exact hbehind.handled hbalanced hlen hhandle
  · cases hafter
    exact hbehind

/-- In every run of balanced code, the handlers are those of the `try`s that are open. -/
theorem Balanced.handlersOpen (h : Balanced insts) (hlen : insts.length < 2 ^ 64) {localVars : ℕ}
    {s t : Context W × Frame} (hcode : s.2.code = .ofInstructions localVars insts)
    (hs : HandlersOpen insts s.2) (ht : Arrives E exec s t) : HandlersOpen insts t.2 := by
  suffices HandlersOpen insts t.2 ∧ t.2.code = .ofInstructions localVars insts from this.1
  induction ht with
  | refl => exact ⟨hs, hcode⟩
  | tail _ hround ih =>
    obtain ⟨success, hround⟩ := hround
    exact ⟨ih.1.round h hlen ih.2 hround, hround.code.trans ih.2⟩

end

end B0rk
