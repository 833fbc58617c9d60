import B0rk.Assembler.Link
import B0rk.Executor.Proofs.Frames
import B0rk.Executor.Proofs.Rounds

set_option autoImplicit false

/-! # Linked code runs like its instructions

The executor does the same on the words of the linked code as on the instructions, with addresses for
positions. -/

namespace B0rk

variable {W : Type}

/-! ## Addresses -/

theorem codeAddress_succ {insts : List Instruction} {i : ℕ} {inst : Instruction}
    (h : insts[i]? = some inst) :
    codeAddress insts (i + 1) = codeAddress insts i + (1 + inst.args.length) := by
  unfold codeAddress
  rw [List.take_add_one, h]
  simp

theorem codeAddress_mono (insts : List Instruction) {i j : ℕ} (h : i ≤ j) :
    codeAddress insts i ≤ codeAddress insts j := by
  obtain ⟨k, rfl⟩ := Nat.exists_eq_add_of_le h
  unfold codeAddress
  rw [List.take_add, List.map_append, List.sum_append]
  exact Nat.le_add_right _ _

theorem codeAddress_lt {insts : List Instruction} {i : ℕ} (h : i < insts.length) :
    codeAddress insts i < codeAddress insts insts.length := by
  have hsucc := codeAddress_succ (List.getElem?_eq_getElem h)
  have hmono := codeAddress_mono insts (Nat.succ_le_of_lt h)
  rw [hsucc] at hmono
  omega

theorem le_codeAddress {insts : List Instruction} {i : ℕ} (h : i ≤ insts.length) :
    i ≤ codeAddress insts i := by
  induction i with
  | zero => exact Nat.zero_le _
  | succ i ih =>
    rw [codeAddress_succ (List.getElem?_eq_getElem h)]
    have := ih (Nat.le_of_succ_le h)
    omega

theorem codeAddress_end {insts : List Instruction} {i : ℕ} (h : insts.length ≤ i) :
    codeAddress insts i = codeAddress insts insts.length := by
  unfold codeAddress
  rw [List.take_of_length_le h, List.take_length]

/-! ## Fetching -/

theorem linkArgs_length {insts : List Instruction} {inst : Instruction} {args : List Word}
    (h : linkArgs insts inst = some args) : args.length = inst.args.length := by
  unfold linkArgs at h
  split at h
  · cases h
    rfl
  · next j hj =>
    obtain ⟨arg, harg, h⟩ := Option.bind_eq_some_iff.mp h
    split at h
    · cases h
      exact List.length_set
    · cases h

theorem linkInstruction_some {insts : List Instruction} {inst : Instruction} {words : List Word}
    (h : linkInstruction insts inst = some words) :
    inst.op.args = inst.args.length ∧ ∃ args, linkArgs insts inst = some args ∧
      words = BitVec.ofNat 64 inst.op.toNat :: args := by
  unfold linkInstruction at h
  split at h
  · next hargs =>
    obtain ⟨args, hlink, h⟩ := Option.bind_eq_some_iff.mp h
    cases h
    exact ⟨hargs, args, hlink, rfl⟩
  · cases h

/-- The words from an instruction on. -/
theorem linkWords_drop {all insts : List Instruction} {words : List Word}
    (h : linkWords all insts = some words) (i : ℕ) :
    linkWords all (insts.drop i) = some (words.drop (codeAddress insts i)) := by
  induction insts generalizing words i with
  | nil =>
    cases h
    cases i <;> rfl
  | cons inst rest ih =>
    cases i with
    | zero => simpa [codeAddress] using h
    | succ i =>
      obtain ⟨first, hfirst, h⟩ := Option.bind_eq_some_iff.mp h
      obtain ⟨words', hrest, h⟩ := Option.bind_eq_some_iff.mp h
      cases h
      obtain ⟨-, args, hlink, rfl⟩ := linkInstruction_some hfirst
      have haddr : codeAddress (inst :: rest) (i + 1) =
          (BitVec.ofNat 64 inst.op.toNat :: args).length + codeAddress rest i := by
        rw [codeAddress, List.take_succ_cons, List.map_cons, List.sum_cons, List.length_cons,
          linkArgs_length hlink, Nat.add_comm 1]
        rfl
      rw [List.drop_succ_cons, haddr, List.drop_append, ih hrest i]
      simp

theorem linkWords_length {all insts : List Instruction} {words : List Word}
    (h : linkWords all insts = some words) : words.length = codeAddress insts insts.length := by
  induction insts generalizing words with
  | nil =>
    cases h
    rfl
  | cons inst rest ih =>
    obtain ⟨first, hfirst, h⟩ := Option.bind_eq_some_iff.mp h
    obtain ⟨words', hrest, h⟩ := Option.bind_eq_some_iff.mp h
    cases h
    obtain ⟨-, args, hlink, rfl⟩ := linkInstruction_some hfirst
    rw [List.length_append, List.length_cons, linkArgs_length hlink, ih hrest, codeAddress,
      codeAddress, List.take_length, List.take_length, List.map_cons, List.sum_cons,
      Nat.add_comm 1]

/-- What `assemble` asks of an instruction: the number of operands that its opcode has, and a valid
    position for the address of an instruction. The opcode is a number of the enumeration's type. -/
structure Instruction.WellFormed (insts : List Instruction) (inst : Instruction) : Prop where
  opcode : OpCode.ofNat inst.op.toNat = inst.op ∧ inst.op.toNat < 2 ^ 64
  args : inst.args.length = inst.op.args
  address : ∀ j arg, inst.op.address = some j → inst.args[j]? = some arg → arg.toNat < insts.length

theorem OpCode.address_lt {op : OpCode} {j : ℕ} (h : op.address = some j) : j < op.args := by
  cases op <;> first
    | (cases h; exact Nat.succ_pos _)
    | (cases h; exact Nat.one_lt_two)
    | cases h

/-- No opcode function that the table has fetches another number of operands. -/
theorem OpCode.fetched_eq {op : OpCode} (h : op ≠ .pushVar) : op.fetched = op.args := by
  cases op <;> first
    | rfl
    | exact absurd rfl h

theorem Instruction.WellFormed.linkArgs {insts : List Instruction} {inst : Instruction}
    (h : inst.WellFormed insts) : ∃ args, linkArgs insts inst = some args := by
  unfold B0rk.linkArgs
  cases hop : inst.op.address with
  | none => exact ⟨_, rfl⟩
  | some j =>
    have hj : j < inst.args.length := h.args ▸ OpCode.address_lt hop
    have hget := List.getElem?_eq_getElem hj
    have hlt := h.address j _ hop hget
    simp only [hget, Option.bind_eq_bind, Option.bind_some, if_pos hlt]
    exact ⟨_, rfl⟩

theorem linkWords_wellFormed {all insts : List Instruction}
    (h : ∀ inst ∈ insts, inst.WellFormed all) : ∃ words, linkWords all insts = some words := by
  induction insts with
  | nil => exact ⟨_, rfl⟩
  | cons inst rest ih =>
    obtain ⟨words, hwords⟩ := ih (fun inst hinst => h inst (List.mem_cons_of_mem _ hinst))
    have hinst := h inst List.mem_cons_self
    obtain ⟨args, hargs⟩ := hinst.linkArgs
    simp only [linkWords, linkInstruction, if_pos hinst.args.symm, hargs, hwords,
      Option.bind_eq_bind, Option.bind_some]
    exact ⟨_, rfl⟩

theorem link_isSome (localVars : ℕ) {insts : List Instruction}
    (hinsts : ∀ inst ∈ insts, inst.WellFormed insts)
    (hsize : codeAddress insts insts.length < 2 ^ 31) : (link localVars insts).isSome := by
  obtain ⟨words, hwords⟩ := linkWords_wellFormed hinsts
  unfold link
  simp only [if_pos hsize, hwords, Option.bind_eq_bind, Option.bind_some, Option.isSome_some]

/-- The words at the address of an instruction. -/
theorem linkWords_at {insts : List Instruction} {words : List Word}
    (h : linkWords insts insts = some words) {i : ℕ} {inst : Instruction}
    (hi : insts[i]? = some inst) :
    ∃ args words', linkArgs insts inst = some args ∧ args.length = inst.op.args ∧
      words.drop (codeAddress insts i) = BitVec.ofNat 64 inst.op.toNat :: (args ++ words') := by
  obtain ⟨hlt, hget⟩ := List.getElem?_eq_some_iff.mp hi
  have hdrop := linkWords_drop h i
  rw [List.drop_eq_getElem_cons hlt, hget] at hdrop
  obtain ⟨first, hfirst, hdrop⟩ := Option.bind_eq_some_iff.mp hdrop
  obtain ⟨words', hrest, hdrop⟩ := Option.bind_eq_some_iff.mp hdrop
  obtain ⟨hargs, args, hlink, rfl⟩ := linkInstruction_some hfirst
  exact ⟨args, words', hlink, (linkArgs_length hlink).trans hargs.symm, (Option.some.inj hdrop).symm⟩

/-- At the address of an instruction it is fetched, with its linked operands. -/
theorem fetchWords_link {insts : List Instruction} {words : List Word}
    (h : linkWords insts insts = some words) {i : ℕ} {inst : Instruction}
    (hi : insts[i]? = some inst) (hinst : inst.WellFormed insts) :
    ∃ args, linkArgs insts inst = some args ∧
      fetchWords words (codeAddress insts i) =
        some (⟨inst.op, args.take inst.op.fetched⟩, codeAddress insts i + 1 + inst.op.fetched) := by
  obtain ⟨args, words', hlink, hlen, hwords⟩ := linkWords_at h hi
  have hhead : words[codeAddress insts i]? = some (BitVec.ofNat 64 inst.op.toNat) := by
    rw [← List.head?_drop, hwords]
    rfl
  have hword : (BitVec.ofNat 64 inst.op.toNat).toNat = inst.op.toNat :=
    Nat.mod_eq_of_lt hinst.opcode.2
  have hfetched : inst.op.fetched ≤ args.length := by
    rw [hlen]
    by_cases hop : inst.op = .pushVar
    · rw [hop]
      exact Nat.zero_le _
    · exact Nat.le_of_eq (OpCode.fetched_eq hop)
  have htail : (words.drop (codeAddress insts i + 1)).take inst.op.fetched =
      args.take inst.op.fetched := by
    rw [← List.drop_drop, hwords, List.drop_succ_cons, List.drop_zero,
      List.take_append_of_le_length hfetched]
  refine ⟨args, hlink, ?_⟩
  unfold fetchWords
  rw [hhead]
  simp only [Option.bind_eq_bind, Option.bind_some, hword, hinst.opcode.1, htail]
  rw [if_pos (List.length_take_of_le hfetched)]

/-! ## Runs -/

/-- A frame of the linked code for a frame of the instructions. Where an activation that has ended
    stands does not matter. -/
structure Relocated (addr : ℕ → ℕ) (code : Code) (frame' frame : Frame) : Prop where
  eq : frame' = { frame with
    code := code, pc := frame'.pc
    handlerStack := frame.handlerStack.map (fun h => ⟨h.excepVar, addr h.handlerPC⟩) }
  address : frame.running → frame'.pc = addr frame.pc

theorem Relocated.frameRel (addr : ℕ → ℕ) (code : Code) : FrameRel (Relocated addr code) where
  addr h := by rw [h.eq]
  localVars h := by rw [h.eq]
  flags h := by rw [h.eq]
  setFlags h flags := ⟨by rw [h.eq], h.address⟩
  setVars h k v := ⟨by rw [h.eq], h.address⟩
  stop h := ⟨by rw [h.eq], nofun⟩
  handlers := by
    intro f' f h
    have hhandlers : f'.handlerStack = f.handlerStack.map (fun h => ⟨h.excepVar, addr h.handlerPC⟩) := by
      rw [h.eq]
    cases hs : f.handlerStack with
    | nil =>
      rw [hs] at hhandlers
      exact .inl ⟨hhandlers, rfl⟩
    | cons handler handlers =>
      rw [hs] at hhandlers
      exact .inr ⟨_, _, _, _, hhandlers, rfl, ⟨by rw [h.eq], h.address⟩, rfl,
        ⟨by rw [h.eq], fun _ => rfl⟩⟩

section

variable {insts : List Instruction} {localVars : ℕ} {asm : AssembledCode} {E : Env W}
  {exec : Execute W}

theorem link_some (h : link localVars insts = some asm) :
    codeAddress insts insts.length < 2 ^ 31 ∧ linkWords insts insts = some asm.code ∧
      asm.size = codeAddress insts insts.length ∧ asm.localVars = localVars := by
  unfold link at h
  dsimp only at h
  split at h
  · next hsize =>
    obtain ⟨words, hwords, h⟩ := Option.bind_eq_some_iff.mp h
    cases h
    exact ⟨hsize, hwords, rfl, rfl⟩
  · cases h

/-- The linked operands. -/
theorem linkArgs_rel (hsize : codeAddress insts insts.length < 2 ^ 31) {inst : Instruction}
    {args : List Word} (h : linkArgs insts inst = some args) (code : Code) :
    ArgsRel (Relocated (codeAddress insts) code) inst.op args inst.args := by
  unfold linkArgs at h
  split at h
  · next hop =>
    cases h
    exact ⟨fun _ _ => rfl, fun j hj => nomatch hop.symm.trans hj⟩
  · next j hop =>
    obtain ⟨arg, harg, h⟩ := Option.bind_eq_some_iff.mp h
    split at h
    · next hlt =>
      cases h
      have hword : (BitVec.ofNat 64 (codeAddress insts arg.toNat)).toNat =
          codeAddress insts arg.toNat :=
        Nat.mod_eq_of_lt (Nat.lt_trans (codeAddress_lt hlt) (Nat.lt_trans hsize (by decide)))
      refine ⟨?_, ?_⟩
      · intro k hk
        rw [hop] at hk
        exact List.getElem?_set_ne (fun hjk => hk (congrArg some hjk))
      · intro k hk
        obtain rfl : j = k := Option.some.inj (hop.symm.trans hk)
        refine .inr ⟨_, _, List.getElem?_set_self (List.getElem?_eq_some_iff.mp harg).1, harg, ?_, ?_⟩
        · intro f' f hf
          exact ⟨by rw [hf.eq], fun _ => hword⟩
        · intro f' f v hf
          refine ⟨?_, hf.address⟩
          rw [hf.eq, hword]
          rfl
    · cases h

theorem relocated_continues (h : link localVars insts = some asm) {frame frame' : Frame}
    (hcode : frame.code = Code.ofInstructions localVars insts)
    (hframe : Relocated (codeAddress insts) asm.toCode frame' frame) :
    frame'.continues = frame.continues := by
  obtain ⟨-, -, hsize, -⟩ := link_some h
  have hrunning : frame'.running = frame.running := by rw [hframe.eq]
  have hcode' : frame'.code = asm.toCode := by rw [hframe.eq]
  unfold Frame.continues
  rw [hrunning, hcode', hcode]
  cases hrun : frame.running with
  | false => rfl
  | true =>
    have hiff : codeAddress insts frame.pc < asm.size ↔ frame.pc < insts.length := by
      rw [hsize]
      refine ⟨?_, codeAddress_lt⟩
      intro hlt
      by_contra hle
      rw [codeAddress_end (Nat.le_of_not_lt hle)] at hlt
      exact Nat.lt_irrefl _ hlt
    rw [hframe.address hrun]
    show (true && decide (_ < asm.size)) = (true && decide (_ < insts.length))
    rw [decide_eq_decide.mpr hiff]

/-- **One round on the linked code does what a round on the instructions does.** -/
theorem step_link (E : Env W) (exec : Execute W) (h : link localVars insts = some asm)
    (hinsts : ∀ inst ∈ insts, inst.WellFormed insts) (ctx : Context W) {frame frame' : Frame}
    (hframe : Relocated (codeAddress insts) asm.toCode frame' frame)
    (hcode : frame.code = Code.ofInstructions localVars insts) (hcont : frame.continues = true) :
    ResultRel (Relocated (codeAddress insts) asm.toCode) (step E exec ctx frame')
      (step E exec ctx frame) := by
  obtain ⟨hsize, hwords, -, -⟩ := link_some h
  have hR := Relocated.frameRel (codeAddress insts) asm.toCode
  obtain ⟨hrunning, hlt⟩ := Bool.and_eq_true_iff.mp hcont
  have hlt : frame.pc < insts.length := by
    rw [hcode] at hlt
    exact of_decide_eq_true hlt
  have hget := List.getElem?_eq_getElem hlt
  have hinst := hinsts _ (List.getElem_mem hlt)
  obtain ⟨args, hlink, hfetch'⟩ := fetchWords_link hwords hget hinst
  have hcode' : frame'.code = asm.toCode := by rw [hframe.eq]
  have hfetch : frame.code.fetch frame.pc = some (insts[frame.pc], frame.pc + 1) := by
    rw [hcode]
    simp only [Code.ofInstructions, hget, Option.map_some]
  have hfetched : frame'.code.fetch frame'.pc =
      fetchWords asm.code (codeAddress insts frame.pc) := by
    rw [hcode', hframe.address hrunning]
    rfl
  unfold step
  simp only [Option.bind_eq_bind]
  rw [hfetch, hfetched, hfetch', Option.bind_some, Option.bind_some]
  by_cases hop : insts[frame.pc].op = .pushVar
  · -- the operand of the one opcode without a function is not fetched
    simp only [hop, opcodeTable, opcodeInvalid, Option.bind_some]
    refine afterOpcode_rel hR _ ctx ?_
    refine ⟨?_, fun hrun => absurd hrun Bool.false_ne_true⟩
    rw [hframe.eq]
    rfl
  · have hargs : args.take insts[frame.pc].op.fetched = args := by
      rw [OpCode.fetched_eq hop, ← hinst.args, ← linkArgs_length hlink, List.take_length]
    have hnext : codeAddress insts frame.pc + 1 + insts[frame.pc].op.fetched =
        codeAddress insts (frame.pc + 1) := by
      rw [codeAddress_succ hget, OpCode.fetched_eq hop, hinst.args, Nat.add_assoc]
    rw [hargs, hnext]
    have hnextFrame : Relocated (codeAddress insts) asm.toCode
        { frame' with pc := codeAddress insts (frame.pc + 1) } { frame with pc := frame.pc + 1 } :=
      ⟨by rw [hframe.eq], fun _ => rfl⟩
    have hrun := opcodeTable_rel hR E exec (linkArgs_rel hsize hlink asm.toCode) ctx hnextFrame
    revert hrun
    generalize opcodeTable E exec insts[frame.pc].op args ctx
      { frame' with pc := codeAddress insts (frame.pc + 1) } = r'
    generalize opcodeTable E exec insts[frame.pc].op insts[frame.pc].args ctx
      { frame with pc := frame.pc + 1 } = r
    intro hrun
    cases hrun with
    | none => exact .none
    | @some r' r hr =>
      obtain ⟨b', ctx', f'⟩ := r'
      obtain ⟨b, ctx, f⟩ := r
      obtain ⟨rfl, rfl, hf⟩ := hr
      exact afterOpcode_rel hR b' ctx' (hR.failed hf b')

/-- **A run on the linked code is a run on the instructions.** -/
theorem arrives_link (h : link localVars insts = some asm)
    (hinsts : ∀ inst ∈ insts, inst.WellFormed insts) {ctx : Context W} {frame frame' : Frame}
    (hframe : Relocated (codeAddress insts) asm.toCode frame' frame)
    (hcode : frame.code = Code.ofInstructions localVars insts) {s' : Context W × Frame}
    (hrun : Arrives E exec (ctx, frame') s') :
    ∃ g, Arrives E exec (ctx, frame) (s'.1, g) ∧
      Relocated (codeAddress insts) asm.toCode s'.2 g ∧
      g.code = Code.ofInstructions localVars insts := by
  induction hrun with
  | refl => exact ⟨frame, .refl, hframe, hcode⟩
  | @tail s' t' _ hround ih =>
    obtain ⟨g, hg, hrel, hgcode⟩ := ih
    obtain ⟨success, hcont, hstack, hstep⟩ := hround
    have hgcont : g.continues = true := by
      rw [← relocated_continues h hgcode hrel]
      exact hcont
    have hresult := step_link E exec h hinsts s'.1 hrel hgcode hgcont
    rw [hstep] at hresult
    cases hgstep : step E exec s'.1 g with
    | none =>
      rw [hgstep] at hresult
      cases hresult
    | some r =>
      obtain ⟨b, ctx', g'⟩ := r
      rw [hgstep] at hresult
      obtain ⟨-, hctx, hrel'⟩ := hresult
      refine ⟨g', ?_, hrel', (step_same hgstep).code.trans hgcode⟩
      rw [show t'.1 = ctx' from hctx]
      exact hg.tail ⟨b, hgcont, hstack, hgstep⟩

/-- The activation is entered with the same frame. -/
theorem enter_link (E : Env W) (h : link localVars insts = some asm) (thisObj : Word)
    (argCount : ℕ) (ctx : Context W) :
    Option.Rel (fun r' r => r'.1 = r.1 ∧ Relocated (codeAddress insts) asm.toCode r'.2 r.2 ∧
        r.2.code = Code.ofInstructions localVars insts)
      (enter E thisObj asm.toCode argCount ctx)
      (enter E thisObj (Code.ofInstructions localVars insts) argCount ctx) := by
  obtain ⟨-, -, -, hlocals⟩ := link_some h
  have hlocals : asm.toCode.localVars = localVars := hlocals
  unfold enter
  rw [hlocals, show (Code.ofInstructions localVars insts).localVars = localVars from rfl]
  dsimp only
  split
  · exact .none
  · cases bindArgs argCount ((List.replicate localVars Value.zero).set 0 (Value.object thisObj))
        ctx with
    | none => exact .none
    | some r => exact .some ⟨rfl, ⟨rfl, fun _ => rfl⟩, rfl⟩

/-- The result of a run is the same, as the result of `Executor::run` on the instructions. -/
theorem runLoop_link (h : link localVars insts = some asm)
    (hinsts : ∀ inst ∈ insts, inst.WellFormed insts) (fuel : ℕ) (success : Bool) (ctx : Context W)
    {frame frame' : Frame} (hframe : Relocated (codeAddress insts) asm.toCode frame' frame)
    (hcode : frame.code = Code.ofInstructions localVars insts) :
    runLoop E exec fuel success ctx frame' = runLoop E exec fuel success ctx frame := by
  induction fuel generalizing success ctx frame frame' with
  | zero =>
    unfold runLoop
    rw [relocated_continues h hcode hframe]
  | succ fuel ih =>
    cases hcont : frame.continues with
    | false =>
      rw [runLoop_end hcont, runLoop_end ((relocated_continues h hcode hframe).trans hcont)]
    | true =>
      have hcont' := (relocated_continues h hcode hframe).trans hcont
      cases hstack : ctx.checkStack with
      | false => rw [runLoop_overflow hcont hstack, runLoop_overflow hcont' hstack]
      | true =>
        rw [runLoop_succ hcont hstack, runLoop_succ hcont' hstack]
        have hstep := step_link E exec h hinsts ctx hframe hcode hcont
        cases hg : step E exec ctx frame with
        | none =>
          rw [hg] at hstep
          cases hg' : step E exec ctx frame' with
          | none => rfl
          | some r => rw [hg'] at hstep; cases hstep
        | some r =>
          rw [hg] at hstep
          cases hg' : step E exec ctx frame' with
          | none => rw [hg'] at hstep; cases hstep
          | some r' =>
            rw [hg'] at hstep
            obtain ⟨b', ctx', g'⟩ := r'
            obtain ⟨hb, hctx, hrel⟩ := hstep
            obtain ⟨b, ctx₁, g⟩ := r
            obtain rfl : b' = b := hb
            obtain rfl : ctx' = ctx₁ := hctx
            exact ih _ _ hrel ((step_same hg).code.trans hcode)

theorem run_link (h : link localVars insts = some asm)
    (hinsts : ∀ inst ∈ insts, inst.WellFormed insts) (fuel : ℕ) (thisObj : Word) (argCount : ℕ)
    (ctx : Context W) :
    run E exec fuel thisObj asm.toCode argCount ctx =
      run E exec fuel thisObj (Code.ofInstructions localVars insts) argCount ctx := by
  have henter := enter_link E h thisObj argCount ctx
  unfold run
  revert henter
  generalize enter E thisObj asm.toCode argCount ctx = r'
  generalize enter E thisObj (Code.ofInstructions localVars insts) argCount ctx = r
  rintro (⟨hctx, hframe, hcode⟩ | _)
  · dsimp only
    rw [hctx]
    exact runLoop_link h hinsts fuel true _ hframe hcode
  · rfl

end

/-! ## The walk of the disassembler -/

theorem disassemble_link {insts : List Instruction} {localVars : ℕ} {asm : AssembledCode}
    (h : link localVars insts = some asm) (hinsts : ∀ inst ∈ insts, inst.WellFormed insts) (n i : ℕ)
    (hi : i + n = insts.length) :
    disassemble asm.code asm.size (codeAddress insts i) =
      some ((List.range' i n).map (codeAddress insts), asm.size) := by
  obtain ⟨-, hwords, hsize, -⟩ := link_some h
  induction n generalizing i with
  | zero =>
    obtain rfl : i = insts.length := hi
    rw [disassemble, hsize, if_neg (Nat.lt_irrefl _)]
    rfl
  | succ n ih =>
    have hlt : i < insts.length := by omega
    have hget := List.getElem?_eq_getElem hlt
    have hinst := hinsts _ (List.getElem_mem hlt)
    obtain ⟨args, words', -, -, hdrop⟩ := linkWords_at hwords hget
    have hhead : asm.code[codeAddress insts i]? = some (BitVec.ofNat 64 insts[i].op.toNat) := by
      rw [← List.head?_drop, hdrop]
      rfl
    have hword : (BitVec.ofNat 64 insts[i].op.toNat).toNat = insts[i].op.toNat :=
      Nat.mod_eq_of_lt hinst.opcode.2
    have hnext : codeAddress insts i + 1 + insts[i].op.args = codeAddress insts (i + 1) := by
      rw [codeAddress_succ hget, hinst.args, Nat.add_assoc]
    rw [disassemble, if_pos (hsize ▸ codeAddress_lt hlt), hhead]
    simp only [Option.bind_eq_bind, Option.bind_some, hword, hinst.opcode.1, hnext]
    rw [ih (i + 1) (by omega)]
    rfl

/-! ## The words of an instruction -/

/-- The operands of an instruction with the address for the position of an instruction. -/
def Instruction.linkedArgs (insts : List Instruction) (inst : Instruction) : List Word :=
  inst.args.mapIdx (fun j arg =>
    if inst.op.address = some j then BitVec.ofNat 64 (codeAddress insts arg.toNat) else arg)

theorem linkArgs_linkedArgs {insts : List Instruction} {inst : Instruction} {args : List Word}
    (h : linkArgs insts inst = some args) : args = inst.linkedArgs insts := by
  unfold linkArgs at h
  unfold Instruction.linkedArgs
  refine List.ext_getElem? (fun k => ?_)
  rw [List.getElem?_mapIdx]
  split at h
  · next hop =>
    cases h
    rw [hop]
    simp
  · next j hop =>
    obtain ⟨arg, harg, h⟩ := Option.bind_eq_some_iff.mp h
    split at h
    · cases h
      rw [hop]
      by_cases hjk : j = k
      · subst hjk
        rw [List.getElem?_set_self (List.getElem?_eq_some_iff.mp harg).1, harg]
        simp
      · rw [List.getElem?_set_ne hjk]
        simp [hjk]
    · cases h

/-- **The flattened code says what the instructions say.** It is walked by the disassembler from
    instruction to instruction, it has the words of each instruction at its address, and the executor
    fetches at the addresses of instructions only, in the order in which the list prescribes them. -/
theorem link_faithful (localVars : ℕ) {insts : List Instruction}
    (hinsts : ∀ inst ∈ insts, inst.WellFormed insts) :
    (codeAddress insts insts.length < 2 ^ 31 → (link localVars insts).isSome) ∧
    ∀ asm, link localVars insts = some asm →
      asm.size = asm.code.length ∧
      disassemble asm.code asm.size 0 =
        some ((List.range insts.length).map (codeAddress insts), asm.size) ∧
      (∀ i inst, insts[i]? = some inst →
        (asm.code.drop (codeAddress insts i)).take (1 + inst.args.length) =
          BitVec.ofNat 64 inst.op.toNat :: inst.linkedArgs insts) ∧
      ∀ (E : Env W) (exec : Execute W) (thisObj : Word) (argCount : ℕ) (ctx ctx₀ : Context W)
        (frame₀ : Frame), enter E thisObj asm.toCode argCount ctx = some (ctx₀, frame₀) →
        ∃ g₀, enter E thisObj (Code.ofInstructions localVars insts) argCount ctx =
            some (ctx₀, g₀) ∧
          ∀ s, Arrives E exec (ctx₀, frame₀) s →
            ∃ g, Arrives E exec (ctx₀, g₀) (s.1, g) ∧
              Relocated (codeAddress insts) asm.toCode s.2 g ∧
              s.2.continues = g.continues ∧
              (s.2.continues = true →
                g.pc < insts.length ∧ s.2.pc = codeAddress insts g.pc) := by
  refine ⟨link_isSome localVars hinsts, ?_⟩
  · intro asm h
    obtain ⟨-, hwords, hsize, -⟩ := link_some h
    refine ⟨hsize.trans (linkWords_length hwords).symm, ?_, ?_, ?_⟩
    · rw [List.range_eq_range']
      exact disassemble_link h hinsts insts.length 0 (Nat.zero_add _)
    · intro i inst hi
      obtain ⟨args, words', hlink, -, hdrop⟩ := linkWords_at hwords hi
      rw [hdrop, Nat.add_comm 1, List.take_succ_cons, ← linkArgs_length hlink, List.take_left,
        linkArgs_linkedArgs hlink]
    · intro E exec thisObj argCount ctx ctx₀ frame₀ henter
      have hrel := enter_link E h thisObj argCount ctx
      rw [henter] at hrel
      revert hrel
      generalize enter E thisObj (Code.ofInstructions localVars insts) argCount ctx = r
      rintro (⟨rfl, hframe, hcode⟩ | _)
      refine ⟨_, rfl, ?_⟩
      intro s hs
      obtain ⟨g, hg, hgrel, hgcode⟩ := arrives_link h hinsts hframe hcode hs
      have hcont := relocated_continues h hgcode hgrel
      refine ⟨g, hg, hgrel, hcont, ?_⟩
      intro hs
      obtain ⟨hrunning, hlt⟩ := Bool.and_eq_true_iff.mp (hcont.symm.trans hs)
      rw [hgcode] at hlt
      exact ⟨of_decide_eq_true hlt, hgrel.address hrunning⟩

/-- A loop that pushes a number. -/
def pushLoop : List Instruction := [⟨.pushI, [7]⟩, ⟨.jmp, [0]⟩]

theorem link_faithful_pushLoop :
    ∃ asm, link 1 pushLoop = some asm ∧ asm.code = [0x310, 7, 0x700, 0] ∧
      disassemble asm.code asm.size 0 = some ([0, 2], 4) := by
  have hinsts : ∀ inst ∈ pushLoop, inst.WellFormed pushLoop := by
    intro inst hinst
    simp only [pushLoop, List.mem_cons, List.not_mem_nil, or_false] at hinst
    rcases hinst with rfl | rfl
    · exact ⟨by decide, rfl, nofun⟩
    · refine ⟨by decide, rfl, ?_⟩
      rintro j arg hj harg
      obtain rfl : 0 = j := Option.some.inj hj
      obtain rfl : 0 = arg := Option.some.inj harg
      decide
  obtain ⟨hsome, hfaithful⟩ := link_faithful (W := Unit) 1 hinsts
  obtain ⟨asm, h⟩ := Option.isSome_iff_exists.mp (hsome (by decide))
  refine ⟨asm, h, ?_, (hfaithful asm h).2.1.trans ?_⟩
  · cases h
    decide
  · cases h
    decide

end B0rk
