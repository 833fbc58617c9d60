import B0rk.Assembler.Proofs.Constants

set_option autoImplicit false

/-! # Runs with replaced loads

A run is followed together with the position of the instruction that has last written each variable.
Where a variable that the second pass relies on was last written by the `STORE_VAR` that the first pass
has seen last, it holds what the first pass has taken it to hold. -/

namespace B0rk

variable {W : Type} {E : Env W} {exec : Execute W}

/-! ## Who has written a variable -/

/-- The variable that an exception is put into at the end of the round from a state. -/
def caughtVar (E : Env W) (exec : Execute W) (s : Context W × Frame) : Option ℕ := do
  let (inst, next) ← s.2.code.fetch s.2.pc
  let (_, ctx, frame) ← opcodeTable E exec inst.op inst.args s.1 { s.2 with pc := next }
  if ctx.exception then frame.handlerStack.head?.map ExceptionHandler.excepVar else none

/-- The position of the instruction that has last written each variable; `none` before the first write,
    and behind a handler that has put an exception there. -/
abbrev Writers := Word → Option ℕ

/-- The writers after the round from a state. -/
def writersAfter (E : Env W) (exec : Execute W) (code : List Instruction) (s : Context W × Frame)
    (writers : Writers) : Writers := fun v =>
  if caughtVar E exec s = some v.toNat then none
  else if code[s.2.pc]?.bind Instruction.writes = some v then some s.2.pc
  else writers v

/-- A state with the writers of its variables. -/
abbrev TrackedState (W : Type) := (Context W × Frame) × Writers

/-- The `STORE_VAR`s whose values the second pass relies on: that of a variable whose loads it replaces,
    and the last one before a load that such a value is copied from. -/
inductive Relied (code : List Instruction) (vars : List VarInfo) : ℕ → Prop
  | replaced {p : ℕ} {inst : Instruction} {v : Word} {info : VarInfo} {c : Value}
      (hinst : code[p]? = some inst) (hstores : inst.stores = some v)
      (hinfo : vars[v.toNat]? = some info) (hc : info.constant = some c) : Relied code vars p
  | copied {p q p' : ℕ} {inst : Instruction} {v : Word} (h : Relied code vars p)
      (hpush : pushedBy code p = some q) (hinst : code[q]? = some inst) (hloads : inst.loads = some v)
      (hstore : lastStore code q v = some p') : Relied code vars p'

/-- A load that will be replaced finds the value of a `STORE_VAR`: the variable was assigned, and no
    handler has put an exception there since. -/
def LoadsFit (code : List Instruction) (vars : List VarInfo) (s : TrackedState W) : Prop :=
  ∀ inst v info c, code[s.1.2.pc]? = some inst → inst.loads = some v →
    vars[v.toNat]? = some info → info.constant = some c → (s.2 v).isSome

/-- A variable that is copied into one that is relied on was written last by the `STORE_VAR` that is the
    last one in the code before the load. -/
def CopiesFit (code : List Instruction) (vars : List VarInfo) (s : TrackedState W) : Prop :=
  ∀ inst v p p', code[s.1.2.pc]? = some inst → inst.loads = some v → Relied code vars p →
    pushedBy code p = some s.1.2.pc → lastStore code s.1.2.pc v = some p' → s.2 v = some p'

/-- A round that comes to a `STORE_VAR` that is relied on comes from the instruction before it, which
    has pushed the value, and not with a jump. -/
def StoresPushed (code : List Instruction) (vars : List VarInfo) (s t : TrackedState W) : Prop :=
  Relied code vars t.1.2.pc → t.1.2.continues = true →
    pushedBy code t.1.2.pc = some s.1.2.pc ∧ t.1.2.pc = s.1.2.pc + 1

/-- A round of the code before the second pass that the passes have reckoned with. -/
structure TrackedRound (E : Env W) (exec : Execute W) (code : List Instruction) (vars : List VarInfo)
    (s t : TrackedState W) : Prop where
  round : ∃ success, Round E exec s.1 success t.1
  writers : t.2 = writersAfter E exec code s.1 s.2
  loadsFit : LoadsFit code vars s
  copiesFit : CopiesFit code vars s
  storesPushed : StoresPushed code vars s t

section

variable {localVars : ℕ} {code : List Instruction} {vars : List VarInfo} {inst : Instruction}

/-! ## What a round leaves in the variables -/

theorem setVar_some {frame frame' : Frame} {id : ℕ} {v : Value} (h : frame.setVar id v = some frame') :
    id < frame.localVars.length ∧ frame' = { frame with localVars := frame.localVars.set id v } := by
  unfold Frame.setVar at h
  split at h
  · next hlt => exact ⟨hlt, (Option.some.inj h).symm⟩
  · cases h

theorem afterOpcode_var {success b : Bool} {ctx : Context W} {frame : Frame}
    {t : Context W × Frame} {i : ℕ} (h : afterOpcode success ctx frame = some (b, t))
    (hcaught : ctx.exception = true →
      frame.handlerStack.head?.map ExceptionHandler.excepVar ≠ some i) :
    t.2.localVars[i]? = frame.localVars[i]? := by
  have hframe : ∀ success : Bool,
      (if success then frame else { frame with running := false }).localVars = frame.localVars ∧
        (if success then frame else { frame with running := false }).handlerStack =
          frame.handlerStack := by
    intro success
    cases success <;> exact ⟨rfl, rfl⟩
  obtain ⟨hvars, hhandlers⟩ := hframe success
  unfold afterOpcode at h
  dsimp only at h
  split at h
  · next hexc =>
    simp only [Option.bind_eq_bind, Option.bind_eq_some_iff] at h
    obtain ⟨⟨ctx', frame'⟩, hhandle, h⟩ := h
    obtain ⟨-, rfl⟩ := Prod.mk.inj (Option.some.inj h)
    unfold handleException at hhandle
    rw [hhandlers] at hhandle
    split at hhandle
    · simp only [Option.bind_eq_bind, Option.bind_eq_some_iff] at hhandle
      obtain ⟨stack, -, hhandle⟩ := hhandle
      obtain ⟨-, rfl⟩ := Prod.mk.inj (Option.some.inj hhandle)
      exact congrArg (·[i]?) hvars
    · next handler handlers hstack =>
      simp only [Option.bind_eq_bind, Option.bind_eq_some_iff] at hhandle
      obtain ⟨frame'', hset, hhandle⟩ := hhandle
      obtain ⟨-, rfl⟩ := Prod.mk.inj (Option.some.inj hhandle)
      obtain ⟨-, rfl⟩ := setVar_some hset
      have hne : handler.excepVar ≠ i := by
        intro heq
        have hnot := hcaught hexc
        rw [hstack] at hnot
        exact hnot (congrArg some heq)
      dsimp only
      rw [List.getElem?_set_ne hne]
      exact congrArg (·[i]?) hvars
  · obtain ⟨-, rfl⟩ := Prod.mk.inj (Option.some.inj h)
    exact congrArg (·[i]?) hvars

theorem incVar_writes {op : Word → Word → Word} {args : List Word} {ctx ctx' : Context W}
    {frame frame' : Frame} {b : Bool} (h : incVar op args ctx frame = some (b, ctx', frame')) :
    ∃ (w : Word) (value : Value), args[0]? = some w ∧
      frame'.localVars = frame.localVars.set w.toNat value := by
  simp only [incVar, Option.bind_eq_bind, Option.bind_eq_some_iff] at h
  obtain ⟨w, hw, amount, -, v, -, frame₁, hset, h⟩ := h
  obtain ⟨-, -, rfl⟩ : _ ∧ ctx = ctx' ∧ frame₁ = frame' := by simpa using h
  exact ⟨w, _, hw, by rw [(setVar_some hset).2]⟩

/-- An instruction that writes a variable; a `STORE_VAR` takes the value off the stack. -/
theorem opcodeTable_writes {op : OpCode} {args : List Word} {ctx ctx' : Context W}
    {frame frame' : Frame} {b : Bool} (hop : op.writesVar = true)
    (h : opcodeTable E exec op args ctx frame = some (b, ctx', frame')) :
    ∃ (w : Word) (value : Value), args[0]? = some w ∧
      frame'.localVars = frame.localVars.set w.toNat value ∧
      (op = .storeVar → w.toNat < frame.localVars.length ∧ ctx.stack.head? = some value) := by
  cases op with
  | storeVar =>
    replace h : opcodeStoreVar args ctx frame = _ := h
    simp only [opcodeStoreVar, Option.bind_eq_bind, Option.bind_eq_some_iff] at h
    obtain ⟨w, hw, ⟨v, ctx₁⟩, hpop, frame₁, hset, h⟩ := h
    obtain ⟨-, -, rfl⟩ : _ ∧ ctx₁ = ctx' ∧ frame₁ = frame' := by simpa using h
    obtain ⟨hlt, rfl⟩ := setVar_some hset
    refine ⟨w, v, hw, rfl, fun _ => ⟨hlt, ?_⟩⟩
    rw [(Context.pop_some hpop).1]
    rfl
  | incVar =>
    obtain ⟨w, value, hw, hvars⟩ := incVar_writes (show incVar (· + ·) args ctx frame = _ from h)
    exact ⟨w, value, hw, hvars, nofun⟩
  | incVarD =>
    obtain ⟨w, value, hw, hvars⟩ := incVar_writes (show incVar E.double.add args ctx frame = _ from h)
    exact ⟨w, value, hw, hvars, nofun⟩
  | _ => cases hop

/-- A variable that a round neither writes nor catches an exception in. -/
theorem Round.var_kept {success : Bool} {s t : Context W × Frame} {v : Word}
    (h : Round E exec s success t) (hcode : s.2.code = .ofInstructions localVars code)
    (hinst : code[s.2.pc]? = some inst) (hwrites : inst.writes ≠ some v)
    (hcaught : caughtVar E exec s ≠ some v.toNat) :
    t.2.localVars[v.toNat]? = s.2.localVars[v.toNat]? := by
  obtain ⟨inst₁, next, success₁, ctx₁, frame₁, hfetch, hop, hafter⟩ := step_some h.2.2
  have hnot : ctx₁.exception = true →
      frame₁.handlerStack.head?.map ExceptionHandler.excepVar ≠ some v.toNat := by
    intro hexc heq
    refine hcaught ?_
    simp [caughtVar, hfetch, hop, hexc, heq]
  rw [hcode] at hfetch
  obtain ⟨hinst₁, rfl⟩ := ofInstructions_fetch hfetch
  obtain rfl := Option.some.inj (hinst.symm.trans hinst₁)
  rw [afterOpcode_var hafter hnot]
  cases hvar : inst.op.writesVar with
  | false => rw [opcodeTable_localVars hvar hop]
  | true =>
    obtain ⟨w, value, hw, hvars, -⟩ := opcodeTable_writes hvar hop
    have hne : w.toNat ≠ v.toNat := by
      intro heq
      rw [Instruction.writes, if_pos hvar, hw, BitVec.eq_of_toNat_eq heq] at hwrites
      exact hwrites rfl
    rw [hvars, List.getElem?_set_ne hne]

/-- The value that a round stores. -/
theorem Round.var_stored {success : Bool} {s t : Context W × Frame} {v : Word}
    (h : Round E exec s success t) (hcode : s.2.code = .ofInstructions localVars code)
    (hinst : code[s.2.pc]? = some inst) (hstores : inst.stores = some v)
    (hcaught : caughtVar E exec s ≠ some v.toNat) :
    t.2.localVars[v.toNat]? = s.1.stack.head? := by
  obtain ⟨inst₁, next, success₁, ctx₁, frame₁, hfetch, hop, hafter⟩ := step_some h.2.2
  have hnot : ctx₁.exception = true →
      frame₁.handlerStack.head?.map ExceptionHandler.excepVar ≠ some v.toNat := by
    intro hexc heq
    refine hcaught ?_
    simp [caughtVar, hfetch, hop, hexc, heq]
  rw [hcode] at hfetch
  obtain ⟨hinst₁, rfl⟩ := ofInstructions_fetch hfetch
  obtain rfl := Option.some.inj (hinst.symm.trans hinst₁)
  have hstore : inst.op = .storeVar ∧ inst.args[0]? = some v := by
    unfold Instruction.stores at hstores
    split at hstores
    · next hop => exact ⟨hop, hstores⟩
    · cases hstores
  obtain ⟨w, value, hw, hvars, htop⟩ := opcodeTable_writes (by rw [hstore.1]; rfl) hop
  obtain rfl := Option.some.inj (hw.symm.trans hstore.2)
  obtain ⟨hlt, htop⟩ := htop hstore.1
  rw [afterOpcode_var hafter hnot, hvars, htop, List.getElem?_set_self hlt]

/-- A constant that a round pushes. -/
theorem Round.pushConstant {success : Bool} {s t : Context W × Frame} {c : Value}
    (h : Round E exec s success t) (hcode : s.2.code = .ofInstructions localVars code)
    (hinst : code[s.2.pc]? = some inst) (hop : inst.op = .pushI ∨ inst.op = .pushD)
    (hc : pushedConstant inst = some c) (hquiet : Quiet s) (hcont : t.2.continues = true) :
    t.1.stack.head? = some c := by
  have hpush : opcodeTable E exec inst.op inst.args s.1 { s.2 with pc := s.2.pc + 1 } =
      some (true, s.1.push c, { s.2 with pc := s.2.pc + 1 }) := by
    obtain ⟨op, args⟩ := inst
    rcases hop with hop | hop
    · obtain rfl : op = .pushI := hop
      obtain ⟨w, hw, rfl⟩ := Option.map_eq_some_iff.mp hc
      show ((args[0]?).bind _) = _
      rw [show args[0]? = some w from hw]
      rfl
    · obtain rfl : op = .pushD := hop
      obtain ⟨w, hw, rfl⟩ := Option.map_eq_some_iff.mp hc
      show ((args[0]?).bind _) = _
      rw [show args[0]? = some w from hw]
      rfl
  rw [h.pushes hcode hinst hpush hquiet hcont]
  rfl

/-! ## What the passes know holds -/

/-- What holds in every state of a run that the passes have reckoned with. -/
structure Tracked (localVars : ℕ) (code : List Instruction) (vars : List VarInfo)
    (s : TrackedState W) : Prop where
  sameCode : s.1.2.code = .ofInstructions localVars code
  quiet : Quiet s.1
  written : ∀ v p, s.2 v = some p → ∃ inst, code[p]? = some inst ∧ inst.writes = some v
  stored : ∀ v p c, s.2 v = some p → Relied code vars p → Stored code p c →
    s.1.2.localVars[v.toNat]? = some c
  top : s.1.2.continues = true → ∀ c, Relied code vars s.1.2.pc → Stored code s.1.2.pc c →
    s.1.1.stack.head? = some c

theorem Relied.stores {p : ℕ} (h : Relied code vars p) :
    ∃ inst v, code[p]? = some inst ∧ inst.stores = some v := by
  cases h with
  | replaced hinst hstores _ _ => exact ⟨_, _, hinst, hstores⟩
  | copied _ _ _ _ hstore =>
    obtain ⟨-, inst, hinst, hstores⟩ := lastBefore_some hstore
    exact ⟨inst, _, hinst, by simpa using hstores⟩

theorem Tracked.enter {obj : Word} {n : ℕ} {ctx : Context W} {s : Context W × Frame}
    (henter : enter E obj (.ofInstructions localVars code) n ctx = some s) :
    Tracked localVars code vars (s, fun _ => none) := by
  obtain ⟨-, -, -, hpc, hcode, hhandlers, -⟩ := enter_some henter
  refine ⟨hcode, fun _ _ => hhandlers, nofun, nofun, fun _ c hrelied hstored => ?_⟩
  obtain ⟨q, hq, -⟩ := hstored
  rw [hpc] at hq
  cases hq

theorem Tracked.round {s t : TrackedState W} (hs : Tracked localVars code vars s)
    (h : TrackedRound E exec code vars s t) : Tracked localVars code vars t := by
  obtain ⟨success, hr⟩ := h.round
  obtain ⟨inst, hinst⟩ := exists_instruction hs.sameCode hr.1
  obtain ⟨_, _, _, _, _, _, _, hafter⟩ := step_some hr.2.2
  refine ⟨hr.code.trans hs.sameCode, afterOpcode_quiet hafter, fun v p hp => ?_,
    fun v p c hp hrelied hstored => ?_, fun hcont c hrelied hstored => ?_⟩
  · rw [h.writers, writersAfter] at hp
    split at hp
    · cases hp
    · split at hp
      · next hwrites =>
        obtain rfl := Option.some.inj hp
        rw [hinst] at hwrites
        exact ⟨inst, hinst, hwrites⟩
      · exact hs.written v p hp
  · rw [h.writers, writersAfter] at hp
    split at hp
    · cases hp
    · next hcaught =>
      split at hp
      · next hwrites =>
        -- the `STORE_VAR` that is relied on has just been executed
        obtain rfl := Option.some.inj hp
        rw [hinst] at hwrites
        obtain ⟨inst', w, hinst', hstores⟩ := hrelied.stores
        obtain rfl := Option.some.inj (hinst.symm.trans hinst')
        obtain rfl : w = v :=
          Option.some.inj ((Instruction.writes_of_stores hstores).symm.trans hwrites)
        rw [hr.var_stored hs.sameCode hinst hstores hcaught]
        exact hs.top hr.1 c hrelied hstored
      · next hwrites =>
        rw [hinst] at hwrites
        rw [hr.var_kept hs.sameCode hinst hwrites hcaught]
        exact hs.stored v p c hp hrelied hstored
  · -- the instruction before has pushed the value
    obtain ⟨hpush, -⟩ := h.storesPushed hrelied hcont
    obtain ⟨q, hq, hpushed⟩ := hstored
    obtain rfl := Option.some.inj (hpush.symm.trans hq)
    cases hpushed with
    | constant hinst' hop hc =>
      obtain rfl := Option.some.inj (hinst.symm.trans hinst')
      exact hr.pushConstant hs.sameCode hinst hop hc hs.quiet hcont
    | @load _ p r _ v _ hinst' hloads hstore hpush' hpushed =>
      obtain rfl := Option.some.inj (hinst.symm.trans hinst')
      have hwriter := h.copiesFit inst v _ p hinst hloads hrelied hq hstore
      have hvalue := hs.stored v p c hwriter (.copied hrelied hq hinst hloads hstore)
        ⟨r, hpush', hpushed⟩
      obtain ⟨value, hvalue', ht⟩ := hr.loadVar hs.sameCode hinst hloads hs.quiet hcont
      obtain rfl := Option.some.inj (hvalue.symm.trans hvalue')
      rw [ht]
      rfl

theorem Tracked.run {s t : TrackedState W} (hs : Tracked localVars code vars s)
    (hrun : Relation.ReflTransGen (TrackedRound E exec code vars) s t) :
    Tracked localVars code vars t := by
  induction hrun with
  | refl => exact hs
  | tail _ hround ih => exact ih.round hround

/-- A load that has been replaced loads the constant. -/
theorem Tracked.load {argCount : ℕ} {s : TrackedState W} {inferred : InferState} {v : Word}
    {info : VarInfo} {c : Value} (hs : Tracked localVars code vars s)
    (hinferred : Inferred argCount code inferred) (hvars : inferred.vars = vars)
    (hfit : LoadsFit code vars s) (hinst : code[s.1.2.pc]? = some inst) (hloads : inst.loads = some v)
    (hinfo : vars[v.toNat]? = some info) (hc : info.constant = some c) :
    s.1.2.localVars[v.toNat]? = some c := by
  obtain ⟨p, hp⟩ := Option.isSome_iff_exists.mp (hfit inst v info c hinst hloads hinfo hc)
  obtain ⟨q, hstored, ⟨store, hstore, hstores⟩, hunique⟩ := hinferred.constant (hvars ▸ hinfo) hc
  obtain ⟨write, hwrite, hwrites⟩ := hs.written v p hp
  obtain rfl := hunique p write hwrite hwrites
  exact hs.stored v p c hp (.replaced hstore hstores hinfo hc) hstored

theorem pushConstant_sameEffect {v : Word} {info : VarInfo} {c : Value} {ctx : Context W}
    {frame : Frame} (hc : info.constant = some c) (hloads : inst.loads = some v)
    (hvalue : frame.localVars[v.toNat]? = some c) :
    SameEffect E exec (pushConstant c) inst ctx frame := by
  obtain ⟨op, args⟩ := inst
  obtain ⟨hop, hv⟩ := Instruction.loads_some.mp hloads
  obtain rfl : op = .loadVar := hop
  have hload : opcodeLoadVar args ctx frame = some (true, ctx.push c, frame) := by
    have hv : args[0]? = some v := hv
    simp [opcodeLoadVar, hv, hvalue]
  have hpush : opcodeTable E exec (pushConstant c).op (pushConstant c).args ctx frame =
      some (true, ctx.push c, frame) := by
    rcases (VarInfo.constant_some hc).2.2 with ⟨-, rfl⟩ | ⟨-, rfl⟩
    · rfl
    · rfl
  exact hpush.trans hload.symm

/-- **Constant propagation.** In every state of a run in which the copies and the replaced loads find
    the values of the last `STORE_VAR`s, a replaced load loads its constant; so the run is a run of the
    replaced code too, with the same result. -/
theorem replaceLoads_sameValues {argCount : ℕ} {insts code' : List Instruction}
    {vars' : List VarInfo} {obj : Word} {n : ℕ} {ctx : Context W} {s : Context W × Frame}
    {t : TrackedState W} (hinfer : inferTypes insts (.initial localVars argCount) = some (code, vars))
    (hreplace : replaceLoads code vars = some (code', vars'))
    (henter : enter E obj (.ofInstructions localVars code) n ctx = some s)
    (hrun : Relation.ReflTransGen (TrackedRound E exec code vars) (s, fun _ => none) t)
    (hfit : LoadsFit code vars t) :
    (∀ inst inst', code[t.1.2.pc]? = some inst → code'[t.1.2.pc]? = some inst' → inst' ≠ inst →
      ∃ v c, inst.loads = some v ∧ inst' = pushConstant c ∧
        t.1.2.localVars[v.toNat]? = some c) ∧
      Arrives E exec (recoded (.ofInstructions localVars code') s)
        (recoded (.ofInstructions localVars code') t.1) ∧
      (t.1.2.continues = false → ∀ fuel,
        run E exec fuel obj (.ofInstructions localVars code') n ctx =
          run E exec fuel obj (.ofInstructions localVars code) n ctx) := by
  obtain ⟨inferred, hvars, hinferred⟩ := (Inferred.initial localVars).run hinfer
  rw [List.nil_append] at hinferred
  obtain ⟨hlen, hreplaced⟩ := replaceLoads_replaced hreplace
  have hstart : Tracked localVars code vars (s, fun _ => none) := Tracked.enter henter
  have hload {u : TrackedState W} (hu : Tracked localVars code vars u) (hfit : LoadsFit code vars u)
      {inst inst' : Instruction} (hinst : code[u.1.2.pc]? = some inst)
      (hinst' : code'[u.1.2.pc]? = some inst') : inst' = inst ∨ ∃ (v : Word) (info : VarInfo) (c : Value),
        inst.loads = some v ∧ info.constant = some c ∧ inst' = pushConstant c ∧ u.1.2.localVars[v.toNat]? = some c := by
    cases hreplaced _ inst inst' hinst hinst' with
    | same => exact .inl rfl
    | constant hloads hinfo hc =>
      exact .inr ⟨_, _, _, hloads, hc, rfl,
        hu.load hinferred hvars hfit hinst hloads hinfo hc⟩
  have hsame (u v : TrackedState W)
      (hsu : Relation.ReflTransGen (TrackedRound E exec code vars) (s, fun _ => none) u)
      (huv : TrackedRound E exec code vars u v) : SameRound E exec code' code u.1 := by
    intro inst inst' hinst hinst'
    rcases hload (hstart.run hsu) huv.loadsFit hinst hinst' with rfl | ⟨w, info, c, hloads, hc, rfl, hvalue⟩
    · rfl
    · exact pushConstant_sameEffect hc hloads hvalue
  refine ⟨fun inst inst' hinst hinst' hne => ?_, ?_, fun hend fuel => ?_⟩
  · rcases hload (hstart.run hrun) hfit hinst hinst' with rfl | ⟨v, _, c, hloads, _, hc, hvalue⟩
    · exact absurd rfl hne
    · exact ⟨v, c, hloads, hc, hvalue⟩
  · exact (arrives_recode Prod.fst (fun _ _ h => h.round) hlen hstart.sameCode hsame hrun).2
  · exact run_recode Prod.fst (fun _ _ h => h.round) hlen henter hsame hrun hend fuel

end

/-! ## A variable that is stored once -/

/-- The states of a run of `var x = 2; return x * x;` up to the first load. -/
def squareTypedState (pc : ℕ) (x : Value) (operands : List Value) : Context Unit × Frame :=
  recoded (.ofInstructions 2 squareTyped) (squareState pc x operands)

theorem squareTyped_constant :
    ∃ vars, inferTypes squareCode (.initial 2 0) = some (squareTyped, vars) ∧
      ∃ vars', replaceLoads squareTyped vars = some
        ([⟨.pushI, [2]⟩, ⟨.storeVar, [1]⟩, ⟨.pushI, [2]⟩, ⟨.dup, []⟩, ⟨.mulI, []⟩, ⟨.ret, []⟩],
          vars') := ⟨_, rfl, _, rfl⟩

theorem squareTyped_sameValues :
    ∃ c, ⟨.pushI, [2]⟩ = pushConstant c ∧
      (squareTypedState 2 (Value.integer 2) []).2.localVars[1]? = some c := by
  obtain ⟨vars, hinfer, vars', hreplace⟩ := squareTyped_constant
  have henter : enter exceptionEnv 0 (.ofInstructions 2 squareTyped) 0
      (⟨[], false, Value.zero, ()⟩ : Context Unit) = some (squareTypedState 0 Value.zero []) := rfl
  have hnoload {s : TrackedState Unit} {inst : Instruction} (hinst : squareTyped[s.1.2.pc]? = some inst)
      (hloads : inst.loads = none) : LoadsFit squareTyped vars s ∧ CopiesFit squareTyped vars s := by
    refine ⟨fun inst' v _ _ hinst' hloads' => ?_, fun inst' v _ _ hinst' hloads' => ?_⟩
    · obtain rfl := Option.some.inj (hinst.symm.trans hinst')
      cases hloads.symm.trans hloads'
    · obtain rfl := Option.some.inj (hinst.symm.trans hinst')
      cases hloads.symm.trans hloads'
  obtain ⟨w₁, hw₁⟩ : ∃ w, w = writersAfter exceptionEnv (execute exceptionEnv 0) squareTyped
      (squareTypedState 0 Value.zero []) (fun _ => none) := ⟨_, rfl⟩
  obtain ⟨w₂, hw₂⟩ : ∃ w, w = writersAfter exceptionEnv (execute exceptionEnv 0) squareTyped
      (squareTypedState 1 Value.zero [Value.integer 2]) w₁ := ⟨_, rfl⟩
  have hpush : TrackedRound exceptionEnv (execute exceptionEnv 0) squareTyped vars
      (squareTypedState 0 Value.zero [], fun _ => none)
      (squareTypedState 1 Value.zero [Value.integer 2], w₁) := by
    obtain ⟨hloads, hcopies⟩ := hnoload (s := (squareTypedState 0 Value.zero [], fun _ => none)) rfl rfl
    exact ⟨⟨true, rfl, rfl, rfl⟩, hw₁, hloads, hcopies, fun _ _ => ⟨rfl, rfl⟩⟩
  have hstore : TrackedRound exceptionEnv (execute exceptionEnv 0) squareTyped vars
      (squareTypedState 1 Value.zero [Value.integer 2], w₁)
      (squareTypedState 2 (Value.integer 2) [], w₂) := by
    obtain ⟨hloads, hcopies⟩ := hnoload (s := (squareTypedState 1 Value.zero [Value.integer 2], w₁))
      rfl rfl
    refine ⟨⟨true, rfl, rfl, rfl⟩, hw₂, hloads, hcopies, fun hrelied _ => ?_⟩
    obtain ⟨inst, v, hinst, hstores⟩ := hrelied.stores
    obtain rfl : ⟨.loadVar, [1]⟩ = inst := Option.some.inj hinst
    cases hstores
  have hfit : LoadsFit squareTyped vars (squareTypedState 2 (Value.integer 2) [], w₂) := by
    intro inst v info c hinst hloads _ _
    obtain rfl : ⟨.loadVar, [1]⟩ = inst := Option.some.inj hinst
    obtain rfl : 1 = v := Option.some.inj hloads
    rw [hw₂]
    rfl
  obtain ⟨hload, -, -⟩ := replaceLoads_sameValues hinfer hreplace henter
    (.tail (.single hpush) hstore) hfit
  obtain ⟨v, c, hloads, hc, hvalue⟩ := hload ⟨.loadVar, [1]⟩ ⟨.pushI, [2]⟩ rfl rfl (by decide)
  obtain rfl : 1 = v := Option.some.inj hloads
  exact ⟨c, hc, hvalue⟩

/-! ## A copy of a variable that is stored twice -/

/-- `var x = 1; if (p) { x = 2; } var y = x; return y;` -/
def copiedBlock : CodeBlock :=
  .mk true 4 4 [] [.oper .unknown .set (some (.var .unknown 0 "x")) (some (.integer .integer 2))]

def copied : CodeBlock :=
  .mk true 2 4 ["x", "y"] [
    .oper .unknown .set (some (.var .unknown 0 "x")) (some (.integer .integer 1)),
    .ifExpr (.var .unknown 0 "p") copiedBlock none,
    .oper .unknown .set (some (.var .unknown 0 "y")) (some (.var .unknown 0 "x")),
    .returnExpr (some (.var .unknown 0 "y"))]

def copiedEnv : AsmEnv :=
  { clazz := none, args := ["p"], chain := fun _ => none, getStatic := fun _ => false
    findClass := fun _ => 0, newString := fun _ => 0 }

def copiedCode (y : Instruction) : List Instruction :=
  [⟨.pushI, [1]⟩, ⟨.storeVar, [2]⟩, ⟨.loadVar, [1]⟩, ⟨.pushI, [0]⟩, ⟨.cmpI, []⟩, ⟨.bEq, [8]⟩,
    ⟨.pushI, [2]⟩, ⟨.storeVar, [2]⟩, ⟨.loadVar, [2]⟩, ⟨.storeVar, [3]⟩, y, ⟨.ret, []⟩,
    ⟨.pushI, [0]⟩, ⟨.ret, []⟩]

/-- The value that a call with `0` for `p` returns. -/
def copiedResult (y : Instruction) : Option (Bool × List Value) :=
  (run exceptionEnv (execute exceptionEnv 0) 20 0 (.ofInstructions 5 (copiedCode y)) 1
    ⟨[Value.integer 0], false, Value.zero, ()⟩).map (fun r => (r.1, r.2.stack))

theorem copied_assembles :
    (assembleFunction copiedEnv copied).Ok [] () (copiedCode ⟨.loadVar, [3]⟩) := by
  have hx : store copiedEnv [copied] "x" none = pushInstruction .storeVar [2] := rfl
  have hx' : store copiedEnv [copiedBlock, copied] "x" none = pushInstruction .storeVar [2] := rfl
  have hy : store copiedEnv [copied] "y" none = pushInstruction .storeVar [3] := rfl
  have hp : load copiedEnv [copied] 0#64 "p" none = pushInstruction .loadVar [1] := rfl
  have hloadX : load copiedEnv [copied] 0#64 "x" none = pushInstruction .loadVar [2] := rfl
  have hloadY : load copiedEnv [copied] 0#64 "y" none = pushInstruction .loadVar [3] := rfl
  have hset (code : List Instruction) : (assembleExpression copiedEnv
      (.oper .unknown .set (some (.var .unknown 0 "x")) (some (.integer .integer 1))) [copied] none
        false false).Ok code () (code ++ [⟨.pushI, [1]⟩] ++ [⟨.storeVar, [2]⟩]) := by
    simp [assembleExpression, assembleDest, pushIf, hx, pushInstruction_ok]
  have hset' (code : List Instruction) : (assembleExpression copiedEnv
      (.oper .unknown .set (some (.var .unknown 0 "x")) (some (.integer .integer 2)))
        [copiedBlock, copied] none false false).Ok code ()
        (code ++ [⟨.pushI, [2]⟩] ++ [⟨.storeVar, [2]⟩]) := by
    simp [assembleExpression, assembleDest, pushIf, hx', pushInstruction_ok]
  have hcopy (code : List Instruction) : (assembleExpression copiedEnv
      (.oper .unknown .set (some (.var .unknown 0 "y")) (some (.var .unknown 0 "x"))) [copied] none
        false false).Ok code () (code ++ [⟨.loadVar, [2]⟩] ++ [⟨.storeVar, [3]⟩]) := by
    simp [assembleExpression, assembleDest, pushIf, hloadX, hy, pushInstruction_ok]
  have hreturn (code : List Instruction) : (assembleExpression copiedEnv
      (.returnExpr (some (.var .unknown 0 "y"))) [copied] none false false).Ok code ()
        (code ++ [⟨.loadVar, [3]⟩] ++ [⟨.ret, []⟩]) := by
    simp [assembleExpression, hloadY, pushInstruction_ok]
  have htest : (do assembleExpression copiedEnv (.var .unknown 0 "p") [copied] none false true
                   finishTest : Asm Unit).Ok [⟨.pushI, [1]⟩, ⟨.storeVar, [2]⟩] ()
      ([⟨.pushI, [1]⟩, ⟨.storeVar, [2]⟩, ⟨.loadVar, [1]⟩, ⟨.pushI, [0]⟩, ⟨.cmpI, []⟩] ++
        [⟨.bEq, [0]⟩]) := by
    have hload : (assembleExpression copiedEnv (.var .unknown 0 "p") [copied] none false true).Ok
        [⟨.pushI, [1]⟩, ⟨.storeVar, [2]⟩] () ([⟨.pushI, [1]⟩, ⟨.storeVar, [2]⟩] ++
          [⟨.loadVar, [1]⟩]) := by
      simp [assembleExpression, hp, pushInstruction_ok]
    exact hload.bind (finishTest_plain _ (by decide))
  have hblock (code : List Instruction) : (assembleBlock copiedEnv copiedBlock [copied]).Ok code ()
      (code ++ [⟨.pushI, [2]⟩, ⟨.storeVar, [2]⟩]) := by
    unfold copiedBlock assembleBlock assembleStatements
    exact (hset' _).bind (by simp [assembleStatements])
  have hif := assembleIf_run none false false htest (hblock _)
  have hbody : (assembleBlock copiedEnv copied []).Ok [] ()
      ((copiedCode ⟨.loadVar, [3]⟩).take 12) := by
    unfold copied assembleBlock assembleStatements
    refine (hset []).bind ?_
    unfold assembleStatements
    refine hif.bind ?_
    unfold assembleStatements
    refine (hcopy _).bind ?_
    unfold assembleStatements
    refine (hreturn _).bind ?_
    rfl
  unfold assembleFunction
  exact hbody.bind ((pushInstruction_run _ _ _).bind (pushInstruction_run _ _ _))

/-- `y` is taken to be `2`, which the `STORE_VAR` that is skipped stores into `x`. -/
theorem copied_replaced :
    (assembleFunction copiedEnv copied).Ok [] () (copiedCode ⟨.loadVar, [3]⟩) ∧
      (inferTypes (copiedCode ⟨.loadVar, [3]⟩) (.initial 5 1)).map Prod.fst =
        some (copiedCode ⟨.loadVar, [3]⟩) ∧
      (optimiseLoads 5 1 (copiedCode ⟨.loadVar, [3]⟩)).map Prod.fst =
        some (copiedCode ⟨.pushI, [2]⟩) ∧
      copiedResult ⟨.loadVar, [3]⟩ = some (true, [Value.integer 1]) ∧
      copiedResult ⟨.pushI, [2]⟩ = some (true, [Value.integer 2]) :=
  ⟨copied_assembles, by decide, by decide, by decide +kernel, by decide +kernel⟩

end B0rk
