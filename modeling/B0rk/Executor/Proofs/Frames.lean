import B0rk.Executor.Proofs.Basic

set_option autoImplicit false

/-! # What opcode functions do to frames

An opcode function sees little of its frame and changes little of it. `FrameRel` lists what a relation
between frames must be kept by, so that all opcode functions keep it; taken between a frame and itself
it is an invariant of frames. -/

namespace B0rk

variable {W : Type}

/-- What a relation between frames has to allow, the writing of variables apart. -/
structure ControlRel (R : Frame → Frame → Prop) : Prop where
  addr : ∀ {f' f}, R f' f → f'.addr = f.addr
  localVars : ∀ {f' f}, R f' f → f'.localVars = f.localVars
  flags : ∀ {f' f}, R f' f → f'.flags = f.flags
  setFlags : ∀ {f' f}, R f' f → ∀ flags, R { f' with flags := flags } { f with flags := flags }
  stop : ∀ {f' f}, R f' f → R { f' with running := false } { f with running := false }
  /-- what the handlers look like, when one is dropped and when it is gone to -/
  handlers : ∀ {f' f}, R f' f → (f'.handlerStack = [] ∧ f.handlerStack = []) ∨
    ∃ h' hs' h hs, f'.handlerStack = h' :: hs' ∧ f.handlerStack = h :: hs ∧
      R { f' with handlerStack := hs' } { f with handlerStack := hs } ∧ h'.excepVar = h.excepVar ∧
      R { f' with handlerStack := hs', pc := h'.handlerPC }
        { f with handlerStack := hs, pc := h.handlerPC }

/-- The relation stays when the same variable is written on both sides. -/
def SetVars (R : Frame → Frame → Prop) : Prop :=
  ∀ {f' f}, R f' f → ∀ k v, R { f' with localVars := f.localVars.set k v }
    { f with localVars := f.localVars.set k v }

/-- What a relation between frames has to allow. -/
structure FrameRel (R : Frame → Frame → Prop) : Prop extends ControlRel R where
  setVars : SetVars R

/-- The instructions that write a variable. -/
def OpCode.writesVar : OpCode → Bool
  | .storeVar | .incVar | .incVarD => true
  | _ => false

/-- The outcomes of opcode functions with related frames. -/
abbrev ResultRel (R : Frame → Frame → Prop) :
    Option (Bool × Context W × Frame) → Option (Bool × Context W × Frame) → Prop :=
  Option.Rel (fun r' r => r'.1 = r.1 ∧ r'.2.1 = r.2.1 ∧ R r'.2.2 r.2.2)

/-- A function of the frame that keeps the relation. -/
def Follows (R : Frame → Frame → Prop) (k : Frame → Option (Bool × Context W × Frame)) : Prop :=
  ∀ f' f, R f' f → ResultRel R (k f') (k f)

/-- The operands of an instruction, where those that are positions are related by what a jump to them
    does. -/
def ArgsRel (R : Frame → Frame → Prop) (op : OpCode) (args' args : List Word) : Prop :=
  (∀ k, op.address ≠ some k → args'[k]? = args[k]?) ∧
  ∀ j, op.address = some j → (args'[j]? = none ∧ args[j]? = none) ∨
    ∃ d' d, args'[j]? = some d' ∧ args[j]? = some d ∧
      (∀ f' f, R f' f → R { f' with pc := d'.toNat } { f with pc := d.toNat }) ∧
      ∀ f' f v, R f' f → R { f' with handlerStack := ⟨v, d'.toNat⟩ :: f'.handlerStack }
        { f with handlerStack := ⟨v, d.toNat⟩ :: f.handlerStack }

section

variable {R : Frame → Frame → Prop}

theorem Follows.bind {α : Type} (x : Option α) {k : α → Frame → Option (Bool × Context W × Frame)}
    (h : ∀ a, Follows R (k a)) : Follows R (fun frame => x >>= fun a => k a frame) := by
  intro f' f hR
  cases x with
  | none => exact .none
  | some a => exact h a f' f hR

theorem Follows.bindVars {α : Type} (hR : ControlRel R) (x : List Value → Option α)
    {k : α → Frame → Option (Bool × Context W × Frame)} (h : ∀ a, Follows R (k a)) :
    Follows R (fun frame => x frame.localVars >>= fun a => k a frame) := by
  intro f' f hf
  dsimp only
  rw [hR.localVars hf]
  exact Follows.bind (x f.localVars) h f' f hf

theorem Follows.result (b : Bool) (ctx : Context W) :
    Follows R (fun frame => some (b, ctx, frame)) := fun _ _ h => .some ⟨rfl, rfl, h⟩

theorem Follows.ite {p : Prop} [Decidable p] {f g : Frame → Option (Bool × Context W × Frame)}
    (hf : Follows R f) (hg : Follows R g) : Follows R (fun frame => if p then f frame else g frame) := by
  intro f' f h
  dsimp only
  split
  · exact hf f' f h
  · exact hg f' f h

theorem Follows.flags (hR : ControlRel R) (b : Bool) (ctx : Context W) (flags : Flags) :
    Follows R (fun frame => some (b, ctx, { frame with flags := flags })) :=
  fun _ _ h => .some ⟨rfl, rfl, hR.setFlags h flags⟩

theorem Follows.setVar (hR : ControlRel R) (hset : SetVars R) (b : Bool) (ctx : Context W)
    (varId : ℕ) (v : Value) :
    Follows R (fun frame => do
      let frame ← frame.setVar varId v
      some (b, ctx, frame)) := by
  intro f' f h
  dsimp only [Frame.setVar]
  rw [hR.localVars h]
  by_cases hvar : varId < f.localVars.length
  · rw [if_pos hvar, if_pos hvar]
    exact .some ⟨rfl, rfl, hset h varId v⟩
  · rw [if_neg hvar, if_neg hvar]
    exact .none

/-- The instructions without positions among their operands. -/
theorem opcodeTable_follows (hR : ControlRel R) (E : Env W) (exec : Execute W) {op : OpCode}
    (hset : op.writesVar = true → SetVars R) (h : op.address = none) (args : List Word) (ctx : Context W) :
    Follows R (opcodeTable E exec op args ctx) := by
  have arith (name : String) (intOp : Word → Word → Option Word) (doubleOp : Word → Word → Word) :
      Follows R (arithmetic E exec name intOp doubleOp args ctx) := by
    refine .bind _ fun _ => .ite (.bind _ fun _ => .result _ _) (.bind _ fun _ => .ite ?_ ?_)
    · exact .result _ _
    · exact .bind _ fun _ => .result _ _
  have typed (type : ValueType) (op : Word → Word → Option Word) :
      Follows R (typedArithmetic type op args ctx) :=
    .bind _ fun _ => .bind _ fun _ => .bind _ fun _ => .result _ _
  have push (type : ValueType) : Follows R (pushOperand type args ctx) :=
    .bind _ fun _ => .result _ _
  have cond (cond : Flags → Bool) : Follows R (pushCondition cond args ctx) := by
    intro f' f h
    rw [pushCondition, hR.flags h]
    exact .some ⟨rfl, rfl, h⟩
  have inc (hset : SetVars R) (op : Word → Word → Word) : Follows R (incVar op args ctx) :=
    .bind _ fun varId => .bind _ fun _ =>
      .bindVars hR (fun localVars => localVars[varId.toNat]?) fun _ => .setVar hR hset _ _ _ _
  have call (target : CallTarget W) : Follows R (callFunction exec target args ctx) := by
    refine .bind _ fun r => ?_
    rcases r with ⟨ctx, _ | ⟨function, obj, count⟩⟩
    · exact .result _ _
    · exact .bind _ fun _ => .result _ _
  cases op with
  | loadVar =>
    exact .bind _ fun varId => .bindVars hR (fun localVars => localVars[varId.toNat]?) fun _ =>
      .result _ _
  | storeVar => exact .bind _ fun _ => .bind _ fun _ => .setVar hR (hset rfl) _ _ _ _
  | loadField => exact .bind _ fun _ => .bind _ fun _ => .bind _ fun _ => .result _ _
  | storeField =>
    exact .bind _ fun _ => .bind _ fun _ => .bind _ fun _ =>
      .ite (.result _ _) (.bind _ fun _ => .result _ _)
  | loadFieldNamed =>
    refine .bind _ fun _ => .bind _ fun _ => .bind _ fun _ => .ite (.bind _ fun id => ?_) ?_
    · cases id with
      | none => exact .result _ _
      | some id => exact .bind _ fun _ => .result _ _
    · exact .result _ _
  | storeFieldNamed =>
    refine .bind _ fun _ => .bind _ fun _ => .bind _ fun _ => .bind _ fun _ =>
      .ite (.bind _ fun id => ?_) ?_
    · cases id with
      | none => exact .result _ _
      | some id => exact .bind _ fun _ => .result _ _
    · exact .result _ _
  | loadStaticField => exact .bind _ fun _ => .bind _ fun _ => .bind _ fun _ => .result _ _
  | storeStaticField =>
    exact .bind _ fun _ => .bind _ fun _ => .bind _ fun _ => .bind _ fun _ => .result _ _
  | loadArray =>
    exact .bind _ fun _ => .bind _ fun _ => .ite (.bind _ fun _ => .result _ _) (.result _ _)
  | storeArray =>
    exact .bind _ fun _ => .bind _ fun _ => .bind _ fun _ =>
      .ite (.bind _ fun _ => .result _ _) (.result _ _)
  | incVar | incVarD => exact inc (hset rfl) _
  | pushI | pushD | pushObj => exact push _
  | dup => exact .bind _ fun _ => .result _ _
  | swap => exact .bind _ fun _ => .bind _ fun _ => .result _ _
  | pop => exact .bind _ fun _ => .result _ _
  | add => exact arith "operator+" (fun a b => some (a + b)) E.double.add
  | sub => exact arith "operator-" (fun a b => some (a - b)) E.double.sub
  | mul => exact arith "operator*" (fun a b => some (a * b)) E.double.mul
  | div => exact arith "operator/" sdiv? E.double.div
  | addI => exact typed .integer (fun a b => some (a + b))
  | subI => exact typed .integer (fun a b => some (a - b))
  | mulI => exact typed .integer (fun a b => some (a * b))
  | divI => exact typed .integer sdiv?
  | addD => exact typed .double (fun a b => some (E.double.add a b))
  | subD => exact typed .double (fun a b => some (E.double.sub a b))
  | mulD => exact typed .double (fun a b => some (E.double.mul a b))
  | divD => exact typed .double (fun a b => some (E.double.div a b))
  | and | andI => exact .bind _ fun _ => .bind _ fun _ => .result _ _
  | not | notI => exact .bind _ fun _ => .result _ _
  | pushCE => exact cond (fun f => f.zero)
  | pushCNE => exact cond (fun f => !f.zero)
  | pushCL => exact cond (fun f => f.sign != f.overflow)
  | pushCLE => exact cond (fun f => f.zero || f.sign != f.overflow)
  | pushCG => exact cond (fun f => !f.zero && f.sign == f.overflow)
  | pushCGE => exact cond (fun f => f.sign == f.overflow)
  | call | callStatic | callNamed | callObj => exact call _
  | new =>
    exact .bind _ fun _ => .bind _ fun _ => .bind _ fun _ => .ite (.result _ _) (.result _ _)
  | newFunction => exact .bind _ fun _ => .bind _ fun _ => .result _ _
  | ret =>
    refine .bind _ fun result => .bind _ fun check => ?_
    intro f' f h
    show ResultRel R (if _ ∨ _ ≠ f'.addr then _ else _) (if _ ∨ _ ≠ f.addr then _ else _)
    by_cases hcheck : check.1.type ≠ .frame ∨ check.1.bits ≠ f.addr
    · have hcheck' : check.1.type ≠ .frame ∨ check.1.bits ≠ f'.addr := by rwa [hR.addr h]
      rw [if_pos hcheck, if_pos hcheck']
      exact .some ⟨rfl, rfl, h⟩
    · have hcheck' : ¬(check.1.type ≠ .frame ∨ check.1.bits ≠ f'.addr) := by rwa [hR.addr h]
      rw [if_neg hcheck, if_neg hcheck']
      exact .some ⟨rfl, rfl, hR.stop h⟩
  | cmp =>
    refine .bind _ fun _ => .ite (.bind _ fun _ => .flags hR _ _ _) (.ite ?_ (.result _ _))
    refine .bind _ fun _ => .ite (.bind _ fun _ => .flags hR _ _ _) (.result _ _)
  | cmpI | cmpD => exact .bind _ fun _ => .bind _ fun _ => .flags hR _ _ _
  | throw => exact .bind _ fun _ => .bind _ fun _ => .result _ _
  | popTry =>
    intro f' f h
    rw [opcodeTable, opcodePopHandler, opcodePopHandler]
    rcases hR.handlers h with ⟨h', h⟩ | ⟨_, _, _, _, h', h, hpop, -⟩
    · rw [h', h]
      exact .none
    · rw [h', h]
      exact .some ⟨rfl, rfl, hpop⟩
  | nop | pushVar | other => exact .result _ _
  | jmp | bEq | bNE | bL | bLE | bG | bGE | pushTry => cases h

/-- An opcode function keeps a relation between frames, where it does not write a variable or the
    relation allows that. -/
theorem opcodeTable_controlRel (hR : ControlRel R) (E : Env W) (exec : Execute W) {op : OpCode}
    (hset : op.writesVar = true → SetVars R) {args' args : List Word}
    (hargs : ArgsRel R op args' args) (ctx : Context W) {f' f : Frame} (h : R f' f) :
    ResultRel R (opcodeTable E exec op args' ctx f') (opcodeTable E exec op args ctx f) := by
  have hjump (cond : Flags → Bool) (hop : op.address = some 0) :
      ResultRel R (branch cond args' ctx f') (branch cond args ctx f) := by
    unfold branch
    rcases hargs.2 0 hop with ⟨hd', hd⟩ | ⟨d', d, hd', hd, hpc, -⟩
    · rw [hd', hd]
      exact .none
    · rw [hd', hd]
      refine .some ⟨rfl, rfl, ?_⟩
      have hflags : cond f'.flags = cond f.flags := by rw [hR.flags h]
      dsimp only
      by_cases hcond : cond f.flags
      · rw [if_pos hcond, if_pos (hflags.trans hcond)]
        exact hpc f' f h
      · rw [if_neg hcond, if_neg (hflags ▸ hcond)]
        exact h
  cases haddr : op.address with
  | none =>
    have : args' = args := List.ext_getElem? (fun k => hargs.1 k (haddr ▸ nofun))
    rw [this]
    exact opcodeTable_follows hR E exec hset haddr args ctx f' f h
  | some j =>
    cases op with
    | jmp => exact hjump (fun _ => true) rfl
    | bEq => exact hjump (fun f => f.zero) rfl
    | bNE => exact hjump (fun f => !f.zero) rfl
    | bL => exact hjump (fun f => f.sign != f.overflow) rfl
    | bLE => exact hjump (fun f => !f.zero || f.sign == f.overflow) rfl
    | bG => exact hjump (fun f => !f.zero && f.sign == f.overflow) rfl
    | bGE => exact hjump (fun f => f.sign == f.overflow) rfl
    | pushTry =>
      have hvar := hargs.1 0 (by decide)
      show ResultRel R (opcodePushHandler args' ctx f') (opcodePushHandler args ctx f)
      unfold opcodePushHandler
      rw [hvar]
      rcases hargs.2 1 rfl with ⟨hd', hd⟩ | ⟨d', d, hd', hd, -, hpush⟩
      · rw [hd', hd]
        cases args[0]? <;> exact .none
      · rw [hd', hd]
        cases args[0]? with
        | none => exact .none
        | some v => exact .some ⟨rfl, rfl, hpush f' f v.toNat h⟩
    | _ => cases haddr

/-- **All opcode functions keep a relation between frames.** -/
theorem opcodeTable_rel (hR : FrameRel R) (E : Env W) (exec : Execute W) {op : OpCode}
    {args' args : List Word} (hargs : ArgsRel R op args' args) (ctx : Context W) {f' f : Frame}
    (h : R f' f) :
    ResultRel R (opcodeTable E exec op args' ctx f') (opcodeTable E exec op args ctx f) :=
  opcodeTable_controlRel hR.toControlRel E exec (fun _ => hR.setVars) hargs ctx h

theorem handleException_rel (hR : FrameRel R) (ctx : Context W) {f' f : Frame} (h : R f' f) :
    Option.Rel (fun r' r => r'.1 = r.1 ∧ R r'.2 r.2) (handleException ctx f')
      (handleException ctx f) := by
  unfold handleException
  rcases hR.handlers h with ⟨h', hnil⟩ | ⟨_, _, _, _, h', hcons, -, hvar, hgoto⟩
  · have hstop := hR.stop h
    rw [h', hnil] at hstop ⊢
    cases popToFrame ctx.stack with
    | none => exact .none
    | some stack => exact .some ⟨rfl, hstop⟩
  · rw [h', hcons]
    dsimp only [Frame.setVar]
    rw [hvar, hR.localVars h]
    split
    · exact .some ⟨rfl, hR.setVars hgoto _ _⟩
    · exact .none

/-- The rest of a round keeps the relation too. -/
theorem afterOpcode_rel (hR : FrameRel R) (success : Bool) (ctx : Context W) {f' f : Frame}
    (h : R (if success then f' else { f' with running := false })
      (if success then f else { f with running := false })) :
    ResultRel R (afterOpcode success ctx f') (afterOpcode success ctx f) := by
  unfold afterOpcode
  by_cases hexc : ctx.exception
  · simp only [hexc, if_true]
    have hhandle := handleException_rel hR ctx h
    revert hhandle
    generalize handleException ctx (if success then f' else { f' with running := false }) = r'
    generalize handleException ctx (if success then f else { f with running := false }) = r
    rintro (⟨hctx, hrel⟩ | _)
    · exact .some ⟨rfl, hctx, hrel⟩
    · exact .none
  · simp only [hexc]
    exact .some ⟨rfl, rfl, h⟩

theorem FrameRel.failed (hR : FrameRel R) {f' f : Frame} (h : R f' f) (success : Bool) :
    R (if success then f' else { f' with running := false })
      (if success then f else { f with running := false }) := by
  cases success
  · exact hR.stop h
  · exact h

end

/-! ## What stays -/

/-- What belongs to an activation for its whole life. -/
structure Frame.SameActivation (frame' frame : Frame) : Prop where
  addr : frame'.addr = frame.addr
  code : frame'.code = frame.code
  localVars : frame'.localVars.length = frame.localVars.length

theorem Frame.SameActivation.refl (frame : Frame) : frame.SameActivation frame := ⟨rfl, rfl, rfl⟩

theorem Frame.SameActivation.trans {f g h : Frame} (hfg : f.SameActivation g)
    (hgh : g.SameActivation h) : f.SameActivation h :=
  ⟨hfg.addr.trans hgh.addr, hfg.code.trans hgh.code, hfg.localVars.trans hgh.localVars⟩

theorem frameRel_same (frame : Frame) :
    FrameRel (fun f' f => f' = f ∧ f.SameActivation frame) where
  addr h := by rw [h.1]
  localVars h := by rw [h.1]
  flags h := by rw [h.1]
  setFlags := by
    rintro f' f ⟨rfl, h⟩ flags
    exact ⟨rfl, h.addr, h.code, h.localVars⟩
  setVars := by
    rintro f' f ⟨rfl, h⟩ k v
    exact ⟨rfl, h.addr, h.code, (List.length_set ..).trans h.localVars⟩
  stop := by
    rintro f' f ⟨rfl, h⟩
    exact ⟨rfl, h.addr, h.code, h.localVars⟩
  handlers := by
    rintro f' f ⟨rfl, h⟩
    cases hs : f'.handlerStack with
    | nil => exact .inl ⟨rfl, rfl⟩
    | cons handler handlers =>
      exact .inr ⟨_, _, _, _, rfl, rfl, ⟨rfl, h.addr, h.code, h.localVars⟩, rfl,
        ⟨rfl, h.addr, h.code, h.localVars⟩⟩

theorem argsRel_same (frame : Frame) (op : OpCode) (args : List Word) :
    ArgsRel (fun f' f => f' = f ∧ f.SameActivation frame) op args args := by
  refine ⟨fun _ _ => rfl, ?_⟩
  intro j _
  cases hd : args[j]? with
  | none => exact .inl ⟨rfl, rfl⟩
  | some d =>
    refine .inr ⟨d, d, rfl, rfl, ?_, ?_⟩
    · rintro f' f ⟨rfl, h⟩
      exact ⟨rfl, h.addr, h.code, h.localVars⟩
    · rintro f' f v ⟨rfl, h⟩
      exact ⟨rfl, h.addr, h.code, h.localVars⟩

/-- Frames with these local variables. -/
theorem controlRel_localVars (localVars : List Value) :
    ControlRel (fun f' f => f' = f ∧ f.localVars = localVars) where
  addr h := by rw [h.1]
  localVars h := by rw [h.1]
  flags h := by rw [h.1]
  setFlags := by
    rintro f' f ⟨rfl, h⟩ flags
    exact ⟨rfl, h⟩
  stop := by
    rintro f' f ⟨rfl, h⟩
    exact ⟨rfl, h⟩
  handlers := by
    rintro f' f ⟨rfl, h⟩
    cases hs : f'.handlerStack with
    | nil => exact .inl ⟨rfl, rfl⟩
    | cons handler handlers => exact .inr ⟨_, _, _, _, rfl, rfl, ⟨rfl, h⟩, rfl, ⟨rfl, h⟩⟩

theorem argsRel_localVars (localVars : List Value) (op : OpCode) (args : List Word) :
    ArgsRel (fun f' f => f' = f ∧ f.localVars = localVars) op args args := by
  refine ⟨fun _ _ => rfl, ?_⟩
  intro j _
  cases hd : args[j]? with
  | none => exact .inl ⟨rfl, rfl⟩
  | some d =>
    refine .inr ⟨d, d, rfl, rfl, ?_, ?_⟩
    · rintro f' f ⟨rfl, h⟩
      exact ⟨rfl, h⟩
    · rintro f' f v ⟨rfl, h⟩
      exact ⟨rfl, h⟩

/-- The other instructions leave the local variables alone. -/
theorem opcodeTable_localVars {E : Env W} {exec : Execute W} {op : OpCode} {args : List Word}
    {ctx ctx' : Context W} {frame frame' : Frame} {b : Bool} (hop : op.writesVar = false)
    (h : opcodeTable E exec op args ctx frame = some (b, ctx', frame')) :
    frame'.localVars = frame.localVars := by
  have hrel := opcodeTable_controlRel (controlRel_localVars frame.localVars) E exec
    (fun hw => absurd hw (by simp [hop])) (argsRel_localVars frame.localVars op args) ctx ⟨rfl, rfl⟩
  rw [h] at hrel
  obtain ⟨-, -, -, hsame⟩ := hrel
  exact hsame

/-- An opcode function works on its own activation. -/
theorem opcodeTable_same {E : Env W} {exec : Execute W} {op : OpCode} {args : List Word}
    {ctx ctx' : Context W} {frame frame' : Frame} {b : Bool}
    (h : opcodeTable E exec op args ctx frame = some (b, ctx', frame')) :
    frame'.SameActivation frame := by
  have hrel := opcodeTable_rel (frameRel_same frame) E exec (argsRel_same frame op args) ctx
    ⟨rfl, .refl frame⟩
  rw [h] at hrel
  obtain ⟨-, -, -, hsame⟩ := hrel
  exact hsame

theorem afterOpcode_same {success b : Bool} {ctx ctx' : Context W} {frame frame' : Frame}
    (h : afterOpcode success ctx frame = some (b, ctx', frame')) : frame'.SameActivation frame := by
  have hR := frameRel_same frame
  have hrel := afterOpcode_rel hR success ctx (hR.failed ⟨rfl, .refl frame⟩ success)
  rw [h] at hrel
  obtain ⟨-, -, -, hsame⟩ := hrel
  exact hsame

theorem step_same {E : Env W} {exec : Execute W} {ctx ctx' : Context W} {frame frame' : Frame}
    {b : Bool} (h : step E exec ctx frame = some (b, ctx', frame')) :
    frame'.SameActivation frame := by
  obtain ⟨inst, next, success, ctx₁, frame₁, -, hop, hafter⟩ := step_some h
  have hsame := (afterOpcode_same hafter).trans (opcodeTable_same hop)
  exact ⟨hsame.addr, hsame.code, hsame.localVars⟩

end B0rk
