import B0rk.Executor.Proofs.Adequacy
import B0rk.Executor.Proofs.Frames
import B0rk.Executor.Proofs.Invariant
import B0rk.Executor.Proofs.Unwind

set_option autoImplicit false

/-! # Frame markers

The collector and `Context::getStackTrace` follow every `VALUE_FRAME` on a value stack into a `Frame`
on the C++ stack. An activation takes its marker away when it executes `RETURN` or is left by an
exception, but not when an instruction fails, when the stack check fails, or when it runs off the end of
its code. A guarded run is one in which none of this happens, and in which no instruction takes a
marker for an operand: there the markers on the stack are those of the running activations. -/

namespace B0rk

variable {W : Type}

/-! ## Guarded runs -/

def Value.isFrame (v : Value) : Bool := decide (v.type = .frame)

/-- What the scans of a stack take for frames. -/
def markers (stack : List Value) : List Value := stack.filter Value.isFrame

/-- None of the topmost `n` entries is a marker. -/
def Context.operandsOk (ctx : Context W) (n : ℕ) : Bool := (ctx.stack.take n).all (!·.isFrame)

/-- An opcode function has succeeded, or it has failed with an exception that ends the activation. -/
def unfailing (success : Bool) (ctx : Context W) (frame : Frame) : Bool :=
  success || ctx.exception && frame.handlerStack.isEmpty

/-- The running activation is inside its code, and the stack check passes. -/
def Frame.inBounds (frame : Frame) (ctx : Context W) : Bool :=
  decide (frame.pc < frame.code.size) && ctx.checkStack

def guardedAfter (success : Bool) (ctx : Context W) (frame : Frame) :
    Option (Bool × Context W × Frame) :=
  if unfailing success ctx frame then afterOpcode success ctx frame else none

/-- `step`, if it is guarded. -/
def guardedStep (E : Env W) (exec : Execute W) (ctx : Context W) (frame : Frame) :
    Option (Bool × Context W × Frame) := do
  let (inst, next) ← frame.code.fetch frame.pc
  if ctx.operandsOk inst.op.takes then
    let (success, ctx, frame) ← opcodeTable E exec inst.op inst.args ctx { frame with pc := next }
    guardedAfter success ctx frame
  else none

def guardedLoop (E : Env W) (exec : Execute W) (fuel : ℕ) (success : Bool) (ctx : Context W)
    (frame : Frame) : Option (Bool × Context W) :=
  if !frame.running then some (success, ctx)
  else if frame.inBounds ctx then
    match fuel with
    | 0 => none
    | fuel + 1 =>
        match guardedStep E exec ctx frame with
        | none => none
        | some (success, ctx, frame) => guardedLoop E exec fuel success ctx frame
  else none

/-- `run`, if it is guarded. -/
def guardedRun (E : Env W) (exec : Execute W) (fuel : ℕ) (thisObj : Word) (code : Code)
    (argCount : ℕ) (ctx : Context W) : Option (Bool × Context W) := do
  let (ctx, frame) ← enter E thisObj code argCount ctx
  guardedLoop E exec fuel true ctx frame

/-- `execute`, if the activation and those that it starts are guarded. -/
def guardedExecute (E : Env W) : ℕ → Execute W
  | 0, _, _, _, _ => none
  | fuel + 1, function, obj, argCount, ctx =>
      if ctx.operandsOk argCount then
        match E.function function with
        | none => none
        | some (.script none) => some (false, ctx)
        | some (.script (some code)) =>
            guardedRun E (guardedExecute E fuel) fuel obj code argCount ctx
        | some (.native run) => nativeExecute run obj argCount ctx
      else none

namespace Machine

/-- The result of an activation is returned into the next one, if that is guarded. -/
def guardedReturn (success : Bool) (frames : List Frame) (ctx : Context W) :
    Option (Machine W) :=
  match frames with
  | [] => some ⟨success, [], ctx⟩
  | caller :: below =>
      match guardedAfter success ctx caller with
      | none => none
      | some (success, ctx, caller) => some ⟨success, caller :: below, ctx⟩

/-- `Machine.step`, if it is guarded. -/
def guardedStep (E : Env W) (fuel : ℕ) (m : Machine W) : Option (Machine W) :=
  match m.frames with
  | [] => none
  | frame :: below =>
      if !frame.running then guardedReturn m.success below m.ctx
      else if frame.inBounds m.ctx then
        match frame.code.fetch frame.pc with
        | none => none
        | some (inst, next) =>
            match scriptCallee E inst m.ctx with
            | some (ctx, obj, code, count) =>
                if m.ctx.operandsOk inst.op.takes && ctx.operandsOk count then
                  match enter E obj code count ctx with
                  | none => none
                  | some (ctx, callee) =>
                      some ⟨true, callee :: { frame with pc := next } :: below, ctx⟩
                else none
            | none =>
                match B0rk.guardedStep E (guardedExecute E fuel) m.ctx frame with
                | none => none
                | some (success, ctx, frame) => some ⟨success, frame :: below, ctx⟩
      else none

end Machine

/-- Any number of guarded steps of the machine. -/
def GuardedReaches (E : Env W) (fuel : ℕ) : Machine W → Machine W → Prop :=
  Relation.ReflTransGen (fun m m' => m.guardedStep E fuel = some m')

/-! ## Guarded runs are runs -/

theorem guardedAfter_le {success : Bool} {ctx : Context W} {frame : Frame}
    {r : Bool × Context W × Frame} (h : guardedAfter success ctx frame = some r) :
    unfailing success ctx frame ∧ afterOpcode success ctx frame = some r := by
  unfold guardedAfter at h
  split at h
  · next hok => exact ⟨hok, h⟩
  · cases h

theorem guardedStep_some {E : Env W} {exec : Execute W} {ctx : Context W} {frame : Frame}
    {r : Bool × Context W × Frame} (h : guardedStep E exec ctx frame = some r) :
    ∃ inst next success ctx₁ frame₁, frame.code.fetch frame.pc = some (inst, next) ∧
      ctx.operandsOk inst.op.takes ∧
      opcodeTable E exec inst.op inst.args ctx { frame with pc := next } =
        some (success, ctx₁, frame₁) ∧
      guardedAfter success ctx₁ frame₁ = some r := by
  simp only [guardedStep, Option.bind_eq_bind, Option.bind_eq_some_iff] at h
  obtain ⟨⟨inst, next⟩, hfetch, h⟩ := h
  split at h
  · next hops =>
    obtain ⟨⟨success, ctx₁, frame₁⟩, hop, h⟩ := Option.bind_eq_some_iff.mp h
    exact ⟨inst, next, success, ctx₁, frame₁, hfetch, hops, hop, h⟩
  · cases h

theorem guardedStep_le {E : Env W} {exec exec' : Execute W} (hexec : ExecLE exec exec')
    {ctx : Context W} {frame : Frame} {r : Bool × Context W × Frame}
    (h : guardedStep E exec ctx frame = some r) : step E exec' ctx frame = some r := by
  obtain ⟨inst, next, success, ctx₁, frame₁, hfetch, -, hop, hafter⟩ := guardedStep_some h
  simp only [step, hfetch, Option.bind_eq_bind, Option.bind_some, opcodeTable_mono hexec hop]
  exact (guardedAfter_le hafter).2

theorem Frame.inBounds_iff {frame : Frame} {ctx : Context W} :
    frame.inBounds ctx ↔ frame.pc < frame.code.size ∧ ctx.checkStack := by
  simp [Frame.inBounds]

theorem guardedLoop_stopped {E : Env W} {exec : Execute W} {fuel : ℕ} {success : Bool}
    {ctx : Context W} {frame : Frame} (h : frame.running = false) :
    guardedLoop E exec fuel success ctx frame = some (success, ctx) := by
  unfold guardedLoop
  simp [h]

/-- A round of the guarded loop that is not the last one. -/
theorem guardedLoop_running {E : Env W} {exec : Execute W} {fuel : ℕ} {success : Bool}
    {ctx : Context W} {frame : Frame} {r : Bool × Context W} (hrun : frame.running = true)
    (h : guardedLoop E exec fuel success ctx frame = some r) :
    ∃ fuel' s c f, fuel = fuel' + 1 ∧ frame.pc < frame.code.size ∧ ctx.checkStack ∧
      guardedStep E exec ctx frame = some (s, c, f) ∧ guardedLoop E exec fuel' s c f = some r := by
  unfold guardedLoop at h
  simp only [hrun, Bool.not_true, Bool.false_eq_true, if_false] at h
  split at h
  · next hin =>
    obtain ⟨hpc, hstack⟩ := Frame.inBounds_iff.mp hin
    cases fuel with
    | zero => cases h
    | succ fuel =>
      dsimp only at h
      split at h
      · cases h
      · next s c f hstep => exact ⟨fuel, s, c, f, rfl, hpc, hstack, hstep, h⟩
  · cases h

theorem guardedLoop_le {E : Env W} {exec exec' : Execute W} (hexec : ExecLE exec exec') {fuel : ℕ}
    {success : Bool} {ctx : Context W} {frame : Frame} {r : Bool × Context W}
    (h : guardedLoop E exec fuel success ctx frame = some r) :
    runLoop E exec' fuel success ctx frame = some r := by
  induction fuel generalizing success ctx frame with
  | zero =>
    by_cases hrun : frame.running = true
    · obtain ⟨_, _, _, _, hfuel, -⟩ := guardedLoop_running hrun h
      cases hfuel
    · have hstop : frame.running = false := by simpa using hrun
      rw [runLoop_end (by simp [Frame.continues, hstop])]
      rwa [guardedLoop_stopped hstop] at h
  | succ fuel ih =>
    by_cases hrun : frame.running = true
    · obtain ⟨fuel', s, c, f, hfuel, hpc, hstack, hstep, h⟩ := guardedLoop_running hrun h
      obtain rfl := Nat.succ.inj hfuel
      rw [runLoop_succ (by simp [Frame.continues, hrun, hpc]) hstack, guardedStep_le hexec hstep]
      exact ih h
    · have hstop : frame.running = false := by simpa using hrun
      rw [runLoop_end (by simp [Frame.continues, hstop])]
      rwa [guardedLoop_stopped hstop] at h

theorem guardedRun_le {E : Env W} {exec exec' : Execute W} (hexec : ExecLE exec exec') {fuel : ℕ}
    {obj : Word} {code : Code} {argCount : ℕ} {ctx : Context W} {r : Bool × Context W}
    (h : guardedRun E exec fuel obj code argCount ctx = some r) :
    run E exec' fuel obj code argCount ctx = some r := by
  obtain ⟨p, henter, h⟩ := Option.bind_eq_some_iff.mp h
  simp only [run, henter]
  exact guardedLoop_le hexec h

/-- Guarded calls are calls. -/
theorem guardedExecute_le (E : Env W) (fuel : ℕ) :
    ExecLE (guardedExecute E fuel) (execute E fuel) := by
  induction fuel with
  | zero =>
    intro _ _ _ _ _ h
    cases h
  | succ fuel ih =>
    intro function obj argCount ctx r h
    unfold guardedExecute at h
    unfold execute
    split at h
    · rcases hfun : E.function function with _ | (_ | code) | run
      · simp [hfun] at h
      · rwa [hfun] at h
      · rw [hfun] at h
        exact guardedRun_le ih h
      · rwa [hfun] at h
    · cases h

/-- What a guarded step of the machine is. -/
theorem Machine.guardedStep_cases {E : Env W} {fuel : ℕ} {m m' : Machine W}
    (h : m.guardedStep E fuel = some m') :
    ∃ frame below, m.frames = frame :: below ∧
      ((frame.running = false ∧ guardedReturn m.success below m.ctx = some m') ∨
      (frame.running = true ∧ frame.pc < frame.code.size ∧ m.ctx.checkStack ∧
        ∃ inst next, frame.code.fetch frame.pc = some (inst, next) ∧
        ((∃ ctx obj code count ctx' callee, scriptCallee E inst m.ctx = some (ctx, obj, code, count) ∧
            m.ctx.operandsOk inst.op.takes ∧ ctx.operandsOk count ∧
            enter E obj code count ctx = some (ctx', callee) ∧
            m' = ⟨true, callee :: { frame with pc := next } :: below, ctx'⟩) ∨
          (scriptCallee E inst m.ctx = none ∧ ∃ s ctx' frame',
            B0rk.guardedStep E (guardedExecute E fuel) m.ctx frame = some (s, ctx', frame') ∧
            m' = ⟨s, frame' :: below, ctx'⟩)))) := by
  unfold guardedStep at h
  cases hframes : m.frames with
  | nil => simp [hframes] at h
  | cons frame below =>
    rw [hframes] at h
    refine ⟨frame, below, rfl, ?_⟩
    by_cases hrun : frame.running = true
    · simp only [hrun, Bool.not_true, Bool.false_eq_true, if_false] at h
      split at h
      · next hin =>
        obtain ⟨hpc, hstack⟩ := Frame.inBounds_iff.mp hin
        refine .inr ⟨hrun, hpc, hstack, ?_⟩
        split at h
        · cases h
        · next inst next hfetch =>
          refine ⟨inst, next, hfetch, ?_⟩
          split at h
          · next ctx obj code count hcallee =>
            split at h
            · next hops =>
              obtain ⟨htakes, hcount⟩ := (Bool.and_eq_true _ _).mp hops
              split at h
              · cases h
              · next ctx' callee henter =>
                obtain rfl := Option.some.inj h
                exact .inl ⟨ctx, obj, code, count, ctx', callee, hcallee, htakes, hcount, henter,
                  by rw [hrun]⟩
            · cases h
          · next hcallee =>
            split at h
            · cases h
            · next s ctx' frame' hstep =>
              exact .inr ⟨hcallee, s, ctx', frame', hstep, (Option.some.inj h).symm⟩
      · cases h
    · have hstop : frame.running = false := by simpa using hrun
      simp only [hstop, Bool.not_false, if_true] at h
      exact .inl ⟨hstop, h⟩

theorem Machine.guardedReturn_le {success : Bool} {frames : List Frame} {ctx : Context W}
    {m : Machine W} (h : guardedReturn success frames ctx = some m) :
    returnTo success frames ctx = some m := by
  cases frames with
  | nil => exact h
  | cons caller below =>
    simp only [guardedReturn] at h
    split at h
    · cases h
    · next s c f hafter =>
      rw [returnTo, (guardedAfter_le hafter).2]
      exact h

theorem Machine.guardedStep_le {E : Env W} {fuel : ℕ} {m m' : Machine W}
    (h : m.guardedStep E fuel = some m') : m.step E (execute E fuel) = some m' := by
  obtain ⟨frame, below, hframes, ⟨hstop, h⟩ | ⟨hrun, hpc, hstack, inst, next, hfetch, h⟩⟩ :=
    guardedStep_cases h
  · simp [step, hframes, Frame.continues, hstop, guardedReturn_le h]
  · rcases h with ⟨ctx, obj, code, count, ctx', callee, hcallee, -, -, henter, rfl⟩ |
      ⟨hcallee, s, ctx', frame', hstep, rfl⟩
    · simp [step, hframes, Frame.continues, hrun, hpc, hstack, hfetch, hcallee, henter]
    · have hstep' := B0rk.guardedStep_le (guardedExecute_le E fuel) hstep
      simp [step, hframes, Frame.continues, hrun, hpc, hstack, hfetch, hcallee, hstep']

/-- A guarded run is a run. -/
theorem GuardedReaches.reaches {E : Env W} {fuel : ℕ} {m m' : Machine W}
    (h : GuardedReaches E fuel m m') : Reaches E (execute E fuel) m m' :=
  Relation.ReflTransGen.mono (fun _ _ => Machine.guardedStep_le) _ _ h

/-! ## What keeps markers where they are -/

/-- No marker in the heap and among the pending exception. -/
structure Context.FrameFree (clean : W → Prop) (ctx : Context W) : Prop where
  world : clean ctx.world
  exceptionValue : ctx.exceptionValue.type ≠ .frame

/-- The heap and the functions outside the executor give out no markers, and leave the markers on
    the stack alone. `clean` says that no field, static field or array element is a marker. -/
structure Env.FrameFree (E : Env W) (clean : W → Prop) : Prop where
  getValue : ∀ {world obj id v}, clean world → E.getValue world obj id = some v → v.type ≠ .frame
  setValue : ∀ {world obj id v world'}, clean world → v.type ≠ .frame →
    E.setValue world obj id v = some world' → clean world'
  getStaticField : ∀ {world clazz id v}, clean world → E.getStaticField world clazz id = some v →
    v.type ≠ .frame
  setStaticField : ∀ {world clazz id v world'}, clean world → v.type ≠ .frame →
    E.setStaticField world clazz id v = some world' → clean world'
  allocateObject : ∀ {ctx clazz obj world'}, clean ctx.world →
    E.allocateObject ctx clazz = some (obj, world') → clean world'
  arrayLoad : ∀ {ctx array index res ctx' v}, ctx.FrameFree clean → index.type ≠ .frame →
    E.arrayLoad ctx array index = some (res, ctx', v) →
    (markers ctx'.stack).Sublist (markers ctx.stack) ∧ ctx'.FrameFree clean ∧ v.type ≠ .frame
  arrayStore : ∀ {ctx array index v res ctx'}, ctx.FrameFree clean → index.type ≠ .frame →
    v.type ≠ .frame → E.arrayStore ctx array index v = some (res, ctx') →
    (markers ctx'.stack).Sublist (markers ctx.stack) ∧ ctx'.FrameFree clean
  native : ∀ {function run}, E.function function = some (.native run) →
    ∀ {obj n args ctx res ctx' v}, ctx.FrameFree clean → (∀ a ∈ args, a.type ≠ .frame) →
    run obj n args ctx = some (res, ctx', v) →
    (markers ctx'.stack).Sublist (markers ctx.stack) ∧ ctx'.FrameFree clean ∧ v.type ≠ .frame

/-- The markers on the stack are among `frames`, the topmost `k` entries are none, and no value from
    elsewhere is one. -/
structure Held (clean : W → Prop) (frames : List Value) (k : ℕ) (ctx : Context W) : Prop where
  markers : (markers ctx.stack).Sublist frames
  operands : ctx.operandsOk k
  free : ctx.FrameFree clean

@[simp]
theorem markers_cons_frame (frame : Frame) (stack : List Value) :
    markers (frame.marker :: stack) = frame.marker :: markers stack := rfl

theorem markers_cons {v : Value} (hv : v.type ≠ .frame) (stack : List Value) :
    markers (v :: stack) = markers stack := by
  simp [markers, Value.isFrame, hv]

theorem markers_sublist {stack stack' : List Value} (h : stack'.Sublist stack) :
    (markers stack').Sublist (markers stack) := h.filter _

theorem Context.operandsOk_iff {ctx : Context W} {n : ℕ} :
    ctx.operandsOk n ↔ ∀ v ∈ ctx.stack.take n, v.type ≠ .frame := by
  simp [operandsOk, Value.isFrame]

section

variable {E : Env W} {clean : W → Prop} {frames : List Value} {ctx : Context W}

theorem Held.zero {k : ℕ} (h : Held clean frames k ctx) : Held clean frames 0 ctx :=
  ⟨h.markers, by simp [Context.operandsOk], h.free⟩

/-- Another context with fewer markers. -/
theorem Held.sublist {k : ℕ} {ctx' : Context W} (h : Held clean frames k ctx)
    (hsub : (B0rk.markers ctx'.stack).Sublist (B0rk.markers ctx.stack))
    (hfree : ctx'.FrameFree clean) : Held clean frames 0 ctx' :=
  ⟨hsub.trans h.markers, by simp [Context.operandsOk], hfree⟩

theorem heldInvariant (hE : E.FrameFree clean) :
    ContextInvariant E (fun v => v.type ≠ .frame) (Held clean frames) where
  le hle h := by
    refine ⟨h.markers, Context.operandsOk_iff.mpr fun v hv => ?_, h.free⟩
    exact Context.operandsOk_iff.mp h.operands v (List.take_subset_take_left _ hle hv)
  pop h hpop := by
    obtain ⟨hstack, hctx⟩ := Context.pop_some hpop
    have hops := Context.operandsOk_iff.mp h.operands
    rw [hstack, List.take_succ_cons, List.forall_mem_cons] at hops
    refine ⟨hops.1, ?_, Context.operandsOk_iff.mpr hops.2, ?_⟩
    · have hmarkers := h.markers
      rwa [hstack, markers_cons hops.1] at hmarkers
    · rw [hctx]
      exact ⟨h.free.world, h.free.exceptionValue⟩
  drop h hpop := by
    obtain ⟨hstack, hctx⟩ := Context.pop_some hpop
    refine h.sublist (markers_sublist ?_) ?_
    · rw [hstack]
      exact List.sublist_cons_self ..
    · rw [hctx]
      exact ⟨h.free.world, h.free.exceptionValue⟩
  push h hv := by
    refine ⟨?_, Context.operandsOk_iff.mpr ?_, h.free.world, h.free.exceptionValue⟩
    · rw [Context.push_stack, markers_cons hv]
      exact h.markers
    · rw [Context.push_stack, List.take_succ_cons, List.forall_mem_cons]
      exact ⟨hv, Context.operandsOk_iff.mp h.operands⟩
  tag _ h := h
  bits _ h := h
  getValue h hv := hE.getValue h.free.world hv
  setValue h hv hset :=
    ⟨h.markers, h.operands, hE.setValue h.free.world hv hset, h.free.exceptionValue⟩
  getStaticField h hv := hE.getStaticField h.free.world hv
  setStaticField h hv hset :=
    ⟨h.markers, h.operands, hE.setStaticField h.free.world hv hset, h.free.exceptionValue⟩
  allocateObject h ha :=
    ⟨h.markers, h.operands, hE.allocateObject h.free.world ha, h.free.exceptionValue⟩
  arrayLoad h hv hload := by
    obtain ⟨hsub, hfree, hres⟩ := hE.arrayLoad h.free hv hload
    exact ⟨h.sublist hsub hfree, hres⟩
  arrayStore h hi hv hstore := by
    obtain ⟨hsub, hfree⟩ := hE.arrayStore h.free hi hv hstore
    exact h.sublist hsub hfree
  throwException h := ⟨h.markers, h.operands, h.free.world, nofun⟩

/-! ## One activation -/

/-- The marker of an activation that is still running. -/
def Frame.live (frame : Frame) : List Value := if frame.running then [frame.marker] else []

theorem Frame.live_running {frame : Frame} (h : frame.running = true) :
    frame.live = [frame.marker] := if_pos h

theorem Frame.live_stopped {frame : Frame} (h : frame.running = false) : frame.live = [] :=
  if_neg (by simp [h])

/-- The variables of an activation hold no markers. -/
def Frame.VarsFree (frame : Frame) : Prop := ∀ v ∈ frame.localVars, v.type ≠ .frame

/-- Clearing the stack takes one marker away. -/
theorem popToFrame_markers {stack stack' : List Value} (h : popToFrame stack = some stack') :
    ∃ marker, markers stack = marker :: markers stack' := by
  induction stack with
  | nil => cases h
  | cons v stack ih =>
    by_cases hv : v.type = .frame
    · rw [popToFrame, if_pos hv] at h
      obtain rfl := Option.some.inj h
      exact ⟨v, by simp [markers, Value.isFrame, hv]⟩
    · rw [popToFrame, if_neg hv] at h
      rw [markers_cons hv]
      exact ih h

/-- Without its first entry, a sublist of the live markers does not need the innermost one. -/
theorem Frame.sublist_of_live {frame : Frame} {v : Value} {l frames : List Value}
    (h : (v :: l).Sublist (frame.live ++ frames)) : l.Sublist frames := by
  by_cases hrun : frame.running = true
  · rw [frame.live_running hrun] at h
    exact h.tail
  · rw [frame.live_stopped (by simpa using hrun)] at h
    exact (List.sublist_cons_self ..).trans h

/-- Leaving an activation by an exception takes its marker away, if it is there. -/
theorem popToFrame_held {frame : Frame} {stack : List Value}
    (h : Held clean (frame.live ++ frames) 0 ctx) (hpop : popToFrame ctx.stack = some stack) :
    Held clean frames 0 { ctx with stack := stack } := by
  obtain ⟨marker, hmarkers⟩ := popToFrame_markers hpop
  have hsub := h.markers
  rw [hmarkers] at hsub
  exact ⟨Frame.sublist_of_live hsub, by simp [Context.operandsOk], h.free.world,
    h.free.exceptionValue⟩

theorem handleException_held {frame frame' : Frame} {ctx' : Context W}
    (h : Held clean (frame.live ++ frames) 0 ctx) (hvars : frame.VarsFree)
    (hhandle : handleException ctx frame = some (ctx', frame')) :
    Held clean (frame'.live ++ frames) 0 ctx' ∧ frame'.VarsFree := by
  unfold handleException at hhandle
  cases hs : frame.handlerStack with
  | nil =>
    rw [hs] at hhandle
    obtain ⟨stack, hpop, hhandle⟩ := Option.bind_eq_some_iff.mp hhandle
    obtain ⟨rfl, rfl⟩ := Prod.mk.inj (Option.some.inj hhandle)
    rw [Frame.live_stopped rfl]
    exact ⟨popToFrame_held h hpop, hvars⟩
  | cons handler handlers =>
    rw [hs] at hhandle
    obtain ⟨frame₁, hset, hhandle⟩ := Option.bind_eq_some_iff.mp hhandle
    obtain ⟨rfl, rfl⟩ := Prod.mk.inj (Option.some.inj hhandle)
    unfold Frame.setVar at hset
    split at hset
    · obtain rfl := Option.some.inj hset
      refine ⟨⟨h.markers, h.operands, h.free.world, h.free.exceptionValue⟩, fun v hv => ?_⟩
      rcases List.mem_or_eq_of_mem_set hv with hv | rfl
      · exact hvars v hv
      · exact h.free.exceptionValue
    · cases hset

theorem guardedAfter_held {success success' : Bool} {frame frame' : Frame} {ctx' : Context W}
    (h : Held clean (frame.live ++ frames) 0 ctx) (hvars : frame.VarsFree)
    (hafter : guardedAfter success ctx frame = some (success', ctx', frame')) :
    Held clean (frame'.live ++ frames) 0 ctx' ∧ frame'.VarsFree := by
  obtain ⟨hok, hafter⟩ := guardedAfter_le hafter
  unfold afterOpcode at hafter
  cases success with
  | true =>
    simp only [if_true] at hafter
    split at hafter
    · obtain ⟨p, hhandle, hafter⟩ := Option.bind_eq_some_iff.mp hafter
      obtain ⟨-, hp⟩ := Prod.mk.inj (Option.some.inj hafter)
      obtain rfl : p = (ctx', frame') := hp
      exact handleException_held h hvars hhandle
    · cases hafter
      exact ⟨h, hvars⟩
  | false =>
    -- the activation ends with the exception
    simp only [unfailing, Bool.false_or, Bool.and_eq_true, List.isEmpty_iff] at hok
    simp only [hok.1, hok.2, handleException, Bool.false_eq_true, if_true, if_false] at hafter
    obtain ⟨p, hhandle, hafter⟩ := Option.bind_eq_some_iff.mp hafter
    obtain ⟨stack, hpop, hhandle⟩ := Option.bind_eq_some_iff.mp hhandle
    obtain rfl := Option.some.inj hhandle
    cases hafter
    rw [Frame.live_stopped rfl]
    have hheld := popToFrame_held h hpop
    rw [hok.1] at hheld
    exact ⟨hheld, hvars⟩

/-- `RETURN` takes the first marker that it comes to. -/
theorem opcodeReturn_held {args : List Word} {frame : Frame}
    (h : Held clean (frame.marker :: frames) 1 ctx) (hE : E.FrameFree clean)
    (hrun : frame.running = true) :
    Ensures (opcodeReturn args ctx frame) (fun r => Held clean (r.2.2.live ++ frames) 0 r.2.1) := by
  have hI : ContextInvariant E _ (Held clean (frame.marker :: frames)) := heldInvariant hE
  refine .bind (hI.popped h) fun p h₁ => .bind_eq fun q hpop => ?_
  have h₂ := hI.drop h₁.2 hpop
  refine .ite (fun _ => .some ?_) fun hcheck => .some ?_
  · rw [Frame.live_running hrun]
    exact h₂
  · simp only [not_or, not_not] at hcheck
    obtain ⟨hstack, -⟩ := Context.pop_some hpop
    have hsub := h₁.2.markers
    rw [hstack, markers, List.filter_cons_of_pos (by simp [Value.isFrame, hcheck.1])] at hsub
    rw [Frame.live_stopped rfl, List.nil_append]
    refine ⟨?_, by simp [Context.operandsOk], h₂.free.world, h₂.free.exceptionValue⟩
    rw [Context.push_stack, markers_cons h₁.1]
    exact hsub.tail

/-- One guarded round of an activation. -/
theorem guardedStep_held {exec : Execute W} {success : Bool} {frame frame' : Frame}
    {ctx' : Context W} (hE : E.FrameFree clean)
    (hexec : ∀ frames, ExecKeeps exec (Held clean frames))
    (h : Held clean (frame.marker :: frames) 0 ctx) (hvars : frame.VarsFree)
    (hrun : frame.running = true)
    (hstep : guardedStep E exec ctx frame = some (success, ctx', frame')) :
    Held clean (frame'.live ++ frames) 0 ctx' ∧ frame'.VarsFree := by
  obtain ⟨inst, next, s, ctx₁, frame₁, -, hops, hop, hafter⟩ := guardedStep_some hstep
  have htakes : Held clean (frame.marker :: frames) inst.op.takes ctx := ⟨h.markers, hops, h.free⟩
  have hvars' : ({ frame with pc := next } : Frame).VarsFree := hvars
  have hkeeps : Keeps _ (Held clean (frame.marker :: frames)) inst.op { frame with pc := next }
      (s, ctx₁, frame₁) :=
    opcodeTable_keeps (heldInvariant hE) (fun _ => hexec _) hvars' htakes _ hop
  refine guardedAfter_held ?_ hkeeps.2.localVars hafter
  by_cases hret : inst.op = .ret
  · rw [hret] at hop htakes
    have hreturn : Ensures (opcodeReturn inst.args ctx { frame with pc := next }) _ :=
      opcodeReturn_held htakes hE hrun
    exact hreturn _ hop
  · have haddr : frame₁.marker = frame.marker := congrArg (Value.mk .frame) (opcodeTable_same hop).addr
    rw [Frame.live_running ((hkeeps.2.running hret).trans hrun), haddr]
    exact hkeeps.1

/-! ## Entering an activation -/

theorem bindArgs_free {n : ℕ} {localVars localVars' : List Value} {ctx' : Context W}
    (hvars : ∀ v ∈ localVars, v.type ≠ .frame) (hops : ctx.operandsOk n)
    (h : bindArgs n localVars ctx = some (localVars', ctx')) :
    ∀ v ∈ localVars', v.type ≠ .frame := by
  induction n generalizing localVars ctx with
  | zero =>
    obtain ⟨rfl, rfl⟩ := Prod.mk.inj (Option.some.inj h)
    exact hvars
  | succ n ih =>
    simp only [bindArgs, Option.bind_eq_bind, Option.bind_eq_some_iff] at h
    obtain ⟨⟨v, ctx₁⟩, hpop, h⟩ := h
    rw [Context.operandsOk_iff, (Context.pop_some hpop).1, List.take_succ_cons,
      List.forall_mem_cons] at hops
    split at h
    · refine ih (fun w hw => ?_) (Context.operandsOk_iff.mpr hops.2) h
      rcases List.mem_or_eq_of_mem_set hw with hw | rfl
      · exact hvars w hw
      · exact hops.1
    · cases h

/-- A call pushes the marker of the activation that it enters. -/
theorem enter_held {obj : Word} {code : Code} {n : ℕ} {ctx' : Context W} {frame : Frame}
    (h : Held clean frames n ctx) (henter : enter E obj code n ctx = some (ctx', frame)) :
    Held clean (frame.marker :: frames) 0 ctx' ∧ frame.VarsFree := by
  obtain ⟨-, hctx, -⟩ := enter_some henter
  constructor
  · rw [hctx]
    refine ⟨?_, by simp [Context.operandsOk], h.free.world, h.free.exceptionValue⟩
    rw [markers_cons_frame, List.cons_sublist_cons]
    exact (markers_sublist (List.drop_sublist _ _)).trans h.markers
  · unfold enter at henter
    dsimp only at henter
    split at henter
    · cases henter
    · obtain ⟨p, hbind, henter⟩ := Option.bind_eq_some_iff.mp henter
      obtain ⟨-, rfl⟩ := Prod.mk.inj (Option.some.inj henter)
      refine bindArgs_free (fun v hv => ?_) h.operands hbind
      rcases List.mem_or_eq_of_mem_set hv with hv | rfl
      · rw [List.eq_of_mem_replicate hv]
        decide
      · exact nofun

/-! ## Whole calls -/

theorem guardedLoop_held {exec : Execute W} {fuel : ℕ} {success : Bool} {frame : Frame}
    (hE : E.FrameFree clean) (hexec : ∀ frames, ExecKeeps exec (Held clean frames))
    (h : Held clean (frame.live ++ frames) 0 ctx) (hvars : frame.VarsFree) :
    Ensures (guardedLoop E exec fuel success ctx frame) (fun r => Held clean frames 0 r.2) := by
  intro r hr
  induction fuel generalizing success ctx frame with
  | zero =>
    by_cases hrun : frame.running = true
    · obtain ⟨_, _, _, _, hfuel, -⟩ := guardedLoop_running hrun hr
      cases hfuel
    · have hstop : frame.running = false := by simpa using hrun
      rw [guardedLoop_stopped hstop] at hr
      obtain rfl := Option.some.inj hr
      rwa [Frame.live_stopped hstop] at h
  | succ fuel ih =>
    by_cases hrun : frame.running = true
    · obtain ⟨fuel', s, c, f, hfuel, -, -, hstep, hr⟩ := guardedLoop_running hrun hr
      obtain rfl := Nat.succ.inj hfuel
      rw [Frame.live_running hrun] at h
      obtain ⟨hheld, hfree⟩ := guardedStep_held hE hexec h hvars hrun hstep
      exact ih hheld hfree hr
    · have hstop : frame.running = false := by simpa using hrun
      rw [guardedLoop_stopped hstop] at hr
      obtain rfl := Option.some.inj hr
      rwa [Frame.live_stopped hstop] at h

theorem popArgs_free {n : ℕ} {args : List Value} {ctx' : Context W} (hops : ctx.operandsOk n)
    (h : ctx.popArgs n = some (args, ctx')) : ∀ a ∈ args, a.type ≠ .frame := by
  induction n generalizing ctx args with
  | zero =>
    obtain ⟨rfl, -⟩ := Prod.mk.inj (Option.some.inj h)
    exact List.forall_mem_nil _
  | succ n ih =>
    simp only [Context.popArgs, Option.bind_eq_bind, Option.bind_eq_some_iff] at h
    obtain ⟨⟨v, ctx₁⟩, hpop, ⟨vs, ctx₂⟩, hargs, h⟩ := h
    obtain ⟨rfl, rfl⟩ := Prod.mk.inj (Option.some.inj h)
    rw [Context.operandsOk_iff, (Context.pop_some hpop).1, List.take_succ_cons,
      List.forall_mem_cons] at hops
    intro a ha
    rcases List.mem_append.mp ha with ha | ha
    · exact ih (Context.operandsOk_iff.mpr hops.2) hargs a ha
    · rw [List.mem_singleton.mp ha]
      exact hops.1

theorem nativeExecute_held {function : Word}
    {run : Word → ℕ → List Value → Context W → Option (Bool × Context W × Value)} {obj : Word}
    {n : ℕ} (hE : E.FrameFree clean) (hfun : E.function function = some (.native run))
    (h : Held clean frames n ctx) :
    Ensures (nativeExecute run obj n ctx) (fun r => Held clean frames 0 r.2) := by
  refine .bind_eq fun p hp => .bind_eq fun r hr => ?_
  have hargs := popArgs_free h.operands hp
  have hctx : Held clean frames 0 p.2 := by
    rw [(Context.popArgs_some hp).2]
    exact h.sublist (markers_sublist (List.drop_sublist _ _)) ⟨h.free.world, h.free.exceptionValue⟩
  obtain ⟨hsub, hfree, hres⟩ := hE.native hfun hctx.free hargs hr
  have hheld := hctx.sublist hsub hfree
  refine .ite (fun _ => .some hheld) fun _ => .ite (fun _ => .some hheld) fun _ => .some ?_
  exact ((heldInvariant hE).push hheld hres).zero

/-- **A guarded call leaves no marker behind**: the markers on the stack when it returns were there
    when it was made. -/
theorem guardedExecute_held (hE : E.FrameFree clean) (fuel : ℕ) (frames : List Value) :
    ExecKeeps (guardedExecute E fuel) (Held clean frames) := by
  induction fuel generalizing frames with
  | zero => exact fun _ _ _ _ _ => .none
  | succ fuel ih =>
    intro function obj n ctx h
    unfold guardedExecute
    refine .ite (fun hops => ?_) fun _ => .none
    have hargs : Held clean frames n ctx := ⟨h.markers, hops, h.free⟩
    cases hfun : E.function function with
    | none => exact .none
    | some f =>
      match f, hfun with
      | .script none, _ => exact .some h
      | .native run, hfun => exact nativeExecute_held hE hfun hargs
      | .script (some code), _ =>
        refine .bind_eq fun p henter => ?_
        have hrun : p.2.running = true := (enter_some henter).2.2.1
        obtain ⟨hheld, hvars⟩ := enter_held hargs henter
        exact guardedLoop_held hE ih (by rwa [Frame.live_running hrun]) hvars

/-! ## Runs of the machine -/

/-- The markers of the activations that are still running, innermost first. -/
def runningMarkers (frames : List Frame) : List Value := frames.flatMap Frame.live

/-- What every state of a guarded run satisfies. -/
structure Machine.MarkersInv (clean : W → Prop) (outer : List Value) (m : Machine W) : Prop where
  held : Held clean (runningMarkers m.frames ++ outer) 0 m.ctx
  varsFree : ∀ frame ∈ m.frames, frame.VarsFree

/-- What a call instruction pops before it calls. -/
theorem callInstruction_keeps {V : Value → Prop} {I : ℕ → Context W → Prop} {inst : Instruction}
    {target : CallTarget W} (hI : ContextInvariant E V I)
    (htarget : callInstruction E inst.op = some target) (h : I inst.op.takes ctx) :
    Ensures (target inst.args ctx) (fun r => I 0 r.1) := by
  cases hop : inst.op <;> rw [hop] at htarget h <;> cases htarget
  · exact callTarget_keeps hI h
  · exact .bind_any fun _ => .bind_any fun _ => .some h
  · exact callNamedTarget_keeps hI h
  · exact callObjTarget_keeps hI h

theorem runningMarkers_cons (frame : Frame) (below : List Frame) (outer : List Value) :
    runningMarkers (frame :: below) ++ outer = frame.live ++ (runningMarkers below ++ outer) := by
  rw [runningMarkers, List.flatMap_cons, List.append_assoc, runningMarkers]

/-- An activation returns. -/
theorem Machine.guardedReturn_inv {success : Bool} {below : List Frame} {outer : List Value}
    {m : Machine W} (h : Held clean (runningMarkers below ++ outer) 0 ctx)
    (hvars : ∀ frame ∈ below, frame.VarsFree) (hret : guardedReturn success below ctx = some m) :
    m.MarkersInv clean outer := by
  cases below with
  | nil =>
    obtain rfl := Option.some.inj hret
    exact ⟨h, hvars⟩
  | cons caller below =>
    simp only [guardedReturn] at hret
    split at hret
    · cases hret
    · next s c f hafter =>
      obtain rfl := Option.some.inj hret
      rw [List.forall_mem_cons] at hvars
      rw [runningMarkers_cons] at h
      obtain ⟨hheld, hfree⟩ := guardedAfter_held h hvars.1 hafter
      rw [← runningMarkers_cons] at hheld
      exact ⟨hheld, List.forall_mem_cons.mpr ⟨hfree, hvars.2⟩⟩

theorem Machine.guardedStep_inv {fuel : ℕ} {outer : List Value} {m m' : Machine W}
    (hE : E.FrameFree clean) (h : m.MarkersInv clean outer)
    (hstep : m.guardedStep E fuel = some m') : m'.MarkersInv clean outer := by
  obtain ⟨frame, below, hframes, hcases⟩ := guardedStep_cases hstep
  have hheld := h.held
  have hvars := h.varsFree
  rw [hframes, List.forall_mem_cons] at hvars
  rw [hframes, runningMarkers_cons] at hheld
  rcases hcases with ⟨hstop, hret⟩ | ⟨hrun, -, -, inst, next, -, hcases⟩
  · rw [Frame.live_stopped hstop] at hheld
    exact guardedReturn_inv hheld hvars.2 hret
  · rw [Frame.live_running hrun, List.singleton_append] at hheld
    rcases hcases with ⟨ctx, obj, code, count, ctx', callee, hcallee, htakes, hcount, henter, rfl⟩ |
      ⟨-, s, ctx', frame', hround, rfl⟩
    · -- a new activation above the calling one
      obtain ⟨target, function, hinst, htarget, -⟩ := scriptCallee_some hcallee
      have hbefore : Held clean (frame.marker :: (runningMarkers below ++ outer)) 0 ctx :=
        callInstruction_keeps (heldInvariant hE) hinst ⟨hheld.markers, htakes, hheld.free⟩ _ htarget
      obtain ⟨hafter, hfree⟩ := enter_held ⟨hbefore.markers, hcount, hbefore.free⟩ henter
      refine ⟨?_, List.forall_mem_cons.mpr ⟨hfree, List.forall_mem_cons.mpr hvars⟩⟩
      have hwaiting : ({ frame with pc := next } : Frame).live = [frame.marker] :=
        Frame.live_running hrun
      rw [runningMarkers_cons, runningMarkers_cons, Frame.live_running (enter_some henter).2.2.1,
        hwaiting]
      exact hafter
    · obtain ⟨hafter, hfree⟩ :=
        guardedStep_held hE (guardedExecute_held hE fuel) hheld hvars.1 hrun hround
      rw [← runningMarkers_cons] at hafter
      exact ⟨hafter, List.forall_mem_cons.mpr ⟨hfree, hvars.2⟩⟩

theorem GuardedReaches.inv {fuel : ℕ} {outer : List Value} {m m' : Machine W}
    (hE : E.FrameFree clean) (h : m.MarkersInv clean outer) (hrun : GuardedReaches E fuel m m') :
    m'.MarkersInv clean outer := by
  induction hrun with
  | refl => exact h
  | tail _ hstep ih => exact Machine.guardedStep_inv hE ih hstep

end

/-- **No dead frame is visible in a guarded run.** In every state of it the markers on the stack are
    those of activations that are running, from the innermost one outwards, and of activations
    outside the run. When the run has returned, the marker of the function that was called is gone. -/
theorem markers_running {E : Env W} {clean : W → Prop} (hE : E.FrameFree clean) {fuel n : ℕ}
    {obj : Word} {code : Code} {ctx ctx' : Context W} {frame : Frame}
    (henter : enter E obj code n ctx = some (ctx', frame)) (hfree : ctx.FrameFree clean)
    (hargs : ctx.operandsOk n) {m : Machine W}
    (hrun : GuardedReaches E fuel ⟨true, [frame], ctx'⟩ m) :
    (markers m.ctx.stack).Sublist (runningMarkers m.frames ++ markers ctx.stack) ∧
      (m.frames = [] → frame.marker ∉ ctx.stack → frame.marker ∉ m.ctx.stack) := by
  have hctx : Held clean (markers ctx.stack) n ctx := ⟨.refl _, hargs, hfree⟩
  obtain ⟨hheld, hvars⟩ := enter_held hctx henter
  have hrunning := (enter_some henter).2.2.1
  have hinv : Machine.MarkersInv clean (markers ctx.stack) ⟨true, [frame], ctx'⟩ := by
    refine ⟨?_, List.forall_mem_singleton.mpr hvars⟩
    rw [runningMarkers_cons, Frame.live_running hrunning]
    exact hheld
  have hsub := (hrun.inv hE hinv).held.markers
  refine ⟨hsub, fun hnil hnot hmem => hnot ?_⟩
  rw [hnil] at hsub
  have hmarker : frame.marker ∈ markers m.ctx.stack := List.mem_filter.mpr ⟨hmem, rfl⟩
  exact (List.mem_filter.mp (hsub.subset hmarker)).1

/-- `PUSHI 1; RETURN` -/
def returnCode : Code := ⟨1, 2, fun pc => [(⟨.pushI, [1]⟩, 1), (⟨.ret, []⟩, 2)][pc]?⟩

/-- `PUSHI 0; CALL_OBJ 0`: the call of something that is no function. -/
def callNumberCode : Code := ⟨1, 2, fun pc => [(⟨.pushI, [0]⟩, 1), (⟨.callObj, [0]⟩, 2)][pc]?⟩

theorem exceptionEnv_frameFree : exceptionEnv.FrameFree (fun _ => True) where
  getValue _ h := nomatch h
  setValue _ _ _ := trivial
  getStaticField _ h := nomatch h
  setStaticField _ _ _ := trivial
  allocateObject _ _ := trivial
  arrayLoad _ _ h := nomatch h
  arrayStore _ _ _ h := nomatch h
  native h := nomatch h

/-- The activation of a function with the given code, called without arguments. -/
def calledFrame (code : Code) : Frame :=
  { addr := 1, code := code, running := true, pc := 0, flags := ⟨false, false, false⟩
    localVars := [Value.object 0], handlerStack := [] }

theorem markers_running_return :
    (calledFrame returnCode).marker ∉ [Value.integer 1, Value.integer 7] := by
  have henter : enter exceptionEnv 0 returnCode 0 ⟨[Value.integer 7], false, Value.zero, ()⟩ =
      some (⟨[(calledFrame returnCode).marker, Value.integer 7], false, Value.zero, ()⟩,
        calledFrame returnCode) := rfl
  have hrun : GuardedReaches exceptionEnv 1
      ⟨true, [calledFrame returnCode],
        ⟨[(calledFrame returnCode).marker, Value.integer 7], false, Value.zero, ()⟩⟩
      ⟨true, [], ⟨[Value.integer 1, Value.integer 7], false, Value.zero, ()⟩⟩ :=
    .head rfl (.head rfl (.head rfl .refl))
  have hfree : Context.FrameFree (fun _ => True)
      (⟨[Value.integer 7], false, Value.zero, ()⟩ : Context Unit) := ⟨trivial, by decide⟩
  exact (markers_running exceptionEnv_frameFree henter hfree rfl hrun).2 rfl (by decide)

/-- A failing instruction leaves the marker of its activation on the stack. -/
theorem run_leaves_marker :
    run exceptionEnv (execute exceptionEnv 1) 2 0 callNumberCode 0 ⟨[], false, Value.zero, ()⟩ =
      some (false, ⟨[(calledFrame callNumberCode).marker], false, Value.zero, ()⟩) := rfl

end B0rk
