import B0rk.Assembler.Optimise
import B0rk.Assembler.Proofs.Basic
import B0rk.Executor.Proofs.Recode
import B0rk.Executor.Proofs.Typed
import B0rk.Executor.Proofs.Unwind

set_option autoImplicit false

/-! # What the first passes of the optimiser keep

The passes look at the instructions in the order in which they stand. What they infer is right for a
run of the code as long as the run has the operands that the types stand for, and comes to each
instruction from the one before it where that was taken into account; the run is then a run of the
optimised code too. -/

namespace B0rk

variable {W : Type} {E : Env W} {exec : Execute W}

/-! ## The rewritten instructions -/

/-- The variable that a `LOAD_VAR` loads. -/
def Instruction.loads (inst : Instruction) : Option Word :=
  if inst.op = .loadVar then inst.args[0]? else none

theorem Instruction.loads_some {inst : Instruction} {v : Word} :
    inst.loads = some v ↔ inst.op = .loadVar ∧ inst.args[0]? = some v := by
  unfold Instruction.loads
  split
  · next hop => exact ⟨fun h => ⟨hop, h⟩, fun h => h.2⟩
  · next hop => exact ⟨nofun, fun h => absurd h.1 hop⟩

/-- What the first pass makes of an instruction, behind one that has loaded `loaded`. -/
inductive Rewritten (loaded : Option Word) (inst : Instruction) : Instruction → Prop
  | same : Rewritten loaded inst inst
  | typed {type : ℕ} (h : takesType type inst.op = true) : Rewritten loaded inst (addType type inst)
  | dup {v : Word} (hloads : inst.loads = some v) (hloaded : loaded = some v) :
      Rewritten loaded inst ⟨.dup, []⟩

theorem dupSecondLoad_cases (loaded : Option Word) (inst : Instruction) :
    dupSecondLoad loaded inst = inst ∨ dupSecondLoad loaded inst = ⟨.dup, []⟩ ∧
      ∃ v, inst.loads = some v ∧ loaded = some v := by
  unfold dupSecondLoad
  split
  · next h =>
    obtain ⟨hop, hsome, heq⟩ := h
    obtain ⟨v, hv⟩ := Option.isSome_iff_exists.mp hsome
    refine .inr ⟨rfl, v, ?_, hv⟩
    rw [Instruction.loads, if_pos hop, heq, hv]
  · exact .inl rfl

/-- One instruction of the first pass: what becomes of it, and of the state. -/
inductive InferStep (s : InferState) (inst : Instruction) : Instruction → InferState → Prop
  | load {v : Word} {info : VarInfo} (hop : inst.op = .loadVar) (hv : inst.args[0]? = some v)
      (hinfo : s.vars[v.toNat]? = some info) :
      InferStep s inst inst
        { vars := s.vars.set v.toNat { info with loaded := info.loaded + 1 }
          prevType := info.type, lastValue := info.lastValue, loaded := some v }
  | store {v : Word} {info : VarInfo} (hop : inst.op = .storeVar) (hv : inst.args[0]? = some v)
      (hinfo : s.vars[v.toNat]? = some info) :
      InferStep s inst inst
        { s with
          vars := s.vars.set v.toNat ⟨s.prevType, info.loaded, info.stored + 1, s.lastValue⟩
          loaded := none }
  | inc {v : Word} {info : VarInfo} (hop : inst.op = .incVar ∨ inst.op = .incVarD)
      (hv : inst.args[0]? = some v) (hinfo : s.vars[v.toNat]? = some info) :
      InferStep s inst inst
        { s with
          vars := s.vars.set v.toNat ⟨0, info.loaded + 1, info.stored + 1, info.lastValue⟩
          loaded := none }
  | typed {c : Value} (hload : inst.op ≠ .loadVar) (hwrites : inst.op.writesVar = false)
      (hc : pushedConstant inst = some c) (htakes : takesType s.prevType inst.op = true) :
      InferStep s inst (addType s.prevType inst) { s with lastValue := c, loaded := none }
  | dup {c : Value} (hop : inst.op = .dup) (hc : pushedConstant inst = some c) :
      InferStep s inst inst { s with lastValue := c, loaded := none }
  | other {c : Value} (hload : inst.op ≠ .loadVar) (hwrites : inst.op.writesVar = false)
      (hc : pushedConstant inst = some c) :
      InferStep s inst inst
        { s with prevType := inst.op.type, lastValue := c, loaded := none }

theorem inferInstruction_step {s s' : InferState} {inst inst' : Instruction}
    (h : inferInstruction s inst = some (inst', s')) : InferStep s inst inst' s' := by
  unfold inferInstruction at h
  split at h
  · next hop =>
    simp only [Option.bind_eq_bind, Option.bind_eq_some_iff, Option.some.injEq, Prod.mk.injEq] at h
    obtain ⟨v, hv, info, hinfo, rfl, rfl⟩ := h
    exact .load hop hv hinfo
  · next hop =>
    simp only [Option.bind_eq_bind, Option.bind_eq_some_iff, Option.some.injEq, Prod.mk.injEq] at h
    obtain ⟨v, hv, info, hinfo, rfl, rfl⟩ := h
    exact .store hop hv hinfo
  · next hop =>
    simp only [Option.bind_eq_bind, Option.bind_eq_some_iff, Option.some.injEq, Prod.mk.injEq] at h
    obtain ⟨v, hv, info, hinfo, rfl, rfl⟩ := h
    exact .inc (.inl hop) hv hinfo
  · next hop =>
    simp only [Option.bind_eq_bind, Option.bind_eq_some_iff, Option.some.injEq, Prod.mk.injEq] at h
    obtain ⟨v, hv, info, hinfo, rfl, rfl⟩ := h
    exact .inc (.inr hop) hv hinfo
  · next hload hstore hinc hincD =>
    have hwrites : inst.op.writesVar = false := by
      unfold OpCode.writesVar
      split
      · next hop => exact absurd hop hstore
      · next hop => exact absurd hop hinc
      · next hop => exact absurd hop hincD
      · rfl
    simp only [Option.bind_eq_bind, Option.bind_eq_some_iff] at h
    obtain ⟨c, hc, h⟩ := h
    split at h
    · next htakes =>
      obtain ⟨rfl, rfl⟩ := Prod.mk.inj (Option.some.inj h)
      exact .typed hload hwrites hc htakes
    · split at h
      · next hdup =>
        obtain ⟨rfl, rfl⟩ := Prod.mk.inj (Option.some.inj h)
        exact .dup hdup hc
      · obtain ⟨rfl, rfl⟩ := Prod.mk.inj (Option.some.inj h)
        exact .other hload hwrites hc

theorem inferInstruction_some {s s' : InferState} {inst inst' : Instruction}
    (h : inferInstruction s inst = some (inst', s')) :
    (inst' = inst ∨ takesType s.prevType inst.op = true ∧ inst' = addType s.prevType inst) ∧
      s'.loaded = inst.loads := by
  have hnone (hop : inst.op ≠ .loadVar) : inst.loads = none := if_neg hop
  cases inferInstruction_step h with
  | load hop hv hinfo => exact ⟨.inl rfl, (Instruction.loads_some.mpr ⟨hop, hv⟩).symm⟩
  | store hop => exact ⟨.inl rfl, (hnone (by rw [hop]; decide)).symm⟩
  | inc hop =>
    refine ⟨.inl rfl, (hnone ?_).symm⟩
    rcases hop with hop | hop <;> rw [hop] <;> decide
  | typed hload _ _ htakes => exact ⟨.inr ⟨htakes, rfl⟩, (hnone hload).symm⟩
  | dup hop => exact ⟨.inl rfl, (hnone (by rw [hop]; decide)).symm⟩
  | other hload => exact ⟨.inl rfl, (hnone hload).symm⟩

/-- The variable that the instruction before position `i` has loaded. -/
def loadedBefore (loaded : Option Word) (insts : List Instruction) : ℕ → Option Word
  | 0 => loaded
  | i + 1 => insts[i]?.bind Instruction.loads

theorem Rewritten.mono {loaded loaded' : Option Word} {inst inst' : Instruction}
    (h : Rewritten loaded inst inst') (hle : ∀ v, loaded = some v → loaded' = some v) :
    Rewritten loaded' inst inst' := by
  cases h with
  | same => exact .same
  | typed htakes => exact .typed htakes
  | dup hloads hloaded => exact .dup hloads (hle _ hloaded)

/-- **The first pass.** Each instruction stays, gets a type or is a second load of a variable. -/
theorem inferTypes_rewritten {insts insts' : List Instruction} {vars : List VarInfo} {s : InferState}
    (h : inferTypes insts s = some (insts', vars)) :
    insts'.length = insts.length ∧ ∀ (i : ℕ) inst inst', insts[i]? = some inst →
      insts'[i]? = some inst' → Rewritten (loadedBefore s.loaded insts i) inst inst' := by
  induction insts generalizing insts' s with
  | nil =>
    obtain ⟨rfl, rfl⟩ := Prod.mk.inj (Option.some.inj h)
    refine ⟨rfl, fun i inst inst' hi _ => ?_⟩
    simp at hi
  | cons first rest ih =>
    simp only [inferTypes, Option.bind_eq_bind, Option.bind_eq_some_iff] at h
    obtain ⟨⟨first', s₁⟩, hfirst, ⟨rest', vars₁⟩, hrest, h⟩ := h
    obtain ⟨rfl, rfl⟩ := Prod.mk.inj (Option.some.inj h)
    obtain ⟨hlen, hrewritten⟩ := ih hrest
    obtain ⟨hfirst, hloaded⟩ := inferInstruction_some hfirst
    have hdup := dupSecondLoad_cases s.loaded first
    refine ⟨congrArg Nat.succ hlen, fun i inst inst' hi hi' => ?_⟩
    cases i with
    | zero =>
      obtain rfl := Option.some.inj hi
      obtain rfl := Option.some.inj hi'
      rcases hdup with hdup | ⟨hdup, v, hloads, hbefore⟩
      · rw [hdup] at hfirst
        rcases hfirst with rfl | ⟨htakes, rfl⟩
        · exact .same
        · exact .typed htakes
      · rw [hdup] at hfirst
        rcases hfirst with rfl | ⟨htakes, -⟩
        · exact .dup hloads hbefore
        · rw [takesType] at htakes
          simp [OpCode.toNat] at htakes
    | succ i =>
      refine (hrewritten i inst inst' hi hi').mono fun v hv => ?_
      cases i with
      | zero =>
        -- a load that has become a `DUP` is not looked back at
        show first.loads = some v
        have hv : s₁.loaded = some v := hv
        rw [hloaded] at hv
        rcases hdup with hdup | ⟨hdup, -⟩
        · rwa [hdup] at hv
        · rw [hdup] at hv
          cases hv
      | succ i =>
        rw [loadedBefore, List.getElem?_cons_succ]
        exact hv

/-! ## Operands of a typed instruction -/

/-- The operands on which an instruction with a type does what the one for any type does. -/
inductive OperandsFit : OpCode → OpCode → List Value → Prop
  | integers {op op' : OpCode} {stack : List Value}
      (hop : (op, op') ∈ [(.add, .addI), (.sub, .subI), (.mul, .mulI), (.div, .divI)])
      (hobject : ∀ v ∈ stack.head?, v.type ≠ .object)
      (hdouble : ∀ v ∈ stack.take 2, v.type ≠ .double) : OperandsFit op op' stack
  | doubles {op op' : OpCode} {stack : List Value}
      (hop : (op, op') ∈ [(.add, .addD), (.sub, .subD), (.mul, .mulD), (.div, .divD)])
      (hdouble : ∀ v ∈ stack.take 2, v.type = .double) : OperandsFit op op' stack
  | logical {op op' : OpCode} {stack : List Value}
      (hop : (op, op') ∈ [(.and, .andI), (.not, .notI)]) : OperandsFit op op' stack

theorem arithmetic_integers {name : String} {intOp : Word → Word → Option Word}
    {doubleOp : Word → Word → Word} {args args' : List Word} {ctx : Context W} {frame : Frame}
    (hobject : ∀ v ∈ ctx.stack.head?, v.type ≠ .object)
    (hdouble : ∀ v ∈ ctx.stack.take 2, v.type ≠ .double) :
    typedArithmetic .integer intOp args' ctx frame =
      arithmetic E exec name intOp doubleOp args ctx frame := by
  obtain ⟨stack, exception, exceptionValue, world⟩ := ctx
  match stack with
  | [] => rfl
  | [l] =>
    have hl : l.isObject = false := decide_eq_false (hobject l rfl)
    simp [typedArithmetic, arithmetic, Context.pop, hl]
  | l :: r :: stack =>
    have hl : l.isObject = false := decide_eq_false (hobject l rfl)
    have hld : l.type ≠ .double := hdouble l (by simp)
    have hrd : r.type ≠ .double := hdouble r (by simp)
    simp [typedArithmetic, arithmetic, Context.pop, hl, hld, hrd, Value.integer]

theorem arithmetic_doubles {name : String} {intOp : Word → Word → Option Word}
    {doubleOp : Word → Word → Word} {args args' : List Word} {ctx : Context W} {frame : Frame}
    (hdouble : ∀ v ∈ ctx.stack.take 2, v.type = .double) :
    typedArithmetic .double (fun a b => some (doubleOp a b)) args' ctx frame =
      arithmetic E exec name intOp doubleOp args ctx frame := by
  obtain ⟨stack, exception, exceptionValue, world⟩ := ctx
  match stack with
  | [] => rfl
  | [l] =>
    have hl : l.type = .double := hdouble l (by simp)
    simp [typedArithmetic, arithmetic, Context.pop, Value.isObject, hl]
  | l :: r :: stack =>
    have hl : l.type = .double := hdouble l (by simp)
    have hr : r.type = .double := hdouble r (by simp)
    simp [typedArithmetic, arithmetic, Context.pop, Value.isObject, Value.doubleValue, hl, hr,
      Value.double]

/-- An instruction for fitting operands is one that the executor knows, and does the same. -/
theorem OperandsFit.sameEffect {inst inst' : Instruction} {ctx : Context W}
    (h : OperandsFit inst.op inst'.op ctx.stack) (frame : Frame) :
    inst'.op.implemented = true ∧ SameEffect E exec inst' inst ctx frame := by
  obtain ⟨op, args⟩ := inst
  obtain ⟨op', args'⟩ := inst'
  cases h with
  | integers hop hobject hdouble =>
    have same (name : String) (intOp : Word → Word → Option Word) (doubleOp : Word → Word → Word) :
        typedArithmetic .integer intOp args' ctx frame =
          arithmetic E exec name intOp doubleOp args ctx frame :=
      arithmetic_integers hobject hdouble
    simp only [List.mem_cons, Prod.mk.injEq, List.not_mem_nil, or_false] at hop
    rcases hop with ⟨rfl, rfl⟩ | ⟨rfl, rfl⟩ | ⟨rfl, rfl⟩ | ⟨rfl, rfl⟩
    · exact ⟨rfl, same "operator+" (fun a b => some (a + b)) E.double.add⟩
    · exact ⟨rfl, same "operator-" (fun a b => some (a - b)) E.double.sub⟩
    · exact ⟨rfl, same "operator*" (fun a b => some (a * b)) E.double.mul⟩
    · exact ⟨rfl, same "operator/" sdiv? E.double.div⟩
  | doubles hop hdouble =>
    have same (name : String) (intOp : Word → Word → Option Word) (doubleOp : Word → Word → Word) :
        typedArithmetic .double (fun a b => some (doubleOp a b)) args' ctx frame =
          arithmetic E exec name intOp doubleOp args ctx frame :=
      arithmetic_doubles hdouble
    simp only [List.mem_cons, Prod.mk.injEq, List.not_mem_nil, or_false] at hop
    rcases hop with ⟨rfl, rfl⟩ | ⟨rfl, rfl⟩ | ⟨rfl, rfl⟩ | ⟨rfl, rfl⟩
    · exact ⟨rfl, same "operator+" (fun a b => some (a + b)) E.double.add⟩
    · exact ⟨rfl, same "operator-" (fun a b => some (a - b)) E.double.sub⟩
    · exact ⟨rfl, same "operator*" (fun a b => some (a * b)) E.double.mul⟩
    · exact ⟨rfl, same "operator/" sdiv? E.double.div⟩
  | logical hop =>
    simp only [List.mem_cons, Prod.mk.injEq, List.not_mem_nil, or_false] at hop
    rcases hop with ⟨rfl, rfl⟩ | ⟨rfl, rfl⟩
    · exact ⟨rfl, rfl⟩
    · exact ⟨rfl, rfl⟩

/-! ## Second loads -/

/-- The exception of a state that goes on is caught, unless the activation has no handler yet. -/
def Quiet (s : Context W × Frame) : Prop :=
  s.2.running = true → s.1.exception = true → s.2.handlerStack = []

theorem afterOpcode_quiet {success b : Bool} {ctx : Context W} {frame : Frame}
    {t : Context W × Frame} (h : afterOpcode success ctx frame = some (b, t)) : Quiet t := by
  intro hrunning hexc
  unfold afterOpcode at h
  dsimp only at h
  split at h
  · simp only [Option.bind_eq_bind, Option.bind_eq_some_iff] at h
    obtain ⟨⟨ctx', frame'⟩, hhandle, h⟩ := h
    obtain ⟨rfl, rfl⟩ := Prod.mk.inj (Option.some.inj h)
    unfold handleException at hhandle
    split at hhandle
    · simp only [Option.bind_eq_bind, Option.bind_eq_some_iff] at hhandle
      obtain ⟨stack, -, hhandle⟩ := hhandle
      obtain ⟨rfl, rfl⟩ := Prod.mk.inj (Option.some.inj hhandle)
      cases hrunning
    · simp only [Option.bind_eq_bind, Option.bind_eq_some_iff] at hhandle
      obtain ⟨frame'', -, hhandle⟩ := hhandle
      obtain ⟨rfl, rfl⟩ := Prod.mk.inj (Option.some.inj hhandle)
      cases hexc
  · next hquiet =>
    obtain ⟨rfl, rfl⟩ := Prod.mk.inj (Option.some.inj h)
    exact absurd hexc hquiet

/-- An instruction that pushes a value, in a quiet state. -/
theorem Round.pushes {success : Bool} {s t : Context W × Frame} {localVars : ℕ}
    {insts : List Instruction} {inst : Instruction} {value : Value} (h : Round E exec s success t)
    (hcode : s.2.code = .ofInstructions localVars insts) (hinst : insts[s.2.pc]? = some inst)
    (hop : opcodeTable E exec inst.op inst.args s.1 { s.2 with pc := s.2.pc + 1 } =
      some (true, s.1.push value, { s.2 with pc := s.2.pc + 1 }))
    (hquiet : Quiet s) (hcont : t.2.continues = true) :
    t = (s.1.push value, { s.2 with pc := s.2.pc + 1 }) := by
  obtain ⟨hcont', -, hstep⟩ := h
  obtain ⟨inst₁, next, success₁, ctx₁, frame₁, hfetch, hop₁, hafter⟩ := step_some hstep
  rw [hcode] at hfetch
  obtain ⟨hinst₁, rfl⟩ := ofInstructions_fetch hfetch
  obtain rfl := Option.some.inj (hinst.symm.trans hinst₁)
  obtain ⟨rfl, rfl, rfl⟩ : true = success₁ ∧ s.1.push value = ctx₁ ∧ _ = frame₁ := by
    simpa using hop.symm.trans hop₁
  unfold afterOpcode at hafter
  dsimp only at hafter
  split at hafter
  · next hexc =>
    -- the exception from before ends the activation
    have hrunning : s.2.running = true := by
      simp only [Frame.continues, Bool.and_eq_true] at hcont'
      exact hcont'.1
    simp only [Option.bind_eq_bind, Option.bind_eq_some_iff] at hafter
    obtain ⟨⟨ctx', frame'⟩, hhandle, hafter⟩ := hafter
    obtain ⟨-, rfl⟩ := Prod.mk.inj (Option.some.inj hafter)
    unfold handleException at hhandle
    simp only [if_true, hquiet hrunning hexc, Option.bind_eq_bind, Option.bind_eq_some_iff] at hhandle
    obtain ⟨stack, -, hhandle⟩ := hhandle
    obtain ⟨rfl, rfl⟩ := Prod.mk.inj (Option.some.inj hhandle)
    cases hcont
  · exact (Prod.mk.inj (Option.some.inj hafter)).2.symm

/-- A `LOAD_VAR` in a quiet state leaves the variable on top of the stack. -/
theorem Round.loadVar {success : Bool} {s t : Context W × Frame} {localVars : ℕ}
    {insts : List Instruction} {inst : Instruction} {v : Word} (h : Round E exec s success t)
    (hcode : s.2.code = .ofInstructions localVars insts) (hinst : insts[s.2.pc]? = some inst)
    (hloads : inst.loads = some v) (hquiet : Quiet s) (hcont : t.2.continues = true) :
    ∃ value, s.2.localVars[v.toNat]? = some value ∧
      t = (s.1.push value, { s.2 with pc := s.2.pc + 1 }) := by
  obtain ⟨inst₁, next, success₁, ctx₁, frame₁, hfetch, hop, -⟩ := step_some h.2.2
  rw [hcode] at hfetch
  obtain ⟨hinst₁, rfl⟩ := ofInstructions_fetch hfetch
  obtain rfl := Option.some.inj (hinst.symm.trans hinst₁)
  have hload := Instruction.loads_some.mp hloads
  have hopcode : opcodeTable E exec inst.op inst.args = opcodeLoadVar inst.args := by
    rw [hload.1]
    rfl
  rw [hopcode] at hop
  simp only [opcodeLoadVar, hload.2, Option.bind_eq_bind, Option.bind_some,
    Option.bind_eq_some_iff] at hop
  obtain ⟨value, hvalue, -⟩ := hop
  refine ⟨value, hvalue, h.pushes hcode hinst ?_ hquiet hcont⟩
  rw [hopcode]
  simp only [opcodeLoadVar, hload.2, Option.bind_eq_bind, Option.bind_some]
  show (s.2.localVars[v.toNat]?.bind _) = _
  rw [hvalue]
  rfl

/-- `DUP` does what `LOAD_VAR` does where the variable is on top of the stack. -/
theorem dup_sameEffect {inst : Instruction} {v : Word} {value : Value} {ctx : Context W}
    {frame : Frame} (hloads : inst.loads = some v) (hvalue : frame.localVars[v.toNat]? = some value)
    (htop : ctx.stack.head? = some value) : SameEffect E exec ⟨.dup, []⟩ inst ctx frame := by
  obtain ⟨op, args⟩ := inst
  obtain ⟨hop, hv⟩ := Instruction.loads_some.mp hloads
  obtain rfl : op = .loadVar := hop
  have hv : args[0]? = some v := hv
  show opcodeDup [] ctx frame = opcodeLoadVar args ctx frame
  simp [opcodeDup, opcodeLoadVar, Context.peek, htop, hv, hvalue]

/-! ## Runs -/

/-- The operands of the instruction that a state is at have the types that the pass has inferred, if
    it has given the instruction a type. -/
def TypesFit (insts' insts : List Instruction) (s : Context W × Frame) : Prop :=
  ∀ inst inst', insts[s.2.pc]? = some inst → insts'[s.2.pc]? = some inst' → inst' ≠ inst →
    inst.op ≠ .loadVar → OperandsFit inst.op inst'.op s.1.stack

/-- A round that comes to a load that has become a `DUP` comes from the load before it, and not with
    a jump. -/
def FallsInto (insts' insts : List Instruction) (s t : Context W × Frame) : Prop :=
  ∀ inst inst', insts[t.2.pc]? = some inst → insts'[t.2.pc]? = some inst' → inst' ≠ inst →
    inst.op = .loadVar → t.2.continues = true → t.2.pc = s.2.pc + 1

/-- A round of the code before the pass that the pass has reckoned with. -/
structure TypedRound (E : Env W) (exec : Execute W) (insts' insts : List Instruction)
    (s t : Context W × Frame) : Prop where
  round : ∃ success, Round E exec s success t
  typesFit : TypesFit insts' insts s
  fallsInto : FallsInto insts' insts s t

/-- What the second load of a variable finds. -/
def LoadedOnTop (insts' insts : List Instruction) (s : Context W × Frame) : Prop :=
  ∀ inst inst' v, insts[s.2.pc]? = some inst → insts'[s.2.pc]? = some inst' → inst' ≠ inst →
    inst.loads = some v → ∃ value, s.2.localVars[v.toNat]? = some value ∧
      s.1.stack.head? = some value

section

variable {localVars argCount : ℕ} {insts insts' : List Instruction} {vars : List VarInfo}
variable {s t : Context W × Frame}

/-- An instruction that the pass has changed, in a state that fits. -/
theorem Rewritten.sameEffect {loaded : Option Word} {inst inst' : Instruction}
    (h : Rewritten loaded inst inst') (hinst : insts[s.2.pc]? = some inst)
    (hinst' : insts'[s.2.pc]? = some inst') (htypes : TypesFit insts' insts s)
    (hloaded : LoadedOnTop insts' insts s) :
    (inst' ≠ inst → inst'.op.implemented = true) ∧
      SameEffect E exec inst' inst s.1 { s.2 with pc := s.2.pc + 1 } := by
  by_cases hne : inst' = inst
  · subst hne
    exact ⟨fun h => absurd rfl h, rfl⟩
  · cases h with
    | same => exact absurd rfl hne
    | typed htakes =>
      have hop : inst.op ≠ .loadVar := by
        intro hop
        simp [takesType, hop, OpCode.toNat] at htakes
      obtain ⟨himpl, hsame⟩ := (htypes inst _ hinst hinst' hne hop).sameEffect
        { s.2 with pc := s.2.pc + 1 }
      exact ⟨fun _ => himpl, hsame⟩
    | dup hloads _ =>
      obtain ⟨value, hvalue, htop⟩ := hloaded inst _ _ hinst hinst' hne hloads
      exact ⟨fun _ => rfl, dup_sameEffect hloads hvalue htop⟩

/-- One round comes to the second load of a variable with the variable on top of the stack. -/
theorem TypedRound.loadedOnTop (h : inferTypes insts (.initial localVars argCount) =
      some (insts', vars)) (hcode : s.2.code = .ofInstructions localVars insts) (hquiet : Quiet s)
    (hround : TypedRound E exec insts' insts s t) (hcont : t.2.continues = true) :
    LoadedOnTop insts' insts t := by
  intro inst inst' v hinst hinst' hne hloads
  have hpc := hround.fallsInto inst inst' hinst hinst' hne (Instruction.loads_some.mp hloads).1 hcont
  have hrewritten := (inferTypes_rewritten h).2 t.2.pc inst inst' hinst hinst'
  rw [hpc] at hrewritten
  obtain ⟨success, hr⟩ := hround.round
  cases hrewritten with
  | same => exact absurd rfl hne
  | typed htakes => simp [takesType, (Instruction.loads_some.mp hloads).1, OpCode.toNat] at htakes
  | @dup w hloads' hbefore =>
    obtain rfl := Option.some.inj (hloads.symm.trans hloads')
    obtain ⟨before, hbefore, hw⟩ := Option.bind_eq_some_iff.mp hbefore
    obtain ⟨value, hvalue, rfl⟩ := hr.loadVar hcode hbefore hw hquiet hcont
    exact ⟨value, hvalue, rfl⟩

/-- What holds in every state of a run that the pass has reckoned with. -/
structure TypedState (localVars : ℕ) (insts' insts : List Instruction) (s : Context W × Frame) :
    Prop where
  code : s.2.code = .ofInstructions localVars insts
  quiet : Quiet s
  loadedOnTop : s.2.continues = true → LoadedOnTop insts' insts s

theorem TypedState.enter {obj : Word} {n : ℕ} {ctx ctx' : Context W} {frame : Frame}
    (h : inferTypes insts (.initial localVars argCount) = some (insts', vars))
    (henter : enter E obj (.ofInstructions localVars insts) n ctx = some (ctx', frame)) :
    TypedState localVars insts' insts (ctx', frame) := by
  obtain ⟨-, -, -, hpc, hcode, hhandlers, -⟩ := enter_some henter
  refine ⟨hcode, fun _ _ => hhandlers, fun _ inst inst' v hinst hinst' hne hloads => ?_⟩
  have hrewritten := (inferTypes_rewritten h).2 _ inst inst' hinst hinst'
  rw [hpc] at hrewritten
  cases hrewritten with
  | same => exact absurd rfl hne
  | typed htakes => simp [takesType, (Instruction.loads_some.mp hloads).1, OpCode.toNat] at htakes
  | dup _ hbefore => cases hbefore

theorem TypedState.round (h : inferTypes insts (.initial localVars argCount) = some (insts', vars))
    (hs : TypedState localVars insts' insts s) (hround : TypedRound E exec insts' insts s t) :
    TypedState localVars insts' insts t := by
  obtain ⟨success, hr⟩ := hround.round
  obtain ⟨_, _, _, _, _, _, _, hafter⟩ := step_some hr.2.2
  exact ⟨hr.code.trans hs.code, afterOpcode_quiet hafter,
    fun hcont => hround.loadedOnTop h hs.code hs.quiet hcont⟩

theorem TypedState.run (h : inferTypes insts (.initial localVars argCount) = some (insts', vars))
    (hs : TypedState localVars insts' insts s)
    (hrun : Relation.ReflTransGen (TypedRound E exec insts' insts) s t) :
    TypedState localVars insts' insts t := by
  induction hrun with
  | refl => exact hs
  | tail _ hround ih => exact ih.round h hround

/-- In a state of such a run the instruction has the same effect in both codes. -/
theorem TypedState.sameRound (h : inferTypes insts (.initial localVars argCount) =
      some (insts', vars)) (hs : TypedState localVars insts' insts s)
    (hcont : s.2.continues = true) (htypes : TypesFit insts' insts s) :
    SameRound E exec insts' insts s := fun inst inst' hinst hinst' =>
  (((inferTypes_rewritten h).2 _ inst inst' hinst hinst').sameEffect hinst hinst' htypes
    (hs.loadedOnTop hcont)).2

/-- **Type specialisation.** In every state that a run arrives in whose operands fit the inferred
    types and that falls into the second loads, a rewritten instruction is one that the executor
    knows and has the effect of the one it was; so the run is a run of the rewritten code too. -/
theorem inferTypes_sameEffect {obj : Word} {n : ℕ} {ctx₀ ctx : Context W} {frame₀ : Frame}
    (h : inferTypes insts (.initial localVars argCount) = some (insts', vars))
    (henter : enter E obj (.ofInstructions localVars insts) n ctx = some (ctx₀, frame₀))
    (hrun : Relation.ReflTransGen (TypedRound E exec insts' insts) (ctx₀, frame₀) t)
    (hcont : t.2.continues = true) (htypes : TypesFit insts' insts t) :
    Arrives E exec (recoded (.ofInstructions localVars insts') (ctx₀, frame₀))
        (recoded (.ofInstructions localVars insts') t) ∧
      ∃ inst inst', insts[t.2.pc]? = some inst ∧ insts'[t.2.pc]? = some inst' ∧
        (inst' ≠ inst → inst'.op.implemented = true) ∧
        SameEffect E exec inst' inst t.1 { t.2 with pc := t.2.pc + 1 } := by
  have hstart := TypedState.enter h henter
  have hlen := (inferTypes_rewritten h).1
  have harrives := (arrives_recode id (fun _ _ hr => hr.round) hlen hstart.code
    (fun u v hsu huv => (hstart.run h hsu).sameRound h huv.round.choose_spec.1 huv.typesFit) hrun).2
  have hs := hstart.run h hrun
  obtain ⟨inst, hinst⟩ := exists_instruction hs.code hcont
  obtain ⟨inst', hinst'⟩ : ∃ inst', insts'[t.2.pc]? = some inst' := by
    have hlt := (List.getElem?_eq_some_iff.mp hinst).1
    exact ⟨_, List.getElem?_eq_getElem (hlen ▸ hlt)⟩
  have hrewritten := (inferTypes_rewritten h).2 _ inst inst' hinst hinst'
  exact ⟨harrives, inst, inst', hinst, hinst',
    hrewritten.sameEffect hinst hinst' htypes (hs.loadedOnTop hcont)⟩

end

/-- A round from an instruction that stays to one that stays, or that is next. -/
theorem TypedRound.of_kept {insts insts' : List Instruction} {s t : Context W × Frame}
    {success : Bool} (h : Round E exec s success t) (hs : insts'[s.2.pc]? = insts[s.2.pc]?)
    (ht : insts'[t.2.pc]? = insts[t.2.pc]? ∨ t.2.pc = s.2.pc + 1) :
    TypedRound E exec insts' insts s t := by
  refine ⟨⟨success, h⟩, fun inst inst' hinst hinst' hne _ => ?_,
    fun inst inst' hinst hinst' hne _ _ => ?_⟩
  · exact absurd (Option.some.inj (hinst'.symm.trans (hs.trans hinst))) hne
  · rcases ht with ht | hpc
    · exact absurd (Option.some.inj (hinst'.symm.trans (ht.trans hinst))) hne
    · exact hpc

/-- `var x = 2; return x * x;`, before and after the pass. -/
def squareCode : List Instruction :=
  [⟨.pushI, [2]⟩, ⟨.storeVar, [1]⟩, ⟨.loadVar, [1]⟩, ⟨.loadVar, [1]⟩, ⟨.mul, []⟩, ⟨.ret, []⟩]

def squareTyped : List Instruction :=
  [⟨.pushI, [2]⟩, ⟨.storeVar, [1]⟩, ⟨.loadVar, [1]⟩, ⟨.dup, []⟩, ⟨.mulI, []⟩, ⟨.ret, []⟩]

theorem squareCode_inferTypes :
    (inferTypes squareCode (.initial 2 0)).map Prod.fst = some squareTyped := by decide

/-- The states of a run of it: where it is, the variable and the operands on the stack. -/
def squareState (pc : ℕ) (x : Value) (operands : List Value) : Context Unit × Frame :=
  (⟨operands ++ [⟨.frame, 1⟩], false, Value.zero, ()⟩,
    { addr := 1, code := .ofInstructions 2 squareCode, running := true, pc := pc
      flags := ⟨false, false, false⟩, localVars := [Value.object 0, x], handlerStack := [] })

theorem squareCode_run :
    Relation.ReflTransGen (TypedRound exceptionEnv (execute exceptionEnv 0) squareTyped squareCode)
      (squareState 0 Value.zero []) (squareState 4 (Value.integer 2)
        [Value.integer 2, Value.integer 2]) := by
  have hpush : Round exceptionEnv (execute exceptionEnv 0) (squareState 0 Value.zero []) true
      (squareState 1 Value.zero [Value.integer 2]) := ⟨rfl, rfl, rfl⟩
  have hstore : Round exceptionEnv (execute exceptionEnv 0)
      (squareState 1 Value.zero [Value.integer 2]) true
      (squareState 2 (Value.integer 2) []) := ⟨rfl, rfl, rfl⟩
  have hload : Round exceptionEnv (execute exceptionEnv 0) (squareState 2 (Value.integer 2) []) true
      (squareState 3 (Value.integer 2) [Value.integer 2]) := ⟨rfl, rfl, rfl⟩
  have hload' : Round exceptionEnv (execute exceptionEnv 0)
      (squareState 3 (Value.integer 2) [Value.integer 2]) true
      (squareState 4 (Value.integer 2) [Value.integer 2, Value.integer 2]) := ⟨rfl, rfl, rfl⟩
  have hdup : TypedRound exceptionEnv (execute exceptionEnv 0) squareTyped squareCode
      (squareState 3 (Value.integer 2) [Value.integer 2])
      (squareState 4 (Value.integer 2) [Value.integer 2, Value.integer 2]) := by
    refine ⟨⟨true, hload'⟩, fun inst _ hinst _ _ hop => ?_, fun _ _ _ _ _ _ _ => rfl⟩
    obtain rfl : ⟨.loadVar, [1]⟩ = inst := Option.some.inj hinst
    exact absurd rfl hop
  exact .head (.of_kept hpush rfl (.inl rfl)) (.head (.of_kept hstore rfl (.inl rfl))
    (.head (.of_kept hload rfl (.inr rfl)) (.single hdup)))

theorem squareCode_sameEffect :
    SameEffect exceptionEnv (execute exceptionEnv 0) ⟨.mulI, []⟩ ⟨.mul, []⟩
      (squareState 4 (Value.integer 2) [Value.integer 2, Value.integer 2]).1
      (squareState 5 (Value.integer 2) []).2 := by
  obtain ⟨⟨_, vars⟩, htyped, rfl⟩ := Option.map_eq_some_iff.mp squareCode_inferTypes
  have henter : enter exceptionEnv 0 (.ofInstructions 2 squareCode) 0
      (⟨[], false, Value.zero, ()⟩ : Context Unit) = some (squareState 0 Value.zero []) := rfl
  have htypes : TypesFit squareTyped squareCode
      (squareState 4 (Value.integer 2) [Value.integer 2, Value.integer 2]) := by
    intro inst inst' hinst hinst' _ _
    obtain rfl : ⟨.mul, []⟩ = inst := Option.some.inj hinst
    obtain rfl : ⟨.mulI, []⟩ = inst' := Option.some.inj hinst'
    exact .integers (by simp) (by simp [squareState, Value.integer])
      (by simp [squareState, Value.integer])
  obtain ⟨-, inst, inst', hinst, hinst', -, hsame⟩ :=
    inferTypes_sameEffect htyped henter squareCode_run rfl htypes
  obtain rfl : ⟨.mul, []⟩ = inst := Option.some.inj hinst
  obtain rfl : ⟨.mulI, []⟩ = inst' := Option.some.inj hinst'
  exact hsame

/-! ## A parameter that is a double -/

/-- `return 1 + x;` in a function of `x`. -/
def incrementBody : CodeBlock :=
  .mk true 2 2 [] [.returnExpr (some (.oper .unknown .add (some (.integer .integer 1))
    (some (.var .unknown 0 "x"))))]

def parameterEnv : AsmEnv :=
  { clazz := none, args := ["x"], chain := fun _ => none, getStatic := fun _ => false
    findClass := fun _ => 0, newString := fun _ => 0 }

def incrementedCode : List Instruction :=
  [⟨.loadVar, [1]⟩, ⟨.pushI, [1]⟩, ⟨.add, []⟩, ⟨.ret, []⟩, ⟨.pushI, [0]⟩, ⟨.ret, []⟩]

def incrementedTyped : List Instruction :=
  [⟨.loadVar, [1]⟩, ⟨.pushI, [1]⟩, ⟨.addI, []⟩, ⟨.ret, []⟩, ⟨.pushI, [0]⟩, ⟨.ret, []⟩]

theorem incremented_inferTypes :
    (inferTypes incrementedCode (.initial 3 1)).map Prod.fst = some incrementedTyped := by
  decide

theorem incremented_assembles :
    (assembleFunction parameterEnv incrementBody).Ok [] () incrementedCode := by
  have hvar : load parameterEnv [incrementBody] 0#64 "x" none = pushInstruction .loadVar [1] := rfl
  have hreturn : (assembleExpression parameterEnv (.returnExpr (some (.oper .unknown .add
      (some (.integer .integer 1)) (some (.var .unknown 0 "x"))))) [incrementBody] none false false).Ok
        [] () [⟨.loadVar, [1]⟩, ⟨.pushI, [1]⟩, ⟨.add, []⟩, ⟨.ret, []⟩] := by
    simp [assembleExpression, hvar, pushOperation, pushOperator, pushInstruction_ok]
  have hblock : (assembleBlock parameterEnv incrementBody []).Ok [] ()
      [⟨.loadVar, [1]⟩, ⟨.pushI, [1]⟩, ⟨.add, []⟩, ⟨.ret, []⟩] := by
    unfold incrementBody assembleBlock assembleStatements
    exact hreturn.bind (by simp [assembleStatements])
  unfold assembleFunction
  exact hblock.bind ((pushInstruction_run _ _ _).bind (pushInstruction_run _ _ _))

/-- `ADDI` adds the bits of the double to the integer. -/
theorem incremented_addI :
    (assembleFunction parameterEnv incrementBody).Ok [] () incrementedCode ∧
      ∃ vars, inferTypes incrementedCode (.initial 3 1) = some (incrementedTyped, vars) ∧
        ∀ (E : Env Unit) (exec : Execute Unit) (d : Word), ∃ s t,
          enter E 0 (.ofInstructions 3 incrementedCode) 1 ⟨[Value.double d], false, Value.zero, ()⟩ =
            some s ∧
          Arrives E exec s t ∧ t.2.continues = true ∧ incrementedCode[t.2.pc]? = some ⟨.add, []⟩ ∧
          incrementedTyped[t.2.pc]? = some ⟨.addI, []⟩ ∧
          ¬SameEffect E exec ⟨.addI, []⟩ ⟨.add, []⟩ t.1 { t.2 with pc := t.2.pc + 1 } := by
  obtain ⟨⟨_, vars⟩, htyped, rfl⟩ := Option.map_eq_some_iff.mp incremented_inferTypes
  refine ⟨incremented_assembles, vars, htyped, fun E exec d => ?_⟩
  refine ⟨_, _, rfl, .tail (.single ⟨true, rfl, rfl, rfl⟩) ⟨true, rfl, rfl, rfl⟩, ?_⟩
  refine ⟨rfl, rfl, rfl, fun h => ?_⟩
  -- the tags of the results differ
  have htag := congrArg (fun x => x.map fun y => y.2.1.stack.head?.map Value.type) h
  cases htag

end B0rk
