import B0rk.Executor.Proofs.Basic
import B0rk.Executor.Proofs.Construct
import B0rk.Lib.Ensures

set_option autoImplicit false

/-! # Invariants of contexts

A property of contexts that speaks of the topmost operands is kept by every instruction that finds its
operands, if it is kept by the few things that instructions are made of: `opcodeTable_keeps`. -/

namespace B0rk

variable {W : Type}

/-- How many entries of the stack an opcode function takes for operands, the arguments of calls
    apart. `RETURN` also checks for the frame marker below its operand. -/
def OpCode.takes : OpCode → ℕ
  | .storeVar | .loadField | .storeStaticField | .dup | .pop | .not | .notI | .throw | .ret
  | .call | .callObj => 1
  | .storeField | .loadFieldNamed | .loadArray | .swap | .add | .sub | .mul | .div | .and
  | .addI | .subI | .mulI | .divI | .andI | .addD | .subD | .mulD | .divD | .cmp | .cmpI | .cmpD
  | .callNamed => 2
  | .storeFieldNamed | .storeArray => 3
  | _ => 0

/-- The opcodes that may call a function. -/
def OpCode.calls : OpCode → Bool
  | .add | .sub | .mul | .div | .cmp | .call | .callStatic | .callNamed | .callObj | .new
  | .newFunction | .throw => true
  | _ => false

/-- `I k` is a property of contexts whose topmost `k` entries satisfy `V`, and so do the values that
    the environment gives out. -/
structure ContextInvariant (E : Env W) (V : Value → Prop) (I : ℕ → Context W → Prop) : Prop where
  le : ∀ {j k ctx}, j ≤ k → I k ctx → I j ctx
  pop : ∀ {k ctx v ctx'}, I (k + 1) ctx → ctx.pop = some (v, ctx') → V v ∧ I k ctx'
  drop : ∀ {ctx v ctx'}, I 0 ctx → ctx.pop = some (v, ctx') → I 0 ctx'
  push : ∀ {k ctx v}, I k ctx → V v → I (k + 1) (ctx.push v)
  tag : ∀ {type : ValueType} (bits : Word), type ≠ .frame → V ⟨type, bits⟩
  bits : ∀ {v : Value} (bits : Word), V v → V { v with bits := bits }
  getValue : ∀ {k ctx obj id v}, I k ctx → E.getValue ctx.world obj id = some v → V v
  setValue : ∀ {k ctx obj id v world}, I k ctx → V v → E.setValue ctx.world obj id v = some world →
    I k { ctx with world := world }
  getStaticField : ∀ {k ctx clazz id v}, I k ctx →
    E.getStaticField ctx.world clazz id = some v → V v
  setStaticField : ∀ {k ctx clazz id v world}, I k ctx → V v →
    E.setStaticField ctx.world clazz id v = some world → I k { ctx with world := world }
  allocateObject : ∀ {k ctx clazz obj world}, I k ctx →
    E.allocateObject ctx clazz = some (obj, world) → I k { ctx with world := world }
  arrayLoad : ∀ {ctx array index res ctx' v}, I 0 ctx → V index →
    E.arrayLoad ctx array index = some (res, ctx', v) → I 0 ctx' ∧ V v
  arrayStore : ∀ {ctx array index v res ctx'}, I 0 ctx → V index → V v →
    E.arrayStore ctx array index v = some (res, ctx') → I 0 ctx'
  throwException : ∀ {k ctx exception}, I k ctx → I k (ctx.throwException exception)

/-- What an instruction leaves to the frame: the variables satisfy `V` again, and only the
    instructions for it end the activation or change the handlers. -/
structure FrameKept (V : Value → Prop) (op : OpCode) (frame frame' : Frame) : Prop where
  localVars : ∀ v ∈ frame'.localVars, V v
  running : op ≠ .ret → frame'.running = frame.running
  handlerStack : op ≠ .pushTry → op ≠ .popTry → frame'.handlerStack = frame.handlerStack

/-- The result of an opcode function keeps an invariant. -/
abbrev Keeps (V : Value → Prop) (I : ℕ → Context W → Prop) (op : OpCode) (frame : Frame)
    (r : Bool × Context W × Frame) : Prop := I 0 r.2.1 ∧ FrameKept V op frame r.2.2

section

variable {E : Env W} {exec : Execute W} {V : Value → Prop} {I : ℕ → Context W → Prop}
variable {op : OpCode} {frame : Frame} {ctx : Context W} {k : ℕ}

theorem FrameKept.refl (hvars : ∀ v ∈ frame.localVars, V v) : FrameKept V op frame frame :=
  ⟨hvars, fun _ => rfl, fun _ _ => rfl⟩

theorem Keeps.result (hI : ContextInvariant E V I) (hvars : ∀ v ∈ frame.localVars, V v)
    (h : I k ctx) (b : Bool) : Ensures (some (b, ctx, frame)) (Keeps V I op frame) :=
  .some ⟨hI.le (Nat.zero_le k) h, .refl hvars⟩

/-- A result with other flags or at another place. -/
theorem Keeps.moved (hI : ContextInvariant E V I) (hvars : ∀ v ∈ frame.localVars, V v)
    (h : I k ctx) (b : Bool) (flags : Flags) (pc : ℕ) :
    Ensures (some (b, ctx, { frame with flags := flags, pc := pc })) (Keeps V I op frame) :=
  .some ⟨hI.le (Nat.zero_le k) h, hvars, fun _ => rfl, fun _ _ => rfl⟩

theorem ContextInvariant.popped (hI : ContextInvariant E V I) (h : I (k + 1) ctx) :
    Ensures ctx.pop (fun r => V r.1 ∧ I k r.2) := fun _ hr => hI.pop h hr

theorem ContextInvariant.peeked (hI : ContextInvariant E V I) {v : Value} (h : I 1 ctx)
    (hv : ctx.peek = some v) : V v := by
  obtain ⟨stack, hstack⟩ := List.head?_eq_some_iff.mp hv
  exact (hI.pop h (Context.pop_cons hstack)).1

theorem ContextInvariant.integer (hI : ContextInvariant E V I) (i : Word) : V (Value.integer i) :=
  hI.tag i (by decide)

theorem ContextInvariant.object (hI : ContextInvariant E V I) (p : Word) : V (Value.object p) :=
  hI.tag p (by decide)

/-- The instructions of constructors, operators and calls ask `exec`; it keeps the invariant. -/
abbrev ExecKeeps (exec : Execute W) (I : ℕ → Context W → Prop) : Prop :=
  ∀ f obj n ctx, I 0 ctx → Ensures (exec f obj n ctx) (fun r => I 0 r.2)

theorem Frame.setVar_kept {id : ℕ} {v : Value} (hvars : ∀ v ∈ frame.localVars, V v) (hv : V v)
    (b : Bool) (h : I 0 ctx) :
    Ensures (do
      let frame ← frame.setVar id v
      some (b, ctx, frame)) (Keeps V I op frame) := by
  refine .bind_eq fun frame' hframe' => .some ⟨h, ?_⟩
  unfold Frame.setVar at hframe'
  split at hframe'
  · cases hframe'
    refine ⟨fun w hw => ?_, fun _ => rfl, fun _ _ => rfl⟩
    rcases List.mem_or_eq_of_mem_set hw with hw | rfl
    · exact hvars w hw
    · exact hv
  · cases hframe'

/-! ## Calls -/

theorem callOperator_keeps (hexec : ExecKeeps exec I) {name : String} {v : Value} (h : I 0 ctx) :
    Ensures (callOperator E exec name v ctx) (fun r => I 0 r.2) :=
  .bind_any fun _ => .bind_any fun _ => .bind_any fun _ => hexec _ _ _ _ h

theorem callOwnConstructor_keeps (hI : ContextInvariant E V I) (hexec : ExecKeeps exec I)
    {clazz : ClassChain} {obj : Word} {n : ℕ} (h : I 0 ctx) :
    Ensures (callOwnConstructor exec clazz obj n ctx) (fun r => I 0 r.2) := by
  unfold callOwnConstructor
  split
  · exact .some h
  · refine .bind (hexec _ _ _ _ h) fun r hr => .ite (fun _ => ?_) (fun _ => .some hr)
    exact .bind_eq fun p hpop => .some (hI.drop hr hpop)

/-- The constructors of a chain of classes, the ones of the superclasses first. -/
theorem callConstructor_keeps (hI : ContextInvariant E V I) (hexec : ExecKeeps exec I) {obj : Word}
    {clazz : ClassChain} {n : ℕ} (h : I 0 ctx) :
    Ensures (callConstructor exec clazz obj n ctx) (fun r => I 0 r.2) := by
  induction clazz generalizing n ctx with
  | nil => exact .none
  | cons c superClasses ih =>
    rw [callConstructor_cons]
    refine .bind (P := fun r => I 0 r.2) ?_ fun r hr => .ite (fun _ => ?_) (fun _ => .some hr)
    · cases superClasses with
      | nil => exact .some h
      | cons d superClasses => exact ih h
    · exact callOwnConstructor_keeps hI hexec hr

theorem newObject_keeps (hI : ContextInvariant E V I) (hexec : ExecKeeps exec I) {clazz : Word}
    {n : ℕ} (h : I 0 ctx) : Ensures (newObject E exec clazz n ctx) (fun r => I 0 r.2) := by
  refine .bind_eq fun p hp => .bind_any fun chain => ?_
  refine .bind (callConstructor_keeps hI hexec (hI.allocateObject h hp)) fun r hr => .some hr

theorem setField_keeps (hI : ContextInvariant E V I) {clazz object : Word} {name : String}
    {v : Value} (h : I 0 ctx) (hv : V v) :
    Ensures (setField E clazz object name v ctx) (fun ctx' => I 0 ctx') :=
  .bind_any fun _ => .bind_any fun _ => .bind_eq fun _ hset => .some (hI.setValue h hv hset)

theorem createException_keeps (hI : ContextInvariant E V I) (hexec : ExecKeeps exec I)
    {value : Value} (h : I 0 ctx) (hv : V value) :
    Ensures (createException E exec value ctx) (fun r => I 0 r.2) := by
  refine .bind (newObject_keeps hI hexec h) fun r hr => ?_
  refine .bind (setField_keeps hI hr hv) fun ctx₁ h₁ => ?_
  exact .bind (setField_keeps hI h₁ (hI.tag _ (by decide))) fun ctx₂ h₂ => .some h₂

theorem callFunction_keeps (hexec : ExecKeeps exec I)
    (hvars : ∀ v ∈ frame.localVars, V v) {target : CallTarget W} {args : List Word}
    (h : Ensures (target args ctx) (fun r => I 0 r.1)) :
    Ensures (callFunction exec target args ctx frame) (Keeps V I op frame) := by
  refine .bind h fun r hr => ?_
  rcases r with ⟨ctx₁, _ | ⟨function, obj, count⟩⟩
  · exact .some ⟨hr, .refl hvars⟩
  · exact .bind (hexec _ _ _ _ hr) fun r hr => .some ⟨hr, .refl hvars⟩

theorem callTarget_keeps (hI : ContextInvariant E V I) {args : List Word} (h : I 1 ctx) :
    Ensures (callTarget args ctx) (fun r => I 0 r.1) :=
  .bind (hI.popped h) fun _ hr => .bind_any fun _ => .bind_any fun _ => .some hr.2

theorem callNamedTarget_keeps (hI : ContextInvariant E V I) {args : List Word} (h : I 2 ctx) :
    Ensures (callNamedTarget E args ctx) (fun r => I 0 r.1) := by
  refine .bind_any fun _ => .bind (hI.popped h) fun _ h₁ => .bind (hI.popped h₁.2) fun _ h₂ => ?_
  refine .bind_any fun _ => .ite (fun _ => .some h₂.2) fun _ => .bind_any fun _ => ?_
  refine .ite (fun _ => .some h₂.2) fun _ => .bind_any fun _ => .bind_any fun f => ?_
  cases f <;> exact .some h₂.2

theorem callObjTarget_keeps (hI : ContextInvariant E V I) {args : List Word} (h : I 1 ctx) :
    Ensures (callObjTarget E args ctx) (fun r => I 0 r.1) := by
  refine .bind_any fun _ => .bind (hI.popped h) fun _ h₁ => ?_
  refine .ite (fun _ => .bind_any fun _ => .ite ?_ ?_) fun _ => .some h₁.2
  · exact fun _ => .some h₁.2
  · exact fun _ => .some h₁.2

/-! ## Arithmetic and comparisons -/

theorem arithmetic_keeps (hI : ContextInvariant E V I) (hexec : ExecKeeps exec I)
    (hvars : ∀ v ∈ frame.localVars, V v) {name : String} {intOp : Word → Word → Option Word}
    {doubleOp : Word → Word → Word} {args : List Word} (h : I 2 ctx) :
    Ensures (arithmetic E exec name intOp doubleOp args ctx frame) (Keeps V I op frame) := by
  refine .bind (hI.popped h) fun _ h₁ => .ite (fun _ => ?_) fun _ => ?_
  · have h₀ := hI.le (Nat.zero_le 1) h₁.2
    exact .bind (callOperator_keeps hexec h₀) fun _ hr => .some ⟨hr, .refl hvars⟩
  · refine .bind (hI.popped h₁.2) fun _ h₂ => .ite (fun _ => ?_) fun _ => ?_
    · exact .result hI hvars (hI.push h₂.2 (hI.tag _ (by decide))) true
    · exact .bind_any fun _ => .result hI hvars (hI.push h₂.2 (hI.integer _)) true

theorem typedArithmetic_keeps (hI : ContextInvariant E V I) (hvars : ∀ v ∈ frame.localVars, V v)
    {type : ValueType} (htype : type ≠ .frame) {f : Word → Word → Option Word} {args : List Word}
    (h : I 2 ctx) :
    Ensures (typedArithmetic type f args ctx frame) (Keeps V I op frame) := by
  refine .bind (hI.popped h) fun _ h₁ => .bind (hI.popped h₁.2) fun _ h₂ => .bind_any fun _ => ?_
  exact .result hI hvars (hI.push h₂.2 (hI.tag _ htype)) true

theorem opcodeCmp_keeps (hI : ContextInvariant E V I) (hexec : ExecKeeps exec I)
    (hvars : ∀ v ∈ frame.localVars, V v) (args : List Word) (h : I 2 ctx) :
    Ensures (opcodeCmp E exec args ctx frame) (Keeps V I op frame) := by
  refine .bind (hI.popped h) fun _ h₁ => .ite (fun _ => ?_) fun _ => .ite (fun _ => ?_) fun _ => ?_
  · exact .bind (hI.popped h₁.2) fun _ h₂ => .moved hI hvars h₂.2 true _ _
  · have h₀ := hI.le (Nat.zero_le 1) h₁.2
    refine .bind (callOperator_keeps hexec h₀) fun _ hr => .ite (fun _ => ?_) fun _ => ?_
    · exact .bind_eq fun _ hpop => .moved hI hvars (hI.drop hr hpop) true _ _
    · exact .result hI hvars hr false
  · exact .result hI hvars h₁.2 false

/-! ## All instructions -/

theorem opcodeReturn_keeps (hI : ContextInvariant E V I) (hvars : ∀ v ∈ frame.localVars, V v)
    (args : List Word) (h : I 1 ctx) :
    Ensures (opcodeReturn args ctx frame) (Keeps V I .ret frame) := by
  refine .bind (hI.popped h) fun _ h₁ => .bind_eq fun _ hpop => ?_
  have h₂ := hI.drop h₁.2 hpop
  refine .ite (fun _ => .result hI hvars h₂ false) fun _ => .some ⟨?_, hvars, nofun, fun _ _ => rfl⟩
  exact hI.le (Nat.zero_le 1) (hI.push h₂ h₁.1)

/-- **Every instruction keeps an invariant**, if its operands are there and if the functions that it
    calls keep the invariant. -/
theorem opcodeTable_keeps (hI : ContextInvariant E V I) (hexec : op.calls → ExecKeeps exec I)
    (hvars : ∀ v ∈ frame.localVars, V v) {args : List Word} (h : I op.takes ctx) :
    Ensures (opcodeTable E exec op args ctx frame) (Keeps V I op frame) := by
  have zero : I 0 ctx := hI.le (Nat.zero_le _) h
  have arith (name : String) (intOp : Word → Word → Option Word) (doubleOp : Word → Word → Word)
      (hcalls : op.calls) (h : I 2 ctx) :
      Ensures (arithmetic E exec name intOp doubleOp args ctx frame) (Keeps V I op frame) :=
    arithmetic_keeps hI (hexec hcalls) hvars h
  have integers (f : Word → Word → Option Word) (h : I 2 ctx) :
      Ensures (typedArithmetic .integer f args ctx frame) (Keeps V I op frame) :=
    typedArithmetic_keeps hI hvars (by decide) h
  have doubles (f : Word → Word → Word) (h : I 2 ctx) :
      Ensures (typedArithmetic .double (fun a b => some (f a b)) args ctx frame)
        (Keeps V I op frame) :=
    typedArithmetic_keeps hI hvars (by decide) h
  have inc (f : Word → Word → Word) : Ensures (incVar f args ctx frame) (Keeps V I op frame) := by
    refine .bind_any fun _ => .bind_any fun _ => .bind_eq fun v hv => ?_
    exact Frame.setVar_kept hvars (hI.bits _ (hvars v (List.mem_of_getElem? hv))) true zero
  have push {type : ValueType} (htype : type ≠ .frame) :
      Ensures (pushOperand type args ctx frame) (Keeps V I op frame) :=
    .bind_any fun _ => .result hI hvars (hI.push zero (hI.tag _ htype)) true
  have cond (cond : Flags → Bool) :
      Ensures (pushCondition cond args ctx frame) (Keeps V I op frame) :=
    .result hI hvars (hI.push zero (hI.integer _)) true
  have jump (cond : Flags → Bool) : Ensures (branch cond args ctx frame) (Keeps V I op frame) := by
    refine .bind_any fun _ => .some ⟨zero, ?_⟩
    split
    · exact ⟨hvars, fun _ => rfl, fun _ _ => rfl⟩
    · exact .refl hvars
  cases op with
  | loadVar =>
    refine .bind_any fun _ => .bind_eq fun v hv => ?_
    exact .result hI hvars (hI.push zero (hvars v (List.mem_of_getElem? hv))) true
  | storeVar =>
    refine .bind_any fun _ => .bind (hI.popped h) fun _ h₁ => ?_
    exact Frame.setVar_kept hvars h₁.1 true h₁.2
  | loadField =>
    refine .bind (hI.popped h) fun _ h₁ => .bind_any fun _ => .bind_eq fun _ hv => ?_
    exact .result hI hvars (hI.push h₁.2 (hI.getValue h₁.2 hv)) true
  | storeField =>
    refine .bind (hI.popped h) fun _ h₁ => .bind (hI.popped h₁.2) fun _ h₂ => .bind_any fun _ => ?_
    refine .ite (fun _ => .result hI hvars h₂.2 false) fun _ => .bind_eq fun _ hset => ?_
    exact .result hI hvars (hI.setValue h₂.2 h₂.1 hset) true
  | loadFieldNamed =>
    refine .bind (hI.popped h) fun _ h₁ => .bind (hI.popped h₁.2) fun _ h₂ => .bind_any fun _ => ?_
    refine .ite (fun _ => .bind_any fun id => ?_) fun _ => .result hI hvars h₂.2 false
    cases id with
    | none => exact .result hI hvars h₂.2 false
    | some id =>
      exact .bind_eq fun _ hv => .result hI hvars (hI.push h₂.2 (hI.getValue h₂.2 hv)) true
  | storeFieldNamed =>
    refine .bind (hI.popped h) fun _ h₁ => .bind (hI.popped h₁.2) fun _ h₂ => ?_
    refine .bind (hI.popped h₂.2) fun _ h₃ => .bind_any fun _ => ?_
    refine .ite (fun _ => .bind_any fun id => ?_) fun _ => .result hI hvars h₃.2 false
    cases id with
    | none => exact .result hI hvars h₃.2 false
    | some id =>
      exact .bind_eq fun _ hset => .result hI hvars (hI.setValue h₃.2 h₃.1 hset) true
  | loadStaticField =>
    refine .bind_any fun _ => .bind_any fun _ => .bind_eq fun _ hv => ?_
    exact .result hI hvars (hI.push zero (hI.getStaticField zero hv)) true
  | storeStaticField =>
    refine .bind_any fun _ => .bind_any fun _ => .bind (hI.popped h) fun _ h₁ => ?_
    refine .bind_eq fun _ hset => ?_
    exact .result hI hvars (hI.setStaticField h₁.2 h₁.1 hset) true
  | loadArray =>
    refine .bind (hI.popped h) fun _ h₁ => .bind (hI.popped h₁.2) fun _ h₂ => ?_
    refine .ite (fun _ => .bind_eq fun r hr => ?_) fun _ => .result hI hvars h₂.2 false
    obtain ⟨h₃, hv⟩ := hI.arrayLoad h₂.2 h₁.1 hr
    exact .result hI hvars (hI.push h₃ hv) r.1
  | storeArray =>
    refine .bind (hI.popped h) fun _ h₁ => .bind (hI.popped h₁.2) fun _ h₂ => ?_
    refine .bind (hI.popped h₂.2) fun _ h₃ => ?_
    refine .ite (fun _ => .bind_eq fun r hr => ?_) fun _ => .result hI hvars h₃.2 false
    exact .result hI hvars (hI.arrayStore h₃.2 h₁.1 h₃.1 hr) r.1
  | incVar | incVarD => exact inc _
  | pushI | pushD | pushObj => exact push (by decide)
  | dup =>
    exact .bind_eq fun _ hv => .result hI hvars (hI.push zero (hI.peeked h hv)) true
  | swap =>
    refine .bind (hI.popped h) fun _ h₁ => .bind (hI.popped h₁.2) fun _ h₂ => ?_
    exact .result hI hvars (hI.push (hI.push h₂.2 h₁.1) h₂.1) true
  | pop => exact .bind (hI.popped h) fun _ h₁ => .result hI hvars h₁.2 true
  | add => exact arith "operator+" (fun a b => some (a + b)) E.double.add rfl h
  | sub => exact arith "operator-" (fun a b => some (a - b)) E.double.sub rfl h
  | mul => exact arith "operator*" (fun a b => some (a * b)) E.double.mul rfl h
  | div => exact arith "operator/" sdiv? E.double.div rfl h
  | addI => exact integers (fun a b => some (a + b)) h
  | subI => exact integers (fun a b => some (a - b)) h
  | mulI => exact integers (fun a b => some (a * b)) h
  | divI => exact integers sdiv? h
  | addD => exact doubles E.double.add h
  | subD => exact doubles E.double.sub h
  | mulD => exact doubles E.double.mul h
  | divD => exact doubles E.double.div h
  | and | andI =>
    refine .bind (hI.popped h) fun _ h₁ => .bind (hI.popped h₁.2) fun _ h₂ => ?_
    exact .result hI hvars (hI.push h₂.2 (hI.integer _)) true
  | not | notI =>
    exact .bind (hI.popped h) fun _ h₁ => .result hI hvars (hI.push h₁.2 (hI.integer _)) true
  | pushCE => exact cond (fun f => f.zero)
  | pushCNE => exact cond (fun f => !f.zero)
  | pushCL => exact cond (fun f => f.sign != f.overflow)
  | pushCLE => exact cond (fun f => f.zero || f.sign != f.overflow)
  | pushCG => exact cond (fun f => !f.zero && f.sign == f.overflow)
  | pushCGE => exact cond (fun f => f.sign == f.overflow)
  | call => exact callFunction_keeps (hexec rfl) hvars (callTarget_keeps hI h)
  | callStatic =>
    refine callFunction_keeps (hexec rfl) hvars ?_
    exact .bind_any fun _ => .bind_any fun _ => .some zero
  | callNamed => exact callFunction_keeps (hexec rfl) hvars (callNamedTarget_keeps hI h)
  | callObj => exact callFunction_keeps (hexec rfl) hvars (callObjTarget_keeps hI h)
  | new =>
    refine .bind_any fun _ => .bind_any fun _ => .bind (newObject_keeps hI (hexec rfl) zero) ?_
    refine fun r hr => .ite (fun _ => .result hI hvars hr false) fun _ => ?_
    exact .result hI hvars (hI.push hr (hI.object _)) true
  | newFunction =>
    refine .bind_any fun func => ?_
    have h₁ : I 0 (ctx.push (Value.object func)) := hI.le (Nat.zero_le 1) (hI.push zero (hI.object _))
    refine .bind (newObject_keeps hI (hexec rfl) h₁) fun r hr => ?_
    exact .result hI hvars (hI.push hr (hI.object _)) true
  | ret => exact opcodeReturn_keeps hI hvars args h
  | cmp => exact opcodeCmp_keeps hI (hexec rfl) hvars args h
  | cmpI | cmpD =>
    refine .bind (hI.popped h) fun _ h₁ => .bind (hI.popped h₁.2) fun _ h₂ => ?_
    exact .moved hI hvars h₂.2 true _ _
  | jmp => exact jump (fun _ => true)
  | bEq => exact jump (fun f => f.zero)
  | bNE => exact jump (fun f => !f.zero)
  | bL => exact jump (fun f => f.sign != f.overflow)
  | bLE => exact jump (fun f => !f.zero || f.sign == f.overflow)
  | bG => exact jump (fun f => !f.zero && f.sign == f.overflow)
  | bGE => exact jump (fun f => f.sign == f.overflow)
  | throw =>
    refine .bind (hI.popped h) fun _ h₁ => ?_
    refine .bind (createException_keeps hI (hexec rfl) h₁.2 h₁.1) fun r hr => ?_
    exact .result hI hvars (hI.throwException hr) true
  | pushTry =>
    refine .bind_any fun _ => .bind_any fun _ => .some ⟨zero, hvars, fun _ => rfl, ?_⟩
    exact fun hop => absurd rfl hop
  | popTry =>
    rw [opcodeTable, opcodePopHandler]
    split
    · exact .none
    · exact .some ⟨zero, hvars, fun _ => rfl, fun _ hop => absurd rfl hop⟩
  | nop | pushVar | other => exact .result hI hvars zero false

end

end B0rk
