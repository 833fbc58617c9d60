import B0rk.Executor.Machine
import B0rk.Executor.Proofs.Basic
import B0rk.Executor.Proofs.Construct
import Mathlib.Logic.Relation

set_option autoImplicit false

/-! # Delivering an exception

From a `THROW` on, the machine does nothing but end activations until it comes to one with a handler.
The step lemma is `returnTo_unhandled`: the return of an exception into an activation without a
handler ends that activation too, and takes its operands and its frame marker off the stack. -/

namespace B0rk

variable {W : Type}

/-- Any number of steps of the machine. -/
def Reaches (E : Env W) (exec : Execute W) : Machine W → Machine W → Prop :=
  Relation.ReflTransGen (fun m m' => m.step E exec = some m')

/-- `stack` is what the chain of activations `frames` has put on top of `bottom`: for each
    activation its frame marker with its operands above. Each activation is still running, and its
    handlers name local variables of it. -/
inductive Activations : List Frame → List Value → List Value → Prop
  | nil (bottom : List Value) : Activations [] bottom bottom
  | cons {frame : Frame} {frames : List Frame} {operands stack bottom : List Value} :
      frame.running = true →
      (∀ h ∈ frame.handlerStack, h.excepVar < frame.localVars.length) →
      (∀ v ∈ operands, v.type ≠ .frame) → Activations frames stack bottom →
      Activations (frame :: frames) (operands ++ frame.marker :: stack) bottom

theorem Activations.split {above below : List Frame} {stack bottom : List Value}
    (h : Activations (above ++ below) stack bottom) :
    ∃ rest, Activations above stack rest ∧ Activations below rest bottom := by
  induction above generalizing stack with
  | nil => exact ⟨stack, .nil stack, h⟩
  | cons f above ih =>
      cases h with
      | cons hrun hslot hops hstack =>
          obtain ⟨rest, h1, h2⟩ := ih hstack
          exact ⟨rest, .cons hrun hslot hops h1, h2⟩

/-- A call instruction makes the chain one activation longer. -/
theorem Activations.enter {E : Env W} {obj : Word} {code : Code} {n : ℕ} {ctx ctx' : Context W}
    {frame : Frame} {frames : List Frame} {bottom : List Value}
    (h : enter E obj code n ctx = some (ctx', frame))
    (hact : Activations frames (ctx.stack.drop n) bottom) :
    Activations (frame :: frames) ctx'.stack bottom := by
  obtain ⟨_, rfl, hrun, _, _, hhandlers, _⟩ := enter_some h
  have hcons : Activations (frame :: frames) ([] ++ frame.marker :: ctx.stack.drop n) bottom :=
    Activations.cons hrun (by simp [hhandlers]) (by simp) hact
  exact hcons

/-! ## Making the exception -/

/-- `system.lang.Exception` and its superclasses define no constructor. -/
def PlainException (E : Env W) : Prop :=
  ∀ world chain, E.chain world E.exceptionClass = some chain → chain.constructors = []

theorem callConstructor_plain {exec : Execute W} {obj : Word} {chain : ClassChain} {n : ℕ}
    {ctx ctx' : Context W} {res : Bool} (hplain : chain.constructors = [])
    (h : callConstructor exec chain obj n ctx = some (res, ctx')) : res = true ∧ ctx' = ctx := by
  induction chain generalizing n ctx ctx' res with
  | nil => simp [callConstructor] at h
  | cons c superClasses ih =>
      obtain ⟨hsupers, hnone⟩ := List.append_eq_nil_iff.1 hplain
      have hown : ∀ ctx₁ : Context W, callOwnConstructor exec (c :: superClasses) obj n ctx₁ =
          some (true, ctx₁) := by
        intro ctx₁
        rw [callOwnConstructor, Option.toList_eq_nil_iff.1 hnone]
      cases superClasses with
      | nil =>
          simp only [callConstructor, Option.bind_eq_bind, Option.bind_some, if_true, hown] at h
          obtain ⟨rfl, rfl⟩ := Prod.mk.inj (Option.some.inj h)
          exact ⟨rfl, rfl⟩
      | cons d superClasses =>
          simp only [callConstructor, Option.bind_eq_bind, Option.bind_eq_some_iff] at h
          obtain ⟨⟨res₁, ctx₁⟩, hsuper, h⟩ := h
          obtain ⟨rfl, rfl⟩ := ih hsupers hsuper
          simp only [if_true, hown] at h
          obtain ⟨rfl, rfl⟩ := Prod.mk.inj (Option.some.inj h)
          exact ⟨rfl, rfl⟩

theorem setField_stack {E : Env W} {clazz object : Word} {name : String} {v : Value}
    {ctx ctx' : Context W} (h : setField E clazz object name v ctx = some ctx') :
    ctx' = { ctx with world := ctx'.world } := by
  simp only [setField, Option.bind_eq_bind, Option.bind_eq_some_iff] at h
  obtain ⟨chain, _, id, _, world, _, h⟩ := h
  rw [← Option.some.inj h]

/-- Making an exception changes the world only. -/
theorem createException_stack {E : Env W} {exec : Execute W} {value : Value} {exception : Word}
    {ctx ctx' : Context W} (hplain : PlainException E)
    (h : createException E exec value ctx = some (exception, ctx')) :
    ctx' = { ctx with world := ctx'.world } := by
  simp only [createException, newObject, Option.bind_eq_bind, Option.bind_eq_some_iff] at h
  obtain ⟨⟨o, ctx₁⟩, ⟨⟨_, world⟩, _, chain, hchain, ⟨res, ctx₀⟩, hctor, h1⟩, ctx₂, h2, ctx₃, h3, h⟩ :=
    h
  obtain ⟨_, rfl⟩ := callConstructor_plain (hplain _ chain hchain) hctor
  obtain ⟨_, rfl⟩ := Prod.mk.inj (Option.some.inj h1)
  obtain ⟨_, rfl⟩ := Prod.mk.inj (Option.some.inj h)
  rw [setField_stack h3, setField_stack h2]

/-! ## Unwinding -/

theorem popToFrame_append {operands stack : List Value} {frame : Frame}
    (h : ∀ v ∈ operands, v.type ≠ .frame) :
    popToFrame (operands ++ frame.marker :: stack) = some stack := by
  induction operands with
  | nil => rfl
  | cons v operands ih =>
      have hv : v.type ≠ .frame := h v (List.mem_cons_self ..)
      rw [List.cons_append, popToFrame, if_neg hv]
      exact ih (fun w hw => h w (List.mem_cons_of_mem _ hw))

/-- What the exception becomes for the activation that catches it. -/
def Frame.caught (frame : Frame) (handler : ExceptionHandler) (handlers : List ExceptionHandler)
    (exception : Value) : Frame :=
  { frame with
    pc := handler.handlerPC
    localVars := frame.localVars.set handler.excepVar exception
    handlerStack := handlers }

section
variable {frame : Frame} {below : List Frame} {ctx : Context W}

theorem afterOpcode_unhandled {operands stack : List Value} (hexc : ctx.exception = true)
    (hnone : frame.handlerStack = []) (hops : ∀ v ∈ operands, v.type ≠ .frame)
    (hstack : ctx.stack = operands ++ frame.marker :: stack) :
    afterOpcode true ctx frame =
      some (true, { ctx with stack := stack }, { frame with running := false }) := by
  simp [afterOpcode, hexc, handleException, hnone, hstack, popToFrame_append hops]

theorem afterOpcode_handled {handler : ExceptionHandler} {handlers : List ExceptionHandler}
    (hexc : ctx.exception = true) (hsome : frame.handlerStack = handler :: handlers)
    (hslot : handler.excepVar < frame.localVars.length) :
    afterOpcode true ctx frame =
      some (true, ctx.clearException, frame.caught handler handlers ctx.exceptionValue) := by
  simp [afterOpcode, hexc, handleException, hsome, Frame.setVar, hslot, Frame.caught,
    Context.clearException]

/-- An activation that has ended returns. -/
theorem step_ended {E : Env W} {exec : Execute W} {success : Bool} (h : frame.running = false) :
    Machine.step E exec ⟨success, frame :: below, ctx⟩ = Machine.returnTo success below ctx := by
  simp [Machine.step, Frame.continues, h]

/-- The exception goes through the activations without a handler. -/
theorem reaches_of_unhandled (E : Env W) (exec : Execute W) {above : List Frame} {stack rest : List Value} {m : Machine W}
    (hact : Activations above stack rest) (hnone : ∀ f ∈ above, f.handlerStack = []) :
    ∀ ctx : Context W, ctx.exception = true → ctx.stack = stack →
      Machine.returnTo true below { ctx with stack := rest } = some m →
      ∃ m', Machine.returnTo true (above ++ below) ctx = some m' ∧ Reaches E exec m' m := by
  induction hact with
  | nil rest =>
      intro ctx hexc hstack hm
      have hctx : { ctx with stack := rest } = ctx := by rw [← hstack]
      rw [hctx] at hm
      exact ⟨m, hm, Relation.ReflTransGen.refl⟩
  | @cons f fs operands stack rest hrun hslot hops hact ih =>
      intro ctx hexc hstack hm
      have hf := hnone f (List.mem_cons_self ..)
      obtain ⟨m', hm', hreach⟩ := ih (fun g hg => hnone g (List.mem_cons_of_mem _ hg))
        { ctx with stack := stack } hexc rfl hm
      refine ⟨⟨true, { f with running := false } :: (fs ++ below), { ctx with stack := stack }⟩,
        ?_, Relation.ReflTransGen.head ?_ hreach⟩
      · rw [List.cons_append, Machine.returnTo, afterOpcode_unhandled hexc hf hops hstack]
      · rw [step_ended rfl, hm']

end

/-! ## Throwing -/

/-- The innermost activation is about to execute `THROW` with `value` on the stack. -/
structure AboutToThrow (frames : List Frame) (ctx : Context W) (value : Value)
    (stack : List Value) : Prop where
  throws : ∃ top below, frames = top :: below ∧ top.continues = true ∧
    ∃ args next, top.code.fetch top.pc = some (⟨.throw, args⟩, next)
  checkStack : ctx.checkStack = true
  stack_eq : ctx.stack = value :: stack

/-- The step that executes `THROW`: the exception is returned into the innermost activation, with
    its `pc` behind the instruction. -/
theorem step_throw {E : Env W} {exec : Execute W} {frames : List Frame} {ctx ctx₁ : Context W}
    {value : Value} {stack : List Value} {exception : Word} (success : Bool)
    (hthrow : AboutToThrow frames ctx value stack)
    (hcreate : createException E exec value { ctx with stack := stack } = some (exception, ctx₁)) :
    ∃ top next below, frames = top :: below ∧
      Machine.step E exec ⟨success, frames, ctx⟩ =
        Machine.returnTo true ({ top with pc := next } :: below) (ctx₁.throwException exception) := by
  obtain ⟨top, below, rfl, hcont, args, next, hfetch⟩ := hthrow.throws
  refine ⟨top, next, below, rfl, ?_⟩
  have hpop : ctx.pop = some (value, { ctx with stack := stack }) := by
    simp [Context.pop, hthrow.stack_eq]
  simp [Machine.step, hcont, hthrow.checkStack, hfetch, scriptCallee, callInstruction, B0rk.step,
    opcodeTable, opcodeThrow, hpop, hcreate, Machine.returnTo]

/-- Where an activation is in its code does not matter to the chain. -/
theorem Activations.setPc {frame : Frame} {frames : List Frame} {stack bottom : List Value}
    (h : Activations (frame :: frames) stack bottom) (pc : ℕ) :
    Activations ({ frame with pc := pc } :: frames) stack bottom := by
  cases h with
  | @cons _ _ operands rest _ hrun hslot hops hact =>
      have hcons : Activations ({ frame with pc := pc } :: frames)
          (operands ++ ({ frame with pc := pc } : Frame).marker :: rest) bottom :=
        Activations.cons hrun hslot hops hact
      exact hcons

/-- The exception meets a chain whose innermost handler is that of `j`. -/
theorem reaches_handler (E : Env W) (exec : Execute W) {above below : List Frame} {j : Frame}
    {ctx : Context W} {bottom : List Value} {handler : ExceptionHandler}
    {handlers : List ExceptionHandler} (hexc : ctx.exception = true)
    (hact : Activations (above ++ j :: below) ctx.stack bottom)
    (hnone : ∀ f ∈ above, f.handlerStack = []) (hsome : j.handlerStack = handler :: handlers) :
    ∃ rest m, Activations above ctx.stack rest ∧ Activations (j :: below) rest bottom ∧
      Machine.returnTo true (above ++ j :: below) ctx = some m ∧
      Reaches E exec m ⟨true, j.caught handler handlers ctx.exceptionValue :: below,
        { ctx with stack := rest, exception := false }⟩ := by
  obtain ⟨rest, habove, hbelow⟩ := hact.split
  have hslot : handler.excepVar < j.localVars.length := by
    cases hbelow with
    | cons _ hslot _ _ => exact hslot handler (hsome ▸ List.mem_cons_self ..)
  have hhandled : Machine.returnTo true (j :: below) { ctx with stack := rest } =
      some ⟨true, j.caught handler handlers ctx.exceptionValue :: below,
        { ctx with stack := rest, exception := false }⟩ := by
    have hcaught : afterOpcode true { ctx with stack := rest } j = some (true,
        { ctx with stack := rest, exception := false },
        j.caught handler handlers ctx.exceptionValue) := afterOpcode_handled hexc hsome hslot
    rw [Machine.returnTo, hcaught]
  obtain ⟨m, hm, hreach⟩ := reaches_of_unhandled E exec habove hnone ctx hexc rfl hhandled
  exact ⟨rest, m, habove, hbelow, hm, hreach⟩

/-- **Exceptions are delivered to the innermost handler.** When the innermost activation of a chain
    executes `THROW`: if `j` is the innermost activation with a handler, the machine comes to the
    state in which the activations above `j` have ended, their entries are off the stack, `j` goes
    on at its handler with the exception in the handler's variable, and the flag is cleared; the
    activations below `j` and their part of the stack are what they were. If there is no handler,
    all activations end, and the flag stays set. -/
theorem exception_delivered {E : Env W} (exec : Execute W) (success : Bool) {frames : List Frame}
    {ctx ctx₁ : Context W} {value : Value} {stack bottom : List Value} {exception : Word}
    (hchain : Activations frames stack bottom)
    (hthrow : AboutToThrow frames ctx value stack) (hplain : PlainException E)
    (hcreate : createException E exec value { ctx with stack := stack } = some (exception, ctx₁)) :
    (∀ above j below handler handlers, frames = above ++ j :: below →
      (∀ f ∈ above, f.handlerStack = []) → j.handlerStack = handler :: handlers →
      ∃ rest, Activations above stack rest ∧ Activations (j :: below) rest bottom ∧
        Reaches E exec ⟨success, frames, ctx⟩
          ⟨true, j.caught handler handlers (Value.object exception) :: below,
            ⟨rest, false, Value.object exception, ctx₁.world⟩⟩) ∧
    ((∀ f ∈ frames, f.handlerStack = []) →
      Reaches E exec ⟨success, frames, ctx⟩
        ⟨true, [], ⟨bottom, true, Value.object exception, ctx₁.world⟩⟩) := by
  obtain ⟨top, next, belowTop, rfl, hstep⟩ := step_throw success hthrow hcreate
  have hctx₁ := createException_stack hplain hcreate
  have hexc : (ctx₁.throwException exception).exception = true := rfl
  have hstack : (ctx₁.throwException exception).stack = stack := by rw [hctx₁]; rfl
  have hchain' := hchain.setPc next
  rw [← hstack] at hchain' ⊢
  constructor
  · intro above j below handler handlers hframes hnone hsome
    cases above with
    | nil =>
        -- the innermost activation catches its own exception
        obtain ⟨rfl, rfl⟩ := List.cons.inj hframes
        have hsome' : ({ top with pc := next } : Frame).handlerStack = handler :: handlers := hsome
        have hnone' : ∀ f ∈ ([] : List Frame), f.handlerStack = [] := by simp
        have hchain₀ : Activations ([] ++ { top with pc := next } :: belowTop)
            (ctx₁.throwException exception).stack bottom := hchain'
        obtain ⟨rest, m, habove, hbelow, hm, hreach⟩ :=
          reaches_handler E exec hexc hchain₀ hnone' hsome'
        exact ⟨rest, habove, hbelow.setPc top.pc,
          Relation.ReflTransGen.head (hstep.trans hm) hreach⟩
    | cons f above =>
        obtain ⟨rfl, rfl⟩ := List.cons.inj hframes
        have hnone' : ∀ f ∈ { top with pc := next } :: above, f.handlerStack = [] := by
          intro f hf
          rcases List.mem_cons.1 hf with rfl | hf
          · exact hnone top (List.mem_cons_self ..)
          · exact hnone f (List.mem_cons_of_mem _ hf)
        obtain ⟨rest, m, habove, hbelow, hm, hreach⟩ :=
          reaches_handler E exec hexc hchain' hnone' hsome
        exact ⟨rest, habove.setPc top.pc, hbelow,
          Relation.ReflTransGen.head (hstep.trans hm) hreach⟩
  · intro hnone
    have hnone' : ∀ f ∈ { top with pc := next } :: belowTop, f.handlerStack = [] := by
      intro f hf
      rcases List.mem_cons.1 hf with rfl | hf
      · exact hnone top (List.mem_cons_self ..)
      · exact hnone f (List.mem_cons_of_mem _ hf)
    have hend : Machine.returnTo true [] { ctx₁.throwException exception with stack := bottom } =
        some ⟨true, [], ⟨bottom, true, Value.object exception, ctx₁.world⟩⟩ := rfl
    obtain ⟨m, hm, hreach⟩ := reaches_of_unhandled E exec hchain' hnone' _ hexc rfl hend
    rw [List.append_nil] at hm
    exact Relation.ReflTransGen.head (hstep.trans hm) hreach

/-- The exception class with its two fields. -/
def exceptionEnv : Env Unit :=
  oneClassEnv [⟨"system.lang.Exception", [], 0, 2, [("message", 0), ("stacktrace", 1)], 0, 0, [], []⟩]
    (fun _ => none)

/-- An activation that is about to throw, and one that waits for it inside a `try`. -/
def throwingFrame : Frame :=
  { addr := 2, code := ⟨1, 1, fun _ => some (⟨.throw, []⟩, 1)⟩, running := true, pc := 0
    flags := ⟨false, false, false⟩, localVars := [Value.zero], handlerStack := [] }

def catchingFrame : Frame :=
  { addr := 3, code := ⟨2, 20, fun _ => none⟩, running := true, pc := 4
    flags := ⟨false, false, false⟩, localVars := [Value.zero, Value.zero]
    handlerStack := [⟨1, 9⟩] }

theorem exception_delivered_caller :
    ∃ rest, Activations [catchingFrame] rest [] ∧
      Reaches exceptionEnv (execute exceptionEnv 0)
        ⟨true, [throwingFrame, catchingFrame],
          ⟨[Value.integer 5, throwingFrame.marker, Value.integer 7, catchingFrame.marker], false,
            Value.zero, ()⟩⟩
        ⟨true, [catchingFrame.caught ⟨1, 9⟩ [] (Value.object 4096)],
          ⟨rest, false, Value.object 4096, ()⟩⟩ := by
  have hcaller : Activations [catchingFrame] ([Value.integer 7] ++ catchingFrame.marker :: []) [] :=
    Activations.cons rfl (by simp [catchingFrame]) (by simp [Value.integer]) (Activations.nil [])
  have hchain : Activations [throwingFrame, catchingFrame]
      ([] ++ throwingFrame.marker :: ([Value.integer 7] ++ catchingFrame.marker :: [])) [] :=
    Activations.cons rfl (by simp [throwingFrame]) (by simp) hcaller
  have hthrow : AboutToThrow [throwingFrame, catchingFrame]
      (⟨[Value.integer 5, throwingFrame.marker, Value.integer 7, catchingFrame.marker], false,
        Value.zero, ()⟩ : Context Unit) (Value.integer 5)
      ([] ++ throwingFrame.marker :: ([Value.integer 7] ++ catchingFrame.marker :: [])) :=
    ⟨⟨throwingFrame, [catchingFrame], rfl, rfl, [], 1, rfl⟩, rfl, rfl⟩
  have hplain : PlainException exceptionEnv := by
    intro world chain hc
    obtain rfl := Option.some.inj hc
    rfl
  have hcreate : createException exceptionEnv (execute exceptionEnv 0) (Value.integer 5)
      ⟨[] ++ throwingFrame.marker :: ([Value.integer 7] ++ catchingFrame.marker :: []), false,
        Value.zero, ()⟩ =
      some (4096, ⟨[] ++ throwingFrame.marker :: ([Value.integer 7] ++ catchingFrame.marker :: []),
        false, Value.zero, ()⟩) := rfl
  obtain ⟨rest, _, hcaught, hreach⟩ :=
    (exception_delivered (execute exceptionEnv 0) true hchain hthrow hplain hcreate).1
      [throwingFrame] catchingFrame [] ⟨1, 9⟩ [] rfl (by simp [throwingFrame]) rfl
  exact ⟨rest, hcaught, hreach⟩

end B0rk
