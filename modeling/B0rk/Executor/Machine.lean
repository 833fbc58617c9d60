import B0rk.Executor.Run

set_option autoImplicit false

/-! # The chain of activations

Each script function that is being executed is a recursive call of `Executor::run`, with its frame on
the C++ stack. `Machine` makes that stack explicit: its frames are the activations, the innermost
first, and one step is one round of the loop of the innermost activation, or its return into the
call instruction of the next one. Script functions that are entered in another way than by a call
instruction (operators and constructors) run inside one step, through `exec`. -/

namespace B0rk

variable {W : Type}

/-- The activations, innermost first. `success` is the local variable of the innermost one, or, when
    all of them have ended, the result of the outermost one. -/
structure Machine (W : Type) where
  success : Bool
  frames : List Frame
  ctx : Context W

/-- The four call instructions. -/
def callInstruction (E : Env W) : OpCode → Option (CallTarget W)
  | .call => some callTarget
  | .callStatic => some callStaticTarget
  | .callNamed => some (callNamedTarget E)
  | .callObj => some (callObjTarget E)
  | _ => none

/-- The assembled code of a script function. -/
def scriptCode (E : Env W) (function : Word) : Option Code :=
  match E.function function with
  | some (.script (some code)) => some code
  | _ => none

/-- The script function that an instruction calls: the context without what the instruction pops,
    the instance, the code and the number of arguments. -/
def scriptCallee (E : Env W) (inst : Instruction) (ctx : Context W) :
    Option (Context W × Word × Code × ℕ) := do
  let target ← callInstruction E inst.op
  let (ctx, callee) ← target inst.args ctx
  let (function, obj, count) ← callee
  let code ← scriptCode E function
  some (ctx, obj, code, count)

namespace Machine

/-- An activation has ended with `success`; the call instruction of the next one returns it. -/
def returnTo (success : Bool) (frames : List Frame) (ctx : Context W) : Option (Machine W) :=
  match frames with
  | [] => some ⟨success, [], ctx⟩
  | caller :: below =>
      match afterOpcode success ctx caller with
      | none => none
      | some (success, ctx, caller) => some ⟨success, caller :: below, ctx⟩

/-- One round of the innermost activation. -/
def step (E : Env W) (exec : Execute W) (m : Machine W) : Option (Machine W) :=
  match m.frames with
  | [] => none
  | frame :: below =>
      if !frame.continues then returnTo m.success below m.ctx
      else if !m.ctx.checkStack then returnTo false below m.ctx
      else
        match frame.code.fetch frame.pc with
        | none => none
        | some (inst, next) =>
            match scriptCallee E inst m.ctx with
            | some (ctx, obj, code, count) =>
                match enter E obj code count ctx with
                | none => none
                | some (ctx, callee) =>
                    some ⟨true, callee :: { frame with pc := next } :: below, ctx⟩
            | none =>
                match B0rk.step E exec m.ctx frame with
                | none => none
                | some (success, ctx, frame) => some ⟨success, frame :: below, ctx⟩

end Machine

end B0rk
