import B0rk.Executor.Opcodes

set_option autoImplicit false

/-! # Running a function

`Executor::run` with `handleException`. Calls of script functions recurse through `execute`; the
fuel bounds the depth of the recursion as well as the number of instructions of each activation, and
`none` also stands for "has not returned yet". -/

namespace B0rk

variable {W : Type}

/-- The binding of the arguments: `localVars[argCount - arg] = context->pop()`, from the last
    argument to the first. -/
def bindArgs : ℕ → List Value → Context W → Option (List Value × Context W)
  | 0, localVars, ctx => some (localVars, ctx)
  | arg + 1, localVars, ctx => do
      let (v, ctx) ← ctx.pop
      if arg + 1 < localVars.length then bindArgs arg (localVars.set (arg + 1) v) ctx
      else none

/-- The beginning of `Executor::run`, up to the loop. -/
def enter (E : Env W) (thisObj : Word) (code : Code) (argCount : ℕ) (ctx : Context W) :
    Option (Context W × Frame) :=
  let addr := E.frameAddr ctx
  let localVars := List.replicate code.localVars Value.zero
  -- v0 is always the "this" pointer
  if localVars.length = 0 then none
  else do
    let (localVars, ctx) ← bindArgs argCount (localVars.set 0 (Value.object thisObj)) ctx
    let frame : Frame :=
      { addr := addr, code := code, running := true, pc := 0, flags := ⟨false, false, false⟩
        localVars := localVars, handlerStack := [] }
    some (ctx.push frame.marker, frame)

/-- "Clear the stack until we find our current frame": up to and with the first `VALUE_FRAME`. -/
def popToFrame : List Value → Option (List Value)
  | [] => none
  | v :: stack => if v.type = .frame then some stack else popToFrame stack

/-- `Executor::handleException`. It always reports success. -/
def handleException (ctx : Context W) (frame : Frame) : Option (Context W × Frame) :=
  match frame.handlerStack with
  | [] => do
      let stack ← popToFrame ctx.stack
      some ({ ctx with stack := stack }, { frame with running := false })
  | handler :: handlers => do
      let ctx := ctx.clearException
      let frame := { frame with handlerStack := handlers, pc := handler.handlerPC }
      let frame ← frame.setVar handler.excepVar ctx.exceptionValue
      some (ctx, frame)

/-- What the loop does after an opcode function has returned `success`. -/
def afterOpcode (success : Bool) (ctx : Context W) (frame : Frame) :
    Option (Bool × Context W × Frame) :=
  let frame := if success then frame else { frame with running := false }
  if ctx.exception then do
    let (ctx, frame) ← handleException ctx frame
    some (true, ctx, frame)
  else some (success, ctx, frame)

/-- One round of the loop of `Executor::run`, the stack check apart. -/
def step (E : Env W) (exec : Execute W) (ctx : Context W) (frame : Frame) :
    Option (Bool × Context W × Frame) := do
  let (inst, next) ← frame.code.fetch frame.pc
  let (success, ctx, frame) ← opcodeTable E exec inst.op inst.args ctx { frame with pc := next }
  afterOpcode success ctx frame

/-- `frame.running && frame.pc < code->size`. -/
def Frame.continues (frame : Frame) : Bool := frame.running && decide (frame.pc < frame.code.size)

/-- The loop of `Executor::run`; `success` is its local variable. -/
def runLoop (E : Env W) (exec : Execute W) (fuel : ℕ) (success : Bool) (ctx : Context W)
    (frame : Frame) : Option (Bool × Context W) :=
  if !frame.continues then some (success, ctx)
  else if !ctx.checkStack then some (false, ctx)
  else
    match fuel with
    | 0 => none
    | fuel + 1 =>
        match step E exec ctx frame with
        | none => none
        | some (success, ctx, frame) => runLoop E exec fuel success ctx frame

/-- `Executor::run`. -/
def run (E : Env W) (exec : Execute W) (fuel : ℕ) (thisObj : Word) (code : Code) (argCount : ℕ)
    (ctx : Context W) : Option (Bool × Context W) :=
  match enter E thisObj code argCount ctx with
  | none => none
  | some (ctx, frame) => runLoop E exec fuel true ctx frame

/-- `Function::execute`: of a `ScriptFunction` or of a `NativeFunction`. -/
def execute (E : Env W) : ℕ → Execute W
  | 0, _, _, _, _ => none
  | fuel + 1, function, obj, argCount, ctx =>
      match E.function function with
      | none => none
      | some (.script none) => some (false, ctx)
      | some (.script (some code)) => run E (execute E fuel) fuel obj code argCount ctx
      | some (.native run) => nativeExecute run obj argCount ctx

end B0rk
