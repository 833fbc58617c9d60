import B0rk.Executor.Run

set_option autoImplicit false

/-! # Calls by the host

The form of `Function::execute` that an embedding program calls: it pushes the arguments itself and
takes the result off the stack. -/

namespace B0rk

variable {W : Type}

/-- `Function::execute` of a function, where `execute` finds the functions by their addresses. -/
def Function.execute (E : Env W) (fuel : ℕ) (function : Function W) (obj : Word) (argCount : ℕ)
    (ctx : Context W) : Option (Bool × Context W) :=
  match function with
  | .script none => some (false, ctx)
  | .script (some code) => run E (B0rk.execute E fuel) fuel obj code argCount ctx
  | .native run => nativeExecute run obj argCount ctx

def Context.pushArgs (ctx : Context W) (argv : List Value) : Context W := argv.foldl push ctx

/-- `Function::execute` with the arguments in `argv`: the success flag, the context, and what
    `result` refers to afterwards. The message for an uncaught exception goes to `stderr`. -/
def Function.executeArgs (E : Env W) (fuel : ℕ) (function : Function W) (obj : Word)
    (argv : List Value) (result : Value) (ctx : Context W) : Option (Bool × Context W × Value) := do
  let (res, ctx) ← function.execute E fuel obj argv.length (ctx.pushArgs argv)
  if !res then some (false, ctx, result)
  else if ctx.exception then some (false, ctx, result)
  else
    let (v, ctx) ← ctx.pop
    some (true, ctx, v)

theorem execute_function {E : Env W} {address : Word} {function : Function W}
    (h : E.function address = some function) (fuel : ℕ) :
    execute E (fuel + 1) address = function.execute E fuel := by
  funext obj argCount ctx
  rw [execute, h]
  cases function with
  | script code => cases code <;> rfl
  | native run => rfl

end B0rk
