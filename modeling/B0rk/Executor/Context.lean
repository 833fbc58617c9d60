import B0rk.OpCode
import B0rk.Class

set_option autoImplicit false

/-! # Contexts and frames

`context.h`. The value stack is a list with its top first, so that `m_stackPos` is its length. The
world `W` is everything else that a running program can see: the heap, the classes and the outside.
What the instructions need of it is listed in `Env`. -/

namespace B0rk

variable {W : Type}

/-- `class Context`. -/
structure Context (W : Type) where
  stack : List Value
  exception : Bool
  exceptionValue : Value
  world : W

namespace Context

/-- `m_stackSize`. -/
def stackSize : ℕ := 1024

def checkStack (ctx : Context W) : Bool := decide (ctx.stack.length < stackSize)

def push (ctx : Context W) (v : Value) : Context W := { ctx with stack := v :: ctx.stack }

/-- `none` below the bottom of the stack. -/
def pop (ctx : Context W) : Option (Value × Context W) :=
  match ctx.stack with
  | [] => none
  | v :: stack => some (v, { ctx with stack := stack })

def peek (ctx : Context W) : Option Value := ctx.stack.head?

/-- Popping `n` values; the last one popped comes first in the result. -/
def popArgs (ctx : Context W) : ℕ → Option (List Value × Context W)
  | 0 => some ([], ctx)
  | n + 1 => do
      let (v, ctx) ← ctx.pop
      let (vs, ctx) ← ctx.popArgs n
      some (vs ++ [v], ctx)

def throwException (ctx : Context W) (exception : Word) : Context W :=
  { ctx with exception := true, exceptionValue := Value.object exception }

def clearException (ctx : Context W) : Context W := { ctx with exception := false }

end Context

/-- `struct Flags`. -/
structure Flags where
  zero : Bool
  sign : Bool
  overflow : Bool
  deriving DecidableEq, Repr

/-- `struct ExceptionHandler`. -/
structure ExceptionHandler where
  excepVar : ℕ
  handlerPC : ℕ
  deriving DecidableEq, Repr

/-- `struct AssembledCode`, as far as the executor looks at it: at which positions instructions
    start, and where the one behind starts. -/
structure Code where
  localVars : ℕ
  size : ℕ
  fetch : ℕ → Option (Instruction × ℕ)

/-- `struct Frame`. The innermost handler is the first of `handlerStack`; `addr` is the address of
    the frame itself. -/
structure Frame where
  addr : Word
  code : Code
  running : Bool
  pc : ℕ
  flags : Flags
  localVars : List Value
  handlerStack : List ExceptionHandler

/-- The value that `Executor::run` pushes on entry. -/
def Frame.marker (frame : Frame) : Value := ⟨.frame, frame.addr⟩

/-- Floating point, on the bits of `double`s. -/
structure DoubleOps where
  add : Word → Word → Word
  sub : Word → Word → Word
  mul : Word → Word → Word
  div : Word → Word → Word
  ofInt : Word → Word
  /-- `d > -DBL_EPSILON && d < DBL_EPSILON` -/
  nearZero : Word → Bool
  /-- `d < 0.0` -/
  negative : Word → Bool

/-- A function object: a script, with its assembled code unless it does not assemble, or a native
    function of `(instance, argCount, args)`, which gives back whether it succeeded, the context and
    the result. -/
inductive Function (W : Type)
  | script (code : Option Code)
  | native (run : Word → ℕ → List Value → Context W → Option (Bool × Context W × Value))

/-- What the instructions call outside the executor. `none` is undefined behaviour, such as reading
    through a null pointer, or a call that does not return. -/
structure Env (W : Type) where
  double : DoubleOps
  /-- where a call of `Executor::run` puts its `Frame` -/
  frameAddr : Context W → Word
  /-- `Object::getClass`; the null pointer is `0` -/
  getClass : W → Word → Option Word
  /-- the class at an address, with its superclasses -/
  chain : W → Word → Option ClassChain
  /-- `Object::getValue` -/
  getValue : W → Word → ℕ → Option Value
  /-- `Object::setValue` -/
  setValue : W → Word → ℕ → Value → Option W
  /-- `Class::getStaticField` -/
  getStaticField : W → Word → ℕ → Option Value
  /-- `Class::setStaticField` -/
  setStaticField : W → Word → ℕ → Value → Option W
  /-- `String::getString`, for a pointer -/
  getString : W → Word → Option String
  /-- `Value::toString`, for a value that is not an object -/
  toString : Value → String
  /-- `Runtime::allocateObject` for the class at an address -/
  allocateObject : Context W → Word → Option (Word × W)
  /-- `Array::load`, with the value it stores through its reference argument -/
  arrayLoad : Context W → Word → Value → Option (Bool × Context W × Value)
  /-- `Array::store` -/
  arrayStore : Context W → Word → Value → Value → Option (Bool × Context W)
  /-- the `StackTrace` that `Exception::createException` allocates -/
  newStackTrace : Context W → Word
  functionClass : Word
  exceptionClass : Word
  function : Word → Option (Function W)

/-- `Function::execute(context, instance, argCount)` of the function at an address. -/
abbrev Execute (W : Type) := Word → Word → ℕ → Context W → Option (Bool × Context W)

end B0rk
