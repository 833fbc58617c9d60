import B0rk.Executor.Context

set_option autoImplicit false

/-! # Making objects

`Runtime::newObject` with `callConstructor`, and `Exception::createException`. Constructors are
called through `exec`, which stands for `Function::execute`. -/

namespace B0rk

variable {W : Type}

/-- The constructor is named after the last part of the class name: what is behind the last dot. -/
def constructorName (name : String) : String :=
  String.ofList (name.toList.reverse.takeWhile (fun c => c != '.')).reverse

/-- The constructor that `callConstructor` finds for a class; it may be inherited. -/
def ClassChain.constructor : ClassChain → Option Word
  | [] => none
  | c :: superClasses => ClassChain.findMethod (c :: superClasses) (constructorName c.name)

/-- All constructors that `callConstructor` finds along a chain of classes. -/
def ClassChain.constructors : ClassChain → List Word
  | [] => []
  | c :: superClasses =>
      ClassChain.constructors superClasses ++ (ClassChain.constructor (c :: superClasses)).toList

/-- The part of `callConstructor` that calls the constructor of the class itself. -/
def callOwnConstructor (exec : Execute W) (clazz : ClassChain) (obj : Word) (argCount : ℕ)
    (ctx : Context W) : Option (Bool × Context W) :=
  match clazz.constructor with
  | none => some (true, ctx)
  | some ctor => do
      let (res, ctx) ← exec ctor obj argCount ctx
      if res then
        -- the output of the constructor is ignored
        let (_, ctx) ← ctx.pop
        some (true, ctx)
      else
        some (false, ctx)

/-- `Runtime::callConstructor`. -/
def callConstructor (exec : Execute W) : ClassChain → Word → ℕ → Context W →
    Option (Bool × Context W)
  | [], _, _, _ => none
  | c :: superClasses, obj, argCount, ctx => do
      let (res, ctx) ← match superClasses with
        | [] => some (true, ctx)
        | _ :: _ => callConstructor exec superClasses obj 0 ctx
      if res then callOwnConstructor exec (c :: superClasses) obj argCount ctx
      else some (false, ctx)

/-- `Runtime::newObject`; the null pointer is `0`. -/
def newObject (E : Env W) (exec : Execute W) (clazz : Word) (argCount : ℕ) (ctx : Context W) :
    Option (Word × Context W) := do
  let (obj, world) ← E.allocateObject ctx clazz
  let ctx := { ctx with world := world }
  let chain ← E.chain ctx.world clazz
  let (res, ctx) ← callConstructor exec chain obj argCount ctx
  some (if res then obj else 0, ctx)

/-- `object->setValue(clazz->getFieldId(name), v)`. -/
def setField (E : Env W) (clazz object : Word) (name : String) (v : Value) (ctx : Context W) :
    Option (Context W) := do
  let chain ← E.chain ctx.world clazz
  let id ← chain.getFieldId name
  let world ← E.setValue ctx.world object id v
  some { ctx with world := world }

/-- `Exception::createException`. -/
def createException (E : Env W) (exec : Execute W) (value : Value) (ctx : Context W) :
    Option (Word × Context W) := do
  let (object, ctx) ← newObject E exec E.exceptionClass 0 ctx
  let ctx ← setField E E.exceptionClass object "message" value ctx
  let stackTrace := ⟨.pointer, E.newStackTrace ctx⟩
  let ctx ← setField E E.exceptionClass object "stacktrace" stackTrace ctx
  some (object, ctx)

/-- `NativeFunction::execute`. -/
def nativeExecute (run : Word → ℕ → List Value → Context W → Option (Bool × Context W × Value))
    (obj : Word) (argCount : ℕ) (ctx : Context W) : Option (Bool × Context W) := do
  let (args, ctx) ← ctx.popArgs argCount
  let (res, ctx, result) ← run obj argCount args ctx
  if !res then some (false, ctx)
  else if ctx.exception then some (true, ctx)
  else some (true, ctx.push result)

end B0rk
