import B0rk.Runtime.Allocate

set_option autoImplicit false

/-! # Operations that allocate twice

`NEW` of an `Array` and `Runtime::newArray`, and `Exception::createException` for a message and for a
thrown value. Each gives back the objects that it has made or stored, with their classes. `roots` is
what the collector finds while the operation runs, when its arguments have been popped; `now₁` and
so on are the times of the collections that its allocations may start. -/

namespace B0rk

/-- `m_arrayClass` and the other classes that the runtime looks up by itself. -/
structure CoreClasses where
  array : Word
  arrayData : Word
  string : Word
  exception : Word

/-- `m_fieldCount` of `Array` and of `Exception`, which declare two fields, and of `ArrayData` and
    `String`, which declare none: every class has slot 0. -/
def arrayFieldCount : ℕ := 3
def exceptionFieldCount : ℕ := 3
def arrayDataFieldCount : ℕ := 1
def stringFieldCount : ℕ := 1

/-- `Object::setValue`. -/
def Runtime.setValue (rt : Runtime) (obj slot : ℕ) (v : Value) : Runtime :=
  let o := rt.mem obj
  let values := fun i => if i = slot then v else o.values i
  { rt with mem := rt.mem.set obj { o with values := values } }

/-- The roots while `args` are still on the value stack of the first context. -/
def Roots.push (roots : Roots) (args : List Value) : Roots :=
  match roots.contexts with
  | [] => { roots with contexts := [args] }
  | stack :: contexts => { roots with contexts := (args ++ stack) :: contexts }

variable (fuel : ℕ) (classes : CoreClasses) (roots : Roots)

/-- `String::createString`; `native` is the address of its `StringNative`. -/
def createString (now : Word) (native : Word) (rt : Runtime) : Option (Runtime × ℕ) := do
  let (rt, obj) ← allocateObject fuel roots now classes.string stringFieldCount 0 rt
  some (rt.setValue obj 0 ⟨.unknown, native⟩, obj)

/-- `Exception::createException` for a value. `system.lang.Exception` has no constructor. -/
def createExceptionValue (now : Word) (value : Value) (stackTrace : Word) (rt : Runtime) :
    Option (Runtime × ℕ) := do
  let (rt, obj) ← allocateObject fuel roots now classes.exception exceptionFieldCount 0 rt
  let rt := rt.setValue obj 1 value
  some (rt.setValue obj 2 ⟨.pointer, stackTrace⟩, obj)

/-- `Exception::createException` for a message. -/
def createExceptionMessage (now₁ now₂ native stackTrace : Word) (rt : Runtime) :
    Option (Runtime × List (ℕ × Word)) := do
  let (rt, str) ← createString fuel classes roots now₁ native rt
  let (rt, exception) ←
    createExceptionValue fuel classes roots now₂ (Value.object str) stackTrace rt
  some (rt, [(str, classes.string), (exception, classes.exception)])

/-- `Array::constructor`. -/
def arrayConstructor (now₁ now₂ native stackTrace : Word) (obj : ℕ) (args : List Value)
    (rt : Runtime) : Option (Runtime × List (ℕ × Word)) :=
  match args with
  | [size] => do
      let (rt, data) ← allocateObject fuel roots now₁ classes.arrayData arrayDataFieldCount
        (size.bits.toNat % 2 ^ 32) rt
      let rt := rt.setValue obj 1 size
      some (rt.setValue obj 2 (Value.object data), [(data, classes.arrayData)])
  | _ => createExceptionMessage fuel classes roots now₁ now₂ native stackTrace rt

/-- `Runtime::newObject` for `m_arrayClass`. -/
def newArray (now₁ now₂ now₃ native stackTrace : Word) (args : List Value) (rt : Runtime) :
    Option (Runtime × List (ℕ × Word)) := do
  let (rt, obj) ←
    allocateObject fuel (roots.push args) now₁ classes.array arrayFieldCount 0 rt
  let (rt, held) ←
    arrayConstructor fuel classes roots now₂ now₃ native stackTrace obj args rt
  some (rt, (obj, classes.array) :: held)

end B0rk
