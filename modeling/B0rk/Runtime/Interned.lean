import B0rk.Runtime.Operations

set_option autoImplicit false

/-! # Interned strings

`Runtime::newString`: the bytecode refers to strings by their address, so there is one object for
each text, which the collector never takes. -/

namespace B0rk

/-- `Object::setExternalGC`. -/
def Runtime.setExternalGC (rt : Runtime) (obj : ℕ) : Runtime :=
  { rt with mem := rt.mem.set obj { rt.mem obj with gcMark := gcExternal } }

/-- The runtime with `m_stringTable`. `natives` are the `StringNative`s that have been made, with their
    texts; none of them is ever deleted. -/
structure Interned where
  rt : Runtime
  stringTable : List (String × ℕ)
  natives : List (Word × String)

def Interned.init (start : ℕ) : Interned := ⟨Runtime.init start, [], []⟩

variable (fuel : ℕ) (classes : CoreClasses) (roots : Roots)

/-- `String::getString`; `none` if slot 0 holds no `StringNative`. -/
def Interned.getString (s : Interned) (obj : ℕ) : Option String :=
  if (s.rt.mem obj).clazz = some classes.string then
    s.natives.lookup ((s.rt.mem obj).values 0).bits
  else some "NOTASTRING"

/-- `Runtime::newString`; `native` is the address of the `StringNative`, if one is made. -/
def newString (now native : Word) (text : String) (s : Interned) : Option (Interned × ℕ) :=
  match s.stringTable.lookup text with
  | some obj => some (s, obj)
  | none => do
      let (rt, obj) ← createString fuel classes roots now native s.rt
      some (⟨rt.setExternalGC obj, (text, obj) :: s.stringTable, (native, text) :: s.natives⟩, obj)

end B0rk
