import B0rk.Value
import Mathlib.Data.Nat.Notation

set_option autoImplicit false

/-! # Classes

`class.h`: the methods, instance fields and static fields of a class. A class is looked at together
with its superclasses, as the list of the class itself, its superclass, and so on up to the class
whose `m_superClass` is `NULL`; the lookups that climb `m_superClass` run down that list. -/

namespace B0rk

/-- The members of `class Class`. Functions and classes are referred to by their address. -/
structure Class where
  name : String
  methods : List (String × Word)
  fieldStartId : ℕ
  fieldCount : ℕ
  fields : List (String × ℕ)
  staticFieldStartId : ℕ
  staticFieldCount : ℕ
  staticFields : List (String × ℕ)
  staticValues : List Value

/-- `Class::Class`. A subclass takes over how many fields its superclass has so far; one more slot is
    left free. -/
def Class.create (superClass : Option Class) (name : String) : Class :=
  match superClass with
  | some c =>
      { name := name, methods := [], fieldStartId := c.fieldCount, fieldCount := c.fieldCount + 1
        fields := [], staticFieldStartId := c.staticFieldCount
        staticFieldCount := c.staticFieldCount, staticFields := [], staticValues := [] }
  | none =>
      { name := name, methods := [], fieldStartId := 0, fieldCount := 1, fields := []
        staticFieldStartId := 0, staticFieldCount := 0, staticFields := [], staticValues := [] }

/-- Inserting into a map does not overwrite. -/
def insertNew (fields : List (String × ℕ)) (name : String) (id : ℕ) : List (String × ℕ) :=
  if (fields.lookup name).isSome then fields else (name, id) :: fields

/-- `Class::addField`. The slot is used up even if the name is taken. -/
def Class.addField (c : Class) (name : String) : Class :=
  { c with fields := insertNew c.fields name c.fieldCount, fieldCount := c.fieldCount + 1 }

/-- `Class::addStaticField`, with the initial value, if there is one, stored behind it. -/
def Class.addStaticField (c : Class) (name : String) (value : Option Value) : Class :=
  { c with
    staticFields := insertNew c.staticFields name c.staticFieldCount
    staticFieldCount := c.staticFieldCount + 1
    staticValues := c.staticValues ++ [value.getD ⟨.void, 0⟩] }

/-- `Class::addMethod`, without the name that it gives the function. -/
def Class.addMethod (c : Class) (name : String) (function : Word) : Class :=
  { c with
    methods := if (c.methods.lookup name).isSome then c.methods else (name, function) :: c.methods }

/-- A class followed by its superclasses. -/
abbrev ClassChain := List Class

/-- `Class::getStaticField`: `none` where the source indexes outside `m_staticValues`. -/
def Class.getStaticField (c : Class) (slot : ℕ) : Option Value :=
  if slot < c.staticFieldStartId then none else c.staticValues[slot - c.staticFieldStartId]?

/-- `Class::getFieldId`; `none` for `-1`. -/
def ClassChain.getFieldId (cs : ClassChain) (name : String) : Option ℕ :=
  cs.findSome? (fun c => c.fields.lookup name)

/-- `Class::getStaticFieldId`; `none` for `-1`. -/
def ClassChain.getStaticFieldId (cs : ClassChain) (name : String) : Option ℕ :=
  cs.findSome? (fun c => c.staticFields.lookup name)

/-- `Class::findMethod`; `none` for `NULL`. -/
def ClassChain.findMethod (cs : ClassChain) (name : String) : Option Word :=
  cs.findSome? (fun c => c.methods.lookup name)

end B0rk
