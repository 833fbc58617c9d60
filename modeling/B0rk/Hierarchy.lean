import B0rk.Runtime.Gc
import Mathlib.Logic.Function.Basic

set_option autoImplicit false

/-! # Class hierarchies

The classes of a process and what an embedder or the parser does to them: create one below another,
declare fields, store into static fields. A `Class*` is the place of the class in the order of
creation. `supers` is what following `m_superClass` from a class goes through, which the constructor
settles. Behind them stand the accesses of `object.h` to the native part of an object. -/

namespace B0rk

/-- Where `m_staticValues[slot - m_staticFieldStartId]` is; `none` outside the vector. The difference
    is unsigned, so a slot below `m_staticFieldStartId` is far outside. -/
def Class.staticIndex (c : Class) (slot : ℕ) : Option ℕ :=
  if slot < c.staticFieldStartId then none
  else if slot - c.staticFieldStartId < c.staticValues.length then
    some (slot - c.staticFieldStartId)
  else none

/-- `Class::setStaticField`; `none` where the source indexes outside `m_staticValues`. -/
def Class.setStaticField (c : Class) (slot : ℕ) (v : Value) : Option Class :=
  (c.staticIndex slot).map (fun i => { c with staticValues := c.staticValues.set i v })

/-- The classes, with the superclasses of each, the nearest first. -/
structure Hierarchy where
  count : ℕ
  clazz : ℕ → Class
  supers : ℕ → List ℕ

namespace Hierarchy

def empty : Hierarchy := ⟨0, fun _ => Class.create none "", fun _ => []⟩

variable (H : Hierarchy)

/-- A class and its superclasses. -/
def chain (k : ℕ) : List ℕ := k :: H.supers k

def classChain (k : ℕ) : ClassChain := (H.chain k).map H.clazz

/-- `m_classes`. -/
def classes : List Class := (List.range H.count).map H.clazz

/-- A method of a class that changes its members. -/
def update (k : ℕ) (c : Class) : Hierarchy := { H with clazz := Function.update H.clazz k c }

/-- `new Class(superClass, name)`. -/
def create (superClass : Option ℕ) (name : String) : Hierarchy where
  count := H.count + 1
  clazz := Function.update H.clazz H.count (Class.create (superClass.map H.clazz) name)
  supers := Function.update H.supers H.count ((superClass.map H.chain).getD [])

def addField (k : ℕ) (name : String) : Hierarchy := H.update k ((H.clazz k).addField name)

def addStaticField (k : ℕ) (name : String) (value : Option Value) : Hierarchy :=
  H.update k ((H.clazz k).addStaticField name value)

def addMethod (k : ℕ) (name : String) (function : Word) : Hierarchy :=
  H.update k ((H.clazz k).addMethod name function)

def getFieldId (k : ℕ) (name : String) : Option ℕ := (H.classChain k).getFieldId name

def getStaticFieldId (k : ℕ) (name : String) : Option ℕ := (H.classChain k).getStaticFieldId name

def getStaticField (k slot : ℕ) : Option Value := (H.clazz k).getStaticField slot

def setStaticField (k slot : ℕ) (v : Value) : Option Hierarchy :=
  ((H.clazz k).setStaticField slot v).map (H.update k)

/-- The element that `getStaticField` and `setStaticField` access: the class whose vector it is in, and
    its index. -/
def staticElement (k slot : ℕ) : Option (ℕ × ℕ) := ((H.clazz k).staticIndex slot).map (fun i => (k, i))

/-- The class in which `getStaticFieldId` finds the name. -/
def declaringClass (k : ℕ) (name : String) : Option ℕ :=
  (H.chain k).find? (fun i => ((H.clazz i).staticFields.lookup name).isSome)

end Hierarchy

/-! ## Native objects -/

/-- The slot of the native object in `setNativeObject` and `getNativeObject`. -/
def Class.nativeField (c : Class) : ℕ := c.fieldCount - 1

/-- `Object::setNativeObject`: the pointer is stored, the type of the slot is left as it is. -/
def Object.setNativeObject (o : Object) (clazz : Class) (object : Word) : Object :=
  let v := o.values clazz.nativeField
  { o with values := Function.update o.values clazz.nativeField ⟨v.type, object⟩ }

/-- `Object::getNativeObject`. -/
def Object.getNativeObject (o : Object) (clazz : Class) : Word :=
  (o.values clazz.nativeField).bits

/-- `Object::setValue`. -/
def Object.setValue (o : Object) (slot : ℕ) (v : Value) : Object :=
  { o with values := Function.update o.values slot v }

end B0rk
