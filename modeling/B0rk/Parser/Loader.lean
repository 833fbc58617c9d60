import B0rk.Class

set_option autoImplicit false

/-! # Loading classes

`Runtime::findClass`, `Runtime::loadClass` and `Parser::parseClass`. Parsing the body of a method looks
up the classes that it names, which loads those that are not known yet, in the middle of the class that
is being parsed. Of a source file the model keeps what this depends on: the classes with their
superclasses and members in order, and for each method the classes that its body names, under the
names that `m_imports` gives them. -/

namespace B0rk

namespace Loader

/-- A class that is named in the body of a method. -/
inductive ClassRef
  /-- an imported class; it is an error if it is not found -/
  | imported (name : String)
  /-- `a.b.c`: `a.b`, `a.b.c` and so on are tried until one is found -/
  | dotted (names : List String)
  deriving DecidableEq, Repr

/-- What the body of a class consists of. -/
inductive Member
  | field (name : String)
  | staticField (name : String) (value : Option Value)
  | method (refs : List ClassRef)
  /-- something that the parser rejects -/
  | malformed
  deriving DecidableEq, Repr

/-- A class in a source file, up to its closing brace. -/
structure ClassDecl where
  name : String
  superClass : Option String
  members : List Member

/-- A source file. `complete` says that nothing but classes is in it. -/
structure SourceFile where
  classes : List ClassDecl
  complete : Bool

/-- `enum ClassState`. -/
inductive ClassState
  | init
  | parsing
  | complete
  deriving DecidableEq, Repr

/-- A `Class` object in `m_classes`. `native` is a class that the runtime itself has made, `deleted`
    one whose object `parseClass` has deleted without taking it off the map. -/
structure Entry where
  clazz : Class
  superClass : Option String
  state : ClassState
  native : Bool
  deleted : Bool

/-- `m_classes`, the youngest class first. A `Class*` is the name of the class. -/
abbrev Registry := List Entry

namespace Registry

def find (reg : Registry) (name : String) : Option Entry :=
  List.find? (fun e => e.clazz.name == name) reg

/-- Changing the class of the given name. -/
def update (reg : Registry) (name : String) (f : Entry → Entry) : Registry :=
  List.map (fun e => if e.clazz.name = name then f e else e) reg

/-- `clazz->setState(state)`. -/
def setState (reg : Registry) (name : String) (state : ClassState) : Registry :=
  reg.update name (fun e => { e with state := state })

/-- `delete clazz`. -/
def delete (reg : Registry) (name : String) : Registry :=
  reg.update name (fun e => { e with deleted := true })

end Registry

/-- `m_objectClass`. -/
def objectClass : String := "system.lang.Object"

/-- `Runtime::loadClass`, as the parser calls it: the class, or `NULL`, and the classes that are there
    afterwards. `none` does not return, or is the use of a deleted class. -/
abbrev Load := String → Registry → Option (Option String × Registry)

section

variable (load : Load)

/-- `Runtime::findClass`. -/
def findClass (name : String) (mayLoad : Bool) (reg : Registry) :
    Option (Option String × Registry) :=
  match reg.find name with
  | some e => some (some e.clazz.name, reg)
  | none => if mayLoad then load name reg else some (none, reg)

/-- The loop over the parts of `a.b.c`. -/
def findDotted : List String → Registry → Option (Option String × Registry)
  | [], reg => some (none, reg)
  | name :: names, reg => do
      let (clazz, reg) ← findClass load name true reg
      match clazz with
      | some clazz => some (some clazz, reg)
      | none => findDotted names reg

/-- The classes that the body of a method names; `false` if one of them is missing. -/
def parseRefs : List ClassRef → Registry → Option (Bool × Registry)
  | [], reg => some (true, reg)
  | .imported name :: refs, reg => do
      let (clazz, reg) ← findClass load name true reg
      match clazz with
      | some _ => parseRefs refs reg
      | none => some (false, reg)
  | .dotted names :: refs, reg => do
      let (_, reg) ← findDotted load names reg
      parseRefs refs reg

/-- The loop of `parseClass` over the body of the class `name`; `false` is an error. -/
def parseMembers (name : String) : List Member → Registry → Option (Bool × Registry)
  | [], reg => some (true, reg)
  | .field field :: members, reg =>
      parseMembers name members
        (reg.update name (fun e => { e with clazz := e.clazz.addField field }))
  | .staticField field value :: members, reg =>
      parseMembers name members
        (reg.update name (fun e => { e with clazz := e.clazz.addStaticField field value }))
  | .method refs :: members, reg => do
      let (ok, reg) ← parseRefs load refs reg
      if ok then parseMembers name members reg else some (false, reg)
  | .malformed :: _, reg => some (false, reg)

/-- `new Class(superClass, name)` with `Runtime::addClass`. -/
def addClass (superClass name : String) (reg : Registry) : Option Registry := do
  let e ← reg.find superClass
  if e.deleted then none
  else
    let clazz := Class.create (some e.clazz) name
    some (⟨clazz, some superClass, .init, false, false⟩ :: reg)

/-- The superclass of a class; `none` inside if it is missing. -/
def findSuperClass (decl : ClassDecl) (reg : Registry) : Option (Option String × Registry) :=
  match decl.superClass with
  | some superName => findClass load superName true reg
  | none => some (some objectClass, reg)

/-- The class that is parsed: a new one, or one that is there already. `false` ends the parse. -/
def openClass (addToExisting : Bool) (superClass name : String) (reg : Registry) :
    Option (Bool × Registry) :=
  match reg.find name with
  | some e =>
      if e.deleted then none
      else some (e.state != .parsing && addToExisting, reg)
  | none => (addClass superClass name reg).map (fun reg => (true, reg))

/-- The part of `parseClass` behind the header: `false` if it fails. When the class is being parsed
    already, the body is left unread, and `parse` then fails on its first token. -/
def parseBody (addToExisting : Bool) (decl : ClassDecl) (superClass : String) (reg : Registry) :
    Option (Bool × Registry) := do
  let (goOn, reg) ← openClass addToExisting superClass decl.name reg
  if goOn then
    let reg := reg.setState decl.name .parsing
    let (ok, reg) ← parseMembers load decl.name decl.members reg
    if ok then some (true, reg.setState decl.name .complete) else some (false, reg.delete decl.name)
  else some (false, reg)

/-- `Parser::parseClass`. -/
def parseClass (addToExisting : Bool) (decl : ClassDecl) (reg : Registry) :
    Option (Bool × Registry) := do
  let (superClass, reg) ← findSuperClass load decl reg
  match superClass with
  | some superClass => parseBody load addToExisting decl superClass reg
  | none => some (false, reg)

/-- The classes of a file, up to the first one that fails. -/
def parseClasses (addToExisting : Bool) : List ClassDecl → Registry → Option (Bool × Registry)
  | [], reg => some (true, reg)
  | decl :: decls, reg => do
      let (ok, reg) ← parseClass load addToExisting decl reg
      if ok then parseClasses addToExisting decls reg else some (false, reg)

end

/-- `Runtime::loadClass`. `files` are the source files on the class path. Loads are nested at most
    `fuel` deep. -/
def loadClass (files : String → Option SourceFile) : ℕ → Bool → Load
  | 0, _, _, _ => none
  | fuel + 1, addToExisting, name, reg =>
      match files name with
      | none => some (none, reg)
      | some file => do
          let (ok, reg) ←
            parseClasses (loadClass files fuel false) addToExisting file.classes reg
          if ok && file.complete then some ((reg.find name).map (·.clazz.name), reg)
          else some (none, reg)

end Loader

end B0rk
