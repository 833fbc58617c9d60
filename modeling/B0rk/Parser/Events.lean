import B0rk.Parser.Proofs.Reports

set_option autoImplicit false

/-! # Classes that are rejected or completed

What becomes of the classes that a parse comes to, in its own tokens or in a file that is loaded for
them. It is told from the tokens, the files and the table of classes in front of the parse. -/

namespace B0rk

/-- What happens to a class: its body is malformed, so that `parseClass` goes through `delete clazz`, or
    `parseClass` gets to its end. -/
inductive ClassEvent
  | rejected (name : String)
  | completed (name : String)

namespace ClassTable

/-- `findClass(name, false)` finds a class. -/
def Known (table : ClassTable) (name : String) : Prop := (table.classes.find name).isSome = true

/-- The table has a class of this name, which has been deleted. -/
def Deleted (table : ClassTable) (name : String) : Prop :=
  ∃ e, table.classes.find name = some e ∧ e.deleted = true

/-- No entry of the table is a class that has been deleted. -/
def Sound (table : ClassTable) : Prop := ∀ name, ¬table.Deleted name

end ClassTable

/-- A class that is looked for, with the table at that time. -/
abbrev Lookup := String × ClassTable

/-- A parser that notes down which classes it looks for. -/
def ParserEnv.noting (P : ParserEnv ClassTable) : ParserEnv (ClassTable × List Lookup) where
  tokens := P.tokens
  imports := P.imports
  findClass := fun (table, lookups) name =>
    let (clazz, table') := P.findClass table name
    (clazz, table', lookups ++ [(name, table)])
  newFunction := fun (table, lookups) =>
    let (address, table) := P.newFunction table
    (address, table, lookups)
  addDouble := P.addDouble
  mulDouble := P.mulDouble

/-- The classes that a function looks for when it is parsed. -/
def lookups (P : ParserEnv ClassTable) (fuel : ℕ) (s : ParserState ClassTable) : List Lookup :=
  match parseFunction P.noting fuel ⟨s.pos, s.world, []⟩ with
  | some (_, t) => t.world.2
  | none => []

namespace ClassPath

open Attempt

section

variable (E : ClassPath) (load : LoadClass) (tokens : List Token) (fuel : ℕ) (addToExisting : Bool)
  (loads : String → ClassTable → ClassEvent → Prop)

/-- The loop over the members of the class `name` comes to a method. -/
inductive Method (P : ParserEnv ClassTable) (name : String) :
    ParserState ClassTable → ParserState ClassTable → Prop
  | here {s t u : ParserState ClassTable} {token method : Token}
      (hfunction : Ok (expect P .tokFunction) s token t) (hname : Ok (nextToken P) t method u) :
      Method P name s u
  | behindField {s t u v : ParserState ClassTable} {token : Token}
      (hvar : Ok (expect P .tokVar) s token t) (hfield : Ok (E.parseField P name) t () u)
      (h : Method P name u v) : Method P name s v
  | behindMethod {s t u v : ParserState ClassTable} {token : Token} {resolvable : Bool}
      (hfunction : Ok (expect P .tokFunction) s token t)
      (hmethod : Ok (parseMethod P fuel name) t resolvable u) (h : Method P name u v) :
      Method P name s v

/-- What happens to a class whose name has been read, and to those that are loaded for it. -/
inductive InClass (imports : Imports) (name : String) (s : ParserState ClassTable) :
    ClassEvent → Prop
  | superClass {t u : ParserState ClassTable} {token : Token} {id : List String} {event : ClassEvent}
      (hextends : Ok (expect (E.parser load tokens imports) .tokExtends) s token t)
      (hid : Ok (parseIdentifier (E.parser load tokens imports) fuel) t id u)
      (h : loads (identifierToString (importedIdentifier (E.parser load tokens imports) id)) u.world
        event) : InClass imports name s event
  | method {t u v : ParserState ClassTable} {superClass : String} {lookup : Lookup}
      {event : ClassEvent} (hhead : Ok (E.parseHead load tokens fuel imports) s superClass t)
      (hopen : Ok (openClass addToExisting superClass name) t true u)
      (hmethod : E.Method fuel (E.parser load tokens imports) name u v)
      (hlookup : lookup ∈ lookups (E.parser load tokens imports) fuel v)
      (h : loads lookup.1 lookup.2 event) : InClass imports name s event
  | rejected {t u : ParserState ClassTable} {superClass : String}
      (hhead : Ok (E.parseHead load tokens fuel imports) s superClass t)
      (hopen : Ok (openClass addToExisting superClass name) t true u)
      (hbody : (parseFamily E load tokens fuel addToExisting).Malformed
        (.members fuel imports name, u)) : InClass imports name s (.rejected name)
  | completed {t u v : ParserState ClassTable} {superClass : String} {resolvable : Bool}
      (hhead : Ok (E.parseHead load tokens fuel imports) s superClass t)
      (hopen : Ok (openClass addToExisting superClass name) t true u)
      (hbody : Ok (E.parseMembers (E.parser load tokens imports) fuel name fuel) u resolvable v) :
      InClass imports name s (.completed name)

/-- What happens to the classes that the loop over the classes comes to. -/
inductive InClasses : Imports → ParserState ClassTable → ClassEvent → Prop
  | here {imports : Imports} {s t u : ParserState ClassTable} {token : Token} {id : List String}
      {event : ClassEvent} (hclass : Ok (expect (E.parser load tokens imports) .tokClass) s token t)
      (hid : Ok (parseIdentifier (E.parser load tokens imports) fuel) t id u)
      (h : E.InClass load tokens fuel addToExisting loads (addImport imports id)
        (identifierToString id) u event) : InClasses imports s event
  | later {imports imports' : Imports} {s t u : ParserState ClassTable} {token : Token}
      {resolvable : Bool} {event : ClassEvent}
      (hclass : Ok (expect (E.parser load tokens imports) .tokClass) s token t)
      (hparse : Ok (E.parseClass load tokens fuel addToExisting imports) t (imports', resolvable) u)
      (h : InClasses imports' u event) : InClasses imports s event

/-- What happens to the classes that a parse comes to. -/
def InParse (table : ClassTable) (event : ClassEvent) : Prop :=
  ∃ imports s, Ok (E.parseImports load tokens fuel fuel runtimeImport) ⟨0, table⟩ imports s ∧
    E.InClasses load tokens fuel addToExisting loads imports s event

end

/-- What happens to the classes that looking for a class comes to, where loads are nested at most
    `depth` deep. A class that is there is not loaded, nor one without a file. -/
def InLoad (E : ClassPath) (fuel : ℕ) : ℕ → String → ClassTable → ClassEvent → Prop
  | 0, _, _, _ => False
  | depth + 1, name, table, event =>
      table.halted = false ∧ ¬table.Known name ∧ ∃ tokens, E.files.lookup name = some tokens ∧
        (E.parse (E.loadClass fuel halting depth false) tokens fuel false ⟨0, table⟩).isSome ∧
        E.InParse (E.loadClass fuel halting depth false) tokens fuel false (InLoad E fuel depth) table
          event

/-- What happens to the classes that `parse` comes to. -/
def Meets (E : ClassPath) (fuel depth : ℕ) (tokens : List Token) (addToExisting : Bool)
    (table : ClassTable) (event : ClassEvent) : Prop :=
  E.InParse (E.loadClass fuel halting depth false) tokens fuel addToExisting (E.InLoad fuel depth)
    table event

/-- The class for which the loop over the classes gives up. -/
inductive FailsIn (E : ClassPath) (load : LoadClass) (tokens : List Token) (fuel : ℕ)
    (addToExisting : Bool) : Imports → ParserState ClassTable → String → Prop
  | here {imports : Imports} {s t u : ParserState ClassTable} {token : Token} {id : List String}
      (hclass : Ok (expect (E.parser load tokens imports) .tokClass) s token t)
      (hid : Ok (parseIdentifier (E.parser load tokens imports) fuel) t id u)
      (hfail : Fails (E.parseClass load tokens fuel addToExisting imports) t) :
      FailsIn E load tokens fuel addToExisting imports s (identifierToString id)
  | later {imports imports' : Imports} {s t u : ParserState ClassTable} {token : Token}
      {resolvable : Bool} {name : String}
      (hclass : Ok (expect (E.parser load tokens imports) .tokClass) s token t)
      (hparse : Ok (E.parseClass load tokens fuel addToExisting imports) t (imports', resolvable) u)
      (h : FailsIn E load tokens fuel addToExisting imports' u name) :
      FailsIn E load tokens fuel addToExisting imports s name

/-- The class of which `parse` says that it cannot be parsed. -/
def StopsAt (E : ClassPath) (load : LoadClass) (tokens : List Token) (fuel : ℕ)
    (addToExisting : Bool) (table : ClassTable) (name : String) : Prop :=
  ∃ imports s, Ok (E.parseImports load tokens fuel fuel runtimeImport) ⟨0, table⟩ imports s ∧
    E.FailsIn load tokens fuel addToExisting imports s name

end ClassPath

end B0rk
