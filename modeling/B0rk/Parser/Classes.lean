import B0rk.Parser.Loader
import B0rk.Parser.Recorded

set_option autoImplicit false

/-! # The parser of class files

`Parser::parse` and `Parser::parseClass`, down to the tokens, with `Runtime::findClass` and
`Runtime::loadClass`, which call one another. Of the types that `resolveTypes` finds at the end of
`parse` nothing gets into the runtime; they are in B0rk.Parser.Types, and here it only matters whether
`resolveTypes` can go through `m_expressions`. The functions below say so of the part that they have
put in. The code of a `<staticinit>` is left out. -/

namespace B0rk

/-- The runtime, as far as the parser changes it. `functions` counts the functions that it has made.
    `halted` is set by a load that does not come to an end. -/
structure ClassTable where
  classes : Loader.Registry
  functions : ℕ
  halted : Bool

namespace ClassTable

def halt (table : ClassTable) : ClassTable := { table with halted := true }

/-- Something is added to the class of the given name. -/
def updateClass (table : ClassTable) (name : String) (f : Class → Class) : ClassTable :=
  { table with classes := table.classes.update name (fun e => { e with clazz := f e.clazz }) }

/-- `clazz->setState(PARSING)`. -/
def startClass (table : ClassTable) (name : String) : ClassTable :=
  { table with classes := table.classes.setState name .parsing }

/-- `clazz->setState(COMPLETE)`. -/
def completeClass (table : ClassTable) (name : String) : ClassTable :=
  { table with classes := table.classes.setState name .complete }

/-- `delete clazz`; the class stays in `m_classes`. -/
def rejectClass (table : ClassTable) (name : String) : ClassTable :=
  { table with classes := table.classes.delete name }

end ClassTable

/-- `m_imports`. -/
abbrev Imports := List (String × List String)

/-- `m_imports.insert(make_pair(id.end(), id))`. -/
def addImport (imports : Imports) (id : List String) : Imports :=
  if (imports.lookup (id.getLastD "")).isSome then imports else (id.getLastD "", id) :: imports

/-- What `findClass` and `loadClass` have to do with a name: the class, and the runtime behind it. -/
abbrev LoadClass := String → ClassTable → Word × ClassTable

/-- The files on the class path, and where new objects are put. -/
structure ClassPath where
  /-- the tokens of those files that can be opened and lexed, under the names of the classes for which
      they are opened -/
  files : List (String × List Token)
  /-- `new Class` -/
  newClass : String → Word
  newClass_ne : ∀ name, newClass name ≠ 0
  /-- `new ScriptFunction` -/
  newFunction : ℕ → Word
  /-- `String::createString` -/
  createString : String → Word
  addDouble : Word → Word → Word
  mulDouble : Word → Word → Word
  /-- a `double` where an `int64_t` is expected -/
  truncDouble : Word → Word

namespace ClassPath

variable (E : ClassPath)

/-- `Runtime::findClass(context, name, true)`, with the null pointer `0`. -/
def findClass (load : LoadClass) : LoadClass := fun name table =>
  if table.halted then (0, table)
  else
    match table.classes.find name with
    | some e => (E.newClass e.clazz.name, table)
    | none => load name table

/-- A parser of the given tokens, which loads classes by `load`. -/
def parser (load : LoadClass) (tokens : List Token) (imports : Imports) : ParserEnv ClassTable where
  tokens := tokens
  imports := imports
  findClass := fun table name => E.findClass load name table
  newFunction := fun table =>
    (E.newFunction table.functions, { table with functions := table.functions + 1 })
  addDouble := E.addDouble
  mulDouble := E.mulDouble

def onTable (f : ClassTable → ClassTable) : Parse ClassTable Unit :=
  Attempt.modify (fun s => { s with world := f s.world })

/-- The superclass that a class names behind `extends`; a missing one is an error. -/
def parseSuperClass (load : LoadClass) (tokens : List Token) (fuel : ℕ) (imports : Imports) :
    Parse ClassTable String := do
  let P := E.parser load tokens imports
  let id ← parseIdentifier P fuel
  let name := identifierToString (importedIdentifier P id)
  let clazz ← B0rk.findClass P name
  if clazz = 0 then Attempt.fail else pure name

/-- The head of a class behind its name, with the brace: the superclass. -/
def parseHead (load : LoadClass) (tokens : List Token) (fuel : ℕ) (imports : Imports) :
    Parse ClassTable String := do
  let P := E.parser load tokens imports
  let token ← nextToken P
  let (superClass, token) ←
    (if token.type = .tokExtends then do
      let superClass ← parseSuperClass E load tokens fuel imports
      let token ← nextToken P
      pure (superClass, token)
    else pure (Loader.objectClass, token))
  if token.type = .tokBraceLeft then pure superClass else Attempt.fail

/-- The object that `parseClass` adds to: `false` for one that is being parsed already, which it
    returns as it is. A class that has been deleted must not be looked at. -/
def openClass (addToExisting : Bool) (superClass name : String) : Parse ClassTable Bool := fun s =>
  match s.world.classes.find name with
  | some e =>
      if e.deleted then none
      -- the call that parses it is further up the C stack
      else if e.state = .parsing then some (some false, s)
      else if addToExisting then some (some true, { s with world := s.world.startClass name })
      else some (none, s)
  | none =>
      match Loader.addClass superClass name s.world.classes with
      | none => none
      | some classes =>
          let table := { s.world with classes := classes }
          some (some true, { s with world := table.startClass name })

/-- The value behind `static =`. -/
def staticValue (token : Token) : Parse ClassTable Value :=
  match token.type with
  | .tokString => pure (.object (E.createString token.string))
  | .tokInteger => pure (.integer (token.i.signExtend 64))
  | .tokDouble => pure (.double (E.truncDouble token.d))
  | _ => Attempt.fail

/-- A field, behind `var`. -/
def parseField (P : ParserEnv ClassTable) (name : String) : Parse ClassTable Unit := do
  let field ← nextToken P
  let token ← nextToken P
  let (isStatic, value, token) ←
    (if token.type = .tokStatic then do
      let token ← nextToken P
      if token.type = .tokAssign then do
        let token ← nextToken P
        let value ← staticValue E token
        let token ← nextToken P
        pure (true, some value, token)
      else pure (true, none, token)
    else pure (false, none, token))
  onTable (·.updateClass name (fun c =>
    if isStatic then c.addStaticField field.string value else c.addField field.string))
  if token.type = .tokSemicolon then pure () else Attempt.fail

/-- A method, behind `function`. -/
def parseMethod (P : ParserEnv ClassTable) (fuel : ℕ) (name : String) : Parse ClassTable Bool := do
  let method ← nextToken P
  let resolvable ← Attempt.read (ParseStep.resolvable P (.function fuel))
  let function ← parseFunction P fuel
  onTable (·.updateClass name (·.addMethod method.string function.address))
  pure resolvable

/-- The loop of `parseClass` over the members of the class `name`. -/
def parseMembers (P : ParserEnv ClassTable) (fuel : ℕ) (name : String) : ℕ → Parse ClassTable Bool
  | 0 => Attempt.undefined
  | n + 1 => do
      let more ← moreTokens P
      if !more then pure true
      else do
        let token ← nextToken P
        match token.type with
        | .tokBraceRight => pure true
        | .tokVar => do
            parseField E P name
            parseMembers P fuel name n
        | .tokFunction => do
            let method ← parseMethod P fuel name
            let members ← parseMembers P fuel name n
            pure (method && members)
        | _ => Attempt.fail

/-- The body of the class `name`. -/
def parseBody (P : ParserEnv ClassTable) (fuel : ℕ) (name : String) : Parse ClassTable Bool := do
  let body ← Attempt.orNull (parseMembers E P fuel name fuel)
  match body with
  | some resolvable => do
      onTable (·.completeClass name)
      pure resolvable
  | none => do
      -- `delete clazz`, which stays in `m_classes`
      onTable (·.rejectClass name)
      Attempt.fail

/-- `Parser::parseClass` behind the head of the class. -/
def parseOpened (P : ParserEnv ClassTable) (fuel : ℕ) (addToExisting : Bool)
    (superClass name : String) : Parse ClassTable Bool := do
  let parseOn ← openClass addToExisting superClass name
  if parseOn then parseBody E P fuel name else pure true

/-- `Parser::parseClass` behind the name of the class. -/
def parseClassNamed (load : LoadClass) (tokens : List Token) (fuel : ℕ) (addToExisting : Bool)
    (imports : Imports) (name : String) : Parse ClassTable Bool := do
  let superClass ← parseHead E load tokens fuel imports
  parseOpened E (E.parser load tokens imports) fuel addToExisting superClass name

/-- `Parser::parseClass`, with the imports behind it. -/
def parseClass (load : LoadClass) (tokens : List Token) (fuel : ℕ) (addToExisting : Bool)
    (imports : Imports) : Parse ClassTable (Imports × Bool) := do
  let id ← parseIdentifier (E.parser load tokens imports) fuel
  let imports := addImport imports id
  let resolvable ← parseClassNamed E load tokens fuel addToExisting imports (identifierToString id)
  pure (imports, resolvable)

/-- The first loop of `Parser::parse`. -/
def parseImports (load : LoadClass) (tokens : List Token) (fuel : ℕ) :
    ℕ → Imports → Parse ClassTable Imports
  | 0, _ => Attempt.undefined
  | n + 1, imports => do
      let P := E.parser load tokens imports
      let more ← moreTokens P
      if !more then pure imports
      else do
        let token ← nextToken P
        if token.type = .tokImport then do
          let id ← parseIdentifier P fuel
          let _ ← expect P .tokSemicolon
          parseImports load tokens fuel n (addImport imports id)
        else do
          rewind 1
          pure imports

/-- The second loop of `Parser::parse`. -/
def parseClasses (load : LoadClass) (tokens : List Token) (fuel : ℕ) (addToExisting : Bool) :
    ℕ → Imports → Parse ClassTable Bool
  | 0, _ => Attempt.undefined
  | n + 1, imports => do
      let P := E.parser load tokens imports
      let more ← moreTokens P
      if !more then pure true
      else do
        let _ ← expect P .tokClass
        let (imports, clazz) ← parseClass E load tokens fuel addToExisting imports
        let classes ← parseClasses load tokens fuel addToExisting n imports
        pure (clazz && classes)

/-- What `m_imports` starts with. -/
def runtimeImport : Imports := [("Runtime", ["system", "lang", "Runtime"])]

/-- `Parser::parse`, with `resolveTypes` at its end. -/
def parse (load : LoadClass) (tokens : List Token) (fuel : ℕ) (addToExisting : Bool) :
    Parse ClassTable Unit := do
  let imports ← parseImports E load tokens fuel fuel runtimeImport
  let resolvable ← parseClasses E load tokens fuel addToExisting fuel imports
  if resolvable then pure () else Attempt.undefined

/-- `Runtime::loadClass`. Loads are nested at most `depth` deep; below that, `last` stands for them.
    A parse that comes to no result halts the runtime. -/
def loadClass (fuel : ℕ) (last : LoadClass) : ℕ → Bool → LoadClass
  | 0, _ => last
  | depth + 1, addToExisting => fun name table =>
      match E.files.lookup name with
      | none => (0, table)
      | some tokens =>
          match parse E (loadClass fuel last depth false) tokens fuel addToExisting ⟨0, table⟩ with
          | none => (0, table.halt)
          -- an error does not undo what other loads have put into the table
          | some (none, s) => (0, s.world)
          | some (some _, s) =>
              if s.world.halted then (0, s.world)
              else
                match s.world.classes.find name with
                | some e => (E.newClass e.clazz.name, s.world)
                | none => (0, s.world)

/-- A load that does not come to an end. -/
def halting : LoadClass := fun _ table => (0, table.halt)

end ClassPath

end B0rk
