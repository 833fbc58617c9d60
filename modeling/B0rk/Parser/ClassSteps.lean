import B0rk.Parser.Classes

set_option autoImplicit false

/-! # The calls above a function

`Parser::parse` and the functions between it and `parseFunction`, as routines. -/

namespace B0rk

/-- A call that `Parser::parse` makes, or a round of a loop. -/
inductive ClassStep
  | parse
  | importList (n : ℕ) (imports : Imports)
  | classes (n : ℕ) (imports : Imports)
  | clazz (imports : Imports)
  | named (imports : Imports) (name : String)
  | superClass (imports : Imports)
  | members (n : ℕ) (imports : Imports) (name : String)
  | method (imports : Imports) (name : String)
  | inside (imports : Imports) (step : ParseStep)

namespace ClassStep

/-- What a call returns. -/
abbrev Result : ClassStep → Type
  | parse => Unit
  | importList .. => Imports
  | classes .. | named .. | members .. | method .. => Bool
  | clazz _ => Imports × Bool
  | superClass _ => String
  | inside _ step => step.Result

end ClassStep

abbrev ClassRoutine (α : Type) := Routine (ParserState ClassTable) ClassStep ClassStep.Result α

namespace ClassRoutine

def call (step : ClassStep) : ClassRoutine step.Result := Routine.calling step

/-- A part that calls nothing. -/
def read {α : Type} (x : Parse ClassTable α) : ClassRoutine α := liftM x

end ClassRoutine

namespace ClassPath

open ClassRoutine

variable (E : ClassPath) (load : LoadClass) (tokens : List Token) (fuel : ℕ) (addToExisting : Bool)

def parseRoutine : ClassRoutine Unit := do
  let imports : Imports ← call (.importList fuel runtimeImport)
  let resolvable : Bool ← call (.classes fuel imports)
  if resolvable then pure () else .undefined

def importsRoutine (n : ℕ) (imports : Imports) : ClassRoutine Imports := do
  let P := E.parser load tokens imports
  let more ← moreTokens P
  if !more then pure imports
  else do
    let token ← nextToken P
    if token.type = .tokImport then do
      let id : List String ← call (.inside imports (.identifier fuel))
      let _ ← expect P .tokSemicolon
      call (.importList n (addImport imports id))
    else do
      read (rewind 1)
      pure imports

def classesRoutine (n : ℕ) (imports : Imports) : ClassRoutine Bool := do
  let P := E.parser load tokens imports
  let more ← moreTokens P
  if !more then pure true
  else do
    let _ ← expect P .tokClass
    let (imports, clazz) ← call (.clazz imports)
    let classes : Bool ← call (.classes n imports)
    pure (clazz && classes)

def classRoutine (imports : Imports) : ClassRoutine (Imports × Bool) := do
  let id : List String ← call (.inside imports (.identifier fuel))
  let imports := addImport imports id
  let resolvable : Bool ← call (.named imports (identifierToString id))
  pure (imports, resolvable)

def superClassRoutine (imports : Imports) : ClassRoutine String := do
  let P := E.parser load tokens imports
  let id : List String ← call (.inside imports (.identifier fuel))
  let name := identifierToString (importedIdentifier P id)
  let clazz ← B0rk.findClass P name
  if clazz = 0 then .fail else pure name

def headRoutine (imports : Imports) : ClassRoutine String := do
  let P := E.parser load tokens imports
  let token ← nextToken P
  let (superClass, token) ←
    (if token.type = .tokExtends then do
      let superClass : String ← call (.superClass imports)
      let token ← nextToken P
      pure (superClass, token)
    else pure (Loader.objectClass, token) : ClassRoutine (String × Token))
  if token.type = .tokBraceLeft then pure superClass else .fail

/-- The class is deleted when its members cannot be parsed. -/
def bodyRoutine (imports : Imports) (name : String) : ClassRoutine Bool := do
  let resolvable : Bool ← Routine.callingOr (ClassStep.members fuel imports name) (fun s =>
    { s with world := s.world.rejectClass name })
  read (onTable (·.completeClass name))
  pure resolvable

def namedRoutine (imports : Imports) (name : String) : ClassRoutine Bool := do
  let superClass ← headRoutine E load tokens imports
  let parseOn ← openClass addToExisting superClass name
  if parseOn then bodyRoutine fuel imports name else pure true

def membersRoutine (n : ℕ) (imports : Imports) (name : String) : ClassRoutine Bool := do
  let P := E.parser load tokens imports
  let more ← moreTokens P
  if !more then pure true
  else do
    let token ← nextToken P
    match token.type with
    | .tokBraceRight => pure true
    | .tokVar => do
        read (parseField E P name)
        call (.members n imports name)
    | .tokFunction => do
        let method : Bool ← call (.method imports name)
        let members : Bool ← call (.members n imports name)
        pure (method && members)
    | _ => .fail

def methodRoutine (imports : Imports) (name : String) : ClassRoutine Bool := do
  let P := E.parser load tokens imports
  let method ← nextToken P
  let resolvable ← read (Attempt.read (ParseStep.resolvable P (.function fuel)))
  let function : ScriptFunction ← call (.inside imports (.function fuel))
  read (onTable (·.updateClass name (·.addMethod method.string function.address)))
  pure resolvable

end ClassPath

namespace ClassStep

variable (E : ClassPath) (load : LoadClass) (tokens : List Token) (fuel : ℕ) (addToExisting : Bool)

def run : (step : ClassStep) → Parse ClassTable step.Result
  | parse => E.parse load tokens fuel addToExisting
  | importList n imports => E.parseImports load tokens fuel n imports
  | classes n imports => E.parseClasses load tokens fuel addToExisting n imports
  | clazz imports => E.parseClass load tokens fuel addToExisting imports
  | named imports name => E.parseClassNamed load tokens fuel addToExisting imports name
  | superClass imports => E.parseSuperClass load tokens fuel imports
  | members n imports name => E.parseMembers (E.parser load tokens imports) fuel name n
  | method imports name => ClassPath.parseMethod (E.parser load tokens imports) fuel name
  | inside imports step => step.run (E.parser load tokens imports)

/-- What a function does in turn. -/
def routine : (step : ClassStep) → ClassRoutine step.Result
  | parse => ClassPath.parseRoutine fuel
  | importList (n + 1) imports => E.importsRoutine load tokens fuel n imports
  | classes (n + 1) imports => E.classesRoutine load tokens n imports
  | clazz imports => ClassPath.classRoutine fuel imports
  | named imports name => E.namedRoutine load tokens fuel addToExisting imports name
  | superClass imports => E.superClassRoutine load tokens fuel imports
  | members (n + 1) imports name => E.membersRoutine load tokens n imports name
  | method imports name => E.methodRoutine load tokens fuel imports name
  | inside imports step => (step.routine (E.parser load tokens imports)).mapCalls (.inside imports)
  | importList 0 _ | classes 0 _ | members 0 _ _ => .undefined

/-- A bound for the calls below a call. -/
def rank : ClassStep → ℕ
  | .inside _ step => step.fuel
  | .superClass _ => fuel + 1
  | .method _ _ => fuel + 1
  | .members n _ _ => fuel + 2 + n
  | .named _ _ => 2 * fuel + 3
  | .clazz _ => 2 * fuel + 4
  | .classes n _ => 2 * fuel + 5 + n
  | .importList n _ => fuel + 1 + n
  | .parse => 3 * fuel + 6

end ClassStep

end B0rk
