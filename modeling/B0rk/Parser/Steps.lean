import B0rk.Lib.Routine
import B0rk.Parser.Parser

set_option autoImplicit false

/-! # Which parsing function calls which

Each parsing function below `parseClass` as a routine, in which its calls can be seen. Rounds of loops
count as calls. -/

namespace B0rk

variable {World : Type}

/-- A call of a parsing function, or a round of one of its loops. -/
inductive ParseStep
  | identifier (fuel : ℕ)
  | list (fuel : ℕ)
  | loop (fuel : ℕ) (endToken : TokenType) (queue : List QueueEntry)
      (operators : List (Option OpDesc)) (brackets : ℕ)
  | expression (fuel : ℕ) (endToken : TokenType)
  | value (fuel : ℕ)
  | listRest (fuel : ℕ) (list : List Expression)
  | expressionList (fuel : ℕ)
  | function (fuel : ℕ)
  | block (fuel : ℕ) (code : CodeBlock)
  | statement (fuel : ℕ) (code : CodeBlock)

namespace ParseStep

/-- What a call returns. -/
abbrev Result : ParseStep → Type
  | identifier _ | list _ => List String
  | loop .. => List QueueEntry × List (Option OpDesc)
  | expression .. | value _ => Expression
  | listRest .. | expressionList _ => List Expression
  | function _ => ScriptFunction
  | block .. => CodeBlock
  | statement .. => CodeBlock × Bool

def run (P : ParserEnv World) : (step : ParseStep) → Parse World step.Result
  | identifier fuel => parseIdentifier P fuel
  | list fuel => parseList P fuel .tokIdentifier
  | loop fuel endToken queue operators brackets =>
      parseExpressionLoop P fuel endToken queue operators brackets
  | expression fuel endToken => parseExpression P fuel endToken
  | value fuel => parseExpressionValue P fuel
  | listRest fuel exprs => parseExpressionListRest P fuel exprs
  | expressionList fuel => parseExpressionList P fuel
  | function fuel => parseFunction P fuel
  | block fuel code => parseCodeBlock P fuel code
  | statement fuel code => parseStatement P fuel code

/-- The fuel that is left for a call, a bound for the calls below it. -/
def fuel : ParseStep → ℕ
  | identifier fuel | list fuel | loop fuel .. | expression fuel _ | value fuel | listRest fuel _
  | expressionList fuel | function fuel | block fuel _ | statement fuel _ => fuel

end ParseStep

abbrev ParseRoutine (World α : Type) := Routine (ParserState World) ParseStep ParseStep.Result α

namespace ParseRoutine

def call (step : ParseStep) : ParseRoutine World step.Result := Routine.calling step

/-- A call whose failure is dropped. -/
def attempt (step : ParseStep) : ParseRoutine World (Option step.Result) := Routine.attempting step

/-- A part that calls nothing. -/
def read {α : Type} (x : Parse World α) : ParseRoutine World α := liftM x

end ParseRoutine

section

open ParseRoutine

variable (P : ParserEnv World) (fuel : ℕ)

def loopRoutine (endToken : TokenType) (queue : List QueueEntry) (operators : List (Option OpDesc))
    (brackets : ℕ) : ParseRoutine World (List QueueEntry × List (Option OpDesc)) := do
  let token ← nextToken P
  if token.type = .tokBracketRight ∧ brackets = 0 ∨
      token.type = .tokSemicolon ∨ token.type = .tokComma ∨
      token.type ≠ .tokBracketLeft ∧ token.type ≠ .tokBracketRight ∧
        token.type ≠ .tokAny ∧ token.type = endToken then do
    read (rewind 1)
    pure (queue, operators)
  else
    match opTable.find? (fun desc => desc.token == token.type) with
    | some op =>
        let (operators, queue) := pushOperatorStack op operators queue
        call (.loop fuel endToken queue operators brackets)
    | none =>
        if token.type = .tokBracketLeft then
          call (.loop fuel endToken queue (none :: operators) (brackets + 1))
        else if token.type = .tokBracketRight then
          match popToBracket operators queue with
          | none => .fail
          | some (operators, queue) =>
              call (.loop fuel endToken queue operators (brackets - 1))
        else do
          read (rewind 1)
          let expr : Expression ← call (.value fuel)
          call (.loop fuel endToken (.value expr :: queue) operators brackets)

def expressionRoutine (endToken : TokenType) : ParseRoutine World Expression := do
  let (queue, operators) ← call (.loop fuel endToken [] [] 0)
  let queue := operators.foldl (fun queue op => QueueEntry.ofOperator op :: queue) queue
  match buildTree P queue.length queue with
  | none => .fail
  | some (expr, _) => pure expr

def valueRoutine : ParseRoutine World Expression := do
  let token ← nextToken P
  match token.type with
  | .tokNew => do
      let id : List String ← call (.identifier fuel)
      let params : List Expression ← call (.expressionList fuel)
      pure (.new .object (importedIdentifier P id) params)
  | .tokIdentifier => do
      let next ← nextToken P
      let (clazz, id) ←
        (if next.type = .tokDot then parseQualifier P fuel token.string
        else do
          rewind 1
          pure (0, token.string) : Parse World (Word × String))
      let next ← nextToken P
      if next.type = .tokBracketLeft then do
        read (rewind 1)
        let params : List Expression ← call (.expressionList fuel)
        pure (.call .unknown clazz id params)
      else if next.type = .tokSquareBracketLeft then do
        let index : Expression ← call (.expression fuel .tokSquareBracketRight)
        let _ ← expect P .tokSquareBracketRight
        pure (.array .unknown clazz id index)
      else do
        read (rewind 1)
        pure (.var .unknown clazz id)
  | .tokFunction => do
      let function : Option ScriptFunction ← attempt (.function fuel)
      pure (.function .object function)
  | .tokLiteral =>
      if token.string = "true" ∨ token.string = "false" then
        pure (.integer .integer (if token.string = "true" then 1 else 0))
      else .fail
  | .tokString => pure (.string .object token.string)
  | .tokInteger => pure (.integer .integer (token.i.signExtend 64))
  | .tokDouble => pure (.double .double token.d)
  | _ => .fail

def listRestRoutine (list : List Expression) : ParseRoutine World (List Expression) := do
  let more ← moreTokens P
  if !more then pure list
  else do
    let token ← nextToken P
    if token.type = .tokBracketRight then pure list
    else do
      read (rewind 1)
      let expr : Expression ← call (.expression fuel .tokAny)
      let token ← nextToken P
      if token.type = .tokBracketRight then pure (list ++ [expr])
      else if token.type = .tokComma then call (.listRest fuel (list ++ [expr]))
      else .fail

def functionRoutine : ParseRoutine World ScriptFunction := do
  let args : List String ← call (.list fuel)
  let address ← newScriptFunction P
  let token ← nextToken P
  let isStatic := decide (token.type = .tokStatic)
  let token ← (if isStatic then nextToken P else pure token : Parse World Token)
  if token.type ≠ .tokBraceLeft then .fail
  else do
    let code : CodeBlock ← call (.block fuel .empty)
    pure (.mk address args isStatic (code.setStartingVarId (args.length + 1)))

def blockRoutine (code : CodeBlock) : ParseRoutine World CodeBlock := do
  let more ← moreTokens P
  if !more then pure code
  else do
    let (code, finished) ← call (.statement fuel code)
    if finished then pure code else call (.block fuel code)

def statementRoutine (code : CodeBlock) : ParseRoutine World (CodeBlock × Bool) := do
  let token ← nextToken P
  match token.type with
  | .tokBraceRight => pure (code, true)
  | .tokVar => do
      let token ← expect P .tokIdentifier
      let code := code.addVar token.string
      let next ← nextToken P
      if next.type = .tokAssign then do
        read (rewind 2)
        let expr : Expression ← call (.expression fuel .tokAny)
        let _ ← expect P .tokSemicolon
        pure (code.addCode expr, false)
      else if next.type = .tokSemicolon then pure (code, false)
      else .fail
  | .tokIf => do
      let _ ← expect P .tokBracketLeft
      let test : Expression ← call (.expression fuel .tokAny)
      let _ ← expect P .tokBracketRight
      let _ ← expect P .tokBraceLeft
      let trueBlock : CodeBlock ← call (.block fuel .empty)
      let next ← nextToken P
      if next.type = .tokElse then do
        let next ← nextToken P
        let falseBlock : CodeBlock ←
          (if next.type = .tokIf then do
            read (rewind 1)
            let (elseIf, _) ← call (.statement fuel .empty)
            pure elseIf
          else if next.type = .tokBraceLeft then call (.block fuel .empty)
          else .fail : ParseRoutine World CodeBlock)
        pure (code.addCode (.ifExpr test trueBlock.link (some falseBlock.link)), false)
      else do
        read (rewind 1)
        pure (code.addCode (.ifExpr test trueBlock.link none), false)
  | .tokFor => do
      let _ ← expect P .tokBracketLeft
      let init : Expression ← call (.expression fuel .tokAny)
      let _ ← expect P .tokSemicolon
      let test : Expression ← call (.expression fuel .tokAny)
      let _ ← expect P .tokSemicolon
      let inc : Expression ← call (.expression fuel .tokAny)
      let _ ← expect P .tokBracketRight
      let _ ← expect P .tokBraceLeft
      let body : CodeBlock ← call (.block fuel .empty)
      pure (code.addCode (.forExpr (some init) test (some inc) body.link), false)
  | .tokWhile => do
      let _ ← expect P .tokBracketLeft
      let test : Expression ← call (.expression fuel .tokAny)
      let _ ← expect P .tokBracketRight
      let _ ← expect P .tokBraceLeft
      let body : CodeBlock ← call (.block fuel .empty)
      pure (code.addCode (.forExpr none test none body.link), false)
  | .tokReturn => do
      let next ← nextToken P
      if next.type = .tokSemicolon then pure (code.addCode (.returnExpr none), false)
      else do
        read (rewind 1)
        let value : Option Expression ← attempt (.expression fuel .tokAny)
        let _ ← expect P .tokSemicolon
        pure (code.addCode (.returnExpr value), false)
  | .tokTry => do
      let _ ← expect P .tokBraceLeft
      let tryBlock : CodeBlock ← call (.block fuel .empty)
      let _ ← expect P .tokCatch
      let _ ← expect P .tokBracketLeft
      let var ← expect P .tokIdentifier
      let _ ← expect P .tokBracketRight
      let _ ← expect P .tokBraceLeft
      let catchBlock : CodeBlock ← call (.block fuel .empty)
      pure (code.addCode (.tryExpr tryBlock var.string (catchBlock.addVar var.string)), false)
  | .tokThrow => do
      let value : Expression ← call (.expression fuel .tokAny)
      let _ ← expect P .tokSemicolon
      pure (code.addCode (.throwExpr value), false)
  | _ => do
      read (rewind 1)
      let expr : Expression ← call (.expression fuel .tokAny)
      let _ ← expect P .tokSemicolon
      pure (code.addCode expr, false)

/-- What a parsing function does in turn. -/
def ParseStep.routine : (step : ParseStep) → ParseRoutine World step.Result
  | .identifier fuel => liftM (parseIdentifier P fuel)
  | .list fuel => liftM (parseList P fuel .tokIdentifier)
  | .loop (fuel + 1) endToken queue operators brackets =>
      loopRoutine P fuel endToken queue operators brackets
  | .expression (fuel + 1) endToken => expressionRoutine P fuel endToken
  | .value (fuel + 1) => valueRoutine P fuel
  | .listRest (fuel + 1) exprs => listRestRoutine P fuel exprs
  | .expressionList (fuel + 1) => do
      let _ ← expect P .tokBracketLeft
      call (.listRest fuel [])
  | .function (fuel + 1) => functionRoutine P fuel
  | .block (fuel + 1) code => blockRoutine P fuel code
  | .statement (fuel + 1) code => statementRoutine P fuel code
  | _ => .undefined

end

/-- The calls that a call makes, each with the state that it is made in. -/
def ParseStep.calls (P : ParserEnv World) (step : ParseStep) (s : ParserState World) :
    List (ParseStep × ParserState World) :=
  ((step.routine P).calls (ParseStep.run P) s).map (·.2)

end B0rk
