import B0rk.Lib.Attempt
import B0rk.CodeBlock
import B0rk.Parser.Token

set_option autoImplicit false

/-! # The parser of function bodies

`parser.cpp` from `parseFunction` down. The functions call one another in all directions and loop over
the tokens, so that each takes fuel; without enough of it, or when `nextToken` is called behind the
last token, there is no result. Types of values are left as the parser sets them, that is before
`resolveTypes`. -/

namespace B0rk

/-- What the parser has besides its position: `World` is the runtime, which loads classes when they
    are looked for. -/
structure ParserEnv (World : Type) where
  tokens : List Token
  imports : List (String × List String)
  /-- `Runtime::findClass(context, name, true)`, with the null pointer `0` -/
  findClass : World → String → Word × World
  /-- the address of `new ScriptFunction` -/
  newFunction : World → Word × World
  /-- `+` and `*` of `double`s -/
  addDouble : Word → Word → Word
  mulDouble : Word → Word → Word

/-- `m_pos` and the runtime. -/
structure ParserState (World : Type) where
  pos : ℕ
  world : World

/-- A parser of given tokens, without classes. -/
def plainParser (tokens : List Token) : ParserEnv Unit where
  tokens := tokens
  imports := []
  findClass := fun _ _ => (0, ())
  newFunction := fun _ => (1, ())
  addDouble := fun x _ => x
  mulDouble := fun x _ => x

variable {World : Type}

/-- A parsing function; `NULL` and `false` are failures. -/
abbrev Parse (World : Type) := Attempt (ParserState World)

/-- `Identifier::toString`. -/
def identifierToString (id : List String) : String := String.intercalate "." id

/-- A name of one part that is imported stands for what it is imported from. -/
def importedIdentifier (P : ParserEnv World) : List String → List String
  | [name] => (P.imports.lookup name).getD [name]
  | id => id

/-! ## Building a tree -/

/-- An entry of the output queue: an operand, an operator without its operands, or the `NULL` that
    stands for a bracket. -/
inductive QueueEntry
  | value (expr : Expression)
  | operator (desc : OpDesc)
  | bracket

/-- Folding of two literals by `buildTree`. -/
def foldLiterals (P : ParserEnv World) (op : OpType) (left right : Expression) :
    Option Expression :=
  match op, left, right with
  | .add, .double _ l, .double _ r => some (.double .unknown (P.addDouble l r))
  | .multiply, .double _ l, .double _ r => some (.double .unknown (P.mulDouble l r))
  | .add, .integer _ l, .integer _ r => some (.integer .unknown (l + r))
  | .multiply, .integer _ l, .integer _ r => some (.integer .unknown (l * r))
  | _, _, _ => none

/-- The end of `buildTree` for an operator: folding, and `l += r` as `l = (l + r)`. -/
def buildOperation (P : ParserEnv World) (desc : OpDesc) (left right : Option Expression) :
    Option Expression :=
  match left, right with
  | some left, some right =>
      match foldLiterals P desc.oper left right with
      | some expr => some expr
      | none =>
          if desc.token = .tokAddAssign ∨ desc.token = .tokSubAssign then
            match left with
            | .var _ _ var =>
                let op : OpType := if desc.token = .tokAddAssign then .add else .sub
                let copy : Expression := .var .unknown 0 var
                let type := if copy.valueType = right.valueType then copy.valueType else .unknown
                let sum : Expression := .oper type op (some copy) (some right)
                some (.oper .unknown desc.oper (some left) (some sum))
            | _ => none
          else some (.oper .unknown desc.oper (some left) (some right))
  | left, right => some (.oper .unknown desc.oper left right)

/-- `buildTree`, with the back of the queue first, and what is left of the queue. The number bounds
    the calls: each takes an entry off the queue. -/
def buildTree (P : ParserEnv World) :
    ℕ → List QueueEntry → Option (Expression × List QueueEntry)
  | 0, _ => none
  | _ + 1, [] => none
  | _ + 1, .bracket :: _ => none
  | _ + 1, .value expr :: queue => some (expr, queue)
  | n + 1, .operator desc :: queue => do
      let (right, queue) ←
        (if desc.hasRightExpr then
          (buildTree P n queue).map (fun (right, queue) => (some right, queue))
        else some (none, queue))
      let (left, queue) ←
        (if desc.hasLeftExpr then
          (buildTree P n queue).map (fun (left, queue) => (some left, queue))
        else some (none, queue))
      let expr ← buildOperation P desc left right
      some (expr, queue)

/-! ## Reading tokens -/

/-- `nextToken`; reading behind the last token is undefined. -/
def nextToken (P : ParserEnv World) : Parse World Token := fun s =>
  match P.tokens[s.pos]? with
  | none => none
  | some token => some (some token, { s with pos := s.pos + 1 })

def moreTokens (P : ParserEnv World) : Parse World Bool :=
  Attempt.read (fun s => decide (s.pos < P.tokens.length))

/-- `m_pos -= count`. -/
def rewind (count : ℕ) : Parse World Unit :=
  Attempt.modify (fun s => { s with pos := s.pos - count })

/-- The macro `EXPECT`. -/
def expect (P : ParserEnv World) (type : TokenType) : Parse World Token := do
  let token ← nextToken P
  if token.type = type then pure token else Attempt.fail

def findClass (P : ParserEnv World) (name : String) : Parse World Word := fun s =>
  let (clazz, world) := P.findClass s.world name
  some (some clazz, { s with world := world })

/-- `new ScriptFunction`. -/
def newScriptFunction (P : ParserEnv World) : Parse World Word := fun s =>
  let (address, world) := P.newFunction s.world
  some (some address, { s with world := world })

/-- The loop of `parseIdentifier` behind the first name. -/
def parseIdentifierRest (P : ParserEnv World) : ℕ → List String → Parse World (List String)
  | 0, _ => Attempt.undefined
  | fuel + 1, id => do
      let more ← moreTokens P
      if !more then pure id
      else do
        let token ← nextToken P
        if token.type ≠ .tokDot then do
          rewind 1
          pure id
        else do
          let token ← expect P .tokIdentifier
          parseIdentifierRest P fuel (id ++ [token.string])

def parseIdentifier (P : ParserEnv World) (fuel : ℕ) : Parse World (List String) := do
  let token ← expect P .tokIdentifier
  parseIdentifierRest P fuel [token.string]

/-- The loop of `parseList`. -/
def parseListRest (P : ParserEnv World) (type : TokenType) :
    ℕ → List String → Parse World (List String)
  | 0, _ => Attempt.undefined
  | fuel + 1, list => do
      let more ← moreTokens P
      if !more then pure list
      else do
        let token ← nextToken P
        if token.type = .tokBracketRight then pure list
        else if token.type = type then do
          let separator ← nextToken P
          if separator.type = .tokBracketRight then pure (list ++ [token.string])
          else if separator.type = .tokComma then
            parseListRest P type fuel (list ++ [token.string])
          else Attempt.fail
        else Attempt.fail

/-- `parseList`, with the texts of the tokens. -/
def parseList (P : ParserEnv World) (fuel : ℕ) (type : TokenType) : Parse World (List String) := do
  let _ ← expect P .tokBracketLeft
  parseListRest P type fuel []

/-! ## Expressions, statements and functions -/

/-- The loop of `parseExpressionValue` that looks for a class whose name the tokens spell: the class
    and `count`. -/
def probeClass (P : ParserEnv World) :
    ℕ → String → Token → ℕ → Parse World (Word × ℕ)
  | 0, _, _, _ => Attempt.undefined
  | fuel + 1, clazzname, token, count =>
      if token.type ≠ .tokIdentifier then pure (0, count)
      else do
        let clazzname := clazzname ++ "." ++ token.string
        let clazz ← findClass P clazzname
        if clazz ≠ 0 then pure (clazz, count)
        else do
          let token ← nextToken P
          if token.type ≠ .tokDot then pure (0, count + 1)
          else do
            let token ← nextToken P
            probeClass P fuel clazzname token (count + 2)

/-- The part of `parseExpressionValue` behind a name and a dot: the class, and the name to go on
    with. -/
def parseQualifier (P : ParserEnv World) (fuel : ℕ) (id : String) :
    Parse World (Word × String) := do
  let token ← nextToken P
  let (clazz, count) ←
    (match P.imports.lookup id with
    | some imported => do
        let clazz ← findClass P (identifierToString imported)
        if clazz = 0 then Attempt.fail
        else do
          rewind 2
          pure (clazz, 2)
    | none => probeClass P fuel id token 2)
  if clazz ≠ 0 then do
    let _ ← nextToken P
    let token ← nextToken P
    pure (clazz, token.string)
  else do
    rewind count
    pure (0, id)

/-- "Found left bracket": the operators down to it go to the output queue. -/
def popToBracket : List (Option OpDesc) → List QueueEntry →
    Option (List (Option OpDesc) × List QueueEntry)
  | [], _ => none
  | none :: operators, queue => some (operators, queue)
  | some op :: operators, queue => popToBracket operators (.operator op :: queue)

/-- An operator or a bracket as an entry of the output queue. -/
def QueueEntry.ofOperator : Option OpDesc → QueueEntry
  | none => .bracket
  | some op => .operator op

/-- Where an operator goes on the stack: the operator above it goes to the output queue, if it binds
    no weaker. -/
def pushOperatorStack (op : OpDesc) (operators : List (Option OpDesc)) (queue : List QueueEntry) :
    List (Option OpDesc) × List QueueEntry :=
  match operators with
  | some top :: below =>
      if op.oper.toNat ≤ top.oper.toNat then (some op :: below, .operator top :: queue)
      else (some op :: operators, queue)
  | _ => (some op :: operators, queue)

mutual

/-- The loop of `parseExpression`. The output queue and the operator stack have their backs first. -/
def parseExpressionLoop (P : ParserEnv World) :
    ℕ → TokenType → List QueueEntry → List (Option OpDesc) → ℕ →
      Parse World (List QueueEntry × List (Option OpDesc))
  | 0, _, _, _, _ => Attempt.undefined
  | fuel + 1, endToken, queue, operators, brackets => do
      let token ← nextToken P
      if token.type = .tokBracketRight ∧ brackets = 0 ∨
          token.type = .tokSemicolon ∨ token.type = .tokComma ∨
          token.type ≠ .tokBracketLeft ∧ token.type ≠ .tokBracketRight ∧
            token.type ≠ .tokAny ∧ token.type = endToken then do
        rewind 1
        pure (queue, operators)
      else
        match opTable.find? (fun desc => desc.token == token.type) with
        | some op =>
            let (operators, queue) := pushOperatorStack op operators queue
            parseExpressionLoop P fuel endToken queue operators brackets
        | none =>
            if token.type = .tokBracketLeft then
              parseExpressionLoop P fuel endToken queue (none :: operators) (brackets + 1)
            else if token.type = .tokBracketRight then
              match popToBracket operators queue with
              | none => Attempt.fail
              | some (operators, queue) =>
                  parseExpressionLoop P fuel endToken queue operators (brackets - 1)
            else do
              rewind 1
              let expr ← parseExpressionValue P fuel
              parseExpressionLoop P fuel endToken (.value expr :: queue) operators brackets

/-- `parseExpression`. -/
def parseExpression (P : ParserEnv World) : ℕ → TokenType → Parse World Expression
  | 0, _ => Attempt.undefined
  | fuel + 1, endToken => do
      let (queue, operators) ← parseExpressionLoop P fuel endToken [] [] 0
      let queue := operators.foldl (fun queue op => QueueEntry.ofOperator op :: queue) queue
      match buildTree P queue.length queue with
      | none => Attempt.fail
      | some (expr, _) => pure expr

/-- `parseExpressionValue`. -/
def parseExpressionValue (P : ParserEnv World) : ℕ → Parse World Expression
  | 0 => Attempt.undefined
  | fuel + 1 => do
      let token ← nextToken P
      match token.type with
      | .tokNew => do
          let id ← parseIdentifier P fuel
          let params ← parseExpressionList P fuel
          pure (.new .object (importedIdentifier P id) params)
      | .tokIdentifier => do
          let next ← nextToken P
          let (clazz, id) ←
            (if next.type = .tokDot then parseQualifier P fuel token.string
            else do
              rewind 1
              pure (0, token.string))
          let next ← nextToken P
          if next.type = .tokBracketLeft then do
            rewind 1
            let params ← parseExpressionList P fuel
            pure (.call .unknown clazz id params)
          else if next.type = .tokSquareBracketLeft then do
            let index ← parseExpression P fuel .tokSquareBracketRight
            let _ ← expect P .tokSquareBracketRight
            pure (.array .unknown clazz id index)
          else do
            rewind 1
            pure (.var .unknown clazz id)
      | .tokFunction => do
          let function ← Attempt.orNull (parseFunction P fuel)
          pure (.function .object function)
      | .tokLiteral =>
          if token.string = "true" ∨ token.string = "false" then
            pure (.integer .integer (if token.string = "true" then 1 else 0))
          else Attempt.fail
      | .tokString => pure (.string .object token.string)
      | .tokInteger => pure (.integer .integer (token.i.signExtend 64))
      | .tokDouble => pure (.double .double token.d)
      | _ => Attempt.fail

/-- The loop of `parseExpressionList`. -/
def parseExpressionListRest (P : ParserEnv World) :
    ℕ → List Expression → Parse World (List Expression)
  | 0, _ => Attempt.undefined
  | fuel + 1, list => do
      let more ← moreTokens P
      if !more then pure list
      else do
        let token ← nextToken P
        if token.type = .tokBracketRight then pure list
        else do
          rewind 1
          let expr ← parseExpression P fuel .tokAny
          let token ← nextToken P
          if token.type = .tokBracketRight then pure (list ++ [expr])
          else if token.type = .tokComma then parseExpressionListRest P fuel (list ++ [expr])
          else Attempt.fail

/-- `parseExpressionList`. -/
def parseExpressionList (P : ParserEnv World) : ℕ → Parse World (List Expression)
  | 0 => Attempt.undefined
  | fuel + 1 => do
      let _ ← expect P .tokBracketLeft
      parseExpressionListRest P fuel []

/-- `parseFunction`. -/
def parseFunction (P : ParserEnv World) : ℕ → Parse World ScriptFunction
  | 0 => Attempt.undefined
  | fuel + 1 => do
      let args ← parseList P fuel .tokIdentifier
      let address ← newScriptFunction P
      let token ← nextToken P
      let isStatic := decide (token.type = .tokStatic)
      let token ← (if isStatic then nextToken P else pure token)
      if token.type ≠ .tokBraceLeft then Attempt.fail
      else do
        let code ← parseCodeBlock P fuel .empty
        pure (.mk address args isStatic (code.setStartingVarId (args.length + 1)))

/-- The loop of `parseCodeBlock`, which is called with an empty block. -/
def parseCodeBlock (P : ParserEnv World) : ℕ → CodeBlock → Parse World CodeBlock
  | 0, _ => Attempt.undefined
  | fuel + 1, code => do
      let more ← moreTokens P
      if !more then pure code
      else do
        let (code, finished) ← parseStatement P fuel code
        if finished then pure code else parseCodeBlock P fuel code

/-- `parseStatement`: the block with what the statement has added to it, and `end`. -/
def parseStatement (P : ParserEnv World) : ℕ → CodeBlock → Parse World (CodeBlock × Bool)
  | 0, _ => Attempt.undefined
  | fuel + 1, code => do
      let token ← nextToken P
      match token.type with
      | .tokBraceRight => pure (code, true)
      | .tokVar => do
          let token ← expect P .tokIdentifier
          let code := code.addVar token.string
          let next ← nextToken P
          if next.type = .tokAssign then do
            -- back to the name: the rest is an assignment
            rewind 2
            let expr ← parseExpression P fuel .tokAny
            let _ ← expect P .tokSemicolon
            pure (code.addCode expr, false)
          else if next.type = .tokSemicolon then pure (code, false)
          else Attempt.fail
      | .tokIf => do
          let _ ← expect P .tokBracketLeft
          let test ← parseExpression P fuel .tokAny
          let _ ← expect P .tokBracketRight
          let _ ← expect P .tokBraceLeft
          let trueBlock ← parseCodeBlock P fuel .empty
          let next ← nextToken P
          if next.type = .tokElse then do
            let next ← nextToken P
            let falseBlock ←
              (if next.type = .tokIf then do
                -- else if: a block of the one statement
                rewind 1
                let (elseIf, _) ← parseStatement P fuel .empty
                pure elseIf
              else if next.type = .tokBraceLeft then parseCodeBlock P fuel .empty
              else Attempt.fail)
            pure (code.addCode (.ifExpr test trueBlock.link (some falseBlock.link)), false)
          else do
            rewind 1
            pure (code.addCode (.ifExpr test trueBlock.link none), false)
      | .tokFor => do
          let _ ← expect P .tokBracketLeft
          let init ← parseExpression P fuel .tokAny
          let _ ← expect P .tokSemicolon
          let test ← parseExpression P fuel .tokAny
          let _ ← expect P .tokSemicolon
          let inc ← parseExpression P fuel .tokAny
          let _ ← expect P .tokBracketRight
          let _ ← expect P .tokBraceLeft
          let body ← parseCodeBlock P fuel .empty
          pure (code.addCode (.forExpr (some init) test (some inc) body.link), false)
      | .tokWhile => do
          let _ ← expect P .tokBracketLeft
          let test ← parseExpression P fuel .tokAny
          let _ ← expect P .tokBracketRight
          let _ ← expect P .tokBraceLeft
          let body ← parseCodeBlock P fuel .empty
          pure (code.addCode (.forExpr none test none body.link), false)
      | .tokReturn => do
          let next ← nextToken P
          if next.type = .tokSemicolon then pure (code.addCode (.returnExpr none), false)
          else do
            rewind 1
            -- the result is not checked
            let value ← Attempt.orNull (parseExpression P fuel .tokAny)
            let _ ← expect P .tokSemicolon
            pure (code.addCode (.returnExpr value), false)
      | .tokTry => do
          let _ ← expect P .tokBraceLeft
          let tryBlock ← parseCodeBlock P fuel .empty
          let _ ← expect P .tokCatch
          let _ ← expect P .tokBracketLeft
          let var ← expect P .tokIdentifier
          let _ ← expect P .tokBracketRight
          let _ ← expect P .tokBraceLeft
          let catchBlock ← parseCodeBlock P fuel .empty
          -- neither block is pushed to `m_childBlocks`
          pure (code.addCode (.tryExpr tryBlock var.string (catchBlock.addVar var.string)), false)
      | .tokThrow => do
          let value ← parseExpression P fuel .tokAny
          let _ ← expect P .tokSemicolon
          pure (code.addCode (.throwExpr value), false)
      | _ => do
          rewind 1
          let expr ← parseExpression P fuel .tokAny
          let _ ← expect P .tokSemicolon
          pure (code.addCode expr, false)

end

end B0rk
