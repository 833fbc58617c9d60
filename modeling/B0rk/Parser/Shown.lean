import B0rk.Parser.Items
import B0rk.Parser.Proofs.Steps

set_option autoImplicit false

/-! # What becomes of the tokens of an expression

Of the tokens of an expression the loop reads the operators and the brackets, `parseExpressionValue` the
names, the literals and the functions; lists of parameters have brackets and commas of their own. What
each call has read is compared with what it returns. The statements of a function are no part of the
expression that it stands in. -/

namespace B0rk

open Attempt

variable {World : Type}

section

variable (P : ParserEnv World)

/-! ## Names -/

/-- `a1.a2. .. .an`. -/
inductive DottedName : List Token → List String → Prop
  | one {token : Token} (htype : token.type = .tokIdentifier) : DottedName [token] [token.string]
  | more {tokens : List Token} {names : List String} {dot token : Token} (h : DottedName tokens names)
      (hdot : dot.type = .tokDot) (htype : token.type = .tokIdentifier) :
      DottedName (tokens ++ [dot, token]) (names ++ [token.string])

/-- The tokens from one position up to another. -/
def ParserEnv.between (start finish : ℕ) : List Token := (P.tokens.drop start).take (finish - start)

/-- The tokens are a name, alone or behind that of a class and a dot. -/
inductive Named : List Token → Word → String → Prop
  | plain {token : Token} (htype : token.type = .tokIdentifier) : Named [token] 0 token.string
  | member {tokens : List Token} {names : List String} {dot token : Token} {world : World}
      {clazz : Word} (hnames : DottedName tokens names)
      (hclazz : (P.findClass world (identifierToString (importedIdentifier P names))).1 = clazz)
      (hne : clazz ≠ 0) (hdot : dot.type = .tokDot) (htype : token.type = .tokIdentifier) :
      Named (tokens ++ [dot, token]) clazz token.string

/-- `parseQualifier` up to where it has found a class, or given up: the class and `count`. -/
def findQualifier (fuel : ℕ) (id : String) : Parse World (Word × ℕ) := do
  let token ← nextToken P
  match P.imports.lookup id with
  | some imported => do
      let clazz ← findClass P (identifierToString imported)
      if clazz = 0 then Attempt.fail
      else do
        rewind 2
        pure (clazz, 2)
  | none => probeClass P fuel id token 2

/-- The part of `parseExpressionValue` that reads a name. -/
def readName (fuel : ℕ) : Parse World (Word × String) := do
  let token ← nextToken P
  let next ← nextToken P
  if next.type = .tokDot then parseQualifier P fuel token.string
  else do
    rewind 1
    pure (0, token.string)

/-- The end of `parseExpressionValue` for a name. -/
def parseMember (fuel : ℕ) (clazz : Word) (id : String) :
    Parse World Expression := do
  let next ← nextToken P
  if next.type = .tokBracketLeft then do
    rewind 1
    let params ← parseExpressionList P fuel
    pure (.call .unknown clazz id params)
  else if next.type = .tokSquareBracketLeft then do
    let index ← parseExpression P fuel .tokSquareBracketRight
    let _ ← expect P .tokSquareBracketRight
    pure (.array .unknown clazz id index)
  else do
    rewind 1
    pure (.var .unknown clazz id)

/-- The expressions for a member `id` of a class whose name ends in front of `behind`, and where each
    one leaves the parser. -/
inductive MemberAt (fuel : ℕ) (clazz : Word) (id : String) (behind : ParserState World) :
    Expression → ParserState World → Prop
  | call {next : Token} {params : List Expression} {t : ParserState World}
      (hnext : P.tokens[behind.pos]? = some next) (htype : next.type = .tokBracketLeft)
      (hparams : Ok (parseExpressionList P fuel) behind params t) :
      MemberAt fuel clazz id behind (.call .unknown clazz id params) t
  | array {next close : Token} {index : Expression} {t u : ParserState World}
      (hnext : P.tokens[behind.pos]? = some next) (htype : next.type = .tokSquareBracketLeft)
      (hindex : Ok (parseExpression P fuel .tokSquareBracketRight)
        { behind with pos := behind.pos + 1 } index t)
      (hclose : Ok (expect P .tokSquareBracketRight) t close u) :
      MemberAt fuel clazz id behind (.array .unknown clazz id index) u
  | var {next : Token} (hnext : P.tokens[behind.pos]? = some next)
      (hround : next.type ≠ .tokBracketLeft) (hsquare : next.type ≠ .tokSquareBracketLeft) :
      MemberAt fuel clazz id behind (.var .unknown clazz id) behind

/-! ## Operands -/

/-- What a literal stands for. -/
def literalValue (token : Token) : Option Expression :=
  match token.type with
  | .tokLiteral =>
      if token.string = "true" ∨ token.string = "false" then
        some (.integer .integer (if token.string = "true" then 1 else 0))
      else none
  | .tokString => some (.string .object token.string)
  | .tokInteger => some (.integer .integer (token.i.signExtend 64))
  | .tokDouble => some (.double .double token.d)
  | _ => none

/-- The operand that has been read from `s` on shows all that was read. -/
inductive ShowsValue (fuel : ℕ) (s : ParserState World) : Expression → ParserState World → Prop
  | literal {token : Token} {expr : Expression} (htoken : P.tokens[s.pos]? = some token)
      (hvalue : literalValue token = some expr) :
      ShowsValue fuel s expr { s with pos := s.pos + 1 }
  | new {token : Token} {id : List String} {params : List Expression} {u t : ParserState World}
      (htoken : P.tokens[s.pos]? = some token) (htype : token.type = .tokNew)
      (hid : Ok (parseIdentifier P fuel) { s with pos := s.pos + 1 } id u)
      (hname : DottedName (P.between (s.pos + 1) u.pos) id)
      (hparams : Ok (parseExpressionList P fuel) u params t) :
      ShowsValue fuel s (.new .object (importedIdentifier P id) params) t
  | name {token : Token} {clazz : Word} {id : String} {expr : Expression} {u t : ParserState World}
      (htoken : P.tokens[s.pos]? = some token) (htype : token.type = .tokIdentifier)
      (hread : Ok (readName P fuel) s (clazz, id) u) (hname : Named P (P.between s.pos u.pos) clazz id)
      (hmember : MemberAt P fuel clazz id u expr t) : ShowsValue fuel s expr t
  | function {token : Token} {function : ScriptFunction} {t : ParserState World}
      (htoken : P.tokens[s.pos]? = some token) (htype : token.type = .tokFunction)
      (hfunction : Ok (parseFunction P fuel) { s with pos := s.pos + 1 } function t) :
      ShowsValue fuel s (.function .object (some function)) t

/-! ## Expressions -/

/-- The parsing functions below `parseClass`. -/
def parseSteps : Routine.Family (ParserState World) ParseStep ParseStep.Result where
  run := ParseStep.run P
  body := ParseStep.routine P
  run_eq step := (step.routine_does).symm

/-- What a call returns shows all that it has read itself: operands and operators that make an infix
    expression, each once. -/
def Shows : ParseStep × ParserState World → Prop
  | (.expression (fuel + 1) endToken, s) =>
      ∀ expr t, (parseExpression P (fuel + 1) endToken).Ok s expr t →
        ∃ items queue, (readItems P fuel endToken 0).Ok s items t ∧ Infix items ∧
          order items = some queue ∧ queue.Perm (itemEntries items) ∧ MadeOf P id expr queue
  | (.value (fuel + 1), s) =>
      ∀ expr t, (parseExpressionValue P (fuel + 1)).Ok s expr t → ShowsValue P fuel s expr t
  | _ => True

/-- A tree that `parseExpression` returns shows every operand and operator that has been read, also by
    the calls below; items that make no infix expression make no tree. -/
structure KeepsAll (fuel : ℕ) (endToken : TokenType) (s : ParserState World) : Prop where
  tree : ∀ expr t, (parseExpression P (fuel + 1) endToken).Ok s expr t →
    ∀ a, Relation.ReflTransGen (parseSteps P).Checks (.expression (fuel + 1) endToken, s) a →
      Shows P a
  null : ∀ items t, (readItems P fuel endToken 0).Ok s items t → ¬Infix items →
    parseExpression P (fuel + 1) endToken s = some (none, t)

/-! ## What has to be written for that -/

/-- Behind the name of a class stand a dot and a name, and a function has no error in it. -/
structure SoundValue (fuel : ℕ) (s : ParserState World) : Prop where
  member : ∀ token next, P.tokens[s.pos]? = some token → token.type = .tokIdentifier →
    P.tokens[s.pos + 1]? = some next → next.type = .tokDot →
      ∀ clazz count t, Ok (findQualifier P fuel token.string) { s with pos := s.pos + 2 }
          (clazz, count) t → clazz ≠ 0 →
        ∃ dot name, P.tokens[t.pos]? = some dot ∧ dot.type = .tokDot ∧
          P.tokens[t.pos + 1]? = some name ∧ name.type = .tokIdentifier
  function : ∀ token, P.tokens[s.pos]? = some token → token.type = .tokFunction →
    ¬(parseSteps P).Malformed (.function fuel, { s with pos := s.pos + 1 })

/-- A tail of the output queue that is complete is the whole of it, with operands and operators in turns,
    and `+=` and `-=` have a variable without a class on their left. -/
def InOrder : ParseStep × ParserState World → Prop
  | (.expression (fuel + 1) endToken, s) =>
      ∀ items t queue, (readItems P fuel endToken 0).Ok s items t → order items = some queue →
        ∀ used rest, queue = used ++ rest → Complete QueueEntry.IsVariable used →
          rest = [] ∧ alternates false 0 items = true ∧ AssignsTo QueueEntry.IsPlain used
  | (.value (fuel + 1), s) => SoundValue P fuel s
  | _ => True

/-- There is such a tail. -/
def HasTree (fuel : ℕ) (endToken : TokenType) (s : ParserState World) : Prop :=
  ∃ items t queue used rest, (readItems P fuel endToken 0).Ok s items t ∧ order items = some queue ∧
    queue = used ++ rest ∧ Complete QueueEntry.IsVariable used

end

end B0rk
