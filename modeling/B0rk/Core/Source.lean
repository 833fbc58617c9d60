import B0rk.Core.Syntax
import B0rk.Parser.Proofs.Lexer

set_option autoImplicit false

/-! # Source text of the integer core

Functions of the integer core as they stand in a source file: their tokens, with round brackets around
every operation inside another one, and what they mean, as functions of the core. -/

namespace B0rk

/-- A name that the lexer reads as an identifier. -/
structure Identifier where
  first : Char
  rest : List Char
  alpha : first.isAlpha
  alphanum : ∀ c ∈ rest, c.isAlphanum
  keyword : ∀ token ∈ tokenTable, token.str.toList ≠ first :: rest

namespace Identifier

def name (x : Identifier) : String := String.ofList (x.first :: x.rest)

def token (x : Identifier) : SourceToken :=
  .identifier x.first x.rest x.alpha x.alphanum x.keyword

end Identifier

/-- Expressions. An integer literal may have a sign. -/
inductive SourceExpr
  | integer (i : ℤ) (bound : i.natAbs < 2 ^ 31)
  | literal (b : Bool)
  | var (name : Identifier)
  | oper (op : CoreOp) (left right : SourceExpr)
  | not (right : SourceExpr)
  | increment (decrement : Bool) (name : Identifier)

/-- `x = e`, `x += e` or `x -= e`, and `x++` or `x--` as a statement. -/
inductive SourceSimple
  | set (name : Identifier) (value : SourceExpr)
  | assign (subtract : Bool) (name : Identifier) (value : SourceExpr)
  | increment (decrement : Bool) (name : Identifier)

/-- Statements, each with those behind it. -/
inductive SourceCode
  | done
  | var (name : Identifier) (value : Option SourceExpr) (rest : SourceCode)
  | simple (statement : SourceSimple) (rest : SourceCode)
  | ifThen (test : SourceExpr) (body rest : SourceCode)
  | ifElse (test : SourceExpr) (body body' rest : SourceCode)
  | while (test : SourceExpr) (body rest : SourceCode)
  | for (init : SourceSimple) (test : SourceExpr) (inc : SourceSimple) (body rest : SourceCode)
  | ret (value : Option SourceExpr) (rest : SourceCode)

structure SourceFunction where
  params : List Identifier
  code : SourceCode

/-! ## Tokens -/

namespace SourceToken

/-- An operator, a bracket or a keyword, by its entry of `tokenTable`. -/
def symbol (token : SimpleToken) (mem : token ∈ tokenTable := by decide)
    (quote : token.token ≠ .tokDoubleQuote := by decide) : SourceToken :=
  .simple token mem quote

theorem semicolon_mem : (⟨";", 1, .tokSemicolon⟩ : SimpleToken) ∈ tokenTable := by decide

theorem assign_mem : (⟨"=", 1, .tokAssign⟩ : SimpleToken) ∈ tokenTable := by decide

def comma : SourceToken := symbol ⟨",", 1, .tokComma⟩
def semicolon : SourceToken := symbol ⟨";", 1, .tokSemicolon⟩ semicolon_mem nofun
def assign : SourceToken := symbol ⟨"=", 1, .tokAssign⟩ assign_mem nofun
def not : SourceToken := symbol ⟨"!", 1, .tokNot⟩
def braceLeft : SourceToken := symbol ⟨"\x7b", 1, .tokBraceLeft⟩
def braceRight : SourceToken := symbol ⟨"\x7d", 1, .tokBraceRight⟩
def bracketLeft : SourceToken := symbol ⟨"(", 1, .tokBracketLeft⟩
def bracketRight : SourceToken := symbol ⟨")", 1, .tokBracketRight⟩
def keywordVar : SourceToken := symbol ⟨"var", 3, .tokVar⟩
def keywordIf : SourceToken := symbol ⟨"if", 2, .tokIf⟩
def keywordElse : SourceToken := symbol ⟨"else", 4, .tokElse⟩
def keywordFor : SourceToken := symbol ⟨"for", 3, .tokFor⟩
def keywordWhile : SourceToken := symbol ⟨"while", 5, .tokWhile⟩
def keywordReturn : SourceToken := symbol ⟨"return", 6, .tokReturn⟩

def literal (b : Bool) : SourceToken :=
  if b then symbol ⟨"true", 4, .tokLiteral⟩ else symbol ⟨"false", 5, .tokLiteral⟩

/-- `++` or `--`. -/
def increment (decrement : Bool) : SourceToken :=
  if decrement then symbol ⟨"--", 2, .tokDecrement⟩ else symbol ⟨"++", 2, .tokIncrement⟩

/-- `+=` or `-=`. -/
def addAssign (subtract : Bool) : SourceToken :=
  if subtract then symbol ⟨"-=", 2, .tokSubAssign⟩ else symbol ⟨"+=", 2, .tokAddAssign⟩

end SourceToken

open SourceToken

def CoreOp.token : CoreOp → SourceToken
  | add => symbol ⟨"+", 1, .tokPlus⟩
  | sub => symbol ⟨"-", 1, .tokMinus⟩
  | multiply => symbol ⟨"*", 1, .tokAsterisk⟩
  | logicalAnd => symbol ⟨"&&", 2, .tokLogicalAnd⟩
  | equals => symbol ⟨"==", 2, .tokEquals⟩
  | notEqual => symbol ⟨"!=", 2, .tokNotEqual⟩
  | lessThan => symbol ⟨"<", 1, .tokLessThan⟩
  | lessThanEqual => symbol ⟨"<=", 2, .tokLessThanEqual⟩
  | greaterThan => symbol ⟨">", 1, .tokGreaterThan⟩
  | greaterThanEqual => symbol ⟨">=", 2, .tokGreaterThanEqual⟩

/-- An operation, in brackets or not. -/
def bracketed (brackets : Bool) (toks : List SourceToken) : List SourceToken :=
  if brackets then bracketLeft :: (toks ++ [bracketRight]) else toks

/-- The tokens of an expression; an operation is put in brackets where it is an operand. -/
def SourceExpr.tokens (brackets : Bool) : SourceExpr → List SourceToken
  | integer i bound => [.integer i bound]
  | literal b => [.literal b]
  | var x => [x.token]
  | oper op left right =>
      bracketed brackets (left.tokens true ++ op.token :: right.tokens true)
  | not right => bracketed brackets (SourceToken.not :: right.tokens true)
  | increment decrement x => bracketed brackets ([x.token] ++ [SourceToken.increment decrement])

def SourceSimple.tokens : SourceSimple → List SourceToken
  | set x value => [x.token] ++ SourceToken.assign :: value.tokens true
  | assign subtract x value => x.token :: addAssign subtract :: value.tokens true
  | increment decrement x => [x.token] ++ [SourceToken.increment decrement]

/-- The tokens of the statements of a block, with the brace that closes it. -/
def SourceCode.tokens : SourceCode → List SourceToken
  | done => [braceRight]
  | var x none rest => [keywordVar, x.token, semicolon] ++ rest.tokens
  | var x (some value) rest =>
      keywordVar :: x.token :: SourceToken.assign :: (value.tokens true ++ [semicolon]) ++ rest.tokens
  | simple statement rest => (statement.tokens ++ [semicolon]) ++ rest.tokens
  | ifThen test body rest =>
      keywordIf :: bracketLeft :: (test.tokens false ++ bracketRight :: braceLeft :: body.tokens) ++
        rest.tokens
  | ifElse test body body' rest =>
      keywordIf :: bracketLeft :: (test.tokens false ++ bracketRight :: braceLeft ::
        (body.tokens ++ keywordElse :: braceLeft :: body'.tokens)) ++ rest.tokens
  | .while test body rest =>
      keywordWhile :: bracketLeft ::
        (test.tokens false ++ bracketRight :: braceLeft :: body.tokens) ++ rest.tokens
  | .for init test inc body rest =>
      keywordFor :: bracketLeft :: (init.tokens ++ semicolon :: (test.tokens false ++ semicolon ::
        (inc.tokens ++ bracketRight :: braceLeft :: body.tokens))) ++ rest.tokens
  | ret none rest => [keywordReturn, semicolon] ++ rest.tokens
  | ret (some value) rest =>
      keywordReturn :: (value.tokens false ++ [semicolon]) ++ rest.tokens

/-- The tokens of parameters, with the bracket behind them. -/
def paramTokens : List Identifier → List SourceToken
  | [] => [bracketRight]
  | [x] => [x.token, bracketRight]
  | x :: params => x.token :: comma :: paramTokens params

/-- The tokens of a function, behind its name. -/
def SourceFunction.tokens (f : SourceFunction) : List SourceToken :=
  bracketLeft :: (paramTokens f.params ++ braceLeft :: f.code.tokens)

/-! ## Meaning -/

/-- The variables that a block declares. -/
def SourceCode.vars : SourceCode → List String
  | done => []
  | var x _ rest => x.name :: rest.vars
  | simple _ rest | ifThen _ _ rest | ifElse _ _ _ rest | .while _ _ rest | .for _ _ _ _ rest
  | ret _ rest => rest.vars

section

-- how an operation is made of its operands
variable (make : CoreOp → CoreExpr → CoreExpr → CoreExpr)

def SourceExpr.core : SourceExpr → CoreExpr
  | integer i _ => .integer .integer (BitVec.ofInt 64 i)
  | literal b => .integer .integer (ofBool b)
  | var x => .var .unknown x.name
  | oper op left right => make op left.core right.core
  | not right => .not false right.core
  | increment decrement x => .increment .unknown decrement .unknown x.name

/-- `x += e` is `x = (x + e)`. -/
def SourceSimple.core : SourceSimple → CoreSimple
  | set x value => .set .unknown .unknown x.name (value.core make)
  | assign subtract x value =>
      .set .unknown .unknown x.name
        (.oper false (if subtract then .sub else .add) (.var .unknown x.name) (value.core make))
  | increment decrement x => .increment .unknown decrement .unknown x.name

def SourceCode.core : SourceCode → CoreCode
  | done => .done
  | var _ none rest => rest.core
  | var x (some value) rest =>
      .simple (.set .unknown .unknown x.name (value.core make)) rest.core
  | simple statement rest => .simple (statement.core make) rest.core
  | ifThen test body rest => .ifThen (test.core make) body.vars body.core rest.core
  | ifElse test body body' rest =>
      .ifElse (test.core make) body.vars body.core body'.vars body'.core rest.core
  | .while test body rest => .loop none (test.core make) none body.vars body.core rest.core
  | .for init test inc body rest =>
      .loop (some (init.core make)) (test.core make) (some (inc.core make)) body.vars body.core
        rest.core
  | ret value rest => .ret (value.map (SourceExpr.core make)) rest.core

def SourceFunction.core (f : SourceFunction) : CoreFunction where
  params := f.params.map Identifier.name
  vars := f.code.vars
  code := f.code.core make

end

/-- What the function means. -/
def SourceFunction.meaning (f : SourceFunction) : CoreFunction := f.core (.oper false)

/-- The operation as the parser makes it: a sum or a product of two literals is a literal. -/
def CoreOp.folded (op : CoreOp) (left right : CoreExpr) : CoreExpr :=
  match op, left, right with
  | .add, .integer _ l, .integer _ r => .integer .unknown (l + r)
  | .multiply, .integer _ l, .integer _ r => .integer .unknown (l * r)
  | op, left, right => .oper false op left right

/-- What the parser makes of the function. -/
def SourceFunction.parsed (f : SourceFunction) : CoreFunction := f.core CoreOp.folded

/-! ## Types -/

/-- The expression without the types of its values and operations. -/
def CoreExpr.untyped : CoreExpr → CoreExpr
  | integer _ i => .integer .unknown i
  | var _ name => .var .unknown name
  | oper _ op left right => .oper false op left.untyped right.untyped
  | not _ right => .not false right.untyped
  | increment _ decrement _ name => .increment .unknown decrement .unknown name

def CoreSimple.untyped : CoreSimple → CoreSimple
  | set _ _ name value => .set .unknown .unknown name value.untyped
  | increment _ decrement _ name => .increment .unknown decrement .unknown name

def CoreCode.untyped : CoreCode → CoreCode
  | done => .done
  | simple statement rest => .simple statement.untyped rest.untyped
  | ifThen test vars body rest => .ifThen test.untyped vars body.untyped rest.untyped
  | ifElse test vars body vars' body' rest =>
      .ifElse test.untyped vars body.untyped vars' body'.untyped rest.untyped
  | loop init test inc vars body rest =>
      .loop (init.map CoreSimple.untyped) test.untyped (inc.map CoreSimple.untyped) vars body.untyped
        rest.untyped
  | ret value rest => .ret (value.map CoreExpr.untyped) rest.untyped

def CoreFunction.untyped (f : CoreFunction) : CoreFunction := { f with code := f.code.untyped }

end B0rk
