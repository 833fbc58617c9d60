import B0rk.Expression

set_option autoImplicit false

/-! # Tokens

`token.h`, and the table of operators of parser.cpp. -/

namespace B0rk

/-- `enum TokenType`. -/
inductive TokenType
  | tokDot | tokComma | tokSemicolon | tokColon | tokEquals | tokAssign | tokAsterisk | tokNot
  | tokSlashForward | tokLogicalAnd | tokNotEqual | tokLessThan | tokLessThanEqual
  | tokGreaterThan | tokGreaterThanEqual | tokDecrement | tokIncrement | tokAddAssign
  | tokSubAssign | tokPlus | tokMinus | tokBraceLeft | tokBraceRight | tokBracketLeft
  | tokBracketRight | tokSquareBracketLeft | tokSquareBracketRight | tokDoubleQuote | tokQuote
  | tokImport | tokClass | tokExtends | tokVar | tokFunction | tokStatic | tokNew | tokIf | tokElse
  | tokFor | tokWhile | tokReturn | tokIdentifier | tokLiteral | tokString | tokInteger | tokDouble
  | tokExpression | tokTry | tokThrow | tokCatch | tokAny
  deriving DecidableEq, Repr

/-- `struct Token`. -/
structure Token where
  type : TokenType
  line : ℕ
  string : String
  i : BitVec 32
  d : Word
  deriving DecidableEq, Repr

/-- `struct OpDesc`. -/
structure OpDesc where
  token : TokenType
  oper : OpType
  hasLeftExpr : Bool
  hasRightExpr : Bool
  deriving DecidableEq, Repr

def opTable : List OpDesc :=
  [⟨.tokAssign, .set, true, true⟩,
    ⟨.tokPlus, .add, true, true⟩,
    ⟨.tokMinus, .sub, true, true⟩,
    ⟨.tokNot, .not, false, true⟩,
    ⟨.tokAsterisk, .multiply, true, true⟩,
    ⟨.tokSlashForward, .divide, true, true⟩,
    ⟨.tokLogicalAnd, .logicalAnd, true, true⟩,
    ⟨.tokAddAssign, .set, true, true⟩,
    ⟨.tokSubAssign, .set, true, true⟩,
    ⟨.tokEquals, .equals, true, true⟩,
    ⟨.tokNotEqual, .notEqual, true, true⟩,
    ⟨.tokLessThan, .lessThan, true, true⟩,
    ⟨.tokLessThanEqual, .lessThanEqual, true, true⟩,
    ⟨.tokGreaterThan, .greaterThan, true, true⟩,
    ⟨.tokGreaterThanEqual, .greaterThanEqual, true, true⟩,
    ⟨.tokIncrement, .increment, true, false⟩,
    ⟨.tokDecrement, .decrement, true, false⟩,
    ⟨.tokDot, .reference, true, true⟩]

end B0rk
