import B0rk.Parser.Items
import B0rk.Lib.Shunting

set_option autoImplicit false

/-! # Expressions as tokens

Operands of one token, sequences of them with binary operators in between, and formulas with brackets
around every operation. -/

namespace B0rk

open Shunting

/-- A variable or a literal. -/
def Token.IsOperand (token : Token) : Prop :=
  token.type = .tokIdentifier ∨ token.type = .tokInteger ∨ token.type = .tokDouble ∨
    token.type = .tokString ∨
      token.type = .tokLiteral ∧ (token.string = "true" ∨ token.string = "false")

instance (token : Token) : Decidable token.IsOperand := inferInstanceAs (Decidable (_ ∨ _))

/-- What a variable or a literal stands for. -/
def Token.operand (token : Token) : Expression :=
  match token.type with
  | .tokIdentifier => .var .unknown 0 token.string
  | .tokInteger => .integer .integer (token.i.signExtend 64)
  | .tokDouble => .double .double token.d
  | .tokLiteral => .integer .integer (if token.string = "true" then 1 else 0)
  | _ => .string .object token.string

structure OperandToken where
  token : Token
  isOperand : token.IsOperand

/-- The binary operators of `opTable`, those that assign apart. -/
structure BinaryOperator where
  desc : OpDesc
  known : desc ∈ opTable
  binary : desc.hasLeftExpr = true ∧ desc.hasRightExpr = true
  noAssignment : desc.oper ≠ .set

/-- A token of a binary operator. -/
structure OperatorToken where
  token : Token
  operator : BinaryOperator
  type : token.type = operator.desc.token

/-- The precedence of an operator, `operType`. -/
def OpDesc.precedence (desc : OpDesc) : ℕ := desc.oper.toNat

/-! ## Sequences without brackets -/

/-- `v₀ o₁ v₁ … oₙ vₙ`. -/
structure Sequence where
  first : OperandToken
  rest : List (OperatorToken × OperandToken)

namespace Sequence

def tokens (seq : Sequence) : List Token :=
  seq.first.token :: seq.rest.flatMap fun (op, operand) => [op.token, operand.token]

/-- The operators and operands behind the first operand. -/
def pairs (seq : Sequence) : List (OpDesc × Expression) :=
  seq.rest.map fun (op, operand) => (op.operator.desc, operand.token.operand)

def operators (seq : Sequence) : List OpDesc := seq.pairs.map Prod.fst

/-- The tree that the shunting-yard algorithm prescribes. -/
def prescribed (seq : Sequence) : Tree Expression OpDesc :=
  shuntingYard OpDesc.precedence seq.first.token.operand seq.pairs

/-- What is read of it. -/
def items (seq : Sequence) : List ExpressionItem :=
  .operand seq.first.token.operand ::
    seq.pairs.flatMap fun (op, operand) => [.operator op, .operand operand]

/-- The operands and operators in their order. -/
def written (seq : Sequence) : List (Expression ⊕ OpDesc) :=
  .inl seq.first.token.operand :: seq.pairs.flatMap fun next => [.inr next.1, .inl next.2]

end Sequence

section

variable {World : Type}

/-- A name is neither imported, nor does the name of a class begin with it. -/
def Token.NoClass (P : ParserEnv World) (token : Token) : Prop :=
  P.imports.lookup token.string = none ∧
    ∀ world suffix, (P.findClass world (token.string ++ "." ++ suffix)).1 = 0

/-- Every name in front of a dot is neither imported, nor does the name of a class begin with it. -/
def Sequence.NoClasses (P : ParserEnv World) :
    OperandToken → List (OperatorToken × OperandToken) → Prop
  | _, [] => True
  | operand, (op, next) :: rest =>
      (op.token.type = .tokDot → operand.token.type = .tokIdentifier → operand.token.NoClass P) ∧
        NoClasses P next rest

/-- No two neighbours are constants that the operator between them folds. -/
def Sequence.NothingToFold (P : ParserEnv World) (seq : Sequence) : Prop :=
  ∀ left op right, [.inl left, .inr op, .inl right] <:+: seq.written →
    foldLiterals P op.oper left right = none

end

/-- What `parseExpression` is told to stop at by its callers. -/
def TokenType.IsEnd (endToken : TokenType) : Prop :=
  endToken = .tokAny ∨ endToken = .tokSquareBracketRight

/-- A token behind a whole expression. -/
def Token.Stops (endToken : TokenType) (token : Token) : Prop :=
  token.type = .tokBracketRight ∨ token.type = .tokSemicolon ∨ token.type = .tokComma ∨
    endToken = .tokSquareBracketRight ∧ token.type = .tokSquareBracketRight

/-! ## Trees as expressions -/

variable {World : Type}

/-- The tree as an expression. -/
def treeExpression : Tree Expression OpDesc → Expression
  | .leaf expr => expr
  | .unary op right => .oper .unknown op.oper none (some (treeExpression right))
  | .binary op left right =>
      .oper .unknown op.oper (some (treeExpression left)) (some (treeExpression right))

/-- The tree as an expression, `+` and `*` of constants folded. -/
def foldTree (P : ParserEnv World) : Tree Expression OpDesc → Expression
  | .leaf expr => expr
  | .unary op right => .oper .unknown op.oper none (some (foldTree P right))
  | .binary op left right =>
      match foldLiterals P op.oper (foldTree P left) (foldTree P right) with
      | some expr => expr
      | none => .oper .unknown op.oper (some (foldTree P left)) (some (foldTree P right))

/-- An entry of the output queue. -/
def QueueEntry.of : Expression ⊕ OpDesc → QueueEntry
  | .inl expr => .value expr
  | .inr op => .operator op

/-! ## Formulas with brackets -/

/-- An expression over variables and integer and string literals; `.` is no operation of it. -/
inductive Formula
  | var (name : String)
  | integer (i : BitVec 32)
  | string (str : String)
  | binary (op : BinaryOperator) (noReference : op.desc.oper ≠ .reference) (left right : Formula)
  | not (right : Formula)

/-- The entry of `!` in `opTable`. -/
def notDesc : OpDesc := ⟨.tokNot, .not, false, true⟩

namespace Formula

/-- The formula with every operation in round brackets. -/
inductive Printed : Formula → List Token → Prop
  | var {token : Token} (h : token.type = .tokIdentifier) : Printed (.var token.string) [token]
  | integer {token : Token} (h : token.type = .tokInteger) : Printed (.integer token.i) [token]
  | string {token : Token} (h : token.type = .tokString) : Printed (.string token.string) [token]
  | binary {op : BinaryOperator} {noReference : op.desc.oper ≠ .reference} {left right : Formula}
      {lefts rights : List Token} {bracketLeft operator bracketRight : Token}
      (hleft : bracketLeft.type = .tokBracketLeft) (hop : operator.type = op.desc.token)
      (hright : bracketRight.type = .tokBracketRight) (hlefts : Printed left lefts)
      (hrights : Printed right rights) :
      Printed (.binary op noReference left right)
        (bracketLeft :: (lefts ++ operator :: (rights ++ [bracketRight])))
  | not {right : Formula} {rights : List Token} {bracketLeft operator bracketRight : Token}
      (hleft : bracketLeft.type = .tokBracketLeft) (hop : operator.type = .tokNot)
      (hright : bracketRight.type = .tokBracketRight) (hrights : Printed right rights) :
      Printed (.not right) (bracketLeft :: operator :: (rights ++ [bracketRight]))

/-- One way to print it. -/
def print : Formula → List Token
  | var name => [⟨.tokIdentifier, 1, name, 0, 0⟩]
  | integer i => [⟨.tokInteger, 1, "", i, 0⟩]
  | string str => [⟨.tokString, 1, str, 0, 0⟩]
  | binary op _ left right =>
      ⟨.tokBracketLeft, 1, "(", 0, 0⟩ ::
        (left.print ++ ⟨op.desc.token, 1, "", 0, 0⟩ ::
          (right.print ++ [⟨.tokBracketRight, 1, ")", 0, 0⟩]))
  | not right =>
      ⟨.tokBracketLeft, 1, "(", 0, 0⟩ :: ⟨.tokNot, 1, "!", 0, 0⟩ ::
        (right.print ++ [⟨.tokBracketRight, 1, ")", 0, 0⟩])

/-- The formula as an expression, each `+` and `*` of two integers replaced by its value. -/
def folded : Formula → Expression
  | var name => .var .unknown 0 name
  | integer i => .integer .integer (i.signExtend 64)
  | string str => .string .object str
  | binary op _ left right =>
      match op.desc.oper, left.folded, right.folded with
      | .add, .integer _ l, .integer _ r => .integer .unknown (l + r)
      | .multiply, .integer _ l, .integer _ r => .integer .unknown (l * r)
      | oper, l, r => .oper .unknown oper (some l) (some r)
  | not right => .oper .unknown .not none (some right.folded)

/-- The formula as a tree of operands and operators. -/
def tree : Formula → Tree Expression OpDesc
  | var name => .leaf (.var .unknown 0 name)
  | integer i => .leaf (.integer .integer (i.signExtend 64))
  | string str => .leaf (.string .object str)
  | binary op _ left right => .binary op.desc left.tree right.tree
  | not right => .unary notDesc right.tree

/-- What is read of it. -/
def items : Formula → List ExpressionItem
  | var name => [.operand (.var .unknown 0 name)]
  | integer i => [.operand (.integer .integer (i.signExtend 64))]
  | string str => [.operand (.string .object str)]
  | binary op _ left right =>
      .bracketLeft :: (left.items ++ .operator op.desc :: (right.items ++ [.bracketRight]))
  | not right => .bracketLeft :: .operator notDesc :: (right.items ++ [.bracketRight])

end Formula

end B0rk
