import B0rk.Value

set_option autoImplicit false

/-! # Expressions, code blocks and script functions

`expression.h` and `codeblock.h`: what the parser builds and the assembler reads. The pointers
`parent` and `m_parent` are left out, since they say nothing but where in the tree an expression or a
block is; what the source finds by following them is found by walking down the tree. -/

namespace B0rk

/-- `enum OpType`, in its order. -/
inductive OpType
  | none | set | logicalAnd | equals | notEqual | lessThan | lessThanEqual | greaterThan
  | greaterThanEqual | add | sub | multiply | divide | increment | decrement | not | reference
  | array
  deriving DecidableEq, Repr

/-- The number of an operator, its precedence. -/
def OpType.toNat : OpType → ℕ
  | .none => 0 | .set => 1 | .logicalAnd => 2 | .equals => 3 | .notEqual => 4 | .lessThan => 5
  | .lessThanEqual => 6 | .greaterThan => 7 | .greaterThanEqual => 8 | .add => 9 | .sub => 10
  | .multiply => 11 | .divide => 12 | .increment => 13 | .decrement => 14 | .not => 15
  | .reference => 16 | .array => 17

mutual

/-- `struct Expression` with its kinds. The first argument of those that have a value is
    `valueType`; the address `0` is the null pointer. -/
inductive Expression
  | call (valueType : ValueType) (clazz : Word) (function : String) (parameters : List Expression)
  | new (valueType : ValueType) (clazz : List String) (parameters : List Expression)
  | oper (valueType : ValueType) (operType : OpType) (left right : Option Expression)
  | ifExpr (testExpr : Expression) (trueBlock : CodeBlock) (falseBlock : Option CodeBlock)
  | forExpr (initExpr : Option Expression) (testExpr : Expression) (incExpr : Option Expression)
      (body : CodeBlock)
  | returnExpr (returnValue : Option Expression)
  | tryExpr (tryBlock : CodeBlock) (exceptionVar : String) (catchBlock : CodeBlock)
  | throwExpr (throwValue : Expression)
  | var (valueType : ValueType) (clazz : Word) (var : String)
  | array (valueType : ValueType) (clazz : Word) (var : String) (indexExpr : Expression)
  | string (valueType : ValueType) (str : String)
  | integer (valueType : ValueType) (i : Word)
  | double (valueType : ValueType) (d : Word)
  | function (valueType : ValueType) (function : Option ScriptFunction)

/-- `struct CodeBlock`. A block is reached from the statement it belongs to; `linked` says that it
    is in the `m_childBlocks` of the enclosing block too. -/
inductive CodeBlock
  | mk (linked : Bool) (startingVarId maxVarId : ℕ) (vars : List String) (code : List Expression)

/-- `class ScriptFunction`, with its own address. -/
inductive ScriptFunction
  | mk (address : Word) (args : List String) (isStatic : Bool) (code : CodeBlock)

end

namespace Expression

/-- The member `valueType` of the expressions that have a value. -/
def valueType : Expression → ValueType
  | call type .. | new type .. | oper type .. | var type .. | array type .. | string type ..
  | integer type .. | double type .. | function type .. => type
  | _ => .unknown

/-- `IS_REFERENCE`. -/
def isReference : Expression → Bool
  | oper _ .reference _ _ => true
  | _ => false

def isTry : Expression → Bool
  | tryExpr .. => true
  | _ => false

/-- The blocks of a statement. -/
def blocks : Expression → List CodeBlock
  | ifExpr _ trueBlock falseBlock => trueBlock :: falseBlock.toList
  | forExpr _ _ _ body => [body]
  | tryExpr tryBlock _ catchBlock => [tryBlock, catchBlock]
  | _ => []

end Expression

namespace CodeBlock

def linked : CodeBlock → Bool
  | mk linked .. => linked

def startingVarId : CodeBlock → ℕ
  | mk _ id .. => id

def maxVarId : CodeBlock → ℕ
  | mk _ _ id .. => id

def vars : CodeBlock → List String
  | mk _ _ _ vars _ => vars

def code : CodeBlock → List Expression
  | mk _ _ _ _ code => code

/-- `CodeBlock::CodeBlock`. -/
def empty : CodeBlock := mk false 0 0 [] []

/-- `m_vars.push_back`. -/
def addVar : CodeBlock → String → CodeBlock
  | mk linked start max vars code, var => mk linked start max (vars ++ [var]) code

/-- `m_code.push_back`. -/
def addCode : CodeBlock → Expression → CodeBlock
  | mk linked start max vars code, expr => mk linked start max vars (code ++ [expr])

/-- The block once the enclosing block has it in its `m_childBlocks`. -/
def link : CodeBlock → CodeBlock
  | mk _ start max vars code => mk true start max vars code

/-- All blocks directly below a block. -/
def blocks (block : CodeBlock) : List CodeBlock := block.code.flatMap Expression.blocks

/-- `m_childBlocks`. -/
def childBlocks (block : CodeBlock) : List CodeBlock := block.blocks.filter linked

end CodeBlock

namespace ScriptFunction

def address : ScriptFunction → Word
  | mk address .. => address

def args : ScriptFunction → List String
  | mk _ args .. => args

def isStatic : ScriptFunction → Bool
  | mk _ _ isStatic _ => isStatic

def code : ScriptFunction → CodeBlock
  | mk _ _ _ code => code

end ScriptFunction

end B0rk
