import B0rk.Expression
import B0rk.Parser.Token

set_option autoImplicit false

/-! # Resolving types

`Parser::resolveTypes` with `OperationExpression::resolveType`. The expressions that the parser has
made are objects that refer to one another; here an object is a number. What does not change while
types are resolved is an `ExprNode`, and the members `valueType` are the state. -/

namespace B0rk

/-- Where `setVarType` and `getVarType` look for the id that `getVarId` has found. -/
inductive VarSlot
  /-- `getVarId` gives `-1` -/
  | missing
  /-- a parameter, or a variable of a block without `m_varTypes`: its type is `VALUE_UNKNOWN`, and it
      cannot be set -/
  | untyped
  /-- an entry of an `m_varTypes` -/
  | slot (n : ℕ)
  deriving DecidableEq, Repr

/-- An `Expression`, by what its kind has to do with its type. -/
inductive ExprKind
  | oper (operType : OpType) (left right : Option ℕ)
  | var (slot : VarSlot)
  | integer (i : Word)
  | double (d : Word)
  /-- a `StringExpression`, `NewExpression` or `FunctionExpression` -/
  | object
  /-- a `CallExpression` or `ArrayExpression` -/
  | computed
  deriving DecidableEq, Repr

structure ExprNode where
  kind : ExprKind
  parent : Option ℕ
  deriving DecidableEq, Repr

/-- The members `valueType` of the expressions, and the entries of the `m_varTypes`. -/
structure TypeState where
  valueType : ℕ → ValueType
  varTypes : ℕ → ValueType

namespace TypeState

def setValueType (s : TypeState) (p : ℕ) (type : ValueType) : TypeState :=
  { s with valueType := fun q => if q = p then type else s.valueType q }

/-- `CodeBlock::setVarType`: a type that is known stays. -/
def setVarType (s : TypeState) (slot : VarSlot) (type : ValueType) : Option TypeState :=
  match slot with
  | .missing => some s
  | .untyped => none
  | .slot n =>
      if s.varTypes n ≠ .unknown then some s
      else some { s with varTypes := fun m => if m = n then type else s.varTypes m }

/-- `CodeBlock::getVarType`; `none` if there is no id to ask for. -/
def getVarType (s : TypeState) (slot : VarSlot) : Option ValueType :=
  match slot with
  | .missing => none
  | .untyped => some .unknown
  | .slot n => some (s.varTypes n)

end TypeState

section

variable (nodes : ℕ → ExprNode)

def isReferenceNode (p : ℕ) : Bool :=
  match (nodes p).kind with
  | .oper .reference _ _ => true
  | _ => false

/-- The first loop: "Infer types of OperationExpressions from their operands". -/
def inferOperation (p : ℕ) (s : TypeState) : Option TypeState :=
  match (nodes p).kind with
  | .oper operType left right =>
      if s.valueType p ≠ .unknown then
        if operType = .set then do
          let left ← left
          match (nodes left).kind with
          | .var slot => s.setVarType slot (s.valueType p)
          | _ => some s
        else some s
      else
        match left, right with
        | some left, some right =>
            if s.valueType left ≠ .unknown ∧ s.valueType left = s.valueType right then
              some (s.setValueType p (s.valueType left))
            else some s
        | _, _ => some s
  | _ => some s

/-- The second loop: "find the type of var expressions from what they get assigned to". -/
def findVarType (p : ℕ) (s : TypeState) : Option TypeState :=
  match (nodes p).kind, (nodes p).parent with
  | .var slot, some parent =>
      if isReferenceNode nodes parent then some s
      else
        match s.getVarType slot with
        | some type => some (s.setValueType p type)
        | none => some s
  | _, _ => some s

/-- `OperationExpression::resolveType`, on the operations of the third loop. -/
def resolveType (p : ℕ) (s : TypeState) : Option TypeState :=
  match (nodes p).kind with
  | .oper operType left right =>
      if s.valueType p ≠ .unknown then some s
      else
        match left, right with
        | none, none => none
        | some left, none => some (s.setValueType p (s.valueType left))
        | none, some _ => some s
        | some left, some right =>
            if s.valueType left = s.valueType right then
              some (s.setValueType p (s.valueType left))
            else if operType = .set ∧ s.valueType right ≠ .unknown then
              some ((s.setValueType left (s.valueType right)).setValueType p (s.valueType right))
            else some s
  | _ => some s

/-- `Parser::resolveTypes`, for the `m_expressions` in the order in which they were made. -/
def resolveTypes (expressions : List ℕ) (s : TypeState) : Option TypeState := do
  let s ← expressions.foldlM (fun s p => inferOperation nodes p s) s
  let s ← expressions.foldlM (fun s p => findVarType nodes p s) s
  expressions.foldlM (fun s p => resolveType nodes p s) s

end

end B0rk
