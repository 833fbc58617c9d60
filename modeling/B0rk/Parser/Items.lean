import B0rk.Parser.Parser
import B0rk.Lib.Postfix

set_option autoImplicit false

/-! # What an expression is made of

`parseExpression` seen in two parts: `readItems` is the loop without its output queue and operator
stack, and `order` is what the loop makes of the items, the queue when `buildTree` is called. -/

namespace B0rk

variable {World : Type}

/-- What a round of the loop reads. -/
inductive ExpressionItem
  | operand (expr : Expression)
  | operator (desc : OpDesc)
  | bracketLeft
  | bracketRight

/-- What the loop of `parseExpression` reads up to the token it stops at. -/
def readItems (P : ParserEnv World) : ℕ → TokenType → ℕ → Parse World (List ExpressionItem)
  | 0, _, _ => Attempt.undefined
  | fuel + 1, endToken, brackets => do
      let token ← nextToken P
      if token.type = .tokBracketRight ∧ brackets = 0 ∨
          token.type = .tokSemicolon ∨ token.type = .tokComma ∨
          token.type ≠ .tokBracketLeft ∧ token.type ≠ .tokBracketRight ∧
            token.type ≠ .tokAny ∧ token.type = endToken then do
        rewind 1
        pure []
      else
        match opTable.find? (fun desc => desc.token == token.type) with
        | some op => do
            let items ← readItems P fuel endToken brackets
            pure (.operator op :: items)
        | none =>
            if token.type = .tokBracketLeft then do
              let items ← readItems P fuel endToken (brackets + 1)
              pure (.bracketLeft :: items)
            else if token.type = .tokBracketRight then do
              let items ← readItems P fuel endToken (brackets - 1)
              pure (.bracketRight :: items)
            else do
              rewind 1
              let expr ← parseExpressionValue P fuel
              let items ← readItems P fuel endToken brackets
              pure (.operand expr :: items)

/-- What the loop does with the items. -/
def place : List ExpressionItem → List QueueEntry → List (Option OpDesc) →
    Option (List QueueEntry × List (Option OpDesc))
  | [], queue, operators => some (queue, operators)
  | .operand expr :: items, queue, operators => place items (.value expr :: queue) operators
  | .operator op :: items, queue, operators =>
      let (operators, queue) := pushOperatorStack op operators queue
      place items queue operators
  | .bracketLeft :: items, queue, operators => place items queue (none :: operators)
  | .bracketRight :: items, queue, operators =>
      (popToBracket operators queue).bind fun (operators, queue) => place items queue operators

/-- The operators that are left on the stack go to the output queue. -/
def flush (operators : List (Option OpDesc)) (queue : List QueueEntry) : List QueueEntry :=
  operators.foldl (fun queue op => QueueEntry.ofOperator op :: queue) queue

/-- The output queue when `buildTree` is called, its back first. -/
def order (items : List ExpressionItem) : Option (List QueueEntry) :=
  (place items [] []).map fun (queue, operators) => flush operators queue

/-- What `buildTree` makes of the items. -/
def combine (P : ParserEnv World) (items : List ExpressionItem) : Option Expression :=
  (order items).bind fun queue => (buildTree P queue.length queue).map Prod.fst

/-! ## What a tree is made of -/

/-- The items make one infix expression. -/
inductive Infix : List ExpressionItem → Prop
  | operand (expr : Expression) : Infix [.operand expr]
  | brackets {items : List ExpressionItem} (h : Infix items) :
      Infix (.bracketLeft :: (items ++ [.bracketRight]))
  | binary {op : OpDesc} {lefts rights : List ExpressionItem} (hleft : op.hasLeftExpr = true)
      (hright : op.hasRightExpr = true) (hlefts : Infix lefts) (hrights : Infix rights) :
      Infix (lefts ++ .operator op :: rights)
  | onlyRight {op : OpDesc} {rights : List ExpressionItem} (hleft : op.hasLeftExpr = false)
      (hright : op.hasRightExpr = true) (hrights : Infix rights) : Infix (.operator op :: rights)
  | onlyLeft {op : OpDesc} {lefts : List ExpressionItem} (hleft : op.hasLeftExpr = true)
      (hright : op.hasRightExpr = false) (hlefts : Infix lefts) : Infix (lefts ++ [.operator op])

/-- `+=` and `-=`. -/
def OpDesc.assigns (desc : OpDesc) : Prop :=
  desc.token = .tokAddAssign ∨ desc.token = .tokSubAssign

instance (desc : OpDesc) : Decidable desc.assigns := inferInstanceAs (Decidable (_ ∨ _))

/-- The operation that such an assignment is short for. -/
def OpDesc.assignedType (desc : OpDesc) : OpType :=
  if desc.token = .tokAddAssign then .add else .sub

/-- The expression shows every operand and every operator of a postfix order, which is given from its
    end: constants in the constant that they are folded to, the left side of `+=` once more. The copy of
    a variable has the class that `copied` makes of the one the variable has. -/
inductive MadeOf (P : ParserEnv World) (copied : Word → Word) : Expression → List QueueEntry → Prop
  | operand (expr : Expression) : MadeOf P copied expr [.value expr]
  | binary {op : OpDesc} {left right : Expression} {lefts rights : List QueueEntry}
      (hleft : op.hasLeftExpr = true) (hright : op.hasRightExpr = true) (hplain : ¬op.assigns)
      (hlefts : MadeOf P copied left lefts) (hrights : MadeOf P copied right rights) :
      MadeOf P copied (.oper .unknown op.oper (some left) (some right))
        (.operator op :: (rights ++ lefts))
  | folded {op : OpDesc} {left right expr : Expression} {lefts rights : List QueueEntry}
      (hleft : op.hasLeftExpr = true) (hright : op.hasRightExpr = true) (hplain : ¬op.assigns)
      (hlefts : MadeOf P copied left lefts) (hrights : MadeOf P copied right rights)
      (hfold : foldLiterals P op.oper left right = some expr) :
      MadeOf P copied expr (.operator op :: (rights ++ lefts))
  | assigned {op : OpDesc} {valueType type : ValueType} {clazz : Word} {var : String}
      {right : Expression} {rights : List QueueEntry}
      (hleft : op.hasLeftExpr = true) (hright : op.hasRightExpr = true) (hassigns : op.assigns)
      (hrights : MadeOf P copied right rights) :
      MadeOf P copied
        (.oper .unknown op.oper (some (.var valueType clazz var))
          (some (.oper type op.assignedType (some (.var .unknown (copied clazz) var)) (some right))))
        (.operator op :: (rights ++ [.value (.var valueType clazz var)]))
  | onlyRight {op : OpDesc} {right : Expression} {rights : List QueueEntry}
      (hleft : op.hasLeftExpr = false) (hright : op.hasRightExpr = true)
      (hrights : MadeOf P copied right rights) :
      MadeOf P copied (.oper .unknown op.oper none (some right)) (.operator op :: rights)
  | onlyLeft {op : OpDesc} {left : Expression} {lefts : List QueueEntry}
      (hleft : op.hasLeftExpr = true) (hright : op.hasRightExpr = false)
      (hlefts : MadeOf P copied left lefts) :
      MadeOf P copied (.oper .unknown op.oper (some left) none) (.operator op :: lefts)

/-! ## Counting operands -/

/-- Operands and operators take turns, and the brackets match. `behind` tells whether an operand has
    just been read, `brackets` how many brackets are open. -/
def alternates : Bool → ℕ → List ExpressionItem → Bool
  | behind, brackets, [] => behind && brackets == 0
  | behind, brackets, .operand _ :: items => !behind && alternates true brackets items
  | behind, brackets, .operator op :: items =>
      (op.hasLeftExpr == behind) && alternates (!op.hasRightExpr) brackets items
  | behind, brackets, .bracketLeft :: items => !behind && alternates false (brackets + 1) items
  | behind, brackets, .bracketRight :: items =>
      behind && brackets != 0 && alternates true (brackets - 1) items

/-- An operand counts one; an operator takes its operands away and counts one itself. -/
def QueueEntry.weight : QueueEntry → ℤ
  | .value _ => 1
  | .operator desc =>
      1 - (if desc.hasLeftExpr then 1 else 0) - (if desc.hasRightExpr then 1 else 0)
  | .bracket => 0

def QueueEntry.IsVariable (entry : QueueEntry) : Prop :=
  ∃ type clazz var, entry = .value (.var type clazz var)

/-- A variable that is not that of a named class. -/
def QueueEntry.IsPlain (entry : QueueEntry) : Prop := ∃ type var, entry = .value (.var type 0 var)

/-- Behind the right operand of a `+=` or `-=`, where its left operand begins, stands an entry of the
    given kind. -/
def AssignsTo (target : QueueEntry → Prop) (queue : List QueueEntry) : Prop :=
  ∀ op ∈ opTable, ∀ rights entry behind, .operator op :: (rights ++ entry :: behind) <:+ queue →
    op.assigns → Postfix.Reaches QueueEntry.weight 1 rights → target entry

/-- A postfix order that counts up to one at its end, and not before. -/
structure Complete (target : QueueEntry → Prop) (queue : List QueueEntry) : Prop where
  noBracket : ∀ entry ∈ queue, entry ≠ .bracket
  reaches : Postfix.Reaches QueueEntry.weight 1 queue
  assigns : AssignsTo target queue

/-- The operands and operators among the items. -/
def itemEntries (items : List ExpressionItem) : List QueueEntry :=
  items.filterMap fun
    | .operand expr => some (.value expr)
    | .operator op => some (.operator op)
    | _ => none

end B0rk
