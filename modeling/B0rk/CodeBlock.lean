import B0rk.Expression

set_option autoImplicit false

/-! # Slots of local variables

`codeblock.cpp`: `setStartingVarId` numbers the variables of a function body, once it is parsed, by a
recursion over `m_childBlocks`; `getVarId` looks a variable up by climbing `m_parent`, up to the
parameters of the function. -/

namespace B0rk

/-- `m_maxVarId` over the blocks of some statements, starting from `id`. -/
def maxChildVarId (id : ℕ) (code : List Expression) : ℕ :=
  ((code.flatMap Expression.blocks).filter CodeBlock.linked).foldl
    (fun max child => if child.maxVarId > max then child.maxVarId else max) id

mutual

/-- `CodeBlock::setStartingVarId`. -/
def CodeBlock.setStartingVarId (id : ℕ) : CodeBlock → CodeBlock
  | .mk linked _ _ vars code =>
      let code := setStatementsVarId (id + vars.length) code
      .mk linked id (maxChildVarId (id + vars.length) code) vars code

/-- The calls of `setStartingVarId` for those blocks of a statement that are in `m_childBlocks`. -/
def setStatementVarId (id : ℕ) : Expression → Expression
  | .ifExpr test trueBlock falseBlock =>
      .ifExpr test (if trueBlock.linked then trueBlock.setStartingVarId id else trueBlock)
        (setElseVarId id falseBlock)
  | .forExpr init test inc body =>
      .forExpr init test inc (if body.linked then body.setStartingVarId id else body)
  | .tryExpr tryBlock var catchBlock =>
      .tryExpr (if tryBlock.linked then tryBlock.setStartingVarId id else tryBlock) var
        (if catchBlock.linked then catchBlock.setStartingVarId id else catchBlock)
  | .call type clazz function params => .call type clazz function params
  | .new type clazz params => .new type clazz params
  | .oper type op left right => .oper type op left right
  | .returnExpr value => .returnExpr value
  | .throwExpr value => .throwExpr value
  | .var type clazz var => .var type clazz var
  | .array type clazz var index => .array type clazz var index
  | .string type str => .string type str
  | .integer type i => .integer type i
  | .double type d => .double type d
  | .function type function => .function type function

def setElseVarId (id : ℕ) : Option CodeBlock → Option CodeBlock
  | none => none
  | some block => some (if block.linked then block.setStartingVarId id else block)

def setStatementsVarId (id : ℕ) : List Expression → List Expression
  | [] => []
  | expr :: code => setStatementVarId id expr :: setStatementsVarId id code

end

/-- `Function::getArgId`; `none` for `-1`. -/
def getArgId (args : List String) (arg : String) : Option ℕ := (args.idxOf? arg).map (· + 1)

/-- A block, followed by its `m_parent`, and so on up to the body of the function. -/
abbrev Scope := List CodeBlock

/-- `CodeBlock::getVarId`; `none` for `-1`. -/
def Scope.getVarId (args : List String) : Scope → String → Option ℕ
  | [], var => getArgId args var
  | block :: parents, var =>
      match block.vars.idxOf? var with
      | some i => some (i + block.startingVarId)
      | none => Scope.getVarId args parents var

/-- The blocks of a function body, each with the blocks around it. -/
inductive InBody (body : CodeBlock) : Scope → Prop
  | body : InBody body [body]
  | block {block child : CodeBlock} {parents : Scope} (h : InBody body (block :: parents))
      (hc : child ∈ block.blocks) : InBody body (child :: block :: parents)

/-- No `try` anywhere in a function body. -/
def CodeBlock.NoTry (body : CodeBlock) : Prop :=
  ∀ block parents, InBody body (block :: parents) → ∀ expr ∈ block.code, expr.isTry = false

end B0rk
