import B0rk.Class
import B0rk.CodeBlock
import B0rk.Lib.Attempt
import B0rk.OpCode

set_option autoImplicit false

/-! # The assembler

`assembler.cpp` up to `pushInstruction`. The code that is being assembled, `m_code`, is the state; the
addresses in it are positions in that list. A reference that an expression is assembled under is
only ever handed to `assembleReference`, so the argument `reference` is the assembling of it. -/

namespace B0rk

/-- What the assembler finds outside the expressions. -/
structure AsmEnv where
  /-- `m_function->getClass()`, with its superclasses -/
  clazz : Option (Word × ClassChain)
  /-- the parameters of `m_function` -/
  args : List String
  /-- the class at an address, with its superclasses -/
  chain : Word → Option ClassChain
  /-- `Function::getStatic` -/
  getStatic : Word → Bool
  /-- `Runtime::findClass`, with the null pointer `0` -/
  findClass : String → Word
  /-- `Runtime::newString` -/
  newString : String → Word

/-- An assembling function; `false` is a failure. -/
abbrev Asm := Attempt (List Instruction)

def pushInstruction (op : OpCode) (args : List Word) : Asm Unit :=
  Attempt.modify (fun code => code ++ [⟨op, args⟩])

def pushIf (cond : Bool) (op : OpCode) : Asm Unit :=
  if cond then pushInstruction op [] else pure ()

/-- `m_code.size() - 1`; `none` for `-1`. -/
def lastPos : Asm (Option ℕ) :=
  Attempt.read (fun code => if code.length = 0 then none else some (code.length - 1))

/-- `m_code[pos].args[arg] = m_code.size()`. -/
def patch (pos : Option ℕ) (arg : ℕ) : Asm Unit := fun code => do
  let pos ← pos
  let inst ← code[pos]?
  if arg < inst.args.length then
    some (some (),
      code.set pos ⟨inst.op, inst.args.set arg (BitVec.ofNat 64 code.length)⟩)
  else none

/-- `pushOperator`. -/
def pushOperator (opcode : OpCode) (type : ValueType) : Asm Unit :=
  match type with
  | .integer => pushInstruction (.ofNat (opcode.toNat + 0x10)) []
  | .double => pushInstruction (.ofNat (opcode.toNat + 0x20)) []
  | _ => pushInstruction opcode []

/-- `pushCMP`. -/
def pushCMP (type : ValueType) : Asm Unit :=
  match type with
  | .integer => pushInstruction .cmpI []
  | .double => pushInstruction .cmpD []
  | _ => pushInstruction .cmp []

/-- What an operator other than a reference, an assignment or an increment is assembled to, behind its
    operands. -/
def pushOperation (operType : OpType) (type : ValueType) : Asm Unit :=
  match operType with
  | .add => pushOperator .add type
  | .sub => pushOperator .sub type
  | .multiply => pushOperator .mul type
  | .divide => pushOperator .div type
  | .not => pushOperator .not type
  | .logicalAnd => pushOperator .and type
  | .equals => do
      pushCMP type
      pushInstruction .pushCE []
  | .notEqual => do
      pushCMP type
      pushInstruction .pushCNE []
  | .lessThan => do
      pushCMP type
      pushInstruction .pushCL []
  | .lessThanEqual => do
      pushCMP type
      pushInstruction .pushCLE []
  | .greaterThan => do
      pushCMP type
      pushInstruction .pushCG []
  | .greaterThanEqual => do
      pushCMP type
      pushInstruction .pushCGE []
  | _ => Attempt.fail

/-! ## Variables -/

/-- The slot of a local variable or of `this`; `none` for `-1`. -/
def localId (A : AsmEnv) (scope : Scope) (var : String) : Option ℕ :=
  if var = "this" then some 0 else scope.getVarId A.args var

/-- `isVariable`. -/
def isVariable (A : AsmEnv) (scope : Scope) (name : String) : Asm Bool :=
  match scope.getVarId A.args name with
  | some _ => pure true
  | none =>
      match A.clazz with
      | none => Attempt.undefined
      | some (_, chain) => pure (chain.getFieldId name).isSome

/-- `load`, for a `VarExpression` with the given members. -/
def load (A : AsmEnv) (scope : Scope) (clazz : Word) (var : String)
    (reference : Option (Asm Unit)) : Asm Unit :=
  match reference with
  | some reference => do
      reference
      pushInstruction .pushObj [A.newString var]
      pushInstruction .loadFieldNamed []
  | none =>
      if clazz ≠ 0 then
        match A.chain clazz with
        | none => Attempt.undefined
        | some chain =>
            match chain.getStaticFieldId var with
            | some id => pushInstruction .loadStaticField [clazz, BitVec.ofNat 64 id]
            | none => Attempt.fail
      else
        match localId A scope var with
        | some id => pushInstruction .loadVar [BitVec.ofNat 64 id]
        | none =>
            match A.clazz with
            | none => Attempt.undefined
            | some (address, chain) =>
                match chain.getFieldId var with
                | some id => do
                    pushInstruction .loadVar [0]
                    pushInstruction .loadField [BitVec.ofNat 64 id]
                | none =>
                    match chain.getStaticFieldId var with
                    | some id => pushInstruction .loadStaticField [address, BitVec.ofNat 64 id]
                    | none => Attempt.fail

/-- `store`. It does not look at the class of the variable. -/
def store (A : AsmEnv) (scope : Scope) (var : String) (reference : Option (Asm Unit)) :
    Asm Unit :=
  match reference with
  | some reference => do
      reference
      pushInstruction .pushObj [A.newString var]
      pushInstruction .storeFieldNamed []
  | none =>
      match localId A scope var with
      | some id => pushInstruction .storeVar [BitVec.ofNat 64 id]
      | none =>
          match A.clazz with
          | none => Attempt.undefined
          | some (address, chain) =>
              match chain.getFieldId var with
              | some id => do
                  pushInstruction .loadVar [0]
                  pushInstruction .storeField [BitVec.ofNat 64 id]
              | none =>
                  match chain.getStaticFieldId var with
                  | some id => pushInstruction .storeStaticField [address, BitVec.ofNat 64 id]
                  | none => Attempt.fail

/-- `OP_INCREMENT` and `OP_DECREMENT` of a variable or of an array, whose index is not looked at. -/
def assembleIncrement (A : AsmEnv) (scope : Scope) (operType : OpType) (clazz : Word)
    (var : String) (reference : Option (Asm Unit)) (needResult : Bool) : Asm Unit :=
  match needResult, scope.getVarId A.args var with
  | false, some id =>
      let inc : Word := if operType = .increment then 1 else -1
      pushInstruction .incVar [BitVec.ofNat 64 id, inc]
  | _, _ => do
      load A scope clazz var reference
      pushIf needResult .dup
      pushInstruction .pushI [1]
      -- order matters
      pushIf (needResult && operType = .decrement) .swap
      pushInstruction (if operType = .increment then .addI else .subI) []
      store A scope var reference

/-! ## Calls -/

/-- The end of a call, behind its arguments and its reference. -/
def assembleCall (A : AsmEnv) (scope : Scope) (clazz : Word) (function : String) (count : ℕ)
    (reference : Option (Asm Unit)) (inReference : Bool) : Asm Unit :=
  if clazz ≠ 0 then
    match A.chain clazz with
    | none => Attempt.undefined
    | some chain =>
        pushInstruction .callStatic
          [(chain.findMethod function).getD 0, BitVec.ofNat 64 count]
  else if inReference then do
    pushInstruction .pushObj [A.newString function]
    pushInstruction .callNamed [BitVec.ofNat 64 count]
  else do
    let isVar ← isVariable A scope function
    if isVar then do
      -- the result is not checked
      let _ ← Attempt.orNull (load A scope 0 function reference)
      pushInstruction .callObj [BitVec.ofNat 64 count]
    else
      match A.clazz with
      | none => Attempt.undefined
      | some (_, chain) =>
          match chain.findMethod function with
          | none => Attempt.fail
          | some func =>
              if A.getStatic func then
                pushInstruction .callStatic [func, BitVec.ofNat 64 count]
              else do
                pushInstruction .loadVar [0]
                pushInstruction .call [func, BitVec.ofNat 64 count]

/-! ## Tests -/

/-- The end of `assembleTest`: a comparison that pushes its result is collapsed with the test of the
    result. The condition is flipped, to skip the block if it is false. -/
def finishTest : Asm Unit := fun code =>
  let last := if code.length > 2 then (code.getLast?.map Instruction.op) else none
  match last with
  | some .pushCE => pushInstruction .bNE [0] code.dropLast
  | some .pushCL => pushInstruction .bGE [0] code.dropLast
  | some .pushCLE => pushInstruction .bG [0] code.dropLast
  | _ =>
      (do
        pushInstruction .pushI [0]
        pushInstruction .cmpI []
        pushInstruction .bEq [0] : Asm Unit) code

/-! ## Expressions -/

/-- "First non reference": where the right operands of references end. -/
def Expression.refChild : Expression → Option Expression
  | .oper _ .reference _ (some right) => right.refChild
  | .oper _ .reference _ none => none
  | expr => some expr

/-- The members of a `VarExpression`, which an `ArrayExpression` is too. -/
def Expression.asVar : Expression → Option (Word × String)
  | .var _ clazz name => some (clazz, name)
  | .array _ clazz name _ => some (clazz, name)
  | _ => none

mutual

/-- `assembleExpression`; `inReference` tells whether the parent of the expression is a reference. -/
def assembleExpression (A : AsmEnv) :
    Expression → Scope → Option (Asm Unit) → Bool → Bool → Asm Unit
  | .call _ clazz function parameters, scope, reference, inReference, needResult => do
      assembleParams A parameters scope
      reference.getD (pure ())
      assembleCall A scope clazz function parameters.length reference inReference
      pushIf (!needResult) .pop
  | .oper type operType left right, scope, reference, _, needResult =>
      match operType, reference, right with
      | .reference, none, none => Attempt.fail
      | .reference, none, some right =>
          -- the nearest non-reference child is assembled under this reference
          let reference : Asm Unit := do
            assembleOperand A left scope true
            assembleReference A right scope
          if right.isReference then assembleRefChild A right scope reference needResult
          else assembleExpression A right scope (some reference) true needResult
      | operType, reference, right => do
          (match right with
          | none => pure ()
          | some right => assembleExpression A right scope none (operType = .reference) true)
          match operType with
          | .increment | .decrement =>
              match left with
              | none => Attempt.undefined
              | some left =>
                  match left.asVar with
                  | none => Attempt.fail
                  | some (clazz, var) =>
                      assembleIncrement A scope operType clazz var reference needResult
          | .set => do
              pushIf needResult .dup
              match left with
              | none => Attempt.undefined
              | some left => assembleDest A left scope reference
          | .reference => pure ()
          | _ => do
              (match left with
              | none => pure ()
              | some left => assembleExpression A left scope none false true)
              pushOperation operType type
  | .ifExpr test trueBlock falseBlock, scope, _, _, _ => do
      -- the result of `assembleTest` is not checked
      let _ ← Attempt.orNull (do
        assembleExpression A test scope none false true
        finishTest)
      let bneToFalsePos ← lastPos
      assembleBlock A trueBlock scope
      match falseBlock with
      | none => patch bneToFalsePos 0
      | some falseBlock => do
          pushInstruction .jmp [0]
          let jmpToEndPos ← lastPos
          patch bneToFalsePos 0
          assembleBlock A falseBlock scope
          patch jmpToEndPos 0
  | .forExpr init test inc body, scope, _, _, _ => do
      assembleOptional A init scope
      let loopTop ← Attempt.read List.length
      -- nor is it here
      let _ ← Attempt.orNull (do
        assembleExpression A test scope none false true
        finishTest)
      let bneToEndPos ← lastPos
      assembleBlock A body scope
      assembleOptional A inc scope
      pushInstruction .jmp [BitVec.ofNat 64 loopTop]
      patch bneToEndPos 0
  | .returnExpr value, scope, _, _, _ => do
      (match value with
      | none => pushInstruction .pushI [0]
      | some value => assembleExpression A value scope none false true)
      pushInstruction .ret []
  | .tryExpr tryBlock exceptionVar catchBlock, scope, _, _, _ =>
      match Scope.getVarId A.args (catchBlock :: scope) exceptionVar with
      | none => Attempt.fail
      | some excepVar => do
          pushInstruction .pushTry [BitVec.ofNat 64 excepVar, 0]
          let tryCatchPos ← lastPos
          assembleBlock A tryBlock scope
          pushInstruction .popTry []
          -- no exceptions: jump beyond the handler
          pushInstruction .jmp [0]
          let jmpToEndPos ← lastPos
          patch tryCatchPos 1
          assembleBlock A catchBlock scope
          patch jmpToEndPos 0
  | .throwExpr value, scope, _, _, _ => do
      assembleExpression A value scope none false true
      pushInstruction .throw []
  | .var _ clazz var, scope, reference, _, _ => load A scope clazz var reference
  | .array _ clazz var index, scope, reference, _, _ => do
      load A scope clazz var reference
      assembleExpression A index scope none false true
      pushInstruction .loadArray []
  | .new _ clazz parameters, scope, _, _, _ =>
      let address := A.findClass (String.intercalate "." clazz)
      if address = 0 then Attempt.fail
      else do
        assembleParams A parameters scope
        pushInstruction .new [address, BitVec.ofNat 64 parameters.length]
  | .string _ str, _, _, _, _ => pushInstruction .pushObj [A.newString str]
  | .integer _ i, _, _, _, _ => pushInstruction .pushI [i]
  | .double _ d, _, _, _, _ => pushInstruction .pushD [d]
  | .function _ (some function), _, _, _, _ => pushInstruction .newFunction [function.address]
  | .function _ none, _, _, _, _ => pushInstruction .newFunction [0]

/-- The loop over the parameters of a call or of `new`. -/
def assembleParams (A : AsmEnv) : List Expression → Scope → Asm Unit
  | [], _ => pure ()
  | param :: parameters, scope => do
      assembleExpression A param scope none false true
      assembleParams A parameters scope

/-- `EXPR_OPER`, "Assembling nearest non-ref child", from a right operand that is a reference. -/
def assembleRefChild (A : AsmEnv) : Expression → Scope → Asm Unit → Bool → Asm Unit
  | .oper _ .reference _ (some right), scope, reference, needResult =>
      if right.isReference then assembleRefChild A right scope reference needResult
      else assembleExpression A right scope (some reference) true needResult
  | _, _, _, _ => Attempt.fail

/-- An operand that is not checked for `NULL`. -/
def assembleOperand (A : AsmEnv) : Option Expression → Scope → Bool → Asm Unit
  | none, _, _ => Attempt.undefined
  | some expr, scope, inReference => assembleExpression A expr scope none inReference true

/-- The `initExpr` or `incExpr` of a loop. -/
def assembleOptional (A : AsmEnv) : Option Expression → Scope → Asm Unit
  | none, _ => pure ()
  | some expr, scope => assembleExpression A expr scope none false false

/-- `assembleReference`; nothing for an expression that is not a reference. -/
def assembleReference (A : AsmEnv) : Expression → Scope → Asm Unit
  | .oper _ .reference left right, scope => do
      assembleOperand A left scope true
      match right with
      | none => pure ()
      | some right => assembleReference A right scope
  | _, _ => pure ()

/-- `OP_SET`: storing into the left operand. The last part of a reference is taken for a
    `VarExpression`, whatever it is. -/
def assembleDest (A : AsmEnv) : Expression → Scope → Option (Asm Unit) → Asm Unit
  | .var _ _ var, scope, reference => store A scope var reference
  | .array _ clazz var index, scope, reference => do
      load A scope clazz var reference
      assembleExpression A index scope none false true
      pushInstruction .storeArray []
  | .oper _ .reference left right, scope, _ =>
      match (Expression.oper .unknown .reference left right).refChild.bind Expression.asVar with
      | none => Attempt.undefined
      | some (_, var) =>
          store A scope var (some (do
            assembleOperand A left scope true
            match right with
            | none => pure ()
            | some right => assembleReference A right scope))
  | _, _, _ => Attempt.fail

/-- `assembleBlock`; the scope is that of the enclosing block. -/
def assembleBlock (A : AsmEnv) : CodeBlock → Scope → Asm Unit
  | .mk linked start max vars code, scope =>
      assembleStatements A code (.mk linked start max vars code :: scope)

def assembleStatements (A : AsmEnv) : List Expression → Scope → Asm Unit
  | [], _ => pure ()
  | expr :: code, scope => do
      assembleExpression A expr scope none false false
      assembleStatements A code scope

end

/-- `assemble`, up to `optimise`. -/
def assembleFunction (A : AsmEnv) (code : CodeBlock) : Asm Unit := do
  assembleBlock A code []
  pushInstruction .pushI [0]
  pushInstruction .ret []

end B0rk
