import B0rk.Assembler.Assembler
import B0rk.Lib.Script

set_option autoImplicit false

/-! # What the assembling functions do in turn

Each assembling function as a script: the instructions that it pushes, its back-patching, and the
functions that it calls, with or without a look at their result. -/

namespace B0rk

/-- How an expression is assembled: under the reference that it is the last part of, or without one; in
    the latter case its parent may still be a reference. -/
inductive Place
  | alone (inReference : Bool)
  | under (reference : Expression)

def Place.inReference : Place → Bool
  | alone inReference => inReference
  | under _ => true

def Place.reference (A : AsmEnv) (scope : Scope) : Place → Option (Asm Unit)
  | alone _ => none
  | under reference => some (assembleReference A reference scope)

/-- A call of an assembling function. -/
inductive AsmStep
  | function (code : CodeBlock)
  | block (code : CodeBlock) (scope : Scope)
  | statements (code : List Expression) (scope : Scope)
  | expression (expr : Expression) (scope : Scope) (place : Place) (needResult : Bool)
  | params (parameters : List Expression) (scope : Scope)
  | reference (expr : Expression) (scope : Scope)
  | dest (left : Expression) (scope : Scope) (place : Place)
  | increment (operType : OpType) (clazz : Word) (var : String) (scope : Scope) (place : Place)
      (needResult : Bool)
  | load (clazz : Word) (var : String) (scope : Scope) (place : Place)
  | store (var : String) (scope : Scope) (place : Place)

def AsmStep.run (A : AsmEnv) : AsmStep → Asm Unit
  | function code => assembleFunction A code
  | block code scope => assembleBlock A code scope
  | statements code scope => assembleStatements A code scope
  | expression expr scope place needResult =>
      assembleExpression A expr scope (place.reference A scope) place.inReference needResult
  | params parameters scope => assembleParams A parameters scope
  | reference expr scope => assembleReference A expr scope
  | dest left scope place => assembleDest A left scope (place.reference A scope)
  | increment operType clazz var scope place needResult =>
      assembleIncrement A scope operType clazz var (place.reference A scope) needResult
  | load clazz var scope place => B0rk.load A scope clazz var (place.reference A scope)
  | store var scope place => B0rk.store A scope var (place.reference A scope)

/-! ## Actions -/

/-- What an assembling function does itself. -/
inductive AsmAction
  | push (op : OpCode) (args : List Word)
  /-- `JMP`, back to an instruction or with an address to be filled in -/
  | jump (dest : Option ℕ)
  /-- `PUSHTRY`, with an address to be filled in -/
  | handler (var : ℕ)
  /-- the end of `assembleTest`, a branch with an address to be filled in -/
  | branch
  | patch (pos : Option ℕ) (arg : ℕ)
  | undefined

def AsmAction.perform : AsmAction → Asm Unit
  | push op args => pushInstruction op args
  | jump dest => pushInstruction .jmp [(dest.map (BitVec.ofNat 64)).getD 0]
  | handler var => pushInstruction .pushTry [BitVec.ofNat 64 var, 0]
  | branch => finishTest
  | patch pos arg => B0rk.patch pos arg
  | undefined => Attempt.undefined

abbrev AsmScript := Script (List Instruction) AsmAction AsmStep

namespace AsmScript

open Script

def push (op : OpCode) (args : List Word) (rest : AsmScript) : AsmScript := act (.push op args) rest

def pushIf (cond : Bool) (op : OpCode) (rest : AsmScript) : AsmScript :=
  if cond then push op [] rest else rest

/-- A part of the code whose behaviour is undefined. -/
def undefined : AsmScript := act .undefined done

/-- `m_code.size() - 1`; `none` for `-1`. -/
def withLast (k : Option ℕ → AsmScript) : AsmScript :=
  look fun code => k (if code.length = 0 then none else some (code.length - 1))

def pushAll : List Instruction → AsmScript → AsmScript
  | [], rest => rest
  | inst :: insts, rest => push inst.op inst.args (pushAll insts rest)

/-- The reference that something is assembled under, if there is one. -/
def reference (place : Place) (scope : Scope) (rest : AsmScript) : AsmScript :=
  match place with
  | .alone _ => rest
  | .under expr => call (.reference expr scope) rest

/-- An expression that is there, or not. -/
def optional (expr : Option Expression) (scope : Scope) (place : Place) (needResult : Bool)
    (rest : AsmScript) : AsmScript :=
  match expr with
  | none => rest
  | some expr => call (.expression expr scope place needResult) rest

/-- An expression that is not checked for `NULL`. -/
def operand (expr : Option Expression) (scope : Scope) (rest : AsmScript) : AsmScript :=
  match expr with
  | none => undefined
  | some expr => call (.expression expr scope (.alone true) true) rest

end AsmScript

/-- What `pushOperation` pushes. -/
def operationCode (operType : OpType) (type : ValueType) : Option (List OpCode) :=
  let operator (opcode : OpCode) : OpCode :=
    match type with
    | .integer => .ofNat (opcode.toNat + 0x10)
    | .double => .ofNat (opcode.toNat + 0x20)
    | _ => opcode
  let compare : OpCode :=
    match type with
    | .integer => .cmpI
    | .double => .cmpD
    | _ => .cmp
  match operType with
  | .add => some [operator .add]
  | .sub => some [operator .sub]
  | .multiply => some [operator .mul]
  | .divide => some [operator .div]
  | .not => some [operator .not]
  | .logicalAnd => some [operator .and]
  | .equals => some [compare, .pushCE]
  | .notEqual => some [compare, .pushCNE]
  | .lessThan => some [compare, .pushCL]
  | .lessThanEqual => some [compare, .pushCLE]
  | .greaterThan => some [compare, .pushCG]
  | .greaterThanEqual => some [compare, .pushCGE]
  | _ => none

section

open Script AsmScript

variable (A : AsmEnv)

/-- `load`. -/
def loadScript (clazz : Word) (var : String) (scope : Scope) : Place → AsmScript
  | .under expr =>
      call (.reference expr scope)
        (push .pushObj [A.newString var] (push .loadFieldNamed [] done))
  | .alone _ =>
      if clazz ≠ 0 then
        match A.chain clazz with
        | none => AsmScript.undefined
        | some chain =>
            match chain.getStaticFieldId var with
            | some id => push .loadStaticField [clazz, BitVec.ofNat 64 id] done
            | none => fail
      else
        match localId A scope var with
        | some id => push .loadVar [BitVec.ofNat 64 id] done
        | none =>
            match A.clazz with
            | none => AsmScript.undefined
            | some (address, chain) =>
                match chain.getFieldId var with
                | some id => push .loadVar [0] (push .loadField [BitVec.ofNat 64 id] done)
                | none =>
                    match chain.getStaticFieldId var with
                    | some id => push .loadStaticField [address, BitVec.ofNat 64 id] done
                    | none => fail

/-- `store`. -/
def storeScript (var : String) (scope : Scope) : Place → AsmScript
  | .under expr =>
      call (.reference expr scope)
        (push .pushObj [A.newString var] (push .storeFieldNamed [] done))
  | .alone _ =>
      match localId A scope var with
      | some id => push .storeVar [BitVec.ofNat 64 id] done
      | none =>
          match A.clazz with
          | none => AsmScript.undefined
          | some (address, chain) =>
              match chain.getFieldId var with
              | some id => push .loadVar [0] (push .storeField [BitVec.ofNat 64 id] done)
              | none =>
                  match chain.getStaticFieldId var with
                  | some id => push .storeStaticField [address, BitVec.ofNat 64 id] done
                  | none => fail

/-- `OP_INCREMENT` and `OP_DECREMENT`. -/
def incrementScript (operType : OpType) (clazz : Word) (var : String) (scope : Scope) (place : Place)
    (needResult : Bool) : AsmScript :=
  match needResult, scope.getVarId A.args var with
  | false, some id =>
      push .incVar [BitVec.ofNat 64 id, if operType = .increment then 1 else -1] done
  | _, _ =>
      call (.load clazz var scope place) <|
      AsmScript.pushIf needResult .dup <|
      push .pushI [1] <|
      AsmScript.pushIf (needResult && operType = .decrement) .swap <|
      push (if operType = .increment then .addI else .subI) [] <|
      call (.store var scope place) done

/-- The end of a call, in front of the `POP`. -/
def callScript (clazz : Word) (function : String) (count : ℕ) (scope : Scope) (place : Place)
    (rest : AsmScript) : AsmScript :=
  if clazz ≠ 0 then
    match A.chain clazz with
    | none => AsmScript.undefined
    | some chain =>
        push .callStatic [(chain.findMethod function).getD 0, BitVec.ofNat 64 count] rest
  else
    match place with
    | .under _ | .alone true =>
        push .pushObj [A.newString function] (push .callNamed [BitVec.ofNat 64 count] rest)
    | .alone false =>
        let variableCall : AsmScript :=
          attempt (.load 0 function scope (.alone false)) none
            (push .callObj [BitVec.ofNat 64 count] rest)
        match scope.getVarId A.args function with
        | some _ => variableCall
        | none =>
            match A.clazz with
            | none => AsmScript.undefined
            | some (_, chain) =>
                if (chain.getFieldId function).isSome then variableCall
                else
                  match chain.findMethod function with
                  | none => fail
                  | some func =>
                      if A.getStatic func then
                        push .callStatic [func, BitVec.ofNat 64 count] rest
                      else push .loadVar [0] (push .call [func, BitVec.ofNat 64 count] rest)

/-- `assembleExpression`. -/
def expressionScript : Expression → Scope → Place → Bool → AsmScript
  | .call _ clazz function parameters, scope, place, needResult =>
      call (.params parameters scope) <|
      AsmScript.reference place scope <|
      callScript A clazz function parameters.length scope place <|
      AsmScript.pushIf (!needResult) .pop done
  | .oper type operType left right, scope, place, needResult =>
      match operType, place, right with
      | .reference, .alone _, none => fail
      | .reference, .alone _, some right =>
          match right.refChild with
          | none => fail
          | some child =>
              call (.expression child scope
                (.under (.oper type .reference left (some right))) needResult) done
      | operType, place, right =>
          AsmScript.optional right scope (.alone (operType = .reference)) true <|
          match operType with
          | .increment | .decrement =>
              match left with
              | none => AsmScript.undefined
              | some left =>
                  match left.asVar with
                  | none => fail
                  | some (clazz, var) =>
                      call (.increment operType clazz var scope place needResult) done
          | .set =>
              AsmScript.pushIf needResult .dup <|
              match left with
              | none => AsmScript.undefined
              | some left => call (.dest left scope place) done
          | .reference => done
          | _ =>
              AsmScript.optional left scope (.alone false) true <|
              match operationCode operType type with
              | some ops => pushAll (ops.map fun op => ⟨op, []⟩) done
              | none => fail
  | .ifExpr test trueBlock falseBlock, scope, _, _ =>
      attempt (.expression test scope (.alone false) true) (some .branch) <|
      withLast fun bneToFalsePos =>
      call (.block trueBlock scope) <|
      match falseBlock with
      | none => act (.patch bneToFalsePos 0) done
      | some falseBlock =>
          act (.jump none) <|
          withLast fun jmpToEndPos =>
          act (.patch bneToFalsePos 0) <|
          call (.block falseBlock scope) <|
          act (.patch jmpToEndPos 0) done
  | .forExpr init test inc body, scope, _, _ =>
      AsmScript.optional init scope (.alone false) false <|
      look fun code =>
      attempt (.expression test scope (.alone false) true) (some .branch) <|
      withLast fun bneToEndPos =>
      call (.block body scope) <|
      AsmScript.optional inc scope (.alone false) false <|
      act (.jump (some code.length)) <|
      act (.patch bneToEndPos 0) done
  | .returnExpr value, scope, _, _ =>
      match value with
      | none => push .pushI [0] (push .ret [] done)
      | some value => call (.expression value scope (.alone false) true) (push .ret [] done)
  | .tryExpr tryBlock exceptionVar catchBlock, scope, _, _ =>
      match Scope.getVarId A.args (catchBlock :: scope) exceptionVar with
      | none => fail
      | some excepVar =>
          act (.handler excepVar) <|
          withLast fun tryCatchPos =>
          call (.block tryBlock scope) <|
          push .popTry [] <|
          act (.jump none) <|
          withLast fun jmpToEndPos =>
          act (.patch tryCatchPos 1) <|
          call (.block catchBlock scope) <|
          act (.patch jmpToEndPos 0) done
  | .throwExpr value, scope, _, _ =>
      call (.expression value scope (.alone false) true) (push .throw [] done)
  | .var _ clazz var, scope, place, _ => call (.load clazz var scope place) done
  | .array _ clazz var index, scope, place, _ =>
      call (.load clazz var scope place) <|
      call (.expression index scope (.alone false) true) (push .loadArray [] done)
  | .new _ clazz parameters, scope, _, _ =>
      let address := A.findClass (String.intercalate "." clazz)
      if address = 0 then fail
      else
        call (.params parameters scope)
          (push .new [address, BitVec.ofNat 64 parameters.length] done)
  | .string _ str, _, _, _ => push .pushObj [A.newString str] done
  | .integer _ i, _, _, _ => push .pushI [i] done
  | .double _ d, _, _, _ => push .pushD [d] done
  | .function _ (some function), _, _, _ => push .newFunction [function.address] done
  | .function _ none, _, _, _ => push .newFunction [0] done

/-- What a function does in turn. -/
def AsmStep.script : AsmStep → AsmScript
  | function code =>
      call (.block code []) (push .pushI [0] (push .ret [] done))
  | block code scope => call (.statements code.code (code :: scope)) done
  | statements [] _ => done
  | statements (expr :: code) scope =>
      call (.expression expr scope (.alone false) false)
        (call (.statements code scope) done)
  | expression expr scope place needResult => expressionScript A expr scope place needResult
  | params [] _ => done
  | params (param :: parameters) scope =>
      call (.expression param scope (.alone false) true)
        (call (.params parameters scope) done)
  | reference (.oper _ .reference left right) scope =>
      AsmScript.operand left scope <|
      match right with
      | none => done
      | some right => call (.reference right scope) done
  | reference _ _ => done
  | dest (.var _ _ var) scope place => call (.store var scope place) done
  | dest (.array _ clazz var index) scope place =>
      call (.load clazz var scope place) <|
      call (.expression index scope (.alone false) true) (push .storeArray [] done)
  | dest (.oper _ .reference left right) scope _ =>
      match (Expression.oper .unknown .reference left right).refChild.bind Expression.asVar with
      | none => AsmScript.undefined
      | some (_, var) =>
          call (.store var scope (.under (.oper .unknown .reference left right))) done
  | dest _ _ _ => fail
  | increment operType clazz var scope place needResult =>
      incrementScript A operType clazz var scope place needResult
  | load clazz var scope place => loadScript A clazz var scope place
  | store var scope place => storeScript A var scope place

end

end B0rk
