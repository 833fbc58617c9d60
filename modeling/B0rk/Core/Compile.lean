import B0rk.Core.Syntax
import B0rk.OpCode

set_option autoImplicit false

/-! # Code of the integer core

The instructions of the integer core as a function of the syntax, with jumps to known places instead
of back-patching. -/

namespace B0rk

/-- The operand for the slot of a variable. -/
def slotArg (names : List (List String)) (name : String) : Word :=
  BitVec.ofNat 64 ((Scopes.slot names name).getD 0)

/-- The comparing instruction. -/
def cmpCode (typed : Bool) : Instruction := ⟨if typed then .cmpI else .cmp, []⟩

namespace CoreOp

/-- The instructions of an operator, behind its operands. -/
def code (typed : Bool) : CoreOp → List Instruction
  | add => [⟨if typed then .addI else .add, []⟩]
  | sub => [⟨if typed then .subI else .sub, []⟩]
  | multiply => [⟨if typed then .mulI else .mul, []⟩]
  | logicalAnd => [⟨if typed then .andI else .and, []⟩]
  | equals => [cmpCode typed, ⟨.pushCE, []⟩]
  | notEqual => [cmpCode typed, ⟨.pushCNE, []⟩]
  | lessThan => [cmpCode typed, ⟨.pushCL, []⟩]
  | lessThanEqual => [cmpCode typed, ⟨.pushCLE, []⟩]
  | greaterThan => [cmpCode typed, ⟨.pushCG, []⟩]
  | greaterThanEqual => [cmpCode typed, ⟨.pushCGE, []⟩]

/-- The branch that a comparison is collapsed with in a test, to where the test fails. -/
def fused : CoreOp → Option OpCode
  | equals => some .bNE
  | lessThan => some .bGE
  | lessThanEqual => some .bG
  | _ => none

end CoreOp

namespace CoreExpr

def code (names : List (List String)) : CoreExpr → List Instruction
  | integer _ i => [⟨.pushI, [i]⟩]
  | var _ name => [⟨.loadVar, [slotArg names name]⟩]
  | oper typed op left right => right.code names ++ left.code names ++ op.code typed
  | not typed right => right.code names ++ [⟨if typed then .notI else .not, []⟩]
  | increment _ decrement _ name =>
      [⟨.loadVar, [slotArg names name]⟩, ⟨.dup, []⟩, ⟨.pushI, [1]⟩] ++
        (if decrement then [⟨.swap, []⟩, ⟨.subI, []⟩] else [⟨.addI, []⟩]) ++
        [⟨.storeVar, [slotArg names name]⟩]

/-- A test, up to its branch, and the opcode of the branch. -/
def test (names : List (List String)) (e : CoreExpr) : List Instruction × OpCode :=
  match e with
  | oper typed op left right =>
      match op.fused with
      | some branch => (right.code names ++ left.code names ++ [cmpCode typed], branch)
      | none => (e.code names ++ [⟨.pushI, [0]⟩, ⟨.cmpI, []⟩], .bEq)
  | _ => (e.code names ++ [⟨.pushI, [0]⟩, ⟨.cmpI, []⟩], .bEq)

/-- A test that goes to `target` if it fails. -/
def testCode (names : List (List String)) (e : CoreExpr) (target : ℕ) : List Instruction :=
  (e.test names).1 ++ [⟨(e.test names).2, [BitVec.ofNat 64 target]⟩]

def testLength (names : List (List String)) (e : CoreExpr) : ℕ := (e.test names).1.length + 1

end CoreExpr

namespace CoreSimple

def code (names : List (List String)) : CoreSimple → List Instruction
  | set _ _ name value => value.code names ++ [⟨.storeVar, [slotArg names name]⟩]
  | increment _ decrement _ name =>
      [⟨.incVar, [slotArg names name, if decrement then -1 else 1]⟩]

def codeOption (names : List (List String)) (statement : Option CoreSimple) :
    List Instruction :=
  match statement with
  | none => []
  | some statement => statement.code names

end CoreSimple

namespace CoreCode

/-- The code of statements that starts at `base`. -/
def code (names : List (List String)) : CoreCode → ℕ → List Instruction
  | done, _ => []
  | simple statement rest, base =>
      statement.code names ++ rest.code names (base + (statement.code names).length)
  | ifThen test vars body rest, base =>
      let bodyBase := base + test.testLength names
      let body := body.code (vars :: names) bodyBase
      let stop := bodyBase + body.length
      test.testCode names stop ++ body ++ rest.code names stop
  | ifElse test vars body vars' body' rest, base =>
      let bodyBase := base + test.testLength names
      let body := body.code (vars :: names) bodyBase
      let elseBase := bodyBase + body.length + 1
      let body' := body'.code (vars' :: names) elseBase
      let stop := elseBase + body'.length
      test.testCode names elseBase ++ body ++ [⟨.jmp, [BitVec.ofNat 64 stop]⟩] ++ body' ++
        rest.code names stop
  | loop init test inc vars body rest, base =>
      let init := CoreSimple.codeOption names init
      let top := base + init.length
      let bodyBase := top + test.testLength names
      let body := body.code (vars :: names) bodyBase
      let inc := CoreSimple.codeOption names inc
      let stop := bodyBase + body.length + inc.length + 1
      init ++ test.testCode names stop ++ body ++ inc ++ [⟨.jmp, [BitVec.ofNat 64 top]⟩] ++
        rest.code names stop
  | ret none rest, base =>
      [⟨.pushI, [0]⟩, ⟨.ret, []⟩] ++ rest.code names (base + 2)
  | ret (some value) rest, base =>
      value.code names ++ [⟨.ret, []⟩] ++
        rest.code names (base + (value.code names).length + 1)

end CoreCode

/-- The names of the blocks of a function at the start of its body. -/
def CoreFunction.names (f : CoreFunction) : List (List String) := [f.vars, f.params]

/-- The code of a function. -/
def CoreFunction.code' (f : CoreFunction) : List Instruction :=
  f.code.code f.names 0 ++ [⟨.pushI, [0]⟩, ⟨.ret, []⟩]

theorem CoreExpr.testCode_length (names : List (List String)) (e : CoreExpr) (target : ℕ) :
    (e.testCode names target).length = e.testLength names := by
  simp [CoreExpr.testCode, CoreExpr.testLength]

end B0rk
