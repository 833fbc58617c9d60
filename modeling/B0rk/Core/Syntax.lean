import B0rk.CodeBlock
import B0rk.Lib.Scopes

set_option autoImplicit false

/-! # The integer core

Function bodies of integer arithmetic over local variables, with `if`, `while` and `return`, as a
syntax of their own with a direct evaluation, and as the trees that the parser builds for them. Types
of values that say nothing about the code are arbitrary; those of operations are unknown or integer. -/

namespace B0rk

/-- The binary operators. -/
inductive CoreOp
  | add | sub | multiply | logicalAnd | equals | notEqual | lessThan | lessThanEqual
  | greaterThan | greaterThanEqual
  deriving DecidableEq

/-- Expressions. `increment` is `x++`, or `x--`. -/
inductive CoreExpr
  | integer (type : ValueType) (i : Word)
  | var (type : ValueType) (name : String)
  | oper (typed : Bool) (op : CoreOp) (left right : CoreExpr)
  | not (typed : Bool) (right : CoreExpr)
  | increment (type : ValueType) (decrement : Bool) (varType : ValueType) (name : String)

/-- An assignment, or `x++` or `x--` as a statement. -/
inductive CoreSimple
  | set (type varType : ValueType) (name : String) (value : CoreExpr)
  | increment (type : ValueType) (decrement : Bool) (varType : ValueType) (name : String)

/-- Statements, each with those behind it. A block is the list of its variables with its statements;
    `while` is a loop without `init` and `inc`. -/
inductive CoreCode
  | done
  | simple (statement : CoreSimple) (rest : CoreCode)
  | ifThen (test : CoreExpr) (vars : List String) (body : CoreCode) (rest : CoreCode)
  | ifElse (test : CoreExpr) (vars : List String) (body : CoreCode) (vars' : List String)
      (body' : CoreCode) (rest : CoreCode)
  | loop (init : Option CoreSimple) (test : CoreExpr) (inc : Option CoreSimple)
      (vars : List String) (body : CoreCode) (rest : CoreCode)
  | ret (value : Option CoreExpr) (rest : CoreCode)

/-- A function of the integer core. -/
structure CoreFunction where
  params : List String
  vars : List String
  code : CoreCode

/-! ## The trees of the parser -/

namespace CoreOp

def operType : CoreOp → OpType
  | add => .add
  | sub => .sub
  | multiply => .multiply
  | logicalAnd => .logicalAnd
  | equals => .equals
  | notEqual => .notEqual
  | lessThan => .lessThan
  | lessThanEqual => .lessThanEqual
  | greaterThan => .greaterThan
  | greaterThanEqual => .greaterThanEqual

end CoreOp

/-- The type of an operation on integers. -/
def operationType (typed : Bool) : ValueType := if typed then .integer else .unknown

/-- `x++` or `x--`. -/
def incrementExpression (type : ValueType) (decrement : Bool) (varType : ValueType)
    (name : String) : Expression :=
  .oper type (if decrement then .decrement else .increment) (some (.var varType 0 name)) none

def CoreExpr.expression : CoreExpr → Expression
  | integer type i => .integer type i
  | var type name => .var type 0 name
  | oper typed op left right =>
      .oper (operationType typed) op.operType (some left.expression) (some right.expression)
  | not typed right => .oper (operationType typed) .not none (some right.expression)
  | increment type decrement varType name => incrementExpression type decrement varType name

def CoreSimple.expression : CoreSimple → Expression
  | set type varType name value =>
      .oper type .set (some (.var varType 0 name)) (some value.expression)
  | increment type decrement varType name => incrementExpression type decrement varType name

def CoreCode.statements : CoreCode → List Expression
  | done => []
  | simple statement rest => statement.expression :: rest.statements
  | ifThen test vars body rest =>
      .ifExpr test.expression (.mk true 0 0 vars body.statements) none :: rest.statements
  | ifElse test vars body vars' body' rest =>
      .ifExpr test.expression (.mk true 0 0 vars body.statements)
        (some (.mk true 0 0 vars' body'.statements)) :: rest.statements
  | loop init test inc vars body rest =>
      .forExpr (init.map CoreSimple.expression) test.expression (inc.map CoreSimple.expression)
        (.mk true 0 0 vars body.statements) :: rest.statements
  | ret value rest => .returnExpr (value.map CoreExpr.expression) :: rest.statements

/-- The body as `parseFunction` leaves it, with its slots numbered. -/
def CoreFunction.body (f : CoreFunction) : CodeBlock :=
  (CodeBlock.mk false 0 0 f.vars f.code.statements).setStartingVarId (f.params.length + 1)

/-! ## Direct evaluation -/

def ofBool (b : Bool) : Word := if b then 1 else 0

/-- Comparisons go by the sign of the difference `right - left`. -/
def CoreOp.eval (op : CoreOp) (left right : Word) : Word :=
  match op with
  | add => left + right
  | sub => left - right
  | multiply => left * right
  | logicalAnd => ofBool (decide (left ≠ 0) && decide (right ≠ 0))
  | equals => ofBool (decide (right - left = 0))
  | notEqual => ofBool (decide (right - left ≠ 0))
  | lessThan => ofBool ((0#64).slt (right - left))
  | lessThanEqual => ofBool ((0#64).sle (right - left))
  | greaterThan => ofBool ((right - left).slt 0)
  | greaterThanEqual => ofBool ((right - left).sle 0)

def incremented (decrement : Bool) (i : Word) : Word := if decrement then i - 1 else i + 1

/-- The value of an expression, and the variables after it; operands go from right to left. `none`
    for reading a variable that is not assigned. -/
def CoreExpr.eval : CoreExpr → Scopes Word → Option (Word × Scopes Word)
  | integer _ i, env => some (i, env)
  | var _ name, env => do
      let v ← env.get name
      some (v, env)
  | oper _ op left right, env => do
      let (r, env) ← right.eval env
      let (l, env) ← left.eval env
      some (op.eval l r, env)
  | not _ right, env => do
      let (r, env) ← right.eval env
      some (ofBool (decide (r = 0)), env)
  | increment _ decrement _ name, env => do
      let v ← env.get name
      let env ← env.set name (incremented decrement v)
      some (v, env)

/-- The variables after an assignment or an increment. -/
def CoreSimple.exec : CoreSimple → Scopes Word → Option (Scopes Word)
  | set _ _ name value, env => do
      let (v, env) ← value.eval env
      env.set name v
  | increment _ decrement _ name, env => do
      let v ← env.get name
      env.set name (incremented decrement v)

/-- The `init` or `inc` of a loop. -/
def CoreSimple.execOption (statement : Option CoreSimple) (env : Scopes Word) :
    Option (Scopes Word) :=
  match statement with
  | none => some env
  | some statement => statement.exec env

/-- How statements end. -/
inductive CoreOutcome
  | normal (env : Scopes Word)
  | returned (v : Word)
  | stuck
  | timeout

/-- Going on behind a block. -/
def CoreOutcome.andThen (o : CoreOutcome) (next : Scopes Word → CoreOutcome) : CoreOutcome :=
  match o with
  | normal env => next env.tail
  | o => o

/-- The rounds of a loop, as many as there is fuel. -/
def coreLoop (test : Scopes Word → Option (Word × Scopes Word))
    (body : Scopes Word → CoreOutcome) (inc : Scopes Word → Option (Scopes Word)) :
    ℕ → Scopes Word → CoreOutcome
  | 0, _ => .timeout
  | fuel + 1, env =>
      match test env with
      | none => .stuck
      | some (v, env) =>
          if v = 0 then .normal env
          else
            (body env).andThen (fun env =>
              match inc env with
              | none => .stuck
              | some env => coreLoop test body inc fuel env)

/-- Statements. The fuel bounds the rounds of each loop. -/
def CoreCode.exec (fuel : ℕ) : CoreCode → Scopes Word → CoreOutcome
  | done, env => .normal env
  | simple statement rest, env =>
      match statement.exec env with
      | none => .stuck
      | some env => rest.exec fuel env
  | ifThen test vars body rest, env =>
      match test.eval env with
      | none => .stuck
      | some (v, env) =>
          if v = 0 then rest.exec fuel env
          else (body.exec fuel (env.enter vars)).andThen (rest.exec fuel)
  | ifElse test vars body vars' body' rest, env =>
      match test.eval env with
      | none => .stuck
      | some (v, env) =>
          if v = 0 then (body'.exec fuel (env.enter vars')).andThen (rest.exec fuel)
          else (body.exec fuel (env.enter vars)).andThen (rest.exec fuel)
  | loop init test inc vars body rest, env =>
      match CoreSimple.execOption init env with
      | none => .stuck
      | some env =>
          match coreLoop test.eval (fun env => body.exec fuel (env.enter vars))
              (CoreSimple.execOption inc) fuel env with
          | .normal env => rest.exec fuel env
          | o => o
  | ret none _, _ => .returned 0
  | ret (some value) _, env =>
      match value.eval env with
      | none => .stuck
      | some (v, _) => .returned v

/-- The variables on entry. -/
def CoreFunction.initial (f : CoreFunction) (argv : List Word) : Scopes Word :=
  Scopes.enter f.vars [f.params.zip (argv.map some)]

/-- The function returns `v`; falling off the end returns 0. -/
def CoreFunction.Returns (f : CoreFunction) (argv : List Word) (v : Word) : Prop :=
  ∃ fuel, f.code.exec fuel (f.initial argv) = .returned v ∨
    v = 0 ∧ ∃ env, f.code.exec fuel (f.initial argv) = .normal env

/-! ## Assignment before use -/

/-- Every variable that the expression reads is assigned. -/
def CoreExpr.check (D : Scopes Unit) : CoreExpr → Bool
  | integer _ _ => true
  | var _ name => (D.get name).isSome
  | oper _ _ left right => right.check D && left.check D
  | not _ right => right.check D
  | increment _ _ _ name => (D.get name).isSome

/-- What is assigned after an assignment or an increment. -/
def CoreSimple.check : CoreSimple → Scopes Unit → Option (Scopes Unit)
  | set _ _ name value, D => if value.check D then D.set name () else none
  | increment _ _ _ name, D => if (D.get name).isSome then some D else none

def CoreSimple.checkOption (statement : Option CoreSimple) (D : Scopes Unit) :
    Option (Scopes Unit) :=
  match statement with
  | none => some D
  | some statement => statement.check D

/-- On every path through the statements each variable is assigned before it is read; the result is
    what is assigned behind them. Behind a `return` there is no path. -/
def CoreCode.check : CoreCode → Scopes Unit → Option (Scopes Unit)
  | done, D => some D
  | simple statement rest, D => do
      let D ← statement.check D
      rest.check D
  | ifThen test vars body rest, D =>
      if test.check D && (body.check (D.enter vars)).isSome then rest.check D else none
  | ifElse test vars body vars' body' rest, D =>
      if test.check D then do
        let C ← body.check (D.enter vars)
        let C' ← body'.check (D.enter vars')
        rest.check (Scopes.meet C.tail C'.tail)
      else none
  | loop init test inc vars body rest, D => do
      let D ← CoreSimple.checkOption init D
      if test.check D then do
        let C ← body.check (D.enter vars)
        let _ ← CoreSimple.checkOption inc C.tail
        rest.check D
      else none
  | ret none rest, D => rest.check D.full
  | ret (some value) rest, D => if value.check D then rest.check D.full else none

/-- Every local is assigned on every path before it is read; the parameters are from the start. -/
def CoreFunction.AssignedBeforeRead (f : CoreFunction) : Prop :=
  (f.code.check (Scopes.enter f.vars [f.params.map (fun x => (x, some ()))])).isSome

/-- No block declares a name. -/
def CoreCode.avoids (name : String) : CoreCode → Bool
  | done => true
  | simple _ rest | ret _ rest => rest.avoids name
  | ifThen _ vars body rest | loop _ _ _ vars body rest =>
      decide (name ∉ vars) && body.avoids name && rest.avoids name
  | ifElse _ vars body vars' body' rest =>
      decide (name ∉ vars) && body.avoids name && (decide (name ∉ vars') && body'.avoids name) &&
        rest.avoids name

/-- No parameter and no local variable has the name. -/
def CoreFunction.avoids (name : String) (f : CoreFunction) : Bool :=
  decide (name ∉ f.params) && decide (name ∉ f.vars) && f.code.avoids name

/-! ## Pending operands -/

/-- The most operands that an expression has on the stack. -/
def CoreExpr.depth : CoreExpr → ℕ
  | integer _ _ => 1
  | var _ _ => 1
  | oper _ _ left right => max right.depth (left.depth + 1)
  | not _ right => right.depth
  | increment _ _ _ _ => 3

def CoreSimple.depth : CoreSimple → ℕ
  | set _ _ _ value => value.depth
  | increment _ _ _ _ => 0

def CoreSimple.depthOption (statement : Option CoreSimple) : ℕ :=
  match statement with
  | none => 0
  | some statement => statement.depth

/-- The most operands that statements have on the stack. A test is compared with a constant. -/
def CoreCode.depth : CoreCode → ℕ
  | done => 0
  | simple statement rest => max statement.depth rest.depth
  | ifThen test _ body rest => max (max test.depth 2) (max body.depth rest.depth)
  | ifElse test _ body _ body' rest =>
      max (max test.depth 2) (max (max body.depth body'.depth) rest.depth)
  | loop init test inc _ body rest =>
      max (max (CoreSimple.depthOption init) (CoreSimple.depthOption inc))
        (max (max test.depth 2) (max body.depth rest.depth))
  | ret none rest => max 1 rest.depth
  | ret (some value) rest => max value.depth rest.depth

def CoreFunction.depth (f : CoreFunction) : ℕ := max 1 f.code.depth

end B0rk
