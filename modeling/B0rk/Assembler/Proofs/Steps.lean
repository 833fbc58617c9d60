import B0rk.Assembler.Steps

set_option autoImplicit false

/-! # The scripts are what the assembling functions do -/

namespace B0rk

open Script

variable (A : AsmEnv)

/-- What the assembling functions that a script calls do, and the script itself. -/
abbrev AsmScript.interp (script : AsmScript) : Asm Unit :=
  Script.interp AsmAction.perform (AsmStep.run A) script

/-! ## Parts of scripts -/

section

variable {A} (rest : AsmScript)

@[simp] theorem interp_done : AsmScript.interp A .done = pure () := rfl

@[simp] theorem interp_fail : AsmScript.interp A .fail = Attempt.fail := rfl

@[simp] theorem interp_act (e : AsmAction) :
    AsmScript.interp A (.act e rest) = e.perform >>= fun _ => AsmScript.interp A rest := rfl

@[simp] theorem interp_call (c : AsmStep) :
    AsmScript.interp A (.call c rest) = c.run A >>= fun _ => AsmScript.interp A rest := rfl

@[simp] theorem interp_push (op : OpCode) (args : List Word) :
    AsmScript.interp A (.push op args rest) =
      pushInstruction op args >>= fun _ => AsmScript.interp A rest := rfl

@[simp] theorem interp_undefined : AsmScript.interp A .undefined = Attempt.undefined := rfl

@[simp] theorem interp_pushIf (cond : Bool) (op : OpCode) :
    AsmScript.interp A (.pushIf cond op rest) =
      pushIf cond op >>= fun _ => AsmScript.interp A rest := by
  cases cond <;> rfl

@[simp] theorem interp_withLast (k : Option ℕ → AsmScript) :
    AsmScript.interp A (.withLast k) = lastPos >>= fun pos => AsmScript.interp A (k pos) := rfl

@[simp] theorem interp_look (k : List Instruction → AsmScript) :
    AsmScript.interp A (.look k) = Attempt.read id >>= fun code => AsmScript.interp A (k code) := rfl

@[simp] theorem interp_reference (place : Place) (scope : Scope) :
    AsmScript.interp A (.reference place scope rest) =
      (place.reference A scope).getD (pure ()) >>= fun _ => AsmScript.interp A rest := by
  cases place <;> rfl

@[simp] theorem interp_optional (expr : Option Expression) (scope : Scope) (place : Place)
    (needResult : Bool) :
    AsmScript.interp A (.optional expr scope place needResult rest) =
      (match expr with
      | none => pure ()
      | some expr => assembleExpression A expr scope (place.reference A scope) place.inReference
          needResult) >>= fun _ => AsmScript.interp A rest := by
  cases expr <;> rfl

theorem interp_optional_statement (expr : Option Expression) (scope : Scope) :
    AsmScript.interp A (.optional expr scope (.alone false) false rest) =
      assembleOptional A expr scope >>= fun _ => AsmScript.interp A rest := by
  cases expr with
  | none => rw [assembleOptional]; rfl
  | some expr => rw [assembleOptional]; rfl

@[simp] theorem interp_operand (expr : Option Expression) (scope : Scope) :
    AsmScript.interp A (.operand expr scope rest) =
      assembleOperand A expr scope true >>= fun _ => AsmScript.interp A rest := by
  cases expr with
  | none => rw [assembleOperand]; rfl
  | some expr => rw [assembleOperand]; rfl

/-- A test, whose result is not checked. -/
theorem interp_attempt_test (test : Expression) (scope : Scope) :
    AsmScript.interp A (.attempt (.expression test scope (.alone false) true) (some .branch) rest) =
      Attempt.orNull (do
        assembleExpression A test scope none false true
        finishTest) >>= fun _ => AsmScript.interp A rest := rfl

theorem interp_attempt_load (clazz : Word) (var : String) (scope : Scope) :
    AsmScript.interp A (.attempt (.load clazz var scope (.alone false)) none rest) =
      Attempt.orNull (load A scope clazz var none) >>= fun _ => AsmScript.interp A rest := by
  show Attempt.orNull (load A scope clazz var none >>= fun _ => pure ()) >>= _ = _
  rw [bind_pure]

end

/-! ## Variables -/

theorem load_script (clazz : Word) (var : String) (scope : Scope) (place : Place) :
    load A scope clazz var (place.reference A scope) =
      AsmScript.interp A (loadScript A clazz var scope place) := by
  cases place with
  | under expr => simp [load, loadScript, Place.reference, AsmStep.run]
  | alone inReference =>
    unfold load loadScript Place.reference
    by_cases hclazz : clazz ≠ 0
    · simp only [if_pos hclazz]
      rcases A.chain clazz with _ | chain
      · rfl
      · dsimp only
        cases chain.getStaticFieldId var <;> simp
    · simp only [if_neg hclazz]
      cases localId A scope var with
      | some id => simp
      | none =>
        rcases A.clazz with _ | ⟨address, chain⟩
        · rfl
        · dsimp only
          cases chain.getFieldId var with
          | some id => simp
          | none =>
            dsimp only
            cases chain.getStaticFieldId var <;> simp

theorem store_script (var : String) (scope : Scope) (place : Place) :
    store A scope var (place.reference A scope) =
      AsmScript.interp A (storeScript A var scope place) := by
  cases place with
  | under expr => simp [store, storeScript, Place.reference, AsmStep.run]
  | alone inReference =>
    unfold store storeScript Place.reference
    cases localId A scope var with
    | some id => simp
    | none =>
      rcases A.clazz with _ | ⟨address, chain⟩
      · rfl
      · dsimp only
        cases chain.getFieldId var with
        | some id => simp
        | none =>
          dsimp only
          cases chain.getStaticFieldId var <;> simp

theorem assembleIncrement_script (operType : OpType) (clazz : Word) (var : String) (scope : Scope)
    (place : Place) (needResult : Bool) :
    assembleIncrement A scope operType clazz var (place.reference A scope) needResult =
      AsmScript.interp A (incrementScript A operType clazz var scope place needResult) := by
  unfold assembleIncrement incrementScript
  cases needResult with
  | true => simp [AsmStep.run]
  | false => cases scope.getVarId A.args var <;> simp [AsmStep.run]

/-! ## Calls -/

theorem assembleCall_script (clazz : Word) (function : String) (count : ℕ) (scope : Scope)
    (place : Place) (rest : AsmScript) :
    (assembleCall A scope clazz function count (place.reference A scope) place.inReference >>=
      fun _ => AsmScript.interp A rest) =
      AsmScript.interp A (callScript A clazz function count scope place rest) := by
  unfold assembleCall callScript
  by_cases hclazz : clazz ≠ 0
  · simp only [if_pos hclazz]
    cases A.chain clazz <;> rfl
  · simp only [if_neg hclazz]
    cases place with
    | under reference => simp [Place.inReference]
    | alone reference =>
      cases reference with
      | true => simp [Place.inReference]
      | false =>
        unfold isVariable
        simp only [Place.inReference, Place.reference, Bool.false_eq_true, if_false]
        cases scope.getVarId A.args function with
        | some id => simp [interp_attempt_load]
        | none =>
          rcases A.clazz with _ | ⟨address, chain⟩
          · rfl
          · dsimp only
            rw [pure_bind]
            by_cases hfield : (chain.getFieldId function).isSome
            · simp [hfield, interp_attempt_load]
            · simp only [if_neg hfield]
              cases chain.findMethod function with
              | none => rfl
              | some func =>
                dsimp only
                cases A.getStatic func <;> simp

theorem pushOperation_script (operType : OpType) (type : ValueType) :
    pushOperation operType type =
      AsmScript.interp A (match operationCode operType type with
        | some ops => .pushAll (ops.map fun op => ⟨op, []⟩) .done
        | none => .fail) := by
  cases operType <;> cases type <;> rfl

/-! ## Expressions -/

theorem refChild_of_not_reference {expr : Expression} (h : expr.isReference = false) :
    expr.refChild = some expr := by
  unfold Expression.refChild
  split
  · cases h
  · cases h
  · rfl

/-- The nearest child that is no reference, from a right operand that is one. -/
theorem assembleRefChild_eq (scope : Scope) (reference : Asm Unit) (needResult : Bool) :
    ∀ right : Expression, right.isReference = true →
      assembleRefChild A right scope reference needResult =
        match right.refChild with
        | some child => assembleExpression A child scope (some reference) true needResult
        | none => Attempt.fail
  | .oper _ .reference _ none, _ => rfl
  | .oper _ .reference _ (some right), _ => by
      rw [assembleRefChild, Expression.refChild]
      cases hright : right.isReference with
      | true =>
        rw [if_pos rfl]
        exact assembleRefChild_eq scope reference needResult right hright
      | false =>
        rw [if_neg Bool.false_ne_true, refChild_of_not_reference hright]

theorem assembleReference_self (type : ValueType) (left : Option Expression) (right : Expression)
    (scope : Scope) : assembleReference A (.oper type .reference left (some right)) scope = (do
      assembleOperand A left scope true
      assembleReference A right scope) := by
  rw [assembleReference]

/-- What is behind the right operand of an operation. -/
def operTail (type : ValueType) (operType : OpType) (left : Option Expression) (scope : Scope)
    (reference : Option (Asm Unit)) (needResult : Bool) : Asm Unit :=
  match operType with
  | .increment | .decrement =>
      match left with
      | none => Attempt.undefined
      | some left =>
          match left.asVar with
          | none => Attempt.fail
          | some (clazz, var) =>
              assembleIncrement A scope operType clazz var reference needResult
  | .set => do
      pushIf needResult .dup
      match left with
      | none => Attempt.undefined
      | some left => assembleDest A left scope reference
  | .reference => pure ()
  | _ => do
      (match left with
      | none => pure ()
      | some left => assembleExpression A left scope none false true)
      pushOperation operType type

theorem assembleExpression_oper {operType : OpType} {reference : Option (Asm Unit)}
    (h : operType = .reference → reference ≠ none) (type : ValueType)
    (left right : Option Expression) (scope : Scope) (inReference needResult : Bool) :
    assembleExpression A (.oper type operType left right) scope reference inReference needResult =
      (match right with
      | none => pure ()
      | some right => assembleExpression A right scope none (operType = .reference) true) >>= fun _ =>
        operTail A type operType left scope reference needResult := by
  rw [assembleExpression.eq_def]
  dsimp only
  split
  · exact absurd rfl (h rfl)
  · exact absurd rfl (h rfl)
  · rfl

theorem operTail_other (type : ValueType) {operType : OpType} (left : Option Expression)
    (scope : Scope) (reference : Option (Asm Unit)) (needResult : Bool)
    (h : operType ∉ [OpType.increment, .decrement, .set, .reference]) :
    operTail A type operType left scope reference needResult =
      AsmScript.interp A (.optional left scope (.alone false) true
        (match operationCode operType type with
        | some ops => .pushAll (ops.map fun op => ⟨op, []⟩) .done
        | none => .fail)) := by
  rw [interp_optional, ← pushOperation_script]
  cases operType <;> first | rfl | exact absurd (by decide) h

/-- What is behind the right operand of an operation, in turn. -/
def operTailScript (type : ValueType) (operType : OpType) (left : Option Expression) (scope : Scope)
    (place : Place) (needResult : Bool) : AsmScript :=
  match operType with
  | .increment | .decrement =>
      match left with
      | none => .undefined
      | some left =>
          match left.asVar with
          | none => .fail
          | some (clazz, var) =>
              .call (.increment operType clazz var scope place needResult) .done
  | .set =>
      .pushIf needResult .dup
      (match left with
      | none => .undefined
      | some left => .call (.dest left scope place) .done)
  | .reference => .done
  | _ =>
      .optional left scope (.alone false) true
      (match operationCode operType type with
      | some ops => .pushAll (ops.map fun op => ⟨op, []⟩) .done
      | none => .fail)

theorem expressionScript_oper {operType : OpType} {place : Place}
    (h : operType = .reference → ∃ reference, place = .under reference) (type : ValueType)
    (left right : Option Expression) (scope : Scope) (needResult : Bool) :
    expressionScript A (.oper type operType left right) scope place needResult =
      .optional right scope (.alone (operType = .reference)) true
        (operTailScript type operType left scope place needResult) := by
  rw [expressionScript.eq_def]
  dsimp only
  split
  · obtain ⟨reference, hreference⟩ := h rfl
    cases hreference
  · obtain ⟨reference, hreference⟩ := h rfl
    cases hreference
  · rfl

theorem operTail_script (type : ValueType) (operType : OpType) (left : Option Expression)
    (scope : Scope) (place : Place) (needResult : Bool) :
    operTail A type operType left scope (place.reference A scope) needResult =
      AsmScript.interp A (operTailScript type operType left scope place needResult) := by
  have hincrement (op : OpType) : (match left with
      | none => Attempt.undefined
      | some left =>
          match left.asVar with
          | none => Attempt.fail
          | some (clazz, var) =>
              assembleIncrement A scope op clazz var (place.reference A scope) needResult) =
      AsmScript.interp A (match left with
      | none => .undefined
      | some left =>
          match left.asVar with
          | none => .fail
          | some (clazz, var) => .call (.increment op clazz var scope place needResult) .done) := by
    cases left with
    | none => rfl
    | some left =>
      dsimp only
      rcases left.asVar with _ | ⟨clazz, var⟩
      · rfl
      · simp [AsmStep.run]
  cases operType with
  | increment => exact hincrement .increment
  | decrement => exact hincrement .decrement
  | set =>
    unfold operTail operTailScript
    rw [interp_pushIf]
    cases left with
    | none => rfl
    | some left => simp [AsmStep.run]
  | reference => rfl
  | _ => exact operTail_other A type left scope _ needResult (by decide)

theorem assembleExpression_script (expr : Expression) (scope : Scope) (place : Place)
    (needResult : Bool) :
    (AsmStep.expression expr scope place needResult).run A =
      AsmScript.interp A (expressionScript A expr scope place needResult) := by
  show assembleExpression A expr scope (place.reference A scope) place.inReference needResult = _
  cases expr with
  | call type clazz function parameters =>
    rw [assembleExpression, expressionScript, interp_call, interp_reference, ← assembleCall_script,
      interp_pushIf, interp_done]
    simp [AsmStep.run]
  | oper type operType left right =>
    by_cases h : operType = .reference → ∃ reference, place = .under reference
    · rw [expressionScript_oper A h, assembleExpression_oper A ?_, operTail_script,
        interp_optional]
      · rfl
      · intro hop
        obtain ⟨reference, rfl⟩ := h hop
        rintro ⟨⟩
    · obtain ⟨rfl, hplace⟩ := Classical.not_imp.mp h
      cases place with
      | under reference => exact absurd ⟨reference, rfl⟩ hplace
      | alone inReference =>
        cases right with
        | none => simp [assembleExpression, expressionScript, Place.reference]
        | some right =>
          rw [Place.reference, assembleExpression, expressionScript, ← assembleReference_self A type]
          cases hright : right.isReference with
          | true =>
            rw [if_pos rfl, assembleRefChild_eq A scope _ needResult right hright]
            cases right.refChild with
            | none => rfl
            | some child => simp [AsmStep.run, Place.reference, Place.inReference]
          | false =>
            rw [if_neg Bool.false_ne_true, refChild_of_not_reference hright]
            simp [AsmStep.run, Place.reference, Place.inReference]
  | ifExpr test trueBlock falseBlock =>
    rw [assembleExpression, expressionScript, interp_attempt_test, interp_withLast]
    cases falseBlock with
    | none => simp [AsmStep.run, AsmAction.perform]
    | some falseBlock => simp [AsmStep.run, AsmAction.perform]
  | forExpr init test inc body =>
    rw [assembleExpression, expressionScript, interp_optional_statement, interp_look]
    simp only [interp_attempt_test, interp_withLast, interp_call, interp_optional_statement,
      interp_act, interp_done, bind_pure_unit]
    rfl
  | returnExpr value =>
    cases value with
    | none => simp [assembleExpression, expressionScript]
    | some value =>
      simp [assembleExpression, expressionScript, AsmStep.run, Place.reference, Place.inReference]
  | tryExpr tryBlock exceptionVar catchBlock =>
    rw [assembleExpression, expressionScript]
    cases Scope.getVarId A.args (catchBlock :: scope) exceptionVar with
    | none => rfl
    | some excepVar => simp [AsmStep.run, AsmAction.perform]
  | throwExpr value =>
    rw [assembleExpression, expressionScript]
    simp [AsmStep.run, Place.reference, Place.inReference]
  | var type clazz var =>
    rw [assembleExpression, expressionScript]
    simp [AsmStep.run]
  | array type clazz var index =>
    rw [assembleExpression, expressionScript]
    simp [AsmStep.run, Place.reference, Place.inReference]
  | new type clazz parameters =>
    rw [assembleExpression, expressionScript]
    by_cases haddress : A.findClass (String.intercalate "." clazz) = 0
    · simp only [if_pos haddress, interp_fail]
    · simp only [if_neg haddress, interp_call, interp_push, interp_done, AsmStep.run,
        bind_pure_unit]
  | string type str => simp [assembleExpression, expressionScript]
  | integer type i => simp [assembleExpression, expressionScript]
  | double type d => simp [assembleExpression, expressionScript]
  | function type function =>
    cases function <;> simp [assembleExpression, expressionScript]

/-! ## The other functions -/

theorem assembleDest_script (left : Expression) (scope : Scope) (place : Place) :
    assembleDest A left scope (place.reference A scope) =
      AsmScript.interp A ((AsmStep.dest left scope place).script A) := by
  cases left with
  | var type clazz var => simp [assembleDest, AsmStep.script, AsmStep.run]
  | array type clazz var index =>
    simp [assembleDest, AsmStep.script, AsmStep.run, Place.reference, Place.inReference]
  | oper type operType left right =>
    rw [assembleDest.eq_def, AsmStep.script.eq_def]
    cases operType with
    | reference =>
      dsimp only
      rcases (Expression.oper .unknown .reference left right).refChild.bind Expression.asVar with
        _ | ⟨clazz, var⟩
      · rfl
      · cases right <;> simp [AsmStep.run, Place.reference, assembleReference]
    | _ => rfl
  | _ => simp [assembleDest, AsmStep.script]

/-- Each script is what its function does. -/
theorem AsmStep.run_eq (step : AsmStep) : step.run A = AsmScript.interp A (step.script A) := by
  cases step with
  | function code => simp [AsmStep.script, run, assembleFunction]
  | block code scope =>
    obtain ⟨linked, start, max, vars, code⟩ := code
    simp [AsmStep.script, run, assembleBlock, CodeBlock.code]
  | statements code scope =>
    cases code with
    | nil => simp [AsmStep.script, run, assembleStatements]
    | cons expr code =>
      simp [AsmStep.script, run, assembleStatements, Place.reference, Place.inReference]
  | expression expr scope place needResult =>
    exact assembleExpression_script A expr scope place needResult
  | params parameters scope =>
    cases parameters with
    | nil => simp [AsmStep.script, run, assembleParams]
    | cons param parameters =>
      simp [AsmStep.script, run, assembleParams, Place.reference, Place.inReference]
  | reference expr scope =>
    cases expr with
    | oper type operType left right =>
      by_cases hop : operType = .reference
      · subst hop
        cases right <;> simp [AsmStep.script, run, assembleReference]
      · simp [AsmStep.script, run, assembleReference, hop]
    | _ => simp [AsmStep.script, run, assembleReference]
  | dest left scope place => exact assembleDest_script A left scope place
  | increment operType clazz var scope place needResult =>
    exact assembleIncrement_script A operType clazz var scope place needResult
  | load clazz var scope place => exact load_script A clazz var scope place
  | store var scope place => exact store_script A var scope place

end B0rk
