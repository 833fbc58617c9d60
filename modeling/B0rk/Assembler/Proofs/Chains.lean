import B0rk.Assembler.Proofs.History

set_option autoImplicit false

/-! # Chains of references

`a.b.c` is the reference of `c` under the reference of `b` under `a`. Whether a call takes its
instance off the stack is decided by its parent, which is a reference for the first part of a chain
too. -/

namespace B0rk

/-! ## Chains -/

/-- The tree of a chain; its links are given from the last one to the first. -/
def chain (head : Expression) : List (ValueType × Expression) → Expression
  | [] => head
  | (type, last) :: links => .oper type .reference (some (chain head links)) (some last)

/-- The assembling of a chain, with that of its head as an argument. -/
def assembleChain (A : AsmEnv) (scope : Scope) (head : Asm Unit) :
    List (ValueType × Expression) → Bool → Asm Unit
  | [], _ => head
  | (_, last) :: links, needResult =>
      let reference : Asm Unit := do
        assembleChain A scope head links true
        assembleReference A last scope
      if last.isReference then assembleRefChild A last scope reference needResult
      else assembleExpression A last scope (some reference) true needResult

section

variable {A : AsmEnv} {scope : Scope} {head : Expression} {code code' : List Instruction}

theorem assembleExpression_reference (A : AsmEnv) (scope : Scope) (type : ValueType)
    (left last : Expression) (inReference needResult : Bool) :
    assembleExpression A (.oper type .reference (some left) (some last)) scope none inReference
        needResult =
      if last.isReference then
        assembleRefChild A last scope (do
          assembleExpression A left scope none true true
          assembleReference A last scope) needResult
      else
        assembleExpression A last scope (some (do
          assembleExpression A left scope none true true
          assembleReference A last scope)) true needResult := by
  simp only [assembleExpression, assembleOperand]

/-- The head of a chain is assembled as if it were the right operand of a reference. -/
theorem assembleExpression_chain (A : AsmEnv) (scope : Scope) (head : Expression)
    {links : List (ValueType × Expression)} (hlinks : links ≠ []) (inReference needResult : Bool) :
    assembleExpression A (chain head links) scope none inReference needResult =
      assembleChain A scope (assembleExpression A head scope none true true) links needResult := by
  induction links generalizing inReference needResult with
  | nil => exact absurd rfl hlinks
  | cons link links ih =>
    obtain ⟨type, last⟩ := link
    have hrest : assembleExpression A (chain head links) scope none true true =
        assembleChain A scope (assembleExpression A head scope none true true) links true := by
      cases links with
      | nil => rfl
      | cons link links => exact ih (List.cons_ne_nil _ _) true true
    rw [chain, assembleExpression_reference, hrest, assembleChain]

/-! ## Calls -/

theorem assembleCall_named (A : AsmEnv) (scope : Scope) (function : String) (count : ℕ)
    (code : List Instruction) :
    assembleCall A scope 0 function count none true code =
      some (some (), code ++
        [⟨.pushObj, [A.newString function]⟩, ⟨.callNamed, [BitVec.ofNat 64 count]⟩]) := by
  show some (some (), code ++ [_] ++ [_]) = _
  rw [List.append_assoc]
  rfl

/-- A call whose parent is not a reference does not end in `CALL_NAMED`. -/
theorem assembleCall_unnamed {function : String} {count : ℕ}
    (h : (assembleCall A scope 0 function count none false).Ok code () code') :
    ∃ insts inst, code' = insts ++ [inst] ∧ inst.op ≠ .callNamed := by
  simp only [assembleCall, ne_eq, not_true_eq_false, if_false, Bool.false_eq_true,
    Attempt.bind_ok] at h
  obtain ⟨isVar, code₁, -, h⟩ := h
  split at h
  · simp only [Attempt.bind_ok, pushInstruction_ok] at h
    obtain ⟨-, code₂, -, rfl⟩ := h
    exact ⟨_, _, rfl, OpCode.noConfusion⟩
  · split at h
    · cases h
    · split at h
      · cases h
      · split at h
        · obtain rfl := pushInstruction_ok.mp h
          exact ⟨_, _, rfl, OpCode.noConfusion⟩
        · simp only [Attempt.bind_ok, pushInstruction_ok] at h
          obtain ⟨-, _, -, rfl⟩ := h
          exact ⟨_, _, rfl, OpCode.noConfusion⟩

theorem assembleCall_ne (A : AsmEnv) (scope : Scope) (function : String) (count : ℕ)
    (code : List Instruction) :
    assembleCall A scope 0 function count none true code ≠
      assembleCall A scope 0 function count none false code := by
  intro heq
  rw [assembleCall_named] at heq
  obtain ⟨insts, inst, hcode, hop⟩ := assembleCall_unnamed heq.symm
  have hlast := congrArg List.getLast? hcode
  rw [List.getLast?_append, List.getLast?_concat] at hlast
  obtain rfl := Option.some.inj hlast
  exact hop rfl

/-- An unqualified call whose arguments can be assembled. -/
def UnqualifiedCall (A : AsmEnv) (scope : Scope) (head : Expression) (code : List Instruction) :
    Prop :=
  ∃ type function parameters code', head = .call type 0 function parameters ∧
    (assembleParams A parameters scope).Ok code () code'

theorem assembleExpression_call (A : AsmEnv) (scope : Scope) (type : ValueType) (clazz : Word)
    (function : String) (parameters : List Expression) (inReference : Bool) :
    assembleExpression A (.call type clazz function parameters) scope none inReference true =
      (do assembleParams A parameters scope
          assembleCall A scope clazz function parameters.length none inReference) := by
  simp [assembleExpression, pushIf]

/-- Only an unqualified call looks at its parent. -/
theorem assembleExpression_parent (hcall : ∀ type function parameters,
      head ≠ .call type 0 function parameters) :
    assembleExpression A head scope none true true =
      assembleExpression A head scope none false true := by
  cases head with
  | call type clazz function parameters =>
    have hclazz : clazz ≠ 0 := fun h => hcall type function parameters (by rw [h])
    rw [assembleExpression_call, assembleExpression_call]
    unfold assembleCall
    rw [if_pos hclazz, if_pos hclazz]
  | oper type operType left right =>
    rw [assembleExpression.eq_def, assembleExpression.eq_def A _ scope none false true]
  | ifExpr test trueBlock falseBlock => rw [assembleExpression, assembleExpression]
  | forExpr init test inc body => rw [assembleExpression, assembleExpression]
  | returnExpr value => cases value <;> rw [assembleExpression, assembleExpression]
  | tryExpr tryBlock var catchBlock => rw [assembleExpression, assembleExpression]
  | throwExpr value => rw [assembleExpression, assembleExpression]
  | var type clazz var => rw [assembleExpression, assembleExpression]
  | array type clazz var index => rw [assembleExpression, assembleExpression]
  | new type clazz parameters => rw [assembleExpression, assembleExpression]
  | string type str => rw [assembleExpression, assembleExpression]
  | integer type i => rw [assembleExpression, assembleExpression]
  | double type d => rw [assembleExpression, assembleExpression]
  | function type function => cases function <;> rw [assembleExpression, assembleExpression]

/-- **The head of a chain.** It is assembled under a parent that is a reference; that comes to what
    it is assembled to as an operand of its own exactly if it is not an unqualified call (whose
    arguments can be assembled). -/
theorem chain_head_iff (A : AsmEnv) (scope : Scope) (head : Expression)
    {links : List (ValueType × Expression)} (hlinks : links ≠ []) (inReference needResult : Bool) :
    assembleExpression A (chain head links) scope none inReference needResult =
        assembleChain A scope (assembleExpression A head scope none true true) links needResult ∧
      ∀ code, assembleExpression A head scope none true true code =
          assembleExpression A head scope none false true code ↔
        ¬UnqualifiedCall A scope head code := by
  refine ⟨assembleExpression_chain A scope head hlinks inReference needResult, fun code => ?_⟩
  constructor
  · rintro heq ⟨type, function, parameters, code', rfl, hparams⟩
    rw [assembleExpression_call, assembleExpression_call, hparams.run, hparams.run] at heq
    exact assembleCall_ne A scope function parameters.length code' heq
  · intro hhead
    by_cases hcall : ∃ type function parameters, head = .call type 0 function parameters
    · obtain ⟨type, function, parameters, rfl⟩ := hcall
      rw [assembleExpression_call, assembleExpression_call, Attempt.bind_run, Attempt.bind_run]
      rcases hparams : assembleParams A parameters scope code with _ | ⟨_ | u, code'⟩
      · simp only [Option.bind_none]
      · simp only [Option.bind_some, Option.elim_none]
      · exact absurd ⟨type, function, parameters, code', rfl, hparams⟩ hhead
    · rw [assembleExpression_parent fun type function parameters h =>
        hcall ⟨type, function, parameters, h⟩]

end

/-! ## A chain that begins with a call -/

/-- A method of a class that has a method `f` at the address 9. -/
def oneMethodEnv : AsmEnv :=
  { emptyEnv with
    clazz := some (1, [plainClass "Caller" [("f", 9)]])
    newString := fun name => if name = "f" then 16 else 32 }

/-- `this.g` begins with what `this` is assembled to. -/
theorem chain_head_this :
    (assembleExpression oneMethodEnv (chain (.var .unknown 0 "this")
        [(.unknown, .var .unknown 0 "g")]) [] none false true =
      assembleChain oneMethodEnv [] (assembleExpression oneMethodEnv (.var .unknown 0 "this") []
        none true true) [(.unknown, .var .unknown 0 "g")] true) ∧
    assembleExpression oneMethodEnv (.var .unknown 0 "this") [] none true true [] =
      assembleExpression oneMethodEnv (.var .unknown 0 "this") [] none false true [] := by
  obtain ⟨hchain, hhead⟩ := chain_head_iff oneMethodEnv [] (.var .unknown 0 "this")
    (List.cons_ne_nil (ValueType.unknown, Expression.var .unknown 0 "g") []) false true
  refine ⟨hchain, (hhead []).mpr ?_⟩
  rintro ⟨type, function, parameters, code', heq, -⟩
  cases heq

/-- `f()` calls a method of the instance; in `f().g` it calls one of what is on the stack. -/
theorem chain_head_call :
    (assembleExpression oneMethodEnv (.call .unknown 0 "f" []) [] none false true).Ok [] ()
        [⟨.loadVar, [0]⟩, ⟨.call, [9, 0]⟩] ∧
      (assembleExpression oneMethodEnv (chain (.call .unknown 0 "f" [])
        [(.unknown, .var .unknown 0 "g")]) [] none false true).Ok [] ()
        [⟨.pushObj, [16]⟩, ⟨.callNamed, [0]⟩, ⟨.pushObj, [32]⟩, ⟨.loadFieldNamed, []⟩] ∧
      assembleExpression oneMethodEnv (.call .unknown 0 "f" []) [] none true true [] ≠
        assembleExpression oneMethodEnv (.call .unknown 0 "f" []) [] none false true [] := by
  refine ⟨rfl, rfl, fun heq => ?_⟩
  have hcode : some (some (), [⟨.pushObj, [16]⟩, ⟨.callNamed, [0]⟩]) =
      some (some (), [(⟨.loadVar, [0]⟩ : Instruction), ⟨.call, [9, 0]⟩]) := heq
  cases hcode

end B0rk
