import B0rk.Executor.Proofs.Typed
import B0rk.Parser.Proofs.Types

set_option autoImplicit false

/-! # The operands of typed operations

Which values the operands of an operation can have, and under which tags its instruction reads them.
An operation on two integers, or on two doubles, has a result of that type, but for a comparison, whose
result is an integer whatever is compared. -/

namespace B0rk

variable {W : Type} {nodes : ℕ → ExprNode}

/-! ## The values of expressions -/

/-- The values that the code of an expression can leave on the stack. Nothing is known of variables,
    calls and elements of arrays. The right operand of an operation is assembled first. -/
inductive Produces (E : Env W) (exec : Execute W) (nodes : ℕ → ExprNode) (types : ℕ → ValueType) :
    ℕ → Value → Prop
  | integer {p : ℕ} {i : Word} (h : (nodes p).kind = .integer i) :
      Produces E exec nodes types p (Value.integer i)
  | double {p : ℕ} {d : Word} (h : (nodes p).kind = .double d) :
      Produces E exec nodes types p (Value.double d)
  | object {p : ℕ} (o : Word) (h : (nodes p).kind = .object) :
      Produces E exec nodes types p (Value.object o)
  | var {p : ℕ} {slot : VarSlot} (v : Value) (h : (nodes p).kind = .var slot) :
      Produces E exec nodes types p v
  | computed {p : ℕ} (v : Value) (h : (nodes p).kind = .computed) :
      Produces E exec nodes types p v
  | crement {p l : ℕ} {op : OpType} (v : Value) (hop : op = .increment ∨ op = .decrement)
      (h : (nodes p).kind = .oper op (some l) none) : Produces E exec nodes types p v
  | pass {p r : ℕ} {op : OpType} {l : Option ℕ} {v : Value} (hop : op = .set ∨ op = .reference)
      (h : (nodes p).kind = .oper op l (some r)) (hr : Produces E exec nodes types r v) :
      Produces E exec nodes types p v
  | unary {p r : ℕ} {op : OpType} {rv v : Value} {opcodes : OpCode × Option OpCode}
      {ctx ctx' : Context W} {frame frame' : Frame} {rest : List Value}
      (h : (nodes p).kind = .oper op none (some r)) (hr : Produces E exec nodes types r rv)
      (hcode : operationOpcodes op (types p) = some opcodes)
      (hrun : runOperation E exec opcodes (ctx.push rv) frame = some (true, ctx', frame'))
      (hv : ctx'.stack = v :: rest) : Produces E exec nodes types p v
  | binary {p l r : ℕ} {op : OpType} {lv rv v : Value} {opcodes : OpCode × Option OpCode}
      {ctx ctx' : Context W} {frame frame' : Frame} {rest : List Value}
      (h : (nodes p).kind = .oper op (some l) (some r)) (hl : Produces E exec nodes types l lv)
      (hr : Produces E exec nodes types r rv)
      (hcode : operationOpcodes op (types p) = some opcodes)
      (hrun : runOperation E exec opcodes ((ctx.push rv).push lv) frame = some (true, ctx', frame'))
      (hv : ctx'.stack = v :: rest) : Produces E exec nodes types p v

/-- The result of a comparison, as it is or handed on by assignments and references. -/
inductive Condition (nodes : ℕ → ExprNode) : ℕ → Prop
  | compare {p : ℕ} {op : OpType} {l r : Option ℕ} (hop : (comparisonOpcode op).isSome)
      (h : (nodes p).kind = .oper op l r) : Condition nodes p
  | pass {p r : ℕ} {op : OpType} {l : Option ℕ} (hop : op = .set ∨ op = .reference)
      (h : (nodes p).kind = .oper op l (some r)) (hr : Condition nodes r) : Condition nodes p

/-! ## The results of typed instructions -/

/-- The result that an opcode function leaves on the stack has the given tag. -/
def LeavesType (f : OpFunc W) (type : ValueType) : Prop :=
  ∀ args ctx frame ctx' frame' v rest, f args ctx frame = some (true, ctx', frame') →
    ctx'.stack = v :: rest → v.type = type

theorem leavesType_invalid (type : ValueType) : LeavesType (W := W) opcodeInvalid type := by
  intro args ctx frame ctx' frame' v rest h
  cases h

theorem leavesType_typedArithmetic (type : ValueType) (op : Word → Word → Option Word) :
    LeavesType (W := W) (typedArithmetic type op) type := by
  intro args ctx frame ctx' frame' v rest h hv
  simp only [typedArithmetic, Option.bind_eq_bind, Option.bind_eq_some_iff] at h
  obtain ⟨⟨v₁, ctx₁⟩, -, ⟨v₂, ctx₂⟩, -, r, -, h⟩ := h
  cases h
  obtain ⟨rfl, -⟩ := List.cons.inj hv
  rfl

theorem leavesType_and : LeavesType (W := W) opcodeAnd .integer := by
  intro args ctx frame ctx' frame' v rest h hv
  simp only [opcodeAnd, Option.bind_eq_bind, Option.bind_eq_some_iff] at h
  obtain ⟨⟨v₁, ctx₁⟩, -, ⟨v₂, ctx₂⟩, -, h⟩ := h
  cases h
  obtain ⟨rfl, -⟩ := List.cons.inj hv
  rfl

theorem leavesType_not : LeavesType (W := W) opcodeNot .integer := by
  intro args ctx frame ctx' frame' v rest h hv
  simp only [opcodeNot, Option.bind_eq_bind, Option.bind_eq_some_iff] at h
  obtain ⟨⟨v₁, ctx₁⟩, -, h⟩ := h
  cases h
  obtain ⟨rfl, -⟩ := List.cons.inj hv
  rfl

theorem leavesType_pushCondition (cond : Flags → Bool) :
    LeavesType (W := W) (pushCondition cond) .integer := by
  intro args ctx frame ctx' frame' v rest h hv
  cases h
  obtain ⟨rfl, -⟩ := List.cons.inj hv
  rfl

/-- The tag of an arithmetic result is the type of the operation. -/
theorem leavesType_arithmetic (E : Env W) (exec : Execute W) {op : OpType} {opcode : OpCode}
    {type : ValueType} (htype : type = .integer ∨ type = .double)
    (hop : arithmeticOpcode op = some opcode) :
    LeavesType (opcodeTable E exec (operatorOpcode opcode type)) type := by
  rcases htype with rfl | rfl
  · cases op <;> cases hop
    · exact leavesType_and
    · exact leavesType_typedArithmetic .integer (fun a b => some (a + b))
    · exact leavesType_typedArithmetic .integer (fun a b => some (a - b))
    · exact leavesType_typedArithmetic .integer (fun a b => some (a * b))
    · exact leavesType_typedArithmetic .integer sdiv?
    · exact leavesType_not
  · cases op <;> cases hop
    · exact leavesType_invalid _
    · exact leavesType_typedArithmetic .double (fun a b => some (E.double.add a b))
    · exact leavesType_typedArithmetic .double (fun a b => some (E.double.sub a b))
    · exact leavesType_typedArithmetic .double (fun a b => some (E.double.mul a b))
    · exact leavesType_typedArithmetic .double (fun a b => some (E.double.div a b))
    · exact leavesType_invalid _

theorem leavesType_comparison (E : Env W) (exec : Execute W) {op : OpType} {push : OpCode}
    (hop : comparisonOpcode op = some push) : LeavesType (opcodeTable E exec push) .integer := by
  cases op <;> cases hop
  · exact leavesType_pushCondition (fun f => f.zero)
  · exact leavesType_pushCondition (fun f => !f.zero)
  · exact leavesType_pushCondition (fun f => f.sign != f.overflow)
  · exact leavesType_pushCondition (fun f => f.zero || f.sign != f.overflow)
  · exact leavesType_pushCondition (fun f => !f.zero && f.sign == f.overflow)
  · exact leavesType_pushCondition (fun f => f.sign == f.overflow)

theorem operation_result_type (E : Env W) (exec : Execute W) {op : OpType} {type : ValueType}
    {opcodes : OpCode × Option OpCode} {ctx ctx' : Context W} {frame frame' : Frame} {v : Value}
    {rest : List Value} (htype : type = .integer ∨ type = .double)
    (hcode : operationOpcodes op type = some opcodes)
    (hrun : runOperation E exec opcodes ctx frame = some (true, ctx', frame'))
    (hv : ctx'.stack = v :: rest) :
    v.type = if (comparisonOpcode op).isSome then .integer else type := by
  unfold operationOpcodes at hcode
  unfold runOperation at hrun
  obtain ⟨⟨res, ctx₁, frame₁⟩, h₁, hrun⟩ := Option.bind_eq_some_iff.1 hrun
  split at hcode
  · next opcode hop =>
    cases hcode
    cases hrun
    have hnot : comparisonOpcode op = none := by
      cases op <;> first | rfl | cases hop
    rw [hnot]
    exact leavesType_arithmetic E exec htype hop _ _ _ _ _ _ _ h₁ hv
  · obtain ⟨push, hpush, rfl⟩ := Option.map_eq_some_iff.1 hcode
    rw [hpush]
    cases res with
    | true => exact leavesType_comparison E exec hpush _ _ _ _ _ _ _ hrun hv
    | false => cases hrun

/-! ## Typed operations -/

/-- The operation `p` is assembled to instructions for integers or doubles. What is assigned to is not
    assembled as an operation. -/
structure Emits (nodes : ℕ → ExprNode) (types : ℕ → ValueType) (p : ℕ) (op : OpType)
    (left right : Option ℕ) (opcodes : OpCode × Option OpCode) : Prop where
  kind : (nodes p).kind = .oper op left right
  target : ¬AssignTarget nodes p
  typed : types p = .integer ∨ types p = .double
  opcodes : operationOpcodes op (types p) = some opcodes

/-- The operands of such an operation have its type. -/
structure TypedOperands (nodes : ℕ → ExprNode) (types : ℕ → ValueType) (p l r : ℕ) : Prop where
  left_type : types l = types p
  right_type : types r = types p
  left_target : ¬AssignTarget nodes l
  right_target : ¬AssignTarget nodes r

/-- Only an increment or a decrement lacks its right operand. -/
theorem ExprTree.unary (htree : ExprTree nodes) {p l : ℕ} {op : OpType}
    (hkind : (nodes p).kind = .oper op (some l) none) : op = .increment ∨ op = .decrement := by
  obtain ⟨desc, hdesc, rfl, -, -, hright⟩ := htree.shape p _ _ _ hkind
  have hunary : ∀ desc ∈ opTable, desc.hasRightExpr = false →
      desc.oper = .increment ∨ desc.oper = .decrement := by decide
  refine hunary desc hdesc ?_
  by_contra hyes
  cases hright rfl (by simpa using hyes)

/-- The other operations with two operands are assembled to instructions. -/
theorem ExprTree.operationOpcodes (htree : ExprTree nodes) {p r : ℕ} {op : OpType} {l : Option ℕ}
    (hkind : (nodes p).kind = .oper op l (some r)) (hset : op ≠ .set) (href : op ≠ .reference)
    (type : ValueType) : ∃ opcodes, operationOpcodes op type = some opcodes := by
  obtain ⟨desc, hdesc, rfl, -, hright, -⟩ := htree.shape p _ _ _ hkind
  have hbinary : ∀ desc ∈ opTable, desc.hasRightExpr = true → desc.oper ≠ .set →
      desc.oper ≠ .reference → (B0rk.operationOpcodes desc.oper .unknown).isSome := by decide
  have hsome := hbinary desc hdesc (hright rfl) hset href
  revert hsome
  cases desc.oper <;> intro hsome <;> first | exact ⟨_, rfl⟩ | cases hsome

theorem Emits.operands (htree : ExprTree nodes) {s : TypeState} (hinv : TypesInv nodes s) {p : ℕ}
    {op : OpType} {left right : Option ℕ} {opcodes : OpCode × Option OpCode}
    (h : Emits nodes s.valueType p op left right opcodes) :
    ∃ l r, left = some l ∧ right = some r ∧ TypedOperands nodes s.valueType p l r := by
  have hop : op ≠ .set := by
    rintro rfl
    cases h.opcodes
  rcases (justified_oper h.kind).1 (hinv p h.target) with hp | ⟨l, rfl, rfl, hl⟩ | ⟨r, rfl, hr, hset⟩
  · rcases h.typed with hp' | hp' <;> cases hp.symm.trans hp'
  · have hcode := h.opcodes
    rcases htree.unary h.kind with rfl | rfl <;> cases hcode
  · rcases hset with rfl | ⟨l, rfl, hl⟩
    · exact absurd rfl hop
    · exact ⟨l, r, rfl, rfl, hl, hr, htree.not_assignTarget h.kind hop (.left h.kind),
        htree.right_not_assignTarget h.kind⟩

theorem Condition.pass_iff {p r : ℕ} {op : OpType} {l : Option ℕ} (hop : op = .set ∨ op = .reference)
    (hkind : (nodes p).kind = .oper op l (some r)) : Condition nodes p ↔ Condition nodes r := by
  constructor
  · intro h
    cases h with
    | compare hcmp hkind' =>
      rw [hkind] at hkind'
      cases hkind'
      rcases hop with rfl | rfl <;> cases hcmp
    | pass _ hkind' hr =>
      rw [hkind] at hkind'
      cases hkind'
      exact hr
  · exact .pass hop hkind

theorem Condition.operation_iff {p : ℕ} {op : OpType} {l r : Option ℕ} {type : ValueType}
    {opcodes : OpCode × Option OpCode} (hkind : (nodes p).kind = .oper op l r)
    (hcode : operationOpcodes op type = some opcodes) :
    Condition nodes p ↔ (comparisonOpcode op).isSome := by
  constructor
  · intro h
    cases h with
    | compare hcmp hkind' =>
      rw [hkind] at hkind'
      cases hkind'
      exact hcmp
    | pass hop hkind' _ =>
      rw [hkind] at hkind'
      cases hkind'
      rcases hop with rfl | rfl <;> cases hcode
  · exact fun hcmp => .compare hcmp hkind

/-- A literal is no condition. -/
theorem Condition.kind {p : ℕ} (h : Condition nodes p) :
    ∃ op l r, (nodes p).kind = .oper op l r := by
  cases h with
  | compare _ hkind => exact ⟨_, _, _, hkind⟩
  | pass _ hkind _ => exact ⟨_, _, _, hkind⟩

/-- A typed expression that is no operation is a literal of its type. -/
theorem TypesInv.leaf {s : TypeState} (hinv : TypesInv nodes s) {p : ℕ} {kind : ExprKind}
    (htarget : ¬AssignTarget nodes p) (hkind : (nodes p).kind = kind)
    (hne : ∀ op l r, kind ≠ .oper op l r) :
    ¬Condition nodes p ∧ FreshType kind (s.valueType p) := by
  refine ⟨fun hcond => ?_, ?_⟩
  · obtain ⟨op, l, r, hoper⟩ := hcond.kind
    exact hne op l r (hkind.symm.trans hoper)
  · have hjust := hinv p htarget
    unfold Justified at hjust
    cases kind with
    | oper op l r => exact absurd rfl (hne op l r)
    | _ =>
      rw [hkind] at hjust
      exact hjust

/-- **What typed expressions produce**: values of their type, or integers if they are conditions. -/
theorem Produces.type (htree : ExprTree nodes) {s : TypeState} (hinv : TypesInv nodes s) {E : Env W}
    {exec : Execute W} {p : ℕ} {v : Value} (h : Produces E exec nodes s.valueType p v)
    (htarget : ¬AssignTarget nodes p)
    (htyped : s.valueType p = .integer ∨ s.valueType p = .double) :
    (Condition nodes p ∧ v.type = .integer) ∨ (¬Condition nodes p ∧ v.type = s.valueType p) := by
  induction h with
  | integer hkind =>
    obtain ⟨hcond, hfresh⟩ := hinv.leaf htarget hkind nofun
    rcases hfresh with hp | hp
    · exact .inr ⟨hcond, hp.symm⟩
    · rcases htyped with hp' | hp' <;> cases hp.symm.trans hp'
  | double hkind =>
    obtain ⟨hcond, hfresh⟩ := hinv.leaf htarget hkind nofun
    rcases hfresh with hp | hp
    · exact .inr ⟨hcond, hp.symm⟩
    · rcases htyped with hp' | hp' <;> cases hp.symm.trans hp'
  | object o hkind =>
    have hp := (hinv.leaf htarget hkind nofun).2
    rcases htyped with hp' | hp' <;> cases hp.symm.trans hp'
  | var v hkind =>
    have hp := (hinv.leaf htarget hkind nofun).2
    rcases htyped with hp' | hp' <;> cases hp.symm.trans hp'
  | computed v hkind =>
    have hp := (hinv.leaf htarget hkind nofun).2
    rcases htyped with hp' | hp' <;> cases hp.symm.trans hp'
  | @crement p l op v hop hkind =>
    -- the operand is a variable or an array, which has no type
    have hset : op ≠ .set := by rcases hop with rfl | rfl <;> nofun
    have hl := htree.not_assignTarget hkind hset (.left hkind)
    rcases (justified_oper hkind).1 (hinv p htarget) with hp | ⟨l', hl', -, heq⟩ | ⟨r, hr, -⟩
    · rcases htyped with hp' | hp' <;> cases hp.symm.trans hp'
    · obtain rfl := Option.some.inj hl'
      have hunknown : s.valueType l = .unknown := by
        rcases htree.crement p op l hop hkind with ⟨slot, hvar⟩ | hcomp
        · exact (hinv.leaf hl hvar nofun).2
        · exact (hinv.leaf hl hcomp nofun).2
      have hp := heq.symm.trans hunknown
      rcases htyped with hp' | hp' <;> cases hp.symm.trans hp'
    · cases hr
  | @pass p r op l v hop hkind _ ih =>
    have htarget' := htree.right_not_assignTarget hkind
    rcases (justified_oper hkind).1 (hinv p htarget) with hp | ⟨_, _, hnone, _⟩ | ⟨r', hr', heq, -⟩
    · rcases htyped with hp' | hp' <;> cases hp.symm.trans hp'
    · cases hnone
    · obtain rfl := Option.some.inj hr'
      rw [Condition.pass_iff hop hkind, ← heq]
      exact ih htarget' (heq ▸ htyped)
  | @unary p r op rv v opcodes ctx ctx' frame frame' rest hkind _ hcode hrun hv _ =>
    obtain ⟨l, _, hnone, -⟩ := Emits.operands htree hinv ⟨hkind, htarget, htyped, hcode⟩
    cases hnone
  | @binary p l r op lv rv v opcodes ctx ctx' frame frame' rest hkind _ _ hcode hrun hv _ _ =>
    have hresult := operation_result_type E exec htyped hcode hrun hv
    rw [Condition.operation_iff hkind hcode]
    cases hcmp : (comparisonOpcode op).isSome with
    | true =>
      rw [hcmp] at hresult
      exact .inl ⟨rfl, hresult⟩
    | false =>
      rw [hcmp] at hresult
      exact .inr ⟨nofun, hresult⟩

/-! ## Sound operations -/

/-- Every typed instruction exists, and it finds its operands under the tag that it takes for
    granted. -/
def OperandsTagged (E : Env W) (exec : Execute W) (nodes : ℕ → ExprNode) (types : ℕ → ValueType) :
    Prop :=
  ∀ p op left right opcodes, Emits nodes types p op left right opcodes →
    opcodes.1.implemented = true ∧ ∃ l r, left = some l ∧ right = some r ∧
      ∀ lv rv, Produces E exec nodes types l lv → Produces E exec nodes types r rv →
        lv.type = types p ∧ rv.type = types p

/-- Every typed instruction exists, and on all operands that it can get it does what the instruction
    for any type does. -/
def SameEffects (E : Env W) (exec : Execute W) (nodes : ℕ → ExprNode) (types : ℕ → ValueType) :
    Prop :=
  ∀ p op left right opcodes, Emits nodes types p op left right opcodes →
    opcodes.1.implemented = true ∧ ∃ l r, left = some l ∧ right = some r ∧
      ∀ lv rv, Produces E exec nodes types l lv → Produces E exec nodes types r rv →
        ∀ generic, operationOpcodes op .unknown = some generic → ∀ (ctx : Context W) frame,
          opcodeTable E exec opcodes.1 [] ((ctx.push rv).push lv) frame =
            opcodeTable E exec generic.1 [] ((ctx.push rv).push lv) frame

/-- No operation on doubles is `&&`, and none has a condition for an operand. -/
def PlainDoubles (nodes : ℕ → ExprNode) (types : ℕ → ValueType) : Prop :=
  ∀ p op left right opcodes, Emits nodes types p op left right opcodes → types p = .double →
    op ≠ .logicalAnd ∧ ∀ q, Operand nodes p q → ¬Condition nodes q

theorem Emits.implemented_iff {types : ℕ → ValueType} {p : ℕ} {op : OpType} {l r : ℕ}
    {opcodes : OpCode × Option OpCode} (htree : ExprTree nodes)
    (h : Emits nodes types p op (some l) (some r) opcodes) :
    opcodes.1.implemented = true ↔ (types p = .double → op ≠ .logicalAnd) := by
  have hnot : op ≠ .not := by
    rintro rfl
    obtain ⟨desc, hdesc, hoper, hleft, -⟩ := htree.shape p _ _ _ h.kind
    have hunary : ∀ desc ∈ opTable, desc.oper = .not → desc.hasLeftExpr = false := by decide
    cases (hunary desc hdesc hoper).symm.trans (hleft rfl)
  have hcode := h.opcodes
  rcases h.typed with htype | htype <;> rw [htype] at hcode ⊢ <;>
    cases op <;> cases hcode <;> first | exact absurd rfl hnot | decide

/-- Under the condition the operands have the tags that their types say. -/
theorem PlainDoubles.operandsTagged (htree : ExprTree nodes) {s : TypeState}
    (hinv : TypesInv nodes s) (E : Env W) (exec : Execute W) (h : PlainDoubles nodes s.valueType) :
    OperandsTagged E exec nodes s.valueType := by
  intro p op left right opcodes hemits
  obtain ⟨l, r, rfl, rfl, hops⟩ := hemits.operands htree hinv
  refine ⟨(hemits.implemented_iff htree).2 fun hdouble => (h p _ _ _ _ hemits hdouble).1, l, r, rfl, rfl,
    fun lv rv hlv hrv => ?_⟩
  have htag : ∀ q v, Operand nodes p q → s.valueType q = s.valueType p → ¬AssignTarget nodes q →
      Produces E exec nodes s.valueType q v → v.type = s.valueType p := by
    intro q v hq htype htarget hv
    rcases hv.type htree hinv htarget (htype ▸ hemits.typed) with ⟨hcond, hint⟩ | ⟨-, heq⟩
    · rcases hemits.typed with hp | hp
      · exact hint.trans hp.symm
      · exact absurd hcond ((h p _ _ _ _ hemits hp).2 q hq)
    · exact heq.trans htype
  exact ⟨htag l lv (.left hemits.kind) hops.left_type hops.left_target hlv,
    htag r rv (.right hemits.kind) hops.right_type hops.right_target hrv⟩

theorem OperandsTagged.sameEffects {E : Env W} {exec : Execute W} {types : ℕ → ValueType}
    (h : OperandsTagged E exec nodes types) : SameEffects E exec nodes types := by
  intro p op left right opcodes hemits
  obtain ⟨himpl, l, r, hl, hr, htags⟩ := h p op left right opcodes hemits
  refine ⟨himpl, l, r, hl, hr, fun lv rv hlv hrv generic hgeneric ctx frame => ?_⟩
  obtain ⟨hlv, hrv⟩ := htags lv rv hlv hrv
  exact operation_sameEffect E exec hemits.typed hemits.opcodes hgeneric himpl hlv hrv ctx frame

/-- An instruction for doubles always leaves a result. -/
theorem runOperation_double (E : Env W) (exec : Execute W) {op : OpType}
    {opcodes : OpCode × Option OpCode} (hcode : operationOpcodes op .double = some opcodes)
    (himpl : opcodes.1.implemented = true) (ctx : Context W) (frame : Frame) (lv rv : Value) :
    ∃ ctx' frame' v rest,
      runOperation E exec opcodes ((ctx.push rv).push lv) frame = some (true, ctx', frame') ∧
        ctx'.stack = v :: rest := by
  cases op <;> cases hcode <;> first | exact ⟨_, _, _, _, rfl, rfl⟩ | cases himpl

/-- Some context and some frame: what a typed instruction does does not depend on them. -/
def emptyContext [Inhabited W] : Context W := ⟨[], false, Value.zero, default⟩

def emptyFrame : Frame := ⟨0, ⟨0, 0, fun _ => none⟩, true, 0, ⟨false, false, false⟩, [], []⟩

/-- While the instructions find what they expect, every expression of doubles produces something. -/
theorem OperandsTagged.produces [Inhabited W] (htree : ExprTree nodes) {s : TypeState}
    (hinv : TypesInv nodes s) {E : Env W} {exec : Execute W}
    (h : OperandsTagged E exec nodes s.valueType) (p : ℕ) (htarget : ¬AssignTarget nodes p)
    (hdouble : s.valueType p = .double) : ∃ v, Produces E exec nodes s.valueType p v := by
  obtain ⟨rank, hrank⟩ := htree.rank
  induction hn : rank p using Nat.strongRecOn generalizing p with
  | _ n ih =>
    subst hn
    cases hkind : (nodes p).kind with
    | integer i => exact ⟨_, .integer hkind⟩
    | double d => exact ⟨_, .double hkind⟩
    | object => exact ⟨_, .object 0 hkind⟩
    | var slot => exact ⟨_, .var Value.zero hkind⟩
    | computed => exact ⟨_, .computed Value.zero hkind⟩
    | oper op left right =>
      rcases (justified_oper hkind).1 (hinv p htarget) with hp | ⟨l, rfl, rfl, -⟩ | ⟨r, rfl, hr, hset⟩
      · cases hp.symm.trans hdouble
      · exact ⟨_, .crement Value.zero (htree.unary hkind) hkind⟩
      · have hright := htree.right_not_assignTarget hkind
        obtain ⟨rv, hrv⟩ := ih (rank r) (hrank p r (.right hkind)) r hright (hr.trans hdouble) rfl
        by_cases hpass : op = .set ∨ op = .reference
        · exact ⟨rv, .pass hpass hkind hrv⟩
        · rw [not_or] at hpass
          obtain ⟨l, rfl, hl⟩ := hset.resolve_left hpass.1
          have hleft := htree.not_assignTarget hkind hpass.1 (.left hkind)
          obtain ⟨lv, hlv⟩ := ih (rank l) (hrank p l (.left hkind)) l hleft (hl.trans hdouble) rfl
          obtain ⟨opcodes, hcode⟩ := htree.operationOpcodes hkind hpass.1 hpass.2 (s.valueType p)
          obtain ⟨himpl, -⟩ := h p op _ _ opcodes ⟨hkind, htarget, .inr hdouble, hcode⟩
          obtain ⟨ctx', frame', v, rest, hrun, hv⟩ :=
            runOperation_double E exec (hdouble ▸ hcode) himpl emptyContext emptyFrame lv rv
          exact ⟨v, .binary hkind hlv hrv hcode hrun hv⟩

/-- **Static types.** After `resolveTypes` the typed instructions find their operands as they expect
    them if, and only if, no operation on doubles is `&&` or has a condition for an operand; and then
    they do what the instructions for any type do. -/
theorem resolveTypes_operations [Inhabited W] (htree : ExprTree nodes) {expressions : List ℕ}
    (hnodup : expressions.Nodup) {s s' : TypeState} (hfresh : Fresh nodes s)
    (hresolve : resolveTypes nodes expressions s = some s') (E : Env W) (exec : Execute W) :
    (OperandsTagged E exec nodes s'.valueType ↔ PlainDoubles nodes s'.valueType) ∧
      (PlainDoubles nodes s'.valueType → SameEffects E exec nodes s'.valueType) := by
  have hinv : TypesInv nodes s' := resolveTypes_inv htree hnodup hfresh s' hresolve
  refine ⟨⟨fun h => ?_, fun h => h.operandsTagged htree hinv E exec⟩, fun h =>
    (h.operandsTagged htree hinv E exec).sameEffects⟩
  intro p op left right opcodes hemits hdouble
  obtain ⟨himpl, l, r, rfl, rfl, htags⟩ := h p op left right opcodes hemits
  obtain ⟨l', r', hl', hr', hops⟩ := hemits.operands htree hinv
  obtain rfl := Option.some.inj hl'
  obtain rfl := Option.some.inj hr'
  obtain ⟨lv, hlv⟩ := h.produces htree hinv l hops.left_target (hops.left_type.trans hdouble)
  obtain ⟨rv, hrv⟩ := h.produces htree hinv r hops.right_target (hops.right_type.trans hdouble)
  obtain ⟨hltag, hrtag⟩ := htags lv rv hlv hrv
  have hplain : ∀ q v, s'.valueType q = .double → ¬AssignTarget nodes q →
      Produces E exec nodes s'.valueType q v → v.type = .double → ¬Condition nodes q := by
    intro q v htype htarget hv htag hcond
    rcases hv.type htree hinv htarget (.inr htype) with ⟨-, hint⟩ | ⟨hnot, -⟩
    · cases hint.symm.trans htag
    · exact hnot hcond
  refine ⟨(hemits.implemented_iff htree).1 himpl hdouble, fun q hq => ?_⟩
  cases hq with
  | left hkind =>
    rw [hemits.kind] at hkind
    cases hkind
    exact hplain l lv (hops.left_type.trans hdouble) hops.left_target hlv (hltag.trans hdouble)
  | right hkind =>
    rw [hemits.kind] at hkind
    cases hkind
    exact hplain r rv (hops.right_type.trans hdouble) hops.right_target hrv (hrtag.trans hdouble)

/-! ## Two trees -/

/-- The expressions of a list; there is nothing else. -/
def nodesOf (list : List ExprNode) (p : ℕ) : ExprNode := list.getD p ⟨.computed, none⟩

/-- The types that the parser sets. -/
def parserType : ExprKind → ValueType
  | .oper .. | .var _ | .computed => .unknown
  | .integer _ => .integer
  | .double _ => .double
  | .object => .object

def freshTypes (nodes : ℕ → ExprNode) : TypeState :=
  ⟨fun p => parserType (nodes p).kind, fun _ => .unknown⟩

theorem freshTypes_fresh (nodes : ℕ → ExprNode) : Fresh nodes (freshTypes nodes) := by
  refine ⟨fun p => ?_, fun _ => rfl⟩
  show FreshType (nodes p).kind (parserType (nodes p).kind)
  cases (nodes p).kind with
  | integer | double => exact .inl rfl
  | _ => rfl

/-- `(1.5 < 2.5) + (3.5 < 4.5)`, in the order of the tokens. -/
def sumOfConditions : ℕ → ExprNode := nodesOf
  [⟨.double 0x3ff8000000000000, some 1⟩, ⟨.oper .lessThan (some 0) (some 2), some 3⟩,
    ⟨.double 0x4004000000000000, some 1⟩, ⟨.oper .add (some 1) (some 5), none⟩,
    ⟨.double 0x400c000000000000, some 5⟩, ⟨.oper .lessThan (some 4) (some 6), some 3⟩,
    ⟨.double 0x4012000000000000, some 5⟩]

/-- `1.5 - 2.5 < 3.5`. -/
def plainComparison : ℕ → ExprNode := nodesOf
  [⟨.double 0x3ff8000000000000, some 1⟩, ⟨.oper .sub (some 0) (some 2), some 3⟩,
    ⟨.double 0x4004000000000000, some 1⟩, ⟨.oper .lessThan (some 1) (some 4), none⟩,
    ⟨.double 0x400c000000000000, some 3⟩]

/-- The operations of a list of expressions. -/
theorem nodesOf_oper {list : List ExprNode} {p : ℕ} {op : OpType} {l r : Option ℕ}
    (h : (nodesOf list p).kind = .oper op l r) :
    ∃ parent, (p, ExprNode.mk (.oper op l r) parent) ∈ list.zipIdx.map Prod.swap := by
  unfold nodesOf at h
  rw [List.getD_eq_getElem?_getD] at h
  cases hp : list[p]? with
  | none =>
    rw [hp] at h
    cases h
  | some node =>
    rw [hp, Option.getD_some] at h
    refine ⟨node.parent, List.mem_map.2 ⟨(node, p), List.mem_zipIdx_iff_getElem?.2 hp, ?_⟩⟩
    rw [← h]
    rfl

theorem sumOfConditions_oper {p : ℕ} {op : OpType} {l r : Option ℕ}
    (h : (sumOfConditions p).kind = .oper op l r) : op ≠ .set := by
  rintro rfl
  obtain ⟨parent, hmem⟩ := nodesOf_oper h
  simp at hmem

theorem plainComparison_oper {p : ℕ} {op : OpType} {l r : Option ℕ}
    (h : (plainComparison p).kind = .oper op l r) :
    (p = 1 ∧ op = .sub ∧ l = some 0 ∧ r = some 2) ∨
      (p = 3 ∧ op = .lessThan ∧ l = some 1 ∧ r = some 4) := by
  obtain ⟨parent, hmem⟩ := nodesOf_oper h
  have hmem : p = 1 ∧ (op = .sub ∧ l = some 0 ∧ r = some 2) ∧ parent = some 3 ∨
      p = 3 ∧ (op = .lessThan ∧ l = some 1 ∧ r = some 4) ∧ parent = none := by simpa using hmem
  rcases hmem with ⟨hp, hkind, -⟩ | ⟨hp, hkind, -⟩
  · exact .inl ⟨hp, hkind⟩
  · exact .inr ⟨hp, hkind⟩

/-- A comparison of two literals gives an integer. -/
theorem comparison_produces [Inhabited W] (E : Env W) (exec : Execute W) {types : ℕ → ValueType}
    {p l r : ℕ} {a b : Word} (hkind : (nodes p).kind = .oper .lessThan (some l) (some r))
    (htype : types p = .double) (hl : (nodes l).kind = .double a) (hr : (nodes r).kind = .double b) :
    ∃ i, Produces E exec nodes types p (Value.integer i) := by
  have hcode : operationOpcodes .lessThan (types p) = some (.cmpD, some .pushCL) := by
    rw [htype]
    rfl
  obtain ⟨ctx', frame', v, rest, hrun, hv⟩ :=
    runOperation_double E exec (htype ▸ hcode) rfl emptyContext emptyFrame (.double a) (.double b)
  have hint := operation_result_type E exec (.inr rfl) (htype ▸ hcode) hrun hv
  obtain ⟨type, i⟩ := v
  obtain rfl : type = .integer := hint
  exact ⟨i, .binary hkind (.double hl) (.double hr) hcode hrun hv⟩

/-- The comparisons give integers, which `ADDD` adds as if they were doubles. -/
theorem sumOfConditions_addD :
    ∃ s, resolveTypes sumOfConditions [0, 1, 2, 3, 4, 5, 6] (freshTypes sumOfConditions) = some s ∧
      ∀ (E : Env Unit) (exec : Execute Unit), ¬SameEffects E exec sumOfConditions s.valueType := by
  obtain ⟨s, hs⟩ := Option.isSome_iff_exists.1
    (show (resolveTypes sumOfConditions [0, 1, 2, 3, 4, 5, 6] (freshTypes sumOfConditions)).isSome by
      decide)
  have htypes : (resolveTypes sumOfConditions [0, 1, 2, 3, 4, 5, 6]
      (freshTypes sumOfConditions)).map (fun s => (s.valueType 1, s.valueType 3, s.valueType 5)) =
        some (.double, .double, .double) := by decide
  rw [hs] at htypes
  simp only [Option.map_some, Option.some.injEq, Prod.mk.injEq] at htypes
  obtain ⟨h₁, h₃, h₅⟩ := htypes
  refine ⟨s, hs, fun E exec h => ?_⟩
  have hcode : operationOpcodes .add (s.valueType 3) = some (.addD, none) := by
    rw [h₃]
    rfl
  obtain ⟨-, l, r, hl, hr, heffect⟩ := h 3 .add (some 1) (some 5) (.addD, none)
    ⟨rfl, fun ⟨_, _, hkind⟩ => sumOfConditions_oper hkind rfl, .inr h₃, hcode⟩
  obtain rfl := Option.some.inj hl
  obtain rfl := Option.some.inj hr
  have hleft : ∃ i, Produces E exec sumOfConditions s.valueType 1 (Value.integer i) :=
    comparison_produces E exec rfl h₁ rfl rfl
  have hright : ∃ i, Produces E exec sumOfConditions s.valueType 5 (Value.integer i) :=
    comparison_produces E exec rfl h₅ rfl rfl
  obtain ⟨i, hi⟩ := hleft
  obtain ⟨j, hj⟩ := hright
  have hsame := heffect _ _ hi hj (.add, none) rfl emptyContext emptyFrame
  -- the tags of the two results differ
  have htag := congrArg (fun x => x.map fun y => y.2.1.stack.head?.map Value.type) hsame
  cases htag

theorem plainComparison_operand {p q : ℕ} (h : Operand plainComparison p q) :
    (p = 1 ∧ (q = 0 ∨ q = 2)) ∨ (p = 3 ∧ (q = 1 ∨ q = 4)) := by
  cases h with
  | left hkind =>
    rcases plainComparison_oper hkind with ⟨hp, -, hl, -⟩ | ⟨hp, -, hl, -⟩
    · exact .inl ⟨hp, .inl (Option.some.inj hl)⟩
    · exact .inr ⟨hp, .inl (Option.some.inj hl)⟩
  | right hkind =>
    rcases plainComparison_oper hkind with ⟨hp, -, -, hr⟩ | ⟨hp, -, -, hr⟩
    · exact .inl ⟨hp, .inr (Option.some.inj hr)⟩
    · exact .inr ⟨hp, .inr (Option.some.inj hr)⟩

theorem plainComparison_tree : ExprTree plainComparison := by
  constructor
  · intro p op l r hkind
    rcases plainComparison_oper hkind with ⟨-, rfl, rfl, rfl⟩ | ⟨-, rfl, rfl, rfl⟩
    · exact ⟨⟨.tokMinus, .sub, true, true⟩, by decide, rfl, fun _ => rfl, fun _ => rfl, fun _ _ => rfl⟩
    · exact ⟨⟨.tokLessThan, .lessThan, true, true⟩, by decide, rfl, fun _ => rfl, fun _ => rfl,
        fun _ _ => rfl⟩
  · intro p q h
    rcases plainComparison_operand h with ⟨rfl, rfl | rfl⟩ | ⟨rfl, rfl | rfl⟩ <;> rfl
  · intro p op x hkind
    rcases plainComparison_oper hkind with ⟨-, -, hl, hr⟩ | ⟨-, -, hl, hr⟩ <;>
      cases hl.symm.trans hr
  · refine ⟨fun p => if p = 3 then 2 else if p = 1 then 1 else 0, fun p q h => ?_⟩
    rcases plainComparison_operand h with ⟨rfl, rfl | rfl⟩ | ⟨rfl, rfl | rfl⟩ <;> decide
  · intro p op l hop hkind
    rcases plainComparison_oper hkind with ⟨-, -, -, hr⟩ | ⟨-, -, -, hr⟩ <;> cases hr

/-- The difference of two literals is no condition. -/
theorem plainComparison_sameEffects :
    ∃ s, resolveTypes plainComparison [0, 1, 2, 3, 4] (freshTypes plainComparison) = some s ∧
      s.valueType 3 = .double ∧
      ∀ (E : Env Unit) (exec : Execute Unit), SameEffects E exec plainComparison s.valueType := by
  obtain ⟨s, hs⟩ := Option.isSome_iff_exists.1
    (show (resolveTypes plainComparison [0, 1, 2, 3, 4] (freshTypes plainComparison)).isSome by decide)
  have htype : (resolveTypes plainComparison [0, 1, 2, 3, 4]
      (freshTypes plainComparison)).map (fun s => s.valueType 3) = some .double := by decide
  rw [hs] at htype
  refine ⟨s, hs, Option.some.inj htype, fun E exec => ?_⟩
  refine (resolveTypes_operations plainComparison_tree (by decide) (freshTypes_fresh _) hs E exec).2 ?_
  intro p op left right opcodes hemits _
  refine ⟨?_, fun q hq hcond => ?_⟩
  · rcases plainComparison_oper hemits.kind with ⟨-, rfl, -, -⟩ | ⟨-, rfl, -, -⟩ <;> nofun
  · obtain ⟨op', l, r, hkind⟩ := hcond.kind
    rcases plainComparison_operand hq with ⟨-, rfl | rfl⟩ | ⟨-, rfl | rfl⟩
    · cases hkind
    · cases hkind
    · have hsub : (plainComparison 1).kind = .oper .sub (some 0) (some 2) := rfl
      have hcode : operationOpcodes .sub .double = some (.subD, none) := rfl
      cases (Condition.operation_iff hsub hcode).1 hcond
    · cases hkind

end B0rk
