import B0rk.Executor.Proofs.Unwind
import B0rk.Executor.Uses

set_option autoImplicit false

/-! # Where instructions dereference what is no object

The handlers check some of what they take a value for: whether it is an object, whether its pointer is
null, whether a field is there. What each of them leaves unchecked is `UsesFit`. -/

namespace B0rk

variable {W : Type} {E : Env W} {exec : Execute W}

/-! ## The uses do not change what an instruction does -/

section

variable (E : Env W) (exec : Execute W) (args : List Word) (ctx : Context W) (frame : Frame)

theorem tracedLoadFieldNamed_value :
    (tracedLoadFieldNamed E args ctx frame).value = opcodeLoadFieldNamed E args ctx frame := by
  simp only [tracedLoadFieldNamed, opcodeLoadFieldNamed, Traced.value_bind, Traced.value_lift,
    Traced.value_emit, Traced.value_emitIf, Option.bind_eq_bind, Option.bind_some,
    apply_ite Traced.value, Traced.value_pure]
  refine Option.bind_congr fun name _ => Option.bind_congr fun obj _ => Option.bind_congr fun s _ =>
    ite_congr rfl (fun _ => Option.bind_congr fun id _ => ?_) fun _ => rfl
  cases id with
  | none => rfl
  | some id => simp

theorem tracedStoreFieldNamed_value :
    (tracedStoreFieldNamed E args ctx frame).value = opcodeStoreFieldNamed E args ctx frame := by
  simp only [tracedStoreFieldNamed, opcodeStoreFieldNamed, Traced.value_bind, Traced.value_lift,
    Traced.value_emit, Traced.value_emitIf, Option.bind_eq_bind, Option.bind_some,
    apply_ite Traced.value, Traced.value_pure]
  refine Option.bind_congr fun name _ => Option.bind_congr fun obj _ => Option.bind_congr fun v _ =>
    Option.bind_congr fun s _ => ite_congr rfl (fun _ => Option.bind_congr fun id _ => ?_) fun _ => rfl
  cases id with
  | none => rfl
  | some id => simp

theorem tracedNamedFunction_value (objValue : Value) (chain : ClassChain) (name : String) :
    (tracedNamedFunction E ctx objValue chain name).value =
      namedFunction E ctx objValue.bits chain name := by
  unfold tracedNamedFunction namedFunction
  cases chain.getFieldId name with
  | none => rfl
  | some id => simp

theorem tracedCallNamedTarget_value :
    (tracedCallNamedTarget E args ctx).value = callNamedTarget E args ctx := by
  simp only [tracedCallNamedTarget, callNamedTarget, Traced.value_bind, Traced.value_lift,
    Traced.value_emit, Traced.value_emitIf, Option.bind_eq_bind, Option.bind_some,
    apply_ite Traced.value, Traced.value_pure, tracedNamedFunction_value]
  refine Option.bind_congr fun count _ => Option.bind_congr fun name _ =>
    Option.bind_congr fun obj _ => Option.bind_congr fun s _ => ite_congr rfl (fun _ => rfl) fun _ =>
    Option.bind_congr fun clazz _ => ite_congr rfl (fun _ => rfl) fun _ =>
    Option.bind_congr fun chain _ => Option.bind_congr fun function _ => ?_
  cases function <;> rfl

theorem tracedCallObjTarget_value :
    (tracedCallObjTarget E args ctx).value = callObjTarget E args ctx := by
  simp [tracedCallObjTarget, callObjTarget, apply_ite Traced.value]

theorem tracedCallFunction_value
    {traced : List Word → Context W → Traced Use (Context W × Option (Word × Word × ℕ))}
    {target : CallTarget W} (h : (traced args ctx).value = target args ctx) :
    (tracedCallFunction exec traced args ctx frame).value = callFunction exec target args ctx frame := by
  simp only [tracedCallFunction, callFunction, Traced.value_bind, Option.bind_eq_bind, h]
  refine Option.bind_congr fun callee _ => ?_
  obtain ⟨ctx, callee⟩ := callee
  cases callee with
  | none => rfl
  | some callee => simp

/-- The instructions with their uses do what the instructions do. -/
theorem tracedTable_value (op : OpCode) :
    (tracedTable E exec op args ctx frame).value = opcodeTable E exec op args ctx frame := by
  have harithmetic (name : String) (intOp : Word → Word → Option Word)
      (doubleOp : Word → Word → Word) :
      (tracedArithmetic E exec name intOp doubleOp args ctx frame).value =
        arithmetic E exec name intOp doubleOp args ctx frame := by
    simp [tracedArithmetic, arithmetic, apply_ite Traced.value]
  cases op with
  | loadField => simp [tracedTable, opcodeTable, tracedLoadField, opcodeLoadField]
  | storeField =>
    simp [tracedTable, opcodeTable, tracedStoreField, opcodeStoreField, apply_ite Traced.value]
  | loadFieldNamed => exact tracedLoadFieldNamed_value E args ctx frame
  | storeFieldNamed => exact tracedStoreFieldNamed_value E args ctx frame
  | loadArray =>
    simp [tracedTable, opcodeTable, tracedLoadArray, opcodeLoadArray, apply_ite Traced.value]
  | storeArray =>
    simp [tracedTable, opcodeTable, tracedStoreArray, opcodeStoreArray, apply_ite Traced.value]
  | add => exact harithmetic "operator+" (fun a b => some (a + b)) E.double.add
  | sub => exact harithmetic "operator-" (fun a b => some (a - b)) E.double.sub
  | mul => exact harithmetic "operator*" (fun a b => some (a * b)) E.double.mul
  | div => exact harithmetic "operator/" sdiv? E.double.div
  | cmp => simp [tracedTable, opcodeTable, tracedCmp, opcodeCmp, apply_ite Traced.value]
  | callNamed => exact tracedCallFunction_value exec args ctx frame (tracedCallNamedTarget_value E args ctx)
  | callObj => exact tracedCallFunction_value exec args ctx frame (tracedCallObjTarget_value E args ctx)
  | _ => rfl

end

/-! ## Values that are objects -/

/-- What a value is taken for holds of the object at an address, of a class with its superclasses.
    The array instructions make a virtual call of `Array` on the class itself, which has to be the
    native one (`addClass` adds no second class of its name); a class that extends it is not. -/
def Assumed.Holds (E : Env W) (world : W) (obj : Word) (chain : ClassChain) : Assumed → Prop
  | .object => True
  | .field id => (E.getValue world obj id).isSome
  | .array => chain.head?.map Class.name = some "system.lang.Array"
  | .operator name => (chain.findMethod name).isSome
  | .function => (∃ c ∈ chain, c.name = "system.lang.Function") ∧ (E.getValue world obj 0).isSome

/-- A value tagged `VALUE_OBJECT` with a pointer to an object, of a class that it is taken for. -/
def Use.Right (E : Env W) (world : W) (u : Use) : Prop :=
  u.value.isLiveObject = true ∧ ∃ clazz chain, E.getClass world u.value.bits = some clazz ∧
    clazz ≠ 0 ∧ E.chain world clazz = some chain ∧ u.assumed.Holds E world u.value.bits chain

/-- `String::getString` comes to a result for the null pointer and for every object. -/
structure Env.ReadsNames (E : Env W) : Prop where
  null : ∀ world, (E.getString world 0).isSome
  object : ∀ world obj clazz, E.getClass world obj = some clazz → clazz ≠ 0 →
    (E.getString world obj).isSome

/-- The value below the top one. -/
def second : List Value → Option Value
  | _ :: v :: _ => some v
  | _ => none

/-- The value that an instruction uses as an object, the name of a field or of a method apart. -/
def objectOperand (op : OpCode) (stack : List Value) : Option Value :=
  match op with
  | .loadField | .storeField | .callObj => stack.head?
  | .loadFieldNamed | .storeFieldNamed | .loadArray | .storeArray | .callNamed => second stack
  | .add | .sub | .mul | .div | .cmp => stack.head?.filter Value.isObject
  | _ => none

/-- An instruction dereferences nothing but objects of the classes that it takes them for, and fails if
    it does not dereference the value that it uses as an object. -/
structure OnlyObjects (E : Env W) (exec : Execute W) (op : OpCode) (args : List Word)
    (ctx : Context W) (frame : Frame) : Prop where
  right : (tracedTable E exec op args ctx frame).All (Use.Right E ctx.world)
  fails : ∀ v, objectOperand op ctx.stack = some v →
    (tracedTable E exec op args ctx frame).All (fun u => u.value ≠ v) →
    ∀ success ctx' frame', opcodeTable E exec op args ctx frame = some (success, ctx', frame') →
      success = false

/-- The field that `CALL_NAMED` finds under a name holds a function object. -/
def FieldFunctionFits (E : Env W) (world : W) (name obj : Value) : Prop :=
  ∀ funcName clazz chain id, E.getString world name.bits = some funcName →
    E.getClass world obj.bits = some clazz → E.chain world clazz = some chain →
    ClassChain.getFieldId chain funcName = some id →
      Use.Right E world ⟨obj, .field id⟩ ∧ ∀ v, E.getValue world obj.bits id = some v →
        Use.Right E world ⟨v, .function⟩

/-- An operator is left unchecked: neither the null pointer nor a missing operator is rejected. -/
def OperatorFits (P : Use → Prop) (name : String) : List Value → Prop
  | v :: _ => v.isObject = true → P ⟨v, .operator name⟩
  | [] => True

/-- What the handlers leave unchecked. -/
def UsesFit (E : Env W) (world : W) (args : List Word) (op : OpCode) (stack : List Value) : Prop :=
  match op with
  -- nothing is checked
  | .loadField =>
      match stack with
      | obj :: _ =>
          ∀ fieldId, args[0]? = some fieldId → Use.Right E world ⟨obj, .field fieldId.toNat⟩
      | _ => True
  -- null pointers are rejected, whatever the tag
  | .storeField =>
      match stack with
      | obj :: _ :: _ => obj.bits ≠ 0 →
          ∀ fieldId, args[0]? = some fieldId → Use.Right E world ⟨obj, .field fieldId.toNat⟩
      | _ => True
  -- the tag of the name is not looked at
  | .loadFieldNamed =>
      match stack with
      | name :: obj :: _ =>
          (name.bits ≠ 0 → Use.Right E world ⟨name, .object⟩) ∧
            (obj.isLiveObject = true → Use.Right E world ⟨obj, .object⟩)
      | _ => True
  | .storeFieldNamed =>
      match stack with
      | name :: obj :: _ :: _ =>
          (name.isLiveObject = true → Use.Right E world ⟨name, .object⟩) ∧
            (obj.isLiveObject = true → Use.Right E world ⟨obj, .object⟩)
      | _ => True
  -- the class is not looked at before a member function of `Array` is called on it
  | .loadArray =>
      match stack with
      | _ :: array :: _ => array.isLiveObject = true → Use.Right E world ⟨array, .array⟩
      | _ => True
  | .storeArray =>
      match stack with
      | _ :: array :: _ :: _ => array.isLiveObject = true → Use.Right E world ⟨array, .array⟩
      | _ => True
  | .add => OperatorFits (Use.Right E world) "operator+" stack
  | .sub => OperatorFits (Use.Right E world) "operator-" stack
  | .mul => OperatorFits (Use.Right E world) "operator*" stack
  | .div => OperatorFits (Use.Right E world) "operator/" stack
  | .cmp => OperatorFits (Use.Right E world) "operator==" stack
  -- neither the tags nor the value of a field are looked at
  | .callNamed =>
      match args, stack with
      | _ :: _, name :: obj :: _ =>
          (name.bits ≠ 0 → Use.Right E world ⟨name, .object⟩) ∧
            (obj.bits ≠ 0 → Use.Right E world ⟨obj, .object⟩ ∧ FieldFunctionFits E world name obj)
      | _, _ => True
  -- the class is not looked at
  | .callObj =>
      match args, stack with
      | _ :: _, function :: _ =>
          function.isLiveObject = true → Use.Right E world ⟨function, .function⟩
      | _, _ => True
  | _ => True

/-! ## The handlers -/

section

variable {ctx : Context W} {frame : Frame} {args : List Word} {v v' : Value} {stack : List Value}
  {exception : Bool} {exceptionValue : Value} {world : W} {P : Use → Prop}

theorem pop_cons : (⟨v :: stack, exception, exceptionValue, world⟩ : Context W).pop =
    some (v, ⟨stack, exception, exceptionValue, world⟩) := rfl

theorem pop_nil : (⟨[], exception, exceptionValue, world⟩ : Context W).pop = none := rfl

/-- A name that is the null pointer or an object is read. -/
theorem Env.ReadsNames.isSome (hE : E.ReadsNames)
    (h : v.bits ≠ 0 → Use.Right E world ⟨v, .object⟩) : ∃ name, E.getString world v.bits = some name := by
  rw [← Option.isSome_iff_exists]
  by_cases hnull : v.bits = 0
  · rw [hnull]
    exact hE.null world
  · obtain ⟨-, clazz, chain, hclazz, hne, -⟩ := h hnull
    exact hE.object world v.bits clazz hclazz hne

theorem loadFieldNamed_all (args : List Word) :
    (tracedLoadFieldNamed E args ⟨v :: v' :: stack, exception, exceptionValue, world⟩ frame).All P ↔
      (v.bits ≠ 0 → P ⟨v, .object⟩) ∧ ∀ name, E.getString world v.bits = some name →
        v'.isLiveObject = true → P ⟨v', .object⟩ := by
  simp only [tracedLoadFieldNamed, pop_cons, Traced.all_bind, Traced.all_lift, Traced.all_emit,
    Traced.all_emitIf, Traced.all_ite, Traced.all_pure, Traced.value_lift, Traced.value_emit,
    Traced.value_emitIf, Option.some.injEq, forall_eq', forall_const, implies_true, and_true, true_and,
    decide_eq_true_eq]
  refine and_congr_right fun _ => ⟨fun h name hread hlive => (h name hread hlive).1, ?_⟩
  intro h name hread hlive
  refine ⟨h name hread hlive, fun id _ => ?_⟩
  cases id <;> simp

theorem storeFieldNamed_all (args : List Word) {value : Value} :
    (tracedStoreFieldNamed E args ⟨v :: v' :: value :: stack, exception, exceptionValue, world⟩
        frame).All P ↔
      (v.isLiveObject = true → P ⟨v, .object⟩) ∧
        ∀ name, valueString E ⟨stack, exception, exceptionValue, world⟩ v = some name →
          v'.isLiveObject = true → P ⟨v', .object⟩ := by
  simp only [tracedStoreFieldNamed, pop_cons, Traced.all_bind, Traced.all_lift, Traced.all_emit,
    Traced.all_emitIf, Traced.all_ite, Traced.all_pure, Traced.value_lift, Traced.value_emit,
    Traced.value_emitIf, Option.some.injEq, forall_eq', forall_const, implies_true, and_true, true_and]
  refine and_congr_right fun _ => ⟨fun h name hread hlive => (h name hread hlive).1, ?_⟩
  intro h name hread hlive
  refine ⟨h name hread hlive, fun id _ => ?_⟩
  cases id <;> simp

/-- A name that can be read does not keep the handler from the object. -/
theorem Env.ReadsNames.forall_iff (hE : E.ReadsNames) {Q R : Prop}
    (h : v.bits ≠ 0 → Use.Right E world ⟨v, .object⟩) :
    (∀ name, E.getString world v.bits = some name → Q → R) ↔ (Q → R) := by
  obtain ⟨name, hread⟩ := hE.isSome h
  exact ⟨fun h => h name hread, fun h _ _ => h⟩

theorem loadFieldNamed_right (args : List Word) (hE : E.ReadsNames) :
    (tracedLoadFieldNamed E args ⟨v :: v' :: stack, exception, exceptionValue, world⟩ frame).All
        (Use.Right E world) ↔
      (v.bits ≠ 0 → Use.Right E world ⟨v, .object⟩) ∧
        (v'.isLiveObject = true → Use.Right E world ⟨v', .object⟩) := by
  rw [loadFieldNamed_all]
  exact and_congr_right hE.forall_iff

theorem storeFieldNamed_right (args : List Word) (hE : E.ReadsNames) {value : Value} :
    (tracedStoreFieldNamed E args ⟨v :: v' :: value :: stack, exception, exceptionValue, world⟩
        frame).All (Use.Right E world) ↔
      (v.isLiveObject = true → Use.Right E world ⟨v, .object⟩) ∧
        (v'.isLiveObject = true → Use.Right E world ⟨v', .object⟩) := by
  rw [storeFieldNamed_all]
  refine and_congr_right fun hname => ?_
  unfold valueString
  split
  · next hobject =>
    refine hE.forall_iff fun hne => hname ?_
    rw [Value.isLiveObject, hobject, decide_eq_true hne]
    rfl
  · exact ⟨fun h => h _ rfl, fun h _ _ => h⟩

theorem tracedNamedFunction_right {ctx : Context W} {obj : Value} {chain : ClassChain} {name : String} :
    (tracedNamedFunction E ctx obj chain name).All (Use.Right E world) ↔
      ∀ id, chain.getFieldId name = some id → Use.Right E world ⟨obj, .field id⟩ ∧
        ∀ v, E.getValue ctx.world obj.bits id = some v → Use.Right E world ⟨v, .function⟩ := by
  unfold tracedNamedFunction
  cases chain.getFieldId name with
  | none => simp
  | some id => simp

theorem callNamedTarget_all {count : Word} :
    (tracedCallNamedTarget E (count :: args) ⟨v :: v' :: stack, exception, exceptionValue, world⟩).All
        P ↔
      (v.bits ≠ 0 → P ⟨v, .object⟩) ∧ ∀ name, E.getString world v.bits = some name → v'.bits ≠ 0 →
        P ⟨v', .object⟩ ∧ ∀ clazz, E.getClass world v'.bits = some clazz → clazz ≠ 0 →
          ∀ chain, E.chain world clazz = some chain →
            (tracedNamedFunction E ⟨stack, exception, exceptionValue, world⟩ v' chain name).All P := by
  simp only [tracedCallNamedTarget, pop_cons, Traced.all_bind, Traced.all_lift, Traced.all_emit,
    Traced.all_emitIf, Traced.all_ite, Traced.all_pure, Traced.value_lift, Traced.value_emit,
    Traced.value_emitIf, Option.some.injEq, forall_eq', forall_const, implies_true, true_and,
    decide_eq_true_eq, List.getElem?_cons_zero]
  refine and_congr_right fun _ => forall_congr' fun name => forall_congr' fun _ =>
    forall_congr' fun _ => and_congr_right fun _ => forall_congr' fun clazz => forall_congr' fun _ =>
    forall_congr' fun _ => forall_congr' fun chain => forall_congr' fun _ => and_iff_left ?_
  intro callee _
  cases callee <;> simp

theorem callNamedTarget_right (hE : E.ReadsNames) {count : Word} :
    (tracedCallNamedTarget E (count :: args) ⟨v :: v' :: stack, exception, exceptionValue, world⟩).All
        (Use.Right E world) ↔
      (v.bits ≠ 0 → Use.Right E world ⟨v, .object⟩) ∧
        (v'.bits ≠ 0 → Use.Right E world ⟨v', .object⟩ ∧ FieldFunctionFits E world v v') := by
  rw [callNamedTarget_all]
  refine and_congr_right fun hname => ?_
  constructor
  · intro h hne
    obtain ⟨name, hread⟩ := hE.isSome hname
    obtain ⟨hobject, h⟩ := h name hread hne
    have hclass := hobject
    obtain ⟨-, clazz, chain, hclazz, hclazzNe, hchain, -⟩ := hclass
    refine ⟨hobject, fun funcName clazz' chain' id hread' hclazz' hchain' => ?_⟩
    obtain rfl := Option.some.inj (hread.symm.trans hread')
    obtain rfl := Option.some.inj (hclazz.symm.trans hclazz')
    exact tracedNamedFunction_right.mp (h clazz hclazz hclazzNe chain' hchain') id
  · intro h name hread hne
    obtain ⟨hobject, hfits⟩ := h hne
    refine ⟨hobject, fun clazz hclazz _ chain hchain => tracedNamedFunction_right.mpr fun id hid => ?_⟩
    exact hfits name clazz chain id hread hclazz hchain hid

theorem tracedCallFunction_all {ctx : Context W}
    {target : List Word → Context W → Traced Use (Context W × Option (Word × Word × ℕ))} :
    (tracedCallFunction exec target args ctx frame).All P ↔
      (target args ctx).All P := by
  rw [tracedCallFunction, Traced.all_bind]
  refine and_iff_left fun callee _ => ?_
  obtain ⟨ctx, callee⟩ := callee
  cases callee with
  | none => simp
  | some callee => simp

theorem loadField_all :
    (tracedLoadField E args ⟨v :: stack, exception, exceptionValue, world⟩ frame).All P ↔
      ∀ fieldId, args[0]? = some fieldId → P ⟨v, .field fieldId.toNat⟩ := by
  simp [tracedLoadField, pop_cons]

theorem storeField_all :
    (tracedStoreField E args ⟨v :: v' :: stack, exception, exceptionValue, world⟩ frame).All P ↔
      (v.bits ≠ 0 → ∀ fieldId, args[0]? = some fieldId → P ⟨v, .field fieldId.toNat⟩) := by
  simp only [tracedStoreField, pop_cons, Traced.all_bind, Traced.all_lift, Traced.all_emit,
    Traced.all_ite, Traced.all_pure, Traced.value_lift, Option.some.injEq, forall_eq', implies_true,
    and_true, true_and]
  exact ⟨fun h hne fieldId hargs => h fieldId hargs hne, fun h fieldId hargs hne => h hne fieldId hargs⟩

theorem loadArray_all (args : List Word) :
    (tracedLoadArray E args ⟨v :: v' :: stack, exception, exceptionValue, world⟩ frame).All P ↔
      (v'.isLiveObject = true → P ⟨v', .array⟩) := by
  simp [tracedLoadArray, pop_cons]

theorem storeArray_all (args : List Word) {value : Value} :
    (tracedStoreArray E args ⟨v :: v' :: value :: stack, exception, exceptionValue, world⟩
        frame).All P ↔ (v'.isLiveObject = true → P ⟨v', .array⟩) := by
  simp [tracedStoreArray, pop_cons]

theorem arithmetic_all {name : String} {intOp : Word → Word → Option Word}
    {doubleOp : Word → Word → Word} :
    (tracedArithmetic E exec name intOp doubleOp args ⟨stack, exception, exceptionValue, world⟩
        frame).All P ↔ OperatorFits P name stack := by
  rcases stack with _ | ⟨v, stack⟩
  · simp only [tracedArithmetic, pop_nil, Traced.all_lift_none, OperatorFits]
  · simp [tracedArithmetic, pop_cons, OperatorFits]

theorem cmp_all (args : List Word) :
    (tracedCmp E exec args ⟨stack, exception, exceptionValue, world⟩ frame).All P ↔
      OperatorFits P "operator==" stack := by
  rcases stack with _ | ⟨v, stack⟩
  · simp only [tracedCmp, pop_nil, Traced.all_lift_none, OperatorFits]
  · have hnumber (hobject : v.isObject = true) : ¬(v.type = .integer ∨ v.type = .double) := by
      rw [Value.isObject, decide_eq_true_eq] at hobject
      rw [hobject]
      decide
    simp only [tracedCmp, pop_cons, Traced.all_bind, Traced.all_lift, Traced.all_emit, Traced.all_ite,
      Traced.all_pure, Traced.value_lift, Option.some.injEq, forall_eq', implies_true, and_true,
      true_and, OperatorFits]
    exact ⟨fun h hobject => h (hnumber hobject) hobject, fun h _ => h⟩

theorem callObj_all {count : Word} :
    (tracedCallObjTarget E (count :: args) ⟨v :: stack, exception, exceptionValue, world⟩).All P ↔
      (v.isLiveObject = true → P ⟨v, .function⟩) := by
  simp [tracedCallObjTarget, pop_cons]

/-- The operator that an instruction calls of an object. -/
def operatorName : OpCode → Option String
  | .add => some "operator+"
  | .sub => some "operator-"
  | .mul => some "operator*"
  | .div => some "operator/"
  | .cmp => some "operator=="
  | _ => none

theorem operator_all {op : OpCode} {name : String} (h : operatorName op = some name) :
    (tracedTable E exec op args ⟨stack, exception, exceptionValue, world⟩ frame).All P ↔
      OperatorFits P name stack := by
  cases op with
  | add | sub | mul | div =>
    obtain rfl := Option.some.inj h
    simp only [tracedTable, tracedAdd, tracedSub, tracedMul, tracedDiv]
    exact arithmetic_all
  | cmp =>
    obtain rfl := Option.some.inj h
    exact cmp_all args
  | _ => cases h

/-- The uses are right if and only if what the handlers leave unchecked is. -/
theorem tracedTable_right (hE : E.ReadsNames) (op : OpCode) :
    (tracedTable E exec op args ⟨stack, exception, exceptionValue, world⟩ frame).All
        (Use.Right E world) ↔ UsesFit E world args op stack := by
  have hnil {α : Type} {f : Value × Context W → Traced Use α} :
      (Traced.lift (⟨[], exception, exceptionValue, world⟩ : Context W).pop >>= f).All
        (Use.Right E world) := Traced.all_lift_none
  cases op with
  | loadField =>
    rcases stack with _ | ⟨v, stack⟩
    · exact iff_of_true hnil trivial
    · exact loadField_all
  | storeField =>
    rcases stack with _ | ⟨v, _ | ⟨v', stack⟩⟩
    · exact iff_of_true hnil trivial
    · exact iff_of_true (Traced.all_lift_some.mpr hnil) trivial
    · exact storeField_all
  | loadFieldNamed =>
    rcases stack with _ | ⟨v, _ | ⟨v', stack⟩⟩
    · exact iff_of_true hnil trivial
    · exact iff_of_true (Traced.all_lift_some.mpr hnil) trivial
    · exact loadFieldNamed_right args hE
  | storeFieldNamed =>
    rcases stack with _ | ⟨v, _ | ⟨v', _ | ⟨value, stack⟩⟩⟩
    · exact iff_of_true hnil trivial
    · exact iff_of_true (Traced.all_lift_some.mpr hnil) trivial
    · exact iff_of_true (Traced.all_lift_some.mpr (Traced.all_lift_some.mpr hnil)) trivial
    · exact storeFieldNamed_right args hE
  | loadArray =>
    rcases stack with _ | ⟨v, _ | ⟨v', stack⟩⟩
    · exact iff_of_true hnil trivial
    · exact iff_of_true (Traced.all_lift_some.mpr hnil) trivial
    · exact loadArray_all args
  | storeArray =>
    rcases stack with _ | ⟨v, _ | ⟨v', _ | ⟨value, stack⟩⟩⟩
    · exact iff_of_true hnil trivial
    · exact iff_of_true (Traced.all_lift_some.mpr hnil) trivial
    · exact iff_of_true (Traced.all_lift_some.mpr (Traced.all_lift_some.mpr hnil)) trivial
    · exact storeArray_all args
  | add | sub | mul | div | cmp => exact operator_all rfl
  | callNamed =>
    refine tracedCallFunction_all.trans ?_
    rcases args with _ | ⟨count, args⟩
    · exact iff_of_true Traced.all_lift_none trivial
    · rcases stack with _ | ⟨v, _ | ⟨v', stack⟩⟩
      · exact iff_of_true (Traced.all_lift_some.mpr hnil) trivial
      · exact iff_of_true (Traced.all_lift_some.mpr (Traced.all_lift_some.mpr hnil)) trivial
      · exact callNamedTarget_right hE
  | callObj =>
    refine tracedCallFunction_all.trans ?_
    rcases args with _ | ⟨count, args⟩
    · exact iff_of_true Traced.all_lift_none trivial
    · rcases stack with _ | ⟨v, stack⟩
      · exact iff_of_true (Traced.all_lift_some.mpr hnil) trivial
      · exact callObj_all
  | _ => exact iff_of_true (Traced.all_lift _) trivial

/-- A value that is not dereferenced makes the instruction fail. -/
theorem opcodeTable_fails (op : OpCode) {success : Bool} {ctx' : Context W} {frame' : Frame}
    (hoperand : objectOperand op stack = some v)
    (hall : (tracedTable E exec op args ⟨stack, exception, exceptionValue, world⟩ frame).All
      fun u => u.value ≠ v)
    (h : opcodeTable E exec op args ⟨stack, exception, exceptionValue, world⟩ frame =
      some (success, ctx', frame')) : success = false := by
  have hoperator {name : String} (hname : operatorName op = some name)
      (hoperand : stack.head?.filter Value.isObject = some v) : success = false := by
    obtain ⟨hhead, hobject⟩ := Option.filter_eq_some_iff.mp hoperand
    obtain ⟨stack, rfl⟩ := List.head?_eq_some_iff.mp hhead
    exact absurd rfl ((operator_all hname).mp hall hobject)
  have hsecond (hoperand : second stack = some v) : ∃ v₀ rest, stack = v₀ :: v :: rest := by
    rcases stack with _ | ⟨v₀, _ | ⟨v', rest⟩⟩
    · cases hoperand
    · cases hoperand
    · exact ⟨v₀, rest, by rw [Option.some.inj hoperand]⟩
  cases op with
  | loadField =>
    obtain ⟨stack, rfl⟩ := List.head?_eq_some_iff.mp hoperand
    have hargs := loadField_all.mp hall
    cases hfetch : args[0]? with
    | some fieldId => exact absurd rfl (hargs fieldId hfetch)
    | none => simp [opcodeTable, opcodeLoadField, pop_cons, hfetch] at h
  | storeField =>
    obtain ⟨stack, rfl⟩ := List.head?_eq_some_iff.mp hoperand
    rcases stack with _ | ⟨value, stack⟩
    · cases h
    · have huse := storeField_all.mp hall
      simp only [opcodeTable, opcodeStoreField, pop_cons, Option.bind_eq_bind, Option.bind_some,
        Option.bind_eq_some_iff] at h
      obtain ⟨fieldId, hfetch, h⟩ := h
      rw [if_pos (not_not.mp fun hne => huse hne fieldId hfetch rfl)] at h
      exact (Prod.mk.inj (Option.some.inj h)).1.symm
  | loadFieldNamed =>
    obtain ⟨name, rest, rfl⟩ := hsecond hoperand
    obtain ⟨-, huse⟩ := (loadFieldNamed_all args).mp hall
    simp only [opcodeTable, opcodeLoadFieldNamed, pop_cons, Option.bind_eq_bind, Option.bind_some,
      Option.bind_eq_some_iff] at h
    obtain ⟨varName, hread, h⟩ := h
    rw [if_neg fun hlive => huse varName hread hlive rfl] at h
    exact (Prod.mk.inj (Option.some.inj h)).1.symm
  | storeFieldNamed =>
    obtain ⟨name, rest, rfl⟩ := hsecond hoperand
    rcases rest with _ | ⟨value, rest⟩
    · cases h
    · obtain ⟨-, huse⟩ := (storeFieldNamed_all args).mp hall
      simp only [opcodeTable, opcodeStoreFieldNamed, pop_cons, Option.bind_eq_bind, Option.bind_some,
        Option.bind_eq_some_iff] at h
      obtain ⟨varName, hread, h⟩ := h
      rw [if_neg fun hlive => huse varName hread hlive rfl] at h
      exact (Prod.mk.inj (Option.some.inj h)).1.symm
  | loadArray =>
    obtain ⟨index, rest, rfl⟩ := hsecond hoperand
    have huse := (loadArray_all args).mp hall
    simp only [opcodeTable, opcodeLoadArray, pop_cons, Option.bind_eq_bind, Option.bind_some] at h
    rw [if_neg fun hlive => huse hlive rfl] at h
    exact (Prod.mk.inj (Option.some.inj h)).1.symm
  | storeArray =>
    obtain ⟨index, rest, rfl⟩ := hsecond hoperand
    rcases rest with _ | ⟨value, rest⟩
    · cases h
    · have huse := (storeArray_all args).mp hall
      simp only [opcodeTable, opcodeStoreArray, pop_cons, Option.bind_eq_bind, Option.bind_some] at h
      rw [if_neg fun hlive => huse hlive rfl] at h
      exact (Prod.mk.inj (Option.some.inj h)).1.symm
  | add | sub | mul | div | cmp => exact hoperator rfl hoperand
  | callNamed =>
    obtain ⟨name, rest, rfl⟩ := hsecond hoperand
    rcases args with _ | ⟨count, args⟩
    · cases h
    · obtain ⟨-, huse⟩ := callNamedTarget_all.mp (tracedCallFunction_all.mp hall)
      simp only [opcodeTable, opcodeCallNamed, callFunction, callNamedTarget, pop_cons,
        Option.bind_eq_bind, Option.bind_some, List.getElem?_cons_zero, Option.bind_eq_some_iff] at h
      obtain ⟨callee, ⟨funcName, hread, htarget⟩, h⟩ := h
      rw [if_pos (not_not.mp fun hne => (huse funcName hread hne).1 rfl)] at htarget
      obtain rfl := Option.some.inj htarget
      exact (Prod.mk.inj (Option.some.inj h)).1.symm
  | callObj =>
    obtain ⟨stack, rfl⟩ := List.head?_eq_some_iff.mp hoperand
    rcases args with _ | ⟨count, args⟩
    · cases h
    · have huse := callObj_all.mp (tracedCallFunction_all.mp hall)
      simp only [opcodeTable, opcodeCallObj, callFunction, callObjTarget, pop_cons,
        Option.bind_eq_bind, Option.bind_some, List.getElem?_cons_zero, Option.bind_eq_some_iff] at h
      obtain ⟨callee, htarget, h⟩ := h
      rw [if_neg fun hlive => huse hlive rfl] at htarget
      obtain rfl := Option.some.inj htarget
      exact (Prod.mk.inj (Option.some.inj h)).1.symm
  | _ => cases hoperand

/-- **Objects.** An instruction dereferences nothing but objects, or fails, if and only if its operands
    are such that what its handler leaves unchecked holds. -/
theorem onlyObjects_iff (hE : E.ReadsNames) (exec : Execute W) (op : OpCode) (args : List Word)
    (ctx : Context W) (frame : Frame) :
    OnlyObjects E exec op args ctx frame ↔ UsesFit E ctx.world args op ctx.stack := by
  constructor
  · exact fun h => (tracedTable_right hE op).mp h.right
  · intro h
    refine ⟨(tracedTable_right hE op).mpr h, fun v hv hall success ctx' frame' => ?_⟩
    exact opcodeTable_fails op hv hall

end

/-! ## A method of an integer -/

/-- A world with one object, the string `"size"`. -/
def stringEnv : Env Unit :=
  { oneClassEnv [] (fun _ => none) with
    getClass := fun _ obj => if obj = 4096 then some 8 else none
    chain := fun _ clazz => if clazz = 8 then some [plainClass "system.lang.String" []] else none
    getString := fun _ obj => if obj = 0 then some "null" else if obj = 4096 then some "size" else none }

def stringFrame : Frame :=
  { addr := 1, code := ⟨1, 2, fun _ => none⟩, running := true, pc := 2
    flags := ⟨false, false, false⟩, localVars := [Value.zero], handlerStack := [] }

theorem stringEnv_readsNames : stringEnv.ReadsNames where
  null _ := rfl
  object _ obj clazz h _ := by
    have hobj : obj = 4096 := by
      by_contra hne
      cases (if_neg hne).symm.trans h
    subst hobj
    rfl

/-- A method of the string itself. -/
theorem stringEnv_onlyObjects :
    OnlyObjects stringEnv (execute stringEnv 0) .callNamed [0]
      ⟨[Value.object 4096, Value.object 4096], false, Value.zero, ()⟩ stringFrame := by
  have hright : Use.Right stringEnv () ⟨Value.object 4096, .object⟩ :=
    ⟨rfl, 8, _, rfl, by decide, rfl, trivial⟩
  refine (onlyObjects_iff stringEnv_readsNames _ _ _ _ _).mpr
    ⟨fun _ => hright, fun _ => ⟨hright, fun funcName clazz chain id _ hclazz hchain hid => ?_⟩⟩
  obtain rfl : 8 = clazz := Option.some.inj hclazz
  obtain rfl := Option.some.inj hchain
  cases hid

/-- `CALL_NAMED` reads the class at the address `5`. -/
theorem stringEnv_integer :
    (tracedTable stringEnv (execute stringEnv 0) .callNamed [0]
        ⟨[Value.object 4096, Value.integer 5], false, Value.zero, ()⟩ stringFrame).events.map
          Use.value = [Value.object 4096, Value.integer 5] ∧
      ¬OnlyObjects stringEnv (execute stringEnv 0) .callNamed [0]
        ⟨[Value.object 4096, Value.integer 5], false, Value.zero, ()⟩ stringFrame := by
  refine ⟨rfl, fun h => ?_⟩
  have huse : ¬Use.Right stringEnv () ⟨Value.integer 5, .object⟩ := fun hright => by
    cases hright.1
  exact huse (h.right _ (.tail _ (.head _)))

end B0rk
