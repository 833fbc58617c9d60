import B0rk.Executor.Opcodes
import B0rk.Lib.Traced

set_option autoImplicit false

/-! # What instructions use as objects

The opcode functions that read or write through the pointer in a value, with each value that they
dereference as an event in front of the first read. The values come with what the function takes
them for. -/

namespace B0rk

variable {W : Type}

/-- What a value is taken for when it is dereferenced. -/
inductive Assumed
  | object
  | field (id : ℕ)
  | array
  | operator (name : String)
  | function

/-- A value that is dereferenced. -/
structure Use where
  value : Value
  assumed : Assumed

/-- `opcodeFunc_t`, with the uses. -/
abbrev TracedFunc (W : Type) :=
  List Word → Context W → Frame → Traced Use (Bool × Context W × Frame)

open Traced

/-! ## Fields -/

def tracedLoadField (E : Env W) : TracedFunc W := fun args ctx frame => do
  let (objValue, ctx) ← lift ctx.pop
  let fieldId ← lift args[0]?
  emit ⟨objValue, .field fieldId.toNat⟩
  let result ← lift (E.getValue ctx.world objValue.bits fieldId.toNat)
  pure (true, ctx.push result, frame)

def tracedStoreField (E : Env W) : TracedFunc W := fun args ctx frame => do
  let (objValue, ctx) ← lift ctx.pop
  let (value, ctx) ← lift ctx.pop
  let fieldId ← lift args[0]?
  if objValue.bits = 0 then pure (false, ctx, frame)
  else do
    emit ⟨objValue, .field fieldId.toNat⟩
    let world ← lift (E.setValue ctx.world objValue.bits fieldId.toNat value)
    pure (true, { ctx with world := world }, frame)

def tracedLoadFieldNamed (E : Env W) : TracedFunc W := fun _ ctx frame => do
  let (nameValue, ctx) ← lift ctx.pop
  let (objValue, ctx) ← lift ctx.pop
  -- the tag of the name is not looked at
  emitIf (decide (nameValue.bits ≠ 0)) ⟨nameValue, .object⟩
  let varName ← lift (E.getString ctx.world nameValue.bits)
  if objValue.isLiveObject then do
    emit ⟨objValue, .object⟩
    match ← lift (namedField E ctx objValue.bits varName) with
    | some id => do
        let v ← lift (E.getValue ctx.world objValue.bits id)
        pure (true, ctx.push v, frame)
    | none => pure (false, ctx, frame)
  else pure (false, ctx, frame)

def tracedStoreFieldNamed (E : Env W) : TracedFunc W := fun _ ctx frame => do
  let (nameValue, ctx) ← lift ctx.pop
  let (objValue, ctx) ← lift ctx.pop
  let (value, ctx) ← lift ctx.pop
  emitIf nameValue.isLiveObject ⟨nameValue, .object⟩
  let varName ← lift (valueString E ctx nameValue)
  if objValue.isLiveObject then do
    emit ⟨objValue, .object⟩
    match ← lift (namedField E ctx objValue.bits varName) with
    | some id => do
        let world ← lift (E.setValue ctx.world objValue.bits id value)
        pure (true, { ctx with world := world }, frame)
    | none => pure (false, ctx, frame)
  else pure (false, ctx, frame)

/-! ## Arrays -/

def tracedLoadArray (E : Env W) : TracedFunc W := fun _ ctx frame => do
  let (indexValue, ctx) ← lift ctx.pop
  let (arrayValue, ctx) ← lift ctx.pop
  if arrayValue.isLiveObject then do
    emit ⟨arrayValue, .array⟩
    let (res, ctx, value) ← lift (E.arrayLoad ctx arrayValue.bits indexValue)
    pure (res, ctx.push value, frame)
  else pure (false, ctx, frame)

def tracedStoreArray (E : Env W) : TracedFunc W := fun _ ctx frame => do
  let (indexValue, ctx) ← lift ctx.pop
  let (arrayValue, ctx) ← lift ctx.pop
  let (value, ctx) ← lift ctx.pop
  if arrayValue.isLiveObject then do
    emit ⟨arrayValue, .array⟩
    let (res, ctx) ← lift (E.arrayStore ctx arrayValue.bits indexValue value)
    pure (res, ctx, frame)
  else pure (false, ctx, frame)

/-! ## Operators -/

/-- `arithmetic`, with the uses. -/
def tracedArithmetic (E : Env W) (exec : Execute W) (name : String)
    (intOp : Word → Word → Option Word) (doubleOp : Word → Word → Word) : TracedFunc W :=
  fun _ ctx frame => do
    let (v1, ctx) ← lift ctx.pop
    if v1.isObject then do
      emit ⟨v1, .operator name⟩
      let (res, ctx) ← lift (callOperator E exec name v1 ctx)
      pure (res, ctx, frame)
    else do
      let (v2, ctx) ← lift ctx.pop
      if v1.type = .double ∨ v2.type = .double then
        let d := doubleOp (v1.doubleValue E.double) (v2.doubleValue E.double)
        pure (true, ctx.push (Value.double d), frame)
      else do
        let i ← lift (intOp v1.bits v2.bits)
        pure (true, ctx.push (Value.integer i), frame)

def tracedAdd (E : Env W) (exec : Execute W) : TracedFunc W :=
  tracedArithmetic E exec "operator+" (fun a b => some (a + b)) E.double.add

def tracedSub (E : Env W) (exec : Execute W) : TracedFunc W :=
  tracedArithmetic E exec "operator-" (fun a b => some (a - b)) E.double.sub

def tracedMul (E : Env W) (exec : Execute W) : TracedFunc W :=
  tracedArithmetic E exec "operator*" (fun a b => some (a * b)) E.double.mul

def tracedDiv (E : Env W) (exec : Execute W) : TracedFunc W :=
  tracedArithmetic E exec "operator/" sdiv? E.double.div

def tracedCmp (E : Env W) (exec : Execute W) : TracedFunc W := fun _ ctx frame => do
  let (left, ctx) ← lift ctx.pop
  if left.type = .integer ∨ left.type = .double then do
    let (right, ctx) ← lift ctx.pop
    pure (true, ctx, { frame with flags := cmpNumbers E.double left right })
  else if left.isObject then do
    emit ⟨left, .operator "operator=="⟩
    let (res, ctx) ← lift (callOperator E exec "operator==" left ctx)
    if res then do
      let (result, ctx) ← lift ctx.pop
      pure (true, ctx, { frame with
        flags := Flags.ofResult (decide (result.bits = 0)) (result.bits.slt 0) })
    else pure (false, ctx, frame)
  else pure (false, ctx, frame)

/-! ## Calls -/

/-- `namedFunction`, of an object that has been dereferenced already. -/
def tracedNamedFunction (E : Env W) (ctx : Context W) (objValue : Value) (chain : ClassChain)
    (name : String) : Traced Use (Option Word) :=
  match chain.getFieldId name with
  | some funcFieldId => do
      emit ⟨objValue, .field funcFieldId⟩
      let funcFieldValue ← lift (E.getValue ctx.world objValue.bits funcFieldId)
      emit ⟨funcFieldValue, .function⟩
      let function ← lift (E.getValue ctx.world funcFieldValue.bits 0)
      pure (if function.bits = 0 then none else some function.bits)
  | none => pure (chain.findMethod name)

def tracedCallNamedTarget (E : Env W) (args : List Word) (ctx : Context W) :
    Traced Use (Context W × Option (Word × Word × ℕ)) := do
  let count ← lift args[0]?
  let (nameValue, ctx) ← lift ctx.pop
  let (objValue, ctx) ← lift ctx.pop
  emitIf (decide (nameValue.bits ≠ 0)) ⟨nameValue, .object⟩
  let funcName ← lift (E.getString ctx.world nameValue.bits)
  -- nor is the one of the object
  if objValue.bits = 0 then pure (ctx, none)
  else do
    emit ⟨objValue, .object⟩
    let clazz ← lift (E.getClass ctx.world objValue.bits)
    if clazz = 0 then pure (ctx, none)
    else do
      let chain ← lift (E.chain ctx.world clazz)
      match ← tracedNamedFunction E ctx objValue chain funcName with
      | some function => pure (ctx, some (function, objValue.bits, count.toNat))
      | none => pure (ctx, none)

def tracedCallObjTarget (E : Env W) (args : List Word) (ctx : Context W) :
    Traced Use (Context W × Option (Word × Word × ℕ)) := do
  let count ← lift args[0]?
  let (funcObjValue, ctx) ← lift ctx.pop
  if funcObjValue.isLiveObject then do
    emit ⟨funcObjValue, .function⟩
    let function ← lift (E.getValue ctx.world funcObjValue.bits 0)
    if function.bits = 0 then pure (ctx, none)
    else pure (ctx, some (function.bits, 0, count.toNat))
  else pure (ctx, none)

/-- `callFunction`, with the uses. -/
def tracedCallFunction (exec : Execute W)
    (target : List Word → Context W → Traced Use (Context W × Option (Word × Word × ℕ))) :
    TracedFunc W := fun args ctx frame => do
  match ← target args ctx with
  | (ctx, some (function, obj, count)) => do
      let (res, ctx) ← lift (exec function obj count ctx)
      pure (res, ctx, frame)
  | (ctx, none) => pure (false, ctx, frame)

def tracedCallNamed (E : Env W) (exec : Execute W) : TracedFunc W :=
  tracedCallFunction exec (tracedCallNamedTarget E)

def tracedCallObj (E : Env W) (exec : Execute W) : TracedFunc W :=
  tracedCallFunction exec (tracedCallObjTarget E)

/-- `g_opcodeTable`, with the uses. The other instructions use no value as an object. -/
def tracedTable (E : Env W) (exec : Execute W) : OpCode → TracedFunc W
  | .loadField => tracedLoadField E
  | .storeField => tracedStoreField E
  | .loadFieldNamed => tracedLoadFieldNamed E
  | .storeFieldNamed => tracedStoreFieldNamed E
  | .loadArray => tracedLoadArray E
  | .storeArray => tracedStoreArray E
  | .add => tracedAdd E exec
  | .sub => tracedSub E exec
  | .mul => tracedMul E exec
  | .div => tracedDiv E exec
  | .cmp => tracedCmp E exec
  | .callNamed => tracedCallNamed E exec
  | .callObj => tracedCallObj E exec
  | op => fun args ctx frame => lift (opcodeTable E exec op args ctx frame)

end B0rk
