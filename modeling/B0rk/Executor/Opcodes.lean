import B0rk.Executor.Objects

set_option autoImplicit false

/-! # The opcode functions

One definition for each function of executor.cpp. They take the operands that the source fetches,
with the frame's `pc` already behind them, and return the success flag, the context and the frame.
`none` is undefined behaviour, or a call that does not return. -/

namespace B0rk

variable {W : Type}

/-- `opcodeFunc_t`. -/
abbrev OpFunc (W : Type) := List Word → Context W → Frame → Option (Bool × Context W × Frame)

namespace Value

def isObject (v : Value) : Bool := decide (v.type = .object)

/-- `VALUE_OBJECT` and not the null pointer. -/
def isLiveObject (v : Value) : Bool := v.isObject && decide (v.bits ≠ 0)

/-- `DOUBLE_VALUE`. -/
def doubleValue (D : DoubleOps) (v : Value) : Word :=
  if v.type = .double then v.bits else D.ofInt v.bits

/-- The result of a C++ condition. -/
def ofBool (b : Bool) : Value := integer (if b then 1 else 0)

end Value

/-! ## Variables -/

def opcodeLoadVar : OpFunc W := fun args ctx frame => do
  let varId ← args[0]?
  let v ← frame.localVars[varId.toNat]?
  some (true, ctx.push v, frame)

/-- Writing a local variable; `none` outside the frame's variables. -/
def Frame.setVar (frame : Frame) (varId : ℕ) (v : Value) : Option Frame :=
  if varId < frame.localVars.length then
    some { frame with localVars := frame.localVars.set varId v }
  else none

def opcodeStoreVar : OpFunc W := fun args ctx frame => do
  let varId ← args[0]?
  let (v, ctx) ← ctx.pop
  let frame ← frame.setVar varId.toNat v
  some (true, ctx, frame)

def opcodeLoadField (E : Env W) : OpFunc W := fun args ctx frame => do
  let (objValue, ctx) ← ctx.pop
  let fieldId ← args[0]?
  let result ← E.getValue ctx.world objValue.bits fieldId.toNat
  some (true, ctx.push result, frame)

def opcodeStoreField (E : Env W) : OpFunc W := fun args ctx frame => do
  let (objValue, ctx) ← ctx.pop
  let (value, ctx) ← ctx.pop
  let fieldId ← args[0]?
  if objValue.bits = 0 then some (false, ctx, frame)
  else
    let world ← E.setValue ctx.world objValue.bits fieldId.toNat value
    some (true, { ctx with world := world }, frame)

/-- The field that the `_NAMED` instructions look up: `none` if there is none. -/
def namedField (E : Env W) (ctx : Context W) (obj : Word) (name : String) : Option (Option ℕ) := do
  let clazz ← E.getClass ctx.world obj
  let chain ← E.chain ctx.world clazz
  some (chain.getFieldId name)

def opcodeLoadFieldNamed (E : Env W) : OpFunc W := fun _ ctx frame => do
  let (nameValue, ctx) ← ctx.pop
  let (objValue, ctx) ← ctx.pop
  let varName ← E.getString ctx.world nameValue.bits
  if objValue.isLiveObject then
    match ← namedField E ctx objValue.bits varName with
    | some id =>
        let v ← E.getValue ctx.world objValue.bits id
        some (true, ctx.push v, frame)
    | none => some (false, ctx, frame)
  else some (false, ctx, frame)

/-- `String::getString`, for a value. -/
def valueString (E : Env W) (ctx : Context W) (v : Value) : Option String :=
  if v.isObject then E.getString ctx.world v.bits else some (E.toString v)

def opcodeStoreFieldNamed (E : Env W) : OpFunc W := fun _ ctx frame => do
  let (nameValue, ctx) ← ctx.pop
  let (objValue, ctx) ← ctx.pop
  let (value, ctx) ← ctx.pop
  let varName ← valueString E ctx nameValue
  if objValue.isLiveObject then
    match ← namedField E ctx objValue.bits varName with
    | some id =>
        let world ← E.setValue ctx.world objValue.bits id value
        some (true, { ctx with world := world }, frame)
    | none => some (false, ctx, frame)
  else some (false, ctx, frame)

def opcodeLoadStaticField (E : Env W) : OpFunc W := fun args ctx frame => do
  let clazz ← args[0]?
  let fieldId ← args[1]?
  let v ← E.getStaticField ctx.world clazz fieldId.toNat
  some (true, ctx.push v, frame)

def opcodeStoreStaticField (E : Env W) : OpFunc W := fun args ctx frame => do
  let clazz ← args[0]?
  let fieldId ← args[1]?
  let (v, ctx) ← ctx.pop
  let world ← E.setStaticField ctx.world clazz fieldId.toNat v
  some (true, { ctx with world := world }, frame)

def opcodeLoadArray (E : Env W) : OpFunc W := fun _ ctx frame => do
  let (indexValue, ctx) ← ctx.pop
  let (arrayValue, ctx) ← ctx.pop
  if arrayValue.isLiveObject then
    let (res, ctx, value) ← E.arrayLoad ctx arrayValue.bits indexValue
    -- pushed even when the index was rejected
    some (res, ctx.push value, frame)
  else some (false, ctx, frame)

def opcodeStoreArray (E : Env W) : OpFunc W := fun _ ctx frame => do
  let (indexValue, ctx) ← ctx.pop
  let (arrayValue, ctx) ← ctx.pop
  let (value, ctx) ← ctx.pop
  if arrayValue.isLiveObject then
    let (res, ctx) ← E.arrayStore ctx arrayValue.bits indexValue value
    some (res, ctx, frame)
  else some (false, ctx, frame)

/-- `localVars[varId].i += amount`, or `.d`: the tag stays. -/
def incVar (op : Word → Word → Word) : OpFunc W := fun args ctx frame => do
  let varId ← args[0]?
  let amount ← args[1]?
  let v ← frame.localVars[varId.toNat]?
  let frame ← frame.setVar varId.toNat { v with bits := op v.bits amount }
  some (true, ctx, frame)

def opcodeIncVar : OpFunc W := incVar (· + ·)

def opcodeIncVarD (D : DoubleOps) : OpFunc W := incVar D.add

/-! ## The stack -/

/-- Pushing the operand under a tag. -/
def pushOperand (type : ValueType) : OpFunc W := fun args ctx frame => do
  let i ← args[0]?
  some (true, ctx.push ⟨type, i⟩, frame)

def opcodePushI : OpFunc W := pushOperand .integer

def opcodePushD : OpFunc W := pushOperand .double

def opcodePushObj : OpFunc W := pushOperand .object

def opcodeDup : OpFunc W := fun _ ctx frame => do
  let v ← ctx.peek
  some (true, ctx.push v, frame)

def opcodeSwap : OpFunc W := fun _ ctx frame => do
  let (v1, ctx) ← ctx.pop
  let (v2, ctx) ← ctx.pop
  some (true, (ctx.push v1).push v2, frame)

def opcodePop : OpFunc W := fun _ ctx frame => do
  let (_, ctx) ← ctx.pop
  some (true, ctx, frame)

/-! ## Arithmetic -/

/-- `int64_t` division; dividing by zero, or the least number by `-1`, has no result. -/
def sdiv? (a b : Word) : Option Word :=
  if b = 0 ∨ (a = BitVec.intMin 64 ∧ b = -1) then none else some (a.sdiv b)

/-- `clazz->findMethod(name)->execute(context, v.object, 1)` for an operator of an object. -/
def callOperator (E : Env W) (exec : Execute W) (name : String) (v : Value) (ctx : Context W) :
    Option (Bool × Context W) := do
  let clazz ← E.getClass ctx.world v.bits
  let chain ← E.chain ctx.world clazz
  let func ← chain.findMethod name
  exec func v.bits 1 ctx

/-- The arithmetic of two values of any type: `ADD`, `SUB`, `MUL` and `DIV`. -/
def arithmetic (E : Env W) (exec : Execute W) (name : String)
    (intOp : Word → Word → Option Word) (doubleOp : Word → Word → Word) : OpFunc W :=
  fun _ ctx frame => do
    let (v1, ctx) ← ctx.pop
    if v1.isObject then
      let (res, ctx) ← callOperator E exec name v1 ctx
      some (res, ctx, frame)
    else
      let (v2, ctx) ← ctx.pop
      if v1.type = .double ∨ v2.type = .double then
        let d := doubleOp (v1.doubleValue E.double) (v2.doubleValue E.double)
        some (true, ctx.push (Value.double d), frame)
      else
        let i ← intOp v1.bits v2.bits
        some (true, ctx.push (Value.integer i), frame)

def opcodeAdd (E : Env W) (exec : Execute W) : OpFunc W :=
  arithmetic E exec "operator+" (fun a b => some (a + b)) E.double.add

def opcodeSub (E : Env W) (exec : Execute W) : OpFunc W :=
  arithmetic E exec "operator-" (fun a b => some (a - b)) E.double.sub

def opcodeMul (E : Env W) (exec : Execute W) : OpFunc W :=
  arithmetic E exec "operator*" (fun a b => some (a * b)) E.double.mul

def opcodeDiv (E : Env W) (exec : Execute W) : OpFunc W :=
  arithmetic E exec "operator/" sdiv? E.double.div

/-- The arithmetic of two values whose type the assembler knows; the tags are not looked at. -/
def typedArithmetic (type : ValueType) (op : Word → Word → Option Word) : OpFunc W :=
  fun _ ctx frame => do
    let (v1, ctx) ← ctx.pop
    let (v2, ctx) ← ctx.pop
    let r ← op v1.bits v2.bits
    some (true, ctx.push ⟨type, r⟩, frame)

def opcodeAddI : OpFunc W := typedArithmetic .integer (fun a b => some (a + b))

def opcodeSubI : OpFunc W := typedArithmetic .integer (fun a b => some (a - b))

def opcodeMulI : OpFunc W := typedArithmetic .integer (fun a b => some (a * b))

def opcodeDivI : OpFunc W := typedArithmetic .integer sdiv?

def opcodeAddD (D : DoubleOps) : OpFunc W := typedArithmetic .double (fun a b => some (D.add a b))

def opcodeSubD (D : DoubleOps) : OpFunc W := typedArithmetic .double (fun a b => some (D.sub a b))

def opcodeMulD (D : DoubleOps) : OpFunc W := typedArithmetic .double (fun a b => some (D.mul a b))

def opcodeDivD (D : DoubleOps) : OpFunc W := typedArithmetic .double (fun a b => some (D.div a b))

def opcodeAnd : OpFunc W := fun _ ctx frame => do
  let (v1, ctx) ← ctx.pop
  let (v2, ctx) ← ctx.pop
  some (true, ctx.push (Value.ofBool (decide (v1.bits ≠ 0) && decide (v2.bits ≠ 0))), frame)

def opcodeNot : OpFunc W := fun _ ctx frame => do
  let (v1, ctx) ← ctx.pop
  some (true, ctx.push (Value.ofBool (decide (v1.bits = 0))), frame)

/-! ## Conditions -/

/-- Pushing a condition of the flags. -/
def pushCondition (cond : Flags → Bool) : OpFunc W := fun _ ctx frame =>
  some (true, ctx.push (Value.ofBool (cond frame.flags)), frame)

def opcodePushCE : OpFunc W := pushCondition (fun f => f.zero)

def opcodePushCNE : OpFunc W := pushCondition (fun f => !f.zero)

def opcodePushCL : OpFunc W := pushCondition (fun f => f.sign != f.overflow)

def opcodePushCLE : OpFunc W := pushCondition (fun f => f.zero || f.sign != f.overflow)

def opcodePushCG : OpFunc W := pushCondition (fun f => !f.zero && f.sign == f.overflow)

def opcodePushCGE : OpFunc W := pushCondition (fun f => f.sign == f.overflow)

/-- The flags of a comparison whose result is zero, or negative. -/
def Flags.ofResult (zero sign : Bool) : Flags := ⟨zero, sign, !zero || sign⟩

/-- `CMP_INTEGER`. -/
def cmpInteger (left right : Word) : Flags :=
  let result := right - left
  Flags.ofResult (decide (result = 0)) (result.slt 0)

/-- `CMP_DOUBLE`. -/
def cmpDouble (D : DoubleOps) (left right : Word) : Flags :=
  let result := D.sub right left
  Flags.ofResult (D.nearZero result) (D.negative result && !D.nearZero result)

/-- What `CMP` makes of two values of which the left one is a number. -/
def cmpNumbers (D : DoubleOps) (left right : Value) : Flags :=
  if left.type = .integer ∧ right.type = .integer then cmpInteger left.bits right.bits
  else if left.type = .double ∨ right.type = .double then
    cmpDouble D (left.doubleValue D) (right.doubleValue D)
  else Flags.ofResult false true

def opcodeCmp (E : Env W) (exec : Execute W) : OpFunc W := fun _ ctx frame => do
  let (left, ctx) ← ctx.pop
  if left.type = .integer ∨ left.type = .double then
    let (right, ctx) ← ctx.pop
    some (true, ctx, { frame with flags := cmpNumbers E.double left right })
  else if left.isObject then
    let (res, ctx) ← callOperator E exec "operator==" left ctx
    if res then
      let (result, ctx) ← ctx.pop
      some (true, ctx, { frame with
        flags := Flags.ofResult (decide (result.bits = 0)) (result.bits.slt 0) })
    else some (false, ctx, frame)
  else some (false, ctx, frame)

def opcodeCmpI : OpFunc W := fun _ ctx frame => do
  let (left, ctx) ← ctx.pop
  let (right, ctx) ← ctx.pop
  some (true, ctx, { frame with flags := cmpInteger left.bits right.bits })

def opcodeCmpD (D : DoubleOps) : OpFunc W := fun _ ctx frame => do
  let (left, ctx) ← ctx.pop
  let (right, ctx) ← ctx.pop
  some (true, ctx, { frame with flags := cmpDouble D left.bits right.bits })

/-- Jumping to the operand when a condition of the flags holds. -/
def branch (cond : Flags → Bool) : OpFunc W := fun args ctx frame => do
  let dest ← args[0]?
  some (true, ctx, if cond frame.flags then { frame with pc := dest.toNat } else frame)

def opcodeJmp : OpFunc W := branch (fun _ => true)

def opcodeBEq : OpFunc W := branch (fun f => f.zero)

def opcodeBNE : OpFunc W := branch (fun f => !f.zero)

def opcodeBL : OpFunc W := branch (fun f => f.sign != f.overflow)

def opcodeBLE : OpFunc W := branch (fun f => !f.zero || f.sign == f.overflow)

def opcodeBG : OpFunc W := branch (fun f => !f.zero && f.sign == f.overflow)

def opcodeBGE : OpFunc W := branch (fun f => f.sign == f.overflow)

/-! ## Calls -/

/-- What a call instruction has found out before it calls: the context without what it popped, and
    the function, the instance and the number of arguments, unless it fails. -/
abbrev CallTarget (W : Type) :=
  List Word → Context W → Option (Context W × Option (Word × Word × ℕ))

def callTarget : CallTarget W := fun args ctx => do
  let (objValue, ctx) ← ctx.pop
  let function ← args[0]?
  let count ← args[1]?
  some (ctx, some (function, objValue.bits, count.toNat))

def callStaticTarget : CallTarget W := fun args ctx => do
  let function ← args[0]?
  let count ← args[1]?
  some (ctx, some (function, 0, count.toNat))

/-- The function behind a name: a field that holds a function object, or else a method. -/
def namedFunction (E : Env W) (ctx : Context W) (obj : Word) (chain : ClassChain) (name : String) :
    Option (Option Word) :=
  match chain.getFieldId name with
  | some funcFieldId => do
      let funcFieldValue ← E.getValue ctx.world obj funcFieldId
      let function ← E.getValue ctx.world funcFieldValue.bits 0
      some (if function.bits = 0 then none else some function.bits)
  | none => some (chain.findMethod name)

def callNamedTarget (E : Env W) : CallTarget W := fun args ctx => do
  let count ← args[0]?
  let (nameValue, ctx) ← ctx.pop
  let (objValue, ctx) ← ctx.pop
  let funcName ← E.getString ctx.world nameValue.bits
  let obj := objValue.bits
  if obj = 0 then some (ctx, none)
  else
    let clazz ← E.getClass ctx.world obj
    if clazz = 0 then some (ctx, none)
    else
      let chain ← E.chain ctx.world clazz
      match ← namedFunction E ctx obj chain funcName with
      | some function => some (ctx, some (function, obj, count.toNat))
      | none => some (ctx, none)

def callObjTarget (E : Env W) : CallTarget W := fun args ctx => do
  let count ← args[0]?
  let (funcObjValue, ctx) ← ctx.pop
  if funcObjValue.isLiveObject then
    let function ← E.getValue ctx.world funcObjValue.bits 0
    if function.bits = 0 then some (ctx, none)
    else some (ctx, some (function.bits, 0, count.toNat))
  else some (ctx, none)

/-- `return function->execute(context, obj, count);` -/
def callFunction (exec : Execute W) (target : CallTarget W) : OpFunc W :=
  fun args ctx frame => do
    match ← target args ctx with
    | (ctx, some (function, obj, count)) =>
        let (res, ctx) ← exec function obj count ctx
        some (res, ctx, frame)
    | (ctx, none) => some (false, ctx, frame)

def opcodeCall (exec : Execute W) : OpFunc W := callFunction exec callTarget

def opcodeCallStatic (exec : Execute W) : OpFunc W := callFunction exec callStaticTarget

def opcodeCallNamed (E : Env W) (exec : Execute W) : OpFunc W :=
  callFunction exec (callNamedTarget E)

def opcodeCallObj (E : Env W) (exec : Execute W) : OpFunc W := callFunction exec (callObjTarget E)

def opcodeNew (E : Env W) (exec : Execute W) : OpFunc W := fun args ctx frame => do
  let clazz ← args[0]?
  let count ← args[1]?
  let (obj, ctx) ← newObject E exec clazz count.toNat ctx
  if obj = 0 then some (false, ctx, frame)
  else some (true, ctx.push (Value.object obj), frame)

def opcodeNewFunction (E : Env W) (exec : Execute W) : OpFunc W := fun args ctx frame => do
  let func ← args[0]?
  let ctx := ctx.push (Value.object func)
  let (funcObject, ctx) ← newObject E exec E.functionClass 1 ctx
  some (true, ctx.push (Value.object funcObject), frame)

def opcodeReturn : OpFunc W := fun _ ctx frame => do
  let (result, ctx) ← ctx.pop
  let (frameCheck, ctx) ← ctx.pop
  if frameCheck.type ≠ .frame ∨ frameCheck.bits ≠ frame.addr then some (false, ctx, frame)
  else some (true, ctx.push result, { frame with running := false })

/-! ## Exceptions -/

def opcodeThrow (E : Env W) (exec : Execute W) : OpFunc W := fun _ ctx frame => do
  let (value, ctx) ← ctx.pop
  let (exception, ctx) ← createException E exec value ctx
  some (true, ctx.throwException exception, frame)

def opcodePushHandler : OpFunc W := fun args ctx frame => do
  let excepVar ← args[0]?
  let handlerPC ← args[1]?
  some (true, ctx, { frame with
    handlerStack := ⟨excepVar.toNat, handlerPC.toNat⟩ :: frame.handlerStack })

def opcodePopHandler : OpFunc W := fun _ ctx frame =>
  match frame.handlerStack with
  | [] => none
  | _ :: handlers => some (true, ctx, { frame with handlerStack := handlers })

def opcodeInvalid : OpFunc W := fun _ ctx frame => some (false, ctx, frame)

/-- `g_opcodeTable`. -/
def opcodeTable (E : Env W) (exec : Execute W) : OpCode → OpFunc W
  | .loadVar => opcodeLoadVar
  | .storeVar => opcodeStoreVar
  | .loadField => opcodeLoadField E
  | .storeField => opcodeStoreField E
  | .loadFieldNamed => opcodeLoadFieldNamed E
  | .storeFieldNamed => opcodeStoreFieldNamed E
  | .loadStaticField => opcodeLoadStaticField E
  | .storeStaticField => opcodeStoreStaticField E
  | .loadArray => opcodeLoadArray E
  | .storeArray => opcodeStoreArray E
  | .incVar => opcodeIncVar
  | .incVarD => opcodeIncVarD E.double
  | .pushI => opcodePushI
  | .pushD => opcodePushD
  | .pushObj => opcodePushObj
  | .dup => opcodeDup
  | .swap => opcodeSwap
  | .add => opcodeAdd E exec
  | .sub => opcodeSub E exec
  | .mul => opcodeMul E exec
  | .div => opcodeDiv E exec
  | .and => opcodeAnd
  | .not => opcodeNot
  | .addI => opcodeAddI
  | .subI => opcodeSubI
  | .mulI => opcodeMulI
  | .divI => opcodeDivI
  | .andI => opcodeAnd
  | .notI => opcodeNot
  | .addD => opcodeAddD E.double
  | .subD => opcodeSubD E.double
  | .mulD => opcodeMulD E.double
  | .divD => opcodeDivD E.double
  | .pushCE => opcodePushCE
  | .pushCNE => opcodePushCNE
  | .pushCL => opcodePushCL
  | .pushCLE => opcodePushCLE
  | .pushCG => opcodePushCG
  | .pushCGE => opcodePushCGE
  | .pop => opcodePop
  | .call => opcodeCall exec
  | .callStatic => opcodeCallStatic exec
  | .callNamed => opcodeCallNamed E exec
  | .callObj => opcodeCallObj E exec
  | .new => opcodeNew E exec
  | .newFunction => opcodeNewFunction E exec
  | .ret => opcodeReturn
  | .cmp => opcodeCmp E exec
  | .cmpI => opcodeCmpI
  | .cmpD => opcodeCmpD E.double
  | .jmp => opcodeJmp
  | .bEq => opcodeBEq
  | .bNE => opcodeBNE
  | .bL => opcodeBL
  | .bLE => opcodeBLE
  | .bG => opcodeBG
  | .bGE => opcodeBGE
  | .throw => opcodeThrow E exec
  | .pushTry => opcodePushHandler
  | .popTry => opcodePopHandler
  | .nop | .pushVar | .other _ => opcodeInvalid

end B0rk
