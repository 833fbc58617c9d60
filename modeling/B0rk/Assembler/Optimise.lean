import B0rk.Executor.Opcodes

set_option autoImplicit false

/-! # The optimiser

`Assembler::optimise`: the three passes of `Assembler::optimiseVars`, and `Assembler::optimiseArithmetic`.
They go through the instructions in the order in which they stand, whatever jumps there are. The number of an opcode
has its group in its third hexadecimal digit and the type that it works on in the second one. -/

namespace B0rk

/-- `(op & 0xf0) >> 4`. -/
def OpCode.type (op : OpCode) : ℕ := (op.toNat &&& 0xf0) >>> 4

/-- `struct VarInfo`. A `lastValue` of type `VALUE_UNKNOWN` is none. -/
structure VarInfo where
  type : ℕ
  loaded : ℕ
  stored : ℕ
  lastValue : Value
  deriving DecidableEq, Repr

/-- "Set up vars array". -/
def VarInfo.initial (localVars argCount : ℕ) : List VarInfo :=
  (List.range localVars).map (fun i => ⟨0, 0, if i ≤ argCount then 1 else 0, Value.zero⟩)

/-- What the first pass carries from one instruction to the next one. -/
structure InferState where
  vars : List VarInfo
  prevType : ℕ
  lastValue : Value
  /-- the variable that the instruction before has loaded, if it is a `LOAD_VAR` -/
  loaded : Option Word

/-- The start of the first pass. -/
def InferState.initial (localVars argCount : ℕ) : InferState :=
  ⟨VarInfo.initial localVars argCount, 0, Value.zero, none⟩

/-- "Optimised out two LOAD_VARs": what the look at the next instruction makes of it. -/
def dupSecondLoad (loaded : Option Word) (inst : Instruction) : Instruction :=
  if inst.op = .loadVar ∧ loaded.isSome ∧ inst.args[0]? = loaded then ⟨.dup, []⟩ else inst

/-- The type is added to an arithmetic instruction for any type. -/
def addType (prevType : ℕ) (inst : Instruction) : Instruction :=
  ⟨.ofNat (inst.op.toNat ||| prevType <<< 4), inst.args⟩

/-- `prevType != 0 && type == 0 && (op & 0xf00) == 0x200`. -/
def takesType (prevType : ℕ) (op : OpCode) : Bool :=
  prevType != 0 && op.type == 0 && op.toNat &&& 0xf00 == 0x200

/-- The constant that an instruction pushes. -/
def pushedConstant (inst : Instruction) : Option Value :=
  match inst.op with
  | .pushI => inst.args[0]?.map Value.integer
  | .pushD => inst.args[0]?.map Value.double
  | _ => some Value.zero

/-- One instruction of the first pass: what becomes of it. -/
def inferInstruction (s : InferState) (inst : Instruction) : Option (Instruction × InferState) :=
  match inst.op with
  | .loadVar => do
      let v ← inst.args[0]?
      let info ← s.vars[v.toNat]?
      some (inst, {
        vars := s.vars.set v.toNat { info with loaded := info.loaded + 1 }
        prevType := info.type, lastValue := info.lastValue, loaded := some v })
  | .storeVar => do
      let v ← inst.args[0]?
      let info ← s.vars[v.toNat]?
      some (inst, { s with
        vars := s.vars.set v.toNat
          ⟨s.prevType, info.loaded, info.stored + 1, s.lastValue⟩
        loaded := none })
  | .incVar | .incVarD => do
      let v ← inst.args[0]?
      let info ← s.vars[v.toNat]?
      some (inst, { s with
        vars := s.vars.set v.toNat ⟨0, info.loaded + 1, info.stored + 1, info.lastValue⟩
        loaded := none })
  | op => do
      let lastValue ← pushedConstant inst
      let s' : InferState := { s with lastValue := lastValue, loaded := none }
      if takesType s.prevType op then some (addType s.prevType inst, s')
      else if op = .dup then some (inst, s')
      else some (inst, { s' with prevType := op.type })

/-- The first pass. -/
def inferTypes : List Instruction → InferState → Option (List Instruction × List VarInfo)
  | [], s => some ([], s.vars)
  | inst :: rest, s => do
      let (inst, s) ← inferInstruction s (dupSecondLoad s.loaded inst)
      let (rest, vars) ← inferTypes rest s
      some (inst :: rest, vars)

/-- A variable that is stored once, and a known value. -/
def VarInfo.isConstant (info : VarInfo) : Bool :=
  info.stored == 1 && info.lastValue.type != .unknown

/-- `varPass`. -/
def needsVarPass (vars : List VarInfo) : Bool :=
  vars.any (fun info => info.isConstant || info.loaded == 0)

/-- The constant that a load of a variable is replaced by. -/
def VarInfo.constant (info : VarInfo) : Option Value :=
  if info.isConstant then
    if info.type = 1 then some (Value.integer info.lastValue.bits)
    else if info.type = 2 then some (Value.double info.lastValue.bits)
    else none
  else none

/-- The instruction that pushes a constant. -/
def pushConstant (v : Value) : Instruction :=
  ⟨if v.type = .integer then .pushI else .pushD, [v.bits]⟩

/-- The second pass: "Replace known variable loads with a PUSHx". -/
def replaceLoads : List Instruction → List VarInfo → Option (List Instruction × List VarInfo)
  | [], vars => some ([], vars)
  | inst :: rest, vars =>
      if inst.op = .loadVar then do
        let v ← inst.args[0]?
        let info ← vars[v.toNat]?
        match info.constant with
        | some c => do
            let (rest, vars) ← replaceLoads rest
              (vars.set v.toNat { info with loaded := info.loaded - 1 })
            some (pushConstant c :: rest, vars)
        | none => do
            let (rest, vars) ← replaceLoads rest vars
            some (inst :: rest, vars)
      else do
        let (rest, vars) ← replaceLoads rest vars
        some (inst :: rest, vars)

/-- Both passes, for the code of a function with `argCount` parameters. -/
def optimiseLoads (localVars argCount : ℕ) (code : List Instruction) :
    Option (List Instruction × List VarInfo) := do
  let (code, vars) ← inferTypes code (.initial localVars argCount)
  if needsVarPass vars then replaceLoads code vars else some (code, vars)

/-! ## Removing instructions -/

/-- "Update addresses", for one instruction. -/
def removeAddress (pos : ℕ) (inst : Instruction) : Option Instruction :=
  match inst.op.address with
  | none => some inst
  | some j => do
      let addr ← inst.args[j]?
      if pos < addr.toNat then some ⟨inst.op, inst.args.set j (addr - 1)⟩ else some inst

/-- `removeInstruction`. -/
def removeInstruction (pos : ℕ) (code : List Instruction) : Option (List Instruction) :=
  (code.eraseIdx pos).mapM (removeAddress pos)

/-- "Do the removal!": `pos` counts the instructions that are gone already. -/
def removeInstructions : List ℕ → ℕ → List Instruction → Option (List Instruction)
  | [], _, code => some code
  | r :: removeList, pos, code => do
      let code ← removeInstruction (r - pos) code
      removeInstructions removeList (pos + 1) code

/-- `set<int>::insert`, into the elements in ascending order. -/
def insertPos (pos : ℕ) : List ℕ → List ℕ
  | [] => [pos]
  | r :: removeList =>
      if pos < r then pos :: r :: removeList
      else if pos = r then r :: removeList
      else r :: insertPos pos removeList

/-- The third pass: "Check for operations that we can ditch", a constant and the store of it to a variable
    that is never loaded. It goes on from the position `pos`, behind an instruction `prevOp`. -/
def deadStores (vars : List VarInfo) : List Instruction → ℕ → OpCode → Option (List ℕ)
  | [], _, _ => some []
  | inst :: rest, pos, prevOp => do
      let removeList ← deadStores vars rest (pos + 1) inst.op
      if inst.op = .storeVar then do
        let v ← inst.args[0]?
        let info ← vars[v.toNat]?
        if info.loaded = 0 ∧ (prevOp = .pushI ∨ prevOp = .pushD) then
          some (insertPos (pos - 1) (insertPos pos removeList))
        else some removeList
      else some removeList

/-- `optimiseVars`, with the value of `hasOptimised`. -/
def optimiseVars (localVars argCount : ℕ) (code : List Instruction) :
    Option (List Instruction × Bool) := do
  let (code, vars) ← optimiseLoads localVars argCount code
  -- `removePass`
  if vars.any (fun info => info.loaded == 0) then do
    let removeList ← deadStores vars code 0 .nop
    let code ← removeInstructions removeList 0 code
    some (code, !removeList.isEmpty)
  else some (code, false)

/-! ## Arithmetic -/

/-- `OPCODE_TYPE`. -/
def OpCode.group (op : OpCode) : ℕ := op.toNat &&& 0xf00

/-- `OPCODE_IS_ARITHMETIC`. -/
def OpCode.isArithmetic (op : OpCode) : Bool := op.group == 0x200

/-- `OPCODE_IS_STACK`. -/
def OpCode.isStack (op : OpCode) : Bool := op.group == 0x300

/-- The result of an operation on two integer constants, if there is such an operation. Dividing by
    zero, or the least number by `-1`, has no result at all. -/
def foldIntegers (op : OpCode) (i1 i2 : Word) : Option (Option Word) :=
  match op with
  | .addI => some (some (i1 + i2))
  | .subI => some (some (i1 - i2))
  | .mulI => some (some (i1 * i2))
  | .divI => (sdiv? i1 i2).map some
  | .andI => some (some (i1 &&& i2))
  | _ => some none

/-- The same for two doubles. -/
def foldDoubles (D : DoubleOps) (op : OpCode) (d1 d2 : Word) : Option Word :=
  match op with
  | .addD => some (D.add d1 d2)
  | .subD => some (D.sub d1 d2)
  | .mulD => some (D.mul d1 d2)
  | .divD => some (D.div d1 d2)
  | _ => none

/-- What the loop of `optimiseArithmetic` carries from one instruction to the next one. -/
structure ArithmeticState where
  code : List Instruction
  prevOp1 : OpCode
  prevOp2 : OpCode
  prevOp3 : OpCode
  removeList : List ℕ
  changed : Bool

/-- `m_code[pos].args[0]`. -/
def ArithmeticState.operand (s : ArithmeticState) (pos : ℕ) : Option Word := do
  let inst ← s.code[pos]?
  inst.args[0]?

/-- Writing `m_code[pos]`, with the instructions that it takes the place of. -/
def ArithmeticState.replace (s : ArithmeticState) (pos : ℕ) (inst : Instruction)
    (removed : List ℕ) : ArithmeticState :=
  { s with
    code := s.code.set pos inst
    removeList := removed.foldl (fun l r => insertPos r l) s.removeList
    changed := true }

/-- Two constants with an operation behind them. -/
def foldConstants (D : DoubleOps) (pos : ℕ) (inst : Instruction) (s : ArithmeticState) :
    Option ArithmeticState :=
  if inst.op.type = s.prevOp1.type ∧ inst.op.type = s.prevOp2.type then
    if inst.op.type = 1 then do
      let i1 ← s.operand (pos - 1)
      let i2 ← s.operand (pos - 2)
      match ← foldIntegers inst.op i1 i2 with
      | some result =>
          some (s.replace pos ⟨.pushI, inst.args ++ [result]⟩ [pos - 1, pos - 2])
      | none => some s
    else if inst.op.type = 2 then do
      let d1 ← s.operand (pos - 1)
      let d2 ← s.operand (pos - 2)
      match foldDoubles D inst.op d1 d2 with
      | some result =>
          some (s.replace pos ⟨.pushD, inst.args ++ [result]⟩ [pos - 1, pos - 2])
      | none => some s
    else some s
  else some s

/-- A constant that is added to a variable. -/
def foldIncrement (pos : ℕ) (inst : Instruction) (s : ArithmeticState) : Option ArithmeticState := do
  let var ← s.operand (if s.prevOp2 = .loadVar then pos - 2 else pos - 3)
  if s.prevOp1 = .addD ∧ s.prevOp1.type = 2 ∧ s.prevOp3.type = 2 then do
    let d ← s.operand (if s.prevOp3 = .pushD then pos - 3 else pos - 2)
    if inst.args = [] then none
    else
      some (s.replace pos ⟨.incVarD, inst.args.set 0 var ++ [d]⟩ [pos - 1, pos - 2, pos - 3])
  else some s

/-- What the loop does at an instruction. -/
def foldInstruction (D : DoubleOps) (pos : ℕ) (inst : Instruction) (s : ArithmeticState) :
    Option ArithmeticState :=
  if inst.op.isArithmetic && s.prevOp1.isStack && s.prevOp2.isStack then foldConstants D pos inst s
  else if inst.op = .storeVar && s.prevOp1.isArithmetic &&
      ((s.prevOp2 = .loadVar && s.prevOp3.isStack) ||
        (s.prevOp2.isStack && s.prevOp3 = .loadVar)) then foldIncrement pos inst s
  else some s

/-- One instruction of the loop. -/
def arithmeticStep (D : DoubleOps) (s : ArithmeticState) (pos : ℕ) : Option ArithmeticState := do
  let inst ← s.code[pos]?
  let s ← foldInstruction D pos inst s
  some { s with prevOp3 := s.prevOp2, prevOp2 := s.prevOp1, prevOp1 := inst.op }

/-- The loop over the code. -/
def arithmeticScan (D : DoubleOps) (code : List Instruction) : Option ArithmeticState :=
  (List.range code.length).foldlM (arithmeticStep D) ⟨code, .nop, .nop, .nop, [], false⟩

/-- The loop, and the removal behind it. -/
def arithmeticPass (D : DoubleOps) (code : List Instruction) : Option (List Instruction × Bool) := do
  let s ← arithmeticScan D code
  let code ← removeInstructions s.removeList 0 s.code
  some (code, s.changed)

/-- `optimiseArithmetic`, with the value of `hasOptimised`. -/
def optimiseArithmetic (D : DoubleOps) : ℕ → List Instruction → Bool →
    Option (List Instruction × Bool)
  | 0, _, _ => none
  | fuel + 1, code, hasOptimised => do
      let (code, changed) ← arithmeticPass D code
      if changed then optimiseArithmetic D fuel code true else some (code, hasOptimised)

/-- `optimise`. -/
def optimise (D : DoubleOps) (localVars argCount : ℕ) : ℕ → List Instruction →
    Option (List Instruction)
  | 0, _ => none
  | fuel + 1, code => do
      let (code, changed) ← optimiseVars localVars argCount code
      let (code, changed) ← optimiseArithmetic D (code.length + 1) code changed
      if changed then optimise D localVars argCount fuel code else some code

end B0rk
