import B0rk.Assembler.Optimise

set_option autoImplicit false

/-! # The optimiser on any instructions

The passes read `args[0]` of an instruction and `vars[v]` without a look at the sizes. Here such a read
gives whatever lies behind the vector, or nothing, and what would need it is left out then; a write
behind the vector is lost. Where all of them stay inside, these passes are the ones of the optimiser.

A division that traps ends the program, and the fuel of a loop may run out. -/

namespace B0rk

/-- What lies behind the operands of an instruction and behind the array `vars`. -/
structure Beyond where
  arg : Instruction → Option Word
  var : ℕ → Option VarInfo

/-- Why an optimisation has no result. -/
inductive Stop
  | trap
  | fuel
  deriving DecidableEq, Repr

namespace Beyond

/-- `args[0]`. -/
def operand (B : Beyond) (inst : Instruction) : Option Word := inst.args[0]?.or (B.arg inst)

/-- `args[0]` of an instruction, and `vars[args[0]]`. -/
def operandInfo (B : Beyond) (vars : List VarInfo) (inst : Instruction) :
    Option (Word × VarInfo) := do
  let v ← B.operand inst
  let info ← vars[v.toNat]?.or (B.var v.toNat)
  some (v, info)

/-! ## Variables -/

/-- The constant that an instruction pushes. -/
def pushedConstant (B : Beyond) (s : InferState) (inst : Instruction) : Value :=
  match inst.op with
  | .pushI => ((B.operand inst).map Value.integer).getD s.lastValue
  | .pushD => ((B.operand inst).map Value.double).getD s.lastValue
  | _ => Value.zero

/-- One instruction of the first pass: what becomes of it. -/
def inferInstruction (B : Beyond) (s : InferState) (inst : Instruction) : Instruction × InferState :=
  match inst.op with
  | .loadVar =>
      match B.operandInfo s.vars inst with
      | some (v, info) =>
          (inst, {
            vars := s.vars.set v.toNat { info with loaded := info.loaded + 1 }
            prevType := info.type, lastValue := info.lastValue, loaded := inst.args[0]? })
      | none => (inst, { s with loaded := inst.args[0]? })
  | .storeVar =>
      match B.operandInfo s.vars inst with
      | some (v, info) =>
          (inst, { s with
            vars := s.vars.set v.toNat
              ⟨s.prevType, info.loaded, info.stored + 1, s.lastValue⟩
            loaded := none })
      | none => (inst, { s with loaded := none })
  | .incVar | .incVarD =>
      match B.operandInfo s.vars inst with
      | some (v, info) =>
          (inst, { s with
            vars := s.vars.set v.toNat ⟨0, info.loaded + 1, info.stored + 1, info.lastValue⟩
            loaded := none })
      | none => (inst, { s with loaded := none })
  | op =>
      let s' : InferState := { s with lastValue := B.pushedConstant s inst, loaded := none }
      if takesType s.prevType op then (addType s.prevType inst, s')
      else if op = .dup then (inst, s')
      else (inst, { s' with prevType := op.type })

/-- The first pass. -/
def inferTypes (B : Beyond) : List Instruction → InferState → List Instruction × List VarInfo
  | [], s => ([], s.vars)
  | inst :: rest, s =>
      let (inst, s) := B.inferInstruction s (dupSecondLoad s.loaded inst)
      let (rest, vars) := B.inferTypes rest s
      (inst :: rest, vars)

/-- What the second pass makes of an instruction. -/
def replaceLoad (B : Beyond) (vars : List VarInfo) (inst : Instruction) :
    Instruction × List VarInfo :=
  if inst.op = .loadVar then
    match B.operandInfo vars inst with
    | some (v, info) =>
        match info.constant with
        | some c =>
            (⟨(pushConstant c).op, inst.args.set 0 c.bits⟩,
              vars.set v.toNat { info with loaded := info.loaded - 1 })
        | none => (inst, vars)
    | none => (inst, vars)
  else (inst, vars)

/-- The second pass. -/
def replaceLoads (B : Beyond) : List Instruction → List VarInfo → List Instruction × List VarInfo
  | [], vars => ([], vars)
  | inst :: rest, vars =>
      let (inst, vars) := B.replaceLoad vars inst
      let (rest, vars) := B.replaceLoads rest vars
      (inst :: rest, vars)

/-- Both passes. -/
def optimiseLoads (B : Beyond) (localVars argCount : ℕ) (code : List Instruction) :
    List Instruction × List VarInfo :=
  let (code, vars) := B.inferTypes code (.initial localVars argCount)
  if needsVarPass vars then B.replaceLoads code vars else (code, vars)

/-- A store to a variable that is never loaded. -/
def isDeadStore (B : Beyond) (vars : List VarInfo) (inst : Instruction) : Bool :=
  inst.op = .storeVar && (B.operandInfo vars inst).any (fun x => x.2.loaded == 0)

/-- The third pass. -/
def deadStores (B : Beyond) (vars : List VarInfo) : List Instruction → ℕ → OpCode → List ℕ
  | [], _, _ => []
  | inst :: rest, pos, prevOp =>
      let removeList := B.deadStores vars rest (pos + 1) inst.op
      if B.isDeadStore vars inst = true ∧ (prevOp = .pushI ∨ prevOp = .pushD) then
        insertPos (pos - 1) (insertPos pos removeList)
      else removeList

/-! ## Removing instructions -/

/-- `removeInstruction`; an address behind the vector is left alone. -/
def removeInstruction (pos : ℕ) (code : List Instruction) : List Instruction :=
  (code.eraseIdx pos).map (fun inst => (removeAddress pos inst).getD inst)

/-- "Do the removal!" -/
def removeInstructions : List ℕ → ℕ → List Instruction → List Instruction
  | [], _, code => code
  | r :: removeList, pos, code =>
      removeInstructions removeList (pos + 1) (removeInstruction (r - pos) code)

/-- `optimiseVars`, with the value of `hasOptimised`. -/
def optimiseVars (B : Beyond) (localVars argCount : ℕ) (code : List Instruction) :
    List Instruction × Bool :=
  let (code, vars) := B.optimiseLoads localVars argCount code
  if vars.any (fun info => info.loaded == 0) then
    let removeList := B.deadStores vars code 0 .nop
    (removeInstructions removeList 0 code, !removeList.isEmpty)
  else (code, false)

/-! ## Arithmetic -/

/-- `m_code[pos].args[0]`. -/
def operandAt (B : Beyond) (s : ArithmeticState) (pos : ℕ) : Option Word := do
  let inst ← s.code[pos]?
  B.operand inst

/-- Two constants with an operation behind them; `none` where the division traps. -/
def foldConstants (B : Beyond) (D : DoubleOps) (pos : ℕ) (inst : Instruction)
    (s : ArithmeticState) : Option ArithmeticState :=
  if inst.op.type = s.prevOp1.type ∧ inst.op.type = s.prevOp2.type then
    match B.operandAt s (pos - 1), B.operandAt s (pos - 2) with
    | some c1, some c2 =>
        if inst.op.type = 1 then do
          match ← foldIntegers inst.op c1 c2 with
          | some result =>
              some (s.replace pos ⟨.pushI, inst.args ++ [result]⟩ [pos - 1, pos - 2])
          | none => some s
        else if inst.op.type = 2 then
          match foldDoubles D inst.op c1 c2 with
          | some result =>
              some (s.replace pos ⟨.pushD, inst.args ++ [result]⟩ [pos - 1, pos - 2])
          | none => some s
        else some s
    | _, _ => some s
  else some s

/-- A constant that is added to a variable. -/
def foldIncrement (B : Beyond) (pos : ℕ) (inst : Instruction) (s : ArithmeticState) :
    ArithmeticState :=
  if s.prevOp1 = .addD ∧ s.prevOp1.type = 2 ∧ s.prevOp3.type = 2 then
    match B.operandAt s (if s.prevOp2 = .loadVar then pos - 2 else pos - 3),
      B.operandAt s (if s.prevOp3 = .pushD then pos - 3 else pos - 2) with
    | some var, some d =>
        s.replace pos ⟨.incVarD, inst.args.set 0 var ++ [d]⟩ [pos - 1, pos - 2, pos - 3]
    | _, _ => s
  else s

/-- What the loop does at an instruction. -/
def foldInstruction (B : Beyond) (D : DoubleOps) (pos : ℕ) (inst : Instruction)
    (s : ArithmeticState) : Option ArithmeticState :=
  if inst.op.isArithmetic && s.prevOp1.isStack && s.prevOp2.isStack then
    B.foldConstants D pos inst s
  else if inst.op = .storeVar && s.prevOp1.isArithmetic &&
      ((s.prevOp2 = .loadVar && s.prevOp3.isStack) ||
        (s.prevOp2.isStack && s.prevOp3 = .loadVar)) then some (B.foldIncrement pos inst s)
  else some s

/-- One instruction of the loop. -/
def arithmeticStep (B : Beyond) (D : DoubleOps) (s : ArithmeticState) (pos : ℕ) :
    Option ArithmeticState := do
  let inst ← s.code[pos]?
  let s ← B.foldInstruction D pos inst s
  some { s with prevOp3 := s.prevOp2, prevOp2 := s.prevOp1, prevOp1 := inst.op }

/-- The loop, and the removal behind it. -/
def arithmeticPass (B : Beyond) (D : DoubleOps) (code : List Instruction) :
    Except Stop (List Instruction × Bool) :=
  match (List.range code.length).foldlM (B.arithmeticStep D) ⟨code, .nop, .nop, .nop, [], false⟩ with
  | some s => .ok (removeInstructions s.removeList 0 s.code, s.changed)
  | none => .error .trap

/-- `optimiseArithmetic`, with the value of `hasOptimised`. -/
def optimiseArithmetic (B : Beyond) (D : DoubleOps) : ℕ → List Instruction → Bool →
    Except Stop (List Instruction × Bool)
  | 0, _, _ => .error .fuel
  | fuel + 1, code, hasOptimised => do
      let (code, changed) ← B.arithmeticPass D code
      if changed then B.optimiseArithmetic D fuel code true else .ok (code, hasOptimised)

/-- `optimise`. -/
def optimise (B : Beyond) (D : DoubleOps) (localVars argCount : ℕ) : ℕ → List Instruction →
    Except Stop (List Instruction)
  | 0, _ => .error .fuel
  | fuel + 1, code => do
      let (code, changed) := B.optimiseVars localVars argCount code
      let (code, changed) ← B.optimiseArithmetic D (code.length + 1) code changed
      if changed then B.optimise D localVars argCount fuel code else .ok code

end Beyond

end B0rk
