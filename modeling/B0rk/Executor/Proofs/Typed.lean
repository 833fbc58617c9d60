import B0rk.Assembler.Assembler
import B0rk.Executor.Opcodes

set_option autoImplicit false

/-! # Typed operations

The instructions that the operators are assembled to, and when the one for integers or doubles does
the same as the one for values of any type. -/

namespace B0rk

variable {W : Type}

/-! ## The instructions of an operator -/

/-- The instruction that `pushOperator` pushes. -/
def operatorOpcode (opcode : OpCode) (type : ValueType) : OpCode :=
  match type with
  | .integer => .ofNat (opcode.toNat + 0x10)
  | .double => .ofNat (opcode.toNat + 0x20)
  | _ => opcode

theorem pushOperator_eq (opcode : OpCode) (type : ValueType) :
    pushOperator opcode type = pushInstruction (operatorOpcode opcode type) [] := by
  cases type <;> rfl

/-- The instruction that `pushCMP` pushes. -/
def cmpOpcode (type : ValueType) : OpCode :=
  match type with
  | .integer => .cmpI
  | .double => .cmpD
  | _ => .cmp

theorem pushCMP_eq (type : ValueType) : pushCMP type = pushInstruction (cmpOpcode type) [] := by
  cases type <;> rfl

/-- The operators that are one instruction, with the one for any type. -/
def arithmeticOpcode : OpType → Option OpCode
  | .add => some .add
  | .sub => some .sub
  | .multiply => some .mul
  | .divide => some .div
  | .not => some .not
  | .logicalAnd => some .and
  | _ => none

/-- The comparisons, with the instruction that pushes their result. -/
def comparisonOpcode : OpType → Option OpCode
  | .equals => some .pushCE
  | .notEqual => some .pushCNE
  | .lessThan => some .pushCL
  | .lessThanEqual => some .pushCLE
  | .greaterThan => some .pushCG
  | .greaterThanEqual => some .pushCGE
  | _ => none

/-- What an operator is assembled to: an instruction on the operands, and for a comparison one that
    pushes the result. -/
def operationOpcodes (operType : OpType) (type : ValueType) : Option (OpCode × Option OpCode) :=
  match arithmeticOpcode operType with
  | some opcode => some (operatorOpcode opcode type, none)
  | none => (comparisonOpcode operType).map (fun push => (cmpOpcode type, some push))

theorem pushOperation_eq (operType : OpType) (type : ValueType) :
    pushOperation operType type =
      match operationOpcodes operType type with
      | some (opcode, none) => pushInstruction opcode []
      | some (opcode, some push) => do
          pushInstruction opcode []
          pushInstruction push []
      | none => Attempt.fail := by
  cases operType <;> simp only [pushOperation, operationOpcodes, arithmeticOpcode, comparisonOpcode,
    pushOperator_eq, pushCMP_eq, Option.map]

/-- Executing what an operator is assembled to. -/
def runOperation (E : Env W) (exec : Execute W) (opcodes : OpCode × Option OpCode) (ctx : Context W)
    (frame : Frame) : Option (Bool × Context W × Frame) := do
  let (res, ctx, frame) ← opcodeTable E exec opcodes.1 [] ctx frame
  match opcodes.2 with
  | some push => if res then opcodeTable E exec push [] ctx frame else some (false, ctx, frame)
  | none => some (res, ctx, frame)

/-- An opcode that has a function in `g_opcodeTable`. -/
def OpCode.implemented : OpCode → Bool
  | .nop | .pushVar | .other _ => false
  | _ => true

theorem opcodeTable_not_implemented (E : Env W) (exec : Execute W) {op : OpCode}
    (h : op.implemented = false) : opcodeTable E exec op = opcodeInvalid := by
  cases op with
  | nop | pushVar | other => rfl
  | _ => cases h

/-! ## The effect of a typed instruction -/

/-- **Typed instructions.** On two operands of its type an implemented instruction has the effect of
    the one for any type. -/
theorem operation_sameEffect (E : Env W) (exec : Execute W) {operType : OpType} {type : ValueType}
    {opcodes generic : OpCode × Option OpCode} (htype : type = .integer ∨ type = .double)
    (htyped : operationOpcodes operType type = some opcodes)
    (hgeneric : operationOpcodes operType .unknown = some generic)
    (himpl : opcodes.1.implemented = true) {l r : Value} (hl : l.type = type) (hr : r.type = type)
    (ctx : Context W) (frame : Frame) :
    opcodeTable E exec opcodes.1 [] ((ctx.push r).push l) frame =
      opcodeTable E exec generic.1 [] ((ctx.push r).push l) frame := by
  obtain ⟨ltype, l⟩ := l
  obtain ⟨rtype, r⟩ := r
  subst hl
  subst hr
  -- both instructions look at the operands under the tags that these have
  rcases htype with htype | htype
  · subst htype
    cases operType <;> cases htyped <;> cases hgeneric <;> rfl
  · subst htype
    cases operType <;> cases htyped <;> cases hgeneric <;> first | rfl | cases himpl

end B0rk
