import B0rk.Assembler.Assembler
import B0rk.Executor.Context

set_option autoImplicit false

/-! # From instructions to words

The end of `assemble`, behind `optimise`: each instruction gets an address, and an operand that is the
position of an instruction is replaced by its address. `Code.ofInstructions` is the code whose
addresses are the positions. -/

namespace B0rk

/-- `struct AssembledCode`. -/
structure AssembledCode where
  code : List Word
  size : ℕ
  localVars : ℕ

/-- `Instruction::address` for the instruction at a position; behind the last one, `asmCode.size`. -/
def codeAddress (insts : List Instruction) (i : ℕ) : ℕ :=
  ((insts.take i).map (fun inst => 1 + inst.args.length)).sum

/-- The operands of an instruction, with the address for the position of an instruction. -/
def linkArgs (insts : List Instruction) (inst : Instruction) : Option (List Word) :=
  match inst.op.address with
  | none => some inst.args
  | some j => do
      let arg ← inst.args[j]?
      -- "Instruction address is out of range!"
      if arg.toNat < insts.length then
        some (inst.args.set j (BitVec.ofNat 64 (codeAddress insts arg.toNat)))
      else none

/-- The words of one instruction. -/
def linkInstruction (insts : List Instruction) (inst : Instruction) : Option (List Word) :=
  -- "Wrong number of arguments for op"
  if inst.op.args = inst.args.length then do
    let args ← linkArgs insts inst
    some (BitVec.ofNat 64 inst.op.toNat :: args)
  else none

/-- The words of some of the instructions. -/
def linkWords (insts : List Instruction) : List Instruction → Option (List Word)
  | [] => some []
  | inst :: rest => do
      let words ← linkInstruction insts inst
      let words' ← linkWords insts rest
      some (words ++ words')

/-- The end of `assemble`. The addresses and the size are of type `int`: there is no result if they
    overflow. -/
def link (localVars : ℕ) (insts : List Instruction) : Option AssembledCode :=
  let size := codeAddress insts insts.length
  if size < 2 ^ 31 then do
    let words ← linkWords insts insts
    some { code := words, size := size, localVars := localVars }
  else none

/-! ## Running the words -/

/-- How many operands the function of an opcode fetches. -/
def OpCode.fetched : OpCode → ℕ
  | loadVar | storeVar | loadField | storeField => 1
  | loadStaticField | storeStaticField | incVar | incVarD => 2
  | pushI | pushD | pushObj => 1
  | call | callStatic | new => 2
  | callNamed | callObj | newFunction => 1
  | jmp | bEq | bNE | bL | bLE | bG | bGE => 1
  | pushTry => 2
  | _ => 0

/-- `Frame::fetch`, for an opcode and for the operands that its function fetches. -/
def fetchWords (words : List Word) (pc : ℕ) : Option (Instruction × ℕ) := do
  let opcode ← words[pc]?
  let op := OpCode.ofNat opcode.toNat
  let args := (words.drop (pc + 1)).take op.fetched
  if args.length = op.fetched then some (⟨op, args⟩, pc + 1 + op.fetched) else none

/-- The words, as the executor looks at them. -/
def AssembledCode.toCode (asm : AssembledCode) : Code :=
  { localVars := asm.localVars, size := asm.size, fetch := fetchWords asm.code }

/-- Instructions that are fetched by their positions. -/
def Code.ofInstructions (localVars : ℕ) (insts : List Instruction) : Code :=
  { localVars := localVars, size := insts.length
    fetch := fun pc => insts[pc]?.map (fun inst => (inst, pc + 1)) }

/-- `Disassembler::disassemble`: where it takes instructions to start, from `pos` on, and where it
    ends. -/
def disassemble (words : List Word) (size pos : ℕ) : Option (List ℕ × ℕ) :=
  if pos < size then do
    let opcode ← words[pos]?
    let (starts, stop) ← disassemble words size (pos + 1 + (OpCode.ofNat opcode.toNat).args)
    some (pos :: starts, stop)
  else some ([], pos)
termination_by size - pos

end B0rk
