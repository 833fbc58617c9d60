import B0rk.Assembler.Link
import B0rk.Assembler.Optimise

set_option autoImplicit false

/-! # Assembling a function

`Assembler::assemble`, from the statements of a function to its words. The assembler belongs to a
context: the instructions that it gathers in `m_code` stay there when it fails. -/

namespace B0rk

/-- The call of `optimise`. A round that is followed by another one removes an instruction, so there are
    no more rounds than instructions. -/
def optimiseCode (D : DoubleOps) (localVars argCount : ℕ) : Asm Unit := fun m_code => do
  let m_code ← optimise D localVars argCount (m_code.length + 1) m_code
  some (some (), m_code)

/-- The end of `assemble`, behind `optimise`. `m_code` is cleared if the words have been written. -/
def writeCode (localVars : ℕ) : Asm AssembledCode := fun m_code =>
  if codeAddress m_code m_code.length < 2 ^ 31 then
    match link localVars m_code with
    | some asmCode => some (some asmCode, [])
    | none => some (none, m_code)
  else none

/-- `assemble`. -/
def assemble (D : DoubleOps) (A : AsmEnv) (code : CodeBlock) : Asm AssembledCode := do
  assembleFunction A code
  optimiseCode D (code.maxVarId + 1) A.args.length
  writeCode (code.maxVarId + 1)

/-- The calls of `assemble` on the assembler of a context, from its `m_code` on; whether a call succeeds
    does not matter to the next one. -/
def assembleAll (D : DoubleOps) : List (AsmEnv × CodeBlock) → List Instruction →
    Option (List Instruction)
  | [], m_code => some m_code
  | (A, code) :: calls, m_code => do
      let (_, m_code) ← assemble D A code m_code
      assembleAll D calls m_code

end B0rk
