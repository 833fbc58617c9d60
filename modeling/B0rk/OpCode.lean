import B0rk.Value

set_option autoImplicit false

/-! # Opcodes and instructions

`opcodes.h` and the table of opcodes.cpp. The optimiser computes with the numbers of the opcodes, so
a number that no enumerator has is an opcode too (`other`); the executor rejects it. -/

namespace B0rk

/-- `enum OpCode`. -/
inductive OpCode
  | nop
  | loadVar | storeVar | loadField | storeField | loadFieldNamed | storeFieldNamed
  | loadStaticField | storeStaticField | loadArray | storeArray | incVar | incVarD
  | add | sub | mul | div | and | not
  | addI | subI | mulI | divI | andI | notI
  | addD | subD | mulD | divD
  | pushVar | pushObj | dup | pop | swap | pushI | pushD
  | pushCE | pushCNE | pushCL | pushCLE | pushCG | pushCGE
  | call | callStatic | callNamed | callObj | new | newFunction | ret
  | cmp | cmpI | cmpD
  | jmp | bEq | bNE | bL | bLE | bG | bGE
  | throw | pushTry | popTry
  | other (code : ℕ)
  deriving DecidableEq, Repr

namespace OpCode

/-- The number of an opcode. -/
def toNat : OpCode → ℕ
  | nop => 0x00
  | loadVar => 0x101 | storeVar => 0x102 | loadField => 0x103 | storeField => 0x104
  | loadFieldNamed => 0x105 | storeFieldNamed => 0x106 | loadStaticField => 0x107
  | storeStaticField => 0x108 | loadArray => 0x109 | storeArray => 0x10a | incVar => 0x10b
  | incVarD => 0x12b
  | add => 0x200 | sub => 0x201 | mul => 0x202 | div => 0x203 | and => 0x204 | not => 0x205
  | addI => 0x210 | subI => 0x211 | mulI => 0x212 | divI => 0x213 | andI => 0x214 | notI => 0x215
  | addD => 0x220 | subD => 0x221 | mulD => 0x222 | divD => 0x223
  | pushVar => 0x302 | pushObj => 0x303 | dup => 0x304 | pop => 0x305 | swap => 0x306
  | pushI => 0x310 | pushD => 0x320
  | pushCE => 0x410 | pushCNE => 0x411 | pushCL => 0x412 | pushCLE => 0x413 | pushCG => 0x414
  | pushCGE => 0x415
  | call => 0x500 | callStatic => 0x501 | callNamed => 0x502 | callObj => 0x503 | new => 0x504
  | newFunction => 0x506 | ret => 0x507
  | cmp => 0x600 | cmpI => 0x601 | cmpD => 0x602
  | jmp => 0x700 | bEq => 0x701 | bNE => 0x702 | bL => 0x703 | bLE => 0x704 | bG => 0x705
  | bGE => 0x706
  | throw => 0x800 | pushTry => 0x801 | popTry => 0x802
  | other code => code

/-- The enumerators. -/
def all : List OpCode :=
  [nop, loadVar, storeVar, loadField, storeField, loadFieldNamed, storeFieldNamed,
    loadStaticField, storeStaticField, loadArray, storeArray, incVar, incVarD,
    add, sub, mul, div, and, not, addI, subI, mulI, divI, andI, notI, addD, subD, mulD, divD,
    pushVar, pushObj, dup, pop, swap, pushI, pushD,
    pushCE, pushCNE, pushCL, pushCLE, pushCG, pushCGE,
    call, callStatic, callNamed, callObj, new, newFunction, ret, cmp, cmpI, cmpD,
    jmp, bEq, bNE, bL, bLE, bG, bGE, throw, pushTry, popTry]

/-- The opcode with a given number. -/
def ofNat (code : ℕ) : OpCode := (all.find? (fun op => op.toNat == code)).getD (other code)

theorem toNat_ofNat (code : ℕ) : (ofNat code).toNat = code := by
  unfold ofNat
  cases h : all.find? (fun op => op.toNat == code) with
  | none => rfl
  | some op => simpa using List.find?_some h

theorem ofNat_toNat {op : OpCode} (h : op ∈ all) : ofNat op.toNat = op := by
  revert op
  decide

/-- `OpCodeInfo::args`: the number of operands that an instruction is assembled with. -/
def args : OpCode → ℕ
  | loadVar | storeVar | loadField | storeField => 1
  | loadStaticField | storeStaticField | incVar | incVarD => 2
  | pushI | pushD | pushVar | pushObj => 1
  | call | callStatic | new => 2
  | callNamed | callObj | newFunction => 1
  | jmp | bEq | bNE | bL | bLE | bG | bGE => 1
  | pushTry => 2
  | _ => 0

/-- `OpCodeInfo::address`: which operand is the address of an instruction; `none` for `-1`. -/
def address : OpCode → Option ℕ
  | jmp | bEq | bNE | bL | bLE | bG | bGE => some 0
  | pushTry => some 1
  | _ => none

end OpCode

/-- `struct Instruction`. -/
structure Instruction where
  op : OpCode
  args : List Word
  deriving DecidableEq, Repr

end B0rk
