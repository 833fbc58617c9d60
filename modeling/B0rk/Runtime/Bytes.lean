import B0rk.Runtime.Interned
import Mathlib.Data.Int.Notation

set_option autoImplicit false

/-! # The arena byte by byte

`Mem` keeps the header at every address apart, which is right as long as no two blocks overlap in
their headers. Here is the same code over the bytes of the arena: a header is read and written at
whatever address a pointer has, and `uint64_t` and `int` wrap around. -/

namespace B0rk

/-- The byte at every address. -/
abbrev Bytes := ℕ → ℕ

namespace Bytes

variable (m : Bytes)

/-- A `uint64_t`, or a pointer. -/
def read (a : ℕ) : ℕ :=
  m a + 2 ^ 8 * (m (a + 1) + 2 ^ 8 * (m (a + 2) + 2 ^ 8 * (m (a + 3) + 2 ^ 8 * (m (a + 4) +
    2 ^ 8 * (m (a + 5) + 2 ^ 8 * (m (a + 6) + 2 ^ 8 * m (a + 7)))))))

def write (a w : ℕ) : Bytes :=
  fun x => if a ≤ x ∧ x < a + 8 then w / 2 ^ (8 * (x - a)) % 2 ^ 8 else m x

/-- `memset(a, 0, n)`. -/
def zero (a n : ℕ) : Bytes := fun x => if a ≤ x ∧ x < a + n then 0 else m x

def clazz (obj : ℕ) : ℕ := m.read obj
def size (obj : ℕ) : ℕ := m.read (obj + 8)
def gcMark (obj : ℕ) : ℕ := m.read (obj + 16)

def setClass (obj c : ℕ) : Bytes := m.write obj c
def setSize (obj n : ℕ) : Bytes := m.write (obj + 8) n
def setMark (obj mark : ℕ) : Bytes := m.write (obj + 16) mark

/-- The free block behind a new object. -/
def freeBlock (rest n : ℕ) : Bytes := (m.setClass rest 0).setSize rest n

/-- The zeroed slots and the header of a new object. -/
def newObject (obj n c : ℕ) : Bytes :=
  (((m.zero obj n).setClass obj c).setSize obj n).setMark obj 0

/-- The type tag of a slot, an `int`, and the union. -/
def valueType (obj slot : ℕ) : ℕ := m.read (obj + 24 + 16 * slot) % 2 ^ 32
def valueBits (obj slot : ℕ) : ℕ := m.read (obj + 32 + 16 * slot)
def setValueBits (obj slot w : ℕ) : Bytes := m.write (obj + 32 + 16 * slot) w

/-- `(obj->m_size - sizeof(Object)) / sizeof(Value)`, in an `unsigned int`. -/
def valueCount (obj : ℕ) : ℕ := (m.size obj + (2 ^ 64 - sizeofObject)) % 2 ^ 64 / sizeofValue % 2 ^ 32

end Bytes

/-- The runtime over bytes; the roots are given by the addresses that the scans of `gc` come to. -/
structure RawRuntime where
  start : ℕ
  arenaSize : ℕ
  bytes : Bytes
  freeList : List ℕ
  newObjects : ℕ
  currentBytes : ℕ
  arenaTotal : ℕ
  gcEnabled : Bool
  gcLastAlloc : ℕ

namespace RawRuntime

def init (start : ℕ) : RawRuntime where
  start := start
  arenaSize := 16 * 1024 * 1024
  bytes := Bytes.setSize (fun _ => 0) start (16 * 1024 * 1024)
  freeList := [start]
  newObjects := 0
  currentBytes := 0
  arenaTotal := 16 * 1024 * 1024
  gcEnabled := true
  gcLastAlloc := 0

variable (rt : RawRuntime)

def isObjectValid (a : ℕ) : Bool := decide (rt.start ≤ a) && decide (a < rt.start + rt.arenaSize)

/-- `Runtime::gcMarkObject`. -/
def gcMarkObject : ℕ → ℕ → ℕ → Bytes → Option Bytes
  | 0, _, _, _ => none
  | fuel + 1, obj, mark, m =>
      let m := if m.gcMark obj ≠ 2 ^ 64 - 1 then m.setMark obj mark else m
      if m.clazz obj = 0 then some m
      else
        (List.range (m.valueCount obj)).foldlM (fun m i =>
          if m.valueType obj i = 2 ∧ rt.isObjectValid (m.valueBits obj i) then
            gcMarkObject fuel (m.valueBits obj i) mark m
          else some m) m

/-- `while (pos < end) { ..; pos += obj->m_size; }`, with `int freed`. -/
def sweep (mark : ℕ) : ℕ → ℕ → RawRuntime → ℤ → Option (RawRuntime × ℤ)
  | fuel, pos, rt, freed =>
      if rt.start + rt.arenaSize ≤ pos then some (rt, freed)
      else
        match fuel with
        | 0 => none
        | fuel + 1 =>
            let obj := pos
            if rt.bytes.clazz obj = 0 then
              sweep mark fuel ((pos + rt.bytes.size obj) % 2 ^ 64) rt freed
            else if rt.bytes.gcMark obj = mark ∨ rt.bytes.gcMark obj = 2 ^ 64 - 1 then
              sweep mark fuel ((pos + rt.bytes.size obj) % 2 ^ 64)
                { rt with currentBytes := rt.currentBytes + rt.bytes.size obj } freed
            else
              let freed := (freed + rt.bytes.size obj).bmod (2 ^ 32)
              let m := (rt.bytes.setClass obj 0).setMark obj (2 ^ 64 - 1)
              sweep mark fuel ((pos + m.size obj) % 2 ^ 64)
                { rt with bytes := m, freeList := rt.freeList ++ [obj] } freed

/-- The inner `for` loop of the coalescing. -/
def coalesceStep (m : Bytes) : ℕ → ℕ → List ℕ → Option (Bytes × List ℕ)
  | _, _, [] => none
  | prev, prevEnd, obj :: rest =>
      if obj = prevEnd then some (m.setSize prev ((m.size prev + m.size obj) % 2 ^ 64), rest)
      else
        (coalesceStep m obj ((obj + m.size obj) % 2 ^ 64) rest).map
          (fun (m', rest') => (m', obj :: rest'))

/-- `while (changed)`. -/
def coalesce : ℕ → Bytes → List ℕ → Option (Bytes × List ℕ)
  | 0, _, _ => none
  | fuel + 1, m, l =>
      match coalesceStep m 0 0 l with
      | some (m', l') => coalesce fuel m' l'
      | none => some (m, l)

/-- `Runtime::gc(true)` at the time `now`. -/
def gc (fuel : ℕ) (roots : List ℕ) (now : ℕ) (rt : RawRuntime) : Option RawRuntime := do
  if rt.gcEnabled then
    let m ← roots.foldlM (fun m obj => rt.gcMarkObject fuel obj now m) rt.bytes
    let (rt, freed) ← sweep now fuel rt.start { rt with bytes := m, currentBytes := 0 } 0
    if 0 < freed then
      let sorted := sortFreeList rt.freeList
      let (m, freeList) ← coalesce (sorted.length + 1) rt.bytes sorted
      some { rt with bytes := m, freeList := freeList, gcLastAlloc := rt.newObjects }
    else some { rt with gcLastAlloc := rt.newObjects }
  else some rt

/-- The search of the free list. -/
def takeFirstFit (m : Bytes) (objSize : ℕ) : List ℕ → Option (ℕ × List ℕ)
  | [] => none
  | o :: rest =>
      if objSize ≤ m.size o then some (o, rest)
      else (takeFirstFit m objSize rest).map (fun (freeObj, rest') => (freeObj, o :: rest'))

/-- `Runtime::allocateObject`, with the writes in the order of the source. -/
def allocateObject (fuel : ℕ) (roots : List ℕ) (now clazz n : ℕ) (rt : RawRuntime) :
    Option (RawRuntime × ℕ) := do
  let rt ← if rt.arenaTotal / 4 * 3 ≤ rt.currentBytes then rt.gc fuel roots now else some rt
  let objSize := objectSize n
  let (obj, freeList) ← takeFirstFit rt.bytes objSize rt.freeList
  let freeSize := rt.bytes.size obj - objSize
  let rest := obj + objSize
  let split := decide (sizeofObject < freeSize)
  let m := if split then rt.bytes.freeBlock rest freeSize else rt.bytes
  let objSize := if split then objSize else objSize + freeSize
  some ({ rt with
    bytes := m.newObject obj objSize clazz
    freeList := if split then freeList ++ [rest] else freeList
    newObjects := rt.newObjects + 1
    currentBytes := rt.currentBytes + objSize }, obj)

end RawRuntime

/-- The runtime over bytes with `m_stringTable`. -/
structure RawInterned where
  rt : RawRuntime
  stringTable : List (String × ℕ)

/-- `Runtime::newString`; `stringClass` is `m_stringClass`, `native` the address of the `StringNative`. -/
def RawInterned.newString (fuel : ℕ) (roots : List ℕ) (now stringClass native : ℕ) (text : String)
    (s : RawInterned) : Option (RawInterned × ℕ) :=
  match s.stringTable.lookup text with
  | some obj => some (s, obj)
  | none => do
      let (rt, obj) ← s.rt.allocateObject fuel roots now stringClass stringFieldCount
      let m := (rt.bytes.setValueBits obj 0 native).setMark obj (2 ^ 64 - 1)
      some (⟨{ rt with bytes := m }, (text, obj) :: s.stringTable⟩, obj)

end B0rk
