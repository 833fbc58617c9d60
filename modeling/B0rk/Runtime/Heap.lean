import B0rk.Class

set_option autoImplicit false

/-! # The heap of the runtime

The arena is one block of memory in which every object, allocated or free, starts with the header
`struct Object`. `Mem` gives the header found at an address together with the value slots behind it.
Memory is read at the starts of blocks only, so the headers at other addresses are never looked
at. -/

namespace B0rk

/-- `sizeof(Object)`: class pointer, size and mark. -/
def sizeofObject : ℕ := 24

/-- `sizeof(Value)`. -/
def sizeofValue : ℕ := 16

/-- `B0RK_GC_EXTERNAL`. -/
def gcExternal : Word := -1

/-- `struct Object`; a free block has `m_class == NULL`. -/
structure Object where
  clazz : Option Word
  size : ℕ
  gcMark : Word
  values : ℕ → Value

/-- The header at every address. -/
abbrev Mem := ℕ → Object

/-- Writing the header at one address. -/
def Mem.set (mem : Mem) (a : ℕ) (o : Object) : Mem := fun x => if x = a then o else mem x

@[simp]
theorem Mem.set_same (mem : Mem) (a : ℕ) (o : Object) : mem.set a o a = o := by
  simp [Mem.set]

theorem Mem.set_other (mem : Mem) {a x : ℕ} (o : Object) (h : x ≠ a) : mem.set a o x = mem x := by
  simp [Mem.set, h]

/-- The number of value slots of an object, as `gcMarkObject` computes it from the block size. -/
def Object.valueCount (o : Object) : ℕ := (o.size - sizeofObject) / sizeofValue

/-- `memset(obj, 0, ..)` over the header and the slots. -/
def Object.zeroed : Object := ⟨none, 0, 0, fun _ => Value.zero⟩

/-- What the collector sees of the rest of the process: the classes with their static fields, the
    used part of the value stack of every context, and the local variables of the frames that
    `VALUE_FRAME` entries point at. -/
structure Roots where
  classes : List Class
  contexts : List (List Value)
  frames : Word → List Value

/-- The members of `class Runtime` that allocation and collection use. -/
structure Runtime where
  start : ℕ
  arenaSize : ℕ
  mem : Mem
  freeList : List ℕ
  newObjects : ℕ
  newBytes : ℕ
  currentObjects : ℕ
  currentBytes : ℕ
  collectedObjects : ℕ
  arenaTotal : ℕ
  gcEnabled : Bool
  gcLastAlloc : ℕ

/-- `Runtime::isObjectValid`. -/
def Runtime.isObjectValid (rt : Runtime) (a : ℕ) : Bool :=
  decide (rt.start ≤ a) && decide (a < rt.start + rt.arenaSize)

/-- The object a value refers to, if it is a `VALUE_OBJECT` that points into the arena. -/
def Runtime.arenaRef? (rt : Runtime) (v : Value) : Option ℕ :=
  if v.type = .object && rt.isObjectValid v.bits.toNat then some v.bits.toNat else none

end B0rk
