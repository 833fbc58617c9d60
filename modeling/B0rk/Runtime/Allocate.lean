import B0rk.Runtime.Gc

set_option autoImplicit false

/-! # Allocation

`Runtime::allocateObject` and the part of the constructor `Runtime::Runtime` that sets up the
arena. -/

namespace B0rk

/-- The arena as the constructor leaves it: `m_arena.m_size` zeroed bytes at the address that
    `malloc` returned, all of them one free block. -/
def Runtime.init (start : ℕ) : Runtime where
  start := start
  arenaSize := 16 * 1024 * 1024
  mem := Mem.set (fun _ => Object.zeroed) start { Object.zeroed with size := 16 * 1024 * 1024 }
  freeList := [start]
  newObjects := 0
  newBytes := 0
  currentObjects := 0
  currentBytes := 0
  collectedObjects := 0
  arenaTotal := 16 * 1024 * 1024
  gcEnabled := true
  gcLastAlloc := 0

/-- The search of the free list: the first block of at least `objSize` bytes, and the list without
    it. -/
def takeFirstFit (mem : Mem) (objSize : ℕ) : List ℕ → Option (ℕ × List ℕ)
  | [] => none
  | o :: rest =>
      if objSize ≤ (mem o).size then some (o, rest)
      else
        match takeFirstFit mem objSize rest with
        | some (freeObj, rest') => some (freeObj, o :: rest')
        | none => none

/-- Less than a quarter of the arena is left, and collecting is allowed. -/
def Runtime.needsGc (rt : Runtime) : Bool :=
  decide (rt.arenaTotal / 4 * 3 ≤ rt.currentBytes) && rt.gcEnabled

/-- The space check at the head of `allocateObject`. -/
def Runtime.checkSpace (fuel : ℕ) (roots : Roots) (now : Word) (rt : Runtime) : Option Runtime :=
  if rt.needsGc then gc fuel roots now true rt else some rt

/-- `sizeof(Object) + valueCount * sizeof(Value)` in an `unsigned`. -/
def objectSize (valueCount : ℕ) : ℕ := (sizeofObject + valueCount * sizeofValue) % 2 ^ 32

/-- The part of `allocateObject` behind the space check: cut `objSize` bytes off the first free
    block that has them. `none` is the call of `exit`. Switching `m_gcEnabled` off and back on has
    no effect here, since nothing in between reads it. -/
def Runtime.takeObject (rt : Runtime) (clazz : Word) (objSize : ℕ) : Option (Runtime × ℕ) :=
  match takeFirstFit rt.mem objSize rt.freeList with
  | none => none
  | some (obj, freeList) =>
      let freeSize := (rt.mem obj).size - objSize
      let rest := obj + objSize
      -- a remainder that could hold no slot stays part of the object
      let split := decide (sizeofObject < freeSize)
      let mem := if split then
          rt.mem.set rest { rt.mem rest with clazz := none, size := freeSize }
        else rt.mem
      let objSize := if split then objSize else objSize + freeSize
      some ({ rt with
        mem := mem.set obj { Object.zeroed with clazz := some clazz, size := objSize, gcMark := 0 }
        freeList := if split then freeList ++ [rest] else freeList
        newObjects := rt.newObjects + 1
        newBytes := rt.newBytes + objSize
        currentObjects := rt.currentObjects + 1
        currentBytes := rt.currentBytes + objSize }, obj)

/-- `Runtime::allocateObject` for a class with `fieldCount` fields. The other arguments are those of
    the collection that the call may start. -/
def allocateObject (fuel : ℕ) (roots : Roots) (now : Word) (clazz : Word)
    (fieldCount extraValues : ℕ) (rt : Runtime) : Option (Runtime × ℕ) := do
  let rt ← rt.checkSpace fuel roots now
  rt.takeObject clazz (objectSize (fieldCount + extraValues))

end B0rk
