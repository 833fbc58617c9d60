import B0rk.Runtime.Heap

set_option autoImplicit false

/-! # The collector

`Runtime::gc`, `gcArena` and `gcMarkObject` of runtime.cpp. Marking is a plain recursion over the
object graph that does not look whether an object is marked already, so it does not return on every
heap; `fuel` bounds its depth, and `none` is "has not returned". The two loops of `gcArena` carry a
fuel of their own, which `gcArena` chooses large enough. -/

namespace B0rk

/-! ## Marking -/

/-- `obj->m_gcMark = mark`, unless the object is pinned. -/
def Object.marked (o : Object) (mark : Word) : Object :=
  if o.gcMark ≠ gcExternal then { o with gcMark := mark } else o

/-- `Runtime::gcMarkObject`. -/
def gcMarkObject (rt : Runtime) : ℕ → ℕ → Word → Mem → Option Mem
  | 0, _, _, _ => none
  | fuel + 1, obj, mark, mem =>
      let mem := mem.set obj ((mem obj).marked mark)
      if (mem obj).clazz = none then some mem
      else
        (List.range (mem obj).valueCount).foldlM (fun m i =>
          match rt.arenaRef? ((m obj).values i) with
          | some child => gcMarkObject rt fuel child mark m
          | none => some m) mem

/-- Marking from a list of values: the loop body shared by the scans of the roots. -/
def gcMarkValues (rt : Runtime) (fuel : ℕ) (mark : Word) (vs : List Value) (mem : Mem) :
    Option Mem :=
  vs.foldlM (fun m v =>
    match rt.arenaRef? v with
    | some obj => gcMarkObject rt fuel obj mark m
    | none => some m) mem

/-- The values the static-field scan of `Runtime::gc` reads; `none` when it leaves
    `m_staticValues`. -/
def staticRoots (classes : List Class) : Option (List Value) :=
  (classes.flatMap (fun c => (List.range c.staticFieldCount).map c.getStaticField)).mapM id

/-- The values reached from one entry of a value stack: the entry itself, or, behind a frame marker,
    the local variables of that frame. -/
def stackRoots (frames : Word → List Value) (v : Value) : List Value :=
  if v.type = .frame ∧ v.bits ≠ 0 then frames v.bits else [v]

/-- The roots that `gcArena` scans. -/
def contextRoots (roots : Roots) : List Value :=
  roots.contexts.flatMap (fun stack => stack.flatMap (stackRoots roots.frames))

/-! ## The sweep -/

/-- One pass over an allocated or free block in the sweep of `gcArena`; the second component is
    `freed`. -/
def sweepBlock (mark : Word) (rt : Runtime) (freed : ℕ) (pos : ℕ) : Runtime × ℕ :=
  let obj := rt.mem pos
  if obj.clazz = none then (rt, freed)
  else if obj.gcMark = mark ∨ obj.gcMark = gcExternal then
    ({ rt with
        currentObjects := rt.currentObjects + 1
        currentBytes := rt.currentBytes + obj.size }, freed)
  else
    ({ rt with
        collectedObjects := rt.collectedObjects + 1
        mem := rt.mem.set pos { obj with clazz := none, gcMark := -1 }
        freeList := rt.freeList ++ [pos] }, freed + obj.size)

/-- `while (pos < end) { ..; pos += obj->m_size; }`. -/
def sweep (mark : Word) (fuel pos : ℕ) (rt : Runtime) (freed : ℕ) : Option (Runtime × ℕ) :=
  if rt.start + rt.arenaSize ≤ pos then some (rt, freed)
  else
    match fuel with
    | 0 => none
    | fuel + 1 =>
        let (rt', freed') := sweepBlock mark rt freed pos
        sweep mark fuel (pos + (rt'.mem pos).size) rt' freed'

/-! ## Coalescing -/

/-- One run of the inner `for` loop: the first free block that starts where the one before it in the
    list ends is added to that one and taken off the list. `none` when there is no such block. -/
def coalesceStep (mem : Mem) : ℕ → ℕ → List ℕ → Option (Mem × List ℕ)
  | _, _, [] => none
  | prev, prevEnd, obj :: rest =>
      if obj = prevEnd then
        some (mem.set prev { mem prev with size := (mem prev).size + (mem obj).size }, rest)
      else
        match coalesceStep mem obj (obj + (mem obj).size) rest with
        | some (mem', rest') => some (mem', obj :: rest')
        | none => none

/-- `while (changed)`. -/
def coalesce : ℕ → Mem → List ℕ → Option (Mem × List ℕ)
  | 0, _, _ => none
  | fuel + 1, mem, l =>
      match coalesceStep mem 0 0 l with
      | some (mem', l') => coalesce fuel mem' l'
      | none => some (mem, l)

/-- `m_freeList.sort()`: by address. -/
def sortFreeList (l : List ℕ) : List ℕ := l.mergeSort (fun a b => decide (a ≤ b))

/-- `m_currentObjects = 0; m_currentBytes = 0;`. -/
def Runtime.resetCounters (rt : Runtime) : Runtime :=
  { rt with currentObjects := 0, currentBytes := 0 }

/-- Sorting the free list and joining its neighbours. -/
def Runtime.coalesceFreeList (rt : Runtime) : Option Runtime :=
  let sorted := sortFreeList rt.freeList
  match coalesce (sorted.length + 1) rt.mem sorted with
  | some (mem, freeList) => some { rt with mem := mem, freeList := freeList }
  | none => none

/-- The part of `gcArena` behind the marking. -/
def sweepAndCoalesce (mark : Word) (rt : Runtime) : Option (Runtime × ℕ) := do
  let (rt, freed) ← sweep mark rt.arenaSize rt.start rt.resetCounters 0
  if 0 < freed then
    let rt ← rt.coalesceFreeList
    some (rt, freed)
  else
    some (rt, freed)

/-- `Runtime::gcArena`. -/
def gcArena (fuel : ℕ) (roots : Roots) (mark : Word) (rt : Runtime) : Option (Runtime × ℕ) := do
  let mem ← gcMarkValues rt fuel mark (contextRoots roots) rt.mem
  sweepAndCoalesce mark { rt with mem := mem }

/-- `Runtime::gc` at the timestamp `now`. -/
def gc (fuel : ℕ) (roots : Roots) (now : Word) (force : Bool) (rt : Runtime) : Option Runtime :=
  if rt.gcEnabled = false then some rt
  else if force || decide (rt.gcLastAlloc < rt.newObjects) then do
    let statics ← staticRoots roots.classes
    let mem ← gcMarkValues rt fuel now statics rt.mem
    let (rt, _) ← gcArena fuel roots now { rt with mem := mem }
    some { rt with gcLastAlloc := rt.newObjects }
  else
    some rt

end B0rk
