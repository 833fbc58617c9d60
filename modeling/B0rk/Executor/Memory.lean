import B0rk.Executor.Proofs.Basic

set_option autoImplicit false

/-! # Locations of variables

A variable of a function is a local slot, a field of the instance or a static field. What is read
from one after a write is the business of `Object`, `Class` and the frame; `Env.Memory` says what the
first two do. -/

namespace B0rk

variable {W : Type}

/-- `m_values[slot] = v` of an object and `m_staticValues[..] = v` of a class: the value is there
    afterwards, and everything else stays. -/
structure Env.Memory (E : Env W) : Prop where
  value_null : ∀ {w slot}, E.getValue w 0 slot = none
  value_defined : ∀ {w obj slot v} v', E.getValue w obj slot = some v →
    ∃ w', E.setValue w obj slot v' = some w'
  value_same : ∀ {w w' obj slot v}, obj ≠ 0 → E.setValue w obj slot v = some w' →
    E.getValue w' obj slot = some v
  value_other : ∀ {w w' obj slot v obj' slot'}, E.setValue w obj slot v = some w' →
    (obj', slot') ≠ (obj, slot) → E.getValue w' obj' slot' = E.getValue w obj' slot'
  value_static : ∀ {w w' obj slot v clazz id}, E.setValue w obj slot v = some w' →
    E.getStaticField w' clazz id = E.getStaticField w clazz id
  value_class : ∀ {w w' obj slot v obj'}, E.setValue w obj slot v = some w' →
    E.getClass w' obj' = E.getClass w obj'
  value_chain : ∀ {w w' obj slot v clazz}, E.setValue w obj slot v = some w' →
    E.chain w' clazz = E.chain w clazz
  value_string : ∀ {w w' obj slot v obj'}, E.setValue w obj slot v = some w' → obj' ≠ obj →
    E.getString w' obj' = E.getString w obj'
  static_defined : ∀ {w clazz id v} v', E.getStaticField w clazz id = some v →
    ∃ w', E.setStaticField w clazz id v' = some w'
  static_same : ∀ {w w' clazz id v}, E.setStaticField w clazz id v = some w' →
    E.getStaticField w' clazz id = some v
  static_other : ∀ {w w' clazz id v clazz' id'}, E.setStaticField w clazz id v = some w' →
    (clazz', id') ≠ (clazz, id) → E.getStaticField w' clazz' id' = E.getStaticField w clazz' id'
  static_value : ∀ {w w' clazz id v obj slot}, E.setStaticField w clazz id v = some w' →
    E.getValue w' obj slot = E.getValue w obj slot

/-! ## Locations -/

/-- Where a variable without a reference is. -/
inductive Location
  | slot (id : Word)
  | field (id : Word)
  | static (clazz id : Word)
  deriving DecidableEq

namespace Location

/-- The instructions that push the value at a location. -/
def load : Location → List Instruction
  | slot id => [⟨.loadVar, [id]⟩]
  | field id => [⟨.loadVar, [0]⟩, ⟨.loadField, [id]⟩]
  | static clazz id => [⟨.loadStaticField, [clazz, id]⟩]

/-- The instructions that pop a value to a location. -/
def store : Location → List Instruction
  | slot id => [⟨.storeVar, [id]⟩]
  | field id => [⟨.loadVar, [0]⟩, ⟨.storeField, [id]⟩]
  | static clazz id => [⟨.storeStaticField, [clazz, id]⟩]

/-- The value at a location. -/
def read (E : Env W) (ctx : Context W) (frame : Frame) : Location → Option Value
  | slot id => frame.localVars[id.toNat]?
  | field id => do
      let this ← frame.localVars[0]?
      E.getValue ctx.world this.bits id.toNat
  | static clazz id => E.getStaticField ctx.world clazz id.toNat

/-- The state with another value at a location. -/
def write (E : Env W) (ctx : Context W) (frame : Frame) (v : Value) :
    Location → Option (Context W × Frame)
  | slot id => do
      let frame ← frame.setVar id.toNat v
      some (ctx, frame)
  | field id => do
      let this ← frame.localVars[0]?
      if this.bits = 0 then none
      else
        let world ← E.setValue ctx.world this.bits id.toNat v
        some ({ ctx with world := world }, frame)
  | static clazz id => do
      let world ← E.setStaticField ctx.world clazz id.toNat v
      some ({ ctx with world := world }, frame)

theorem load_inj {loc loc' : Location} (h : loc.load = loc'.load) : loc = loc' := by
  cases loc <;> cases loc' <;> simp_all [load]

theorem store_inj {loc loc' : Location} (h : loc.store = loc'.store) : loc = loc' := by
  cases loc <;> cases loc' <;> simp_all [store]

section

variable {E : Env W} (exec : Execute W) {ctx ctx' : Context W} {frame frame' : Frame} {v : Value}

theorem run_load {loc : Location} (h : loc.read E ctx frame = some v) :
    runInstructions E exec loc.load ctx frame = some (true, ctx.push v, frame) := by
  cases loc with
  | slot id =>
    have hget : frame.localVars[id.toNat]? = some v := h
    show (((frame.localVars[id.toNat]?).bind _).bind _) = _
    rw [hget]
    rfl
  | field id =>
    obtain ⟨this, hthis, hvalue⟩ := Option.bind_eq_some_iff.mp h
    have hload : opcodeLoadVar [0] ctx frame = some (true, ctx.push this, frame) := by
      show ((frame.localVars[0]?).bind _) = _
      rw [hthis]
      rfl
    have hfield : opcodeLoadField E [id] (ctx.push this) frame =
        some (true, ctx.push v, frame) := by
      show ((E.getValue ctx.world this.bits id.toNat).bind _) = _
      rw [hvalue]
      rfl
    simp only [load, runInstructions, opcodeTable, hload, hfield, Option.bind_eq_bind,
      Option.bind_some, if_true]
  | static clazz id =>
    have hget : E.getStaticField ctx.world clazz id.toNat = some v := h
    show (((E.getStaticField ctx.world clazz id.toNat).bind _).bind _) = _
    rw [hget]
    rfl

/-- The instructions succeed exactly where there is something to write to. -/
theorem run_store {loc : Location} :
    runInstructions E exec loc.store (ctx.push v) frame = some (true, ctx', frame') ↔
      loc.write E ctx frame v = some (ctx', frame') := by
  cases loc with
  | slot id =>
    show ((((frame.setVar id.toNat v).bind _).bind _) = _) ↔ ((frame.setVar id.toNat v).bind _) = _
    cases frame.setVar id.toNat v <;> simp [runInstructions, Context.push]
  | field id =>
    show (((frame.localVars[0]?.bind _).bind _) = _) ↔ (frame.localVars[0]?.bind _) = _
    cases hthis : frame.localVars[0]? with
    | none => simp
    | some this =>
      have hstore : opcodeStoreField E [id] ((ctx.push v).push this) frame =
          if this.bits = 0 then some (false, ctx, frame)
          else (E.setValue ctx.world this.bits id.toNat v).bind fun world =>
            some (true, { ctx with world := world }, frame) := rfl
      simp only [Option.bind_some, runInstructions, opcodeTable, if_true, hstore,
        Option.bind_eq_bind]
      split
      · simp
      · cases E.setValue ctx.world this.bits id.toNat v <;> simp
  | static clazz id =>
    show ((((E.setStaticField ctx.world clazz id.toNat v).bind _).bind _) = _) ↔
      ((E.setStaticField ctx.world clazz id.toNat v).bind _) = _
    cases E.setStaticField ctx.world clazz id.toNat v <;> simp [runInstructions, Context.push]

/-- A location holds what has been written to it. -/
theorem read_write (hE : E.Memory) {loc : Location}
    (h : loc.write E ctx frame v = some (ctx', frame')) : loc.read E ctx' frame' = some v := by
  cases loc with
  | slot id =>
    obtain ⟨frame₁, hset, h⟩ := Option.bind_eq_some_iff.mp h
    obtain ⟨rfl, rfl⟩ := Prod.mk.inj (Option.some.inj h)
    unfold Frame.setVar at hset
    split at hset
    · next hlt =>
      obtain rfl := Option.some.inj hset
      exact List.getElem?_set_self hlt
    · cases hset
  | field id =>
    obtain ⟨this, hthis, h⟩ := Option.bind_eq_some_iff.mp h
    split at h
    · cases h
    · next hnull =>
      obtain ⟨world, hset, h⟩ := Option.bind_eq_some_iff.mp h
      obtain ⟨rfl, rfl⟩ := Prod.mk.inj (Option.some.inj h)
      show frame.localVars[0]?.bind _ = _
      rw [hthis]
      exact hE.value_same hnull hset
  | static clazz id =>
    obtain ⟨world, hset, h⟩ := Option.bind_eq_some_iff.mp h
    obtain ⟨rfl, rfl⟩ := Prod.mk.inj (Option.some.inj h)
    exact hE.static_same hset

/-- Another location keeps its value, unless the instance changes with it. -/
theorem read_write_other (hE : E.Memory) {loc loc' : Location} (hne : loc' ≠ loc)
    (hinstance : (∃ id, loc' = .field id) → loc ≠ .slot 0)
    (h : loc.write E ctx frame v = some (ctx', frame')) :
    loc'.read E ctx' frame' = loc'.read E ctx frame := by
  cases loc with
  | slot id =>
    obtain ⟨frame₁, hset, h⟩ := Option.bind_eq_some_iff.mp h
    obtain ⟨rfl, rfl⟩ := Prod.mk.inj (Option.some.inj h)
    unfold Frame.setVar at hset
    split at hset
    · obtain rfl := Option.some.inj hset
      cases loc' with
      | slot id' =>
        have hid : id.toNat ≠ id'.toNat := fun heq =>
          hne (congrArg Location.slot (BitVec.eq_of_toNat_eq heq.symm))
        exact List.getElem?_set_ne hid
      | field id' =>
        have hid : id.toNat ≠ 0 := fun heq =>
          hinstance ⟨id', rfl⟩ (congrArg Location.slot (BitVec.eq_of_toNat_eq heq))
        show ((frame.localVars.set id.toNat v)[0]?).bind _ = _
        rw [List.getElem?_set_ne hid]
        rfl
      | static clazz' id' => rfl
    · cases hset
  | field id =>
    obtain ⟨this, hthis, h⟩ := Option.bind_eq_some_iff.mp h
    split at h
    · cases h
    · obtain ⟨world, hset, h⟩ := Option.bind_eq_some_iff.mp h
      obtain ⟨rfl, rfl⟩ := Prod.mk.inj (Option.some.inj h)
      cases loc' with
      | slot id' => rfl
      | field id' =>
        have hid : (this.bits, id'.toNat) ≠ (this.bits, id.toNat) := fun heq =>
          hne (congrArg Location.field (BitVec.eq_of_toNat_eq (Prod.mk.inj heq).2))
        show frame.localVars[0]?.bind _ = frame.localVars[0]?.bind _
        rw [hthis]
        exact hE.value_other hset hid
      | static clazz' id' => exact hE.value_static hset
  | static clazz id =>
    obtain ⟨world, hset, h⟩ := Option.bind_eq_some_iff.mp h
    obtain ⟨rfl, rfl⟩ := Prod.mk.inj (Option.some.inj h)
    cases loc' with
    | slot id' => rfl
    | field id' =>
      show frame.localVars[0]?.bind _ = frame.localVars[0]?.bind _
      cases frame.localVars[0]? with
      | none => rfl
      | some this => exact hE.static_value hset
    | static clazz' id' =>
      have hid : (clazz', id'.toNat) ≠ (clazz, id.toNat) := fun heq => by
        obtain ⟨rfl, hid⟩ := Prod.mk.inj heq
        exact hne (congrArg (Location.static clazz') (BitVec.eq_of_toNat_eq hid))
      exact hE.static_other hset hid

/-- What can be read can be written. -/
theorem write_of_read (hE : E.Memory) {loc : Location} (h : loc.read E ctx frame = some v)
    (v' : Value) : ∃ ctx' frame', loc.write E ctx frame v' = some (ctx', frame') := by
  cases loc with
  | slot id =>
    have hlt : id.toNat < frame.localVars.length := (List.getElem?_eq_some_iff.mp h).1
    refine ⟨ctx, { frame with localVars := frame.localVars.set id.toNat v' }, ?_⟩
    show (frame.setVar id.toNat v').bind _ = _
    rw [Frame.setVar, if_pos hlt]
    rfl
  | field id =>
    obtain ⟨this, hthis, hvalue⟩ := Option.bind_eq_some_iff.mp h
    have hnull : this.bits ≠ 0 := fun hnull => by
      rw [hnull, hE.value_null] at hvalue
      cases hvalue
    obtain ⟨world, hset⟩ := hE.value_defined v' hvalue
    refine ⟨{ ctx with world := world }, frame, ?_⟩
    show frame.localVars[0]?.bind _ = _
    rw [hthis, Option.bind_some, if_neg hnull, hset]
    rfl
  | static clazz id =>
    obtain ⟨world, hset⟩ := hE.static_defined v' h
    refine ⟨{ ctx with world := world }, frame, ?_⟩
    show (E.setStaticField ctx.world clazz id.toNat v').bind _ = _
    rw [hset]
    rfl

/-- The value stack has no part in it. -/
theorem write_push {loc : Location} (u : Value)
    (h : loc.write E ctx frame v = some (ctx', frame')) :
    loc.write E (ctx.push u) frame v = some (ctx'.push u, frame') := by
  cases loc with
  | slot id =>
    obtain ⟨frame₁, hset, h⟩ := Option.bind_eq_some_iff.mp h
    obtain ⟨rfl, rfl⟩ := Prod.mk.inj (Option.some.inj h)
    show (frame.setVar id.toNat v).bind _ = _
    rw [hset]
    rfl
  | field id =>
    obtain ⟨this, hthis, h⟩ := Option.bind_eq_some_iff.mp h
    split at h
    · cases h
    · next hnull =>
      obtain ⟨world, hset, h⟩ := Option.bind_eq_some_iff.mp h
      obtain ⟨rfl, rfl⟩ := Prod.mk.inj (Option.some.inj h)
      show frame.localVars[0]?.bind _ = _
      rw [hthis, Option.bind_some, if_neg hnull]
      show (E.setValue ctx.world this.bits id.toNat v).bind _ = _
      rw [hset]
      rfl
  | static clazz id =>
    obtain ⟨world, hset, h⟩ := Option.bind_eq_some_iff.mp h
    obtain ⟨rfl, rfl⟩ := Prod.mk.inj (Option.some.inj h)
    show (E.setStaticField ctx.world clazz id.toNat v).bind _ = _
    rw [hset]
    rfl

theorem read_push (loc : Location) (u : Value) :
    loc.read E (ctx.push u) frame = loc.read E ctx frame := by
  cases loc <;> rfl

/-- Storing a value and loading it again. -/
theorem run_store_load (hE : E.Memory) {loc : Location}
    (h : runInstructions E exec loc.store (ctx.push v) frame = some (true, ctx', frame')) :
    runInstructions E exec loc.load ctx' frame' = some (true, ctx'.push v, frame') :=
  run_load exec (read_write hE ((run_store exec).mp h))

end

end Location

/-! ## A heap -/

/-- Objects with their class and their slots, and the static values of the classes. -/
structure Heap where
  objects : Word → Option (Word × List Value)
  statics : Word → List Value

/-- A slot of an object; `0` is the null pointer. -/
def Heap.getValue (heap : Heap) (obj : Word) (slot : ℕ) : Option Value :=
  if obj = 0 then none else (heap.objects obj).bind fun o => o.2[slot]?

/-- Writing a slot of an object. -/
def Heap.setValue (heap : Heap) (obj : Word) (slot : ℕ) (v : Value) : Option Heap := do
  let (clazz, values) ← heap.objects obj
  if slot < values.length then
    some { heap with
      objects := fun o => if o = obj then some (clazz, values.set slot v) else heap.objects o }
  else none

/-- Writing a static value. -/
def Heap.setStaticField (heap : Heap) (clazz : Word) (id : ℕ) (v : Value) : Option Heap :=
  if id < (heap.statics clazz).length then
    some { heap with
      statics := fun c => if c = clazz then (heap.statics clazz).set id v else heap.statics c }
  else none

/-- The slot of an element of an array: that of its `data` which has its index. -/
def Heap.element (heap : Heap) (array : Word) (index : Value) : Option (Word × ℕ) := do
  let data ← heap.getValue array 2
  if index.type = .integer then some (data.bits, index.bits.toNat) else none

/-- An environment over a heap, without natives, for given classes and strings. An index is out of
    bounds where the data of an array has no slot. -/
def heapEnv (chain : Word → Option ClassChain) (strings : Word → Option String) : Env Heap where
  double := ⟨fun _ _ => 0, fun _ _ => 0, fun _ _ => 0, fun _ _ => 0, fun _ => 0, fun _ => false,
    fun _ => false⟩
  frameAddr := fun _ => 1
  getClass := fun heap obj => (heap.objects obj).map Prod.fst
  chain := fun _ clazz => chain clazz
  getValue := Heap.getValue
  setValue := Heap.setValue
  getStaticField := fun heap clazz id => (heap.statics clazz)[id]?
  setStaticField := Heap.setStaticField
  getString := fun _ obj => strings obj
  toString := fun _ => ""
  allocateObject := fun _ _ => none
  arrayLoad := fun ctx array index => do
    let (data, slot) ← ctx.world.element array index
    let v ← ctx.world.getValue data slot
    some (true, ctx, v)
  arrayStore := fun ctx array index v => do
    let (data, slot) ← ctx.world.element array index
    let heap ← ctx.world.setValue data slot v
    some (true, { ctx with world := heap })
  newStackTrace := fun _ => 0
  functionClass := 1
  exceptionClass := 1
  function := fun _ => none

theorem Heap.setValue_some {heap heap' : Heap} {obj : Word} {slot : ℕ} {v : Value}
    (h : heap.setValue obj slot v = some heap') :
    ∃ clazz values, heap.objects obj = some (clazz, values) ∧ slot < values.length ∧
      heap' = { heap with objects := fun o =>
        if o = obj then some (clazz, values.set slot v) else heap.objects o } := by
  obtain ⟨⟨clazz, values⟩, hobj, h⟩ := Option.bind_eq_some_iff.mp h
  dsimp only at h
  split at h
  · next hlt => exact ⟨clazz, values, hobj, hlt, (Option.some.inj h).symm⟩
  · cases h

theorem Heap.setStaticField_some {heap heap' : Heap} {clazz : Word} {id : ℕ} {v : Value}
    (h : heap.setStaticField clazz id v = some heap') :
    id < (heap.statics clazz).length ∧
      heap' = { heap with
        statics := fun c =>
          if c = clazz then List.set (heap.statics clazz) id v else heap.statics c } := by
  unfold Heap.setStaticField at h
  split at h
  · next hlt => exact ⟨hlt, (Option.some.inj h).symm⟩
  · cases h

theorem Heap.getValue_some {heap : Heap} {obj : Word} {slot : ℕ} {v : Value}
    (h : heap.getValue obj slot = some v) :
    ∃ clazz values, obj ≠ 0 ∧ heap.objects obj = some (clazz, values) ∧
      values[slot]? = some v := by
  unfold Heap.getValue at h
  split at h
  · cases h
  · next hobj =>
    obtain ⟨⟨clazz, values⟩, hvalues, h⟩ := Option.bind_eq_some_iff.mp h
    exact ⟨clazz, values, hobj, hvalues, h⟩

/-- What is read of a heap after a write. -/
theorem Heap.getValue_setValue {heap heap' : Heap} {obj : Word} {slot : ℕ} {v : Value}
    (h : heap.setValue obj slot v = some heap') (obj' : Word) (slot' : ℕ) :
    heap'.getValue obj' slot' =
      if (obj', slot') = (obj, slot) ∧ obj ≠ 0 then some v else heap.getValue obj' slot' := by
  obtain ⟨clazz, values, hobj, hlt, rfl⟩ := Heap.setValue_some h
  unfold Heap.getValue
  by_cases hnull : obj' = 0
  · subst hnull
    rw [if_pos rfl, if_pos rfl, if_neg]
    rintro ⟨heq, hne⟩
    exact hne (Prod.mk.inj heq).1.symm
  · rw [if_neg hnull, if_neg hnull]
    dsimp only
    by_cases heq : obj' = obj
    · subst heq
      rw [if_pos rfl, hobj]
      show (values.set slot v)[slot']? = _
      by_cases hslot : slot' = slot
      · subst hslot
        rw [if_pos ⟨rfl, hnull⟩, List.getElem?_set_self hlt]
      · rw [if_neg (fun h => hslot (Prod.mk.inj h.1).2), List.getElem?_set_ne (Ne.symm hslot)]
        rfl
    · rw [if_neg heq, if_neg (fun h => heq (Prod.mk.inj h.1).1)]

theorem heapEnv_memory (chain : Word → Option ClassChain) (strings : Word → Option String) :
    (heapEnv chain strings).Memory where
  value_null := by
    intro heap slot
    show Heap.getValue heap 0 slot = none
    exact if_pos rfl
  value_defined := by
    intro heap obj slot v v' h
    obtain ⟨clazz, values, -, hobj, hv⟩ := Heap.getValue_some h
    have hlt := (List.getElem?_eq_some_iff.mp hv).1
    show ∃ w', (heap.objects obj).bind _ = some w'
    rw [hobj]
    exact ⟨_, if_pos hlt⟩
  value_same := by
    intro heap heap' obj slot v hobj h
    exact (Heap.getValue_setValue h obj slot).trans (if_pos ⟨rfl, hobj⟩)
  value_other := by
    intro heap heap' obj slot v obj' slot' h hne
    exact (Heap.getValue_setValue h obj' slot').trans (if_neg fun heq => hne heq.1)
  value_static := by
    intro heap _ obj slot v clazz id h
    obtain ⟨_, _, _, _, rfl⟩ := Heap.setValue_some h
    rfl
  value_class := by
    intro heap _ obj slot v obj' h
    obtain ⟨clazz, values, hobj, hlt, rfl⟩ := Heap.setValue_some h
    show (if obj' = obj then _ else _ : Option (Word × List Value)).map Prod.fst = _
    split
    · next heq =>
      subst heq
      show _ = (heap.objects obj').map Prod.fst
      rw [hobj]
      rfl
    · rfl
  value_chain := fun _ => rfl
  value_string := fun _ _ => rfl
  static_defined := by
    intro heap clazz id v v' h
    exact ⟨_, if_pos (List.getElem?_eq_some_iff.mp h).1⟩
  static_same := by
    intro heap _ clazz id v h
    obtain ⟨hlt, rfl⟩ := Heap.setStaticField_some h
    show (if clazz = clazz then _ else _ : List Value)[id]? = _
    rw [if_pos rfl]
    exact List.getElem?_set_self hlt
  static_other := by
    intro heap _ clazz id v clazz' id' h hne
    obtain ⟨hlt, rfl⟩ := Heap.setStaticField_some h
    show (if clazz' = clazz then _ else _ : List Value)[id']? = _
    split
    · next heq =>
      subst heq
      have hid : id ≠ id' := fun hid => hne (by rw [hid])
      show ((heap.statics clazz').set id v)[id']? = (heap.statics clazz')[id']?
      rw [List.getElem?_set_ne hid]
    · rfl
  static_value := by
    intro heap _ clazz id v obj slot h
    obtain ⟨_, rfl⟩ := Heap.setStaticField_some h
    rfl

end B0rk
