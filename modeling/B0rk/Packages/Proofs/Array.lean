import B0rk.Packages.Array
import B0rk.Runtime.Proofs.Reachable

set_option autoImplicit false

/-! # Arrays are bounded

The length of an array is an `int64_t` when the constructor stores it, an `unsigned` when the data is
allocated and an `int` in the bound check, and nothing looks whether an index is negative. As long as
the index is in the range that the three agree on, an array is a sequence of values:
`arrayRun_bounded`. -/

namespace B0rk

/-! ## The indices in range -/

/-- What the bound check compares with: the low half of the size, as an `int`. -/
def arrayBound (size : Value) : ℤ := (size.bits.setWidth 32).toInt

/-- The elements that the data object has for sure: one more than asked for, but the number of bytes
    wraps around. -/
def arrayRoom (size : Value) : ℕ := (size.bits.toNat + 1) % 2 ^ 28

/-- An index below the bound is one of the elements. -/
def InRange (size index : Value) : Prop :=
  index.type = .integer → index.bits.toInt < arrayBound size →
    0 ≤ index.bits.toInt ∧ index.bits.toInt < size.bits.toInt ∧ index.bits.toInt < arrayRoom size

instance (size index : Value) : Decidable (InRange size index) :=
  inferInstanceAs (Decidable (_ → _ → _))

/-- Up to 2^28 - 3 elements the room is not what limits an index. -/
theorem inRange_iff {size index : Value} (hsize : arrayBound size ≤ 2 ^ 28 - 3) :
    InRange size index ↔ (index.type = .integer → index.bits.toInt < arrayBound size →
      0 ≤ index.bits.toInt ∧ index.bits.toInt < size.bits.toInt) := by
  have hbound : arrayBound size = (size.bits.toNat : ℤ).bmod (2 ^ 32) := by
    rw [arrayBound, BitVec.toInt_setWidth]
  unfold InRange
  refine forall₂_congr fun _ hlt => and_congr_right fun hpos => and_iff_left_of_imp fun _ => ?_
  unfold arrayRoom
  rw [hbound] at hsize hlt
  rw [Int.bmod] at hsize hlt
  omega

theorem checkIndex_ok {size index : Value} {i : Word} :
    checkIndex size index = .ok i ↔
      index = Value.integer i ∧ i.toInt < arrayBound size := by
  obtain ⟨type, bits⟩ := index
  have hsle : ((size.bits.setWidth 32).signExtend 64).sle bits = true ↔
      arrayBound size ≤ bits.toInt := by
    rw [BitVec.sle_iff_toInt_le, BitVec.toInt_signExtend_of_le (by decide), arrayBound]
  unfold checkIndex Value.integer
  simp only [ne_eq, hsle, Value.mk.injEq]
  split
  · next hne => simp [hne]
  · next htype =>
    rw [not_not] at htype
    split
    · next hle =>
      simp only [reduceCtorEq, htype, true_and, false_iff, not_and, not_lt]
      rintro rfl
      exact hle
    · next hlt =>
      simp only [Except.ok.injEq, htype, true_and]
      constructor
      · rintro rfl
        exact ⟨rfl, not_le.mp hlt⟩
      · exact fun h => h.1

theorem Object.element_eq_some {o : Object} {i : Word} {slot : ℕ} :
    o.element i = some slot ↔ 0 ≤ i.toInt ∧ i.toInt < o.valueCount ∧ slot = i.toNat := by
  unfold Object.element
  split
  · next h => simp [h, eq_comm]
  · next h =>
    simp only [reduceCtorEq, false_iff]
    exact fun h' => h ⟨h'.1, h'.2.1⟩

/-! ## An array and its data -/

/-- The array of this size at `array`, with its data at `data`. `stores` are the stores to it, the
    latest first: the elements hold what was stored last. -/
structure ArrayKept (array data : ℕ) (size : Value) (stores : List (Word × Value)) (rt : Runtime)
    (blocks : List ℕ) : Prop where
  arena : ArenaInv rt blocks
  array_mem : array ∈ rt.mem.allocatedBlocks blocks
  data_mem : data ∈ rt.mem.allocatedBlocks blocks
  distinct : data ≠ array
  slots : 2 < (rt.mem array).valueCount
  length : (rt.mem array).values 1 = size
  pointer : (rt.mem array).values 2 = Value.object data
  arenaRef? : rt.arenaRef? (Value.object data) = some data
  room : arrayRoom size ≤ (rt.mem data).valueCount
  contents : ∀ i : Word, i.toNat < arrayRoom size →
    (rt.mem data).values i.toNat = (stores.lookup i).getD Value.zero

section

variable {array data : ℕ} {size : Value} {stores : List (Word × Value)} {rt rt' : Runtime}
  {blocks blocks' : List ℕ} {vs : List Value}

theorem ArrayKept.of_unchanged (h : ArrayKept array data size stores rt blocks)
    (harena : ArenaInv rt' blocks') (href : rt'.arenaRef? = rt.arenaRef?)
    (harray : array ∈ rt'.mem.allocatedBlocks blocks' ∧ Unchanged rt rt' array)
    (hdata : data ∈ rt'.mem.allocatedBlocks blocks' ∧ Unchanged rt rt' data) :
    ArrayKept array data size stores rt' blocks' := by
  obtain ⟨harray, hclazz, hsize, hvalues⟩ := harray
  obtain ⟨hdata, hclazz', hsize', hvalues'⟩ := hdata
  have hcount : (rt'.mem array).valueCount = (rt.mem array).valueCount := by
    rw [Object.valueCount, hsize, Object.valueCount]
  have hcount' : (rt'.mem data).valueCount = (rt.mem data).valueCount := by
    rw [Object.valueCount, hsize', Object.valueCount]
  exact
    { arena := harena
      array_mem := harray
      data_mem := hdata
      distinct := h.distinct
      slots := hcount ▸ h.slots
      length := hvalues ▸ h.length
      pointer := hvalues ▸ h.pointer
      arenaRef? := href ▸ h.arenaRef?
      room := hcount' ▸ h.room
      contents := hvalues' ▸ h.contents }

/-- What reaches the array reaches its data. -/
theorem ArrayKept.data_reachable (h : ArrayKept array data size stores rt blocks)
    (harray : array ∈ reachableFrom rt rt.mem vs) : data ∈ reachableFrom rt rt.mem vs := by
  obtain ⟨v, hv, a, ha, hpath⟩ := harray
  have hfree : (rt.mem array).clazz ≠ none := fun hnone => by
    have := (Mem.mem_allocatedBlocks.mp h.array_mem).2
    rw [Object.isFree, hnone] at this
    cases this
  refine ⟨v, hv, a, ha, Relation.ReflTransGen.tail hpath ⟨hfree, 2, h.slots, ?_⟩⟩
  rw [h.pointer, h.arenaRef?]

theorem ArrayKept.of_reachableKept (h : ArrayKept array data size stores rt blocks)
    (harray : array ∈ reachableFrom rt rt.mem vs) (hkept : ReachableKept vs rt rt' blocks') :
    ArrayKept array data size stores rt' blocks' :=
  h.of_unchanged hkept.arena hkept.arenaRef? (hkept.kept _ harray)
    (hkept.kept _ (h.data_reachable harray))

/-- A store to an element. -/
theorem ArrayKept.store (h : ArrayKept array data size stores rt blocks) (i : Word) (value : Value) :
    ArrayKept array data size ((i, value) :: stores) (rt.setValue data i.toNat value) blocks := by
  have hmem := setValue_mem rt data i.toNat value
  have hcount (a : ℕ) : ((rt.setValue data i.toNat value).mem a).valueCount =
      (rt.mem a).valueCount := by rw [Object.valueCount, (hmem a).2.1, Object.valueCount]
  have hother : (rt.setValue data i.toNat value).mem array = rt.mem array :=
    Mem.set_other _ _ h.distinct.symm
  have hself : ((rt.setValue data i.toNat value).mem data).values =
      fun n => if n = i.toNat then value else (rt.mem data).values n := by
    show (rt.mem.set data _ data).values = _
    rw [Mem.set_same]
  have halloc {b : ℕ} (hb : b ∈ rt.mem.allocatedBlocks blocks) :
      b ∈ (rt.setValue data i.toNat value).mem.allocatedBlocks blocks := by
    rw [Mem.mem_allocatedBlocks, setValue_isFree]
    exact Mem.mem_allocatedBlocks.mp hb
  refine
    { arena := h.arena.setValue _ _ _
      array_mem := halloc h.array_mem
      data_mem := halloc h.data_mem
      distinct := h.distinct
      slots := hother ▸ h.slots
      length := hother ▸ h.length
      pointer := hother ▸ h.pointer
      arenaRef? := h.arenaRef?
      room := hcount data ▸ h.room
      contents := fun j hj => ?_ }
  rw [hself]
  by_cases hij : j = i
  · subst hij
    rw [List.lookup_cons_self]
    exact if_pos rfl
  · have hne : j.toNat ≠ i.toNat := fun heq => hij (BitVec.eq_of_toNat_eq heq)
    rw [List.lookup_cons, beq_false_of_ne hij]
    exact (if_neg hne).trans (h.contents j hj)

/-- A write to another object. -/
theorem ArrayKept.write (h : ArrayKept array data size stores rt blocks) {b : ℕ}
    (harray : b ≠ array) (hdata : b ≠ data) (values : ℕ → Value) (gcMark : Word) :
    ArrayKept array data size stores
      { rt with mem := rt.mem.set b { rt.mem b with values := values, gcMark := gcMark } }
      blocks := by
  have hsame {a : ℕ} (hne : b ≠ a) (ha : a ∈ rt.mem.allocatedBlocks blocks) :
      a ∈ (rt.mem.set b { rt.mem b with values := values, gcMark := gcMark }).allocatedBlocks
          blocks ∧
        Unchanged rt
          { rt with mem := rt.mem.set b { rt.mem b with values := values, gcMark := gcMark } } a := by
    rw [Mem.mem_allocatedBlocks] at ha ⊢
    unfold Unchanged
    simp only [Mem.set_other _ _ hne.symm]
    exact ⟨ha, trivial, trivial, trivial⟩
  exact h.of_unchanged (h.arena.write b values gcMark) rfl (hsame harray h.array_mem)
    (hsame hdata h.data_mem)

end

/-! ## The constructor -/

/-- An allocation leaves the arena where it is. -/
theorem allocateObject_arena {rt rt' : Runtime} {blocks : List ℕ} (h : Arena rt blocks) {fuel : ℕ}
    {roots : Roots} {now clazz : Word} {fieldCount extraValues obj : ℕ}
    (halloc : allocateObject fuel roots now clazz fieldCount extraValues rt = some (rt', obj)) :
    rt'.start = rt.start ∧ rt'.arenaSize = rt.arenaSize := by
  obtain ⟨rt₁, hspace, htake⟩ := Option.bind_eq_some_iff.mp halloc
  have hspace' : rt₁.start = rt.start ∧ rt₁.arenaSize = rt.arenaSize := by
    unfold Runtime.checkSpace at hspace
    split at hspace
    · rcases gc_cases h hspace with rfl | ⟨vs, blocks', -, hcol⟩
      · exact ⟨rfl, rfl⟩
      · exact ⟨hcol.same.start, hcol.same.arenaSize⟩
    · obtain rfl := Option.some.inj hspace
      exact ⟨rfl, rfl⟩
  rw [← hspace'.1, ← hspace'.2]
  unfold Runtime.takeObject at htake
  split at htake
  · cases htake
  · obtain ⟨rfl, rfl⟩ := Prod.mk.inj (Option.some.inj htake)
    exact ⟨rfl, rfl⟩

/-- The new object has at least the bytes that were asked for, and its slots are zero. -/
theorem allocateObject_object {rt rt' : Runtime} {fuel : ℕ} {roots : Roots} {now clazz : Word}
    {fieldCount extraValues obj : ℕ}
    (halloc : allocateObject fuel roots now clazz fieldCount extraValues rt = some (rt', obj)) :
    objectSize (fieldCount + extraValues) ≤ (rt'.mem obj).size ∧
      ∀ i, (rt'.mem obj).values i = Value.zero := by
  obtain ⟨rt₁, -, htake⟩ := Option.bind_eq_some_iff.mp halloc
  unfold Runtime.takeObject at htake
  split at htake
  · cases htake
  · obtain ⟨rfl, rfl⟩ := Prod.mk.inj (Option.some.inj htake)
    simp only [Mem.set_same]
    refine ⟨?_, fun _ => rfl⟩
    split
    · exact le_rfl
    · exact Nat.le_add_right _ _

theorem arrayRoom_le {size : Value} {bytes : ℕ}
    (hfits : HeaderFits (arrayDataFieldCount + size.bits.toNat % 2 ^ 32))
    (hbytes : objectSize (arrayDataFieldCount + size.bits.toNat % 2 ^ 32) ≤ bytes) :
    arrayRoom size ≤ (bytes - sizeofObject) / sizeofValue := by
  unfold HeaderFits at hfits
  unfold objectSize sizeofObject sizeofValue arrayDataFieldCount at *
  unfold arrayRoom
  omega

section

variable {rt rt' : Runtime} {blocks : List ℕ} {fuel : ℕ} {classes : CoreClasses} {roots : Roots}
  {now₁ now₂ native stackTrace : Word}

/-- An array that the constructor completes on: the instance must have been kept while the data was
    allocated. -/
theorem arrayConstructor_kept (h : ArenaInv rt blocks) (hspace : rt.start + rt.arenaSize ≤ 2 ^ 64)
    {array : ℕ} (harray : array ∈ rt.mem.allocatedBlocks blocks)
    (hslots : 2 < (rt.mem array).valueCount) (hkeeps : rt.Keeps roots array) {size : Value}
    (hfits : HeaderFits (arrayDataFieldCount + size.bits.toNat % 2 ^ 32))
    {held : List (ℕ × Word)}
    (hctor : arrayConstructor fuel classes roots now₁ now₂ native stackTrace array [size] rt =
      some (rt', held)) :
    ∃ data blocks', held = [(data, classes.arrayData)] ∧
      ArrayKept array data size [] rt' blocks' := by
  obtain ⟨⟨rt₁, data⟩, halloc, hctor⟩ := Option.bind_eq_some_iff.mp hctor
  obtain ⟨rfl, rfl⟩ := Prod.mk.inj (Option.some.inj hctor)
  obtain ⟨blocks', heffect, harena⟩ := allocateObject_effect h halloc
  have harena := harena hfits
  obtain ⟨hmem, hne, ⟨-, hsize, -⟩, -⟩ := heffect.kept array harray hkeeps
  obtain ⟨hbytes, hzero⟩ := allocateObject_object halloc
  obtain ⟨hstart, harenaSize⟩ := allocateObject_arena h.toArena halloc
  have hdata := (Mem.mem_allocatedBlocks.mp heffect.allocated).1
  obtain ⟨hlow, hhigh⟩ := harena.tiles.mem_bounds hdata
  have hheader := harena.header data hdata
  rw [← hstart, ← harenaSize] at hspace
  -- the address of the data survives the pointer
  have hlt : data < rt₁.start + rt₁.arenaSize := by
    have : 0 < sizeofObject := by decide
    omega
  have hbits : (Value.object data).bits.toNat = data :=
    Nat.mod_eq_of_lt (Nat.lt_of_lt_of_le hlt hspace)
  have href : rt₁.arenaRef? (Value.object data) = some data := by
    have hvalid : rt₁.isObjectValid data = true := by
      rw [Runtime.isObjectValid, decide_eq_true hlow, decide_eq_true hlt]
      rfl
    rw [Runtime.arenaRef?, hbits, hvalid]
    rfl
  -- the two fields
  have hfields := setValue_mem (rt₁.setValue array 1 size) array 2 (Value.object data)
  have hfield := setValue_mem rt₁ array 1 size
  have halloc' {b : ℕ} (hb : b ∈ rt₁.mem.allocatedBlocks blocks') :
      b ∈ ((rt₁.setValue array 1 size).setValue array 2
        (Value.object data)).mem.allocatedBlocks blocks' := by
    rw [Mem.mem_allocatedBlocks, setValue_isFree, setValue_isFree]
    exact Mem.mem_allocatedBlocks.mp hb
  have hdata' : ((rt₁.setValue array 1 size).setValue array 2 (Value.object data)).mem data =
      rt₁.mem data := by
    show ((rt₁.mem.set array _).set array _) data = _
    rw [Mem.set_other _ _ hne.symm, Mem.set_other _ _ hne.symm]
  have harray' : ((((rt₁.setValue array 1 size).setValue array 2 (Value.object data)).mem
      array).values 1 = size) ∧ (((rt₁.setValue array 1 size).setValue array 2
        (Value.object data)).mem array).values 2 = Value.object data := by
    simp [Runtime.setValue]
  exact ⟨data, blocks', rfl,
    { arena := (harena.setValue _ _ _).setValue _ _ _
      array_mem := halloc' hmem
      data_mem := halloc' heffect.allocated
      distinct := hne.symm
      slots := by rw [Object.valueCount, (hfields array).2.1, (hfield array).2.1, hsize]; exact hslots
      length := harray'.1
      pointer := harray'.2
      arenaRef? := href
      room := by rw [hdata']; exact arrayRoom_le hfits hbytes
      contents := fun i _ => by rw [hdata', hzero]; rfl }⟩

/-! ## Accesses -/

/-- An access of a bounded array, when `stores` are the stores before it: an exception, and nothing
    that the program can reach has changed, or an element inside the block at `data`. A load gives what
    was stored last. -/
inductive BoundedAccess (roots : Roots) (data : ℕ) (length : ℤ) (stores : List (Word × Value))
    (rt : Runtime) : Request → Access → Prop
  | threw {request : Request} {message : String} {rt' : Runtime} :
      (∀ vs, rt.Scans roots vs → ∀ b ∈ reachableFrom rt rt.mem vs, Unchanged rt rt' b) →
      BoundedAccess roots data length stores rt request (.threw message rt')
  | load {i : Word} : 0 ≤ i.toInt → i.toInt < length → i.toInt < (rt.mem data).valueCount →
      BoundedAccess roots data length stores rt (.load (Value.integer i))
        (.touched ((stores.lookup i).getD Value.zero) rt)
  | store {i : Word} {value : Value} : 0 ≤ i.toInt → i.toInt < length →
      i.toInt < (rt.mem data).valueCount →
      BoundedAccess roots data length stores rt (.store (Value.integer i) value)
        (.touched value (rt.setValue data i.toNat value))

/-- The element that a touching access has stored. -/
def Request.stores : Request → List (Word × Value)
  | .load _ => []
  | .store index value => [(index.bits, value)]

variable {array data : ℕ} {size : Value} {stores : List (Word × Value)} {request : Request}
  {access : Access} {message : String} {indices : List Value}

theorem arrayAccess_error (hcheck : checkIndex ((rt.mem array).values 1) request.index =
      .error message)
    (haccess : arrayAccess fuel classes roots now₁ now₂ native stackTrace array request rt =
      some access) :
    ∃ rt' made, access = .threw message rt' ∧
      createExceptionMessage fuel classes roots now₁ now₂ native stackTrace rt =
        some (rt', made) := by
  have hthrow : arrayThrow fuel classes roots now₁ now₂ native stackTrace message rt =
      some access := by
    cases request with
    | load index =>
      change arrayLoad fuel classes roots now₁ now₂ native stackTrace array _ rt = _ at haccess
      unfold arrayLoad at haccess
      rwa [show checkIndex _ index = _ from hcheck] at haccess
    | store index value =>
      change arrayStore fuel classes roots now₁ now₂ native stackTrace array _ _ rt = _ at haccess
      unfold arrayStore at haccess
      rwa [show checkIndex _ index = _ from hcheck] at haccess
  obtain ⟨⟨rt', made⟩, hexc, hthrow⟩ := Option.bind_eq_some_iff.mp hthrow
  exact ⟨rt', made, (Option.some.inj hthrow).symm, hexc⟩

theorem ArrayKept.pointer_toNat (h : ArrayKept array data size stores rt blocks) :
    ((rt.mem array).values 2).bits.toNat = data := by
  have href := h.arenaRef?
  rw [Runtime.arenaRef?] at href
  split at href
  · rw [h.pointer]
    exact Option.some.inj href
  · cases href

/-- Behind the bound check only the element decides. -/
theorem arrayAccess_ok (h : ArrayKept array data size stores rt blocks) {i : Word}
    (hcheck : checkIndex size request.index = .ok i)
    (haccess : arrayAccess fuel classes roots now₁ now₂ native stackTrace array request rt =
      some access) :
    ((rt.mem data).element i = none ∧ access = .outside) ∨
      ∃ slot, (rt.mem data).element i = some slot ∧
        (request = .load (Value.integer i) ∧ access = .touched ((rt.mem data).values slot) rt ∨
          ∃ value, request = .store (Value.integer i) value ∧
            access = .touched value (rt.setValue data slot value)) := by
  have hindex := (checkIndex_ok.mp hcheck).1
  rw [← h.length] at hcheck
  cases request with
  | load index =>
    obtain rfl : index = Value.integer i := hindex
    change arrayLoad fuel classes roots now₁ now₂ native stackTrace array _ rt = _ at haccess
    unfold arrayLoad at haccess
    rw [show checkIndex _ (Value.integer i) = _ from hcheck] at haccess
    simp only [h.pointer_toNat] at haccess
    cases helement : (rt.mem data).element i with
    | none =>
      rw [helement] at haccess
      exact .inl ⟨rfl, (Option.some.inj haccess).symm⟩
    | some slot =>
      rw [helement] at haccess
      exact .inr ⟨slot, rfl, .inl ⟨rfl, (Option.some.inj haccess).symm⟩⟩
  | store index value =>
    obtain rfl : index = Value.integer i := hindex
    change arrayStore fuel classes roots now₁ now₂ native stackTrace array _ _ rt = _ at haccess
    unfold arrayStore at haccess
    rw [show checkIndex _ (Value.integer i) = _ from hcheck] at haccess
    simp only [h.pointer_toNat] at haccess
    cases helement : (rt.mem data).element i with
    | none =>
      rw [helement] at haccess
      exact .inl ⟨rfl, (Option.some.inj haccess).symm⟩
    | some slot =>
      rw [helement] at haccess
      exact .inr ⟨slot, rfl, .inr ⟨value, rfl, (Option.some.inj haccess).symm⟩⟩

/-- One access. -/
theorem arrayAccess_bounded (h : ArrayKept array data size stores rt blocks)
    (hrange : InRange size request.index)
    (haccess : arrayAccess fuel classes roots now₁ now₂ native stackTrace array request rt =
      some access) :
    BoundedAccess roots data size.bits.toInt stores rt request access := by
  cases hcheck : checkIndex size request.index with
  | error message =>
    obtain ⟨rt', made, rfl, hexc⟩ := arrayAccess_error (h.length ▸ hcheck) haccess
    refine .threw fun vs hscans b hb => ?_
    obtain ⟨blocks', hkept⟩ := createExceptionMessage_reachableKept h.arena hscans hexc
    exact (hkept.kept b hb).2
  | ok i =>
    obtain ⟨hindex, hlt⟩ := checkIndex_ok.mp hcheck
    rw [hindex] at hrange
    obtain ⟨hpos, hlength, hroom⟩ : 0 ≤ i.toInt ∧ i.toInt < size.bits.toInt ∧
      i.toInt < arrayRoom size := hrange rfl hlt
    have hcount : i.toInt < (rt.mem data).valueCount :=
      lt_of_lt_of_le hroom (Int.ofNat_le.mpr h.room)
    have helement : (rt.mem data).element i = some i.toNat :=
      Object.element_eq_some.mpr ⟨hpos, hcount, rfl⟩
    have htoNat : i.toNat < arrayRoom size := by
      rw [← BitVec.toNat_toInt_of_sle (BitVec.sle_iff_toInt_le.mpr (by simpa using hpos))]
      omega
    rcases arrayAccess_ok h hcheck haccess with ⟨hnone, -⟩ | ⟨slot, hslot, hdone⟩
    · cases hnone.symm.trans helement
    · obtain rfl : i.toNat = slot := Option.some.inj (helement.symm.trans hslot)
      rcases hdone with ⟨rfl, rfl⟩ | ⟨value, rfl, rfl⟩
      · rw [h.contents i htoNat]
        exact .load hpos hlength hcount
      · exact .store hpos hlength hcount

/-- An index that is below the bound, and negative or not below the length, is used all the same. -/
theorem BoundedAccess.range (hbounded : BoundedAccess roots data size.bits.toInt stores rt request access)
    (h : ArrayKept array data size stores rt blocks)
    (haccess : arrayAccess fuel classes roots now₁ now₂ native stackTrace array request rt =
      some access)
    (htype : request.index.type = .integer) (hlt : request.index.bits.toInt < arrayBound size) :
    0 ≤ request.index.bits.toInt ∧ request.index.bits.toInt < size.bits.toInt := by
  have hcheck : checkIndex size request.index = .ok request.index.bits := by
    refine checkIndex_ok.mpr ⟨?_, hlt⟩
    rw [Value.integer, ← htype]
  cases hbounded with
  | threw _ =>
    rcases arrayAccess_ok h hcheck haccess with ⟨-, hne⟩ | ⟨_, -, ⟨-, hne⟩ | ⟨_, -, hne⟩⟩
    · cases hne
    · cases hne
    · cases hne
  | load hpos hlength _ => exact ⟨hpos, hlength⟩
  | store hpos hlength _ => exact ⟨hpos, hlength⟩

/-! ## Runs -/

/-- Accesses of an array, one after another, with the indices they are given and the stores that they
    make. The program holds the array, so that the collections of its exceptions keep it; in between
    there may be other allocations and collections, and writes to other objects. -/
inductive ArrayRun (classes : CoreClasses) (array data : ℕ) (rt₀ : Runtime) :
    Runtime → List (Word × Value) → List Value → Prop
  | start : ArrayRun classes array data rt₀ rt₀ [] []
  | threw {rt rt' : Runtime} {stores : List (Word × Value)} {indices : List Value} {fuel : ℕ}
      {roots : Roots} {vs : List Value} {now₁ now₂ native stackTrace : Word} {request : Request}
      {message : String} : ArrayRun classes array data rt₀ rt stores indices → rt.Scans roots vs →
      array ∈ reachableFrom rt rt.mem vs →
      arrayAccess fuel classes roots now₁ now₂ native stackTrace array request rt =
        some (.threw message rt') →
      ArrayRun classes array data rt₀ rt' stores (request.index :: indices)
  | touched {rt rt' : Runtime} {stores : List (Word × Value)} {indices : List Value} {fuel : ℕ}
      {roots : Roots} {now₁ now₂ native stackTrace : Word} {request : Request} {value : Value} :
      ArrayRun classes array data rt₀ rt stores indices →
      arrayAccess fuel classes roots now₁ now₂ native stackTrace array request rt =
        some (.touched value rt') →
      ArrayRun classes array data rt₀ rt' (request.stores ++ stores) (request.index :: indices)
  | allocate {rt rt' : Runtime} {stores : List (Word × Value)} {indices : List Value}
      {fuel fieldCount extraValues obj : ℕ} {roots : Roots} {vs : List Value} {now clazz : Word} :
      ArrayRun classes array data rt₀ rt stores indices → rt.Scans roots vs →
      array ∈ reachableFrom rt rt.mem vs → HeaderFits (fieldCount + extraValues) →
      allocateObject fuel roots now clazz fieldCount extraValues rt = some (rt', obj) →
      ArrayRun classes array data rt₀ rt' stores indices
  | gc {rt rt' : Runtime} {stores : List (Word × Value)} {indices : List Value} {fuel : ℕ}
      {roots : Roots} {vs : List Value} {now : Word} {force : Bool} :
      ArrayRun classes array data rt₀ rt stores indices → rt.Scans roots vs →
      array ∈ reachableFrom rt rt.mem vs → gc fuel roots now force rt = some rt' →
      ArrayRun classes array data rt₀ rt' stores indices
  | write {rt : Runtime} {stores : List (Word × Value)} {indices : List Value} {b : ℕ}
      {values : ℕ → Value} {gcMark : Word} : ArrayRun classes array data rt₀ rt stores indices →
      b ≠ array → b ≠ data →
      ArrayRun classes array data rt₀
        { rt with mem := rt.mem.set b { rt.mem b with values := values, gcMark := gcMark } } stores
        indices

/-- In every state of a run the elements hold what was stored last. -/
theorem ArrayRun.kept {rt₀ : Runtime} (hrun : ArrayRun classes array data rt₀ rt stores indices)
    {blocks₀ : List ℕ} (h : ArrayKept array data size [] rt₀ blocks₀)
    (hrange : ∀ index ∈ indices, InRange size index) :
    ∃ blocks, ArrayKept array data size stores rt blocks := by
  induction hrun with
  | start => exact ⟨blocks₀, h⟩
  | threw _ hscans harray haccess ih =>
    obtain ⟨blocks, hkept⟩ := ih (List.forall_mem_cons.mp hrange).2
    cases hcheck : checkIndex size (Request.index _) with
    | error message =>
      obtain ⟨_, _, heq, hexc⟩ := arrayAccess_error (hkept.length ▸ hcheck) haccess
      cases heq
      obtain ⟨blocks', hreach⟩ := createExceptionMessage_reachableKept hkept.arena hscans hexc
      exact ⟨blocks', hkept.of_reachableKept harray hreach⟩
    | ok i =>
      rcases arrayAccess_ok hkept hcheck haccess with ⟨-, hne⟩ | ⟨_, -, ⟨-, hne⟩ | ⟨_, -, hne⟩⟩
      · cases hne
      · cases hne
      · cases hne
  | touched _ haccess ih =>
    obtain ⟨hindex, hrange⟩ := List.forall_mem_cons.mp hrange
    obtain ⟨blocks, hkept⟩ := ih hrange
    cases arrayAccess_bounded hkept hindex haccess with
    | load => exact ⟨blocks, hkept⟩
    | store => exact ⟨blocks, hkept.store _ _⟩
  | allocate _ hscans harray hfits halloc ih =>
    obtain ⟨blocks, hkept⟩ := ih hrange
    obtain ⟨blocks', hreach, -⟩ := allocateObject_reachableKept hkept.arena hscans hfits halloc
    exact ⟨blocks', hkept.of_reachableKept harray hreach⟩
  | gc _ hscans harray hgc ih =>
    obtain ⟨blocks, hkept⟩ := ih hrange
    obtain ⟨blocks', hreach⟩ := gc_reachableKept hkept.arena hscans hgc
    exact ⟨blocks', hkept.of_reachableKept harray hreach⟩
  | write _ harray hdata ih =>
    obtain ⟨blocks, hkept⟩ := ih hrange
    exact ⟨blocks, hkept.write harray hdata _ _⟩

/-- **Arrays are bounded.** After a run whose indices were all in range, the array and its data are
    allocated, and an access does what it should if its index is in range too; up to 2^28 - 3 elements
    only then. -/
theorem arrayRun_bounded (h : ArenaInv rt blocks) (hspace : rt.start + rt.arenaSize ≤ 2 ^ 64)
    (harray : array ∈ rt.mem.allocatedBlocks blocks) (hslots : 2 < (rt.mem array).valueCount)
    (hkeeps : rt.Keeps roots array)
    (hfits : HeaderFits (arrayDataFieldCount + size.bits.toNat % 2 ^ 32)) {rt₀ rt₁ : Runtime}
    (hctor : arrayConstructor fuel classes roots now₁ now₂ native stackTrace array [size] rt =
      some (rt₀, [(data, classes.arrayData)]))
    (hrun : ArrayRun classes array data rt₀ rt₁ stores indices)
    (hrange : ∀ index ∈ indices, InRange size index) {fuel' : ℕ} {roots' : Roots}
    {now₁' now₂' native' stackTrace' : Word}
    (haccess : arrayAccess fuel' classes roots' now₁' now₂' native' stackTrace' array request rt₁ =
      some access) :
    (∃ blocks₁, ArenaInv rt₁ blocks₁ ∧ array ∈ rt₁.mem.allocatedBlocks blocks₁ ∧
      data ∈ rt₁.mem.allocatedBlocks blocks₁) ∧
      (InRange size request.index →
        BoundedAccess roots' data size.bits.toInt stores rt₁ request access) ∧
      (arrayBound size ≤ 2 ^ 28 - 3 →
        BoundedAccess roots' data size.bits.toInt stores rt₁ request access →
        InRange size request.index) := by
  obtain ⟨data', blocks₀, hheld, hkept₀⟩ :=
    arrayConstructor_kept h hspace harray hslots hkeeps hfits hctor
  obtain rfl : data = data' := (Prod.mk.inj (List.cons.inj hheld).1).1
  obtain ⟨blocks₁, hkept⟩ := hrun.kept hkept₀ hrange
  refine ⟨⟨blocks₁, hkept.arena, hkept.array_mem, hkept.data_mem⟩, ?_, ?_⟩
  · exact fun hindex => arrayAccess_bounded hkept hindex haccess
  · exact fun hsize hbounded => (inRange_iff hsize).mpr fun htype hlt =>
      hbounded.range hkept haccess htype hlt

end

/-! ## An array in a fresh arena -/

def oneArrayRequest : Option (Runtime × ℕ) :=
  allocateObject 0 emptyRoots 1 coreClasses.array arrayFieldCount 0 (Runtime.init 4096)

/-- An arena with an `Array` at 4096, before its constructor runs. -/
def oneArray : Runtime := (oneArrayRequest.map Prod.fst).getD (Runtime.init 4096)

/-- The array with `size` elements. -/
def filledArray (size : Word) : Runtime :=
  ((arrayConstructor 0 coreClasses emptyRoots 2 3 0 0 4096 [Value.integer size] oneArray).map
    Prod.fst).getD oneArray

/-- Three elements; 7 is stored in one of them and read back. -/
theorem arrayRun_bounded_three :
    arrayConstructor 0 coreClasses emptyRoots 2 3 0 0 4096 [Value.integer 3] oneArray =
        some (filledArray 3, [(4168, coreClasses.arrayData)]) ∧
      ∃ rt₁, ArrayRun coreClasses 4096 4168 (filledArray 3) rt₁ [(1, Value.integer 7)]
          [Value.integer 1] ∧
        BoundedAccess emptyRoots 4168 3 [(1, Value.integer 7)] rt₁ (.load (Value.integer 1))
          (.touched (Value.integer 7) rt₁) := by
  have halloc : allocateObject 0 emptyRoots 1 coreClasses.array arrayFieldCount 0
      (Runtime.init 4096) = some (oneArray, 4096) := rfl
  obtain ⟨blocks, heffect, harena⟩ := allocateObject_effect (arenaInv_init (by decide)) halloc
  have hctor : arrayConstructor 0 coreClasses emptyRoots 2 3 0 0 4096 [Value.integer 3] oneArray =
      some (filledArray 3, [(4168, coreClasses.arrayData)]) := rfl
  have hstore : arrayAccess 0 coreClasses emptyRoots 4 5 0 0 4096
      (.store (Value.integer 1) (Value.integer 7)) (filledArray 3) =
        some (.touched (Value.integer 7) ((filledArray 3).setValue 4168 1 (Value.integer 7))) := rfl
  have hrun : ArrayRun coreClasses 4096 4168 (filledArray 3) _ [(1, Value.integer 7)]
      [Value.integer 1] := ArrayRun.start.touched hstore
  have hload : arrayAccess 0 coreClasses emptyRoots 4 5 0 0 4096 (.load (Value.integer 1))
      ((filledArray 3).setValue 4168 1 (Value.integer 7)) =
        some (.touched (Value.integer 7) ((filledArray 3).setValue 4168 1 (Value.integer 7))) := rfl
  refine ⟨hctor, _, hrun, ?_⟩
  exact (arrayRun_bounded (harena (by decide)) (by decide) heffect.allocated (by decide)
    (fun hneeds => absurd hneeds (by decide)) (by decide) hctor hrun (by decide) hload).2.1
    (by decide)

/-- The index -1 of an array of five elements, and the index 5 of one of 2^28, whose data has room for
    one: neither raises an exception, and both are outside. -/
theorem array_not_bounded :
    (arrayConstructor 0 coreClasses emptyRoots 2 3 0 0 4096 [Value.integer 5] oneArray =
        some (filledArray 5, [(4168, coreClasses.arrayData)]) ∧
      arrayAccess 0 coreClasses emptyRoots 4 5 0 0 4096 (.load (Value.integer (-1)))
        (filledArray 5) = some .outside ∧
      ¬BoundedAccess emptyRoots 4168 5 [] (filledArray 5) (.load (Value.integer (-1))) .outside) ∧
    arrayConstructor 0 coreClasses emptyRoots 2 3 0 0 4096 [Value.integer (2 ^ 28)] oneArray =
        some (filledArray (2 ^ 28), [(4168, coreClasses.arrayData)]) ∧
      arrayAccess 0 coreClasses emptyRoots 4 5 0 0 4096 (.store (Value.integer 5) Value.zero)
        (filledArray (2 ^ 28)) = some .outside ∧
      ¬BoundedAccess emptyRoots 4168 (2 ^ 28) [] (filledArray (2 ^ 28))
        (.store (Value.integer 5) Value.zero) .outside :=
  ⟨⟨rfl, rfl, nofun⟩, rfl, rfl, nofun⟩

end B0rk
