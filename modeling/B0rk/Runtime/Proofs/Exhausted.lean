import B0rk.Runtime.Proofs.Dangling
import B0rk.Runtime.Proofs.Hold

set_option autoImplicit false

/-! # When an allocation fails

`allocateObject` collects when three quarters of the arena are in use, and not because its search of the
free list has failed. Below that it ends with "No suitable free space" although a collection would
make room, exactly where some stretch of the arena of the requested size holds garbage and free blocks
only. -/

namespace B0rk

open Tiling

/-- `allocateObject` has passed the space check and calls `exit`. -/
def Runtime.Exits (fuel : ℕ) (roots : Roots) (now clazz : Word) (fieldCount extraValues : ℕ)
    (rt : Runtime) : Prop :=
  ∃ rt₁, rt.checkSpace fuel roots now = some rt₁ ∧
    rt₁.takeObject clazz (objectSize (fieldCount + extraValues)) = none

/-- No free block has `n` bytes. -/
def Runtime.Exhausted (rt : Runtime) (n : ℕ) : Prop := ∀ o ∈ rt.freeList, (rt.mem o).size < n

/-- Every stretch of `n` bytes of the arena meets an object that a collection keeps. -/
def NoRoom (rt : Runtime) (blocks : List ℕ) (roots : Roots) (now : Word) (n : ℕ) : Prop :=
  ∀ p, rt.start ≤ p → p + n ≤ rt.start + rt.arenaSize →
    ∃ b ∈ rt.mem.allocatedBlocks blocks, rt.Kept roots now b ∧ b < p + n ∧
      p < b + (rt.mem b).size

theorem takeFirstFit_eq_none_iff {mem : Mem} {n : ℕ} {l : List ℕ} :
    takeFirstFit mem n l = none ↔ ∀ o ∈ l, (mem o).size < n := by
  constructor
  · intro h o ho
    by_contra hle
    have hsome := takeFirstFit_isSome ho (Nat.not_lt.mp hle)
    rw [h] at hsome
    cases hsome
  · intro h
    cases hfit : takeFirstFit mem n l with
    | none => rfl
    | some r =>
      obtain ⟨l₁, l₂, rfl, -, hle⟩ := takeFirstFit_some hfit
      have hlt := h r.1 (by simp)
      exact absurd hle (Nat.not_le.mpr hlt)

theorem takeObject_eq_none_iff {rt : Runtime} (clazz : Word) {n : ℕ} :
    rt.takeObject clazz n = none ↔ rt.Exhausted n := by
  rw [Runtime.Exhausted, ← takeFirstFit_eq_none_iff, Runtime.takeObject]
  cases takeFirstFit rt.mem n rt.freeList with
  | none => simp
  | some r => simp

/-- What a collection leaves free. -/
theorem Collected.exhausted_iff {now : Word} {vs : List Value} {roots : Roots} {rt rt' : Runtime}
    {blocks blocks' : List ℕ} (h : Collected now vs rt rt' blocks blocks')
    (hvs : roots.values = some vs) (hsep : rt.mem.NoFreeNeighbours blocks) {n : ℕ} (hn : 0 < n) :
    rt'.Exhausted n ↔ NoRoom rt blocks roots now n := by
  constructor
  · intro hfull p hp hend
    by_contra hnone
    -- every block that the stretch meets is free
    have hmeets : ∀ x ∈ blocks', x < p + n → p < x + rt'.mem.sizes x →
        (rt'.mem x).isFree = true := by
      intro x hx hlt hgt
      by_contra hused
      have halloc : x ∈ rt'.mem.allocatedBlocks blocks' :=
        Mem.mem_allocatedBlocks.mpr ⟨hx, by simpa using hused⟩
      obtain ⟨hold, hkept⟩ := (h.mem_allocated_iff hvs).mp halloc
      have hsize : rt'.mem.sizes x = (rt.mem x).size := (h.unchanged halloc).2.1
      exact hnone ⟨x, hold, hkept, hlt, hsize ▸ hgt⟩
    have htiles := h.arena.tiles
    rw [h.same.start, h.same.arenaSize] at htiles
    obtain ⟨x, hx, hfree, hle, hcover⟩ :=
      htiles.exists_covering (h.separated hsep) hn hp hend hmeets
    have hmem : x ∈ rt'.freeList :=
      h.arena.freeList.symm.subset (Mem.mem_freeBlocks.mpr ⟨hx, hfree⟩)
    have hsmall : rt'.mem.sizes x < n := hfull x hmem
    omega
  · intro hroom o ho
    by_contra hlarge
    obtain ⟨hblock, hfree⟩ := Mem.mem_freeBlocks.mp (h.arena.freeList.subset ho)
    have hlarge' : n ≤ rt'.mem.sizes o := Nat.not_lt.mp hlarge
    have hbounds := h.arena.tiles.mem_bounds hblock
    rw [h.same.start, h.same.arenaSize] at hbounds
    obtain ⟨b, hold, hkept, hlt, hgt⟩ := hroom o hbounds.1 (by omega)
    have halloc : b ∈ rt'.mem.allocatedBlocks blocks' := (h.mem_allocated_iff hvs).mpr ⟨hold, hkept⟩
    obtain ⟨hb, hused⟩ := Mem.mem_allocatedBlocks.mp halloc
    have hne : b ≠ o := fun heq => by
      rw [heq, hfree] at hused
      cases hused
    have hsize : rt'.mem.sizes b = (rt.mem b).size := (h.unchanged halloc).2.1
    -- the two blocks would overlap
    have hdisjoint := h.arena.tiles.disjoint hb hblock hne
    omega

/-- **Exhaustion.** If `allocateObject` exits then a collection would not have made room either: this
    holds if and only if three quarters of the arena are in use, so that the collection has been made,
    or a free block is large enough, so that it does not exit, or every stretch of the arena of the
    requested size meets an object that is pinned or reachable. -/
theorem exits_exhausted_iff {rt rt' : Runtime} {blocks : List ℕ} (h : ArenaInv rt blocks)
    (henabled : rt.gcEnabled = true) {fuel : ℕ} {roots : Roots} {now : Word} (clazz : Word)
    (fieldCount extraValues : ℕ) (hgc : gc fuel roots now true rt = some rt') :
    (rt.Exits fuel roots now clazz fieldCount extraValues →
        rt'.Exhausted (objectSize (fieldCount + extraValues))) ↔
      rt.arenaTotal / 4 * 3 ≤ rt.currentBytes ∨
        (∃ o ∈ rt.freeList, objectSize (fieldCount + extraValues) ≤ (rt.mem o).size) ∨
        NoRoom rt blocks roots now (objectSize (fieldCount + extraValues)) := by
  obtain ⟨vs, blocks', hvs, hcol⟩ := gc_forced h.toArena henabled (Bool.true_or _) hgc
  rw [← hcol.exhausted_iff hvs h.separated (objectSize_pos _)]
  have hneeds : rt.needsGc = true ↔ rt.arenaTotal / 4 * 3 ≤ rt.currentBytes := by
    simp [Runtime.needsGc, henabled]
  have hfits : (∃ o ∈ rt.freeList, objectSize (fieldCount + extraValues) ≤ (rt.mem o).size) ↔
      ¬rt.Exhausted (objectSize (fieldCount + extraValues)) := by
    simp [Runtime.Exhausted]
  rw [← hneeds, hfits]
  by_cases hfull : rt.needsGc = true
  · -- the space check is the collection
    refine iff_of_true ?_ (.inl hfull)
    rintro ⟨rt₁, hcheck, htake⟩
    rw [Runtime.checkSpace, if_pos hfull, hgc] at hcheck
    obtain rfl := Option.some.inj hcheck
    exact (takeObject_eq_none_iff clazz).mp htake
  · have hexits : rt.Exits fuel roots now clazz fieldCount extraValues ↔
        rt.Exhausted (objectSize (fieldCount + extraValues)) := by
      rw [Runtime.Exits, Runtime.checkSpace, if_neg hfull, ← takeObject_eq_none_iff clazz]
      constructor
      · rintro ⟨rt₁, hcheck, htake⟩
        obtain rfl := Option.some.inj hcheck
        exact htake
      · exact fun htake => ⟨rt, rfl, htake⟩
    rw [hexits]
    tauto

/-! ## A heap that is half full of garbage -/

/-- A collection without roots returns. -/
theorem gc_emptyRoots {rt : Runtime} {blocks : List ℕ} (h : Arena rt blocks)
    (henabled : rt.gcEnabled = true) (now : Word) :
    ∃ rt' blocks', gc 0 emptyRoots now true rt = some rt' ∧
      Collected now [] rt rt' blocks blocks' := by
  have hvs : emptyRoots.values = some [] := rfl
  have hmarked : gcMarkValues rt 0 now [] rt.mem = some rt.mem := rfl
  exact gc_of_marked h henabled (Bool.true_or _) hvs hmarked

theorem exits_exhausted_iff_init :
    ∃ rt', gc 0 emptyRoots 1 true (Runtime.init 4096) = some rt' ∧
      ((Runtime.init 4096).Exits 0 emptyRoots 1 2 1 600000 →
        rt'.Exhausted (objectSize (1 + 600000))) := by
  have hinv := arenaInv_init (by decide : 0 < 4096)
  obtain ⟨rt', -, hgc, -⟩ := gc_emptyRoots hinv.toArena rfl 1
  refine ⟨rt', hgc, (exits_exhausted_iff hinv rfl 2 1 600000 hgc).mpr (.inr (.inl ?_))⟩
  exact ⟨4096, List.mem_singleton_self _, by decide⟩

/-- The request of the data of an array of 600000 elements: 9600040 bytes. -/
def halfHeapRequest : Option (Runtime × ℕ) :=
  allocateObject 0 emptyRoots 1 2 arrayDataFieldCount 600000 (Runtime.init 4096)

/-- The arena behind that request. -/
def halfHeap : Runtime := (halfHeapRequest.map Prod.fst).getD (Runtime.init 4096)

/-- With the array garbage, `allocateObject` exits instead of making room for another one. -/
theorem exits_not_exhausted :
    ArenaRun halfHeap ∧ halfHeap.Exits 0 emptyRoots 2 2 arrayDataFieldCount 600000 ∧
      ∃ rt', gc 0 emptyRoots 2 true halfHeap = some rt' ∧
        ¬rt'.Exhausted (objectSize (arrayDataFieldCount + 600000)) := by
  obtain ⟨⟨rt, obj⟩, hrt⟩ := Option.isSome_iff_exists.mp
    (show halfHeapRequest.isSome by decide +kernel)
  have hhalf : halfHeap = rt := by rw [halfHeap, hrt]; rfl
  have hfacts : halfHeapRequest.map (fun p =>
      (p.1.needsGc, p.1.gcEnabled, p.1.arenaSize, (p.1.mem p.2).gcMark)) =
        some (false, true, 16777216, 0) := by decide +kernel
  have hsizes : halfHeapRequest.map (fun p => p.1.freeList.map (fun o => (p.1.mem o).size)) =
      some [7177176] := by decide +kernel
  rw [hrt] at hfacts hsizes
  simp only [Option.map_some, Option.some.injEq, Prod.mk.injEq] at hfacts hsizes
  obtain ⟨hneeds, henabled, hsize, hmark⟩ := hfacts
  have hinit := arenaInv_init (by decide : 0 < 4096)
  obtain ⟨blocks, hinv, halloc⟩ := allocateObject_spec hinit (by decide) hrt
  have hrun : ArenaRun rt := ArenaRun.allocate (ArenaRun.init (by decide : 0 < 4096)) (by decide) hrt
  -- the array is the only object, and nothing keeps it
  have hroom : ¬NoRoom rt blocks emptyRoots 2 (objectSize (arrayDataFieldCount + 600000)) := by
    intro hroom
    have hend : rt.start + objectSize (arrayDataFieldCount + 600000) ≤ rt.start + rt.arenaSize := by
      rw [hsize]
      exact Nat.add_le_add_left (by decide) _
    obtain ⟨b, hb, hkept, -, -⟩ := hroom rt.start (Nat.le_refl _) hend
    have hobj : b = obj := by
      by_contra hne
      have hold := (halloc.others b hb hne).1
      simp [Mem.allocatedBlocks, Runtime.init, Object.isFree, Object.zeroed] at hold
    rw [hobj] at hkept
    rcases hkept with (hx | ⟨vs, hvs, v, hv, -⟩) | hnow
    · exact absurd (hmark.symm.trans hx) (by decide)
    · obtain rfl := Option.some.inj hvs
      cases hv
    · exact absurd (hmark.symm.trans hnow) (by decide)
  rw [hhalf]
  refine ⟨hrun, ⟨rt, ?_, ?_⟩, ?_⟩
  · rw [Runtime.checkSpace, if_neg (by simp [hneeds])]
  · rw [takeObject_eq_none_iff]
    intro o ho
    have hsmall : (rt.mem o).size = 7177176 := by
      have hmem := List.mem_map_of_mem (f := fun o => (rt.mem o).size) ho
      rw [hsizes] at hmem
      exact List.mem_singleton.mp hmem
    rw [hsmall]
    decide
  · obtain ⟨rt', blocks', hgc, hcol⟩ := gc_emptyRoots hinv.toArena henabled 2
    refine ⟨rt', hgc, fun hexhausted => hroom ?_⟩
    have hvs : emptyRoots.values = some [] := rfl
    exact (hcol.exhausted_iff hvs hinv.separated (objectSize_pos _)).mp hexhausted

end B0rk
