import B0rk.Runtime.Proofs.Coalesce
import Mathlib.Algebra.Order.BigOperators.Group.List

set_option autoImplicit false

/-! # The arena between two calls

`Arena` is what the walk over the blocks and the free list rely on; `ArenaInv` adds that free blocks
have been joined and that the counters are right. The sweep with the coalescing behind it keeps the
first and establishes the second, except that free blocks stay apart only if they were apart before
whenever nothing was freed: `sweepAndCoalesce_spec`. -/

namespace B0rk

open Tiling

/-- The blocks tile the arena, each has room for its header, and the free list holds the free ones,
    each once. -/
structure Arena (rt : Runtime) (blocks : List ℕ) : Prop where
  start_pos : 0 < rt.start
  tiles : Tiles rt.mem.sizes rt.start (rt.start + rt.arenaSize) blocks
  header : ∀ b ∈ blocks, sizeofObject ≤ rt.mem.sizes b
  freeList : rt.freeList.Perm (rt.mem.freeBlocks blocks)

/-- `m_currentObjects` and `m_currentBytes` count the allocated blocks. -/
structure Counted (rt : Runtime) (blocks : List ℕ) : Prop where
  objects : rt.currentObjects = (rt.mem.allocatedBlocks blocks).length
  bytes : rt.currentBytes = ((rt.mem.allocatedBlocks blocks).map rt.mem.sizes).sum

/-- The invariant of the arena. -/
structure ArenaInv (rt : Runtime) (blocks : List ℕ) : Prop extends Arena rt blocks where
  separated : rt.mem.NoFreeNeighbours blocks
  counted : Counted rt blocks

section
variable {mem : Mem} {blocks : List ℕ} {b : ℕ}

@[simp]
theorem Mem.mem_freeBlocks :
    b ∈ mem.freeBlocks blocks ↔ b ∈ blocks ∧ (mem b).isFree = true := List.mem_filter

@[simp]
theorem Mem.mem_allocatedBlocks :
    b ∈ mem.allocatedBlocks blocks ↔ b ∈ blocks ∧ (mem b).isFree = false := by
  simp [Mem.allocatedBlocks]

end

theorem Arena.nodup {rt : Runtime} {blocks : List ℕ} (h : Arena rt blocks) : blocks.Nodup :=
  h.tiles.nodup

/-- The invariant reads the blocks only: their class and size. -/
theorem Mem.freeBlocks_congr {mem mem' : Mem} {blocks : List ℕ}
    (h : ∀ b ∈ blocks, (mem' b).isFree = (mem b).isFree) :
    mem'.freeBlocks blocks = mem.freeBlocks blocks := List.filter_congr h

theorem Mem.allocatedBlocks_congr {mem mem' : Mem} {blocks : List ℕ}
    (h : ∀ b ∈ blocks, (mem' b).isFree = (mem b).isFree) :
    mem'.allocatedBlocks blocks = mem.allocatedBlocks blocks :=
  List.filter_congr (fun b hb => by rw [h b hb])

theorem Mem.noFreeNeighbours_congr {mem mem' : Mem} {blocks : List ℕ}
    (h : ∀ b ∈ blocks, (mem' b).isFree = (mem b).isFree)
    (hsep : mem.NoFreeNeighbours blocks) : mem'.NoFreeNeighbours blocks := by
  refine List.isChain_iff_forall_rel_of_append_cons_cons.2 ?_
  rintro x y l₁ l₂ rfl
  rw [h x (by simp), h y (by simp)]
  exact List.isChain_iff_forall_rel_of_append_cons_cons.1 hsep rfl

/-! ## The free list after the sweep -/

/-- Two increasing lists with the same members are equal; `sort` finds the one there is. -/
theorem sortFreeList_eq_of_le {l l' : List ℕ} (hperm : l.Perm l') (hsorted : l'.Pairwise (· ≤ ·)) :
    sortFreeList l = l' := by
  have htrans : ∀ a b c : ℕ, decide (a ≤ b) = true → decide (b ≤ c) = true →
      decide (a ≤ c) = true := fun a b c => by simpa using le_trans
  have htotal : ∀ a b : ℕ, (decide (a ≤ b) || decide (b ≤ a)) = true :=
    fun a b => by simpa using le_total a b
  have hle : (sortFreeList l).Pairwise (· ≤ ·) :=
    (List.pairwise_mergeSort htrans htotal l).imp (by simp)
  have hanti : ∀ a b : ℕ, a ∈ sortFreeList l → b ∈ l' → a ≤ b → b ≤ a → a = b :=
    fun a b _ _ h1 h2 => le_antisymm h1 h2
  refine List.Perm.eq_of_pairwise hanti hle hsorted ?_
  exact (List.mergeSort_perm l _).trans hperm

theorem sortFreeList_eq {l l' : List ℕ} (hperm : l.Perm l') (hsorted : l'.Pairwise (· < ·)) :
    sortFreeList l = l' :=
  sortFreeList_eq_of_le hperm (hsorted.imp le_of_lt)

/-- The garbage joins the free list. -/
theorem Arena.swept {rt : Runtime} {blocks : List ℕ} (h : Arena rt blocks) (mark : Word) :
    Arena (rt.swept mark blocks) blocks where
  start_pos := h.start_pos
  tiles := by
    simp only [Runtime.swept, Mem.sizes_swept]
    exact h.tiles
  header := by
    simp only [Runtime.swept, Mem.sizes_swept]
    exact h.header
  freeList := by
    have hnodup := h.nodup
    have hleft : (rt.mem.freeBlocks blocks ++
        blocks.filter (fun b => (rt.mem b).isGarbage mark)).Nodup := by
      refine (hnodup.filter _).append (hnodup.filter _) ?_
      intro b hb hb'
      have h1 := (List.mem_filter.1 hb).2
      have h2 := (List.mem_filter.1 hb').2
      simp [Object.isGarbage, h1] at h2
    refine (h.freeList.append_right _).trans ?_
    refine (List.perm_ext_iff_of_nodup hleft (hnodup.filter _)).2 (fun b => ?_)
    simp only [Runtime.swept, List.mem_append, Mem.mem_freeBlocks, List.mem_filter]
    constructor
    · rintro (⟨hb, h1⟩ | ⟨hb, h1⟩) <;> simp [hb, Mem.isFree_swept hb, h1]
    · rintro ⟨hb, h1⟩
      rw [Mem.isFree_swept hb, Bool.or_eq_true] at h1
      exact h1.imp (⟨hb, ·⟩) (⟨hb, ·⟩)

/-- The survivors that the sweep counts are the blocks that are allocated afterwards. -/
theorem Counted.swept (rt : Runtime) (mark : Word) (blocks : List ℕ) :
    Counted (rt.resetCounters.swept mark blocks) blocks := by
  have hall : (rt.mem.swept mark blocks).allocatedBlocks blocks =
      blocks.filter (fun b => (rt.mem b).survives mark) := Mem.filter_allocated_swept
  constructor <;> simp [Runtime.swept, Runtime.resetCounters, hall]

/-- Nothing is freed exactly if nothing is garbage: blocks are not empty. -/
theorem Arena.garbageBytes_eq_zero {rt : Runtime} {blocks : List ℕ} (h : Arena rt blocks)
    {mark : Word} (hzero : rt.mem.garbageBytes mark blocks = 0) :
    rt.mem.swept mark blocks = rt.mem := by
  funext b
  by_cases hg : b ∈ blocks ∧ (rt.mem b).isGarbage mark = true
  · exfalso
    have hb : rt.mem.sizes b ∈ (blocks.filter (fun b => (rt.mem b).isGarbage mark)).map
        rt.mem.sizes := List.mem_map_of_mem (List.mem_filter.2 hg)
    have hpos := (h.tiles.mem_bounds hg.1).2.1
    have hle : rt.mem.sizes b ≤ rt.mem.garbageBytes mark blocks := List.le_sum_of_mem hb
    omega
  · simp [Mem.swept, hg]

/-! ## Sweeping and coalescing -/

/-- What the sweep and the coalescing leave alone. -/
structure SameArena (rt rt' : Runtime) : Prop where
  start : rt'.start = rt.start
  arenaSize : rt'.arenaSize = rt.arenaSize
  newObjects : rt'.newObjects = rt.newObjects
  arenaTotal : rt'.arenaTotal = rt.arenaTotal
  gcEnabled : rt'.gcEnabled = rt.gcEnabled

theorem Coalesced.sizes_allocated {mem mem' : Mem} {blocks blocks' : List ℕ}
    (h : Coalesced mem mem' blocks blocks') :
    (mem'.allocatedBlocks blocks').map mem'.sizes =
      (mem.allocatedBlocks blocks).map mem.sizes := by
  rw [h.allocated]
  refine List.map_congr_left (fun b hb => ?_)
  rw [Mem.sizes, Mem.sizes, h.kept b (Mem.mem_allocatedBlocks.1 hb).2]

theorem coalesceFreeList_spec {rt : Runtime} {blocks : List ℕ} (h : Arena rt blocks)
    (hcount : Counted rt blocks) :
    ∃ rt' blocks', rt.coalesceFreeList = some rt' ∧ SameArena rt rt' ∧ ArenaInv rt' blocks' ∧
      Coalesced rt.mem rt'.mem blocks blocks' := by
  have hsorted : sortFreeList rt.freeList = rt.mem.freeBlocks blocks :=
    sortFreeList_eq h.freeList (h.tiles.strictSorted.filter _)
  obtain ⟨mem', blocks', hco, htiles, hcoal, hsep⟩ := coalesce_spec h.start_pos
    ((rt.mem.freeBlocks blocks).length + 1) rt.mem blocks h.tiles (Nat.lt_succ_self _)
  refine ⟨{ rt with mem := mem', freeList := mem'.freeBlocks blocks' }, blocks', ?_,
    ⟨rfl, rfl, rfl, rfl, rfl⟩,
    ⟨⟨h.start_pos, htiles, fun b hb => ?_, List.Perm.refl _⟩, hsep, ?_, ?_⟩, hcoal⟩
  · unfold Runtime.coalesceFreeList
    simp only [hsorted, hco]
  · exact le_trans (h.header b (hcoal.subset b hb)) (hcoal.grows b)
  · simpa only [hcoal.allocated] using hcount.objects
  · simpa only [hcoal.sizes_allocated] using hcount.bytes

/-- There are at least as many bytes in the arena as blocks. -/
theorem Arena.length_le {rt : Runtime} {blocks : List ℕ} (h : Arena rt blocks) :
    blocks.length ≤ rt.arenaSize := by
  have hsum := h.tiles.sum_size
  have hle : (blocks.map rt.mem.sizes).length ≤ (blocks.map rt.mem.sizes).sum := by
    refine List.length_le_sum_of_one_le _ (fun n hn => ?_)
    obtain ⟨b, hb, rfl⟩ := List.mem_map.1 hn
    exact (h.tiles.mem_bounds hb).2.1
  rw [List.length_map] at hle
  omega

/-- **Sweeping and coalescing keep the arena in order.** -/
theorem sweepAndCoalesce_spec {rt : Runtime} {blocks : List ℕ} (h : Arena rt blocks)
    (mark : Word) :
    ∃ rt' freed blocks', sweepAndCoalesce mark rt = some (rt', freed) ∧ SameArena rt rt' ∧
      Arena rt' blocks' ∧ Counted rt' blocks' ∧
      Coalesced (rt.mem.swept mark blocks) rt'.mem blocks blocks' ∧
      (rt.mem.NoFreeNeighbours blocks → rt'.mem.NoFreeNeighbours blocks') := by
  have hreset : Arena rt.resetCounters blocks :=
    ⟨h.start_pos, h.tiles, h.header, h.freeList⟩
  have hsweep := sweep_eq mark blocks rt.arenaSize rt.start rt.resetCounters 0 h.length_le h.tiles
  have hswept := hreset.swept mark
  have hcount := Counted.swept rt mark blocks
  unfold sweepAndCoalesce
  simp only [hsweep, Option.bind_eq_bind, Option.bind_some, Nat.zero_add]
  by_cases hfreed : 0 < rt.resetCounters.mem.garbageBytes mark blocks
  · obtain ⟨rt', blocks', hco, hsame, hinv, hcoal⟩ := coalesceFreeList_spec hswept hcount
    rw [if_pos hfreed, hco]
    exact ⟨rt', _, blocks', rfl,
      ⟨hsame.start, hsame.arenaSize, hsame.newObjects, hsame.arenaTotal, hsame.gcEnabled⟩,
      hinv.toArena, hinv.counted, hcoal, fun _ => hinv.separated⟩
  · have hsame : rt.mem.swept mark blocks = rt.mem :=
      h.garbageBytes_eq_zero (Nat.eq_zero_of_not_pos hfreed)
    rw [if_neg hfreed]
    refine ⟨_, _, blocks, rfl, ⟨rfl, rfl, rfl, rfl, rfl⟩, hswept, hcount,
      Coalesced.refl _ _, fun hsep => ?_⟩
    simpa only [Runtime.swept, Runtime.resetCounters, hsame] using hsep

end B0rk
