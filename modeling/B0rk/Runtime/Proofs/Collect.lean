import B0rk.Runtime.Proofs.Arena
import B0rk.Runtime.Proofs.Mark

set_option autoImplicit false

/-! # What a collection frees

Marking (`gcMarkValues_eq`) and sweeping (`sweepAndCoalesce_spec`) put together: a collection that
runs keeps the objects that are reachable from the roots or pinned, and frees the others. -/

namespace B0rk

open Tiling

/-! ## The roots -/

/-- All values that a collection starts from, in the order in which it does; `none` when the scan of
    the static fields leaves `m_staticValues`. -/
def Roots.values (roots : Roots) : Option (List Value) :=
  (staticRoots roots.classes).map (· ++ contextRoots roots)

/-- The static fields, the value stacks and the frame locals. -/
def Roots.ownValues (roots : Roots) : List Value :=
  roots.classes.flatMap Class.staticValues ++ contextRoots roots

/-- No class inherits static fields, so the static-field scan stays in range. -/
def Roots.OwnStatics (roots : Roots) : Prop :=
  ∀ c ∈ roots.classes, c.staticFieldStartId = 0 ∧ c.staticFieldCount = c.staticValues.length

theorem mapM_id_map_some {α : Type} (l : List α) : (l.map some).mapM id = some l := by
  induction l with
  | nil => rfl
  | cons x l ih => simp [ih]

theorem Class.getStaticField_range {c : Class} (h0 : c.staticFieldStartId = 0)
    (hn : c.staticFieldCount = c.staticValues.length) :
    (List.range c.staticFieldCount).map c.getStaticField = c.staticValues.map some := by
  refine List.ext_getElem (by simp [hn]) (fun i h1 h2 => ?_)
  simp only [List.length_map, List.length_range] at h1
  simp [Class.getStaticField, h0, List.getElem?_eq_getElem (hn ▸ h1)]

theorem Roots.OwnStatics.values {roots : Roots} (h : roots.OwnStatics) :
    roots.values = some roots.ownValues := by
  have hmap : roots.classes.flatMap (fun c => (List.range c.staticFieldCount).map c.getStaticField) =
      (roots.classes.flatMap Class.staticValues).map some := by
    rw [List.map_flatMap]
    exact List.flatMap_congr (fun c hc => Class.getStaticField_range (h c hc).1 (h c hc).2)
  rw [Roots.values, staticRoots, hmap, mapM_id_map_some]
  rfl

/-- Every object that a collection would mark is an allocated block. -/
def ValidRoots (rt : Runtime) (blocks : List ℕ) (vs : List Value) : Prop :=
  ∀ b ∈ reachableFrom rt rt.mem vs, b ∈ rt.mem.allocatedBlocks blocks

/-! ## Marking and the arena -/

section
variable {rt : Runtime} {mem : Mem} {blocks : List ℕ}

theorem SameShape.isFree {mem mem' : Mem} (h : SameShape mem mem') (a : ℕ) :
    (mem' a).isFree = (mem a).isFree := by
  simp only [Object.isFree, (h a).1]

theorem SameShape.sizes {mem mem' : Mem} (h : SameShape mem mem') : mem'.sizes = mem.sizes := by
  funext a
  exact (h a).2.1

theorem Arena.sameShape (h : Arena rt blocks) (hs : SameShape rt.mem mem) :
    Arena { rt with mem := mem } blocks where
  start_pos := h.start_pos
  tiles := by rw [hs.sizes]; exact h.tiles
  header := by rw [hs.sizes]; exact h.header
  freeList := by rw [Mem.freeBlocks_congr (fun b _ => hs.isFree b)]; exact h.freeList

theorem gcMarkValues_append {fuel : ℕ} {mark : Word} {vs ws : List Value} :
    gcMarkValues rt fuel mark (vs ++ ws) mem =
      (gcMarkValues rt fuel mark vs mem).bind (gcMarkValues rt fuel mark ws) :=
  List.foldlM_append

end

/-! ## The collection as a whole -/

/-- What a collection at `now` from the roots `vs` makes of `rt`. -/
structure Collected (now : Word) (vs : List Value) (rt rt' : Runtime) (blocks blocks' : List ℕ) :
    Prop where
  same : SameArena rt rt'
  arena : Arena rt' blocks'
  counted : Counted rt' blocks'
  separated : rt.mem.NoFreeNeighbours blocks → rt'.mem.NoFreeNeighbours blocks'
  coalesced : Coalesced ((markSet now (reachableFrom rt rt.mem vs) rt.mem).swept now blocks) rt'.mem
    blocks blocks'

/-- When the marking returns, the collection returns. -/
theorem gc_of_marked {rt : Runtime} {blocks : List ℕ} (h : Arena rt blocks)
    (henabled : rt.gcEnabled = true) {fuel : ℕ} {roots : Roots} {now : Word} {force : Bool}
    (hforce : (force || decide (rt.gcLastAlloc < rt.newObjects)) = true) {vs : List Value}
    (hvs : roots.values = some vs) {mem : Mem}
    (hmark : gcMarkValues rt fuel now vs rt.mem = some mem) :
    ∃ rt' blocks', gc fuel roots now force rt = some rt' ∧ Collected now vs rt rt' blocks blocks' := by
  obtain ⟨statics, hstatics, rfl⟩ := Option.map_eq_some_iff.1 hvs
  have hmem := gcMarkValues_eq hmark
  rw [gcMarkValues_append] at hmark
  obtain ⟨mem₁, hmark1, hmark2⟩ := Option.bind_eq_some_iff.1 hmark
  have hshape : SameShape rt.mem mem := by
    rw [hmem]
    exact markSet_sameShape now _ rt.mem
  obtain ⟨rt₂, freed, blocks', hsweep, hsame, harena, hcount, hcoal, hsep⟩ :=
    sweepAndCoalesce_spec (h.sameShape hshape) now
  refine ⟨{ rt₂ with gcLastAlloc := rt₂.newObjects }, blocks', ?_,
    ⟨hsame.start, hsame.arenaSize, hsame.newObjects, hsame.arenaTotal, hsame.gcEnabled⟩,
    ⟨harena.start_pos, harena.tiles, harena.header, harena.freeList⟩,
    ⟨hcount.objects, hcount.bytes⟩, fun hs => hsep ?_, hmem ▸ hcoal⟩
  · unfold gc gcArena
    have harena : ({ rt with mem := mem₁ } : Runtime).arenaRef? = rt.arenaRef? :=
      arenaRef?_congr rfl rfl
    have hmark2' : gcMarkValues { rt with mem := mem₁ } fuel now (contextRoots roots) mem₁ =
        some mem := (gcMarkValues_congr harena ..).trans hmark2
    have hne : ¬rt.gcEnabled = false := by simp [henabled]
    rw [if_neg hne, if_pos hforce]
    simp only [hstatics, hmark1, hmark2', hsweep, Option.bind_eq_bind, Option.bind_some]
  · exact Mem.noFreeNeighbours_congr (fun b _ => hshape.isFree b) hs

/-- A collection that is not left early has marked, swept and coalesced when it returns. -/
theorem gc_forced {rt rt' : Runtime} {blocks : List ℕ} (h : Arena rt blocks)
    (henabled : rt.gcEnabled = true) {fuel : ℕ} {roots : Roots} {now : Word} {force : Bool}
    (hforce : (force || decide (rt.gcLastAlloc < rt.newObjects)) = true)
    (hgc : gc fuel roots now force rt = some rt') :
    ∃ vs blocks', roots.values = some vs ∧ Collected now vs rt rt' blocks blocks' := by
  have hgc' := hgc
  have hne : ¬rt.gcEnabled = false := by simp [henabled]
  unfold gc gcArena at hgc'
  rw [if_neg hne, if_pos hforce] at hgc'
  simp only [Option.bind_eq_bind, Option.bind_eq_some_iff] at hgc'
  obtain ⟨statics, hstatics, mem₁, hmark1, _, ⟨mem₂, hmark2, _⟩, _⟩ := hgc'
  have hvs : roots.values = some (statics ++ contextRoots roots) := by
    simp [Roots.values, hstatics]
  have hmark : gcMarkValues rt fuel now (statics ++ contextRoots roots) rt.mem = some mem₂ := by
    have harena : ({ rt with mem := mem₁ } : Runtime).arenaRef? = rt.arenaRef? :=
      arenaRef?_congr rfl rfl
    rw [gcMarkValues_append, hmark1]
    exact (gcMarkValues_congr harena ..).symm.trans hmark2
  obtain ⟨rt₁, blocks', hrt, hcol⟩ := gc_of_marked h henabled hforce hvs hmark
  rw [hgc] at hrt
  exact ⟨_, blocks', hvs, Option.some.inj hrt ▸ hcol⟩

/-- A collection that returns has done nothing, or has marked, swept and coalesced. -/
theorem gc_cases {rt rt' : Runtime} {blocks : List ℕ} (h : Arena rt blocks) {fuel : ℕ}
    {roots : Roots} {now : Word} {force : Bool} (hgc : gc fuel roots now force rt = some rt') :
    rt' = rt ∨ ∃ vs blocks', roots.values = some vs ∧ Collected now vs rt rt' blocks blocks' := by
  by_cases henabled : rt.gcEnabled = true
  · by_cases hforce : (force || decide (rt.gcLastAlloc < rt.newObjects)) = true
    · exact Or.inr (gc_forced h henabled hforce hgc)
    · left
      have hne : ¬rt.gcEnabled = false := by simp [henabled]
      unfold gc at hgc
      rw [if_neg hne, if_neg hforce] at hgc
      exact (Option.some.inj hgc).symm
  · left
    unfold gc at hgc
    rw [if_pos (by simpa using henabled)] at hgc
    exact (Option.some.inj hgc).symm

/-! ## Who survives -/

section
variable {now : Word} {vs : List Value} {rt rt' : Runtime} {blocks blocks' : List ℕ} {b : ℕ}

/-- The blocks that are allocated afterwards were allocated before and carry a current mark. -/
theorem Collected.mem_allocated (h : Collected now vs rt rt' blocks blocks') :
    b ∈ rt'.mem.allocatedBlocks blocks' ↔ b ∈ rt.mem.allocatedBlocks blocks ∧
      ((markSet now (reachableFrom rt rt.mem vs) rt.mem b).gcMark = now ∨
        (markSet now (reachableFrom rt rt.mem vs) rt.mem b).gcMark = gcExternal) := by
  have hshape := markSet_sameShape now (reachableFrom rt rt.mem vs) rt.mem
  rw [h.coalesced.allocated, Mem.allocatedBlocks, Mem.filter_allocated_swept, List.mem_filter,
    Mem.mem_allocatedBlocks, Object.survives, hshape.isFree b]
  simp only [Bool.and_eq_true, Bool.not_eq_true', Bool.or_eq_true, decide_eq_true_eq]
  exact and_assoc.symm

/-- A surviving object is what it was, its mark apart. -/
theorem Collected.unchanged (h : Collected now vs rt rt' blocks blocks')
    (hb : b ∈ rt'.mem.allocatedBlocks blocks') :
    (rt'.mem b).clazz = (rt.mem b).clazz ∧ (rt'.mem b).size = (rt.mem b).size ∧
      (rt'.mem b).values = (rt.mem b).values := by
  rw [h.coalesced.allocated, Mem.mem_allocatedBlocks] at hb
  have hkept := h.coalesced.kept b hb.2
  have hgarbage : (markSet now (reachableFrom rt rt.mem vs) rt.mem b).isGarbage now = false := by
    have := hb.2
    rw [Mem.isFree_swept hb.1, Bool.or_eq_false_iff] at this
    exact this.2
  rw [hkept, Mem.swept_of_kept hgarbage]
  exact markSet_sameShape now (reachableFrom rt rt.mem vs) rt.mem b

/-- Reachable objects survive. -/
theorem Collected.of_reachable (h : Collected now vs rt rt' blocks blocks')
    (hb : b ∈ rt.mem.allocatedBlocks blocks) (hreach : b ∈ reachableFrom rt rt.mem vs) :
    b ∈ rt'.mem.allocatedBlocks blocks' := by
  refine h.mem_allocated.2 ⟨hb, ?_⟩
  rw [markSet_mem hreach]
  unfold Object.marked
  split
  · exact Or.inl rfl
  · next hx => exact Or.inr (not_not.1 hx)

/-- Pinned objects survive. -/
theorem Collected.of_external (h : Collected now vs rt rt' blocks blocks')
    (hb : b ∈ rt.mem.allocatedBlocks blocks) (hx : (rt.mem b).gcMark = gcExternal) :
    b ∈ rt'.mem.allocatedBlocks blocks' := by
  refine h.mem_allocated.2 ⟨hb, Or.inr ?_⟩
  unfold markSet Object.marked
  split <;> simp [hx]

theorem Collected.arenaRef? (h : Collected now vs rt rt' blocks blocks') (v : Value) :
    rt'.arenaRef? v = rt.arenaRef? v :=
  congrFun (arenaRef?_congr h.same.start h.same.arenaSize) v

/-- What is reachable afterwards was reachable before. -/
theorem Collected.reachableFrom_subset (h : Collected now vs rt rt' blocks blocks')
    (hvalid : ValidRoots rt blocks vs) (hb : b ∈ reachableFrom rt' rt'.mem vs) :
    b ∈ reachableFrom rt rt.mem vs := by
  obtain ⟨v, hv, a, ha, hpath⟩ := hb
  rw [h.arenaRef?] at ha
  suffices hsuf : b ∈ reachSet rt rt.mem a from ⟨v, hv, a, ha, hsuf⟩
  induction hpath with
  | refl => exact Relation.ReflTransGen.refl
  | @tail c d _ hcd ih =>
      -- a surviving object has the children it had
      have hc : c ∈ rt'.mem.allocatedBlocks blocks' :=
        h.of_reachable (hvalid c ⟨v, hv, a, ha, ih⟩) ⟨v, hv, a, ha, ih⟩
      obtain ⟨hclazz, hsize, hvalues⟩ := h.unchanged hc
      obtain ⟨hne, i, hi, href⟩ := hcd
      refine Relation.ReflTransGen.tail ih ⟨hclazz ▸ hne, i, ?_, ?_⟩
      · simpa only [Object.valueCount, hsize] using hi
      · rw [← hvalues, ← h.arenaRef?]
        exact href

/-- No reference that the program can still follow dangles after a collection. -/
theorem Collected.validRoots (h : Collected now vs rt rt' blocks blocks')
    (hvalid : ValidRoots rt blocks vs) : ValidRoots rt' blocks' vs := by
  intro b hb
  have hreach := h.reachableFrom_subset hvalid hb
  exact h.of_reachable (hvalid b hreach) hreach

end

/-- **A collection frees exactly the garbage.** When the marking returns, `gc(true)` returns, and of
    the objects that were allocated those are still allocated that are pinned or reachable from a
    static field, a value stack or the locals of a frame; nothing but the mark of a survivor is
    changed, and no reference that can still be followed dangles. -/
theorem gc_frees_exactly_garbage {rt : Runtime} {blocks : List ℕ} {roots : Roots} {now : Word}
    {fuel : ℕ} {mem : Mem} (harena : Arena rt blocks) (henabled : rt.gcEnabled = true)
    (hstatics : roots.OwnStatics) (hvalid : ValidRoots rt blocks roots.ownValues)
    (hfresh : ∀ b ∈ rt.mem.allocatedBlocks blocks, (rt.mem b).gcMark ≠ now)
    (hmark : gcMarkValues rt fuel now roots.ownValues rt.mem = some mem) :
    ∃ rt' blocks', gc fuel roots now true rt = some rt' ∧ Arena rt' blocks' ∧
      (∀ b ∈ rt.mem.allocatedBlocks blocks, b ∈ rt'.mem.allocatedBlocks blocks' ↔
        (rt.mem b).gcMark = gcExternal ∨ b ∈ reachableFrom rt rt.mem roots.ownValues) ∧
      (∀ b ∈ rt'.mem.allocatedBlocks blocks', b ∈ rt.mem.allocatedBlocks blocks ∧
        (rt'.mem b).clazz = (rt.mem b).clazz ∧ (rt'.mem b).size = (rt.mem b).size ∧
        (rt'.mem b).values = (rt.mem b).values) ∧
      ValidRoots rt' blocks' roots.ownValues := by
  obtain ⟨rt', blocks', hgc, hcol⟩ :=
    gc_of_marked harena henabled (Bool.true_or _) hstatics.values hmark
  refine ⟨rt', blocks', hgc, hcol.arena, fun b hb => ?_, fun b hb => ?_, hcol.validRoots hvalid⟩
  · rw [hcol.mem_allocated, markSet_gcMark (hfresh b hb), or_comm]
    exact and_iff_right hb
  · exact ⟨(hcol.mem_allocated.1 hb).1, hcol.unchanged hb⟩

/-- An object on the stack that refers to a second one, a third one that nothing refers to, and a
    free block. -/
def tinyHeap : Runtime where
  start := 1000
  arenaSize := 112
  mem := fun a =>
    if a = 1000 then ⟨some 1, 40, 0, fun _ => Value.object 1040⟩
    else if a = 1040 ∨ a = 1064 then ⟨some 1, 24, 0, fun _ => Value.zero⟩
    else ⟨none, 24, 0, fun _ => Value.zero⟩
  freeList := [1088]
  newObjects := 3
  newBytes := 88
  currentObjects := 3
  currentBytes := 88
  collectedObjects := 0
  arenaTotal := 112
  gcEnabled := true
  gcLastAlloc := 0

def tinyRoots : Roots := ⟨[], [[Value.object 1000]], fun _ => []⟩

theorem gc_frees_exactly_garbage_tinyHeap :
    ∃ rt' blocks', gc 3 tinyRoots 7 true tinyHeap = some rt' ∧
      1040 ∈ rt'.mem.allocatedBlocks blocks' ∧ 1064 ∉ rt'.mem.allocatedBlocks blocks' := by
  have harena : Arena tinyHeap [1000, 1040, 1064, 1088] :=
    ⟨by decide, by simp [tinyHeap, Mem.sizes], by simp [tinyHeap, Mem.sizes, sizeofObject],
      by simp [tinyHeap, Mem.freeBlocks, Object.isFree]⟩
  have hown : tinyRoots.OwnStatics := by simp [Roots.OwnStatics, tinyRoots]
  have hvalues : tinyRoots.ownValues = [Value.object 1000] := rfl
  have hsub : reachableFrom tinyHeap tinyHeap.mem tinyRoots.ownValues ⊆ {1000, 1040} := by
    rw [hvalues]
    refine reachableFrom_subset ?_ ?_
    · simp [Value.object, tinyHeap, Runtime.arenaRef?, Runtime.isObjectValid]
    · rintro a (rfl | rfl) b ⟨_, i, hi, href⟩
      · right
        simpa [tinyHeap, Value.object, Runtime.arenaRef?, Runtime.isObjectValid, eq_comm] using href
      · simp [tinyHeap, Object.valueCount, sizeofObject, sizeofValue] at hi
  have hvalid : ValidRoots tinyHeap [1000, 1040, 1064, 1088] tinyRoots.ownValues := by
    intro b hb
    rcases hsub hb with rfl | rfl <;> simp [tinyHeap, Object.isFree]
  have hfresh : ∀ b ∈ tinyHeap.mem.allocatedBlocks [1000, 1040, 1064, 1088],
      (tinyHeap.mem b).gcMark ≠ 7 := by simp [tinyHeap, Object.isFree]
  obtain ⟨mem, hmem⟩ := Option.isSome_iff_exists.1
    (show (gcMarkValues tinyHeap 3 7 tinyRoots.ownValues tinyHeap.mem).isSome = true from rfl)
  obtain ⟨rt', blocks', hgc, _, hiff, _⟩ :=
    gc_frees_exactly_garbage harena rfl hown hvalid hfresh hmem
  have hlive : 1040 ∈ tinyHeap.mem.allocatedBlocks [1000, 1040, 1064, 1088] := by
    simp [tinyHeap, Object.isFree]
  have hdead : 1064 ∈ tinyHeap.mem.allocatedBlocks [1000, 1040, 1064, 1088] := by
    simp [tinyHeap, Object.isFree]
  refine ⟨rt', blocks', hgc, (hiff 1040 hlive).2 (Or.inr ?_), fun h => ?_⟩
  · refine ⟨Value.object 1000, by simp [hvalues], 1000, rfl,
      Relation.ReflTransGen.single ⟨by simp [tinyHeap], 0, ?_, rfl⟩⟩
    simp [tinyHeap, Object.valueCount, sizeofObject, sizeofValue]
  · rcases (hiff 1064 hdead).1 h with hx | hreach
    · simp [tinyHeap, gcExternal] at hx
    · rcases hsub hreach with h | h <;> simp at h

end B0rk
