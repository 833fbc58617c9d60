import B0rk.Runtime.Proofs.Allocate

set_option autoImplicit false

/-! # References of the objects that survive a collection

A collection keeps the pinned objects, but it marks from the roots only: what a pinned object refers to
survives if it is pinned itself or if something else leads to it. -/

namespace B0rk

/-- Every reference of an allocated object that points into the arena points at an allocated object. -/
def NoDangling (rt : Runtime) (blocks : List ℕ) : Prop :=
  ∀ a ∈ rt.mem.allocatedBlocks blocks, ∀ b, Child rt rt.mem a b →
    b ∈ rt.mem.allocatedBlocks blocks

/-- A collection at `now` keeps the object at `b`: it must, or the object carries the new mark
    already. -/
def Runtime.Kept (rt : Runtime) (roots : Roots) (now : Word) (b : ℕ) : Prop :=
  rt.Live roots b ∨ (rt.mem b).gcMark = now

/-- What the objects refer to that survive without being reachable is kept. -/
def PinnedClosed (rt : Runtime) (blocks : List ℕ) (roots : Roots) (now : Word) : Prop :=
  ∀ a ∈ rt.mem.allocatedBlocks blocks, (rt.mem a).gcMark = gcExternal ∨ (rt.mem a).gcMark = now →
    ∀ b, Child rt rt.mem a b → rt.Kept roots now b

theorem markSet_gcMark_iff (mark : Word) (s : Set ℕ) (mem : Mem) (a : ℕ) :
    (markSet mark s mem a).gcMark = mark ∨ (markSet mark s mem a).gcMark = gcExternal ↔
      a ∈ s ∨ (mem a).gcMark = mark ∨ (mem a).gcMark = gcExternal := by
  by_cases hs : a ∈ s
  · rw [markSet_mem hs, Object.marked]
    split
    · simp [hs]
    · next hx => simp [hs, not_not.mp hx]
  · rw [markSet_not_mem hs]
    simp [hs]

section

variable {now : Word} {vs : List Value} {roots : Roots} {rt rt' : Runtime}
  {blocks blocks' : List ℕ} {b : ℕ}

/-- Who survives. -/
theorem Collected.mem_allocated_iff (h : Collected now vs rt rt' blocks blocks')
    (hvs : roots.values = some vs) :
    b ∈ rt'.mem.allocatedBlocks blocks' ↔
      b ∈ rt.mem.allocatedBlocks blocks ∧ rt.Kept roots now b := by
  rw [h.mem_allocated, markSet_gcMark_iff]
  refine and_congr_right fun _ => ?_
  have hlive : rt.Live roots b ↔
      (rt.mem b).gcMark = gcExternal ∨ b ∈ reachableFrom rt rt.mem vs := by
    refine or_congr_right ⟨?_, fun hb => ⟨vs, hvs, hb⟩⟩
    rintro ⟨ws, hws, hb⟩
    obtain rfl := Option.some.inj (hvs.symm.trans hws)
    exact hb
  rw [Runtime.Kept, hlive]
  tauto

/-- A survivor has the references that it had. -/
theorem Collected.child_iff (h : Collected now vs rt rt' blocks blocks') {a : ℕ}
    (ha : a ∈ rt'.mem.allocatedBlocks blocks') :
    Child rt' rt'.mem a b ↔ Child rt rt.mem a b := by
  obtain ⟨hclazz, hsize, hvalues⟩ := h.unchanged ha
  simp only [Child, hclazz, hvalues, h.arenaRef?, Object.valueCount, hsize]

theorem reachableFrom_child {a : ℕ} (ha : a ∈ reachableFrom rt rt.mem vs)
    (hab : Child rt rt.mem a b) : b ∈ reachableFrom rt rt.mem vs := by
  obtain ⟨v, hv, c, hc, hpath⟩ := ha
  exact ⟨v, hv, c, hc, hpath.tail hab⟩

/-- Of the references after a collection, those of the reachable objects do not dangle. -/
theorem Collected.noDangling_iff (h : Collected now vs rt rt' blocks blocks')
    (hvs : roots.values = some vs) (hclosed : NoDangling rt blocks) :
    NoDangling rt' blocks' ↔ PinnedClosed rt blocks roots now := by
  constructor
  · intro hafter a ha hmark b hab
    have hkept : rt.Kept roots now a := hmark.imp (.inl ·) (·)
    have ha' : a ∈ rt'.mem.allocatedBlocks blocks' := (h.mem_allocated_iff hvs).mpr ⟨ha, hkept⟩
    have hb := hafter a ha' b ((h.child_iff ha').mpr hab)
    exact ((h.mem_allocated_iff hvs).mp hb).2
  · intro hpinned a ha' b hab'
    have hab := (h.child_iff ha').mp hab'
    obtain ⟨ha, hkept⟩ := (h.mem_allocated_iff hvs).mp ha'
    refine (h.mem_allocated_iff hvs).mpr ⟨hclosed a ha b hab, ?_⟩
    rcases hkept with (hx | ⟨ws, hws, hreach⟩) | hnow
    · exact hpinned a ha (.inl hx) b hab
    · exact .inl (.inr ⟨ws, hws, reachableFrom_child hreach hab⟩)
    · exact hpinned a ha (.inr hnow) b hab

end

/-- **Dangling references.** After `gc(true)` no reference dangles if and only if everything that the
    pinned objects refer to is pinned itself or reachable from the roots. -/
theorem gc_noDangling_iff {rt rt' : Runtime} {blocks : List ℕ} (h : Arena rt blocks)
    (hclosed : NoDangling rt blocks) {roots : Roots} {now : Word} {fuel : ℕ}
    (hgc : gc fuel roots now true rt = some rt') :
    ∃ blocks', Arena rt' blocks' ∧
      (NoDangling rt' blocks' ↔ rt.gcEnabled = false ∨ PinnedClosed rt blocks roots now) := by
  by_cases henabled : rt.gcEnabled = true
  · obtain ⟨vs, blocks', hvs, hcol⟩ := gc_forced h henabled (Bool.true_or _) hgc
    refine ⟨blocks', hcol.arena, (hcol.noDangling_iff hvs hclosed).trans ?_⟩
    simp [henabled]
  · have hdisabled : rt.gcEnabled = false := by simpa using henabled
    unfold gc at hgc
    rw [if_pos hdisabled] at hgc
    obtain rfl := Option.some.inj hgc
    exact ⟨blocks, h, iff_of_true hclosed (.inl hdisabled)⟩

/-- Two objects, the first of which refers to the second one. -/
def pairHeap (gcMark : Word) : Runtime where
  start := 1000
  arenaSize := 64
  mem := fun a =>
    if a = 1000 then ⟨some 1, 40, gcMark, fun _ => Value.object 1040⟩
    else ⟨some 1, 24, 0, fun _ => Value.zero⟩
  freeList := []
  newObjects := 2
  newBytes := 64
  currentObjects := 2
  currentBytes := 64
  collectedObjects := 0
  arenaTotal := 64
  gcEnabled := true
  gcLastAlloc := 0

theorem pairHeap_arena (gcMark : Word) : Arena (pairHeap gcMark) [1000, 1040] :=
  ⟨Nat.succ_pos 999, by simp [pairHeap, Mem.sizes], by simp [pairHeap, Mem.sizes, sizeofObject],
    by simp [pairHeap, Mem.freeBlocks, Object.isFree]⟩

theorem pairHeap_allocated (gcMark : Word) :
    (pairHeap gcMark).mem.allocatedBlocks [1000, 1040] = [1000, 1040] := by
  simp [pairHeap, Mem.allocatedBlocks, Object.isFree]

theorem pairHeap_child (gcMark : Word) :
    Child (pairHeap gcMark) (pairHeap gcMark).mem 1000 1040 := by
  refine ⟨by simp [pairHeap], 0, ?_, rfl⟩
  simp [pairHeap, Object.valueCount, sizeofObject, sizeofValue]

theorem pairHeap_noDangling (gcMark : Word) : NoDangling (pairHeap gcMark) [1000, 1040] := by
  intro a ha b hab
  obtain ⟨-, i, hi, href⟩ := hab
  rw [pairHeap_allocated] at ha ⊢
  rcases List.mem_cons.mp ha with rfl | ha
  · have hb : (1040 : ℕ) = b := by
      simpa [pairHeap, Value.object, Runtime.arenaRef?, Runtime.isObjectValid] using href
    simp [← hb]
  · obtain rfl := List.mem_singleton.mp ha
    simp [pairHeap, Object.valueCount, sizeofObject, sizeofValue] at hi

/-- The first object is pinned, and the second one is a root: both survive, and nothing dangles. -/
theorem gc_noDangling_iff_pairHeap :
    ∃ rt' blocks', gc 3 ⟨[], [[Value.object 1040]], fun _ => []⟩ 7 true (pairHeap gcExternal) =
        some rt' ∧ Arena rt' blocks' ∧ NoDangling rt' blocks' := by
  obtain ⟨rt', hgc⟩ : ∃ rt', gc 3 ⟨[], [[Value.object 1040]], fun _ => []⟩ 7 true
      (pairHeap gcExternal) = some rt' := Option.isSome_iff_exists.mp rfl
  obtain ⟨blocks', harena, hiff⟩ :=
    gc_noDangling_iff (pairHeap_arena gcExternal) (pairHeap_noDangling gcExternal) hgc
  refine ⟨rt', blocks', hgc, harena, hiff.mpr (.inr fun a ha _ b hab => .inl ?_)⟩
  have hb := pairHeap_noDangling gcExternal a ha b hab
  rw [pairHeap_allocated] at hb
  rcases List.mem_cons.mp hb with rfl | hb
  · exact .inl rfl
  · obtain rfl := List.mem_singleton.mp hb
    exact .inr ⟨[Value.object 1040], rfl, _, List.mem_singleton_self _, 1040, rfl, .refl⟩

/-- The second object is freed while the first one is pinned and refers to it. -/
theorem gc_leaves_dangling :
    Arena (pairHeap gcExternal) [1000, 1040] ∧ NoDangling (pairHeap gcExternal) [1000, 1040] ∧
      ∃ rt', gc 0 ⟨[], [], fun _ => []⟩ 7 true (pairHeap gcExternal) = some rt' ∧
        ∀ blocks', Arena rt' blocks' → ¬NoDangling rt' blocks' := by
  have harena := pairHeap_arena gcExternal
  have hclosed := pairHeap_noDangling gcExternal
  have hvs : Roots.values ⟨[], [], fun _ => []⟩ = some [] := rfl
  obtain ⟨rt', blocks', hgc, hcol⟩ := gc_of_marked harena rfl
    (rfl : (true || decide ((pairHeap gcExternal).gcLastAlloc <
      (pairHeap gcExternal).newObjects)) = true) hvs
    (rfl : gcMarkValues (pairHeap gcExternal) 0 7 [] (pairHeap gcExternal).mem =
      some (pairHeap gcExternal).mem)
  refine ⟨harena, hclosed, rt', hgc, fun blocks'' harena' hno => ?_⟩
  obtain rfl : blocks'' = blocks' := harena'.tiles.unique hcol.arena.tiles
  rw [hcol.noDangling_iff hvs hclosed] at hno
  have hkept := hno 1000 (by rw [pairHeap_allocated]; decide) (.inl rfl) 1040
    (pairHeap_child gcExternal)
  rcases hkept with (hx | ⟨ws, hws, v, hv, -⟩) | hnow
  · exact absurd hx (by decide)
  · obtain rfl := Option.some.inj (hws.symm.trans hvs)
    cases hv
  · exact absurd hnow (by decide)

end B0rk
