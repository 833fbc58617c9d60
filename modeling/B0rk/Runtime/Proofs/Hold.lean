import B0rk.Runtime.Operations
import B0rk.Runtime.Proofs.Allocate

set_option autoImplicit false

/-! # Objects that an operation holds

Between two allocations of an operation its objects are in C++ variables, where the collector does not
look. `allocateObject_effect` says what an allocation does to every object; whether an operation ends
with all of its objects follows by following its allocations. -/

namespace B0rk

open Tiling

/-! ## What the operations promise -/

/-- `a` and `b` are different objects whose blocks do not overlap. -/
def Runtime.Apart (rt : Runtime) (a b : ℕ) : Prop :=
  a ≠ b ∧ (a + rt.mem.sizes a ≤ b ∨ b + rt.mem.sizes b ≤ a)

/-- The object is the one of this class that it was, and not on the free list. -/
def Runtime.StillAllocated (rt : Runtime) (obj : ℕ × Word) : Prop :=
  (rt.mem obj.1).clazz = some obj.2 ∧ obj.1 ∉ rt.freeList

/-- All objects of an operation are still allocated, and disjoint. -/
def Runtime.AllAllocated (rt : Runtime) (held : List (ℕ × Word)) : Prop :=
  (∀ obj ∈ held, rt.StillAllocated obj) ∧ held.Pairwise (fun x y => rt.Apart x.1 y.1)

/-- The next allocation does not collect `b`: it does not collect at all, or `b` is live. -/
def Runtime.Keeps (rt : Runtime) (roots : Roots) (b : ℕ) : Prop :=
  rt.needsGc = true → rt.Live roots b

/-! ## One allocation -/

/-- What becomes of the blocks of `rt` in a step that collects objects, as `Keeps` says. -/
structure Cleared (rt rt' : Runtime) (roots : Roots) (now : Word) (blocks blocks' : List ℕ) :
    Prop where
  arenaRef? : rt'.arenaRef? = rt.arenaRef?
  kept : ∀ b ∈ rt.mem.allocatedBlocks blocks, rt.Keeps roots b →
    b ∈ rt'.mem.allocatedBlocks blocks' ∧ Unchanged rt rt' b ∧
      ((rt'.mem b).gcMark = (rt.mem b).gcMark ∨ (rt'.mem b).gcMark = now)
  lost : ∀ b ∈ rt.mem.allocatedBlocks blocks, ¬rt.Keeps roots b → (rt.mem b).gcMark ≠ now →
    (rt'.mem b).isFree = true
  free : ∀ b, (rt.mem b).isFree = true → (rt'.mem b).isFree = true

theorem Cleared.refl {rt : Runtime} {roots : Roots} {now : Word} {blocks : List ℕ}
    (h : rt.needsGc = false) : Cleared rt rt roots now blocks blocks where
  arenaRef? := rfl
  kept _ hb _ := ⟨hb, ⟨rfl, rfl, rfl⟩, .inl rfl⟩
  lost _ _ hnot := absurd (fun hneeds => absurd (h ▸ hneeds) nofun) hnot
  free _ hb := hb

theorem Object.marked_gcMark (o : Object) (mark : Word) :
    (o.marked mark).gcMark = o.gcMark ∨ (o.marked mark).gcMark = mark := by
  unfold Object.marked
  split
  · exact .inr rfl
  · exact .inl rfl

theorem markSet_gcMark_cases (mark : Word) (s : Set ℕ) (mem : Mem) (a : ℕ) :
    (markSet mark s mem a).gcMark = (mem a).gcMark ∨ (markSet mark s mem a).gcMark = mark := by
  by_cases h : a ∈ s
  · rw [markSet_mem h]
    exact Object.marked_gcMark _ _
  · rw [markSet_not_mem h]
    exact .inl rfl

/-- A surviving object has the mark that the marking gave it. -/
theorem Collected.gcMark {now : Word} {vs : List Value} {rt rt' : Runtime} {blocks blocks' : List ℕ}
    {b : ℕ} (h : Collected now vs rt rt' blocks blocks')
    (hb : b ∈ rt'.mem.allocatedBlocks blocks') :
    (rt'.mem b).gcMark = (rt.mem b).gcMark ∨ (rt'.mem b).gcMark = now := by
  rw [h.coalesced.allocated, Mem.mem_allocatedBlocks] at hb
  have hgarbage : (markSet now (reachableFrom rt rt.mem vs) rt.mem b).isGarbage now = false := by
    have := hb.2
    rw [Mem.isFree_swept hb.1, Bool.or_eq_false_iff] at this
    exact this.2
  rw [h.coalesced.kept b hb.2, Mem.swept_of_kept hgarbage]
  exact markSet_gcMark_cases ..

theorem Collected.cleared {now : Word} {vs : List Value} {rt rt' : Runtime}
    {blocks blocks' : List ℕ} {roots : Roots} (h : Collected now vs rt rt' blocks blocks')
    (hneeds : rt.needsGc = true) (hvs : roots.values = some vs) :
    Cleared rt rt' roots now blocks blocks' where
  arenaRef? := funext h.arenaRef?
  kept b hb hkeeps := by
    have hb' : b ∈ rt'.mem.allocatedBlocks blocks' := by
      rcases hkeeps hneeds with hx | ⟨vs', hvs', hreach⟩
      · exact h.of_external hb hx
      · rw [hvs] at hvs'
        exact h.of_reachable hb (Option.some.inj hvs' ▸ hreach)
    exact ⟨hb', h.unchanged hb', h.gcMark hb'⟩
  lost b hb hnot hmark := by
    have hnot' : b ∉ rt'.mem.allocatedBlocks blocks' := by
      rw [h.mem_allocated, markSet_gcMark hmark]
      rintro ⟨-, hreach | hx⟩
      · exact hnot fun _ => .inr ⟨vs, hvs, hreach⟩
      · exact hnot fun _ => .inl hx
    rw [h.coalesced.allocated, Mem.mem_allocatedBlocks] at hnot'
    rw [h.coalesced.isFree]
    simpa [(Mem.mem_allocatedBlocks.1 hb).1] using hnot'
  free b hb := by
    rw [h.coalesced.isFree]
    have hfree : (markSet now (reachableFrom rt rt.mem vs) rt.mem b).isFree = true :=
      (SameShape.isFree (markSet_sameShape now _ rt.mem) b).trans hb
    by_cases hmem : b ∈ blocks
    · rw [Mem.isFree_swept hmem, hfree, Bool.true_or]
    · rw [Mem.swept_of_not_mem hmem, hfree]

/-- The space check. -/
theorem checkSpace_cleared {rt rt₁ : Runtime} {blocks : List ℕ} (h : ArenaInv rt blocks) {fuel : ℕ}
    {roots : Roots} {now : Word} (hcheck : rt.checkSpace fuel roots now = some rt₁) :
    ∃ blocks₁, ArenaInv rt₁ blocks₁ ∧ Cleared rt rt₁ roots now blocks blocks₁ := by
  unfold Runtime.checkSpace at hcheck
  split at hcheck
  · next hneeds =>
    have henabled : rt.gcEnabled = true := by
      simp only [Runtime.needsGc, Bool.and_eq_true] at hneeds
      exact hneeds.2
    obtain ⟨vs, blocks₁, hvs, hcol⟩ := gc_forced h.toArena henabled (Bool.true_or _) hcheck
    exact ⟨blocks₁, ⟨hcol.arena, hcol.separated h.separated, hcol.counted⟩,
      hcol.cleared hneeds hvs⟩
  · next hneeds =>
    obtain rfl := Option.some.inj hcheck
    exact ⟨blocks, h, .refl (by simpa using hneeds)⟩

/-- The new object apart, `takeObject` makes nothing out of a free block. -/
theorem takeObject_isFree {rt rt' : Runtime} {clazz : Word} {objSize obj : ℕ}
    (h : rt.takeObject clazz objSize = some (rt', obj)) {b : ℕ} (hne : b ≠ obj)
    (hb : (rt.mem b).isFree = true) : (rt'.mem b).isFree = true := by
  unfold Runtime.takeObject at h
  split at h
  · cases h
  · obtain ⟨rfl, rfl⟩ := Prod.mk.inj (Option.some.inj h)
    dsimp only
    rw [Mem.set_other _ _ hne]
    split
    · unfold Mem.set
      split
      · rfl
      · exact hb
    · exact hb

/-- What `allocateObject` does to the objects: it makes a new one, clears away what it may, and leaves
    the others where they are. -/
structure AllocateEffect (rt rt' : Runtime) (roots : Roots) (now clazz : Word) (obj : ℕ)
    (blocks blocks' : List ℕ) : Prop where
  arenaRef? : rt'.arenaRef? = rt.arenaRef?
  tiles : ∃ start stop, Tiles rt'.mem.sizes start stop blocks'
  freeList : ∀ b ∈ rt'.mem.allocatedBlocks blocks', b ∉ rt'.freeList
  allocated : obj ∈ rt'.mem.allocatedBlocks blocks'
  clazz_eq : (rt'.mem obj).clazz = some clazz
  gcMark_eq : (rt'.mem obj).gcMark = 0
  kept : ∀ b ∈ rt.mem.allocatedBlocks blocks, rt.Keeps roots b →
    b ∈ rt'.mem.allocatedBlocks blocks' ∧ b ≠ obj ∧ Unchanged rt rt' b ∧
      ((rt'.mem b).gcMark = (rt.mem b).gcMark ∨ (rt'.mem b).gcMark = now)
  lost : ∀ b ∈ rt.mem.allocatedBlocks blocks, ¬rt.Keeps roots b → (rt.mem b).gcMark ≠ now →
    (rt'.mem b).isFree = true ∨ b = obj
  free : ∀ b, (rt.mem b).isFree = true → (rt'.mem b).isFree = true ∨ b = obj

theorem objectSize_pos (n : ℕ) : 0 < objectSize n := by
  unfold objectSize sizeofObject sizeofValue
  omega

theorem allocateObject_effect {rt rt' : Runtime} {blocks : List ℕ} (h : ArenaInv rt blocks)
    {fuel : ℕ} {roots : Roots} {now clazz : Word} {fieldCount extraValues obj : ℕ}
    (halloc : allocateObject fuel roots now clazz fieldCount extraValues rt = some (rt', obj)) :
    ∃ blocks', AllocateEffect rt rt' roots now clazz obj blocks blocks' ∧
      (sizeofObject ≤ objectSize (fieldCount + extraValues) → ArenaInv rt' blocks') := by
  obtain ⟨rt₁, hcheck, htake⟩ : ∃ rt₁, rt.checkSpace fuel roots now = some rt₁ ∧
      rt₁.takeObject clazz (objectSize (fieldCount + extraValues)) = some (rt', obj) :=
    Option.bind_eq_some_iff.1 halloc
  obtain ⟨blocks₁, hinv, hcleared⟩ := checkSpace_cleared h hcheck
  obtain ⟨b₁, tail, b₂, rfl, htaken⟩ := takeObject_cases hinv.toArena (objectSize_pos _) htake
  obtain ⟨size, hle, heq⟩ := htaken.object
  have hne : ∀ b ∈ rt₁.mem.allocatedBlocks (b₁ ++ obj :: b₂), b ≠ obj := by
    rintro b hb rfl
    exact absurd (htaken.found.symm.trans (Mem.mem_allocatedBlocks.1 hb).2) nofun
  have hsame : ∀ b ∈ rt₁.mem.allocatedBlocks (b₁ ++ obj :: b₂), rt'.mem b = rt₁.mem b := by
    intro b hb
    have hmem := (Mem.mem_allocatedBlocks.1 hb).1
    refine htaken.others b ?_
    have := hne b hb
    simp only [List.mem_append, List.mem_cons] at hmem ⊢
    tauto
  refine ⟨b₁ ++ obj :: (tail ++ b₂), ⟨?_, ⟨_, _, htaken.tiles⟩, ?_, ?_, ?_, ?_, ?_, ?_, ?_⟩, ?_⟩
  · exact (arenaRef?_congr htaken.start htaken.arenaSize).trans hcleared.arenaRef?
  · intro b hb hfree
    have hnot := (Mem.mem_allocatedBlocks.1 hb).2
    rcases List.mem_append.1 (htaken.freeList.subset hfree) with ht | hf
    · exact absurd ((htaken.tail_free b ht).1.symm.trans hnot) nofun
    · obtain ⟨hmem, hfree₁⟩ := Mem.mem_freeBlocks.1 hf
      rw [htaken.others b hmem, hfree₁] at hnot
      cases hnot
  · exact htaken.mem_allocatedBlocks.2 (Or.inl rfl)
  · rw [heq]
  · rw [heq]
  · intro b hb hkeeps
    obtain ⟨hb₁, hunchanged, hmark⟩ := hcleared.kept b hb hkeeps
    rw [Unchanged, ← hsame b hb₁] at hunchanged
    rw [← hsame b hb₁] at hmark
    exact ⟨htaken.mem_allocatedBlocks.2 (Or.inr hb₁), hne b hb₁, hunchanged, hmark⟩
  · intro b hb hnot hmark
    by_cases hbo : b = obj
    · exact .inr hbo
    · exact .inl (takeObject_isFree htake hbo (hcleared.lost b hb hnot hmark))
  · intro b hb
    by_cases hbo : b = obj
    · exact .inr hbo
    · exact .inl (takeObject_isFree htake hbo (hcleared.free b hb))
  · exact fun hheader => htaken.arenaInv hheader hinv

theorem Child.unchanged {rt rt' : Runtime} (href : rt'.arenaRef? = rt.arenaRef?) {a b : ℕ}
    (h : Unchanged rt rt' a) : Child rt' rt'.mem a b ↔ Child rt rt.mem a b := by
  obtain ⟨hclazz, hsize, hvalues⟩ := h
  simp only [Child, Object.valueCount, hclazz, hsize, hvalues, href]

/-- As long as no object that the roots reach changes, they reach the same objects. -/
theorem reachableFrom_unchanged {rt rt' : Runtime} {vs : List Value}
    (href : rt'.arenaRef? = rt.arenaRef?)
    (h : ∀ b ∈ reachableFrom rt rt.mem vs, Unchanged rt rt' b) :
    reachableFrom rt' rt'.mem vs = reachableFrom rt rt.mem vs := by
  ext b
  constructor
  · rintro ⟨v, hv, a, ha, hpath⟩
    rw [href] at ha
    suffices hsuf : b ∈ reachSet rt rt.mem a from ⟨v, hv, a, ha, hsuf⟩
    induction hpath with
    | refl => exact Relation.ReflTransGen.refl
    | tail _ hcd ih =>
      exact Relation.ReflTransGen.tail ih ((Child.unchanged href (h _ ⟨v, hv, a, ha, ih⟩)).mp hcd)
  · rintro ⟨v, hv, a, ha, hpath⟩
    suffices hsuf : b ∈ reachSet rt' rt'.mem a from ⟨v, hv, a, href ▸ ha, hsuf⟩
    induction hpath with
    | refl => exact Relation.ReflTransGen.refl
    | tail hac hcd ih =>
      exact Relation.ReflTransGen.tail ih ((Child.unchanged href (h _ ⟨v, hv, a, ha, hac⟩)).mpr hcd)

/-- A new object is not live while nothing refers to it: when everything that the roots reached was
    allocated before. -/
theorem AllocateEffect.not_live {rt rt' : Runtime} {roots roots' : Roots} {now clazz : Word}
    {obj : ℕ} {blocks blocks' : List ℕ} {vs vs' : List Value}
    (h : AllocateEffect rt rt' roots' now clazz obj blocks blocks')
    (hvs : roots.values = some vs) (hvs' : roots'.values = some vs') (hsub : ∀ v ∈ vs, v ∈ vs')
    (hvalid : ValidRoots rt blocks vs') : ¬rt'.Live roots obj := by
  have hkept : ∀ c ∈ reachableFrom rt rt.mem vs', c ≠ obj ∧ Unchanged rt rt' c := by
    intro c hc
    have hkeeps : rt.Keeps roots' c := fun _ => .inr ⟨vs', hvs', hc⟩
    obtain ⟨-, hne, hunchanged, -⟩ := h.kept c (hvalid c hc) hkeeps
    exact ⟨hne, hunchanged⟩
  rintro (hx | ⟨ws, hws, v, hv, a, ha, hpath⟩)
  · rw [h.gcMark_eq] at hx
    exact absurd hx (by decide)
  · obtain rfl := Option.some.inj (hvs.symm.trans hws)
    rw [h.arenaRef?] at ha
    have hreach := reachableFrom_unchanged h.arenaRef? fun c hc => (hkept c hc).2
    exact (hkept obj (hreach ▸ ⟨v, hsub v hv, a, h.arenaRef? ▸ ha, hpath⟩)).1 rfl

/-! ## Objects in hand -/

/-- The objects that an operation holds are where they should be. -/
structure InHand (rt : Runtime) (blocks : List ℕ) (held : List (ℕ × Word)) : Prop where
  allocated : ∀ obj ∈ held, obj.1 ∈ rt.mem.allocatedBlocks blocks
  clazz : ∀ obj ∈ held, (rt.mem obj.1).clazz = some obj.2
  distinct : held.Pairwise (fun x y => x.1 ≠ y.1)

/-- An object that the operation holds has become free, or the block of another one. -/
def Dropped (rt : Runtime) (held : List (ℕ × Word)) : Prop :=
  (∃ obj ∈ held, (rt.mem obj.1).isFree = true) ∨ ¬held.Pairwise (fun x y => x.1 ≠ y.1)

theorem Dropped.not_allAllocated {rt : Runtime} {held : List (ℕ × Word)} (h : Dropped rt held) :
    ¬rt.AllAllocated held := by
  rintro ⟨hall, hapart⟩
  rcases h with ⟨obj, hmem, hfree⟩ | hsame
  · rw [Object.isFree, (hall obj hmem).1] at hfree
    cases hfree
  · exact hsame (hapart.imp fun h => h.1)

section

variable {rt rt' : Runtime} {roots : Roots} {now clazz : Word} {obj : ℕ} {blocks blocks' : List ℕ}
variable {held : List (ℕ × Word)}

theorem AllocateEffect.dropped (h : AllocateEffect rt rt' roots now clazz obj blocks blocks')
    (hdrop : Dropped rt held) : Dropped rt' ((obj, clazz) :: held) := by
  rcases hdrop with ⟨p, hp, hfree⟩ | hsame
  · rcases h.free p.1 hfree with hfree' | heq
    · exact .inl ⟨p, List.mem_cons_of_mem _ hp, hfree'⟩
    · exact .inr fun hdistinct => (List.pairwise_cons.1 hdistinct).1 p hp heq.symm
  · exact .inr fun hdistinct => hsame (List.pairwise_cons.1 hdistinct).2

theorem AllocateEffect.inHand (h : AllocateEffect rt rt' roots now clazz obj blocks blocks')
    (hheld : InHand rt blocks held) (hkeeps : ∀ p ∈ held, rt.Keeps roots p.1) :
    InHand rt' blocks' ((obj, clazz) :: held) where
  allocated := List.forall_mem_cons.2 ⟨h.allocated, fun p hp =>
    (h.kept p.1 (hheld.allocated p hp) (hkeeps p hp)).1⟩
  clazz := List.forall_mem_cons.2 ⟨h.clazz_eq, fun p hp =>
    (h.kept p.1 (hheld.allocated p hp) (hkeeps p hp)).2.2.1.1.trans (hheld.clazz p hp)⟩
  distinct := List.pairwise_cons.2 ⟨fun p hp =>
    (h.kept p.1 (hheld.allocated p hp) (hkeeps p hp)).2.1.symm, hheld.distinct⟩

theorem AllocateEffect.drops (h : AllocateEffect rt rt' roots now clazz obj blocks blocks')
    (hheld : InHand rt blocks held) (hmark : ∀ p ∈ held, (rt.mem p.1).gcMark ≠ now)
    (hnot : ¬∀ p ∈ held, rt.Keeps roots p.1) : Dropped rt' ((obj, clazz) :: held) := by
  simp only [not_forall] at hnot
  obtain ⟨p, hp, hlost⟩ := hnot
  rcases h.lost p.1 (hheld.allocated p hp) hlost (hmark p hp) with hfree | heq
  · exact .inl ⟨p, List.mem_cons_of_mem _ hp, hfree⟩
  · exact .inr fun hdistinct => (List.pairwise_cons.1 hdistinct).1 p hp heq.symm

theorem AllocateEffect.allAllocated (h : AllocateEffect rt rt' roots now clazz obj blocks blocks')
    (hheld : InHand rt' blocks' held) : rt'.AllAllocated held := by
  obtain ⟨start, stop, htiles⟩ := h.tiles
  refine ⟨fun p hp => ⟨hheld.clazz p hp, h.freeList _ (hheld.allocated p hp)⟩, ?_⟩
  refine hheld.distinct.imp_of_mem fun hx hy hne => ⟨hne, ?_⟩
  exact htiles.disjoint (Mem.mem_allocatedBlocks.1 (hheld.allocated _ hx)).1
    (Mem.mem_allocatedBlocks.1 (hheld.allocated _ hy)).1 hne

/-- After its last allocation an operation has all of its objects if and only if that allocation
    keeps them. -/
theorem AllocateEffect.allAllocated_iff
    (h : AllocateEffect rt rt' roots now clazz obj blocks blocks') (hheld : InHand rt blocks held)
    (hmark : ∀ p ∈ held, (rt.mem p.1).gcMark ≠ now) :
    rt'.AllAllocated ((obj, clazz) :: held) ↔ ∀ p ∈ held, rt.Keeps roots p.1 := by
  constructor
  · intro hall
    by_contra hnot
    exact (h.drops hheld hmark hnot).not_allAllocated hall
  · exact fun hkeeps => h.allAllocated (h.inHand hheld hkeeps)

/-! ## Writing to objects -/

theorem setValue_mem (rt : Runtime) (obj slot : ℕ) (v : Value) (a : ℕ) :
    ((rt.setValue obj slot v).mem a).clazz = (rt.mem a).clazz ∧
      ((rt.setValue obj slot v).mem a).size = (rt.mem a).size ∧
      ((rt.setValue obj slot v).mem a).gcMark = (rt.mem a).gcMark := by
  by_cases h : a = obj
  · rw [h, Runtime.setValue]
    dsimp only
    rw [Mem.set_same]
    exact ⟨rfl, rfl, rfl⟩
  · rw [Runtime.setValue]
    dsimp only
    rw [Mem.set_other _ _ h]
    exact ⟨rfl, rfl, rfl⟩

@[simp]
theorem setValue_allAllocated (rt : Runtime) (obj slot : ℕ) (v : Value) (held : List (ℕ × Word)) :
    (rt.setValue obj slot v).AllAllocated held ↔ rt.AllAllocated held := by
  have hfreeList : (rt.setValue obj slot v).freeList = rt.freeList := rfl
  have hsizes : (rt.setValue obj slot v).mem.sizes = rt.mem.sizes :=
    funext fun a => (setValue_mem rt obj slot v a).2.1
  simp only [Runtime.AllAllocated, Runtime.StillAllocated, Runtime.Apart, hfreeList, hsizes,
    (setValue_mem rt obj slot v _).1]

theorem setValue_isFree (rt : Runtime) (obj slot : ℕ) (v : Value) (a : ℕ) :
    ((rt.setValue obj slot v).mem a).isFree = (rt.mem a).isFree := by
  rw [Object.isFree, (setValue_mem rt obj slot v a).1, Object.isFree]

theorem InHand.setValue (h : InHand rt blocks held) (obj slot : ℕ) (v : Value) :
    InHand (rt.setValue obj slot v) blocks held where
  allocated p hp := by
    have := h.allocated p hp
    rw [Mem.mem_allocatedBlocks] at this ⊢
    rwa [setValue_isFree]
  clazz p hp := (setValue_mem rt obj slot v p.1).1.trans (h.clazz p hp)
  distinct := h.distinct

theorem Dropped.setValue (h : Dropped rt held) (obj slot : ℕ) (v : Value) :
    Dropped (rt.setValue obj slot v) held :=
  h.imp_left fun ⟨p, hp, hfree⟩ => ⟨p, hp, (setValue_isFree rt obj slot v p.1).trans hfree⟩

/-- The order of the objects does not matter. -/
theorem allAllocated_perm {held' : List (ℕ × Word)} (h : held.Perm held') :
    rt.AllAllocated held ↔ rt.AllAllocated held' := by
  have hsymm : ∀ x y : ℕ × Word, rt.Apart x.1 y.1 → rt.Apart y.1 x.1 :=
    fun _ _ h => ⟨h.1.symm, h.2.symm⟩
  unfold Runtime.AllAllocated
  rw [h.pairwise_iff (fun h => hsymm _ _ h)]
  simp only [h.mem_iff]

theorem ArenaInv.setValue (h : ArenaInv rt blocks) (obj slot : ℕ) (v : Value) :
    ArenaInv (rt.setValue obj slot v) blocks :=
  h.write obj _ (rt.mem obj).gcMark

/-! ## The operations -/

section

variable {fuel : ℕ} {classes : CoreClasses} {native stackTrace : Word}

/-- Making a string while `held` are held. -/
theorem createString_effect (h : ArenaInv rt blocks) {str : ℕ}
    (hstr : createString fuel classes roots now native rt = some (rt', str)) :
    ∃ blocks', ArenaInv rt' blocks' ∧ (rt'.mem str).gcMark = 0 ∧
      ∀ held, InHand rt blocks held →
        ((∀ p ∈ held, rt.Keeps roots p.1) → InHand rt' blocks' ((str, classes.string) :: held) ∧
          ∀ p ∈ held, (rt'.mem p.1).gcMark = (rt.mem p.1).gcMark ∨ (rt'.mem p.1).gcMark = now) ∧
        ((∀ p ∈ held, (rt.mem p.1).gcMark ≠ now) → (¬∀ p ∈ held, rt.Keeps roots p.1) →
          Dropped rt' ((str, classes.string) :: held)) := by
  obtain ⟨⟨rt₁, obj⟩, halloc, hstr⟩ := Option.bind_eq_some_iff.1 hstr
  obtain ⟨rfl, rfl⟩ := Prod.mk.inj (Option.some.inj hstr)
  obtain ⟨blocks', heffect, hinv⟩ := allocateObject_effect h halloc
  have hmem := setValue_mem rt₁ obj 0 ⟨.unknown, native⟩
  refine ⟨blocks', (hinv (by decide)).setValue _ _ _, (hmem obj).2.2.trans heffect.gcMark_eq, ?_⟩
  intro held hheld
  refine ⟨fun hkeeps => ⟨(heffect.inHand hheld hkeeps).setValue _ _ _, fun p hp => ?_⟩,
    fun hmark hnot => (heffect.drops hheld hmark hnot).setValue _ _ _⟩
  rw [(hmem p.1).2.2]
  exact (heffect.kept p.1 (hheld.allocated p hp) (hkeeps p hp)).2.2.2

/-- Making an exception while `held` are held, as the last thing that an operation does. -/
theorem createExceptionValue_iff (h : ArenaInv rt blocks) {value : Value} {exception : ℕ}
    (hexc : createExceptionValue fuel classes roots now value stackTrace rt =
      some (rt', exception)) :
    (Dropped rt held → Dropped rt' ((exception, classes.exception) :: held)) ∧
      (InHand rt blocks held → (∀ p ∈ held, (rt.mem p.1).gcMark ≠ now) →
        (rt'.AllAllocated ((exception, classes.exception) :: held) ↔
          ∀ p ∈ held, rt.Keeps roots p.1)) := by
  obtain ⟨⟨rt₁, obj⟩, halloc, hexc⟩ := Option.bind_eq_some_iff.1 hexc
  obtain ⟨rfl, rfl⟩ := Prod.mk.inj (Option.some.inj hexc)
  obtain ⟨blocks', heffect, -⟩ := allocateObject_effect h halloc
  refine ⟨fun hdrop => ((heffect.dropped hdrop).setValue _ _ _).setValue _ _ _, fun hheld hmark => ?_⟩
  rw [setValue_allAllocated, setValue_allAllocated]
  exact heffect.allAllocated_iff hheld hmark

/-- Making an exception for a message while `held` are held. -/
theorem createExceptionMessage_iff (h : ArenaInv rt blocks) {now₁ now₂ : Word}
    (hnow : now₁ ≠ now₂ ∧ now₂ ≠ 0) {made : List (ℕ × Word)}
    (hexc : createExceptionMessage fuel classes roots now₁ now₂ native stackTrace rt =
      some (rt', made))
    (hheld : InHand rt blocks held)
    (hmark : ∀ p ∈ held, (rt.mem p.1).gcMark ≠ now₁ ∧ (rt.mem p.1).gcMark ≠ now₂) :
    ∃ rt₁ str, createString fuel classes roots now₁ native rt = some (rt₁, str) ∧
      (rt'.AllAllocated (made ++ held) ↔
        (∀ p ∈ held, rt.Keeps roots p.1 ∧ rt₁.Keeps roots p.1) ∧ rt₁.Keeps roots str) := by
  obtain ⟨⟨rt₁, str⟩, hstr, hexc⟩ := Option.bind_eq_some_iff.1 hexc
  obtain ⟨⟨rt₂, exception⟩, hvalue, hexc⟩ := Option.bind_eq_some_iff.1 hexc
  obtain ⟨rfl, rfl⟩ := Prod.mk.inj (Option.some.inj hexc)
  refine ⟨rt₁, str, hstr, ?_⟩
  obtain ⟨blocks₁, hinv₁, hmark₁, heffect⟩ := createString_effect h hstr
  obtain ⟨hkept, hdrops⟩ := heffect held hheld
  rw [List.cons_append, List.singleton_append,
    allAllocated_perm (List.Perm.swap (exception, classes.exception) (str, classes.string) held)]
  by_cases hkeeps : ∀ p ∈ held, rt.Keeps roots p.1
  · obtain ⟨hheld₁, hmarks₁⟩ := hkept hkeeps
    rw [(createExceptionValue_iff hinv₁ hvalue).2 hheld₁, List.forall_mem_cons, and_comm]
    · exact and_congr_left fun _ => forall₂_congr fun p hp => (and_iff_right (hkeeps p hp)).symm
    · refine List.forall_mem_cons.2 ⟨hmark₁ ▸ hnow.2.symm, fun p hp => ?_⟩
      rcases hmarks₁ p hp with heq | heq <;> rw [heq]
      · exact (hmark p hp).2
      · exact hnow.1
  · have hdrop := hdrops (fun p hp => (hmark p hp).1) hkeeps
    refine iff_of_false ((createExceptionValue_iff hinv₁ hvalue).1 hdrop).not_allAllocated ?_
    exact fun hall => hkeeps fun p hp => (hall.1 p hp).1

theorem InHand.nil (rt : Runtime) (blocks : List ℕ) : InHand rt blocks [] :=
  ⟨nofun, nofun, List.Pairwise.nil⟩

/-- Making the array object itself. -/
theorem newArray_first (h : ArenaInv rt blocks) {roots' : Roots} {now₁ : Word}
    (halloc : allocateObject fuel roots' now₁ classes.array arrayFieldCount 0 rt =
      some (rt', obj)) :
    ∃ blocks', ArenaInv rt' blocks' ∧ InHand rt' blocks' [(obj, classes.array)] ∧
      (rt'.mem obj).gcMark = 0 := by
  obtain ⟨blocks', heffect, hinv⟩ := allocateObject_effect h halloc
  exact ⟨blocks', hinv (by decide), heffect.inHand (.nil rt blocks) nofun, heffect.gcMark_eq⟩

/-- `NEW` of an `Array`, and `newArray`. -/
theorem newArray_iff (h : ArenaInv rt blocks) {now₁ now₂ now₃ : Word} (hnow : now₂ ≠ 0)
    {size : Value} (hnew : newArray fuel classes roots now₁ now₂ now₃ native stackTrace [size] rt =
      some (rt', held)) :
    ∃ rt₁ obj, allocateObject fuel (roots.push [size]) now₁ classes.array arrayFieldCount 0 rt =
        some (rt₁, obj) ∧ (rt'.AllAllocated held ↔ rt₁.Keeps roots obj) := by
  obtain ⟨⟨rt₁, obj⟩, halloc, hnew⟩ := Option.bind_eq_some_iff.1 hnew
  obtain ⟨⟨rt₂, made⟩, hctor, hnew⟩ := Option.bind_eq_some_iff.1 hnew
  obtain ⟨rfl, rfl⟩ := Prod.mk.inj (Option.some.inj hnew)
  obtain ⟨⟨rt₃, data⟩, hdata, hctor⟩ := Option.bind_eq_some_iff.1 hctor
  obtain ⟨rfl, rfl⟩ := Prod.mk.inj (Option.some.inj hctor)
  refine ⟨rt₁, obj, halloc, ?_⟩
  obtain ⟨blocks₁, hinv₁, hheld, hmark⟩ := newArray_first h halloc
  obtain ⟨blocks₂, heffect, -⟩ := allocateObject_effect hinv₁ hdata
  rw [setValue_allAllocated, setValue_allAllocated,
    allAllocated_perm (List.Perm.swap (data, classes.arrayData) (obj, classes.array) []),
    heffect.allAllocated_iff hheld (List.forall_mem_singleton.2 (hmark ▸ hnow.symm)),
    List.forall_mem_singleton]

theorem Roots.push_values {args vs' : List Value} (h : (roots.push args).values = some vs') :
    ∃ vs, roots.values = some vs ∧ ∀ v ∈ vs, v ∈ vs' := by
  unfold Roots.push at h
  obtain ⟨classes, contexts, frames⟩ := roots
  cases contexts with
  | nil =>
    obtain ⟨statics, hstatics, rfl⟩ := Option.map_eq_some_iff.1 h
    refine ⟨statics ++ [], Option.map_eq_some_iff.2 ⟨statics, hstatics, rfl⟩, fun v hv => ?_⟩
    rw [List.append_nil] at hv
    exact List.mem_append_left _ hv
  | cons stack contexts =>
    obtain ⟨statics, hstatics, rfl⟩ := Option.map_eq_some_iff.1 h
    refine ⟨_, Option.map_eq_some_iff.2 ⟨statics, hstatics, rfl⟩, fun v hv => ?_⟩
    simp only [contextRoots, List.flatMap_cons, List.flatMap_append, List.mem_append] at hv ⊢
    tauto

/-- Where references are valid, nothing refers to the new array, so that it is a question of space. -/
theorem newArray_iff_space (h : ArenaInv rt blocks) {now₁ now₂ now₃ : Word} (hnow : now₂ ≠ 0)
    {size : Value} {vs : List Value} (hvs : (roots.push [size]).values = some vs)
    (hvalid : ValidRoots rt blocks vs)
    (hnew : newArray fuel classes roots now₁ now₂ now₃ native stackTrace [size] rt =
      some (rt', held)) :
    ∃ rt₁ obj, allocateObject fuel (roots.push [size]) now₁ classes.array arrayFieldCount 0 rt =
        some (rt₁, obj) ∧ (rt'.AllAllocated held ↔ rt₁.needsGc = false) := by
  obtain ⟨rt₁, obj, halloc, hiff⟩ := newArray_iff h hnow hnew
  refine ⟨rt₁, obj, halloc, hiff.trans ⟨fun hkeeps => ?_, fun hroom hneeds => ?_⟩⟩
  · obtain ⟨blocks₁, heffect, -⟩ := allocateObject_effect h halloc
    obtain ⟨ws, hws, hsub⟩ := Roots.push_values hvs
    by_contra hneeds
    exact heffect.not_live hws hvs hsub hvalid (hkeeps (by simpa using hneeds))
  · exact absurd (hroom.symm.trans hneeds) nofun

/-- `NEW` of an `Array` with another number of arguments than one. -/
theorem newArray_wrongArgs_iff (h : ArenaInv rt blocks) {now₁ now₂ now₃ : Word}
    (hnow : now₂ ≠ 0 ∧ now₃ ≠ 0 ∧ now₂ ≠ now₃) {args : List Value} (hargs : args.length ≠ 1)
    (hnew : newArray fuel classes roots now₁ now₂ now₃ native stackTrace args rt =
      some (rt', held)) :
    ∃ rt₁ obj rt₂ str,
      allocateObject fuel (roots.push args) now₁ classes.array arrayFieldCount 0 rt =
        some (rt₁, obj) ∧
      createString fuel classes roots now₂ native rt₁ = some (rt₂, str) ∧
      (rt'.AllAllocated held ↔
        rt₁.Keeps roots obj ∧ rt₂.Keeps roots obj ∧ rt₂.Keeps roots str) := by
  obtain ⟨⟨rt₁, obj⟩, halloc, hnew⟩ := Option.bind_eq_some_iff.1 hnew
  obtain ⟨⟨rt₂, made⟩, hctor, hnew⟩ := Option.bind_eq_some_iff.1 hnew
  obtain ⟨rfl, rfl⟩ := Prod.mk.inj (Option.some.inj hnew)
  have hexc : createExceptionMessage fuel classes roots now₂ now₃ native stackTrace rt₁ =
      some (rt₂, made) := by
    match args, hargs, hctor with
    | [], _, hctor => exact hctor
    | _ :: _ :: _, _, hctor => exact hctor
  obtain ⟨blocks₁, hinv₁, hheld, hmark⟩ := newArray_first h halloc
  have hmarks : ∀ p ∈ [(obj, classes.array)],
      (rt₁.mem p.1).gcMark ≠ now₂ ∧ (rt₁.mem p.1).gcMark ≠ now₃ :=
    List.forall_mem_singleton.2 ⟨hmark ▸ hnow.1.symm, hmark ▸ hnow.2.1.symm⟩
  obtain ⟨rt₃, str, hstr, hiff⟩ :=
    createExceptionMessage_iff hinv₁ ⟨hnow.2.2, hnow.2.1⟩ hexc hheld hmarks
  refine ⟨rt₁, obj, rt₃, str, halloc, hstr, ?_⟩
  rw [allAllocated_perm (List.perm_append_singleton (obj, classes.array) made).symm, hiff,
    List.forall_mem_singleton, and_assoc]

/-- **When an operation ends with all of its objects.** `newArray`, `createException` for a message
    and `THROW` of an object keep the objects that they have made or been given if and only if, at each
    of their allocations, the objects made before it are live or the space check does not collect. -/
theorem operations_keep_objects (h : ArenaInv rt blocks) {now₁ now₂ now₃ : Word}
    (hnow : now₂ ≠ 0 ∧ now₃ ≠ 0 ∧ now₁ ≠ now₂ ∧ now₂ ≠ now₃) :
    (∀ size rt' held,
      newArray fuel classes roots now₁ now₂ now₃ native stackTrace [size] rt = some (rt', held) →
      ∃ rt₁ obj, allocateObject fuel (roots.push [size]) now₁ classes.array arrayFieldCount 0 rt =
          some (rt₁, obj) ∧ (rt'.AllAllocated held ↔ rt₁.Keeps roots obj)) ∧
    (∀ args rt' held, args.length ≠ 1 →
      newArray fuel classes roots now₁ now₂ now₃ native stackTrace args rt = some (rt', held) →
      ∃ rt₁ obj rt₂ str,
        allocateObject fuel (roots.push args) now₁ classes.array arrayFieldCount 0 rt =
          some (rt₁, obj) ∧
        createString fuel classes roots now₂ native rt₁ = some (rt₂, str) ∧
        (rt'.AllAllocated held ↔
          rt₁.Keeps roots obj ∧ rt₂.Keeps roots obj ∧ rt₂.Keeps roots str)) ∧
    (∀ rt' held,
      createExceptionMessage fuel classes roots now₁ now₂ native stackTrace rt = some (rt', held) →
      ∃ rt₁ str, createString fuel classes roots now₁ native rt = some (rt₁, str) ∧
        (rt'.AllAllocated held ↔ rt₁.Keeps roots str)) ∧
    (∀ value clazz rt' exception, value.type = .object →
      value.bits.toNat ∈ rt.mem.allocatedBlocks blocks →
      (rt.mem value.bits.toNat).clazz = some clazz → (rt.mem value.bits.toNat).gcMark ≠ now₁ →
      createExceptionValue fuel classes roots now₁ value stackTrace rt = some (rt', exception) →
      (rt'.AllAllocated [(exception, classes.exception), (value.bits.toNat, clazz)] ↔
        rt.Keeps roots value.bits.toNat)) := by
  refine ⟨fun size rt' held => newArray_iff h hnow.1, fun args rt' held hargs => ?_,
    fun rt' held hexc => ?_, fun value clazz rt' exception _ hmem hclazz hmark hexc => ?_⟩
  · exact newArray_wrongArgs_iff h ⟨hnow.1, hnow.2.1, hnow.2.2.2⟩ hargs
  · obtain ⟨rt₁, str, hstr, hiff⟩ :=
      createExceptionMessage_iff h ⟨hnow.2.2.1, hnow.1⟩ hexc (.nil rt blocks) nofun
    rw [List.append_nil] at hiff
    exact ⟨rt₁, str, hstr, hiff.trans (and_iff_right nofun)⟩
  · have hheld : InHand rt blocks [(value.bits.toNat, clazz)] :=
      ⟨List.forall_mem_singleton.2 hmem, List.forall_mem_singleton.2 hclazz,
        List.pairwise_singleton ..⟩
    rw [(createExceptionValue_iff h hexc).2 hheld (List.forall_mem_singleton.2 hmark),
      List.forall_mem_singleton]

end

end

/-! ## Two heaps -/

def coreClasses : CoreClasses := ⟨1, 2, 3, 4⟩

/-- A context with nothing on its stack, and no static fields. -/
def emptyRoots : Roots := ⟨[], [[]], fun _ => []⟩

theorem operations_keep_objects_init :
    ∃ rt' held, createExceptionMessage 0 coreClasses emptyRoots 1 2 0 0 (Runtime.init 4096) =
      some (rt', held) ∧ rt'.AllAllocated held := by
  obtain ⟨⟨rt', held⟩, hexc⟩ := Option.isSome_iff_exists.1
    (show (createExceptionMessage 0 coreClasses emptyRoots 1 2 0 0 (Runtime.init 4096)).isSome by
      decide +kernel)
  have hnow : (2 : Word) ≠ 0 ∧ (3 : Word) ≠ 0 ∧ (1 : Word) ≠ 2 ∧ (2 : Word) ≠ 3 := by decide
  obtain ⟨rt₁, str, hstr, hiff⟩ :=
    (operations_keep_objects (arenaInv_init (by decide : 0 < 4096)) hnow).2.2.1 rt' held hexc
  have hspace : (createString 0 coreClasses emptyRoots 1 0 (Runtime.init 4096)).map
      (fun p => p.1.needsGc) = some false := by decide +kernel
  rw [hstr] at hspace
  have hroom : rt₁.needsGc = false := Option.some.inj hspace
  exact ⟨rt', held, hexc, hiff.2 fun hneeds => absurd (hroom.symm.trans hneeds) nofun⟩

/-- The request of the array data that `fullHeap` starts with: 12582904 bytes, eight less than three
    quarters of the arena. -/
def fullHeapRequest : Option (Runtime × ℕ) :=
  allocateObject 0 emptyRoots 1 2 arrayDataFieldCount 786429 (Runtime.init 4096)

/-- A heap whose arena is nearly three quarters full of garbage. -/
def fullHeap : Runtime := (fullHeapRequest.map Prod.fst).getD (Runtime.init 4096)

theorem fullHeap_run : ArenaRun fullHeap := by
  obtain ⟨⟨rt, obj⟩, hrt⟩ := Option.isSome_iff_exists.1
    (show fullHeapRequest.isSome by decide +kernel)
  have hfull : fullHeap = rt := by rw [fullHeap, hrt]; rfl
  rw [hfull]
  exact ArenaRun.allocate (ArenaRun.init (by decide : 0 < 4096)) (by decide) hrt

/-- The search succeeds if some free block is large enough. -/
theorem takeFirstFit_isSome {mem : Mem} {n o : ℕ} {l : List ℕ} (ho : o ∈ l)
    (hle : n ≤ (mem o).size) : (takeFirstFit mem n l).isSome := by
  induction l with
  | nil => cases ho
  | cons x l ih =>
    unfold takeFirstFit
    split
    · rfl
    · next hsmall =>
      rcases List.mem_cons.1 ho with rfl | ho
      · exact absurd hle hsmall
      · obtain ⟨p, hp⟩ := Option.isSome_iff_exists.1 (ih ho)
        rw [hp]
        rfl

theorem takeObject_isSome {rt : Runtime} {o objSize : ℕ} (clazz : Word) (ho : o ∈ rt.freeList)
    (hle : objSize ≤ (rt.mem o).size) : (rt.takeObject clazz objSize).isSome := by
  obtain ⟨p, hp⟩ := Option.isSome_iff_exists.1 (takeFirstFit_isSome ho hle)
  rw [Runtime.takeObject, hp]
  rfl

/-- A collection without roots frees the first block of the arena. -/
theorem collectAll {rt : Runtime} {blocks : List ℕ} (h : ArenaInv rt blocks)
    (hneeds : rt.needsGc = true) (hsize : 0 < rt.arenaSize) {now : Word}
    (hmark : (rt.mem rt.start).gcMark ≠ now ∧ (rt.mem rt.start).gcMark ≠ gcExternal) :
    ∃ rt', rt.checkSpace 0 emptyRoots now = some rt' ∧ rt.start ∈ rt'.freeList ∧
      (rt.mem rt.start).size ≤ (rt'.mem rt.start).size := by
  have henabled : rt.gcEnabled = true := by
    simp only [Runtime.needsGc, Bool.and_eq_true] at hneeds
    exact hneeds.2
  have hvs : emptyRoots.values = some [] := rfl
  have hmarked : gcMarkValues rt 0 now [] rt.mem = some rt.mem := rfl
  have hforce : (true || decide (rt.gcLastAlloc < rt.newObjects)) = true := Bool.true_or _
  obtain ⟨rt', blocks', hgc, hcol⟩ := gc_of_marked h.toArena henabled hforce hvs hmarked
  -- nothing is reachable, so that the marking changes nothing
  have hnone : reachableFrom rt rt.mem [] = ∅ := Set.eq_empty_of_forall_notMem fun _ ⟨_, hv, _⟩ =>
    absurd hv List.not_mem_nil
  have hmem : rt.start ∈ blocks' := by
    have htiles := hcol.arena.tiles
    rw [hcol.same.start, hcol.same.arenaSize] at htiles
    cases hblocks : blocks' with
    | nil =>
      rw [hblocks] at htiles
      have : rt.start = rt.start + rt.arenaSize := htiles
      omega
    | cons b rest =>
      rw [hblocks] at htiles
      exact htiles.1 ▸ List.mem_cons_self ..
  have hfree : (rt'.mem rt.start).isFree = true := by
    by_contra hnot
    have halloc : rt.start ∈ rt'.mem.allocatedBlocks blocks' :=
      Mem.mem_allocatedBlocks.2 ⟨hmem, by simpa using hnot⟩
    rw [hcol.mem_allocated, hnone, markSet_empty] at halloc
    exact halloc.2.elim hmark.1 hmark.2
  refine ⟨rt', by rw [Runtime.checkSpace, if_pos hneeds, hgc],
    hcol.arena.freeList.symm.subset (Mem.mem_freeBlocks.2 ⟨hmem, hfree⟩), ?_⟩
  have hgrows := hcol.coalesced.grows rt.start
  rwa [Mem.sizes_swept, hnone, markSet_empty] at hgrows

/-- `createException` for a message, with the arena at three quarters: the allocation of the exception
    collects the message. -/
theorem createExceptionMessage_loses_message :
    ArenaRun fullHeap ∧
      ∃ rt' held, createExceptionMessage 0 coreClasses emptyRoots 1 2 0 0 fullHeap =
        some (rt', held) ∧ ¬rt'.AllAllocated held := by
  refine ⟨fullHeap_run, ?_⟩
  obtain ⟨⟨rt₁, str⟩, hstr⟩ := Option.isSome_iff_exists.1
    (show (createString 0 coreClasses emptyRoots 1 0 fullHeap).isSome by decide +kernel)
  have hfacts : (createString 0 coreClasses emptyRoots 1 0 fullHeap).map (fun p =>
      (p.1.needsGc, p.1.start, p.1.arenaSize, (p.1.mem 4096).gcMark, (p.1.mem 4096).size)) =
        some (true, 4096, 16777216, 0, 12582904) := by decide +kernel
  rw [hstr] at hfacts
  simp only [Option.map_some, Option.some.injEq, Prod.mk.injEq] at hfacts
  obtain ⟨hneeds, hstart, hsize, hmark, hfirst⟩ := hfacts
  obtain ⟨blocks, hinv⟩ := fullHeap_run.arenaInv
  obtain ⟨blocks₁, hinv₁, hmark₁, -⟩ := createString_effect hinv hstr
  -- the message is not live: nothing is
  have hdead : ¬rt₁.Live emptyRoots str := by
    rintro (hx | ⟨vs, hvs, v, hv, -⟩)
    · exact absurd (hmark₁.symm.trans hx) (by decide)
    · obtain rfl := Option.some.inj hvs
      cases hv
  have hmarks : (rt₁.mem rt₁.start).gcMark ≠ 2 ∧ (rt₁.mem rt₁.start).gcMark ≠ gcExternal := by
    rw [hstart, hmark]
    decide
  obtain ⟨rt₂, hcheck, hfree, hfit⟩ := collectAll hinv₁ hneeds (by omega) hmarks
  rw [hstart, hfirst] at hfit
  have hroom : objectSize (exceptionFieldCount + 0) ≤ (rt₂.mem rt₁.start).size := by
    rw [hstart]
    exact le_trans (by decide) hfit
  obtain ⟨⟨rt₃, exception⟩, htake⟩ := Option.isSome_iff_exists.1
    (takeObject_isSome coreClasses.exception hfree hroom)
  have halloc : allocateObject 0 emptyRoots 2 coreClasses.exception exceptionFieldCount 0 rt₁ =
      some (rt₃, exception) := by
    rw [allocateObject, hcheck]
    exact htake
  have hexc : ∃ rt' held, createExceptionMessage 0 coreClasses emptyRoots 1 2 0 0 fullHeap =
      some (rt', held) := by
    rw [createExceptionMessage, hstr]
    simp only [createExceptionValue, Option.bind_eq_bind, Option.bind_some, halloc]
    exact ⟨_, _, rfl⟩
  obtain ⟨rt', held, hexc⟩ := hexc
  refine ⟨rt', held, hexc, ?_⟩
  obtain ⟨rt₄, str', hstr', hiff⟩ :=
    createExceptionMessage_iff hinv (by decide) hexc (.nil fullHeap blocks) nofun
  obtain ⟨rfl, rfl⟩ := Prod.mk.inj (Option.some.inj (hstr.symm.trans hstr'))
  rw [List.append_nil] at hiff
  exact fun hall => hdead ((hiff.1 hall).2 hneeds)

end B0rk
