import B0rk.Runtime.Allocate
import B0rk.Runtime.Proofs.Collect

set_option autoImplicit false

/-! # Allocation keeps the arena in order

`takeObject_cases` says once what `allocateObject` does to the block it finds; the parts of the
invariant follow from it. The runs of the arena are the calls of `allocateObject` and `gc` in any
order, with the program writing to its objects in between (`ArenaRun`). -/

namespace B0rk

open Tiling

/-! ## The block that is found -/

theorem takeFirstFit_some {mem : Mem} {n obj : ℕ} {l l' : List ℕ}
    (h : takeFirstFit mem n l = some (obj, l')) :
    ∃ l₁ l₂, l = l₁ ++ obj :: l₂ ∧ l' = l₁ ++ l₂ ∧ n ≤ mem.sizes obj := by
  induction l generalizing l' with
  | nil => simp [takeFirstFit] at h
  | cons o rest ih =>
      unfold takeFirstFit at h
      split at h
      · next hle =>
          obtain ⟨rfl, rfl⟩ := Prod.mk.inj (Option.some.inj h)
          exact ⟨[], rest, rfl, rfl, hle⟩
      · split at h
        · next freeObj rest' hrest =>
            obtain ⟨rfl, rfl⟩ := Prod.mk.inj (Option.some.inj h)
            obtain ⟨l₁, l₂, h1, h2, h3⟩ := ih hrest
            exact ⟨o :: l₁, l₂, by rw [h1]; rfl, by rw [h2]; rfl, h3⟩
        · cases h

/-- The blocks around the new object: `b₁` and `b₂` are the blocks before and behind the free block
    that was found, `tail` is its remainder, if that became a free block of its own. -/
structure Taken (rt rt' : Runtime) (clazz : Word) (objSize obj : ℕ) (b₁ tail b₂ : List ℕ) : Prop
    where
  start : rt'.start = rt.start
  arenaSize : rt'.arenaSize = rt.arenaSize
  found : (rt.mem obj).isFree = true
  tiles : Tiles rt'.mem.sizes rt.start (rt.start + rt.arenaSize) (b₁ ++ obj :: (tail ++ b₂))
  object : ∃ size, objSize ≤ size ∧
    rt'.mem obj = { Object.zeroed with clazz := some clazz, size := size, gcMark := 0 }
  tail_free : ∀ r ∈ tail, (rt'.mem r).isFree = true ∧ sizeofObject < rt'.mem.sizes r
  tail_length : tail.length ≤ 1
  others : ∀ b ∈ b₁ ++ b₂, rt'.mem b = rt.mem b
  freeList : rt'.freeList.Perm (tail ++ rt.mem.freeBlocks (b₁ ++ b₂))
  objects : rt'.currentObjects = rt.currentObjects + 1
  bytes : rt'.currentBytes = rt.currentBytes + rt'.mem.sizes obj

/-- What `allocateObject` does to an arena in which it finds a block. -/
theorem takeObject_cases {rt rt' : Runtime} {blocks : List ℕ} (h : Arena rt blocks) {clazz : Word}
    {objSize obj : ℕ} (hsize : 0 < objSize)
    (htake : rt.takeObject clazz objSize = some (rt', obj)) :
    ∃ b₁ tail b₂, blocks = b₁ ++ obj :: b₂ ∧ Taken rt rt' clazz objSize obj b₁ tail b₂ := by
  unfold Runtime.takeObject at htake
  split at htake
  · cases htake
  next o freeList hfit =>
  obtain ⟨rfl, rfl⟩ := Prod.mk.inj (Option.some.inj htake)
  obtain ⟨l₁, l₂, hl, rfl, hle⟩ := takeFirstFit_some hfit
  have hmem : o ∈ rt.mem.freeBlocks blocks := h.freeList.subset (by simp [hl])
  obtain ⟨ho, hfree⟩ := Mem.mem_freeBlocks.1 hmem
  obtain ⟨b₁, b₂, rfl⟩ := List.append_of_mem ho
  have hnot := (List.nodup_cons.1 (List.nodup_middle.1 h.nodup)).1
  have hrestList : (l₁ ++ l₂).Perm (rt.mem.freeBlocks (b₁ ++ b₂)) := by
    have hmid : rt.mem.freeBlocks (b₁ ++ o :: b₂) =
        rt.mem.freeBlocks b₁ ++ o :: rt.mem.freeBlocks b₂ := by simp [Mem.freeBlocks, hfree]
    have hperm := h.freeList
    rw [hl, hmid] at hperm
    have hperm' := (List.perm_middle.symm.trans hperm).trans List.perm_middle
    simpa [Mem.freeBlocks] using hperm'.cons_inv
  have hsz : rt.mem.sizes o = (rt.mem o).size := rfl
  by_cases hsplit : sizeofObject < (rt.mem o).size - objSize
  · -- the remainder becomes a free block of its own
    have hpos : 0 < sizeofObject := by decide
    have hne : o + objSize ≠ o := by omega
    have hrest : o + objSize ∉ b₁ ++ b₂ := by
      intro hr
      have hr' : o + objSize ∈ b₁ ++ o :: b₂ := by
        simp only [List.mem_append, List.mem_cons] at hr ⊢; tauto
      have := h.tiles.disjoint ho hr' (Ne.symm hne)
      have := h.header _ hr'
      omega
    refine ⟨b₁, [o + objSize], b₂, rfl, ?_⟩
    simp only [hsplit, decide_true, if_true]
    have hothers : ∀ b ∈ b₁ ++ b₂, ∀ o₁ o₂ : Object,
        ((rt.mem.set (o + objSize) o₁).set o o₂) b = rt.mem b := by
      intro b hb o₁ o₂
      have hbo : b ≠ o := fun heq => hnot (heq ▸ hb)
      have hbr : b ≠ o + objSize := fun heq => hrest (heq ▸ hb)
      rw [Mem.set_other _ _ hbo, Mem.set_other _ _ hbr]
    refine ⟨rfl, rfl, hfree, ?_, ⟨objSize, le_rfl, Mem.set_same ..⟩, ?_, le_rfl,
      fun b hb => hothers b hb _ _, ?_, rfl, ?_⟩
    · refine h.tiles.split (by omega) (by omega) (by simp [Mem.sizes]) ?_ (fun b hb => ?_)
      · simp [Mem.sizes, Mem.set_other _ _ hne]
      · simp only [Mem.sizes, hothers b hb]
    · intro r hr
      rw [List.mem_singleton] at hr
      subst hr
      simpa [Mem.sizes, Mem.set_other _ _ hne, Object.isFree] using hsplit
    · exact (List.perm_append_comm).trans (hrestList.append_left _)
    · simp [Mem.sizes]
  · -- the remainder stays part of the object
    refine ⟨b₁, [], b₂, rfl, ?_⟩
    simp only [hsplit, decide_false, Bool.false_eq_true, if_false]
    have hothers : ∀ b ∈ b₁ ++ b₂, ∀ o₂ : Object, (rt.mem.set o o₂) b = rt.mem b :=
      fun b hb o₂ => Mem.set_other _ _ (fun hbo => hnot (hbo ▸ hb))
    refine ⟨rfl, rfl, hfree, ?_, ⟨_, Nat.le_add_right _ _, Mem.set_same ..⟩, by simp,
      Nat.zero_le _, fun b hb => hothers b hb _, hrestList, rfl, ?_⟩
    · refine h.tiles.congr (fun b hb => ?_)
      by_cases hbo : b = o
      · subst hbo
        simp only [Mem.sizes, Mem.set_same]
        omega
      · simp only [Mem.sizes, Mem.set_other _ _ hbo]
    · simp [Mem.sizes]

section
variable {rt rt' : Runtime} {clazz : Word} {objSize obj : ℕ} {b₁ tail b₂ : List ℕ}

theorem Taken.isFree_obj (h : Taken rt rt' clazz objSize obj b₁ tail b₂) :
    (rt'.mem obj).isFree = false := by
  obtain ⟨size, _, hobj⟩ := h.object
  rw [hobj]
  rfl

theorem Taken.le_size (h : Taken rt rt' clazz objSize obj b₁ tail b₂) :
    objSize ≤ rt'.mem.sizes obj := by
  obtain ⟨size, hle, hobj⟩ := h.object
  simpa only [Mem.sizes, hobj] using hle

theorem Taken.isFree_others (h : Taken rt rt' clazz objSize obj b₁ tail b₂) {b : ℕ}
    (hb : b ∈ b₁ ++ b₂) : (rt'.mem b).isFree = (rt.mem b).isFree := by
  rw [h.others b hb]

theorem Taken.freeBlocks (h : Taken rt rt' clazz objSize obj b₁ tail b₂) :
    rt'.mem.freeBlocks (b₁ ++ obj :: (tail ++ b₂)) =
      rt.mem.freeBlocks b₁ ++ (tail ++ rt.mem.freeBlocks b₂) := by
  have h1 : rt'.mem.freeBlocks b₁ = rt.mem.freeBlocks b₁ :=
    Mem.freeBlocks_congr (fun b hb => h.isFree_others (List.mem_append_left _ hb))
  have h2 : rt'.mem.freeBlocks b₂ = rt.mem.freeBlocks b₂ :=
    Mem.freeBlocks_congr (fun b hb => h.isFree_others (List.mem_append_right _ hb))
  have h3 : rt'.mem.freeBlocks tail = tail :=
    List.filter_eq_self.2 (fun r hr => (h.tail_free r hr).1)
  unfold Mem.freeBlocks at h1 h2 h3 ⊢
  simp only [List.filter_append, List.filter_cons, h.isFree_obj, h1, h2, h3]
  rfl

theorem Taken.allocatedBlocks (h : Taken rt rt' clazz objSize obj b₁ tail b₂) :
    rt'.mem.allocatedBlocks (b₁ ++ obj :: (tail ++ b₂)) =
      rt.mem.allocatedBlocks b₁ ++ obj :: rt.mem.allocatedBlocks b₂ := by
  have h1 : rt'.mem.allocatedBlocks b₁ = rt.mem.allocatedBlocks b₁ :=
    Mem.allocatedBlocks_congr (fun b hb => h.isFree_others (List.mem_append_left _ hb))
  have h2 : rt'.mem.allocatedBlocks b₂ = rt.mem.allocatedBlocks b₂ :=
    Mem.allocatedBlocks_congr (fun b hb => h.isFree_others (List.mem_append_right _ hb))
  have h3 : rt'.mem.allocatedBlocks tail = [] :=
    List.filter_eq_nil_iff.2 (fun r hr => by simp [(h.tail_free r hr).1])
  unfold Mem.allocatedBlocks at h1 h2 h3 ⊢
  simp [h.isFree_obj, h1, h2, h3]

theorem Taken.mem_allocatedBlocks (h : Taken rt rt' clazz objSize obj b₁ tail b₂) {b : ℕ} :
    b ∈ rt'.mem.allocatedBlocks (b₁ ++ obj :: (tail ++ b₂)) ↔
      b = obj ∨ b ∈ rt.mem.allocatedBlocks (b₁ ++ obj :: b₂) := by
  rw [h.allocatedBlocks]
  simp only [Mem.allocatedBlocks, List.filter_append, List.filter_cons, h.found, List.mem_append,
    List.mem_cons, Bool.not_true, Bool.false_eq_true, if_false]
  tauto

/-- Sizes and number of the allocated blocks. -/
theorem Taken.counted (h : Taken rt rt' clazz objSize obj b₁ tail b₂)
    (hcount : Counted rt (b₁ ++ obj :: b₂)) : Counted rt' (b₁ ++ obj :: (tail ++ b₂)) := by
  have hold : rt.mem.allocatedBlocks (b₁ ++ obj :: b₂) =
      rt.mem.allocatedBlocks b₁ ++ rt.mem.allocatedBlocks b₂ := by
    simp [Mem.allocatedBlocks, h.found]
  have hsizes : ∀ l ⊆ b₁ ++ b₂, (rt.mem.allocatedBlocks l).map rt'.mem.sizes =
      (rt.mem.allocatedBlocks l).map rt.mem.sizes := by
    intro l hl
    refine List.map_congr_left (fun b hb => ?_)
    simp only [Mem.sizes, h.others b (hl (Mem.mem_allocatedBlocks.1 hb).1)]
  have h1 := hsizes b₁ (List.subset_append_left ..)
  have h2 := hsizes b₂ (List.subset_append_right ..)
  constructor
  · rw [h.objects, hcount.objects, hold, h.allocatedBlocks]
    simp only [List.length_append, List.length_cons]
    omega
  · rw [h.bytes, hcount.bytes, hold, h.allocatedBlocks]
    simp only [List.map_append, List.map_cons, List.sum_append, List.sum_cons, h1, h2]
    omega

/-- The remainder is not next to a free block: what follows the block that was found is
    allocated. -/
theorem Taken.separated (h : Taken rt rt' clazz objSize obj b₁ tail b₂)
    (hsep : rt.mem.NoFreeNeighbours (b₁ ++ obj :: b₂)) :
    rt'.mem.NoFreeNeighbours (b₁ ++ obj :: (tail ++ b₂)) := by
  obtain ⟨hbefore, hbehind⟩ := List.isChain_split.1 hsep
  have hobj := h.isFree_obj
  have hanti : ∀ b ∈ b₁ ++ obj :: b₂, (rt'.mem b).isFree = true → (rt.mem b).isFree = true := by
    intro b hb hfree
    rw [List.mem_append, List.mem_cons] at hb
    rcases hb with hb | hb | hb
    · rw [← h.isFree_others (List.mem_append_left _ hb)]; exact hfree
    · rw [hb]; exact h.found
    · rw [← h.isFree_others (List.mem_append_right _ hb)]; exact hfree
  refine List.isChain_split.2 ⟨?_, ?_⟩
  · refine hbefore.imp_of_mem_imp (fun x y hx hy hxy hfree => hxy ?_)
    have hsub : ∀ z ∈ b₁ ++ [obj], z ∈ b₁ ++ obj :: b₂ := by
      intro z hz
      simp only [List.mem_append, List.mem_cons, List.not_mem_nil, or_false] at hz ⊢
      tauto
    exact ⟨hanti x (hsub x hx) hfree.1, hanti y (hsub y hy) hfree.2⟩
  · -- the blocks behind, and whether their first one is free
    have hchain : (obj :: b₂).IsChain
        (fun x y => ¬((rt'.mem x).isFree = true ∧ (rt'.mem y).isFree = true)) := by
      refine hbehind.imp_of_mem_imp (fun x y hx hy hxy hfree => hxy ?_)
      exact ⟨hanti x (List.mem_append_right _ hx) hfree.1,
        hanti y (List.mem_append_right _ hy) hfree.2⟩
    rcases tail with _ | ⟨r, _ | ⟨r', l⟩⟩
    · exact hchain
    · refine List.IsChain.cons_cons (by simp [hobj]) ?_
      cases b₂ with
      | nil => exact List.IsChain.singleton r
      | cons c b₂ =>
          have hc : (rt.mem c).isFree = false := by
            have := (List.isChain_cons_cons.1 hbehind).1
            simpa [h.found] using this
          have hc' : (rt'.mem c).isFree = false := by
            rw [h.isFree_others (by simp)]; exact hc
          exact List.IsChain.cons_cons (by simp [hc']) (List.isChain_cons_cons.1 hchain).2
    · have := h.tail_length
      simp at this

theorem Taken.arenaInv (h : Taken rt rt' clazz objSize obj b₁ tail b₂)
    (hsize : sizeofObject ≤ objSize) (hinv : ArenaInv rt (b₁ ++ obj :: b₂)) :
    ArenaInv rt' (b₁ ++ obj :: (tail ++ b₂)) where
  start_pos := h.start ▸ hinv.start_pos
  tiles := by rw [h.start, h.arenaSize]; exact h.tiles
  header := by
    intro b hb
    simp only [List.mem_append, List.mem_cons] at hb
    rcases hb with hb | rfl | hb | hb
    · rw [Mem.sizes, h.others b (List.mem_append_left _ hb)]
      exact hinv.header b (List.mem_append_left _ hb)
    · exact le_trans hsize h.le_size
    · exact le_of_lt (h.tail_free b hb).2
    · rw [Mem.sizes, h.others b (List.mem_append_right _ hb)]
      exact hinv.header b (List.mem_append_right _ (List.mem_cons_of_mem _ hb))
  freeList := by
    rw [h.freeBlocks]
    refine h.freeList.trans ?_
    have hsplit : rt.mem.freeBlocks (b₁ ++ b₂) = rt.mem.freeBlocks b₁ ++ rt.mem.freeBlocks b₂ := by
      simp [Mem.freeBlocks]
    rw [hsplit, ← List.append_assoc, ← List.append_assoc]
    exact List.perm_append_comm.append_right _
  separated := h.separated hinv.separated
  counted := h.counted hinv.counted

end

/-! ## Whole calls -/

/-- The collector must keep the object at `b`: it is pinned, or reachable from the roots. -/
def Runtime.Live (rt : Runtime) (roots : Roots) (b : ℕ) : Prop :=
  (rt.mem b).gcMark = gcExternal ∨ ∃ vs, roots.values = some vs ∧ b ∈ reachableFrom rt rt.mem vs

/-- The class, the size and the values of `b` are the same. -/
def Unchanged (rt rt' : Runtime) (b : ℕ) : Prop :=
  (rt'.mem b).clazz = (rt.mem b).clazz ∧ (rt'.mem b).size = (rt.mem b).size ∧
    (rt'.mem b).values = (rt.mem b).values

/-- A collection keeps the invariant and the live objects, and changes no object that it keeps. -/
theorem gc_arenaInv {rt rt' : Runtime} {blocks : List ℕ} (h : ArenaInv rt blocks) {fuel : ℕ}
    {roots : Roots} {now : Word} {force : Bool} (hgc : gc fuel roots now force rt = some rt') :
    ∃ blocks', ArenaInv rt' blocks' ∧
      (∀ b ∈ rt'.mem.allocatedBlocks blocks', b ∈ rt.mem.allocatedBlocks blocks ∧
        Unchanged rt rt' b) ∧
      (∀ b ∈ rt.mem.allocatedBlocks blocks, rt.Live roots b →
        b ∈ rt'.mem.allocatedBlocks blocks') := by
  rcases gc_cases h.toArena hgc with rfl | ⟨vs, blocks', hvs, hcol⟩
  · exact ⟨blocks, h, fun b hb => ⟨hb, rfl, rfl, rfl⟩, fun b hb _ => hb⟩
  · refine ⟨blocks', ⟨hcol.arena, hcol.separated h.separated, hcol.counted⟩,
      fun b hb => ⟨(hcol.mem_allocated.1 hb).1, hcol.unchanged hb⟩, ?_⟩
    rintro b hb (hx | ⟨vs', hvs', hreach⟩)
    · exact hcol.of_external hb hx
    · rw [hvs] at hvs'
      exact hcol.of_reachable hb (Option.some.inj hvs' ▸ hreach)

/-- What `allocateObject` promises for a request of `n` slots: the new object, and what becomes of
    the objects that were there. -/
structure Allocated (rt rt' : Runtime) (roots : Roots) (clazz : Word) (n obj : ℕ)
    (blocks blocks' : List ℕ) : Prop where
  allocated : obj ∈ rt'.mem.allocatedBlocks blocks'
  clazz_eq : (rt'.mem obj).clazz = some clazz
  size_le : sizeofObject + n * sizeofValue ≤ (rt'.mem obj).size
  zeroed : ∀ i, (rt'.mem obj).values i = Value.zero
  others : ∀ b ∈ rt'.mem.allocatedBlocks blocks', b ≠ obj →
    b ∈ rt.mem.allocatedBlocks blocks ∧ Unchanged rt rt' b ∧
      (b + (rt'.mem b).size ≤ obj ∨ obj + (rt'.mem obj).size ≤ b)
  kept : ∀ b ∈ rt.mem.allocatedBlocks blocks, (rt.needsGc = true → rt.Live roots b) →
    b ∈ rt'.mem.allocatedBlocks blocks' ∧ b ≠ obj

theorem allocateObject_spec {rt rt' : Runtime} {blocks : List ℕ} (h : ArenaInv rt blocks)
    {fuel : ℕ} {roots : Roots} {now clazz : Word} {fieldCount extraValues obj : ℕ}
    (hsize : sizeofObject + (fieldCount + extraValues) * sizeofValue < 2 ^ 32)
    (halloc : allocateObject fuel roots now clazz fieldCount extraValues rt = some (rt', obj)) :
    ∃ blocks', ArenaInv rt' blocks' ∧
      Allocated rt rt' roots clazz (fieldCount + extraValues) obj blocks blocks' := by
  obtain ⟨rt₁, hrt₁, htake⟩ : ∃ rt₁, rt.checkSpace fuel roots now = some rt₁ ∧
      rt₁.takeObject clazz (objectSize (fieldCount + extraValues)) = some (rt', obj) :=
    Option.bind_eq_some_iff.1 halloc
  -- the collection that the space check may have started
  have hgc : ∃ blocks₁, ArenaInv rt₁ blocks₁ ∧
      (∀ b ∈ rt₁.mem.allocatedBlocks blocks₁, b ∈ rt.mem.allocatedBlocks blocks ∧
        Unchanged rt rt₁ b) ∧
      (∀ b ∈ rt.mem.allocatedBlocks blocks, (rt.needsGc = true → rt.Live roots b) →
        b ∈ rt₁.mem.allocatedBlocks blocks₁) := by
    unfold Runtime.checkSpace at hrt₁
    split at hrt₁
    · next hneeds =>
        obtain ⟨blocks₁, hinv, hold, hlive⟩ := gc_arenaInv h hrt₁
        exact ⟨blocks₁, hinv, hold, fun b hb hb' => hlive b hb (hb' hneeds)⟩
    · obtain rfl := Option.some.inj hrt₁
      exact ⟨blocks, h, fun b hb => ⟨hb, rfl, rfl, rfl⟩, fun b hb _ => hb⟩
  obtain ⟨blocks₁, hinv, hold, hkept⟩ := hgc
  have hrequest : objectSize (fieldCount + extraValues) =
      sizeofObject + (fieldCount + extraValues) * sizeofValue := Nat.mod_eq_of_lt hsize
  have hheader : sizeofObject ≤ objectSize (fieldCount + extraValues) :=
    hrequest ▸ Nat.le_add_right _ _
  obtain ⟨b₁, tail, b₂, rfl, htaken⟩ := takeObject_cases hinv.toArena (Nat.lt_of_lt_of_le (by decide) hheader) htake
  have hinv' := htaken.arenaInv hheader hinv
  have hobj : obj ∈ rt'.mem.allocatedBlocks (b₁ ++ obj :: (tail ++ b₂)) :=
    htaken.mem_allocatedBlocks.2 (Or.inl rfl)
  have hnotOld : ∀ b ∈ rt₁.mem.allocatedBlocks (b₁ ++ obj :: b₂), b ≠ obj := by
    rintro b hb rfl
    have := (Mem.mem_allocatedBlocks.1 hb).2
    rw [htaken.found] at this
    cases this
  obtain ⟨size, hle, heq⟩ := htaken.object
  refine ⟨_, hinv', hobj, by rw [heq], ?_, fun i => by rw [heq]; rfl, fun b hb hne => ?_,
    fun b hb hlive => ?_⟩
  · rw [heq, ← hrequest]
    exact hle
  · have hb₁ := (htaken.mem_allocatedBlocks.1 hb).resolve_left hne
    obtain ⟨hb₀, hclazz, hsz, hvalues⟩ := hold b hb₁
    have hbs : b ∈ b₁ ++ b₂ := by
      have := (Mem.mem_allocatedBlocks.1 hb₁).1
      simp only [List.mem_append, List.mem_cons] at this ⊢
      tauto
    have hsame := htaken.others b hbs
    refine ⟨hb₀, ⟨?_, ?_, ?_⟩, ?_⟩
    · rw [hsame, hclazz]
    · rw [hsame, hsz]
    · rw [hsame, hvalues]
    · exact hinv'.tiles.disjoint (Mem.mem_allocatedBlocks.1 hb).1
        (Mem.mem_allocatedBlocks.1 hobj).1 hne
  · have hb₁ := hkept b hb hlive
    exact ⟨htaken.mem_allocatedBlocks.2 (Or.inr hb₁), hnotOld b hb₁⟩

/-! ## Runs -/

/-- The runtimes that the calls of `allocateObject` and `gc` lead to from the initial arena, in any
    order and with any roots. In between, the program may write to its objects: their slots, and
    their mark when it pins or unpins them. -/
inductive ArenaRun : Runtime → Prop
  | init {start : ℕ} : 0 < start → ArenaRun (Runtime.init start)
  | allocate {rt rt' : Runtime} {fuel : ℕ} {roots : Roots} {now clazz : Word}
      {fieldCount extraValues obj : ℕ} : ArenaRun rt →
      sizeofObject + (fieldCount + extraValues) * sizeofValue < 2 ^ 32 →
      allocateObject fuel roots now clazz fieldCount extraValues rt = some (rt', obj) → ArenaRun rt'
  | gc {rt rt' : Runtime} {fuel : ℕ} {roots : Roots} {now : Word} {force : Bool} : ArenaRun rt →
      gc fuel roots now force rt = some rt' → ArenaRun rt'
  | write {rt : Runtime} {b : ℕ} {values : ℕ → Value} {gcMark : Word} : ArenaRun rt →
      (rt.mem b).isFree = false →
      ArenaRun { rt with
        mem := rt.mem.set b { rt.mem b with values := values, gcMark := gcMark } }

theorem arenaInv_init {start : ℕ} (h : 0 < start) : ArenaInv (Runtime.init start) [start] := by
  have hsize : (Runtime.init start).mem.sizes start = 16 * 1024 * 1024 := by
    simp [Runtime.init, Mem.sizes]
  have hfree : ((Runtime.init start).mem start).isFree = true := by
    simp [Runtime.init, Object.isFree, Object.zeroed]
  have hfrees : (Runtime.init start).mem.freeBlocks [start] = [start] := by
    simp [Mem.freeBlocks, hfree]
  have hallocs : (Runtime.init start).mem.allocatedBlocks [start] = [] := by
    simp [Mem.allocatedBlocks, hfree]
  refine ⟨⟨h, ?_, fun b hb => ?_, ?_⟩, List.IsChain.singleton start, ⟨?_, ?_⟩⟩
  · change start = start ∧ 0 < (Runtime.init start).mem.sizes start ∧
      start + (Runtime.init start).mem.sizes start = start + 16 * 1024 * 1024
    rw [hsize]
    exact ⟨rfl, by decide, rfl⟩
  · rw [List.mem_singleton.1 hb, hsize]
    decide
  · rw [hfrees]
    exact List.Perm.refl _
  · rw [hallocs]; rfl
  · rw [hallocs]; rfl

theorem ArenaInv.write {rt : Runtime} {blocks : List ℕ} (h : ArenaInv rt blocks) (b : ℕ)
    (values : ℕ → Value) (gcMark : Word) :
    ArenaInv { rt with
      mem := rt.mem.set b { rt.mem b with values := values, gcMark := gcMark } } blocks := by
  have hfree : ∀ a, (rt.mem.set b { rt.mem b with values := values, gcMark := gcMark } a).isFree =
      (rt.mem a).isFree := by
    intro a
    by_cases hab : a = b
    · rw [hab, Mem.set_same]; rfl
    · rw [Mem.set_other _ _ hab]
  have hsizes : (rt.mem.set b { rt.mem b with values := values, gcMark := gcMark }).sizes =
      rt.mem.sizes := by
    funext a
    by_cases hab : a = b
    · rw [Mem.sizes, hab, Mem.set_same]; rfl
    · rw [Mem.sizes, Mem.set_other _ _ hab]; rfl
  have halloc : Mem.allocatedBlocks
      (rt.mem.set b { rt.mem b with values := values, gcMark := gcMark }) blocks =
        rt.mem.allocatedBlocks blocks := Mem.allocatedBlocks_congr (fun a _ => hfree a)
  refine ⟨⟨h.start_pos, ?_, ?_, ?_⟩,
    Mem.noFreeNeighbours_congr (fun a _ => hfree a) h.separated, ⟨?_, ?_⟩⟩
  · rw [hsizes]; exact h.tiles
  · rw [hsizes]; exact h.header
  · rw [Mem.freeBlocks_congr (fun a _ => hfree a)]; exact h.freeList
  · rw [halloc]; exact h.counted.objects
  · rw [halloc, hsizes]; exact h.counted.bytes

theorem ArenaRun.arenaInv {rt : Runtime} (h : ArenaRun rt) : ∃ blocks, ArenaInv rt blocks := by
  induction h with
  | init hstart => exact ⟨_, arenaInv_init hstart⟩
  | allocate _ hsize halloc ih =>
      obtain ⟨blocks, hinv⟩ := ih
      obtain ⟨blocks', hinv', _⟩ := allocateObject_spec hinv hsize halloc
      exact ⟨blocks', hinv'⟩
  | gc _ hgc ih =>
      obtain ⟨blocks, hinv⟩ := ih
      obtain ⟨blocks', hinv', _⟩ := gc_arenaInv hinv hgc
      exact ⟨blocks', hinv'⟩
  | write _ _ ih =>
      obtain ⟨blocks, hinv⟩ := ih
      exact ⟨blocks, hinv.write _ _ _⟩

/-- **The arena stays in order.** After any run there is a tiling of the arena with the invariant,
    and the next `allocateObject` that finds a block keeps its promises. -/
theorem arenaRun_inv {rt : Runtime} (h : ArenaRun rt) :
    ∃ blocks, ArenaInv rt blocks ∧
      ∀ (fuel : ℕ) (roots : Roots) (now clazz : Word) (fieldCount extraValues : ℕ) (rt' : Runtime)
        (obj : ℕ), sizeofObject + (fieldCount + extraValues) * sizeofValue < 2 ^ 32 →
        allocateObject fuel roots now clazz fieldCount extraValues rt = some (rt', obj) →
        ∃ blocks', ArenaInv rt' blocks' ∧
          Allocated rt rt' roots clazz (fieldCount + extraValues) obj blocks blocks' := by
  obtain ⟨blocks, hinv⟩ := h.arenaInv
  exact ⟨blocks, hinv, fun _ _ _ _ _ _ _ _ hsize halloc => allocateObject_spec hinv hsize halloc⟩

theorem arenaRun_inv_init :
    ∃ rt obj blocks, allocateObject 0 ⟨[], [], fun _ => []⟩ 0 5 2 0 (Runtime.init 4096) =
      some (rt, obj) ∧ ArenaInv rt blocks ∧ obj ∈ rt.mem.allocatedBlocks blocks := by
  obtain ⟨_, _, hnext⟩ := arenaRun_inv (ArenaRun.init (by decide : 0 < 4096))
  obtain ⟨blocks, hinv, halloc⟩ := hnext 0 ⟨[], [], fun _ => []⟩ 0 5 2 0 _ _ (by decide) rfl
  exact ⟨_, _, blocks, rfl, hinv, halloc.allocated⟩

end B0rk
