import B0rk.Runtime.Proofs.Sweep
import Mathlib.Data.List.Chain

set_option autoImplicit false

/-! # What coalescing does

Every round of the `while (changed)` loop joins two neighbouring free blocks, so the loop ends, and
when it ends no two free blocks are neighbours: `coalesce_spec`. The list it works on is kept equal
to the free blocks in the order of the walk. -/

namespace B0rk

open Tiling

/-- The free blocks, in the order of the walk. -/
def Mem.freeBlocks (mem : Mem) (blocks : List ℕ) : List ℕ :=
  blocks.filter (fun b => (mem b).isFree)

/-- The allocated blocks, in the order of the walk. -/
def Mem.allocatedBlocks (mem : Mem) (blocks : List ℕ) : List ℕ :=
  blocks.filter (fun b => !(mem b).isFree)

/-- No block is free together with the next one. -/
def Mem.NoFreeNeighbours (mem : Mem) (blocks : List ℕ) : Prop :=
  blocks.IsChain (fun x y => ¬((mem x).isFree = true ∧ (mem y).isFree = true))

/-- `prevFreeObj->m_size += freeObj->m_size`. -/
def Mem.merged (mem : Mem) (x y : ℕ) : Mem :=
  mem.set x { mem x with size := (mem x).size + (mem y).size }

section
variable {mem : Mem} {x y a : ℕ}

theorem Mem.merged_other (h : a ≠ x) : mem.merged x y a = mem a := Mem.set_other _ _ h

@[simp]
theorem Mem.merged_clazz : (mem.merged x y a).clazz = (mem a).clazz := by
  by_cases h : a = x
  · subst h; simp [Mem.merged]
  · rw [Mem.merged_other h]

@[simp]
theorem Mem.merged_isFree : (mem.merged x y a).isFree = (mem a).isFree := by
  simp [Object.isFree]

theorem Mem.merged_sizes_same : (mem.merged x y).sizes x = mem.sizes x + mem.sizes y := by
  simp [Mem.merged, Mem.sizes]

theorem Mem.merged_sizes_other (h : a ≠ x) : (mem.merged x y).sizes a = mem.sizes a := by
  simp [Mem.sizes, Mem.merged_other h]

end

/-! ## One round -/

theorem coalesceStep_some {mem mem' : Mem} {l l' : List ℕ} {prev : ℕ}
    (h : coalesceStep mem prev (prev + mem.sizes prev) l = some (mem', l')) :
    ∃ l₁ x y l₂, prev :: l = l₁ ++ x :: y :: l₂ ∧ y = x + mem.sizes x ∧
      mem' = mem.merged x y ∧ prev :: l' = l₁ ++ x :: l₂ := by
  induction l generalizing prev l' with
  | nil => simp [coalesceStep] at h
  | cons obj rest ih =>
      unfold coalesceStep at h
      split at h
      · next heq =>
          obtain ⟨rfl, rfl⟩ := Prod.mk.inj (Option.some.inj h)
          exact ⟨[], prev, obj, rest, rfl, heq, rfl, rfl⟩
      · split at h
        · next m r hrest =>
            obtain ⟨rfl, rfl⟩ := Prod.mk.inj (Option.some.inj h)
            obtain ⟨l₁, x, y, l₂, h1, h2, h3, h4⟩ := ih hrest
            exact ⟨prev :: l₁, x, y, l₂, by rw [h1]; rfl, h2, h3, by rw [h4]; rfl⟩
        · cases h

theorem coalesceStep_none {mem : Mem} {l : List ℕ} {prev : ℕ}
    (h : coalesceStep mem prev (prev + mem.sizes prev) l = none) :
    (prev :: l).IsChain (fun x y => y ≠ x + mem.sizes x) := by
  induction l generalizing prev with
  | nil => exact List.IsChain.singleton prev
  | cons obj rest ih =>
      unfold coalesceStep at h
      split at h
      · cases h
      · next hne =>
          split at h
          · cases h
          · next hrest => exact List.IsChain.cons_cons hne (ih hrest)

/-- The first free block of the list never starts at `prevFreeObjEnd`, which is still `0`. -/
theorem coalesceStep_head {mem : Mem} {l : List ℕ} {obj : ℕ} (h : obj ≠ 0) :
    coalesceStep mem 0 0 (obj :: l) =
      match coalesceStep mem obj (obj + mem.sizes obj) l with
      | some (mem', l') => some (mem', obj :: l')
      | none => none := by
  rw [coalesceStep, if_neg h]
  rfl

/-! ## The whole loop -/

/-- Some of the free `blocks` of `mem` have been joined. -/
structure Coalesced (mem mem' : Mem) (blocks blocks' : List ℕ) : Prop where
  subset : ∀ x ∈ blocks', x ∈ blocks
  grows : ∀ x, mem.sizes x ≤ mem'.sizes x
  clazz : ∀ x, (mem' x).clazz = (mem x).clazz
  kept : ∀ x, (mem x).isFree = false → mem' x = mem x
  allocated : mem'.allocatedBlocks blocks' = mem.allocatedBlocks blocks

theorem Coalesced.refl (mem : Mem) (blocks : List ℕ) : Coalesced mem mem blocks blocks :=
  ⟨fun _ hx => hx, fun _ => le_rfl, fun _ => rfl, fun _ _ => rfl, rfl⟩

theorem Coalesced.isFree {mem mem' : Mem} {blocks blocks' : List ℕ}
    (h : Coalesced mem mem' blocks blocks') (x : ℕ) : (mem' x).isFree = (mem x).isFree := by
  simp only [Object.isFree, h.clazz x]

theorem Coalesced.trans {mem mem₁ mem₂ : Mem} {blocks blocks₁ blocks₂ : List ℕ}
    (h1 : Coalesced mem mem₁ blocks blocks₁) (h2 : Coalesced mem₁ mem₂ blocks₁ blocks₂) :
    Coalesced mem mem₂ blocks blocks₂ where
  subset x hx := h1.subset x (h2.subset x hx)
  grows x := le_trans (h1.grows x) (h2.grows x)
  clazz x := (h2.clazz x).trans (h1.clazz x)
  kept x hx := (h2.kept x ((h1.isFree x).trans hx)).trans (h1.kept x hx)
  allocated := h2.allocated.trans h1.allocated

/-- Joining the free block `y` to the free block `x` before it. -/
theorem Coalesced.merged {mem : Mem} {b₁ b₂ : List ℕ} {x y : ℕ}
    (hx : (mem x).isFree = true) (hy : (mem y).isFree = true) :
    Coalesced mem (mem.merged x y) (b₁ ++ x :: y :: b₂) (b₁ ++ x :: b₂) where
  subset z hz := by
    simp only [List.mem_append, List.mem_cons] at hz ⊢
    tauto
  grows z := by
    by_cases hz : z = x
    · subst hz; rw [Mem.merged_sizes_same]; omega
    · rw [Mem.merged_sizes_other hz]
  clazz z := Mem.merged_clazz
  kept z hz := Mem.merged_other (fun h => by rw [h, hx] at hz; cases hz)
  allocated := by simp [Mem.allocatedBlocks, hx, hy]

/-- In the free list, a block that ends where another one begins is directly before it. -/
theorem noFreeNeighbours_of_isChain {mem : Mem} {a b : ℕ} {blocks : List ℕ}
    (htiles : Tiles mem.sizes a b blocks)
    (h : (mem.freeBlocks blocks).IsChain (fun x y => y ≠ x + mem.sizes x)) :
    mem.NoFreeNeighbours blocks := by
  refine List.isChain_iff_forall_rel_of_append_cons_cons.2 ?_
  rintro x y l₁ l₂ rfl ⟨hx, hy⟩
  obtain ⟨m, _, rfl, _, rfl, _⟩ := tiles_append.1 htiles
  have hfree : mem.freeBlocks (l₁ ++ x :: (x + mem.sizes x) :: l₂) =
      mem.freeBlocks l₁ ++ x :: (x + mem.sizes x) :: mem.freeBlocks l₂ := by
    simp [Mem.freeBlocks, hx, hy]
  exact List.isChain_iff_forall_rel_of_append_cons_cons.1 h hfree rfl

/-- **The coalescing loop ends, and then no two free blocks are neighbours.** -/
theorem coalesce_spec {a b : ℕ} (ha : 0 < a) :
    ∀ (fuel : ℕ) (mem : Mem) (blocks : List ℕ), Tiles mem.sizes a b blocks →
      (mem.freeBlocks blocks).length < fuel →
      ∃ mem' blocks', coalesce fuel mem (mem.freeBlocks blocks) =
          some (mem', mem'.freeBlocks blocks') ∧
        Tiles mem'.sizes a b blocks' ∧ Coalesced mem mem' blocks blocks' ∧
        mem'.NoFreeNeighbours blocks' := by
  intro fuel
  induction fuel with
  | zero => intro mem blocks _ hfuel; omega
  | succ fuel ih =>
      intro mem blocks htiles hfuel
      have hfree : ∀ z ∈ mem.freeBlocks blocks, z ∈ blocks ∧ (mem z).isFree = true :=
        fun z hz => List.mem_filter.1 hz
      -- nothing is joined to the null pointer that `prevFreeObj` is initially
      have hround : (∃ l₁ x y l₂, mem.freeBlocks blocks = l₁ ++ x :: y :: l₂ ∧
            y = x + mem.sizes x ∧
            coalesceStep mem 0 0 (mem.freeBlocks blocks) =
              some (mem.merged x y, l₁ ++ x :: l₂)) ∨
          (coalesceStep mem 0 0 (mem.freeBlocks blocks) = none ∧
            (mem.freeBlocks blocks).IsChain (fun x y => y ≠ x + mem.sizes x)) := by
        cases hl : mem.freeBlocks blocks with
        | nil => exact Or.inr ⟨rfl, List.IsChain.nil⟩
        | cons obj l =>
            have hobj : obj ≠ 0 := by
              have := (htiles.mem_bounds (hfree obj (hl ▸ List.mem_cons_self ..)).1).1
              omega
            rw [coalesceStep_head hobj]
            cases hstep : coalesceStep mem obj (obj + mem.sizes obj) l with
            | none => exact Or.inr ⟨rfl, coalesceStep_none hstep⟩
            | some r =>
                obtain ⟨m, l'⟩ := r
                obtain ⟨l₁, x, y, l₂, h1, h2, h3, h4⟩ := coalesceStep_some hstep
                exact Or.inl ⟨l₁, x, y, l₂, h1, h2, by rw [← h4, ← h3]⟩
      rcases hround with ⟨l₁, x, y, l₂, hl, hxy, hstep⟩ | ⟨hstep, hchain⟩
      · obtain ⟨hx, hfx⟩ := hfree x (by simp [hl])
        obtain ⟨hy, hfy⟩ := hfree y (by simp [hl])
        obtain ⟨b₁, b₂, rfl⟩ := htiles.next hx hy hxy.symm
        have hnodup := htiles.nodup
        -- the list that the round leaves is again the list of the free blocks
        have hrest : l₁ ++ x :: l₂ = (mem.merged x y).freeBlocks (b₁ ++ x :: b₂) := by
          have heq : mem.freeBlocks b₁ ++ x :: y :: mem.freeBlocks b₂ = l₁ ++ x :: y :: l₂ := by
            rw [← hl]
            simp [Mem.freeBlocks, hfx, hfy]
          have hnot := (List.nodup_cons.1 (List.nodup_middle.1 hnodup)).1
          have hx1 : x ∉ mem.freeBlocks b₁ := fun h =>
            hnot (List.mem_append_left _ (List.mem_filter.1 h).1)
          have hx2 : x ∉ y :: mem.freeBlocks b₂ := fun h => by
            refine hnot (List.mem_append_right _ (List.mem_cons.2 ?_))
            exact (List.mem_cons.1 h).imp_right (fun h => (List.mem_filter.1 h).1)
          obtain ⟨h1, _, h2⟩ := (List.append_cons_inj_of_notMem hx1 hx2).1 heq
          rw [← h1, ← (List.cons.inj h2).2]
          simp [Mem.freeBlocks, hfx]
        have htiles' : Tiles (mem.merged x y).sizes a b (b₁ ++ x :: b₂) := by
          refine htiles.merge Mem.merged_sizes_same (fun z hz => Mem.merged_sizes_other ?_)
          rintro rfl
          have := List.nodup_middle.1 hnodup
          exact (List.nodup_cons.1 this).1 (by
            simp only [List.mem_append, List.mem_cons] at hz ⊢; tauto)
        have hlen : (l₁ ++ x :: l₂).length < fuel := by
          have : (mem.freeBlocks (b₁ ++ x :: y :: b₂)).length =
              (l₁ ++ x :: l₂).length + 1 := by rw [hl]; simp; omega
          omega
        obtain ⟨mem', blocks', h1, h2, h3, h4⟩ := ih (mem.merged x y) (b₁ ++ x :: b₂) htiles'
          (hrest ▸ hlen)
        refine ⟨mem', blocks', ?_, h2, (Coalesced.merged hfx hfy).trans h3, h4⟩
        rw [coalesce, hstep, hrest]
        exact h1
      · refine ⟨mem, blocks, ?_, htiles, Coalesced.refl mem blocks,
          noFreeNeighbours_of_isChain htiles hchain⟩
        rw [coalesce, hstep]

end B0rk
