import B0rk.Runtime.Gc
import B0rk.Lib.Tiling

set_option autoImplicit false

/-! # What the sweep does

The loop of `gcArena` that walks over the blocks of a tiled arena has the effect of `Runtime.swept`
with the list of all blocks: `sweep_eq`. Sizes are not changed on the way, so the walk does not get
lost. -/

namespace B0rk

open Tiling

/-- The block sizes, as the walks over the arena read them. -/
def Mem.sizes (mem : Mem) : ℕ → ℕ := fun a => (mem a).size

/-- `m_class == NULL`. -/
def Object.isFree (o : Object) : Bool := o.clazz.isNone

/-- An allocated object without a current mark: the sweep frees it. -/
def Object.isGarbage (mark : Word) (o : Object) : Bool :=
  !o.isFree && !(decide (o.gcMark = mark) || decide (o.gcMark = gcExternal))

/-- An allocated object that the sweep keeps. -/
def Object.survives (mark : Word) (o : Object) : Bool :=
  !o.isFree && (decide (o.gcMark = mark) || decide (o.gcMark = gcExternal))

/-- What the sweep makes of a collected object. -/
def Object.collected (o : Object) : Object := { o with clazz := none, gcMark := -1 }

@[simp]
theorem Object.collected_size (o : Object) : o.collected.size = o.size := rfl

@[simp]
theorem Object.isFree_collected (o : Object) : o.collected.isFree = true := rfl

@[simp]
theorem Object.isGarbage_collected (mark : Word) (o : Object) :
    o.collected.isGarbage mark = false := rfl

/-- A free block is neither garbage nor a survivor, and an allocated one is exactly one of them. -/
theorem Object.isFree_cases (mark : Word) (o : Object) :
    (o.isFree = true ∧ o.isGarbage mark = false ∧ o.survives mark = false) ∨
    (o.isFree = false ∧ o.isGarbage mark = true ∧ o.survives mark = false) ∨
    (o.isFree = false ∧ o.isGarbage mark = false ∧ o.survives mark = true) := by
  unfold Object.isGarbage Object.survives
  cases o.isFree <;> cases (decide (o.gcMark = mark) || decide (o.gcMark = gcExternal)) <;> simp

/-- The memory after the garbage among `blocks` has been collected. -/
def Mem.swept (mem : Mem) (mark : Word) (blocks : List ℕ) : Mem := fun a =>
  if a ∈ blocks ∧ (mem a).isGarbage mark then (mem a).collected else mem a

/-- The runtime after the sweep has passed over `blocks`. -/
def Runtime.swept (rt : Runtime) (mark : Word) (blocks : List ℕ) : Runtime :=
  { rt with
    mem := rt.mem.swept mark blocks
    freeList := rt.freeList ++ blocks.filter (fun b => (rt.mem b).isGarbage mark)
    currentObjects :=
      rt.currentObjects + (blocks.filter (fun b => (rt.mem b).survives mark)).length
    currentBytes := rt.currentBytes +
      ((blocks.filter (fun b => (rt.mem b).survives mark)).map rt.mem.sizes).sum
    collectedObjects :=
      rt.collectedObjects + (blocks.filter (fun b => (rt.mem b).isGarbage mark)).length }

/-- The bytes that the sweep of `blocks` frees. -/
def Mem.garbageBytes (mem : Mem) (mark : Word) (blocks : List ℕ) : ℕ :=
  ((blocks.filter (fun b => (mem b).isGarbage mark)).map mem.sizes).sum

section
variable {mem : Mem} {mark : Word} {blocks : List ℕ} {a : ℕ}

theorem Mem.swept_of_not_mem (h : a ∉ blocks) : mem.swept mark blocks a = mem a := by
  simp [Mem.swept, h]

theorem Mem.swept_of_kept (h : (mem a).isGarbage mark = false) :
    mem.swept mark blocks a = mem a := by
  simp [Mem.swept, h]

theorem Mem.swept_of_garbage (ha : a ∈ blocks) (h : (mem a).isGarbage mark = true) :
    mem.swept mark blocks a = (mem a).collected := by
  simp [Mem.swept, ha, h]

@[simp]
theorem Mem.sizes_swept : (mem.swept mark blocks).sizes = mem.sizes := by
  funext a
  by_cases h : a ∈ blocks ∧ (mem a).isGarbage mark = true <;> simp [Mem.swept, Mem.sizes, h]

theorem Mem.swept_swept (mem : Mem) (mark : Word) (l₁ l₂ : List ℕ) :
    (mem.swept mark l₁).swept mark l₂ = mem.swept mark (l₁ ++ l₂) := by
  funext a
  cases hg : (mem a).isGarbage mark with
  | false => simp [Mem.swept, hg]
  | true => by_cases h1 : a ∈ l₁ <;> by_cases h2 : a ∈ l₂ <;> simp [Mem.swept, hg, h1, h2]

end

/-- Sweeping one list of blocks after another. -/
theorem Runtime.swept_swept {rt : Runtime} {mark : Word} {l₁ l₂ : List ℕ}
    (hdisj : ∀ b ∈ l₂, b ∉ l₁) :
    (rt.swept mark l₁).swept mark l₂ = rt.swept mark (l₁ ++ l₂) := by
  have hfilter : ∀ p : Object → Bool,
      l₂.filter (fun b => p (rt.mem.swept mark l₁ b)) = l₂.filter (fun b => p (rt.mem b)) := by
    intro p
    refine List.filter_congr (fun b hb => ?_)
    rw [Mem.swept_of_not_mem (hdisj b hb)]
  simp only [Runtime.swept, Mem.swept_swept, Mem.sizes_swept, hfilter, List.filter_append,
    List.length_append, List.map_append, List.sum_append, List.append_assoc, Nat.add_assoc]

theorem Mem.garbageBytes_append {mem : Mem} {mark : Word} {l₁ l₂ : List ℕ}
    (hdisj : ∀ b ∈ l₂, b ∉ l₁) :
    mem.garbageBytes mark l₁ + (mem.swept mark l₁).garbageBytes mark l₂ =
      mem.garbageBytes mark (l₁ ++ l₂) := by
  have hfilter : l₂.filter (fun b => (mem.swept mark l₁ b).isGarbage mark) =
      l₂.filter (fun b => (mem b).isGarbage mark) := by
    refine List.filter_congr (fun b hb => ?_)
    rw [Mem.swept_of_not_mem (hdisj b hb)]
  simp only [Mem.garbageBytes, Mem.sizes_swept, hfilter, List.filter_append, List.map_append,
    List.sum_append]

/-- One block. -/
theorem sweepBlock_eq (mark : Word) (rt : Runtime) (freed pos : ℕ) :
    sweepBlock mark rt freed pos =
      (rt.swept mark [pos], freed + rt.mem.garbageBytes mark [pos]) := by
  have hone : ∀ a, (a ∈ [pos] ∧ (rt.mem a).isGarbage mark = true) ↔
      a = pos ∧ (rt.mem pos).isGarbage mark = true := by
    intro a
    rw [List.mem_singleton]
    exact ⟨fun ⟨h1, h2⟩ => ⟨h1, h1 ▸ h2⟩, fun ⟨h1, h2⟩ => ⟨h1, h1 ▸ h2⟩⟩
  have hmem : rt.mem.swept mark [pos] =
      if (rt.mem pos).isGarbage mark then rt.mem.set pos (rt.mem pos).collected else rt.mem := by
    funext a
    simp only [Mem.swept, hone]
    by_cases ha : a = pos
    · subst ha; split <;> simp_all
    · rw [if_neg (fun h => ha h.1)]
      split
      · rw [Mem.set_other _ _ ha]
      · rfl
  unfold sweepBlock
  dsimp only
  split
  · next hfree =>
      have hf : (rt.mem pos).isFree = true := by simp [Object.isFree, hfree]
      have hg : (rt.mem pos).isGarbage mark = false := by simp [Object.isGarbage, hf]
      have hs : (rt.mem pos).survives mark = false := by simp [Object.survives, hf]
      simp [Runtime.swept, hmem, Mem.garbageBytes, hg, hs]
  · next hfree =>
      have hf : (rt.mem pos).isFree = false := by
        simpa [Object.isFree, Option.ne_none_iff_isSome] using hfree
      split
      · next hmark =>
          have hg : (rt.mem pos).isGarbage mark = false := by
            simpa [Object.isGarbage, hf] using or_iff_not_imp_left.1 hmark
          have hs : (rt.mem pos).survives mark = true := by
            simpa [Object.survives, hf] using hmark
          simp [Runtime.swept, hmem, Mem.garbageBytes, hg, hs, Mem.sizes]
      · next hmark =>
          have hg : (rt.mem pos).isGarbage mark = true := by
            simpa [Object.isGarbage, hf] using hmark
          have hs : (rt.mem pos).survives mark = false := by
            simpa [Object.survives, hf] using hmark
          simp [Runtime.swept, hmem, Mem.garbageBytes, hg, hs, Mem.sizes, Object.collected]

/-- **The walk of `gcArena` visits every block once.** -/
theorem sweep_eq (mark : Word) :
    ∀ (blocks : List ℕ) (fuel pos : ℕ) (rt : Runtime) (freed : ℕ), blocks.length ≤ fuel →
      Tiles rt.mem.sizes pos (rt.start + rt.arenaSize) blocks →
      sweep mark fuel pos rt freed =
        some (rt.swept mark blocks, freed + rt.mem.garbageBytes mark blocks) := by
  intro blocks
  induction blocks with
  | nil =>
      intro fuel pos rt freed _ htiles
      have hend : rt.start + rt.arenaSize ≤ pos := le_of_eq htiles.symm
      have hmem : rt.mem.swept mark [] = rt.mem := by funext a; simp [Mem.swept]
      unfold sweep
      rw [if_pos hend]
      simp [Runtime.swept, Mem.garbageBytes, hmem]
  | cons b l ih =>
      intro fuel pos rt freed hfuel htiles
      have hnodup := htiles.nodup
      obtain ⟨rfl, hpos, htiles⟩ := htiles
      have hlt := htiles.le
      obtain ⟨fuel, rfl⟩ : ∃ f, fuel = f + 1 := ⟨fuel - 1, by simp at hfuel; omega⟩
      have hdisj : ∀ x ∈ l, x ∉ [b] := by
        intro x hx hxb
        rw [List.mem_singleton] at hxb
        exact (List.nodup_cons.1 hnodup).1 (hxb ▸ hx)
      have htiles' : Tiles (rt.swept mark [b]).mem.sizes (b + ((rt.swept mark [b]).mem b).size)
          ((rt.swept mark [b]).start + (rt.swept mark [b]).arenaSize) l := by
        have hszs : (rt.swept mark [b]).mem.sizes = rt.mem.sizes := Mem.sizes_swept
        have hsz : ((rt.swept mark [b]).mem b).size = rt.mem.sizes b := congrFun hszs b
        rw [hsz, hszs]
        exact htiles
      have hend : ¬rt.start + rt.arenaSize ≤ b := by omega
      unfold sweep
      rw [if_neg hend]
      simp only [sweepBlock_eq]
      rw [ih fuel _ _ _ (by simpa using hfuel) htiles', Runtime.swept_swept hdisj, Nat.add_assoc]
      have hbytes : rt.mem.garbageBytes mark [b] + (rt.mem.swept mark [b]).garbageBytes mark l =
          rt.mem.garbageBytes mark (b :: l) := Mem.garbageBytes_append hdisj
      rw [← hbytes]
      rfl

/-! ## The blocks after the sweep -/

section
variable {mem : Mem} {mark : Word} {blocks : List ℕ}

theorem Mem.isFree_swept {b : ℕ} (hb : b ∈ blocks) :
    (mem.swept mark blocks b).isFree = ((mem b).isFree || (mem b).isGarbage mark) := by
  cases hg : (mem b).isGarbage mark with
  | true => simp [Mem.swept_of_garbage hb hg]
  | false => simp [Mem.swept_of_kept hg]

/-- What is allocated after the sweep is what survived it. -/
theorem Mem.filter_allocated_swept :
    blocks.filter (fun b => !(mem.swept mark blocks b).isFree) =
      blocks.filter (fun b => (mem b).survives mark) := by
  refine List.filter_congr (fun b hb => ?_)
  rw [Mem.isFree_swept hb]
  rcases Object.isFree_cases mark (mem b) with ⟨h1, h2, h3⟩ | ⟨h1, h2, h3⟩ | ⟨h1, h2, h3⟩ <;>
    simp [h1, h2, h3]

end

end B0rk
