import B0rk.Runtime.Gc
import Mathlib.Logic.Relation
import Mathlib.Data.Set.Lattice

set_option autoImplicit false

/-! # What marking does

A call of `gcMarkObject` that returns has set the mark of exactly the objects reachable from its
argument, and nothing else: `gcMarkObject_eq`. The statement is an equation between memories
(`markSet`), so the loops over slots and over roots compose by taking unions. -/

namespace B0rk

variable {rt : Runtime}

/-! ## Reachability -/

/-- The allocated object at `a` holds, in one of its slots, a reference to the arena address `b`. -/
def Child (rt : Runtime) (mem : Mem) (a b : ℕ) : Prop :=
  (mem a).clazz ≠ none ∧ ∃ i < (mem a).valueCount, rt.arenaRef? ((mem a).values i) = some b

/-- The addresses reachable from `a` through `VALUE_OBJECT` values that point into the arena. -/
def reachSet (rt : Runtime) (mem : Mem) (a : ℕ) : Set ℕ :=
  {b | Relation.ReflTransGen (Child rt mem) a b}

/-- The addresses reachable from one of the values `vs`. -/
def reachableFrom (rt : Runtime) (mem : Mem) (vs : List Value) : Set ℕ :=
  {b | ∃ v ∈ vs, ∃ a, rt.arenaRef? v = some a ∧ b ∈ reachSet rt mem a}

/-- The memories differ in marks only. -/
def SameShape (mem mem' : Mem) : Prop :=
  ∀ a, (mem' a).clazz = (mem a).clazz ∧ (mem' a).size = (mem a).size ∧
    (mem' a).values = (mem a).values

theorem SameShape.valueCount {mem mem' : Mem} (h : SameShape mem mem') (a : ℕ) :
    (mem' a).valueCount = (mem a).valueCount := by
  simp only [Object.valueCount, (h a).2.1]

theorem SameShape.child {mem mem' : Mem} (h : SameShape mem mem') :
    Child rt mem' = Child rt mem := by
  funext a b
  simp only [Child, (h a).1, (h a).2.2, h.valueCount a]

theorem SameShape.reachSet {mem mem' : Mem} (h : SameShape mem mem') (a : ℕ) :
    reachSet rt mem' a = reachSet rt mem a := by
  simp only [B0rk.reachSet, h.child]

theorem SameShape.reachableFrom {mem mem' : Mem} (h : SameShape mem mem') (vs : List Value) :
    reachableFrom rt mem' vs = reachableFrom rt mem vs := by
  simp only [B0rk.reachableFrom, h.reachSet]

/-- Everything reachable from `a` is `a` or reachable from a child of `a`. -/
theorem reachSet_eq (mem : Mem) (a : ℕ) :
    reachSet rt mem a = {a} ∪ {b | ∃ c, Child rt mem a c ∧ b ∈ reachSet rt mem c} := by
  ext b
  simp only [reachSet, Set.mem_ofPred_eq, Set.mem_union, Set.mem_singleton_iff]
  rw [Relation.ReflTransGen.cases_head_iff]
  exact or_congr_left eq_comm

/-- Nothing outside a set that contains the roots and the children of its members is reachable. -/
theorem reachableFrom_subset {mem : Mem} {vs : List Value} {s : Set ℕ}
    (hroots : ∀ v ∈ vs, ∀ a, rt.arenaRef? v = some a → a ∈ s)
    (hchild : ∀ a ∈ s, ∀ b, Child rt mem a b → b ∈ s) : reachableFrom rt mem vs ⊆ s := by
  rintro b ⟨v, hv, a, ha, hpath⟩
  induction hpath with
  | refl => exact hroots v hv a ha
  | tail _ hstep ih => exact hchild _ ih _ hstep

/-! ## Which runtime -/

/-- Of the runtime, marking reads the bounds of the arena only. -/
theorem arenaRef?_congr {rt rt' : Runtime} (hs : rt'.start = rt.start)
    (ha : rt'.arenaSize = rt.arenaSize) : rt'.arenaRef? = rt.arenaRef? := by
  funext v
  unfold Runtime.arenaRef? Runtime.isObjectValid
  rw [hs, ha]

theorem gcMarkObject_congr {rt rt' : Runtime} (h : rt'.arenaRef? = rt.arenaRef?) (mark : Word) :
    ∀ (fuel obj : ℕ) (mem : Mem),
      gcMarkObject rt' fuel obj mark mem = gcMarkObject rt fuel obj mark mem := by
  intro fuel
  induction fuel with
  | zero => intro obj mem; rfl
  | succ fuel ih => intro obj mem; simp only [gcMarkObject, h, ih]

theorem gcMarkValues_congr {rt rt' : Runtime} (h : rt'.arenaRef? = rt.arenaRef?) (fuel : ℕ)
    (mark : Word) (vs : List Value) (mem : Mem) :
    gcMarkValues rt' fuel mark vs mem = gcMarkValues rt fuel mark vs mem := by
  simp only [gcMarkValues, h, gcMarkObject_congr h]

/-! ## Marking a set of objects at once -/

/-- The memory in which the objects of `s` carry the mark. -/
noncomputable def markSet (mark : Word) (s : Set ℕ) (mem : Mem) : Mem := by
  classical exact fun a => if a ∈ s then (mem a).marked mark else mem a

@[simp]
theorem Object.marked_clazz (o : Object) (mark : Word) : (o.marked mark).clazz = o.clazz := by
  unfold Object.marked; split <;> rfl

@[simp]
theorem Object.marked_size (o : Object) (mark : Word) : (o.marked mark).size = o.size := by
  unfold Object.marked; split <;> rfl

@[simp]
theorem Object.marked_values (o : Object) (mark : Word) : (o.marked mark).values = o.values := by
  unfold Object.marked; split <;> rfl

theorem Object.marked_marked (o : Object) (mark : Word) :
    (o.marked mark).marked mark = o.marked mark := by
  by_cases h : o.gcMark = gcExternal
  · simp [Object.marked, h]
  · simp [Object.marked, h]

theorem markSet_mem {mark : Word} {s : Set ℕ} {mem : Mem} {a : ℕ} (h : a ∈ s) :
    markSet mark s mem a = (mem a).marked mark := by
  simp [markSet, h]

theorem markSet_not_mem {mark : Word} {s : Set ℕ} {mem : Mem} {a : ℕ} (h : a ∉ s) :
    markSet mark s mem a = mem a := by
  simp [markSet, h]

theorem markSet_empty (mark : Word) (mem : Mem) : markSet mark ∅ mem = mem := by
  funext a
  exact markSet_not_mem (Set.notMem_empty a)

theorem markSet_union (mark : Word) (s t : Set ℕ) (mem : Mem) :
    markSet mark t (markSet mark s mem) = markSet mark (s ∪ t) mem := by
  funext a
  by_cases hs : a ∈ s <;> by_cases ht : a ∈ t <;>
    simp [markSet, hs, ht, Object.marked_marked]

theorem set_marked (mark : Word) (mem : Mem) (a : ℕ) :
    mem.set a ((mem a).marked mark) = markSet mark {a} mem := by
  funext x
  by_cases h : x = a
  · subst h; simp [markSet]
  · rw [Mem.set_other _ _ h, markSet_not_mem (by simpa using h)]

theorem markSet_sameShape (mark : Word) (s : Set ℕ) (mem : Mem) :
    SameShape mem (markSet mark s mem) := by
  intro a
  by_cases h : a ∈ s <;> simp [markSet, h]

theorem markSet_gcMark {mark : Word} {s : Set ℕ} {mem : Mem} {a : ℕ}
    (hfresh : (mem a).gcMark ≠ mark) :
    (markSet mark s mem a).gcMark = mark ∨ (markSet mark s mem a).gcMark = gcExternal ↔
      a ∈ s ∨ (mem a).gcMark = gcExternal := by
  by_cases hs : a ∈ s <;> by_cases hx : (mem a).gcMark = gcExternal <;>
    simp [markSet, Object.marked, hs, hx, hfresh]

/-! ## The recursion -/

/-- The loop over a list of references, given what one recursive call does. -/
theorem foldlM_markSet {α : Type} {mark : Word} {f : Mem → α → Option Mem} {t : α → Set ℕ}
    {mem₀ : Mem} (hf : ∀ mem x mem', SameShape mem₀ mem → f mem x = some mem' →
      mem' = markSet mark (t x) mem) :
    ∀ (l : List α) (mem mem' : Mem), SameShape mem₀ mem → l.foldlM f mem = some mem' →
      mem' = markSet mark {b | ∃ x ∈ l, b ∈ t x} mem := by
  intro l
  induction l with
  | nil =>
      intro mem mem' _ h
      obtain rfl : mem = mem' := by simpa using h
      simp [markSet_empty]
  | cons x l ih =>
      intro mem mem' hshape h
      obtain ⟨mem₁, h1, h2⟩ := Option.bind_eq_some_iff.1 (by simpa using h)
      have hm1 := hf mem x mem₁ hshape h1
      have hshape1 : SameShape mem₀ mem₁ := by
        intro a
        have := markSet_sameShape mark (t x) mem a
        rw [← hm1] at this
        exact ⟨this.1.trans (hshape a).1, this.2.1.trans (hshape a).2.1,
          this.2.2.trans (hshape a).2.2⟩
      rw [ih mem₁ mem' hshape1 h2, hm1, markSet_union]
      congr 1
      ext b
      simp

/-- **A returning `gcMarkObject` marks what is reachable from its argument.** -/
theorem gcMarkObject_eq (mark : Word) :
    ∀ (fuel obj : ℕ) (mem mem' : Mem), gcMarkObject rt fuel obj mark mem = some mem' →
      mem' = markSet mark (reachSet rt mem obj) mem := by
  intro fuel
  induction fuel with
  | zero => intro obj mem mem' h; simp [gcMarkObject] at h
  | succ fuel ih =>
      intro obj mem mem' h
      simp only [gcMarkObject, set_marked] at h
      have hshape := markSet_sameShape mark {obj} mem
      rw [reachSet_eq]
      split at h
      · next hnone =>
          obtain rfl := Option.some.inj h
          have hchild : {b | ∃ c, Child rt mem obj c ∧ b ∈ reachSet rt mem c} = ∅ := by
            ext b
            simp only [Set.mem_ofPred_eq, Set.mem_empty_iff_false, iff_false]
            rintro ⟨c, ⟨hc, _⟩, _⟩
            exact hc ((hshape obj).1.symm.trans hnone)
          rw [hchild, Set.union_empty]
      · next hsome =>
          -- the slots are those of the object before the call: marks change nothing else
          let behind (i : ℕ) : Set ℕ :=
            {b | ∃ c, rt.arenaRef? ((mem obj).values i) = some c ∧ b ∈ reachSet rt mem c}
          have hslots : mem' = markSet mark
              {b | ∃ i ∈ List.range (markSet mark {obj} mem obj).valueCount, b ∈ behind i}
              (markSet mark {obj} mem) := by
            refine foldlM_markSet (fun m i m' hm hmi => ?_) _ _ _ hshape h
            rw [(hm obj).2.2] at hmi
            split at hmi
            · next c hc =>
                rw [ih c m m' hmi, hm.reachSet]
                congr 1
                ext b
                simp [behind, hc]
            · next hc =>
                obtain rfl := Option.some.inj hmi
                simp [behind, hc, markSet_empty]
          rw [hslots, markSet_union]
          congr 2
          ext b
          simp only [Set.mem_ofPred_eq, List.mem_range, Child, hshape.valueCount obj]
          constructor
          · rintro ⟨i, hi, c, hc, hb⟩
            exact ⟨c, ⟨fun hn => hsome ((hshape obj).1.trans hn), i, hi, hc⟩, hb⟩
          · rintro ⟨c, ⟨_, i, hi, hc⟩, hb⟩
            exact ⟨i, hi, c, hc, hb⟩

theorem gcMarkValues_eq {mark : Word} {fuel : ℕ} {vs : List Value} {mem mem' : Mem}
    (h : gcMarkValues rt fuel mark vs mem = some mem') :
    mem' = markSet mark (reachableFrom rt mem vs) mem := by
  refine foldlM_markSet (t := fun v => {b | ∃ a, rt.arenaRef? v = some a ∧ b ∈ reachSet rt mem a})
    (fun m v m' hm hmv => ?_) vs mem mem' (fun _ => ⟨rfl, rfl, rfl⟩) h
  split at hmv
  · next a ha =>
      rw [gcMarkObject_eq mark fuel a m m' hmv, hm.reachSet]
      congr 1
      ext b
      simp [ha]
  · next ha =>
      obtain rfl := Option.some.inj hmv
      simp [ha, markSet_empty]

end B0rk
