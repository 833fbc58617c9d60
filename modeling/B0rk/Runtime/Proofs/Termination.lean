import B0rk.Lib.Shallow
import B0rk.Runtime.Allocate
import B0rk.Runtime.Proofs.Mark
import Mathlib.Order.Interval.Finset.Nat

set_option autoImplicit false

/-! # When marking returns

`gcMarkObject` calls itself for every reference that it finds, whether the object there has been marked
or not. It returns if and only if the chains of references from its argument are bounded. -/

namespace B0rk

variable {rt : Runtime} {mark : Word}

theorem SameShape.trans {mem₀ mem₁ mem₂ : Mem} (h₁ : SameShape mem₀ mem₁) (h₂ : SameShape mem₁ mem₂) :
    SameShape mem₀ mem₂ := fun a =>
  ⟨(h₂ a).1.trans (h₁ a).1, (h₂ a).2.1.trans (h₁ a).2.1, (h₂ a).2.2.trans (h₁ a).2.2⟩

theorem gcMarkObject_sameShape {fuel obj : ℕ} {mem mem' : Mem}
    (h : gcMarkObject rt fuel obj mark mem = some mem') : SameShape mem mem' := by
  rw [gcMarkObject_eq mark fuel obj mem mem' h]
  exact markSet_sameShape mark _ mem

/-- A loop whose body keeps `P` comes to its end if and only if the body does for each element. -/
theorem foldlM_isSome_iff {σ β : Type} {f : σ → β → Option σ} {P : σ → Prop} {Q : β → Prop}
    {l : List β} (hkeep : ∀ s x s', P s → f s x = some s' → P s')
    (hbody : ∀ s x, x ∈ l → P s → ((f s x).isSome ↔ Q x)) {s : σ} (hs : P s) :
    (l.foldlM f s).isSome ↔ ∀ x ∈ l, Q x := by
  induction l generalizing s with
  | nil => simp
  | cons x l ih =>
    have hx := hbody s x (List.mem_cons_self ..) hs
    rw [List.foldlM_cons, List.forall_mem_cons, ← hx]
    cases hfs : f s x with
    | none => simp
    | some s' =>
      have hl := ih (fun s x hmem => hbody s x (List.mem_cons_of_mem _ hmem)) (hkeep s x s' hs hfs)
      simpa using hl

/-- The depth of the recursion. -/
theorem gcMarkObject_isSome_iff {fuel obj : ℕ} {mem₀ mem : Mem} (hshape : SameShape mem₀ mem) :
    (gcMarkObject rt fuel obj mark mem).isSome ↔ Shallow (Child rt mem₀) fuel obj := by
  induction fuel generalizing obj mem with
  | zero => exact iff_of_false (by simp [gcMarkObject]) id
  | succ fuel ih =>
    have hmarked : SameShape mem₀ (mem.set obj ((mem obj).marked mark)) := by
      rw [set_marked]
      exact hshape.trans (markSet_sameShape mark {obj} mem)
    generalize hmem : mem.set obj ((mem obj).marked mark) = mem₁ at hmarked
    rw [gcMarkObject, hmem]
    by_cases hclazz : (mem₁ obj).clazz = none
    · rw [if_pos hclazz]
      exact iff_of_true rfl fun b hb => absurd ((hmarked obj).1.symm.trans hclazz) hb.1
    · rw [if_neg hclazz]
      refine (foldlM_isSome_iff (P := SameShape mem₀)
        (Q := fun i => ∀ b, rt.arenaRef? ((mem₀ obj).values i) = some b →
          Shallow (Child rt mem₀) fuel b)
        (fun m i m' hm hm' => ?_) (fun m i _ hm => ?_) hmarked).trans ?_
      · split at hm'
        · exact hm.trans (gcMarkObject_sameShape hm')
        · exact Option.some.inj hm' ▸ hm
      · rw [(hm obj).2.2]
        split
        · next b hb => rw [ih hm, hb]; simp
        · next hb => simp [hb]
      simp only [List.mem_range, hmarked.valueCount]
      constructor
      · rintro h b ⟨-, i, hi, hb⟩
        exact h i hi b hb
      · intro h i hi b hb
        exact h b ⟨fun hn => hclazz ((hmarked obj).1.trans hn), i, hi, hb⟩

/-- Only the arena can be reached through references. -/
theorem reachSet_finite (rt : Runtime) (mem : Mem) (obj : ℕ) : (reachSet rt mem obj).Finite := by
  refine ((Set.finite_Ico rt.start (rt.start + rt.arenaSize)).insert obj).subset fun b hb => ?_
  rcases Relation.ReflTransGen.cases_tail hb with rfl | ⟨c, -, -, i, -, hc⟩
  · exact Set.mem_insert b _
  · refine Set.mem_insert_of_mem _ ?_
    unfold Runtime.arenaRef? at hc
    split at hc
    · next hvalid =>
      obtain rfl := Option.some.inj hc
      simp only [Runtime.isObjectValid, Bool.and_eq_true, decide_eq_true_eq] at hvalid
      exact hvalid.2
    · cases hc

/-- **Marking.** It returns if and only if no object that can be reached refers, over others or at once,
    to itself. -/
theorem gcMarkObject_returns_iff (rt : Runtime) (mem : Mem) (obj : ℕ) (mark : Word) :
    (∃ fuel mem', gcMarkObject rt fuel obj mark mem = some mem') ↔
      ∀ a, Relation.ReflTransGen (Child rt mem) obj a → ¬Relation.TransGen (Child rt mem) a a := by
  rw [← exists_shallow_iff (reachSet_finite rt mem obj)]
  refine exists_congr fun fuel => ?_
  rw [← Option.isSome_iff_exists]
  exact gcMarkObject_isSome_iff fun _ => ⟨rfl, rfl, rfl⟩

/-- An object of one field that holds the object itself. -/
def ownField : Mem :=
  (Runtime.init 4096).mem.set 4096 ⟨some 8, sizeofObject + sizeofValue, 0, fun _ => .object 4096⟩

theorem ownField_never_returns :
    ¬∃ fuel mem', gcMarkObject (Runtime.init 4096) fuel 4096 7 ownField = some mem' := by
  rintro ⟨fuel, mem', h⟩
  have hself : Child (Runtime.init 4096) ownField 4096 4096 := by
    refine ⟨?_, 0, ?_, ?_⟩
    · simp [ownField]
    · decide
    · decide
  have hchain : ¬Shallow (Child (Runtime.init 4096) ownField) fuel 4096 :=
    fun h => h.acyclic (Relation.TransGen.single hself)
  have hreturns : (gcMarkObject (Runtime.init 4096) fuel 4096 7 ownField).isSome := by rw [h]; rfl
  have hsame : SameShape ownField ownField := fun _ => ⟨rfl, rfl, rfl⟩
  exact hchain ((gcMarkObject_isSome_iff hsame).mp hreturns)

end B0rk
