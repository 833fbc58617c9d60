import Mathlib.Logic.Relation
import Mathlib.Data.Set.Card

set_option autoImplicit false

/-! # Chains of bounded length

`Shallow r n a` says that every chain of the relation `r` from `a` has fewer than `n` steps; it is what a
recursion along `r` needs of its fuel. Where only finitely many elements can be reached, there is such
a bound if and only if no cycle can be reached. -/

variable {α : Type} {r : α → α → Prop}

/-- Every chain from an element has fewer than the given number of steps. -/
def Shallow (r : α → α → Prop) : ℕ → α → Prop
  | 0, _ => False
  | n + 1, a => ∀ b, r a b → Shallow r n b

theorem Shallow.succ {n : ℕ} {a : α} (h : Shallow r n a) : Shallow r (n + 1) a := by
  induction n generalizing a with
  | zero => cases h
  | succ n ih => exact fun b hb => ih (h b hb)

theorem Shallow.mono {n m : ℕ} {a : α} (h : Shallow r n a) (hle : n ≤ m) : Shallow r m a := by
  induction hle with
  | refl => exact h
  | step _ ih => exact ih.succ

theorem Shallow.reach {n : ℕ} {a b : α} (h : Shallow r n a) (hab : Relation.ReflTransGen r a b) :
    ∃ m, Shallow r m b := by
  induction hab with
  | refl => exact ⟨n, h⟩
  | tail _ hbc ih =>
    obtain ⟨m, hm⟩ := ih
    cases m with
    | zero => cases hm
    | succ m => exact ⟨m, hm _ hbc⟩

theorem Shallow.acyclic {n : ℕ} {a : α} (h : Shallow r n a) : ¬Relation.TransGen r a a := by
  induction n generalizing a with
  | zero => cases h
  | succ n ih =>
    intro hcycle
    obtain ⟨b, hab, hba⟩ := Relation.TransGen.head'_iff.mp hcycle
    exact ih (h b hab) (Relation.TransGen.tail' hba hab)

/-- Finitely many bounds have a common one. -/
theorem shallow_of_finite {s : Set α} (hs : s.Finite) (h : ∀ b ∈ s, ∃ n, Shallow r n b) :
    ∃ n, ∀ b ∈ s, Shallow r n b := by
  induction s, hs using Set.Finite.induction_on with
  | empty => exact ⟨0, fun b hb => absurd hb (Set.notMem_empty b)⟩
  | @insert a s _ _ ih =>
    obtain ⟨n, hn⟩ := ih fun b hb => h b (Set.mem_insert_of_mem a hb)
    obtain ⟨m, hm⟩ := h a (Set.mem_insert a s)
    refine ⟨max n m, fun b hb => ?_⟩
    rcases Set.mem_insert_iff.mp hb with rfl | hb
    · exact hm.mono (Nat.le_max_right n m)
    · exact (hn b hb).mono (Nat.le_max_left n m)

/-- **Acyclicity.** From an element from which finitely many others can be reached, the chains are
    bounded if and only if none of these can be reached from itself. -/
theorem exists_shallow_iff {a : α} (hfinite : {b | Relation.ReflTransGen r a b}.Finite) :
    (∃ n, Shallow r n a) ↔ ∀ b, Relation.ReflTransGen r a b → ¬Relation.TransGen r b b := by
  constructor
  · rintro ⟨n, h⟩ b hab
    obtain ⟨m, hm⟩ := h.reach hab
    exact hm.acyclic
  · intro hacyclic
    -- the elements that can be reached become fewer with each step
    induction hcard : {b | Relation.ReflTransGen r a b}.ncard using Nat.strong_induction_on
      generalizing a with
    | _ n ih =>
      have hsub {b : α} (hab : r a b) :
          {c | Relation.ReflTransGen r b c} ⊆ {c | Relation.ReflTransGen r a c} :=
        fun c hbc => Relation.ReflTransGen.head hab hbc
      have hchild (b : α) (hab : r a b) : ∃ m, Shallow r m b := by
        have hlt : {c | Relation.ReflTransGen r b c}.ncard < n := by
          rw [← hcard]
          refine Set.ncard_lt_ncard ⟨hsub hab, fun hsup => ?_⟩ hfinite
          have hba : Relation.ReflTransGen r b a := hsup (Relation.ReflTransGen.refl)
          exact hacyclic a .refl (Relation.TransGen.head' hab hba)
        exact ih _ hlt (hfinite.subset (hsub hab)) (fun c hbc => hacyclic c (hbc.head hab)) rfl
      obtain ⟨m, hm⟩ := shallow_of_finite (s := {b | r a b})
        (hfinite.subset fun b hab => Relation.ReflTransGen.single hab) hchild
      exact ⟨m + 1, hm⟩

/-- **A common bound.** Where a relation without cycles leads on from the members of a list only, no
    chain is longer than the list. -/
theorem shallow_of_acyclic [DecidableEq α] (hacyclic : ∀ a, ¬Relation.TransGen r a a) {sources : List α}
    (hsources : ∀ {a b}, r a b → a ∈ sources) (a : α) : Shallow r (sources.length + 1) a := by
  suffices h : ∀ (n : ℕ) (left : List α) (a : α), left.length ≤ n →
      (∀ {b c}, Relation.ReflTransGen r a b → r b c → b ∈ left) → Shallow r (n + 1) a from
    h sources.length sources a le_rfl fun _ hbc => hsources hbc
  intro n
  induction n with
  | zero =>
    intro left a hlen hleft b hab
    have hmem := hleft .refl hab
    rw [List.length_eq_zero_iff.mp (Nat.le_zero.mp hlen)] at hmem
    cases hmem
  | succ n ih =>
    intro left a hlen hleft b hab
    have hmem : a ∈ left := hleft .refl hab
    -- the chain does not come back to `a`
    refine ih (left.erase a) b ?_ fun {c d} hbc hcd => ?_
    · have := List.length_erase_of_mem hmem
      omega
    · have hne : c ≠ a := by
        rintro rfl
        exact hacyclic c (.head' hab hbc)
      exact (List.mem_erase_of_ne hne).mpr (hleft (hbc.head hab) hcd)
