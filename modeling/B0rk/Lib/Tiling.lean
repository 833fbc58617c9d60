import Mathlib.Tactic.Common
import Mathlib.Data.List.Basic
import Mathlib.Data.List.Chain
import Mathlib.Data.List.Nodup
import Mathlib.Algebra.GroupWithZero.Nat
import Mathlib.Algebra.Order.Group.Nat

set_option autoImplicit false

/-! # Consecutive regions of an address range

`Tiles size a b l` says that walking from `a`, each time by the size found at the current address,
visits exactly the addresses of `l` and arrives at `b`. The size function is a parameter: a heap
keeps the sizes in its block headers, so changing a header changes the function, and the lemmas here
say what that does to the walk (`Tiles.congr`, `Tiles.split`, `Tiles.merge`). -/

namespace Tiling

variable {size size' : ℕ → ℕ}

/-- The regions `[x, x + size x)` of the addresses `x ∈ l` follow each other from `a` to `b`. -/
def Tiles (size : ℕ → ℕ) : ℕ → ℕ → List ℕ → Prop
  | a, b, [] => a = b
  | a, b, x :: l => x = a ∧ 0 < size a ∧ Tiles size (a + size a) b l

@[simp]
theorem tiles_nil {a b : ℕ} : Tiles size a b [] ↔ a = b := Iff.rfl

@[simp]
theorem tiles_cons {a b x : ℕ} {l : List ℕ} :
    Tiles size a b (x :: l) ↔ x = a ∧ 0 < size a ∧ Tiles size (a + size a) b l := Iff.rfl

theorem tiles_append {a b : ℕ} {l₁ l₂ : List ℕ} :
    Tiles size a b (l₁ ++ l₂) ↔ ∃ m, Tiles size a m l₁ ∧ Tiles size m b l₂ := by
  induction l₁ generalizing a with
  | nil => simp
  | cons x l ih =>
      simp only [List.cons_append, tiles_cons, ih]
      constructor
      · rintro ⟨hx, hs, m, h1, h2⟩
        exact ⟨m, ⟨hx, hs, h1⟩, h2⟩
      · rintro ⟨m, ⟨hx, hs, h1⟩, h2⟩
        exact ⟨hx, hs, m, h1, h2⟩

theorem Tiles.le {a b : ℕ} {l : List ℕ} (h : Tiles size a b l) : a ≤ b := by
  induction l generalizing a with
  | nil => exact le_of_eq h
  | cons x l ih =>
      obtain ⟨_, _, h⟩ := h
      exact le_trans (Nat.le_add_right _ _) (ih h)

theorem Tiles.mem_bounds {a b x : ℕ} {l : List ℕ} (h : Tiles size a b l) (hx : x ∈ l) :
    a ≤ x ∧ 0 < size x ∧ x + size x ≤ b := by
  induction l generalizing a with
  | nil => simp at hx
  | cons y l ih =>
      obtain ⟨rfl, hs, h⟩ := h
      rcases List.mem_cons.1 hx with rfl | hx
      · exact ⟨le_rfl, hs, h.le⟩
      · obtain ⟨h1, h2, h3⟩ := ih h hx
        exact ⟨by omega, h2, h3⟩

/-- Of two different regions one ends before the other begins. -/
theorem Tiles.pairwise {a b : ℕ} {l : List ℕ} (h : Tiles size a b l) :
    l.Pairwise (fun x y => x + size x ≤ y) := by
  induction l generalizing a with
  | nil => exact List.Pairwise.nil
  | cons x l ih =>
      obtain ⟨rfl, _, h⟩ := h
      exact List.Pairwise.cons (fun y hy => (h.mem_bounds hy).1) (ih h)

theorem Tiles.strictSorted {a b : ℕ} {l : List ℕ} (h : Tiles size a b l) :
    l.Pairwise (· < ·) := by
  refine (List.Pairwise.and_mem.1 h.pairwise).imp ?_
  rintro x y ⟨hx, _, hxy⟩
  have := (h.mem_bounds hx).2.1
  omega

theorem Tiles.nodup {a b : ℕ} {l : List ℕ} (h : Tiles size a b l) : l.Nodup :=
  h.strictSorted.imp (fun hxy => ne_of_lt hxy)

theorem Tiles.disjoint {a b x y : ℕ} {l : List ℕ} (h : Tiles size a b l) (hx : x ∈ l)
    (hy : y ∈ l) (hne : x ≠ y) : x + size x ≤ y ∨ y + size y ≤ x := by
  induction l generalizing a with
  | nil => simp at hx
  | cons z l ih =>
      obtain ⟨rfl, _, h⟩ := h
      rcases List.mem_cons.1 hx with rfl | hxl
      · rcases List.mem_cons.1 hy with rfl | hyl
        · exact absurd rfl hne
        · exact Or.inl (h.mem_bounds hyl).1
      · rcases List.mem_cons.1 hy with rfl | hyl
        · exact Or.inr (h.mem_bounds hxl).1
        · exact ih h hxl hyl

/-- The walk only reads the sizes of the regions it visits. -/
theorem Tiles.congr {a b : ℕ} {l : List ℕ} (h : Tiles size a b l)
    (hsize : ∀ x ∈ l, size' x = size x) : Tiles size' a b l := by
  induction l generalizing a with
  | nil => exact h
  | cons x l ih =>
      obtain ⟨rfl, hs, h⟩ := h
      have hx : size' x = size x := hsize x (List.mem_cons_self ..)
      refine ⟨rfl, hx ▸ hs, ?_⟩
      rw [hx]
      exact ih h (fun y hy => hsize y (List.mem_cons_of_mem _ hy))

/-- There is only one walk. -/
theorem Tiles.unique {a b : ℕ} {l l' : List ℕ} (h : Tiles size a b l) (h' : Tiles size a b l') :
    l = l' := by
  induction l generalizing a l' with
  | nil =>
      cases l' with
      | nil => rfl
      | cons y l' =>
          obtain ⟨rfl, hs, h'⟩ := h'
          have := h'.le
          have : y = b := h
          omega
  | cons x l ih =>
      obtain ⟨rfl, hs, h⟩ := h
      cases l' with
      | nil =>
          have := h.le
          have : x = b := h'
          omega
      | cons y l' =>
          obtain ⟨rfl, _, h'⟩ := h'
          rw [ih h h']

theorem Tiles.sum_size {a b : ℕ} {l : List ℕ} (h : Tiles size a b l) :
    a + (l.map size).sum = b := by
  induction l generalizing a with
  | nil => simpa using h
  | cons x l ih =>
      obtain ⟨rfl, _, h⟩ := h
      have := ih h
      simp only [List.map_cons, List.sum_cons]
      omega

/-- The region at `x` is cut in two: `n` at `x`, the rest at `x + n`. -/
theorem Tiles.split {a b x n : ℕ} {l₁ l₂ : List ℕ} (h : Tiles size a b (l₁ ++ x :: l₂))
    (hn : 0 < n) (hlt : n < size x) (hx : size' x = n) (hr : size' (x + n) = size x - n)
    (hsize : ∀ y ∈ l₁ ++ l₂, size' y = size y) :
    Tiles size' a b (l₁ ++ x :: (x + n) :: l₂) := by
  obtain ⟨m, h1, rfl, hs, h2⟩ := tiles_append.1 h
  refine tiles_append.2
    ⟨x, h1.congr (fun y hy => hsize y (List.mem_append_left _ hy)), rfl, hx ▸ hn, ?_⟩
  rw [hx]
  refine ⟨rfl, by omega, ?_⟩
  have hend : x + n + size' (x + n) = x + size x := by omega
  rw [hend]
  exact h2.congr (fun y hy => hsize y (List.mem_append_right _ hy))

/-- Two neighbouring regions become one. -/
theorem Tiles.merge {a b x y : ℕ} {l₁ l₂ : List ℕ} (h : Tiles size a b (l₁ ++ x :: y :: l₂))
    (hx : size' x = size x + size y) (hsize : ∀ z ∈ l₁ ++ l₂, size' z = size z) :
    Tiles size' a b (l₁ ++ x :: l₂) := by
  obtain ⟨m, h1, rfl, hs, rfl, hs2, h2⟩ := tiles_append.1 h
  refine tiles_append.2
    ⟨x, h1.congr (fun y hy => hsize y (List.mem_append_left _ hy)), rfl, by omega, ?_⟩
  have hend : x + size' x = x + size x + size (x + size x) := by omega
  rw [hend]
  exact h2.congr (fun y hy => hsize y (List.mem_append_right _ hy))

/-- A region that ends where another one begins is directly followed by it. -/
theorem Tiles.next {a b x y : ℕ} {l : List ℕ} (h : Tiles size a b l) (hx : x ∈ l) (hy : y ∈ l)
    (hxy : x + size x = y) : ∃ l₁ l₂, l = l₁ ++ x :: y :: l₂ := by
  obtain ⟨l₁, l₂, rfl⟩ := List.append_of_mem hx
  obtain ⟨m, h1, rfl, hs, h2⟩ := tiles_append.1 h
  cases l₂ with
  | nil =>
      have hb : x + size x = b := h2
      have := (h.mem_bounds hy).2
      omega
  | cons z l₂ => exact ⟨l₁, l₂, by rw [← hxy, h2.1]⟩

/-- Where no two regions of a kind are neighbours, an interval that meets regions of that kind only lies
    in one of them. -/
theorem Tiles.exists_covering {a b p n : ℕ} {l : List ℕ} {P : ℕ → Prop} (h : Tiles size a b l)
    (hsep : l.IsChain (fun x y => ¬(P x ∧ P y))) (hn : 0 < n) (ha : a ≤ p) (hb : p + n ≤ b)
    (hmeets : ∀ x ∈ l, x < p + n → p < x + size x → P x) :
    ∃ x ∈ l, P x ∧ x ≤ p ∧ p + n ≤ x + size x := by
  induction l generalizing a with
  | nil =>
      have : a = b := h
      omega
  | cons x l ih =>
      obtain ⟨rfl, hs, h⟩ := h
      by_cases hp : p < x + size x
      · have hx : P x := hmeets x (List.mem_cons_self ..) (by omega) hp
        by_cases hend : p + n ≤ x + size x
        · exact ⟨x, List.mem_cons_self .., hx, ha, hend⟩
        · -- the interval goes on in the next region
          cases l with
          | nil =>
              have : x + size x = b := h
              omega
          | cons y l =>
              obtain ⟨rfl, hsy, -⟩ := h
              have hy := hmeets (x + size x) (by simp) (by omega) (by omega)
              exact absurd ⟨hx, hy⟩ (List.isChain_cons_cons.1 hsep).1
      · obtain ⟨y, hy, hcover⟩ := ih h hsep.tail (by omega)
          (fun y hy => hmeets y (List.mem_cons_of_mem _ hy))
        exact ⟨y, List.mem_cons_of_mem _ hy, hcover⟩

end Tiling
