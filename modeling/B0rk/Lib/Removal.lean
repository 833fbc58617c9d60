import Mathlib.Data.Finset.Sort

set_option autoImplicit false

/-! # Taking elements out of a list, and where the others end up

`survivors R i xs` are the elements of `xs` that do not stand at a position of `R`, where `xs` starts
at the position `i`; `newPos R t` is where the position `t` is then. A list that loses the positions of
an ascending list one after the other loses the first one, and the rest by positions that count from
there on (`survivors_cons`, `newPos_cons`). -/

namespace Removal

variable {α : Type} {R R' : List ℕ} {m i t : ℕ}

/-- The elements that do not stand at a position of `R`. -/
def survivors (R : List ℕ) : ℕ → List α → List α
  | _, [] => []
  | i, x :: xs => if i ∈ R then survivors R (i + 1) xs else x :: survivors R (i + 1) xs

/-- The new number of the position `t`: the positions of `R` below it are gone. -/
def newPos (R : List ℕ) (t : ℕ) : ℕ := t - R.countP (· < t)

@[simp]
theorem survivors_nil {i : ℕ} {xs : List α} : survivors [] i xs = xs := by
  induction xs generalizing i with
  | nil => rfl
  | cons x xs ih => simp [survivors, ih]

@[simp]
theorem newPos_nil : newPos [] t = t := by simp [newPos]

theorem newPos_le : newPos R t ≤ t := Nat.sub_le _ _

theorem survivors_append {xs ys : List α} :
    survivors R i (xs ++ ys) = survivors R i xs ++ survivors R (i + xs.length) ys := by
  induction xs generalizing i with
  | nil => rfl
  | cons x xs ih =>
    have hlen : i + 1 + xs.length = i + (xs.length + 1) := by omega
    simp only [List.cons_append, survivors, ih, List.length_cons, hlen]
    split <;> rfl

/-- Only the positions from `i` on matter, and only relative to `i`. -/
theorem survivors_shift {j : ℕ} {xs : List α} (h : ∀ k, i + k ∈ R ↔ j + k ∈ R') :
    survivors R i xs = survivors R' j xs := by
  induction xs generalizing i j with
  | nil => rfl
  | cons x xs ih =>
    have hi : i ∈ R ↔ j ∈ R' := by simpa using h 0
    have hrest : survivors R (i + 1) xs = survivors R' (j + 1) xs := by
      refine ih (fun k => ?_)
      simpa only [Nat.add_assoc] using h (1 + k)
    simp only [survivors, hi, hrest]

theorem survivors_eq_self {xs : List α} (h : ∀ k < xs.length, i + k ∉ R) :
    survivors R i xs = xs := by
  induction xs generalizing i with
  | nil => rfl
  | cons x xs ih =>
    have hi : i ∉ R := by simpa using h 0 (by simp)
    have hrest : survivors R (i + 1) xs = xs := by
      refine ih (fun k hk => ?_)
      have hk' := h (1 + k) (by simp only [List.length_cons]; omega)
      simpa only [Nat.add_assoc] using hk'
    simp [survivors, hi, hrest]

theorem survivors_map {β : Type} {f : α → β} {xs : List α} :
    survivors R i (xs.map f) = (survivors R i xs).map f := by
  induction xs generalizing i with
  | nil => rfl
  | cons x xs ih =>
    simp only [List.map_cons, survivors, ih]
    split <;> rfl

theorem survivors_subset {xs : List α} : survivors R i xs ⊆ xs := by
  induction xs generalizing i with
  | nil => exact List.Subset.refl _
  | cons x xs ih =>
    unfold survivors
    split
    · exact fun _ hmem => List.mem_cons_of_mem _ (ih hmem)
    · exact List.cons_subset_cons _ ih

/-! ## One position after the other -/

/-- What is left to remove once the position `m` is gone. -/
def next (R : List ℕ) : List ℕ := R.map (· - 1)

theorem mem_next (hR : ∀ r ∈ R, m < r) : t ∈ next R ↔ t + 1 ∈ R := by
  simp only [next, List.mem_map]
  constructor
  · rintro ⟨r, hr, rfl⟩
    have hmr := hR r hr
    rwa [Nat.sub_add_cancel (by omega)]
  · intro ht
    exact ⟨t + 1, ht, rfl⟩

theorem survivors_cons {xs : List α} (hm : m < xs.length) (hR : ∀ r ∈ R, m < r) :
    survivors (m :: R) 0 xs = survivors (next R) 0 (xs.eraseIdx m) := by
  have hsplit : xs = xs.take m ++ xs[m] :: xs.drop (m + 1) := by simp
  have hlen : (xs.take m).length = m := by simp; omega
  have hbefore : survivors (m :: R) 0 (xs.take m) = xs.take m := by
    refine survivors_eq_self (fun k hk => ?_)
    simp only [List.mem_cons, not_or]
    exact ⟨by omega, fun hkR => by have := hR _ hkR; omega⟩
  have hbefore' : survivors (next R) 0 (xs.take m) = xs.take m := by
    refine survivors_eq_self (fun k hk => ?_)
    rw [mem_next hR]
    exact fun hkR => by have := hR _ hkR; omega
  have hbehind : survivors (m :: R) (m + 1) (xs.drop (m + 1)) =
      survivors (next R) m (xs.drop (m + 1)) := by
    refine survivors_shift (fun k => ?_)
    rw [mem_next hR, List.mem_cons, Nat.add_right_comm]
    exact ⟨fun h => h.resolve_left (by omega), .inr⟩
  calc survivors (m :: R) 0 xs
      = survivors (m :: R) 0 (xs.take m ++ xs[m] :: xs.drop (m + 1)) := by rw [← hsplit]
    _ = xs.take m ++ survivors (m :: R) (m + 1) (xs.drop (m + 1)) := by
        rw [survivors_append, hbefore, hlen]
        simp [survivors]
    _ = survivors (next R) 0 (xs.take m ++ xs.drop (m + 1)) := by
        rw [survivors_append, hbefore', hlen, hbehind, Nat.zero_add]
    _ = survivors (next R) 0 (xs.eraseIdx m) := by rw [List.eraseIdx_eq_take_drop_succ]

theorem countP_next (hR : ∀ r ∈ R, m < r) :
    (next R).countP (· < if m < t then t - 1 else t) = R.countP (· < t) := by
  rw [next, List.countP_map]
  refine List.countP_congr (fun r hr => ?_)
  have hmr := hR r hr
  simp only [Function.comp_apply, decide_eq_true_eq]
  split <;> omega

theorem newPos_cons (hR : ∀ r ∈ R, m < r) :
    newPos (m :: R) t = newPos (next R) (if m < t then t - 1 else t) := by
  simp only [newPos, countP_next hR, List.countP_cons, decide_eq_true_eq]
  split <;> omega

/-! ## Where a position ends up -/

theorem countP_lt_succ (h : R.Pairwise (· < ·)) :
    R.countP (· < t + 1) = R.countP (· < t) + if t ∈ R then 1 else 0 := by
  have hsplit : ∀ r ∈ R, decide (r < t + 1) = (decide (r < t) || decide (r = t)) := by
    intro r _
    rw [← Bool.decide_or, decide_eq_decide]
    omega
  induction R with
  | nil => simp
  | cons r R ih =>
    obtain ⟨hr, h⟩ := List.pairwise_cons.mp h
    have hrest := ih h (fun r' hr' => hsplit r' (List.mem_cons_of_mem _ hr'))
    simp only [List.countP_cons, hrest, List.mem_cons, decide_eq_true_eq]
    by_cases htr : t = r
    · subst htr
      have hnot : t ∉ R := fun ht => absurd (hr t ht) (by omega)
      simp [hnot]
    · simp only [htr, false_or]
      split <;> split <;> split <;> omega

theorem countP_lt_le (h : R.Pairwise (· < ·)) : R.countP (· < t) ≤ t := by
  induction t with
  | zero => simp
  | succ t ih =>
    rw [countP_lt_succ h]
    split <;> omega

theorem newPos_succ (h : R.Pairwise (· < ·)) :
    newPos R (t + 1) = if t ∈ R then newPos R t else newPos R t + 1 := by
  have hle := countP_lt_le (t := t) h
  simp only [newPos, countP_lt_succ h]
  split <;> omega

/-- The survivors in front of `t` are as many as the new number of `t`. -/
theorem length_survivors_take {xs : List α} (h : R.Pairwise (· < ·)) (ht : t ≤ xs.length) :
    (survivors R 0 (xs.take t)).length = newPos R t := by
  induction t with
  | zero => simp [survivors, newPos]
  | succ t ih =>
    have hlen : (xs.take t).length = t := by simp; omega
    rw [List.take_add_one, List.getElem?_eq_getElem (by omega), Option.toList_some, survivors_append,
      List.length_append, ih (by omega), newPos_succ h, hlen, Nat.zero_add]
    by_cases htR : t ∈ R <;> simp [survivors, htR]

/-- What survives has its new position. -/
theorem getElem?_newPos {xs : List α} (h : R.Pairwise (· < ·)) (ht : t < xs.length) (htR : t ∉ R) :
    (survivors R 0 xs)[newPos R t]? = xs[t]? := by
  have hsplit : xs = xs.take t ++ xs[t] :: xs.drop (t + 1) := by simp
  have hlen : (xs.take t).length = t := by simp; omega
  have hpos := length_survivors_take h ht.le
  conv_lhs => rw [hsplit, survivors_append, hlen, Nat.zero_add, survivors, if_neg htR]
  rw [List.getElem?_append_right (by omega), hpos, Nat.sub_self, List.getElem?_cons_zero,
    List.getElem?_eq_getElem ht]

/-- A run of removed positions comes to the position behind it. -/
theorem newPos_run {s : ℕ} (h : R.Pairwise (· < ·)) (hts : t ≤ s)
    (hrun : ∀ u, t ≤ u → u < s → u ∈ R) : newPos R t = newPos R s := by
  induction s, hts using Nat.le_induction with
  | base => rfl
  | succ s hts ih =>
    rw [newPos_succ h, if_pos (hrun s hts (by omega))]
    exact ih (fun u htu hus => hrun u htu (by omega))

theorem newPos_length {xs : List α} (h : R.Pairwise (· < ·)) :
    newPos R xs.length = (survivors R 0 xs).length := by
  rw [← length_survivors_take h le_rfl, List.take_length]

end Removal
