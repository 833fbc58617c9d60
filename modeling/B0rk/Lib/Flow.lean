import Mathlib.Data.List.Basic
import Mathlib.Data.Set.Insert
import Mathlib.Tactic.Common

set_option autoImplicit false

/-! # Code with a state for each place

Code is read from its first instruction to its last one, whatever jumps there are, each instruction
changing an abstract state. A part of code is closed if each jump in it goes to a place in it that has the
state of the jump: then the state of a place is the same on every way to it. -/

/-- What instructions do to states, where they are read at a position, and where they jump to. -/
structure StateFlow (α σ : Type) where
  next : ℕ → α → σ → Option σ
  jumps : α → Prop
  goes : α → ℕ → Prop

namespace StateFlow

variable {α σ : Type} {F : StateFlow α σ}

variable (F) in
/-- The state behind code that starts at a position. -/
def scan : ℕ → σ → List α → Option σ
  | _, s, [] => some s
  | pos, s, x :: xs => (F.next pos x s).bind fun t => scan (pos + 1) t xs

theorem scan_cons (pos : ℕ) (s : σ) (x : α) (xs : List α) :
    F.scan pos s (x :: xs) = (F.next pos x s).bind fun t => F.scan (pos + 1) t xs := rfl

theorem scan_append (pos : ℕ) (s : σ) (xs ys : List α) :
    F.scan pos s (xs ++ ys) = (F.scan pos s xs).bind fun t => F.scan (pos + xs.length) t ys := by
  induction xs generalizing pos s with
  | nil => rfl
  | cons x xs ih =>
    simp only [List.cons_append, scan, List.length_cons, Option.bind_assoc, ih, Nat.add_assoc,
      Nat.add_comm 1]

theorem scan_singleton (pos : ℕ) (s : σ) (x : α) : F.scan pos s [x] = F.next pos x s := by
  simp [scan]

theorem scan_append_some {pos : ℕ} {s t : σ} {xs ys : List α} (h : F.scan pos s xs = some t) :
    F.scan pos s (xs ++ ys) = F.scan (pos + xs.length) t ys := by
  rw [scan_append, h, Option.bind_some]

/-- Every place of code that can be read to its end has a state. -/
theorem scan_take {pos : ℕ} {s t : σ} {xs : List α} (h : F.scan pos s xs = some t) (k : ℕ) :
    ∃ u, F.scan pos s (xs.take k) = some u := by
  rw [← List.take_append_drop k xs, scan_append] at h
  obtain ⟨u, hu, -⟩ := Option.bind_eq_some_iff.mp h
  exact ⟨u, hu⟩

/-- The state behind an instruction. -/
theorem scan_take_succ {pos : ℕ} {s : σ} {xs : List α} {i : ℕ} {x : α} (hx : xs[i]? = some x) :
    F.scan pos s (xs.take (i + 1)) = (F.scan pos s (xs.take i)).bind fun t => F.next (pos + i) x t := by
  have hlt := (List.getElem?_eq_some_iff.mp hx).1
  rw [List.take_add_one, hx, scan_append]
  simp only [Option.toList_some, scan_singleton, List.length_take, Nat.min_eq_left hlt.le]

/-- Another instruction with the same effect. -/
theorem scan_set {pos : ℕ} {s : σ} {xs : List α} {i : ℕ} {y : α}
    (h : ∀ x, xs[i]? = some x → F.next (pos + i) y = F.next (pos + i) x) :
    F.scan pos s (xs.set i y) = F.scan pos s xs := by
  induction xs generalizing pos s i with
  | nil => rfl
  | cons x xs ih =>
    cases i with
    | zero => rw [List.set_cons_zero, scan, scan, ← Nat.add_zero pos, h x rfl]
    | succ i =>
      rw [List.set_cons_succ, scan, scan]
      refine congrArg (Option.bind _) (funext fun t => ih fun z hz => ?_)
      rw [Nat.add_assoc, Nat.add_comm 1]
      exact h z hz

variable (F) in
/-- Code at `a` that leads from `s` to `t`. The jumps at the positions in `opens` have no target yet. -/
structure Closed (a : ℕ) (code : List α) (opens : Set ℕ) (s t : σ) : Prop where
  ends : F.scan a s code = some t
  closed : ∀ i x, code[i]? = some x → F.jumps x → a + i ∉ opens →
    ∃ k ≤ code.length, F.goes x (a + k) ∧ F.scan a s (code.take k) = F.scan a s (code.take i)

namespace Closed

variable {a : ℕ} {xs ys : List α} {opens opens' : Set ℕ} {s t u : σ} {x y : α}

theorem nil : F.Closed a [] opens s s := ⟨rfl, by simp⟩

theorem mono (h : F.Closed a xs opens s t) (hle : opens ⊆ opens') : F.Closed a xs opens' s t :=
  ⟨h.ends, fun i x hx hj hi => h.closed i x hx hj fun ho => hi (hle ho)⟩

/-- One instruction, that is no jump or has no target yet. -/
theorem single (hnext : F.next a x s = some t) (hx : F.jumps x → a ∈ opens) :
    F.Closed a [x] opens s t := by
  refine ⟨by rw [scan_singleton, hnext], fun i z hz hj hi => ?_⟩
  cases i with
  | zero =>
    cases hz
    exact absurd (hx hj) hi
  | succ i => cases hz

theorem append (h : F.Closed a xs opens s t) (h' : F.Closed (a + xs.length) ys opens t u) :
    F.Closed a (xs ++ ys) opens s u := by
  refine ⟨by rw [scan_append_some h.ends, h'.ends], fun i x hx hj hi => ?_⟩
  rcases Nat.lt_or_ge i xs.length with hlt | hge
  · rw [List.getElem?_append_left hlt] at hx
    obtain ⟨k, hk, hgoes, hscan⟩ := h.closed i x hx hj hi
    refine ⟨k, hk.trans (by simp), hgoes, ?_⟩
    rwa [List.take_append_of_le_length hk, List.take_append_of_le_length hlt.le]
  · obtain ⟨j, rfl⟩ := Nat.exists_eq_add_of_le hge
    rw [List.getElem?_append_right hge, Nat.add_sub_cancel_left] at hx
    rw [← Nat.add_assoc] at hi
    obtain ⟨k, hk, hgoes, hscan⟩ := h'.closed j x hx hj hi
    refine ⟨xs.length + k, by simp [hk], by rwa [← Nat.add_assoc], ?_⟩
    simp only [List.take_length_add_append, scan_append_some h.ends, hscan]

/-- A jump behind the code, to a place of it. -/
theorem jump {k : ℕ} (h : F.Closed a xs opens s t) (hnext : F.next (a + xs.length) x t = some t)
    (hk : k ≤ xs.length) (hgoes : F.goes x (a + k)) (hstate : F.scan a s (xs.take k) = some t) :
    F.Closed a (xs ++ [x]) opens s t := by
  refine ⟨by rw [scan_append_some h.ends, scan_singleton, hnext], fun i z hz hj hi => ?_⟩
  rcases Nat.lt_or_ge i xs.length with hlt | hge
  · rw [List.getElem?_append_left hlt] at hz
    obtain ⟨k, hk, hgoes, hscan⟩ := h.closed i z hz hj hi
    refine ⟨k, hk.trans (by simp), hgoes, ?_⟩
    rwa [List.take_append_of_le_length hk, List.take_append_of_le_length hlt.le]
  · obtain ⟨j, rfl⟩ := Nat.exists_eq_add_of_le hge
    rw [List.getElem?_append_right hge, Nat.add_sub_cancel_left] at hz
    cases j with
    | zero =>
      cases hz
      refine ⟨k, hk.trans (by simp), hgoes, ?_⟩
      rw [List.take_append_of_le_length hk, hstate, Nat.add_zero, List.take_left, h.ends]
    | succ j => cases hz

/-- A jump gets its target. -/
theorem fill {i k : ℕ} (h : F.Closed a xs (insert (a + i) opens) s t) (hx : xs[i]? = some x)
    (hnext : F.next (a + i) y = F.next (a + i) x) (hk : k ≤ xs.length) (hgoes : F.goes y (a + k))
    (hstate : F.scan a s (xs.take k) = F.scan a s (xs.take i)) :
    F.Closed a (xs.set i y) opens s t := by
  have hset (n : ℕ) : F.scan a s ((xs.set i y).take n) = F.scan a s (xs.take n) := by
    rw [List.take_set]
    refine scan_set fun z hz => ?_
    rw [List.getElem?_take] at hz
    split at hz
    · cases hz.symm.trans hx
      exact hnext
    · cases hz
  refine ⟨?_, fun j z hz hj hopen => ?_⟩
  · rw [← h.ends]
    refine scan_set fun z hz => ?_
    cases hz.symm.trans hx
    exact hnext
  · rw [List.length_set, hset]
    by_cases hij : i = j
    · subst hij
      rw [List.getElem?_set_self (List.getElem?_eq_some_iff.mp hx).1] at hz
      cases hz
      exact ⟨k, hk, hgoes, by rw [hset, hstate]⟩
    · rw [List.getElem?_set_ne hij] at hz
      obtain ⟨k', hk', hgoes', hscan⟩ := h.closed j z hz hj (by
        rintro (heq | hmem)
        · exact hij (Nat.add_left_cancel heq).symm
        · exact hopen hmem)
      exact ⟨k', hk', hgoes', by rw [hset, hscan]⟩

end Closed

/-! ## Code in another place

`place` tells where a position of the code is in other code, that lacks some of the instructions and has
others for the rest, and `state` what its states are there. -/

section

variable {xs ys : List α} {place : ℕ → ℕ} {state : σ → σ} {s t : σ}

variable (F) in
/-- An instruction is left out, or has another one in its place. -/
def Kept (xs ys : List α) (place : ℕ → ℕ) (state : σ → σ) (i : ℕ) (x : α) : Prop :=
  (place (i + 1) = place i ∧ ∀ s t, F.next i x s = some t → state t = state s) ∨
    ∃ y, place (i + 1) = place i + 1 ∧ ys[place i]? = some y ∧
      (∀ s t, F.next i x s = some t → F.next (place i) y (state s) = some (state t)) ∧
      (F.jumps y → F.jumps x ∧ ∀ k ≤ xs.length, F.goes x k → F.goes y (place k))

theorem scan_kept (hzero : place 0 = 0) (hkept : ∀ i x, xs[i]? = some x → F.Kept xs ys place state i x)
    {i : ℕ} (hi : i ≤ xs.length) {u : σ} (h : F.scan 0 s (xs.take i) = some u) :
    F.scan 0 (state s) (ys.take (place i)) = some (state u) := by
  induction i generalizing u with
  | zero =>
    cases h
    rw [hzero]
    rfl
  | succ i ih =>
    have hx := List.getElem?_eq_getElem hi
    rw [scan_take_succ hx, Nat.zero_add] at h
    obtain ⟨v, hv, hnext⟩ := Option.bind_eq_some_iff.mp h
    have hbefore := ih (Nat.le_of_succ_le hi) hv
    rcases hkept i _ hx with ⟨hplace, hsame⟩ | ⟨y, hplace, hy, hsame, -⟩
    · rw [hplace, hbefore, hsame v u hnext]
    · rw [hplace, scan_take_succ hy, hbefore, Option.bind_some, Nat.zero_add, hsame v u hnext]

/-- Each instruction of the other code is there for one that is kept. -/
theorem exists_kept (hzero : place 0 = 0) (hkept : ∀ i x, xs[i]? = some x → F.Kept xs ys place state i x)
    {n : ℕ} (hn : n ≤ xs.length) {j : ℕ} (hj : j < place n) :
    ∃ i < n, place i = j ∧ place (i + 1) = j + 1 := by
  induction n with
  | zero =>
    rw [hzero] at hj
    cases hj
  | succ n ih =>
    have hstep : place (n + 1) = place n ∨ place (n + 1) = place n + 1 := by
      rcases hkept n _ (List.getElem?_eq_getElem hn) with ⟨hplace, -⟩ | ⟨-, hplace, -⟩
      · exact .inl hplace
      · exact .inr hplace
    by_cases hlt : j < place n
    · obtain ⟨i, hi, hplaces⟩ := ih (Nat.le_of_succ_le hn) hlt
      exact ⟨i, hi.trans (Nat.lt_succ_self n), hplaces⟩
    · exact ⟨n, Nat.lt_succ_self n, by omega, by omega⟩

theorem place_mono (hkept : ∀ i x, xs[i]? = some x → F.Kept xs ys place state i x) {k n : ℕ}
    (hkn : k ≤ n) (hn : n ≤ xs.length) : place k ≤ place n := by
  induction n, hkn using Nat.le_induction with
  | base => exact le_rfl
  | succ n hkn ih =>
    have hle := ih (Nat.le_of_succ_le hn)
    rcases hkept n _ (List.getElem?_eq_getElem hn) with ⟨hplace, -⟩ | ⟨-, hplace, -⟩ <;> omega

/-- What is kept of closed code is closed. -/
theorem Closed.keep (h : F.Closed 0 xs ∅ s t) (hzero : place 0 = 0) (hlength : place xs.length = ys.length)
    (hkept : ∀ i x, xs[i]? = some x → F.Kept xs ys place state i x) :
    F.Closed 0 ys ∅ (state s) (state t) := by
  refine ⟨?_, fun j y hy hjump _ => ?_⟩
  · have hends := scan_kept hzero hkept le_rfl (by rw [List.take_length]; exact h.ends)
    rwa [hlength, List.take_length] at hends
  · have hj := (List.getElem?_eq_some_iff.mp hy).1
    rw [← hlength] at hj
    obtain ⟨i, hi, rfl, hsucc⟩ := exists_kept hzero hkept le_rfl hj
    have hx := List.getElem?_eq_getElem hi
    rcases hkept i _ hx with ⟨hplace, -⟩ | ⟨y', -, hy', -, hjumps⟩
    · omega
    · cases hy.symm.trans hy'
      obtain ⟨hjump, hgoes⟩ := hjumps hjump
      obtain ⟨k, hk, hgoes', hscan⟩ := h.closed i _ hx hjump (Set.notMem_empty _)
      rw [Nat.zero_add] at hgoes'
      obtain ⟨u, hu⟩ := scan_take h.ends i
      refine ⟨place k, (place_mono hkept hk le_rfl).trans_eq hlength, ?_, ?_⟩
      · rw [Nat.zero_add]
        exact hgoes k hk hgoes'
      · rw [scan_kept hzero hkept hk (hscan.trans hu), scan_kept hzero hkept hi.le hu]

end

end StateFlow
