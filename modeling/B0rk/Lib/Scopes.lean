import Mathlib.Data.List.Forall2
import Mathlib.Tactic.Common

set_option autoImplicit false

/-! # Scopes of variables

The variables of nested blocks, the innermost block first, each with a value or without one. A
variable's slot is its number when the blocks are laid out one behind the other, the outermost one
from slot 1. -/

/-- The variables of a block. `none` stands for "not assigned". -/
abbrev ScopeFrame (α : Type) := List (String × Option α)

/-- The variables of the blocks around a point, innermost block first. -/
abbrev Scopes (α : Type) := List (ScopeFrame α)

namespace Scopes

variable {α β : Type}

/-! ## Lookup and update -/

/-- The value of a variable: of its first declaration in the innermost block that has one. -/
def get : Scopes α → String → Option α
  | [], _ => none
  | frame :: outer, x =>
      match frame.find? (fun var => var.1 == x) with
      | some var => var.2
      | none => get outer x

/-- Assigning to a variable of one block; `none` if it has no such variable. -/
def setFrame (x : String) (a : α) : ScopeFrame α → Option (ScopeFrame α)
  | [] => none
  | var :: frame =>
      if var.1 = x then some ((x, some a) :: frame) else (setFrame x a frame).map (var :: ·)

/-- Assigning to a variable; `none` if there is no such variable. -/
def set (x : String) (a : α) : Scopes α → Option (Scopes α)
  | [] => none
  | frame :: outer =>
      match setFrame x a frame with
      | some frame => some (frame :: outer)
      | none => (set x a outer).map (frame :: ·)

/-- Entering a block. -/
def enter (vars : List String) (env : Scopes α) : Scopes α :=
  vars.map (fun x => (x, none)) :: env

/-- The declared names. -/
def names (env : Scopes α) : List (List String) := env.map (·.map Prod.fst)

@[simp] theorem names_nil : names ([] : Scopes α) = [] := rfl

@[simp] theorem names_cons (frame : ScopeFrame α) (outer : Scopes α) :
    names (frame :: outer) = frame.map Prod.fst :: names outer := rfl

@[simp] theorem names_enter (vars : List String) (env : Scopes α) :
    names (enter vars env) = vars :: names env := by
  simp [enter, Function.comp_def]

/-! ## Slots -/

/-- The first slot behind those of the blocks. -/
def start : List (List String) → ℕ
  | [] => 1
  | vars :: outer => start outer + vars.length

/-- The slot of a variable. -/
def slot : List (List String) → String → Option ℕ
  | [], _ => none
  | vars :: outer, x =>
      match vars.idxOf? x with
      | some i => some (i + start outer)
      | none => slot outer x

/-- `holds k a` for each variable with the value `a` in slot `k`. -/
def Agree (holds : ℕ → α → Prop) : Scopes α → Prop
  | [] => True
  | frame :: outer =>
      (∀ i x a, frame[i]? = some (x, some a) → holds (i + start (names outer)) a) ∧
        Agree holds outer

theorem start_pos (vars : List (List String)) : 0 < start vars := by
  induction vars with
  | nil => exact Nat.one_pos
  | cons _ _ ih => exact Nat.add_pos_left ih _

theorem find?_idx {frame : ScopeFrame α} {x : String} {var : String × Option α}
    (h : frame.find? (fun var => var.1 == x) = some var) :
    ∃ i, (frame.map Prod.fst).idxOf? x = some i ∧ frame[i]? = some (x, var.2) := by
  induction frame with
  | nil => cases h
  | cons v frame ih =>
    rw [List.map_cons, List.idxOf?_cons]
    rw [List.find?_cons] at h
    split at h
    · next hv =>
      cases h
      refine ⟨0, by simp [hv], ?_⟩
      rw [← beq_iff_eq.mp hv]
      rfl
    · next hv =>
      obtain ⟨i, hi, hget⟩ := ih h
      exact ⟨i + 1, by simp [hv, hi], by simpa using hget⟩

theorem find?_none {frame : ScopeFrame α} {x : String} :
    frame.find? (fun var => var.1 == x) = none ↔ (frame.map Prod.fst).idxOf? x = none := by
  simp only [List.find?_eq_none, List.idxOf?_eq_none_iff, beq_iff_eq, List.mem_map, not_exists,
    not_and]

/-- A variable with a value has a slot that holds it. -/
theorem get_slot {holds : ℕ → α → Prop} {env : Scopes α} {x : String} {a : α}
    (hagree : Agree holds env) (h : get env x = some a) :
    ∃ k, slot (names env) x = some k ∧ holds k a := by
  induction env with
  | nil => cases h
  | cons frame outer ih =>
    rw [get] at h
    rw [names_cons, slot]
    split at h
    · next var hvar =>
      obtain ⟨i, hi, hget⟩ := find?_idx hvar
      rw [h] at hget
      exact ⟨_, by rw [hi], hagree.1 i x a hget⟩
    · next hnone =>
      rw [find?_none.mp hnone]
      exact ih hagree.2 h

theorem slot_lt {vars : List (List String)} {x : String} {k : ℕ} (h : slot vars x = some k) :
    0 < k ∧ k < start vars := by
  induction vars with
  | nil => cases h
  | cons names outer ih =>
    have hpos := start_pos outer
    rw [slot] at h
    rw [start]
    split at h
    · next i hi =>
      cases h
      have hlt : i < names.length := by
        rw [List.idxOf?, List.findIdx?_eq_some_iff_getElem] at hi
        exact hi.1
      omega
    · have := ih h
      omega

theorem setFrame_some {x : String} {a : α} {frame frame' : ScopeFrame α}
    (h : setFrame x a frame = some frame') :
    frame'.map Prod.fst = frame.map Prod.fst ∧
      ∃ i, (frame.map Prod.fst).idxOf? x = some i ∧ frame' = frame.set i (x, some a) := by
  induction frame generalizing frame' with
  | nil => cases h
  | cons var frame ih =>
    rw [setFrame] at h
    rw [List.map_cons, List.idxOf?_cons]
    split at h
    · next hvar =>
      cases h
      exact ⟨by simp [hvar], 0, by simp [hvar], rfl⟩
    · next hvar =>
      obtain ⟨rest, hrest, rfl⟩ := Option.map_eq_some_iff.mp h
      obtain ⟨hnames, i, hi, rfl⟩ := ih hrest
      exact ⟨by rw [List.map_cons, hnames], i + 1, by simp [hvar, hi], rfl⟩

theorem setFrame_none {x : String} {a : α} {frame : ScopeFrame α} :
    setFrame x a frame = none ↔ (frame.map Prod.fst).idxOf? x = none := by
  induction frame with
  | nil => simp [setFrame]
  | cons var frame ih =>
    rw [setFrame, List.map_cons, List.idxOf?_cons]
    by_cases hvar : var.1 = x
    · simp [hvar]
    · simp [hvar, ih]

/-- Slots from the start of a block are not those of the blocks around it. -/
theorem Agree.mono {holds holds' : ℕ → α → Prop} {env : Scopes α} (h : Agree holds env)
    (hmono : ∀ k a, k < start (names env) → holds k a → holds' k a) : Agree holds' env := by
  induction env with
  | nil => trivial
  | cons frame outer ih =>
    refine ⟨?_, ih h.2 ?_⟩
    · intro i x a hi
      refine hmono _ a ?_ (h.1 i x a hi)
      have := (List.getElem?_eq_some_iff.mp hi).1
      rw [names_cons, start, List.length_map]
      omega
    · intro k a hk
      refine hmono k a ?_
      rw [names_cons, start]
      omega

/-- **An assignment is an update of the variable's slot.** -/
theorem set_slot {x : String} {a : α} {env env' : Scopes α} (h : set x a env = some env') :
    names env' = names env ∧ ∃ k, slot (names env) x = some k ∧
      ∀ holds holds' : ℕ → α → Prop, Agree holds env → holds' k a →
        (∀ j b, j ≠ k → holds j b → holds' j b) → Agree holds' env' := by
  induction env generalizing env' with
  | nil => cases h
  | cons frame outer ih =>
    rw [set] at h
    split at h
    · next frame' hframe =>
      cases h
      obtain ⟨hnames, i, hi, rfl⟩ := setFrame_some hframe
      refine ⟨by rw [names_cons, names_cons, hnames], i + start (names outer), ?_, ?_⟩
      · rw [names_cons, slot, hi]
      · intro holds holds' hagree hk hother
        refine ⟨?_, ?_⟩
        · intro j y b hj
          rw [List.getElem?_set] at hj
          split at hj
          · next hij =>
            split at hj
            · cases hj
              exact hij ▸ hk
            · cases hj
          · next hij => exact hother _ b (by omega) (hagree.1 j y b hj)
        · exact hagree.2.mono (fun j b hj hb => hother j b (by omega) hb)
    · next hnone =>
      obtain ⟨outer', houter, rfl⟩ := Option.map_eq_some_iff.mp h
      obtain ⟨hnames, k, hk, hset⟩ := ih houter
      refine ⟨by rw [names_cons, names_cons, hnames], k, ?_, ?_⟩
      · rw [names_cons, slot, setFrame_none.mp hnone]
        exact hk
      · intro holds holds' hagree hk' hother
        refine ⟨?_, hset holds holds' hagree.2 hk' hother⟩
        intro j y b hj
        rw [hnames]
        have := (slot_lt hk).2
        exact hother _ b (by omega) (hagree.1 j y b hj)

theorem set_isSome {x : String} {a : α} {env : Scopes α} :
    (set x a env).isSome = (slot (names env) x).isSome := by
  induction env with
  | nil => rfl
  | cons frame outer ih =>
    rw [set, names_cons, slot]
    cases hframe : setFrame x a frame with
    | none =>
      rw [setFrame_none.mp hframe]
      simpa using ih
    | some frame' =>
      obtain ⟨-, i, hi, -⟩ := setFrame_some hframe
      rw [hi]
      rfl

theorem agree_enter {holds : ℕ → α → Prop} {vars : List String} {env : Scopes α}
    (h : Agree holds env) : Agree holds (enter vars env) := by
  refine ⟨?_, h⟩
  intro i x a hi
  simp only [List.getElem?_map, Option.map_eq_some_iff] at hi
  obtain ⟨_, -, hi⟩ := hi
  cases hi

/-! ## What is assigned -/

/-- The same variables, and each that is assigned on the left is assigned on the right. -/
def Le (D : Scopes α) (env : Scopes β) : Prop :=
  List.Forall₂ (List.Forall₂ (fun p q => p.1 = q.1 ∧ (p.2.isSome → q.2.isSome))) D env

theorem Le.refl (env : Scopes α) : Le env env :=
  List.forall₂_same.mpr (fun _ _ => List.forall₂_same.mpr (fun _ _ => ⟨rfl, id⟩))

theorem Le.trans {γ : Type} {C : Scopes α} {D : Scopes β} {env : Scopes γ} (h : Le C D)
    (h' : Le D env) : Le C env := by
  have hframe : ∀ {f : ScopeFrame α} {g : ScopeFrame β} {k : ScopeFrame γ},
      List.Forall₂ (fun p q => p.1 = q.1 ∧ (p.2.isSome → q.2.isSome)) f g →
      List.Forall₂ (fun p q => p.1 = q.1 ∧ (p.2.isSome → q.2.isSome)) g k →
      List.Forall₂ (fun p q => p.1 = q.1 ∧ (p.2.isSome → q.2.isSome)) f k := by
    intro f g k hfg
    induction hfg generalizing k with
    | nil =>
      intro hgk
      cases hgk
      exact .nil
    | cons hpq _ ih =>
      intro hgk
      cases hgk with
      | cons hqr hrest =>
        exact .cons ⟨hpq.1.trans hqr.1, fun hp => hqr.2 (hpq.2 hp)⟩ (ih hrest)
  induction h generalizing env with
  | nil =>
    cases h'
    exact .nil
  | cons hfg _ ih =>
    cases h' with
    | cons hgk hrest => exact .cons (hframe hfg hgk) (ih hrest)

theorem Le.names_eq {D : Scopes α} {env : Scopes β} (h : Le D env) : names env = names D := by
  induction h with
  | nil => rfl
  | cons hframe _ ih =>
    rw [names_cons, names_cons, ih]
    congr 1
    induction hframe with
    | nil => rfl
    | cons hpq _ ihf => rw [List.map_cons, List.map_cons, hpq.1, ihf]

theorem Le.get {D : Scopes α} {env : Scopes β} {x : String} (h : Le D env)
    (hx : (D.get x).isSome) : (env.get x).isSome := by
  induction h with
  | nil => cases hx
  | @cons f g outer outer' hframe _ ih =>
    rw [Scopes.get] at hx ⊢
    induction hframe with
    | nil => exact ih hx
    | @cons p q f g hpq _ ihf =>
      rw [List.find?_cons] at hx ⊢
      rw [← hpq.1]
      cases hp : p.1 == x with
      | true =>
        rw [hp] at hx
        exact hpq.2 hx
      | false =>
        rw [hp] at hx
        exact ihf hx

theorem Le.setFrame {f f' : ScopeFrame α} {g : ScopeFrame β} {x : String} {a : α} {b : β}
    (h : List.Forall₂ (fun p q => p.1 = q.1 ∧ (p.2.isSome → q.2.isSome)) f g)
    (hset : Scopes.setFrame x a f = some f') :
    ∃ g', Scopes.setFrame x b g = some g' ∧
      List.Forall₂ (fun p q => p.1 = q.1 ∧ (p.2.isSome → q.2.isSome)) f' g' := by
  induction h generalizing f' with
  | nil => cases hset
  | @cons p q f g hpq hrest ih =>
    rw [Scopes.setFrame] at hset ⊢
    rw [← hpq.1]
    split at hset
    · next hp =>
      cases hset
      exact ⟨_, if_pos hp, .cons ⟨rfl, fun _ => rfl⟩ hrest⟩
    · next hp =>
      obtain ⟨f'', hf, rfl⟩ := Option.map_eq_some_iff.mp hset
      obtain ⟨g'', hg, hle⟩ := ih hf
      exact ⟨q :: g'', by rw [if_neg hp, hg]; rfl, .cons hpq hle⟩

theorem Le.set {D D' : Scopes α} {env : Scopes β} {x : String} {a : α} (b : β) (h : Le D env)
    (hset : Scopes.set x a D = some D') : ∃ env', Scopes.set x b env = some env' ∧ Le D' env' := by
  induction h generalizing D' with
  | nil => cases hset
  | @cons f g outer outer' hframe hrest ih =>
    rw [Scopes.set] at hset ⊢
    split at hset
    · next f' hf =>
      cases hset
      obtain ⟨g', hg, hle⟩ := Le.setFrame (b := b) hframe hf
      exact ⟨g' :: outer', by rw [hg], .cons hle hrest⟩
    · next hnone =>
      obtain ⟨outer'', houter, rfl⟩ := Option.map_eq_some_iff.mp hset
      obtain ⟨env', henv, hle⟩ := ih houter
      have hnone' : Scopes.setFrame x b g = none := by
        rw [setFrame_none] at hnone ⊢
        rw [← hnone]
        congr 1
        have := Le.names_eq (.cons hframe .nil : Le [f] [g])
        simpa using this
      exact ⟨g :: env', by rw [hnone', henv]; rfl, .cons hframe hle⟩

theorem Le.enter {D : Scopes α} {env : Scopes β} (vars : List String) (h : Le D env) :
    Le (enter vars D) (enter vars env) := by
  refine .cons ?_ h
  rw [List.forall₂_map_left_iff, List.forall₂_map_right_iff]
  exact List.forall₂_same.mpr (fun _ _ => ⟨rfl, nofun⟩)

theorem Le.tail {D : Scopes α} {env : Scopes β} (h : Le D env) : Le D.tail env.tail := by
  cases h with
  | nil => exact .nil
  | cons _ hrest => exact hrest

/-- An assignment leaves assigned what is assigned. -/
theorem le_set {x : String} {a : α} {env env' : Scopes α} (h : set x a env = some env') :
    Le env env' := by
  have hframe : ∀ {f f' : ScopeFrame α}, Scopes.setFrame x a f = some f' →
      List.Forall₂ (fun p q => p.1 = q.1 ∧ (p.2.isSome → q.2.isSome)) f f' := by
    intro f f' hf
    induction f generalizing f' with
    | nil => cases hf
    | cons p f ih =>
      rw [Scopes.setFrame] at hf
      split at hf
      · next hp =>
        cases hf
        exact .cons ⟨hp, fun _ => rfl⟩ (List.forall₂_same.mpr (fun _ _ => ⟨rfl, id⟩))
      · obtain ⟨f'', hf', rfl⟩ := Option.map_eq_some_iff.mp hf
        exact .cons ⟨rfl, id⟩ (ih hf')
  induction env generalizing env' with
  | nil => cases h
  | cons frame outer ih =>
    rw [Scopes.set] at h
    split at h
    · next hf =>
      cases h
      exact .cons (hframe hf) (Le.refl outer)
    · obtain ⟨outer', houter, rfl⟩ := Option.map_eq_some_iff.mp h
      exact .cons (List.forall₂_same.mpr (fun _ _ => ⟨rfl, id⟩)) (ih houter)

/-- Everything assigned: what holds behind a point that no path reaches. -/
def full (D : Scopes Unit) : Scopes Unit := D.map (·.map (fun var => (var.1, some ())))

/-- What is assigned on both of two paths. -/
def meet (C D : Scopes Unit) : Scopes Unit :=
  List.zipWith (List.zipWith (fun p q => (p.1, if q.2.isSome then p.2 else none))) C D

theorem names_full (D : Scopes Unit) : names (full D) = names D := by
  simp [names, full, Function.comp_def]

theorem names_tail (D : Scopes α) : names D.tail = (names D).tail := by
  cases D <;> rfl

theorem names_eq_of_set {x : String} {a : α} {env env' : Scopes α} (h : set x a env = some env') :
    names env' = names env := (set_slot h).1

theorem meetFrame_names {f g : ScopeFrame Unit} (h : f.map Prod.fst = g.map Prod.fst) :
    (List.zipWith (fun p q => (p.1, if q.2.isSome then p.2 else none)) f g).map Prod.fst =
      f.map Prod.fst := by
  induction f generalizing g with
  | nil => rfl
  | cons p f ih =>
    rcases g with _ | ⟨q, g⟩
    · cases h
    · rw [List.zipWith_cons_cons, List.map_cons, List.map_cons, ih (List.cons.inj h).2]

theorem names_meet {C D : Scopes Unit} (h : names C = names D) :
    names (meet C D) = names C := by
  induction C generalizing D with
  | nil => rfl
  | cons f C ih =>
    rcases D with _ | ⟨g, D⟩
    · cases h
    · obtain ⟨hf, hrest⟩ := List.cons.inj h
      rw [meet, List.zipWith_cons_cons, names_cons, meetFrame_names hf, names_cons]
      congr 1
      exact ih hrest

theorem meet_le_left {C D : Scopes Unit} (h : names C = names D) : Le (meet C D) C := by
  have hframe : ∀ {f g : ScopeFrame Unit}, f.map Prod.fst = g.map Prod.fst →
      List.Forall₂ (fun p q => p.1 = q.1 ∧ (p.2.isSome → q.2.isSome))
        (List.zipWith (fun p q => (p.1, if q.2.isSome then p.2 else none)) f g) f := by
    intro f g hfg
    induction f generalizing g with
    | nil => exact .nil
    | cons p f ih =>
      rcases g with _ | ⟨q, g⟩
      · cases hfg
      · refine .cons ⟨rfl, ?_⟩ (ih (List.cons.inj hfg).2)
        dsimp only
        split
        · exact id
        · exact nofun
  induction C generalizing D with
  | nil => exact .nil
  | cons f C ih =>
    rcases D with _ | ⟨g, D⟩
    · cases h
    · exact .cons (hframe (List.cons.inj h).1) (ih (List.cons.inj h).2)

theorem meet_le_right {C D : Scopes Unit} (h : names C = names D) : Le (meet C D) D := by
  have hframe : ∀ {f g : ScopeFrame Unit}, f.map Prod.fst = g.map Prod.fst →
      List.Forall₂ (fun p q => p.1 = q.1 ∧ (p.2.isSome → q.2.isSome))
        (List.zipWith (fun p q => (p.1, if q.2.isSome then p.2 else none)) f g) g := by
    intro f g hfg
    induction f generalizing g with
    | nil =>
      rcases g with _ | ⟨q, g⟩
      · exact .nil
      · cases hfg
    | cons p f ih =>
      rcases g with _ | ⟨q, g⟩
      · cases hfg
      · refine .cons ⟨(List.cons.inj hfg).1, ?_⟩ (ih (List.cons.inj hfg).2)
        dsimp only
        split
        · next hq => exact fun _ => hq
        · exact nofun
  induction C generalizing D with
  | nil =>
    rcases D with _ | ⟨g, D⟩
    · exact .nil
    · cases h
  | cons f C ih =>
    rcases D with _ | ⟨g, D⟩
    · cases h
    · exact .cons (hframe (List.cons.inj h).1) (ih (List.cons.inj h).2)

end Scopes
