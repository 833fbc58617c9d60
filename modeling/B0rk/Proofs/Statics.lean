import B0rk.Hierarchy
import B0rk.Runtime.Proofs.Collect

set_option autoImplicit false

/-! # Static fields across a hierarchy

Ids are handed out across a hierarchy and values are kept class by class, behind an offset. A lookup
that climbs to a superclass finds an id below the offset of the class that it started from, and the
scan of the collector starts every class at id 0. Both are right as long as the offsets are 0:
`sharedStatics_iff`. -/

namespace B0rk

/-! ## The numbering -/

/-- The ids of a class follow those of its superclass, one for each value. -/
structure Class.Numbered (c : Class) : Prop where
  count : c.staticFieldCount = c.staticFieldStartId + c.staticValues.length
  ids : ∀ name id, c.staticFields.lookup name = some id →
    c.staticFieldStartId ≤ id ∧ id < c.staticFieldCount

theorem lookup_insertNew {fields : List (String × ℕ)} {name name' : String} {id id' : ℕ}
    (h : (insertNew fields name' id').lookup name = some id) :
    fields.lookup name = some id ∨ id = id' := by
  unfold insertNew at h
  split at h
  · exact .inl h
  · rw [List.lookup_cons] at h
    split at h
    · exact .inr (Option.some.inj h).symm
    · exact .inl h

namespace Class.Numbered

variable {c : Class}

theorem create (superClass : Option Class) (name : String) :
    (Class.create superClass name).Numbered := by
  cases superClass <;> exact ⟨rfl, fun _ _ h => by cases h⟩

theorem addStaticField (h : c.Numbered) (name : String) (value : Option Value) :
    (c.addStaticField name value).Numbered where
  count := by
    simp only [Class.addStaticField, List.length_append, List.length_singleton, h.count]
    omega
  ids name' id hid := by
    show c.staticFieldStartId ≤ id ∧ id < c.staticFieldCount + 1
    rcases lookup_insertNew hid with hid | rfl
    · exact ⟨(h.ids _ _ hid).1, Nat.lt_succ_of_lt (h.ids _ _ hid).2⟩
    · exact ⟨h.count ▸ Nat.le_add_right _ _, Nat.lt_succ_self _⟩

theorem setStaticField {c' : Class} {slot : ℕ} {v : Value} (h : c.Numbered)
    (hset : c.setStaticField slot v = some c') : c'.Numbered := by
  obtain ⟨i, -, rfl⟩ := Option.map_eq_some_iff.mp hset
  exact ⟨by simpa using h.count, h.ids⟩

/-- A class finds the fields that it has declared. -/
theorem staticIndex (h : c.Numbered) {name : String} {id : ℕ}
    (hid : c.staticFields.lookup name = some id) :
    c.staticIndex id = some (id - c.staticFieldStartId) := by
  obtain ⟨hstart, hlt⟩ := h.ids name id hid
  have hlen := h.count
  unfold Class.staticIndex
  rw [if_neg (by omega), if_pos (by omega)]

end Class.Numbered

namespace Hierarchy

variable {H H' : Hierarchy} {k : ℕ}

/-- No class has been created below this one. -/
def Unextended (H : Hierarchy) (k : ℕ) : Prop := ∀ j < H.count, k ∉ H.supers j

/-- The hierarchies in which every class was complete when a class was created below it. -/
inductive Declared : Hierarchy → Prop
  | empty : Declared empty
  | create {H : Hierarchy} (superClass : Option ℕ) (name : String) : Declared H →
      (∀ s, superClass = some s → s < H.count) → Declared (H.create superClass name)
  | addField {H : Hierarchy} {k : ℕ} (name : String) : Declared H → k < H.count → H.Unextended k →
      Declared (H.addField k name)
  | addStaticField {H : Hierarchy} {k : ℕ} (name : String) (value : Option Value) : Declared H → k < H.count →
      H.Unextended k → Declared (H.addStaticField k name value)
  | addMethod {H : Hierarchy} {k : ℕ} (name : String) (function : Word) : Declared H →
      Declared (H.addMethod k name function)
  | setStaticField {H H' : Hierarchy} {k slot : ℕ} {v : Value} : Declared H →
      H.setStaticField k slot v = some H' → Declared H'

/-! ## Elements -/

theorem getStaticField_element (H : Hierarchy) (k slot : ℕ) :
    H.getStaticField k slot =
      (H.staticElement k slot).bind (fun e => (H.clazz e.1).staticValues[e.2]?) := by
  unfold getStaticField staticElement Class.getStaticField Class.staticIndex
  by_cases hstart : slot < (H.clazz k).staticFieldStartId
  · simp [hstart]
  · by_cases hlen : slot - (H.clazz k).staticFieldStartId < (H.clazz k).staticValues.length <;>
      simp [hstart, hlen]

theorem setStaticField_element (H : Hierarchy) (k slot : ℕ) (v : Value) :
    H.setStaticField k slot v = (H.staticElement k slot).map (fun e =>
      H.update e.1 { H.clazz e.1 with staticValues := (H.clazz e.1).staticValues.set e.2 v }) := by
  simp [setStaticField, staticElement, Class.setStaticField, Option.map_map, Function.comp_def]

/-- **Static fields are in range and shared**: a name that a class finds, in itself or in a superclass,
    leads to an existing element, the one that the declaring class accesses, and the collector reads
    the static fields of all classes and nothing else. -/
structure SharedStatics (H : Hierarchy) : Prop where
  access : ∀ k < H.count, ∀ name id d, H.getStaticFieldId k name = some id →
    H.declaringClass k name = some d →
    ∃ element, H.staticElement k id = some element ∧ H.staticElement d id = some element
  scan : staticRoots H.classes = some (H.classes.flatMap Class.staticValues)

/-- What creating and declaring keep up. -/
structure Numbered (H : Hierarchy) : Prop where
  own : ∀ k < H.count, (H.clazz k).Numbered
  supers_lt : ∀ k < H.count, ∀ s ∈ H.supers k, s < H.count
  /-- the superclasses of the superclass are further up -/
  tail : ∀ k < H.count, ∀ s rest, H.supers k = s :: rest → H.supers s = rest
  start_root : ∀ k < H.count, H.supers k = [] → (H.clazz k).staticFieldStartId = 0
  start : ∀ k < H.count, ∀ s rest, H.supers k = s :: rest →
    (H.clazz k).staticFieldStartId = (H.clazz s).staticFieldCount

/-- A change of one class that leaves its offset alone, and its count too if it has subclasses. -/
theorem Numbered.update (h : Numbered H) {c : Class} (hc : k < H.count → c.Numbered)
    (hstart : c.staticFieldStartId = (H.clazz k).staticFieldStartId)
    (hcount : c.staticFieldCount = (H.clazz k).staticFieldCount ∨ H.Unextended k) :
    Numbered (H.update k c) where
  own j hj := by
    by_cases hjk : j = k
    · subst hjk
      simpa [Hierarchy.update] using hc hj
    · simpa [Hierarchy.update, hjk] using h.own j hj
  supers_lt := h.supers_lt
  tail := h.tail
  start_root j hj hroot := by
    have hj0 := h.start_root j hj hroot
    by_cases hjk : j = k
    · subst hjk
      simpa [Hierarchy.update, hstart] using hj0
    · simpa [Hierarchy.update, hjk] using hj0
  start j hj s rest hsupers := by
    have hj0 : (H.clazz j).staticFieldStartId = _ := h.start j hj s rest hsupers
    have hoffset : ((H.update k c).clazz j).staticFieldStartId = (H.clazz j).staticFieldStartId := by
      by_cases hjk : j = k
      · subst hjk
        simpa [Hierarchy.update] using hstart
      · simp [Hierarchy.update, hjk]
    have hsuper : ((H.update k c).clazz s).staticFieldCount = (H.clazz s).staticFieldCount := by
      by_cases hsk : s = k
      · subst hsk
        rcases hcount with hcount | hopen
        · simpa [Hierarchy.update] using hcount
        · exact absurd (hsupers ▸ List.mem_cons_self) (hopen j hj)
      · simp [Hierarchy.update, hsk]
    rw [hoffset, hsuper, hj0]

theorem create_old (superClass : Option ℕ) (name : String) (hk : k < H.count) :
    (H.create superClass name).clazz k = H.clazz k ∧
      (H.create superClass name).supers k = H.supers k := by
  have hne : k ≠ H.count := Nat.ne_of_lt hk
  simp [Hierarchy.create, hne]

theorem create_new (superClass : Option ℕ) (name : String) :
    (H.create superClass name).clazz H.count = Class.create (superClass.map H.clazz) name ∧
      (H.create superClass name).supers H.count = (superClass.map H.chain).getD [] := by
  simp [Hierarchy.create]

theorem Numbered.create (h : Numbered H) {superClass : Option ℕ} (name : String)
    (hsuper : ∀ s, superClass = some s → s < H.count) : Numbered (H.create superClass name) := by
  obtain ⟨hclazz, hsupers⟩ := create_new (H := H) superClass name
  have hold (k : ℕ) (hk : k < H.count) := create_old superClass name hk
  have hcases (k : ℕ) (hk : k < (H.create superClass name).count) : k < H.count ∨ k = H.count :=
    Nat.lt_succ_iff_lt_or_eq.mp hk
  constructor
  · intro k hk
    rcases hcases k hk with hlt | rfl
    · rw [(hold k hlt).1]
      exact h.own k hlt
    · rw [hclazz]
      exact Class.Numbered.create _ name
  · intro k hk s hs
    refine Nat.lt_succ_of_lt ?_
    rcases hcases k hk with hlt | rfl
    · rw [(hold k hlt).2] at hs
      exact h.supers_lt k hlt s hs
    · rw [hsupers] at hs
      cases superClass with
      | none => cases hs
      | some s₀ =>
        rcases List.mem_cons.mp hs with rfl | hs
        · exact hsuper _ rfl
        · exact h.supers_lt s₀ (hsuper _ rfl) s hs
  · intro k hk s rest heq
    rcases hcases k hk with hlt | rfl
    · rw [(hold k hlt).2] at heq
      have hs : s < H.count := h.supers_lt k hlt s (heq ▸ List.mem_cons_self)
      rw [(hold s hs).2]
      exact h.tail k hlt s rest heq
    · rw [hsupers] at heq
      cases superClass with
      | none => cases heq
      | some s₀ =>
        obtain ⟨rfl, rfl⟩ := List.cons.inj heq
        rw [(hold s₀ (hsuper _ rfl)).2]
  · intro k hk hroot
    rcases hcases k hk with hlt | rfl
    · rw [(hold k hlt).2] at hroot
      rw [(hold k hlt).1]
      exact h.start_root k hlt hroot
    · rw [hsupers] at hroot
      rw [hclazz]
      cases superClass with
      | none => rfl
      | some s₀ => cases hroot
  · intro k hk s rest heq
    rcases hcases k hk with hlt | rfl
    · rw [(hold k hlt).2] at heq
      have hs : s < H.count := h.supers_lt k hlt s (heq ▸ List.mem_cons_self)
      rw [(hold k hlt).1, (hold s hs).1]
      exact h.start k hlt s rest heq
    · rw [hsupers] at heq
      cases superClass with
      | none => cases heq
      | some s₀ =>
        obtain ⟨rfl, rfl⟩ := List.cons.inj heq
        rw [hclazz, (hold s₀ (hsuper _ rfl)).1]
        rfl

theorem Declared.numbered (h : Declared H) : Numbered H := by
  induction h with
  | empty => exact ⟨fun _ h => absurd h (Nat.not_lt_zero _), fun _ h => absurd h (Nat.not_lt_zero _),
      fun _ h => absurd h (Nat.not_lt_zero _), fun _ h => absurd h (Nat.not_lt_zero _),
      fun _ h => absurd h (Nat.not_lt_zero _)⟩
  | create superClass name _ hsuper ih => exact ih.create name hsuper
  | addField name _ hk _ ih => exact ih.update (fun hk => ⟨(ih.own _ hk).count, (ih.own _ hk).ids⟩) rfl (.inl rfl)
  | addStaticField name value _ hk hopen ih =>
    exact ih.update (fun hk => (ih.own _ hk).addStaticField name value) rfl (.inr hopen)
  | addMethod name function _ ih =>
    exact ih.update (fun hk => ⟨(ih.own _ hk).count, (ih.own _ hk).ids⟩) rfl (.inl rfl)
  | setStaticField _ hset ih =>
    obtain ⟨c, hc, rfl⟩ := Option.map_eq_some_iff.mp hset
    obtain ⟨i, -, rfl⟩ := Option.map_eq_some_iff.mp hc
    exact ih.update (fun hk => (ih.own _ hk).setStaticField hc) rfl (.inl rfl)

/-! ## What goes wrong below a static field -/

theorem mapM_id_eq_some {α : Type} {l : List (Option α)} {vs : List α} (h : l.mapM id = some vs) :
    l = vs.map some := by
  induction l generalizing vs with
  | nil =>
    obtain rfl : [] = vs := Option.some.inj h
    rfl
  | cons x l ih =>
    obtain ⟨v, hv, hrest⟩ := Option.bind_eq_some_iff.mp ((List.mapM_cons (m := Option)).symm.trans h)
    obtain ⟨vs', hvs', heq⟩ := Option.bind_eq_some_iff.mp hrest
    obtain rfl : v :: vs' = vs := Option.some.inj heq
    rw [ih hvs', List.map_cons]
    exact congrArg (· :: _) hv

/-- No class that has subclasses has static fields, own or inherited. -/
def StaticFree (H : Hierarchy) : Prop :=
  ∀ k < H.count, ∀ s ∈ H.supers k, (H.clazz s).staticFieldCount = 0

theorem Numbered.staticFree_iff (h : Numbered H) :
    H.StaticFree ↔ ∀ k < H.count, (H.clazz k).staticFieldStartId = 0 := by
  constructor
  · intro hfree k hk
    cases hs : H.supers k with
    | nil => exact h.start_root k hk hs
    | cons s rest => exact (h.start k hk s rest hs).trans (hfree k hk s (hs ▸ List.mem_cons_self))
  · intro hstart k hk
    -- along the superclasses
    suffices ∀ l k, k < H.count → H.supers k = l → ∀ s ∈ l, (H.clazz s).staticFieldCount = 0 from
      this _ k hk rfl
    intro l
    induction l with
    | nil => exact fun _ _ _ s hs => by cases hs
    | cons s₀ rest ih =>
      intro k hk hsupers s hs
      have hs₀ : s₀ < H.count := h.supers_lt k hk s₀ (hsupers ▸ List.mem_cons_self)
      rcases List.mem_cons.mp hs with rfl | hs
      · rw [← h.start k hk _ rest hsupers]
        exact hstart k hk
      · exact ih s₀ hs₀ (h.tail k hk s₀ rest hsupers) s hs

/-- A scan that stays in range starts every class that has static fields at offset 0. -/
theorem Numbered.start_of_scan (h : Numbered H) {vs : List Value}
    (hscan : staticRoots H.classes = some vs) (hk : k < H.count) :
    (H.clazz k).staticFieldStartId = 0 := by
  by_contra hpos
  have hcount := (h.own k hk).count
  have hmem : (H.clazz k).getStaticField 0 ∈ vs.map some := by
    rw [← mapM_id_eq_some hscan]
    refine List.mem_flatMap.mpr ⟨H.clazz k, List.mem_map_of_mem (List.mem_range.mpr hk), ?_⟩
    exact List.mem_map_of_mem (List.mem_range.mpr (by omega))
  obtain ⟨v, -, hv⟩ := List.mem_map.mp hmem
  have hnone : (H.clazz k).getStaticField 0 = none := if_pos (Nat.pos_of_ne_zero hpos)
  rw [hnone] at hv
  cases hv

/-- Without static fields further up a name is found in the class itself. -/
theorem Numbered.lookup_own (h : Numbered H) (hfree : H.StaticFree) (hk : k < H.count)
    {name : String} {id : ℕ} (hid : H.getStaticFieldId k name = some id) :
    (H.clazz k).staticFields.lookup name = some id := by
  have hid' : (H.clazz k :: (H.supers k).map H.clazz).findSome?
      (fun c => c.staticFields.lookup name) = some id := hid
  rw [List.findSome?_cons] at hid'
  cases hown : (H.clazz k).staticFields.lookup name with
  | some id' =>
    rw [hown] at hid'
    exact hid'
  | none =>
    rw [hown] at hid'
    obtain ⟨c, hc, hlookup⟩ := List.exists_of_findSome?_eq_some hid'
    obtain ⟨s, hs, rfl⟩ := List.mem_map.mp hc
    have hlt := ((h.own s (h.supers_lt k hk s hs)).ids name id hlookup).2
    rw [hfree k hk s hs] at hlt
    exact absurd hlt (Nat.not_lt_zero _)

/-- **Static fields are in range and shared exactly in those hierarchies in which no class that has
    subclasses has static fields.** -/
theorem sharedStatics_iff (h : Declared H) : SharedStatics H ↔ H.StaticFree := by
  have hnum := h.numbered
  constructor
  · intro hshared
    exact hnum.staticFree_iff.mpr fun k hk => hnum.start_of_scan hshared.scan hk
  · intro hfree
    have hstart := hnum.staticFree_iff.mp hfree
    constructor
    · intro k hk name id d hid hd
      have hown := hnum.lookup_own hfree hk hid
      have hdk : H.declaringClass k name = some k := by
        unfold declaringClass chain
        rw [List.find?_cons_of_pos]
        rw [hown]
        rfl
      obtain rfl : k = d := Option.some.inj (hdk.symm.trans hd)
      have hindex := (hnum.own k hk).staticIndex hown
      exact ⟨_, congrArg _ hindex, congrArg _ hindex⟩
    · have hmap : H.classes.flatMap (fun c => (List.range c.staticFieldCount).map c.getStaticField) =
          (H.classes.flatMap Class.staticValues).map some := by
        rw [List.map_flatMap]
        refine List.flatMap_congr fun c hc => ?_
        obtain ⟨k, hk, rfl⟩ := List.mem_map.mp hc
        have hk := List.mem_range.mp hk
        have hcount := (hnum.own k hk).count
        rw [hstart k hk, Nat.zero_add] at hcount
        exact Class.getStaticField_range (hstart k hk) hcount
      rw [staticRoots, hmap, mapM_id_map_some]

/-- `Sub` below `Base`, which has the static field `out`. -/
def inheritedStatic : Hierarchy :=
  ((empty.create none "Base").addStaticField 0 "out" none).create (some 0) "Sub"

theorem inheritedStatic_declared : Declared inheritedStatic := by
  have hbase : Declared (empty.create none "Base") := .create none "Base" .empty nofun
  refine .create (some 0) "Sub" (.addStaticField "out" none hbase (Nat.zero_lt_one) ?_) ?_
  · intro j hj
    obtain rfl : j = 0 := Nat.lt_one_iff.mp hj
    exact List.not_mem_nil
  · rintro s ⟨⟩
    exact Nat.zero_lt_one

/-- `Sub` finds `out` at id 0 and has no element there. -/
theorem inheritedStatic_not_shared : Declared inheritedStatic ∧
    inheritedStatic.getStaticFieldId 1 "out" = some 0 ∧
    inheritedStatic.staticElement 1 0 = none ∧ inheritedStatic.staticElement 0 0 = some (0, 0) ∧
    staticRoots inheritedStatic.classes = none ∧ ¬ SharedStatics inheritedStatic := by
  refine ⟨inheritedStatic_declared, by decide, by decide, by decide, by decide, fun h => ?_⟩
  obtain ⟨element, h1, -⟩ := h.access 1 (by decide) "out" 0 0 (by decide) (by decide)
  have hnone : inheritedStatic.staticElement 1 0 = none := by decide
  rw [hnone] at h1
  cases h1

/-- `Sub` with the static field `out` below `Base`. -/
def ownStatic : Hierarchy :=
  ((empty.create none "Base").create (some 0) "Sub").addStaticField 1 "out" none

theorem ownStatic_declared : Declared ownStatic := by
  have hbase : Declared (empty.create none "Base") := .create none "Base" .empty nofun
  have hsub : Declared ((empty.create none "Base").create (some 0) "Sub") := by
    refine .create (some 0) "Sub" hbase ?_
    rintro s ⟨⟩
    exact Nat.zero_lt_one
  refine .addStaticField "out" none hsub (by decide) ?_
  unfold Unextended
  decide

theorem ownStatic_shared : SharedStatics ownStatic := by
  refine (sharedStatics_iff ownStatic_declared).mpr ?_
  unfold StaticFree
  decide

end Hierarchy

end B0rk
