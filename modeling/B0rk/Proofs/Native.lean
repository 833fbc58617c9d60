import B0rk.Hierarchy
import Mathlib.Logic.Relation

set_option autoImplicit false

/-! # The native part of an object

Every class leaves one slot free for a native object, in front of the fields that it declares, but
`setNativeObject` and `getNativeObject` take the slot behind them: the one of the last declared field.
`classIdx` is the class of the object, and `native` says which classes have a native part.
`native_own` is about runs in which no field and no other class gets the slot of one of them. -/

namespace B0rk

/-- An object and the classes. `last` is not in the source: what `setNativeObject` was last called
    with, for each class. -/
structure NativeState where
  hierarchy : Hierarchy
  object : Object
  last : ℕ → Option Word

inductive NativeOp
  | addField (clazz : ℕ) (name : String)
  | setNativeObject (clazz : ℕ) (object : Word)
  | getNativeObject (clazz : ℕ)
  /-- `setValue` on a field, under the name that the class has declared it with -/
  | setValue (clazz : ℕ) (name : String) (v : Value)

def NativeState.run (s : NativeState) : NativeOp → NativeState
  | .addField k name => { s with hierarchy := s.hierarchy.addField k name }
  | .setNativeObject c p =>
      { s with
        object := s.object.setNativeObject (s.hierarchy.clazz c) p
        last := Function.update s.last c (some p) }
  | .getNativeObject _ => s
  | .setValue k name v =>
      match (s.hierarchy.clazz k).fields.lookup name with
      | some slot => { s with object := s.object.setValue slot v }
      | none => s

variable (classIdx : ℕ) (native : ℕ → Prop)

/-- A field of the object has this slot. -/
def Hierarchy.Named (H : Hierarchy) (slot : ℕ) : Prop :=
  ∃ k ∈ H.chain classIdx, ∃ name, (H.clazz k).fields.lookup name = some slot

/-- The classes of the object that have a native part. -/
def Hierarchy.NativeClass (H : Hierarchy) (c : ℕ) : Prop := c ∈ H.chain classIdx ∧ native c

/-- **The native part is the object's own**: `getNativeObject` returns what `setNativeObject` was last
    called with, and calling it leaves all fields alone. -/
structure NativeState.Own (s : NativeState) : Prop where
  last : ∀ c p, s.hierarchy.NativeClass classIdx native c → s.last c = some p →
    s.object.getNativeObject (s.hierarchy.clazz c) = p
  fields : ∀ c p slot, s.hierarchy.NativeClass classIdx native c → s.hierarchy.Named classIdx slot →
    (s.object.setNativeObject (s.hierarchy.clazz c) p).values slot = s.object.values slot

/-! ## Slots -/

/-- No field and no other native part has the slot of a native part. -/
structure Hierarchy.Separate (H : Hierarchy) : Prop where
  named : ∀ c, H.NativeClass classIdx native c → ¬ H.Named classIdx (H.clazz c).nativeField
  apart : ∀ c d, H.NativeClass classIdx native c → H.NativeClass classIdx native d → c ≠ d →
    (H.clazz c).nativeField ≠ (H.clazz d).nativeField

/-- What an operation may do. A class of the object that has a native part is given no field: only a
    name that it has already, as long as nothing has been stored, and if the slot that this uses up is
    free. A field of one of the other classes does not get the slot of a native part. -/
def NativeState.Allows (s : NativeState) : NativeOp → Prop
  | .addField k name =>
      let H := s.hierarchy
      let slot := (H.clazz k).fieldCount
      k ∈ H.chain classIdx →
        (((H.clazz k).fields.lookup name).isSome = false →
          ¬ native k ∧ ∀ c, H.NativeClass classIdx native c → (H.clazz c).nativeField ≠ slot) ∧
        (native k → s.last k = none ∧ ¬ H.Named classIdx slot ∧
          ∀ c, H.NativeClass classIdx native c → c ≠ k → (H.clazz c).nativeField ≠ slot)
  | .setNativeObject c _ => s.hierarchy.NativeClass classIdx native c
  | .getNativeObject c => s.hierarchy.NativeClass classIdx native c
  | .setValue k _ _ => k ∈ s.hierarchy.chain classIdx

/-- A run of operations that are allowed. -/
def NativeRun : NativeState → NativeState → Prop :=
  Relation.ReflTransGen (fun s t => ∃ op, s.Allows classIdx native op ∧ t = s.run op)

section

variable {classIdx native} {H : Hierarchy} {s t : NativeState}

/-- Storing a native object leaves all fields alone exactly if none of them has its slot. -/
theorem setNativeObject_fields_iff (H : Hierarchy) (c : ℕ) :
    (∀ (o : Object) (p : Word) (slot : ℕ), H.Named classIdx slot →
      (o.setNativeObject (H.clazz c) p).values slot = o.values slot) ↔
    ¬ H.Named classIdx (H.clazz c).nativeField := by
  constructor
  · intro h hnamed
    have hone := h Object.zeroed 1 _ hnamed
    simp [Object.setNativeObject, Object.zeroed, Value.zero] at hone
  · intro h o p slot hslot
    have hne : slot ≠ (H.clazz c).nativeField := fun heq => h (heq ▸ hslot)
    exact Function.update_of_ne hne _ _

/-! ## A field more -/

theorem addField_nativeField (H : Hierarchy) (k c : ℕ) (name : String) :
    ((H.addField k name).clazz c).nativeField =
      if c = k then (H.clazz k).fieldCount else (H.clazz c).nativeField := by
  by_cases hck : c = k
  · subst hck
    simp [Hierarchy.addField, Hierarchy.update, Class.addField, Class.nativeField]
  · simp [Hierarchy.addField, Hierarchy.update, hck]

theorem lookup_insertNew_iff {fields : List (String × ℕ)} {name : String} {id slot : ℕ} :
    (∃ name', (insertNew fields name id).lookup name' = some slot) ↔
      (∃ name', fields.lookup name' = some slot) ∨
        (fields.lookup name).isSome = false ∧ slot = id := by
  unfold insertNew
  by_cases htaken : (fields.lookup name).isSome = true
  · simp [htaken]
  · rw [if_neg htaken]
    have hnew : (fields.lookup name).isSome = false := Bool.not_eq_true _ ▸ htaken
    constructor
    · rintro ⟨name', hlookup⟩
      rw [List.lookup_cons] at hlookup
      split at hlookup
      · exact .inr ⟨hnew, (Option.some.inj hlookup).symm⟩
      · exact .inl ⟨name', hlookup⟩
    · rintro (⟨name', hlookup⟩ | ⟨-, rfl⟩)
      · refine ⟨name', ?_⟩
        rw [List.lookup_cons]
        split
        · next heq =>
          rw [eq_of_beq heq] at hlookup
          rw [hlookup] at hnew
          cases hnew
        · exact hlookup
      · exact ⟨name, List.lookup_cons_self⟩

/-- A name that is taken uses up a slot without becoming the name of it. -/
theorem addField_named (H : Hierarchy) (k : ℕ) (name : String) (slot : ℕ) :
    (H.addField k name).Named classIdx slot ↔ H.Named classIdx slot ∨
      k ∈ H.chain classIdx ∧ ((H.clazz k).fields.lookup name).isSome = false ∧
        slot = (H.clazz k).fieldCount := by
  have hown : ((H.addField k name).clazz k).fields =
      insertNew (H.clazz k).fields name (H.clazz k).fieldCount := by
    simp [Hierarchy.addField, Hierarchy.update, Class.addField]
  have hother (i : ℕ) (hik : i ≠ k) : (H.addField k name).clazz i = H.clazz i :=
    Function.update_of_ne hik _ _
  constructor
  · rintro ⟨i, hi, hlookup⟩
    by_cases hik : i = k
    · subst hik
      rw [hown, lookup_insertNew_iff] at hlookup
      exact hlookup.imp (⟨i, hi, ·⟩) (⟨hi, ·⟩)
    · rw [hother i hik] at hlookup
      exact .inl ⟨i, hi, hlookup⟩
  · rintro (⟨i, hi, hlookup⟩ | ⟨hk, hnew⟩)
    · refine ⟨i, hi, ?_⟩
      by_cases hik : i = k
      · subst hik
        rw [hown, lookup_insertNew_iff]
        exact .inl hlookup
      · rw [hother i hik]
        exact hlookup
    · refine ⟨k, hk, ?_⟩
      rw [hown, lookup_insertNew_iff]
      exact .inr hnew

theorem Hierarchy.Separate.addField (h : H.Separate classIdx native) {k : ℕ} {name : String}
    (hallow : (⟨H, s.object, s.last⟩ : NativeState).Allows classIdx native (.addField k name)) :
    (H.addField k name).Separate classIdx native := by
  constructor
  · intro c hc hnamed
    rw [addField_nativeField] at hnamed
    rcases (addField_named H k name _).mp hnamed with hold | ⟨hk, hnew, hslot⟩
    · split at hold
      · next hck =>
        subst hck
        exact ((hallow hc.1).2 hc.2).2.1 hold
      · exact h.named c hc hold
    · obtain ⟨hnative, hfree⟩ := (hallow hk).1 hnew
      split at hslot
      · next hck => exact hnative (hck ▸ hc.2)
      · exact hfree c hc hslot
  · intro c d hc hd hcd
    rw [addField_nativeField, addField_nativeField]
    split
    · next hck =>
      subst hck
      rw [if_neg (Ne.symm hcd)]
      exact Ne.symm (((hallow hc.1).2 hc.2).2.2 d hd (Ne.symm hcd))
    · split
      · next hdk =>
        subst hdk
        exact ((hallow hd.1).2 hd.2).2.2 c hc hcd
      · exact h.apart c d hc hd hcd

/-- Nothing else is forbidden: an operation that is not allowed lets two share a slot, or moves the slot
    of a native object that is there. -/
theorem addField_allowed_iff (h : s.hierarchy.Separate classIdx native) {k : ℕ} {name : String} :
    s.Allows classIdx native (.addField k name) ↔
      (s.hierarchy.addField k name).Separate classIdx native ∧
        (s.hierarchy.NativeClass classIdx native k → s.last k = none) := by
  constructor
  · intro hallow
    exact ⟨Hierarchy.Separate.addField (s := s) h hallow, fun hk => ((hallow hk.1).2 hk.2).1⟩
  · rintro ⟨hsep, hlast⟩ hk
    have hnamed : (s.hierarchy.addField k name).Named classIdx (s.hierarchy.clazz k).fieldCount ↔ _ :=
      addField_named s.hierarchy k name _
    refine ⟨fun hnew => ⟨fun hnative => ?_, fun c hc heq => ?_⟩, fun hnative => ⟨?_, ?_, ?_⟩⟩
    · refine hsep.named k ⟨hk, hnative⟩ ?_
      rw [addField_nativeField, if_pos rfl]
      exact hnamed.mpr (.inr ⟨hk, hnew, rfl⟩)
    · by_cases hck : c = k
      · subst hck
        refine hsep.named c hc ?_
        rw [addField_nativeField, if_pos rfl]
        exact hnamed.mpr (.inr ⟨hk, hnew, rfl⟩)
      · refine hsep.named c hc ?_
        rw [addField_nativeField, if_neg hck, heq]
        exact hnamed.mpr (.inr ⟨hk, hnew, rfl⟩)
    · exact hlast ⟨hk, hnative⟩
    · intro hold
      refine hsep.named k ⟨hk, hnative⟩ ?_
      rw [addField_nativeField, if_pos rfl]
      exact hnamed.mpr (.inl hold)
    · intro c hc hck heq
      refine hsep.apart c k hc ⟨hk, hnative⟩ hck ?_
      rw [addField_nativeField, addField_nativeField, if_neg hck, if_pos rfl, heq]

/-! ## Runs -/

/-- What holds between two operations. -/
structure NativeState.Kept (classIdx : ℕ) (native : ℕ → Prop) (s : NativeState) : Prop where
  separate : s.hierarchy.Separate classIdx native
  last : ∀ c p, s.hierarchy.NativeClass classIdx native c → s.last c = some p →
    s.object.getNativeObject (s.hierarchy.clazz c) = p

theorem NativeState.Kept.own (h : s.Kept classIdx native) : s.Own classIdx native where
  last := h.last
  fields c p slot hc hslot :=
    (setNativeObject_fields_iff s.hierarchy c).mpr (h.separate.named c hc) s.object p slot hslot

theorem NativeState.Kept.step (h : s.Kept classIdx native) {op : NativeOp}
    (hallow : s.Allows classIdx native op) : (s.run op).Kept classIdx native := by
  cases op with
  | addField k name =>
    refine ⟨Hierarchy.Separate.addField (s := s) h.separate hallow, ?_⟩
    intro c p hc hlast
    have hck : c ≠ k := by
      rintro rfl
      have hnone : s.last c = none := ((hallow hc.1).2 hc.2).1
      cases hnone.symm.trans hlast
    show (s.object.values ((s.hierarchy.addField k name).clazz c).nativeField).bits = p
    rw [addField_nativeField, if_neg hck]
    exact h.last c p hc hlast
  | setNativeObject c p =>
    refine ⟨h.separate, ?_⟩
    intro d q hd hlast
    by_cases hdc : d = c
    · subst hdc
      have hlast' : Function.update s.last d (some p) d = some q := hlast
      rw [Function.update_self] at hlast'
      obtain rfl := Option.some.inj hlast'
      simp [NativeState.run, Object.getNativeObject, Object.setNativeObject]
    · have hlast' : s.last d = some q := (Function.update_of_ne hdc _ _).symm.trans hlast
      have hslot := h.separate.apart d c hd hallow hdc
      simpa [NativeState.run, Object.getNativeObject, Object.setNativeObject, hslot] using
        h.last d q hd hlast'
  | getNativeObject c => exact h
  | setValue k name v =>
    cases hslot : (s.hierarchy.clazz k).fields.lookup name with
    | none => simpa only [NativeState.run, hslot] using h
    | some slot =>
      have hrun : s.run (.setValue k name v) = { s with object := s.object.setValue slot v } := by
        simp only [NativeState.run, hslot]
      rw [hrun]
      refine ⟨h.separate, ?_⟩
      intro c p hc hlast
      have hne : (s.hierarchy.clazz c).nativeField ≠ slot := fun heq =>
        h.separate.named c hc ⟨k, hallow, name, heq ▸ hslot⟩
      show ((Function.update s.object.values slot v) _).bits = p
      rw [Function.update_of_ne hne]
      exact h.last c p hc hlast

/-- **The native part of an object is its own** in every run from a new object of a hierarchy whose
    native parts have slots of their own, as long as the operations are the allowed ones. -/
theorem native_own (hstart : s.hierarchy.Separate classIdx native) (hnew : ∀ c, s.last c = none)
    (hrun : NativeRun classIdx native s t) : t.Own classIdx native := by
  have hkept : t.Kept classIdx native := by
    induction hrun with
    | refl => exact ⟨hstart, fun c p _ hlast => by cases (hnew c).symm.trans hlast⟩
    | tail _ hstep ih =>
      obtain ⟨op, hallow, rfl⟩ := hstep
      exact ih.step hallow
  exact hkept.own

end

/-- An object of `Box`, which declares the field `x`. -/
def boxState : NativeState :=
  ⟨(Hierarchy.empty.create none "Box").addField 0 "x", Object.zeroed, fun _ => none⟩

/-- `x` is in the slot of the native object: each overwrites the other. -/
theorem boxState_not_own :
    boxState.hierarchy.getFieldId 0 "x" = some 1 ∧
      (boxState.run (.setNativeObject 0 7)).object.values 1 ≠ boxState.object.values 1 ∧
      ((boxState.run (.setNativeObject 0 7)).run (.setValue 0 "x" (.integer 5))).object.getNativeObject
        (boxState.hierarchy.clazz 0) = 5 ∧
      ¬ boxState.Own 0 (fun c => c = 0) := by
  refine ⟨by decide, by decide, by decide, fun h => ?_⟩
  have hx := h.fields 0 7 1 ⟨List.mem_cons_self, rfl⟩ ⟨0, List.mem_cons_self, "x", by decide⟩
  revert hx
  decide

/-- An object of `Sub`, which declares the field `x`, below `Base`, which has a native part. -/
def subState : NativeState :=
  ⟨((Hierarchy.empty.create none "Base").create (some 0) "Sub").addField 1 "x", Object.zeroed,
    fun _ => none⟩

theorem subState_separate : subState.hierarchy.Separate 1 (fun c => c = 0) := by
  constructor
  · rintro c ⟨-, rfl⟩ ⟨k, hk, name, hname⟩
    have hk' : k ∈ [1, 0] := hk
    simp only [List.mem_cons, List.not_mem_nil, or_false] at hk'
    rcases hk' with rfl | rfl
    · have hfields : (subState.hierarchy.clazz 1).fields = [("x", 2)] := by decide
      rw [hfields, List.lookup_cons] at hname
      split at hname <;> cases hname
    · cases hname
  · rintro c d ⟨-, rfl⟩ ⟨-, rfl⟩ hcd
    exact absurd rfl hcd

theorem subState_own :
    (((subState.run (.setNativeObject 0 7)).run (.addField 1 "y")).run
      (.setValue 1 "y" (.integer 5))).Own 1 (fun c => c = 0) := by
  refine native_own subState_separate (fun _ => rfl) ?_
  have hset : subState.Allows 1 (fun c => c = 0) (.setNativeObject 0 7) := by
    refine ⟨?_, rfl⟩
    decide
  have hadd : (subState.run (.setNativeObject 0 7)).Allows 1 (fun c => c = 0)
      (.addField 1 "y") := by
    intro _
    refine ⟨fun _ => ⟨by decide, ?_⟩, fun h => by cases h⟩
    rintro c ⟨-, rfl⟩
    decide
  refine ((Relation.ReflTransGen.single ⟨_, hset, rfl⟩).tail ⟨_, hadd, rfl⟩).tail
    ⟨.setValue 1 "y" (.integer 5), ?_, rfl⟩
  show 1 ∈ [1, 0]
  decide

end B0rk
