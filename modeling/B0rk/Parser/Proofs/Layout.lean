import B0rk.Lib.Ensures
import B0rk.Parser.Loader
import Mathlib.Data.List.Nodup
import Mathlib.Data.List.Perm.Subperm
import Mathlib.Logic.Relation

set_option autoImplicit false

/-! # The layout of instances

A subclass starts its fields behind those that its superclass has when the subclass is made. Since that
may happen in the middle of the superclass, what the superclass declares later can come to lie on the
slots of the subclass; one slot is left free between the two, so that one such field does no harm. -/

namespace B0rk

/-! ## One class -/

def Class.slots (c : Class) : List ℕ := c.fields.map Prod.snd

/-- The fields of a class have slots of their own behind those of its superclass. -/
structure Class.SlotsInv (c : Class) : Prop where
  start_lt : c.fieldStartId < c.fieldCount
  bounds : ∀ slot ∈ c.slots, c.fieldStartId < slot ∧ slot < c.fieldCount
  nodup : c.slots.Nodup

theorem Class.create_slotsInv (superClass : Class) (name : String) :
    (Class.create (some superClass) name).SlotsInv :=
  ⟨Nat.lt_succ_self _, nofun, List.nodup_nil⟩

theorem Class.addField_slots (c : Class) (name : String) :
    (c.addField name).slots = c.slots ∨ (c.addField name).slots = c.fieldCount :: c.slots := by
  unfold addField insertNew slots
  split
  · exact .inl rfl
  · exact .inr rfl

theorem Class.SlotsInv.addField {c : Class} (h : c.SlotsInv) (name : String) :
    (c.addField name).SlotsInv := by
  have hcount : (c.addField name).fieldCount = c.fieldCount + 1 := rfl
  have hstart : (c.addField name).fieldStartId = c.fieldStartId := rfl
  have hold : ∀ slot ∈ c.slots, c.fieldStartId < slot ∧ slot < c.fieldCount + 1 := fun slot hslot =>
    ⟨(h.bounds slot hslot).1, Nat.lt_succ_of_lt (h.bounds slot hslot).2⟩
  refine ⟨Nat.lt_succ_of_lt h.start_lt, ?_, ?_⟩
  · rw [hcount, hstart]
    rcases c.addField_slots name with hslots | hslots <;> rw [hslots]
    · exact hold
    · exact List.forall_mem_cons.2 ⟨⟨h.start_lt, Nat.lt_succ_self _⟩, hold⟩
  · rcases c.addField_slots name with hslots | hslots <;> rw [hslots]
    · exact h.nodup
    · exact List.nodup_cons.2 ⟨fun hmem => absurd (h.bounds _ hmem).2 (Nat.lt_irrefl _), h.nodup⟩

/-- No field has been declared twice. -/
def Class.NoDuplicates (c : Class) : Prop := c.fieldStartId + 1 + c.fields.length = c.fieldCount

/-- Then every slot of the class belongs to a field. -/
theorem Class.SlotsInv.mem_slots {c : Class} (h : c.SlotsInv) (hdup : c.NoDuplicates) {slot : ℕ}
    (hlow : c.fieldStartId < slot) (hhigh : slot < c.fieldCount) : slot ∈ c.slots := by
  have hsub : c.slots ⊆ List.range' (c.fieldStartId + 1) c.fields.length := by
    intro s hs
    obtain ⟨hl, hu⟩ := h.bounds s hs
    rw [List.mem_range'_1]
    unfold NoDuplicates at hdup
    omega
  have hperm := (h.nodup.subperm hsub).perm_of_length_le (by simp [slots])
  refine hperm.mem_iff.2 ?_
  rw [List.mem_range'_1]
  unfold NoDuplicates at hdup
  omega

namespace Loader

/-! ## What loading does to the classes -/

/-- An entry changes in nothing that the layout depends on. -/
structure SameLayout (e e' : Entry) : Prop where
  name : e'.clazz.name = e.clazz.name
  start : e'.clazz.fieldStartId = e.clazz.fieldStartId
  count : e'.clazz.fieldCount = e.clazz.fieldCount
  fields : e'.clazz.fields = e.clazz.fields
  superClass : e'.superClass = e.superClass
  native : e'.native = e.native

/-- `clazz->addField(field)`. -/
def Entry.addField (field : String) (e : Entry) : Entry :=
  { e with clazz := e.clazz.addField field }

/-- The steps that loading consists of. A field is declared in the class `name` only when
    `early reg name`. -/
inductive ClassStep (early : Registry → String → Prop) : Registry → Registry → Prop
  | native {reg : Registry} (e : Entry) (hnative : e.native = true)
      (hnew : reg.find e.clazz.name = none) : ClassStep early reg (e :: reg)
  | create {reg : Registry} {s name : String} {e : Entry} (hsuper : reg.find s = some e)
      (hnew : reg.find name = none) :
      ClassStep early reg (⟨Class.create (some e.clazz) name, some s, .init, false, false⟩ :: reg)
  | field {reg : Registry} (name field : String) (hearly : early reg name) :
      ClassStep early reg (reg.update name (Entry.addField field))
  | other {reg : Registry} (name : String) (f : Entry → Entry) (hsame : ∀ e, SameLayout e (f e)) :
      ClassStep early reg (reg.update name f)

abbrev ClassSteps (early : Registry → String → Prop) : Registry → Registry → Prop :=
  Relation.ReflTransGen (ClassStep early)

/-- Fields may be declared at any time. -/
def anyTime (_ : Registry) (_ : String) : Prop := True

/-- What a step leaves behind has come from the classes `reg` by these steps. -/
abbrev Loads {α : Type} (reg : Registry) (x : Option (α × Registry)) : Prop :=
  Ensures x (fun p => ClassSteps anyTime reg p.2)

theorem ClassSteps.setState (reg : Registry) (name : String) (state : ClassState) :
    ClassSteps anyTime reg (reg.setState name state) :=
  .single (.other name _ fun _ => ⟨rfl, rfl, rfl, rfl, rfl, rfl⟩)

theorem ClassSteps.delete (reg : Registry) (name : String) :
    ClassSteps anyTime reg (reg.delete name) :=
  .single (.other name _ fun _ => ⟨rfl, rfl, rfl, rfl, rfl, rfl⟩)

theorem Loads.trans {α : Type} {reg reg' : Registry} {x : Option (α × Registry)}
    (hreg : ClassSteps anyTime reg reg') (hx : Loads reg' x) : Loads reg x :=
  Ensures.mono hx fun _ hp => hreg.trans hp

theorem Loads.bind {α β : Type} {reg : Registry} {x : Option (α × Registry)}
    {f : α × Registry → Option (β × Registry)} (hx : Loads reg x) (hf : ∀ a reg', Loads reg' (f (a, reg'))) :
    Loads reg (x >>= f) :=
  Ensures.bind hx fun p hp => Loads.trans hp (hf p.1 p.2)

section

variable {load : Load}

theorem findClass_loads (hload : ∀ name reg, Loads reg (load name reg)) (name : String) (mayLoad : Bool)
    (reg : Registry) : Loads reg (findClass load name mayLoad reg) := by
  unfold findClass
  split
  · exact Ensures.some .refl
  · exact Ensures.ite (fun _ => hload name reg) fun _ => Ensures.some .refl

theorem findDotted_loads (hload : ∀ name reg, Loads reg (load name reg)) (names : List String)
    (reg : Registry) : Loads reg (findDotted load names reg) := by
  induction names generalizing reg with
  | nil => exact Ensures.some .refl
  | cons name names ih =>
    unfold findDotted
    refine (findClass_loads hload name true reg).bind fun clazz reg' => ?_
    cases clazz with
    | none => exact ih reg'
    | some clazz => exact Ensures.some .refl

theorem parseRefs_loads (hload : ∀ name reg, Loads reg (load name reg)) (refs : List ClassRef)
    (reg : Registry) : Loads reg (parseRefs load refs reg) := by
  induction refs generalizing reg with
  | nil => exact Ensures.some .refl
  | cons ref refs ih =>
    cases ref with
    | imported name =>
      unfold parseRefs
      refine (findClass_loads hload name true reg).bind fun clazz reg' => ?_
      cases clazz with
      | none => exact Ensures.some .refl
      | some _ => exact ih reg'
    | dotted names =>
      unfold parseRefs
      exact (findDotted_loads hload names reg).bind fun _ reg' => ih reg'

theorem parseMembers_loads (hload : ∀ name reg, Loads reg (load name reg)) (name : String)
    (members : List Member) (reg : Registry) : Loads reg (parseMembers load name members reg) := by
  induction members generalizing reg with
  | nil => exact Ensures.some .refl
  | cons member members ih =>
    cases member with
    | field field => exact Loads.trans (.single (.field name field trivial)) (ih _)
    | staticField field value =>
      refine Loads.trans (.single (.other name (fun e => { e with
        clazz := e.clazz.addStaticField field value }) ?_)) (ih _)
      exact fun _ => ⟨rfl, rfl, rfl, rfl, rfl, rfl⟩
    | method refs =>
      unfold parseMembers
      refine (parseRefs_loads hload refs reg).bind fun ok reg' => ?_
      exact Ensures.ite (fun _ => ih reg') fun _ => Ensures.some .refl
    | malformed => exact Ensures.some .refl

theorem addClass_steps {superClass name : String} {reg : Registry} (hnew : reg.find name = none) :
    Ensures (addClass superClass name reg) (ClassSteps anyTime reg) := by
  unfold addClass
  refine Ensures.bind_eq fun e he => ?_
  exact Ensures.ite (fun _ => Ensures.none) fun _ => Ensures.some (.single (.create he hnew))

theorem openClass_loads (addToExisting : Bool) (superClass name : String) (reg : Registry) :
    Loads reg (openClass addToExisting superClass name reg) := by
  unfold openClass
  split
  · exact Ensures.ite (fun _ => Ensures.none) fun _ => Ensures.some .refl
  · next hnew =>
    intro p hp
    obtain ⟨reg', hreg', rfl⟩ := Option.map_eq_some_iff.1 hp
    exact addClass_steps hnew reg' hreg'

theorem parseBody_loads (hload : ∀ name reg, Loads reg (load name reg)) (addToExisting : Bool)
    (decl : ClassDecl) (superClass : String) (reg : Registry) :
    Loads reg (parseBody load addToExisting decl superClass reg) := by
  unfold parseBody
  refine (openClass_loads addToExisting superClass decl.name reg).bind fun goOn reg₁ => ?_
  refine Ensures.ite (fun _ => ?_) fun _ => Ensures.some .refl
  refine Loads.trans (.setState reg₁ decl.name .parsing) ?_
  refine (parseMembers_loads hload decl.name decl.members _).bind fun ok reg₂ => ?_
  exact Ensures.ite (fun _ => Ensures.some (.setState reg₂ decl.name .complete))
    fun _ => Ensures.some (.delete reg₂ decl.name)

theorem parseClass_loads (hload : ∀ name reg, Loads reg (load name reg)) (addToExisting : Bool)
    (decl : ClassDecl) (reg : Registry) : Loads reg (parseClass load addToExisting decl reg) := by
  unfold parseClass
  have hsuper : Loads reg (findSuperClass load decl reg) := by
    unfold findSuperClass
    split
    · next superName _ => exact findClass_loads hload superName true reg
    · exact Ensures.some .refl
  refine hsuper.bind fun superClass reg' => ?_
  cases superClass with
  | none => exact Ensures.some .refl
  | some superClass => exact parseBody_loads hload addToExisting decl superClass reg'

theorem parseClasses_loads (hload : ∀ name reg, Loads reg (load name reg)) (addToExisting : Bool)
    (decls : List ClassDecl) (reg : Registry) :
    Loads reg (parseClasses load addToExisting decls reg) := by
  induction decls generalizing reg with
  | nil => exact Ensures.some .refl
  | cons decl decls ih =>
    unfold parseClasses
    refine (parseClass_loads hload addToExisting decl reg).bind fun ok reg' => ?_
    exact Ensures.ite (fun _ => ih reg') fun _ => Ensures.some .refl

end

theorem loadClass_loads (files : String → Option SourceFile) (fuel : ℕ) (addToExisting : Bool)
    (name : String) (reg : Registry) : Loads reg (loadClass files fuel addToExisting name reg) := by
  induction fuel generalizing addToExisting name reg with
  | zero => exact Ensures.none
  | succ fuel ih =>
    unfold loadClass
    split
    · exact Ensures.some .refl
    · refine (parseClasses_loads (ih false) addToExisting _ reg).bind fun ok reg' => ?_
      exact Ensures.ite (fun _ => Ensures.some .refl) fun _ => Ensures.some .refl

/-! ## Looking classes up -/

theorem Registry.find_name {reg : Registry} {name : String} {e : Entry} (h : reg.find name = some e) :
    e.clazz.name = name := by
  simpa using List.find?_some h

theorem Registry.find_mem {reg : Registry} {name : String} {e : Entry} (h : reg.find name = some e) :
    e ∈ reg :=
  List.mem_of_find?_eq_some h

theorem Registry.find_cons_self (reg : Registry) (e : Entry) :
    Registry.find (e :: reg) e.clazz.name = some e :=
  List.find?_cons_of_pos (by simp)

theorem Registry.find_cons_of_ne {reg : Registry} {e : Entry} {name : String}
    (hne : e.clazz.name ≠ name) : Registry.find (e :: reg) name = reg.find name :=
  List.find?_cons_of_neg (by simpa using hne)

/-- A class stays found when one with a new name is added. -/
theorem Registry.find_cons_of_find {reg : Registry} {e e' : Entry} {name : String}
    (hnew : reg.find e.clazz.name = none) (h : reg.find name = some e') :
    Registry.find (e :: reg) name = some e' := by
  have hne : e.clazz.name ≠ name := by
    rintro rfl
    rw [hnew] at h
    cases h
  rw [Registry.find_cons_of_ne hne, h]

theorem Registry.find_update (reg : Registry) (name s : String) (f : Entry → Entry)
    (hname : ∀ e, (f e).clazz.name = e.clazz.name) :
    (reg.update name f).find s =
      (reg.find s).map (fun e => if e.clazz.name = name then f e else e) := by
  have hsame : (fun e : Entry => e.clazz.name == s) ∘ (fun e => if e.clazz.name = name then f e else e) =
      fun e => e.clazz.name == s := by
    funext e
    by_cases h : e.clazz.name = name
    · simp [h, hname]
    · simp [h]
  unfold Registry.find Registry.update
  rw [List.find?_map, hsame]

/-! ## What holds of the classes at any time -/

/-- What may happen to a class that is there: it gets further fields. -/
structure Extends (e e' : Entry) : Prop where
  name : e'.clazz.name = e.clazz.name
  start : e'.clazz.fieldStartId = e.clazz.fieldStartId
  superClass : e'.superClass = e.superClass
  native : e'.native = e.native
  slots : e.clazz.SlotsInv → e'.clazz.SlotsInv

theorem SameLayout.extends {e e' : Entry} (h : SameLayout e e') : Extends e e' := by
  refine ⟨h.name, h.start, h.superClass, h.native, fun hslots => ?_⟩
  have heq : e'.clazz.slots = e.clazz.slots := congrArg (List.map Prod.snd) h.fields
  exact ⟨h.start ▸ h.count ▸ hslots.start_lt, heq ▸ h.start ▸ h.count ▸ hslots.bounds,
    heq ▸ hslots.nodup⟩

theorem Entry.addField_extends (field : String) (e : Entry) : Extends e (e.addField field) :=
  ⟨rfl, rfl, rfl, rfl, fun hslots => hslots.addField field⟩

/-- A script class that has been added to the classes `older`. -/
structure EntryInv (older : Registry) (e : Entry) : Prop where
  slots : e.clazz.SlotsInv
  superClass : ∃ s parent, e.superClass = some s ∧ older.find s = some parent ∧
    (parent.native = false → parent.clazz.fieldStartId ≤ e.clazz.fieldStartId)

/-- Names are unique, and every script class is younger than its superclass. -/
def Registry.Inv : Registry → Prop
  | [] => True
  | e :: older =>
      Registry.Inv older ∧ Registry.find older e.clazz.name = none ∧
        (e.native = false → EntryInv older e)

theorem EntryInv.update {older : Registry} {e e' : Entry} {name : String} {f : Entry → Entry}
    (h : EntryInv older e) (hf : ∀ e, Extends e (f e)) (he : Extends e e') :
    EntryInv (older.update name f) e' := by
  obtain ⟨hslots, s, parent, hs, hfind, hle⟩ := h
  refine ⟨he.slots hslots, s, if parent.clazz.name = name then f parent else parent,
    he.superClass.trans hs, ?_, ?_⟩
  · rw [Registry.find_update older name s f fun e => (hf e).name, hfind]
    rfl
  · rw [he.start]
    split
    · rw [(hf parent).native, (hf parent).start]
      exact hle
    · exact hle

theorem Registry.Inv.update {reg : Registry} {name : String} {f : Entry → Entry} (h : reg.Inv)
    (hf : ∀ e, Extends e (f e)) : (reg.update name f).Inv := by
  induction reg with
  | nil => exact h
  | cons e older ih =>
    obtain ⟨hold, hnew, he⟩ := h
    have hext : Extends e (if e.clazz.name = name then f e else e) := by
      split
      · exact hf e
      · exact ⟨rfl, rfl, rfl, rfl, id⟩
    refine ⟨ih hold, ?_, fun hnative => (he (hext.native ▸ hnative)).update hf hext⟩
    have hfind := Registry.find_update older name e.clazz.name f fun e => (hf e).name
    rw [hnew, Option.map_none] at hfind
    rw [← hfind, ← hext.name]
    rfl

theorem Registry.Inv.entry {reg : Registry} (h : reg.Inv) {e : Entry} (he : e ∈ reg)
    (hnative : e.native = false) : e.clazz.SlotsInv := by
  induction reg with
  | nil => cases he
  | cons e' older ih =>
    rcases List.mem_cons.1 he with rfl | he
    · exact (h.2.2 hnative).slots
    · exact ih h.1 he

theorem ClassStep.inv {early : Registry → String → Prop} {reg reg' : Registry}
    (hstep : ClassStep early reg reg') (h : reg.Inv) : reg'.Inv := by
  cases hstep with
  | native e hnative hnew =>
    refine ⟨h, hnew, fun hscript => ?_⟩
    rw [hnative] at hscript
    cases hscript
  | @create s name e hsuper hnew =>
    refine ⟨h, hnew, fun _ => ⟨Class.create_slotsInv e.clazz name, s, e, rfl, hsuper, ?_⟩⟩
    intro hnative
    have hstart := (h.entry (Registry.find_mem hsuper) hnative).start_lt
    exact Nat.le_of_lt hstart
  | field name field hearly => exact h.update (Entry.addField_extends field)
  | other name f hsame => exact h.update fun e => (hsame e).extends

/-! ## The chain of a class -/

/-- A class and its superclasses, up to the first one that the runtime has made. -/
def scriptChain : Registry → String → List Class
  | [], _ => []
  | e :: older, name =>
      if e.clazz.name = name then
        if e.native then []
        else e.clazz :: (match e.superClass with
          | some s => scriptChain older s
          | none => [])
      else scriptChain older name

/-- The slots of a class and of the script classes that it extends. -/
def chainSlots (reg : Registry) (name : String) : List ℕ :=
  (scriptChain reg name).flatMap Class.slots

/-- Along the chain of every script class no two fields share a slot, and all slots are within the
    instance. -/
def Registry.LayoutOk (reg : Registry) : Prop :=
  ∀ name e, reg.find name = some e → e.native = false →
    (chainSlots reg name).Nodup ∧ ∀ slot ∈ chainSlots reg name, slot < e.clazz.fieldCount

/-- A field of the class `name` comes early: since the field before it no subclass has been made. -/
def declaredEarly (reg : Registry) (name : String) : Prop :=
  ∀ sub ∈ reg, sub.native = false → sub.superClass = some name →
    ∀ e, reg.find name = some e → e.native = false → e.clazz.fieldCount ≤ sub.clazz.fieldStartId

/-- A superclass has declared at most one field since its subclass was made. -/
def Registry.Slack (reg : Registry) : Prop :=
  ∀ sub ∈ reg, sub.native = false → ∀ s, sub.superClass = some s →
    ∀ e, reg.find s = some e → e.native = false → e.clazz.fieldCount ≤ sub.clazz.fieldStartId + 1

theorem scriptChain_native {reg : Registry} {name : String} {e : Entry} (h : reg.find name = some e)
    (hnative : e.native = true) : scriptChain reg name = [] := by
  induction reg with
  | nil => rfl
  | cons e' older ih =>
    by_cases hname : e'.clazz.name = name
    · subst hname
      rw [Registry.find_cons_self] at h
      obtain rfl := Option.some.inj h
      simp [scriptChain, hnative]
    · rw [Registry.find_cons_of_ne hname] at h
      rw [scriptChain, if_neg hname, ih h]

/-- A chain starts with its class and goes on with the chain of the superclass. -/
theorem scriptChain_script {reg : Registry} (hinv : reg.Inv) {name : String} {e : Entry}
    (h : reg.find name = some e) (hnative : e.native = false) :
    ∃ s parent, e.superClass = some s ∧ reg.find s = some parent ∧
      (parent.native = false → parent.clazz.fieldStartId ≤ e.clazz.fieldStartId) ∧
      scriptChain reg name = e.clazz :: scriptChain reg s := by
  induction reg with
  | nil => cases h
  | cons e' older ih =>
    obtain ⟨hold, hnew, he'⟩ := hinv
    by_cases hname : e'.clazz.name = name
    · subst hname
      rw [Registry.find_cons_self] at h
      obtain rfl := Option.some.inj h
      obtain ⟨-, s, parent, hs, hparent, hle⟩ := he' hnative
      have hne : e'.clazz.name ≠ s := by
        intro heq
        rw [heq, hparent] at hnew
        cases hnew
      refine ⟨s, parent, hs, Registry.find_cons_of_find hnew hparent, hle, ?_⟩
      simp [scriptChain, hnative, hs, hne]
    · rw [Registry.find_cons_of_ne hname] at h
      obtain ⟨s, parent, hs, hparent, hle, hchain⟩ := ih hold h
      have hne : e'.clazz.name ≠ s := by
        intro heq
        rw [heq, hparent] at hnew
        cases hnew
      refine ⟨s, parent, hs, Registry.find_cons_of_find hnew hparent, hle, ?_⟩
      rw [scriptChain, if_neg hname, scriptChain, if_neg hne, hchain]

theorem Registry.Slack.tail {e : Entry} {older : Registry} (hinv : Registry.Inv (e :: older))
    (h : Registry.Slack (e :: older)) : older.Slack :=
  fun sub hsub hnative s hs parent hparent =>
    h sub (List.mem_cons_of_mem _ hsub) hnative s hs parent (Registry.find_cons_of_find hinv.2.1 hparent)

/-- **With slack** the slots of a chain descend from a class to its superclasses. -/
theorem Registry.Slack.layoutOk {reg : Registry} (hinv : reg.Inv) (h : reg.Slack) : reg.LayoutOk := by
  induction reg with
  | nil => exact nofun
  | cons e older ih =>
    have holder := ih hinv.1 (h.tail hinv)
    intro name e' hfind hnative
    by_cases hname : e.clazz.name = name
    · subst hname
      rw [Registry.find_cons_self] at hfind
      obtain rfl := Option.some.inj hfind
      obtain ⟨hslots, s, parent, hs, hparent, -⟩ := hinv.2.2 hnative
      have hchain : chainSlots (e :: older) e.clazz.name = e.clazz.slots ++ chainSlots older s := by
        simp [chainSlots, scriptChain, hnative, hs]
      -- what the superclasses use lies below the first field of the class
      have hbelow : (chainSlots older s).Nodup ∧
          ∀ slot ∈ chainSlots older s, slot ≤ e.clazz.fieldStartId := by
        cases hscript : parent.native with
        | true =>
          have hnil : chainSlots older s = [] := by
            rw [chainSlots, scriptChain_native hparent hscript]
            rfl
          rw [hnil]
          exact ⟨List.nodup_nil, nofun⟩
        | false =>
          obtain ⟨hnodup, hbound⟩ := holder s parent hparent hscript
          have hslack := h e (List.mem_cons_self ..) hnative s hs parent
            (Registry.find_cons_of_find hinv.2.1 hparent) hscript
          exact ⟨hnodup, fun slot hslot =>
            Nat.le_of_lt_succ (Nat.lt_of_lt_of_le (hbound slot hslot) hslack)⟩
      rw [hchain]
      constructor
      · refine List.nodup_append.2 ⟨hslots.nodup, hbelow.1, fun slot hslot slot' hslot' => ?_⟩
        have h₁ := (hslots.bounds slot hslot).1
        have h₂ := hbelow.2 slot' hslot'
        omega
      · intro slot hslot
        rcases List.mem_append.1 hslot with hslot | hslot
        · exact (hslots.bounds slot hslot).2
        · exact Nat.lt_of_le_of_lt (hbelow.2 slot hslot) hslots.start_lt
    · rw [Registry.find_cons_of_ne hname] at hfind
      have hchain : chainSlots (e :: older) name = chainSlots older name := by
        simp [chainSlots, scriptChain, hname]
      rw [hchain]
      exact holder name e' hfind hnative

theorem Registry.Inv.find_of_mem {reg : Registry} (hinv : reg.Inv) {e : Entry} (he : e ∈ reg) :
    reg.find e.clazz.name = some e := by
  induction reg with
  | nil => cases he
  | cons e' older ih =>
    rcases List.mem_cons.1 he with rfl | he
    · exact Registry.find_cons_self older e
    · exact Registry.find_cons_of_find hinv.2.1 (ih hinv.1 he)

/-- No script class has declared a field twice. -/
def Registry.NoDuplicates (reg : Registry) : Prop :=
  ∀ e ∈ reg, e.native = false → e.clazz.NoDuplicates

/-- **Without slack** the superclass uses the first slot behind the start of its subclass. -/
theorem Registry.LayoutOk.slack {reg : Registry} (hinv : reg.Inv) (hdup : reg.NoDuplicates)
    (h : reg.LayoutOk) : reg.Slack := by
  intro sub hsub hnative s hs e he hscript
  by_contra hmore
  have hfind := hinv.find_of_mem hsub
  obtain ⟨s', e', hs', he', hle, hchain⟩ := scriptChain_script hinv hfind hnative
  obtain rfl := Option.some.inj (hs.symm.trans hs')
  obtain rfl := Option.some.inj (he.symm.trans he')
  obtain ⟨s₂, -, -, -, -, hparent⟩ := scriptChain_script hinv he hscript
  have hslots : chainSlots reg sub.clazz.name = sub.clazz.slots ++ chainSlots reg s := by
    rw [chainSlots, hchain, List.flatMap_cons]
    rfl
  have hmem : sub.clazz.fieldStartId + 1 ∈ chainSlots reg s := by
    rw [chainSlots, hparent, List.flatMap_cons]
    have hstart := hle hscript
    refine List.mem_append_left _ ?_
    refine (hinv.entry (Registry.find_mem he) hscript).mem_slots
      (hdup e (Registry.find_mem he) hscript) ?_ ?_
    · exact Nat.lt_succ_of_le hstart
    · exact Nat.lt_of_not_le hmore
  obtain ⟨hnodup, hbound⟩ := h sub.clazz.name sub hfind hnative
  rw [hslots] at hnodup hbound
  have hlt := hbound _ (List.mem_append_right _ hmem)
  have hmine : sub.clazz.fieldStartId + 1 ∈ sub.clazz.slots :=
    (hinv.entry hsub hnative).mem_slots (hdup sub hsub hnative) (Nat.lt_succ_self _) hlt
  exact (List.nodup_append.1 hnodup).2.2 _ hmine _ hmem rfl

/-! ## The runs of the loader -/

/-- The superclass of a class that is there is there too. -/
theorem Registry.Inv.find_superClass {reg : Registry} (hinv : reg.Inv) {sub : Entry} (hsub : sub ∈ reg)
    (hnative : sub.native = false) {s : String} (hs : sub.superClass = some s) :
    ∃ e, reg.find s = some e := by
  obtain ⟨s', e, hs', he, -⟩ := scriptChain_script hinv (hinv.find_of_mem hsub) hnative
  obtain rfl := Option.some.inj (hs.symm.trans hs')
  exact ⟨e, he⟩

/-- A new class does not change which class is the superclass of another one. -/
theorem Registry.Slack.cons_iff {reg : Registry} (hinv : reg.Inv) {e : Entry}
    (hnew : reg.find e.clazz.name = none)
    (he : e.native = false → ∀ s, e.superClass = some s → ∀ e', Registry.find (e :: reg) s = some e' →
      e'.native = false → e'.clazz.fieldCount ≤ e.clazz.fieldStartId + 1) :
    Registry.Slack (e :: reg) ↔ reg.Slack := by
  constructor
  · intro h sub hsub hnative s hs e' he'
    exact h sub (List.mem_cons_of_mem _ hsub) hnative s hs e' (Registry.find_cons_of_find hnew he')
  · intro h sub hsub hnative s hs e' he'
    rcases List.mem_cons.1 hsub with rfl | hsub
    · exact he hnative s hs e' he'
    · obtain ⟨parent, hparent⟩ := hinv.find_superClass hsub hnative hs
      obtain rfl := Option.some.inj (he'.symm.trans (Registry.find_cons_of_find hnew hparent))
      exact h sub hsub hnative s hs e' hparent

/-- The slack after a change, in terms of the classes before it. -/
theorem Registry.Slack.update_iff {reg : Registry} {name : String} {f : Entry → Entry}
    (hf : ∀ e, Extends e (f e)) :
    (reg.update name f).Slack ↔
      ∀ sub ∈ reg, sub.native = false → ∀ s, sub.superClass = some s → ∀ e, reg.find s = some e →
        e.native = false →
        (if e.clazz.name = name then f e else e).clazz.fieldCount ≤ sub.clazz.fieldStartId + 1 := by
  have hupd : ∀ e : Entry, Extends e (if e.clazz.name = name then f e else e) := by
    intro e
    split
    · exact hf e
    · exact ⟨rfl, rfl, rfl, rfl, id⟩
  have hfind := fun s => Registry.find_update reg name s f fun e => (hf e).name
  constructor
  · intro h sub hsub hnative s hs e he hscript
    rw [← (hupd sub).start]
    refine h _ (List.mem_map_of_mem hsub) ((hupd sub).native.trans hnative) s
      ((hupd sub).superClass.trans hs) _ ?_ ((hupd e).native.trans hscript)
    rw [hfind, he]
    rfl
  · intro h sub' hsub' hnative s hs e' he' hscript
    obtain ⟨sub, hsub, rfl⟩ := List.mem_map.1 hsub'
    rw [hfind] at he'
    obtain ⟨e, he, rfl⟩ := Option.map_eq_some_iff.1 he'
    rw [(hupd sub).start]
    exact h sub hsub ((hupd sub).native.symm.trans hnative) s ((hupd sub).superClass.symm.trans hs) e he
      ((hupd e).native.symm.trans hscript)

theorem Registry.Slack.update_same_iff {reg : Registry} {name : String} {f : Entry → Entry}
    (hsame : ∀ e, SameLayout e (f e)) : (reg.update name f).Slack ↔ reg.Slack := by
  have hcount : ∀ e : Entry,
      (if e.clazz.name = name then f e else e).clazz.fieldCount = e.clazz.fieldCount := by
    intro e
    split
    · exact (hsame e).count
    · rfl
  rw [update_iff fun e => (hsame e).extends]
  simp only [hcount]
  rfl

theorem Registry.Slack.addField_iff {reg : Registry} {name field : String} :
    (reg.update name (Entry.addField field)).Slack ↔ reg.Slack ∧ declaredEarly reg name := by
  rw [update_iff (Entry.addField_extends field)]
  constructor
  · intro h
    constructor
    · intro sub hsub hnative s hs e he hscript
      have := h sub hsub hnative s hs e he hscript
      split at this
      · exact Nat.le_of_succ_le this
      · exact this
    · intro sub hsub hnative hs e he hscript
      have := h sub hsub hnative name hs e he hscript
      rw [if_pos (Registry.find_name he)] at this
      exact Nat.le_of_succ_le_succ this
  · rintro ⟨hslack, hearly⟩ sub hsub hnative s hs e he hscript
    split
    · next hname =>
      obtain rfl := (Registry.find_name he).symm.trans hname
      exact Nat.succ_le_succ (hearly sub hsub hnative hs e he hscript)
    · exact hslack sub hsub hnative s hs e he hscript

theorem ClassStep.slack {reg reg' : Registry} (hinv : reg.Inv) (hstep : ClassStep declaredEarly reg reg')
    (h : reg.Slack) : reg'.Slack := by
  cases hstep with
  | native e hnative hnew =>
    refine (Registry.Slack.cons_iff hinv hnew fun hscript => ?_).2 h
    rw [hnative] at hscript
    cases hscript
  | @create s name e hsuper hnew =>
    refine (Registry.Slack.cons_iff hinv hnew fun _ s' hs' e' he' _ => ?_).2 h
    obtain rfl := Option.some.inj hs'
    obtain rfl := Option.some.inj (he'.symm.trans (Registry.find_cons_of_find hnew hsuper))
    exact Nat.le_succ _
  | field name field hearly => exact Registry.Slack.addField_iff.2 ⟨h, hearly⟩
  | other name f hsame => exact (Registry.Slack.update_same_iff hsame).2 h

/-- Slack at the end means that there was slack before, and that a field that was declared came early. -/
theorem ClassStep.slack_back {reg reg' : Registry} (hinv : reg.Inv) (hstep : ClassStep anyTime reg reg')
    (h : reg'.Slack) : reg.Slack ∧ ClassStep declaredEarly reg reg' := by
  cases hstep with
  | native e hnative hnew =>
    refine ⟨(Registry.Slack.cons_iff hinv hnew fun hscript => ?_).1 h, .native e hnative hnew⟩
    rw [hnative] at hscript
    cases hscript
  | @create s name e hsuper hnew =>
    refine ⟨(Registry.Slack.cons_iff hinv hnew fun _ s' hs' e' he' _ => ?_).1 h, .create hsuper hnew⟩
    obtain rfl := Option.some.inj hs'
    obtain rfl := Option.some.inj (he'.symm.trans (Registry.find_cons_of_find hnew hsuper))
    exact Nat.le_succ _
  | field name field =>
    obtain ⟨hslack, hearly⟩ := Registry.Slack.addField_iff.1 h
    exact ⟨hslack, .field name field hearly⟩
  | other name f hsame => exact ⟨(Registry.Slack.update_same_iff hsame).1 h, .other name f hsame⟩

theorem ClassSteps.inv {early : Registry → String → Prop} {reg : Registry}
    (hsteps : ClassSteps early [] reg) : reg.Inv := by
  induction hsteps with
  | refl => trivial
  | tail _ hstep ih => exact hstep.inv ih

theorem ClassSteps.slack {reg : Registry} (hsteps : ClassSteps declaredEarly [] reg) : reg.Slack := by
  induction hsteps with
  | refl => exact nofun
  | tail hsteps hstep ih => exact hstep.slack (ClassSteps.inv hsteps) ih

theorem ClassSteps.early_of_slack {reg : Registry} (hsteps : ClassSteps anyTime [] reg)
    (h : reg.Slack) : ClassSteps declaredEarly [] reg := by
  induction hsteps with
  | refl => exact .refl
  | tail hsteps hstep ih =>
    obtain ⟨hslack, hearly⟩ := hstep.slack_back (ClassSteps.inv hsteps) h
    exact (ih hslack).tail hearly

/-- What the steps say of the layout at their end. -/
theorem ClassSteps.layout {reg : Registry} (hsteps : ClassSteps anyTime [] reg) :
    (ClassSteps declaredEarly [] reg → reg.LayoutOk) ∧
      (reg.NoDuplicates → reg.LayoutOk → ClassSteps declaredEarly [] reg) := by
  have hinv := ClassSteps.inv hsteps
  refine ⟨fun hearly => Registry.Slack.layoutOk hinv (ClassSteps.slack hearly), ?_⟩
  exact fun hdup hlayout => ClassSteps.early_of_slack hsteps (hlayout.slack hinv hdup)

/-- The classes that the runtime can come to have: it makes some itself, and it loads others from
    files. -/
inductive LoaderRun (files : String → Option SourceFile) : Registry → Prop
  | init : LoaderRun files []
  | native {reg : Registry} (hrun : LoaderRun files reg) (e : Entry) (hnative : e.native = true)
      (hnew : reg.find e.clazz.name = none) : LoaderRun files (e :: reg)
  | load {reg reg' : Registry} {fuel : ℕ} {addToExisting : Bool} {name : String} {r : Option String}
      (hrun : LoaderRun files reg)
      (hload : loadClass files fuel addToExisting name reg = some (r, reg')) : LoaderRun files reg'

theorem LoaderRun.steps {files : String → Option SourceFile} {reg : Registry}
    (hrun : LoaderRun files reg) : ClassSteps anyTime [] reg := by
  induction hrun with
  | init => exact .refl
  | native _ e hnative hnew ih => exact ih.tail (.native e hnative hnew)
  | load _ hload ih => exact ih.trans (loadClass_loads files _ _ _ _ _ hload)

/-- **The layout of the classes.** Whatever is loaded, and in whatever order, no two fields along a
    chain share a slot if every field comes early: between the making of a subclass and a field of its
    superclass the superclass declares no other field. If no class declares a field twice, there is no
    other way. -/
theorem loaderRun_layout {files : String → Option SourceFile} {reg : Registry}
    (hrun : LoaderRun files reg) :
    ClassSteps anyTime [] reg ∧ (ClassSteps declaredEarly [] reg → reg.LayoutOk) ∧
      (reg.NoDuplicates → reg.LayoutOk → ClassSteps declaredEarly [] reg) :=
  ⟨hrun.steps, ClassSteps.layout hrun.steps⟩

/-! A subclass is made in the middle of its superclass, which goes on with two more fields. -/

/-- `system.lang.Object`. -/
def objectEntry : Entry :=
  ⟨(Class.create none objectClass).addField "ObjectClass", none, .init, true, false⟩

/-- `p.B` has the fields `a`, `b` and `c`, with a method between `a` and `b` that calls `p.A.go`. The
    class `p.A` extends `p.B` and has the field `x`. -/
def crossingFiles (name : String) : Option SourceFile :=
  if name = "p.B" then
    some ⟨[⟨"p.B", none, [.field "a", .method [.dotted ["p.A", "p.A.go"]], .field "b", .field "c"]⟩],
      true⟩
  else if name = "p.A" then some ⟨[⟨"p.A", some "p.B", [.field "x", .method []]⟩], true⟩
  else none

/-- The same with the method of `p.B` behind `b`, so that only `c` is left when `p.A` is made. -/
def orderedFiles (name : String) : Option SourceFile :=
  if name = "p.B" then
    some ⟨[⟨"p.B", none, [.field "a", .field "b", .method [.dotted ["p.A", "p.A.go"]], .field "c"]⟩],
      true⟩
  else crossingFiles name

/-- The classes after loading `p.B`. -/
def loadedClasses (files : String → Option SourceFile) : Registry :=
  ((loadClass files 3 false "p.B" [objectEntry]).map Prod.snd).getD []

theorem loadedClasses_run {files : String → Option SourceFile}
    (hload : (loadClass files 3 false "p.B" [objectEntry]).isSome) :
    LoaderRun files (loadedClasses files) := by
  obtain ⟨⟨r, reg⟩, hreg⟩ := Option.isSome_iff_exists.1 hload
  have heq : loadedClasses files = reg := by
    rw [loadedClasses, hreg]
    rfl
  rw [heq]
  exact .load (.native .init objectEntry rfl rfl) hreg

/-- `c` and `x` have the slot 5. -/
theorem crossing_slots_clash :
    LoaderRun crossingFiles (loadedClasses crossingFiles) ∧
      chainSlots (loadedClasses crossingFiles) "p.A" = [5, 5, 4, 3] ∧
      ¬(loadedClasses crossingFiles).LayoutOk := by
  have hslots : chainSlots (loadedClasses crossingFiles) "p.A" = [5, 5, 4, 3] := by decide
  refine ⟨loadedClasses_run (by decide), hslots, fun h => ?_⟩
  have hfind : ((loadedClasses crossingFiles).find "p.A").map (·.native) = some false := by decide
  obtain ⟨e, he, hnative⟩ := Option.map_eq_some_iff.1 hfind
  have hnodup := (h "p.A" e he hnative).1
  rw [hslots] at hnodup
  revert hnodup
  decide

/-- Here the slack is used up: `c` has the slot in front of `x`. -/
theorem orderedFiles_layoutOk :
    LoaderRun orderedFiles (loadedClasses orderedFiles) ∧
      chainSlots (loadedClasses orderedFiles) "p.A" = [6, 5, 4, 3] ∧
      (loadedClasses orderedFiles).LayoutOk := by
  have hrun : LoaderRun orderedFiles (loadedClasses orderedFiles) := loadedClasses_run (by decide)
  obtain ⟨hsteps, hlayout, -⟩ := loaderRun_layout hrun
  have hslack : ∀ sub ∈ loadedClasses orderedFiles, sub.native = false → ∀ s ∈ sub.superClass,
      ∀ e ∈ (loadedClasses orderedFiles).find s, e.native = false →
        e.clazz.fieldCount ≤ sub.clazz.fieldStartId + 1 := by decide
  exact ⟨hrun, by decide, hlayout (ClassSteps.early_of_slack hsteps hslack)⟩

end Loader

end B0rk
