import B0rk.Lib.Shallow
import B0rk.Parser.Proofs.Events

set_option autoImplicit false

/-! # Loading comes to an end

A class enters the table behind the lookup of its superclass. What keeps a load from going on for ever
is therefore the superclasses that are asked for while nothing new is in the table yet; whatever comes
later finds one class more. -/

namespace B0rk

open Attempt

namespace ClassPath

variable {E : ClassPath} {load load' : LoadClass} {tokens : List Token}

/-! ## The classes that are asked for before anything new is in the table -/

/-- The name behind `extends`. -/
def superName (imports : Imports) (id : List String) : String :=
  identifierToString (importedIdentifier (noFiles.parser halting [] imports) id)

/-- The loop over the classes comes to the superclass `name`, which is unknown. The classes in front of
    it are being parsed already, so that nothing is done about them. -/
inductive Reads (E : ClassPath) (tokens : List Token) (fuel : ℕ) :
    Imports → ParserState ClassTable → String → Prop
  | superClass {imports : Imports} {s s₁ s₂ s₃ s₄ : ParserState ClassTable} {token token' : Token}
      {id superId : List String}
      (hclass : Ok (expect (E.reader tokens) .tokClass) s token s₁)
      (hid : Ok (parseIdentifier (E.reader tokens) fuel) s₁ id s₂)
      (hextends : Ok (expect (E.reader tokens) .tokExtends) s₂ token' s₃)
      (hsuper : Ok (parseIdentifier (E.reader tokens) fuel) s₃ superId s₄)
      (hnew : ¬s.world.Known (superName (addImport imports id) superId)) :
      Reads E tokens fuel imports s (superName (addImport imports id) superId)
  | behind {imports : Imports} {s s₁ s₂ s₃ : ParserState ClassTable} {token : Token}
      {id : List String} {superClass name : String}
      (hclass : Ok (expect (E.reader tokens) .tokClass) s token s₁)
      (hid : Ok (parseIdentifier (E.reader tokens) fuel) s₁ id s₂)
      (hhead : Ok (E.parseHead halting tokens fuel (addImport imports id)) s₂ superClass s₃)
      (hopen : Ok (openClass false superClass (identifierToString id)) s₃ false s₃)
      (h : Reads E tokens fuel (addImport imports id) s₃ name) :
      Reads E tokens fuel imports s name

/-- Loading `name` asks for `name'`, which the table does not have, before it has changed the table. -/
def Asks (E : ClassPath) (fuel : ℕ) (table : ClassTable) (name name' : String) : Prop :=
  table.halted = false ∧ ∃ tokens, E.files.lookup name = some tokens ∧ ∃ imports s,
    Ok (E.parseImports halting tokens fuel fuel runtimeImport) ⟨0, table⟩ imports s ∧
      E.Reads tokens fuel imports s name'

/-- `findClass` comes back: where loads may be nested deep enough, the result is the same however much
    deeper they may be. -/
def Returns (E : ClassPath) (fuel : ℕ) (name : String) (table : ClassTable) : Prop :=
  ∃ result : Word × ClassTable, result.2.halted = false ∧ ∃ depth, ∀ depth', depth ≤ depth' →
    E.findClass (E.loadClass fuel halting depth' false) name table = result

/-- Results of `loadClass` that fit together: each is what the parser makes of the file when the classes
    that it looks for are answered likewise. A halted runtime is no result. -/
def Coherent (E : ClassPath) (fuel : ℕ) (answers : LoadClass) : Prop :=
  ∀ name table, (answers name table).2.halted = false →
    E.loadClass fuel answers 1 false name table = answers name table

/-- No class with a result is one that its superclasses ask for. -/
def Acyclic (E : ClassPath) (fuel : ℕ) (answers : LoadClass) : Prop :=
  ∀ name table, (answers name table).2.halted = false →
    ¬Relation.TransGen (E.Asks fuel table) name name

/-! ## What is asked for is loaded -/

theorem superName_eq (imports : Imports) (id : List String) :
    identifierToString (importedIdentifier (E.parser load tokens imports) id) = superName imports id := by
  unfold superName importedIdentifier
  rfl

theorem findClass_of_unknown {table : ClassTable} {name : String} (hhalted : table.halted = false)
    (hnew : ¬table.Known name) : E.findClass load name table = load name table := by
  unfold findClass
  rw [if_neg (by simp [hhalted])]
  simp only [ClassTable.Known, Option.isSome_iff_exists, not_exists] at hnew
  rw [Option.eq_none_iff_forall_not_mem.mpr hnew]

theorem findClass_of_known {table : ClassTable} {name : String}
    (h : table.halted = false → table.Known name) :
    ∃ clazz, ∀ load, E.findClass load name table = (clazz, table) := by
  unfold findClass
  by_cases hhalted : table.halted = true
  · exact ⟨0, fun load => by rw [if_pos hhalted]⟩
  · obtain ⟨e, he⟩ := Option.isSome_iff_exists.mp (h (Bool.eq_false_of_not_eq_true hhalted))
    exact ⟨E.newClass e.clazz.name, fun load => by rw [if_neg hhalted, he]⟩

/-- What `parseSuperClass` does with the name that it reads. -/
theorem parseSuperClass_run {fuel : ℕ} {imports : Imports} {s s₁ : ParserState ClassTable}
    {id : List String} (hid : Ok (parseIdentifier (E.reader tokens) fuel) s id s₁) :
    E.parseSuperClass load tokens fuel imports s =
      if (E.findClass load (superName imports id) s₁.world).1 = 0 then
        some (none, ⟨s₁.pos, (E.findClass load (superName imports id) s₁.world).2⟩)
      else some (some (superName imports id),
        ⟨s₁.pos, (E.findClass load (superName imports id) s₁.world).2⟩) := by
  unfold parseSuperClass
  rw [parseIdentifier_reader, hid.run, superName_eq, bind_run]
  show Option.bind (some (some (E.findClass load (superName imports id) s₁.world).1,
    (⟨s₁.pos, (E.findClass load (superName imports id) s₁.world).2⟩ : ParserState ClassTable))) _ = _
  simp only [Option.bind_some, Option.elim_some]
  split <;> rfl

/-- Only a name that is read behind `extends`, and is unknown, makes a difference to `parseHead`. -/
theorem parseHead_agree {fuel : ℕ} {imports : Imports} {s : ParserState ClassTable}
    (hasks : ∀ {token s₁ id s₂}, Ok (expect (E.reader tokens) .tokExtends) s token s₁ →
      Ok (parseIdentifier (E.reader tokens) fuel) s₁ id s₂ → s.world.halted = false →
        ¬s.world.Known (superName imports id) →
          load (superName imports id) s.world = load' (superName imports id) s.world) :
    E.parseHead load tokens fuel imports s = E.parseHead load' tokens fuel imports s := by
  unfold parseHead
  refine run_congr rfl fun {token s₁} hnext => ?_
  by_cases hextends : token.type = .tokExtends
  · have hexpect : Ok (expect (E.reader tokens) .tokExtends) s token s₁ := by
      refine bind_ok.mpr ⟨token, s₁, hnext, ?_⟩
      rw [if_pos hextends]
      exact pure_ok.mpr ⟨rfl, rfl⟩
    have hworld : s₁.world = s.world := by rw [(nextToken_world hnext).2]
    suffices h : E.parseSuperClass load tokens fuel imports s₁ =
        E.parseSuperClass load' tokens fuel imports s₁ by
      simp only [if_pos hextends, bind_run, h]
      rfl
    rcases hid : parseIdentifier (E.reader tokens) fuel s₁ with _ | ⟨_ | id, s₂⟩
    · unfold parseSuperClass
      rw [parseIdentifier_reader, parseIdentifier_reader, bind_run, bind_run, hid]
      rfl
    · unfold parseSuperClass
      rw [parseIdentifier_reader, parseIdentifier_reader, bind_run, bind_run, hid]
      rfl
    · have hworld₂ : s₂.world = s.world := (parseIdentifier_texts hid).1.trans hworld
      have hfind : E.findClass load (superName imports id) s.world =
          E.findClass load' (superName imports id) s.world := by
        by_cases hnew : s.world.halted = false ∧ ¬s.world.Known (superName imports id)
        · rw [findClass_of_unknown hnew.1 hnew.2, findClass_of_unknown hnew.1 hnew.2]
          exact hasks hexpect hid hnew.1 hnew.2
        · have hknown : s.world.halted = false → s.world.Known (superName imports id) :=
            fun hhalted => not_not.mp (not_and.mp hnew hhalted)
          obtain ⟨clazz, hclazz⟩ := findClass_of_known (E := E) hknown
          rw [hclazz, hclazz]
      rw [parseSuperClass_run hid, parseSuperClass_run hid, hworld₂, hfind]
  · simp only [if_neg hextends]

/-- The two ways through the head of a class. -/
theorem parseHead_inv {fuel : ℕ} {imports : Imports} {s t : ParserState ClassTable}
    {superClass : String} (h : Ok (E.parseHead load tokens fuel imports) s superClass t) :
    t.world = s.world ∧ (∀ token s₁, ¬Ok (expect (E.reader tokens) .tokExtends) s token s₁) ∨
      ∃ token s₁ s₂, Ok (expect (E.reader tokens) .tokExtends) s token s₁ ∧
        Ok (E.parseSuperClass load tokens fuel imports) s₁ superClass s₂ ∧ t.world = s₂.world := by
  obtain ⟨token, s₁, hnext, hrest⟩ := bind_ok.mp h
  obtain ⟨hat, rfl⟩ := nextToken_world hnext
  obtain ⟨⟨name, brace⟩, v, hsuper, hbrace⟩ := bind_ok.mp hrest
  obtain ⟨rfl, rfl⟩ : name = superClass ∧ v = t := by
    by_cases htype : brace.type = .tokBraceLeft
    · exact pure_ok.mp (by simpa only [if_pos htype] using hbrace)
    · exact absurd hbrace (by simp [htype])
  by_cases htype : token.type = .tokExtends
  · rw [if_pos htype] at hsuper
    obtain ⟨name', w, hname', hnext'⟩ := bind_ok.mp hsuper
    obtain ⟨brace', x, hbrace', hpure⟩ := bind_ok.mp hnext'
    obtain ⟨-, rfl⟩ := nextToken_world hbrace'
    obtain ⟨hname, rfl⟩ := pure_ok.mp hpure
    obtain ⟨rfl, rfl⟩ := Prod.mk.inj hname
    refine .inr ⟨token, _, w, bind_ok.mpr ⟨token, _, hnext, ?_⟩, hname', rfl⟩
    rw [if_pos htype]
    exact pure_ok.mpr ⟨rfl, rfl⟩
  · rw [if_neg htype] at hsuper
    obtain ⟨-, rfl⟩ := pure_ok.mp hsuper
    refine .inl ⟨rfl, fun token' s₁ hexpect => htype ?_⟩
    obtain ⟨⟨hat', htype'⟩, -⟩ := expect_world hexpect
    obtain rfl : token = token' := Option.some.inj (hat.symm.trans hat')
    exact htype'

/-- Behind the head of a class either an unknown superclass has been loaded, or nothing has happened. -/
theorem parseHead_ok {fuel : ℕ} {imports : Imports} {s t : ParserState ClassTable}
    {superClass : String} (h : Ok (E.parseHead load tokens fuel imports) s superClass t) :
    (∃ token s₁ id s₂, Ok (expect (E.reader tokens) .tokExtends) s token s₁ ∧
      Ok (parseIdentifier (E.reader tokens) fuel) s₁ id s₂ ∧ s.world.halted = false ∧
        ¬s.world.Known (superName imports id) ∧ (load (superName imports id) s.world).1 ≠ 0 ∧
          t.world = (load (superName imports id) s.world).2) ∨
    t.world = s.world ∧ Ok (E.parseHead halting tokens fuel imports) s superClass t := by
  rcases parseHead_inv h with ⟨hworld, hnone⟩ | ⟨token, s₁, s₂, hextends, hsuper, hworld⟩
  · have hsame : E.parseHead load tokens fuel imports s =
        E.parseHead halting tokens fuel imports s :=
      parseHead_agree fun hextends => absurd hextends (hnone _ _)
    refine .inr ⟨hworld, ?_⟩
    unfold Ok at h ⊢
    rw [← hsame, h]
  · obtain ⟨id, s₃, hid, -⟩ := bind_ok.mp hsuper
    rw [parseIdentifier_reader] at hid
    have hworld₃ : s₃.world = s.world := by
      rw [(parseIdentifier_texts hid).1, (expect_world hextends).2]
    have hsuper' : t.world = (E.findClass load (superName imports id) s.world).2 ∧
        (E.findClass load (superName imports id) s.world).1 ≠ 0 := by
      unfold Ok at hsuper
      rw [parseSuperClass_run hid, hworld₃] at hsuper
      split at hsuper
      · cases hsuper
      · next hfound =>
        obtain ⟨-, rfl⟩ := Prod.mk.inj (Option.some.inj hsuper)
        exact ⟨hworld, hfound⟩
    by_cases hnew : s.world.halted = false ∧ ¬s.world.Known (superName imports id)
    · rw [findClass_of_unknown hnew.1 hnew.2] at hsuper'
      exact .inl ⟨token, s₁, id, s₃, hextends, hid, hnew.1, hnew.2, hsuper'.2, hsuper'.1⟩
    · have hknown : s.world.halted = false → s.world.Known (superName imports id) :=
        fun hhalted => not_not.mp (not_and.mp hnew hhalted)
      have hsame : E.parseHead load tokens fuel imports s =
          E.parseHead halting tokens fuel imports s := by
        refine parseHead_agree fun {token' s₁' id' s₃'} hextends' hid' hhalted' hnew' => ?_
        obtain rfl : s₁ = s₁' := (expect_world hextends).2.trans (expect_world hextends').2.symm
        obtain rfl := (hid.unique hid').1
        exact absurd ⟨hhalted', hnew'⟩ hnew
      refine .inr ⟨?_, ?_⟩
      · obtain ⟨clazz, hclazz⟩ := findClass_of_known (E := E) hknown
        rw [hsuper'.1, hclazz]
      · unfold Ok at h ⊢
        rw [← hsame, h]

/-! ## How many classes are still to come -/

/-- The names of the files, and all that a class in one of them can be called. -/
def declarable (E : ClassPath) : Finset String :=
  (E.files.map Prod.fst ++
    E.files.flatMap fun file => (file.2.map (·.string)).sublists.map identifierToString).toFinset

theorem file_mem {name : String} (h : E.files.lookup name = some tokens) :
    (name, tokens) ∈ E.files := by
  obtain ⟨before, behind, hfiles, -⟩ := List.lookup_eq_some_iff.mp h
  rw [hfiles]
  simp

theorem declarable_file {name : String} (h : E.files.lookup name = some tokens) :
    name ∈ E.declarable := by
  refine List.mem_toFinset.mpr (List.mem_append_left _ ?_)
  exact List.mem_map.mpr ⟨_, file_mem h, rfl⟩

theorem declarable_class {file : String} (h : E.files.lookup file = some tokens) {id : List String}
    (hid : id.Sublist (tokens.map (·.string))) : identifierToString id ∈ E.declarable := by
  refine List.mem_toFinset.mpr (List.mem_append_right _ (List.mem_flatMap.mpr ?_))
  exact ⟨_, file_mem h, List.mem_map.mpr ⟨id, List.mem_sublists.mpr hid, rfl⟩⟩

/-- How many of these are not in the table. -/
def pending (E : ClassPath) (table : ClassTable) : ℕ :=
  (E.declarable.filter fun name => (table.classes.find name).isNone).card

theorem known_of_steps {table table' : ClassTable} (h : table.Steps table') {name : String}
    (hknown : table.Known name) : table'.Known name := by
  unfold ClassTable.Known at *
  unfold ClassTable.Steps at h
  generalize table'.classes = classes at h ⊢
  induction h with
  | refl => exact hknown
  | tail _ hstep ih =>
    obtain ⟨e, he⟩ := Option.isSome_iff_exists.mp ih
    cases hstep with
    | native e' _ hnew =>
      rw [Loader.Registry.find_cons_of_find hnew he]
      rfl
    | create hsuper hnew =>
      rw [Loader.Registry.find_cons_of_find hnew he]
      rfl
    | field name' field _ =>
      rw [Loader.Registry.find_update _ name' name (Loader.Entry.addField field) fun _ => rfl, he]
      rfl
    | other name' f hsame =>
      rw [Loader.Registry.find_update _ _ _ _ fun e => (hsame e).name, he]
      rfl

theorem pending_le {table table' : ClassTable} (h : ∀ name, table.Known name → table'.Known name) :
    E.pending table' ≤ E.pending table := by
  refine Finset.card_le_card fun name hname => ?_
  obtain ⟨hmem, hnone⟩ := Finset.mem_filter.mp hname
  refine Finset.mem_filter.mpr ⟨hmem, ?_⟩
  rw [Option.isNone_iff_eq_none] at hnone ⊢
  by_contra hne
  have hknown := h name (Option.isSome_iff_ne_none.mpr hne)
  simp [ClassTable.Known, hnone] at hknown

/-- One that has come. -/
theorem pending_lt {table table' : ClassTable} (h : ∀ name, table.Known name → table'.Known name)
    {name : String} (hmem : name ∈ E.declarable) (hnew : ¬table.Known name)
    (hknown : table'.Known name) : E.pending table' < E.pending table := by
  have hle : E.declarable.filter (fun name => (table'.classes.find name).isNone) ⊆
      (E.declarable.filter fun name => (table.classes.find name).isNone).erase name := by
    intro name' hname'
    obtain ⟨hmem', hnone⟩ := Finset.mem_filter.mp hname'
    have hunknown : ¬table'.Known name' := by
      simpa [ClassTable.Known, Option.isNone_iff_eq_none] using hnone
    refine Finset.mem_erase.mpr ⟨?_, Finset.mem_filter.mpr ⟨hmem', ?_⟩⟩
    · rintro rfl
      exact hunknown hknown
    · have hunknown' : ¬table.Known name' := fun hknown' => hunknown (h name' hknown')
      simpa [ClassTable.Known, Option.isNone_iff_eq_none] using hunknown'
  have hmem' : name ∈ E.declarable.filter fun name => (table.classes.find name).isNone := by
    refine Finset.mem_filter.mpr ⟨hmem, ?_⟩
    simpa [ClassTable.Known, Option.isNone_iff_eq_none] using hnew
  exact (Finset.card_le_card hle).trans_lt (Finset.card_erase_lt_of_mem hmem')

theorem pending_allows (m : ℕ) : AllowsClasses fun table => E.pending table < m :=
  allows_of_steps fun hsteps h => (pending_le fun _ => known_of_steps hsteps).trans_lt h

/-! ## Loads that agree on what can be asked for -/

variable {fuel m : ℕ}

/-- Two loads that do the same once fewer than `m` classes are to come. -/
def AgreeBelow (E : ClassPath) (m : ℕ) (load load' : LoadClass) : Prop :=
  ∀ name table, E.pending table < m → load name table = load' name table ∧
    E.pending (load name table).2 < m

theorem AgreeBelow.loads (h : E.AgreeBelow m load load') :
    Loads (fun _ => True) (fun table => E.pending table < m) load load' :=
  fun name table hless _ => ⟨(h name table hless).1.symm, (h name table hless).2⟩

theorem AgreeBelow.symm (h : E.AgreeBelow m load load') : E.AgreeBelow m load' load := by
  intro name table hless
  obtain ⟨heq, hpending⟩ := h name table hless
  exact ⟨heq.symm, heq ▸ hpending⟩

/-- Where a class less is to come, all that keeps in step with either load does the same. -/
theorem AgreeBelow.eq {α : Type} {x : LoadClass → Parse ClassTable α} (h : E.AgreeBelow m load load')
    (hx : ∀ {load load' : LoadClass},
      Loads (fun _ => True) (fun table => E.pending table < m) load load' →
        Follows (fun _ => True) (fun table => E.pending table < m) (x load) (x load'))
    {s : ParserState ClassTable} (hs : E.pending s.world < m) : x load s = x load' s :=
  Kept.eq (hx h.loads) (hx h.symm.loads) hs

/-- It leaves no more classes to come. -/
theorem AgreeBelow.less {α : Type} {x : LoadClass → Parse ClassTable α} (h : E.AgreeBelow m load load')
    (hx : ∀ {load load' : LoadClass},
      Loads (fun _ => True) (fun table => E.pending table < m) load load' →
        Follows (fun _ => True) (fun table => E.pending table < m) (x load) (x load'))
    {s t : ParserState ClassTable} (hs : E.pending s.world < m) {r : Option α}
    (hrun : x load s = some (r, t)) : E.pending t.world < m :=
  (Kept.run (hx h.loads) hs hrun trivial).2

/-- A class that is being parsed already is left as it is. -/
theorem openClass_false {addToExisting : Bool} {superClass name : String} {s t : ParserState ClassTable}
    (h : openClass addToExisting superClass name s = some (some false, t)) : s = t := by
  unfold openClass at h
  split at h
  · split at h
    · cases h
    · split at h
      · exact (Prod.mk.inj (Option.some.inj h)).2
      · split at h
        · cases h
        · cases h
  · split at h
    · cases h
    · cases h

/-- A class that is opened, and was not there. -/
theorem openClass_new {superClass name : String} {s t : ParserState ClassTable}
    (h : openClass false superClass name s = some (some true, t)) :
    ¬s.world.Known name ∧ t.world.Known name := by
  unfold openClass at h
  split at h
  · split at h
    · cases h
    · split at h
      · cases h
      · cases h
  · next hnone =>
    split at h
    · cases h
    · next classes hadd =>
      obtain ⟨-, rfl⟩ := Prod.mk.inj (Option.some.inj h)
      refine ⟨by simp [ClassTable.Known, hnone], ?_⟩
      have hopened := ClassTable.addClass_opened hnone hadd
      have hstart := ClassTable.startClass_opened hopened.deleted hopened.known
      exact (hstart.known name).mpr (.inr rfl)

/-- Behind the name of a class. Unless the class is being parsed already, one class less is to come. -/
theorem parseClassNamed_agree {imports : Imports} {name : String} {s : ParserState ClassTable}
    (hbelow : E.AgreeBelow (E.pending s.world) load load') (hname : name ∈ E.declarable)
    (hasks : ∀ {token s₁ id s₂}, Ok (expect (E.reader tokens) .tokExtends) s token s₁ →
      Ok (parseIdentifier (E.reader tokens) fuel) s₁ id s₂ → s.world.halted = false →
        ¬s.world.Known (superName imports id) →
          load (superName imports id) s.world = load' (superName imports id) s.world ∧
            ((load (superName imports id) s.world).1 ≠ 0 →
              E.pending (load (superName imports id) s.world).2 < E.pending s.world)) :
    E.parseClassNamed load tokens fuel false imports name s =
        E.parseClassNamed load' tokens fuel false imports name s ∧
      ∀ r t, E.parseClassNamed load tokens fuel false imports name s = some (some r, t) →
        E.pending t.world < E.pending s.world ∨
          t.world = s.world ∧ ∃ superClass, Ok (E.parseHead halting tokens fuel imports) s superClass t ∧
            Ok (openClass false superClass name) t false t := by
  have hhead : E.parseHead load tokens fuel imports s = E.parseHead load' tokens fuel imports s :=
    parseHead_agree fun hextends hid hhalted hnew => (hasks hextends hid hhalted hnew).1
  unfold parseClassNamed
  rw [bind_run, bind_run, ← hhead]
  rcases hrun : E.parseHead load tokens fuel imports s with _ | ⟨_ | superClass, t⟩
  · simp only [Option.bind_none, true_and]
    exact fun _ _ h => nomatch h
  · simp only [Option.bind_some, Option.elim_none, true_and]
    exact fun _ _ h => nomatch h
  simp only [Option.bind_some, Option.elim_some]
  have hopened {load load' : LoadClass} (hload : Loads (fun _ => True)
      (fun table => E.pending table < E.pending s.world) load load') :
      Follows (fun _ => True) (fun table => E.pending table < E.pending s.world)
        (E.parseOpened (E.parser load tokens imports) fuel false superClass name)
        (E.parseOpened (E.parser load' tokens imports) fuel false superClass name) :=
    parseOpened_follows trivial hload (pending_allows (E.pending s.world)) fuel false imports superClass
      name
  rcases parseHead_ok hrun with ⟨token, s₁, id, s₂, hextends, hid, hhalted, hnew, hfound, hworld⟩ |
      ⟨hworld, hhalting⟩
  · have ht : E.pending t.world < E.pending s.world := by
      rw [hworld]
      exact (hasks hextends hid hhalted hnew).2 hfound
    exact ⟨hbelow.eq hopened ht, fun r u hu => .inl (hbelow.less hopened ht hu)⟩
  · unfold parseOpened
    rw [bind_run, bind_run]
    rcases hopen : openClass false superClass name t with _ | ⟨_ | parseOn, u⟩
    · simp only [Option.bind_none, true_and]
      exact fun _ _ h => nomatch h
    · simp only [Option.bind_some, Option.elim_none, true_and]
      exact fun _ _ h => nomatch h
    simp only [Option.bind_some, Option.elim_some]
    cases parseOn with
    | false =>
      simp only [Bool.false_eq_true, if_false, true_and]
      refine fun r v hv => .inr ?_
      obtain ⟨-, rfl⟩ := Prod.mk.inj (Option.some.inj hv)
      obtain rfl := openClass_false hopen
      exact ⟨hworld, superClass, hhalting, hopen⟩
    | true =>
      have hu : E.pending u.world < E.pending s.world := by
        rw [← hworld]
        obtain ⟨hnew, hknown⟩ := openClass_new hopen
        exact pending_lt (fun _ => known_of_steps (openClass_steps false superClass name t _ u hopen))
          hname hnew hknown
      have hbody {load load' : LoadClass} (hload : Loads (fun _ => True)
          (fun table => E.pending table < E.pending s.world) load load') :
          Follows (fun _ => True) (fun table => E.pending table < E.pending s.world)
            (E.parseBody (E.parser load tokens imports) fuel name)
            (E.parseBody (E.parser load' tokens imports) fuel name) :=
        parseBody_follows trivial hload (pending_allows (E.pending s.world)) fuel imports name
      exact ⟨hbelow.eq hbody hu, fun r v hv => .inl (hbelow.less hbody hu hv)⟩

/-- One round of the loop over the classes. -/
theorem parseClasses_succ (addToExisting : Bool) (n : ℕ) (imports : Imports) :
    E.parseClasses load tokens fuel addToExisting (n + 1) imports = (do
      let more ← moreTokens (E.reader tokens)
      if !more then pure true
      else do
        let _ ← expect (E.reader tokens) .tokClass
        let id ← parseIdentifier (E.reader tokens) fuel
        let clazz ← E.parseClassNamed load tokens fuel addToExisting (addImport imports id)
          (identifierToString id)
        let classes ← E.parseClasses load tokens fuel addToExisting n (addImport imports id)
        pure (clazz && classes)) := by
  conv_lhs => unfold parseClasses parseClass
  simp only [bind_assoc, pure_bind, parseIdentifier_reader]
  rfl

/-- The loop over the classes, as long as the table has not changed. -/
theorem parseClasses_agree {n : ℕ} {imports : Imports} {s : ParserState ClassTable}
    (hbelow : E.AgreeBelow (E.pending s.world) load load')
    (hdeclared : ∀ {id : List String}, id.Sublist (tokens.map (·.string)) →
      identifierToString id ∈ E.declarable)
    (hasks : ∀ name, E.Reads tokens fuel imports s name → s.world.halted = false →
      load name s.world = load' name s.world ∧
        ((load name s.world).1 ≠ 0 → E.pending (load name s.world).2 < E.pending s.world)) :
    E.parseClasses load tokens fuel false n imports s =
      E.parseClasses load' tokens fuel false n imports s := by
  induction n generalizing imports s with
  | zero => rfl
  | succ n ih =>
    rw [parseClasses_succ, parseClasses_succ]
    refine run_congr rfl fun {more s'} hmore => ?_
    obtain ⟨-, rfl⟩ := read_ok.mp (show Ok (moreTokens (E.reader tokens)) s more s' from hmore)
    by_cases hend : (!more) = true
    · rw [if_pos hend, if_pos hend]
    rw [if_neg hend, if_neg hend]
    refine run_congr rfl fun {token s₁} hclass => run_congr rfl fun {id s₂} hid => ?_
    obtain ⟨hworld, htexts⟩ := parseIdentifier_texts hid
    have hworld₂ : s₂.world = s.world := by rw [hworld, (expect_world hclass).2]
    have hsuper {token s₃ superId s₄} (hextends : Ok (expect (E.reader tokens) .tokExtends) s₂ token s₃)
        (hsuper : Ok (parseIdentifier (E.reader tokens) fuel) s₃ superId s₄)
        (hhalted : s₂.world.halted = false)
        (hnew : ¬s₂.world.Known (superName (addImport imports id) superId)) :
        load (superName (addImport imports id) superId) s₂.world =
            load' (superName (addImport imports id) superId) s₂.world ∧
          ((load (superName (addImport imports id) superId) s₂.world).1 ≠ 0 →
            E.pending (load (superName (addImport imports id) superId) s₂.world).2 <
              E.pending s₂.world) := by
      rw [hworld₂] at hhalted hnew ⊢
      exact hasks _ (.superClass hclass hid hextends hsuper hnew) hhalted
    have hnamed := parseClassNamed_agree (hworld₂ ▸ hbelow) (hdeclared htexts) hsuper
    refine run_congr hnamed.1 fun {r t} hrun => ?_
    rcases hnamed.2 r t hrun with hless | ⟨hworld', superClass, hhead, hopen⟩
    · -- from here on one class less is to come
      rw [hworld₂] at hless
      have hclasses {load load' : LoadClass} (hload : Loads (fun _ => True)
          (fun table => E.pending table < E.pending s.world) load load') :
          Follows (fun _ => True) (fun table => E.pending table < E.pending s.world)
            (E.parseClasses load tokens fuel false n (addImport imports id))
            (E.parseClasses load' tokens fuel false n (addImport imports id)) :=
        parseClasses_follows (pending_allows (E.pending s.world)).toAllows trivial hload
          (parseClassNamed_follows trivial hload (pending_allows (E.pending s.world)) fuel false) n _
      exact run_congr (hbelow.eq hclasses hless) fun _ => rfl
    · rw [hworld₂] at hworld'
      refine run_congr (ih (hworld' ▸ hbelow) fun name hreads hhalted => ?_) fun _ => rfl
      rw [hworld'] at hhalted ⊢
      exact hasks name (.behind hclass hid hhead hopen hreads) hhalted

/-! ## Loads that answer more -/

/-- The second load answers all that the first one answers, and may answer more. -/
abbrev Extends (load load' : LoadClass) : Prop :=
  Loads (fun halted => halted = false) (fun _ => True) load load'

theorem true_allows : AllowsClasses fun _ => True := allows_of_steps fun _ _ => trivial

theorem halting_extends (load : LoadClass) : Extends halting load :=
  fun _ _ _ hend => Bool.noConfusion (hend : true = false)

theorem findClass_extends (h : Extends load load') {name : String} {table : ClassTable}
    (hend : (E.findClass load name table).2.halted = false) :
    E.findClass load' name table = E.findClass load name table := by
  by_cases hnew : table.halted = false ∧ ¬table.Known name
  · rw [findClass_of_unknown hnew.1 hnew.2] at hend
    rw [findClass_of_unknown hnew.1 hnew.2, findClass_of_unknown hnew.1 hnew.2]
    exact (h name table trivial hend).1
  · obtain ⟨clazz, hclazz⟩ := findClass_of_known (E := E) fun hhalted =>
      not_not.mp (not_and.mp hnew hhalted)
    rw [hclazz, hclazz]

theorem parse_extends (h : Extends load load') {s t : ParserState ClassTable} {r : Option Unit}
    (hrun : E.parse load tokens fuel false s = some (r, t)) (hend : t.world.halted = false) :
    E.parse load' tokens fuel false s = some (r, t) := by
  have hfollows : Follows (fun halted => halted = false) (fun _ => True)
      (E.parse load tokens fuel false) (E.parse load' tokens fuel false) :=
    parse_follows (H := (· = false)) true_allows.toAllows rfl h
      (parseClassNamed_follows (H := (· = false)) rfl h true_allows fuel false)
  exact (Kept.run hfollows trivial hrun hend).1

/-- The outermost load by itself. -/
theorem loadClass_succ (last : LoadClass) (depth : ℕ) :
    E.loadClass fuel last (depth + 1) false =
      E.loadClass fuel (E.loadClass fuel last depth false) 1 false := rfl

/-- It is up to the parse of the file. -/
theorem loadClass_one_congr {name : String} {table : ClassTable}
    (h : ∀ tokens, E.files.lookup name = some tokens →
      E.parse load tokens fuel false ⟨0, table⟩ = E.parse load' tokens fuel false ⟨0, table⟩) :
    E.loadClass fuel load 1 false name table = E.loadClass fuel load' 1 false name table := by
  cases hfile : E.files.lookup name with
  | none => simp only [loadClass, hfile]
  | some tokens => simp only [loadClass, hfile, h tokens hfile]

/-- A load with a result has a parse with an outcome. -/
theorem loadClass_one_parse {name : String} {table : ClassTable}
    (hfile : E.files.lookup name = some tokens)
    (hend : (E.loadClass fuel load 1 false name table).2.halted = false) :
    ∃ r t, E.parse load tokens fuel false ⟨0, table⟩ = some (r, t) ∧ t.world.halted = false := by
  rcases hrun : E.parse load tokens fuel false ⟨0, table⟩ with _ | ⟨_ | r, t⟩ <;>
    simp only [loadClass, hfile, hrun] at hend
  · cases (hend : true = false)
  · exact ⟨none, t, rfl, hend⟩
  · refine ⟨some r, t, rfl, ?_⟩
    by_contra hhalted
    rw [if_pos (Bool.eq_true_of_not_eq_false hhalted)] at hend
    exact hhalted hend

theorem loadClass_one_extends (h : Extends load load') :
    Extends (E.loadClass fuel load 1 false) (E.loadClass fuel load' 1 false) := by
  intro name table _ hend
  refine ⟨loadClass_one_congr fun tokens hfile => ?_, trivial⟩
  obtain ⟨r, t, hrun, ht⟩ := loadClass_one_parse hfile hend
  rw [hrun, parse_extends h hrun ht]

/-- Where loads may be nested deeper, no result changes. -/
theorem loadClass_deeper {depth depth' : ℕ} (hle : depth ≤ depth') :
    Extends (E.loadClass fuel halting depth false) (E.loadClass fuel halting depth' false) := by
  induction depth generalizing depth' with
  | zero => exact halting_extends _
  | succ depth ih =>
    obtain ⟨depth', rfl⟩ : ∃ k, depth' = k + 1 := ⟨depth' - 1, by omega⟩
    rw [loadClass_succ, loadClass_succ]
    exact loadClass_one_extends (ih (by omega))

/-! ## Results without a cycle come from finitely many loads -/

/-- A class that `loadClass` returns is in the table. -/
theorem loadClass_found {depth : ℕ} {name : String} {table : ClassTable}
    (h : (E.loadClass fuel halting depth false name table).1 ≠ 0) :
    (E.loadClass fuel halting depth false name table).2.Known name ∧
      ∃ tokens, E.files.lookup name = some tokens := by
  cases depth with
  | zero => exact absurd rfl h
  | succ depth =>
    unfold loadClass at h ⊢
    cases hfile : E.files.lookup name with
    | none => simp [hfile] at h
    | some tokens =>
      simp only [hfile] at h ⊢
      refine ⟨?_, tokens, rfl⟩
      split at h
      · exact absurd rfl h
      · exact absurd rfl h
      · split at h
        · exact absurd rfl h
        · next hhalted =>
          split at h
          · next e he =>
            simp only [if_neg hhalted]
            exact Option.isSome_iff_exists.mpr ⟨e, he⟩
          · exact absurd rfl h

/-- A depth that is enough: for each class that is to come a chain of superclasses. -/
def enoughDepth (E : ClassPath) (classes length : ℕ) : ℕ := classes * (E.files.length + 2) + length

theorem enoughDepth_le {classes classes' : ℕ} (length : ℕ) (h : classes < classes') :
    E.enoughDepth classes (E.files.length + 1) ≤ E.enoughDepth classes' length := by
  have hmul : (classes + 1) * (E.files.length + 2) ≤ classes' * (E.files.length + 2) :=
    Nat.mul_le_mul_right _ h
  unfold enoughDepth
  rw [Nat.succ_mul] at hmul
  omega

/-- What is asked for is not in the table. -/
theorem Reads.new {imports : Imports} {s : ParserState ClassTable} {name : String}
    (h : E.Reads tokens fuel imports s name) : ¬s.world.Known name := by
  induction h with
  | superClass _ _ _ _ hnew => exact hnew
  | behind hclass hid hhead _ _ ih =>
    have hworld := (parseIdentifier_texts hid).1
    rw [(expect_world hclass).2] at hworld
    rcases parseHead_ok hhead with ⟨_, _, _, _, _, _, _, _, hfound, _⟩ | ⟨hworld', _⟩
    · exact absurd rfl hfound
    · rw [hworld', hworld] at ih
      exact ih

theorem Asks.new {table : ClassTable} {name name' : String} (h : E.Asks fuel table name name') :
    ¬table.Known name' := by
  obtain ⟨-, tokens, -, imports, s, himports, hreads⟩ := h
  have hnew := hreads.new
  rw [parseImports_world himports] at hnew
  exact hnew

/-- What is asked for by files that have a result. -/
def Chain (E : ClassPath) (fuel : ℕ) (answers : LoadClass) (table : ClassTable)
    (name name' : String) : Prop :=
  (answers name table).2.halted = false ∧ E.Asks fuel table name name'

/-- Only the name of a file asks for anything. -/
theorem chain_shallow {answers : LoadClass} (hacyclic : E.Acyclic fuel answers) (table : ClassTable)
    (name : String) : Shallow (E.Chain fuel answers table) (E.files.length + 1) name := by
  have hsources {name name' : String} (h : E.Chain fuel answers table name name') :
      name ∈ E.files.map Prod.fst := by
    obtain ⟨-, -, tokens, hfile, -⟩ := h
    exact List.mem_map.mpr ⟨_, file_mem hfile, rfl⟩
  have hchain (name : String) : ¬Relation.TransGen (E.Chain fuel answers table) name name := by
    intro hcycle
    obtain ⟨next, hnext, -⟩ := Relation.TransGen.head'_iff.mp hcycle
    exact hacyclic name table hnext.1 (Relation.TransGen.mono (fun _ _ h => h.2) _ _ hcycle)
  have hshallow := shallow_of_acyclic hchain hsources name
  rw [List.length_map] at hshallow
  exact hshallow

/-- The parse of a file. -/
theorem parse_agree {file : String} (hfile : E.files.lookup file = some tokens) {table : ClassTable}
    (hbelow : E.AgreeBelow (E.pending table) load load')
    (hasks : ∀ name, E.Asks fuel table file name → load name table = load' name table ∧
      ((load name table).1 ≠ 0 → E.pending (load name table).2 < E.pending table)) :
    E.parse load tokens fuel false ⟨0, table⟩ = E.parse load' tokens fuel false ⟨0, table⟩ := by
  unfold parse
  have himports (load : LoadClass) : E.parseImports load tokens fuel fuel runtimeImport =
      E.parseImports halting tokens fuel fuel runtimeImport := parseImports_congr fuel fuel _
  refine run_congr (by rw [himports load, himports load']) fun {imports s} hrun => ?_
  rw [himports load] at hrun
  have hworld : s.world = table := parseImports_world hrun
  have hclasses : E.parseClasses load tokens fuel false fuel imports s =
      E.parseClasses load' tokens fuel false fuel imports s := by
    refine parseClasses_agree (hworld ▸ hbelow) (declarable_class hfile) fun name hreads hhalted => ?_
    rw [hworld] at hhalted ⊢
    exact hasks name ⟨hhalted, tokens, hfile, imports, s, hrun, hreads⟩
  exact run_congr hclasses fun _ => rfl

open Classical in
/-- The results of some loads; the others do not come to an end. -/
noncomputable def only (p : String → ClassTable → Prop) (answers : LoadClass) : LoadClass :=
  fun name table =>
    if p name table ∧ (answers name table).2.halted = false then answers name table
    else halting name table

theorem only_of {p : String → ClassTable → Prop} {answers : LoadClass} {name : String}
    {table : ClassTable} (hp : p name table) (hend : (answers name table).2.halted = false) :
    only p answers name table = answers name table := if_pos ⟨hp, hend⟩

theorem only_halted {p : String → ClassTable → Prop} {answers : LoadClass} {name : String}
    {table : ClassTable} (hend : ¬(answers name table).2.halted = false) :
    only p answers name table = halting name table := if_neg fun h => hend h.2

/-- Where a condition holds, asking for it makes no difference. -/
theorem only_congr {p q : String → ClassTable → Prop} {answers : LoadClass} {name : String}
    {table : ClassTable} (hp : p name table) (hq : q name table) :
    only p answers name table = only q answers name table := by
  by_cases hend : (answers name table).2.halted = false
  · rw [only_of hp hend, only_of hq hend]
  · rw [only_halted hend, only_halted hend]

theorem extends_only (answers : LoadClass) : Extends answers (only (fun _ _ => True) answers) :=
  fun _ _ _ hend => ⟨only_of trivial hend, trivial⟩

/-- All that a load asks for: superclasses from the table as it is, and anything once a class is new. -/
def Asked (E : ClassPath) (fuel : ℕ) (table : ClassTable) (name name' : String) (table' : ClassTable) :
    Prop :=
  E.pending table' < E.pending table ∨ table' = table ∧ E.Asks fuel table name name'

section

variable {answers : LoadClass} {table : ClassTable} {name : String} {depth : ℕ}
  (hasked : ∀ {name' table'}, E.Asked fuel table name name' table' →
    (answers name' table').2.halted = false →
      E.loadClass fuel halting depth false name' table' = answers name' table')

include hasked

/-- A load answered by results asks for nothing but what it asks for. -/
theorem loadClass_asked : E.loadClass fuel (only (fun _ _ => True) answers) 1 false name table =
    E.loadClass fuel (only (E.Asked fuel table name) answers) 1 false name table := by
  have hsteps {name' : String} {table' : ClassTable} (h : E.Asked fuel table name name' table')
      (hend : (answers name' table').2.halted = false) {known : String} (hknown : table'.Known known) :
      (answers name' table').2.Known known :=
    hasked h hend ▸ known_of_steps (loadClass_steps _ false name' table') hknown
  have hbelow : E.AgreeBelow (E.pending table) (only (fun _ _ => True) answers)
      (only (E.Asked fuel table name) answers) := by
    refine fun name' table' hless => ⟨only_congr trivial (.inl hless), ?_⟩
    by_cases hend : (answers name' table').2.halted = false
    · rw [only_of trivial hend]
      exact (pending_le fun _ => hsteps (.inl hless) hend).trans_lt hless
    · rw [only_halted hend]
      exact hless
  refine loadClass_one_congr fun tokens hfile => parse_agree hfile hbelow fun name' hasks =>
    ⟨only_congr trivial (.inr ⟨rfl, hasks⟩), fun hfound => ?_⟩
  by_cases hend : (answers name' table).2.halted = false
  · rw [only_of trivial hend] at hfound ⊢
    have hloaded := hasked (.inr ⟨rfl, hasks⟩) hend
    obtain ⟨hknown, tokens', hfile'⟩ := loadClass_found (hloaded ▸ hfound)
    rw [hloaded] at hknown
    exact pending_lt (fun _ => hsteps (.inr ⟨rfl, hasks⟩) hend) (declarable_file hfile') hasks.new hknown
  · rw [only_halted hend] at hfound
    exact absurd rfl hfound

/-- If all of it is loaded one level down, so is the class. -/
theorem loadClass_of_asked (hcoherent : E.Coherent fuel answers)
    (hend : (answers name table).2.halted = false) :
    E.loadClass fuel halting (depth + 1) false name table = answers name table := by
  have hloaded : Extends (only (E.Asked fuel table name) answers)
      (E.loadClass fuel halting depth false) := by
    intro name' table' _ hend'
    by_cases hp : E.Asked fuel table name name' table' ∧ (answers name' table').2.halted = false
    · rw [only_of hp.1 hp.2]
      exact ⟨hasked hp.1 hp.2, trivial⟩
    · rw [only, if_neg hp] at hend'
      cases (hend' : true = false)
  have hfits := hcoherent name table hend
  have hone : E.loadClass fuel (only (E.Asked fuel table name) answers) 1 false name table =
      answers name table := by
    rw [← loadClass_asked hasked,
      (loadClass_one_extends (extends_only answers) name table trivial (hfits ▸ hend)).1, hfits]
  rw [loadClass_succ, (loadClass_one_extends hloaded name table trivial (hone ▸ hend)).1, hone]

end

/-- **Results come from finitely many loads**: fewer classes are to come, or the chain of superclasses
    gets shorter. -/
theorem loadClass_of_coherent {answers : LoadClass} (hcoherent : E.Coherent fuel answers)
    (hacyclic : E.Acyclic fuel answers) (classes length : ℕ) (table : ClassTable) (name : String)
    (hclasses : E.pending table ≤ classes)
    (hlength : Shallow (E.Chain fuel answers table) length name) (hle : length ≤ E.files.length + 1)
    (hend : (answers name table).2.halted = false) :
    E.loadClass fuel halting (E.enoughDepth classes length) false name table = answers name table := by
  induction classes using Nat.strong_induction_on generalizing length table name with
  | _ classes ihc =>
    induction length generalizing name with
    | zero => cases hlength
    | succ length ihl =>
      have hdepth : E.enoughDepth classes (length + 1) = E.enoughDepth classes length + 1 := rfl
      rw [hdepth]
      refine loadClass_of_asked ?_ hcoherent hend
      rintro name' table' (hless | ⟨rfl, hasks⟩) hend'
      · -- fewer classes are to come, with all of the chain in front
        have hloaded := ihc _ (hless.trans_le hclasses) _ _ name' le_rfl (chain_shallow hacyclic _ _)
          le_rfl hend'
        have hdeeper := enoughDepth_le (E := E) length (hless.trans_le hclasses)
        rw [(loadClass_deeper hdeeper name' table' trivial (hloaded ▸ hend')).1, hloaded]
      · exact ihl name' (hlength name' ⟨hend, hasks⟩) (Nat.le_of_succ_le hle) hend'

/-! ## A cycle goes on for ever -/

/-- A superclass that is not found ends the head. -/
theorem parseHead_fails {imports : Imports} {s s₁ s₂ : ParserState ClassTable} {token : Token}
    {id : List String} (hextends : Ok (expect (E.reader tokens) .tokExtends) s token s₁)
    (hid : Ok (parseIdentifier (E.reader tokens) fuel) s₁ id s₂) {table : ClassTable}
    (hfind : E.findClass load (superName imports id) s.world = (0, table)) :
    E.parseHead load tokens fuel imports s = some (none, ⟨s₂.pos, table⟩) := by
  have hworld : s₂.world = s.world := by
    rw [(parseIdentifier_texts hid).1, (expect_world hextends).2]
  have hsuper : E.parseSuperClass load tokens fuel imports s₁ = some (none, ⟨s₂.pos, table⟩) := by
    rw [parseSuperClass_run hid, hworld, hfind, if_pos rfl]
  obtain ⟨hnext, htype⟩ := expect_ok.mp hextends
  have hnext' : Ok (nextToken (E.parser load tokens imports)) s token s₁ := hnext
  unfold parseHead
  rw [hnext'.run, if_pos htype, bind_run, bind_run, hsuper]
  rfl

/-- A superclass that is not found ends the parse, and what looking for it has done stays. -/
theorem Reads.fails {imports : Imports} {s : ParserState ClassTable} {name : String}
    (h : E.Reads tokens fuel imports s name) (hhalted : s.world.halted = false) {table : ClassTable}
    (hload : load name s.world = (0, table)) (n : ℕ) :
    E.parseClasses load tokens fuel false n imports s = none ∨
      ∃ pos, E.parseClasses load tokens fuel false n imports s = some (none, ⟨pos, table⟩) := by
  have hround {s s₁ s₂ : ParserState ClassTable} {token : Token} {imports : Imports}
      {id : List String} (hclass : Ok (expect (E.reader tokens) .tokClass) s token s₁)
      (hid : Ok (parseIdentifier (E.reader tokens) fuel) s₁ id s₂) (n : ℕ) :
      E.parseClasses load tokens fuel false (n + 1) imports s =
        (E.parseClassNamed load tokens fuel false (addImport imports id) (identifierToString id) >>=
          fun clazz => do
            let classes ← E.parseClasses load tokens fuel false n (addImport imports id)
            pure (clazz && classes)) s₂ := by
    have hlt : s.pos < tokens.length :=
      (List.getElem?_eq_some_iff.mp (expect_world hclass).1.1).1
    have hmore : Ok (moreTokens (E.reader tokens)) s true s :=
      read_ok.mpr ⟨decide_eq_true hlt, rfl⟩
    rw [parseClasses_succ, hmore.run, if_neg (by simp), hclass.run, hid.run]
  induction h generalizing n with
  | @superClass imports s s₁ s₂ s₃ s₄ token token' id superId hclass hid hextends hsuper hnew =>
    have hworld : s₂.world = s.world := by
      rw [(parseIdentifier_texts hid).1, (expect_world hclass).2]
    cases n with
    | zero => exact .inl rfl
    | succ n =>
      have hhead : E.parseHead load tokens fuel (addImport imports id) s₂ =
          some (none, ⟨s₄.pos, table⟩) := by
        refine parseHead_fails hextends hsuper ?_
        rw [hworld, findClass_of_unknown hhalted hnew, hload]
      refine .inr ⟨s₄.pos, ?_⟩
      rw [hround hclass hid, bind_run]
      unfold parseClassNamed
      rw [bind_run, hhead]
      rfl
  | @behind imports s s₁ s₂ s₃ token id superClass name hclass hid hhead hopen _ ih =>
    have hworld : s₃.world = s.world := by
      rcases parseHead_ok hhead with ⟨_, _, _, _, _, _, _, _, hfound, _⟩ | ⟨hworld, _⟩
      · exact absurd rfl hfound
      · rw [hworld, (parseIdentifier_texts hid).1, (expect_world hclass).2]
    cases n with
    | zero => exact .inl rfl
    | succ n =>
      have hhead' : Ok (E.parseHead load tokens fuel (addImport imports id)) s₂ superClass s₃ :=
        (Kept.run (parseHead_follows (H := (· = false)) true_allows.toAllows rfl (halting_extends load)
          fuel (addImport imports id)) trivial hhead (hworld ▸ hhalted)).1
      have hnamed : Ok (E.parseClassNamed load tokens fuel false (addImport imports id)
          (identifierToString id)) s₂ true s₃ := by
        refine hhead'.bind (hopen.bind ?_)
        exact pure_ok.mpr ⟨rfl, rfl⟩
      rw [hround hclass hid, hnamed.run, bind_run]
      rcases ih (hworld ▸ hhalted) (hworld ▸ hload) n with hnone | ⟨pos, hfails⟩
      · exact .inl (by rw [hnone]; rfl)
      · exact .inr ⟨pos, by rw [hfails]; rfl⟩

/-- That a load does not come to an end is handed on along what is asked for. -/
def HandsOn (E : ClassPath) (fuel : ℕ) (table : ClassTable) (name name' : String) : Prop :=
  ∀ depth, E.loadClass fuel halting depth false name' table = (0, table.halt) →
    E.loadClass fuel halting (depth + 1) false name table = (0, table.halt)

theorem Asks.handsOn {table : ClassTable} {name name' : String} (h : E.Asks fuel table name name') :
    E.HandsOn fuel table name name' := by
  obtain ⟨hhalted, tokens, hfile, imports, s, himports, hreads⟩ := h
  have hworld : s.world = table := parseImports_world himports
  intro depth hload
  have himports' : Ok (E.parseImports (E.loadClass fuel halting depth false) tokens fuel fuel
      runtimeImport) ⟨0, table⟩ imports s := by
    have hcongr : E.parseImports (E.loadClass fuel halting depth false) tokens fuel fuel runtimeImport =
        E.parseImports halting tokens fuel fuel runtimeImport := parseImports_congr fuel fuel _
    rw [hcongr]
    exact himports
  have hparse : E.parse (E.loadClass fuel halting depth false) tokens fuel false ⟨0, table⟩ = none ∨
      ∃ pos, E.parse (E.loadClass fuel halting depth false) tokens fuel false ⟨0, table⟩ =
        some (none, ⟨pos, table.halt⟩) := by
    unfold parse
    rw [himports'.run, bind_run]
    have hload' : E.loadClass fuel halting depth false name' s.world = (0, table.halt) := hworld ▸ hload
    rcases hreads.fails (hworld ▸ hhalted) hload' fuel with hnone | ⟨pos, hfails⟩
    · exact .inl (by rw [hnone]; rfl)
    · exact .inr ⟨pos, by rw [hfails]; rfl⟩
  unfold loadClass
  rcases hparse with hnone | ⟨pos, hfails⟩
  · simp only [hfile, hnone]
  · simp only [hfile, hfails]

/-- Round a cycle it comes from as deep as one likes. -/
theorem halted_of_cycle {table : ClassTable} {name : String}
    (h : Relation.TransGen (E.Asks fuel table) name name) (depth : ℕ) :
    E.loadClass fuel halting depth false name table = (0, table.halt) := by
  suffices hall : ∀ name', Relation.ReflTransGen (E.Asks fuel table) name' name →
      E.loadClass fuel halting depth false name' table = (0, table.halt) from hall name .refl
  induction depth with
  | zero => exact fun name' _ => rfl
  | succ depth ih =>
    intro name' hreach
    obtain ⟨next, hnext, hrest⟩ : ∃ next, E.Asks fuel table name' next ∧
        Relation.ReflTransGen (E.Asks fuel table) next name := by
      rcases hreach.cases_head with rfl | hhead
      · exact Relation.TransGen.head'_iff.mp h
      · exact hhead
    exact hnext.handsOn depth (ih next hrest)

/-! ## The results that there are -/

open Classical in
/-- What loads come to, however deep they have to be nested for it. -/
noncomputable def outcome (E : ClassPath) (fuel : ℕ) : LoadClass := fun name table =>
  if h : ∃ depth, (E.loadClass fuel halting depth false name table).2.halted = false then
    E.loadClass fuel halting h.choose false name table
  else halting name table

theorem outcome_loaded {name : String} {table : ClassTable}
    (h : (E.outcome fuel name table).2.halted = false) :
    ∃ depth, E.loadClass fuel halting depth false name table = E.outcome fuel name table := by
  unfold outcome at h ⊢
  by_cases hdepth : ∃ depth, (E.loadClass fuel halting depth false name table).2.halted = false
  · rw [dif_pos hdepth]
    exact ⟨_, rfl⟩
  · rw [dif_neg hdepth] at h
    cases (h : true = false)

theorem loadClass_extends_outcome (depth : ℕ) :
    Extends (E.loadClass fuel halting depth false) (E.outcome fuel) := by
  intro name table _ hend
  refine ⟨?_, trivial⟩
  have hdepth : ∃ depth, (E.loadClass fuel halting depth false name table).2.halted = false :=
    ⟨depth, hend⟩
  have hchoose := hdepth.choose_spec
  unfold outcome
  rw [dif_pos hdepth]
  rcases le_total depth hdepth.choose with hle | hle
  · exact (loadClass_deeper hle name table trivial hend).1
  · exact (loadClass_deeper hle name table trivial hchoose).1.symm

theorem outcome_coherent (E : ClassPath) (fuel : ℕ) : E.Coherent fuel (E.outcome fuel) := by
  intro name table hend
  obtain ⟨depth, hdepth⟩ := outcome_loaded hend
  rw [← hdepth] at hend ⊢
  cases depth with
  | zero => cases (hend : true = false)
  | succ depth =>
    rw [loadClass_succ] at hend ⊢
    exact (loadClass_one_extends (loadClass_extends_outcome depth) name table trivial hend).1

theorem outcome_acyclic (E : ClassPath) (fuel : ℕ) : E.Acyclic fuel (E.outcome fuel) := by
  intro name table hend hcycle
  obtain ⟨depth, hdepth⟩ := outcome_loaded hend
  rw [← hdepth, halted_of_cycle hcycle] at hend
  cases (hend : true = false)

/-- `class A extends A { }`. -/
def ownSuperClass : List Token :=
  [⟨.tokClass, 1, "class", 0, 0⟩, ⟨.tokIdentifier, 1, "A", 0, 0⟩, ⟨.tokExtends, 1, "extends", 0, 0⟩,
    ⟨.tokIdentifier, 1, "A", 0, 0⟩, ⟨.tokBraceLeft, 1, "\x7b", 0, 0⟩, ⟨.tokBraceRight, 1, "\x7d", 0, 0⟩]

def ownSuperClassPath : ClassPath := { noFiles with files := [("A", ownSuperClass)] }

/-- `A` is looked for again before it is in the table. -/
theorem ownSuperClass_asks (fuel : ℕ) :
    ownSuperClassPath.Asks (fuel + 1) objectTable "A" "A" := by
  have hclass : Ok (expect (ownSuperClassPath.reader ownSuperClass) .tokClass) ⟨0, objectTable⟩
      ⟨.tokClass, 1, "class", 0, 0⟩ ⟨1, objectTable⟩ := rfl
  have hid : Ok (parseIdentifier (ownSuperClassPath.reader ownSuperClass) (fuel + 1))
      ⟨1, objectTable⟩ ["A"] ⟨2, objectTable⟩ := rfl
  have hextends : Ok (expect (ownSuperClassPath.reader ownSuperClass) .tokExtends) ⟨2, objectTable⟩
      ⟨.tokExtends, 1, "extends", 0, 0⟩ ⟨3, objectTable⟩ := rfl
  have hsuper : Ok (parseIdentifier (ownSuperClassPath.reader ownSuperClass) (fuel + 1))
      ⟨3, objectTable⟩ ["A"] ⟨4, objectTable⟩ := rfl
  have hnew : ¬objectTable.Known (superName (addImport runtimeImport ["A"]) ["A"]) := by
    unfold ClassTable.Known
    decide
  exact ⟨rfl, ownSuperClass, rfl, runtimeImport, ⟨0, objectTable⟩, rfl,
    .superClass hclass hid hextends hsuper hnew⟩

end ClassPath

end B0rk
