import B0rk.Parser.Proofs.Classes

set_option autoImplicit false

/-! # When a failed parse leaves no broken class behind

A class is put into the table before its body is parsed, and stays there when the body is rejected and
the class deleted. Each function below `parse` changes the table as the events tell that it comes to. -/

namespace B0rk

open Attempt

namespace ClassTable

/-! ## Tables and events -/

/-- The table has changed as these events tell. -/
structure Recorded (events : ClassEvent → Prop) (table table' : ClassTable) : Prop where
  deleted : ∀ name, table'.Deleted name ↔ table.Deleted name ∨ events (.rejected name)
  known : ∀ name, table'.Known name ↔
    table.Known name ∨ events (.rejected name) ∨ events (.completed name)

/-- Neither is a class known that was not, nor has one been deleted. -/
def Silent : ClassTable → ClassTable → Prop := Recorded fun _ => False

theorem Recorded.trans {events events' : ClassEvent → Prop} {table table' table'' : ClassTable}
    (h : Recorded events table table') (h' : Recorded events' table' table'') :
    Recorded (fun event => events event ∨ events' event) table table'' where
  deleted name := by
    rw [h'.deleted, h.deleted]
    tauto
  known name := by
    rw [h'.known, h.known]
    tauto

theorem Recorded.congr {events events' : ClassEvent → Prop} {table table' : ClassTable}
    (h : Recorded events table table') (hiff : ∀ event, events event ↔ events' event) :
    Recorded events' table table' := by
  obtain rfl : events = events' := funext fun event => propext (hiff event)
  exact h

instance : Std.Refl Silent := ⟨fun _ => ⟨by simp, by simp⟩⟩

instance : IsTrans ClassTable Silent :=
  ⟨fun _ _ _ h h' => (h.trans h').congr fun _ => by simp⟩

/-- A change of one class that leaves it where it is. -/
theorem find_update {table table' : ClassTable} {name : String} {f : Loader.Entry → Loader.Entry}
    (hclasses : table'.classes = table.classes.update name f)
    (hname : ∀ e, (f e).clazz.name = e.clazz.name) (s : String) :
    table'.classes.find s =
      (table.classes.find s).map (fun e => if s = name then f e else e) := by
  rw [hclasses, Loader.Registry.find_update _ _ _ _ hname]
  refine Option.map_congr fun e he => ?_
  rw [Loader.Registry.find_name he]

theorem known_update {table table' : ClassTable} {name : String} {f : Loader.Entry → Loader.Entry}
    (hclasses : table'.classes = table.classes.update name f)
    (hname : ∀ e, (f e).clazz.name = e.clazz.name) (s : String) :
    table'.Known s ↔ table.Known s := by
  unfold ClassTable.Known
  rw [find_update hclasses hname, Option.isSome_map]

theorem deleted_update {table table' : ClassTable} {name : String} {f : Loader.Entry → Loader.Entry}
    (hclasses : table'.classes = table.classes.update name f)
    (hname : ∀ e, (f e).clazz.name = e.clazz.name) (s : String) :
    table'.Deleted s ↔
      ∃ e, table.classes.find s = some e ∧ (if s = name then f e else e).deleted = true := by
  unfold Deleted
  rw [find_update hclasses hname]
  simp [Option.map_eq_some_iff]

/-- A change of one class that does not delete it. -/
theorem deleted_update_of_kept {table table' : ClassTable} {name : String}
    {f : Loader.Entry → Loader.Entry} (hclasses : table'.classes = table.classes.update name f)
    (hname : ∀ e, (f e).clazz.name = e.clazz.name) (hdeleted : ∀ e, (f e).deleted = e.deleted)
    (s : String) : table'.Deleted s ↔ table.Deleted s := by
  have hkeep (e : Loader.Entry) : (if s = name then f e else e).deleted = e.deleted := by
    split
    · exact hdeleted e
    · rfl
  rw [deleted_update hclasses hname]
  simp [hkeep, Deleted]

theorem quiet_update {table table' : ClassTable} {name : String} {f : Loader.Entry → Loader.Entry}
    (hclasses : table'.classes = table.classes.update name f)
    (hname : ∀ e, (f e).clazz.name = e.clazz.name) (hdeleted : ∀ e, (f e).deleted = e.deleted) :
    Silent table table' where
  deleted s := by rw [deleted_update_of_kept hclasses hname hdeleted, or_false]
  known s := by rw [known_update hclasses hname, or_false, or_false]

theorem quiet_of_classes {table table' : ClassTable} (h : table'.classes = table.classes) :
    Silent table table' := by
  refine ⟨fun name => ?_, fun name => ?_⟩
  · simp [Deleted, h]
  · simp [ClassTable.Known, h]

theorem completeClass_recorded {table : ClassTable} {name : String} (h : table.Known name) :
    Recorded (· = .completed name) table (table.completeClass name) := by
  have hclasses : (table.completeClass name).classes =
      table.classes.update name (fun e => { e with state := .complete }) := rfl
  refine ⟨fun s => ?_, fun s => ?_⟩
  · rw [deleted_update_of_kept hclasses (fun _ => rfl) fun _ => rfl]
    simp
  · rw [known_update hclasses fun _ => rfl]
    constructor
    · exact .inl
    · rintro (hs | hs | hs)
      · exact hs
      · cases hs
      · cases hs
        exact h

theorem rejectClass_recorded {table : ClassTable} {name : String} (h : table.Known name) :
    Recorded (· = .rejected name) table (table.rejectClass name) := by
  have hclasses : (table.rejectClass name).classes =
      table.classes.update name (fun e => { e with deleted := true }) := rfl
  refine ⟨fun s => ?_, fun s => ?_⟩
  · rw [deleted_update hclasses fun _ => rfl]
    by_cases hs : s = name
    · subst hs
      obtain ⟨e, he⟩ := Option.isSome_iff_exists.mp h
      simp [he]
    · simp [hs, Deleted]
  · rw [known_update hclasses fun _ => rfl]
    constructor
    · exact .inl
    · rintro (hs | hs | hs)
      · exact hs
      · cases hs
        exact h
      · cases hs

/-! ## A class that is opened -/

/-- A class is in the table, perhaps a new one, of which nothing has been said yet. -/
structure Opened (name : String) (table table' : ClassTable) : Prop where
  deleted : ∀ s, table'.Deleted s ↔ table.Deleted s
  known : ∀ s, table'.Known s ↔ table.Known s ∨ s = name

/-- The events in the class, with the one that ends it, tell of the new class too. -/
theorem Opened.recorded {name : String} {table table' table'' : ClassTable}
    {events : ClassEvent → Prop} (h : Opened name table table') (h' : Recorded events table' table'')
    (hevent : events (.rejected name) ∨ events (.completed name)) : Recorded events table table'' where
  deleted s := by rw [h'.deleted, h.deleted]
  known s := by
    rw [h'.known, h.known]
    constructor
    · rintro ((hs | rfl) | hs)
      · exact .inl hs
      · exact .inr hevent
      · exact .inr hs
    · rintro (hs | hs)
      · exact .inl (.inl hs)
      · exact .inr hs

theorem startClass_opened {table table' : ClassTable} {name : String}
    (hdeleted : ∀ s, table'.Deleted s ↔ table.Deleted s)
    (hknown : ∀ s, table'.Known s ↔ table.Known s ∨ s = name) :
    Opened name table (table'.startClass name) := by
  have hclasses : (table'.startClass name).classes =
      table'.classes.update name (fun e => { e with state := .parsing }) := rfl
  refine ⟨fun s => ?_, fun s => ?_⟩
  · rw [deleted_update_of_kept hclasses (fun _ => rfl) fun _ => rfl, hdeleted]
  · rw [known_update hclasses fun _ => rfl, hknown]

/-- Making a class and putting it into the table. -/
theorem addClass_opened {table : ClassTable} {superClass name : String} {classes : Loader.Registry}
    (hnew : table.classes.find name = none)
    (hadd : Loader.addClass superClass name table.classes = some classes) :
    Opened name table { table with classes := classes } := by
  unfold Loader.addClass at hadd
  obtain ⟨e, _, hadd⟩ := Option.bind_eq_some_iff.mp hadd
  have hclasses : classes =
      ⟨Class.create (some e.clazz) name, some superClass, .init, false, false⟩ :: table.classes := by
    by_cases hdeleted : e.deleted
    · simp [hdeleted] at hadd
    · simpa [hdeleted] using hadd.symm
  subst hclasses
  have hfind (s : String) : Loader.Registry.find
      (⟨Class.create (some e.clazz) name, some superClass, .init, false, false⟩ :: table.classes) s =
      if s = name then some ⟨Class.create (some e.clazz) name, some superClass, .init, false, false⟩
      else table.classes.find s := by
    split
    · next h =>
      subst h
      exact Loader.Registry.find_cons_self table.classes _
    · next h => exact Loader.Registry.find_cons_of_ne (Ne.symm h)
  refine ⟨fun s => ?_, fun s => ?_⟩
  · unfold Deleted
    rw [hfind s]
    by_cases h : s = name
    · subst h
      simp [hnew]
    · simp [h]
  · unfold ClassTable.Known
    rw [hfind s]
    by_cases h : s = name
    · simp [h]
    · simp [h]

end ClassTable

open ClassTable

/-! ## What a function records -/

/-- Where the computation comes to an outcome, the table has changed as these events tell, which depend
    on where it begins. -/
def Records {α : Type} (events : ParserState ClassTable → ClassEvent → Prop)
    (x : Parse ClassTable α) : Prop :=
  ∀ s r t, x s = some (r, t) → Recorded (events s) s.world t.world

namespace Records

variable {α β : Type} {x : Parse ClassTable α} {events : ParserState ClassTable → ClassEvent → Prop}

theorem quiet (h : Changes (OnWorld Silent) x) : Records (fun _ _ => False) x := h

theorem congr {events' : ParserState ClassTable → ClassEvent → Prop} (h : Records events x)
    (hiff : ∀ s event, events s event ↔ events' s event) : Records events' x :=
  fun s r t hrun => (h s r t hrun).congr (hiff s)

/-- What is behind a part that succeeds begins where this one ends. -/
theorem bind (h : Records events x) {f : α → Parse ClassTable β}
    {events' : α → ParserState ClassTable → ClassEvent → Prop} (hf : ∀ a, Records (events' a) (f a)) :
    Records (fun s event => events s event ∨ ∃ a t, Ok x s a t ∧ events' a t event) (x >>= f) := by
  intro s r t hrun
  rw [bind_run] at hrun
  rcases hx : x s with _ | ⟨_ | a, u⟩ <;> rw [hx] at hrun
  · cases hrun
  · obtain ⟨-, rfl⟩ := Prod.mk.inj (Option.some.inj hrun)
    refine (h s none u hx).congr fun event => (or_iff_left ?_).symm
    rintro ⟨a, t, hok, -⟩
    have heq : some (none, u) = some (some a, t) := hx.symm.trans hok
    cases heq
  · refine ((h s _ u hx).trans (hf a u r t hrun)).congr fun event => or_congr_right ?_
    constructor
    · exact fun hevent => ⟨a, u, hx, hevent⟩
    · rintro ⟨b, v, hok, hevent⟩
      obtain ⟨rfl, rfl⟩ := hok.unique hx
      exact hevent

/-- A part that is no event goes first. -/
theorem behind (events' : α → ParserState ClassTable → ClassEvent → Prop)
    (hx : Changes (OnWorld Silent) x) {f : α → Parse ClassTable β}
    (hf : ∀ a, Records (events' a) (f a)) :
    Records (fun s event => ∃ a t, Ok x s a t ∧ events' a t event) (x >>= f) :=
  ((quiet hx).bind hf).congr fun _ _ => or_iff_right id

/-- A part that is no event goes last. -/
theorem before (h : Records events x) {f : α → Parse ClassTable β}
    (hf : ∀ a, Changes (OnWorld Silent) (f a)) : Records events (x >>= f) := by
  refine (h.bind fun a => quiet (hf a)).congr fun s event => or_iff_left ?_
  rintro ⟨a, t, -, hfalse⟩
  exact hfalse

end Records

namespace ClassPath

variable {E : ClassPath} {load : LoadClass} {tokens : List Token} {fuel : ℕ} {addToExisting : Bool}
  {loads : String → ClassTable → ClassEvent → Prop}

/-! ## Methods -/

/-- The table has changed as the classes tell that have been looked for. -/
def Noted (loads : String → ClassTable → ClassEvent → Prop) (start table : ClassTable)
    (noted : ClassTable × List Lookup) : Prop :=
  table = noted.1 ∧
    Recorded (fun event => ∃ lookup ∈ noted.2, loads lookup.1 lookup.2 event) start table

section

variable (hload : ∀ name table, Recorded (loads name table) table (E.findClass load name table).2)

include hload

theorem noting_follows (tokens : List Token) (start : ClassTable) (imports : Imports) :
    (E.parser load tokens imports).Follows (fun _ => True) (Noted loads start)
      (E.parser load tokens imports).noting := by
  refine ⟨rfl, rfl, rfl, rfl, fun _ _ _ => trivial, fun _ _ => trivial, ?_, ?_⟩
  · rintro table ⟨_, noted⟩ name ⟨rfl, h⟩ -
    refine ⟨rfl, rfl, (h.trans (hload name table)).congr fun event => ?_⟩
    show _ ↔ ∃ lookup ∈ noted ++ [(name, table)], _
    simp only [List.mem_append, List.mem_singleton, or_and_right, exists_or, exists_eq_left]
  · rintro table ⟨_, noted⟩ ⟨rfl, h⟩ -
    have hquiet : Silent table ((E.parser load tokens imports).newFunction table).2 :=
      quiet_of_classes rfl
    exact ⟨rfl, rfl, (h.trans hquiet).congr fun event => or_iff_left id⟩

/-- What happens to the classes that a function looks for. -/
theorem parseFunction_records (imports : Imports) :
    Records (fun s event => ∃ lookup ∈ lookups (E.parser load tokens imports) fuel s,
      loads lookup.1 lookup.2 event) (parseFunction (E.parser load tokens imports) fuel) := by
  intro s r t hrun
  have hstart : Noted loads s.world s.world (s.world, []) := by
    refine ⟨rfl, (refl (r := Silent) s.world).congr fun event => ?_⟩
    simp
  obtain ⟨u, hnoting, -, -, hrecorded⟩ := ((noting_follows hload tokens s.world
    imports).parseFunction fuel).run s ⟨s.pos, s.world, []⟩ ⟨rfl, hstart⟩ r t hrun trivial
  beta_reduce
  unfold lookups
  rw [hnoting]
  exact hrecorded

theorem parseMethod_records (imports : Imports) (name : String) :
    Records (fun s event => ∃ method t, Ok (nextToken (E.parser load tokens imports)) s method t ∧
        ∃ lookup ∈ lookups (E.parser load tokens imports) fuel t, loads lookup.1 lookup.2 event)
      (parseMethod (E.parser load tokens imports) fuel name) := by
  refine .behind _ nextToken_changes fun method => ?_
  refine (Records.behind _ .read fun resolvable => (parseFunction_records hload imports).before
    fun function => .bind (.modify fun s => ?_) fun _ => .pure _).congr fun s event => ?_
  · exact quiet_update rfl (fun _ => rfl) fun _ => rfl
  · constructor
    · rintro ⟨_, t, hread, hevent⟩
      obtain ⟨-, rfl⟩ := read_ok.mp hread
      exact hevent
    · exact fun hevent => ⟨_, s, rfl, hevent⟩

omit hload in
theorem parseField_quiet (P : ParserEnv ClassTable) (name : String) :
    Changes (OnWorld Silent) (E.parseField P name) := by
  refine .bind nextToken_changes fun field => .bind nextToken_changes fun token => ?_
  refine .bind (.ite ?_ (.pure _)) fun (isStatic, value, token) => ?_
  · refine .bind nextToken_changes fun token => .ite ?_ (.pure _)
    refine .bind nextToken_changes fun token => .bind ?_ fun value => ?_
    · unfold staticValue
      split
      · exact .pure _
      · exact .pure _
      · exact .pure _
      · exact .fail
    · exact .bind nextToken_changes fun token => .pure _
  · refine .bind (.modify fun s => ?_) fun _ => .ite (.pure _) .fail
    exact quiet_update rfl (fun _ => by cases isStatic <;> rfl) fun _ => rfl

omit hload in
/-- The first member of a class is the method, or something in front of it. -/
theorem method_iff {P : ParserEnv ClassTable} {name : String} {s v : ParserState ClassTable} :
    E.Method fuel P name s v ↔ ∃ token t, Ok (nextToken P) s token t ∧
      (token.type = .tokVar ∧ (∃ u, Ok (E.parseField P name) t () u ∧ E.Method fuel P name u v) ∨
        token.type = .tokFunction ∧ ((∃ method, Ok (nextToken P) t method v) ∨
          ∃ resolvable u, Ok (parseMethod P fuel name) t resolvable u ∧ E.Method fuel P name u v)) := by
  constructor
  · intro h
    cases h with
    | here hfunction hname =>
      obtain ⟨hnext, htype⟩ := expect_ok.mp hfunction
      exact ⟨_, _, hnext, .inr ⟨htype, .inl ⟨_, hname⟩⟩⟩
    | behindField hvar hfield h =>
      obtain ⟨hnext, htype⟩ := expect_ok.mp hvar
      exact ⟨_, _, hnext, .inl ⟨htype, _, hfield, h⟩⟩
    | behindMethod hfunction hmethod h =>
      obtain ⟨hnext, htype⟩ := expect_ok.mp hfunction
      exact ⟨_, _, hnext, .inr ⟨htype, .inr ⟨_, _, hmethod, h⟩⟩⟩
  · rintro ⟨token, t, hnext, ⟨htype, u, hfield, h⟩ | ⟨htype, ⟨method, hname⟩ | ⟨r, u, hmethod, h⟩⟩⟩
    · exact .behindField (expect_ok.mpr ⟨hnext, htype⟩) hfield h
    · exact .here (expect_ok.mpr ⟨hnext, htype⟩) hname
    · exact .behindMethod (expect_ok.mpr ⟨hnext, htype⟩) hmethod h

/-- What happens to the classes that the methods look for. -/
def InMethods (E : ClassPath) (fuel : ℕ) (loads : String → ClassTable → ClassEvent → Prop)
    (P : ParserEnv ClassTable) (name : String) (s : ParserState ClassTable) (event : ClassEvent) :
    Prop :=
  ∃ v, E.Method fuel P name s v ∧ ∃ lookup ∈ lookups P fuel v, loads lookup.1 lookup.2 event

/-- What happens to those that the member behind this token looks for, and the members behind it. -/
def InMembers (E : ClassPath) (fuel : ℕ) (loads : String → ClassTable → ClassEvent → Prop)
    (P : ParserEnv ClassTable) (name : String) (token : Token) (t : ParserState ClassTable)
    (event : ClassEvent) : Prop :=
  token.type = .tokVar ∧
      (∃ u, Ok (E.parseField P name) t () u ∧ E.InMethods fuel loads P name u event) ∨
    token.type = .tokFunction ∧
      ((∃ method u, Ok (nextToken P) t method u ∧
          ∃ lookup ∈ lookups P fuel u, loads lookup.1 lookup.2 event) ∨
        ∃ resolvable u, Ok (parseMethod P fuel name) t resolvable u ∧
          E.InMethods fuel loads P name u event)

omit hload in
theorem inMethods_iff {P : ParserEnv ClassTable} {name : String} {s : ParserState ClassTable}
    {event : ClassEvent} : E.InMethods fuel loads P name s event ↔
      ∃ token t, Ok (nextToken P) s token t ∧ E.InMembers fuel loads P name token t event := by
  unfold InMembers InMethods
  constructor
  · rintro ⟨v, hmethod, hlookup⟩
    obtain ⟨token, t, hnext, ⟨htype, u, hfield, h⟩ | ⟨htype, ⟨method, hname⟩ | ⟨r, u, hmethod, h⟩⟩⟩ :=
      method_iff.mp hmethod
    · exact ⟨token, t, hnext, .inl ⟨htype, u, hfield, v, h, hlookup⟩⟩
    · exact ⟨token, t, hnext, .inr ⟨htype, .inl ⟨method, v, hname, hlookup⟩⟩⟩
    · exact ⟨token, t, hnext, .inr ⟨htype, .inr ⟨r, u, hmethod, v, h, hlookup⟩⟩⟩
  · rintro ⟨token, t, hnext, ⟨htype, u, hfield, v, h, hlookup⟩ |
      ⟨htype, ⟨method, v, hname, hlookup⟩ | ⟨r, u, hmethod, v, h, hlookup⟩⟩⟩
    · exact ⟨v, method_iff.mpr ⟨token, t, hnext, .inl ⟨htype, u, hfield, h⟩⟩, hlookup⟩
    · exact ⟨v, method_iff.mpr ⟨token, t, hnext, .inr ⟨htype, .inl ⟨method, hname⟩⟩⟩, hlookup⟩
    · exact ⟨v, method_iff.mpr ⟨token, t, hnext, .inr ⟨htype, .inr ⟨r, u, hmethod, h⟩⟩⟩, hlookup⟩

omit hload in
/-- A token that begins neither a field nor a method. -/
theorem not_inMembers {P : ParserEnv ClassTable} {name : String} {token : Token}
    {t : ParserState ClassTable} {event : ClassEvent} (hvar : token.type ≠ .tokVar)
    (hfunction : token.type ≠ .tokFunction) : ¬E.InMembers fuel loads P name token t event := by
  rintro (⟨htype, -⟩ | ⟨htype, -⟩)
  · exact hvar htype
  · exact hfunction htype

theorem parseMembers_records (imports : Imports) (name : String) (n : ℕ) :
    Records (E.InMethods fuel loads (E.parser load tokens imports) name)
      (E.parseMembers (E.parser load tokens imports) fuel name n) := by
  induction n with
  | zero => exact fun s r t hrun => nomatch hrun
  | succ n ih =>
    unfold parseMembers
    refine (Records.behind (fun more s event => more = true ∧ ∃ token t,
      Ok (nextToken (E.parser load tokens imports)) s token t ∧
        E.InMembers fuel loads (E.parser load tokens imports) name token t event)
      moreTokens_changes fun more => ?_).congr fun s event => ?_
    · cases more with
      | false => exact (Records.quiet (.pure _)).congr fun s event => by simp
      | true =>
        refine (Records.behind (E.InMembers fuel loads (E.parser load tokens imports) name)
          nextToken_changes fun token => ?_).congr fun s event => (and_iff_right rfl).symm
        split
        · next htype =>
          refine (Records.quiet (.pure _)).congr fun s event => (iff_false_intro ?_).symm
          exact not_inMembers (by simp [htype]) (by simp [htype])
        · next htype =>
          refine (Records.behind _ (parseField_quiet _ name) fun _ => ih).congr fun s event => ?_
          simp [InMembers, htype, Unique.exists_iff]
        · next htype =>
          refine ((parseMethod_records hload imports name).bind fun method => ih.before fun _ =>
            .pure _).congr fun s event => ?_
          simp [InMembers, htype]
        · next hvar hfunction =>
          refine (Records.quiet .fail).congr fun s event => (iff_false_intro ?_).symm
          exact not_inMembers hvar hfunction
    · rw [inMethods_iff]
      constructor
      · rintro ⟨more, t, hmore, -, h⟩
        obtain ⟨-, rfl⟩ := read_ok.mp hmore
        exact h
      · rintro ⟨token, t, hnext, h⟩
        have hlt : s.pos < tokens.length :=
          (List.getElem?_eq_some_iff.mp (nextToken_world hnext).1).1
        exact ⟨true, s, read_ok.mpr ⟨decide_eq_true hlt, rfl⟩, rfl, token, t, hnext, h⟩

/-! ## Classes -/

theorem parseSuperClass_records (imports : Imports) :
    Records (fun s event => ∃ id t, Ok (parseIdentifier (E.parser load tokens imports) fuel) s id t ∧
        loads (identifierToString (importedIdentifier (E.parser load tokens imports) id)) t.world event)
      (E.parseSuperClass load tokens fuel imports) := by
  refine .behind _ (parseIdentifier_changes fuel) fun id => ?_
  have hfind (name : String) : Records (fun s event => loads name s.world event)
      (B0rk.findClass (E.parser load tokens imports) name) := by
    intro s r t hrun
    obtain ⟨-, rfl⟩ := Prod.mk.inj (Option.some.inj hrun)
    exact hload name s.world
  exact (hfind _).before fun clazz => .ite .fail (.pure _)

theorem parseHead_records (imports : Imports) :
    Records (fun s event => ∃ token t,
        Ok (expect (E.parser load tokens imports) .tokExtends) s token t ∧
          ∃ id u, Ok (parseIdentifier (E.parser load tokens imports) fuel) t id u ∧
            loads (identifierToString (importedIdentifier (E.parser load tokens imports) id)) u.world
              event)
      (E.parseHead load tokens fuel imports) := by
  unfold parseHead
  refine (Records.behind (fun token t event => token.type = .tokExtends ∧
    ∃ id u, Ok (parseIdentifier (E.parser load tokens imports) fuel) t id u ∧
      loads (identifierToString (importedIdentifier (E.parser load tokens imports) id)) u.world event)
    nextToken_changes fun token => .before ?_ fun (s, token) => .ite (.pure _) .fail).congr
      fun s event => ?_
  · by_cases htype : token.type = .tokExtends
    · rw [if_pos htype]
      refine ((parseSuperClass_records hload imports).before fun superClass => ?_).congr
        fun s event => (and_iff_right htype).symm
      exact .bind nextToken_changes fun token => .pure _
    · rw [if_neg htype]
      exact (Records.quiet (.pure _)).congr fun s event => by simp [htype]
  · simp only [expect_ok, and_assoc]

/-- What happens in the body of a class. -/
def InBody (E : ClassPath) (load : LoadClass) (tokens : List Token) (fuel : ℕ) (addToExisting : Bool)
    (loads : String → ClassTable → ClassEvent → Prop) (imports : Imports) (name : String)
    (s : ParserState ClassTable) (event : ClassEvent) : Prop :=
  E.InMethods fuel loads (E.parser load tokens imports) name s event ∨
    event = .rejected name ∧ (parseFamily E load tokens fuel addToExisting).Malformed
      (.members fuel imports name, s) ∨
    event = .completed name ∧ ∃ resolvable t,
      Ok (E.parseMembers (E.parser load tokens imports) fuel name fuel) s resolvable t

omit hload in
theorem inClass_iff {imports : Imports} {name : String} {s : ParserState ClassTable}
    {event : ClassEvent} : E.InClass load tokens fuel addToExisting loads imports name s event ↔
      (∃ token t, Ok (expect (E.parser load tokens imports) .tokExtends) s token t ∧
        ∃ id u, Ok (parseIdentifier (E.parser load tokens imports) fuel) t id u ∧
          loads (identifierToString (importedIdentifier (E.parser load tokens imports) id)) u.world
            event) ∨
      ∃ superClass t, Ok (E.parseHead load tokens fuel imports) s superClass t ∧
        ∃ u, Ok (openClass addToExisting superClass name) t true u ∧
          E.InBody load tokens fuel addToExisting loads imports name u event := by
  constructor
  · intro h
    cases h with
    | superClass hextends hid h => exact .inl ⟨_, _, hextends, _, _, hid, h⟩
    | method hhead hopen hmethod hlookup h =>
      exact .inr ⟨_, _, hhead, _, hopen, .inl ⟨_, hmethod, _, hlookup, h⟩⟩
    | rejected hhead hopen hbody => exact .inr ⟨_, _, hhead, _, hopen, .inr (.inl ⟨rfl, hbody⟩)⟩
    | completed hhead hopen hbody =>
      exact .inr ⟨_, _, hhead, _, hopen, .inr (.inr ⟨rfl, _, _, hbody⟩)⟩
  · rintro (⟨token, t, hextends, id, u, hid, h⟩ | ⟨superClass, t, hhead, u, hopen,
      ⟨v, hmethod, lookup, hlookup, h⟩ | ⟨rfl, hbody⟩ | ⟨rfl, resolvable, v, hbody⟩⟩)
    · exact .superClass hextends hid h
    · exact .method hhead hopen hmethod hlookup h
    · exact .rejected hhead hopen hbody
    · exact .completed hhead hopen hbody

/-- The body of a class ends with one of the two events. -/
theorem parseBody_recorded {imports : Imports} {name : String} {s t : ParserState ClassTable}
    {r : Option Bool} (hknown : s.world.Known name)
    (hrun : E.parseBody (E.parser load tokens imports) fuel name s = some (r, t)) :
    Recorded (E.InBody load tokens fuel addToExisting loads imports name s) s.world t.world ∧
      (E.InBody load tokens fuel addToExisting loads imports name s (.rejected name) ∨
        E.InBody load tokens fuel addToExisting loads imports name s (.completed name)) := by
  have hmalformed : Fails (E.parseMembers (E.parser load tokens imports) fuel name fuel) s ↔
      (parseFamily E load tokens fuel addToExisting).Malformed (.members fuel imports name, s) :=
    Routine.Family.fails_iff_malformed (checks_wf E load tokens fuel addToExisting)
      (a := (.members fuel imports name, s))
  have hrecords : Records (E.InMethods fuel loads (E.parser load tokens imports) name)
      (E.parseMembers (E.parser load tokens imports) fuel name fuel) :=
    parseMembers_records hload imports name fuel
  unfold parseBody at hrun
  rw [bind_run] at hrun
  unfold Attempt.orNull at hrun
  rcases hmembers : E.parseMembers (E.parser load tokens imports) fuel name fuel s with
    _ | ⟨_ | resolvable, u⟩ <;> rw [hmembers] at hrun
  · cases hrun
  · obtain ⟨-, rfl⟩ := Prod.mk.inj (Option.some.inj hrun)
    have hbody := hmalformed.mp ⟨u, hmembers⟩
    have hok : ¬∃ resolvable t,
        Ok (E.parseMembers (E.parser load tokens imports) fuel name fuel) s resolvable t := by
      rintro ⟨resolvable, t, hok⟩
      cases hmembers.symm.trans hok
    have hevents := hrecords s none u hmembers
    have hknown' := (hevents.known name).mpr (.inl hknown)
    refine ⟨(hevents.trans (rejectClass_recorded hknown')).congr fun event => ?_,
      .inl (.inr (.inl ⟨rfl, hbody⟩))⟩
    simp [InBody, hbody, hok]
  · obtain ⟨-, rfl⟩ := Prod.mk.inj (Option.some.inj hrun)
    have hbody : ¬(parseFamily E load tokens fuel addToExisting).Malformed
        (.members fuel imports name, s) := by
      rw [← hmalformed]
      rintro ⟨t, hfails⟩
      cases hmembers.symm.trans hfails
    have hok : ∃ resolvable t,
        Ok (E.parseMembers (E.parser load tokens imports) fuel name fuel) s resolvable t :=
      ⟨resolvable, u, hmembers⟩
    have hevents := hrecords s _ u hmembers
    have hknown' := (hevents.known name).mpr (.inl hknown)
    refine ⟨(hevents.trans (completeClass_recorded hknown')).congr fun event => ?_,
      .inr (.inr (.inr ⟨rfl, hok⟩))⟩
    simp [InBody, hbody, hok]

omit hload in
/-- Either nothing is done for a class, or it is in the table then. -/
theorem openClass_cases {superClass name : String} {s t : ParserState ClassTable} {r : Option Bool}
    (hrun : openClass addToExisting superClass name s = some (r, t)) :
    r ≠ some true ∧ t = s ∨ r = some true ∧ Opened name s.world t.world := by
  unfold openClass at hrun
  cases hfind : s.world.classes.find name with
  | some e =>
    have hknown : s.world.Known name := Option.isSome_iff_exists.mpr ⟨e, hfind⟩
    simp only [hfind] at hrun
    split at hrun
    · cases hrun
    · split at hrun
      · obtain ⟨rfl, rfl⟩ := Prod.mk.inj (Option.some.inj hrun)
        exact .inl ⟨by simp, rfl⟩
      · split at hrun
        · obtain ⟨rfl, rfl⟩ := Prod.mk.inj (Option.some.inj hrun)
          refine .inr ⟨rfl, startClass_opened (fun _ => .rfl) fun s' => (or_iff_left_of_imp ?_).symm⟩
          rintro rfl
          exact hknown
        · obtain ⟨rfl, rfl⟩ := Prod.mk.inj (Option.some.inj hrun)
          exact .inl ⟨by simp, rfl⟩
  | none =>
    simp only [hfind] at hrun
    split at hrun
    · cases hrun
    · next classes hadd =>
      obtain ⟨rfl, rfl⟩ := Prod.mk.inj (Option.some.inj hrun)
      have hopened := addClass_opened hfind hadd
      exact .inr ⟨rfl, startClass_opened hopened.deleted hopened.known⟩

theorem parseOpened_records (imports : Imports) (superClass name : String) :
    Records (fun s event => ∃ t, Ok (openClass addToExisting superClass name) s true t ∧
        E.InBody load tokens fuel addToExisting loads imports name t event)
      (E.parseOpened (E.parser load tokens imports) fuel addToExisting superClass name) := by
  intro s r t hrun
  unfold parseOpened at hrun
  rw [bind_run] at hrun
  obtain ⟨⟨parseOn, u⟩, hopen, hrun⟩ := Option.bind_eq_some_iff.mp hrun
  rcases openClass_cases hopen with ⟨hne, rfl⟩ | ⟨rfl, hopened⟩
  · have hworld : t.world = u.world := by
      rcases parseOn with _ | _ | _
      · obtain ⟨-, rfl⟩ := Prod.mk.inj (Option.some.inj hrun)
        rfl
      · obtain ⟨-, rfl⟩ := Prod.mk.inj (Option.some.inj hrun)
        rfl
      · exact absurd rfl hne
    rw [hworld]
    refine (refl (r := Silent) u.world).congr fun event => (iff_false_intro ?_).symm
    rintro ⟨v, hok, -⟩
    obtain ⟨rfl, -⟩ := Prod.mk.inj (Option.some.inj (hopen.symm.trans hok))
    exact hne rfl
  · have hknown := (hopened.known name).mpr (.inr rfl)
    obtain ⟨hbody, hend⟩ := @parseBody_recorded _ _ _ _ addToExisting _ hload _ _ _ _ _ hknown hrun
    refine (hopened.recorded hbody hend).congr fun event => ?_
    constructor
    · exact fun h => ⟨u, hopen, h⟩
    · rintro ⟨v, hok, h⟩
      obtain ⟨-, rfl⟩ := hok.unique hopen
      exact h

theorem parseClassNamed_records (imports : Imports) (name : String) :
    Records (E.InClass load tokens fuel addToExisting loads imports name)
      (E.parseClassNamed load tokens fuel addToExisting imports name) :=
  ((parseHead_records hload imports).bind fun superClass =>
    parseOpened_records hload imports superClass name).congr fun _ _ => inClass_iff.symm

theorem parseClass_records (imports : Imports) :
    Records (fun s event => ∃ id t, Ok (parseIdentifier (E.parser load tokens imports) fuel) s id t ∧
        E.InClass load tokens fuel addToExisting loads (addImport imports id) (identifierToString id) t
          event)
      (E.parseClass load tokens fuel addToExisting imports) :=
  .behind _ (parseIdentifier_changes fuel) fun id =>
    (parseClassNamed_records hload (addImport imports id) (identifierToString id)).before fun _ =>
      .pure _

/-! ## Files -/

omit hload in
theorem inClasses_iff {imports : Imports} {s : ParserState ClassTable} {event : ClassEvent} :
    E.InClasses load tokens fuel addToExisting loads imports s event ↔
      ∃ token t, Ok (expect (E.parser load tokens imports) .tokClass) s token t ∧
        ((∃ id u, Ok (parseIdentifier (E.parser load tokens imports) fuel) t id u ∧
            E.InClass load tokens fuel addToExisting loads (addImport imports id)
              (identifierToString id) u event) ∨
          ∃ clazz u, Ok (E.parseClass load tokens fuel addToExisting imports) t clazz u ∧
            E.InClasses load tokens fuel addToExisting loads clazz.1 u event) := by
  constructor
  · intro h
    cases h with
    | here hclass hid h => exact ⟨_, _, hclass, .inl ⟨_, _, hid, h⟩⟩
    | later hclass hparse h => exact ⟨_, _, hclass, .inr ⟨_, _, hparse, h⟩⟩
  · rintro ⟨token, t, hclass, ⟨id, u, hid, h⟩ | ⟨⟨imports', resolvable⟩, u, hparse, h⟩⟩
    · exact .here hclass hid h
    · exact .later hclass hparse h

theorem parseClasses_records (n : ℕ) (imports : Imports) :
    Records (E.InClasses load tokens fuel addToExisting loads imports)
      (E.parseClasses load tokens fuel addToExisting n imports) := by
  induction n generalizing imports with
  | zero => exact fun s r t hrun => nomatch hrun
  | succ n ih =>
    unfold parseClasses
    refine (Records.behind (fun more s event => more = true ∧
      E.InClasses load tokens fuel addToExisting loads imports s event) moreTokens_changes
        fun more => ?_).congr fun s event => ?_
    · cases more with
      | false => exact (Records.quiet (.pure _)).congr fun s event => by simp
      | true =>
        refine (Records.behind _ (expect_changes _) fun _ => (parseClass_records hload imports).bind
          fun clazz => (ih clazz.1).before fun _ => .pure _).congr fun s event => ?_
        rw [inClasses_iff]
        exact (and_iff_right rfl).symm
    · constructor
      · rintro ⟨more, t, hmore, -, h⟩
        obtain ⟨-, rfl⟩ := read_ok.mp hmore
        exact h
      · intro h
        obtain ⟨token, t, hclass, -⟩ := inClasses_iff.mp h
        have hlt : s.pos < tokens.length :=
          (List.getElem?_eq_some_iff.mp (expect_world hclass).1.1).1
        exact ⟨true, s, read_ok.mpr ⟨decide_eq_true hlt, rfl⟩, rfl, h⟩

/-- What a parse does to the table is told by what happens to the classes that it comes to. -/
theorem parse_recorded {table : ClassTable} {s : ParserState ClassTable} {r : Option Unit}
    (hrun : E.parse load tokens fuel addToExisting ⟨0, table⟩ = some (r, s)) :
    Recorded (E.InParse load tokens fuel addToExisting loads table) table s.world :=
  (Records.behind _ (parseImports_changes fuel fuel runtimeImport) fun imports =>
    (parseClasses_records hload fuel imports).before fun _ => .ite (.pure _) .undefined) _ r s hrun

end

theorem halt_quiet (table : ClassTable) : Silent table table.halt := quiet_of_classes rfl

/-- What looking for a class does to the table. -/
theorem findClass_recorded (fuel depth : ℕ) (name : String) (table : ClassTable) :
    Recorded (E.InLoad fuel depth name table) table
      (E.findClass (E.loadClass fuel halting depth false) name table).2 := by
  induction depth generalizing name table with
  | zero =>
    have hquiet : Silent table (E.findClass (E.loadClass fuel halting 0 false) name table).2 := by
      unfold findClass
      split
      · exact refl table
      · split
        · exact refl table
        · exact halt_quiet table
    exact hquiet.congr fun event => .rfl
  | succ depth ih =>
    have hnothing {table' : ClassTable} (hquiet : Silent table table')
        (h : ∀ event, ¬E.InLoad fuel (depth + 1) name table event) :
        Recorded (E.InLoad fuel (depth + 1) name table) table table' :=
      hquiet.congr fun event => (iff_false_intro (h event)).symm
    unfold findClass
    split
    · next hhalted => exact hnothing (refl table) fun event h => by simp [h.1] at hhalted
    · next hhalted =>
      have hhalted : table.halted = false := Bool.eq_false_of_not_eq_true hhalted
      split
      · next e he =>
        exact hnothing (refl table) fun event h => h.2.1 (Option.isSome_iff_exists.mpr ⟨e, he⟩)
      · next hnew =>
        have hnew : ¬table.Known name := by simp [ClassTable.Known, hnew]
        unfold loadClass
        split
        · next hfile =>
          refine hnothing (refl table) fun event h => ?_
          obtain ⟨-, -, tokens, hfile', -⟩ := h
          cases hfile.symm.trans hfile'
        · next tokens hfile =>
          have hfile' (tokens' : List Token) (h : E.files.lookup name = some tokens') :
              tokens' = tokens := Option.some.inj (h.symm.trans hfile)
          have hin {r : Option Unit} {s : ParserState ClassTable}
              (hparse : E.parse (E.loadClass fuel halting depth false) tokens fuel false ⟨0, table⟩ =
                some (r, s)) : Recorded (E.InLoad fuel (depth + 1) name table) table s.world := by
            refine (parse_recorded ih hparse).congr fun event => ⟨fun h => ?_, fun h => ?_⟩
            · exact ⟨hhalted, hnew, tokens, hfile, by simp [hparse], h⟩
            · obtain ⟨-, -, tokens', htokens, -, h⟩ := h
              rwa [hfile' tokens' htokens] at h
          split
          · next hparse =>
            refine hnothing (halt_quiet table) fun event h => ?_
            obtain ⟨-, -, tokens', htokens, hsome, -⟩ := h
            rw [hfile' tokens' htokens, hparse] at hsome
            cases hsome
          · next s hparse => exact hin hparse
          · next s hparse =>
            split
            · exact hin hparse
            · split <;> exact hin hparse

theorem objectTable_sound : objectTable.Sound := by
  rintro name ⟨e, hfind, hdeleted⟩
  obtain rfl : e = Loader.objectEntry := List.mem_singleton.mp (Loader.Registry.find_mem hfind)
  cases hdeleted

/-- `class A { } class B extends C { }`, where there is no `C`. -/
def orphanClass : List Token :=
  [⟨.tokClass, 1, "class", 0, 0⟩, ⟨.tokIdentifier, 1, "A", 0, 0⟩, ⟨.tokBraceLeft, 1, "\x7b", 0, 0⟩,
    ⟨.tokBraceRight, 1, "\x7d", 0, 0⟩, ⟨.tokClass, 1, "class", 0, 0⟩,
    ⟨.tokIdentifier, 1, "B", 0, 0⟩, ⟨.tokExtends, 1, "extends", 0, 0⟩,
    ⟨.tokIdentifier, 1, "C", 0, 0⟩, ⟨.tokBraceLeft, 1, "\x7b", 0, 0⟩,
    ⟨.tokBraceRight, 1, "\x7d", 0, 0⟩]

/-- `A` has been parsed. -/
def oneClassTable : ClassTable :=
  ⟨[⟨Class.create (some Loader.objectEntry.clazz) "A", some Loader.objectClass, .complete, false,
    false⟩, Loader.objectEntry], 0, false⟩

/-- The parse stops at `B`. -/
theorem orphanClass_stopsAt {name : String}
    (h : noFiles.StopsAt (noFiles.loadClass 9 halting 1 false) orphanClass 9 false objectTable name) :
    name = "B" := by
  have himports : Ok (noFiles.parseImports (noFiles.loadClass 9 halting 1 false) orphanClass 9 9
      runtimeImport) ⟨0, objectTable⟩ runtimeImport ⟨0, objectTable⟩ := rfl
  have hclass : Ok (expect (noFiles.parser (noFiles.loadClass 9 halting 1 false) orphanClass
      runtimeImport) .tokClass) ⟨0, objectTable⟩ ⟨.tokClass, 1, "class", 0, 0⟩ ⟨1, objectTable⟩ := rfl
  have hparse : Ok (noFiles.parseClass (noFiles.loadClass 9 halting 1 false) orphanClass 9 false
      runtimeImport) ⟨1, objectTable⟩ (addImport runtimeImport ["A"], true) ⟨4, oneClassTable⟩ := rfl
  have hclass' : Ok (expect (noFiles.parser (noFiles.loadClass 9 halting 1 false) orphanClass
      (addImport runtimeImport ["A"])) .tokClass) ⟨4, oneClassTable⟩ ⟨.tokClass, 1, "class", 0, 0⟩
        ⟨5, oneClassTable⟩ := rfl
  have hid : Ok (parseIdentifier (noFiles.parser (noFiles.loadClass 9 halting 1 false) orphanClass
      (addImport runtimeImport ["A"])) 9) ⟨5, oneClassTable⟩ ["B"] ⟨6, oneClassTable⟩ := rfl
  have hfails : noFiles.parseClass (noFiles.loadClass 9 halting 1 false) orphanClass 9 false
      (addImport runtimeImport ["A"]) ⟨5, oneClassTable⟩ = some (none, ⟨8, oneClassTable⟩) := rfl
  obtain ⟨imports, s, hstart, h⟩ := h
  obtain ⟨rfl, rfl⟩ := hstart.unique himports
  cases h with
  | here hclass₁ _ hfail =>
    obtain ⟨-, rfl⟩ := hclass₁.unique hclass
    obtain ⟨t, ht⟩ := hfail
    cases hparse.symm.trans ht
  | later hclass₁ hparse₁ h =>
    obtain ⟨-, rfl⟩ := hclass₁.unique hclass
    obtain ⟨heq, rfl⟩ := hparse₁.unique hparse
    obtain ⟨rfl, -⟩ := Prod.mk.inj heq
    cases h with
    | here hclass₂ hid₂ _ =>
      obtain ⟨-, rfl⟩ := hclass₂.unique hclass'
      obtain ⟨rfl, -⟩ := hid₂.unique hid
      rfl
    | later hclass₂ hparse₂ _ =>
      obtain ⟨-, rfl⟩ := hclass₂.unique hclass'
      cases hfails.symm.trans hparse₂

/-- `class A { x`. -/
def brokenClass : List Token :=
  [⟨.tokClass, 1, "class", 0, 0⟩, ⟨.tokIdentifier, 1, "A", 0, 0⟩, ⟨.tokBraceLeft, 1, "\x7b", 0, 0⟩,
    ⟨.tokIdentifier, 1, "x", 0, 0⟩]

end ClassPath

end B0rk
