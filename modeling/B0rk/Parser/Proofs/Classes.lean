import B0rk.Parser.Events
import B0rk.Parser.Proofs.Imports

set_option autoImplicit false

/-! # What parsing does to the table of classes

A class is put into the table before its body is parsed, and stays there when the body is rejected and
the class deleted. -/

namespace B0rk

open Attempt

namespace ClassPath

/-! ## The functions of the parser one by one -/

section

variable {H : Bool → Prop} {G : ClassTable → Prop}

/-- Two computations that keep in step where `G` holds of the table, as far as the loads that do not come
    to an end are such as `H` tells. -/
abbrev Follows {α : Type} (H : Bool → Prop) (G : ClassTable → Prop) (x y : Parse ClassTable α) : Prop :=
  Parse.Follows (fun table : ClassTable => H table.halted) (Kept G) x y

/-- What holds of the table still does behind all that the parser does to it within a class. -/
structure Allows (G : ClassTable → Prop) : Prop where
  function : ∀ {table}, G table → G { table with functions := table.functions + 1 }
  addField : ∀ {table} name field, G table → G (table.updateClass name (·.addField field))
  addStaticField : ∀ {table} name field value, G table →
    G (table.updateClass name (·.addStaticField field value))
  addMethod : ∀ {table} name method function, G table →
    G (table.updateClass name (·.addMethod method function))

variable {E : ClassPath} {load load' : LoadClass} {tokens : List Token}

theorem onTable_follows {f : ClassTable → ClassTable}
    (hback : ∀ s : ParserState ClassTable, H (f s.world).halted → H s.world.halted)
    (h : ∀ {table}, G table → G (f table)) :
    Follows H G (onTable f) (onTable f) :=
  .modify hback fun _ _ hst => ⟨hst.1, congrArg f hst.2.1, h hst.2.2⟩

/-- What the second load does where the first one comes to an end. -/
def Loads (H : Bool → Prop) (G : ClassTable → Prop) (load load' : LoadClass) : Prop :=
  ∀ name table, G table → H (load name table).2.halted →
    load' name table = load name table ∧ G (load name table).2

variable (hG : Allows G) (hH : H false) (hload : Loads H G load load')

include hG hH hload

theorem parser_follows (E : ClassPath) (tokens : List Token) (imports : Imports) :
    (E.parser load tokens imports).Follows (fun table => H table.halted) (Kept G)
      (E.parser load' tokens imports) where
  tokens := rfl
  imports := rfl
  addDouble := rfl
  mulDouble := rfl
  backNew _ h := h
  backFind table name h := by
    by_cases hhalted : table.halted = true
    · have hfind : (E.findClass load name table).2 = table := by
        unfold findClass
        rw [if_pos hhalted]
      rwa [show ((E.parser load tokens imports).findClass table name).2 = table from hfind] at h
    · rwa [Bool.eq_false_of_not_eq_true hhalted]
  newFunction := by
    rintro table _ ⟨rfl, h⟩ -
    exact ⟨rfl, rfl, hG.function h⟩
  findClass := by
    rintro table _ name ⟨rfl, h⟩ hend
    have hfind : E.findClass load' name table = E.findClass load name table ∧
        G (E.findClass load name table).2 := by
      change H (E.findClass load name table).2.halted at hend
      unfold findClass at hend ⊢
      split at hend
      · next hhalted => exact ⟨by rw [if_pos hhalted, if_pos hhalted], by rwa [if_pos hhalted]⟩
      · next hhalted =>
        rw [if_neg hhalted, if_neg hhalted]
        split at hend
        · exact ⟨rfl, h⟩
        · exact hload name table h hend
    exact ⟨congrArg Prod.fst hfind.1.symm, congrArg Prod.snd hfind.1.symm, hfind.2⟩

theorem parseSuperClass_follows (fuel : ℕ) (imports : Imports) :
    Follows H G (E.parseSuperClass load tokens fuel imports)
      (E.parseSuperClass load' tokens fuel imports) := by
  have hP := parser_follows hG hH hload E tokens imports
  refine .bind (hP.parseIdentifier fuel) fun id => ?_
  exact .bind (hP.findClass' _) fun clazz => .ite .fail (.pure _)

theorem parseHead_follows (fuel : ℕ) (imports : Imports) :
    Follows H G (E.parseHead load tokens fuel imports)
      (E.parseHead load' tokens fuel imports) := by
  have hP := parser_follows hG hH hload E tokens imports
  refine .bind hP.nextToken fun token => .bind (.ite ?_ (.pure _)) fun (s, token) => ?_
  · refine .bind (parseSuperClass_follows hG hH hload fuel imports) fun superClass => ?_
    exact .bind hP.nextToken fun token => .pure _
  · exact .ite (.pure _) .fail

theorem parseField_follows (imports : Imports) (name : String) :
    Follows H G (E.parseField (E.parser load tokens imports) name)
      (E.parseField (E.parser load' tokens imports) name) := by
  have hP := parser_follows hG hH hload E tokens imports
  refine .bind hP.nextToken fun field => .bind hP.nextToken fun token => ?_
  refine .bind (.ite ?_ (.pure _)) fun (isStatic, value, token) => ?_
  · refine .bind hP.nextToken fun token => .ite ?_ (.pure _)
    refine .bind hP.nextToken fun token => .bind ?_ fun value => ?_
    · unfold staticValue
      split
      · exact .pure _
      · exact .pure _
      · exact .pure _
      · exact .fail
    · exact .bind hP.nextToken fun token => .pure _
  · refine .bind (onTable_follows (fun _ h => h) fun h => ?_) fun _ => .ite (.pure _) .fail
    cases isStatic with
    | true => exact hG.addStaticField name field.string value h
    | false => exact hG.addField name field.string h

theorem parseMethod_follows (fuel : ℕ) (imports : Imports) (name : String) :
    Follows H G (parseMethod (E.parser load tokens imports) fuel name)
      (parseMethod (E.parser load' tokens imports) fuel name) := by
  have hP := parser_follows hG hH hload E tokens imports
  refine .bind hP.nextToken fun method => hP.bindResolvable _ fun resolvable function => ?_
  refine .bind ?_ fun _ => .pure _
  exact onTable_follows (fun _ h => h) fun h => hG.addMethod name method.string function.address h

theorem parseMembers_follows (fuel : ℕ) (imports : Imports) (name : String) (n : ℕ) :
    Follows H G (E.parseMembers (E.parser load tokens imports) fuel name n)
      (E.parseMembers (E.parser load' tokens imports) fuel name n) := by
  have hP := parser_follows hG hH hload E tokens imports
  induction n with
  | zero => exact .undefined
  | succ n ih =>
    refine .bind hP.moreTokens fun more => .ite (.pure _) (.bind hP.nextToken fun token => ?_)
    split
    · exact .pure _
    · exact .bind (parseField_follows hG hH hload imports name) fun _ => ih
    · exact .bind (parseMethod_follows hG hH hload fuel imports name) fun _ => .bind ih fun _ => .pure _
    · exact .fail

theorem parseImports_follows (fuel n : ℕ) (imports : Imports) :
    Follows H G (E.parseImports load tokens fuel n imports)
      (E.parseImports load' tokens fuel n imports) := by
  induction n generalizing imports with
  | zero => exact .undefined
  | succ n ih =>
    have hP := parser_follows hG hH hload E tokens imports
    refine .bind hP.moreTokens fun more => .ite (.pure _) (.bind hP.nextToken fun token => ?_)
    refine .ite ?_ (.bind (ParserEnv.Follows.rewind 1) fun _ => .pure _)
    exact .bind (hP.parseIdentifier fuel) fun id => .bind (hP.expect _) fun _ => ih _

/-- The rest is up to what happens to a class whose name has been read. -/
theorem parseClasses_follows {fuel : ℕ} {addToExisting : Bool}
    (hnamed : ∀ imports name, Follows H G
      (E.parseClassNamed load tokens fuel addToExisting imports name)
      (E.parseClassNamed load' tokens fuel addToExisting imports name)) (n : ℕ) (imports : Imports) :
    Follows H G (E.parseClasses load tokens fuel addToExisting n imports)
      (E.parseClasses load' tokens fuel addToExisting n imports) := by
  induction n generalizing imports with
  | zero => exact .undefined
  | succ n ih =>
    have hP := parser_follows hG hH hload E tokens imports
    refine .bind hP.moreTokens fun more => .ite (.pure _) (.bind (hP.expect _) fun _ => ?_)
    refine .bind (.bind (hP.parseIdentifier fuel) fun id => ?_) fun (imports, clazz) => ?_
    · exact .bind (hnamed _ _) fun _ => .pure _
    · exact .bind (ih _) fun _ => .pure _

theorem parse_follows {fuel : ℕ} {addToExisting : Bool}
    (hnamed : ∀ imports name, Follows H G
      (E.parseClassNamed load tokens fuel addToExisting imports name)
      (E.parseClassNamed load' tokens fuel addToExisting imports name)) :
    Follows H G (E.parse load tokens fuel addToExisting)
      (E.parse load' tokens fuel addToExisting) :=
  .bind (parseImports_follows hG hH hload fuel fuel _) fun imports =>
    .bind (parseClasses_follows hG hH hload hnamed fuel imports) fun _ => .ite (.pure _) .undefined

/-- The same for what the parser does around a class. -/
structure AllowsClasses (G : ClassTable → Prop) : Prop extends Allows G where
  openClass : ∀ addToExisting superClass name, Changes (OnWorld fun table table' => G table → G table')
    (openClass addToExisting superClass name)
  completeClass : ∀ {table} name, G table → G (table.completeClass name)
  rejectClass : ∀ {table} name, G table → G (table.rejectClass name)

omit hG hload hH in
theorem openClass_back (addToExisting : Bool) (superClass name : String) :
    Changes (OnWorld fun table table' => H table'.halted → H table.halted)
      (openClass addToExisting superClass name) := by
  intro s r t hrun
  unfold openClass at hrun
  split at hrun
  · split at hrun
    · cases hrun
    · split at hrun
      · obtain ⟨-, rfl⟩ := Prod.mk.inj (Option.some.inj hrun)
        exact id
      · split at hrun <;>
        · obtain ⟨-, rfl⟩ := Prod.mk.inj (Option.some.inj hrun)
          exact id
  · split at hrun
    · cases hrun
    · obtain ⟨-, rfl⟩ := Prod.mk.inj (Option.some.inj hrun)
      exact id

omit hG in
theorem parseBody_follows (hG : AllowsClasses G) (fuel : ℕ) (imports : Imports) (name : String) :
    Follows H G (E.parseBody (E.parser load tokens imports) fuel name)
      (E.parseBody (E.parser load' tokens imports) fuel name) := by
  refine .bind (.orNull (parseMembers_follows hG.toAllows hH hload fuel imports name fuel)) fun body => ?_
  cases body with
  | some _ => exact .bind (onTable_follows (fun _ h => h) (hG.completeClass name)) fun _ => .pure _
  | none => exact .bind (onTable_follows (fun _ h => h) (hG.rejectClass name)) fun _ => .fail

omit hG in
theorem parseOpened_follows (hG : AllowsClasses G) (fuel : ℕ) (addToExisting : Bool)
    (imports : Imports) (superClass name : String) : Follows H G
      (E.parseOpened (E.parser load tokens imports) fuel addToExisting superClass name)
      (E.parseOpened (E.parser load' tokens imports) fuel addToExisting superClass name) :=
  .bind (kept_of_changes (openClass_back addToExisting superClass name)
    (hG.openClass addToExisting superClass name) fun h => h) fun _ =>
    .ite (parseBody_follows hH hload hG fuel imports name) (.pure _)

omit hG in
theorem parseClassNamed_follows (hG : AllowsClasses G) (fuel : ℕ) (addToExisting : Bool)
    (imports : Imports) (name : String) : Follows H G
      (E.parseClassNamed load tokens fuel addToExisting imports name)
      (E.parseClassNamed load' tokens fuel addToExisting imports name) :=
  .bind (parseHead_follows hG.toAllows hH hload fuel imports) fun superClass =>
    parseOpened_follows hH hload hG fuel addToExisting imports superClass name

end

theorem kept_of_load {Q : ClassTable → ClassTable → Prop} [IsTrans ClassTable Q] {load : LoadClass}
    (hload : ∀ name table, Q table (load name table).2) (table₀ : ClassTable) :
    Loads (fun _ => True) (Q table₀) load load :=
  fun name table h _ => ⟨rfl, IsTrans.trans _ _ _ h (hload name table)⟩

/-- Loading a class changes the table in a way that its parse does. -/
theorem loadClass_changes {Q : ClassTable → ClassTable → Prop} [Std.Refl Q] {E : ClassPath}
    {fuel : ℕ} {last : LoadClass} (hhalt : ∀ table : ClassTable, Q table table.halt)
    (hlast : ∀ name table, Q table (last name table).2)
    (hparse : ∀ load : LoadClass, (∀ name table, Q table (load name table).2) → ∀ tokens addToExisting,
      Changes (OnWorld Q) (E.parse load tokens fuel addToExisting))
    (depth : ℕ) (addToExisting : Bool) (name : String) (table : ClassTable) :
    Q table (E.loadClass fuel last depth addToExisting name table).2 := by
  induction depth generalizing addToExisting name table with
  | zero => exact hlast name table
  | succ depth ih =>
    unfold loadClass
    split
    · exact refl table
    · next tokens _ =>
      have hchanges := hparse (E.loadClass fuel last depth false) (ih false) tokens addToExisting
        ⟨0, table⟩
      split
      · exact hhalt table
      · next s hrun => exact hchanges none s hrun
      · next s hrun =>
        have hQ := hchanges _ s hrun
        split
        · exact hQ
        · split <;> exact hQ

end ClassPath

/-! ## Classes come about step by step

The steps are those from which the layout of the classes has been proved. -/

namespace ClassTable

def Steps (table table' : ClassTable) : Prop :=
  Loader.ClassSteps Loader.anyTime table.classes table'.classes

instance : Std.Refl Steps := ⟨fun _ => .refl⟩

instance : IsTrans ClassTable Steps := ⟨fun _ _ _ h h' => Relation.ReflTransGen.trans h h'⟩

end ClassTable

namespace ClassPath

open ClassTable

theorem openClass_steps (addToExisting : Bool) (superClass name : String) :
    Changes (OnWorld Steps) (openClass addToExisting superClass name) := by
  intro s r t hrun
  unfold openClass at hrun
  split at hrun
  · split at hrun
    · cases hrun
    · split at hrun
      · obtain ⟨-, rfl⟩ := Prod.mk.inj (Option.some.inj hrun)
        exact refl (r := OnWorld Steps) s
      · split at hrun
        · obtain ⟨-, rfl⟩ := Prod.mk.inj (Option.some.inj hrun)
          exact Loader.ClassSteps.setState _ name .parsing
        · obtain ⟨-, rfl⟩ := Prod.mk.inj (Option.some.inj hrun)
          exact refl (r := OnWorld Steps) s
  · next hnew =>
    split at hrun
    · cases hrun
    · next classes hadd =>
      obtain ⟨-, rfl⟩ := Prod.mk.inj (Option.some.inj hrun)
      exact (Loader.addClass_steps hnew classes hadd).trans
        (Loader.ClassSteps.setState _ name .parsing)

theorem steps_allows (table : ClassTable) : AllowsClasses (Steps table) where
  function h := h
  addField name field h := h.tail (.field name field trivial)
  addStaticField name _ _ h := h.tail (.other name _ fun _ => ⟨rfl, rfl, rfl, rfl, rfl, rfl⟩)
  addMethod name _ _ h := h.tail (.other name _ fun _ => ⟨rfl, rfl, rfl, rfl, rfl, rfl⟩)
  openClass addToExisting superClass name s r t hrun h :=
    h.trans (openClass_steps addToExisting superClass name s r t hrun)
  completeClass name h := h.trans (Loader.ClassSteps.setState _ name .complete)
  rejectClass name h := h.trans (Loader.ClassSteps.delete _ name)

variable {E : ClassPath} {fuel : ℕ}

/-- What holds of the table still does behind the parser, if these steps do not change it. -/
theorem allows_of_steps {G : ClassTable → Prop} (h : ∀ {table table'}, Steps table table' → G table →
    G table') : AllowsClasses G where
  function := h ((steps_allows _).function .refl)
  addField name field := h ((steps_allows _).addField name field .refl)
  addStaticField name field value := h ((steps_allows _).addStaticField name field value .refl)
  addMethod name method function := h ((steps_allows _).addMethod name method function .refl)
  openClass addToExisting superClass name s r t hrun :=
    h (openClass_steps addToExisting superClass name s r t hrun)
  completeClass name := h ((steps_allows _).completeClass name .refl)
  rejectClass name := h ((steps_allows _).rejectClass name .refl)

/-- What loading does to the classes consists of the steps of B0rk.Parser.Proofs.Layout. -/
theorem loadClass_steps (depth : ℕ) (addToExisting : Bool) (name : String) (table : ClassTable) :
    Steps table (E.loadClass fuel halting depth addToExisting name table).2 := by
  refine loadClass_changes (Q := Steps) (fun _ => .refl) (fun _ _ => ?_) ?_ depth addToExisting name
    table
  · exact .refl
  · intro load hload tokens addToExisting
    refine changes_of_kept (fun table₀ => ?_) fun _ => trivial
    have hkept := kept_of_load hload table₀
    exact parse_follows (steps_allows table₀).toAllows trivial hkept
      (parseClassNamed_follows trivial hkept (steps_allows table₀) fuel addToExisting)

/-! ## The layout of the classes

A load of B0rk.Parser.Loader and one that parses the tokens of the files go through steps of the same
kind, and what has been proved of the layout from the steps holds of both. -/

/-- The tables that the runtime can come to have: it makes some classes itself, and it loads others. -/
inductive TableRun (E : ClassPath) : ClassTable → Prop
  | init : TableRun E ⟨[], 0, false⟩
  | native {table : ClassTable} (hrun : TableRun E table) (e : Loader.Entry)
      (hnative : e.native = true) (hnew : table.classes.find e.clazz.name = none) :
      TableRun E { table with classes := e :: table.classes }
  | load {table : ClassTable} (hrun : TableRun E table) (fuel depth : ℕ) (addToExisting : Bool)
      (name : String) : TableRun E (E.loadClass fuel halting depth addToExisting name table).2

theorem TableRun.steps {table : ClassTable} (hrun : TableRun E table) :
    Loader.ClassSteps Loader.anyTime [] table.classes := by
  induction hrun with
  | init => exact .refl
  | native _ e hnative hnew ih => exact ih.tail (.native e hnative hnew)
  | load _ fuel depth addToExisting name ih =>
    exact ih.trans (loadClass_steps depth addToExisting name _)

/-- Whatever tokens are loaded, the layout is as it is after the loads of B0rk.Parser.Loader. -/
theorem tableRun_layout {table : ClassTable} (hrun : TableRun E table) :
    (Loader.ClassSteps Loader.declaredEarly [] table.classes → table.classes.LayoutOk) ∧
      (table.classes.NoDuplicates → table.classes.LayoutOk →
        Loader.ClassSteps Loader.declaredEarly [] table.classes) :=
  Loader.ClassSteps.layout hrun.steps

/-- `class p.B { var a; function f() { p.A.go(); } var b; var c; }` -/
def crossingSuper : List Token :=
  [⟨.tokClass, 1, "class", 0, 0⟩, ⟨.tokIdentifier, 1, "p", 0, 0⟩, ⟨.tokDot, 1, ".", 0, 0⟩,
    ⟨.tokIdentifier, 1, "B", 0, 0⟩, ⟨.tokBraceLeft, 1, "\x7b", 0, 0⟩, ⟨.tokVar, 1, "var", 0, 0⟩,
    ⟨.tokIdentifier, 1, "a", 0, 0⟩, ⟨.tokSemicolon, 1, ";", 0, 0⟩,
    ⟨.tokFunction, 1, "function", 0, 0⟩, ⟨.tokIdentifier, 1, "f", 0, 0⟩,
    ⟨.tokBracketLeft, 1, "(", 0, 0⟩, ⟨.tokBracketRight, 1, ")", 0, 0⟩,
    ⟨.tokBraceLeft, 1, "\x7b", 0, 0⟩, ⟨.tokIdentifier, 1, "p", 0, 0⟩, ⟨.tokDot, 1, ".", 0, 0⟩,
    ⟨.tokIdentifier, 1, "A", 0, 0⟩, ⟨.tokDot, 1, ".", 0, 0⟩, ⟨.tokIdentifier, 1, "go", 0, 0⟩,
    ⟨.tokBracketLeft, 1, "(", 0, 0⟩, ⟨.tokBracketRight, 1, ")", 0, 0⟩, ⟨.tokSemicolon, 1, ";", 0, 0⟩,
    ⟨.tokBraceRight, 1, "\x7d", 0, 0⟩, ⟨.tokVar, 1, "var", 0, 0⟩, ⟨.tokIdentifier, 1, "b", 0, 0⟩,
    ⟨.tokSemicolon, 1, ";", 0, 0⟩, ⟨.tokVar, 1, "var", 0, 0⟩, ⟨.tokIdentifier, 1, "c", 0, 0⟩,
    ⟨.tokSemicolon, 1, ";", 0, 0⟩, ⟨.tokBraceRight, 1, "\x7d", 0, 0⟩]

/-- `class p.A extends p.B { var x; function go() { } }` -/
def crossingSub : List Token :=
  [⟨.tokClass, 1, "class", 0, 0⟩, ⟨.tokIdentifier, 1, "p", 0, 0⟩, ⟨.tokDot, 1, ".", 0, 0⟩,
    ⟨.tokIdentifier, 1, "A", 0, 0⟩, ⟨.tokExtends, 1, "extends", 0, 0⟩,
    ⟨.tokIdentifier, 1, "p", 0, 0⟩, ⟨.tokDot, 1, ".", 0, 0⟩, ⟨.tokIdentifier, 1, "B", 0, 0⟩,
    ⟨.tokBraceLeft, 1, "\x7b", 0, 0⟩, ⟨.tokVar, 1, "var", 0, 0⟩, ⟨.tokIdentifier, 1, "x", 0, 0⟩,
    ⟨.tokSemicolon, 1, ";", 0, 0⟩, ⟨.tokFunction, 1, "function", 0, 0⟩,
    ⟨.tokIdentifier, 1, "go", 0, 0⟩, ⟨.tokBracketLeft, 1, "(", 0, 0⟩,
    ⟨.tokBracketRight, 1, ")", 0, 0⟩, ⟨.tokBraceLeft, 1, "\x7b", 0, 0⟩,
    ⟨.tokBraceRight, 1, "\x7d", 0, 0⟩, ⟨.tokBraceRight, 1, "\x7d", 0, 0⟩]

def crossingPath : ClassPath :=
  { noFiles with files := [("p.A", crossingSub), ("p.B", crossingSuper)] }

/-- The tokens come to the slots that the model without them comes to. -/
example : ((crossingPath.loadClass 9 halting 2 false "p.B" objectTable).2.halted,
    Loader.chainSlots (crossingPath.loadClass 9 halting 2 false "p.B" objectTable).2.classes "p.A") =
      (false, Loader.chainSlots (Loader.loadedClasses Loader.crossingFiles) "p.A") := by
  decide +kernel

end ClassPath

end B0rk
