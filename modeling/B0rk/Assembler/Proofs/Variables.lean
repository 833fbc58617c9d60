import B0rk.Assembler.Proofs.History
import B0rk.Executor.Memory

set_option autoImplicit false

/-! # Loading and storing a variable

`load` and `store` look a name up on two ladders of their own. `load` begins with the class that
qualifies the name; `store` does not look at it. -/

namespace B0rk

/-- The class of the function is the class at its address. -/
def AsmEnv.OwnClass (A : AsmEnv) : Prop :=
  ∀ address chain, A.clazz = some (address, chain) → A.chain address = some chain

/-! ## The two ladders -/

/-- A name without a class: a local slot, a field of the instance, or a static field of the own
    class. -/
def unqualified (A : AsmEnv) (scope : Scope) (var : String) : Option Location :=
  match localId A scope var with
  | some id => some (.slot (BitVec.ofNat 64 id))
  | none => do
      let (address, chain) ← A.clazz
      match chain.getFieldId var with
      | some id => some (.field (BitVec.ofNat 64 id))
      | none => (chain.getStaticFieldId var).map fun id => .static address (BitVec.ofNat 64 id)

/-- A name with a class: a static field of that class. -/
def qualified (A : AsmEnv) (clazz : Word) (var : String) : Option Location := do
  let chain ← A.chain clazz
  let id ← chain.getStaticFieldId var
  some (.static clazz (BitVec.ofNat 64 id))

/-- Some instructions at once. -/
def pushAll (insts : List Instruction) : Asm Unit := Attempt.modify (fun code => code ++ insts)

/-- The ladder for a name without a class, with what is emitted for a location. -/
def ladder (A : AsmEnv) (scope : Scope) (var : String) (emit : Location → List Instruction) :
    Asm Unit :=
  match localId A scope var with
  | some id => pushAll (emit (.slot (BitVec.ofNat 64 id)))
  | none =>
      match A.clazz with
      | none => Attempt.undefined
      | some (address, chain) =>
          match chain.getFieldId var with
          | some id => pushAll (emit (.field (BitVec.ofNat 64 id)))
          | none =>
              match chain.getStaticFieldId var with
              | some id => pushAll (emit (.static address (BitVec.ofNat 64 id)))
              | none => Attempt.fail

section

variable {A : AsmEnv} {scope : Scope} {clazz : Word} {var : String}
  {code code' loaded stored : List Instruction}

theorem pushAll_two (op op' : OpCode) (args args' : List Word) :
    (do pushInstruction op args
        pushInstruction op' args' : Asm Unit) = pushAll [⟨op, args⟩, ⟨op', args'⟩] := by
  funext code
  show some (some (), code ++ [_] ++ [_]) = some (some (), code ++ [_, _])
  rw [List.append_assoc]
  rfl

theorem load_eq_ladder (A : AsmEnv) (scope : Scope) (var : String) :
    load A scope 0 var none = ladder A scope var Location.load := by
  simp only [load, ladder, ne_eq, not_true_eq_false, if_false, pushAll_two]
  rfl

theorem store_eq_ladder (A : AsmEnv) (scope : Scope) (var : String) :
    store A scope var none = ladder A scope var Location.store := by
  simp only [store, ladder, pushAll_two]
  rfl

theorem ladder_ok {emit : Location → List Instruction} {u : Unit} :
    (ladder A scope var emit).Ok code u code' ↔
      ∃ loc, unqualified A scope var = some loc ∧ code ++ emit loc = code' := by
  unfold ladder unqualified pushAll
  cases localId A scope var with
  | some id => simp
  | none =>
    rcases A.clazz with _ | ⟨address, chain⟩
    · simp
    · simp only [Option.bind_eq_bind, Option.bind_some]
      cases chain.getFieldId var with
      | some id => simp
      | none => cases chain.getStaticFieldId var <;> simp

theorem load_qualified_ok (hclazz : clazz ≠ 0) {u : Unit} :
    (load A scope clazz var none).Ok code u code' ↔
      ∃ loc, qualified A clazz var = some loc ∧ code ++ loc.load = code' := by
  simp only [load, if_pos hclazz]
  unfold qualified
  rcases A.chain clazz with _ | chain
  · simp
  · simp only [Option.bind_eq_bind, Option.bind_some]
    cases chain.getStaticFieldId var <;> simp [pushInstruction_ok, Location.load]

/-- The location that a variable stands for. -/
def denoted (A : AsmEnv) (scope : Scope) (clazz : Word) (var : String) : Option Location :=
  if clazz = 0 then unqualified A scope var else qualified A clazz var

theorem load_denoted_ok {u : Unit} :
    (load A scope clazz var none).Ok code u code' ↔
      ∃ loc, denoted A scope clazz var = some loc ∧ code ++ loc.load = code' := by
  by_cases hclazz : clazz = 0
  · subst hclazz
    rw [load_eq_ladder, ladder_ok, denoted, if_pos rfl]
  · rw [load_qualified_ok hclazz, denoted, if_neg hclazz]

theorem store_unqualified_ok {u : Unit} :
    (store A scope var none).Ok code u code' ↔
      ∃ loc, unqualified A scope var = some loc ∧ code ++ loc.store = code' := by
  rw [store_eq_ladder, ladder_ok]

/-! ## One location -/

/-- Both sequences access one location. -/
def SameLocation (loaded stored : List Instruction) : Prop :=
  ∃ loc : Location, loaded = loc.load ∧ stored = loc.store

theorem sameLocation_iff {loc loc' : Location} : SameLocation loc.load loc'.store ↔ loc = loc' := by
  constructor
  · rintro ⟨loc₀, hload, hstore⟩
    exact (Location.load_inj hload).trans (Location.store_inj hstore).symm
  · rintro rfl
    exact ⟨loc, rfl, rfl⟩

/-- The name is not qualified, or by the class of the function itself, and neither a local variable
    nor a field has it. -/
def LaddersMeet (A : AsmEnv) (scope : Scope) (clazz : Word) (var : String) : Prop :=
  clazz = 0 ∨ localId A scope var = none ∧
    ∃ chain, A.clazz = some (clazz, chain) ∧ chain.getFieldId var = none

/-- A static field of the own class is found by its name where nothing hides it. -/
theorem qualified_eq_iff (hA : A.OwnClass) {loc loc' : Location}
    (hloc : qualified A clazz var = some loc) (hloc' : unqualified A scope var = some loc') :
    loc = loc' ↔ localId A scope var = none ∧
      ∃ chain, A.clazz = some (clazz, chain) ∧ chain.getFieldId var = none := by
  obtain ⟨chain, hchain, hloc⟩ := Option.bind_eq_some_iff.mp hloc
  obtain ⟨id, hid, hloc⟩ := Option.bind_eq_some_iff.mp hloc
  obtain rfl := Option.some.inj hloc
  unfold unqualified at hloc'
  constructor
  · rintro rfl
    split at hloc'
    · cases hloc'
    · next hlocal =>
      obtain ⟨⟨address, own⟩, hown, hloc'⟩ := Option.bind_eq_some_iff.mp hloc'
      dsimp only at hloc'
      split at hloc'
      · cases hloc'
      · next hfield =>
        obtain ⟨id', -, hstatic⟩ := Option.map_eq_some_iff.mp hloc'
        obtain ⟨rfl, -⟩ := Location.static.inj hstatic
        exact ⟨hlocal, own, hown, hfield⟩
  · rintro ⟨hlocal, own, hown, hfield⟩
    obtain rfl : chain = own := Option.some.inj (hchain.symm.trans (hA _ _ hown))
    rw [hlocal] at hloc'
    simp only [hown, Option.bind_eq_bind, Option.bind_some, hfield, hid, Option.map_some] at hloc'
    exact Option.some.inj hloc'

/-- The two ladders come to one location exactly where they meet. -/
theorem denoted_eq_iff (hA : A.OwnClass) {loc loc' : Location}
    (hloc : denoted A scope clazz var = some loc) (hloc' : unqualified A scope var = some loc') :
    loc = loc' ↔ LaddersMeet A scope clazz var := by
  unfold denoted at hloc
  by_cases hclazz : clazz = 0
  · rw [if_pos hclazz] at hloc
    exact iff_of_true (Option.some.inj (hloc.symm.trans hloc')) (.inl hclazz)
  · rw [if_neg hclazz] at hloc
    rw [qualified_eq_iff hA hloc hloc', LaddersMeet, or_iff_right hclazz]

/-- **`load` and `store`.** Where both accept a variable they come to one location exactly if it is
    not qualified, or by the own class and hidden by nothing; then a value that is stored is the
    value that is loaded. -/
theorem load_store_iff (hA : A.OwnClass)
    (hload : (load A scope clazz var none).Ok code () (code ++ loaded))
    (hstore : (store A scope var none).Ok code' () (code' ++ stored)) :
    (SameLocation loaded stored ↔ LaddersMeet A scope clazz var) ∧
      (LaddersMeet A scope clazz var → ∀ {W : Type} (E : Env W), E.Memory →
        ∀ (exec : Execute W) (ctx ctx' : Context W) (frame frame' : Frame) (v : Value),
          runInstructions E exec stored (ctx.push v) frame = some (true, ctx', frame') →
          runInstructions E exec loaded ctx' frame' = some (true, ctx'.push v, frame')) := by
  obtain ⟨loc', hloc', hstored⟩ := store_unqualified_ok.mp hstore
  obtain rfl := List.append_cancel_left hstored
  obtain ⟨loc, hloc, hloaded⟩ := load_denoted_ok.mp hload
  obtain rfl := List.append_cancel_left hloaded
  have hiff : SameLocation loc.load loc'.store ↔ LaddersMeet A scope clazz var := by
    rw [sameLocation_iff]
    exact denoted_eq_iff hA hloc hloc'
  refine ⟨hiff, fun hmeet W E hE exec ctx ctx' frame frame' v hrun => ?_⟩
  obtain rfl : loc = loc' := sameLocation_iff.mp (hiff.mpr hmeet)
  exact Location.run_store_load exec hE hrun

end

/-! ## A static field of another class -/

/-- A method of a class `Mine` that has a static field `x`, as a class `Other` at the address 2
    has. -/
def twoClassesEnv : AsmEnv :=
  { emptyEnv with
    clazz := some (1, [(Class.create none "Mine").addStaticField "x" none])
    chain := fun address =>
      if address = 1 then some [(Class.create none "Mine").addStaticField "x" none]
      else if address = 2 then some [(Class.create none "Other").addStaticField "x" none]
      else none }

theorem twoClassesEnv_ownClass : twoClassesEnv.OwnClass := by
  intro address chain h
  obtain ⟨rfl, rfl⟩ := Prod.mk.inj (Option.some.inj h)
  rfl

/-- `Mine.x` is stored and loaded in one place. -/
theorem load_store_own :
    SameLocation [⟨.loadStaticField, [1, 0]⟩] [⟨.storeStaticField, [1, 0]⟩] := by
  have hload : (load twoClassesEnv [] 1 "x" none).Ok [] () ([] ++ [⟨.loadStaticField, [1, 0]⟩]) :=
    rfl
  have hstore : (store twoClassesEnv [] "x" none).Ok [] ()
      ([] ++ [⟨.storeStaticField, [1, 0]⟩]) := rfl
  have hmeet : LaddersMeet twoClassesEnv [] 1 "x" := .inr ⟨rfl, _, rfl, rfl⟩
  exact (load_store_iff twoClassesEnv_ownClass hload hstore).1.mpr hmeet

/-- `Other.x` is stored in `Mine.x`. -/
theorem load_store_other :
    (load twoClassesEnv [] 2 "x" none).Ok [] () [⟨.loadStaticField, [2, 0]⟩] ∧
      (store twoClassesEnv [] "x" none).Ok [] () [⟨.storeStaticField, [1, 0]⟩] ∧
      ¬SameLocation [⟨.loadStaticField, [2, 0]⟩] [⟨.storeStaticField, [1, 0]⟩] := by
  refine ⟨rfl, rfl, fun h => ?_⟩
  have hne : Location.static 2 0 ≠ Location.static 1 0 := by decide
  exact hne (sameLocation_iff.mp h)

end B0rk
