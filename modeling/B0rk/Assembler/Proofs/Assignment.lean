import B0rk.Assembler.Proofs.Chains
import B0rk.Assembler.Proofs.Variables
import Mathlib.Data.List.Forall2

set_option autoImplicit false

/-! # Assignments to a chain of fields

`o.p. … .q = e` stores behind the code of `o.p. …`, which is also what the value of the chain is
loaded behind. The two come to one field as long as the path to it does not lead through the field
that is written. `o.p. … .a[i] = e` stores in the field `a` too, and never looks at the index. -/

namespace B0rk

variable {W : Type}

/-! ## What a chain denotes -/

/-- The field with a name that an instruction finds in a value. -/
def denotedField (E : Env W) (ctx : Context W) (v : Value) (name : String) :
    Option (Word × ℕ) :=
  if v.isLiveObject then (namedField E ctx v.bits name).join.map fun id => (v.bits, id) else none

/-- The value of a chain; the names are given from the last one to the first. -/
def evalChain (E : Env W) (ctx : Context W) (frame : Frame) (loc : Location) :
    List String → Option Value
  | [] => loc.read E ctx frame
  | name :: names => do
      let v ← evalChain E ctx frame loc names
      let (obj, id) ← denotedField E ctx v name
      E.getValue ctx.world obj id

/-- The fields that the value of a chain is read through. -/
def chainReads (E : Env W) (ctx : Context W) (frame : Frame) (loc : Location) :
    List String → List (Word × ℕ)
  | [] =>
      match loc with
      | .field id => (frame.localVars[0]?.map fun this => (this.bits, id.toNat)).toList
      | _ => []
  | name :: names =>
      ((evalChain E ctx frame loc names).bind fun v => denotedField E ctx v name).toList ++
        chainReads E ctx frame loc names

/-- The objects of the names are strings with these texts; a string has no fields. -/
structure Literals (A : AsmEnv) (E : Env W) (ctx : Context W) (names : List String) : Prop where
  text : ∀ name ∈ names, E.getString ctx.world (A.newString name) = some name
  fieldless : ∀ name ∈ names, ∀ field id,
    namedField E ctx (A.newString name) field ≠ some (some id)

section

variable {E : Env W} {ctx ctx' : Context W} {frame frame' : Frame} {loc : Location} {v : Value}
  {A : AsmEnv} {names : List String} {name : String} {obj : Word} {id : ℕ} {world : W}

theorem denotedField_some (h : denotedField E ctx v name = some (obj, id)) :
    v.isLiveObject = true ∧ v.bits = obj ∧ namedField E ctx obj name = some (some id) := by
  unfold denotedField at h
  split at h
  · next hlive =>
    obtain ⟨id', hid, hpair⟩ := Option.map_eq_some_iff.mp h
    obtain ⟨rfl, rfl⟩ := Prod.mk.inj hpair
    exact ⟨hlive, rfl, Option.join_eq_some_iff.mp hid⟩
  · cases h

theorem denotedField_none (hv : v.isLiveObject = false) : denotedField E ctx v name = none := by
  rw [denotedField, hv]
  rfl

theorem denotedField_ne_zero (h : denotedField E ctx v name = some (obj, id)) : obj ≠ 0 := by
  obtain ⟨hlive, rfl, -⟩ := denotedField_some h
  exact of_decide_eq_true (Bool.and_eq_true_iff.mp hlive).2

/-! ## Writing a field -/

theorem namedField_setValue (hE : E.Memory) (hset : E.setValue ctx.world obj id v = some world)
    (obj' : Word) (name : String) :
    namedField E { ctx with world := world } obj' name = namedField E ctx obj' name := by
  unfold namedField
  rw [hE.value_class hset]
  cases E.getClass ctx.world obj' with
  | none => rfl
  | some clazz =>
    show (E.chain world clazz).bind _ = (E.chain ctx.world clazz).bind _
    rw [hE.value_chain hset]

theorem denotedField_setValue (hE : E.Memory) (hset : E.setValue ctx.world obj id v = some world)
    (v' : Value) (name : String) :
    denotedField E { ctx with world := world } v' name = denotedField E ctx v' name := by
  unfold denotedField
  rw [namedField_setValue hE hset]

/-- Writing a field does not change a location without it. -/
theorem read_setValue (hE : E.Memory) (hset : E.setValue ctx.world obj id v = some world)
    (hpath : (obj, id) ∉ chainReads E ctx frame loc []) :
    loc.read E { ctx with world := world } frame = loc.read E ctx frame := by
  cases loc with
  | slot id' => rfl
  | field id' =>
    show frame.localVars[0]?.bind _ = frame.localVars[0]?.bind _
    cases hthis : frame.localVars[0]? with
    | none => rfl
    | some this =>
      rw [chainReads, hthis] at hpath
      exact hE.value_other hset fun heq => hpath (List.mem_singleton.mpr heq.symm)
  | static clazz id' => exact hE.value_static hset

/-- A chain keeps its value if the field that is written is none that it is read through. -/
theorem evalChain_setValue (hE : E.Memory) (hset : E.setValue ctx.world obj id v = some world)
    (hpath : (obj, id) ∉ chainReads E ctx frame loc names) :
    evalChain E { ctx with world := world } frame loc names = evalChain E ctx frame loc names := by
  induction names with
  | nil => exact read_setValue hE hset hpath
  | cons name names ih =>
    rw [chainReads, List.mem_append, not_or] at hpath
    obtain ⟨hlast, hrest⟩ := hpath
    rw [evalChain, evalChain, ih hrest]
    cases hv : evalChain E ctx frame loc names with
    | none => rfl
    | some v' =>
      rw [hv, Option.bind_some] at hlast
      simp only [Option.bind_eq_bind, Option.bind_some, denotedField_setValue hE hset]
      cases hfield : denotedField E ctx v' name with
      | none => rfl
      | some field =>
        obtain ⟨obj', id'⟩ := field
        rw [hfield] at hlast
        exact hE.value_other hset fun heq => hlast (List.mem_singleton.mpr heq.symm)

/-- A chain that is read through the field comes to its new value, or to nothing. -/
theorem evalChain_written (hE : E.Memory) (hset : E.setValue ctx.world obj id v = some world)
    (hobj : obj ≠ 0) (hv : v.isLiveObject = false)
    (hpath : (obj, id) ∈ chainReads E ctx frame loc names) :
    evalChain E { ctx with world := world } frame loc names = some v ∨
      evalChain E { ctx with world := world } frame loc names = none := by
  induction names with
  | nil =>
    cases loc with
    | slot id' => cases hpath
    | static clazz id' => cases hpath
    | field id' =>
      cases hthis : frame.localVars[0]? with
      | none =>
        rw [chainReads, hthis] at hpath
        cases hpath
      | some this =>
        rw [chainReads, hthis] at hpath
        obtain ⟨rfl, rfl⟩ := Prod.mk.inj (List.mem_singleton.mp hpath)
        refine Or.inl ?_
        show frame.localVars[0]?.bind _ = _
        rw [hthis]
        exact hE.value_same hobj hset
  | cons name names ih =>
    by_cases hrest : (obj, id) ∈ chainReads E ctx frame loc names
    · refine Or.inr ?_
      rw [evalChain]
      rcases ih hrest with heval | heval <;> rw [heval]
      · rw [Option.bind_eq_bind, Option.bind_some, denotedField_none hv]
        rfl
      · rfl
    · -- only the last part of the path leads through the field
      rw [chainReads, List.mem_append] at hpath
      have hlast := hpath.resolve_right hrest
      rw [evalChain, evalChain_setValue hE hset hrest]
      cases hfront : evalChain E ctx frame loc names with
      | none => exact Or.inr rfl
      | some v₀ =>
        rw [hfront, Option.bind_some, Option.mem_toList] at hlast
        simp only [Option.bind_eq_bind, Option.bind_some, denotedField_setValue hE hset,
          Option.mem_def.mp hlast]
        exact Or.inl (hE.value_same hobj hset)

/-- With no object in a field that it is read through, a chain ends before its last name. -/
theorem evalChain_cut (hE : E.Memory) (hset : E.setValue ctx.world obj id v = some world)
    (hobj : obj ≠ 0) (hv : v.isLiveObject = false)
    (hpath : (obj, id) ∈ chainReads E ctx frame loc names) :
    evalChain E { ctx with world := world } frame loc (name :: names) = none := by
  rw [evalChain]
  rcases evalChain_written hE hset hobj hv hpath with heval | heval <;> rw [heval]
  · rw [Option.bind_eq_bind, Option.bind_some, denotedField_none hv]
    rfl
  · rfl

theorem Literals.setValue (h : Literals A E ctx names) (hE : E.Memory)
    (hset : E.setValue ctx.world obj id v = some world)
    (hfield : namedField E ctx obj name = some (some id)) :
    Literals A E { ctx with world := world } names where
  text name' hname := by
    have hne : A.newString name' ≠ obj := fun heq =>
      h.fieldless name' hname name id (by rw [heq, hfield])
    exact (hE.value_string hset hne).trans (h.text name' hname)
  fieldless name' hname field id' := by
    rw [namedField_setValue hE hset]
    exact h.fieldless name' hname field id'

theorem Literals.tail (h : Literals A E ctx (name :: names)) : Literals A E ctx names where
  text name' hname := h.text name' (List.mem_cons_of_mem _ hname)
  fieldless name' hname := h.fieldless name' (List.mem_cons_of_mem _ hname)

/-! ## Running a chain -/

/-- The code of a chain. -/
def chainCode (A : AsmEnv) (loc : Location) : List String → List Instruction
  | [] => loc.load
  | name :: names =>
      chainCode A loc names ++ [⟨.pushObj, [A.newString name]⟩, ⟨.loadFieldNamed, []⟩]

variable (exec : Execute W) {insts : List Instruction}

/-- Loading a field by its name. -/
theorem run_loadFieldNamed (htext : E.getString ctx.world (A.newString name) = some name) :
    runInstructions E exec (⟨.pushObj, [A.newString name]⟩ :: ⟨.loadFieldNamed, []⟩ :: insts)
        (ctx.push v) frame = some (true, ctx', frame') ↔
      ∃ obj id v', denotedField E ctx v name = some (obj, id) ∧
        E.getValue ctx.world obj id = some v' ∧
        runInstructions E exec insts (ctx.push v') frame = some (true, ctx', frame') := by
  have hload : opcodeLoadFieldNamed E [] ((ctx.push v).push ⟨.object, A.newString name⟩) frame =
      if v.isLiveObject then
        (namedField E ctx v.bits name).bind fun id =>
          id.elim (some (false, ctx, frame)) fun id =>
            (E.getValue ctx.world v.bits id).bind fun v' => some (true, ctx.push v', frame)
      else some (false, ctx, frame) := by
    show (E.getString ctx.world (A.newString name)).bind _ = _
    rw [htext]
    refine if_congr Iff.rfl (Option.bind_congr fun id _ => ?_) rfl
    cases id <;> rfl
  show (opcodeLoadFieldNamed E [] ((ctx.push v).push ⟨.object, A.newString name⟩) frame).bind _ =
    some (true, ctx', frame') ↔ _
  rw [hload]
  by_cases hlive : v.isLiveObject = true
  · rw [if_pos hlive, denotedField, if_pos hlive]
    rcases namedField E ctx v.bits name with _ | _ | id
    · simp
    · simp
    · cases hvalue : E.getValue ctx.world v.bits id <;> simp [hvalue]
  · rw [if_neg hlive, denotedField, if_neg hlive]
    simp

/-- Storing a field by its name. -/
theorem run_storeFieldNamed {value : Value}
    (htext : E.getString ctx.world (A.newString name) = some name) :
    runInstructions E exec [⟨.pushObj, [A.newString name]⟩, ⟨.storeFieldNamed, []⟩]
        ((ctx.push value).push v) frame = some (true, ctx', frame') ↔
      ∃ obj id world, denotedField E ctx v name = some (obj, id) ∧
        E.setValue ctx.world obj id value = some world ∧
        ctx' = { ctx with world := world } ∧ frame' = frame := by
  have hstore : opcodeStoreFieldNamed E []
        (((ctx.push value).push v).push ⟨.object, A.newString name⟩) frame =
      if v.isLiveObject then
        (namedField E ctx v.bits name).bind fun id =>
          id.elim (some (false, ctx, frame)) fun id =>
            (E.setValue ctx.world v.bits id value).bind fun world =>
              some (true, { ctx with world := world }, frame)
      else some (false, ctx, frame) := by
    show (E.getString ctx.world (A.newString name)).bind _ = _
    rw [htext]
    refine if_congr Iff.rfl (Option.bind_congr fun id _ => ?_) rfl
    cases id <;> rfl
  show (opcodeStoreFieldNamed E []
      (((ctx.push value).push v).push ⟨.object, A.newString name⟩) frame).bind _ =
    some (true, ctx', frame') ↔ _
  rw [hstore]
  by_cases hlive : v.isLiveObject = true
  · rw [if_pos hlive, denotedField, if_pos hlive]
    rcases namedField E ctx v.bits name with _ | _ | id
    · simp
    · simp
    · cases hset : E.setValue ctx.world v.bits id value <;>
        simp [hset, runInstructions, eq_comm (a := ctx'), eq_comm (a := frame')]
  · rw [if_neg hlive, denotedField, if_neg hlive]
    simp

theorem run_location :
    runInstructions E exec (loc.load ++ insts) ctx frame =
      (loc.read E ctx frame).bind fun v => runInstructions E exec insts (ctx.push v) frame := by
  cases hread : loc.read E ctx frame with
  | some v => exact runInstructions_append (Location.run_load exec hread)
  | none =>
    cases loc with
    | slot id =>
      have hget : frame.localVars[id.toNat]? = none := hread
      show (((frame.localVars[id.toNat]?).bind _).bind _) = _
      rw [hget]
      rfl
    | field id =>
      show (((frame.localVars[0]?).bind _).bind _) = _
      cases hthis : frame.localVars[0]? with
      | none => rfl
      | some this =>
        have hvalue : E.getValue ctx.world this.bits id.toNat = none := by
          have hbind : frame.localVars[0]?.bind _ = none := hread
          rwa [hthis] at hbind
        show ((E.getValue ctx.world this.bits id.toNat).bind _).bind _ = _
        rw [hvalue]
        rfl
    | static clazz id =>
      have hget : E.getStaticField ctx.world clazz id.toNat = none := hread
      show (((E.getStaticField ctx.world clazz id.toNat).bind _).bind _) = _
      rw [hget]
      rfl

/-- The code of a chain pushes its value, and nothing else. -/
theorem run_chainCode (hnames : Literals A E ctx names) :
    runInstructions E exec (chainCode A loc names ++ insts) ctx frame =
        some (true, ctx', frame') ↔
      ∃ v, evalChain E ctx frame loc names = some v ∧
        runInstructions E exec insts (ctx.push v) frame = some (true, ctx', frame') := by
  induction names generalizing insts with
  | nil => rw [chainCode, run_location, Option.bind_eq_some_iff, evalChain]
  | cons name names ih =>
    rw [chainCode, List.append_assoc, ih hnames.tail]
    simp only [List.cons_append, List.nil_append,
      run_loadFieldNamed exec (hnames.text name List.mem_cons_self), evalChain,
      Option.bind_eq_bind, Option.bind_eq_some_iff]
    constructor
    · rintro ⟨v, hv, obj, id, v', hfield, hvalue, hrun⟩
      exact ⟨v', ⟨v, hv, (obj, id), hfield, hvalue⟩, hrun⟩
    · rintro ⟨v', ⟨v, hv, ⟨obj, id⟩, hfield, hvalue⟩, hrun⟩
      exact ⟨v, hv, obj, id, v', hfield, hvalue, hrun⟩

end

/-! ## Assembling a chain -/

/-- A link of a chain that is a variable. -/
def FieldLink (link : ValueType × Expression) (name : String) : Prop :=
  ∃ type clazz, link.2 = .var type clazz name

/-- What a chain ends in: a field, or an element of an array that a field has. -/
inductive Ending
  | field
  | element (index : Expression)

/-- The last link of a chain with an ending. -/
def Ending.target (type : ValueType) (clazz : Word) (last : String) : Ending → Expression
  | .field => .var type clazz last
  | .element index => .array type clazz last index

section

variable {A : AsmEnv} {scope : Scope} {type varType : ValueType} {clazz : Word}
  {var last : String} {value : Expression} {links : List (ValueType × Expression)}
  {names : List String} {inReference needResult : Bool} {code code' : List Instruction}

theorem load_reference_ok {reference : Asm Unit} {u : Unit} :
    (load A scope clazz var (some reference)).Ok code u code' ↔
      ∃ code₁, reference.Ok code () code₁ ∧
        code₁ ++ [⟨.pushObj, [A.newString var]⟩, ⟨.loadFieldNamed, []⟩] = code' := by
  simp [load, pushInstruction_ok, Unique.exists_iff]

theorem store_reference_ok {reference : Asm Unit} {u : Unit} :
    (store A scope var (some reference)).Ok code u code' ↔
      ∃ code₁, reference.Ok code () code₁ ∧
        code₁ ++ [⟨.pushObj, [A.newString var]⟩, ⟨.storeFieldNamed, []⟩] = code' := by
  simp [store, pushInstruction_ok, Unique.exists_iff]

/-- A variable adds nothing to the reference that it is assembled under. -/
theorem assembleReference_var_ok {name : String} {u : Unit} :
    (assembleReference A (.var varType clazz name) scope).Ok code u code' ↔ code = code' := by
  rw [assembleReference.eq_def]
  simp

theorem assembleChain_fields_ok (hlinks : links.Forall₂ FieldLink names) {u : Unit} :
    (assembleChain A scope (load A scope clazz var none) links needResult).Ok code u code' ↔
      ∃ loc, denoted A scope clazz var = some loc ∧ code ++ chainCode A loc names = code' := by
  induction hlinks generalizing needResult code' with
  | nil => exact load_denoted_ok
  | @cons link name links names hlink hlinks ih =>
    obtain ⟨type, last⟩ := link
    obtain ⟨varType, clazz', rfl⟩ := hlink
    rw [assembleChain, if_neg (by exact Bool.false_ne_true), assembleExpression,
      load_reference_ok]
    simp only [Attempt.bind_ok, assembleReference_var_ok, ih, chainCode, Unique.exists_iff]
    constructor
    · rintro ⟨_, ⟨_, ⟨loc, hloc, rfl⟩, rfl⟩, rfl⟩
      exact ⟨loc, hloc, (List.append_assoc ..).symm⟩
    · rintro ⟨loc, hloc, rfl⟩
      exact ⟨_, ⟨_, ⟨loc, hloc, rfl⟩, rfl⟩, List.append_assoc ..⟩

/-- A chain of fields is assembled to the code of the chain, however it is used. -/
theorem assembleExpression_fields_ok (hlinks : links.Forall₂ FieldLink names) {u : Unit} :
    (assembleExpression A (chain (.var varType clazz var) links) scope none inReference
        needResult).Ok code u code' ↔
      ∃ loc, denoted A scope clazz var = some loc ∧ code ++ chainCode A loc names = code' := by
  cases links with
  | nil =>
    obtain rfl := List.forall₂_nil_left_iff.mp hlinks
    rw [chain, assembleExpression]
    exact load_denoted_ok
  | cons link links =>
    rw [assembleExpression_chain A scope _ (List.cons_ne_nil _ _), assembleExpression,
      assembleChain_fields_ok hlinks]

/-- An expression with a name adds nothing to the reference that it is assembled under. -/
theorem assembleReference_target_ok {ending : Ending} {lastType : ValueType} {lastClazz : Word}
    {u : Unit} :
    (assembleReference A (ending.target lastType lastClazz last) scope).Ok code u code' ↔
      code = code' := by
  cases ending with
  | field => exact assembleReference_var_ok
  | element index =>
    rw [Ending.target, assembleReference.eq_def]
    simp

/-- The assignment stores behind its value and behind the chain without its last link, whatever
    that link ends in. -/
theorem assembleExpression_set_ok {linkType lastType : ValueType} {lastClazz : Word}
    (ending : Ending) (hrest : links.Forall₂ FieldLink names) {u : Unit} :
    (assembleExpression A (.oper type .set (some (chain (.var varType clazz var)
        ((linkType, ending.target lastType lastClazz last) :: links))) (some value))
        scope none inReference needResult).Ok code u code' ↔
      ∃ code₁ loc, (assembleExpression A value scope none false true).Ok code () code₁ ∧
        denoted A scope clazz var = some loc ∧
        code₁ ++ ((if needResult then [⟨.dup, []⟩] else []) ++ (chainCode A loc names ++
          [⟨.pushObj, [A.newString last]⟩, ⟨.storeFieldNamed, []⟩])) = code' := by
  have hname : (ending.target lastType lastClazz last).refChild.bind Expression.asVar =
      some (lastClazz, last) := by cases ending <;> rfl
  rw [assembleExpression.eq_def]
  simp only [Attempt.bind_ok, chain, assembleDest, Expression.refChild, hname,
    store_reference_ok, assembleOperand, assembleReference_target_ok,
    assembleExpression_fields_ok hrest, reduceCtorEq, decide_false, pushIf_ok, Unique.exists_iff]
  constructor
  · rintro ⟨code₁, hvalue, _, rfl, _, ⟨_, ⟨loc, hloc, rfl⟩, rfl⟩, rfl⟩
    exact ⟨code₁, loc, hvalue, hloc, by simp only [List.append_assoc]⟩
  · rintro ⟨code₁, loc, hvalue, hloc, rfl⟩
    exact ⟨code₁, hvalue, _, rfl, _, ⟨_, ⟨loc, hloc, rfl⟩, rfl⟩, by simp only [List.append_assoc]⟩

/-! ## Assigning -/

section

variable {W : Type} {E : Env W} {ctx ctx' : Context W} {frame frame' : Frame} {v : Value}
  {loc : Location}

/-- The field that a chain denotes. -/
def chainField (E : Env W) (ctx : Context W) (frame : Frame) (loc : Location)
    (names : List String) (last : String) : Option (Word × ℕ) :=
  (evalChain E ctx frame loc names).bind fun v => denotedField E ctx v last

/-- What an assignment does: the field that the chain denotes has the value, and no other slot of
    an object (which the elements of an array are too) or of a class has changed. The chain has the
    value again if the part in front of its last name comes to the same; this is so if it is not
    read through the field that is written. -/
structure Assigned (E : Env W) (exec : Execute W) (eval : List Instruction) (loc : Location)
    (names : List String) (last : String) (v : Value) (ctx ctx' : Context W) (frame : Frame) :
    Prop where
  written : ∃ obj id, chainField E ctx frame loc names last = some (obj, id) ∧
    E.setValue ctx.world obj id v = some ctx'.world ∧ E.getValue ctx'.world obj id = some v
  others : ∀ obj id, chainField E ctx frame loc names last ≠ some (obj, id) →
    E.getValue ctx'.world obj id = E.getValue ctx.world obj id
  statics : ∀ clazz id, E.getStaticField ctx'.world clazz id = E.getStaticField ctx.world clazz id
  again : evalChain E ctx' frame loc names = evalChain E ctx frame loc names →
    runInstructions E exec eval ctx' frame = some (true, ctx'.push v, frame)
  path : (∀ field ∈ chainField E ctx frame loc names last,
      field ∉ chainReads E ctx frame loc names) →
    evalChain E ctx' frame loc names = evalChain E ctx frame loc names

theorem evalChain_world (hworld : ctx'.world = ctx.world) :
    evalChain E ctx' frame loc names = evalChain E ctx frame loc names := by
  induction names with
  | nil => cases loc <;> simp only [evalChain, Location.read, hworld]
  | cons name names ih =>
    simp only [evalChain, ih, denotedField, namedField, hworld]

theorem Literals.world (h : Literals A E ctx names) (hworld : ctx'.world = ctx.world) :
    Literals A E ctx' names where
  text := by simpa only [hworld] using h.text
  fieldless := by simpa only [namedField, hworld] using h.fieldless

/-- The state behind a store, whatever is left on the stack. -/
theorem Assigned.of_setValue (hE : E.Memory) (exec : Execute W) {obj : Word} {id : ℕ}
    (hnames : Literals A E ctx (last :: names))
    (hfield : chainField E ctx frame loc names last = some (obj, id))
    (hset : E.setValue ctx.world obj id v = some ctx'.world) :
    Assigned E exec (chainCode A loc (last :: names)) loc names last v ctx ctx' frame := by
  obtain ⟨v₀, hv₀, hlast⟩ := Option.bind_eq_some_iff.mp hfield
  have hvalue : E.getValue ctx'.world obj id = some v :=
    hE.value_same (denotedField_ne_zero hlast) hset
  have hctx' : ctx'.world = ({ ctx with world := ctx'.world } : Context W).world := rfl
  refine ⟨⟨obj, id, hfield, hset, hvalue⟩, fun obj' id' hne => ?_,
    fun clazz id => hE.value_static hset, fun hagain => ?_, fun hpath => ?_⟩
  · refine hE.value_other hset fun heq => ?_
    rw [heq] at hne
    exact hne hfield
  · have hliterals : Literals A E ctx' (last :: names) :=
      (hnames.setValue hE hset (denotedField_some hlast).2.2).world hctx'
    have hlast' : denotedField E ctx' v₀ last = some (obj, id) := by
      rw [← hlast, ← denotedField_setValue hE hset v₀ last]
      rfl
    have heval : evalChain E ctx' frame loc (last :: names) = some v := by
      simp only [evalChain, hagain, hv₀, hlast', hvalue, Option.bind_eq_bind, Option.bind_some]
    rw [← List.append_nil (chainCode A loc (last :: names))]
    exact (run_chainCode exec hliterals).mpr ⟨v, heval, rfl⟩
  · rw [evalChain_world hctx']
    exact evalChain_setValue hE hset (hpath _ hfield)

/-- The code behind the value. -/
theorem run_assignment (hE : E.Memory) (exec : Execute W)
    (hnames : Literals A E ctx (last :: names))
    (hrun : runInstructions E exec ((if needResult then [⟨.dup, []⟩] else []) ++
        (chainCode A loc names ++ [⟨.pushObj, [A.newString last]⟩, ⟨.storeFieldNamed, []⟩]))
      (ctx.push v) frame = some (true, ctx', frame')) :
    frame' = frame ∧ (∃ world, ctx' =
      if needResult then ({ ctx with world := world } : Context W).push v
      else { ctx with world := world }) ∧
    Assigned E exec (chainCode A loc (last :: names)) loc names last v ctx ctx' frame := by
  -- the chain is evaluated on top of the value, and of its copy
  obtain ⟨base, hbase, hstore⟩ : ∃ base : Context W,
      base = (if needResult then ctx.push v else ctx) ∧
      runInstructions E exec (chainCode A loc names ++
        [⟨.pushObj, [A.newString last]⟩, ⟨.storeFieldNamed, []⟩]) (base.push v) frame =
        some (true, ctx', frame') := by
    cases needResult with
    | false => exact ⟨ctx, rfl, hrun⟩
    | true => exact ⟨ctx.push v, rfl, hrun⟩
  have hworld : base.world = ctx.world := by
    rw [hbase]
    split <;> rfl
  have hliterals : Literals A E (base.push v) (last :: names) := hnames.world hworld
  obtain ⟨v₀, hv₀, hstore⟩ := (run_chainCode exec hliterals.tail).mp hstore
  obtain ⟨obj, id, world, hlast, hset, rfl, rfl⟩ := (run_storeFieldNamed exec
    ((hnames.world hworld).text last List.mem_cons_self)).mp hstore
  have hfield : chainField E ctx frame' loc names last = some (obj, id) := by
    have hprefix : evalChain E (base.push v) frame' loc names = evalChain E ctx frame' loc names :=
      evalChain_world hworld
    rw [chainField, ← hprefix, hv₀, Option.bind_some, ← hlast]
    simp only [denotedField, namedField, hworld]
  rw [hworld] at hset
  refine ⟨rfl, ⟨world, ?_⟩, Assigned.of_setValue hE exec hnames hfield hset⟩
  rw [hbase]
  split <;> rfl

/-- **Assignments to chains.** The code of an accepted assignment to a chain of fields of any
    length is that of its value and of a store, which does what an assignment should; the chain
    itself can be assembled wherever it stands. -/
theorem chain_assignment (hlinks : links.Forall₂ FieldLink (last :: names))
    (hset : (assembleExpression A (.oper type .set (some (chain (.var varType clazz var) links))
      (some value)) scope none inReference needResult).Ok code () code') :
    ∃ code₁ stored loaded, (assembleExpression A value scope none false true).Ok code () code₁ ∧
      code' = code₁ ++ stored ∧
      (∀ code inReference needResult, (assembleExpression A (chain (.var varType clazz var) links)
        scope none inReference needResult).Ok code () (code ++ loaded)) ∧
      ∃ loc, denoted A scope clazz var = some loc ∧
        ∀ (W : Type) (E : Env W), E.Memory → ∀ ctx, Literals A E ctx (last :: names) →
          ∀ (exec : Execute W) frame v ctx' frame',
            runInstructions E exec stored (ctx.push v) frame = some (true, ctx', frame') →
            frame' = frame ∧ (∃ world, ctx' =
              if needResult then ({ ctx with world := world } : Context W).push v
              else { ctx with world := world }) ∧
            Assigned E exec loaded loc names last v ctx ctx' frame := by
  obtain ⟨⟨lastType, right⟩, links, ⟨varType', lastClazz, hlast⟩, hrest, rfl⟩ :=
    List.forall₂_cons_right_iff.mp hlinks
  obtain rfl : right = Ending.field.target varType' lastClazz last := hlast
  obtain ⟨code₁, loc, hvalue, hloc, rfl⟩ := (assembleExpression_set_ok .field hrest).mp hset
  refine ⟨code₁, _, chainCode A loc (last :: names), hvalue, rfl,
    fun code inReference needResult => ?_, loc, hloc,
    fun W E hE ctx hnames exec frame v ctx' frame' hrun => run_assignment hE exec hnames hrun⟩
  exact (assembleExpression_fields_ok hlinks).mpr ⟨loc, hloc, rfl⟩

/-- What a chain with an ending denotes: for a field it is the field. An element of an array is no
    field; the class of the data of an array has no names for its slots. -/
def Ending.Denotes (E : Env W) (ctx : Context W) (frame : Frame) (loc : Location)
    (names : List String) (last : String) : Ending → Word → ℕ → Prop
  | .field, obj, id => chainField E ctx frame loc names last = some (obj, id)
  | .element _, obj, id => ∀ name, namedField E ctx obj name ≠ some (some id)

/-- An object has a slot for each field of its class. -/
def HasSlots (E : Env W) (ctx : Context W) : Prop :=
  ∀ obj name id, namedField E ctx obj name = some (some id) →
    ∃ v, E.getValue ctx.world obj id = some v

/-- What an assignment is for: the target, which can be assembled wherever it stands, has the value
    afterwards; no slot of an object but the one that it denotes has changed, no field of a class,
    no variable, and the value is left on the stack if it is needed. -/
structure Assigns (A : AsmEnv) (scope : Scope) (target : Expression)
    (denotes : Word → ℕ → Prop) (needResult : Bool) (E : Env W) (exec : Execute W) (v : Value)
    (ctx ctx' : Context W) (frame frame' : Frame) : Prop where
  again : ∃ loaded, (∀ code inReference needResult,
      (assembleExpression A target scope none inReference needResult).Ok code () (code ++ loaded)) ∧
    ∃ (ctx'' : Context W) (frame'' : Frame),
      runInstructions E exec loaded ctx' frame' = some (true, ctx''.push v, frame'')
  others : ∀ obj id, ¬ denotes obj id → E.getValue ctx'.world obj id = E.getValue ctx.world obj id
  statics : ∀ clazz id, E.getStaticField ctx'.world clazz id = E.getStaticField ctx.world clazz id
  locals : frame' = frame
  result : ∃ world, ctx' = if needResult then ({ ctx with world := world } : Context W).push v
    else { ctx with world := world }

/-- Whenever the store is executed on a value, it does what an assignment is for. -/
def StoreAssigns (A : AsmEnv) (scope : Scope) (target : Expression)
    (denotes : Word → ℕ → Prop) (needResult : Bool) (E : Env W) (exec : Execute W)
    (stored : List Instruction) (v : Value) (ctx : Context W) (frame : Frame) : Prop :=
  ∀ ctx' frame', runInstructions E exec stored (ctx.push v) frame = some (true, ctx', frame') →
    Assigns A scope target denotes needResult E exec v ctx ctx' frame frame'

/-- A chain that denotes something ends in a field, and the path to it does not lead through this
    field. -/
def FieldApart (E : Env W) (ctx : Context W) (frame : Frame) (loc : Location)
    (names : List String) (last : String) (ending : Ending) : Prop :=
  ∀ field ∈ chainField E ctx frame loc names last,
    ending = .field ∧ field ∉ chainReads E ctx frame loc names

/-- The path to a field does not lead through the field. -/
theorem assigns_field (hE : E.Memory) (exec : Execute W) (hnames : Literals A E ctx (last :: names))
    {linkType lastType : ValueType} {lastClazz : Word} (hrest : links.Forall₂ FieldLink names)
    (hloc : denoted A scope clazz var = some loc)
    (hpath : ∀ field ∈ chainField E ctx frame loc names last,
      field ∉ chainReads E ctx frame loc names)
    (hrun : runInstructions E exec ((if needResult then [⟨.dup, []⟩] else []) ++
        (chainCode A loc names ++ [⟨.pushObj, [A.newString last]⟩, ⟨.storeFieldNamed, []⟩]))
      (ctx.push v) frame = some (true, ctx', frame')) :
    Assigns A scope (chain (.var varType clazz var)
        ((linkType, Ending.field.target lastType lastClazz last) :: links))
      (Ending.field.Denotes E ctx frame loc names last) needResult E exec v ctx ctx' frame
      frame' := by
  obtain ⟨rfl, hresult, hassigned⟩ := run_assignment hE exec hnames hrun
  have hlinks : List.Forall₂ FieldLink ((linkType, Ending.field.target lastType lastClazz last) ::
      links) (last :: names) := .cons ⟨_, _, rfl⟩ hrest
  exact {
    again := ⟨chainCode A loc (last :: names),
      fun code inReference needResult => (assembleExpression_fields_ok hlinks).mpr ⟨loc, hloc, rfl⟩,
      ctx', frame', hassigned.again (hassigned.path hpath)⟩
    others := hassigned.others
    statics := hassigned.statics
    locals := rfl
    result := hresult }

/-- The store behind the value of an assignment. -/
theorem run_assignment_defined (exec : Execute W) (hnames : Literals A E ctx (last :: names))
    {obj : Word} {id : ℕ} {world : W}
    (hfield : chainField E ctx frame loc names last = some (obj, id))
    (hset : E.setValue ctx.world obj id v = some world) :
    runInstructions E exec ((if needResult then [⟨.dup, []⟩] else []) ++
        (chainCode A loc names ++ [⟨.pushObj, [A.newString last]⟩, ⟨.storeFieldNamed, []⟩]))
      (ctx.push v) frame = some (true, if needResult then
        ({ ctx with world := world } : Context W).push v else { ctx with world := world },
        frame) := by
  obtain ⟨v₀, hv₀, hlast⟩ := Option.bind_eq_some_iff.mp hfield
  -- the chain is evaluated on top of the value, and of its copy
  have hstore (base : Context W) (hworld : base.world = ctx.world) :
      runInstructions E exec (chainCode A loc names ++
        [⟨.pushObj, [A.newString last]⟩, ⟨.storeFieldNamed, []⟩]) (base.push v) frame =
        some (true, { base with world := world }, frame) := by
    have hliterals : Literals A E (base.push v) (last :: names) := hnames.world hworld
    refine (run_chainCode exec hliterals.tail).mpr ⟨v₀, ?_, ?_⟩
    · rw [← hv₀]
      exact evalChain_world hworld
    · refine (run_storeFieldNamed exec ((hnames.world hworld).text last List.mem_cons_self)).mpr
        ⟨obj, id, world, ?_, by rw [hworld, hset], rfl, rfl⟩
      rw [← hlast]
      simp only [denotedField, namedField, hworld]
  cases needResult with
  | false => exact hstore ctx rfl
  | true => exact hstore (ctx.push v) rfl

/-- The assignment of a value that is no object, to a field that has another one, shows what the
    chain ends in and whether its path leads through the field. -/
theorem Assigns.ending (hE : E.Memory) (exec : Execute W)
    (hnames : Literals A E ctx (last :: names))
    {ending : Ending} {linkType lastType : ValueType} {lastClazz : Word}
    (hrest : links.Forall₂ FieldLink names) (hloc : denoted A scope clazz var = some loc)
    {obj : Word} {id : ℕ} {world : W}
    (hfield : chainField E ctx frame loc names last = some (obj, id))
    (hset : E.setValue ctx.world obj id v = some world) (hworld : ctx'.world = world)
    (hv : v.isLiveObject = false) (hother : E.getValue ctx.world obj id ≠ some v)
    (h : Assigns A scope (chain (.var varType clazz var)
        ((linkType, ending.target lastType lastClazz last) :: links))
      (ending.Denotes E ctx frame loc names last) needResult E exec v ctx ctx' frame frame') :
    ending = .field ∧ (obj, id) ∉ chainReads E ctx frame loc names := by
  obtain ⟨v₀, -, hlast⟩ := Option.bind_eq_some_iff.mp hfield
  obtain ⟨-, -, hnamed⟩ := denotedField_some hlast
  have hobj := denotedField_ne_zero hlast
  subst hworld
  cases ending with
  | element index =>
    -- the field has changed, and no field is denoted
    have hsame := h.others obj id fun hdenotes => hdenotes last hnamed
    rw [hE.value_same hobj hset] at hsame
    exact absurd hsame.symm hother
  | field =>
    refine ⟨rfl, fun hpath => ?_⟩
    have hlinks : List.Forall₂ FieldLink
        ((linkType, Ending.field.target lastType lastClazz last) :: links) (last :: names) :=
      .cons ⟨_, _, rfl⟩ hrest
    obtain ⟨loaded, hloaded, ctx'', frame'', hrun⟩ := h.again
    obtain ⟨loc', hloc', hcode⟩ := (assembleExpression_fields_ok hlinks).mp (hloaded [] false true)
    obtain rfl : loc = loc' := Option.some.inj (hloc.symm.trans hloc')
    obtain rfl : chainCode A loc (last :: names) = loaded := List.append_cancel_left hcode
    have hworld : ctx'.world = ({ ctx with world := ctx'.world } : Context W).world := rfl
    have hliterals : Literals A E ctx' (last :: names) :=
      (hnames.setValue hE hset hnamed).world hworld
    rw [h.locals, ← List.append_nil (chainCode A loc (last :: names)),
      run_chainCode exec hliterals] at hrun
    obtain ⟨v', hv', -⟩ := hrun
    rw [evalChain_world hworld, evalChain_cut hE hset hobj hv hpath] at hv'
    cases hv'

/-- **Assignments to chains.** The code of an accepted assignment to a chain of any length is that
    of its value and of a store. The store does what an assignment is for, for every value, if and
    only if the chain ends in a field that the path to it does not lead through, as far as it
    denotes one. A value that is no object, and that the field has not had before, shows it. -/
theorem chain_assignment_iff {linkType lastType : ValueType} {lastClazz : Word} (ending : Ending)
    (hrest : links.Forall₂ FieldLink names)
    (hset : (assembleExpression A (.oper type .set (some (chain (.var varType clazz var)
        ((linkType, ending.target lastType lastClazz last) :: links))) (some value))
        scope none inReference needResult).Ok code () code') :
    ∃ code₁ stored loc, (assembleExpression A value scope none false true).Ok code () code₁ ∧
      code' = code₁ ++ stored ∧ denoted A scope clazz var = some loc ∧
      ∀ (W : Type) (E : Env W), E.Memory → ∀ ctx, Literals A E ctx (last :: names) →
        HasSlots E ctx → ∀ (exec : Execute W) frame,
        ((∀ v, StoreAssigns A scope (chain (.var varType clazz var)
              ((linkType, ending.target lastType lastClazz last) :: links))
            (ending.Denotes E ctx frame loc names last) needResult E exec stored v ctx frame) ↔
          FieldApart E ctx frame loc names last ending) ∧
        ∀ v, v.isLiveObject = false →
          (∀ field ∈ chainField E ctx frame loc names last,
            E.getValue ctx.world field.1 field.2 ≠ some v) →
          StoreAssigns A scope (chain (.var varType clazz var)
              ((linkType, ending.target lastType lastClazz last) :: links))
            (ending.Denotes E ctx frame loc names last) needResult E exec stored v ctx frame →
          FieldApart E ctx frame loc names last ending := by
  obtain ⟨code₁, loc, hvalue, hloc, rfl⟩ := (assembleExpression_set_ok ending hrest).mp hset
  refine ⟨code₁, _, loc, hvalue, rfl, hloc, fun W E hE ctx hnames hslots exec frame => ?_⟩
  have hshows (v : Value) (hv : v.isLiveObject = false)
      (hother : ∀ field ∈ chainField E ctx frame loc names last,
        E.getValue ctx.world field.1 field.2 ≠ some v)
      (hmeets : StoreAssigns A scope (chain (.var varType clazz var)
          ((linkType, ending.target lastType lastClazz last) :: links))
        (ending.Denotes E ctx frame loc names last) needResult E exec
        ((if needResult then [⟨.dup, []⟩] else []) ++ (chainCode A loc names ++
          [⟨.pushObj, [A.newString last]⟩, ⟨.storeFieldNamed, []⟩])) v ctx frame) :
      FieldApart E ctx frame loc names last ending := by
    rintro ⟨obj, id⟩ hfield
    obtain ⟨v₀, -, hlast⟩ := Option.bind_eq_some_iff.mp hfield
    obtain ⟨old, hold⟩ := hslots obj last id (denotedField_some hlast).2.2
    obtain ⟨world, hset⟩ := hE.value_defined v hold
    have hassigns := hmeets _ _ (run_assignment_defined exec hnames hfield hset)
    refine hassigns.ending hE exec hnames hrest hloc hfield hset ?_ hv (hother _ hfield)
    split <;> rfl
  refine ⟨⟨fun hall => ?_, fun hapart v ctx' frame' hrun => ?_⟩, hshows⟩
  · -- one of two integers is not in the field
    rintro ⟨obj, id⟩ hfield
    by_cases hzero : E.getValue ctx.world obj id = some (Value.integer 0)
    · refine hshows (Value.integer 1) rfl (fun field hfield' => ?_) (hall _) _ hfield
      obtain rfl := Option.mem_unique hfield hfield'
      rw [hzero]
      exact fun heq => absurd (Option.some.inj heq) (by decide)
    · refine hshows (Value.integer 0) rfl (fun field hfield' => ?_) (hall _) _ hfield
      obtain rfl := Option.mem_unique hfield hfield'
      exact hzero
  · obtain ⟨obj, id, hfield⟩ : ∃ obj id, chainField E ctx frame loc names last = some (obj, id) := by
      obtain ⟨-, -, hassigned⟩ := run_assignment hE exec hnames hrun
      obtain ⟨obj, id, hfield, -⟩ := hassigned.written
      exact ⟨obj, id, hfield⟩
    obtain ⟨rfl, -⟩ := hapart _ hfield
    exact assigns_field hE exec hnames hrest hloc (fun field hmem => (hapart field hmem).2) hrun

end

end

/-! ## A list of nodes -/

/-- A node has a reference to the next one and an array of items. -/
def nodeClass : Class := ((Class.create none "Node").addField "next").addField "items"

/-- A method of another class, with the names of the fields at the addresses 16 and 32. -/
def nodeAsmEnv : AsmEnv :=
  { emptyEnv with
    clazz := some (4, [Class.create none "Lists"])
    newString := fun name => if name = "next" then 16 else 32 }

/-- A block with a variable `o`. -/
def nodeScope : Scope := [.mk true 1 2 ["o"] []]

def nodeEnv : Env Heap :=
  heapEnv (fun clazz => if clazz = 1 then some [nodeClass] else none)
    (fun obj => if obj = 16 then some "next" else if obj = 32 then some "items" else none)

/-- The node at 8 is the next one of that at 48 and of itself; its array at 24 has one item. -/
def nodeHeap : Heap where
  objects obj :=
    if obj = 8 then some (1, [⟨.object, 0⟩, ⟨.object, 8⟩, ⟨.object, 24⟩])
    else if obj = 48 then some (1, [⟨.object, 0⟩, ⟨.object, 8⟩, ⟨.object, 0⟩])
    else if obj = 24 then some (2, [⟨.object, 0⟩, ⟨.integer, 1⟩, ⟨.object, 40⟩])
    else if obj = 40 then some (3, [⟨.integer, 7⟩])
    else none
  statics _ := []

def nodeContext : Context Heap := ⟨[], false, ⟨.void, 0⟩, nodeHeap⟩

/-- The variable `o` has a node. -/
def nodeFrame (node : Word) : Frame :=
  ⟨1, ⟨2, 0, fun _ => none⟩, true, 0, ⟨false, false, false⟩, [⟨.object, 0⟩, ⟨.object, node⟩], []⟩

/-- `o.next.next`. -/
def nextOfNext : Expression :=
  chain (.var .unknown 0 "o")
    [(.unknown, .var .unknown 0 "next"), (.unknown, .var .unknown 0 "next")]

/-- `o.items[0]`. -/
def firstItem : Expression :=
  chain (.var .unknown 0 "o") [(.unknown, .array .unknown 0 "items" (.integer .integer 0))]

/-- `target = 5`. -/
def assignFive (target : Expression) : Expression :=
  .oper .unknown .set (some target) (some (.integer .integer 5))

/-- No calls are run here. -/
def noCalls : Execute Heap := fun _ _ _ _ => none

/-- A node has its two fields behind a slot that is not used. -/
theorem node_hasSlots : HasSlots nodeEnv nodeContext := by
  intro obj name id hnamed
  obtain ⟨clazz, hclass, hnamed⟩ := Option.bind_eq_some_iff.mp hnamed
  obtain ⟨classes, hchain, hid⟩ := Option.bind_eq_some_iff.mp hnamed
  have hid : classes.getFieldId name = some id := Option.some.inj hid
  obtain rfl : clazz = 1 := by
    by_contra hne
    have hnone : nodeEnv.chain nodeContext.world clazz = none := if_neg hne
    rw [hnone] at hchain
    cases hchain
  obtain rfl : [nodeClass] = classes := Option.some.inj hchain
  obtain ⟨c, hc, hlookup⟩ := List.exists_of_findSome?_eq_some hid
  obtain rfl := List.mem_singleton.mp hc
  have hslot : id = 1 ∨ id = 2 := by
    obtain ⟨before, after, hfields, -⟩ := List.lookup_eq_some_iff.mp hlookup
    have hmem : (name, id) ∈ nodeClass.fields := by rw [hfields]; simp
    have hnode : nodeClass.fields = [("items", 2), ("next", 1)] := rfl
    rw [hnode] at hmem
    simp only [List.mem_cons, Prod.mk.injEq, List.not_mem_nil, or_false] at hmem
    exact hmem.symm.imp And.right And.right
  have hnode : obj = 8 ∨ obj = 48 := by
    by_contra hne
    rw [not_or] at hne
    have hobject : nodeHeap.objects obj = if obj = 24 then
        some (2, [⟨.object, 0⟩, ⟨.integer, 1⟩, ⟨.object, 40⟩])
      else if obj = 40 then some (3, [⟨.integer, 7⟩]) else none :=
      (if_neg hne.1).trans (if_neg hne.2)
    have hclass : (nodeHeap.objects obj).map Prod.fst = some 1 := hclass
    rw [hobject] at hclass
    split_ifs at hclass <;> cases hclass
  rcases hnode with rfl | rfl <;> rcases hslot with rfl | rfl <;> exact ⟨_, rfl⟩

/-- `o.next.next = 5;` for two nodes. -/
theorem assignment_nodes :
    ∃ ctx', runInstructions nodeEnv noCalls
        (chainCode nodeAsmEnv (.slot 1) ["next"] ++ [⟨.pushObj, [16]⟩, ⟨.storeFieldNamed, []⟩])
        (nodeContext.push ⟨.integer, 5⟩) (nodeFrame 48) = some (true, ctx', nodeFrame 48) ∧
      Assigns nodeAsmEnv nodeScope nextOfNext (fun obj id => (8, 1) = (obj, id)) false nodeEnv
        noCalls ⟨.integer, 5⟩ nodeContext ctx' (nodeFrame 48) (nodeFrame 48) := by
  have hassembled : (assembleExpression nodeAsmEnv (assignFive nextOfNext) nodeScope none false
      false).Ok [] () ([⟨.pushI, [5]⟩] ++ (chainCode nodeAsmEnv (.slot 1) ["next"] ++
        [⟨.pushObj, [16]⟩, ⟨.storeFieldNamed, []⟩])) := rfl
  have hfive : (assembleExpression nodeAsmEnv (.integer .integer 5) nodeScope none false true).Ok []
      () [⟨.pushI, [5]⟩] := rfl
  have hnext : List.Forall₂ FieldLink [(ValueType.unknown, Expression.var .unknown 0 "next")]
      ["next"] := .cons ⟨_, _, rfl⟩ .nil
  have hnames : Literals nodeAsmEnv nodeEnv nodeContext ["next", "next"] := by
    constructor
    · intro name hname
      obtain rfl : name = "next" := by simpa using hname
      rfl
    · intro name hname field id
      obtain rfl : name = "next" := by simpa using hname
      rintro ⟨⟩
  obtain ⟨code₁, stored, loc, hvalue, hcode, hloc, hmeets⟩ :=
    chain_assignment_iff .field hnext hassembled
  obtain rfl := (hfive.unique hvalue).2
  obtain rfl := List.append_cancel_left hcode
  obtain rfl : Location.slot 1 = loc := Option.some.inj (Eq.trans rfl hloc)
  have hfield : chainField nodeEnv nodeContext (nodeFrame 48) (.slot 1) ["next"] "next" =
      some (8, 1) := rfl
  have hreads : chainReads nodeEnv nodeContext (nodeFrame 48) (.slot 1) ["next"] = [(48, 1)] := rfl
  have hapart : FieldApart nodeEnv nodeContext (nodeFrame 48) (.slot 1) ["next"] "next" .field := by
    intro field hmem
    obtain rfl := Option.some.inj (hfield.symm.trans hmem)
    exact ⟨rfl, by rw [hreads]; decide⟩
  have hassigns := (hmeets Heap nodeEnv (heapEnv_memory _ _) nodeContext hnames node_hasSlots
    noCalls (nodeFrame 48)).1.mpr hapart ⟨.integer, 5⟩
  have hdenotes : Ending.field.Denotes nodeEnv nodeContext (nodeFrame 48) (.slot 1) ["next"]
      "next" = fun obj id => (8, 1) = (obj, id) := by
    funext obj id
    exact propext (by rw [Ending.Denotes, hfield]; exact ⟨Option.some.inj, congrArg some⟩)
  rw [hdenotes] at hassigns
  exact ⟨_, rfl, hassigns _ _ rfl⟩

/-- `o.next.next = 5;` for a node that is its own next one ends the path to it, and
    `o.items[0] = 5;` writes to the field `items` instead of the array: neither target can be
    evaluated again. -/
theorem assignment_fails :
    (∃ code loaded ctx' ctx'',
      (assembleExpression nodeAsmEnv (assignFive nextOfNext) nodeScope none false false).Ok [] ()
        code ∧
      runInstructions nodeEnv noCalls code nodeContext (nodeFrame 8) =
        some (true, ctx', nodeFrame 8) ∧
      (assembleExpression nodeAsmEnv nextOfNext nodeScope none false true).Ok [] () loaded ∧
      runInstructions nodeEnv noCalls loaded ctx' (nodeFrame 8) =
        some (false, ctx'', nodeFrame 8)) ∧
    ∃ code loaded ctx' ctx'',
      (assembleExpression nodeAsmEnv (assignFive firstItem) nodeScope none false false).Ok [] ()
        code ∧
      runInstructions nodeEnv noCalls code nodeContext (nodeFrame 8) =
        some (true, ctx', nodeFrame 8) ∧
      (nodeEnv.getValue nodeHeap 8 2 = some ⟨.object, 24⟩ ∧
        nodeEnv.getValue ctx'.world 8 2 = some ⟨.integer, 5⟩) ∧
      (nodeEnv.getValue nodeHeap 40 0 = some ⟨.integer, 7⟩ ∧
        nodeEnv.getValue ctx'.world 40 0 = some ⟨.integer, 7⟩) ∧
      (assembleExpression nodeAsmEnv firstItem nodeScope none false true).Ok [] () loaded ∧
      runInstructions nodeEnv noCalls loaded ctx' (nodeFrame 8) =
        some (false, ctx'', nodeFrame 8) :=
  ⟨⟨_, _, _, _, rfl, rfl, rfl, rfl⟩, _, _, _, _, rfl, rfl, ⟨rfl, rfl⟩, ⟨rfl, rfl⟩, rfl, rfl⟩

end B0rk
