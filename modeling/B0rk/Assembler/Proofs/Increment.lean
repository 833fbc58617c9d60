import B0rk.Assembler.Proofs.Variables

set_option autoImplicit false

/-! # Increment and decrement

A statement on a name that `getVarId` finds is one instruction; everything else loads the variable,
counts on the value stack and stores the result. The index of an array takes no part in it. -/

namespace B0rk

/-! ## Counting on the stack -/

/-- What `++` and `--` make of an integer. -/
def counted (operType : OpType) (n : Word) : Word :=
  if operType = .increment then n + 1 else n - 1

/-- The instructions between `load` and `store`. -/
def countCode (operType : OpType) (needResult : Bool) : List Instruction :=
  (if needResult then [⟨.dup, []⟩] else []) ++ [⟨.pushI, [1]⟩] ++
    (if needResult && operType = .decrement then [⟨.swap, []⟩] else []) ++
    [⟨if operType = .increment then .addI else .subI, []⟩]

/-- What they compute: a decrement without `SWAP` subtracts from 1. -/
def stackCounted (operType : OpType) (needResult : Bool) (n : Word) : Word :=
  if operType = .increment then 1 + n else if needResult then n - 1 else 1 - n

theorem stackCounted_eq {operType : OpType} {needResult : Bool}
    (h : needResult = true ∨ operType = .increment) (n : Word) :
    stackCounted operType needResult n = counted operType n := by
  unfold stackCounted counted
  split
  · exact BitVec.add_comm 1 n
  · next hop => rw [if_pos (h.resolve_right hop)]

section

variable {W : Type} {E : Env W} (exec : Execute W)

theorem run_countCode {operType : OpType} (hop : operType = .increment ∨ operType = .decrement)
    (needResult : Bool) (v : Value) (ctx : Context W) (frame : Frame) :
    runInstructions E exec (countCode operType needResult) (ctx.push v) frame =
      some (true, (if needResult then ctx.push v else ctx).push
        (Value.integer (stackCounted operType needResult v.bits)), frame) := by
  rcases hop with rfl | rfl <;> cases needResult <;> rfl

/-- Loading, counting and storing. -/
theorem run_count {operType : OpType} (hop : operType = .increment ∨ operType = .decrement)
    (needResult : Bool) {loc loc' : Location} {v : Value} {ctx : Context W} {frame : Frame}
    (h : loc.read E ctx frame = some v) :
    runInstructions E exec (loc.load ++ countCode operType needResult ++ loc'.store) ctx frame =
      runInstructions E exec loc'.store ((if needResult then ctx.push v else ctx).push
        (Value.integer (stackCounted operType needResult v.bits))) frame := by
  rw [List.append_assoc, runInstructions_append (Location.run_load exec h),
    runInstructions_append (run_countCode exec hop needResult v ctx frame)]

theorem run_incVar {id amount : Word} {v : Value} {ctx : Context W} {frame : Frame}
    (h : frame.localVars[id.toNat]? = some v) :
    runInstructions E exec [⟨.incVar, [id, amount]⟩] ctx frame =
      (Location.write E ctx frame { v with bits := v.bits + amount } (.slot id)).map
        fun r => (true, r.1, r.2) := by
  show (((frame.localVars[id.toNat]?).bind _).bind _) = ((frame.setVar id.toNat _).bind _).map _
  rw [h, Option.bind_some]
  show ((frame.setVar id.toNat { v with bits := v.bits + amount }).bind _).bind _ = _
  cases frame.setVar id.toNat { v with bits := v.bits + amount } <;> rfl

end

/-! ## What is assembled -/

section

variable {A : AsmEnv} {scope : Scope} {operType : OpType} {clazz : Word} {var : String}
  {needResult : Bool} {code code' insts : List Instruction}

theorem assembleIncrement_local {id : ℕ} (hvar : scope.getVarId A.args var = some id) :
    (assembleIncrement A scope operType clazz var none false).Ok code () code' ↔
      code ++ [⟨.incVar, [BitVec.ofNat 64 id, if operType = .increment then 1 else -1]⟩] = code' := by
  unfold assembleIncrement
  rw [hvar]
  exact pushInstruction_ok

theorem assembleIncrement_stack
    (hvar : needResult = true ∨ scope.getVarId A.args var = none) :
    (assembleIncrement A scope operType clazz var none needResult).Ok code () code' ↔
      ∃ loc loc', denoted A scope clazz var = some loc ∧ unqualified A scope var = some loc' ∧
        code ++ (loc.load ++ countCode operType needResult ++ loc'.store) = code' := by
  have hslow : assembleIncrement A scope operType clazz var none needResult = (do
      load A scope clazz var none
      pushIf needResult .dup
      pushInstruction .pushI [1]
      pushIf (needResult && operType = .decrement) .swap
      pushInstruction (if operType = .increment then .addI else .subI) []
      store A scope var none) := by
    unfold assembleIncrement
    rcases hvar with rfl | hvar
    · rfl
    · rw [hvar]
      cases needResult <;> rfl
  have hcount : countCode operType needResult = (if needResult then [⟨.dup, []⟩] else []) ++
      [⟨.pushI, [1]⟩] ++ (if needResult && operType = .decrement then [⟨.swap, []⟩] else []) ++
      [⟨if operType = .increment then .addI else .subI, []⟩] := rfl
  simp only [hslow, Attempt.bind_ok, pushIf_ok, pushInstruction_ok, load_denoted_ok,
    store_unqualified_ok, hcount]
  constructor
  · rintro ⟨-, _, ⟨loc, hloc, rfl⟩, -, _, rfl, -, _, rfl, -, _, rfl, -, _, rfl, loc', hloc', rfl⟩
    exact ⟨loc, loc', hloc, hloc', by simp only [List.append_assoc]⟩
  · rintro ⟨loc, loc', hloc, hloc', rfl⟩
    exact ⟨(), _, ⟨loc, hloc, rfl⟩, (), _, rfl, (), _, rfl, (), _, rfl, (), _, rfl, loc', hloc',
      by simp only [List.append_assoc]⟩

theorem assembleExpression_increment {operType : OpType}
    (hop : operType = .increment ∨ operType = .decrement) {target : Expression}
    (htarget : target.asVar = some (clazz, var)) (type : ValueType) (inReference : Bool) :
    assembleExpression A (.oper type operType (some target) none) scope none inReference
        needResult =
      assembleIncrement A scope operType clazz var none needResult := by
  rcases hop with rfl | rfl
  · simp only [assembleExpression, htarget, pure_bind]
  · simp only [assembleExpression, htarget, pure_bind]

end

/-! ## What the operators are for -/

/-- On a variable at a location that holds an integer, the instructions leave the next integer there
    and change nothing else; the old one is the result, if there is one. -/
def CountsVariable (operType : OpType) (needResult : Bool) (loc : Location)
    (insts : List Instruction) : Prop :=
  ∀ (W : Type) (E : Env W), E.Memory → ∀ (exec : Execute W) (ctx : Context W) (frame : Frame)
    (n : Word), loc.read E ctx frame = some (Value.integer n) →
    ∃ ctx' frame', loc.write E ctx frame (Value.integer (counted operType n)) =
        some (ctx', frame') ∧
      runInstructions E exec insts ctx frame =
        some (true, if needResult then ctx'.push (Value.integer n) else ctx', frame')

/-- On the element `i` of an array that the variable at a location refers to, they store the next
    integer in the array and change nothing else. -/
def CountsElement (operType : OpType) (needResult : Bool) (loc : Location) (i : Word)
    (insts : List Instruction) : Prop :=
  ∀ (W : Type) (E : Env W), E.Memory → ∀ (exec : Execute W) (ctx ctx' : Context W) (frame : Frame)
    (array n : Word), loc.read E ctx frame = some (Value.object array) →
    E.arrayLoad ctx array (Value.integer i) = some (true, ctx, Value.integer n) →
    E.arrayStore ctx array (Value.integer i) (Value.integer (counted operType n)) =
      some (true, ctx') →
    runInstructions E exec insts ctx frame =
      some (true, if needResult then ctx'.push (Value.integer n) else ctx', frame)

/-- A statement on a name that `getVarId` finds: it is that local variable. A statement on another
    name: `load` and `store` find the same, and it is not a decrement. With a result: `load` and
    `store` find the same. -/
def IncrementFits (A : AsmEnv) (scope : Scope) (operType : OpType) (clazz : Word) (var : String)
    (needResult : Bool) : Prop :=
  match needResult, scope.getVarId A.args var with
  | false, some id => denoted A scope clazz var = some (.slot (BitVec.ofNat 64 id))
  | false, none => LaddersMeet A scope clazz var ∧ operType = .increment
  | true, _ => LaddersMeet A scope clazz var

section

variable {operType : OpType} {needResult : Bool} {loc : Location}

theorem integer_bits (n amount : Word) :
    ({ Value.integer n with bits := (Value.integer n).bits + amount } : Value) =
      Value.integer (n + amount) := rfl

/-- `INC_VAR` counts its variable. -/
theorem incVar_counts (hop : operType = .increment ∨ operType = .decrement) (id : Word) :
    CountsVariable operType false (.slot id)
      [⟨.incVar, [id, if operType = .increment then 1 else -1]⟩] := by
  intro W E hE exec ctx frame n hread
  obtain ⟨ctx', frame', hwrite⟩ :=
    Location.write_of_read hE hread (Value.integer (counted operType n))
  refine ⟨ctx', frame', hwrite, ?_⟩
  have hcounted : n + (if operType = .increment then 1 else -1) = counted operType n := by
    rcases hop with rfl | rfl
    · rfl
    · exact (BitVec.sub_eq_add_neg n 1).symm
  rw [run_incVar exec hread, integer_bits, hcounted, hwrite]
  rfl

/-- The stack counts a variable that is stored where it has been loaded from. -/
theorem stack_counts (hop : operType = .increment ∨ operType = .decrement)
    (h : needResult = true ∨ operType = .increment) :
    CountsVariable operType needResult loc
      (loc.load ++ countCode operType needResult ++ loc.store) := by
  intro W E hE exec ctx frame n hread
  obtain ⟨ctx', frame', hwrite⟩ :=
    Location.write_of_read hE hread (Value.integer (counted operType n))
  refine ⟨ctx', frame', hwrite, ?_⟩
  have hbits : (Value.integer n).bits = n := rfl
  rw [run_count exec hop needResult hread, hbits, stackCounted_eq h, Location.run_store]
  cases needResult with
  | false => exact hwrite
  | true => exact Location.write_push _ hwrite

end

/-! ## A state in which all variables hold one value -/

section

variable (N : ℕ) (v : Value)

/-- All slots of all objects and all static fields hold `v`. -/
def uniformHeap : Heap := ⟨fun _ => some (1, List.replicate N v), fun _ => List.replicate N v⟩

def uniformContext : Context Heap := ⟨[], false, Value.zero, uniformHeap N v⟩

def uniformFrame : Frame :=
  { addr := 1, code := ⟨1, 1, fun _ => none⟩, running := true, pc := 0
    flags := ⟨false, false, false⟩, localVars := List.replicate N v, handlerStack := [] }

/-- No classes and no strings. -/
def plainHeapEnv : Env Heap := heapEnv (fun _ => none) (fun _ => none)

theorem plainHeapEnv_memory : plainHeapEnv.Memory := heapEnv_memory _ _

variable {N v}

theorem uniform_getValue {obj : Word} {slot : ℕ} (hobj : obj ≠ 0) (hslot : slot < N) :
    (uniformHeap N v).getValue obj slot = some v := by
  unfold Heap.getValue uniformHeap
  rw [if_neg hobj, Option.bind_some, List.getElem?_replicate, if_pos hslot]

theorem uniform_read (hN : ∀ w : Word, w.toNat < N) (hv : v.bits ≠ 0) (loc : Location) :
    loc.read plainHeapEnv (uniformContext N v) (uniformFrame N v) = some v := by
  have hget (w : Word) : (List.replicate N v)[w.toNat]? = some v := by
    rw [List.getElem?_replicate, if_pos (hN w)]
  cases loc with
  | slot id => exact hget id
  | field id =>
    show ((List.replicate N v)[(0 : Word).toNat]?).bind _ = _
    rw [hget]
    exact uniform_getValue hv (hN id)
  | static clazz id => exact hget id

end

/-! ## Variables -/

section

variable {A : AsmEnv} {scope : Scope} {operType : OpType} {clazz : Word} {var : String}
  {needResult : Bool} {loc loc' : Location} {insts : List Instruction} {N : ℕ}

/-- Where everything holds 2, a variable that is counted holds something else afterwards. -/
theorem CountsVariable.uniform (h : CountsVariable operType needResult loc insts)
    (hN : ∀ w : Word, w.toNat < N) (exec : Execute Heap) :
    ∃ ctx' frame', runInstructions plainHeapEnv exec insts (uniformContext N (Value.integer 2))
        (uniformFrame N (Value.integer 2)) = some (true, ctx', frame') ∧
      loc.read plainHeapEnv ctx' frame' = some (Value.integer (counted operType 2)) := by
  have hread := uniform_read hN (by decide : (Value.integer 2).bits ≠ 0) loc
  obtain ⟨ctx', frame', hwrite, hrun⟩ := h _ plainHeapEnv plainHeapEnv_memory exec _ _ 2 hread
  refine ⟨_, _, hrun, ?_⟩
  have hread' := Location.read_write plainHeapEnv_memory hwrite
  cases needResult with
  | false => exact hread'
  | true => exact (Location.read_push loc _).trans hread'

theorem counted_ne (hop : operType = .increment ∨ operType = .decrement) :
    counted operType 2 ≠ 2 := by
  rcases hop with rfl | rfl <;> decide

/-- A slot that is not that of the variable. -/
theorem incVar_misses (hop : operType = .increment ∨ operType = .decrement) {id amount : Word}
    (hne : loc ≠ .slot id) (hfield : ∀ i, loc ≠ .field i) :
    ¬CountsVariable operType false loc [⟨.incVar, [id, amount]⟩] := by
  intro h
  obtain ⟨N, hN⟩ : ∃ N, ∀ w : Word, w.toNat < N := ⟨2 ^ 64, fun w => w.isLt⟩
  obtain ⟨ctx', frame', hrun, hread⟩ := h.uniform hN (fun _ _ _ _ => none)
  have hread₀ := uniform_read (v := Value.integer 2) hN (by decide)
  rw [run_incVar _ (hread₀ (.slot id))] at hrun
  obtain ⟨⟨ctx₁, frame₁⟩, hwrite, heq⟩ := Option.map_eq_some_iff.mp hrun
  obtain ⟨-, rfl, rfl⟩ := heq
  rw [Location.read_write_other plainHeapEnv_memory hne (fun ⟨i, hi⟩ => absurd hi (hfield i))
    hwrite, hread₀] at hread
  exact counted_ne hop (Value.mk.inj (Option.some.inj hread)).2.symm

/-- The result is stored elsewhere. -/
theorem stack_misses (hop : operType = .increment ∨ operType = .decrement) (hne : loc ≠ loc')
    (hfield : ∀ i, loc ≠ .field i) :
    ¬CountsVariable operType needResult loc
      (loc.load ++ countCode operType needResult ++ loc'.store) := by
  intro h
  obtain ⟨N, hN⟩ : ∃ N, ∀ w : Word, w.toNat < N := ⟨2 ^ 64, fun w => w.isLt⟩
  obtain ⟨ctx', frame', hrun, hread⟩ := h.uniform hN (fun _ _ _ _ => none)
  have hread₀ := uniform_read (v := Value.integer 2) hN (by decide)
  rw [run_count _ hop needResult (hread₀ loc), Location.run_store] at hrun
  rw [Location.read_write_other plainHeapEnv_memory hne (fun ⟨i, hi⟩ => absurd hi (hfield i))
    hrun] at hread
  have hbefore : loc.read plainHeapEnv (if needResult = true then
      (uniformContext N (Value.integer 2)).push (Value.integer 2)
      else uniformContext N (Value.integer 2)) (uniformFrame N (Value.integer 2)) =
      some (Value.integer 2) := by
    cases needResult with
    | false => exact hread₀ loc
    | true => exact (Location.read_push loc _).trans (hread₀ loc)
  rw [hbefore] at hread
  exact counted_ne hop (Value.mk.inj (Option.some.inj hread)).2.symm

/-- The statement `v--` leaves `1 - n`. -/
theorem stack_decrement_statement :
    ¬CountsVariable .decrement false loc (loc.load ++ countCode .decrement false ++ loc.store) := by
  intro h
  obtain ⟨N, hN⟩ : ∃ N, ∀ w : Word, w.toNat < N := ⟨2 ^ 64, fun w => w.isLt⟩
  obtain ⟨ctx', frame', hrun, hread⟩ := h.uniform hN (fun _ _ _ _ => none)
  have hread₀ := uniform_read (v := Value.integer 2) hN (by decide)
  rw [run_count _ (.inr rfl) false (hread₀ loc), Location.run_store] at hrun
  rw [Location.read_write plainHeapEnv_memory hrun] at hread
  have hbits := (Value.mk.inj (Option.some.inj hread)).2
  exact absurd hbits (by decide)

/-- Where the ladders do not meet, `load` finds a static field. -/
theorem denoted_static (hmeet : ¬LaddersMeet A scope clazz var)
    (hloc : denoted A scope clazz var = some loc) (i : Word) : loc ≠ .field i := by
  have hclazz : clazz ≠ 0 := fun hclazz => hmeet (.inl hclazz)
  rw [denoted, if_neg hclazz] at hloc
  obtain ⟨chain, -, hloc⟩ := Option.bind_eq_some_iff.mp hloc
  obtain ⟨id, -, hloc⟩ := Option.bind_eq_some_iff.mp hloc
  obtain rfl := Option.some.inj hloc
  exact Location.noConfusion

/-- A name that `getVarId` finds is not that of a field. -/
theorem denoted_local {id : ℕ} (hvar : scope.getVarId A.args var = some id)
    (hloc : denoted A scope clazz var = some loc) (i : Word) : loc ≠ .field i := by
  by_cases hclazz : clazz = 0
  · obtain ⟨id', hlocal⟩ : ∃ id', localId A scope var = some id' := by
      unfold localId
      split
      · exact ⟨0, rfl⟩
      · exact ⟨id, hvar⟩
    rw [denoted, if_pos hclazz, unqualified, hlocal] at hloc
    obtain rfl := Option.some.inj hloc
    exact Location.noConfusion
  · refine denoted_static (fun hmeet => ?_) hloc i
    obtain ⟨hlocal, -⟩ := hmeet.resolve_left hclazz
    unfold localId at hlocal
    split at hlocal
    · cases hlocal
    · rw [hvar] at hlocal
      cases hlocal

theorem countsVariable_iff (hop : operType = .increment ∨ operType = .decrement) (hA : A.OwnClass)
    (hloc : denoted A scope clazz var = some loc) {code : List Instruction}
    (h : (assembleIncrement A scope operType clazz var none needResult).Ok code ()
      (code ++ insts)) :
    CountsVariable operType needResult loc insts ↔
      IncrementFits A scope operType clazz var needResult := by
  by_cases hstack : needResult = true ∨ scope.getVarId A.args var = none
  · obtain ⟨loc₀, loc', hloc₀, hloc', hcode⟩ := (assembleIncrement_stack hstack).mp h
    obtain rfl := List.append_cancel_left hcode
    obtain rfl := Option.some.inj (hloc.symm.trans hloc₀)
    have hmeet := denoted_eq_iff hA hloc hloc'
    have hfits : IncrementFits A scope operType clazz var needResult ↔
        LaddersMeet A scope clazz var ∧ (needResult = true ∨ operType = .increment) := by
      unfold IncrementFits
      cases needResult with
      | true => simp
      | false => simp [hstack.resolve_left Bool.false_ne_true]
    rw [hfits, ← hmeet]
    constructor
    · intro hcounts
      have hsame : loc = loc' := by
        by_contra hne
        exact stack_misses hop hne (denoted_static (fun h => hne (hmeet.mpr h)) hloc) hcounts
      refine ⟨hsame, ?_⟩
      subst hsame
      by_contra hno
      obtain ⟨hresult, hinc⟩ := not_or.mp hno
      rw [Bool.not_eq_true] at hresult
      obtain rfl := hop.resolve_left hinc
      subst hresult
      exact stack_decrement_statement hcounts
    · rintro ⟨rfl, hcounts⟩
      exact stack_counts hop hcounts
  · obtain ⟨hresult, hvar⟩ := not_or.mp hstack
    rw [Bool.not_eq_true] at hresult
    subst hresult
    obtain ⟨id, hvar⟩ := Option.ne_none_iff_exists'.mp hvar
    obtain rfl := List.append_cancel_left ((assembleIncrement_local hvar).mp h)
    unfold IncrementFits
    rw [hvar]
    dsimp only
    rw [hloc, Option.some.injEq]
    constructor
    · intro hcounts
      by_contra hne
      exact incVar_misses hop hne (denoted_local hvar hloc) hcounts
    · rintro rfl
      exact incVar_counts hop _

end

/-! ## Arrays -/

/-- A heap in which everything but an array at 4096 and its data at 8192 refers to the array. -/
def arrayHeap (N : ℕ) : Heap where
  objects := fun obj =>
    if obj = 8192 then some (1, List.replicate N (Value.integer 5))
    else if obj = 4096 then some (1, [Value.zero, Value.zero, Value.object 8192])
    else some (1, List.replicate N (Value.object 4096))
  statics := fun _ => List.replicate N (Value.object 4096)

def arrayContext (N : ℕ) : Context Heap := ⟨[], false, Value.zero, arrayHeap N⟩

/-- A frame whose variables refer to the array, and whose instance is given. -/
def arrayFrame (N : ℕ) (this : Word) : Frame :=
  { uniformFrame N (Value.object 4096) with
    localVars := (List.replicate N (Value.object 4096)).set 0 (Value.object this) }

section

variable {operType : OpType} {needResult : Bool} {loc : Location} {insts : List Instruction} {N : ℕ}

/-- The instance with which a location holds the array. -/
def Location.holder : Location → Word
  | .slot id => if id = 0 then 4096 else 16
  | _ => 16

theorem arrayFrame_slot (hN : ∀ w : Word, w.toNat < N) (this id : Word) :
    (arrayFrame N this).localVars[id.toNat]? =
      some (Value.object (if id = 0 then this else 4096)) := by
  show ((List.replicate N (Value.object 4096)).set 0 (Value.object this))[id.toNat]? = _
  rw [List.getElem?_set]
  by_cases hid : id = 0
  · subst hid
    have h0 : 0 < (List.replicate N (Value.object 4096)).length := by
      rw [List.length_replicate]
      exact hN 0
    show (if 0 = 0 then _ else _) = _
    rw [if_pos rfl, if_pos h0, if_pos rfl]
  · have hne : 0 ≠ id.toNat := fun h => hid (BitVec.eq_of_toNat_eq h.symm)
    rw [if_neg hne, if_neg hid, List.getElem?_replicate, if_pos (hN id)]

theorem arrayHeap_read (hN : ∀ w : Word, w.toNat < N) (loc : Location) :
    loc.read plainHeapEnv (arrayContext N) (arrayFrame N loc.holder) =
      some (Value.object 4096) := by
  cases loc with
  | slot id =>
    refine (arrayFrame_slot hN _ id).trans ?_
    rw [Location.holder]
    split <;> rfl
  | field id =>
    show ((arrayFrame N 16).localVars[(0 : Word).toNat]?).bind _ = _
    rw [arrayFrame_slot hN]
    show Heap.getValue (arrayHeap N) 16 id.toNat = _
    show (List.replicate N (Value.object 4096))[id.toNat]? = _
    rw [List.getElem?_replicate, if_pos (hN id)]
  | static clazz id =>
    show (List.replicate N (Value.object 4096))[id.toNat]? = _
    rw [List.getElem?_replicate, if_pos (hN id)]

/-- The heap with another element `i`. -/
def arrayStored (N : ℕ) (i v : Word) : Context Heap :=
  ⟨[], false, Value.zero, { arrayHeap N with
    objects := fun obj =>
      if obj = 8192 then some (1, (List.replicate N (Value.integer 5)).set i.toNat (Value.integer v))
      else (arrayHeap N).objects obj }⟩

theorem arrayHeap_load (hN : ∀ w : Word, w.toNat < N) (i : Word) :
    plainHeapEnv.arrayLoad (arrayContext N) 4096 (Value.integer i) =
      some (true, arrayContext N, Value.integer 5) := by
  show ((List.replicate N (Value.integer 5))[i.toNat]?).bind _ = _
  rw [List.getElem?_replicate, if_pos (hN i)]
  rfl

theorem arrayHeap_store (hN : ∀ w : Word, w.toNat < N) (i v : Word) :
    plainHeapEnv.arrayStore (arrayContext N) 4096 (Value.integer i) (Value.integer v) =
      some (true, arrayStored N i v) := by
  show (if i.toNat < (List.replicate N (Value.integer 5)).length then _ else _ : Option Heap).bind _
    = _
  rw [List.length_replicate, if_pos (hN i)]
  rfl

/-- No variable of the frame holds an integer, whatever the element is. -/
theorem arrayStored_read (hN : ∀ w : Word, w.toNat < N) {i v this : Word}
    (hthis : this = 4096 ∨ this = 16) {u : Value}
    (h : loc.read plainHeapEnv (arrayStored N i v) (arrayFrame N this) = some u) :
    u.type = .integer → False := by
  cases loc with
  | slot id =>
    obtain rfl := Option.some.inj ((arrayFrame_slot hN this id).symm.trans h)
    exact fun h => by cases h
  | field id =>
    obtain ⟨first, hfirst, h⟩ := Option.bind_eq_some_iff.mp h
    obtain rfl := Option.some.inj ((arrayFrame_slot hN this 0).symm.trans hfirst)
    replace h : (arrayStored N i v).world.getValue this id.toNat = some u := h
    rcases hthis with rfl | rfl
    · obtain ⟨clazz, values, -, hobj, hget⟩ := Heap.getValue_some h
      obtain ⟨-, rfl⟩ := Prod.mk.inj (Option.some.inj hobj)
      have hmem := List.mem_of_getElem? hget
      simp only [List.mem_cons, List.not_mem_nil, or_false] at hmem
      rcases hmem with rfl | rfl | rfl <;> exact fun h => by cases h
    · obtain ⟨clazz, values, -, hobj, hget⟩ := Heap.getValue_some h
      obtain ⟨-, rfl⟩ := Prod.mk.inj (Option.some.inj hobj)
      obtain rfl := List.eq_of_mem_replicate (List.mem_of_getElem? hget)
      exact fun h => by cases h
  | static clazz id =>
    obtain rfl := List.eq_of_mem_replicate (List.mem_of_getElem? h)
    exact fun h => by cases h

theorem holder_cases (loc : Location) : loc.holder = 4096 ∨ loc.holder = 16 := by
  cases loc with
  | slot id =>
    rw [Location.holder]
    split
    · exact .inl rfl
    · exact .inr rfl
  | field id => exact .inr rfl
  | static clazz id => exact .inr rfl

/-- What the operators do to an element of the array. -/
theorem CountsElement.array {i : Word} (h : CountsElement operType needResult loc i insts)
    (hN : ∀ w : Word, w.toNat < N) (exec : Execute Heap) :
    runInstructions plainHeapEnv exec insts (arrayContext N) (arrayFrame N loc.holder) =
      some (true, if needResult then (arrayStored N i (counted operType 5)).push (Value.integer 5)
        else arrayStored N i (counted operType 5), arrayFrame N loc.holder) :=
  h _ plainHeapEnv plainHeapEnv_memory exec _ _ _ _ _ (arrayHeap_read hN loc)
    (arrayHeap_load hN i) (arrayHeap_store hN i _)

/-- `INC_VAR` moves the reference to the array. -/
theorem incVar_element (i id : Word) {amount : Word} (hamount : amount ≠ 0) :
    ¬CountsElement operType false loc i [⟨.incVar, [id, amount]⟩] := by
  intro h
  obtain ⟨N, hN⟩ : ∃ N, ∀ w : Word, w.toNat < N := ⟨2 ^ 64, fun w => w.isLt⟩
  have hrun := h.array hN (fun _ _ _ _ => none)
  have hslot := arrayFrame_slot hN loc.holder id
  rw [run_incVar _ hslot] at hrun
  obtain ⟨⟨ctx₁, frame₁⟩, hwrite, heq⟩ := Option.map_eq_some_iff.mp hrun
  obtain ⟨-, rfl, rfl⟩ := heq
  have hread := Location.read_write plainHeapEnv_memory hwrite
  have hbits := (Value.mk.inj (Option.some.inj (hslot.symm.trans hread))).2
  exact hamount (BitVec.add_right_eq_self.mp hbits.symm)

/-- The stack stores an integer in a variable. -/
theorem stack_element (hop : operType = .increment ∨ operType = .decrement) (loc' : Location)
    (i : Word) :
    ¬CountsElement operType needResult loc i
      (loc.load ++ countCode operType needResult ++ loc'.store) := by
  intro h
  obtain ⟨N, hN⟩ : ∃ N, ∀ w : Word, w.toNat < N := ⟨2 ^ 64, fun w => w.isLt⟩
  have hrun := h.array hN (fun _ _ _ _ => none)
  rw [run_count _ hop needResult (arrayHeap_read hN loc), Location.run_store] at hrun
  have hread := Location.read_write plainHeapEnv_memory hrun
  have hread' : loc'.read plainHeapEnv (arrayStored N i (counted operType 5))
      (arrayFrame N loc.holder) = some (Value.integer
        (stackCounted operType needResult (Value.object 4096).bits)) := by
    cases needResult with
    | false => exact hread
    | true => exact (Location.read_push loc' _).symm.trans hread
  exact arrayStored_read hN (holder_cases loc) hread' rfl

end

/-! ## The operators -/

section

variable {A : AsmEnv} {scope : Scope} {operType : OpType} {clazz : Word} {var : String}
  {needResult : Bool} {loc : Location} {code insts : List Instruction}

theorem not_countsElement (hop : operType = .increment ∨ operType = .decrement) (i : Word)
    (hloc : denoted A scope clazz var = some loc)
    (h : (assembleIncrement A scope operType clazz var none needResult).Ok code ()
      (code ++ insts)) :
    ¬CountsElement operType needResult loc i insts := by
  by_cases hstack : needResult = true ∨ scope.getVarId A.args var = none
  · obtain ⟨loc₀, loc', hloc₀, -, hcode⟩ := (assembleIncrement_stack hstack).mp h
    obtain rfl := List.append_cancel_left hcode
    obtain rfl := Option.some.inj (hloc.symm.trans hloc₀)
    exact stack_element hop loc' i
  · obtain ⟨hresult, hvar⟩ := not_or.mp hstack
    rw [Bool.not_eq_true] at hresult
    subst hresult
    obtain ⟨id, hvar⟩ := Option.ne_none_iff_exists'.mp hvar
    obtain rfl := List.append_cancel_left ((assembleIncrement_local hvar).mp h)
    refine incVar_element i _ ?_
    split <;> decide

/-- **`++` and `--`.** On a variable they do what they are for, with or without a result, exactly
    when `IncrementFits`; on an element of an array they never do, whatever the index is. -/
theorem increment_iff (hop : operType = .increment ∨ operType = .decrement) (hA : A.OwnClass)
    (hloc : denoted A scope clazz var = some loc) (type type' : ValueType) (inReference : Bool) :
    ((assembleExpression A (.oper type operType (some (.var type' clazz var)) none) scope none
        inReference needResult).Ok code () (code ++ insts) →
      (CountsVariable operType needResult loc insts ↔
        IncrementFits A scope operType clazz var needResult)) ∧
    ∀ (index : Expression) (i : Word),
      (assembleExpression A (.oper type operType (some (.array type' clazz var index)) none) scope
        none inReference needResult).Ok code () (code ++ insts) →
      ¬CountsElement operType needResult loc i insts := by
  constructor
  · intro h
    rw [assembleExpression_increment hop rfl] at h
    exact countsVariable_iff hop hA hloc h
  · intro index i h
    rw [assembleExpression_increment hop rfl] at h
    exact not_countsElement hop i hloc h

end

/-! ## A field and an array -/

/-- A method of a class `Counter` with a field `f`. -/
def counterEnv : AsmEnv :=
  { emptyEnv with
    clazz := some (1, [(Class.create none "Counter").addField "f"])
    chain := fun _ => some [(Class.create none "Counter").addField "f"] }

theorem counterEnv_ownClass : counterEnv.OwnClass := by
  intro address chain h
  obtain ⟨-, rfl⟩ := Prod.mk.inj (Option.some.inj h)
  rfl

/-- A block with a variable `a`. -/
def oneVariableScope : Scope := [.mk true 1 2 ["a"] []]

/-- `a++;` counts. -/
theorem increment_local :
    CountsVariable .increment false (.slot 1) [⟨.incVar, [1, 1]⟩] := by
  have hassembled : (assembleExpression counterEnv (.oper .unknown .increment
      (some (.var .unknown 0 "a")) none) oneVariableScope none false false).Ok [] ()
      ([] ++ [⟨.incVar, [1, 1]⟩]) := rfl
  have hloc : denoted counterEnv oneVariableScope 0 "a" = some (.slot 1) := rfl
  exact ((increment_iff (.inl rfl) counterEnv_ownClass hloc .unknown .unknown false).1
    hassembled).mpr rfl

/-- `f--;` leaves `1 - n` in the field, and `a[0]++;` moves the reference to the array. -/
theorem increment_fails :
    ((assembleExpression counterEnv (.oper .unknown .decrement (some (.var .unknown 0 "f")) none)
        oneVariableScope none false false).Ok [] ()
        [⟨.loadVar, [0]⟩, ⟨.loadField, [1]⟩, ⟨.pushI, [1]⟩, ⟨.subI, []⟩, ⟨.loadVar, [0]⟩,
          ⟨.storeField, [1]⟩] ∧
      ¬CountsVariable .decrement false (.field 1)
        [⟨.loadVar, [0]⟩, ⟨.loadField, [1]⟩, ⟨.pushI, [1]⟩, ⟨.subI, []⟩, ⟨.loadVar, [0]⟩,
          ⟨.storeField, [1]⟩]) ∧
    (assembleExpression counterEnv (.oper .unknown .increment
        (some (.array .unknown 0 "a" (.integer .integer 0))) none)
        oneVariableScope none false false).Ok [] () [⟨.incVar, [1, 1]⟩] ∧
      ¬CountsElement .increment false (.slot 1) 0 [⟨.incVar, [1, 1]⟩] :=
  ⟨⟨rfl, stack_decrement_statement⟩, rfl, incVar_element 0 1 (by decide)⟩

end B0rk
