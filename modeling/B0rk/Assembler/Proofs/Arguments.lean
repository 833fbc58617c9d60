import B0rk.Assembler.Proofs.History
import B0rk.Executor.Host
import B0rk.Executor.Proofs.Unwind
import B0rk.Parser.Proofs.Slots
import Mathlib.Data.List.Basic
import Mathlib.Data.List.Induction

set_option autoImplicit false

/-! # Arguments

`Executor::run` takes as many arguments off the stack as the caller says and numbers them from slot 1
on. How many slots there are, and which of them belong to parameters, is up to the function that is
called. -/

namespace B0rk

variable {W : Type}

/-! ## Binding -/

theorem Context.pushArgs_append (ctx : Context W) (args : List Value) (v : Value) :
    ctx.pushArgs (args ++ [v]) = (ctx.pushArgs args).push v :=
  List.foldl_append

/-- The arguments go to the slots behind the first one. -/
theorem bindArgs_pushArgs {args locals : List Value} (h : args.length < locals.length)
    (ctx : Context W) :
    bindArgs args.length locals (ctx.pushArgs args) =
      some (locals.take 1 ++ args ++ locals.drop (args.length + 1), ctx) := by
  induction args using List.reverseRecOn generalizing locals with
  | nil =>
    show some (locals, ctx) = _
    rw [List.append_nil, List.length_nil, List.take_append_drop]
  | append_singleton args v ih =>
    rw [List.length_append, List.length_singleton] at h
    have hpop : ((ctx.pushArgs args).push v).pop = some (v, ctx.pushArgs args) := rfl
    have hset : args.length < (locals.set (args.length + 1) v).length := by
      rw [List.length_set]
      omega
    have htake : (locals.set (args.length + 1) v).take 1 = locals.take 1 := by
      rw [List.take_set, List.set_eq_of_length_le (by rw [List.length_take]; omega)]
    have hdrop : (locals.set (args.length + 1) v).drop (args.length + 1) =
        v :: locals.drop (args.length + 2) := by
      rw [List.drop_eq_getElem_cons (by rw [List.length_set]; exact h), List.getElem_set_self,
        List.drop_set, if_pos (Nat.lt_succ_self _)]
    rw [List.length_append, List.length_singleton, Context.pushArgs_append, bindArgs, hpop]
    simp only [Option.bind_eq_bind, Option.bind_some, if_pos h]
    rw [ih hset, htake, hdrop]
    simp

/-- An argument behind the last slot is written outside the frame. -/
theorem bindArgs_outside {args locals : List Value} (h : locals.length ≤ args.length)
    (hlocals : 0 < locals.length) (ctx : Context W) :
    bindArgs args.length locals (ctx.pushArgs args) = none := by
  obtain ⟨args, v, rfl⟩ : ∃ args' v, args = args' ++ [v] :=
    (List.eq_nil_or_concat' args).resolve_left fun hnil => by
      rw [hnil, List.length_nil] at h
      omega
  rw [List.length_append, List.length_singleton] at h
  have hpop : ((ctx.pushArgs args).push v).pop = some (v, ctx.pushArgs args) := rfl
  rw [List.length_append, List.length_singleton, Context.pushArgs_append, bindArgs, hpop]
  simp only [Option.bind_eq_bind, Option.bind_some, if_neg (Nat.not_lt.mpr h)]

/-- The frame of a call with the given arguments. -/
def Frame.called (E : Env W) (obj : Word) (code : Code) (args : List Value) (ctx : Context W) :
    Frame :=
  { addr := E.frameAddr (ctx.pushArgs args), code := code, running := true, pc := 0
    flags := ⟨false, false, false⟩
    localVars :=
      Value.object obj :: args ++ List.replicate (code.localVars - (args.length + 1)) Value.zero
    handlerStack := [] }

theorem enter_pushArgs {E : Env W} {obj : Word} {code : Code} {args : List Value}
    (h : args.length < code.localVars) (ctx : Context W) :
    enter E obj code args.length (ctx.pushArgs args) =
      some (ctx.push (Frame.called E obj code args ctx).marker,
        Frame.called E obj code args ctx) := by
  obtain ⟨n, hn⟩ := Nat.exists_eq_succ_of_ne_zero (Nat.ne_zero_of_lt h)
  have hset : (List.replicate code.localVars Value.zero).set 0 (Value.object obj) =
      Value.object obj :: List.replicate n Value.zero := by
    rw [hn]
    rfl
  have hlength : (Value.object obj :: List.replicate n Value.zero).length = code.localVars := by
    rw [List.length_cons, List.length_replicate, hn]
  have hbind := bindArgs_pushArgs (hlength ▸ h) ctx
  have hlocals : (Value.object obj :: List.replicate n Value.zero).take 1 ++ args ++
      (Value.object obj :: List.replicate n Value.zero).drop (args.length + 1) =
      Value.object obj :: args ++
        List.replicate (code.localVars - (args.length + 1)) Value.zero := by
    rw [List.drop_succ_cons, List.drop_replicate, hn, Nat.succ_sub_succ]
    rfl
  unfold enter
  dsimp only
  rw [if_neg (by rw [List.length_replicate]; omega), hset, hbind, hlocals]
  rfl

theorem enter_outside {E : Env W} {obj : Word} {code : Code} {args : List Value}
    (h : code.localVars ≤ args.length) (ctx : Context W) :
    enter E obj code args.length (ctx.pushArgs args) = none := by
  unfold enter
  dsimp only
  rw [List.length_replicate]
  split
  · rfl
  · next hne =>
    have hlength : ((List.replicate code.localVars Value.zero).set 0 (Value.object obj)).length =
        code.localVars := by rw [List.length_set, List.length_replicate]
    rw [bindArgs_outside (by rw [hlength]; exact h)
      (by rw [hlength]; exact Nat.pos_of_ne_zero hne)]
    rfl

/-- What the slots of a call hold: the instance, the arguments, and nothing. -/
theorem called_slot (E : Env W) (obj : Word) {code : Code} {args : List Value}
    (h : args.length < code.localVars) (ctx : Context W) {slot : ℕ}
    (hslot : 0 < slot) (hlt : slot < code.localVars) :
    (Frame.called E obj code args ctx).localVars[slot]? = some (args[slot - 1]?.getD Value.zero) := by
  obtain ⟨i, rfl⟩ := Nat.exists_eq_succ_of_ne_zero (Nat.ne_zero_of_lt hslot)
  show (args ++ List.replicate (code.localVars - (args.length + 1)) Value.zero)[i]? = _
  rw [Nat.succ_sub_one]
  by_cases hi : i < args.length
  · rw [List.getElem?_append_left hi, List.getElem?_eq_getElem hi]
    rfl
  · rw [List.getElem?_append_right (Nat.le_of_not_lt hi), List.getElem?_replicate,
      if_pos (by omega), List.getElem?_eq_none (Nat.le_of_not_lt hi)]
    rfl

/-! ## Declared variables -/

/-- A slot of a variable that is declared in a function body, at any depth. -/
def DeclaredSlot (f : ScriptFunction) (slot : ℕ) : Prop :=
  ∃ block parents, InBody f.code (block :: parents) ∧ block.startingVarId ≤ slot ∧
    slot < block.startingVarId + block.vars.length

theorem blocks_sizeOf {block child : CodeBlock} (hc : child ∈ block.blocks) :
    sizeOf child < sizeOf block := by
  obtain ⟨linked, start, max, vars, code⟩ := block
  obtain ⟨expr, he, hc⟩ := List.mem_flatMap.mp hc
  have hexpr : sizeOf expr < sizeOf code := List.sizeOf_lt_of_mem he
  have hchild : sizeOf child < sizeOf expr := by
    cases expr with
    | ifExpr test trueBlock falseBlock =>
      rcases List.mem_cons.mp hc with rfl | hc
      · simp only [Expression.ifExpr.sizeOf_spec]
        omega
      · obtain rfl := Option.mem_toList.mp hc
        simp only [Expression.ifExpr.sizeOf_spec, Option.some.sizeOf_spec]
        omega
    | forExpr init test inc body =>
      obtain rfl := List.mem_singleton.mp hc
      simp only [Expression.forExpr.sizeOf_spec]
      omega
    | tryExpr tryBlock var catchBlock =>
      rcases List.mem_cons.mp hc with rfl | hc
      · simp only [Expression.tryExpr.sizeOf_spec]
        omega
      · obtain rfl := List.mem_singleton.mp hc
        simp only [Expression.tryExpr.sizeOf_spec]
        omega
    | _ => cases hc
  simp only [CodeBlock.mk.sizeOf_spec]
  have hcode : sizeOf child < sizeOf code := Nat.lt_trans hchild hexpr
  omega

theorem foldl_max_mem (blocks : List CodeBlock) (id : ℕ) :
    (blocks.foldl (fun max child => if child.maxVarId > max then child.maxVarId else max) id = id) ∨
      ∃ child ∈ blocks, child.maxVarId =
        blocks.foldl (fun max child => if child.maxVarId > max then child.maxVarId else max) id := by
  induction blocks generalizing id with
  | nil => exact .inl rfl
  | cons b blocks ih =>
    rw [List.foldl_cons]
    rcases ih (if b.maxVarId > id then b.maxVarId else id) with heq | ⟨child, hc, heq⟩
    · rw [heq]
      split
      · exact .inr ⟨b, List.mem_cons_self .., rfl⟩
      · exact .inl rfl
    · exact .inr ⟨child, List.mem_cons_of_mem _ hc, heq⟩

/-- `m_maxVarId` is that of a linked block below, or the block has no such slots below it. -/
theorem setStartingVarId_max (id : ℕ) (block : CodeBlock) :
    (block.setStartingVarId id).maxVarId = id + block.vars.length ∨
      ∃ child ∈ (block.setStartingVarId id).childBlocks,
        child.maxVarId = (block.setStartingVarId id).maxVarId := by
  cases block
  exact foldl_max_mem _ _

/-- No slot of a numbered block is left out. -/
theorem slot_covered {body : CodeBlock} {slot : ℕ} (n : ℕ) :
    ∀ {id : ℕ} {linked : Bool} {parsed : CodeBlock} {parents : Scope}, Parsed linked parsed →
      InBody body (parsed.setStartingVarId id :: parents) →
      sizeOf (parsed.setStartingVarId id) < n → id ≤ slot →
      slot < (parsed.setStartingVarId id).maxVarId →
      ∃ block parents, InBody body (block :: parents) ∧ block.startingVarId ≤ slot ∧
        slot < block.startingVarId + block.vars.length := by
  induction n with
  | zero => intro _ _ _ _ _ _ hsize; omega
  | succ n ih =>
    intro id linked parsed parents hparsed hin hsize hid hlt
    by_cases hown : slot < id + parsed.vars.length
    · refine ⟨_, parents, hin, ?_, ?_⟩
      · rw [setStartingVarId_start]
        exact hid
      · rw [setStartingVarId_start, setStartingVarId_vars]
        exact hown
    · rcases setStartingVarId_max id parsed with hmax | ⟨child, hc, hmax⟩
      · omega
      · obtain ⟨hblock, hlinked⟩ := List.mem_filter.mp hc
        obtain ⟨expr, he, hce⟩ := List.mem_flatMap.mp hblock
        obtain ⟨parsed', hparsed', hchild⟩ := numbered_blocks hparsed he hce
        have htry : expr.isTry = false := by
          cases htry : expr.isTry with
          | false => rfl
          | true =>
            -- the blocks of a `try` are not linked
            rw [htry, if_pos rfl] at hchild
            rw [htry] at hparsed'
            rw [hchild, hparsed'.linked_eq] at hlinked
            cases hlinked
        rw [htry, if_neg Bool.false_ne_true] at hchild
        rw [hchild] at hblock hmax
        refine ih hparsed' (hin.block hblock) ?_ (Nat.le_of_not_lt hown) (by omega)
        have := blocks_sizeOf hblock
        omega

theorem Scope.Stacked.args_lt {args : List String} : ∀ {scope : Scope}, scope.Stacked args →
    args.length < scope.nextVarId args
  | [], _ => Nat.lt_succ_self _
  | _ :: _, h => Nat.lt_of_lt_of_le (Stacked.args_lt h.2) h.le_nextVarId

section

variable {World : Type} {P : ParserEnv World} {fuel : ℕ} {s t : ParserState World}
  {f : ScriptFunction}

/-- Without `try` the slots behind those of the parameters, up to `m_maxVarId`, are declared. -/
theorem declaredSlot_iff (h : (parseFunction P fuel).Ok s f t) (hno : f.code.NoTry) (slot : ℕ) :
    DeclaredSlot f slot ↔ f.args.length < slot ∧ slot < f.code.maxVarId := by
  obtain ⟨body, hparsed, hcode⟩ := parseFunction_code h
  constructor
  · rintro ⟨block, parents, hin, hle, hlt⟩
    rw [hcode] at hin hno ⊢
    obtain ⟨hstacked, ⟨_, parsed, id, -, rfl⟩, hmax⟩ := hin.stacked hparsed hno _ _ rfl
    have hstart : (parsed.setStartingVarId id).startingVarId = Scope.nextVarId f.args parents :=
      hstacked.1
    have hargs := Scope.Stacked.args_lt hstacked.2
    have hown := le_setStartingVarId_max id parsed
    rw [setStartingVarId_start, setStartingVarId_vars] at hlt
    exact ⟨by omega, by omega⟩
  · rintro ⟨hle, hlt⟩
    rw [hcode] at hlt
    have hin : InBody f.code [body.setStartingVarId (f.args.length + 1)] := hcode ▸ .body
    exact slot_covered _ hparsed hin (Nat.lt_succ_self _) hle hlt

/-- The variable of a `catch` has the slot of the instance. -/
theorem declaredSlot_zero (h : (parseFunction P fuel).Ok s f t) (htry : ¬f.code.NoTry) :
    DeclaredSlot f 0 := by
  obtain ⟨body, hparsed, hcode⟩ := parseFunction_code h
  simp only [CodeBlock.NoTry, not_forall] at htry
  obtain ⟨block, parents, hin, expr, he, htry⟩ := htry
  cases expr with
  | tryExpr tryBlock var catchBlock =>
    have hbuilt : Built block :=
      InBody.built ⟨false, body, hparsed, .inr ⟨_, hcode⟩⟩ hin _ _ rfl
    obtain ⟨hstart, hvars⟩ := hbuilt.catchBlock he
    refine ⟨catchBlock, block :: parents, hin.block (List.mem_flatMap.mpr
      ⟨_, he, List.mem_cons_of_mem _ (List.mem_singleton_self _)⟩), by omega, ?_⟩
    have := List.length_pos_iff.mpr hvars
    omega
  | _ => exact absurd rfl htry

/-! ## Entering a function -/

/-- The frame of a function is as large as its highest slot says. -/
theorem assemble_localVars {D : DoubleOps} {A : AsmEnv} {code : CodeBlock} {asm : AssembledCode}
    {m_code m_code' : List Instruction} (h : (assemble D A code).Ok m_code asm m_code') :
    asm.localVars = code.maxVarId + 1 := by
  simp only [assemble, Attempt.bind_ok] at h
  obtain ⟨-, _, -, -, m_code₁, -, hwrite⟩ := h
  unfold Attempt.Ok writeCode at hwrite
  split at hwrite
  · next hlt =>
    split at hwrite
    · next asmCode hlink =>
      obtain rfl := Option.some.inj (Prod.mk.inj (Option.some.inj hwrite)).1
      simp only [link, if_pos hlt, Option.bind_eq_bind, Option.bind_eq_some_iff] at hlink
      obtain ⟨words, -, hlink⟩ := hlink
      obtain rfl := Option.some.inj hlink
      rfl
    · cases (Prod.mk.inj (Option.some.inj hwrite)).1
  · cases hwrite

/-- What a frame has to hold when a function is entered: the instance, as many of the arguments as
    there are parameters, and nothing in the slots of the other variables. -/
structure BindsArguments (f : ScriptFunction) (obj : Word) (code : Code) (args : List Value)
    (frame : Frame) : Prop where
  length : frame.localVars.length = code.localVars
  bound : ∀ i, i < args.length → i < f.args.length → frame.localVars[i + 1]? = args[i]?
  this : frame.localVars[0]? = some (Value.object obj)
  zeroed : ∀ slot, DeclaredSlot f slot → frame.localVars[slot]? = some Value.zero

/-- Calling `f` with the arguments on the stack binds them, without a write outside the frame. -/
def EntersWith (E : Env W) (f : ScriptFunction) (obj : Word) (code : Code) (args : List Value)
    (ctx : Context W) : Prop :=
  ∃ ctx' frame, enter E obj code args.length (ctx.pushArgs args) = some (ctx', frame) ∧
    BindsArguments f obj code args frame

theorem entersWith_iff (E : Env W) (obj : Word) {code : Code} (args : List Value)
    (ctx : Context W) :
    EntersWith E f obj code args ctx ↔
      args.length < code.localVars ∧
        BindsArguments f obj code args (Frame.called E obj code args ctx) := by
  by_cases hlt : args.length < code.localVars
  · have henter : enter E obj code args.length (ctx.pushArgs args) = some _ :=
      enter_pushArgs hlt ctx
    constructor
    · rintro ⟨ctx', frame, h, hbinds⟩
      obtain ⟨-, rfl⟩ := Prod.mk.inj (Option.some.inj (henter.symm.trans h))
      exact ⟨hlt, hbinds⟩
    · intro ⟨_, hbinds⟩
      exact ⟨_, _, henter, hbinds⟩
  · have henter : enter E obj code args.length (ctx.pushArgs args) = none :=
      enter_outside (Nat.le_of_not_lt hlt) ctx
    constructor
    · rintro ⟨ctx', frame, h, -⟩
      cases henter.symm.trans h
    · intro ⟨h, _⟩
      exact absurd h hlt

/-- More arguments than parameters go where the variables of the function are. -/
theorem called_binds_iff (E : Env W) (obj : Word) {code : Code} {args : List Value}
    (ctx : Context W) (h : (parseFunction P fuel).Ok s f t) (hno : f.code.NoTry)
    (hcode : code.localVars = f.code.maxVarId + 1) (hlt : args.length < code.localVars) :
    BindsArguments f obj code args (Frame.called E obj code args ctx) ↔
      ∀ i v, args[i]? = some v → f.args.length ≤ i → i + 1 < f.code.maxVarId →
        v = Value.zero := by
  constructor
  · intro hbinds i v hv hle hmax
    have hslot := hbinds.zeroed (i + 1) ((declaredSlot_iff h hno _).mpr ⟨by omega, hmax⟩)
    rw [called_slot E obj hlt ctx (Nat.succ_pos i) (by omega), Nat.succ_sub_one, hv] at hslot
    exact Option.some.inj hslot
  · intro hzero
    refine ⟨?_, ?_, rfl, ?_⟩
    · show (_ :: args ++ _).length = _
      rw [List.length_append, List.length_cons, List.length_replicate]
      omega
    · intro i hi _
      rw [called_slot E obj hlt ctx (Nat.succ_pos i) (by omega), Nat.succ_sub_one,
        List.getElem?_eq_getElem hi]
      rfl
    · intro slot hslot
      obtain ⟨hle, hmax⟩ := (declaredSlot_iff h hno _).mp hslot
      rw [called_slot E obj hlt ctx (by omega) (by omega)]
      cases hv : args[slot - 1]? with
      | none => rfl
      | some v =>
        rw [hzero (slot - 1) v hv (by omega) (by omega)]
        rfl

/-- There is a slot for every parameter. -/
theorem args_lt_maxVarId (h : (parseFunction P fuel).Ok s f t) : f.args.length < f.code.maxVarId := by
  obtain ⟨body, -, hcode⟩ := parseFunction_code h
  have := le_setStartingVarId_max (f.args.length + 1) body
  rw [hcode]
  omega

theorem entersWith_assembled {D : DoubleOps} {A : AsmEnv} {asm : AssembledCode}
    {m_code m_code' : List Instruction} (E : Env W) (obj : Word) (args : List Value)
    (ctx : Context W) (hparse : (parseFunction P fuel).Ok s f t)
    (hassemble : (assemble D A f.code).Ok m_code asm m_code') :
    EntersWith E f obj asm.toCode args ctx ↔
      f.code.NoTry ∧ args.length ≤ f.code.maxVarId ∧
        ∀ i v, args[i]? = some v → f.args.length ≤ i → i + 1 < f.code.maxVarId →
          v = Value.zero := by
  have hcode : asm.toCode.localVars = f.code.maxVarId + 1 := assemble_localVars hassemble
  rw [entersWith_iff, hcode, Nat.lt_succ_iff]
  constructor
  · rintro ⟨hlen, hbinds⟩
    have hno : f.code.NoTry := by
      by_contra htry
      have hslot := hbinds.zeroed 0 (declaredSlot_zero hparse htry)
      rw [hbinds.this] at hslot
      cases hslot
    exact ⟨hno, hlen, (called_binds_iff E obj ctx hparse hno hcode (by omega)).mp hbinds⟩
  · rintro ⟨hno, hlen, hzero⟩
    exact ⟨hlen, (called_binds_iff E obj ctx hparse hno hcode (by omega)).mpr hzero⟩

/-- **Arguments stay in the frame, and the other variables zeroed, exactly when there is no `try` in
    the function, the frame has slots for all arguments, and those behind the parameters are zero
    where a variable is declared.** Without `try` no call with at most as many arguments as there
    are parameters goes wrong. -/
theorem entersWith_parsed_iff {D : DoubleOps} {A : AsmEnv} {asm : AssembledCode}
    {m_code m_code' : List Instruction} (E : Env W) (obj : Word) (args : List Value)
    (ctx : Context W) (hparse : (parseFunction P fuel).Ok s f t)
    (hassemble : (assemble D A f.code).Ok m_code asm m_code') :
    (EntersWith E f obj asm.toCode args ctx ↔
      f.code.NoTry ∧ args.length ≤ f.code.maxVarId ∧
        ∀ i v, args[i]? = some v → f.args.length ≤ i → i + 1 < f.code.maxVarId →
          v = Value.zero) ∧
      (f.code.NoTry → args.length ≤ f.args.length → EntersWith E f obj asm.toCode args ctx) := by
  have hiff := entersWith_assembled E obj args ctx hparse hassemble
  refine ⟨hiff, fun hno hle => hiff.mpr ⟨hno, ?_, ?_⟩⟩
  · have := args_lt_maxVarId hparse
    omega
  · intro i v hv hi _
    have := (List.getElem?_eq_some_iff.mp hv).1
    omega

end

/-! ## A call with as many arguments as parameters -/

theorem noTry_of_nil {linked : Bool} {startVarId maxVarId : ℕ} {vars : List String} :
    (CodeBlock.mk linked startVarId maxVarId vars []).NoTry := by
  have hscope : ∀ scope, InBody (.mk linked startVarId maxVarId vars []) scope →
      scope = [.mk linked startVarId maxVarId vars []] := by
    intro scope hin
    induction hin with
    | body => rfl
    | block _ hc ih =>
      obtain ⟨rfl, -⟩ := List.cons.inj ih
      cases hc
  intro block parents hin expr he
  obtain ⟨rfl, -⟩ := List.cons.inj (hscope _ hin)
  cases he

/-- The tokens of `(a) { var x; }`. -/
def oneArgumentTokens : List Token :=
  [⟨.tokBracketLeft, 1, "(", 0, 0⟩, ⟨.tokIdentifier, 1, "a", 0, 0⟩,
    ⟨.tokBracketRight, 1, ")", 0, 0⟩, ⟨.tokBraceLeft, 1, "\x7b", 0, 0⟩, ⟨.tokVar, 1, "var", 0, 0⟩,
    ⟨.tokIdentifier, 1, "x", 0, 0⟩, ⟨.tokSemicolon, 1, ";", 0, 0⟩,
    ⟨.tokBraceRight, 1, "\x7d", 0, 0⟩]

def oneArgument : ScriptFunction := .mk 1 ["a"] false (.mk false 2 3 ["x"] [])

theorem oneArgument_parsed :
    (parseFunction (plainParser oneArgumentTokens) 10).Ok ⟨0, ()⟩ oneArgument ⟨8, ()⟩ := rfl

/-- `PUSHI 0; RETURN`, in a frame of one slot more. -/
theorem oneArgument_assembled : (assemble exceptionEnv.double emptyEnv oneArgument.code).Ok []
    ⟨[0x310, 0, 0x507], 3, 4⟩ [] := rfl

/-- Called with one argument, `a` is that argument and `x` is zeroed. -/
theorem oneArgument_enters :
    EntersWith exceptionEnv oneArgument 1000 (AssembledCode.toCode ⟨[0x310, 0, 0x507], 3, 4⟩)
      [Value.integer 5] ⟨[], false, Value.zero, ()⟩ :=
  (entersWith_parsed_iff exceptionEnv 1000 [Value.integer 5] ⟨[], false, Value.zero, ()⟩
    oneArgument_parsed oneArgument_assembled).2 noTry_of_nil (Nat.le_refl _)

/-! ## A call with too many arguments -/

/-- The tokens of `() { var x; }`. -/
def oneVariableTokens : List Token :=
  [⟨.tokBracketLeft, 1, "(", 0, 0⟩, ⟨.tokBracketRight, 1, ")", 0, 0⟩,
    ⟨.tokBraceLeft, 1, "\x7b", 0, 0⟩, ⟨.tokVar, 1, "var", 0, 0⟩,
    ⟨.tokIdentifier, 1, "x", 0, 0⟩, ⟨.tokSemicolon, 1, ";", 0, 0⟩,
    ⟨.tokBraceRight, 1, "\x7d", 0, 0⟩]

def oneVariable : ScriptFunction := .mk 1 [] false (.mk false 1 2 ["x"] [])

/-- `PUSHI 0; RETURN`. -/
def oneVariableCode : AssembledCode := ⟨[0x310, 0, 0x507], 3, 3⟩

/-- Called with one argument, `x` is that argument; with four arguments, the last one is written
    outside the frame. -/
theorem oneVariable_overwritten :
    (parseFunction (plainParser oneVariableTokens) 10).Ok ⟨0, ()⟩ oneVariable ⟨7, ()⟩ ∧
      (assemble exceptionEnv.double emptyEnv oneVariable.code).Ok [] oneVariableCode [] ∧
      ¬EntersWith exceptionEnv oneVariable 0 oneVariableCode.toCode [Value.integer 5]
        ⟨[], false, Value.zero, ()⟩ ∧
      enter exceptionEnv 0 oneVariableCode.toCode 4
        ⟨[Value.integer 4, Value.integer 3, Value.integer 2, Value.integer 1], false, Value.zero, ()⟩
          = none := by
  refine ⟨rfl, rfl, ?_, rfl⟩
  rintro ⟨ctx', frame, henter, hbinds⟩
  obtain ⟨-, rfl⟩ := Prod.mk.inj (Option.some.inj henter)
  have hslot := hbinds.zeroed 1 ⟨_, [], .body, by decide, by decide⟩
  cases hslot

end B0rk
