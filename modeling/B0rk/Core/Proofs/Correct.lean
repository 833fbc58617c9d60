import B0rk.Assembler.Proofs.Link
import B0rk.Core.Proofs.Compile
import B0rk.Core.Proofs.Simulate
import B0rk.Executor.Proofs.Construct
import B0rk.Parser.Proofs.Slots
import Mathlib.Data.List.Induction

set_option autoImplicit false

/-! # The assembler is correct on the integer core

The assembled words of a function, run by the executor, return what the direct evaluation of the
function returns, and return if and only if the direct evaluation does. -/

namespace B0rk

variable {W : Type} {E : Env W} {exec : Execute W}

/-! ## Slots -/

/-- The linked blocks of some statements, once they are numbered, need no slot above `N`. -/
def MaxBelow (N id : ℕ) (code : List Expression) : Prop :=
  ∀ child ∈ ((setStatementsVarId id code).flatMap Expression.blocks).filter CodeBlock.linked,
    child.maxVarId ≤ N

theorem MaxBelow.cons {N id : ℕ} {expr : Expression} {code : List Expression}
    (h : MaxBelow N id (expr :: code)) :
    (∀ child ∈ expr.blocks, child.linked = true → (child.setStartingVarId id).maxVarId ≤ N) ∧
      MaxBelow N id code := by
  unfold MaxBelow at h ⊢
  rw [setStatementsVarId, List.flatMap_cons, List.filter_append] at h
  refine ⟨?_, fun child hchild => h child (List.mem_append_right _ hchild)⟩
  intro child hchild hlinked
  refine h _ (List.mem_append_left _ (List.mem_filter.mpr ⟨?_, ?_⟩))
  · rw [setStatementVarId_blocks]
    exact List.mem_map.mpr ⟨child, hchild, if_pos hlinked⟩
  · rw [setStartingVarId_linked, hlinked]

theorem MaxBelow.block {N id : ℕ} {linked : Bool} {vars : List String} {code : List Expression}
    (h : ((CodeBlock.mk linked 0 0 vars code).setStartingVarId id).maxVarId ≤ N) :
    id + vars.length ≤ N ∧ MaxBelow N (id + vars.length) code := by
  refine ⟨Nat.le_trans (le_setStartingVarId_max id (.mk linked 0 0 vars code)) h, ?_⟩
  intro child hchild
  have hmem : child ∈ ((CodeBlock.mk linked 0 0 vars code).setStartingVarId id).childBlocks :=
    hchild
  exact Nat.le_trans (childBlocks_max_le id hmem) h

/-- The numbering of the blocks leaves room for the variables of all of them. -/
theorem CoreCode.fits_of_max {c : CoreCode} {names : List (List String)} {N : ℕ}
    (h : MaxBelow N (Scopes.start names) c.statements) : c.Fits N names := by
  induction c generalizing names with
  | done => trivial
  | simple statement rest ih => exact ih h.cons.2
  | ifThen test vars body rest ihb ih =>
    have hbody := MaxBelow.block (h.cons.1 (.mk true 0 0 vars body.statements)
      (by simp [Expression.blocks]) rfl)
    exact ⟨hbody.1, ihb hbody.2, ih h.cons.2⟩
  | ifElse test vars body vars' body' rest ihb ihb' ih =>
    have hbody := MaxBelow.block (h.cons.1 (.mk true 0 0 vars body.statements)
      (by simp [Expression.blocks]) rfl)
    have hbody' := MaxBelow.block (h.cons.1 (.mk true 0 0 vars' body'.statements)
      (by simp [Expression.blocks]) rfl)
    exact ⟨⟨hbody.1, ihb hbody.2⟩, ⟨hbody'.1, ihb' hbody'.2⟩, ih h.cons.2⟩
  | loop init test inc vars body rest ihb ih =>
    have hbody := MaxBelow.block (h.cons.1 (.mk true 0 0 vars body.statements)
      (by simp [Expression.blocks]) rfl)
    exact ⟨hbody.1, ihb hbody.2, ih h.cons.2⟩
  | ret value rest ih => exact ih h.cons.2

theorem CoreFunction.fits (f : CoreFunction) :
    Scopes.start f.names ≤ f.body.maxVarId + 1 ∧ f.code.Fits (f.body.maxVarId + 1) f.names := by
  have hstart : Scopes.start f.names = f.params.length + 1 + f.vars.length := by
    simp only [CoreFunction.names, Scopes.start]
    omega
  have hbody := MaxBelow.block (Nat.le_succ f.body.maxVarId)
  exact ⟨hstart ▸ hbody.1, CoreCode.fits_of_max (hstart ▸ hbody.2)⟩

/-! ## Entering the function -/

/-- The arguments on the stack become the local variables behind `this`. -/
theorem bindArgs_args {argv localVars rest : List Value} {ctx : Context W}
    (hstack : ctx.stack = argv.reverse ++ rest) (hlen : argv.length < localVars.length) :
    ∃ localVars', bindArgs argv.length localVars ctx = some (localVars', { ctx with stack := rest }) ∧
      localVars'.length = localVars.length ∧
      (∀ i v, argv[i]? = some v → localVars'[i + 1]? = some v) ∧
      ∀ k, argv.length < k → localVars'[k]? = localVars[k]? := by
  induction argv using List.reverseRecOn generalizing localVars ctx with
  | nil =>
    cases hstack
    exact ⟨localVars, rfl, rfl, nofun, fun _ _ => rfl⟩
  | append_singleton argv v ih =>
    rw [List.length_append, List.length_singleton] at hlen ⊢
    rw [List.reverse_append, List.reverse_singleton, List.append_assoc] at hstack
    obtain ⟨localVars', hbind, hlen', hargs, habove⟩ :=
      @ih (localVars.set (argv.length + 1) v) { ctx with stack := argv.reverse ++ rest } rfl
        (by rw [List.length_set]; omega)
    rw [List.length_set] at hlen'
    refine ⟨localVars', ?_, hlen', ?_, ?_⟩
    · simp only [bindArgs, Context.pop_cons hstack, Option.bind_eq_bind, Option.bind_some,
        if_pos hlen]
      exact hbind
    · intro i w hi
      rcases Nat.lt_or_ge i argv.length with hlt | hge
      · rw [List.getElem?_append_left hlt] at hi
        exact hargs i w hi
      · rw [List.getElem?_append_right hge] at hi
        obtain ⟨hi0, rfl⟩ : i - argv.length = 0 ∧ v = w := by
          cases hsub : i - argv.length with
          | zero =>
            rw [hsub] at hi
            exact ⟨rfl, Option.some.inj hi⟩
          | succ j =>
            rw [hsub] at hi
            cases hi
        obtain rfl : i = argv.length := by omega
        rw [habove _ (Nat.lt_succ_self _)]
        exact List.getElem?_set_self hlen
    · intro k hk
      rw [habove k (by omega)]
      exact List.getElem?_set_ne (by omega)

/-- The activation of a function of the core, at the start of its code. -/
theorem CoreFunction.enter_some (f : CoreFunction) (E : Env W) (exec : Execute W)
    (insts : List Instruction) (this : Word) {N : ℕ} {argv : List Word} {rest : List Value} {ctx : Context W}
    (hargv : argv.length = f.params.length) (hexc : ctx.exception = false)
    (hstack : ctx.stack = (argv.map Value.integer).reverse ++ rest)
    (hslots : Scopes.start f.names ≤ N + 1) (hwords : N + 1 < 2 ^ 64) :
    ∃ frame vars, enter E this (Code.ofInstructions (N + 1) insts) argv.length ctx =
        some (coreState ctx frame 0 frame.flags vars (frame.marker :: rest)) ∧
      CoreFrame E exec insts ctx frame ∧ CoreVars f.names vars (f.initial argv) ∧
      vars.length = N + 1 := by
  have hstart : Scopes.start f.names = f.params.length + 1 + f.vars.length := by
    simp only [CoreFunction.names, Scopes.start]
    omega
  have hlen : (argv.map Value.integer).length <
      ((List.replicate (N + 1) Value.zero).set 0 (Value.object this)).length := by
    rw [List.length_map, List.length_set, List.length_replicate]
    omega
  obtain ⟨vars, hbind, hlen', hvars, -⟩ := bindArgs_args hstack hlen
  rw [List.length_map] at hbind
  rw [List.length_set, List.length_replicate] at hlen'
  refine ⟨⟨E.frameAddr ctx, Code.ofInstructions (N + 1) insts, true, 0, ⟨false, false, false⟩, vars,
    []⟩, vars, ?_, ⟨⟨N + 1, rfl⟩, rfl, hexc⟩, ⟨?_, ?_, by omega, by omega⟩, hlen'⟩
  · unfold enter
    simp only [Code.ofInstructions, List.length_replicate, Nat.add_eq_zero_iff, Nat.one_ne_zero,
      and_false, if_false, hbind, Option.bind_eq_bind, Option.bind_some]
    rfl
  · rw [CoreFunction.initial, Scopes.names_enter, CoreFunction.names]
    rw [Scopes.names_cons, Scopes.names_nil, List.map_fst_zip (by simp [hargv])]
  · refine Scopes.agree_enter ⟨?_, trivial⟩
    intro i x w hi
    obtain ⟨-, hw⟩ := List.getElem?_zip_eq_some.mp hi
    rw [List.getElem?_map, Option.map_eq_some_iff] at hw
    obtain ⟨w', hw', hw⟩ := hw
    cases hw
    exact hvars i _ (by rw [List.getElem?_map, hw']; rfl)

/-! ## Running the function -/

/-- The parameters are assigned on entry. -/
theorem CoreFunction.le_initial (f : CoreFunction) {argv : List Word}
    (hargv : argv.length = f.params.length) :
    Scopes.Le (Scopes.enter f.vars [f.params.map (fun x => (x, some ()))]) (f.initial argv) := by
  refine Scopes.Le.enter f.vars (.cons ?_ .nil)
  generalize f.params = params at hargv ⊢
  induction params generalizing argv with
  | nil => exact .nil
  | cons param params ih =>
    obtain ⟨w, argv, rfl⟩ := List.exists_of_length_succ argv hargv
    exact .cons ⟨rfl, fun _ => rfl⟩ (ih (Nat.succ.inj hargv))

/-- With some fuel for its loops, the function returns a value or does not come to an end. -/
theorem CoreFunction.rounds (f : CoreFunction) (fuel : ℕ) {argv : List Word} {ctx : Context W}
    {frame : Frame} {vars rest : List Value} (hassigned : f.AssignedBeforeRead)
    (hargv : argv.length = f.params.length)
    (h : CoreFrame E exec f.code' ctx frame) (hvars : CoreVars f.names vars (f.initial argv))
    (hlen : vars.length = f.body.maxVarId + 1) (hsize : f.code'.length < 2 ^ 64)
    (hdepth : rest.length + 1 + f.depth < 1024) :
    (∃ v n frame', frame'.running = false ∧
      (f.code.exec fuel (f.initial argv) = .returned v ∨
        v = 0 ∧ ∃ env, f.code.exec fuel (f.initial argv) = .normal env) ∧
      Rounds E exec n (coreState ctx frame 0 frame.flags vars (frame.marker :: rest))
        ({ ctx with stack := Value.integer v :: rest }, frame')) ∨
    f.code.exec fuel (f.initial argv) = .timeout ∧ ∃ n t, fuel ≤ n ∧
      Rounds E exec n (coreState ctx frame 0 frame.flags vars (frame.marker :: rest)) t := by
  rw [CoreFunction.depth] at hdepth
  have hbase : (frame.marker :: rest).length = rest.length + 1 := List.length_cons
  have hcode : CodeAt f.code' 0 f.code' := .self _
  have hpending : (frame.marker :: rest).length + f.code.depth < 1024 := by omega
  have hruns := @CoreCode.rounds W E exec _ _ _ _ _ _ _ fuel rest h hsize f.code 0 frame.flags
    hcode.left hvars hlen f.fits.2 hpending
  have hstuck : f.code.exec fuel (f.initial argv) ≠ .stuck := by
    obtain ⟨D', hD'⟩ := Option.isSome_iff_exists.mp hassigned
    intro heq
    have hfine : CoreOutcome.Fine D' (f.initial argv) (f.code.exec fuel (f.initial argv)) :=
      CoreCode.exec_fine (f.le_initial hargv) hD'
    rw [heq] at hfine
    exact hfine
  revert hruns hstuck
  cases f.code.exec fuel (f.initial argv) with
  | normal env =>
    rintro ⟨n, flags, vars₁, hrun, -, -⟩ -
    have htail := hcode.right
    have hbelow : (frame.marker :: rest).length + 1 < 1024 := by omega
    have hpush := h.pushI flags vars₁ (frame.marker :: rest) htail.head (by omega)
    obtain ⟨frame', hend, hret⟩ := h.returned htail.tail.head hbelow
    exact .inl ⟨0, _, frame', hend, .inr ⟨rfl, env, rfl⟩, (hrun.trans hpush).trans hret⟩
  | returned v =>
    rintro ⟨n, frame', hend, hrun⟩ -
    exact .inl ⟨v, n, frame', hend, .inl rfl, hrun⟩
  | stuck =>
    intro _ hstuck
    exact absurd rfl hstuck
  | timeout =>
    rintro ⟨n, t, hn, hrun⟩ -
    exact .inr ⟨rfl, n, t, hn, hrun⟩

/-! ## The words of the function -/

section

variable {all : List Instruction} {names : List (List String)}

theorem OpCode.toNat_lt {op : OpCode} (h : op ∈ OpCode.all) : op.toNat < 2 ^ 64 := by
  revert op
  decide

/-- Instructions whose operands are no positions. -/
theorem wellFormed_plain {op : OpCode} {args : List Word} (hop : op ∈ OpCode.all)
    (haddress : op.address = none) (hargs : args.length = op.args) :
    (Instruction.mk op args).WellFormed all := by
  refine ⟨⟨OpCode.ofNat_toNat hop, OpCode.toNat_lt hop⟩, hargs, fun j arg hj => ?_⟩
  rw [haddress] at hj
  cases hj

/-- Jumps to a position. -/
theorem wellFormed_jump {op : OpCode} {target : ℕ} (hop : op ∈ OpCode.all)
    (haddress : op.address = some 0) (hargs : op.args = 1) (htarget : target < all.length)
    (hall : all.length < 2 ^ 64) :
    (Instruction.mk op [BitVec.ofNat 64 target]).WellFormed all := by
  refine ⟨⟨OpCode.ofNat_toNat hop, OpCode.toNat_lt hop⟩, hargs.symm, fun j arg hj harg => ?_⟩
  rw [haddress] at hj
  cases hj
  cases harg
  rwa [BitVec.toNat_ofNat, Nat.mod_eq_of_lt (by omega)]

theorem CoreOp.code_wellFormed (typed : Bool) (op : CoreOp) :
    ∀ inst ∈ op.code typed, inst.WellFormed all := by
  cases op <;> cases typed <;>
    simp only [CoreOp.code, cmpCode, List.forall_mem_cons, List.not_mem_nil, false_imp_iff,
      implies_true, and_true] <;>
    first
      | exact wellFormed_plain (by decide) rfl rfl
      | exact ⟨wellFormed_plain (by decide) rfl rfl, wellFormed_plain (by decide) rfl rfl⟩

theorem CoreExpr.code_wellFormed (e : CoreExpr) :
    ∀ inst ∈ e.code names, inst.WellFormed all := by
  induction e with
  | integer type i => exact List.forall_mem_singleton.mpr (wellFormed_plain (by decide) rfl rfl)
  | var type name => exact List.forall_mem_singleton.mpr (wellFormed_plain (by decide) rfl rfl)
  | oper typed op left right ihl ihr =>
    exact List.forall_mem_append.mpr
      ⟨List.forall_mem_append.mpr ⟨ihr, ihl⟩, op.code_wellFormed typed⟩
  | not typed right ih =>
    refine List.forall_mem_append.mpr ⟨ih, List.forall_mem_singleton.mpr ?_⟩
    cases typed <;> exact wellFormed_plain (by decide) rfl rfl
  | increment type decrement varType name =>
    refine List.forall_mem_append.mpr ⟨List.forall_mem_append.mpr ⟨?_, ?_⟩, ?_⟩
    · simp only [List.forall_mem_cons, List.not_mem_nil, false_imp_iff, implies_true, and_true]
      exact ⟨wellFormed_plain (by decide) rfl rfl, wellFormed_plain (by decide) rfl rfl,
        wellFormed_plain (by decide) rfl rfl⟩
    · cases decrement
      · exact List.forall_mem_singleton.mpr (wellFormed_plain (by decide) rfl rfl)
      · exact List.forall_mem_cons.mpr ⟨wellFormed_plain (by decide) rfl rfl,
          List.forall_mem_singleton.mpr (wellFormed_plain (by decide) rfl rfl)⟩
    · exact List.forall_mem_singleton.mpr (wellFormed_plain (by decide) rfl rfl)

theorem CoreExpr.testCode_wellFormed (e : CoreExpr) {target : ℕ} (htarget : target < all.length)
    (hall : all.length < 2 ^ 64) : ∀ inst ∈ e.testCode names target, inst.WellFormed all := by
  have hplain (htest : e.test names = (e.code names ++ [⟨.pushI, [0]⟩, ⟨.cmpI, []⟩], .bEq)) :
      ∀ inst ∈ e.testCode names target, inst.WellFormed all := by
    rw [CoreExpr.testCode, htest]
    simp only [List.forall_mem_append, List.forall_mem_cons, List.not_mem_nil, false_imp_iff,
      implies_true, and_true]
    exact ⟨⟨e.code_wellFormed, wellFormed_plain (by decide) rfl rfl,
      wellFormed_plain (by decide) rfl rfl⟩, wellFormed_jump (by decide) rfl rfl htarget hall⟩
  cases e with
  | oper typed op left right =>
    cases hfused : op.fused with
    | none =>
      refine hplain ?_
      rw [CoreExpr.test, hfused]
    | some opcode =>
      rw [CoreExpr.testCode, CoreExpr.test, hfused]
      simp only [List.forall_mem_append, List.forall_mem_singleton]
      refine ⟨⟨⟨right.code_wellFormed, left.code_wellFormed⟩, ?_⟩, ?_⟩
      · cases typed <;> exact wellFormed_plain (by decide) rfl rfl
      · cases op with
        | equals | lessThan | lessThanEqual =>
          cases hfused
          exact wellFormed_jump (by decide) rfl rfl htarget hall
        | _ => cases hfused
  | _ => exact hplain rfl

theorem CoreSimple.code_wellFormed (s : CoreSimple) :
    ∀ inst ∈ s.code names, inst.WellFormed all := by
  cases s with
  | set type varType name value =>
    exact List.forall_mem_append.mpr ⟨value.code_wellFormed,
      List.forall_mem_singleton.mpr (wellFormed_plain (by decide) rfl rfl)⟩
  | increment type decrement varType name =>
    exact List.forall_mem_singleton.mpr (wellFormed_plain (by decide) rfl rfl)

theorem CoreSimple.codeOption_wellFormed (s : Option CoreSimple) :
    ∀ inst ∈ codeOption names s, inst.WellFormed all := by
  cases s with
  | none => exact List.forall_mem_nil _
  | some s => exact s.code_wellFormed

theorem CoreCode.code_wellFormed (c : CoreCode) (hall : all.length < 2 ^ 64) {base : ℕ}
    (hbase : base + (c.code names base).length < all.length) :
    ∀ inst ∈ c.code names base, inst.WellFormed all := by
  induction c generalizing names base with
  | done => exact List.forall_mem_nil _
  | simple statement rest ih =>
    rw [CoreCode.code, List.length_append, ← Nat.add_assoc] at hbase
    exact List.forall_mem_append.mpr ⟨statement.code_wellFormed, ih hbase⟩
  | ifThen test vars body rest ihb ih =>
    simp only [CoreCode.code, List.length_append, test.testCode_length, ← Nat.add_assoc] at hbase ⊢
    simp only [List.forall_mem_append]
    exact ⟨⟨test.testCode_wellFormed (by omega) hall, ihb (by omega)⟩, ih hbase⟩
  | ifElse test vars body vars' body' rest ihb ihb' ih =>
    simp only [CoreCode.code, List.length_append, List.length_singleton, test.testCode_length,
      ← Nat.add_assoc] at hbase ⊢
    simp only [List.forall_mem_append, List.forall_mem_singleton]
    exact ⟨⟨⟨⟨test.testCode_wellFormed (by omega) hall, ihb (by omega)⟩,
      wellFormed_jump (by decide) rfl rfl (by omega) hall⟩, ihb' (by omega)⟩, ih hbase⟩
  | loop init test inc vars body rest ihb ih =>
    simp only [CoreCode.code, List.length_append, List.length_singleton, test.testCode_length,
      ← Nat.add_assoc] at hbase ⊢
    simp only [List.forall_mem_append, List.forall_mem_singleton]
    exact ⟨⟨⟨⟨⟨CoreSimple.codeOption_wellFormed init, test.testCode_wellFormed (by omega) hall⟩,
      ihb (by omega)⟩, CoreSimple.codeOption_wellFormed inc⟩,
      wellFormed_jump (by decide) rfl rfl (by omega) hall⟩, ih hbase⟩
  | ret value rest ih =>
    cases value with
    | none =>
      rw [CoreCode.code, List.length_append, ← Nat.add_assoc] at hbase
      refine List.forall_mem_append.mpr ⟨?_, ih hbase⟩
      exact List.forall_mem_cons.mpr ⟨wellFormed_plain (by decide) rfl rfl,
        List.forall_mem_singleton.mpr (wellFormed_plain (by decide) rfl rfl)⟩
    | some value =>
      simp only [CoreCode.code, List.length_append, List.length_singleton, ← Nat.add_assoc] at hbase
      refine List.forall_mem_append.mpr ⟨List.forall_mem_append.mpr ⟨value.code_wellFormed, ?_⟩,
        ih hbase⟩
      exact List.forall_mem_singleton.mpr (wellFormed_plain (by decide) rfl rfl)

theorem CoreFunction.code_wellFormed (f : CoreFunction) (hsize : f.code'.length < 2 ^ 64) :
    ∀ inst ∈ f.code', inst.WellFormed f.code' := by
  refine List.forall_mem_append.mpr ⟨f.code.code_wellFormed hsize ?_, ?_⟩
  · rw [CoreFunction.code', List.length_append, Nat.zero_add]
    exact Nat.lt_add_of_pos_right (Nat.succ_pos _)
  · exact List.forall_mem_cons.mpr ⟨wellFormed_plain (by decide) rfl rfl,
      List.forall_mem_singleton.mpr (wellFormed_plain (by decide) rfl rfl)⟩

end

/-! ## The theorem -/

theorem ended {frame : Frame} (h : frame.running = false) : frame.continues = false := by
  rw [Frame.continues, h, Bool.false_and]

/-- Running the instructions of a function of the core. -/
theorem CoreFunction.run_iff (f : CoreFunction) (hassigned : f.AssignedBeforeRead)
    (hslots : f.body.maxVarId + 1 < 2 ^ 64) (hsize : f.code'.length < 2 ^ 64) (this : Word)
    {argv : List Word} {rest : List Value} {ctx : Context W}
    (hargv : argv.length = f.params.length) (hexc : ctx.exception = false)
    (hstack : ctx.stack = (argv.map Value.integer).reverse ++ rest)
    (hdepth : rest.length + 1 + f.depth < 1024) (v : Word) :
    (∃ fuel ctx', run E exec fuel this (Code.ofInstructions (f.body.maxVarId + 1) f.code')
        argv.length ctx = some (true, ctx') ∧ ctx'.stack = Value.integer v :: rest) ↔
      f.Returns argv v := by
  obtain ⟨frame, vars, henter, h, hvars, hlen⟩ := f.enter_some E exec f.code' this hargv hexc
    hstack f.fits.1 hslots
  have hrun (fuel : ℕ) : run E exec fuel this
      (Code.ofInstructions (f.body.maxVarId + 1) f.code') argv.length ctx =
        runLoop E exec fuel true (coreState ctx frame 0 frame.flags vars (frame.marker :: rest)).1
          (coreState ctx frame 0 frame.flags vars (frame.marker :: rest)).2 := by
    unfold run
    rw [henter]
  have hends (fuel : ℕ) := f.rounds fuel hassigned hargv h hvars hlen hsize hdepth
  constructor
  · rintro ⟨fuel, ctx', hret, hstack'⟩
    rw [hrun] at hret
    rcases hends (fuel + 1) with ⟨w, n, frame', hend, hvalue, hrounds⟩ | ⟨-, n, t, hn, hrounds⟩
    · have hle : n ≤ fuel := by
        by_contra hlt
        rw [runLoop_short hrounds (Nat.lt_of_not_le hlt)] at hret
        cases hret
      rw [← Nat.sub_add_cancel hle, runLoop_rounds hrounds, runLoop_end (ended hend)] at hret
      cases hret
      cases hstack'
      exact ⟨fuel + 1, hvalue⟩
    · rw [runLoop_short hrounds hn] at hret
      cases hret
  · rintro ⟨fuel, hvalue⟩
    rcases hends fuel with ⟨w, n, frame', hend, hvalue', hrounds⟩ | ⟨htimeout, -⟩
    · obtain rfl : v = w := by
        rcases hvalue with hv | ⟨rfl, env, henv⟩
        · rw [hv] at hvalue'
          rcases hvalue' with hw | ⟨-, env, henv⟩
          · exact CoreOutcome.returned.inj hw
          · cases henv
        · rw [henv] at hvalue'
          rcases hvalue' with hw | ⟨rfl, -⟩
          · cases hw
          · rfl
      refine ⟨0 + n, { ctx with stack := Value.integer v :: rest }, ?_, rfl⟩
      rw [hrun, runLoop_rounds hrounds, runLoop_end (ended hend)]
    · rw [htimeout] at hvalue
      rcases hvalue with hv | ⟨-, env, henv⟩
      · cases hv
      · cases henv

/-- **The assembler is correct on the integer core.** The words that a function is assembled to return
an integer if and only if the direct evaluation of the function does. -/
theorem assemble_core_correct {f : CoreFunction} {A : AsmEnv} (hargs : A.args = f.params)
    (hassigned : f.AssignedBeforeRead) (hthis : f.avoids "this" = true)
    (hslots : f.body.maxVarId + 1 < 2 ^ 31) :
    ∃ insts, (assembleFunction A f.body).Ok [] () insts ∧
      (codeAddress insts insts.length < 2 ^ 31 → (link (f.body.maxVarId + 1) insts).isSome) ∧
      ∀ asm, link (f.body.maxVarId + 1) insts = some asm →
        ∀ (E : Env W) (exec : Execute W) (this : Word) (argv : List Word) (rest : List Value)
          (ctx : Context W), argv.length = f.params.length → ctx.exception = false →
          ctx.stack = (argv.map Value.integer).reverse ++ rest →
          rest.length + 1 + f.depth < 1024 →
          ∀ v, (∃ fuel ctx', run E exec fuel this asm.toCode argv.length ctx = some (true, ctx') ∧
            ctx'.stack = Value.integer v :: rest) ↔ f.Returns argv v := by
  refine ⟨f.code', assembleFunction_core hargs hassigned hthis, ?_, ?_⟩
  · intro hsize
    have hlen := Nat.lt_of_le_of_lt (le_codeAddress (Nat.le_refl _)) hsize
    exact link_isSome _ (f.code_wellFormed (by omega)) hsize
  · intro asm hasm E exec this argv rest ctx hargv hexc hstack hdepth v
    have hlen := Nat.lt_of_le_of_lt (le_codeAddress (Nat.le_refl _)) (link_some hasm).1
    have hinsts := f.code_wellFormed (by omega)
    simp only [run_link hasm hinsts]
    exact f.run_iff hassigned (by omega) (by omega) this hargv hexc hstack hdepth v

instance (f : CoreFunction) : Decidable f.AssignedBeforeRead :=
  inferInstanceAs (Decidable (_ = true))

/-- A function without a class. -/
def plainAsmEnv (args : List String) : AsmEnv :=
  { clazz := none, args := args, chain := fun _ => none, getStatic := fun _ => false
    findClass := fun _ => 0, newString := fun _ => 0 }

/-- `function sum(n) { var s = 0; while (n) { s = s + n; n--; } return s; }` -/
def sumFunction : CoreFunction where
  params := ["n"]
  vars := ["s"]
  code :=
    .simple (.set .unknown .unknown "s" (.integer .integer 0)) <|
    .loop none (.var .unknown "n") none []
      (.simple (.set .unknown .unknown "s"
        (.oper false .add (.var .unknown "s") (.var .unknown "n"))) <|
      .simple (.increment .unknown true .unknown "n") .done) <|
    .ret (some (.var .unknown "s")) .done

theorem assemble_core_correct_sum :
    ∃ asm, link 4 sumFunction.code' = some asm ∧
      ∃ fuel ctx', run (oneClassEnv [] (fun _ => none)) (fun _ _ _ _ => none) fuel 0 asm.toCode 1
          ⟨[Value.integer 3], false, Value.zero, ()⟩ = some (true, ctx') ∧
        ctx'.stack = [Value.integer 6] := by
  obtain ⟨insts, hok, hlink, hrun⟩ := assemble_core_correct (W := Unit) (f := sumFunction)
    (A := plainAsmEnv ["n"]) rfl (by decide) (by decide) (by decide)
  obtain rfl : sumFunction.code' = insts := by
    have hcore := assembleFunction_core (A := plainAsmEnv ["n"]) (f := sumFunction) rfl (by decide)
      (by decide)
    cases hcore.symm.trans hok
    rfl
  obtain ⟨asm, hasm⟩ := Option.isSome_iff_exists.mp (hlink (by decide))
  exact ⟨asm, hasm, (hrun asm hasm _ _ 0 [3] [] _ rfl rfl rfl (by decide) 6).mpr ⟨4, .inl rfl⟩⟩

/-- `function f(this) { return this; }` -/
def thisFunction : CoreFunction where
  params := ["this"]
  vars := []
  code := .ret (some (.var .unknown "this")) .done

/-- A parameter of the name `this` is not seen: slot 0 is read instead of its own. -/
theorem assemble_core_this :
    ∃ insts asm, (assembleFunction (plainAsmEnv ["this"]) thisFunction.body).Ok [] () insts ∧
      link (thisFunction.body.maxVarId + 1) insts = some asm ∧
      thisFunction.AssignedBeforeRead ∧ thisFunction.Returns [5] 5 ∧
      ¬∃ fuel ctx', run (oneClassEnv [] (fun _ => none)) (fun _ _ _ _ => none) fuel 0 asm.toCode 1
          ⟨[Value.integer 5], false, Value.zero, ()⟩ = some (true, ctx') ∧
        ctx'.stack = [Value.integer 5] := by
  have hinsts : ∀ inst ∈ ([⟨.loadVar, [0]⟩, ⟨.ret, []⟩, ⟨.pushI, [0]⟩, ⟨.ret, []⟩] :
      List Instruction), inst.WellFormed
        [⟨.loadVar, [0]⟩, ⟨.ret, []⟩, ⟨.pushI, [0]⟩, ⟨.ret, []⟩] := by
    simp only [List.forall_mem_cons, List.not_mem_nil, false_imp_iff, implies_true, and_true]
    exact ⟨wellFormed_plain (by decide) rfl rfl, wellFormed_plain (by decide) rfl rfl,
      wellFormed_plain (by decide) rfl rfl, wellFormed_plain (by decide) rfl rfl⟩
  obtain ⟨asm, hasm⟩ := Option.isSome_iff_exists.mp
    (link_isSome (thisFunction.body.maxVarId + 1) hinsts (by decide))
  refine ⟨_, asm, rfl, hasm, by decide, ⟨0, .inl rfl⟩, ?_⟩
  rintro ⟨fuel, ctx', hrun, hstack⟩
  rw [run_link hasm hinsts] at hrun
  have hreturn : ctx' = ⟨[Value.object 0], false, Value.zero, ()⟩ := by
    match fuel with
    | 0 | 1 => cases hrun
    | 2 | fuel + 3 =>
      cases hrun
      rfl
  cases hreturn
  cases hstack

end B0rk
