import B0rk.Assembler.Proofs.Flow
import B0rk.Assembler.Proofs.Link
import B0rk.Assembler.Proofs.Remove
import B0rk.Assembler.Proofs.Rewrites

set_option autoImplicit false

/-! # The handlers of an assembled function

The `try`s of the emitted code are balanced, so that in every run the handlers are those of the `try`
bodies around the instruction. -/

namespace B0rk

open Script AsmScript AsmFlow Relation Removal

/-- The open `try`s. -/
def tryAsm : AsmFlow (List ℕ) where
  next := nextTries
  enter pos tries := pos :: tries
  gain := id
  gain_injective := Function.injective_id
  next_jump := by
    intro pos inst tries hop
    refine nextTries_same ?_ ?_ <;> · intro h; rw [h] at hop; cases hop
  next_pushTry := rfl
  next_popTry := rfl
  next_test := by
    intro pos inst tries hop
    refine nextTries_same ?_ ?_ <;> · intro h; rw [h] at hop; revert hop; decide
  next_zero := rfl
  next_compare := rfl

theorem tryAsm_plain {op : OpCode} (hop : op.isPlain = true) (args : List Word) (pos : ℕ)
    (tries : List ℕ) : tryAsm.next pos ⟨op, args⟩ tries = some tries := by
  obtain ⟨haddress, hpop⟩ := OpCode.isStraight_iff.mp (OpCode.isStraight_of_isPlain hop)
  refine nextTries_same ?_ hpop
  rintro rfl
  cases haddress

variable {A : AsmEnv} {s t : List Instruction}

theorem Plain.tries {script : AsmScript} (h : Plain (fun c => tryAsm.Emits A c id) script)
    (hok : (asmFamily A).Succeeds script s t) : tryAsm.Continues s t id := by
  induction script generalizing s with
  | done =>
    obtain ⟨-, rfl⟩ := Attempt.pure_ok.mp hok.1
    exact .refl
  | fail => exact absurd hok.1 (by simp [Script.interp])
  | act e rest ih =>
    obtain ⟨u, he, hrest⟩ := hok.act
    cases e with
    | push op args =>
      obtain rfl := pushInstruction_ok.mp he
      exact (Continues.push h.1 fun _ => tryAsm_plain h.1 _ _ _).trans (ih h.2 hrest)
    | undefined => exact absurd he (by simp [asmFamily, AsmAction.perform])
    | _ => exact h.elim
  | look k ih => exact h.elim
  | call c rest ih =>
    obtain ⟨u, hc, hrest⟩ := hok.call
    exact (h.1 s u hc).trans (ih h.2 hrest)
  | attempt c success rest ih =>
    cases success with
    | some e => exact h.elim
    | none =>
      obtain ⟨u, v, hc, hsuccess, hrest⟩ := hok.attempt
      obtain ⟨-, rfl⟩ := Attempt.pure_ok.mp hsuccess
      exact (h.1 s u hc).trans (ih h.2 hrest)

/-- No call changes which `try`s are open behind its code. -/
theorem AsmStep.tries (step : AsmStep) : tryAsm.Emits A step id := by
  induction hrank : step.rank using Nat.strong_induction_on generalizing step with
  | _ n ih =>
    intro s t h
    have hbelow : ∀ d : AsmStep, d.rank < step.rank → tryAsm.Emits A d id :=
      fun d hd => ih d.rank (hrank ▸ hd) d rfl
    have hgain (x : List ℕ) : tryAsm.gain x = x := rfl
    cases hjumps : step.jumps with
    | false => exact ((plain A hjumps).imp hbelow).tries h
    | true =>
      cases step with
      | expression expr scope place needResult =>
        have hsmaller : ∀ d : AsmStep, d.rank < 8 * sizeOf expr + 4 → tryAsm.Emits A d id := fun d hd =>
          hbelow d (hd.trans_le (expression_rank_alone expr scope place needResult).1)
        cases expr with
        | ifExpr test trueBlock falseBlock =>
          refine ifScript_continues place needResult (hsmaller _ ?_) (.inl hgain) (hsmaller _ ?_) ?_ h
          · simp only [AsmStep.rank, Expression.ifExpr.sizeOf_spec]
            omega
          · simp only [AsmStep.rank, Expression.ifExpr.sizeOf_spec]
            omega
          · rintro block rfl
            refine hsmaller _ ?_
            simp only [AsmStep.rank, Expression.ifExpr.sizeOf_spec, Option.some.sizeOf_spec]
            omega
        | forExpr init test inc body =>
          refine forScript_continues place needResult ?_ (hsmaller _ ?_) (.inl hgain) (hsmaller _ ?_) ?_ h
          · rintro e rfl
            refine hsmaller _ ?_
            simp only [AsmStep.rank, Expression.forExpr.sizeOf_spec, Option.some.sizeOf_spec]
            omega
          · simp only [AsmStep.rank, Expression.forExpr.sizeOf_spec]
            omega
          · simp only [AsmStep.rank, Expression.forExpr.sizeOf_spec]
            omega
          · rintro e rfl
            refine hsmaller _ ?_
            simp only [AsmStep.rank, Expression.forExpr.sizeOf_spec, Option.some.sizeOf_spec]
            omega
        | tryExpr tryBlock exceptionVar catchBlock =>
          refine tryScript_continues place needResult (hsmaller _ ?_) (hsmaller _ ?_) h
          · simp only [AsmStep.rank, Expression.tryExpr.sizeOf_spec]
            omega
          · simp only [AsmStep.rank, Expression.tryExpr.sizeOf_spec]
            omega
        | _ => cases hjumps
      | _ => cases hjumps

theorem balanced_function {code : CodeBlock} (hok : (assembleFunction A code).Ok [] () t)
    (htests : TestsAccepted A code) : Balanced t := by
  have hnothing := (nothingDropped_function_iff hok).mpr htests
  obtain ⟨seg, rfl, hseg⟩ := AsmStep.tries (.function code) [] t (Family.succeeds_body hnothing hok)
  exact hseg []

/-! ## Optimised code -/

section

variable {code code' : List Instruction}

theorem Balanced.hasAddress (h : Balanced code) : ∀ inst ∈ code, inst.HasAddress := by
  intro inst hinst arg harg
  obtain ⟨pos, hpos⟩ := List.mem_iff_getElem?.mp hinst
  obtain ⟨k, -, ⟨arg', harg', haddr⟩, -⟩ := h.closed pos inst hpos
    (show inst.op.address.isSome = true by rw [harg]; rfl) (Set.notMem_empty _)
  rw [harg] at harg'
  cases harg'
  exact ⟨_, haddr⟩

/-- What becomes of an instruction that stays, at another place. -/
theorem nextTries_map {inst inst' : Instruction} {pos pos' : ℕ} {place : ℕ → ℕ} {tries tries' : List ℕ}
    (hop : inst'.op = inst.op) (hpos : pos' = place pos) (h : nextTries pos inst tries = some tries') :
    nextTries pos' inst' (tries.map place) = some (tries'.map place) := by
  subst hpos
  unfold nextTries at h ⊢
  rw [hop]
  split at h
  · cases h
    rfl
  · cases tries with
    | nil => cases h
    | cons pos tries =>
      cases h
      rfl
  · cases h
    rfl

theorem nextTries_straight {inst : Instruction} (h : inst.op.isStraight = true) (pos : ℕ)
    (tries : List ℕ) : nextTries pos inst tries = some tries := by
  obtain ⟨haddress, hpop⟩ := OpCode.isStraight_iff.mp h
  refine nextTries_same ?_ hpop
  intro hop
  rw [hop] at haddress
  cases haddress

theorem Stays.nextTries {inst inst' : Instruction} (h : Stays inst inst') (pos : ℕ) {tries tries' : List ℕ}
    (hnext : B0rk.nextTries pos inst tries = some tries') :
    B0rk.nextTries pos inst' tries = some tries' := by
  rcases h with rfl | ⟨hstraight, hstraight', -⟩
  · exact hnext
  · exact (nextTries_straight hstraight' pos tries).trans
      ((nextTries_straight hstraight pos tries).symm.trans hnext)

theorem Stays.same_of_address {inst inst' : Instruction} (h : Stays inst inst')
    (haddress : inst'.op.address.isSome = true) : inst' = inst := by
  rcases h with rfl | ⟨-, hstraight', -⟩
  · rfl
  · rw [(OpCode.isStraight_iff.mp hstraight').1] at haddress
    cases haddress

theorem Balanced.replace (h : Balanced code) (hstays : StaysAll code code') : Balanced code' := by
  have hkept (i : ℕ) (inst : Instruction) (hi : code[i]? = some inst) :
      tryFlow.Kept code code' id id i inst := by
    obtain ⟨inst', hi', hstay⟩ := hstays.stays i inst hi
    refine .inr ⟨inst', rfl, hi', fun _ _ => hstay.nextTries i, fun hjump => ?_⟩
    obtain rfl := hstay.same_of_address hjump
    exact ⟨hjump, fun _ _ hgoes => hgoes⟩
  exact StateFlow.Closed.keep h rfl hstays.length.symm hkept

theorem StraightAt.remove {positions : List ℕ} (hpositions : StraightAt code positions)
    (hcode : ∀ inst ∈ code, inst.HasAddress) (h : removeInstructions positions 0 code = some code') :
    code' = (survivors positions 0 code).map (renumber (newPos positions)) := by
  have hremoved := removeInstructions_eq 0 code hpositions.sorted (fun r hr => by
    obtain ⟨inst, hinst, -⟩ := hpositions.straight r hr
    exact ⟨Nat.zero_le r, (List.getElem?_eq_some_iff.mp hinst).1⟩) hcode
  have hmap : positions.map (· - 0) = positions := List.map_id _
  rw [hmap, h] at hremoved
  exact Option.some.inj hremoved

theorem Balanced.remove (h : Balanced code) (hlen : code.length < 2 ^ 64) {positions : List ℕ}
    (hpositions : StraightAt code positions) (hremove : removeInstructions positions 0 code = some code') :
    Balanced code' := by
  obtain rfl := hpositions.remove h.hasAddress hremove
  have hsorted := hpositions.sorted
  have hkept (i : ℕ) (inst : Instruction) (hi : code[i]? = some inst) : tryFlow.Kept code
      ((survivors positions 0 code).map (renumber (newPos positions))) (newPos positions)
      (List.map (newPos positions)) i inst := by
    have hsucc := newPos_succ (t := i) hsorted
    by_cases hmem : i ∈ positions
    · obtain ⟨inst', hi', hstraight⟩ := hpositions.straight i hmem
      cases hi.symm.trans hi'
      refine .inl ⟨by rw [hsucc, if_pos hmem], fun tries tries' hnext => ?_⟩
      cases (nextTries_straight hstraight i tries).symm.trans hnext
      rfl
    · refine .inr ⟨renumber (newPos positions) inst, by rw [hsucc, if_neg hmem], ?_,
        fun _ _ => nextTries_map renumber_op rfl, fun hjump => ⟨?_, fun k hk hgoes => ?_⟩⟩
      · rw [List.getElem?_map, getElem?_newPos hsorted (List.getElem?_eq_some_iff.mp hi).1 hmem, hi]
        rfl
      · have hjump : (renumber (newPos positions) inst).op.address.isSome = true := hjump
        rw [renumber_op] at hjump
        exact hjump
      · obtain ⟨arg, harg, haddr⟩ := hgoes
        refine ⟨arg, by rw [renumber_op, harg], ?_⟩
        simp only [renumber, harg, List.getElem?_modify_eq, haddr, Option.map_eq_map, Option.map_some]
        rw [BitVec.toNat_ofNat, Nat.mod_eq_of_lt (by omega)]
  exact StateFlow.Closed.keep h (by simp [newPos]) (by rw [newPos_length hsorted, List.length_map]) hkept

/-- What the rewrites of the optimiser keep. -/
structure SoundTries (code : List Instruction) : Prop where
  balanced : Balanced code
  length : code.length < 2 ^ 64
  proper : ∀ inst ∈ code, inst.op.Proper

theorem SoundTries.rewrite (h : SoundTries code) (hrewrite : Rewrite code code') : SoundTries code' := by
  cases hrewrite with
  | replace hstays =>
    refine ⟨h.balanced.replace hstays, hstays.length ▸ h.length, fun inst' hinst' => ?_⟩
    obtain ⟨i, hi'⟩ := List.mem_iff_getElem?.mp hinst'
    have hlt : i < code.length := hstays.length ▸ (List.getElem?_eq_some_iff.mp hi').1
    obtain ⟨inst₁, hi₁, hstay⟩ := hstays.stays i _ (List.getElem?_eq_getElem hlt)
    cases hi₁.symm.trans hi'
    exact hstay.proper (h.proper _ (List.getElem_mem hlt))
  | remove hpositions hremove =>
    have hbalanced := h.balanced.remove h.length hpositions hremove
    obtain rfl := hpositions.remove h.balanced.hasAddress hremove
    refine ⟨hbalanced, ?_, fun inst hinst => ?_⟩
    · rw [List.length_map, ← newPos_length hpositions.sorted]
      exact newPos_le.trans_lt h.length
    · obtain ⟨inst', hinst', rfl⟩ := List.mem_map.mp hinst
      rw [renumber_op]
      exact h.proper inst' (survivors_subset hinst')

theorem SoundTries.rewrites (h : SoundTries code) (hrewrites : ReflTransGen Rewrite code code') : SoundTries code' := by
  induction hrewrites with
  | refl => exact h
  | tail _ hrewrite ih => exact ih.rewrite hrewrite

end

/-! ## The opcodes that are emitted -/

/-- An action that emits proper opcodes. -/
def AsmAction.EmitsProper (e : AsmAction) : Prop := ∀ op args, e = .push op args → op.Proper

theorem Plain.emitsProper {P : AsmStep → Prop} {script : AsmScript} (h : Plain P script) :
    AllActs AsmAction.EmitsProper script := by
  induction script with
  | done | fail => trivial
  | act e rest ih =>
    cases e with
    | push op args =>
      refine ⟨?_, ih h.2⟩
      rintro _ _ ⟨⟩
      exact OpCode.proper_of_isPlain h.1
    | undefined => exact ⟨by rintro _ _ ⟨⟩, ih h⟩
    | _ => exact h.elim
  | look k ih => exact h.elim
  | call c rest ih => exact ih h.2
  | attempt c success rest ih =>
    cases success with
    | none => exact ⟨by rintro _ ⟨⟩, ih h.2⟩
    | some e => exact h.elim

theorem AsmStep.emitsProper (step : AsmStep) : AllActs AsmAction.EmitsProper (step.script A) := by
  have hbranch : AsmAction.EmitsProper .branch := by rintro _ _ ⟨⟩
  have hjump (dest : Option ℕ) : AsmAction.EmitsProper (.jump dest) := by rintro _ _ ⟨⟩
  have hpatch (pos : Option ℕ) (arg : ℕ) : AsmAction.EmitsProper (.patch pos arg) := by rintro _ _ ⟨⟩
  have hoptional {expr : Option Expression} {scope : Scope} {place : Place} {needResult : Bool}
      {rest : AsmScript} (h : AllActs AsmAction.EmitsProper rest) :
      AllActs AsmAction.EmitsProper (AsmScript.optional expr scope place needResult rest) := by
    cases expr <;> exact h
  have hsuccess : ∀ e, some AsmAction.branch = some e → e.EmitsProper := by
    rintro _ ⟨⟩
    exact hbranch
  cases hjumps : step.jumps with
  | false => exact (plain A hjumps).emitsProper
  | true =>
    cases step with
    | expression expr scope place needResult =>
      cases expr with
      | ifExpr test trueBlock falseBlock =>
        rw [script, expressionScript]
        cases falseBlock with
        | none => exact ⟨hsuccess, fun _ => ⟨hpatch _ _, trivial⟩⟩
        | some falseBlock =>
          exact ⟨hsuccess, fun _ => ⟨hjump _, fun _ => ⟨hpatch _ _, hpatch _ _, trivial⟩⟩⟩
      | forExpr init test inc body =>
        rw [script, expressionScript]
        exact hoptional fun _ => ⟨hsuccess, fun _ => hoptional ⟨hjump _, hpatch _ _, trivial⟩⟩
      | tryExpr tryBlock exceptionVar catchBlock =>
        rw [script, expressionScript]
        cases Scope.getVarId A.args (catchBlock :: scope) exceptionVar with
        | none => trivial
        | some excepVar =>
          have hhandler : AsmAction.EmitsProper (.handler excepVar) := by rintro _ _ ⟨⟩
          have hpop : AsmAction.EmitsProper (.push .popTry []) := by
            rintro _ _ ⟨⟩
            decide
          exact ⟨hhandler, fun _ => ⟨hpop, hjump _, fun _ => ⟨hpatch _ _, hpatch _ _, trivial⟩⟩⟩
      | _ => cases hjumps
    | _ => cases hjumps

theorem perform_proper {e : AsmAction} (he : e.EmitsProper) (h : e.perform.Ok s () t)
    (hs : ∀ inst ∈ s, inst.op.Proper) : ∀ inst ∈ t, inst.op.Proper := by
  have hpush {op : OpCode} {args : List Word} (hop : op.Proper)
      (h : (pushInstruction op args).Ok s () t) : ∀ inst ∈ t, inst.op.Proper := by
    obtain rfl := pushInstruction_ok.mp h
    simp only [List.mem_append, List.mem_singleton]
    rintro inst (hinst | rfl)
    · exact hs inst hinst
    · exact hop
  cases e with
  | push op args => exact hpush (he op args rfl) h
  | jump dest => exact hpush (by decide) h
  | handler var => exact hpush (by decide) h
  | branch =>
    rcases finishTest_shapes h with ⟨init, inst, op, rfl, -, rfl, hop⟩ | rfl
    · simp only [List.mem_append, List.mem_singleton] at hs ⊢
      rintro inst' (hinst | rfl)
      · exact hs inst' (.inl hinst)
      · cases op <;> first | cases hop; done | decide
    · simp only [List.mem_append, List.mem_cons, List.not_mem_nil, or_false]
      rintro inst (hinst | rfl | rfl | rfl)
      · exact hs inst hinst
      · decide
      · decide
      · decide
  | patch pos arg =>
    simp only [AsmAction.perform, Attempt.Ok, B0rk.patch, Option.bind_eq_bind,
      Option.bind_eq_some_iff] at h
    obtain ⟨pos, _, inst, hinst, h⟩ := h
    split at h
    · cases h
      intro inst' hinst'
      rcases List.mem_or_eq_of_mem_set hinst' with hmem | rfl
      · exact hs inst' hmem
      · exact hs inst (List.mem_of_getElem? hinst)
    · cases h
  | undefined => exact absurd h (by simp [AsmAction.perform])

theorem soundTries_function {code : CodeBlock} (hok : (assembleFunction A code).Ok [] () t)
    (htests : TestsAccepted A code) (hlen : t.length < 2 ^ 64) : SoundTries t := by
  have hnothing := (nothingDropped_function_iff hok).mpr htests
  refine ⟨balanced_function hok htests, hlen, ?_⟩
  exact (Family.succeeds_body hnothing hok).keeps (AsmStep.calls_rank A) AsmStep.emitsProper
    (fun _ _ _ => perform_proper) nofun

/-! ## Linked code -/

section

variable {W : Type} {E : Env W} {exec : Execute W} {insts : List Instruction} {localVars : ℕ}
  {asm : AssembledCode}

theorem linkWords_mem {all insts : List Instruction} {words : List Word}
    (h : linkWords all insts = some words) : ∀ inst ∈ insts, ∃ words, linkInstruction all inst = some words := by
  induction insts generalizing words with
  | nil => exact nofun
  | cons first rest ih =>
    obtain ⟨words₁, hfirst, h⟩ := Option.bind_eq_some_iff.mp h
    obtain ⟨words₂, hrest, -⟩ := Option.bind_eq_some_iff.mp h
    intro inst hinst
    rcases List.mem_cons.mp hinst with rfl | hinst
    · exact ⟨words₁, hfirst⟩
    · exact ih hrest inst hinst

/-- What has been linked was as `assemble` asks. -/
theorem wellFormed_of_link (hproper : ∀ inst ∈ insts, inst.op.Proper)
    (h : link localVars insts = some asm) : ∀ inst ∈ insts, inst.WellFormed insts := by
  intro inst hinst
  obtain ⟨words, hwords⟩ := linkWords_mem (link_some h).2.1 inst hinst
  obtain ⟨hargs, args, hlink, -⟩ := linkInstruction_some hwords
  refine ⟨hproper inst hinst, hargs.symm, fun j arg hj harg => ?_⟩
  unfold linkArgs at hlink
  rw [hj] at hlink
  simp only [harg, Option.bind_eq_bind, Option.bind_some] at hlink
  split at hlink
  · next hlt => exact hlt
  · cases hlink

/-- The handler that a `PUSHTRY` of the linked code installs. -/
def linkedHandlerAt (insts : List Instruction) (pos : ℕ) : Option ExceptionHandler :=
  (handlerAt insts pos).map fun handler => ⟨handler.excepVar, codeAddress insts handler.handlerPC⟩

/-- The run of linked code, at an instruction whose open `try`s are those of the handlers. -/
def LinkedHandlersOpen (insts : List Instruction) (frame : Frame) : Prop :=
  ∃ i tries, (frame.running = true → frame.pc = codeAddress insts i) ∧ openTries insts i = some tries ∧
    frame.handlerStack.map some = tries.map (linkedHandlerAt insts)

theorem HandlersOpen.linked {frame frame' : Frame} {code : Code} (h : HandlersOpen insts frame)
    (hrel : Relocated (codeAddress insts) code frame' frame) : LinkedHandlersOpen insts frame' := by
  obtain ⟨tries, htries, hhandlers⟩ := h
  have hrunning : frame'.running = frame.running := by rw [hrel.eq]
  have hstack : frame'.handlerStack =
      frame.handlerStack.map fun h => ⟨h.excepVar, codeAddress insts h.handlerPC⟩ := by rw [hrel.eq]
  refine ⟨frame.pc, tries, fun h => hrel.address (hrunning ▸ h), htries, ?_⟩
  have hmap := congrArg (List.map (Option.map fun h : ExceptionHandler =>
    (⟨h.excepVar, codeAddress insts h.handlerPC⟩ : ExceptionHandler))) hhandlers
  rw [List.map_map, List.map_map] at hmap
  rw [hstack, List.map_map]
  exact hmap

theorem SoundTries.linkedHandlersOpen (hinsts : SoundTries insts) (h : link localVars insts = some asm)
    {thisObj : Word} {argCount : ℕ} {ctx ctx₀ : Context W} {frame₀ : Frame}
    (henter : enter E thisObj asm.toCode argCount ctx = some (ctx₀, frame₀)) {s : Context W × Frame}
    (hrun : Arrives E exec (ctx₀, frame₀) s) : LinkedHandlersOpen insts s.2 := by
  have hrel := enter_link E h thisObj argCount ctx
  rw [henter] at hrel
  obtain ⟨⟨ctx₁, frame₁⟩, henter', rfl, hframe, hcode⟩ :
      ∃ r, enter E thisObj (Code.ofInstructions localVars insts) argCount ctx = some r ∧ ctx₀ = r.1 ∧
        Relocated (codeAddress insts) asm.toCode frame₀ r.2 ∧
        r.2.code = Code.ofInstructions localVars insts := by
    revert hrel
    generalize enter E thisObj (Code.ofInstructions localVars insts) argCount ctx = r
    rintro (hr | _)
    exact ⟨_, rfl, hr⟩
  obtain ⟨-, -, -, hpc, -, hstack, -⟩ := enter_some henter'
  have hstart : HandlersOpen insts frame₁ := ⟨[], by rw [hpc]; rfl, by rw [hstack]; rfl⟩
  obtain ⟨g, hg, hgrel, -⟩ := arrives_link h (wellFormed_of_link hinsts.proper h) hframe hcode hrun
  exact (hinsts.balanced.handlersOpen hinsts.length hcode hstart hg).linked hgrel

end

/-- **The handlers of an activation are those of the `try` bodies around its instruction, in every run of
    the words of an assembled function**, optimised or not. An exception goes to a place outside the `try`
    whose handler it takes, and a `POPTRY` stands inside a `try`. -/
theorem assemble_handlers {W : Type} (E : Env W) (exec : Execute W) {D : DoubleOps} {code : CodeBlock}
    {localVars argCount fuel : ℕ} {insts : List Instruction} {asm : AssembledCode}
    (hok : (assembleFunction A code).Ok [] () t) (htests : TestsAccepted A code) (hlen : t.length < 2 ^ 64)
    (hoptimise : insts = t ∨ optimise D localVars argCount fuel t = some insts)
    (hlink : link localVars insts = some asm) :
    (∀ thisObj count ctx ctx₀ frame₀, enter E thisObj asm.toCode count ctx = some (ctx₀, frame₀) →
      ∀ s, Arrives E exec (ctx₀, frame₀) s → LinkedHandlersOpen insts s.2) ∧
    (∀ (pos : ℕ) args dest, insts[pos]? = some ⟨.pushTry, args⟩ → args[1]? = some dest →
      openTries insts dest.toNat = openTries insts pos) ∧
    ∀ (pos : ℕ) args, insts[pos]? = some ⟨.popTry, args⟩ →
      ∃ pushPos outer, openTries insts pos = some (pushPos :: outer) := by
  have hsound : SoundTries insts := by
    have hfunction := soundTries_function hok htests hlen
    rcases hoptimise with rfl | hoptimise
    · exact hfunction
    · exact hfunction.rewrites (optimise_rewrites hoptimise)
  refine ⟨fun _ _ _ _ _ henter _ hrun => hsound.linkedHandlersOpen hlink henter hrun,
    fun pos args dest hinst hdest => hsound.balanced.target hsound.length hinst rfl hdest,
    fun pos args hinst => ?_⟩
  obtain ⟨tries, htries⟩ := StateFlow.scan_take hsound.balanced.ends (pos + 1)
  have hsucc := openTries_succ hinst
  rw [openTries, htries] at hsucc
  obtain ⟨before, hbefore, hnext⟩ := Option.bind_eq_some_iff.mp hsucc.symm
  cases before with
  | nil => cases hnext
  | cons pushPos outer => exact ⟨pushPos, outer, hbefore⟩

/-- `throw 1` -/
def throwingBlock : CodeBlock := .mk true 1 1 [] [.throwExpr (.integer .integer 1)]

/-- A block that only names the exception. -/
def catchingBlock : CodeBlock := .mk true 1 2 ["e"] []

/-- `try { throw 1 } catch (e) { }` -/
def throwingBody : CodeBlock := .mk false 1 1 [] [.tryExpr throwingBlock "e" catchingBlock]

def throwingCode : List Instruction :=
  [⟨.pushTry, [1, 5]⟩, ⟨.pushI, [1]⟩, ⟨.throw, []⟩, ⟨.popTry, []⟩, ⟨.jmp, [5]⟩, ⟨.pushI, [0]⟩, ⟨.ret, []⟩]

/-- The calls that assemble it. -/
def throwingSteps : List AsmStep :=
  let scope : Scope := [throwingBody]
  let inner : Scope := [throwingBlock, throwingBody]
  [.function throwingBody, .block throwingBody [], .statements throwingBody.code scope,
    .expression (.tryExpr throwingBlock "e" catchingBlock) scope (.alone false) false,
    .statements [] scope, .block throwingBlock scope, .statements throwingBlock.code inner,
    .expression (.throwExpr (.integer .integer 1)) inner (.alone false) false,
    .statements [] inner, .expression (.integer .integer 1) inner (.alone false) true,
    .block catchingBlock scope, .statements [] [catchingBlock, throwingBody]]

theorem throwingBody_tests : TestsAccepted emptyEnv throwingBody := by
  have hbody : throwingBody.code = [.tryExpr throwingBlock "e" catchingBlock] := rfl
  have hblock : throwingBlock.code = [.throwExpr (.integer .integer 1)] := rfl
  have hcatch : catchingBlock.code = [] := rfl
  have hvar : Scope.getVarId emptyEnv.args [catchingBlock, throwingBody] "e" = some 1 := by decide
  have hclosed : ∀ c ∈ throwingSteps, AllCalls (· ∈ throwingSteps) ((asmFamily emptyEnv).body c) := by
    intro c hc
    simp only [throwingSteps, List.mem_cons, List.not_mem_nil, or_false] at hc
    rcases hc with rfl | rfl | rfl | rfl | rfl | rfl | rfl | rfl | rfl | rfl | rfl | rfl <;>
      simp [asmFamily, AsmStep.script, expressionScript, AllCalls, AsmScript.push, AsmScript.withLast,
        throwingSteps, hbody, hblock, hcatch, hvar]
  intro c test scope hc htest hrefuses
  have hmem := hc.preserves hclosed (List.mem_cons_self ..)
  simp only [throwingSteps, List.mem_cons, List.not_mem_nil, or_false] at hmem
  rcases hmem with rfl | rfl | rfl | rfl | rfl | rfl | rfl | rfl | rfl | rfl | rfl | rfl <;> cases htest

def throwingAsm : AssembledCode :=
  ⟨[0x801, 1, 9, 0x310, 1, 0x800, 0x802, 0x700, 9, 0x310, 0, 0x507], 12, 2⟩

/-- The states of a run of it. -/
def throwingState (pc : ℕ) (operands : List Value) (handlers : List ExceptionHandler) :
    Context Unit × Frame :=
  (⟨operands ++ [⟨.frame, 1⟩], false, Value.zero, ()⟩,
    { addr := 1, code := throwingAsm.toCode, running := true, pc := pc, flags := ⟨false, false, false⟩
      localVars := [Value.object 0, Value.zero], handlerStack := handlers })

/-- In front of the `THROW`, the handler is that of the `try` around it. -/
theorem throwingBody_handlers :
    LinkedHandlersOpen throwingCode (throwingState 5 [Value.integer 1] [⟨1, 9⟩]).2 := by
  have hpush : Round exceptionEnv (execute exceptionEnv 0) (throwingState 0 [] []) true
      (throwingState 3 [] [⟨1, 9⟩]) := ⟨rfl, rfl, rfl⟩
  have hvalue : Round exceptionEnv (execute exceptionEnv 0) (throwingState 3 [] [⟨1, 9⟩]) true
      (throwingState 5 [Value.integer 1] [⟨1, 9⟩]) := ⟨rfl, rfl, rfl⟩
  have hoptimise : optimise exceptionEnv.double 2 0 1 throwingCode = some throwingCode := by rfl
  have henter : enter exceptionEnv 0 throwingAsm.toCode 0 (⟨[], false, Value.zero, ()⟩ : Context Unit) =
      some (throwingState 0 [] []) := rfl
  exact (assemble_handlers exceptionEnv (execute exceptionEnv 0) (by rfl) throwingBody_tests (by decide)
    (.inr hoptimise) (by rfl)).1 _ _ _ _ _ henter _ (.head ⟨true, hpush⟩ (.single ⟨true, hvalue⟩))

end B0rk
