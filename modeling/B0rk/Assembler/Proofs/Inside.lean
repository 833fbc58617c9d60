import B0rk.Assembler.Proofs.Beyond

set_option autoImplicit false

/-! # Where every read stays inside

A pass of the optimiser that has a result has read no operand and no variable behind the end, so it is
the same pass with anything there. -/

namespace B0rk

namespace Beyond

variable {B : Beyond} {D : DoubleOps} {code code' : List Instruction} {inst inst' : Instruction}
  {vars vars' : List VarInfo} {pos localVars argCount : ℕ}

theorem operand_eq {v : Word} (h : inst.args[0]? = some v) : B.operand inst = some v := by
  simp [operand, h]

theorem operandInfo_eq {v : Word} {info : VarInfo} (hv : inst.args[0]? = some v)
    (hinfo : vars[v.toNat]? = some info) : B.operandInfo vars inst = some (v, info) := by
  simp [operandInfo, operand_eq hv, hinfo]

/-! ## Variables -/

theorem pushedConstant_eq {s : InferState} {value : Value}
    (h : B0rk.pushedConstant inst = some value) : B.pushedConstant s inst = value := by
  unfold B0rk.pushedConstant at h
  split at h
  · next hop =>
    obtain ⟨v, hv, rfl⟩ := Option.map_eq_some_iff.mp h
    simp [pushedConstant, hop, operand_eq hv]
  · next hop =>
    obtain ⟨v, hv, rfl⟩ := Option.map_eq_some_iff.mp h
    simp [pushedConstant, hop, operand_eq hv]
  · next hI hD =>
    obtain rfl := Option.some.inj h
    unfold pushedConstant
    split
    · next hop => exact absurd hop hI
    · next hop => exact absurd hop hD
    · rfl

theorem inferInstruction_eq {s : InferState} {result : Instruction × InferState}
    (h : B0rk.inferInstruction s inst = some result) : B.inferInstruction s inst = result := by
  unfold B0rk.inferInstruction at h
  split at h
  · next hop =>
    simp only [Option.bind_eq_bind, Option.bind_eq_some_iff] at h
    obtain ⟨v, hv, info, hinfo, h⟩ := h
    obtain rfl := Option.some.inj h
    simp only [inferInstruction, hop, operandInfo_eq hv hinfo, hv]
  · next hop =>
    simp only [Option.bind_eq_bind, Option.bind_eq_some_iff] at h
    obtain ⟨v, hv, info, hinfo, h⟩ := h
    obtain rfl := Option.some.inj h
    simp only [inferInstruction, hop, operandInfo_eq hv hinfo]
  · next hop =>
    simp only [Option.bind_eq_bind, Option.bind_eq_some_iff] at h
    obtain ⟨v, hv, info, hinfo, h⟩ := h
    obtain rfl := Option.some.inj h
    simp only [inferInstruction, hop, operandInfo_eq hv hinfo]
  · next hop =>
    simp only [Option.bind_eq_bind, Option.bind_eq_some_iff] at h
    obtain ⟨v, hv, info, hinfo, h⟩ := h
    obtain rfl := Option.some.inj h
    simp only [inferInstruction, hop, operandInfo_eq hv hinfo]
  · next hload hstore hinc hincD =>
    obtain ⟨value, hvalue, h⟩ := Option.bind_eq_some_iff.mp h
    simp only [inferInstruction, pushedConstant_eq (B := B) (s := s) hvalue]
    split at h
    · next htype =>
      rw [if_pos htype]
      exact Option.some.inj h
    · next htype =>
      rw [if_neg htype]
      split at h
      · next hdup =>
        rw [if_pos hdup]
        exact Option.some.inj h
      · next hdup =>
        rw [if_neg hdup]
        exact Option.some.inj h

theorem inferTypes_eq {s : InferState} (h : B0rk.inferTypes code s = some (code', vars)) :
    B.inferTypes code s = (code', vars) := by
  induction code generalizing s code' vars with
  | nil =>
    obtain ⟨rfl, rfl⟩ := Prod.mk.inj (Option.some.inj h)
    rfl
  | cons inst rest ih =>
    simp only [B0rk.inferTypes, Option.bind_eq_bind, Option.bind_eq_some_iff] at h
    obtain ⟨⟨inst', s'⟩, hinst, ⟨rest', vars'⟩, hrest, h⟩ := h
    obtain ⟨rfl, rfl⟩ := Prod.mk.inj (Option.some.inj h)
    simp [inferTypes, inferInstruction_eq (B := B) hinst, ih hrest]

/-- A `LOAD_VAR` has no operand but the variable. -/
def OneOperand (code : List Instruction) : Prop :=
  ∀ inst ∈ code, inst.op = .loadVar → inst.args.length ≤ 1

theorem replaceLoads_eq (hcode : OneOperand code)
    (h : B0rk.replaceLoads code vars = some (code', vars')) :
    B.replaceLoads code vars = (code', vars') := by
  induction code generalizing vars code' vars' with
  | nil =>
    obtain ⟨rfl, rfl⟩ := Prod.mk.inj (Option.some.inj h)
    rfl
  | cons inst rest ih =>
    have hrest : OneOperand rest := fun inst' hinst' => hcode inst' (List.mem_cons_of_mem _ hinst')
    simp only [B0rk.replaceLoads] at h
    split at h
    · next hop =>
      simp only [Option.bind_eq_bind, Option.bind_eq_some_iff] at h
      obtain ⟨v, hv, info, hinfo, h⟩ := h
      cases hconstant : info.constant with
      | some c =>
        simp only [hconstant, Option.bind_eq_some_iff] at h
        obtain ⟨⟨rest', vars''⟩, hrest', h⟩ := h
        obtain ⟨rfl, rfl⟩ := Prod.mk.inj (Option.some.inj h)
        have hargs : inst.args = [v] := by
          have hlen := hcode inst (List.mem_cons_self ..) hop
          rcases hinst : inst.args with _ | ⟨v', _ | ⟨w, args⟩⟩
          · simp [hinst] at hv
          · simpa [hinst] using hv
          · simp [hinst] at hlen
        have hpush : (⟨(pushConstant c).op, inst.args.set 0 c.bits⟩ : Instruction) =
            pushConstant c := by
          rw [hargs]
          rfl
        simp [replaceLoads, replaceLoad, hop, operandInfo_eq hv hinfo, hconstant, hpush,
          ih hrest hrest']
      | none =>
        simp only [hconstant, Option.bind_eq_some_iff] at h
        obtain ⟨⟨rest', vars''⟩, hrest', h⟩ := h
        obtain ⟨rfl, rfl⟩ := Prod.mk.inj (Option.some.inj h)
        simp [replaceLoads, replaceLoad, hop, operandInfo_eq hv hinfo, hconstant, ih hrest hrest']
    · next hop =>
      obtain ⟨⟨rest', vars''⟩, hrest', h⟩ := Option.bind_eq_some_iff.mp h
      obtain ⟨rfl, rfl⟩ := Prod.mk.inj (Option.some.inj h)
      simp [replaceLoads, replaceLoad, hop, ih hrest hrest']

theorem deadStores_eq {prevOp : OpCode} {removeList : List ℕ}
    (h : B0rk.deadStores vars code pos prevOp = some removeList) :
    B.deadStores vars code pos prevOp = removeList := by
  induction code generalizing pos prevOp removeList with
  | nil =>
    obtain rfl := Option.some.inj h
    rfl
  | cons inst rest ih =>
    simp only [B0rk.deadStores, Option.bind_eq_bind, Option.bind_eq_some_iff] at h
    obtain ⟨removed, hrest, h⟩ := h
    simp only [deadStores, ih hrest]
    split at h
    · next hop =>
      simp only [Option.bind_eq_some_iff] at h
      obtain ⟨v, hv, info, hinfo, h⟩ := h
      have hdead : B.isDeadStore vars inst = true ↔ info.loaded = 0 := by
        simp [isDeadStore, hop, operandInfo_eq hv hinfo]
      simp only [hdead]
      split at h <;> next hcond =>
        obtain rfl := Option.some.inj h
        simp [hcond]
    · next hop =>
      obtain rfl := Option.some.inj h
      simp [isDeadStore, hop]

/-! ## Removing instructions -/

theorem removeInstruction_eq (h : B0rk.removeInstruction pos code = some code') :
    removeInstruction pos code = code' := by
  have hmap : ∀ {l l' : List Instruction}, l.mapM (removeAddress pos) = some l' →
      l.map (fun inst => (removeAddress pos inst).getD inst) = l' := by
    intro l l' h
    induction l generalizing l' with
    | nil => exact Option.some.inj h
    | cons inst l ih =>
      simp only [List.mapM_cons, Option.bind_eq_bind, Option.bind_eq_some_iff] at h
      obtain ⟨inst', hinst, rest, hrest, h⟩ := h
      obtain rfl := Option.some.inj h
      simp [hinst, ih hrest]
  exact hmap h

theorem removeInstructions_eq {removeList : List ℕ}
    (h : B0rk.removeInstructions removeList pos code = some code') :
    removeInstructions removeList pos code = code' := by
  induction removeList generalizing pos code with
  | nil => exact Option.some.inj h
  | cons r removeList ih =>
    obtain ⟨code₁, hfirst, hrest⟩ := Option.bind_eq_some_iff.mp h
    rw [removeInstructions, removeInstruction_eq hfirst, ih hrest]

/-! ## Arithmetic -/

theorem operandAt_eq {s : ArithmeticState} {v : Word} (h : s.operand pos = some v) :
    B.operandAt s pos = some v := by
  obtain ⟨inst, hinst, hv⟩ := Option.bind_eq_some_iff.mp h
  simp [operandAt, hinst, operand_eq hv]

theorem foldConstants_eq {s s' : ArithmeticState}
    (h : B0rk.foldConstants D pos inst s = some s') : B.foldConstants D pos inst s = some s' := by
  unfold B0rk.foldConstants at h
  unfold foldConstants
  split at h
  · next htypes =>
    rw [if_pos htypes]
    split at h
    · next hinteger =>
      simp only [Option.bind_eq_bind, Option.bind_eq_some_iff] at h
      obtain ⟨i1, hi1, i2, hi2, result, hresult, h⟩ := h
      simp only [operandAt_eq hi1, operandAt_eq hi2, hinteger, if_true, hresult, Option.bind_eq_bind,
        Option.bind_some]
      exact h
    · next hinteger =>
      split at h
      · next hdouble =>
        simp only [Option.bind_eq_bind, Option.bind_eq_some_iff] at h
        obtain ⟨d1, hd1, d2, hd2, h⟩ := h
        simp only [operandAt_eq hd1, operandAt_eq hd2, hdouble, if_true]
        exact h
      · next hdouble =>
        obtain rfl := Option.some.inj h
        split
        · rw [if_neg hinteger, if_neg hdouble]
        · rfl
  · next htypes =>
    rw [if_neg htypes]
    exact h

theorem foldIncrement_eq {s s' : ArithmeticState}
    (h : B0rk.foldIncrement pos inst s = some s') : B.foldIncrement pos inst s = s' := by
  simp only [B0rk.foldIncrement, Option.bind_eq_bind, Option.bind_eq_some_iff] at h
  obtain ⟨var, hvar, h⟩ := h
  unfold foldIncrement
  split at h
  · next htypes =>
    obtain ⟨d, hd, h⟩ := Option.bind_eq_some_iff.mp h
    rw [if_pos htypes]
    simp only [operandAt_eq hvar, operandAt_eq hd]
    split at h
    · cases h
    · exact Option.some.inj h
  · next htypes =>
    rw [if_neg htypes]
    exact Option.some.inj h

theorem foldInstruction_eq {s s' : ArithmeticState}
    (h : B0rk.foldInstruction D pos inst s = some s') :
    B.foldInstruction D pos inst s = some s' := by
  unfold B0rk.foldInstruction at h
  unfold foldInstruction
  split at h
  · next hconstants =>
    rw [if_pos hconstants]
    exact foldConstants_eq h
  · next hconstants =>
    rw [if_neg hconstants]
    split at h
    · next hincrement => rw [if_pos hincrement, foldIncrement_eq h]
    · next hincrement =>
      rw [if_neg hincrement]
      exact h

theorem arithmeticStep_eq {s s' : ArithmeticState} (h : B0rk.arithmeticStep D s pos = some s') :
    B.arithmeticStep D s pos = some s' := by
  simp only [B0rk.arithmeticStep, Option.bind_eq_bind, Option.bind_eq_some_iff] at h
  obtain ⟨inst, hinst, s₁, hfold, h⟩ := h
  simp only [arithmeticStep, hinst, foldInstruction_eq (B := B) hfold, Option.bind_eq_bind,
    Option.bind_some]
  exact h

theorem arithmeticPass_eq {changed : Bool}
    (h : B0rk.arithmeticPass D code = some (code', changed)) :
    B.arithmeticPass D code = .ok (code', changed) := by
  have hscan : ∀ (positions : List ℕ) (s s' : ArithmeticState),
      positions.foldlM (B0rk.arithmeticStep D) s = some s' →
        positions.foldlM (B.arithmeticStep D) s = some s' := by
    intro positions
    induction positions with
    | nil => exact fun s s' h => h
    | cons pos positions ih =>
      intro s s' h
      rw [List.foldlM_cons] at h ⊢
      obtain ⟨s₁, hstep, hrest⟩ := Option.bind_eq_some_iff.mp h
      rw [arithmeticStep_eq hstep]
      exact ih s₁ s' hrest
  simp only [B0rk.arithmeticPass, Option.bind_eq_bind, Option.bind_eq_some_iff] at h
  obtain ⟨s, hs, code₁, hremove, h⟩ := h
  obtain ⟨rfl, rfl⟩ := Prod.mk.inj (Option.some.inj h)
  simp only [arithmeticPass, hscan _ _ _ hs, removeInstructions_eq hremove]

theorem optimiseArithmetic_eq {fuel : ℕ} {hasOptimised changed : Bool}
    (h : B0rk.optimiseArithmetic D fuel code hasOptimised = some (code', changed)) :
    B.optimiseArithmetic D fuel code hasOptimised = .ok (code', changed) := by
  induction fuel generalizing code hasOptimised with
  | zero => cases h
  | succ fuel ih =>
    simp only [B0rk.optimiseArithmetic, Option.bind_eq_bind, Option.bind_eq_some_iff] at h
    obtain ⟨⟨code₁, changed₁⟩, hpass, h⟩ := h
    simp only [optimiseArithmetic, arithmeticPass_eq hpass]
    cases changed₁ with
    | true => exact ih h
    | false =>
      obtain ⟨rfl, rfl⟩ := Prod.mk.inj (Option.some.inj h)
      rfl

/-! ## The operands of the loads -/

/-- An instruction that a pass writes is no load, or it was the same load before. -/
def LoadKept (inst inst' : Instruction) : Prop :=
  inst'.op = .loadVar → inst.op = .loadVar ∧ inst'.args.length = inst.args.length

theorem LoadKept.refl : LoadKept inst inst := fun h => ⟨h, rfl⟩

theorem LoadKept.of_ne (h : inst'.op ≠ .loadVar) : LoadKept inst inst' := fun h' => absurd h' h

theorem LoadKept.trans {inst'' : Instruction} (h : LoadKept inst inst')
    (h' : LoadKept inst' inst'') : LoadKept inst inst'' := by
  intro hop
  obtain ⟨hop', hlen'⟩ := h' hop
  obtain ⟨hop'', hlen⟩ := h hop'
  exact ⟨hop'', hlen'.trans hlen⟩

theorem OneOperand.of_kept (hcode : OneOperand code)
    (h : ∀ inst' ∈ code', ∃ inst ∈ code, LoadKept inst inst') : OneOperand code' := by
  intro inst' hinst' hop
  obtain ⟨inst, hinst, hkept⟩ := h inst' hinst'
  obtain ⟨hop', hlen⟩ := hkept hop
  rw [hlen]
  exact hcode inst hinst hop'

theorem dupSecondLoad_kept {loaded : Option Word} : LoadKept inst (dupSecondLoad loaded inst) := by
  unfold dupSecondLoad
  split
  · exact .of_ne (by simp)
  · exact .refl

/-- An operation with a type is an operation. -/
theorem addType_kept {prevType : ℕ} (h : takesType prevType inst.op = true) :
    LoadKept inst (addType prevType inst) := by
  refine .of_ne (fun hop => ?_)
  have hgroup : inst.op.toNat &&& 0xf00 = 0x200 := by
    simp only [takesType, Bool.and_eq_true, beq_iff_eq] at h
    exact h.2
  have hbit : (inst.op.toNat ||| prevType <<< 4).testBit 9 = true := by
    have h9 := congrArg (fun n => n.testBit 9) hgroup
    simp only [Nat.testBit_and] at h9
    have h9' : inst.op.toNat.testBit 9 = true := by
      simpa [show Nat.testBit 0xf00 9 = true by decide, show Nat.testBit 0x200 9 = true by decide]
        using h9
    rw [Nat.testBit_or, h9', Bool.true_or]
  have hnumber := congrArg OpCode.toNat hop
  rw [addType, OpCode.toNat_ofNat] at hnumber
  rw [hnumber] at hbit
  exact absurd hbit (by decide)

theorem inferInstruction_kept {s : InferState} :
    LoadKept inst (B.inferInstruction s inst).1 := by
  unfold inferInstruction
  split
  · split <;> exact .refl
  · split <;> exact .refl
  · split <;> exact .refl
  · split <;> exact .refl
  · dsimp only
    split
    · next htype => exact addType_kept htype
    · split <;> exact .refl

theorem inferTypes_kept {s : InferState} :
    ∀ inst' ∈ (B.inferTypes code s).1, ∃ inst ∈ code, LoadKept inst inst' := by
  induction code generalizing s with
  | nil => exact nofun
  | cons inst rest ih =>
    intro inst' hinst'
    simp only [inferTypes] at hinst'
    rcases List.mem_cons.mp hinst' with rfl | hinst'
    · exact ⟨inst, List.mem_cons_self .., dupSecondLoad_kept.trans inferInstruction_kept⟩
    · obtain ⟨inst₀, hinst₀, hkept⟩ := ih inst' hinst'
      exact ⟨inst₀, List.mem_cons_of_mem _ hinst₀, hkept⟩

theorem replaceLoad_kept : LoadKept inst (B.replaceLoad vars inst).1 := by
  unfold replaceLoad
  split
  · split
    · split
      · refine .of_ne ?_
        simp only [pushConstant]
        split <;> simp
      · exact .refl
    · exact .refl
  · exact .refl

theorem replaceLoads_kept :
    ∀ inst' ∈ (B.replaceLoads code vars).1, ∃ inst ∈ code, LoadKept inst inst' := by
  induction code generalizing vars with
  | nil => exact nofun
  | cons inst rest ih =>
    intro inst' hinst'
    simp only [replaceLoads] at hinst'
    rcases List.mem_cons.mp hinst' with rfl | hinst'
    · exact ⟨inst, List.mem_cons_self .., replaceLoad_kept⟩
    · obtain ⟨inst₀, hinst₀, hkept⟩ := ih inst' hinst'
      exact ⟨inst₀, List.mem_cons_of_mem _ hinst₀, hkept⟩

theorem removeAddress_kept : LoadKept inst ((removeAddress pos inst).getD inst) := by
  cases h : removeAddress pos inst with
  | none => exact .refl
  | some inst' =>
    unfold removeAddress at h
    split at h
    · obtain rfl := Option.some.inj h
      exact .refl
    · obtain ⟨addr, -, h⟩ := Option.bind_eq_some_iff.mp h
      split at h
      · obtain rfl := Option.some.inj h
        exact fun hop => ⟨hop, by simp⟩
      · obtain rfl := Option.some.inj h
        exact .refl

theorem OneOperand.removeInstructions {removeList : List ℕ} (h : OneOperand code) :
    OneOperand (removeInstructions removeList pos code) := by
  induction removeList generalizing pos code with
  | nil => exact h
  | cons r removeList ih =>
    refine ih (h.of_kept (fun inst' hinst' => ?_))
    obtain ⟨inst, hinst, rfl⟩ := List.mem_map.mp hinst'
    exact ⟨inst, List.mem_of_mem_eraseIdx hinst, removeAddress_kept⟩

theorem OneOperand.inferTypes {s : InferState} (h : OneOperand code) :
    OneOperand (B.inferTypes code s).1 := h.of_kept inferTypes_kept

theorem OneOperand.optimiseLoads (h : OneOperand code) :
    OneOperand (B.optimiseLoads localVars argCount code).1 := by
  unfold Beyond.optimiseLoads
  dsimp only
  split
  · exact h.inferTypes.of_kept replaceLoads_kept
  · exact h.inferTypes

theorem OneOperand.optimiseVars (localVars argCount : ℕ) (h : OneOperand code) :
    OneOperand (B.optimiseVars localVars argCount code).1 := by
  unfold Beyond.optimiseVars
  dsimp only
  split
  · exact h.optimiseLoads.removeInstructions
  · exact h.optimiseLoads

theorem optimiseVars_eq {changed : Bool} (hcode : OneOperand code)
    (h : B0rk.optimiseVars localVars argCount code = some (code', changed)) :
    B.optimiseVars localVars argCount code = (code', changed) := by
  simp only [B0rk.optimiseVars, B0rk.optimiseLoads, Option.bind_eq_bind, Option.bind_eq_some_iff] at h
  obtain ⟨⟨code₂, vars₂⟩, ⟨⟨code₁, vars₁⟩, hinfer, hreplace⟩, h⟩ := h
  have hone : OneOperand code₁ := by
    have hone := hcode.inferTypes (B := B) (s := .initial localVars argCount)
    rwa [inferTypes_eq hinfer] at hone
  have hloads : B.optimiseLoads localVars argCount code = (code₂, vars₂) := by
    simp only [optimiseLoads, inferTypes_eq hinfer]
    split at hreplace
    · next hneeds => rw [if_pos hneeds, replaceLoads_eq hone hreplace]
    · next hneeds =>
      rw [if_neg hneeds]
      exact Option.some.inj hreplace
  simp only [optimiseVars, hloads]
  split at h
  · next hremove =>
    simp only [Option.bind_eq_some_iff] at h
    obtain ⟨removeList, hdead, code₃, hremoved, h⟩ := h
    rw [if_pos hremove, deadStores_eq hdead, removeInstructions_eq hremoved]
    exact Option.some.inj h
  · next hremove =>
    rw [if_neg hremove]
    exact Option.some.inj h

theorem OneOperand.arithmeticStep {s s' : ArithmeticState} (h : OneOperand s.code)
    (hprev : PrevInside s pos) (hstep : B.arithmeticStep D s pos = some s') :
    OneOperand s'.code := by
  simp only [Beyond.arithmeticStep, Option.bind_eq_bind, Option.bind_eq_some_iff] at hstep
  obtain ⟨inst, hinst, s₁, hfold, hstep⟩ := hstep
  obtain rfl := Option.some.inj hstep
  cases foldInstruction_window hprev hfold with
  | kept => exact h
  | replaced hop hnew hpos hfirst hsecond hremoved =>
    refine h.of_kept (fun inst' hinst' => ?_)
    rcases List.mem_or_eq_of_mem_set hinst' with hmem | rfl
    · exact ⟨inst', hmem, .refl⟩
    · exact ⟨inst, List.mem_of_getElem? hinst, .of_ne hnew⟩

theorem OneOperand.arithmeticPass {changed : Bool} (hcode : EndsInRet code) (h : OneOperand code)
    (hpass : B.arithmeticPass D code = .ok (code', changed)) : OneOperand code' := by
  obtain ⟨front, last, rfl, hlast⟩ := hcode.snoc
  have hscan : ∀ n s, (List.range n).foldlM (B.arithmeticStep D)
      ⟨front ++ [last], .nop, .nop, .nop, [], false⟩ = some s → OneOperand s.code := by
    intro n
    induction n with
    | zero =>
      intro s hs
      obtain rfl := Option.some.inj hs
      exact h
    | succ n ih =>
      intro s hs
      rw [List.range_succ, List.foldlM_append] at hs
      obtain ⟨s₀, hs₀, hs⟩ := Option.bind_eq_some_iff.mp hs
      have hstep : B.arithmeticStep D s₀ n = some s := by simpa using hs
      exact (ih s₀ hs₀).arithmeticStep (PassInv.scan hlast hs₀).prev hstep
  unfold Beyond.arithmeticPass at hpass
  split at hpass
  · next s hs =>
    obtain ⟨rfl, -⟩ := Prod.mk.inj (Except.ok.inj hpass)
    exact (hscan _ s hs).removeInstructions
  · cases hpass

theorem OneOperand.optimiseArithmetic {fuel : ℕ} {hasOptimised changed : Bool}
    (hcode : EndsInRet code) (h : OneOperand code)
    (hloop : B.optimiseArithmetic D fuel code hasOptimised = .ok (code', changed)) :
    OneOperand code' ∧ EndsInRet code' := by
  induction fuel generalizing code hasOptimised with
  | zero => cases hloop
  | succ fuel ih =>
    simp only [Beyond.optimiseArithmetic] at hloop
    cases hpass : B.arithmeticPass D code with
    | error stop =>
      rw [hpass] at hloop
      cases hloop
    | ok result =>
      obtain ⟨code₁, changed₁⟩ := result
      rw [hpass] at hloop
      have hone := h.arithmeticPass hcode hpass
      have hends := (arithmeticPass_pass hcode hpass).endsInRet hcode
      cases changed₁ with
      | true => exact ih hends hone hloop
      | false =>
        obtain ⟨rfl, -⟩ := Prod.mk.inj (Except.ok.inj hloop)
        exact ⟨hone, hends⟩

/-- Where all reads stay inside, the optimiser does not depend on what lies behind. -/
theorem optimise_eq {fuel : ℕ} (hcode : EndsInRet code) (hone : OneOperand code)
    (h : B0rk.optimise D localVars argCount fuel code = some code') :
    B.optimise D localVars argCount fuel code = .ok code' := by
  induction fuel generalizing code with
  | zero => cases h
  | succ fuel ih =>
    simp only [B0rk.optimise, Option.bind_eq_bind, Option.bind_eq_some_iff] at h
    obtain ⟨⟨code₁, changed₁⟩, hvars, ⟨code₂, changed₂⟩, harith, h⟩ := h
    have hvars' := optimiseVars_eq (B := B) hone hvars
    have hone₁ : OneOperand code₁ := by
      have hone₁ := hone.optimiseVars (B := B) localVars argCount
      rwa [hvars'] at hone₁
    have hends₁ : EndsInRet code₁ := by
      have hpass := optimiseVars_pass (B := B) localVars argCount hcode
      rw [hvars'] at hpass
      exact hpass.endsInRet hcode
    have harith' := optimiseArithmetic_eq (B := B) harith
    obtain ⟨hone₂, hends₂⟩ := hone₁.optimiseArithmetic hends₁ harith'
    simp only [optimise, hvars', harith']
    cases changed₂ with
    | true => exact ih hends₂ hone₂ h
    | false =>
      obtain rfl := Option.some.inj h
      rfl

end Beyond

end B0rk
