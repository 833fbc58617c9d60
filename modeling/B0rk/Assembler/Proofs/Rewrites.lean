import B0rk.Assembler.Proofs.Calls
import B0rk.Assembler.Proofs.History
import B0rk.Assembler.Proofs.Constants

set_option autoImplicit false

/-! # What the optimiser is made of

Each pass puts straight instructions in the place of straight ones and takes out straight ones. So whatever these
two rewrites keep, the optimiser keeps. -/

namespace B0rk

open Relation

/-- An instruction stays, or a straight one takes the place of a straight one. -/
def Stays (inst inst' : Instruction) : Prop :=
  inst' = inst ∨ inst.op.isStraight = true ∧ inst'.op.isStraight = true ∧ (inst.op.Proper → inst'.op.Proper)

/-- At every position an instruction stays or is replaced. -/
structure StaysAll (code code' : List Instruction) : Prop where
  length : code'.length = code.length
  stays : ∀ (i : ℕ) inst, code[i]? = some inst → ∃ inst', code'[i]? = some inst' ∧ Stays inst inst'

/-- The positions, in ascending order, are of straight instructions. -/
structure StraightAt (code : List Instruction) (positions : List ℕ) : Prop where
  sorted : positions.Pairwise (· < ·)
  straight : ∀ r ∈ positions, ∃ inst, code[r]? = some inst ∧ inst.op.isStraight = true

/-- A step of the optimiser. -/
inductive Rewrite (code code' : List Instruction) : Prop
  | replace (h : StaysAll code code')
  | remove {positions : List ℕ} (hstraight : StraightAt code positions)
      (h : removeInstructions positions 0 code = some code')

section

variable {inst inst' inst'' : Instruction} {code code' code'' : List Instruction}

theorem Stays.refl : Stays inst inst := .inl rfl

theorem Stays.isStraight (h : Stays inst inst') (hstraight : inst.op.isStraight = true) :
    inst'.op.isStraight = true := by
  rcases h with rfl | ⟨-, hstraight', -⟩
  · exact hstraight
  · exact hstraight'

theorem Stays.proper (h : Stays inst inst') (hproper : inst.op.Proper) : inst'.op.Proper := by
  rcases h with rfl | ⟨-, -, hproper'⟩
  · exact hproper
  · exact hproper' hproper

theorem Stays.trans (h : Stays inst inst') (h' : Stays inst' inst'') : Stays inst inst'' := by
  rcases h with rfl | ⟨hstraight, hstraight', hproper⟩
  · exact h'
  · exact .inr ⟨hstraight, h'.isStraight hstraight', fun h => h'.proper (hproper h)⟩

theorem StaysAll.refl : StaysAll code code := ⟨rfl, fun _ inst hi => ⟨inst, hi, .refl⟩⟩

theorem StaysAll.trans (h : StaysAll code code') (h' : StaysAll code' code'') : StaysAll code code'' := by
  refine ⟨h'.length.trans h.length, fun i inst hi => ?_⟩
  obtain ⟨inst', hi', hstays⟩ := h.stays i inst hi
  obtain ⟨inst'', hi'', hstays'⟩ := h'.stays i inst' hi'
  exact ⟨inst'', hi'', hstays.trans hstays'⟩

theorem StaysAll.cons (hfirst : Stays inst inst') (h : StaysAll code code') :
    StaysAll (inst :: code) (inst' :: code') := by
  refine ⟨congrArg Nat.succ h.length, fun i first hi => ?_⟩
  cases i with
  | zero =>
    obtain rfl := Option.some.inj hi
    exact ⟨inst', rfl, hfirst⟩
  | succ i => exact h.stays i first hi

theorem StaysAll.set {i : ℕ} (hi : code[i]? = some inst) (h : Stays inst inst') :
    StaysAll code (code.set i inst') := by
  refine ⟨List.length_set .., fun j first hj => ?_⟩
  by_cases hij : i = j
  · subst hij
    obtain rfl := Option.some.inj (hi.symm.trans hj)
    exact ⟨inst', List.getElem?_set_self (List.getElem?_eq_some_iff.mp hj).1, h⟩
  · exact ⟨first, by rw [List.getElem?_set_ne hij, hj], .refl⟩

theorem StaysAll.straight {i : ℕ} (h : StaysAll code code')
    (hi : ∃ inst, code[i]? = some inst ∧ inst.op.isStraight = true) :
    ∃ inst, code'[i]? = some inst ∧ inst.op.isStraight = true := by
  obtain ⟨inst, hi, hstraight⟩ := hi
  obtain ⟨inst', hi', hstays⟩ := h.stays i inst hi
  exact ⟨inst', hi', hstays.isStraight hstraight⟩

end

/-! ## Types -/

section

variable {inst inst' : Instruction} {code code' done : List Instruction} {vars vars' : List VarInfo}
  {s s' : InferState} {argCount : ℕ}

theorem OpCode.isStraight_of_arithmetic {op : OpCode} (h : op.toNat &&& 0xf00 = 0x200) :
    op.isStraight = true := by
  cases op with
  | jmp | bEq | bNE | bL | bLE | bG | bGE | pushTry | popTry => cases h
  | _ => rfl

theorem OpCode.isStraight_of_stack {op : OpCode} (h : op.isStack = true) : op.isStraight = true := by
  cases op with
  | jmp | bEq | bNE | bL | bLE | bG | bGE | pushTry | popTry => cases h
  | _ => rfl

theorem OpCode.proper_of_mem {op : OpCode} (h : op ∈ OpCode.all) : op.Proper := by
  refine ⟨OpCode.ofNat_toNat h, ?_⟩
  revert op
  decide

theorem addType_stays {type : ℕ} (htakes : takesType type inst.op = true) (htype : type < 16) :
    Stays inst (addType type inst) := by
  have hgroup : inst.op.toNat &&& 0xf00 = 0x200 := by
    simp only [takesType, Bool.and_eq_true, beq_iff_eq] at htakes
    exact htakes.2
  refine .inr ⟨OpCode.isStraight_of_arithmetic hgroup,
    OpCode.isStraight_of_arithmetic (addType_op htakes htype), fun hproper => ?_⟩
  refine ⟨by rw [addType, OpCode.toNat_ofNat], ?_⟩
  have hshift : type <<< 4 < 2 ^ 64 := by
    rw [Nat.shiftLeft_eq]
    omega
  rw [addType, OpCode.toNat_ofNat]
  exact Nat.or_lt_two_pow hproper.2 hshift

theorem dupSecondLoad_stays (loaded : Option Word) (inst : Instruction) :
    Stays inst (dupSecondLoad loaded inst) := by
  rcases dupSecondLoad_cases loaded inst with hdup | ⟨hdup, v, hloads, -⟩
  · exact .inl hdup
  · rw [hdup]
    refine .inr ⟨by rw [(Instruction.loads_some.mp hloads).1]; rfl, rfl, fun _ => ?_⟩
    exact OpCode.proper_of_mem (by decide)

theorem inferTypes_stays (hs : Inferred argCount done s) (h : inferTypes code s = some (code', vars)) :
    StaysAll code code' := by
  induction code generalizing s code' done with
  | nil =>
    obtain ⟨rfl, rfl⟩ := Prod.mk.inj (Option.some.inj h)
    exact .refl
  | cons first rest ih =>
    simp only [inferTypes, Option.bind_eq_bind, Option.bind_eq_some_iff] at h
    obtain ⟨⟨first', s₁⟩, hfirst, ⟨rest', vars₁⟩, hrest, h⟩ := h
    obtain ⟨rfl, rfl⟩ := Prod.mk.inj (Option.some.inj h)
    refine .cons ((dupSecondLoad_stays s.loaded first).trans ?_) (ih (hs.step hfirst) hrest)
    rcases (inferInstruction_some hfirst).1 with rfl | ⟨htakes, rfl⟩
    · exact .refl
    · exact addType_stays htakes hs.prevType

theorem replaceLoads_stays (h : replaceLoads code vars = some (code', vars')) : StaysAll code code' := by
  obtain ⟨hlength, hreplaced⟩ := replaceLoads_replaced h
  refine ⟨hlength, fun i inst hi => ?_⟩
  have hlt : i < code'.length := hlength ▸ (List.getElem?_eq_some_iff.mp hi).1
  obtain ⟨inst', hi'⟩ : ∃ inst', code'[i]? = some inst' := ⟨_, List.getElem?_eq_getElem hlt⟩
  refine ⟨inst', hi', ?_⟩
  cases hreplaced i inst inst' hi hi' with
  | same => exact .refl
  | constant hloads =>
    have hop := (Instruction.loads_some.mp hloads).1
    refine .inr ⟨by rw [hop]; rfl, ?_, fun _ => OpCode.proper_of_mem ?_⟩
    · unfold pushConstant
      split <;> rfl
    · unfold pushConstant
      split <;> simp [OpCode.all]

theorem optimiseLoads_stays {localVars : ℕ}
    (h : optimiseLoads localVars argCount code = some (code', vars)) : StaysAll code code' := by
  simp only [optimiseLoads, Option.bind_eq_bind, Option.bind_eq_some_iff] at h
  obtain ⟨⟨code₁, vars₁⟩, htypes, h⟩ := h
  have hstays := inferTypes_stays (Inferred.initial localVars) htypes
  split at h
  · exact hstays.trans (replaceLoads_stays h)
  · obtain ⟨rfl, rfl⟩ := Prod.mk.inj (Option.some.inj h)
    exact hstays

end

/-! ## Dead stores and constants -/

section

variable {code code' rest : List Instruction} {vars : List VarInfo} {positions : List ℕ}

theorem StraightAt.nil : StraightAt code [] := ⟨.nil, nofun⟩

theorem StraightAt.insert {pos : ℕ} (h : StraightAt code positions)
    (hpos : ∃ inst, code[pos]? = some inst ∧ inst.op.isStraight = true) :
    StraightAt code (insertPos pos positions) := by
  refine ⟨insertPos_pairwise h.sorted, fun r hr => ?_⟩
  rcases mem_insertPos.mp hr with rfl | hr
  · exact hpos
  · exact h.straight r hr

theorem StraightAt.insertAll {removed : List ℕ} (h : StraightAt code positions)
    (hremoved : ∀ r ∈ removed, ∃ inst, code[r]? = some inst ∧ inst.op.isStraight = true) :
    StraightAt code (removed.foldl (fun l r => insertPos r l) positions) := by
  induction removed generalizing positions with
  | nil => exact h
  | cons r removed ih =>
    exact ih (h.insert (hremoved r List.mem_cons_self))
      fun r' hr' => hremoved r' (List.mem_cons_of_mem _ hr')

theorem StraightAt.stays (h : StraightAt code positions) (hcode : StaysAll code code') :
    StraightAt code' positions := ⟨h.sorted, fun r hr => hcode.straight (h.straight r hr)⟩

/-- The loop is behind `before`, whose last opcode it remembers. -/
theorem deadStores_straight (before : List Instruction) {prevOp : OpCode}
    (hprev : prevOp = .nop ∨ ∃ inst, before.getLast? = some inst ∧ inst.op = prevOp)
    (h : deadStores vars rest before.length prevOp = some positions) :
    StraightAt (before ++ rest) positions := by
  induction rest generalizing before prevOp positions with
  | nil =>
    cases h
    exact .nil
  | cons first rest ih =>
    simp only [deadStores, Option.bind_eq_bind, Option.bind_eq_some_iff] at h
    obtain ⟨removeList, hrest, h⟩ := h
    have hfirst : (before ++ [first]).length = before.length + 1 := by simp
    rw [← hfirst] at hrest
    have hstraight := ih (before ++ [first]) (.inr ⟨first, by simp, rfl⟩) hrest
    rw [List.append_assoc, List.singleton_append] at hstraight
    split at h
    · next hop =>
      simp only [Option.bind_eq_some_iff] at h
      obtain ⟨v, -, info, -, h⟩ := h
      split at h
      · next hdead =>
        cases h
        refine (hstraight.insert ⟨first, by simp, by rw [hop]; rfl⟩).insert ?_
        rcases hprev with rfl | ⟨inst, hinst, rfl⟩
        · exact absurd hdead.2 (by decide)
        · obtain ⟨init, rfl⟩ := List.getLast?_eq_some_iff.mp hinst
          refine ⟨inst, by simp, ?_⟩
          rcases hdead.2 with hpush | hpush <;> rw [hpush] <;> rfl
      · cases h
        exact hstraight
    · cases h
      exact hstraight

theorem optimiseVars_rewrites {localVars argCount : ℕ} {changed : Bool}
    (h : optimiseVars localVars argCount code = some (code', changed)) :
    ReflTransGen Rewrite code code' := by
  simp only [optimiseVars, Option.bind_eq_bind, Option.bind_eq_some_iff] at h
  obtain ⟨⟨code₁, vars⟩, hloads, h⟩ := h
  have hstays : Rewrite code code₁ := .replace (optimiseLoads_stays hloads)
  split at h
  · simp only [Option.bind_eq_some_iff] at h
    obtain ⟨positions, hdead, code₂, hremove, h⟩ := h
    obtain ⟨rfl, -⟩ := Prod.mk.inj (Option.some.inj h)
    exact (ReflTransGen.single hstays).tail
      (.remove (deadStores_straight [] (.inl rfl) hdead) hremove)
  · obtain ⟨rfl, -⟩ := Prod.mk.inj (Option.some.inj h)
    exact .single hstays

end

/-! ## Arithmetic -/

section

variable {D : DoubleOps} {code code' : List Instruction} {s s' : ArithmeticState} {pos : ℕ}

/-- What the loop has done to the code, and what it is going to remove. -/
structure ScanStays (code : List Instruction) (s : ArithmeticState) : Prop where
  stays : StaysAll code s.code
  straight : StraightAt code s.removeList

theorem opBefore_straight {k : ℕ} (h : (opBefore code pos k).isStraight = true) (hnop : opBefore code pos k ≠ .nop) :
    ∃ inst, code[pos - k]? = some inst ∧ inst.op.isStraight = true := by
  unfold opBefore at h hnop
  split at hnop
  · next hk =>
    rw [if_pos hk] at h
    cases hinst : code[pos - k]? with
    | none =>
      rw [hinst] at hnop
      exact absurd rfl hnop
    | some inst =>
      rw [hinst] at h
      exact ⟨inst, rfl, h⟩
  · exact absurd rfl hnop

theorem ScanStays.step (h : ScanStays code s) (hinv : ScanInv code pos s)
    (hstep : arithmeticStep D s pos = some s') : ScanStays code s' := by
  obtain ⟨inst, s₁, hinst, hfolded, rfl⟩ := arithmeticStep_folded hstep
  have hstack {op : OpCode} (hop : op.isStack = true) : op ≠ .nop := by
    rintro rfl
    cases hop
  have hbefore {k : ℕ} (hop : (opBefore code pos k).isStack = true) :=
    opBefore_straight (OpCode.isStraight_of_stack hop) (hstack hop)
  have hs₁ : ScanStays code s₁ := by
    cases hfolded with
    | kept => exact h
    | integers hop _ h1 h2 | doubles hop _ h1 h2 =>
      rw [hinv.prevOp1] at h1
      rw [hinv.prevOp2] at h2
      have hstraight : inst.op.isStraight = true := OpCode.isStraight_of_arithmetic (beq_iff_eq.mp hop)
      refine ⟨h.stays.trans (.set hinst (.inr ⟨hstraight, rfl, fun _ => OpCode.proper_of_mem (by simp [OpCode.all])⟩)),
        h.straight.insertAll ?_⟩
      simp only [List.mem_cons, List.not_mem_nil, or_false, forall_eq_or_imp, forall_eq]
      exact ⟨hbefore h1, hbefore h2⟩
    | increment hop h1 h2 h3 =>
      rw [hinv.prevOp1] at h1
      rw [hinv.prevOp2] at h2
      rw [hinv.prevOp3] at h3
      refine ⟨h.stays.trans (.set hinst (.inr ⟨by rw [hop]; rfl, rfl, fun _ =>
        OpCode.proper_of_mem (by simp [OpCode.all])⟩)), h.straight.insertAll ?_⟩
      simp only [List.mem_cons, List.not_mem_nil, or_false, forall_eq_or_imp, forall_eq]
      exact ⟨opBefore_straight (by rw [h1]; rfl) (by rw [h1]; decide),
        opBefore_straight (by rw [h2]; rfl) (by rw [h2]; decide), hbefore h3⟩
  exact ⟨hs₁.stays, hs₁.straight⟩

theorem arithmeticScan_stays (h : arithmeticScan D code = some s) : ScanStays code s := by
  have hrange (n : ℕ) (s : ArithmeticState) (h : (List.range n).foldlM (arithmeticStep D)
      ⟨code, .nop, .nop, .nop, [], false⟩ = some s) : ScanStays code s := by
    induction n generalizing s with
    | zero =>
      obtain rfl := Option.some.inj h
      exact ⟨.refl, .nil⟩
    | succ n ih =>
      rw [List.range_succ, List.foldlM_append] at h
      obtain ⟨s₀, hs₀, h⟩ := Option.bind_eq_some_iff.mp h
      have hstep : arithmeticStep D s₀ n = some s := by simpa using h
      exact (ih s₀ hs₀).step (arithmeticScan_positions hs₀).1 hstep
  exact hrange _ s h

theorem optimiseArithmetic_rewrites {fuel : ℕ} {hasOptimised changed : Bool}
    (h : optimiseArithmetic D fuel code hasOptimised = some (code', changed)) :
    ReflTransGen Rewrite code code' := by
  induction fuel generalizing code hasOptimised with
  | zero => cases h
  | succ fuel ih =>
    simp only [optimiseArithmetic, arithmeticPass, Option.bind_eq_bind, Option.bind_eq_some_iff] at h
    obtain ⟨⟨code₁, changed₁⟩, ⟨s, hscan, code₂, hremove, hpass⟩, h⟩ := h
    obtain ⟨rfl, rfl⟩ := Prod.mk.inj (Option.some.inj hpass)
    have hstays := arithmeticScan_stays hscan
    have hrewrites : ReflTransGen Rewrite code code₂ :=
      (ReflTransGen.single (.replace hstays.stays)).tail (.remove (hstays.straight.stays hstays.stays) hremove)
    split at h
    · exact hrewrites.trans (ih h)
    · obtain ⟨rfl, -⟩ := Prod.mk.inj (Option.some.inj h)
      exact hrewrites

/-- **The optimiser is made of the two rewrites.** -/
theorem optimise_rewrites {localVars argCount fuel : ℕ}
    (h : optimise D localVars argCount fuel code = some code') : ReflTransGen Rewrite code code' := by
  induction fuel generalizing code with
  | zero => cases h
  | succ fuel ih =>
    simp only [optimise, Option.bind_eq_bind, Option.bind_eq_some_iff] at h
    obtain ⟨⟨code₁, changed₁⟩, hvars, ⟨code₂, changed₂⟩, harith, h⟩ := h
    have hrewrites := (optimiseVars_rewrites hvars).trans (optimiseArithmetic_rewrites harith)
    split at h
    · exact hrewrites.trans (ih h)
    · cases h
      exact hrewrites

end

end B0rk
