import B0rk.Assembler.Assemble
import B0rk.Assembler.Proofs.Arithmetic
import B0rk.Assembler.Proofs.Constants
import Mathlib.Data.List.Basic

set_option autoImplicit false

/-! # What an earlier call of the assembler leaves

Instructions that a failed call has left in `m_code` stand before those of the next function. Some of
them can go, where the optimiser folds constants or removes stores; the functions here leave it nothing
to remove all of them by. -/

namespace B0rk

/-! ## Two functions -/

/-- `return this;` -/
def returnThis : CodeBlock := .mk true 1 1 [] [.returnExpr (some (.var .unknown 0 "this"))]

/-- `var x; x++; return this;` -/
def countThis : CodeBlock :=
  .mk true 1 2 ["x"] [.oper .unknown .increment (some (.var .unknown 0 "x")) none,
    .returnExpr (some (.var .unknown 0 "this"))]

/-- An environment without parameters and classes. -/
def emptyEnv : AsmEnv :=
  { clazz := none, args := [], chain := fun _ => none, getStatic := fun _ => false
    findClass := fun _ => 0, newString := fun _ => 0 }

def returnThisCode : List Instruction :=
  [⟨.loadVar, [0]⟩, ⟨.ret, []⟩, ⟨.pushI, [0]⟩, ⟨.ret, []⟩]

def countThisCode : List Instruction := ⟨.incVar, [1, 1]⟩ :: returnThisCode

theorem returnThis_assembles (m_code : List Instruction) :
    (assembleFunction emptyEnv returnThis).Ok m_code () (m_code ++ returnThisCode) := by
  have hthis : load emptyEnv [returnThis] 0#64 "this" none = pushInstruction .loadVar [0] := rfl
  have hreturn : (assembleExpression emptyEnv (.returnExpr (some (.var .unknown 0 "this")))
      [returnThis] none false false).Ok m_code ()
        (m_code ++ [⟨.loadVar, [0]⟩] ++ [⟨.ret, []⟩]) := by
    simp [assembleExpression, hthis, pushInstruction_ok]
  have hblock : (assembleBlock emptyEnv returnThis []).Ok m_code ()
      (m_code ++ [⟨.loadVar, [0]⟩] ++ [⟨.ret, []⟩]) := by
    unfold returnThis assembleBlock assembleStatements
    exact hreturn.bind (by simp [assembleStatements])
  unfold assembleFunction
  refine hblock.bind ((pushInstruction_run _ _ _).bind ?_)
  simp [pushInstruction_ok, returnThisCode]

theorem countThis_assembles (m_code : List Instruction) :
    (assembleFunction emptyEnv countThis).Ok m_code () (m_code ++ countThisCode) := by
  have hthis : load emptyEnv [countThis] 0#64 "this" none = pushInstruction .loadVar [0] := rfl
  have hincrement : assembleIncrement emptyEnv [countThis] .increment 0#64 "x" none false =
      pushInstruction .incVar [1, 1] := rfl
  have hcount : (assembleExpression emptyEnv (.oper .unknown .increment (some (.var .unknown 0 "x"))
      none) [countThis] none false false).Ok m_code () (m_code ++ [⟨.incVar, [1, 1]⟩]) := by
    simp [assembleExpression, Expression.asVar, hincrement, pushInstruction_ok]
  have hreturn (code : List Instruction) : (assembleExpression emptyEnv
      (.returnExpr (some (.var .unknown 0 "this"))) [countThis] none false false).Ok code ()
        (code ++ [⟨.loadVar, [0]⟩] ++ [⟨.ret, []⟩]) := by
    simp [assembleExpression, hthis, pushInstruction_ok]
  have hblock : (assembleBlock emptyEnv countThis []).Ok m_code ()
      (m_code ++ [⟨.incVar, [1, 1]⟩] ++ [⟨.loadVar, [0]⟩] ++ [⟨.ret, []⟩]) := by
    unfold countThis assembleBlock assembleStatements
    refine hcount.bind ?_
    unfold assembleStatements
    exact (hreturn _).bind (by simp [assembleStatements])
  unfold assembleFunction
  refine hblock.bind ((pushInstruction_run _ _ _).bind ?_)
  simp [pushInstruction_ok, countThisCode, returnThisCode]

theorem returnThis_fresh (D : DoubleOps) : ∃ asmCode,
    (assemble D emptyEnv returnThis []).map Prod.fst = some (some asmCode) := by
  unfold assemble
  rw [(returnThis_assembles []).run]
  exact ⟨_, rfl⟩

theorem countThis_fresh (D : DoubleOps) : ∃ asmCode,
    (assemble D emptyEnv countThis []).map Prod.fst = some (some asmCode) ∧ asmCode.size = 9 := by
  unfold assemble
  rw [(countThis_assembles []).run]
  exact ⟨_, rfl, rfl⟩

/-! ## The passes over the variables -/

section

variable {leftover code code' : List Instruction} {vars vars' : List VarInfo} {s s' : InferState}
  {inst inst' : Instruction}

/-- An instruction that is given a type stores nothing. -/
theorem addType_stores {type : ℕ} (htakes : takesType type inst.op = true) :
    (addType type inst).stores = none := by
  refine if_neg fun hop => ?_
  simp only [takesType, Bool.and_eq_true, beq_iff_eq] at htakes
  have hgroup : (inst.op.toNat &&& 0xf00).testBit 9 = true := by
    rw [htakes.2]
    decide
  have hbit : (addType type inst).op.toNat.testBit 9 = true := by
    rw [Nat.testBit_and, Bool.and_eq_true] at hgroup
    rw [addType, OpCode.toNat_ofNat, Nat.testBit_or, hgroup.1, Bool.true_or]
  rw [hop] at hbit
  exact absurd hbit (by decide)

theorem inferInstruction_stores (h : inferInstruction s inst = some (inst', s')) :
    s'.vars.length = s.vars.length ∧ (∀ v, inst'.stores = some v → inst.stores = some v) ∧
      ∀ v, inst.stores = some v → v.toNat < s.vars.length := by
  have hnone (hwrites : inst.op.writesVar = false) (v : Word) (h : inst.stores = some v) : False := by
    rw [Instruction.stores_none hwrites] at h
    cases h
  cases inferInstruction_step h with
  | load hop => exact ⟨List.length_set .., fun _ h => h, fun v h => (hnone (by rw [hop]; rfl) v h).elim⟩
  | store hop hv hinfo =>
    refine ⟨List.length_set .., fun _ h => h, fun w h => ?_⟩
    rw [Instruction.stores, if_pos hop, hv] at h
    obtain rfl := Option.some.inj h
    exact (List.getElem?_eq_some_iff.mp hinfo).1
  | inc hop =>
    refine ⟨List.length_set .., fun _ h => h, fun v h => ?_⟩
    rw [Instruction.stores, if_neg (by rcases hop with hop | hop <;> rw [hop] <;> decide)] at h
    cases h
  | typed _ hwrites _ htakes =>
    refine ⟨rfl, fun v h => ?_, fun v h => (hnone hwrites v h).elim⟩
    rw [addType_stores htakes] at h
    cases h
  | dup hop => exact ⟨rfl, fun _ h => h, fun v h => (hnone (by rw [hop]; rfl) v h).elim⟩
  | other _ hwrites => exact ⟨rfl, fun _ h => h, fun v h => (hnone hwrites v h).elim⟩

theorem dupSecondLoad_stores (loaded : Option Word) (inst : Instruction) :
    (dupSecondLoad loaded inst).stores = inst.stores := by
  rcases dupSecondLoad_cases loaded inst with hdup | ⟨hdup, v, hloads, -⟩
  · rw [hdup]
  · have hnone : inst.stores = none :=
      Instruction.stores_none (by rw [(Instruction.loads_some.mp hloads).1]; rfl)
    rw [hdup, hnone]
    rfl

/-- The first pass goes over leftover code before it comes to the function. -/
theorem inferTypes_append (h : inferTypes (leftover ++ code) s = some (code', vars)) :
    ∃ leftover' s₁ code₁, code' = leftover' ++ code₁ ∧ leftover'.length = leftover.length ∧
      s₁.vars.length = s.vars.length ∧ inferTypes code s₁ = some (code₁, vars) ∧
      (∀ inst' ∈ leftover', ∀ v, inst'.stores = some v → ∃ inst ∈ leftover, inst.stores = some v) ∧
      ∀ inst ∈ leftover, ∀ v, inst.stores = some v → v.toNat < s.vars.length := by
  induction leftover generalizing s code' with
  | nil => exact ⟨[], s, code', rfl, rfl, rfl, h, nofun, nofun⟩
  | cons first rest ih =>
    simp only [List.cons_append, inferTypes, Option.bind_eq_bind, Option.bind_eq_some_iff] at h
    obtain ⟨⟨first', s₀⟩, hfirst, ⟨rest', vars₁⟩, hrest, h⟩ := h
    obtain ⟨rfl, rfl⟩ := Prod.mk.inj (Option.some.inj h)
    obtain ⟨hlen₀, hstores₀, hlt₀⟩ := inferInstruction_stores hfirst
    rw [dupSecondLoad_stores] at hstores₀ hlt₀
    obtain ⟨leftover', s₁, code₁, rfl, hlen, hlen₁, hcode, hstores, hlt⟩ := ih hrest
    refine ⟨first' :: leftover', s₁, code₁, rfl, congrArg Nat.succ hlen, hlen₁.trans hlen₀, hcode, ?_, ?_⟩
    · intro inst' hmem v hv
      rcases List.mem_cons.mp hmem with rfl | hmem
      · exact ⟨first, List.mem_cons_self .., hstores₀ v hv⟩
      · obtain ⟨inst, hinst, hv⟩ := hstores inst' hmem v hv
        exact ⟨inst, List.mem_cons_of_mem _ hinst, hv⟩
    · intro inst hmem v hv
      rcases List.mem_cons.mp hmem with rfl | hmem
      · exact hlt₀ v hv
      · exact hlen₀ ▸ hlt inst hmem v hv

theorem inferTypes_countThis (hlen : s.vars.length = 3)
    (h : inferTypes countThisCode s = some (code', vars)) :
    code' = countThisCode ∧ ∃ a b c, vars = [a, b, c] ∧ 1 ≤ a.loaded ∧ 1 ≤ b.loaded := by
  obtain ⟨vars₀, prevType, lastValue, loaded⟩ := s
  obtain ⟨a, b, c, rfl⟩ := List.length_eq_three.1 hlen
  simp [countThisCode, returnThisCode, inferTypes, dupSecondLoad, inferInstruction, takesType,
    OpCode.toNat, pushedConstant] at h
  obtain ⟨rfl, rfl⟩ := h
  exact ⟨rfl, _, _, c, rfl, Nat.succ_pos _, Nat.succ_pos _⟩

/-- The second pass, where there is no variable with a constant. -/
theorem replaceLoads_same (h : replaceLoads code vars = some (code', vars'))
    (hconstant : ∀ (v : Word) info, vars[v.toNat]? = some info → info.constant = none) :
    code' = code ∧ vars' = vars := by
  induction code generalizing code' with
  | nil =>
    obtain ⟨rfl, rfl⟩ := Prod.mk.inj (Option.some.inj h)
    exact ⟨rfl, rfl⟩
  | cons first rest ih =>
    rw [replaceLoads] at h
    split at h
    · simp only [Option.bind_eq_bind, Option.bind_eq_some_iff] at h
      obtain ⟨v, -, info, hinfo, h⟩ := h
      rw [hconstant v info hinfo] at h
      simp only [Option.bind_eq_some_iff] at h
      obtain ⟨⟨rest', vars₁⟩, hrest, h⟩ := h
      obtain ⟨rfl, rfl⟩ := Prod.mk.inj (Option.some.inj h)
      obtain ⟨rfl, rfl⟩ := ih hrest
      exact ⟨rfl, rfl⟩
    · simp only [Option.bind_eq_bind, Option.bind_eq_some_iff] at h
      obtain ⟨⟨rest', vars₁⟩, hrest, h⟩ := h
      obtain ⟨rfl, rfl⟩ := Prod.mk.inj (Option.some.inj h)
      obtain ⟨rfl, rfl⟩ := ih hrest
      exact ⟨rfl, rfl⟩

/-- The third pass, where every variable that is stored is loaded. -/
theorem deadStores_nil {pos : ℕ} {prevOp : OpCode} {removeList : List ℕ}
    (h : deadStores vars code pos prevOp = some removeList)
    (hloaded : ∀ inst ∈ code, ∀ v info, inst.stores = some v → vars[v.toNat]? = some info →
      info.loaded ≠ 0) : removeList = [] := by
  induction code generalizing pos prevOp removeList with
  | nil => exact (Option.some.inj h).symm
  | cons first rest ih =>
    simp only [deadStores, Option.bind_eq_bind, Option.bind_eq_some_iff] at h
    obtain ⟨removeList', hrest, h⟩ := h
    obtain rfl := ih hrest fun inst hmem => hloaded inst (List.mem_cons_of_mem _ hmem)
    split at h
    · next hop =>
      simp only [Option.bind_eq_some_iff] at h
      obtain ⟨v, hv, info, hinfo, h⟩ := h
      have hne := hloaded first (List.mem_cons_self ..) v info
        (by rw [Instruction.stores, if_pos hop, hv]) hinfo
      rw [if_neg (fun hdead => hne hdead.1)] at h
      exact (Option.some.inj h).symm
    · exact (Option.some.inj h).symm

/-- No variable of the function has a constant: `this` is a parameter, `x` is incremented, and the third
    slot is stored nowhere. -/
theorem countThis_constant (hleftover : ∀ inst ∈ leftover, inst.stores ≠ some 2)
    (h : Inferred 0 (leftover ++ countThisCode) s) (hlen : s.vars.length = 3) (v : Word)
    (info : VarInfo) (hinfo : s.vars[v.toNat]? = some info) : info.constant = none := by
  by_contra hsome
  obtain ⟨c, hc⟩ := Option.ne_none_iff_exists'.mp hsome
  obtain ⟨p, -, ⟨inst, hinst, hstores⟩, honly⟩ := h.constant hinfo hc
  have hv : v.toNat < 3 := hlen ▸ (List.getElem?_eq_some_iff.mp hinfo).1
  have hcases : v = 0 ∨ v = 1 ∨ v = 2 := by
    rcases (by omega : v.toNat = 0 ∨ v.toNat = 1 ∨ v.toNat = 2) with hv | hv | hv
    · exact .inl (BitVec.eq_of_toNat_eq hv)
    · exact .inr (.inl (BitVec.eq_of_toNat_eq hv))
    · exact .inr (.inr (BitVec.eq_of_toNat_eq hv))
  rcases hcases with rfl | rfl | rfl
  · have hcount := h.count 0 info hinfo
    have hpos : 0 < (leftover ++ countThisCode).countP (fun inst => inst.writes = some 0) :=
      List.countP_pos_iff.mpr ⟨inst, List.mem_of_getElem? hinst,
        by simpa using Instruction.writes_of_stores hstores⟩
    have hstored := (VarInfo.constant_some hc).1
    rw [if_pos (show (0 : Word).toNat ≤ 0 from Nat.le_refl 0)] at hcount
    omega
  · have hinc : (leftover ++ countThisCode)[leftover.length]? = some ⟨.incVar, [1, 1]⟩ := by
      simp [countThisCode]
    obtain rfl := honly _ _ hinc rfl
    obtain rfl := Option.some.inj (hinst.symm.trans hinc)
    cases hstores
  · rcases List.mem_append.mp (List.mem_of_getElem? hinst) with hmem | hmem
    · exact hleftover inst hmem hstores
    · have hnone : ∀ inst ∈ countThisCode, inst.stores = none := by decide
      rw [hnone inst hmem] at hstores
      cases hstores

theorem optimiseVars_countThis {changed : Bool} (hleftover : ∀ inst ∈ leftover, inst.stores ≠ some 2)
    (h : optimiseVars 3 0 (leftover ++ countThisCode) = some (code', changed)) :
    changed = false ∧ ∃ leftover', code' = leftover' ++ countThisCode ∧
      leftover'.length = leftover.length ∧ ∀ inst ∈ leftover', inst.stores ≠ some 2 := by
  simp only [optimiseVars, optimiseLoads, Option.bind_eq_bind, Option.bind_eq_some_iff] at h
  obtain ⟨⟨code₁, vars₁⟩, ⟨⟨code₀, vars⟩, hinfer, hreplace⟩, h⟩ := h
  obtain ⟨leftover', s₁, code₂, rfl, hlen, hvars, hcode, hstores, -⟩ := inferTypes_append hinfer
  obtain ⟨rfl, a, b, c, rfl, ha, hb⟩ := inferTypes_countThis hvars hcode
  have hleftover' : ∀ inst ∈ leftover', inst.stores ≠ some 2 := by
    intro inst hmem hv
    obtain ⟨inst', hmem', hv'⟩ := hstores inst hmem 2 hv
    exact hleftover inst' hmem' hv'
  obtain ⟨s', hs', hinferred⟩ := (Inferred.initial 3).run hinfer
  rw [List.nil_append] at hinferred
  have hconstant := countThis_constant hleftover' hinferred (by rw [hs']; rfl)
  rw [hs'] at hconstant
  have hsame : code₁ = leftover' ++ countThisCode ∧ vars₁ = [a, b, c] := by
    split at hreplace
    · exact replaceLoads_same hreplace hconstant
    · obtain ⟨rfl, rfl⟩ := Prod.mk.inj (Option.some.inj hreplace)
      exact ⟨rfl, rfl⟩
  obtain ⟨rfl, rfl⟩ := hsame
  split at h
  · simp only [Option.bind_eq_some_iff] at h
    obtain ⟨removeList, hdead, code₂, hremove, h⟩ := h
    obtain ⟨rfl, rfl⟩ := Prod.mk.inj (Option.some.inj h)
    obtain rfl := deadStores_nil hdead fun inst hmem v info hv hinfo => by
      have hlt : v.toNat < 3 := (List.getElem?_eq_some_iff.mp hinfo).1
      rcases (by omega : v.toNat = 0 ∨ v.toNat = 1 ∨ v.toNat = 2) with hn | hn | hn
      · rw [hn] at hinfo
        obtain rfl := Option.some.inj hinfo
        exact Nat.ne_of_gt ha
      · rw [hn] at hinfo
        obtain rfl := Option.some.inj hinfo
        exact Nat.ne_of_gt hb
      · obtain rfl : v = 2 := BitVec.eq_of_toNat_eq hn
        rcases List.mem_append.mp hmem with hmem | hmem
        · exact absurd hv (hleftover' inst hmem)
        · have hnone : ∀ inst ∈ countThisCode, inst.stores = none := by decide
          rw [hnone inst hmem] at hv
          cases hv
    obtain rfl := Option.some.inj hremove
    exact ⟨rfl, leftover', rfl, hlen, hleftover'⟩
  · obtain ⟨rfl, rfl⟩ := Prod.mk.inj (Option.some.inj h)
    exact ⟨rfl, leftover', rfl, hlen, hleftover'⟩

end

/-! ## Folding constants in leftover code -/

section

variable {D : DoubleOps} {leftover code code' : List Instruction} {s s' : ArithmeticState} {pos : ℕ}

theorem insertPos_pairwise {r : ℕ} {l : List ℕ} (h : l.Pairwise (· < ·)) :
    (insertPos r l).Pairwise (· < ·) := by
  induction l with
  | nil => simp [insertPos]
  | cons a l ih =>
    obtain ⟨ha, hl⟩ := List.pairwise_cons.mp h
    unfold insertPos
    split
    · next hlt =>
      refine List.pairwise_cons.mpr ⟨fun b hb => ?_, h⟩
      rcases List.mem_cons.mp hb with rfl | hb
      · exact hlt
      · exact Nat.lt_trans hlt (ha b hb)
    · split
      · exact h
      · next hle hne =>
        refine List.pairwise_cons.mpr ⟨fun b hb => ?_, ih hl⟩
        rcases mem_insertPos.mp hb with rfl | hb
        · exact Nat.lt_of_le_of_ne (Nat.le_of_not_lt hle) (Ne.symm hne)
        · exact ha b hb

/-- The loop over leftover code: what it writes over and what it is going to remove lies in there, and
    it keeps the last instruction that it writes. -/
structure LeftoverInv (leftover : List Instruction) (s : ArithmeticState) : Prop where
  code : ∃ leftover', s.code = leftover' ++ countThisCode ∧ leftover'.length = leftover.length ∧
    ∀ inst ∈ leftover', inst.stores ≠ some 2
  sorted : s.removeList.Pairwise (· < ·)
  removed : ∀ r ∈ s.removeList, r + 1 < leftover.length

theorem LeftoverInv.replace {inst : Instruction} {removed : List ℕ} (h : LeftoverInv leftover s)
    (hpos : pos < leftover.length) (hinst : inst.stores ≠ some 2)
    (hremoved : ∀ r ∈ removed, r < pos) : LeftoverInv leftover (s.replace pos inst removed) := by
  obtain ⟨leftover', hcode, hlen, hstores⟩ := h.code
  refine ⟨⟨leftover'.set pos inst, ?_, ?_, fun inst' hmem => ?_⟩, ?_, fun r hr => ?_⟩
  · rw [ArithmeticState.replace, hcode, List.set_append_left _ _ (hlen ▸ hpos)]
  · rw [List.length_set, hlen]
  · rcases List.mem_or_eq_of_mem_set hmem with hmem | rfl
    · exact hstores inst' hmem
    · exact hinst
  · have hfold (removed l : List ℕ) (hl : l.Pairwise (· < ·)) :
        (removed.foldl (fun l r => insertPos r l) l).Pairwise (· < ·) := by
      induction removed generalizing l with
      | nil => exact hl
      | cons r removed ih => exact ih _ (insertPos_pairwise hl)
    exact hfold removed _ h.sorted
  · rcases mem_insertAll.mp hr with hr | hr
    · exact Nat.lt_of_le_of_lt (hremoved r hr) hpos
    · exact h.removed r hr

theorem ScanInv.pos_of_stack (h : ScanInv code pos s) (hstack : s.prevOp1 ≠ .nop) : 0 < pos := by
  refine Nat.pos_of_ne_zero fun hzero => hstack ?_
  rw [h.prevOp1, hzero]
  rfl

theorem LeftoverInv.step (h : LeftoverInv leftover s) (hscan : ScanInv code pos s)
    (hstep : arithmeticStep D s pos = some s') : LeftoverInv leftover s' := by
  obtain ⟨inst, s₁, hinst, hfolded, rfl⟩ := arithmeticStep_folded hstep
  have hleftover (hwritten : inst.op.isArithmetic = true ∨ inst.op = .storeVar) :
      pos < leftover.length := by
    obtain ⟨leftover', hcode, hlen, -⟩ := h.code
    by_contra hge
    rw [hcode, List.getElem?_append_right (by omega)] at hinst
    have hkept : ∀ inst ∈ countThisCode, inst.op.isArithmetic = false ∧ inst.op ≠ .storeVar := by
      decide
    obtain ⟨harith, hstore⟩ := hkept inst (List.mem_of_getElem? hinst)
    rcases hwritten with hop | hop
    · rw [harith] at hop
      cases hop
    · exact hstore hop
  have hs₁ : LeftoverInv leftover s₁ := by
    cases hfolded with
    | kept => exact h
    | integers hop _ h1 | doubles hop _ h1 =>
      have hpos := hscan.pos_of_stack fun hnop => by
        rw [hnop] at h1
        cases h1
      refine h.replace (hleftover (.inl hop)) nofun fun r hr => ?_
      simp only [List.mem_cons, List.not_mem_nil, or_false] at hr
      omega
    | increment hop h1 =>
      have hpos := hscan.pos_of_stack (by rw [h1]; decide)
      refine h.replace (hleftover (.inr hop)) nofun fun r hr => ?_
      simp only [List.mem_cons, List.not_mem_nil, or_false] at hr
      omega
  exact ⟨hs₁.code, hs₁.sorted, hs₁.removed⟩

theorem LeftoverInv.scan (hleftover : ∀ inst ∈ leftover, inst.stores ≠ some 2)
    (h : arithmeticScan D (leftover ++ countThisCode) = some s) : LeftoverInv leftover s := by
  have hrange (n : ℕ) (s : ArithmeticState)
      (h : (List.range n).foldlM (arithmeticStep D)
        ⟨leftover ++ countThisCode, .nop, .nop, .nop, [], false⟩ = some s) :
      LeftoverInv leftover s := by
    induction n generalizing s with
    | zero =>
      obtain rfl := Option.some.inj h
      exact ⟨⟨leftover, rfl, rfl, hleftover⟩, List.Pairwise.nil, nofun⟩
    | succ n ih =>
      rw [List.range_succ, List.foldlM_append] at h
      obtain ⟨s₀, hs₀, h⟩ := Option.bind_eq_some_iff.mp h
      have hstep : arithmeticStep D s₀ n = some s := by simpa using h
      exact (ih s₀ hs₀).step (arithmeticScan_positions hs₀).1 hstep
  exact hrange _ s h

theorem removeAddress_stores {inst inst' : Instruction} (h : removeAddress pos inst = some inst') :
    inst'.stores = inst.stores := by
  unfold removeAddress at h
  split at h
  · obtain rfl := Option.some.inj h
    rfl
  · next j hj =>
    have hop : inst.op ≠ .storeVar := by
      intro hop
      rw [hop] at hj
      cases hj
    simp only [Option.bind_eq_bind, Option.bind_eq_some_iff] at h
    obtain ⟨addr, -, h⟩ := h
    split at h
    · obtain rfl := Option.some.inj h
      rw [Instruction.stores, if_neg hop, Instruction.stores, if_neg hop]
    · obtain rfl := Option.some.inj h
      rfl

theorem mapM_some {α β : Type} {f : α → Option β} {l : List α} {l' : List β}
    (h : l.mapM f = some l') : l'.length = l.length ∧ ∀ b ∈ l', ∃ a ∈ l, f a = some b := by
  induction l generalizing l' with
  | nil =>
    obtain rfl := Option.some.inj h
    exact ⟨rfl, nofun⟩
  | cons a l ih =>
    simp only [List.mapM_cons, Option.bind_eq_bind, Option.bind_eq_some_iff] at h
    obtain ⟨b, hb, rest, hrest, h⟩ := h
    obtain rfl := Option.some.inj h
    obtain ⟨hlen, hmem⟩ := ih hrest
    refine ⟨congrArg Nat.succ hlen, fun b' hb' => ?_⟩
    rcases List.mem_cons.mp hb' with rfl | hb'
    · exact ⟨a, List.mem_cons_self .., hb⟩
    · obtain ⟨a', ha', hf⟩ := hmem b' hb'
      exact ⟨a', List.mem_cons_of_mem _ ha', hf⟩

theorem removeInstruction_countThis (hpos : pos < leftover.length)
    (hleftover : ∀ inst ∈ leftover, inst.stores ≠ some 2)
    (h : removeInstruction pos (leftover ++ countThisCode) = some code') :
    ∃ leftover', code' = leftover' ++ countThisCode ∧ leftover'.length + 1 = leftover.length ∧
      ∀ inst ∈ leftover', inst.stores ≠ some 2 := by
  rw [removeInstruction, List.eraseIdx_append_of_lt_length hpos, List.mapM_append] at h
  simp only [Option.bind_eq_bind, Option.bind_eq_some_iff] at h
  obtain ⟨leftover', hmap, tail, htail, h⟩ := h
  obtain rfl : countThisCode = tail := Option.some.inj htail
  obtain rfl := Option.some.inj h
  obtain ⟨hlen, hmem⟩ := mapM_some hmap
  refine ⟨leftover', rfl, ?_, fun inst' hinst' => ?_⟩
  · rw [hlen, List.length_eraseIdx_of_lt hpos]
    omega
  · obtain ⟨inst, hinst, haddress⟩ := hmem inst' hinst'
    rw [removeAddress_stores haddress]
    exact hleftover inst (List.mem_of_mem_eraseIdx hinst)

/-- Not all of the leftover code is removed. -/
theorem removeInstructions_countThis {removeList : List ℕ} (hsorted : removeList.Pairwise (· < ·))
    (hremoved : ∀ r ∈ removeList, pos ≤ r ∧ r + 1 < leftover.length + pos)
    (hne : leftover ≠ []) (hleftover : ∀ inst ∈ leftover, inst.stores ≠ some 2)
    (h : removeInstructions removeList pos (leftover ++ countThisCode) = some code') :
    ∃ leftover', code' = leftover' ++ countThisCode ∧ leftover' ≠ [] ∧
      ∀ inst ∈ leftover', inst.stores ≠ some 2 := by
  induction removeList generalizing leftover pos with
  | nil =>
    obtain rfl := Option.some.inj h
    exact ⟨leftover, rfl, hne, hleftover⟩
  | cons r removeList ih =>
    simp only [removeInstructions, Option.bind_eq_bind, Option.bind_eq_some_iff] at h
    obtain ⟨code₁, hfirst, hrest⟩ := h
    obtain ⟨hlt, hsorted⟩ := List.pairwise_cons.mp hsorted
    obtain ⟨hle, hr⟩ := hremoved r (List.mem_cons_self ..)
    obtain ⟨leftover₁, rfl, hlen, hstores⟩ :=
      removeInstruction_countThis (by omega) hleftover hfirst
    refine ih hsorted (fun r' hr' => ?_) ?_ hstores hrest
    · have hlt' := hlt r' hr'
      obtain ⟨-, hr'⟩ := hremoved r' (List.mem_cons_of_mem _ hr')
      omega
    · rintro rfl
      simp only [List.length_nil] at hlen
      omega

theorem optimiseArithmetic_countThis {fuel : ℕ} {hasOptimised changed : Bool} (hne : leftover ≠ [])
    (hleftover : ∀ inst ∈ leftover, inst.stores ≠ some 2)
    (h : optimiseArithmetic D fuel (leftover ++ countThisCode) hasOptimised = some (code', changed)) :
    ∃ leftover', code' = leftover' ++ countThisCode ∧ leftover' ≠ [] ∧
      ∀ inst ∈ leftover', inst.stores ≠ some 2 := by
  induction fuel generalizing leftover hasOptimised with
  | zero => cases h
  | succ fuel ih =>
    simp only [optimiseArithmetic, arithmeticPass, Option.bind_eq_bind, Option.bind_eq_some_iff] at h
    obtain ⟨⟨code₁, changed₁⟩, ⟨s, hscan, code₂, hremove, hpass⟩, h⟩ := h
    obtain ⟨rfl, rfl⟩ := Prod.mk.inj (Option.some.inj hpass)
    obtain ⟨⟨leftover₁, hcode, hlen, hstores⟩, hsorted, hremoved⟩ := LeftoverInv.scan hleftover hscan
    have hne₁ : leftover₁ ≠ [] := by
      rintro rfl
      exact hne (List.length_eq_zero_iff.mp hlen.symm)
    rw [hcode] at hremove
    obtain ⟨leftover₂, rfl, hne₂, hstores₂⟩ := removeInstructions_countThis hsorted
      (fun r hr => ⟨Nat.zero_le r, hlen ▸ hremoved r hr⟩) hne₁ hstores hremove
    split at h
    · exact ih hne₂ hstores₂ h
    · obtain ⟨rfl, rfl⟩ := Prod.mk.inj (Option.some.inj h)
      exact ⟨leftover₂, rfl, hne₂, hstores₂⟩

theorem optimise_countThis {fuel : ℕ} (hne : leftover ≠ [])
    (hleftover : ∀ inst ∈ leftover, inst.stores ≠ some 2)
    (h : optimise D 3 0 fuel (leftover ++ countThisCode) = some code') :
    ∃ leftover', code' = leftover' ++ countThisCode ∧ leftover' ≠ [] := by
  induction fuel generalizing leftover with
  | zero => cases h
  | succ fuel ih =>
    simp only [optimise, Option.bind_eq_bind, Option.bind_eq_some_iff] at h
    obtain ⟨⟨code₁, changed₁⟩, hvars, ⟨code₂, changed₂⟩, harith, h⟩ := h
    obtain ⟨-, leftover₁, rfl, hlen, hstores₁⟩ := optimiseVars_countThis hleftover hvars
    have hne₁ : leftover₁ ≠ [] := by
      rintro rfl
      exact hne (List.length_eq_zero_iff.mp hlen.symm)
    obtain ⟨leftover₂, rfl, hne₂, hstores₂⟩ := optimiseArithmetic_countThis hne₁ hstores₁ harith
    split at h
    · exact ih hne₂ hstores₂ h
    · obtain rfl := Option.some.inj h
      exact ⟨leftover₂, rfl, hne₂⟩

end

/-! ## The next function -/

section

variable {D : DoubleOps} {A : AsmEnv} {code : CodeBlock} {m_code m_code' : List Instruction}

/-- Success and the words that a call of `assemble` comes to. -/
def assembled (D : DoubleOps) (A : AsmEnv) (code : CodeBlock) (m_code : List Instruction) :
    Option (Option AssembledCode) :=
  (assemble D A code m_code).map Prod.fst

theorem assembled_eq {insts : List Instruction} (h : (assembleFunction A code).Ok m_code () insts) :
    assembled D A code m_code =
      (optimise D (code.maxVarId + 1) A.args.length (insts.length + 1) insts).bind fun insts =>
        (writeCode (code.maxVarId + 1) insts).map Prod.fst := by
  unfold assembled assemble
  rw [h.run]
  cases hoptimise : optimise D (code.maxVarId + 1) A.args.length (insts.length + 1) insts with
  | none =>
    have hnone : optimiseCode D (code.maxVarId + 1) A.args.length insts = none := by
      rw [optimiseCode, hoptimise]
      rfl
    rw [Attempt.bind_none hnone]
    rfl
  | some insts' =>
    have hok : (optimiseCode D (code.maxVarId + 1) A.args.length).Ok insts () insts' := by
      rw [Attempt.Ok, optimiseCode, hoptimise]
      rfl
    rw [hok.run]
    rfl

/-- A call that succeeds leaves nothing. -/
theorem assemble_clears {asmCode : AssembledCode} (h : (assemble D A code).Ok m_code asmCode m_code') :
    m_code' = [] := by
  simp only [assemble, Attempt.bind_ok] at h
  obtain ⟨-, _, -, -, m_code₁, -, hwrite⟩ := h
  unfold Attempt.Ok writeCode at hwrite
  split at hwrite
  · split at hwrite
    · exact (Prod.mk.inj (Option.some.inj hwrite)).2.symm
    · cases (Prod.mk.inj (Option.some.inj hwrite)).1
  · cases hwrite

/-- A function of two slots is optimised only behind code that stores into no other ones. -/
theorem returnThis_stores {result : Option AssembledCode}
    (h : assembled D emptyEnv returnThis m_code = some result) :
    ∀ inst ∈ m_code, inst.stores ≠ some 2 := by
  intro inst hmem hv
  rw [assembled_eq (returnThis_assembles m_code)] at h
  obtain ⟨insts, hoptimise, -⟩ := Option.bind_eq_some_iff.mp h
  simp only [optimise, optimiseVars, optimiseLoads, Option.bind_eq_bind, Option.bind_eq_some_iff]
    at hoptimise
  obtain ⟨-, ⟨-, ⟨⟨code', vars⟩, hinfer, -⟩, -⟩, -⟩ := hoptimise
  obtain ⟨-, -, -, -, -, -, -, -, hlt⟩ := inferTypes_append hinfer
  exact absurd (hlt inst hmem 2 hv) (by decide)

theorem codeAddress_append (insts more : List Instruction) :
    codeAddress (insts ++ more) (insts ++ more).length =
      codeAddress insts insts.length + codeAddress more more.length := by
  simp only [codeAddress, List.take_length, List.map_append, List.sum_append]

theorem countThis_size {asmCode : AssembledCode} (hne : m_code ≠ [])
    (hstores : ∀ inst ∈ m_code, inst.stores ≠ some 2)
    (h : assembled D emptyEnv countThis m_code = some (some asmCode)) : asmCode.size ≠ 9 := by
  rw [assembled_eq (countThis_assembles m_code)] at h
  obtain ⟨insts, hoptimise, hwrite⟩ := Option.bind_eq_some_iff.mp h
  obtain ⟨leftover, rfl, hne'⟩ := optimise_countThis hne hstores hoptimise
  obtain ⟨⟨_, _⟩, hwrite, rfl⟩ := Option.map_eq_some_iff.mp hwrite
  unfold writeCode at hwrite
  split at hwrite
  · next hlt =>
    split at hwrite
    · next asmCode' hlink =>
      have hsize : asmCode'.size = codeAddress leftover leftover.length + 9 := by
        simp only [link, if_pos hlt, Option.bind_eq_bind, Option.bind_eq_some_iff] at hlink
        obtain ⟨words, -, hlink⟩ := hlink
        obtain rfl := Option.some.inj hlink
        exact codeAddress_append leftover countThisCode
      obtain rfl := Option.some.inj (Prod.mk.inj (Option.some.inj hwrite)).1
      obtain ⟨inst, rest, rfl⟩ := List.exists_cons_of_ne_nil hne'
      rw [hsize]
      simp only [codeAddress, List.take_length, List.map_cons, List.sum_cons]
      omega
    · cases (Prod.mk.inj (Option.some.inj hwrite)).1
  · cases hwrite

/-- **Earlier calls.** Whatever they were, every function is assembled behind them as it is on a fresh
    assembler if and only if they have left no instruction. -/
theorem assembled_fresh_iff (D : DoubleOps) (calls : List (AsmEnv × CodeBlock)) :
    (∀ A code, (assembleAll D calls []).bind (assembled D A code) = assembled D A code []) ↔
      assembleAll D calls [] = some [] := by
  constructor
  · intro hsame
    obtain ⟨_, hthis⟩ := returnThis_fresh D
    obtain ⟨asmCode, hcount, hsize⟩ := countThis_fresh D
    obtain ⟨m_code, hcalls, hthis'⟩ :=
      Option.bind_eq_some_iff.mp ((hsame emptyEnv returnThis).trans hthis)
    have hcount' := (hsame emptyEnv countThis).trans hcount
    rw [hcalls, Option.bind_some] at hcount'
    rw [hcalls]
    refine congrArg some ?_
    by_contra hne
    exact countThis_size hne (returnThis_stores hthis') hcount' hsize
  · intro hcalls A code
    rw [hcalls]
    rfl

/-- `this; other;` where there is no `other`. -/
def unknownVariable : CodeBlock :=
  .mk true 1 1 [] [.var .unknown 0 "this", .var .unknown 0 "other"]

def emptyClassEnv : AsmEnv := { emptyEnv with clazz := some (8, [Class.create none "Empty"]) }

/-- The `LOAD_VAR` of the function that is given up is part of the next one. -/
theorem unknownVariable_leftover :
    assembleAll exceptionEnv.double [(emptyClassEnv, unknownVariable)] [] =
        some [⟨.loadVar, [0]⟩] ∧
      assembled exceptionEnv.double emptyClassEnv returnThis [] =
        some (some ⟨[0x101, 0, 0x507, 0x310, 0, 0x507], 6, 2⟩) ∧
      assembled exceptionEnv.double emptyClassEnv returnThis [⟨.loadVar, [0]⟩] =
        some (some ⟨[0x101, 0, 0x304, 0x507, 0x310, 0, 0x507], 7, 2⟩) :=
  ⟨rfl, rfl, rfl⟩

end

end B0rk
