import B0rk.Assembler.Beyond
import B0rk.Assembler.Proofs.History

set_option autoImplicit false

/-! # The optimiser terminates

A pass writes some instructions anew, never the last one of the code, and takes out a set of
instructions in front of it. It asks for another round only if that set has two elements at least, so
the number of the instructions bounds the rounds of both loops. -/

namespace B0rk

namespace Beyond

variable {B : Beyond} {D : DoubleOps} {front code code' : List Instruction} {last : Instruction}
  {vars : List VarInfo} {pos : ℕ}

/-! ## Writing instructions anew -/

theorem inferInstruction_ret {s : InferState} (hlast : last.op = .ret) :
    (B.inferInstruction s (dupSecondLoad s.loaded last)).1 = last := by
  have hdup : dupSecondLoad s.loaded last = last := by simp [dupSecondLoad, hlast]
  have htype : takesType s.prevType .ret = false := by
    have hgroup : (OpCode.ret.toNat &&& 0xf00 == 0x200) = false := by decide
    simp [takesType, hgroup]
  simp [hdup, inferInstruction, hlast, htype]

theorem inferTypes_snoc (front : List Instruction) (s : InferState) (hlast : last.op = .ret) :
    ∃ front', (B.inferTypes (front ++ [last]) s).1 = front' ++ [last] ∧
      front'.length = front.length := by
  induction front generalizing s with
  | nil => exact ⟨[], by simp [inferTypes, inferInstruction_ret hlast], rfl⟩
  | cons inst front ih =>
    obtain ⟨front', hfront', hlen⟩ :=
      ih (B.inferInstruction s (dupSecondLoad s.loaded inst)).2
    exact ⟨(B.inferInstruction s (dupSecondLoad s.loaded inst)).1 :: front',
      by simp [inferTypes, hfront'], by simp [hlen]⟩

theorem replaceLoads_snoc (front : List Instruction) (vars : List VarInfo) (hlast : last.op = .ret) :
    ∃ front', (B.replaceLoads (front ++ [last]) vars).1 = front' ++ [last] ∧
      front'.length = front.length := by
  induction front generalizing vars with
  | nil => exact ⟨[], by simp [replaceLoads, replaceLoad, hlast], rfl⟩
  | cons inst front ih =>
    obtain ⟨front', hfront', hlen⟩ := ih (B.replaceLoad vars inst).2
    exact ⟨(B.replaceLoad vars inst).1 :: front', by simp [replaceLoads, hfront'], by simp [hlen]⟩

theorem optimiseLoads_snoc (front : List Instruction) (localVars argCount : ℕ) (hlast : last.op = .ret) :
    ∃ front', (B.optimiseLoads localVars argCount (front ++ [last])).1 = front' ++ [last] ∧
      front'.length = front.length := by
  obtain ⟨front₁, hfront₁, hlen₁⟩ :=
    inferTypes_snoc (B := B) front (.initial localVars argCount) hlast
  unfold optimiseLoads
  dsimp only
  split
  · obtain ⟨front₂, hfront₂, hlen₂⟩ := replaceLoads_snoc (B := B) front₁
      (B.inferTypes (front ++ [last]) (.initial localVars argCount)).2 hlast
    exact ⟨front₂, by rw [hfront₁, hfront₂], hlen₂.trans hlen₁⟩
  · exact ⟨front₁, hfront₁, hlen₁⟩

/-! ## The sets of the positions -/

/-- A set of positions below `bound` that is empty or has two elements at least. -/
structure Removable (bound : ℕ) (removeList : List ℕ) : Prop where
  sorted : removeList.Pairwise (· < ·)
  below : ∀ r ∈ removeList, r < bound
  two : removeList ≠ [] → 2 ≤ removeList.length

theorem two_le_length {a b : ℕ} {l : List ℕ} (hab : a ≠ b) (ha : a ∈ l) (hb : b ∈ l) :
    2 ≤ l.length := by
  match l with
  | [] => simp at ha
  | [c] => exact absurd ((List.mem_singleton.mp ha).trans (List.mem_singleton.mp hb).symm) hab
  | _ :: _ :: _ => simp

/-- Two neighbours are noted. -/
theorem Removable.insert {bound : ℕ} {l : List ℕ} (h : Removable bound l) (removed : List ℕ)
    (hbelow : ∀ r ∈ removed, r < bound) {a b : ℕ} (hab : a ≠ b) (ha : a ∈ removed)
    (hb : b ∈ removed) : Removable bound (removed.foldl (fun l r => insertPos r l) l) := by
  have hsorted : ∀ (removed l : List ℕ), l.Pairwise (· < ·) →
      (removed.foldl (fun l r => insertPos r l) l).Pairwise (· < ·) := by
    intro removed
    induction removed with
    | nil => exact fun l hl => hl
    | cons r removed ih => exact fun l hl => ih _ (insertPos_pairwise hl)
  refine ⟨hsorted _ _ h.sorted, fun r hr => ?_, fun _ => ?_⟩
  · rcases mem_insertAll.mp hr with hr | hr
    · exact hbelow r hr
    · exact h.below r hr
  · exact two_le_length hab (mem_insertAll.mpr (.inl ha)) (mem_insertAll.mpr (.inl hb))

theorem deadStores_removable (front : List Instruction) (pos : ℕ) {prevOp : OpCode} (hlast : last.op = .ret)
    (hprev : pos = 0 → prevOp = .nop) :
    Removable (pos + front.length) (B.deadStores vars (front ++ [last]) pos prevOp) := by
  induction front generalizing pos prevOp with
  | nil =>
    have hdead : B.isDeadStore vars last = false := by simp [isDeadStore, hlast]
    simp only [List.nil_append, deadStores, hdead, Bool.false_eq_true, false_and, if_false]
    exact ⟨List.Pairwise.nil, nofun, fun h => absurd rfl h⟩
  | cons inst front ih =>
    have hlen : pos + (inst :: front).length = pos + 1 + front.length := by
      simp only [List.length_cons]
      omega
    have hrest : Removable _ (B.deadStores vars (front ++ [last]) (pos + 1) inst.op) :=
      ih (pos + 1) (by omega)
    rw [hlen]
    simp only [List.cons_append, deadStores]
    split
    · next hdead =>
      have hpos : pos ≠ 0 := by
        rintro rfl
        rcases hdead.2 with h | h <;> simp [hprev rfl] at h
      refine hrest.insert [pos, pos - 1] ?_ (a := pos) (b := pos - 1) (by omega)
        (by simp) (by simp)
      intro r hr
      simp only [List.mem_cons, List.not_mem_nil, or_false] at hr
      omega
    · exact hrest

/-! ## Taking instructions out -/

theorem removeInstruction_snoc (front : List Instruction) (pos : ℕ) (hlast : last.op = .ret) (hpos : pos < front.length) :
    ∃ front', removeInstruction pos (front ++ [last]) = front' ++ [last] ∧
      front'.length + 1 = front.length := by
  have haddress : removeAddress pos last = some last := by simp [removeAddress, hlast, OpCode.address]
  refine ⟨(front.eraseIdx pos).map (fun inst => (removeAddress pos inst).getD inst), ?_, ?_⟩
  · rw [removeInstruction, List.eraseIdx_append_of_lt_length hpos, List.map_append]
    simp [haddress]
  · rw [List.length_map, List.length_eraseIdx_of_lt hpos]
    omega

theorem removeInstructions_snoc (front : List Instruction) (pos : ℕ) {removeList : List ℕ}
    (hlast : last.op = .ret)
    (hsorted : removeList.Pairwise (· < ·))
    (hremoved : ∀ r ∈ removeList, pos ≤ r ∧ r < front.length + pos) :
    ∃ front', removeInstructions removeList pos (front ++ [last]) = front' ++ [last] ∧
      front'.length + removeList.length = front.length := by
  induction removeList generalizing front pos with
  | nil => exact ⟨front, rfl, rfl⟩
  | cons r removeList ih =>
    obtain ⟨hlt, hsorted⟩ := List.pairwise_cons.mp hsorted
    obtain ⟨hle, hr⟩ := hremoved r (List.mem_cons_self ..)
    obtain ⟨front₁, hfront₁, hlen₁⟩ :=
      removeInstruction_snoc front (r - pos) hlast (by omega)
    obtain ⟨front₂, hfront₂, hlen₂⟩ := ih front₁ (pos + 1) hsorted
      (fun r' hr' => by
        have hlt' := hlt r' hr'
        obtain ⟨-, hr'⟩ := hremoved r' (List.mem_cons_of_mem _ hr')
        omega)
    exact ⟨front₂, by rw [removeInstructions, hfront₁, hfront₂],
      by simp only [List.length_cons]; omega⟩

/-! ## One pass -/

/-- A pass from `code` to `code'`: it keeps the last instruction where it is, takes out a set of
    instructions in front of it, and two of them at least where it has changed something. -/
def Pass (code code' : List Instruction) (changed : Bool) : Prop :=
  ∃ rewritten removeList, rewritten.length = code.length ∧
    rewritten.getLast? = code.getLast? ∧ code' = removeInstructions removeList 0 rewritten ∧
    removeList.Pairwise (· < ·) ∧ (∀ r ∈ removeList, r + 1 < code.length) ∧
    code'.length + removeList.length = code.length ∧ code'.getLast? = code.getLast? ∧
    (changed = true → 2 ≤ removeList.length)

theorem Removable.pass {front₁ : List Instruction} {removeList : List ℕ} {changed : Bool}
    (hlast : last.op = .ret) (hlen : front₁.length = front.length)
    (h : Removable front.length removeList) (hchanged : changed = true → removeList ≠ []) :
    Pass (front ++ [last]) (removeInstructions removeList 0 (front₁ ++ [last])) changed := by
  obtain ⟨front', hfront', hlen'⟩ := removeInstructions_snoc front₁ 0 hlast
    h.sorted (fun r hr => ⟨Nat.zero_le _, by have := h.below r hr; omega⟩)
  refine ⟨front₁ ++ [last], removeList, by simp [hlen], by simp, rfl, h.sorted, fun r hr => ?_, ?_, ?_,
    fun hch => h.two (hchanged hch)⟩
  · have hbelow := h.below r hr
    simp only [List.length_append, List.length_singleton]
    omega
  · rw [hfront']
    simp only [List.length_append, List.length_singleton]
    omega
  · simp [hfront']

theorem Pass.le {changed : Bool} (h : Pass code code' changed) : code'.length ≤ code.length := by
  obtain ⟨_, removeList, -, -, -, -, -, hlen, -, -⟩ := h
  omega

theorem Pass.add_two_le (h : Pass code code' true) : code'.length + 2 ≤ code.length := by
  obtain ⟨_, removeList, -, -, -, -, -, hlen, -, htwo⟩ := h
  have := htwo rfl
  omega

theorem Pass.getLast? {changed : Bool} (h : Pass code code' changed) :
    code'.getLast? = code.getLast? := by
  obtain ⟨_, removeList, -, -, -, -, -, -, hlast, -⟩ := h
  exact hlast

/-- Code that ends in a `RETURN`. -/
def EndsInRet (code : List Instruction) : Prop := ∃ last, code.getLast? = some last ∧ last.op = .ret

theorem EndsInRet.snoc (h : EndsInRet code) : ∃ front last, code = front ++ [last] ∧ last.op = .ret := by
  obtain ⟨last, hlast, hop⟩ := h
  obtain ⟨front, rfl⟩ := List.getLast?_eq_some_iff.mp hlast
  exact ⟨front, last, rfl, hop⟩

theorem Pass.endsInRet {changed : Bool} (h : Pass code code' changed) (hcode : EndsInRet code) :
    EndsInRet code' := by
  obtain ⟨last, hlast, hop⟩ := hcode
  exact ⟨last, h.getLast?.trans hlast, hop⟩

theorem optimiseVars_pass (localVars argCount : ℕ) (hcode : EndsInRet code) :
    Pass code (B.optimiseVars localVars argCount code).1
      (B.optimiseVars localVars argCount code).2 := by
  obtain ⟨front, last, rfl, hlast⟩ := hcode.snoc
  obtain ⟨front₁, hfront₁, hlen⟩ := optimiseLoads_snoc (B := B) front localVars argCount hlast
  unfold optimiseVars
  dsimp only
  split
  · simp only [hfront₁]
    have h : Removable _ (B.deadStores (B.optimiseLoads localVars argCount (front ++ [last])).2
        (front₁ ++ [last]) 0 .nop) := deadStores_removable front₁ 0 hlast (fun _ => rfl)
    rw [Nat.zero_add, hlen] at h
    refine h.pass hlast hlen (fun hch hnil => ?_)
    simp [hnil] at hch
  · simp only [hfront₁]
    have hnone : Removable front.length [] := ⟨List.Pairwise.nil, nofun, fun h => absurd rfl h⟩
    exact hnone.pass hlast hlen nofun

/-! ## The loop of the arithmetic -/

/-- What the loop does at an instruction: nothing, or a window of instructions that it replaces. -/
inductive Window (s : ArithmeticState) (pos : ℕ) (inst : Instruction) : ArithmeticState → Prop
  | kept : Window s pos inst s
  | replaced {inst' : Instruction} {removed : List ℕ} (hop : inst.op ≠ .ret)
      (hnew : inst'.op ≠ .loadVar) (hpos : 2 ≤ pos) (hfirst : pos - 1 ∈ removed) (hsecond : pos - 2 ∈ removed)
      (hremoved : ∀ r ∈ removed, r < pos) : Window s pos inst (s.replace pos inst' removed)

/-- An opcode that the loop remembers stands in front of the position. -/
structure PrevInside (s : ArithmeticState) (pos : ℕ) : Prop where
  prevOp1 : s.prevOp1 ≠ .nop → 1 ≤ pos
  prevOp2 : s.prevOp2 ≠ .nop → 2 ≤ pos
  prevOp3 : s.prevOp3 ≠ .nop → 3 ≤ pos

theorem isStack_ne_nop {op : OpCode} (h : op.isStack = true) : op ≠ .nop := by
  rintro rfl
  exact absurd h (by decide)

theorem foldInstruction_window {s s' : ArithmeticState} {inst : Instruction}
    (hprev : PrevInside s pos) (h : B.foldInstruction D pos inst s = some s') :
    Window s pos inst s' := by
  unfold foldInstruction at h
  split at h
  · next hop =>
    simp only [Bool.and_eq_true] at hop
    obtain ⟨⟨harith, -⟩, hstack⟩ := hop
    have hpos : 2 ≤ pos := hprev.prevOp2 (isStack_ne_nop hstack)
    have hret : inst.op ≠ .ret := by
      intro hret
      rw [hret] at harith
      exact absurd harith (by decide)
    have hwindow : ∀ inst' : Instruction, inst'.op ≠ .loadVar →
        Window s pos inst (s.replace pos inst' [pos - 1, pos - 2]) := by
      intro inst' hnew
      refine .replaced hret hnew hpos (by simp) (by simp) (fun r hr => ?_)
      simp only [List.mem_cons, List.not_mem_nil, or_false] at hr
      omega
    unfold foldConstants at h
    split at h
    · split at h
      · split at h
        · obtain ⟨result, -, h⟩ := Option.bind_eq_some_iff.mp h
          split at h
          · obtain rfl := Option.some.inj h
            exact hwindow _ (by simp)
          · obtain rfl := Option.some.inj h
            exact .kept
        · split at h
          · split at h
            · obtain rfl := Option.some.inj h
              exact hwindow _ (by simp)
            · obtain rfl := Option.some.inj h
              exact .kept
          · obtain rfl := Option.some.inj h
            exact .kept
      · obtain rfl := Option.some.inj h
        exact .kept
    · obtain rfl := Option.some.inj h
      exact .kept
  · split at h
    · next hop =>
      simp only [Bool.and_eq_true, Bool.or_eq_true, decide_eq_true_eq] at hop
      obtain ⟨⟨hstore, -⟩, hload⟩ := hop
      have hpos : 3 ≤ pos := by
        rcases hload with ⟨-, h3⟩ | ⟨-, h3⟩
        · exact hprev.prevOp3 (isStack_ne_nop h3)
        · exact hprev.prevOp3 (by simp [h3])
      obtain rfl := Option.some.inj h
      unfold foldIncrement
      split
      · split
        · refine .replaced (by simp [hstore]) (by simp) (by omega) (by simp) (by simp) (fun r hr => ?_)
          simp only [List.mem_cons, List.not_mem_nil, or_false] at hr
          omega
        · exact .kept
      · exact .kept
    · obtain rfl := Option.some.inj h
      exact .kept

/-- The loop before it comes to a position. -/
structure PassInv (front : List Instruction) (last : Instruction) (pos : ℕ) (s : ArithmeticState) :
    Prop where
  length : s.code.length = front.length + 1
  last : s.code[front.length]? = some last
  prev : PrevInside s pos
  removable : Removable (pos - 1) s.removeList
  changed : s.changed = true → s.removeList ≠ []

theorem Removable.mono {bound bound' : ℕ} {l : List ℕ} (h : Removable bound l)
    (hle : bound ≤ bound') : Removable bound' l :=
  ⟨h.sorted, fun r hr => Nat.lt_of_lt_of_le (h.below r hr) hle, h.two⟩

theorem PassInv.step {s s' : ArithmeticState} (hlast : last.op = .ret)
    (h : PassInv front last pos s) (hstep : B.arithmeticStep D s pos = some s') :
    PassInv front last (pos + 1) s' := by
  simp only [arithmeticStep, Option.bind_eq_bind, Option.bind_eq_some_iff] at hstep
  obtain ⟨inst, hinst, s₁, hfold, hstep⟩ := hstep
  obtain rfl := Option.some.inj hstep
  have hprev : ∀ s₁ : ArithmeticState, s₁.prevOp1 = s.prevOp1 → s₁.prevOp2 = s.prevOp2 →
      PrevInside { s₁ with prevOp3 := s₁.prevOp2, prevOp2 := s₁.prevOp1, prevOp1 := inst.op }
        (pos + 1) := by
    intro s₁ h1 h2
    refine ⟨fun _ => by omega, fun h1' => ?_, fun h2' => ?_⟩
    · have := h.prev.prevOp1 (by rwa [← h1])
      omega
    · have := h.prev.prevOp2 (by rwa [← h2])
      omega
  cases foldInstruction_window h.prev hfold with
  | kept => exact ⟨h.length, h.last, hprev s rfl rfl, h.removable.mono (by omega), h.changed⟩
  | replaced hop _ hpos hfirst hsecond hremoved =>
    have hne : pos ≠ front.length := by
      rintro rfl
      obtain rfl := Option.some.inj (hinst.symm.trans h.last)
      exact hop hlast
    have hinsert := (h.removable.mono (Nat.sub_le pos 1)).insert _ hremoved (a := pos - 1)
      (b := pos - 2) (by omega) hfirst hsecond
    refine ⟨by simp [ArithmeticState.replace, h.length], ?_, hprev _ rfl rfl, hinsert, fun _ hnil => ?_⟩
    · simp only [ArithmeticState.replace]
      rw [List.getElem?_set_ne hne, h.last]
    · have hmem := mem_insertAll (l := s.removeList).mpr (.inl hfirst)
      rw [show List.foldl _ s.removeList _ = [] from hnil] at hmem
      simp at hmem

theorem PassInv.initial : PassInv front last 0 ⟨front ++ [last], .nop, .nop, .nop, [], false⟩ :=
  { length := by simp
    last := by simp
    prev := ⟨fun h => absurd rfl h, fun h => absurd rfl h, fun h => absurd rfl h⟩
    removable := ⟨List.Pairwise.nil, nofun, fun h => absurd rfl h⟩
    changed := nofun }

theorem PassInv.scan {n : ℕ} {s : ArithmeticState} (hlast : last.op = .ret)
    (h : (List.range n).foldlM (B.arithmeticStep D)
      ⟨front ++ [last], .nop, .nop, .nop, [], false⟩ = some s) : PassInv front last n s := by
  induction n generalizing s with
  | zero =>
    obtain rfl := Option.some.inj h
    exact .initial
  | succ n ih =>
    rw [List.range_succ, List.foldlM_append] at h
    obtain ⟨s₀, hs₀, h⟩ := Option.bind_eq_some_iff.mp h
    have hstep : B.arithmeticStep D s₀ n = some s := by simpa using h
    exact (ih hs₀).step hlast hstep

theorem arithmeticPass_pass {changed : Bool} (hcode : EndsInRet code)
    (h : B.arithmeticPass D code = .ok (code', changed)) : Pass code code' changed := by
  obtain ⟨front, last, rfl, hlast⟩ := hcode.snoc
  unfold arithmeticPass at h
  split at h
  · next s hs =>
    rw [List.length_append, List.length_singleton] at hs
    have hinv : PassInv front last (front.length + 1) s := PassInv.scan hlast hs
    have hcode : s.code.getLast? = some last := by
      rw [List.getLast?_eq_getElem?, hinv.length]
      exact hinv.last
    obtain ⟨front₁, hfront₁⟩ := List.getLast?_eq_some_iff.mp hcode
    have hlen : front₁.length = front.length := by
      have hlen := hinv.length
      rw [hfront₁] at hlen
      simpa using hlen
    simp only [Except.ok.injEq, Prod.mk.injEq] at h
    obtain ⟨rfl, rfl⟩ := h
    rw [hfront₁]
    exact Removable.pass hlast hlen hinv.removable hinv.changed
  · cases h

/-! ## The loops -/

/-- The inner loop. A trap apart it ends within the number of the instructions, and where it or
    `optimiseVars` has changed something, `hasOptimised` is set. -/
theorem optimiseArithmetic_ends {fuel : ℕ} (hasOptimised : Bool) (hcode : EndsInRet code)
    (hfuel : code.length < fuel) :
    B.optimiseArithmetic D fuel code hasOptimised = .error .trap ∨
      ∃ code' changed, B.optimiseArithmetic D fuel code hasOptimised = .ok (code', changed) ∧
        code'.length ≤ code.length ∧ code'.getLast? = code.getLast? ∧
        (changed = true → hasOptimised = true ∨ code'.length + 2 ≤ code.length) := by
  induction fuel generalizing code hasOptimised with
  | zero => omega
  | succ fuel ih =>
    simp only [optimiseArithmetic]
    cases hpass : B.arithmeticPass D code with
    | error stop =>
      have htrap : stop = .trap := by
        unfold arithmeticPass at hpass
        split at hpass
        · cases hpass
        · cases hpass
          rfl
      exact .inl (by rw [htrap]; rfl)
    | ok result =>
      obtain ⟨code₁, changed⟩ := result
      have hround := arithmeticPass_pass hcode hpass
      cases changed with
      | false =>
        exact .inr ⟨code₁, hasOptimised, rfl, hround.le, hround.getLast?, .inl⟩
      | true =>
        have htwo := hround.add_two_le
        rcases ih true (hround.endsInRet hcode) (by omega) with
          htrap | ⟨code', changed', hresult, hle, hlast, -⟩
        · exact .inl htrap
        · exact .inr ⟨code', changed', hresult, by omega, hlast.trans hround.getLast?,
            fun _ => .inr (by omega)⟩

/-- One repetition of the outer loop. -/
theorem optimiseRound_ends {localVars argCount fuel : ℕ} {changed : Bool} (hcode : EndsInRet code)
    (hvars : B.optimiseVars localVars argCount code = (code', changed))
    (hfuel : code'.length < fuel) :
    B.optimiseArithmetic D fuel code' changed = .error .trap ∨
      ∃ code'' changed', B.optimiseArithmetic D fuel code' changed = .ok (code'', changed') ∧
        code''.length ≤ code.length ∧ code''.getLast? = code.getLast? ∧
        (changed' = true → code''.length + 2 ≤ code.length) := by
  have hpass : Pass code code' changed := by
    have h := optimiseVars_pass (B := B) localVars argCount hcode
    rwa [hvars] at h
  have hle := hpass.le
  rcases optimiseArithmetic_ends (B := B) (D := D) changed (hpass.endsInRet hcode)
    hfuel with htrap | ⟨code'', changed', hresult, hle', hlast, htwo⟩
  · exact .inl htrap
  · refine .inr ⟨code'', changed', hresult, by omega, hlast.trans hpass.getLast?, fun hch => ?_⟩
    rcases htwo hch with rfl | htwo
    · have htwo := hpass.add_two_le
      omega
    · omega

/-- The outer loop: the number of the instructions is fuel enough. -/
theorem optimise_ends (localVars argCount : ℕ) (hcode : EndsInRet code) :
    ∃ result, (∀ fuel, code.length < fuel → B.optimise D localVars argCount fuel code = result) ∧
      (result = .error .trap ∨ ∃ code', result = .ok code' ∧ code'.length ≤ code.length ∧
        code'.getLast? = code.getLast?) := by
  induction hn : code.length using Nat.strongRecOn generalizing code with
  | _ n ih =>
    subst hn
    rcases hvars : B.optimiseVars localVars argCount code with ⟨code₁, changed⟩
    have hloop : ∀ fuel, B.optimise D localVars argCount (fuel + 1) code =
        (B.optimiseArithmetic D (code₁.length + 1) code₁ changed).bind (fun x =>
          if x.2 then B.optimise D localVars argCount fuel x.1 else .ok x.1) := by
      intro fuel
      simp only [optimise, hvars]
      rfl
    rcases optimiseRound_ends (D := D) hcode hvars (Nat.lt_succ_self _) with
      htrap | ⟨code₂, changed', hresult, hle, hlast, htwo⟩
    · refine ⟨.error .trap, fun fuel hfuel => ?_, .inl rfl⟩
      obtain ⟨fuel, rfl⟩ := Nat.exists_eq_add_of_lt hfuel
      rw [hloop, htrap]
      rfl
    · cases changed' with
      | false =>
        refine ⟨.ok code₂, fun fuel hfuel => ?_, .inr ⟨code₂, rfl, hle, hlast⟩⟩
        obtain ⟨fuel, rfl⟩ := Nat.exists_eq_add_of_lt hfuel
        rw [hloop, hresult]
        rfl
      | true =>
        have htwo := htwo rfl
        have hcode₂ : EndsInRet code₂ := by
          obtain ⟨last, hret, hop⟩ := hcode
          exact ⟨last, hlast.trans hret, hop⟩
        obtain ⟨result, hfuel₂, hends⟩ := ih code₂.length (by omega) hcode₂ rfl
        refine ⟨result, fun fuel hfuel => ?_, ?_⟩
        · obtain ⟨fuel, rfl⟩ := Nat.exists_eq_add_of_lt hfuel
          rw [hloop, hresult]
          exact hfuel₂ _ (by omega)
        · rcases hends with htrap | ⟨code', hok, hle', hlast'⟩
          · exact .inl htrap
          · exact .inr ⟨code', hok, by omega, hlast'.trans hlast⟩

/-- The code in front of a repetition of one of the loops. -/
inductive Reached (B : Beyond) (D : DoubleOps) (localVars argCount : ℕ) (code : List Instruction) :
    List Instruction → Prop
  | start : Reached B D localVars argCount code code
  | vars {c : List Instruction} (h : Reached B D localVars argCount code c) :
      Reached B D localVars argCount code (B.optimiseVars localVars argCount c).1
  | arithmetic {c c' : List Instruction} {changed : Bool}
      (h : Reached B D localVars argCount code c)
      (hpass : B.arithmeticPass D c = .ok (c', changed)) :
      Reached B D localVars argCount code c'

theorem Reached.getLast? {localVars argCount : ℕ} {c : List Instruction}
    (h : Reached B D localVars argCount code c) (hcode : EndsInRet code) :
    c.getLast? = code.getLast? := by
  have hends : ∀ {c}, c.getLast? = code.getLast? → EndsInRet c := by
    intro c hc
    obtain ⟨last, hlast, hop⟩ := hcode
    exact ⟨last, hc.trans hlast, hop⟩
  induction h with
  | start => rfl
  | vars h ih => exact (optimiseVars_pass _ _ (hends ih)).getLast?.trans ih
  | arithmetic h hpass ih => exact (arithmeticPass_pass (hends ih) hpass).getLast?.trans ih

/-- `optimise` comes to an end, and no instruction is added on the way. What makes one of the loops
    go on has removed two instructions, and the `RETURN` at the end is never among the removed. -/
theorem optimise_terminates {localVars argCount : ℕ}
    (hcode : code = front ++ [⟨.pushI, [0]⟩, ⟨.ret, []⟩])
    (htrap : ∀ fuel, B.optimise D localVars argCount fuel code ≠ .error .trap) :
    (∃ code', (∀ fuel, code.length < fuel →
        B.optimise D localVars argCount fuel code = .ok code') ∧
      code'.length ≤ code.length ∧ code'.getLast? = some ⟨.ret, []⟩) ∧
    ∀ c, Reached B D localVars argCount code c →
      c.getLast? = some ⟨.ret, []⟩ ∧
      (∀ c' changed, B.optimiseVars localVars argCount c = (c', changed) → Pass c c' changed) ∧
      (∀ c' changed, B.arithmeticPass D c = .ok (c', changed) → Pass c c' changed) ∧
      (∀ fuel hasOptimised, c.length < fuel →
        B.optimiseArithmetic D fuel c hasOptimised ≠ .error .fuel) ∧
      (∀ c₁ changed₁ fuel c₂ changed₂, B.optimiseVars localVars argCount c = (c₁, changed₁) →
        c₁.length < fuel → B.optimiseArithmetic D fuel c₁ changed₁ = .ok (c₂, changed₂) →
        c₂.length ≤ c.length ∧ (changed₂ = true → c₂.length + 2 ≤ c.length)) := by
  have hret : code.getLast? = some ⟨.ret, []⟩ := by simp [hcode]
  have hends : EndsInRet code := ⟨_, hret, rfl⟩
  constructor
  · obtain ⟨result, hresult, hstop⟩ := optimise_ends (B := B) (D := D) localVars argCount hends
    rcases hstop with rfl | ⟨code', rfl, hle, hlast⟩
    · exact absurd (hresult _ (Nat.lt_succ_self _)) (htrap _)
    · exact ⟨code', hresult, hle, hlast.trans hret⟩
  · intro c hc
    have hlast : c.getLast? = some ⟨.ret, []⟩ := (hc.getLast? hends).trans hret
    have hcends : EndsInRet c := ⟨_, hlast, rfl⟩
    have hvars : ∀ c' changed, B.optimiseVars localVars argCount c = (c', changed) →
        Pass c c' changed := by
      intro c' changed h
      have hpass := optimiseVars_pass (B := B) localVars argCount hcends
      rwa [h] at hpass
    refine ⟨hlast, hvars, fun c' changed h => arithmeticPass_pass hcends h, ?_, ?_⟩
    · intro fuel hasOptimised hfuel h
      rcases optimiseArithmetic_ends (B := B) (D := D) hasOptimised hcends hfuel with
        htrap | ⟨c', changed, hok, -⟩
      · cases h.symm.trans htrap
      · cases h.symm.trans hok
    · intro c₁ changed₁ fuel c₂ changed₂ h₁ hfuel h₂
      rcases optimiseRound_ends (D := D) hcends h₁ hfuel with
        htrap | ⟨c', changed, hok, hle, -, htwo⟩
      · cases h₂.symm.trans htrap
      · obtain ⟨rfl, rfl⟩ := Prod.mk.inj (Except.ok.inj (h₂.symm.trans hok))
        exact ⟨hle, htwo⟩

/-- `unused = 2;` in front of the end. -/
def unusedCode : List Instruction :=
  [⟨.pushI, [2]⟩, ⟨.storeVar, [1]⟩, ⟨.pushI, [0]⟩, ⟨.ret, []⟩]

def nothingBeyond : Beyond := ⟨fun _ => none, fun _ => none⟩

theorem unusedCode_optimise {fuel : ℕ} :
    nothingBeyond.optimise exceptionEnv.double 2 0 (fuel + 2) unusedCode =
      .ok [⟨.pushI, [0]⟩, ⟨.ret, []⟩] := rfl

theorem unusedCode_terminates :
    ∃ code', nothingBeyond.optimise exceptionEnv.double 2 0 5 unusedCode = .ok code' ∧
      code'.getLast? = some ⟨.ret, []⟩ := by
  have htrap : ∀ fuel, nothingBeyond.optimise exceptionEnv.double 2 0 fuel unusedCode ≠
      .error .trap := by
    intro fuel h
    match fuel with
    | 0 => cases h
    | 1 =>
      have hone : nothingBeyond.optimise exceptionEnv.double 2 0 1 unusedCode = .error .fuel := rfl
      cases h.symm.trans hone
    | fuel + 2 => cases h.symm.trans unusedCode_optimise
  have hcode : unusedCode =
      [⟨.pushI, [2]⟩, ⟨.storeVar, [1]⟩] ++ [⟨.pushI, [0]⟩, ⟨.ret, []⟩] := rfl
  obtain ⟨⟨code', hresult, -, hlast⟩, -⟩ := optimise_terminates hcode htrap
  exact ⟨code', hresult 5 (by decide), hlast⟩

end Beyond

end B0rk
