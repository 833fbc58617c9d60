import B0rk.Assembler.Link
import B0rk.Core.Compile
import B0rk.Core.Proofs.Assigned
import B0rk.Executor.Proofs.Rounds
import B0rk.Lib.CodeAt

set_option autoImplicit false

/-! # Running the code of the integer core

The code of an expression pushes its value and brings the slots up to date; the code of statements
arrives behind them, or returns, as the statements do. -/

namespace B0rk

variable {W : Type} {E : Env W} {exec : Execute W}

/-- A state of an activation, up to its stack, its variables and where it stands. -/
def coreState (ctx : Context W) (frame : Frame) (pc : ℕ) (flags : Flags) (vars stack : List Value) :
    Context W × Frame :=
  ({ ctx with stack := stack }, { frame with pc := pc, flags := flags, localVars := vars })

/-- A slot holds an integer. -/
def Holds (vars : List Value) (k : ℕ) (w : Word) : Prop := vars[k]? = some (Value.integer w)

/-- An activation that runs a list of instructions and has nothing to do with exceptions. -/
structure CoreFrame (E : Env W) (exec : Execute W) (insts : List Instruction) (ctx : Context W)
    (frame : Frame) : Prop where
  code : ∃ localVars, frame.code = Code.ofInstructions localVars insts
  running : frame.running = true
  exception : ctx.exception = false

variable {insts : List Instruction} {ctx : Context W} {frame : Frame}

/-- A round of an instruction that succeeds. -/
theorem CoreFrame.round (h : CoreFrame E exec insts ctx frame) {pc : ℕ} {flags : Flags}
    {vars stack : List Value} {inst : Instruction} (hget : insts[pc]? = some inst)
    (hstack : stack.length < 1024) {ctx' : Context W} {frame' : Frame}
    (hop : opcodeTable E exec inst.op inst.args (coreState ctx frame pc flags vars stack).1
      (coreState ctx frame (pc + 1) flags vars stack).2 = some (true, ctx', frame'))
    (hexc : ctx'.exception = false) :
    Rounds E exec 1 (coreState ctx frame pc flags vars stack) (ctx', frame') := by
  obtain ⟨localVars, hcode⟩ := h.code
  refine .single ⟨?_, ?_, ?_⟩
  · have hlt : pc < insts.length := (List.getElem?_eq_some_iff.mp hget).1
    have hsize : frame.code.size = insts.length := by rw [hcode]; rfl
    show (frame.running && decide (pc < frame.code.size)) = true
    rw [h.running, hsize, Bool.true_and]
    exact decide_eq_true hlt
  · exact decide_eq_true hstack
  · have hfetch : frame.code.fetch pc = some (inst, pc + 1) := by
      rw [hcode]
      show insts[pc]?.map _ = _
      rw [hget]
      rfl
    show (frame.code.fetch pc).bind _ = _
    rw [hfetch]
    show (opcodeTable E exec inst.op inst.args (coreState ctx frame pc flags vars stack).1
      (coreState ctx frame (pc + 1) flags vars stack).2).bind _ = _
    rw [hop]
    show afterOpcode true ctx' frame' = _
    unfold afterOpcode
    rw [hexc]
    rfl

section

variable (h : CoreFrame E exec insts ctx frame) {pc : ℕ} (flags : Flags) (vars stack : List Value)

include h

theorem CoreFrame.pushI {i : Word} (hget : insts[pc]? = some ⟨.pushI, [i]⟩)
    (hstack : stack.length < 1024) :
    Rounds E exec 1 (coreState ctx frame pc flags vars stack)
      (coreState ctx frame (pc + 1) flags vars (Value.integer i :: stack)) :=
  h.round hget (by exact hstack) rfl h.exception

theorem CoreFrame.loadVar {k : ℕ} (hget : insts[pc]? = some ⟨.loadVar, [BitVec.ofNat 64 k]⟩)
    (hk : k < 2 ^ 64) (hstack : stack.length < 1024) {v : Value} (hv : vars[k]? = some v) :
    Rounds E exec 1 (coreState ctx frame pc flags vars stack)
      (coreState ctx frame (pc + 1) flags vars (v :: stack)) := by
  refine h.round hget (by exact hstack) ?_ h.exception
  have hnat : (BitVec.ofNat 64 k).toNat = k := Nat.mod_eq_of_lt hk
  show (vars[(BitVec.ofNat 64 k).toNat]?).bind _ = _
  rw [hnat, hv]
  rfl

theorem CoreFrame.storeVar {k : ℕ} (hget : insts[pc]? = some ⟨.storeVar, [BitVec.ofNat 64 k]⟩)
    (hk : k < 2 ^ 64) {v : Value} (hstack : stack.length + 1 < 1024) (hlt : k < vars.length) :
    Rounds E exec 1 (coreState ctx frame pc flags vars (v :: stack))
      (coreState ctx frame (pc + 1) flags (vars.set k v) stack) := by
  refine h.round hget (by exact hstack) ?_ h.exception
  have hnat : (BitVec.ofNat 64 k).toNat = k := Nat.mod_eq_of_lt hk
  show (if (BitVec.ofNat 64 k).toNat < vars.length then _ else none : Option Frame).bind _ = _
  rw [hnat, if_pos hlt]
  rfl

theorem CoreFrame.dup {v : Value} (hget : insts[pc]? = some ⟨.dup, []⟩)
    (hstack : stack.length + 1 < 1024) :
    Rounds E exec 1 (coreState ctx frame pc flags vars (v :: stack))
      (coreState ctx frame (pc + 1) flags vars (v :: v :: stack)) :=
  h.round hget (by exact hstack) rfl h.exception

theorem CoreFrame.swap {v w : Value} (hget : insts[pc]? = some ⟨.swap, []⟩)
    (hstack : stack.length + 2 < 1024) :
    Rounds E exec 1 (coreState ctx frame pc flags vars (v :: w :: stack))
      (coreState ctx frame (pc + 1) flags vars (w :: v :: stack)) :=
  h.round hget (by exact hstack) rfl h.exception

theorem CoreFrame.incVar {k : ℕ} {amount i : Word}
    (hget : insts[pc]? = some ⟨.incVar, [BitVec.ofNat 64 k, amount]⟩) (hk : k < 2 ^ 64)
    (hstack : stack.length < 1024) (hv : vars[k]? = some (Value.integer i)) :
    Rounds E exec 1 (coreState ctx frame pc flags vars stack)
      (coreState ctx frame (pc + 1) flags (vars.set k (Value.integer (i + amount))) stack) := by
  refine h.round hget (by exact hstack) ?_ h.exception
  have hnat : (BitVec.ofNat 64 k).toNat = k := Nat.mod_eq_of_lt hk
  show (vars[(BitVec.ofNat 64 k).toNat]?).bind (fun v =>
    (if (BitVec.ofNat 64 k).toNat < vars.length then _ else none : Option Frame).bind _) = _
  rw [hnat, hv]
  simp only [Option.bind_some]
  rw [if_pos (List.getElem?_eq_some_iff.mp hv).1]
  rfl

/-- An operator that pushes an integer right away. -/
theorem CoreFrame.arith (typed : Bool) (op : CoreOp) {l r : Word}
    (hop : op = .add ∨ op = .sub ∨ op = .multiply ∨ op = .logicalAnd)
    (hget : CodeAt insts pc (op.code typed)) (hstack : stack.length + 2 < 1024) :
    Rounds E exec 1 (coreState ctx frame pc flags vars (Value.integer l :: Value.integer r :: stack))
      (coreState ctx frame (pc + 1) flags vars (Value.integer (op.eval l r) :: stack)) := by
  rcases hop with rfl | rfl | rfl | rfl <;> cases typed <;>
    exact h.round hget.head (by exact hstack) rfl h.exception

theorem CoreFrame.notOp {typed : Bool} {r : Word}
    (hget : insts[pc]? = some ⟨if typed then .notI else .not, []⟩)
    (hstack : stack.length + 1 < 1024) :
    Rounds E exec 1 (coreState ctx frame pc flags vars (Value.integer r :: stack))
      (coreState ctx frame (pc + 1) flags vars
        (Value.integer (ofBool (decide (r = 0))) :: stack)) := by
  cases typed <;> exact h.round hget (by exact hstack) rfl h.exception

theorem CoreFrame.cmp (typed : Bool) {l r : Word} (hget : insts[pc]? = some (cmpCode typed))
    (hstack : stack.length + 2 < 1024) :
    Rounds E exec 1 (coreState ctx frame pc flags vars (Value.integer l :: Value.integer r :: stack))
      (coreState ctx frame (pc + 1) (cmpInteger l r) vars stack) := by
  cases typed <;> exact h.round hget (by exact hstack) rfl h.exception

theorem CoreFrame.pushCond (cond : Flags → Bool) {op : OpCode}
    (hop : opcodeTable E exec op = pushCondition cond) (hget : insts[pc]? = some ⟨op, []⟩)
    (hstack : stack.length < 1024) :
    Rounds E exec 1 (coreState ctx frame pc flags vars stack)
      (coreState ctx frame (pc + 1) flags vars
        (Value.integer (ofBool (cond flags)) :: stack)) := by
  refine h.round hget hstack ?_ h.exception
  rw [hop]
  rfl

theorem CoreFrame.branch (cond : Flags → Bool) {op : OpCode} {target : ℕ}
    (hop : opcodeTable E exec op = B0rk.branch cond)
    (hget : insts[pc]? = some ⟨op, [BitVec.ofNat 64 target]⟩) (htarget : target < 2 ^ 64)
    (hstack : stack.length < 1024) :
    Rounds E exec 1 (coreState ctx frame pc flags vars stack)
      (coreState ctx frame (if cond flags then target else pc + 1) flags vars stack) := by
  refine h.round hget hstack ?_ h.exception
  have hnat : (BitVec.ofNat 64 target).toNat = target := Nat.mod_eq_of_lt htarget
  rw [hop]
  show some (true, _, if cond flags then _ else _) = _
  rw [hnat]
  split <;> rfl

end

/-! ## Conditions -/

theorem word_eq_zero (d : Word) : d = 0 ↔ d.toInt = 0 := by
  refine ⟨?_, fun h => BitVec.eq_of_toInt_eq h⟩
  rintro rfl
  rfl

/-- The flags of a comparison, by the sign of the difference. -/
theorem cmpInteger_flags (l r : Word) :
    (cmpInteger l r).zero = decide (r - l = 0) ∧
      ((cmpInteger l r).sign != (cmpInteger l r).overflow) = (0#64).slt (r - l) ∧
      ((cmpInteger l r).sign == (cmpInteger l r).overflow) = (r - l).sle 0 := by
  have hzero : (0 : Word).toInt = 0 := rfl
  have hzero' : (0#64).toInt = 0 := rfl
  unfold cmpInteger Flags.ofResult
  dsimp only
  generalize r - l = d
  refine ⟨rfl, ?_, ?_⟩
  · simp only [BitVec.slt, word_eq_zero, hzero, hzero']
    grind
  · simp only [BitVec.slt, BitVec.sle, word_eq_zero, hzero]
    grind

/-- What the comparing operators make of the flags. -/
def CoreOp.cond : CoreOp → Flags → Bool
  | equals, f => f.zero
  | notEqual, f => !f.zero
  | lessThan, f => f.sign != f.overflow
  | lessThanEqual, f => f.zero || f.sign != f.overflow
  | greaterThan, f => !f.zero && f.sign == f.overflow
  | greaterThanEqual, f => f.sign == f.overflow
  | _, _ => false

theorem CoreOp.eval_cond {op : CoreOp}
    (hop : ¬(op = .add ∨ op = .sub ∨ op = .multiply ∨ op = .logicalAnd)) (l r : Word) :
    op.eval l r = ofBool (op.cond (cmpInteger l r)) := by
  obtain ⟨hz, hl, hg⟩ := cmpInteger_flags l r
  have hzero : (0 : Word).toInt = 0 := rfl
  have hzero' : (0#64).toInt = 0 := rfl
  cases op with
  | equals => rw [CoreOp.cond, hz, CoreOp.eval]
  | notEqual =>
    rw [CoreOp.cond, hz, CoreOp.eval]
    simp only [ne_eq, decide_not]
  | lessThan => rw [CoreOp.cond, hl, CoreOp.eval]
  | lessThanEqual =>
    rw [CoreOp.cond, hz, hl, CoreOp.eval]
    congr 1
    simp only [BitVec.slt, BitVec.sle, word_eq_zero, hzero']
    grind
  | greaterThan =>
    rw [CoreOp.cond, hz, hg, CoreOp.eval]
    congr 1
    simp only [BitVec.slt, BitVec.sle, word_eq_zero, hzero]
    grind
  | greaterThanEqual => rw [CoreOp.cond, hg, CoreOp.eval]
  | _ => exact absurd (by decide) hop

section

variable (h : CoreFrame E exec insts ctx frame) {pc : ℕ} (flags : Flags) (vars stack : List Value)

include h

/-- An operator takes its operands off the stack and pushes its value. -/
theorem CoreFrame.oper {typed : Bool} {op : CoreOp} {l r : Word}
    (hget : CodeAt insts pc (op.code typed)) (hstack : stack.length + 2 < 1024) :
    ∃ n flags', Rounds E exec n
      (coreState ctx frame pc flags vars (Value.integer l :: Value.integer r :: stack))
      (coreState ctx frame (pc + (op.code typed).length) flags' vars
        (Value.integer (op.eval l r) :: stack)) := by
  by_cases hop : op = .add ∨ op = .sub ∨ op = .multiply ∨ op = .logicalAnd
  · have hlen : (op.code typed).length = 1 := by
      rcases hop with rfl | rfl | rfl | rfl <;> rfl
    rw [hlen]
    exact ⟨1, flags, h.arith flags vars stack typed op hop hget hstack⟩
  · rw [CoreOp.eval_cond hop]
    refine ⟨2, cmpInteger l r, ?_⟩
    have hstack' : stack.length < 1024 := by omega
    have hcmp {push : OpCode} (cond : Flags → Bool) (hcode : op.code typed = [cmpCode typed, ⟨push, []⟩])
        (hpush : opcodeTable E exec push = pushCondition cond) :
        Rounds E exec 2
          (coreState ctx frame pc flags vars (Value.integer l :: Value.integer r :: stack))
          (coreState ctx frame (pc + (op.code typed).length) (cmpInteger l r) vars
            (Value.integer (ofBool (cond (cmpInteger l r))) :: stack)) := by
      rw [hcode] at hget ⊢
      exact (h.cmp flags vars stack typed hget.head hstack).trans
        (h.pushCond _ vars stack cond hpush hget.tail.head hstack')
    cases op with
    | equals => exact hcmp _ rfl rfl
    | notEqual => exact hcmp (fun f => !f.zero) rfl rfl
    | lessThan => exact hcmp (fun f => f.sign != f.overflow) rfl rfl
    | lessThanEqual => exact hcmp (fun f => f.zero || f.sign != f.overflow) rfl rfl
    | greaterThan => exact hcmp (fun f => !f.zero && f.sign == f.overflow) rfl rfl
    | greaterThanEqual => exact hcmp (fun f => f.sign == f.overflow) rfl rfl
    | _ => exact absurd (by decide) hop

end

/-! ## Expressions -/

/-- The slots of an activation hold the variables. -/
structure CoreVars (names : List (List String)) (vars : List Value) (env : Scopes Word) : Prop where
  scopes : env.names = names
  agree : Scopes.Agree (Holds vars) env
  slots : Scopes.start names ≤ vars.length
  words : vars.length < 2 ^ 64

variable {names : List (List String)} {vars : List Value} {env env' : Scopes Word}

theorem CoreVars.get (h : CoreVars names vars env) {name : String} {w : Word}
    (hw : env.get name = some w) :
    ∃ k, slotArg names name = BitVec.ofNat 64 k ∧ k < 2 ^ 64 ∧
      vars[k]? = some (Value.integer w) := by
  obtain ⟨k, hk, hholds⟩ := Scopes.get_slot h.agree hw
  rw [h.scopes] at hk
  have hlt := (Scopes.slot_lt hk).2
  have hslots := h.slots
  have hwords := h.words
  exact ⟨k, by rw [slotArg, hk]; rfl, by omega, hholds⟩

theorem CoreVars.set (h : CoreVars names vars env) {name : String} {w : Word}
    (hw : env.set name w = some env') :
    ∃ k, slotArg names name = BitVec.ofNat 64 k ∧ k < 2 ^ 64 ∧ k < vars.length ∧
      CoreVars names (vars.set k (Value.integer w)) env' := by
  obtain ⟨hnames, k, hk, hset⟩ := Scopes.set_slot hw
  rw [h.scopes] at hk hnames
  have hlt := (Scopes.slot_lt hk).2
  have hslots := h.slots
  have hwords := h.words
  have hlen : k < vars.length := by omega
  refine ⟨k, by rw [slotArg, hk]; rfl, by omega, hlen, hnames, ?_, ?_, ?_⟩
  · refine hset (Holds vars) _ h.agree (List.getElem?_set_self hlen) ?_
    intro j b hj hb
    exact (List.getElem?_set_ne (Ne.symm hj)).trans hb
  · rwa [List.length_set]
  · rwa [List.length_set]

theorem CoreExpr.depth_pos (e : CoreExpr) : 0 < e.depth := by
  induction e with
  | oper typed op left right ihl ihr => exact Nat.lt_of_lt_of_le ihr (Nat.le_max_left _ _)
  | not typed right ih => exact ih
  | _ => exact Nat.succ_pos _

/-- **The code of an expression pushes its value.** -/
theorem CoreExpr.rounds (h : CoreFrame E exec insts ctx frame) {e : CoreExpr} {w : Word} {pc : ℕ}
    (flags : Flags) (stack : List Value) (hcode : CodeAt insts pc (e.code names))
    (hvars : CoreVars names vars env) (he : e.eval env = some (w, env'))
    (hdepth : stack.length + e.depth < 1024) :
    ∃ n flags' vars', Rounds E exec n (coreState ctx frame pc flags vars stack)
        (coreState ctx frame (pc + (e.code names).length) flags' vars'
          (Value.integer w :: stack)) ∧
      CoreVars names vars' env' ∧ vars'.length = vars.length := by
  induction e generalizing pc flags vars env env' w stack with
  | integer type i =>
    cases he
    exact ⟨1, flags, vars, h.pushI flags vars stack hcode.head (by omega), hvars, rfl⟩
  | var type name =>
    obtain ⟨v, hv, he⟩ := Option.bind_eq_some_iff.mp he
    cases he
    obtain ⟨k, harg, hk, hget⟩ := hvars.get hv
    rw [CoreExpr.code, harg] at hcode
    exact ⟨1, flags, vars, h.loadVar flags vars stack hcode.head hk (by omega) hget, hvars, rfl⟩
  | oper typed op left right ihl ihr =>
    obtain ⟨⟨r, env₁⟩, hr, he⟩ := Option.bind_eq_some_iff.mp he
    obtain ⟨⟨l, env₂⟩, hl, he⟩ := Option.bind_eq_some_iff.mp he
    cases he
    rw [CoreExpr.depth] at hdepth
    rw [CoreExpr.code] at hcode
    have hpos := left.depth_pos
    obtain ⟨n₁, flags₁, vars₁, hrun₁, hvars₁, hlen₁⟩ :=
      ihr flags stack hcode.left.left hvars hr (by omega)
    have hleft : (Value.integer r :: stack).length + left.depth < 1024 := by
      rw [List.length_cons]
      omega
    obtain ⟨n₂, flags₂, vars₂, hrun₂, hvars₂, hlen₂⟩ :=
      ihl flags₁ _ hcode.left.right hvars₁ hl hleft
    have hcode' := hcode.right
    rw [List.length_append, ← Nat.add_assoc] at hcode'
    obtain ⟨n₃, flags₃, hrun₃⟩ :=
      h.oper (l := l) (r := r) flags₂ vars₂ stack hcode' (by omega)
    refine ⟨n₁ + n₂ + n₃, flags₃, vars₂, ?_, hvars₂, hlen₂.trans hlen₁⟩
    rw [CoreExpr.code, List.length_append, List.length_append, ← Nat.add_assoc, ← Nat.add_assoc]
    exact (hrun₁.trans hrun₂).trans hrun₃
  | not typed right ih =>
    obtain ⟨⟨r, env₁⟩, hr, he⟩ := Option.bind_eq_some_iff.mp he
    cases he
    rw [CoreExpr.depth] at hdepth
    rw [CoreExpr.code] at hcode
    have hpos := right.depth_pos
    obtain ⟨n₁, flags₁, vars₁, hrun₁, hvars₁, hlen₁⟩ := ih flags stack hcode.left hvars hr hdepth
    refine ⟨n₁ + 1, flags₁, vars₁, ?_, hvars₁, hlen₁⟩
    rw [CoreExpr.code, List.length_append, ← Nat.add_assoc]
    exact hrun₁.trans (h.notOp flags₁ vars₁ stack hcode.right.head (by omega))
  | increment type decrement varType name =>
    obtain ⟨v, hv, he⟩ := Option.bind_eq_some_iff.mp he
    obtain ⟨env₁, henv₁, he⟩ := Option.bind_eq_some_iff.mp he
    cases he
    rw [CoreExpr.depth] at hdepth
    obtain ⟨k, harg, hk, hget⟩ := hvars.get hv
    obtain ⟨k', harg', hk', hlt, hvars'⟩ := hvars.set henv₁
    have hload : insts[pc]? = some ⟨.loadVar, [BitVec.ofNat 64 k]⟩ := harg ▸ hcode.left.left.head
    have hloaded := h.loadVar flags vars stack hload hk (by omega) hget
    have hduped := h.dup flags vars stack (v := Value.integer w) hcode.left.left.tail.head (by omega)
    have hpushed := h.pushI flags vars (Value.integer w :: Value.integer w :: stack)
      hcode.left.left.tail.tail.head (by simp only [List.length_cons]; omega)
    have hlen₂ : (Value.integer w :: stack).length + 2 < 1024 := by
      rw [List.length_cons]
      omega
    have hlen : (Value.integer w :: stack).length + 1 < 1024 := Nat.lt_of_succ_lt hlen₂
    have hrun := (hloaded.trans hduped).trans hpushed
    have hstore : ∀ pc', insts[pc']? = some ⟨.storeVar, [slotArg names name]⟩ →
        Rounds E exec 1
          (coreState ctx frame pc' flags vars
            (Value.integer (incremented decrement w) :: Value.integer w :: stack))
          (coreState ctx frame (pc' + 1) flags
            (vars.set k' (Value.integer (incremented decrement w))) (Value.integer w :: stack)) := by
      intro pc' hget'
      rw [harg'] at hget'
      exact h.storeVar flags vars (Value.integer w :: stack) hget' hk' hlen hlt
    cases decrement with
    | false =>
      have hadd := h.arith (l := 1) (r := w) flags vars (Value.integer w :: stack) true .add
        (.inl rfl) hcode.left.right hlen₂
      rw [show CoreOp.add.eval 1 w = incremented false w from BitVec.add_comm _ _] at hadd
      exact ⟨3 + 1 + 1, flags, _, (hrun.trans hadd).trans (hstore _ hcode.right.head), hvars',
        List.length_set ..⟩
    | true =>
      have hswap := h.swap flags vars (Value.integer w :: stack) (v := Value.integer 1)
        (w := Value.integer w) hcode.left.right.head hlen₂
      have hsub := h.arith (l := w) (r := 1) flags vars (Value.integer w :: stack) true .sub
        (.inr (.inl rfl)) hcode.left.right.tail hlen₂
      exact ⟨3 + 1 + 1 + 1, flags, _,
        ((hrun.trans hswap).trans hsub).trans (hstore _ hcode.right.head), hvars',
        List.length_set ..⟩

end B0rk
