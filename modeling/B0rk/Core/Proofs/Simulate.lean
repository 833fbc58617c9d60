import B0rk.Core.Proofs.Run

set_option autoImplicit false

/-! # Statements of the integer core

`CoreOutcome.Runs` says how the code of statements ends, for each way in which the statements end. A
loop takes at least one round of the executor each time, so that statements which do not end within
some fuel keep the executor busy for as many rounds. -/

namespace B0rk

variable {W : Type} {E : Env W} {exec : Execute W} {insts : List Instruction} {ctx : Context W}
variable {frame : Frame} {names : List (List String)} {vars : List Value} {env env' : Scopes Word}

/-! ## Tests -/

theorem ofBool_eq_zero (b : Bool) : decide (ofBool b = 0) = !b := by
  cases b <;> rfl

/-- A collapsed branch is taken when the comparison has the value 0. -/
theorem CoreOp.fused_cond (E : Env W) (exec : Execute W) {op : CoreOp} {opcode : OpCode} (h : op.fused = some opcode) :
    ∃ cond : Flags → Bool, opcodeTable E exec opcode = branch cond ∧
      ∀ l r, cond (cmpInteger l r) = decide (op.eval l r = 0) := by
  have heval (hop : ¬(op = .add ∨ op = .sub ∨ op = .multiply ∨ op = .logicalAnd)) (l r : Word) :
      decide (op.eval l r = 0) = !op.cond (cmpInteger l r) := by
    rw [CoreOp.eval_cond hop, ofBool_eq_zero]
  cases op with
  | equals =>
    cases h
    exact ⟨fun f => !f.zero, rfl, fun l r => (heval (by decide) l r).symm⟩
  | lessThan =>
    cases h
    refine ⟨fun f => f.sign == f.overflow, rfl, fun l r => ?_⟩
    rw [heval (by decide), CoreOp.cond]
    exact (Bool.not_not _).symm
  | lessThanEqual =>
    cases h
    refine ⟨fun f => !f.zero && f.sign == f.overflow, rfl, fun l r => ?_⟩
    rw [heval (by decide), CoreOp.cond, Bool.not_or]
    exact congrArg (!(cmpInteger l r).zero && ·) (Bool.not_not _).symm
  | _ => cases h

/-- The branch of a test, behind the comparison. -/
theorem CoreFrame.jumpIfZero (h : CoreFrame E exec insts ctx frame) {pc : ℕ} {flags : Flags}
    (vars : List Value) {stack : List Value} {w : Word} {target : ℕ} {opcode : OpCode} (cond : Flags → Bool)
    (hop : opcodeTable E exec opcode = B0rk.branch cond)
    (hget : insts[pc]? = some ⟨opcode, [BitVec.ofNat 64 target]⟩) (htarget : target < 2 ^ 64)
    (hstack : stack.length < 1024) (hcond : cond flags = decide (w = 0)) :
    Rounds E exec 1 (coreState ctx frame pc flags vars stack)
      (coreState ctx frame (if w = 0 then target else pc + 1) flags vars stack) := by
  have hrun := h.branch flags vars stack cond hop hget htarget hstack
  rw [hcond] at hrun
  simpa only [decide_eq_true_eq] using hrun

/-- A test whose value is compared with 0. -/
theorem CoreFrame.compareZero (h : CoreFrame E exec insts ctx frame) {pc target : ℕ} {w : Word}
    (vars : List Value) (flags : Flags) (stack : List Value)
    (hcode : CodeAt insts pc [⟨.pushI, [0]⟩, ⟨.cmpI, []⟩, ⟨.bEq, [BitVec.ofNat 64 target]⟩])
    (htarget : target < 2 ^ 64) (hstack : stack.length + 2 < 1024) :
    ∃ flags', Rounds E exec 3 (coreState ctx frame pc flags vars (Value.integer w :: stack))
      (coreState ctx frame (if w = 0 then target else pc + 3) flags' vars stack) := by
  have hlen : (Value.integer w :: stack).length < 1024 := by
    rw [List.length_cons]
    omega
  have hpush := h.pushI flags vars (Value.integer w :: stack) hcode.head hlen
  have hcmp := h.cmp (l := 0) (r := w) flags vars stack true hcode.tail.head hstack
  have hcond : (cmpInteger 0 w).zero = decide (w = 0) := by
    rw [(cmpInteger_flags 0 w).1, show w - 0 = w from BitVec.sub_zero w]
  have hjump := h.jumpIfZero vars (fun f => f.zero) rfl hcode.tail.tail.head htarget
    (by omega : stack.length < 1024) hcond
  exact ⟨_, (hpush.trans hcmp).trans hjump⟩

/-- **A test goes on behind its code if the value is not 0, and to its target otherwise.** -/
theorem CoreExpr.test_rounds (h : CoreFrame E exec insts ctx frame) {e : CoreExpr} {w : Word}
    {pc target : ℕ} (flags : Flags) (stack : List Value)
    (hcode : CodeAt insts pc (e.testCode names target)) (htarget : target < 2 ^ 64)
    (hvars : CoreVars names vars env) (he : e.eval env = some (w, env'))
    (hdepth : stack.length + max e.depth 2 < 1024) :
    ∃ n flags' vars', Rounds E exec (n + 1) (coreState ctx frame pc flags vars stack)
        (coreState ctx frame (if w = 0 then target else pc + e.testLength names) flags' vars'
          stack) ∧
      CoreVars names vars' env' ∧ vars'.length = vars.length := by
  -- a test that is not collapsed
  have hplain (htest : e.test names = (e.code names ++ [⟨.pushI, [0]⟩, ⟨.cmpI, []⟩], .bEq)) :
      ∃ n flags' vars', Rounds E exec (n + 1) (coreState ctx frame pc flags vars stack)
        (coreState ctx frame (if w = 0 then target else pc + e.testLength names) flags' vars'
          stack) ∧
      CoreVars names vars' env' ∧ vars'.length = vars.length := by
    rw [CoreExpr.testCode, htest, List.append_assoc] at hcode
    obtain ⟨n, flags₁, vars₁, hrun, hvars₁, hlen₁⟩ :=
      CoreExpr.rounds h flags stack hcode.left hvars he (by omega)
    obtain ⟨flags₂, hrun₂⟩ :=
      h.compareZero (w := w) vars₁ flags₁ stack hcode.right htarget (by omega)
    refine ⟨n + 2, flags₂, vars₁, ?_, hvars₁, hlen₁⟩
    rw [CoreExpr.testLength, htest, List.length_append, Nat.add_assoc, ← Nat.add_assoc pc]
    exact hrun.trans hrun₂
  cases e with
  | oper typed op left right =>
    cases hfused : op.fused with
    | none =>
      refine hplain ?_
      rw [CoreExpr.test, hfused]
    | some opcode =>
      obtain ⟨⟨r, env₁⟩, hr, he⟩ := Option.bind_eq_some_iff.mp he
      obtain ⟨⟨l, env₂⟩, hl, he⟩ := Option.bind_eq_some_iff.mp he
      cases he
      have htest : (CoreExpr.oper typed op left right).test names =
          (right.code names ++ left.code names ++ [cmpCode typed], opcode) := by
        rw [CoreExpr.test, hfused]
      rw [CoreExpr.testCode, htest, List.append_assoc, List.append_assoc] at hcode
      rw [CoreExpr.depth] at hdepth
      obtain ⟨n₁, flags₁, vars₁, hrun₁, hvars₁, hlen₁⟩ :=
        right.rounds h flags stack hcode.left hvars hr (by omega)
      have hleft : (Value.integer r :: stack).length + left.depth < 1024 := by
        rw [List.length_cons]
        omega
      obtain ⟨n₂, flags₂, vars₂, hrun₂, hvars₂, hlen₂⟩ :=
        left.rounds h flags₁ _ hcode.right.left hvars₁ hl hleft
      have htail := hcode.right.right
      have hcmp := h.cmp (l := l) (r := r) flags₂ vars₂ stack typed htail.head (by omega)
      obtain ⟨cond, hop, hcond⟩ := CoreOp.fused_cond E exec hfused
      have hjump := h.jumpIfZero vars₂ cond hop htail.tail.head htarget
        (by omega : stack.length < 1024) (hcond l r)
      refine ⟨n₁ + n₂ + 1, cmpInteger l r, vars₂, ?_, hvars₂, hlen₂.trans hlen₁⟩
      have hlength : pc + (CoreExpr.oper typed op left right).testLength names =
          pc + (right.code names).length + (left.code names).length + 1 + 1 := by
        rw [CoreExpr.testLength, htest]
        simp only [List.length_append, List.length_singleton]
        omega
      rw [hlength]
      exact ((hrun₁.trans hrun₂).trans hcmp).trans hjump
  | _ => exact hplain rfl

/-! ## Assignments -/

theorem CoreSimple.rounds (h : CoreFrame E exec insts ctx frame) {s : CoreSimple} {pc : ℕ}
    (flags : Flags) (stack : List Value) (hcode : CodeAt insts pc (s.code names))
    (hvars : CoreVars names vars env) (hs : s.exec env = some env')
    (hdepth : stack.length + s.depth < 1024) :
    ∃ n flags' vars', Rounds E exec n (coreState ctx frame pc flags vars stack)
        (coreState ctx frame (pc + (s.code names).length) flags' vars' stack) ∧
      CoreVars names vars' env' ∧ vars'.length = vars.length := by
  cases s with
  | set type varType name value =>
    obtain ⟨⟨v, env₁⟩, hv, hset⟩ := Option.bind_eq_some_iff.mp hs
    have hpos := value.depth_pos
    obtain ⟨n, flags₁, vars₁, hrun, hvars₁, hlen₁⟩ :=
      value.rounds h flags stack hcode.left hvars hv hdepth
    obtain ⟨k, harg, hk, hlt, hvars₂⟩ := hvars₁.set hset
    have hget := hcode.right.head
    rw [harg] at hget
    rw [CoreSimple.depth] at hdepth
    refine ⟨n + 1, flags₁, _, ?_, hvars₂, (List.length_set ..).trans hlen₁⟩
    rw [CoreSimple.code, List.length_append, ← Nat.add_assoc]
    exact hrun.trans (h.storeVar flags₁ vars₁ stack hget hk (by omega) hlt)
  | increment type decrement varType name =>
    obtain ⟨v, hv, hset⟩ := Option.bind_eq_some_iff.mp hs
    obtain ⟨k, harg, hk, hget⟩ := hvars.get hv
    obtain ⟨k', harg', hk', -, hvars'⟩ := hvars.set hset
    have hkk' : k' = k := by
      have hword := congrArg BitVec.toNat (harg'.symm.trans harg)
      simpa only [BitVec.toNat_ofNat, Nat.mod_eq_of_lt hk, Nat.mod_eq_of_lt hk'] using hword
    subst hkk'
    have hinst := hcode.head
    rw [harg] at hinst
    have hamount : v + (if decrement then -1 else 1) = incremented decrement v := by
      cases decrement
      · rfl
      · exact (BitVec.sub_eq_add_neg v 1).symm
    refine ⟨1, flags, _, ?_, hvars', List.length_set ..⟩
    rw [← hamount]
    exact h.incVar flags vars stack hinst hk (by omega) hget

theorem CoreSimple.rounds_option (h : CoreFrame E exec insts ctx frame) {s : Option CoreSimple}
    {pc : ℕ} (flags : Flags) (stack : List Value) (hcode : CodeAt insts pc (codeOption names s))
    (hvars : CoreVars names vars env) (hs : execOption s env = some env')
    (hdepth : stack.length + depthOption s < 1024) :
    ∃ n flags' vars', Rounds E exec n (coreState ctx frame pc flags vars stack)
        (coreState ctx frame (pc + (codeOption names s).length) flags' vars' stack) ∧
      CoreVars names vars' env' ∧ vars'.length = vars.length := by
  cases s with
  | none =>
    cases hs
    exact ⟨0, flags, vars, .refl _, hvars, rfl⟩
  | some s => exact s.rounds h flags stack hcode hvars hs hdepth

/-! ## Blocks -/

/-- The variables of all blocks have a slot below `N`. -/
def CoreCode.Fits (N : ℕ) : CoreCode → List (List String) → Prop
  | done, _ => True
  | simple _ rest, names | ret _ rest, names => rest.Fits N names
  | ifThen _ vars body rest, names | loop _ _ _ vars body rest, names =>
      Scopes.start (vars :: names) ≤ N ∧ body.Fits N (vars :: names) ∧ rest.Fits N names
  | ifElse _ vars body vars' body' rest, names =>
      (Scopes.start (vars :: names) ≤ N ∧ body.Fits N (vars :: names)) ∧
        (Scopes.start (vars' :: names) ≤ N ∧ body'.Fits N (vars' :: names)) ∧ rest.Fits N names

theorem CoreVars.enter (h : CoreVars names vars env) {locals : List String}
    (hfits : Scopes.start (locals :: names) ≤ vars.length) :
    CoreVars (locals :: names) vars (env.enter locals) :=
  ⟨by rw [Scopes.names_enter, h.scopes], Scopes.agree_enter h.agree, hfits, h.words⟩

theorem CoreVars.tail {locals : List String} (h : CoreVars (locals :: names) vars env) :
    CoreVars names vars env.tail := by
  have hslots := h.slots
  rw [Scopes.start] at hslots
  refine ⟨?_, ?_, by omega, h.words⟩
  · rw [Scopes.names_tail, h.scopes]
    rfl
  · cases env with
    | nil => trivial
    | cons frame outer => exact h.agree.2

/-- How an activation in state `s` ends the code that stops at `stop`, when the statements end with
    an outcome. `rest` is the stack below the frame marker. -/
def CoreOutcome.Runs (E : Env W) (exec : Execute W) (ctx : Context W) (frame : Frame)
    (names : List (List String)) (N : ℕ) (rest : List Value) (fuel stop : ℕ)
    (s : Context W × Frame) : CoreOutcome → Prop
  | normal env => ∃ n flags vars,
      Rounds E exec n s (coreState ctx frame stop flags vars (frame.marker :: rest)) ∧
        CoreVars names vars env ∧ vars.length = N
  | returned v => ∃ n frame', frame'.running = false ∧
      Rounds E exec n s ({ ctx with stack := Value.integer v :: rest }, frame')
  | stuck => True
  | timeout => ∃ n t, fuel ≤ n ∧ Rounds E exec n s t

section

variable {N fuel stop n : ℕ} {rest : List Value} {s t : Context W × Frame} {o : CoreOutcome}

/-- Rounds before the code. -/
theorem CoreOutcome.Runs.after (hrun : Rounds E exec n s t)
    (h : o.Runs E exec ctx frame names N rest fuel stop t) :
    o.Runs E exec ctx frame names N rest (fuel + n) stop s := by
  cases o with
  | normal env =>
    obtain ⟨m, flags, vars, hrun', hvars⟩ := h
    exact ⟨n + m, flags, vars, hrun.trans hrun', hvars⟩
  | returned v =>
    obtain ⟨m, frame', hend, hrun'⟩ := h
    exact ⟨n + m, frame', hend, hrun.trans hrun'⟩
  | stuck => trivial
  | timeout =>
    obtain ⟨m, u, hm, hrun'⟩ := h
    exact ⟨n + m, u, by omega, hrun.trans hrun'⟩

theorem CoreOutcome.Runs.mono {fuel' : ℕ} (hle : fuel' ≤ fuel)
    (h : o.Runs E exec ctx frame names N rest fuel stop s) :
    o.Runs E exec ctx frame names N rest fuel' stop s := by
  cases o with
  | timeout =>
    obtain ⟨n, t, hn, hrun⟩ := h
    exact ⟨n, t, Nat.le_trans hle hn, hrun⟩
  | _ => exact h

/-- Going on behind code. -/
theorem CoreOutcome.Runs.followed {stop' : ℕ} (h : o.Runs E exec ctx frame names N rest fuel stop s)
    {next : Scopes Word → CoreOutcome}
    (hnext : ∀ env flags vars, CoreVars names vars env → vars.length = N →
      (next env).Runs E exec ctx frame names N rest fuel stop'
        (coreState ctx frame stop flags vars (frame.marker :: rest))) :
    (match o with | .normal env => next env | o => o).Runs E exec ctx frame names N rest fuel stop'
      s := by
  cases o with
  | normal env =>
    obtain ⟨n, flags, vars, hrun, hvars, hlen⟩ := h
    exact ((hnext env flags vars hvars hlen).after hrun).mono (Nat.le_add_right _ _)
  | _ => exact h

/-- Going on behind a block. -/
theorem CoreOutcome.Runs.andThen {stop' : ℕ} {locals : List String}
    (h : o.Runs E exec ctx frame (locals :: names) N rest fuel stop s)
    {next : Scopes Word → CoreOutcome}
    (hnext : ∀ env flags vars, CoreVars names vars env → vars.length = N →
      (next env).Runs E exec ctx frame names N rest fuel stop'
        (coreState ctx frame stop flags vars (frame.marker :: rest))) :
    (o.andThen next).Runs E exec ctx frame names N rest fuel stop' s := by
  cases o with
  | normal env =>
    obtain ⟨n, flags, vars, hrun, hvars, hlen⟩ := h
    exact ((hnext env.tail flags vars hvars.tail hlen).after hrun).mono (Nat.le_add_right _ _)
  | _ => exact h

end

/-! ## Loops and statements -/

/-- Code between two places, for a function of the variables. -/
def Segment (E : Env W) (exec : Execute W) (ctx : Context W) (frame : Frame)
    (names : List (List String)) (N : ℕ) (stack : List Value) (start stop : ℕ)
    (f : Scopes Word → Option (Scopes Word)) : Prop :=
  ∀ env env' flags vars, CoreVars names vars env → vars.length = N → f env = some env' →
    ∃ n flags' vars', Rounds E exec n (coreState ctx frame start flags vars stack)
        (coreState ctx frame stop flags' vars' stack) ∧
      CoreVars names vars' env' ∧ vars'.length = N

/-- A test between two places, for a function of the variables. -/
def TestSegment (E : Env W) (exec : Execute W) (ctx : Context W) (frame : Frame)
    (names : List (List String)) (N : ℕ) (stack : List Value) (start next target : ℕ)
    (f : Scopes Word → Option (Word × Scopes Word)) : Prop :=
  ∀ env w env' flags vars, CoreVars names vars env → vars.length = N → f env = some (w, env') →
    ∃ n flags' vars', Rounds E exec (n + 1) (coreState ctx frame start flags vars stack)
        (coreState ctx frame (if w = 0 then target else next) flags' vars' stack) ∧
      CoreVars names vars' env' ∧ vars'.length = N

section

variable {N fuel : ℕ} {rest : List Value}

/-- The rounds of a loop, by induction on their number. -/
theorem coreLoop_runs {test : Scopes Word → Option (Word × Scopes Word)}
    {body : Scopes Word → CoreOutcome} {inc : Scopes Word → Option (Scopes Word)}
    {top bodyBase incBase stop : ℕ} {locals : List String}
    (htest : TestSegment E exec ctx frame names N (frame.marker :: rest) top bodyBase stop test)
    (hbody : ∀ env flags vars, CoreVars names vars env → vars.length = N →
      (body env).Runs E exec ctx frame (locals :: names) N rest fuel incBase
        (coreState ctx frame bodyBase flags vars (frame.marker :: rest)))
    (hinc : Segment E exec ctx frame names N (frame.marker :: rest) incBase top inc) {k : ℕ}
    (hk : k ≤ fuel) (flags : Flags) (hvars : CoreVars names vars env) (hlen : vars.length = N) :
    (coreLoop test body inc k env).Runs E exec ctx frame names N rest k stop
      (coreState ctx frame top flags vars (frame.marker :: rest)) := by
  induction k generalizing env vars flags with
  | zero => exact ⟨0, _, Nat.le_refl _, .refl _⟩
  | succ k ih =>
    rw [coreLoop]
    cases hv : test env with
    | none => trivial
    | some r =>
      obtain ⟨v, env₁⟩ := r
      obtain ⟨n, flags₁, vars₁, hrun, hvars₁, hlen₁⟩ := htest env v env₁ flags vars hvars hlen hv
      dsimp only
      by_cases hzero : v = 0
      · rw [if_pos hzero] at hrun ⊢
        exact ⟨n + 1, flags₁, vars₁, hrun, hvars₁, hlen₁⟩
      · rw [if_neg hzero] at hrun ⊢
        have hround := (hbody env₁ flags₁ vars₁ hvars₁ hlen₁).mono (Nat.le_of_succ_le hk)
        refine ((hround.andThen ?_).after hrun).mono (Nat.add_le_add_left (Nat.le_add_left 1 n) k)
        intro env₂ flags₂ vars₂ hvars₂ hlen₂
        cases henv : inc env₂ with
        | none => trivial
        | some env₃ =>
          obtain ⟨m, flags₃, vars₃, hrun₃, hvars₃, hlen₃⟩ :=
            hinc env₂ env₃ flags₂ vars₂ hvars₂ hlen₂ henv
          exact ((ih (Nat.le_of_succ_le hk) flags₃ hvars₃ hlen₃).after hrun₃).mono
            (Nat.le_add_right _ _)

theorem CoreExpr.testSegment (h : CoreFrame E exec insts ctx frame) {e : CoreExpr} {pc target : ℕ}
    {stack : List Value} (hcode : CodeAt insts pc (e.testCode names target))
    (htarget : target < 2 ^ 64) (hdepth : stack.length + max e.depth 2 < 1024) :
    TestSegment E exec ctx frame names N stack pc (pc + e.testLength names) target e.eval := by
  rintro env w env' flags vars hvars rfl he
  exact CoreExpr.test_rounds h flags stack hcode htarget hvars he hdepth

/-- The way back of a loop. -/
theorem CoreSimple.backSegment (h : CoreFrame E exec insts ctx frame) {s : Option CoreSimple}
    {pc top : ℕ} {stack : List Value} (hcode : CodeAt insts pc (codeOption names s))
    (hjmp : insts[pc + (codeOption names s).length]? = some ⟨.jmp, [BitVec.ofNat 64 top]⟩)
    (htop : top < 2 ^ 64) (hdepth : stack.length + depthOption s < 1024) :
    Segment E exec ctx frame names N stack pc top (execOption s) := by
  rintro env env' flags vars hvars rfl hs
  obtain ⟨n, flags', vars', hrun, hvars', hlen'⟩ :=
    CoreSimple.rounds_option h flags stack hcode hvars hs hdepth
  have hjump := h.branch flags' vars' stack (fun _ => true) rfl hjmp htop (by omega)
  exact ⟨n + 1, flags', vars', hrun.trans hjump, hvars', hlen'⟩

/-- A block behind a test. -/
theorem TestSegment.followed {pc next target stop : ℕ} {e : Scopes Word → Option (Word × Scopes Word)}
    (htest : TestSegment E exec ctx frame names N (frame.marker :: rest) pc next target e)
    {onZero onOther : Scopes Word → CoreOutcome}
    (hzero : ∀ env flags vars, CoreVars names vars env → vars.length = N →
      (onZero env).Runs E exec ctx frame names N rest fuel stop
        (coreState ctx frame target flags vars (frame.marker :: rest)))
    (hother : ∀ env flags vars, CoreVars names vars env → vars.length = N →
      (onOther env).Runs E exec ctx frame names N rest fuel stop
        (coreState ctx frame next flags vars (frame.marker :: rest)))
    (flags : Flags) (hvars : CoreVars names vars env) (hlen : vars.length = N) :
    CoreOutcome.Runs E exec ctx frame names N rest fuel stop
      (coreState ctx frame pc flags vars (frame.marker :: rest))
      (match e env with
      | none => .stuck
      | some (v, env) => if v = 0 then onZero env else onOther env) := by
  cases hv : e env with
  | none => trivial
  | some r =>
    obtain ⟨v, env₁⟩ := r
    obtain ⟨n, flags₁, vars₁, hrun, hvars₁, hlen₁⟩ := htest env v env₁ flags vars hvars hlen hv
    dsimp only
    by_cases hv0 : v = 0
    · rw [if_pos hv0] at hrun ⊢
      exact ((hzero env₁ flags₁ vars₁ hvars₁ hlen₁).after hrun).mono (Nat.le_add_right _ _)
    · rw [if_neg hv0] at hrun ⊢
      exact ((hother env₁ flags₁ vars₁ hvars₁ hlen₁).after hrun).mono (Nat.le_add_right _ _)

/-- `RETURN` behind the code of a value. -/
theorem CoreFrame.returned (h : CoreFrame E exec insts ctx frame) {pc : ℕ} {flags : Flags} {w : Word}
    (hget : insts[pc]? = some ⟨.ret, []⟩) (hstack : (frame.marker :: rest).length + 1 < 1024) :
    ∃ frame', frame'.running = false ∧ Rounds E exec 1
      (coreState ctx frame pc flags vars (Value.integer w :: frame.marker :: rest))
      ({ ctx with stack := Value.integer w :: rest }, frame') := by
  refine ⟨{ frame with pc := pc + 1, flags := flags, localVars := vars, running := false }, rfl,
    h.round hget (by exact hstack) ?_ h.exception⟩
  show (if frame.marker.type ≠ .frame ∨ frame.marker.bits ≠ frame.addr then _ else _) = _
  exact if_neg (by simp [Frame.marker])

/-- **The code of statements ends as the statements do.** -/
theorem CoreCode.rounds (h : CoreFrame E exec insts ctx frame) (hsize : insts.length < 2 ^ 64)
    {c : CoreCode} {pc : ℕ} (flags : Flags) (hcode : CodeAt insts pc (c.code names pc))
    (hvars : CoreVars names vars env) (hlen : vars.length = N) (hfits : c.Fits N names)
    (hdepth : (frame.marker :: rest).length + c.depth < 1024) :
    (c.exec fuel env).Runs E exec ctx frame names N rest fuel (pc + (c.code names pc).length)
      (coreState ctx frame pc flags vars (frame.marker :: rest)) := by
  induction c generalizing names env vars pc flags with
  | done => exact ⟨0, flags, vars, .refl _, hvars, hlen⟩
  | simple statement rest' ih =>
    rw [CoreCode.depth] at hdepth
    rw [CoreCode.exec]
    cases hs : statement.exec env with
    | none => trivial
    | some env₁ =>
      obtain ⟨n, flags₁, vars₁, hrun, hvars₁, hlen₁⟩ :=
        statement.rounds h flags (frame.marker :: rest) hcode.left hvars hs (by omega)
      have hrest := ih flags₁ hcode.right hvars₁ (hlen₁.trans hlen) hfits (by omega)
      rw [CoreCode.code, List.length_append, ← Nat.add_assoc]
      exact (hrest.after hrun).mono (Nat.le_add_right _ _)
  | ifThen test locals body rest' ihb ih =>
    obtain ⟨hslots, hbfits, hfits⟩ := hfits
    rw [CoreCode.depth] at hdepth
    simp only [CoreCode.code] at hcode ⊢
    have htest := hcode.left.left
    have hbody := hcode.left.right
    have hrest := hcode.right
    have htarget := hcode.left.le_length (by simp [CoreExpr.testCode])
    simp only [List.length_append, test.testCode_length, ← Nat.add_assoc] at hbody hrest htarget ⊢
    have hnext : ∀ env flags vars, CoreVars names vars env → vars.length = N →
        (rest'.exec fuel env).Runs E exec ctx frame names N rest fuel _
          (coreState ctx frame _ flags vars (frame.marker :: rest)) :=
      fun env flags vars hvars hlen => ih flags hrest hvars hlen hfits (by omega)
    refine (CoreExpr.testSegment h htest (by omega) (by omega)).followed hnext ?_ flags hvars hlen
    intro env₁ flags₁ vars₁ hvars₁ hlen₁
    have hin := ihb flags₁ hbody (hvars₁.enter (hlen₁ ▸ hslots)) hlen₁ hbfits (by omega)
    exact hin.andThen hnext
  | ifElse test locals body locals' body' rest' ihb ihb' ih =>
    obtain ⟨⟨hslots, hbfits⟩, ⟨hslots', hbfits'⟩, hfits⟩ := hfits
    rw [CoreCode.depth] at hdepth
    simp only [CoreCode.code] at hcode ⊢
    have htest := hcode.left.left.left.left
    have hbody := hcode.left.left.left.right
    have hjmp := hcode.left.left.right.head
    have hbody' := hcode.left.right
    have hrest := hcode.right
    have htarget := hcode.left.le_length (by simp [CoreExpr.testCode])
    simp only [List.length_append, List.length_singleton, test.testCode_length, ← Nat.add_assoc]
      at hbody hjmp hbody' hrest htarget ⊢
    have hnext : ∀ env flags vars, CoreVars names vars env → vars.length = N →
        (rest'.exec fuel env).Runs E exec ctx frame names N rest fuel _
          (coreState ctx frame _ flags vars (frame.marker :: rest)) :=
      fun env flags vars hvars hlen => ih flags hrest hvars hlen hfits (by omega)
    refine (CoreExpr.testSegment h htest (by omega) (by omega)).followed ?_ ?_ flags hvars hlen
    · intro env₁ flags₁ vars₁ hvars₁ hlen₁
      have hin := ihb' flags₁ hbody' (hvars₁.enter (hlen₁ ▸ hslots')) hlen₁ hbfits' (by omega)
      exact hin.andThen hnext
    · intro env₁ flags₁ vars₁ hvars₁ hlen₁
      have hin := ihb flags₁ hbody (hvars₁.enter (hlen₁ ▸ hslots)) hlen₁ hbfits (by omega)
      refine hin.andThen fun env₂ flags₂ vars₂ hvars₂ hlen₂ => ?_
      -- over the other block
      have hjump := h.branch flags₂ vars₂ (frame.marker :: rest) (fun _ => true) rfl hjmp
        (by omega) (by omega)
      exact ((hnext env₂ flags₂ vars₂ hvars₂ hlen₂).after hjump).mono (Nat.le_add_right _ _)
  | loop init test inc locals body rest' ihb ih =>
    obtain ⟨hslots, hbfits, hfits⟩ := hfits
    rw [CoreCode.depth] at hdepth
    simp only [CoreCode.code] at hcode ⊢
    have hinit := hcode.left.left.left.left.left
    have htest := hcode.left.left.left.left.right
    have hbody := hcode.left.left.left.right
    have hinc := hcode.left.left.right
    have hjmp := hcode.left.right.head
    have hrest := hcode.right
    have htarget := hcode.left.le_length (by simp [CoreExpr.testCode])
    simp only [List.length_append, List.length_singleton, test.testCode_length, ← Nat.add_assoc]
      at htest hbody hinc hjmp hrest htarget ⊢
    rw [CoreCode.exec]
    cases henv : CoreSimple.execOption init env with
    | none => trivial
    | some env₁ =>
      obtain ⟨n, flags₁, vars₁, hrun, hvars₁, hlen₁⟩ :=
        CoreSimple.rounds_option h flags (frame.marker :: rest) hinit hvars henv (by omega)
      have hback : Segment E exec ctx frame names N (frame.marker :: rest) _ _ _ :=
        CoreSimple.backSegment h hinc hjmp (by omega) (by omega)
      have hloop := coreLoop_runs (CoreExpr.testSegment h htest (by omega) (by omega))
        (fun env flags vars hvars hlen =>
          ihb flags hbody (hvars.enter (hlen ▸ hslots)) hlen hbfits (by omega))
        hback (Nat.le_refl fuel) flags₁ hvars₁ (hlen₁.trans hlen)
      have hall := hloop.followed fun env₂ flags₂ vars₂ hvars₂ hlen₂ =>
        ih flags₂ hrest hvars₂ hlen₂ hfits (by omega)
      exact (hall.after hrun).mono (Nat.le_add_right _ _)
  | ret value rest' ih =>
    cases value with
    | none =>
      rw [CoreCode.depth] at hdepth
      have hpush := h.pushI flags vars (frame.marker :: rest) hcode.left.head (by omega)
      have hlen₂ : (frame.marker :: rest).length + 1 < 1024 := by omega
      obtain ⟨frame', hend, hret⟩ := h.returned hcode.left.tail.head hlen₂
      exact ⟨2, frame', hend, hpush.trans hret⟩
    | some value =>
      rw [CoreCode.depth] at hdepth
      rw [CoreCode.exec]
      cases hv : value.eval env with
      | none => trivial
      | some r =>
        obtain ⟨v, env₁⟩ := r
        obtain ⟨n, flags₁, vars₁, hrun, -, -⟩ :=
          value.rounds h flags (frame.marker :: rest) hcode.left.left hvars hv (by omega)
        have hpos := value.depth_pos
        have hlen₂ : (frame.marker :: rest).length + 1 < 1024 := by omega
        obtain ⟨frame', hend, hret⟩ := h.returned hcode.left.right.head hlen₂
        exact ⟨n + 1, frame', hend, hrun.trans hret⟩

end

end B0rk
