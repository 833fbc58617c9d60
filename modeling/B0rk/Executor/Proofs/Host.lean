import B0rk.Executor.Host
import B0rk.Executor.Proofs.Invariant
import B0rk.Executor.Proofs.Unwind

set_option autoImplicit false

/-! # Calls after an uncaught exception

`Function::execute` reports an uncaught exception and leaves it pending. Whatever the host calls next
starts with it: a function that does not catch it fails, and does as it would without the exception
if it fails then too; one that begins with a `try` starts with its handler. -/

namespace B0rk

variable {W : Type} {E : Env W}

/-- Two calls have the same success flag and the same result. -/
def SameResult (x y : Option (Bool × Context W × Value)) : Prop :=
  x.map (fun r => (r.1, r.2.2)) = y.map (fun r => (r.1, r.2.2))

/-- Whatever is called next does as it would if no exception were pending. -/
def Context.Survives (E : Env W) (ctx : Context W) : Prop :=
  ∀ (fuel : ℕ) (function : Function W) (obj : Word) (argv : List Value) (result : Value),
    SameResult (function.executeArgs E fuel obj argv result ctx)
      (function.executeArgs E fuel obj argv result ctx.clearException)

/-- A call of the function leaves a pending exception pending. -/
def Function.LeavesPending (E : Env W) (function : Function W) : Prop :=
  ∀ (fuel : ℕ) (obj : Word) (argCount : ℕ) (ctx : Context W), ctx.exception = true →
    Ensures (function.execute E fuel obj argCount ctx) (fun r => r.2.exception = true)

theorem pushArgs_exception (ctx : Context W) (argv : List Value) :
    (ctx.pushArgs argv).exception = ctx.exception := by
  induction argv generalizing ctx with
  | nil => rfl
  | cons v argv ih => exact ih (ctx.push v)

theorem not_sameResult {x y : Option (Bool × Context W × Value)}
    (hx : Ensures x (fun r => r.1 = false)) {ctx : Context W} {v : Value}
    (hy : y = some (true, ctx, v)) : ¬ SameResult x y := by
  intro hsame
  rw [SameResult, hy] at hsame
  obtain ⟨r, hr, hfields⟩ := Option.map_eq_some_iff.mp hsame
  have htrue : r.1 = true := congrArg Prod.fst hfields
  rw [hx r hr] at htrue
  cases htrue

/-! ## Functions that leave an exception pending -/

/-- `Array::load` and `Array::store` throw exceptions, and clear none. -/
structure Env.ArraysThrow (E : Env W) : Prop where
  load : ∀ ctx array index, ctx.exception = true →
    Ensures (E.arrayLoad ctx array index) (fun r => r.2.1.exception = true)
  store : ∀ ctx array index v, ctx.exception = true →
    Ensures (E.arrayStore ctx array index v) (fun r => r.2.exception = true)

/-- The function has nothing at its beginning that could take a pending exception away: a script does
    not begin with a handler, and a native function does not clear the flag. -/
def Function.Passes : Function W → Prop
  | .script none => True
  | .script (some code) => ∀ inst next, code.fetch 0 = some (inst, next) →
      inst.op ≠ .pushTry ∧ inst.op ≠ .popTry
  | .native run => ∀ obj n args ctx, ctx.exception = true →
      Ensures (run obj n args ctx) (fun r => r.2.1.exception = true)

theorem Context.pop_exception {ctx ctx' : Context W} {v : Value} (h : ctx.pop = some (v, ctx')) :
    ctx'.exception = ctx.exception := by
  rw [(Context.pop_some h).2]

theorem pendingInvariant (hE : E.ArraysThrow) :
    ContextInvariant E (fun _ => True) (fun _ ctx => ctx.exception = true) where
  le _ h := h
  pop h hpop := ⟨trivial, (Context.pop_exception hpop).trans h⟩
  drop h hpop := (Context.pop_exception hpop).trans h
  push h _ := h
  tag _ _ := trivial
  bits _ _ := trivial
  getValue _ _ := trivial
  setValue h _ _ := h
  getStaticField _ _ := trivial
  setStaticField h _ _ := h
  allocateObject h _ := h
  arrayLoad h _ hload := ⟨hE.load _ _ _ h _ hload, trivial⟩
  arrayStore h _ _ hstore := hE.store _ _ _ _ h _ hstore
  throwException _ := rfl

/-- An exception that nobody catches ends the activation and stays pending. -/
theorem afterOpcode_pending {success : Bool} {ctx : Context W} {frame : Frame}
    (hexc : ctx.exception = true) (hnone : frame.handlerStack = []) :
    Ensures (afterOpcode success ctx frame)
      (fun r => r.2.1.exception = true ∧ r.2.2.running = false) := by
  have hnone' : (if success then frame else { frame with running := false }).handlerStack = [] := by
    split <;> exact hnone
  unfold afterOpcode handleException
  rw [if_pos hexc, hnone']
  refine .bind (P := fun r => r.1.exception = true ∧ r.2.running = false) ?_ fun r hr => .some hr
  exact .bind_any fun _ => .some ⟨hexc, rfl⟩

/-- With an exception pending, an activation ends with its first instruction, unless that one
    installs a handler or calls a function that takes the exception away. -/
theorem step_pending (hE : E.ArraysThrow) {exec : Execute W} {ctx : Context W} {frame : Frame}
    (hexc : ctx.exception = true) (hnone : frame.handlerStack = [])
    (hfirst : ∀ inst next, frame.code.fetch frame.pc = some (inst, next) →
      inst.op ≠ .pushTry ∧ inst.op ≠ .popTry)
    (hexec : ∀ inst next, frame.code.fetch frame.pc = some (inst, next) →
      inst.op.calls = true → ExecKeeps exec (fun _ ctx => ctx.exception = true)) :
    Ensures (step E exec ctx frame) (fun r => r.2.1.exception = true ∧ r.2.2.running = false) := by
  refine .bind_eq fun p hp => ?_
  obtain ⟨hpush, hpop⟩ := hfirst p.1 p.2 hp
  have hkeeps : Ensures (opcodeTable E exec p.1.op p.1.args ctx { frame with pc := p.2 })
      (Keeps (fun _ => True) (fun _ ctx => ctx.exception = true) p.1.op { frame with pc := p.2 }) :=
    opcodeTable_keeps (pendingInvariant hE) (hexec p.1 p.2 hp) (fun _ _ => trivial) hexc
  refine .bind hkeeps fun r hr => ?_
  exact afterOpcode_pending hr.1 ((hr.2.handlerStack hpush hpop).trans hnone)

theorem runLoop_pending (hE : E.ArraysThrow) {exec : Execute W} {fuel : ℕ} {success : Bool}
    {ctx : Context W} {frame : Frame} (hexc : ctx.exception = true)
    (hnone : frame.handlerStack = [])
    (hfirst : ∀ inst next, frame.code.fetch frame.pc = some (inst, next) →
      inst.op ≠ .pushTry ∧ inst.op ≠ .popTry)
    (hexec : ∀ inst next, frame.code.fetch frame.pc = some (inst, next) →
      inst.op.calls = true → ExecKeeps exec (fun _ ctx => ctx.exception = true)) :
    Ensures (runLoop E exec fuel success ctx frame) (fun r => r.2.exception = true) := by
  by_cases hcont : frame.continues
  · by_cases hstack : ctx.checkStack
    · cases fuel with
      | zero =>
        rw [runLoop_zero hcont hstack]
        exact .none
      | succ fuel =>
        rw [runLoop_succ hcont hstack]
        refine .bind (step_pending hE hexc hnone hfirst hexec) fun r hr => ?_
        -- the next round finds that the activation has ended
        rw [runLoop_end (by simp [Frame.continues, hr.2])]
        exact .some hr.1
    · rw [runLoop_overflow hcont (by simpa using hstack)]
      exact .some hexc
  · rw [runLoop_end (by simpa using hcont)]
    exact .some hexc

/-- A call of a script that does not begin with a handler. -/
theorem run_pending (hE : E.ArraysThrow) {exec : Execute W} {fuel argCount : ℕ} {obj : Word}
    {code : Code} {ctx : Context W} (hexc : ctx.exception = true)
    (hfirst : (Function.script (W := W) (some code)).Passes)
    (hexec : ∀ inst next, code.fetch 0 = some (inst, next) →
      inst.op.calls = true → ExecKeeps exec (fun _ ctx => ctx.exception = true)) :
    Ensures (run E exec fuel obj code argCount ctx) (fun r => r.2.exception = true) := by
  unfold run
  cases henter : enter E obj code argCount ctx with
  | none => exact .none
  | some p =>
    obtain ⟨-, hctx, -, hpc, hcode, hnone, -⟩ := enter_some henter
    refine runLoop_pending hE (by rw [hctx]; exact hexc) hnone ?_ ?_
    · rw [hcode, hpc]
      exact hfirst
    · rw [hcode, hpc]
      exact hexec

theorem nativeExecute_pending
    {run : Word → ℕ → List Value → Context W → Option (Bool × Context W × Value)}
    (hrun : (Function.native run).Passes) {argCount : ℕ} {obj : Word} {ctx : Context W}
    (hexc : ctx.exception = true) :
    Ensures (nativeExecute run obj argCount ctx) (fun r => r.2.exception = true) := by
  refine .bind_eq fun p hp => ?_
  have hexc₁ : p.2.exception = true := by
    rw [(Context.popArgs_some hp).2]
    exact hexc
  refine .bind (hrun _ _ _ _ hexc₁) fun r hr => .ite (fun _ => .some hr) fun _ => ?_
  exact .ite (fun _ => .some hr) fun _ => .some hr

/-- No call takes a pending exception away if none of the functions has a handler at its
    beginning. -/
theorem execute_pending (hE : E.ArraysThrow)
    (hall : ∀ address function, E.function address = some function → function.Passes) (fuel : ℕ) :
    ExecKeeps (execute E fuel) (fun _ ctx => ctx.exception = true) := by
  induction fuel with
  | zero => exact fun _ _ _ _ _ => .none
  | succ fuel ih =>
    intro address obj argCount ctx hexc
    cases hfunction : E.function address with
    | none =>
      rw [execute, hfunction]
      exact .none
    | some function =>
      rw [execute_function hfunction]
      have hpasses := hall address function hfunction
      cases function with
      | native run => exact nativeExecute_pending hpasses hexc
      | script code =>
        cases code with
        | none => exact .some hexc
        | some code => exact run_pending hE hexc hpasses fun _ _ _ _ => ih

/-- What leaves an exception pending: a function that has nothing at its beginning to take it away,
    if it does not begin with a call, or calls cannot take it away either. -/
theorem leavesPending_of_passes (hE : E.ArraysThrow) {function : Function W}
    (hpasses : function.Passes)
    (hcalls : ∀ code, function = .script (some code) → ∀ inst next,
      code.fetch 0 = some (inst, next) → inst.op.calls = true →
      ∀ address callee, E.function address = some callee → callee.Passes) :
    function.LeavesPending E := by
  intro fuel obj argCount ctx hexc
  cases function with
  | native run => exact nativeExecute_pending hpasses hexc
  | script code =>
    cases code with
    | none => exact .some hexc
    | some code =>
      exact run_pending hE hexc hpasses fun inst next hfetch hop =>
        execute_pending hE (hcalls code rfl inst next hfetch hop) fuel

/-! ## The next call -/

/-- A native function that returns nothing. -/
def noop : Function W := .native (fun _ _ _ ctx => some (true, ctx, ⟨.void, 0⟩))

/-- A call reports failure, or leaves an exception that nobody has caught. -/
def Function.Fails (E : Env W) (fuel : ℕ) (function : Function W) (obj : Word) (argv : List Value)
    (ctx : Context W) : Prop :=
  ∃ res ctx', function.execute E fuel obj argv.length (ctx.pushArgs argv) = some (res, ctx') ∧
    (res = false ∨ ctx'.exception = true)

/-- What the host gets when an activation goes on from a state. -/
def resumeArgs (E : Env W) (depth fuel : ℕ) (result : Value) (ctx : Context W) (frame : Frame) :
    Option (Bool × Context W × Value) := do
  let (res, ctx) ← runLoop E (execute E depth) fuel true ctx frame
  if !res then some (false, ctx, result)
  else if ctx.exception then some (false, ctx, result)
  else
    let (v, ctx) ← ctx.pop
    some (true, ctx, v)

section

variable {f : Function W} {fuel : ℕ} {obj : Word} {argv : List Value} {result : Value}
  {ctx : Context W}

/-- The call fails: it comes back with `false`, and `result` as it was. -/
theorem Function.fails_iff :
    f.Fails E fuel obj argv ctx ↔
      (f.executeArgs E fuel obj argv result ctx).map (fun r => (r.1, r.2.2)) =
        some (false, result) := by
  unfold Function.Fails Function.executeArgs
  cases f.execute E fuel obj argv.length (ctx.pushArgs argv) with
  | none => simp
  | some r =>
    obtain ⟨res, ctx'⟩ := r
    cases res with
    | false => simp
    | true =>
      cases hexc : ctx'.exception with
      | true => simp [hexc]
      | false => cases hpop : ctx'.pop <;> simp [hexc, hpop]

/-- With an exception that stays pending, a call does as it would without it if it would fail. -/
theorem sameResult_leavesPending (hf : f.LeavesPending E) (hexc : ctx.exception = true)
    (hreturns : (f.executeArgs E fuel obj argv result ctx).isSome = true) :
    SameResult (f.executeArgs E fuel obj argv result ctx)
        (f.executeArgs E fuel obj argv result ctx.clearException) ↔
      f.Fails E fuel obj argv ctx.clearException := by
  have hpending : f.Fails E fuel obj argv ctx := by
    obtain ⟨r, hr⟩ := Option.isSome_iff_exists.mp hreturns
    obtain ⟨⟨res, ctx'⟩, hcall, -⟩ := Option.bind_eq_some_iff.mp hr
    exact ⟨res, ctx', hcall,
      Or.inr (hf fuel obj argv.length _ ((pushArgs_exception ctx argv).trans hexc) _ hcall)⟩
  have hfails : f.Fails E fuel obj argv ctx.clearException ↔
      (f.executeArgs E fuel obj argv result ctx.clearException).map (fun r => (r.1, r.2.2)) =
        some (false, result) := Function.fails_iff
  rw [SameResult, show _ = some (false, result) from Function.fails_iff.mp hpending, hfails]
  exact eq_comm

theorem clearException_pushArgs (ctx : Context W) (argv : List Value) :
    ctx.clearException.pushArgs argv = (ctx.pushArgs argv).clearException := by
  induction argv generalizing ctx with
  | nil => rfl
  | cons v argv ih => exact ih (ctx.push v)

theorem bindArgs_clearException {n : ℕ} {localVars localVars' : List Value} {ctx ctx' : Context W}
    (h : bindArgs n localVars ctx = some (localVars', ctx')) :
    bindArgs n localVars ctx.clearException = some (localVars', ctx'.clearException) := by
  induction n generalizing localVars ctx with
  | zero =>
    obtain ⟨rfl, rfl⟩ := Prod.mk.inj (Option.some.inj h)
    rfl
  | succ n ih =>
    obtain ⟨⟨v, ctx₁⟩, hpop, h⟩ := Option.bind_eq_some_iff.mp h
    have hpop' : ctx.clearException.pop = some (v, ctx₁.clearException) := by
      obtain ⟨hstack, hctx⟩ := Context.pop_some hpop
      have hstack' : ctx.clearException.stack = v :: ctx₁.stack := hstack
      rw [Context.pop_cons hstack', hctx]
      rfl
    rw [bindArgs, hpop', Option.bind_eq_bind, Option.bind_some]
    split_ifs at h ⊢ with hlt
    exact ih h

/-- The flag has no part in how an activation is entered. -/
theorem enter_clearException {code : Code} {n : ℕ} {ctx' : Context W} {frame : Frame}
    (haddr : E.frameAddr ctx.clearException = E.frameAddr ctx)
    (h : enter E obj code n ctx = some (ctx', frame)) :
    enter E obj code n ctx.clearException = some (ctx'.clearException, frame) := by
  simp only [enter] at h ⊢
  split_ifs at h ⊢ with hzero
  obtain ⟨⟨localVars, ctx₁⟩, hbind, h⟩ := Option.bind_eq_some_iff.mp h
  obtain ⟨rfl, rfl⟩ := Prod.mk.inj (Option.some.inj h)
  rw [bindArgs_clearException hbind, haddr]
  rfl

/-- The first round of a call of a script, and the rest of it. -/
theorem executeArgs_round {code : Code} {entered ctx' : Context W} {frame frame' : Frame}
    (henter : enter E obj code argv.length (ctx.pushArgs argv) = some (entered, frame))
    (hcont : frame.continues = true) (hstack : entered.checkStack = true)
    (hstep : step E (execute E (fuel + 1)) entered frame = some (true, ctx', frame')) :
    (Function.script (some code)).executeArgs E (fuel + 1) obj argv result ctx =
      resumeArgs E (fuel + 1) fuel result ctx' frame' := by
  have hrun : (Function.script (some code)).execute E (fuel + 1) obj argv.length
      (ctx.pushArgs argv) = runLoop E (execute E (fuel + 1)) fuel true ctx' frame' := by
    show run E (execute E (fuel + 1)) (fuel + 1) obj code argv.length (ctx.pushArgs argv) = _
    rw [run, henter]
    dsimp only
    rw [runLoop_succ hcont hstack, hstep]
    rfl
  rw [Function.executeArgs, hrun]
  rfl

/-- A script that begins with a `try`: with the exception pending its handler starts, without it the
    block behind the handler. -/
theorem sameResult_try {code : Code} {entered : Context W} {frame : Frame}
    {excepVar handlerPC : Word} {next : ℕ} (hexc : ctx.exception = true)
    (haddr : E.frameAddr (ctx.pushArgs argv).clearException = E.frameAddr (ctx.pushArgs argv))
    (henter : enter E obj code argv.length (ctx.pushArgs argv) = some (entered, frame))
    (hstack : entered.checkStack = true) (hcont : frame.continues = true)
    (hfetch : code.fetch 0 = some (⟨.pushTry, [excepVar, handlerPC]⟩, next))
    (hslot : excepVar.toNat < frame.localVars.length) :
    SameResult ((Function.script (some code)).executeArgs E (fuel + 1) obj argv result ctx)
        ((Function.script (some code)).executeArgs E (fuel + 1) obj argv result
          ctx.clearException) ↔
      SameResult
        (resumeArgs E (fuel + 1) fuel result entered.clearException
          (frame.caught ⟨excepVar.toNat, handlerPC.toNat⟩ [] entered.exceptionValue))
        (resumeArgs E (fuel + 1) fuel result entered.clearException
          { frame with pc := next, handlerStack := [⟨excepVar.toNat, handlerPC.toNat⟩] }) := by
  obtain ⟨-, hctx, -, hpc, hcode, hnone, -⟩ := enter_some henter
  have hexc' : entered.exception = true := by
    rw [hctx]
    exact (pushArgs_exception ctx argv).trans hexc
  have hstack' : entered.clearException.checkStack = true := hstack
  rw [← hpc, ← hcode] at hfetch
  -- the first round in both contexts
  have hpending : step E (execute E (fuel + 1)) entered frame = some (true, entered.clearException,
      frame.caught ⟨excepVar.toNat, handlerPC.toNat⟩ [] entered.exceptionValue) := by
    rw [step, hfetch]
    show afterOpcode true entered { frame with
      pc := next, handlerStack := ⟨excepVar.toNat, handlerPC.toNat⟩ :: frame.handlerStack } = _
    rw [afterOpcode_handled hexc' rfl hslot, hnone]
    rfl
  have hclear : step E (execute E (fuel + 1)) entered.clearException frame =
      some (true, entered.clearException,
        { frame with pc := next, handlerStack := [⟨excepVar.toNat, handlerPC.toNat⟩] }) := by
    rw [step, hfetch, ← hnone]
    rfl
  have henter' := enter_clearException haddr henter
  rw [← clearException_pushArgs] at henter'
  rw [executeArgs_round henter hcont hstack hpending, executeArgs_round henter' hcont hstack' hclear]

end

/-- `PUSHI 5; THROW` -/
def throwFive : Function Unit :=
  .script (some ⟨1, 2, fun pc => [(⟨.pushI, [5]⟩, 1), (⟨.throw, []⟩, 2)][pc]?⟩)

/-- `PUSHI 1; RETURN` -/
def returnOne : Function Unit :=
  .script (some ⟨1, 2, fun pc => [(⟨.pushI, [1]⟩, 1), (⟨.ret, []⟩, 2)][pc]?⟩)

/-- `PUSHTRY 1 3; PUSHI 1; RETURN`, with the handler `PUSHI 1; RETURN` -/
def tryOneCode : Code :=
  ⟨2, 5, fun pc => [(⟨.pushTry, [1, 3]⟩, 1), (⟨.pushI, [1]⟩, 2), (⟨.ret, []⟩, 3),
    (⟨.pushI, [1]⟩, 4), (⟨.ret, []⟩, 5)][pc]?⟩

/-- `tryOneCode` as it is entered. -/
def tryOneFrame : Frame :=
  { addr := 1, code := tryOneCode, running := true, pc := 0, flags := ⟨false, false, false⟩
    localVars := [Value.object 0, Value.zero], handlerStack := [] }

/-- What `throwFive` leaves. -/
def spoiledContext : Context Unit := ⟨[], true, Value.object 4096, ()⟩

theorem exceptionEnv_arraysThrow : exceptionEnv.ArraysThrow where
  load _ _ _ _ := .none
  store _ _ _ _ _ := .none

/-- Both `throwFive` and `returnOne` begin with `PUSHI`. -/
theorem leavesPending_pushI {code : Code} {i : Word} {next : ℕ}
    (hfetch : code.fetch 0 = some (⟨.pushI, [i]⟩, next)) :
    (Function.script (some code)).LeavesPending exceptionEnv := by
  refine leavesPending_of_passes exceptionEnv_arraysThrow (fun inst next' h => ?_)
    fun code' heq inst next' h hcalls => ?_
  · obtain ⟨rfl, -⟩ := Prod.mk.inj (Option.some.inj (hfetch.symm.trans h))
    exact ⟨OpCode.noConfusion, OpCode.noConfusion⟩
  · obtain rfl := Option.some.inj (Function.script.inj heq)
    obtain ⟨rfl, -⟩ := Prod.mk.inj (Option.some.inj (hfetch.symm.trans h))
    cases hcalls

end B0rk
