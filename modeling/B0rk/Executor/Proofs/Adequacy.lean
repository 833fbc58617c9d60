import B0rk.Executor.Proofs.Basic
import B0rk.Executor.Proofs.Construct
import B0rk.Executor.Proofs.Unwind

set_option autoImplicit false

/-! # The machine runs what `Executor::run` runs

A call of `run` that returns is a run of the machine: `runLoop_reaches`. The recursion of the source
calls with less and less fuel, the machine makes its inner calls with one fixed `exec`; that this
makes no difference is `execute_le`: more fuel does not change a result. -/

namespace B0rk

variable {W : Type}

/-! ## Monotonicity -/

/-- `exec'` gives every result that `exec` gives. -/
def ExecLE (exec exec' : Execute W) : Prop :=
  ∀ f obj n ctx r, exec f obj n ctx = some r → exec' f obj n ctx = some r

theorem bind_mono {α β : Type} {x y : Option α} {f g : α → Option β} {r : β}
    (hx : ∀ a, x = some a → y = some a) (hf : ∀ a, f a = some r → g a = some r)
    (h : x.bind f = some r) : y.bind g = some r := by
  obtain ⟨a, ha, hr⟩ := Option.bind_eq_some_iff.1 h
  exact Option.bind_eq_some_iff.2 ⟨a, hx a ha, hf a hr⟩

section
variable {E : Env W} {exec exec' : Execute W}

theorem callOperator_mono (h : ExecLE exec exec') {name : String} {v : Value} {ctx : Context W}
    {r : Bool × Context W} (hr : callOperator E exec name v ctx = some r) :
    callOperator E exec' name v ctx = some r := by
  refine bind_mono (fun _ => id) (fun _ => ?_) hr
  refine bind_mono (fun _ => id) (fun _ => ?_)
  exact bind_mono (fun _ => id) (fun _ => h _ _ _ _ _)

theorem callOwnConstructor_mono (h : ExecLE exec exec') {clazz : ClassChain} {obj : Word} {n : ℕ}
    {ctx : Context W} {r : Bool × Context W}
    (hr : callOwnConstructor exec clazz obj n ctx = some r) :
    callOwnConstructor exec' clazz obj n ctx = some r := by
  unfold callOwnConstructor at hr ⊢
  split at hr
  · exact hr
  · exact bind_mono (h _ _ _ _) (fun _ => id) hr

theorem callConstructor_mono (h : ExecLE exec exec') {clazz : ClassChain} {obj : Word} :
    ∀ {n : ℕ} {ctx : Context W} {r : Bool × Context W},
      callConstructor exec clazz obj n ctx = some r →
      callConstructor exec' clazz obj n ctx = some r := by
  induction clazz with
  | nil => intro n ctx r hr; exact hr
  | cons c superClasses ih =>
      intro n ctx r hr
      rw [callConstructor_cons] at hr ⊢
      refine bind_mono (fun a ha => ?_) (fun a ha => ?_) hr
      · cases superClasses with
        | nil => exact ha
        | cons d superClasses => exact ih ha
      · split at ha
        · next hres => rw [if_pos hres]; exact callOwnConstructor_mono h ha
        · next hres => rw [if_neg hres]; exact ha

theorem newObject_mono (h : ExecLE exec exec') {clazz : Word} {n : ℕ} {ctx : Context W}
    {r : Word × Context W} (hr : newObject E exec clazz n ctx = some r) :
    newObject E exec' clazz n ctx = some r := by
  refine bind_mono (fun _ => id) (fun _ => ?_) hr
  refine bind_mono (fun _ => id) (fun _ => ?_)
  exact bind_mono (fun _ => callConstructor_mono h) (fun _ => id)

theorem createException_mono (h : ExecLE exec exec') {value : Value} {ctx : Context W}
    {r : Word × Context W} (hr : createException E exec value ctx = some r) :
    createException E exec' value ctx = some r :=
  bind_mono (fun _ => newObject_mono h) (fun _ => id) hr

theorem arithmetic_mono (h : ExecLE exec exec') {name : String}
    {intOp : Word → Word → Option Word} {doubleOp : Word → Word → Word} {args : List Word}
    {ctx : Context W} {frame : Frame} {r : Bool × Context W × Frame}
    (hr : arithmetic E exec name intOp doubleOp args ctx frame = some r) :
    arithmetic E exec' name intOp doubleOp args ctx frame = some r := by
  refine bind_mono (fun _ => id) (fun a => ?_) hr
  dsimp only
  split
  · exact bind_mono (fun _ => callOperator_mono h) (fun _ => id)
  · exact id

theorem opcodeCmp_mono (h : ExecLE exec exec') {args : List Word} {ctx : Context W} {frame : Frame}
    {r : Bool × Context W × Frame} (hr : opcodeCmp E exec args ctx frame = some r) :
    opcodeCmp E exec' args ctx frame = some r := by
  refine bind_mono (fun _ => id) (fun a => ?_) hr
  dsimp only
  split
  · exact id
  · split
    · exact bind_mono (fun _ => callOperator_mono h) (fun _ => id)
    · exact id

theorem callFunction_mono (h : ExecLE exec exec') {target : CallTarget W} {args : List Word}
    {ctx : Context W} {frame : Frame} {r : Bool × Context W × Frame}
    (hr : callFunction exec target args ctx frame = some r) :
    callFunction exec' target args ctx frame = some r := by
  refine bind_mono (fun _ => id) (fun a => ?_) hr
  obtain ⟨ctx₁, _ | ⟨f, obj, count⟩⟩ := a
  · exact id
  · exact bind_mono (h _ _ _ _) (fun _ => id)

theorem opcodeNew_mono (h : ExecLE exec exec') {args : List Word} {ctx : Context W} {frame : Frame}
    {r : Bool × Context W × Frame} (hr : opcodeNew E exec args ctx frame = some r) :
    opcodeNew E exec' args ctx frame = some r := by
  refine bind_mono (fun _ => id) (fun _ => ?_) hr
  refine bind_mono (fun _ => id) (fun _ => ?_)
  exact bind_mono (fun _ => newObject_mono h) (fun _ => id)

theorem opcodeNewFunction_mono (h : ExecLE exec exec') {args : List Word} {ctx : Context W}
    {frame : Frame} {r : Bool × Context W × Frame}
    (hr : opcodeNewFunction E exec args ctx frame = some r) :
    opcodeNewFunction E exec' args ctx frame = some r := by
  refine bind_mono (fun _ => id) (fun _ => ?_) hr
  exact bind_mono (fun _ => newObject_mono h) (fun _ => id)

theorem opcodeThrow_mono (h : ExecLE exec exec') {args : List Word} {ctx : Context W}
    {frame : Frame} {r : Bool × Context W × Frame}
    (hr : opcodeThrow E exec args ctx frame = some r) :
    opcodeThrow E exec' args ctx frame = some r := by
  refine bind_mono (fun _ => id) (fun _ => ?_) hr
  exact bind_mono (fun _ => createException_mono h) (fun _ => id)

/-- Only calls, operators and constructions ask `exec`. -/
theorem opcodeTable_mono (h : ExecLE exec exec') {op : OpCode} {args : List Word} {ctx : Context W}
    {frame : Frame} {r : Bool × Context W × Frame}
    (hr : opcodeTable E exec op args ctx frame = some r) :
    opcodeTable E exec' op args ctx frame = some r := by
  cases op <;> simp only [opcodeTable, opcodeAdd, opcodeSub, opcodeMul, opcodeDiv, opcodeCall,
    opcodeCallStatic, opcodeCallNamed, opcodeCallObj] at hr ⊢ <;> first
    | exact hr
    | exact arithmetic_mono h hr
    | exact opcodeCmp_mono h hr
    | exact callFunction_mono h hr
    | exact opcodeNew_mono h hr
    | exact opcodeNewFunction_mono h hr
    | exact opcodeThrow_mono h hr

theorem step_mono (h : ExecLE exec exec') {ctx : Context W} {frame : Frame}
    {r : Bool × Context W × Frame} (hr : step E exec ctx frame = some r) :
    step E exec' ctx frame = some r := by
  refine bind_mono (fun _ => id) (fun _ => ?_) hr
  exact bind_mono (fun _ => opcodeTable_mono h) (fun _ => id)

theorem runLoop_mono (h : ExecLE exec exec') {fuel fuel' : ℕ} (hle : fuel ≤ fuel') {success : Bool}
    {ctx : Context W} {frame : Frame} {r : Bool × Context W}
    (hr : runLoop E exec fuel success ctx frame = some r) :
    runLoop E exec' fuel' success ctx frame = some r := by
  induction fuel generalizing fuel' success ctx frame with
  | zero =>
      cases hc : frame.continues with
      | false => rwa [runLoop_end hc] at hr ⊢
      | true =>
          cases hs : ctx.checkStack with
          | false => rwa [runLoop_overflow hc hs] at hr ⊢
          | true => rw [runLoop_zero hc hs] at hr; cases hr
  | succ fuel ih =>
      obtain ⟨fuel', rfl⟩ : ∃ k, fuel' = k + 1 := ⟨fuel' - 1, by omega⟩
      cases hc : frame.continues with
      | false => rwa [runLoop_end hc] at hr ⊢
      | true =>
          cases hs : ctx.checkStack with
          | false => rwa [runLoop_overflow hc hs] at hr ⊢
          | true =>
              rw [runLoop_succ hc hs] at hr ⊢
              exact bind_mono (fun _ => step_mono h) (fun _ => ih (by omega)) hr

end

/-- More fuel does not change a result. -/
theorem execute_le (E : Env W) {n m : ℕ} (hle : n ≤ m) : ExecLE (execute E n) (execute E m) := by
  induction n generalizing m with
  | zero => intro f obj argCount ctx r hr; cases hr
  | succ n ih =>
      obtain ⟨m, rfl⟩ : ∃ k, m = k + 1 := ⟨m - 1, by omega⟩
      intro f obj argCount ctx r hr
      unfold execute at hr ⊢
      split at hr
      · cases hr
      · exact hr
      · next code _ =>
          unfold run at hr ⊢
          split at hr
          · cases hr
          · exact runLoop_mono (ih (by omega)) (by omega) hr
      · exact hr

/-! ## The simulation -/

/-- A call instruction that calls a script function pushes an activation; otherwise the machine does
    what `step` does. -/
theorem callFunction_script {E : Env W} {fuel : ℕ} {target : CallTarget W} {args : List Word}
    {ctx ctx₁ : Context W} {frame : Frame} {function obj : Word} {count : ℕ} {code : Code}
    {r : Bool × Context W × Frame}
    (htarget : target args ctx = some (ctx₁, some (function, obj, count)))
    (hcode : scriptCode E function = some code)
    (h : callFunction (execute E fuel) target args ctx frame = some r) :
    ∃ fuel', fuel' < fuel ∧ ∃ ctx₂ callee, enter E obj code count ctx₁ = some (ctx₂, callee) ∧
      runLoop E (execute E fuel') fuel' true ctx₂ callee = some (r.1, r.2.1) ∧ r.2.2 = frame := by
  simp only [callFunction, htarget, Option.bind_eq_bind, Option.bind_some,
    Option.bind_eq_some_iff] at h
  obtain ⟨⟨res, ctx₃⟩, hexec, h⟩ := h
  obtain rfl := Option.some.inj h
  unfold scriptCode at hcode
  split at hcode
  · next code' hfun =>
      obtain rfl := Option.some.inj hcode
      cases fuel with
      | zero => cases hexec
      | succ fuel =>
          simp only [execute, hfun, run] at hexec
          split at hexec
          · cases hexec
          · next ctx₂ callee henter =>
              exact ⟨fuel, Nat.lt_succ_self fuel, ctx₂, callee, henter, hexec, rfl⟩
  · cases hcode

theorem scriptCallee_some {E : Env W} {inst : Instruction} {ctx ctx₁ : Context W} {obj : Word}
    {code : Code} {count : ℕ} (h : scriptCallee E inst ctx = some (ctx₁, obj, code, count)) :
    ∃ target function, callInstruction E inst.op = some target ∧
      target inst.args ctx = some (ctx₁, some (function, obj, count)) ∧
      scriptCode E function = some code := by
  simp only [scriptCallee, Option.bind_eq_bind, Option.bind_eq_some_iff] at h
  obtain ⟨target, hinst, ⟨ctx₂, callee⟩, htarget, ⟨function, obj', count'⟩, hcallee, code', hcode,
    h⟩ := h
  obtain ⟨rfl, rfl, rfl, rfl⟩ := by simpa using h
  exact ⟨target, function, hinst, hcallee ▸ htarget, hcode⟩

/-- The opcode function of a call instruction. -/
theorem opcodeTable_call {E : Env W} {exec : Execute W} {op : OpCode} {target : CallTarget W}
    (h : callInstruction E op = some target) : opcodeTable E exec op = callFunction exec target := by
  cases op <;> first
    | (obtain rfl := Option.some.inj h; rfl)
    | cases h

/-- **A run of `Executor::run` that returns is a run of the machine**, from the state in which the
    activation has been entered to the state in which it has returned. -/
theorem runLoop_reaches (E : Env W) (N : ℕ) :
    ∀ (k : ℕ), k ≤ N → ∀ (fuel : ℕ) (success success' : Bool) (ctx ctx' : Context W) (frame : Frame),
      runLoop E (execute E k) fuel success ctx frame = some (success', ctx') →
      ∀ (below : List Frame) (m : Machine W), Machine.returnTo success' below ctx' = some m →
        Reaches E (execute E N) ⟨success, frame :: below, ctx⟩ m := by
  intro k
  induction k using Nat.strongRecOn with
  | ind k ihk =>
      intro hkN fuel
      induction fuel with
      | zero =>
          intro success success' ctx ctx' frame hrun below m hm
          cases hc : frame.continues with
          | false =>
              rw [runLoop_end hc] at hrun
              obtain ⟨rfl, rfl⟩ := Prod.mk.inj (Option.some.inj hrun)
              exact Relation.ReflTransGen.single (by simp [Machine.step, hc, hm])
          | true =>
              cases hs : ctx.checkStack with
              | false =>
                  rw [runLoop_overflow hc hs] at hrun
                  obtain ⟨rfl, rfl⟩ := Prod.mk.inj (Option.some.inj hrun)
                  exact Relation.ReflTransGen.single (by simp [Machine.step, hc, hs, hm])
              | true => rw [runLoop_zero hc hs] at hrun; cases hrun
      | succ fuel ih =>
          intro success success' ctx ctx' frame hrun below m hm
          cases hc : frame.continues with
          | false =>
              rw [runLoop_end hc] at hrun
              obtain ⟨rfl, rfl⟩ := Prod.mk.inj (Option.some.inj hrun)
              exact Relation.ReflTransGen.single (by simp [Machine.step, hc, hm])
          | true =>
              cases hs : ctx.checkStack with
              | false =>
                  rw [runLoop_overflow hc hs] at hrun
                  obtain ⟨rfl, rfl⟩ := Prod.mk.inj (Option.some.inj hrun)
                  exact Relation.ReflTransGen.single (by simp [Machine.step, hc, hs, hm])
              | true =>
                  rw [runLoop_succ hc hs, Option.bind_eq_some_iff] at hrun
                  obtain ⟨⟨s, c, f⟩, hstep, hrun⟩ := hrun
                  have hrest := ih s success' c ctx' f hrun below m hm
                  obtain ⟨inst, next, s₁, c₁, f₁, hfetch, hop, hafter⟩ := step_some hstep
                  cases hcallee : scriptCallee E inst ctx with
                  | none =>
                      refine Relation.ReflTransGen.head ?_ hrest
                      have hstep' := step_mono (execute_le E hkN) hstep
                      simp [Machine.step, hc, hs, hfetch, hcallee, hstep']
                  | some callee =>
                      -- the call of the source becomes a push, the run of the callee, and a return
                      obtain ⟨ctx₁, obj, code, count⟩ := callee
                      obtain ⟨target, function, hinst, htarget, hcode⟩ := scriptCallee_some hcallee
                      rw [opcodeTable_call hinst] at hop
                      obtain ⟨fuel', hlt, ctx₂, calleeFrame, henter, hcall, hframe⟩ :=
                        callFunction_script htarget hcode hop
                      obtain rfl : f₁ = { frame with pc := next } := hframe
                      have hreturn : Machine.returnTo s₁ ({ frame with pc := next } :: below) c₁ =
                          some ⟨s, f :: below, c⟩ := by
                        rw [Machine.returnTo, hafter]
                      have hinner := ihk fuel' hlt (by omega) fuel' true s₁ ctx₂ c₁ calleeFrame hcall
                        ({ frame with pc := next } :: below) _ hreturn
                      refine Relation.ReflTransGen.head ?_ (hinner.trans hrest)
                      simp [Machine.step, hc, hs, hfetch, hcallee, henter]

end B0rk
