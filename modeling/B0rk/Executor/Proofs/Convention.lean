import B0rk.Executor.Proofs.Frames
import B0rk.Executor.Proofs.Invariant
import B0rk.Executor.Proofs.Rounds
import B0rk.Executor.Proofs.Unwind

set_option autoImplicit false

/-! # Script functions and the calling convention

A script function takes its arguments off the stack on entry and puts its frame marker in their place.
If its operands stay above the marker, both ways out take exactly the marker and what is above it away:
`RETURN` leaves the result there, `handleException` without a handler leaves nothing. The other ways
out leave the marker on the stack: the end of the code, and an instruction that fails with an exception
inside a `try`. -/

namespace B0rk

variable {W : Type} {E : Env W} {exec : Execute W}

/-- The operands of an activation are above its marker, and none of them is a marker. -/
def Frame.OnTop (frame : Frame) (below : List Value) (ctx : Context W) : Prop :=
  ∃ operands, ctx.stack = operands ++ frame.marker :: below ∧ ∀ v ∈ operands, v.type ≠ .frame

/-- A running activation is inside its code, `RETURN` has an operand, every other instruction leaves
    the operands above the marker, and none fails inside a `try`. -/
structure Frame.KeepsMarker (E : Env W) (exec : Execute W) (below : List Value) (ctx : Context W)
    (frame : Frame) : Prop where
  inside : frame.pc < frame.code.size
  returns : ∀ inst next, frame.code.fetch frame.pc = some (inst, next) → inst.op = .ret →
    ctx.stack ≠ frame.marker :: below
  onTop : ∀ inst next success ctx' frame', frame.code.fetch frame.pc = some (inst, next) →
    inst.op ≠ .ret →
    opcodeTable E exec inst.op inst.args ctx { frame with pc := next } =
      some (success, ctx', frame') →
    frame.OnTop below ctx' ∧ (success = false → frame'.handlerStack = [])

/-- All activations of the code end with `RETURN`, or with an exception that they do not catch. -/
def Code.KeepsMarker (E : Env W) (exec : Execute W) (code : Code) : Prop :=
  ∀ obj n ctx entered frame, enter E obj code n ctx = some (entered, frame) →
    ∀ s, Arrives E exec (entered, frame) s → s.2.running = true →
      s.2.KeepsMarker E exec (ctx.stack.drop n) s.1

/-- What a call that keeps the convention leaves above the entries below its arguments. -/
def Context.Leaves (below : List Value) (ctx : Context W) : Prop :=
  (ctx.exception = true ∧ ctx.stack = below) ∨
    (ctx.exception = false ∧ ∃ result, ctx.stack = result :: below)

/-! ## One round -/

/-- Only `RETURN` ends an activation. -/
theorem opcodeTable_running {inst : Instruction} {success : Bool} {ctx ctx' : Context W}
    {frame frame' : Frame} (hop : inst.op ≠ .ret)
    (h : opcodeTable E exec inst.op inst.args ctx frame = some (success, ctx', frame')) :
    frame'.running = frame.running := by
  have hI : ContextInvariant E (fun _ => True) (fun _ _ => True) := by
    constructor <;> intros <;> trivial
  have hkeeps : Keeps (fun _ => True) (fun _ _ => True) inst.op frame (success, ctx', frame') :=
    opcodeTable_keeps hI (fun _ _ _ _ _ _ _ _ => trivial) (fun _ _ => trivial) trivial _ h
  exact hkeeps.2.running hop

theorem Frame.setVar_running {frame frame' : Frame} {id : ℕ} {v : Value}
    (h : frame.setVar id v = some frame') : frame'.running = frame.running := by
  unfold Frame.setVar at h
  split at h
  · cases h
    rfl
  · cases h

/-- Behind an opcode function: nothing is pending, or the exception is handled. -/
theorem afterOpcode_cases {success success' : Bool} {ctx ctx' : Context W} {frame frame' : Frame}
    (h : afterOpcode success ctx frame = some (success', ctx', frame')) :
    (ctx.exception = false ∧ success' = success ∧ ctx' = ctx ∧
      frame'.running = (success && frame.running)) ∨
    (ctx.exception = true ∧ frame.handlerStack = [] ∧ frame'.running = false ∧
      ∃ stack, popToFrame ctx.stack = some stack ∧ ctx' = { ctx with stack := stack }) ∨
    (ctx.exception = true ∧ frame.handlerStack ≠ [] ∧ ctx' = ctx.clearException ∧
      frame'.running = (success && frame.running)) := by
  have hrunning : (if success then frame else { frame with running := false }).running =
      (success && frame.running) := by cases success <;> rfl
  have hhandlers : (if success then frame else { frame with running := false }).handlerStack =
      frame.handlerStack := by cases success <;> rfl
  unfold afterOpcode handleException at h
  cases hexc : ctx.exception with
  | false =>
    simp only [hexc, Bool.false_eq_true, if_false] at h
    cases h
    exact .inl ⟨rfl, rfl, rfl, hrunning⟩
  | true =>
    simp only [hexc, if_true, hhandlers] at h
    cases hstack : frame.handlerStack with
    | nil =>
      rw [hstack] at h
      obtain ⟨p, hp, h⟩ := Option.bind_eq_some_iff.mp h
      obtain ⟨stack, hpop, hp⟩ := Option.bind_eq_some_iff.mp hp
      cases hp
      cases h
      exact .inr (.inl ⟨rfl, rfl, rfl, stack, hpop, by rw [← hexc]⟩)
    | cons handler handlers =>
      rw [hstack] at h
      obtain ⟨p, hp, h⟩ := Option.bind_eq_some_iff.mp h
      obtain ⟨frame₁, hset, hp⟩ := Option.bind_eq_some_iff.mp hp
      cases hp
      cases h
      refine .inr (.inr ⟨rfl, List.cons_ne_nil _ _, rfl, (Frame.setVar_running hset).trans ?_⟩)
      cases success <;> rfl

/-- `RETURN` that succeeds ends the activation. -/
theorem opcodeReturn_ends {args : List Word} {success : Bool} {ctx ctx' : Context W}
    {frame frame' : Frame} (h : opcodeReturn args ctx frame = some (success, ctx', frame')) :
    ctx'.exception = ctx.exception ∧ (success && frame'.running) = false := by
  obtain ⟨⟨v, ctx₁⟩, hpop, h⟩ := Option.bind_eq_some_iff.mp h
  obtain ⟨⟨check, ctx₂⟩, hpop', h⟩ := Option.bind_eq_some_iff.mp h
  have hexc : ctx₂.exception = ctx.exception := by
    rw [(Context.pop_some hpop').2, (Context.pop_some hpop).2]
  dsimp only at h
  split at h
  · cases h
    exact ⟨hexc, rfl⟩
  · cases h
    exact ⟨hexc, rfl⟩

/-- `RETURN` takes its operand and the marker away and leaves the result. -/
theorem opcodeReturn_onTop {args : List Word} {below : List Value} {ctx ctx' : Context W}
    {frame frame' : Frame} (htop : frame.OnTop below ctx)
    (hoperand : ctx.stack ≠ frame.marker :: below)
    (h : opcodeReturn args ctx frame = some (true, ctx', frame')) :
    ∃ result, ctx'.stack = result :: below := by
  obtain ⟨operands, hstack, hfree⟩ := htop
  obtain ⟨⟨v, ctx₁⟩, hpop, h⟩ := Option.bind_eq_some_iff.mp h
  obtain ⟨⟨check, ctx₂⟩, hpop', h⟩ := Option.bind_eq_some_iff.mp h
  have hv := (Context.pop_some hpop).1
  have hcheck := (Context.pop_some hpop').1
  dsimp only at h
  split at h
  · cases h
  · next hmarker =>
    cases h
    rw [not_or, not_not] at hmarker
    cases operands with
    | nil => exact absurd hstack hoperand
    | cons w operands =>
      rw [hv, List.cons_append] at hstack
      have hrest := (List.cons.inj hstack).2
      rw [hcheck] at hrest
      -- what `RETURN` has found below its operand is the marker of the activation
      cases operands with
      | nil =>
        have hbelow := (List.cons.inj hrest).2
        exact ⟨v, congrArg (v :: ·) hbelow⟩
      | cons x operands =>
        obtain rfl := (List.cons.inj hrest).1
        exact absurd hmarker.1 (hfree _ (List.mem_cons_of_mem _ (List.mem_cons_self ..)))

section

variable {below : List Value} {ctx ctx' : Context W} {frame frame' : Frame} {success : Bool}

/-- `RETURN` ends the activation, whether or not it succeeds. -/
theorem step_return {inst : Instruction} {next : ℕ}
    (hfetch : frame.code.fetch frame.pc = some (inst, next)) (hret : inst.op = .ret)
    (hstep : step E exec ctx frame = some (success, ctx', frame')) : frame'.running = false := by
  obtain ⟨inst', next', s, ctx₁, frame₁, hfetch', hop, hafter⟩ := step_some hstep
  obtain ⟨rfl, rfl⟩ := Prod.mk.inj (Option.some.inj (hfetch.symm.trans hfetch'))
  rw [hret] at hop
  have hends := (opcodeReturn_ends (show opcodeReturn inst.args ctx { frame with pc := next } =
    some (s, ctx₁, frame₁) from hop)).2
  rcases afterOpcode_cases hafter with ⟨-, -, -, hend⟩ | ⟨-, -, hend, -⟩ | ⟨-, -, -, hend⟩
  · exact hend.trans hends
  · exact hend
  · exact hend.trans hends

/-- A round that leaves the activation running leaves its operands above its marker, and nothing
    pending. -/
theorem step_onTop (h : frame.KeepsMarker E exec below ctx)
    (hstep : step E exec ctx frame = some (success, ctx', frame')) (hrun : frame'.running = true) :
    frame'.OnTop below ctx' ∧ ctx'.exception = false := by
  obtain ⟨inst, next, s, ctx₁, frame₁, hfetch, hop, hafter⟩ := step_some hstep
  have hmarker : frame'.marker = frame.marker := congrArg (Value.mk .frame) (step_same hstep).addr
  have hret : inst.op ≠ .ret := by
    intro hret
    rw [step_return hfetch hret hstep] at hrun
    cases hrun
  obtain ⟨⟨operands, hstack, hfree⟩, -⟩ := h.onTop inst next s ctx₁ frame₁ hfetch hret hop
  rcases afterOpcode_cases hafter with ⟨hexc, -, rfl, -⟩ | ⟨-, -, hend, -⟩ | ⟨-, -, rfl, -⟩
  · exact ⟨⟨operands, hmarker ▸ hstack, hfree⟩, hexc⟩
  · rw [hrun] at hend
    cases hend
  · exact ⟨⟨operands, hmarker ▸ hstack, hfree⟩, rfl⟩

/-- A round that ends the activation with success keeps the convention. -/
theorem step_leaves (h : frame.KeepsMarker E exec below ctx) (htop : frame.OnTop below ctx)
    (hpending : ctx.exception = true → ctx.stack = frame.marker :: below)
    (hrun : frame.running = true)
    (hstep : step E exec ctx frame = some (true, ctx', frame')) (hend : frame'.running = false) :
    ctx'.Leaves below := by
  obtain ⟨inst, next, s, ctx₁, frame₁, hfetch, hop, hafter⟩ := step_some hstep
  by_cases hret : inst.op = .ret
  · have hoperand := h.returns inst next hfetch hret
    have hexc : ctx.exception = false := by
      cases hexc : ctx.exception with
      | false => rfl
      | true => exact absurd (hpending hexc) hoperand
    rw [hret] at hop
    have hreturn : opcodeReturn inst.args ctx { frame with pc := next } =
      some (s, ctx₁, frame₁) := hop
    have hexc₁ : ctx₁.exception = false := (opcodeReturn_ends hreturn).1.trans hexc
    rcases afterOpcode_cases hafter with ⟨-, rfl, rfl, -⟩ | ⟨hexc', -⟩ | ⟨hexc', -⟩
    · have htop' : Frame.OnTop { frame with pc := next } below ctx := htop
      exact .inr ⟨hexc₁, opcodeReturn_onTop htop' hoperand hreturn⟩
    · rw [hexc₁] at hexc'
      cases hexc'
    · rw [hexc₁] at hexc'
      cases hexc'
  · obtain ⟨⟨operands, hstack, hfree⟩, hfails⟩ := h.onTop inst next s ctx₁ frame₁ hfetch hret hop
    have hrunning : frame₁.running = true := (opcodeTable_running hret hop).trans hrun
    have hpop : popToFrame ctx₁.stack = some below := by
      rw [hstack]
      exact popToFrame_append hfree
    rcases afterOpcode_cases hafter with ⟨-, hs, -, hend'⟩ | ⟨hexc, -, -, stack, hstack', rfl⟩ |
      ⟨-, hhandlers, -, hend'⟩
    · rw [← hs, hrunning, hend] at hend'
      cases hend'
    · obtain rfl := Option.some.inj (hpop.symm.trans hstack')
      exact .inl ⟨hexc, rfl⟩
    · cases s with
      | false => exact absurd (hfails rfl) hhandlers
      | true =>
        rw [hrunning, hend] at hend'
        cases hend'

/-- **The loop of an activation keeps the convention** from any state that it arrives in. -/
theorem runLoop_leaves {fuel : ℕ} (hkeeps : ∀ s, Arrives E exec (ctx, frame) s → s.2.running = true →
      s.2.KeepsMarker E exec below s.1) (htop : frame.OnTop below ctx)
    (hpending : ctx.exception = true → ctx.stack = frame.marker :: below)
    (hrun : frame.running = true)
    (h : runLoop E exec fuel success ctx frame = some (true, ctx')) : ctx'.Leaves below := by
  induction fuel generalizing success ctx frame with
  | zero =>
    have hcont : frame.continues = true := by
      simp [Frame.continues, hrun, (hkeeps _ .refl hrun).inside]
    cases hstack : ctx.checkStack with
    | true =>
      rw [runLoop_zero hcont hstack] at h
      cases h
    | false =>
      rw [runLoop_overflow hcont hstack] at h
      cases h
  | succ fuel ih =>
    have hfirst := hkeeps _ .refl hrun
    have hcont : frame.continues = true := by simp [Frame.continues, hrun, hfirst.inside]
    cases hstack : ctx.checkStack with
    | false =>
      rw [runLoop_overflow hcont hstack] at h
      cases h
    | true =>
      rw [runLoop_succ hcont hstack] at h
      obtain ⟨⟨s, ctx₁, frame₁⟩, hstep, h⟩ := Option.bind_eq_some_iff.mp h
      have hrest : ∀ u, Arrives E exec (ctx₁, frame₁) u → Arrives E exec (ctx, frame) u :=
        fun u hu => .head ⟨s, hcont, hstack, hstep⟩ hu
      cases hrun₁ : frame₁.running with
      | true =>
        obtain ⟨htop₁, hexc⟩ := step_onTop hfirst hstep hrun₁
        refine ih (fun u hu => hkeeps u (hrest u hu)) htop₁ (fun hpending => ?_) hrun₁ h
        rw [hexc] at hpending
        cases hpending
      | false =>
        rw [runLoop_end (by simp [Frame.continues, hrun₁])] at h
        obtain ⟨rfl, rfl⟩ := Prod.mk.inj (Option.some.inj h)
        exact step_leaves hfirst htop hpending hrun hstep hrun₁

end

/-- **A script function keeps the calling convention** if its activations end with `RETURN` or with an
    exception that they do not catch. -/
theorem scriptExecute_keepsConvention {function : Word} {code : Code} {fuel : ℕ}
    (hfun : E.function function = some (.script (some code)))
    (hkeeps : code.KeepsMarker E (execute E fuel)) : KeepsConvention (execute E (fuel + 1)) function := by
  intro obj n ctx ctx' h
  rw [execute, hfun] at h
  dsimp only at h
  unfold run at h
  cases henter : enter E obj code n ctx with
  | none =>
    rw [henter] at h
    cases h
  | some p =>
    obtain ⟨entered, frame⟩ := p
    rw [henter] at h
    obtain ⟨hle, hctx, hrun, -⟩ := enter_some henter
    have hstack : entered.stack = frame.marker :: ctx.stack.drop n := by rw [hctx]
    exact ⟨hle, runLoop_leaves (hkeeps obj n ctx entered frame henter)
      ⟨[], hstack, List.forall_mem_nil _⟩ (fun _ => hstack) hrun h⟩

/-! ## A function with an empty body -/

section

variable {code : Code} {obj : Word} {n : ℕ} {ctx entered : Context W} {frame : Frame}

/-- The states of `PUSHI 0; RETURN` in which it is running. -/
theorem emptyBody_arrives (hpush : code.fetch 0 = some (⟨.pushI, [0]⟩, 2))
    (hreturn : code.fetch 2 = some (⟨.ret, []⟩, 3))
    (henter : enter E obj code n ctx = some (entered, frame)) {s : Context W × Frame}
    (hs : Arrives E exec (entered, frame) s) (hrun : s.2.running = true) :
    s = (entered, frame) ∨ s = (entered.push (Value.integer 0), { frame with pc := 2 }) := by
  obtain ⟨-, -, -, hpc, hcode, hnone, -⟩ := enter_some henter
  induction hs with
  | refl => exact .inl rfl
  | @tail s t hs hround ih =>
    obtain ⟨success, hcont, -, hstep⟩ := hround
    rcases ih (by simp_all [Frame.continues]) with rfl | rfl
    · have hfirst : step E exec entered frame =
          afterOpcode true (entered.push (Value.integer 0)) { frame with pc := 2 } := by
        rw [step, hcode, hpc, hpush]
        rfl
      dsimp only at hstep
      rw [hfirst] at hstep
      cases hexc : entered.exception with
      | false =>
        simp only [afterOpcode, if_true, Context.push_exception, hexc, Bool.false_eq_true, if_false,
          Option.some.injEq, Prod.mk.injEq] at hstep
        exact .inr hstep.2.symm
      | true =>
        -- the exception that was pending on entry ends the activation
        rcases afterOpcode_cases hstep with ⟨hexc', -⟩ | ⟨-, -, hend, -⟩ | ⟨-, hhandlers, -⟩
        · exact absurd (hexc.symm.trans hexc') Bool.noConfusion
        · rw [hend] at hrun
          cases hrun
        · exact absurd hnone hhandlers
    · have hend := step_return (show ({ frame with pc := 2 } : Frame).code.fetch 2 = some (⟨.ret, []⟩, 3)
        by rw [← hreturn, ← hcode]) rfl hstep
      rw [hend] at hrun
      cases hrun

/-- A function with an empty body keeps the convention. -/
theorem emptyBody_keepsMarker (hpush : code.fetch 0 = some (⟨.pushI, [0]⟩, 2))
    (hreturn : code.fetch 2 = some (⟨.ret, []⟩, 3)) (hsize : code.size = 3) :
    code.KeepsMarker E exec := by
  intro obj n ctx entered frame henter s hs hrun
  obtain ⟨-, hctx, -, hpc, hcode, -⟩ := enter_some henter
  have hstack : entered.stack = frame.marker :: ctx.stack.drop n := by rw [hctx]
  rcases emptyBody_arrives hpush hreturn henter hs hrun with rfl | rfl
  · have hfetch : frame.code.fetch frame.pc = some (⟨.pushI, [0]⟩, 2) := by rw [hcode, hpc, hpush]
    refine ⟨by simp [hcode, hpc, hsize], fun inst next h hret => ?_, ?_⟩
    · obtain ⟨rfl, -⟩ := Prod.mk.inj (Option.some.inj (hfetch.symm.trans h))
      cases hret
    · intro inst next success ctx' frame' h _ hop
      obtain ⟨rfl, rfl⟩ := Prod.mk.inj (Option.some.inj (hfetch.symm.trans h))
      have hpushed : some (true, entered.push (Value.integer 0), { frame with pc := 2 }) =
          some (success, ctx', frame') := hop
      cases hpushed
      refine ⟨⟨[Value.integer 0], by simp [hstack], ?_⟩, nofun⟩
      simp [Value.integer]
  · have hfetch : ({ frame with pc := 2 } : Frame).code.fetch 2 = some (⟨.ret, []⟩, 3) := by
      rw [← hreturn, ← hcode]
    refine ⟨by simp [hcode, hsize], fun inst next h hret heq => ?_, ?_⟩
    · have hmarker := (List.cons.inj heq).1
      cases congrArg Value.type hmarker
    · intro inst next success ctx' frame' h hop
      obtain ⟨rfl, -⟩ := Prod.mk.inj (Option.some.inj (hfetch.symm.trans h))
      exact absurd rfl hop

end

end B0rk
