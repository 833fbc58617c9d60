import B0rk.Assembler.Link
import B0rk.Executor.Proofs.Frames
import B0rk.Executor.Proofs.Rounds

set_option autoImplicit false

/-! # Other instructions for the same run

Where an instruction is exchanged for one that does the same in the states in which it is executed, the
rounds stay what they are. The two codes have the same positions, so their frames differ in nothing but
the code. -/

namespace B0rk

variable {W : Type} {E : Env W} {exec : Execute W}

/-- Two instructions that do the same in a state. -/
def SameEffect (E : Env W) (exec : Execute W) (inst' inst : Instruction) (ctx : Context W)
    (frame : Frame) : Prop :=
  opcodeTable E exec inst'.op inst'.args ctx frame = opcodeTable E exec inst.op inst.args ctx frame

/-- The frame of an activation with other code. -/
def Frame.recode (frame : Frame) (code : Code) : Frame := { frame with code := code }

theorem frameRel_recode (code : Code) : FrameRel (fun f' f => f' = f.recode code) where
  addr := by
    rintro f' f rfl
    rfl
  localVars := by
    rintro f' f rfl
    rfl
  flags := by
    rintro f' f rfl
    rfl
  setFlags := by
    rintro f' f rfl flags
    rfl
  setVars := by
    rintro f' f rfl k v
    rfl
  stop := by
    rintro f' f rfl
    rfl
  handlers := by
    rintro f' f rfl
    cases hs : f.handlerStack with
    | nil => exact .inl ⟨hs, rfl⟩
    | cons handler handlers => exact .inr ⟨_, _, _, _, hs, rfl, rfl, rfl, rfl⟩

theorem argsRel_recode (code : Code) (op : OpCode) (args : List Word) :
    ArgsRel (fun f' f => f' = f.recode code) op args args := by
  refine ⟨fun _ _ => rfl, ?_⟩
  intro j _
  cases hd : args[j]? with
  | none => exact .inl ⟨rfl, rfl⟩
  | some d =>
    refine .inr ⟨d, d, rfl, rfl, ?_, ?_⟩
    · rintro f' f rfl
      rfl
    · rintro f' f v rfl
      rfl

/-- A state with other code. -/
def recoded (code : Code) (s : Context W × Frame) : Context W × Frame := (s.1, s.2.recode code)

/-- The instruction that a state is at has the same effect in both codes. -/
def SameRound (E : Env W) (exec : Execute W) (insts' insts : List Instruction)
    (s : Context W × Frame) : Prop :=
  ∀ inst inst', insts[s.2.pc]? = some inst → insts'[s.2.pc]? = some inst' →
    SameEffect E exec inst' inst s.1 { s.2 with pc := s.2.pc + 1 }

section

variable {localVars : ℕ} {insts insts' : List Instruction} {s t : Context W × Frame}

theorem ofInstructions_fetch {inst : Instruction} {pc next : ℕ}
    (h : (Code.ofInstructions localVars insts).fetch pc = some (inst, next)) :
    insts[pc]? = some inst ∧ next = pc + 1 := by
  obtain ⟨inst₁, hinst, heq⟩ := Option.map_eq_some_iff.mp h
  obtain ⟨rfl, rfl⟩ := Prod.mk.inj heq
  exact ⟨hinst, rfl⟩

theorem ofInstructions_fetch_some {inst : Instruction} {pc : ℕ} (h : insts[pc]? = some inst) :
    (Code.ofInstructions localVars insts).fetch pc = some (inst, pc + 1) := by
  show insts[pc]?.map _ = _
  rw [h]
  rfl

theorem recoded_continues (hlen : insts'.length = insts.length)
    (hcode : s.2.code = .ofInstructions localVars insts) :
    (recoded (.ofInstructions localVars insts') s).2.continues = s.2.continues := by
  have hsize : s.2.code.size = insts'.length := by rw [hcode, hlen]; rfl
  show (s.2.running && decide (s.2.pc < insts'.length)) = s.2.continues
  rw [← hsize]
  rfl

theorem step_intro {ctx ctx₁ : Context W} {frame frame₁ : Frame} {inst : Instruction} {next : ℕ}
    {success : Bool} {r : Bool × Context W × Frame}
    (hfetch : frame.code.fetch frame.pc = some (inst, next))
    (hop : opcodeTable E exec inst.op inst.args ctx { frame with pc := next } =
      some (success, ctx₁, frame₁))
    (hafter : afterOpcode success ctx₁ frame₁ = some r) : step E exec ctx frame = some r := by
  simp only [step, hfetch, hop, Option.bind_eq_bind, Option.bind_some]
  exact hafter

/-- A state that goes on is at an instruction. -/
theorem exists_instruction (hcode : s.2.code = .ofInstructions localVars insts)
    (hcont : s.2.continues = true) : ∃ inst, insts[s.2.pc]? = some inst := by
  have hpc : s.2.pc < s.2.code.size := by
    simp only [Frame.continues, Bool.and_eq_true, decide_eq_true_eq] at hcont
    exact hcont.2
  rw [hcode] at hpc
  exact ⟨_, List.getElem?_eq_getElem hpc⟩

theorem Round.code {success : Bool} (h : Round E exec s success t) : t.2.code = s.2.code :=
  (step_same h.2.2).code

/-- One round, where the other code has an instruction too. -/
theorem Round.recode_at {success : Bool} (hpc : s.2.pc < insts'.length)
    (hcode : s.2.code = .ofInstructions localVars insts) (hsame : SameRound E exec insts' insts s)
    (h : Round E exec s success t) :
    Round E exec (recoded (.ofInstructions localVars insts') s) success
      (recoded (.ofInstructions localVars insts') t) := by
  have hR := frameRel_recode (.ofInstructions localVars insts')
  obtain ⟨hcont, hstack, hstep⟩ := h
  have hrunning : s.2.running = true := (Bool.and_eq_true_iff.mp hcont).1
  have hcont' : (recoded (.ofInstructions localVars insts') s).2.continues = true :=
    Bool.and_eq_true_iff.mpr ⟨hrunning, decide_eq_true hpc⟩
  refine ⟨hcont', hstack, ?_⟩
  obtain ⟨inst, next, success₁, ctx₁, frame₁, hfetch, hop, hafter⟩ := step_some hstep
  rw [hcode] at hfetch
  obtain ⟨hinst, rfl⟩ := ofInstructions_fetch hfetch
  obtain ⟨inst', hinst'⟩ : ∃ inst', insts'[s.2.pc]? = some inst' :=
    ⟨_, List.getElem?_eq_getElem hpc⟩
  -- what the other instruction does with the frame that has the other code
  have hrel := opcodeTable_rel hR E exec (argsRel_recode _ inst'.op inst'.args) s.1
    (rfl : _ = ({ s.2 with pc := s.2.pc + 1 } : Frame).recode _)
  rw [hsame inst inst' hinst hinst', hop] at hrel
  generalize hop' : opcodeTable E exec inst'.op inst'.args s.1 _ = r' at hrel
  obtain ⟨hb, hctx, hframe⟩ := hrel
  rename_i r
  obtain ⟨b, ctx', frame'⟩ := r
  obtain rfl : b = success₁ := hb
  obtain rfl : ctx' = ctx₁ := hctx
  obtain rfl : frame' = frame₁.recode _ := hframe
  have hrel := afterOpcode_rel hR b ctx' (hR.failed (rfl : _ = frame₁.recode _) b)
  rw [hafter] at hrel
  generalize hafter' : afterOpcode b ctx' _ = r' at hrel
  obtain ⟨hb, hctx, hframe⟩ := hrel
  rename_i r
  obtain ⟨b₂, ctx₂, frame₂⟩ := r
  obtain rfl : b₂ = success := hb
  obtain rfl : ctx₂ = t.1 := hctx
  obtain rfl : frame₂ = t.2.recode _ := hframe
  exact step_intro (ofInstructions_fetch_some hinst') hop' hafter'

/-- One round of codes of the same length. -/
theorem Round.recode {success : Bool} (hlen : insts'.length = insts.length)
    (hcode : s.2.code = .ofInstructions localVars insts) (hsame : SameRound E exec insts' insts s)
    (h : Round E exec s success t) :
    Round E exec (recoded (.ofInstructions localVars insts') s) success
      (recoded (.ofInstructions localVars insts') t) := by
  obtain ⟨inst, hinst⟩ := exists_instruction hcode h.1
  exact h.recode_at (hlen ▸ (List.getElem?_eq_some_iff.mp hinst).1) hcode hsame

/-- **Runs of the other code.** A run whose rounds start where both codes have the same effect; a state
    of it may carry more than the round sees. -/
theorem arrives_recode {σ : Type} (state : σ → Context W × Frame) {r : σ → σ → Prop} {s t : σ}
    (hround : ∀ u v, r u v → ∃ success, Round E exec (state u) success (state v))
    (hlen : insts'.length = insts.length) (hcode : (state s).2.code = .ofInstructions localVars insts)
    (hsame : ∀ u v, Relation.ReflTransGen r s u → r u v → SameRound E exec insts' insts (state u))
    (h : Relation.ReflTransGen r s t) :
    (state t).2.code = .ofInstructions localVars insts ∧
      Arrives E exec (recoded (.ofInstructions localVars insts') (state s))
        (recoded (.ofInstructions localVars insts') (state t)) := by
  induction h with
  | refl => exact ⟨hcode, .refl⟩
  | @tail u v hsu huv ih =>
    obtain ⟨hu, harrives⟩ := ih
    obtain ⟨success, hr⟩ := hround u v huv
    exact ⟨hr.code.trans hu, harrives.tail ⟨success, hr.recode hlen hu (hsame u v hsu huv)⟩⟩

theorem enter_recode {obj : Word} {n : ℕ} {ctx : Context W}
    (h : enter E obj (.ofInstructions localVars insts) n ctx = some s) :
    enter E obj (.ofInstructions localVars insts') n ctx =
      some (recoded (.ofInstructions localVars insts') s) := by
  unfold enter at h ⊢
  dsimp only [Code.ofInstructions] at h ⊢
  split at h
  · cases h
  · next hvars =>
    rw [if_neg hvars]
    simp only [Option.bind_eq_bind, Option.bind_eq_some_iff] at h ⊢
    obtain ⟨⟨vars, ctx'⟩, hbind, h⟩ := h
    obtain rfl := Option.some.inj h
    exact ⟨⟨vars, ctx'⟩, hbind, rfl⟩

/-- **The same result.** A whole run whose rounds start where both codes have the same effect. -/
theorem run_recode {σ : Type} (state : σ → Context W × Frame) {r : σ → σ → Prop} {s t : σ}
    (hround : ∀ u v, r u v → ∃ success, Round E exec (state u) success (state v))
    (hlen : insts'.length = insts.length) {obj : Word} {n : ℕ} {ctx : Context W}
    (henter : enter E obj (.ofInstructions localVars insts) n ctx = some (state s))
    (hsame : ∀ u v, Relation.ReflTransGen r s u → r u v → SameRound E exec insts' insts (state u))
    (h : Relation.ReflTransGen r s t) (hend : (state t).2.continues = false) (fuel : ℕ) :
    run E exec fuel obj (.ofInstructions localVars insts') n ctx =
      run E exec fuel obj (.ofInstructions localVars insts) n ctx := by
  obtain ⟨-, -, -, -, hcode, -⟩ := enter_some henter
  have hloop : ∀ u, Relation.ReflTransGen r s u → Relation.ReflTransGen r u t →
      (state u).2.code = .ofInstructions localVars insts → ∀ fuel success,
      runLoop E exec fuel success (state u).1
          ((state u).2.recode (.ofInstructions localVars insts')) =
        runLoop E exec fuel success (state u).1 (state u).2 := by
    intro u hsu hut
    induction hut using Relation.ReflTransGen.head_induction_on with
    | refl =>
      intro hu fuel success
      have hend' : ((state t).2.recode (.ofInstructions localVars insts')).continues = false :=
        (recoded_continues hlen hu).trans hend
      rw [runLoop_end hend, runLoop_end hend']
    | @head u v huv _ ih =>
      intro hu fuel success
      obtain ⟨success', hr⟩ := hround u v huv
      obtain ⟨hcont', hstack', hstep'⟩ := hr.recode hlen hu (hsame u v hsu huv)
      dsimp only [recoded] at hcont' hstack' hstep'
      cases fuel with
      | zero => rw [runLoop_zero hr.1 hr.2.1, runLoop_zero hcont' hstack']
      | succ fuel =>
        rw [runLoop_succ hr.1 hr.2.1, runLoop_succ hcont' hstack', hr.2.2, hstep']
        exact ih (hsu.tail huv) (hr.code.trans hu) fuel success'
  unfold run
  rw [henter, enter_recode henter]
  exact hloop s .refl h hcode fuel true

end

end B0rk
