import B0rk.Core.Syntax

set_option autoImplicit false

/-! # Assignment before use

A program that `check` accepts is not stuck: what is assigned at a point in the analysis is assigned
there in every evaluation. -/

namespace B0rk

open Scopes (Le)

theorem incremented_frame (decrement : Bool) {D : Scopes Unit} {env : Scopes Word} {name : String}
    (hle : Le D env) (h : (D.get name).isSome) :
    ∃ v env', env.get name = some v ∧ env.set name (incremented decrement v) = some env' ∧
      Le env env' := by
  obtain ⟨v, hv⟩ := Option.isSome_iff_exists.mp (hle.get h)
  have hslot : (Scopes.slot env.names name).isSome := by
    have hagree : Scopes.Agree (fun _ _ => True) env := by
      clear hv hle
      induction env with
      | nil => trivial
      | cons _ _ ih => exact ⟨fun _ _ _ _ => trivial, ih⟩
    obtain ⟨k, hk, -⟩ := Scopes.get_slot hagree hv
    exact Option.isSome_iff_exists.mpr ⟨k, hk⟩
  rw [← Scopes.set_isSome (a := incremented decrement v)] at hslot
  obtain ⟨env', henv'⟩ := Option.isSome_iff_exists.mp hslot
  exact ⟨v, env', hv, henv', Scopes.le_set henv'⟩

/-- An accepted expression has a value. -/
theorem CoreExpr.eval_some {D : Scopes Unit} {env : Scopes Word} {e : CoreExpr} (hle : Le D env)
    (h : e.check D = true) : ∃ v env', e.eval env = some (v, env') ∧ Le env env' := by
  induction e generalizing env with
  | integer type i => exact ⟨i, env, rfl, Le.refl env⟩
  | var type name =>
    obtain ⟨v, hv⟩ := Option.isSome_iff_exists.mp (hle.get h)
    exact ⟨v, env, by simp [CoreExpr.eval, hv], Le.refl env⟩
  | oper typed op left right ihl ihr =>
    obtain ⟨hr, hl⟩ := Bool.and_eq_true_iff.mp h
    obtain ⟨r, env₁, hr, hle₁⟩ := ihr hle hr
    obtain ⟨l, env₂, hl, hle₂⟩ := ihl (hle.trans hle₁) hl
    exact ⟨op.eval l r, env₂, by simp [CoreExpr.eval, hr, hl], hle₁.trans hle₂⟩
  | not typed right ih =>
    obtain ⟨r, env₁, hr, hle₁⟩ := ih hle h
    exact ⟨ofBool (decide (r = 0)), env₁, by simp [CoreExpr.eval, hr], hle₁⟩
  | increment type decrement varType name =>
    obtain ⟨v, env', hv, henv', hle'⟩ := incremented_frame decrement hle h
    exact ⟨v, env', by simp [CoreExpr.eval, hv, henv'], hle'⟩

theorem CoreSimple.exec_some {D D' : Scopes Unit} {env : Scopes Word} {s : CoreSimple}
    (hle : Le D env) (h : s.check D = some D') :
    ∃ env', s.exec env = some env' ∧ Le D' env' ∧ Le env env' := by
  cases s with
  | set type varType name value =>
    rw [CoreSimple.check] at h
    split at h
    · next hvalue =>
      obtain ⟨v, env₁, hv, hle₁⟩ := CoreExpr.eval_some hle hvalue
      obtain ⟨env', henv', hle'⟩ := Le.set v (hle.trans hle₁) h
      exact ⟨env', by simp [CoreSimple.exec, hv, henv'], hle',
        hle₁.trans (Scopes.le_set henv')⟩
    · cases h
  | increment type decrement varType name =>
    rw [CoreSimple.check] at h
    split at h
    · next hname =>
      cases h
      obtain ⟨v, env', hv, henv', hle'⟩ := incremented_frame decrement hle hname
      exact ⟨env', by simp [CoreSimple.exec, hv, henv'], hle.trans hle', hle'⟩
    · cases h

theorem CoreSimple.execOption_some {D D' : Scopes Unit} {env : Scopes Word}
    {s : Option CoreSimple} (hle : Le D env) (h : CoreSimple.checkOption s D = some D') :
    ∃ env', CoreSimple.execOption s env = some env' ∧ Le D' env' ∧ Le env env' := by
  cases s with
  | none =>
    cases h
    exact ⟨env, rfl, hle, Le.refl env⟩
  | some s => exact CoreSimple.exec_some hle h

/-! ## The shape of the analysis -/

theorem CoreSimple.check_names {D D' : Scopes Unit} {s : CoreSimple} (h : s.check D = some D') :
    D'.names = D.names := by
  cases s with
  | set type varType name value =>
    rw [CoreSimple.check] at h
    split at h
    · exact Scopes.names_eq_of_set h
    · cases h
  | increment type decrement varType name =>
    rw [CoreSimple.check] at h
    split at h
    · cases h
      rfl
    · cases h

theorem CoreSimple.checkOption_names {D D' : Scopes Unit} {s : Option CoreSimple}
    (h : CoreSimple.checkOption s D = some D') : D'.names = D.names := by
  cases s with
  | none =>
    cases h
    rfl
  | some s => exact CoreSimple.check_names h

theorem CoreCode.check_names {D D' : Scopes Unit} {c : CoreCode} (h : c.check D = some D') :
    D'.names = D.names := by
  induction c generalizing D D' with
  | done =>
    cases h
    rfl
  | simple s rest ih =>
    obtain ⟨D₁, hs, h⟩ := Option.bind_eq_some_iff.mp h
    rw [ih h, CoreSimple.check_names hs]
  | ifThen test vars body rest ihb ihr =>
    rw [CoreCode.check] at h
    split at h
    · exact ihr h
    · cases h
  | ifElse test vars body vars' body' rest ihb ihb' ihr =>
    rw [CoreCode.check] at h
    split at h
    · obtain ⟨C, hC, h⟩ := Option.bind_eq_some_iff.mp h
      obtain ⟨C', hC', h⟩ := Option.bind_eq_some_iff.mp h
      have h1 : Scopes.names C.tail = D.names := by
        rw [Scopes.names_tail, ihb hC, Scopes.names_enter, List.tail_cons]
      have h2 : Scopes.names C'.tail = D.names := by
        rw [Scopes.names_tail, ihb' hC', Scopes.names_enter, List.tail_cons]
      rw [ihr h, Scopes.names_meet (h1.trans h2.symm), h1]
    · cases h
  | loop init test inc vars body rest ihb ihr =>
    obtain ⟨D₁, hinit, h⟩ := Option.bind_eq_some_iff.mp h
    split at h
    · obtain ⟨C, hC, h⟩ := Option.bind_eq_some_iff.mp h
      obtain ⟨C', hinc, h⟩ := Option.bind_eq_some_iff.mp h
      rw [ihr h, CoreSimple.checkOption_names hinit]
    · cases h
  | ret value rest ih =>
    cases value with
    | none => rw [ih h, Scopes.names_full]
    | some value =>
      rw [CoreCode.check] at h
      split at h
      · rw [ih h, Scopes.names_full]
      · cases h

/-! ## Evaluation is not stuck -/

/-- An outcome that is not stuck, and in which `D` is assigned as well as all of `env`. -/
def CoreOutcome.Fine (D : Scopes Unit) (env : Scopes Word) : CoreOutcome → Prop
  | normal env' => Le D env' ∧ Le env env'
  | returned _ => True
  | stuck => False
  | timeout => True

theorem CoreOutcome.Fine.andThen {D D' : Scopes Unit} {env env' : Scopes Word} {o : CoreOutcome}
    {next : Scopes Word → CoreOutcome} (h : o.Fine D env)
    (hnext : ∀ env₁, Le D env₁ → Le env env₁ → (next env₁.tail).Fine D' env') :
    (o.andThen next).Fine D' env' := by
  cases o with
  | normal env₁ => exact hnext env₁ h.1 h.2
  | returned v => trivial
  | stuck => exact h
  | timeout => trivial

theorem CoreOutcome.Fine.mono {D : Scopes Unit} {env env' : Scopes Word} {o : CoreOutcome}
    (hle : Le env env') (h : o.Fine D env') : o.Fine D env := by
  cases o with
  | normal env₁ => exact ⟨h.1, hle.trans h.2⟩
  | returned v => trivial
  | stuck => exact h
  | timeout => trivial

/-- **An accepted program does not get stuck.** -/
theorem CoreCode.exec_fine {fuel : ℕ} {D D' : Scopes Unit} {env : Scopes Word} {c : CoreCode}
    (hle : Le D env) (h : c.check D = some D') : (c.exec fuel env).Fine D' env := by
  induction c generalizing D D' env with
  | done =>
    cases h
    exact ⟨hle, Le.refl env⟩
  | simple s rest ih =>
    obtain ⟨D₁, hs, h⟩ := Option.bind_eq_some_iff.mp h
    obtain ⟨env₁, henv₁, hle₁, hmono⟩ := CoreSimple.exec_some hle hs
    rw [CoreCode.exec, henv₁]
    exact (ih hle₁ h).mono hmono
  | ifThen test vars body rest ihb ihr =>
    rw [CoreCode.check] at h
    split at h
    · next hcheck =>
      obtain ⟨htest, hbody⟩ := Bool.and_eq_true_iff.mp hcheck
      obtain ⟨C, hC⟩ := Option.isSome_iff_exists.mp hbody
      obtain ⟨v, env₁, hv, hmono⟩ := CoreExpr.eval_some hle htest
      have hle₁ := hle.trans hmono
      rw [CoreCode.exec, hv]
      dsimp only
      split
      · exact (ihr hle₁ h).mono hmono
      · refine (ihb (hle₁.enter vars) hC).andThen ?_
        intro env₂ _ hmono₂
        have hmono₂ : Le env₁ env₂.tail := hmono₂.tail
        exact (ihr (hle₁.trans hmono₂) h).mono (hmono.trans hmono₂)
    · cases h
  | ifElse test vars body vars' body' rest ihb ihb' ihr =>
    rw [CoreCode.check] at h
    split at h
    · next htest =>
      obtain ⟨C, hC, h⟩ := Option.bind_eq_some_iff.mp h
      obtain ⟨C', hC', h⟩ := Option.bind_eq_some_iff.mp h
      obtain ⟨v, env₁, hv, hmono⟩ := CoreExpr.eval_some hle htest
      have hle₁ := hle.trans hmono
      have hnames : Scopes.names C.tail = Scopes.names C'.tail := by
        rw [Scopes.names_tail, Scopes.names_tail, CoreCode.check_names hC,
          CoreCode.check_names hC', Scopes.names_enter, Scopes.names_enter, List.tail_cons,
          List.tail_cons]
      rw [CoreCode.exec, hv]
      dsimp only
      split
      · refine (ihb' (hle₁.enter vars') hC').andThen ?_
        intro env₂ hle₂ hmono₂
        have hmono₂ : Le env₁ env₂.tail := hmono₂.tail
        exact (ihr ((Scopes.meet_le_right hnames).trans hle₂.tail) h).mono (hmono.trans hmono₂)
      · refine (ihb (hle₁.enter vars) hC).andThen ?_
        intro env₂ hle₂ hmono₂
        have hmono₂ : Le env₁ env₂.tail := hmono₂.tail
        exact (ihr ((Scopes.meet_le_left hnames).trans hle₂.tail) h).mono (hmono.trans hmono₂)
    · cases h
  | loop init test inc vars body rest ihb ihr =>
    obtain ⟨D₁, hinit, h⟩ := Option.bind_eq_some_iff.mp h
    split at h
    · next htest =>
      obtain ⟨C, hC, h⟩ := Option.bind_eq_some_iff.mp h
      obtain ⟨C', hinc, h⟩ := Option.bind_eq_some_iff.mp h
      obtain ⟨env₁, henv₁, hle₁, hmono⟩ := CoreSimple.execOption_some hle hinit
      rw [CoreCode.exec, henv₁]
      dsimp only
      -- the invariant of the loop: what is assigned before it
      have hloop : ∀ rounds env₂, Le D₁ env₂ →
          (coreLoop test.eval (fun env => body.exec fuel (env.enter vars))
            (CoreSimple.execOption inc) rounds env₂).Fine D₁ env₂ := by
        intro rounds
        induction rounds with
        | zero => exact fun _ _ => trivial
        | succ rounds ih =>
          intro env₂ hle₂
          obtain ⟨v, env₃, hv, hmono₃⟩ := CoreExpr.eval_some hle₂ htest
          have hle₃ := hle₂.trans hmono₃
          rw [coreLoop, hv]
          dsimp only
          split
          · exact ⟨hle₃, hmono₃⟩
          · refine (ihb (hle₃.enter vars) hC).andThen ?_
            intro env₄ hle₄ hmono₄
            have hmono₄ : Le env₃ env₄.tail := hmono₄.tail
            obtain ⟨env₅, henv₅, -, hmono₅⟩ := CoreSimple.execOption_some hle₄.tail hinc
            rw [henv₅]
            have hmono' := (hmono₃.trans hmono₄).trans hmono₅
            exact (ih env₅ (hle₂.trans hmono')).mono hmono'
      have hfine := hloop fuel env₁ hle₁
      revert hfine
      cases coreLoop test.eval (fun env => body.exec fuel (env.enter vars))
          (CoreSimple.execOption inc) fuel env₁ with
      | normal env₂ => exact fun hfine => (ihr hfine.1 h).mono (hmono.trans hfine.2)
      | returned v => exact fun _ => trivial
      | stuck => exact id
      | timeout => exact fun _ => trivial
    · cases h
  | ret value rest ih =>
    cases value with
    | none => trivial
    | some value =>
      rw [CoreCode.check] at h
      split at h
      · next hvalue =>
        obtain ⟨v, env₁, hv, -⟩ := CoreExpr.eval_some hle hvalue
        rw [CoreCode.exec, hv]
        trivial
      · cases h

end B0rk
