import Mathlib.Data.List.Forall2
import B0rk.Lib.Related
import B0rk.Lib.Reporting

set_option autoImplicit false

/-! # Routines: functions whose calls can be seen

A function of a family of functions that call each other, may fail and return something. What it does
between two calls is any change to the state; a call may be one that the function fails with, or one
whose failure it drops. Run with what the called functions do, a routine is a computation again; besides
that it can be asked for the calls that it makes, and for errors of its own. -/

/-- `σ` are the states, `κ` the functions of the family and `ρ` what they return. -/
inductive Routine (σ κ : Type) (ρ : κ → Type) (α : Type)
  | done (a : α)
  | fail
  | undefined
  | look (k : σ → Routine σ κ ρ α)
  | move (f : σ → σ) (rest : Routine σ κ ρ α)
  /-- A call that the routine fails with, behind some cleaning up. -/
  | call (c : κ) (cleanup : σ → σ) (k : ρ c → Routine σ κ ρ α)
  /-- A call whose failure is dropped. -/
  | attempt (c : κ) (k : Option (ρ c) → Routine σ κ ρ α)

namespace Routine

open Relation

variable {σ κ : Type} {ρ : κ → Type} {α β : Type}

def bind : Routine σ κ ρ α → (α → Routine σ κ ρ β) → Routine σ κ ρ β
  | done a, f => f a
  | fail, _ => fail
  | undefined, _ => undefined
  | look k, f => look fun s => (k s).bind f
  | move g rest, f => move g (rest.bind f)
  | call c cleanup k, f => call c cleanup fun b => (k b).bind f
  | attempt c k, f => attempt c fun b => (k b).bind f

instance : Monad (Routine σ κ ρ) where
  pure := done
  bind := bind

/-- A computation without calls. -/
def lift (x : Attempt σ α) : Routine σ κ ρ α :=
  look fun s =>
    match x s with
    | none => undefined
    | some (none, t) => move (fun _ => t) fail
    | some (some a, t) => move (fun _ => t) (done a)

instance : MonadLift (Attempt σ) (Routine σ κ ρ) := ⟨lift⟩

/-- A call, and nothing else. -/
def calling (c : κ) : Routine σ κ ρ (ρ c) := call c id done

def callingOr (c : κ) (cleanup : σ → σ) : Routine σ κ ρ (ρ c) := call c cleanup done

def attempting (c : κ) : Routine σ κ ρ (Option (ρ c)) := attempt c done

section

variable (run : (c : κ) → Attempt σ (ρ c))

/-- What a routine does. -/
def interp : Routine σ κ ρ α → Attempt σ α
  | done a => pure a
  | fail => Attempt.fail
  | undefined => Attempt.undefined
  | look k => fun s => interp (k s) s
  | move f rest => fun s => interp rest (f s)
  | call c cleanup k => (run c).onFailure cleanup >>= fun b => interp (k b)
  | attempt c k => (run c).orNull >>= fun b => interp (k b)

/-- The calls that a routine makes, each with its state; `true` for those that are checked. -/
def calls : Routine σ κ ρ α → σ → List (Bool × κ × σ)
  | done _, _ | fail, _ | undefined, _ => []
  | look k, s => calls (k s) s
  | move f rest, s => calls rest (f s)
  | call c _ k, s =>
      (true, c, s) ::
        match run c s with
        | some (some b, t) => calls (k b) t
        | _ => []
  | attempt c k, s =>
      (false, c, s) ::
        match run c s with
        | some (b, t) => calls (k b) t
        | none => []

/-- A routine comes to an error of its own. -/
def errs : Routine σ κ ρ α → σ → Bool
  | done _, _ | undefined, _ => false
  | fail, _ => true
  | look k, s => errs (k s) s
  | move f rest, s => errs rest (f s)
  | call c _ k, s =>
      match run c s with
      | some (some b, t) => errs (k b) t
      | _ => false
  | attempt c k, s =>
      match run c s with
      | some (b, t) => errs (k b) t
      | none => false

end

variable {run : (c : κ) → Attempt σ (ρ c)}

/-! ## What routines do -/

theorem interp_lift (x : Attempt σ α) : (liftM x : Routine σ κ ρ α).interp run = x := by
  funext s
  show (match x s with
    | none => undefined
    | some (none, t) => move (fun _ => t) fail
    | some (some a, t) => move (fun _ => t) (done a) : Routine σ κ ρ α).interp run s = x s
  rcases x s with _ | ⟨_ | a, t⟩ <;> rfl

theorem interp_bind (p : Routine σ κ ρ α) (f : α → Routine σ κ ρ β) :
    (p >>= f).interp run = p.interp run >>= fun a => (f a).interp run := by
  show (p.bind f).interp run = _
  induction p with
  | done a => rfl
  | fail => rfl
  | undefined => rfl
  | look k ih =>
    funext s
    show ((k s).bind f).interp run s = ((k s).interp run >>= fun a => (f a).interp run) s
    rw [ih]
  | move g rest ih =>
    funext s
    show (rest.bind f).interp run (g s) = (rest.interp run >>= fun a => (f a).interp run) (g s)
    rw [ih]
  | call c cleanup k ih =>
    show (run c).onFailure cleanup >>= (fun b => ((k b).bind f).interp run) = _ >>= _
    simp only [ih]
    exact (bind_assoc _ _ _).symm
  | attempt c k ih =>
    show (run c).orNull >>= (fun b => ((k b).bind f).interp run) = _ >>= _
    simp only [ih]
    exact (bind_assoc _ _ _).symm

/-- A routine does what a computation does. -/
def Does (run : (c : κ) → Attempt σ (ρ c)) (p : Routine σ κ ρ α) (x : Attempt σ α) : Prop :=
  p.interp run = x

namespace Does

theorem pure (a : α) : Does run (Pure.pure a) (Pure.pure a) := rfl

theorem fail : Does run (fail : Routine σ κ ρ α) Attempt.fail := rfl

theorem undefined : Does run (undefined : Routine σ κ ρ α) Attempt.undefined := rfl

theorem lift (x : Attempt σ α) : Does run (liftM x) x := interp_lift x

theorem call (c : κ) : Does run (calling c) (run c) := by
  show (run c).onFailure id >>= Pure.pure = run c
  rw [Attempt.onFailure_id, bind_pure]

theorem callOr (c : κ) (cleanup : σ → σ) :
    Does run (callingOr c cleanup) ((run c).onFailure cleanup) := bind_pure _

theorem attempt (c : κ) : Does run (attempting c) (run c).orNull := bind_pure _

theorem bind {p : Routine σ κ ρ α} {x : Attempt σ α} (h : Does run p x)
    {f : α → Routine σ κ ρ β} {g : α → Attempt σ β} (hf : ∀ a, Does run (f a) (g a)) :
    Does run (p >>= f) (x >>= g) := by
  unfold Does
  rw [interp_bind, show p.interp run = x from h]
  exact bind_congr hf

theorem ite {c : Prop} [Decidable c] {p q : Routine σ κ ρ α} {x y : Attempt σ α}
    (h : Does run p x) (h' : Does run q y) :
    Does run (if c then p else q) (if c then x else y) := by
  split
  · exact h
  · exact h'

end Does

/-! ## The calls of a sequence -/

theorem calls_lift (x : Attempt σ α) (s : σ) :
    (liftM x : Routine σ κ ρ α).calls run s = [] := by
  show (match x s with
    | none => undefined
    | some (none, t) => move (fun _ => t) fail
    | some (some a, t) => move (fun _ => t) (done a) : Routine σ κ ρ α).calls run s = []
  rcases x s with _ | ⟨_ | a, t⟩ <;> rfl

theorem calls_callingOr (c : κ) (cleanup : σ → σ) (s : σ) :
    (callingOr c cleanup : Routine σ κ ρ (ρ c)).calls run s = [(true, c, s)] := by
  unfold callingOr calls
  rcases run c s with _ | ⟨_ | b, t⟩ <;> rfl

theorem calls_attempting (c : κ) (s : σ) :
    (attempting c : Routine σ κ ρ (Option (ρ c))).calls run s = [(false, c, s)] := by
  unfold attempting calls
  rcases run c s with _ | ⟨b, t⟩ <;> rfl

/-- The calls behind a routine that comes to a result. -/
def callsBehind (run : (c : κ) → Attempt σ (ρ c)) (f : α → Routine σ κ ρ β) :
    Option (Option α × σ) → List (Bool × κ × σ)
  | some (some a, t) => (f a).calls run t
  | _ => []

theorem calls_bind (p : Routine σ κ ρ α) (f : α → Routine σ κ ρ β) (s : σ) :
    (p >>= f).calls run s = p.calls run s ++ callsBehind run f (p.interp run s) := by
  show (p.bind f).calls run s = _
  induction p generalizing s with
  | done a => rfl
  | fail => rfl
  | undefined => rfl
  | look k ih => exact ih s s
  | move g rest ih => exact ih (g s)
  | call c cleanup k ih =>
    simp only [bind, calls, interp, Attempt.bind_run, Attempt.onFailure, List.cons_append]
    rcases run c s with _ | ⟨_ | b, t⟩
    · rfl
    · rfl
    · exact congrArg _ (ih b t)
  | attempt c k ih =>
    simp only [bind, calls, interp, Attempt.bind_run, Attempt.orNull, List.cons_append]
    rcases run c s with _ | ⟨b, t⟩
    · rfl
    · exact congrArg _ (ih b t)

theorem mem_calls_calling (c : κ) (s : σ) :
    (true, c, s) ∈ (calling c : Routine σ κ ρ (ρ c)).calls run s := by
  unfold calling calls
  exact List.mem_cons_self

theorem mem_calls_bind {p : Routine σ κ ρ α} {s : σ} {a : Bool × κ × σ} (h : a ∈ p.calls run s)
    (f : α → Routine σ κ ρ β) : a ∈ (p >>= f).calls run s := by
  rw [calls_bind]
  exact List.mem_append_left _ h

/-- Where a routine comes to a result, so do the calls that it checks. -/
theorem exists_ok_of_calls {p : Routine σ κ ρ α} {s t : σ} {a : α} (h : (p.interp run).Ok s a t)
    {c : κ} {u : σ} (hmem : (true, c, u) ∈ p.calls run s) : ∃ b v, (run c).Ok u b v := by
  induction p generalizing s with
  | done | fail | undefined => cases hmem
  | look k ih => exact ih s h hmem
  | move g rest ih => exact ih h hmem
  | call c' cleanup k ih =>
    obtain ⟨b, v, hb, h⟩ := Attempt.bind_ok.mp h
    have hrun : run c' s = some (some b, v) := Attempt.onFailure_ok.mp hb
    simp only [calls, hrun] at hmem
    rcases List.mem_cons.mp hmem with heq | hmem
    · obtain ⟨-, hcall⟩ := Prod.mk.inj heq
      obtain ⟨rfl, rfl⟩ := Prod.mk.inj hcall
      exact ⟨b, v, hrun⟩
    · exact ih b h hmem
  | attempt c' k ih =>
    obtain ⟨b, v, hb, h⟩ := Attempt.bind_ok.mp h
    simp only [calls, Attempt.orNull_ok.mp hb] at hmem
    rcases List.mem_cons.mp hmem with heq | hmem
    · cases (Prod.mk.inj heq).1
    · exact ih b h hmem

/-! ## Routines in step -/

/-- The same call, in related states, and one that comes to something good. -/
def SameCall {τ : Type} (good : σ → Prop) (R : σ → τ → Prop) (run : (c : κ) → Attempt σ (ρ c))
    (a : Bool × κ × σ) (b : Bool × κ × τ) : Prop :=
  a.1 = b.1 ∧ a.2.1 = b.2.1 ∧ R a.2.2 b.2.2 ∧ (run a.2.1).Comes good a.2.2

/-- Where the first routine comes to something good, the second one does the same, and makes the same
    calls. All calls of the first satisfy `Φ`. -/
structure Follows {τ : Type} (Φ : κ → Prop) (good : σ → Prop) (R : σ → τ → Prop)
    (run : (c : κ) → Attempt σ (ρ c)) (run' : (c : κ) → Attempt τ (ρ c)) (p : Routine σ κ ρ α)
    (q : Routine τ κ ρ α) : Prop where
  interp : (p.interp run).Follows good R (q.interp run')
  calls : ∀ s t, R s t → (p.interp run).Comes good s →
    List.Forall₂ (SameCall good R run) (p.calls run s) (q.calls run' t)
  satisfy : ∀ s, ∀ a ∈ p.calls run s, Φ a.2.1

namespace Follows

variable {τ : Type} {Φ : κ → Prop} {good : σ → Prop} {R : σ → τ → Prop}
  {run' : (c : κ) → Attempt τ (ρ c)}

theorem pure (a : α) : Follows (ρ := ρ) Φ good R run run' (Pure.pure a) (Pure.pure a) where
  interp := .pure a
  calls _ _ _ _ := .nil
  satisfy _ _ h := nomatch h

theorem fail : Follows (ρ := ρ) (α := α) Φ good R run run' .fail .fail where
  interp := .fail
  calls _ _ _ _ := .nil
  satisfy _ _ h := nomatch h

theorem undefined : Follows (ρ := ρ) (α := α) Φ good R run run' .undefined .undefined where
  interp := .undefined
  calls _ _ _ _ := .nil
  satisfy _ _ h := nomatch h

theorem lift {x : Attempt σ α} {y : Attempt τ α} (h : x.Follows good R y) :
    Follows (ρ := ρ) Φ good R run run' (liftM x) (liftM y) where
  interp := by
    rw [interp_lift, interp_lift]
    exact h
  calls s t _ _ := by
    rw [calls_lift, calls_lift]
    exact .nil
  satisfy s a ha := by
    rw [calls_lift] at ha
    cases ha

theorem bind {p : Routine σ κ ρ α} {q : Routine τ κ ρ α} (h : Follows Φ good R run run' p q)
    {f : α → Routine σ κ ρ β} {g : α → Routine τ κ ρ β}
    (hf : ∀ a, Follows Φ good R run run' (f a) (g a)) :
    Follows Φ good R run run' (p >>= f) (q >>= g) where
  interp := by
    rw [interp_bind, interp_bind]
    exact h.interp.bind fun a => (hf a).interp
  calls s t hR hcomes := by
    rw [interp_bind] at hcomes
    rw [calls_bind, calls_bind]
    obtain ⟨b, s', hrun, hgood⟩ := hcomes
    rw [Attempt.bind_run] at hrun
    rcases hp : p.interp run s with _ | ⟨_ | a, u⟩ <;> rw [hp] at hrun
    · cases hrun
    · obtain ⟨-, rfl⟩ := Prod.mk.inj (Option.some.inj hrun)
      obtain ⟨t', hq, -⟩ := h.interp.run s t hR none u hp hgood
      rw [hq]
      exact List.rel_append (h.calls s t hR ⟨none, u, hp, hgood⟩) .nil
    · have hu : good u := (hf a).interp.back u b s' hrun hgood
      obtain ⟨v, hq, hR'⟩ := h.interp.run s t hR (some a) u hp hu
      rw [hq]
      exact List.rel_append (h.calls s t hR ⟨some a, u, hp, hu⟩)
        ((hf a).calls u v hR' ⟨b, s', hrun, hgood⟩)
  satisfy s a ha := by
    rw [calls_bind] at ha
    rcases List.mem_append.mp ha with ha | ha
    · exact h.satisfy s a ha
    · rcases hp : p.interp run s with _ | ⟨_ | b, u⟩ <;> rw [hp] at ha
      · cases ha
      · cases ha
      · exact (hf b).satisfy u a ha

theorem ite {c : Prop} [Decidable c] {p p' : Routine σ κ ρ α} {q q' : Routine τ κ ρ α}
    (h : Follows Φ good R run run' p q) (h' : Follows Φ good R run run' p' q') :
    Follows Φ good R run run' (if c then p else p') (if c then q else q') := by
  split
  · exact h
  · exact h'

variable (hcalls : ∀ c, Φ c → (run c).Follows good R (run' c))

include hcalls

theorem callOr {c : κ} (hc : Φ c) {f : σ → σ} {g : τ → τ} (hback : ∀ s, good (f s) → good s)
    (h : ∀ s t, R s t → R (f s) (g t)) :
    Follows Φ good R run run' (callingOr c f) (callingOr c g) where
  interp := by
    rw [Does.callOr c f, Does.callOr c g]
    exact (hcalls c hc).onFailure hback h
  calls s t hR hcomes := by
    rw [Does.callOr c f] at hcomes
    rw [calls_callingOr, calls_callingOr]
    exact .cons ⟨rfl, rfl, hR, hcomes.of_onFailure hback⟩ .nil
  satisfy s a ha := by
    rw [calls_callingOr] at ha
    obtain rfl := List.mem_singleton.mp ha
    exact hc

theorem call {c : κ} (hc : Φ c) : Follows Φ good R run run' (calling c) (calling c) :=
  callOr hcalls hc (fun _ hgood => hgood) fun _ _ hR => hR

theorem attempt {c : κ} (hc : Φ c) : Follows Φ good R run run' (attempting c) (attempting c) where
  interp := by
    rw [Does.attempt c, Does.attempt c]
    exact (hcalls c hc).orNull
  calls s t hR hcomes := by
    rw [Does.attempt c] at hcomes
    rw [calls_attempting, calls_attempting]
    exact .cons ⟨rfl, rfl, hR, hcomes.of_orNull⟩ .nil
  satisfy s a ha := by
    rw [calls_attempting] at ha
    obtain rfl := List.mem_singleton.mp ha
    exact hc

end Follows

/-! ## Failure -/

/-- A routine fails by an error of its own, or with a call that it checks. -/
theorem fails_iff {p : Routine σ κ ρ α} {s : σ} :
    (p.interp run).Fails s ↔
      p.errs run s = true ∨ ∃ c t, (true, c, t) ∈ p.calls run s ∧ (run c).Fails t := by
  induction p generalizing s with
  | done a => simp [interp, errs, calls, Attempt.Fails, pure]
  | fail => simp [interp, errs, Attempt.fail_fails]
  | undefined => simp [interp, errs, calls, Attempt.Fails, Attempt.undefined]
  | look k ih => exact ih s
  | move f rest ih => exact ih
  | call c cleanup k ih =>
    simp only [interp, Attempt.bind_fails, Attempt.onFailure_fails, Attempt.onFailure_ok]
    rcases hrun : run c s with _ | ⟨_ | b, t⟩
    · have hfails : ¬(run c).Fails s := by simp [Attempt.Fails, hrun]
      have hok : ∀ a t, ¬(run c).Ok s a t := by simp [Attempt.Ok, hrun]
      simp [errs, calls, hrun, hfails, hok]
    · have hfails : (run c).Fails s := ⟨t, hrun⟩
      exact iff_of_true (.inl hfails) (.inr ⟨c, s, by simp [calls], hfails⟩)
    · have hfails : ¬(run c).Fails s := by simp [Attempt.Fails, hrun]
      have hok : ∀ a u, (run c).Ok s a u ↔ b = a ∧ t = u := by simp [Attempt.Ok, hrun]
      have hmem : ∀ c' u, (true, c', u) ∈ calls run (call c cleanup k) s ∧ (run c').Fails u ↔
          (true, c', u) ∈ calls run (k b) t ∧ (run c').Fails u := by
        intro c' u
        simp only [calls, hrun, List.mem_cons]
        refine and_congr_left fun hu => or_iff_right ?_
        rintro ⟨⟩
        exact hfails hu
      simp [errs, hmem, hrun, hfails, hok, ih]
  | attempt c k ih =>
    simp only [interp, Attempt.bind_fails, Attempt.orNull_fails, Attempt.orNull_ok, false_or]
    rcases hrun : run c s with _ | ⟨b, t⟩
    · simp [errs, calls, hrun]
    · simp [errs, calls, hrun, ih]

/-! ## The same calls under other names -/

section

variable {κ' : Type} {ρ' : κ' → Type} (f : κ → κ')

def mapCalls : Routine σ κ (fun c => ρ' (f c)) α → Routine σ κ' ρ' α
  | done a => done a
  | fail => fail
  | undefined => undefined
  | look k => look fun s => (k s).mapCalls
  | move g rest => move g rest.mapCalls
  | call c cleanup k => call (f c) cleanup fun b => (k b).mapCalls
  | attempt c k => attempt (f c) fun b => (k b).mapCalls

variable {f} {run' : (c : κ') → Attempt σ (ρ' c)} (p : Routine σ κ (fun c => ρ' (f c)) α)

theorem interp_mapCalls :
    (p.mapCalls f).interp run' = p.interp fun c => run' (f c) := by
  induction p with
  | done a => rfl
  | fail => rfl
  | undefined => rfl
  | look k ih => exact funext fun s => congrFun (ih s) s
  | move g rest ih => exact funext fun s => congrFun ih (g s)
  | call c cleanup k ih => exact congrArg _ (funext ih)
  | attempt c k ih => exact congrArg _ (funext ih)

theorem calls_mapCalls (s : σ) :
    (p.mapCalls f).calls run' s =
      (p.calls (fun c => run' (f c)) s).map fun a => (a.1, f a.2.1, a.2.2) := by
  induction p generalizing s with
  | done a => rfl
  | fail => rfl
  | undefined => rfl
  | look k ih => exact ih s s
  | move g rest ih => exact ih (g s)
  | call c cleanup k ih =>
    simp only [mapCalls, calls, List.map_cons]
    rcases run' (f c) s with _ | ⟨_ | b, t⟩
    · rfl
    · rfl
    · exact congrArg _ (ih b t)
  | attempt c k ih =>
    simp only [mapCalls, calls, List.map_cons]
    rcases run' (f c) s with _ | ⟨b, t⟩
    · rfl
    · exact congrArg _ (ih b t)

end

/-! ## Which function calls which -/

/-- What the functions of a family do, given by routines. -/
structure Family (σ κ : Type) (ρ : κ → Type) where
  run : (c : κ) → Attempt σ (ρ c)
  body : (c : κ) → Routine σ κ ρ (ρ c)
  run_eq : ∀ c, run c = (body c).interp run

namespace Family

variable (F : Family σ κ ρ)

/-- The calls whose failure is checked, each with the state that it is made in. -/
def Checks (a b : κ × σ) : Prop := (true, b) ∈ (F.body a.1).calls F.run a.2

/-- The calls whose failure is dropped. -/
def Drops (a b : κ × σ) : Prop := (false, b) ∈ (F.body a.1).calls F.run a.2

def Makes : κ × σ → κ × σ → Prop := Reporting.Makes F.Checks F.Drops

def Fails (a : κ × σ) : Prop := (F.run a.1).Fails a.2

/-- A function comes to an error of its own. -/
def Errs (a : κ × σ) : Prop := (F.body a.1).errs F.run a.2 = true

/-- A function comes to a result. -/
def Succeeds (a : κ × σ) : Prop := ∃ b t, (F.run a.1).Ok a.2 b t

/-- There is an error in a call, or in one whose failure is passed on to it. -/
def Malformed (a : κ × σ) : Prop := ∃ b, ReflTransGen F.Checks a b ∧ F.Errs b

/-- A call at most so far below the given one fails. -/
def failsBelow : ℕ → κ × σ → Bool
  | 0, a => (F.run a.1).failsFrom a.2
  | n + 1, a =>
      (F.run a.1).failsFrom a.2 || ((F.body a.1).calls F.run a.2).any fun b => failsBelow n b.2

variable {F}

theorem Succeeds.of_checks {a b : κ × σ} (h : F.Succeeds a)
    (hreach : ReflTransGen F.Checks a b) : F.Succeeds b := by
  induction hreach with
  | refl => exact h
  | tail _ hcall ih =>
    obtain ⟨r, t, hrun⟩ := ih
    rw [F.run_eq] at hrun
    exact exists_ok_of_calls hrun hcall

theorem exists_of_failsBelow {n : ℕ} {a : κ × σ} (h : F.failsBelow n a = true) :
    ∃ b, ReflTransGen F.Makes a b ∧ F.Fails b := by
  induction n generalizing a with
  | zero => exact ⟨a, .refl, Attempt.failsFrom_iff.mp h⟩
  | succ n ih =>
    rcases Bool.or_eq_true_iff.mp h with h | h
    · exact ⟨a, .refl, Attempt.failsFrom_iff.mp h⟩
    · obtain ⟨⟨checked, b⟩, hmem, hbelow⟩ := List.any_eq_true.mp h
      obtain ⟨c, hbc, hc⟩ := ih hbelow
      have hab : F.Makes a b := by
        cases checked with
        | true => exact .inl hmem
        | false => exact .inr hmem
      exact ⟨c, .head hab hbc, hc⟩

theorem fails_cases {a : κ × σ} : F.Fails a ↔ F.Errs a ∨ ∃ b, F.Checks a b ∧ F.Fails b := by
  unfold Fails
  rw [F.run_eq, fails_iff]
  refine or_congr_right ⟨?_, ?_⟩
  · rintro ⟨c, t, hmem, hfails⟩
    exact ⟨(c, t), hmem, hfails⟩
  · rintro ⟨⟨c, t⟩, hmem, hfails⟩
    exact ⟨c, t, hmem, hfails⟩

theorem Checks.fails {a b : κ × σ} (h : F.Checks a b) (hb : F.Fails b) : F.Fails a :=
  fails_cases.mpr (.inr ⟨b, h, hb⟩)

/-- What fails are the calls with an error in them. -/
theorem fails_iff_malformed (hwf : WellFounded fun b a => F.Checks a b) {a : κ × σ} :
    F.Fails a ↔ F.Malformed a := by
  constructor
  · intro ha
    obtain ⟨b, hab, hb, hself⟩ := Reporting.exists_failsItself hwf ha
    rcases fails_cases.mp hb with herrs | ⟨c, hbc, hc⟩
    · exact ⟨b, hab, herrs⟩
    · exact absurd hc (hself c hbc)
  · rintro ⟨b, hab, herrs⟩
    exact Reporting.fails_of_checked (fun _ _ h => h.fails) hab (fails_cases.mpr (.inl herrs))

/-- Every failure is reported exactly if nothing malformed is dropped, or there is an error elsewhere. -/
theorem reports_iff (hwf : WellFounded fun b a => F.Checks a b) (a : κ × σ) :
    Reporting.Reports F.Checks F.Drops F.Fails a ↔
      (∀ b c, ReflTransGen F.Makes a b → F.Drops b c → ¬F.Malformed c) ∨ F.Malformed a := by
  have hself : (∃ b, ReflTransGen F.Checks a b ∧ Reporting.FailsItself F.Checks F.Fails b) ↔
      F.Fails a := by
    refine ⟨?_, Reporting.exists_failsItself hwf⟩
    rintro ⟨b, hab, hb, -⟩
    exact Reporting.fails_of_checked (fun _ _ h => h.fails) hab hb
  rw [Reporting.reports_iff (fun _ _ h => h.fails) hwf a, hself]
  simp only [Reporting.NothingDropped, fails_iff_malformed hwf]
  rfl

end Family

end Routine
