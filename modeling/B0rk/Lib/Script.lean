import B0rk.Lib.Attempt
import B0rk.Lib.Reporting

set_option autoImplicit false

/-! # Scripts: what a function that calls others does in turn

A function of a family of functions that call each other and may fail, written out: actions that never
fail, looks at the state, calls that it fails with, and calls whose failure it drops. -/

/-- `σ` are the states, `ε` the actions and `κ` the functions of the family. -/
inductive Script (σ ε κ : Type)
  | done
  | fail
  | act (e : ε) (rest : Script σ ε κ)
  | look (k : σ → Script σ ε κ)
  | call (c : κ) (rest : Script σ ε κ)
  /-- A call whose failure is dropped; the action is for its success. -/
  | attempt (c : κ) (success : Option ε) (rest : Script σ ε κ)

namespace Script

open Attempt Relation

variable {σ ε κ : Type}

section

variable (perform : ε → Attempt σ Unit) (run : κ → Attempt σ Unit)

/-- A call, and the action for its success. -/
def attempted (c : κ) (success : Option ε) : Attempt σ Unit := do
  run c
  success.elim (pure ()) perform

/-- What a script does. -/
def interp : Script σ ε κ → Attempt σ Unit
  | done => pure ()
  | fail => Attempt.fail
  | act e rest => do
      perform e
      interp rest
  | look k => fun s => interp (k s) s
  | call c rest => do
      run c
      interp rest
  | attempt c success rest => do
      let _ ← Attempt.orNull (attempted perform run c success)
      interp rest

/-- A script comes from one state to the rest of it in another one. -/
inductive Reaches : Script σ ε κ → σ → Script σ ε κ → σ → Prop
  | refl {script : Script σ ε κ} {s : σ} : Reaches script s script s
  | act {e : ε} {rest script : Script σ ε κ} {s t u : σ} (he : (perform e).Ok s () t)
      (h : Reaches rest t script u) : Reaches (act e rest) s script u
  | look {k : σ → Script σ ε κ} {script : Script σ ε κ} {s u : σ} (h : Reaches (k s) s script u) :
      Reaches (look k) s script u
  | call {c : κ} {rest script : Script σ ε κ} {s t u : σ} (hc : (run c).Ok s () t)
      (h : Reaches rest t script u) : Reaches (call c rest) s script u
  | attempt {c : κ} {success : Option ε} {rest script : Script σ ε κ} {r : Option Unit} {s t u : σ}
      (hc : (Attempt.orNull (attempted perform run c success)).Ok s r t)
      (h : Reaches rest t script u) : Reaches (attempt c success rest) s script u

/-- The calls that a script comes to, each with its state; `true` for those that are checked. -/
inductive CallsAt (script : Script σ ε κ) (s : σ) : Bool → κ → σ → Prop
  | call {c : κ} {rest : Script σ ε κ} {t : σ} (h : Reaches perform run script s (call c rest) t) :
      CallsAt script s true c t
  | attempt {c : κ} {success : Option ε} {rest : Script σ ε κ} {t : σ}
      (h : Reaches perform run script s (attempt c success rest) t) : CallsAt script s false c t

variable {perform run}

theorem Reaches.trans {script script' script'' : Script σ ε κ} {s t u : σ}
    (h : Reaches perform run script s script' t) (h' : Reaches perform run script' t script'' u) :
    Reaches perform run script s script'' u := by
  induction h with
  | refl => exact h'
  | act he _ ih => exact .act he (ih h')
  | look _ ih => exact .look (ih h')
  | call hc _ ih => exact .call hc (ih h')
  | attempt hc _ ih => exact .attempt hc (ih h')

theorem Reaches.callsAt {script script' : Script σ ε κ} {checked : Bool} {c : κ} {s t u : σ}
    (h : Reaches perform run script s script' t)
    (h' : CallsAt perform run script' t checked c u) : CallsAt perform run script s checked c u := by
  cases h' with
  | call h' => exact .call (h.trans h')
  | attempt h' => exact .attempt (h.trans h')

/-- What is still to come is all that matters. -/
theorem Reaches.interp_eq {script script' : Script σ ε κ} {s t : σ}
    (h : Reaches perform run script s script' t) :
    interp perform run script s = interp perform run script' t := by
  induction h with
  | refl => rfl
  | act he _ ih => exact he.run.trans ih
  | look _ ih => exact ih
  | call hc _ ih => exact hc.run.trans ih
  | attempt hc _ ih => exact hc.run.trans ih

/-- A call whose failure is dropped comes to a result if the script goes on behind it. -/
theorem attempted_returns {c : κ} {success : Option ε} {r : Option Unit} {s t : σ}
    (h : (Attempt.orNull (attempted perform run c success)).Ok s r t) :
    (∃ u, (run c).Ok s () u) ∨ (run c).Fails s := by
  have h' := orNull_ok.mp h
  cases r with
  | none =>
    rcases bind_fails.mp ⟨t, h'⟩ with hc | ⟨_, u, hc, -⟩
    · exact .inr hc
    · exact .inl ⟨u, hc⟩
  | some r =>
    obtain ⟨_, u, hc, -⟩ := bind_ok.mp h'
    exact .inl ⟨u, hc⟩

theorem attempted_ok {c : κ} {success : Option ε} {s t u : σ} (hc : (run c).Ok s () t)
    (hsuccess : (success.elim (pure ()) perform).Ok t () u) :
    (Attempt.orNull (attempted perform run c success)).Ok s (some ()) u :=
  Ok.orNull (hc.bind hsuccess)

/-- A call whose failure would be dropped, where it does not fail. -/
theorem attempt_ok (hperform : ∀ e s, ¬(perform e).Fails s) {c : κ} {success : Option ε}
    {rest : Script σ ε κ} {s t : σ} (h : (interp perform run (attempt c success rest)).Ok s () t)
    (hc : ¬(run c).Fails s) :
    ∃ u v, (run c).Ok s () u ∧ (success.elim (pure ()) perform).Ok u () v ∧
      (interp perform run rest).Ok v () t := by
  obtain ⟨r, v, hr, hrest⟩ := bind_ok.mp h
  cases r with
  | some r =>
    obtain ⟨_, u, hcall, hsuccess⟩ := bind_ok.mp (orNull_ok.mp hr)
    exact ⟨u, v, hcall, hsuccess, hrest⟩
  | none =>
    rcases bind_fails.mp ⟨v, orNull_ok.mp hr⟩ with hfails | ⟨_, u, -, hfails⟩
    · exact absurd hfails hc
    · cases success with
      | none =>
        obtain ⟨w, hw⟩ := hfails
        cases hw
      | some e => exact absurd hfails (hperform e u)

theorem Reaches.ok {script : Script σ ε κ} {s t : σ} (h : Reaches perform run script s done t) :
    (interp perform run script).Ok s () t := h.interp_eq.trans rfl

/-- A script fails where it says so, or with a call. -/
theorem fails_reaches (hperform : ∀ e s, ¬(perform e).Fails s) {script : Script σ ε κ} {s : σ}
    (h : (interp perform run script).Fails s) :
    (∃ t, Reaches perform run script s fail t) ∨
      ∃ c rest t, Reaches perform run script s (call c rest) t ∧ (run c).Fails t := by
  induction script generalizing s with
  | done =>
    obtain ⟨t, ht⟩ := h
    cases ht
  | fail => exact .inl ⟨s, .refl⟩
  | act e rest ih =>
    rcases bind_fails.mp h with he | ⟨_, t, he, h⟩
    · exact absurd he (hperform e s)
    · rcases ih h with ⟨u, hu⟩ | ⟨c, rest', u, hu, hc⟩
      · exact .inl ⟨u, .act he hu⟩
      · exact .inr ⟨c, rest', u, .act he hu, hc⟩
  | look k ih =>
    rcases ih s h with ⟨u, hu⟩ | ⟨c, rest', u, hu, hc⟩
    · exact .inl ⟨u, .look hu⟩
    · exact .inr ⟨c, rest', u, .look hu, hc⟩
  | call c rest ih =>
    rcases bind_fails.mp h with hc | ⟨_, t, hc, h⟩
    · exact .inr ⟨c, rest, s, .refl, hc⟩
    · rcases ih h with ⟨u, hu⟩ | ⟨c', rest', u, hu, hc'⟩
      · exact .inl ⟨u, .call hc hu⟩
      · exact .inr ⟨c', rest', u, .call hc hu, hc'⟩
  | attempt c success rest ih =>
    rcases bind_fails.mp h with hc | ⟨r, t, hc, h⟩
    · exact absurd hc orNull_fails
    · rcases ih h with ⟨u, hu⟩ | ⟨c', rest', u, hu, hc'⟩
      · exact .inl ⟨u, .attempt hc hu⟩
      · exact .inr ⟨c', rest', u, .attempt hc hu, hc'⟩

theorem Reaches.fails {script rest : Script σ ε κ} {c : κ} {s t : σ}
    (h : Reaches perform run script s (.call c rest) t) (hc : (run c).Fails t) :
    (interp perform run script).Fails s := by
  obtain ⟨u, hu⟩ := (hc.bind : (interp perform run (.call c rest)).Fails t)
  exact ⟨u, h.interp_eq.trans hu⟩

theorem Reaches.fails_itself {script : Script σ ε κ} {s t : σ}
    (h : Reaches perform run script s fail t) : (interp perform run script).Fails s :=
  ⟨t, h.interp_eq.trans rfl⟩

end

/-! ## Which function calls which -/

/-- What the functions of a family do, given by scripts. -/
structure Family (σ ε κ : Type) where
  perform : ε → Attempt σ Unit
  run : κ → Attempt σ Unit
  body : κ → Script σ ε κ
  run_eq : ∀ c, run c = interp perform run (body c)
  never_fails : ∀ e s, ¬(perform e).Fails s

namespace Family

variable (F : Family σ ε κ)

/-- The calls whose failure is checked, each with the state that it is made in. -/
def Checks (a b : κ × σ) : Prop := CallsAt F.perform F.run (F.body a.1) a.2 true b.1 b.2

/-- The calls whose failure is dropped. -/
def Drops (a b : κ × σ) : Prop := CallsAt F.perform F.run (F.body a.1) a.2 false b.1 b.2

def Makes : κ × σ → κ × σ → Prop := Reporting.Makes F.Checks F.Drops

def Fails (a : κ × σ) : Prop := (F.run a.1).Fails a.2

/-- A function comes to an error of its own. -/
def Errs (a : κ × σ) : Prop := ∃ t, Reaches F.perform F.run (F.body a.1) a.2 fail t

variable {F}

theorem Checks.fails {a b : κ × σ} (h : F.Checks a b) (hb : F.Fails b) : F.Fails a := by
  obtain ⟨c, t⟩ := b
  show (F.run a.1).Fails a.2
  rw [F.run_eq]
  cases h with
  | call h => exact h.fails hb

theorem Errs.fails {a : κ × σ} (h : F.Errs a) : F.Fails a := by
  obtain ⟨t, h⟩ := h
  show (F.run a.1).Fails a.2
  rw [F.run_eq]
  exact h.fails_itself

/-- A function fails by an error of its own, or with a call that it checks. -/
theorem fails_cases {a : κ × σ} (h : F.Fails a) : F.Errs a ∨ ∃ b, F.Checks a b ∧ F.Fails b := by
  have h' : (interp F.perform F.run (F.body a.1)).Fails a.2 := by
    rw [← F.run_eq]
    exact h
  rcases fails_reaches F.never_fails h' with herr | ⟨c, rest, t, hreach, hc⟩
  · exact .inl herr
  · exact .inr ⟨(c, t), .call hreach, hc⟩

/-- Every failure is reported exactly if nothing is dropped, or there is an error elsewhere. -/
theorem reports_iff (hwf : WellFounded fun b a => F.Checks a b) (a : κ × σ) :
    Reporting.Reports F.Checks F.Drops F.Fails a ↔
      Reporting.NothingDropped F.Checks F.Drops F.Fails a ∨
        ∃ b, ReflTransGen F.Checks a b ∧ F.Errs b := by
  rw [Reporting.reports_iff (fun _ _ h => h.fails) hwf a]
  refine or_congr_right ⟨?_, ?_⟩
  · rintro ⟨b, hab, hb, hself⟩
    rcases fails_cases hb with herr | ⟨c, hbc, hc⟩
    · exact ⟨b, hab, herr⟩
    · exact absurd hc (hself c hbc)
  · rintro ⟨b, hab, herr⟩
    exact Reporting.exists_failsItself hwf
      (Reporting.fails_of_checked (fun _ _ h => h.fails) hab herr.fails)

end Family

/-! ## Errors that do not depend on the state -/

/-- The same calls in the same order, whatever is looked at. -/
inductive SameCalls : Script σ ε κ → Script σ ε κ → Prop
  | done : SameCalls done done
  | fail : SameCalls fail fail
  | act {e e' : ε} {rest rest' : Script σ ε κ} (h : SameCalls rest rest') :
      SameCalls (act e rest) (act e' rest')
  | look {k k' : σ → Script σ ε κ} (h : ∀ s s', SameCalls (k s) (k' s')) :
      SameCalls (look k) (look k')
  | call {c : κ} {rest rest' : Script σ ε κ} (h : SameCalls rest rest') :
      SameCalls (call c rest) (call c rest')
  | attempt {c : κ} {success success' : Option ε} {rest rest' : Script σ ε κ}
      (h : SameCalls rest rest') : SameCalls (attempt c success rest) (attempt c success' rest')

/-- There is an error in a script, or in one that it calls and checks. -/
inductive Refuses (body : κ → Script σ ε κ) : Script σ ε κ → Prop
  | fail : Refuses body fail
  | act {e : ε} {rest : Script σ ε κ} (h : Refuses body rest) : Refuses body (act e rest)
  | look {k : σ → Script σ ε κ} {s : σ} (h : Refuses body (k s)) : Refuses body (look k)
  | call {c : κ} {rest : Script σ ε κ} (h : Refuses body (body c)) : Refuses body (call c rest)
  | callRest {c : κ} {rest : Script σ ε κ} (h : Refuses body rest) : Refuses body (call c rest)
  | attemptRest {c : κ} {success : Option ε} {rest : Script σ ε κ} (h : Refuses body rest) :
      Refuses body (attempt c success rest)

/-- A call that is written in a script; `true` for one that is checked. -/
inductive Mentions : Script σ ε κ → Bool → κ → Prop
  | act {e : ε} {rest : Script σ ε κ} {checked : Bool} {c : κ} (h : Mentions rest checked c) :
      Mentions (act e rest) checked c
  | look {k : σ → Script σ ε κ} {s : σ} {checked : Bool} {c : κ} (h : Mentions (k s) checked c) :
      Mentions (look k) checked c
  | call {c : κ} {rest : Script σ ε κ} : Mentions (call c rest) true c
  | callRest {c c' : κ} {rest : Script σ ε κ} {checked : Bool} (h : Mentions rest checked c') :
      Mentions (call c rest) checked c'
  | attempt {c : κ} {success : Option ε} {rest : Script σ ε κ} :
      Mentions (attempt c success rest) false c
  | attemptRest {c c' : κ} {success : Option ε} {rest : Script σ ε κ} {checked : Bool}
      (h : Mentions rest checked c') : Mentions (attempt c success rest) checked c'

/-- Every call that is written in a script satisfies the predicate. -/
def AllCalls (P : κ → Prop) : Script σ ε κ → Prop
  | done | fail => True
  | act _ rest => AllCalls P rest
  | look k => ∀ s, AllCalls P (k s)
  | call c rest | attempt c _ rest => P c ∧ AllCalls P rest

theorem AllCalls.imp {P Q : κ → Prop} {script : Script σ ε κ} (hPQ : ∀ c, P c → Q c)
    (h : AllCalls P script) : AllCalls Q script := by
  induction script with
  | done | fail => trivial
  | act e rest ih => exact ih h
  | look k ih => exact fun s => ih s (h s)
  | call c rest ih => exact ⟨hPQ c h.1, ih h.2⟩
  | attempt c success rest ih => exact ⟨hPQ c h.1, ih h.2⟩

theorem AllCalls.mentions {P : κ → Prop} {script : Script σ ε κ} {checked : Bool} {c : κ}
    (h : AllCalls P script) (hc : Mentions script checked c) : P c := by
  induction hc with
  | act _ ih => exact ih h
  | look _ ih => exact ih (h _)
  | call => exact h.1
  | callRest _ ih => exact ih h.2
  | attempt => exact h.1
  | attemptRest _ ih => exact ih h.2

section

variable {perform : ε → Attempt σ Unit} {run : κ → Attempt σ Unit}

theorem Reaches.refuses {body : κ → Script σ ε κ} {script script' : Script σ ε κ} {s t : σ}
    (h : Reaches perform run script s script' t) (h' : Refuses body script') :
    Refuses body script := by
  induction h with
  | refl => exact h'
  | act _ _ ih => exact .act (ih h')
  | look _ ih => exact .look (ih h')
  | call _ _ ih => exact .callRest (ih h')
  | attempt _ _ ih => exact .attemptRest (ih h')

theorem Reaches.mentions {script script' : Script σ ε κ} {s t : σ} {checked : Bool} {c : κ}
    (h : Reaches perform run script s script' t) (h' : Mentions script' checked c) :
    Mentions script checked c := by
  induction h with
  | refl => exact h'
  | act _ _ ih => exact .act (ih h')
  | look _ ih => exact .look (ih h')
  | call _ _ ih => exact .callRest (ih h')
  | attempt _ _ ih => exact .attemptRest (ih h')

/-- A call that is written in a script is made by a run that succeeds, and comes to a result. -/
theorem Mentions.made {script script' : Script σ ε κ} {s t : σ} {checked : Bool} {c : κ}
    (h : Mentions script checked c) (hsame : SameCalls script script')
    (hok : (interp perform run script').Ok s () t) :
    ∃ u, CallsAt perform run script' s checked c u ∧
      ((∃ v, (run c).Ok u () v) ∨ checked = false ∧ (run c).Fails u) := by
  induction h generalizing script' s with
  | act _ ih =>
    cases hsame with
    | act hsame =>
      obtain ⟨_, v, he, hok⟩ := bind_ok.mp hok
      obtain ⟨u, hu, hc⟩ := ih hsame hok
      exact ⟨u, (Reaches.act he .refl).callsAt hu, hc⟩
  | look _ ih =>
    cases hsame with
    | look hsame =>
      obtain ⟨u, hu, hc⟩ := ih (hsame _ s) hok
      exact ⟨u, (Reaches.look .refl).callsAt hu, hc⟩
  | call =>
    cases hsame with
    | call hsame =>
      obtain ⟨_, v, hc, -⟩ := bind_ok.mp hok
      exact ⟨s, .call .refl, .inl ⟨v, hc⟩⟩
  | callRest _ ih =>
    cases hsame with
    | call hsame =>
      obtain ⟨_, v, hc', hok⟩ := bind_ok.mp hok
      obtain ⟨u, hu, hc⟩ := ih hsame hok
      exact ⟨u, (Reaches.call hc' .refl).callsAt hu, hc⟩
  | attempt =>
    cases hsame with
    | attempt hsame =>
      obtain ⟨r, v, hr, -⟩ := bind_ok.mp hok
      exact ⟨s, .attempt .refl, (attempted_returns hr).imp_right fun h => ⟨rfl, h⟩⟩
  | attemptRest _ ih =>
    cases hsame with
    | attempt hsame =>
      obtain ⟨r, v, hr, hok⟩ := bind_ok.mp hok
      obtain ⟨u, hu, hc⟩ := ih hsame hok
      exact ⟨u, (Reaches.attempt hr .refl).callsAt hu, hc⟩

theorem CallsAt.mentions {script : Script σ ε κ} {checked : Bool} {c : κ} {s t : σ}
    (h : CallsAt perform run script s checked c t) : Mentions script checked c := by
  cases h with
  | call h => exact h.mentions .call
  | attempt h => exact h.mentions .attempt

end

namespace Family

variable {F : Family σ ε κ}

/-- A function that fails has an error in it. -/
theorem Fails.refuses (hwf : WellFounded fun b a => F.Checks a b) {a : κ × σ} (h : F.Fails a) :
    Refuses F.body (F.body a.1) := by
  induction a using hwf.induction with
  | _ a ih =>
    rcases fails_cases h with ⟨t, herr⟩ | ⟨b, hab, hb⟩
    · exact herr.refuses .fail
    · have hcalled := ih b hab hb
      obtain ⟨c, t⟩ := b
      cases hab with
      | call h => exact h.refuses (.call hcalled)

/-- A script with an error in it does not succeed. -/
theorem refuses_not_ok (hsame : ∀ c, SameCalls (F.body c) (F.body c)) {script script' : Script σ ε κ}
    (h : Refuses F.body script) (hscript : SameCalls script script') (s t : σ) :
    ¬(interp F.perform F.run script').Ok s () t := by
  induction h generalizing script' s t with
  | fail =>
    cases hscript
    simp [interp]
  | act _ ih =>
    cases hscript with
    | act hscript =>
      intro hok
      obtain ⟨_, u, -, hok⟩ := bind_ok.mp hok
      exact ih hscript u t hok
  | look _ ih =>
    cases hscript with
    | look hscript => exact ih (hscript _ s) s t
  | @call c _ _ ih =>
    cases hscript with
    | call =>
      intro hok
      obtain ⟨_, u, hc, -⟩ := bind_ok.mp hok
      rw [F.run_eq] at hc
      exact ih (hsame c) s u hc
  | callRest _ ih =>
    cases hscript with
    | call hscript =>
      intro hok
      obtain ⟨_, u, -, hok⟩ := bind_ok.mp hok
      exact ih hscript u t hok
  | attemptRest _ ih =>
    cases hscript with
    | attempt hscript =>
      intro hok
      obtain ⟨_, u, -, hok⟩ := bind_ok.mp hok
      exact ih hscript u t hok

/-- One function is written in another one, or in one that is. -/
def Contains (F : Family σ ε κ) : κ → κ → Prop :=
  ReflTransGen fun c c' => ∃ checked, Mentions (F.body c) checked c'

/-- What holds of a function, and of each one that is written in one of which it holds. -/
theorem Contains.preserves {P : κ → Prop} (hP : ∀ c, P c → AllCalls P (F.body c)) {c d : κ}
    (h : F.Contains c d) (hc : P c) : P d := by
  induction h with
  | refl => exact hc
  | tail _ hd ih =>
    obtain ⟨checked, hmentions⟩ := hd
    exact (hP _ ih).mentions hmentions

theorem Makes.contains {a b : κ × σ} (h : ReflTransGen F.Makes a b) : F.Contains a.1 b.1 := by
  refine h.lift Prod.fst fun a b hab => ?_
  rcases hab with hchecks | hdrops
  · exact ⟨true, hchecks.mentions⟩
  · exact ⟨false, hdrops.mentions⟩

/-- What a function that succeeds contains is called, or a failure has been dropped before. -/
theorem Contains.made (hsame : ∀ c, SameCalls (F.body c) (F.body c)) {c c' : κ} {s t : σ}
    (h : F.Contains c c') (hok : (F.run c).Ok s () t) :
    (∃ u v, ReflTransGen F.Makes (c, s) (c', u) ∧ (F.run c').Ok u () v) ∨
      ∃ a b, ReflTransGen F.Makes (c, s) a ∧ F.Drops a b ∧ F.Fails b := by
  induction h with
  | refl => exact .inl ⟨s, t, .refl, hok⟩
  | @tail d d' _ hd ih =>
    rcases ih with ⟨u, v, hmakes, hok⟩ | hdropped
    · obtain ⟨checked, hmentions⟩ := hd
      rw [F.run_eq] at hok
      obtain ⟨w, hcalls, ⟨x, hx⟩ | ⟨rfl, hfails⟩⟩ := hmentions.made (hsame d) hok
      · refine .inl ⟨w, x, hmakes.tail ?_, hx⟩
        cases checked with
        | true => exact .inl hcalls
        | false => exact .inr hcalls
      · exact .inr ⟨(d, u), (d', w), hmakes, hcalls, hfails⟩
    · exact .inr hdropped

/-- **A function that succeeds drops no failure if and only if nothing that it contains drops a call
    with an error in it.** -/
theorem nothingDropped_iff (hsame : ∀ c, SameCalls (F.body c) (F.body c))
    (hwf : WellFounded fun b a => F.Checks a b) {c : κ} {s t : σ} (hok : (F.run c).Ok s () t) :
    Reporting.NothingDropped F.Checks F.Drops F.Fails (c, s) ↔
      ∀ d d', F.Contains c d → Mentions (F.body d) false d' → ¬Refuses F.body (F.body d') := by
  constructor
  · intro h d d' hd hmentions hrefuses
    rcases hd.made hsame hok with ⟨u, v, hmakes, hok'⟩ | ⟨a, b, hmakes, hdrops, hfails⟩
    · rw [F.run_eq] at hok'
      obtain ⟨w, hcalls, ⟨x, hx⟩ | ⟨-, hfails⟩⟩ := hmentions.made (hsame d) hok'
      · rw [F.run_eq] at hx
        exact refuses_not_ok hsame hrefuses (hsame d') w x hx
      · exact h (d, u) (d', w) hmakes hcalls hfails
    · exact h a b hmakes hdrops hfails
  · intro h a b hmakes hdrops hfails
    exact h a.1 b.1 (Makes.contains hmakes) hdrops.mentions (hfails.refuses hwf)

end Family

/-! ## Which function does what -/

section

variable (perform : ε → Attempt σ Unit) (run : κ → Attempt σ Unit)

/-- An action that a script comes to, with the states before and behind it. -/
inductive Performs (script : Script σ ε κ) (s : σ) : ε → σ → σ → Prop
  | act {e : ε} {rest : Script σ ε κ} {t u : σ} (h : Reaches perform run script s (act e rest) t)
      (he : (perform e).Ok t () u) : Performs script s e t u
  | success {c : κ} {e : ε} {rest : Script σ ε κ} {t u v : σ}
      (h : Reaches perform run script s (attempt c (some e) rest) t) (hc : (run c).Ok t () u)
      (he : (perform e).Ok u () v) : Performs script s e u v

/-- The first part of a script, from one state to the next. -/
inductive Steps : Script σ ε κ → σ → Script σ ε κ → σ → Prop
  | act {e : ε} {rest : Script σ ε κ} {s t : σ} (he : (perform e).Ok s () t) :
      Steps (act e rest) s rest t
  | look {k : σ → Script σ ε κ} {s : σ} : Steps (look k) s (k s) s
  | call {c : κ} {rest : Script σ ε κ} {s t : σ} (hc : (run c).Ok s () t) :
      Steps (call c rest) s rest t
  | attempt {c : κ} {success : Option ε} {rest : Script σ ε κ} {r : Option Unit} {s t : σ}
      (hc : (Attempt.orNull (attempted perform run c success)).Ok s r t) :
      Steps (attempt c success rest) s rest t

variable {perform run}

theorem Steps.reaches {script rest : Script σ ε κ} {s t : σ}
    (h : Steps perform run script s rest t) : Reaches perform run script s rest t := by
  cases h with
  | act he => exact .act he .refl
  | look => exact .look .refl
  | call hc => exact .call hc .refl
  | attempt hc => exact .attempt hc .refl

theorem Reaches.head {script script' rest : Script σ ε κ} {s t u : σ}
    (h : Reaches perform run script s script' u) (hstep : Steps perform run script s rest t) :
    (script = script' ∧ s = u) ∨ Reaches perform run rest t script' u := by
  cases h with
  | refl => exact .inl ⟨rfl, rfl⟩
  | act he h =>
    cases hstep with
    | act he' => exact .inr ((he.unique he').2 ▸ h)
  | look h =>
    cases hstep with
    | look => exact .inr h
  | call hc h =>
    cases hstep with
    | call hc' => exact .inr ((hc.unique hc').2 ▸ h)
  | attempt hc h =>
    cases hstep with
    | attempt hc' => exact .inr ((hc.unique hc').2 ▸ h)

theorem Reaches.performs {script script' : Script σ ε κ} {e : ε} {s t u v : σ}
    (h : Reaches perform run script s script' t) (h' : Performs perform run script' t e u v) :
    Performs perform run script s e u v := by
  cases h' with
  | act h' he => exact .act (h.trans h') he
  | success h' hc he => exact .success (h.trans h') hc he

end

namespace Family

variable (F : Family σ ε κ)

/-- A function does something itself. -/
def Does (a : κ × σ) : ε → σ → σ → Prop := Performs F.perform F.run (F.body a.1) a.2

/-- What is done from a place in the script of `a`: by `a` itself, or below it. -/
def Traces (a : κ × σ) (script : Script σ ε κ) (s : σ) (b : κ × σ) (e : ε) (t u : σ) : Prop :=
  b = a ∧ Performs F.perform F.run script s e t u ∨
    ∃ checked c v, CallsAt F.perform F.run script s checked c v ∧ ReflTransGen F.Makes (c, v) b ∧
      F.Does b e t u

variable {F} {a b : κ × σ} {e : ε} {rest : Script σ ε κ} {s t u v : σ}

theorem traces_body : F.Traces a (F.body a.1) a.2 b e t u ↔
    ReflTransGen F.Makes a b ∧ F.Does b e t u := by
  constructor
  · rintro (⟨rfl, h⟩ | ⟨checked, c, v, hc, hb, h⟩)
    · exact ⟨.refl, h⟩
    · refine ⟨.head ?_ hb, h⟩
      cases checked with
      | true => exact .inl hc
      | false => exact .inr hc
  · rintro ⟨hb, h⟩
    rcases ReflTransGen.cases_head hb with rfl | ⟨⟨c, v⟩, hc | hc, hb⟩
    · exact .inl ⟨rfl, h⟩
    · exact .inr ⟨true, c, v, hc, hb, h⟩
    · exact .inr ⟨false, c, v, hc, hb, h⟩

/-- Going on at a later place. -/
theorem Traces.of_reaches {script : Script σ ε κ} (hreach : Reaches F.perform F.run script s rest v)
    (h : F.Traces a rest v b e t u) : F.Traces a script s b e t u := by
  rcases h with ⟨rfl, h⟩ | ⟨checked, c, w, hc, hb, h⟩
  · exact .inl ⟨rfl, hreach.performs h⟩
  · exact .inr ⟨checked, c, w, hreach.callsAt hc, hb, h⟩

theorem traces_done : ¬F.Traces a done s b e t u := by
  rintro (⟨-, h⟩ | ⟨_, _, _, h, -⟩)
  · cases h with
    | act h => cases h
    | success h => cases h
  · cases h with
    | call h => cases h
    | attempt h => cases h

/-- What the first part of the script does, and the functions below it. -/
def Heads (F : Family σ ε κ) (a : κ × σ) (script : Script σ ε κ) (s : σ) (b : κ × σ) (e : ε)
    (t u : σ) : Prop :=
  match script with
  | done | fail | look _ => False
  | act e' _ => b = a ∧ e = e' ∧ t = s ∧ (F.perform e').Ok s () u
  | call c _ => ReflTransGen F.Makes (c, s) b ∧ F.Does b e t u
  | attempt c success _ => ReflTransGen F.Makes (c, s) b ∧ F.Does b e t u ∨
      b = a ∧ success = some e ∧ (F.run c).Ok s () t ∧ (F.perform e).Ok t () u

theorem traces_steps {script : Script σ ε κ} (hstep : Steps F.perform F.run script s rest v) :
    F.Traces a script s b e t u ↔ F.Heads a script s b e t u ∨ F.Traces a rest v b e t u := by
  constructor
  · rintro (⟨rfl, h⟩ | ⟨checked, c, w, hc, hb, h⟩)
    · cases h with
      | act h he =>
        rcases h.head hstep with ⟨rfl, rfl⟩ | h
        · exact .inl ⟨rfl, rfl, rfl, he⟩
        · exact .inr (.inl ⟨rfl, .act h he⟩)
      | success h hc he =>
        rcases h.head hstep with ⟨rfl, rfl⟩ | h
        · exact .inl (.inr ⟨rfl, rfl, hc, he⟩)
        · exact .inr (.inl ⟨rfl, .success h hc he⟩)
    · cases hc with
      | call hc =>
        rcases hc.head hstep with ⟨rfl, rfl⟩ | hc
        · exact .inl ⟨hb, h⟩
        · exact .inr (.inr ⟨_, c, w, .call hc, hb, h⟩)
      | attempt hc =>
        rcases hc.head hstep with ⟨rfl, rfl⟩ | hc
        · exact .inl (.inl ⟨hb, h⟩)
        · exact .inr (.inr ⟨_, c, w, .attempt hc, hb, h⟩)
  · rintro (h | h)
    · cases script with
      | done | fail | look => exact h.elim
      | act e' rest =>
        obtain ⟨rfl, rfl, rfl, he⟩ := h
        exact .inl ⟨rfl, .act .refl he⟩
      | call c rest => exact .inr ⟨true, c, s, .call .refl, h⟩
      | attempt c success rest =>
        rcases h with h | ⟨rfl, rfl, hc, he⟩
        · exact .inr ⟨false, c, s, .attempt .refl, h⟩
        · exact .inl ⟨rfl, .success .refl hc he⟩
    · exact h.of_reaches hstep.reaches

end Family

/-- Every action that is written in a script satisfies the predicate. -/
def AllActs (Q : ε → Prop) : Script σ ε κ → Prop
  | done | fail => True
  | act e rest => Q e ∧ AllActs Q rest
  | look k => ∀ s, AllActs Q (k s)
  | call _ rest => AllActs Q rest
  | attempt _ success rest => (∀ e, success = some e → Q e) ∧ AllActs Q rest

/-! ## Runs that drop nothing -/

namespace Family

variable (F : Family σ ε κ)

/-- A script succeeds, and neither it nor what it calls drops a failure. -/
def Succeeds (script : Script σ ε κ) (s t : σ) : Prop :=
  (interp F.perform F.run script).Ok s () t ∧
    ∀ checked c u, CallsAt F.perform F.run script s checked c u →
      Reporting.NothingDropped F.Checks F.Drops F.Fails (c, u) ∧
        (checked = false → ¬F.Fails (c, u))

variable {F} {rest : Script σ ε κ} {c : κ} {e : ε} {s t : σ}

theorem succeeds_body (h : Reporting.NothingDropped F.Checks F.Drops F.Fails (c, s))
    (hok : (F.run c).Ok s () t) : F.Succeeds (F.body c) s t := by
  refine ⟨by rwa [F.run_eq] at hok, fun checked d u hcalls => ?_⟩
  cases checked with
  | true => exact ⟨h.of_makes (.inl hcalls), fun hfalse => by cases hfalse⟩
  | false => exact ⟨h.of_makes (.inr hcalls), fun _ => h (c, s) (d, u) .refl hcalls⟩

theorem Succeeds.run (h : F.Succeeds (F.body c) s t) : (F.run c).Ok s () t := by
  rw [F.run_eq]
  exact h.1

theorem Succeeds.steps {script : Script σ ε κ} {u : σ} (h : F.Succeeds script s t)
    (hstep : Steps F.perform F.run script s rest u) : F.Succeeds rest u t :=
  ⟨hstep.reaches.interp_eq.symm.trans h.1,
    fun checked c v hcalls => h.2 checked c v (hstep.reaches.callsAt hcalls)⟩

theorem Succeeds.act (h : F.Succeeds (act e rest) s t) :
    ∃ u, (F.perform e).Ok s () u ∧ F.Succeeds rest u t := by
  obtain ⟨_, u, he, -⟩ := bind_ok.mp h.1
  exact ⟨u, he, h.steps (.act he)⟩

theorem Succeeds.look {k : σ → Script σ ε κ} (h : F.Succeeds (look k) s t) : F.Succeeds (k s) s t :=
  h.steps .look

theorem Succeeds.call (h : F.Succeeds (call c rest) s t) :
    ∃ u, F.Succeeds (F.body c) s u ∧ F.Succeeds rest u t := by
  obtain ⟨_, u, hc, -⟩ := bind_ok.mp h.1
  exact ⟨u, succeeds_body (h.2 true c s (.call .refl)).1 hc, h.steps (.call hc)⟩

theorem Succeeds.attempt {success : Option ε} (h : F.Succeeds (attempt c success rest) s t) :
    ∃ u v, F.Succeeds (F.body c) s u ∧ (success.elim (pure ()) F.perform).Ok u () v ∧
      F.Succeeds rest v t := by
  obtain ⟨hnothing, hfails⟩ := h.2 false c s (.attempt .refl)
  obtain ⟨u, v, hc, hsuccess, -⟩ := attempt_ok F.never_fails h.1 (hfails rfl)
  exact ⟨u, v, succeeds_body hnothing hc, hsuccess, h.steps (.attempt (attempted_ok hc hsuccess))⟩

/-- What every action keeps, every function keeps. -/
theorem Succeeds.keeps {I : σ → Prop} {Q : ε → Prop} {rank : κ → ℕ}
    (hrank : ∀ c, AllCalls (fun d => rank d < rank c) (F.body c)) (hacts : ∀ c, AllActs Q (F.body c))
    (hkeeps : ∀ e s t, Q e → (F.perform e).Ok s () t → I s → I t) (h : F.Succeeds (F.body c) s t)
    (hs : I s) : I t := by
  induction hn : rank c using Nat.strong_induction_on generalizing c s t with
  | _ n ih =>
    have hscript (script : Script σ ε κ) (hcalls : AllCalls (fun d => rank d < n) script)
        (hacts : AllActs Q script) (s : σ) (h : F.Succeeds script s t) (hs : I s) : I t := by
      induction script generalizing s with
      | done =>
        obtain ⟨-, rfl⟩ := Attempt.pure_ok.mp h.1
        exact hs
      | fail => exact absurd h.1 (by simp [interp])
      | act e rest ih' =>
        obtain ⟨u, he, hrest⟩ := h.act
        exact ih' hcalls hacts.2 u hrest (hkeeps e s u hacts.1 he hs)
      | look k ih' => exact ih' s (hcalls s) (hacts s) s h.look hs
      | call d rest ih' =>
        obtain ⟨u, hd, hrest⟩ := h.call
        exact ih' hcalls.2 hacts u hrest (ih _ hcalls.1 hd hs rfl)
      | attempt d success rest ih' =>
        obtain ⟨u, v, hd, hsuccess, hrest⟩ := h.attempt
        have hu : I u := ih _ hcalls.1 hd hs rfl
        refine ih' hcalls.2 hacts.2 v hrest ?_
        cases success with
        | none =>
          obtain ⟨-, rfl⟩ := Attempt.pure_ok.mp hsuccess
          exact hu
        | some e => exact hkeeps e u v (hacts.1 e rfl) hsuccess hu
    exact hscript (F.body c) (hn ▸ hrank c) (hacts c) s h hs

end Family

end Script
