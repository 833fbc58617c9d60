import Mathlib.Logic.Relation
import Mathlib.Order.WellFounded

set_option autoImplicit false

/-! # Reporting failure

Calls that make other calls. Some calls check what they are told by those they make, and fail with
them; the others drop it. -/

namespace Reporting

open Relation

variable {α : Type} (checks drops : α → α → Prop) (fails : α → Prop)

/-- One of the calls that a call makes. -/
def Makes (a b : α) : Prop := checks a b ∨ drops a b

/-- The call fails, and not because one that it checks does. -/
def FailsItself (a : α) : Prop := fails a ∧ ∀ b, checks a b → ¬fails b

/-- Every failure below a call is reported by it. -/
def Reports (a : α) : Prop := ∀ b, ReflTransGen (Makes checks drops) a b → fails b → fails a

/-- No call below the given one drops a failure. -/
def NothingDropped (a : α) : Prop :=
  ∀ b c, ReflTransGen (Makes checks drops) a b → drops b c → ¬fails c

variable {checks drops fails}

/-- A failure comes up along calls that check. -/
theorem fails_of_checked (hup : ∀ a b, checks a b → fails b → fails a) {a b : α}
    (h : ReflTransGen checks a b) (hb : fails b) : fails a := by
  induction h using ReflTransGen.head_induction_on with
  | refl => exact hb
  | head hab _ ih => exact hup _ _ hab ih

/-- A failure comes from a call that fails itself. -/
theorem exists_failsItself (hwf : WellFounded fun b a => checks a b) {a : α} (ha : fails a) :
    ∃ b, ReflTransGen checks a b ∧ FailsItself checks fails b := by
  induction a using hwf.induction with
  | _ a ih =>
    by_cases hbelow : ∃ b, checks a b ∧ fails b
    · obtain ⟨b, hab, hb⟩ := hbelow
      obtain ⟨c, hbc, hc⟩ := ih b hab hb
      exact ⟨c, .head hab hbc, hc⟩
    · exact ⟨a, .refl, ha, fun b hab hb => hbelow ⟨b, hab, hb⟩⟩

theorem NothingDropped.of_makes {a b : α} (h : NothingDropped checks drops fails a)
    (hab : Makes checks drops a b) : NothingDropped checks drops fails b :=
  fun _ _ hbc => h _ _ (.head hab hbc)

/-- Where nothing is dropped, every failure is reported. -/
theorem NothingDropped.reports (hup : ∀ a b, checks a b → fails b → fails a) {a : α}
    (h : NothingDropped checks drops fails a) : Reports checks drops fails a := by
  intro b hab hb
  induction hab using ReflTransGen.head_induction_on with
  | refl => exact hb
  | head hac _ ih =>
    have hc := ih (h.of_makes hac)
    rcases hac with hchecks | hdrops
    · exact hup _ _ hchecks hc
    · exact absurd hc (h _ _ .refl hdrops)

/-- Every failure is reported exactly if nothing is dropped, or something else fails. -/
theorem reports_iff (hup : ∀ a b, checks a b → fails b → fails a)
    (hwf : WellFounded fun b a => checks a b) (a : α) :
    Reports checks drops fails a ↔ NothingDropped checks drops fails a ∨
      ∃ b, ReflTransGen checks a b ∧ FailsItself checks fails b := by
  constructor
  · intro h
    by_cases ha : fails a
    · exact .inr (exists_failsItself hwf ha)
    · exact .inl fun b c hab hbc hc => ha (h c (hab.tail (.inr hbc)) hc)
  · rintro (h | ⟨b, hab, hb, -⟩)
    · exact h.reports hup
    · exact fun _ _ _ => fails_of_checked hup hab hb

end Reporting
