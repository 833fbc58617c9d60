import Mathlib.Order.Nat

set_option autoImplicit false

/-! # Decoding UTF-8

The checked functions of `utf8.h`. An iterator is the list of the octets from it to the end of the
text; behind the end the buffer is zero. `uint32_t` does not overflow here. -/

namespace B0rk

/-! ## The internal functions -/

/-- `enum utf_error`, without `UTF8_OK`. -/
inductive UtfError
  | notEnoughRoom
  | invalidLead
  | incompleteSequence
  | overlongSequence
  | invalidCodePoint (cp : ℕ)
  deriving DecidableEq, Repr

def isTrail (oc : UInt8) : Bool := oc >>> 6 == 0x2

def isSurrogate (cp : ℕ) : Bool := decide (0xd800 ≤ cp) && decide (cp ≤ 0xdfff)

def isCodePointValid (cp : ℕ) : Bool := decide (cp ≤ 0x10ffff) && !isSurrogate cp

def sequenceLength (lead : UInt8) : ℕ :=
  if lead < 0x80 then 1
  else if lead >>> 5 == 0x6 then 2
  else if lead >>> 4 == 0xe then 3
  else if lead >>> 3 == 0x1e then 4
  else 0

def isOverlongSequence (cp length : ℕ) : Bool :=
  if cp < 0x80 then length != 1
  else if cp < 0x800 then length != 2
  else if cp < 0x10000 then length != 3
  else false

/-- `increase_safely`, with the octet that it arrives at. -/
def increaseSafely : List UInt8 → Except UtfError (ℕ × List UInt8)
  | [] | [_] => .error .notEnoughRoom
  | _ :: oc :: it => if isTrail oc then .ok (oc.toNat, oc :: it) else .error .incompleteSequence

def getSequence1 (it : List UInt8) : Except UtfError (ℕ × List UInt8) :=
  match it with
  | [] => .error .notEnoughRoom
  | oc :: _ => .ok (oc.toNat, it)

def getSequence2 (it : List UInt8) : Except UtfError (ℕ × List UInt8) := do
  let (cp, it) ← getSequence1 it
  let (oc, it) ← increaseSafely it
  .ok (((cp <<< 6) &&& 0x7ff) + (oc &&& 0x3f), it)

def getSequence3 (it : List UInt8) : Except UtfError (ℕ × List UInt8) := do
  let (cp, it) ← getSequence1 it
  let (oc, it) ← increaseSafely it
  let cp := ((cp <<< 12) &&& 0xffff) + ((oc <<< 6) &&& 0xfff)
  let (oc, it) ← increaseSafely it
  .ok (cp + (oc &&& 0x3f), it)

def getSequence4 (it : List UInt8) : Except UtfError (ℕ × List UInt8) := do
  let (cp, it) ← getSequence1 it
  let (oc, it) ← increaseSafely it
  let cp := ((cp <<< 18) &&& 0x1fffff) + ((oc <<< 12) &&& 0x3ffff)
  let (oc, it) ← increaseSafely it
  let cp := cp + ((oc <<< 6) &&& 0xfff)
  let (oc, it) ← increaseSafely it
  .ok (cp + (oc &&& 0x3f), it)

/-- The `switch` of `validate_next`. -/
def getSequence (length : ℕ) (it : List UInt8) : Except UtfError (ℕ × List UInt8) :=
  match length with
  | 0 => .error .invalidLead
  | 1 => getSequence1 it
  | 2 => getSequence2 it
  | 3 => getSequence3 it
  | _ => getSequence4 it

/-- `validate_next`: the code point, and what is behind it. -/
def validateNext (it : List UInt8) : Except UtfError (ℕ × List UInt8) := do
  let length := sequenceLength (it.headD 0)
  let (cp, it) ← getSequence length it
  if isCodePointValid cp then
    if isOverlongSequence cp length then .error .overlongSequence else .ok (cp, it.tail)
  else .error (.invalidCodePoint cp)

/-! ## The library functions -/

/-- The exceptions of the library. -/
inductive Utf8Exception
  | notEnoughRoom
  | invalidUtf8
  | invalidCodePoint (cp : ℕ)
  deriving DecidableEq, Repr

def UtfError.exception : UtfError → Utf8Exception
  | .notEnoughRoom => .notEnoughRoom
  | .invalidLead | .incompleteSequence | .overlongSequence => .invalidUtf8
  | .invalidCodePoint cp => .invalidCodePoint cp

theorem getSequence1_length {it it' : List UInt8} {cp : ℕ} (h : getSequence1 it = .ok (cp, it')) :
    it'.length ≤ it.length ∧ it' ≠ [] := by
  unfold getSequence1 at h
  split at h
  · cases h
  · obtain ⟨-, rfl⟩ := Prod.mk.inj (Except.ok.inj h)
    exact ⟨Nat.le_refl _, List.cons_ne_nil _ _⟩

theorem increaseSafely_length {it it' : List UInt8} {oc : ℕ}
    (h : increaseSafely it = .ok (oc, it')) : it'.length < it.length ∧ it' ≠ [] := by
  unfold increaseSafely at h
  split at h
  · cases h
  · cases h
  · split at h
    · obtain ⟨-, rfl⟩ := Prod.mk.inj (Except.ok.inj h)
      exact ⟨Nat.lt_succ_self _, List.cons_ne_nil _ _⟩
    · cases h

theorem except_bind_ok {ε α β : Type} {x : Except ε α} {f : α → Except ε β} {b : β}
    (h : (x >>= f) = .ok b) : ∃ a, x = .ok a ∧ f a = .ok b := by
  cases x with
  | error e => cases h
  | ok a => exact ⟨a, rfl, h⟩

theorem getSequence_length {length : ℕ} {it it' : List UInt8} {cp : ℕ}
    (h : getSequence length it = .ok (cp, it')) : it'.length ≤ it.length ∧ it' ≠ [] := by
  unfold getSequence at h
  split at h
  · cases h
  · exact getSequence1_length h
  · obtain ⟨⟨_, it₁⟩, h₁, h⟩ := except_bind_ok h
    obtain ⟨⟨_, it₂⟩, h₂, h⟩ := except_bind_ok h
    obtain ⟨-, rfl⟩ := Prod.mk.inj (Except.ok.inj h)
    obtain ⟨hlt, hne⟩ := increaseSafely_length h₂
    exact ⟨hlt.le.trans (getSequence1_length h₁).1, hne⟩
  · obtain ⟨⟨_, it₁⟩, h₁, h⟩ := except_bind_ok h
    obtain ⟨⟨_, it₂⟩, h₂, h⟩ := except_bind_ok h
    obtain ⟨⟨_, it₃⟩, h₃, h⟩ := except_bind_ok h
    obtain ⟨-, rfl⟩ := Prod.mk.inj (Except.ok.inj h)
    obtain ⟨hlt, hne⟩ := increaseSafely_length h₃
    exact ⟨(hlt.trans (increaseSafely_length h₂).1).le.trans (getSequence1_length h₁).1, hne⟩
  · obtain ⟨⟨_, it₁⟩, h₁, h⟩ := except_bind_ok h
    obtain ⟨⟨_, it₂⟩, h₂, h⟩ := except_bind_ok h
    obtain ⟨⟨_, it₃⟩, h₃, h⟩ := except_bind_ok h
    obtain ⟨⟨_, it₄⟩, h₄, h⟩ := except_bind_ok h
    obtain ⟨-, rfl⟩ := Prod.mk.inj (Except.ok.inj h)
    obtain ⟨hlt, hne⟩ := increaseSafely_length h₄
    exact ⟨(hlt.trans ((increaseSafely_length h₃).1.trans (increaseSafely_length h₂).1)).le.trans
      (getSequence1_length h₁).1, hne⟩

/-- A character takes at least one octet. -/
theorem validateNext_length {it it' : List UInt8} {cp : ℕ} (h : validateNext it = .ok (cp, it')) :
    it'.length < it.length := by
  obtain ⟨⟨cp', it₁⟩, hget, h⟩ := except_bind_ok h
  obtain ⟨hle, hne⟩ := getSequence_length hget
  dsimp only at h
  split at h
  · split at h
    · cases h
    · obtain ⟨-, rfl⟩ := Prod.mk.inj (Except.ok.inj h)
      rw [List.length_tail]
      have := List.length_pos_iff.mpr hne
      omega
  · cases h

namespace Utf8

/-- `utf8::next`. What is behind the character is shorter. -/
def next (it : List UInt8) :
    Except Utf8Exception (Char × {it' : List UInt8 // it'.length < it.length}) :=
  match h : validateNext it with
  | .ok (cp, it') => .ok (Char.ofNat cp, ⟨it', validateNext_length h⟩)
  | .error e => .error e.exception

/-- `utf8::peek_next`. -/
def peekNext (it : List UInt8) : Except Utf8Exception Char := (next it).map (·.1)

/-- `utf8::prior(it, end)`, after the character before `it` has been read from `before`. The second
    argument is the end of the text, and not its start: at the end there is no room. -/
def prior (before it : List UInt8) : Except Utf8Exception (List UInt8) :=
  if it.isEmpty then .error .notEnoughRoom else .ok before

end Utf8

end B0rk
