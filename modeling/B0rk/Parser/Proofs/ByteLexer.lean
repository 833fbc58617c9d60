import Mathlib.Logic.Relation
import B0rk.Lib.Scan
import B0rk.Parser.ByteLexer

set_option autoImplicit false

/-! # When the lexer throws

Nothing in the lexer catches an exception of the decoder, and most of its loops do not look for the end
of the text. `Cut` says what a text ends in when one of them runs into the end or into octets that are
no character, `Item` what the lexer gets past; the lexer returns if and only if no `Cut` comes behind
any number of items: `lexer_returns_iff`. -/

namespace B0rk.ByteLexer

open Scan

/-! ## Decoding -/

/-- At `p` there is the character `c`, and `q` is behind it. -/
def Decodes (p : List UInt8) (c : Char) (q : List UInt8) : Prop :=
  ∃ h, Utf8.next p = .ok (c, ⟨q, h⟩)

/-- At `p` the text ends, or has octets that are no character. -/
def Stuck (p : List UInt8) : Prop := ∃ e, Utf8.next p = .error e

theorem Decodes.length {p q : List UInt8} {c : Char} (h : Decodes p c q) : q.length < p.length := h.1

theorem stuck_or_decodes (p : List UInt8) : Stuck p ∨ ∃ c q, Decodes p c q := by
  cases h : Utf8.next p with
  | error e => exact .inl ⟨e, h⟩
  | ok r => exact .inr ⟨r.1, r.2.1, r.2.2, h⟩

theorem Decodes.not_stuck {p q : List UInt8} {c : Char} (h : Decodes p c q) : ¬Stuck p := by
  rintro ⟨e, he⟩
  obtain ⟨_, h⟩ := h
  rw [h] at he
  cases he

theorem stuck_nil : Stuck [] := ⟨.notEnoughRoom, rfl⟩

theorem Decodes.ne_nil {p q : List UInt8} {c : Char} (h : Decodes p c q) : p ≠ [] := by
  rintro rfl
  exact h.not_stuck stuck_nil

theorem Decodes.unique {p q q' : List UInt8} {c c' : Char} (h : Decodes p c q)
    (h' : Decodes p c' q') : c = c' ∧ q = q' := by
  obtain ⟨_, h⟩ := h
  obtain ⟨_, h'⟩ := h'
  rw [h] at h'
  cases h'
  exact ⟨rfl, rfl⟩

theorem Scans.exists_octets {σ : Type} (step : σ → Char → Option σ) (s : σ) (p : List UInt8) :
    ∃ cs t r, Scans Decodes step s p cs t r :=
  Scan.Scans.exists List.length (fun _ _ _ h => h.length) s p

theorem Scans.length_le {σ : Type} {step : σ → Char → Option σ} {s t : σ} {p r : List UInt8}
    {cs : List Char} (h : Scans Decodes step s p cs t r) : r.length ≤ p.length :=
  h.size_le List.length fun _ _ _ h => h.length

/-! ## What the loops go over -/

/-- Every character with this property. -/
def whileStep (P : Char → Bool) : Unit → Char → Option Unit :=
  fun _ c => if P c then some () else none

/-- The characters that do not end a `//` comment. -/
def notLineEnd (c : Char) : Bool := !(c == '\n' || c == '\r' || c == '\x00')

/-- The characters of a `/*` comment. The state is whether a star has been read; what is behind a star
    is skipped, even if it is another star or zero. -/
def commentStep : Bool → Char → Option Bool
  | false, c => if c = '*' then some true else if c = '\x00' then none else some false
  | true, c => if c = '/' then none else some false

/-- The characters of a number, after those of `str`. -/
def numberStep (str : List Char) (c : Char) : Option (List Char) :=
  if c = '-' ∧ str = [] ∨ c = '.' ∧ '.' ∉ str ∨ c.isDigit = true then some (str ++ [c]) else none

/-- The characters of a string. The state is whether a backslash has been read. -/
def stringStep : Bool → Char → Option Bool
  | false, c => if c = '\\' then some true else if c = '"' then none else some false
  | true, c => if c = 'n' then some false else none

/-- `p` begins with the character `c`, which is not zero, and `next` is the lookahead behind it. -/
structure Begins (p : List UInt8) (c next : Char) (q : List UInt8) : Prop where
  decodes : Decodes p c q
  ne_zero : c ≠ '\x00'
  ahead : lookahead q = .ok next

def NumberStart (c next : Char) : Prop := c.isDigit = true ∨ c = '-' ∧ next.isDigit = true

/-- The first character of a token or an identifier. -/
structure WordStart (c next : Char) : Prop where
  comment : ¬(c = '/' ∧ (next = '/' ∨ next = '*'))
  space : isSpace c = false
  number : ¬NumberStart c next
  quote : c ≠ '"'

/-- What the lexer gets past in one round, from `p` to the second place. -/
inductive Item : List UInt8 → List UInt8 → Prop
  | space {p q : List UInt8} {c next : Char} : Begins p c next q → isSpace c = true → Item p q
  /-- a `//` comment, with an end -/
  | lineComment {p q q' r : List UInt8} {cs : List Char} {u : Unit} : Begins p '/' '/' q →
      Decodes q '/' q' → Scans Decodes (whileStep notLineEnd) () q' cs u r → ¬Stuck r → Item p r
  | blockComment {p q q' r r' : List UInt8} {cs : List Char} : Begins p '/' '*' q →
      Decodes q '*' q' → Scans Decodes commentStep false q' cs true r → Decodes r '/' r' → Item p r'
  /-- a zero ends a comment too -/
  | openComment {p q q' r : List UInt8} {cs : List Char} : Begins p '/' '*' q →
      Decodes q '*' q' → Scans Decodes commentStep false q' cs false r → ¬Stuck r → Item p r
  /-- a number, with a character behind it that is not the last octet -/
  | number {p q r r' : List UInt8} {c next d : Char} {cs str : List Char} : Begins p c next q →
      NumberStart c next → Scans Decodes numberStep [] p cs str r → Decodes r d r' →
      d ≠ 'e' ∧ d ≠ 'E' → r' ≠ [] → Item p r
  | exponent {p q r r' s t t' : List UInt8} {c next d sign d' : Char} {cs str cs' : List Char}
      {u : Unit} : Begins p c next q → NumberStart c next →
      Scans Decodes numberStep [] p cs str r → Decodes r d r' → d = 'e' ∨ d = 'E' →
      Decodes r' sign s → sign = '-' ∨ sign = '+' →
      Scans Decodes (whileStep Char.isDigit) () s cs' u t → Decodes t d' t' → t' ≠ [] → Item p t
  | string {p q r r' : List UInt8} {next : Char} {cs : List Char} : Begins p '"' next q →
      Scans Decodes stringStep false q cs false r → Decodes r '"' r' → Item p r'
  /-- a string may be open at the end of the text -/
  | openString {p q : List UInt8} {next : Char} {cs : List Char} : Begins p '"' next q →
      Scans Decodes stringStep false q cs false [] → Item p []
  | token {p q r : List UInt8} {c next : Char} {token : SimpleToken} : Begins p c next q →
      WordStart c next → matchToken p = some (token, r) → Item p r
  | identifier {p q r : List UInt8} {c next : Char} {cs : List Char} {u : Unit} :
      Begins p c next q → WordStart c next → matchToken p = none → isIdentifierChar c = true →
      Scans Decodes (whileStep isIdentifierChar) () q cs u r → r = [] ∨ ¬Stuck r → Item p r

/-- What the lexer does not get past. -/
inductive Cut : List UInt8 → Prop
  | undecodable {p : List UInt8} : p ≠ [] → Stuck p → Cut p
  /-- the lookahead, unless it is the last octet -/
  | lookahead {p q : List UInt8} {c : Char} : Decodes p c q → c ≠ '\x00' → 2 ≤ q.length →
      Stuck q → Cut p
  | lineComment {p q q' r : List UInt8} {cs : List Char} {u : Unit} : Begins p '/' '/' q →
      Decodes q '/' q' → Scans Decodes (whileStep notLineEnd) () q' cs u r → Stuck r → Cut p
  | blockComment {p q q' r : List UInt8} {cs : List Char} {star : Bool} : Begins p '/' '*' q →
      Decodes q '*' q' → Scans Decodes commentStep false q' cs star r → Stuck r → Cut p
  | number {p q r : List UInt8} {c next : Char} {cs str : List Char} : Begins p c next q →
      NumberStart c next → Scans Decodes numberStep [] p cs str r → Stuck r → Cut p
  /-- a number with only one character behind it -/
  | numberLast {p q r : List UInt8} {c next d : Char} {cs str : List Char} : Begins p c next q →
      NumberStart c next → Scans Decodes numberStep [] p cs str r → Decodes r d [] →
      d ≠ 'e' ∧ d ≠ 'E' → Cut p
  | exponent {p q r r' : List UInt8} {c next d : Char} {cs str : List Char} : Begins p c next q →
      NumberStart c next → Scans Decodes numberStep [] p cs str r → Decodes r d r' →
      d = 'e' ∨ d = 'E' → Stuck r' → Cut p
  | exponentDigits {p q r r' s t : List UInt8} {c next d sign : Char} {cs str cs' : List Char}
      {u : Unit} : Begins p c next q → NumberStart c next →
      Scans Decodes numberStep [] p cs str r → Decodes r d r' → d = 'e' ∨ d = 'E' →
      Decodes r' sign s → sign = '-' ∨ sign = '+' →
      Scans Decodes (whileStep Char.isDigit) () s cs' u t → Stuck t → Cut p
  | exponentLast {p q r r' s t : List UInt8} {c next d sign d' : Char} {cs str cs' : List Char}
      {u : Unit} : Begins p c next q → NumberStart c next →
      Scans Decodes numberStep [] p cs str r → Decodes r d r' → d = 'e' ∨ d = 'E' →
      Decodes r' sign s → sign = '-' ∨ sign = '+' →
      Scans Decodes (whileStep Char.isDigit) () s cs' u t → Decodes t d' [] → Cut p
  /-- in a string, or behind a backslash in one -/
  | string {p q r : List UInt8} {next : Char} {cs : List Char} {backslash : Bool} :
      Begins p '"' next q → Scans Decodes stringStep false q cs backslash r → Stuck r →
      r ≠ [] ∨ backslash = true → Cut p
  | identifier {p q r : List UInt8} {c next : Char} {cs : List Char} {u : Unit} :
      Begins p c next q → WordStart c next → matchToken p = none → isIdentifierChar c = true →
      Scans Decodes (whileStep isIdentifierChar) () q cs u r → Stuck r → r ≠ [] → Cut p

/-! ## What the loops come to -/

section

variable {p q r : List UInt8} {c : Char} {cs : List Char} {u u' : Unit}

theorem whileStep_none {P : Char → Bool} : whileStep P u c = none ↔ P c = false := by
  unfold whileStep
  split <;> simp_all

theorem whileStep_some {P : Char → Bool} : whileStep P u c = some u' ↔ P c = true := by
  unfold whileStep
  split <;> simp_all

theorem notLineEnd_iff : notLineEnd c = false ↔ c = '\n' ∨ c = '\r' ∨ c = '\x00' := by
  rw [notLineEnd, Bool.not_eq_false', Bool.or_eq_true, Bool.or_eq_true, beq_iff_eq, beq_iff_eq,
    beq_iff_eq, or_assoc]

theorem skipLine_scans (h : Scans Decodes (whileStep notLineEnd) u p cs u' r) :
    (Stuck r → ∃ e, skipLine p = .error e) ∧ (¬Stuck r → skipLine p = .ok r) := by
  induction h with
  | @halt u p hhalt =>
    rw [skipLine]
    rcases stuck_or_decodes p with ⟨e, he⟩ | ⟨c, q, hread⟩
    · rw [he]
      exact ⟨fun _ => ⟨e, rfl⟩, fun hnot => (hnot ⟨e, he⟩).elim⟩
    · have hend := notLineEnd_iff.mp (whileStep_none.mp (hhalt c q hread))
      obtain ⟨hlt, hnext⟩ := hread
      rw [hnext]
      exact ⟨fun hstuck => (Decodes.not_stuck ⟨hlt, hnext⟩ hstuck).elim, fun _ => if_pos hend⟩
  | go hread hstep _ ih =>
    have hgo : ¬(_ = '\n' ∨ _ = '\r' ∨ _ = '\x00') := fun hend => by
      have := whileStep_some.mp hstep
      rw [notLineEnd_iff.mpr hend] at this
      cases this
    obtain ⟨hlt, hnext⟩ := hread
    rw [skipLine, hnext]
    simp only [if_neg hgo]
    exact ih

theorem scanExponent_scans (h : Scans Decodes (whileStep Char.isDigit) u p cs u' r)
    (exponent : List Char) :
    (Stuck r → ∃ e, scanExponent exponent p = .error e) ∧
      ∀ c q, Decodes r c q → (q = [] → ∃ e, scanExponent exponent p = .error e) ∧
        (q ≠ [] → ∃ exponent', scanExponent exponent p = .ok (exponent', r)) := by
  induction h generalizing exponent with
  | @halt u p hhalt =>
    rw [scanExponent]
    constructor
    · rintro ⟨e, he⟩
      rw [he]
      exact ⟨e, rfl⟩
    · intro c q hread
      have hend : ¬c.isDigit = true := by
        rw [Bool.not_eq_true]
        exact whileStep_none.mp (hhalt c q hread)
      obtain ⟨hlt, hnext⟩ := hread
      rw [hnext]
      simp only [if_neg hend]
      constructor
      · rintro rfl
        exact ⟨.notEnoughRoom, rfl⟩
      · intro hne
        refine ⟨exponent, ?_⟩
        rw [Utf8.prior, List.isEmpty_eq_false_iff.mpr hne]
        rfl
  | go hread hstep _ ih =>
    have hgo := whileStep_some.mp hstep
    obtain ⟨hlt, hnext⟩ := hread
    rw [scanExponent, hnext]
    simp only [if_pos hgo]
    exact ih _

/-- `skipComment` where the last character was a star. -/
def behindStar (line : ℕ) (pos : List UInt8) : Except Utf8Exception (ℕ × List UInt8) :=
  match Utf8.next pos with
  | .error e => .error e
  | .ok (next, pos') =>
      if next = '/' then .ok (line, pos'.1)
      else skipComment (if next = '\n' then line + 1 else line) pos'.1

/-- The loop in either state. -/
def commentLoop : Bool → ℕ → List UInt8 → Except Utf8Exception (ℕ × List UInt8)
  | false => skipComment
  | true => behindStar

theorem commentLoop_stuck {star : Bool} (h : Stuck p) (line : ℕ) :
    ∃ e, commentLoop star line p = .error e := by
  obtain ⟨e, he⟩ := h
  refine ⟨e, ?_⟩
  cases star with
  | false => rw [commentLoop, skipComment, he]
  | true => rw [commentLoop, behindStar, he]

/-- One character of the comment. -/
theorem commentLoop_go {star star' : Bool} (hread : Decodes p c q)
    (hstep : commentStep star c = some star') (line : ℕ) :
    ∃ line', commentLoop star line p = commentLoop star' line' q := by
  obtain ⟨hlt, hnext⟩ := hread
  cases star with
  | false =>
    rw [commentStep] at hstep
    rw [commentLoop, skipComment, hnext]
    by_cases hstar : c = '*'
    · rw [if_pos hstar] at hstep
      obtain rfl := Option.some.inj hstep
      refine ⟨line, ?_⟩
      rw [commentLoop, behindStar]
      simp only [if_pos hstar]
      cases Utf8.next q with
      | error e => rfl
      | ok next => rfl
    · rw [if_neg hstar] at hstep
      by_cases hzero : c = '\x00'
      · rw [if_pos hzero] at hstep
        cases hstep
      · rw [if_neg hzero] at hstep
        obtain rfl := Option.some.inj hstep
        refine ⟨if c = '\n' then line + 1 else line, ?_⟩
        simp only [if_neg hstar, if_neg hzero]
        rfl
  | true =>
    rw [commentStep] at hstep
    rw [commentLoop, behindStar, hnext]
    by_cases hslash : c = '/'
    · rw [if_pos hslash] at hstep
      cases hstep
    · rw [if_neg hslash] at hstep
      obtain rfl := Option.some.inj hstep
      refine ⟨if c = '\n' then line + 1 else line, ?_⟩
      simp only [if_neg hslash]
      rfl

/-- The character that ends the comment. -/
theorem commentLoop_end {star : Bool} (hread : Decodes p c q) (hstep : commentStep star c = none)
    (line : ℕ) : commentLoop star line p = .ok (line, if star = true then q else p) := by
  obtain ⟨hlt, hnext⟩ := hread
  cases star with
  | false =>
    rw [commentStep] at hstep
    rw [commentLoop, skipComment, hnext]
    by_cases hstar : c = '*'
    · rw [if_pos hstar] at hstep
      cases hstep
    · rw [if_neg hstar] at hstep
      by_cases hzero : c = '\x00'
      · simp only [if_neg hstar, if_pos hzero]
        rfl
      · rw [if_neg hzero] at hstep
        cases hstep
  | true =>
    rw [commentStep] at hstep
    rw [commentLoop, behindStar, hnext]
    by_cases hslash : c = '/'
    · simp only [if_pos hslash, if_true]
    · rw [if_neg hslash] at hstep
      cases hstep

theorem commentLoop_scans {star star' : Bool} (h : Scans Decodes commentStep star p cs star' r)
    (line : ℕ) :
    (Stuck r → ∃ e, commentLoop star line p = .error e) ∧
      ∀ c q, Decodes r c q →
        ∃ line', commentLoop star line p = .ok (line', if star' = true then q else r) := by
  induction h generalizing line with
  | halt hhalt =>
    exact ⟨fun hstuck => commentLoop_stuck hstuck line,
      fun c q hread => ⟨line, commentLoop_end hread (hhalt c q hread) line⟩⟩
  | go hread hstep _ ih =>
    obtain ⟨line', heq⟩ := commentLoop_go hread hstep line
    rw [heq]
    exact ih line'

/-- `readString` where the last character was a backslash. -/
def behindBackslash (str : List Char) (pos : List UInt8) :
    Except Utf8Exception (Option (List Char × List UInt8)) :=
  match Utf8.next pos with
  | .error e => .error e
  | .ok (cur, pos') => if cur = 'n' then readString (str ++ ['\n']) pos'.1 else .ok none

def stringLoop : Bool → List Char → List UInt8 →
    Except Utf8Exception (Option (List Char × List UInt8))
  | false => readString
  | true => behindBackslash

theorem stringLoop_stuck {backslash : Bool} (h : Stuck p) (hne : p ≠ [] ∨ backslash = true)
    (str : List Char) : ∃ e, stringLoop backslash str p = .error e := by
  obtain ⟨e, he⟩ := h
  refine ⟨e, ?_⟩
  cases backslash with
  | false =>
    have hne : p ≠ [] := hne.resolve_right Bool.false_ne_true
    rw [stringLoop, readString, if_neg hne, he]
  | true => rw [stringLoop, behindBackslash, he]

theorem stringLoop_go {backslash backslash' : Bool} (hread : Decodes p c q)
    (hstep : stringStep backslash c = some backslash') (str : List Char) :
    ∃ str', stringLoop backslash str p = stringLoop backslash' str' q := by
  have hne := hread.ne_nil
  obtain ⟨hlt, hnext⟩ := hread
  cases backslash with
  | false =>
    rw [stringStep] at hstep
    rw [stringLoop, readString, if_neg hne, hnext]
    by_cases hslash : c = '\\'
    · rw [if_pos hslash] at hstep
      obtain rfl := Option.some.inj hstep
      refine ⟨str, ?_⟩
      rw [stringLoop, behindBackslash]
      simp only [if_pos hslash]
      cases Utf8.next q with
      | error e => rfl
      | ok cur => rfl
    · rw [if_neg hslash] at hstep
      by_cases hquote : c = '"'
      · rw [if_pos hquote] at hstep
        cases hstep
      · rw [if_neg hquote] at hstep
        obtain rfl := Option.some.inj hstep
        refine ⟨str ++ [c], ?_⟩
        simp only [if_neg hslash, if_neg hquote]
        rfl
  | true =>
    rw [stringStep] at hstep
    rw [stringLoop, behindBackslash, hnext]
    by_cases hn : c = 'n'
    · rw [if_pos hn] at hstep
      obtain rfl := Option.some.inj hstep
      refine ⟨str ++ ['\n'], ?_⟩
      simp only [if_pos hn]
      rfl
    · rw [if_neg hn] at hstep
      cases hstep

/-- The character that ends the string, or that should not be behind a backslash. -/
theorem stringLoop_end {backslash : Bool} (hread : Decodes p c q)
    (hstep : stringStep backslash c = none) (str : List Char) :
    stringLoop backslash str p = .ok (if backslash = true then none else some (str, q)) := by
  have hne := hread.ne_nil
  obtain ⟨hlt, hnext⟩ := hread
  cases backslash with
  | false =>
    rw [stringStep] at hstep
    rw [stringLoop, readString, if_neg hne, hnext]
    by_cases hslash : c = '\\'
    · rw [if_pos hslash] at hstep
      cases hstep
    · rw [if_neg hslash] at hstep
      by_cases hquote : c = '"'
      · simp only [if_neg hslash, if_pos hquote]
        rfl
      · rw [if_neg hquote] at hstep
        cases hstep
  | true =>
    rw [stringStep] at hstep
    rw [stringLoop, behindBackslash, hnext]
    by_cases hn : c = 'n'
    · rw [if_pos hn] at hstep
      cases hstep
    · simp only [if_neg hn]
      rfl

theorem stringLoop_scans {backslash backslash' : Bool}
    (h : Scans Decodes stringStep backslash p cs backslash' r) (str : List Char) :
    (Stuck r → r ≠ [] ∨ backslash' = true → ∃ e, stringLoop backslash str p = .error e) ∧
      (r = [] → backslash' = false → ∃ str', stringLoop backslash str p = .ok (some (str', []))) ∧
      ∀ c q, Decodes r c q → ∃ str',
        stringLoop backslash str p = .ok (if backslash' = true then none else some (str', q)) := by
  induction h generalizing str with
  | halt hhalt =>
    refine ⟨fun hstuck hne => stringLoop_stuck hstuck hne str, ?_,
      fun c q hread => ⟨str, stringLoop_end hread (hhalt c q hread) str⟩⟩
    rintro rfl rfl
    exact ⟨str, by rw [stringLoop, readString, if_pos rfl]⟩
  | go hread hstep _ ih =>
    obtain ⟨str', heq⟩ := stringLoop_go hread hstep str
    rw [heq]
    exact ih str'

/-- A number behind its e. -/
def exponentPart (str : List Char) (dot : Bool) (pos : List UInt8) :
    Except Utf8Exception (Option ScannedNumber) :=
  match Utf8.next pos with
  | .error e => .error e
  | .ok (sign, pos') =>
      if sign ≠ '-' ∧ sign ≠ '+' then .ok none
      else (scanExponent [sign] pos'.1).map (fun r => some ⟨str, dot, some r.1, r.2⟩)

/-- What the loop does with the character that it has read, when it goes on. -/
theorem scanNumber_go {str str' : List Char} {dot : Bool} (hdot : dot = decide ('.' ∈ str))
    (hstep : numberStep str c = some str') (before : List UInt8) (pos : List UInt8) :
    ∃ dot', dot' = decide ('.' ∈ str') ∧ scanNumber str dot c before pos =
      match Utf8.next pos with
      | .error e => .error e
      | .ok (cur, pos') => scanNumber str' dot' cur pos pos'.1 := by
  rw [numberStep] at hstep
  by_cases hgo : c = '-' ∧ str = [] ∨ c = '.' ∧ '.' ∉ str ∨ c.isDigit = true
  · rw [if_pos hgo] at hstep
    obtain rfl := Option.some.inj hstep
    rw [scanNumber]
    by_cases hminus : c = '-'
    · have hstr : str = [] := by
        rcases hgo with h | h | h
        · exact h.2
        · exact absurd (hminus.symm.trans h.1) (by decide)
        · exact absurd (hminus ▸ h) (by decide)
      refine ⟨dot, ?_, ?_⟩
      · rw [hdot, hstr, hminus]
        decide
      · subst hminus
        refine (if_pos rfl).trans ((if_neg (not_not.mpr hstr)).trans ?_)
        cases Utf8.next pos with
        | error e => rfl
        | ok r => rfl
    · rw [if_neg hminus]
      by_cases hpoint : c = '.' ∧ dot = false
      · refine ⟨true, ?_, ?_⟩
        · rw [hpoint.1]
          exact (decide_eq_true (List.mem_append_right _ (List.mem_singleton_self _))).symm
        · obtain ⟨rfl, hdot'⟩ := hpoint
          refine (if_pos ⟨rfl, hdot'⟩).trans ?_
          cases Utf8.next pos with
          | error e => rfl
          | ok r => rfl
      · have hdigit : c.isDigit = true := by
          rcases hgo with h | h | h
          · exact absurd h.1 hminus
          · refine absurd ⟨h.1, ?_⟩ hpoint
            rw [hdot, decide_eq_false h.2]
          · exact h
        refine ⟨dot, ?_, ?_⟩
        · have hne : '.' ≠ c := by
            rintro rfl
            cases hdigit
          rw [hdot]
          simp only [List.mem_append, List.mem_singleton, hne, or_false]
        · refine (if_neg hpoint).trans ((if_pos hdigit).trans ?_)
          cases Utf8.next pos with
          | error e => rfl
          | ok r => rfl
  · rw [if_neg hgo] at hstep
    cases hstep

/-- The character behind the number. -/
theorem scanNumber_end {str : List Char} {dot : Bool} (hdot : dot = decide ('.' ∈ str))
    (hstep : numberStep str c = none) (before pos : List UInt8) :
    (c ≠ 'e' ∧ c ≠ 'E' → scanNumber str dot c before pos =
        (Utf8.prior before pos).map (fun rest => some ⟨str, dot, none, rest⟩)) ∧
      (c = 'e' ∨ c = 'E' → scanNumber str dot c before pos = exponentPart str dot pos) := by
  rw [numberStep] at hstep
  have hend : ¬(c = '-' ∧ str = [] ∨ c = '.' ∧ '.' ∉ str ∨ c.isDigit = true) := fun hgo => by
    rw [if_pos hgo] at hstep
    cases hstep
  have hdigit : ¬c.isDigit = true := fun h => hend (.inr (.inr h))
  have hpoint : ¬(c = '.' ∧ dot = false) := fun h => by
    refine hend (.inr (.inl ⟨h.1, ?_⟩))
    rw [hdot] at h
    exact of_decide_eq_false h.2
  rw [scanNumber]
  constructor
  · rintro ⟨he, hE⟩
    by_cases hminus : c = '-'
    · have hstr : str ≠ [] := fun h => hend (.inl ⟨hminus, h⟩)
      rw [if_pos hminus, if_pos hstr]
    · have hne : ¬(c = 'e' ∨ c = 'E') := fun h => h.elim he hE
      rw [if_neg hminus, if_neg hpoint, if_neg hdigit, if_neg hne]
  · intro h
    have hminus : ¬c = '-' := by
      rintro rfl
      exact absurd h (by decide)
    rw [if_neg hminus, if_neg hpoint, if_neg hdigit, if_pos h]
    rfl

theorem scanNumber_scans {str str' : List Char} (h : Scans Decodes numberStep str p cs str' r)
    {dot : Bool} (hdot : dot = decide ('.' ∈ str)) (hread : Decodes p c q) :
    (Stuck r → ∃ e, scanNumber str dot c p q = .error e) ∧
      ∀ d r', Decodes r d r' → ∃ dot',
        (d ≠ 'e' ∧ d ≠ 'E' → scanNumber str dot c p q =
          (Utf8.prior r r').map (fun rest => some ⟨str', dot', none, rest⟩)) ∧
        (d = 'e' ∨ d = 'E' → scanNumber str dot c p q = exponentPart str' dot' r') := by
  induction h generalizing dot c q with
  | halt hhalt =>
    refine ⟨fun hstuck => (hread.not_stuck hstuck).elim, fun d r' hread' => ⟨dot, ?_⟩⟩
    obtain ⟨rfl, rfl⟩ := hread.unique hread'
    exact scanNumber_end hdot (hhalt _ _ hread) _ _
  | @go str s t p q' r d cs hread' hstep hscans ih =>
    obtain ⟨rfl, rfl⟩ := hread.unique hread'
    obtain ⟨dot', hdot', heq⟩ := scanNumber_go hdot hstep p q
    rcases stuck_or_decodes q with ⟨e, he⟩ | ⟨d, q', hread''⟩
    · rw [heq, he]
      have hr : r = q := by
        cases hscans with
        | halt _ => rfl
        | go hread'' _ _ => exact (hread''.not_stuck ⟨e, he⟩).elim
      exact ⟨fun _ => ⟨e, rfl⟩, fun d r' hd => (hd.not_stuck (hr ▸ ⟨e, he⟩)).elim⟩
    · have := ih hdot' hread''
      obtain ⟨hlt, hnext⟩ := hread''
      rw [heq, hnext]
      exact this

theorem readIdentifier_scans (h : Scans Decodes (whileStep isIdentifierChar) u p cs u' r)
    (str : List Char) :
    (Stuck r → r ≠ [] → ∃ e, readIdentifier str p = .error e) ∧
      (r = [] ∨ ¬Stuck r → ∃ str', readIdentifier str p = .ok (str', r)) := by
  induction h generalizing str with
  | @halt u p hhalt =>
    rw [readIdentifier]
    by_cases hnil : p = []
    · rw [if_pos hnil]
      exact ⟨fun _ hne => (hne hnil).elim, fun _ => ⟨str, by rw [hnil]⟩⟩
    · rw [if_neg hnil]
      rcases stuck_or_decodes p with ⟨e, he⟩ | ⟨c, q, hread⟩
      · rw [he]
        exact ⟨fun _ _ => ⟨e, rfl⟩, fun h => (h.elim hnil fun hnot => hnot ⟨e, he⟩).elim⟩
      · have hend : ¬isIdentifierChar c = true := by
          rw [Bool.not_eq_true]
          exact whileStep_none.mp (hhalt c q hread)
        have hnot := hread.not_stuck
        obtain ⟨hlt, hnext⟩ := hread
        rw [hnext]
        simp only [if_neg hend]
        exact ⟨fun hstuck => (hnot hstuck).elim, fun _ => ⟨str, rfl⟩⟩
  | go hread hstep _ ih =>
    have hgo := whileStep_some.mp hstep
    have hne := hread.ne_nil
    obtain ⟨hlt, hnext⟩ := hread
    rw [readIdentifier, if_neg hne, hnext]
    simp only [if_pos hgo]
    exact ih _

/-! ## One round -/

variable {next : Char} {D : ReadNumber} {line : ℕ}

theorem lexStep_begins (h : Begins p c next q) :
    lexStep D line p =
      if c = '/' ∧ (next = '/' ∨ next = '*') then lexComment line next q
      else if isSpace c then .ok (.go (if c = '\n' then line + 1 else line) q none)
      else if c.isDigit || (c == '-' && next.isDigit) then lexNumber D line c p q
      else if c = '"' then lexString line q
      else lexWord line c p q := by
  obtain ⟨⟨hlt, hnext⟩, hzero, hahead⟩ := h
  rw [lexStep, hnext]
  simp only [if_neg hzero, hahead]

theorem lexStep_comment (h : Begins p '/' next q) (hnext : next = '/' ∨ next = '*') {q' : List UInt8}
    (hread : Decodes q next q') :
    lexStep D line p =
      if next = '/' then (skipLine q').map (fun pos => .go (line + 1) pos none)
      else (skipComment line q').map (fun r => .go r.1 r.2 none) := by
  obtain ⟨hlt, hread⟩ := hread
  rw [lexStep_begins h, if_pos ⟨rfl, hnext⟩, lexComment, hread]

theorem isSpace_digit (h : c.isDigit = true) : isSpace c = false := by
  rw [Bool.eq_false_iff]
  intro hspace
  simp only [isSpace, Bool.or_eq_true, beq_iff_eq] at hspace
  rcases hspace with ((((rfl | rfl) | rfl) | rfl) | rfl) | rfl
  all_goals cases h

theorem NumberStart.wordless (h : NumberStart c next) : c ≠ '/' ∧ isSpace c = false := by
  rcases h with h | ⟨rfl, -⟩
  · refine ⟨?_, isSpace_digit h⟩
    rintro rfl
    cases h
  · decide

theorem numberStart_iff :
    (c.isDigit || (c == '-' && next.isDigit)) = true ↔ NumberStart c next := by
  rw [NumberStart, Bool.or_eq_true, Bool.and_eq_true, beq_iff_eq]

theorem lexStep_number (h : Begins p c next q) (hstart : NumberStart c next) :
    lexStep D line p = lexNumber D line c p q := by
  obtain ⟨hslash, hspace⟩ := hstart.wordless
  rw [lexStep_begins h, if_neg (fun hc => hslash hc.1), hspace, if_neg Bool.false_ne_true,
    if_pos (numberStart_iff.mpr hstart)]

theorem lexStep_string (h : Begins p '"' next q) : lexStep D line p = lexString line q := by
  rw [lexStep_begins h]
  simp [isSpace]

theorem lexStep_word (h : Begins p c next q) (hstart : WordStart c next) :
    lexStep D line p = lexWord line c p q := by
  rw [lexStep_begins h, if_neg hstart.comment, hstart.space, if_neg Bool.false_ne_true,
    if_neg (fun hc => hstart.number (numberStart_iff.mp hc)), if_neg hstart.quote]

theorem lexWord_identifier (h : WordStart c next) (hmatch : matchToken p = none)
    (hchar : isIdentifierChar c = true) :
    lexWord line c p q =
      match readIdentifier [c] q with
      | .error e => .error e
      | .ok (str, pos) =>
          .ok (.go line pos (some
            { type := .tokIdentifier, line := line, string := String.ofList str, i := 0, d := 0 })) := by
  have hdigit : c.isDigit = false := Bool.eq_false_iff.mpr fun hd => h.number (.inl hd)
  rw [lexWord, hmatch]
  cases hread : readIdentifier [c] q with
  | error e => simp only [hchar, hdigit, Bool.not_false, Bool.and_self, if_true]
  | ok r => simp only [hchar, hdigit, Bool.not_false, Bool.and_self, if_true]

theorem exponentPart_stuck (h : Stuck p) (str : List Char) (dot : Bool) :
    ∃ e, exponentPart str dot p = .error e := by
  obtain ⟨e, he⟩ := h
  exact ⟨e, by rw [exponentPart, he]⟩

theorem exponentPart_sign {sign : Char} (hread : Decodes p sign q) (str : List Char) (dot : Bool) :
    exponentPart str dot p =
      if sign ≠ '-' ∧ sign ≠ '+' then .ok none
      else (scanExponent [sign] q).map (fun r => some ⟨str, dot, some r.1, r.2⟩) := by
  obtain ⟨hlt, hnext⟩ := hread
  rw [exponentPart, hnext]

theorem exponentPart_digits {sign : Char} {s t : List UInt8} (hread : Decodes p sign s)
    (hsign : sign = '-' ∨ sign = '+') (h : Scans Decodes (whileStep Char.isDigit) () s cs u t)
    (str : List Char) (dot : Bool) :
    (Stuck t → ∃ e, exponentPart str dot p = .error e) ∧
      ∀ d t', Decodes t d t' → (t' = [] → ∃ e, exponentPart str dot p = .error e) ∧
        (t' ≠ [] → ∃ exponent, exponentPart str dot p = .ok (some ⟨str, dot, some exponent, t⟩)) := by
  have hnot : ¬(sign ≠ '-' ∧ sign ≠ '+') := fun hne => hsign.elim hne.1 hne.2
  rw [exponentPart_sign hread, if_neg hnot]
  obtain ⟨hstuck, hend⟩ := scanExponent_scans h [sign]
  refine ⟨fun ht => ?_, fun d t' hd => ⟨fun hnil => ?_, fun hne => ?_⟩⟩
  · obtain ⟨e, he⟩ := hstuck ht
    exact ⟨e, by rw [he]; rfl⟩
  · obtain ⟨e, he⟩ := (hend d t' hd).1 hnil
    exact ⟨e, by rw [he]; rfl⟩
  · obtain ⟨exponent, he⟩ := (hend d t' hd).2 hne
    exact ⟨exponent, by rw [he]; rfl⟩

/-- What a number comes to is decided by the character behind it. -/
theorem lexNumber_scans (D : ReadNumber) (line : ℕ) (h : Decodes p c q) {str : List Char}
    (hscans : Scans Decodes numberStep [] p cs str r) :
    (Stuck r → ∃ e, lexNumber D line c p q = .error e) ∧
      ∀ d r', Decodes r d r' →
        (d ≠ 'e' ∧ d ≠ 'E' → (r' = [] → ∃ e, lexNumber D line c p q = .error e) ∧
          (r' ≠ [] → ∃ token, lexNumber D line c p q = .ok (.go line r (some token)))) ∧
        (d = 'e' ∨ d = 'E' → ∃ dot, scanNumber [] false c p q = exponentPart str dot r') := by
  obtain ⟨hstuck, hend⟩ := scanNumber_scans hscans (show false = decide ('.' ∈ []) from rfl) h
  refine ⟨fun hr => ?_, fun d r' hd => ?_⟩
  · obtain ⟨e, he⟩ := hstuck hr
    exact ⟨e, by rw [lexNumber, he]⟩
  · obtain ⟨dot, hplain, hexponent⟩ := hend d r' hd
    refine ⟨fun hne => ⟨fun hnil => ?_, fun hne' => ?_⟩, fun he => ⟨dot, hexponent he⟩⟩
    · refine ⟨.notEnoughRoom, ?_⟩
      rw [lexNumber, hplain hne, hnil]
      rfl
    · refine ⟨numberToken D line ⟨str, dot, none, r⟩, ?_⟩
      rw [lexNumber, hplain hne, Utf8.prior, List.isEmpty_eq_false_iff.mpr hne']
      rfl

theorem Item.lexStep {p r : List UInt8} (h : Item p r) (D : ReadNumber) (line : ℕ) :
    ∃ line' token, ByteLexer.lexStep D line p = .ok (.go line' r token) := by
  cases h with
  | @space _ c next hbegins hspace =>
    refine ⟨if c = '\n' then line + 1 else line, none, ?_⟩
    have hslash : ¬(c = '/' ∧ (next = '/' ∨ next = '*')) := by
      rintro ⟨rfl, -⟩
      exact absurd hspace (by decide)
    rw [lexStep_begins hbegins, if_neg hslash, if_pos hspace]
  | lineComment hbegins hread hscans hend =>
    refine ⟨line + 1, none, ?_⟩
    rw [lexStep_comment hbegins (.inl rfl) hread, if_pos rfl, (skipLine_scans hscans).2 hend]
    rfl
  | blockComment hbegins hread hscans hend =>
    obtain ⟨line', heq⟩ := (commentLoop_scans hscans line).2 _ _ hend
    refine ⟨line', none, ?_⟩
    rw [lexStep_comment hbegins (.inr rfl) hread, if_neg (by decide)]
    rw [commentLoop, if_pos rfl] at heq
    rw [heq]
    rfl
  | openComment hbegins hread hscans hend =>
    obtain ⟨c, q, hc⟩ := (stuck_or_decodes _).resolve_left hend
    obtain ⟨line', heq⟩ := (commentLoop_scans hscans line).2 _ _ hc
    refine ⟨line', none, ?_⟩
    rw [lexStep_comment hbegins (.inr rfl) hread, if_neg (by decide)]
    rw [commentLoop, if_neg Bool.false_ne_true] at heq
    rw [heq]
    rfl
  | number hbegins hstart hscans hend hne hrest =>
    obtain ⟨token, heq⟩ :=
      (((lexNumber_scans D line hbegins.decodes hscans).2 _ _ hend).1 hne).2 hrest
    exact ⟨line, some token, by rw [lexStep_number hbegins hstart, heq]⟩
  | exponent hbegins hstart hscans hread he hsign hsign' hdigits hend hrest =>
    obtain ⟨dot, heq⟩ :=
      ((lexNumber_scans D line hbegins.decodes hscans).2 _ _ hread).2 he
    obtain ⟨exponent, hexp⟩ :=
      ((exponentPart_digits hsign hsign' hdigits _ dot).2 _ _ hend).2 hrest
    rw [lexStep_number hbegins hstart, lexNumber, heq, hexp]
    exact ⟨line, _, rfl⟩
  | string hbegins hscans hend =>
    obtain ⟨str, heq⟩ := (stringLoop_scans hscans []).2.2 _ _ hend
    rw [stringLoop, if_neg Bool.false_ne_true] at heq
    rw [lexStep_string hbegins, lexString, heq]
    exact ⟨line, _, rfl⟩
  | openString hbegins hscans =>
    obtain ⟨str, heq⟩ := (stringLoop_scans hscans []).2.1 rfl rfl
    rw [stringLoop] at heq
    rw [lexStep_string hbegins, lexString, heq]
    exact ⟨line, _, rfl⟩
  | token hbegins hstart hmatch =>
    rw [lexStep_word hbegins hstart, lexWord, hmatch]
    exact ⟨line, _, rfl⟩
  | identifier hbegins hstart hmatch hchar hscans hend =>
    obtain ⟨str, heq⟩ := (readIdentifier_scans hscans [_]).2 hend
    rw [lexStep_word hbegins hstart, lexWord_identifier hstart hmatch hchar, heq]
    exact ⟨line, _, rfl⟩

theorem lookahead_stuck (h : Stuck p) (hlength : 2 ≤ p.length) :
    ∃ e, ByteLexer.lookahead p = .error e := by
  obtain ⟨e, he⟩ := h
  refine ⟨e, ?_⟩
  rw [ByteLexer.lookahead, if_pos hlength, Utf8.peekNext, he]
  rfl

theorem map_error {α β : Type} {f : α → β} {x : Except Utf8Exception α} (h : ∃ e, x = .error e) :
    ∃ e, x.map f = .error e := by
  obtain ⟨e, rfl⟩ := h
  exact ⟨e, rfl⟩

theorem Cut.lexStep {p : List UInt8} (h : Cut p) (D : ReadNumber) (line : ℕ) :
    ∃ e, ByteLexer.lexStep D line p = .error e := by
  cases h with
  | undecodable _ hstuck =>
    obtain ⟨e, he⟩ := hstuck
    exact ⟨e, by rw [ByteLexer.lexStep, he]⟩
  | lookahead hread hzero hlength hstuck =>
    obtain ⟨e, he⟩ := lookahead_stuck hstuck hlength
    obtain ⟨hlt, hnext⟩ := hread
    refine ⟨e, ?_⟩
    rw [ByteLexer.lexStep, hnext]
    simp only [if_neg hzero, he]
  | lineComment hbegins hread hscans hstuck =>
    rw [lexStep_comment hbegins (.inl rfl) hread, if_pos rfl]
    exact map_error ((skipLine_scans hscans).1 hstuck)
  | blockComment hbegins hread hscans hstuck =>
    rw [lexStep_comment hbegins (.inr rfl) hread, if_neg (by decide)]
    exact map_error ((commentLoop_scans hscans line).1 hstuck)
  | number hbegins hstart hscans hstuck =>
    rw [lexStep_number hbegins hstart]
    exact (lexNumber_scans D line hbegins.decodes hscans).1 hstuck
  | numberLast hbegins hstart hscans hend hne =>
    rw [lexStep_number hbegins hstart]
    exact (((lexNumber_scans D line hbegins.decodes hscans).2 _ _ hend).1 hne).1 rfl
  | exponent hbegins hstart hscans hread he hstuck =>
    obtain ⟨dot, heq⟩ :=
      ((lexNumber_scans D line hbegins.decodes hscans).2 _ _ hread).2 he
    obtain ⟨e, hexp⟩ := exponentPart_stuck hstuck _ dot
    rw [lexStep_number hbegins hstart, lexNumber, heq, hexp]
    exact ⟨e, rfl⟩
  | exponentDigits hbegins hstart hscans hread he hsign hsign' hdigits hstuck =>
    obtain ⟨dot, heq⟩ :=
      ((lexNumber_scans D line hbegins.decodes hscans).2 _ _ hread).2 he
    obtain ⟨e, hexp⟩ := (exponentPart_digits hsign hsign' hdigits _ dot).1 hstuck
    rw [lexStep_number hbegins hstart, lexNumber, heq, hexp]
    exact ⟨e, rfl⟩
  | exponentLast hbegins hstart hscans hread he hsign hsign' hdigits hend =>
    obtain ⟨dot, heq⟩ :=
      ((lexNumber_scans D line hbegins.decodes hscans).2 _ _ hread).2 he
    obtain ⟨e, hexp⟩ := ((exponentPart_digits hsign hsign' hdigits _ dot).2 _ _ hend).1 rfl
    rw [lexStep_number hbegins hstart, lexNumber, heq, hexp]
    exact ⟨e, rfl⟩
  | string hbegins hscans hstuck hne =>
    obtain ⟨e, heq⟩ := (stringLoop_scans hscans []).1 hstuck hne
    rw [stringLoop] at heq
    rw [lexStep_string hbegins, lexString, heq]
    exact ⟨e, rfl⟩
  | identifier hbegins hstart hmatch hchar hscans hstuck hne =>
    obtain ⟨e, heq⟩ := (readIdentifier_scans hscans [_]).1 hstuck hne
    rw [lexStep_word hbegins hstart, lexWord_identifier hstart hmatch hchar, heq]
    exact ⟨e, rfl⟩

/-- The number at `p` is an item or cut off, or has an e without a sign behind it. -/
theorem number_cases (hbegins : Begins p c next q) (hstart : NumberStart c next) :
    Cut p ∨ (∃ r, Item p r) ∨ ∀ D line, lexStep D line p = .ok .fail := by
  obtain ⟨cs, str, r, hscans⟩ := Scans.exists_octets numberStep [] p
  rcases stuck_or_decodes r with hstuck | ⟨d, r', hend⟩
  · exact .inl (.number hbegins hstart hscans hstuck)
  by_cases he : d = 'e' ∨ d = 'E'
  · rcases stuck_or_decodes r' with hstuck | ⟨sign, s, hsign⟩
    · exact .inl (.exponent hbegins hstart hscans hend he hstuck)
    by_cases hsign' : sign = '-' ∨ sign = '+'
    · obtain ⟨cs', u, t, hdigits⟩ := Scans.exists_octets (whileStep Char.isDigit) () s
      rcases stuck_or_decodes t with hstuck | ⟨d', t', hend'⟩
      · exact .inl (.exponentDigits hbegins hstart hscans hend he hsign hsign' hdigits hstuck)
      by_cases hnil : t' = []
      · subst hnil
        exact .inl (.exponentLast hbegins hstart hscans hend he hsign hsign' hdigits hend')
      · exact .inr (.inl ⟨t, .exponent hbegins hstart hscans hend he hsign hsign' hdigits hend' hnil⟩)
    · refine .inr (.inr fun D line => ?_)
      obtain ⟨dot, heq⟩ :=
        ((lexNumber_scans D line hbegins.decodes hscans).2 _ _ hend).2 he
      rw [lexStep_number hbegins hstart, lexNumber, heq, exponentPart_sign hsign,
        if_pos (not_or.mp hsign')]
  · have hne : d ≠ 'e' ∧ d ≠ 'E' := not_or.mp he
    by_cases hnil : r' = []
    · subst hnil
      exact .inl (.numberLast hbegins hstart hscans hend hne)
    · exact .inr (.inl ⟨r, .number hbegins hstart hscans hend hne hnil⟩)

theorem string_cases (hbegins : Begins p '"' next q) :
    Cut p ∨ (∃ r, Item p r) ∨ ∀ D line, lexStep D line p = .ok .fail := by
  obtain ⟨cs, backslash, r, hscans⟩ := Scans.exists_octets stringStep false q
  rcases stuck_or_decodes r with hstuck | ⟨d, r', hend⟩
  · by_cases hne : r ≠ [] ∨ backslash = true
    · exact .inl (.string hbegins hscans hstuck hne)
    · rw [not_or, not_not, Bool.not_eq_true] at hne
      obtain ⟨rfl, rfl⟩ := hne
      exact .inr (.inl ⟨[], .openString hbegins hscans⟩)
  · cases backslash with
    | false =>
      have hquote : d = '"' := by
        have hnone := hscans.halts d r' hend
        rw [stringStep] at hnone
        split at hnone
        · cases hnone
        · split at hnone
          · assumption
          · cases hnone
      exact .inr (.inl ⟨r', .string hbegins hscans (hquote ▸ hend)⟩)
    | true =>
      refine .inr (.inr fun D line => ?_)
      obtain ⟨str, heq⟩ := (stringLoop_scans hscans []).2.2 _ _ hend
      rw [stringLoop, if_pos rfl] at heq
      rw [lexStep_string hbegins, lexString, heq]

theorem word_cases (hbegins : Begins p c next q) (hstart : WordStart c next) :
    Cut p ∨ (∃ r, Item p r) ∨ ∀ D line, lexStep D line p = .ok .fail := by
  cases hmatch : matchToken p with
  | some found => exact .inr (.inl ⟨found.2, .token hbegins hstart hmatch⟩)
  | none =>
    by_cases hchar : isIdentifierChar c = true
    · obtain ⟨cs, u, r, hscans⟩ := Scans.exists_octets (whileStep isIdentifierChar) () q
      by_cases hend : r = [] ∨ ¬Stuck r
      · exact .inr (.inl ⟨r, .identifier hbegins hstart hmatch hchar hscans hend⟩)
      · rw [not_or, not_not] at hend
        exact .inl (.identifier hbegins hstart hmatch hchar hscans hend.2 hend.1)
    · refine .inr (.inr fun D line => ?_)
      rw [Bool.not_eq_true] at hchar
      rw [lexStep_word hbegins hstart, lexWord, hmatch]
      simp only [hchar, Bool.false_and, Bool.false_eq_true, if_false]

theorem Begins.decodes_next (h : Begins p c next q) (hne : next ≠ '\x00') :
    ∃ q', Decodes q next q' := by
  have hahead := h.ahead
  rw [ByteLexer.lookahead] at hahead
  split at hahead
  · rcases stuck_or_decodes q with ⟨e, he⟩ | ⟨d, q', hlt, hd⟩
    · rw [Utf8.peekNext, he] at hahead
      cases hahead
    · rw [Utf8.peekNext, hd] at hahead
      obtain rfl : d = next := Except.ok.inj hahead
      exact ⟨q', hlt, hd⟩
  · exact (hne (Except.ok.inj hahead).symm).elim

theorem comment_cases (hbegins : Begins p '/' next q) (hnext : next = '/' ∨ next = '*') :
    Cut p ∨ ∃ r, Item p r := by
  obtain ⟨q', hread⟩ := hbegins.decodes_next (by rcases hnext with rfl | rfl <;> decide)
  rcases hnext with rfl | rfl
  · obtain ⟨cs, u, r, hscans⟩ := Scans.exists_octets (whileStep notLineEnd) () q'
    by_cases hstuck : Stuck r
    · exact .inl (.lineComment hbegins hread hscans hstuck)
    · exact .inr ⟨r, .lineComment hbegins hread hscans hstuck⟩
  · obtain ⟨cs, star, r, hscans⟩ := Scans.exists_octets commentStep false q'
    rcases stuck_or_decodes r with hstuck | ⟨d, r', hend⟩
    · exact .inl (.blockComment hbegins hread hscans hstuck)
    · cases star with
      | false => exact .inr ⟨r, .openComment hbegins hread hscans hend.not_stuck⟩
      | true =>
        have hslash : d = '/' := by
          have hnone := hscans.halts d r' hend
          rw [commentStep] at hnone
          split at hnone
          · assumption
          · cases hnone
        exact .inr ⟨r', .blockComment hbegins hread hscans (hslash ▸ hend)⟩

/-- One round: the text is cut, there is an item, or the lexer returns. -/
theorem round_cases (hne : p ≠ []) :
    Cut p ∨ (∃ r, Item p r) ∨
      ∀ D line, lexStep D line p = .ok .fail ∨ lexStep D line p = .ok .stop := by
  have hfail (h : Cut p ∨ (∃ r, Item p r) ∨ ∀ D line, lexStep D line p = .ok .fail) :
      Cut p ∨ (∃ r, Item p r) ∨
        ∀ D line, lexStep D line p = .ok .fail ∨ lexStep D line p = .ok .stop :=
    h.imp_right (·.imp_right fun hall D line => .inl (hall D line))
  rcases stuck_or_decodes p with hstuck | ⟨c, q, hread⟩
  · exact .inl (.undecodable hne hstuck)
  by_cases hzero : c = '\x00'
  · refine .inr (.inr fun D line => .inr ?_)
    obtain ⟨hlt, hnext⟩ := hread
    rw [lexStep, hnext]
    simp only [if_pos hzero]
  cases hahead : lookahead q with
  | error e =>
    rw [lookahead] at hahead
    split at hahead
    · next hlength =>
      rcases stuck_or_decodes q with hstuck | ⟨d, q', hlt, hd⟩
      · exact .inl (.lookahead hread hzero hlength hstuck)
      · rw [Utf8.peekNext, hd] at hahead
        cases hahead
    · cases hahead
  | ok next =>
    have hbegins : Begins p c next q := ⟨hread, hzero, hahead⟩
    by_cases hcomment : c = '/' ∧ (next = '/' ∨ next = '*')
    · obtain ⟨rfl, hnext⟩ := hcomment
      exact (comment_cases hbegins hnext).imp_right .inl
    by_cases hspace : isSpace c = true
    · exact .inr (.inl ⟨q, .space hbegins hspace⟩)
    by_cases hnumber : NumberStart c next
    · exact hfail (number_cases hbegins hnumber)
    by_cases hquote : c = '"'
    · subst hquote
      exact hfail (string_cases hbegins)
    exact hfail (word_cases hbegins ⟨hcomment, Bool.not_eq_true _ ▸ hspace, hnumber, hquote⟩)

/-! ## The whole text -/

theorem NumberStart.numberStep (h : NumberStart c next) : numberStep [] c ≠ none := by
  have hgo : c = '-' ∧ ([] : List Char) = [] ∨ c = '.' ∧ '.' ∉ ([] : List Char) ∨
      c.isDigit = true := by
    rcases h with h | ⟨h, -⟩
    · exact .inr (.inr h)
    · exact .inl ⟨h, rfl⟩
  rw [ByteLexer.numberStep, if_pos hgo]
  exact Option.some_ne_none _

theorem number_length (hbegins : Begins p c next q) (hstart : NumberStart c next) {str : List Char}
    (h : Scans Decodes numberStep [] p cs str r) : r.length < p.length := by
  cases h with
  | halt hhalt => exact (hstart.numberStep (hhalt _ _ hbegins.decodes)).elim
  | go hread _ hscans => exact (Scans.length_le hscans).trans_lt hread.length

theorem matchToken_length (hne : p ≠ []) {token : SimpleToken}
    (h : matchToken p = some (token, r)) : r.length < p.length := by
  obtain ⟨token', hmem, hfound⟩ := List.exists_of_findSome?_eq_some h
  obtain ⟨rest, hword, heq⟩ := Option.map_eq_some_iff.mp hfound
  obtain ⟨rfl, rfl⟩ := Prod.mk.inj heq
  have hpos : 0 < token'.length := by
    have hall : ∀ token ∈ tokenTable, 0 < token.length := by decide
    exact hall token' hmem
  have hdrop : rest = p.drop token'.length := by
    rw [checkWord] at hword
    split at hword
    · dsimp only at hword
      split at hword
      · cases hword
      · exact (Option.some.inj hword).symm
    · cases hword
  have hlength := List.length_pos_iff.mpr hne
  rw [hdrop, List.length_drop]
  omega

/-- Each round reads at least one octet. -/
theorem Item.length {p r : List UInt8} (h : Item p r) : r.length < p.length := by
  cases h with
  | space hbegins _ => exact hbegins.decodes.length
  | lineComment hbegins hread hscans _ =>
    exact ((Scans.length_le hscans).trans_lt hread.length).trans hbegins.decodes.length
  | blockComment hbegins hread hscans hend =>
    exact (hend.length.trans_le (Scans.length_le hscans)).trans
      (hread.length.trans hbegins.decodes.length)
  | openComment hbegins hread hscans _ =>
    exact ((Scans.length_le hscans).trans_lt hread.length).trans hbegins.decodes.length
  | number hbegins hstart hscans _ _ _ => exact number_length hbegins hstart hscans
  | exponent hbegins hstart hscans hread _ hsign _ hdigits _ _ =>
    exact ((Scans.length_le hdigits).trans_lt (hsign.length.trans hread.length)).trans
      (number_length hbegins hstart hscans)
  | string hbegins hscans hend =>
    exact (hend.length.trans_le (Scans.length_le hscans)).trans hbegins.decodes.length
  | openString hbegins _ => exact List.length_pos_iff.mpr hbegins.decodes.ne_nil
  | token hbegins _ hmatch => exact matchToken_length hbegins.decodes.ne_nil hmatch
  | identifier hbegins _ _ _ hscans _ =>
    exact (Scans.length_le hscans).trans_lt hbegins.decodes.length

/-- Behind some items the text is cut. -/
def CutOff (p : List UInt8) : Prop := ∃ tail, Relation.ReflTransGen Item p tail ∧ Cut tail

theorem cutOff_iff : CutOff p ↔ Cut p ∨ ∃ r, Item p r ∧ CutOff r := by
  constructor
  · rintro ⟨tail, hpath, hcut⟩
    rcases hpath.cases_head with rfl | ⟨r, hitem, hpath⟩
    · exact .inl hcut
    · exact .inr ⟨r, hitem, tail, hpath, hcut⟩
  · rintro (hcut | ⟨r, hitem, tail, hpath, hcut⟩)
    · exact ⟨p, .refl, hcut⟩
    · exact ⟨tail, .head hitem hpath, hcut⟩

theorem Cut.ne_nil {p : List UInt8} (h : Cut p) : p ≠ [] := by
  cases h with
  | undecodable hne _ => exact hne
  | lookahead hread _ _ _ => exact hread.ne_nil
  | lineComment hbegins _ _ _ => exact hbegins.decodes.ne_nil
  | blockComment hbegins _ _ _ => exact hbegins.decodes.ne_nil
  | number hbegins _ _ _ => exact hbegins.decodes.ne_nil
  | numberLast hbegins _ _ _ _ => exact hbegins.decodes.ne_nil
  | exponent hbegins _ _ _ _ _ => exact hbegins.decodes.ne_nil
  | exponentDigits hbegins _ _ _ _ _ _ _ _ => exact hbegins.decodes.ne_nil
  | exponentLast hbegins _ _ _ _ _ _ _ _ => exact hbegins.decodes.ne_nil
  | string hbegins _ _ _ => exact hbegins.decodes.ne_nil
  | identifier hbegins _ _ _ _ _ _ => exact hbegins.decodes.ne_nil

/-- The loop throws on a text that is cut off, and only there it does. -/
theorem lexLoop_cases (D : ReadNumber) {fuel : ℕ} (hfuel : p.length < fuel) (line : ℕ)
    (tokens : List Token) :
    (∃ r, lexLoop D fuel line p tokens = some (.ok r)) ∧ ¬CutOff p ∨
      (∃ e, lexLoop D fuel line p tokens = some (.error e)) ∧ CutOff p := by
  induction fuel generalizing p line tokens with
  | zero => exact (Nat.not_lt_zero _ hfuel).elim
  | succ fuel ih =>
    by_cases hne : p = []
    · subst hne
      refine .inl ⟨⟨(true, tokens), by rw [lexLoop, if_pos rfl]⟩, ?_⟩
      rw [cutOff_iff]
      rintro (hcut | ⟨r, hitem, -⟩)
      · exact hcut.ne_nil rfl
      · exact Nat.not_lt_zero _ hitem.length
    rcases round_cases hne with hcut | ⟨r, hitem⟩ | hend
    · obtain ⟨e, he⟩ := hcut.lexStep D line
      exact .inr ⟨⟨e, by rw [lexLoop, if_neg hne, he]⟩, cutOff_iff.mpr (.inl hcut)⟩
    · obtain ⟨line', token, hgo⟩ := hitem.lexStep D line
      have hloop : lexLoop D (fuel + 1) line p tokens =
          lexLoop D fuel line' r (tokens ++ token.toList) := by rw [lexLoop, if_neg hne, hgo]
      have hsame : CutOff p ↔ CutOff r := by
        rw [cutOff_iff]
        constructor
        · rintro (hcut | ⟨r', hitem', hcut⟩)
          · obtain ⟨e, he⟩ := hcut.lexStep D line
            cases he.symm.trans hgo
          · obtain ⟨_, _, hgo'⟩ := hitem'.lexStep D line
            cases hgo'.symm.trans hgo
            exact hcut
        · exact fun hcut => .inr ⟨r, hitem, hcut⟩
      rw [hloop, hsame]
      exact ih (Nat.lt_of_lt_of_le hitem.length (Nat.le_of_lt_succ hfuel)) line' _
    · have hnot : ¬CutOff p := by
        rw [cutOff_iff]
        rintro (hcut | ⟨r, hitem, -⟩)
        · obtain ⟨e, he⟩ := hcut.lexStep D line
          rcases hend D line with h | h
          · cases he.symm.trans h
          · cases he.symm.trans h
        · obtain ⟨_, _, hgo⟩ := hitem.lexStep D line
          rcases hend D line with h | h
          · cases hgo.symm.trans h
          · cases hgo.symm.trans h
      rcases hend D line with h | h
      · exact .inl ⟨⟨(false, tokens), by rw [lexLoop, if_neg hne, h]⟩, hnot⟩
      · exact .inl ⟨⟨(true, tokens), by rw [lexLoop, if_neg hne, h]⟩, hnot⟩

end

/-- **When the lexer returns.** It always ends; it returns true or false if and only if no item of the
    text that it comes to is cut, and otherwise an exception of the decoder escapes it. -/
theorem lexer_returns_iff (D : ReadNumber) (buffer : List UInt8) :
    ((∃ r, lexer D buffer = some (.ok r)) ↔ ¬CutOff buffer) ∧
      ((∃ e, lexer D buffer = some (.error e)) ↔ CutOff buffer) := by
  have hcases : (∃ r, lexer D buffer = some (.ok r)) ∧ ¬CutOff buffer ∨
      (∃ e, lexer D buffer = some (.error e)) ∧ CutOff buffer := by
    rw [lexer]
    by_cases hne : buffer = []
    · subst hne
      refine .inl ⟨⟨(false, []), by rw [if_pos rfl]⟩, ?_⟩
      rw [cutOff_iff]
      rintro (hcut | ⟨r, hitem, -⟩)
      · exact hcut.ne_nil rfl
      · exact Nat.not_lt_zero _ hitem.length
    · rw [if_neg hne]
      exact lexLoop_cases D (Nat.lt_succ_self _) 1 []
  rcases hcases with ⟨⟨r, hr⟩, hnot⟩ | ⟨⟨e, he⟩, hcut⟩
  · refine ⟨iff_of_true ⟨r, hr⟩ hnot, iff_of_false ?_ hnot⟩
    rintro ⟨e, he⟩
    cases hr.symm.trans he
  · refine ⟨iff_of_false ?_ (not_not.mpr hcut), iff_of_true ⟨e, he⟩ hcut⟩
    rintro ⟨r, hr⟩
    cases hr.symm.trans he

/-! ## Texts that end too early -/

def plainReader : ReadNumber := ⟨⟨fun _ => 0, fun d _ => d⟩, fun _ => 0⟩

/-- `1`, and `//x`: the end of the text is the end of the number and of the comment. -/
theorem lexer_throws :
    lexer plainReader [0x31] = some (.error .notEnoughRoom) ∧
      lexer plainReader [0x2f, 0x2f, 0x78] = some (.error .notEnoughRoom) := by
  have hend : Utf8.next [] = .error .notEnoughRoom := rfl
  constructor
  · have hone : Utf8.next [0x31] = .ok ('1', ⟨[], by decide⟩) := rfl
    have hnumber : scanNumber [] false '1' [0x31] [] = .error .notEnoughRoom := by
      rw [scanNumber, if_neg (by decide), if_neg (by decide), if_pos (by decide), hend]
    have hstep : lexStep plainReader 1 [0x31] = .error .notEnoughRoom := by
      rw [lexStep, hone]
      show lexNumber plainReader 1 '1' [0x31] [] = _
      rw [lexNumber, hnumber]
    rw [lexer, if_neg (by decide), lexLoop, if_neg (by decide), hstep]
  · have hslash : Utf8.next [0x2f, 0x2f, 0x78] = .ok ('/', ⟨[0x2f, 0x78], by decide⟩) := rfl
    have hslash' : Utf8.next [0x2f, 0x78] = .ok ('/', ⟨[0x78], by decide⟩) := rfl
    have hx : Utf8.next [0x78] = .ok ('x', ⟨[], by decide⟩) := rfl
    have hline : skipLine [0x78] = .error .notEnoughRoom := by
      rw [skipLine, hx]
      show skipLine [] = _
      rw [skipLine, hend]
    have hstep : lexStep plainReader 1 [0x2f, 0x2f, 0x78] = .error .notEnoughRoom := by
      rw [lexStep, hslash]
      show lexComment 1 '/' [0x2f, 0x78] = _
      rw [lexComment, hslash']
      show (skipLine [0x78]).map _ = _
      rw [hline]
      rfl
    rw [lexer, if_neg (by decide), lexLoop, if_neg (by decide), hstep]

end B0rk.ByteLexer
