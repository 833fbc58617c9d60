import B0rk.Parser.Lexer

set_option autoImplicit false

/-! # Lexing undoes printing

Tokens that are printed with a space behind each of them are read back as they were: in front of a
space, each round of the lexer reads exactly the token that was printed. -/

namespace B0rk

/-! ## Printed tokens -/

/-- A token as it stands in a source file. -/
inductive SourceToken
  /-- an operator, a bracket or a keyword -/
  | simple (token : SimpleToken) (mem : token ∈ tokenTable)
      (quote : token.token ≠ .tokDoubleQuote)
  | identifier (first : Char) (rest : List Char) (alpha : first.isAlpha)
      (alphanum : ∀ c ∈ rest, c.isAlphanum)
      (keyword : ∀ token ∈ tokenTable, token.str.toList ≠ first :: rest)
  | integer (i : ℤ) (bound : i.natAbs < 2 ^ 31)
  | string (str : List Char) (quote : '"' ∉ str) (backslash : '\\' ∉ str)

/-- How the characters of a string literal are written: a newline also as `\n`. -/
structure Spelling where
  char : Char → List Char
  spells : ∀ c, char c = [c] ∨ c = '\n' ∧ char c = ['\\', 'n']

/-- Every newline as `\n`. -/
def Spelling.escaped : Spelling where
  char c := if c = '\n' then ['\\', 'n'] else [c]
  spells c := by
    split
    · next h => exact .inr ⟨h, rfl⟩
    · exact .inl rfl

def printInteger (i : ℤ) : List Char :=
  if i < 0 then '-' :: Nat.toDigits 10 i.natAbs else Nat.toDigits 10 i.natAbs

namespace SourceToken

def print (spelling : Spelling) : SourceToken → List Char
  | simple token _ _ => token.str.toList
  | identifier first rest _ _ _ => first :: rest
  | integer i _ => printInteger i
  | string str _ _ => '"' :: (str.flatMap spelling.char ++ ['"'])

/-- The token that the lexer should make of it. -/
def token (line : ℕ) : SourceToken → Token
  | simple token _ _ => { type := token.token, line := line, string := token.str, i := 0, d := 0 }
  | identifier first rest _ _ _ =>
      { type := .tokIdentifier, line := line, string := String.ofList (first :: rest), i := 0, d := 0 }
  | integer i _ =>
      { type := .tokInteger, line := line, string := "", i := BitVec.ofInt 32 i, d := 0 }
  | string str _ _ =>
      { type := .tokString, line := line, string := String.ofList str, i := 0, d := 0 }

end SourceToken

/-- The text of some tokens: a space behind each, and a newline at the end. -/
def printTokens (spelling : Spelling) (tokens : List SourceToken) : List Char :=
  tokens.flatMap (fun t => t.print spelling ++ [' ']) ++ ['\n']

/-! ## Characters -/

theorem isAlpha_toNat {c : Char} (h : c.isAlpha) :
    65 ≤ c.toNat ∧ c.toNat ≤ 90 ∨ 97 ≤ c.toNat ∧ c.toNat ≤ 122 := by
  rcases Bool.or_eq_true_iff.mp h with h | h
  · exact .inl (of_decide_eq_true h)
  · obtain ⟨hlow, hhigh⟩ := Bool.and_eq_true_iff.mp h
    exact .inr ⟨of_decide_eq_true hlow, of_decide_eq_true hhigh⟩

theorem isAlpha_bounds {c : Char} (h : c.isAlpha) : 65 ≤ c.toNat := by
  rcases isAlpha_toNat h with h | h <;> omega

theorem isDigit_bounds {c : Char} (h : c.isDigit) : 48 ≤ c.toNat ∧ c.toNat ≤ 57 :=
  Char.isDigit_iff_toNat.mp h

theorem isDigit_of_isAlpha {c : Char} (h : c.isAlpha) : c.isDigit = false := by
  refine Bool.eq_false_iff.mpr fun hdigit => ?_
  have := isAlpha_bounds h
  have := isDigit_bounds hdigit
  omega

theorem isSpace_eq_false {c : Char} (h : 48 ≤ c.toNat) : isSpace c = false := by
  refine Bool.eq_false_iff.mpr fun hspace => ?_
  simp only [isSpace, Bool.or_eq_true, beq_iff_eq] at hspace
  rcases hspace with ((((rfl | rfl) | rfl) | rfl) | rfl) | rfl <;> exact absurd h (by decide)

theorem ne_of_le_toNat {c d : Char} (h : 48 ≤ c.toNat) (hd : d.toNat < 48) : c ≠ d := by
  rintro rfl
  omega

/-! ## Words -/

/-- The lookahead in front of a space. -/
theorem peekNext_space (s rest : List Char) :
    peekNext (s ++ ' ' :: rest) = '\x00' ∨ peekNext (s ++ ' ' :: rest) = s.headD ' ' := by
  match s, rest with
  | [], [] => exact .inl rfl
  | [], _ :: _ => exact .inr rfl
  | [_], _ => exact .inr rfl
  | _ :: _ :: _, _ => exact .inr rfl

/-- The entries of the table are words of the given length, without spaces. -/
theorem tokenTable_words : ∀ token ∈ tokenTable,
    token.str.toList.length = token.length ∧ ' ' ∉ token.str.toList ∧ token.str.toList ≠ [] := by
  decide

theorem isPrefixOf_behind {sep : Char} {w s rest : List Char} (hw : sep ∉ w) :
    w.isPrefixOf (s ++ sep :: rest) = w.isPrefixOf s := by
  induction w generalizing s with
  | nil => rfl
  | cons c w ih =>
    rw [List.mem_cons, not_or] at hw
    cases s with
    | nil =>
      have hc : (c == sep) = false := by simpa using Ne.symm hw.1
      simp [List.isPrefixOf, hc]
    | cons d s => rw [List.cons_append, List.isPrefixOf, List.isPrefixOf, ih hw.2]

/-- In front of a space it does not matter what is behind the space. -/
theorem checkWord_space {token : SimpleToken} (htoken : token ∈ tokenTable) (s rest : List Char) :
    checkWord (s ++ ' ' :: rest) token = (checkWord (s ++ [' ']) token).map (· ++ rest) := by
  obtain ⟨hlength, hspace, -⟩ := tokenTable_words token htoken
  unfold checkWord
  rw [isPrefixOf_behind hspace, isPrefixOf_behind hspace]
  split
  · next hprefix =>
    obtain ⟨u, rfl⟩ := List.isPrefixOf_iff_prefix.mp hprefix
    have hdrop (rest : List Char) : (token.str.toList ++ u ++ ' ' :: rest).drop token.length =
        u ++ ' ' :: rest := by
      rw [List.append_assoc, ← hlength, List.drop_left]
    have hhead (rest : List Char) : (u ++ ' ' :: rest).headD '\x00' = u.headD ' ' := by
      cases u <;> rfl
    have hfirst (rest : List Char) : (token.str.toList ++ u ++ ' ' :: rest).headD '\x00' =
        (token.str.toList ++ u).headD ' ' := by
      cases token.str.toList ++ u <;> rfl
    simp only [hdrop, hhead, hfirst]
    split
    · rfl
    · simp
  · rfl

theorem findSome?_space {table : List SimpleToken} (htable : ∀ token ∈ table, token ∈ tokenTable)
    (s rest : List Char) :
    table.findSome? (fun token => (checkWord (s ++ ' ' :: rest) token).map (token, ·)) =
      (table.findSome? (fun token => (checkWord (s ++ [' ']) token).map (token, ·))).map
        (fun r => (r.1, r.2 ++ rest)) := by
  induction table with
  | nil => rfl
  | cons token table ih =>
    rw [List.findSome?_cons, List.findSome?_cons,
      checkWord_space (htable token List.mem_cons_self)]
    cases checkWord (s ++ [' ']) token with
    | none => exact ih (fun t ht => htable t (List.mem_cons_of_mem _ ht))
    | some pos => rfl

/-- Each token of the table, in front of a space, is the first one of the table that matches. -/
theorem tokenTable_first : ∀ token ∈ tokenTable, token.token ≠ .tokDoubleQuote →
    tokenTable.findSome?
      (fun t => (checkWord (token.str.toList ++ [' ']) t).map (t, ·)) = some (token, [' ']) := by
  decide

/-- A token of the table is read. -/
theorem lexWord_simple {token : SimpleToken} (htoken : token ∈ tokenTable)
    (hquote : token.token ≠ .tokDoubleQuote) {cur : Char} {pos rest : List Char} (line : ℕ)
    (hprint : token.str.toList ++ ' ' :: rest = cur :: pos) :
    lexWord line cur pos = .go line (' ' :: rest)
      (some { type := token.token, line := line, string := token.str, i := 0, d := 0 }) := by
  unfold lexWord
  rw [← hprint, findSome?_space (fun _ h => h), tokenTable_first token htoken hquote]
  rfl

theorem isWordChar_eq (c : Char) : isWordChar c = c.isAlphanum := by
  unfold isWordChar chartype Char.isAlphanum
  cases c.isAlpha <;> cases c.isDigit <;> cases isSpace c <;> rfl

theorem isAlphanum_of_isAlpha {c : Char} (h : c.isAlpha) : c.isAlphanum := by
  rw [Char.isAlphanum, h, Bool.true_or]

/-- An identifier is not cut at a keyword that it begins with. -/
theorem checkWord_identifier {token : SimpleToken} (htoken : token ∈ tokenTable) {first : Char}
    {name : List Char} (halpha : first.isAlpha) (halphanum : ∀ c ∈ name, c.isAlphanum)
    (hkeyword : token.str.toList ≠ first :: name) :
    checkWord (first :: name ++ [' ']) token = none := by
  obtain ⟨hlength, hspace, hne⟩ := tokenTable_words token htoken
  unfold checkWord
  rw [isPrefixOf_behind hspace]
  split
  · next hprefix =>
    obtain ⟨u, hu⟩ := List.isPrefixOf_iff_prefix.mp hprefix
    obtain ⟨d, u, rfl⟩ : ∃ d u', u = d :: u' := by
      refine List.exists_cons_of_ne_nil ?_
      rintro rfl
      exact hkeyword ((List.append_nil _).symm.trans hu)
    have hd : d.isAlphanum := by
      have hmem : d ∈ first :: name := hu ▸ List.mem_append_right _ List.mem_cons_self
      rcases List.mem_cons.mp hmem with rfl | hmem
      · exact isAlphanum_of_isAlpha halpha
      · exact halphanum d hmem
    have hdrop : (first :: name ++ [' ']).drop token.length = d :: (u ++ [' ']) := by
      rw [← hu, List.append_assoc, ← hlength, List.drop_left]
      rfl
    have hfirst : isWordChar ((first :: name ++ [' ']).headD '\x00') = true :=
      (isWordChar_eq first).trans (isAlphanum_of_isAlpha halpha)
    have hnext : isWordChar ((d :: (u ++ [' '])).headD '\x00') = true := (isWordChar_eq d).trans hd
    simp only [hdrop, hfirst, hnext, Bool.and_self, if_true]
  · rfl

theorem isIdentifierChar_of_isAlphanum {c : Char} (h : c.isAlphanum) : isIdentifierChar c := by
  rw [isIdentifierChar, h, Bool.true_or, Bool.true_or]

/-- An identifier is read. -/
theorem lexWord_identifier {first : Char} {name : List Char} (halpha : first.isAlpha)
    (halphanum : ∀ c ∈ name, c.isAlphanum)
    (hkeyword : ∀ token ∈ tokenTable, token.str.toList ≠ first :: name) (line : ℕ)
    (rest : List Char) :
    lexWord line first (name ++ ' ' :: rest) = .go line (' ' :: rest) (some
      { type := .tokIdentifier, line := line, string := String.ofList (first :: name), i := 0
        d := 0 }) := by
  have hnone : tokenTable.findSome?
      (fun t => (checkWord (first :: name ++ ' ' :: rest) t).map (t, ·)) = none := by
    rw [findSome?_space (fun _ h => h), Option.map_eq_none_iff, List.findSome?_eq_none_iff]
    intro token htoken
    rw [checkWord_identifier htoken halpha halphanum (hkeyword token htoken)]
    rfl
  have hdigit := isDigit_of_isAlpha halpha
  have hname : ∀ c ∈ name, isIdentifierChar c :=
    fun c hc => isIdentifierChar_of_isAlphanum (halphanum c hc)
  have hspace : isIdentifierChar ' ' = false := by decide
  unfold lexWord
  rw [List.cons_append] at hnone
  simp only [hnone, isIdentifierChar_of_isAlphanum (isAlphanum_of_isAlpha halpha), hdigit,
    Bool.not_false, Bool.and_self, if_true, List.takeWhile_append_of_pos hname,
    List.dropWhile_append_of_pos hname, List.takeWhile_cons, List.dropWhile_cons, hspace,
    Bool.false_eq_true, if_false, List.append_nil]

/-! ## Numbers -/

/-- A character that a number without a dot does not go on with. -/
structure EndsNumber (sep : Char) : Prop where
  digit : sep.isDigit = false
  dot : sep ≠ '.'
  exponent : ¬(sep = 'e' ∨ sep = 'E')

theorem endsNumber_space : EndsNumber ' ' := ⟨by decide, by decide, by decide⟩

/-- Digits are read to their end. What is behind them is put back, for which something has to stand
    behind it. -/
theorem scanNumber_digits {sep cur : Char} {digits rest : List Char} (hsep : EndsNumber sep)
    (hcur : cur.isDigit) (hdigits : ∀ c ∈ digits, c.isDigit) (str : List Char) (hrest : rest ≠ []) :
    scanNumber str false cur (digits ++ sep :: rest) =
      some (some ⟨str ++ cur :: digits, false, none, sep :: rest⟩) := by
  have hbounds := isDigit_bounds hcur
  have hminus : cur ≠ '-' := ne_of_le_toNat hbounds.1 (by decide)
  have hdot : cur ≠ '.' := ne_of_le_toNat hbounds.1 (by decide)
  induction digits generalizing cur str with
  | nil =>
    have hprior : prior sep rest = some (sep :: rest) := by
      rw [prior, if_neg (by simpa using hrest)]
    rw [List.nil_append, scanNumber, if_neg hminus, if_neg (fun h => hdot h.1), if_pos hcur]
    show scanNumber (str ++ [cur]) false sep rest = _
    have hstr : str ++ [cur] ≠ [] := by simp
    unfold scanNumber
    dsimp only
    have hdotted : ¬(sep = '.' ∧ false = false) := fun h => hsep.dot h.1
    have hdigit : ¬sep.isDigit = true := by simp [hsep.digit]
    rw [hprior, if_pos hstr, if_neg hdotted, if_neg hdigit, if_neg hsep.exponent, ite_self]
    rfl
  | cons d digits ih =>
    obtain ⟨hd, hdigits⟩ := List.forall_mem_cons.mp hdigits
    have hbounds := isDigit_bounds hd
    rw [List.cons_append, scanNumber, if_neg hminus, if_neg (fun h => hdot h.1), if_pos hcur]
    show scanNumber (str ++ [cur]) false d (digits ++ sep :: rest) = _
    rw [ih hd hdigits _ hbounds (ne_of_le_toNat hbounds.1 (by decide))
      (ne_of_le_toNat hbounds.1 (by decide)), List.append_assoc]
    rfl

theorem isDigit_toDigits {n : ℕ} {c : Char} (h : c ∈ Nat.toDigits 10 n) : c.isDigit :=
  Nat.isDigit_of_mem_toDigits (by decide) (by decide) h

theorem signedDecimal_printInteger (i : ℤ) : signedDecimal (printInteger i) = i := by
  unfold printInteger
  split
  · next hneg =>
    show -(Nat.ofDigitChars 10 (Nat.toDigits 10 i.natAbs) 0 : ℤ) = i
    rw [Nat.ofDigitChars_ten_toDigits]
    omega
  · next hpos =>
    obtain ⟨d, digits, hdigits⟩ :=
      List.exists_cons_of_ne_nil (Nat.toDigits_ne_nil (n := i.natAbs) (b := 10))
    have hd : d ≠ '-' := by
      have hdigit : d.isDigit := isDigit_toDigits (hdigits ▸ List.mem_cons_self)
      exact ne_of_le_toNat (isDigit_bounds hdigit).1 (by decide)
    have hplain : signedDecimal (d :: digits) = Nat.ofDigitChars 10 (d :: digits) 0 := by
      unfold signedDecimal
      split
      · next h => exact absurd (List.cons.inj h).1 hd
      · rfl
    rw [hdigits, hplain, ← hdigits, Nat.ofDigitChars_ten_toDigits]
    omega

theorem atoi_printInteger {i : ℤ} (h : i.natAbs < 2 ^ 31) :
    atoi (printInteger i) = some (BitVec.ofInt 32 i) := by
  have hbounds : -2 ^ 31 ≤ i ∧ i < 2 ^ 31 := by omega
  unfold atoi
  simp only [signedDecimal_printInteger]
  exact if_pos hbounds

/-- An integer is read. -/
theorem lexNumber_integer (D : ReadDouble) {i : ℤ} (h : i.natAbs < 2 ^ 31) {cur : Char}
    {pos rest : List Char} (line : ℕ) (hrest : rest ≠ [])
    (hprint : printInteger i ++ ' ' :: rest = cur :: pos) :
    lexNumber D line cur pos = some (.go line (' ' :: rest) (some
      { type := .tokInteger, line := line, string := "", i := BitVec.ofInt 32 i, d := 0 })) := by
  have hscan : scanNumber [] false cur pos =
      some (some ⟨printInteger i, false, none, ' ' :: rest⟩) := by
    obtain ⟨d, digits, hdigits⟩ :=
      List.exists_cons_of_ne_nil (Nat.toDigits_ne_nil (n := i.natAbs) (b := 10))
    have hall : ∀ c ∈ d :: digits, c.isDigit := fun c hc => isDigit_toDigits (hdigits ▸ hc)
    obtain ⟨hd, hall⟩ := List.forall_mem_cons.mp hall
    unfold printInteger at hprint ⊢
    rw [hdigits] at hprint ⊢
    split at hprint
    · next hneg =>
      obtain ⟨rfl, rfl⟩ := List.cons.inj hprint
      rw [if_pos hneg]
      show scanNumber ['-'] false d (digits ++ ' ' :: rest) = _
      exact scanNumber_digits endsNumber_space hd hall _ hrest
    · next hpos =>
      obtain ⟨rfl, rfl⟩ := List.cons.inj hprint
      rw [if_neg hpos]
      exact scanNumber_digits endsNumber_space hd hall _ hrest
  simp only [lexNumber, hscan, numberToken, atoi_printInteger h, Option.bind_eq_bind,
    Option.bind_some, Bool.false_eq_true, if_false]

/-! ## Strings -/

theorem readString_quote (str rest : List Char) :
    readString str ('"' :: rest) = some (some (str, rest)) := by
  unfold readString
  rw [if_neg (by decide), if_pos rfl]

theorem readString_newline (str rest : List Char) :
    readString str ('\\' :: 'n' :: rest) = readString (str ++ ['\n']) rest := by
  conv_lhs => unfold readString
  rw [if_pos rfl]
  exact if_pos rfl

theorem readString_other {c : Char} (hquote : c ≠ '"') (hbackslash : c ≠ '\\')
    (str rest : List Char) : readString str (c :: rest) = readString (str ++ [c]) rest := by
  conv_lhs => unfold readString
  rw [if_neg hbackslash, if_neg hquote]

/-- The text of a literal is read to its end. -/
theorem readString_spelling (spelling : Spelling) {text : List Char} (hquote : '"' ∉ text)
    (hbackslash : '\\' ∉ text) (str rest : List Char) :
    readString str (text.flatMap spelling.char ++ '"' :: rest) = some (some (str ++ text, rest)) := by
  induction text generalizing str with
  | nil =>
    rw [List.append_nil]
    exact readString_quote str rest
  | cons c text ih =>
    rw [List.mem_cons, not_or] at hquote hbackslash
    rw [List.flatMap_cons, List.append_assoc]
    rcases spelling.spells c with hc | ⟨rfl, hc⟩
    · rw [hc, List.cons_append, List.nil_append,
        readString_other (Ne.symm hquote.1) (Ne.symm hbackslash.1), ih hquote.2 hbackslash.2,
        List.append_assoc]
      rfl
    · rw [hc, List.cons_append, List.cons_append, List.nil_append, readString_newline,
        ih hquote.2 hbackslash.2, List.append_assoc]
      rfl

/-- A string literal is read. -/
theorem lexString_spelling (spelling : Spelling) {text : List Char} (hquote : '"' ∉ text)
    (hbackslash : '\\' ∉ text) (line : ℕ) (rest : List Char) :
    lexString line (text.flatMap spelling.char ++ '"' :: rest) = some (.go line rest (some
      { type := .tokString, line := line, string := String.ofList text, i := 0, d := 0 })) := by
  simp only [lexString, readString_spelling spelling hquote hbackslash, List.nil_append,
    Option.bind_eq_bind, Option.bind_some]

/-! ## Rounds -/

/-- When a round comes to the table. -/
theorem lexStep_word (D : ReadDouble) (line : ℕ) {cur : Char} {pos : List Char}
    (hend : cur ≠ '\x00') (hspace : isSpace cur = false) (hdigit : cur.isDigit = false)
    (hcomment : cur = '/' → peekNext pos ≠ '/' ∧ peekNext pos ≠ '*')
    (hminus : cur = '-' → (peekNext pos).isDigit = false) (hquote : cur ≠ '"') :
    lexStep D line cur pos = some (lexWord line cur pos) := by
  unfold lexStep
  rw [if_neg hend, if_neg (fun h => (hcomment h.1).1 h.2), if_neg (fun h => (hcomment h.1).2 h.2)]
  have hnumber : ¬((cur.isDigit || (cur == '-' && (peekNext pos).isDigit)) = true) := by
    rw [hdigit, Bool.false_or, Bool.and_eq_true, beq_iff_eq]
    rintro ⟨h, h'⟩
    rw [hminus h] at h'
    cases h'
  rw [hspace, if_neg Bool.false_ne_true, if_neg hnumber, if_neg hquote]

/-- When a round comes to a number. -/
theorem lexStep_number (D : ReadDouble) (line : ℕ) {cur : Char} {pos : List Char}
    (h : cur.isDigit ∨ cur = '-' ∧ (peekNext pos).isDigit) :
    lexStep D line cur pos = lexNumber D line cur pos := by
  have hcur : cur ≠ '\x00' ∧ cur ≠ '/' ∧ isSpace cur = false := by
    rcases h with h | ⟨rfl, -⟩
    · have hbounds := (isDigit_bounds h).1
      exact ⟨ne_of_le_toNat hbounds (by decide), ne_of_le_toNat hbounds (by decide),
        isSpace_eq_false hbounds⟩
    · decide
  have hnumber : (cur.isDigit || (cur == '-' && (peekNext pos).isDigit)) = true := by
    rw [Bool.or_eq_true, Bool.and_eq_true, beq_iff_eq]
    exact h
  unfold lexStep
  rw [if_neg hcur.1, if_neg (fun h => hcur.2.1 h.1), if_neg (fun h => hcur.2.1 h.1), hcur.2.2,
    if_neg Bool.false_ne_true, if_pos hnumber]

theorem printInteger_begin {i : ℤ} {cur : Char} {pos rest : List Char}
    (h : printInteger i ++ ' ' :: rest = cur :: pos) :
    cur.isDigit ∨ cur = '-' ∧ (peekNext pos).isDigit := by
  obtain ⟨d, digits, hdigits⟩ :=
    List.exists_cons_of_ne_nil (Nat.toDigits_ne_nil (n := i.natAbs) (b := 10))
  have hd : d.isDigit := isDigit_toDigits (hdigits ▸ List.mem_cons_self)
  unfold printInteger at h
  rw [hdigits] at h
  split at h
  · obtain ⟨rfl, rfl⟩ := List.cons.inj h
    refine .inr ⟨rfl, ?_⟩
    cases digits <;> exact hd
  · obtain ⟨rfl, rfl⟩ := List.cons.inj h
    exact .inl hd

/-- How the entries of the table begin. -/
theorem tokenTable_begin : ∀ token ∈ tokenTable, token.token ≠ .tokDoubleQuote →
    let cur := token.str.toList.headD ' '
    let next := token.str.toList.tail.headD ' '
    cur ≠ '\x00' ∧ isSpace cur = false ∧ cur.isDigit = false ∧
      (cur = '/' → next ≠ '/' ∧ next ≠ '*') ∧ (cur = '-' → next.isDigit = false) ∧ cur ≠ '"' := by
  decide

/-- **In front of a space, a round reads exactly the printed token.** -/
theorem lexStep_print (D : ReadDouble) (spelling : Spelling) (line : ℕ) (t : SourceToken)
    {rest : List Char} (hrest : rest ≠ []) :
    ∃ cur pos, t.print spelling ++ ' ' :: rest = cur :: pos ∧
      lexStep D line cur pos = some (.go line (' ' :: rest) (some (t.token line))) := by
  cases t with
  | simple token htoken hquote =>
    obtain ⟨hend, hspace, hdigit, hcomment, hminus, hdouble⟩ := tokenTable_begin token htoken hquote
    obtain ⟨cur, tail, hstr⟩ := List.exists_cons_of_ne_nil (tokenTable_words token htoken).2.2
    simp only [hstr, List.headD_cons, List.tail_cons] at hend hspace hdigit hcomment hminus hdouble
    have hprint : token.str.toList ++ ' ' :: rest = cur :: (tail ++ ' ' :: rest) := by
      rw [hstr]
      rfl
    refine ⟨cur, _, hprint, ?_⟩
    rw [SourceToken.token, ← lexWord_simple htoken hquote line hprint]
    refine lexStep_word D line hend hspace hdigit (fun h => ?_) (fun h => ?_) hdouble
    · rcases peekNext_space tail rest with hnext | hnext
      · rw [hnext]
        decide
      · rw [hnext]
        exact hcomment h
    · rcases peekNext_space tail rest with hnext | hnext
      · rw [hnext]
        rfl
      · rw [hnext]
        exact hminus h
  | identifier first name halpha halphanum hkeyword =>
    have hbounds : 48 ≤ first.toNat := Nat.le_trans (by decide) (isAlpha_bounds halpha)
    refine ⟨first, name ++ ' ' :: rest, rfl, ?_⟩
    rw [SourceToken.token, ← lexWord_identifier halpha halphanum hkeyword]
    refine lexStep_word D line (ne_of_le_toNat hbounds (by decide)) (isSpace_eq_false hbounds)
      (isDigit_of_isAlpha halpha) (fun h => ?_) (fun h => ?_) (ne_of_le_toNat hbounds (by decide))
    · exact absurd h (ne_of_le_toNat hbounds (by decide))
    · exact absurd h (ne_of_le_toNat hbounds (by decide))
  | integer i h =>
    have hne : printInteger i ++ ' ' :: rest ≠ [] := by simp
    obtain ⟨cur, pos, hprint⟩ := List.exists_cons_of_ne_nil hne
    refine ⟨cur, pos, hprint, ?_⟩
    rw [SourceToken.token, ← lexNumber_integer D h line hrest hprint]
    exact lexStep_number D line (printInteger_begin hprint)
  | string text hquote hbackslash =>
    refine ⟨'"', text.flatMap spelling.char ++ '"' :: ' ' :: rest, ?_, ?_⟩
    · rw [SourceToken.print, List.cons_append, List.append_assoc]
      rfl
    · rw [SourceToken.token, ← lexString_spelling spelling hquote hbackslash]
      rfl

theorem lexStep_space (D : ReadDouble) (line : ℕ) (pos : List Char) :
    lexStep D line ' ' pos = some (.go line pos none) := rfl

theorem lexLoop_go {D : ReadDouble} {line line' : ℕ} {cur : Char} {pos pos' : List Char}
    {token : Option Token} (h : lexStep D line cur pos = some (.go line' pos' token)) (fuel : ℕ)
    (tokens : List Token) :
    lexLoop D (fuel + 1) line (cur :: pos) tokens =
      lexLoop D fuel line' pos' (tokens ++ token.toList) := by
  rw [lexLoop, h]

/-- Two rounds for each printed token: for the token and for the space behind it. -/
theorem lexLoop_print (D : ReadDouble) (spelling : Spelling) (ts : List SourceToken) {fuel : ℕ}
    (hfuel : 2 * ts.length + 2 ≤ fuel) (line : ℕ) (tokens : List Token) :
    lexLoop D fuel line (printTokens spelling ts) tokens =
      some (true, tokens ++ ts.map (SourceToken.token line)) := by
  induction ts generalizing fuel tokens with
  | nil =>
    obtain ⟨fuel, rfl⟩ := Nat.exists_eq_add_of_le' hfuel
    rw [List.map_nil, List.append_nil]
    show lexLoop D (fuel + 1) (line + 1) [] (tokens ++ []) = _
    rw [List.append_nil]
    rfl
  | cons t ts ih =>
    rw [List.length_cons] at hfuel
    obtain ⟨fuel, rfl⟩ := Nat.exists_eq_add_of_le' (Nat.le_trans (Nat.le_add_left 2 _) hfuel)
    have hne : printTokens spelling ts ≠ [] := by simp [printTokens]
    obtain ⟨cur, pos, hprint, hstep⟩ := lexStep_print D spelling line t hne
    have htext : printTokens spelling (t :: ts) = cur :: pos := by
      rw [← hprint, printTokens, printTokens, List.flatMap_cons]
      simp
    rw [htext, lexLoop_go hstep, lexLoop_go (lexStep_space D line (printTokens spelling ts)),
      ih (by omega)]
    simp

theorem print_length_pos (spelling : Spelling) (t : SourceToken) :
    0 < (t.print spelling).length := by
  refine List.length_pos_iff.mpr ?_
  cases t with
  | simple token htoken hquote => exact (tokenTable_words token htoken).2.2
  | identifier first name halpha halphanum hkeyword => exact List.cons_ne_nil _ _
  | integer i h =>
    rw [SourceToken.print, printInteger]
    split
    · exact List.cons_ne_nil _ _
    · exact Nat.toDigits_ne_nil
  | string text hquote hbackslash => exact List.cons_ne_nil _ _

theorem printTokens_length (spelling : Spelling) (ts : List SourceToken) :
    2 * ts.length + 1 ≤ (printTokens spelling ts).length := by
  induction ts with
  | nil => exact Nat.le_refl 1
  | cons t ts ih =>
    have htext : printTokens spelling (t :: ts) =
        t.print spelling ++ ' ' :: printTokens spelling ts := by simp [printTokens]
    have := print_length_pos spelling t
    rw [htext, List.length_append, List.length_cons, List.length_cons]
    omega

theorem lexer_printTokens (D : ReadDouble) (spelling : Spelling) (ts : List SourceToken) :
    lexer D (printTokens spelling ts) = some (true, ts.map (SourceToken.token 1)) := by
  have hne : (printTokens spelling ts).isEmpty = false := by simp [printTokens]
  have hlength := printTokens_length spelling ts
  rw [lexer, if_neg (by simp [hne]), lexLoop_print D spelling ts (by omega), List.nil_append]

/-- **Lexing undoes printing.** The tokens have the types, the texts and the integers that they were
printed with. -/
theorem lexer_print (D : ReadDouble) (spelling : Spelling) (ts : List SourceToken) :
    lexer D (printTokens spelling ts) = some (true, ts.map (SourceToken.token 1)) ∧
      ∀ i bound, ((SourceToken.integer i bound).token 1).i.toInt = i := by
  refine ⟨lexer_printTokens D spelling ts, ?_⟩
  intro i bound
  show (BitVec.ofInt 32 i).toInt = i
  rw [BitVec.toInt_ofInt, Int.bmod_def]
  omega

/-- `x2 = -5 ;` -/
def assignmentTokens : List SourceToken :=
  [.identifier 'x' ['2'] (by decide) (List.forall_mem_singleton.mpr rfl) (by decide),
    .simple ⟨"=", 1, .tokAssign⟩ (by decide) (by decide), .integer (-5) (by omega),
    .simple ⟨";", 1, .tokSemicolon⟩ (by decide) (by decide)]

theorem lexer_print_assignment :
    printTokens .escaped assignmentTokens = "x2 = -5 ; \n".toList ∧
      lexer ⟨fun _ => 0, fun d _ => d⟩ "x2 = -5 ; \n".toList = some (true,
        [⟨.tokIdentifier, 1, "x2", 0, 0⟩, ⟨.tokAssign, 1, "=", 0, 0⟩, ⟨.tokInteger, 1, "", -5, 0⟩,
          ⟨.tokSemicolon, 1, ";", 0, 0⟩]) ∧
      (BitVec.ofInt 32 (-5)).toInt = -5 := by
  have hprint : printTokens .escaped assignmentTokens = "x2 = -5 ; \n".toList := by decide
  have hlexer := lexer_print ⟨fun _ => 0, fun d _ => d⟩ .escaped assignmentTokens
  refine ⟨hprint, ?_, hlexer.2 (-5) (by decide)⟩
  rw [← hprint, hlexer.1]
  decide

end B0rk
