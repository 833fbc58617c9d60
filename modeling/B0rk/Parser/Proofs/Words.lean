import B0rk.Parser.Proofs.ByteLexer
import B0rk.Parser.Proofs.Trail

set_option autoImplicit false

/-! # Words

A keyword is compared with the letters and digits that a text begins with, and an identifier is all
that is there of the characters of identifiers, which are more: `_` and what is not ASCII. -/

namespace B0rk.TextLexer

open ByteLexer (ReadNumber plainReader)

variable {D : ReadNumber} {line line' : ℕ} {cur : Char} {pos rest w before after text mid : List Char}
  {token : Option Token} {pieces : List Piece} {piece : Piece}

/-! ## The table -/

/-- The token of the table with this text. -/
def keyword (w : List Char) : Option SimpleToken :=
  tokenTable.find? (fun token => decide (token.str.toList = w))

/-- The token of a word. -/
def wordToken (line : ℕ) (w : List Char) : Token :=
  match keyword w with
  | some token => { type := token.token, line := line, string := token.str, i := 0, d := 0 }
  | none => { type := .tokIdentifier, line := line, string := String.ofList w, i := 0, d := 0 }

/-- The tokens of the table are words of letters, or they have no character of an identifier. -/
theorem tokenTable_chars : ∀ token ∈ tokenTable,
    (∀ c ∈ token.str.toList, isWordChar c = true) ∨
      (∀ c ∈ token.str.toList, isIdentifierChar c = false) := by
  have hall : ∀ token ∈ tokenTable, token.str.toList.all isWordChar = true ∨
      token.str.toList.all (fun c => !isIdentifierChar c) = true := by decide
  intro token htoken
  refine (hall token htoken).imp List.all_eq_true.mp fun h c hc => ?_
  exact (Bool.not_eq_true' _).mp (List.all_eq_true.mp h c hc)

theorem isIdentifierChar_of_isWordChar {c : Char} (h : isWordChar c = true) :
    isIdentifierChar c = true :=
  isIdentifierChar_of_isAlphanum ((isWordChar_eq c).symm.trans h)

/-- A text that begins with the characters of an identifier, in front of what is behind its letters and
    digits. -/
structure WordBegins (word rest : List Char) : Prop where
  chars : ∀ c ∈ word, isWordChar c = true
  behind : isWordChar (rest.headD '\x00') = false
  first : ∀ c, (word ++ rest).head? = some c → isIdentifierChar c = true

/-- A token of the table is there if and only if it is all the letters and digits. -/
theorem WordBegins.checkWord {word rest : List Char} (h : WordBegins word rest)
    {token : SimpleToken} (htoken : token ∈ tokenTable) : checkWord (word ++ rest) token =
      if token.str.toList = word then some rest else none := by
  obtain ⟨hlength, -, hne⟩ := tokenTable_words token htoken
  obtain ⟨k, ks, hk⟩ := List.exists_cons_of_ne_nil hne
  unfold B0rk.checkWord
  by_cases hword : token.str.toList = word
  · subst hword
    rw [if_pos rfl, if_pos (List.isPrefixOf_iff_prefix.mpr (List.prefix_append _ _)), ← hlength,
      List.drop_left]
    dsimp only
    rw [h.behind, Bool.and_false, if_neg Bool.false_ne_true]
  rw [if_neg hword]
  split
  · next hbegin =>
    rw [List.isPrefixOf_iff_prefix] at hbegin
    have hhead : isIdentifierChar k = true := by
      refine h.first k ?_
      obtain ⟨u, hu⟩ := hbegin
      rw [← hu, hk]
      rfl
    rcases tokenTable_chars token htoken with hchars | hchars
    · rcases List.prefix_or_prefix_of_prefix hbegin (List.prefix_append word rest) with hp | hp
      · -- the token is cut off a longer word
        obtain ⟨u, rfl⟩ := hp
        obtain ⟨d, u, rfl⟩ : ∃ d u', u = d :: u' := by
          refine List.exists_cons_of_ne_nil ?_
          rintro rfl
          exact hword (List.append_nil _).symm
        have hd : isWordChar d = true := h.chars d (by simp)
        have hk' : isWordChar k = true := hchars k (by simp [hk])
        rw [← hlength, List.append_assoc, List.drop_left, hk]
        exact if_pos (by rw [Bool.and_eq_true]; exact ⟨hk', hd⟩)
      · -- the token goes on behind the word
        obtain ⟨u, hu⟩ := hp
        obtain ⟨d, u, rfl⟩ : ∃ d u', u = d :: u' := by
          refine List.exists_cons_of_ne_nil ?_
          rintro rfl
          exact hword (by rw [← hu, List.append_nil])
        rw [← hu, List.prefix_append_right_inj] at hbegin
        obtain ⟨v, rfl⟩ := hbegin
        have hd : isWordChar d = true := hchars d (by simp [← hu])
        have hrest := h.behind
        rw [List.cons_append, List.headD_cons, hd] at hrest
        cases hrest
    · rw [hchars k (by simp [hk])] at hhead
      cases hhead
  · rfl

theorem WordBegins.matchToken {word rest : List Char} (h : WordBegins word rest) :
    matchToken (word ++ rest) = (keyword word).map (·, rest) := by
  have hall : ∀ table : List SimpleToken, (∀ token ∈ table, token ∈ tokenTable) →
      table.findSome? (fun token => (B0rk.checkWord (word ++ rest) token).map (token, ·)) =
        (table.find? (fun token => decide (token.str.toList = word))).map (·, rest) := by
    intro table
    induction table with
    | nil => exact fun _ => rfl
    | cons token table ih =>
      intro htable
      rw [List.findSome?_cons, List.find?_cons, h.checkWord (htable token List.mem_cons_self)]
      by_cases hword : token.str.toList = word
      · rw [if_pos hword, decide_eq_true hword]
        rfl
      · rw [if_neg hword, decide_eq_false hword]
        exact ih (fun t ht => htable t (List.mem_cons_of_mem _ ht))
  exact hall tokenTable (fun _ h => h)

/-! ## Runs -/

/-- Characters of identifiers, the first of which is no digit. -/
structure IsWord (w : List Char) : Prop where
  ne_nil : w ≠ []
  chars : ∀ c ∈ w, isIdentifierChar c = true
  first : ∀ c, w.head? = some c → c.isDigit = false

/-- A text that does not go on a word. -/
def EndsWord (rest : List Char) : Prop := ∀ c, rest.head? = some c → isIdentifierChar c = false

/-- The part of a word that is compared with the keywords: its first letters and digits. -/
def keywordPart (w : List Char) : List Char := w.takeWhile isWordChar

/-- A word is not cut: what is compared with the keywords is no keyword, or the whole word. -/
def Uncut (w : List Char) : Prop := keyword (keywordPart w) = none ∨ keywordPart w = w

theorem EndsWord.headD (h : EndsWord rest) : isWordChar (rest.headD '\x00') = false := by
  cases rest with
  | nil => rfl
  | cons c rest =>
    refine Bool.eq_false_iff.mpr fun hc => ?_
    exact Bool.false_ne_true ((h c rfl).symm.trans (isIdentifierChar_of_isWordChar hc))

theorem keywordPart_append (w rest : List Char) :
    keywordPart w ++ (w.dropWhile isWordChar ++ rest) = w ++ rest := by
  rw [keywordPart, ← List.append_assoc, List.takeWhile_append_dropWhile]

theorem wordBegins (hchars : ∀ c ∈ w, isIdentifierChar c = true) (hne : w ≠ []) (hrest : EndsWord rest) :
    WordBegins (keywordPart w) (w.dropWhile isWordChar ++ rest) where
  chars := fun c hc => List.mem_takeWhile_imp hc
  behind := by
    cases hdrop : w.dropWhile isWordChar with
    | nil => exact hrest.headD
    | cons c u =>
      have hhead := List.head?_dropWhile_not isWordChar w
      rw [hdrop] at hhead
      simpa using hhead
  first := by
    intro c hc
    rw [keywordPart_append] at hc
    obtain ⟨d, u, rfl⟩ := List.exists_cons_of_ne_nil hne
    obtain rfl := Option.some.inj hc
    exact hchars d List.mem_cons_self

/-- A word is read. -/
theorem lexWord_word (hw : IsWord (cur :: pos)) (hrest : EndsWord rest) :
    lexWord line cur (pos ++ rest) =
      match keyword (keywordPart (cur :: pos)) with
      | some token => .go line ((cur :: pos).dropWhile isWordChar ++ rest)
          (some { type := token.token, line := line, string := token.str, i := 0, d := 0 })
      | none => .go line rest (some
          { type := .tokIdentifier, line := line, string := String.ofList (cur :: pos), i := 0
            d := 0 }) := by
  have hmatch := (wordBegins hw.chars hw.ne_nil hrest).matchToken
  rw [keywordPart_append] at hmatch
  have hchar : isIdentifierChar cur = true := hw.chars cur List.mem_cons_self
  have hdigit : cur.isDigit = false := hw.first cur rfl
  have htake : (pos ++ rest).takeWhile isIdentifierChar = pos ∧
      (pos ++ rest).dropWhile isIdentifierChar = rest := by
    have hpos : ∀ c ∈ pos, isIdentifierChar c = true := fun c hc => hw.chars c (List.mem_cons_of_mem _ hc)
    rw [List.takeWhile_append_of_pos hpos, List.dropWhile_append_of_pos hpos]
    cases rest with
    | nil => simp
    | cons c rest => simp [hrest c rfl]
  unfold lexWord
  rw [show tokenTable.findSome? (fun token => (B0rk.checkWord (cur :: (pos ++ rest)) token).map
    (token, ·)) = _ from hmatch]
  cases keyword (keywordPart (cur :: pos)) with
  | some token => rfl
  | none =>
    simp only [Option.map_none, hchar, hdigit, Bool.not_false, Bool.and_self, if_true, htake]

theorem keyword_some {token : SimpleToken} (h : keyword w = some token) :
    token ∈ tokenTable ∧ token.str.toList = w := by
  unfold keyword at h
  have htext := List.find?_some h
  rw [decide_eq_true_eq] at htext
  exact ⟨List.mem_of_find?_eq_some h, htext⟩

theorem keywordPart_keyword (hw : IsWord w) {token : SimpleToken} (h : keyword w = some token) :
    keywordPart w = w := by
  obtain ⟨htoken, rfl⟩ := keyword_some h
  rcases tokenTable_chars token htoken with hchars | hchars
  · exact List.takeWhile_eq_self_iff.mpr hchars
  · obtain ⟨c, u, hcons⟩ := List.exists_cons_of_ne_nil hw.ne_nil
    have hmem : c ∈ token.str.toList := by rw [hcons]; exact List.mem_cons_self
    exact absurd ((hchars c hmem).symm.trans (hw.chars c hmem)) Bool.false_ne_true

/-- A word is read as one token if and only if it is not cut. -/
theorem lexWord_word_iff {rest' : List Char} (hw : IsWord (cur :: pos)) (hrest : EndsWord rest)
    (h : lexWord line cur (pos ++ rest) = .go line' rest' token) :
    rest' = rest ∧ token = some (wordToken line (cur :: pos)) ↔ Uncut (cur :: pos) := by
  rw [lexWord_word hw hrest] at h
  have hsplit := keywordPart_append (cur :: pos) []
  rw [List.append_nil, List.append_nil] at hsplit
  constructor
  · rintro ⟨rfl, -⟩
    cases hpart : keyword (keywordPart (cur :: pos)) with
    | none => exact .inl hpart
    | some token =>
      rw [hpart] at h
      have hdrop : (cur :: pos).dropWhile isWordChar = [] :=
        List.append_left_eq_self.mp (LexStep.go.inj h).2.1
      rw [hdrop, List.append_nil] at hsplit
      exact .inr hsplit
  · rintro (hpart | hpart)
    · have hword : keyword (cur :: pos) = none := by
        cases hword : keyword (cur :: pos) with
        | none => rfl
        | some token =>
          rw [keywordPart_keyword hw hword, hword] at hpart
          cases hpart
      rw [hpart] at h
      obtain ⟨-, rfl, rfl⟩ := LexStep.go.inj h
      rw [wordToken, hword]
      exact ⟨rfl, rfl⟩
    · rw [hpart] at hsplit h
      have hdrop : (cur :: pos).dropWhile isWordChar = [] := List.append_right_eq_self.mp hsplit
      rw [hdrop] at h
      unfold wordToken
      cases hword : keyword (cur :: pos) with
      | none =>
        rw [hword] at h
        obtain ⟨-, rfl, rfl⟩ := LexStep.go.inj h
        exact ⟨rfl, rfl⟩
      | some token =>
        rw [hword] at h
        obtain ⟨-, rfl, rfl⟩ := LexStep.go.inj h
        exact ⟨rfl, rfl⟩

/-! ## Rounds -/

theorem isSpace_identifier (h : isIdentifierChar cur = true) : isSpace cur = false := by
  refine Bool.eq_false_iff.mpr fun hspace => ?_
  simp only [isSpace, Bool.or_eq_true, beq_iff_eq] at hspace
  rcases hspace with ((((rfl | rfl) | rfl) | rfl) | rfl) | rfl <;> exact absurd h (by decide)

/-- A word begins. -/
theorem pieceKind_word (h : isIdentifierChar cur = true) (hdigit : cur.isDigit = false) :
    pieceKind cur pos = .word := by
  have hne : ∀ d, isIdentifierChar d = false → cur ≠ d := by
    rintro d hd rfl
    exact Bool.false_ne_true (hd.symm.trans h)
  unfold pieceKind
  rw [if_neg (fun hslash => hne '/' (by decide) hslash.1),
    if_neg (fun hslash => hne '/' (by decide) hslash.1), if_neg (by simp [isSpace_identifier h]),
    if_neg (by simp [hdigit, hne '-' (by decide)]), if_neg (hne '"' (by decide))]

theorem lexStep_word (D : ReadNumber) (line : ℕ) (pos : List Char)
    (h : isIdentifierChar cur = true) (hdigit : cur.isDigit = false) :
    lexStep D line cur pos = some (lexWord line cur pos) := by
  have hzero : cur ≠ '\x00' := by
    rintro rfl
    exact absurd h (by decide)
  rw [lexStep_eq, if_neg hzero, pieceKind_word h hdigit]

/-- What is read as a word is characters of identifiers, or there are none in it. -/
theorem lexWord_chars {used : List Char} (h : lexWord line cur pos = .go line' rest token)
    (hused : cur :: pos = used ++ rest) :
    (∀ c ∈ used, isIdentifierChar c = true) ∨ (∀ c ∈ used, isIdentifierChar c = false) := by
  unfold lexWord at h
  split at h
  · next simple pos' hmatch =>
    obtain ⟨rfl, rfl, rfl⟩ := LexStep.go.inj h
    obtain ⟨hmem, htext⟩ := matchToken_read hmatch
    obtain rfl := List.append_cancel_right (hused.symm.trans htext)
    exact (tokenTable_chars simple hmem).imp_left
      (fun hchars c hc => isIdentifierChar_of_isWordChar (hchars c hc))
  · split at h
    · next hchar =>
      obtain ⟨rfl, rfl, rfl⟩ := LexStep.go.inj h
      rw [Bool.and_eq_true] at hchar
      obtain rfl : used = cur :: pos.takeWhile isIdentifierChar := by
        refine List.append_cancel_right (hused.symm.trans ?_)
        rw [List.cons_append, List.takeWhile_append_dropWhile]
      refine .inl fun c hc => ?_
      rcases List.mem_cons.mp hc with rfl | hc
      · exact hchar.1
      · exact List.mem_takeWhile_imp hc
    · cases h

/-! ## The words of a text -/

/-- A run of characters of identifiers that cannot be made longer, and does not begin with a digit. -/
structure MaximalRun (before w after : List Char) : Prop where
  word : IsWord w
  before : ∀ c, before.getLast? = some c → isIdentifierChar c = false
  after : EndsWord after

/-- The first character behind `before` is read by a piece that is no comment and no string. -/
structure Outside (pre : List Piece) (piece : Piece) (before : List Char) : Prop where
  le_length : (usedText pre).length ≤ before.length
  length_lt : before.length < (usedText (pre ++ [piece])).length
  lineComment : piece.kind ≠ .lineComment
  blockComment : piece.kind ≠ .blockComment
  string : piece.kind ≠ .string

/-- A piece is a word, with its token. -/
def ReadsWord (pre : List Piece) (piece : Piece) (before w : List Char) : Prop :=
  usedText pre = before ∧ piece.used = w ∧ ∃ line, piece.token = some (wordToken line w)

/-- The round that begins with a run. -/
theorem MaximalRun.round (h : MaximalRun before w after) (htext : cur :: pos = w ++ after)
    (hstep : lexStep D line cur pos = some (.go line' rest token)) :
    pieceKind cur pos = .word ∧ (rest = after ∧ token = some (wordToken line w) ↔ Uncut w) := by
  obtain ⟨x, w, rfl⟩ := List.exists_cons_of_ne_nil h.word.ne_nil
  obtain ⟨rfl, rfl⟩ := List.cons.inj htext
  have hchar : isIdentifierChar cur = true := h.word.chars cur List.mem_cons_self
  have hdigit : cur.isDigit = false := h.word.first cur rfl
  rw [lexStep_word D line _ hchar hdigit] at hstep
  exact ⟨pieceKind_word hchar hdigit, lexWord_word_iff h.word h.after (Option.some.inj hstep)⟩

/-- Where a blank or a word reads the first character of a run, it begins with the run. -/
theorem MaximalRun.begins {u : List Char} (h : MaximalRun before w after)
    (hbefore : before = u ++ mid) (htext : cur :: pos = mid ++ (w ++ after))
    (hstep : lexStep D line cur pos = some (.go line' rest token)) {used : List Char}
    (hused : cur :: pos = used ++ rest) (hlength : mid.length < used.length)
    (hkind : pieceKind cur pos = .blank ∨ pieceKind cur pos = .word) : mid = [] := by
  obtain ⟨x, w, rfl⟩ := List.exists_cons_of_ne_nil h.word.ne_nil
  have hx : isIdentifierChar x = true := h.word.chars x List.mem_cons_self
  -- what is read goes over what is in front of the run, and its first character
  obtain ⟨v, rfl⟩ : ∃ v, used = mid ++ x :: v := by
    rcases List.append_eq_append_iff.mp (htext.symm.trans hused) with ⟨v, rfl, hv⟩ | ⟨v, rfl, -⟩
    · cases v with
      | nil => simp at hlength
      | cons y v =>
        obtain rfl : x = y := (List.cons.inj hv).1
        exact ⟨v, rfl⟩
    · rw [List.length_append] at hlength
      omega
  rcases hkind with hkind | hkind
  · have hblank := hstep
    rw [lexStep_eq, hkind] at hblank
    split at hblank
    · cases hblank
    · obtain ⟨-, rfl, -⟩ := LexStep.go.inj (Option.some.inj hblank)
      have hcount := congrArg List.length hused
      simp only [List.length_append, List.length_cons] at hcount
      exact List.eq_nil_of_length_eq_zero (by omega)
  · have hword := hstep
    rw [lexStep_eq, hkind] at hword
    split at hword
    · cases hword
    · rcases lexWord_chars (Option.some.inj hword) hused with hchars | hchars
      · by_contra hne
        have hlast := h.before (mid.getLast hne) (by
          rw [hbefore, List.getLast?_append, List.getLast?_eq_some_getLast hne]
          rfl)
        have hmem : mid.getLast hne ∈ mid ++ x :: v := List.mem_append_left _ (List.getLast_mem hne)
        exact Bool.false_ne_true (hlast.symm.trans (hchars _ hmem))
      · exact absurd ((hchars x (by simp)).symm.trans hx) Bool.false_ne_true

/-- The piece that reads the first character of a run is the whole run, with its token, if and only if
    it is no number and the run is not cut. -/
theorem Trail.word_iff {pre post : List Piece} (hrun : MaximalRun before w after)
    (htrail : Trail D line (before ++ w ++ after) (pre ++ piece :: post) line' rest)
    (h : Outside pre piece before) :
    ReadsWord pre piece before w ↔ piece.kind ≠ .number ∧ Uncut w := by
  obtain ⟨line₁, text₁, hfirst, hrest⟩ := htrail.split
  obtain ⟨u, hu⟩ : ∃ u, before = usedText pre ++ u := by
    have htext := hfirst.text_eq
    rw [List.append_assoc] at htext
    rcases List.append_eq_append_iff.mp htext with ⟨v, hv, -⟩ | ⟨v, hv, -⟩
    · have hlength := congrArg List.length hv
      have hle := h.le_length
      rw [List.length_append] at hlength
      refine ⟨[], ?_⟩
      rw [hv, List.eq_nil_of_length_eq_zero (l := v) (by omega)]
      simp
    · exact ⟨v, hv⟩
  have htext₁ : text₁ = u ++ (w ++ after) := by
    have htext := hfirst.text_eq
    rw [hu, List.append_assoc, List.append_assoc] at htext
    exact (List.append_cancel_left htext).symm
  cases hrest with
  | @cons _ line₂ _ cur pos used rest₂ _ token _ hstep hused hpost =>
    have hlength : u.length < used.length := by
      have hpiece := h.length_lt
      rw [hu, usedText, usedText, List.flatMap_append, List.length_append, List.length_append] at hpiece
      simpa using hpiece
    constructor
    · rintro ⟨rfl, hw, line₀, htoken⟩
      obtain rfl : used = w := hw
      obtain rfl : token = _ := htoken
      obtain rfl : u = [] := List.append_right_eq_self.mp hu.symm
      obtain ⟨hkind, hround⟩ := hrun.round htext₁ hstep
      obtain rfl : line₀ = line₁ := by
        rw [← (lexStep_reads hstep).2.line _ rfl, wordToken]
        cases keyword used <;> rfl
      have hnumber : pieceKind cur pos ≠ .number := by
        rw [hkind]
        decide
      refine ⟨hnumber, hround.mp ⟨?_, rfl⟩⟩
      exact List.append_cancel_left (hused.symm.trans htext₁)
    · rintro ⟨hnumber, huncut⟩
      have hkind : pieceKind cur pos = .blank ∨ pieceKind cur pos = .word := by
        cases hkind : pieceKind cur pos with
        | lineComment => exact absurd hkind h.lineComment
        | blockComment => exact absurd hkind h.blockComment
        | blank => exact .inl rfl
        | number => exact absurd hkind hnumber
        | string => exact absurd hkind h.string
        | word => exact .inr rfl
      obtain rfl := hrun.begins hu htext₁ hstep hused hlength hkind
      obtain ⟨rfl, rfl⟩ := (hrun.round htext₁ hstep).2.mpr huncut
      rw [List.append_nil] at hu
      exact ⟨hu.symm, List.append_cancel_right (hused.symm.trans htext₁), line₁, rfl⟩

/-- In a text for which the lexer returns: where the piece that reads the first character of a maximal
    run is no comment and no string, the run is one piece with the token of the run if and only if that
    piece is no number and the run is not cut at a keyword. -/
theorem lexer_word_iff {ok : Bool} {tokens : List Token} (hrun : MaximalRun before w after)
    (h : ByteLexer.lexer D (encode (before ++ w ++ after)) = some (.ok (ok, tokens))) :
    ∃ pieces line rest, Trail D 1 (before ++ w ++ after) pieces line rest ∧
      tokens = tokensOf pieces ∧ (ok = true → rest = [] ∨ ∃ rest', rest = '\x00' :: rest') ∧
        ∀ pre piece post, pieces = pre ++ piece :: post → Outside pre piece before →
          (ReadsWord pre piece before w ↔ piece.kind ≠ .number ∧ Uncut w) := by
  obtain ⟨pieces, line, rest, htrail, htokens, hrest⟩ := lexer_returns h
  refine ⟨pieces, line, rest, htrail, htokens, hrest, ?_⟩
  rintro pre piece post rfl houtside
  exact htrail.word_iff hrun houtside

theorem maximalRun_name : MaximalRun ['v', 'a', 'r', ' '] ['x'] [';'] := by
  refine ⟨⟨by decide, List.all_eq_true.mp (by decide), ?_⟩, ?_, ?_⟩
  all_goals
    rintro c ⟨⟩
    rfl

theorem name_word : ∃ pieces line rest,
    Trail plainReader 1 (['v', 'a', 'r', ' '] ++ ['x'] ++ [';']) pieces line rest ∧
      [⟨.tokVar, 1, "var", 0, 0⟩, ⟨.tokIdentifier, 1, "x", 0, 0⟩, ⟨.tokSemicolon, 1, ";", 0, 0⟩] =
        tokensOf pieces ∧ (true = true → rest = [] ∨ ∃ rest', rest = '\x00' :: rest') ∧
          ∀ pre piece post, pieces = pre ++ piece :: post →
            Outside pre piece ['v', 'a', 'r', ' '] →
              (ReadsWord pre piece ['v', 'a', 'r', ' '] ['x'] ↔ piece.kind ≠ .number ∧ Uncut ['x']) :=
  lexer_word_iff maximalRun_name (by rw [lexer_encode]; rfl)

/-- A name that begins with `if` and an underscore is cut. -/
theorem if_x_cut : MaximalRun [] "if_x".toList ";".toList ∧
    ByteLexer.lexer plainReader (encode "if_x;".toList) =
      some (.ok (true, [⟨.tokIf, 1, "if", 0, 0⟩, ⟨.tokIdentifier, 1, "_x", 0, 0⟩,
        ⟨.tokSemicolon, 1, ";", 0, 0⟩])) ∧
    wordToken 1 "if_x".toList = ⟨.tokIdentifier, 1, "if_x", 0, 0⟩ := by
  refine ⟨⟨⟨by decide, List.all_eq_true.mp (by decide), ?_⟩, ?_, ?_⟩, ?_, by rfl⟩
  · rintro c ⟨⟩
    rfl
  · rintro c ⟨⟩
  · rintro c ⟨⟩
    rfl
  · rw [lexer_encode]
    rfl

end B0rk.TextLexer
