import B0rk.Parser.Proofs.Literals
import B0rk.Parser.Proofs.Words

set_option autoImplicit false

/-! # Blanks around operators

An operator between two operands, with and without blanks around it. -/

namespace B0rk.TextLexer

open ByteLexer (ReadNumber plainReader)

variable {D : ReadNumber} {line : ℕ} {a b w rest : List Char} {sep c : Char} {op : String}

/-! ## Operands -/

/-- An identifier, or an unsigned integer. -/
inductive IsOperand : List Char → Prop
  | word {a : List Char} (h : IsWord a) : IsOperand a
  | integer {a : List Char} (h : IsDigits a) : IsOperand a

/-- A character behind which an operand ends. -/
structure Separates (sep : Char) : Prop where
  identifier : isIdentifierChar sep = false
  dot : sep ≠ '.'

theorem Separates.endsNumber (h : Separates sep) : EndsNumber sep where
  digit := by
    refine Bool.eq_false_iff.mpr fun hdigit => ?_
    have hchar : isIdentifierChar sep = true :=
      isIdentifierChar_of_isAlphanum (by rw [Char.isAlphanum, hdigit, Bool.or_true])
    exact Bool.false_ne_true (h.identifier.symm.trans hchar)
  dot := h.dot
  exponent := by
    rintro (rfl | rfl)
    · exact absurd h.identifier (by decide)
    · exact absurd h.identifier (by decide)

theorem Separates.endsWord (h : Separates sep) : EndsWord (sep :: rest) := by
  intro c hc
  obtain rfl := Option.some.inj hc
  exact h.identifier

/-- What is left of a word behind a keyword is a word. -/
theorem IsWord.behindKeyword (h : IsWord w) (hne : w.dropWhile isWordChar ≠ []) :
    IsWord (w.dropWhile isWordChar) where
  ne_nil := hne
  chars := fun c hc => h.chars c ((List.dropWhile_suffix isWordChar).mem hc)
  first := by
    intro c hc
    have hhead := List.head?_dropWhile_not isWordChar w
    rw [hc] at hhead
    refine Bool.eq_false_iff.mpr fun hdigit => ?_
    have hword : isWordChar c = true := by
      rw [isWordChar_eq, Char.isAlphanum, hdigit, Bool.or_true]
    simp [hword] at hhead

/-- The rounds of a word do not depend on what is behind it. -/
theorem IsWord.trail (D : ReadNumber) (line : ℕ) (h : IsWord w) :
    ∃ pieces, ∀ rest, EndsWord rest → Trail D line (w ++ rest) pieces line rest := by
  induction hn : w.length using Nat.strongRecOn generalizing w with
  | _ n ih =>
    subst hn
    obtain ⟨cur, pos, rfl⟩ := List.exists_cons_of_ne_nil h.ne_nil
    have hchar : isIdentifierChar cur = true := h.chars cur List.mem_cons_self
    have hdigit : cur.isDigit = false := h.first cur rfl
    have hkind : ∀ rest, pieceKind cur (pos ++ rest) = .word :=
      fun rest => pieceKind_word hchar hdigit
    cases hkeyword : keyword (keywordPart (cur :: pos)) with
    | none =>
      refine ⟨[⟨.word, cur :: pos, some
        { type := .tokIdentifier, line := line, string := String.ofList (cur :: pos), i := 0
          d := 0 }⟩], fun rest hrest => ?_⟩
      have hstep := lexStep_word D line (pos ++ rest) hchar hdigit
      rw [lexWord_word h hrest, hkeyword] at hstep
      rw [← hkind rest]
      exact .cons hstep rfl .nil
    | some token =>
      -- the keyword, and the word that is left behind it
      obtain ⟨pieces, hpieces⟩ : ∃ pieces, ∀ rest, EndsWord rest →
          Trail D line ((cur :: pos).dropWhile isWordChar ++ rest) pieces line rest := by
        by_cases hne : (cur :: pos).dropWhile isWordChar = []
        · rw [hne]
          exact ⟨[], fun rest _ => .nil⟩
        · have hlength : ((cur :: pos).dropWhile isWordChar).length < (cur :: pos).length := by
            have hsplit := congrArg List.length (keywordPart_append (cur :: pos) [])
            have hpart : keywordPart (cur :: pos) ≠ [] := by
              obtain ⟨htoken, hstr⟩ := keyword_some hkeyword
              rw [← hstr]
              exact (tokenTable_words token htoken).2.2
            have hpos := List.length_pos_iff.mpr hpart
            rw [List.append_nil, List.append_nil, List.length_append] at hsplit
            omega
          exact ih _ hlength (h.behindKeyword hne) rfl
      refine ⟨⟨.word, keywordPart (cur :: pos), some
        { type := token.token, line := line, string := token.str, i := 0, d := 0 }⟩ :: pieces,
        fun rest hrest => ?_⟩
      have hstep := lexStep_word D line (pos ++ rest) hchar hdigit
      rw [lexWord_word h hrest, hkeyword] at hstep
      rw [← hkind rest]
      exact .cons hstep (keywordPart_append (cur :: pos) rest).symm (hpieces rest hrest)

theorem IsDigits.literal (h : IsDigits a) : IsLiteral a := .plain h

/-- The rounds of an operand do not depend on what is behind it. -/
theorem IsOperand.trail (D : ReadNumber) (line : ℕ) (h : IsOperand a) :
    ∃ pieces, ∀ sep rest, Separates sep → rest ≠ [] →
      Trail D line (a ++ sep :: rest) pieces line (sep :: rest) := by
  cases h with
  | word h =>
    obtain ⟨pieces, hpieces⟩ := h.trail D line
    exact ⟨pieces, fun sep rest hsep _ => hpieces (sep :: rest) hsep.endsWord⟩
  | integer h =>
    exact ⟨[_], fun sep rest hsep hrest => h.literal.trail D line hsep.endsNumber hrest⟩

/-- The first character of an operand. -/
theorem IsOperand.head (h : IsOperand a) : ∃ c u, a = c :: u ∧ isIdentifierChar c = true := by
  cases h with
  | word h =>
    obtain ⟨c, u, rfl⟩ := List.exists_cons_of_ne_nil h.ne_nil
    exact ⟨c, u, rfl, h.chars c List.mem_cons_self⟩
  | integer h =>
    obtain ⟨c, u, rfl⟩ := List.exists_cons_of_ne_nil h.ne_nil
    have hdigit := h.digits c List.mem_cons_self
    exact ⟨c, u, rfl, isIdentifierChar_of_isAlphanum (by rw [Char.isAlphanum, hdigit, Bool.or_true])⟩

/-! ## Operators -/

/-- The binary operators. -/
def binaryOperators : List String :=
  ["+", "-", "*", "/", "<", "<=", ">", ">=", "==", "!=", "&&", "="]

/-- The operators are in the table, in front of every shorter token that they begin with. -/
theorem binaryOperators_table : ∀ op ∈ binaryOperators, ∃ token ∈ tokenTable,
    token.str = op ∧ keyword op.toList = some token ∧
      tokenTable.find? (fun t => t.str.toList.isPrefixOf op.toList) = some token := by
  decide

/-- How an operator begins. -/
structure OperatorBegins (op : String) (o : Char) : Prop where
  space : isSpace o = false
  digit : o.isDigit = false
  quote : o ≠ '"'
  zero : o ≠ '\x00'
  separates : Separates o
  slash : o = '/' → op = "/"
  minus : o = '-' → op = "-"

theorem operatorBegins (hop : op ∈ binaryOperators) :
    ∃ o os, op.toList = o :: os ∧ OperatorBegins op o := by
  simp only [binaryOperators, List.mem_cons, List.not_mem_nil, or_false] at hop
  rcases hop with rfl | rfl | rfl | rfl | rfl | rfl | rfl | rfl | rfl | rfl | rfl | rfl <;>
    exact ⟨_, _, rfl, by decide, by decide, by decide, by decide, ⟨by decide, by decide⟩,
      by decide, by decide⟩

/-- In front of an operand or a blank, the tokens that are there are those that the operator begins
    with. -/
theorem checkWord_operator {token : SimpleToken} (htoken : token ∈ tokenTable) {o : Char}
    {os : List Char} (ho : isIdentifierChar o = false)
    (hc : isIdentifierChar c = true ∨ c = ' ') :
    checkWord (o :: os ++ c :: rest) token =
      if token.str.toList.isPrefixOf (o :: os) then
        some ((o :: os ++ c :: rest).drop token.length) else none := by
  obtain ⟨hlength, hspace, hne⟩ := tokenTable_words token htoken
  have hword : isWordChar o = false := by
    refine Bool.eq_false_iff.mpr fun h => ?_
    exact Bool.false_ne_true (ho.symm.trans (isIdentifierChar_of_isWordChar h))
  have hbegin : token.str.toList.isPrefixOf (o :: os ++ c :: rest) =
      token.str.toList.isPrefixOf (o :: os) := by
    rcases tokenTable_chars token htoken with hchars | hchars
    · obtain ⟨k, ks, hk⟩ := List.exists_cons_of_ne_nil hne
      have hneq : (k == o) = false := by
        rw [beq_eq_false_iff_ne]
        rintro rfl
        exact Bool.false_ne_true (hword.symm.trans (hchars k (by simp [hk])))
      rw [hk, List.cons_append, List.isPrefixOf_cons_cons, List.isPrefixOf_cons_cons, hneq,
        Bool.false_and, Bool.false_and]
    · refine isPrefixOf_behind fun hmem => ?_
      rcases hc with hc | rfl
      · exact Bool.false_ne_true ((hchars c hmem).symm.trans hc)
      · exact hspace hmem
  unfold checkWord
  rw [hbegin]
  split
  · exact if_neg (by rw [List.cons_append, List.headD_cons, hword, Bool.false_and]; decide)
  · rfl

theorem matchToken_operator (rest : List Char) (hop : op ∈ binaryOperators)
    (hc : isIdentifierChar c = true ∨ c = ' ') : ∃ token, keyword op.toList = some token ∧
      matchToken (op.toList ++ c :: rest) = some (token, c :: rest) := by
  obtain ⟨token, htoken, rfl, hkeyword, hfind⟩ := binaryOperators_table op hop
  obtain ⟨o, os, hcons, hbegins⟩ := operatorBegins hop
  have hall : ∀ table : List SimpleToken, (∀ t ∈ table, t ∈ tokenTable) →
      table.findSome? (fun t => (checkWord (o :: os ++ c :: rest) t).map (t, ·)) =
        (table.find? (fun t => t.str.toList.isPrefixOf (o :: os))).map
          (fun t => (t, (o :: os ++ c :: rest).drop t.length)) := by
    intro table
    induction table with
    | nil => exact fun _ => rfl
    | cons t table ih =>
      intro htable
      rw [List.findSome?_cons, List.find?_cons,
        checkWord_operator (htable t List.mem_cons_self) hbegins.separates.identifier hc]
      by_cases hbegin : t.str.toList.isPrefixOf (o :: os) = true
      · rw [if_pos hbegin, hbegin]
        rfl
      · rw [if_neg hbegin, Bool.eq_false_iff.mpr hbegin]
        exact ih (fun t ht => htable t (List.mem_cons_of_mem _ ht))
  refine ⟨token, hkeyword, ?_⟩
  rw [hcons] at hfind ⊢
  rw [matchToken, hall tokenTable (fun _ h => h), hfind, Option.map_some, ← hcons,
    ← (tokenTable_words token htoken).1, List.drop_left]

theorem peekNext_of_ne_nil (hrest : rest ≠ []) : peekNext (c :: rest) = c := by
  cases rest with
  | nil => exact absurd rfl hrest
  | cons d rest => rfl

/-- A word begins with an operator, unless it is a minus in front of a digit. -/
theorem pieceKind_operator {o : Char} {os : List Char} (hcons : op.toList = o :: os)
    (hbegins : OperatorBegins op o) (hc : isIdentifierChar c = true ∨ c = ' ') (hrest : rest ≠ [])
    (hminus : op = "-" → c.isDigit = false) : pieceKind o (os ++ c :: rest) = .word := by
  have hslash : ∀ next, isIdentifierChar next = false → next ≠ ' ' →
      ¬(o = '/' ∧ peekNext (os ++ c :: rest) = next) := by
    rintro next hnext hspace ⟨rfl, rfl⟩
    obtain rfl := hbegins.slash rfl
    obtain rfl : os = [] := (List.cons.inj hcons).2.symm
    rw [List.nil_append, peekNext_of_ne_nil hrest] at hnext hspace
    rcases hc with hc | hc
    · exact Bool.false_ne_true (hnext.symm.trans hc)
    · exact hspace hc
  have hnumber : ¬(o.isDigit || (o == '-' && (peekNext (os ++ c :: rest)).isDigit)) = true := by
    rw [hbegins.digit, Bool.false_or, Bool.and_eq_true, beq_iff_eq]
    rintro ⟨rfl, hdigit⟩
    obtain rfl := hbegins.minus rfl
    obtain rfl : os = [] := (List.cons.inj hcons).2.symm
    rw [List.nil_append, peekNext_of_ne_nil hrest, hminus rfl] at hdigit
    cases hdigit
  unfold pieceKind
  rw [if_neg (hslash '/' (by decide) (by decide)), if_neg (hslash '*' (by decide) (by decide)),
    hbegins.space, if_neg Bool.false_ne_true, if_neg hnumber, if_neg hbegins.quote]

/-- An operator is read as its token, unless it is a minus in front of a digit. -/
theorem operator_trail (D : ReadNumber) (line : ℕ) (hop : op ∈ binaryOperators)
    (hc : isIdentifierChar c = true ∨ c = ' ') (hrest : rest ≠ [])
    (hminus : op = "-" → c.isDigit = false) :
    Trail D line (op.toList ++ c :: rest)
      [⟨.word, op.toList, some (wordToken line op.toList)⟩] line (c :: rest) := by
  obtain ⟨token, hkeyword, hmatch⟩ := matchToken_operator rest hop hc
  obtain ⟨o, os, hcons, hbegins⟩ := operatorBegins hop
  have hkind := pieceKind_operator hcons hbegins hc hrest hminus
  have hstep : lexStep D line o (os ++ c :: rest) =
      some (.go line (c :: rest) (some (wordToken line op.toList))) := by
    rw [hcons, List.cons_append] at hmatch
    rw [lexStep_eq, if_neg hbegins.zero, hkind, wordToken, hkeyword, lexWord]
    rw [show tokenTable.findSome? (fun token => (checkWord (o :: (os ++ c :: rest)) token).map
      (token, ·)) = _ from hmatch]
  rw [hcons] at hstep ⊢
  rw [← hkind]
  exact .cons hstep rfl .nil

/-- A blank. -/
theorem blank_trail (D : ReadNumber) (line : ℕ) (rest : List Char) :
    Trail D line (' ' :: rest) [⟨.blank, [' '], none⟩] line rest :=
  .cons (by rfl) (by rfl) .nil

/-- The end of a statement and of its line. -/
theorem semicolon_trail (D : ReadNumber) (line : ℕ) :
    Trail D line [';', '\n'] [⟨.word, [';'], some (wordToken line [';'])⟩, ⟨.blank, ['\n'], none⟩]
      (line + 1) [] := by
  have hnewline : Trail D line ['\n'] [⟨.blank, ['\n'], none⟩] (line + 1) [] :=
    .cons (by rfl) (by rfl) .nil
  exact .cons (by rfl) (by rfl) hnewline

/-! ## An operation -/

/-- `a op b;` without blanks. -/
def closeText (a : List Char) (op : String) (b : List Char) : List Char :=
  a ++ (op.toList ++ (b ++ [';', '\n']))

/-- `a op b;` with a blank on each side of the operator. -/
def spacedText (a : List Char) (op : String) (b : List Char) : List Char :=
  a ++ ' ' :: (op.toList ++ ' ' :: (b ++ [';', '\n']))

theorem separates_blank : Separates ' ' := ⟨by decide, by decide⟩

theorem separates_semicolon : Separates ';' := ⟨by decide, by decide⟩

/-- An operand is read as these pieces, whatever is behind it. -/
def ReadsAs (D : ReadNumber) (a : List Char) (pieces : List Piece) : Prop :=
  ∀ sep rest, Separates sep → rest ≠ [] → Trail D 1 (a ++ sep :: rest) pieces 1 (sep :: rest)

theorem spaced_lexer {pa pb : List Piece} (hop : op ∈ binaryOperators) (ha : ReadsAs D a pa)
    (hb : ReadsAs D b pb) :
    ByteLexer.lexer D (encode (spacedText a op b)) = some (.ok (true,
      tokensOf pa ++ wordToken 1 op.toList :: (tokensOf pb ++ [wordToken 1 [';']]))) := by
  have hend := (hb ';' ['\n'] separates_semicolon (by decide)).append (semicolon_trail D 1)
  have hoperator := (operator_trail D 1 hop (.inr rfl) (by simp) (fun _ => by decide)).append
    ((blank_trail D 1 _).append hend)
  have htrail := (ha ' ' _ separates_blank (by simp)).append ((blank_trail D 1 _).append hoperator)
  refine (htrail.lexer (by simp)).trans ?_
  simp [tokensOf]

theorem close_lexer {pa pb : List Piece} (hop : op ∈ binaryOperators) (ha : ReadsAs D a pa)
    (hb : ReadsAs D b pb) (hoperand : IsOperand b) (hminus : ¬(op = "-" ∧ IsDigits b)) :
    ByteLexer.lexer D (encode (closeText a op b)) = some (.ok (true,
      tokensOf pa ++ wordToken 1 op.toList :: (tokensOf pb ++ [wordToken 1 [';']]))) := by
  have hend := (hb ';' ['\n'] separates_semicolon (by decide)).append (semicolon_trail D 1)
  obtain ⟨o, os, hcons, hbegins⟩ := operatorBegins hop
  obtain ⟨c, u, rfl, hc⟩ := hoperand.head
  have hdigit : op = "-" → c.isDigit = false := by
    intro hop
    cases hoperand with
    | word h => exact h.first c rfl
    | integer h => exact absurd ⟨hop, h⟩ hminus
  have hoperator := (operator_trail D 1 hop (.inl hc) (show u ++ [';', '\n'] ≠ [] by simp) hdigit).append hend
  rw [hcons] at hoperator
  have htrail := (ha o _ hbegins.separates (by simp)).append hoperator
  rw [closeText, hcons]
  refine (htrail.lexer (by simp)).trans ?_
  simp [tokensOf]

/-- A minus in front of a digit begins a number. -/
theorem minus_lexer {pa : List Piece} (ha : ReadsAs D a pa) (hb : IsDigits b) :
    ByteLexer.lexer D (encode (closeText a "-" b)) = some (.ok (true,
      tokensOf pa ++ [literalToken D 1 ('-' :: b), wordToken 1 [';']])) := by
  have hnumber := ((IsLiteral.negative hb).trail D 1 separates_semicolon.endsNumber
    (show ['\n'] ≠ [] by decide)).append (semicolon_trail D 1)
  have htrail := (ha '-' _ ⟨by decide, by decide⟩ (by simp)).append hnumber
  refine (htrail.lexer (by simp)).trans ?_
  simp [tokensOf]

/-- An operation is lexed without blanks as it is with them, if and only if it is not a subtraction of
    an integer. -/
theorem lexer_blanks_iff (D : ReadNumber) (ha : IsOperand a) (hb : IsOperand b)
    (hop : op ∈ binaryOperators) :
    ByteLexer.lexer D (encode (closeText a op b)) =
        ByteLexer.lexer D (encode (spacedText a op b)) ↔ ¬(op = "-" ∧ IsDigits b) := by
  obtain ⟨pa, hpa⟩ := ha.trail D 1
  constructor
  · rintro h ⟨rfl, hdigits⟩
    rw [minus_lexer hpa hdigits, spaced_lexer hop hpa
      (fun sep rest hsep hrest => hdigits.literal.trail D 1 hsep.endsNumber hrest)] at h
    have htokens := List.append_cancel_left (Prod.mk.inj (Except.ok.inj (Option.some.inj h))).2
    exact absurd (congrArg List.length htokens) (by simp [tokensOf])
  · intro hminus
    obtain ⟨pb, hpb⟩ := hb.trail D 1
    rw [close_lexer hop hpa hpb hb hminus, spaced_lexer hop hpa hpb]

theorem isWord_name : IsWord ['x'] := by
  refine ⟨by decide, List.all_eq_true.mp (by decide), ?_⟩
  rintro c ⟨⟩
  rfl

theorem isDigits_one : IsDigits ['1'] := ⟨by decide, List.all_eq_true.mp (by decide)⟩

theorem name_plus_integer : ByteLexer.lexer plainReader (encode (closeText ['x'] "+" ['1'])) =
    ByteLexer.lexer plainReader (encode (spacedText ['x'] "+" ['1'])) :=
  (lexer_blanks_iff plainReader (.word isWord_name) (.integer isDigits_one) (by decide)).mpr
    fun h => absurd h.1 (by decide)

/-- Without blanks, two operands are left of a subtraction. -/
theorem subtraction_close : IsOperand ['x'] ∧ IsOperand ['1'] ∧
    ByteLexer.lexer plainReader (encode (closeText ['x'] "-" ['1'])) =
      some (.ok (true, [⟨.tokIdentifier, 1, "x", 0, 0⟩, ⟨.tokInteger, 1, "", -1, 0⟩,
        ⟨.tokSemicolon, 1, ";", 0, 0⟩])) ∧
    ByteLexer.lexer plainReader (encode (spacedText ['x'] "-" ['1'])) =
      some (.ok (true, [⟨.tokIdentifier, 1, "x", 0, 0⟩, ⟨.tokMinus, 1, "-", 0, 0⟩,
        ⟨.tokInteger, 1, "", 1, 0⟩, ⟨.tokSemicolon, 1, ";", 0, 0⟩])) := by
  refine ⟨.word isWord_name, .integer isDigits_one, ?_, ?_⟩
  · rw [lexer_encode]
    rfl
  · rw [lexer_encode]
    rfl

end B0rk.TextLexer
