import B0rk.Parser.TextLexer
import B0rk.Parser.Proofs.Lexer
import B0rk.Parser.Proofs.Utf8

set_option autoImplicit false

/-! # Octets and characters

The lexer on the octets of a text does what the lexer on its characters does, function by function:
`lexer_encode`. -/

namespace B0rk

/-- A computation on octets against the one on characters; `none` is the exception at the end. -/
def Agrees {α β : Type} (f : β → α) (x : Except Utf8Exception α) : Option β → Prop
  | some b => x = .ok (f b)
  | none => x = .error .notEnoughRoom

theorem Agrees.error {α β : Type} {f : β → α} : Agrees f (.error .notEnoughRoom) none := rfl

theorem Agrees.eq_error {α β : Type} {f : β → α} {x : Except Utf8Exception α}
    (h : Agrees f x none) : x = .error .notEnoughRoom := h

theorem Agrees.eq_ok {α β : Type} {f : β → α} {x : Except Utf8Exception α} {b : β}
    (h : Agrees f x (some b)) : x = .ok (f b) := h

theorem Agrees.map {α β α' β' : Type} {f : β → α} {g : β' → α'} {F : α → α'} {G : β → β'}
    {x : Except Utf8Exception α} {y : Option β} (h : Agrees f x y) (hfg : ∀ b, F (f b) = g (G b)) :
    Agrees g (x.map F) (y.map G) := by
  cases y with
  | none =>
    obtain rfl := h.eq_error
    rfl
  | some b =>
    obtain rfl := h.eq_ok
    exact congrArg Except.ok (hfg b)

namespace TextLexer

open ByteLexer (ReadNumber)

variable {cs : List Char} {c : Char} {D : ReadNumber} {line : ℕ}

theorem next_nil : Utf8.next (encode []) = .error .notEnoughRoom := rfl

/-! ## Reading -/

theorem skipLine_encode : Agrees encode (ByteLexer.skipLine (encode cs)) (skipLine cs) := by
  induction cs with
  | nil =>
    rw [ByteLexer.skipLine, next_nil]
    exact .error
  | cons c cs ih =>
    obtain ⟨h, hnext⟩ := next_encode_cons c cs
    rw [ByteLexer.skipLine, hnext, skipLine]
    dsimp only
    split
    · rfl
    · exact ih

theorem skipComment_encode :
    Agrees (fun r => (r.1, encode r.2)) (ByteLexer.skipComment line (encode cs))
      (skipComment line cs) := by
  induction hn : cs.length using Nat.strongRecOn generalizing line cs with
  | _ n ih =>
    subst hn
    match cs with
    | [] =>
      rw [ByteLexer.skipComment, next_nil]
      exact .error
    | [c] =>
      obtain ⟨h, hnext⟩ := next_encode_cons c []
      rw [ByteLexer.skipComment, hnext, skipComment]
      dsimp only
      by_cases hzero : c = '\x00'
      · subst hzero
        rfl
      · rw [if_neg hzero, if_neg hzero, next_nil, ByteLexer.skipComment, next_nil]
        split <;> exact .error
    | c :: d :: rest =>
      obtain ⟨h, hnext⟩ := next_encode_cons c (d :: rest)
      obtain ⟨h', hnext'⟩ := next_encode_cons d rest
      rw [ByteLexer.skipComment, hnext, skipComment]
      dsimp only
      by_cases hstar : c = '*'
      · rw [if_pos hstar, if_pos hstar, hnext']
        dsimp only
        by_cases hslash : d = '/'
        · rw [if_pos hslash, if_pos hslash]
          rfl
        · rw [if_neg hslash, if_neg hslash]
          exact ih rest.length (by simp only [List.length_cons]; omega) rfl
      · rw [if_neg hstar, if_neg hstar]
        by_cases hzero : c = '\x00'
        · rw [if_pos hzero, if_pos hzero]
          rfl
        · rw [if_neg hzero, if_neg hzero]
          exact ih (d :: rest).length (by simp) rfl

theorem prior_encode : Agrees encode (Utf8.prior (encode (c :: cs)) (encode cs)) (prior c cs) := by
  unfold Utf8.prior prior
  cases cs with
  | nil => exact .error
  | cons d cs =>
    have hne : (encode (d :: cs)).isEmpty = false := by
      rw [List.isEmpty_eq_false_iff, ne_eq, encode_eq_nil]
      exact List.cons_ne_nil _ _
    rw [hne]
    rfl

theorem scanExponent_encode {exponent : List Char} :
    Agrees (fun r => (r.1, encode r.2)) (ByteLexer.scanExponent exponent (encode cs))
      (scanExponent exponent cs) := by
  induction cs generalizing exponent with
  | nil =>
    rw [ByteLexer.scanExponent, next_nil]
    exact .error
  | cons c cs ih =>
    obtain ⟨h, hnext⟩ := next_encode_cons c cs
    rw [ByteLexer.scanExponent, hnext, scanExponent]
    dsimp only
    split
    · exact ih
    · exact prior_encode.map (fun _ => rfl)

/-- A number on the octets. -/
def encodeNumber (number : ScannedNumber) : ByteLexer.ScannedNumber :=
  ⟨number.str, number.dot, number.exponent, encode number.rest⟩

theorem scanNumber_encode {str : List Char} {dot : Bool} :
    Agrees (Option.map encodeNumber) (ByteLexer.scanNumber str dot c (encode (c :: cs)) (encode cs))
      (scanNumber str dot c cs) := by
  induction cs generalizing str dot c with
  | nil =>
    have hstop : ∀ str dot, Agrees (Option.map encodeNumber)
        ((Utf8.prior (encode [c]) (encode [])).map
          (fun rest => some (ByteLexer.ScannedNumber.mk str dot none rest)))
        ((prior c []).map (fun pos => some (ScannedNumber.mk str dot none pos))) :=
      fun str dot => prior_encode.map (fun _ => rfl)
    rw [ByteLexer.scanNumber, scanNumber]
    by_cases hminus : c = '-'
    · rw [if_pos hminus, if_pos hminus]
      split
      · exact hstop _ _
      · exact .error
    · rw [if_neg hminus, if_neg hminus]
      by_cases hdot : c = '.' ∧ dot = false
      · rw [if_pos hdot, if_pos hdot]
        exact .error
      · rw [if_neg hdot, if_neg hdot]
        by_cases hdigit : c.isDigit = true
        · rw [if_pos hdigit, if_pos hdigit]
          exact .error
        · rw [if_neg hdigit, if_neg hdigit]
          by_cases he : c = 'e' ∨ c = 'E'
          · rw [if_pos he, if_pos he]
            exact .error
          · rw [if_neg he, if_neg he]
            exact hstop _ _
  | cons d cs ih =>
    have hstop : ∀ str dot, Agrees (Option.map encodeNumber)
        ((Utf8.prior (encode (c :: d :: cs)) (encode (d :: cs))).map
          (fun rest => some (ByteLexer.ScannedNumber.mk str dot none rest)))
        ((prior c (d :: cs)).map (fun pos => some (ScannedNumber.mk str dot none pos))) :=
      fun str dot => prior_encode.map (fun _ => rfl)
    obtain ⟨h, hnext⟩ := next_encode_cons d cs
    rw [ByteLexer.scanNumber, scanNumber]
    by_cases hminus : c = '-'
    · rw [if_pos hminus, if_pos hminus]
      split
      · exact hstop _ _
      · rw [hnext]
        exact ih
    · rw [if_neg hminus, if_neg hminus]
      by_cases hdot : c = '.' ∧ dot = false
      · rw [if_pos hdot, if_pos hdot, hnext]
        exact ih
      · rw [if_neg hdot, if_neg hdot]
        by_cases hdigit : c.isDigit = true
        · rw [if_pos hdigit, if_pos hdigit, hnext]
          exact ih
        · rw [if_neg hdigit, if_neg hdigit]
          by_cases he : c = 'e' ∨ c = 'E'
          · rw [if_pos he, if_pos he, hnext]
            dsimp only
            split
            · rfl
            · exact scanExponent_encode.map (fun _ => rfl)
          · rw [if_neg he, if_neg he]
            exact hstop _ _

theorem readString_encode {str : List Char} :
    Agrees (Option.map (fun r => (r.1, encode r.2))) (ByteLexer.readString str (encode cs))
      (readString str cs) := by
  induction hn : cs.length using Nat.strongRecOn generalizing str cs with
  | _ n ih =>
    subst hn
    cases cs with
    | nil =>
      rw [encode_nil, ByteLexer.readString]
      rfl
    | cons c pos =>
      have hne : encode (c :: pos) ≠ [] := by simp
      obtain ⟨h, hnext⟩ := next_encode_cons c pos
      rw [ByteLexer.readString, if_neg hne, hnext, readString.eq_def]
      dsimp only
      by_cases hslash : c = '\\'
      · rw [if_pos hslash, if_pos hslash]
        cases pos with
        | nil => exact .error
        | cons d pos =>
          obtain ⟨h', hnext'⟩ := next_encode_cons d pos
          rw [hnext']
          dsimp only
          split
          · exact ih pos.length (by simp only [List.length_cons]; omega) rfl
          · rfl
      · rw [if_neg hslash, if_neg hslash]
        split
        · rfl
        · exact ih pos.length (by simp) rfl

theorem readIdentifier_encode {str : List Char} :
    ByteLexer.readIdentifier str (encode cs) =
      .ok (str ++ cs.takeWhile isIdentifierChar, encode (cs.dropWhile isIdentifierChar)) := by
  induction cs generalizing str with
  | nil =>
    rw [encode_nil, ByteLexer.readIdentifier]
    simp
  | cons c cs ih =>
    have hne : encode (c :: cs) ≠ [] := by simp
    obtain ⟨h, hnext⟩ := next_encode_cons c cs
    rw [ByteLexer.readIdentifier, if_neg hne, hnext]
    dsimp only
    by_cases hchar : isIdentifierChar c = true
    · rw [if_pos hchar, ih, List.takeWhile_cons_of_pos hchar, List.dropWhile_cons_of_pos hchar,
        List.append_assoc]
      rfl
    · rw [if_neg hchar, List.takeWhile_cons_of_neg hchar, List.dropWhile_cons_of_neg hchar,
        List.append_nil]

theorem lookahead_encode : ByteLexer.lookahead (encode cs) = .ok (peekNext cs) := by
  match cs with
  | [] => rfl
  | [c] =>
    obtain ⟨h, hnext⟩ := next_encode_cons c []
    have hpos := c.utf8Size_pos
    have hlength : (encode [c]).length = c.utf8Size := by simp
    rw [ByteLexer.lookahead, hlength, peekNext]
    by_cases hsize : c.utf8Size = 1
    · rw [if_pos hsize, if_neg (by omega)]
    · rw [if_neg hsize, if_pos (by omega), Utf8.peekNext, hnext]
      rfl
  | c :: d :: rest =>
    obtain ⟨h, hnext⟩ := next_encode_cons c (d :: rest)
    have hlength : 2 ≤ (encode (c :: d :: rest)).length := by
      have hc := c.utf8Size_pos
      have hd := d.utf8Size_pos
      simp only [encode_cons, List.length_append, String.length_utf8EncodeChar]
      omega
    rw [ByteLexer.lookahead, if_pos hlength, Utf8.peekNext, hnext]
    rfl

/-! ## Words -/

/-- The octet of a character of ASCII. -/
theorem utf8EncodeChar_ascii (h : c.toNat < 128) : String.utf8EncodeChar c = [c.toUInt8] := by
  have hle : c.val.toNat ≤ 0x7f := Nat.le_of_lt_succ h
  have hoctet : UInt8.ofNat c.val.toNat = c.toUInt8 := rfl
  rw [String.utf8EncodeChar, if_pos hle, hoctet]

/-- The first octet of another character. -/
theorem utf8EncodeChar_head (h : ¬c.toNat < 128) :
    ∃ oc rest, String.utf8EncodeChar c = oc :: rest ∧ 128 ≤ oc.toNat := by
  have hle : ¬c.val.toNat ≤ 0x7f := fun hle => h (Nat.lt_succ_of_le hle)
  rw [String.utf8EncodeChar]
  simp only [if_neg hle]
  split
  · refine ⟨_, _, rfl, ?_⟩
    rw [toNat_octet (by omega)]
    omega
  · split
    · refine ⟨_, _, rfl, ?_⟩
      rw [toNat_octet (by omega)]
      omega
    · refine ⟨_, _, rfl, ?_⟩
      rw [toNat_octet (by omega)]
      omega

theorem toUInt8_toNat (h : c.toNat < 128) : c.toUInt8.toNat = c.toNat := by
  show (UInt8.ofNat c.toNat).toNat = _
  exact toNat_octet (by omega)

theorem toUInt8_inj {d : Char} (hc : c.toNat < 128) (hd : d.toNat < 128) :
    c.toUInt8 = d.toUInt8 ↔ c = d := by
  constructor
  · intro h
    have hnat := congrArg UInt8.toNat h
    rw [toUInt8_toNat hc, toUInt8_toNat hd] at hnat
    exact Char.toNat_inj.mp hnat
  · rintro rfl
    rfl

/-- A word of ASCII at the beginning of a text. -/
theorem isPrefixOf_encode (cs : List Char) {w : List Char} (hw : ∀ c ∈ w, c.toNat < 128) :
    (w.map Char.toUInt8).isPrefixOf (encode cs) = w.isPrefixOf cs ∧
      (w.isPrefixOf cs = true → (encode cs).drop w.length = encode (cs.drop w.length)) := by
  induction w generalizing cs with
  | nil => simp
  | cons c w ih =>
    have hc := hw c (List.mem_cons_self ..)
    match cs with
    | [] => simp
    | d :: cs =>
      obtain ⟨hbegin, hdrop⟩ := ih cs (fun c' hc' => hw c' (List.mem_cons_of_mem _ hc'))
      by_cases hd : d.toNat < 128
      · have heq : (c.toUInt8 == d.toUInt8) = (c == d) := by
          rw [Bool.eq_iff_iff, beq_iff_eq, beq_iff_eq, toUInt8_inj hc hd]
        rw [encode_cons, utf8EncodeChar_ascii hd]
        simp only [List.map_cons, List.singleton_append, List.isPrefixOf_cons_cons, heq, hbegin,
          List.length_cons, List.drop_succ_cons, Bool.and_eq_true]
        exact ⟨trivial, fun h => hdrop h.2⟩
      · obtain ⟨oc, rest, hrest, hoc⟩ := utf8EncodeChar_head hd
        have hne : (c.toUInt8 == oc) = false := by
          rw [beq_eq_false_iff_ne]
          rintro rfl
          rw [toUInt8_toNat hc] at hoc
          omega
        have hne' : (c == d) = false := by
          rw [beq_eq_false_iff_ne]
          rintro rfl
          exact hd hc
        rw [encode_cons, hrest]
        simp [List.isPrefixOf_cons_cons, hne, hne']

theorem isWordChar_ascii (h : isWordChar c = true) : c.toNat < 128 := by
  rw [isWordChar_eq, Char.isAlphanum, Bool.or_eq_true] at h
  rcases h with h | h
  · rcases isAlpha_toNat h with h | h <;> omega
  · have := isDigit_bounds h
    omega

theorem isWordChar_high (n : ℕ) (hn : n < 256) (hhigh : 128 ≤ n) : isWordChar (Char.ofNat n) = false := by
  have hvalid : n.isValidChar := .inl (by omega)
  have hnat : (Char.ofNat n).toNat = n := by
    rw [Char.ofNat, dif_pos hvalid]
    rfl
  refine Bool.eq_false_iff.mpr fun h => ?_
  have hlow := isWordChar_ascii h
  omega

/-- `chartype` of the first octet. -/
theorem isWordOctet_encode :
    ByteLexer.isWordOctet ((encode cs).headD 0) = isWordChar (cs.headD '\x00') := by
  have hascii : ∀ c : Char, c.toNat < 128 → ByteLexer.isWordOctet c.toUInt8 = isWordChar c := by
    intro c hc
    unfold ByteLexer.isWordOctet ByteLexer.octetType isWordChar
    rw [toUInt8_toNat hc, Char.ofNat_toNat]
  match cs with
  | [] => rfl
  | c :: cs =>
    by_cases hc : c.toNat < 128
    · rw [encode_cons, utf8EncodeChar_ascii hc]
      exact hascii c hc
    · obtain ⟨oc, rest, hrest, hoc⟩ := utf8EncodeChar_head hc
      have hchar : isWordChar c = false := Bool.eq_false_iff.mpr fun h => hc (isWordChar_ascii h)
      rw [encode_cons, hrest]
      show ByteLexer.isWordOctet oc = isWordChar c
      rw [hchar]
      exact isWordChar_high oc.toNat oc.toNat_lt hoc

theorem tokenTable_ascii : ∀ token ∈ tokenTable, ∀ c ∈ token.str.toList, c.toNat < 128 := by
  have hall : ∀ token ∈ tokenTable,
      token.str.toList.all (fun c => decide (c.toNat < 128)) = true := by decide
  intro token htoken c hc
  exact of_decide_eq_true (List.all_eq_true.mp (hall token htoken) c hc)

theorem checkWord_encode {token : SimpleToken} (h : token ∈ tokenTable) :
    ByteLexer.checkWord (encode cs) token = (checkWord cs token).map encode := by
  have hlength := (tokenTable_words token h).1
  obtain ⟨hbegin, hdrop⟩ := isPrefixOf_encode cs (tokenTable_ascii token h)
  unfold ByteLexer.checkWord checkWord
  rw [ByteLexer.octets, hbegin, ← hlength]
  by_cases hword : token.str.toList.isPrefixOf cs = true
  · rw [if_pos hword, if_pos hword, hdrop hword]
    simp only [isWordOctet_encode]
    split <;> rfl
  · rw [if_neg hword, if_neg hword]
    rfl

/-- The first token of the table at the beginning of a text. -/
def matchToken (text : List Char) : Option (SimpleToken × List Char) :=
  tokenTable.findSome? (fun token => (checkWord text token).map (token, ·))

theorem matchToken_encode :
    ByteLexer.matchToken (encode cs) = (matchToken cs).map (fun r => (r.1, encode r.2)) := by
  have hall : ∀ table : List SimpleToken, (∀ token ∈ table, token ∈ tokenTable) →
      table.findSome? (fun token => (ByteLexer.checkWord (encode cs) token).map (token, ·)) =
        (table.findSome? (fun token => (checkWord cs token).map (token, ·))).map
          (fun r => (r.1, encode r.2)) := by
    intro table
    induction table with
    | nil => exact fun _ => rfl
    | cons token table ih =>
      intro htable
      rw [List.findSome?_cons, List.findSome?_cons, checkWord_encode (htable token (by simp))]
      cases checkWord cs token with
      | none => exact ih (fun token' h' => htable token' (List.mem_cons_of_mem _ h'))
      | some rest => rfl
  exact hall tokenTable (fun _ h => h)

/-! ## The main loop -/

/-- What a round comes to, on the octets. -/
def encodeStep : LexStep → ByteLexer.LexStep
  | .fail => .fail
  | .stop => .stop
  | .go line pos token => .go line (encode pos) token

theorem lexWord_encode :
    ByteLexer.lexWord line c (encode (c :: cs)) (encode cs) = .ok (encodeStep (lexWord line c cs)) := by
  unfold ByteLexer.lexWord lexWord
  rw [matchToken_encode, ← matchToken]
  cases matchToken (c :: cs) with
  | some found => rfl
  | none =>
    dsimp only [Option.map_none]
    split
    · rw [readIdentifier_encode]
      rfl
    · rfl

theorem lexNumber_encode :
    Agrees encodeStep (ByteLexer.lexNumber D line c (encode (c :: cs)) (encode cs))
      (lexNumber D line c cs) := by
  have hscan : Agrees (Option.map encodeNumber)
      (ByteLexer.scanNumber [] false c (encode (c :: cs)) (encode cs)) (scanNumber [] false c cs) :=
    scanNumber_encode
  unfold ByteLexer.lexNumber lexNumber
  cases hnumber : scanNumber [] false c cs with
  | none =>
    rw [hnumber] at hscan
    rw [hscan.eq_error]
    exact .error
  | some found =>
    rw [hnumber] at hscan
    rw [hscan.eq_ok]
    cases found with
    | none => rfl
    | some number => rfl

theorem lexString_encode :
    Agrees encodeStep (ByteLexer.lexString line (encode cs)) (lexString line cs) := by
  have hread : Agrees (Option.map (fun r => (r.1, encode r.2))) (ByteLexer.readString [] (encode cs))
      (readString [] cs) := readString_encode
  unfold ByteLexer.lexString lexString
  cases hstring : readString [] cs with
  | none =>
    rw [hstring] at hread
    rw [hread.eq_error]
    exact .error
  | some found =>
    rw [hstring] at hread
    rw [hread.eq_ok]
    cases found with
    | none => rfl
    | some r => rfl

theorem peekNext_head {next : Char} (h : peekNext cs = next) (hne : next ≠ '\x00') :
    ∃ rest, cs = next :: rest := by
  subst h
  match cs with
  | [] => exact absurd rfl hne
  | [c] =>
    rw [peekNext] at hne ⊢
    by_cases hsize : c.utf8Size = 1
    · rw [if_pos hsize] at hne
      exact absurd rfl hne
    · exact ⟨[], by rw [if_neg hsize]⟩
  | c :: d :: rest => exact ⟨d :: rest, rfl⟩

theorem lexStep_encode (D : ReadNumber) (line : ℕ) (c : Char) (cs : List Char) :
    Agrees encodeStep (ByteLexer.lexStep D line (encode (c :: cs))) (lexStep D line c cs) := by
  obtain ⟨h, hnext⟩ := next_encode_cons c cs
  rw [ByteLexer.lexStep, hnext, lexStep]
  dsimp only
  by_cases hzero : c = '\x00'
  · rw [if_pos hzero, if_pos hzero]
    rfl
  rw [if_neg hzero, if_neg hzero, lookahead_encode]
  dsimp only
  by_cases hline : c = '/' ∧ peekNext cs = '/'
  · obtain ⟨rest, hrest⟩ := peekNext_head hline.2 (by decide)
    obtain ⟨h', hnext'⟩ := next_encode_cons '/' rest
    rw [if_pos ⟨hline.1, .inl hline.2⟩, if_pos hline, ByteLexer.lexComment, hline.2, hrest, hnext']
    dsimp only
    rw [if_pos rfl]
    exact skipLine_encode.map (fun _ => rfl)
  rw [if_neg hline]
  by_cases hblock : c = '/' ∧ peekNext cs = '*'
  · obtain ⟨rest, hrest⟩ := peekNext_head hblock.2 (by decide)
    obtain ⟨h', hnext'⟩ := next_encode_cons '*' rest
    rw [if_pos ⟨hblock.1, .inr hblock.2⟩, if_pos hblock, ByteLexer.lexComment, hblock.2, hrest,
      hnext']
    dsimp only
    rw [if_neg (by decide)]
    exact skipComment_encode.map (fun _ => rfl)
  rw [if_neg hblock, if_neg (fun h => h.2.elim (fun h2 => hline ⟨h.1, h2⟩) (fun h2 => hblock ⟨h.1, h2⟩))]
  by_cases hspace : isSpace c = true
  · rw [if_pos hspace, if_pos hspace]
    rfl
  rw [if_neg hspace, if_neg hspace]
  by_cases hnumber : (c.isDigit || (c == '-' && (peekNext cs).isDigit)) = true
  · rw [if_pos hnumber, if_pos hnumber]
    exact lexNumber_encode
  rw [if_neg hnumber, if_neg hnumber]
  by_cases hquote : c = '"'
  · rw [if_pos hquote, if_pos hquote]
    exact lexString_encode
  rw [if_neg hquote, if_neg hquote]
  exact lexWord_encode

end TextLexer

end B0rk
