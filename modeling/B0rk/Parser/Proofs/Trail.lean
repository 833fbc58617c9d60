import B0rk.Parser.Proofs.TextLexer
import Mathlib.Data.List.TakeWhile

set_option autoImplicit false

/-! # The rounds of the lexer

What a round reads of the text, and what the rounds that come after each other read. -/

namespace B0rk.TextLexer

open ByteLexer (ReadNumber)

variable {D : ReadNumber} {line line' : ℕ} {cur : Char} {pos rest cs : List Char}
  {token : Option Token}

/-! ## Pieces -/

/-- What there is to read. -/
inductive PieceKind
  | lineComment
  | blockComment
  | blank
  | number
  | string
  | word
  deriving DecidableEq, Repr

/-- What a round begins to read. -/
def pieceKind (cur : Char) (pos : List Char) : PieceKind :=
  if cur = '/' ∧ peekNext pos = '/' then .lineComment
  else if cur = '/' ∧ peekNext pos = '*' then .blockComment
  else if isSpace cur then .blank
  else if cur.isDigit || (cur == '-' && (peekNext pos).isDigit) then .number
  else if cur = '"' then .string
  else .word

/-- What a round has read. -/
structure Piece where
  kind : PieceKind
  used : List Char
  token : Option Token

/-- Rounds of the loop, one after the other, from a line and a text to a line and a text. -/
inductive Trail (D : ReadNumber) : ℕ → List Char → List Piece → ℕ → List Char → Prop
  | nil {line : ℕ} {text : List Char} : Trail D line text [] line text
  | cons {line line' line'' : ℕ} {cur : Char} {pos used rest rest' : List Char}
      {token : Option Token} {pieces : List Piece}
      (hstep : lexStep D line cur pos = some (.go line' rest token))
      (hused : cur :: pos = used ++ rest) (htrail : Trail D line' rest pieces line'' rest') :
      Trail D line (cur :: pos) (⟨pieceKind cur pos, used, token⟩ :: pieces) line'' rest'

/-- The characters that have been read. -/
def usedText (pieces : List Piece) : List Char := pieces.flatMap Piece.used

/-- The tokens that have been read. -/
def tokensOf (pieces : List Piece) : List Token := pieces.filterMap Piece.token

theorem lexStep_eq : lexStep D line cur pos =
    if cur = '\x00' then some .stop
    else
      match pieceKind cur pos with
      | .lineComment => (skipLine pos.tail).map (fun pos => .go (line + 1) pos none)
      | .blockComment => (skipComment line pos.tail).map (fun r => .go r.1 r.2 none)
      | .blank => some (.go (if cur = '\n' then line + 1 else line) pos none)
      | .number => lexNumber D line cur pos
      | .string => lexString line pos
      | .word => some (lexWord line cur pos) := by
  unfold lexStep pieceKind
  split_ifs <;> rfl

/-! ## What the scans read -/

theorem skipLine_read (h : skipLine cs = some rest) :
    ∃ body, cs = body ++ rest ∧ '\n' ∉ body := by
  induction cs with
  | nil => cases h
  | cons c cs ih =>
    rw [skipLine] at h
    split at h
    · exact ⟨[], Option.some.inj h, List.not_mem_nil⟩
    · next hc =>
      obtain ⟨body, rfl, hbody⟩ := ih h
      refine ⟨c :: body, rfl, ?_⟩
      rw [List.mem_cons, not_or]
      exact ⟨fun hn => hc (.inl hn.symm), hbody⟩

theorem count_newline (c : Char) (line : ℕ) :
    (if c = '\n' then line + 1 else line) = line + [c].count '\n' := by
  rw [List.count_singleton]
  by_cases hc : c = '\n'
  · subst hc
    rfl
  · rw [if_neg hc, if_neg (fun h => hc (beq_iff_eq.mp h))]
    rfl

theorem skipComment_read (h : skipComment line cs = some (line', rest)) :
    ∃ body, cs = body ++ rest ∧ line' = line + body.count '\n' := by
  induction line, cs using skipComment.induct with
  | case1 line => cases h
  | case2 line =>
    rw [skipComment, if_pos rfl] at h
    obtain ⟨rfl, rfl⟩ := Prod.mk.inj (Option.some.inj h)
    exact ⟨[], rfl, rfl⟩
  | case3 line c hc =>
    rw [skipComment, if_neg hc] at h
    cases h
  | case4 line rest =>
    rw [skipComment, if_pos rfl, if_pos rfl] at h
    obtain ⟨rfl, rfl⟩ := Prod.mk.inj (Option.some.inj h)
    exact ⟨['*', '/'], rfl, rfl⟩
  | case5 line d rest hd ih =>
    rw [skipComment, if_pos rfl, if_neg hd] at h
    obtain ⟨body, rfl, rfl⟩ := ih h
    refine ⟨'*' :: d :: body, rfl, ?_⟩
    rw [count_newline, Nat.add_assoc, ← List.count_append]
    rfl
  | case6 line d rest =>
    rw [skipComment, if_neg (by decide), if_pos rfl] at h
    obtain ⟨rfl, rfl⟩ := Prod.mk.inj (Option.some.inj h)
    exact ⟨[], rfl, rfl⟩
  | case7 line c d rest hstar hzero ih =>
    rw [skipComment, if_neg hstar, if_neg hzero] at h
    obtain ⟨body, hbody, rfl⟩ := ih h
    refine ⟨c :: body, congrArg _ hbody, ?_⟩
    rw [count_newline, Nat.add_assoc, ← List.count_append]
    rfl

theorem prior_some {number : ScannedNumber} {f : List Char → ScannedNumber}
    (hf : ∀ pos, (f pos).rest = pos)
    (h : (prior cur pos).map (fun pos => some (f pos)) = some (some number)) :
    cur :: pos = number.rest := by
  unfold prior at h
  split at h
  · cases h
  · obtain rfl := Option.some.inj (Option.some.inj h)
    exact (hf _).symm

theorem scanExponent_read {exponent : List Char} {r : List Char × List Char}
    (h : scanExponent exponent cs = some r) : ∃ used, cs = used ++ r.2 ∧ '\n' ∉ used := by
  induction cs generalizing exponent with
  | nil => cases h
  | cons c cs ih =>
    rw [scanExponent] at h
    split at h
    · next hdigit =>
      obtain ⟨used, rfl, hused⟩ := ih h
      refine ⟨c :: used, rfl, ?_⟩
      rw [List.mem_cons, not_or]
      refine ⟨?_, hused⟩
      rintro rfl
      cases hdigit
    · unfold prior at h
      split at h
      · cases h
      · obtain rfl := Option.some.inj h
        exact ⟨[], rfl, List.not_mem_nil⟩

theorem scanNumber_read {str : List Char} {dot : Bool} {number : ScannedNumber}
    (h : scanNumber str dot cur pos = some (some number)) :
    ∃ used, cur :: pos = used ++ number.rest ∧ '\n' ∉ used := by
  induction pos generalizing str dot cur with
  | nil =>
    rw [scanNumber] at h
    simp only [prior, List.isEmpty_nil, if_true, Option.map_none] at h
    split_ifs at h
  | cons next pos ih =>
    have hgo : ∀ {str dot}, cur ≠ '\n' → scanNumber str dot next pos = some (some number) →
        ∃ used, cur :: next :: pos = used ++ number.rest ∧ '\n' ∉ used := by
      intro str dot hcur h
      obtain ⟨used, hused, hnot⟩ := ih h
      exact ⟨cur :: used, congrArg _ hused, by simp [hcur.symm, hnot]⟩
    have hstop : ∀ {str dot}, (prior cur (next :: pos)).map
        (fun pos => some (ScannedNumber.mk str dot none pos)) = some (some number) →
        ∃ used, cur :: next :: pos = used ++ number.rest ∧ '\n' ∉ used :=
      fun h => ⟨[], prior_some (fun _ => rfl) h, List.not_mem_nil⟩
    rw [scanNumber] at h
    split at h
    · next hminus =>
      subst hminus
      split at h
      · exact hstop h
      · exact hgo (by decide) h
    split at h
    · next hdot => exact hgo (by rw [hdot.1]; decide) h
    split at h
    · next hdigit =>
      refine hgo ?_ h
      rintro rfl
      cases hdigit
    split at h
    · next he =>
      split at h
      · cases h
      · next hsign =>
        obtain ⟨r, hr, hnumber⟩ := Option.map_eq_some_iff.mp h
        obtain rfl := Option.some.inj hnumber
        obtain ⟨used, rfl, hused⟩ := scanExponent_read hr
        refine ⟨cur :: next :: used, rfl, ?_⟩
        rw [List.mem_cons, List.mem_cons, not_or, not_or]
        refine ⟨?_, ?_, hused⟩
        · rintro rfl
          rcases he with he | he <;> cases he
        · rintro rfl
          exact hsign ⟨by decide, by decide⟩
    · exact hstop h

theorem readString_read {str : List Char} {r : List Char × List Char}
    (h : readString str cs = some (some r)) : ∃ body, cs = body ++ r.2 := by
  induction hn : cs.length using Nat.strongRecOn generalizing str cs with
  | _ n ih =>
    subst hn
    rw [readString.eq_def] at h
    cases cs with
    | nil =>
      obtain rfl := Option.some.inj (Option.some.inj h)
      exact ⟨[], rfl⟩
    | cons c pos =>
      dsimp only at h
      split at h
      · cases pos with
        | nil => cases h
        | cons d pos =>
          dsimp only at h
          split at h
          · obtain ⟨body, rfl⟩ := ih pos.length (by simp only [List.length_cons]; omega) h rfl
            exact ⟨c :: d :: body, rfl⟩
          · cases h
      split at h
      · obtain rfl := Option.some.inj (Option.some.inj h)
        exact ⟨[c], rfl⟩
      · obtain ⟨body, rfl⟩ := ih pos.length (by simp) h rfl
        exact ⟨c :: body, rfl⟩

theorem matchToken_read {simple : SimpleToken} (h : matchToken cs = some (simple, rest)) :
    simple ∈ tokenTable ∧ cs = simple.str.toList ++ rest := by
  obtain ⟨token, hmem, hword⟩ := List.exists_of_findSome?_eq_some h
  obtain ⟨pos, hpos, hpair⟩ := Option.map_eq_some_iff.mp hword
  obtain ⟨rfl, rfl⟩ := Prod.mk.inj hpair
  refine ⟨hmem, ?_⟩
  unfold checkWord at hpos
  split at hpos
  · next hprefix =>
    obtain ⟨u, rfl⟩ := List.isPrefixOf_iff_prefix.mp hprefix
    dsimp only at hpos
    split at hpos
    · cases hpos
    · obtain rfl := Option.some.inj hpos
      rw [← (tokenTable_words token hmem).1, List.drop_left]
  · cases hpos

theorem tokenTable_newline : ∀ token ∈ tokenTable, '\n' ∉ token.str.toList := by decide

/-! ## What a round reads -/

/-- The token and the line of a round that goes on, with what the number of the line makes of the
    characters read: a line comment counts as a line, the newlines of a string do not count. -/
structure Reads (line : ℕ) (kind : PieceKind) (cur : Char) (pos : List Char) (line' : ℕ)
    (rest : List Char) (token : Option Token) : Prop where
  used : ∃ used, cur :: pos = used ++ rest ∧ used ≠ [] ∧
    line' + (if kind = .string then used.count '\n' else 0) =
      line + used.count '\n' + (if kind = .lineComment then 1 else 0)
  line : ∀ t ∈ token, t.line = line

theorem Reads.plain {kind : PieceKind} (hstring : kind ≠ .string) (hcomment : kind ≠ .lineComment)
    (used : List Char) (hused : cur :: pos = used ++ rest) (hne : used ≠ [])
    (hline : line' = line + used.count '\n') (htoken : ∀ t ∈ token, t.line = line) :
    Reads line kind cur pos line' rest token :=
  ⟨⟨used, hused, hne, by rw [if_neg hstring, if_neg hcomment, hline]⟩, htoken⟩

theorem pieceKind_comment {next : Char} (hne : next ≠ '\x00')
    (h : cur = '/' ∧ peekNext pos = next) : ∃ rest, cur :: pos = '/' :: next :: rest := by
  obtain ⟨rest, hrest⟩ := peekNext_head h.2 hne
  exact ⟨rest, by rw [h.1, hrest]⟩

theorem pieceKind_lineComment (h : pieceKind cur pos = .lineComment) :
    ∃ rest, cur :: pos = '/' :: '/' :: rest := by
  unfold pieceKind at h
  split_ifs at h with hline
  exact pieceKind_comment (by decide) hline

theorem pieceKind_blockComment (h : pieceKind cur pos = .blockComment) :
    ∃ rest, cur :: pos = '/' :: '*' :: rest := by
  unfold pieceKind at h
  split_ifs at h with hline hblock
  exact pieceKind_comment (by decide) hblock

theorem pieceKind_number (h : pieceKind cur pos = .number) : cur.isDigit = true ∨ cur = '-' := by
  unfold pieceKind at h
  split_ifs at h with hline hblock hspace hnumber
  rw [Bool.or_eq_true, Bool.and_eq_true, beq_iff_eq] at hnumber
  exact hnumber.imp_right And.left

/-- The first character of a number is read. -/
theorem scanNumber_start {number : ScannedNumber} (hstart : cur.isDigit = true ∨ cur = '-')
    (h : scanNumber [] false cur pos = some (some number)) : number.rest.length ≤ pos.length := by
  have hgo : ∀ {str dot next pos}, scanNumber str dot next pos = some (some number) →
      number.rest.length ≤ (next :: pos).length := by
    intro str dot next pos h
    obtain ⟨used, hused, -⟩ := scanNumber_read h
    rw [hused, List.length_append]
    omega
  cases pos with
  | nil =>
    rw [scanNumber] at h
    rcases hstart with hdigit | rfl
    · rw [if_neg (by rintro rfl; cases hdigit), if_neg (by rintro ⟨rfl, -⟩; cases hdigit),
        if_pos hdigit] at h
      cases h
    · cases h
  | cons next pos =>
    rw [scanNumber] at h
    rcases hstart with hdigit | rfl
    · rw [if_neg (by rintro rfl; cases hdigit), if_neg (by rintro ⟨rfl, -⟩; cases hdigit),
        if_pos hdigit] at h
      exact hgo h
    · rw [if_pos rfl, if_neg (fun h => h rfl)] at h
      exact hgo h

theorem lexNumber_reads (hstart : cur.isDigit = true ∨ cur = '-')
    (h : lexNumber D line cur pos = some (.go line' rest token)) :
    Reads line .number cur pos line' rest token := by
  unfold lexNumber at h
  obtain ⟨found, hscan, h⟩ := Option.bind_eq_some_iff.mp h
  cases found with
  | none => cases h
  | some number =>
    obtain ⟨rfl, rfl, rfl⟩ := LexStep.go.inj (Option.some.inj h)
    obtain ⟨used, hused, hnewline⟩ := scanNumber_read hscan
    refine .plain (by decide) (by decide) _ hused ?_ ?_ ?_
    · rintro rfl
      have hlength := congrArg List.length hused
      have hle := scanNumber_start hstart hscan
      simp only [List.nil_append, List.length_cons] at hlength
      omega
    · rw [List.count_eq_zero_of_not_mem hnewline, Nat.add_zero]
    · intro t ht
      obtain rfl := Option.mem_some_iff.mp ht
      unfold numberToken ByteLexer.numberToken
      split
      · rfl
      · split <;> rfl

theorem lexString_reads (h : lexString line pos = some (.go line' rest token)) :
    Reads line .string '"' pos line' rest token := by
  unfold lexString at h
  obtain ⟨found, hread, h⟩ := Option.bind_eq_some_iff.mp h
  cases found with
  | none => cases h
  | some r =>
    obtain ⟨rfl, rfl, rfl⟩ := LexStep.go.inj (Option.some.inj h)
    obtain ⟨body, rfl⟩ := readString_read hread
    refine ⟨⟨'"' :: body, rfl, List.cons_ne_nil _ _, ?_⟩, ?_⟩
    · rw [if_pos rfl, if_neg (by decide), Nat.add_zero]
    · intro t ht
      obtain rfl := Option.mem_some_iff.mp ht
      rfl

theorem lexWord_reads (h : lexWord line cur pos = .go line' rest token) :
    Reads line .word cur pos line' rest token := by
  unfold lexWord at h
  split at h
  · next simple pos' hmatch =>
    obtain ⟨rfl, rfl, rfl⟩ := LexStep.go.inj h
    obtain ⟨hmem, hused⟩ := matchToken_read hmatch
    refine .plain (by decide) (by decide) _ hused (tokenTable_words simple hmem).2.2 ?_ ?_
    · rw [List.count_eq_zero_of_not_mem (tokenTable_newline simple hmem), Nat.add_zero]
    · intro t ht
      obtain rfl := Option.mem_some_iff.mp ht
      rfl
  · split at h
    · next hchar =>
      obtain ⟨rfl, rfl, rfl⟩ := LexStep.go.inj h
      have hnewline : '\n' ∉ cur :: pos.takeWhile isIdentifierChar := by
        rw [Bool.and_eq_true] at hchar
        rw [List.mem_cons, not_or]
        refine ⟨?_, fun hmem => ?_⟩
        · rintro rfl
          exact absurd hchar.1 (by decide)
        · exact absurd (List.mem_takeWhile_imp hmem) (by decide)
      refine .plain (by decide) (by decide) (cur :: pos.takeWhile isIdentifierChar) ?_
        (List.cons_ne_nil _ _) ?_ ?_
      · rw [List.cons_append, List.takeWhile_append_dropWhile]
      · rw [List.count_eq_zero_of_not_mem hnewline, Nat.add_zero]
      · intro t ht
        obtain rfl := Option.mem_some_iff.mp ht
        rfl
    · cases h

/-- What a round reads. -/
theorem lexStep_reads (h : lexStep D line cur pos = some (.go line' rest token)) :
    cur ≠ '\x00' ∧ Reads line (pieceKind cur pos) cur pos line' rest token := by
  rw [lexStep_eq] at h
  split at h
  · cases h
  · next hzero =>
    refine ⟨hzero, ?_⟩
    cases hkind : pieceKind cur pos with
    | lineComment =>
      rw [hkind] at h
      obtain ⟨tail, htext⟩ := pieceKind_lineComment hkind
      obtain ⟨rfl, rfl⟩ := List.cons.inj htext
      obtain ⟨pos', hskip, hgo⟩ := Option.map_eq_some_iff.mp h
      obtain ⟨rfl, rfl, rfl⟩ := LexStep.go.inj hgo
      obtain ⟨body, hbody, hnewline⟩ := skipLine_read hskip
      obtain rfl : tail = body ++ pos' := hbody
      refine ⟨⟨'/' :: '/' :: body, rfl, List.cons_ne_nil _ _, ?_⟩, fun _ h => nomatch h⟩
      rw [if_neg (by decide), if_pos rfl, List.count_cons_of_ne (by decide),
        List.count_cons_of_ne (by decide), List.count_eq_zero_of_not_mem hnewline]
    | blockComment =>
      rw [hkind] at h
      obtain ⟨tail, htext⟩ := pieceKind_blockComment hkind
      obtain ⟨rfl, rfl⟩ := List.cons.inj htext
      obtain ⟨r, hskip, hgo⟩ := Option.map_eq_some_iff.mp h
      obtain ⟨rfl, rfl, rfl⟩ := LexStep.go.inj hgo
      obtain ⟨body, hbody, hline⟩ := skipComment_read hskip
      obtain rfl : tail = body ++ r.2 := hbody
      refine .plain (by decide) (by decide) ('/' :: '*' :: body) rfl (List.cons_ne_nil _ _)
        ?_ (fun _ h => nomatch h)
      rw [List.count_cons_of_ne (by decide), List.count_cons_of_ne (by decide), hline]
    | blank =>
      rw [hkind] at h
      obtain ⟨rfl, rfl, rfl⟩ := LexStep.go.inj (Option.some.inj h)
      refine .plain (by decide) (by decide) [cur] rfl (List.cons_ne_nil _ _)
        ?_ (fun _ h => nomatch h)
      exact count_newline cur line
    | number =>
      rw [hkind] at h
      exact lexNumber_reads (pieceKind_number hkind) h
    | string =>
      rw [hkind] at h
      obtain rfl : cur = '"' := by
        unfold pieceKind at hkind
        split_ifs at hkind with _ _ _ _ hquote
        exact hquote
      exact lexString_reads h
    | word =>
      rw [hkind] at h
      exact lexWord_reads (Option.some.inj h)

theorem Reads.length {kind : PieceKind} (h : Reads line kind cur pos line' rest token) :
    rest.length < (cur :: pos).length := by
  obtain ⟨used, hused, hne, -⟩ := h.used
  have hpos := List.length_pos_iff.mpr hne
  rw [hused, List.length_append]
  omega

/-- The lexer stops at a zero only. -/
theorem lexStep_stop (h : lexStep D line cur pos = some .stop) : cur = '\x00' := by
  rw [lexStep_eq] at h
  split at h
  · assumption
  · exfalso
    split at h
    · obtain ⟨_, _, h⟩ := Option.map_eq_some_iff.mp h
      cases h
    · obtain ⟨_, _, h⟩ := Option.map_eq_some_iff.mp h
      cases h
    · cases h
    · unfold lexNumber at h
      obtain ⟨found, -, h⟩ := Option.bind_eq_some_iff.mp h
      cases found <;> cases h
    · unfold lexString at h
      obtain ⟨found, -, h⟩ := Option.bind_eq_some_iff.mp h
      cases found <;> cases h
    · unfold lexWord at h
      split at h
      · cases h
      · split at h <;> cases h

/-! ## Trails -/

variable {text mid : List Char} {pieces pre post : List Piece} {line₁ : ℕ}

theorem Trail.text_eq (h : Trail D line text pieces line' rest) : text = usedText pieces ++ rest := by
  induction h with
  | nil => rfl
  | cons hstep hused htrail ih =>
    rw [hused, usedText, List.flatMap_cons, List.append_assoc]
    exact congrArg _ ih

theorem Trail.append (h : Trail D line text pre line₁ mid)
    (hpost : Trail D line₁ mid post line' rest) : Trail D line text (pre ++ post) line' rest := by
  induction h with
  | nil => exact hpost
  | cons hstep hused _ ih => exact .cons hstep hused (ih hpost)

/-- The rounds in front of some piece, and the rounds from there. -/
theorem Trail.split (h : Trail D line text (pre ++ post) line' rest) :
    ∃ line₁ mid, Trail D line text pre line₁ mid ∧ Trail D line₁ mid post line' rest := by
  induction pre generalizing line text with
  | nil => exact ⟨line, text, .nil, h⟩
  | cons first pre ih =>
    cases h with
    | cons hstep hused htrail =>
      obtain ⟨line₁, mid, hpre, hpost⟩ := ih htrail
      exact ⟨line₁, mid, .cons hstep hused hpre, hpost⟩

/-! ## The loop -/

variable {fuel fuel' : ℕ} {tokens tokens' : List Token}

/-- One round of the loop, and the rest of it. -/
theorem lexLoop_go (h : lexStep D line cur pos = some (.go line' rest token)) :
    lexLoop D (fuel + 1) line (cur :: pos) tokens =
      lexLoop D fuel line' rest (tokens ++ token.toList) := by
  rw [lexLoop, h]

theorem lexLoop_fuel (hfuel : text.length < fuel) (hfuel' : text.length < fuel') :
    lexLoop D fuel line text tokens = lexLoop D fuel' line text tokens := by
  induction fuel generalizing fuel' line text tokens with
  | zero => exact absurd hfuel (Nat.not_lt_zero _)
  | succ fuel ih =>
    obtain ⟨fuel', rfl⟩ : ∃ k, fuel' = k + 1 := ⟨fuel' - 1, by omega⟩
    match text with
    | [] => rfl
    | cur :: pos =>
      rw [lexLoop, lexLoop]
      match hstep : lexStep D line cur pos with
      | none => rfl
      | some .fail => rfl
      | some .stop => rfl
      | some (.go line' rest token) =>
        have hlength := (lexStep_reads hstep).2.length
        exact ih (by omega) (by omega)

/-- The rounds of a trail, in the loop. -/
theorem Trail.lexLoop (h : Trail D line text pieces line' rest) (hfuel : text.length < fuel)
    (hfuel' : rest.length < fuel') : TextLexer.lexLoop D fuel line text tokens =
      TextLexer.lexLoop D fuel' line' rest (tokens ++ tokensOf pieces) := by
  induction h generalizing fuel tokens with
  | nil =>
    rw [lexLoop_fuel hfuel hfuel', tokensOf, List.filterMap_nil, List.append_nil]
  | @cons line line' line'' cur pos used rest rest' token pieces hstep hused htrail ih =>
    obtain ⟨fuel, rfl⟩ : ∃ k, fuel = k + 1 := ⟨fuel - 1, by omega⟩
    have hlength := (lexStep_reads hstep).2.length
    rw [lexLoop_go hstep, ih (by omega) hfuel', List.append_assoc]
    cases token <;> rfl

/-- What the lexer leaves when it returns; a text that it accepts has been read to its end, or to a
    zero. -/
theorem lexLoop_returns {ok : Bool} (h : lexLoop D fuel line text tokens = some (ok, tokens')) :
    ∃ pieces line' rest, Trail D line text pieces line' rest ∧
      tokens' = tokens ++ tokensOf pieces ∧
        (ok = true → rest = [] ∨ ∃ rest', rest = '\x00' :: rest') := by
  induction fuel generalizing line text tokens with
  | zero => cases h
  | succ fuel ih =>
    match text with
    | [] =>
      obtain ⟨-, rfl⟩ := Prod.mk.inj (Option.some.inj h)
      exact ⟨[], line, [], .nil, (List.append_nil _).symm, fun _ => .inl rfl⟩
    | cur :: pos =>
      rw [lexLoop] at h
      split at h
      · cases h
      · obtain ⟨rfl, rfl⟩ := Prod.mk.inj (Option.some.inj h)
        exact ⟨[], line, cur :: pos, .nil, (List.append_nil _).symm, fun h => nomatch h⟩
      · next hstep =>
        obtain ⟨-, rfl⟩ := Prod.mk.inj (Option.some.inj h)
        refine ⟨[], line, cur :: pos, .nil, (List.append_nil _).symm, fun _ => .inr ⟨pos, ?_⟩⟩
        rw [lexStep_stop hstep]
      · next line' rest token hstep =>
        obtain ⟨used, hused, -⟩ := (lexStep_reads hstep).2.used
        obtain ⟨pieces, line'', rest', htrail, rfl, hrest⟩ := ih h
        refine ⟨_ :: pieces, line'', rest', .cons hstep hused htrail, ?_, hrest⟩
        rw [List.append_assoc]
        cases token <;> rfl

/-! ## On octets -/

/-- What the lexer comes to on octets: the decoder throws at the end of the text. -/
def returned (r : Option (Bool × List Token)) : Except Utf8Exception (Bool × List Token) :=
  r.elim (.error .notEnoughRoom) .ok

theorem lexLoop_encode (hfuel : text.length < fuel) (hfuel' : (encode text).length < fuel') :
    ByteLexer.lexLoop D fuel' line (encode text) tokens =
      some (returned (lexLoop D fuel line text tokens)) := by
  induction fuel generalizing fuel' line text tokens with
  | zero => exact absurd hfuel (Nat.not_lt_zero _)
  | succ fuel ih =>
    obtain ⟨fuel', rfl⟩ : ∃ k, fuel' = k + 1 := ⟨fuel' - 1, by omega⟩
    match text with
    | [] => rfl
    | cur :: pos =>
      have hne : encode (cur :: pos) ≠ [] := by simp
      have hagrees := lexStep_encode D line cur pos
      rw [ByteLexer.lexLoop, if_neg hne, lexLoop]
      match hstep : lexStep D line cur pos with
      | none =>
        rw [hstep] at hagrees
        rw [hagrees.eq_error]
        rfl
      | some .fail =>
        rw [hstep] at hagrees
        rw [hagrees.eq_ok]
        rfl
      | some .stop =>
        rw [hstep] at hagrees
        rw [hagrees.eq_ok]
        rfl
      | some (.go line' rest token) =>
        rw [hstep] at hagrees
        rw [hagrees.eq_ok]
        obtain ⟨used, hused, hne', -⟩ := (lexStep_reads hstep).2.used
        have hlength := (lexStep_reads hstep).2.length
        have hoctets : (encode rest).length < (encode (cur :: pos)).length := by
          rw [hused]
          exact encode_length_lt hne'
        exact ih (by omega) (by omega)

/-- The lexer on the octets of a text is the lexer on its characters. -/
theorem lexer_encode :
    ByteLexer.lexer D (encode text) = some (returned (lexer D text)) := by
  unfold ByteLexer.lexer lexer
  match text with
  | [] => rfl
  | cur :: pos =>
    rw [if_neg (by simp), List.isEmpty_cons, if_neg Bool.false_ne_true]
    exact lexLoop_encode (Nat.lt_succ_self _) (Nat.lt_succ_self _)

/-- A text that is read to its end is accepted. -/
theorem Trail.lexer (h : Trail D 1 text pieces line []) (hne : text ≠ []) :
    ByteLexer.lexer D (encode text) = some (.ok (true, tokensOf pieces)) := by
  rw [lexer_encode, TextLexer.lexer, if_neg (by simpa using hne),
    h.lexLoop (Nat.lt_succ_self _) (Nat.lt_succ_self 0)]
  rfl

/-- What the lexer leaves of a text. -/
theorem lexer_returns {ok : Bool}
    (h : ByteLexer.lexer D (encode text) = some (.ok (ok, tokens))) :
    ∃ pieces line rest, Trail D 1 text pieces line rest ∧ tokens = tokensOf pieces ∧
      (ok = true → rest = [] ∨ ∃ rest', rest = '\x00' :: rest') := by
  rw [lexer_encode] at h
  have hlexer : lexer D text = some (ok, tokens) := by
    cases hr : lexer D text with
    | none =>
      rw [hr] at h
      cases h
    | some r =>
      rw [hr] at h
      exact congrArg some (Except.ok.inj (Option.some.inj h))
  unfold lexer at hlexer
  split at hlexer
  · obtain ⟨rfl, rfl⟩ := Prod.mk.inj (Option.some.inj hlexer)
    exact ⟨[], 1, text, .nil, rfl, fun h => nomatch h⟩
  · exact lexLoop_returns hlexer

end B0rk.TextLexer
