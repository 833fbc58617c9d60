import B0rk.Parser.Proofs.ByteLexer
import B0rk.Parser.Proofs.Trail
import Mathlib.Data.List.DropRight

set_option autoImplicit false

/-! # Block comments

Where the scan of a block comment ends. It takes what is behind a star together with the star, so that
a star behind a star does not begin the end of the comment. -/

namespace B0rk.TextLexer

open ByteLexer (ReadNumber plainReader Decodes commentStep commentLoop commentLoop_go commentLoop_end)

variable {D : ReadNumber} {line line' : ℕ} {c s pre post text : List Char} {star star' : Bool}

/-- The end of a comment is nowhere in `c` or over its end. -/
def OnlyAtEnd (c : List Char) : Prop :=
  ∀ pre post, c ++ ['*', '/'] = pre ++ '*' :: '/' :: post → post = []

/-- The stars at the end of a text. -/
def trailingStars (c : List Char) : ℕ := (c.rtakeWhile (· == '*')).length

/-- The number of stars in front of the end of the comment is even, and in front of each zero it is
    odd. -/
structure Closes (c : List Char) : Prop where
  stars : trailingStars c % 2 = 0
  zeros : ∀ pre post, c = pre ++ '\x00' :: post → trailingStars pre % 2 = 1

/-! ## Stars -/

theorem trailingStars_star : trailingStars (c ++ ['*']) = trailingStars c + 1 := by
  rw [trailingStars, List.rtakeWhile_concat_pos _ _ _ rfl, List.length_append]
  rfl

theorem trailingStars_other {x : Char} (h : x ≠ '*') : trailingStars (c ++ [x]) = 0 := by
  rw [trailingStars, List.rtakeWhile_concat_neg _ _ _ (by simpa using h)]
  rfl

theorem exists_star (h : trailingStars c % 2 = 1) : ∃ pre, c = pre ++ ['*'] := by
  induction c using List.reverseRecOn with
  | nil => cases h
  | append_singleton c x _ =>
    by_cases hx : x = '*'
    · exact ⟨c, by rw [hx]⟩
    · rw [trailingStars_other hx] at h
      cases h

theorem commentStep_none {x : Char} (h : commentStep star x = none) :
    star = true ∧ x = '/' ∨ star = false ∧ x = '\x00' := by
  cases star with
  | false =>
    rw [commentStep] at h
    split_ifs at h with _ hzero
    exact .inr ⟨rfl, hzero⟩
  | true =>
    rw [commentStep] at h
    split_ifs at h with hslash
    exact .inl ⟨rfl, hslash⟩

/-- The scan is behind a star if the number of stars read last is odd. -/
theorem foldlM_commentStep (h : c.foldlM commentStep false = some star) :
    trailingStars c % 2 = star.toNat := by
  induction c using List.reverseRecOn generalizing star with
  | nil =>
    obtain rfl := Option.some.inj h
    rfl
  | append_singleton c x ih =>
    rw [List.foldlM_append] at h
    obtain ⟨before, hbefore, hx⟩ := Option.bind_eq_some_iff.mp h
    have hparity := ih hbefore
    obtain ⟨after, hstep, hafter⟩ := Option.bind_eq_some_iff.mp hx
    obtain rfl := Option.some.inj hafter
    cases before with
    | false =>
      rw [commentStep] at hstep
      split_ifs at hstep with hstar
      · obtain rfl := Option.some.inj hstep
        rw [hstar, trailingStars_star, Nat.add_mod, hparity]
        rfl
      · obtain rfl := Option.some.inj hstep
        rw [trailingStars_other hstar]
        rfl
    | true =>
      rw [commentStep] at hstep
      split_ifs at hstep with hslash
      obtain rfl := Option.some.inj hstep
      by_cases hstar : x = '*'
      · rw [hstar, trailingStars_star, Nat.add_mod, hparity]
        rfl
      · rw [trailingStars_other hstar]
        rfl

theorem foldlM_none (h : c.foldlM commentStep star = none) : ∃ pre x post star',
    c = pre ++ x :: post ∧ pre.foldlM commentStep star = some star' ∧ commentStep star' x = none := by
  induction c generalizing star with
  | nil => cases h
  | cons x c ih =>
    cases hstep : commentStep star x with
    | none => exact ⟨[], x, c, star, rfl, rfl, hstep⟩
    | some after =>
      rw [List.foldlM_cons, hstep] at h
      obtain ⟨pre, y, post, star', rfl, hpre, hy⟩ := ih h
      refine ⟨x :: pre, y, post, star', rfl, ?_, hy⟩
      rw [List.foldlM_cons, hstep]
      exact hpre

/-- What stops the scan in front of the end of the comment is a zero. -/
theorem stops_at_zero (hc : OnlyAtEnd c) {x : Char} (htext : c = pre ++ x :: post)
    (hpre : pre.foldlM commentStep false = some star) (hstep : commentStep star x = none) :
    star = false ∧ x = '\x00' := by
  rcases commentStep_none hstep with ⟨rfl, rfl⟩ | h
  · obtain ⟨pre', rfl⟩ := exists_star (foldlM_commentStep hpre)
    have hend := hc pre' (post ++ ['*', '/']) (by rw [htext]; simp)
    exact absurd hend (by simp)
  · exact h

theorem closes_iff (hc : OnlyAtEnd c) : Closes c ↔ c.foldlM commentStep false = some false := by
  constructor
  · intro h
    cases hfold : c.foldlM commentStep false with
    | none =>
      obtain ⟨pre, x, post, star, htext, hpre, hstep⟩ := foldlM_none hfold
      obtain ⟨rfl, rfl⟩ := stops_at_zero hc htext hpre hstep
      have hodd := h.zeros pre post htext
      rw [foldlM_commentStep hpre] at hodd
      cases hodd
    | some star =>
      have heven := h.stars
      rw [foldlM_commentStep hfold] at heven
      cases star with
      | false => rfl
      | true => cases heven
  · intro h
    refine ⟨foldlM_commentStep h, ?_⟩
    rintro pre post rfl
    rw [List.foldlM_append] at h
    obtain ⟨star, hpre, hrest⟩ := Option.bind_eq_some_iff.mp h
    rw [List.foldlM_cons] at hrest
    obtain ⟨star', hstep, -⟩ := Option.bind_eq_some_iff.mp hrest
    rw [foldlM_commentStep hpre]
    cases star with
    | false => cases hstep
    | true => rfl

/-! ## The scan -/

theorem decodes_encode (x : Char) (text : List Char) : Decodes (encode (x :: text)) x (encode text) :=
  next_encode_cons x text

theorem commentLoop_fold (h : c.foldlM commentStep star = some star') (line : ℕ) :
    ∃ line', commentLoop star line (encode (c ++ s)) = commentLoop star' line' (encode s) := by
  induction c generalizing star line with
  | nil =>
    obtain rfl := Option.some.inj h
    exact ⟨line, rfl⟩
  | cons x c ih =>
    rw [List.foldlM_cons] at h
    obtain ⟨after, hstep, hrest⟩ := Option.bind_eq_some_iff.mp h
    obtain ⟨line₁, hgo⟩ := commentLoop_go (decodes_encode x (c ++ s)) hstep line
    obtain ⟨line', hrest⟩ := ih hrest line₁
    exact ⟨line', hgo.trans hrest⟩

/-- The comment of `c`, and the text `s` behind it. -/
def behindComment (c s : List Char) : List Char := '/' :: '*' :: (c ++ '*' :: '/' :: s)

theorem lexStep_behindComment : ByteLexer.lexStep D line (encode (behindComment c s)) =
    (commentLoop false line (encode (c ++ '*' :: '/' :: s))).map (fun r => .go r.1 r.2 none) := by
  have hahead : peekNext ('*' :: (c ++ '*' :: '/' :: s)) = '*' := by cases c <;> rfl
  have hbegins : ByteLexer.Begins (encode (behindComment c s)) '/' '*'
      (encode ('*' :: (c ++ '*' :: '/' :: s))) :=
    ⟨decodes_encode _ _, by decide, by rw [lookahead_encode, hahead]⟩
  rw [ByteLexer.lexStep_comment hbegins (.inr rfl) (decodes_encode _ _), if_neg (by decide)]
  rfl

/-- A comment that closes is read to its end. -/
theorem Closes.lexStep (h : c.foldlM commentStep false = some false) (line : ℕ) :
    ∃ line', ByteLexer.lexStep D line (encode (behindComment c s)) =
      .ok (.go line' (encode s) none) := by
  obtain ⟨line₁, hbody⟩ := commentLoop_fold (s := '*' :: '/' :: s) h line
  obtain ⟨line₂, hstar⟩ := commentLoop_go (decodes_encode '*' ('/' :: s))
    (show commentStep false '*' = some true from rfl) line₁
  have hslash := commentLoop_end (decodes_encode '/' s) (show commentStep true '/' = none from rfl) line₂
  refine ⟨line₂, ?_⟩
  rw [lexStep_behindComment, hbody, hstar, hslash]
  rfl

/-- Where the stars do not pair up, the comment goes on behind its end. -/
theorem lexStep_star (h : c.foldlM commentStep false = some true) (line : ℕ) :
    ∃ line', ByteLexer.lexStep D line (encode (behindComment c s)) =
      (ByteLexer.skipComment line' (encode ('/' :: s))).map (fun r => .go r.1 r.2 none) := by
  obtain ⟨line₁, hbody⟩ := commentLoop_fold (s := '*' :: '/' :: s) h line
  obtain ⟨line₂, hstar⟩ := commentLoop_go (decodes_encode '*' ('/' :: s))
    (show commentStep true '*' = some false from rfl) line₁
  refine ⟨line₂, ?_⟩
  rw [lexStep_behindComment, hbody, hstar]
  rfl

/-- At a zero, the comment ends where it stands. -/
theorem lexStep_zero (htext : c = pre ++ '\x00' :: post)
    (hpre : pre.foldlM commentStep false = some false) (line : ℕ) :
    ∃ line', ByteLexer.lexStep D line (encode (behindComment c s)) =
      .ok (.go line' (encode ('\x00' :: (post ++ '*' :: '/' :: s))) none) := by
  obtain ⟨line₁, hbody⟩ := commentLoop_fold (s := '\x00' :: (post ++ '*' :: '/' :: s)) hpre line
  have hzero := commentLoop_end (decodes_encode '\x00' (post ++ '*' :: '/' :: s))
    (show commentStep false '\x00' = none from rfl) line₁
  refine ⟨line₁, ?_⟩
  rw [lexStep_behindComment, htext, List.append_assoc, List.cons_append, hbody, hzero]
  rfl

/-! ## Lines -/

/-- A token without its line. -/
def withoutLine (token : Token) : Token := { token with line := 0 }

/-- A round without its lines. -/
def stepWithoutLine : LexStep → LexStep
  | .fail => .fail
  | .stop => .stop
  | .go _ pos token => .go 0 pos (token.map withoutLine)

theorem skipComment_line (line line' : ℕ) (cs : List Char) :
    (skipComment line cs).map Prod.snd = (skipComment line' cs).map Prod.snd := by
  induction line, cs using skipComment.induct generalizing line' with
  | case1 line => rfl
  | case2 line => rfl
  | case3 line c hc => rw [skipComment, skipComment, if_neg hc, if_neg hc]
  | case4 line rest => rfl
  | case5 line d rest hd ih =>
    rw [skipComment, skipComment, if_pos rfl, if_pos rfl, if_neg hd, if_neg hd]
    exact ih _
  | case6 line d rest => rfl
  | case7 line c d rest hstar hzero ih =>
    rw [skipComment, skipComment, if_neg hstar, if_neg hstar, if_neg hzero, if_neg hzero]
    exact ih _

theorem numberToken_line (line line' : ℕ) (number : ScannedNumber) :
    withoutLine (numberToken D line number) = withoutLine (numberToken D line' number) := by
  unfold numberToken ByteLexer.numberToken
  split
  · rfl
  · split <;> rfl

theorem lexWord_line (line line' : ℕ) (cur : Char) (pos : List Char) :
    stepWithoutLine (lexWord line cur pos) = stepWithoutLine (lexWord line' cur pos) := by
  unfold lexWord
  split
  · rfl
  · split <;> rfl

theorem lexNumber_line (line line' : ℕ) (cur : Char) (pos : List Char) :
    (lexNumber D line cur pos).map stepWithoutLine =
      (lexNumber D line' cur pos).map stepWithoutLine := by
  unfold lexNumber
  cases scanNumber [] false cur pos with
  | none => rfl
  | some found =>
    cases found with
    | none => rfl
    | some number =>
      exact congrArg (fun t => some (LexStep.go 0 number.rest (some t))) (numberToken_line ..)

theorem lexString_line (line line' : ℕ) (pos : List Char) :
    (lexString line pos).map stepWithoutLine =
      (lexString line' pos).map stepWithoutLine := by
  unfold lexString
  cases readString [] pos with
  | none => rfl
  | some found => cases found <;> rfl

/-- What a round does does not depend on the line. -/
theorem lexStep_line (line line' : ℕ) (cur : Char) (pos : List Char) :
    (lexStep D line cur pos).map stepWithoutLine =
      (lexStep D line' cur pos).map stepWithoutLine := by
  rw [lexStep_eq, lexStep_eq]
  split
  · rfl
  · cases pieceKind cur pos with
    | lineComment => cases hskip : skipLine pos.tail <;> rfl
    | blockComment =>
      have hsnd := congrArg (Option.map (fun pos => LexStep.go 0 pos none))
        (skipComment_line line line' pos.tail)
      rw [Option.map_map, Option.map_map] at hsnd
      dsimp only
      rw [Option.map_map, Option.map_map]
      exact hsnd
    | blank => rfl
    | number => exact lexNumber_line line line' cur pos
    | string => exact lexString_line line line' pos
    | word => exact congrArg some (lexWord_line line line' cur pos)

/-- What the lexer comes to, without the lines of the tokens. -/
def loopWithoutLines (r : Option (Bool × List Token)) : Option (Bool × List Token) :=
  r.map (fun r => (r.1, r.2.map withoutLine))

theorem lexLoop_line (line line' : ℕ) {fuel : ℕ} {tokens tokens' : List Token}
    (htokens : tokens.map withoutLine = tokens'.map withoutLine) :
    loopWithoutLines (lexLoop D fuel line text tokens) =
      loopWithoutLines (lexLoop D fuel line' text tokens') := by
  induction fuel generalizing line line' text tokens tokens' with
  | zero => rfl
  | succ fuel ih =>
    have hresult : ∀ b : Bool, loopWithoutLines (some (b, tokens)) =
        loopWithoutLines (some (b, tokens')) :=
      fun b => congrArg (fun l => some (b, l)) htokens
    cases text with
    | nil => exact hresult true
    | cons cur pos =>
      have hstep := lexStep_line (D := D) line line' cur pos
      rw [lexLoop, lexLoop]
      generalize lexStep D line cur pos = step, lexStep D line' cur pos = step' at hstep ⊢
      -- the two rounds differ in their lines only, so that they end in the same way
      rcases step with _ | _ | _ | ⟨line₁, rest, token⟩ <;>
        rcases step' with _ | _ | _ | ⟨line₂, rest', token'⟩ <;> try cases hstep
      · rfl
      · exact hresult false
      · exact hresult true
      · obtain ⟨-, rfl, htoken⟩ := LexStep.go.inj (Option.some.inj hstep)
        refine ih _ _ ?_
        rw [List.map_append, List.map_append, htokens, ← Option.toList_map, ← Option.toList_map,
          htoken]

/-! ## The texts behind a comment -/

/-- The lexer on a text, without the lines of the tokens. -/
def lexed (D : ReadNumber) (text : List Char) : Option (Except Utf8Exception (Bool × List Token)) :=
  (ByteLexer.lexer D (encode text)).map (Except.map (fun r => (r.1, r.2.map withoutLine)))

theorem lexer_go (used : List Char) (hused : behindComment c s = used ++ text) (hne : used ≠ [])
    (hstep : ByteLexer.lexStep D 1 (encode (behindComment c s)) =
      .ok (.go line' (encode text) none)) :
    ByteLexer.lexer D (encode (behindComment c s)) =
      some (returned (lexLoop D (text.length + 1) line' text [])) := by
  have hnil : encode (behindComment c s) ≠ [] := by simp [behindComment]
  rw [ByteLexer.lexer, if_neg hnil, ByteLexer.lexLoop, if_neg hnil, hstep]
  refine lexLoop_encode (Nat.lt_succ_self _) ?_
  rw [hused]
  exact encode_length_lt hne

theorem returned_withoutLines (r : Option (Bool × List Token)) :
    (returned r).map (fun r => (r.1, r.2.map withoutLine)) = returned (loopWithoutLines r) := by
  cases r <;> rfl

/-- Behind a comment that closes, a text is lexed as it is without the comment. -/
theorem lexed_closed (h : c.foldlM commentStep false = some false) (hs : s ≠ []) :
    lexed D (behindComment c s) = lexed D s := by
  obtain ⟨line', hstep⟩ := Closes.lexStep (D := D) (s := s) h 1
  have hgo := lexer_go ('/' :: '*' :: (c ++ ['*', '/'])) (by simp [behindComment])
    (List.cons_ne_nil _ _) hstep
  have hlexer : lexer D s = lexLoop D (s.length + 1) 1 s [] := by
    rw [lexer, if_neg (by simpa using hs)]
  rw [lexed, lexed, hgo, lexer_encode, hlexer, Option.map_some, Option.map_some,
    returned_withoutLines, returned_withoutLines, lexLoop_line line' 1 rfl]

/-- A comment that does not close, in front of nothing or of what is no token. -/
theorem lexed_open (hc : OnlyAtEnd c) (h : c.foldlM commentStep false ≠ some false)
    (hs : s = [] ∨ s = ['@']) : lexed D (behindComment c s) ≠ some (.ok (false, [])) := by
  cases hfold : c.foldlM commentStep false with
  | none =>
    obtain ⟨pre, x, post, star, htext, hpre, hstep⟩ := foldlM_none hfold
    obtain ⟨rfl, rfl⟩ := stops_at_zero hc htext hpre hstep
    obtain ⟨line', hzero⟩ := lexStep_zero (D := D) (s := s) htext hpre 1
    have hgo := lexer_go ('/' :: '*' :: pre) (by rw [htext]; simp [behindComment])
      (List.cons_ne_nil _ _) hzero
    rw [lexed, hgo]
    rintro ⟨⟩
  | some star =>
    obtain rfl : star = true := by
      cases star with
      | false => exact absurd hfold h
      | true => rfl
    obtain ⟨line', hstep⟩ := lexStep_star (D := D) (s := s) hfold 1
    have hskip : ByteLexer.skipComment line' (encode ('/' :: s)) = .error .notEnoughRoom := by
      have hagrees : Agrees (fun r => (r.1, encode r.2))
          (ByteLexer.skipComment line' (encode ('/' :: s))) (skipComment line' ('/' :: s)) :=
        skipComment_encode
      rcases hs with rfl | rfl
      · exact hagrees.eq_error
      · exact hagrees.eq_error
    have hnil : encode (behindComment c s) ≠ [] := by simp [behindComment]
    rw [lexed, ByteLexer.lexer, if_neg hnil, ByteLexer.lexLoop, if_neg hnil, hstep, hskip]
    rintro ⟨⟩

/-- Every text other than the empty one is lexed behind a comment as it is without the comment, if and
    only if the stars at the end of the comment are even in number and the stars in front of each zero
    in it are odd. The empty text is refused without the comment. -/
theorem lexed_comment_iff (D : ReadNumber) (hc : OnlyAtEnd c) :
    ((∀ s, s ≠ [] → lexed D (behindComment c s) = lexed D s) ↔ Closes c) ∧
      lexed D (behindComment c []) ≠ lexed D [] := by
  refine ⟨⟨fun h => ?_, fun h s hs => ?_⟩, ?_⟩
  · by_contra hopen
    rw [closes_iff hc] at hopen
    refine lexed_open (D := D) hc hopen (.inr rfl) ?_
    rw [h ['@'] (List.cons_ne_nil _ _), lexed, lexer_encode]
    rfl
  · exact lexed_closed ((closes_iff hc).mp h) hs
  · by_cases hclosed : c.foldlM commentStep false = some false
    · obtain ⟨line', hstep⟩ := Closes.lexStep (D := D) (s := []) hclosed 1
      have hgo := lexer_go ('/' :: '*' :: (c ++ ['*', '/'])) (by simp [behindComment])
        (List.cons_ne_nil _ _) hstep
      rw [lexed, hgo]
      exact fun heq => nomatch heq
    · exact lexed_open hc hclosed (.inl rfl)

theorem onlyAtEnd_singleton (x : Char) : OnlyAtEnd [x] := by
  intro pre post h
  cases pre with
  | nil => cases h
  | cons y pre =>
    have hlength := congrArg List.length h
    simp only [List.length_append, List.length_cons, List.length_nil] at hlength
    exact List.eq_nil_of_length_eq_zero (by omega)

theorem lexed_comment_blank :
    (∀ s, s ≠ [] → lexed plainReader (behindComment [' '] s) = lexed plainReader s) ∧
      lexed plainReader (behindComment [' '] []) ≠ lexed plainReader [] := by
  have hblank : OnlyAtEnd [' '] := onlyAtEnd_singleton ' '
  have hcloses : Closes [' '] := (closes_iff hblank).mpr rfl
  obtain ⟨hiff, hempty⟩ := lexed_comment_iff plainReader hblank
  exact ⟨hiff.mpr hcloses, hempty⟩

/-- A comment of one star goes on to the end of the next one. -/
theorem lexed_comment_star : OnlyAtEnd ['*'] ∧
    lexed plainReader (behindComment ['*'] "x/* */y".toList) =
      some (.ok (true, [⟨.tokIdentifier, 0, "y", 0, 0⟩])) ∧
    lexed plainReader (behindComment ['*'] "x/* */y".toList) ≠ lexed plainReader "x/* */y".toList := by
  have hcomment : lexed plainReader (behindComment ['*'] "x/* */y".toList) =
      some (.ok (true, [⟨.tokIdentifier, 0, "y", 0, 0⟩])) := by
    rw [lexed, lexer_encode]
    rfl
  have htext : lexed plainReader "x/* */y".toList =
      some (.ok (true, [⟨.tokIdentifier, 0, "x", 0, 0⟩, ⟨.tokIdentifier, 0, "y", 0, 0⟩])) := by
    rw [lexed, lexer_encode]
    rfl
  refine ⟨onlyAtEnd_singleton '*', hcomment, ?_⟩
  rw [hcomment, htext]
  simp

end B0rk.TextLexer
