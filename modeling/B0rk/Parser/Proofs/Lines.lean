import B0rk.Parser.Proofs.ByteLexer
import B0rk.Parser.Proofs.Trail

set_option autoImplicit false

/-! # Line numbers

The counter of the lines against the newlines that have been read. A line comment stops in front of
its newline and counts it, and the round behind it counts the newline again; the newlines of a string
are not counted. -/

namespace B0rk.TextLexer

open ByteLexer (ReadNumber plainReader)

variable {D : ReadNumber} {line line' : ℕ} {text rest : List Char} {pieces pre post : List Piece}
  {piece : Piece} {tokens : List Token}

/-- The line comments that have been read. -/
def lineComments (pieces : List Piece) : ℕ :=
  pieces.countP (fun piece => decide (piece.kind = .lineComment))

/-- The newlines inside the strings that have been read. -/
def stringNewlines (pieces : List Piece) : ℕ :=
  (usedText (pieces.filter (fun piece => decide (piece.kind = .string)))).count '\n'

/-- The pieces of a text that the lexer has read to its end, or to a zero. -/
def DividedInto (D : ReadNumber) (text : List Char) (pieces : List Piece) : Prop :=
  ∃ line rest, Trail D 1 text pieces line rest ∧ (rest = [] ∨ ∃ rest', rest = '\x00' :: rest')

theorem lineComments_cons : lineComments (piece :: pieces) =
    (if piece.kind = .lineComment then 1 else 0) + lineComments pieces := by
  unfold lineComments
  rw [List.countP_cons, Nat.add_comm]
  by_cases h : piece.kind = .lineComment <;> simp [h]

theorem stringNewlines_cons : stringNewlines (piece :: pieces) =
    (if piece.kind = .string then piece.used.count '\n' else 0) + stringNewlines pieces := by
  unfold stringNewlines usedText
  by_cases h : piece.kind = .string
  · rw [List.filter_cons, if_pos (decide_eq_true h), List.flatMap_cons, List.count_append, if_pos h]
  · rw [List.filter_cons, if_neg (by simpa using h), if_neg h, Nat.zero_add]

/-- The line after some rounds. -/
theorem Trail.lines (h : Trail D line text pieces line' rest) :
    line' + stringNewlines pieces = line + (usedText pieces).count '\n' + lineComments pieces := by
  induction h with
  | nil => rfl
  | @cons line line₁ line' cur pos used rest₁ rest token pieces hstep hused htrail ih =>
    obtain ⟨used', hused', -, hline⟩ := (lexStep_reads hstep).2.used
    obtain rfl : used = used' := List.append_cancel_right (hused.symm.trans hused')
    rw [stringNewlines_cons, lineComments_cons, usedText, List.flatMap_cons, List.count_append]
    dsimp only at hline ⊢
    unfold usedText at ih
    omega

/-- In a text that the lexer accepts, the line of a token is one plus the number of the newlines in
    front of it if and only if there are as many line comments in front of it as newlines inside the
    strings in front of it. -/
theorem lexer_line_iff (h : ByteLexer.lexer D (encode text) = some (.ok (true, tokens))) :
    ∃ pieces, DividedInto D text pieces ∧ tokens = tokensOf pieces ∧
      ∀ pre piece post t, pieces = pre ++ piece :: post → piece.token = some t →
        (t.line = 1 + (usedText pre).count '\n' ↔ lineComments pre = stringNewlines pre) := by
  obtain ⟨pieces, line, rest, htrail, htokens, hrest⟩ := lexer_returns h
  refine ⟨pieces, ⟨line, rest, htrail, hrest rfl⟩, htokens, ?_⟩
  rintro pre piece post t rfl ht
  obtain ⟨line₁, mid, hpre, hpiece⟩ := htrail.split
  have hcount := hpre.lines
  cases hpiece with
  | cons hstep hused hpost =>
    rw [(lexStep_reads hstep).2.line t ht]
    omega

/-- A string over two lines behind a line comment: the token behind it has its line again. -/
theorem drift_trail : Trail plainReader 1 ['/', '/', '\n', '"', '\n', '"', 'y']
    [⟨.lineComment, ['/', '/'], none⟩, ⟨.blank, ['\n'], none⟩,
      ⟨.string, ['"', '\n', '"'], some ⟨.tokString, 3, "\n", 0, 0⟩⟩,
      ⟨.word, ['y'], some ⟨.tokIdentifier, 3, "y", 0, 0⟩⟩] 3 [] := by
  have hword : Trail plainReader 3 ['y']
      [⟨.word, ['y'], some ⟨.tokIdentifier, 3, "y", 0, 0⟩⟩] 3 [] := .cons (by rfl) (by rfl) .nil
  have hstring : Trail plainReader 3 ['"', '\n', '"', 'y']
      [⟨.string, ['"', '\n', '"'], some ⟨.tokString, 3, "\n", 0, 0⟩⟩,
        ⟨.word, ['y'], some ⟨.tokIdentifier, 3, "y", 0, 0⟩⟩] 3 [] := .cons (by rfl) (by rfl) hword
  have hblank : Trail plainReader 2 ['\n', '"', '\n', '"', 'y']
      [⟨.blank, ['\n'], none⟩, ⟨.string, ['"', '\n', '"'], some ⟨.tokString, 3, "\n", 0, 0⟩⟩,
        ⟨.word, ['y'], some ⟨.tokIdentifier, 3, "y", 0, 0⟩⟩] 3 [] := .cons (by rfl) (by rfl) hstring
  exact .cons (by rfl) (by rfl) hblank

theorem drift_lines : ∃ pieces, DividedInto plainReader ['/', '/', '\n', '"', '\n', '"', 'y'] pieces ∧
    [⟨.tokString, 3, "\n", 0, 0⟩, ⟨.tokIdentifier, 3, "y", 0, 0⟩] = tokensOf pieces ∧
      ∀ pre piece post t, pieces = pre ++ piece :: post → piece.token = some t →
        (t.line = 1 + (usedText pre).count '\n' ↔ lineComments pre = stringNewlines pre) :=
  lexer_line_iff (drift_trail.lexer (by decide))

/-- The token behind a line comment, on the second line, is given the third. -/
theorem comment_line : ∃ pieces, DividedInto plainReader ['/', '/', '\n', 'x'] pieces ∧
    ByteLexer.lexer plainReader (encode ['/', '/', '\n', 'x']) =
      some (.ok (true, tokensOf pieces)) ∧
      ¬∀ pre piece post t, pieces = pre ++ piece :: post → piece.token = some t →
        t.line = 1 + (usedText pre).count '\n' := by
  have htrail : Trail plainReader 1 ['/', '/', '\n', 'x'] [⟨.lineComment, ['/', '/'], none⟩,
      ⟨.blank, ['\n'], none⟩, ⟨.word, ['x'], some ⟨.tokIdentifier, 3, "x", 0, 0⟩⟩] 3 [] :=
    .cons rfl rfl (.cons rfl rfl (.cons rfl rfl .nil))
  refine ⟨_, ⟨3, [], htrail, .inl rfl⟩, htrail.lexer (by decide), fun h => ?_⟩
  exact absurd (h [_, _] _ [] _ rfl rfl) (by decide)

end B0rk.TextLexer
