import B0rk.Assembler.Assembler
import B0rk.Parser.Parser
import B0rk.Parser.Proofs.ByteLexer
import B0rk.Parser.Proofs.Trail

set_option autoImplicit false

/-! # Integer literals

A literal from its text to the instruction that pushes it. On the way its value is an `int` in the
token, an `int64_t` in the expression and a `uint64_t` in the instruction. -/

namespace B0rk.TextLexer

open ByteLexer (ReadNumber plainReader)

variable {D : ReadNumber} {line : ℕ} {sep : Char} {lit digits rest : List Char}

/-! ## The token -/

/-- Digits, at least one. -/
structure IsDigits (digits : List Char) : Prop where
  ne_nil : digits ≠ []
  digits : ∀ c ∈ digits, c.isDigit = true

/-- A decimal literal. -/
inductive IsLiteral : List Char → Prop
  | plain {digits : List Char} (h : IsDigits digits) : IsLiteral digits
  | negative {digits : List Char} (h : IsDigits digits) : IsLiteral ('-' :: digits)

/-- The token of a decimal literal. -/
def literalToken (D : ReadNumber) (line : ℕ) (lit : List Char) : Token :=
  { type := .tokInteger, line := line, string := "", i := (atoi lit).getD (D.overflow lit), d := 0 }

/-- A literal begins with a digit, or with a minus in front of a digit. -/
theorem IsLiteral.begins (sep : Char) (h : IsLiteral lit) :
    ∃ cur pos, lit = cur :: pos ∧ ∀ rest, pieceKind cur (pos ++ sep :: rest) = .number := by
  have hkind : ∀ {cur : Char} {pos : List Char},
      cur.isDigit = true ∨ cur = '-' ∧ (peekNext pos).isDigit = true →
        pieceKind cur pos = .number := by
    intro cur pos hstart
    have hnumber : (cur.isDigit || (cur == '-' && (peekNext pos).isDigit)) = true := by
      rw [Bool.or_eq_true, Bool.and_eq_true, beq_iff_eq]
      exact hstart
    have hcur : cur ≠ '/' ∧ isSpace cur = false := by
      rcases hstart with hdigit | ⟨rfl, -⟩
      · have hbounds := (isDigit_bounds hdigit).1
        exact ⟨ne_of_le_toNat hbounds (by decide), isSpace_eq_false hbounds⟩
      · decide
    unfold pieceKind
    rw [if_neg (fun h => hcur.1 h.1), if_neg (fun h => hcur.1 h.1), hcur.2,
      if_neg Bool.false_ne_true, if_pos hnumber]
  cases h with
  | @plain digits h =>
    obtain ⟨d, ds, rfl⟩ := List.exists_cons_of_ne_nil h.ne_nil
    exact ⟨d, ds, rfl, fun rest => hkind (.inl (h.digits d List.mem_cons_self))⟩
  | @negative digits h =>
    obtain ⟨d, ds, rfl⟩ := List.exists_cons_of_ne_nil h.ne_nil
    refine ⟨'-', d :: ds, rfl, fun rest => hkind (.inr ⟨rfl, ?_⟩)⟩
    have hd := h.digits d List.mem_cons_self
    cases ds <;> exact hd

/-- A literal in front of a character that does not go on with it is read whole. -/
theorem IsLiteral.scanNumber (h : IsLiteral lit) (hsep : EndsNumber sep) (hrest : rest ≠ [])
    {cur : Char} {pos : List Char} (hlit : lit = cur :: pos) :
    B0rk.scanNumber [] false cur (pos ++ sep :: rest) =
      some (some ⟨lit, false, none, sep :: rest⟩) := by
  subst hlit
  cases h with
  | plain h =>
    obtain ⟨hcur, hpos⟩ := List.forall_mem_cons.mp h.digits
    exact scanNumber_digits hsep hcur hpos [] hrest
  | negative h =>
    obtain ⟨d, ds, rfl⟩ := List.exists_cons_of_ne_nil h.ne_nil
    obtain ⟨hd, hds⟩ := List.forall_mem_cons.mp h.digits
    exact scanNumber_digits hsep hd hds ['-'] hrest

theorem IsLiteral.lexStep (h : IsLiteral lit) (hsep : EndsNumber sep) (hrest : rest ≠ [])
    {cur : Char} {pos : List Char} (hlit : lit = cur :: pos) :
    TextLexer.lexStep D line cur (pos ++ sep :: rest) =
      some (.go line (sep :: rest) (some (literalToken D line lit))) := by
  obtain ⟨cur', pos', hlit', hkind⟩ := h.begins sep
  obtain ⟨rfl, rfl⟩ := List.cons.inj (hlit'.symm.trans hlit)
  have hzero : cur' ≠ '\x00' := by
    rintro rfl
    cases hkind rest
  rw [lexStep_eq, if_neg hzero, hkind]
  unfold lexNumber
  rw [h.scanNumber hsep hrest hlit]
  rfl

/-- The rounds of a literal. -/
theorem IsLiteral.trail (D : ReadNumber) (line : ℕ) (h : IsLiteral lit) (hsep : EndsNumber sep) (hrest : rest ≠ []) :
    Trail D line (lit ++ sep :: rest) [⟨.number, lit, some (literalToken D line lit)⟩] line
      (sep :: rest) := by
  obtain ⟨cur, pos, rfl, hkind⟩ := h.begins sep
  rw [← hkind rest]
  exact .cons (h.lexStep hsep hrest rfl) rfl .nil

/-- The round of the lexer on octets. -/
theorem IsLiteral.byteStep (h : IsLiteral lit) (hsep : EndsNumber sep) (hrest : rest ≠ []) :
    ByteLexer.lexStep D line (encode (lit ++ sep :: rest)) =
      .ok (.go line (encode (sep :: rest)) (some (literalToken D line lit))) := by
  obtain ⟨cur, pos, rfl, -⟩ := h.begins sep
  have hagrees := lexStep_encode D line cur (pos ++ sep :: rest)
  rw [h.lexStep hsep hrest rfl] at hagrees
  exact hagrees.eq_ok

/-! ## The expression and the instruction -/

/-- What the parser makes of a token, wherever it finds it. -/
def ParsesTo (token : Token) (i : Word) : Prop :=
  ∀ (World : Type) (P : ParserEnv World) (fuel : ℕ) (s : ParserState World),
    P.tokens[s.pos]? = some token →
      parseExpressionValue P (fuel + 1) s =
        some (some (.integer .integer i), { s with pos := s.pos + 1 })

/-- What the assembler makes of an integer, wherever it finds it. -/
def AssemblesTo (i operand : Word) : Prop :=
  ∀ (A : AsmEnv) (scope : Scope) (reference : Option (Asm Unit)) (inReference needResult : Bool)
    (code : List Instruction),
    assembleExpression A (.integer .integer i) scope reference inReference needResult code =
      some (some (), code ++ [⟨.pushI, [operand]⟩])

/-- The text begins with an integer: the value in the expression, and the operand. -/
def BuildsInteger (D : ReadNumber) (line : ℕ) (text : List Char) (i operand : Word) : Prop :=
  ∃ line' pos token, ByteLexer.lexStep D line (encode text) = .ok (.go line' pos (some token)) ∧
    ParsesTo token i ∧ AssemblesTo i operand

/-- The value is kept if it fits the integers of the language, and refused if not. -/
structure KeepsValue (D : ReadNumber) (line : ℕ) (lit rest : List Char) : Prop where
  fits : -2 ^ 63 ≤ signedDecimal lit → signedDecimal lit < 2 ^ 63 →
    ∃ i operand, BuildsInteger D line (lit ++ rest) i operand ∧ i.toInt = signedDecimal lit ∧
      operand.toInt = signedDecimal lit
  refused : ¬(-2 ^ 63 ≤ signedDecimal lit ∧ signedDecimal lit < 2 ^ 63) →
    ∀ i operand, ¬BuildsInteger D line (lit ++ rest) i operand

theorem parsesTo_literal (D : ReadNumber) (line : ℕ) (lit : List Char) :
    ParsesTo (literalToken D line lit) ((literalToken D line lit).i.signExtend 64) := by
  intro World P fuel s htoken
  have hnext : nextToken P s = some (some (literalToken D line lit), { s with pos := s.pos + 1 }) := by
    rw [nextToken, htoken]
  unfold parseExpressionValue
  rw [Attempt.bind_run, hnext]
  rfl

theorem assemblesTo (i : Word) : AssemblesTo i i := by
  intro A scope reference inReference needResult code
  unfold assembleExpression
  rfl

/-- A token has one expression. -/
theorem ParsesTo.unique {token : Token} {i i' : Word} (h : ParsesTo token i)
    (h' : ParsesTo token i') : i = i' := by
  have hi := h Unit (plainParser [token]) 0 ⟨0, ()⟩ rfl
  rw [h' Unit (plainParser [token]) 0 ⟨0, ()⟩ rfl] at hi
  cases hi
  rfl

theorem buildsInteger_literal (h : IsLiteral lit) (hsep : EndsNumber sep) (hrest : rest ≠ []) :
    BuildsInteger D line (lit ++ sep :: rest) ((literalToken D line lit).i.signExtend 64)
      ((literalToken D line lit).i.signExtend 64) :=
  ⟨line, _, _, h.byteStep hsep hrest, parsesTo_literal D line lit, assemblesTo _⟩

theorem BuildsInteger.eq_literal {i operand : Word} (h : IsLiteral lit) (hsep : EndsNumber sep)
    (hrest : rest ≠ []) (hbuilds : BuildsInteger D line (lit ++ sep :: rest) i operand) :
    i = (literalToken D line lit).i.signExtend 64 := by
  obtain ⟨line', pos, token, hstep, hparses, -⟩ := hbuilds
  rw [h.byteStep hsep hrest] at hstep
  obtain ⟨-, -, htoken⟩ := ByteLexer.LexStep.go.inj (Except.ok.inj hstep)
  obtain rfl := Option.some.inj htoken
  exact hparses.unique (parsesTo_literal D line lit)

theorem toInt_literal (D : ReadNumber) (line : ℕ) (lit : List Char) :
    ((literalToken D line lit).i.signExtend 64).toInt = (literalToken D line lit).i.toInt :=
  BitVec.toInt_signExtend_of_le (by decide)

/-- A value that is kept has been an `int`. -/
theorem KeepsValue.bounds (h : IsLiteral lit) (hsep : EndsNumber sep) (hrest : rest ≠ [])
    (hkeeps : KeepsValue D line lit (sep :: rest)) :
    -2 ^ 31 ≤ signedDecimal lit ∧ signedDecimal lit < 2 ^ 31 := by
  by_cases hfits : -2 ^ 63 ≤ signedDecimal lit ∧ signedDecimal lit < 2 ^ 63
  · obtain ⟨i, operand, hbuilds, hvalue, -⟩ := hkeeps.fits hfits.1 hfits.2
    rw [hbuilds.eq_literal h hsep hrest, toInt_literal] at hvalue
    have hle := BitVec.le_toInt (literalToken D line lit).i
    have hlt := BitVec.toInt_lt (x := (literalToken D line lit).i)
    rw [hvalue] at hle hlt
    exact ⟨hle, hlt⟩
  · exact absurd (buildsInteger_literal h hsep hrest) (hkeeps.refused hfits _ _)

/-- The value of a decimal literal is kept, or refused where it does not fit, if and only if it is one
    of an `int`. -/
theorem keepsValue_iff (D : ReadNumber) (line : ℕ) (h : IsLiteral lit) (hsep : EndsNumber sep)
    (hrest : rest ≠ []) : KeepsValue D line lit (sep :: rest) ↔
      -2 ^ 31 ≤ signedDecimal lit ∧ signedDecimal lit < 2 ^ 31 := by
  refine ⟨fun hkeeps => hkeeps.bounds h hsep hrest, ?_⟩
  rintro ⟨hle, hlt⟩
  have hi : (literalToken D line lit).i = BitVec.ofInt 32 (signedDecimal lit) := by
    have hatoi : atoi lit = some (BitVec.ofInt 32 (signedDecimal lit)) := if_pos ⟨hle, hlt⟩
    rw [literalToken, hatoi]
    rfl
  have hvalue : ((literalToken D line lit).i.signExtend 64).toInt = signedDecimal lit := by
    rw [toInt_literal, hi]
    exact BitVec.toInt_ofInt_eq_self (by decide) hle hlt
  exact ⟨fun _ _ => ⟨_, _, buildsInteger_literal h hsep hrest, hvalue, hvalue⟩,
    fun hnot => absurd ⟨by omega, by omega⟩ hnot⟩

theorem keepsValue_negative : KeepsValue plainReader 1 ['-', '7'] [';', ' '] := by
  have hlit : IsLiteral ['-', '7'] := .negative ⟨by decide, List.all_eq_true.mp (by decide)⟩
  have hvalue : signedDecimal ['-', '7'] = -7 := rfl
  refine (keepsValue_iff plainReader 1 hlit ⟨by decide, by decide, by decide⟩ (by decide)).mpr ?_
  rw [hvalue]
  omega

/-- 2147483648 fits the integers of the language, and it is not kept. -/
theorem keepsValue_large : IsLiteral "2147483648".toList ∧
    signedDecimal "2147483648".toList = 2147483648 ∧
      ¬KeepsValue plainReader 1 "2147483648".toList [';', ' '] := by
  have hlit : IsLiteral "2147483648".toList := .plain ⟨by decide, List.all_eq_true.mp (by decide)⟩
  have hvalue : signedDecimal "2147483648".toList = 2147483648 := by rfl
  refine ⟨hlit, hvalue, fun hkeeps => ?_⟩
  have hlt := (hkeeps.bounds hlit ⟨by decide, by decide, by decide⟩ (by decide)).2
  rw [hvalue] at hlt
  omega

end B0rk.TextLexer
