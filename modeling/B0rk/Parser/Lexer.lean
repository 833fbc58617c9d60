import B0rk.Parser.Token
import Mathlib.Data.Int.Notation

set_option autoImplicit false

/-! # The lexer

`lexer.cpp`. `utf8::next`, `utf8::peek_next` and `utf8::prior` are taken to decode UTF-8, so that the
buffer is the list of its code points and a position in it is what is still to be read. The character
classes are those of the C locale, as `Char.isAlpha` and `Char.isDigit` are. `none` is an exception of
the decoder, at the end of the buffer, or undefined behaviour. -/

namespace B0rk

/-- `struct SimpleToken`. -/
structure SimpleToken where
  str : String
  length : ℕ
  token : TokenType
  deriving DecidableEq, Repr

/-- `tokenTable`. -/
def tokenTable : List SimpleToken :=
  [⟨".", 1, .tokDot⟩,
    ⟨",", 1, .tokComma⟩,
    ⟨";", 1, .tokSemicolon⟩,
    ⟨":", 1, .tokColon⟩,
    ⟨"==", 2, .tokEquals⟩,
    ⟨"!=", 2, .tokNotEqual⟩,
    ⟨"=", 1, .tokAssign⟩,
    ⟨"<=", 2, .tokLessThanEqual⟩,
    ⟨"<", 1, .tokLessThan⟩,
    ⟨">=", 2, .tokGreaterThanEqual⟩,
    ⟨">", 1, .tokGreaterThan⟩,
    ⟨"+=", 2, .tokAddAssign⟩,
    ⟨"-=", 2, .tokSubAssign⟩,
    ⟨"++", 2, .tokIncrement⟩,
    ⟨"--", 2, .tokDecrement⟩,
    ⟨"+", 1, .tokPlus⟩,
    ⟨"-", 1, .tokMinus⟩,
    ⟨"*", 1, .tokAsterisk⟩,
    ⟨"/", 1, .tokSlashForward⟩,
    ⟨"!", 1, .tokNot⟩,
    ⟨"&&", 2, .tokLogicalAnd⟩,
    ⟨"\x7b", 1, .tokBraceLeft⟩,
    ⟨"\x7d", 1, .tokBraceRight⟩,
    ⟨"(", 1, .tokBracketLeft⟩,
    ⟨")", 1, .tokBracketRight⟩,
    ⟨"[", 1, .tokSquareBracketLeft⟩,
    ⟨"]", 1, .tokSquareBracketRight⟩,
    ⟨"\"", 1, .tokDoubleQuote⟩,
    ⟨"'", 1, .tokQuote⟩,
    ⟨"var", 3, .tokVar⟩,
    ⟨"import", 6, .tokImport⟩,
    ⟨"class", 5, .tokClass⟩,
    ⟨"extends", 7, .tokExtends⟩,
    ⟨"function", 8, .tokFunction⟩,
    ⟨"static", 6, .tokStatic⟩,
    ⟨"new", 3, .tokNew⟩,
    ⟨"if", 2, .tokIf⟩,
    ⟨"else", 4, .tokElse⟩,
    ⟨"for", 3, .tokFor⟩,
    ⟨"while", 5, .tokWhile⟩,
    ⟨"return", 6, .tokReturn⟩,
    ⟨"true", 4, .tokLiteral⟩,
    ⟨"false", 5, .tokLiteral⟩,
    ⟨"try", 3, .tokTry⟩,
    ⟨"throw", 5, .tokThrow⟩,
    ⟨"catch", 5, .tokCatch⟩]

/-! ## Character classes -/

/-- `isspace` and `iswspace`. -/
def isSpace (c : Char) : Bool :=
  c == ' ' || c == '\t' || c == '\n' || c == '\x0b' || c == '\x0c' || c == '\r'

/-- `enum CharType`, as far as `chartype` gives it. -/
inductive CharType
  | alpha
  | digit
  | whitespace
  | other
  deriving DecidableEq, Repr

/-- `Lexer::chartype`. It is given single bytes; those of a code point outside ASCII are `OTHER`. -/
def chartype (c : Char) : CharType :=
  if c.isAlpha then .alpha
  else if c.isDigit then .digit
  else if isSpace c then .whitespace
  else .other

def isIdentifierChar (c : Char) : Bool :=
  c.isAlphanum || c == '_' || decide (c.toNat &&& 0x2600 = 0x2600)

/-- Whether `checkWord` takes a character for part of a word. -/
def isWordChar (c : Char) : Bool := decide (chartype c = .alpha ∨ chartype c = .digit)

/-- `Lexer::checkWord`: what is behind the token. The buffer is followed by zeros. -/
def checkWord (pos : List Char) (token : SimpleToken) : Option (List Char) :=
  if token.str.toList.isPrefixOf pos then
    let rest := pos.drop token.length
    if isWordChar (pos.headD '\x00') && isWordChar (rest.headD '\x00') then none else some rest
  else none

/-! ## Reading -/

/-- The lookahead, which is 0 unless there are at least two bytes. -/
def peekNext : List Char → Char
  | [] => '\x00'
  | [c] => if c.utf8Size = 1 then '\x00' else c
  | c :: _ :: _ => c

/-- `utf8::prior(pos, end)` behind `cur`; it throws at the end of the buffer. -/
def prior (cur : Char) (pos : List Char) : Option (List Char) :=
  if pos.isEmpty then none else some (cur :: pos)

/-- The rest of a `//` comment. -/
def skipLine : List Char → Option (List Char)
  | [] => none
  | c :: rest => if c = '\n' ∨ c = '\r' ∨ c = '\x00' then some (c :: rest) else skipLine rest

/-- The rest of a `/*` comment, with the number of the line. -/
def skipComment (line : ℕ) : List Char → Option (ℕ × List Char)
  | [] => none
  | [c] => if c = '\x00' then some (line, [c]) else none
  | c :: d :: rest =>
      if c = '*' then
        if d = '/' then some (line, rest)
        else skipComment (if d = '\n' then line + 1 else line) rest
      else if c = '\x00' then some (line, c :: d :: rest)
      else skipComment (if c = '\n' then line + 1 else line) (d :: rest)

/-- The digits of an exponent. -/
def scanExponent (exponent : List Char) : List Char → Option (List Char × List Char)
  | [] => none
  | cur :: rest =>
      if cur.isDigit then scanExponent (exponent ++ [cur]) rest
      else (prior cur rest).map (fun pos => (exponent, pos))

/-- A number, before it is converted; `exponent` is there if it is in e notation. -/
structure ScannedNumber where
  str : List Char
  dot : Bool
  exponent : Option (List Char)
  rest : List Char

/-- The loop that reads a number, with what it has read of it. The inner `none` is a reported error. -/
def scanNumber (str : List Char) (dot : Bool) (cur : Char) (pos : List Char) :
    Option (Option ScannedNumber) :=
  let stop := (prior cur pos).map (fun pos => some (ScannedNumber.mk str dot none pos))
  if cur = '-' then
    if str ≠ [] then stop
    else
      match pos with
      | [] => none
      | cur :: pos => scanNumber (str ++ ['-']) dot cur pos
  else if cur = '.' ∧ dot = false then
    match pos with
    | [] => none
    | cur :: pos => scanNumber (str ++ ['.']) true cur pos
  else if cur.isDigit then
    match pos with
    | [] => none
    | next :: pos => scanNumber (str ++ [cur]) dot next pos
  else if cur = 'e' ∨ cur = 'E' then
    match pos with
    | [] => none
    | sign :: pos =>
        -- "Invalid number, expected - or +"
        if sign ≠ '-' ∧ sign ≠ '+' then some none
        else (scanExponent [sign] pos).map (fun r => some ⟨str, dot, some r.1, r.2⟩)
  else stop

/-- The number that a sign and digits stand for. -/
def signedDecimal (str : List Char) : ℤ :=
  match str with
  | '-' :: digits => -(Nat.ofDigitChars 10 digits 0 : ℤ)
  | digits => Nat.ofDigitChars 10 digits 0

/-- `atoi`, which is undefined outside `int`. -/
def atoi (str : List Char) : Option (BitVec 32) :=
  let value := signedDecimal str
  if -2 ^ 31 ≤ value ∧ value < 2 ^ 31 then some (BitVec.ofInt 32 value) else none

/-- Reading doubles, as their bits: `atof`, and `d *= pow(10, exponent)`. -/
structure ReadDouble where
  atof : List Char → Word
  scale : Word → List Char → Word

/-- The token of a number. -/
def numberToken (D : ReadDouble) (line : ℕ) (number : ScannedNumber) : Option Token :=
  match number.exponent with
  | some exponent =>
      some { type := .tokDouble, line := line, string := "", i := 0
             d := D.scale (D.atof number.str) exponent }
  | none =>
      if number.dot then
        some { type := .tokDouble, line := line, string := "", i := 0, d := D.atof number.str }
      else do
        let i ← atoi number.str
        some { type := .tokInteger, line := line, string := "", i := i, d := 0 }

/-- The rest of a string literal: its text and what is behind it. The inner `none` is a reported
    error. -/
def readString (str : List Char) : List Char → Option (Option (List Char × List Char))
  | [] => some (some (str, []))
  | cur :: pos =>
      if cur = '\\' then
        match pos with
        | [] => none
        | cur :: pos =>
            -- "Unhandled backslash character"
            if cur = 'n' then readString (str ++ ['\n']) pos else some none
      else if cur = '"' then some (some (str, pos))
      else readString (str ++ [cur]) pos

/-! ## The main loop -/

/-- What one round of the loop comes to. -/
inductive LexStep
  | fail
  | stop
  | go (line : ℕ) (pos : List Char) (token : Option Token)

/-- A token of the table, or else an identifier. -/
def lexWord (line : ℕ) (cur : Char) (pos : List Char) : LexStep :=
  match tokenTable.findSome? (fun token => (checkWord (cur :: pos) token).map (token, ·)) with
  | some (token, pos) =>
      .go line pos (some { type := token.token, line := line, string := token.str, i := 0, d := 0 })
  | none =>
      if isIdentifierChar cur && !cur.isDigit then
        .go line (pos.dropWhile isIdentifierChar) (some
          { type := .tokIdentifier, line := line
            string := String.ofList (cur :: pos.takeWhile isIdentifierChar), i := 0, d := 0 })
      -- "Unknown token"
      else .fail

/-- A number. -/
def lexNumber (D : ReadDouble) (line : ℕ) (cur : Char) (pos : List Char) : Option LexStep := do
  match ← scanNumber [] false cur pos with
  | none => some .fail
  | some number =>
      let token ← numberToken D line number
      some (.go line number.rest (some token))

/-- A string literal, behind the double quote. -/
def lexString (line : ℕ) (pos : List Char) : Option LexStep := do
  match ← readString [] pos with
  | none => some .fail
  | some (str, pos) =>
      some (.go line pos (some
        { type := .tokString, line := line, string := String.ofList str, i := 0, d := 0 }))

/-- One round of the loop, behind its first character. -/
def lexStep (D : ReadDouble) (line : ℕ) (cur : Char) (pos : List Char) : Option LexStep :=
  if cur = '\x00' then some .stop
  else if cur = '/' ∧ peekNext pos = '/' then
    (skipLine pos.tail).map (fun pos => .go (line + 1) pos none)
  else if cur = '/' ∧ peekNext pos = '*' then
    (skipComment line pos.tail).map (fun r => .go r.1 r.2 none)
  else if isSpace cur then some (.go (if cur = '\n' then line + 1 else line) pos none)
  else if cur.isDigit || (cur == '-' && (peekNext pos).isDigit) then lexNumber D line cur pos
  else if cur = '"' then lexString line pos
  else some (lexWord line cur pos)

/-- The loop of `Lexer::lexer`; each round reads at least one character. -/
def lexLoop (D : ReadDouble) : ℕ → ℕ → List Char → List Token → Option (Bool × List Token)
  | 0, _, _, _ => none
  | _ + 1, _, [], tokens => some (true, tokens)
  | fuel + 1, line, cur :: pos, tokens =>
      match lexStep D line cur pos with
      | none => none
      | some .fail => some (false, tokens)
      | some .stop => some (true, tokens)
      | some (.go line pos token) => lexLoop D fuel line pos (tokens ++ token.toList)

/-- `Lexer::lexer`, with the tokens that it leaves. -/
def lexer (D : ReadDouble) (buffer : List Char) : Option (Bool × List Token) :=
  if buffer.isEmpty then some (false, []) else lexLoop D (buffer.length + 1) 1 buffer []

end B0rk
