import B0rk.Parser.ByteLexer

set_option autoImplicit false

/-! # The lexer on a text

The lexer on octets, where these are the encoding of a text: over its characters. `none` is an
exception of the decoder, at the end of the text. `atoi` gives something outside `int` too. -/

namespace B0rk.TextLexer

open ByteLexer (ReadNumber)

/-- The token of a number. -/
def numberToken (D : ReadNumber) (line : ℕ) (number : ScannedNumber) : Token :=
  ByteLexer.numberToken D line ⟨number.str, number.dot, number.exponent, []⟩

/-- A number. -/
def lexNumber (D : ReadNumber) (line : ℕ) (cur : Char) (pos : List Char) : Option LexStep := do
  match ← scanNumber [] false cur pos with
  | none => some .fail
  | some number => some (.go line number.rest (some (numberToken D line number)))

/-- One round of the loop, behind its first character. -/
def lexStep (D : ReadNumber) (line : ℕ) (cur : Char) (pos : List Char) : Option LexStep :=
  if cur = '\x00' then some .stop
  else if cur = '/' ∧ peekNext pos = '/' then
    (skipLine pos.tail).map (fun pos => .go (line + 1) pos none)
  else if cur = '/' ∧ peekNext pos = '*' then
    (skipComment line pos.tail).map (fun r => .go r.1 r.2 none)
  else if isSpace cur then some (.go (if cur = '\n' then line + 1 else line) pos none)
  else if cur.isDigit || (cur == '-' && (peekNext pos).isDigit) then lexNumber D line cur pos
  else if cur = '"' then lexString line pos
  else some (lexWord line cur pos)

/-- The loop of `Lexer::lexer`; each round reads at least one character. -/
def lexLoop (D : ReadNumber) : ℕ → ℕ → List Char → List Token → Option (Bool × List Token)
  | 0, _, _, _ => none
  | _ + 1, _, [], tokens => some (true, tokens)
  | fuel + 1, line, cur :: pos, tokens =>
      match lexStep D line cur pos with
      | none => none
      | some .fail => some (false, tokens)
      | some .stop => some (true, tokens)
      | some (.go line pos token) => lexLoop D fuel line pos (tokens ++ token.toList)

/-- `Lexer::lexer`, with the tokens that it leaves. -/
def lexer (D : ReadNumber) (text : List Char) : Option (Bool × List Token) :=
  if text.isEmpty then some (false, []) else lexLoop D (text.length + 1) 1 text []

end B0rk.TextLexer
