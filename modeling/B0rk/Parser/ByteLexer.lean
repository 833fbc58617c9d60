import B0rk.Parser.Lexer
import B0rk.Parser.Utf8

set_option autoImplicit false

/-! # The lexer on octets

`Lexer::lexer` as it runs: over the octets of the buffer, with what `utf8::next`, `utf8::peek_next` and
`utf8::prior` throw. `pos` is what is still to be read, and `end` the end of that list. -/

namespace B0rk.ByteLexer

/-- `chartype` of an octet; those above ASCII are `OTHER`. -/
def octetType (oc : UInt8) : CharType := chartype (Char.ofNat oc.toNat)

def isWordOctet (oc : UInt8) : Bool := decide (octetType oc = .alpha ∨ octetType oc = .digit)

/-- The octets of the text of a token, which is ASCII. -/
def octets (token : SimpleToken) : List UInt8 :=
  token.str.toList.map Char.toUInt8

/-- `Lexer::checkWord`: what is behind the token. The buffer is followed by zeros. -/
def checkWord (pos : List UInt8) (token : SimpleToken) : Option (List UInt8) :=
  if (octets token).isPrefixOf pos then
    let rest := pos.drop token.length
    if isWordOctet (pos.headD 0) && isWordOctet (rest.headD 0) then none else some rest
  else none

/-! ## Reading -/

/-- The lookahead, which is 0 unless there are at least two octets. -/
def lookahead (pos : List UInt8) : Except Utf8Exception Char :=
  if 2 ≤ pos.length then Utf8.peekNext pos else .ok '\x00'

/-- The rest of a `//` comment. -/
def skipLine (pos : List UInt8) : Except Utf8Exception (List UInt8) :=
  match Utf8.next pos with
  | .error e => .error e
  | .ok (next, pos') =>
      if next = '\n' ∨ next = '\r' ∨ next = '\x00' then .ok pos else skipLine pos'.1
termination_by pos.length
decreasing_by exact pos'.2

/-- The rest of a `/*` comment, with the number of the line. -/
def skipComment (line : ℕ) (pos : List UInt8) : Except Utf8Exception (ℕ × List UInt8) :=
  match Utf8.next pos with
  | .error e => .error e
  | .ok (next, pos') =>
      if next = '*' then
        match Utf8.next pos'.1 with
        | .error e => .error e
        | .ok (next, pos'') =>
            if next = '/' then .ok (line, pos''.1)
            else skipComment (if next = '\n' then line + 1 else line) pos''.1
      else if next = '\x00' then .ok (line, pos)
      else skipComment (if next = '\n' then line + 1 else line) pos'.1
termination_by pos.length
decreasing_by
  · exact pos''.2.trans pos'.2
  · exact pos'.2

/-- The digits of an exponent. -/
def scanExponent (exponent : List Char) (pos : List UInt8) :
    Except Utf8Exception (List Char × List UInt8) :=
  match Utf8.next pos with
  | .error e => .error e
  | .ok (cur, pos') =>
      if cur.isDigit then scanExponent (exponent ++ [cur]) pos'.1
      else (Utf8.prior pos pos'.1).map (exponent, ·)
termination_by pos.length
decreasing_by exact pos'.2

/-- A number, before it is converted; `exponent` is there if it is in e notation. -/
structure ScannedNumber where
  str : List Char
  dot : Bool
  exponent : Option (List Char)
  rest : List UInt8

/-- The loop that reads a number: `cur` has been read from `before`. `none` is a reported error. -/
def scanNumber (str : List Char) (dot : Bool) (cur : Char) (before pos : List UInt8) :
    Except Utf8Exception (Option ScannedNumber) :=
  let stop := (Utf8.prior before pos).map (fun rest => some ⟨str, dot, none, rest⟩)
  if cur = '-' then
    if str ≠ [] then stop
    else
      match Utf8.next pos with
      | .error e => .error e
      | .ok (cur, pos') => scanNumber (str ++ ['-']) dot cur pos pos'.1
  else if cur = '.' ∧ dot = false then
    match Utf8.next pos with
    | .error e => .error e
    | .ok (cur, pos') => scanNumber (str ++ ['.']) true cur pos pos'.1
  else if cur.isDigit then
    match Utf8.next pos with
    | .error e => .error e
    | .ok (next, pos') => scanNumber (str ++ [cur]) dot next pos pos'.1
  else if cur = 'e' ∨ cur = 'E' then
    match Utf8.next pos with
    | .error e => .error e
    | .ok (sign, pos') =>
        -- "Invalid number, expected - or +"
        if sign ≠ '-' ∧ sign ≠ '+' then .ok none
        else (scanExponent [sign] pos'.1).map (fun r => some ⟨str, dot, some r.1, r.2⟩)
  else stop
termination_by pos.length
decreasing_by all_goals exact pos'.2

/-- Reading numbers: besides doubles, what `atoi` gives outside `int`. -/
structure ReadNumber extends ReadDouble where
  overflow : List Char → BitVec 32

/-- The token of a number. -/
def numberToken (D : ReadNumber) (line : ℕ) (number : ScannedNumber) : Token :=
  match number.exponent with
  | some exponent =>
      { type := .tokDouble, line := line, string := "", i := 0
        d := D.scale (D.atof number.str) exponent }
  | none =>
      if number.dot then
        { type := .tokDouble, line := line, string := "", i := 0, d := D.atof number.str }
      else
        { type := .tokInteger, line := line, string := ""
          i := (atoi number.str).getD (D.overflow number.str), d := 0 }

/-- The rest of a string literal: its text and what is behind it. `none` is a reported error. -/
def readString (str : List Char) (pos : List UInt8) :
    Except Utf8Exception (Option (List Char × List UInt8)) :=
  if pos = [] then .ok (some (str, []))
  else
    match Utf8.next pos with
    | .error e => .error e
    | .ok (cur, pos') =>
        if cur = '\\' then
          match Utf8.next pos'.1 with
          | .error e => .error e
          | .ok (cur, pos'') =>
              -- "Unhandled backslash character"
              if cur = 'n' then readString (str ++ ['\n']) pos''.1 else .ok none
        else if cur = '"' then .ok (some (str, pos'.1))
        else readString (str ++ [cur]) pos'.1
termination_by pos.length
decreasing_by
  · exact pos''.2.trans pos'.2
  · exact pos'.2

/-- The rest of an identifier, and what is behind it. -/
def readIdentifier (str : List Char) (pos : List UInt8) :
    Except Utf8Exception (List Char × List UInt8) :=
  if pos = [] then .ok (str, [])
  else
    match Utf8.next pos with
    | .error e => .error e
    | .ok (cur, pos') =>
        if isIdentifierChar cur then readIdentifier (str ++ [cur]) pos'.1 else .ok (str, pos)
termination_by pos.length
decreasing_by exact pos'.2

/-! ## The main loop -/

/-- What one round of the loop comes to. -/
inductive LexStep
  | fail
  | stop
  | go (line : ℕ) (pos : List UInt8) (token : Option Token)

/-- The first token of the table at `pos`. -/
def matchToken (pos : List UInt8) : Option (SimpleToken × List UInt8) :=
  tokenTable.findSome? (fun token => (checkWord pos token).map (token, ·))

/-- A token of the table, or else an identifier. `cur` has been read from `before`. -/
def lexWord (line : ℕ) (cur : Char) (before pos : List UInt8) : Except Utf8Exception LexStep :=
  match matchToken before with
  | some (token, pos) =>
      .ok (.go line pos (some
        { type := token.token, line := line, string := token.str, i := 0, d := 0 }))
  | none =>
      if isIdentifierChar cur && !cur.isDigit then
        match readIdentifier [cur] pos with
        | .error e => .error e
        | .ok (str, pos) =>
            .ok (.go line pos (some
              { type := .tokIdentifier, line := line, string := String.ofList str, i := 0, d := 0 }))
      -- "Unknown token"
      else .ok .fail

/-- A number. -/
def lexNumber (D : ReadNumber) (line : ℕ) (cur : Char) (before pos : List UInt8) :
    Except Utf8Exception LexStep :=
  match scanNumber [] false cur before pos with
  | .error e => .error e
  | .ok none => .ok .fail
  | .ok (some number) => .ok (.go line number.rest (some (numberToken D line number)))

/-- A string literal, behind the double quote. -/
def lexString (line : ℕ) (pos : List UInt8) : Except Utf8Exception LexStep :=
  match readString [] pos with
  | .error e => .error e
  | .ok none => .ok .fail
  | .ok (some (str, pos)) =>
      .ok (.go line pos (some
        { type := .tokString, line := line, string := String.ofList str, i := 0, d := 0 }))

/-- A comment, from its second character on. -/
def lexComment (line : ℕ) (next : Char) (pos : List UInt8) : Except Utf8Exception LexStep :=
  match Utf8.next pos with
  | .error e => .error e
  | .ok (_, pos') =>
      if next = '/' then (skipLine pos'.1).map (fun pos => .go (line + 1) pos none)
      else (skipComment line pos'.1).map (fun r => .go r.1 r.2 none)

/-- One round of the loop. -/
def lexStep (D : ReadNumber) (line : ℕ) (before : List UInt8) : Except Utf8Exception LexStep :=
  match Utf8.next before with
  | .error e => .error e
  | .ok (cur, pos) =>
      if cur = '\x00' then .ok .stop
      else
        match lookahead pos.1 with
        | .error e => .error e
        | .ok next =>
            if cur = '/' ∧ (next = '/' ∨ next = '*') then lexComment line next pos.1
            else if isSpace cur then .ok (.go (if cur = '\n' then line + 1 else line) pos.1 none)
            else if cur.isDigit || (cur == '-' && next.isDigit) then
              lexNumber D line cur before pos.1
            else if cur = '"' then lexString line pos.1
            else lexWord line cur before pos.1

/-- The loop of `Lexer::lexer`. Without fuel it has not returned. -/
def lexLoop (D : ReadNumber) :
    ℕ → ℕ → List UInt8 → List Token → Option (Except Utf8Exception (Bool × List Token))
  | 0, _, _, _ => none
  | fuel + 1, line, pos, tokens =>
      if pos = [] then some (.ok (true, tokens))
      else
        match lexStep D line pos with
        | .error e => some (.error e)
        | .ok .fail => some (.ok (false, tokens))
        | .ok .stop => some (.ok (true, tokens))
        | .ok (.go line pos token) => lexLoop D fuel line pos (tokens ++ token.toList)

/-- `Lexer::lexer`, with the tokens that it leaves. Each round reads at least one octet. -/
def lexer (D : ReadNumber) (buffer : List UInt8) :
    Option (Except Utf8Exception (Bool × List Token)) :=
  if buffer = [] then some (.ok (false, [])) else lexLoop D (buffer.length + 1) 1 buffer []

end B0rk.ByteLexer
