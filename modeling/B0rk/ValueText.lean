import B0rk.Value

set_option autoImplicit false

/-! # The text of an integer

`int642wstr` of value.cpp, which `Value::toString` calls for an integer with a buffer of 128 characters
and the base 10. The digits come least significant one first, so they go through a buffer of 80. -/

namespace B0rk.ValueText

/-- `-v`. The language leaves open what the negation of the least number is. -/
def negate (overflow v : Word) : Word := if v = BitVec.intMin 64 then overflow else -v

/-- The character of a digit `v1`. -/
def wcharOfDigit (v1 : Word) : Char :=
  if v1.slt 10 then Char.ofNat (v1 + 48).toNat else Char.ofNat (v1 - 10 + 97).toNat

/-- The loop that fills `s1`. -/
def fillScratch (base : Word) : ℕ → Word → List Char → Option (List Char)
  | 0, _, _ => none
  | fuel + 1, v, s1 =>
      if (0 : Word).slt v then
        fillScratch base fuel (v.sdiv base) (s1 ++ [wcharOfDigit (v.srem base)])
      else some s1

/-- The loop that copies `s1` to `s`, from its end. -/
def copyScratch (s1 : List Char) : ℕ → List Char → List Char
  | 0, s => s
  | i + 1, s => copyScratch s1 i (s ++ s1[i]?.toList)

/-- `int642wstr`: the characters of `s1`, and those of `s` in front of the `'\0'`. -/
def int642wstr (overflow : Word) (fuel : ℕ) (v : Word) (base : ℕ) :
    Option (List Char × List Char) :=
  if v = 0 then some ([], ['0'])
  else do
    let s := if v.slt 0 then ['-'] else []
    let s1 ← fillScratch (BitVec.ofNat 64 base) fuel (if v.slt 0 then negate overflow v else v) []
    some (s1, copyScratch s1 s1.length s)

end B0rk.ValueText
