import Mathlib.Algebra.Ring.Int.Defs
import Mathlib.Data.BitVec
import Mathlib.Tactic.Common

set_option autoImplicit false

/-! # Tagged values

`value.h`: a `Value` is a type tag and a 64-bit union that is read as an integer, a double or a
pointer. The union is kept as its bits, so that reading a value under another type than the one it
was written with is what it is in the source: the same bits. -/

namespace B0rk

/-- A 64-bit machine word: an `int64_t`, the bits of a `double`, or a pointer. -/
abbrev Word := BitVec 64

/-- `enum ValueType`. -/
inductive ValueType
  | unknown
  | void
  | object
  | integer
  | double
  | pointer
  | frame
  deriving DecidableEq, Repr

/-- `struct Value`. -/
structure Value where
  type : ValueType
  bits : Word
  deriving DecidableEq, Repr

namespace Value

/-- What `memset(.., 0, ..)` leaves: `VALUE_UNKNOWN` is the first enumerator. -/
def zero : Value := ⟨.unknown, 0⟩

def integer (i : Word) : Value := ⟨.integer, i⟩

def double (d : Word) : Value := ⟨.double, d⟩

def object (p : Word) : Value := ⟨.object, p⟩

end Value

end B0rk
