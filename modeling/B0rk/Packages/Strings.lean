import B0rk.Executor.Run
import B0rk.Packages.File

set_option autoImplicit false

/-! # Comparing strings

`StringNative::eqOperator` of `packages/system/lang/StringClass.cpp`, with the text of an integer from
`value.cpp`. Characters are code points, as `wchar_t` is. -/

namespace B0rk

variable {W : Type}

/-- `int642wstr` to base 10. `-v` wraps around, so that the least integer has no digits. -/
def int642wstr (v : Word) : List Char :=
  if v = 0 then ['0']
  else
    let sign := if v.slt 0 then ['-'] else []
    let v := if v.slt 0 then -v else v
    if (0 : Word).slt v then sign ++ (Nat.repr v.toNat).toList else sign

/-- What a C function sees of `text.c_str()`. -/
def cStr (text : List Char) : List Char := text.takeWhile (fun c => c.toNat ≠ 0)

/-- `StringNative::eqOperator`. `wcscmp` is given the texts of its arguments up to the terminating
    zeros. -/
def StringNative.eqOperator (E : Env W) (stringClass : Word)
    (wcscmp : List Char → List Char → Word) (obj : Word) (_argCount : ℕ) (args : List Value)
    (ctx : Context W) : Option (Bool × Context W × Value) := do
  let rhs ← args[0]?
  let str ← E.getString ctx.world obj
  let rhsStr ← writeText E stringClass (fun v => (E.toString v).toList) ctx.world rhs
  some (true, ctx, Value.integer (wcscmp (cStr str.toList) (cStr rhsStr)))

/-- An environment with the class `system.lang.String`. Of `wcscmp` the sign is what matters. -/
structure StringEnv (W : Type) extends Env W where
  stringClass : Word
  /-- the function that `String::String` adds as `operator==` -/
  eqOperator : Word
  wcscmp : List Char → List Char → Word
  wcscmp_zero : ∀ s t, wcscmp s t = 0 ↔ s = t
  wcscmp_neg : ∀ s t, (wcscmp s t).slt 0 = true ↔ s < t
  function_eqOperator : toEnv.function eqOperator =
    some (.native (StringNative.eqOperator toEnv stringClass wcscmp))
  chain_string : ∀ world, ∃ chain : ClassChain, toEnv.chain world stringClass = some chain ∧
    chain.findMethod "operator==" = some eqOperator
  toString_integer : ∀ i, (toEnv.toString (Value.integer i)).toList = int642wstr i

end B0rk
