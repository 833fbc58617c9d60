import Mathlib.Data.Nat.Digits.Lemmas

set_option autoImplicit false

/-! # Numerals

The text of a number in a base up to 36, most significant digit first, and what reading it back gives.
`numeral_digits` connects it with the digits of the number, least significant one first. -/

namespace Numeral

variable {base n : ℕ}

/-- The character of a digit. -/
def digitChar (d : ℕ) : Char := if d < 10 then Char.ofNat (d + 48) else Char.ofNat (d - 10 + 97)

/-- The digit of a character. -/
def charDigit (c : Char) : ℕ := if c.toNat < 58 then c.toNat - 48 else c.toNat - 97 + 10

theorem charDigit_digitChar : ∀ {d : ℕ}, d < 36 → charDigit (digitChar d) = d := by decide

theorem digitChar_ne_zero : ∀ {d : ℕ}, d < 36 → d ≠ 0 → digitChar d ≠ '0' := by decide

theorem digitChar_ne_minus : ∀ {d : ℕ}, d < 36 → digitChar d ≠ '-' := by decide

/-- Reading a text of digits. -/
def readNumber (base : ℕ) (text : List Char) : ℕ :=
  text.foldl (fun n c => n * base + charDigit c) 0

/-- A text of digits of the base, without a leading zero unless it is all of it, that reads as `n`. -/
structure IsNumeral (base n : ℕ) (text : List Char) : Prop where
  ne_nil : text ≠ []
  digits : ∀ c ∈ text, ∃ d < base, c = digitChar d
  no_zero : text ≠ ['0'] → text.head? ≠ some '0'
  value : readNumber base text = n

theorem readNumber_digits (hbase : base ≤ 36) {ds : List ℕ} (hds : ∀ d ∈ ds, d < base) :
    readNumber base (ds.map digitChar).reverse = Nat.ofDigits base ds := by
  rw [readNumber, List.foldl_reverse]
  induction ds with
  | nil => rfl
  | cons d ds ih =>
    have hd : d < 36 := Nat.lt_of_lt_of_le (hds d (List.mem_cons_self ..)) hbase
    rw [List.map_cons, List.foldr_cons, ih (fun d' hd' => hds d' (List.mem_cons_of_mem _ hd')),
      charDigit_digitChar hd, Nat.ofDigits_cons, Nat.mul_comm, Nat.add_comm]

theorem numeral_digits (hbase : 2 ≤ base) (hbase' : base ≤ 36) (hn : n ≠ 0) :
    IsNumeral base n ((Nat.digits base n).map digitChar).reverse := by
  have hlt : ∀ d ∈ Nat.digits base n, d < base := fun d hd => Nat.digits_lt_base hbase hd
  have hne : Nat.digits base n ≠ [] := Nat.digits_ne_nil_iff_ne_zero.mpr hn
  refine ⟨by simpa using hne, fun c hc => ?_, fun _ hhead => ?_, ?_⟩
  · obtain ⟨d, hd, rfl⟩ := List.mem_map.mp (List.mem_reverse.mp hc)
    exact ⟨d, hlt d hd, rfl⟩
  · rw [List.head?_reverse, List.getLast?_map, List.getLast?_eq_some_getLast hne, Option.map_some,
      Option.some.injEq] at hhead
    exact digitChar_ne_zero (Nat.lt_of_lt_of_le (hlt _ (List.getLast_mem hne)) hbase')
      (Nat.getLast_digit_ne_zero base hn) hhead
  · rw [readNumber_digits hbase' hlt, Nat.ofDigits_digits]

/-- The decimal digits of the library are the same. -/
theorem toDigits_eq (hn : n ≠ 0) :
    Nat.toDigits 10 n = ((Nat.digits 10 n).map digitChar).reverse := by
  have hchar : ∀ d < 10, d.digitChar = digitChar d := by decide
  induction n using Nat.strongRecOn with
  | _ n ih =>
    rw [Nat.toDigits_eq_if (by decide), Nat.digits_def' (by decide) (Nat.pos_of_ne_zero hn)]
    split
    · next hlt => simp [Nat.mod_eq_of_lt hlt, Nat.div_eq_of_lt hlt, hchar n hlt]
    · next hle =>
      rw [ih (n / 10) (by omega) (by omega), List.map_cons, List.reverse_cons,
        hchar _ (Nat.mod_lt _ (by decide))]

theorem numeral_zero (hbase : 2 ≤ base) : IsNumeral base 0 ['0'] :=
  ⟨by simp, fun c hc => ⟨0, by omega, List.mem_singleton.mp hc⟩, fun h => absurd rfl h, by
    simp [readNumber, charDigit]⟩

theorem IsNumeral.head_ne_minus {text : List Char} (h : IsNumeral base n text) (hbase : base ≤ 36) :
    text.head? ≠ some '-' := by
  intro hhead
  obtain ⟨d, hd, hminus⟩ := h.digits '-' (List.mem_of_head? hhead)
  exact digitChar_ne_minus (Nat.lt_of_lt_of_le hd hbase) hminus.symm

/-! ## A sign in front -/

/-- Reading a numeral with a sign. -/
def readInt (base : ℕ) (text : List Char) : Option ℤ :=
  match text with
  | [] => none
  | c :: rest =>
      if c = '-' then (if rest = [] then none else some (-(readNumber base rest : ℤ)))
      else some (readNumber base text : ℤ)

/-- The numeral of an integer. -/
def IsIntNumeral (base : ℕ) (v : ℤ) (text : List Char) : Prop :=
  ∃ digits, text = (if v < 0 then ['-'] else []) ++ digits ∧ IsNumeral base v.natAbs digits

theorem IsIntNumeral.readInt {v : ℤ} {text : List Char} (h : IsIntNumeral base v text)
    (hbase : base ≤ 36) : readInt base text = some v := by
  obtain ⟨digits, rfl, hdigits⟩ := h
  split
  · next hv =>
    simp only [Numeral.readInt, List.singleton_append, if_true, if_neg hdigits.ne_nil,
      hdigits.value]
    congr 1
    omega
  · next hv =>
    match hd : digits with
    | [] => exact absurd rfl hdigits.ne_nil
    | c :: rest =>
      have hc : c ≠ '-' := by
        intro hc
        exact hdigits.head_ne_minus hbase (by rw [hc]; rfl)
      simp only [Numeral.readInt, List.nil_append, if_neg hc, hdigits.value]
      congr 1
      omega

end Numeral
