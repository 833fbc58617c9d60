import B0rk.ValueText
import B0rk.Packages.Strings
import B0rk.Lib.Digits

set_option autoImplicit false

/-! # Printing integers

The digits of `|v|` are right for every `v` that has a negative in 64 bits. The least number has none:
whatever stands for it in `v` after the sign is written, it is not its absolute value. -/

namespace B0rk.ValueText

open Numeral

variable {base fuel n : ℕ} {v : Word} {s1 : List Char}

theorem copyScratch_length {s : List Char} : copyScratch s1 s1.length s = s ++ s1.reverse := by
  have hcopy : ∀ i ≤ s1.length, ∀ s, copyScratch s1 i s = s ++ (s1.take i).reverse := by
    intro i
    induction i with
    | zero => intro _ s; simp [copyScratch]
    | succ i ih =>
      intro hi s
      rw [copyScratch, ih (by omega), List.take_add_one, List.reverse_append, List.append_assoc]
      congr 1
      rw [List.getElem?_eq_getElem (by omega)]
      rfl
  rw [hcopy _ le_rfl, List.take_length]

/-! ## Numbers that are not negative -/

theorem toNat_lt_of_nonneg (h : 0 ≤ v.toInt) : v.toNat < 2 ^ 63 := by
  rw [BitVec.toInt_eq_toNat_cond] at h
  split at h <;> omega

theorem toInt_of_lt (h : v.toNat < 2 ^ 63) : v.toInt = v.toNat := by
  rw [BitVec.toInt_eq_toNat_cond]
  split <;> omega

theorem msb_of_lt (h : v.toNat < 2 ^ 63) : v.msb = false := by
  rw [BitVec.msb_eq_toInt, toInt_of_lt h]
  simp

theorem toNat_base (hbase : base ≤ 36) : (BitVec.ofNat 64 base).toNat = base := by
  rw [BitVec.toNat_ofNat]
  omega

theorem sdiv_base (h : v.toNat < 2 ^ 63) (hbase : base ≤ 36) :
    (v.sdiv (BitVec.ofNat 64 base)).toNat = v.toNat / base := by
  have hb : (BitVec.ofNat 64 base).msb = false := msb_of_lt (by rw [toNat_base hbase]; omega)
  simp only [BitVec.sdiv_eq, msb_of_lt h, hb, BitVec.udiv_eq, BitVec.toNat_udiv, toNat_base hbase]

theorem srem_base (h : v.toNat < 2 ^ 63) (hbase : base ≤ 36) :
    (v.srem (BitVec.ofNat 64 base)).toNat = v.toNat % base := by
  have hb : (BitVec.ofNat 64 base).msb = false := msb_of_lt (by rw [toNat_base hbase]; omega)
  simp only [BitVec.srem_eq, msb_of_lt h, hb, BitVec.toNat_umod, toNat_base hbase]

theorem wcharOfDigit_eq (h : v.toNat < 36) : wcharOfDigit v = digitChar v.toNat := by
  have hlt : v.slt 10 = decide (v.toNat < 10) := by
    rw [BitVec.slt_eq_decide, toInt_of_lt (by omega)]
    have h10 : (10 : Word).toInt = 10 := by decide
    rw [h10, decide_eq_decide]
    omega
  unfold wcharOfDigit digitChar
  rw [hlt]
  simp only [decide_eq_true_eq]
  split
  · congr 1
    rw [BitVec.toNat_add]
    have h48 : (48 : Word).toNat = 48 := by decide
    omega
  · congr 1
    bv_omega

theorem slt_zero_iff : v.slt 0 = true ↔ v.toInt < 0 := by
  rw [BitVec.slt_eq_decide]
  simp

theorem zero_slt_iff : (0 : Word).slt v = true ↔ 0 < v.toInt := by
  rw [BitVec.slt_eq_decide]
  simp

/-- The loop of the digits: with `n` bits to go, `n` rounds are enough. -/
theorem fillScratch_digits (fuel : ℕ) (s1 : List Char) (hbase : 2 ≤ base) (hbase' : base ≤ 36) (hv : v.toNat < 2 ^ n)
    (hn : n ≤ 63) (hfuel : n < fuel) :
    fillScratch (BitVec.ofNat 64 base) fuel v s1 =
      some (s1 ++ (Nat.digits base v.toNat).map digitChar) := by
  induction n generalizing fuel v s1 with
  | zero =>
    obtain ⟨fuel, rfl⟩ := Nat.exists_eq_add_of_lt hfuel
    have hzero : v.toNat = 0 := by omega
    have hint : v.toInt = 0 := by rw [toInt_of_lt (by omega), hzero]; rfl
    have hdone : (0 : Word).slt v = false := by
      rw [← Bool.not_eq_true, zero_slt_iff, hint]
      omega
    rw [Nat.zero_add, fillScratch, hdone, hzero]
    simp
  | succ n ih =>
    obtain ⟨fuel, rfl⟩ : ∃ fuel', fuel = fuel' + 1 := ⟨fuel - 1, by omega⟩
    have hlt : v.toNat < 2 ^ 63 := Nat.lt_of_lt_of_le hv (Nat.pow_le_pow_right (by omega) hn)
    rw [fillScratch]
    by_cases hzero : v.toNat = 0
    · have hdone : (0 : Word).slt v = false := by
        rw [← Bool.not_eq_true, zero_slt_iff, toInt_of_lt hlt]
        omega
      rw [hdone, hzero]
      simp
    · have hmore : (0 : Word).slt v = true := by
        rw [zero_slt_iff, toInt_of_lt hlt]
        omega
      have hrem : v.toNat % base < base := Nat.mod_lt _ (by omega)
      have hdiv : (v.sdiv (BitVec.ofNat 64 base)).toNat < 2 ^ n := by
        rw [sdiv_base hlt hbase']
        refine Nat.lt_of_le_of_lt (Nat.div_le_div_left hbase (by omega)) ?_
        rw [pow_succ] at hv
        omega
      rw [if_pos hmore, ih _ _ hdiv (by omega) (by omega), sdiv_base hlt hbase',
        wcharOfDigit_eq (by rw [srem_base hlt hbase']; omega), srem_base hlt hbase',
        Nat.digits_def' (by omega) (by omega : 0 < v.toNat), List.append_assoc]
      rfl

/-! ## Printing -/

/-- The number of digits of a number below `2 ^ 63`. -/
theorem length_digits_le (hbase : 2 ≤ base) (hn : n < 2 ^ 63) : (Nat.digits base n).length ≤ 63 := by
  have hpow : 2 ^ 63 ≤ base ^ 63 := Nat.pow_le_pow_left hbase 63
  exact (Nat.digits_length_le_iff (by omega) n).mpr (by omega)

/-- What printing leaves in the two buffers: the numeral of `v`, within the sizes of the buffers. -/
structure Prints (base : ℕ) (v : ℤ) (scratch text : List Char) : Prop where
  numeral : IsIntNumeral base v text
  read : readInt base text = some v
  scratch : scratch.length ≤ 80
  /-- with the `'\0'` -/
  output : text.length + 1 ≤ 128

theorem int642wstr_zero {overflow : Word} : int642wstr overflow fuel 0 base = some ([], ['0']) := rfl

/-- What is written once the sign is: `w` is what `v` has become. -/
theorem int642wstr_of_nonneg {overflow w : Word} (hbase : 2 ≤ base) (hbase' : base ≤ 36)
    (hfuel : 64 ≤ fuel) (hv : v ≠ 0) (hw : w = if v.slt 0 then negate overflow v else v)
    (hlt : w.toNat < 2 ^ 63) :
    int642wstr overflow fuel v base =
      some ((Nat.digits base w.toNat).map digitChar,
        (if v.toInt < 0 then ['-'] else []) ++ ((Nat.digits base w.toNat).map digitChar).reverse) := by
  have hfill := fillScratch_digits fuel [] hbase hbase' hlt le_rfl (by omega)
  rw [int642wstr, if_neg hv, ← hw, hfill]
  simp only [List.nil_append, Option.bind_eq_bind, Option.bind_some, copyScratch_length,
    slt_zero_iff]

/-- To base 10, and with a negation that wraps around: the text that the natives see. -/
theorem int642wstr_text (hfuel : 64 ≤ fuel) :
    ∃ scratch, int642wstr (BitVec.intMin 64) fuel v 10 = some (scratch, B0rk.int642wstr v) := by
  by_cases hzero : v = 0
  · subst hzero
    exact ⟨[], rfl⟩
  · have hnegate : negate (BitVec.intMin 64) v = -v := by
      unfold negate
      split
      · next hmin => rw [hmin]; decide
      · rfl
    obtain ⟨w, hw⟩ : ∃ w, w = if v.slt 0 then negate (BitVec.intMin 64) v else v := ⟨_, rfl⟩
    have hw' : w = if v.slt 0 then -v else v := by rw [hw, hnegate]
    have htext : B0rk.int642wstr v = if (0 : Word).slt w then
        (if v.slt 0 then ['-'] else []) ++ (Nat.repr w.toNat).toList
        else if v.slt 0 then ['-'] else [] := by
      rw [hw', B0rk.int642wstr, if_neg hzero]
    by_cases hlt : w.toNat < 2 ^ 63
    · refine ⟨(Nat.digits 10 w.toNat).map digitChar,
        (int642wstr_of_nonneg (by decide) (by decide) hfuel hzero hw hlt).trans ?_⟩
      have hpos : (0 : Word).slt w = true := by
        have hne : w.toNat ≠ 0 := by
          intro h
          apply hzero
          rw [hw'] at h
          split at h <;> bv_omega
        rw [zero_slt_iff, toInt_of_lt hlt]
        omega
      have hne : w.toNat ≠ 0 := by
        intro h
        rw [zero_slt_iff, toInt_of_lt hlt] at hpos
        omega
      rw [htext, if_pos hpos, Nat.toList_repr, toDigits_eq hne]
      simp only [slt_zero_iff]
    · -- the least number
      have hneg : ¬0 < w.toInt := fun h => hlt (toNat_lt_of_nonneg (by omega))
      have hdone : (0 : Word).slt w = false := by
        rw [← Bool.not_eq_true, zero_slt_iff]
        exact hneg
      obtain ⟨fuel, rfl⟩ : ∃ fuel', fuel = fuel' + 1 := ⟨fuel - 1, by omega⟩
      refine ⟨[], ?_⟩
      rw [int642wstr, if_neg hzero, ← hw, fillScratch, hdone, htext, hdone]
      rfl

theorem natAbs_negate {overflow : Word} (hneg : v.toInt < 0) (hmin : v ≠ BitVec.intMin 64) :
    (negate overflow v).toNat = v.toInt.natAbs := by
  have hne : v.toNat ≠ 2 ^ 63 := by
    intro h
    exact hmin (BitVec.eq_of_toNat_eq (by rw [h]; decide))
  rw [negate, if_neg hmin, BitVec.toNat_neg]
  rw [BitVec.toInt_eq_toNat_cond] at hneg ⊢
  split at hneg <;> split <;> omega

/-- All but the least number are printed. -/
theorem int642wstr_prints {overflow : Word} (hbase : 2 ≤ base) (hbase' : base ≤ 36)
    (hmin : v ≠ BitVec.intMin 64) :
    ∃ scratch text, (∀ fuel, 64 ≤ fuel → int642wstr overflow fuel v base = some (scratch, text)) ∧
      Prints base v.toInt scratch text := by
  by_cases hzero : v = 0
  · subst hzero
    have hnumeral : IsIntNumeral base (0 : Word).toInt ['0'] := ⟨['0'], rfl, numeral_zero hbase⟩
    exact ⟨[], ['0'], fun _ _ => int642wstr_zero, hnumeral, hnumeral.readInt hbase', by simp,
      by simp⟩
  · obtain ⟨w, hw⟩ : ∃ w, w = if v.slt 0 then negate overflow v else v := ⟨_, rfl⟩
    have habs : w.toNat = v.toInt.natAbs := by
      by_cases hneg : v.toInt < 0
      · rw [hw, if_pos (slt_zero_iff.mpr hneg), natAbs_negate hneg hmin]
      · rw [hw, if_neg (fun h => hneg (slt_zero_iff.mp h)),
          toInt_of_lt (toNat_lt_of_nonneg (by omega)), Int.natAbs_natCast]
    have hlt : w.toNat < 2 ^ 63 := by
      have hle := BitVec.le_two_mul_toInt (x := v)
      have hne : v.toInt ≠ -2 ^ 63 := by
        intro h
        exact hmin (BitVec.eq_of_toInt_eq (by rw [h]; decide))
      have hlt := BitVec.two_mul_toInt_lt (x := v)
      omega
    have hne : w.toNat ≠ 0 := by
      rw [habs, Int.natAbs_ne_zero]
      intro h
      exact hzero (BitVec.eq_of_toInt_eq (by rw [h]; decide))
    have hnumeral : IsIntNumeral base v.toInt ((if v.toInt < 0 then ['-'] else []) ++
        ((Nat.digits base w.toNat).map digitChar).reverse) :=
      ⟨_, rfl, habs ▸ numeral_digits hbase hbase' hne⟩
    have hlen := length_digits_le hbase hlt
    refine ⟨_, _, fun fuel hfuel => int642wstr_of_nonneg hbase hbase' hfuel hzero hw hlt, hnumeral,
      hnumeral.readInt hbase', by rw [List.length_map]; omega, ?_⟩
    rw [List.length_append, List.length_reverse, List.length_map]
    split <;> simp only [List.length_singleton, List.length_nil] <;> omega

/-- What is written for the least number is the numeral of no number, or of one that is not it. -/
theorem int642wstr_min {overflow : Word} {scratch text : List Char} (hbase : 2 ≤ base)
    (hbase' : base ≤ 36)
    (h : int642wstr overflow 64 (BitVec.intMin 64) base = some (scratch, text)) :
    readInt base text ≠ some (BitVec.intMin 64).toInt := by
  have hne : BitVec.intMin 64 ≠ 0 := by decide
  have hw : overflow = if (BitVec.intMin 64).slt 0 then negate overflow (BitVec.intMin 64)
      else BitVec.intMin 64 := rfl
  have hmin : (BitVec.intMin 64).toInt = -2 ^ 63 := by decide
  by_cases hpos : 0 ≤ overflow.toInt
  · have hlt := toNat_lt_of_nonneg hpos
    rw [int642wstr_of_nonneg hbase hbase' le_rfl hne hw hlt] at h
    obtain ⟨rfl, rfl⟩ := Prod.mk.inj (Option.some.inj h)
    have hvalue : readNumber base ((Nat.digits base overflow.toNat).map digitChar).reverse =
        overflow.toNat := by
      rw [readNumber_digits hbase' (fun d hd => Nat.digits_lt_base hbase hd), Nat.ofDigits_digits]
    rw [hmin, if_pos (by decide)]
    simp only [List.singleton_append, readInt, if_true, hvalue]
    split
    · rintro ⟨⟩
    · intro heq
      have heq := Option.some.inj heq
      omega
  · have hdone : (0 : Word).slt overflow = false := by
      rw [← Bool.not_eq_true, zero_slt_iff]
      omega
    have hnone : int642wstr overflow 64 (BitVec.intMin 64) base = some ([], ['-']) := by
      rw [int642wstr, if_neg hne, ← hw, fillScratch, hdone]
      rfl
    obtain ⟨-, rfl⟩ := Prod.mk.inj (Option.some.inj (hnone.symm.trans h))
    rintro ⟨⟩

/-- An integer is printed as its numeral unless it is the least one. -/
theorem int642wstr_prints_iff {overflow : Word} (hbase : 2 ≤ base) (hbase' : base ≤ 36) :
    (∃ scratch text,
      (∀ fuel, 64 ≤ fuel → int642wstr overflow fuel v base = some (scratch, text)) ∧
        Prints base v.toInt scratch text) ↔ v ≠ BitVec.intMin 64 := by
  constructor
  · rintro ⟨scratch, text, hresult, hprints⟩ rfl
    exact int642wstr_min hbase hbase' (hresult 64 le_rfl) hprints.read
  · exact int642wstr_prints hbase hbase'

theorem hundred_prints :
    ∃ scratch text,
      (∀ fuel, 64 ≤ fuel → int642wstr 0 fuel (-100) 10 = some (scratch, text)) ∧
        Prints 10 (-100 : Word).toInt scratch text :=
  (int642wstr_prints_iff (v := -100) (by decide) (by decide)).mpr (by decide)

/-- With a negation that wraps around, nothing follows the sign. -/
theorem least_not_printed :
    int642wstr (BitVec.intMin 64) 64 (BitVec.intMin 64) 10 = some ([], ['-']) ∧
      ¬∃ scratch text, (∀ fuel, 64 ≤ fuel →
        int642wstr (BitVec.intMin 64) fuel (BitVec.intMin 64) 10 = some (scratch, text)) ∧
          Prints 10 (BitVec.intMin 64).toInt scratch text := by
  refine ⟨rfl, ?_⟩
  rintro ⟨scratch, text, hresult, hprints⟩
  exact int642wstr_min (by decide) (by decide) (hresult 64 le_rfl) hprints.read

end B0rk.ValueText
