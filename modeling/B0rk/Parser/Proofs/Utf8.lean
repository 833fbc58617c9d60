import B0rk.Parser.Utf8
import Mathlib.Algebra.Ring.Nat
import Mathlib.Tactic.Common

set_option autoImplicit false

/-! # Decoding what is encoded

The decoder gives back the character whose octets the text begins with. -/

namespace B0rk

/-- The octets of a text. -/
def encode (text : List Char) : List UInt8 := text.flatMap String.utf8EncodeChar

@[simp]
theorem encode_nil : encode [] = [] := rfl

@[simp]
theorem encode_cons {c : Char} {text : List Char} :
    encode (c :: text) = String.utf8EncodeChar c ++ encode text := rfl

@[simp]
theorem encode_append {text rest : List Char} : encode (text ++ rest) = encode text ++ encode rest :=
  List.flatMap_append

@[simp]
theorem encode_eq_nil {text : List Char} : encode text = [] ↔ text = [] := by
  cases text with
  | nil => simp
  | cons c text =>
    have hlength : 0 < (String.utf8EncodeChar c).length := by
      rw [String.length_utf8EncodeChar]
      exact c.utf8Size_pos
    simp only [encode_cons, List.append_eq_nil_iff, reduceCtorEq, iff_false, not_and]
    intro h
    simp [h] at hlength

theorem encode_length_lt {used rest : List Char} (h : used ≠ []) :
    (encode rest).length < (encode (used ++ rest)).length := by
  have hpos : 0 < (encode used).length :=
    List.length_pos_iff.mpr (fun hnil => h (encode_eq_nil.mp hnil))
  rw [encode_append, List.length_append]
  omega

/-! ## Octets -/

theorem sequenceLength_one : ∀ n < 128, sequenceLength (UInt8.ofNat n) = 1 := by decide

theorem sequenceLength_two : ∀ n < 32, sequenceLength (UInt8.ofNat (n + 0xc0)) = 2 := by decide

theorem sequenceLength_three : ∀ n < 16, sequenceLength (UInt8.ofNat (n + 0xe0)) = 3 := by decide

theorem sequenceLength_four : ∀ n < 8, sequenceLength (UInt8.ofNat (n + 0xf0)) = 4 := by decide

theorem isTrail_ofNat : ∀ n < 64, isTrail (UInt8.ofNat (n + 0x80)) = true := by decide

theorem toNat_octet {n : ℕ} (h : n < 256) : (UInt8.ofNat n).toNat = n := by
  rw [UInt8.toNat_ofNat']
  exact Nat.mod_eq_of_lt h

/-- The bits of a number below `2 ^ k`. -/
theorem and_mask (n k : ℕ) : n &&& (2 ^ k - 1) = n % 2 ^ k := Nat.and_two_pow_sub_one_eq_mod n k

theorem mask_6 (n : ℕ) : n &&& 0x3f = n % 64 := and_mask n 6

theorem mask_11 (n : ℕ) : n &&& 0x7ff = n % 2048 := and_mask n 11

theorem mask_12 (n : ℕ) : n &&& 0xfff = n % 4096 := and_mask n 12

theorem mask_16 (n : ℕ) : n &&& 0xffff = n % 65536 := and_mask n 16

theorem mask_18 (n : ℕ) : n &&& 0x3ffff = n % 262144 := and_mask n 18

theorem mask_21 (n : ℕ) : n &&& 0x1fffff = n % 2097152 := and_mask n 21

theorem increaseSafely_trail (oc : UInt8) (rest : List UInt8) {n : ℕ} (h : n < 64) :
    increaseSafely (oc :: UInt8.ofNat (n + 0x80) :: rest) =
      .ok (n + 0x80, UInt8.ofNat (n + 0x80) :: rest) := by
  rw [increaseSafely, if_pos (isTrail_ofNat n h), toNat_octet (by omega)]

/-! ## Characters -/

theorem Char.valid_iff (c : Char) : c.toNat < 0xd800 ∨ 0xdfff < c.toNat ∧ c.toNat < 0x110000 :=
  c.valid

theorem isCodePointValid_char (c : Char) : isCodePointValid c.toNat = true := by
  have hvalid := Char.valid_iff c
  simp only [isCodePointValid, isSurrogate, Bool.and_eq_true, Bool.not_eq_true',
    Bool.and_eq_false_iff, decide_eq_true_eq, decide_eq_false_iff_not]
  omega

theorem validateNext_encode (c : Char) (rest : List UInt8) :
    validateNext (String.utf8EncodeChar c ++ rest) = .ok (c.toNat, rest) := by
  have hvalid := Char.valid_iff c
  have hcode := isCodePointValid_char c
  generalize hv : c.toNat = v at hvalid hcode
  have hval : c.val.toNat = v := hv
  unfold String.utf8EncodeChar validateNext
  simp only [hval]
  split
  · next hle =>
    have hlength := sequenceLength_one v (by omega)
    have hoverlong : isOverlongSequence v 1 = false := by
      simp only [isOverlongSequence]
      rw [if_pos (by omega)]
      rfl
    simp only [List.cons_append, List.nil_append, List.headD_cons, hlength, getSequence,
      getSequence1, toNat_octet (show v < 256 by omega)]
    show (if isCodePointValid v then _ else _) = _
    rw [if_pos hcode, hoverlong]
    rfl
  · split
    · next hgt hle =>
      have hlength := sequenceLength_two (v / 64 % 32) (Nat.mod_lt _ (by decide))
      have htrail := increaseSafely_trail (UInt8.ofNat (v / 64 % 0x20 + 0xc0))
        rest (n := v % 0x40) (Nat.mod_lt _ (by decide))
      have hlead := toNat_octet (n := v / 64 % 0x20 + 0xc0) (by omega)
      have hcp : ((v / 64 % 0x20 + 0xc0) <<< 6 &&& 0x7ff) + (v % 0x40 + 0x80 &&& 0x3f) = v := by
        rw [mask_11, mask_6, Nat.shiftLeft_eq]
        omega
      have hoverlong : isOverlongSequence v 2 = false := by
        simp only [isOverlongSequence]
        rw [if_neg (by omega), if_pos (by omega)]
        rfl
      have hget : getSequence2 (UInt8.ofNat (v / 64 % 0x20 + 0xc0) ::
          UInt8.ofNat (v % 0x40 + 0x80) :: rest) = .ok (v, UInt8.ofNat (v % 0x40 + 0x80) :: rest) := by
        simp only [getSequence2, getSequence1, bind, Except.bind, hlead, htrail, hcp]
      simp only [List.cons_append, List.nil_append, List.headD_cons, hlength, getSequence, hget]
      show (if isCodePointValid v then _ else _) = _
      rw [if_pos hcode, hoverlong]
      rfl
    · split
      · next hgt hle =>
        have hlength := sequenceLength_three (v / 4096 % 16) (Nat.mod_lt _ (by decide))
        have htrail := increaseSafely_trail (UInt8.ofNat (v / 4096 % 0x10 + 0xe0))
          (UInt8.ofNat (v % 0x40 + 0x80) :: rest) (n := v / 64 % 0x40)
          (Nat.mod_lt _ (by decide))
        have htrail' := increaseSafely_trail (UInt8.ofNat (v / 64 % 0x40 + 0x80))
          rest (n := v % 0x40) (Nat.mod_lt _ (by decide))
        have hlead := toNat_octet (n := v / 4096 % 0x10 + 0xe0) (by omega)
        have hcp : ((v / 4096 % 0x10 + 0xe0) <<< 12 &&& 0xffff) +
            ((v / 64 % 0x40 + 0x80) <<< 6 &&& 0xfff) + (v % 0x40 + 0x80 &&& 0x3f) = v := by
          rw [mask_16, mask_12, mask_6, Nat.shiftLeft_eq, Nat.shiftLeft_eq]
          omega
        have hoverlong : isOverlongSequence v 3 = false := by
          simp only [isOverlongSequence]
          rw [if_neg (by omega), if_neg (by omega), if_pos (by omega)]
          rfl
        have hget : getSequence3 (UInt8.ofNat (v / 4096 % 0x10 + 0xe0) ::
            UInt8.ofNat (v / 64 % 0x40 + 0x80) :: UInt8.ofNat (v % 0x40 + 0x80) :: rest) =
              .ok (v, UInt8.ofNat (v % 0x40 + 0x80) :: rest) := by
          simp only [getSequence3, getSequence1, bind, Except.bind, hlead, htrail, htrail', hcp]
        simp only [List.cons_append, List.nil_append, List.headD_cons, hlength, getSequence, hget]
        show (if isCodePointValid v then _ else _) = _
        rw [if_pos hcode, hoverlong]
        rfl
      · next hgt =>
        have hlength := sequenceLength_four (v / 262144 % 8) (Nat.mod_lt _ (by decide))
        have htrail := increaseSafely_trail (UInt8.ofNat (v / 262144 % 0x08 + 0xf0))
          (UInt8.ofNat (v / 64 % 0x40 + 0x80) :: UInt8.ofNat (v % 0x40 + 0x80) :: rest) (n := v / 4096 % 0x40)
          (Nat.mod_lt _ (by decide))
        have htrail' := increaseSafely_trail (UInt8.ofNat (v / 4096 % 0x40 + 0x80))
          (UInt8.ofNat (v % 0x40 + 0x80) :: rest) (n := v / 64 % 0x40)
          (Nat.mod_lt _ (by decide))
        have htrail'' := increaseSafely_trail (UInt8.ofNat (v / 64 % 0x40 + 0x80))
          rest (n := v % 0x40) (Nat.mod_lt _ (by decide))
        have hlead := toNat_octet (n := v / 262144 % 0x08 + 0xf0) (by omega)
        have hcp : ((v / 262144 % 0x08 + 0xf0) <<< 18 &&& 0x1fffff) +
            ((v / 4096 % 0x40 + 0x80) <<< 12 &&& 0x3ffff) +
            ((v / 64 % 0x40 + 0x80) <<< 6 &&& 0xfff) + (v % 0x40 + 0x80 &&& 0x3f) = v := by
          rw [mask_21, mask_18, mask_12, mask_6, Nat.shiftLeft_eq, Nat.shiftLeft_eq,
            Nat.shiftLeft_eq]
          omega
        have hoverlong : isOverlongSequence v 4 = false := by
          simp only [isOverlongSequence]
          rw [if_neg (by omega), if_neg (by omega), if_neg (by omega)]
        have hget : getSequence4 (UInt8.ofNat (v / 262144 % 0x08 + 0xf0) ::
            UInt8.ofNat (v / 4096 % 0x40 + 0x80) :: UInt8.ofNat (v / 64 % 0x40 + 0x80) ::
              UInt8.ofNat (v % 0x40 + 0x80) :: rest) =
              .ok (v, UInt8.ofNat (v % 0x40 + 0x80) :: rest) := by
          simp only [getSequence4, getSequence1, bind, Except.bind, hlead, htrail, htrail', htrail'',
            hcp]
        simp only [List.cons_append, List.nil_append, List.headD_cons, hlength, getSequence, hget]
        show (if isCodePointValid v then _ else _) = _
        rw [if_pos hcode, hoverlong]
        rfl

/-- Reading the first character of an encoded text. -/
theorem next_encode (c : Char) (rest : List UInt8) :
    ∃ h, Utf8.next (String.utf8EncodeChar c ++ rest) = .ok (c, ⟨rest, h⟩) := by
  have hvalid := validateNext_encode c rest
  refine ⟨validateNext_length hvalid, ?_⟩
  unfold Utf8.next
  split
  · next cp it' h =>
    obtain ⟨rfl, rfl⟩ := Prod.mk.inj (Except.ok.inj (h.symm.trans hvalid))
    rw [Char.ofNat_toNat]
  · next e h => cases h.symm.trans hvalid

theorem next_encode_cons (c : Char) (text : List Char) :
    ∃ h, Utf8.next (encode (c :: text)) = .ok (c, ⟨encode text, h⟩) := next_encode c (encode text)

end B0rk
