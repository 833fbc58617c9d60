import B0rk.Runtime.Bytes
import B0rk.Runtime.Proofs.Arena

set_option autoImplicit false
set_option maxRecDepth 4000

/-! # A block without room for its header

A request of `2 ^ 28 - 1` slots has the size `24 + 16 * (2 ^ 28 - 1)`, which is 8 in an `unsigned int`.
The header that is written into the eight bytes runs on into the header of the remainder, and the next
collection walks from there to addresses where no block starts: `interned_overwritten`. -/

namespace B0rk

namespace RawRuntime

/-! ## One round of the sweep -/

section

variable {mark fuel pos n k : ℕ} {rt : RawRuntime} {freed : ℤ}

theorem sweep_end (h : rt.start + rt.arenaSize ≤ pos) :
    sweep mark fuel pos rt freed = some (rt, freed) := by
  unfold sweep
  rw [if_pos h]

theorem sweep_free (h : pos < rt.start + rt.arenaSize) (hclazz : rt.bytes.clazz pos = 0)
    (hn : rt.bytes.size pos = n) :
    sweep mark (fuel + 1) pos rt freed = sweep mark fuel ((pos + n) % 2 ^ 64) rt freed := by
  rw [sweep, if_neg (Nat.not_le.mpr h)]
  simp only [if_pos hclazz, hn]

theorem sweep_external (h : pos < rt.start + rt.arenaSize) (hclazz : rt.bytes.clazz pos ≠ 0)
    (hmark : rt.bytes.gcMark pos = 2 ^ 64 - 1) (hn : rt.bytes.size pos = n) :
    sweep mark (fuel + 1) pos rt freed =
      sweep mark fuel ((pos + n) % 2 ^ 64) { rt with currentBytes := rt.currentBytes + n } freed := by
  rw [sweep, if_neg (Nat.not_le.mpr h)]
  simp only [if_neg hclazz, if_pos (Or.inr hmark), hn]

/-- The size is read a second time behind the writes. -/
theorem sweep_garbage (h : pos < rt.start + rt.arenaSize) (hclazz : rt.bytes.clazz pos ≠ 0)
    (hmark : ¬(rt.bytes.gcMark pos = mark ∨ rt.bytes.gcMark pos = 2 ^ 64 - 1))
    (hn : rt.bytes.size pos = n)
    (hk : ((rt.bytes.setClass pos 0).setMark pos (2 ^ 64 - 1)).size pos = k) :
    sweep mark (fuel + 1) pos rt freed =
      sweep mark fuel ((pos + k) % 2 ^ 64)
        { rt with
          bytes := (rt.bytes.setClass pos 0).setMark pos (2 ^ 64 - 1)
          freeList := rt.freeList ++ [pos] } ((freed + n).bmod (2 ^ 32)) := by
  rw [sweep, if_neg (Nat.not_le.mpr h)]
  simp only [if_neg hclazz, if_neg hmark, hn, hk]

end

/-! ## Two strings and an oversized request

The arena starts at 65536; `String` is the class at 1000000, and 3000000 is another class. The strings
`"a"` and `"b"` come first, then an object of 11 slots, and behind it the request that wraps around. -/

def stringsBytes₀ : Bytes := (RawRuntime.init 65536).bytes

def stringsBytes₁ : Bytes :=
  (((stringsBytes₀.freeBlock 65576 16777176).newObject 65536 40 1000000).setValueBits 65536 0
    2000000).setMark 65536 (2 ^ 64 - 1)

def stringsBytes₂ : Bytes :=
  (((stringsBytes₁.freeBlock 65616 16777136).newObject 65576 40 1000000).setValueBits 65576 0
    2000016).setMark 65576 (2 ^ 64 - 1)

def stringsBytes₃ : Bytes := (stringsBytes₂.freeBlock 65816 16776936).newObject 65616 200 3000000

/-- The header at 65816 covers the class and the size of the free block at 65824. -/
def stringsBytes₄ : Bytes := (stringsBytes₃.freeBlock 65824 16776928).newObject 65816 8 3000000

/-- What the sweep takes for garbage: the two objects, the free block, and eight bytes of the first
    string with the header of the second. -/
def stringsBytes₅ : Bytes :=
  [65616, 65816, 65824, 65567].foldl
    (fun m obj => (m.setClass obj 0).setMark obj (2 ^ 64 - 1)) stringsBytes₄

def stringsState (bytes : Bytes) (freeList : List ℕ) (newObjects currentBytes : ℕ) : RawRuntime :=
  ⟨65536, 16777216, bytes, freeList, newObjects, currentBytes, 16777216, true, 0⟩

theorem strings_sweep :
    sweep 77 10 65536 (stringsState stringsBytes₄ [65824] 4 0) 0 =
      some (stringsState stringsBytes₅ [65824, 65616, 65816, 65824, 65567] 4 80, 256000207) := by
  rw [sweep_external (n := 40) (by decide) (by decide +kernel) (by decide +kernel) (by decide +kernel),
    sweep_external (n := 40) (by decide) (by decide +kernel) (by decide +kernel) (by decide +kernel),
    sweep_garbage (n := 200) (k := 200) (by decide) (by decide +kernel) (by decide +kernel)
      (by decide +kernel) (by decide +kernel),
    sweep_garbage (n := 8) (k := 8) (by decide) (by decide +kernel) (by decide +kernel)
      (by decide +kernel) (by decide +kernel),
    -- the size of the remainder is the mark of the object in front of it
    sweep_garbage (n := 2 ^ 64 - 1) (k := 2 ^ 64 - 1) (by decide) (by decide +kernel)
      (by decide +kernel) (by decide +kernel) (by decide +kernel),
    sweep_free (n := 2 ^ 64 - 256) (by decide) (by decide +kernel) (by decide +kernel),
    sweep_garbage (n := 256000000) (k := 256000000) (by decide) (by decide +kernel) (by decide +kernel)
      (by decide +kernel) (by decide +kernel),
    sweep_end (by decide)]
  rfl

theorem strings_gc :
    (stringsState stringsBytes₄ [65824] 4 288).gc 10 [] 77 =
      some { stringsState (stringsBytes₅.setSize 65616 200) [65567, 65616, 65824, 65824] 4 80 with
        gcLastAlloc := 4 } := by
  have hsort : sortFreeList [65824, 65616, 65816, 65824, 65567] =
      [65567, 65616, 65816, 65824, 65824] :=
    sortFreeList_eq_of_le (by decide) (by decide)
  -- the first two objects are neighbours
  have hcoalesce : coalesce 6 stringsBytes₅ [65567, 65616, 65816, 65824, 65824] =
      some (stringsBytes₅.setSize 65616 200, [65567, 65616, 65824, 65824]) := by
    rfl
  have hsweep := strings_sweep
  unfold stringsState at hsweep ⊢
  unfold RawRuntime.gc
  simp only [if_true, List.foldlM_nil, Option.pure_def, Option.bind_eq_bind, Option.bind_some, hsweep,
    hsort]
  rw [if_pos (by decide)]
  exact congrArg (Option.bind · _) hcoalesce

end RawRuntime

def stringsTable₁ : List (String × ℕ) := [("a", 65536)]
def stringsTable₂ : List (String × ℕ) := [("b", 65576), ("a", 65536)]

/-- `newString` of `"a"` and `"b"`, two calls of `allocateObject` and a collection leave the object of
    `"b"` without its class, and the object of `"a"` without its text. -/
theorem interned_overwritten :
    ∃ s₁ s₂ rt₃ rt₄ rt₅,
      RawInterned.newString 1 [] 1 1000000 2000000 "a" ⟨RawRuntime.init 65536, []⟩ =
        some (s₁, 65536) ∧
      s₁.newString 1 [] 1 1000000 2000016 "b" = some (s₂, 65576) ∧
      s₂.rt.allocateObject 1 [] 1 3000000 11 = some (rt₃, 65616) ∧
      rt₃.allocateObject 1 [] 1 3000000 (2 ^ 28 - 1) = some (rt₄, 65816) ∧
      rt₄.gc 10 [] 77 = some rt₅ ∧
      s₂.rt.bytes.clazz 65576 = 1000000 ∧ rt₅.bytes.clazz 65576 ≠ 1000000 ∧
      s₂.rt.bytes.valueBits 65536 0 = 2000000 ∧ rt₅.bytes.valueBits 65536 0 = 0 := by
  refine ⟨⟨RawRuntime.stringsState RawRuntime.stringsBytes₁ [65576] 1 40, stringsTable₁⟩,
    ⟨RawRuntime.stringsState RawRuntime.stringsBytes₂ [65616] 2 80, stringsTable₂⟩,
    RawRuntime.stringsState RawRuntime.stringsBytes₃ [65816] 3 280,
    RawRuntime.stringsState RawRuntime.stringsBytes₄ [65824] 4 288, _, ?_, ?_, ?_, ?_,
    RawRuntime.strings_gc, ?_, ?_, ?_, ?_⟩
  · rfl
  · rfl
  · rfl
  · rfl
  · decide +kernel
  · decide +kernel
  · decide +kernel
  · decide +kernel

end B0rk
