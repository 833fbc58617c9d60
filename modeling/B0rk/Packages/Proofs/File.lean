import B0rk.Executor.Proofs.Construct
import B0rk.Packages.File
import B0rk.Parser.Proofs.Lexer

set_option autoImplicit false

/-! # Text from the source to the output

Between two characters at most 1020 bytes are in the buffer, so that the next one fits. -/

namespace B0rk

variable {W : Type}

/-- The UTF-8 of a text. -/
def utf8 (text : List Char) : List UInt8 := text.flatMap String.utf8EncodeChar

theorem length_le_utf8 (text : List Char) : text.length ≤ (utf8 text).length := by
  induction text with
  | nil => exact Nat.le_refl 0
  | cons c text ih =>
    have := c.utf8Size_pos
    rw [utf8, List.flatMap_cons, List.length_append, List.length_cons,
      String.length_utf8EncodeChar]
    change text.length ≤ (text.flatMap String.utf8EncodeChar).length at ih
    omega

/-- What is in the buffer and what is still to come is written, with the last character at the
    latest. -/
theorem writeChars_spec {strlength j : ℕ} {buffer : List UInt8} {text : List Char}
    (hlength : j + text.length = strlength) (hbuffer : buffer.length ≤ 1020)
    (hempty : text = [] → buffer = []) :
    ∃ buffers, writeChars strlength j buffer text = some buffers ∧
      buffers.flatten = buffer ++ utf8 text := by
  induction text generalizing j buffer with
  | nil =>
    obtain rfl := hempty rfl
    exact ⟨[], rfl, rfl⟩
  | cons c text ih =>
    rw [List.length_cons] at hlength
    have hsize := c.utf8Size_le_four
    have hroom : (buffer ++ String.utf8EncodeChar c).length ≤ bufferSize := by
      rw [List.length_append, String.length_utf8EncodeChar, bufferSize]
      omega
    have hutf8 : utf8 (c :: text) = String.utf8EncodeChar c ++ utf8 text := List.flatMap_cons
    rw [hutf8, ← List.append_assoc, writeChars, if_pos (by omega)]
    dsimp only
    rw [if_neg (Nat.not_lt.mpr hroom)]
    split
    · -- the buffer is handed over
      obtain ⟨buffers, hwrite, hflatten⟩ :=
        @ih (j + 1) [] (by omega) (Nat.zero_le _) (fun _ => rfl)
      refine ⟨(buffer ++ String.utf8EncodeChar c) :: buffers, by rw [hwrite]; rfl, ?_⟩
      rw [List.flatten_cons, hflatten, List.nil_append]
    · next hflush =>
      obtain ⟨hlast, hfull⟩ := not_or.mp hflush
      refine ih (by omega) (Nat.le_of_not_gt hfull) ?_
      rintro rfl
      rw [List.length_nil] at hlength
      omega

/-- **Everything is written once and in order.** -/
theorem doWrite_spec {E : Env W} {stringClass : Word} {toString : Value → List Char} {world : W}
    {args : List Value} {texts : List (List Char)}
    (htexts : args.map (writeText E stringClass toString world) = texts.map some)
    (hlength : ∀ text ∈ texts, text.length < 2 ^ 32) :
    ∃ buffers, doWrite E stringClass toString world args = some buffers ∧
      buffers.flatten = utf8 texts.flatten := by
  induction args generalizing texts with
  | nil =>
    cases texts with
    | nil => exact ⟨[], rfl, rfl⟩
    | cons text texts => cases htexts
  | cons v args ih =>
    cases texts with
    | nil => cases htexts
    | cons text texts =>
      obtain ⟨htext, htexts⟩ := List.cons.inj htexts
      obtain ⟨hle, hlength⟩ := List.forall_mem_cons.mp hlength
      have hmod : text.length % 2 ^ 32 = text.length := Nat.mod_eq_of_lt hle
      obtain ⟨buffers, hwrite, hflatten⟩ := @writeChars_spec text.length 0 [] text
        (Nat.zero_add _) (Nat.zero_le _) (fun _ => rfl)
      obtain ⟨buffers', hwrite', hflatten'⟩ := ih htexts hlength
      refine ⟨buffers ++ buffers', ?_, ?_⟩
      · simp only [doWrite, htext, hmod, hwrite, hwrite', Option.bind_eq_bind, Option.bind_some]
      · rw [List.flatten_append, hflatten, hflatten', List.nil_append, List.flatten_cons, utf8,
          utf8, utf8, List.flatMap_append]

/-! ## From literals to output -/

/-- The text of a string literal. -/
abbrev LiteralText := { text : List Char // '"' ∉ text ∧ '\\' ∉ text }

/-- The literals of a source file. -/
def literals (texts : List LiteralText) : List SourceToken :=
  texts.map (fun text => .string text.val text.property.1 text.property.2)

theorem length_le_literals (spelling : Spelling) {texts : List LiteralText} {text : LiteralText}
    (h : text ∈ texts) : text.val.length ≤ (printTokens spelling (literals texts)).length := by
  have hspell (s : List Char) : s.length ≤ (s.flatMap spelling.char).length := by
    induction s with
    | nil => exact Nat.le_refl 0
    | cons c s ih =>
      have hc : 1 ≤ (spelling.char c).length := by
        rcases spelling.spells c with hc | ⟨-, hc⟩ <;> rw [hc] <;> exact Nat.succ_pos _
      rw [List.flatMap_cons, List.length_append, List.length_cons]
      omega
  have htoken : text.val.length ≤
      ((SourceToken.string text.val text.property.1 text.property.2).print spelling ++ [' ']).length := by
    have := hspell text.val
    simp only [SourceToken.print, List.length_append, List.length_cons]
    omega
  have hmem : SourceToken.string text.val text.property.1 text.property.2 ∈ literals texts :=
    List.mem_map.mpr ⟨text, h, rfl⟩
  have hsub := List.sublist_flatten_of_mem
    (List.mem_map_of_mem (f := fun t => t.print spelling ++ [' ']) hmem)
  refine Nat.le_trans htoken (Nat.le_trans (List.Sublist.length_le hsub) ?_)
  rw [printTokens, List.length_append]
  exact Nat.le_add_right _ _

/-- **Text survives from the source to the output.** The length of a source file is an `int`. -/
theorem doWrite_literals (D : ReadDouble) (spelling : Spelling) (texts : List LiteralText)
    (hsize : (utf8 (printTokens spelling (literals texts))).length < 2 ^ 31) :
    ∃ tokens, lexer D (printTokens spelling (literals texts)) = some (true, tokens) ∧
      tokens.length = texts.length ∧ (∀ token ∈ tokens, token.type = .tokString) ∧
      ∀ (E : Env W) (stringClass : Word) (toString : Value → List Char) (world : W)
        (args : List Value), args.map (writeText E stringClass toString world) =
          tokens.map (fun token => some token.string.toList) →
        ∃ buffers, doWrite E stringClass toString world args = some buffers ∧
          buffers.flatten = utf8 (texts.map Subtype.val).flatten := by
  refine ⟨(literals texts).map (SourceToken.token 1), lexer_printTokens D spelling _,
    by simp [literals], ?_, ?_⟩
  · intro token htoken
    obtain ⟨t, ht, rfl⟩ := List.mem_map.mp htoken
    obtain ⟨text, -, rfl⟩ := List.mem_map.mp ht
    rfl
  · intro E stringClass toString world args hargs
    refine doWrite_spec (hargs.trans ?_) ?_
    · rw [literals, List.map_map, List.map_map, List.map_map]
      refine List.map_congr_left fun text _ => ?_
      exact congrArg some String.toList_ofList
    · intro text htext
      obtain ⟨text, hmem, rfl⟩ := List.mem_map.mp htext
      have := length_le_literals spelling hmem
      have := length_le_utf8 (printTokens spelling (literals texts))
      omega

/-- Newlines as they are. -/
def Spelling.raw : Spelling where
  char c := [c]
  spells _ := .inl rfl

/-- An environment with one string object. -/
def oneStringEnv (str : String) : Env Unit :=
  { oneClassEnv [] (fun _ => none) with getString := fun _ _ => some str }

theorem doWrite_literals_accent :
    ∃ buffers, doWrite (oneStringEnv "é\n") 1 (fun _ => []) () [Value.object 8] = some buffers ∧
      buffers.flatten = [0xc3, 0xa9, 0x0a] := by
  obtain ⟨tokens, hlexer, -, -, hwrite⟩ := doWrite_literals (W := Unit)
    ⟨fun _ => 0, fun d _ => d⟩ .raw [⟨['é', '\n'], by decide⟩] (by decide)
  obtain rfl : [⟨.tokString, 1, "é\n", 0, 0⟩] = tokens := by
    have hprint := lexer_printTokens ⟨fun _ => 0, fun d _ => d⟩ .raw
      (literals [⟨['é', '\n'], by decide⟩])
    rw [hlexer] at hprint
    cases hprint
    rfl
  exact hwrite (oneStringEnv "é\n") 1 (fun _ => []) () [Value.object 8] rfl

end B0rk
