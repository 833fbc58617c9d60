import B0rk.Packages.Strings
import B0rk.Executor.Proofs.Compare
import Mathlib.Data.Char
import Mathlib.Data.List.Lex

set_option autoImplicit false

/-! # The order of strings and integers

`CMP` asks the value on top, the left one. If it is a string, the flags are set from the sign of
`wcscmp(left, right)`, but the instructions behind `CMP` expect the sign of `right - left`, as
`CMP_INTEGER` leaves it; and an integer on the left is never compared with a string. -/

namespace B0rk

variable {W : Type}

/-- The integers and the strings, with their texts. -/
inductive StringEnv.Operand (E : StringEnv W) (world : W) : Value → List Char → Prop
  | integer (i : Word) : E.Operand world (Value.integer i) (int642wstr i)
  | string {obj : Word} {text : String} : obj ≠ 0 → E.getClass world obj = some E.stringClass →
      E.getString world obj = some text → E.Operand world (Value.object obj) text.toList

/-- The flags behind `CMP` of two of these. -/
def StringEnv.cmpFlags (E : StringEnv W) (v w : Value) (s t : List Char) : Flags :=
  if v.isObject then
    let result := E.wcscmp (cStr s) (cStr t)
    Flags.ofResult (decide (result = 0)) (result.slt 0)
  else if w.isObject then Flags.ofResult false true
  else cmpInteger v.bits w.bits

section

variable {E : StringEnv W} {fuel : ℕ} {ctx : Context W} {frame : Frame} {v w : Value}
  {s t : List Char}

theorem StringEnv.Operand.writeText {world : W} (h : E.Operand world v s) :
    writeText E.toEnv E.stringClass (fun v => (E.toString v).toList) world v = some s := by
  cases h with
  | integer i => exact congrArg some (E.toString_integer i)
  | @string obj text hobj hclass htext =>
    have hlive : (Value.object obj).isLiveObject = true := decide_eq_true hobj
    have hclass' : E.getClass world (Value.object obj).bits = some E.stringClass := hclass
    have htext' : E.getString world (Value.object obj).bits = some text := htext
    simp [B0rk.writeText, hlive, hclass', htext']

/-- `operator==` of a string pops its argument and pushes the sign of `wcscmp`. -/
theorem callOperator_string {obj : Word} {text : String}
    (hclass : E.getClass ctx.world obj = some E.stringClass)
    (htext : E.getString ctx.world obj = some text) (hw : E.Operand ctx.world w t)
    (hexc : ctx.exception = false) :
    callOperator E.toEnv (execute E.toEnv (fuel + 1)) "operator==" (Value.object obj) (ctx.push w) =
      some (true, ctx.push (Value.integer (E.wcscmp (cStr text.toList) (cStr t)))) := by
  obtain ⟨chain, hchain, hmethod⟩ := E.chain_string ctx.world
  have hrun : StringNative.eqOperator E.toEnv E.stringClass E.wcscmp obj 1 [w] ctx =
      some (true, ctx, Value.integer (E.wcscmp (cStr text.toList) (cStr t))) := by
    simp [StringNative.eqOperator, htext, hw.writeText]
  have hargs : (ctx.push w).popArgs 1 = some ([w], ctx) := rfl
  have hexec : execute E.toEnv (fuel + 1) E.eqOperator obj 1 (ctx.push w) =
      some (true, ctx.push (Value.integer (E.wcscmp (cStr text.toList) (cStr t)))) := by
    simp [execute, E.function_eqOperator, nativeExecute, hargs, hrun, hexc]
  have hclass' : E.getClass (ctx.push w).world (Value.object obj).bits = some E.stringClass := hclass
  have hchain' : E.chain (ctx.push w).world E.stringClass = some chain := hchain
  simp only [callOperator, hclass', hchain', hmethod, Option.bind_eq_bind, Option.bind_some]
  exact hexec

theorem cmpFlags_string (hv : v.isObject = true) : E.cmpFlags v w s t =
    Flags.ofResult (decide (E.wcscmp (cStr s) (cStr t) = 0))
      ((E.wcscmp (cStr s) (cStr t)).slt 0) := if_pos hv

theorem cmpFlags_mixed (hv : v.isObject = false) (hw : w.isObject = true) :
    E.cmpFlags v w s t = Flags.ofResult false true := by
  unfold StringEnv.cmpFlags
  rw [if_neg (by simp [hv]), if_pos hw]

theorem cmpFlags_integers (hv : v.isObject = false) (hw : w.isObject = false) :
    E.cmpFlags v w s t = cmpInteger v.bits w.bits := by
  unfold StringEnv.cmpFlags
  rw [if_neg (by simp [hv]), if_neg (by simp [hw])]

theorem opcodeCmp_operands (hv : E.Operand ctx.world v s) (hw : E.Operand ctx.world w t)
    (hexc : ctx.exception = false) :
    opcodeTable E.toEnv (execute E.toEnv (fuel + 1)) .cmp [] ((ctx.push w).push v) frame =
      some (true, ctx, { frame with flags := E.cmpFlags v w s t }) := by
  cases hv with
  | integer i =>
    cases hw with
    | integer j =>
      rw [cmpFlags_integers rfl rfl]
      exact opcode_compare _ _ (.inr ⟨rfl, rfl, rfl⟩) ctx frame
    | @string obj =>
      rw [cmpFlags_mixed rfl rfl]
      have hleft : (Value.integer i).type = .integer := rfl
      have hnumbers : cmpNumbers E.double (Value.integer i) (Value.object obj) =
          Flags.ofResult false true := by
        simp [cmpNumbers, Value.integer, Value.object]
      show opcodeCmp E.toEnv _ [] ((ctx.push (Value.object obj)).push (Value.integer i)) frame = _
      simp only [opcodeCmp, Context.pop, Context.push, Option.bind_eq_bind, Option.bind_some]
      rw [if_pos (Or.inl hleft), hnumbers]
  | @string obj text hobj hclass htext =>
    rw [cmpFlags_string rfl]
    have hcall : callOperator E.toEnv (execute E.toEnv (fuel + 1)) "operator==" (Value.object obj)
        (ctx.push w) = some (true, _) := callOperator_string hclass htext hw hexc
    have hpop : ((ctx.push w).push (Value.object obj)).pop = some (Value.object obj, ctx.push w) := rfl
    have hresult (r : Value) : (ctx.push r).pop = some (r, ctx) := rfl
    have hobject : (Value.object obj).isObject = true := rfl
    show opcodeCmp E.toEnv _ [] ((ctx.push w).push (Value.object obj)) frame = _
    simp only [opcodeCmp, hpop, hcall, hresult, Option.bind_eq_bind, Option.bind_some, if_true]
    rw [if_neg (by simp [Value.object]), if_pos hobject]
    rfl

end

/-! ## The order -/

/-- `CMP` with `c.pushOp` behind it pushes `b` for the left value `v` and the right value `w`. -/
def StringEnv.Pushes (E : StringEnv W) (fuel : ℕ) (ctx : Context W) (frame : Frame) (c : Comparison)
    (v w : Value) (b : Bool) : Prop :=
  ∃ frame', runInstructions E.toEnv (execute E.toEnv (fuel + 1)) [⟨.cmp, []⟩, ⟨c.pushOp, []⟩]
    ((ctx.push w).push v) frame = some (true, ctx.push (Value.ofBool b), frame')

section

variable {E : StringEnv W} {fuel : ℕ} {ctx : Context W} {frame : Frame} {v w : Value}
  {s t : List Char}

theorem StringEnv.pushes_iff (hv : E.Operand ctx.world v s) (hw : E.Operand ctx.world w t)
    (hexc : ctx.exception = false) (c : Comparison) (b : Bool) :
    E.Pushes fuel ctx frame c v w b ↔ c.pushed (E.cmpFlags v w s t) = b := by
  have hrun : runInstructions E.toEnv (execute E.toEnv (fuel + 1)) [⟨.cmp, []⟩, ⟨c.pushOp, []⟩]
      ((ctx.push w).push v) frame = some (true,
        ctx.push (Value.ofBool (c.pushed (E.cmpFlags v w s t))),
        { frame with flags := E.cmpFlags v w s t }) := by
    simp only [runInstructions, opcodeCmp_operands hv hw hexc, opcode_pushOp, Option.bind_eq_bind,
      Option.bind_some, if_true]
  unfold StringEnv.Pushes
  rw [hrun]
  constructor
  · rintro ⟨frame', h⟩
    have hstack := congrArg (fun r => r.2.1.stack) (Option.some.inj h)
    exact ofBool_inj.mp (List.cons.inj hstack).1
  · rintro rfl
    exact ⟨_, rfl⟩

end

/-! ## Texts -/

/-- Cutting two texts off at their first zeros does not turn their order around. -/
theorem lt_of_cStr_lt {s t : List Char} (h : cStr s < cStr t) : s < t := by
  induction s generalizing t with
  | nil =>
    cases t with
    | nil => exact h
    | cons b t => exact List.nil_lt_cons b t
  | cons a s ih =>
    cases t with
    | nil => exact absurd h (List.not_lt_nil _)
    | cons b t =>
      by_cases hb : b.toNat = 0
      · have hnil : cStr (b :: t) = [] := List.takeWhile_cons_of_neg (by simp [hb])
        rw [hnil] at h
        exact absurd h (List.not_lt_nil _)
      · have htail : cStr (b :: t) = b :: cStr t := List.takeWhile_cons_of_pos (by simp [hb])
        by_cases ha : a.toNat = 0
        · have hlt : a < b := by
            show a.toNat < b.toNat
            omega
          exact List.cons_lt_cons_iff.mpr (.inl hlt)
        · have hself : cStr (a :: s) = a :: cStr s := List.takeWhile_cons_of_pos (by simp [ha])
          rw [hself, htail, List.cons_lt_cons_iff] at h
          exact List.cons_lt_cons_iff.mpr (h.imp_right (fun ⟨heq, hlt⟩ => ⟨heq, ih hlt⟩))

/-! ## When the order holds -/

/-- The comparisons of which one and only one should hold. -/
def Comparison.exclusive : List Comparison := [.less, .equal, .greater]

/-- What the compiled tests `v < w`, `v == w` and `v > w` push. -/
structure StringEnv.Ordered (E : StringEnv W) (fuel : ℕ) (ctx : Context W) (frame : Frame)
    (v w : Value) (s t : List Char) : Prop where
  /-- of two strings, the lexicographic order of their texts -/
  strings : v.isObject = true → w.isObject = true →
    (E.Pushes fuel ctx frame .less v w true ↔ s < t) ∧
      (E.Pushes fuel ctx frame .equal v w true ↔ s = t) ∧
      (E.Pushes fuel ctx frame .greater v w true ↔ t < s)
  equal_comm : E.Pushes fuel ctx frame .equal v w true ↔ E.Pushes fuel ctx frame .equal w v true
  less_swap : E.Pushes fuel ctx frame .less v w true ↔ E.Pushes fuel ctx frame .greater w v true
  /-- exactly one of the three -/
  one : ∃ c ∈ Comparison.exclusive, E.Pushes fuel ctx frame c v w true ∧
    ∀ d ∈ Comparison.exclusive, d ≠ c → E.Pushes fuel ctx frame d v w false

/-- When they do: for two integers, if the difference does not wrap around to the least integer; for two
    strings, if their texts are the same; for an integer and a string, if the text of the string comes
    behind the one of the integer. -/
def OrderExact (v w : Value) (s t : List Char) : Prop :=
  if v.isObject then if w.isObject then s = t else cStr t < cStr s
  else if w.isObject then cStr s < cStr t
  else w.bits - v.bits ≠ BitVec.intMin 64

theorem pushed_ofResult (zero sign : Bool) :
    Comparison.equal.pushed (Flags.ofResult zero sign) = zero ∧
      Comparison.less.pushed (Flags.ofResult zero sign) = (!zero && !sign) ∧
      Comparison.greater.pushed (Flags.ofResult zero sign) = (!zero && sign) := by
  cases zero <;> cases sign <;> decide

section

variable {E : StringEnv W} {v w : Value} {s t : List Char}

/-- Behind `CMP` of a string the three tests tell the order of the texts, the wrong way round. -/
theorem pushed_string (hv : v.isObject = true) :
    (Comparison.equal.pushed (E.cmpFlags v w s t) = true ↔ cStr s = cStr t) ∧
      (Comparison.less.pushed (E.cmpFlags v w s t) = true ↔ cStr t < cStr s) ∧
      (Comparison.greater.pushed (E.cmpFlags v w s t) = true ↔ cStr s < cStr t) := by
  have hzero := E.wcscmp_zero (cStr s) (cStr t)
  have hneg := E.wcscmp_neg (cStr s) (cStr t)
  obtain ⟨hequal, hless, hgreater⟩ := pushed_ofResult
    (decide (E.wcscmp (cStr s) (cStr t) = 0)) ((E.wcscmp (cStr s) (cStr t)).slt 0)
  rw [cmpFlags_string hv, hequal, hless, hgreater]
  simp only [Bool.and_eq_true, Bool.not_eq_true', decide_eq_true_eq, hzero, hneg,
    ← Bool.not_eq_true]
  refine ⟨trivial, ?_, ?_⟩
  · constructor
    · rintro ⟨hne, hnot⟩
      exact lt_of_le_of_ne (le_of_not_gt hnot) (Ne.symm hne)
    · intro hlt
      exact ⟨ne_of_gt hlt, not_lt_of_gt hlt⟩
  · exact ⟨fun h => h.2, fun hlt => ⟨ne_of_lt hlt, hlt⟩⟩

/-- An integer is greater than any string. -/
theorem pushed_mixed (hv : v.isObject = false) (hw : w.isObject = true) :
    Comparison.equal.pushed (E.cmpFlags v w s t) = false ∧
      Comparison.less.pushed (E.cmpFlags v w s t) = false ∧
      Comparison.greater.pushed (E.cmpFlags v w s t) = true := by
  rw [cmpFlags_mixed hv hw]
  decide

/-- Integers, by their wrapped difference. -/
theorem pushed_integers (hv : v.isObject = false) (hw : w.isObject = false) :
    (Comparison.equal.pushed (E.cmpFlags v w s t) = true ↔ v.bits.toInt = w.bits.toInt) ∧
      (Comparison.less.pushed (E.cmpFlags v w s t) = true ↔ 0 < (w.bits - v.bits).toInt) ∧
      (Comparison.greater.pushed (E.cmpFlags v w s t) = true ↔ (w.bits - v.bits).toInt < 0) := by
  obtain ⟨hzero, hless, hgreater⟩ := cmpInteger_toInt v.bits w.bits
  have hcases := toInt_sub_cases v.bits w.bits
  unfold Comparison.Fits at hcases
  rw [cmpFlags_integers hv hw]
  simp only [Comparison.pushed, hzero, hless, hgreater, Bool.and_eq_true, Bool.not_eq_true',
    decide_eq_true_eq, decide_eq_false_iff_not]
  refine ⟨trivial, trivial, ?_⟩
  omega

variable {fuel : ℕ} {ctx : Context W} {frame : Frame}

theorem exclusive_of {f : Flags}
    (hless : Comparison.less.pushed f = true →
      ¬Comparison.equal.pushed f = true ∧ ¬Comparison.greater.pushed f = true)
    (hequal : Comparison.equal.pushed f = true → ¬Comparison.greater.pushed f = true)
    (hsome : ¬Comparison.less.pushed f = true → ¬Comparison.equal.pushed f = true →
      Comparison.greater.pushed f = true) :
    ∃ c ∈ Comparison.exclusive, c.pushed f = true ∧
      ∀ d ∈ Comparison.exclusive, d ≠ c → d.pushed f = false := by
  simp only [Comparison.exclusive, List.mem_cons, List.not_mem_nil, or_false, ← Bool.not_eq_true]
  by_cases hl : Comparison.less.pushed f = true
  · obtain ⟨he, hg⟩ := hless hl
    refine ⟨.less, .inl rfl, hl, ?_⟩
    rintro d (rfl | rfl | rfl) hd
    exacts [absurd rfl hd, he, hg]
  · by_cases he : Comparison.equal.pushed f = true
    · refine ⟨.equal, .inr (.inl rfl), he, ?_⟩
      rintro d (rfl | rfl | rfl) hd
      exacts [hl, absurd rfl hd, hequal he]
    · refine ⟨.greater, .inr (.inr rfl), hsome hl he, ?_⟩
      rintro d (rfl | rfl | rfl) hd
      exacts [hl, he, absurd rfl hd]

/-- Exactly one of the three tests holds, of any two values. -/
theorem pushed_one (v w : Value) (s t : List Char) :
    ∃ c ∈ Comparison.exclusive, c.pushed (E.cmpFlags v w s t) = true ∧
      ∀ d ∈ Comparison.exclusive, d ≠ c → d.pushed (E.cmpFlags v w s t) = false := by
  cases hv : v.isObject with
  | true =>
    obtain ⟨hequal, hless, hgreater⟩ := pushed_string (E := E) (w := w) (s := s) (t := t) hv
    refine exclusive_of ?_ ?_ ?_
    · rw [hless, hequal, hgreater]
      exact fun hlt => ⟨ne_of_gt hlt, not_lt_of_gt hlt⟩
    · rw [hequal, hgreater]
      exact fun heq hlt => ne_of_lt hlt heq
    · rw [hless, hequal, hgreater]
      exact fun hnot hne => lt_of_le_of_ne (le_of_not_gt hnot) hne
  | false =>
    cases hw : w.isObject with
    | true =>
      obtain ⟨hequal, hless, hgreater⟩ := pushed_mixed (E := E) (s := s) (t := t) hv hw
      exact exclusive_of (by simp [hless]) (by simp [hequal]) (fun _ _ => hgreater)
    | false =>
      obtain ⟨hequal, hless, hgreater⟩ := pushed_integers (E := E) (s := s) (t := t) hv hw
      have hcases := toInt_sub_cases v.bits w.bits
      unfold Comparison.Fits at hcases
      refine exclusive_of ?_ ?_ ?_
      · rw [hless, hequal, hgreater]
        omega
      · rw [hequal, hgreater]
        omega
      · rw [hless, hequal, hgreater]
        omega

/-- Swapping two integers negates their difference, unless it is the least integer. -/
theorem sub_swap (v w : Word) :
    (0 < (w - v).toInt ↔ (v - w).toInt < 0) ↔ w - v ≠ BitVec.intMin 64 := by
  have hneg : v - w = -(w - v) := by
    rw [BitVec.neg_sub, BitVec.sub_eq_add_neg, BitVec.add_comm]
  have hbounds := word_toInt_bounds (w - v)
  have hmin : w - v = BitVec.intMin 64 ↔ (w - v).toInt = -2 ^ 63 :=
    BitVec.toInt_inj.symm.trans Iff.rfl
  rw [hneg, Ne, hmin, BitVec.toInt_neg, Int.bmod_def]
  norm_cast at hbounds ⊢
  omega

/-- **The compiled tests order strings and integers exactly where `OrderExact` says.** -/
theorem ordered_iff (hv : E.Operand ctx.world v s) (hw : E.Operand ctx.world w t)
    (hexc : ctx.exception = false) :
    E.Ordered fuel ctx frame v w s t ↔ OrderExact v w s t := by
  have hvw (c : Comparison) (b : Bool) : E.Pushes fuel ctx frame c v w b ↔ _ :=
    StringEnv.pushes_iff hv hw hexc c b
  have hwv (c : Comparison) (b : Bool) : E.Pushes fuel ctx frame c w v b ↔ _ :=
    StringEnv.pushes_iff hw hv hexc c b
  have hone : ∃ c ∈ Comparison.exclusive, E.Pushes fuel ctx frame c v w true ∧
      ∀ d ∈ Comparison.exclusive, d ≠ c → E.Pushes fuel ctx frame d v w false := by
    simp only [hvw]
    exact pushed_one v w s t
  unfold OrderExact
  cases hvo : v.isObject with
  | true =>
    obtain ⟨hequal, hless, hgreater⟩ := pushed_string (E := E) (w := w) (s := s) (t := t) hvo
    rw [if_pos rfl]
    cases hwo : w.isObject with
    | true =>
      obtain ⟨hequal', hless', hgreater'⟩ := pushed_string (E := E) (w := v) (s := t) (t := s) hwo
      rw [if_pos rfl]
      constructor
      · intro h
        obtain ⟨h1, h2, h3⟩ := h.strings hvo hwo
        rw [hvw, hless] at h1
        rw [hvw, hequal] at h2
        rw [hvw, hgreater] at h3
        -- the order of the texts would be their order turned around
        rcases lt_trichotomy (cStr s) (cStr t) with hlt | heq | hlt
        · exact absurd (h3.mp hlt) (not_lt_of_gt (lt_of_cStr_lt hlt))
        · exact h2.mp heq
        · exact absurd (h1.mp hlt) (not_lt_of_gt (lt_of_cStr_lt hlt))
      · rintro rfl
        refine ⟨fun _ _ => ?_, ?_, ?_, hone⟩
        · rw [hvw, hvw, hvw, hless, hequal, hgreater]
          simp
        · rw [hvw, hwv, hequal, hequal']
        · rw [hvw, hwv, hless, hgreater']
    | false =>
      obtain ⟨hequal', hless', hgreater'⟩ := pushed_mixed (E := E) (s := t) (t := s) hwo hvo
      rw [if_neg Bool.false_ne_true]
      constructor
      · intro h
        have hswap := h.less_swap
        rw [hvw, hwv, hless, hgreater'] at hswap
        exact hswap.mpr rfl
      · intro hlt
        refine ⟨fun _ hw' => absurd (hwo.symm.trans hw') Bool.false_ne_true, ?_, ?_, hone⟩
        · rw [hvw, hwv, hequal, hequal']
          exact iff_of_false (ne_of_gt hlt) Bool.false_ne_true
        · rw [hvw, hwv, hless, hgreater']
          exact iff_of_true hlt rfl
  | false =>
    rw [if_neg Bool.false_ne_true]
    have hnot (hv' : v.isObject = true) : False := Bool.false_ne_true (hvo.symm.trans hv')
    cases hwo : w.isObject with
    | true =>
      obtain ⟨hequal, hless, hgreater⟩ := pushed_mixed (E := E) (s := s) (t := t) hvo hwo
      obtain ⟨hequal', hless', hgreater'⟩ := pushed_string (E := E) (w := v) (s := t) (t := s) hwo
      rw [if_pos rfl]
      constructor
      · intro h
        have hcomm := h.equal_comm
        have hswap := h.less_swap
        rw [hvw, hwv, hequal, hequal'] at hcomm
        rw [hvw, hwv, hless, hgreater'] at hswap
        have hne : cStr t ≠ cStr s := fun heq => Bool.false_ne_true (hcomm.mpr heq)
        have hnlt : ¬cStr t < cStr s := fun hlt => Bool.false_ne_true (hswap.mpr hlt)
        exact lt_of_le_of_ne (le_of_not_gt hnlt) (Ne.symm hne)
      · intro hlt
        refine ⟨fun hv' _ => (hnot hv').elim, ?_, ?_, hone⟩
        · rw [hvw, hwv, hequal, hequal']
          exact iff_of_false Bool.false_ne_true (ne_of_gt hlt)
        · rw [hvw, hwv, hless, hgreater']
          exact iff_of_false Bool.false_ne_true (not_lt_of_gt hlt)
    | false =>
      obtain ⟨hequal, hless, hgreater⟩ := pushed_integers (E := E) (s := s) (t := t) hvo hwo
      obtain ⟨hequal', hless', hgreater'⟩ := pushed_integers (E := E) (s := t) (t := s) hwo hvo
      rw [if_neg Bool.false_ne_true, ← sub_swap]
      constructor
      · intro h
        have hswap := h.less_swap
        rw [hvw, hwv, hless, hgreater'] at hswap
        exact hswap
      · intro hswap
        refine ⟨fun hv' _ => (hnot hv').elim, ?_, ?_, hone⟩
        · rw [hvw, hwv, hequal, hequal']
          exact eq_comm
        · rw [hvw, hwv, hless, hgreater']
          exact hswap

end

/-! ## Three strings -/

/-- `wcscmp` by the order of the code points. -/
def compareTexts (s t : List Char) : Word := if s = t then 0 else if s < t then -1 else 1

/-- The strings `"a"`, `"b"` and `"5"` at 16, 24 and 32. -/
def textAt (obj : Word) : Option String :=
  if obj = 16 then some "a" else if obj = 24 then some "b" else if obj = 32 then some "5" else none

def textBase : Env Unit :=
  { oneClassEnv [plainClass "system.lang.String" [("operator==", 8)]] (fun _ => none) with
    getString := fun _ obj => textAt obj
    toString := fun v => String.ofList (int642wstr v.bits) }

def textEnv : StringEnv Unit where
  toEnv := { textBase with
    function := fun _ => some (.native (StringNative.eqOperator textBase 1 compareTexts)) }
  stringClass := 1
  eqOperator := 8
  wcscmp := compareTexts
  wcscmp_zero s t := by
    unfold compareTexts
    split
    · next heq => simp [heq]
    · next hne => split <;> simp [hne]
  wcscmp_neg s t := by
    unfold compareTexts
    split
    · next heq => simp [heq]
    · next hne => split <;> simp [*]
  function_eqOperator := rfl
  chain_string _ := ⟨_, rfl, rfl⟩
  toString_integer _ := String.toList_ofList

theorem textEnv_string {obj : Word} {text : String} (hobj : obj ≠ 0) (h : textAt obj = some text) :
    textEnv.Operand () (Value.object obj) text.toList := .string hobj rfl h

def textContext : Context Unit := ⟨[], false, Value.zero, ()⟩

/-- `5 < "b"`, since the text of 5 is `"5"`. -/
theorem ordered_iff_five :
    textEnv.Ordered 0 textContext throwingFrame (Value.integer 5) (Value.object 24) (int642wstr 5)
      "b".toList := by
  refine (ordered_iff (.integer 5) (textEnv_string (by decide) rfl) rfl).mpr ?_
  show cStr (int642wstr 5) < cStr "b".toList
  decide

/-- `"a" < "b"` pushes 0 and `"a" > "b"` pushes 1; `5 == "5"` pushes 0 and `"5" == 5` pushes 1. -/
theorem strings_not_ordered :
    textEnv.Pushes 0 textContext throwingFrame .less (Value.object 16) (Value.object 24) false ∧
      textEnv.Pushes 0 textContext throwingFrame .greater (Value.object 16) (Value.object 24) true ∧
      textEnv.Pushes 0 textContext throwingFrame .equal (Value.integer 5) (Value.object 32) false ∧
      textEnv.Pushes 0 textContext throwingFrame .equal (Value.object 32) (Value.integer 5) true ∧
      ¬textEnv.Ordered 0 textContext throwingFrame (Value.object 16) (Value.object 24) "a".toList
        "b".toList ∧
      ¬textEnv.Ordered 0 textContext throwingFrame (Value.integer 5) (Value.object 32)
        (int642wstr 5) "5".toList := by
  have ha : textEnv.Operand () (Value.object 16) "a".toList := textEnv_string (by decide) rfl
  have hb : textEnv.Operand () (Value.object 24) "b".toList := textEnv_string (by decide) rfl
  have h5 : textEnv.Operand () (Value.object 32) "5".toList := textEnv_string (by decide) rfl
  have hi : textEnv.Operand () (Value.integer 5) (int642wstr 5) := .integer 5
  have hless : textEnv.Pushes 0 textContext throwingFrame .less (Value.object 16) (Value.object 24)
      false := (StringEnv.pushes_iff ha hb rfl _ _).mpr (by decide)
  have hequal : textEnv.Pushes 0 textContext throwingFrame .equal (Value.integer 5)
      (Value.object 32) false := (StringEnv.pushes_iff hi h5 rfl _ _).mpr (by decide)
  have hequal' : textEnv.Pushes 0 textContext throwingFrame .equal (Value.object 32)
      (Value.integer 5) true := (StringEnv.pushes_iff h5 hi rfl _ _).mpr (by decide)
  refine ⟨hless, (StringEnv.pushes_iff ha hb rfl _ _).mpr (by decide), hequal, hequal',
    fun h => ?_, fun h => ?_⟩
  · have htrue := (h.strings rfl rfl).1.mpr (by decide)
    rw [StringEnv.pushes_iff ha hb rfl] at hless htrue
    exact Bool.false_ne_true (hless.symm.trans htrue)
  · have htrue := h.equal_comm.mpr hequal'
    rw [StringEnv.pushes_iff hi h5 rfl] at hequal htrue
    exact Bool.false_ne_true (hequal.symm.trans htrue)

end B0rk
