import B0rk.Parser.Written
import B0rk.Parser.Proofs.Items

set_option autoImplicit false

/-! # Reading what is written

From tokens to items: one lemma for each kind of item, then sequences and formulas. -/

namespace B0rk

open Attempt (Ok)

variable {World : Type} {P : ParserEnv World} {pos fuel brackets : ℕ} {world : World}
  {endToken : TokenType} {token next : Token} {toks rest : List Token} {items : List ExpressionItem}
  {t : ParserState World}

/-! ## Tokens -/

/-- The tokens from a position on. -/
def Ahead (P : ParserEnv World) (pos : ℕ) (toks : List Token) : Prop := P.tokens.drop pos = toks

theorem Ahead.head (h : Ahead P pos (token :: rest)) : P.tokens[pos]? = some token := by
  rw [← List.head?_drop, show P.tokens.drop pos = token :: rest from h]
  rfl

theorem Ahead.tail (h : Ahead P pos (token :: rest)) : Ahead P (pos + 1) rest := by
  show P.tokens.drop (pos + 1) = rest
  rw [← List.tail_drop, show P.tokens.drop pos = token :: rest from h]
  rfl

theorem Ahead.behind (h : Ahead P pos (toks ++ rest)) : Ahead P (pos + toks.length) rest := by
  show P.tokens.drop (pos + toks.length) = rest
  rw [← List.drop_drop, show P.tokens.drop pos = toks ++ rest from h, List.drop_left]

theorem nextToken_ok (h : Ahead P pos (token :: rest)) :
    Ok (nextToken P) ⟨pos, world⟩ token ⟨pos + 1, world⟩ := by
  show nextToken P ⟨pos, world⟩ = _
  simp [nextToken, h.head]

theorem rewind_ok (count : ℕ) :
    Ok (rewind count) (⟨pos + count, world⟩ : ParserState World) () ⟨pos, world⟩ := by
  simp [rewind]

theorem findClass_none {name : String} (h : (P.findClass world name).1 = 0) :
    ∃ found, Ok (findClass P name) ⟨pos, world⟩ 0 ⟨pos, found⟩ := by
  have hfound : Ok (findClass P name) ⟨pos, world⟩ (P.findClass world name).1
      ⟨pos, (P.findClass world name).2⟩ := rfl
  rw [h] at hfound
  exact ⟨_, hfound⟩

/-! ## Operands of one token -/

/-- The loop that looks for classes comes back to where it began, if it finds none. -/
theorem probeClass_none {name : String} {count : ℕ}
    (hname : ∀ world suffix, (P.findClass world (name ++ "." ++ suffix)).1 = 0)
    (hahead : Ahead P pos toks)
    (hends : token.type ≠ .tokIdentifier ∨
      ∃ x ∈ toks, x.type ≠ .tokIdentifier ∧ x.type ≠ .tokDot)
    (hfuel : toks.length < fuel) :
    ∃ n world', Ok (probeClass P fuel name token count) ⟨pos, world⟩ (0, count + n)
      ⟨pos + n, world'⟩ := by
  induction fuel generalizing name token pos count world toks with
  | zero => omega
  | succ fuel ih =>
    by_cases hid : token.type = .tokIdentifier
    · obtain ⟨x, hx, hxid, hxdot⟩ := hends.resolve_left (fun h => h hid)
      have hname' (world : World) (suffix : String) :
          (P.findClass world (name ++ "." ++ token.string ++ "." ++ suffix)).1 = 0 := by
        have hassoc : name ++ "." ++ token.string ++ "." ++ suffix =
            name ++ "." ++ (token.string ++ "." ++ suffix) := by
          simp only [String.append_assoc]
        rw [hassoc]
        exact hname world _
      obtain ⟨found, hfound⟩ : ∃ found, Ok (findClass P (name ++ "." ++ token.string))
          ⟨pos, world⟩ 0 ⟨pos, found⟩ := findClass_none (hname world token.string)
      rw [probeClass, if_neg (fun h => h hid)]
      rcases toks with _ | ⟨next, toks⟩
      · cases hx
      by_cases hdot : next.type = .tokDot
      · -- one more part of the name
        have hx : x ∈ toks := (List.mem_cons.mp hx).resolve_left fun h => hxdot (h ▸ hdot)
        rcases toks with _ | ⟨part, toks⟩
        · cases hx
        have hends : part.type ≠ .tokIdentifier ∨
            ∃ x ∈ toks, x.type ≠ .tokIdentifier ∧ x.type ≠ .tokDot := by
          rcases List.mem_cons.mp hx with rfl | hx
          · exact .inl hxid
          · exact .inr ⟨x, hx, hxid, hxdot⟩
        have hfuel : toks.length < fuel := by
          simp only [List.length_cons] at hfuel
          omega
        obtain ⟨n, world', h⟩ : ∃ n world', Ok (probeClass P fuel (name ++ "." ++ token.string)
            part (count + 2)) ⟨pos + 1 + 1, found⟩ (0, count + 2 + n)
            ⟨pos + 1 + 1 + n, world'⟩ := ih hname' hahead.tail.tail hends hfuel
        refine ⟨n + 2, world', hfound.bind ?_⟩
        rw [if_neg (fun h => h rfl)]
        refine (nextToken_ok hahead).bind ?_
        rw [if_neg (fun h => h hdot)]
        refine (nextToken_ok hahead.tail).bind ?_
        convert h using 2 <;> omega
      · refine ⟨1, found, hfound.bind ?_⟩
        rw [if_neg (fun h => h rfl)]
        refine (nextToken_ok hahead).bind ?_
        rw [if_pos hdot]
        exact Attempt.pure_ok.mpr ⟨rfl, rfl⟩
    · rw [probeClass, if_pos hid]
      exact ⟨0, world, Attempt.pure_ok.mpr ⟨rfl, rfl⟩⟩

/-- A name in front of a dot that is neither imported nor begins the name of a class. -/
theorem parseQualifier_none (hclass : token.NoClass P) (hahead : Ahead P (pos + 2) (next :: toks))
    (hends : ∃ x ∈ next :: toks, x.type ≠ .tokIdentifier ∧ x.type ≠ .tokDot)
    (hfuel : toks.length < fuel) :
    ∃ world', Ok (parseQualifier P fuel token.string) ⟨pos + 2, world⟩ (0, token.string)
      ⟨pos + 1, world'⟩ := by
  have hends : next.type ≠ .tokIdentifier ∨ ∃ x ∈ toks, x.type ≠ .tokIdentifier ∧ x.type ≠ .tokDot := by
    obtain ⟨x, hx, hxid, hxdot⟩ := hends
    rcases List.mem_cons.mp hx with rfl | hx
    · exact .inl hxid
    · exact .inr ⟨x, hx, hxid, hxdot⟩
  obtain ⟨n, world', hprobe⟩ : ∃ n world', Ok (probeClass P fuel token.string next 2)
      ⟨pos + 2 + 1, world⟩ (0, 2 + n) ⟨pos + 2 + 1 + n, world'⟩ :=
    probeClass_none hclass.2 hahead.tail hends hfuel
  refine ⟨world', ?_⟩
  rw [parseQualifier]
  refine (nextToken_ok hahead).bind ?_
  rw [hclass.1]
  refine hprobe.bind ?_
  dsimp only
  rw [if_neg (fun h => h rfl)]
  have hback : pos + 2 + 1 + n = pos + 1 + (2 + n) := by omega
  rw [hback]
  exact (rewind_ok _).bind (Attempt.pure_ok.mpr ⟨rfl, rfl⟩)

/-- The end of `parseExpressionValue` for a name that no bracket follows. -/
theorem variable_ok {name : String} (hahead : Ahead P pos (next :: toks))
    (hround : next.type ≠ .tokBracketLeft) (hsquare : next.type ≠ .tokSquareBracketLeft) :
    Ok (do
      let next ← nextToken P
      if next.type = .tokBracketLeft then do
        rewind 1
        let params ← parseExpressionList P fuel
        pure (Expression.call .unknown 0 name params)
      else if next.type = .tokSquareBracketLeft then do
        let index ← parseExpression P fuel .tokSquareBracketRight
        let _ ← expect P .tokSquareBracketRight
        pure (Expression.array .unknown 0 name index)
      else do
        rewind 1
        pure (Expression.var .unknown 0 name)) (⟨pos, world⟩ : ParserState World)
      (.var .unknown 0 name) ⟨pos, world⟩ := by
  refine (nextToken_ok hahead).bind ?_
  rw [if_neg hround, if_neg hsquare]
  exact (rewind_ok 1).bind (Attempt.pure_ok.mpr ⟨rfl, rfl⟩)

/-- An operand of one token that no dot follows. -/
theorem parseExpressionValue_plain (hoperand : token.IsOperand)
    (hnext : next.type ≠ .tokBracketLeft ∧ next.type ≠ .tokSquareBracketLeft)
    (hdot : token.type = .tokIdentifier → next.type ≠ .tokDot)
    (hahead : Ahead P pos (token :: next :: toks)) :
    Ok (parseExpressionValue P (fuel + 1)) ⟨pos, world⟩ token.operand ⟨pos + 1, world⟩ := by
  rw [parseExpressionValue]
  refine (nextToken_ok hahead).bind ?_
  rcases hoperand with htype | htype | htype | htype | ⟨htype, hstring⟩
  all_goals rw [Token.operand]
  all_goals simp only [htype]
  · refine (nextToken_ok hahead.tail).bind ?_
    rw [if_neg (hdot htype), bind_assoc]
    exact (rewind_ok 1).bind (variable_ok hahead.tail hnext.1 hnext.2)
  · exact Attempt.pure_ok.mpr ⟨rfl, rfl⟩
  · exact Attempt.pure_ok.mpr ⟨rfl, rfl⟩
  · exact Attempt.pure_ok.mpr ⟨rfl, rfl⟩
  · rw [if_pos hstring]
    exact Attempt.pure_ok.mpr ⟨rfl, rfl⟩

/-- A name in front of a dot: the parser looks for classes, and then the name is a variable. -/
theorem parseExpressionValue_name (htype : token.type = .tokIdentifier)
    (hdot : next.type = .tokDot) (hclass : token.NoClass P)
    (hahead : Ahead P pos (token :: next :: toks))
    (hends : ∃ x ∈ toks, x.type ≠ .tokIdentifier ∧ x.type ≠ .tokDot) (hfuel : toks.length ≤ fuel) :
    ∃ world', Ok (parseExpressionValue P (fuel + 1)) ⟨pos, world⟩ token.operand
      ⟨pos + 1, world'⟩ := by
  rcases toks with _ | ⟨part, toks⟩
  · obtain ⟨x, hx, -⟩ := hends
    cases hx
  obtain ⟨world', hqualifier⟩ : ∃ world', Ok (parseQualifier P fuel token.string)
      ⟨pos + 2, world⟩ (0, token.string) ⟨pos + 1, world'⟩ :=
    parseQualifier_none hclass hahead.tail.tail hends hfuel
  have hround : next.type ≠ .tokBracketLeft := by rw [hdot]; decide
  have hsquare : next.type ≠ .tokSquareBracketLeft := by rw [hdot]; decide
  refine ⟨world', ?_⟩
  rw [parseExpressionValue]
  refine (nextToken_ok hahead).bind ?_
  rw [Token.operand]
  simp only [htype]
  refine (nextToken_ok hahead.tail).bind ?_
  rw [if_pos hdot]
  exact hqualifier.bind (variable_ok hahead.tail hround hsquare)

/-! ## Items -/

theorem readItems_stop (hstop : token.Stops endToken) (hahead : Ahead P pos (token :: rest)) :
    Ok (readItems P (fuel + 1) endToken 0) ⟨pos, world⟩ [] ⟨pos, world⟩ := by
  rw [readItems]
  refine (nextToken_ok hahead).bind ?_
  rw [if_pos]
  · exact (rewind_ok 1).bind (Attempt.pure_ok.mpr ⟨rfl, rfl⟩)
  · rcases hstop with htype | htype | htype | ⟨hend, htype⟩
    · exact .inl ⟨htype, rfl⟩
    · exact .inr (.inl htype)
    · exact .inr (.inr (.inl htype))
    · rw [htype, hend]
      decide

/-- The tokens that never end the loop, a round bracket apart. -/
def TokenType.IsInside (type : TokenType) : Prop :=
  type ∉ [TokenType.tokSemicolon, .tokComma, .tokSquareBracketRight]

instance (type : TokenType) : Decidable type.IsInside := inferInstanceAs (Decidable (¬_))

/-- The loop goes on behind them. -/
theorem continues {type : TokenType} (hend : endToken.IsEnd) (hinside : type.IsInside)
    (hround : type = .tokBracketRight → brackets ≠ 0) :
    ¬(type = .tokBracketRight ∧ brackets = 0 ∨ type = .tokSemicolon ∨ type = .tokComma ∨
      type ≠ .tokBracketLeft ∧ type ≠ .tokBracketRight ∧ type ≠ .tokAny ∧ type = endToken) := by
  simp only [TokenType.IsInside, List.mem_cons, List.not_mem_nil, or_false, not_or] at hinside
  obtain ⟨hsemicolon, hcomma, hsquare⟩ := hinside
  rintro (⟨htype, hzero⟩ | htype | htype | ⟨-, -, hany, htype⟩)
  · exact hround htype hzero
  · exact hsemicolon htype
  · exact hcomma htype
  · rcases hend with rfl | rfl
    · exact hany htype
    · exact hsquare htype

theorem readItems_operator {op : OpDesc} (hend : endToken.IsEnd) (hop : op ∈ opTable)
    (htype : token.type = op.token) (hahead : Ahead P pos (token :: rest))
    (h : Ok (readItems P fuel endToken brackets) ⟨pos + 1, world⟩ items t) :
    Ok (readItems P (fuel + 1) endToken brackets) ⟨pos, world⟩ (.operator op :: items) t := by
  have htable : ∀ op ∈ opTable, opTable.find? (fun desc => desc.token == op.token) = some op ∧
      op.token.IsInside ∧ op.token ≠ .tokBracketRight := by
    decide
  obtain ⟨hfind, hinside, hround⟩ := htable op hop
  rw [readItems]
  refine (nextToken_ok hahead).bind ?_
  rw [htype, if_neg (continues hend hinside fun h => absurd h hround), hfind]
  exact h.bind (Attempt.pure_ok.mpr ⟨rfl, rfl⟩)

theorem readItems_bracketLeft (hend : endToken.IsEnd) (htype : token.type = .tokBracketLeft)
    (hahead : Ahead P pos (token :: rest))
    (h : Ok (readItems P fuel endToken (brackets + 1)) ⟨pos + 1, world⟩ items t) :
    Ok (readItems P (fuel + 1) endToken brackets) ⟨pos, world⟩ (.bracketLeft :: items) t := by
  have hfind : opTable.find? (fun desc => desc.token == TokenType.tokBracketLeft) = none := by
    decide
  rw [readItems]
  refine (nextToken_ok hahead).bind ?_
  have hround : TokenType.tokBracketLeft ≠ .tokBracketRight := by decide
  rw [htype, if_neg (continues hend (by decide) fun h => absurd h hround), hfind]
  exact h.bind (Attempt.pure_ok.mpr ⟨rfl, rfl⟩)

theorem readItems_bracketRight (hend : endToken.IsEnd) (htype : token.type = .tokBracketRight)
    (hahead : Ahead P pos (token :: rest))
    (h : Ok (readItems P fuel endToken brackets) ⟨pos + 1, world⟩ items t) :
    Ok (readItems P (fuel + 1) endToken (brackets + 1)) ⟨pos, world⟩ (.bracketRight :: items) t := by
  have hfind : opTable.find? (fun desc => desc.token == TokenType.tokBracketRight) = none := by
    decide
  rw [readItems]
  refine (nextToken_ok hahead).bind ?_
  rw [htype, if_neg (continues hend (by decide) fun _ => Nat.succ_ne_zero brackets), hfind]
  exact h.bind (Attempt.pure_ok.mpr ⟨rfl, rfl⟩)

theorem Token.IsOperand.type_mem (h : token.IsOperand) : token.type ∈
    [TokenType.tokIdentifier, .tokInteger, .tokDouble, .tokString, .tokLiteral] := by
  rcases h with h | h | h | h | ⟨h, -⟩ <;> rw [h] <;> decide

theorem readItems_operand {expr : Expression} {s t' : ParserState World} (hend : endToken.IsEnd)
    (hoperand : token.IsOperand) (hahead : Ahead P pos (token :: rest))
    (hvalue : Ok (parseExpressionValue P fuel) ⟨pos, world⟩ expr s)
    (h : Ok (readItems P fuel endToken brackets) s items t') :
    Ok (readItems P (fuel + 1) endToken brackets) ⟨pos, world⟩ (.operand expr :: items) t' := by
  have hoperands : ∀ type ∈ [TokenType.tokIdentifier, .tokInteger, .tokDouble, .tokString,
      .tokLiteral], opTable.find? (fun desc => desc.token == type) = none ∧ type.IsInside ∧
        type ≠ .tokBracketLeft ∧ type ≠ .tokBracketRight := by
    decide
  obtain ⟨hfind, hinside, hleft, hright⟩ := hoperands token.type hoperand.type_mem
  rw [readItems]
  refine (nextToken_ok hahead).bind ?_
  rw [if_neg (continues hend hinside fun h => absurd h hright), hfind]
  simp only [if_neg hleft, if_neg hright]
  exact (rewind_ok 1).bind (hvalue.bind (h.bind (Attempt.pure_ok.mpr ⟨rfl, rfl⟩)))

/-! ## Sequences -/

/-- A token that ends an expression is neither a name nor a dot, nor does it open a bracket. -/
theorem Token.Stops.type_ne (h : token.Stops endToken) :
    (token.type ≠ .tokIdentifier ∧ token.type ≠ .tokDot) ∧
      token.type ≠ .tokBracketLeft ∧ token.type ≠ .tokSquareBracketLeft := by
  rcases h with h | h | h | ⟨-, h⟩ <;> rw [h] <;> decide

/-- Operators open no bracket, and only `.` is a dot. -/
theorem opTable_token_ne : ∀ desc ∈ opTable,
    (desc.token ≠ .tokBracketLeft ∧ desc.token ≠ .tokSquareBracketLeft) ∧
      (desc.oper ≠ .reference → desc.token ≠ .tokDot) := by
  decide

theorem OperatorToken.type_ne (op : OperatorToken) :
    op.token.type ≠ .tokBracketLeft ∧ op.token.type ≠ .tokSquareBracketLeft := by
  rw [op.type]
  exact (opTable_token_ne op.operator.desc op.operator.known).1

/-- The items behind an operand. -/
def itemsBehind (rest : List (OperatorToken × OperandToken)) : List ExpressionItem :=
  rest.flatMap fun (op, operand) => [.operator op.operator.desc, .operand operand.token.operand]

def tokensBehind (rest : List (OperatorToken × OperandToken)) : List Token :=
  rest.flatMap fun (op, operand) => [op.token, operand.token]

theorem readItems_sequence {operand : OperandToken} {behind : List (OperatorToken × OperandToken)}
    {stop : Token} {after : List Token} (hend : endToken.IsEnd) (hstop : stop.Stops endToken)
    (hnames : Sequence.NoClasses P operand behind)
    (hahead : Ahead P pos (operand.token :: (tokensBehind behind ++ stop :: after)))
    (hfuel : (tokensBehind behind ++ stop :: after).length + 2 ≤ fuel) :
    ∃ world', Ok (readItems P fuel endToken 0) ⟨pos, world⟩
      (.operand operand.token.operand :: itemsBehind behind)
      ⟨pos + 1 + (tokensBehind behind).length, world'⟩ := by
  obtain ⟨⟨hid, hdot⟩, hround, hsquare⟩ := hstop.type_ne
  induction behind generalizing operand pos world fuel with
  | nil =>
    obtain ⟨n, rfl⟩ : ∃ n, fuel = n + 2 := ⟨fuel - 2, by omega⟩
    have hvalue : Ok (parseExpressionValue P (n + 1)) ⟨pos, world⟩ operand.token.operand
        ⟨pos + 1, world⟩ :=
      parseExpressionValue_plain operand.isOperand ⟨hround, hsquare⟩ (fun _ => hdot) hahead
    exact ⟨world, readItems_operand hend operand.isOperand hahead hvalue
      (readItems_stop hstop hahead.tail)⟩
  | cons next behind ih =>
    obtain ⟨op, operand'⟩ := next
    obtain ⟨hname, hnames⟩ := hnames
    obtain ⟨n, rfl⟩ : ∃ n, fuel = n + 2 := ⟨fuel - 2, by omega⟩
    have hahead : Ahead P pos
        (operand.token :: op.token :: operand'.token :: (tokensBehind behind ++ stop :: after)) :=
      hahead
    have hlen : (operand'.token :: (tokensBehind behind ++ stop :: after)).length + 1 ≤ n := by
      simp only [tokensBehind, List.flatMap_cons, List.cons_append, List.nil_append,
        List.length_cons] at hfuel ⊢
      omega
    obtain ⟨world₁, hvalue⟩ : ∃ world₁, Ok (parseExpressionValue P (n + 1)) ⟨pos, world⟩
        operand.token.operand ⟨pos + 1, world₁⟩ := by
      by_cases hname' : op.token.type = .tokDot ∧ operand.token.type = .tokIdentifier
      · obtain ⟨hdot', hid'⟩ := hname'
        have hends : ∃ x ∈ operand'.token :: (tokensBehind behind ++ stop :: after),
            x.type ≠ .tokIdentifier ∧ x.type ≠ .tokDot := ⟨stop, by simp, hid, hdot⟩
        exact parseExpressionValue_name hid' hdot' (hname hdot' hid') hahead hends (by omega)
      · exact ⟨world, parseExpressionValue_plain operand.isOperand op.type_ne
          (fun hid' hdot' => hname' ⟨hdot', hid'⟩) hahead⟩
    obtain ⟨world', hrest⟩ := ih hnames hahead.tail.tail
      (by simp only [List.length_cons] at hlen; omega)
    have hitems := readItems_operand hend operand.isOperand hahead hvalue
      (readItems_operator hend op.operator.known op.type hahead.tail hrest)
    have hpos : pos + 1 + (tokensBehind ((op, operand') :: behind)).length =
        pos + 1 + 1 + 1 + (tokensBehind behind).length := by
      simp only [tokensBehind, List.flatMap_cons, List.length_append, List.length_cons,
        List.length_nil]
      omega
    rw [hpos]
    exact ⟨world', hitems⟩

/-! ## Formulas -/

/-- A formula, with what may follow a name behind it. -/
theorem readItems_formula {formula : Formula} (hend : endToken.IsEnd)
    (hprinted : formula.Printed toks) (hahead : Ahead P pos (toks ++ next :: rest))
    (hnext : (next.type ≠ .tokBracketLeft ∧ next.type ≠ .tokSquareBracketLeft) ∧
      next.type ≠ .tokDot) (hfuel : 0 < fuel)
    (h : Ok (readItems P fuel endToken brackets) ⟨pos + toks.length, world⟩ items t) :
    Ok (readItems P (fuel + toks.length) endToken brackets) ⟨pos, world⟩ (formula.items ++ items)
      t := by
  induction hprinted generalizing pos fuel brackets next rest items with
  | @var token htype | @integer token htype | @string token htype =>
    have hoperand : token.IsOperand := by simp [Token.IsOperand, htype]
    obtain ⟨n, rfl⟩ : ∃ n, fuel = n + 1 := ⟨fuel - 1, by omega⟩
    have hvalue : Ok (parseExpressionValue P (n + 1)) ⟨pos, world⟩ token.operand
        ⟨pos + 1, world⟩ :=
      parseExpressionValue_plain hoperand hnext.1 (fun _ => hnext.2) hahead
    rw [Token.operand, htype] at hvalue
    exact readItems_operand hend hoperand hahead hvalue h
  | @binary op noReference left right lefts rights bracketLeft operator bracketRight hleft hop hright _ _ ihl
      ihr =>
    have hahead : Ahead P pos (bracketLeft ::
        (lefts ++ operator :: (rights ++ bracketRight :: next :: rest))) := by
      simpa using hahead
    have hbracket : (bracketRight.type ≠ .tokBracketLeft ∧
        bracketRight.type ≠ .tokSquareBracketLeft) ∧ bracketRight.type ≠ .tokDot := by
      rw [hright]
      decide
    have hoperator : (operator.type ≠ .tokBracketLeft ∧
        operator.type ≠ .tokSquareBracketLeft) ∧ operator.type ≠ .tokDot := by
      rw [hop]
      exact (opTable_token_ne op.desc op.known).imp_right fun h => h noReference
    have hop' := hahead.tail.behind
    have hright' := hop'.tail.behind
    have hlen : pos + (bracketLeft :: (lefts ++ operator :: (rights ++ [bracketRight]))).length =
        pos + 1 + lefts.length + 1 + rights.length + 1 := by
      simp only [List.length_cons, List.length_append, List.length_nil]
      omega
    have hfuel' : fuel + (bracketLeft :: (lefts ++ operator :: (rights ++ [bracketRight]))).length =
        fuel + 1 + rights.length + 1 + lefts.length + 1 := by
      simp only [List.length_cons, List.length_append, List.length_nil]
      omega
    have hitems : (Formula.binary op noReference left right).items ++ items = .bracketLeft ::
        (left.items ++ .operator op.desc :: (right.items ++ .bracketRight :: items)) := by
      simp [Formula.items]
    rw [hlen] at h
    rw [hfuel', hitems]
    refine readItems_bracketLeft hend hleft hahead (ihl hahead.tail hoperator (by omega) ?_)
    refine readItems_operator hend op.known hop hop' (ihr hop'.tail hbracket (by omega) ?_)
    exact readItems_bracketRight hend hright hright' h
  | @not right rights bracketLeft operator bracketRight hleft hop hright _ ih =>
    have hahead : Ahead P pos (bracketLeft :: operator ::
        (rights ++ bracketRight :: next :: rest)) := by
      simpa using hahead
    have hbracket : (bracketRight.type ≠ .tokBracketLeft ∧
        bracketRight.type ≠ .tokSquareBracketLeft) ∧ bracketRight.type ≠ .tokDot := by
      rw [hright]
      decide
    have hnot : notDesc ∈ opTable := by decide
    have hright' := hahead.tail.tail.behind
    have hlen : pos + (bracketLeft :: operator :: (rights ++ [bracketRight])).length =
        pos + 1 + 1 + rights.length + 1 := by
      simp only [List.length_cons, List.length_append, List.length_nil]
      omega
    have hfuel' : fuel + (bracketLeft :: operator :: (rights ++ [bracketRight])).length =
        fuel + 1 + rights.length + 1 + 1 := by
      simp only [List.length_cons, List.length_append, List.length_nil]
      omega
    have hitems : (Formula.not right).items ++ items =
        .bracketLeft :: .operator notDesc :: (right.items ++ .bracketRight :: items) := by
      simp [Formula.items]
    rw [hlen] at h
    rw [hfuel', hitems]
    refine readItems_bracketLeft hend hleft hahead (readItems_operator hend hnot hop hahead.tail ?_)
    refine ih hahead.tail.tail hbracket (by omega) ?_
    exact readItems_bracketRight hend hright hright' h

end B0rk
