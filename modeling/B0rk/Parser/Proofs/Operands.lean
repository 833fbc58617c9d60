import B0rk.Parser.Grammar
import B0rk.Parser.Proofs.Written
import Mathlib.Order.Filter.AtTopBot.Basic

set_option autoImplicit false

/-! # Reading operands and operations

What the loop of `parseExpression` reads of an operand or an operation, and what `buildTree` makes of it:
an operand goes to the output queue as a whole, and an operation leaves its operator on the stack. -/

namespace B0rk

open Attempt (Ok)
open Filter

variable {World : Type} {P : ParserEnv World}

/-! ## Enough fuel -/

theorem eventually_of_succ {p : ℕ → Prop} (h : ∀ᶠ fuel in atTop, p (fuel + 1)) :
    ∀ᶠ fuel in atTop, p fuel := by
  obtain ⟨n, h⟩ := eventually_atTop.mp h
  refine eventually_atTop.mpr ⟨n + 1, fun fuel hfuel => ?_⟩
  obtain ⟨m, rfl⟩ : ∃ m, fuel = m + 1 := ⟨fuel - 1, by omega⟩
  exact h m (by omega)

/-- With enough fuel, a parsing function comes from one token to another one. -/
def Parses {α : Type} (parse : ℕ → Parse World α) (pos : ℕ) (w : World) (a : α) (pos' : ℕ)
    (w' : World) : Prop :=
  ∀ᶠ fuel in atTop, Ok (parse fuel) ⟨pos, w⟩ a ⟨pos', w'⟩

/-! ## Tokens that begin or follow something -/

theorem expect_run {pos : ℕ} {w : World} {token : Token} {rest : List Token} {type : TokenType}
    (htype : token.type = type) (hahead : Ahead P pos (token :: rest)) :
    Ok (expect P type) ⟨pos, w⟩ token ⟨pos + 1, w⟩ := by
  refine (nextToken_ok hahead).bind ?_
  rw [if_pos htype]
  exact Attempt.pure_ok.mpr ⟨rfl, rfl⟩

theorem rewind_run {w : World} (pos count : ℕ) :
    Ok (rewind count) (⟨pos + count, w⟩ : ParserState World) () ⟨pos, w⟩ := rewind_ok count

theorem moreTokens_run {pos : ℕ} {w : World} {token : Token} {rest : List Token}
    (hahead : Ahead P pos (token :: rest)) :
    Ok (moreTokens P) ⟨pos, w⟩ true ⟨pos, w⟩ := by
  have hlt : pos < P.tokens.length := (List.getElem?_eq_some_iff.mp hahead.head).1
  exact Attempt.read_ok.mpr ⟨decide_eq_true hlt, rfl⟩

/-- What may be behind the tokens of an operand: nothing that would go on with it. -/
structure Behind (toks : List Token) (next : Token) : Prop where
  round : next.type ≠ .tokBracketLeft
  square : next.type ≠ .tokSquareBracketLeft
  dot : next.type = .tokDot → ∀ token, toks = [token] → token.type ≠ .tokIdentifier

/-- What may be behind any operand. -/
structure Ends (next : Token) : Prop where
  round : next.type ≠ .tokBracketLeft
  square : next.type ≠ .tokSquareBracketLeft
  dot : next.type ≠ .tokDot

theorem Ends.behind {next : Token} (h : Ends next) (toks : List Token) : Behind toks next :=
  ⟨h.round, h.square, fun hdot => absurd hdot h.dot⟩

theorem Token.Stops.ends {endToken : TokenType} {next : Token} (h : next.Stops endToken) : Ends next :=
  ⟨h.type_ne.2.1, h.type_ne.2.2, h.type_ne.1.2⟩

theorem ends_of_type {next : Token} {type : TokenType} (h : next.type = type)
    (hne : type ≠ .tokBracketLeft ∧ type ≠ .tokSquareBracketLeft ∧ type ≠ .tokDot) : Ends next := by
  rw [← h] at hne
  exact ⟨hne.1, hne.2.1, hne.2.2⟩

/-- The tokens that an operand begins with. -/
def TokenType.BeginsValue (type : TokenType) : Prop :=
  type ∈ [TokenType.tokIdentifier, .tokInteger, .tokDouble, .tokString, .tokLiteral, .tokNew,
    .tokFunction]

instance (type : TokenType) : Decidable type.BeginsValue := inferInstanceAs (Decidable (_ ∈ _))

theorem readItems_value {fuel brackets pos : ℕ} {endToken : TokenType} {w : World} {token : Token}
    {rest : List Token} {expr : Expression} {items : List ExpressionItem} {s t : ParserState World}
    (hend : endToken.IsEnd) (hvalue : token.type.BeginsValue) (hahead : Ahead P pos (token :: rest))
    (hparse : Ok (parseExpressionValue P fuel) ⟨pos, w⟩ expr s)
    (h : Ok (readItems P fuel endToken brackets) s items t) :
    Ok (readItems P (fuel + 1) endToken brackets) ⟨pos, w⟩ (.operand expr :: items) t := by
  have hvalues : ∀ type ∈ [TokenType.tokIdentifier, .tokInteger, .tokDouble, .tokString, .tokLiteral,
      .tokNew, .tokFunction], opTable.find? (fun desc => desc.token == type) = none ∧ type.IsInside ∧
        type ≠ .tokBracketLeft ∧ type ≠ .tokBracketRight := by
    decide
  obtain ⟨hfind, hinside, hleft, hright⟩ := hvalues token.type hvalue
  rw [readItems]
  refine (nextToken_ok hahead).bind ?_
  rw [if_neg (continues hend hinside fun h => absurd h hright), hfind]
  simp only [if_neg hleft, if_neg hright]
  exact (rewind_ok 1).bind (hparse.bind (h.bind (Attempt.pure_ok.mpr ⟨rfl, rfl⟩)))

/-! ## What is read -/

section

variable (P : ParserEnv World) (w : World) (toks : List Token)

/-- An operand is read by `parseExpressionValue`. -/
structure ReadsValue (expr : Expression) (w' : World) : Prop where
  begins : ∃ token rest, toks = token :: rest ∧ token.type.BeginsValue
  parses : ∀ pos next rest, Ahead P pos (toks ++ next :: rest) → Behind toks next →
    Parses (parseExpressionValue P) pos w expr (pos + toks.length) w'

/-- The items that are read by the loop of `parseExpression`, in front of those that follow. -/
def ReadsItems (items : List ExpressionItem) (w' : World) (next : Token) : Prop :=
  ∀ pos brackets endToken rest items' t, endToken.IsEnd → Ahead P pos (toks ++ next :: rest) →
    (∀ᶠ fuel in atTop,
      Ok (readItems P fuel endToken brackets) ⟨pos + toks.length, w'⟩ items' t) →
    ∀ᶠ fuel in atTop, Ok (readItems P fuel endToken brackets) ⟨pos, w⟩ (items ++ items') t

/-- An operand of an operation: it goes to the output queue as a whole. -/
structure ReadsExpr (expr : Expression) (w' : World) (items : List ExpressionItem)
    (entries : List QueueEntry) : Prop where
  reads : ∀ next, Behind toks next → ReadsItems P w toks items w' next
  place : ∀ items' queue operators,
    place (items ++ items') queue operators = place items' (entries ++ queue) operators
  build : ∀ n queue, entries.length ≤ n → buildTree P n (entries ++ queue) = some (expr, queue)

/-- An operation: its operator is left on the stack. -/
structure ReadsOper (expr : Expression) (w' : World) (items : List ExpressionItem) (op : OpDesc)
    (entries : List QueueEntry) : Prop where
  reads : ∀ next, Ends next → ReadsItems P w toks items w' next
  place : ∀ items' queue operators, (∀ top below, operators ≠ some top :: below) →
    place (items ++ items') queue operators = place items' (entries ++ queue) (some op :: operators)
  build : ∀ n queue, entries.length + 1 ≤ n →
    buildTree P n (.operator op :: (entries ++ queue)) = some (expr, queue)

end

variable {w w' w'' : World} {toks toks' : List Token} {expr left right : Expression}
  {items items' : List ExpressionItem} {entries entries' : List QueueEntry} {desc : OpDesc} {operator : Token}

/-- Items in front of others. -/
theorem ReadsItems.append {next next' : Token} {rest : List Token}
    (h : ReadsItems P w toks items w' next) (h' : ReadsItems P w' (next :: rest) items' w'' next') :
    ReadsItems P w (toks ++ next :: rest) (items ++ items') w'' next' := by
  intro pos brackets endToken rest' items'' t hend hahead ht
  have hahead' : Ahead P pos (toks ++ next :: (rest ++ next' :: rest')) := by simpa using hahead
  have hpos : pos + (toks ++ next :: rest).length = pos + toks.length + (next :: rest).length := by
    simp only [List.length_append]
    omega
  rw [hpos] at ht
  rw [List.append_assoc]
  exact h pos brackets endToken _ _ t hend hahead' (h' _ brackets endToken _ _ t hend hahead'.behind ht)

theorem readsItems_operator {next : Token} (hop : desc ∈ opTable) (htype : operator.type = desc.token)
    (h : ReadsItems P w toks items w' next) :
    ReadsItems P w (operator :: toks) (.operator desc :: items) w' next := by
  intro pos brackets endToken rest items' t hend hahead ht
  have hpos : pos + (operator :: toks).length = pos + 1 + toks.length := by
    rw [List.length_cons]
    omega
  rw [hpos] at ht
  refine eventually_of_succ ?_
  filter_upwards [h (pos + 1) brackets endToken rest items' t hend hahead.tail ht] with fuel h
  exact readItems_operator hend hop htype hahead h

/-- No items. -/
theorem readsItems_nil {next : Token} : ReadsItems P w [] [] w next :=
  fun _ _ _ _ _ _ _ _ ht => ht

/-- One operand. -/
theorem ReadsValue.toExpr (h : ReadsValue P w toks expr w') :
    ReadsExpr P w toks expr w' [.operand expr] [.value expr] where
  reads next hnext pos brackets endToken rest items' t hend hahead ht := by
    obtain ⟨token, toks', rfl, hvalue⟩ := h.begins
    refine eventually_of_succ ?_
    filter_upwards [h.parses pos next rest hahead hnext, ht] with fuel hparse ht
    exact readItems_value hend hvalue hahead hparse ht
  place _ _ _ := rfl
  build n queue hn := by
    obtain ⟨m, rfl⟩ : ∃ m, n = m + 1 := ⟨n - 1, by simp at hn; omega⟩
    rfl

/-! ## Operations -/

theorem buildOperation_folded (hassign : desc.token ≠ .tokAddAssign ∧ desc.token ≠ .tokSubAssign) :
    buildOperation P desc (some left) (some right) =
      some (foldedOperation P desc.oper left right) := by
  unfold foldedOperation
  cases hfold : foldLiterals P desc.oper left right with
  | some expr => exact buildOperation_folds hfold
  | none => exact buildOperation_plain hfold (not_or.mpr hassign)

/-- The tree of an operation with two operands. -/
theorem buildTree_binary (hoperands : desc.hasLeftExpr = true ∧ desc.hasRightExpr = true)
    (hleft : ∀ n queue, entries.length ≤ n → buildTree P n (entries ++ queue) = some (left, queue))
    (hright : ∀ n queue, entries'.length ≤ n →
      buildTree P n (entries' ++ queue) = some (right, queue))
    (hbuild : buildOperation P desc (some left) (some right) = some expr) (n : ℕ)
    (queue : List QueueEntry) (hn : (entries' ++ entries).length + 1 ≤ n) :
    buildTree P n (.operator desc :: (entries' ++ entries ++ queue)) = some (expr, queue) := by
  obtain ⟨m, rfl⟩ : ∃ m, n = m + 1 := ⟨n - 1, by omega⟩
  rw [List.length_append] at hn
  rw [buildTree, List.append_assoc]
  simp only [hoperands.1, hoperands.2, if_true, hright m _ (by omega), hleft m _ (by omega),
    Option.map_some, Option.bind_eq_bind, Option.bind_some, hbuild]

/-- An operator on an empty stack, or on a bracket. -/
theorem place_operator {operators : List (Option OpDesc)} {queue : List QueueEntry}
    (h : ∀ top below, operators ≠ some top :: below) :
    place (.operator desc :: items) queue operators = place items queue (some desc :: operators) := by
  rw [place]
  rcases operators with _ | ⟨_ | top, below⟩
  · rfl
  · rfl
  · exact absurd rfl (h top below)

theorem operator_behind (hdesc : desc ∈ opTable) (hoperator : operator.type = desc.token)
    (hname : desc.oper = .reference → ∀ token, toks = [token] → token.type ≠ .tokIdentifier) :
    Behind toks operator := by
  obtain ⟨⟨hround, hsquare⟩, hdot⟩ := opTable_token_ne desc hdesc
  refine ⟨hoperator ▸ hround, hoperator ▸ hsquare, fun h => hname ?_⟩
  by_contra hne
  exact hdot hne (hoperator ▸ h)

/-- An operation with two operands, from what is read of them. -/
theorem readsOper_binary (hdesc : desc ∈ opTable)
    (hoperands : desc.hasLeftExpr = true ∧ desc.hasRightExpr = true)
    (hoperator : operator.type = desc.token)
    (hleft : ReadsItems P w toks items w' operator)
    (hplace : ∀ items' queue operators,
      place (items ++ items') queue operators = place items' (entries ++ queue) operators)
    (hbuild : ∀ n queue, entries.length ≤ n → buildTree P n (entries ++ queue) = some (left, queue))
    (hright : ReadsExpr P w' toks' right w'' items' entries')
    (hexpr : buildOperation P desc (some left) (some right) = some expr) :
    ReadsOper P w (toks ++ operator :: toks') expr w'' (items ++ .operator desc :: items') desc
      (entries' ++ entries) where
  reads next hnext :=
    hleft.append (readsItems_operator hdesc hoperator (hright.reads next (hnext.behind toks')))
  place items'' queue operators htop := by
    rw [List.append_assoc, hplace, List.cons_append, place_operator htop, hright.place,
      List.append_assoc]
  build n queue hn := buildTree_binary hoperands hbuild hright.build hexpr n queue hn

theorem readsOper_not (hoperator : operator.type = .tokNot)
    (hright : ReadsExpr P w toks right w' items entries) :
    ReadsOper P w (operator :: toks) (.oper .unknown .not none (some right)) w'
      (.operator notDesc :: items) notDesc entries where
  reads next hnext :=
    readsItems_operator (by decide) hoperator (hright.reads next (hnext.behind toks))
  place items' queue operators htop := by
    rw [List.cons_append, place_operator htop, hright.place]
  build n queue hn := by
    obtain ⟨m, rfl⟩ : ∃ m, n = m + 1 := ⟨n - 1, by omega⟩
    rw [buildTree]
    simp only [notDesc, if_true, hright.build m queue (by omega)]
    rfl

/-- The entries of `++` and `--` in `opTable`. -/
def incrementDesc (op : OpType) : OpDesc :=
  ⟨if op = .increment then .tokIncrement else .tokDecrement, op, true, false⟩

theorem readsOper_increment {op : OpType} (hleft : ReadsExpr P w toks left w' items entries)
    (hoperator : operator.type = .tokIncrement ∧ op = .increment ∨
      operator.type = .tokDecrement ∧ op = .decrement) :
    ReadsOper P w (toks ++ [operator]) (.oper .unknown op (some left) none) w'
      (items ++ [.operator (incrementDesc op)]) (incrementDesc op) entries where
  reads next hnext := by
    have hdesc : incrementDesc op ∈ opTable ∧ operator.type = (incrementDesc op).token ∧
        (incrementDesc op).oper ≠ .reference := by
      rcases hoperator with ⟨htype, rfl⟩ | ⟨htype, rfl⟩
      · exact ⟨by decide, htype, by decide⟩
      · exact ⟨by decide, htype, by decide⟩
    have hbehind : Behind toks operator :=
      operator_behind hdesc.1 hdesc.2.1 fun h => absurd h hdesc.2.2
    exact (hleft.reads operator hbehind).append (readsItems_operator hdesc.1 hdesc.2.1 readsItems_nil)
  place items' queue operators htop := by
    rw [List.append_assoc, hleft.place]
    exact place_operator htop
  build n queue hn := by
    obtain ⟨m, rfl⟩ : ∃ m, n = m + 1 := ⟨n - 1, by omega⟩
    rw [buildTree]
    simp only [incrementDesc, Bool.false_eq_true, if_false, if_true, hleft.build m queue (by omega),
      Option.map_some, Option.bind_eq_bind, Option.bind_some]
    rfl

/-- An operation in brackets is an operand. -/
theorem ReadsOper.brackets {bracketLeft bracketRight : Token}
    (h : ReadsOper P w toks expr w' items desc entries) (hleft : bracketLeft.type = .tokBracketLeft)
    (hright : bracketRight.type = .tokBracketRight) :
    ReadsExpr P w (bracketLeft :: (toks ++ [bracketRight])) expr w'
      (.bracketLeft :: (items ++ [.bracketRight])) (.operator desc :: entries) where
  reads next _ pos brackets endToken rest items' t hend hahead ht := by
    have hahead' : Ahead P pos (bracketLeft :: (toks ++ bracketRight :: next :: rest)) := by
      simpa using hahead
    have hends : Ends bracketRight := ends_of_type hright (by decide)
    have hpos : pos + (bracketLeft :: (toks ++ [bracketRight])).length = pos + 1 + toks.length + 1 := by
      simp only [List.length_cons, List.length_append, List.length_nil]
      omega
    rw [hpos] at ht
    have hclose : ∀ᶠ fuel in atTop, Ok (readItems P fuel endToken (brackets + 1))
        ⟨pos + 1 + toks.length, w'⟩ (.bracketRight :: items') t := by
      refine eventually_of_succ ?_
      filter_upwards [ht] with fuel ht
      exact readItems_bracketRight hend hright hahead'.tail.behind ht
    refine eventually_of_succ ?_
    filter_upwards [h.reads bracketRight hends (pos + 1) (brackets + 1) endToken (next :: rest) _ t hend
      hahead'.tail hclose] with fuel hread
    simpa using readItems_bracketLeft hend hleft hahead' hread
  place items' queue operators := by
    rw [List.cons_append, B0rk.place, List.append_assoc, h.place _ _ _ (by rintro _ _ ⟨⟩)]
    rfl
  build n queue hn := h.build n queue hn

/-! ## Names -/

/-- The end of `parseExpressionValue` for a name. -/
def nameBehind (P : ParserEnv World) (fuel : ℕ) (clazz : Word) (id : String) :
    Parse World Expression := do
  let next ← nextToken P
  if next.type = .tokBracketLeft then do
    rewind 1
    let params ← parseExpressionList P fuel
    pure (.call .unknown clazz id params)
  else if next.type = .tokSquareBracketLeft then do
    let index ← parseExpression P fuel .tokSquareBracketRight
    let _ ← expect P .tokSquareBracketRight
    pure (.array .unknown clazz id index)
  else do
    rewind 1
    pure (.var .unknown clazz id)

/-- A name that no dot follows. -/
theorem parseExpressionValue_behind {fuel pos : ℕ} {name next : Token} {rest : List Token}
    {expr : Expression} {t : ParserState World} (hname : name.type = .tokIdentifier)
    (hdot : next.type ≠ .tokDot) (hahead : Ahead P pos (name :: next :: rest))
    (h : Ok (nameBehind P fuel 0 name.string) ⟨pos + 1, w⟩ expr t) :
    Ok (parseExpressionValue P (fuel + 1)) ⟨pos, w⟩ expr t := by
  rw [parseExpressionValue]
  refine (nextToken_ok hahead).bind ?_
  simp only [hname]
  refine (nextToken_ok hahead.tail).bind ?_
  rw [if_neg hdot, bind_assoc]
  exact (rewind_ok 1).bind h

theorem nameBehind_var {fuel pos : ℕ} {id : String} {next : Token} {rest : List Token}
    (hround : next.type ≠ .tokBracketLeft) (hsquare : next.type ≠ .tokSquareBracketLeft)
    (hahead : Ahead P pos (next :: rest)) :
    Ok (nameBehind P fuel 0 id) ⟨pos, w⟩ (.var .unknown 0 id) ⟨pos, w⟩ :=
  variable_ok hahead hround hsquare

theorem readsValue_operand {token : Token} (h : SpellsOperand token expr) :
    ReadsValue P w [token] expr w where
  begins := by
    refine ⟨token, [], rfl, ?_⟩
    cases h with
    | name h | integer h | double h | string h | true h _ | false h _ => rw [h]; decide
  parses pos next rest hahead hnext := by
    have hoperand : token.IsOperand ∧ expr = token.operand := by
      cases h with
      | name h => exact ⟨.inl h, by rw [Token.operand, h]⟩
      | integer h => exact ⟨.inr (.inl h), by rw [Token.operand, h]⟩
      | double h => exact ⟨.inr (.inr (.inl h)), by rw [Token.operand, h]⟩
      | string h => exact ⟨.inr (.inr (.inr (.inl h))), by rw [Token.operand, h]⟩
      | true h hstring =>
        refine ⟨.inr (.inr (.inr (.inr ⟨h, .inl hstring⟩))), ?_⟩
        rw [Token.operand, h]
        simp [hstring]
      | false h hstring =>
        refine ⟨.inr (.inr (.inr (.inr ⟨h, .inr hstring⟩))), ?_⟩
        rw [Token.operand, h]
        simp [hstring]
    obtain ⟨hoperand, rfl⟩ := hoperand
    refine eventually_of_succ (.of_forall fun fuel => ?_)
    exact parseExpressionValue_plain hoperand ⟨hnext.round, hnext.square⟩
      (fun hname hdot => hnext.dot hdot token rfl hname) hahead

/-- A name in front of a dot. -/
theorem reads_dotted {name dot : Token} (hname : name.type = .tokIdentifier)
    (hdot : dot.type = .tokDot) (hprobed : Probed P name w w' toks)
    (hsecond : ∀ token second rest, toks = token :: second :: rest → token.type = .tokIdentifier →
      second.type ≠ .tokDot) {next : Token} (hnext : next.type ≠ .tokDot) {pos : ℕ}
    {rest : List Token} (hahead : Ahead P pos (name :: dot :: (toks ++ next :: rest))) :
    Parses (parseExpressionValue P) pos w (.var .unknown 0 name.string) (pos + 1) w' := by
  rcases toks with _ | ⟨token, toks⟩
  · exact hprobed.elim
  obtain ⟨himports, hprobed⟩ := hprobed
  -- the token behind the first one is no dot
  obtain ⟨second, after, hbehind, hsecond⟩ : ∃ second after, toks ++ next :: rest = second :: after ∧
      (token.type = .tokIdentifier → second.type ≠ .tokDot) := by
    rcases toks with _ | ⟨second, toks⟩
    · exact ⟨next, rest, rfl, fun _ => hnext⟩
    · exact ⟨second, toks ++ next :: rest, rfl, hsecond token second toks rfl⟩
  have hahead' : Ahead P pos (name :: dot :: token :: second :: after) := by
    rw [← hbehind]
    exact hahead
  have hqualifier : ∀ fuel, Ok (parseQualifier P (fuel + 1) name.string) ⟨pos + 2, w⟩
      (0, name.string) ⟨pos + 1, w'⟩ := by
    intro fuel
    rw [parseQualifier]
    refine (nextToken_ok hahead'.tail.tail).bind ?_
    rw [himports]
    by_cases hid : token.type = .tokIdentifier
    · rw [if_pos hid] at hprobed
      have hfind : Ok (findClass P (name.string ++ "." ++ token.string)) ⟨pos + 2 + 1, w⟩ 0
          ⟨pos + 2 + 1, w'⟩ := by
        unfold Ok findClass
        rw [hprobed]
      have hprobe : Ok (probeClass P (fuel + 1) name.string token 2) ⟨pos + 2 + 1, w⟩ (0, 3)
          ⟨pos + 2 + 1 + 1, w'⟩ := by
        rw [probeClass, if_neg (fun h => h hid)]
        refine hfind.bind ?_
        rw [if_neg (fun h => h rfl)]
        refine (nextToken_ok hahead'.tail.tail.tail).bind ?_
        rw [if_pos (hsecond hid)]
        exact Attempt.pure_ok.mpr ⟨rfl, rfl⟩
      refine hprobe.bind ?_
      dsimp only
      rw [if_neg (fun h => h rfl)]
      exact (rewind_run (pos + 1) 3).bind (Attempt.pure_ok.mpr ⟨rfl, rfl⟩)
    · rw [if_neg hid] at hprobed
      have hprobe : Ok (probeClass P (fuel + 1) name.string token 2) ⟨pos + 2 + 1, w⟩ (0, 2)
          ⟨pos + 2 + 1, w⟩ := by
        rw [probeClass, if_pos hid]
        exact Attempt.pure_ok.mpr ⟨rfl, rfl⟩
      refine hprobe.bind ?_
      dsimp only
      rw [if_neg (fun h => h rfl), hprobed]
      exact (rewind_run (pos + 1) 2).bind (Attempt.pure_ok.mpr ⟨rfl, rfl⟩)
  have hround : dot.type ≠ .tokBracketLeft := by rw [hdot]; decide
  have hsquare : dot.type ≠ .tokSquareBracketLeft := by rw [hdot]; decide
  refine eventually_of_succ (eventually_of_succ (.of_forall fun fuel => ?_))
  rw [parseExpressionValue]
  refine (nextToken_ok hahead').bind ?_
  simp only [hname]
  refine (nextToken_ok hahead'.tail).bind ?_
  rw [if_pos hdot]
  exact (hqualifier fuel).bind (nameBehind_var hround hsquare hahead'.tail)

/-- The entry of `.` in `opTable`. -/
def dotDesc : OpDesc := ⟨.tokDot, .reference, true, true⟩

theorem readsOper_dotted {name dot : Token} (hname : name.type = .tokIdentifier)
    (hdot : dot.type = .tokDot) (hprobed : Probed P name w w' toks)
    (hsecond : ∀ token second rest, toks = token :: second :: rest → token.type = .tokIdentifier →
      second.type ≠ .tokDot) (hright : ReadsExpr P w' toks right w'' items entries) :
    ReadsOper P w (name :: dot :: toks)
      (.oper .unknown .reference (some (.var .unknown 0 name.string)) (some right)) w''
      (.operand (.var .unknown 0 name.string) :: .operator dotDesc :: items) dotDesc
      (entries ++ [.value (.var .unknown 0 name.string)]) where
  reads next hnext pos brackets endToken rest items' t hend hahead ht := by
    have hpos : pos + (name :: dot :: toks).length = pos + 1 + (dot :: toks).length := by
      simp only [List.length_cons]
      omega
    rw [hpos] at ht
    have hvalue : name.type.BeginsValue := by rw [hname]; decide
    have hdesc : dotDesc ∈ opTable := by decide
    have hread := readsItems_operator hdesc hdot
      (hright.reads next (hnext.behind toks)) (pos + 1) brackets endToken rest items' t hend
      hahead.tail ht
    refine eventually_of_succ ?_
    filter_upwards [reads_dotted hname hdot hprobed hsecond hnext.dot hahead, hread] with fuel hname hread
    exact readItems_value hend hvalue hahead hname hread
  place items' queue operators htop := by
    rw [List.cons_append, List.cons_append, B0rk.place, place_operator htop, hright.place,
      List.append_assoc]
    rfl
  build n queue hn := by
    have hname : ReadsExpr P w' [name] (.var .unknown 0 name.string) w'
        [.operand (.var .unknown 0 name.string)] [.value (.var .unknown 0 name.string)] :=
      (readsValue_operand (.name hname)).toExpr
    have hoperands : dotDesc.hasLeftExpr = true ∧ dotDesc.hasRightExpr = true := ⟨rfl, rfl⟩
    exact buildTree_binary hoperands hname.build hright.build rfl n queue hn

theorem readsOper_assigned {name : Token} {op : OpType} (hname : name.type = .tokIdentifier)
    (hoperator : operator.type = .tokAddAssign ∧ op = .add ∨ operator.type = .tokSubAssign ∧ op = .sub)
    (hright : ReadsExpr P w toks right w' items entries) :
    ∃ items desc entries, ReadsOper P w (name :: operator :: toks)
      (assignedOperation op name.string right) w' items desc entries := by
  have hleft : ReadsExpr P w [name] (.var .unknown 0 name.string) w
      [.operand (.var .unknown 0 name.string)] [.value (.var .unknown 0 name.string)] :=
    (readsValue_operand (.name hname)).toExpr
  have hcopy : (Expression.var .unknown 0#64 name.string).valueType = .unknown := rfl
  obtain ⟨desc, hdesc, hoperands, htype, hset, hbuild⟩ : ∃ desc ∈ opTable,
      (desc.hasLeftExpr = true ∧ desc.hasRightExpr = true) ∧ operator.type = desc.token ∧
      desc.oper = .set ∧ buildOperation P desc (some (.var .unknown 0 name.string)) (some right) =
        some (assignedOperation op name.string right) := by
    rcases hoperator with ⟨htype, rfl⟩ | ⟨htype, rfl⟩
    · refine ⟨⟨.tokAddAssign, .set, true, true⟩, by decide, ⟨rfl, rfl⟩, htype, rfl, ?_⟩
      simp [buildOperation, foldLiterals, assignedOperation, hcopy]
    · refine ⟨⟨.tokSubAssign, .set, true, true⟩, by decide, ⟨rfl, rfl⟩, htype, rfl, ?_⟩
      simp [buildOperation, foldLiterals, assignedOperation, hcopy]
  have hbehind : Behind [name] operator :=
    operator_behind hdesc htype fun h => by rw [hset] at h; cases h
  exact ⟨_, _, _, readsOper_binary hdesc hoperands htype (hleft.reads operator hbehind) hleft.place
    hleft.build hright hbuild⟩

/-! ## Whole expressions -/

/-- The tokens that a whole expression begins with. -/
def TokenType.BeginsExpr (type : TokenType) : Prop :=
  type.BeginsValue ∨ type = .tokBracketLeft ∨ type = .tokNot

/-- A whole expression, in front of the token that it ends at. -/
structure ReadsWhole (P : ParserEnv World) (w : World) (toks : List Token) (expr : Expression)
    (w' : World) : Prop where
  begins : ∃ token rest, toks = token :: rest ∧ token.type.BeginsExpr
  parses : ∀ pos endToken stop rest, endToken.IsEnd → Ahead P pos (toks ++ stop :: rest) →
    stop.Stops endToken →
    Parses (fun fuel => parseExpression P fuel endToken) pos w expr (pos + toks.length) w'

/-- The loop stops, and the tree is built. -/
theorem parses_of_reads {queue : List QueueEntry} {operators : List (Option OpDesc)} {stop : Token}
    (hreads : ReadsItems P w toks items w' stop)
    (hplace : place items [] [] = some (queue, operators))
    (hbuild : buildTree P (flush operators queue).length (flush operators queue) = some (expr, []))
    {pos : ℕ} {endToken : TokenType} {rest : List Token} (hend : endToken.IsEnd)
    (hahead : Ahead P pos (toks ++ stop :: rest)) (hstop : stop.Stops endToken) :
    Parses (fun fuel => parseExpression P fuel endToken) pos w expr (pos + toks.length) w' := by
  have hstops : ∀ᶠ fuel in atTop, Ok (readItems P fuel endToken 0) ⟨pos + toks.length, w'⟩ []
      ⟨pos + toks.length, w'⟩ :=
    eventually_of_succ (.of_forall fun fuel => readItems_stop hstop hahead.behind)
  refine eventually_of_succ ?_
  filter_upwards [hreads pos 0 endToken rest [] _ hend hahead hstops] with fuel hread
  rw [parseExpression_eq]
  refine hread.bind (Attempt.ofOption_ok.mpr ⟨?_, rfl⟩)
  rw [List.append_nil, combine, order, hplace, Option.map_some, Option.bind_some, hbuild]
  rfl

theorem ReadsExpr.whole (h : ReadsExpr P w toks expr w' items entries)
    (hbegins : ∃ token rest, toks = token :: rest ∧ token.type.BeginsExpr) :
    ReadsWhole P w toks expr w' where
  begins := hbegins
  parses pos endToken stop rest hend hahead hstop := by
    have hplace := h.place [] [] []
    rw [List.append_nil, List.append_nil] at hplace
    have hbuild := h.build entries.length [] le_rfl
    rw [List.append_nil] at hbuild
    exact parses_of_reads (h.reads stop (hstop.ends.behind toks)) hplace hbuild hend hahead hstop

theorem ReadsOper.whole (h : ReadsOper P w toks expr w' items desc entries)
    (hbegins : ∃ token rest, toks = token :: rest ∧ token.type.BeginsExpr) :
    ReadsWhole P w toks expr w' where
  begins := hbegins
  parses pos endToken stop rest hend hahead hstop := by
    have hplace := h.place [] [] [] (by rintro _ _ ⟨⟩)
    rw [List.append_nil, List.append_nil] at hplace
    have hbuild := h.build (entries.length + 1) [] le_rfl
    rw [List.append_nil] at hbuild
    exact parses_of_reads (h.reads stop hstop.ends) hplace hbuild hend hahead hstop

theorem TokenType.BeginsExpr.ne {type : TokenType} (h : type.BeginsExpr) :
    type ∉ [TokenType.tokBracketRight, .tokSemicolon, .tokBraceRight, .tokVar, .tokIf, .tokElse,
      .tokFor, .tokWhile, .tokReturn, .tokTry, .tokThrow] := by
  rcases h with h | rfl | rfl
  · simp only [BeginsValue, List.mem_cons, List.not_mem_nil, or_false] at h
    rcases h with rfl | rfl | rfl | rfl | rfl | rfl | rfl <;> decide
  · decide
  · decide

/-- A whole expression in front of a token, as a part of something longer. -/
theorem ReadsWhole.head (h : ReadsWhole P w toks expr w') {pos : ℕ} {rest : List Token}
    (hahead : Ahead P pos (toks ++ rest)) :
    ∃ token rest, Ahead P pos (token :: rest) ∧ token.type.BeginsExpr := by
  obtain ⟨token, behind, rfl, hbegins⟩ := h.begins
  exact ⟨token, behind ++ rest, hahead, hbegins⟩

/-- An assignment to a name. -/
theorem readsWhole_set {name : Token} (hname : name.type = .tokIdentifier)
    (hoperator : operator.type = .tokAssign) (hright : ReadsExpr P w toks right w' items entries) :
    ReadsWhole P w (name :: operator :: toks)
      (.oper .unknown .set (some (.var .unknown 0 name.string)) (some right)) w' := by
  have hleft : ReadsExpr P w [name] (.var .unknown 0 name.string) w
      [.operand (.var .unknown 0 name.string)] [.value (.var .unknown 0 name.string)] :=
    (readsValue_operand (.name hname)).toExpr
  have hdesc : (⟨.tokAssign, .set, true, true⟩ : OpDesc) ∈ opTable := by decide
  have hbehind : Behind [name] operator :=
    operator_behind hdesc hoperator fun h => OpType.noConfusion h
  have hoper := readsOper_binary hdesc ⟨rfl, rfl⟩ hoperator (hleft.reads operator hbehind) hleft.place
    hleft.build hright (buildOperation_folded (P := P) (by decide))
  exact hoper.whole ⟨name, _, rfl, .inl (by rw [hname]; decide)⟩

end B0rk
