import B0rk.Parser.Proofs.Written

set_option autoImplicit false

/-! # Precedence

What `parseExpression` makes of formulas with brackets and of sequences without: the tree that
`buildTree` takes apart is the one whose postfix order the loop has put into the output queue. -/

namespace B0rk

open Attempt (Ok)
open Shunting

variable {World : Type} {P : ParserEnv World} {queue : List QueueEntry}
  {operators : List (Option OpDesc)} {items : List ExpressionItem} {t : Tree Expression OpDesc}

/-! ## Building the tree -/

/-- Every operator takes what the tree gives it. -/
def Sound : Tree Expression OpDesc → Prop
  | .leaf _ => True
  | .unary op right => op.hasLeftExpr = false ∧ op.hasRightExpr = true ∧ Sound right
  | .binary op left right => op.hasLeftExpr = true ∧ op.hasRightExpr = true ∧
      op.token ≠ .tokAddAssign ∧ op.token ≠ .tokSubAssign ∧ Sound left ∧ Sound right

/-- The postfix order of a tree, as it stands in the output queue. -/
def entries (t : Tree Expression OpDesc) : List QueueEntry := t.backwards.map QueueEntry.of

/-- `buildTree` takes the tree off the back of the queue. -/
theorem buildTree_entries (ht : Sound t) {n : ℕ} (hn : t.backwards.length ≤ n)
    (queue : List QueueEntry) :
    buildTree P n (entries t ++ queue) = some (foldTree P t, queue) := by
  induction t generalizing n queue with
  | leaf expr =>
    obtain ⟨n, rfl⟩ : ∃ m, n = m + 1 := ⟨n - 1, by simp [Tree.backwards] at hn; omega⟩
    rfl
  | unary op right ih =>
    obtain ⟨hleft, hright, ht⟩ := ht
    simp only [Tree.backwards, List.length_cons] at hn
    obtain ⟨n, rfl⟩ : ∃ m, n = m + 1 := ⟨n - 1, by omega⟩
    have hentries : entries (.unary op right) ++ queue =
        .operator op :: (entries right ++ queue) := rfl
    rw [hentries, buildTree, hleft, hright, if_pos rfl, ih ht (by omega)]
    rfl
  | binary op left right ihl ihr =>
    obtain ⟨hleft, hright, hadd, hsub, htl, htr⟩ := ht
    simp only [Tree.backwards, List.length_cons, List.length_append] at hn
    obtain ⟨n, rfl⟩ : ∃ m, n = m + 1 := ⟨n - 1, by omega⟩
    have hentries : entries (.binary op left right) ++ queue =
        .operator op :: (entries right ++ (entries left ++ queue)) := by
      simp [entries, Tree.backwards, QueueEntry.of]
    have hbuild : buildOperation P op (some (foldTree P left)) (some (foldTree P right)) =
        some (foldTree P (.binary op left right)) := by
      rw [foldTree]
      cases hfold : foldLiterals P op.oper (foldTree P left) (foldTree P right) with
      | some expr => exact buildOperation_folds hfold
      | none => exact buildOperation_plain hfold (not_or.mpr ⟨hadd, hsub⟩)
    rw [hentries, buildTree, hleft, hright, if_pos rfl, ihr htr (by omega)]
    simp only [Option.map_some, Option.bind_eq_bind, Option.bind_some, if_pos]
    rw [ihl htl (by omega)]
    simp only [Option.map_some, Option.bind_some, hbuild]

theorem combine_of_order (ht : Sound t) (h : order items = some (entries t)) :
    combine P items = some (foldTree P t) := by
  have hlen : t.backwards.length ≤ (entries t).length := by simp [entries]
  have hbuild := buildTree_entries (P := P) ht hlen []
  rw [List.append_nil] at hbuild
  rw [combine, h, Option.bind_some, hbuild]
  rfl

/-- The output queue decides what is returned. -/
theorem foldTree_congr {t t' : Tree Expression OpDesc} (ht : Sound t) (ht' : Sound t')
    (h : entries t = entries t') : foldTree P t = foldTree P t' := by
  have hlen : (entries t).length = t.backwards.length := List.length_map ..
  have hlen' : (entries t').length = t'.backwards.length := List.length_map ..
  have hbuild := buildTree_entries (P := P) ht (Nat.le_of_eq hlen.symm) []
  rw [h, buildTree_entries ht' (Nat.le_of_eq hlen'.symm) []] at hbuild
  exact (Prod.mk.inj (Option.some.inj hbuild)).1.symm

/-! ## Formulas with brackets -/

theorem BinaryOperator.token_ne (op : BinaryOperator) :
    op.desc.token ≠ .tokAddAssign ∧ op.desc.token ≠ .tokSubAssign := by
  have htable : ∀ desc ∈ opTable, desc.oper ≠ .set →
      desc.token ≠ .tokAddAssign ∧ desc.token ≠ .tokSubAssign := by
    decide
  exact htable op.desc op.known op.noAssignment

namespace Formula

variable {formula : Formula}

theorem sound : ∀ formula : Formula, Sound formula.tree
  | var _ | integer _ | string _ => trivial
  | binary op _ left right =>
      ⟨op.binary.1, op.binary.2, op.token_ne.1, op.token_ne.2, left.sound, right.sound⟩
  | not right => ⟨rfl, rfl, right.sound⟩

/-- No constant of a formula is a `double`. -/
theorem folded_ne_double (type : ValueType) (d : Word) : formula.folded ≠ .double type d := by
  cases formula with
  | binary op _ left right =>
    rw [folded]
    split <;> exact Expression.noConfusion
  | _ => exact Expression.noConfusion

theorem foldTree_tree : ∀ formula : Formula, foldTree P formula.tree = formula.folded
  | var _ | integer _ | string _ => rfl
  | not right => by
      rw [tree, foldTree, foldTree_tree right]
      rfl
  | binary op _ left right => by
      rw [tree, foldTree, foldTree_tree left, foldTree_tree right, folded]
      cases hfold : foldLiterals P op.desc.oper left.folded right.folded with
      | some expr =>
        unfold foldLiterals at hfold
        split at hfold
        · next hl _ => exact absurd hl (left.folded_ne_double _ _)
        · next hl _ => exact absurd hl (left.folded_ne_double _ _)
        · next hop hl hr =>
          rw [hop, hl, hr]
          exact (Option.some.inj hfold).symm
        · next hop hl hr =>
          rw [hop, hl, hr]
          exact (Option.some.inj hfold).symm
        · cases hfold
      | none =>
        show Expression.oper _ _ _ _ = _
        split
        · next hop hl hr =>
          rw [hop, hl, hr] at hfold
          cases hfold
        · next hop hl hr =>
          rw [hop, hl, hr] at hfold
          cases hfold
        · rfl

/-- A formula goes to the output queue as a whole. -/
theorem place_items (formula : Formula) (items : List ExpressionItem) (queue : List QueueEntry)
    (operators : List (Option OpDesc)) :
    place (formula.items ++ items) queue operators =
      place items (entries formula.tree ++ queue) operators := by
  induction formula generalizing items queue operators with
  | var _ | integer _ | string _ => rfl
  | not right ih =>
    have hitems : (not right).items ++ items =
        .bracketLeft :: .operator notDesc :: (right.items ++ .bracketRight :: items) := by
      simp [Formula.items]
    rw [hitems, place, place]
    simp only [pushOperatorStack]
    rw [ih, place, popToBracket, popToBracket]
    rfl
  | binary op noReference left right ihl ihr =>
    have hitems : (binary op noReference left right).items ++ items = .bracketLeft ::
        (left.items ++ .operator op.desc :: (right.items ++ .bracketRight :: items)) := by
      simp [Formula.items]
    rw [hitems, place, ihl, place]
    simp only [pushOperatorStack]
    rw [ihr, place, popToBracket, popToBracket, Option.bind_some]
    simp [entries, tree, Tree.backwards, QueueEntry.of]

end Formula

theorem Formula.printed_print : ∀ formula : Formula, formula.Printed formula.print
  | .var name => @Printed.var ⟨.tokIdentifier, 1, name, 0, 0⟩ rfl
  | .integer i => @Printed.integer ⟨.tokInteger, 1, "", i, 0⟩ rfl
  | .string str => @Printed.string ⟨.tokString, 1, str, 0, 0⟩ rfl
  | .binary _ _ left right => .binary rfl rfl rfl left.printed_print right.printed_print
  | .not right => .not rfl rfl rfl right.printed_print

/-- **Brackets.** A formula with every operation in brackets is parsed to itself, with `+` and `*` of
    two integers replaced by their value, up to the semicolon. -/
theorem parseExpression_printed {formula : Formula} {toks after : List Token} {semicolon : Token}
    {s : ParserState World} {endToken : TokenType} {fuel : ℕ} (hend : endToken.IsEnd)
    (hprinted : formula.Printed toks) (hsemicolon : semicolon.type = .tokSemicolon)
    (htokens : P.tokens.drop s.pos = toks ++ semicolon :: after) (hfuel : toks.length + 2 ≤ fuel) :
    Ok (parseExpression P fuel endToken) s formula.folded ⟨s.pos + toks.length, s.world⟩ := by
  obtain ⟨n, rfl⟩ : ∃ n, fuel = n + 1 + toks.length + 1 := ⟨fuel - toks.length - 2, by omega⟩
  have hstop : semicolon.Stops endToken := .inr (.inl hsemicolon)
  have hnext := hstop.type_ne
  have hstops : Ok (readItems P (n + 1) endToken 0) ⟨s.pos + toks.length, s.world⟩ []
      ⟨s.pos + toks.length, s.world⟩ := readItems_stop hstop (Ahead.behind htokens)
  have hread : Ok (readItems P (n + 1 + toks.length) endToken 0) s (formula.items ++ [])
      ⟨s.pos + toks.length, s.world⟩ :=
    readItems_formula hend hprinted htokens ⟨hnext.2, hnext.1.2⟩ n.succ_pos hstops
  rw [List.append_nil] at hread
  have horder : order formula.items = some (entries formula.tree) := by
    have hplace := formula.place_items [] [] []
    rw [List.append_nil, List.append_nil] at hplace
    rw [order, hplace]
    rfl
  rw [parseExpression_eq]
  refine hread.bind (Attempt.ofOption_ok.mpr ⟨?_, rfl⟩)
  rw [combine_of_order formula.sound horder, formula.foldTree_tree]

/-- `((2 * 3) + x)` -/
def productSum : Formula :=
  .binary ⟨⟨.tokPlus, .add, true, true⟩, by decide, by decide, by decide⟩ (by decide)
    (.binary ⟨⟨.tokAsterisk, .multiply, true, true⟩, by decide, by decide, by decide⟩ (by decide)
      (.integer 2) (.integer 3))
    (.var "x")

theorem productSum_parsed :
    productSum.folded =
      .oper .unknown .add (some (.integer .unknown 6)) (some (.var .unknown 0 "x")) ∧
    Ok (parseExpression (plainParser (productSum.print ++ [⟨.tokSemicolon, 1, ";", 0, 0⟩])) 11
      .tokAny) ⟨0, ()⟩ productSum.folded ⟨9, ()⟩ := by
  have hparsed := parseExpression_printed (P := plainParser
    (productSum.print ++ [⟨.tokSemicolon, 1, ";", 0, 0⟩])) (s := ⟨0, ()⟩) (.inl rfl)
    productSum.printed_print rfl rfl (Nat.le_refl 11)
  exact ⟨rfl, hparsed⟩

/-! ## Sequences without brackets -/

theorem flush_eq (operators : List (Option OpDesc)) (queue : List QueueEntry) :
    flush operators queue = operators.reverse.map QueueEntry.ofOperator ++ queue := by
  induction operators generalizing queue with
  | nil => rfl
  | cons op operators ih =>
    have hflush : flush (op :: operators) queue =
        flush operators (QueueEntry.ofOperator op :: queue) := rfl
    rw [hflush, ih]
    simp

theorem QueueEntry.of_injective : Function.Injective QueueEntry.of := by
  intro x y h
  cases x with
  | inl expr =>
    cases y with
    | inl expr' => exact congrArg Sum.inl (QueueEntry.value.inj h)
    | inr op => cases h
  | inr op =>
    cases y with
    | inl expr => cases h
    | inr op' => exact congrArg Sum.inr (QueueEntry.operator.inj h)

/-- The stack and the queue of the parser, where it has read a sequence so far. -/
theorem pushOperatorStack_pending (op : OpDesc) (pending : Pending Expression OpDesc)
    (t : Tree Expression OpDesc) :
    pushOperatorStack op (pending.operators.map some)
        ((Shunting.queue pending t).map QueueEntry.of) =
      (some op :: (moveOne OpDesc.precedence op pending t).1.operators.map some,
        (Shunting.queue (moveOne OpDesc.precedence op pending t).1
          (moveOne OpDesc.precedence op pending t).2).map QueueEntry.of) := by
  rcases pending with _ | ⟨⟨left, top⟩, pending⟩
  · rfl
  · rw [Pending.operators_cons, List.map_cons, pushOperatorStack, moveOne]
    by_cases hle : op.precedence ≤ top.precedence
    · rw [if_pos hle, if_pos (show op.oper.toNat ≤ top.oper.toNat from hle), queue_binary]
      rfl
    · rw [if_neg hle, if_neg (show ¬op.oper.toNat ≤ top.oper.toNat from hle)]
      rfl

/-- The parser moves one operator at a time. -/
theorem place_pairs (rest : List (OpDesc × Expression)) (pending : Pending Expression OpDesc)
    (t : Tree Expression OpDesc) :
    (place (rest.flatMap fun (op, operand) => [.operator op, .operand operand])
        ((Shunting.queue pending t).map QueueEntry.of) (pending.operators.map some)).map
      (fun (queue, operators) => flush operators queue) =
      some (entries (shunt (moveOne OpDesc.precedence) pending t rest)) := by
  induction rest generalizing pending t with
  | nil =>
    rw [entries, shunt, finish_backwards, List.map_append]
    simp [place, flush_eq, QueueEntry.ofOperator, QueueEntry.of]
  | cons next rest ih =>
    obtain ⟨op, operand⟩ := next
    rw [List.flatMap_cons, shunt]
    simp only [List.cons_append, List.nil_append, place, pushOperatorStack_pending]
    have hrest := ih (((moveOne OpDesc.precedence op pending t).2, op) ::
      (moveOne OpDesc.precedence op pending t).1) (.leaf operand)
    rw [queue_leaf] at hrest
    exact hrest

namespace Sequence

variable {seq : Sequence}

/-- The tree that `buildTree` takes apart. -/
def parsed (seq : Sequence) : Tree Expression OpDesc :=
  shunt (moveOne OpDesc.precedence) [] (.leaf seq.first.token.operand) seq.pairs

theorem order_items (seq : Sequence) : order seq.items = some (entries seq.parsed) := by
  have hplace := place_pairs seq.pairs [] (.leaf seq.first.token.operand)
  rw [queue_nil] at hplace
  exact hplace

/-- A binary operator that does not assign, as `opTable` has it. -/
def IsBinary (desc : OpDesc) : Prop :=
  desc ∈ opTable ∧ desc.hasLeftExpr = true ∧ desc.hasRightExpr = true ∧ desc.oper ≠ .set

/-- A variable or a literal is no operation. -/
def IsAtom (expr : Expression) : Prop := ∀ type op left right, expr ≠ .oper type op left right

theorem isAtom_operand {token : Token} (h : token.IsOperand) : IsAtom token.operand := by
  intro type op left right
  rw [Token.operand]
  rcases h with h | h | h | h | ⟨h, -⟩ <;> rw [h] <;> exact Expression.noConfusion

theorem pairs_binary (seq : Sequence) : ∀ next ∈ seq.pairs, IsBinary next.1 ∧ IsAtom next.2 := by
  intro next hnext
  obtain ⟨⟨op, operand⟩, -, rfl⟩ := List.mem_map.mp hnext
  have ⟨hleft, hright⟩ := op.operator.binary
  exact ⟨⟨op.operator.known, hleft, hright, op.operator.noAssignment⟩,
    isAtom_operand operand.isOperand⟩

theorem parsed_binary (seq : Sequence) : seq.parsed.Binary IsAtom IsBinary :=
  shunt_binary moveOne_moves (isAtom_operand seq.first.isOperand) seq.pairs_binary

theorem prescribed_binary (seq : Sequence) : seq.prescribed.Binary IsAtom IsBinary :=
  shunt_binary moveAll_moves (isAtom_operand seq.first.isOperand) seq.pairs_binary

theorem sound_of_binary {t : Tree Expression OpDesc} (h : t.Binary IsAtom IsBinary) : Sound t := by
  induction t with
  | leaf _ => trivial
  | unary _ _ => cases h
  | binary op left right ihl ihr =>
    obtain ⟨⟨hknown, hleft, hright, hset⟩, hl, hr⟩ := h
    have hassign := BinaryOperator.token_ne ⟨op, hknown, ⟨hleft, hright⟩, hset⟩
    exact ⟨hleft, hright, hassign.1, hassign.2, ihl hl, ihr hr⟩

theorem parsed_written (seq : Sequence) : seq.parsed.written = seq.written :=
  shunt_written moveOne_moves [] _ _

theorem prescribed_written (seq : Sequence) : seq.prescribed.written = seq.written :=
  shunt_written moveAll_moves [] _ _

/-! ### Where there is nothing to fold -/

/-- An operation is no constant. -/
theorem foldLiterals_oper {op : OpType} {left right : Expression}
    (h : ¬(IsAtom left ∧ IsAtom right)) : foldLiterals P op left right = none := by
  unfold foldLiterals
  split
  · exact absurd ⟨fun _ _ _ _ => Expression.noConfusion, fun _ _ _ _ => Expression.noConfusion⟩ h
  · exact absurd ⟨fun _ _ _ _ => Expression.noConfusion, fun _ _ _ _ => Expression.noConfusion⟩ h
  · exact absurd ⟨fun _ _ _ _ => Expression.noConfusion, fun _ _ _ _ => Expression.noConfusion⟩ h
  · exact absurd ⟨fun _ _ _ _ => Expression.noConfusion, fun _ _ _ _ => Expression.noConfusion⟩ h
  · rfl

/-- A tree that is an atom is a leaf. -/
theorem leaf_of_isAtom {t : Tree Expression OpDesc} (ht : t.Binary IsAtom IsBinary)
    (h : IsAtom (treeExpression t)) : ∃ expr, t = .leaf expr := by
  cases t with
  | leaf expr => exact ⟨expr, rfl⟩
  | unary _ _ => cases ht
  | binary op left right => exact absurd rfl (h _ _ _ _)

/-- Folding takes two literals that stand next to each other. -/
theorem foldTree_eq {t : Tree Expression OpDesc} (ht : t.Binary IsAtom IsBinary)
    (h : ∀ left op right, [.inl left, .inr op, .inl right] <:+: t.written →
      foldLiterals P op.oper left right = none) :
    foldTree P t = treeExpression t := by
  induction t with
  | leaf _ => rfl
  | unary _ _ => cases ht
  | binary op left right ihl ihr =>
    obtain ⟨-, hl, hr⟩ := ht
    have hleft := ihl hl fun l o r hwithin => h l o r (hwithin.trans (List.prefix_append _ _).isInfix)
    have hright := ihr hr fun l o r hwithin =>
      h l o r (hwithin.trans (List.suffix_append_of_suffix (List.suffix_cons _ _)).isInfix)
    have hnone : foldLiterals P op.oper (treeExpression left) (treeExpression right) = none := by
      by_cases hatoms : IsAtom (treeExpression left) ∧ IsAtom (treeExpression right)
      · obtain ⟨l, rfl⟩ := leaf_of_isAtom hl hatoms.1
        obtain ⟨r, rfl⟩ := leaf_of_isAtom hr hatoms.2
        exact h l op r List.infix_rfl
      · exact foldLiterals_oper hatoms
    rw [foldTree, hleft, hright, hnone]
    rfl

theorem treeExpression_injective {t t' : Tree Expression OpDesc} (ht : t.Binary IsAtom IsBinary)
    (ht' : t'.Binary IsAtom IsBinary) (h : treeExpression t = treeExpression t') : t = t' := by
  induction t generalizing t' with
  | leaf expr =>
    cases t' with
    | leaf expr' => exact congrArg Tree.leaf h
    | unary _ _ => cases ht'
    | binary op left right => exact absurd h (ht _ _ _ _)
  | unary _ _ => cases ht
  | binary op left right ihl ihr =>
    cases t' with
    | leaf expr' => exact absurd h.symm (ht' _ _ _ _)
    | unary _ _ => cases ht'
    | binary op' left' right' =>
      obtain ⟨hop, hl, hr⟩ := ht
      obtain ⟨hop', hl', hr'⟩ := ht'
      simp only [treeExpression, Expression.oper.injEq, Option.some.injEq, true_and] at h
      obtain ⟨hoper, hleft, hright⟩ := h
      have htable : ∀ desc ∈ opTable, ∀ desc' ∈ opTable, desc.oper ≠ .set →
          desc.oper = desc'.oper → desc = desc' := by
        decide
      rw [htable op hop.1 op' hop'.1 hop.2.2.2 hoper, ihl hl hl' hleft, ihr hr hr' hright]

end Sequence

/-! ### The main theorem -/

/-- `parseExpression` returns the tree that the shunting-yard algorithm prescribes, up to folding: that
    tree is what the output queue holds in the end, and its folding is what is returned. -/
def Prescribes (P : ParserEnv World) (fuel : ℕ) (endToken : TokenType) (s : ParserState World)
    (seq : Sequence) : Prop :=
  ∃ queue operators t,
    Ok (parseExpressionLoop P fuel endToken [] [] 0) s (queue, operators) t ∧
      flush operators queue = seq.prescribed.backwards.map QueueEntry.of ∧
        Ok (parseExpression P (fuel + 1) endToken) s (foldTree P seq.prescribed) t

section

variable {seq : Sequence} {stop : Token} {after : List Token} {s : ParserState World}
  {endToken : TokenType} {fuel : ℕ}

/-- What a sequence is read to. -/
theorem readItems_items (hend : endToken.IsEnd) (hstop : stop.Stops endToken)
    (hnames : Sequence.NoClasses P seq.first seq.rest)
    (htokens : P.tokens.drop s.pos = seq.tokens ++ stop :: after)
    (hfuel : (seq.tokens ++ stop :: after).length + 1 ≤ fuel) :
    ∃ world', Ok (readItems P fuel endToken 0) s seq.items
      ⟨s.pos + seq.tokens.length, world'⟩ := by
  have hitems : seq.items = .operand seq.first.token.operand :: itemsBehind seq.rest := by
    simp only [Sequence.items, Sequence.pairs, itemsBehind, List.flatMap_map]
  have hlen : s.pos + seq.tokens.length = s.pos + 1 + (tokensBehind seq.rest).length := by
    simp only [Sequence.tokens, tokensBehind, List.length_cons]
    omega
  have hfuel : (tokensBehind seq.rest ++ stop :: after).length + 2 ≤ fuel := by
    simp only [Sequence.tokens, List.cons_append, List.length_cons] at hfuel
    exact hfuel
  rw [hitems, hlen]
  exact readItems_sequence hend hstop hnames htokens hfuel

/-- What the parser makes of a sequence: the output queue, and the tree. -/
theorem parseExpression_parsed (hend : endToken.IsEnd) (hstop : stop.Stops endToken)
    (hnames : Sequence.NoClasses P seq.first seq.rest)
    (htokens : P.tokens.drop s.pos = seq.tokens ++ stop :: after)
    (hfuel : (seq.tokens ++ stop :: after).length + 1 ≤ fuel) :
    ∃ queue operators t,
      Ok (parseExpressionLoop P fuel endToken [] [] 0) s (queue, operators) t ∧
        flush operators queue = entries seq.parsed ∧
          Ok (parseExpression P (fuel + 1) endToken) s (foldTree P seq.parsed) t := by
  obtain ⟨world', hread⟩ := readItems_items hend hstop hnames htokens hfuel
  obtain ⟨⟨queue, operators⟩, hplace, hflush⟩ := Option.map_eq_some_iff.mp seq.order_items
  refine ⟨queue, operators, ⟨s.pos + seq.tokens.length, world'⟩, ?_, hflush, ?_⟩
  · rw [parseExpressionLoop_eq fuel endToken [] [] 0 rfl]
    exact hread.bind (Attempt.ofOption_ok.mpr ⟨hplace, rfl⟩)
  · rw [parseExpression_eq]
    exact hread.bind (Attempt.ofOption_ok.mpr
      ⟨combine_of_order (Sequence.sound_of_binary seq.parsed_binary) seq.order_items, rfl⟩)

/-- **Precedence.** A sequence without brackets is parsed to the tree that the shunting-yard algorithm
    prescribes, up to folding, if and only if an operator that is followed by one that binds tighter is
    followed by such operators only. -/
theorem parseExpression_prescribed_iff (hend : endToken.IsEnd) (hstop : stop.Stops endToken)
    (hnames : Sequence.NoClasses P seq.first seq.rest)
    (htokens : P.tokens.drop s.pos = seq.tokens ++ stop :: after)
    (hfuel : (seq.tokens ++ stop :: after).length + 1 ≤ fuel) :
    (Prescribes P fuel endToken s seq ↔ Steady OpDesc.precedence seq.operators) ∧
      (seq.NothingToFold P →
        ((∃ t, Ok (parseExpression P (fuel + 1) endToken) s (treeExpression seq.prescribed) t) ↔
          Steady OpDesc.precedence seq.operators)) := by
  obtain ⟨queue, operators, t, hloop, hflush, hreturns⟩ :=
    parseExpression_parsed hend hstop hnames htokens hfuel
  have hsteady : seq.parsed.backwards = seq.prescribed.backwards ↔
      Steady OpDesc.precedence seq.operators := moveOne_backwards_iff _ _ _
  have hprescribes : Prescribes P fuel endToken s seq ↔
      Steady OpDesc.precedence seq.operators := by
    rw [← hsteady]
    constructor
    · rintro ⟨queue', operators', t', hloop', hqueue, -⟩
      obtain ⟨rfl, rfl⟩ := Prod.mk.inj (hloop.unique hloop').1
      exact QueueEntry.of_injective.list_map (hflush.symm.trans hqueue)
    · intro h
      have hqueue : entries seq.parsed = entries seq.prescribed :=
        congrArg (List.map QueueEntry.of) h
      have hfold : foldTree P seq.parsed = foldTree P seq.prescribed :=
        foldTree_congr (Sequence.sound_of_binary seq.parsed_binary)
          (Sequence.sound_of_binary seq.prescribed_binary) hqueue
      exact ⟨queue, operators, t, hloop, hflush.trans hqueue, hfold ▸ hreturns⟩
  refine ⟨hprescribes, fun hfold => ?_⟩
  have hparsed : foldTree P seq.parsed = treeExpression seq.parsed :=
    Sequence.foldTree_eq seq.parsed_binary fun l o r h => hfold l o r (seq.parsed_written ▸ h)
  have hprescribed : foldTree P seq.prescribed = treeExpression seq.prescribed :=
    Sequence.foldTree_eq seq.prescribed_binary fun l o r h =>
      hfold l o r (seq.prescribed_written ▸ h)
  constructor
  · rintro ⟨t, hreturns'⟩
    have htree := (hreturns.unique hreturns').1
    rw [hparsed] at htree
    have heq : seq.parsed = seq.prescribed :=
      Sequence.treeExpression_injective seq.parsed_binary seq.prescribed_binary htree
    exact hsteady.mp (congrArg Tree.backwards heq)
  · intro h
    obtain ⟨_, _, t, -, -, hreturns'⟩ := hprescribes.mpr h
    rw [hprescribed] at hreturns'
    exact ⟨t, hreturns'⟩

end

def variableToken (name : String) : OperandToken := ⟨⟨.tokIdentifier, 1, name, 0, 0⟩, .inl rfl⟩

def minusToken : OperatorToken :=
  ⟨⟨.tokMinus, 1, "-", 0, 0⟩, ⟨⟨.tokMinus, .sub, true, true⟩, by decide, by decide, by decide⟩, rfl⟩

def timesToken : OperatorToken :=
  ⟨⟨.tokAsterisk, 1, "*", 0, 0⟩,
    ⟨⟨.tokAsterisk, .multiply, true, true⟩, by decide, by decide, by decide⟩, rfl⟩

/-- `a - b * c` -/
def risingSequence : Sequence :=
  ⟨variableToken "a", [(minusToken, variableToken "b"), (timesToken, variableToken "c")]⟩

theorem parseExpression_prescribed_rising :
    Prescribes (plainParser (risingSequence.tokens ++ [⟨.tokSemicolon, 1, ";", 0, 0⟩])) 7 .tokAny
      ⟨0, ()⟩ risingSequence := by
  have hnames : Sequence.NoClasses (plainParser
      (risingSequence.tokens ++ [⟨.tokSemicolon, 1, ";", 0, 0⟩])) risingSequence.first
      risingSequence.rest :=
    ⟨fun hdot => (nomatch hdot), fun hdot => (nomatch hdot), trivial⟩
  have hsteady : Steady OpDesc.precedence risingSequence.operators := by decide
  exact (parseExpression_prescribed_iff (.inl rfl) (.inr (.inl rfl)) hnames rfl
    (Nat.le_refl 7)).1.mpr hsteady

/-- `a - b * c - d` -/
def fallingSequence : Sequence :=
  ⟨variableToken "a",
    [(minusToken, variableToken "b"), (timesToken, variableToken "c"),
      (minusToken, variableToken "d")]⟩

/-- It is parsed as `a - (b * c - d)`. -/
theorem fallingSequence_parsed :
    (∃ t, Ok (parseExpression (plainParser
        (fallingSequence.tokens ++ [⟨.tokSemicolon, 1, ";", 0, 0⟩])) 10 .tokAny) ⟨0, ()⟩
      (.oper .unknown .sub (some (.var .unknown 0 "a"))
        (some (.oper .unknown .sub
          (some (.oper .unknown .multiply (some (.var .unknown 0 "b"))
            (some (.var .unknown 0 "c"))))
          (some (.var .unknown 0 "d"))))) t) ∧
    ¬Prescribes (plainParser (fallingSequence.tokens ++ [⟨.tokSemicolon, 1, ";", 0, 0⟩])) 9
      .tokAny ⟨0, ()⟩ fallingSequence := by
  have hnames : Sequence.NoClasses (plainParser
      (fallingSequence.tokens ++ [⟨.tokSemicolon, 1, ";", 0, 0⟩])) fallingSequence.first
      fallingSequence.rest :=
    ⟨fun hdot => (nomatch hdot), fun hdot => (nomatch hdot), fun hdot => (nomatch hdot), trivial⟩
  obtain ⟨_, _, t, -, -, hparsed⟩ :=
    parseExpression_parsed (s := ⟨0, ()⟩) (.inl rfl) (.inr (.inl rfl)) hnames rfl (Nat.le_refl 9)
  refine ⟨⟨t, hparsed⟩, ?_⟩
  rintro ⟨_, _, t', -, -, hprescribed⟩
  have htree := (hparsed.unique hprescribed).1
  -- the left operands of the two subtractions at the root
  have hleft : Expression.var .unknown 0 "a" = .oper .unknown .sub (some (.var .unknown 0 "a"))
      (some (.oper .unknown .multiply (some (.var .unknown 0 "b"))
        (some (.var .unknown 0 "c")))) := Option.some.inj (Expression.oper.inj htree).2.2.1
  cases hleft

end B0rk
