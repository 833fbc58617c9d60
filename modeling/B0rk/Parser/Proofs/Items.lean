import B0rk.Parser.Items

set_option autoImplicit false

/-! # The loop of `parseExpression` in two parts

`parseExpressionLoop` reads the items and places them. -/

namespace B0rk

variable {World : Type} {P : ParserEnv World} {op : OpDesc} {operators : List (Option OpDesc)}
  {queue : List QueueEntry}

/-! ## Brackets on the operator stack -/

theorem popToBracket_some (h : none ∈ operators) :
    ∃ operators' queue', popToBracket operators queue = some (operators', queue') ∧
      operators'.count none + 1 = operators.count none := by
  induction operators generalizing queue with
  | nil => cases h
  | cons top operators ih =>
    cases top with
    | none => exact ⟨operators, queue, rfl, List.count_cons_self.symm⟩
    | some top =>
      rw [List.mem_cons] at h
      obtain ⟨operators', queue', hpop, hcount⟩ := ih (h.resolve_left (Option.some_ne_none top).symm)
      refine ⟨operators', queue', hpop, ?_⟩
      rw [List.count_cons_of_ne (Option.some_ne_none top)]
      exact hcount

@[simp] theorem pushOperatorStack_count :
    (pushOperatorStack op operators queue).1.count none = operators.count none := by
  rcases operators with _ | ⟨_ | top, below⟩
  · rfl
  · simp [pushOperatorStack]
  · rw [pushOperatorStack]
    split <;> simp

/-! ## What an operator makes of two operands -/

section

variable {left right expr : Expression}

theorem buildOperation_folds (h : foldLiterals P op.oper left right = some expr) :
    buildOperation P op (some left) (some right) = some expr := by
  simp only [buildOperation, h]

theorem buildOperation_plain (h : foldLiterals P op.oper left right = none)
    (hplain : ¬op.assigns) :
    buildOperation P op (some left) (some right) =
      some (.oper .unknown op.oper (some left) (some right)) := by
  simp only [buildOperation, h]
  exact if_neg hplain

/-- `+=` and `-=` ask for a variable. -/
theorem buildOperation_assigned (h : foldLiterals P op.oper left right = none)
    (hassigns : op.assigns)
    (hbuild : buildOperation P op (some left) (some right) = some expr) :
    ∃ valueType clazz var type, left = .var valueType clazz var ∧
      expr = .oper .unknown op.oper (some (.var valueType clazz var))
        (some (.oper type op.assignedType (some (.var .unknown 0 var)) (some right))) := by
  have htoken : op.token = .tokAddAssign ∨ op.token = .tokSubAssign := hassigns
  unfold buildOperation at hbuild
  simp only [h] at hbuild
  rw [if_pos htoken] at hbuild
  split at hbuild
  · exact ⟨_, _, _, _, rfl, (Option.some.inj hbuild).symm⟩
  · cases hbuild

/-- Every other operator takes what it is given, and these take variables. -/
theorem buildOperation_isSome
    (h : op.assigns → ∃ valueType clazz var, left = .var valueType clazz var) :
    (buildOperation P op (some left) (some right)).isSome := by
  cases hfold : foldLiterals P op.oper left right with
  | some expr =>
    rw [buildOperation_folds hfold]
    rfl
  | none =>
    by_cases hassigns : op.assigns
    · obtain ⟨valueType, clazz, var, rfl⟩ := h hassigns
      have htoken : op.token = .tokAddAssign ∨ op.token = .tokSubAssign := hassigns
      unfold buildOperation
      simp only [hfold]
      rw [if_pos htoken]
      rfl
    · rw [buildOperation_plain hfold hassigns]
      rfl

end

/-! ## Infix expressions -/

theorem Infix.alternates_append {items : List ExpressionItem} (h : Infix items) (brackets : ℕ)
    (rest : List ExpressionItem) :
    alternates false brackets (items ++ rest) = alternates true brackets rest := by
  induction h generalizing brackets rest with
  | operand => rfl
  | @brackets items _ ih =>
    show alternates false (brackets + 1) ((items ++ [.bracketRight]) ++ rest) = _
    rw [List.append_assoc, ih]
    rfl
  | @binary op lefts rights hleft hright _ _ ihl ihr =>
    rw [List.append_assoc, ihl]
    show ((op.hasLeftExpr == true) && alternates (!op.hasRightExpr) brackets (rights ++ rest)) = _
    rw [hleft, hright, Bool.not_true, ihr]
    rfl
  | @onlyRight op rights hleft hright _ ih =>
    show ((op.hasLeftExpr == false) && alternates (!op.hasRightExpr) brackets (rights ++ rest)) = _
    rw [hleft, hright, Bool.not_true, ih]
    rfl
  | @onlyLeft op lefts hleft hright _ ih =>
    rw [List.append_assoc, ih]
    show ((op.hasLeftExpr == true) && alternates (!op.hasRightExpr) brackets rest) = _
    rw [hleft, hright]
    rfl

/-- Behind an expression comes the end, or the bracket that has been open around it. -/
def EndsAt (brackets : ℕ) (rest : List ExpressionItem) : Prop :=
  brackets = 0 ∧ rest = [] ∨
    ∃ outer rest', brackets = outer + 1 ∧ rest = .bracketRight :: rest' ∧
      alternates true outer rest' = true

/-- The first expression among the items that stand alternately; `first` is what there is of it. -/
theorem exists_infixOf (n : ℕ) (items : List ExpressionItem) (hlen : items.length ≤ n)
    (hknown : ∀ op, .operator op ∈ items → op.hasLeftExpr = false → op.hasRightExpr = true)
    (brackets : ℕ) :
    (alternates false brackets items = true → ∃ expr rest, items = expr ++ rest ∧ Infix expr ∧
      EndsAt brackets rest) ∧
    ∀ first, Infix first → alternates true brackets items = true →
      ∃ expr rest, first ++ items = expr ++ rest ∧ Infix expr ∧ EndsAt brackets rest := by
  induction n generalizing items brackets with
  | zero =>
    obtain rfl := List.eq_nil_of_length_eq_zero (Nat.le_zero.mp hlen)
    refine ⟨fun h => Bool.noConfusion h, fun first hfirst h => ⟨first, [], rfl, hfirst, .inl ⟨?_, rfl⟩⟩⟩
    simpa [alternates] using h
  | succ n ih =>
    rcases items with _ | ⟨item, items⟩
    · refine ⟨fun h => Bool.noConfusion h, fun first hfirst h => ⟨first, [], rfl, hfirst, .inl ⟨?_, rfl⟩⟩⟩
      simpa [alternates] using h
    have hlen' : items.length ≤ n := Nat.le_of_succ_le_succ hlen
    have hknown' : ∀ op, .operator op ∈ items → op.hasLeftExpr = false → op.hasRightExpr = true :=
      fun op hmem => hknown op (List.mem_cons_of_mem _ hmem)
    have ihl := ih items hlen' hknown'
    cases item with
    | operand expr =>
      refine ⟨fun h => ?_, fun first _ h => Bool.noConfusion h⟩
      exact (ihl brackets).2 [.operand expr] (.operand expr) h
    | operator op =>
      have hop := hknown op (List.mem_cons_self ..)
      constructor
      · intro h
        obtain ⟨hleft, hrest⟩ := Bool.and_eq_true_iff.mp h
        have hleft : op.hasLeftExpr = false := beq_iff_eq.mp hleft
        rw [hop hleft, Bool.not_true] at hrest
        obtain ⟨expr, rest, rfl, hexpr, hend⟩ := (ihl brackets).1 hrest
        exact ⟨.operator op :: expr, rest, rfl, .onlyRight hleft (hop hleft) hexpr, hend⟩
      · intro first hfirst h
        obtain ⟨hleft, hrest⟩ := Bool.and_eq_true_iff.mp h
        have hleft : op.hasLeftExpr = true := beq_iff_eq.mp hleft
        cases hright : op.hasRightExpr with
        | true =>
          rw [hright, Bool.not_true] at hrest
          obtain ⟨expr, rest, rfl, hexpr, hend⟩ := (ihl brackets).1 hrest
          exact ⟨first ++ .operator op :: expr, rest, by simp, .binary hleft hright hfirst hexpr, hend⟩
        | false =>
          rw [hright, Bool.not_false] at hrest
          obtain ⟨expr, rest, heq, hexpr, hend⟩ :=
            (ihl brackets).2 (first ++ [.operator op]) (.onlyLeft hleft hright hfirst) hrest
          exact ⟨expr, rest, by rw [← heq]; simp, hexpr, hend⟩
    | bracketLeft =>
      refine ⟨fun h => ?_, fun first _ h => Bool.noConfusion h⟩
      obtain ⟨inner, rest, rfl, hinner, hend⟩ := (ihl (brackets + 1)).1 h
      obtain ⟨outer, rest', hbrackets, rfl, hrest⟩ := hend.resolve_left fun h => by omega
      obtain rfl : brackets = outer := by omega
      have hlen'' : rest'.length ≤ n := by
        simp only [List.length_append, List.length_cons] at hlen'
        omega
      obtain ⟨expr, rest, heq, hexpr, hend⟩ := (ih rest' hlen'' (fun op hmem =>
        hknown' op (by simp [hmem])) brackets).2 _ (.brackets hinner) hrest
      exact ⟨expr, rest, by rw [← heq]; simp, hexpr, hend⟩
    | bracketRight =>
      refine ⟨fun h => Bool.noConfusion h, fun first hfirst h => ?_⟩
      obtain ⟨hopen, hrest⟩ := Bool.and_eq_true_iff.mp h
      have hne : brackets ≠ 0 := by simpa using hopen
      exact ⟨first, .bracketRight :: items, rfl, hfirst,
        .inr ⟨brackets - 1, items, by omega, rfl, hrest⟩⟩

/-- **Infix expressions** are the items that stand alternately. -/
theorem infix_iff {items : List ExpressionItem}
    (hknown : ∀ op, .operator op ∈ items → op.hasLeftExpr = false → op.hasRightExpr = true) :
    Infix items ↔ alternates false 0 items = true := by
  constructor
  · intro h
    have happend := h.alternates_append 0 []
    rwa [List.append_nil] at happend
  · intro h
    obtain ⟨expr, rest, rfl, hexpr, hend⟩ := (exists_infixOf _ items le_rfl hknown 0).1 h
    rcases hend with ⟨-, rfl⟩ | ⟨outer, _, hzero, _⟩
    · rwa [List.append_nil]
    · omega

/-! ## The two parts -/

/-- **The loop** reads the items, and then it is about the items only. -/
theorem parseExpressionLoop_eq (fuel : ℕ) (endToken : TokenType) (queue : List QueueEntry)
    (operators : List (Option OpDesc)) (brackets : ℕ) (h : operators.count none = brackets) :
    parseExpressionLoop P fuel endToken queue operators brackets =
      readItems P fuel endToken brackets >>= fun items =>
        Attempt.ofOption (place items queue operators) := by
  induction fuel generalizing queue operators brackets with
  | zero =>
    rw [parseExpressionLoop, readItems]
    rfl
  | succ fuel ih =>
    rw [parseExpressionLoop, readItems, bind_assoc]
    congr 1
    funext token
    split
    · rfl
    · next hcontinue =>
      cases opTable.find? (fun desc => desc.token == token.type) with
      | some op =>
        simp only [bind_assoc, pure_bind, place]
        exact ih _ _ _ (pushOperatorStack_count.trans h)
      | none =>
        by_cases hleft : token.type = .tokBracketLeft
        · simp only [if_pos hleft, bind_assoc, pure_bind, place]
          exact ih _ _ _ (List.count_cons_self.trans (congrArg Nat.succ h))
        · rw [if_neg hleft, if_neg hleft]
          by_cases hright : token.type = .tokBracketRight
          · have hopen : brackets ≠ 0 := fun h0 => hcontinue (.inl ⟨hright, h0⟩)
            have hmem : none ∈ operators := List.count_pos_iff.mp (by omega)
            obtain ⟨operators', queue', hpop, hcount⟩ : ∃ operators' queue',
                popToBracket operators queue = some (operators', queue') ∧
                  operators'.count none + 1 = operators.count none := popToBracket_some hmem
            simp only [if_pos hright, bind_assoc, pure_bind, place, hpop, Option.bind_some]
            exact ih _ _ _ (by omega)
          · simp only [if_neg hright, bind_assoc, pure_bind, place, ih _ _ _ h]

/-- `parseExpression` in two parts. -/
theorem parseExpression_eq (fuel : ℕ) (endToken : TokenType) :
    parseExpression P (fuel + 1) endToken =
      readItems P fuel endToken 0 >>= fun items => Attempt.ofOption (combine P items) := by
  rw [parseExpression, parseExpressionLoop_eq fuel endToken [] [] 0 rfl, bind_assoc]
  congr 1
  funext items
  rw [combine, order]
  cases place items [] [] with
  | none => rfl
  | some result =>
    obtain ⟨queue, operators⟩ := result
    refine (pure_bind (queue, operators) _).trans ?_
    have hflush : operators.foldl (fun queue op => QueueEntry.ofOperator op :: queue) queue =
        flush operators queue := rfl
    dsimp only [Option.map_some, Option.bind_some]
    rw [hflush]
    cases buildTree P (flush operators queue).length (flush operators queue) <;> rfl

end B0rk
