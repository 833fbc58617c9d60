import B0rk.Parser.Proofs.Items
import B0rk.Parser.Proofs.Shown

set_option autoImplicit false

/-! # Dropped operands

`buildTree` takes a tree off the back of the output queue and leaves the rest. What it takes is
`Complete`, the shortest piece in which every operator finds its operands. -/

namespace B0rk

open Attempt (Ok)
open Postfix

variable {World : Type} {P : ParserEnv World} {queue lefts rights : List QueueEntry}
  {operators : List (Option OpDesc)} {items : List ExpressionItem} {op : OpDesc}
  {expr left right : Expression} {copied : Word → Word} {target : QueueEntry → Prop}

/-! ## The output queue holds what was read -/

def QueueEntry.isBracket : QueueEntry → Bool
  | .bracket => true
  | _ => false

/-- The operands and operators on the queue and on the stack. -/
def pooled (queue : List QueueEntry) (operators : List (Option OpDesc)) : List QueueEntry :=
  queue.filter (fun entry => !entry.isBracket) ++ (operators.filterMap id).map .operator

theorem pooled_value : pooled (.value expr :: queue) operators = .value expr :: pooled queue operators :=
  rfl

theorem pooled_operator :
    pooled (.operator op :: queue) operators = .operator op :: pooled queue operators := rfl

theorem pooled_none : pooled queue (none :: operators) = pooled queue operators := rfl

theorem pooled_some :
    (pooled queue (some op :: operators)).Perm (.operator op :: pooled queue operators) :=
  List.perm_middle

theorem popToBracket_pooled {operators' : List (Option OpDesc)} {queue' : List QueueEntry}
    (h : popToBracket operators queue = some (operators', queue')) :
    (pooled queue' operators').Perm (pooled queue operators) := by
  induction operators generalizing queue with
  | nil => cases h
  | cons top operators ih =>
    cases top with
    | none =>
      obtain ⟨rfl, rfl⟩ := Prod.mk.inj (Option.some.inj h)
      exact List.Perm.refl _
    | some op =>
      have hrest := ih h
      rw [pooled_operator] at hrest
      exact hrest.trans pooled_some.symm

theorem pushOperatorStack_pooled (op : OpDesc) (operators : List (Option OpDesc))
    (queue : List QueueEntry) :
    (pooled (pushOperatorStack op operators queue).2 (pushOperatorStack op operators queue).1).Perm
      (.operator op :: pooled queue operators) := by
  rcases operators with _ | ⟨_ | top, below⟩
  · exact pooled_some
  · exact pooled_some
  · rw [pushOperatorStack]
    split
    · refine pooled_some.trans (List.Perm.cons _ ?_)
      rw [pooled_operator]
      exact pooled_some.symm
    · exact pooled_some

theorem place_pooled {operators' : List (Option OpDesc)} {queue' : List QueueEntry}
    (h : place items queue operators = some (queue', operators')) :
    (pooled queue' operators').Perm (itemEntries items ++ pooled queue operators) := by
  induction items generalizing queue operators with
  | nil =>
    obtain ⟨rfl, rfl⟩ := Prod.mk.inj (Option.some.inj h)
    exact List.Perm.refl _
  | cons item items ih =>
    cases item with
    | operand expr =>
      have hrest := ih h
      rw [pooled_value] at hrest
      exact hrest.trans List.perm_middle
    | operator op =>
      have hrest := ih h
      refine hrest.trans (((pushOperatorStack_pooled op operators queue).append_left _).trans ?_)
      exact List.perm_middle
    | bracketLeft =>
      have hrest := ih h
      rw [pooled_none] at hrest
      exact hrest
    | bracketRight =>
      obtain ⟨⟨operators₁, queue₁⟩, hpop, h⟩ := Option.bind_eq_some_iff.mp h
      exact (ih h).trans ((popToBracket_pooled hpop).append_left _)

theorem flush_pooled (operators : List (Option OpDesc)) (queue : List QueueEntry) :
    ((flush operators queue).filter (fun entry => !entry.isBracket)).Perm
      (pooled queue operators) := by
  induction operators generalizing queue with
  | nil =>
    rw [pooled, List.filterMap_nil, List.map_nil, List.append_nil]
    exact List.Perm.refl _
  | cons top operators ih =>
    cases top with
    | none => exact ih (.bracket :: queue)
    | some op =>
      refine (ih (.operator op :: queue)).trans ?_
      rw [pooled_operator]
      exact pooled_some.symm

/-- **The output queue** is the operands and operators that were read, in another order, but for the
    brackets that are still open. -/
theorem order_perm (h : order items = some queue) :
    (queue.filter (fun entry => !entry.isBracket)).Perm (itemEntries items) := by
  obtain ⟨⟨queue', operators'⟩, hplace, rfl⟩ := Option.map_eq_some_iff.mp h
  have hpooled := place_pooled hplace
  have hempty : pooled [] [] = [] := rfl
  rw [hempty, List.append_nil] at hpooled
  exact (flush_pooled operators' queue').trans hpooled

/-! ## The operators come from the table -/

/-- The operators of a queue are those of `opTable`. -/
def KnownOperators (queue : List QueueEntry) : Prop := ∀ op, .operator op ∈ queue → op ∈ opTable

/-- Every operator of the table has an operand. -/
theorem opTable_operand : ∀ op ∈ opTable, op.hasLeftExpr = false → op.hasRightExpr = true := by
  decide

theorem KnownOperators.operands (h : KnownOperators (.operator op :: (rights ++ lefts))) :
    KnownOperators rights ∧ KnownOperators lefts :=
  ⟨fun op hmem => h op (List.mem_cons_of_mem _ (List.mem_append_left _ hmem)),
    fun op hmem => h op (List.mem_cons_of_mem _ (List.mem_append_right _ hmem))⟩

theorem readItems_known {fuel : ℕ} {endToken : TokenType} {brackets : ℕ} {s t : ParserState World}
    (h : Ok (readItems P fuel endToken brackets) s items t) : KnownOperators (itemEntries items) := by
  induction fuel generalizing brackets s t items with
  | zero => exact absurd h (by simp [readItems])
  | succ fuel ih =>
    rw [readItems, Attempt.bind_ok] at h
    obtain ⟨token, u, -, h⟩ := h
    split at h
    · -- the end of the expression
      obtain ⟨_, _, _, h⟩ := Attempt.bind_ok.mp h
      obtain ⟨rfl, -⟩ := Attempt.pure_ok.mp h
      intro op hmem
      cases hmem
    · cases hfind : opTable.find? (fun desc => desc.token == token.type) with
      | some op =>
        rw [hfind] at h
        obtain ⟨items', v, hrest, h⟩ := Attempt.bind_ok.mp h
        obtain ⟨rfl, -⟩ := Attempt.pure_ok.mp h
        intro op' hmem
        rcases List.mem_cons.mp hmem with heq | hmem
        · obtain rfl := QueueEntry.operator.inj heq
          exact List.mem_of_find?_eq_some hfind
        · exact ih hrest op' hmem
      | none =>
        rw [hfind] at h
        dsimp only at h
        split at h
        · obtain ⟨items', v, hrest, h⟩ := Attempt.bind_ok.mp h
          obtain ⟨rfl, -⟩ := Attempt.pure_ok.mp h
          show KnownOperators (itemEntries items')
          exact ih hrest
        split at h
        · obtain ⟨items', v, hrest, h⟩ := Attempt.bind_ok.mp h
          obtain ⟨rfl, -⟩ := Attempt.pure_ok.mp h
          show KnownOperators (itemEntries items')
          exact ih hrest
        · obtain ⟨_, _, _, h⟩ := Attempt.bind_ok.mp h
          obtain ⟨expr, v, -, h⟩ := Attempt.bind_ok.mp h
          obtain ⟨items', w, hrest, h⟩ := Attempt.bind_ok.mp h
          obtain ⟨rfl, -⟩ := Attempt.pure_ok.mp h
          intro op' hmem
          exact ih hrest op' ((List.mem_cons.mp hmem).resolve_left QueueEntry.noConfusion)

theorem readItems_hasOperand {fuel : ℕ} {endToken : TokenType} {brackets : ℕ}
    {s t : ParserState World}
    (h : Ok (readItems P fuel endToken brackets) s items t) (op : OpDesc)
    (hmem : .operator op ∈ items) : op.hasLeftExpr = false → op.hasRightExpr = true :=
  opTable_operand op (readItems_known h op (List.mem_filterMap.mpr ⟨_, hmem, rfl⟩))

theorem order_known {fuel : ℕ} {endToken : TokenType} {brackets : ℕ} {s t : ParserState World}
    (hread : Ok (readItems P fuel endToken brackets) s items t) (horder : order items = some queue) :
    KnownOperators queue := by
  intro op hmem
  refine readItems_known hread op ((order_perm horder).mem_iff.mp ?_)
  exact List.mem_filter.mpr ⟨hmem, rfl⟩

/-! ## What `buildTree` takes -/

/-- An operator takes its right operand off the queue and then its left one. -/
theorem buildTree_operator {n : ℕ} {rest : List QueueEntry} :
    buildTree P (n + 1) (.operator op :: queue) = some (expr, rest) ↔
      ∃ right between left,
        (if op.hasRightExpr then (buildTree P n queue).map (fun (right, queue) => (some right, queue))
          else some (none, queue)) = some (right, between) ∧
        (if op.hasLeftExpr then (buildTree P n between).map (fun (left, queue) => (some left, queue))
          else some (none, between)) = some (left, rest) ∧
        buildOperation P op left right = some expr := by
  rw [buildTree]
  simp only [Option.bind_eq_bind, Option.bind_eq_some_iff, Option.some.injEq, Prod.mk.injEq,
    Prod.exists]
  constructor
  · rintro ⟨right, between, hright, left, rest', hleft, expr', hbuild, rfl, rfl⟩
    exact ⟨right, between, left, hright, hleft, hbuild⟩
  · rintro ⟨right, between, left, hright, hleft, hbuild⟩
    exact ⟨right, between, hright, left, rest, hleft, expr, hbuild, rfl, rfl⟩

/-- The operators that assign have two operands and do not fold. -/
theorem opTable_assigns : ∀ op ∈ opTable, op.assigns →
    op.oper = .set ∧ op.hasLeftExpr = true ∧ op.hasRightExpr = true := by
  decide

/-- Folding makes literals. -/
theorem foldLiterals_ne_var {oper : OpType} {valueType : ValueType} {clazz : Word} {var : String} :
    foldLiterals P oper left right ≠ some (.var valueType clazz var) := by
  unfold foldLiterals
  split <;> exact fun h => nomatch h

theorem foldLiterals_ne_oper {oper oper' : OpType} {valueType : ValueType} {l r : Option Expression} :
    foldLiterals P oper left right ≠ some (.oper valueType oper' l r) := by
  unfold foldLiterals
  split <;> exact fun h => nomatch h

/-- A literal that folds. -/
def Expression.IsNumber : Expression → Prop
  | .integer .. | .double .. => True
  | _ => False

theorem foldLiterals_number {oper : OpType} (h : foldLiterals P oper left right = some expr) :
    left.IsNumber ∧ right.IsNumber ∧ expr.IsNumber := by
  unfold foldLiterals at h
  split at h
  all_goals first
    | (obtain rfl := Option.some.inj h; exact ⟨trivial, trivial, trivial⟩)
    | cases h

/-- A variable is an operand of its own. -/
theorem MadeOf.of_var {valueType : ValueType} {clazz : Word} {var : String}
    (h : MadeOf P copied (.var valueType clazz var) queue) :
    queue = [.value (.var valueType clazz var)] := by
  cases h with
  | operand => rfl
  | folded _ _ _ _ _ hfold => exact absurd hfold foldLiterals_ne_var

/-- What an operator makes of two operands. -/
theorem buildOperation_madeOf (hop : op ∈ opTable) (hleft : op.hasLeftExpr = true)
    (hright : op.hasRightExpr = true) (hlefts : MadeOf P (fun _ => 0) left lefts)
    (hrights : MadeOf P (fun _ => 0) right rights)
    (h : buildOperation P op (some left) (some right) = some expr) :
    MadeOf P (fun _ => 0) expr (.operator op :: (rights ++ lefts)) := by
  by_cases hassigns : op.assigns
  · have hnone : foldLiterals P op.oper left right = none := by
      rw [(opTable_assigns op hop hassigns).1]
      rfl
    obtain ⟨valueType, clazz, var, type, rfl, rfl⟩ := buildOperation_assigned hnone hassigns h
    rw [hlefts.of_var]
    exact .assigned hleft hright hassigns hrights
  · cases hfold : foldLiterals P op.oper left right with
    | some expr' =>
      rw [buildOperation_folds hfold] at h
      obtain rfl := Option.some.inj h
      exact .folded hleft hright hassigns hlefts hrights hfold
    | none =>
      rw [buildOperation_plain hfold hassigns] at h
      obtain rfl := Option.some.inj h
      exact .binary hleft hright hassigns hlefts hrights

/-- What it takes off the queue is what its result shows. -/
theorem buildTree_madeOf {n : ℕ} {rest : List QueueEntry} (hknown : KnownOperators queue)
    (h : buildTree P n queue = some (expr, rest)) :
    ∃ used, queue = used ++ rest ∧ MadeOf P (fun _ => 0) expr used := by
  induction n generalizing queue expr rest with
  | zero => cases h
  | succ n ih =>
    rcases queue with _ | ⟨entry, queue⟩
    · cases h
    cases entry with
    | bracket => cases h
    | value expr' =>
      obtain ⟨rfl, rfl⟩ := Prod.mk.inj (Option.some.inj h)
      exact ⟨[.value expr'], rfl, .operand expr'⟩
    | operator op =>
      have hop : op ∈ opTable := hknown op (List.mem_cons_self ..)
      have hknown : KnownOperators queue := fun op hmem => hknown op (List.mem_cons_of_mem _ hmem)
      obtain ⟨right, between, left, hright, hleft, hbuild⟩ := buildTree_operator.mp h
      cases hr : op.hasRightExpr with
      | false =>
        have hl : op.hasLeftExpr = true := by
          by_contra hl
          exact Bool.noConfusion (hr.symm.trans (opTable_operand op hop (Bool.eq_false_of_not_eq_true hl)))
        rw [hr, if_neg Bool.false_ne_true] at hright
        obtain ⟨rfl, rfl⟩ := Prod.mk.inj (Option.some.inj hright)
        rw [hl, if_pos rfl, Option.map_eq_some_iff] at hleft
        obtain ⟨⟨left, rest⟩, hleft, hpair⟩ := hleft
        obtain ⟨rfl, rfl⟩ := Prod.mk.inj hpair
        obtain ⟨lefts, rfl, hlefts⟩ := ih hknown hleft
        obtain rfl := Option.some.inj hbuild
        exact ⟨.operator op :: lefts, rfl, .onlyLeft hl hr hlefts⟩
      | true =>
        rw [hr, if_pos rfl, Option.map_eq_some_iff] at hright
        obtain ⟨⟨right, between⟩, hright, hpair⟩ := hright
        obtain ⟨rfl, rfl⟩ := Prod.mk.inj hpair
        obtain ⟨rights, rfl, hrights⟩ := ih hknown hright
        have hknown : KnownOperators between := fun op hmem => hknown op (List.mem_append_right _ hmem)
        cases hl : op.hasLeftExpr with
        | false =>
          rw [hl, if_neg Bool.false_ne_true] at hleft
          obtain ⟨rfl, rfl⟩ := Prod.mk.inj (Option.some.inj hleft)
          obtain rfl := Option.some.inj hbuild
          exact ⟨.operator op :: rights, rfl, .onlyRight hl hr hrights⟩
        | true =>
          rw [hl, if_pos rfl, Option.map_eq_some_iff] at hleft
          obtain ⟨⟨left, rest⟩, hleft, hpair⟩ := hleft
          obtain ⟨rfl, rfl⟩ := Prod.mk.inj hpair
          obtain ⟨lefts, rfl, hlefts⟩ := ih hknown hleft
          refine ⟨.operator op :: (rights ++ lefts), by simp, ?_⟩
          exact buildOperation_madeOf hop hl hr hlefts hrights hbuild

/-! ## What it takes is complete -/

theorem QueueEntry.weight_le_one (entry : QueueEntry) : entry.weight ≤ 1 := by
  cases entry with
  | value expr => exact le_refl _
  | operator op =>
    simp only [QueueEntry.weight]
    split <;> split <;> omega
  | bracket => decide

theorem weight_binary (hleft : op.hasLeftExpr = true) (hright : op.hasRightExpr = true) :
    (QueueEntry.operator op).weight = -1 := by
  rw [QueueEntry.weight, hleft, hright]
  rfl

theorem weight_single (h : op.hasLeftExpr ≠ op.hasRightExpr) :
    (QueueEntry.operator op).weight = 0 := by
  rw [QueueEntry.weight]
  cases hleft : op.hasLeftExpr <;> cases hright : op.hasRightExpr
  · exact absurd (hleft.trans hright.symm) h
  · rfl
  · rfl
  · exact absurd (hleft.trans hright.symm) h

theorem Complete.operand (expr : Expression) : Complete target [.value expr] where
  noBracket entry hmem := by
    rw [List.mem_singleton.mp hmem]
    exact QueueEntry.noConfusion
  reaches := by
    refine ⟨rfl, fun p s h hs => ?_⟩
    rcases p with _ | ⟨entry, p⟩
    · decide
    · obtain ⟨-, hnil⟩ := List.cons.inj h
      exact absurd (List.append_eq_nil_iff.mp hnil.symm).2 hs
  assigns op _ rights entry behind hsuffix := by
    rcases List.suffix_cons_iff.mp hsuffix with h | h
    · cases h
    · exact absurd (List.suffix_nil.mp h) (List.cons_ne_nil _ _)

theorem Complete.single (hq : Complete target queue) (h : op.hasLeftExpr ≠ op.hasRightExpr) :
    Complete target (.operator op :: queue) where
  noBracket entry hmem := by
    rcases List.mem_cons.mp hmem with rfl | hmem
    · exact QueueEntry.noConfusion
    · exact hq.noBracket entry hmem
  reaches := by
    have hcons := hq.reaches.cons (x := .operator op) (by rw [weight_single h]; decide)
    rwa [weight_single h, zero_add] at hcons
  assigns op' hop rights entry behind hsuffix hassigns hrights := by
    rcases List.suffix_cons_iff.mp hsuffix with heq | hsuffix
    · -- the only operand is all there is
      obtain ⟨-, heq⟩ := List.cons.inj heq
      have hnil := (hrights.unique hq.reaches (heq.trans (List.append_nil queue).symm)).2
      exact absurd hnil (List.cons_ne_nil _ _)
    · exact hq.assigns op' hop rights entry behind hsuffix hassigns hrights

theorem Complete.binary (hrights : Complete target rights) (hlefts : Complete target lefts)
    (hleft : op.hasLeftExpr = true) (hright : op.hasRightExpr = true)
    (h : op.assigns → ∃ entry, lefts = [entry] ∧ target entry) :
    Complete target (.operator op :: (rights ++ lefts)) where
  noBracket entry hmem := by
    rcases List.mem_cons.mp hmem with rfl | hmem
    · exact QueueEntry.noConfusion
    · rcases List.mem_append.mp hmem with hmem | hmem
      · exact hrights.noBracket entry hmem
      · exact hlefts.noBracket entry hmem
  reaches := by
    have htwo := hrights.reaches.append hlefts.reaches one_pos
    have hcons := htwo.cons (x := .operator op) (by rw [weight_binary hleft hright]; decide)
    rwa [weight_binary hleft hright] at hcons
  assigns op' hop rights' entry behind hsuffix hassigns hrights' := by
    rcases List.suffix_cons_iff.mp hsuffix with hwhole | ⟨front, hpart⟩
    · -- the operator itself
      obtain ⟨hsame, hoperands⟩ := List.cons.inj hwhole
      rw [QueueEntry.operator.inj hsame] at hassigns
      obtain ⟨-, hbehind⟩ := hrights'.unique hrights.reaches hoperands
      obtain ⟨entry', hlefts', htarget⟩ := h hassigns
      rw [← (List.cons.inj (hbehind.trans hlefts')).1] at htarget
      exact htarget
    · rcases List.append_eq_append_iff.mp hpart with ⟨c, rfl, hc⟩ | ⟨c, -, rfl⟩
      · rcases c with _ | ⟨x, c⟩
        · rw [List.nil_append] at hc
          exact hlefts.assigns op' hop rights' entry behind (hc ▸ List.suffix_rfl) hassigns hrights'
        · -- an operator of the right operand has both its operands there
          obtain ⟨rfl, hoperands⟩ := List.cons.inj hc
          have hbinary := opTable_assigns op' hop hassigns
          have hfront := hrights.reaches.below front (.operator op' :: c) rfl (List.cons_ne_nil _ _)
          have hsum := hrights.reaches.weight_eq
          rw [weight_append, weight_cons, weight_binary hbinary.2.1 hbinary.2.2] at hsum
          obtain ⟨first, second, rfl, hfirst⟩ : ∃ first second, c = first ++ second ∧
              Postfix.Reaches QueueEntry.weight 1 first :=
            exists_reaches (fun entry _ => entry.weight_le_one) one_pos (by omega)
          obtain ⟨rfl, hsecond⟩ :=
            hrights'.unique hfirst (hoperands.trans (List.append_assoc first second lefts))
          rcases second with _ | ⟨entry', second⟩
          · rw [List.append_nil, hrights'.weight_eq] at hsum
            omega
          · obtain ⟨rfl, -⟩ := List.cons.inj hsecond
            exact hrights.assigns op' hop rights' entry second (List.suffix_append _ _) hassigns
              hrights'
      · exact hlefts.assigns op' hop rights' entry behind (List.suffix_append _ _) hassigns hrights'

/-- **Counting.** What a tree shows is complete. -/
theorem MadeOf.complete (h : MadeOf P copied expr queue) : Complete QueueEntry.IsVariable queue := by
  induction h with
  | operand expr => exact Complete.operand expr
  | binary hleft hright hplain _ _ ihl ihr =>
    exact ihr.binary ihl hleft hright fun hassigns => absurd hassigns hplain
  | folded hleft hright hplain _ _ _ ihl ihr =>
    exact ihr.binary ihl hleft hright fun hassigns => absurd hassigns hplain
  | assigned hleft hright _ _ ih =>
    exact ih.binary (Complete.operand _) hleft hright fun _ => ⟨_, rfl, _, _, _, rfl⟩
  | onlyRight hleft hright _ ih =>
    exact ih.single (by rw [hleft, hright]; decide)
  | onlyLeft hleft hright _ ih =>
    exact ih.single (by rw [hleft, hright]; decide)

theorem AssignsTo.of_piece (h : AssignsTo target queue) {piece : List QueueEntry}
    (after : List QueueEntry) (hsuffix : piece ++ after <:+ queue) : AssignsTo target piece := by
  intro op hop rights entry behind hpiece
  obtain ⟨front, rfl⟩ := hpiece
  refine h op hop rights entry (behind ++ after) (List.IsSuffix.trans ⟨front, ?_⟩ hsuffix)
  simp

theorem AssignsTo.operands (h : AssignsTo target (.operator op :: (rights ++ lefts))) :
    AssignsTo target rights ∧ AssignsTo target lefts := by
  refine ⟨h.of_piece _ (List.suffix_cons _ _), h.of_piece [] ?_⟩
  rw [List.append_nil]
  exact (List.suffix_append _ _).trans (List.suffix_cons _ _)

theorem AssignsTo.tail (h : AssignsTo target (.operator op :: queue)) : AssignsTo target queue := by
  refine h.of_piece [] ?_
  rw [List.append_nil]
  exact List.suffix_cons _ _

/-- An operand by itself is complete. -/
theorem Complete.of_value {rest : List QueueEntry} (h : Complete target (.value expr :: rest)) :
    rest = [] := by
  by_contra hne
  exact lt_irrefl _ (h.reaches.below [.value expr] rest rfl hne)

/-- The operands of a complete queue, behind a binary operator. -/
theorem Complete.operands (h : Complete target (.operator op :: queue)) (hleft : op.hasLeftExpr = true)
    (hright : op.hasRightExpr = true) :
    ∃ rights lefts, queue = rights ++ lefts ∧ Complete target rights ∧ Complete target lefts := by
  have htwo := h.reaches.tail
  rw [weight_binary hleft hright] at htwo
  obtain ⟨rights, lefts, rfl, hrights, hlefts⟩ : ∃ rights lefts, queue = rights ++ lefts ∧
      Postfix.Reaches QueueEntry.weight 1 rights ∧ Postfix.Reaches QueueEntry.weight 1 lefts :=
    htwo.split (fun entry _ => entry.weight_le_one) one_pos one_pos
  refine ⟨rights, lefts, rfl, ⟨fun entry hmem => ?_, hrights, ?_⟩, ⟨fun entry hmem => ?_, hlefts, ?_⟩⟩
  · exact h.noBracket entry (List.mem_cons_of_mem _ (List.mem_append_left _ hmem))
  · exact h.assigns.of_piece _ (List.suffix_cons _ _)
  · exact h.noBracket entry (List.mem_cons_of_mem _ (List.mem_append_right _ hmem))
  · refine h.assigns.of_piece [] ?_
    rw [List.append_nil]
    exact (List.suffix_append _ _).trans (List.suffix_cons _ _)

/-- The operand of a complete queue, behind an operator that has only one. -/
theorem Complete.operand_of_single (h : Complete target (.operator op :: queue))
    (hop : op.hasLeftExpr ≠ op.hasRightExpr) : Complete target queue where
  noBracket entry hmem := h.noBracket entry (List.mem_cons_of_mem _ hmem)
  reaches := by
    have htail := h.reaches.tail
    rwa [weight_single hop, sub_zero] at htail
  assigns := by
    refine h.assigns.of_piece [] ?_
    rw [List.append_nil]
    exact List.suffix_cons _ _

/-- What is built for the left operand of `+=` or `-=` is a variable. -/
theorem Complete.left_variable {op : OpDesc} {rights lefts rest rest' : List QueueEntry} {n : ℕ}
    {left : Expression} (hused : Complete QueueEntry.IsVariable (.operator op :: (rights ++ lefts)))
    (hop : op ∈ opTable) (hrights : Complete QueueEntry.IsVariable rights)
    (hlefts : Complete QueueEntry.IsVariable lefts) (hassigns : op.assigns)
    (hbuild : buildTree P n (lefts ++ rest) = some (left, rest')) :
    ∃ valueType clazz var, left = .var valueType clazz var := by
  rcases lefts with _ | ⟨entry, lefts⟩
  · exact absurd hlefts.reaches.weight_eq (by decide)
  obtain ⟨valueType, clazz, var, rfl⟩ :=
    hused.assigns op hop rights entry lefts List.suffix_rfl hassigns hrights.reaches
  rw [hlefts.of_value] at hbuild
  rcases n with _ | n
  · cases hbuild
  · exact ⟨valueType, clazz, var, (Prod.mk.inj (Option.some.inj hbuild)).1.symm⟩

/-- **What is complete** is taken off the queue. -/
theorem Complete.taken {used : List QueueEntry} (hused : Complete QueueEntry.IsVariable used)
    (hknown : KnownOperators used) {n : ℕ} (hn : used.length ≤ n) (rest : List QueueEntry) :
    ∃ expr, buildTree P n (used ++ rest) = some (expr, rest) := by
  induction n generalizing used rest with
  | zero =>
    rw [List.eq_nil_of_length_eq_zero (Nat.le_zero.mp hn)] at hused
    exact absurd hused.reaches.weight_eq (by decide)
  | succ n ih =>
    rcases used with _ | ⟨entry, used⟩
    · exact absurd hused.reaches.weight_eq (by decide)
    have hlen : used.length ≤ n := Nat.le_of_succ_le_succ hn
    rw [List.cons_append]
    cases entry with
    | bracket => exact absurd rfl (hused.noBracket _ (List.mem_cons_self ..))
    | value expr =>
      rw [hused.of_value]
      exact ⟨expr, rfl⟩
    | operator op =>
      have hop : op ∈ opTable := hknown op (List.mem_cons_self ..)
      have hknown : KnownOperators used := fun op hmem => hknown op (List.mem_cons_of_mem _ hmem)
      by_cases hboth : op.hasLeftExpr = op.hasRightExpr
      · have hright : op.hasRightExpr = true := by
          by_contra hright
          rw [Bool.not_eq_true] at hright
          exact absurd (opTable_operand op hop (hboth.trans hright)) (by rw [hright]; decide)
        have hleft : op.hasLeftExpr = true := hboth.trans hright
        obtain ⟨rights, lefts, rfl, hrights, hlefts⟩ := hused.operands hleft hright
        rw [List.length_append] at hlen
        have hknownr : KnownOperators rights := fun op hmem => hknown op (List.mem_append_left _ hmem)
        have hknownl : KnownOperators lefts := fun op hmem => hknown op (List.mem_append_right _ hmem)
        obtain ⟨right, hbuildr⟩ := ih hrights hknownr (by omega) (lefts ++ rest)
        obtain ⟨left, hbuildl⟩ := ih hlefts hknownl (by omega) rest
        obtain ⟨expr, hbuild⟩ := Option.isSome_iff_exists.mp
          (buildOperation_isSome fun hassigns =>
              hused.left_variable hop hrights hlefts hassigns hbuildl :
            (buildOperation P op (some left) (some right)).isSome)
        refine ⟨expr, buildTree_operator.mpr ⟨some right, lefts ++ rest, some left, ?_, ?_, hbuild⟩⟩
        · rw [hright, if_pos rfl, List.append_assoc, hbuildr]
          rfl
        · rw [hleft, if_pos rfl, hbuildl]
          rfl
      · have hsingle := hused.operand_of_single hboth
        obtain ⟨operand, hbuild⟩ := ih hsingle hknown hlen rest
        cases hright : op.hasRightExpr with
        | true =>
          have hleft : op.hasLeftExpr = false := by
            rw [hright] at hboth
            exact Bool.eq_false_of_not_eq_true hboth
          refine ⟨_, buildTree_operator.mpr ⟨some operand, rest, none, ?_, ?_, rfl⟩⟩
          · rw [hright, if_pos rfl, hbuild]
            rfl
          · rw [hleft, if_neg Bool.false_ne_true]
        | false =>
          have hleft : op.hasLeftExpr = true := by
            rw [hright] at hboth
            exact Bool.eq_true_of_not_eq_false hboth
          refine ⟨_, buildTree_operator.mpr ⟨none, used ++ rest, some operand, ?_, ?_, rfl⟩⟩
          · rw [hright, if_neg Bool.false_ne_true]
          · rw [hleft, if_pos rfl, hbuild]
            rfl

/-! ## The copy that `+=` makes -/

/-- The ways to a tree with an operator on top. -/
theorem MadeOf.inv {l r : Option Expression} {oper : OpType} {rest : List QueueEntry}
    (h : MadeOf P copied expr queue) (hexpr : expr = .oper .unknown oper l r)
    (hqueue : queue = .operator op :: rest) :
    (∃ left right lefts rights, ¬op.assigns ∧ l = some left ∧ r = some right ∧
      rest = rights ++ lefts ∧ MadeOf P copied left lefts ∧ MadeOf P copied right rights) ∨
    (∃ valueType clazz var type right rights, op.assigns ∧ l = some (.var valueType clazz var) ∧
      r = some (.oper type op.assignedType (some (.var .unknown (copied clazz) var)) (some right)) ∧
        rest = rights ++ [.value (.var valueType clazz var)] ∧ MadeOf P copied right rights) ∨
    (∃ right, l = none ∧ r = some right ∧ MadeOf P copied right rest) ∨
    ∃ left, l = some left ∧ r = none ∧ MadeOf P copied left rest := by
  cases h with
  | operand => cases hqueue
  | binary _ _ hplain hlefts hrights =>
    obtain ⟨hop, rfl⟩ := List.cons.inj hqueue
    obtain rfl := QueueEntry.operator.inj hop
    obtain ⟨-, -, rfl, rfl⟩ := Expression.oper.inj hexpr
    exact .inl ⟨_, _, _, _, hplain, rfl, rfl, rfl, hlefts, hrights⟩
  | folded _ _ _ _ _ hfold => exact absurd (hexpr ▸ hfold) foldLiterals_ne_oper
  | assigned _ _ hassigns hrights =>
    obtain ⟨hop, rfl⟩ := List.cons.inj hqueue
    obtain rfl := QueueEntry.operator.inj hop
    obtain ⟨-, -, rfl, rfl⟩ := Expression.oper.inj hexpr
    exact .inr (.inl ⟨_, _, _, _, _, _, hassigns, rfl, rfl, rfl, hrights⟩)
  | onlyRight _ _ hrights =>
    obtain ⟨-, rfl⟩ := List.cons.inj hqueue
    obtain ⟨-, -, rfl, rfl⟩ := Expression.oper.inj hexpr
    exact .inr (.inr (.inl ⟨_, rfl, rfl, hrights⟩))
  | onlyLeft _ _ hlefts =>
    obtain ⟨-, rfl⟩ := List.cons.inj hqueue
    obtain ⟨-, -, rfl, rfl⟩ := Expression.oper.inj hexpr
    exact .inr (.inr (.inr ⟨_, rfl, rfl, hlefts⟩))

/-- In a number nothing is assigned. -/
theorem MadeOf.complete_of_number (h : MadeOf P copied expr queue) (hnumber : expr.IsNumber) :
    Complete target queue := by
  induction h with
  | operand expr => exact Complete.operand expr
  | folded hleft hright hplain _ _ hfold ihl ihr =>
    obtain ⟨hl, hr, -⟩ := foldLiterals_number hfold
    exact (ihr hr).binary (ihl hl) hleft hright fun hassigns => absurd hassigns hplain
  | binary | assigned | onlyRight | onlyLeft => cases hnumber

/-- Where the copies have the class of what they are copies of, that is no class. -/
theorem MadeOf.plain (h : MadeOf P (fun _ => 0) expr queue) (hkept : MadeOf P id expr queue) :
    Complete QueueEntry.IsPlain queue := by
  induction h with
  | operand expr => exact Complete.operand expr
  | folded hleft hright hplain hlefts hrights hfold =>
    exact hkept.complete_of_number (foldLiterals_number hfold).2.2
  | @binary op left right lefts rights hleft hright hplain _ hrights ihl ihr =>
    rcases hkept.inv rfl rfl with ⟨left', right', lefts', rights', -, hl, hr, heq, hlefts', hrights'⟩ |
        ⟨_, _, _, _, _, _, hassigns, -⟩ | ⟨_, hl, -⟩ | ⟨_, -, hr, -⟩
    · obtain rfl := Option.some.inj hl
      obtain rfl := Option.some.inj hr
      obtain ⟨rfl, rfl⟩ := hrights.complete.reaches.unique hrights'.complete.reaches heq
      exact (ihr hrights').binary (ihl hlefts') hleft hright fun hassigns => absurd hassigns hplain
    · exact absurd hassigns hplain
    · cases hl
    · cases hr
  | @assigned op valueType type clazz var right rights hleft hright hassigns hrights ih =>
    rcases hkept.inv rfl rfl with ⟨_, _, _, _, hplain, -⟩ |
        ⟨valueType', clazz', var', type', right', rights', -, hl, hr, heq, hrights'⟩ | ⟨_, hl, -⟩ |
        ⟨_, -, hr, -⟩
    · exact absurd hassigns hplain
    · obtain ⟨-, rfl, rfl⟩ := Expression.var.inj (Option.some.inj hl)
      obtain ⟨-, -, hcopy, hright'⟩ := Expression.oper.inj (Option.some.inj hr)
      obtain ⟨-, hzero, -⟩ := Expression.var.inj (Option.some.inj hcopy)
      obtain rfl := Option.some.inj hright'
      obtain ⟨rfl, -⟩ := List.append_inj' heq rfl
      refine (ih hrights').binary (Complete.operand _) hleft hright fun _ => ⟨_, rfl, ?_⟩
      rw [show clazz = 0 from hzero.symm]
      exact ⟨valueType, var, rfl⟩
    · cases hl
    · cases hr
  | onlyRight hleft hright _ ih =>
    rcases hkept.inv rfl rfl with ⟨_, _, _, _, -, hl, -⟩ | ⟨_, _, _, _, _, _, -, hl, -⟩ |
        ⟨_, -, hr, hrights'⟩ | ⟨_, hl, -⟩
    · cases hl
    · cases hl
    · obtain rfl := Option.some.inj hr
      exact (ih hrights').single (by rw [hleft, hright]; decide)
    · cases hl
  | onlyLeft hleft hright _ ih =>
    rcases hkept.inv rfl rfl with ⟨_, _, _, _, -, -, hr, -⟩ | ⟨_, _, _, _, _, _, -, -, hr, -⟩ |
        ⟨_, hl, -⟩ | ⟨_, hl, -, hlefts'⟩
    · cases hr
    · cases hr
    · cases hl
    · obtain rfl := Option.some.inj hl
      exact (ih hlefts').single (by rw [hleft, hright]; decide)

/-- Variables without a class are copied as they are. -/
theorem MadeOf.of_plain (h : MadeOf P (fun _ => 0) expr queue) (hknown : KnownOperators queue)
    (hplain : AssignsTo QueueEntry.IsPlain queue) : MadeOf P id expr queue := by
  induction h with
  | operand expr => exact .operand expr
  | @binary op left right lefts rights hleft hright hnot _ _ ihl ihr =>
    obtain ⟨hknownr, hknownl⟩ := hknown.operands
    obtain ⟨hplainr, hplainl⟩ := hplain.operands
    exact .binary hleft hright hnot (ihl hknownl hplainl) (ihr hknownr hplainr)
  | @folded op left right expr lefts rights hleft hright hnot _ _ hfold ihl ihr =>
    obtain ⟨hknownr, hknownl⟩ := hknown.operands
    obtain ⟨hplainr, hplainl⟩ := hplain.operands
    exact .folded hleft hright hnot (ihl hknownl hplainl) (ihr hknownr hplainr) hfold
  | @assigned op valueType type clazz var right rights hleft hright hassigns hrights ih =>
    have hop : op ∈ opTable := hknown op (List.mem_cons_self ..)
    obtain ⟨hknownr, -⟩ := hknown.operands
    obtain ⟨hplainr, -⟩ := hplain.operands
    obtain ⟨_, _, heq⟩ :=
      hplain op hop rights _ [] List.suffix_rfl hassigns hrights.complete.reaches
    obtain ⟨-, rfl, -⟩ := Expression.var.inj (QueueEntry.value.inj heq)
    exact .assigned hleft hright hassigns (ih hknownr hplainr)
  | onlyRight hleft hright _ ih =>
    exact .onlyRight hleft hright (ih (fun op hmem => hknown op (List.mem_cons_of_mem _ hmem))
      hplain.tail)
  | onlyLeft hleft hright _ ih =>
    exact .onlyLeft hleft hright (ih (fun op hmem => hknown op (List.mem_cons_of_mem _ hmem))
      hplain.tail)

/-! ## The main theorem -/

/-- A tree that `parseExpression` returns is made of a tail of the output queue. -/
theorem parseExpression_madeOf {fuel : ℕ} {endToken : TokenType} {s t : ParserState World}
    (h : Ok (parseExpression P (fuel + 1) endToken) s expr t) :
    ∃ items queue used rest, Ok (readItems P fuel endToken 0) s items t ∧ order items = some queue ∧
      queue = used ++ rest ∧ MadeOf P (fun _ => 0) expr used := by
  rw [parseExpression_eq] at h
  obtain ⟨items, u, hread, hresult⟩ := Attempt.bind_ok.mp h
  obtain ⟨hcombine, rfl⟩ := Attempt.ofOption_ok.mp hresult
  obtain ⟨queue, horder, hfirst⟩ := Option.bind_eq_some_iff.mp hcombine
  obtain ⟨⟨expr', rest⟩, hbuild, rfl⟩ := Option.map_eq_some_iff.mp hfirst
  obtain ⟨used, heq, hmade⟩ := buildTree_madeOf (order_known hread horder) hbuild
  exact ⟨items, queue, used, rest, hread, horder, heq, hmade⟩

/-- `parseExpression` returns a tree if some tail of the output queue is complete. -/
theorem hasTree_iff {fuel : ℕ} {endToken : TokenType} {s : ParserState World} :
    HasTree P fuel endToken s ↔ ∃ expr t, Ok (parseExpression P (fuel + 1) endToken) s expr t := by
  constructor
  · rintro ⟨items, t, queue, used, rest, hread, horder, heq, hused⟩
    have hknown : KnownOperators used := fun op hmem =>
      order_known hread horder op (heq ▸ List.mem_append_left _ hmem)
    have hlen : used.length ≤ queue.length := by
      rw [heq, List.length_append]
      exact Nat.le_add_right _ _
    obtain ⟨expr, hbuild⟩ := hused.taken (P := P) hknown hlen rest
    rw [← heq] at hbuild
    have hcombine : combine P items = some expr := by
      rw [combine, horder, Option.bind_some, hbuild]
      rfl
    refine ⟨expr, t, ?_⟩
    rw [parseExpression_eq]
    exact hread.bind (Attempt.ofOption_ok.mpr ⟨hcombine, rfl⟩)
  · rintro ⟨expr, t, hparse⟩
    obtain ⟨items, queue, used, rest, hread, horder, heq, hmade⟩ := parseExpression_madeOf hparse
    exact ⟨items, t, queue, used, rest, hread, horder, heq, hmade.complete⟩

/-- **One call of `parseExpression`** that returns a tree. -/
theorem shows_expression_iff {fuel : ℕ} {endToken : TokenType} {s t : ParserState World}
    (hparse : Ok (parseExpression P (fuel + 1) endToken) s expr t) :
    Shows P (.expression (fuel + 1) endToken, s) ↔ InOrder P (.expression (fuel + 1) endToken, s) := by
  obtain ⟨items, queue, used, rest, hread, horder, heq, hmade⟩ := parseExpression_madeOf hparse
  have hinfix := infix_iff (readItems_hasOperand hread)
  constructor
  · intro hshows items' t' queue' hread' horder' used' rest' heq' hused'
    obtain ⟨rfl, rfl⟩ := hread.unique hread'
    obtain rfl := Option.some.inj (horder.symm.trans horder')
    obtain ⟨rfl, rfl⟩ := hmade.complete.reaches.unique hused'.reaches (heq.symm.trans heq')
    obtain ⟨items', queue', hread', hitems, horder', -, hkept⟩ := hshows expr t hparse
    obtain ⟨rfl, -⟩ := hread.unique hread'
    obtain rfl := Option.some.inj (horder.symm.trans horder')
    have hrest : rest = [] := by
      by_contra hrest
      exact absurd hused'.reaches.weight_eq (hkept.complete.reaches.below used rest heq hrest).ne
    subst hrest
    rw [List.append_nil] at heq
    subst heq
    exact ⟨rfl, hinfix.mp hitems, (hmade.plain hkept).assigns⟩
  · intro hsound expr' t' hparse'
    obtain ⟨rfl, rfl⟩ := hparse.unique hparse'
    obtain ⟨rfl, hitems, hplain⟩ := hsound items t queue hread horder used rest heq hmade.complete
    rw [List.append_nil] at heq
    subst heq
    refine ⟨items, queue, hread, hinfix.mpr hitems, horder, ?_,
      hmade.of_plain (order_known hread horder) hplain⟩
    have hperm := order_perm horder
    rwa [List.filter_eq_self.mpr fun entry hmem => ?_] at hperm
    have hbracket := hmade.complete.noBracket entry hmem
    cases entry <;> first | rfl | exact absurd rfl hbracket

/-- The same for every call that comes to a result. -/
theorem shows_iff {a : ParseStep × ParserState World} (h : (parseSteps P).Succeeds a) :
    Shows P a ↔ InOrder P a := by
  obtain ⟨step, s⟩ := a
  obtain ⟨r, t, hrun⟩ := h
  cases step with
  | expression fuel endToken =>
    cases fuel with
    | zero => exact absurd hrun (by simp [parseSteps, ParseStep.run, parseExpression])
    | succ fuel => exact shows_expression_iff hrun
  | value fuel =>
    cases fuel with
    | zero => exact absurd hrun (by simp [parseSteps, ParseStep.run, parseExpressionValue])
    | succ fuel =>
      constructor
      · exact fun hshows => (showsValue_iff hrun).mp (hshows r t hrun)
      · intro hsound expr u hparse
        obtain ⟨rfl, rfl⟩ := hrun.unique hparse
        exact (showsValue_iff hrun).mpr hsound
  | _ => exact Iff.rfl

/-- `a b ;` -/
def adjacentTokens : List Token :=
  [⟨.tokIdentifier, 1, "a", 0, 0⟩, ⟨.tokIdentifier, 1, "b", 0, 0⟩, ⟨.tokSemicolon, 1, ";", 0, 0⟩]

end B0rk
