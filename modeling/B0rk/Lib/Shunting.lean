import Mathlib.Tactic.Common
import Mathlib.Data.List.Infix

set_option autoImplicit false

/-! # The shunting-yard algorithm

Operands and binary operators become a tree by means of a stack of operators that still wait for
their right operand. Before an operator is pushed, `moveAll` takes every operator off the stack that
binds no weaker, `moveOne` only the topmost. The two give the same tree if and only if the operators
are `Steady` (`moveOne_backwards_iff`). -/

namespace Shunting

variable {α ω : Type}

/-- An expression over operands and operators. -/
inductive Tree (α ω : Type)
  | leaf (operand : α)
  | unary (op : ω) (right : Tree α ω)
  | binary (op : ω) (left right : Tree α ω)

/-- The postfix order, from its end. -/
def Tree.backwards : Tree α ω → List (α ⊕ ω)
  | leaf a => [.inl a]
  | unary op right => .inr op :: right.backwards
  | binary op left right => .inr op :: (right.backwards ++ left.backwards)

/-- The order in which it is written. -/
def Tree.written : Tree α ω → List (α ⊕ ω)
  | leaf a => [.inl a]
  | unary op right => .inr op :: right.written
  | binary op left right => left.written ++ .inr op :: right.written

/-- The stack, its top first: each operator with its left operand. -/
abbrev Pending (α ω : Type) := List (Tree α ω × ω)

/-- The operators on the stack, the top first. -/
def Pending.operators (pending : Pending α ω) : List ω := pending.map Prod.snd

@[simp] theorem Pending.operators_cons (left : Tree α ω) (op : ω) (pending : Pending α ω) :
    Pending.operators ((left, op) :: pending) = op :: pending.operators := rfl

/-- What the output queue holds, from its end, once the last operand is `t`. -/
def queue (pending : Pending α ω) (t : Tree α ω) : List (α ⊕ ω) :=
  t.backwards ++ pending.flatMap (fun entry => entry.1.backwards)

/-- The tree, when no operator follows. -/
def finish : Pending α ω → Tree α ω → Tree α ω
  | [], t => t
  | (left, op) :: pending, t => finish pending (.binary op left t)

section

variable (prec : ω → ℕ)

/-- Every operator at the top of the stack that binds no weaker is moved to the output. -/
def moveAll (op : ω) : Pending α ω → Tree α ω → Pending α ω × Tree α ω
  | [], t => ([], t)
  | (left, top) :: pending, t =>
      if prec op ≤ prec top then moveAll op pending (.binary top left t)
      else ((left, top) :: pending, t)

/-- The operator at the top of the stack is moved to the output, if it binds no weaker. -/
def moveOne (op : ω) : Pending α ω → Tree α ω → Pending α ω × Tree α ω
  | [], t => ([], t)
  | (left, top) :: pending, t =>
      if prec op ≤ prec top then (pending, .binary top left t) else ((left, top) :: pending, t)

end

/-- The operators and operands that follow, from left to right. -/
def shunt (move : ω → Pending α ω → Tree α ω → Pending α ω × Tree α ω) :
    Pending α ω → Tree α ω → List (ω × α) → Tree α ω
  | pending, t, [] => finish pending t
  | pending, t, (op, a) :: rest =>
      let (below, left) := move op pending t
      shunt move ((left, op) :: below) (.leaf a) rest

/-- The tree of `first op₁ operand₁ …` with the given precedence and association to the left. -/
def shuntingYard (prec : ω → ℕ) (first : α) (rest : List (ω × α)) : Tree α ω :=
  shunt (moveAll prec) [] (.leaf first) rest

/-- An operator that is followed by one that binds tighter is followed by such operators only. -/
def Steady (prec : ω → ℕ) : List ω → Prop
  | op :: next :: ops =>
      (prec op < prec next → ∀ later ∈ ops, prec op < prec later) ∧ Steady prec (next :: ops)
  | _ => True

instance {prec : ω → ℕ} : ∀ ops, Decidable (Steady prec ops)
  | [] => isTrue trivial
  | [_] => isTrue trivial
  | _ :: next :: ops =>
      have : Decidable (Steady prec (next :: ops)) := instDecidableSteady _
      inferInstanceAs (Decidable (_ ∧ _))

/-! ## The output queue -/

@[simp] theorem queue_nil (t : Tree α ω) : queue [] t = t.backwards := by
  simp [queue]

/-- The operator at the top goes to the output. -/
theorem queue_binary (left t : Tree α ω) (op : ω) (pending : Pending α ω) :
    queue pending (.binary op left t) = .inr op :: queue ((left, op) :: pending) t := by
  simp [queue, Tree.backwards]

/-- An operand goes to the output. -/
theorem queue_leaf (left : Tree α ω) (op : ω) (a : α) (pending : Pending α ω) :
    queue ((left, op) :: pending) (.leaf a) = .inl a :: queue pending left := by
  simp [queue, Tree.backwards]

theorem finish_backwards (pending : Pending α ω) (t : Tree α ω) :
    (finish pending t).backwards = pending.operators.reverse.map .inr ++ queue pending t := by
  induction pending generalizing t with
  | nil => simp [finish, Pending.operators]
  | cons entry pending ih =>
    obtain ⟨left, op⟩ := entry
    rw [finish, ih, queue_binary]
    simp [Pending.operators]

/-! ## Moving operators to the output -/

section

variable {prec : ω → ℕ} {op : ω} {pending : Pending α ω} {t : Tree α ω}

/-- What a rule for moving operators does to the queue and to the tree. -/
structure Moves (move : ω → Pending α ω → Tree α ω → Pending α ω × Tree α ω) : Prop where
  extends_queue : ∀ op pending t,
    queue pending t <:+ queue (move op pending t).1 (move op pending t).2
  keeps_tree : ∀ op pending t, finish (move op pending t).1 (move op pending t).2 = finish pending t

theorem moveAll_moves : Moves (moveAll (α := α) prec) where
  extends_queue op pending t := by
    induction pending generalizing t with
    | nil => exact List.suffix_rfl
    | cons entry pending ih =>
      obtain ⟨left, top⟩ := entry
      rw [moveAll]
      split
      · refine List.IsSuffix.trans ?_ (ih (.binary top left t))
        rw [queue_binary]
        exact List.suffix_cons ..
      · exact List.suffix_rfl
  keeps_tree op pending t := by
    induction pending generalizing t with
    | nil => rfl
    | cons entry pending ih =>
      obtain ⟨left, top⟩ := entry
      rw [moveAll]
      split
      · exact ih _
      · rfl

theorem moveOne_moves : Moves (moveOne (α := α) prec) where
  extends_queue op pending t := by
    rcases pending with _ | ⟨⟨left, top⟩, pending⟩
    · exact List.suffix_rfl
    · rw [moveOne]
      split
      · rw [queue_binary]
        exact List.suffix_cons ..
      · exact List.suffix_rfl
  keeps_tree op pending t := by
    rcases pending with _ | ⟨⟨left, top⟩, pending⟩
    · rfl
    · rw [moveOne]
      split <;> rfl

/-- What is in the output stays there. -/
theorem queue_suffix_shunt {move : ω → Pending α ω → Tree α ω → Pending α ω × Tree α ω}
    (hmove : Moves move) (pending : Pending α ω) (t : Tree α ω) (rest : List (ω × α)) :
    queue pending t <:+ (shunt move pending t rest).backwards := by
  induction rest generalizing pending t with
  | nil =>
    rw [shunt, finish_backwards]
    exact List.suffix_append ..
  | cons next rest ih =>
    obtain ⟨op, a⟩ := next
    refine List.IsSuffix.trans ?_ (ih _ _)
    rw [queue_leaf]
    exact (hmove.extends_queue op pending t).trans (List.suffix_cons ..)

/-- Two rules differ in the end, if one of them moves an operator where the other goes on. -/
theorem shunt_ne {move move' : ω → Pending α ω → Tree α ω → Pending α ω × Tree α ω}
    (hmove : Moves move) (hmove' : Moves move') {pending pending' : Pending α ω}
    {t t' : Tree α ω} {top : ω} {a : α} {rest rest' : List (ω × α)} {q : List (α ⊕ ω)}
    (hq : .inl a :: q <:+ queue pending t) (hq' : .inr top :: q <:+ queue pending' t') :
    (shunt move pending t rest).backwards ≠ (shunt move' pending' t' rest').backwards := by
  intro heq
  have h := hq.trans (queue_suffix_shunt hmove pending t rest)
  have h' := hq'.trans (queue_suffix_shunt hmove' pending' t' rest')
  rw [heq] at h
  have hlen : (Sum.inl a :: q).length ≤ (Sum.inr top :: q).length := Nat.le_refl _
  cases (List.suffix_of_suffix_length_le h h' hlen).eq_of_length rfl

end

/-! ## The order of the operands and operators -/

/-- What stands in front of the last operand. -/
def Pending.written : Pending α ω → List (α ⊕ ω)
  | [] => []
  | (left, op) :: pending => written pending ++ (left.written ++ [.inr op])

theorem finish_written (pending : Pending α ω) (t : Tree α ω) :
    (finish pending t).written = pending.written ++ t.written := by
  induction pending generalizing t with
  | nil => rfl
  | cons entry pending ih =>
    obtain ⟨left, op⟩ := entry
    rw [finish, ih, Pending.written, Tree.written]
    simp

/-- The tree has the operands and operators in the order in which they came. -/
theorem shunt_written {move : ω → Pending α ω → Tree α ω → Pending α ω × Tree α ω}
    (hmove : Moves move) (pending : Pending α ω) (t : Tree α ω) (rest : List (ω × α)) :
    (shunt move pending t rest).written =
      (finish pending t).written ++ rest.flatMap (fun next => [.inr next.1, .inl next.2]) := by
  induction rest generalizing pending t with
  | nil => simp [shunt]
  | cons next rest ih =>
    obtain ⟨op, a⟩ := next
    rw [shunt, ih, ← hmove.keeps_tree op pending t, finish_written, finish_written,
      Pending.written]
    simp [Tree.written]

/-- A tree of binary operators only, with conditions on operands and operators. -/
def Tree.Binary (q : α → Prop) (p : ω → Prop) : Tree α ω → Prop
  | leaf a => q a
  | unary _ _ => False
  | binary op left right => p op ∧ left.Binary q p ∧ right.Binary q p

section

variable {q : α → Prop} {p : ω → Prop}

theorem finish_binary (pending : Pending α ω) (t : Tree α ω) :
    (finish pending t).Binary q p ↔
      (∀ entry ∈ pending, entry.1.Binary q p ∧ p entry.2) ∧ t.Binary q p := by
  induction pending generalizing t with
  | nil => simp [finish]
  | cons entry pending ih =>
    obtain ⟨left, op⟩ := entry
    rw [finish, ih, Tree.Binary, List.forall_mem_cons]
    tauto

/-- The tree is built from the operands and operators that came. -/
theorem shunt_binary {move : ω → Pending α ω → Tree α ω → Pending α ω × Tree α ω}
    (hmove : Moves move) {pending : Pending α ω} {t : Tree α ω} {rest : List (ω × α)}
    (h : (finish pending t).Binary q p) (hrest : ∀ next ∈ rest, p next.1 ∧ q next.2) :
    (shunt move pending t rest).Binary q p := by
  induction rest generalizing pending t with
  | nil => exact h
  | cons next rest ih =>
    obtain ⟨op, a⟩ := next
    obtain ⟨⟨hop, ha⟩, hrest⟩ := List.forall_mem_cons.mp hrest
    rw [shunt]
    refine ih ?_ hrest
    rw [← hmove.keeps_tree op, finish_binary] at h
    rw [finish_binary, List.forall_mem_cons]
    exact ⟨⟨⟨h.2, hop⟩, h.1⟩, ha⟩

end

/-! ## When moving one operator is enough -/

section

variable {prec : ω → ℕ}

/-- The operators that follow, where the stack holds operators of falling precedence. -/
def SteadyOver (prec : ω → ℕ) : List ω → List ω → Prop
  | [], ops => Steady prec ops
  | top :: below, ops =>
      (∀ op ∈ below, ∀ later ∈ ops, prec op < prec later) ∧ Steady prec (top :: ops)

theorem steadyOver_singleton (op : ω) (ops : List ω) :
    SteadyOver prec [op] ops ↔ Steady prec (op :: ops) := by
  simp [SteadyOver]

/-- The next operator, where at most the topmost one makes room for it. -/
theorem steadyOver_cons {top op : ω} {below ops : List ω} (hbelow : ∀ p ∈ below, prec p < prec op) :
    SteadyOver prec (top :: below) (op :: ops) ↔
      SteadyOver prec (op :: if prec op ≤ prec top then below else top :: below) ops := by
  simp only [SteadyOver, Steady, List.forall_mem_cons]
  have hsplit : (∀ p ∈ below, prec p < prec op ∧ ∀ later ∈ ops, prec p < prec later) ↔
      ∀ p ∈ below, ∀ later ∈ ops, prec p < prec later :=
    ⟨fun h p hp => (h p hp).2, fun h p hp => ⟨hbelow p hp, h p hp⟩⟩
  rw [hsplit]
  by_cases htop : prec op ≤ prec top
  · rw [if_pos htop]
    have hvacuous : ¬prec top < prec op := by omega
    simp [hvacuous]
  · rw [if_neg htop]
    have hlt : prec top < prec op := by omega
    simp only [hlt, true_imp_iff, List.forall_mem_cons]
    tauto

/-- Where the operator below the topmost one binds weaker, both rules do the same. -/
theorem moveAll_eq_moveOne {op : ω} {pending : Pending α ω} {t : Tree α ω}
    (hbelow : ∀ p ∈ pending.operators.tail, prec p < prec op) :
    moveAll prec op pending t = moveOne prec op pending t := by
  rcases pending with _ | ⟨⟨left, top⟩, pending⟩
  · rfl
  · rw [moveAll, moveOne]
    split
    · rcases pending with _ | ⟨⟨left', second⟩, pending⟩
      · rfl
      · have hsecond : prec second < prec op := hbelow second (List.mem_cons_self ..)
        rw [moveAll, if_neg (by omega)]
    · rfl

/-- The two rules part where two operators have to make room. -/
theorem shunt_moveOne_ne {op : ω} {a : α} {left left' : Tree α ω} {top second : ω}
    {pending : Pending α ω} {t : Tree α ω} {rest : List (ω × α)} (htop : prec op ≤ prec top)
    (hsecond : prec op ≤ prec second) :
    (shunt (moveOne prec) ((left, top) :: (left', second) :: pending) t
        ((op, a) :: rest)).backwards ≠
      (shunt (moveAll prec) ((left, top) :: (left', second) :: pending) t
        ((op, a) :: rest)).backwards := by
  have hone : .inl a :: queue ((left', second) :: pending) (.binary top left t) <:+
      queue ((.binary top left t, op) :: (left', second) :: pending) (.leaf a) := by
    rw [queue_leaf]
  have hall : .inr second :: queue ((left', second) :: pending) (.binary top left t) <:+
      queue (((moveAll prec op ((left, top) :: (left', second) :: pending) t).2, op) ::
        (moveAll prec op ((left, top) :: (left', second) :: pending) t).1) (.leaf a) := by
    rw [queue_leaf, ← queue_binary, moveAll, if_pos htop, moveAll, if_pos hsecond]
    exact (moveAll_moves.extends_queue op _ _).trans (List.suffix_cons ..)
  rw [shunt, shunt, moveOne, if_pos htop]
  exact shunt_ne moveOne_moves moveAll_moves hone hall

theorem shunt_moveOne_iff {pending : Pending α ω} {t : Tree α ω} {rest : List (ω × α)}
    (hsorted : pending.operators.Pairwise (fun p q => prec q < prec p)) :
    (shunt (moveOne prec) pending t rest).backwards =
        (shunt (moveAll prec) pending t rest).backwards ↔
      SteadyOver prec pending.operators (rest.map Prod.fst) := by
  induction rest generalizing pending t with
  | nil =>
    refine iff_of_true rfl ?_
    cases pending.operators with
    | nil => trivial
    | cons top below => exact ⟨fun _ _ _ h => (nomatch h), trivial⟩
  | cons next rest ih =>
    obtain ⟨op, a⟩ := next
    rcases pending with _ | ⟨⟨left, top⟩, pending⟩
    · exact (ih (List.pairwise_singleton _ _)).trans (steadyOver_singleton ..)
    · rw [Pending.operators_cons] at hsorted ⊢
      obtain ⟨htop, hsorted⟩ := List.pairwise_cons.mp hsorted
      by_cases hbelow : ∀ p ∈ Pending.operators pending, prec p < prec op
      · have hsame : moveAll prec op ((left, top) :: pending) t =
            moveOne prec op ((left, top) :: pending) t := moveAll_eq_moveOne hbelow
        rw [shunt, shunt, hsame]
        refine Iff.trans ?_ (steadyOver_cons hbelow).symm
        rw [moveOne]
        by_cases hle : prec op ≤ prec top
        · rw [if_pos hle, if_pos hle]
          refine ih ?_
          rw [Pending.operators_cons]
          exact List.pairwise_cons.mpr ⟨hbelow, hsorted⟩
        · rw [if_neg hle, if_neg hle]
          have htight : prec top < prec op := Nat.lt_of_not_le hle
          refine ih ?_
          rw [Pending.operators_cons, Pending.operators_cons]
          exact List.pairwise_cons.mpr
            ⟨List.forall_mem_cons.mpr ⟨htight, hbelow⟩, List.pairwise_cons.mpr ⟨htop, hsorted⟩⟩
      · -- the operator below the topmost one binds no weaker either
        rcases pending with _ | ⟨⟨left', second⟩, pending⟩
        · exact absurd (fun _ hp => nomatch hp) hbelow
        · rw [Pending.operators_cons] at hbelow htop hsorted
          obtain ⟨hlower, -⟩ := List.pairwise_cons.mp hsorted
          have hsecond : prec op ≤ prec second := by
            by_contra hnot
            have hlt : prec second < prec op := Nat.lt_of_not_le hnot
            exact hbelow (List.forall_mem_cons.mpr
              ⟨hlt, fun p hp => Nat.lt_trans (hlower p hp) hlt⟩)
          have hhigher : prec second < prec top := htop second (List.mem_cons_self ..)
          have htop : prec op ≤ prec top := Nat.le_trans hsecond (Nat.le_of_lt hhigher)
          refine iff_of_false (shunt_moveOne_ne htop hsecond) fun h => ?_
          have hlt := h.1 second (List.mem_cons_self ..) op (List.mem_cons_self ..)
          omega

/-- **Moving one operator.** It is the same as moving all if and only if the operators are steady. -/
theorem moveOne_backwards_iff (prec : ω → ℕ) (first : α) (rest : List (ω × α)) :
    (shunt (moveOne prec) [] (.leaf first) rest).backwards =
        (shuntingYard prec first rest).backwards ↔
      Steady prec (rest.map Prod.fst) :=
  shunt_moveOne_iff List.Pairwise.nil

end

end Shunting
