import B0rk.Assembler.Assembler
import B0rk.Executor.Opcodes
import B0rk.Lib.Ensures
import B0rk.Parser.Types

set_option autoImplicit false

/-! # The types of operations

What `resolveTypes` makes of the expressions of a file, and what that is worth to the assembler. The
type of an operation is that of its operands, so that the operands of a comparison tell the
operation around it what its own operands look like. No variable is ever typed: the first loop calls
`setVarType` only for an assignment that has a type before it is looked at. -/

namespace B0rk

variable {nodes : ℕ → ExprNode}

/-! ## Trees of expressions -/

/-- `q` is an operand of `p`. -/
inductive Operand (nodes : ℕ → ExprNode) : ℕ → ℕ → Prop
  | left {p l : ℕ} {op : OpType} {r : Option ℕ} (h : (nodes p).kind = .oper op (some l) r) :
      Operand nodes p l
  | right {p r : ℕ} {op : OpType} {l : Option ℕ} (h : (nodes p).kind = .oper op l (some r)) :
      Operand nodes p r

/-- What the parser builds, with the one demand that the assembler makes on increments. -/
structure ExprTree (nodes : ℕ → ExprNode) : Prop where
  /-- `buildTree` fills the operands that `opTable` lists, the right one first -/
  shape : ∀ p op l r, (nodes p).kind = .oper op l r → ∃ desc ∈ opTable, desc.oper = op ∧
    (l.isSome → desc.hasLeftExpr) ∧ (r.isSome → desc.hasRightExpr) ∧
    (l.isSome → desc.hasRightExpr → r.isSome)
  parent : ∀ p q, Operand nodes p q → (nodes q).parent = some p
  distinct : ∀ p op x, (nodes p).kind ≠ .oper op (some x) (some x)
  rank : ∃ rank : ℕ → ℕ, ∀ p q, Operand nodes p q → rank q < rank p
  /-- "Left must be a variable or array!" -/
  crement : ∀ p op l, op = .increment ∨ op = .decrement → (nodes p).kind = .oper op (some l) none →
    (∃ slot, (nodes l).kind = .var slot) ∨ (nodes l).kind = .computed

/-- The type that an expression has before types are resolved. A literal that has been folded from two
    others has none. -/
def FreshType : ExprKind → ValueType → Prop
  | .oper .., type | .var _, type | .computed, type => type = .unknown
  | .integer _, type => type = .integer ∨ type = .unknown
  | .double _, type => type = .double ∨ type = .unknown
  | .object, type => type = .object

/-- The members `valueType` and `m_varTypes` behind the parser. -/
structure Fresh (nodes : ℕ → ExprNode) (s : TypeState) : Prop where
  valueType : ∀ p, FreshType (nodes p).kind (s.valueType p)
  varTypes : ∀ n, s.varTypes n = .unknown

/-- The left side of an assignment. -/
def AssignTarget (nodes : ℕ → ExprNode) (q : ℕ) : Prop :=
  ∃ p r, (nodes p).kind = .oper .set (some q) r

theorem ExprTree.parent_unique (htree : ExprTree nodes) {p p' q : ℕ} (h : Operand nodes p q)
    (h' : Operand nodes p' q) : p = p' :=
  Option.some.inj ((htree.parent p q h).symm.trans (htree.parent p' q h'))

theorem ExprTree.operand_ne (htree : ExprTree nodes) {p q : ℕ} (h : Operand nodes p q) : q ≠ p := by
  rintro rfl
  obtain ⟨rank, hrank⟩ := htree.rank
  exact Nat.lt_irrefl _ (hrank q q h)

/-- The operands of an operation other than an assignment are not assigned to. -/
theorem ExprTree.not_assignTarget (htree : ExprTree nodes) {p q : ℕ} {op : OpType} {l r : Option ℕ}
    (hkind : (nodes p).kind = .oper op l r) (hop : op ≠ .set) (h : Operand nodes p q) :
    ¬AssignTarget nodes q := by
  rintro ⟨p', r', hset⟩
  obtain rfl := htree.parent_unique h (.left hset)
  rw [hset] at hkind
  cases hkind
  exact hop rfl

/-- What is assigned is not itself assigned to. -/
theorem ExprTree.right_not_assignTarget (htree : ExprTree nodes) {p r : ℕ} {op : OpType}
    {l : Option ℕ} (hkind : (nodes p).kind = .oper op l (some r)) : ¬AssignTarget nodes r := by
  rintro ⟨p', r', hset⟩
  obtain rfl := htree.parent_unique (.right hkind) (.left hset)
  rw [hset] at hkind
  cases hkind
  exact htree.distinct p _ _ hset

/-! ## The invariant of the three loops -/

/-- A type that is known comes from the operands. -/
def Justified (nodes : ℕ → ExprNode) (types : ℕ → ValueType) (p : ℕ) : Prop :=
  match (nodes p).kind with
  | .oper op l r =>
      types p = .unknown ∨ (∃ x, l = some x ∧ r = none ∧ types x = types p) ∨
        ∃ y, r = some y ∧ types y = types p ∧ (op = .set ∨ ∃ x, l = some x ∧ types x = types p)
  | kind => FreshType kind (types p)

theorem justified_oper {types : ℕ → ValueType} {p : ℕ} {op : OpType} {l r : Option ℕ}
    (hkind : (nodes p).kind = .oper op l r) :
    Justified nodes types p ↔ types p = .unknown ∨ (∃ x, l = some x ∧ r = none ∧ types x = types p) ∨
      ∃ y, r = some y ∧ types y = types p ∧ (op = .set ∨ ∃ x, l = some x ∧ types x = types p) := by
  unfold Justified
  rw [hkind]

/-- Only the types of an expression and of its operands matter. -/
theorem Justified.congr {types types' : ℕ → ValueType} {p : ℕ} (h : Justified nodes types p)
    (hself : types' p = types p)
    (hoperand : ∀ q, Operand nodes p q → types q = types p → types' q = types q) :
    Justified nodes types' p := by
  cases hkind : (nodes p).kind with
  | oper op l r =>
    rw [justified_oper hkind] at h ⊢
    rw [hself]
    rcases h with h | ⟨x, rfl, hr, hx⟩ | ⟨y, rfl, hy, hop⟩
    · exact .inl h
    · exact .inr (.inl ⟨x, rfl, hr, (hoperand x (.left hkind) hx).trans hx⟩)
    · refine .inr (.inr ⟨y, rfl, (hoperand y (.right hkind) hy).trans hy, hop.imp_right ?_⟩)
      rintro ⟨x, rfl, hx⟩
      exact ⟨x, rfl, (hoperand x (.left hkind) hx).trans hx⟩
  | _ =>
    unfold Justified at h ⊢
    rw [hkind] at h ⊢
    rw [hself]
    exact h

theorem TypeState.setValueType_self (s : TypeState) (p : ℕ) (type : ValueType) :
    (s.setValueType p type).valueType p = type := if_pos rfl

theorem TypeState.setValueType_ne (s : TypeState) {p q : ℕ} (type : ValueType) (h : q ≠ p) :
    (s.setValueType p type).valueType q = s.valueType q := if_neg h

/-- An expression that had no type gets one. -/
theorem Justified.setValueType {s : TypeState} {p q : ℕ} {type : ValueType} (hne : q ≠ p)
    (hp : s.valueType p = .unknown) (h : Justified nodes s.valueType q) :
    Justified nodes (s.setValueType p type).valueType q := by
  by_cases hq : s.valueType q = .unknown
  · cases hkind : (nodes q).kind with
    | oper op l r =>
      rw [justified_oper hkind]
      exact .inl ((s.setValueType_ne type hne).trans hq)
    | _ =>
      unfold Justified at h ⊢
      rw [hkind] at h ⊢
      rw [s.setValueType_ne type hne]
      exact h
  · refine h.congr (s.setValueType_ne type hne) fun x _ hx => s.setValueType_ne type ?_
    rintro rfl
    exact hq (hx.symm.trans hp)

/-- The types while the first loop runs, with `todo` the expressions that it has not reached. -/
structure InferInv (nodes : ℕ → ExprNode) (todo : List ℕ) (s : TypeState) : Prop where
  justified : ∀ p, Justified nodes s.valueType p
  varTypes : ∀ n, s.varTypes n = .unknown
  todo : ∀ p ∈ todo, ∀ op l r, (nodes p).kind = .oper op l r → s.valueType p = .unknown

theorem Fresh.inferInv {s : TypeState} (h : Fresh nodes s) (todo : List ℕ) :
    InferInv nodes todo s := by
  refine ⟨fun p => ?_, h.varTypes, fun p _ op l r hkind => ?_⟩
  · have hp := h.valueType p
    cases hkind : (nodes p).kind with
    | oper op l r =>
      rw [hkind] at hp
      exact (justified_oper hkind).2 (.inl hp)
    | _ =>
      unfold Justified
      rw [hkind] at hp ⊢
      exact hp
  · have hp := h.valueType p
    rw [hkind] at hp
    exact hp

theorem inferOperation_inv {p : ℕ} {todo : List ℕ} (hnew : p ∉ todo) {s : TypeState}
    (h : InferInv nodes (p :: todo) s) : Ensures (inferOperation nodes p s) (InferInv nodes todo) := by
  have hskip : InferInv nodes todo s :=
    ⟨h.justified, h.varTypes, fun q hq => h.todo q (List.mem_cons_of_mem _ hq)⟩
  unfold inferOperation
  split
  · next op left right hkind =>
    have hp := h.todo p (List.mem_cons_self ..) op left right hkind
    rw [if_neg (not_not_intro hp)]
    split
    · next l r =>
      refine Ensures.ite (fun hlr => Ensures.some ?_) fun _ => Ensures.some hskip
      refine ⟨fun q => ?_, h.varTypes, fun q hq op' l' r' hkind' => ?_⟩
      · by_cases hq : q = p
        · subst hq
          rw [justified_oper hkind, s.setValueType_self]
          have hfixed : ∀ x, s.valueType x = s.valueType l →
              (s.setValueType q (s.valueType l)).valueType x = s.valueType l := by
            intro x hx
            by_cases hxq : x = q
            · rw [hxq, s.setValueType_self]
            · rw [s.setValueType_ne _ hxq, hx]
          exact .inr (.inr ⟨r, rfl, hfixed r hlr.2.symm, .inr ⟨l, rfl, hfixed l rfl⟩⟩)
        · exact (h.justified q).setValueType hq hp
      · have hq' : q ≠ p := fun heq => hnew (heq ▸ hq)
        rw [s.setValueType_ne _ hq']
        exact h.todo q (List.mem_cons_of_mem _ hq) op' l' r' hkind'
    · exact Ensures.some hskip
  · exact Ensures.some hskip

theorem infer_inv {expressions : List ℕ} (hnodup : expressions.Nodup) {s : TypeState}
    (h : InferInv nodes expressions s) :
    Ensures (expressions.foldlM (fun s p => inferOperation nodes p s) s) (InferInv nodes []) := by
  induction expressions generalizing s with
  | nil => exact Ensures.some h
  | cons p expressions ih =>
    rw [List.foldlM_cons]
    obtain ⟨hnew, hnodup⟩ := List.nodup_cons.1 hnodup
    exact Ensures.bind (inferOperation_inv hnew h) fun s' h' => ih hnodup h'

/-- **The second loop does nothing**: no variable has been given a type. -/
theorem findVarType_eq {p : ℕ} {s : TypeState} (h : InferInv nodes [] s) :
    findVarType nodes p s = some s := by
  unfold findVarType
  split
  · next slot parent hkind _ =>
    split
    · rfl
    · split
      · next type htype =>
        have hp : s.valueType p = .unknown := by
          have hp := h.justified p
          unfold Justified at hp
          rw [hkind] at hp
          exact hp
        have hunknown : type = .unknown := by
          cases slot with
          | missing => cases htype
          | untyped => exact (Option.some.inj htype).symm
          | slot n => exact (Option.some.inj htype).symm.trans (h.varTypes n)
        have hsame : (fun q => if q = p then ValueType.unknown else s.valueType q) = s.valueType := by
          funext q
          by_cases hq : q = p
          · rw [if_pos hq, hq, hp]
          · rw [if_neg hq]
        rw [hunknown, TypeState.setValueType, hsame]
      · rfl
  · rfl

theorem findVarTypes_eq {expressions : List ℕ} {s : TypeState} (h : InferInv nodes [] s) :
    expressions.foldlM (fun s p => findVarType nodes p s) s = some s := by
  induction expressions with
  | nil => rfl
  | cons p expressions ih =>
    rw [List.foldlM_cons, findVarType_eq h]
    exact ih

/-- The types of everything but the left sides of assignments. -/
def TypesInv (nodes : ℕ → ExprNode) (s : TypeState) : Prop :=
  ∀ p, ¬AssignTarget nodes p → Justified nodes s.valueType p

theorem TypesInv.setValueType {s : TypeState} {p : ℕ} {type : ValueType} (h : TypesInv nodes s)
    (hp : s.valueType p = .unknown) (hself : Justified nodes (s.setValueType p type).valueType p) :
    TypesInv nodes (s.setValueType p type) := by
  intro q hq
  by_cases hqp : q = p
  · rw [hqp]
    exact hself
  · exact (h q hq).setValueType hqp hp

theorem resolveType_inv (htree : ExprTree nodes) {p : ℕ} {s : TypeState} (h : TypesInv nodes s) :
    Ensures (resolveType nodes p s) (TypesInv nodes) := by
  unfold resolveType
  split
  · next op left right hkind =>
    refine Ensures.ite (fun _ => Ensures.some h) fun hp => ?_
    have hp : s.valueType p = .unknown := not_not.1 hp
    split
    · exact Ensures.none
    · next l =>
      have hl : l ≠ p := htree.operand_ne (.left hkind)
      refine Ensures.some (h.setValueType hp ((justified_oper hkind).2 (.inr (.inl ⟨l, rfl, rfl, ?_⟩))))
      rw [s.setValueType_self, s.setValueType_ne _ hl]
    · exact Ensures.some h
    · next l r =>
      have hl : l ≠ p := htree.operand_ne (.left hkind)
      have hr : r ≠ p := htree.operand_ne (.right hkind)
      refine Ensures.ite (fun hlr => ?_) fun _ => Ensures.ite (fun hset => ?_) fun _ => Ensures.some h
      · refine Ensures.some (h.setValueType hp ((justified_oper hkind).2 (.inr (.inr ⟨r, rfl, ?_⟩))))
        rw [s.setValueType_self, s.setValueType_ne _ hr]
        exact ⟨hlr.symm, .inr ⟨l, rfl, s.setValueType_ne _ hl⟩⟩
      · obtain ⟨rfl, -⟩ := hset
        have hlr : r ≠ l := by
          rintro rfl
          exact htree.distinct p _ _ hkind
        -- the left side is an operand of this assignment only
        have hleft : TypesInv nodes (s.setValueType l (s.valueType r)) := by
          intro q hq
          have hql : q ≠ l := by
            rintro rfl
            exact hq ⟨p, _, hkind⟩
          by_cases hqp : q = p
          · subst hqp
            exact (justified_oper hkind).2 (.inl ((s.setValueType_ne _ hql).trans hp))
          · refine (h q hq).congr (s.setValueType_ne _ hql) fun x hx _ => s.setValueType_ne _ ?_
            rintro rfl
            exact hqp (htree.parent_unique hx (.left hkind))
        refine Ensures.some (hleft.setValueType ((s.setValueType_ne _ hl.symm).trans hp)
          ((justified_oper hkind).2 (.inr (.inr ⟨r, rfl, ?_, .inl rfl⟩))))
        rw [TypeState.setValueType_self, TypeState.setValueType_ne _ _ hr,
          s.setValueType_ne _ hlr]
  · exact Ensures.some h

theorem resolve_inv (htree : ExprTree nodes) (expressions : List ℕ) {s : TypeState}
    (h : TypesInv nodes s) :
    Ensures (expressions.foldlM (fun s p => resolveType nodes p s) s) (TypesInv nodes) := by
  induction expressions generalizing s with
  | nil => exact Ensures.some h
  | cons p expressions ih =>
    rw [List.foldlM_cons]
    exact Ensures.bind (resolveType_inv htree h) fun s' h' => ih h'

/-- What is known of the types when they have been resolved. -/
theorem resolveTypes_inv (htree : ExprTree nodes) {expressions : List ℕ} (hnodup : expressions.Nodup)
    {s : TypeState} (hfresh : Fresh nodes s) :
    Ensures (resolveTypes nodes expressions s) (TypesInv nodes) := by
  refine Ensures.bind (infer_inv hnodup (hfresh.inferInv expressions)) fun s₁ h₁ => ?_
  rw [findVarTypes_eq h₁]
  exact resolve_inv htree expressions fun p _ => h₁.justified p

/-! ## Operations without operands -/

/-- What `buildTree` leaves of an operator whose operands it has not come to. -/
def BareOperation (nodes : ℕ → ExprNode) (p : ℕ) : Prop := ∃ op, (nodes p).kind = .oper op none none

/-- The first loop asks nothing of an operation that has no type. -/
theorem inferOperation_isSome {p : ℕ} {todo : List ℕ} {s : TypeState}
    (h : InferInv nodes (p :: todo) s) : (inferOperation nodes p s).isSome := by
  unfold inferOperation
  split
  · next op left right hkind =>
    rw [if_neg (not_not_intro (h.todo p (List.mem_cons_self ..) op left right hkind))]
    split
    · split <;> rfl
    · rfl
  · rfl

theorem infer_returns {expressions : List ℕ} (hnodup : expressions.Nodup) {s : TypeState}
    (h : InferInv nodes expressions s) :
    ∃ s', expressions.foldlM (fun s p => inferOperation nodes p s) s = some s' := by
  induction expressions generalizing s with
  | nil => exact ⟨s, rfl⟩
  | cons p expressions ih =>
    obtain ⟨hnew, hnodup⟩ := List.nodup_cons.1 hnodup
    obtain ⟨s₁, hs₁⟩ := Option.isSome_iff_exists.1 (inferOperation_isSome h)
    rw [List.foldlM_cons, hs₁]
    exact ih hnodup (inferOperation_inv hnew h s₁ hs₁)

/-- The third loop gives a type to an expression that has operands, and to its left one. -/
theorem resolveType_returns {p : ℕ} (hp : ¬BareOperation nodes p)
    (hoperand : ∀ q, Operand nodes p q → ¬BareOperation nodes q) {s : TypeState}
    (h : ∀ q, BareOperation nodes q → s.valueType q = .unknown) :
    ∃ s', resolveType nodes p s = some s' ∧ ∀ q, BareOperation nodes q → s'.valueType q = .unknown := by
  have hself : ∀ {s : TypeState} (type : ValueType),
      (∀ q, BareOperation nodes q → s.valueType q = .unknown) →
      ∀ q, BareOperation nodes q → (s.setValueType p type).valueType q = .unknown := by
    intro s type h q hq
    have hne : q ≠ p := by
      rintro rfl
      exact hp hq
    rw [s.setValueType_ne type hne]
    exact h q hq
  unfold resolveType
  split
  · next op left right hkind =>
    split
    · exact ⟨s, rfl, h⟩
    · split
      · exact absurd ⟨op, hkind⟩ hp
      · exact ⟨_, rfl, hself _ h⟩
      · exact ⟨s, rfl, h⟩
      · next l r =>
        have hleft : ∀ q, BareOperation nodes q →
            (s.setValueType l (s.valueType r)).valueType q = .unknown := by
          intro q hq
          have hne : q ≠ l := by
            rintro rfl
            exact hoperand q (.left hkind) hq
          rw [s.setValueType_ne _ hne]
          exact h q hq
        split
        · exact ⟨_, rfl, hself _ h⟩
        · split
          · exact ⟨_, rfl, hself _ hleft⟩
          · exact ⟨s, rfl, h⟩
  · exact ⟨s, rfl, h⟩

theorem resolveType_bare {p : ℕ} (hp : BareOperation nodes p) {s : TypeState}
    (h : s.valueType p = .unknown) : resolveType nodes p s = none := by
  obtain ⟨op, hkind⟩ := hp
  unfold resolveType
  rw [hkind]
  exact if_neg (not_not_intro h)

theorem resolve_none_iff {expressions : List ℕ}
    (hoperand : ∀ p q, Operand nodes p q → ¬BareOperation nodes q) {s : TypeState}
    (h : ∀ q, BareOperation nodes q → s.valueType q = .unknown) :
    expressions.foldlM (fun s p => resolveType nodes p s) s = none ↔
      ∃ p ∈ expressions, BareOperation nodes p := by
  induction expressions generalizing s with
  | nil => simp
  | cons p expressions ih =>
    rw [List.foldlM_cons, List.exists_mem_cons_iff]
    by_cases hp : BareOperation nodes p
    · rw [resolveType_bare hp (h p hp)]
      exact iff_of_true rfl (.inl hp)
    · obtain ⟨s', hs', h'⟩ := resolveType_returns hp (hoperand p) h
      rw [hs', or_iff_right hp]
      exact ih h'

/-- `resolveTypes` comes to an end unless there is an operation without operands in `m_expressions`. -/
theorem resolveTypes_none_iff {expressions : List ℕ} (hnodup : expressions.Nodup)
    (hoperand : ∀ p q, Operand nodes p q → ¬BareOperation nodes q) {s : TypeState}
    (hfresh : Fresh nodes s) :
    resolveTypes nodes expressions s = none ↔ ∃ p ∈ expressions, BareOperation nodes p := by
  obtain ⟨s₁, hs₁⟩ := infer_returns hnodup (hfresh.inferInv expressions)
  have h₁ := infer_inv hnodup (hfresh.inferInv expressions) s₁ hs₁
  have hbare : ∀ q, BareOperation nodes q → s₁.valueType q = .unknown := by
    rintro q ⟨op, hkind⟩
    have hq := h₁.justified q
    rw [justified_oper hkind] at hq
    rcases hq with hq | ⟨x, hx, -⟩ | ⟨y, hy, -⟩
    · exact hq
    · cases hx
    · cases hy
  unfold resolveTypes
  rw [hs₁]
  show (expressions.foldlM (fun s p => findVarType nodes p s) s₁ >>= _) = none ↔ _
  rw [findVarTypes_eq h₁]
  exact resolve_none_iff hoperand hbare

end B0rk
