import B0rk.Parser.Parser

set_option autoImplicit false

/-! # Slots of parsed functions

`setStartingVarId` numbers the blocks that are linked into `m_childBlocks`, one range of slots below
the other. The parser links the blocks of `if`, `for` and `while`, but not those of `try`. -/

namespace B0rk

/-- What the slots of a function have to be: seen from any block, different for different variables,
    none of them that of `this`, and all of them in the frame. -/
structure SlotsDisjoint (f : ScriptFunction) : Prop where
  different : ∀ scope x y i j, InBody f.code scope → x ≠ y →
    scope.getVarId f.args x = some i → scope.getVarId f.args y = some j → i ≠ j
  notThis : ∀ scope x i, InBody f.code scope → scope.getVarId f.args x = some i → i ≠ 0
  inFrame : ∀ scope x i, InBody f.code scope → scope.getVarId f.args x = some i →
    i < f.code.maxVarId + 1

/-! ## Lookups in stacked blocks -/

/-- The first slot behind those of a scope. -/
def Scope.nextVarId (args : List String) : Scope → ℕ
  | [] => args.length + 1
  | block :: _ => block.startingVarId + block.vars.length

/-- Each block starts where the enclosing one ends. -/
def Scope.Stacked (args : List String) : Scope → Prop
  | [] => True
  | block :: parents =>
      block.startingVarId = Scope.nextVarId args parents ∧ Scope.Stacked args parents

theorem idxOf?_lt {names : List String} {x : String} {i : ℕ} (h : names.idxOf? x = some i) :
    i < names.length := by
  rw [List.idxOf?, List.findIdx?_eq_some_iff_getElem] at h
  obtain ⟨hi, -⟩ := h
  exact hi

theorem idxOf?_inj {names : List String} {x y : String} {i : ℕ} (hx : names.idxOf? x = some i)
    (hy : names.idxOf? y = some i) : x = y := by
  rw [List.idxOf?, List.findIdx?_eq_some_iff_getElem] at hx hy
  obtain ⟨_, hx, -⟩ := hx
  obtain ⟨_, hy, -⟩ := hy
  rw [beq_iff_eq] at hx hy
  rw [← hx, ← hy]

namespace Scope

variable {args : List String} {x y : String} {i j : ℕ}

theorem getArgId_bounds (h : getArgId args x = some i) : 0 < i ∧ i < args.length + 1 := by
  obtain ⟨k, hk, rfl⟩ := Option.map_eq_some_iff.mp h
  have := idxOf?_lt hk
  omega

/-- What a lookup finds: a variable of the innermost block, or one further out. -/
theorem getVarId_cons {block : CodeBlock} {parents : Scope}
    (h : getVarId args (block :: parents) x = some i) :
    (∃ k, block.vars.idxOf? x = some k ∧ i = k + block.startingVarId) ∨
      getVarId args parents x = some i := by
  rw [getVarId] at h
  split at h
  · next k hk => exact .inl ⟨k, hk, (Option.some.inj h).symm⟩
  · exact .inr h

theorem Stacked.le_nextVarId {block : CodeBlock} {parents : Scope}
    (h : Stacked args (block :: parents)) :
    nextVarId args parents ≤ nextVarId args (block :: parents) := by
  rw [Stacked] at h
  rw [nextVarId, h.1]
  exact Nat.le_add_right _ _

theorem Stacked.nextVarId_pos : ∀ {scope : Scope}, Stacked args scope → 0 < nextVarId args scope
  | [], _ => Nat.succ_pos _
  | _ :: _, h => Nat.lt_of_lt_of_le (Stacked.nextVarId_pos h.2) h.le_nextVarId

/-- A slot found in a stacked scope is one of its own. -/
theorem Stacked.getVarId_bounds : ∀ {scope : Scope}, Stacked args scope →
    getVarId args scope x = some i → 0 < i ∧ i < nextVarId args scope
  | [], _, hi => getArgId_bounds hi
  | block :: parents, h, hi => by
      have hpos := h.2.nextVarId_pos
      have hstart : block.startingVarId = nextVarId args parents := h.1
      rcases getVarId_cons hi with ⟨k, hk, rfl⟩ | hi
      · have := idxOf?_lt hk
        rw [nextVarId]
        omega
      · obtain ⟨h0, hlt⟩ := h.2.getVarId_bounds hi
        exact ⟨h0, Nat.lt_of_lt_of_le hlt h.le_nextVarId⟩

/-- Two names with one slot in a stacked scope are one name. -/
theorem Stacked.getVarId_inj : ∀ {scope : Scope}, Stacked args scope →
    getVarId args scope x = some i → getVarId args scope y = some i → x = y
  | [], _, hx, hy => by
      obtain ⟨k, hk, rfl⟩ := Option.map_eq_some_iff.mp hx
      obtain ⟨l, hl, hkl⟩ := Option.map_eq_some_iff.mp hy
      obtain rfl : l = k := Nat.add_right_cancel hkl
      exact idxOf?_inj hk hl
  | block :: parents, h, hx, hy => by
      have hstart : block.startingVarId = nextVarId args parents := h.1
      rcases getVarId_cons hx with ⟨k, hk, rfl⟩ | hx' <;>
        rcases getVarId_cons hy with ⟨l, hl, hkl⟩ | hy'
      · obtain rfl : l = k := by omega
        exact idxOf?_inj hk hl
      · -- an outer slot lies below the range of the block
        have := (h.2.getVarId_bounds hy').2
        omega
      · have := (h.2.getVarId_bounds hx').2
        omega
      · exact h.2.getVarId_inj hx' hy'

end Scope

/-! ## What the parser builds -/

/-- A block as the parser leaves it before `setStartingVarId`; whether it is linked is the index.
    Blocks of `if` and `for` are linked, those of `try` are not. -/
inductive Parsed : Bool → CodeBlock → Prop
  | mk {linked : Bool} {vars : List String} {code : List Expression}
      (hblocks : ∀ expr ∈ code, ∀ child ∈ expr.blocks, Parsed (!expr.isTry) child)
      (hcatch : ∀ tryBlock var catchBlock, .tryExpr tryBlock var catchBlock ∈ code →
        catchBlock.vars ≠ []) :
      Parsed linked (.mk linked 0 0 vars code)

theorem Parsed.empty : Parsed false .empty := by
  refine .mk ?_ ?_ <;> simp

section

variable {linked : Bool} {block : CodeBlock} {expr : Expression}

theorem Parsed.link (h : Parsed linked block) : Parsed true block.link := by
  cases h with
  | mk hblocks hcatch => exact .mk hblocks hcatch

theorem Parsed.addVar (h : Parsed linked block) (var : String) :
    Parsed linked (block.addVar var) := by
  cases h with
  | mk hblocks hcatch => exact .mk hblocks hcatch

theorem Parsed.startingVarId (h : Parsed linked block) : block.startingVarId = 0 := by
  cases h
  rfl

theorem Parsed.linked_eq (h : Parsed linked block) : block.linked = linked := by
  cases h
  rfl

theorem Parsed.addCode (h : Parsed linked block)
    (hb : ∀ child ∈ expr.blocks, Parsed (!expr.isTry) child)
    (hc : ∀ tryBlock var catchBlock, expr = .tryExpr tryBlock var catchBlock →
      catchBlock.vars ≠ []) :
    Parsed linked (block.addCode expr) := by
  cases h with
  | mk hblocks hcatch =>
    refine .mk ?_ ?_
    · intro e he
      rcases List.mem_append.mp he with he | he
      · exact hblocks e he
      · rw [List.mem_singleton.mp he]
        exact hb
    · intro t v c he
      rcases List.mem_append.mp he with he | he
      · exact hcatch t v c he
      · exact hc t v c (List.mem_singleton.mp he).symm

/-- A statement without blocks, such as an expression. -/
theorem Parsed.addSimple (h : Parsed linked block) (he : expr.blocks = []) :
    Parsed linked (block.addCode expr) := by
  refine h.addCode ?_ ?_
  · simp [he]
  · rintro t v c rfl
    cases he

theorem Parsed.addIf {linked' : Bool} {trueBlock : CodeBlock} {falseBlock : Option CodeBlock}
    (h : Parsed linked block) (ht : Parsed linked' trueBlock)
    (hf : ∀ child ∈ falseBlock, Parsed true child) :
    Parsed linked (block.addCode (.ifExpr expr trueBlock.link falseBlock)) := by
  refine h.addCode ?_ ?_
  · intro child hc
    rcases List.mem_cons.mp hc with rfl | hc
    · exact ht.link
    · exact hf child (Option.mem_toList.mp hc)
  · intro _ _ _ h
    cases h

theorem Parsed.addFor {linked' : Bool} {body : CodeBlock} {init inc : Option Expression}
    (h : Parsed linked block) (hb : Parsed linked' body) :
    Parsed linked (block.addCode (.forExpr init expr inc body.link)) := by
  refine h.addCode ?_ ?_
  · intro child hc
    rw [List.mem_singleton.mp hc]
    exact hb.link
  · intro _ _ _ h
    cases h

theorem vars_addVar (block : CodeBlock) (var : String) :
    (block.addVar var).vars = block.vars ++ [var] := by
  cases block
  rfl

theorem Parsed.addTry {tryBlock catchBlock : CodeBlock} {var : String} (h : Parsed linked block)
    (ht : Parsed false tryBlock) (hc : Parsed false catchBlock) :
    Parsed linked (block.addCode (.tryExpr tryBlock var (catchBlock.addVar var))) := by
  refine h.addCode ?_ ?_
  · intro child hchild
    rcases List.mem_cons.mp hchild with rfl | hchild
    · exact ht
    · rw [List.mem_singleton.mp hchild]
      exact hc.addVar var
  · intro _ _ _ h
    cases h
    simp [vars_addVar]

end

/-! ## The parser -/

variable {World : Type} (P : ParserEnv World)

/-- No operand in an output queue has blocks. -/
def QueueSimple (queue : List QueueEntry) : Prop :=
  ∀ expr, .value expr ∈ queue → expr.blocks = []

variable {P}

theorem QueueSimple.tail {entry : QueueEntry} {queue : List QueueEntry}
    (h : QueueSimple (entry :: queue)) : QueueSimple queue :=
  fun expr he => h expr (List.mem_cons_of_mem _ he)

theorem QueueSimple.value {expr : Expression} {queue : List QueueEntry}
    (he : expr.blocks = []) (h : QueueSimple queue) : QueueSimple (.value expr :: queue) := by
  intro e hmem
  rcases List.mem_cons.mp hmem with hmem | hmem
  · rw [QueueEntry.value.inj hmem]
    exact he
  · exact h e hmem

theorem QueueSimple.operator (op : Option OpDesc) {queue : List QueueEntry}
    (h : QueueSimple queue) : QueueSimple (QueueEntry.ofOperator op :: queue) := by
  intro e hmem
  rcases List.mem_cons.mp hmem with hmem | hmem
  · cases op <;> cases hmem
  · exact h e hmem

theorem foldLiterals_blocks {op : OpType} {left right expr : Expression}
    (h : foldLiterals P op left right = some expr) : expr.blocks = [] := by
  unfold foldLiterals at h
  split at h <;> cases h <;> rfl

theorem buildOperation_blocks {desc : OpDesc} {left right : Option Expression} {expr : Expression}
    (h : buildOperation P desc left right = some expr) : expr.blocks = [] := by
  unfold buildOperation at h
  split at h
  · split at h
    · next e he =>
      cases h
      exact foldLiterals_blocks he
    · split at h
      · split at h
        · cases h
          rfl
        · cases h
      · cases h
        rfl
  · cases h
    rfl

theorem buildTree_blocks {n : ℕ} {queue rest : List QueueEntry} {expr : Expression}
    (hq : QueueSimple queue) (h : buildTree P n queue = some (expr, rest)) :
    expr.blocks = [] := by
  cases n with
  | zero => cases h
  | succ n =>
    rcases queue with _ | ⟨entry, queue⟩
    · cases h
    · cases entry with
      | bracket => cases h
      | value e =>
        rw [buildTree] at h
        cases h
        exact hq _ (List.mem_cons_self ..)
      | operator desc =>
        simp only [buildTree, Option.bind_eq_bind, Option.bind_eq_some_iff] at h
        obtain ⟨⟨right, q1⟩, -, ⟨left, q2⟩, -, e, he, h⟩ := h
        cases h
        exact buildOperation_blocks he

theorem popToBracket_simple {operators operators' : List (Option OpDesc)}
    {queue queue' : List QueueEntry} (hq : QueueSimple queue)
    (h : popToBracket operators queue = some (operators', queue')) : QueueSimple queue' := by
  induction operators generalizing queue with
  | nil => cases h
  | cons op operators ih =>
    cases op with
    | none =>
      cases h
      exact hq
    | some op => exact ih (hq.operator (some op)) h

theorem pushOperatorStack_simple (op : OpDesc) (operators : List (Option OpDesc))
    {queue : List QueueEntry} (hq : QueueSimple queue) :
    QueueSimple (pushOperatorStack op operators queue).2 := by
  unfold pushOperatorStack
  split
  · next top below =>
    split
    · exact hq.operator (some top)
    · exact hq
  · exact hq

theorem parseExpressionValue_blocks {fuel : ℕ} {s t : ParserState World} {expr : Expression}
    (h : (parseExpressionValue P fuel).Ok s expr t) : expr.blocks = [] := by
  cases fuel with
  | zero => cases h
  | succ fuel =>
    rw [parseExpressionValue, Attempt.bind_ok] at h
    obtain ⟨token, u, -, h⟩ := h
    split at h
    · simp only [Attempt.bind_ok, Attempt.pure_ok] at h
      obtain ⟨id, _, _, params, _, _, rfl, rfl⟩ := h
      rfl
    · simp only [Attempt.bind_ok] at h
      obtain ⟨next, _, _, ⟨clazz, id⟩, _, _, next', _, _, h⟩ := h
      split at h
      · simp only [Attempt.bind_ok, Attempt.pure_ok] at h
        obtain ⟨_, _, _, params, _, _, rfl, rfl⟩ := h
        rfl
      · split at h
        · simp only [Attempt.bind_ok, Attempt.pure_ok] at h
          obtain ⟨index, _, _, _, _, _, rfl, rfl⟩ := h
          rfl
        · simp only [Attempt.bind_ok, Attempt.pure_ok] at h
          obtain ⟨_, _, _, rfl, rfl⟩ := h
          rfl
    · simp only [Attempt.bind_ok, Attempt.pure_ok] at h
      obtain ⟨f, _, _, rfl, rfl⟩ := h
      rfl
    · split at h
      · rw [Attempt.pure_ok] at h
        obtain ⟨rfl, rfl⟩ := h
        rfl
      · cases h
    · rw [Attempt.pure_ok] at h
      obtain ⟨rfl, rfl⟩ := h
      rfl
    · rw [Attempt.pure_ok] at h
      obtain ⟨rfl, rfl⟩ := h
      rfl
    · rw [Attempt.pure_ok] at h
      obtain ⟨rfl, rfl⟩ := h
      rfl
    · cases h

theorem parseExpressionLoop_simple {fuel : ℕ} {endToken : TokenType}
    {queue queue' : List QueueEntry} {operators operators' : List (Option OpDesc)} {brackets : ℕ}
    {s t : ParserState World} (hq : QueueSimple queue)
    (h : (parseExpressionLoop P fuel endToken queue operators brackets).Ok s
      (queue', operators') t) : QueueSimple queue' := by
  induction fuel generalizing queue operators brackets s with
  | zero => cases h
  | succ fuel ih =>
    rw [parseExpressionLoop, Attempt.bind_ok] at h
    obtain ⟨token, u, -, h⟩ := h
    split at h
    · simp only [Attempt.bind_ok, Attempt.pure_ok] at h
      obtain ⟨_, _, _, h, rfl⟩ := h
      cases h
      exact hq
    · split at h
      · next op _ => exact ih (pushOperatorStack_simple op operators hq) h
      · split at h
        · exact ih hq h
        · split at h
          · split at h
            · cases h
            · next hpop => exact ih (popToBracket_simple hq hpop) h
          · simp only [Attempt.bind_ok] at h
            obtain ⟨_, _, _, expr, _, hexpr, h⟩ := h
            exact ih (.value (parseExpressionValue_blocks hexpr) hq) h

theorem parseExpression_blocks {fuel : ℕ} {endToken : TokenType} {s t : ParserState World}
    {expr : Expression} (h : (parseExpression P fuel endToken).Ok s expr t) :
    expr.blocks = [] := by
  cases fuel with
  | zero => cases h
  | succ fuel =>
    rw [parseExpression, Attempt.bind_ok] at h
    obtain ⟨⟨queue, operators⟩, u, hloop, h⟩ := h
    have hempty : QueueSimple [] := fun _ he => absurd he (List.not_mem_nil)
    have hq := parseExpressionLoop_simple hempty hloop
    have hall : QueueSimple
        (operators.foldl (fun queue op => QueueEntry.ofOperator op :: queue) queue) := by
      clear h hloop
      induction operators generalizing queue with
      | nil => exact hq
      | cons op operators ih => exact ih _ (hq.operator op)
    dsimp only at h
    split at h
    · cases h
    · next htree =>
      cases h
      exact buildTree_blocks hall htree

/-- A statement keeps the shape of the block that it is added to, and a block has it. -/
theorem parse_parsed (fuel : ℕ) :
    (∀ code r s t, Parsed false code → (parseCodeBlock P fuel code).Ok s r t → Parsed false r) ∧
    (∀ code r finished s t, Parsed false code →
      (parseStatement P fuel code).Ok s (r, finished) t → Parsed false r) := by
  induction fuel with
  | zero =>
    refine ⟨fun _ _ _ _ _ h => ?_, fun _ _ _ _ _ _ h => ?_⟩
    · cases h
    · cases h
  | succ fuel ih =>
    obtain ⟨ihBlock, ihStatement⟩ := ih
    refine ⟨?_, ?_⟩
    · intro code r s t hcode h
      rw [parseCodeBlock, Attempt.bind_ok] at h
      obtain ⟨more, u, -, h⟩ := h
      split at h
      · rw [Attempt.pure_ok] at h
        exact h.1 ▸ hcode
      · rw [Attempt.bind_ok] at h
        obtain ⟨⟨code', finished⟩, v, hs, h⟩ := h
        have hcode' := ihStatement _ _ _ _ _ hcode hs
        dsimp only at h
        split at h
        · rw [Attempt.pure_ok] at h
          exact h.1 ▸ hcode'
        · exact ihBlock _ _ _ _ hcode' h
    · intro code r finished s t hcode h
      rw [parseStatement, Attempt.bind_ok] at h
      obtain ⟨token, u, -, h⟩ := h
      split at h
      · -- `}`
        rw [Attempt.pure_ok] at h
        cases h.1
        exact hcode
      · -- `var`
        simp only [Attempt.bind_ok] at h
        obtain ⟨name, _, _, next, _, _, h⟩ := h
        split at h
        · simp only [Attempt.bind_ok, Attempt.pure_ok] at h
          obtain ⟨_, _, _, expr, _, hexpr, _, _, _, h, rfl⟩ := h
          cases h
          exact (hcode.addVar _).addSimple (parseExpression_blocks hexpr)
        · split at h
          · rw [Attempt.pure_ok] at h
            cases h.1
            exact hcode.addVar _
          · cases h
      · -- `if`
        simp only [Attempt.bind_ok] at h
        obtain ⟨_, _, _, test, _, _, _, _, _, _, _, _, trueBlock, _, htrue, next, _, _, h⟩ := h
        have htrue := ihBlock _ _ _ _ .empty htrue
        split at h
        · simp only [Attempt.bind_ok, Attempt.pure_ok] at h
          obtain ⟨next, v, _, falseBlock, w, hfalse, h, rfl⟩ := h
          have hfalse : Parsed false falseBlock := by
            split at hfalse
            · simp only [Attempt.bind_ok, Attempt.pure_ok] at hfalse
              obtain ⟨_, _, _, ⟨elseIf, e⟩, _, hs, rfl, rfl⟩ := hfalse
              exact ihStatement _ _ _ _ _ .empty hs
            · split at hfalse
              · exact ihBlock _ _ _ _ .empty hfalse
              · cases hfalse
          cases h
          refine hcode.addIf htrue ?_
          rintro child ⟨⟩
          exact hfalse.link
        · simp only [Attempt.bind_ok, Attempt.pure_ok] at h
          obtain ⟨_, _, _, h, rfl⟩ := h
          cases h
          refine hcode.addIf htrue ?_
          rintro child ⟨⟩
      · -- `for`
        simp only [Attempt.bind_ok, Attempt.pure_ok] at h
        obtain ⟨_, _, _, init, _, _, _, _, _, test, _, _, _, _, _, inc, _, _, _, _, _, _, _, _,
          body, _, hbody, h, rfl⟩ := h
        have hbody := ihBlock _ _ _ _ .empty hbody
        cases h
        exact hcode.addFor hbody
      · -- `while`
        simp only [Attempt.bind_ok, Attempt.pure_ok] at h
        obtain ⟨_, _, _, test, _, _, _, _, _, _, _, _, body, _, hbody, h, rfl⟩ := h
        have hbody := ihBlock _ _ _ _ .empty hbody
        cases h
        exact hcode.addFor hbody
      · -- `return`
        rw [Attempt.bind_ok] at h
        obtain ⟨next, _, _, h⟩ := h
        split at h
        · rw [Attempt.pure_ok] at h
          cases h.1
          exact hcode.addSimple rfl
        · simp only [Attempt.bind_ok, Attempt.pure_ok] at h
          obtain ⟨_, _, _, value, _, _, _, _, _, h, rfl⟩ := h
          cases h
          exact hcode.addSimple rfl
      · -- `try`
        simp only [Attempt.bind_ok, Attempt.pure_ok] at h
        obtain ⟨_, _, _, tryBlock, _, htry, _, _, _, _, _, _, var, _, _, _, _, _, _, _, _,
          catchBlock, _, hcatch, h, rfl⟩ := h
        cases h
        exact hcode.addTry (ihBlock _ _ _ _ .empty htry) (ihBlock _ _ _ _ .empty hcatch)
      · -- `throw`
        simp only [Attempt.bind_ok, Attempt.pure_ok] at h
        obtain ⟨value, _, _, _, _, _, h, rfl⟩ := h
        cases h
        exact hcode.addSimple rfl
      · simp only [Attempt.bind_ok, Attempt.pure_ok] at h
        obtain ⟨_, _, _, expr, _, hexpr, _, _, _, h, rfl⟩ := h
        cases h
        exact hcode.addSimple (parseExpression_blocks hexpr)

/-! ## Numbering -/

section

variable {id : ℕ} {linked : Bool} {block child : CodeBlock} {code : List Expression}

theorem setStartingVarId_start (id : ℕ) (block : CodeBlock) :
    (block.setStartingVarId id).startingVarId = id := by
  cases block
  rfl

theorem setStartingVarId_vars (id : ℕ) (block : CodeBlock) :
    (block.setStartingVarId id).vars = block.vars := by
  cases block
  rfl

theorem setStatementsVarId_eq_map (id : ℕ) (code : List Expression) :
    setStatementsVarId id code = code.map (setStatementVarId id) := by
  induction code with
  | nil => rfl
  | cons expr code ih => rw [setStatementsVarId, List.map_cons, ih]

theorem setStartingVarId_code (id : ℕ) (block : CodeBlock) :
    (block.setStartingVarId id).code =
      block.code.map (setStatementVarId (id + block.vars.length)) := by
  cases block
  exact setStatementsVarId_eq_map _ _

/-- `setStartingVarId` for a block of a statement, if it is linked. -/
theorem setStatementVarId_blocks (id : ℕ) (expr : Expression) :
    (setStatementVarId id expr).blocks =
      expr.blocks.map (fun child => if child.linked then child.setStartingVarId id else child) := by
  cases expr with
  | ifExpr test trueBlock falseBlock => cases falseBlock <;> rfl
  | _ => rfl

theorem setStatementVarId_isTry (id : ℕ) (expr : Expression) :
    (setStatementVarId id expr).isTry = expr.isTry := by
  cases expr <;> rfl

theorem foldl_max_le (blocks : List CodeBlock) (id : ℕ) :
    id ≤ blocks.foldl (fun max child => if child.maxVarId > max then child.maxVarId else max) id ∧
    ∀ child ∈ blocks, child.maxVarId ≤
      blocks.foldl (fun max child => if child.maxVarId > max then child.maxVarId else max) id := by
  induction blocks generalizing id with
  | nil => simp
  | cons b blocks ih =>
    rw [List.foldl_cons]
    obtain ⟨hid, hall⟩ := ih (if b.maxVarId > id then b.maxVarId else id)
    have hle : id ≤ (if b.maxVarId > id then b.maxVarId else id) ∧
        b.maxVarId ≤ (if b.maxVarId > id then b.maxVarId else id) := by
      split <;> omega
    refine ⟨Nat.le_trans hle.1 hid, ?_⟩
    intro child hc
    rcases List.mem_cons.mp hc with rfl | hc
    · exact Nat.le_trans hle.2 hid
    · exact hall child hc

theorem le_setStartingVarId_max (id : ℕ) (block : CodeBlock) :
    id + block.vars.length ≤ (block.setStartingVarId id).maxVarId := by
  cases block
  exact (foldl_max_le _ _).1

theorem childBlocks_max_le (id : ℕ) (hc : child ∈ (block.setStartingVarId id).childBlocks) :
    child.maxVarId ≤ (block.setStartingVarId id).maxVarId := by
  cases block
  exact (foldl_max_le _ _).2 child hc

theorem setStartingVarId_linked (id : ℕ) (block : CodeBlock) :
    (block.setStartingVarId id).linked = block.linked := by
  cases block
  rfl

/-- A block of a function body: one that is numbered, or one that is as the parser left it. -/
def Built (block : CodeBlock) : Prop :=
  ∃ linked parsed, Parsed linked parsed ∧
    (block = parsed ∨ ∃ id, block = parsed.setStartingVarId id)

theorem Parsed.blocks (h : Parsed linked block) {expr : Expression} (he : expr ∈ block.code)
    (hc : child ∈ expr.blocks) : Parsed (!expr.isTry) child := by
  cases h with
  | mk hblocks hcatch => exact hblocks expr he child hc

/-- What is below a statement of a numbered block: a numbered block, or, in a `try`, one that is not
    numbered. -/
theorem numbered_blocks (h : Parsed linked block) {expr : Expression}
    (he : expr ∈ (block.setStartingVarId id).code) (hc : child ∈ expr.blocks) :
    ∃ parsed, Parsed (!expr.isTry) parsed ∧
      child = if expr.isTry then parsed else parsed.setStartingVarId (id + block.vars.length) := by
  rw [setStartingVarId_code] at he
  obtain ⟨expr, hexpr, rfl⟩ := List.mem_map.mp he
  rw [setStatementVarId_blocks] at hc
  obtain ⟨parsed, hp, rfl⟩ := List.mem_map.mp hc
  have hparsed := h.blocks hexpr hp
  rw [setStatementVarId_isTry]
  refine ⟨parsed, hparsed, ?_⟩
  rw [hparsed.linked_eq]
  cases expr.isTry <;> rfl

theorem Built.below (h : Built block) (hc : child ∈ block.blocks) : Built child := by
  obtain ⟨linked, parsed, hparsed, rfl | ⟨id, rfl⟩⟩ := h
  · obtain ⟨expr, he, hc⟩ := List.mem_flatMap.mp hc
    exact ⟨_, child, hparsed.blocks he hc, .inl rfl⟩
  · obtain ⟨expr, he, hc⟩ := List.mem_flatMap.mp hc
    obtain ⟨parsed', hparsed', rfl⟩ := numbered_blocks hparsed he hc
    refine ⟨_, parsed', hparsed', ?_⟩
    cases expr.isTry
    · exact .inr ⟨_, rfl⟩
    · exact .inl rfl

/-- A handler's block is not numbered, and it has a variable. -/
theorem Built.catchBlock (h : Built block) {tryBlock catchBlock : CodeBlock} {var : String}
    (he : .tryExpr tryBlock var catchBlock ∈ block.code) :
    catchBlock.startingVarId = 0 ∧ catchBlock.vars ≠ [] := by
  have hmem : catchBlock ∈ (Expression.tryExpr tryBlock var catchBlock).blocks :=
    List.mem_cons_of_mem _ (List.mem_singleton_self _)
  obtain ⟨linked, parsed, hparsed, rfl | ⟨id, rfl⟩⟩ := h
  · cases hparsed with
    | mk hblocks hcatch => exact ⟨(hblocks _ he _ hmem).startingVarId, hcatch _ _ _ he⟩
  · obtain ⟨catch', hcatch', rfl⟩ := numbered_blocks hparsed he hmem
    refine ⟨hcatch'.startingVarId, ?_⟩
    rw [setStartingVarId_code] at he
    obtain ⟨expr, hexpr, heq⟩ := List.mem_map.mp he
    cases hparsed with
    | mk hblocks hcatch =>
      cases expr with
      | tryExpr t v c =>
        rw [setStatementVarId] at heq
        have hlinked : c.linked = false :=
          (hblocks _ hexpr c (List.mem_cons_of_mem _ (List.mem_singleton_self _))).linked_eq
        rw [hlinked] at heq
        cases heq
        exact hcatch _ _ _ hexpr
      | ifExpr => cases heq
      | forExpr => cases heq
      | _ => cases heq

end

theorem InBody.built {body : CodeBlock} {scope : Scope} (hb : Built body) (h : InBody body scope) :
    ∀ block parents, scope = block :: parents → Built block := by
  induction h with
  | body =>
    rintro _ _ ⟨⟩
    exact hb
  | block _ hc ih =>
    rintro _ _ ⟨⟩
    exact Built.below (ih _ _ rfl) hc

/-- Without `try`, the ranges of the blocks of a scope are stacked, below `m_maxVarId`. -/
theorem InBody.stacked {args : List String} {linked : Bool} {body : CodeBlock} {scope : Scope}
    (hb : Parsed linked body) (hno : (body.setStartingVarId (args.length + 1)).NoTry)
    (h : InBody (body.setStartingVarId (args.length + 1)) scope) :
    ∀ block parents, scope = block :: parents →
      scope.Stacked args ∧ (∃ linked parsed id, Parsed linked parsed ∧
        block = parsed.setStartingVarId id) ∧
      block.maxVarId ≤ (body.setStartingVarId (args.length + 1)).maxVarId := by
  induction h with
  | body =>
    rintro _ _ ⟨⟩
    exact ⟨⟨setStartingVarId_start _ _, trivial⟩, ⟨linked, body, _, hb, rfl⟩, Nat.le_refl _⟩
  | @block block child parents hin hc ih =>
    rintro _ _ ⟨⟩
    obtain ⟨hstacked, ⟨linked, parsed, id, hparsed, rfl⟩, hmax⟩ := ih _ _ rfl
    obtain ⟨expr, he, hce⟩ := List.mem_flatMap.mp hc
    have htry := hno _ _ hin expr he
    obtain ⟨parsed', hparsed', rfl⟩ := numbered_blocks hparsed he hce
    rw [htry] at hparsed' ⊢
    have hlinked : (parsed'.setStartingVarId (id + parsed.vars.length)).linked = true := by
      rw [setStartingVarId_linked]
      exact hparsed'.linked_eq
    rw [htry] at hc
    refine ⟨⟨?_, hstacked⟩, ⟨_, parsed', _, hparsed', rfl⟩, ?_⟩
    · show (parsed'.setStartingVarId _).startingVarId = _
      rw [setStartingVarId_start, Scope.nextVarId, setStartingVarId_start, setStartingVarId_vars]
    · exact Nat.le_trans (childBlocks_max_le id (List.mem_filter.mpr ⟨hc, hlinked⟩)) hmax

/-! ## Slots of parsed functions -/

theorem parseFunction_code {fuel : ℕ} {s t : ParserState World} {f : ScriptFunction}
    (h : (parseFunction P fuel).Ok s f t) :
    ∃ body, Parsed false body ∧ f.code = body.setStartingVarId (f.args.length + 1) := by
  cases fuel with
  | zero => cases h
  | succ fuel =>
    simp only [parseFunction, Attempt.bind_ok] at h
    obtain ⟨args, _, _, address, _, _, token, _, _, token', _, _, h⟩ := h
    split at h
    · cases h
    · simp only [Attempt.bind_ok, Attempt.pure_ok] at h
      obtain ⟨body, _, hbody, rfl, rfl⟩ := h
      exact ⟨body, (parse_parsed fuel).1 _ _ _ _ .empty hbody, rfl⟩

/-- **Local variables of a parsed function have different slots in the frame exactly when its body
    has no `try`.** -/
theorem parseFunction_slots_iff {fuel : ℕ} {s t : ParserState World} {f : ScriptFunction}
    (h : (parseFunction P fuel).Ok s f t) : SlotsDisjoint f ↔ f.code.NoTry := by
  obtain ⟨body, hparsed, hcode⟩ := parseFunction_code h
  refine ⟨?_, ?_⟩
  · intro hslots block parents hin expr he
    cases htry : expr.isTry with
    | false => rfl
    | true =>
      cases expr with
      | tryExpr tryBlock var catchBlock =>
        have hbuilt : Built block :=
          InBody.built ⟨false, body, hparsed, .inr ⟨_, hcode⟩⟩ hin _ _ rfl
        obtain ⟨hstart, hvars⟩ := hbuilt.catchBlock he
        obtain ⟨x, vars, hx⟩ := List.exists_cons_of_ne_nil hvars
        -- the first variable of the handler's block has the slot of `this`
        have hslot : Scope.getVarId f.args (catchBlock :: block :: parents) x = some 0 := by
          simp [Scope.getVarId, hx, hstart, List.idxOf?_cons]
        have hin' : InBody f.code (catchBlock :: block :: parents) :=
          hin.block (List.mem_flatMap.mpr
            ⟨_, he, List.mem_cons_of_mem _ (List.mem_singleton_self _)⟩)
        exact absurd rfl (hslots.notThis _ _ _ hin' hslot)
      | _ => cases htry
  · intro hno
    have hscope : ∀ scope, InBody f.code scope →
        scope.Stacked f.args ∧ scope.nextVarId f.args ≤ f.code.maxVarId := by
      intro scope hin
      rw [hcode] at hno hin ⊢
      rcases scope with _ | ⟨block, parents⟩
      · cases hin
      · obtain ⟨hstacked, ⟨_, parsed, id, -, rfl⟩, hmax⟩ := hin.stacked hparsed hno _ _ rfl
        refine ⟨hstacked, Nat.le_trans ?_ hmax⟩
        rw [Scope.nextVarId, setStartingVarId_start, setStartingVarId_vars]
        exact le_setStartingVarId_max _ _
    refine ⟨?_, ?_, ?_⟩
    · rintro scope x y i _ hin hne hx hy rfl
      exact hne ((hscope scope hin).1.getVarId_inj hx hy)
    · intro scope x i hin hx
      exact Nat.pos_iff_ne_zero.mp ((hscope scope hin).1.getVarId_bounds hx).1
    · intro scope x i hin hx
      have := ((hscope scope hin).1.getVarId_bounds hx).2
      have := (hscope scope hin).2
      omega

/-- The tokens of `() { try { } catch (e) { } }`. -/
def tryTokens : List Token :=
  [⟨.tokBracketLeft, 1, "(", 0, 0⟩, ⟨.tokBracketRight, 1, ")", 0, 0⟩,
    ⟨.tokBraceLeft, 1, "\x7b", 0, 0⟩, ⟨.tokTry, 1, "try", 0, 0⟩, ⟨.tokBraceLeft, 1, "\x7b", 0, 0⟩,
    ⟨.tokBraceRight, 1, "\x7d", 0, 0⟩, ⟨.tokCatch, 1, "catch", 0, 0⟩,
    ⟨.tokBracketLeft, 1, "(", 0, 0⟩, ⟨.tokIdentifier, 1, "e", 0, 0⟩,
    ⟨.tokBracketRight, 1, ")", 0, 0⟩, ⟨.tokBraceLeft, 1, "\x7b", 0, 0⟩,
    ⟨.tokBraceRight, 1, "\x7d", 0, 0⟩, ⟨.tokBraceRight, 1, "\x7d", 0, 0⟩]

/-- The function that they make. -/
def tryFunction : ScriptFunction :=
  .mk 1 [] false (.mk false 1 1 []
    [.tryExpr (.mk false 0 0 [] []) "e" (.mk false 0 0 ["e"] [])])

/-- The exception variable gets the slot of `this`. -/
theorem tryFunction_slots :
    (parseFunction (plainParser tryTokens) 10).Ok ⟨0, ()⟩ tryFunction ⟨13, ()⟩ ∧
      ¬ SlotsDisjoint tryFunction := by
  refine ⟨rfl, ?_⟩
  intro h
  have hin : InBody tryFunction.code
      [.mk false 0 0 ["e"] [], tryFunction.code] := by
    refine .block .body ?_
    simp [tryFunction, ScriptFunction.code, CodeBlock.blocks, CodeBlock.code, Expression.blocks]
  exact h.notThis _ "e" 0 hin rfl rfl

/-- The tokens of `(a) { var x; while (1) { var y; } }`. -/
def loopVariableTokens : List Token :=
  [⟨.tokBracketLeft, 1, "(", 0, 0⟩, ⟨.tokIdentifier, 1, "a", 0, 0⟩,
    ⟨.tokBracketRight, 1, ")", 0, 0⟩, ⟨.tokBraceLeft, 1, "\x7b", 0, 0⟩, ⟨.tokVar, 1, "var", 0, 0⟩,
    ⟨.tokIdentifier, 1, "x", 0, 0⟩, ⟨.tokSemicolon, 1, ";", 0, 0⟩, ⟨.tokWhile, 1, "while", 0, 0⟩,
    ⟨.tokBracketLeft, 1, "(", 0, 0⟩, ⟨.tokInteger, 1, "", 1, 0⟩,
    ⟨.tokBracketRight, 1, ")", 0, 0⟩, ⟨.tokBraceLeft, 1, "\x7b", 0, 0⟩, ⟨.tokVar, 1, "var", 0, 0⟩,
    ⟨.tokIdentifier, 1, "y", 0, 0⟩, ⟨.tokSemicolon, 1, ";", 0, 0⟩,
    ⟨.tokBraceRight, 1, "\x7d", 0, 0⟩, ⟨.tokBraceRight, 1, "\x7d", 0, 0⟩]

/-- The body of the loop has the slots behind those of the function. -/
def loopVariable : ScriptFunction :=
  .mk 1 ["a"] false (.mk false 2 4 ["x"]
    [.forExpr none (.integer .integer 1) none (.mk true 3 4 ["y"] [])])

theorem loopVariable_noTry : loopVariable.code.NoTry := by
  have hscope : ∀ scope, InBody loopVariable.code scope →
      scope = [loopVariable.code] ∨ scope = [.mk true 3 4 ["y"] [], loopVariable.code] := by
    intro scope hin
    induction hin with
    | body => exact .inl rfl
    | block _ hc ih =>
      rcases ih with ih | ih
      · obtain ⟨rfl, rfl⟩ := List.cons.inj ih
        obtain rfl := List.mem_singleton.mp hc
        exact .inr rfl
      · obtain ⟨rfl, -⟩ := List.cons.inj ih
        cases hc
  intro block parents hin expr he
  rcases hscope _ hin with h | h <;> obtain ⟨rfl, -⟩ := List.cons.inj h
  · obtain rfl := List.mem_singleton.mp he
    rfl
  · cases he

theorem loopVariable_parsed :
    (parseFunction (plainParser loopVariableTokens) 8).Ok ⟨0, ()⟩ loopVariable ⟨17, ()⟩ := rfl

/-- Its slots are different. -/
theorem loopVariable_slots :
    (parseFunction (plainParser loopVariableTokens) 8).Ok ⟨0, ()⟩ loopVariable ⟨17, ()⟩ ∧
      SlotsDisjoint loopVariable :=
  ⟨loopVariable_parsed, (parseFunction_slots_iff loopVariable_parsed).mpr loopVariable_noTry⟩

end B0rk
