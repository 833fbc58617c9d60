import B0rk.Parser.Proofs.Operands

set_option autoImplicit false

/-! # What is spelled is parsed

Every relation of the grammar says what the parser makes of the tokens, with enough fuel: one lemma for
each way to spell something, and then recursion on the spelling. -/

namespace B0rk

open Attempt (Ok)
open Filter

variable {World : Type} {P : ParserEnv World} {w w' w'' : World} {toks toks' : List Token}
  {expr : Expression}

/-! ## Parameters -/

/-- The parameters of a call are appended to those read before. -/
def ReadsParams (P : ParserEnv World) (w : World) (toks : List Token) (params : List Expression)
    (w' : World) : Prop :=
  ∀ pos rest list, Ahead P pos (toks ++ rest) →
    Parses (fun fuel => parseExpressionListRest P fuel list) pos w (list ++ params)
      (pos + toks.length) w'

theorem readsParams_nil {close : Token} (hclose : close.type = .tokBracketRight) :
    ReadsParams P w [close] [] w := by
  intro pos rest list hahead
  refine eventually_of_succ (.of_forall fun fuel => ?_)
  dsimp only
  rw [parseExpressionListRest, List.append_nil]
  refine (moreTokens_run hahead).bind ((nextToken_ok hahead).bind ?_)
  rw [if_pos hclose]
  exact Attempt.pure_ok.mpr ⟨rfl, rfl⟩

/-- One parameter, and what is done at the token behind it. -/
theorem parses_param {stop : Token} {rest : List Token} {list list' : List Expression} {pos pos' : ℕ}
    (hparam : ReadsWhole P w toks expr w') (hstop : stop.Stops .tokAny)
    (hahead : Ahead P pos (toks ++ stop :: rest))
    (h : Parses (fun fuel =>
      if stop.type = .tokBracketRight then pure (list ++ [expr])
      else if stop.type = .tokComma then parseExpressionListRest P fuel (list ++ [expr])
      else Attempt.fail) (pos + toks.length + 1) w' list' pos' w'') :
    Parses (fun fuel => parseExpressionListRest P fuel list) pos w list' pos' w'' := by
  obtain ⟨token, behind, hahead', hbegins⟩ := hparam.head hahead
  have hne : token.type ≠ .tokBracketRight := fun heq => hbegins.ne (by simp [heq])
  refine eventually_of_succ ?_
  filter_upwards [hparam.parses pos .tokAny stop rest (.inl rfl) hahead hstop, h] with fuel hparse h
  rw [parseExpressionListRest]
  refine (moreTokens_run hahead').bind ((nextToken_ok hahead').bind ?_)
  rw [if_neg hne]
  exact (rewind_ok 1).bind (hparse.bind ((nextToken_ok hahead.behind).bind h))

theorem readsParams_last {close : Token} (hparam : ReadsWhole P w toks expr w')
    (hclose : close.type = .tokBracketRight) : ReadsParams P w (toks ++ [close]) [expr] w' := by
  intro pos rest list hahead
  have hahead' : Ahead P pos (toks ++ close :: rest) := by simpa using hahead
  refine parses_param hparam (.inl hclose) hahead' (.of_forall fun fuel => ?_)
  dsimp only
  rw [if_pos hclose]
  refine Attempt.pure_ok.mpr ⟨rfl, ?_⟩
  rw [List.length_append, List.length_singleton, ← Nat.add_assoc]

theorem readsParams_cons {comma : Token} {params : List Expression}
    (hparam : ReadsWhole P w toks expr w') (hcomma : comma.type = .tokComma)
    (hparams : ReadsParams P w' toks' params w'') :
    ReadsParams P w (toks ++ comma :: toks') (expr :: params) w'' := by
  intro pos rest list hahead
  have hahead' : Ahead P pos (toks ++ comma :: (toks' ++ rest)) := by simpa using hahead
  refine parses_param hparam (.inr (.inr (.inl hcomma))) hahead' ?_
  filter_upwards [hparams _ rest (list ++ [expr]) hahead'.behind.tail] with fuel h
  rw [if_neg (by rw [hcomma]; decide), if_pos hcomma]
  have hpos : pos + (toks ++ comma :: toks').length = pos + toks.length + 1 + toks'.length := by
    simp only [List.length_append, List.length_cons]
    omega
  have hlist : list ++ expr :: params = list ++ [expr] ++ params := by simp
  rw [hpos, hlist]
  exact h

/-- The parameters with the bracket in front of them. -/
theorem ReadsParams.parses {left : Token} {params : List Expression}
    (h : ReadsParams P w toks params w') (hleft : left.type = .tokBracketLeft) {pos : ℕ}
    {rest : List Token} (hahead : Ahead P pos (left :: (toks ++ rest))) :
    Parses (parseExpressionList P) pos w params (pos + 1 + toks.length) w' := by
  refine eventually_of_succ ?_
  filter_upwards [h (pos + 1) rest [] hahead.tail] with fuel h
  rw [parseExpressionList]
  exact (expect_run hleft hahead).bind h

/-! ## Values -/

theorem readsValue_call {name left : Token} {params : List Expression}
    (hname : name.type = .tokIdentifier) (hleft : left.type = .tokBracketLeft)
    (hparams : ReadsParams P w toks params w') :
    ReadsValue P w (name :: left :: toks) (.call .unknown 0 name.string params) w' where
  begins := ⟨name, left :: toks, rfl, by rw [hname]; decide⟩
  parses pos next rest hahead _ := by
    have hahead' : Ahead P pos (name :: left :: (toks ++ next :: rest)) := hahead
    have hpos : pos + (name :: left :: toks).length = pos + 1 + 1 + toks.length := by
      simp only [List.length_cons]
      omega
    rw [hpos]
    refine eventually_of_succ ?_
    filter_upwards [hparams.parses hleft hahead'.tail] with fuel hparse
    refine parseExpressionValue_behind hname (by rw [hleft]; decide) hahead' ?_
    refine (nextToken_ok hahead'.tail).bind ?_
    rw [if_pos hleft]
    exact (rewind_ok 1).bind (hparse.bind (Attempt.pure_ok.mpr ⟨rfl, rfl⟩))

theorem readsValue_array {name left right : Token} (hname : name.type = .tokIdentifier)
    (hleft : left.type = .tokSquareBracketLeft) (hindex : ReadsWhole P w toks expr w')
    (hright : right.type = .tokSquareBracketRight) :
    ReadsValue P w (name :: left :: (toks ++ [right])) (.array .unknown 0 name.string expr) w' where
  begins := ⟨name, _, rfl, by rw [hname]; decide⟩
  parses pos next rest hahead _ := by
    have hahead' : Ahead P pos (name :: left :: (toks ++ right :: next :: rest)) := by
      simpa using hahead
    have hpos : pos + (name :: left :: (toks ++ [right])).length = pos + 1 + 1 + toks.length + 1 := by
      simp only [List.length_cons, List.length_append, List.length_nil]
      omega
    rw [hpos]
    refine eventually_of_succ ?_
    filter_upwards [hindex.parses (pos + 1 + 1) .tokSquareBracketRight right (next :: rest) (.inr rfl)
      hahead'.tail.tail (.inr (.inr (.inr ⟨rfl, hright⟩)))] with fuel hparse
    refine parseExpressionValue_behind hname (by rw [hleft]; decide) hahead' ?_
    refine (nextToken_ok hahead'.tail).bind ?_
    rw [if_neg (by rw [hleft]; decide), if_pos hleft]
    exact hparse.bind ((expect_run hright hahead'.tail.tail.behind).bind
      (Attempt.pure_ok.mpr ⟨rfl, rfl⟩))

/-- A dotted name in front of a token that is no dot. -/
theorem parses_identifier {id : List String} (h : SpellsIdentifier toks id) {next : Token}
    (hnext : next.type ≠ .tokDot) {pos : ℕ} {rest : List Token}
    (hahead : Ahead P pos (toks ++ next :: rest)) :
    Parses (parseIdentifier P) pos w id (pos + toks.length) w := by
  have hrest : ∀ {toks id}, SpellsIdentifier toks id → ∀ pos list, Ahead P pos (toks ++ next :: rest) →
      ∃ token, Ok (expect P .tokIdentifier) ⟨pos, w⟩ token ⟨pos + 1, w⟩ ∧
        Parses (fun fuel => parseIdentifierRest P fuel (list ++ [token.string])) (pos + 1) w (list ++ id)
          (pos + toks.length) w := by
    intro toks id h
    induction h with
    | @single token htype =>
      intro pos list hahead
      refine ⟨token, expect_run htype hahead, eventually_of_succ (.of_forall fun fuel => ?_)⟩
      dsimp only
      rw [parseIdentifierRest]
      refine (moreTokens_run hahead.tail).bind ((nextToken_ok hahead.tail).bind ?_)
      rw [if_pos hnext]
      exact (rewind_ok 1).bind (Attempt.pure_ok.mpr ⟨rfl, rfl⟩)
    | @dotted token dot toks id htype hdot hid ih =>
      intro pos list hahead
      obtain ⟨token', hexpect, hparse⟩ := ih (pos + 1 + 1) (list ++ [token.string]) hahead.tail.tail
      refine ⟨token, expect_run htype hahead, eventually_of_succ ?_⟩
      filter_upwards [hparse] with fuel hparse
      rw [parseIdentifierRest]
      refine (moreTokens_run hahead.tail).bind ((nextToken_ok hahead.tail).bind ?_)
      rw [if_neg (fun h => h hdot)]
      refine hexpect.bind ?_
      have hpos : pos + (token :: dot :: toks).length = pos + 1 + 1 + toks.length := by
        simp only [List.length_cons]
        omega
      have hlist : list ++ token.string :: id = list ++ [token.string] ++ id := by simp
      rw [hpos, hlist]
      exact hparse
  obtain ⟨token, hexpect, hparse⟩ := hrest h pos [] hahead
  filter_upwards [hparse] with fuel hparse
  exact hexpect.bind hparse

theorem readsValue_new {keyword left : Token} {id : List String} {params : List Expression}
    (hkeyword : keyword.type = .tokNew) (hid : SpellsIdentifier toks id)
    (hleft : left.type = .tokBracketLeft) (hparams : ReadsParams P w toks' params w') :
    ReadsValue P w (keyword :: (toks ++ left :: toks'))
      (.new .object (importedIdentifier P id) params) w' where
  begins := ⟨keyword, _, rfl, by rw [hkeyword]; decide⟩
  parses pos next rest hahead _ := by
    have hahead' : Ahead P pos (keyword :: (toks ++ left :: (toks' ++ next :: rest))) := by
      simpa using hahead
    have hpos : pos + (keyword :: (toks ++ left :: toks')).length =
        pos + 1 + toks.length + 1 + toks'.length := by
      simp only [List.length_cons, List.length_append]
      omega
    rw [hpos]
    refine eventually_of_succ ?_
    filter_upwards [parses_identifier hid (by rw [hleft]; decide) hahead'.tail,
      hparams.parses hleft hahead'.tail.behind] with fuel hparse hparse'
    rw [parseExpressionValue]
    refine (nextToken_ok hahead').bind ?_
    simp only [hkeyword]
    exact hparse.bind (hparse'.bind (Attempt.pure_ok.mpr ⟨rfl, rfl⟩))

/-- A function is parsed from the bracket in front of its parameters on. -/
def ReadsFunction (P : ParserEnv World) (w : World) (toks : List Token) (function : ScriptFunction)
    (w' : World) : Prop :=
  ∀ pos rest, Ahead P pos (toks ++ rest) →
    Parses (parseFunction P) pos w function (pos + toks.length) w'

theorem readsValue_function {keyword : Token} {function : ScriptFunction}
    (hkeyword : keyword.type = .tokFunction) (hfunction : ReadsFunction P w toks function w') :
    ReadsValue P w (keyword :: toks) (.function .object (some function)) w' where
  begins := ⟨keyword, _, rfl, by rw [hkeyword]; decide⟩
  parses pos next rest hahead _ := by
    have hpos : pos + (keyword :: toks).length = pos + 1 + toks.length := by
      rw [List.length_cons]
      omega
    rw [hpos]
    refine eventually_of_succ ?_
    filter_upwards [hfunction (pos + 1) (next :: rest) hahead.tail] with fuel hparse
    rw [parseExpressionValue]
    refine (nextToken_ok hahead).bind ?_
    simp only [hkeyword]
    exact hparse.orNull.bind (Attempt.pure_ok.mpr ⟨rfl, rfl⟩)

/-! ## Statements -/

/-- A statement, in front of a token that does not go on with it. -/
structure ReadsStatement (P : ParserEnv World) (w : World) (code : CodeBlock) (toks : List Token)
    (code' : CodeBlock) (w' : World) : Prop where
  begins : ∃ token rest, toks = token :: rest ∧ token.type ≠ .tokElse
  parses : ∀ pos next rest, Ahead P pos (toks ++ next :: rest) → next.type ≠ .tokElse →
    Parses (fun fuel => parseStatement P fuel code) pos w (code', false) (pos + toks.length) w'

/-- The rest of a block. -/
structure ReadsBlock (P : ParserEnv World) (w : World) (code : CodeBlock) (toks : List Token)
    (code' : CodeBlock) (w' : World) : Prop where
  begins : ∃ token rest, toks = token :: rest ∧ token.type ≠ .tokElse
  parses : ∀ pos rest, Ahead P pos (toks ++ rest) →
    Parses (fun fuel => parseCodeBlock P fuel code) pos w code' (pos + toks.length) w'

variable {code code' code'' block block' : CodeBlock}

theorem readsBlock_close {brace : Token} (hbrace : brace.type = .tokBraceRight) :
    ReadsBlock P w code [brace] code w where
  begins := ⟨brace, [], rfl, by rw [hbrace]; decide⟩
  parses pos rest hahead := by
    refine eventually_of_succ (eventually_of_succ (.of_forall fun fuel => ?_))
    dsimp only
    rw [parseCodeBlock, parseStatement]
    refine (moreTokens_run hahead).bind ?_
    have hstatement : Ok (parseStatement P (fuel + 1) code) ⟨pos, w⟩ (code, true) ⟨pos + 1, w⟩ := by
      rw [parseStatement]
      refine (nextToken_ok hahead).bind ?_
      simp only [hbrace]
      exact Attempt.pure_ok.mpr ⟨rfl, rfl⟩
    rw [← parseStatement]
    exact hstatement.bind (Attempt.pure_ok.mpr ⟨rfl, rfl⟩)

theorem ReadsStatement.cons (hstatement : ReadsStatement P w code toks code' w')
    (hblock : ReadsBlock P w' code' toks' code'' w'') :
    ReadsBlock P w code (toks ++ toks') code'' w'' where
  begins := by
    obtain ⟨token, rest, rfl, hne⟩ := hstatement.begins
    exact ⟨token, rest ++ toks', rfl, hne⟩
  parses pos rest hahead := by
    obtain ⟨next, behind, rfl, hnext⟩ := hblock.begins
    have hahead' : Ahead P pos (toks ++ next :: (behind ++ rest)) := by simpa using hahead
    obtain ⟨token, toks, rfl, -⟩ := hstatement.begins
    have hpos : pos + (token :: toks ++ next :: behind).length =
        pos + (token :: toks).length + (next :: behind).length := by
      simp only [List.length_append]
      omega
    rw [hpos]
    refine eventually_of_succ ?_
    filter_upwards [hstatement.parses pos next _ hahead' hnext,
      hblock.parses _ rest hahead'.behind] with fuel hstatement hblock
    rw [parseCodeBlock]
    refine (moreTokens_run hahead').bind (hstatement.bind ?_)
    exact hblock

theorem readsStatement_var {keyword name semicolon : Token} (hkeyword : keyword.type = .tokVar)
    (hname : name.type = .tokIdentifier) (hsemicolon : semicolon.type = .tokSemicolon) :
    ReadsStatement P w code [keyword, name, semicolon] (code.addVar name.string) w where
  begins := ⟨keyword, _, rfl, by rw [hkeyword]; decide⟩
  parses pos next rest hahead _ := by
    refine eventually_of_succ (.of_forall fun fuel => ?_)
    dsimp only
    rw [parseStatement]
    refine (nextToken_ok hahead).bind ?_
    simp only [hkeyword]
    refine (expect_run hname hahead.tail).bind ((nextToken_ok hahead.tail.tail).bind ?_)
    rw [if_neg (by rw [hsemicolon]; decide), if_pos hsemicolon]
    exact Attempt.pure_ok.mpr ⟨rfl, rfl⟩

theorem readsStatement_varSet {keyword name assign semicolon : Token}
    (hkeyword : keyword.type = .tokVar) (hname : name.type = .tokIdentifier)
    (hassign : assign.type = .tokAssign)
    (hexpr : ReadsWhole P w (name :: assign :: toks) expr w')
    (hsemicolon : semicolon.type = .tokSemicolon) :
    ReadsStatement P w code (keyword :: name :: assign :: (toks ++ [semicolon]))
      ((code.addVar name.string).addCode expr) w' where
  begins := ⟨keyword, _, rfl, by rw [hkeyword]; decide⟩
  parses pos next rest hahead _ := by
    have hahead' : Ahead P pos (keyword :: (name :: assign :: toks ++ semicolon :: next :: rest)) := by
      simpa using hahead
    have hpos : pos + (keyword :: name :: assign :: (toks ++ [semicolon])).length =
        pos + 1 + (name :: assign :: toks).length + 1 := by
      simp only [List.length_cons, List.length_append, List.length_nil]
      omega
    rw [hpos]
    refine eventually_of_succ ?_
    filter_upwards [hexpr.parses (pos + 1) .tokAny semicolon _ (.inl rfl) hahead'.tail
      (.inr (.inl hsemicolon))] with fuel hparse
    rw [parseStatement]
    refine (nextToken_ok hahead').bind ?_
    simp only [hkeyword]
    refine (expect_run hname hahead'.tail).bind ((nextToken_ok hahead'.tail.tail).bind ?_)
    rw [if_pos hassign]
    refine (rewind_run (pos + 1) 2).bind (hparse.bind ?_)
    exact (expect_run hsemicolon hahead'.tail.behind).bind (Attempt.pure_ok.mpr ⟨rfl, rfl⟩)

/-- A whole expression with a semicolon: what is done in between. -/
theorem parses_semicolon {semicolon : Token} {rest : List Token} {pos : ℕ} {α : Type}
    {f : Expression → Parse World α} {a : α} (hexpr : ReadsWhole P w toks expr w')
    (hsemicolon : semicolon.type = .tokSemicolon)
    (hahead : Ahead P pos (toks ++ semicolon :: rest))
    (h : Ok (f expr) ⟨pos + toks.length + 1, w'⟩ a ⟨pos + toks.length + 1, w'⟩) :
    Parses (fun fuel => do
      let expr ← parseExpression P fuel .tokAny
      let _ ← expect P .tokSemicolon
      f expr) pos w a (pos + toks.length + 1) w' := by
  filter_upwards [hexpr.parses pos .tokAny semicolon rest (.inl rfl) hahead (.inr (.inl hsemicolon))]
    with fuel hparse
  exact hparse.bind ((expect_run hsemicolon hahead.behind).bind h)

theorem readsStatement_expr {semicolon : Token} (hexpr : ReadsWhole P w toks expr w')
    (hsemicolon : semicolon.type = .tokSemicolon) :
    ReadsStatement P w code (toks ++ [semicolon]) (code.addCode expr) w' where
  begins := by
    obtain ⟨token, rest, rfl, hbegins⟩ := hexpr.begins
    exact ⟨token, rest ++ [semicolon], rfl, fun heq => hbegins.ne (by simp [heq])⟩
  parses pos next rest hahead _ := by
    have hahead' : Ahead P pos (toks ++ semicolon :: next :: rest) := by simpa using hahead
    obtain ⟨token, behind, hhead, hbegins⟩ := hexpr.head hahead'
    have hpos : pos + (toks ++ [semicolon]).length = pos + toks.length + 1 := by
      simp only [List.length_append, List.length_singleton]
      omega
    rw [hpos]
    refine eventually_of_succ ?_
    filter_upwards [parses_semicolon (f := fun expr => pure (code.addCode expr, false)) hexpr
      hsemicolon hahead' (Attempt.pure_ok.mpr ⟨rfl, rfl⟩)] with fuel hparse
    rw [parseStatement]
    refine (nextToken_ok hhead).bind ?_
    have hne := hbegins.ne
    simp only [List.mem_cons, List.not_mem_nil, or_false, not_or] at hne
    obtain ⟨-, -, hbrace, hvar, hif, -, hfor, hwhile, hreturn, htry, hthrow⟩ := hne
    split
    all_goals first | contradiction | exact (rewind_ok 1).bind hparse

theorem readsStatement_throw {keyword semicolon : Token} (hkeyword : keyword.type = .tokThrow)
    (hvalue : ReadsWhole P w toks expr w') (hsemicolon : semicolon.type = .tokSemicolon) :
    ReadsStatement P w code (keyword :: (toks ++ [semicolon])) (code.addCode (.throwExpr expr)) w' where
  begins := ⟨keyword, _, rfl, by rw [hkeyword]; decide⟩
  parses pos next rest hahead _ := by
    have hahead' : Ahead P pos (keyword :: (toks ++ semicolon :: next :: rest)) := by
      simpa using hahead
    have hpos : pos + (keyword :: (toks ++ [semicolon])).length = pos + 1 + toks.length + 1 := by
      simp only [List.length_cons, List.length_append, List.length_nil]
      omega
    rw [hpos]
    refine eventually_of_succ ?_
    filter_upwards [parses_semicolon (f := fun expr => pure (code.addCode (.throwExpr expr), false))
      hvalue hsemicolon hahead'.tail (Attempt.pure_ok.mpr ⟨rfl, rfl⟩)] with fuel hparse
    rw [parseStatement]
    refine (nextToken_ok hahead').bind ?_
    simp only [hkeyword]
    exact hparse

theorem readsStatement_return {keyword semicolon : Token} (hkeyword : keyword.type = .tokReturn)
    (hsemicolon : semicolon.type = .tokSemicolon) :
    ReadsStatement P w code [keyword, semicolon] (code.addCode (.returnExpr none)) w where
  begins := ⟨keyword, _, rfl, by rw [hkeyword]; decide⟩
  parses pos next rest hahead _ := by
    refine eventually_of_succ (.of_forall fun fuel => ?_)
    dsimp only
    rw [parseStatement]
    refine (nextToken_ok hahead).bind ?_
    simp only [hkeyword]
    refine (nextToken_ok hahead.tail).bind ?_
    rw [if_pos hsemicolon]
    exact Attempt.pure_ok.mpr ⟨rfl, rfl⟩

theorem readsStatement_returnValue {keyword semicolon : Token} (hkeyword : keyword.type = .tokReturn)
    (hvalue : ReadsWhole P w toks expr w') (hsemicolon : semicolon.type = .tokSemicolon) :
    ReadsStatement P w code (keyword :: (toks ++ [semicolon]))
      (code.addCode (.returnExpr (some expr))) w' where
  begins := ⟨keyword, _, rfl, by rw [hkeyword]; decide⟩
  parses pos next rest hahead _ := by
    have hahead' : Ahead P pos (keyword :: (toks ++ semicolon :: next :: rest)) := by
      simpa using hahead
    obtain ⟨token, behind, hhead, hbegins⟩ := hvalue.head hahead'.tail
    have hne : token.type ≠ .tokSemicolon := fun heq => hbegins.ne (by simp [heq])
    have hpos : pos + (keyword :: (toks ++ [semicolon])).length = pos + 1 + toks.length + 1 := by
      simp only [List.length_cons, List.length_append, List.length_nil]
      omega
    rw [hpos]
    refine eventually_of_succ ?_
    filter_upwards [hvalue.parses (pos + 1) .tokAny semicolon _ (.inl rfl) hahead'.tail
      (.inr (.inl hsemicolon))] with fuel hparse
    rw [parseStatement]
    refine (nextToken_ok hahead').bind ?_
    simp only [hkeyword]
    refine (nextToken_ok hhead).bind ?_
    rw [if_neg hne]
    refine (rewind_ok 1).bind (hparse.orNull.bind ?_)
    exact (expect_run hsemicolon hahead'.tail.behind).bind (Attempt.pure_ok.mpr ⟨rfl, rfl⟩)

/-! ## Statements with blocks -/

/-- The head of an `if` with its block, up to the token behind it. -/
theorem parses_if {keyword left right brace next : Token} {rest : List Token} {pos pos' : ℕ}
    {u : World} (hkeyword : keyword.type = .tokIf) (hleft : left.type = .tokBracketLeft)
    (htest : ReadsWhole P w toks expr w') (hright : right.type = .tokBracketRight)
    (hbrace : brace.type = .tokBraceLeft) (hblock : ReadsBlock P w' .empty toks' block w'')
    (hahead : Ahead P pos (keyword :: left :: (toks ++ right :: brace :: (toks' ++ next :: rest))))
    (h : Parses (fun fuel =>
      if next.type = .tokElse then do
        let next ← nextToken P
        let falseBlock ←
          (if next.type = .tokIf then do
            rewind 1
            let (elseIf, _) ← parseStatement P fuel .empty
            pure elseIf
          else if next.type = .tokBraceLeft then parseCodeBlock P fuel .empty
          else Attempt.fail)
        pure (code.addCode (.ifExpr expr block.link (some falseBlock.link)), false)
      else do
        rewind 1
        pure (code.addCode (.ifExpr expr block.link none), false))
      (pos + 1 + 1 + toks.length + 1 + 1 + toks'.length + 1) w'' (code', false) pos' u) :
    Parses (fun fuel => parseStatement P fuel code) pos w (code', false) pos' u := by
  have hhead := hahead.tail.tail.behind.tail.tail
  refine eventually_of_succ ?_
  filter_upwards [htest.parses (pos + 1 + 1) .tokAny right _ (.inl rfl) hahead.tail.tail (.inl hright),
    hblock.parses _ _ hhead, h] with fuel htest hblock h
  rw [parseStatement]
  refine (nextToken_ok hahead).bind ?_
  simp only [hkeyword]
  refine (expect_run hleft hahead.tail).bind (htest.bind ?_)
  refine (expect_run hright hahead.tail.tail.behind).bind ?_
  refine (expect_run hbrace hahead.tail.tail.behind.tail).bind (hblock.bind ?_)
  exact (nextToken_ok hhead.behind).bind h

theorem readsStatement_ifThen {keyword left right brace : Token} (hkeyword : keyword.type = .tokIf)
    (hleft : left.type = .tokBracketLeft) (htest : ReadsWhole P w toks expr w')
    (hright : right.type = .tokBracketRight) (hbrace : brace.type = .tokBraceLeft)
    (hblock : ReadsBlock P w' .empty toks' block w'') :
    ReadsStatement P w code (keyword :: left :: (toks ++ right :: brace :: toks'))
      (code.addCode (.ifExpr expr block.link none)) w'' where
  begins := ⟨keyword, _, rfl, by rw [hkeyword]; decide⟩
  parses pos next rest hahead hnext := by
    have hahead' : Ahead P pos
        (keyword :: left :: (toks ++ right :: brace :: (toks' ++ next :: rest))) := by
      simpa using hahead
    have hpos : pos + (keyword :: left :: (toks ++ right :: brace :: toks')).length =
        pos + 1 + 1 + toks.length + 1 + 1 + toks'.length := by
      simp only [List.length_cons, List.length_append]
      omega
    rw [hpos]
    refine parses_if hkeyword hleft htest hright hbrace hblock hahead' (.of_forall fun fuel => ?_)
    dsimp only
    rw [if_neg hnext]
    exact (rewind_ok 1).bind (Attempt.pure_ok.mpr ⟨rfl, rfl⟩)

theorem readsStatement_ifElse {keyword left right brace otherwise brace' : Token}
    {toks'' : List Token} {u : World} (hkeyword : keyword.type = .tokIf)
    (hleft : left.type = .tokBracketLeft) (htest : ReadsWhole P w toks expr w')
    (hright : right.type = .tokBracketRight) (hbrace : brace.type = .tokBraceLeft)
    (hblock : ReadsBlock P w' .empty toks' block w'') (hotherwise : otherwise.type = .tokElse)
    (hbrace' : brace'.type = .tokBraceLeft) (hblock' : ReadsBlock P w'' .empty toks'' block' u) :
    ReadsStatement P w code
      (keyword :: left :: (toks ++ right :: brace :: (toks' ++ otherwise :: brace' :: toks'')))
      (code.addCode (.ifExpr expr block.link (some block'.link))) u where
  begins := ⟨keyword, _, rfl, by rw [hkeyword]; decide⟩
  parses pos next rest hahead _ := by
    have hahead' : Ahead P pos (keyword :: left :: (toks ++ right :: brace ::
        (toks' ++ otherwise :: (brace' :: (toks'' ++ next :: rest))))) := by
      simpa using hahead
    have hpos : pos + (keyword :: left ::
        (toks ++ right :: brace :: (toks' ++ otherwise :: brace' :: toks''))).length =
        pos + 1 + 1 + toks.length + 1 + 1 + toks'.length + 1 + 1 + toks''.length := by
      simp only [List.length_cons, List.length_append]
      omega
    have hhead := hahead'.tail.tail.behind.tail.tail.behind.tail
    rw [hpos]
    refine parses_if hkeyword hleft htest hright hbrace hblock hahead' ?_
    filter_upwards [hblock'.parses _ _ hhead.tail] with fuel hparse
    rw [if_pos hotherwise]
    refine (nextToken_ok hhead).bind ?_
    rw [if_neg (by rw [hbrace']; decide), if_pos hbrace']
    exact hparse.bind (Attempt.pure_ok.mpr ⟨rfl, rfl⟩)

theorem readsStatement_ifElseIf {keyword left right brace otherwise keyword' : Token}
    {toks'' : List Token} {u : World} (hkeyword : keyword.type = .tokIf)
    (hleft : left.type = .tokBracketLeft) (htest : ReadsWhole P w toks expr w')
    (hright : right.type = .tokBracketRight) (hbrace : brace.type = .tokBraceLeft)
    (hblock : ReadsBlock P w' .empty toks' block w'') (hotherwise : otherwise.type = .tokElse)
    (hkeyword' : keyword'.type = .tokIf)
    (helseIf : ReadsStatement P w'' .empty (keyword' :: toks'') block' u) :
    ReadsStatement P w code
      (keyword :: left :: (toks ++ right :: brace :: (toks' ++ otherwise :: keyword' :: toks'')))
      (code.addCode (.ifExpr expr block.link (some block'.link))) u where
  begins := ⟨keyword, _, rfl, by rw [hkeyword]; decide⟩
  parses pos next rest hahead hnext := by
    have hahead' : Ahead P pos (keyword :: left :: (toks ++ right :: brace ::
        (toks' ++ otherwise :: (keyword' :: toks'' ++ next :: rest)))) := by
      simpa using hahead
    have hpos : pos + (keyword :: left ::
        (toks ++ right :: brace :: (toks' ++ otherwise :: keyword' :: toks''))).length =
        pos + 1 + 1 + toks.length + 1 + 1 + toks'.length + 1 + (keyword' :: toks'').length := by
      simp only [List.length_cons, List.length_append]
      omega
    have hhead := hahead'.tail.tail.behind.tail.tail.behind.tail
    rw [hpos]
    refine parses_if hkeyword hleft htest hright hbrace hblock hahead' ?_
    filter_upwards [helseIf.parses _ next rest hhead hnext] with fuel hparse
    rw [if_pos hotherwise]
    refine (nextToken_ok hhead).bind ?_
    rw [if_pos hkeyword']
    have helse : Ok (do
        rewind 1
        let (elseIf, _) ← parseStatement P fuel .empty
        pure elseIf : Parse World CodeBlock)
        ⟨pos + 1 + 1 + toks.length + 1 + 1 + toks'.length + 1 + 1, w''⟩ block'
        ⟨pos + 1 + 1 + toks.length + 1 + 1 + toks'.length + 1 + (keyword' :: toks'').length, u⟩ :=
      (rewind_ok 1).bind (hparse.bind (Attempt.pure_ok.mpr ⟨rfl, rfl⟩))
    exact helse.bind (Attempt.pure_ok.mpr ⟨rfl, rfl⟩)

theorem readsStatement_while {keyword left right brace : Token} (hkeyword : keyword.type = .tokWhile)
    (hleft : left.type = .tokBracketLeft) (htest : ReadsWhole P w toks expr w')
    (hright : right.type = .tokBracketRight) (hbrace : brace.type = .tokBraceLeft)
    (hbody : ReadsBlock P w' .empty toks' block w'') :
    ReadsStatement P w code (keyword :: left :: (toks ++ right :: brace :: toks'))
      (code.addCode (.forExpr none expr none block.link)) w'' where
  begins := ⟨keyword, _, rfl, by rw [hkeyword]; decide⟩
  parses pos next rest hahead _ := by
    have hahead' : Ahead P pos
        (keyword :: left :: (toks ++ right :: brace :: (toks' ++ next :: rest))) := by
      simpa using hahead
    have hpos : pos + (keyword :: left :: (toks ++ right :: brace :: toks')).length =
        pos + 1 + 1 + toks.length + 1 + 1 + toks'.length := by
      simp only [List.length_cons, List.length_append]
      omega
    rw [hpos]
    refine eventually_of_succ ?_
    filter_upwards [htest.parses (pos + 1 + 1) .tokAny right _ (.inl rfl) hahead'.tail.tail
      (.inl hright), hbody.parses _ _ hahead'.tail.tail.behind.tail.tail] with fuel htest hbody
    rw [parseStatement]
    refine (nextToken_ok hahead').bind ?_
    simp only [hkeyword]
    refine (expect_run hleft hahead'.tail).bind (htest.bind ?_)
    refine (expect_run hright hahead'.tail.tail.behind).bind ?_
    refine (expect_run hbrace hahead'.tail.tail.behind.tail).bind (hbody.bind ?_)
    exact Attempt.pure_ok.mpr ⟨rfl, rfl⟩

theorem readsStatement_for {keyword left semicolon semicolon' right brace : Token}
    {toks₁ toks₂ toks₃ toks₄ : List Token} {init test inc : Expression} {w₁ w₂ w₃ w₄ : World}
    (hkeyword : keyword.type = .tokFor) (hleft : left.type = .tokBracketLeft)
    (hinit : ReadsWhole P w toks₁ init w₁) (hsemicolon : semicolon.type = .tokSemicolon)
    (htest : ReadsWhole P w₁ toks₂ test w₂) (hsemicolon' : semicolon'.type = .tokSemicolon)
    (hinc : ReadsWhole P w₂ toks₃ inc w₃) (hright : right.type = .tokBracketRight)
    (hbrace : brace.type = .tokBraceLeft) (hbody : ReadsBlock P w₃ .empty toks₄ block w₄) :
    ReadsStatement P w code
      (keyword :: left :: (toks₁ ++ semicolon :: (toks₂ ++ semicolon' ::
        (toks₃ ++ right :: brace :: toks₄))))
      (code.addCode (.forExpr (some init) test (some inc) block.link)) w₄ where
  begins := ⟨keyword, _, rfl, by rw [hkeyword]; decide⟩
  parses pos next rest hahead _ := by
    have hahead' : Ahead P pos (keyword :: left :: (toks₁ ++ semicolon :: (toks₂ ++ semicolon' ::
        (toks₃ ++ right :: brace :: (toks₄ ++ next :: rest))))) := by
      simpa using hahead
    have hpos : pos + (keyword :: left :: (toks₁ ++ semicolon :: (toks₂ ++ semicolon' ::
        (toks₃ ++ right :: brace :: toks₄)))).length =
        pos + 1 + 1 + toks₁.length + 1 + toks₂.length + 1 + toks₃.length + 1 + 1 + toks₄.length := by
      simp only [List.length_cons, List.length_append]
      omega
    have hahead₁ := hahead'.tail.tail
    have hahead₂ := hahead₁.behind.tail
    have hahead₃ := hahead₂.behind.tail
    have hahead₄ := hahead₃.behind
    rw [hpos]
    refine eventually_of_succ ?_
    filter_upwards [hinit.parses _ .tokAny semicolon _ (.inl rfl) hahead₁ (.inr (.inl hsemicolon)),
      htest.parses _ .tokAny semicolon' _ (.inl rfl) hahead₂ (.inr (.inl hsemicolon')),
      hinc.parses _ .tokAny right _ (.inl rfl) hahead₃ (.inl hright),
      hbody.parses _ _ hahead₄.tail.tail] with fuel hinit htest hinc hbody
    rw [parseStatement]
    refine (nextToken_ok hahead').bind ?_
    simp only [hkeyword]
    refine (expect_run hleft hahead'.tail).bind (hinit.bind ?_)
    refine (expect_run hsemicolon hahead₁.behind).bind (htest.bind ?_)
    refine (expect_run hsemicolon' hahead₂.behind).bind (hinc.bind ?_)
    refine (expect_run hright hahead₄).bind ((expect_run hbrace hahead₄.tail).bind (hbody.bind ?_))
    exact Attempt.pure_ok.mpr ⟨rfl, rfl⟩

theorem readsStatement_try {keyword brace handler left name right brace' : Token}
    (hkeyword : keyword.type = .tokTry) (hbrace : brace.type = .tokBraceLeft)
    (hblock : ReadsBlock P w .empty toks block w') (hhandler : handler.type = .tokCatch)
    (hleft : left.type = .tokBracketLeft) (hname : name.type = .tokIdentifier)
    (hright : right.type = .tokBracketRight) (hbrace' : brace'.type = .tokBraceLeft)
    (hblock' : ReadsBlock P w' .empty toks' block' w'') :
    ReadsStatement P w code
      (keyword :: brace :: (toks ++ handler :: left :: name :: right :: brace' :: toks'))
      (code.addCode (.tryExpr block name.string (block'.addVar name.string))) w'' where
  begins := ⟨keyword, _, rfl, by rw [hkeyword]; decide⟩
  parses pos next rest hahead _ := by
    have hahead' : Ahead P pos (keyword :: brace ::
        (toks ++ handler :: left :: name :: right :: brace' :: (toks' ++ next :: rest))) := by
      simpa using hahead
    have hpos : pos + (keyword :: brace ::
        (toks ++ handler :: left :: name :: right :: brace' :: toks')).length =
        pos + 1 + 1 + toks.length + 1 + 1 + 1 + 1 + 1 + toks'.length := by
      simp only [List.length_cons, List.length_append]
      omega
    have hcatch := hahead'.tail.tail.behind
    rw [hpos]
    refine eventually_of_succ ?_
    filter_upwards [hblock.parses _ _ hahead'.tail.tail,
      hblock'.parses _ _ hcatch.tail.tail.tail.tail.tail] with fuel hblock hblock'
    rw [parseStatement]
    refine (nextToken_ok hahead').bind ?_
    simp only [hkeyword]
    refine (expect_run hbrace hahead'.tail).bind (hblock.bind ?_)
    refine (expect_run hhandler hcatch).bind ((expect_run hleft hcatch.tail).bind ?_)
    refine (expect_run hname hcatch.tail.tail).bind ?_
    refine (expect_run hright hcatch.tail.tail.tail).bind ?_
    refine (expect_run hbrace' hcatch.tail.tail.tail.tail).bind (hblock'.bind ?_)
    exact Attempt.pure_ok.mpr ⟨rfl, rfl⟩

/-! ## Functions -/

/-- The names of the parameters, with the brackets. -/
theorem parses_names {names : List String} (h : SpellsNames toks names) (list : List String) {pos : ℕ}
    {rest : List Token} (hahead : Ahead P pos (toks ++ rest)) :
    Parses (fun fuel => parseListRest P .tokIdentifier fuel list) pos w (list ++ names)
      (pos + toks.length) w := by
  induction h generalizing pos list with
  | @nil close hclose =>
    refine eventually_of_succ (.of_forall fun fuel => ?_)
    dsimp only
    rw [parseListRest, List.append_nil]
    refine (moreTokens_run hahead).bind ((nextToken_ok hahead).bind ?_)
    rw [if_pos hclose]
    exact Attempt.pure_ok.mpr ⟨rfl, rfl⟩
  | @last token close htype hclose =>
    refine eventually_of_succ (.of_forall fun fuel => ?_)
    dsimp only
    rw [parseListRest]
    refine (moreTokens_run hahead).bind ((nextToken_ok hahead).bind ?_)
    rw [if_neg (by rw [htype]; decide), if_pos htype]
    refine (nextToken_ok hahead.tail).bind ?_
    rw [if_pos hclose]
    exact Attempt.pure_ok.mpr ⟨rfl, rfl⟩
  | @cons token comma toks names htype hcomma _ ih =>
    refine eventually_of_succ ?_
    filter_upwards [ih (list ++ [token.string]) hahead.tail.tail] with fuel hparse
    rw [parseListRest]
    refine (moreTokens_run hahead).bind ((nextToken_ok hahead).bind ?_)
    rw [if_neg (by rw [htype]; decide), if_pos htype]
    refine (nextToken_ok hahead.tail).bind ?_
    rw [if_neg (by rw [hcomma]; decide), if_pos hcomma]
    have hpos : pos + (token :: comma :: toks).length = pos + 1 + 1 + toks.length := by
      simp only [List.length_cons]
      omega
    have hlist : list ++ token.string :: names = list ++ [token.string] ++ names := by simp
    rw [hpos, hlist]
    exact hparse

theorem readsFunction_plain {left brace : Token} {args : List String} {address : Word}
    (hleft : left.type = .tokBracketLeft) (hargs : SpellsNames toks args)
    (hnew : P.newFunction w = (address, w')) (hbrace : brace.type = .tokBraceLeft)
    (hcode : ReadsBlock P w' .empty toks' code w'') :
    ReadsFunction P w (left :: (toks ++ brace :: toks'))
      (.mk address args false (code.setStartingVarId (args.length + 1))) w'' := by
  intro pos rest hahead
  have hahead' : Ahead P pos (left :: (toks ++ brace :: (toks' ++ rest))) := by simpa using hahead
  have hpos : pos + (left :: (toks ++ brace :: toks')).length =
      pos + 1 + toks.length + 1 + toks'.length := by
    simp only [List.length_cons, List.length_append]
    omega
  have hfunction : Ok (newScriptFunction P) ⟨pos + 1 + toks.length, w⟩ address
      ⟨pos + 1 + toks.length, w'⟩ := by
    unfold Ok newScriptFunction
    rw [hnew]
  rw [hpos]
  refine eventually_of_succ ?_
  filter_upwards [parses_names hargs [] hahead'.tail, hcode.parses _ _ hahead'.tail.behind.tail] with
    fuel hnames hcode
  rw [parseFunction, parseList, bind_assoc]
  refine (expect_run hleft hahead').bind (hnames.bind (hfunction.bind ?_))
  refine (nextToken_ok hahead'.tail.behind).bind ?_
  have hstatic : ¬(decide (brace.type = .tokStatic)) = true := by
    rw [hbrace]
    decide
  dsimp only
  rw [if_neg hstatic]
  refine Attempt.Ok.bind (a := brace) (Attempt.pure_ok.mpr ⟨rfl, rfl⟩) ?_
  rw [if_neg (fun h => h hbrace)]
  refine hcode.bind (Attempt.pure_ok.mpr ⟨?_, rfl⟩)
  rw [hbrace]
  rfl

theorem readsFunction_static {left static brace : Token} {args : List String} {address : Word}
    (hleft : left.type = .tokBracketLeft) (hargs : SpellsNames toks args)
    (hnew : P.newFunction w = (address, w')) (hstatic : static.type = .tokStatic)
    (hbrace : brace.type = .tokBraceLeft) (hcode : ReadsBlock P w' .empty toks' code w'') :
    ReadsFunction P w (left :: (toks ++ static :: brace :: toks'))
      (.mk address args true (code.setStartingVarId (args.length + 1))) w'' := by
  intro pos rest hahead
  have hahead' : Ahead P pos (left :: (toks ++ static :: brace :: (toks' ++ rest))) := by
    simpa using hahead
  have hpos : pos + (left :: (toks ++ static :: brace :: toks')).length =
      pos + 1 + toks.length + 1 + 1 + toks'.length := by
    simp only [List.length_cons, List.length_append]
    omega
  have hfunction : Ok (newScriptFunction P) ⟨pos + 1 + toks.length, w⟩ address
      ⟨pos + 1 + toks.length, w'⟩ := by
    unfold Ok newScriptFunction
    rw [hnew]
  rw [hpos]
  refine eventually_of_succ ?_
  filter_upwards [parses_names hargs [] hahead'.tail,
    hcode.parses _ _ hahead'.tail.behind.tail.tail] with fuel hnames hcode
  rw [parseFunction, parseList, bind_assoc]
  refine (expect_run hleft hahead').bind (hnames.bind (hfunction.bind ?_))
  refine (nextToken_ok hahead'.tail.behind).bind ?_
  dsimp only
  rw [if_pos (decide_eq_true hstatic)]
  refine (nextToken_ok hahead'.tail.behind.tail).bind ?_
  rw [if_neg (fun h => h hbrace)]
  refine hcode.bind (Attempt.pure_ok.mpr ⟨?_, rfl⟩)
  rw [hstatic]
  rfl

/-! ## All of the grammar -/

theorem SpellsValue.begins (h : SpellsValue P w toks expr w') :
    ∃ token rest, toks = token :: rest ∧ token.type.BeginsValue ∧
      ∀ second rest', rest = second :: rest' → token.type = .tokIdentifier →
        second.type ≠ .tokDot := by
  cases h with
  | operand h =>
    obtain ⟨token, rest, htoks, hbegins⟩ := (readsValue_operand (P := P) (w := w) h).begins
    cases htoks
    exact ⟨_, _, rfl, hbegins, by rintro _ _ ⟨⟩⟩
  | call hname hleft =>
    refine ⟨_, _, rfl, by rw [hname]; decide, ?_⟩
    rintro _ _ ⟨⟩ -
    rw [hleft]
    decide
  | array hname hleft =>
    refine ⟨_, _, rfl, by rw [hname]; decide, ?_⟩
    rintro _ _ ⟨⟩ -
    rw [hleft]
    decide
  | new hkeyword =>
    refine ⟨_, _, rfl, by rw [hkeyword]; decide, fun _ _ _ hname => ?_⟩
    rw [hkeyword] at hname
    cases hname
  | function hkeyword =>
    refine ⟨_, _, rfl, by rw [hkeyword]; decide, fun _ _ _ hname => ?_⟩
    rw [hkeyword] at hname
    cases hname

theorem SpellsExpr.second (h : SpellsExpr P w toks expr w') (token second : Token) (rest : List Token)
    (htoks : toks = token :: second :: rest) (hname : token.type = .tokIdentifier) :
    second.type ≠ .tokDot := by
  cases h with
  | value hvalue =>
    obtain ⟨token', rest', htoks', -, hsecond⟩ := hvalue.begins
    cases htoks.symm.trans htoks'
    exact hsecond second rest rfl hname
  | brackets hleft =>
    rw [← (List.cons.inj htoks).1, hleft] at hname
    cases hname

theorem SpellsExpr.begins (h : SpellsExpr P w toks expr w') :
    ∃ token rest, toks = token :: rest ∧ token.type.BeginsExpr := by
  cases h with
  | value hvalue =>
    obtain ⟨token, rest, htoks, hbegins, -⟩ := hvalue.begins
    exact ⟨token, rest, htoks, .inl hbegins⟩
  | brackets hleft => exact ⟨_, _, rfl, .inr (.inl hleft)⟩

theorem SpellsOper.begins (h : SpellsOper P w toks expr w') :
    ∃ token rest, toks = token :: rest ∧ token.type.BeginsExpr := by
  have happend : ∀ {toks : List Token} {expr : Expression} {u u' : World} (behind : List Token),
      SpellsExpr P u toks expr u' →
        ∃ token rest, toks ++ behind = token :: rest ∧ token.type.BeginsExpr := by
    intro toks expr u u' behind h
    obtain ⟨token, rest, rfl, hbegins⟩ := h.begins
    exact ⟨token, rest ++ behind, rfl, hbegins⟩
  cases h with
  | binary _ _ _ _ _ hleft => exact happend _ hleft
  | dotted hname => exact ⟨_, _, rfl, .inl (by rw [hname]; decide)⟩
  | assigned hname => exact ⟨_, _, rfl, .inl (by rw [hname]; decide)⟩
  | not hoperator => exact ⟨_, _, rfl, .inr (.inr hoperator)⟩
  | increment hleft => exact happend _ hleft

mutual

theorem SpellsValue.reads {w w' : World} {toks : List Token} {expr : Expression} :
    SpellsValue P w toks expr w' → ReadsValue P w toks expr w'
  | .operand h => readsValue_operand h
  | .call hname hleft hparams => readsValue_call hname hleft hparams.reads
  | .array hname hleft hindex hright => readsValue_array hname hleft hindex.reads hright
  | .new hkeyword hid hleft hparams => readsValue_new hkeyword hid hleft hparams.reads
  | .function hkeyword hfunction => readsValue_function hkeyword hfunction.reads

theorem SpellsParams.reads {w w' : World} {toks : List Token} {params : List Expression} :
    SpellsParams P w toks params w' → ReadsParams P w toks params w'
  | .nil hclose => readsParams_nil hclose
  | .last hparam hclose => readsParams_last hparam.reads hclose
  | .cons hparam hcomma hparams => readsParams_cons hparam.reads hcomma hparams.reads

theorem SpellsExpr.reads {w w' : World} {toks : List Token} {expr : Expression} :
    SpellsExpr P w toks expr w' → ∃ items entries, ReadsExpr P w toks expr w' items entries
  | .value hvalue => ⟨_, _, hvalue.reads.toExpr⟩
  | .brackets hleft hoper hright => by
      obtain ⟨items, desc, entries, h⟩ := hoper.reads
      exact ⟨_, _, h.brackets hleft hright⟩

theorem SpellsOper.reads {w w' : World} {toks : List Token} {expr : Expression} :
    SpellsOper P w toks expr w' → ∃ items desc entries, ReadsOper P w toks expr w' items desc entries
  | .binary hdesc hoperands hassign hoperator hname hleft hright => by
      obtain ⟨items, entries, hleft⟩ := hleft.reads
      obtain ⟨items', entries', hright⟩ := hright.reads
      have hbehind := operator_behind hdesc hoperator hname
      exact ⟨_, _, _, readsOper_binary hdesc hoperands hoperator (hleft.reads _ hbehind) hleft.place
        hleft.build hright (buildOperation_folded hassign)⟩
  | .dotted hname hdot hprobed hright => by
      obtain ⟨items, entries, hreads⟩ := hright.reads
      exact ⟨_, _, _, readsOper_dotted hname hdot hprobed hright.second hreads⟩
  | .assigned hname hoperator hright => by
      obtain ⟨items, entries, hright⟩ := hright.reads
      exact readsOper_assigned hname hoperator hright
  | .not hoperator hright => by
      obtain ⟨items, entries, hright⟩ := hright.reads
      exact ⟨_, _, _, readsOper_not hoperator hright⟩
  | .increment hleft hoperator => by
      obtain ⟨items, entries, hleft⟩ := hleft.reads
      exact ⟨_, _, _, readsOper_increment hleft hoperator⟩

theorem SpellsWhole.reads {w w' : World} {toks : List Token} {expr : Expression} :
    SpellsWhole P w toks expr w' → ReadsWhole P w toks expr w'
  | .expr hexpr => by
      obtain ⟨items, entries, h⟩ := hexpr.reads
      exact h.whole hexpr.begins
  | .oper hoper => by
      obtain ⟨items, desc, entries, h⟩ := hoper.reads
      exact h.whole hoper.begins

theorem SpellsStatement.reads {w w' : World} {toks : List Token} {code code' : CodeBlock} :
    SpellsStatement P w code toks code' w' → ReadsStatement P w code toks code' w'
  | .var hkeyword hname hsemicolon => readsStatement_var hkeyword hname hsemicolon
  | .varSet hkeyword hname hassign hexpr hsemicolon => by
      obtain ⟨items, entries, hexpr⟩ := hexpr.reads
      exact readsStatement_varSet hkeyword hname hassign (readsWhole_set hname hassign hexpr) hsemicolon
  | .ifThen hkeyword hleft htest hright hbrace hblock =>
      readsStatement_ifThen hkeyword hleft htest.reads hright hbrace hblock.reads
  | .ifElse hkeyword hleft htest hright hbrace hblock hotherwise hbrace' hblock' =>
      readsStatement_ifElse hkeyword hleft htest.reads hright hbrace hblock.reads hotherwise hbrace'
        hblock'.reads
  | .ifElseIf hkeyword hleft htest hright hbrace hblock hotherwise hkeyword' helseIf =>
      readsStatement_ifElseIf hkeyword hleft htest.reads hright hbrace hblock.reads hotherwise hkeyword'
        helseIf.reads
  | .for hkeyword hleft hinit hsemicolon htest hsemicolon' hinc hright hbrace hbody =>
      readsStatement_for hkeyword hleft hinit.reads hsemicolon htest.reads hsemicolon' hinc.reads hright
        hbrace hbody.reads
  | .while hkeyword hleft htest hright hbrace hbody =>
      readsStatement_while hkeyword hleft htest.reads hright hbrace hbody.reads
  | .return hkeyword hsemicolon => readsStatement_return hkeyword hsemicolon
  | .returnValue hkeyword hvalue hsemicolon =>
      readsStatement_returnValue hkeyword hvalue.reads hsemicolon
  | .try hkeyword hbrace hblock hhandler hleft hname hright hbrace' hblock' =>
      readsStatement_try hkeyword hbrace hblock.reads hhandler hleft hname hright hbrace' hblock'.reads
  | .throw hkeyword hvalue hsemicolon => readsStatement_throw hkeyword hvalue.reads hsemicolon
  | .expr hexpr hsemicolon => readsStatement_expr hexpr.reads hsemicolon

theorem SpellsBlock.reads {w w' : World} {toks : List Token} {code code' : CodeBlock} :
    SpellsBlock P w code toks code' w' → ReadsBlock P w code toks code' w'
  | .close hbrace => readsBlock_close hbrace
  | .cons hstatement hblock => hstatement.reads.cons hblock.reads

theorem SpellsFunction.reads {w w' : World} {toks : List Token} {function : ScriptFunction} :
    SpellsFunction P w toks function w' → ReadsFunction P w toks function w'
  | .plain hleft hargs hnew hbrace hcode => readsFunction_plain hleft hargs hnew hbrace hcode.reads
  | .static hleft hargs hnew hstatic hbrace hcode =>
      readsFunction_static hleft hargs hnew hstatic hbrace hcode.reads

end

/-- **A function that is spelled by the tokens is what the parser makes of them**, with enough fuel. -/
theorem parseFunction_spelled {function : ScriptFunction} {pos : ℕ} {rest : List Token}
    (h : SpellsFunction P w toks function w') (htokens : P.tokens.drop pos = toks ++ rest) :
    ∃ n, ∀ fuel, n ≤ fuel →
      Ok (parseFunction P fuel) ⟨pos, w⟩ function ⟨pos + toks.length, w'⟩ :=
  eventually_atTop.mp (h.reads pos rest htokens)

/-- `(o) { while (o < 3) { o = ((o + 1) * 2); } return o.x; }` -/
def loopTokens : List Token :=
  [⟨.tokBracketLeft, 1, "(", 0, 0⟩, ⟨.tokIdentifier, 1, "o", 0, 0⟩, ⟨.tokBracketRight, 1, ")", 0, 0⟩,
    ⟨.tokBraceLeft, 1, "\x7b", 0, 0⟩, ⟨.tokWhile, 1, "while", 0, 0⟩, ⟨.tokBracketLeft, 1, "(", 0, 0⟩,
    ⟨.tokIdentifier, 1, "o", 0, 0⟩, ⟨.tokLessThan, 1, "<", 0, 0⟩, ⟨.tokInteger, 1, "3", 3, 0⟩,
    ⟨.tokBracketRight, 1, ")", 0, 0⟩, ⟨.tokBraceLeft, 1, "\x7b", 0, 0⟩,
    ⟨.tokIdentifier, 1, "o", 0, 0⟩, ⟨.tokAssign, 1, "=", 0, 0⟩, ⟨.tokBracketLeft, 1, "(", 0, 0⟩,
    ⟨.tokBracketLeft, 1, "(", 0, 0⟩, ⟨.tokIdentifier, 1, "o", 0, 0⟩, ⟨.tokPlus, 1, "+", 0, 0⟩,
    ⟨.tokInteger, 1, "1", 1, 0⟩, ⟨.tokBracketRight, 1, ")", 0, 0⟩, ⟨.tokAsterisk, 1, "*", 0, 0⟩,
    ⟨.tokInteger, 1, "2", 2, 0⟩, ⟨.tokBracketRight, 1, ")", 0, 0⟩, ⟨.tokSemicolon, 1, ";", 0, 0⟩,
    ⟨.tokBraceRight, 1, "\x7d", 0, 0⟩, ⟨.tokReturn, 1, "return", 0, 0⟩,
    ⟨.tokIdentifier, 1, "o", 0, 0⟩, ⟨.tokDot, 1, ".", 0, 0⟩, ⟨.tokIdentifier, 1, "x", 0, 0⟩,
    ⟨.tokSemicolon, 1, ";", 0, 0⟩, ⟨.tokBraceRight, 1, "\x7d", 0, 0⟩]

/-- `o = ((o + 1) * 2)` -/
def loopAssignment : Expression :=
  .oper .unknown .set (some (.var .unknown 0 "o"))
    (some (.oper .unknown .multiply
      (some (.oper .unknown .add (some (.var .unknown 0 "o")) (some (.integer .integer 1))))
      (some (.integer .integer 2))))

def loopFunction : ScriptFunction :=
  .mk 1 ["o"] false (.mk false 2 2 []
    [.forExpr none
        (.oper .unknown .lessThan (some (.var .unknown 0 "o")) (some (.integer .integer 3))) none
        (.mk true 2 2 [] [loopAssignment]),
      .returnExpr (some (.oper .unknown .reference (some (.var .unknown 0 "o"))
        (some (.var .unknown 0 "x"))))])

theorem parseFunction_spelled_loop : ∃ n, ∀ fuel, n ≤ fuel →
    Ok (parseFunction (plainParser loopTokens) fuel) ⟨0, ()⟩ loopFunction ⟨30, ()⟩ := by
  have hname : SpellsExpr (plainParser loopTokens) () [⟨.tokIdentifier, 1, "o", 0, 0⟩]
      (.var .unknown 0 "o") () := .value (.operand (.name rfl))
  have htest : SpellsOper (plainParser loopTokens) () ((loopTokens.drop 6).take 3) _ () :=
    .binary (show ⟨.tokLessThan, .lessThan, true, true⟩ ∈ opTable by decide) (by decide) (by decide)
      rfl (fun h => nomatch h) hname (.value (.operand (.integer rfl)))
  have hsum : SpellsOper (plainParser loopTokens) () ((loopTokens.drop 15).take 3) _ () :=
    .binary (show ⟨.tokPlus, .add, true, true⟩ ∈ opTable by decide) (by decide) (by decide) rfl
      (fun h => nomatch h) hname (.value (.operand (.integer rfl)))
  have hproduct : SpellsOper (plainParser loopTokens) () ((loopTokens.drop 14).take 7) _ () :=
    .binary (show ⟨.tokAsterisk, .multiply, true, true⟩ ∈ opTable by decide) (by decide) (by decide)
      rfl (fun h => nomatch h) (.brackets rfl hsum rfl) (.value (.operand (.integer rfl)))
  have hset : SpellsOper (plainParser loopTokens) () ((loopTokens.drop 11).take 11) loopAssignment () :=
    .binary (show ⟨.tokAssign, .set, true, true⟩ ∈ opTable by decide) (by decide) (by decide) rfl
      (fun h => nomatch h) hname (.brackets rfl hproduct rfl)
  have hbody : SpellsBlock (plainParser loopTokens) () .empty ((loopTokens.drop 11).take 13)
      (.mk false 0 0 [] [loopAssignment]) () := .cons (.expr (.oper hset) rfl) (.close rfl)
  have hdotted : SpellsOper (plainParser loopTokens) () ((loopTokens.drop 25).take 3) _ () :=
    .dotted rfl rfl ⟨rfl, rfl⟩ (.value (.operand (.name rfl)))
  have hcode : SpellsBlock (plainParser loopTokens) () .empty (loopTokens.drop 4) _ () :=
    .cons (.while rfl rfl (.oper htest) rfl rfl hbody)
      (.cons (.returnValue rfl (.oper hdotted) rfl) (.close rfl))
  have hfunction : SpellsFunction (plainParser loopTokens) () loopTokens loopFunction () :=
    .plain rfl (.last rfl rfl) rfl rfl hcode
  exact parseFunction_spelled hfunction (List.append_nil _).symm

end B0rk
