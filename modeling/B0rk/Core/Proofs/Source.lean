import B0rk.Core.Proofs.Agrees
import B0rk.Core.Proofs.Correct
import B0rk.Parser.Proofs.Grammar

set_option autoImplicit false

/-! # From the text to the result

A function of the integer core as it stands in a source file: what the lexer and the parser make of it,
and what its instructions return. -/

namespace B0rk

open Attempt (Ok)

variable {World : Type} {P : ParserEnv World} {w w' : World}

/-- The tokens that the lexer makes of the text. -/
abbrev lexed (toks : List SourceToken) : List Token := toks.map (SourceToken.token 1)

/-! ## Expressions -/

theorem signExtend_ofInt {i : ℤ} (bound : i.natAbs < 2 ^ 31) :
    (BitVec.ofInt 32 i).signExtend 64 = BitVec.ofInt 64 i := by
  rw [BitVec.signExtend, BitVec.toInt_ofInt_eq_self (by decide) (by omega) (by omega)]

/-- The entry of `opTable` for an operator. -/
def CoreOp.desc (op : CoreOp) : OpDesc := ⟨(op.token.token 1).type, op.operType, true, true⟩

theorem CoreOp.desc_mem (op : CoreOp) : op.desc ∈ opTable := by
  cases op <;> decide

theorem CoreOp.desc_plain (op : CoreOp) :
    (op.desc.token ≠ .tokAddAssign ∧ op.desc.token ≠ .tokSubAssign) ∧ op.desc.oper ≠ .reference := by
  cases op <;> decide

/-- The parser folds the literals that `folded` does. -/
theorem CoreOp.folded_expression (P : ParserEnv World) (op : CoreOp) (left right : CoreExpr) :
    foldedOperation P op.operType left.expression right.expression =
      (op.folded left right).expression := by
  cases op with
  | add | multiply => cases left <;> cases right <;> rfl
  | _ => rfl

theorem spells_bracketed {toks : List SourceToken} {expr : Expression}
    (h : SpellsOper P w (lexed toks) expr w') :
    SpellsExpr P w (lexed (bracketed true toks)) expr w' ∧
      SpellsWhole P w (lexed (bracketed false toks)) expr w' := by
  refine ⟨?_, .oper h⟩
  have hbrackets : lexed (bracketed true toks) = SourceToken.bracketLeft.token 1 ::
      (lexed toks ++ [SourceToken.bracketRight.token 1]) := by
    simp [lexed, bracketed]
  rw [hbrackets]
  exact .brackets rfl h rfl

theorem SourceSimple.spells_increment (decrement : Bool) (x : Identifier) :
    SpellsOper P w (lexed ([x.token] ++ [SourceToken.increment decrement]))
      (incrementExpression .unknown decrement .unknown x.name) w := by
  have hname : SpellsExpr P w [x.token.token 1] (.var .unknown 0 x.name) w :=
    .value (.operand (.name rfl))
  cases decrement with
  | false => exact .increment hname (.inl ⟨rfl, rfl⟩)
  | true => exact .increment hname (.inr ⟨rfl, rfl⟩)

/-- The tokens of an expression spell it, literals folded. -/
theorem SourceExpr.spells (e : SourceExpr) :
    SpellsExpr P w (lexed (e.tokens true)) (e.core CoreOp.folded).expression w ∧
      SpellsWhole P w (lexed (e.tokens false)) (e.core CoreOp.folded).expression w := by
  have hboth {toks : List Token} {expr : Expression} (h : SpellsExpr P w toks expr w) :
      SpellsExpr P w toks expr w ∧ SpellsWhole P w toks expr w := ⟨h, .expr h⟩
  induction e with
  | integer i bound =>
    refine hboth (.value (.operand ?_))
    rw [SourceExpr.core, ← signExtend_ofInt bound]
    exact .integer rfl
  | literal b =>
    refine hboth (.value (.operand ?_))
    cases b with
    | false => exact .false rfl rfl
    | true => exact .true rfl rfl
  | var x => exact hboth (.value (.operand (.name rfl)))
  | oper op left right ihl ihr =>
    refine spells_bracketed ?_
    rw [lexed, List.map_append, List.map_cons, SourceExpr.core, ← op.folded_expression P]
    exact .binary op.desc_mem ⟨rfl, rfl⟩ op.desc_plain.1 rfl (fun h => absurd h op.desc_plain.2) ihl.1
      ihr.1
  | not right ih => exact spells_bracketed (.not rfl ih.1)
  | increment decrement x => exact spells_bracketed (SourceSimple.spells_increment decrement x)

theorem SourceSimple.spells (s : SourceSimple) :
    SpellsWhole P w (lexed s.tokens) (s.core CoreOp.folded).expression w := by
  cases s with
  | set x value =>
    have hset : SpellsOper P w (lexed (SourceSimple.set x value).tokens)
        (foldedOperation P .set (.var .unknown 0 x.name) (value.core CoreOp.folded).expression) w := by
      have hdesc : (⟨.tokAssign, .set, true, true⟩ : OpDesc) ∈ opTable := by decide
      exact .binary hdesc ⟨rfl, rfl⟩ ⟨by decide, by decide⟩ rfl nofun (.value (.operand (.name rfl)))
        value.spells.1
    exact .oper hset
  | assign subtract x value =>
    cases subtract with
    | false => exact .oper (.assigned rfl (.inl ⟨rfl, rfl⟩) value.spells.1)
    | true => exact .oper (.assigned rfl (.inr ⟨rfl, rfl⟩) value.spells.1)
  | increment decrement x => exact .oper (SourceSimple.spells_increment decrement x)

/-! ## Statements -/

section

variable {toks toks' : List SourceToken} {vars vars' : List String} {code code' : List Expression}
  {expr : Expression}

theorem spellsBlock_code
    (h : SpellsStatement P w (.mk false 0 0 vars code) (lexed toks)
      (.mk false 0 0 vars (code ++ [expr])) w)
    (hrest : SpellsBlock P w (.mk false 0 0 vars (code ++ [expr])) (lexed toks')
      (.mk false 0 0 (vars ++ vars') ((code ++ [expr]) ++ code')) w) :
    SpellsBlock P w (.mk false 0 0 vars code) (lexed (toks ++ toks'))
      (.mk false 0 0 (vars ++ vars') (code ++ expr :: code')) w := by
  rw [lexed, List.map_append, List.append_cons code]
  exact .cons h hrest

theorem spellsBlock_var {x : Identifier}
    (hrest : SpellsBlock P w (.mk false 0 0 (vars ++ [x.name]) code) (lexed toks)
      (.mk false 0 0 ((vars ++ [x.name]) ++ vars') (code ++ code')) w) :
    SpellsBlock P w (.mk false 0 0 vars code)
      (lexed ([SourceToken.keywordVar, x.token, SourceToken.semicolon] ++ toks))
      (.mk false 0 0 (vars ++ x.name :: vars') (code ++ code')) w := by
  rw [lexed, List.map_append, List.append_cons vars]
  exact .cons (.var rfl rfl rfl) hrest

theorem spellsBlock_varSet {x : Identifier} {value : SourceExpr}
    (hrest : SpellsBlock P w (.mk false 0 0 (vars ++ [x.name])
        (code ++ [(SourceSimple.core CoreOp.folded (.set x value)).expression])) (lexed toks)
      (.mk false 0 0 ((vars ++ [x.name]) ++ vars')
        ((code ++ [(SourceSimple.core CoreOp.folded (.set x value)).expression]) ++ code')) w) :
    SpellsBlock P w (.mk false 0 0 vars code)
      (lexed (SourceToken.keywordVar :: x.token :: SourceToken.assign ::
        (value.tokens true ++ [SourceToken.semicolon]) ++ toks))
      (.mk false 0 0 (vars ++ x.name :: vars')
        (code ++ (SourceSimple.core CoreOp.folded (.set x value)).expression :: code')) w := by
  rw [lexed, List.map_append, List.append_cons vars, List.append_cons code]
  refine .cons ?_ hrest
  simp only [List.map_cons, List.map_append, List.map_nil]
  exact .varSet rfl rfl rfl value.spells.1 rfl

end

/-- The tokens of statements spell a block, behind what is in it already. -/
theorem SourceCode.spells (c : SourceCode) (vars : List String) (code : List Expression) :
    SpellsBlock P w (.mk false 0 0 vars code) (lexed c.tokens)
      (.mk false 0 0 (vars ++ c.vars) (code ++ (c.core CoreOp.folded).statements)) w := by
  have hblock {body : SourceCode}
      (ih : ∀ vars code, SpellsBlock P w (.mk false 0 0 vars code) (lexed body.tokens)
        (.mk false 0 0 (vars ++ body.vars) (code ++ (body.core CoreOp.folded).statements)) w) :
      SpellsBlock P w .empty (lexed body.tokens)
        (.mk false 0 0 body.vars (body.core CoreOp.folded).statements) w := ih [] []
  induction c generalizing vars code with
  | done =>
    simp only [SourceCode.vars, SourceCode.core, CoreCode.statements, List.append_nil]
    exact .close rfl
  | var x value rest ih =>
    cases value with
    | none => exact spellsBlock_var (ih _ _)
    | some value => exact spellsBlock_varSet (ih _ _)
  | simple s rest ih =>
    refine spellsBlock_code ?_ (ih _ _)
    rw [lexed, List.map_append]
    exact .expr s.spells rfl
  | ifThen test body rest ihb ih =>
    refine spellsBlock_code ?_ (ih _ _)
    simp only [lexed, List.map_cons, List.map_append]
    exact .ifThen rfl rfl test.spells.2 rfl rfl (hblock ihb)
  | ifElse test body other rest ihb ihb' ih =>
    refine spellsBlock_code ?_ (ih _ _)
    simp only [lexed, List.map_cons, List.map_append]
    exact .ifElse rfl rfl test.spells.2 rfl rfl (hblock ihb) rfl rfl (hblock ihb')
  | «while» test body rest ihb ih =>
    refine spellsBlock_code ?_ (ih _ _)
    simp only [lexed, List.map_cons, List.map_append]
    exact .while rfl rfl test.spells.2 rfl rfl (hblock ihb)
  | «for» init test inc body rest ihb ih =>
    refine spellsBlock_code ?_ (ih _ _)
    simp only [lexed, List.map_cons, List.map_append]
    exact .for rfl rfl init.spells rfl test.spells.2 rfl inc.spells rfl rfl (hblock ihb)
  | ret value rest ih =>
    cases value with
    | none => exact spellsBlock_code (.return rfl rfl) (ih _ _)
    | some value =>
      refine spellsBlock_code ?_ (ih _ _)
      simp only [lexed, List.map_cons, List.map_append, List.map_nil]
      exact .returnValue rfl value.spells.2 rfl

/-! ## Functions -/

theorem spellsNames_params (params : List Identifier) :
    SpellsNames (lexed (paramTokens params)) (params.map Identifier.name) := by
  induction params with
  | nil => exact .nil rfl
  | cons x params ih =>
    cases params with
    | nil => exact .last rfl rfl
    | cons y params => exact .cons rfl rfl ih

/-- What the parser makes of a function. -/
def SourceFunction.function (f : SourceFunction) (address : Word) : ScriptFunction :=
  .mk address f.parsed.params false f.parsed.body

theorem SourceFunction.spells (f : SourceFunction) (P : ParserEnv World) (w : World) :
    SpellsFunction P w (lexed f.tokens) (f.function (P.newFunction w).1) (P.newFunction w).2 := by
  have hcode := @SourceCode.spells World P (P.newFunction w).2 f.code [] []
  simp only [lexed, SourceFunction.tokens, List.map_cons, List.map_append]
  refine .plain rfl (spellsNames_params f.params) rfl rfl hcode

/-! ## The theorem -/

variable {W : Type}

/-- **From the text of a function to what its instructions return.** Wherever the function stands in a
file, the lexer reads the tokens of the file and the parser the function from them. Whatever integer
types are then given to its operations, it is assembled, and its words return an integer if and only if
the direct evaluation of the source does. -/
theorem compile_source_correct (f : SourceFunction) (hassigned : f.meaning.AssignedBeforeRead)
    (hthis : f.meaning.avoids "this" = true) (hslots : f.meaning.body.maxVarId + 1 < 2 ^ 31)
    (D : ReadDouble) (spelling : Spelling) (before after : List SourceToken) :
    ∃ tokens, lexer D (printTokens spelling (before ++ (f.tokens ++ after))) = some (true, tokens) ∧
      (∀ (P : ParserEnv World) (w : World), P.tokens = tokens →
        ∃ n, ∀ fuel, n ≤ fuel →
          Ok (parseFunction P fuel) ⟨before.length, w⟩ (f.function (P.newFunction w).1)
            ⟨before.length + f.tokens.length, (P.newFunction w).2⟩) ∧
      ∀ (g : CoreFunction) (A : AsmEnv), g.untyped = f.parsed.untyped → A.args = f.parsed.params →
        ∃ insts, (assembleFunction A g.body).Ok [] () insts ∧
          (codeAddress insts insts.length < 2 ^ 31 → (link (g.body.maxVarId + 1) insts).isSome) ∧
          ∀ asm, link (g.body.maxVarId + 1) insts = some asm →
            ∀ (E : Env W) (exec : Execute W) (this : Word) (argv : List Word) (rest : List Value)
              (ctx : Context W), argv.length = f.params.length → ctx.exception = false →
              ctx.stack = (argv.map Value.integer).reverse ++ rest →
              rest.length + 1 + f.meaning.depth < 1024 →
              ∀ v, (∃ fuel ctx', run E exec fuel this asm.toCode argv.length ctx = some (true, ctx') ∧
                ctx'.stack = Value.integer v :: rest) ↔ f.meaning.Returns argv v := by
  refine ⟨_, lexer_printTokens D spelling _, ?_, ?_⟩
  · intro P w htokens
    have hahead : P.tokens.drop before.length = lexed f.tokens ++ lexed after := by
      rw [htokens, List.map_append, List.map_append, ← List.length_map (SourceToken.token 1),
        List.drop_left]
    have hreads := (f.spells P w).reads before.length (lexed after) hahead
    rw [List.length_map] at hreads
    exact Filter.eventually_atTop.mp hreads
  · intro g A htypes hargs
    have htyped := CoreFunction.agrees_of_untyped htypes
    have hfolded := f.parsed_agrees
    have hassigned' : g.AssignedBeforeRead := htyped.assigned.mpr (hfolded.assigned.mpr hassigned)
    have hthis' : g.avoids "this" = true := by rw [htyped.avoids, hfolded.avoids, hthis]
    have hslots' : g.body.maxVarId + 1 < 2 ^ 31 := by
      rwa [htyped.maxVarId, hfolded.maxVarId]
    refine ⟨g.code', assembleFunction_core (hargs.trans htyped.params.symm) hassigned' hthis', ?_, ?_⟩
    · intro hsize
      have hlen := Nat.lt_of_le_of_lt (le_codeAddress (Nat.le_refl _)) hsize
      exact link_isSome _ (g.code_wellFormed (by omega)) hsize
    · intro asm hasm E exec this argv rest ctx hargv hexc hstack hdepth v
      have hlen := Nat.lt_of_le_of_lt (le_codeAddress (Nat.le_refl _)) (link_some hasm).1
      have hparams : argv.length = g.params.length := by
        rw [hargv, htyped.params]
        exact (List.length_map Identifier.name).symm
      have hdepth' := Nat.le_trans htyped.depth hfolded.depth
      rw [← hfolded.returns, ← htyped.returns]
      simp only [run_link hasm (g.code_wellFormed (by omega))]
      exact g.run_iff hassigned' (by omega) (by omega) this hparams hexc hstack (by omega) v

/-- A name of one letter. -/
def letter (c : Char) (alpha : c.isAlpha) : Identifier where
  first := c
  rest := []
  alpha := alpha
  alphanum := List.forall_mem_nil _
  keyword := by
    have hlong : ∀ token ∈ tokenTable, token.str.toList.length = 1 →
        (token.str.toList.headD ' ').isAlpha = false := by decide
    intro token htoken heq
    have hc := hlong token htoken (by rw [heq]; rfl)
    rw [heq, List.headD_cons, alpha] at hc
    cases hc

/-- `(n) { var s = 0; while (n) { s += n; n--; } return s; }` -/
def sumSource : SourceFunction where
  params := [letter 'n' rfl]
  code :=
    .var (letter 's' rfl) (some (.integer 0 (by decide))) <|
    .while (.var (letter 'n' rfl))
      (.simple (.assign false (letter 's' rfl) (.var (letter 'n' rfl))) <|
      .simple (.increment true (letter 'n' rfl)) .done) <|
    .ret (some (.var (letter 's' rfl))) .done

theorem compile_source_correct_sum :
    ∃ tokens, lexer ⟨fun _ => 0, fun d _ => d⟩
        "( n ) \x7b var s = 0 ; while ( n ) \x7b s += n ; n -- ; \x7d return s ; \x7d \n".toList =
          some (true, tokens) ∧
      (∃ n, ∀ fuel, n ≤ fuel → Ok (parseFunction (plainParser tokens) fuel) ⟨0, ()⟩
        (sumSource.function 1) ⟨26, ()⟩) ∧
      ∃ asm, link 4 sumSource.parsed.code' = some asm ∧
        ∃ fuel ctx', run (oneClassEnv [] (fun _ => none)) (fun _ _ _ _ => none) fuel 0 asm.toCode 1
            ⟨[Value.integer 3], false, Value.zero, ()⟩ = some (true, ctx') ∧
          ctx'.stack = [Value.integer 6] := by
  obtain ⟨tokens, hlexer, hparser, hcompile⟩ := @compile_source_correct Unit Unit
    sumSource (by decide) (by decide) (by decide) ⟨fun _ => 0, fun d _ => d⟩ .escaped [] []
  refine ⟨tokens, hlexer, hparser (plainParser tokens) () rfl, ?_⟩
  obtain ⟨insts, hok, hlink, hrun⟩ := hcompile sumSource.parsed (plainAsmEnv ["n"]) rfl rfl
  obtain rfl : sumSource.parsed.code' = insts := by
    have hcore := assembleFunction_core (A := plainAsmEnv ["n"]) (f := sumSource.parsed) rfl (by decide)
      (by decide)
    cases hcore.symm.trans hok
    rfl
  obtain ⟨asm, hasm⟩ := Option.isSome_iff_exists.mp (hlink (by decide))
  exact ⟨asm, hasm, (hrun asm hasm _ _ 0 [3] [] _ rfl rfl rfl (by decide) 6).mpr ⟨4, .inl rfl⟩⟩

end B0rk
