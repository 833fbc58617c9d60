import B0rk.Parser.Classes
import B0rk.Parser.Proofs.Related

set_option autoImplicit false

/-! # Reading identifiers and imports

Neither looks at the runtime. -/

namespace B0rk

open Attempt

section

variable {World : Type} {P Q : ParserEnv World}

/-! ## What reading does to the runtime -/

section

variable {R : World → World → Prop} [Std.Refl R]

theorem nextToken_changes : Changes (OnWorld R) (nextToken P) := by
  intro s a t h
  unfold nextToken at h
  split at h
  · cases h
  · obtain ⟨-, rfl⟩ := Prod.mk.inj (Option.some.inj h)
    exact refl (r := R) s.world

theorem moreTokens_changes : Changes (OnWorld R) (moreTokens P) := .read

theorem rewind_changes (count : ℕ) : Changes (OnWorld R) (rewind count) :=
  .modify fun s => refl (r := R) s.world

variable [IsTrans World R]

theorem expect_changes (type : TokenType) : Changes (OnWorld R) (expect P type) :=
  .bind nextToken_changes fun token => .ite (.pure token) .fail

theorem parseIdentifierRest_changes (fuel : ℕ) (id : List String) :
    Changes (OnWorld R) (parseIdentifierRest P fuel id) := by
  induction fuel generalizing id with
  | zero => exact .undefined
  | succ fuel ih =>
    refine .bind moreTokens_changes fun more => .ite (.pure _) (.bind nextToken_changes fun _ => ?_)
    refine .ite (.bind (rewind_changes 1) fun _ => .pure _) ?_
    exact .bind (expect_changes _) fun _ => ih _

theorem parseIdentifier_changes (fuel : ℕ) : Changes (OnWorld R) (parseIdentifier P fuel) :=
  .bind (expect_changes _) fun _ => parseIdentifierRest_changes fuel _

end

/-! ## Tokens and identifiers -/

theorem nextToken_world {s t : ParserState World} {token : Token} (h : Ok (nextToken P) s token t) :
    P.tokens[s.pos]? = some token ∧ t = { s with pos := s.pos + 1 } := by
  unfold Ok nextToken at h
  split at h
  · cases h
  · next htoken =>
    obtain ⟨htok, hs⟩ := Prod.mk.inj (Option.some.inj h)
    obtain rfl := Option.some.inj htok
    exact ⟨htoken, hs.symm⟩

theorem expect_ok {type : TokenType} {s t : ParserState World} {token : Token} :
    Ok (expect P type) s token t ↔ Ok (nextToken P) s token t ∧ token.type = type := by
  unfold expect
  rw [bind_ok]
  constructor
  · rintro ⟨token', t', hnext, h⟩
    split at h
    · next htype =>
      obtain ⟨rfl, rfl⟩ := pure_ok.mp h
      exact ⟨hnext, htype⟩
    · exact absurd h (by simp)
  · rintro ⟨hnext, htype⟩
    exact ⟨token, t, hnext, by rw [if_pos htype]; exact pure_ok.mpr ⟨rfl, rfl⟩⟩

theorem expect_world {type : TokenType} {s t : ParserState World} {token : Token}
    (h : Ok (expect P type) s token t) :
    (P.tokens[s.pos]? = some token ∧ token.type = type) ∧ t = { s with pos := s.pos + 1 } := by
  obtain ⟨hnext, htype⟩ := expect_ok.mp h
  obtain ⟨htoken, ht⟩ := nextToken_world hnext
  exact ⟨⟨htoken, htype⟩, ht⟩

theorem parseIdentifier_congr (htokens : P.tokens = Q.tokens) (fuel : ℕ) :
    parseIdentifier P fuel = parseIdentifier Q fuel := by
  have hnext : nextToken P = nextToken Q := by
    unfold nextToken
    rw [htokens]
  have hrest (id : List String) : parseIdentifierRest P fuel id = parseIdentifierRest Q fuel id := by
    induction fuel generalizing id with
    | zero => rfl
    | succ fuel ih =>
      unfold parseIdentifierRest moreTokens expect
      simp only [htokens, hnext, ih]
  unfold parseIdentifier expect
  simp only [hnext, hrest]

theorem drop_token {pos : ℕ} {token : Token} (h : P.tokens[pos]? = some token) :
    P.tokens.drop pos = token :: P.tokens.drop (pos + 1) := by
  obtain ⟨hlt, rfl⟩ := List.getElem?_eq_some_iff.mp h
  exact List.drop_eq_getElem_cons hlt

/-- An identifier consists of texts of the tokens, and the runtime is left alone. -/
theorem parseIdentifierRest_texts {fuel : ℕ} {id id' : List String} {s t : ParserState World}
    (h : Ok (parseIdentifierRest P fuel id) s id' t) :
    t.world = s.world ∧
      ∃ names, id' = id ++ names ∧ names.Sublist ((P.tokens.drop s.pos).map (·.string)) := by
  induction fuel generalizing id s with
  | zero => exact absurd h (by unfold parseIdentifierRest; simp)
  | succ fuel ih =>
    unfold parseIdentifierRest moreTokens rewind at h
    obtain ⟨more, u, hmore, h⟩ := bind_ok.mp h
    obtain ⟨-, rfl⟩ := read_ok.mp hmore
    split at h
    · obtain ⟨rfl, rfl⟩ := pure_ok.mp h
      exact ⟨rfl, [], by simp, List.nil_sublist _⟩
    · obtain ⟨dot, v, hdot, h⟩ := bind_ok.mp h
      obtain ⟨hat, rfl⟩ := nextToken_world hdot
      split at h
      · obtain ⟨u, v, hrewind, h⟩ := bind_ok.mp h
        obtain rfl := modify_ok.mp hrewind
        obtain ⟨rfl, rfl⟩ := pure_ok.mp h
        exact ⟨rfl, [], by simp, List.nil_sublist _⟩
      · obtain ⟨name, w, hname, h⟩ := bind_ok.mp h
        obtain ⟨⟨hat', -⟩, rfl⟩ := expect_world hname
        obtain ⟨hworld, names, rfl, hnames⟩ := ih h
        refine ⟨hworld, name.string :: names, by simp, ?_⟩
        rw [drop_token hat, drop_token hat']
        exact .cons _ (.cons_cons _ hnames)

theorem parseIdentifier_texts {fuel : ℕ} {id : List String} {s t : ParserState World}
    (h : Ok (parseIdentifier P fuel) s id t) :
    t.world = s.world ∧ id.Sublist (P.tokens.map (·.string)) := by
  obtain ⟨token, u, htoken, h⟩ := bind_ok.mp h
  obtain ⟨⟨hat, -⟩, rfl⟩ := expect_world htoken
  obtain ⟨hworld, names, rfl, hnames⟩ := parseIdentifierRest_texts h
  refine ⟨hworld, ?_⟩
  refine List.Sublist.trans ?_ ((List.drop_sublist s.pos P.tokens).map _)
  rw [drop_token hat]
  exact .cons_cons _ hnames

end

/-! ## Imports -/

namespace ClassPath

/-- A parser that is used for reading tokens only. -/
def reader (E : ClassPath) (tokens : List Token) : ParserEnv ClassTable := E.parser halting tokens []

variable {E : ClassPath} {load load' : LoadClass} {tokens : List Token}

theorem parseIdentifier_reader (imports : Imports) (fuel : ℕ) :
    parseIdentifier (E.parser load tokens imports) fuel = parseIdentifier (E.reader tokens) fuel :=
  parseIdentifier_congr (P := E.parser load tokens imports) (Q := E.reader tokens) rfl fuel

theorem parseImports_congr (fuel n : ℕ) (imports : Imports) :
    E.parseImports load tokens fuel n imports = E.parseImports load' tokens fuel n imports := by
  induction n generalizing imports with
  | zero => rfl
  | succ n ih =>
    unfold parseImports
    simp only [ih, parseIdentifier_reader]
    rfl

/-- The imports leave the runtime alone. -/
theorem parseImports_changes {R : ClassTable → ClassTable → Prop} [Std.Refl R]
    [IsTrans ClassTable R] (fuel n : ℕ) (imports : Imports) :
    Changes (OnWorld R) (E.parseImports load tokens fuel n imports) := by
  induction n generalizing imports with
  | zero => exact .undefined
  | succ n ih =>
    refine .bind moreTokens_changes fun more => .ite (.pure _) (.bind nextToken_changes fun _ => ?_)
    refine .ite ?_ (.bind (rewind_changes 1) fun _ => .pure _)
    exact .bind (parseIdentifier_changes fuel) fun _ => .bind (expect_changes _) fun _ => ih _

theorem parseImports_world {fuel n : ℕ} {imports imports' : Imports} {s t : ParserState ClassTable}
    (h : Ok (E.parseImports load tokens fuel n imports) s imports' t) : t.world = s.world :=
  (parseImports_changes (R := Eq) fuel n imports s _ t h).symm

end ClassPath

end B0rk
