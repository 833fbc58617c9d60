import B0rk.Parser.Shown
import B0rk.Parser.Proofs.Imports

set_option autoImplicit false

/-! # Which operands show all that was read for them

A name does, unless it stands behind that of a class without a dot in between or is no name, and a
function does if there is no error in it. -/

namespace B0rk

open Attempt

variable {World : Type} {P : ParserEnv World} {fuel count : ℕ} {clazz : Word} {id name : String}
  {token : Token} {names : List String} {s t u : ParserState World} {expr : Expression}

/-! ## Tokens one by one -/

theorem ParserEnv.between_self (start : ℕ) : P.between start start = [] := by
  unfold ParserEnv.between
  rw [Nat.sub_self, List.take_zero]

theorem ParserEnv.between_succ {start pos : ℕ} (h : P.tokens[pos]? = some token) (hle : start ≤ pos) :
    P.between start (pos + 1) = P.between start pos ++ [token] := by
  have hat : (P.tokens.drop start)[pos - start]? = some token := by
    rw [List.getElem?_drop, Nat.add_sub_cancel' hle, h]
  unfold ParserEnv.between
  rw [Nat.succ_sub hle, List.take_add_one, hat]
  rfl

theorem ParserEnv.between_one {start : ℕ} (h : P.tokens[start]? = some token) :
    P.between start (start + 1) = [token] := by
  rw [between_succ h le_rfl, between_self]
  rfl

theorem ParserEnv.between_two {start pos : ℕ} {dot : Token} (hdot : P.tokens[pos]? = some dot)
    (h : P.tokens[pos + 1]? = some token) (hle : start ≤ pos) :
    P.between start (pos + 2) = P.between start pos ++ [dot, token] := by
  rw [between_succ h (Nat.le_succ_of_le hle), between_succ hdot hle, List.append_assoc]
  rfl

theorem nextToken_at (h : P.tokens[s.pos]? = some token) :
    Ok (nextToken P) s token { s with pos := s.pos + 1 } := by
  unfold Ok nextToken
  rw [h]

theorem rewind_to (count : ℕ) (s : ParserState World) :
    Ok (rewind count) s () { s with pos := s.pos - count } := rfl

/-! ## Dotted names -/

theorem parseIdentifierRest_dotted {start : ℕ} {id id' : List String}
    (hnames : DottedName (P.between start s.pos) id) (hle : start ≤ s.pos)
    (h : Ok (parseIdentifierRest P fuel id) s id' t) : DottedName (P.between start t.pos) id' := by
  induction fuel generalizing id s with
  | zero => exact absurd h (by unfold parseIdentifierRest; simp)
  | succ fuel ih =>
    unfold parseIdentifierRest moreTokens rewind at h
    obtain ⟨more, v, hmore, h⟩ := bind_ok.mp h
    obtain ⟨-, rfl⟩ := read_ok.mp hmore
    split at h
    · obtain ⟨rfl, rfl⟩ := pure_ok.mp h
      exact hnames
    · obtain ⟨dot, v, hdot, h⟩ := bind_ok.mp h
      obtain ⟨hat, rfl⟩ := nextToken_world hdot
      split at h
      · obtain ⟨u, v, hrewind, h⟩ := bind_ok.mp h
        obtain rfl := modify_ok.mp hrewind
        obtain ⟨rfl, rfl⟩ := pure_ok.mp h
        exact hnames
      · next hne =>
        obtain ⟨token, w, htoken, h⟩ := bind_ok.mp h
        obtain ⟨⟨hat', htype⟩, rfl⟩ := expect_world htoken
        refine ih ?_ (by simp only; omega) h
        rw [P.between_two hat hat' hle]
        exact .more hnames (not_not.mp hne) htype

/-- `parseIdentifier` reads a dotted name. -/
theorem parseIdentifier_dotted {id : List String} (h : Ok (parseIdentifier P fuel) s id t) :
    DottedName (P.between s.pos t.pos) id := by
  obtain ⟨token, v, htoken, h⟩ := bind_ok.mp h
  obtain ⟨⟨hat, htype⟩, rfl⟩ := expect_world htoken
  refine parseIdentifierRest_dotted ?_ (Nat.le_succ _) h
  rw [P.between_one hat]
  exact .one htype

theorem DottedName.ne_nil {tokens : List Token} (h : DottedName tokens names) : names ≠ [] := by
  cases h with
  | one => exact List.cons_ne_nil _ _
  | more => simp

theorem identifierToString_append {names : List String} (h : names ≠ []) (name : String) :
    identifierToString (names ++ [name]) = identifierToString names ++ "." ++ name := by
  unfold identifierToString
  rw [String.intercalate_append_of_ne_nil h (List.cons_ne_nil _ _), String.intercalate_singleton]

/-- Of two names or more none is imported. -/
theorem importedIdentifier_append {names : List String} (h : names ≠ []) (name : String) :
    importedIdentifier P (names ++ [name]) = names ++ [name] := by
  rcases names with _ | ⟨a, _ | ⟨b, names⟩⟩
  · exact absurd rfl h
  · rfl
  · rfl

/-! ## The look-ahead for a class -/

/-- `count` is how far the loop has gone if it finds no class. -/
theorem probeClass_count {count' : ℕ} (h : Ok (probeClass P fuel name token count) s (0, count') t) :
    t.pos + count = s.pos + count' := by
  induction fuel generalizing name token count s with
  | zero => exact absurd h (by unfold probeClass; simp)
  | succ fuel ih =>
    unfold probeClass at h
    split at h
    · obtain ⟨hcount, rfl⟩ := pure_ok.mp h
      rw [(Prod.mk.inj hcount).2]
    · obtain ⟨clazz, v, hfind, h⟩ := bind_ok.mp h
      obtain ⟨-, rfl⟩ := Prod.mk.inj (Option.some.inj hfind)
      split at h
      · next hne => exact absurd (Prod.mk.inj (pure_ok.mp h).1).1 hne
      · obtain ⟨dot, v, hdot, h⟩ := bind_ok.mp h
        obtain ⟨-, rfl⟩ := nextToken_world hdot
        split at h
        · obtain ⟨hcount, rfl⟩ := pure_ok.mp h
          rw [← (Prod.mk.inj hcount).2]
          simp only
          omega
        · obtain ⟨token', v, htoken, h⟩ := bind_ok.mp h
          obtain ⟨-, rfl⟩ := nextToken_world htoken
          have hrest := ih h
          simp only at hrest
          omega

/-- A class that the loop finds is the one of the names that it has gone over. -/
theorem probeClass_dotted {start pos count' : ℕ} {dot : Token} {w : World}
    (hnames : DottedName (P.between start pos) names) (hle : start ≤ pos)
    (hdot : P.tokens[pos]? = some dot) (htype : dot.type = .tokDot)
    (htoken : P.tokens[pos + 1]? = some token)
    (h : Ok (probeClass P fuel (identifierToString names) token count) ⟨pos + 2, w⟩ (clazz, count') t)
    (hne : clazz ≠ 0) : start ≤ t.pos ∧
      ∃ names' world, DottedName (P.between start t.pos) names' ∧
        (P.findClass world (identifierToString (importedIdentifier P names'))).1 = clazz := by
  induction fuel generalizing pos names dot token count w with
  | zero => exact absurd h (by unfold probeClass; simp)
  | succ fuel ih =>
    unfold probeClass at h
    split at h
    · exact absurd (Prod.mk.inj (pure_ok.mp h).1).1.symm hne
    · next hname =>
      have hnames' : DottedName (P.between start (pos + 2)) (names ++ [token.string]) := by
        rw [P.between_two hdot htoken hle]
        exact .more hnames htype (not_not.mp hname)
      have hstring := identifierToString_append hnames.ne_nil token.string
      rw [← hstring] at h
      obtain ⟨clazz', v, hfind, h⟩ := bind_ok.mp h
      obtain ⟨hclazz, rfl⟩ := Prod.mk.inj (Option.some.inj hfind)
      split at h
      · obtain ⟨hfound, rfl⟩ := pure_ok.mp h
        refine ⟨by simp only; omega, names ++ [token.string], w, hnames', ?_⟩
        rw [importedIdentifier_append hnames.ne_nil, ← (Prod.mk.inj hfound).1]
        exact Option.some.inj hclazz
      · obtain ⟨dot', v, hdot', h⟩ := bind_ok.mp h
        obtain ⟨hat, rfl⟩ := nextToken_world hdot'
        split at h
        · exact absurd (Prod.mk.inj (pure_ok.mp h).1).1.symm hne
        · next htype' =>
          obtain ⟨token', v, htoken', h⟩ := bind_ok.mp h
          obtain ⟨hat', rfl⟩ := nextToken_world htoken'
          exact ih hnames' (by omega) hat (not_not.mp htype') hat' h

/-- `parseQualifier`, which goes on behind a class without a look at what stands there. -/
theorem parseQualifier_eq (fuel : ℕ) (id : String) :
    parseQualifier P fuel id = (do
      let found : Word × ℕ ← findQualifier P fuel id
      if found.1 ≠ 0 then do
        let _ ← nextToken P
        let token ← nextToken P
        pure (found.1, token.string)
      else do
        rewind found.2
        pure (0, id)) := by
  unfold parseQualifier findQualifier
  exact (bind_assoc _ _ _).symm

/-- What the look-ahead finds at a name and a dot. -/
theorem findQualifier_found {dot : Token} (htoken : P.tokens[s.pos]? = some token)
    (hname : token.type = .tokIdentifier) (hdot : P.tokens[s.pos + 1]? = some dot)
    (htype : dot.type = .tokDot)
    (h : Ok (findQualifier P fuel token.string) { s with pos := s.pos + 2 } (clazz, count) t) :
    (clazz = 0 → t.pos = s.pos + 1 + count) ∧
      (clazz ≠ 0 → s.pos ≤ t.pos ∧
        ∃ names world, DottedName (P.between s.pos t.pos) names ∧
          (P.findClass world (identifierToString (importedIdentifier P names))).1 = clazz) := by
  have hone : DottedName (P.between s.pos (s.pos + 1)) [token.string] := by
    rw [P.between_one htoken]
    exact .one hname
  obtain ⟨part, v, hpart, h⟩ := bind_ok.mp h
  obtain ⟨hat, rfl⟩ := nextToken_world hpart
  cases himport : P.imports.lookup token.string with
  | some imported =>
    rw [himport] at h
    obtain ⟨clazz', v, hfind, h⟩ := bind_ok.mp h
    obtain ⟨hclazz, rfl⟩ := Prod.mk.inj (Option.some.inj hfind)
    split at h
    · exact absurd h (by simp)
    · next hne =>
      obtain ⟨_, v, hrewind, h⟩ := bind_ok.mp h
      obtain rfl := modify_ok.mp hrewind
      obtain ⟨hfound, rfl⟩ := pure_ok.mp h
      obtain ⟨rfl, rfl⟩ := Prod.mk.inj hfound
      refine ⟨fun h => absurd h hne, fun _ => ⟨by simp only; omega, [token.string], s.world, hone, ?_⟩⟩
      have himported : importedIdentifier P [token.string] = imported := by
        show (P.imports.lookup token.string).getD [token.string] = imported
        rw [himport]
        rfl
      rw [himported]
      exact Option.some.inj hclazz
  | none =>
    rw [himport] at h
    constructor
    · rintro rfl
      have hcount := probeClass_count h
      simp only at hcount
      omega
    · intro hne
      exact probeClass_dotted hone (Nat.le_succ _) hdot htype hat h hne

/-! ## Names -/

theorem parseMember_ok {behind : ParserState World} :
    Ok (parseMember P fuel clazz id) behind expr t ↔ MemberAt P fuel clazz id behind expr t := by
  constructor
  · intro h
    obtain ⟨next, u, hnext, h⟩ := bind_ok.mp h
    obtain ⟨htoken, rfl⟩ := nextToken_world hnext
    split at h
    · next htype =>
      obtain ⟨_, v, hrewind, h⟩ := bind_ok.mp h
      obtain ⟨params, w, hparams, h⟩ := bind_ok.mp h
      obtain ⟨rfl, rfl⟩ := pure_ok.mp h
      obtain rfl := modify_ok.mp hrewind
      exact .call htoken htype hparams
    · next hround =>
      split at h
      · next htype =>
        obtain ⟨index, v, hindex, h⟩ := bind_ok.mp h
        obtain ⟨close, w, hclose, h⟩ := bind_ok.mp h
        obtain ⟨rfl, rfl⟩ := pure_ok.mp h
        exact .array htoken htype hindex hclose
      · next hsquare =>
        obtain ⟨_, v, hrewind, h⟩ := bind_ok.mp h
        obtain ⟨rfl, rfl⟩ := pure_ok.mp h
        obtain rfl := modify_ok.mp hrewind
        exact .var htoken hround hsquare
  · intro h
    cases h with
    | call htoken htype hparams =>
      refine (nextToken_at htoken).bind ?_
      rw [if_pos htype]
      exact (rewind_to 1 _).bind (hparams.bind (pure_ok.mpr ⟨rfl, rfl⟩))
    | array htoken htype hindex hclose =>
      refine (nextToken_at htoken).bind ?_
      rw [if_neg (by rw [htype]; decide), if_pos htype]
      exact hindex.bind (hclose.bind (pure_ok.mpr ⟨rfl, rfl⟩))
    | var htoken hround hsquare =>
      refine (nextToken_at htoken).bind ?_
      rw [if_neg hround, if_neg hsquare]
      exact (rewind_to 1 _).bind (pure_ok.mpr ⟨rfl, rfl⟩)

/-- An operand that begins with a name. -/
theorem parseExpressionValue_readName (htoken : P.tokens[s.pos]? = some token)
    (htype : token.type = .tokIdentifier) :
    parseExpressionValue P (fuel + 1) s = (do
      let name : Word × String ← readName P fuel
      parseMember P fuel name.1 name.2) s := by
  unfold parseExpressionValue readName
  rw [bind_assoc, (nextToken_at htoken).run, (nextToken_at htoken).run]
  simp only [htype, bind_assoc]
  rfl

theorem Named.of_member {tokens : List Token} {dot : Token}
    (h : Named P (tokens ++ [dot, token]) clazz id) (hne : clazz ≠ 0) :
    dot.type = .tokDot ∧ token.type = .tokIdentifier := by
  generalize heq : tokens ++ [dot, token] = all at h
  cases h with
  | plain => exact absurd rfl hne
  | member _ _ _ hdot htype =>
    obtain ⟨-, hend⟩ := List.append_inj' heq rfl
    simp only [List.cons.injEq, and_true] at hend
    obtain ⟨rfl, rfl⟩ := hend
    exact ⟨hdot, htype⟩

/-- A name that has been read, as far as it is one. -/
theorem readName_named (htoken : P.tokens[s.pos]? = some token) (htype : token.type = .tokIdentifier)
    (h : Ok (readName P fuel) s (clazz, id) t) :
    Named P (P.between s.pos t.pos) clazz id ↔
      ∀ next, P.tokens[s.pos + 1]? = some next → next.type = .tokDot →
        ∀ clazz count u, Ok (findQualifier P fuel token.string) { s with pos := s.pos + 2 }
            (clazz, count) u → clazz ≠ 0 →
          ∃ dot name, P.tokens[u.pos]? = some dot ∧ dot.type = .tokDot ∧
            P.tokens[u.pos + 1]? = some name ∧ name.type = .tokIdentifier := by
  obtain ⟨token', v, hfirst, h⟩ := bind_ok.mp h
  obtain ⟨hat, rfl⟩ := nextToken_world hfirst
  obtain rfl := Option.some.inj (htoken.symm.trans hat)
  obtain ⟨next, v, hnext, h⟩ := bind_ok.mp h
  obtain ⟨hat', rfl⟩ := nextToken_world hnext
  have hplain : P.between s.pos (s.pos + 1) = [token] := P.between_one htoken
  split at h
  · next hdot =>
    rw [parseQualifier_eq] at h
    obtain ⟨⟨clazz', count⟩, v, hfind, h⟩ := bind_ok.mp h
    have hfound := findQualifier_found htoken htype hat' hdot hfind
    by_cases hne : clazz' = 0
    · rw [if_neg (by simp [hne])] at h
      obtain ⟨_, w, hrewind, h⟩ := bind_ok.mp h
      obtain rfl := modify_ok.mp hrewind
      obtain ⟨hname, rfl⟩ := pure_ok.mp h
      obtain ⟨rfl, rfl⟩ := Prod.mk.inj hname
      have hpos : v.pos - count = s.pos + 1 := by
        rw [hfound.1 hne, Nat.add_sub_cancel]
      refine iff_of_true ?_ fun next' _ _ clazz count u hfind' hne' => ?_
      · simp only [hpos, hplain]
        exact .plain htype
      · obtain ⟨hsame, -⟩ := hfind'.unique hfind
        exact absurd ((Prod.mk.inj hsame).1.trans hne) hne'
    · rw [if_pos hne] at h
      obtain ⟨dot, w, hdot', h⟩ := bind_ok.mp h
      obtain ⟨hat₁, rfl⟩ := nextToken_world hdot'
      obtain ⟨name, w, hname, h⟩ := bind_ok.mp h
      obtain ⟨hat₂, rfl⟩ := nextToken_world hname
      obtain ⟨hresult, rfl⟩ := pure_ok.mp h
      obtain ⟨rfl, rfl⟩ := Prod.mk.inj hresult
      obtain ⟨hle, names, world, hnames, hclazz⟩ := hfound.2 hne
      have htokens : P.between s.pos (v.pos + 1 + 1) = P.between s.pos v.pos ++ [dot, name] :=
        P.between_two hat₁ hat₂ hle
      simp only [htokens]
      constructor
      · intro hnamed next' hnext' _ clazz count u hfind' _
        obtain ⟨-, rfl⟩ := hfind.unique hfind'
        obtain ⟨hdot, htype⟩ := hnamed.of_member hne
        exact ⟨dot, name, hat₁, hdot, hat₂, htype⟩
      · intro hsound
        obtain ⟨dot', name', hdot₁, hdottype, hname₁, hnametype⟩ :=
          hsound next hat' hdot clazz' count v hfind hne
        obtain rfl := Option.some.inj (hat₁.symm.trans hdot₁)
        obtain rfl := Option.some.inj (hat₂.symm.trans hname₁)
        exact .member hnames hclazz hne hdottype hnametype
  · next hdot =>
    obtain ⟨_, w, hrewind, h⟩ := bind_ok.mp h
    obtain rfl := modify_ok.mp hrewind
    obtain ⟨hname, rfl⟩ := pure_ok.mp h
    obtain ⟨rfl, rfl⟩ := Prod.mk.inj hname
    refine iff_of_true ?_ fun next' hnext' hdot' => ?_
    · have hpos : s.pos + 1 + 1 - 1 = s.pos + 1 := rfl
      simp only [hpos, hplain]
      exact .plain htype
    · obtain rfl := Option.some.inj (hat'.symm.trans hnext')
      exact absurd hdot' hdot

/-! ## Operands -/

/-- A call has less fuel than the one that makes it. -/
theorem parseSteps_wf (P : ParserEnv World) :
    WellFounded fun b a => (parseSteps P).Checks a b := by
  have hfollows := ParserEnv.Follows.eq P
  refine Subrelation.wf (fun {b a} h => ?_)
    (InvImage.wf (fun a : ParseStep × ParserState World => a.1.fuel) Nat.lt_wfRel.wf)
  exact (hfollows.routine a.1 fun step _ => hfollows.step step).satisfy _ _ h

theorem SoundValue.of_type (htoken : P.tokens[s.pos]? = some token)
    (hname : token.type ≠ .tokIdentifier) (hfunction : token.type ≠ .tokFunction) :
    SoundValue P fuel s := by
  constructor
  · intro token' next hat htype
    obtain rfl := Option.some.inj (htoken.symm.trans hat)
    exact absurd htype hname
  · intro token' hat htype
    obtain rfl := Option.some.inj (htoken.symm.trans hat)
    exact absurd htype hfunction

/-- What is shown of an operand that begins with a name. -/
theorem ShowsValue.named {u : ParserState World} (h : ShowsValue P fuel s expr t)
    (htoken : P.tokens[s.pos]? = some token) (htype : token.type = .tokIdentifier)
    (hread : Ok (readName P fuel) s (clazz, id) u) : Named P (P.between s.pos u.pos) clazz id := by
  cases h with
  | literal hat hvalue =>
    obtain rfl := Option.some.inj (htoken.symm.trans hat)
    simp [literalValue, htype] at hvalue
  | new hat htype' =>
    obtain rfl := Option.some.inj (htoken.symm.trans hat)
    cases htype.symm.trans htype'
  | name _ _ hread' hname =>
    obtain ⟨hsame, rfl⟩ := hread.unique hread'
    obtain ⟨rfl, rfl⟩ := Prod.mk.inj hsame
    exact hname
  | function hat htype' =>
    obtain rfl := Option.some.inj (htoken.symm.trans hat)
    cases htype.symm.trans htype'

/-- What is shown of a function. -/
theorem ShowsValue.function_ok (h : ShowsValue P fuel s expr t)
    (htoken : P.tokens[s.pos]? = some token) (htype : token.type = .tokFunction) :
    ∃ function, expr = .function .object (some function) := by
  cases h with
  | literal hat hvalue =>
    obtain rfl := Option.some.inj (htoken.symm.trans hat)
    simp [literalValue, htype] at hvalue
  | new hat htype' =>
    obtain rfl := Option.some.inj (htoken.symm.trans hat)
    cases htype.symm.trans htype'
  | name hat htype' =>
    obtain rfl := Option.some.inj (htoken.symm.trans hat)
    cases htype.symm.trans htype'
  | function => exact ⟨_, rfl⟩

/-- An operand that begins with a name. -/
theorem showsValue_name_iff (htoken : P.tokens[s.pos]? = some token)
    (htype : token.type = .tokIdentifier) (h : Ok (parseExpressionValue P (fuel + 1)) s expr t) :
    ShowsValue P fuel s expr t ↔ SoundValue P fuel s := by
  unfold Ok at h
  rw [parseExpressionValue_readName htoken htype] at h
  obtain ⟨⟨clazz, id⟩, u, hread, hmember⟩ := bind_ok.mp h
  have hnamed := readName_named htoken htype hread
  constructor
  · intro hshows
    refine ⟨fun token' next hat _ hnext hdot => ?_, fun token' hat hfunction => ?_⟩
    · obtain rfl := Option.some.inj (htoken.symm.trans hat)
      exact hnamed.mp (hshows.named htoken htype hread) next hnext hdot
    · obtain rfl := Option.some.inj (htoken.symm.trans hat)
      cases htype.symm.trans hfunction
  · intro hsound
    refine .name htoken htype hread (hnamed.mpr fun next hnext hdot => ?_) (parseMember_ok.mp hmember)
    exact hsound.member token next htoken htype hnext hdot

/-- A function: the tree has it, unless it is malformed. -/
theorem showsValue_function_iff {function : Option ScriptFunction}
    (htoken : P.tokens[s.pos]? = some token) (htype : token.type = .tokFunction)
    (h : Ok (parseFunction P fuel).orNull { s with pos := s.pos + 1 } function t) :
    ShowsValue P fuel s (.function .object function) t ↔ SoundValue P fuel s := by
  have hmalformed : (parseFunction P fuel).Fails { s with pos := s.pos + 1 } ↔
      (parseSteps P).Malformed (.function fuel, { s with pos := s.pos + 1 }) :=
    Routine.Family.fails_iff_malformed (parseSteps_wf P)
      (a := (.function fuel, { s with pos := s.pos + 1 }))
  cases function with
  | none =>
    refine iff_of_false (fun hshows => ?_) fun hsound => ?_
    · obtain ⟨function, hfunction⟩ := hshows.function_ok htoken htype
      cases hfunction
    · exact hsound.function token htoken htype (hmalformed.mp ⟨t, orNull_ok.mp h⟩)
  | some function =>
    refine iff_of_true (.function htoken htype (orNull_ok.mp h)) ⟨?_, fun token' hat _ => ?_⟩
    · intro token' next hat htype'
      obtain rfl := Option.some.inj (htoken.symm.trans hat)
      cases htype.symm.trans htype'
    · rw [← hmalformed]
      rintro ⟨w, hfails⟩
      cases hfails.symm.trans (orNull_ok.mp h)

/-- **Operands.** One that `parseExpressionValue` returns shows all that has been read for it, exactly
    if its name and its function are sound. -/
theorem showsValue_iff (h : Ok (parseExpressionValue P (fuel + 1)) s expr t) :
    ShowsValue P fuel s expr t ↔ SoundValue P fuel s := by
  have hrun := h
  unfold parseExpressionValue at h
  obtain ⟨token, v, htoken, h⟩ := bind_ok.mp h
  obtain ⟨hat, rfl⟩ := nextToken_world htoken
  have hliteral {value : Expression} (hvalue : literalValue token = some value)
      (h : Ok (pure value) { s with pos := s.pos + 1 } expr t) : ShowsValue P fuel s expr t := by
    obtain ⟨rfl, rfl⟩ := pure_ok.mp h
    exact .literal hat hvalue
  split at h
  · next htype =>
    obtain ⟨id, v, hid, h⟩ := bind_ok.mp h
    obtain ⟨params, w, hparams, h⟩ := bind_ok.mp h
    obtain ⟨rfl, rfl⟩ := pure_ok.mp h
    exact iff_of_true (.new hat htype hid (parseIdentifier_dotted hid) hparams)
      (.of_type hat (by rw [htype]; decide) (by rw [htype]; decide))
  · next htype => exact showsValue_name_iff hat htype hrun
  · next htype =>
    obtain ⟨function, v, hfunction, h⟩ := bind_ok.mp h
    obtain ⟨rfl, rfl⟩ := pure_ok.mp h
    exact showsValue_function_iff hat htype hfunction
  · next htype =>
    refine iff_of_true ?_ (.of_type hat (by rw [htype]; decide) (by rw [htype]; decide))
    split at h
    · next hword => exact hliteral (by simp [literalValue, htype, hword]) h
    · exact absurd h (by simp)
  · next htype =>
    exact iff_of_true (hliteral (by simp [literalValue, htype]) h)
      (.of_type hat (by rw [htype]; decide) (by rw [htype]; decide))
  · next htype =>
    exact iff_of_true (hliteral (by simp [literalValue, htype]) h)
      (.of_type hat (by rw [htype]; decide) (by rw [htype]; decide))
  · next htype =>
    exact iff_of_true (hliteral (by simp [literalValue, htype]) h)
      (.of_type hat (by rw [htype]; decide) (by rw [htype]; decide))
  · exact absurd h (by simp)

end B0rk
