import B0rk.Parser.Proofs.Shown
import B0rk.Parser.Proofs.Written

set_option autoImplicit false

/-! # Dotted names

A run `a1.a2. .. .an` of names, where `parseExpressionValue` asks for the classes `a1.a2`, `a1.a2.a3`
and so on. It counts the tokens on the way to go back if there is none. If there is one it goes on over
two tokens, a dot and a name, without a look at them, and behind the last name these are not there. -/

namespace B0rk

open Attempt (Ok)

variable {World : Type} {P : ParserEnv World} {pos fuel count : ℕ} {world world' : World}
  {token : Token} {toks : List Token} {names : List String} {name : String} {k : ℕ} {clazz : Word}

/-- The tokens `. a2 . a3 .. . an` and one more, that is no dot. -/
def DottedNames : List String → List Token → Prop
  | [], toks => ∃ next rest, toks = next :: rest ∧ next.type ≠ .tokDot
  | a :: names, toks => ∃ dot token rest, toks = dot :: token :: rest ∧ dot.type = .tokDot ∧
      token.type = .tokIdentifier ∧ token.string = a ∧ DottedNames names rest

/-- What `findClass` says to `name.a2`, `name.a2.a3` and so on, up to the first class: how many names
    are in front of the last name of that class, and the class. -/
def askPrefixes (P : ParserEnv World) : World → String → List String → Option (ℕ × Word) × World
  | world, _, [] => (none, world)
  | world, name, a :: names =>
      let (clazz, world) := P.findClass world (name ++ "." ++ a)
      if clazz ≠ 0 then (some (0, clazz), world)
      else
        let (found, world) := askPrefixes P world (name ++ "." ++ a) names
        (found.map (fun (k, clazz) => (k + 1, clazz)), world)

theorem askPrefixes_found (h : askPrefixes P world name names = (some (k, clazz), world')) :
    clazz ≠ 0 ∧ k < names.length := by
  induction names generalizing world name k with
  | nil => cases h
  | cons a names ih =>
    simp only [askPrefixes] at h
    split at h
    · next hclazz =>
      obtain ⟨hfound, -⟩ := Prod.mk.inj h
      obtain ⟨rfl, rfl⟩ := Prod.mk.inj (Option.some.inj hfound)
      exact ⟨hclazz, by simp⟩
    · obtain ⟨hfound, hworld⟩ := Prod.mk.inj h
      obtain ⟨⟨k', clazz'⟩, hrest, hk⟩ := Option.map_eq_some_iff.mp hfound
      obtain ⟨rfl, rfl⟩ := Prod.mk.inj hk
      obtain ⟨hclazz, hlt⟩ := ih (Prod.ext hrest hworld)
      exact ⟨hclazz, by simpa using hlt⟩

/-! ## The loop -/

theorem findClass_ok :
    Ok (findClass P name) ⟨pos, world⟩ (P.findClass world name).1
      ⟨pos, (P.findClass world name).2⟩ := rfl

/-- The loop of the look-ahead, at the name `token` with the rest of the run behind it: no class. -/
theorem probeClass_noClass (fuel count : ℕ) (htype : token.type = .tokIdentifier) (hnames : DottedNames names toks)
    (hahead : Ahead P pos toks) (hfuel : names.length < fuel)
    (hask : askPrefixes P world name (token.string :: names) = (none, world')) :
    Ok (probeClass P fuel name token count) ⟨pos, world⟩ (0, count + 2 * names.length + 1)
      ⟨pos + 2 * names.length + 1, world'⟩ := by
  induction names generalizing fuel name token pos count world toks with
  | nil =>
    obtain ⟨fuel, rfl⟩ : ∃ fuel', fuel = fuel' + 1 := ⟨fuel - 1, by omega⟩
    obtain ⟨next, rest, rfl, hdot⟩ := hnames
    simp only [askPrefixes] at hask
    split at hask
    · cases hask
    · next hclazz =>
      obtain ⟨-, rfl⟩ := Prod.mk.inj hask
      rw [probeClass, if_neg (fun h => h htype)]
      refine findClass_ok.bind ?_
      rw [if_neg hclazz]
      refine (nextToken_ok hahead).bind ?_
      rw [if_pos hdot]
      exact Attempt.pure_ok.mpr ⟨rfl, rfl⟩
  | cons a names ih =>
    obtain ⟨fuel, rfl⟩ : ∃ fuel', fuel = fuel' + 1 := ⟨fuel - 1, by omega⟩
    obtain ⟨dot, part, rest, rfl, hdot, hpart, rfl, hnames⟩ := hnames
    rw [askPrefixes] at hask
    dsimp only at hask
    split at hask
    · cases hask
    · next hclazz =>
      obtain ⟨hnone, hworld⟩ := Prod.mk.inj hask
      have hnone := Option.map_eq_none_iff.mp hnone
      have hrest := ih fuel (count + 2) hpart hnames hahead.tail.tail
        (by simp only [List.length_cons] at hfuel; omega) (Prod.ext hnone hworld)
      rw [probeClass, if_neg (fun h => h htype)]
      refine findClass_ok.bind ?_
      rw [if_neg hclazz]
      refine (nextToken_ok hahead).bind ?_
      rw [if_neg (fun h => h hdot)]
      refine (nextToken_ok hahead.tail).bind ?_
      convert hrest using 2 <;> simp only [List.length_cons] <;> omega

/-- The same loop where there is a class: it stands behind the last name of it. -/
theorem probeClass_class (fuel count : ℕ) (htype : token.type = .tokIdentifier) (hnames : DottedNames names toks)
    (hahead : Ahead P pos toks) (hfuel : names.length < fuel)
    (hask : askPrefixes P world name (token.string :: names) = (some (k, clazz), world')) :
    Ok (probeClass P fuel name token count) ⟨pos, world⟩ (clazz, count + 2 * k)
      ⟨pos + 2 * k, world'⟩ := by
  induction names generalizing fuel name token pos count world toks k with
  | nil =>
    obtain ⟨fuel, rfl⟩ : ∃ fuel', fuel = fuel' + 1 := ⟨fuel - 1, by omega⟩
    simp only [askPrefixes] at hask
    split at hask
    · next hclazz =>
      obtain ⟨hfound, rfl⟩ := Prod.mk.inj hask
      obtain ⟨rfl, rfl⟩ := Prod.mk.inj (Option.some.inj hfound)
      rw [probeClass, if_neg (fun h => h htype)]
      refine findClass_ok.bind ?_
      rw [if_pos hclazz]
      exact Attempt.pure_ok.mpr ⟨rfl, rfl⟩
    · cases hask
  | cons a names ih =>
    obtain ⟨fuel, rfl⟩ : ∃ fuel', fuel = fuel' + 1 := ⟨fuel - 1, by omega⟩
    obtain ⟨dot, part, rest, rfl, hdot, hpart, rfl, hnames⟩ := hnames
    rw [askPrefixes] at hask
    dsimp only at hask
    rw [probeClass, if_neg (fun h => h htype)]
    refine findClass_ok.bind ?_
    split at hask
    · next hclazz =>
      obtain ⟨hfound, rfl⟩ := Prod.mk.inj hask
      obtain ⟨rfl, rfl⟩ := Prod.mk.inj (Option.some.inj hfound)
      rw [if_pos hclazz]
      exact Attempt.pure_ok.mpr ⟨rfl, rfl⟩
    · next hclazz =>
      obtain ⟨hfound, hworld⟩ := Prod.mk.inj hask
      obtain ⟨⟨k', clazz'⟩, hsome, hk⟩ := Option.map_eq_some_iff.mp hfound
      obtain ⟨rfl, rfl⟩ := Prod.mk.inj hk
      have hrest := ih fuel (count + 2) hpart hnames hahead.tail.tail
        (by simp only [List.length_cons] at hfuel; omega) (Prod.ext hsome hworld)
      rw [if_neg hclazz]
      refine (nextToken_ok hahead).bind ?_
      rw [if_neg (fun h => h hdot)]
      refine (nextToken_ok hahead.tail).bind ?_
      convert hrest using 2 <;> omega

/-! ## The whole look-ahead -/

/-- A run of two names or more: `token` is the first one. -/
structure NameRun (P : ParserEnv World) (pos : ℕ) (token : Token) (names : List String) : Prop where
  type : token.type = .tokIdentifier
  notImported : P.imports.lookup token.string = none
  ne_nil : names ≠ []
  ahead : ∃ toks, Ahead P pos (token :: toks) ∧ DottedNames names toks

/-- The first two tokens behind the name, and the loop from there. -/
theorem NameRun.qualifier (h : NameRun P pos token names) :
    ∃ part rest dot toks, names = part.string :: rest ∧ part.type = .tokIdentifier ∧
      dot.type = .tokDot ∧ Ahead P pos (token :: dot :: part :: toks) ∧ DottedNames rest toks := by
  obtain ⟨toks, hahead, hnames⟩ := h.ahead
  have hne := h.ne_nil
  cases names with
  | nil => exact absurd rfl hne
  | cons a rest =>
    obtain ⟨dot, part, toks, rfl, hdot, hpart, rfl, hnames⟩ := hnames
    exact ⟨part, rest, dot, toks, rfl, hpart, hdot, hahead, hnames⟩

theorem parseQualifier_noClass (h : NameRun P pos token names) (hfuel : names.length ≤ fuel)
    (hask : askPrefixes P world token.string names = (none, world')) :
    Ok (parseQualifier P fuel token.string) ⟨pos + 2, world⟩ (0, token.string)
      ⟨pos + 1, world'⟩ := by
  obtain ⟨part, rest, dot, toks, rfl, hpart, hdot, hahead, hnames⟩ := h.qualifier
  simp only [List.length_cons] at hfuel
  have hprobe := probeClass_noClass fuel 2 hpart hnames hahead.tail.tail.tail (by omega)
    hask
  rw [parseQualifier]
  refine (nextToken_ok hahead.tail.tail).bind ?_
  rw [h.notImported]
  refine hprobe.bind ?_
  dsimp only
  rw [if_neg (fun h => h rfl)]
  have hback : pos + 1 + 1 + 1 + 2 * rest.length + 1 = pos + 1 + (2 + 2 * rest.length + 1) := by omega
  rw [hback]
  exact (rewind_ok _).bind (Attempt.pure_ok.mpr ⟨rfl, rfl⟩)

/-- With a class, two tokens are skipped behind its name. -/
theorem parseQualifier_class (h : NameRun P pos token names) (hfuel : names.length ≤ fuel)
    (hask : askPrefixes P world token.string names = (some (k, clazz), world')) :
    parseQualifier P fuel token.string ⟨pos + 2, world⟩ =
      (do
        let _ ← nextToken P
        let token ← nextToken P
        pure (clazz, token.string)) ⟨pos + 3 + 2 * k, world'⟩ := by
  obtain ⟨part, rest, dot, toks, rfl, hpart, hdot, hahead, hnames⟩ := h.qualifier
  simp only [List.length_cons] at hfuel
  have hprobe := probeClass_class fuel 2 hpart hnames hahead.tail.tail.tail (by omega) hask
  rw [parseQualifier, (nextToken_ok hahead.tail.tail).run, h.notImported]
  dsimp only
  rw [hprobe.run]
  dsimp only
  rw [if_pos (askPrefixes_found hask).1]

/-- The tokens of the run, by their numbers: behind `k` more names stand a dot and a name, if the run
    does not end there. -/
theorem DottedNames.dot (h : DottedNames names toks) (hahead : Ahead P pos toks)
    (hk : k < names.length) :
    ∃ dot part rest, Ahead P (pos + 2 * k) (dot :: part :: rest) ∧ part.string = names[k] ∧
      rest ≠ [] := by
  induction names generalizing toks pos k with
  | nil => simp at hk
  | cons a names ih =>
    obtain ⟨dot, part, rest, rfl, -, -, rfl, hrest⟩ := h
    cases k with
    | zero =>
      refine ⟨dot, part, rest, hahead, rfl, ?_⟩
      rintro rfl
      cases names with
      | nil => obtain ⟨_, _, h, -⟩ := hrest; cases h
      | cons _ _ => obtain ⟨_, _, _, h, -⟩ := hrest; cases h
    | succ k =>
      obtain ⟨dot', part', rest', hahead', hpart', hne⟩ :=
        ih (k := k) hrest hahead.tail.tail (by simpa using hk)
      refine ⟨dot', part', rest', ?_, by simpa using hpart', hne⟩
      convert hahead' using 1
      omega

/-! ## The expression -/

/-- `parseExpressionValue` at a run: the look-ahead, and the end for the name that it gives. -/
theorem parseExpressionValue_run (h : NameRun P pos token names) :
    parseExpressionValue P (fuel + 1) ⟨pos, world⟩ =
      (do
        let (clazz, id) ← parseQualifier P fuel token.string
        parseMember P fuel clazz id) ⟨pos + 2, world⟩ := by
  obtain ⟨part, rest, dot, toks, -, -, hdot, hahead, -⟩ := h.qualifier
  rw [parseExpressionValue, (nextToken_ok hahead).run]
  simp only [h.type]
  rw [(nextToken_ok hahead.tail).run, if_pos hdot]
  rfl

/-- What is to become of a run at `pos`, by what `findClass` says to its prefixes: a variable with the
    first name, a member of the class with the smallest name, or an error if that is the whole run.
    The look-ahead comes to no token behind the run. -/
def ReadsRun (P : ParserEnv World) (fuel pos : ℕ) (world : World) (token : Token)
    (names : List String) : Prop :=
  (∀ world', askPrefixes P world token.string names = (none, world') →
    Ok (parseExpressionValue P (fuel + 1)) ⟨pos, world⟩ (.var .unknown 0 token.string)
      ⟨pos + 1, world'⟩) ∧
  (∀ k clazz world', askPrefixes P world token.string names = (some (k, clazz), world') →
    ∀ hk : k + 1 < names.length, ∀ expr t,
      Ok (parseExpressionValue P (fuel + 1)) ⟨pos, world⟩ expr t ↔
        MemberAt P fuel clazz names[k + 1] ⟨pos + 2 * (k + 2) + 1, world'⟩ expr t) ∧
  (∀ k clazz world', askPrefixes P world token.string names = (some (k, clazz), world') →
    k + 1 = names.length → (parseExpressionValue P (fuel + 1)).Fails ⟨pos, world⟩) ∧
  ∀ name t, Ok (parseQualifier P fuel token.string) ⟨pos + 2, world⟩ name t →
    t.pos ≤ pos + 2 * names.length + 1

/-- No prefix names a class. -/
theorem NameRun.noClass (h : NameRun P pos token names) (hfuel : names.length ≤ fuel)
    (hask : askPrefixes P world token.string names = (none, world')) :
    Ok (parseExpressionValue P (fuel + 1)) ⟨pos, world⟩ (.var .unknown 0 token.string)
      ⟨pos + 1, world'⟩ := by
  obtain ⟨part, rest, dot, toks, -, -, hdot, hahead, -⟩ := h.qualifier
  show parseExpressionValue P (fuel + 1) ⟨pos, world⟩ = _
  rw [parseExpressionValue_run h, (parseQualifier_noClass h hfuel hask).run]
  exact parseMember_ok.mpr (.var hahead.tail.head (by rw [hdot]; decide) (by rw [hdot]; decide))

/-- A prefix in front of the last name names a class. -/
theorem NameRun.member (h : NameRun P pos token names) (hfuel : names.length ≤ fuel)
    (hask : askPrefixes P world token.string names = (some (k, clazz), world'))
    (hk : k + 1 < names.length) :
    Ok (parseQualifier P fuel token.string) ⟨pos + 2, world⟩ (clazz, names[k + 1])
      ⟨pos + 2 * (k + 2) + 1, world'⟩ := by
  obtain ⟨toks, hahead, hnames⟩ := h.ahead
  obtain ⟨dot, part, rest, hahead', hpart, -⟩ := hnames.dot hahead.tail hk
  have hdot : Ahead P (pos + 3 + 2 * k) (dot :: part :: rest) := by
    convert hahead' using 1
    omega
  show parseQualifier P fuel token.string ⟨pos + 2, world⟩ = _
  rw [parseQualifier_class h hfuel hask, (nextToken_ok hdot).run, (nextToken_ok hdot.tail).run, hpart]
  have hpos : pos + 3 + 2 * k + 1 + 1 = pos + 2 * (k + 2) + 1 := by omega
  rw [hpos]
  rfl

/-- The whole run names a class: two tokens behind it are taken for a dot and a name, where there are
    two. -/
theorem NameRun.last (h : NameRun P pos token names) (hfuel : names.length ≤ fuel)
    (hask : askPrefixes P world token.string names = (some (k, clazz), world'))
    (hk : k + 1 = names.length) :
    parseExpressionValue P (fuel + 1) ⟨pos, world⟩ = none ∨
      ∃ name t, Ok (parseQualifier P fuel token.string) ⟨pos + 2, world⟩ name t ∧
        t.pos = pos + 2 * names.length + 3 := by
  have hclass := parseQualifier_class h hfuel hask
  cases hdot : P.tokens[pos + 3 + 2 * k]? with
  | none =>
    left
    rw [parseExpressionValue_run h]
    refine Attempt.bind_none ?_
    rw [hclass]
    refine Attempt.bind_none ?_
    simp [nextToken, hdot]
  | some dot =>
    have hfirst : Ok (nextToken P) ⟨pos + 3 + 2 * k, world'⟩ dot ⟨pos + 3 + 2 * k + 1, world'⟩ := by
      show nextToken P _ = _
      simp [nextToken, hdot]
    cases hname : P.tokens[pos + 3 + 2 * k + 1]? with
    | none =>
      left
      rw [parseExpressionValue_run h]
      refine Attempt.bind_none ?_
      rw [hclass, hfirst.run]
      refine Attempt.bind_none ?_
      simp [nextToken, hname]
    | some name =>
      right
      refine ⟨(clazz, name.string), ⟨pos + 3 + 2 * k + 2, world'⟩, ?_, by simp only; omega⟩
      have hsecond : Ok (nextToken P) ⟨pos + 3 + 2 * k + 1, world'⟩ name
          ⟨pos + 3 + 2 * k + 2, world'⟩ := by
        show nextToken P _ = _
        simp [nextToken, hname]
      show parseQualifier P fuel token.string ⟨pos + 2, world⟩ = _
      rw [hclass, hfirst.run, hsecond.run]
      rfl

/-- A run is read as it should be unless the whole of it is the smallest prefix that names a class. -/
theorem readsRun_iff (h : NameRun P pos token names) (hfuel : names.length ≤ fuel) :
    ReadsRun P fuel pos world token names ↔
      ∀ k clazz world', askPrefixes P world token.string names = (some (k, clazz), world') →
        k + 1 ≠ names.length := by
  constructor
  · rintro ⟨-, -, hfails, hinside⟩ k clazz world' hask hk
    rcases h.last hfuel hask hk with hnone | ⟨name, t, hok, hpos⟩
    · obtain ⟨t, ht⟩ := hfails k clazz world' hask hk
      cases hnone.symm.trans ht
    · have hle := hinside name t hok
      omega
  · intro hnot
    refine ⟨fun world' hask => h.noClass hfuel hask, fun k clazz world' hask hk expr t => ?_,
      fun k clazz world' hask hk => absurd hk (hnot k clazz world' hask), fun name t hok => ?_⟩
    · rw [← parseMember_ok]
      unfold Ok
      rw [parseExpressionValue_run h, (h.member hfuel hask hk).run]
    · rcases hask : askPrefixes P world token.string names with ⟨_ | ⟨k, clazz⟩, world'⟩
      · obtain ⟨-, rfl⟩ := hok.unique (parseQualifier_noClass h hfuel hask)
        simp only
        omega
      · have hlt := (askPrefixes_found hask).2
        have hne := hnot k clazz world' hask
        obtain ⟨-, rfl⟩ := hok.unique (h.member hfuel hask (by omega))
        simp only
        omega

/-- A parser that knows the class `demo.Log`. -/
def logParser (tokens : List Token) : ParserEnv Unit :=
  { plainParser tokens with findClass := fun _ name => (if name = "demo.Log" then 1 else 0, ()) }

def nameToken (name : String) : Token := ⟨.tokIdentifier, 1, name, 0, 0⟩

def plainToken (type : TokenType) : Token := ⟨type, 1, "", 0, 0⟩

/-- `demo.Log.level; count = 1`. -/
def levelTokens : List Token :=
  [nameToken "demo", plainToken .tokDot, nameToken "Log", plainToken .tokDot, nameToken "level",
    plainToken .tokSemicolon, nameToken "count", plainToken .tokAssign]

theorem levelTokens_readsRun :
    ReadsRun (logParser levelTokens) 2 0 () (nameToken "demo") ["Log", "level"] := by
  have hrun : NameRun (logParser levelTokens) 0 (nameToken "demo") ["Log", "level"] := by
    refine ⟨rfl, rfl, by simp, _, rfl, ?_⟩
    exact ⟨_, _, _, rfl, rfl, rfl, rfl, _, _, _, rfl, rfl, rfl, rfl, _, _, rfl, by decide⟩
  refine (readsRun_iff hrun le_rfl).mpr (fun k clazz world' hask => ?_)
  have hfound : askPrefixes (logParser levelTokens) () "demo" ["Log", "level"] =
      (some (0, 1), ()) := by decide
  obtain ⟨hk, -⟩ := Prod.mk.inj (hfound.symm.trans hask)
  obtain ⟨rfl, -⟩ := Prod.mk.inj (Option.some.inj hk)
  decide

/-- `demo.Log; count = 1`. -/
def logTokens : List Token :=
  [nameToken "demo", plainToken .tokDot, nameToken "Log", plainToken .tokSemicolon,
    nameToken "count", plainToken .tokAssign]

/-- The class alone is the variable `count` of the class, and the semicolon is gone. -/
theorem logTokens_readsOn :
    NameRun (logParser logTokens) 0 (nameToken "demo") ["Log"] ∧
      askPrefixes (logParser logTokens) () "demo" ["Log"] = (some (0, 1), ()) ∧
      Ok (parseExpressionValue (logParser logTokens) 2) ⟨0, ()⟩ (.var .unknown 1 "count") ⟨5, ()⟩ ∧
      ¬ReadsRun (logParser logTokens) 1 0 () (nameToken "demo") ["Log"] := by
  have hask : askPrefixes (logParser logTokens) () "demo" ["Log"] = (some (0, 1), ()) := by decide
  have hvar : Ok (parseExpressionValue (logParser logTokens) 2) ⟨0, ()⟩ (.var .unknown 1 "count")
      ⟨5, ()⟩ := rfl
  refine ⟨⟨rfl, rfl, by simp, _, rfl, ?_⟩, hask, hvar, fun h => ?_⟩
  · exact ⟨_, _, _, rfl, rfl, rfl, rfl, _, _, rfl, by decide⟩
  · obtain ⟨t, ht⟩ := h.2.2.1 0 1 () hask rfl
    cases hvar.symm.trans ht

end B0rk
