import B0rk.Parser.Proofs.Steps

set_option autoImplicit false

/-! # The parser and the runtime

The parser works on the runtime only by looking for classes and by making functions. Over two runtimes
that answer alike it therefore does the same. -/

namespace B0rk

open Attempt

variable {World World' : Type} {good : World → Prop} {R : World → World' → Prop}
  {P : ParserEnv World} {Q : ParserEnv World'}

/-- Two parsers of the same tokens. Over related runtimes they are given the same, and the runtimes
    stay related, as long as that of the first one is good. -/
structure ParserEnv.Follows (good : World → Prop) (R : World → World' → Prop) (P : ParserEnv World)
    (Q : ParserEnv World') : Prop where
  tokens : P.tokens = Q.tokens
  imports : P.imports = Q.imports
  addDouble : P.addDouble = Q.addDouble
  mulDouble : P.mulDouble = Q.mulDouble
  backFind : ∀ w name, good (P.findClass w name).2 → good w
  backNew : ∀ w, good (P.newFunction w).2 → good w
  findClass : ∀ w w' name, R w w' → good (P.findClass w name).2 →
    (P.findClass w name).1 = (Q.findClass w' name).1 ∧
      R (P.findClass w name).2 (Q.findClass w' name).2
  newFunction : ∀ w w', R w w' → good (P.newFunction w).2 →
    (P.newFunction w).1 = (Q.newFunction w').1 ∧ R (P.newFunction w).2 (Q.newFunction w').2

theorem ParserEnv.Follows.eq (P : ParserEnv World) : P.Follows (fun _ => True) Eq P where
  tokens := rfl
  imports := rfl
  addDouble := rfl
  mulDouble := rfl
  backFind _ _ _ := trivial
  backNew _ _ := trivial
  findClass := by
    rintro w _ name rfl -
    exact ⟨rfl, rfl⟩
  newFunction := by
    rintro w _ rfl -
    exact ⟨rfl, rfl⟩

/-- At the same token, over related runtimes. -/
def InStep (R : World → World' → Prop) (s : ParserState World) (t : ParserState World') : Prop :=
  s.pos = t.pos ∧ R s.world t.world

/-- A property of the runtime, taken of the state of a parser. -/
def Over (good : World → Prop) (s : ParserState World) : Prop := good s.world

/-- The second parser keeps in step with the first one. -/
abbrev Parse.Follows {α : Type} (good : World → Prop) (R : World → World' → Prop) (x : Parse World α)
    (y : Parse World' α) : Prop := Attempt.Follows (Over good) (InStep R) x y

namespace ParserEnv.Follows

variable (h : P.Follows good R Q)

include h

/-! ## Reading tokens -/

theorem nextToken : Parse.Follows good R (nextToken P) (nextToken Q) where
  back s a s' hrun hgood := by
    unfold B0rk.nextToken at hrun
    split at hrun
    · cases hrun
    · obtain ⟨-, rfl⟩ := Prod.mk.inj (Option.some.inj hrun)
      exact hgood
  run := by
    rintro ⟨pos, w⟩ ⟨pos', w'⟩ ⟨hpos, hR⟩ a s' hrun -
    obtain rfl : pos = pos' := hpos
    unfold B0rk.nextToken at hrun ⊢
    rw [h.tokens] at hrun
    cases htoken : Q.tokens[pos]? with
    | none =>
      rw [htoken] at hrun
      cases hrun
    | some token =>
      rw [htoken] at hrun
      obtain ⟨rfl, rfl⟩ := Prod.mk.inj (Option.some.inj hrun)
      exact ⟨_, rfl, rfl, hR⟩

theorem moreTokens : Parse.Follows good R (moreTokens P) (moreTokens Q) := by
  refine .read fun s t hR => ?_
  rw [h.tokens, hR.1]

omit h in
theorem rewind (count : ℕ) :
    Parse.Follows good R (rewind count) (rewind count) :=
  .modify (fun _ hgood => hgood) fun _ _ hR => ⟨congrArg (· - count) hR.1, hR.2⟩

theorem expect (type : TokenType) : Parse.Follows good R (expect P type) (expect Q type) :=
  .bind h.nextToken fun token => .ite (.pure token) .fail

theorem findClass' (name : String) :
    Parse.Follows good R (B0rk.findClass P name) (B0rk.findClass Q name) where
  back s a s' hrun hgood := by
    obtain ⟨-, rfl⟩ := Prod.mk.inj (Option.some.inj hrun)
    exact h.backFind s.world name hgood
  run := by
    rintro ⟨pos, w⟩ ⟨pos', w'⟩ ⟨hpos, hR⟩ a s' hrun hgood
    obtain ⟨rfl, rfl⟩ := Prod.mk.inj (Option.some.inj hrun)
    obtain ⟨hclazz, hR'⟩ := h.findClass w w' name hR hgood
    exact ⟨⟨pos', (Q.findClass w' name).2⟩, by rw [hclazz]; rfl, hpos, hR'⟩

theorem newScriptFunction :
    Parse.Follows good R (newScriptFunction P) (newScriptFunction Q) where
  back s a s' hrun hgood := by
    obtain ⟨-, rfl⟩ := Prod.mk.inj (Option.some.inj hrun)
    exact h.backNew s.world hgood
  run := by
    rintro ⟨pos, w⟩ ⟨pos', w'⟩ ⟨hpos, hR⟩ a s' hrun hgood
    obtain ⟨rfl, rfl⟩ := Prod.mk.inj (Option.some.inj hrun)
    obtain ⟨haddress, hR'⟩ := h.newFunction w w' hR hgood
    exact ⟨⟨pos', (Q.newFunction w').2⟩, by rw [haddress]; rfl, hpos, hR'⟩

theorem parseIdentifierRest (fuel : ℕ) (id : List String) :
    Parse.Follows good R (parseIdentifierRest P fuel id) (parseIdentifierRest Q fuel id) := by
  induction fuel generalizing id with
  | zero => exact .undefined
  | succ fuel ih =>
    refine .bind h.moreTokens fun more => .ite (.pure id) (.bind h.nextToken fun token => ?_)
    refine .ite (.bind (rewind 1) fun _ => .pure id) ?_
    exact .bind (h.expect .tokIdentifier) fun token => ih _

theorem parseIdentifier (fuel : ℕ) :
    Parse.Follows good R (parseIdentifier P fuel) (parseIdentifier Q fuel) :=
  .bind (h.expect .tokIdentifier) fun _ => h.parseIdentifierRest fuel _

theorem parseListRest (type : TokenType) (fuel : ℕ) (list : List String) :
    Parse.Follows good R (parseListRest P type fuel list) (parseListRest Q type fuel list) := by
  induction fuel generalizing list with
  | zero => exact .undefined
  | succ fuel ih =>
    refine .bind h.moreTokens fun more => .ite (.pure list) (.bind h.nextToken fun token => ?_)
    refine .ite (.pure list) (.ite (.bind h.nextToken fun separator => ?_) .fail)
    exact .ite (.pure _) (.ite (ih _) .fail)

theorem parseList (fuel : ℕ) (type : TokenType) :
    Parse.Follows good R (parseList P fuel type) (parseList Q fuel type) :=
  .bind (h.expect .tokBracketLeft) fun _ => h.parseListRest type fuel []

theorem probeClass (fuel : ℕ) (clazzname : String) (token : Token) (count : ℕ) :
    Parse.Follows good R (probeClass P fuel clazzname token count)
      (probeClass Q fuel clazzname token count) := by
  induction fuel generalizing clazzname token count with
  | zero => exact .undefined
  | succ fuel ih =>
    refine .ite (.pure _) (.bind (h.findClass' _) fun clazz => .ite (.pure _) ?_)
    refine .bind h.nextToken fun token => .ite (.pure _) ?_
    exact .bind h.nextToken fun token => ih _ _ _

theorem parseQualifier (fuel : ℕ) (id : String) :
    Parse.Follows good R (parseQualifier P fuel id) (parseQualifier Q fuel id) := by
  refine .bind h.nextToken fun token => .bind ?_ fun (clazz, count) => ?_
  · rw [h.imports]
    split
    · refine .bind (h.findClass' _) fun clazz => .ite .fail ?_
      exact .bind (rewind 2) fun _ => .pure _
    · exact h.probeClass fuel id token 2
  · refine .ite (.bind h.nextToken fun _ => .bind h.nextToken fun token => .pure _) ?_
    exact .bind (rewind count) fun _ => .pure _

/-! ## Building a tree -/

theorem foldLiterals (op : OpType) (left right : Expression) :
    foldLiterals P op left right = foldLiterals Q op left right := by
  unfold B0rk.foldLiterals
  rw [h.addDouble, h.mulDouble]

theorem buildOperation (desc : OpDesc) (left right : Option Expression) :
    buildOperation P desc left right = buildOperation Q desc left right := by
  unfold B0rk.buildOperation
  simp only [h.foldLiterals]

theorem buildTree (n : ℕ) (queue : List QueueEntry) : buildTree P n queue = buildTree Q n queue := by
  induction n generalizing queue with
  | zero => rfl
  | succ n ih =>
    rcases queue with _ | ⟨_ | _ | _, queue⟩
    · rfl
    · rfl
    · unfold B0rk.buildTree
      simp only [ih, h.buildOperation]
    · rfl

/-! ## Expressions, statements and functions -/

section

variable {fuel : ℕ} (hcalls : ∀ step : ParseStep, step.fuel < fuel + 1 →
  Parse.Follows good R (step.run P) (step.run Q))

/-- Over related runtimes, with the same calls, each of which has less fuel than the routine. -/
abbrev RoutineFollows {α : Type} (good : World → Prop) (R : World → World' → Prop)
    (P : ParserEnv World) (Q : ParserEnv World') (fuel : ℕ) (p : ParseRoutine World α)
    (q : ParseRoutine World' α) : Prop :=
  Routine.Follows (fun step : ParseStep => step.fuel < fuel) (Over good) (InStep R) (ParseStep.run P)
    (ParseStep.run Q) p q

include hcalls

omit h in
theorem call {step : ParseStep} (hlt : step.fuel < fuel + 1 := by exact Nat.lt_succ_self _) :
    RoutineFollows good R P Q (fuel + 1) (.call step) (.call step) := Routine.Follows.call hcalls hlt

omit h in
theorem attempt {step : ParseStep} (hlt : step.fuel < fuel + 1 := by exact Nat.lt_succ_self _) :
    RoutineFollows good R P Q (fuel + 1) (.attempt step) (.attempt step) :=
  Routine.Follows.attempt hcalls hlt

omit h hcalls in
theorem read {α : Type} {x : Parse World α} {y : Parse World' α}
    (hxy : Parse.Follows good R x y) : RoutineFollows good R P Q (fuel + 1) (.read x) (.read y) :=
  Routine.Follows.lift hxy

theorem loopRoutine (endToken : TokenType) (queue : List QueueEntry)
    (operators : List (Option OpDesc)) (brackets : ℕ) : RoutineFollows good R P Q (fuel + 1)
      (loopRoutine P fuel endToken queue operators brackets)
      (loopRoutine Q fuel endToken queue operators brackets) := by
  refine .bind (.lift h.nextToken) fun token => .ite (.bind (read (rewind 1)) fun _ => .pure _) ?_
  split
  · exact call hcalls
  · refine .ite (call hcalls) (.ite ?_ ?_)
    · split
      · exact .fail
      · exact call hcalls
    · exact .bind (read (rewind 1)) fun _ => .bind (call hcalls) fun _ => call hcalls

theorem expressionRoutine (endToken : TokenType) : RoutineFollows good R P Q (fuel + 1)
    (expressionRoutine P fuel endToken) (expressionRoutine Q fuel endToken) := by
  unfold B0rk.expressionRoutine
  refine .bind (call hcalls) fun (queue, operators) => ?_
  simp only [h.buildTree]
  split
  · exact .fail
  · exact .pure _

theorem valueRoutine : RoutineFollows good R P Q (fuel + 1) (valueRoutine P fuel)
    (valueRoutine Q fuel) := by
  unfold B0rk.valueRoutine
  refine .bind (.lift h.nextToken) fun token => ?_
  split
  · refine .bind (call hcalls) fun id => .bind (call hcalls) fun params => ?_
    unfold importedIdentifier
    rw [h.imports]
    exact .pure _
  · refine .bind (.lift h.nextToken) fun next => .bind (.lift ?_) fun (clazz, id) => ?_
    · exact .ite (h.parseQualifier fuel _) (.bind (rewind 1) fun _ => .pure _)
    · refine .bind (.lift h.nextToken) fun next => .ite ?_ (.ite ?_ ?_)
      · exact .bind (read (rewind 1)) fun _ => .bind (call hcalls) fun params => .pure _
      · refine .bind (call hcalls) fun index => ?_
        exact .bind (.lift (h.expect _)) fun _ => .pure _
      · exact .bind (read (rewind 1)) fun _ => .pure _
  · exact .bind (attempt hcalls) fun function => .pure _
  · exact .ite (.pure _) .fail
  · exact .pure _
  · exact .pure _
  · exact .pure _
  · exact .fail

theorem listRestRoutine (exprs : List Expression) : RoutineFollows good R P Q (fuel + 1)
    (listRestRoutine P fuel exprs) (listRestRoutine Q fuel exprs) := by
  refine .bind (.lift h.moreTokens) fun more => .ite (.pure _) (.bind (.lift h.nextToken) fun _ => ?_)
  refine .ite (.pure _) (.bind (read (rewind 1)) fun _ => .bind (call hcalls) fun expr => ?_)
  exact .bind (.lift h.nextToken) fun token => .ite (.pure _) (.ite (call hcalls) .fail)

theorem functionRoutine : RoutineFollows good R P Q (fuel + 1) (functionRoutine P fuel)
    (functionRoutine Q fuel) := by
  refine .bind (call hcalls) fun args => .bind (.lift h.newScriptFunction) fun address => ?_
  refine .bind (.lift h.nextToken) fun token => ?_
  refine .bind (.lift (.ite h.nextToken (.pure _))) fun token => .ite .fail ?_
  exact .bind (call hcalls) fun code => .pure _

theorem blockRoutine (code : CodeBlock) : RoutineFollows good R P Q (fuel + 1) (blockRoutine P fuel code)
    (blockRoutine Q fuel code) := by
  refine .bind (.lift h.moreTokens) fun more => .ite (.pure _) ?_
  exact .bind (call hcalls) fun (code, finished) => .ite (.pure _) (call hcalls)

theorem statementRoutine (code : CodeBlock) : RoutineFollows good R P Q (fuel + 1)
    (statementRoutine P fuel code) (statementRoutine Q fuel code) := by
  have hexpect (type : TokenType) : RoutineFollows good R P Q (fuel + 1) (liftM (B0rk.expect P type))
      (liftM (B0rk.expect Q type)) := .lift (h.expect type)
  unfold B0rk.statementRoutine
  refine .bind (.lift h.nextToken) fun token => ?_
  split
  · exact .pure _
  · refine .bind (hexpect _) fun token => .bind (.lift h.nextToken) fun next => ?_
    refine .ite (.bind (read (rewind 2)) fun _ => ?_) (.ite (.pure _) .fail)
    exact .bind (call hcalls) fun expr => .bind (hexpect _) fun _ => .pure _
  · refine .bind (hexpect _) fun _ => .bind (call hcalls) fun test => ?_
    refine .bind (hexpect _) fun _ => .bind (hexpect _) fun _ => ?_
    refine .bind (call hcalls) fun trueBlock => .bind (.lift h.nextToken) fun next => ?_
    refine .ite (.bind (.lift h.nextToken) fun next => .bind ?_ fun falseBlock => .pure _) ?_
    · refine .ite (.bind (read (rewind 1)) fun _ => ?_) (.ite (call hcalls) .fail)
      exact .bind (call hcalls) fun (elseIf, _) => .pure _
    · exact .bind (read (rewind 1)) fun _ => .pure _
  · refine .bind (hexpect _) fun _ => .bind (call hcalls) fun init => ?_
    refine .bind (hexpect _) fun _ => .bind (call hcalls) fun test => ?_
    refine .bind (hexpect _) fun _ => .bind (call hcalls) fun inc => ?_
    refine .bind (hexpect _) fun _ => .bind (hexpect _) fun _ => ?_
    exact .bind (call hcalls) fun body => .pure _
  · refine .bind (hexpect _) fun _ => .bind (call hcalls) fun test => ?_
    refine .bind (hexpect _) fun _ => .bind (hexpect _) fun _ => ?_
    exact .bind (call hcalls) fun body => .pure _
  · refine .bind (.lift h.nextToken) fun next => .ite (.pure _) (.bind (read (rewind 1)) fun _ => ?_)
    exact .bind (attempt hcalls) fun value => .bind (hexpect _) fun _ => .pure _
  · refine .bind (hexpect _) fun _ => .bind (call hcalls) fun tryBlock => ?_
    refine .bind (hexpect _) fun _ => .bind (hexpect _) fun _ => .bind (hexpect _) fun var => ?_
    refine .bind (hexpect _) fun _ => .bind (hexpect _) fun _ => ?_
    exact .bind (call hcalls) fun catchBlock => .pure _
  · exact .bind (call hcalls) fun value => .bind (hexpect _) fun _ => .pure _
  · refine .bind (read (rewind 1)) fun _ => .bind (call hcalls) fun expr => ?_
    exact .bind (hexpect _) fun _ => .pure _

end

/-- A parsing function does the same over related runtimes if those that it calls do. -/
theorem routine (step : ParseStep) (hcalls : ∀ step' : ParseStep, step'.fuel < step.fuel →
    Parse.Follows good R (step'.run P) (step'.run Q)) :
    RoutineFollows good R P Q step.fuel (step.routine P) (step.routine Q) := by
  cases step with
  | identifier fuel => exact .lift (h.parseIdentifier fuel)
  | list fuel => exact .lift (h.parseList fuel _)
  | loop fuel =>
    cases fuel with
    | zero => exact .undefined
    | succ fuel => exact h.loopRoutine hcalls _ _ _ _
  | expression fuel =>
    cases fuel with
    | zero => exact .undefined
    | succ fuel => exact h.expressionRoutine hcalls _
  | value fuel =>
    cases fuel with
    | zero => exact .undefined
    | succ fuel => exact h.valueRoutine hcalls
  | listRest fuel =>
    cases fuel with
    | zero => exact .undefined
    | succ fuel => exact h.listRestRoutine hcalls _
  | expressionList fuel =>
    cases fuel with
    | zero => exact .undefined
    | succ fuel =>
      exact .bind (.lift (h.expect _)) fun _ => call hcalls
  | function fuel =>
    cases fuel with
    | zero => exact .undefined
    | succ fuel => exact h.functionRoutine hcalls
  | block fuel =>
    cases fuel with
    | zero => exact .undefined
    | succ fuel => exact h.blockRoutine hcalls _
  | statement fuel =>
    cases fuel with
    | zero => exact .undefined
    | succ fuel => exact h.statementRoutine hcalls _

/-- Over related runtimes all parsing functions do the same. -/
theorem step (step : ParseStep) : Parse.Follows good R (step.run P) (step.run Q) := by
  induction hn : step.fuel using Nat.strong_induction_on generalizing step with
  | _ n ih =>
    have hroutine := (h.routine step fun step' hlt => ih _ (hn ▸ hlt) step' rfl).interp
    rwa [step.routine_does, step.routine_does] at hroutine

/-- They make the same calls. -/
theorem calls {step : ParseStep} {s : ParserState World} {t : ParserState World'} (hR : InStep R s t)
    (hcomes : (step.run P).Comes (Over good) s) :
    List.Forall₂ (fun a b => (a.1.run P).Comes (Over good) a.2 ∧ a.1 = b.1 ∧ InStep R a.2 b.2)
      (step.calls P s) (step.calls Q t) := by
  have hroutine := h.routine step fun step' _ => h.step step'
  have hcalls := hroutine.calls s t hR (by rwa [step.routine_does])
  exact List.rel_map (fun _ _ hab => ⟨hab.2.2.2, hab.2.1, hab.2.2.1⟩) hcalls

/-- A function is parsed alike over related runtimes. -/
theorem parseFunction (fuel : ℕ) :
    Parse.Follows good R (parseFunction P fuel) (parseFunction Q fuel) :=
  h.step (.function fuel)

end ParserEnv.Follows

/-! ## What the parser does to the runtime -/

/-- The same runtime, of which something holds. -/
def Kept (G : World → Prop) (w w' : World) : Prop := w = w' ∧ G w

/-- A relation between runtimes, taken between the states of a parser. -/
def OnWorld (Q : World → World → Prop) (s t : ParserState World) : Prop := Q s.world t.world

variable {Q : World → World → Prop} {α : Type} {x : Parse World α}

instance [Std.Refl Q] : Std.Refl (OnWorld Q) := ⟨fun s => refl s.world⟩

instance [IsTrans World Q] : IsTrans (ParserState World) (OnWorld Q) :=
  ⟨fun _ _ _ h h' => IsTrans.trans (r := Q) _ _ _ h h'⟩

/-- What keeps all that is so related to the runtime changes the runtime in this way. -/
theorem changes_of_kept [Std.Refl Q] (h : ∀ w₀, Parse.Follows good (Kept (Q w₀)) x x)
    (hgood : ∀ w, good w) : Changes (OnWorld Q) x := by
  intro s a t hrun
  obtain ⟨t', hrun', -, -, hQ⟩ :=
    (h s.world).run s s ⟨rfl, rfl, refl s.world⟩ a t hrun (hgood t.world)
  exact hQ

/-- What holds of the runtime still does behind changes of a kind that it survives. -/
theorem kept_of_changes {G : World → Prop} (hback : Changes (OnWorld fun w w' => good w' → good w) x)
    (h : Changes (OnWorld Q) x) (hG : ∀ {w w'}, Q w w' → G w → G w') :
    Parse.Follows good (Kept G) x x where
  back s a t hrun := hback s a t hrun
  run := by
    rintro ⟨pos, w⟩ ⟨pos', w'⟩ ⟨hpos, hw, hkept⟩ a t hrun -
    obtain rfl : pos = pos' := hpos
    obtain rfl : w = w' := hw
    exact ⟨t, hrun, rfl, rfl, hG (h _ a t hrun) hkept⟩

/-- Where something holds of the runtime that is kept, the second computation does what the first does. -/
theorem Kept.run {G : World → Prop} {y : Parse World α} (h : Parse.Follows good (Kept G) x y)
    {s t : ParserState World} (hs : G s.world) {a : Option α} (hrun : x s = some (a, t))
    (hgood : good t.world) : y s = some (a, t) ∧ G t.world := by
  obtain ⟨⟨pos, w⟩, hrun', hpos, hworld, hG⟩ := h.run s s ⟨rfl, rfl, hs⟩ a t hrun hgood
  obtain ⟨pos', w'⟩ := t
  obtain rfl : pos' = pos := hpos
  obtain rfl : w' = w := hworld
  exact ⟨hrun', hG⟩

/-- Two computations that keep in step wherever something holds of the runtime. -/
theorem Kept.eq {G : World → Prop} {y : Parse World α}
    (h : Parse.Follows (fun _ => True) (Kept G) x y) (h' : Parse.Follows (fun _ => True) (Kept G) y x)
    {s : ParserState World} (hs : G s.world) : x s = y s := by
  rcases hx : x s with _ | ⟨a, t⟩
  · rcases hy : y s with _ | ⟨b, u⟩
    · rfl
    · cases hx.symm.trans (Kept.run h' hs hy trivial).1
  · exact (Kept.run h hs hx trivial).1.symm

end B0rk
