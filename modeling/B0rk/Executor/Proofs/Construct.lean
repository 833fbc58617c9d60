import B0rk.Executor.Run

set_option autoImplicit false

/-! # The stack around a construction

`callConstructor` takes one value off the stack after every constructor, whether or not it left a
result there, and hands the arguments to the constructor of the class itself, if there is one. The
number of entries that `newObject` removes is therefore the number of constructors that ended with a
pending exception, and the arguments only if a constructor was found: `callConstructor_stack`. -/

namespace B0rk

variable {W : Type}

/-! ## The calling convention -/

/-- A successful call of `function` replaces its arguments by one result, or removes them when it
    leaves an exception pending. -/
def KeepsConvention (exec : Execute W) (function : Word) : Prop :=
  ∀ (obj : Word) (n : ℕ) (ctx ctx' : Context W), exec function obj n ctx = some (true, ctx') →
    n ≤ ctx.stack.length ∧
      ((ctx'.exception = true ∧ ctx'.stack = ctx.stack.drop n) ∨
        (ctx'.exception = false ∧ ∃ result, ctx'.stack = result :: ctx.stack.drop n))

theorem Context.popArgs_some {n : ℕ} {ctx ctx' : Context W} {args : List Value}
    (h : ctx.popArgs n = some (args, ctx')) :
    n ≤ ctx.stack.length ∧ ctx' = { ctx with stack := ctx.stack.drop n } := by
  induction n generalizing ctx args with
  | zero =>
      obtain rfl := (Prod.mk.inj (Option.some.inj h)).2
      exact ⟨Nat.zero_le _, rfl⟩
  | succ n ih =>
      simp only [popArgs, Option.bind_eq_bind, Option.bind_eq_some_iff] at h
      obtain ⟨⟨v, ctx₁⟩, hpop, ⟨vs, ctx₂⟩, hargs, h⟩ := h
      obtain rfl := (Prod.mk.inj (Option.some.inj h)).2
      unfold Context.pop at hpop
      split at hpop
      · cases hpop
      · next w stack hstack =>
          obtain rfl := (Prod.mk.inj (Option.some.inj hpop)).2
          obtain ⟨hle, rfl⟩ := ih hargs
          rw [hstack]
          exact ⟨Nat.succ_le_succ hle, rfl⟩

/-- A native function that leaves the stack alone keeps the convention. -/
theorem nativeExecute_keepsConvention {E : Env W} {function : Word}
    {native : Word → ℕ → List Value → Context W → Option (Bool × Context W × Value)}
    (hfun : E.function function = some (.native native))
    (hstack : ∀ obj n args ctx res ctx' v, native obj n args ctx = some (res, ctx', v) →
      ctx'.stack = ctx.stack) (fuel : ℕ) : KeepsConvention (execute E fuel) function := by
  intro obj n ctx ctx' h
  cases fuel with
  | zero => simp [execute] at h
  | succ fuel =>
      simp only [execute, hfun, nativeExecute, Option.bind_eq_bind, Option.bind_eq_some_iff] at h
      obtain ⟨⟨args, ctx₀⟩, hargs, ⟨res, ctx₁, v⟩, hrun, h⟩ := h
      obtain ⟨hle, rfl⟩ := Context.popArgs_some hargs
      have hrest := hstack _ _ _ _ _ _ _ hrun
      refine ⟨hle, ?_⟩
      cases res with
      | false => simp at h
      | true =>
          by_cases hexc : ctx₁.exception = true
          · simp only [hexc, Bool.not_true, Bool.false_eq_true, if_false, if_true] at h
            obtain rfl := (Prod.mk.inj (Option.some.inj h)).2
            exact Or.inl ⟨hexc, hrest⟩
          · simp only [hexc, Bool.not_true, Bool.false_eq_true, if_false] at h
            obtain rfl := (Prod.mk.inj (Option.some.inj h)).2
            exact Or.inr ⟨by simpa [Context.push] using hexc, v, by simp [Context.push, hrest]⟩

/-! ## The outcomes of the constructors -/

/-- The superclass part of `callConstructor`. -/
def callSuperConstructor (exec : Execute W) (superClasses : ClassChain) (obj : Word)
    (ctx : Context W) : Option (Bool × Context W) :=
  match superClasses with
  | [] => some (true, ctx)
  | _ :: _ => callConstructor exec superClasses obj 0 ctx

theorem callConstructor_cons (exec : Execute W) (c : Class) (superClasses : ClassChain) (obj : Word)
    (n : ℕ) (ctx : Context W) :
    callConstructor exec (c :: superClasses) obj n ctx =
      (callSuperConstructor exec superClasses obj ctx).bind (fun r =>
        if r.1 then callOwnConstructor exec (c :: superClasses) obj n r.2 else some (false, r.2)) := by
  cases superClasses <;> rfl

/-- Whether an exception was pending when the constructor of the class itself returned, if one was
    called. -/
def ownOutcome (exec : Execute W) (clazz : ClassChain) (obj : Word) (n : ℕ) (ctx : Context W) :
    List Bool :=
  match clazz.constructor with
  | none => []
  | some ctor =>
      match exec ctor obj n ctx with
      | some (true, ctx) => [ctx.exception]
      | _ => []

/-- For each constructor that `callConstructor` calls, whether an exception was pending when it
    returned. -/
def constructorOutcomes (exec : Execute W) : ClassChain → Word → ℕ → Context W → List Bool
  | [], _, _, _ => []
  | c :: superClasses, obj, n, ctx =>
      constructorOutcomes exec superClasses obj 0 ctx ++
        match callSuperConstructor exec superClasses obj ctx with
        | some (true, ctx) => ownOutcome exec (c :: superClasses) obj n ctx
        | _ => []

/-! ## The stack -/

/-- The arguments that `callConstructor` removes: all or none. -/
def ClassChain.takenArgs (clazz : ClassChain) (n : ℕ) : ℕ :=
  if clazz.constructor.isSome then n else 0

section
variable {exec : Execute W} {clazz : ClassChain} {obj : Word} {ctx ctx' : Context W} {n : ℕ}

/-- The constructor of the class itself takes its arguments, and the pop behind it either its result
    or, when it threw, the entry below. -/
theorem callOwnConstructor_stack
    (hconv : ∀ f, clazz.constructor = some f → KeepsConvention exec f)
    (h : callOwnConstructor exec clazz obj n ctx = some (true, ctx')) :
    (ownOutcome exec clazz obj n ctx).count true + clazz.takenArgs n ≤ ctx.stack.length ∧
      ctx'.stack =
        ctx.stack.drop ((ownOutcome exec clazz obj n ctx).count true + clazz.takenArgs n) := by
  unfold callOwnConstructor at h
  unfold ownOutcome ClassChain.takenArgs
  cases hctor : clazz.constructor with
  | none =>
      simp only [hctor] at h
      obtain rfl := (Prod.mk.inj (Option.some.inj h)).2
      simp
  | some f =>
      simp only [hctor, Option.bind_eq_bind, Option.bind_eq_some_iff] at h
      obtain ⟨⟨res, ctx₁⟩, hexec, h⟩ := h
      cases res with
      | false => simp at h
      | true =>
          simp only [if_true, Option.bind_eq_some_iff] at h
          obtain ⟨⟨v, ctx₂⟩, hpop, h⟩ := h
          obtain rfl := (Prod.mk.inj (Option.some.inj h)).2
          obtain ⟨hle, hend⟩ := hconv f hctor obj n ctx ctx₁ hexec
          rcases hend with ⟨hexc, hstack⟩ | ⟨hexc, result, hstack⟩
          · simp only [hexec, hexc, Option.isSome_some, if_true, List.count_singleton_self]
            cases hrest : ctx.stack.drop n with
            | nil => simp [Context.pop, hstack, hrest] at hpop
            | cons w rest =>
                have hlen : (ctx.stack.drop n).length = rest.length + 1 := by rw [hrest]; rfl
                rw [List.length_drop] at hlen
                simp only [Context.pop, hstack, hrest, Option.some.injEq, Prod.mk.injEq] at hpop
                have hdrop : ctx.stack.drop (1 + n) = (ctx.stack.drop n).drop 1 := by
                  rw [List.drop_drop, Nat.add_comm]
                rw [← hpop.2, hdrop, hrest]
                exact ⟨by omega, rfl⟩
          · simp only [Context.pop, hstack, Option.some.injEq, Prod.mk.injEq] at hpop
            simp only [hexec, hexc, Option.isSome_some, if_true]
            rw [← hpop.2]
            simpa using hle

/-- **What a construction takes off the stack.** -/
theorem callConstructor_stack (hconv : ∀ f ∈ clazz.constructors, KeepsConvention exec f)
    (h : callConstructor exec clazz obj n ctx = some (true, ctx')) :
    (constructorOutcomes exec clazz obj n ctx).count true + clazz.takenArgs n ≤ ctx.stack.length ∧
      ctx'.stack =
        ctx.stack.drop ((constructorOutcomes exec clazz obj n ctx).count true + clazz.takenArgs n) := by
  induction clazz generalizing n ctx ctx' with
  | nil => simp [callConstructor] at h
  | cons c superClasses ih =>
      rw [callConstructor_cons, Option.bind_eq_some_iff] at h
      obtain ⟨⟨res, ctx₁⟩, hsuper, h⟩ := h
      cases res with
      | false => simp at h
      | true =>
          simp only [if_true] at h
          have hsupers : ∀ f ∈ ClassChain.constructors superClasses, KeepsConvention exec f :=
            fun f hf => hconv f (List.mem_append_left _ hf)
          -- the superclasses are given no arguments
          have hbefore :
              (constructorOutcomes exec superClasses obj 0 ctx).count true ≤ ctx.stack.length ∧
                ctx₁.stack =
                  ctx.stack.drop ((constructorOutcomes exec superClasses obj 0 ctx).count true) := by
            cases superClasses with
            | nil =>
                obtain rfl := (Prod.mk.inj (Option.some.inj hsuper)).2
                simp [constructorOutcomes]
            | cons d superClasses =>
                have := ih hsupers hsuper
                simpa [ClassChain.takenArgs] using this
          obtain ⟨hle, hstack⟩ := hbefore
          have hown := callOwnConstructor_stack
            (fun f hf => hconv f (List.mem_append_right _ (by simp [hf]))) h
          rw [hstack, List.length_drop, List.drop_drop] at hown
          simp only [constructorOutcomes, hsuper, List.count_append]
          refine ⟨by omega, ?_⟩
          rw [hown.2, Nat.add_assoc]

end

/-! ## `newObject` -/

/-- The calls of constructors that a `newObject` which returns has made: for each, whether an
    exception was pending when it returned. -/
def newObjectOutcomes (E : Env W) (exec : Execute W) (clazz : Word) (n : ℕ) (ctx : Context W) :
    List Bool :=
  match E.allocateObject ctx clazz with
  | none => []
  | some (obj, world) =>
      match E.chain world clazz with
      | none => []
      | some chain => constructorOutcomes exec chain obj n { ctx with world := world }

/-- The class that `newObject` makes an object of, at the time at which it looks for the
    constructors. -/
def newObjectClass (E : Env W) (clazz : Word) (ctx : Context W) : Option ClassChain :=
  (E.allocateObject ctx clazz).bind (fun r => E.chain r.2 clazz)

theorem newObject_stack {E : Env W} {exec : Execute W} {clazz obj : Word} {n : ℕ}
    {ctx ctx' : Context W} {chain : ClassChain}
    (hclass : newObjectClass E clazz ctx = some chain)
    (hconv : ∀ f ∈ chain.constructors, KeepsConvention exec f) (hobj : obj ≠ 0)
    (h : newObject E exec clazz n ctx = some (obj, ctx')) :
    (newObjectOutcomes E exec clazz n ctx).count true + chain.takenArgs n ≤ ctx.stack.length ∧
      ctx'.stack = ctx.stack.drop
        ((newObjectOutcomes E exec clazz n ctx).count true + chain.takenArgs n) := by
  unfold newObject at h
  unfold newObjectClass at hclass
  simp only [Option.bind_eq_bind, Option.bind_eq_some_iff] at h
  obtain ⟨⟨o, world⟩, halloc, chain', hchain, ⟨res, ctx₁⟩, hctor, h⟩ := h
  rw [halloc] at hclass
  obtain rfl : chain' = chain := Option.some.inj (hchain.symm.trans hclass)
  cases res with
  | false =>
      simp only [Bool.false_eq_true, if_false, Option.some.injEq, Prod.mk.injEq] at h
      exact absurd h.1.symm hobj
  | true =>
      obtain rfl := (Prod.mk.inj (Option.some.inj h)).2
      simp only [newObjectOutcomes, halloc, hchain]
      exact callConstructor_stack hconv hctor

/-- **When a construction keeps the calling convention.** `newObject` that does not fail has removed
    exactly its arguments if and only if it found a constructor for the class and none of the
    constructors that it called ended with a pending exception, or it found none for the class and
    as many constructors of superclasses ended with a pending exception as there are arguments. -/
theorem newObject_removes_args_iff {E : Env W} {exec : Execute W} {clazz obj : Word}
    {ctx ctx' : Context W} {chain : ClassChain} {args rest : List Value}
    (hclass : newObjectClass E clazz ctx = some chain)
    (hconv : ∀ f ∈ chain.constructors, KeepsConvention exec f)
    (hstack : ctx.stack = args ++ rest) (hobj : obj ≠ 0)
    (h : newObject E exec clazz args.length ctx = some (obj, ctx')) :
    ctx'.stack = rest ↔
      (chain.constructor ≠ none ∧ true ∉ newObjectOutcomes E exec clazz args.length ctx) ∨
      (chain.constructor = none ∧
        (newObjectOutcomes E exec clazz args.length ctx).count true = args.length) := by
  obtain ⟨hle, hdrop⟩ := newObject_stack hclass hconv hobj h
  have hrest : rest = ctx.stack.drop args.length := by rw [hstack, List.drop_left]
  have hlen : args.length ≤ ctx.stack.length := by rw [hstack]; simp
  -- dropping different numbers of entries leaves stacks of different heights
  have hiff : ctx'.stack = rest ↔
      (newObjectOutcomes E exec clazz args.length ctx).count true + chain.takenArgs args.length =
        args.length := by
    rw [hdrop, hrest]
    constructor
    · intro heq
      have := congrArg List.length heq
      rw [List.length_drop, List.length_drop] at this
      omega
    · intro heq
      rw [heq]
  rw [hiff]
  cases hctor : chain.constructor with
  | none => simp [ClassChain.takenArgs, hctor]
  | some f => simp [ClassChain.takenArgs, hctor, List.count_eq_zero]

/-! ## A class without a constructor -/

/-- A world of one class, whose functions are given, and in which every object is allocated at the
    same address. -/
def oneClassEnv (clazz : ClassChain) (function : Word → Option (Function Unit)) : Env Unit where
  double := ⟨fun _ _ => 0, fun _ _ => 0, fun _ _ => 0, fun _ _ => 0, fun _ => 0, fun _ => false,
    fun _ => false⟩
  frameAddr := fun _ => 1
  getClass := fun _ _ => some 1
  chain := fun _ _ => some clazz
  getValue := fun _ _ _ => none
  setValue := fun _ _ _ _ => some ()
  getStaticField := fun _ _ _ => none
  setStaticField := fun _ _ _ _ => none
  getString := fun _ _ => none
  toString := fun _ => ""
  allocateObject := fun _ _ => some (4096, ())
  arrayLoad := fun _ _ _ => none
  arrayStore := fun _ _ _ _ => none
  newStackTrace := fun _ => 0
  functionClass := 1
  exceptionClass := 1
  function := function

/-- A class with the given methods and no fields. -/
def plainClass (name : String) (methods : List (String × Word)) : Class :=
  ⟨name, methods, 0, 0, [], 0, 0, [], []⟩

/-- A constructor that ignores its arguments and returns nothing, or throws. -/
def nativeConstructor (throws : Bool) : Function Unit :=
  .native (fun _ _ _ ctx => some (true, { ctx with exception := throws }, ⟨.void, 0⟩))

/-- A class `a.B` with the given methods, all of which are `nativeConstructor`. -/
def constructorEnv (methods : List (String × Word)) (throws : Bool) : Env Unit :=
  oneClassEnv [plainClass "a.B" methods] (fun _ => some (nativeConstructor throws))

/-- Two arguments above the caller's frame marker and one of its temporaries. -/
def constructorContext : Context Unit :=
  ⟨[Value.integer 2, Value.integer 1, Value.integer 0, ⟨.frame, 1⟩], false, Value.zero, ()⟩

theorem newObject_removes_args_iff_plain :
    ∃ ctx', newObject (constructorEnv [("B", 7)] false)
        (execute (constructorEnv [("B", 7)] false) 1) 1 2 constructorContext = some (4096, ctx') ∧
      ctx'.stack = [Value.integer 0, ⟨.frame, 1⟩] := by
  have hconv : ∀ f ∈ ClassChain.constructors [plainClass "a.B" [("B", 7)]],
      KeepsConvention (execute (constructorEnv [("B", 7)] false) 1) f := by
    intro f _
    refine nativeExecute_keepsConvention rfl (fun _ _ _ _ _ _ _ h => ?_) 1
    rw [← (Prod.mk.inj (Prod.mk.inj (Option.some.inj h)).2).1]
  have hstack : constructorContext.stack =
      [Value.integer 2, Value.integer 1] ++ [Value.integer 0, ⟨.frame, 1⟩] := rfl
  have hobj : (4096 : Word) ≠ 0 := by decide
  have hclass : newObjectClass (constructorEnv [("B", 7)] false) 1 constructorContext =
      some [plainClass "a.B" [("B", 7)]] := rfl
  obtain ⟨ctx', hnew⟩ : ∃ ctx', newObject (constructorEnv [("B", 7)] false)
      (execute (constructorEnv [("B", 7)] false) 1) 1 2 constructorContext = some (4096, ctx') :=
    ⟨_, rfl⟩
  have hiff := newObject_removes_args_iff hclass hconv hstack hobj hnew
  exact ⟨ctx', hnew, hiff.2 (Or.inl (by decide))⟩

/-- `new a.B(1, 2)` leaves the arguments of a class without a constructor on the stack, and takes
    the caller's temporary when the constructor throws. -/
theorem newObject_breaks_convention :
    (∃ ctx', newObject (constructorEnv [] false) (execute (constructorEnv [] false) 1) 1 2
        constructorContext = some (4096, ctx') ∧
      ctx'.stack = [Value.integer 2, Value.integer 1, Value.integer 0, ⟨.frame, 1⟩]) ∧
    ∃ ctx', newObject (constructorEnv [("B", 7)] true) (execute (constructorEnv [("B", 7)] true) 1)
        1 2 constructorContext = some (4096, ctx') ∧
      ctx'.exception = true ∧ ctx'.stack = [⟨.frame, 1⟩] :=
  ⟨⟨_, rfl, rfl⟩, _, rfl, rfl, rfl⟩

end B0rk
