import B0rk.Executor.Proofs.Construct

set_option autoImplicit false

/-! # Which constructors a construction runs

`callConstructor` looks for the constructor of each class with `findMethod`, which goes on to the
superclasses. So a class without a constructor of its own is given a method of a superclass that has
the name of its constructor, such as the constructor of a superclass with the same last name. -/

namespace B0rk

variable {W : Type}

/-! ## Calls -/

/-- Calls of constructors on an object, each with its number of arguments; their results are popped,
    and the first one that fails ends them. -/
def runConstructors (exec : Execute W) : List (Word × ℕ) → Word → Context W →
    Option (Bool × Context W)
  | [], _, ctx => some (true, ctx)
  | (ctor, argCount) :: calls, obj, ctx => do
      let (res, ctx) ← exec ctor obj argCount ctx
      if res then
        let (_, ctx) ← ctx.pop
        runConstructors exec calls obj ctx
      else
        some (false, ctx)

/-- One call behind others. -/
theorem runConstructors_append (exec : Execute W) (calls calls' : List (Word × ℕ)) (obj : Word)
    (ctx : Context W) :
    runConstructors exec (calls ++ calls') obj ctx =
      (runConstructors exec calls obj ctx).bind (fun r =>
        if r.1 then runConstructors exec calls' obj r.2 else some (false, r.2)) := by
  induction calls generalizing ctx with
  | nil => rfl
  | cons call calls ih =>
    obtain ⟨ctor, argCount⟩ := call
    simp only [List.cons_append, runConstructors, Option.bind_eq_bind]
    cases exec ctor obj argCount ctx with
    | none => rfl
    | some r =>
      obtain ⟨res, ctx₁⟩ := r
      cases res with
      | false => rfl
      | true =>
        simp only [if_true, Option.bind_some]
        cases ctx₁.pop with
        | none => rfl
        | some r => exact ih r.2

namespace ClassChain

/-- The calls that `callConstructor` makes, the ones for the superclasses first. -/
def foundCalls : ClassChain → ℕ → List (Word × ℕ)
  | [], _ => []
  | c :: superClasses, argCount =>
      foundCalls superClasses 0 ++
        ((ClassChain.constructor (c :: superClasses)).map (·, argCount)).toList

end ClassChain

theorem callOwnConstructor_eq (exec : Execute W) (clazz : ClassChain) (obj : Word) (argCount : ℕ)
    (ctx : Context W) :
    callOwnConstructor exec clazz obj argCount ctx =
      runConstructors exec (clazz.constructor.map (·, argCount)).toList obj ctx := by
  unfold callOwnConstructor
  cases clazz.constructor <;> rfl

/-- **What `callConstructor` calls.** -/
theorem callConstructor_eq (exec : Execute W) (c : Class) (superClasses : ClassChain) (obj : Word)
    (argCount : ℕ) (ctx : Context W) :
    callConstructor exec (c :: superClasses) obj argCount ctx =
      runConstructors exec (ClassChain.foundCalls (c :: superClasses) argCount) obj ctx := by
  induction superClasses generalizing c argCount ctx with
  | nil =>
    rw [callConstructor_cons, callSuperConstructor, Option.bind_some, if_pos rfl,
      callOwnConstructor_eq]
    rfl
  | cons d superClasses ih =>
    have hcalls : ClassChain.foundCalls (c :: d :: superClasses) argCount =
        ClassChain.foundCalls (d :: superClasses) 0 ++
          ((ClassChain.constructor (c :: d :: superClasses)).map (·, argCount)).toList := rfl
    rw [callConstructor_cons, callSuperConstructor, ih, hcalls, runConstructors_append]
    simp only [callOwnConstructor_eq]

/-! ## The classes' own constructors -/

/-- The constructor that a class itself defines. -/
def Class.ownConstructor (c : Class) : Option Word := c.methods.lookup (constructorName c.name)

namespace ClassChain

/-- The constructors that the classes themselves define, those of the superclasses first; only the
    class itself is given arguments. -/
def ownCalls : ClassChain → ℕ → List (Word × ℕ)
  | [], _ => []
  | c :: superClasses, argCount =>
      ownCalls superClasses 0 ++ (c.ownConstructor.map (·, argCount)).toList

/-- No class without a constructor inherits a method with the name of its constructor. -/
def NoInheritedConstructor : ClassChain → Prop
  | [] => True
  | c :: superClasses =>
      NoInheritedConstructor superClasses ∧
        (c.ownConstructor = none → ClassChain.findMethod superClasses (constructorName c.name) = none)

theorem constructor_cons (c : Class) (superClasses : ClassChain) :
    ClassChain.constructor (c :: superClasses) =
      c.ownConstructor.or (ClassChain.findMethod superClasses (constructorName c.name)) := by
  rw [ClassChain.constructor, findMethod, List.findSome?_cons, Class.ownConstructor]
  cases c.methods.lookup (constructorName c.name) <;> rfl

/-- An inherited method makes one more call. -/
theorem length_own_le (c : Class) (superClasses : ClassChain) (argCount : ℕ) :
    ((c.ownConstructor.map (·, argCount)).toList).length ≤
      (((ClassChain.constructor (c :: superClasses)).map (·, argCount)).toList).length := by
  rw [constructor_cons]
  cases c.ownConstructor with
  | none => exact Nat.zero_le _
  | some ctor => exact Nat.le_refl _

theorem length_ownCalls_le (chain : ClassChain) (argCount : ℕ) :
    (chain.ownCalls argCount).length ≤ (chain.foundCalls argCount).length := by
  induction chain generalizing argCount with
  | nil => exact Nat.le_refl _
  | cons c superClasses ih =>
    rw [ownCalls, foundCalls, List.length_append, List.length_append]
    exact Nat.add_le_add (ih 0) (length_own_le c superClasses argCount)

theorem constructor_eq_own_iff (c : Class) (superClasses : ClassChain) (argCount : ℕ) :
    ((ClassChain.constructor (c :: superClasses)).map (·, argCount)).toList =
        (c.ownConstructor.map (·, argCount)).toList ↔
      (c.ownConstructor = none → ClassChain.findMethod superClasses (constructorName c.name) = none) := by
  rw [constructor_cons]
  cases c.ownConstructor with
  | none => cases ClassChain.findMethod superClasses (constructorName c.name) <;> simp
  | some ctor => simp

/-- The calls are those of the classes' own constructors if and only if nothing is inherited. -/
theorem foundCalls_eq_iff (chain : ClassChain) (argCount : ℕ) :
    chain.foundCalls argCount = chain.ownCalls argCount ↔ chain.NoInheritedConstructor := by
  induction chain generalizing argCount with
  | nil => exact iff_of_true rfl True.intro
  | cons c superClasses ih =>
    rw [NoInheritedConstructor, ← ih 0, ← constructor_eq_own_iff c superClasses argCount,
      foundCalls, ownCalls]
    constructor
    · intro h
      -- no part of the one list is shorter than its part of the other
      have hsuper := length_ownCalls_le superClasses 0
      have hown := length_own_le c superClasses argCount
      have hlength := congrArg List.length h
      rw [List.length_append, List.length_append] at hlength
      exact List.append_inj h (by omega)
    · rintro ⟨hsuper, hown⟩
      rw [hsuper, hown]

end ClassChain

/-! ## Constructions -/

/-- A construction of an object of a class runs, in any environment, the constructors that the classes
    themselves define. -/
def RunsOwnConstructors (clazz : ClassChain) (argCount : ℕ) : Prop :=
  ∀ (W : Type) (exec : Execute W) (obj : Word) (ctx : Context W),
    callConstructor exec clazz obj argCount ctx =
      runConstructors exec (clazz.ownCalls argCount) obj ctx

/-- Functions that do nothing but write down that they have been called. -/
def noteCall : Execute (List (Word × ℕ)) := fun function _ argCount ctx =>
  some (true, { ctx with
    stack := Value.zero :: ctx.stack, world := ctx.world ++ [(function, argCount)] })

theorem runConstructors_noteCall (calls : List (Word × ℕ)) (obj : Word)
    (ctx : Context (List (Word × ℕ))) :
    runConstructors noteCall calls obj ctx =
      some (true, { ctx with world := ctx.world ++ calls }) := by
  induction calls generalizing ctx with
  | nil =>
    rw [List.append_nil]
    rfl
  | cons call calls ih =>
    obtain ⟨ctor, argCount⟩ := call
    have hcall : runConstructors noteCall ((ctor, argCount) :: calls) obj ctx =
        runConstructors noteCall calls obj
          { ctx with world := ctx.world ++ [(ctor, argCount)] } := rfl
    rw [hcall, ih, List.append_assoc]
    rfl

/-- **Which constructors run.** Those of the classes themselves, if and only if no class without a
    constructor inherits a method with the name of its constructor. -/
theorem runsOwnConstructors_iff (c : Class) (superClasses : ClassChain) (argCount : ℕ) :
    RunsOwnConstructors (c :: superClasses) argCount ↔
      ClassChain.NoInheritedConstructor (c :: superClasses) := by
  rw [← ClassChain.foundCalls_eq_iff _ argCount]
  constructor
  · intro h
    have hcalls := h _ noteCall 0 ⟨[], false, Value.zero, []⟩
    rw [callConstructor_eq, runConstructors_noteCall, runConstructors_noteCall] at hcalls
    exact congrArg (fun r => r.2.world) (Option.some.inj hcalls)
  · intro h W exec obj ctx
    rw [callConstructor_eq, h]

/-- An object of `b.A`, which has no constructor, is constructed twice by that of `a.A`. -/
theorem constructor_runs_twice :
    ClassChain.foundCalls [plainClass "b.A" [], plainClass "a.A" [("A", 7)]] 1 = [(7, 0), (7, 1)] ∧
      ¬RunsOwnConstructors [plainClass "b.A" [], plainClass "a.A" [("A", 7)]] 1 := by
  refine ⟨by decide, fun h => ?_⟩
  have hcalls := h _ noteCall 0 ⟨[], false, Value.zero, []⟩
  rw [callConstructor_eq, runConstructors_noteCall, runConstructors_noteCall] at hcalls
  have hworld := congrArg (fun r => r.2.world) (Option.some.inj hcalls)
  exact absurd hworld (by decide)

end B0rk
