import B0rk.Runtime.Interned
import B0rk.Runtime.Proofs.Hold

set_option autoImplicit false

/-! # Interned strings are unique and permanent

A pinned object is left as it is by every collection and every allocation, and a new object is put
elsewhere; so what the string table holds stays what it was when it was entered:
`internedRun_strings`. -/

namespace B0rk

/-- What is cut off a free block has room for the header. It has none only if the size wraps around to
    eight bytes. -/
def HeaderFits (n : ℕ) : Prop := sizeofObject ≤ objectSize n

instance (n : ℕ) : Decidable (HeaderFits n) := inferInstanceAs (Decidable (_ ≤ _))

theorem headerFits_iff (n : ℕ) : HeaderFits n ↔ n % 2 ^ 28 ≠ 2 ^ 28 - 1 := by
  unfold HeaderFits objectSize sizeofObject sizeofValue
  omega

/-! ## Pinned objects -/

section

variable {rt rt' : Runtime} {blocks blocks' : List ℕ} {b : ℕ}

theorem Object.marked_external {o : Object} (h : o.gcMark = gcExternal) (mark : Word) :
    o.marked mark = o := by
  unfold Object.marked
  rw [if_neg (by simp [h])]

theorem markSet_external {mark : Word} {s : Set ℕ} {mem : Mem} (h : (mem b).gcMark = gcExternal) :
    markSet mark s mem b = mem b := by
  by_cases hb : b ∈ s
  · rw [markSet_mem hb, Object.marked_external h]
  · rw [markSet_not_mem hb]

/-- A collection does not touch a pinned object at all. -/
theorem Collected.external {now : Word} {vs : List Value}
    (h : Collected now vs rt rt' blocks blocks') (hb : b ∈ rt.mem.allocatedBlocks blocks)
    (hx : (rt.mem b).gcMark = gcExternal) :
    b ∈ rt'.mem.allocatedBlocks blocks' ∧ rt'.mem b = rt.mem b := by
  have hb' := h.of_external hb hx
  refine ⟨hb', ?_⟩
  rw [h.coalesced.allocated, Mem.mem_allocatedBlocks] at hb'
  have hsame : markSet now (reachableFrom rt rt.mem vs) rt.mem b = rt.mem b := markSet_external hx
  have hgarbage : (markSet now (reachableFrom rt rt.mem vs) rt.mem b).isGarbage now = false := by
    rw [hsame]
    simp [Object.isGarbage, hx]
  rw [h.coalesced.kept b hb'.2, Mem.swept_of_kept hgarbage, hsame]

/-- The pinned objects of a heap are those of another, with the same contents. -/
def PinnedKept (rt rt' : Runtime) (blocks blocks' : List ℕ) : Prop :=
  ∀ b ∈ rt.mem.allocatedBlocks blocks, (rt.mem b).gcMark = gcExternal →
    b ∈ rt'.mem.allocatedBlocks blocks' ∧ rt'.mem b = rt.mem b

theorem gc_pinned (h : ArenaInv rt blocks) {fuel : ℕ} {roots : Roots} {now : Word} {force : Bool}
    (hgc : gc fuel roots now force rt = some rt') :
    ∃ blocks', ArenaInv rt' blocks' ∧ PinnedKept rt rt' blocks blocks' := by
  rcases gc_cases h.toArena hgc with rfl | ⟨vs, blocks', -, hcol⟩
  · exact ⟨blocks, h, fun b hb _ => ⟨hb, rfl⟩⟩
  · exact ⟨blocks', ⟨hcol.arena, hcol.separated h.separated, hcol.counted⟩,
      fun b hb hx => hcol.external hb hx⟩

theorem checkSpace_pinned (h : ArenaInv rt blocks) {fuel : ℕ} {roots : Roots} {now : Word}
    (hspace : rt.checkSpace fuel roots now = some rt') :
    ∃ blocks', ArenaInv rt' blocks' ∧ PinnedKept rt rt' blocks blocks' := by
  unfold Runtime.checkSpace at hspace
  split at hspace
  · exact gc_pinned h hspace
  · obtain rfl := Option.some.inj hspace
    exact ⟨blocks, h, fun b hb _ => ⟨hb, rfl⟩⟩

/-- So does an allocation, and the new object is none of them. -/
theorem allocateObject_pinned (h : ArenaInv rt blocks) {fuel : ℕ} {roots : Roots} {now clazz : Word}
    {fieldCount extraValues obj : ℕ} (hfits : HeaderFits (fieldCount + extraValues))
    (halloc : allocateObject fuel roots now clazz fieldCount extraValues rt = some (rt', obj)) :
    ∃ blocks', ArenaInv rt' blocks' ∧ PinnedKept rt rt' blocks blocks' ∧
      obj ∈ rt'.mem.allocatedBlocks blocks' ∧ (rt'.mem obj).clazz = some clazz ∧
      ∀ b ∈ rt.mem.allocatedBlocks blocks, (rt.mem b).gcMark = gcExternal → b ≠ obj := by
  obtain ⟨rt₁, hspace, htake⟩ := Option.bind_eq_some_iff.mp halloc
  obtain ⟨blocks₁, hinv, hkept⟩ := checkSpace_pinned h hspace
  have hpos : 0 < objectSize (fieldCount + extraValues) := Nat.lt_of_lt_of_le (by decide) hfits
  obtain ⟨b₁, tail, b₂, rfl, htaken⟩ := takeObject_cases hinv.toArena hpos htake
  obtain ⟨size, -, hobj⟩ := htaken.object
  have hne (b : ℕ) (hb : b ∈ rt₁.mem.allocatedBlocks (b₁ ++ obj :: b₂)) : b ≠ obj := by
    rintro rfl
    cases htaken.found.symm.trans (Mem.mem_allocatedBlocks.mp hb).2
  refine ⟨_, htaken.arenaInv hfits hinv, ?_, htaken.mem_allocatedBlocks.mpr (.inl rfl),
    by rw [hobj], fun b hb hx => hne b (hkept b hb hx).1⟩
  intro b hb hx
  obtain ⟨hb₁, hsame⟩ := hkept b hb hx
  refine ⟨htaken.mem_allocatedBlocks.mpr (.inr hb₁), ?_⟩
  have hb₂ : b ∈ b₁ ++ b₂ := by
    have hmem := (Mem.mem_allocatedBlocks.mp hb₁).1
    simp only [List.mem_append, List.mem_cons] at hmem ⊢
    exact hmem.imp_right (·.resolve_left (hne b hb₁))
  rw [htaken.others b hb₂, hsame]

end

/-! ## Runs -/

/-- The calls of `newString`, `allocateObject` and `gc` from the initial arena, in any order and with
    any roots. `returned` is what `newString` has returned, with the texts, the latest first. In
    between the program may write to its objects and pin them, the interned strings excepted. -/
inductive InternedRun (classes : CoreClasses) : Interned → List (String × ℕ) → Prop
  | init {start : ℕ} : 0 < start → InternedRun classes (.init start) []
  | newString {s s' : Interned} {returned : List (String × ℕ)} {fuel obj : ℕ} {roots : Roots}
      {now native : Word} {text : String} : InternedRun classes s returned →
      s.natives.lookup native = none →
      newString fuel classes roots now native text s = some (s', obj) →
      InternedRun classes s' ((text, obj) :: returned)
  | allocate {s : Interned} {rt' : Runtime} {returned : List (String × ℕ)}
      {fuel fieldCount extraValues obj : ℕ} {roots : Roots} {now clazz : Word} :
      InternedRun classes s returned → HeaderFits (fieldCount + extraValues) →
      allocateObject fuel roots now clazz fieldCount extraValues s.rt = some (rt', obj) →
      InternedRun classes { s with rt := rt' } returned
  | gc {s : Interned} {rt' : Runtime} {returned : List (String × ℕ)} {fuel : ℕ} {roots : Roots}
      {now : Word} {force : Bool} : InternedRun classes s returned →
      gc fuel roots now force s.rt = some rt' → InternedRun classes { s with rt := rt' } returned
  | write {s : Interned} {returned : List (String × ℕ)} {b : ℕ} {values : ℕ → Value}
      {gcMark : Word} : InternedRun classes s returned → (s.rt.mem b).isFree = false →
      (∀ text, s.stringTable.lookup text ≠ some b) →
      InternedRun classes { s with
        rt := { s.rt with
          mem := s.rt.mem.set b { s.rt.mem b with values := values, gcMark := gcMark } } } returned

/-- What holds between two calls. -/
structure Interned.Kept (classes : CoreClasses) (s : Interned) (blocks : List ℕ) : Prop where
  arena : ArenaInv s.rt blocks
  entry : ∀ text obj, s.stringTable.lookup text = some obj →
    obj ∈ s.rt.mem.allocatedBlocks blocks ∧ (s.rt.mem obj).clazz = some classes.string ∧
      (s.rt.mem obj).gcMark = gcExternal ∧
      s.natives.lookup ((s.rt.mem obj).values 0).bits = some text

section

variable {classes : CoreClasses} {s s' : Interned} {blocks : List ℕ} {returned : List (String × ℕ)}

theorem Interned.Kept.of_pinned (h : s.Kept classes blocks) {rt' : Runtime} {blocks' : List ℕ}
    (harena : ArenaInv rt' blocks') (hkept : PinnedKept s.rt rt' blocks blocks') :
    Interned.Kept classes { s with rt := rt' } blocks' where
  arena := harena
  entry text obj hlookup := by
    obtain ⟨halloc, hclazz, hx, htext⟩ := h.entry text obj hlookup
    obtain ⟨halloc', hsame⟩ := hkept obj halloc hx
    refine ⟨halloc', ?_⟩
    show (rt'.mem obj).clazz = _ ∧ (rt'.mem obj).gcMark = _ ∧
      s.natives.lookup ((rt'.mem obj).values 0).bits = some text
    rw [hsame]
    exact ⟨hclazz, hx, htext⟩

theorem Interned.Kept.write (h : s.Kept classes blocks) {b : ℕ} (values : ℕ → Value) (gcMark : Word)
    (hother : ∀ text, s.stringTable.lookup text ≠ some b) :
    Interned.Kept classes { s with
      rt := { s.rt with
        mem := s.rt.mem.set b { s.rt.mem b with values := values, gcMark := gcMark } } } blocks where
  arena := h.arena.write b values gcMark
  entry text obj hlookup := by
    have hne : obj ≠ b := fun heq => hother text (heq ▸ hlookup)
    obtain ⟨halloc, hrest⟩ := h.entry text obj hlookup
    have hsame : (s.rt.mem.set b { s.rt.mem b with values := values, gcMark := gcMark }) obj =
        s.rt.mem obj := Mem.set_other _ _ hne
    rw [Mem.mem_allocatedBlocks] at halloc ⊢
    show (obj ∈ blocks ∧ ((s.rt.mem.set b _) obj).isFree = false) ∧
      ((s.rt.mem.set b _) obj).clazz = _ ∧ ((s.rt.mem.set b _) obj).gcMark = _ ∧
      s.natives.lookup (((s.rt.mem.set b _) obj).values 0).bits = some text
    rw [hsame]
    exact ⟨halloc, hrest⟩

/-- A new text: the string is made, put into the table and pinned. -/
theorem Interned.Kept.newString (h : s.Kept classes blocks) {fuel obj : ℕ} {roots : Roots}
    {now native : Word} {text : String} (hnative : s.natives.lookup native = none)
    (hnew : newString fuel classes roots now native text s = some (s', obj)) :
    (∃ blocks', s'.Kept classes blocks') ∧ s'.stringTable.lookup text = some obj ∧
      ∀ text' obj', s.stringTable.lookup text' = some obj' →
        s'.stringTable.lookup text' = some obj' := by
  unfold B0rk.newString at hnew
  cases htable : s.stringTable.lookup text with
  | some obj₀ =>
    rw [htable] at hnew
    obtain ⟨rfl, rfl⟩ := Prod.mk.inj (Option.some.inj hnew)
    exact ⟨⟨blocks, h⟩, htable, fun _ _ h => h⟩
  | none =>
    rw [htable] at hnew
    obtain ⟨⟨rt₂, obj₂⟩, hcreate, hnew⟩ := Option.bind_eq_some_iff.mp hnew
    obtain ⟨rfl, rfl⟩ := Prod.mk.inj (Option.some.inj hnew)
    obtain ⟨⟨rt₁, obj₁⟩, halloc, hcreate⟩ := Option.bind_eq_some_iff.mp hcreate
    obtain ⟨rfl, rfl⟩ := Prod.mk.inj (Option.some.inj hcreate)
    obtain ⟨blocks', harena, hkept, hobj, hclazz, hne⟩ :=
      allocateObject_pinned h.arena (show HeaderFits (stringFieldCount + 0) by decide) halloc
    have hold : ∀ text' obj', s.stringTable.lookup text' = some obj' →
        ((text, obj₁) :: s.stringTable).lookup text' = some obj' := by
      intro text' obj' hlookup
      have hne' : text' ≠ text := fun heq => by
        rw [heq, htable] at hlookup
        cases hlookup
      rw [List.lookup_cons, beq_false_of_ne hne']
      exact hlookup
    refine ⟨⟨blocks', ?_, ?_⟩, List.lookup_cons_self, hold⟩
    · exact (harena.setValue obj₁ 0 ⟨.unknown, native⟩).write obj₁ _ gcExternal
    · -- the memory behind the call, at the new string and elsewhere
      have hself : ((rt₁.setValue obj₁ 0 ⟨.unknown, native⟩).setExternalGC obj₁).mem obj₁ =
          ⟨(rt₁.mem obj₁).clazz, (rt₁.mem obj₁).size, gcExternal,
            fun i => if i = 0 then ⟨.unknown, native⟩ else (rt₁.mem obj₁).values i⟩ := by
        simp [Runtime.setExternalGC, Runtime.setValue]
      have hother : ∀ b, b ≠ obj₁ →
          ((rt₁.setValue obj₁ 0 ⟨.unknown, native⟩).setExternalGC obj₁).mem b = rt₁.mem b := by
        intro b hb
        simp [Runtime.setExternalGC, Runtime.setValue, Mem.set_other _ _ hb]
      intro text' obj' hlookup
      by_cases htext : text' = text
      · subst htext
        rw [List.lookup_cons_self] at hlookup
        obtain rfl : obj₁ = obj' := Option.some.inj hlookup
        rw [Mem.mem_allocatedBlocks] at hobj ⊢
        unfold Object.isFree at hobj ⊢
        simp only [hself, hclazz] at hobj ⊢
        exact ⟨hobj, trivial, trivial, List.lookup_cons_self⟩
      · rw [List.lookup_cons, beq_false_of_ne htext] at hlookup
        obtain ⟨halloc', hclazz', hx, hnat⟩ := h.entry text' obj' hlookup
        obtain ⟨halloc₁, hsame⟩ := hkept obj' halloc' hx
        have hobj' := hother obj' (hne obj' halloc' hx)
        rw [Mem.mem_allocatedBlocks] at halloc₁ ⊢
        simp only [hobj', hsame] at halloc₁ ⊢
        refine ⟨halloc₁, hclazz', hx, ?_⟩
        have hne' : ((s.rt.mem obj').values 0).bits ≠ native := fun heq => by
          rw [heq, hnative] at hnat
          cases hnat
        rw [List.lookup_cons, beq_false_of_ne hne']
        exact hnat

/-- What has been returned is in the table. -/
theorem InternedRun.kept (h : InternedRun classes s returned) :
    (∃ blocks, s.Kept classes blocks) ∧
      ∀ p ∈ returned, s.stringTable.lookup p.1 = some p.2 := by
  induction h with
  | init hstart => exact ⟨⟨_, arenaInv_init hstart, nofun⟩, nofun⟩
  | newString _ hnative hnew ih =>
    obtain ⟨⟨blocks, hkept⟩, htable⟩ := ih
    obtain ⟨hkept', hlookup, hold⟩ := hkept.newString hnative hnew
    refine ⟨hkept', fun p hp => ?_⟩
    rcases List.mem_cons.mp hp with rfl | hp
    · exact hlookup
    · exact hold _ _ (htable p hp)
  | allocate _ hfits halloc ih =>
    obtain ⟨⟨blocks, hkept⟩, htable⟩ := ih
    obtain ⟨blocks', harena, hpinned, -⟩ := allocateObject_pinned hkept.arena hfits halloc
    exact ⟨⟨blocks', hkept.of_pinned harena hpinned⟩, htable⟩
  | gc _ hgc ih =>
    obtain ⟨⟨blocks, hkept⟩, htable⟩ := ih
    obtain ⟨blocks', harena, hpinned⟩ := gc_pinned hkept.arena hgc
    exact ⟨⟨blocks', hkept.of_pinned harena hpinned⟩, htable⟩
  | write _ _ hother ih =>
    obtain ⟨⟨blocks, hkept⟩, htable⟩ := ih
    exact ⟨⟨blocks, hkept.write _ _ hother⟩, htable⟩

end

/-- **Interned strings are unique and permanent.** In every state of a run the objects that `newString`
    has returned are allocated strings with the texts they were asked for, one for each text. -/
theorem internedRun_strings {classes : CoreClasses} {s : Interned} {returned : List (String × ℕ)}
    (h : InternedRun classes s returned) :
    ∃ blocks, ArenaInv s.rt blocks ∧
      (∀ text obj, (text, obj) ∈ returned → obj ∈ s.rt.mem.allocatedBlocks blocks ∧
        (s.rt.mem obj).clazz = some classes.string ∧ s.getString classes obj = some text) ∧
      (∀ text obj obj', (text, obj) ∈ returned → (text, obj') ∈ returned → obj = obj') ∧
      ∀ text text' obj, (text, obj) ∈ returned → (text', obj) ∈ returned → text = text' := by
  obtain ⟨⟨blocks, hkept⟩, htable⟩ := h.kept
  have hstring : ∀ text obj, (text, obj) ∈ returned → obj ∈ s.rt.mem.allocatedBlocks blocks ∧
      (s.rt.mem obj).clazz = some classes.string ∧ s.getString classes obj = some text := by
    intro text obj hret
    obtain ⟨halloc, hclazz, -, htext⟩ := hkept.entry text obj (htable _ hret)
    refine ⟨halloc, hclazz, ?_⟩
    rw [Interned.getString, if_pos hclazz, htext]
  refine ⟨blocks, hkept.arena, hstring, ?_, ?_⟩
  · intro text obj obj' hret hret'
    exact Option.some.inj ((htable _ hret).symm.trans (htable _ hret'))
  · intro text text' obj hret hret'
    exact Option.some.inj ((hstring text obj hret).2.2.symm.trans (hstring text' obj hret').2.2)

/-- The same text twice, with an allocation in between. -/
theorem internedRun_strings_twice :
    ∃ s, InternedRun coreClasses s [("a", 4096), ("a", 4096)] ∧
      s.getString coreClasses 4096 = some "a" := by
  have hfirst : newString 0 coreClasses emptyRoots 1 8 "a" (.init 4096) = some (_, 4096) := rfl
  have h₁ := InternedRun.newString (.init (by decide : 0 < 4096)) rfl hfirst
  have h₂ := h₁.allocate (by decide : HeaderFits (2 + 0))
    (rfl : allocateObject 0 emptyRoots 2 5 2 0 _ = some (_, 4136))
  have h₃ := h₂.newString rfl (rfl : newString 0 coreClasses emptyRoots 3 16 "a" _ = some (_, 4096))
  obtain ⟨_, _, hstring, -, -⟩ := internedRun_strings h₃
  exact ⟨_, h₃, (hstring "a" 4096 (.head _)).2.2⟩

end B0rk
