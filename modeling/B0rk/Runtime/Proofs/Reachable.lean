import B0rk.Runtime.Proofs.Interned

set_option autoImplicit false

/-! # What the roots reach

An object that the roots reach stays the same through every collection and every allocation, and so
does the way to it; this can be carried from one allocation to the next. -/

namespace B0rk

/-- The roots can be scanned, and lead to allocated objects only. -/
structure Runtime.Scans (rt : Runtime) (roots : Roots) (vs : List Value) : Prop where
  values : roots.values = some vs
  valid : ∀ blocks, ArenaInv rt blocks → ValidRoots rt blocks vs

/-- What `vs` reached in `rt` is still there in `rt'`. -/
structure ReachableKept (vs : List Value) (rt rt' : Runtime) (blocks' : List ℕ) : Prop where
  arena : ArenaInv rt' blocks'
  arenaRef? : rt'.arenaRef? = rt.arenaRef?
  kept : ∀ b ∈ reachableFrom rt rt.mem vs,
    b ∈ rt'.mem.allocatedBlocks blocks' ∧ Unchanged rt rt' b

section

variable {rt rt' rt'' : Runtime} {vs : List Value} {blocks blocks' blocks'' : List ℕ} {obj : ℕ}

theorem ReachableKept.reachableFrom (h : ReachableKept vs rt rt' blocks') :
    reachableFrom rt' rt'.mem vs = reachableFrom rt rt.mem vs :=
  reachableFrom_unchanged h.arenaRef? fun b hb => (h.kept b hb).2

theorem Unchanged.trans {b : ℕ} (h : Unchanged rt rt' b) (h' : Unchanged rt' rt'' b) :
    Unchanged rt rt'' b :=
  ⟨h'.1.trans h.1, h'.2.1.trans h.2.1, h'.2.2.trans h.2.2⟩

theorem ReachableKept.trans (h : ReachableKept vs rt rt' blocks')
    (h' : ReachableKept vs rt' rt'' blocks'') : ReachableKept vs rt rt'' blocks'' where
  arena := h'.arena
  arenaRef? := h'.arenaRef?.trans h.arenaRef?
  kept b hb := by
    obtain ⟨halloc, hsame⟩ := h'.kept b (h.reachableFrom ▸ hb)
    exact ⟨halloc, (h.kept b hb).2.trans hsame⟩

/-- A write to an object that the roots did not reach. -/
theorem ReachableKept.write (h : ReachableKept vs rt rt' blocks')
    (hobj : obj ∉ B0rk.reachableFrom rt rt.mem vs) (values : ℕ → Value) (gcMark : Word) :
    ReachableKept vs rt { rt' with
      mem := rt'.mem.set obj { rt'.mem obj with values := values, gcMark := gcMark } } blocks' where
  arena := h.arena.write obj values gcMark
  arenaRef? := h.arenaRef?
  kept b hb := by
    have hne : b ≠ obj := fun heq => hobj (heq ▸ hb)
    obtain ⟨halloc, hsame⟩ := h.kept b hb
    rw [Mem.mem_allocatedBlocks] at halloc ⊢
    unfold Unchanged at hsame ⊢
    simp only [Mem.set_other _ _ hne]
    exact ⟨halloc, hsame⟩

theorem ReachableKept.setValue (h : ReachableKept vs rt rt' blocks')
    (hobj : obj ∉ B0rk.reachableFrom rt rt.mem vs) (slot : ℕ) (v : Value) :
    ReachableKept vs rt (rt'.setValue obj slot v) blocks' :=
  h.write hobj _ _

theorem gc_reachableKept (h : ArenaInv rt blocks) {roots : Roots} (hscans : rt.Scans roots vs)
    {fuel : ℕ} {now : Word} {force : Bool} (hgc : gc fuel roots now force rt = some rt') :
    ∃ blocks', ReachableKept vs rt rt' blocks' := by
  have hvalid := hscans.valid blocks h
  rcases gc_cases h.toArena hgc with rfl | ⟨vs', blocks', hvs', hcol⟩
  · exact ⟨blocks, h, rfl, fun b hb => ⟨hvalid b hb, rfl, rfl, rfl⟩⟩
  · obtain rfl := Option.some.inj (hscans.values.symm.trans hvs')
    refine ⟨blocks', ⟨hcol.arena, hcol.separated h.separated, hcol.counted⟩, funext hcol.arenaRef?,
      fun b hb => ?_⟩
    have hb' := hcol.of_reachable (hvalid b hb) hb
    exact ⟨hb', hcol.unchanged hb'⟩

/-- The new object is none of those that were reached. -/
theorem allocateObject_reachableKept (h : ArenaInv rt blocks) {roots : Roots}
    (hscans : rt.Scans roots vs) {fuel : ℕ} {now clazz : Word} {fieldCount extraValues : ℕ}
    (hfits : HeaderFits (fieldCount + extraValues))
    (halloc : allocateObject fuel roots now clazz fieldCount extraValues rt = some (rt', obj)) :
    ∃ blocks', ReachableKept vs rt rt' blocks' ∧ obj ∉ reachableFrom rt rt.mem vs := by
  obtain ⟨blocks', heffect, harena⟩ := allocateObject_effect h halloc
  have hkept (b : ℕ) (hb : b ∈ reachableFrom rt rt.mem vs) :=
    heffect.kept b (hscans.valid blocks h b hb) fun _ => .inr ⟨vs, hscans.values, hb⟩
  refine ⟨blocks', ⟨harena hfits, heffect.arenaRef?, fun b hb => ?_⟩, fun hobj => ?_⟩
  · obtain ⟨halloc', -, hsame, -⟩ := hkept b hb
    exact ⟨halloc', hsame⟩
  · exact (hkept obj hobj).2.1 rfl

/-- The roots still lead to allocated objects only. -/
theorem ReachableKept.scans (h : ReachableKept vs rt rt' blocks') {roots : Roots}
    (hscans : rt.Scans roots vs) : rt'.Scans roots vs where
  values := hscans.values
  valid blocks hblocks b hb := by
    obtain ⟨halloc, -⟩ := h.kept b (h.reachableFrom ▸ hb)
    rwa [hblocks.tiles.unique h.arena.tiles]

theorem createExceptionMessage_reachableKept (h : ArenaInv rt blocks) {roots : Roots}
    (hscans : rt.Scans roots vs) {fuel : ℕ} {classes : CoreClasses}
    {now₁ now₂ native stackTrace : Word} {made : List (ℕ × Word)}
    (hexc : createExceptionMessage fuel classes roots now₁ now₂ native stackTrace rt =
      some (rt', made)) :
    ∃ blocks', ReachableKept vs rt rt' blocks' := by
  obtain ⟨⟨rt₁, str⟩, hstr, hexc⟩ := Option.bind_eq_some_iff.mp hexc
  obtain ⟨⟨rt₂, exception⟩, hvalue, hexc⟩ := Option.bind_eq_some_iff.mp hexc
  obtain ⟨rfl, rfl⟩ := Prod.mk.inj (Option.some.inj hexc)
  -- the message
  obtain ⟨⟨rt₃, str'⟩, halloc₁, hstr⟩ := Option.bind_eq_some_iff.mp hstr
  obtain ⟨rfl, rfl⟩ := Prod.mk.inj (Option.some.inj hstr)
  obtain ⟨blocks₁, hkept₁, hnew₁⟩ := allocateObject_reachableKept h hscans
    (show HeaderFits (stringFieldCount + 0) by decide) halloc₁
  have hkept₁ := hkept₁.setValue hnew₁ 0 ⟨.unknown, native⟩
  -- the exception
  obtain ⟨⟨rt₄, exception'⟩, halloc₂, hvalue⟩ := Option.bind_eq_some_iff.mp hvalue
  obtain ⟨rfl, rfl⟩ := Prod.mk.inj (Option.some.inj hvalue)
  obtain ⟨blocks₂, hkept₂, hnew₂⟩ := allocateObject_reachableKept hkept₁.arena
    (hkept₁.scans hscans) (show HeaderFits (exceptionFieldCount + 0) by decide) halloc₂
  have hkept := hkept₁.trans hkept₂
  rw [hkept₁.reachableFrom] at hnew₂
  exact ⟨blocks₂, (hkept.setValue hnew₂ 1 _).setValue hnew₂ 2 _⟩

end

end B0rk
