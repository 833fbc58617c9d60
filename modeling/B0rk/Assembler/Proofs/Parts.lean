import B0rk.Assembler.Proofs.Basic
import B0rk.Assembler.Proofs.Calls
import B0rk.Assembler.Proofs.FusedTest

set_option autoImplicit false

/-! # Who writes the addresses

An address that is not known when its instruction is emitted is filled in later, at a position that was
taken down as that of the last instruction. Where no failure is dropped, each address of the code is
written by the call that has emitted its instruction, and by no other one. -/

namespace B0rk

open Script AsmScript Relation

/-- What concerns an address: an instruction is emitted, or one of its arguments is written. -/
inductive Mark
  | emit (pos : ℕ) (op : OpCode)
  | write (pos arg : ℕ)

/-- The mark is about the address that an instruction has in one of its arguments. -/
def Mark.At (pos arg : ℕ) : Mark → Prop
  | emit pos' op => pos' = pos ∧ op.address = some arg
  | write pos' arg' => pos' = pos ∧ arg' = arg

/-- The marks of an action, which leads from one code to another one. -/
def AsmAction.Marks (e : AsmAction) (code code' : List Instruction) : Mark → Prop
  | .emit pos op => (∀ pos' arg, e ≠ .patch pos' arg) ∧ pos + 1 = code'.length ∧
      (code'[pos]?).map Instruction.op = some op
  | .write pos arg => e = .patch (some pos) arg ∨ (∃ dest, e = .jump (some dest)) ∧
      pos = code.length ∧ arg = 0

abbrev AsmCall := AsmStep × List Instruction

variable (A : AsmEnv)

/-- A call leaves a mark itself. -/
def Leaves (b : AsmCall) (m : Mark) : Prop := ∃ e t u, (asmFamily A).Does b e t u ∧ e.Marks t u m

/-- Every address in the code was written by the call that emitted the instruction, and no other call
    below the given one has emitted or written anything there. -/
def OwnAddresses (a : AsmCall) (code : List Instruction) : Prop :=
  ∀ pos inst arg, code[pos]? = some inst → inst.op.address = some arg →
    ∃ b, ReflTransGen (asmFamily A).Makes a b ∧ Leaves A b (.emit pos inst.op) ∧
      Leaves A b (.write pos arg) ∧
      ∀ b' m, ReflTransGen (asmFamily A).Makes a b' → Leaves A b' m → m.At pos arg → b' = b

/-! ## Parts -/

def opAt (code : List Instruction) (pos : ℕ) : Option OpCode := (code[pos]?).map Instruction.op

theorem opAt_lt {code : List Instruction} {pos : ℕ} {op : OpCode} (h : opAt code pos = some op) :
    pos < code.length := by
  obtain ⟨inst, hinst, -⟩ := Option.map_eq_some_iff.mp h
  exact (List.getElem?_eq_some_iff.mp hinst).1

/-- A part of what a call `a` does and what is done below it, with the marks that are left, from one
    code to another. It fills in some addresses of instructions emitted before, and leaves some
    addresses of its own open. -/
structure Part (a : AsmCall) (marks : AsmCall → Mark → Prop) (s t : List Instruction)
    (filled left : Set (ℕ × ℕ)) : Prop where
  length_le : s.length ≤ t.length
  ops : ∀ pos < s.length, opAt t pos = opAt s pos
  touches : ∀ b m pos arg, marks b m → m.At pos arg →
    (s.length ≤ pos ∧ ∃ op, opAt t pos = some op ∧ op.address = some arg) ∨
      b = a ∧ (pos, arg) ∈ filled
  fills : ∀ pos arg, (pos, arg) ∈ filled → pos < s.length ∧ marks a (.write pos arg)
  own : ∀ pos op arg, s.length ≤ pos → opAt t pos = some op → op.address = some arg →
    (pos, arg) ∉ left → ∃ b, marks b (.emit pos op) ∧ marks b (.write pos arg) ∧
      ∀ b' m, marks b' m → m.At pos arg → b' = b
  opens : ∀ pos arg, (pos, arg) ∈ left → s.length ≤ pos ∧ ∃ op, opAt t pos = some op ∧
    op.address = some arg ∧ marks a (.emit pos op) ∧ ∀ b m, marks b m → m.At pos arg → b = a

namespace Part

variable {a : AsmCall} {marks marks' : AsmCall → Mark → Prop} {s t u : List Instruction}
  {filled filled' filled'' left : Set (ℕ × ℕ)}

theorem congr (h : Part a marks s t filled left) (hmarks : ∀ b m, marks b m ↔ marks' b m) :
    Part a marks' s t filled left := by
  obtain rfl : marks = marks' := funext fun b => funext fun m => propext (hmarks b m)
  exact h

/-- One part behind the other, which fills in what the first one has left open. -/
theorem seq (h : Part a marks s u filled left) (h' : Part a marks' u t filled' ∅)
    (hleft : left ⊆ filled') (hbefore : ∀ x ∈ filled', x ∉ left → x.1 < s.length)
    (hfilled : ∀ x, x ∈ filled'' ↔ x ∈ filled ∨ x ∈ filled' ∧ x ∉ left) :
    Part a (fun b m => marks b m ∨ marks' b m) s t filled'' ∅ where
  length_le := h.length_le.trans h'.length_le
  ops pos hpos := (h'.ops pos (hpos.trans_le h.length_le)).trans (h.ops pos hpos)
  touches b m pos arg hm hat := by
    rcases hm with hm | hm
    · rcases h.touches b m pos arg hm hat with ⟨hpos, op, hop, harg⟩ | ⟨hb, hx⟩
      · exact .inl ⟨hpos, op, (h'.ops pos (opAt_lt hop)).trans hop, harg⟩
      · exact .inr ⟨hb, (hfilled _).mpr (.inl hx)⟩
    · rcases h'.touches b m pos arg hm hat with ⟨hpos, hop⟩ | ⟨hb, hx⟩
      · exact .inl ⟨h.length_le.trans hpos, hop⟩
      · by_cases hopen : (pos, arg) ∈ left
        · obtain ⟨hpos, op, hop, harg, -⟩ := h.opens pos arg hopen
          exact .inl ⟨hpos, op, (h'.ops pos (opAt_lt hop)).trans hop, harg⟩
        · exact .inr ⟨hb, (hfilled _).mpr (.inr ⟨hx, hopen⟩)⟩
  fills pos arg hx := by
    rcases (hfilled _).mp hx with hx | ⟨hx, hopen⟩
    · exact ⟨(h.fills pos arg hx).1, .inl (h.fills pos arg hx).2⟩
    · exact ⟨hbefore _ hx hopen, .inr (h'.fills pos arg hx).2⟩
  own pos op arg hpos hop harg _ := by
    by_cases hu : pos < u.length
    · rw [h'.ops pos hu] at hop
      by_cases hopen : (pos, arg) ∈ left
      · -- emitted by the first part, written by the second one
        obtain ⟨-, op', hop', -, hemit, honly⟩ := h.opens pos arg hopen
        obtain rfl := Option.some.inj (hop'.symm.trans hop)
        refine ⟨a, .inl hemit, .inr (h'.fills pos arg (hleft hopen)).2, fun b' m hm hat => ?_⟩
        rcases hm with hm | hm
        · exact honly b' m hm hat
        · rcases h'.touches b' m pos arg hm hat with ⟨hpos', -⟩ | ⟨hb, -⟩
          · exact absurd hpos' (by omega)
          · exact hb
      · obtain ⟨b, hemit, hwrite, honly⟩ := h.own pos op arg hpos hop harg hopen
        refine ⟨b, .inl hemit, .inl hwrite, fun b' m hm hat => ?_⟩
        rcases hm with hm | hm
        · exact honly b' m hm hat
        · rcases h'.touches b' m pos arg hm hat with ⟨hpos', -⟩ | ⟨-, hx⟩
          · exact absurd hpos' (by omega)
          · exact absurd (hbefore _ hx hopen) (by simpa using hpos)
    · obtain ⟨b, hemit, hwrite, honly⟩ :=
        h'.own pos op arg (by omega) hop harg (Set.notMem_empty _)
      refine ⟨b, .inr hemit, .inr hwrite, fun b' m hm hat => ?_⟩
      rcases hm with hm | hm
      · rcases h.touches b' m pos arg hm hat with ⟨-, op', hop', -⟩ | ⟨-, hx⟩
        · exact absurd (opAt_lt hop') hu
        · exact absurd (h.fills pos arg hx).1 (by omega)
      · exact honly b' m hm hat
  opens pos arg hx := absurd hx (Set.notMem_empty _)

/-- Nothing is done. -/
theorem nil : Part a (fun _ _ => False) s s ∅ ∅ where
  length_le := le_rfl
  ops _ _ := rfl
  touches _ _ _ _ hm := hm.elim
  fills _ _ hx := absurd hx (Set.notMem_empty _)
  own _ _ _ hpos hop := absurd (opAt_lt hop) (by omega)
  opens _ _ hx := absurd hx (Set.notMem_empty _)

/-- A part that keeps to its own instructions is one of any call. -/
theorem closed (h : Part a marks s t ∅ ∅) (a' : AsmCall) : Part a' marks s t ∅ ∅ where
  length_le := h.length_le
  ops := h.ops
  touches b m pos arg hm hat :=
    .inl ((h.touches b m pos arg hm hat).resolve_right fun hx => absurd hx.2 (Set.notMem_empty _))
  fills _ _ hx := absurd hx (Set.notMem_empty _)
  own := h.own
  opens _ _ hx := absurd hx (Set.notMem_empty _)

end Part

/-! ## What emits an instruction -/

theorem opAt_append_right (code : List Instruction) (inst : Instruction) :
    opAt (code ++ [inst]) code.length = some inst.op := by
  simp [opAt]

theorem opAt_append_left {code : List Instruction} (insts : List Instruction) {pos : ℕ}
    (h : pos < code.length) : opAt (code ++ insts) pos = opAt code pos := by
  simp [opAt, List.getElem?_append_left h]

namespace Part

variable {a : AsmCall} {s t : List Instruction}

/-- An instruction at the end. The addresses in it are open unless the action writes them itself. -/
theorem emit {e : AsmAction} {inst : Instruction} (written : Set ℕ)
    (hemit : ∀ pos op, e.Marks s (s ++ [inst]) (.emit pos op) ↔ pos = s.length ∧ op = inst.op)
    (hwrite : ∀ pos arg, e.Marks s (s ++ [inst]) (.write pos arg) ↔ pos = s.length ∧ arg ∈ written)
    (hwritten : ∀ arg ∈ written, inst.op.address = some arg) :
    Part a (fun b m => b = a ∧ e.Marks s (s ++ [inst]) m) s (s ++ [inst]) ∅
      {x | x.1 = s.length ∧ inst.op.address = some x.2 ∧ x.2 ∉ written} where
  length_le := by simp
  ops pos hpos := opAt_append_left [inst] hpos
  touches b m pos arg hm hat := by
    left
    cases m with
    | emit pos' op =>
      obtain ⟨rfl, rfl⟩ := (hemit pos' op).mp hm.2
      obtain ⟨rfl, harg⟩ := hat
      exact ⟨le_rfl, inst.op, opAt_append_right s inst, harg⟩
    | write pos' arg' =>
      obtain ⟨rfl, harg⟩ := (hwrite pos' arg').mp hm.2
      obtain ⟨rfl, rfl⟩ := hat
      exact ⟨le_rfl, inst.op, opAt_append_right s inst, hwritten _ harg⟩
  fills _ _ hx := absurd hx (Set.notMem_empty _)
  own pos op arg hpos hop harg hopen := by
    have hlt := opAt_lt hop
    simp only [List.length_append, List.length_singleton] at hlt
    obtain rfl : pos = s.length := by omega
    obtain rfl := Option.some.inj ((opAt_append_right s inst).symm.trans hop)
    have harg' : arg ∈ written := by
      by_contra hnot
      exact hopen ⟨rfl, harg, hnot⟩
    exact ⟨a, ⟨rfl, (hemit _ _).mpr ⟨rfl, rfl⟩⟩, ⟨rfl, (hwrite _ _).mpr ⟨rfl, harg'⟩⟩,
      fun b' m hm _ => hm.1⟩
  opens pos arg hx := by
    obtain ⟨rfl, harg, -⟩ := hx
    exact ⟨le_rfl, inst.op, opAt_append_right s inst, harg, ⟨rfl, (hemit _ _).mpr ⟨rfl, rfl⟩⟩,
      fun b m hm _ => hm.1⟩

/-- An address is filled in. -/
theorem fill {pos arg : ℕ} {inst : Instruction} {args : List Word} (hinst : s[pos]? = some inst) :
    Part a (fun b m => b = a ∧ (AsmAction.patch (some pos) arg).Marks s
        (s.set pos ⟨inst.op, args⟩) m) s (s.set pos ⟨inst.op, args⟩) {(pos, arg)} ∅ where
  length_le := by simp
  ops pos' _ := by
    unfold opAt
    rw [List.getElem?_set]
    split
    · next h =>
      subst h
      rw [if_pos (List.getElem?_eq_some_iff.mp hinst).1, hinst]
      rfl
    · rfl
  touches b m pos' arg' hm hat := by
    cases m with
    | emit pos'' op => exact absurd rfl (hm.2.1 (some pos) arg)
    | write pos'' arg'' =>
      rcases hm.2 with heq | ⟨⟨_, heq⟩, -⟩
      · cases heq
        obtain ⟨rfl, rfl⟩ := hat
        exact .inr ⟨hm.1, rfl⟩
      · cases heq
  fills pos' arg' hx := by
    cases hx
    exact ⟨(List.getElem?_eq_some_iff.mp hinst).1, rfl, .inl rfl⟩
  own _ _ _ hpos hop := by
    have hlt := opAt_lt hop
    rw [List.length_set] at hlt
    omega
  opens _ _ hx := absurd hx (Set.notMem_empty _)

end Part

/-! ## Scripts -/

/-- The part of a script from one code to another one. -/
def PartOf (a : AsmCall) (script : AsmScript) (s t : List Instruction)
    (filled : Set (ℕ × ℕ)) : Prop :=
  Part a (fun b m => ∃ e t' u, (asmFamily A).Traces a script s b e t' u ∧ e.Marks t' u m)
    s t filled ∅

variable {A}

namespace PartOf

variable {a : AsmCall} {script rest : AsmScript} {s t u v : List Instruction}
  {filled filled' filled'' left : Set (ℕ × ℕ)} {c : AsmStep} {e : AsmAction}

theorem done : PartOf A a .done s s ∅ :=
  Part.nil.congr fun _ _ => ⟨False.elim, fun ⟨_, _, _, h, _⟩ => Family.traces_done h⟩

theorem steps (hstep : Steps AsmAction.perform (AsmStep.run A) script s rest u)
    (h : Part a (fun b m => ∃ e t' u', (asmFamily A).Heads a script s b e t' u' ∧
      e.Marks t' u' m) s u filled left)
    (h' : PartOf A a rest u t filled') (hleft : left ⊆ filled')
    (hbefore : ∀ x ∈ filled', x ∉ left → x.1 < s.length)
    (hfilled : ∀ x, x ∈ filled'' ↔ x ∈ filled ∨ x ∈ filled' ∧ x ∉ left) :
    PartOf A a script s t filled'' := by
  refine (h.seq h' hleft hbefore hfilled).congr fun b m => ?_
  have htraces : ∀ e t u, (asmFamily A).Traces a script s b e t u ↔ _ :=
    fun _ _ _ => Family.traces_steps hstep
  simp only [htraces, or_and_right, exists_or]

/-- An action of the script itself. -/
theorem act (he : e.perform.Ok s () u)
    (h : Part a (fun b m => b = a ∧ e.Marks s u m) s u filled left)
    (h' : PartOf A a rest u t filled') (hleft : left ⊆ filled')
    (hbefore : ∀ x ∈ filled', x ∉ left → x.1 < s.length)
    (hfilled : ∀ x, x ∈ filled'' ↔ x ∈ filled ∨ x ∈ filled' ∧ x ∉ left) :
    PartOf A a (.act e rest) s t filled'' := by
  refine steps (.act he) (h.congr fun b m => ?_) h' hleft hbefore hfilled
  constructor
  · rintro ⟨hb, hm⟩
    exact ⟨e, s, u, ⟨hb, rfl, rfl, he⟩, hm⟩
  · rintro ⟨_, _, u', ⟨hb, rfl, rfl, he'⟩, hm⟩
    obtain rfl := (he'.unique he).2
    exact ⟨hb, hm⟩

theorem look {k : List Instruction → AsmScript} (h : PartOf A a (k s) s t filled) :
    PartOf A a (.look k) s t filled := by
  refine steps .look (Part.nil.congr fun _ _ => ?_) h (Set.empty_subset _) ?_ ?_
  · exact ⟨False.elim, fun ⟨_, _, _, h, _⟩ => h⟩
  · exact fun x hx _ => (h.fills x.1 x.2 hx).1
  · simp

/-- What is done below a call. -/
theorem below (h : PartOf A (c, s) (c.script A) s u ∅) :
    Part a (fun b m => ∃ e t' u', (ReflTransGen (asmFamily A).Makes (c, s) b ∧
      (asmFamily A).Does b e t' u') ∧ e.Marks t' u' m) s u ∅ ∅ :=
  (h.closed a).congr fun _ _ =>
    exists₃_congr fun _ _ _ => and_congr_left' (Family.traces_body (a := (c, s)))

theorem call (hc : (c.run A).Ok s () u) (h : PartOf A (c, s) (c.script A) s u ∅)
    (h' : PartOf A a rest u t filled) (hbefore : ∀ x ∈ filled, x.1 < s.length) :
    PartOf A a (.call c rest) s t filled :=
  steps (.call hc) h.below h' (Set.empty_subset _) (fun x hx _ => hbefore x hx) (by simp)

/-- A call whose failure would be dropped. -/
theorem attempt (hc : (c.run A).Ok s () u) (h : PartOf A (c, s) (c.script A) s u ∅)
    (h' : PartOf A a rest u t filled) (hbefore : ∀ x ∈ filled, x.1 < s.length) :
    PartOf A a (.attempt c none rest) s t filled := by
  refine steps (.attempt (attempted_ok hc (Attempt.pure_ok.mpr ⟨rfl, rfl⟩))) (h.below.congr fun b m => ?_)
    h' (Set.empty_subset _) (fun x hx _ => hbefore x hx) (by simp)
  refine exists₃_congr fun e t' u' => and_congr_left' ?_
  show _ ↔ _ ∨ _
  simp

end PartOf

/-! ## Tests -/

/-- The end of a test: an instruction that pushes the result of a comparison is replaced by a branch, or
    the result is compared with 0. -/
theorem finishTest_shapes {v u : List Instruction} (h : finishTest.Ok v () u) :
    (∃ init inst op, v = init ++ [inst] ∧ inst.op ∈ [OpCode.pushCE, .pushCL, .pushCLE] ∧
      u = init ++ [⟨op, [0]⟩] ∧ op.address = some 0) ∨
    u = v ++ [⟨.pushI, [0]⟩, ⟨.cmpI, []⟩, ⟨.bEq, [0]⟩] := by
  rcases finishTest_cases h with h | ⟨init, args, c, hc, rfl, rfl⟩
  · exact .inr ((finishTestPlain_run v).unique h).2.symm
  · left
    rcases hc with rfl | rfl | rfl <;> exact ⟨init, _, _, rfl, by simp [Comparison.pushOp], rfl, rfl⟩

/-- A plain instruction at most is dropped in front of the branch, and plain ones are added. -/
theorem finishTest_ok {v u : List Instruction} (h : finishTest.Ok v () u) :
    ∃ init dropped extra op, v = init ++ dropped ∧ u = init ++ extra ++ [⟨op, [0]⟩] ∧
      dropped.length ≤ 1 ∧ (∀ inst ∈ dropped, inst.op.address = none) ∧
      (∀ inst ∈ extra, inst.op.address = none) ∧ op.address = some 0 := by
  rcases finishTest_shapes h with ⟨init, inst, op, rfl, hinst, rfl, hop⟩ | rfl
  · have hplain : ∀ op ∈ [OpCode.pushCE, .pushCL, .pushCLE], op.address = none := by decide
    refine ⟨init, [inst], [], op, rfl, by simp, le_rfl, ?_, by simp, hop⟩
    exact List.forall_mem_singleton.mpr (hplain _ hinst)
  · refine ⟨v, [], [⟨.pushI, [0]⟩, ⟨.cmpI, []⟩], .bEq, by simp, by simp, by simp, by simp, ?_, rfl⟩
    rintro inst hinst
    simp only [List.mem_cons, List.not_mem_nil, or_false] at hinst
    rcases hinst with rfl | rfl <;> rfl

/-- A test with its branch, whose address is open. -/
theorem Part.branch {a : AsmCall} {marks : AsmCall → Mark → Prop}
    {s v u init dropped extra : List Instruction} {op : OpCode}
    (h : Part a marks s v ∅ ∅) (hv : v = init ++ dropped) (hu : u = init ++ extra ++ [⟨op, [0]⟩])
    (hdropped : ∀ inst ∈ dropped, inst.op.address = none)
    (hextra : ∀ inst ∈ extra, inst.op.address = none) (hop : op.address = some 0)
    (hinit : s.length ≤ init.length) :
    Part a (fun b m => marks b m ∨ b = a ∧ AsmAction.branch.Marks v u m) s u ∅
      {(u.length - 1, 0)} := by
  have hlength : u.length - 1 = (init ++ extra).length := by simp [hu]
  have hbranch : opAt u (u.length - 1) = some op := by
    rw [hlength, hu]
    exact opAt_append_right _ _
  have hold : ∀ pos < init.length, opAt u pos = opAt v pos := by
    intro pos hpos
    rw [hu, hv, List.append_assoc, opAt_append_left _ hpos, opAt_append_left _ hpos]
  -- no instruction with an address is dropped
  have hkept : ∀ pos op' arg, opAt v pos = some op' → op'.address = some arg → pos < init.length := by
    intro pos op' arg hop' harg
    by_contra hpos
    obtain ⟨inst, hinst, rfl⟩ := Option.map_eq_some_iff.mp hop'
    rw [hv, List.getElem?_append_right (by omega)] at hinst
    rw [hdropped inst (List.mem_of_getElem? hinst)] at harg
    cases harg
  have hnew : ∀ pos op' arg, init.length ≤ pos → opAt u pos = some op' → op'.address = some arg →
      pos = u.length - 1 ∧ op' = op ∧ arg = 0 := by
    intro pos op' arg hpos hop' harg
    by_cases hlast : pos = u.length - 1
    · subst hlast
      obtain rfl := Option.some.inj (hop'.symm.trans hbranch)
      exact ⟨rfl, rfl, Option.some.inj (harg.symm.trans hop)⟩
    · have hlt : pos < (init ++ extra).length := by
        have := opAt_lt hop'
        omega
      rw [hu, opAt_append_left _ hlt] at hop'
      obtain ⟨inst, hinst, rfl⟩ := Option.map_eq_some_iff.mp hop'
      rw [List.getElem?_append_right hpos] at hinst
      rw [hextra inst (List.mem_of_getElem? hinst)] at harg
      cases harg
  have hle : init.length ≤ u.length - 1 := by
    rw [hlength]
    simp
  have hmark : ∀ b m pos arg, b = a ∧ AsmAction.branch.Marks v u m → m.At pos arg →
      b = a ∧ pos = u.length - 1 ∧ arg = 0 := by
    intro b m pos arg hm hat
    refine ⟨hm.1, ?_⟩
    cases m with
    | emit pos' op' =>
      obtain ⟨-, hpos, hop'⟩ := hm.2
      obtain ⟨rfl, harg⟩ := hat
      obtain ⟨h1, -, h2⟩ := hnew pos' op' arg (by omega) hop' harg
      exact ⟨h1, h2⟩
    | write pos' arg' =>
      rcases hm.2 with heq | ⟨⟨_, heq⟩, -⟩ <;> cases heq
  have hlt : u.length - 1 < u.length := opAt_lt hbranch
  exact {
    length_le := by omega
    ops := fun pos hpos => (hold pos (by omega)).trans (h.ops pos hpos)
    touches := by
      intro b m pos arg hm hat
      left
      rcases hm with hm | hm
      · obtain ⟨hpos, op', hop', harg⟩ := (h.touches b m pos arg hm hat).resolve_right
          fun hx => absurd hx.2 (Set.notMem_empty _)
        exact ⟨hpos, op', (hold pos (hkept pos op' arg hop' harg)).trans hop', harg⟩
      · obtain ⟨-, rfl, rfl⟩ := hmark b m pos arg hm hat
        exact ⟨by omega, op, hbranch, hop⟩
    fills := fun _ _ hx => absurd hx (Set.notMem_empty _)
    own := by
      intro pos op' arg hpos hop' harg hopen
      have hpos' : pos < init.length := by
        by_contra hge
        obtain ⟨rfl, -, rfl⟩ := hnew pos op' arg (by omega) hop' harg
        exact hopen rfl
      rw [hold pos hpos'] at hop'
      obtain ⟨b, hemit, hwrite, honly⟩ := h.own pos op' arg hpos hop' harg (Set.notMem_empty _)
      refine ⟨b, .inl hemit, .inl hwrite, fun b' m hm hat => ?_⟩
      rcases hm with hm | hm
      · exact honly b' m hm hat
      · obtain ⟨-, rfl, -⟩ := hmark b' m pos arg hm hat
        omega
    opens := by
      rintro pos arg ⟨⟩
      refine ⟨by omega, op, hbranch, hop, .inr ⟨rfl, ?_, by omega, hbranch⟩, fun b m hm hat => ?_⟩
      · rintro _ _ ⟨⟩
      · rcases hm with hm | hm
        · obtain ⟨-, op', hop', harg⟩ := (h.touches b m _ _ hm hat).resolve_right
            fun hx => absurd hx.2 (Set.notMem_empty _)
          have := hkept _ op' _ hop' harg
          omega
        · exact hm.1 }

namespace PartOf

variable {a : AsmCall} {script rest : AsmScript} {s t u v : List Instruction}
  {filled : Set (ℕ × ℕ)} {c : AsmStep}

/-- A test, whose branch is filled in later. -/
theorem test (hc : (c.run A).Ok s () v) (h : PartOf A (c, s) (c.script A) s v ∅)
    (hgrows : s.length < v.length) (hbranch : finishTest.Ok v () u)
    (h' : PartOf A a rest u t (insert (u.length - 1, 0) filled))
    (hbefore : ∀ x ∈ filled, x.1 < s.length) :
    PartOf A a (.attempt c (some .branch) rest) s t filled := by
  obtain ⟨init, dropped, extra, op, hv, hu, hone, hdropped, hextra, hop⟩ := finishTest_ok hbranch
  have hinit : s.length ≤ init.length := by
    have := congrArg List.length hv
    simp only [List.length_append] at this
    omega
  have hlast : s.length ≤ u.length - 1 := by
    simp only [hu, List.length_append, List.length_singleton]
    omega
  have hnot : ∀ x ∈ filled, x ≠ (u.length - 1, 0) := by
    rintro x hx rfl
    exact absurd (hbefore _ hx) (by simpa using hlast)
  refine steps (.attempt (attempted_ok hc hbranch))
    ((h.below.branch hv hu hdropped hextra hop hinit).congr fun b m => ?_) h' ?_ ?_ ?_
  · constructor
    · rintro (⟨e, t', u', hd, hm⟩ | ⟨rfl, hm⟩)
      · exact ⟨e, t', u', .inl hd, hm⟩
      · exact ⟨.branch, v, u, .inr ⟨rfl, rfl, hc, hbranch⟩, hm⟩
    · rintro ⟨e, t', u', hd | ⟨rfl, he, hc', hbranch'⟩, hm⟩
      · exact .inl ⟨e, t', u', hd, hm⟩
      · cases he
        obtain rfl := (hc'.unique hc).2
        obtain rfl := (hbranch'.unique hbranch).2
        exact .inr ⟨rfl, hm⟩
  · exact Set.singleton_subset_iff.mpr (Set.mem_insert ..)
  · exact fun x hx hnew => hbefore x ((Set.mem_insert_iff.mp hx).resolve_left hnew)
  · intro x
    constructor
    · exact fun hx => .inr ⟨Set.mem_insert_of_mem _ hx, hnot x hx⟩
    · rintro (hx | ⟨hx, hnew⟩)
      · exact absurd hx (Set.notMem_empty _)
      · exact (Set.mem_insert_iff.mp hx).resolve_left hnew

/-! ## What an action emits -/

theorem marks_emit {e : AsmAction} (he : ∀ pos arg, e ≠ .patch pos arg) {inst : Instruction}
    (pos : ℕ) (op : OpCode) :
    e.Marks s (s ++ [inst]) (.emit pos op) ↔ pos = s.length ∧ op = inst.op := by
  have hlast := opAt_append_right s inst
  constructor
  · rintro ⟨-, hpos, hop⟩
    rw [List.length_append, List.length_singleton] at hpos
    obtain rfl : pos = s.length := by omega
    exact ⟨rfl, Option.some.inj (hop.symm.trans hlast)⟩
  · rintro ⟨rfl, rfl⟩
    exact ⟨he, by simp, hlast⟩

theorem marks_write_none {e : AsmAction} (he : ∀ pos arg, e ≠ .patch pos arg)
    (hjump : ∀ dest, e ≠ .jump (some dest)) {inst : Instruction} (pos arg : ℕ) :
    e.Marks s (s ++ [inst]) (.write pos arg) ↔ pos = s.length ∧ arg ∈ (∅ : Set ℕ) := by
  constructor
  · rintro (h | ⟨⟨dest, h⟩, -⟩)
    · exact absurd h (he _ _)
    · exact absurd h (hjump dest)
  · rintro ⟨-, h⟩
    exact h.elim

/-- An instruction without an address. -/
theorem push {op : OpCode} {args : List Word} (hop : op.address = none)
    (h : PartOf A a rest (s ++ [⟨op, args⟩]) t filled) (hbefore : ∀ x ∈ filled, x.1 < s.length) :
    PartOf A a (.push op args rest) s t filled := by
  refine act (pushInstruction_run op args s) (Part.emit ∅
    (marks_emit (by rintro _ _ ⟨⟩)) (marks_write_none (by rintro _ _ ⟨⟩) (by rintro _ ⟨⟩)) ?_)
    h ?_ ?_ ?_
  · exact fun arg harg => harg.elim
  · rintro x ⟨-, hx, -⟩
    rw [hop] at hx
    cases hx
  · exact fun x hx _ => hbefore x hx
  · intro x
    simp [hop]

/-- An instruction whose address is filled in later. -/
theorem opening {e : AsmAction} {inst : Instruction} {arg : ℕ} (he : e.perform.Ok s () (s ++ [inst]))
    (hpatch : ∀ pos arg, e ≠ .patch pos arg) (hjump : ∀ dest, e ≠ .jump (some dest))
    (harg : inst.op.address = some arg)
    (h : PartOf A a rest (s ++ [inst]) t (insert (s.length, arg) filled))
    (hbefore : ∀ x ∈ filled, x.1 < s.length) : PartOf A a (.act e rest) s t filled := by
  refine act he (Part.emit ∅ (marks_emit hpatch) (marks_write_none hpatch hjump) ?_)
    h ?_ ?_ ?_
  · exact fun arg harg => harg.elim
  · rintro ⟨pos, arg'⟩ ⟨rfl, hx, -⟩
    obtain rfl := Option.some.inj (harg.symm.trans hx)
    exact Set.mem_insert ..
  · rintro x (rfl | hx) hopen
    · exact absurd ⟨rfl, harg, Set.notMem_empty _⟩ hopen
    · exact hbefore x hx
  · intro x
    constructor
    · refine fun hx => .inr ⟨Set.mem_insert_of_mem _ hx, fun hopen => ?_⟩
      exact absurd hopen.1 (hbefore x hx).ne
    · rintro (hx | ⟨rfl | hx, hopen⟩)
      · exact hx.elim
      · exact absurd ⟨rfl, harg, Set.notMem_empty _⟩ hopen
      · exact hx

/-- A jump back, whose address is known. -/
theorem jumpBack {dest : ℕ}
    (h : PartOf A a rest (s ++ [⟨.jmp, [BitVec.ofNat 64 dest]⟩]) t filled)
    (hbefore : ∀ x ∈ filled, x.1 < s.length) :
    PartOf A a (.act (.jump (some dest)) rest) s t filled := by
  refine act (e := .jump (some dest)) (pushInstruction_run .jmp [BitVec.ofNat 64 dest] s)
    (Part.emit {0} (marks_emit (by rintro _ _ ⟨⟩)) ?_ ?_) h ?_ ?_ ?_
  · intro pos arg
    constructor
    · rintro (h | ⟨-, h⟩)
      · cases h
      · exact h
    · exact fun h => .inr ⟨⟨dest, rfl⟩, h⟩
  · rintro arg rfl
    rfl
  · rintro x ⟨-, hx, hnot⟩
    exact absurd (Option.some.inj hx).symm hnot
  · exact fun x hx _ => hbefore x hx
  · intro x
    refine ⟨fun hx => .inr ⟨hx, fun hopen => ?_⟩, ?_⟩
    · exact absurd hopen.1 (hbefore x hx).ne
    · rintro (hx | ⟨hx, -⟩)
      · exact hx.elim
      · exact hx

/-- An address is filled in. -/
theorem patch {pos arg : ℕ} (hok : (B0rk.patch (some pos) arg).Ok s () u)
    (h : PartOf A a rest u t filled) :
    PartOf A a (.act (.patch (some pos) arg) rest) s t (insert (pos, arg) filled) := by
  have hrun := hok
  simp only [Attempt.Ok, B0rk.patch, Option.bind_eq_bind, Option.bind_eq_some_iff] at hrun
  obtain ⟨pos', hpos, inst, hinst, hrun⟩ := hrun
  cases hpos
  split at hrun
  · cases hrun
    refine act hok (Part.fill hinst) h (Set.empty_subset _) ?_ ?_
    · intro x hx _
      simpa using (h.fills x.1 x.2 hx).1
    · rintro ⟨pos', arg'⟩
      simp
  · cases hrun

end PartOf

end B0rk
