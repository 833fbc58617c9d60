import B0rk.Assembler.Proofs.Optimise

set_option autoImplicit false

/-! # Loads of constants

The second pass replaces the loads of a variable that has one `STORE_VAR` in the code, if the first pass
has found a constant for it. The constant is the one that is pushed before that `STORE_VAR`, or the one
of a variable that is loaded there, as it was stored by the last `STORE_VAR` of that variable further
up in the code. -/

namespace B0rk

variable {W : Type} {E : Env W} {exec : Execute W}

/-! ## Constants in the code -/

/-- The variable that a `STORE_VAR` stores. -/
def Instruction.stores (inst : Instruction) : Option Word :=
  if inst.op = .storeVar then inst.args[0]? else none

/-- The variable that an instruction writes. -/
def Instruction.writes (inst : Instruction) : Option Word :=
  if inst.op.writesVar then inst.args[0]? else none

/-- The last instruction before a position of which `p` holds. -/
def lastBefore (p : Instruction → Bool) (code : List Instruction) : ℕ → Option ℕ
  | 0 => none
  | i + 1 => if code[i]?.any p then some i else lastBefore p code i

/-- The last `STORE_VAR` of a variable before a position. -/
def lastStore (code : List Instruction) (i : ℕ) (v : Word) : Option ℕ :=
  lastBefore (fun inst => inst.stores = some v) code i

/-- The last instruction before a position that does not write a variable. -/
def pushedBy (code : List Instruction) (i : ℕ) : Option ℕ :=
  lastBefore (fun inst => !inst.op.writesVar) code i

/-- The instruction at a position pushes a constant, by what stands further up in the code. -/
inductive Pushed (code : List Instruction) : ℕ → Value → Prop
  | constant {q : ℕ} {inst : Instruction} {c : Value} (hinst : code[q]? = some inst)
      (hop : inst.op = .pushI ∨ inst.op = .pushD) (hc : pushedConstant inst = some c) :
      Pushed code q c
  | load {q p r : ℕ} {inst : Instruction} {v : Word} {c : Value} (hinst : code[q]? = some inst)
      (hloads : inst.loads = some v) (hstore : lastStore code q v = some p)
      (hpush : pushedBy code p = some r) (h : Pushed code r c) : Pushed code q c

/-- The `STORE_VAR` at a position stores a constant. -/
def Stored (code : List Instruction) (p : ℕ) (c : Value) : Prop :=
  ∃ q, pushedBy code p = some q ∧ Pushed code q c

section

variable {p : Instruction → Bool} {code more : List Instruction} {i j : ℕ}

theorem lastBefore_some (h : lastBefore p code i = some j) :
    j < i ∧ ∃ inst, code[j]? = some inst ∧ p inst = true := by
  induction i with
  | zero => cases h
  | succ i ih =>
    rw [lastBefore] at h
    split at h
    · next hp =>
      obtain rfl := Option.some.inj h
      obtain ⟨inst, hinst, hp⟩ := (Option.any_eq_true _ _).mp hp
      exact ⟨Nat.lt_succ_self _, inst, hinst, hp⟩
    · obtain ⟨hlt, hinst⟩ := ih h
      exact ⟨Nat.lt_succ_of_lt hlt, hinst⟩

theorem lastBefore_append (hi : i ≤ code.length) :
    lastBefore p (code ++ more) i = lastBefore p code i := by
  induction i with
  | zero => rfl
  | succ i ih =>
    rw [lastBefore, lastBefore, ih (Nat.le_of_lt hi), List.getElem?_append_left hi]

theorem lastBefore_concat (inst : Instruction) :
    lastBefore p (code ++ [inst]) (code ++ [inst]).length =
      if p inst then some code.length else lastBefore p code code.length := by
  rw [List.length_append, List.length_singleton, lastBefore, lastBefore_append (Nat.le_refl _)]
  simp

/-- What stands further down does not matter. -/
theorem Pushed.append {q : ℕ} {c : Value} (h : Pushed code q c) : Pushed (code ++ more) q c := by
  induction h with
  | constant hinst hop hc =>
    refine .constant ?_ hop hc
    rw [List.getElem?_append_left (List.getElem?_eq_some_iff.mp hinst).1]
    exact hinst
  | @load q p r inst v c hinst hloads hstore hpush _ ih =>
    have hq := (List.getElem?_eq_some_iff.mp hinst).1
    have hp := (lastBefore_some hstore).1
    refine .load ?_ hloads ((lastBefore_append (Nat.le_of_lt hq)).trans hstore)
      ((lastBefore_append (Nat.le_of_lt (Nat.lt_trans hp hq))).trans hpush) ih
    rw [List.getElem?_append_left hq]
    exact hinst

theorem Stored.append {k : ℕ} {c : Value} (hk : k ≤ code.length) (h : Stored code k c) :
    Stored (code ++ more) k c := by
  obtain ⟨q, hq, hpushed⟩ := h
  exact ⟨q, (lastBefore_append hk).trans hq, hpushed.append⟩

end

/-! ## What the first pass knows -/

/-- The number that the passes have for the type of a constant. -/
def ValueType.number : ValueType → ℕ
  | .integer => 1
  | .double => 2
  | _ => 0

/-- A known value is a constant in the code, of the inferred type if there is one. -/
structure Known (type : ℕ) (c : Value) (holds : Value → Prop) : Prop where
  holds : holds c
  type : type = 0 ∨ type = c.type.number

/-- What the first pass knows after the instructions that it has made `code` of. -/
structure Inferred (argCount : ℕ) (code : List Instruction) (s : InferState) : Prop where
  prevType : s.prevType < 16
  types : ∀ info ∈ s.vars, info.type < 16
  last : s.lastValue.type ≠ .unknown → Known s.prevType s.lastValue (Stored code code.length)
  vars : ∀ (v : Word) info, s.vars[v.toNat]? = some info → info.lastValue.type ≠ .unknown →
    Known info.type info.lastValue (fun c =>
      ∃ p, lastStore code code.length v = some p ∧ Stored code p c)
  count : ∀ (v : Word) info, s.vars[v.toNat]? = some info →
    info.stored = (if v.toNat ≤ argCount then 1 else 0) +
      code.countP (fun inst => inst.writes = some v)

theorem Known.mono {type : ℕ} {c : Value} {P Q : Value → Prop} (h : Known type c P)
    (hPQ : P c → Q c) : Known type c Q := ⟨hPQ h.holds, h.type⟩

section

variable {argCount : ℕ} {code : List Instruction} {s : InferState} {inst : Instruction} {v w : Word}

theorem Instruction.writes_of_stores (h : inst.stores = some v) : inst.writes = some v := by
  unfold Instruction.stores at h
  split at h
  · next hop => rw [Instruction.writes, if_pos (by rw [hop]; rfl), h]
  · cases h

theorem Instruction.writesVar_of_writes (h : inst.writes = some v) : inst.op.writesVar = true := by
  unfold Instruction.writes at h
  split at h
  · next hop => exact hop
  · cases h

theorem Instruction.stores_none (h : inst.op.writesVar = false) : inst.stores = none := by
  refine if_neg fun hop => ?_
  rw [hop] at h
  cases h

theorem Instruction.writes_none (h : inst.op.writesVar = false) : inst.writes = none :=
  if_neg (by simp [h])

theorem lastStore_concat (hinst : inst.stores ≠ some v) :
    lastStore (code ++ [inst]) (code ++ [inst]).length v = lastStore code code.length v := by
  rw [lastStore, lastBefore_concat, if_neg (by simpa using hinst), lastStore]

/-- A value that stays known when the next instruction is not another `STORE_VAR` of the variable. -/
theorem Inferred.keep (h : Inferred argCount code s) {info : VarInfo}
    (hinfo : s.vars[v.toNat]? = some info) (hknown : info.lastValue.type ≠ .unknown)
    (hinst : inst.stores ≠ some v) :
    ∃ p, lastStore (code ++ [inst]) (code ++ [inst]).length v = some p ∧
      Stored (code ++ [inst]) p info.lastValue := by
  obtain ⟨p, hp, hstored⟩ := (h.vars v info hinfo hknown).holds
  exact ⟨p, (lastStore_concat hinst).trans hp, hstored.append (Nat.le_of_lt (lastBefore_some hp).1)⟩

/-- The number of writes, after an instruction that does not write the variable. -/
theorem Inferred.count_keep (h : Inferred argCount code s) {info : VarInfo}
    (hinfo : s.vars[v.toNat]? = some info) (hinst : inst.writes ≠ some v) :
    info.stored = (if v.toNat ≤ argCount then 1 else 0) +
      (code ++ [inst]).countP (fun inst => inst.writes = some v) := by
  rw [h.count v info hinfo, List.countP_append, List.countP_singleton]
  simp [hinst]

/-- The same, after one that does. -/
theorem Inferred.count_write (h : Inferred argCount code s) {info : VarInfo}
    (hinfo : s.vars[v.toNat]? = some info) (hinst : inst.writes = some v) :
    info.stored + 1 = (if v.toNat ≤ argCount then 1 else 0) +
      (code ++ [inst]).countP (fun inst => inst.writes = some v) := by
  rw [h.count v info hinfo, List.countP_append, List.countP_singleton]
  simp [hinst, Nat.add_assoc]

theorem set_cases {vars : List VarInfo} {info new : VarInfo}
    (h : (vars.set v.toNat new)[w.toNat]? = some info) :
    (w = v ∧ info = new) ∨ (w ≠ v ∧ vars[w.toNat]? = some info) := by
  by_cases hw : w = v
  · subst hw
    rw [List.getElem?_set_self'] at h
    obtain ⟨_, _, rfl⟩ := Option.map_eq_some_iff.mp h
    exact .inl ⟨rfl, rfl⟩
  · have hne : v.toNat ≠ w.toNat := fun hne => hw (BitVec.eq_of_toNat_eq hne.symm)
    rw [List.getElem?_set_ne hne] at h
    exact .inr ⟨hw, h⟩

theorem Inferred.types_set (h : Inferred argCount code s) {new : VarInfo} (hnew : new.type < 16)
    (i : ℕ) : ∀ info ∈ s.vars.set i new, info.type < 16 := by
  intro info hinfo
  rcases List.mem_or_eq_of_mem_set hinfo with hinfo | rfl
  · exact h.types info hinfo
  · exact hnew

theorem Inferred.load (h : Inferred argCount code s) {info : VarInfo} (hload : inst.loads = some v)
    (hinfo : s.vars[v.toNat]? = some info) :
    Inferred argCount (code ++ [inst])
      { vars := s.vars.set v.toNat { info with loaded := info.loaded + 1 }
        prevType := info.type, lastValue := info.lastValue, loaded := some v } := by
  have hop := (Instruction.loads_some.mp hload).1
  have hwrites : inst.op.writesVar = false := by rw [hop]; rfl
  have htype := h.types info (List.mem_of_getElem? hinfo)
  have hstores (w : Word) : inst.stores ≠ some w := by
    rw [Instruction.stores_none hwrites]
    nofun
  have hwrites' (w : Word) : inst.writes ≠ some w := by
    rw [Instruction.writes_none hwrites]
    nofun
  refine ⟨htype, h.types_set ?_ _, fun hknown => ?_, fun w info' hw hknown => ?_,
    fun w info' hw => ?_⟩
  · exact htype
  · refine (h.vars v info hinfo hknown).mono fun ⟨p, hp, r, hr, hpushed⟩ => ?_
    refine ⟨code.length, ?_, .load (p := p) (r := r) (by simp) hload ?_ ?_ hpushed.append⟩
    · rw [pushedBy, lastBefore_concat, if_pos (by simp [hwrites])]
    · exact (lastBefore_append (Nat.le_refl _)).trans hp
    · exact (lastBefore_append (Nat.le_of_lt (lastBefore_some hp).1)).trans hr
  · rcases set_cases hw with ⟨rfl, rfl⟩ | ⟨-, hw⟩
    · have hkeep := h.keep hinfo hknown (hstores _)
      exact ⟨hkeep, (h.vars _ info hinfo hknown).type⟩
    · exact ⟨h.keep hw hknown (hstores _), (h.vars _ info' hw hknown).type⟩
  · rcases set_cases hw with ⟨rfl, rfl⟩ | ⟨-, hw⟩
    · have hcount := h.count_keep hinfo (hwrites' _)
      exact hcount
    · exact h.count_keep hw (hwrites' _)

/-- What an instruction that writes a variable leaves of the value that was pushed last. -/
theorem Inferred.last_write (h : Inferred argCount code s) (hwrites : inst.op.writesVar = true)
    (hknown : s.lastValue.type ≠ .unknown) :
    Known s.prevType s.lastValue (Stored (code ++ [inst]) (code ++ [inst]).length) := by
  refine (h.last hknown).mono fun ⟨q, hq, hpushed⟩ => ⟨q, ?_, hpushed.append⟩
  rw [pushedBy, lastBefore_concat, if_neg (by simp [hwrites])]
  exact hq

theorem Inferred.store (h : Inferred argCount code s) {info : VarInfo} (hstore : inst.stores = some v)
    (hinfo : s.vars[v.toNat]? = some info) :
    Inferred argCount (code ++ [inst])
      { s with
        vars := s.vars.set v.toNat ⟨s.prevType, info.loaded, info.stored + 1, s.lastValue⟩
        loaded := none } := by
  have hwrite := Instruction.writes_of_stores hstore
  have hwrites := Instruction.writesVar_of_writes hwrite
  refine ⟨h.prevType, h.types_set h.prevType _, h.last_write hwrites, fun w info' hw hknown => ?_,
    fun w info' hw => ?_⟩
  · rcases set_cases hw with ⟨rfl, rfl⟩ | ⟨hne, hw⟩
    · refine (h.last hknown).mono fun hstored => ⟨code.length, ?_, ?_⟩
      · rw [lastStore, lastBefore_concat, if_pos (by simpa using hstore)]
      · exact hstored.append (Nat.le_refl _)
    · refine ⟨h.keep hw hknown ?_, (h.vars w info' hw hknown).type⟩
      rw [hstore]
      exact fun heq => hne (Option.some.inj heq).symm
  · rcases set_cases hw with ⟨rfl, rfl⟩ | ⟨hne, hw⟩
    · exact h.count_write hinfo hwrite
    · refine h.count_keep hw ?_
      rw [hwrite]
      exact fun heq => hne (Option.some.inj heq).symm

theorem Inferred.inc (h : Inferred argCount code s) {info : VarInfo} (hwrite : inst.writes = some v)
    (hstore : inst.stores = none) (hinfo : s.vars[v.toNat]? = some info) :
    Inferred argCount (code ++ [inst])
      { s with
        vars := s.vars.set v.toNat ⟨0, info.loaded + 1, info.stored + 1, info.lastValue⟩
        loaded := none } := by
  have hwrites := Instruction.writesVar_of_writes hwrite
  have hstores (w : Word) : inst.stores ≠ some w := by
    rw [hstore]
    nofun
  refine ⟨h.prevType, h.types_set ?_ _, h.last_write hwrites, fun w info' hw hknown => ?_,
    fun w info' hw => ?_⟩
  · exact Nat.zero_lt_succ 15
  · rcases set_cases hw with ⟨rfl, rfl⟩ | ⟨-, hw⟩
    · have hkeep := h.keep hinfo hknown (hstores _)
      exact ⟨hkeep, .inl rfl⟩
    · exact ⟨h.keep hw hknown (hstores _), (h.vars w info' hw hknown).type⟩
  · rcases set_cases hw with ⟨rfl, rfl⟩ | ⟨hne, hw⟩
    · exact h.count_write hinfo hwrite
    · refine h.count_keep hw ?_
      rw [hwrite]
      exact fun heq => hne (Option.some.inj heq).symm

theorem OpCode.type_lt (op : OpCode) : op.type < 16 := by
  have hle : op.toNat &&& 0xf0 ≤ 0xf0 := Nat.and_le_right
  rw [OpCode.type, Nat.shiftRight_eq_div_pow]
  omega

/-- An instruction with a type is another arithmetic instruction. -/
theorem addType_op {type : ℕ} (htakes : takesType type inst.op = true) (htype : type < 16) :
    (addType type inst).op.toNat &&& 0xf00 = 0x200 := by
  have hshift : ∀ type < 16, (type <<< 4) &&& 0xf00 = 0 := by decide
  simp only [takesType, Bool.and_eq_true, beq_iff_eq] at htakes
  rw [addType, OpCode.toNat_ofNat, Nat.and_or_distrib_right, hshift type htype,
    htakes.2]
  rfl

/-- Neither a load nor a write, and a constant only if it is one in the code. -/
theorem Inferred.other (h : Inferred argCount code s) {prevType : ℕ} {c : Value}
    (hwrites : inst.op.writesVar = false) (hprev : prevType < 16)
    (hc : c.type ≠ .unknown → (inst.op = .pushI ∨ inst.op = .pushD) ∧
      pushedConstant inst = some c ∧ prevType = c.type.number) :
    Inferred argCount (code ++ [inst])
      { vars := s.vars, prevType := prevType, lastValue := c, loaded := none } := by
  have hstores (w : Word) : inst.stores ≠ some w := by
    rw [Instruction.stores_none hwrites]
    nofun
  have hwrites' (w : Word) : inst.writes ≠ some w := by
    rw [Instruction.writes_none hwrites]
    nofun
  refine ⟨hprev, h.types, fun hknown => ?_, fun w info hw hknown => ?_, fun w info hw => ?_⟩
  · obtain ⟨hop, hpushed, htype⟩ := hc hknown
    refine ⟨⟨code.length, ?_, .constant (by simp) hop hpushed⟩, .inr htype⟩
    rw [pushedBy, lastBefore_concat, if_pos (by simp [hwrites])]
  · exact ⟨h.keep hw hknown (hstores _), (h.vars w info hw hknown).type⟩
  · exact h.count_keep hw (hwrites' _)

theorem pushedConstant_known {c : Value} (hc : pushedConstant inst = some c)
    (hknown : c.type ≠ .unknown) :
    (inst.op = .pushI ∧ c.type.number = 1) ∨ (inst.op = .pushD ∧ c.type.number = 2) := by
  unfold pushedConstant at hc
  split at hc
  · next hop =>
    obtain ⟨w, -, rfl⟩ := Option.map_eq_some_iff.mp hc
    exact .inl ⟨hop, rfl⟩
  · next hop =>
    obtain ⟨w, -, rfl⟩ := Option.map_eq_some_iff.mp hc
    exact .inr ⟨hop, rfl⟩
  · obtain rfl := Option.some.inj hc
    exact absurd rfl hknown

theorem writesVar_of_arithmetic {op : OpCode} (h : op.toNat &&& 0xf00 = 0x200) :
    op.writesVar = false := by
  cases hop : op.writesVar with
  | false => rfl
  | true =>
    cases op with
    | storeVar | incVar | incVarD => cases h
    | _ => cases hop

/-- One instruction of the first pass. -/
theorem Inferred.step (h : Inferred argCount code s) {inst' : Instruction} {s' : InferState}
    (hinfer : inferInstruction s inst = some (inst', s')) :
    Inferred argCount (code ++ [inst']) s' := by
  cases inferInstruction_step hinfer with
  | load hop hv hinfo => exact h.load (Instruction.loads_some.mpr ⟨hop, hv⟩) hinfo
  | store hop hv hinfo => exact h.store (by rw [Instruction.stores, if_pos hop, hv]) hinfo
  | inc hop hv hinfo =>
    have hwrites : inst.op.writesVar = true := by
      rcases hop with hop | hop <;> rw [hop] <;> rfl
    refine h.inc (by rw [Instruction.writes, if_pos hwrites, hv]) (if_neg ?_) hinfo
    rcases hop with hop | hop <;> rw [hop] <;> decide
  | typed _ _ hc htakes =>
    refine h.other (writesVar_of_arithmetic (addType_op htakes h.prevType)) h.prevType fun hknown => ?_
    rcases pushedConstant_known hc hknown with ⟨hop, -⟩ | ⟨hop, -⟩
    · simp [takesType, hop, OpCode.toNat] at htakes
    · simp [takesType, hop, OpCode.toNat] at htakes
  | dup hdup hc =>
    refine h.other (by rw [hdup]; rfl) h.prevType fun hknown => ?_
    rcases pushedConstant_known hc hknown with ⟨hop, -⟩ | ⟨hop, -⟩
    · rw [hop] at hdup
      cases hdup
    · rw [hop] at hdup
      cases hdup
  | other _ hwrites hc =>
    refine h.other hwrites (OpCode.type_lt _) fun hknown => ?_
    rcases pushedConstant_known hc hknown with ⟨hop, htype⟩ | ⟨hop, htype⟩
    · exact ⟨.inl hop, hc, by rw [hop, htype]; rfl⟩
    · exact ⟨.inr hop, hc, by rw [hop, htype]; rfl⟩

/-- **The first pass.** What it knows at the end of the code. -/
theorem Inferred.run {insts code' : List Instruction} {vars : List VarInfo}
    (h : Inferred argCount code s) (hinfer : inferTypes insts s = some (code', vars)) :
    ∃ s', s'.vars = vars ∧ Inferred argCount (code ++ code') s' := by
  induction insts generalizing code s code' with
  | nil =>
    obtain ⟨rfl, rfl⟩ := Prod.mk.inj (Option.some.inj hinfer)
    exact ⟨s, rfl, by rwa [List.append_nil]⟩
  | cons first rest ih =>
    simp only [inferTypes, Option.bind_eq_bind, Option.bind_eq_some_iff] at hinfer
    obtain ⟨⟨first', s₁⟩, hfirst, ⟨rest', vars₁⟩, hrest, hinfer⟩ := hinfer
    obtain ⟨rfl, rfl⟩ := Prod.mk.inj (Option.some.inj hinfer)
    obtain ⟨s', hvars, hs'⟩ := ih (h.step hfirst) hrest
    exact ⟨s', hvars, by rwa [List.append_assoc] at hs'⟩

theorem Inferred.initial (localVars : ℕ) :
    Inferred argCount [] (.initial localVars argCount) := by
  have hinit (i : ℕ) (info : VarInfo) (h : (VarInfo.initial localVars argCount)[i]? = some info) :
      info = ⟨0, 0, if i ≤ argCount then 1 else 0, Value.zero⟩ := by
    rw [VarInfo.initial, List.getElem?_map] at h
    obtain ⟨k, hk, rfl⟩ := Option.map_eq_some_iff.mp h
    obtain ⟨hlt, hk⟩ := List.getElem?_eq_some_iff.mp hk
    rw [List.getElem_range] at hk
    rw [hk]
  refine ⟨Nat.zero_lt_succ 15, fun info hinfo => ?_, fun hknown => absurd rfl hknown,
    fun v info hv hknown => ?_, fun v info hv => ?_⟩
  · obtain ⟨i, hi⟩ := List.mem_iff_getElem?.mp hinfo
    rw [hinit i info hi]
    exact Nat.zero_lt_succ 15
  · rw [hinit _ info hv] at hknown
    exact absurd rfl hknown
  · rw [hinit _ info hv]
    rfl

end

/-! ## The second pass -/

theorem VarInfo.constant_some {info : VarInfo} {c : Value} (h : info.constant = some c) :
    info.stored = 1 ∧ info.lastValue.type ≠ .unknown ∧
      (info.type = 1 ∧ c = Value.integer info.lastValue.bits ∨
        info.type = 2 ∧ c = Value.double info.lastValue.bits) := by
  unfold VarInfo.constant at h
  split at h
  · next hconstant =>
    simp only [VarInfo.isConstant, Bool.and_eq_true, beq_iff_eq, bne_iff_ne] at hconstant
    refine ⟨hconstant.1, hconstant.2, ?_⟩
    split at h
    · next htype => exact .inl ⟨htype, (Option.some.inj h).symm⟩
    · split at h
      · next htype => exact .inr ⟨htype, (Option.some.inj h).symm⟩
      · cases h
  · cases h

/-- What becomes of an instruction in the second pass. -/
inductive Replaced (vars : List VarInfo) (inst : Instruction) : Instruction → Prop
  | same : Replaced vars inst inst
  | constant {v : Word} {info : VarInfo} {c : Value} (hloads : inst.loads = some v)
      (hinfo : vars[v.toNat]? = some info) (hc : info.constant = some c) :
      Replaced vars inst (pushConstant c)

theorem Replaced.of_set {vars : List VarInfo} {v : Word} {info : VarInfo} {loaded : ℕ}
    {inst inst' : Instruction} (hinfo : vars[v.toNat]? = some info)
    (h : Replaced (vars.set v.toNat { info with loaded := loaded }) inst inst') :
    Replaced vars inst inst' := by
  cases h with
  | same => exact .same
  | constant hloads hinfo' hc =>
    rcases set_cases hinfo' with ⟨rfl, rfl⟩ | ⟨-, hinfo'⟩
    · exact .constant hloads hinfo hc
    · exact .constant hloads hinfo' hc

theorem replaceLoads_replaced {code code' : List Instruction} {vars vars' : List VarInfo}
    (h : replaceLoads code vars = some (code', vars')) :
    code'.length = code.length ∧ ∀ (i : ℕ) inst inst', code[i]? = some inst →
      code'[i]? = some inst' → Replaced vars inst inst' := by
  induction code generalizing code' vars with
  | nil =>
    obtain ⟨rfl, rfl⟩ := Prod.mk.inj (Option.some.inj h)
    refine ⟨rfl, fun i inst inst' hi _ => ?_⟩
    simp at hi
  | cons first rest ih =>
    have hcons {first' : Instruction} {rest' : List Instruction} {vars₁ : List VarInfo}
        (hfirst : Replaced vars first first')
        (hrest : replaceLoads rest vars₁ = some (rest', vars'))
        (hvars : ∀ inst inst', Replaced vars₁ inst inst' → Replaced vars inst inst') :
        (first' :: rest').length = (first :: rest).length ∧ ∀ (i : ℕ) inst inst',
          (first :: rest)[i]? = some inst → (first' :: rest')[i]? = some inst' →
            Replaced vars inst inst' := by
      obtain ⟨hlen, hreplaced⟩ := ih hrest
      refine ⟨congrArg Nat.succ hlen, fun i inst inst' hi hi' => ?_⟩
      cases i with
      | zero =>
        obtain rfl := Option.some.inj hi
        obtain rfl := Option.some.inj hi'
        exact hfirst
      | succ i => exact hvars _ _ (hreplaced i inst inst' hi hi')
    rw [replaceLoads] at h
    split at h
    · next hop =>
      simp only [Option.bind_eq_bind, Option.bind_eq_some_iff] at h
      obtain ⟨v, hv, info, hinfo, h⟩ := h
      split at h
      · next c hc =>
        simp only [Option.bind_eq_some_iff] at h
        obtain ⟨⟨rest', vars₁⟩, hrest, h⟩ := h
        obtain ⟨rfl, rfl⟩ := Prod.mk.inj (Option.some.inj h)
        exact hcons (.constant (Instruction.loads_some.mpr ⟨hop, hv⟩) hinfo hc) hrest
          fun _ _ => .of_set hinfo
      · simp only [Option.bind_eq_some_iff] at h
        obtain ⟨⟨rest', vars₁⟩, hrest, h⟩ := h
        obtain ⟨rfl, rfl⟩ := Prod.mk.inj (Option.some.inj h)
        exact hcons .same hrest fun _ _ h => h
    · simp only [Option.bind_eq_bind, Option.bind_eq_some_iff] at h
      obtain ⟨⟨rest', vars₁⟩, hrest, h⟩ := h
      obtain ⟨rfl, rfl⟩ := Prod.mk.inj (Option.some.inj h)
      exact hcons .same hrest fun _ _ h => h

theorem countP_eq_one {α : Type} {p : α → Bool} {l : List α} (h : l.countP p = 1) {i j : ℕ}
    {a b : α} (hi : l[i]? = some a) (hj : l[j]? = some b) (ha : p a = true) (hb : p b = true) :
    i = j := by
  induction l generalizing i j with
  | nil => simp at hi
  | cons x l ih =>
    rw [List.countP_cons] at h
    cases i with
    | zero =>
      cases j with
      | zero => rfl
      | succ j =>
        obtain rfl := Option.some.inj hi
        have hpos : 0 < l.countP p := List.countP_pos_iff.mpr ⟨b, List.mem_of_getElem? hj, hb⟩
        rw [if_pos ha] at h
        omega
    | succ i =>
      have hpos : 0 < l.countP p := List.countP_pos_iff.mpr ⟨a, List.mem_of_getElem? hi, ha⟩
      have hone : l.countP p = 1 := by omega
      cases j with
      | zero =>
        obtain rfl := Option.some.inj hj
        rw [if_pos hb] at h
        omega
      | succ j => exact congrArg Nat.succ (ih hone hi hj)

/-- A variable with a constant is written at one position of the code, where the constant is stored. -/
theorem Inferred.constant {argCount : ℕ} {code : List Instruction} {s : InferState} {v : Word}
    {info : VarInfo} {c : Value} (h : Inferred argCount code s)
    (hinfo : s.vars[v.toNat]? = some info) (hc : info.constant = some c) :
    ∃ p, Stored code p c ∧ (∃ inst, code[p]? = some inst ∧ inst.stores = some v) ∧
      ∀ i inst, code[i]? = some inst → inst.writes = some v → i = p := by
  obtain ⟨hone, hknown, htype⟩ := VarInfo.constant_some hc
  obtain ⟨⟨p, hp, hstored⟩, hnumber⟩ := h.vars v info hinfo hknown
  have hc : c = info.lastValue := by
    generalize info.lastValue = value at hknown htype hnumber
    obtain ⟨type, bits⟩ := value
    rcases htype with ⟨htype, rfl⟩ | ⟨htype, rfl⟩ <;> rw [htype] at hnumber <;>
      cases type <;> simp [ValueType.number, Value.integer, Value.double] at hnumber ⊢
  obtain ⟨-, inst, hinst, hstores⟩ := lastBefore_some hp
  have hstores : inst.stores = some v := by simpa using hstores
  refine ⟨p, hc ▸ hstored, ⟨inst, hinst, hstores⟩, fun i inst' hi hwrites => ?_⟩
  have hcount := h.count v info hinfo
  have hpos : 0 < code.countP (fun inst => inst.writes = some v) := List.countP_pos_iff.mpr
    ⟨inst, List.mem_of_getElem? hinst, by simpa using Instruction.writes_of_stores hstores⟩
  have hcount : code.countP (fun inst => inst.writes = some v) = 1 := by omega
  exact countP_eq_one hcount hi hinst (by simpa using hwrites)
    (by simpa using Instruction.writes_of_stores hstores)

end B0rk
