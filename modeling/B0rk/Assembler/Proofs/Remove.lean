import B0rk.Assembler.Optimise
import B0rk.Lib.Removal

set_option autoImplicit false

/-! # Removing instructions

Both optimisations collect the positions of the instructions that go in a set and hand them to
`removeInstruction` in ascending order. Every call compares the addresses with a position that the
calls before it have shifted, and so have they shifted the addresses: in the end an address is lower
by the number of removed instructions in front of it. -/

namespace B0rk

open Removal

variable {code : List Instruction} {pos : ℕ}

/-- An instruction whose address `t` becomes `f t`. -/
def renumber (f : ℕ → ℕ) (inst : Instruction) : Instruction :=
  match inst.op.address with
  | none => inst
  | some j => ⟨inst.op, inst.args.modify j (fun addr => BitVec.ofNat 64 (f addr.toNat))⟩

/-- An instruction with an address has it among its operands. -/
def Instruction.HasAddress (inst : Instruction) : Prop :=
  ∀ j, inst.op.address = some j → ∃ addr, inst.args[j]? = some addr

/-- Known opcodes, and addresses up to the end of the code. -/
def WellAddressed (code : List Instruction) : Prop :=
  ∀ inst ∈ code, inst.op ∈ OpCode.all ∧ ∀ j, inst.op.address = some j →
    ∃ addr, inst.args[j]? = some addr ∧ addr.toNat ≤ code.length

theorem WellAddressed.hasAddress (h : WellAddressed code) : ∀ inst ∈ code, inst.HasAddress := by
  intro inst hinst j hj
  obtain ⟨addr, haddr, -⟩ := (h inst hinst).2 j hj
  exact ⟨addr, haddr⟩

@[simp]
theorem renumber_op {f : ℕ → ℕ} {inst : Instruction} : (renumber f inst).op = inst.op := by
  unfold renumber
  split <;> rfl

theorem Instruction.HasAddress.renumber {f : ℕ → ℕ} {inst : Instruction} (h : inst.HasAddress) :
    (renumber f inst).HasAddress := by
  intro j hj
  rw [renumber_op] at hj
  obtain ⟨addr, haddr⟩ := h j hj
  simp [B0rk.renumber, hj, haddr]

theorem renumber_id {inst : Instruction} : renumber id inst = inst := by
  unfold renumber
  split
  · rfl
  · have hid : (fun addr : Word => BitVec.ofNat 64 (id addr.toNat)) = id := by
      funext addr
      simp
    rw [hid, List.modify_id]

theorem renumber_renumber {f g : ℕ → ℕ} (hf : ∀ t, f t ≤ t) {inst : Instruction} :
    renumber g (renumber f inst) = renumber (fun t => g (f t)) inst := by
  cases haddress : inst.op.address with
  | none => simp [renumber, haddress]
  | some j =>
    have htwice : ∀ addr : Word, BitVec.ofNat 64 (g (BitVec.ofNat 64 (f addr.toNat)).toNat) =
        BitVec.ofNat 64 (g (f addr.toNat)) := by
      intro addr
      have hlt : f addr.toNat < 2 ^ 64 := lt_of_le_of_lt (hf _) addr.isLt
      rw [BitVec.toNat_ofNat, Nat.mod_eq_of_lt hlt]
    simp only [renumber, haddress, List.modify_modify_eq, Function.comp_def, htwice]

/-- "Update addresses": an address behind the removed instruction goes down by one. -/
theorem removeAddress_eq {inst : Instruction} (h : inst.HasAddress) :
    removeAddress pos inst = some (renumber (fun t => if pos < t then t - 1 else t) inst) := by
  cases haddress : inst.op.address with
  | none => simp [removeAddress, renumber, haddress]
  | some j =>
    obtain ⟨addr, haddr⟩ := h j haddress
    simp only [removeAddress, renumber, haddress, haddr, Option.bind_eq_bind, Option.bind_some]
    rw [List.modify_eq_set_getElem?, haddr]
    simp only [Option.map_eq_map, Option.map_some, Option.getD_some]
    split
    · next hpos =>
      have hsub : addr - 1 = BitVec.ofNat 64 (addr.toNat - 1) := by
        apply BitVec.eq_of_toNat_eq
        rw [BitVec.toNat_ofNat, Nat.mod_eq_of_lt (by omega)]
        bv_omega
      rw [hsub]
    · have hsame : inst.args.set j (BitVec.ofNat 64 addr.toNat) = inst.args := by
        obtain ⟨hj, rfl⟩ := List.getElem?_eq_some_iff.mp haddr
        simp
      rw [hsame]

/-- One call of `removeInstruction`. -/
theorem removeInstruction_eq (h : ∀ inst ∈ code, inst.HasAddress) :
    removeInstruction pos code =
      some ((code.eraseIdx pos).map (renumber (fun t => if pos < t then t - 1 else t))) := by
  have hmapM : ∀ l : List Instruction, (∀ inst ∈ l, inst.HasAddress) →
      l.mapM (removeAddress pos) =
        some (l.map (renumber (fun t => if pos < t then t - 1 else t))) := by
    intro l hl
    induction l with
    | nil => rfl
    | cons inst l ih =>
      rw [List.mapM_cons, removeAddress_eq (hl inst (List.mem_cons_self ..)),
        ih (fun inst' hinst' => hl inst' (List.mem_cons_of_mem _ hinst'))]
      rfl
  exact hmapM _ (fun inst hinst => h inst (List.mem_of_mem_eraseIdx hinst))

/-- The whole loop, in the positions of the code that it is started with: `pos` instructions are gone
    already. -/
theorem removeInstructions_eq (pos : ℕ) (code : List Instruction) {removeList : List ℕ} (hsorted : removeList.Pairwise (· < ·))
    (hremoved : ∀ r ∈ removeList, pos ≤ r ∧ r < code.length + pos)
    (h : ∀ inst ∈ code, inst.HasAddress) :
    removeInstructions removeList pos code =
      some ((survivors (removeList.map (· - pos)) 0 code).map
        (renumber (newPos (removeList.map (· - pos))))) := by
  induction removeList generalizing pos code with
  | nil =>
    have hid : newPos [] = id := funext fun t => newPos_nil
    have hrenumber : renumber id = id := funext fun inst => renumber_id
    simp [removeInstructions, hid, hrenumber]
  | cons r removeList ih =>
    obtain ⟨hlt, hsorted⟩ := List.pairwise_cons.mp hsorted
    obtain ⟨hle, hr⟩ := hremoved r (List.mem_cons_self ..)
    have hnext : removeList.map (· - (pos + 1)) = next (removeList.map (· - pos)) := by
      simp only [next, List.map_map]
      refine List.map_congr_left (fun r' _ => ?_)
      simp only [Function.comp_apply]
      omega
    have hbehind : ∀ r' ∈ removeList.map (· - pos), r - pos < r' := by
      intro r' hr'
      obtain ⟨r'', hr'', rfl⟩ := List.mem_map.mp hr'
      have hlt' := hlt r'' hr''
      omega
    have hrest := ih (pos + 1)
      ((code.eraseIdx (r - pos)).map (renumber (fun t => if r - pos < t then t - 1 else t))) hsorted
      (fun r' hr' => by
        have hlt' := hlt r' hr'
        obtain ⟨-, hr'⟩ := hremoved r' (List.mem_cons_of_mem _ hr')
        rw [List.length_map, List.length_eraseIdx_of_lt (by omega)]
        omega)
      (fun inst hinst => by
        obtain ⟨inst', hinst', rfl⟩ := List.mem_map.mp hinst
        exact (h inst' (List.mem_of_mem_eraseIdx hinst')).renumber)
    have hshift : ∀ t, (if r - pos < t then t - 1 else t) ≤ t := by
      intro t
      split <;> omega
    simp only [removeInstructions, removeInstruction_eq h, Option.bind_eq_bind, Option.bind_some,
      hrest, List.map_cons, survivors_map, List.map_map, hnext]
    rw [survivors_cons (by omega) hbehind]
    congr 1
    refine List.map_congr_left (fun inst _ => ?_)
    rw [Function.comp_apply, renumber_renumber hshift]
    congr 1
    funext t
    rw [newPos_cons hbehind]

/-! ## The set of the positions -/

theorem newPos_sort {R : Finset ℕ} (t : ℕ) :
    newPos (R.sort (· ≤ ·)) t = t - (R.filter (· < t)).card := by
  have hcount : (R.sort (· ≤ ·)).countP (· < t) = (R.filter (· < t)).card := by
    rw [← Multiset.coe_countP, Finset.sort_eq, Multiset.countP_eq_card_filter]
    rfl
  rw [newPos, hcount]

/-- The removal of a set of instructions: the others stay, in their order, and every address `t` is the
    new position of the first of them at or after `t`. -/
theorem removeInstructions_sort {R : Finset ℕ} (hcode : WellAddressed code)
    (hR : ∀ r ∈ R, r < code.length) :
    removeInstructions (R.sort (· ≤ ·)) 0 code =
        some ((survivors (R.sort (· ≤ ·)) 0 code).map
          (renumber (fun t => t - (R.filter (· < t)).card))) ∧
      ∀ t ≤ code.length,
        (∀ s, t ≤ s → s < code.length → s ∉ R → (∀ u, t ≤ u → u < s → u ∈ R) →
          t - (R.filter (· < t)).card = s - (R.filter (· < s)).card ∧
            (survivors (R.sort (· ≤ ·)) 0 code)[t - (R.filter (· < t)).card]? = code[s]?) ∧
        ((∀ u, t ≤ u → u < code.length → u ∈ R) →
          t - (R.filter (· < t)).card = (survivors (R.sort (· ≤ ·)) 0 code).length) := by
  have hsorted : (R.sort (· ≤ ·)).Pairwise (· < ·) := (Finset.sortedLT_sort R).pairwise
  refine ⟨?_, fun t ht => ⟨fun s hts hs hsR hrun => ?_, fun hrun => ?_⟩⟩
  · have hmap : (R.sort (· ≤ ·)).map (· - 0) = R.sort (· ≤ ·) := List.map_id _
    have h := removeInstructions_eq 0 code hsorted
      (fun r hr => ⟨Nat.zero_le _, hR r ((Finset.mem_sort _).mp hr)⟩) hcode.hasAddress
    rw [hmap] at h
    rw [h, funext newPos_sort]
  · have hnew := newPos_run hsorted hts (fun u htu hus => (Finset.mem_sort _).mpr (hrun u htu hus))
    refine ⟨by rw [← newPos_sort, ← newPos_sort, hnew], ?_⟩
    rw [← newPos_sort, hnew]
    exact getElem?_newPos hsorted hs (fun hmem => hsR ((Finset.mem_sort _).mp hmem))
  · have hnew := newPos_run hsorted ht (fun u htu hu => (Finset.mem_sort _).mpr (hrun u htu hu))
    rw [← newPos_sort, hnew, newPos_length hsorted]

/-- `if (x) { unused = 2; }` as two instructions that go, behind a jump over them and one into them. -/
def jumpedCode : List Instruction :=
  [⟨.bEq, [4]⟩, ⟨.bNE, [3]⟩, ⟨.pushI, [2]⟩, ⟨.storeVar, [2]⟩, ⟨.jmp, [0]⟩, ⟨.ret, []⟩]

theorem jumpedCode_removed :
    removeInstructions (({2, 3} : Finset ℕ).sort (· ≤ ·)) 0 jumpedCode =
        some [⟨.bEq, [2]⟩, ⟨.bNE, [2]⟩, ⟨.jmp, [0]⟩, ⟨.ret, []⟩] := by
  have hcode : WellAddressed jumpedCode := by
    intro inst hinst
    simp only [jumpedCode, List.mem_cons, List.not_mem_nil, or_false] at hinst
    rcases hinst with rfl | rfl | rfl | rfl | rfl | rfl <;>
      refine ⟨by decide, ?_⟩ <;> rintro j ⟨⟩ <;> exact ⟨_, rfl, by decide⟩
  have hR : ∀ r ∈ ({2, 3} : Finset ℕ), r < jumpedCode.length := by decide
  have hsort : ({2, 3} : Finset ℕ).sort (· ≤ ·) = [2, 3] := by
    rw [Finset.sort_insert (r := (· ≤ ·)) (by decide) (by decide), Finset.sort_singleton]
  rw [(removeInstructions_sort hcode hR).1, hsort]
  decide

end B0rk
