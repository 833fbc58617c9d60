import B0rk.Assembler.Assembler

set_option autoImplicit false

/-! # Steps of the assembler

What the small assembling functions do to the code; the proofs about `assembleExpression` put them
together with `Attempt.Ok.bind`. -/

namespace B0rk

theorem pushInstruction_ok {op : OpCode} {args : List Word} {code code' : List Instruction}
    {u : Unit} : (pushInstruction op args).Ok code u code' ↔ code ++ [⟨op, args⟩] = code' :=
  Attempt.modify_ok

theorem pushInstruction_run (op : OpCode) (args : List Word) (code : List Instruction) :
    (pushInstruction op args).Ok code () (code ++ [⟨op, args⟩]) := pushInstruction_ok.mpr rfl

theorem pushIf_ok {cond : Bool} {op : OpCode} {code code' : List Instruction} {u : Unit} :
    (pushIf cond op).Ok code u code' ↔ code ++ (if cond then [⟨op, []⟩] else []) = code' := by
  cases cond
  · simp [pushIf]
  · exact pushInstruction_ok

theorem lastPos_run (code : List Instruction) (inst : Instruction) :
    lastPos.Ok (code ++ [inst]) (some code.length) (code ++ [inst]) := by
  refine Attempt.read_ok.mpr ⟨?_, rfl⟩
  simp

/-- Back-patching an instruction that is in the code. -/
theorem patch_run (pre post : List Instruction) (op : OpCode) {args : List Word} {arg : ℕ}
    (h : arg < args.length) :
    (patch (some pre.length) arg).Ok (pre ++ [⟨op, args⟩] ++ post) ()
      (pre ++ [⟨op, args.set arg (BitVec.ofNat 64 (pre.length + 1 + post.length))⟩] ++ post) := by
  have hget : (pre ++ [(⟨op, args⟩ : Instruction)] ++ post)[pre.length]? = some ⟨op, args⟩ := by
    simp
  have hset (inst : Instruction) :
      (pre ++ [(⟨op, args⟩ : Instruction)] ++ post).set pre.length inst = pre ++ [inst] ++ post := by
    simp
  have hlen : (pre ++ [(⟨op, args⟩ : Instruction)] ++ post).length =
      pre.length + 1 + post.length := by
    rw [List.length_append, List.length_append, List.length_singleton]
  unfold Attempt.Ok patch
  simp only [Option.bind_eq_bind, Option.bind_some, hget, hset, hlen]
  rw [if_pos h]

theorem singleton_pos (arg : Word) : 0 < [arg].length := Nat.one_pos

/-! ## Tests -/

theorem finishTest_fused {code : List Instruction} {inst : Instruction} {branch : OpCode}
    (hlen : 2 ≤ code.length)
    (h : (inst.op, branch) = (.pushCE, .bNE) ∨ (inst.op, branch) = (.pushCL, .bGE) ∨
      (inst.op, branch) = (.pushCLE, .bG)) :
    finishTest.Ok (code ++ [inst]) () (code ++ [⟨branch, [0]⟩]) := by
  have hlt : (code ++ [inst]).length > 2 := by
    rw [List.length_append]
    exact Nat.lt_succ_of_le hlen
  have hlast : (code ++ [inst]).getLast?.map Instruction.op = some inst.op := by simp
  have hdrop : (code ++ [inst]).dropLast = code := by simp
  unfold Attempt.Ok finishTest
  simp only [if_pos hlt, hlast, hdrop]
  rcases h with h | h | h <;>
  · obtain ⟨hop, rfl⟩ := Prod.mk.inj h
    rw [hop]
    rfl

theorem finishTest_plain (code : List Instruction) {inst : Instruction}
    (h : inst.op ≠ .pushCE ∧ inst.op ≠ .pushCL ∧ inst.op ≠ .pushCLE) :
    finishTest.Ok (code ++ [inst]) ()
      (code ++ [inst] ++ [⟨.pushI, [0]⟩, ⟨.cmpI, []⟩, ⟨.bEq, [0]⟩]) := by
  have hlast : (code ++ [inst]).getLast?.map Instruction.op = some inst.op := by simp
  have hplain : ((do
      pushInstruction .pushI [0]
      pushInstruction .cmpI []
      pushInstruction .bEq [0] : Asm Unit)).Ok (code ++ [inst]) ()
      (code ++ [inst] ++ [⟨.pushI, [0]⟩, ⟨.cmpI, []⟩, ⟨.bEq, [0]⟩]) := by
    simp [pushInstruction_ok]
  unfold Attempt.Ok finishTest
  rw [hlast]
  dsimp only
  split
  · next hop =>
    split at hop
    · exact absurd (Option.some.inj hop) h.1
    · cases hop
  · next hop =>
    split at hop
    · exact absurd (Option.some.inj hop) h.2.1
    · cases hop
  · next hop =>
    split at hop
    · exact absurd (Option.some.inj hop) h.2.2
    · cases hop
  · exact hplain

/-! ## Back-patched statements -/

section

variable {A : AsmEnv} {scope : Scope} (reference : Option (Asm Unit)) (inReference needResult : Bool)
  {test : Expression} {code pre body : List Instruction} {branch : OpCode}

theorem assembleIf_run {trueBlock : CodeBlock}
    (htest : (do assembleExpression A test scope none false true
                 finishTest : Asm Unit).Ok code () (pre ++ [⟨branch, [0]⟩]))
    (hbody : (assembleBlock A trueBlock scope).Ok (pre ++ [⟨branch, [0]⟩]) ()
      (pre ++ [⟨branch, [0]⟩] ++ body)) :
    (assembleExpression A (.ifExpr test trueBlock none) scope reference inReference needResult).Ok
      code () (pre ++ [⟨branch, [BitVec.ofNat 64 (pre.length + 1 + body.length)]⟩] ++ body) := by
  rw [assembleExpression]
  exact htest.orNull.bind ((lastPos_run _ _).bind (hbody.bind (patch_run _ _ _ Nat.one_pos)))

theorem assembleIfElse_run {trueBlock falseBlock : CodeBlock} {body' : List Instruction}
    {elseTarget : Word}
    (htest : (do assembleExpression A test scope none false true
                 finishTest : Asm Unit).Ok code () (pre ++ [⟨branch, [0]⟩]))
    (hbody : (assembleBlock A trueBlock scope).Ok (pre ++ [⟨branch, [0]⟩]) ()
      (pre ++ [⟨branch, [0]⟩] ++ body))
    (helse : elseTarget = BitVec.ofNat 64 (pre.length + 1 + body.length + 1))
    (hbody' : (assembleBlock A falseBlock scope).Ok
      (pre ++ [⟨branch, [elseTarget]⟩] ++ body ++ [⟨.jmp, [0]⟩]) ()
      (pre ++ [⟨branch, [elseTarget]⟩] ++ body ++ [⟨.jmp, [0]⟩] ++ body')) :
    (assembleExpression A (.ifExpr test trueBlock (some falseBlock)) scope reference inReference
      needResult).Ok code ()
      (pre ++ [⟨branch, [elseTarget]⟩] ++ body ++
        [⟨.jmp, [BitVec.ofNat 64 (pre.length + 1 + body.length + 1 + body'.length)]⟩] ++ body') := by
  have hpatch : (patch (some pre.length) 0).Ok
      (pre ++ [⟨branch, [0]⟩] ++ body ++ [⟨.jmp, [0]⟩]) ()
      (pre ++ [⟨branch, [elseTarget]⟩] ++ body ++ [⟨.jmp, [0]⟩]) := by
    have := patch_run pre (body ++ [⟨.jmp, [0]⟩]) branch (singleton_pos 0)
    simpa [helse, List.append_assoc, Nat.add_assoc] using this
  have hpatch' := patch_run (pre ++ [⟨branch, [elseTarget]⟩] ++ body) body' .jmp (singleton_pos 0)
  have hlen (target : Word) : (pre ++ [(⟨branch, [target]⟩ : Instruction)] ++ body).length =
      pre.length + 1 + body.length := by
    simp only [List.length_append, List.length_singleton]
  rw [hlen] at hpatch'
  rw [assembleExpression]
  refine htest.orNull.bind ((lastPos_run _ _).bind (hbody.bind ?_))
  refine (pushInstruction_run _ _ _).bind ((lastPos_run _ _).bind ?_)
  refine hpatch.bind (hbody'.bind ?_)
  rw [hlen]
  exact hpatch'

theorem assembleFor_run {init inc : Option Expression} {body : CodeBlock}
    {initCode bodyCode incCode : List Instruction}
    (hinit : (assembleOptional A init scope).Ok code () initCode)
    (htest : (do assembleExpression A test scope none false true
                 finishTest : Asm Unit).Ok initCode () (pre ++ [⟨branch, [0]⟩]))
    (hbody : (assembleBlock A body scope).Ok (pre ++ [⟨branch, [0]⟩]) ()
      (pre ++ [⟨branch, [0]⟩] ++ bodyCode))
    (hinc : (assembleOptional A inc scope).Ok (pre ++ [⟨branch, [0]⟩] ++ bodyCode) ()
      (pre ++ [⟨branch, [0]⟩] ++ bodyCode ++ incCode)) :
    (assembleExpression A (.forExpr init test inc body) scope reference inReference needResult).Ok
      code () (pre ++ [⟨branch, [BitVec.ofNat 64
        (pre.length + 1 + (bodyCode.length + incCode.length + 1))]⟩] ++
        (bodyCode ++ incCode ++ [⟨.jmp, [BitVec.ofNat 64 initCode.length]⟩])) := by
  have hpatch := patch_run pre
    (bodyCode ++ incCode ++ [⟨.jmp, [BitVec.ofNat 64 initCode.length]⟩]) branch (singleton_pos 0)
  have hlen : (bodyCode ++ incCode ++
      [(⟨.jmp, [BitVec.ofNat 64 initCode.length]⟩ : Instruction)]).length =
      bodyCode.length + incCode.length + 1 := by
    simp only [List.length_append, List.length_singleton]
  rw [hlen] at hpatch
  rw [assembleExpression]
  refine hinit.bind (Attempt.Ok.bind (Attempt.read_ok.mpr ⟨rfl, rfl⟩) ?_)
  refine htest.orNull.bind ((lastPos_run _ _).bind (hbody.bind (hinc.bind ?_)))
  refine (pushInstruction_run _ _ _).bind ?_
  simpa [List.append_assoc] using hpatch

end

end B0rk
