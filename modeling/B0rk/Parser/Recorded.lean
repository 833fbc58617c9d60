import B0rk.Parser.Steps

set_option autoImplicit false

/-! # What is left in `m_expressions`

An expression is put into `m_expressions` when it is made, and stays there when parsing fails and it is
not made use of. At the end of a parse that goes well all the same, `resolveTypes` looks at every entry.
What it must not come to is an operation without operands, an expression that has been deleted together
with its block, or a variable that is an operand and whose block has been deleted. The calls of the
parser are gone through for such entries. -/

namespace B0rk

variable {World : Type}

/-! ## Operators of one expression -/

def QueueEntry.isOperator : QueueEntry → Bool
  | .operator _ => true
  | _ => false

/-- `buildTree`, called with this queue, leaves an operation that has neither operand: one that it does
    not come to, or whose first operand cannot be built. -/
def leavesBare (P : ParserEnv World) : ℕ → List QueueEntry → Bool
  | 0, queue => queue.any (·.isOperator)
  | _ + 1, [] => false
  | _ + 1, .bracket :: queue | _ + 1, .value _ :: queue => queue.any (·.isOperator)
  | n + 1, .operator desc :: queue =>
      if desc.hasRightExpr then
        match buildTree P n queue with
        -- `right` is NULL, and `left` has not been set
        | none => true
        | some (_, queue) =>
            if desc.hasLeftExpr then
              match buildTree P n queue with
              -- `resolveType` does nothing without `left` if there is a `right`
              | none => leavesBare P n queue
              | some (_, queue) => queue.any (·.isOperator)
            else queue.any (·.isOperator)
      else
        match buildTree P n queue with
        | none => true
        | some (_, queue) => queue.any (·.isOperator)

def Expression.isVar : Expression → Bool
  | .var .. => true
  | _ => false

/-- `buildTree`, called with this queue, makes a variable an operand of something else than a
    reference. -/
def bindsVar (P : ParserEnv World) : ℕ → List QueueEntry → Bool
  | n + 1, .operator desc :: queue =>
      if desc.hasRightExpr then
        bindsVar P n queue ||
          match buildTree P n queue with
          | none => false
          | some (right, queue) =>
              right.isVar && desc.oper != .reference ||
                desc.hasLeftExpr && (bindsVar P n queue ||
                  match buildTree P n queue with
                  | none => false
                  | some (left, _) => left.isVar && desc.oper != .reference)
      else
        bindsVar P n queue ||
          match buildTree P n queue with
          | none => false
          | some (left, _) => left.isVar && desc.oper != .reference
  | _, _ => false

/-- A literal that `buildTree` has folded is the only expression that is not in `m_expressions`. -/
def Expression.isRecorded : Expression → Bool
  | .integer .unknown _ | .double .unknown _ => false
  | _ => true

def CodeBlock.anyRecorded (code : CodeBlock) : Bool := code.code.any (·.isRecorded)

/-! ## What a call leaves -/

/-- The queue that `parseExpression` builds its tree from. -/
def outputQueue (P : ParserEnv World) (fuel : ℕ) (endToken : TokenType) (s : ParserState World) :
    Option (List QueueEntry) :=
  (Attempt.result (parseExpressionLoop P fuel endToken [] [] 0) s).map fun (queue, operators) =>
    operators.foldl (fun queue op => QueueEntry.ofOperator op :: queue) queue

namespace ParseStep

variable (P : ParserEnv World)

/-- The call leaves an operation without operands: because the loop over an expression fails behind an
    operator, or because `buildTree` does not make use of it. -/
def leavesBare : ParseStep → ParserState World → Bool
  | loop fuel endToken queue operators brackets, s =>
      Attempt.failsFrom (parseExpressionLoop P fuel endToken queue operators brackets) s &&
        (queue.any (·.isOperator) || operators.any (·.isSome))
  | expression (fuel + 1) endToken, s =>
      (outputQueue P fuel endToken s).any fun queue => B0rk.leavesBare P queue.length queue
  | _, _ => false

/-- An expression of the same block that the call reads makes a variable an operand. -/
def bindsVar : ℕ → ParseStep → ParserState World → Bool
  | _, block .., _ | _, function _, _ => false
  | 0, _, _ => false
  | n + 1, step, s =>
      (match step with
      | expression (fuel + 1) endToken =>
          (outputQueue P fuel endToken s).any fun queue => B0rk.bindsVar P queue.length queue
      | _ => false) ||
        (step.calls P s).any fun (step', t) => bindsVar n step' t

/-- A statement of the block makes a variable of it an operand. -/
def blockBindsVar : ℕ → ParseStep → ParserState World → Bool
  | n + 1, block fuel code, s =>
      ((block fuel code).calls P s).any fun (step, t) => bindsVar P n step t || blockBindsVar n step t
  | _, _, _ => false

/-- One of the calls, other than those for a block, makes a variable an operand. -/
def anyBindsVar (n : ℕ) (calls : List (ParseStep × ParserState World)) : Bool :=
  calls.any fun (step, t) => bindsVar P n step t

/-- One of the blocks that the calls are for has such a variable. -/
def anyBlockBindsVar (n : ℕ) (calls : List (ParseStep × ParserState World)) : Bool :=
  calls.any fun (step, t) => blockBindsVar P n step t

/-- What those of the calls return that are for an expression. -/
def exprs (calls : List (ParseStep × ParserState World)) : List Expression :=
  calls.filterMap fun
    | (expression fuel endToken, s) => Attempt.result (parseExpression P fuel endToken) s
    | _ => none

/-- What those of the calls return that are for a block. -/
def blocks (calls : List (ParseStep × ParserState World)) : List CodeBlock :=
  calls.filterMap fun
    | (block fuel code, s) => Attempt.result (parseCodeBlock P fuel code) s
    | _ => none

/-- What a statement has put into `m_code` or, with a block, into `m_childBlocks` when it fails, told
    from its first token and its calls. -/
def statementRecords (calls : List (ParseStep × ParserState World)) : TokenType → Bool
  -- these two are in `m_code` before anything behind the word is read
  | .tokReturn | .tokTry => true
  | .tokThrow => !(exprs P calls).isEmpty
  | .tokVar => (exprs P calls).any (·.isRecorded)
  | .tokIf => (blocks P calls).any (·.anyRecorded)
  | _ => false

/-- The parts of a `for`, and the test of a `while`, have it for their `parent`, also those that are
    variables. -/
def forBindsVar (calls : List (ParseStep × ParserState World)) : TokenType → Bool
  | .tokFor | .tokWhile => (exprs P calls).any (·.isVar)
  | _ => false

/-- A block is deleted, because a statement fails, with an entry of `m_expressions` that `resolveTypes`
    will look at, or while an entry asks it for a variable. -/
def deletesUsed : ParseStep → ParserState World → Bool
  | statement (fuel + 1) code, s =>
      let calls := (statement (fuel + 1) code).calls P s
      Attempt.failsFrom (parseStatement P (fuel + 1) code) s &&
        (code.anyRecorded || bindsVar P (fuel + 1) (statement (fuel + 1) code) s ||
          -- the block of an `if` whose `else` fails is deleted with the one around it
          anyBlockBindsVar P (fuel + 1) calls ||
          (Attempt.result (nextToken P) s).any fun token =>
            statementRecords P calls token.type || forBindsVar P calls token.type)
  | block (fuel + 1) code, s =>
      -- a later statement fails
      Attempt.failsFrom (parseCodeBlock P (fuel + 1) code) s &&
        anyBindsVar P (fuel + 1) ((block (fuel + 1) code).calls P s)
  | _, _ => false

/-- `resolveTypes` comes to an entry that it must not come to, left by the call or by one below it. -/
def unresolvable : ℕ → ParseStep → ParserState World → Bool
  | 0, _, _ => false
  | n + 1, step, s =>
      step.leavesBare P s || step.deletesUsed P s ||
        (step.calls P s).any fun (step', t) => unresolvable n step' t

/-- `resolveTypes` can go through what the call has put into `m_expressions`. -/
def resolvable (step : ParseStep) (s : ParserState World) : Bool :=
  !unresolvable P (step.fuel + 1) step s

end ParseStep

end B0rk
