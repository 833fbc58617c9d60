import B0rk.Parser.Steps

set_option autoImplicit false

/-! # The routines are what the parsing functions do -/

namespace B0rk

open Routine

variable {World : Type} {P : ParserEnv World}

section

variable (fuel : ℕ)

theorem loopRoutine_does (endToken : TokenType) (queue : List QueueEntry)
    (operators : List (Option OpDesc)) (brackets : ℕ) :
    Does (ParseStep.run P) (loopRoutine P fuel endToken queue operators brackets)
      (parseExpressionLoop P (fuel + 1) endToken queue operators brackets) := by
  unfold parseExpressionLoop loopRoutine
  refine .bind (.lift _) fun token => .ite (.bind (.lift _) fun _ => .pure _) ?_
  cases opTable.find? (fun desc => desc.token == token.type) with
  | some op => exact .call _
  | none =>
    refine .ite (.call _) (.ite ?_ ?_)
    · cases popToBracket operators queue with
      | none => exact .fail
      | some popped => exact .call _
    · exact .bind (.lift _) fun _ => .bind (.call _) fun _ => .call _

theorem expressionRoutine_does (endToken : TokenType) :
    Does (ParseStep.run P) (expressionRoutine P fuel endToken)
      (parseExpression P (fuel + 1) endToken) := by
  unfold parseExpression expressionRoutine
  refine .bind (.call _) fun (queue, operators) => ?_
  dsimp only
  cases buildTree P _ _ with
  | none => exact .fail
  | some tree => exact .pure _

theorem valueRoutine_does : Does (ParseStep.run P) (valueRoutine P fuel)
    (parseExpressionValue P (fuel + 1)) := by
  unfold parseExpressionValue valueRoutine
  refine .bind (.lift _) fun token => ?_
  cases token.type with
  | tokNew =>
    exact .bind (.call _) fun id => .bind (.call _) fun params => .pure _
  | tokIdentifier =>
    refine .bind (.lift _) fun next => .bind (.lift _) fun (clazz, id) => ?_
    refine .bind (.lift _) fun next => .ite ?_ (.ite ?_ ?_)
    · exact .bind (.lift _) fun _ => .bind (.call _) fun params => .pure _
    · exact .bind (.call _) fun index => .bind (.lift _) fun _ => .pure _
    · exact .bind (.lift _) fun _ => .pure _
  | tokFunction =>
    exact .bind (.attempt _) fun function => .pure _
  | tokLiteral =>
    exact .ite (.pure _) .fail
  | tokString =>
    exact .pure _
  | tokInteger =>
    exact .pure _
  | tokDouble =>
    exact .pure _
  | _ => exact .fail

theorem listRestRoutine_does (exprs : List Expression) :
    Does (ParseStep.run P) (listRestRoutine P fuel exprs)
      (parseExpressionListRest P (fuel + 1) exprs) := by
  unfold parseExpressionListRest listRestRoutine
  refine .bind (.lift _) fun more => .ite (.pure _) (.bind (.lift _) fun token => ?_)
  refine .ite (.pure _) (.bind (.lift _) fun _ => .bind (.call _) fun expr => ?_)
  exact .bind (.lift _) fun token => .ite (.pure _) (.ite (.call _) .fail)

theorem functionRoutine_does : Does (ParseStep.run P) (functionRoutine P fuel)
    (parseFunction P (fuel + 1)) := by
  unfold parseFunction functionRoutine
  refine .bind (.call _) fun args => .bind (.lift _) fun address => .bind (.lift _) fun token => ?_
  exact .bind (.lift _) fun token => .ite .fail (.bind (.call _) fun code => .pure _)

theorem blockRoutine_does (code : CodeBlock) : Does (ParseStep.run P) (blockRoutine P fuel code)
    (parseCodeBlock P (fuel + 1) code) := by
  unfold parseCodeBlock blockRoutine
  refine .bind (.lift _) fun more => .ite (.pure _) (.bind (.call _) fun (code, finished) => ?_)
  exact .ite (.pure _) (.call _)

theorem statementRoutine_does (code : CodeBlock) :
    Does (ParseStep.run P) (statementRoutine P fuel code) (parseStatement P (fuel + 1) code) := by
  unfold parseStatement statementRoutine
  refine .bind (.lift _) fun token => ?_
  cases token.type with
  | tokBraceRight =>
    exact .pure _
  | tokVar =>
    refine .bind (.lift _) fun name => .bind (.lift _) fun next => .ite ?_ (.ite (.pure _) .fail)
    refine .bind (.lift _) fun _ => .bind (.call _) fun expr => ?_
    exact .bind (.lift _) fun _ => .pure _
  | tokIf =>
    refine .bind (.lift _) fun _ => .bind (.call _) fun test => .bind (.lift _) fun _ => ?_
    refine .bind (.lift _) fun _ => .bind (.call _) fun trueBlock => .bind (.lift _) fun next => ?_
    refine .ite (.bind (.lift _) fun next => .bind ?_ fun falseBlock => .pure _) ?_
    · refine .ite (.bind (.lift _) fun _ => ?_) (.ite (.call _) .fail)
      exact .bind (.call _) fun (elseIf, _) => .pure _
    · exact .bind (.lift _) fun _ => .pure _
  | tokFor =>
    refine .bind (.lift _) fun _ => .bind (.call _) fun init => .bind (.lift _) fun _ => ?_
    refine .bind (.call _) fun test => .bind (.lift _) fun _ => .bind (.call _) fun inc => ?_
    refine .bind (.lift _) fun _ => .bind (.lift _) fun _ => .bind (.call _) fun body => .pure _
  | tokWhile =>
    refine .bind (.lift _) fun _ => .bind (.call _) fun test => .bind (.lift _) fun _ => ?_
    exact .bind (.lift _) fun _ => .bind (.call _) fun body => .pure _
  | tokReturn =>
    refine .bind (.lift _) fun next => .ite (.pure _) (.bind (.lift _) fun _ => ?_)
    exact .bind (.attempt _) fun value => .bind (.lift _) fun _ => .pure _
  | tokTry =>
    refine .bind (.lift _) fun _ => .bind (.call _) fun tryBlock => .bind (.lift _) fun _ => ?_
    refine .bind (.lift _) fun _ => .bind (.lift _) fun var => .bind (.lift _) fun _ => ?_
    exact .bind (.lift _) fun _ => .bind (.call _) fun catchBlock => .pure _
  | tokThrow =>
    exact .bind (.call _) fun value => .bind (.lift _) fun _ => .pure _
  | _ =>
    refine .bind (.lift _) fun _ => .bind (.call _) fun expr => ?_
    exact .bind (.lift _) fun _ => .pure _

end

/-- The routines do what the parsing functions do. -/
theorem ParseStep.routine_does (step : ParseStep) :
    Does (ParseStep.run P) (step.routine P) (step.run P) := by
  cases step with
  | identifier fuel => exact .lift _
  | list fuel => exact .lift _
  | loop fuel =>
    cases fuel with
    | zero => exact .undefined
    | succ fuel => exact loopRoutine_does fuel _ _ _ _
  | expression fuel =>
    cases fuel with
    | zero => exact .undefined
    | succ fuel => exact expressionRoutine_does fuel _
  | value fuel =>
    cases fuel with
    | zero => exact .undefined
    | succ fuel => exact valueRoutine_does fuel
  | listRest fuel =>
    cases fuel with
    | zero => exact .undefined
    | succ fuel => exact listRestRoutine_does fuel _
  | expressionList fuel =>
    cases fuel with
    | zero => exact .undefined
    | succ fuel => exact .bind (.lift _) fun _ => .call _
  | function fuel =>
    cases fuel with
    | zero => exact .undefined
    | succ fuel => exact functionRoutine_does fuel
  | block fuel =>
    cases fuel with
    | zero => exact .undefined
    | succ fuel => exact blockRoutine_does fuel _
  | statement fuel =>
    cases fuel with
    | zero => exact .undefined
    | succ fuel => exact statementRoutine_does fuel _

end B0rk
