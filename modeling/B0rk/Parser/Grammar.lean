import B0rk.Parser.Parser

set_option autoImplicit false

/-! # The grammar

How expressions, statements and functions are spelled, with round brackets around every operation inside
another one. Each relation is between the tokens and the tree, from one runtime to the next: the parser
looks for a class where a dot is behind a name, and makes functions. -/

namespace B0rk

variable {World : Type}

/-- What is made of an operation with two operands, `+=` and `-=` apart. -/
def foldedOperation (P : ParserEnv World) (op : OpType) (left right : Expression) : Expression :=
  (foldLiterals P op left right).getD (.oper .unknown op (some left) (some right))

/-- What is made of `var += right`, or of `var -= right`. -/
def assignedOperation (op : OpType) (var : String) (right : Expression) : Expression :=
  .oper .unknown .set (some (.var .unknown 0 var))
    (some (.oper .unknown op (some (.var .unknown 0 var)) (some right)))

/-- What is behind a name and a dot. If it begins with a name too, a class is looked for. -/
def Probed (P : ParserEnv World) (name : Token) (w w' : World) : List Token → Prop
  | [] => False
  | token :: _ =>
      P.imports.lookup name.string = none ∧
        if token.type = .tokIdentifier then
          P.findClass w (name.string ++ "." ++ token.string) = (0, w')
        else w' = w

/-- A dotted name. -/
inductive SpellsIdentifier : List Token → List String → Prop
  | single {token : Token} (h : token.type = .tokIdentifier) : SpellsIdentifier [token] [token.string]
  | dotted {token dot : Token} {toks : List Token} {id : List String}
      (h : token.type = .tokIdentifier) (hdot : dot.type = .tokDot) (hid : SpellsIdentifier toks id) :
      SpellsIdentifier (token :: dot :: toks) (token.string :: id)

/-- The names of parameters, behind the bracket that opens. -/
inductive SpellsNames : List Token → List String → Prop
  | nil {close : Token} (hclose : close.type = .tokBracketRight) : SpellsNames [close] []
  | last {token close : Token} (h : token.type = .tokIdentifier)
      (hclose : close.type = .tokBracketRight) : SpellsNames [token, close] [token.string]
  | cons {token comma : Token} {toks : List Token} {names : List String}
      (h : token.type = .tokIdentifier) (hcomma : comma.type = .tokComma)
      (hnames : SpellsNames toks names) :
      SpellsNames (token :: comma :: toks) (token.string :: names)

/-- One token that is an operand. -/
inductive SpellsOperand : Token → Expression → Prop
  | name {token : Token} (h : token.type = .tokIdentifier) :
      SpellsOperand token (.var .unknown 0 token.string)
  | integer {token : Token} (h : token.type = .tokInteger) :
      SpellsOperand token (.integer .integer (token.i.signExtend 64))
  | double {token : Token} (h : token.type = .tokDouble) :
      SpellsOperand token (.double .double token.d)
  | string {token : Token} (h : token.type = .tokString) :
      SpellsOperand token (.string .object token.string)
  | true {token : Token} (h : token.type = .tokLiteral) (hstring : token.string = "true") :
      SpellsOperand token (.integer .integer 1)
  | false {token : Token} (h : token.type = .tokLiteral) (hstring : token.string = "false") :
      SpellsOperand token (.integer .integer 0)

mutual

/-- An operand. -/
inductive SpellsValue (P : ParserEnv World) : World → List Token → Expression → World → Prop
  | operand {w : World} {token : Token} {expr : Expression} (h : SpellsOperand token expr) :
      SpellsValue P w [token] expr w
  | call {w w' : World} {name bracketLeft : Token} {toks : List Token} {params : List Expression}
      (hname : name.type = .tokIdentifier) (hleft : bracketLeft.type = .tokBracketLeft)
      (hparams : SpellsParams P w toks params w') :
      SpellsValue P w (name :: bracketLeft :: toks) (.call .unknown 0 name.string params) w'
  | array {w w' : World} {name left right : Token} {toks : List Token} {index : Expression}
      (hname : name.type = .tokIdentifier) (hleft : left.type = .tokSquareBracketLeft)
      (hindex : SpellsWhole P w toks index w') (hright : right.type = .tokSquareBracketRight) :
      SpellsValue P w (name :: left :: (toks ++ [right])) (.array .unknown 0 name.string index) w'
  | new {w w' : World} {keyword bracketLeft : Token} {names toks : List Token} {id : List String}
      {params : List Expression} (hkeyword : keyword.type = .tokNew)
      (hid : SpellsIdentifier names id) (hleft : bracketLeft.type = .tokBracketLeft)
      (hparams : SpellsParams P w toks params w') :
      SpellsValue P w (keyword :: (names ++ bracketLeft :: toks))
        (.new .object (importedIdentifier P id) params) w'
  | function {w w' : World} {keyword : Token} {toks : List Token} {function : ScriptFunction}
      (hkeyword : keyword.type = .tokFunction) (hfunction : SpellsFunction P w toks function w') :
      SpellsValue P w (keyword :: toks) (.function .object (some function)) w'

/-- The parameters of a call, behind the bracket that opens. -/
inductive SpellsParams (P : ParserEnv World) : World → List Token → List Expression → World → Prop
  | nil {w : World} {close : Token} (hclose : close.type = .tokBracketRight) :
      SpellsParams P w [close] [] w
  | last {w w' : World} {toks : List Token} {param : Expression} {close : Token}
      (hparam : SpellsWhole P w toks param w') (hclose : close.type = .tokBracketRight) :
      SpellsParams P w (toks ++ [close]) [param] w'
  | cons {w w' w'' : World} {toks toks' : List Token} {param : Expression}
      {params : List Expression} {comma : Token} (hparam : SpellsWhole P w toks param w')
      (hcomma : comma.type = .tokComma) (hparams : SpellsParams P w' toks' params w'') :
      SpellsParams P w (toks ++ comma :: toks') (param :: params) w''

/-- An operand of an operation: a value, or an operation in brackets. -/
inductive SpellsExpr (P : ParserEnv World) : World → List Token → Expression → World → Prop
  | value {w w' : World} {toks : List Token} {expr : Expression}
      (hvalue : SpellsValue P w toks expr w') : SpellsExpr P w toks expr w'
  | brackets {w w' : World} {toks : List Token} {expr : Expression} {left right : Token}
      (hleft : left.type = .tokBracketLeft) (hoper : SpellsOper P w toks expr w')
      (hright : right.type = .tokBracketRight) : SpellsExpr P w (left :: (toks ++ [right])) expr w'

/-- An operation without the brackets around it. -/
inductive SpellsOper (P : ParserEnv World) : World → List Token → Expression → World → Prop
  /-- A name in front of a dot is for `dotted`. -/
  | binary {w w' w'' : World} {toks toks' : List Token} {left right : Expression} {desc : OpDesc}
      {operator : Token} (hdesc : desc ∈ opTable)
      (hoperands : desc.hasLeftExpr = true ∧ desc.hasRightExpr = true)
      (hassign : desc.token ≠ .tokAddAssign ∧ desc.token ≠ .tokSubAssign)
      (hoperator : operator.type = desc.token)
      (hname : desc.oper = .reference → ∀ token, toks = [token] → token.type ≠ .tokIdentifier)
      (hleft : SpellsExpr P w toks left w') (hright : SpellsExpr P w' toks' right w'') :
      SpellsOper P w (toks ++ operator :: toks') (foldedOperation P desc.oper left right) w''
  | dotted {w w' w'' : World} {name dot : Token} {toks : List Token} {right : Expression}
      (hname : name.type = .tokIdentifier) (hdot : dot.type = .tokDot)
      (hprobed : Probed P name w w' toks) (hright : SpellsExpr P w' toks right w'') :
      SpellsOper P w (name :: dot :: toks)
        (.oper .unknown .reference (some (.var .unknown 0 name.string)) (some right)) w''
  | assigned {w w' : World} {name operator : Token} {toks : List Token} {right : Expression}
      {op : OpType} (hname : name.type = .tokIdentifier)
      (hoperator : operator.type = .tokAddAssign ∧ op = .add ∨
        operator.type = .tokSubAssign ∧ op = .sub)
      (hright : SpellsExpr P w toks right w') :
      SpellsOper P w (name :: operator :: toks) (assignedOperation op name.string right) w'
  | not {w w' : World} {operator : Token} {toks : List Token} {right : Expression}
      (hoperator : operator.type = .tokNot) (hright : SpellsExpr P w toks right w') :
      SpellsOper P w (operator :: toks) (.oper .unknown .not none (some right)) w'
  | increment {w w' : World} {operator : Token} {toks : List Token} {left : Expression} {op : OpType}
      (hleft : SpellsExpr P w toks left w')
      (hoperator : operator.type = .tokIncrement ∧ op = .increment ∨
        operator.type = .tokDecrement ∧ op = .decrement) :
      SpellsOper P w (toks ++ [operator]) (.oper .unknown op (some left) none) w'

/-- A whole expression; the operation that it is needs no brackets. -/
inductive SpellsWhole (P : ParserEnv World) : World → List Token → Expression → World → Prop
  | expr {w w' : World} {toks : List Token} {expr : Expression}
      (hexpr : SpellsExpr P w toks expr w') : SpellsWhole P w toks expr w'
  | oper {w w' : World} {toks : List Token} {expr : Expression}
      (hoper : SpellsOper P w toks expr w') : SpellsWhole P w toks expr w'

/-- A statement, with the block before and behind it. -/
inductive SpellsStatement (P : ParserEnv World) :
    World → CodeBlock → List Token → CodeBlock → World → Prop
  | var {w : World} {code : CodeBlock} {keyword name semicolon : Token}
      (hkeyword : keyword.type = .tokVar) (hname : name.type = .tokIdentifier)
      (hsemicolon : semicolon.type = .tokSemicolon) :
      SpellsStatement P w code [keyword, name, semicolon] (code.addVar name.string) w
  | varSet {w w' : World} {code : CodeBlock} {keyword name assign semicolon : Token}
      {toks : List Token} {expr : Expression} (hkeyword : keyword.type = .tokVar)
      (hname : name.type = .tokIdentifier) (hassign : assign.type = .tokAssign)
      (hexpr : SpellsExpr P w toks expr w') (hsemicolon : semicolon.type = .tokSemicolon) :
      SpellsStatement P w code (keyword :: name :: assign :: (toks ++ [semicolon]))
        ((code.addVar name.string).addCode
          (.oper .unknown .set (some (.var .unknown 0 name.string)) (some expr))) w'
  | ifThen {w w' w'' : World} {code block : CodeBlock} {keyword left right brace : Token}
      {toks toks' : List Token} {test : Expression} (hkeyword : keyword.type = .tokIf)
      (hleft : left.type = .tokBracketLeft) (htest : SpellsWhole P w toks test w')
      (hright : right.type = .tokBracketRight) (hbrace : brace.type = .tokBraceLeft)
      (hblock : SpellsBlock P w' .empty toks' block w'') :
      SpellsStatement P w code (keyword :: left :: (toks ++ right :: brace :: toks'))
        (code.addCode (.ifExpr test block.link none)) w''
  | ifElse {w w' w'' w''' : World} {code block block' : CodeBlock}
      {keyword left right brace otherwise brace' : Token} {toks toks' toks'' : List Token}
      {test : Expression} (hkeyword : keyword.type = .tokIf) (hleft : left.type = .tokBracketLeft)
      (htest : SpellsWhole P w toks test w') (hright : right.type = .tokBracketRight)
      (hbrace : brace.type = .tokBraceLeft) (hblock : SpellsBlock P w' .empty toks' block w'')
      (hotherwise : otherwise.type = .tokElse) (hbrace' : brace'.type = .tokBraceLeft)
      (hblock' : SpellsBlock P w'' .empty toks'' block' w''') :
      SpellsStatement P w code
        (keyword :: left :: (toks ++ right :: brace :: (toks' ++ otherwise :: brace' :: toks'')))
        (code.addCode (.ifExpr test block.link (some block'.link))) w'''
  /-- `else if` -/
  | ifElseIf {w w' w'' w''' : World} {code block block' : CodeBlock}
      {keyword left right brace otherwise keyword' : Token} {toks toks' toks'' : List Token}
      {test : Expression} (hkeyword : keyword.type = .tokIf) (hleft : left.type = .tokBracketLeft)
      (htest : SpellsWhole P w toks test w') (hright : right.type = .tokBracketRight)
      (hbrace : brace.type = .tokBraceLeft) (hblock : SpellsBlock P w' .empty toks' block w'')
      (hotherwise : otherwise.type = .tokElse) (hkeyword' : keyword'.type = .tokIf)
      (helseIf : SpellsStatement P w'' .empty (keyword' :: toks'') block' w''') :
      SpellsStatement P w code
        (keyword :: left :: (toks ++ right :: brace :: (toks' ++ otherwise :: keyword' :: toks'')))
        (code.addCode (.ifExpr test block.link (some block'.link))) w'''
  | for {w w₁ w₂ w₃ w₄ : World} {code body : CodeBlock}
      {keyword left semicolon semicolon' right brace : Token} {toks₁ toks₂ toks₃ toks₄ : List Token}
      {init test inc : Expression} (hkeyword : keyword.type = .tokFor)
      (hleft : left.type = .tokBracketLeft) (hinit : SpellsWhole P w toks₁ init w₁)
      (hsemicolon : semicolon.type = .tokSemicolon) (htest : SpellsWhole P w₁ toks₂ test w₂)
      (hsemicolon' : semicolon'.type = .tokSemicolon) (hinc : SpellsWhole P w₂ toks₃ inc w₃)
      (hright : right.type = .tokBracketRight) (hbrace : brace.type = .tokBraceLeft)
      (hbody : SpellsBlock P w₃ .empty toks₄ body w₄) :
      SpellsStatement P w code
        (keyword :: left :: (toks₁ ++ semicolon :: (toks₂ ++ semicolon' ::
          (toks₃ ++ right :: brace :: toks₄))))
        (code.addCode (.forExpr (some init) test (some inc) body.link)) w₄
  | while {w w' w'' : World} {code body : CodeBlock} {keyword left right brace : Token}
      {toks toks' : List Token} {test : Expression} (hkeyword : keyword.type = .tokWhile)
      (hleft : left.type = .tokBracketLeft) (htest : SpellsWhole P w toks test w')
      (hright : right.type = .tokBracketRight) (hbrace : brace.type = .tokBraceLeft)
      (hbody : SpellsBlock P w' .empty toks' body w'') :
      SpellsStatement P w code (keyword :: left :: (toks ++ right :: brace :: toks'))
        (code.addCode (.forExpr none test none body.link)) w''
  | return {w : World} {code : CodeBlock} {keyword semicolon : Token}
      (hkeyword : keyword.type = .tokReturn) (hsemicolon : semicolon.type = .tokSemicolon) :
      SpellsStatement P w code [keyword, semicolon] (code.addCode (.returnExpr none)) w
  | returnValue {w w' : World} {code : CodeBlock} {keyword semicolon : Token} {toks : List Token}
      {value : Expression} (hkeyword : keyword.type = .tokReturn)
      (hvalue : SpellsWhole P w toks value w') (hsemicolon : semicolon.type = .tokSemicolon) :
      SpellsStatement P w code (keyword :: (toks ++ [semicolon]))
        (code.addCode (.returnExpr (some value))) w'
  | try {w w' w'' : World} {code block block' : CodeBlock}
      {keyword brace handler left name right brace' : Token} {toks toks' : List Token}
      (hkeyword : keyword.type = .tokTry) (hbrace : brace.type = .tokBraceLeft)
      (hblock : SpellsBlock P w .empty toks block w') (hhandler : handler.type = .tokCatch)
      (hleft : left.type = .tokBracketLeft) (hname : name.type = .tokIdentifier)
      (hright : right.type = .tokBracketRight) (hbrace' : brace'.type = .tokBraceLeft)
      (hblock' : SpellsBlock P w' .empty toks' block' w'') :
      SpellsStatement P w code
        (keyword :: brace :: (toks ++ handler :: left :: name :: right :: brace' :: toks'))
        (code.addCode (.tryExpr block name.string (block'.addVar name.string))) w''
  | throw {w w' : World} {code : CodeBlock} {keyword semicolon : Token} {toks : List Token}
      {value : Expression} (hkeyword : keyword.type = .tokThrow)
      (hvalue : SpellsWhole P w toks value w') (hsemicolon : semicolon.type = .tokSemicolon) :
      SpellsStatement P w code (keyword :: (toks ++ [semicolon]))
        (code.addCode (.throwExpr value)) w'
  | expr {w w' : World} {code : CodeBlock} {semicolon : Token} {toks : List Token}
      {expr : Expression} (hexpr : SpellsWhole P w toks expr w')
      (hsemicolon : semicolon.type = .tokSemicolon) :
      SpellsStatement P w code (toks ++ [semicolon]) (code.addCode expr) w'

/-- The rest of a block, with the brace that closes it. -/
inductive SpellsBlock (P : ParserEnv World) :
    World → CodeBlock → List Token → CodeBlock → World → Prop
  | close {w : World} {code : CodeBlock} {brace : Token} (hbrace : brace.type = .tokBraceRight) :
      SpellsBlock P w code [brace] code w
  | cons {w w' w'' : World} {code code' code'' : CodeBlock} {toks toks' : List Token}
      (hstatement : SpellsStatement P w code toks code' w')
      (hblock : SpellsBlock P w' code' toks' code'' w'') :
      SpellsBlock P w code (toks ++ toks') code'' w''

/-- A function, from the bracket in front of its parameters on. -/
inductive SpellsFunction (P : ParserEnv World) :
    World → List Token → ScriptFunction → World → Prop
  | plain {w w' w'' : World} {left brace : Token} {names toks : List Token} {args : List String}
      {address : Word} {code : CodeBlock} (hleft : left.type = .tokBracketLeft)
      (hargs : SpellsNames names args) (hnew : P.newFunction w = (address, w'))
      (hbrace : brace.type = .tokBraceLeft) (hcode : SpellsBlock P w' .empty toks code w'') :
      SpellsFunction P w (left :: (names ++ brace :: toks))
        (.mk address args false (code.setStartingVarId (args.length + 1))) w''
  | static {w w' w'' : World} {left static brace : Token} {names toks : List Token}
      {args : List String} {address : Word} {code : CodeBlock} (hleft : left.type = .tokBracketLeft)
      (hargs : SpellsNames names args) (hnew : P.newFunction w = (address, w'))
      (hstatic : static.type = .tokStatic) (hbrace : brace.type = .tokBraceLeft)
      (hcode : SpellsBlock P w' .empty toks code w'') :
      SpellsFunction P w (left :: (names ++ static :: brace :: toks))
        (.mk address args true (code.setStartingVarId (args.length + 1))) w''

end

end B0rk
