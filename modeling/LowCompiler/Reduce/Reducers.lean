import LowCompiler.Grammar.LowRules
import LowCompiler.Reduce.Values

/-!
# The reducers

The functions of `grammar_rules.c`. A reducer gets the tokens of the variant and
the tag, and returns the value it leaves in `out`. Where the source changes what
`in[0]` points to, that pointer stays in `out`, and the changed value is returned.
-/

namespace Low

variable (source : Memory) (tokens : List (StackToken Value)) (tag : Int)

def newExpr (loc : Loc) (kind : ExprKind Expr) : Value := .one .expr (.mk loc .zero kind)

def newStmt (loc : Loc) (kind : StmtKind Stmt) : Value := .one .stmt (.mk loc kind)

def newType (kind : TypeKind AstType) : Value := .one .type (.mk 0 kind)

def newUnit (loc : Loc) (kind : UnitKind) : Value := .one .unit ⟨loc, kind⟩

def newDecl (loc : Loc) (kind : DeclKind) : Value := .one .decl ⟨loc, kind⟩

def Loc.zero : Loc := ⟨0, 0⟩

/-- The list reducers: tag 0 makes an array of `in[0]`, any other tag adds `in[item]` to the array
`in[0]`. -/
def reduceList (kind : Kind) (item : Nat) : Except ReduceFault Value := do
  if tag = 0 then
    let val ← read tokens 0 kind
    return .array kind [val]
  else
    let items ← readArray tokens 0 kind
    let val ← read tokens item kind
    return .array kind (items ++ [val])

/-- The list reducers that leave out null pointers. -/
def reduceListNullable (kind : Kind) (item : Nat) : Except ReduceFault Value := do
  if tag = 0 then
    let val ← readNullable tokens 0 kind
    return .array kind val.toList
  else
    let items ← readArray tokens 0 kind
    let val ← readNullable tokens item kind
    return .array kind (items ++ val.toList)

/-! ### Expressions -/

def reducePrimaryExprIdent : Except ReduceFault Value := do
  let name ← readIdent source tokens 0
  return newExpr (← operand tokens 0).loc (.identExpr name)

def reducePrimaryExprString : Except ReduceFault Value := do
  let token ← readLexeme tokens 0 .STRING_LITERAL
  return newExpr token.loc (.stringLiteralExpr (← stringLiteral source token.first token.last))

def reducePrimaryExprNumber : Except ReduceFault Value := do
  let token ← readLexeme tokens 0 .NUMBER_LITERAL
  let (literal, radix) ← numberLiteral source token.first token.last
  return newExpr token.loc (.numberLiteralExpr literal radix)

def reducePrimaryExprParen : Except ReduceFault Value := do
  return .one .expr (← read tokens 1 .expr)

def reducePostfixExprIndex : Except ReduceFault Value := do
  let loc := (← operand tokens 1).loc
  return newExpr loc (.indexAccessExpr (← read tokens 0 .expr) (← read tokens 2 .expr))

/-- Any tag but the four leaves the bounds unset; no variant has one. -/
def reducePostfixExprSlice : Except ReduceFault Value := do
  let loc := (← operand tokens 1).loc
  let target ← read tokens 0 .expr
  if tag = 0 then
    let start ← read tokens 2 .expr
    let stop ← read tokens 4 .expr
    return newExpr loc (.indexSliceExpr target (some start) (some stop) .RANGE)
  else if tag = 1 then
    let stop ← read tokens 3 .expr
    return newExpr loc (.indexSliceExpr target none (some stop) .PREFIX)
  else if tag = 2 then
    let start ← read tokens 2 .expr
    return newExpr loc (.indexSliceExpr target (some start) none .POSTFIX)
  else
    return newExpr loc (.indexSliceExpr target none none .COPY)

def reducePostfixExprCall : Except ReduceFault Value := do
  let loc := (← operand tokens 1).loc
  let target ← read tokens 0 .expr
  if tag = 1 then
    return newExpr loc (.callExpr target (← readArray tokens 2 .expr))
  else
    return newExpr loc (.callExpr target [])

def reducePostfixExprMember : Except ReduceFault Value := do
  let loc := (← operand tokens 1).loc
  return newExpr loc (.memberAccessExpr (← read tokens 0 .expr) (← readIdent source tokens 2))

def reducePostfixExprIncdec : Except ReduceFault Value := do
  let loc := (← operand tokens 1).loc
  let direction := if tag = 0 then .INC else .DEC
  return newExpr loc (.incdecExpr (← read tokens 0 .expr) .POST direction)

def reduceArgumentExprList : Except ReduceFault Value := reduceList tokens tag .expr 2

def reduceUnaryExprIncdec : Except ReduceFault Value := do
  let loc := (← operand tokens 0).loc
  let direction := if tag = 0 then .INC else .DEC
  return newExpr loc (.incdecExpr (← read tokens 1 .expr) .PRE direction)

def reduceUnaryExprOp : Except ReduceFault Value := do
  let loc := (← operand tokens 0).loc
  return newExpr loc (.unaryExpr (← read tokens 1 .expr) (← read tokens 0 .unaryOp))

/-- The operator of a token in the `switch` of `reduce_unary_op`. -/
def unaryOpOf : Token → Option UnaryOp
  | .BITWISE_AND => some .ADDRESS
  | .MUL_OP => some .DEREF
  | .ADD_OP => some .POSITIVE
  | .SUB_OP => some .NEGATIVE
  | .BITWISE_NOT => some .BITWISE_NOT
  | .NOT_OP => some .NOT
  | _ => none

def reduceUnaryOp : Except ReduceFault Value := do
  let token ← operand tokens 0
  match unaryOpOf (Token.ofNat token.id) with
  | some op => return .one .unaryOp op
  | none => throw .abort

def reduceUnaryExprSizeof : Except ReduceFault Value := do
  let loc := (← operand tokens 0).loc
  if tag = 0 then
    return newExpr loc (.exprSizeof (← read tokens 1 .expr))
  else
    return newExpr loc (.typeSizeof (← read tokens 2 .type))

def reduceBuiltinFuncNew : Except ReduceFault Value := do
  let loc := (← operand tokens 0).loc
  let type ← read tokens 2 .type
  if tag = 1 then
    return newExpr loc (.newBuiltin type (some (← read tokens 4 .expr)))
  else
    return newExpr loc (.newBuiltin type none)

def reduceBuiltinFuncDispose : Except ReduceFault Value := do
  let loc := (← operand tokens 0).loc
  return newExpr loc (.disposeBuiltin (← read tokens 2 .expr))

def reduceBuiltinFuncFree : Except ReduceFault Value := do
  let loc := (← operand tokens 0).loc
  return newExpr loc (.freeBuiltin (← read tokens 2 .expr))

def reduceBuiltinFuncMake : Except ReduceFault Value := do
  let loc := (← operand tokens 0).loc
  return newExpr loc (.makeBuiltin (← read tokens 2 .type) (← read tokens 4 .expr))

def reduceBuiltinFuncLencap : Except ReduceFault Value := do
  let loc := (← operand tokens 0).loc
  let kind := if tag = 0 then .LEN else .CAP
  return newExpr loc (.lencapBuiltin (← read tokens 2 .expr) kind)

def reduceCastExpr : Except ReduceFault Value := do
  let loc := (← operand tokens 0).loc
  return newExpr loc (.castExpr (← read tokens 4 .expr) (← read tokens 2 .type))

def reduceCastExpr2 : Except ReduceFault Value := do
  let loc := (← operand tokens 0).loc
  return newExpr loc (.castExpr (← read tokens 3 .expr) (← read tokens 1 .type))

/-- The operator of a token in the `switch` of `reduce_binary_expr`. -/
def binaryOpOf : Token → Option BinaryOp
  | .MUL_OP => some .MUL
  | .DIV_OP => some .DIV
  | .MOD_OP => some .MOD
  | .ADD_OP => some .ADD
  | .SUB_OP => some .SUB
  | .LEFT_OP => some .LEFT
  | .RIGHT_OP => some .RIGHT
  | .LT_OP => some .LT
  | .GT_OP => some .GT
  | .LE_OP => some .LE
  | .GE_OP => some .GE
  | .EQ_OP => some .EQ
  | .NE_OP => some .NE
  | .BITWISE_AND => some .BITWISE_AND
  | .BITWISE_XOR => some .BITWISE_XOR
  | .BITWISE_OR => some .BITWISE_OR
  | .AND_OP => some .AND
  | .OR_OP => some .OR
  | _ => none

def reduceBinaryExpr : Except ReduceFault Value := do
  let sign ← operand tokens 1
  let lhs ← read tokens 0 .expr
  let rhs ← read tokens 2 .expr
  match binaryOpOf (Token.ofNat sign.id) with
  | some op => return newExpr sign.loc (.binaryExpr lhs rhs op)
  | none => throw .abort

def reduceConditionalExpr : Except ReduceFault Value := do
  let loc := (← operand tokens 1).loc
  return newExpr loc
    (.conditionalExpr (← read tokens 0 .expr) (← read tokens 2 .expr) (← read tokens 4 .expr))

def reduceAssignmentExpr : Except ReduceFault Value := do
  let loc := (← operand tokens 1).loc
  return newExpr loc
    (.assignmentExpr (← read tokens 0 .expr) (← read tokens 2 .expr) (← read tokens 1 .assignmentOp))

/-- The operator of a token in the `switch` of `reduce_assignment_op`. -/
def assignmentOpOf : Token → Option AssignmentOp
  | .ASSIGN => some .ASSIGN
  | .ADD_ASSIGN => some .ADD_ASSIGN
  | .AND_ASSIGN => some .AND_ASSIGN
  | .DIV_ASSIGN => some .DIV_ASSIGN
  | .LEFT_ASSIGN => some .LEFT_ASSIGN
  | .MOD_ASSIGN => some .MOD_ASSIGN
  | .MUL_ASSIGN => some .MUL_ASSIGN
  | .OR_ASSIGN => some .OR_ASSIGN
  | .RIGHT_ASSIGN => some .RIGHT_ASSIGN
  | .SUB_ASSIGN => some .SUB_ASSIGN
  | .XOR_ASSIGN => some .XOR_ASSIGN
  | _ => none

def reduceAssignmentOp : Except ReduceFault Value := do
  let token ← operand tokens 0
  match assignmentOpOf (Token.ofNat token.id) with
  | some op => return .one .assignmentOp op
  | none => throw .abort

/-- A comma expression takes one more expression; any other becomes the first of two. -/
def commaAdd : Expr → Expr → Expr
  | .mk loc type (.commaExpr exprs), next => .mk loc type (.commaExpr (exprs ++ [next]))
  | e, next => .mk e.loc .zero (.commaExpr [e, next])

def reduceExprComma : Except ReduceFault Value := do
  return .one .expr (commaAdd (← read tokens 0 .expr) (← read tokens 2 .expr))

/-! ### Statements -/

def reduceExprStmt : Except ReduceFault Value := do
  let e ← read tokens 0 .expr
  return newStmt e.loc (.exprStmt e)

def reduceCompoundStmt : Except ReduceFault Value := do
  let loc := (← operand tokens 0).loc
  return newStmt loc (.compoundStmt (← readArray tokens 1 .blockItem))

def reduceBlockItemList : Except ReduceFault Value := reduceListNullable tokens tag .blockItem 1

def reduceBlockItemDecl : Except ReduceFault Value := do
  return .one .blockItem (.declItem (← read tokens 0 .decl))

def reduceBlockItemStmt : Except ReduceFault Value := do
  return .one .blockItem (.stmtItem (← readNullable tokens 0 .stmt))

def reduceSelectionStmtIf : Except ReduceFault Value := do
  let loc := (← operand tokens 0).loc
  let condition ← read tokens 1 .expr
  let stmt ← readNullable tokens 2 .stmt
  if tag = 1 then
    return newStmt loc (.ifStmt condition stmt (← readNullable tokens 4 .stmt))
  else
    return newStmt loc (.ifStmt condition stmt none)

def reduceSelectionStmtSwitch : Except ReduceFault Value := do
  let loc := (← operand tokens 0).loc
  return newStmt loc (.switchStmt (← read tokens 2 .expr) (← readNullable tokens 4 .stmt))

def reduceIterationStmtDo : Except ReduceFault Value := do
  let loc := (← operand tokens 0).loc
  return newStmt loc (.doStmt (← readNullable tokens 1 .stmt) (← read tokens 4 .expr))

/-- `in[1].ptr` if the tag is 1. -/
def readTagged : Except ReduceFault (Option Expr) :=
  if tag = 1 then (read tokens 1 .expr).map some else .ok none

def reduceIterationStmtForInit : Except ReduceFault Value := do
  let loc := (← operand tokens 0).loc
  return newStmt loc (.forStmt (← readTagged tokens tag) none none none)

def reduceIterationStmtForCond : Except ReduceFault Value := do
  match ← read tokens 0 .stmt with
  | .mk loc (.forStmt initial condition step stmt) =>
    let given ← readTagged tokens tag
    return newStmt loc (.forStmt initial (given.or condition) step stmt)
  | _ => throw (.kind 0)

def reduceIterationStmtForStep : Except ReduceFault Value := do
  match ← read tokens 0 .stmt with
  | .mk loc (.forStmt initial condition step stmt) =>
    let given ← readTagged tokens tag
    return newStmt loc (.forStmt initial condition (given.or step) stmt)
  | _ => throw (.kind 0)

def reduceIterationStmtForWhile : Except ReduceFault Value := do
  let loc := (← operand tokens 0).loc
  return newStmt loc (.forStmt none (← readTagged tokens tag) none none)

def reduceIterationStmtFor : Except ReduceFault Value := do
  match ← read tokens 0 .stmt with
  | .mk loc (.forStmt initial condition step _) =>
    return newStmt loc (.forStmt initial condition step (← readNullable tokens 1 .stmt))
  | _ => throw (.kind 0)

/-- The statement gets no location. -/
def reduceJumpStmtGoto : Except ReduceFault Value := do
  return newStmt .zero (.gotoStmt (← readIdent source tokens 1))

def reduceJumpStmtContinue : Except ReduceFault Value := do
  return newStmt (← operand tokens 0).loc .continueStmt

def reduceJumpStmtBreak : Except ReduceFault Value := do
  return newStmt (← operand tokens 0).loc .breakStmt

def reduceJumpStmtReturn : Except ReduceFault Value := do
  let loc := (← operand tokens 0).loc
  return newStmt loc (.returnStmt (← readTagged tokens tag))

def reduceLabeledStmtCase : Except ReduceFault Value := do
  return newStmt .zero (.caseStmt (← read tokens 1 .expr) (← readNullable tokens 3 .stmt))

def reduceLabeledStmtDefault : Except ReduceFault Value := do
  return newStmt .zero (.defaultStmt (← readNullable tokens 2 .stmt))

/-! ### Declarations -/

def reduceVariableDecl : Except ReduceFault Value := do
  let (type, p) ←
    if tag = 0 ∨ tag = 1 then (read tokens 1 .type).map fun type => (type, 2)
    else .ok (AstType.zero, 1)
  let loc := (← operand tokens p).loc
  let name ← readIdent source tokens p
  let initial ← if tag = 1 ∨ tag = 2 then (read tokens (p + 2) .expr).map some else .ok none
  return newDecl loc (.variableDecl type name initial)

def reduceVariableDecl2 : Except ReduceFault Value := do
  let loc := (← operand tokens 0).loc
  let name ← readIdent source tokens 0
  let (type, p) ←
    if tag = 0 ∨ tag = 1 then (read tokens 2 .type).map fun type => (type, 3)
    else .ok (AstType.zero, 1)
  let initial ← if tag = 1 ∨ tag = 2 then (read tokens (p + 1) .expr).map some else .ok none
  return newDecl loc (.variableDecl type name initial)

def reduceConstDecl : Except ReduceFault Value := do
  let loc := (← operand tokens 1).loc
  let name ← readIdent source tokens 1
  let (type, i) ←
    if tag = 1 then (read tokens 2 .type).map fun type => (some type, 3)
    else .ok (none, 2)
  return newDecl loc (.constDecl name type (← read tokens (i + 1) .expr))

def reduceImplementationDecl : Except ReduceFault Value := do
  let loc := (← operand tokens 0).loc
  return newDecl loc (.implementationDecl (← read tokens 1 .type) (← read tokens 3 .type)
    (← readArray tokens 6 .mapping))

def reduceImplementationMappingList : Except ReduceFault Value := reduceList tokens tag .mapping 2

def reduceImplementationMapping : Except ReduceFault Value := do
  return .one .mapping ⟨← readIdent source tokens 0, ← readIdent source tokens 2⟩

/-! ### Types -/

def reduceTypeVoid : Except ReduceFault Value := .ok (newType .voidType)

def typeOfName (name : Name) : TypeKind AstType :=
  let int := ['i', 'n', 't'].map Char.toUInt8
  let float := ['f', 'l', 'o', 'a', 't'].map Char.toUInt8
  if name.take 3 = int then
    .integerType (if name.length > 3 then unsignedOfInt (atoi (name.drop 3)) else 32)
  else if name.take 5 = float then
    .floatType (if name.length > 5 then unsignedOfInt (atoi (name.drop 5)) else 32)
  else if name = ['b', 'o', 'o', 'l'].map Char.toUInt8 then .booleanType
  else .namedType name

/-- The length of the name is kept in an `unsigned`. -/
def reduceTypeName : Except ReduceFault Value := do
  let token ← readLexeme tokens 0 .IDENT
  return newType (typeOfName (strndup source token.first (unsigned (token.last - token.first))))

def reduceTypePointer : Except ReduceFault Value := do
  let type ← read tokens 1 .type
  return .one .type (.mk (type.pointer + 1) type.kind)

def reduceTypeStruct : Except ReduceFault Value := do
  return newType (.structType (← readArray tokens 2 .structMember))

/-- `atoi` reads on behind the lexeme. -/
def reduceTypeArray : Except ReduceFault Value := do
  let type ← read tokens 3 .type
  let length ← readLexeme tokens 1 .NUMBER_LITERAL
  return newType (.arrayType type (unsignedOfInt (atoi (source.drop length.first))))

def reduceTypeSlice : Except ReduceFault Value := do
  return newType (.sliceType (← read tokens 2 .type))

/-- A function type is a pointer. -/
def reduceTypeFunc : Except ReduceFault Value := do
  if tag = 0 then
    return .one .type (.mk 1 (.funcType (← read tokens 3 .type) []))
  else
    let args ← readArray tokens 2 .type
    return .one .type (.mk 1 (.funcType (← read tokens 4 .type) args))

def reduceTypeInterface : Except ReduceFault Value := do
  if tag = 1 then
    return newType (.interfaceType (← readArray tokens 2 .interfaceMember))
  else
    return newType (.interfaceType [])

def reduceStructMemberList : Except ReduceFault Value := reduceList tokens tag .structMember 1

def reduceStructMember : Except ReduceFault Value := do
  let type ← read tokens 0 .type
  return .one .structMember ⟨← readIdent source tokens 1, type⟩

def reduceStructMember2 : Except ReduceFault Value := do
  return .one .structMember ⟨← readIdent source tokens 0, ← read tokens 2 .type⟩

def reduceFuncTypeArgs : Except ReduceFault Value := reduceList tokens tag .type 2

def reduceInterfaceMemberList : Except ReduceFault Value := reduceList tokens tag .interfaceMember 1

def reduceInterfaceMemberField : Except ReduceFault Value := do
  return .one .interfaceMember (.field (← readIdent source tokens 0) (← read tokens 2 .type))

def reduceInterfaceMemberFunc : Except ReduceFault Value := do
  let name ← readIdent source tokens 1
  let returnType ← read tokens 5 .type
  return .one .interfaceMember (.function name returnType (← readArray tokens 3 .type))

def reduceInterfaceMemberFuncParameterList : Except ReduceFault Value := reduceList tokens tag .type 2

def reduceInterfaceMemberFuncParameter : Except ReduceFault Value := .ok (newType .placeholderType)

/-! ### Units -/

def reduceImportUnit : Except ReduceFault Value := do
  let loc := (← operand tokens 1).loc
  return newUnit loc (.importUnit (← readQuoted source tokens 1))

def reducePackageUnit : Except ReduceFault Value := do
  let loc := (← operand tokens 1).loc
  return newUnit loc (.packageUnit (← readQuoted source tokens 1))

def reduceDeclUnit : Except ReduceFault Value := do
  let decl ← read tokens 0 .decl
  return newUnit decl.loc (.declUnit decl)

def reduceFuncUnit : Except ReduceFault Value := do
  match ← read tokens 0 .unit with
  | ⟨loc, .funcUnit func⟩ =>
    if tag = 1 then
      let body ← readNullable tokens 1 .stmt
      return newUnit loc (.funcUnit { func with body })
    else return newUnit loc (.funcUnit func)
  | _ => throw (.kind 0)

/-- The parameters at `in[3]` of the two forms that have some. -/
def readParams : Except ReduceFault (List FuncParam) :=
  if tag = 2 ∨ tag = 3 then readArray tokens 3 .param else .ok []

def reduceFuncUnitDecl : Except ReduceFault Value := do
  let loc := (← operand tokens 1).loc
  let returnType ← read tokens 0 .type
  let name ← readIdent source tokens 1
  let params ← readParams tokens tag
  return newUnit loc (.funcUnit ⟨returnType, name, none, params, tag = 1 ∨ tag = 3⟩)

def reduceFuncUnitDecl2 : Except ReduceFault Value := do
  let loc := (← operand tokens 1).loc
  let name ← readIdent source tokens 1
  let params ← readParams tokens tag
  let i := if tag = 3 then 7 else if tag = 1 ∨ tag = 2 then 5 else 4
  let returnType ← read tokens i .type
  return newUnit loc (.funcUnit ⟨returnType, name, none, params, tag = 1 ∨ tag = 3⟩)

def reduceParameterList : Except ReduceFault Value := reduceList tokens tag .param 2

def reduceParameter : Except ReduceFault Value := do
  let (name, i) ←
    if tag = 1 then (readIdent source tokens 0).map fun name => (some name, 1)
    else .ok (none, 0)
  return .one .param ⟨← read tokens i .type, name⟩

def reduceTypeUnit : Except ReduceFault Value := do
  let loc := (← operand tokens 1).loc
  let type ← read tokens 3 .type
  return newUnit loc (.typeUnit (← readIdent source tokens 1) type)

def reduceUnitList : Except ReduceFault Value := reduceListNullable tokens tag .unit 1

/-! ### Dispatch -/

def Reducer.run (source : Memory) (tokens : List (StackToken Value)) (tag : Int) :
    Reducer → Except ReduceFault Value
  | .primaryExprIdent => reducePrimaryExprIdent source tokens
  | .primaryExprString => reducePrimaryExprString source tokens
  | .primaryExprNumber => reducePrimaryExprNumber source tokens
  | .primaryExprParen => reducePrimaryExprParen tokens
  | .postfixExprIndex => reducePostfixExprIndex tokens
  | .postfixExprSlice => reducePostfixExprSlice tokens tag
  | .postfixExprCall => reducePostfixExprCall tokens tag
  | .postfixExprMember => reducePostfixExprMember source tokens
  | .postfixExprIncdec => reducePostfixExprIncdec tokens tag
  | .argumentExprList => reduceArgumentExprList tokens tag
  | .unaryExprIncdec => reduceUnaryExprIncdec tokens tag
  | .unaryExprOp => reduceUnaryExprOp tokens
  | .unaryExprSizeof => reduceUnaryExprSizeof tokens tag
  | .builtinFuncNew => reduceBuiltinFuncNew tokens tag
  | .builtinFuncFree => reduceBuiltinFuncFree tokens
  | .builtinFuncMake => reduceBuiltinFuncMake tokens
  | .builtinFuncLencap => reduceBuiltinFuncLencap tokens tag
  | .builtinFuncDispose => reduceBuiltinFuncDispose tokens
  | .unaryOp => reduceUnaryOp tokens
  | .castExpr => reduceCastExpr tokens
  | .castExpr2 => reduceCastExpr2 tokens
  | .binaryExpr => reduceBinaryExpr tokens
  | .conditionalExpr => reduceConditionalExpr tokens
  | .assignmentExpr => reduceAssignmentExpr tokens
  | .assignmentOp => reduceAssignmentOp tokens
  | .exprComma => reduceExprComma tokens
  | .exprStmt => reduceExprStmt tokens
  | .compoundStmt => reduceCompoundStmt tokens
  | .blockItemList => reduceBlockItemList tokens tag
  | .blockItemDecl => reduceBlockItemDecl tokens
  | .blockItemStmt => reduceBlockItemStmt tokens
  | .selectionStmtIf => reduceSelectionStmtIf tokens tag
  | .selectionStmtSwitch => reduceSelectionStmtSwitch tokens
  | .iterationStmtDo => reduceIterationStmtDo tokens
  | .iterationStmtFor => reduceIterationStmtFor tokens
  | .iterationStmtForInit => reduceIterationStmtForInit tokens tag
  | .iterationStmtForCond => reduceIterationStmtForCond tokens tag
  | .iterationStmtForStep => reduceIterationStmtForStep tokens tag
  | .iterationStmtForWhile => reduceIterationStmtForWhile tokens tag
  | .jumpStmtGoto => reduceJumpStmtGoto source tokens
  | .jumpStmtContinue => reduceJumpStmtContinue tokens
  | .jumpStmtBreak => reduceJumpStmtBreak tokens
  | .jumpStmtReturn => reduceJumpStmtReturn tokens tag
  | .labeledStmtCase => reduceLabeledStmtCase tokens
  | .labeledStmtDefault => reduceLabeledStmtDefault tokens
  | .variableDecl => reduceVariableDecl source tokens tag
  | .variableDecl2 => reduceVariableDecl2 source tokens tag
  | .constDecl => reduceConstDecl source tokens tag
  | .implementationDecl => reduceImplementationDecl tokens
  | .implementationMappingList => reduceImplementationMappingList tokens tag
  | .implementationMapping => reduceImplementationMapping source tokens
  | .typeVoid => reduceTypeVoid
  | .typeName => reduceTypeName source tokens
  | .typePointer => reduceTypePointer tokens
  | .typeStruct => reduceTypeStruct tokens
  | .typeArray => reduceTypeArray source tokens
  | .typeSlice => reduceTypeSlice tokens
  | .typeFunc => reduceTypeFunc tokens tag
  | .typeInterface => reduceTypeInterface tokens tag
  | .structMemberList => reduceStructMemberList tokens tag
  | .structMember => reduceStructMember source tokens
  | .structMember2 => reduceStructMember2 source tokens
  | .funcTypeArgs => reduceFuncTypeArgs tokens tag
  | .interfaceMemberList => reduceInterfaceMemberList tokens tag
  | .interfaceMemberField => reduceInterfaceMemberField source tokens
  | .interfaceMemberFunc => reduceInterfaceMemberFunc source tokens
  | .interfaceMemberFuncParameterList => reduceInterfaceMemberFuncParameterList tokens tag
  | .interfaceMemberFuncParameter => reduceInterfaceMemberFuncParameter
  | .importUnit => reduceImportUnit source tokens
  | .packageUnit => reducePackageUnit source tokens
  | .declUnit => reduceDeclUnit tokens
  | .funcUnit => reduceFuncUnit tokens tag
  | .funcUnitDecl => reduceFuncUnitDecl source tokens tag
  | .funcUnitDecl2 => reduceFuncUnitDecl2 source tokens tag
  | .parameterList => reduceParameterList tokens tag
  | .parameter => reduceParameter source tokens tag
  | .typeUnit => reduceTypeUnit source tokens
  | .unitList => reduceUnitList tokens tag

end Low
