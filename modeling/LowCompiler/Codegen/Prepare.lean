import LowCompiler.Codegen.Context
import LowCompiler.Stateful

/-!
# The types of expressions

`prepare_expr` and the functions of `prepare_expr_fn`. They set the type of every
expression, with a hint from around it. An expression is a tree, but for the value of
a constant without a type: this is prepared in the node of its declaration, which all
uses of the constant share.
-/

namespace Low

/-- `type_hint`. -/
inductive Hint where
  | null
  | type (type : AstType)
  /-- An address behind the arguments of a function type. -/
  | wild

/-- Reads and writes the nodes of the declarations. -/
abbrev Prepare := StateT (List Decl) (Except CodegenError)

/-- `type_copy`. Of an interface type with members the copy cannot be read. -/
def copyType (type : AstType) : Prepare AstType :=
  if (memberTags type).isEmpty then pure type else throw .undefined

/-- A null pointer cannot be read. -/
def present {M : Type → Type} {α : Type} [Monad M] [MonadExceptOf CodegenError M] : Option α → M α
  | some a => pure a
  | none => throw .undefined

namespace AstType

def up : AstType → AstType
  | .mk pointer kind => .mk (pointer + 1) kind

/-- `--type.pointer`, where there is a pointer. -/
def down : AstType → AstType
  | .mk pointer kind => .mk (pointer - 1) kind

def noKind (type : AstType) : Bool := type.kind matches .noType

end AstType

def Hint.up : Hint → Prepare Hint
  | .null => pure .null
  | .type t => return .type (← copyType t).up
  | .wild => throw .undefined

/-- The hint for the operand of an address. -/
def Hint.down : Hint → Prepare Hint
  | .null => pure .null
  | .type t => if 0 < t.pointer then return .type (← copyType t).down else pure .null
  | .wild => throw .undefined

/-- `args + i` of the arguments of a function type. Without any, `args` is a null pointer in a parsed
type, and what `malloc(0)` returns in another. -/
def Hint.arg (parsed : Bool) (args : List AstType) (i : Nat) : Hint :=
  match args[i]? with
  | some t => .type t
  | none => if parsed && args.isEmpty && i == 0 then .null else .wild

def int64 : AstType := .mk 0 (.integerType 64)

def boolType : AstType := .mk 0 .booleanType

def resolve (context : Context) (fuel : Nat) (type : AstType) : Prepare AstType :=
  monadLift (resolveTypeName context fuel type)

def trueName : Name := [116, 114, 117, 101]

def falseName : Name := [102, 97, 108, 115, 101]

/-- The value of a constant, which is shared by its uses. -/
def constValue (n : Nat) : Prepare (Option Expr) := do
  match (← get)[n]? with
  | some ⟨_, .constDecl _ _ value⟩ => pure (some value)
  | _ => pure none

def setConstValue (n : Nat) (value : Expr) : Prepare Unit :=
  modify fun decls => decls.modify n fun decl =>
    match decl with
    | ⟨loc, .constDecl name type _⟩ => ⟨loc, .constDecl name type value⟩
    | decl => decl

section Expressions
variable (context : Context) (fuel : Nat) (prepare : Expr → Hint → Prepare Expr) (loc : Loc) (type : AstType)

def prepareIdentExpr (ident : Name) (hint : Hint) : Prepare Expr :=
  if ident = trueName ∨ ident = falseName then
    pure (.mk loc (.mk type.pointer .booleanType) (.identExpr ident))
  else do
    let some sym := context.findSymbol ident | throw (.derror (some loc) "identifier '%s' unknown\n")
    if sym.kind = .FUNC then
      let t ← copyType (← present sym.type)
      return .mk loc t.up (.identExpr ident)
    else if sym.value.isSome then
      let t ← copyType (← present sym.type)
      return .mk loc t (.identExpr ident)
    else
      let some n := sym.decl | throw (.derror (some loc) "expected identifier '%s' to be a const")
      let some value ← constValue n | throw (.derror (some loc) "expected identifier '%s' to be a const")
      let value ← prepare value hint
      setConstValue n value
      return .mk loc (← copyType value.type) (.identExpr ident)

def prepareStringLiteralExpr (literal : Name) : Prepare Expr :=
  pure (.mk loc (.mk 1 (.integerType 8)) (.stringLiteralExpr literal))

def prepareNumberLiteralExpr (literal : Name) (radix : Nat) : Hint → Prepare Expr
  | .null => pure (.mk loc type (.numberLiteralExpr literal radix))
  | .type t => return .mk loc (← copyType t) (.numberLiteralExpr literal radix)
  | .wild => throw .undefined

def prepareIndexAccessExpr (target index : Expr) : Prepare Expr := do
  let target ← prepare target .null
  let index ← prepare index (.type int64)
  let t ← resolve context fuel target.type
  if 0 < t.pointer then
    return .mk loc (← copyType t).down (.indexAccessExpr target index)
  else
    match t.kind with
    | .arrayType element _ | .sliceType element => return .mk loc (← copyType element) (.indexAccessExpr target index)
    | _ => throw (.derror (some loc) "cannot index into non-pointer\n")

def prepareOption (hint : Hint) : Option Expr → Prepare (Option Expr)
  | some expr => some <$> prepare expr hint
  | none => pure none

/-- A pointer to a slice or to an array passes as well. -/
def prepareIndexSliceExpr (target : Expr) (start stop : Option Expr) (kind : IndexSliceKind) :
    Prepare Expr := do
  let target ← prepare target .null
  let start ← prepareOption prepare (.type int64) start
  let stop ← prepareOption prepare (.type int64) stop
  let resolved ← resolve context fuel target.type
  match resolved.kind with
  | .sliceType _ => return .mk loc (← copyType target.type) (.indexSliceExpr target start stop kind)
  | .arrayType element _ =>
    return .mk loc (.mk 0 (.sliceType (← copyType element))) (.indexSliceExpr target start stop kind)
  | _ => throw (.derror (some loc) "expression of type %s cannot be sliced\n")

def prepareArgs (parsed : Bool) (args : List Expr) (types : List AstType) : Prepare (List Expr) :=
  args.zipIdx.mapM fun (arg, i) => prepare arg (.arg parsed types i)

def prepareCallExpr (target : Expr) (args : List Expr) : Prepare Expr := do
  match target.kind with
  | .identExpr ident =>
    let some sym := context.findSymbol ident | throw (.derror (some loc) "identifier '%s' unknown\n")
    if sym.kind = .INTERFACE_FUNCTION then
      match (← present sym.interface).kind with
      | .interfaceType members =>
        match ← present members[sym.member]? with
        | .function _ returnType types =>
          let t ← copyType returnType
          return .mk loc t (.callExpr target (← prepareArgs prepare sym.parsed args types))
        | .field _ _ => throw (.assertion "m->kind == AST_MEMBER_FUNCTION")
      | _ => throw .undefined
    else
      match sym.type.map AstType.kind with
      | some (.funcType returnType types) =>
        let t ← copyType returnType
        return .mk loc t (.callExpr target (← prepareArgs prepare sym.parsed args types))
      | _ => throw (.derror (some loc) "identifier '%s' is not a function\n")
  | .memberAccessExpr object _ =>
    let object ← prepare object .null
    match (← resolve context fuel object.type).kind with
    | .interfaceType _ => throw (.derror (some target.loc) "interface calls not yet implemented\n")
    | _ => throw (.derror (some target.loc) "non-interface cannot be called\n")
  | _ => throw (.derror (some loc) "expression cannot be called\n")

/-- The loop over the members of an interface, which looks at the fields only. -/
def findField (members : List (InterfaceMember AstType)) (name : Name) : Option (Nat × AstType) :=
  (members.zipIdx.findSome? fun (m, i) =>
    match m with
    | .field n t => if n = name then some (i, t) else none
    | .function _ _ _ => none)

def findMember (members : List (StructMember AstType)) (name : Name) : Option (Nat × AstType) :=
  (members.zipIdx.find? fun (m, _) => m.name = name).map fun (m, i) => (i, m.type)

/-- What is behind a pointer, with names resolved. -/
def pointee (st : AstType) : Prepare AstType :=
  if 0 < st.pointer then resolve context fuel st.down else pure st

def prepareMemberAccessExpr (target : Expr) (name : Name) : Prepare Expr := do
  let target ← prepare target .null
  let st ← resolve context fuel target.type
  match st.kind with
  | .interfaceType members =>
    if 0 < st.pointer then
      throw (.derror (some loc) "cannot access member of pointer to an interface, dereference the pointer\n")
    let some (_, t) := findField members name | throw (.derror (some loc) "interface has no member named '%s'\n")
    return .mk loc (← copyType t) (.memberAccessExpr target name)
  | _ =>
    match (← pointee context fuel st).kind with
    | .structType members =>
      let some (_, t) := findMember members name | throw (.derror (some loc) "struct has no member named '%s'\n")
      return .mk loc (← copyType t) (.memberAccessExpr target name)
    | _ => throw (.derror (some loc) "cannot access member of non-struct\n")

def prepareIncdecExpr (target : Expr) (order : IncdecOrder) (direction : IncdecDirection) (hint : Hint) :
    Prepare Expr := do
  let target ← prepare target hint
  return .mk loc (← copyType target.type) (.incdecExpr target order direction)

def prepareUnaryExpr (target : Expr) (op : UnaryOp) (hint : Hint) : Prepare Expr := do
  match op with
  | .ADDRESS =>
    let target ← prepare target (← hint.down)
    return .mk loc (← copyType target.type).up (.unaryExpr target op)
  | .DEREF =>
    let target ← prepare target (← hint.up)
    let t ← copyType target.type
    if t.pointer = 0 then throw (.derror (some loc) "cannot dereference non-pointer\n")
    return .mk loc t.down (.unaryExpr target op)
  | .POSITIVE | .NEGATIVE | .BITWISE_NOT =>
    let target ← prepare target hint
    return .mk loc (← copyType target.type) (.unaryExpr target op)
  | .NOT =>
    let target ← prepare target (.type boolType)
    return .mk loc boolType (.unaryExpr target op)

/-- The type of a size is the hint. -/
def sizeofType : Hint → Prepare AstType
  | .null => pure type
  | .type t => copyType t
  | .wild => throw .undefined

def prepareExprSizeof (expr : Expr) (hint : Hint) : Prepare Expr := do
  let expr ← prepare expr .null
  return .mk loc (← sizeofType type hint) (.exprSizeof expr)

def prepareTypeSizeof (size : AstType) (hint : Hint) : Prepare Expr :=
  return .mk loc (← sizeofType type hint) (.typeSizeof size)

def prepareCastExpr (target : Expr) (castType : AstType) : Prepare Expr := do
  let target ← prepare target (.type castType)
  return .mk loc (← copyType castType) (.castExpr target castType)

/-- The operators that hand their hint on to the operands. -/
def BinaryOp.hints : BinaryOp → Bool
  | .ADD | .SUB | .MUL | .DIV | .MOD | .LEFT | .RIGHT | .BITWISE_AND | .BITWISE_XOR | .BITWISE_OR => true
  | .LT | .GT | .LE | .GE | .EQ | .NE | .AND | .OR => false

/-- The operands are prepared without a hint first, and once or twice more where they have no type then. -/
def prepareBinaryExpr (lhs rhs : Expr) (op : BinaryOp) (hint : Hint) : Prepare Expr := do
  let hint := if op.hints then hint else .null
  let lhs ← prepare lhs .null
  let rhs ← prepare rhs .null
  let neither := lhs.type.noKind && rhs.type.noKind
  let lhs ← (if neither then prepare lhs hint else pure lhs)
  let rhs ← (if neither then prepare rhs hint else pure rhs)
  let lhs ← (if lhs.type.noKind && !rhs.type.noKind then prepare lhs (.type rhs.type) else pure lhs)
  let rhs ← (if rhs.type.noKind && !lhs.type.noKind then prepare rhs (.type lhs.type) else pure rhs)
  match op with
  | .LT | .GT | .LE | .GE | .EQ | .NE | .AND | .OR => return .mk loc boolType (.binaryExpr lhs rhs op)
  | _ => return .mk loc (← copyType lhs.type) (.binaryExpr lhs rhs op)

def prepareConditionalExpr (condition trueExpr falseExpr : Expr) (hint : Hint) : Prepare Expr := do
  let condition ← prepare condition (.type boolType)
  let trueExpr ← prepare trueExpr hint
  let falseExpr ← prepare falseExpr hint
  if !typeEqual trueExpr.type falseExpr.type then
    throw (.derror (some loc) "true and false expression of conditional must be of the same type")
  return .mk loc (← copyType trueExpr.type) (.conditionalExpr condition trueExpr falseExpr)

def prepareAssignmentExpr (target expr : Expr) (op : AssignmentOp) (hint : Hint) : Prepare Expr := do
  let target ← prepare target hint
  let expr ← prepare expr (.type target.type)
  if !typeEqual target.type expr.type then
    throw (.derror (some loc) "incompatible types in assignment ('%s' and '%s')\n")
  return .mk loc (← copyType target.type) (.assignmentExpr target expr op)

/-- The case of `prepare_expr` itself. The type is that of the last expression. -/
def prepareCommaExpr (exprs : List Expr) (hint : Hint) : Prepare Expr := do
  let exprs ← exprs.mapM fun expr => prepare expr hint
  let last ← present exprs.getLast?
  return .mk loc (← copyType last.type) (.commaExpr exprs)

def prepareNewBuiltinExpr (newType : AstType) (expr : Option Expr) : Prepare Expr := do
  let expr ← prepareOption prepare (.type int64) expr
  return .mk loc (← copyType newType).up (.newBuiltin newType expr)

def prepareFreeBuiltinExpr (expr : Expr) : Prepare Expr := do
  let expr ← prepare expr .null
  if expr.type.pointer = 0 then throw (.derror (some loc) "cannot free non-pointer\n")
  return .mk loc (.mk type.pointer .voidType) (.freeBuiltin expr)

def prepareMakeBuiltinExpr (makeType : AstType) (expr : Expr) : Prepare Expr := do
  match (← resolve context fuel makeType).kind with
  | .sliceType _ =>
    let expr ← prepare expr (.type int64)
    return .mk loc (← copyType makeType) (.makeBuiltin makeType expr)
  | _ => throw (.derror (some loc) "cannot make non-slice\n")

def prepareLencapBuiltinExpr (expr : Expr) (kind : LencapKind) : Prepare Expr := do
  let expr ← prepare expr .null
  match (← resolve context fuel expr.type).kind with
  | .sliceType _ => return .mk loc int64 (.lencapBuiltin expr kind)
  | _ => throw (.derror (some loc) "cannot use with non-slice type\n")

def prepareDisposeBuiltinExpr (expr : Expr) : Prepare Expr := do
  let expr ← prepare expr .null
  match (← resolve context fuel expr.type).kind with
  | .sliceType _ => return .mk loc (.mk type.pointer .voidType) (.disposeBuiltin expr)
  | _ => throw (.derror (some loc) "dispose can only be used on slices, got %s\n")

end Expressions

def prepareExpr (context : Context) : Nat → Expr → Hint → Prepare Expr
  | 0, _, _ => throw .fuel
  | fuel + 1, .mk loc type kind, hint =>
    let prepare := prepareExpr context fuel
    match kind with
    | .identExpr ident => prepareIdentExpr context prepare loc type ident hint
    | .stringLiteralExpr literal => prepareStringLiteralExpr loc literal
    | .numberLiteralExpr literal radix => prepareNumberLiteralExpr loc type literal radix hint
    | .indexAccessExpr target index => prepareIndexAccessExpr context fuel prepare loc target index
    | .indexSliceExpr target start stop kind =>
      prepareIndexSliceExpr context fuel prepare loc target start stop kind
    | .callExpr target args => prepareCallExpr context fuel prepare loc target args
    | .memberAccessExpr target name => prepareMemberAccessExpr context fuel prepare loc target name
    | .incdecExpr target order direction => prepareIncdecExpr prepare loc target order direction hint
    | .unaryExpr target op => prepareUnaryExpr prepare loc target op hint
    | .exprSizeof expr => prepareExprSizeof prepare loc type expr hint
    | .typeSizeof size => prepareTypeSizeof loc type size hint
    | .castExpr target castType => prepareCastExpr prepare loc target castType
    | .binaryExpr lhs rhs op => prepareBinaryExpr prepare loc lhs rhs op hint
    | .conditionalExpr condition trueExpr falseExpr =>
      prepareConditionalExpr prepare loc condition trueExpr falseExpr hint
    | .assignmentExpr target expr op => prepareAssignmentExpr prepare loc target expr op hint
    | .commaExpr exprs => prepareCommaExpr prepare loc exprs hint
    | .newBuiltin newType expr => prepareNewBuiltinExpr prepare loc newType expr
    | .freeBuiltin expr => prepareFreeBuiltinExpr prepare loc type expr
    | .makeBuiltin makeType expr => prepareMakeBuiltinExpr context fuel prepare loc makeType expr
    | .lencapBuiltin expr kind => prepareLencapBuiltinExpr context fuel prepare loc expr kind
    | .disposeBuiltin expr => prepareDisposeBuiltinExpr context fuel prepare loc type expr

end Low
