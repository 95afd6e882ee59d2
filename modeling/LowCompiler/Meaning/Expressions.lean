import LowCompiler.Codegen.TypeAgreement
import LowCompiler.Meaning.Values
import LowCompiler.Codegen.Expr

/-!
# The meaning of expressions

What an expression is the place of, what its value is, and what it does when nobody asks
for a value. Operands are evaluated from left to right, and of the branches of a
conditional only one. Some expressions are given no meaning here: those that make or call
an interface, slicing, allocations with a count, `sizeof` of an expression, casts to
booleans, the value of a compound assignment, and `/=`.
-/

namespace Low

open Llvm (Ty Datum Pointer Platform)

def floatLayout : Nat → Option Ty
  | 16 => some .half
  | 32 => some .float
  | 64 => some .double
  | 128 => some .fp128
  | _ => none

/-- How a type is laid out. A type with an interface is not, since its translation adds symbols to the
scope. -/
def Context.layout (c : Context) : Nat → AstType → Option Ty
  | 0, _ => none
  | fuel + 1, .mk pointer kind =>
    let inner : Option Ty :=
      match kind with
      | .voidType => some .void
      | .booleanType => some (.int 1)
      | .integerType width => some (.int width)
      | .floatType width => floatLayout width
      | .funcType returnType args => do
        let args ← args.mapM (c.layout fuel)
        return .func (← c.layout fuel returnType) args false
      | .namedType name => (c.typeOf name).bind (c.layout fuel)
      | .structType members => (members.mapM fun m => c.layout fuel m.type).map Ty.struct
      | .sliceType element => (c.layout fuel element).map fun t => .struct [.ptr t, .int 64, .int 64, .ptr t]
      | .arrayType element length => (c.layout fuel element).map (Ty.array · length)
      | .interfaceType _ | .noType | .placeholderType => none
    inner.map fun t => t.pointer pointer

/-! ### Names -/

/-- What a name stands for. -/
inductive Denotation where
  | place (place : Lvalue)
  | function (value : Rvalue)
  | constant (value : Expr)

structure Setting (M : Type) where
  platform : Platform M
  context : Context
  fuel : Nat
  names : Name → Option Denotation

namespace Setting
variable {M : Type} (setting : Setting M)

def layout (type : AstType) : Option Ty := setting.context.layout setting.fuel type

def resolve (type : AstType) : Option AstType := (resolveTypeName setting.context setting.fuel type).toOption

end Setting

/-! ### Expressions -/

section Expressions
variable {M : Type} (setting : Setting M) (locate : Expr → Evaluation M Lvalue) (evaluate : Expr → Evaluation M Rvalue)
  (perform : Expr → Evaluation M Unit)

def readAt : Lvalue → Evaluation M Rvalue := readPlace setting.platform

def locateIdent (ident : Name) : Evaluation M Lvalue :=
  match setting.names ident with
  | some (.place place) => pure place
  | _ => failure

def evaluateIdent (ident : Name) : Evaluation M Rvalue :=
  if ident = trueName then pure (.ofBool true)
  else if ident = falseName then pure (.ofBool false)
  else
    match setting.names ident with
    | some (.place place) => readAt setting place
    | some (.function value) => pure value
    | some (.constant value) => evaluate value
    | none => failure

/-- What the digits come to is left to the platform, other than for booleans. -/
def evaluateNumber (type : AstType) (literal : Name) (radix : Nat) : Evaluation M Rvalue := do
  match type.kind with
  | .integerType _ =>
    let t ← known (setting.layout type)
    return ⟨t, ← known (setting.platform.constant (.constIntOfString t literal radix))⟩
  | .floatType _ =>
    let t ← known (setting.layout type)
    return ⟨t, ← known (setting.platform.constant (.constRealOfString t literal))⟩
  | .booleanType =>
    if booleanDigits literal = [48] then return .ofBool false
    else if booleanDigits literal = [49] then return .ofBool true
    else failure
  | _ => failure

/-- The element of an array, of a slice, or behind a pointer. Only a slice knows how many there are. -/
def locateIndex (target index : Expr) : Evaluation M Lvalue := do
  let targetType ← known (setting.resolve target.type)
  if 0 < targetType.pointer then
    let place ← known (← evaluate target).pointee
    let ⟨_, i⟩ ← known (← evaluate index).int?
    return place.at place.type (setting.platform.stride place.type * .ofInt 64 i.toInt)
  else
    match targetType.kind with
    | .arrayType _ _ =>
      let place ← locate target
      let .array element _ := place.type | failure
      let ⟨_, i⟩ ← known (← evaluate index).int?
      return place.at element (setting.platform.stride element * .ofInt 64 i.toInt)
    | .sliceType _ =>
      let slice ← evaluate target
      let ⟨_, i⟩ ← known (← evaluate index).int?
      let some ⟨64, cap⟩ := (slice.field? 2).bind Rvalue.int? | failure
      let place ← known ((slice.field? 0).bind Rvalue.pointee)
      if 0 ≤ i.toInt ∧ i.toInt < cap.toNat then
        return place.at place.type (setting.platform.stride place.type * .ofInt 64 i.toInt)
      else failure
    | _ => failure

/-- A member of a struct, which may be behind a pointer. -/
def locateMember (target : Expr) (name : Name) : Evaluation M Lvalue := do
  let st ← known (setting.resolve target.type)
  let stderef ← (if 0 < st.pointer then known (setting.resolve st.down) else pure st)
  match st.kind with
  | .interfaceType _ => failure
  | _ =>
    let place ← (if st.pointer = 0 then locate target else do known (← evaluate target).pointee)
    let .structType members := stderef.kind | failure
    let (i, _) ← known (findMember members name)
    let .struct fields := place.type | failure
    return place.at (← known fields[i]?) (setting.platform.fieldOffset fields i)

def evaluateIncdec (target : Expr) (type : AstType) (order : IncdecOrder) (direction : IncdecDirection) :
    Evaluation M Rvalue := do
  let place ← locate target
  let value ← readAt setting place
  let some (.int width') := setting.layout type | failure
  let ⟨width, x⟩ ← known value.int?
  if width' = width then
    let changed := match direction with | .INC => BitVec.ofInt width (x.toInt + 1) | .DEC => BitVec.ofInt width (x.toInt - 1)
    writePlace setting.platform place (.int width changed)
    return match order with
      | .PRE => .ofBits changed
      | .POST => value
  else failure

def evaluateUnary (target : Expr) (op : UnaryOp) : Evaluation M Rvalue := do
  match op with
  | .ADDRESS => return (← locate target).address
  | .DEREF => readAt setting (← known (← evaluate target).pointee)
  | .POSITIVE => evaluate target
  | .NEGATIVE =>
    let value ← evaluate target
    match target.type.kind with
    | .integerType _ =>
      let ⟨width, x⟩ ← known value.int?
      return .ofBits (BitVec.ofInt width (-x.toInt))
    | .floatType _ => return ⟨value.type, ← known (setting.platform.negate value.datum)⟩
    | _ => failure
  | .BITWISE_NOT =>
    let ⟨_, x⟩ ← known (← evaluate target).int?
    return .ofBits (~~~x)
  | .NOT => return .ofBool !(← known (← evaluate target).bool?)

def evaluateSizeof (size type : AstType) : Evaluation M Rvalue := do
  let bytes ← known (setting.layout size)
  let some (.int 64 n) := setting.platform.constant (.sizeOf bytes) | failure
  let some (.int width) := setting.layout type | failure
  return .ofBits (BitVec.ofInt width n.toInt)

def evaluateCast (target : Expr) (castType : AstType) : Evaluation M Rvalue := do
  let value ← evaluate target
  let dst ← known (setting.layout castType)
  let fromType ← known (setting.resolve target.type)
  let toType ← known (setting.resolve castType)
  known (castValue setting.platform fromType toType dst value)

def evaluateBinary (lhs rhs : Expr) (op : BinaryOp) : Evaluation M Rvalue := do
  let l ← evaluate lhs
  let r ← evaluate rhs
  match lhs.type.kind with
  | .booleanType => known (op.onBooleans l r)
  | .integerType _ => known (op.onIntegers l r)
  | .floatType _ => known (op.onReals setting.platform l r)
  | _ => failure

def evaluateConditional (condition trueExpr falseExpr : Expr) : Evaluation M Rvalue := do
  let b ← known (← evaluate condition).bool?
  let t ← known (setting.layout trueExpr.type)
  let value ← evaluate (if b then trueExpr else falseExpr)
  return ⟨t, value.datum⟩

def evaluateAssignment (target expr : Expr) : Evaluation M Rvalue := do
  let place ← locate target
  let value ← evaluate expr
  writePlace setting.platform place value.datum
  return value

/-- All but the last are performed for what they do. -/
def evaluateComma : List Expr → Evaluation M Rvalue
  | [] => failure
  | [expr] => evaluate expr
  | expr :: exprs => do
    perform expr
    evaluateComma exprs

def evaluateCall (ident : Name) (args : List Expr) : Evaluation M Rvalue := do
  let function ← (match setting.names ident with
    | some (.function value) => pure value
    | some (.place place) => readAt setting place
    | _ => failure)
  applyFunction setting.platform function (← args.mapM evaluate)

/-- What a call returns has a place of its own. -/
def locateCall (ident : Name) (args : List Expr) : Evaluation M Lvalue := do
  let value ← evaluateCall setting evaluate ident args
  let place ← allocatePlace value.type fun _ => []
  writePlace setting.platform place value.datum
  return place

def evaluateNew (newType : AstType) : Evaluation M Rvalue := do
  let t ← known (setting.layout newType)
  let place ← allocatePlace t fun pointer => [.allocated pointer t 1]
  writePlace setting.platform place t.null
  return place.address

def evaluateLencap (expr : Expr) (kind : LencapKind) : Evaluation M Rvalue := do
  known ((← evaluate expr).field? (match kind with | .LEN => 1 | .CAP => 2))

/-- The operator of a compound assignment. -/
def AssignmentOp.binary? : AssignmentOp → Option BinaryOp
  | .ADD_ASSIGN => some .ADD
  | .SUB_ASSIGN => some .SUB
  | .MUL_ASSIGN => some .MUL
  | _ => none

def performAssignment (target expr : Expr) (op : AssignmentOp) : Evaluation M Unit := do
  let place ← locate target
  let value ← evaluate expr
  let some op := op.binary? | failure
  let result ← known (op.onIntegers (← readAt setting place) value)
  writePlace setting.platform place result.datum

def performFree (expr : Expr) : Evaluation M Unit := do
  freePlace (← known (← evaluate expr).pointee)

/-- The object that the slice is a part of is freed, and the slice becomes empty. -/
def performDispose (expr : Expr) : Evaluation M Unit := do
  let place ← locate expr
  let base ← known (((← readAt setting place).field? 3).bind Rvalue.pointee)
  writePlace setting.platform place place.type.null
  freePlace base

end Expressions

section Recursion
variable {M : Type} (setting : Setting M)

mutual

def locate : Nat → Expr → Evaluation M Lvalue
  | 0, _ => failure
  | fuel + 1, .mk _ _ kind =>
    match kind with
    | .identExpr ident => locateIdent setting ident
    | .indexAccessExpr target index => locateIndex setting (locate fuel) (evaluate fuel) target index
    | .callExpr (.mk _ _ (.identExpr ident)) args => locateCall setting (evaluate fuel) ident args
    | .memberAccessExpr target name => locateMember setting (locate fuel) (evaluate fuel) target name
    | .unaryExpr target .DEREF => do known (← evaluate fuel target).pointee
    | _ => failure
termination_by structural fuel => fuel

def evaluate : Nat → Expr → Evaluation M Rvalue
  | 0, _ => failure
  | fuel + 1, .mk _ type kind =>
    match kind with
    | .identExpr ident => evaluateIdent setting (evaluate fuel) ident
    | .stringLiteralExpr literal => do
      return ⟨.ptr (.int 8), ← known (setting.platform.constant (.globalStringPtr literal))⟩
    | .numberLiteralExpr literal radix => evaluateNumber setting type literal radix
    | .indexAccessExpr target index => do readAt setting (← locateIndex setting (locate fuel) (evaluate fuel) target index)
    | .callExpr (.mk _ _ (.identExpr ident)) args => evaluateCall setting (evaluate fuel) ident args
    | .memberAccessExpr target name => do readAt setting (← locateMember setting (locate fuel) (evaluate fuel) target name)
    | .incdecExpr target order direction => evaluateIncdec setting (locate fuel) target type order direction
    | .unaryExpr target op => evaluateUnary setting (locate fuel) (evaluate fuel) target op
    | .typeSizeof size => evaluateSizeof setting size type
    | .castExpr target castType => evaluateCast setting (evaluate fuel) target castType
    | .binaryExpr lhs rhs op => evaluateBinary setting (evaluate fuel) lhs rhs op
    | .conditionalExpr condition trueExpr falseExpr =>
      evaluateConditional setting (evaluate fuel) condition trueExpr falseExpr
    | .assignmentExpr target expr .ASSIGN => evaluateAssignment setting (locate fuel) (evaluate fuel) target expr
    | .commaExpr exprs => evaluateComma (evaluate fuel) (perform fuel) exprs
    | .newBuiltin newType none => evaluateNew setting newType
    | .lencapBuiltin expr kind => evaluateLencap (evaluate fuel) expr kind
    | _ => failure
termination_by structural fuel => fuel

def perform : Nat → Expr → Evaluation M Unit
  | 0, _ => failure
  | fuel + 1, .mk _ _ (.assignmentExpr target expr op) =>
    if op = .ASSIGN then do let _ ← evaluateAssignment setting (locate fuel) (evaluate fuel) target expr
    else performAssignment setting (locate fuel) (evaluate fuel) target expr op
  | fuel + 1, .mk _ _ (.commaExpr exprs) => exprs.forM (perform fuel)
  | fuel + 1, .mk _ _ (.freeBuiltin expr) => performFree (evaluate fuel) expr
  | fuel + 1, .mk _ _ (.disposeBuiltin expr) => performDispose setting (locate fuel) expr
  | fuel + 1, e => do let _ ← evaluate fuel e
termination_by structural fuel => fuel

end

end Recursion

end Low
