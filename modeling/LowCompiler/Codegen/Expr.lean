import LowCompiler.Codegen.Prepare

/-!
# Code for expressions

`codegen_expr` and the functions of `codegen_expr_fn`. What is built is kept as a list
of what the builder was told. LLVM may fold an instruction on constants; here it stays
one. The nodes of the declarations are only read.
-/

namespace Low

open Llvm (Op Ty)

/-! ### The builder -/

inductive Emitted where
  | op (op : Op)
  | br (block : Nat)
  | condBr (condition : Llvm.Value) (onTrue onFalse : Nat)
  | position (block : Nat)

/-- A global made for a cast to an interface. -/
structure InterfaceTable where
  global : Llvm.Value
  fields : List Llvm.Value

/-- The context, the function built so far, and the tables added to the module. -/
structure Building where
  context : Context
  emitted : List Emitted
  results : Nat
  blocks : Nat
  globals : Nat
  tables : List InterfaceTable

abbrev Codegen := StateT Building (Except CodegenError)

def build (op : Op) : Codegen Llvm.Value := fun s =>
  .ok (.result s.results op.type, { s with emitted := s.emitted ++ [.op op], results := s.results + 1 })

def emit (emitted : Emitted) : Codegen Unit :=
  modify fun s => { s with emitted := s.emitted ++ [emitted] }

def appendBlock : Codegen Nat := fun s => .ok (s.blocks, { s with blocks := s.blocks + 1 })

/-- `LLVMConstStruct`, `LLVMAddGlobal` and `LLVMSetInitializer`. -/
def addTable (fields : List Llvm.Value) : Codegen Llvm.Value := fun s =>
  let table := Llvm.Value.global s.globals (.ptr (.struct (fields.map Llvm.Value.type)))
  .ok (table, { s with globals := s.globals + 1, tables := s.tables ++ [⟨table, fields⟩] })

def bytePtr : Ty := .ptr (.int 8)

/-- `codegen_context_find_mapping`. -/
def findMapping (context : Context) (decls : List Decl) (interface target : AstType) (name : Name) :
    Option Name :=
  (context.symbols :: context.prev).findSome? fun symbols => symbols.findSome? fun symbol =>
    if symbol.kind = .IMPLEMENTATION then
      match symbol.decl.bind (decls[·]?) with
      | some ⟨_, .implementationDecl i t mappings⟩ =>
        if typeEqual i interface && typeEqual t target then
          (mappings.find? fun mapping => mapping.intf = name).map ImplementationMapping.func
        else none
      | _ => none
    else none

section Expressions
variable (fuel : Nat) (decls : List Decl) (codegen : Expr → Bool → Codegen Llvm.Value) (loc : Loc) (type : AstType)

/-- `codegen_type`. -/
def llvmType (type : AstType) : Codegen Ty := fun s =>
  match codegenType fuel type s.context with
  | .ok (t, context) => .ok (t, { s with context })
  | .error e => .error e

def resolved (type : AstType) : Codegen AstType := do
  monadLift (resolveTypeName (← get).context fuel type)

def noLvalue (lvalue : Bool) (message : String) : Codegen Unit :=
  if lvalue then throw (.assertion message) else pure ()

/-- `LLVMBuildLoad`, unless a pointer is asked for. -/
def loadUnless (lvalue : Bool) (ptr : Llvm.Value) : Codegen Llvm.Value :=
  if lvalue then pure ptr else build (.load ptr)

def codegenIdentExpr (ident : Name) (lvalue : Bool) : Codegen Llvm.Value :=
  if ident = trueName then
    if lvalue then throw (.derror (some loc) "true is not a valid lvalue\n") else pure (.constAllOnes (.int 1))
  else if ident = falseName then
    if lvalue then throw (.derror (some loc) "false is not a valid lvalue\n") else pure (.constNull (.int 1))
  else do
    let some sym := (← get).context.findSymbol ident | throw (.assertion "identifier unknown")
    if sym.kind = .FUNC then present sym.value
    else
      match sym.value with
      | some ptr => loadUnless lvalue ptr
      | none =>
        match sym.decl.bind (decls[·]?) with
        | some ⟨_, .constDecl _ _ value⟩ =>
          noLvalue lvalue "const is not a valid lvalue"
          codegen value false
        | _ => throw (.assertion "expected identifier to be a const")

def codegenStringLiteralExpr (literal : Name) (lvalue : Bool) : Codegen Llvm.Value := do
  noLvalue lvalue "string literal is not a valid lvalue"
  return .globalStringPtr literal

/-- The loop over the leading zeros of a boolean. -/
def skipZeros : Name → Name
  | 48 :: c :: rest => skipZeros (c :: rest)
  | literal => literal

/-- The digits of a boolean that are compared. They end at the first zero byte of the buffer. -/
def booleanDigits (literal : Name) : Name := skipZeros (literal.takeWhile (· != 0))

/-- The kind of the type decides, whatever its pointers. -/
def codegenNumberLiteralExpr (literal : Name) (radix : Nat) (lvalue : Bool) : Codegen Llvm.Value := do
  noLvalue lvalue "number literal is not a valid lvalue"
  match type.kind with
  | .noType =>
    throw (.derror (some loc) "type of literal '%s' cannot be inferred from context, use a cast\n")
  | .integerType _ => return .constIntOfString (← llvmType fuel type) literal radix
  | .floatType _ => return .constRealOfString (← llvmType fuel type) literal
  | .booleanType =>
    if booleanDigits literal = [48] then return .constNull (.int 1)
    else if booleanDigits literal = [49] then return .constAllOnes (.int 1)
    else throw (.derror (some loc) "'%s' is not a valid boolean number, can only be 0 or 1\n")
  | _ => throw (.derror (some loc) "number literal can only be an integer, a boolean, or a float\n")

def buildAssert (condition : Llvm.Value) : Codegen Unit := do
  let trueBlock ← appendBlock
  let exitBlock ← appendBlock
  let condition ← build (.not condition)
  emit (.condBr condition trueBlock exitBlock)
  emit (.position trueBlock)
  let _ ← build (.call .trap [])
  emit (.br exitBlock)
  emit (.position exitBlock)

def codegenIndexAccessExpr (target index : Expr) (lvalue : Bool) : Codegen Llvm.Value := do
  let targetType ← resolved fuel target.type
  let isArray := targetType.pointer == 0 && targetType.kind matches .arrayType _ _
  let value ← codegen target isArray
  let i ← codegen index false
  if !(index.type.kind matches .integerType _) then
    throw (.derror (some index.loc) "index needs to be an integer\n")
  if 0 < targetType.pointer then
    loadUnless lvalue (← build (.gep value i []))
  else
    match targetType.kind with
    | .arrayType _ _ => loadUnless lvalue (← build (.gep value (.constNull (.int 32)) [i]))
    | .sliceType _ =>
      let cap ← build (.extractValue value 2)
      let i ← build (.intCast i cap.type)
      buildAssert (← build (.icmp .ult i cap))
      let ptr ← build (.extractValue value 0)
      loadUnless lvalue (← build (.gep ptr i []))
    | _ => throw (.derror (some loc) "cannot index into non-pointer or non-array")

def codegenBound (bound : Option Expr) : Codegen Llvm.Value :=
  match bound with
  | none => pure (.constNull (.int 64))
  | some expr => do
    if !(expr.type.kind matches .integerType _) then
      throw (.derror (some expr.loc) "index needs to be an integer\n")
    codegen expr false

/-- `slice_slice`. -/
def buildSliceSlice (target : Expr) (start stop : Option Expr) (kind : IndexSliceKind) :
    Codegen Llvm.Value := do
  let value ← codegen target false
  if kind = .COPY then build (.load value)
  else
    let start ← codegenBound codegen start
    let stop ← codegenBound codegen stop
    let cap ← build (.extractValue value 2)
    let start ← build (.intCast start cap.type)
    let stop ← build (.intCast stop cap.type)
    let newCap ← build (.int .sub cap start)
    let newLen ← build (.int .sub stop start)
    let arrptr ← build (.extractValue value 0)
    let ptr ← build (.gep arrptr start [])
    let baseptr ← build (.extractValue value 3)
    let slice ← build (.insertValue (.constNull value.type) ptr 0)
    let slice ← build (.insertValue slice newCap 2)
    let slice ← build (.insertValue slice baseptr 3)
    let condition ← build (.icmp .sgt newLen (.constNull (.int 64)))
    let trueBlock ← appendBlock
    let falseBlock ← appendBlock
    let exitBlock ← appendBlock
    emit (.condBr condition trueBlock falseBlock)
    emit (.position trueBlock)
    let sliceLen ← build (.insertValue slice newLen 1)
    emit (.br exitBlock)
    emit (.position falseBlock)
    emit (.br exitBlock)
    emit (.position exitBlock)
    build (.phi value.type [(sliceLen, trueBlock), (slice, falseBlock)])

/-- `slice_array`. The length is read from the type as it stands; where that is a name, there is a zero. -/
def buildSliceArray (target : Expr) (start stop : Option Expr) : Codegen Llvm.Value := do
  let .sliceType element := type.kind | throw .undefined
  let arrayPtrType := Ty.ptr (← llvmType fuel element)
  let arrayPtr ← build (.pointerCast (← codegen target true) arrayPtrType)
  let arrayLength := Llvm.Value.constInt (.int 64) (target.type.kind.length?.getD 0)
  let indexStart ← (match start with
    | some expr => codegen expr false
    | none => pure (.constNull (.int 64)))
  let indexEnd ← (match stop with
    | some expr => codegen expr false
    | none => pure arrayLength)
  let ptr ← build (.gep arrayPtr indexStart [])
  let len ← build (.int .sub indexEnd indexStart)
  let cap ← build (.int .sub arrayLength indexStart)
  let result ← build (.insertValue (.constNull (← llvmType fuel type)) ptr 0)
  let result ← build (.insertValue result len 1)
  let result ← build (.insertValue result cap 2)
  build (.insertValue result arrayPtr 3)

def codegenIndexSliceExpr (target : Expr) (start stop : Option Expr) (kind : IndexSliceKind) :
    Codegen Llvm.Value := do
  match (← resolved fuel target.type).kind with
  | .sliceType _ => buildSliceSlice codegen target start stop kind
  | .arrayType _ _ => buildSliceArray fuel codegen type target start stop
  | _ => throw (.die "invalid slicing target\n")

/-! ### Calls -/

/-- The first placeholder among the arguments of a member function. -/
def findPlaceholder (types : List AstType) : Option Nat :=
  types.findIdx? fun t => t.kind matches .placeholderType

/-- A value that stands at an argument's place already, or the code for the argument. -/
def codegenArgs (placed : Option (Nat × Llvm.Value)) (args : List Expr) : Codegen (List Llvm.Value) :=
  args.zipIdx.mapM fun (arg, i) =>
    match placed with
    | some (place, value) => if i = place then pure value else codegen arg false
    | none => codegen arg false

/-- A call of a member function. The table and the object are taken from the argument at the first
placeholder. -/
def codegenMemberCall (sym : CodegenSymbol) (interface : AstType) (types : List AstType) (args : List Expr) :
    Codegen Llvm.Value := do
  if types.length ≠ args.length then
    throw (.derror (some loc) "'%s' requires %d arguments, but only %d given\n")
  let some place := findPlaceholder types | throw (.derror (some loc) "unable to find a placeholder argument\n")
  let ph ← present args[place]?
  let phType ← resolved fuel ph.type
  if !(phType.kind matches .interfaceType _) then
    throw (.derror (some ph.loc) "argument %d of '%s' should be an interface\n")
  if !typeEqual phType interface then
    throw (.derror (some ph.loc) "argument %d of '%s' is an incompatible interface\n")
  let target ← codegen ph false
  let tablePtr ← build (.extractValue target 0)
  let objectPtr ← build (.extractValue target 1)
  let table ← build (.load tablePtr)
  let memberFunc ← build (.extractValue table (1 + sym.member))
  let values ← codegenArgs codegen (some (place, objectPtr)) args
  build (.call memberFunc values)

/-- A result that is asked for as an lvalue is stored first. -/
def spillUnless (lvalue : Bool) (result : Llvm.Value) : Codegen Llvm.Value :=
  if lvalue then do
    let ptr ← build (.alloca result.type)
    let _ ← build (.store result ptr)
    return ptr
  else pure result

def codegenCallExpr (target : Expr) (args : List Expr) (lvalue : Bool) : Codegen Llvm.Value := do
  let .identExpr ident := target.kind | throw (.assertion "can only call functions by name at the moment")
  let some sym := (← get).context.findSymbol ident | throw (.die "identifier '%s' unknown\n")
  if sym.kind = .INTERFACE_FUNCTION then
    let interface ← present sym.interface
    let .interfaceType members := interface.kind | throw .undefined
    let .function _ _ types ← present members[sym.member]? | throw .undefined
    spillUnless lvalue (← codegenMemberCall fuel codegen loc sym interface types args)
  else
    let symType ← present sym.type
    if !(symType.kind matches .funcType _ _) then throw (.die "identifier '%s' is not a function\n")
    let funcptr ← present sym.value
    let funcptr ← (if sym.kind = .FUNC then pure funcptr else build (.load funcptr))
    let values ← codegenArgs codegen none args
    spillUnless lvalue (← build (.call funcptr values))

def codegenMemberAccessExpr (target : Expr) (name : Name) (lvalue : Bool) : Codegen Llvm.Value := do
  let st ← resolved fuel target.type
  let stderef ← (if 0 < st.pointer then resolved fuel st.down else pure st)
  match st.kind with
  | .interfaceType members =>
    let some (i, _) := findField members name | throw (.assertion "interface has no such member")
    let value ← codegen target false
    let tablePtr ← build (.extractValue value 0)
    let objectPtr ← build (.extractValue value 1)
    let table ← build (.load tablePtr)
    let memberOffset ← build (.extractValue table (1 + i))
    let memberOffsetInt ← build (.ptrToInt memberOffset (.int 64))
    let ptrBytes ← build (.gep objectPtr memberOffsetInt [])
    loadUnless lvalue (← build (.pointerCast ptrBytes memberOffset.type))
  | _ =>
    if 1 < st.pointer then throw (.derror (some loc) "cannot access member across multiple indirection\n")
    let value ← codegen target (st.pointer == 0)
    let .structType members := stderef.kind | throw (.assertion "cannot access member of non-struct")
    let some (i, _) := findMember members name | throw (.assertion "struct has no such member")
    loadUnless lvalue (← build (.structGep value i))

/-! ### Operators -/

def codegenIncdecExpr (target : Expr) (order : IncdecOrder) (direction : IncdecDirection) (lvalue : Bool) :
    Codegen Llvm.Value := do
  if lvalue then
    throw (.derror (some loc) "result of increment/decrement operation is not a valid lvalue\n")
  let ptr ← codegen target true
  if !(type.kind matches .integerType _) then
    throw (.derror (some loc) "increment/decrement operator only supported for integers\n")
  let value ← build (.load ptr)
  let one := Llvm.Value.constInt (← llvmType fuel type) 1
  let newValue ← build (.int (match direction with | .INC => .add | .DEC => .sub) value one)
  let _ ← build (.store newValue ptr)
  return match order with
    | .PRE => newValue
    | .POST => value

def codegenUnaryExpr (target : Expr) (op : UnaryOp) (lvalue : Bool) : Codegen Llvm.Value := do
  match op with
  | .ADDRESS => codegen target true
  | .DEREF => loadUnless lvalue (← codegen target false)
  | .POSITIVE => codegen target false
  | .NEGATIVE =>
    let value ← codegen target false
    match target.type.kind with
    | .integerType _ => build (.neg value)
    | .floatType _ => build (.fneg value)
    | _ => throw (.derror (some loc) "expression of type %s cannot be negated\n")
  | .BITWISE_NOT =>
    match target.type.kind with
    | .integerType _ => build (.not (← codegen target false))
    | _ => throw (.derror (some loc) "unary operator not available for type %s\n")
  | .NOT =>
    match target.type.kind with
    | .booleanType => build (.not (← codegen target false))
    | _ => throw (.derror (some loc) "unary operator not available for type %s\n")

/-- The conversion of a size to the type of the expression. -/
def codegenSizeof (lvalue : Bool) (size : Codegen Ty) : Codegen Llvm.Value := do
  noLvalue lvalue "result of sizeof expression is not a valid lvalue"
  if type.noKind then
    throw (.derror (some loc) "return type of sizeof() cannot be inferred from context, use a cast\n")
  let t ← size
  build (.intCast (.sizeOf t) (← llvmType fuel type))

def codegenExprSizeof (expr : Expr) (lvalue : Bool) : Codegen Llvm.Value :=
  codegenSizeof fuel loc type lvalue do return (← codegen expr false).type

def codegenTypeSizeof (size : AstType) (lvalue : Bool) : Codegen Llvm.Value :=
  codegenSizeof fuel loc type lvalue (llvmType fuel size)

def codegenSlot (castType refd : AstType) (structMembers : List (StructMember AstType)) (target : Llvm.Value) :
    InterfaceMember AstType → Codegen Llvm.Value
  | .function name returnType args => do
    let some mapped := findMapping (← get).context decls castType refd name
      | throw (.derror (some loc) "cannot determine which function maps to '%s'\n")
    let some sym := (← get).context.findSymbol mapped
      | throw (.derror (some loc) "function '%s' which is supposed to implement '%s' is unknown\n")
    let args ← args.mapM fun arg =>
      match arg.kind with
      | .placeholderType => pure bytePtr
      | _ => llvmType fuel arg
    let returnType ← llvmType fuel returnType
    build (.pointerCast (← present sym.value) (.ptr (.func returnType args false)))
  | .field name fieldType => do
    let some (n, memberType) := findMember structMembers name
      | throw (.derror (some loc) "type %s has no member named '%s' required by the interface %s")
    if !typeEqual fieldType memberType then
      throw (.derror (some loc) "field '%s' is of the wrong type for interface %s")
    build (.structGep (.constNull target.type) n)

def codegenInterfaceCast (castType fromType : AstType) (members : List (InterfaceMember AstType)) (target : Llvm.Value)
    (dst : Ty) : Codegen Llvm.Value := do
  if fromType.pointer ≠ 1 then throw (.derror (some loc) "only pointers can be cast to an interface\n")
  if !(memberTags fromType).isEmpty then throw .undefined
  let refd := fromType.down
  let .structType structMembers := (← resolved fuel refd).kind
    | throw (.derror (some loc) "type %s is not a pointer to a struct and can therefore not be cast to an interface\n")
  let slots ← members.mapM (codegenSlot fuel decls loc castType refd structMembers target)
  let table ← addTable (.constNull bytePtr :: slots)
  let targetCast ← build (.pointerCast target bytePtr)
  let result ← build (.insertValue (.constNull dst) table 0)
  build (.insertValue result targetCast 1)

/-- The type that is cast from is resolved, and so is the type that is cast to. -/
def codegenCastExpr (target : Expr) (castType : AstType) (lvalue : Bool) : Codegen Llvm.Value := do
  noLvalue lvalue "result of a cast is not a valid lvalue"
  let value ← codegen target false
  let dst ← llvmType fuel castType
  let fromType ← resolved fuel target.type
  let toType ← resolved fuel castType
  let failed : Codegen Llvm.Value := throw (.derror (some loc) "cannot cast from %s to %s\n")
  if typeEqual fromType toType then pure value
  else
    match toType.kind with
    | .interfaceType members => codegenInterfaceCast fuel decls loc castType fromType members value dst
    | toKind =>
      if 0 < fromType.pointer then
        if 0 < toType.pointer then build (.pointerCast value dst)
        else if toKind matches .integerType _ then build (.ptrToInt value dst)
        else failed
      else if fromType.kind matches .integerType _ then
        if 0 < toType.pointer then build (.intToPtr value dst)
        else if toKind matches .integerType _ then build (.intCast value dst)
        else if toKind matches .booleanType then build (.icmp .sgt value (.constNull value.type))
        else failed
      else if (fromType.kind matches .booleanType) && toType.pointer == 0 && (toKind matches .integerType _) then
        build (.zext value dst)
      else failed

def boolOp : BinaryOp → Option (Llvm.Value → Llvm.Value → Op)
  | .EQ => some (.icmp .eq)
  | .NE => some (.icmp .ne)
  | .AND => some (.int .and)
  | .OR => some (.int .or)
  | _ => none

def intOp : BinaryOp → Option (Llvm.Value → Llvm.Value → Op)
  | .ADD => some (.int .add)
  | .SUB => some (.int .sub)
  | .MUL => some (.int .mul)
  | .DIV => some (.int .sdiv)
  | .MOD => some (.int .srem)
  | .LEFT => some (.int .shl)
  | .RIGHT => some (.int .ashr)
  | .LT => some (.icmp .slt)
  | .GT => some (.icmp .sgt)
  | .LE => some (.icmp .sle)
  | .GE => some (.icmp .sge)
  | .EQ => some (.icmp .eq)
  | .NE => some (.icmp .ne)
  | .BITWISE_AND => some (.int .and)
  | .BITWISE_XOR => some (.int .xor)
  | .BITWISE_OR => some (.int .or)
  | .AND | .OR => none

def realOp : BinaryOp → Option (Llvm.Value → Llvm.Value → Op)
  | .ADD => some (.real .add)
  | .SUB => some (.real .sub)
  | .MUL => some (.real .mul)
  | .DIV => some (.real .div)
  | .MOD => some (.real .rem)
  | .LT => some (.fcmp .olt)
  | .GT => some (.fcmp .ogt)
  | .LE => some (.fcmp .ole)
  | .GE => some (.fcmp .oge)
  | .EQ => some (.fcmp .oeq)
  | .NE => some (.fcmp .one)
  | _ => none

def codegenBinaryExpr (lhs rhs : Expr) (op : BinaryOp) (lvalue : Bool) : Codegen Llvm.Value := do
  if lhs.type.noKind && rhs.type.noKind then
    throw (.derror (some loc) "cannot determine type of binary operation, use a cast\n")
  if !typeEqual lhs.type rhs.type then
    throw (.derror (some loc) "operands to %s must be of the same type (got %s and %s)\n")
  noLvalue lvalue "result of a binary operation is not a valid lvalue"
  let l ← codegen lhs false
  let r ← codegen rhs false
  match lhs.type.kind with
  | .booleanType =>
    let some instr := boolOp op | throw (.die "%s.%d: codegen for binary op %d on boolean types not implemented\n")
    build (instr l r)
  | .integerType _ =>
    let some instr := intOp op
      | throw (.derror (some loc) "binary operator not available for integer types\n")
    build (instr l r)
  | .floatType _ =>
    let some instr := realOp op
      | throw (.derror (some loc) "binary operator not available for floating point types\n")
    build (instr l r)
  | _ => throw (.derror (some loc) "invalid type %s to binary operator\n")

def codegenConditionalExpr (condition trueExpr falseExpr : Expr) (lvalue : Bool) : Codegen Llvm.Value := do
  noLvalue lvalue "result of a conditional is not a valid lvalue"
  let cond ← codegen condition false
  let trueBlock ← appendBlock
  let falseBlock ← appendBlock
  let exitBlock ← appendBlock
  emit (.condBr cond trueBlock falseBlock)
  emit (.position trueBlock)
  let trueValue ← codegen trueExpr false
  emit (.br exitBlock)
  emit (.position falseBlock)
  let falseValue ← codegen falseExpr false
  emit (.br exitBlock)
  emit (.position exitBlock)
  let t ← llvmType fuel trueExpr.type
  build (.phi t [(trueValue, trueBlock), (falseValue, falseBlock)])

def codegenAssignmentExpr (target expr : Expr) (op : AssignmentOp) : Codegen Llvm.Value := do
  let ptr ← codegen target true
  let value ← codegen expr false
  let combined ← (match op with
    | .ASSIGN => pure value
    | _ => do
      let old ← build (.load ptr)
      match op with
      | .ADD_ASSIGN => build (.int .add old value)
      | .SUB_ASSIGN => build (.int .sub old value)
      | .MUL_ASSIGN => build (.int .mul old value)
      | .DIV_ASSIGN => build (.int .udiv old value)
      | _ => throw (.die "%s.%d: codegen for assignment op %d not implemented\n"))
  let _ ← build (.store combined ptr)
  return value

/-- The case of `codegen_expr` itself. -/
def codegenCommaExpr (exprs : List Expr) (lvalue : Bool) : Codegen Llvm.Value := do
  noLvalue lvalue "comma expression is not a valid lvalue"
  let values ← exprs.mapM fun expr => codegen expr false
  present values.getLast?

/-! ### Builtins -/

def codegenArrayNew (element : Ty) (size : Llvm.Value) : Codegen Llvm.Value := do
  let arrptr ← build (.arrayMalloc element size)
  let cntrptr ← build (.alloca size.type)
  let _ ← build (.store size cntrptr)
  let loopBlock ← appendBlock
  let bodyBlock ← appendBlock
  let exitBlock ← appendBlock
  emit (.br loopBlock)
  emit (.position loopBlock)
  let cntr ← build (.load cntrptr)
  let cond ← build (.icmp .sle (.constNull cntr.type) cntr)
  emit (.condBr cond bodyBlock exitBlock)
  emit (.position bodyBlock)
  let iptr ← build (.gep arrptr cntr [])
  let _ ← build (.store (.constNull element) iptr)
  let cntr ← build (.int .sub cntr (.constInt cntr.type 1))
  let _ ← build (.store cntr cntrptr)
  emit (.br loopBlock)
  emit (.position exitBlock)
  return arrptr

def codegenNewBuiltinExpr (newType : AstType) (expr : Option Expr) : Codegen Llvm.Value := do
  let t ← llvmType fuel newType
  match expr with
  | some expr => codegenArrayNew t (← codegen expr false)
  | none =>
    let ptr ← build (.malloc t)
    let _ ← build (.store (.constNull t) ptr)
    return ptr

def codegenFreeBuiltinExpr (expr : Expr) : Codegen Llvm.Value := do
  build (.free (← codegen expr false))

def codegenMakeBuiltinExpr (makeType : AstType) (expr : Expr) : Codegen Llvm.Value := do
  let t ← resolved fuel makeType
  let .sliceType element := t.kind | throw (.derror (some loc) "cannot make non-slice\n")
  let cap ← codegen expr false
  let cap ← build (.intCast cap (.int 64))
  let elementType ← llvmType fuel element
  let arrptr ← codegenArrayNew elementType cap
  let arrptr ← build (.pointerCast arrptr (.ptr elementType))
  let makeType ← llvmType fuel t
  let slice ← build (.insertValue (.constNull makeType) arrptr 0)
  let slice ← build (.insertValue slice cap 2)
  build (.insertValue slice arrptr 3)

def codegenLencapBuiltinExpr (expr : Expr) (kind : LencapKind) : Codegen Llvm.Value := do
  let slice ← codegen expr false
  build (.extractValue slice (match kind with | .LEN => 1 | .CAP => 2))

def codegenDisposeBuiltinExpr (expr : Expr) : Codegen Llvm.Value := do
  let ptr ← codegen expr true
  let slice ← build (.load ptr)
  let base ← build (.extractValue slice 3)
  let _ ← build (.store (.constNull slice.type) ptr)
  build (.free base)

end Expressions

def codegenExpr (decls : List Decl) : Nat → Expr → Bool → Codegen Llvm.Value
  | 0, _, _ => throw .fuel
  | fuel + 1, .mk loc type kind, lvalue =>
    let codegen := codegenExpr decls fuel
    match kind with
    | .identExpr ident => codegenIdentExpr decls codegen loc ident lvalue
    | .stringLiteralExpr literal => codegenStringLiteralExpr literal lvalue
    | .numberLiteralExpr literal radix => codegenNumberLiteralExpr fuel loc type literal radix lvalue
    | .indexAccessExpr target index => codegenIndexAccessExpr fuel codegen loc target index lvalue
    | .indexSliceExpr target start stop kind => codegenIndexSliceExpr fuel codegen type target start stop kind
    | .callExpr target args => codegenCallExpr fuel codegen loc target args lvalue
    | .memberAccessExpr target name => codegenMemberAccessExpr fuel codegen loc target name lvalue
    | .incdecExpr target order direction => codegenIncdecExpr fuel codegen loc type target order direction lvalue
    | .unaryExpr target op => codegenUnaryExpr codegen loc target op lvalue
    | .exprSizeof expr => codegenExprSizeof fuel codegen loc type expr lvalue
    | .typeSizeof size => codegenTypeSizeof fuel loc type size lvalue
    | .castExpr target castType => codegenCastExpr fuel decls codegen loc target castType lvalue
    | .binaryExpr lhs rhs op => codegenBinaryExpr codegen loc lhs rhs op lvalue
    | .conditionalExpr condition trueExpr falseExpr =>
      codegenConditionalExpr fuel codegen condition trueExpr falseExpr lvalue
    | .assignmentExpr target expr op => codegenAssignmentExpr codegen target expr op
    | .commaExpr exprs => codegenCommaExpr codegen exprs lvalue
    | .newBuiltin newType expr => codegenNewBuiltinExpr fuel codegen newType expr
    | .freeBuiltin expr => codegenFreeBuiltinExpr codegen expr
    | .makeBuiltin makeType expr => codegenMakeBuiltinExpr fuel codegen loc makeType expr
    | .lencapBuiltin expr kind => codegenLencapBuiltinExpr codegen expr kind
    | .disposeBuiltin expr => codegenDisposeBuiltinExpr codegen expr

end Low
