import LowCompiler.Ast.TypeCopy
import LowCompiler.Llvm.Typing

/-!
# Contexts and the translation of types

The symbols of `codegen.h`, their lookup, and `codegen_type.c`. Translating an
interface type adds its members to the innermost scope of the context.
-/

namespace Low

/-- How the code generator stops. The messages are the format strings of the source. -/
inductive CodegenError where
  | derror (loc : Option Loc) (message : String)
  | die (message : String)
  | assertion (message : String)
  /-- A null pointer is followed, or memory is read that was not written. -/
  | undefined
  /-- The recursion was cut off. -/
  | fuel

/-! ### Symbols -/

inductive SymbolKind where
  | INVALID | FUNC | IMPLEMENTATION | INTERFACE_FUNCTION
  deriving DecidableEq, Repr

/-- `codegen_symbol_t`. A declaration is the number of its node. -/
structure CodegenSymbol where
  kind : SymbolKind
  name : Option Name
  type : Option AstType
  value : Option Llvm.Value
  decl : Option Nat
  interface : Option AstType
  member : Nat
  /-- The type is the one that was parsed, and not made by the code generator. -/
  parsed : Bool

/-- `codegen_context_t`, with the symbols of the contexts that `prev` leads to, innermost first. -/
structure Context where
  symbols : List CodegenSymbol
  prev : List (List CodegenSymbol)

namespace Context

def addSymbol (context : Context) (symbol : CodegenSymbol) : Context :=
  { context with symbols := context.symbols ++ [symbol] }

/-- `codegen_context_find_symbol`, and `context_find_local` of `codegen_type.c`. -/
def findSymbol (context : Context) (name : Name) : Option CodegenSymbol :=
  (context.symbols :: context.prev).findSome? fun symbols => symbols.find? fun symbol => symbol.name = some name

end Context

/-! ### Types -/

def resolveTypeName (context : Context) : Nat → AstType → Except CodegenError AstType
  | 0, _ => throw .fuel
  | fuel + 1, .mk 0 (.namedType name) => do
    let some symbol := context.findSymbol name | throw (.assertion "unknown type name")
    let some type := symbol.type | throw (.assertion "type")
    resolveTypeName context fuel type
  | _ + 1, type => pure type

abbrev Translate := StateT Context (Except CodegenError)

def InterfaceMember.name {T : Type} : InterfaceMember T → Name
  | .field name _ | .function name _ _ => name

def memberSymbol (interface : Option AstType) (name : Name) (member : Nat) : CodegenSymbol :=
  ⟨.INTERFACE_FUNCTION, some name, none, none, none, interface, member, false⟩

def memberSymbols (interface : Option AstType) (members : List (InterfaceMember AstType)) :
    List CodegenSymbol :=
  members.mapIdx fun i m => memberSymbol interface m.name i

section Types
variable (codegenType : AstType → Translate Llvm.Ty)

def memberArgType (arg : AstType) : Translate Llvm.Ty :=
  match arg.kind with
  | .placeholderType => pure (.ptr (.int 8))
  | _ => codegenType arg

def memberSlotType : InterfaceMember AstType → Translate Llvm.Ty
  | .field _ type => do
    return .ptr (← codegenType type)
  | .function _ returnType args => do
    let args ← args.mapM (memberArgType codegenType)
    return .ptr (.func (← codegenType returnType) args false)

def makeInterfaceTableType (members : List (InterfaceMember AstType)) : Translate Llvm.Ty := do
  let fields ← members.mapM (memberSlotType codegenType)
  return .struct (.ptr (.int 8) :: fields)

def codegenTypeInterface (interface : Option AstType) (members : List (InterfaceMember AstType)) :
    Translate Llvm.Ty := do
  let table ← makeInterfaceTableType codegenType members
  modify fun context => { context with symbols := context.symbols ++ memberSymbols interface members }
  return .struct [.ptr table, .ptr (.int 8)]

def codegenTypeFloat : Nat → Translate Llvm.Ty
  | 16 => pure .half
  | 32 => pure .float
  | 64 => pure .double
  | 128 => pure .fp128
  | _ => throw (.die "floating point type must be 16, 32, 64 or 128 bits wide but was %d\n")

def codegenTypeNamed (name : Name) : Translate Llvm.Ty := do
  let some symbol := (← get).findSymbol name | throw (.derror none "unknown type name '%s'\n")
  let some type := symbol.type | throw (.derror none "'%s' is not a type name\n")
  codegenType type

/-- The table `codegen_type_fn`. Behind a pointer the type is a local copy in `codegen_type`, and
the symbols for its members point to nothing once it returns. -/
def codegenTypeKind (behindPointer : Bool) : TypeKind AstType → Translate Llvm.Ty
  | .voidType => pure .void
  | .booleanType => pure (.int 1)
  | .integerType width => pure (.int width)
  | .floatType width => codegenTypeFloat width
  | .funcType returnType args => do
    let args ← args.mapM codegenType
    return .func (← codegenType returnType) args false
  | .namedType name => codegenTypeNamed codegenType name
  | .structType members => do
    return .struct (← members.mapM fun m => codegenType m.type)
  | .sliceType type => do
    let arrtype := Llvm.Ty.ptr (← codegenType type)
    return .struct [arrtype, .int 64, .int 64, arrtype]
  | .arrayType type length => do
    return .array (← codegenType type) length
  | .interfaceType members =>
    let interface := AstType.mk 0 (.interfaceType members)
    codegenTypeInterface codegenType (if behindPointer then none else some interface) members
  | .noType | .placeholderType => throw (.die "type codegen for kind %d not implemented")

end Types

/-- `codegen_type`, with the pointers around a type in one step. -/
def codegenType : Nat → AstType → Translate Llvm.Ty
  | 0, _ => throw .fuel
  | fuel + 1, .mk pointer kind => do
    return (← codegenTypeKind (codegenType fuel) (0 < pointer) kind).pointer pointer

end Low
