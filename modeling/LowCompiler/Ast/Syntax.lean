import LowCompiler.Parser.Driver

/-!
# The syntax tree

The structures of `ast.h`. A pointer that may be null is an `Option`, and a
pointer with a count is a list. The type of an expression is zero until the code
generator sets it.
-/

namespace Low

abbrev Name := List UInt8

/-! ### Types -/

structure StructMember (T : Type) where
  name : Name
  type : T

inductive InterfaceMember (T : Type) where
  | field (name : Name) (type : T)
  | function (name : Name) (returnType : T) (args : List T)

inductive TypeKind (T : Type) where
  | noType
  | voidType
  | booleanType
  | integerType (width : Nat)
  | floatType (width : Nat)
  | funcType (returnType : T) (args : List T)
  | namedType (name : Name)
  | structType (members : List (StructMember T))
  | arrayType (type : T) (length : Nat)
  | sliceType (type : T)
  | interfaceType (members : List (InterfaceMember T))
  | placeholderType

/-- `type_t`. -/
inductive AstType where
  | mk (pointer : Nat) (kind : TypeKind AstType)

namespace AstType

def pointer : AstType → Nat
  | .mk pointer _ => pointer

def kind : AstType → TypeKind AstType
  | .mk _ kind => kind

def zero : AstType := .mk 0 .noType

end AstType

/-! ### Expressions -/

inductive IndexSliceKind where
  | RANGE | PREFIX | POSTFIX | COPY
  deriving DecidableEq, Repr

inductive IncdecOrder where
  | PRE | POST
  deriving DecidableEq, Repr

inductive IncdecDirection where
  | INC | DEC
  deriving DecidableEq, Repr

inductive UnaryOp where
  | ADDRESS | DEREF | POSITIVE | NEGATIVE | BITWISE_NOT | NOT
  deriving DecidableEq, Repr

inductive LencapKind where
  | LEN | CAP
  deriving DecidableEq, Repr

inductive BinaryOp where
  | ADD | SUB | MUL | DIV | MOD | LEFT | RIGHT | LT | GT | LE | GE | EQ | NE | BITWISE_AND | BITWISE_XOR
  | BITWISE_OR | AND | OR
  deriving DecidableEq, Repr

inductive AssignmentOp where
  | ASSIGN | ADD_ASSIGN | AND_ASSIGN | DIV_ASSIGN | LEFT_ASSIGN | MOD_ASSIGN | MUL_ASSIGN | OR_ASSIGN
  | RIGHT_ASSIGN | SUB_ASSIGN | XOR_ASSIGN
  deriving DecidableEq, Repr

inductive ExprKind (E : Type) where
  | identExpr (ident : Name)
  | stringLiteralExpr (literal : Name)
  | numberLiteralExpr (literal : Name) (radix : Nat)
  | indexAccessExpr (target index : E)
  | indexSliceExpr (target : E) (start stop : Option E) (kind : IndexSliceKind)
  | callExpr (target : E) (args : List E)
  | memberAccessExpr (target : E) (name : Name)
  | incdecExpr (target : E) (order : IncdecOrder) (direction : IncdecDirection)
  | unaryExpr (target : E) (op : UnaryOp)
  | exprSizeof (expr : E)
  | typeSizeof (type : AstType)
  | castExpr (target : E) (type : AstType)
  | binaryExpr (lhs rhs : E) (op : BinaryOp)
  | conditionalExpr (condition trueExpr falseExpr : E)
  | assignmentExpr (target expr : E) (op : AssignmentOp)
  | commaExpr (exprs : List E)
  | newBuiltin (type : AstType) (expr : Option E)
  | freeBuiltin (expr : E)
  | makeBuiltin (type : AstType) (expr : E)
  | lencapBuiltin (expr : E) (kind : LencapKind)
  | disposeBuiltin (expr : E)

inductive Expr where
  | mk (loc : Loc) (type : AstType) (kind : ExprKind Expr)

namespace Expr

def loc : Expr → Loc
  | .mk loc _ _ => loc

def type : Expr → AstType
  | .mk _ type _ => type

def kind : Expr → ExprKind Expr
  | .mk _ _ kind => kind

end Expr

/-! ### Declarations -/

structure ImplementationMapping where
  intf : Name
  func : Name

inductive DeclKind where
  | variableDecl (type : AstType) (name : Name) (initial : Option Expr)
  | constDecl (name : Name) (type : Option AstType) (value : Expr)
  | implementationDecl (interface target : AstType) (mappings : List ImplementationMapping)

structure Decl where
  loc : Loc
  kind : DeclKind

/-! ### Statements -/

inductive BlockItem (S : Type) where
  | stmtItem (stmt : Option S)
  | declItem (decl : Decl)

/-- An empty statement is a null pointer, and so is a missing one. -/
inductive StmtKind (S : Type) where
  | exprStmt (expr : Expr)
  | compoundStmt (items : List (BlockItem S))
  | ifStmt (condition : Expr) (stmt elseStmt : Option S)
  | switchStmt (condition : Expr) (stmt : Option S)
  | doStmt (stmt : Option S) (condition : Expr)
  | forStmt (initial condition step : Option Expr) (stmt : Option S)
  | gotoStmt (name : Name)
  | continueStmt
  | breakStmt
  | returnStmt (expr : Option Expr)
  | caseStmt (expr : Expr) (stmt : Option S)
  | defaultStmt (stmt : Option S)

inductive Stmt where
  | mk (loc : Loc) (kind : StmtKind Stmt)

structure FuncParam where
  type : AstType
  name : Option Name

structure FuncUnit where
  returnType : AstType
  name : Name
  body : Option Stmt
  params : List FuncParam
  variadic : Bool

inductive UnitKind where
  | importUnit (name : Name)
  | declUnit (decl : Decl)
  | funcUnit (func : FuncUnit)
  | typeUnit (name : Name) (type : AstType)
  | packageUnit (name : Name)

structure AstUnit where
  loc : Loc
  kind : UnitKind

end Low
