import LowCompiler.Ast.Syntax
import LowCompiler.Lexer.Next
import Mathlib.Algebra.Group.Int.Defs

/-!
# What the reducers read

The pointer or tag of a token on the parser's stack, with what it points to. The
code does not check what a pointer points to; here a read of the wrong kind is a
fault, and so is a read past the tokens of the variant.
-/

namespace Low

inductive Kind where
  | expr | stmt | type | decl | unit | blockItem | mapping | structMember | interfaceMember | param
  | unaryOp | assignmentOp
  deriving DecidableEq, Repr

abbrev Kind.Val : Kind → Type
  | .expr => Expr
  | .stmt => Stmt
  | .type => AstType
  | .decl => Decl
  | .unit => AstUnit
  | .blockItem => BlockItem Stmt
  | .mapping => ImplementationMapping
  | .structMember => StructMember AstType
  | .interfaceMember => InterfaceMember AstType
  | .param => FuncParam
  | .unaryOp => UnaryOp
  | .assignmentOp => AssignmentOp

/-- The union of `token_t`: a null pointer, a pointer to one thing (or an operator tag), or an `array_t`. -/
inductive Value where
  | null
  | one (kind : Kind) (val : kind.Val)
  | array (kind : Kind) (items : List kind.Val)

namespace Value

def get (kind : Kind) : Value → Option kind.Val
  | one k val => if same : k = kind then some (same ▸ val) else none
  | _ => none

def getArray (kind : Kind) : Value → Option (List kind.Val)
  | array k items => if same : k = kind then some (same ▸ items) else none
  | _ => none

def isNull : Value → Bool
  | null => true
  | _ => false

@[simp] theorem get_one (kind : Kind) (val : kind.Val) : (one kind val).get kind = some val := by
  simp [get]

@[simp] theorem getArray_array (kind : Kind) (items : List kind.Val) :
    (array kind items).getArray kind = some items := by
  simp [getArray]

end Value

inductive ReduceFault where
  /-- `in[index]` lies past the symbols of the variant. -/
  | operand (index : Nat)
  /-- `in[index]` is not what the reducer takes it for. -/
  | kind (index : Nat)
  /-- A read past the source. -/
  | source
  /-- The reducer reports an error and calls `abort`. -/
  | abort
  /-- An `int` is counted past its last value, which is undefined. -/
  | overflow
  /-- A write past the end of the buffer for a text. -/
  | buffer
  deriving DecidableEq, Repr

section Read
variable (tokens : List (StackToken Value)) (index : Nat)

def operand : Except ReduceFault (StackToken Value) :=
  match tokens[index]? with
  | some token => .ok token
  | none => .error (.operand index)

/-- `in[index].ptr` or `in[index].tag` as a `kind`. -/
def read (kind : Kind) : Except ReduceFault kind.Val :=
  match operand tokens index with
  | .ok token =>
    match token.value.get kind with
    | some val => .ok val
    | none => .error (.kind index)
  | .error fault => .error fault

/-- `in[index].ptr` as a `kind` or a null pointer. -/
def readNullable (kind : Kind) : Except ReduceFault (Option kind.Val) :=
  match operand tokens index with
  | .ok token =>
    if token.value.isNull then .ok none
    else match token.value.get kind with
      | some val => .ok (some val)
      | none => .error (.kind index)
  | .error fault => .error fault

/-- `in[index].ptr` as an `array_t` of `kind`. -/
def readArray (kind : Kind) : Except ReduceFault (List kind.Val) :=
  match operand tokens index with
  | .ok token =>
    match token.value.getArray kind with
    | some items => .ok items
    | none => .error (.kind index)
  | .error fault => .error fault

/-- `in[index]` as a lexeme of the token `t`. -/
def readLexeme (t : Token) : Except ReduceFault (StackToken Value) :=
  match operand tokens index with
  | .ok token => if token.id = t.toNat then .ok token else .error (.kind index)
  | .error fault => .error fault

end Read

/-! ### Text -/

/-- `strndup` of at most `n` bytes of the source. -/
def strndup (source : Memory) (ptr n : Nat) : Name :=
  ((source.drop ptr).take n).takeWhile (· != 0)

/-- `strndup(in[index].first, in[index].last-in[index].first)` of an identifier. -/
def readIdent (source : Memory) (tokens : List (StackToken Value)) (index : Nat) :
    Except ReduceFault Name :=
  match readLexeme tokens index .IDENT with
  | .ok token => .ok (strndup source token.first (token.last - token.first))
  | .error fault => .error fault

/-- The text of a string literal between its quotes. -/
def readQuoted (source : Memory) (tokens : List (StackToken Value)) (index : Nat) :
    Except ReduceFault Name :=
  match readLexeme tokens index .STRING_LITERAL with
  | .ok token => .ok (strndup source (token.first + 1) (token.last - token.first - 2))
  | .error fault => .error fault

def isSpace (c : UInt8) : Bool := c == 0x20 || (0x09 ≤ c && c ≤ 0x0d)

/-- The number that the decimal digits at the start of a text denote. -/
def leadingDigits (text : List UInt8) : Nat :=
  (text.takeWhile isNumberDec).foldl (fun n c => 10 * n + (c.toNat - '0'.toNat)) 0

/-- `atoi`: `strtol` saturates at the bounds of a `long`, and the `int` keeps its lower 32 bits. -/
def atoi (text : List UInt8) : Int :=
  let text := text.dropWhile isSpace
  let (negative, text) :=
    if text.head? = some '-'.toUInt8 then (true, text.tail)
    else if text.head? = some '+'.toUInt8 then (false, text.tail)
    else (false, text)
  let magnitude : Int := leadingDigits text
  let long := if negative then max (-2 ^ 63) (-magnitude) else min magnitude (2 ^ 63 - 1)
  long.bmod (2 ^ 32)

def unsignedOfInt (n : Int) : Nat := (n % 2 ^ 32).toNat

/-- The loop of `reduce_primary_expr_string` over at most `n` bytes of the data. -/
def unescape : Nat → List UInt8 → Except ReduceFault Name
  | 0, _ => .ok []
  | _ + 1, [] => .error .source
  | n + 1, c :: data =>
    if c = '\\'.toUInt8 then
      match data with
      | [] => .error .source
      | d :: data =>
        if d = '"'.toUInt8 then (unescape (n - 1) data).map ('"'.toUInt8 :: ·)
        else if d = 't'.toUInt8 then (unescape (n - 1) data).map ('\t'.toUInt8 :: ·)
        else if d = 'n'.toUInt8 then (unescape (n - 1) data).map ('\n'.toUInt8 :: ·)
        else if d = 'r'.toUInt8 then (unescape (n - 1) data).map ('\r'.toUInt8 :: ·)
        else .error .abort
    else (unescape n data).map (c :: ·)
termination_by structural _ data => data

/-- `determine_radix` from `ptr` to `stop`: the radix and the length of the prefix. What is read
past the source is no digit and no `x`. -/
def determineRadix (source : Memory) (ptr stop : Nat) : Nat × Nat :=
  let isDec (p : Nat) := isNumberDec (source.getD p 0)
  if !isDec ptr then (10, 0)
  else if ptr + 1 = stop then (10, 0)
  else if isDec (ptr + 1) && ptr + 2 = stop then (10, 0)
  else
    let p := if isDec (ptr + 1) then ptr + 2 else ptr + 1
    if source.getD p 0 = 'x'.toUInt8 then
      let radix := (atoi (strndup source ptr (p - ptr))).toNat
      (if radix = 0 then 16 else radix, p - ptr + 1)
    else (10, 0)

/-- The text of a string literal. The buffer has a byte more than the literal, in the arithmetic of an
`unsigned`, and a zero is written behind the text. -/
def stringLiteral (source : Memory) (first last : Nat) : Except ReduceFault Name := do
  let length := unsigned (last - first - 2)
  let literal ← unescape length (source.drop (first + 1))
  if literal.length < unsigned (length + 1) then return literal else throw .buffer

/-- The loop of `extract_literal` over `n` bytes, of which `j` were stored before. -/
def storeDigits : Nat → List UInt8 → Nat → Except ReduceFault (List UInt8)
  | 0, _, _ => .ok []
  | _ + 1, [], _ => .error .source
  | n + 1, c :: str, j =>
    if c = '\''.toUInt8 then storeDigits n str j
    else if j + 1 < 2 ^ 31 then (storeDigits n str (j + 1)).map (c :: ·)
    else .error .overflow

/-- `extract_literal`: the `n` bytes of the buffer, which are zero behind the copied ones. -/
def extractLiteral (source : Memory) (ptr n : Nat) : Except ReduceFault (List UInt8) := do
  let text ← storeDigits n (source.drop ptr) 0
  return text ++ List.replicate (n - text.length) 0

def numberLiteral (source : Memory) (first last : Nat) : Except ReduceFault (List UInt8 × Nat) := do
  let (radix, skipped) := determineRadix source first last
  let literal ← extractLiteral source (first + skipped) (unsigned (last - (first + skipped)))
  return (literal, radix)

end Low
