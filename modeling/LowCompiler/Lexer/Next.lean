import LowCompiler.Lexer.Token
import Mathlib.Algebra.Group.Nat.Defs

/-!
# The lexer

`lexer.c`. An address counts the bytes from the start of the buffer, and the
memory is the bytes that can be read from there on: the buffer and whatever
follows it. A read behind the memory is a fault. A loop of the source takes a
bound on its turns; the bounds given here are never used up.
-/

namespace Low

abbrev Memory := List UInt8

inductive LexerFault where
  /-- A read of an address behind the memory. -/
  | read (ptr : Nat)
  | assertion
  | fuel
  deriving DecidableEq, Repr

/-- What `lexer_next` prints to the standard error output. -/
inductive LexerMessage where
  | garbage (c : UInt8)
  | endInEscape
  | endInString
  deriving DecidableEq, Repr

/-- `lexer_t`, with the messages printed so far. The name of the file is not used. -/
structure Lexer where
  base : Nat
  ptr : Nat
  stop : Nat
  token : Token
  line : Nat
  col : Nat
  lineBase : Nat
  messages : List LexerMessage
  deriving DecidableEq, Repr

/-- The value of a conversion to `unsigned`. -/
def unsigned (n : Nat) : Nat := n % 2 ^ 32

def deref (mem : Memory) (ptr : Nat) : Except LexerFault UInt8 :=
  match mem[ptr]? with
  | some c => .ok c
  | none => .error (.read ptr)

/-! ### Characters -/

/-- The comparison is of signed characters, so every byte from 0x80 on counts. -/
def isWhitespace (c : UInt8) : Bool := c ≤ 0x20 || 0x80 ≤ c

def inRange (c : UInt8) (first last : Char) : Bool := first.toUInt8 ≤ c && c ≤ last.toUInt8

def isIdentStart (c : UInt8) : Bool := inRange c 'a' 'z' || inRange c 'A' 'Z' || c == '_'.toUInt8

def isIdent (c : UInt8) : Bool := isIdentStart c || inRange c '0' '9'

def isNumberDec (c : UInt8) : Bool := inRange c '0' '9'

def isNumberStart (c : UInt8) : Bool := isNumberDec c || c == '.'.toUInt8

def isNumber (c : UInt8) : Bool := isNumberStart c || inRange c 'a' 'z' || inRange c 'A' 'Z'

def isNumberRest (c : UInt8) : Bool := isNumber c || c == '\''.toUInt8

/-! ### Tables -/

def terminators : List Token :=
  [.BREAK, .CONTINUE, .DEC_OP, .IDENT, .INC_OP, .NUMBER_LITERAL, .RBRACE, .RETURN, .RPAREN,
    .STRING_LITERAL, .VOID, .RBRACK]

abbrev TokenTable := List (List Char × Token)

/-- The `CHECK_TOKEN` lines of three characters. -/
def tokens3 : TokenTable :=
  [(['.', '.', '.'], .ELLIPSIS), (['>', '>', '='], .RIGHT_ASSIGN), (['<', '<', '='], .LEFT_ASSIGN)]

def tokens2 : TokenTable :=
  [([':', '='], .DEF_ASSIGN), (['+', '='], .ADD_ASSIGN), (['-', '='], .SUB_ASSIGN),
    (['*', '='], .MUL_ASSIGN), (['/', '='], .DIV_ASSIGN), (['%', '='], .MOD_ASSIGN),
    (['&', '='], .AND_ASSIGN), (['^', '='], .XOR_ASSIGN), (['|', '='], .OR_ASSIGN),
    (['>', '>'], .RIGHT_OP), (['<', '<'], .LEFT_OP), (['+', '+'], .INC_OP), (['-', '-'], .DEC_OP),
    (['&', '&'], .AND_OP), (['|', '|'], .OR_OP), (['<', '='], .LE_OP), (['>', '='], .GE_OP),
    (['=', '='], .EQ_OP), (['!', '='], .NE_OP), (['-', '>'], .MAPTO)]

def tokens1 : TokenTable :=
  [([';'], .SEMICOLON), (['{'], .LBRACE), (['}'], .RBRACE), ([','], .COMMA), ([':'], .COLON),
    (['='], .ASSIGN), (['('], .LPAREN), ([')'], .RPAREN), (['['], .LBRACK), ([']'], .RBRACK),
    (['.'], .PERIOD), (['&'], .BITWISE_AND), (['!'], .NOT_OP), (['~'], .BITWISE_NOT), (['-'], .SUB_OP),
    (['+'], .ADD_OP), (['*'], .MUL_OP), (['/'], .DIV_OP), (['%'], .MOD_OP), (['<'], .LT_OP),
    (['>'], .GT_OP), (['^'], .BITWISE_XOR), (['|'], .BITWISE_OR), (['?'], .QUESTION), (['#'], .HASH)]

def keywords : TokenTable :=
  [(['a', 'l', 'i', 'g', 'n', 'a', 's'], .ALIGNAS), (['a', 't', 'o', 'm', 'i', 'c'], .ATOMIC),
    (['b', 'r', 'e', 'a', 'k'], .BREAK), (['c', 'a', 'p'], .CAP), (['c', 'a', 's', 'e'], .CASE),
    (['c', 'o', 'n', 's', 't'], .CONST), (['c', 'o', 'n', 't', 'i', 'n', 'u', 'e'], .CONTINUE),
    (['d', 'e', 'f', 'a', 'u', 'l', 't'], .DEFAULT), (['d', 'i', 's', 'p', 'o', 's', 'e'], .DISPOSE),
    (['d', 'o'], .DO), (['e', 'l', 's', 'e'], .ELSE), (['e', 'n', 'u', 'm'], .ENUM),
    (['e', 'x', 't', 'e', 'r', 'n'], .EXTERN), (['f', 'o', 'r'], .FOR), (['f', 'r', 'e', 'e'], .FREE),
    (['f', 'u', 'n', 'c'], .FUNC), (['g', 'o', 't', 'o'], .GOTO), (['i', 'f'], .IF),
    (['i', 'm', 'p', 'o', 'r', 't'], .IMPORT), (['i', 'n', 'l', 'i', 'n', 'e'], .INLINE),
    (['i', 'n', 't', 'e', 'r', 'f', 'a', 'c', 'e'], .INTERFACE), (['l', 'e', 'n'], .LEN),
    (['m', 'a', 'k', 'e'], .MAKE), (['n', 'e', 'w'], .NEW),
    (['p', 'a', 'c', 'k', 'a', 'g', 'e'], .PACKAGE), (['r', 'e', 't', 'u', 'r', 'n'], .RETURN),
    (['s', 'i', 'z', 'e', 'o', 'f'], .SIZEOF), (['s', 't', 'a', 't', 'i', 'c'], .STATIC),
    (['s', 't', 'r', 'u', 'c', 't'], .STRUCT), (['s', 'w', 'i', 't', 'c', 'h'], .SWITCH),
    (['t', 'y', 'p', 'e'], .TYPE), (['t', 'y', 'p', 'e', 'd', 'e', 'f'], .TYPEDEF),
    (['u', 'n', 'i', 'o', 'n'], .UNION), (['v', 'a', 'r'], .VAR), (['v', 'o', 'i', 'd'], .VOID),
    (['v', 'o', 'l', 'a', 't', 'i', 'l', 'e'], .VOLATILE), (['w', 'h', 'i', 'l', 'e'], .WHILE),
    (['y', 'i', 'e', 'l', 'd'], .YIELD)]

/-! ### Steps and loops -/

def lexerInit (len : Nat) : Lexer := ⟨0, 0, len, .SOF, 0, 0, 0, []⟩

def lexerStep (mem : Memory) (self : Lexer) : Except LexerFault Lexer :=
  if self.ptr = self.stop then .ok { self with ptr := self.ptr + 1 }
  else do
    let c ← deref mem self.ptr
    if c = '\n'.toUInt8 then
      .ok { self with
        line := unsigned (self.line + 1), col := 0, lineBase := self.ptr + 1, ptr := self.ptr + 1 }
    else .ok { self with ptr := self.ptr + 1 }

def lexerSteps (mem : Memory) : Nat → Lexer → Except LexerFault Lexer
  | 0, self => .ok self
  | steps + 1, self => do
    let self ← lexerStep mem self
    lexerSteps mem steps self

def consumeOnelineComment (mem : Memory) : Nat → Lexer → Except LexerFault Lexer
  | 0, _ => .error .fuel
  | fuel + 1, self =>
    if self.ptr = self.stop then .ok self
    else do
      let c ← deref mem self.ptr
      let self ← lexerStep mem self
      if c = '\n'.toUInt8 then .ok self else consumeOnelineComment mem fuel self

def consumeMultilineComment (mem : Memory) : Nat → Lexer → Except LexerFault Lexer
  | 0, _ => .error .fuel
  | fuel + 1, self =>
    if self.ptr = self.stop then .ok self
    else do
      let c ← deref mem self.ptr
      let self ← lexerStep mem self
      if c = '*'.toUInt8 ∧ self.ptr ≠ self.stop then
        let d ← deref mem self.ptr
        if d = '/'.toUInt8 then lexerStep mem self else consumeMultilineComment mem fuel self
      else consumeMultilineComment mem fuel self

def consumeString (mem : Memory) : Nat → Lexer → Except LexerFault Lexer
  | 0, _ => .error .fuel
  | fuel + 1, self =>
    if self.ptr = self.stop then
      .ok { self with token := .INVALID, messages := self.messages ++ [.endInString] }
    else do
      let c ← deref mem self.ptr
      let self ← lexerStep mem self
      if c = '"'.toUInt8 then .ok self
      else if c = '\\'.toUInt8 then
        if self.ptr = self.stop then
          .ok { self with token := .INVALID, messages := self.messages ++ [.endInEscape] }
        else do
          let self ← lexerStep mem self
          consumeString mem fuel self
      else consumeString mem fuel self

/-- The loops of numbers and identifiers. They test the byte and not the end of the buffer. -/
def consumeWhile (mem : Memory) (test : UInt8 → Bool) : Nat → Lexer → Except LexerFault Lexer
  | 0, _ => .error .fuel
  | fuel + 1, self => do
    let c ← deref mem self.ptr
    if test c then
      let self ← lexerStep mem self
      consumeWhile mem test fuel self
    else .ok self

/-- The comparison of `match_keyword` with the bytes between `base` and `ptr`. -/
def matchKeyword : List Char → List UInt8 → Bool
  | [], lexeme => lexeme.isEmpty
  | _ :: _, [] => false
  | k :: kw, c :: lexeme => k.toUInt8 == c && matchKeyword kw lexeme

/-- The `CHECK_KEYWORD` lines: every keyword is compared, and the last match counts. -/
def checkKeywords (lexeme : List UInt8) : Token :=
  keywords.foldl (fun token (kw, tkn) => if matchKeyword kw lexeme then tkn else token) .IDENT

/-- `strncmp(str, ptr, n) == 0` for a `str` of `n` characters. -/
def strncmpEq (mem : Memory) : List Char → Nat → Except LexerFault Bool
  | [], _ => .ok true
  | k :: str, ptr => do
    let c ← deref mem ptr
    if k.toUInt8 = c then strncmpEq mem str (ptr + 1) else .ok false

/-- The token of the first line of the table that matches. -/
def checkTokens (mem : Memory) (ptr : Nat) : TokenTable → Except LexerFault (Option (Nat × Token))
  | [] => .ok none
  | (str, tkn) :: table => do
    if ← strncmpEq mem str ptr then .ok (some (str.length, tkn)) else checkTokens mem ptr table

/-! ### One call -/

/-- How a turn of the loop of `lexer_next` ends: with `continue` or with `return`. -/
inductive LexerTurn where
  | again (self : Lexer)
  | done (self : Lexer)

/-- `base` and the column are set where a lexeme may begin. -/
def Lexer.start (self : Lexer) : Lexer :=
  { self with base := self.ptr, col := unsigned (self.ptr - self.lineBase) }

def lexerOperator (mem : Memory) (self : Lexer) (table : TokenTable) :
    Except LexerFault (Option LexerTurn) := do
  match ← checkTokens mem self.ptr table with
  | none => .ok none
  | some (length, tkn) =>
    let self ← lexerSteps mem length self
    .ok (some (.done { self with token := tkn }))

def lexerComment (mem : Memory) (self : Lexer) : Except LexerFault (Option LexerTurn) := do
  if ← strncmpEq mem ['/', '/'] self.ptr then
    let self ← consumeOnelineComment mem (self.stop - self.ptr) { self with ptr := self.ptr + 2 }
    .ok (some (.again self))
  else if ← strncmpEq mem ['/', '*'] self.ptr then
    let self ← consumeMultilineComment mem (self.stop - self.ptr) { self with ptr := self.ptr + 2 }
    .ok (some (.again self))
  else .ok none

def orElseTurn (first second : Except LexerFault (Option LexerTurn)) :
    Except LexerFault (Option LexerTurn) := do
  match ← first with
  | some turn => .ok (some turn)
  | none => second

/-- The operators and the comments. The number of remaining bytes is kept in an `unsigned`. -/
def lexerSymbol (mem : Memory) (self : Lexer) : Except LexerFault (Option LexerTurn) :=
  let rem := unsigned (self.stop - self.ptr)
  orElseTurn (if 3 ≤ rem then lexerOperator mem self tokens3 else .ok none)
    (orElseTurn (if 2 ≤ rem then orElseTurn (lexerComment mem self) (lexerOperator mem self tokens2)
        else .ok none)
      (if 1 ≤ rem then lexerOperator mem self tokens1 else .ok none))

/-- String literals, numbers, identifiers and keywords, and garbage. The keyword lines run whenever
the token is an identifier, also when it is one left by the call before. -/
def lexerLexeme (mem : Memory) (self : Lexer) (c : UInt8) : Except LexerFault LexerTurn := do
  if c = '"'.toUInt8 then
    let self ← lexerStep mem { self with token := .STRING_LITERAL }
    let self ← consumeString mem (self.stop - self.ptr + 1) self
    .ok (.done self)
  else if isNumberStart c then
    let self ← lexerStep mem self
    let self ← consumeWhile mem isNumberRest (mem.length - self.ptr + 1) self
    .ok (.done { self with token := .NUMBER_LITERAL })
  else
    let self ← if isIdentStart c then (do
        let self ← lexerStep mem self
        let self ← consumeWhile mem isIdent (mem.length - self.ptr + 1) self
        .ok { self with token := .IDENT })
      else .ok self
    if self.token = .IDENT then
      .ok (.done { self with token := checkKeywords ((mem.drop self.base).take (self.ptr - self.base)) })
    else
      let self ← lexerStep mem { self with messages := self.messages ++ [.garbage c] }
      .ok (.again self)

def lexerTurn (mem : Memory) (self : Lexer) : Except LexerFault LexerTurn := do
  let c ← deref mem self.ptr
  if isWhitespace c then
    if c = '\n'.toUInt8 ∧ self.token ∈ terminators then
      let self ← lexerStep mem { self.start with token := .SEMICOLON }
      .ok (.done self)
    else
      let self ← lexerStep mem self
      .ok (.again self)
  else
    match ← lexerSymbol mem self.start with
    | some turn => .ok turn
    | none => lexerLexeme mem self.start c

def lexerLoop (mem : Memory) : Nat → Lexer → Except LexerFault Lexer
  | 0, _ => .error .fuel
  | fuel + 1, self =>
    if self.ptr = self.stop then .ok { self with token := .EOF }
    else do
      match ← lexerTurn mem self with
      | .done self => .ok self
      | .again self => lexerLoop mem fuel self

def lexerNext (mem : Memory) (self : Lexer) : Except LexerFault Lexer :=
  if self.stop < self.ptr then .error .assertion
  else if self.token = .INVALID ∨ self.token = .EOF then .ok self
  else lexerLoop mem (self.stop - self.ptr + 1) self

/-- The lexer after a number of calls on a buffer of `len` bytes. -/
def lexerCalls (mem : Memory) (len : Nat) : Nat → Except LexerFault Lexer
  | 0 => .ok (lexerInit len)
  | calls + 1 => do
    let self ← lexerCalls mem len calls
    lexerNext mem self

end Low
