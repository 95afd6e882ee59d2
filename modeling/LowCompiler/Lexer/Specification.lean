import LowCompiler.Lexer.Strip

/-!
# The lexical specification

`Tokens` is what the tokens of a text without comments should be: behind the blanks
the longest operator, or else the longest number, string or identifier, and a
semicolon for each newline behind a token of `terminators`. Nothing here refers to
the steps of the lexer.
-/

namespace Low

/-- The operators of `lexer_tokens.h`. The header spells `EQ_OP` with one equal sign. -/
def operators (equal : List Char) : TokenTable :=
  [(['+'], .ADD_OP), (['&', '&'], .AND_OP), (['&'], .BITWISE_AND), (['~'], .BITWISE_NOT),
    (['|'], .BITWISE_OR), (['^'], .BITWISE_XOR), (['-', '-'], .DEC_OP), (['/'], .DIV_OP),
    (equal, .EQ_OP), (['>', '='], .GE_OP), (['>'], .GT_OP), (['+', '+'], .INC_OP),
    (['<', '<'], .LEFT_OP), (['<', '='], .LE_OP), (['<'], .LT_OP), (['-', '>'], .MAPTO),
    (['%'], .MOD_OP), (['*'], .MUL_OP), (['!', '='], .NE_OP), (['!'], .NOT_OP), (['|', '|'], .OR_OP),
    (['>', '>'], .RIGHT_OP), (['-'], .SUB_OP),
    (['='], .ASSIGN), (['+', '='], .ADD_ASSIGN), (['&', '='], .AND_ASSIGN), ([':', '='], .DEF_ASSIGN),
    (['/', '='], .DIV_ASSIGN), (['<', '<', '='], .LEFT_ASSIGN), (['%', '='], .MOD_ASSIGN),
    (['*', '='], .MUL_ASSIGN), (['|', '='], .OR_ASSIGN), (['>', '>', '='], .RIGHT_ASSIGN),
    (['-', '='], .SUB_ASSIGN), (['^', '='], .XOR_ASSIGN),
    ([','], .COMMA), ([':'], .COLON), (['.', '.', '.'], .ELLIPSIS), (['#'], .HASH), (['{'], .LBRACE),
    (['['], .LBRACK), (['('], .LPAREN), (['.'], .PERIOD), (['?'], .QUESTION), (['}'], .RBRACE),
    ([']'], .RBRACK), ([')'], .RPAREN), ([';'], .SEMICOLON)]

/-- The names of the header are the spellings. -/
theorem spelled : ∀ entry ∈ operators ['='] ++ keywords, tokenNames entry.2 = some (String.ofList entry.1) := by
  decide

/-! ### Lexemes -/

/-- A lexeme of the kind at the front of the text, of which no longer one is there. -/
structure Longest (kind : List UInt8 → Prop) (text lexeme : List UInt8) : Prop where
  member : kind lexeme
  starts : lexeme <+: text
  longest : ∀ other, kind other → other <+: text → other.length ≤ lexeme.length

def IsOperator (equal : List Char) (lexeme : List UInt8) : Prop :=
  ∃ entry ∈ operators equal, lexeme = entry.1.map Char.toUInt8

/-- A byte that passes `first`, and bytes that pass `test`. -/
def IsWord (first test : UInt8 → Bool) : List UInt8 → Prop
  | [] => False
  | c :: rest => first c = true ∧ ∀ d ∈ rest, test d = true

/-- A string literal behind its opening quote. -/
inductive IsStringRest : List UInt8 → Prop where
  | quote : IsStringRest ['"'.toUInt8]
  | escape (d : UInt8) {rest : List UInt8} : IsStringRest rest → IsStringRest ('\\'.toUInt8 :: d :: rest)
  | other {c : UInt8} {rest : List UInt8} :
      c ≠ '"'.toUInt8 → c ≠ '\\'.toUInt8 → IsStringRest rest → IsStringRest (c :: rest)

def IsQuoted (lexeme : List UInt8) : Prop := ∃ rest, lexeme = '"'.toUInt8 :: rest ∧ IsStringRest rest

/-- The keyword that is spelled so, or an identifier. -/
def wordToken (lexeme : List UInt8) : Token :=
  match keywords.find? fun entry => entry.1.map Char.toUInt8 == lexeme with
  | some entry => entry.2
  | none => .IDENT

/-- The lexeme at the front of the text, and its token. -/
inductive Munch (equal : List Char) (text : List UInt8) : Token → List UInt8 → Prop where
  | operator {str : List Char} {token : Token} :
      Longest (IsOperator equal) text (str.map Char.toUInt8) → (str, token) ∈ operators equal →
      Munch equal text token (str.map Char.toUInt8)
  | number {lexeme : List UInt8} :
      (∀ entry ∈ operators equal, ¬ entry.1.map Char.toUInt8 <+: text) →
      Longest (IsWord isNumberStart isNumberRest) text lexeme → Munch equal text .NUMBER_LITERAL lexeme
  | quoted {lexeme : List UInt8} : Longest IsQuoted text lexeme → Munch equal text .STRING_LITERAL lexeme
  | ident {lexeme : List UInt8} :
      Longest (IsWord isIdentStart isIdent) text lexeme → Munch equal text (wordToken lexeme) lexeme

structure Lexed where
  token : Token
  base : Nat
  lexeme : List UInt8
  deriving DecidableEq, Repr

def Commented (text : List UInt8) : Prop := startsWith ['/', '/'] text ∨ startsWith ['/', '*'] text

/-- The tokens of a text that stands at `base`, behind the token `before`. A text with a comment, an
unterminated string or a byte that begins no lexeme has none. -/
inductive Tokens (equal : List Char) : Token → Nat → List UInt8 → List Lexed → Prop where
  | done (before : Token) (base : Nat) : Tokens equal before base [] []
  | blank {before : Token} {base : Nat} {c : UInt8} {rest : List UInt8} {lexed : List Lexed} :
      c ≤ 0x20 → ¬ (c = '\n'.toUInt8 ∧ before ∈ terminators) → Tokens equal before (base + 1) rest lexed →
      Tokens equal before base (c :: rest) lexed
  | newline {before : Token} {base : Nat} {rest : List UInt8} {lexed : List Lexed} :
      before ∈ terminators → Tokens equal .SEMICOLON (base + 1) rest lexed →
      Tokens equal before base ('\n'.toUInt8 :: rest) (⟨.SEMICOLON, base, ['\n'.toUInt8]⟩ :: lexed)
  | munch {before token : Token} {base : Nat} {lexeme rest : List UInt8} {lexed : List Lexed} :
      ¬ Commented (lexeme ++ rest) → Munch equal (lexeme ++ rest) token lexeme →
      Tokens equal token (base + lexeme.length) rest lexed →
      Tokens equal before base (lexeme ++ rest) (⟨token, base, lexeme⟩ :: lexed)

/-- Behind lexemes and blanks the text goes on with a comment, an unterminated string or a byte that
begins no lexeme. -/
inductive Stuck (equal : List Char) : Token → List UInt8 → Prop where
  | comment (before : Token) {text : List UInt8} : Commented text → Stuck equal before text
  | unterminated (before : Token) {rest : List UInt8} :
      (∀ body, IsStringRest body → ¬ body <+: rest) → Stuck equal before ('"'.toUInt8 :: rest)
  | garbage (before : Token) {c : UInt8} {rest : List UInt8} :
      0x20 < c → c ≠ '"'.toUInt8 → isNumberStart c = false → isIdentStart c = false →
      (∀ entry ∈ operators equal, ¬ entry.1.map Char.toUInt8 <+: c :: rest) → Stuck equal before (c :: rest)
  | blank {before : Token} {c : UInt8} {rest : List UInt8} :
      c ≤ 0x20 → ¬ (c = '\n'.toUInt8 ∧ before ∈ terminators) → Stuck equal before rest → Stuck equal before (c :: rest)
  | newline {before : Token} {rest : List UInt8} :
      before ∈ terminators → Stuck equal .SEMICOLON rest → Stuck equal before ('\n'.toUInt8 :: rest)
  | munch {before token : Token} {lexeme rest : List UInt8} :
      Munch equal (lexeme ++ rest) token lexeme → Stuck equal token rest → Stuck equal before (lexeme ++ rest)

/-- The byte behind the text belongs to no identifier. -/
def NotIdent (more : List UInt8) : Prop := ∃ d ∈ more.head?, isIdent d = false

/-- The text with a semicolon written before each newline that is a token. -/
def explicitSemicolons (lexed : List Lexed) (base : Nat) (text : List UInt8) : List UInt8 :=
  (text.zipIdx base).flatMap fun (c, place) =>
    if ⟨.SEMICOLON, place, ['\n'.toUInt8]⟩ ∈ lexed then [';'.toUInt8, c] else [c]

end Low
