/-!
# Tokens

The enumeration of `lexer.h`, in its order, with the table of `lexer_tokens.h`.
-/

namespace Low

inductive Token where
  | INVALID | SOF | EOF
  -- literals
  | IDENT | NUMBER_LITERAL | STRING_LITERAL
  -- operators
  | ADD_OP | AND_OP | BITWISE_AND | BITWISE_NOT | BITWISE_OR | BITWISE_XOR | DEC_OP | DIV_OP
  | EQ_OP | GE_OP | GT_OP | INC_OP | LEFT_OP | LE_OP | LT_OP | MAPTO | MOD_OP | MUL_OP | NE_OP
  | NOT_OP | OR_OP | RIGHT_OP | SUB_OP
  -- assignment operators
  | ASSIGN | ADD_ASSIGN | AND_ASSIGN | DEF_ASSIGN | DIV_ASSIGN | LEFT_ASSIGN | MOD_ASSIGN
  | MUL_ASSIGN | OR_ASSIGN | RIGHT_ASSIGN | SUB_ASSIGN | XOR_ASSIGN
  -- symbols
  | COMMA | COLON | ELLIPSIS | HASH | LBRACE | LBRACK | LPAREN | PERIOD | QUESTION | RBRACE
  | RBRACK | RPAREN | SEMICOLON
  -- keywords
  | ALIGNAS | ATOMIC | BREAK | CASE | CONST | CONTINUE | DEFAULT | DO | ELSE | ENUM | EXTERN | FOR
  | FUNC | GOTO | IF | IMPORT | INLINE | INTERFACE | NEW | FREE | MAKE | LEN | CAP | PACKAGE
  | DISPOSE | RETURN | SIZEOF | STATIC | STRUCT | SWITCH | TYPE | TYPEDEF | UNION | VAR | VOID
  | VOLATILE | WHILE | YIELD
  deriving DecidableEq, Repr

def MAX_TOKENS : Nat := 92

/-- `token_names`: the three special tokens have no entry. -/
def tokenNames : Token → Option String
  | .INVALID | .SOF | .EOF => none
  | .IDENT => some "identifier"
  | .NUMBER_LITERAL => some "number literal"
  | .STRING_LITERAL => some "string literal"
  | .ADD_OP => some "+"
  | .AND_OP => some "&&"
  | .BITWISE_AND => some "&"
  | .BITWISE_NOT => some "~"
  | .BITWISE_OR => some "|"
  | .BITWISE_XOR => some "^"
  | .DEC_OP => some "--"
  | .DIV_OP => some "/"
  | .EQ_OP => some "="
  | .GE_OP => some ">="
  | .GT_OP => some ">"
  | .INC_OP => some "++"
  | .LEFT_OP => some "<<"
  | .LE_OP => some "<="
  | .LT_OP => some "<"
  | .MAPTO => some "->"
  | .MOD_OP => some "%"
  | .MUL_OP => some "*"
  | .NE_OP => some "!="
  | .NOT_OP => some "!"
  | .OR_OP => some "||"
  | .RIGHT_OP => some ">>"
  | .SUB_OP => some "-"
  | .ASSIGN => some "="
  | .ADD_ASSIGN => some "+="
  | .AND_ASSIGN => some "&="
  | .DEF_ASSIGN => some ":="
  | .DIV_ASSIGN => some "/="
  | .LEFT_ASSIGN => some "<<="
  | .MOD_ASSIGN => some "%="
  | .MUL_ASSIGN => some "*="
  | .OR_ASSIGN => some "|="
  | .RIGHT_ASSIGN => some ">>="
  | .SUB_ASSIGN => some "-="
  | .XOR_ASSIGN => some "^="
  | .COMMA => some ","
  | .COLON => some ":"
  | .ELLIPSIS => some "..."
  | .HASH => some "#"
  | .LBRACE => some "\x7b"
  | .LBRACK => some "["
  | .LPAREN => some "("
  | .PERIOD => some "."
  | .QUESTION => some "?"
  | .RBRACE => some "\x7d"
  | .RBRACK => some "]"
  | .RPAREN => some ")"
  | .SEMICOLON => some ";"
  | .ALIGNAS => some "alignas"
  | .ATOMIC => some "atomic"
  | .BREAK => some "break"
  | .CASE => some "case"
  | .CONST => some "const"
  | .CONTINUE => some "continue"
  | .DEFAULT => some "default"
  | .DO => some "do"
  | .ELSE => some "else"
  | .ENUM => some "enum"
  | .EXTERN => some "extern"
  | .FOR => some "for"
  | .FUNC => some "func"
  | .GOTO => some "goto"
  | .IF => some "if"
  | .IMPORT => some "import"
  | .INLINE => some "inline"
  | .INTERFACE => some "interface"
  | .NEW => some "new"
  | .FREE => some "free"
  | .MAKE => some "make"
  | .LEN => some "len"
  | .CAP => some "cap"
  | .PACKAGE => some "package"
  | .DISPOSE => some "dispose"
  | .RETURN => some "return"
  | .SIZEOF => some "sizeof"
  | .STATIC => some "static"
  | .STRUCT => some "struct"
  | .SWITCH => some "switch"
  | .TYPE => some "type"
  | .TYPEDEF => some "typedef"
  | .UNION => some "union"
  | .VAR => some "var"
  | .VOID => some "void"
  | .VOLATILE => some "volatile"
  | .WHILE => some "while"
  | .YIELD => some "yield"

namespace Token

/-- The value of the enumerator. -/
def toNat (t : Token) : Nat := t.ctorIdx

theorem toNat_lt (t : Token) : t.toNat < MAX_TOKENS := by
  cases t <;> decide

@[simp] theorem ofNat_toNat (t : Token) : Token.ofNat t.toNat = t := Token.ofNat_ctorIdx t

theorem toNat_ofNat {n : Nat} : n < MAX_TOKENS → (Token.ofNat n).toNat = n := by
  have all : ∀ n < MAX_TOKENS, (Token.ofNat n).toNat = n := by decide
  exact all n

theorem toNat_injective {s t : Token} (h : s.toNat = t.toNat) : s = t := by
  rw [← ofNat_toNat s, h, ofNat_toNat]

end Token

end Low
