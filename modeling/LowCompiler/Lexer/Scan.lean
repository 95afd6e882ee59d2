import LowCompiler.Lexer.Next

/-!
# The lexer on the remaining text

What a turn of the loop does depends on the token of the call before and on the
bytes up to the end of the buffer. `piece` says what it finds there, and
`lexerTurn_eq` that the turn does this. `scan` is a whole call.
-/

namespace Low

/-- A test that all 256 bytes pass. -/
theorem forall_byte {p : UInt8 → Bool} (all : (List.range 256).all (fun n => p (UInt8.ofNat n)) = true)
    (c : UInt8) : p c = true := by
  have passes := List.all_eq_true.mp all c.toNat (List.mem_range.mpr c.toNat_lt)
  rwa [UInt8.ofNat_toNat] at passes

/-! ### What stands at the front of a text -/

def startsWith (str : List Char) (text : List UInt8) : Bool := (str.map Char.toUInt8).isPrefixOf text

def findToken (table : TokenTable) (text : List UInt8) : Option (Nat × Token) :=
  (table.find? fun entry => startsWith entry.1 text).map fun entry => (entry.1.length, entry.2)

inductive Piece where
  | blank
  /-- A comment, of `n` bytes behind its first one. -/
  | comment (n : Nat)
  | garbage (c : UInt8)
  | token (token : Token) (length : Nat)
  | unterminated (message : LexerMessage) (length : Nat)

/-- The bytes up to and with the next newline. -/
def lineLength : List UInt8 → Nat
  | [] => 0
  | c :: rest => if c = '\n'.toUInt8 then 1 else lineLength rest + 1

/-- The bytes up to and with the next end of a block comment. -/
def blockLength : List UInt8 → Nat
  | [] => 0
  | c :: rest => if c = '*'.toUInt8 ∧ rest.head? = some '/'.toUInt8 then 2 else blockLength rest + 1

/-- The bytes up to and with the closing quote, or the message where it is missing. -/
def stringLength : List UInt8 → Option LexerMessage × Nat
  | [] => (some .endInString, 0)
  | c :: rest =>
    if c = '"'.toUInt8 then (none, 1)
    else if c = '\\'.toUInt8 then
      match rest with
      | [] => (some .endInEscape, 1)
      | _ :: rest => ((stringLength rest).1, (stringLength rest).2 + 2)
    else ((stringLength rest).1, (stringLength rest).2 + 1)

def operatorPiece (table : TokenTable) (text : List UInt8) : Option Piece :=
  (findToken table text).map fun (length, tkn) => .token tkn length

def commentPiece (text : List UInt8) : Option Piece :=
  if startsWith ['/', '/'] text then some (.comment (lineLength (text.drop 2) + 1))
  else if startsWith ['/', '*'] text then some (.comment (blockLength (text.drop 2) + 1))
  else none

def symbolPiece (text : List UInt8) : Option Piece :=
  let rem := unsigned text.length
  (if 3 ≤ rem then operatorPiece tokens3 text else none).or
    ((if 2 ≤ rem then (commentPiece text).or (operatorPiece tokens2 text) else none).or
      (if 1 ≤ rem then operatorPiece tokens1 text else none))

/-- The test of the loop behind the first byte of a number or an identifier. -/
def restTest (c : UInt8) : Option (UInt8 → Bool) :=
  if isNumberStart c then some isNumberRest else if isIdentStart c then some isIdent else none

def lexemePiece (token : Token) (c : UInt8) (rest : List UInt8) : Piece :=
  if c = '"'.toUInt8 then
    match stringLength rest with
    | (none, n) => .token .STRING_LITERAL (n + 1)
    | (some message, n) => .unterminated message (n + 1)
  else if isNumberStart c then .token .NUMBER_LITERAL ((rest.takeWhile isNumberRest).length + 1)
  else if isIdentStart c then
    .token (checkKeywords (c :: rest.takeWhile isIdent)) ((rest.takeWhile isIdent).length + 1)
  else if token = .IDENT then .token (checkKeywords []) 0
  else .garbage c

def piece (token : Token) (c : UInt8) (rest : List UInt8) : Piece :=
  if isWhitespace c then
    if c = '\n'.toUInt8 ∧ token ∈ terminators then .token .SEMICOLON 1 else .blank
  else (symbolPiece (c :: rest)).getD (lexemePiece token c rest)

/-- The bytes skipped behind the first one, where the call goes on. -/
def Piece.skipped : Piece → Option Nat
  | .blank | .garbage _ => some 0
  | .comment n => some n
  | .token _ _ | .unterminated _ _ => none

structure Scanned where
  token : Token
  /-- The text from `base` on. -/
  lexeme : List UInt8
  /-- The text from `ptr` on. -/
  rest : List UInt8

/-- A call of `lexer_next` on the text that remains. -/
def scan (token : Token) : List UInt8 → Scanned
  | [] => ⟨.EOF, [], []⟩
  | c :: rest =>
    match piece token c rest with
    | .blank | .garbage _ => scan token rest
    | .comment n => scan token (rest.drop n)
    | .token t n => ⟨t, c :: rest, (c :: rest).drop n⟩
    | .unterminated _ n => ⟨.INVALID, c :: rest, (c :: rest).drop n⟩
termination_by text => text.length

/-- The call skips blanks, comments and garbage from one text to another. -/
inductive Skips (token : Token) : List UInt8 → List UInt8 → Prop where
  | refl (text : List UInt8) : Skips token text text
  | skip {c : UInt8} {n : Nat} {rest text : List UInt8} :
      (piece token c rest).skipped = some n → Skips token (rest.drop n) text → Skips token (c :: rest) text

/-- A number or an identifier that goes on up to the end of the text. -/
def RunsToEnd (c : UInt8) (rest : List UInt8) : Prop :=
  symbolPiece (c :: rest) = none ∧ ∃ test ∈ restTest c, ∀ d ∈ rest, test d

/-- The byte behind the buffer ends a number and an identifier. -/
def Delimited (more : List UInt8) : Prop :=
  ∃ d ∈ more.head?, isNumberRest d = false ∧ isIdent d = false

theorem Skips.trans {token : Token} {text text' text'' : List UInt8} (first : Skips token text text')
    (second : Skips token text' text'') : Skips token text text'' := by
  induction first with
  | refl => exact second
  | skip skipped _ ih => exact .skip skipped (ih second)

theorem scan_skip {token : Token} {c : UInt8} {n : Nat} {rest : List UInt8}
    (skipped : (piece token c rest).skipped = some n) : scan token (c :: rest) = scan token (rest.drop n) := by
  rw [scan]
  cases h : piece token c rest <;> rw [h] at skipped <;> cases skipped <;> rfl

theorem Skips.scan {token : Token} {text text' : List UInt8} (skips : Skips token text text') :
    scan token text = scan token text' := by
  induction skips with
  | refl => rfl
  | skip skipped _ ih => rw [scan_skip skipped, ih]

/-! ### Steps -/

def Lexer.stepped (mem : Memory) (self : Lexer) : Lexer :=
  if self.ptr ≠ self.stop ∧ mem[self.ptr]? = some '\n'.toUInt8 then
    { self with line := unsigned (self.line + 1), col := 0, lineBase := self.ptr + 1, ptr := self.ptr + 1 }
  else { self with ptr := self.ptr + 1 }

def Lexer.advance (mem : Memory) : Nat → Lexer → Lexer
  | 0, self => self
  | n + 1, self => (self.stepped mem).advance mem n

/-- From `ptr` to the end of the buffer stands `text`, and behind the buffer `more`. -/
structure Lexer.Sees (mem : Memory) (lexer : Lexer) (text more : List UInt8) : Prop where
  bytes : mem.drop lexer.ptr = text ++ more
  stop : lexer.stop = lexer.ptr + text.length

variable {mem : Memory} {self : Lexer} {c : UInt8} {rest text more : List UInt8}

@[simp] theorem Lexer.stepped_ptr : (self.stepped mem).ptr = self.ptr + 1 := by
  unfold Lexer.stepped
  split <;> rfl

@[simp] theorem Lexer.stepped_stop : (self.stepped mem).stop = self.stop := by
  unfold Lexer.stepped
  split <;> rfl

@[simp] theorem Lexer.stepped_base : (self.stepped mem).base = self.base := by
  unfold Lexer.stepped
  split <;> rfl

@[simp] theorem Lexer.stepped_token : (self.stepped mem).token = self.token := by
  unfold Lexer.stepped
  split <;> rfl

theorem Lexer.stepped_with (token : Token) (messages : List LexerMessage) :
    Lexer.stepped mem { self with token := token, messages := messages } =
      { self.stepped mem with token := token, messages := messages } := by
  unfold Lexer.stepped
  dsimp only
  split <;> rfl

@[simp] theorem Lexer.stepped_messages : (self.stepped mem).messages = self.messages := by
  unfold Lexer.stepped
  split <;> rfl

@[simp] theorem Lexer.advance_ptr (n : Nat) : (self.advance mem n).ptr = self.ptr + n := by
  induction n generalizing self with
  | zero => rfl
  | succ n ih => rw [Lexer.advance, ih, stepped_ptr]; omega

@[simp] theorem Lexer.advance_stop (n : Nat) : (self.advance mem n).stop = self.stop := by
  induction n generalizing self with
  | zero => rfl
  | succ n ih => rw [Lexer.advance, ih, stepped_stop]

@[simp] theorem Lexer.advance_base (n : Nat) : (self.advance mem n).base = self.base := by
  induction n generalizing self with
  | zero => rfl
  | succ n ih => rw [Lexer.advance, ih, stepped_base]

@[simp] theorem Lexer.advance_token (n : Nat) : (self.advance mem n).token = self.token := by
  induction n generalizing self with
  | zero => rfl
  | succ n ih => rw [Lexer.advance, ih, stepped_token]

@[simp] theorem Lexer.advance_messages (n : Nat) : (self.advance mem n).messages = self.messages := by
  induction n generalizing self with
  | zero => rfl
  | succ n ih => rw [Lexer.advance, ih, stepped_messages]

/-- Steps read and write neither the token nor the messages. -/
theorem Lexer.advance_with (n : Nat) (token : Token) (messages : List LexerMessage) :
    Lexer.advance mem n { self with token := token, messages := messages } =
      { self.advance mem n with token := token, messages := messages } := by
  induction n generalizing self with
  | zero => rfl
  | succ n ih => rw [Lexer.advance, stepped_with, ih, Lexer.advance]

theorem Lexer.advance_add (m n : Nat) : self.advance mem (m + n) = (self.advance mem m).advance mem n := by
  induction m generalizing self with
  | zero => rw [Nat.zero_add]; rfl
  | succ m ih => rw [Nat.succ_add, Lexer.advance, ih, Lexer.advance]

namespace Lexer.Sees

theorem drop (sees : self.Sees mem text more) {n : Nat} (bound : n ≤ text.length) {s : Lexer}
    (ptr : s.ptr = self.ptr + n) (stop : s.stop = self.stop) : s.Sees mem (text.drop n) more := by
  constructor
  · rw [ptr, ← List.drop_drop, sees.bytes, List.drop_append_of_le_length bound]
  · rw [stop, sees.stop, ptr, List.length_drop]
    omega

theorem advance (sees : self.Sees mem text more) {n : Nat} (bound : n ≤ text.length) :
    (self.advance mem n).Sees mem (text.drop n) more :=
  sees.drop bound (advance_ptr n) (advance_stop n)

theorem stepped (sees : self.Sees mem (c :: rest) more) : (self.stepped mem).Sees mem rest more :=
  sees.drop (Nat.le_add_left 1 rest.length) stepped_ptr stepped_stop

theorem getElem (sees : self.Sees mem (c :: rest) more) : mem[self.ptr]? = some c := by
  have head : (mem.drop self.ptr)[0]? = some c := by rw [sees.bytes]; rfl
  rwa [List.getElem?_drop] at head

theorem deref (sees : self.Sees mem (c :: rest) more) : deref mem self.ptr = .ok c := by
  unfold Low.deref
  rw [sees.getElem]

theorem ne_stop (sees : self.Sees mem (c :: rest) more) : self.ptr ≠ self.stop := by
  have stop := sees.stop
  rw [List.length_cons] at stop
  omega

theorem eq_stop (sees : self.Sees mem [] more) : self.ptr = self.stop := sees.stop.symm

theorem step (sees : self.Sees mem (c :: rest) more) : lexerStep mem self = .ok (self.stepped mem) := by
  unfold lexerStep
  rw [if_neg sees.ne_stop, sees.deref]
  show (if c = _ then _ else _) = _
  unfold Lexer.stepped
  rw [sees.getElem]
  by_cases newline : c = '\n'.toUInt8
  · rw [if_pos newline, if_pos ⟨sees.ne_stop, congrArg some newline⟩]
  · rw [if_neg newline, if_neg fun both => newline (Option.some.inj both.2)]

theorem steps {n : Nat} (sees : self.Sees mem text more) (bound : n ≤ text.length) :
    lexerSteps mem n self = .ok (self.advance mem n) := by
  induction n generalizing self text with
  | zero => rfl
  | succ n ih =>
    cases text with
    | nil => exact absurd bound (Nat.not_succ_le_zero n)
    | cons c rest =>
      unfold lexerSteps
      rw [sees.step]
      exact ih sees.stepped (Nat.le_of_succ_le_succ bound)

end Lexer.Sees

end Low
