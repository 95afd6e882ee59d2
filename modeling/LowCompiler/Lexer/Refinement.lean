import LowCompiler.Lexer.Scan

/-!
# A turn does what `piece` says

The loops of `lexer_next` against the lengths of the texts they run over, then a
turn, then a call.
-/

namespace Low

variable {mem : Memory} {self : Lexer} {c : UInt8} {rest text more : List UInt8}

theorem lineLength_le (text : List UInt8) : lineLength text ≤ text.length := by
  induction text with
  | nil => exact Nat.le_refl 0
  | cons c rest ih =>
    unfold lineLength
    split <;> rw [List.length_cons] <;> omega

theorem blockLength_le (text : List UInt8) : blockLength text ≤ text.length := by
  induction text with
  | nil => exact Nat.le_refl 0
  | cons c rest ih =>
    unfold blockLength
    split
    · rename_i closed
      cases rest with
      | nil => cases closed.2
      | cons d rest => exact Nat.le_add_left 2 rest.length
    · exact Nat.succ_le_succ ih

theorem stringLength_le (text : List UInt8) : (stringLength text).2 ≤ text.length := by
  fun_induction stringLength text <;> simp only [List.length_cons, List.length_nil] at * <;> omega

/-! ### The loops -/

theorem consumeOnelineComment_eq {fuel : Nat} (sees : self.Sees mem text more) (enough : text.length < fuel) :
    consumeOnelineComment mem fuel self = .ok (self.advance mem (lineLength text)) := by
  induction fuel generalizing self text with
  | zero => exact absurd enough (Nat.not_lt_zero _)
  | succ fuel ih =>
    unfold consumeOnelineComment
    cases text with
    | nil => exact if_pos sees.eq_stop
    | cons c rest =>
      rw [if_neg sees.ne_stop, sees.deref, sees.step]
      show (if c = _ then _ else _) = _
      unfold lineLength
      by_cases newline : c = '\n'.toUInt8
      · rw [if_pos newline, if_pos newline]
        rfl
      · rw [if_neg newline, if_neg newline]
        exact ih sees.stepped (Nat.lt_of_succ_lt_succ enough)

theorem consumeMultilineComment_eq {fuel : Nat} (sees : self.Sees mem text more) (enough : text.length < fuel) :
    consumeMultilineComment mem fuel self = .ok (self.advance mem (blockLength text)) := by
  induction fuel generalizing self text with
  | zero => exact absurd enough (Nat.not_lt_zero _)
  | succ fuel ih =>
    unfold consumeMultilineComment
    cases text with
    | nil => exact if_pos sees.eq_stop
    | cons c rest =>
      rw [if_neg sees.ne_stop, sees.deref, sees.step]
      have again := ih sees.stepped (Nat.lt_of_succ_lt_succ enough)
      show (if c = _ ∧ _ then _ else _) = _
      unfold blockLength
      cases rest with
      | nil =>
        rw [if_neg fun both => both.2 sees.stepped.eq_stop, if_neg fun both => nomatch both.2]
        exact again
      | cons d rest =>
        by_cases star : c = '*'.toUInt8
        · rw [if_pos ⟨star, sees.stepped.ne_stop⟩, sees.stepped.deref]
          show (if d = _ then _ else _) = _
          by_cases slash : d = '/'.toUInt8
          · rw [if_pos slash, if_pos ⟨star, congrArg some slash⟩]
            exact sees.stepped.step
          · rw [if_neg slash, if_neg fun both => slash (Option.some.inj both.2)]
            exact again
        · rw [if_neg fun both => star both.1, if_neg fun both => star both.1]
          exact again

/-- The lexer behind a string literal, with or without its closing quote. -/
def Lexer.closeString (self : Lexer) : Option LexerMessage → Lexer
  | none => self
  | some message => { self with token := .INVALID, messages := self.messages ++ [message] }

theorem consumeString_eq {fuel : Nat} (sees : self.Sees mem text more) (enough : text.length < fuel) :
    consumeString mem fuel self =
      .ok ((self.advance mem (stringLength text).2).closeString (stringLength text).1) := by
  induction fuel generalizing self text with
  | zero => exact absurd enough (Nat.not_lt_zero _)
  | succ fuel ih =>
    unfold consumeString
    cases text with
    | nil => exact if_pos sees.eq_stop
    | cons c rest =>
      rw [if_neg sees.ne_stop, sees.deref, sees.step]
      show (if c = _ then _ else if c = _ then _ else _) = _
      by_cases quote : c = '"'.toUInt8
      · unfold stringLength
        rw [if_pos quote, if_pos quote]
        rfl
      · by_cases escape : c = '\\'.toUInt8
        · rw [if_neg quote, if_pos escape]
          cases rest with
          | nil =>
            unfold stringLength
            rw [if_pos sees.stepped.eq_stop, if_neg quote, if_pos escape]
            rfl
          | cons d rest =>
            unfold stringLength
            rw [if_neg sees.stepped.ne_stop, sees.stepped.step, if_neg quote, if_pos escape]
            have enough : rest.length + 1 + 1 < fuel + 1 := enough
            exact ih sees.stepped.stepped (by omega)
        · unfold stringLength
          rw [if_neg quote, if_neg escape, if_neg quote, if_neg escape]
          exact ih sees.stepped (Nat.lt_of_succ_lt_succ enough)

/-- A loop over the bytes that pass a test stops inside the text, or at the byte behind it. -/
theorem consumeWhile_eq {test : UInt8 → Bool} {fuel : Nat} (sees : self.Sees mem text more)
    (ends : (∀ d ∈ text, test d) → ∃ d ∈ more.head?, test d = false) (enough : text.length < fuel) :
    consumeWhile mem test fuel self = .ok (self.advance mem (text.takeWhile test).length) := by
  induction fuel generalizing self text with
  | zero => exact absurd enough (Nat.not_lt_zero _)
  | succ fuel ih =>
    unfold consumeWhile
    cases text with
    | nil =>
      obtain ⟨d, head, fails⟩ := ends fun _ member => nomatch member
      have look : mem[self.ptr]? = some d := by
        have behind : (mem.drop self.ptr)[0]? = some d := by
          rw [sees.bytes, List.nil_append, ← List.head?_eq_getElem?]
          exact head
        rwa [List.getElem?_drop] at behind
      unfold deref
      rw [look]
      show (if test d = true then _ else _) = _
      rw [fails]
      rfl
    | cons c rest =>
      rw [sees.deref]
      show (if test c = true then _ else _) = _
      by_cases pass : test c = true
      · rw [if_pos pass, sees.step, List.takeWhile_cons_of_pos pass]
        refine ih sees.stepped (fun all => ends fun d member => ?_) (Nat.lt_of_succ_lt_succ enough)
        rcases List.mem_cons.mp member with rfl | member
        · exact pass
        · exact all d member
      · rw [if_neg pass, List.takeWhile_cons_of_neg pass]
        rfl

/-- Where every byte passes and nothing can be read behind the buffer, the loop reads there. -/
theorem consumeWhile_fault {test : UInt8 → Bool} {fuel : Nat} (sees : self.Sees mem text [])
    (all : ∀ d ∈ text, test d) (enough : text.length < fuel) :
    consumeWhile mem test fuel self = .error (.read self.stop) := by
  induction fuel generalizing self text with
  | zero => exact absurd enough (Nat.not_lt_zero _)
  | succ fuel ih =>
    unfold consumeWhile
    cases text with
    | nil =>
      have look : mem[self.ptr]? = none := by
        apply List.getElem?_eq_none
        apply List.drop_eq_nil_iff.mp
        rw [sees.bytes]
        rfl
      unfold deref
      rw [look, ← sees.eq_stop]
      rfl
    | cons c rest =>
      rw [sees.deref]
      show (if test c = true then _ else _) = _
      rw [if_pos (all c List.mem_cons_self), sees.step]
      have fault := ih sees.stepped (fun d member => all d (List.mem_cons_of_mem c member))
        (Nat.lt_of_succ_lt_succ enough)
      rw [Lexer.stepped_stop] at fault
      exact fault

/-! ### Operators and comments -/

theorem strncmpEq_eq {str : List Char} {ptr : Nat} (bytes : mem.drop ptr = text ++ more)
    (bound : str.length ≤ text.length) : strncmpEq mem str ptr = .ok (startsWith str text) := by
  induction str generalizing ptr text with
  | nil => rfl
  | cons k str ih =>
    cases text with
    | nil => exact absurd bound (Nat.not_succ_le_zero _)
    | cons c rest =>
      have look : mem[ptr]? = some c := by
        have head : (mem.drop ptr)[0]? = some c := by rw [bytes]; rfl
        rwa [List.getElem?_drop] at head
      have tail : mem.drop (ptr + 1) = rest ++ more := by
        rw [← List.drop_drop, bytes]
        rfl
      unfold strncmpEq deref startsWith
      rw [look, List.map_cons, List.isPrefixOf_cons_cons]
      show (if k.toUInt8 = c then _ else _) = _
      by_cases same : k.toUInt8 = c
      · rw [if_pos same, ih tail (Nat.le_of_succ_le_succ bound), beq_iff_eq.mpr same, Bool.true_and]
        rfl
      · rw [if_neg same, beq_eq_false_iff_ne.mpr same, Bool.false_and]

theorem checkTokens_eq {table : TokenTable} {ptr : Nat} (bytes : mem.drop ptr = text ++ more)
    (bound : ∀ entry ∈ table, entry.1.length ≤ text.length) :
    checkTokens mem ptr table = .ok (findToken table text) := by
  induction table with
  | nil => rfl
  | cons entry table ih =>
    obtain ⟨str, tkn⟩ := entry
    unfold checkTokens findToken
    rw [strncmpEq_eq bytes (bound _ List.mem_cons_self), List.find?_cons]
    show (if startsWith str text = true then _ else _) = _
    by_cases starts : startsWith str text = true
    · rw [if_pos starts]
      simp only [starts]
      rfl
    · rw [if_neg starts]
      simp only [starts]
      exact ih fun entry member => bound entry (List.mem_cons_of_mem _ member)

theorem findToken_le {table : TokenTable} {length : Nat} {tkn : Token}
    (found : findToken table text = some (length, tkn)) : length ≤ text.length := by
  unfold findToken at found
  obtain ⟨⟨str, t⟩, look, same⟩ := Option.map_eq_some_iff.mp found
  obtain ⟨rfl, rfl⟩ := Prod.mk.inj same
  have starts := List.find?_some (p := fun entry : List Char × Token => startsWith entry.1 text) look
  have le := (List.isPrefixOf_iff_prefix.mp starts).length_le
  rwa [List.length_map] at le

/-- What a turn makes of the piece it finds. -/
def Lexer.apply (mem : Memory) (self : Lexer) : Piece → LexerTurn
  | .blank => .again (self.advance mem 1)
  | .comment n => .again (self.start.advance mem (n + 1))
  | .garbage c => .again (Lexer.advance mem 1 { self.start with messages := self.messages ++ [.garbage c] })
  | .token t n => .done { self.start.advance mem n with token := t }
  | .unterminated message n =>
    .done { self.start.advance mem n with token := .INVALID, messages := self.messages ++ [message] }

theorem Lexer.Sees.start (sees : self.Sees mem text more) : self.start.Sees mem text more :=
  ⟨sees.bytes, sees.stop⟩

theorem lexerOperator_eq {table : TokenTable} (sees : self.Sees mem text more)
    (bound : ∀ entry ∈ table, entry.1.length ≤ text.length) :
    lexerOperator mem self.start table = .ok ((operatorPiece table text).map (self.apply mem)) := by
  unfold lexerOperator operatorPiece
  rw [checkTokens_eq sees.start.bytes bound]
  cases found : findToken table text with
  | none => rfl
  | some entry =>
    obtain ⟨length, tkn⟩ := entry
    show (lexerSteps mem length self.start >>= _) = _
    rw [sees.start.steps (findToken_le found)]
    rfl

/-- The two bytes that open a comment hold no newline, so skipping them is two steps. -/
theorem Lexer.Sees.skip_two {c d : UInt8} (sees : self.Sees mem (c :: d :: rest) more)
    (first : c ≠ '\n'.toUInt8) (second : d ≠ '\n'.toUInt8) :
    { self with ptr := self.ptr + 2 } = self.advance mem 2 := by
  have one : self.stepped mem = { self with ptr := self.ptr + 1 } := by
    unfold Lexer.stepped
    rw [if_neg fun both => first (Option.some.inj (sees.getElem.symm.trans both.2))]
  have two : (self.stepped mem).stepped mem = { self.stepped mem with ptr := (self.stepped mem).ptr + 1 } := by
    unfold Lexer.stepped
    rw [if_neg fun both => second (Option.some.inj (sees.stepped.getElem.symm.trans both.2))]
  show _ = (self.stepped mem).stepped mem
  rw [two, one]

theorem startsWith_cons {k : Char} {str : List Char} :
    startsWith (k :: str) text = true ↔ ∃ rest, text = k.toUInt8 :: rest ∧ startsWith str rest = true := by
  unfold startsWith
  cases text with
  | nil =>
    constructor
    · intro starts
      cases starts
    · intro ⟨_, same, _⟩
      cases same
  | cons c rest =>
    rw [List.map_cons, List.isPrefixOf_cons_cons, Bool.and_eq_true, beq_iff_eq]
    constructor
    · intro ⟨same, starts⟩
      exact ⟨rest, by rw [same], starts⟩
    · intro ⟨tail, same, starts⟩
      obtain ⟨rfl, rfl⟩ := List.cons.inj same
      exact ⟨rfl, starts⟩

theorem lexerComment_eq (sees : self.Sees mem text more) (two : 2 ≤ text.length) :
    lexerComment mem self.start = .ok ((commentPiece text).map (self.apply mem)) := by
  have stop := sees.start.stop
  unfold lexerComment commentPiece
  have compare : ∀ d : Char, strncmpEq mem ['/', d] self.start.ptr = .ok (startsWith ['/', d] text) :=
    fun d => strncmpEq_eq sees.start.bytes two
  rw [compare, compare]
  show (if startsWith ['/', '/'] text = true then _ else if startsWith ['/', '*'] text = true then _ else _) = _
  by_cases line : startsWith ['/', '/'] text = true
  · rw [if_pos line, if_pos line]
    obtain ⟨_, rfl, tail⟩ := startsWith_cons.mp line
    obtain ⟨rest, rfl, _⟩ := startsWith_cons.mp tail
    have inside : (self.start.advance mem 2).Sees mem rest more :=
      sees.start.advance two
    rw [sees.start.skip_two (by decide) (by decide)]
    rw [consumeOnelineComment_eq inside (by simp only [List.length_cons] at stop; omega), ← Lexer.advance_add]
    show _ = Except.ok (some (LexerTurn.again (self.start.advance mem (lineLength rest + 1 + 1))))
    rw [Nat.add_comm 2]
    rfl
  · rw [if_neg line, if_neg line]
    by_cases block : startsWith ['/', '*'] text = true
    · rw [if_pos block, if_pos block]
      obtain ⟨_, rfl, tail⟩ := startsWith_cons.mp block
      obtain ⟨rest, rfl, _⟩ := startsWith_cons.mp tail
      have inside : (self.start.advance mem 2).Sees mem rest more :=
        sees.start.advance two
      rw [sees.start.skip_two (by decide) (by decide)]
      rw [consumeMultilineComment_eq inside (by simp only [List.length_cons] at stop; omega),
        ← Lexer.advance_add]
      show _ = Except.ok (some (LexerTurn.again (self.start.advance mem (blockLength rest + 1 + 1))))
      rw [Nat.add_comm 2]
      rfl
    · rw [if_neg block, if_neg block]
      rfl

theorem orElseTurn_ok (f : Piece → LexerTurn) (a b : Option Piece) :
    orElseTurn (.ok (a.map f)) (.ok (b.map f)) = .ok ((a.or b).map f) := by
  cases a <;> rfl

theorem ite_map_ok (p : Prop) [Decidable p] (f : Piece → LexerTurn) (a : Option Piece)
    {attempt : Except LexerFault (Option LexerTurn)} (attempt_eq : p → attempt = .ok (a.map f)) :
    (if p then attempt else .ok none) = .ok ((if p then a else none).map f) := by
  by_cases holds : p
  · rw [if_pos holds, if_pos holds, attempt_eq holds]
  · rw [if_neg holds, if_neg holds]
    rfl

theorem unsigned_le (n : Nat) : unsigned n ≤ n := Nat.mod_le n _

theorem lexerSymbol_eq (sees : self.Sees mem text more) :
    lexerSymbol mem self.start = .ok ((symbolPiece text).map (self.apply mem)) := by
  have stop := sees.start.stop
  have rem : self.start.stop - self.start.ptr = text.length := by omega
  have le := unsigned_le text.length
  have three : ∀ entry ∈ tokens3, entry.1.length ≤ 3 := by decide
  have two : ∀ entry ∈ tokens2, entry.1.length ≤ 2 := by decide
  have one : ∀ entry ∈ tokens1, entry.1.length ≤ 1 := by decide
  unfold lexerSymbol symbolPiece
  dsimp only
  rw [rem, ite_map_ok _ (self.apply mem) (operatorPiece tokens3 text), ite_map_ok _ (self.apply mem)
    ((commentPiece text).or (operatorPiece tokens2 text)), ite_map_ok _ (self.apply mem)
    (operatorPiece tokens1 text), orElseTurn_ok, orElseTurn_ok]
  · intro enough
    exact lexerOperator_eq sees fun entry member => by have := one entry member; omega
  · intro enough
    rw [lexerComment_eq sees (by omega),
      lexerOperator_eq sees fun entry member => by have := two entry member; omega, orElseTurn_ok]
  · intro enough
    exact lexerOperator_eq sees fun entry member => by have := three entry member; omega

/-! ### Lexemes -/

theorem Lexer.advance_with_token (n : Nat) (token : Token) :
    Lexer.advance mem n { self with token := token } = { self.advance mem n with token := token } := by
  rw [Lexer.advance_with n token self.messages, ← Lexer.advance_messages n]

/-- The loop of a number or an identifier ends before it leaves the text, or at the byte behind it. -/
def Ends (c : UInt8) (rest more : List UInt8) : Prop :=
  ∀ test ∈ restTest c, (∀ d ∈ rest, test d) → ∃ d ∈ more.head?, test d = false

theorem lexerLexeme_string (sees : self.Sees mem (c :: rest) more) (quote : c = '"'.toUInt8) :
    lexerLexeme mem self.start c = .ok (self.apply mem (lexemePiece self.token c rest)) := by
  have inside : Lexer.Sees mem { self.start with token := .STRING_LITERAL } (c :: rest) more :=
    ⟨sees.bytes, sees.stop⟩
  have enough : rest.length < (Lexer.stepped mem { self.start with token := .STRING_LITERAL }).stop -
      (Lexer.stepped mem { self.start with token := .STRING_LITERAL }).ptr + 1 := by
    have stop := inside.stepped.stop
    omega
  unfold lexerLexeme lexemePiece
  rw [if_pos quote, if_pos quote, inside.step]
  show (consumeString mem _ _ >>= fun self => Except.ok (LexerTurn.done self)) = _
  rw [consumeString_eq inside.stepped enough]
  show Except.ok (LexerTurn.done ((Lexer.advance mem ((stringLength rest).2 + 1) _).closeString _)) = _
  rw [Lexer.advance_with_token]
  rcases stringLength rest with ⟨message | message, n⟩
  · rfl
  · show Except.ok (LexerTurn.done { self.start.advance mem (n + 1) with
      token := .INVALID, messages := (self.start.advance mem (n + 1)).messages ++ [message] }) = _
    rw [Lexer.advance_messages]
    rfl

theorem lexerLexeme_number (sees : self.Sees mem (c :: rest) more) (quote : ¬ c = '"'.toUInt8)
    (number : isNumberStart c = true) (ends : Ends c rest more) :
    lexerLexeme mem self.start c = .ok (self.apply mem (lexemePiece self.token c rest)) := by
  have test : isNumberRest ∈ restTest c := if_pos number
  have enough : rest.length < mem.length - (self.start.stepped mem).ptr + 1 := by
    have bytes := congrArg List.length sees.start.stepped.bytes
    rw [List.length_drop, List.length_append] at bytes
    omega
  unfold lexerLexeme lexemePiece
  rw [if_neg quote, if_pos number, if_neg quote, if_pos number, sees.start.step]
  show (consumeWhile mem _ _ _ >>= fun self => Except.ok (LexerTurn.done _)) = _
  rw [consumeWhile_eq sees.start.stepped (ends _ test) enough]
  rfl

theorem takeWhile_lexeme (sees : self.Sees mem (c :: rest) more) (test : UInt8 → Bool) :
    (mem.drop self.ptr).take ((rest.takeWhile test).length + 1) = c :: rest.takeWhile test := by
  have starts := List.takeWhile_prefix (l := rest) test
  rw [sees.bytes, List.cons_append, List.take_succ_cons, List.take_append_of_le_length starts.length_le,
    ← List.prefix_iff_eq_take.mp starts]

theorem lexerLexeme_ident (sees : self.Sees mem (c :: rest) more) (quote : ¬ c = '"'.toUInt8)
    (number : ¬ isNumberStart c = true) (ident : isIdentStart c = true) (ends : Ends c rest more) :
    lexerLexeme mem self.start c = .ok (self.apply mem (lexemePiece self.token c rest)) := by
  have test : isIdent ∈ restTest c := (if_neg number).trans (if_pos ident)
  have enough : rest.length < mem.length - (self.start.stepped mem).ptr + 1 := by
    have bytes := congrArg List.length sees.start.stepped.bytes
    rw [List.length_drop, List.length_append] at bytes
    omega
  have lexeme := takeWhile_lexeme sees isIdent
  unfold lexerLexeme lexemePiece
  rw [if_neg quote, if_neg number, if_pos ident, if_neg quote, if_neg number, if_pos ident, sees.start.step]
  show (consumeWhile mem _ _ _ >>= fun self => Except.ok { self with token := .IDENT }) >>= _ = _
  rw [consumeWhile_eq sees.start.stepped (ends _ test) enough]
  show Except.ok (LexerTurn.done { self.start.advance mem ((rest.takeWhile isIdent).length + 1) with
    token := checkKeywords ((mem.drop (self.start.advance mem ((rest.takeWhile isIdent).length + 1)).base).take
      ((self.start.advance mem ((rest.takeWhile isIdent).length + 1)).ptr -
        (self.start.advance mem ((rest.takeWhile isIdent).length + 1)).base)) }) = _
  rw [Lexer.advance_base, Lexer.advance_ptr]
  show Except.ok (LexerTurn.done { self.start.advance mem _ with
    token := checkKeywords ((mem.drop self.ptr).take (self.ptr + _ - self.ptr)) }) = _
  rw [Nat.add_sub_cancel_left, lexeme]
  rfl

theorem lexerLexeme_eq (sees : self.Sees mem (c :: rest) more) (ends : Ends c rest more) :
    lexerLexeme mem self.start c = .ok (self.apply mem (lexemePiece self.token c rest)) := by
  by_cases quote : c = '"'.toUInt8
  · exact lexerLexeme_string sees quote
  · by_cases number : isNumberStart c = true
    · exact lexerLexeme_number sees quote number ends
    · by_cases ident : isIdentStart c = true
      · exact lexerLexeme_ident sees quote number ident ends
      · unfold lexerLexeme lexemePiece
        rw [if_neg quote, if_neg number, if_neg ident, if_neg quote, if_neg number, if_neg ident]
        show (if self.token = .IDENT then _ else _) = _
        by_cases stale : self.token = .IDENT
        · rw [if_pos stale, if_pos stale]
          show Except.ok (LexerTurn.done { self.start with
            token := checkKeywords ((mem.drop self.ptr).take (self.ptr - self.ptr)) }) = _
          rw [Nat.sub_self]
          rfl
        · have inside : Lexer.Sees mem { self.start with
              messages := self.start.messages ++ [.garbage c] } (c :: rest) more := ⟨sees.bytes, sees.stop⟩
          rw [if_neg stale, if_neg stale]
          show (lexerStep mem _ >>= fun self => Except.ok (LexerTurn.again self)) = _
          rw [inside.step]
          rfl

/-! ### A turn -/

/-- A turn does what is found at the front of the text, where the loops end in time. -/
theorem lexerTurn_eq (sees : self.Sees mem (c :: rest) more)
    (ends : symbolPiece (c :: rest) = none → Ends c rest more) :
    lexerTurn mem self = .ok (self.apply mem (piece self.token c rest)) := by
  unfold lexerTurn piece
  rw [sees.deref]
  show (if isWhitespace c = true then _ else _) = _
  by_cases white : isWhitespace c = true
  · rw [if_pos white, if_pos white]
    by_cases newline : c = '\n'.toUInt8 ∧ self.token ∈ terminators
    · have inside : Lexer.Sees mem { self.start with token := .SEMICOLON } (c :: rest) more :=
        ⟨sees.bytes, sees.stop⟩
      rw [if_pos newline, if_pos newline, inside.step]
      show Except.ok (LexerTurn.done (Lexer.advance mem 1 _)) = _
      rw [Lexer.advance_with_token]
      rfl
    · rw [if_neg newline, if_neg newline, sees.step]
      rfl
  · rw [if_neg white, if_neg white, lexerSymbol_eq sees]
    cases symbol : symbolPiece (c :: rest) with
    | some found => rfl
    | none => exact lexerLexeme_eq sees (ends symbol)

theorem restTest_none_of_blank {c : UInt8} (blank : isWhitespace c = true ∨ c = '"'.toUInt8) :
    restTest c = none := by
  have all := forall_byte (p := fun c => !(isWhitespace c || c == '"'.toUInt8) || (restTest c).isNone)
    (by decide +kernel) c
  rcases blank with blank | rfl
  · simpa [blank] using all
  · rfl

/-- The kind of a number or an identifier, behind its loop. -/
def wordKind (mem : Memory) (c : UInt8) (self : Lexer) : Token :=
  if isNumberStart c then .NUMBER_LITERAL
  else checkKeywords ((mem.drop self.base).take (self.ptr - self.base))

/-- A turn at a number or an identifier is its loop, wherever that ends. -/
theorem lexerTurn_word_eq {test : UInt8 → Bool} (sees : self.Sees mem (c :: rest) more)
    (symbol : symbolPiece (c :: rest) = none) (word : restTest c = some test) :
    lexerTurn mem self =
      consumeWhile mem test (mem.length - (self.start.stepped mem).ptr + 1) (self.start.stepped mem) >>= fun r =>
        .ok (.done { r with token := wordKind mem c r }) := by
  have notBlank : ∀ {p : Prop}, (p → isWhitespace c = true ∨ c = '"'.toUInt8) → ¬ p :=
    fun blank holds => by rw [restTest_none_of_blank (blank holds)] at word; cases word
  unfold lexerTurn
  rw [sees.deref]
  show (if isWhitespace c = true then _ else _) = _
  rw [if_neg (notBlank .inl), lexerSymbol_eq sees, symbol]
  show lexerLexeme mem self.start c = _
  unfold lexerLexeme
  rw [if_neg (notBlank .inr), sees.start.step]
  unfold restTest at word
  by_cases number : isNumberStart c = true
  · have kind (r : Lexer) : wordKind mem c r = .NUMBER_LITERAL := if_pos number
    simp only [kind]
    rw [if_pos number] at word ⊢
    obtain rfl := Option.some.inj word
    rfl
  · have kind (r : Lexer) : wordKind mem c r = checkKeywords ((mem.drop r.base).take (r.ptr - r.base)) := if_neg number
    simp only [kind]
    rw [if_neg number] at word ⊢
    by_cases ident : isIdentStart c = true
    · rw [if_pos ident] at word ⊢
      obtain rfl := Option.some.inj word
      show (consumeWhile mem isIdent _ (self.start.stepped mem) >>= fun r => Except.ok { r with token := .IDENT }) >>= _ = _
      cases consumeWhile mem isIdent (mem.length - (self.start.stepped mem).ptr + 1) (self.start.stepped mem) with
      | error fault => rfl
      | ok r => rfl
    · rw [if_neg ident] at word
      cases word

/-- A number or an identifier that runs to the end is read on behind the buffer. -/
theorem lexerTurn_fault (sees : self.Sees mem (c :: rest) []) (runs : RunsToEnd c rest) :
    lexerTurn mem self = .error (.read self.stop) := by
  obtain ⟨symbol, test, word, all⟩ := runs
  have enough : rest.length < mem.length - (self.start.stepped mem).ptr + 1 := by
    have bytes := congrArg List.length sees.start.stepped.bytes
    rw [List.length_drop, List.append_nil] at bytes
    omega
  rw [lexerTurn_word_eq sees symbol word, consumeWhile_fault sees.start.stepped all enough, Lexer.stepped_stop]
  rfl

end Low
