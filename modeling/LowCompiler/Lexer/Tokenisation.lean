import LowCompiler.Lexer.Munch

/-!
# The lexer against its specification

One call takes the next token of the specification if and only if it can be read, and
so do the calls one after the other.
-/

namespace Low

variable {equal : List Char} {str : List Char} {token before : Token} {c : UInt8}
  {text rest lexeme more : List UInt8}

/-! ### Where a call begins its lexeme -/

variable {mem : Memory} {self s : Lexer} {fuel : Nat}

theorem lexerStep_base (step : lexerStep mem self = .ok s) : s.base = self.base := by
  unfold lexerStep at step
  split at step
  · obtain rfl := Except.ok.inj step
    rfl
  · cases read : deref mem self.ptr with
    | error fault =>
      rw [read] at step
      cases step
    | ok c =>
      rw [read] at step
      replace step : (if c = '\n'.toUInt8 then _ else _) = Except.ok s := step
      split at step <;>
      · obtain rfl := Except.ok.inj step
        rfl

/-- The loop of a word stops at a byte that fails its test. -/
theorem consumeWhile_stops {test : UInt8 → Bool} (loop : consumeWhile mem test fuel self = .ok s) :
    s.base = self.base ∧ ∃ d, mem[s.ptr]? = some d ∧ test d = false := by
  induction fuel generalizing self with
  | zero => cases loop
  | succ fuel ih =>
    unfold consumeWhile at loop
    cases look : mem[self.ptr]? with
    | none =>
      unfold deref at loop
      rw [look] at loop
      cases loop
    | some c =>
      unfold deref at loop
      rw [look] at loop
      replace loop : (if test c = true then _ else _) = Except.ok s := loop
      by_cases pass : test c = true
      · rw [if_pos pass] at loop
        cases step : lexerStep mem self with
        | error fault =>
          rw [step] at loop
          cases loop
        | ok r =>
          rw [step] at loop
          obtain ⟨base, stops⟩ := ih loop
          exact ⟨base.trans (lexerStep_base step), stops⟩
      · rw [if_neg pass] at loop
        obtain rfl := Except.ok.inj loop
        exact ⟨rfl, c, look, Bool.eq_false_iff.mpr pass⟩

/-- A turn at a number or an identifier returns from its loop. -/
theorem lexerTurn_loop {test : UInt8 → Bool} {turn : LexerTurn} (sees : self.Sees mem (c :: rest) more)
    (symbol : symbolPiece (c :: rest) = none) (word : restTest c = some test)
    (returns : lexerTurn mem self = .ok turn) :
    ∃ r t, consumeWhile mem test (mem.length - (self.start.stepped mem).ptr + 1) (self.start.stepped mem) = .ok r ∧
      turn = .done { r with token := t } ∧ (isNumberStart c = true → t = .NUMBER_LITERAL) ∧
        t ≠ .INVALID ∧ t ≠ .EOF := by
  rw [lexerTurn_word_eq sees symbol word] at returns
  cases loop : consumeWhile mem test (mem.length - (self.start.stepped mem).ptr + 1) (self.start.stepped mem) with
  | error fault =>
    rw [loop] at returns
    cases returns
  | ok r =>
    rw [loop] at returns
    obtain rfl := Except.ok.inj returns
    refine ⟨r, _, rfl, rfl, fun number => if_pos number, ?_⟩
    unfold wordKind
    by_cases number : isNumberStart c = true
    · rw [if_pos number]
      exact ⟨nofun, nofun⟩
    · rw [if_neg number, checkKeywords_eq]
      have kind := wordToken_kind ((mem.drop r.base).take (r.ptr - r.base))
      exact ⟨kind.1, kind.2.1⟩

/-- It returns at a byte that fails the test of the loop. -/
theorem lexerTurn_word {test : UInt8 → Bool} {turn : LexerTurn} (sees : self.Sees mem (c :: rest) more)
    (symbol : symbolPiece (c :: rest) = none) (word : restTest c = some test)
    (returns : lexerTurn mem self = .ok turn) :
    ∃ s, turn = .done s ∧ s.base = self.ptr ∧ (isNumberStart c = true → s.token = .NUMBER_LITERAL) ∧
      ∃ d, mem[s.ptr]? = some d ∧ test d = false := by
  obtain ⟨r, t, loop, rfl, number, _⟩ := lexerTurn_loop sees symbol word returns
  obtain ⟨base, stops⟩ := consumeWhile_stops loop
  exact ⟨_, rfl, base.trans Lexer.stepped_base, number, stops⟩

/-- A call begins its lexeme no earlier than where it stands, or meets the end. -/
theorem lexerLoop_base (sees : self.Sees mem text more) (base : self.base ≤ self.ptr)
    (loop : lexerLoop mem fuel self = .ok s) : s.token = .EOF ∨ self.ptr ≤ s.base := by
  induction fuel generalizing self text with
  | zero => cases loop
  | succ fuel ih =>
    unfold lexerLoop at loop
    cases text with
    | nil =>
      rw [if_pos sees.eq_stop] at loop
      obtain rfl := Except.ok.inj loop
      exact .inl rfl
    | cons c rest =>
      rw [if_neg sees.ne_stop] at loop
      by_cases ends : symbolPiece (c :: rest) = none → Ends c rest more
      · have bound := piece_length_le self.token c rest
        rw [lexerTurn_eq sees ends] at loop
        cases skipped : (piece self.token c rest).skipped with
        | some n =>
          obtain ⟨r, again, inside, base, stop, _⟩ := apply_again sees base skipped bound
          rw [again] at loop
          have moved := inside.stop
          have before := sees.stop
          rw [List.length_drop] at moved
          rw [List.length_cons] at before
          rcases ih inside base loop with eof | le
          · exact .inl eof
          · exact .inr (by omega)
        | none =>
          obtain ⟨r, done, _, base, _⟩ := apply_done sees skipped bound
          rw [done] at loop
          obtain rfl := Except.ok.inj loop
          exact .inr base.ge
      · rw [Classical.not_imp] at ends
        obtain ⟨symbol, unbounded⟩ := ends
        unfold Ends at unbounded
        push Not at unbounded
        obtain ⟨test, word, _⟩ := unbounded
        cases turn : lexerTurn mem self with
        | error fault =>
          rw [turn] at loop
          cases loop
        | ok t =>
          obtain ⟨r, rfl, base, _⟩ := lexerTurn_word sees symbol word turn
          rw [turn] at loop
          obtain rfl := Except.ok.inj loop
          exact .inr base.ge

/-! ### One call -/

/-- The lexer has the token. -/
def Lexer.Took (s : Lexer) (lexed : Lexed) : Prop :=
  s.token = lexed.token ∧ s.base = lexed.base ∧ s.ptr = lexed.base + lexed.lexeme.length

/-- The lexer can read the token in `text` with `more` behind: an operator is counted in full, and a
number at the end of the text is not read on. -/
structure Lexed.Readable (equal : List Char) (text more : List UInt8) (lexed : Lexed) : Prop where
  legible : IsOperator equal lexed.lexeme →
    Legible equal (text.drop lexed.base) lexed.token lexed.lexeme.length
  number : lexed.token = .NUMBER_LITERAL → lexed.base + lexed.lexeme.length = text.length →
    ∀ d ∈ more.head?, isNumberRest d = false

variable {base : Nat} {current : List UInt8}

theorem drop_nil_iff {lexeme rest : List UInt8} (here : text.drop base = lexeme ++ rest) (pos : lexeme ≠ []) :
    base + lexeme.length = text.length ↔ rest = [] := by
  have length := congrArg List.length here
  have some := List.length_pos_iff.mpr pos
  rw [List.length_drop, List.length_append] at length
  rw [← List.length_eq_zero_iff]
  omega

/-- A readable lexeme ends before its loop leaves the text, or at the byte behind it. -/
theorem Munch.ends (spelt : equal = ['='] ∨ equal = ['=', '=']) (notIdent : NotIdent more)
    (plain : ¬ Commented (c :: rest)) (munch : Munch equal (c :: rest) token lexeme)
    (readable : IsOperator equal lexeme → Legible equal (c :: rest) token lexeme.length)
    (number : token = .NUMBER_LITERAL → lexeme = c :: rest → ∀ d ∈ more.head?, isNumberRest d = false)
    (symbol : symbolPiece (c :: rest) = none) : Ends c rest more := by
  obtain ⟨d, head, ident⟩ := notIdent
  intro test word all
  cases munch with
  | operator found member =>
    have found := symbolPiece_of_legible spelt plain found member (List.length_map .. ▸ readable found.member)
    cases symbol.symm.trans found
  | number absent found =>
    obtain ⟨_, _, same, start, rfl⟩ := found.word
    obtain ⟨rfl, rfl⟩ := List.cons.inj same
    obtain rfl := Option.some.inj ((if_pos start).symm.trans word)
    exact ⟨d, head, number rfl (congrArg (c :: ·) (List.takeWhile_eq_self_iff.mpr all)) d head⟩
  | quoted found =>
    obtain ⟨_, rfl, _⟩ := found.member
    obtain ⟨_, same⟩ := found.starts
    rw [restTest_none_of_blank (.inr (List.cons.inj same).1.symm)] at word
    cases word
  | ident found =>
    obtain ⟨_, _, same, start, rfl⟩ := found.word
    obtain ⟨rfl, rfl⟩ := List.cons.inj same
    have number : ¬ isNumberStart c = true := by
      have all := forall_byte (p := fun c => !isIdentStart c || !isNumberStart c) (by decide +kernel) c
      rw [start] at all
      simpa using all
    obtain rfl := Option.some.inj (((if_neg number).trans (if_pos start)).symm.trans word)
    exact ⟨d, head, ident⟩

theorem lexerLoop_took (spelt : equal = ['='] ∨ equal = ['=', '=']) (notIdent : NotIdent more)
    (plain : ¬ Commented (lexeme ++ rest)) (munch : Munch equal (lexeme ++ rest) token lexeme)
    (sees : self.Sees mem (lexeme ++ rest) more) (here : text.drop self.ptr = lexeme ++ rest)
    (readable : Lexed.Readable equal text more ⟨token, self.ptr, lexeme⟩) :
    ∃ s, lexerLoop mem (fuel + 1) self = .ok s ∧ s.Took ⟨token, self.ptr, lexeme⟩ ∧ s.Sees mem rest more ∧
      s.stop = self.stop := by
  have pos := munch.ne_nil spelt
  have atEnd := drop_nil_iff here pos
  obtain ⟨legible, number⟩ := readable
  dsimp only at legible number
  rw [here] at legible
  obtain ⟨c, tail, rfl⟩ := List.exists_cons_of_ne_nil pos
  have found := munch.piece self.token spelt plain legible
  have ends := munch.ends spelt notIdent plain legible fun same all => by
    have whole : c :: tail ++ rest = c :: tail := all.symm
    exact number same (atEnd.mpr (List.append_right_eq_self.mp whole))
  unfold lexerLoop
  rw [if_neg sees.ne_stop, lexerTurn_eq sees ends, found]
  have inside := sees.start.advance (n := (c :: tail).length) (by rw [List.length_append]; omega)
  rw [List.drop_left] at inside
  exact ⟨_, rfl, ⟨rfl, Lexer.advance_base _, Lexer.advance_ptr _⟩, ⟨inside.bytes, inside.stop⟩, Lexer.advance_stop _⟩

/-- An operator that is taken was found in full. -/
theorem symbolPiece_of_took {tail : List UInt8} (spelt : equal = ['='] ∨ equal = ['=', '='])
    (plain : ¬ Commented (c :: tail)) (member : (str, token) ∈ operators equal)
    (starts : str.map Char.toUInt8 <+: c :: tail) (sees : self.Sees mem (c :: tail) more)
    (loop : lexerLoop mem fuel self = .ok s) (took : s.Took ⟨token, self.ptr, str.map Char.toUInt8⟩) :
    symbolPiece (c :: tail) = some (.token token str.length) := by
  obtain ⟨kind, base, ptr⟩ := took
  obtain ⟨white, quote, ident⟩ := operator_head spelt member starts
  obtain ⟨invalid, eof, number, name⟩ := operator_kind member
  cases fuel with
  | zero => cases loop
  | succ fuel =>
  unfold lexerLoop at loop
  rw [if_neg sees.ne_stop] at loop
  cases symbol : symbolPiece (c :: tail) with
  | some p =>
    rw [lexerTurn_eq sees fun none => absurd (symbol.symm.trans none) (Option.some_ne_none p)] at loop
    have found : piece self.token c tail = p := by
      unfold piece
      rw [white, symbol]
      rfl
    rcases symbolPiece_cases symbol with comment | ⟨table, known, operator⟩
    · rw [commentPiece_of_not plain] at comment
      cases comment
    · obtain ⟨word, t, _, _, rfl⟩ := operatorPiece_some operator
      rw [found] at loop
      obtain rfl := Except.ok.inj loop
      have length : (self.start.advance mem word.length).ptr = self.ptr + (str.map Char.toUInt8).length := ptr
      rw [Lexer.advance_ptr, List.length_map] at length
      replace length : self.ptr + word.length = self.ptr + str.length := length
      rw [show t = token from kind, Nat.add_left_cancel length]
  | none =>
    by_cases start : isNumberStart c = true
    · have word : restTest c = some isNumberRest := if_pos start
      cases turn : lexerTurn mem self with
      | error fault =>
        rw [turn] at loop
        cases loop
      | ok t =>
        obtain ⟨r, rfl, _, same, _⟩ := lexerTurn_word sees symbol word turn
        rw [turn] at loop
        obtain rfl := Except.ok.inj loop
        exact absurd (kind.symm.trans (same start)) number
    · have other : restTest c = none := (if_neg start).trans (if_neg (Bool.eq_false_iff.mp ident))
      have ends : Ends c tail more := by
        intro test word
        rw [other] at word
        cases word
      rw [lexerTurn_eq sees fun _ => ends] at loop
      have found : piece self.token c tail = lexemePiece self.token c tail := by
        unfold piece
        rw [white, symbol]
        rfl
      unfold lexemePiece at found
      rw [if_neg quote, if_neg start, if_neg (Bool.eq_false_iff.mp ident)] at found
      by_cases stale : self.token = .IDENT
      · rw [if_pos stale] at found
        rw [found] at loop
        obtain rfl := Except.ok.inj loop
        exact absurd kind.symm name
      · rw [if_neg stale] at found
        rw [found] at loop
        have inside : Lexer.Sees mem { self.start with
          messages := self.messages ++ [.garbage c] } (c :: tail) more := ⟨sees.bytes, sees.stop⟩
        have moved := inside.stepped
        have start : (Lexer.stepped mem { self.start with messages := self.messages ++ [.garbage c] }).base ≤
            (Lexer.stepped mem { self.start with messages := self.messages ++ [.garbage c] }).ptr := by
          rw [Lexer.stepped_base, Lexer.stepped_ptr]
          exact Nat.le_succ self.ptr
        rcases lexerLoop_base moved start loop with same | le
        · exact absurd (kind.symm.trans same) eof
        · rw [Lexer.stepped_ptr, base] at le
          exact absurd le (Nat.not_succ_le_self self.ptr)

theorem readable_of_took (spelt : equal = ['='] ∨ equal = ['=', '=']) (plain : ¬ Commented (lexeme ++ rest))
    (munch : Munch equal (lexeme ++ rest) token lexeme) (sees : self.Sees mem (lexeme ++ rest) more)
    (here : text.drop self.ptr = lexeme ++ rest) (loop : lexerLoop mem fuel self = .ok s)
    (took : s.Took ⟨token, self.ptr, lexeme⟩) :
    Lexed.Readable equal text more ⟨token, self.ptr, lexeme⟩ := by
  have pos := munch.ne_nil spelt
  have atEnd := drop_nil_iff here pos
  obtain ⟨c, tail, rfl⟩ := List.exists_cons_of_ne_nil pos
  constructor
  · intro spelled
    dsimp only at spelled ⊢
    rw [here]
    obtain ⟨str, same, member, found⟩ := munch.operator_of spelt spelled
    have starts : str.map Char.toUInt8 <+: c :: (tail ++ rest) := by
      rw [← same]
      exact found.starts
    rw [same] at took
    have symbol := symbolPiece_of_took spelt plain member starts sees loop took
    have length : (c :: tail).length = str.length := by rw [same, List.length_map]
    rw [length]
    exact symbolPiece_legible member symbol
  · rintro rfl whole d head
    obtain rfl := atEnd.mp whole
    rw [List.append_nil] at plain munch sees
    obtain ⟨absent, found⟩ := munch.number_of
    obtain ⟨_, _, same, start, read⟩ := found.word
    obtain ⟨rfl, rfl⟩ := List.cons.inj same
    have symbol := symbolPiece_none spelt plain absent
    obtain ⟨kind, base, ptr⟩ := took
    cases fuel with
    | zero => cases loop
    | succ fuel =>
    unfold lexerLoop at loop
    rw [if_neg sees.ne_stop] at loop
    cases turn : lexerTurn mem self with
    | error fault =>
      rw [turn] at loop
      cases loop
    | ok t =>
      obtain ⟨r, rfl, _, _, e, look, fails⟩ := lexerTurn_word sees symbol (if_pos start) turn
      rw [turn] at loop
      obtain rfl := Except.ok.inj loop
      have behind : mem[self.ptr + (c :: tail).length]? = more.head? := by
        have bytes : (mem.drop self.ptr)[(c :: tail).length]? = (c :: tail ++ more)[(c :: tail).length]? := by
          rw [sees.bytes]
        rwa [List.getElem?_drop, List.getElem?_append_right (Nat.le_refl _), Nat.sub_self,
          ← List.head?_eq_getElem?] at bytes
      rw [ptr, behind] at look
      obtain rfl := Option.some.inj (head.symm.trans look)
      exact fails

/-! ### The calls -/

variable {lexed : List Lexed}

theorem lexerLoop_blank (sees : self.Sees mem (c :: rest) more) (white : isWhitespace c = true)
    (same : ¬ (c = '\n'.toUInt8 ∧ self.token ∈ terminators)) :
    lexerLoop mem (fuel + 1) self = lexerLoop mem fuel (self.stepped mem) := by
  have found : piece self.token c rest = .blank := by
    unfold piece
    rw [if_pos white, if_neg same]
  have ends : Ends c rest more := by
    intro test word
    rw [restTest_none_of_blank (.inl white)] at word
    cases word
  rw [lexerLoop, if_neg sees.ne_stop, lexerTurn_eq sees fun _ => ends, found]
  rfl

theorem lexerLoop_newline (sees : self.Sees mem ('\n'.toUInt8 :: rest) more)
    (terminates : self.token ∈ terminators) :
    ∃ s, lexerLoop mem (fuel + 1) self = .ok s ∧ s.Took ⟨.SEMICOLON, self.ptr, ['\n'.toUInt8]⟩ ∧
      s.Sees mem rest more ∧ s.stop = self.stop := by
  have found : piece self.token '\n'.toUInt8 rest = .token .SEMICOLON 1 := by
    rw [piece_newline, if_pos terminates]
  have ends : Ends '\n'.toUInt8 rest more := by
    intro test word
    cases word
  have inside := sees.start.stepped
  rw [lexerLoop, if_neg sees.ne_stop, lexerTurn_eq sees fun _ => ends, found]
  exact ⟨_, rfl, ⟨rfl, Lexer.advance_base 1, Lexer.advance_ptr 1⟩, ⟨inside.bytes, inside.stop⟩, Lexer.advance_stop 1⟩

/-- What one call does where the specification has these tokens. -/
def CallGives (equal : List Char) (text more : List UInt8) (self : Lexer) (result : Except LexerFault Lexer) :
    List Lexed → Prop
  | [] => ∃ s, result = .ok s ∧ s.token = .EOF ∧ s.ptr ≤ s.stop
  | lexed :: later =>
    ∃ behind, Tokens equal lexed.token (lexed.base + lexed.lexeme.length) behind later ∧
      text.drop (lexed.base + lexed.lexeme.length) = behind ∧
      (lexed.token ≠ .INVALID ∧ lexed.token ≠ .EOF) ∧
      (lexed.Readable equal text more →
        ∃ s, result = .ok s ∧ s.Took lexed ∧ s.Sees (text ++ more) behind more ∧ s.stop = self.stop) ∧
      ∀ s, result = .ok s → s.Took lexed → lexed.Readable equal text more

theorem newline_readable (spelt : equal = ['='] ∨ equal = ['=', '=']) (base : Nat) :
    Lexed.Readable equal text more ⟨.SEMICOLON, base, ['\n'.toUInt8]⟩ := by
  constructor
  · rintro ⟨entry, member, same⟩
    have starts : entry.1.map Char.toUInt8 <+: ['\n'.toUInt8] := same ▸ List.prefix_rfl
    cases (operator_head spelt member starts).1
  · exact nofun

theorem Tokens.call (spelt : equal = ['='] ∨ equal = ['=', '=']) (notIdent : NotIdent more)
    (tokens : Tokens equal before base current lexed) (sees : self.Sees (text ++ more) current more)
    (ptr : self.ptr = base) (kind : self.token = before) (here : text.drop base = current)
    (enough : current.length < fuel) :
    CallGives equal text more self (lexerLoop (text ++ more) fuel self) lexed := by
  induction tokens generalizing self fuel with
  | done before base =>
    obtain ⟨fuel, rfl⟩ := Nat.exists_eq_add_one.mpr enough
    rw [lexerLoop, if_pos sees.eq_stop]
    exact ⟨_, rfl, rfl, sees.eq_stop.le⟩
  | @blank before base c rest lexed low same _ ih =>
    subst ptr kind
    obtain ⟨fuel, rfl⟩ := Nat.exists_eq_add_one.mpr (Nat.zero_lt_of_lt enough)
    have white : isWhitespace c = true := by
      unfold isWhitespace
      rw [decide_eq_true low]
      rfl
    have next : text.drop (self.ptr + 1) = rest := by
      rw [← List.drop_drop, here]
      rfl
    have gives := ih sees.stepped Lexer.stepped_ptr Lexer.stepped_token next (Nat.lt_of_succ_lt_succ enough)
    rw [lexerLoop_blank sees white same]
    cases lexed with
    | nil => exact gives
    | cons l later =>
      obtain ⟨behind, tokens, drop, goes, reads, back⟩ := gives
      rw [Lexer.stepped_stop] at reads
      exact ⟨behind, tokens, drop, goes, reads, back⟩
  | @newline before base rest lexed terminates tokens _ =>
    subst ptr kind
    obtain ⟨fuel, rfl⟩ := Nat.exists_eq_add_one.mpr (Nat.zero_lt_of_lt enough)
    have next : text.drop (self.ptr + 1) = rest := by
      rw [← List.drop_drop, here]
      rfl
    have readable : Lexed.Readable equal text more ⟨.SEMICOLON, self.ptr, ['\n'.toUInt8]⟩ :=
      newline_readable spelt self.ptr
    exact ⟨rest, tokens, next, ⟨by simp, by simp⟩, fun _ => lexerLoop_newline sees terminates, fun _ _ _ => readable⟩
  | @munch before token base lexeme rest lexed plain munch tokens _ =>
    subst ptr kind
    obtain ⟨fuel, rfl⟩ := Nat.exists_eq_add_one.mpr (Nat.zero_lt_of_lt enough)
    have next : text.drop (self.ptr + lexeme.length) = rest := by
      rw [← List.drop_drop, here]
      exact List.drop_left
    exact ⟨rest, tokens, next, munch.goes, fun readable => lexerLoop_took spelt notIdent plain munch sees here readable,
      fun s loop took => readable_of_took spelt plain munch sees here loop took⟩

/-- The calls from the `k`th one on return these tokens, and then the end. -/
def Tokenises (text more : List UInt8) (k : Nat) (lexed : List Lexed) : Prop :=
  ∀ n, ∃ s, lexerCalls (text ++ more) text.length (k + n + 1) = .ok s ∧
    match lexed[n]? with
    | some token => s.Took token
    | none => s.token = .EOF

theorem lexerCalls_ended {k : Nat} (calls : lexerCalls mem text.length k = .ok s) (within : s.ptr ≤ s.stop)
    (ended : s.token = .EOF) (n : Nat) : lexerCalls mem text.length (k + n) = .ok s := by
  induction n with
  | zero => exact calls
  | succ n ih => exact lexerCalls_step ih (lexerNext_ended within (.inr ended))

/-- One call of `lexer_next`. -/
theorem Tokens.next (spelt : equal = ['='] ∨ equal = ['=', '=']) (notIdent : NotIdent more)
    (tokens : Tokens equal self.token self.ptr current lexed) (goes : self.token ≠ .INVALID ∧ self.token ≠ .EOF)
    (sees : self.Sees (text ++ more) current more) (here : text.drop self.ptr = current) :
    CallGives equal text more self (lexerNext (text ++ more) self) lexed := by
  have stop := sees.stop
  have enough : current.length < self.stop - self.ptr + 1 := by omega
  unfold lexerNext
  rw [if_neg (by omega), if_neg fun ended => ended.elim goes.1 goes.2]
  exact tokens.call spelt notIdent sees rfl rfl here enough

theorem Tokens.run (spelt : equal = ['='] ∨ equal = ['=', '=']) (notIdent : NotIdent more) {k : Nat}
    (tokens : Tokens equal self.token self.ptr current lexed) (goes : self.token ≠ .INVALID ∧ self.token ≠ .EOF)
    (calls : lexerCalls (text ++ more) text.length k = .ok self)
    (sees : self.Sees (text ++ more) current more) (here : text.drop self.ptr = current) :
    Tokenises text more k lexed ↔ ∀ l ∈ lexed, l.Readable equal text more := by
  induction lexed generalizing self current k with
  | nil =>
    obtain ⟨s, returns, ended, within⟩ := tokens.next spelt notIdent goes sees here
    refine ⟨fun _ => nofun, fun _ n => ⟨s, ?_, ended⟩⟩
    have after := lexerCalls_ended (lexerCalls_step calls returns) within ended n
    rwa [Nat.add_right_comm] at after
  | cons l later ih =>
    obtain ⟨behind, tokens, drop, goes, reads, back⟩ := tokens.next spelt notIdent goes sees here
    have shift : ∀ n, k + (n + 1) + 1 = k + 1 + n + 1 := by omega
    have onwards : l.Readable equal text more →
        (Tokenises text more (k + 1) later ↔ ∀ l ∈ later, l.Readable equal text more) ∧
          ∃ s, lexerCalls (text ++ more) text.length (k + 1) = .ok s ∧ s.Took l := by
      intro readable
      obtain ⟨s, returns, ⟨kind, base, ptr⟩, sees, _⟩ := reads readable
      have after := lexerCalls_step calls returns
      rw [← kind, ← ptr] at tokens
      rw [← kind] at goes
      rw [← ptr] at drop
      exact ⟨ih tokens goes after sees drop, s, after, kind, base, ptr⟩
    constructor
    · intro tokenises
      obtain ⟨s, returns, took⟩ := tokenises 0
      obtain ⟨r, before, next⟩ := lexerCalls_succ returns
      obtain rfl := Except.ok.inj (calls.symm.trans before)
      have readable := back s next took
      have rest : Tokenises text more (k + 1) later := by
        intro n
        rw [← shift]
        exact tokenises (n + 1)
      intro l' member
      rcases List.mem_cons.mp member with rfl | member
      · exact readable
      · exact (onwards readable).1.mp rest l' member
    · intro readable n
      obtain ⟨same, s, after, took⟩ := onwards (readable l List.mem_cons_self)
      cases n with
      | zero => exact ⟨s, after, took⟩
      | succ n =>
        rw [shift]
        exact same.mpr (fun l' member => readable l' (List.mem_cons_of_mem l member)) n

/-- The calls of the lexer on a text return the tokens of the specification if and only if each of
these can be read. -/
theorem tokenises_iff (spelt : equal = ['='] ∨ equal = ['=', '=']) (notIdent : NotIdent more)
    (tokens : Tokens equal .SOF 0 text lexed) :
    Tokenises text more 0 lexed ↔ ∀ l ∈ lexed, l.Readable equal text more := by
  have start : Tokens equal (lexerInit text.length).token (lexerInit text.length).ptr text lexed := tokens
  exact start.run spelt notIdent ⟨nofun, nofun⟩ rfl ((lexerInit_inside text).sees more) rfl

end Low
