import LowCompiler.Lexer.Refinement

/-!
# Calls

`lexerNext_eq`: a call of `lexer_next` is a `scan` of the text up to the end of the
buffer, as long as no number or identifier runs into the end with more of its
kind behind. `lexerNext_fault` is the opposite case.
-/

namespace Low

variable {mem : Memory} {self : Lexer} {c : UInt8} {token : Token} {rest text more : List UInt8}

def Piece.length : Piece → Nat
  | .blank | .garbage _ => 1
  | .comment n => n + 1
  | .token _ n | .unterminated _ n => n

def Piece.kind : Piece → Token
  | .token t _ => t
  | _ => .INVALID

theorem scan_return (returns : (piece token c rest).skipped = none) :
    scan token (c :: rest) =
      ⟨(piece token c rest).kind, c :: rest, (c :: rest).drop (piece token c rest).length⟩ := by
  rw [scan]
  cases found : piece token c rest with
  | token t n => rfl
  | unterminated message n => rfl
  | _ =>
    rw [found] at returns
    cases returns

theorem findToken_some {table : TokenTable} {n : Nat} {t : Token} (found : findToken table text = some (n, t)) :
    ∃ str, (str, t) ∈ table ∧ startsWith str text = true ∧ n = str.length := by
  unfold findToken at found
  obtain ⟨entry, look, same⟩ := Option.map_eq_some_iff.mp found
  obtain ⟨rfl, rfl⟩ := Prod.mk.inj same
  have starts := List.find?_some (p := fun entry : List Char × Token => startsWith entry.1 text) look
  exact ⟨entry.1, List.mem_of_find?_eq_some look, starts, rfl⟩

/-- A symbol is an operator of one of the tables or a comment. -/
theorem symbolPiece_cases {p : Piece} (symbol : symbolPiece text = some p) :
    commentPiece text = some p ∨
      ∃ table ∈ [tokens3, tokens2, tokens1], operatorPiece table text = some p := by
  have given : ∀ {q : Prop} [Decidable q] {a : Option Piece}, (if q then a else none) = some p → a = some p := by
    intro q _ a some
    by_cases holds : q
    · rwa [if_pos holds] at some
    · rw [if_neg holds] at some
      cases some
  unfold symbolPiece at symbol
  rcases Option.or_eq_some_iff.mp symbol with three | ⟨_, symbol⟩
  · exact .inr ⟨tokens3, by simp, given three⟩
  · rcases Option.or_eq_some_iff.mp symbol with two | ⟨_, one⟩
    · rcases Option.or_eq_some_iff.mp (given two) with comment | ⟨_, two⟩
      · exact .inl comment
      · exact .inr ⟨tokens2, by simp, two⟩
    · exact .inr ⟨tokens1, by simp, given one⟩

theorem operatorPiece_some {table : TokenTable} {p : Piece} (operator : operatorPiece table text = some p) :
    ∃ str t, (str, t) ∈ table ∧ startsWith str text = true ∧ p = .token t str.length := by
  unfold operatorPiece at operator
  obtain ⟨⟨n, t⟩, found, rfl⟩ := Option.map_eq_some_iff.mp operator
  obtain ⟨str, member, starts, rfl⟩ := findToken_some found
  exact ⟨str, t, member, starts, rfl⟩

theorem startsWith_le {str : List Char} (starts : startsWith str text = true) : str.length ≤ text.length := by
  have le := (List.isPrefixOf_iff_prefix.mp starts).length_le
  rwa [List.length_map] at le

theorem commentPiece_some {p : Piece} (comment : commentPiece text = some p) :
    (∃ rest, text = '/'.toUInt8 :: '/'.toUInt8 :: rest ∧ p = .comment (lineLength rest + 1)) ∨
      ∃ rest, text = '/'.toUInt8 :: '*'.toUInt8 :: rest ∧ p = .comment (blockLength rest + 1) := by
  have two : ∀ {d : Char}, startsWith ['/', d] text = true → ∃ rest, text = '/'.toUInt8 :: d.toUInt8 :: rest := by
    intro d starts
    obtain ⟨_, rfl, tail⟩ := startsWith_cons.mp starts
    obtain ⟨rest, rfl, _⟩ := startsWith_cons.mp tail
    exact ⟨rest, rfl⟩
  unfold commentPiece at comment
  split at comment
  · rename_i starts
    obtain ⟨rest, rfl⟩ := two starts
    exact .inl ⟨rest, rfl, (Option.some.inj comment).symm⟩
  · split at comment
    · rename_i starts
      obtain ⟨rest, rfl⟩ := two starts
      exact .inr ⟨rest, rfl, (Option.some.inj comment).symm⟩
    · cases comment

theorem symbolPiece_length {p : Piece} (symbol : symbolPiece text = some p) :
    0 < p.length ∧ p.length ≤ text.length := by
  rcases symbolPiece_cases symbol with comment | ⟨table, member, operator⟩
  · rcases commentPiece_some comment with ⟨rest, rfl, rfl⟩ | ⟨rest, rfl, rfl⟩
    · exact ⟨Nat.succ_pos _, Nat.succ_le_succ (Nat.succ_le_succ (lineLength_le rest))⟩
    · exact ⟨Nat.succ_pos _, Nat.succ_le_succ (Nat.succ_le_succ (blockLength_le rest))⟩
  · obtain ⟨str, t, entry, starts, rfl⟩ := operatorPiece_some operator
    have pos : ∀ table ∈ [tokens3, tokens2, tokens1], ∀ entry ∈ table, 0 < entry.1.length := by decide
    exact ⟨pos table member _ entry, startsWith_le starts⟩

/-- The byte `c` is taken by no branch of `lexer_next`. -/
def Garbage (c : UInt8) (rest : List UInt8) : Prop :=
  isWhitespace c = false ∧ symbolPiece (c :: rest) = none ∧ c ≠ '"'.toUInt8 ∧ restTest c = none

theorem lexemePiece_length (token : Token) (c : UInt8) (rest : List UInt8) :
    (lexemePiece token c rest).length ≤ rest.length + 1 := by
  have tail := stringLength_le rest
  have number := (List.takeWhile_prefix (l := rest) isNumberRest).length_le
  have ident := (List.takeWhile_prefix (l := rest) isIdent).length_le
  unfold lexemePiece
  split
  · rcases h : stringLength rest with ⟨_ | message, n⟩ <;> rw [h] at tail <;> exact Nat.succ_le_succ tail
  · split
    · exact Nat.succ_le_succ number
    · split
      · exact Nat.succ_le_succ ident
      · split
        · exact Nat.zero_le _
        · exact Nat.succ_le_succ (Nat.zero_le _)

theorem piece_length_le (token : Token) (c : UInt8) (rest : List UInt8) :
    (piece token c rest).length ≤ rest.length + 1 := by
  unfold piece
  split
  · split <;> exact Nat.succ_le_succ (Nat.zero_le _)
  · cases symbol : symbolPiece (c :: rest) with
    | some p => exact (symbolPiece_length symbol).2
    | none => exact lexemePiece_length token c rest

/-- Only the identifier left by the call before makes a piece of no bytes. -/
theorem piece_length_pos (token : Token) (c : UInt8) (rest : List UInt8) :
    0 < (piece token c rest).length ∨
      token = .IDENT ∧ Garbage c rest ∧ piece token c rest = .token .IDENT 0 := by
  unfold piece
  by_cases white : isWhitespace c = true
  · rw [if_pos white]
    split <;> exact .inl (Nat.succ_pos _)
  · rw [if_neg white]
    cases symbol : symbolPiece (c :: rest) with
    | some p => exact .inl (symbolPiece_length symbol).1
    | none =>
      show 0 < (lexemePiece token c rest).length ∨ _ ∧ _ ∧ lexemePiece token c rest = _
      unfold lexemePiece
      by_cases quote : c = '"'.toUInt8
      · rw [if_pos quote]
        rcases stringLength rest with ⟨_ | message, n⟩ <;> exact .inl (Nat.succ_pos _)
      · by_cases number : isNumberStart c = true
        · rw [if_neg quote, if_pos number]
          exact .inl (Nat.succ_pos _)
        · by_cases ident : isIdentStart c = true
          · rw [if_neg quote, if_neg number, if_pos ident]
            exact .inl (Nat.succ_pos _)
          · rw [if_neg quote, if_neg number, if_neg ident]
            by_cases stale : token = .IDENT
            · rw [if_pos stale]
              have none : restTest c = none := (if_neg number).trans (if_neg ident)
              exact .inr ⟨stale, ⟨Bool.eq_false_iff.mpr white, symbol, quote, none⟩, rfl⟩
            · rw [if_neg stale]
              exact .inl (Nat.succ_pos _)

theorem piece_garbage (garbage : Garbage c rest) : piece .IDENT c rest = .token .IDENT 0 := by
  obtain ⟨white, symbol, quote, none⟩ := garbage
  unfold restTest at none
  have number : isNumberStart c ≠ true := by
    intro number
    rw [if_pos number] at none
    cases none
  have ident : isIdentStart c ≠ true := by
    intro ident
    rw [if_neg number, if_pos ident] at none
    cases none
  unfold piece
  rw [if_neg (Bool.eq_false_iff.mp white), symbol]
  show lexemePiece .IDENT c rest = _
  unfold lexemePiece
  rw [if_neg quote, if_neg number, if_neg ident, if_pos rfl]
  rfl

/-! ### A call -/

/-- Where a number or an identifier met by the call runs to the end, the byte behind ends it. -/
def Bounded (token : Token) (text more : List UInt8) : Prop :=
  ∀ c rest, Skips token text (c :: rest) → RunsToEnd c rest → Delimited more

theorem Bounded.ends (bounded : Bounded token (c :: rest) more) (symbol : symbolPiece (c :: rest) = none) :
    Ends c rest more := by
  intro test isTest all
  obtain ⟨d, head, number, ident⟩ := bounded c rest (.refl _) ⟨symbol, test, isTest, all⟩
  refine ⟨d, head, ?_⟩
  unfold restTest at isTest
  split at isTest
  · obtain rfl := Option.some.inj isTest
    exact number
  · split at isTest
    · obtain rfl := Option.some.inj isTest
      exact ident
    · cases isTest

theorem Bounded.skip {n : Nat} (bounded : Bounded token (c :: rest) more)
    (skipped : (piece token c rest).skipped = some n) : Bounded token (rest.drop n) more :=
  fun d tail skips => bounded d tail (.skip skipped skips)

/-- What a call leaves in the lexer, against the scan of the text. -/
structure Lexer.Returned (mem : Memory) (lexer : Lexer) (scanned : Scanned) (more : List UInt8) : Prop where
  token : lexer.token = scanned.token
  sees : lexer.Sees mem scanned.rest more
  base : lexer.base ≤ lexer.ptr
  lexeme : scanned.token ≠ .EOF → lexer.base + scanned.lexeme.length = lexer.stop

/-- A turn that goes on is a turn that skips. -/
theorem apply_again {p : Piece} {n : Nat} (sees : self.Sees mem (c :: rest) more) (base : self.base ≤ self.ptr)
    (skipped : p.skipped = some n) (bound : p.length ≤ rest.length + 1) :
    ∃ s, self.apply mem p = .again s ∧ s.Sees mem (rest.drop n) more ∧ s.base ≤ s.ptr ∧ s.stop = self.stop ∧
      s.token = self.token := by
  cases p with
  | blank =>
    obtain rfl := Option.some.inj skipped
    refine ⟨self.advance mem 1, rfl, sees.stepped, ?_, Lexer.advance_stop 1, Lexer.advance_token 1⟩
    rw [Lexer.advance_base, Lexer.advance_ptr]
    omega
  | garbage d =>
    obtain rfl := Option.some.inj skipped
    have inside : Lexer.Sees mem { self.start with
        messages := self.messages ++ [.garbage d] } (c :: rest) more := ⟨sees.bytes, sees.stop⟩
    refine ⟨_, rfl, inside.stepped, ?_, Lexer.advance_stop 1, Lexer.advance_token 1⟩
    rw [Lexer.advance_base, Lexer.advance_ptr]
    exact Nat.le_succ self.ptr
  | comment m =>
    obtain rfl := Option.some.inj skipped
    have inside := sees.start.advance bound
    refine ⟨_, rfl, inside, ?_, Lexer.advance_stop _, Lexer.advance_token _⟩
    rw [Lexer.advance_base, Lexer.advance_ptr]
    exact Nat.le_add_right self.ptr _
  | _ => cases skipped

/-- A turn that returns leaves the lexer behind the lexeme. -/
theorem apply_done {p : Piece} (sees : self.Sees mem (c :: rest) more) (skipped : p.skipped = none)
    (bound : p.length ≤ rest.length + 1) :
    ∃ s, self.apply mem p = .done s ∧ s.stop = self.stop ∧ s.base = self.ptr ∧
      s.ptr = self.ptr + p.length ∧ s.Sees mem ((c :: rest).drop p.length) more ∧
      ((∃ n, p = .token s.token n) ∨ ∃ message n, p = .unterminated message n ∧ s.token = .INVALID) := by
  cases p with
  | token t n =>
    have inside := sees.start.advance bound
    exact ⟨_, rfl, Lexer.advance_stop n, Lexer.advance_base n, Lexer.advance_ptr n, ⟨inside.bytes, inside.stop⟩,
      .inl ⟨n, rfl⟩⟩
  | unterminated message n =>
    have inside := sees.start.advance bound
    exact ⟨_, rfl, Lexer.advance_stop n, Lexer.advance_base n, Lexer.advance_ptr n, ⟨inside.bytes, inside.stop⟩,
      .inr ⟨message, n, rfl, rfl⟩⟩
  | _ => cases skipped

theorem lexerLoop_eq {fuel : Nat} (sees : self.Sees mem text more) (bounded : Bounded self.token text more)
    (base : self.base ≤ self.ptr) (enough : text.length < fuel) :
    ∃ s, lexerLoop mem fuel self = .ok s ∧ s.stop = self.stop ∧ s.Returned mem (scan self.token text) more := by
  induction fuel generalizing self text with
  | zero => exact absurd enough (Nat.not_lt_zero _)
  | succ fuel ih =>
    unfold lexerLoop
    cases text with
    | nil =>
      refine ⟨{ self with token := .EOF }, if_pos sees.eq_stop, rfl, ?_⟩
      rw [scan]
      exact ⟨rfl, ⟨sees.bytes, sees.stop⟩, base, fun ne => absurd rfl ne⟩
    | cons c rest =>
      have bound := piece_length_le self.token c rest
      rw [if_neg sees.ne_stop, lexerTurn_eq sees bounded.ends]
      cases skipped : (piece self.token c rest).skipped with
      | some n =>
        obtain ⟨s, again, inside, base, stop, token⟩ := apply_again sees base skipped bound
        have enough : (rest.drop n).length < fuel := by
          rw [List.length_drop]
          rw [List.length_cons] at enough
          omega
        obtain ⟨r, loop, same, returned⟩ := ih inside (token ▸ bounded.skip skipped) base enough
        rw [token] at returned
        refine ⟨r, ?_, same.trans stop, scan_skip skipped ▸ returned⟩
        rw [again]
        exact loop
      | none =>
        obtain ⟨s, done, stop, base, ptr, inside, found⟩ := apply_done sees skipped bound
        have whole : s.base + (c :: rest).length = s.stop := by rw [base, stop, sees.stop]
        have le : s.base ≤ s.ptr := by omega
        refine ⟨s, ?_, stop, ?_⟩
        · rw [done]
          rfl
        · rw [scan]
          rcases found with ⟨n, found⟩ | ⟨message, n, found, token⟩
          · rw [found] at inside ⊢
            exact ⟨rfl, inside, le, fun _ => whole⟩
          · rw [found] at inside ⊢
            exact ⟨token, inside, le, fun _ => whole⟩

/-- A call runs into the end of the buffer: it goes on, and meets a number or an identifier there. -/
def Overruns (token : Token) (text : List UInt8) : Prop :=
  (token ≠ .INVALID ∧ token ≠ .EOF) ∧ ∃ c rest, Skips token text (c :: rest) ∧ RunsToEnd c rest

theorem ends_of_skipped {n : Nat} (skipped : (piece token c rest).skipped = some n)
    (symbol : symbolPiece (c :: rest) = none) : Ends c rest more := by
  have none : restTest c = none := by
    unfold piece at skipped
    by_cases white : isWhitespace c = true
    · exact restTest_none_of_blank (.inl white)
    · rw [if_neg white, symbol] at skipped
      replace skipped : (lexemePiece token c rest).skipped = some n := skipped
      unfold lexemePiece at skipped
      by_cases quote : c = '"'.toUInt8
      · exact restTest_none_of_blank (.inr quote)
      · unfold restTest
        by_cases number : isNumberStart c = true
        · rw [if_neg quote, if_pos number] at skipped
          cases skipped
        · by_cases ident : isIdentStart c = true
          · rw [if_neg quote, if_neg number, if_pos ident] at skipped
            cases skipped
          · rw [if_neg number, if_neg ident]
  intro test isTest
  rw [none] at isTest
  cases isTest

/-- The loop comes to the word that the call skips to. -/
theorem lexerLoop_word {fuel : Nat} (sees : self.Sees mem text more) (base : self.base ≤ self.ptr)
    (skips : Skips self.token text (c :: rest)) (enough : text.length < fuel) :
    ∃ turns s, lexerLoop mem fuel self = lexerLoop mem (turns + 1) s ∧ s.Sees mem (c :: rest) more ∧
      s.stop = self.stop := by
  induction fuel generalizing self text with
  | zero => exact absurd enough (Nat.not_lt_zero _)
  | succ fuel ih =>
    cases skips with
    | refl => exact ⟨fuel, self, rfl, sees, rfl⟩
    | @skip d n tail _ skipped skips =>
      obtain ⟨s, again, inside, base, stop, token⟩ :=
        apply_again sees base skipped (piece_length_le self.token d tail)
      have enough : (tail.drop n).length < fuel := by
        rw [List.length_drop]
        rw [List.length_cons] at enough
        omega
      obtain ⟨turns, r, loop, there, same⟩ := ih inside base (token ▸ skips) enough
      refine ⟨turns, r, ?_, there, same.trans stop⟩
      rw [lexerLoop, if_neg sees.ne_stop, lexerTurn_eq sees (ends_of_skipped skipped), again]
      exact loop

theorem lexerLoop_fault {fuel : Nat} (sees : self.Sees mem text []) (base : self.base ≤ self.ptr)
    (skips : Skips self.token text (c :: rest)) (runs : RunsToEnd c rest) (enough : text.length < fuel) :
    lexerLoop mem fuel self = .error (.read self.stop) := by
  obtain ⟨turns, s, loop, there, stop⟩ := lexerLoop_word sees base skips enough
  rw [loop, lexerLoop, if_neg there.ne_stop, lexerTurn_fault there runs, ← stop]
  rfl

theorem lexerNext_eq (sees : self.Sees mem text more) (base : self.base ≤ self.ptr)
    (goes : self.token ≠ .INVALID ∧ self.token ≠ .EOF) (bounded : Bounded self.token text more) :
    ∃ s, lexerNext mem self = .ok s ∧ s.stop = self.stop ∧ s.Returned mem (scan self.token text) more := by
  have stop := sees.stop
  unfold lexerNext
  rw [if_neg (by omega), if_neg fun ended => ended.elim goes.1 goes.2]
  exact lexerLoop_eq sees bounded base (by omega)

theorem lexerNext_ended (within : self.ptr ≤ self.stop) (ended : self.token = .INVALID ∨ self.token = .EOF) :
    lexerNext mem self = .ok self := by
  unfold lexerNext
  rw [if_neg (Nat.not_lt.mpr within), if_pos ended]

/-- With nothing to read behind the buffer, a call that runs into its end faults. -/
theorem lexerNext_fault (sees : self.Sees mem text []) (base : self.base ≤ self.ptr)
    (overruns : Overruns self.token text) : lexerNext mem self = .error (.read self.stop) := by
  obtain ⟨goes, c, rest, skips, runs⟩ := overruns
  have stop := sees.stop
  unfold lexerNext
  rw [if_neg (by omega), if_neg fun ended => ended.elim goes.1 goes.2]
  exact lexerLoop_fault sees base skips runs (by omega)

/-! ### The run -/

structure Lexer.Inside (buffer : List UInt8) (lexer : Lexer) : Prop where
  base : lexer.base ≤ lexer.ptr
  ptr : lexer.ptr ≤ buffer.length
  stop : lexer.stop = buffer.length

variable {buffer : List UInt8}

theorem lexerInit_inside (buffer : List UInt8) : (lexerInit buffer.length).Inside buffer :=
  ⟨Nat.le_refl 0, Nat.zero_le _, rfl⟩

theorem Lexer.Inside.sees (inside : self.Inside buffer) (more : List UInt8) :
    self.Sees (buffer ++ more) (buffer.drop self.ptr) more := by
  have ptr := inside.ptr
  have stop := inside.stop
  refine ⟨List.drop_append_of_le_length ptr, ?_⟩
  rw [List.length_drop]
  omega

/-- What is seen from inside the buffer is the rest of the buffer. -/
theorem Lexer.Sees.rest_eq (sees : self.Sees (buffer ++ more) text more) (stop : self.stop = buffer.length) :
    self.ptr ≤ buffer.length ∧ text = buffer.drop self.ptr := by
  have length := sees.stop
  have bytes := sees.bytes
  have within : self.ptr ≤ buffer.length := by omega
  rw [List.drop_append_of_le_length within] at bytes
  exact ⟨within, (List.append_cancel_right bytes).symm⟩

theorem Lexer.Returned.inside {scanned : Scanned} (returned : self.Returned (buffer ++ more) scanned more)
    (stop : self.stop = buffer.length) : self.Inside buffer :=
  ⟨returned.base, (returned.sees.rest_eq stop).1, stop⟩

theorem lexerNext_inside (inside : self.Inside buffer)
    (bounded : Bounded self.token (buffer.drop self.ptr) more) :
    ∃ s, lexerNext (buffer ++ more) self = .ok s ∧ s.Inside buffer := by
  by_cases ended : self.token = .INVALID ∨ self.token = .EOF
  · exact ⟨self, lexerNext_ended (inside.stop ▸ inside.ptr) ended, inside⟩
  · obtain ⟨s, next, stop, returned⟩ := lexerNext_eq (inside.sees more) inside.base (not_or.mp ended) bounded
    exact ⟨s, next, returned.inside (stop.trans inside.stop)⟩

theorem lexerCalls_succ {len n : Nat} {s : Lexer} (calls : lexerCalls mem len (n + 1) = .ok s) :
    ∃ r, lexerCalls mem len n = .ok r ∧ lexerNext mem r = .ok s := by
  unfold lexerCalls at calls
  cases before : lexerCalls mem len n with
  | error fault =>
    rw [before] at calls
    cases calls
  | ok r =>
    rw [before] at calls
    exact ⟨r, rfl, calls⟩

theorem lexerCalls_step {len n : Nat} {r s : Lexer} (calls : lexerCalls mem len n = .ok r)
    (next : lexerNext mem r = .ok s) : lexerCalls mem len (n + 1) = .ok s := by
  unfold lexerCalls
  rw [calls]
  exact next

end Low
