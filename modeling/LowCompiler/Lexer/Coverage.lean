import LowCompiler.Lexer.Locations
import Mathlib.Logic.Relation

/-!
# The bytes of a run

Where each byte of the buffer goes: into a lexeme, into a comment, or between them as a
blank or as reported garbage. `is_whitespace` compares signed characters, so that the
bytes from 0x80 on pass as blanks, and nothing is said about them.
-/

namespace Low

variable {mem : Memory} {self s s' t t' : Lexer} {turn : LexerTurn} {token : Token} {c : UInt8}
  {rest more buffer : List UInt8}

/-! ### What a turn takes -/

/-- A line comment with its newline, or a block comment with its end. At the end of the buffer
either may be missing. -/
def IsComment (bytes : List UInt8) : Prop :=
  ∃ rest, bytes = '/'.toUInt8 :: '/'.toUInt8 :: rest ∧ lineLength rest = rest.length ∨
    bytes = '/'.toUInt8 :: '*'.toUInt8 :: rest ∧ blockLength rest = rest.length

theorem lineLength_take (text : List UInt8) : lineLength (text.take (lineLength text)) = lineLength text := by
  induction text with
  | nil => rfl
  | cons c rest ih =>
    by_cases newline : c = '\n'.toUInt8
    · simp [lineLength, newline]
    · simp [lineLength, newline, ih]

theorem blockLength_take (text : List UInt8) :
    blockLength (text.take (blockLength text)) = blockLength text := by
  induction text with
  | nil => rfl
  | cons c rest ih =>
    by_cases close : c = '*'.toUInt8 ∧ rest.head? = some '/'.toUInt8
    · obtain ⟨rfl, head⟩ := close
      cases rest with
      | nil => cases head
      | cons d rest =>
        obtain rfl := Option.some.inj head
        rfl
    · have skip : blockLength (c :: rest) = blockLength rest + 1 := if_neg close
      have other : ¬ (c = '*'.toUInt8 ∧ (rest.take (blockLength rest)).head? = some '/'.toUInt8) := by
        rintro ⟨star, head⟩
        apply close
        refine ⟨star, ?_⟩
        rw [List.head?_take] at head
        split at head
        · cases head
        · exact head
      rw [skip, List.take_succ_cons]
      exact (if_neg other).trans (congrArg (· + 1) ih)

theorem isComment_taken {n : Nat} (comment : commentPiece (c :: rest) = some (.comment n)) :
    IsComment ((c :: rest).take (n + 1)) ∧ 0 < n := by
  rcases commentPiece_some comment with ⟨tail, same, found⟩ | ⟨tail, same, found⟩
  · obtain rfl := Piece.comment.inj found
    rw [same]
    refine ⟨⟨tail.take (lineLength tail), .inl ⟨rfl, ?_⟩⟩, Nat.succ_pos _⟩
    rw [lineLength_take, List.length_take_of_le (lineLength_le tail)]
  · obtain rfl := Piece.comment.inj found
    rw [same]
    refine ⟨⟨tail.take (blockLength tail), .inr ⟨rfl, ?_⟩⟩, Nat.succ_pos _⟩
    rw [blockLength_take, List.length_take_of_le (blockLength_le tail)]

theorem IsComment.two {bytes : List UInt8} (comment : IsComment bytes) : 2 ≤ bytes.length := by
  obtain ⟨rest, ⟨rfl, _⟩ | ⟨rfl, _⟩⟩ := comment <;> exact Nat.le_add_left 2 rest.length

theorem ascii_of_visible (visible : isWhitespace c = false) : c < 0x80 := by
  unfold isWhitespace at visible
  rw [Bool.or_eq_false_iff] at visible
  exact UInt8.not_le.mp (of_decide_eq_false visible.2)

/-- What a turn of the loop has done at the byte `c`. -/
inductive TurnAt (self : Lexer) (c : UInt8) (rest : List UInt8) : LexerTurn → Prop where
  | blank {s : Lexer} : isWhitespace c = true → s.ptr = self.ptr + 1 → s.messages = self.messages →
      s.token = self.token → TurnAt self c rest (.again s)
  | comment {s : Lexer} (n : Nat) : c < 0x80 → s.ptr = self.ptr + n → 0 < n → n ≤ rest.length + 1 →
      IsComment ((c :: rest).take n) → s.messages = self.messages → s.token = self.token → TurnAt self c rest (.again s)
  | garbage {s : Lexer} : c < 0x80 → s.ptr = self.ptr + 1 → s.messages = self.messages ++ [.garbage c] →
      s.token = self.token → TurnAt self c rest (.again s)
  | lexeme {s : Lexer} : c < 0x80 → s.base = self.ptr → self.ptr < s.ptr → s.token ≠ .EOF →
      (s.token = .INVALID → s.ptr = s.stop) → TurnAt self c rest (.done s)
  | stale {s : Lexer} : self.token = .IDENT → Garbage c rest → s.base = self.ptr → s.ptr = self.ptr →
      s.token = .IDENT → TurnAt self c rest (.done s)

theorem operator_goes {table : TokenTable} (member : table ∈ [tokens3, tokens2, tokens1]) {entry : List Char × Token}
    (line : entry ∈ table) : entry.2 ≠ .INVALID ∧ entry.2 ≠ .EOF := by
  have all : ∀ table ∈ [tokens3, tokens2, tokens1], ∀ entry ∈ table, entry.2 ≠ .INVALID ∧ entry.2 ≠ .EOF := by decide
  exact all table member entry line

theorem token_at {t : Token} {n : Nat} (ascii : c < 0x80) (pos : 0 < n) (goes : t ≠ .INVALID ∧ t ≠ .EOF) :
    TurnAt self c rest (self.apply mem (.token t n)) := by
  apply TurnAt.lexeme ascii
  · exact Lexer.advance_base n
  · show self.ptr < (self.start.advance mem n).ptr
    rw [Lexer.advance_ptr]
    exact Nat.lt_add_of_pos_right pos
  · exact goes.2
  · intro invalid
    exact absurd invalid goes.1

theorem symbol_at {p : Piece} (visible : isWhitespace c = false) (symbol : symbolPiece (c :: rest) = some p) :
    TurnAt self c rest (self.apply mem p) := by
  have ascii := ascii_of_visible visible
  have length := symbolPiece_length symbol
  rcases symbolPiece_cases symbol with comment | ⟨table, member, operator⟩
  · have found : ∃ n, p = .comment n := by
      rcases commentPiece_some comment with ⟨_, _, found⟩ | ⟨_, _, found⟩
      · exact ⟨_, found⟩
      · exact ⟨_, found⟩
    obtain ⟨n, rfl⟩ := found
    obtain ⟨comment, _⟩ := isComment_taken comment
    exact .comment (n + 1) ascii (Lexer.advance_ptr _) (Nat.succ_pos n) length.2 comment
      (Lexer.advance_messages _) (Lexer.advance_token _)
  · obtain ⟨str, t, line, _, rfl⟩ := operatorPiece_some operator
    exact token_at ascii length.1 (operator_goes member line)

theorem lexeme_at (sees : self.Sees mem (c :: rest) more) (visible : isWhitespace c = false)
    (symbol : symbolPiece (c :: rest) = none) :
    TurnAt self c rest (self.apply mem (lexemePiece self.token c rest)) := by
  have ascii := ascii_of_visible visible
  unfold lexemePiece
  by_cases quote : c = '"'.toUInt8
  · rw [if_pos quote]
    rcases closed : stringLength rest with ⟨_ | message, n⟩
    · exact token_at ascii (Nat.succ_pos n) ⟨nofun, nofun⟩
    · -- an open string takes the rest of the buffer
      have whole : n = rest.length := by
        have opened : (stringLength rest).1 ≠ none := by
          rw [closed]
          exact Option.some_ne_none message
        have whole := stringLength_open opened
        rwa [closed] at whole
      apply TurnAt.lexeme ascii
      · exact Lexer.advance_base (n + 1)
      · show self.ptr < (self.start.advance mem (n + 1)).ptr
        rw [Lexer.advance_ptr]
        exact Nat.lt_add_of_pos_right (Nat.succ_pos n)
      · exact nofun
      · intro _
        show (self.start.advance mem (n + 1)).ptr = (self.start.advance mem (n + 1)).stop
        rw [Lexer.advance_ptr, Lexer.advance_stop, whole]
        exact sees.stop.symm
  · rw [if_neg quote]
    by_cases number : isNumberStart c = true
    · rw [if_pos number]
      exact token_at ascii (Nat.succ_pos _) ⟨nofun, nofun⟩
    · rw [if_neg number]
      by_cases ident : isIdentStart c = true
      · have kind := wordToken_kind (c :: rest.takeWhile isIdent)
        rw [if_pos ident, checkKeywords_eq]
        exact token_at ascii (Nat.succ_pos _) ⟨kind.1, kind.2.1⟩
      · rw [if_neg ident]
        by_cases stale : self.token = .IDENT
        · have garbage : Garbage c rest := ⟨visible, symbol, quote, (if_neg number).trans (if_neg ident)⟩
          rw [if_pos stale]
          exact .stale stale garbage rfl rfl rfl
        · rw [if_neg stale]
          exact .garbage ascii (Lexer.advance_ptr 1) (Lexer.advance_messages 1) (Lexer.advance_token 1)

theorem piece_at (sees : self.Sees mem (c :: rest) more) :
    TurnAt self c rest (self.apply mem (piece self.token c rest)) := by
  unfold piece
  by_cases white : isWhitespace c = true
  · rw [if_pos white]
    by_cases newline : c = '\n'.toUInt8 ∧ self.token ∈ terminators
    · rw [if_pos newline]
      apply token_at
      · rw [newline.1]
        decide
      · exact Nat.one_pos
      · exact ⟨nofun, nofun⟩
    · rw [if_neg newline]
      exact .blank white (Lexer.advance_ptr 1) (Lexer.advance_messages 1) (Lexer.advance_token 1)
  · have visible := Bool.eq_false_iff.mpr white
    rw [if_neg white]
    cases symbol : symbolPiece (c :: rest) with
    | some p => exact symbol_at visible symbol
    | none => exact lexeme_at sees visible symbol

/-! ### Words behind the end of the buffer -/

theorem consumeWhile_ptr {test : UInt8 → Bool} {fuel : Nat} (loop : consumeWhile mem test fuel self = .ok s) :
    self.ptr ≤ s.ptr ∧ s.stop = self.stop := by
  induction fuel generalizing self with
  | zero => cases loop
  | succ fuel ih =>
    unfold consumeWhile at loop
    cases read : deref mem self.ptr with
    | error fault =>
      rw [read] at loop
      cases loop
    | ok c =>
      rw [read] at loop
      replace loop : (if test c = true then _ else _) = Except.ok s := loop
      by_cases pass : test c = true
      · rw [if_pos pass] at loop
        cases step : lexerStep mem self with
        | error fault =>
          rw [step] at loop
          cases loop
        | ok r =>
          rw [step] at loop
          obtain rfl := lexerStep_stepped step
          obtain ⟨le, stop⟩ := ih loop
          rw [Lexer.stepped_ptr] at le
          exact ⟨Nat.le_of_succ_le le, stop.trans Lexer.stepped_stop⟩
      · rw [if_neg pass] at loop
        obtain rfl := Except.ok.inj loop
        exact ⟨Nat.le_refl _, rfl⟩

theorem lexerStep_reads (look : mem[self.ptr]? = some c) : lexerStep mem self = .ok (self.stepped mem) := by
  cases step : lexerStep mem self with
  | ok r => rw [lexerStep_stepped step]
  | error fault =>
    unfold lexerStep deref at step
    rw [look] at step
    replace step : (if self.ptr = self.stop then _ else (if c = '\n'.toUInt8 then _ else _)) = Except.error fault := step
    split at step
    · cases step
    · split at step <;> cases step

theorem getElem_of_drop {text : List UInt8} {i : Nat} (here : text.drop i = c :: rest) : text[i]? = some c := by
  have head : (text.drop i)[0]? = some c := by rw [here]; rfl
  rwa [List.getElem?_drop] at head

/-- The loop takes the bytes that pass, in the buffer and behind it, if there is one that ends it. -/
theorem consumeWhile_takes {test : UInt8 → Bool} {fuel : Nat} {text : List UInt8} (bytes : mem.drop self.ptr = text)
    (enough : text.length < fuel) :
    consumeWhile mem test fuel self =
      if text.all test then .error (.read (self.ptr + text.length))
      else .ok (self.advance mem (text.takeWhile test).length) := by
  induction fuel generalizing self text with
  | zero => exact absurd enough (Nat.not_lt_zero _)
  | succ fuel ih =>
    unfold consumeWhile deref
    cases text with
    | nil =>
      rw [List.getElem?_eq_none (List.drop_eq_nil_iff.mp bytes)]
      rfl
    | cons c tail =>
      have look := getElem_of_drop bytes
      rw [look]
      show (if test c = true then _ else _) = _
      by_cases pass : test c = true
      · have behind : mem.drop (self.stepped mem).ptr = tail := by
          rw [Lexer.stepped_ptr, ← List.drop_drop, bytes]
          rfl
        rw [if_pos pass, lexerStep_reads look]
        refine (ih behind (Nat.lt_of_succ_lt_succ enough)).trans ?_
        rw [List.all_cons, pass, Bool.true_and, List.takeWhile_cons_of_pos pass, Lexer.stepped_ptr, List.length_cons,
          Nat.add_right_comm, Nat.add_assoc]
        rfl
      · have fails : (c :: tail).all test = false := by simp [pass]
        rw [if_neg pass, fails, List.takeWhile_cons_of_neg pass]
        rfl

/-- A number or an identifier at the front ends, in the buffer or behind it. -/
def Closes (c : UInt8) (rest more : List UInt8) : Prop :=
  symbolPiece (c :: rest) = none → ∀ test ∈ restTest c, ∃ d ∈ rest ++ more, test d = false

theorem lexerTurn_at (sees : self.Sees mem (c :: rest) more) (returns : lexerTurn mem self = .ok turn) :
    TurnAt self c rest turn ∧ turn.state.stop = self.stop := by
  by_cases ends : symbolPiece (c :: rest) = none → Ends c rest more
  · rw [lexerTurn_eq sees ends] at returns
    obtain rfl := Except.ok.inj returns
    refine ⟨piece_at sees, ?_⟩
    cases piece self.token c rest with
    | _ => exact Lexer.advance_stop _
  · -- the loop leaves the buffer
    rw [Classical.not_imp] at ends
    obtain ⟨symbol, runs⟩ := ends
    cases word : restTest c with
    | none =>
      apply absurd _ runs
      intro test isTest
      rw [word] at isTest
      cases isTest
    | some test =>
      obtain ⟨r, t, loop, rfl, _, invalid, eof⟩ := lexerTurn_loop sees symbol word returns
      obtain ⟨base, _⟩ := consumeWhile_stops loop
      obtain ⟨le, stop⟩ := consumeWhile_ptr loop
      rw [Lexer.stepped_ptr] at le
      refine ⟨.lexeme (ascii_of_visible (not_blank word).1) (base.trans Lexer.stepped_base) le eof ?_, ?_⟩
      · intro other
        exact absurd other invalid
      · exact stop.trans Lexer.stepped_stop

/-- A turn returns if and only if a word at the front ends somewhere. -/
theorem lexerTurn_returns (sees : self.Sees mem (c :: rest) more) :
    (∃ turn, lexerTurn mem self = .ok turn) ↔ Closes c rest more := by
  constructor
  · intro ⟨turn, returns⟩ symbol test word
    obtain ⟨r, t, loop, _⟩ := lexerTurn_loop sees symbol word returns
    obtain ⟨_, d, look, fails⟩ := consumeWhile_stops loop
    have le := (consumeWhile_ptr loop).1
    refine ⟨d, ?_, fails⟩
    have bytes := sees.start.stepped.bytes
    rw [← Nat.add_sub_cancel' le, ← List.getElem?_drop, bytes] at look
    exact List.mem_of_getElem? look
  · intro closes
    by_cases word : symbolPiece (c :: rest) = none ∧ ∃ test, restTest c = some test
    · obtain ⟨symbol, test, word⟩ := word
      have bytes := sees.start.stepped.bytes
      have enough : (rest ++ more).length < mem.length - (self.start.stepped mem).ptr + 1 := by
        rw [← bytes, List.length_drop]
        omega
      obtain ⟨d, member, fails⟩ := closes symbol test word
      have stops : ¬ (rest ++ more).all test = true := fun all => by
        rw [List.all_eq_true.mp all d member] at fails
        cases fails
      rw [lexerTurn_word_eq sees symbol word, consumeWhile_takes bytes enough, if_neg stops]
      exact ⟨_, rfl⟩
    · have ends : symbolPiece (c :: rest) = none → Ends c rest more := by
        intro symbol test isTest
        exact absurd ⟨symbol, test, isTest⟩ word
      exact ⟨_, lexerTurn_eq sees ends⟩

/-! ### Turns -/

structure Lexer.Turning (s : Lexer) : Prop where
  token : s.token ≠ .INVALID ∧ s.token ≠ .EOF
  ptr : s.ptr < s.stop

/-- From the state in which one turn begins to that of the next one, in the same call or in the one
after. -/
def Turns (mem : Memory) (s s' : Lexer) : Prop :=
  s.Turning ∧ ∃ turn, lexerTurn mem s = .ok turn ∧ turn.state = s'

def Visited (buffer more : List UInt8) (s : Lexer) : Prop :=
  Relation.ReflTransGen (Turns (buffer ++ more)) (lexerInit buffer.length) s

/-- A garbage byte is met with an identifier left in the token. -/
structure Lexer.Stale (buffer : List UInt8) (s : Lexer) : Prop where
  token : s.token = .IDENT
  garbage : ∃ c rest, buffer.drop s.ptr = c :: rest ∧ Garbage c rest

theorem turns_unique : Relator.RightUnique (Turns mem) := by
  rintro s t t' ⟨_, turn, returns, rfl⟩ ⟨_, turn', returns', rfl⟩
  rw [Except.ok.inj (returns.symm.trans returns')]

theorem Lexer.Turning.sees_at (turning : s.Turning) (stop : s.stop = buffer.length) (more : List UInt8)
    (here : buffer.drop s.ptr = c :: rest) : s.Sees (buffer ++ more) (c :: rest) more := by
  have within : s.ptr < buffer.length := stop ▸ turning.ptr
  rw [← here]
  refine ⟨List.drop_append_of_le_length (Nat.le_of_lt within), ?_⟩
  rw [List.length_drop, stop]
  omega

theorem Lexer.Turning.sees (turning : s.Turning) (stop : s.stop = buffer.length) (more : List UInt8) :
    ∃ c rest, buffer.drop s.ptr = c :: rest ∧ s.Sees (buffer ++ more) (c :: rest) more := by
  have here := List.drop_eq_getElem_cons (stop ▸ turning.ptr : s.ptr < buffer.length)
  exact ⟨_, _, here, turning.sees_at stop more here⟩

/-- Where a turn goes on it has moved, and stays in the buffer. -/
theorem TurnAt.again (sees : self.Sees mem (c :: rest) more) (found : TurnAt self c rest (.again s)) :
    self.ptr < s.ptr ∧ s.ptr ≤ self.stop ∧ s.token = self.token := by
  have stop := sees.stop
  rw [List.length_cons] at stop
  cases found with
  | blank _ ptr _ token =>
    exact ⟨by omega, by omega, token⟩
  | comment n _ ptr pos bound _ _ token =>
    exact ⟨by omega, by omega, token⟩
  | garbage _ ptr _ token =>
    exact ⟨by omega, by omega, token⟩

theorem TurnAt.moves (found : TurnAt self c rest turn) :
    self.ptr < turn.state.ptr ∨ turn.state.ptr = self.ptr ∧ self.token = .IDENT ∧ Garbage c rest := by
  cases found with
  | blank _ ptr => exact .inl (ptr ▸ Nat.lt_succ_self _)
  | comment n _ ptr pos => exact .inl (ptr ▸ Nat.lt_add_of_pos_right pos)
  | garbage _ ptr => exact .inl (ptr ▸ Nat.lt_succ_self _)
  | lexeme _ _ lt => exact .inl lt
  | stale ident garbage _ ptr => exact .inr ⟨ptr, ident, garbage⟩

theorem TurnAt.ended (found : TurnAt self c rest turn) (goes : self.token ≠ .INVALID ∧ self.token ≠ .EOF)
    (ended : turn.state.token = .INVALID ∨ turn.state.token = .EOF) : turn.state.ptr = turn.state.stop := by
  have same {s : Lexer} (token : s.token = self.token) (ended : s.token = .INVALID ∨ s.token = .EOF) :
      s.ptr = s.stop := by
    rw [token] at ended
    exact absurd ended (not_or.mpr goes)
  cases found with
  | blank _ _ _ token => exact same token ended
  | comment _ _ _ _ _ _ _ token => exact same token ended
  | garbage _ _ _ token => exact same token ended
  | lexeme _ _ _ eof closed => exact closed (ended.resolve_right eof)
  | stale ident _ _ _ token => exact same (token.trans ident.symm) ended

theorem Turns.moves (turns : Turns (buffer ++ more) s s') (stop : s.stop = buffer.length) :
    s'.stop = buffer.length ∧ (s.ptr < s'.ptr ∨ s'.ptr = s.ptr ∧ s.Stale buffer) := by
  obtain ⟨turning, turn, returns, rfl⟩ := turns
  obtain ⟨c, rest, here, sees⟩ := turning.sees stop more
  obtain ⟨found, same⟩ := lexerTurn_at sees returns
  refine ⟨same.trans stop, ?_⟩
  rcases found.moves with lt | ⟨ptr, ident, garbage⟩
  · exact .inl lt
  · exact .inr ⟨ptr, ident, c, rest, here, garbage⟩

theorem run_moves (run : Relation.ReflTransGen (Turns (buffer ++ more)) s t) (stop : s.stop = buffer.length) :
    t.stop = buffer.length ∧ s.ptr ≤ t.ptr := by
  induction run with
  | refl => exact ⟨stop, Nat.le_refl _⟩
  | tail _ turns ih =>
    obtain ⟨stop, le⟩ := ih
    obtain ⟨stop', moved⟩ := turns.moves stop
    refine ⟨stop', ?_⟩
    rcases moved with lt | ⟨same, _⟩
    · exact Nat.le_trans le (Nat.le_of_lt lt)
    · exact same ▸ le

theorem Visited.stop (visited : Visited buffer more s) : s.stop = buffer.length := (run_moves visited rfl).1

/-- A turn at stale garbage comes back to it. -/
theorem Lexer.Stale.turns (stale : s.Stale buffer) (turns : Turns (buffer ++ more) s s')
    (stop : s.stop = buffer.length) : s'.Stale buffer ∧ s'.ptr = s.ptr := by
  obtain ⟨turning, turn, returns, rfl⟩ := turns
  obtain ⟨c, rest, here, garbage⟩ := stale.garbage
  have sees := turning.sees_at stop more here
  have ends : symbolPiece (c :: rest) = none → Ends c rest more := by
    intro _ test word
    rw [garbage.2.2.2] at word
    cases word
  rw [lexerTurn_eq sees ends, stale.token, piece_garbage garbage] at returns
  obtain rfl := Except.ok.inj returns
  exact ⟨⟨rfl, c, rest, here, garbage⟩, rfl⟩

theorem Lexer.Stale.run (stale : s.Stale buffer) (run : Relation.ReflTransGen (Turns (buffer ++ more)) s t)
    (stop : s.stop = buffer.length) : t.Stale buffer ∧ t.ptr = s.ptr := by
  induction run with
  | refl => exact ⟨stale, rfl⟩
  | tail before turns ih =>
    obtain ⟨again, same⟩ := ih
    obtain ⟨last, ptr⟩ := again.turns turns (run_moves before stop).1
    exact ⟨last, ptr.trans same⟩

/-- The turn that passes the place of another one is this one. -/
theorem Visited.unique (visited : Visited buffer more s) (other : Visited buffer more t)
    (turns : Turns (buffer ++ more) t t') (le : t.ptr ≤ s.ptr) (lt : s.ptr < t'.ptr) : t = s := by
  have stop := visited.stop
  rcases Relation.ReflTransGen.total_of_right_unique turns_unique other visited with run | run
  · rcases run.cases_head with same | ⟨u, first, later⟩
    · exact same
    · obtain rfl := turns_unique first turns
      exact absurd (run_moves later (turns.moves other.stop).1).2 (Nat.not_le.mpr lt)
  · rcases run.cases_head with same | ⟨u, first, later⟩
    · exact same.symm
    · obtain ⟨stop', moved⟩ := first.moves stop
      have behind := (run_moves later stop').2
      rcases moved with far | ⟨_, stale⟩
      · omega
      · -- the run never leaves stale garbage
        obtain ⟨stale', same⟩ := stale.run run stop
        have still := (stale'.turns turns other.stop).2
        omega

theorem lexerLoop_turn (turning : s.Turning) (fuel : Nat) :
    (∀ s', lexerTurn mem s = .ok (.again s') → lexerLoop mem (fuel + 1) s = lexerLoop mem fuel s') ∧
      ∀ s', lexerTurn mem s = .ok (.done s') → lexerLoop mem (fuel + 1) s = .ok s' := by
  have inside : ¬ s.ptr = s.stop := Nat.ne_of_lt turning.ptr
  constructor
  · intro s' returns
    rw [lexerLoop, if_neg inside, returns]
    rfl
  · intro s' returns
    rw [lexerLoop, if_neg inside, returns]
    rfl

theorem lexerNext_loop (turning : s.Turning) : lexerNext mem s = lexerLoop mem (s.stop - s.ptr + 1) s := by
  unfold lexerNext
  rw [if_neg (Nat.not_lt.mpr (Nat.le_of_lt turning.ptr)), if_neg fun ended => ended.elim turning.token.1 turning.token.2]

def Underway (mem : Memory) (len : Nat) (s : Lexer) : Prop :=
  ∃ n, lexerCalls mem len n = .ok s ∨
    ∃ fuel, s.stop - s.ptr < fuel ∧ lexerCalls mem len (n + 1) = lexerLoop mem fuel s

theorem Underway.loop {len : Nat} (underway : Underway mem len s) (turning : s.Turning) :
    ∃ n fuel, s.stop - s.ptr < fuel + 1 ∧ lexerCalls mem len (n + 1) = lexerLoop mem (fuel + 1) s := by
  obtain ⟨n, calls | ⟨fuel, enough, calls⟩⟩ := underway
  · refine ⟨n, s.stop - s.ptr, Nat.lt_succ_self _, ?_⟩
    rw [← lexerNext_loop turning, lexerCalls, calls]
    rfl
  · obtain ⟨fuel, rfl⟩ := Nat.exists_eq_add_one.mpr (Nat.zero_lt_of_lt enough)
    exact ⟨n, fuel, enough, calls⟩

theorem Underway.returned {len : Nat} (underway : Underway mem len s) (turning : s.Turning)
    (returns : lexerTurn mem s = .ok (.done s')) : ∃ n, lexerCalls mem len n = .ok s' := by
  obtain ⟨n, fuel, _, calls⟩ := underway.loop turning
  exact ⟨n + 1, calls.trans ((lexerLoop_turn turning fuel).2 s' returns)⟩

theorem Visited.underway (visited : Visited buffer more s) : Underway (buffer ++ more) buffer.length s := by
  induction visited with
  | refl => exact ⟨0, .inl rfl⟩
  | @tail s s' before turns ih =>
    obtain ⟨turning, turn, returns, rfl⟩ := turns
    cases turn with
    | done s' =>
      obtain ⟨n, calls⟩ := ih.returned turning returns
      exact ⟨n, .inl calls⟩
    | again s' =>
      obtain ⟨n, fuel, enough, calls⟩ := ih.loop turning
      obtain ⟨c, rest, _, sees⟩ := turning.sees (Visited.stop before) more
      obtain ⟨found, stop⟩ := lexerTurn_at sees returns
      obtain ⟨lt, le, _⟩ := found.again sees
      refine ⟨n, .inr ⟨fuel, ?_, calls.trans ((lexerLoop_turn turning fuel).1 s' returns)⟩⟩
      show s'.stop - s'.ptr < fuel
      replace stop : s'.stop = s.stop := stop
      omega

/-- What a call returns: the end of the buffer, or what its last turn left. -/
theorem lexerLoop_returns {fuel : Nat} (goes : s.token ≠ .INVALID ∧ s.token ≠ .EOF) (le : s.ptr ≤ s.stop)
    (stop : s.stop = buffer.length) (loop : lexerLoop (buffer ++ more) fuel s = .ok s') :
    s'.token = .EOF ∨ ∃ t, Relation.ReflTransGen (Turns (buffer ++ more)) s t ∧ t.Turning ∧
      lexerTurn (buffer ++ more) t = .ok (.done s') := by
  induction fuel generalizing s with
  | zero => cases loop
  | succ fuel ih =>
    by_cases ended : s.ptr = s.stop
    · rw [lexerLoop, if_pos ended] at loop
      obtain rfl := Except.ok.inj loop
      exact .inl rfl
    · have turning : s.Turning := ⟨goes, Nat.lt_of_le_of_ne le ended⟩
      cases returns : lexerTurn (buffer ++ more) s with
      | error fault =>
        rw [lexerLoop, if_neg ended, returns] at loop
        cases loop
      | ok turn =>
        cases turn with
        | done r =>
          rw [(lexerLoop_turn turning fuel).2 r returns] at loop
          obtain rfl := Except.ok.inj loop
          exact .inr ⟨s, .refl, turning, returns⟩
        | again r =>
          rw [(lexerLoop_turn turning fuel).1 r returns] at loop
          obtain ⟨c, rest, _, sees⟩ := turning.sees stop more
          obtain ⟨found, same⟩ := lexerTurn_at sees returns
          obtain ⟨_, within, token⟩ := found.again sees
          replace same : r.stop = s.stop := same
          rcases ih (token ▸ goes) (same ▸ within) (same.trans stop) loop with eof | ⟨t, run, last⟩
          · exact .inl eof
          · exact .inr ⟨t, .head ⟨turning, _, returns, rfl⟩ run, last⟩

theorem lexerNext_returns (goes : s.token ≠ .INVALID ∧ s.token ≠ .EOF) (stop : s.stop = buffer.length)
    (next : lexerNext (buffer ++ more) s = .ok s') :
    s'.token = .EOF ∨ ∃ t, Relation.ReflTransGen (Turns (buffer ++ more)) s t ∧ t.Turning ∧
      lexerTurn (buffer ++ more) t = .ok (.done s') := by
  unfold lexerNext at next
  by_cases behind : s.stop < s.ptr
  · rw [if_pos behind] at next
    cases next
  · rw [if_neg behind, if_neg fun ended => ended.elim goes.1 goes.2] at next
    exact lexerLoop_returns goes (Nat.not_lt.mp behind) stop next

/-- The tokens of a run are what its turns return. -/
theorem lexerCalls_visited {n : Nat} (calls : lexerCalls (buffer ++ more) buffer.length n = .ok s)
    (token : s.token ≠ .EOF) :
    Visited buffer more s ∧ (s = lexerInit buffer.length ∨
      ∃ t, Visited buffer more t ∧ t.Turning ∧ lexerTurn (buffer ++ more) t = .ok (.done s)) := by
  induction n generalizing s with
  | zero =>
    obtain rfl := Except.ok.inj calls
    exact ⟨.refl, .inl rfl⟩
  | succ n ih =>
    obtain ⟨r, before, next⟩ := lexerCalls_succ calls
    by_cases ended : r.token = .INVALID ∨ r.token = .EOF
    · have same : s = r := by
        unfold lexerNext at next
        rw [if_pos ended] at next
        split at next
        · cases next
        · exact (Except.ok.inj next).symm
      subst same
      exact ih before token
    · obtain ⟨visited, _⟩ := ih before (not_or.mp ended).2
      rcases lexerNext_returns (not_or.mp ended) visited.stop next with eof | ⟨t, run, turning, returns⟩
      · exact absurd eof token
      · have here : Visited buffer more t := visited.trans run
        exact ⟨here.tail ⟨turning, _, returns, rfl⟩, .inr ⟨t, here, turning, returns⟩⟩

/-! ### Where the bytes go -/

/-- The byte at `i` lies in a lexeme or in a comment, is an ASCII blank, or is reported as garbage. -/
inductive Accounted (buffer more : List UInt8) (i : Nat) : Prop where
  | lexeme {n : Nat} {s : Lexer} : lexerCalls (buffer ++ more) buffer.length n = .ok s → s.token ≠ .EOF →
      s.base ≤ i → i < s.ptr → Accounted buffer more i
  | comment {s s' : Lexer} : Visited buffer more s → s.Turning → lexerTurn (buffer ++ more) s = .ok (.again s') →
      IsComment ((buffer.drop s.ptr).take (s'.ptr - s.ptr)) → s.ptr ≤ i → i < s'.ptr → Accounted buffer more i
  | blank {c : UInt8} : buffer[i]? = some c → c ≤ 0x20 → Accounted buffer more i
  | reported {s s' : Lexer} {c : UInt8} : Visited buffer more s → s.Turning → s.ptr = i → buffer[i]? = some c →
      lexerTurn (buffer ++ more) s = .ok (.again s') → s'.messages = s.messages ++ [.garbage c] → Accounted buffer more i

/-- The lexemes of successive tokens are not empty and follow each other, and every byte is
accounted for. -/
structure NothingDropped (buffer more : List UInt8) : Prop where
  increasing : ∀ n s s', lexerCalls (buffer ++ more) buffer.length n = .ok s → s.token ≠ .INVALID ∧ s.token ≠ .EOF →
    lexerNext (buffer ++ more) s = .ok s' → s'.token ≠ .EOF → s.ptr ≤ s'.base ∧ s'.base < s'.ptr
  accounted : ∀ i < buffer.length, Accounted buffer more i

/-- A turn at this byte is not one that drops it: the byte is ASCII, it is not stale garbage, and a
word that it begins has an end. -/
structure Heeds (lexer : Lexer) (c : UInt8) (rest more : List UInt8) : Prop where
  ascii : c < 0x80
  fresh : ¬ (lexer.token = .IDENT ∧ Garbage c rest)
  closes : Closes c rest more

/-- Each turn of the run is at a byte that it heeds. -/
def HeedsAll (buffer more : List UInt8) : Prop :=
  ∀ s, Visited buffer more s → s.Turning → ∀ c rest, buffer.drop s.ptr = c :: rest → Heeds s c rest more

/-- A turn that heeds its byte accounts for all that it takes. -/
theorem Visited.accounts (visited : Visited buffer more s) (turning : s.Turning) (here : buffer.drop s.ptr = c :: rest)
    (heeds : Heeds s c rest more) (returns : lexerTurn (buffer ++ more) s = .ok turn) :
    s.ptr < turn.state.ptr ∧ ∀ i, s.ptr ≤ i → i < turn.state.ptr → Accounted buffer more i := by
  have sees := turning.sees_at visited.stop more here
  have byte := getElem_of_drop here
  cases (lexerTurn_at sees returns).1 with
  | @blank s' white ptr =>
    have low : c ≤ 0x20 := by
      unfold isWhitespace at white
      rcases Bool.or_eq_true_iff.mp white with low | high
      · exact of_decide_eq_true low
      · exact absurd heeds.ascii (UInt8.not_lt.mpr (of_decide_eq_true high))
    refine ⟨ptr ▸ Nat.lt_succ_self _, ?_⟩
    intro i le lt
    replace lt : i < s'.ptr := lt
    obtain rfl : i = s.ptr := by omega
    exact .blank byte low
  | @comment s' n _ ptr pos _ comment =>
    refine ⟨ptr ▸ Nat.lt_add_of_pos_right pos, ?_⟩
    intro i le lt
    apply Accounted.comment visited turning returns _ le lt
    rw [ptr, Nat.add_sub_cancel_left, here]
    exact comment
  | @garbage s' _ ptr messages =>
    refine ⟨ptr ▸ Nat.lt_succ_self _, ?_⟩
    intro i le lt
    replace lt : i < s'.ptr := lt
    obtain rfl : i = s.ptr := by omega
    exact .reported visited turning rfl byte returns messages
  | lexeme _ base lt eof =>
    refine ⟨lt, ?_⟩
    intro i le below
    obtain ⟨n, calls⟩ := visited.underway.returned turning returns
    exact .lexeme calls eof (base ▸ le) below
  | stale ident garbage => exact absurd ⟨ident, garbage⟩ heeds.fresh

theorem HeedsAll.accounted (heeds : HeedsAll buffer more) (visited : Visited buffer more s)
    (goes : s.token ≠ .INVALID ∧ s.token ≠ .EOF) {i : Nat} (le : s.ptr ≤ i) (lt : i < buffer.length) :
    Accounted buffer more i := by
  induction left : i - s.ptr using Nat.strongRecOn generalizing s with
  | ind left ih =>
    have stop := visited.stop
    have turning : s.Turning := ⟨goes, by omega⟩
    obtain ⟨c, rest, here, sees⟩ := turning.sees stop more
    have heed := heeds s visited turning c rest here
    obtain ⟨turn, returns⟩ := (lexerTurn_returns sees).mpr heed.closes
    obtain ⟨found, stop'⟩ := lexerTurn_at sees returns
    obtain ⟨moved, accounts⟩ := visited.accounts turning here heed returns
    by_cases taken : i < turn.state.ptr
    · exact accounts i le taken
    · have goes' : ¬ (turn.state.token = .INVALID ∨ turn.state.token = .EOF) := by
        intro ended
        have whole := found.ended goes ended
        omega
      exact ih (i - turn.state.ptr) (by omega) (visited.tail ⟨turning, turn, returns, rfl⟩) (not_or.mp goes')
        (Nat.not_lt.mp taken) rfl

theorem HeedsAll.dropped (heeds : HeedsAll buffer more) : NothingDropped buffer more := by
  constructor
  · intro n s s' calls goes next token
    obtain ⟨visited, _⟩ := lexerCalls_visited calls goes.2
    rcases lexerNext_returns goes visited.stop next with eof | ⟨t, run, turning, returns⟩
    · exact absurd eof token
    · have here : Visited buffer more t := visited.trans run
      obtain ⟨c, rest, drop, sees⟩ := turning.sees here.stop more
      have le := (run_moves run visited.stop).2
      cases (lexerTurn_at sees returns).1 with
      | lexeme _ base lt =>
        rw [base]
        exact ⟨le, lt⟩
      | stale ident garbage => exact absurd ⟨ident, garbage⟩ (heeds t here turning c rest drop).fresh
  · intro i lt
    exact heeds.accounted .refl ⟨nofun, nofun⟩ (Nat.zero_le i) lt

/-- The byte at which a turn stands is accounted for by that turn, if it is not an ASCII blank. -/
theorem Accounted.passed (accounted : Accounted buffer more s.ptr) (visited : Visited buffer more s) :
    (∃ c, buffer[s.ptr]? = some c ∧ c ≤ 0x20) ∨
      ∃ turn, lexerTurn (buffer ++ more) s = .ok turn ∧ s.ptr < turn.state.ptr ∧
        ∀ s', turn = .again s' → 1 < s'.ptr - s.ptr ∨ s'.messages ≠ s.messages := by
  have passes {t : Lexer} {turn : LexerTurn} (other : Visited buffer more t) (turning : t.Turning)
      (returns : lexerTurn (buffer ++ more) t = .ok turn) (le : t.ptr ≤ s.ptr) (lt : s.ptr < turn.state.ptr) : t = s :=
    visited.unique other ⟨turning, turn, returns, rfl⟩ le lt
  cases accounted with
  | blank byte low => exact .inl ⟨_, byte, low⟩
  | @lexeme n r calls token base lt =>
    right
    rcases (lexerCalls_visited calls token).2 with rfl | ⟨t, other, turning, returns⟩
    · exact absurd lt (Nat.not_lt_zero _)
    · obtain ⟨c, rest, _, sees⟩ := turning.sees other.stop more
      have begins : r.base = t.ptr := by
        cases (lexerTurn_at sees returns).1 with
        | lexeme _ base => exact base
        | stale _ _ base => exact base
      obtain rfl := passes other turning returns (begins ▸ base) lt
      exact ⟨_, returns, lt, nofun⟩
  | @comment t t' other turning returns comment le lt =>
    right
    obtain rfl := passes other turning returns le lt
    refine ⟨_, returns, lt, ?_⟩
    intro s' same
    obtain rfl := LexerTurn.again.inj same
    left
    have two := comment.two
    rw [List.length_take] at two
    omega
  | @reported t t' c other turning same byte returns messages =>
    right
    obtain ⟨d, rest, _, sees⟩ := turning.sees other.stop more
    have lt : t.ptr < t'.ptr := ((lexerTurn_at sees returns).1.again sees).1
    obtain rfl := passes other turning returns (Nat.le_of_eq same) (same ▸ lt)
    refine ⟨_, returns, lt, ?_⟩
    intro s' same
    obtain rfl := LexerTurn.again.inj same
    right
    rw [messages]
    simp

theorem NothingDropped.heeds (kept : NothingDropped buffer more) : HeedsAll buffer more := by
  intro s visited turning c rest here
  have sees := turning.sees_at visited.stop more here
  have byte := getElem_of_drop here
  have within : s.ptr < buffer.length := (List.getElem?_eq_some_iff.mp byte).1
  rcases (kept.accounted s.ptr within).passed visited with ⟨d, byte', low⟩ | ⟨turn, returns, lt, seen⟩
  · obtain rfl := Option.some.inj (byte.symm.trans byte')
    have white : isWhitespace c = true := by
      unfold isWhitespace
      rw [decide_eq_true low]
      rfl
    constructor
    · exact UInt8.lt_of_le_of_lt low (by decide)
    · intro stale
      rw [stale.2.1] at white
      cases white
    · intro _ test word
      rw [restTest_none_of_blank (.inl white)] at word
      cases word
  · have closes := (lexerTurn_returns sees).mp ⟨turn, returns⟩
    have fresh : ¬ (s.token = .IDENT ∧ Garbage c rest) := by
      intro ⟨ident, garbage⟩
      have stale : s.Stale buffer := ⟨ident, c, rest, here, garbage⟩
      have same := (stale.turns ⟨turning, turn, returns, rfl⟩ visited.stop).2
      exact absurd lt (same ▸ Nat.lt_irrefl _)
    cases (lexerTurn_at sees returns).1 with
    | @blank s' _ ptr messages =>
      rcases seen s' rfl with long | other
      · omega
      · exact absurd messages other
    | comment _ ascii => exact ⟨ascii, fresh, closes⟩
    | garbage ascii => exact ⟨ascii, fresh, closes⟩
    | lexeme ascii => exact ⟨ascii, fresh, closes⟩
    | stale ident garbage => exact absurd ⟨ident, garbage⟩ fresh

/-- No byte of the buffer is dropped if and only if each turn of the run is at an ASCII byte, not at
garbage behind an identifier, and at no word that has no end. -/
theorem nothing_dropped_iff (buffer more : List UInt8) : NothingDropped buffer more ↔ HeedsAll buffer more :=
  ⟨NothingDropped.heeds, HeedsAll.dropped⟩

/-- The two bytes of a letter beyond ASCII are skipped without a message. -/
theorem umlaut_dropped : ¬ NothingDropped [0xc3, 0xa4] [0] := by
  intro kept
  have heeds := kept.heeds (lexerInit 2) .refl ⟨⟨nofun, nofun⟩, Nat.two_pos⟩ 0xc3 [0xa4] rfl
  exact absurd heeds.ascii (by decide)

end Low
