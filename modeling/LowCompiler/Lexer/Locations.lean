import LowCompiler.Lexer.Tokenisation

/-!
# The locations of tokens

The lexer counts lines at each step. The invariant of its counters, the lexeme that a
call comes to, and when its location is that of its first byte.
-/

namespace Low

/-! ### Lines -/

def newlines (text : List UInt8) : Nat := text.count '\n'.toUInt8

/-- The bytes behind the last newline. -/
def lineOffset (text : List UInt8) : Nat := (text.reverse.takeWhile (· != '\n'.toUInt8)).length

theorem newlines_append (text more : List UInt8) : newlines (text ++ more) = newlines text + newlines more :=
  List.count_append

theorem newlines_pos {text : List UInt8} : 0 < newlines text ↔ '\n'.toUInt8 ∈ text := List.count_pos_iff

theorem newlines_singleton (c : UInt8) : newlines [c] = if c = '\n'.toUInt8 then 1 else 0 := by
  rw [newlines, List.count_singleton]
  simp

theorem lineOffset_concat (text : List UInt8) (c : UInt8) :
    lineOffset (text ++ [c]) = if c = '\n'.toUInt8 then 0 else lineOffset text + 1 := by
  rw [lineOffset, List.reverse_append, List.reverse_singleton, List.singleton_append, List.takeWhile_cons]
  by_cases newline : c = '\n'.toUInt8
  · simp [newline]
  · simp [newline, lineOffset]

/-! ### The counters -/

/-- The line and the column are those of the first byte of the lexeme. -/
def Lexer.Located (mem : Memory) (s : Lexer) : Prop :=
  s.line = newlines (mem.take s.base) ∧ s.col = lineOffset (mem.take s.base)

def Lexer.since (mem : Memory) (s : Lexer) : List UInt8 := (mem.take s.ptr).drop s.base

/-- The column behind a newline is zero, and before it that of the lexeme. -/
def column (since before : List UInt8) : Nat := if '\n'.toUInt8 ∈ since then 0 else unsigned (lineOffset before)

/-- The counters are those of `ptr`, and the column is that of `base` until a newline is stepped over. -/
structure Lexer.Tracked (mem : Memory) (s : Lexer) : Prop where
  within : s.ptr ≤ mem.length
  base : s.base ≤ s.ptr
  line : s.line = unsigned (newlines (mem.take s.ptr))
  lineBase : s.lineBase + lineOffset (mem.take s.ptr) = s.ptr
  col : s.col = column (s.since mem) (mem.take s.base)

section Counters
variable {mem : Memory} {self s : Lexer} {c : UInt8} {fuel n : Nat} {text more : List UInt8}

theorem lexerInit_tracked (mem : Memory) (len : Nat) : (lexerInit len).Tracked mem := by
  refine ⟨Nat.zero_le _, Nat.le_refl _, ?_, ?_, ?_⟩ <;> simp [lexerInit, newlines, lineOffset, unsigned, Lexer.since, column]

theorem Lexer.Tracked.since_length (tracked : self.Tracked mem) :
    self.base + (self.since mem).length = self.ptr := by
  rw [Lexer.since, List.length_drop, List.length_take_of_le tracked.within]
  exact Nat.add_sub_cancel' tracked.base

theorem Lexer.Tracked.take_ptr (tracked : self.Tracked mem) :
    mem.take self.ptr = mem.take self.base ++ self.since mem := by
  have first : (mem.take self.ptr).take self.base = mem.take self.base := by
    rw [List.take_take, Nat.min_eq_left tracked.base]
  rw [← first, Lexer.since, List.take_append_drop]

theorem take_succ_eq {i : Nat} (read : mem[i]? = some c) : mem.take (i + 1) = mem.take i ++ [c] := by
  rw [List.take_add_one, read]
  rfl

/-- A step over a byte. At the end of the buffer no newline is counted. -/
theorem Lexer.Tracked.stepped (tracked : self.Tracked mem) (read : mem[self.ptr]? = some c)
    (inside : self.ptr ≠ self.stop ∨ c ≠ '\n'.toUInt8) :
    (self.stepped mem).Tracked mem ∧ (self.stepped mem).since mem = self.since mem ++ [c] := by
  have grown : (mem.take (self.ptr + 1)).drop self.base = self.since mem ++ [c] := by
    rw [take_succ_eq read, List.drop_append_of_le_length, Lexer.since]
    rw [List.length_take_of_le tracked.within]
    exact tracked.base
  have lines := congrArg newlines (take_succ_eq read)
  have offset := congrArg lineOffset (take_succ_eq read)
  rw [newlines_append, newlines_singleton] at lines
  rw [lineOffset_concat] at offset
  have bound : self.ptr < mem.length := (List.getElem?_eq_some_iff.mp read).1
  have before := tracked.line
  unfold Lexer.stepped
  by_cases newline : c = '\n'.toUInt8
  · rw [if_pos newline] at lines offset
    rw [if_pos ⟨inside.resolve_right fun other => other newline, newline ▸ read⟩]
    refine ⟨⟨bound, Nat.le_succ_of_le tracked.base, ?_, ?_, ?_⟩, grown⟩
    · dsimp only
      rw [lines, before, unsigned, unsigned, unsigned]
      omega
    · dsimp only
      rw [offset, Nat.add_zero]
    · show 0 = column ((mem.take (self.ptr + 1)).drop self.base) (mem.take self.base)
      rw [grown, column, if_pos (List.mem_append_right _ (newline ▸ List.mem_singleton_self _))]
  · rw [if_neg newline] at lines offset
    rw [if_neg fun both => newline (Option.some.inj (read.symm.trans both.2))]
    refine ⟨⟨bound, Nat.le_succ_of_le tracked.base, ?_, ?_, ?_⟩, grown⟩
    · dsimp only
      rw [lines, before, Nat.add_zero]
    · dsimp only
      rw [offset, ← Nat.add_assoc, tracked.lineBase]
    · show self.col = column ((mem.take (self.ptr + 1)).drop self.base) (mem.take self.base)
      rw [grown, tracked.col]
      simp [column, Ne.symm newline]

theorem Lexer.Tracked.start (tracked : self.Tracked mem) :
    self.start.Tracked mem ∧ self.start.since mem = [] := by
  have offset : self.ptr - self.lineBase = lineOffset (mem.take self.ptr) := by
    have lineBase := tracked.lineBase
    omega
  have none : (mem.take self.ptr).drop self.ptr = [] := List.drop_eq_nil_of_le (List.length_take_le _ _)
  refine ⟨⟨tracked.within, Nat.le_refl _, tracked.line, tracked.lineBase, ?_⟩, none⟩
  show unsigned (self.ptr - self.lineBase) = column ((mem.take self.ptr).drop self.ptr) (mem.take self.ptr)
  rw [none, offset, column, if_neg List.not_mem_nil]

/-- Neither the token nor the messages are counted. -/
theorem Lexer.Tracked.with (tracked : self.Tracked mem) (token : Token) (messages : List LexerMessage) :
    Lexer.Tracked mem { self with token := token, messages := messages } :=
  ⟨tracked.within, tracked.base, tracked.line, tracked.lineBase, tracked.col⟩

theorem Lexer.Tracked.advance (tracked : self.Tracked mem) (sees : self.Sees mem text more)
    (le : n ≤ text.length) :
    (self.advance mem n).Tracked mem ∧ (self.advance mem n).since mem = self.since mem ++ text.take n := by
  induction n generalizing self text with
  | zero => exact ⟨tracked, by rw [List.take_zero, List.append_nil]; rfl⟩
  | succ n ih =>
    cases text with
    | nil => exact absurd le (Nat.not_succ_le_zero n)
    | cons c rest =>
      obtain ⟨tracked', since⟩ := tracked.stepped sees.getElem (.inl sees.ne_stop)
      obtain ⟨last, same⟩ := ih tracked' sees.stepped (Nat.le_of_succ_le_succ le)
      refine ⟨last, ?_⟩
      rw [Lexer.advance, same, since, List.append_assoc]
      rfl

theorem lexerStep_stepped (step : lexerStep mem self = .ok s) : s = self.stepped mem := by
  unfold lexerStep at step
  unfold Lexer.stepped
  by_cases stop : self.ptr = self.stop
  · rw [if_pos stop] at step
    rw [if_neg fun both => both.1 stop]
    exact (Except.ok.inj step).symm
  · rw [if_neg stop] at step
    cases read : mem[self.ptr]? with
    | none =>
      rw [deref, read] at step
      cases step
    | some c =>
      rw [deref, read] at step
      replace step : (if c = '\n'.toUInt8 then _ else _) = Except.ok s := step
      by_cases newline : c = '\n'.toUInt8
      · rw [if_pos newline] at step
        rw [if_pos ⟨stop, congrArg some newline⟩]
        exact (Except.ok.inj step).symm
      · rw [if_neg newline] at step
        rw [if_neg fun both => newline (Option.some.inj both.2)]
        exact (Except.ok.inj step).symm

/-- The loop of a word may leave the buffer, and steps over no newline. -/
theorem Lexer.Tracked.consumeWhile {test : UInt8 → Bool} (plain : test '\n'.toUInt8 = false) (tracked : self.Tracked mem)
    (loop : consumeWhile mem test fuel self = .ok s) :
    s.Tracked mem ∧ s.base = self.base ∧ s.stop = self.stop ∧
      newlines (s.since mem) = newlines (self.since mem) := by
  induction fuel generalizing self with
  | zero => cases loop
  | succ fuel ih =>
    unfold Low.consumeWhile at loop
    cases read : mem[self.ptr]? with
    | none =>
      rw [deref, read] at loop
      cases loop
    | some c =>
      rw [deref, read] at loop
      replace loop : (if test c = true then _ else _) = Except.ok s := loop
      by_cases pass : test c = true
      · rw [if_pos pass] at loop
        have other : c ≠ '\n'.toUInt8 := fun newline => by simp [newline, plain] at pass
        cases step : lexerStep mem self with
        | error fault =>
          rw [step] at loop
          cases loop
        | ok r =>
          rw [step] at loop
          obtain rfl := lexerStep_stepped step
          obtain ⟨tracked', since⟩ := tracked.stepped read (.inr other)
          obtain ⟨last, base, stop, same⟩ := ih tracked' loop
          refine ⟨last, base.trans stepped_base, stop.trans stepped_stop, ?_⟩
          rw [same, since, newlines_append, newlines_singleton, if_neg other, Nat.add_zero]
      · rw [if_neg pass] at loop
        obtain rfl := Except.ok.inj loop
        exact ⟨tracked, rfl, rfl, rfl⟩

end Counters

/-! ### What a call comes to -/

/-- A call at a text, with the bytes `since` between `base` and the text, comes to a lexeme at
another base. Blanks leave `base` where it is; a comment or garbage moves it. At the end of the text
it stays, and there is no lexeme. -/
inductive Finds (token : Token) : Nat → List UInt8 → List UInt8 → Nat → List UInt8 → Prop where
  | ended (base : Nat) (since : List UInt8) : Finds token base since [] base since
  | found (base : Nat) (since : List UInt8) {c : UInt8} {rest : List UInt8} : (piece token c rest).skipped = none →
      Finds token base since (c :: rest) (base + since.length) ((c :: rest).take (piece token c rest).length)
  | blank {base base' : Nat} {since rest lexeme : List UInt8} {c : UInt8} : piece token c rest = .blank →
      Finds token base (since ++ [c]) rest base' lexeme → Finds token base since (c :: rest) base' lexeme
  | passed {base base' n : Nat} {since rest lexeme : List UInt8} {c : UInt8} : (piece token c rest).skipped = some n →
      piece token c rest ≠ .blank → Finds token (base + since.length) (c :: rest.take n) (rest.drop n) base' lexeme →
      Finds token base since (c :: rest) base' lexeme

section Finds
variable {mem : Memory} {self s : Lexer} {token : Token} {c : UInt8} {fuel n base base' other : Nat}
  {since text rest more lexeme lexeme' : List UInt8}

theorem Finds.unique (finds : Finds token base since text base' lexeme)
    (again : Finds token base since text other lexeme') :
    base' = other ∧ lexeme = lexeme' := by
  induction finds with
  | ended base since =>
    cases again
    exact ⟨rfl, rfl⟩
  | found base since returns =>
    cases again with
    | found => exact ⟨rfl, rfl⟩
    | blank blank _ =>
      rw [blank] at returns
      cases returns
    | passed skipped _ _ => cases returns.symm.trans skipped
  | blank blank _ ih =>
    cases again with
    | found _ _ returns =>
      rw [blank] at returns
      cases returns
    | blank _ again => exact ih again
    | passed _ passes _ => exact absurd blank passes
  | passed skipped passes _ ih =>
    cases again with
    | found _ _ returns => cases returns.symm.trans skipped
    | blank blank _ => exact absurd blank passes
    | passed skipped' _ again =>
      cases skipped.symm.trans skipped'
      exact ih again

theorem restTest_newline {test : UInt8 → Bool} (word : restTest c = some test) :
    c ≠ '\n'.toUInt8 ∧ test '\n'.toUInt8 = false := by
  constructor
  · rintro rfl
    cases word
  unfold restTest at word
  split at word
  · cases word
    rfl
  · split at word
    · cases word
      rfl
    · cases word

/-- The token of a number or an identifier. -/
def kindOfWord (c : UInt8) (rest : List UInt8) : Token :=
  if isNumberStart c then .NUMBER_LITERAL else checkKeywords (c :: rest)

theorem piece_word_eq {test : UInt8 → Bool} (token : Token) (symbol : symbolPiece (c :: rest) = none)
    (word : restTest c = some test) :
    piece token c rest = .token (kindOfWord c (rest.takeWhile test)) ((rest.takeWhile test).length + 1) := by
  obtain ⟨white, quote⟩ := not_blank word
  unfold piece
  rw [if_neg (by simp [white]), symbol]
  show lexemePiece token c rest = _
  unfold lexemePiece kindOfWord
  rw [if_neg quote]
  unfold restTest at word
  by_cases number : isNumberStart c = true
  · rw [if_pos number] at word ⊢
    obtain rfl := Option.some.inj word
    rw [if_pos number]
  · rw [if_neg number] at word ⊢
    by_cases ident : isIdentStart c = true
    · rw [if_pos ident] at word ⊢
      obtain rfl := Option.some.inj word
      rw [if_neg number]
    · rw [if_neg ident] at word
      cases word

theorem piece_word {test : UInt8 → Bool} (token : Token) (symbol : symbolPiece (c :: rest) = none)
    (word : restTest c = some test) :
    (piece token c rest).skipped = none ∧ newlines ((c :: rest).take (piece token c rest).length) = 0 := by
  obtain ⟨other, plain⟩ := restTest_newline word
  rw [piece_word_eq token symbol word]
  refine ⟨rfl, List.count_eq_zero.mpr fun member => ?_⟩
  rw [Piece.length, List.take_succ_cons, ← List.prefix_iff_eq_take.mp (List.takeWhile_prefix test)] at member
  rcases List.mem_cons.mp member with first | inside
  · exact other first.symm
  · have pass := List.mem_takeWhile_imp inside
    rw [plain] at pass
    cases pass

theorem length_of_skipped {p : Piece} (skipped : p.skipped = some n) : p.length = n + 1 := by
  cases p with
  | blank | garbage => cases skipped; rfl
  | comment m => cases skipped; rfl
  | _ => cases skipped

def LexerTurn.state : LexerTurn → Lexer
  | .again s | .done s => s

/-- A turn keeps the counters, and takes the bytes of its piece. -/
theorem Lexer.Tracked.apply {p : Piece} (tracked : self.Tracked mem) (sees : self.Sees mem (c :: rest) more)
    (bound : p.length ≤ rest.length + 1) :
    (self.apply mem p).state.Tracked mem ∧
      (p = .blank → (self.apply mem p).state.base = self.base ∧ (self.apply mem p).state.since mem = self.since mem ++ [c]) ∧
      (p ≠ .blank → (self.apply mem p).state.base = self.ptr ∧
        (self.apply mem p).state.since mem = (c :: rest).take p.length) := by
  obtain ⟨started, none⟩ := tracked.start
  have moves (token : Token) (messages : List LexerMessage) (n : Nat) (le : n ≤ (c :: rest).length) :
      (Lexer.advance mem n { self.start with token := token, messages := messages }).Tracked mem ∧
        (Lexer.advance mem n { self.start with token := token, messages := messages }).since mem = (c :: rest).take n := by
    have inside : Lexer.Sees mem { self.start with token := token, messages := messages } (c :: rest) more :=
      ⟨sees.bytes, sees.stop⟩
    obtain ⟨moved, since⟩ := (started.with token messages).advance inside le
    exact ⟨moved, since.trans (congrArg (· ++ (c :: rest).take n) none)⟩
  cases p with
  | blank =>
    obtain ⟨stepped, since⟩ := tracked.stepped sees.getElem (.inl sees.ne_stop)
    exact ⟨stepped, fun _ => ⟨Lexer.stepped_base, since⟩, fun other => absurd rfl other⟩
  | comment n =>
    obtain ⟨moved, since⟩ := moves self.token self.messages (n + 1) bound
    exact ⟨moved, nofun, fun _ => ⟨Lexer.advance_base _, since⟩⟩
  | garbage d =>
    obtain ⟨moved, since⟩ := moves self.token (self.messages ++ [.garbage d]) 1 bound
    exact ⟨moved, nofun, fun _ => ⟨Lexer.advance_base 1, since⟩⟩
  | token t n =>
    obtain ⟨moved, since⟩ := moves self.token self.messages n bound
    exact ⟨moved.with t _, nofun, fun _ => ⟨Lexer.advance_base n, since⟩⟩
  | unterminated message n =>
    obtain ⟨moved, since⟩ := moves self.token self.messages n bound
    exact ⟨moved.with .INVALID _, nofun, fun _ => ⟨Lexer.advance_base n, since⟩⟩

/-- A call comes to its lexeme, with its counters kept. -/
theorem lexerLoop_finds (sees : self.Sees mem text more) (tracked : self.Tracked mem)
    (loop : lexerLoop mem fuel self = .ok s) :
    s.Tracked mem ∧ s.stop = self.stop ∧ ∃ lexeme, Finds self.token self.base (self.since mem) text s.base lexeme ∧
      newlines (s.since mem) = newlines lexeme := by
  induction fuel generalizing self text with
  | zero => cases loop
  | succ fuel ih =>
    unfold lexerLoop at loop
    cases text with
    | nil =>
      rw [if_pos sees.eq_stop] at loop
      obtain rfl := Except.ok.inj loop
      exact ⟨tracked.with .EOF self.messages, rfl, _, .ended _ _, rfl⟩
    | cons c rest =>
      rw [if_neg sees.ne_stop] at loop
      have ptr := tracked.since_length
      by_cases ends : symbolPiece (c :: rest) = none → Ends c rest more
      · have bound := piece_length_le self.token c rest
        rw [lexerTurn_eq sees ends] at loop
        obtain ⟨kept, blanks, others⟩ := tracked.apply sees bound
        cases skipped : (piece self.token c rest).skipped with
        | some n =>
          obtain ⟨r, again, inside, _, stop, token⟩ := apply_again sees tracked.base skipped bound
          rw [again] at loop kept blanks others
          obtain ⟨last, stop', lexeme, finds, same⟩ := ih inside kept loop
          refine ⟨last, stop'.trans stop, lexeme, ?_, same⟩
          rw [token] at finds
          by_cases blank : piece self.token c rest = .blank
          · obtain ⟨base, since⟩ := blanks blank
            obtain rfl : 0 = n := by simpa [blank, Piece.skipped] using skipped
            exact .blank blank (base ▸ since ▸ finds)
          · obtain ⟨base, since⟩ := others blank
            have taken : (piece self.token c rest).length = n + 1 := length_of_skipped skipped
            rw [taken, List.take_succ_cons] at since
            exact .passed skipped blank (ptr ▸ base ▸ since ▸ finds)
        | none =>
          obtain ⟨r, done, stop, _⟩ := apply_done sees skipped bound
          have plain : piece self.token c rest ≠ .blank := fun blank => by rw [blank] at skipped; cases skipped
          obtain ⟨base, since⟩ := others plain
          rw [done] at loop kept base since
          obtain rfl := Except.ok.inj loop
          refine ⟨kept, stop, _, base ▸ ptr ▸ .found _ _ skipped, congrArg newlines since⟩
      · -- A number or an identifier that goes on behind the buffer.
        rw [Classical.not_imp] at ends
        obtain ⟨symbol, unbounded⟩ := ends
        unfold Ends at unbounded
        push Not at unbounded
        obtain ⟨test, word, _⟩ := unbounded
        obtain ⟨other, plain⟩ := restTest_newline word
        obtain ⟨skipped, lexeme⟩ := piece_word self.token symbol word
        cases turn : lexerTurn mem self with
        | error fault =>
          rw [turn] at loop
          cases loop
        | ok t =>
          rw [turn] at loop
          obtain ⟨r, token, run, rfl, _⟩ := lexerTurn_loop sees symbol word turn
          obtain rfl := Except.ok.inj loop
          obtain ⟨started, none⟩ := tracked.start
          obtain ⟨first, since⟩ := started.stepped sees.start.getElem (.inl sees.start.ne_stop)
          obtain ⟨last, base, stop, same⟩ := first.consumeWhile plain run
          have base' : r.base = self.ptr := base.trans Lexer.stepped_base
          have finds := Finds.found self.base (self.since mem) skipped
          rw [ptr, ← base'] at finds
          refine ⟨last.with token r.messages, stop.trans Lexer.stepped_stop, _, finds, ?_⟩
          rw [lexeme]
          show newlines (r.since mem) = 0
          rw [same, since, none, List.nil_append, newlines_singleton, if_neg other]

end Finds

/-! ### When a location is true -/

/-- There are no newlines in the lexeme, and the counters have not gone round. Where newlines are in
the lexeme, they bring the line counter round to where it was, and the lexeme begins a line. -/
def Tells (before lexeme : List UInt8) : Prop :=
  newlines before < 2 ^ 32 ∧
    (('\n'.toUInt8 ∉ lexeme ∧ lineOffset before < 2 ^ 32) ∨
      ('\n'.toUInt8 ∈ lexeme ∧ 2 ^ 32 ∣ newlines lexeme ∧ lineOffset before = 0))

section Runs
variable {mem : Memory} {buffer more lexeme : List UInt8} {k : Nat} {s s' : Lexer}

theorem Lexer.Tracked.located_iff (tracked : s.Tracked mem) (same : newlines (s.since mem) = newlines lexeme) :
    s.Located mem ↔ Tells (mem.take s.base) lexeme := by
  have line := tracked.line
  rw [tracked.take_ptr, newlines_append, same, unsigned] at line
  have inside : '\n'.toUInt8 ∈ s.since mem ↔ '\n'.toUInt8 ∈ lexeme := by rw [← newlines_pos, same, newlines_pos]
  have col := tracked.col
  unfold Lexer.Located Tells
  rw [line, col, column]
  by_cases newline : '\n'.toUInt8 ∈ lexeme
  · rw [if_pos (inside.mpr newline)]
    simp only [newline, not_true_eq_false, false_and, true_and, false_or]
    omega
  · have none : newlines lexeme = 0 := List.count_eq_zero.mpr newline
    rw [if_neg fun member => newline (inside.mp member), none]
    simp only [newline, not_false_eq_true, true_and, false_and, or_false, unsigned]
    omega

theorem lexerCalls_tracked (calls : lexerCalls (buffer ++ more) buffer.length k = .ok s) :
    s.Tracked (buffer ++ more) ∧ s.stop = buffer.length := by
  induction k generalizing s with
  | zero =>
    obtain rfl := Except.ok.inj calls
    exact ⟨lexerInit_tracked _ _, rfl⟩
  | succ k ih =>
    obtain ⟨r, before, next⟩ := lexerCalls_succ calls
    obtain ⟨tracked, stop⟩ := ih before
    unfold lexerNext at next
    split at next
    · cases next
    · split at next
      · obtain rfl := Except.ok.inj next
        exact ⟨tracked, stop⟩
      · have inside : r.Inside buffer := ⟨tracked.base, by omega, stop⟩
        obtain ⟨last, stop', _⟩ := lexerLoop_finds (inside.sees more) tracked next
        exact ⟨last, stop'.trans stop⟩

/-- After a call the location is that of the lexeme just when no newline is in it and the counters
have not gone round. -/
theorem token_location_iff (calls : lexerCalls (buffer ++ more) buffer.length k = .ok s)
    (goes : s.token ≠ .INVALID ∧ s.token ≠ .EOF) (next : lexerNext (buffer ++ more) s = .ok s') :
    s'.Located (buffer ++ more) ↔ ∃ base lexeme,
      Finds s.token s.base (s.since (buffer ++ more)) (buffer.drop s.ptr) base lexeme ∧
        Tells ((buffer ++ more).take base) lexeme := by
  obtain ⟨tracked, stop⟩ := lexerCalls_tracked calls
  have le : s.ptr ≤ s.stop := by
    by_contra beyond
    rw [lexerNext, if_pos (Nat.lt_of_not_le beyond)] at next
    cases next
  rw [lexerNext, if_neg (Nat.not_lt.mpr le), if_neg fun ended => ended.elim goes.1 goes.2] at next
  have inside : s.Inside buffer := ⟨tracked.base, stop ▸ le, stop⟩
  obtain ⟨last, _, lexeme, finds, same⟩ := lexerLoop_finds (inside.sees more) tracked next
  rw [last.located_iff same]
  refine ⟨fun tells => ⟨_, _, finds, tells⟩, ?_⟩
  rintro ⟨base, other, again, tells⟩
  obtain ⟨rfl, rfl⟩ := finds.unique again
  exact tells

/-- `a;`, a comment over two lines and `b`. -/
def commentedLine : List UInt8 := [0x61, 0x3b, 0x2f, 0x2a, 0x0a, 0x2a, 0x2f, 0x20, 0x62]

/-- The third token stands in the second line, behind the end of the comment and a blank. -/
theorem behind_comment_located : ∃ s', lexerCalls (commentedLine ++ [0]) commentedLine.length 3 = .ok s' ∧
    s'.base = 8 ∧ s'.line = 1 ∧ s'.col = 3 ∧ s'.Located (commentedLine ++ [0]) := by
  obtain ⟨s, calls, token, base, ptr⟩ : ∃ s, lexerCalls (commentedLine ++ [0]) commentedLine.length 2 = .ok s ∧
      s.token = .SEMICOLON ∧ s.base = 1 ∧ s.ptr = 2 := ⟨_, rfl, rfl, rfl, rfl⟩
  obtain ⟨s', next, place⟩ : ∃ s', lexerNext (commentedLine ++ [0]) s = .ok s' ∧
      s'.base = 8 ∧ s'.line = 1 ∧ s'.col = 3 := by
    obtain rfl := Except.ok.inj calls
    exact ⟨_, rfl, rfl, rfl, rfl⟩
  have third : lexerCalls (commentedLine ++ [0]) commentedLine.length 3 = .ok s' := by
    unfold lexerCalls
    rw [calls]
    exact next
  have finds : Finds .SEMICOLON 1 [0x3b] (commentedLine.drop 2) 8 [0x62] := by
    refine .passed (n := 4) rfl ?_ ?_
    · rintro ⟨⟩
    refine .blank rfl ?_
    exact .found 2 [0x2f, 0x2a, 0x0a, 0x2a, 0x2f, 0x20] rfl
  have since : s.since (commentedLine ++ [0]) = [0x3b] := by
    unfold Lexer.since
    rw [ptr, base]
    rfl
  have goes : s.token ≠ .INVALID ∧ s.token ≠ .EOF := by
    rw [token]
    decide
  refine ⟨s', third, place.1, place.2.1, place.2.2, (token_location_iff calls goes next).mpr ⟨8, [0x62], ?_, ?_⟩⟩
  · rw [token, base, since, ptr]
    exact finds
  · exact ⟨by decide, .inl ⟨by decide, by decide⟩⟩

/-- The semicolon at the end of the first line is said to stand at the start of the second one. -/
theorem semicolon_mislocated : ∃ s, lexerCalls ([0x61, 0x0a] ++ [0]) 2 2 = .ok s ∧ s.token = .SEMICOLON ∧
    s.base = 1 ∧ s.line = 1 ∧ s.col = 0 ∧ ¬s.Located ([0x61, 0x0a] ++ [0]) :=
  ⟨_, rfl, rfl, rfl, rfl, rfl, fun located => absurd located.1 (by decide)⟩

end Runs

end Low
