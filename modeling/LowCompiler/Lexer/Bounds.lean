import LowCompiler.Lexer.Calls

/-!
# The reads of the lexer

Two memories that hold the same buffer give the same run, unless a number or an
identifier touches the end of the buffer: its loop tests no end, and reads the byte
behind.
-/

namespace Low

variable {mem mem' : Memory} {self s : Lexer} {c : UInt8} {rest text more more' buffer : List UInt8}

/-! ### Two memories -/

theorem Lexer.Sees.stepped_eq (sees : self.Sees mem (c :: rest) more)
    (sees' : self.Sees mem' (c :: rest) more') :
    self.stepped mem = self.stepped mem' := by
  unfold Lexer.stepped
  rw [sees.getElem, sees'.getElem]

theorem Lexer.Sees.advance_eq {n : Nat} (sees : self.Sees mem text more) (sees' : self.Sees mem' text more')
    (bound : n ≤ text.length) : self.advance mem n = self.advance mem' n := by
  induction n generalizing self text with
  | zero => rfl
  | succ n ih =>
    cases text with
    | nil => exact absurd bound (Nat.not_succ_le_zero n)
    | cons c rest =>
      unfold Lexer.advance
      have same := sees.stepped_eq sees'
      have inside' := sees'.stepped
      rw [← same] at inside' ⊢
      exact ih sees.stepped inside' (Nat.le_of_succ_le_succ bound)

theorem Lexer.Sees.apply_eq {p : Piece} (sees : self.Sees mem (c :: rest) more)
    (sees' : self.Sees mem' (c :: rest) more') (bound : p.length ≤ rest.length + 1) :
    self.apply mem p = self.apply mem' p := by
  cases p with
  | blank => exact congrArg LexerTurn.again (sees.advance_eq sees' bound)
  | comment n => exact congrArg LexerTurn.again (sees.start.advance_eq sees'.start bound)
  | garbage d =>
    have inside : Lexer.Sees mem { self.start with
        messages := self.messages ++ [.garbage d] } (c :: rest) more := ⟨sees.bytes, sees.stop⟩
    have inside' : Lexer.Sees mem' { self.start with
        messages := self.messages ++ [.garbage d] } (c :: rest) more' := ⟨sees'.bytes, sees'.stop⟩
    exact congrArg LexerTurn.again (inside.advance_eq inside' bound)
  | token t n =>
    have same := sees.start.advance_eq sees'.start (n := n) bound
    show LexerTurn.done { self.start.advance mem n with token := t } = _
    rw [same]
    rfl
  | unterminated message n =>
    have same := sees.start.advance_eq sees'.start (n := n) bound
    show LexerTurn.done { self.start.advance mem n with
      token := .INVALID, messages := self.messages ++ [message] } = _
    rw [same]
    rfl

/-- Nothing that the call meets runs to the end of the text. -/
def Clear (token : Token) (text : List UInt8) : Prop :=
  ∀ c rest, Skips token text (c :: rest) → ¬ RunsToEnd c rest

theorem Clear.bounded {token : Token} (clear : Clear token text) : Bounded token text more :=
  fun c rest skips runs => absurd runs (clear c rest skips)

theorem lexerLoop_agree {fuel : Nat} (sees : self.Sees mem text more) (sees' : self.Sees mem' text more')
    (base : self.base ≤ self.ptr) (clear : Clear self.token text) :
    lexerLoop mem fuel self = lexerLoop mem' fuel self := by
  induction fuel generalizing self text with
  | zero => rfl
  | succ fuel ih =>
    unfold lexerLoop
    cases text with
    | nil => rw [if_pos sees.eq_stop, if_pos sees.eq_stop]
    | cons c rest =>
      have bound := piece_length_le self.token c rest
      rw [if_neg sees.ne_stop, if_neg sees.ne_stop, lexerTurn_eq sees clear.bounded.ends,
        lexerTurn_eq sees' clear.bounded.ends, ← sees.apply_eq sees' bound]
      cases skipped : (piece self.token c rest).skipped with
      | none =>
        obtain ⟨r, done, _⟩ := apply_done sees skipped bound
        rw [done]
        rfl
      | some n =>
        obtain ⟨r', again', inside', _⟩ := apply_again sees' base skipped bound
        obtain ⟨r, again, inside, base, _, token⟩ := apply_again sees base skipped bound
        obtain rfl := LexerTurn.again.inj (again.symm.trans ((sees.apply_eq sees' bound).trans again'))
        rw [again]
        exact ih inside inside' base fun d tail skips => clear d tail (.skip skipped (token ▸ skips))

theorem lexerNext_agree (inside : self.Inside buffer) (within : ¬ Overruns self.token (buffer.drop self.ptr))
    (more more' : List UInt8) : lexerNext (buffer ++ more) self = lexerNext (buffer ++ more') self := by
  unfold lexerNext
  by_cases ended : self.token = .INVALID ∨ self.token = .EOF
  · rw [if_pos ended, if_pos ended]
  · have clear : Clear self.token (buffer.drop self.ptr) :=
      fun c rest skips runs => within ⟨not_or.mp ended, c, rest, skips, runs⟩
    rw [if_neg ended, if_neg ended, lexerLoop_agree (inside.sees more) (inside.sees more') inside.base clear]

/-! ### The run -/

/-- The run on a buffer reads nothing but the buffer: it is the same with nothing to read behind the
buffer and with anything there, and the lexeme lies in the buffer. -/
def ReadsInside (buffer : List UInt8) : Prop :=
  ∀ n, ∃ s, (∀ more, lexerCalls (buffer ++ more) buffer.length n = .ok s) ∧ s.base ≤ s.ptr ∧ s.ptr ≤ buffer.length

/-- A call from inside the buffer reads behind it, or does the same whatever is there. -/
theorem overruns_or_next (inside : s.Inside buffer) :
    (Overruns s.token (buffer.drop s.ptr) ∧ lexerNext buffer s = .error (.read s.stop)) ∨
      ∃ s', (∀ more, lexerNext (buffer ++ more) s = .ok s') ∧ s'.Inside buffer := by
  by_cases overruns : Overruns s.token (buffer.drop s.ptr)
  · have sees := inside.sees []
    rw [List.append_nil] at sees
    exact .inl ⟨overruns, lexerNext_fault sees inside.base overruns⟩
  · -- what stands behind does not matter, so a delimiter may stand there
    have delimited : Bounded s.token (buffer.drop s.ptr) [0] := fun _ _ _ _ => ⟨0, rfl, rfl, rfl⟩
    obtain ⟨s', next, inside'⟩ := lexerNext_inside inside delimited
    exact .inr ⟨s', fun more => (lexerNext_agree inside overruns more [0]).trans next, inside'⟩

theorem inside_of_buffer_calls {n : Nat} (calls : lexerCalls buffer buffer.length n = .ok s) :
    s.Inside buffer := by
  induction n generalizing s with
  | zero =>
    obtain rfl := Except.ok.inj calls
    exact lexerInit_inside buffer
  | succ n ih =>
    obtain ⟨r, before, next⟩ := lexerCalls_succ calls
    rcases overruns_or_next (ih before) with ⟨_, fault⟩ | ⟨s', agree, inside⟩
    · cases next.symm.trans fault
    · have same := agree []
      rw [List.append_nil, next] at same
      exact Except.ok.inj same ▸ inside

/-- The lexer reads inside the buffer if and only if no call meets a number or an identifier that
touches the end. -/
theorem lexer_reads_inside (buffer : List UInt8) :
    ReadsInside buffer ↔ ∀ n s, lexerCalls buffer buffer.length n = .ok s →
      ¬ Overruns s.token (buffer.drop s.ptr) := by
  constructor
  · intro reads n s calls overruns
    rcases overruns_or_next (inside_of_buffer_calls calls) with ⟨_, fault⟩ | ⟨s', agree, _⟩
    · obtain ⟨r, again, _⟩ := reads (n + 1)
      have run := again []
      rw [List.append_nil] at run
      obtain ⟨s', before, next⟩ := lexerCalls_succ run
      obtain rfl := Except.ok.inj (calls.symm.trans before)
      cases fault.symm.trans next
    · have inside := inside_of_buffer_calls calls
      have sees := inside.sees []
      have next := agree []
      rw [List.append_nil] at sees next
      cases next.symm.trans (lexerNext_fault sees inside.base overruns)
  · intro within n
    suffices run : ∃ s, (∀ more, lexerCalls (buffer ++ more) buffer.length n = .ok s) ∧ s.Inside buffer by
      obtain ⟨s, calls, inside⟩ := run
      exact ⟨s, calls, inside.base, inside.ptr⟩
    induction n with
    | zero => exact ⟨_, fun _ => rfl, lexerInit_inside buffer⟩
    | succ n ih =>
      obtain ⟨s, calls, inside⟩ := ih
      have alone := calls []
      rw [List.append_nil] at alone
      rcases overruns_or_next inside with ⟨overruns, _⟩ | ⟨s', next, inside'⟩
      · exact absurd overruns (within n s alone)
      · exact ⟨s', fun more => lexerCalls_step (calls more) (next more), inside'⟩

/-- An identifier that touches the end of the buffer is read on into what follows. -/
theorem lexer_reads_behind :
    ¬ ReadsInside [0x61] ∧ (lexerCalls ([0x61] ++ [0]) 1 1).map Lexer.ptr = .ok 1 ∧
      (lexerCalls ([0x61] ++ [0x62, 0]) 1 1).map Lexer.ptr = .ok 2 := by
  refine ⟨?_, rfl, rfl⟩
  intro reads
  obtain ⟨s, calls, _⟩ := reads 1
  have alone : lexerCalls [0x61] 1 1 = .error (.read 1) := rfl
  cases alone.symm.trans (calls [])

end Low
