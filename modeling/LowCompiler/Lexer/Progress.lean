import LowCompiler.Lexer.Calls

/-!
# Progress of the lexer

The keyword lines of `lexer_next` run whenever the token is an identifier, and
this may be the identifier of the call before. Then a byte that begins no token
is returned as an identifier of no bytes, again and again.
-/

namespace Low

variable {buffer text more : List UInt8} {token : Token}

/-- The call comes, with an identifier still in the token, to a byte that no branch takes. -/
def StaleIdent (token : Token) (text : List UInt8) : Prop :=
  token = .IDENT ∧ ∃ c rest, Skips .IDENT text (c :: rest) ∧ Garbage c rest

theorem StaleIdent.scan (stale : StaleIdent token text) :
    (scan token text).token = .IDENT ∧ (scan token text).rest = (scan token text).lexeme := by
  obtain ⟨rfl, c, rest, skips, garbage⟩ := stale
  rw [skips.scan, Low.scan, piece_garbage garbage]
  exact ⟨rfl, rfl⟩

/-- A scan that does not meet stale garbage takes a lexeme, or there is none left. -/
theorem scan_progress (fresh : ¬ StaleIdent token text) :
    (scan token text).token = .EOF ∨
      (scan token text).rest.length < (scan token text).lexeme.length ∧
        (scan token text).lexeme.length ≤ text.length := by
  induction length : text.length using Nat.strongRecOn generalizing text with
  | ind _ ih =>
    cases text with
    | nil =>
      rw [scan]
      exact .inl rfl
    | cons c rest =>
      rw [List.length_cons] at length
      have pos := piece_length_pos token c rest
      cases skipped : (piece token c rest).skipped with
      | some n =>
        have later : ¬ StaleIdent token (rest.drop n) := by
          intro stale
          obtain ⟨ident, d, tail, skips, garbage⟩ := stale
          subst ident
          exact fresh ⟨rfl, d, tail, .skip skipped skips, garbage⟩
        have shorter := List.length_drop (l := rest) (i := n)
        rw [scan_skip skipped]
        rcases ih _ (by omega) later rfl with eof | ⟨taken, within⟩
        · exact .inl eof
        · exact .inr ⟨taken, by omega⟩
      | none =>
        rw [scan_return skipped]
        rcases pos with pos | ⟨rfl, garbage, _⟩
        · refine .inr ⟨?_, Nat.le_of_eq length⟩
          show ((c :: rest).drop _).length < (c :: rest).length
          rw [List.length_drop, List.length_cons]
          omega
        · exact absurd ⟨rfl, c, rest, .refl _, garbage⟩ fresh

/-! ### The run -/

/-- The calls on a buffer with `more` behind it make progress: each one moves `ptr` or ends the run,
the run ends in time, and only the end has an empty lexeme. -/
structure LexerProgress (buffer more : List UInt8) : Prop where
  step : ∀ n s s', lexerCalls (buffer ++ more) buffer.length n = .ok s → lexerNext (buffer ++ more) s = .ok s' →
    s.ptr < s'.ptr ∨ s'.token = .EOF ∨ s'.token = .INVALID
  ends : ∀ n, buffer.length + 1 ≤ n → ∃ s, lexerCalls (buffer ++ more) buffer.length n = .ok s ∧
    (s.token = .EOF ∨ s.token = .INVALID)
  lexeme : ∀ n s, lexerCalls (buffer ++ more) buffer.length (n + 1) = .ok s → s.token ≠ .EOF → s.base < s.ptr

variable {s s' : Lexer}

theorem Delimited.bounded (delimited : Delimited more) : Bounded token text more :=
  fun _ _ _ _ => delimited

theorem lexerCalls_inside (buffer : Memory) (delimited : Delimited more) (n : Nat) :
    ∃ s, lexerCalls (buffer ++ more) buffer.length n = .ok s ∧ s.Inside buffer := by
  induction n with
  | zero => exact ⟨_, rfl, lexerInit_inside buffer⟩
  | succ n ih =>
    obtain ⟨r, calls, inside⟩ := ih
    obtain ⟨s, next, inside⟩ := lexerNext_inside inside delimited.bounded
    exact ⟨s, lexerCalls_step calls next, inside⟩

theorem inside_of_calls (delimited : Delimited more) {n : Nat}
    (calls : lexerCalls (buffer ++ more) buffer.length n = .ok s) : s.Inside buffer := by
  obtain ⟨r, same, inside⟩ := lexerCalls_inside buffer delimited n
  rw [calls] at same
  exact Except.ok.inj same ▸ inside

/-- One call from inside the buffer that does not meet stale garbage. -/
theorem lexerNext_progress (delimited : Delimited more) (inside : s.Inside buffer)
    (goes : s.token ≠ .INVALID ∧ s.token ≠ .EOF) (fresh : ¬ StaleIdent s.token (buffer.drop s.ptr))
    (next : lexerNext (buffer ++ more) s = .ok s') :
    s'.token = .EOF ∨ s.ptr ≤ s'.base ∧ s'.base < s'.ptr := by
  obtain ⟨r, same, stop, returned⟩ := lexerNext_eq (inside.sees more) inside.base goes delimited.bounded
  obtain rfl := Except.ok.inj (next.symm.trans same)
  have ptr := inside.ptr
  have before := inside.stop
  have behind := returned.sees.stop
  rcases scan_progress fresh with eof | ⟨taken, within⟩
  · exact .inl (returned.token.trans eof)
  · by_cases eof : (scan s.token (buffer.drop s.ptr)).token = .EOF
    · exact .inl (returned.token.trans eof)
    · have lexeme := returned.lexeme eof
      rw [List.length_drop] at within
      exact .inr ⟨by omega, by omega⟩

theorem lexerNext_stale (delimited : Delimited more) (inside : s.Inside buffer)
    (stale : StaleIdent s.token (buffer.drop s.ptr)) :
    ∃ s', lexerNext (buffer ++ more) s = .ok s' ∧ s'.token = .IDENT ∧ s'.base = s'.ptr := by
  have goes : s.token ≠ .INVALID ∧ s.token ≠ .EOF := by
    rw [stale.1]
    exact ⟨by decide, by decide⟩
  obtain ⟨s', next, stop, returned⟩ := lexerNext_eq (inside.sees more) inside.base goes delimited.bounded
  obtain ⟨ident, empty⟩ := stale.scan
  have behind := returned.sees.stop
  have lexeme := returned.lexeme (by rw [ident]; decide)
  rw [empty] at behind
  exact ⟨s', next, returned.token.trans ident, by omega⟩

/-- A run in which no call meets stale garbage ends, or is as far in the buffer as it made calls. -/
theorem lexerCalls_progress (delimited : Delimited more)
    (fresh : ∀ n s, lexerCalls (buffer ++ more) buffer.length n = .ok s →
      ¬ StaleIdent s.token (buffer.drop s.ptr)) {n : Nat}
    (calls : lexerCalls (buffer ++ more) buffer.length n = .ok s) :
    (s.token = .EOF ∨ s.token = .INVALID ∨ n ≤ s.ptr) ∧ (n = 0 ∨ s.token = .EOF ∨ s.base < s.ptr) := by
  induction n generalizing s with
  | zero => exact ⟨.inr (.inr (Nat.zero_le _)), .inl rfl⟩
  | succ n ih =>
    obtain ⟨r, before, next⟩ := lexerCalls_succ calls
    have inside := inside_of_calls delimited before
    obtain ⟨moved, lexeme⟩ := ih before
    by_cases ended : r.token = .INVALID ∨ r.token = .EOF
    · obtain rfl := Except.ok.inj ((lexerNext_ended (inside.stop ▸ inside.ptr) ended).symm.trans next)
      have notFirst : n ≠ 0 := by
        intro first
        subst first
        obtain rfl := Except.ok.inj before
        cases ended with
        | inl invalid => cases invalid
        | inr eof => cases eof
      refine ⟨?_, .inr (lexeme.resolve_left notFirst)⟩
      exact ended.elim (fun invalid => .inr (.inl invalid)) .inl
    · rcases lexerNext_progress delimited inside (not_or.mp ended) (fresh n r before) next with eof | ⟨le, lt⟩
      · exact ⟨.inl eof, .inr (.inl eof)⟩
      · refine ⟨?_, .inr (.inr lt)⟩
        rcases moved with eof | invalid | far
        · exact absurd (.inr eof) ended
        · exact absurd (.inl invalid) ended
        · exact .inr (.inr (by omega))

/-- The lexer makes progress on a buffer if and only if no call comes to a garbage byte with an
identifier left in the token. -/
theorem lexer_progress (delimited : Delimited more) :
    LexerProgress buffer more ↔ ∀ n s, lexerCalls (buffer ++ more) buffer.length n = .ok s →
      ¬ StaleIdent s.token (buffer.drop s.ptr) := by
  constructor
  · intro progress n s calls stale
    obtain ⟨s', next, ident, empty⟩ := lexerNext_stale delimited (inside_of_calls delimited calls) stale
    have lexeme := progress.lexeme n s' (lexerCalls_step calls next) (by rw [ident]; decide)
    omega
  · intro fresh
    constructor
    · intro n s s' calls next
      have inside := inside_of_calls delimited calls
      by_cases ended : s.token = .INVALID ∨ s.token = .EOF
      · obtain rfl := Except.ok.inj ((lexerNext_ended (inside.stop ▸ inside.ptr) ended).symm.trans next)
        exact .inr ended.symm
      · rcases lexerNext_progress delimited inside (not_or.mp ended) (fresh n s calls) next with eof | ⟨le, lt⟩
        · exact .inr (.inl eof)
        · exact .inl (by omega)
    · intro n enough
      obtain ⟨s, calls, inside⟩ := lexerCalls_inside buffer delimited n
      have ptr := inside.ptr
      refine ⟨s, calls, ?_⟩
      rcases (lexerCalls_progress delimited fresh calls).1 with eof | invalid | far
      · exact .inl eof
      · exact .inr invalid
      · omega
    · intro n s calls goes
      rcases (lexerCalls_progress delimited fresh calls).2 with zero | eof | lt
      · cases zero
      · exact absurd eof goes
      · exact lt

/-- An identifier and a semicolon, with a zero byte behind them. -/
theorem lexer_progress_ident : LexerProgress [0x61, 0x3b] [0] := by
  have delimited : Delimited [0] := ⟨0, rfl, rfl, rfl⟩
  have ended : ∀ n, ∃ s, lexerCalls [0x61, 0x3b, 0] 2 (n + 3) = .ok s ∧ s.token = .EOF ∧ s.ptr = 2 ∧ s.stop = 2 := by
    intro n
    induction n with
    | zero => exact ⟨_, rfl, rfl, rfl, rfl⟩
    | succ n ih =>
      obtain ⟨s, calls, eof, ptr, stop⟩ := ih
      exact ⟨s, lexerCalls_step calls (lexerNext_ended (by omega) (.inr eof)), eof, ptr, stop⟩
  apply (lexer_progress delimited).mpr
  intro n s calls stale
  match n with
  | 0 =>
    obtain rfl := Except.ok.inj calls
    cases stale.1
  | 1 =>
    obtain rfl := Except.ok.inj calls
    obtain ⟨_, c, rest, skips, garbage⟩ := stale
    cases skips with
    | refl => exact absurd garbage.2.1 (by decide)
    | skip skipped _ => cases skipped
  | 2 =>
    obtain rfl := Except.ok.inj calls
    cases stale.1
  | n + 3 =>
    obtain ⟨r, same, eof, _⟩ := ended n
    obtain rfl := Except.ok.inj (calls.symm.trans same)
    rw [stale.1] at eof
    cases eof

/-- Behind an identifier the byte `@` is returned as an identifier of no bytes. -/
theorem lexer_stuck : ¬ LexerProgress [0x61, 0x40] [0] := by
  intro progress
  have lexeme := progress.lexeme 1 _ rfl (by decide)
  exact absurd lexeme (by decide)

end Low
