import LowCompiler.Lexer.Bounds
import LowCompiler.Lexer.Coverage
import Mathlib.Logic.Function.Iterate

/-!
# The calls as a stream

What the calls leave depends on the token of the call before, on the text that
remains and on the bytes behind it (`lexerCalls_standsAt`). A word at the end of the
text is read on behind it, and then the next call fails its assertion.
-/

namespace Low

inductive Standing where
  | inside (token : Token) (rest : List UInt8)
  /-- Behind the end of the text. -/
  | behind (token : Token)
  | fault

def Standing.token : Standing → Option Token
  | .inside token _ | .behind token => some token
  | .fault => none

/-- A word that goes on up to the end of the text, read on behind it. -/
def readOn (c : UInt8) (rest more : List UInt8) : Standing :=
  match restTest c with
  | none => .fault
  | some test =>
    if (rest ++ more).all test then .fault
    else if more.takeWhile test = [] then .inside (kindOfWord c rest) []
    else .behind (kindOfWord c (rest ++ more.takeWhile test))

variable {self : Lexer} {c : UInt8} {token : Token} {rest text more : List UInt8}

instance (c : UInt8) (rest : List UInt8) : Decidable (RunsToEnd c rest) :=
  decidable_of_iff ((symbolPiece (c :: rest)).isNone ∧ (restTest c).any fun test => rest.all test) (by
    simp [RunsToEnd, Option.any_eq_true])

/-- Where a call leaves the lexer that scans this. -/
def Scanned.standing (scanned : Scanned) (more : List UInt8) : Standing :=
  match scanned.lexeme with
  | [] => .inside scanned.token scanned.rest
  | c :: rest => if RunsToEnd c rest then readOn c rest more else .inside scanned.token scanned.rest

def Standing.next (more : List UInt8) : Standing → Standing
  | .inside token rest =>
    if token = .INVALID ∨ token = .EOF then .inside token rest else (scan token rest).standing more
  | .behind _ | .fault => .fault

def standingAfter (text more : List UInt8) (n : Nat) : Standing := (Standing.next more)^[n] (.inside .SOF text)

theorem standingAfter_succ (text more : List UInt8) (n : Nat) :
    standingAfter text more (n + 1) = (standingAfter text more n).next more :=
  Function.iterate_succ_apply' (Standing.next more) n (.inside .SOF text)

theorem Standing.next_goes (goes : token ≠ .INVALID ∧ token ≠ .EOF) (text more : List UInt8) :
    Standing.next more (.inside token text) = (scan token text).standing more :=
  if_neg fun ended => ended.elim goes.1 goes.2

theorem standing_word (skips : Skips token text (c :: rest)) (runs : RunsToEnd c rest) :
    (scan token text).standing more = readOn c rest more := by
  rw [skips.scan, scan_return (runs.returns token)]
  exact if_pos runs

theorem kindOfWord_kind (c : UInt8) (rest : List UInt8) :
    kindOfWord c rest ≠ .INVALID ∧ kindOfWord c rest ≠ .EOF ∧ kindOfWord c rest ≠ .SEMICOLON := by
  have kinds : ∀ entry ∈ keywords, entry.2 ≠ .INVALID ∧ entry.2 ≠ .EOF ∧ entry.2 ≠ .SEMICOLON := by decide
  unfold kindOfWord
  split
  · decide
  · rw [checkKeywords_eq]
    unfold wordToken
    split
    · rename_i found
      exact kinds _ (List.mem_of_find?_eq_some found)
    · decide

/-- Where the byte behind the text ends the word, reading on comes to the end of the text. -/
theorem readOn_ends (runs : RunsToEnd c rest) (ends : Ends c rest more) (token : Token) :
    readOn c rest more = .inside (piece token c rest).kind ((c :: rest).drop (piece token c rest).length) := by
  obtain ⟨symbol, test, word, all⟩ := runs
  obtain ⟨d, head, fails⟩ := ends test word all
  obtain ⟨more', rfl⟩ : ∃ more', more = d :: more' := by
    cases more with
    | nil => cases head
    | cons e more' => exact ⟨more', congrArg (· :: more') (Option.some.inj head)⟩
  have whole : rest.takeWhile test = rest := List.takeWhile_eq_self_iff.mpr all
  rw [piece_word_eq token symbol word, whole]
  unfold readOn
  rw [word]
  simp [fails, Piece.kind, Piece.length]

/-- Where the byte behind the text ends a word there, the call stays in the text. -/
theorem standing_inside (ends : ∀ c rest, Skips token text (c :: rest) → RunsToEnd c rest → Ends c rest more) :
    (scan token text).standing more = .inside (scan token text).token (scan token text).rest := by
  obtain ⟨text', skips, rfl | ⟨c, rest, rfl, returns⟩⟩ := exists_return token text
  · rw [skips.scan, scan]
    rfl
  · by_cases runs : RunsToEnd c rest
    · rw [standing_word skips runs, skips.scan, scan_return returns]
      exact readOn_ends runs (ends c rest skips runs) token
    · rw [skips.scan, scan_return returns]
      exact if_neg runs

/-! ### The calls -/

/-- What a call leaves, against the stream. -/
inductive StandsAt (text : List UInt8) : Except LexerFault Lexer → Standing → Prop where
  | inside {s : Lexer} {token : Token} {rest : List UInt8} :
      s.Inside text → s.token = token → text.drop s.ptr = rest → StandsAt text (.ok s) (.inside token rest)
  | behind {s : Lexer} {token : Token} :
      text.length < s.ptr → s.stop = text.length → s.token = token → StandsAt text (.ok s) (.behind token)
  | fault {fault : LexerFault} : StandsAt text (.error fault) .fault

theorem StandsAt.returned {run : Except LexerFault Lexer} {standing : Standing} (at_ : StandsAt text run standing) :
    run.toOption.map Lexer.token = standing.token := by
  cases at_ with
  | inside _ same _ => exact congrArg some same
  | behind _ _ same => exact congrArg some same
  | fault => rfl

/-- Behind the loop of a word at the end of the text. -/
theorem word_standsAt {test : UInt8 → Bool} (there : self.Sees (text ++ more) (c :: rest) more)
    (stop : self.stop = text.length) (taken : (rest ++ more).takeWhile test = rest ++ more.takeWhile test) :
    StandsAt text (.ok { self.start.advance (text ++ more) ((rest ++ more.takeWhile test).length + 1) with
        token := wordKind (text ++ more) c (self.start.advance (text ++ more) ((rest ++ more.takeWhile test).length + 1)) })
      (if more.takeWhile test = [] then .inside (kindOfWord c rest) []
        else .behind (kindOfWord c (rest ++ more.takeWhile test))) := by
  have length := there.stop
  have lexeme : ((text ++ more).drop self.ptr).take ((rest ++ more.takeWhile test).length + 1) =
      c :: (rest ++ more.takeWhile test) := by
    rw [there.bytes, List.cons_append, List.take_succ_cons, ← taken,
      ← List.prefix_iff_eq_take.mp (List.takeWhile_prefix test)]
  have kind : wordKind (text ++ more) c (self.start.advance (text ++ more) ((rest ++ more.takeWhile test).length + 1)) =
      kindOfWord c (rest ++ more.takeWhile test) := by
    unfold wordKind kindOfWord
    rw [Lexer.advance_base, Lexer.advance_ptr]
    show (if _ then _ else checkKeywords (((text ++ more).drop self.ptr).take (self.ptr + _ - self.ptr))) = _
    rw [Nat.add_sub_cancel_left, lexeme]
  have base : (self.start.advance (text ++ more) ((rest ++ more.takeWhile test).length + 1)).base = self.ptr :=
    Lexer.advance_base _
  have ptr : (self.start.advance (text ++ more) ((rest ++ more.takeWhile test).length + 1)).ptr =
      self.ptr + ((rest ++ more.takeWhile test).length + 1) := Lexer.advance_ptr _
  have same : (self.start.advance (text ++ more) ((rest ++ more.takeWhile test).length + 1)).stop = self.stop :=
    Lexer.advance_stop _
  generalize self.start.advance (text ++ more) ((rest ++ more.takeWhile test).length + 1) = r at kind base ptr same ⊢
  rw [List.length_append] at ptr
  rw [List.length_cons] at length
  by_cases ends : more.takeWhile test = []
  · rw [ends, List.append_nil] at kind
    rw [ends, List.length_nil] at ptr
    rw [if_pos ends]
    exact .inside ⟨show r.base ≤ r.ptr by omega, show r.ptr ≤ _ by omega, same.trans stop⟩ kind
      (List.drop_eq_nil_of_le (show _ ≤ r.ptr by omega))
  · have further := List.length_pos_iff.mpr ends
    rw [if_neg ends]
    exact .behind (show _ < r.ptr by omega) (same.trans stop) kind

/-- A call that comes to a word at the end of the text reads on. -/
theorem lexerNext_word (inside : self.Inside text) (goes : self.token ≠ .INVALID ∧ self.token ≠ .EOF)
    (skips : Skips self.token (text.drop self.ptr) (c :: rest)) (runs : RunsToEnd c rest) :
    StandsAt text (lexerNext (text ++ more) self) (readOn c rest more) := by
  have sees := inside.sees more
  have stop := sees.stop
  obtain ⟨symbol, test, word, all⟩ := runs
  obtain ⟨turns, s, loop, there, same⟩ := lexerLoop_word sees inside.base skips
    (show (text.drop self.ptr).length < self.stop - self.ptr + 1 by omega)
  have bytes := there.start.stepped.bytes
  have enough : (rest ++ more).length < (text ++ more).length - (s.start.stepped (text ++ more)).ptr + 1 := by
    rw [← bytes, List.length_drop]
    omega
  have next : lexerNext (text ++ more) self = lexerLoop (text ++ more) (turns + 1) s := by
    unfold lexerNext
    rw [if_neg (by omega), if_neg fun ended => ended.elim goes.1 goes.2, loop]
  rw [next, lexerLoop, if_neg there.ne_stop, lexerTurn_word_eq there symbol word, consumeWhile_takes bytes enough]
  unfold readOn
  rw [word]
  dsimp only
  by_cases whole : (rest ++ more).all test = true
  · rw [if_pos whole, if_pos whole]
    exact .fault
  · rw [if_neg whole, if_neg whole]
    have taken : (rest ++ more).takeWhile test = rest ++ more.takeWhile test := List.takeWhile_append_of_pos all
    rw [taken]
    exact word_standsAt there (same.trans inside.stop) taken

theorem lexerNext_standsAt (inside : self.Inside text) (more : List UInt8) :
    StandsAt text (lexerNext (text ++ more) self) (Standing.next more (.inside self.token (text.drop self.ptr))) := by
  by_cases ended : self.token = .INVALID ∨ self.token = .EOF
  · rw [lexerNext_ended (inside.stop ▸ inside.ptr) ended]
    rw [Standing.next, if_pos ended]
    exact .inside inside rfl rfl
  · have goes := not_or.mp ended
    rw [Standing.next_goes goes]
    by_cases meets : ∃ c rest, Skips self.token (text.drop self.ptr) (c :: rest) ∧ RunsToEnd c rest
    · obtain ⟨c, rest, skips, runs⟩ := meets
      rw [standing_word skips runs]
      exact lexerNext_word inside goes skips runs
    · have clear : Clear self.token (text.drop self.ptr) := fun c rest skips runs => meets ⟨c, rest, skips, runs⟩
      obtain ⟨s, next, stop, returned⟩ := lexerNext_eq (inside.sees more) inside.base goes clear.bounded
      have same := stop.trans inside.stop
      rw [standing_inside fun c rest skips runs => absurd runs (clear c rest skips), next]
      exact .inside (returned.inside same) returned.token (returned.sees.rest_eq same).2.symm

/-- The calls of the lexer are the stream. -/
theorem lexerCalls_standsAt (text more : List UInt8) (n : Nat) :
    StandsAt text (lexerCalls (text ++ more) text.length n) (standingAfter text more n) := by
  induction n with
  | zero => exact .inside (lexerInit_inside text) rfl rfl
  | succ n ih =>
    rw [standingAfter_succ]
    unfold lexerCalls
    generalize lexerCalls (text ++ more) text.length n = run at ih ⊢
    generalize standingAfter text more n = standing at ih ⊢
    cases ih with
    | inside inside same rest =>
      subst same rest
      exact lexerNext_standsAt inside more
    | @behind s _ behind stop _ =>
      show StandsAt text (lexerNext (text ++ more) s) .fault
      unfold lexerNext
      rw [if_pos (stop ▸ behind)]
      exact .fault
    | fault => exact .fault

end Low
