import LowCompiler.Lexer.Stream

/-!
# Texts with and without comments

The tokens of a text and of the stripped text are the same if and only if no line
comment loses the newline that ends a statement, and none keeps a word from the
bytes behind the text. A lost newline is a semicolon less, and later semicolons
never make up for it. In the stripped text such a word is read on behind the end.
-/

namespace Low

/-- The token that a number of calls on a buffer return last, where there is no fault. -/
def returnedToken (mem : Memory) (len n : Nat) : Option Token := (lexerCalls mem len n).toOption.map Lexer.token

/-- The calls on the stripped text return the same tokens. -/
def Transparent (text more : List UInt8) : Prop :=
  ∀ n, returnedToken (text ++ more) text.length n =
    returnedToken (stripComments text ++ more) (stripComments text).length n

/-- The call is neither behind an error nor at the end. -/
def Goes (token : Token) : Prop := token ≠ .INVALID ∧ token ≠ .EOF

/-- The call loses no newline to a comment, and leaves no word before one at the end. -/
structure CommentsKept (token : Token) (text more : List UInt8) : Prop where
  newlines : NewlinesKept token text
  words : ¬ WordExposed token text more

/-- What holds of the token and the rest of the text, before a call that goes on. -/
def Standing.Before (P : Token → List UInt8 → Prop) : Standing → Prop
  | .inside token rest => Goes token → P token rest
  | .behind _ | .fault => True

variable {text other more rest : List UInt8} {token : Token} {c : UInt8} {standing standing' : Standing}

theorem Goes.next (goes : Goes token) (text more : List UInt8) :
    Standing.next more (.inside token text) = (scan token text).standing more :=
  Standing.next_goes goes text more

/-- The stream of the stripped text stands where it goes on like with the stripped rest. -/
def InStep : Standing → Standing → Prop
  | .inside token text, .inside token' other => token' = token ∧ scan token other = scan token (stripComments text)
  | .behind token, .behind token' => token' = token
  | .fault, .fault => True
  | _, _ => False

theorem InStep.same (step : InStep standing standing') : standing.token = standing'.token := by
  cases standing <;> cases standing' <;> first | exact step.elim | skip
  · exact congrArg some step.1.symm
  · exact congrArg some step.symm
  · rfl

theorem readOn_inStep (c : UInt8) (rest more : List UInt8) : InStep (readOn c rest more) (readOn c rest more) := by
  unfold readOn
  split
  · exact trivial
  · split
    · exact trivial
    · split
      · exact ⟨rfl, by rw [stripComments_nil]⟩
      · exact rfl

/-- A word at the end of the stripped text only is ended by the byte behind. -/
theorem CommentsKept.ends (kept : CommentsKept token text more) (counted : CountedAlong token text)
    (clear : ¬ ∃ c rest, Skips token text (c :: rest) ∧ RunsToEnd c rest)
    (skips : Skips token (stripComments text) (c :: rest)) (runs : RunsToEnd c rest) : Ends c rest more := by
  intro test word all
  rcases overruns_of_strip counted kept.newlines skips runs with there | ⟨comment, there, fresh, symbol⟩
  · exact absurd ⟨c, rest, there, runs⟩ clear
  · refine Classical.byContradiction fun goesOn => kept.words ?_
    refine ⟨c, rest, comment, there, fresh, symbol, test, word, all, fun d head => ?_⟩
    refine Classical.byContradiction fun fails => goesOn ⟨d, head, Bool.eq_false_iff.mpr fails⟩

theorem InStep.next (step : InStep standing standing') (counted : standing.Before CountedAlong)
    (kept : standing.Before fun token text => CommentsKept token text more) :
    InStep (standing.next more) (standing'.next more) := by
  cases standing <;> cases standing' <;> first | exact step.elim | skip
  · rename_i token text token' other
    obtain ⟨rfl, same⟩ := step
    by_cases ended : token' = .INVALID ∨ token' = .EOF
    · have stays : ∀ text, Standing.next more (.inside token' text) = .inside token' text := fun text => if_pos ended
      rw [stays, stays]
      exact ⟨rfl, same⟩
    · have goes : Goes token' := not_or.mp ended
      replace counted := counted goes
      replace kept := kept goes
      rw [goes.next, goes.next, same]
      by_cases meets : ∃ c rest, Skips token' text (c :: rest) ∧ RunsToEnd c rest
      · obtain ⟨c, rest, skips, runs⟩ := meets
        rw [standing_word skips runs, standing_word (overruns_strip counted kept.newlines skips runs) runs]
        exact readOn_inStep c rest more
      · rw [standing_inside fun c rest skips runs => absurd ⟨c, rest, skips, runs⟩ meets,
          standing_inside fun c rest => kept.ends counted meets]
        exact scan_strip counted kept.newlines
  · exact trivial
  · exact trivial

/-! ### Out of step -/

/-- A semicolon is returned from inside the text. -/
theorem standing_semicolon (token : Token) (text more : List UInt8) :
    (scan token text).standing more = .inside (scan token text).token (scan token text).rest ∨
      (scan token text).token ≠ .SEMICOLON ∧ ((scan token text).standing more).token ≠ some .SEMICOLON := by
  by_cases meets : ∃ c rest, Skips token text (c :: rest) ∧ RunsToEnd c rest
  · obtain ⟨c, rest, skips, runs⟩ := meets
    refine .inr ?_
    rw [standing_word skips runs, skips.scan, scan_return (runs.returns token)]
    obtain ⟨symbol, test, word, _⟩ := runs
    constructor
    · rw [piece_word_eq token symbol word]
      exact (kindOfWord_kind c _).2.2
    · unfold readOn
      rw [word]
      dsimp only
      split
      · exact nofun
      · split <;> exact fun same => (kindOfWord_kind c _).2.2 (Option.some.inj same)
  · exact .inl (standing_inside fun c rest skips runs => absurd ⟨c, rest, skips, runs⟩ meets)

theorem standing_of_semicolon (semicolon : (scan token text).token = .SEMICOLON) (more : List UInt8) :
    (scan token text).standing more = .inside .SEMICOLON (scan token text).rest := by
  rcases standing_semicolon token text more with same | ⟨other, _⟩
  · rw [same, semicolon]
  · exact absurd semicolon other

/-- A stream that is one semicolon behind ends with another token some time. -/
theorem Lags.differ (lags : Lags text other)
    (counted : ∀ n, ((Standing.next more)^[n] (.inside .SEMICOLON text)).Before CountedAlong) :
    ∃ n, ((Standing.next more)^[n] (.inside .SEMICOLON text)).token ≠
      ((Standing.next more)^[n] (.inside .SEMICOLON other)).token := by
  induction length : text.length using Nat.strongRecOn generalizing text other with
  | ind _ ih =>
    have goes : Goes .SEMICOLON := by
      unfold Goes
      decide
    have second := (goes.next other more).trans (standing_of_semicolon lags.1 more)
    rcases standing_semicolon .SEMICOLON text more with inside | ⟨_, differs⟩
    · by_cases semicolon : (scan .SEMICOLON text).token = .SEMICOLON
      · have first := (goes.next text more).trans (standing_of_semicolon semicolon more)
        have fresh : ¬ StaleIdent .SEMICOLON text := fun stale => absurd stale.1 (by decide)
        rcases scan_progress fresh with eof | ⟨taken, within⟩
        · rw [eof] at semicolon
          cases semicolon
        · have later (n : Nat) : ((Standing.next more)^[n] (.inside .SEMICOLON (scan .SEMICOLON text).rest)).Before CountedAlong := by
            have here := counted (n + 1)
            rwa [Function.iterate_succ_apply, first] at here
          obtain ⟨n, differ⟩ := ih _ (by omega) (lags.next (counted 0 goes) semicolon) later rfl
          refine ⟨n + 1, ?_⟩
          rw [Function.iterate_succ_apply, Function.iterate_succ_apply, first, second]
          exact differ
      · refine ⟨1, ?_⟩
        rw [Function.iterate_one, second, goes.next, inside]
        exact fun same => semicolon (Option.some.inj same)
    · refine ⟨1, ?_⟩
      rw [Function.iterate_one, second, goes.next]
      exact differs

/-- As long as the streams agree, no newline is lost. -/
theorem InStep.newlines (step : InStep standing standing')
    (counted : ∀ n, ((Standing.next more)^[n] standing).Before CountedAlong)
    (same : ∀ n, ((Standing.next more)^[n] standing).token = ((Standing.next more)^[n] standing').token) :
    standing.Before NewlinesKept := by
  cases standing <;> cases standing' <;> first | exact step.elim | skip
  · rename_i token text token' other
    obtain ⟨rfl, again⟩ := step
    intro goes
    have here : CountedAlong token' text := counted 0 goes
    rcases kept_or_lost here with kept | ⟨behind, ends, skips, semicolon, rest, lost⟩
    · exact kept
    · have first : Standing.next more (.inside token' text) = (scan token' behind).standing more := by
        rw [goes.next, skips.scan]
      have second : Standing.next more (.inside token' other) = .inside .SEMICOLON (stripComments behind) := by
        rw [goes.next, again, standing_of_semicolon semicolon, rest]
      have one := same 1
      rw [Function.iterate_one, first, second] at one
      rcases standing_semicolon token' behind more with inside | ⟨_, differs⟩
      · rw [inside] at one first
        have found : (scan token' behind).token = .SEMICOLON := Option.some.inj one
        rw [found] at first
        have later (n : Nat) : ((Standing.next more)^[n] (.inside .SEMICOLON (scan token' behind).rest)).Before CountedAlong := by
          have here := counted (n + 1)
          rwa [Function.iterate_succ_apply, first] at here
        obtain ⟨n, differ⟩ := (lags_of_lost (here.skips skips) lost found).differ later
        have both := same (n + 1)
        rw [Function.iterate_succ_apply, Function.iterate_succ_apply, first, second] at both
        exact absurd both differ
      · exact absurd one differs
  · exact trivial
  · exact trivial

/-- A word that is read on behind the end leaves the next call with a fault. -/
theorem readOn_next {test : UInt8 → Bool} {word : List UInt8} (isTest : restTest c = some test) (all : ∀ d ∈ word, test d)
    (goesOn : ∀ d ∈ more.head?, test d) : (readOn c word more).next more = .fault := by
  unfold readOn
  rw [isTest]
  dsimp only
  cases more with
  | nil =>
    rw [if_pos (by simpa using all)]
    rfl
  | cons d more =>
    have pass : test d = true := goesOn d rfl
    split
    · rfl
    · rw [if_neg (by simp [pass])]
      rfl

section Exposed
variable {test : UInt8 → Bool} {word comment : List UInt8}

theorem takeWhile_exposed (isTest : restTest c = some test) (all : ∀ d ∈ word, test d) (comment : List UInt8) :
    (word ++ '/'.toUInt8 :: comment).takeWhile test = word := by
  have slash : ¬ test '/'.toUInt8 = true := fun pass => ((word_plain isTest).2 _ pass).1 rfl
  rw [List.takeWhile_append_of_pos all, List.takeWhile_cons_of_neg slash, List.append_nil]

/-- In the text the word ends at the comment. -/
theorem standing_exposed (isTest : restTest c = some test) (all : ∀ d ∈ word, test d)
    (skips : Skips token text (c :: (word ++ '/'.toUInt8 :: '/'.toUInt8 :: comment)))
    (symbol : symbolPiece (c :: (word ++ '/'.toUInt8 :: '/'.toUInt8 :: comment)) = none) (more : List UInt8) :
    (scan token text).standing more = .inside (kindOfWord c word) ('/'.toUInt8 :: '/'.toUInt8 :: comment) := by
  have found := piece_word_eq token symbol isTest
  rw [takeWhile_exposed isTest all] at found
  have short : ¬ RunsToEnd c (word ++ '/'.toUInt8 :: '/'.toUInt8 :: comment) := by
    rintro ⟨_, test', isTest', runs⟩
    obtain rfl := Option.some.inj (isTest.symm.trans isTest')
    exact ((word_plain isTest).2 _ (runs '/'.toUInt8 (by simp))).1 rfl
  rw [skips.scan, scan_return (by rw [found]; rfl), found]
  refine (if_neg short).trans ?_
  show Standing.inside _ ((word ++ '/'.toUInt8 :: '/'.toUInt8 :: comment).drop word.length) = _
  rw [List.drop_left]
  rfl

/-- Behind the word the comment is skipped, up to the end. -/
theorem skips_exposed (counted : CountedAt '/'.toUInt8 ('/'.toUInt8 :: comment)) (fresh : '\n'.toUInt8 ∉ comment)
    (token : Token) : Skips token ('/'.toUInt8 :: '/'.toUInt8 :: comment) [] := by
  have skipped : (piece token _ _).skipped = _ := congrArg Piece.skipped (piece_line (counted.comment ⟨rfl, .inl rfl⟩))
  refine .skip skipped ?_
  show Skips token (comment.drop (lineLength comment)) []
  rcases lineLength_cases comment with ⟨_, ends⟩ | ⟨_, split, _⟩
  · rw [ends]
    exact .refl []
  · exact absurd (split ▸ by simp) fresh

theorem stripComments_exposed (isTest : restTest c = some test) (all : ∀ d ∈ word, test d)
    (fresh : '\n'.toUInt8 ∉ comment) :
    stripComments (c :: (word ++ '/'.toUInt8 :: '/'.toUInt8 :: comment)) = c :: word := by
  obtain ⟨first, plain⟩ := word_plain isTest
  have gone : comment.dropWhile (fun d => d != '\n'.toUInt8) = [] :=
    List.dropWhile_eq_nil_iff.mpr fun d member => bne_iff_ne.mpr fun same => fresh (same ▸ member)
  rw [stripComments_plain first, stripComments_append fun d member => plain d (all d member), stripComments_line, gone,
    stripComments_nil, List.append_nil]

end Exposed

/-- As long as the streams agree, no word is left before a comment at the end. -/
theorem InStep.words (step : InStep standing standing')
    (counted : ∀ n, ((Standing.next more)^[n] standing).Before CountedAlong)
    (same : ∀ n, ((Standing.next more)^[n] standing).token = ((Standing.next more)^[n] standing').token)
    (newlines : standing.Before NewlinesKept) :
    standing.Before fun token text => ¬ WordExposed token text more := by
  cases standing <;> cases standing' <;> first | exact step.elim | skip
  · rename_i token text token' other
    obtain ⟨rfl, again⟩ := step
    rintro goes ⟨c, word, comment, skips, fresh, symbol, test, isTest, all, goesOn⟩
    have here : CountedAlong token' text := counted 0 goes
    have first : Standing.next more (.inside token' text) = .inside (kindOfWord c word) ('/'.toUInt8 :: '/'.toUInt8 :: comment) :=
      (goes.next text more).trans (standing_exposed isTest all skips symbol more)
    have kind : Goes (kindOfWord c word) := ⟨(kindOfWord_kind c word).1, (kindOfWord_kind c word).2.1⟩
    have ended : Standing.next more (.inside (kindOfWord c word) ('/'.toUInt8 :: '/'.toUInt8 :: comment)) = .inside .EOF [] := by
      have later : CountedAlong (kindOfWord c word) ('/'.toUInt8 :: '/'.toUInt8 :: comment) := by
        have one := counted 1
        rw [Function.iterate_one, first] at one
        exact one kind
      rw [kind.next, (skips_exposed later.here fresh _).scan, scan]
      rfl
    have strips := stripComments_exposed isTest all fresh
    have plain := (word_plain isTest).1
    have there : Skips token' (stripComments text) (c :: word) := by
      have found := piece_word_eq token' symbol isTest
      have returns := returns_cons (show (piece token' c (word ++ _)).skipped = none by rw [found]; rfl)
      rcases (newlines goes).strip here skips returns with same | ⟨_, _, _, newline, _⟩
      · rwa [strips] at same
      · exact absurd (List.cons.inj newline).1 plain.2.2.2
    have runs : RunsToEnd c word := by
      have agrees := (here _ _ skips).symbol fun start => plain.1 start.1
      rw [stripComments_plain plain] at strips
      rw [(List.cons.inj strips).2] at agrees
      exact ⟨agrees.trans symbol, test, isTest, all⟩
    have second : Standing.next more (.inside token' other) = readOn c word more := by
      rw [goes.next, again, standing_word there runs]
    have two := same 2
    simp only [Function.iterate_succ_apply, Function.iterate_zero_apply, first, second, ended,
      readOn_next isTest all goesOn] at two
    cases two
  · exact trivial
  · exact trivial

/-! ### The runs -/

theorem inStep_init (text : List UInt8) : InStep (.inside .SOF text) (.inside .SOF (stripComments text)) := ⟨rfl, rfl⟩

theorem standingAfter_strip_iff (counted : ∀ n, (standingAfter text more n).Before CountedAlong) :
    (∀ n, (standingAfter text more n).token = (standingAfter (stripComments text) more n).token) ↔
      ∀ n, (standingAfter text more n).Before fun token rest => CommentsKept token rest more := by
  have later (n m : Nat) (text : List UInt8) :
      standingAfter text more (m + n) = (Standing.next more)^[m] (standingAfter text more n) :=
    Function.iterate_add_apply _ m n _
  constructor
  · intro same
    have kept (n : Nat) (step : InStep (standingAfter text more n) (standingAfter (stripComments text) more n)) :
        (standingAfter text more n).Before fun token rest => CommentsKept token rest more := by
      have counted' (m : Nat) : ((Standing.next more)^[m] (standingAfter text more n)).Before CountedAlong :=
        later n m text ▸ counted (m + n)
      have same' (m : Nat) : ((Standing.next more)^[m] (standingAfter text more n)).token =
          ((Standing.next more)^[m] (standingAfter (stripComments text) more n)).token := by
        rw [← later, ← later]
        exact same (m + n)
      have newlines := step.newlines counted' same'
      have words := step.words counted' same' newlines
      generalize standingAfter text more n = standing at newlines words ⊢
      cases standing with
      | inside => exact fun goes => ⟨newlines goes, words goes⟩
      | _ => exact trivial
    have steps (n : Nat) : InStep (standingAfter text more n) (standingAfter (stripComments text) more n) := by
      induction n with
      | zero => exact inStep_init text
      | succ n ih =>
        rw [standingAfter_succ, standingAfter_succ]
        exact ih.next (counted n) (kept n ih)
    exact fun n => kept n (steps n)
  · intro kept n
    suffices step : InStep (standingAfter text more n) (standingAfter (stripComments text) more n) from step.same
    induction n with
    | zero => exact inStep_init text
    | succ n ih =>
      rw [standingAfter_succ, standingAfter_succ]
      exact ih.next (counted n) (kept n)

/-- What holds before the calls of the stream holds before those of the lexer. -/
theorem before_calls {P : Token → List UInt8 → Prop} (none : ∀ token, P token []) (text more : List UInt8) :
    (∀ n, (standingAfter text more n).Before P) ↔
      ∀ n s, lexerCalls (text ++ more) text.length n = .ok s → Goes s.token → P s.token (text.drop s.ptr) := by
  constructor
  · intro before n s calls goes
    have here := before n
    have at_ := lexerCalls_standsAt text more n
    rw [calls] at at_
    generalize standingAfter text more n = standing at here at_
    cases at_ with
    | inside _ same rest =>
      subst same rest
      exact here goes
    | behind further =>
      rw [List.drop_eq_nil_of_le (Nat.le_of_lt further)]
      exact none s.token
  · intro calls n
    have here := calls n
    have at_ := lexerCalls_standsAt text more n
    generalize standingAfter text more n = standing at at_ ⊢
    generalize lexerCalls (text ++ more) text.length n = run at here at_
    cases at_ with
    | inside _ same rest =>
      subst same rest
      exact here _ rfl
    | _ => exact trivial

theorem counted_nil (token : Token) : CountedAlong token [] := by
  intro c rest skips
  cases skips

theorem commentsKept_nil (token : Token) (more : List UInt8) : CommentsKept token [] more where
  newlines := by
    intro _ comment behind skips line
    cases skips
    obtain ⟨_, same, _⟩ := line
    cases same
  words := by
    rintro ⟨_, _, _, skips, _⟩
    cases skips

/-- Where the calls count enough bytes behind each place that they come to, the stripped text has the same
tokens if and only if no call loses a newline that ends a statement, or leaves a word before a line comment
at the end that the bytes behind the text go on with. -/
theorem comments_transparent (text more : List UInt8)
    (counted : ∀ n s, lexerCalls (text ++ more) text.length n = .ok s → Goes s.token → CountedAlong s.token (text.drop s.ptr)) :
    Transparent text more ↔ ∀ n s, lexerCalls (text ++ more) text.length n = .ok s → Goes s.token →
      CommentsKept s.token (text.drop s.ptr) more := by
  have tokens (text : List UInt8) (n : Nat) :
      returnedToken (text ++ more) text.length n = (standingAfter text more n).token :=
    (lexerCalls_standsAt text more n).returned
  have same : Transparent text more ↔
      ∀ n, (standingAfter text more n).token = (standingAfter (stripComments text) more n).token := by
    unfold Transparent
    simp only [tokens]
  have stream := standingAfter_strip_iff ((before_calls counted_nil text more).mpr counted)
  exact same.trans (stream.trans (before_calls (fun token => commentsKept_nil token more) text more))

theorem Skips.suffix (skips : Skips token text rest) : rest <:+ text := by
  induction skips with
  | refl => exact List.suffix_rfl
  | skip _ _ ih => exact ih.trans ((List.drop_suffix _ _).trans (List.suffix_cons _ _))

/-- Where a newline ends the text, no comment does. -/
theorem not_wordExposed (newline : text.getLast? = some '\n'.toUInt8) : ¬ WordExposed token text more := by
  rintro ⟨c, word, comment, skips, fresh, _⟩
  obtain ⟨before, rfl⟩ := skips.suffix
  have whole : before ++ c :: (word ++ '/'.toUInt8 :: '/'.toUInt8 :: comment) =
      (before ++ c :: word ++ ['/'.toUInt8]) ++ '/'.toUInt8 :: comment := by simp
  rw [whole, List.getLast?_append_of_ne_nil _ (List.cons_ne_nil _ _)] at newline
  rcases List.mem_cons.mp (List.mem_of_getLast? newline) with slash | member
  · exact absurd slash (by decide)
  · exact fresh member

/-- An identifier, an empty line comment and another newline. What stands behind would go on with an
identifier. -/
theorem comments_transparent_blank : Transparent [0x61, 0x2f, 0x2f, 0x0a, 0x0a] [0x62] := by
  have short : Short [0x61, 0x2f, 0x2f, 0x0a, 0x0a] := by decide
  have ended : ∀ n, ∃ s, lexerCalls [0x61, 0x2f, 0x2f, 0x0a, 0x0a, 0x62] 5 (n + 3) = .ok s ∧ s.token = .EOF ∧
      s.ptr = 5 ∧ s.stop = 5 := by
    intro n
    induction n with
    | zero => exact ⟨_, rfl, rfl, rfl, rfl⟩
    | succ n ih =>
      obtain ⟨s, calls, eof, ptr, stop⟩ := ih
      exact ⟨s, lexerCalls_step calls (lexerNext_ended (by omega) (.inr eof)), eof, ptr, stop⟩
  have kept : NewlinesKept .IDENT [0x2f, 0x2f, 0x0a, 0x0a] := by
    intro _ comment behind skips line
    have skipped : (piece .IDENT 0x2f [0x2f, 0x0a, 0x0a]).skipped = some 2 := rfl
    cases skips with
    | refl =>
      have counted : CountedAt 0x2f [0x2f, 0x0a, 0x0a] := Short.countedAt (by decide)
      exact ⟨[], line.skips counted skipped ▸ .refl _⟩
    | skip skipped' skips =>
      obtain rfl := Option.some.inj (skipped.symm.trans skipped')
      cases skips with
      | refl =>
        obtain ⟨_, same, _⟩ := line
        cases same
      | skip newline _ => cases newline
  refine (comments_transparent _ _ fun n s _ _ => (short.of_le (by simp)).counted).mpr fun n s calls goes => ?_
  match n with
  | 0 =>
    obtain rfl := Except.ok.inj calls
    exact ⟨fun ends => absurd ends (by decide), not_wordExposed (by decide)⟩
  | 1 =>
    have first : ∃ r, lexerCalls [0x61, 0x2f, 0x2f, 0x0a, 0x0a, 0x62] 5 1 = .ok r ∧ r.token = .IDENT ∧ r.ptr = 1 :=
      ⟨_, rfl, rfl, rfl⟩
    obtain ⟨r, same, ident, ptr⟩ := first
    obtain rfl := Except.ok.inj (calls.symm.trans same)
    rw [ident, ptr]
    exact ⟨kept, not_wordExposed (by decide)⟩
  | 2 =>
    have second : ∃ r, lexerCalls [0x61, 0x2f, 0x2f, 0x0a, 0x0a, 0x62] 5 2 = .ok r ∧ r.token = .SEMICOLON ∧ r.ptr = 5 :=
      ⟨_, rfl, rfl, rfl⟩
    obtain ⟨r, same, semicolon, ptr⟩ := second
    obtain rfl := Except.ok.inj (calls.symm.trans same)
    rw [semicolon, ptr]
    exact commentsKept_nil .SEMICOLON [0x62]
  | n + 3 =>
    obtain ⟨r, same, eof, _⟩ := ended n
    obtain rfl := Except.ok.inj (calls.symm.trans same)
    exact absurd eof goes.2

/-- Without the comment the newline behind the identifier inserts a semicolon. -/
theorem newline_lost : ¬ Transparent [0x61, 0x2f, 0x2f, 0x0a] [0] := by
  intro same
  have stripped : stripComments [0x61, 0x2f, 0x2f, 0x0a] = [0x61, 0x0a] := by
    have line : LineComment [0x2f, 0x2f, 0x0a] [] := ⟨[], rfl, List.not_mem_nil⟩
    rw [stripComments_plain (by decide), line.strip, stripComments_nil]
    rfl
  have second := same 2
  rw [stripped] at second
  exact absurd second (by decide)

end Low
