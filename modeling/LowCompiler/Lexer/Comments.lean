import LowCompiler.Lexer.Progress
import LowCompiler.Lexer.Strip

/-!
# A call on a stripped text

A line comment takes its newline with it, so the newline inserts no semicolon. A
call on the stripped text returns what the call on the text returns, where behind
each line comment that ends a statement there is another newline before anything
else (`scan_strip`). Elsewhere it returns a semicolon first (`kept_or_lost`). A
word that a line comment keeps from the end of the text stands at the end of the
stripped text (`overruns_of_strip`).
-/

namespace Low

variable {c : UInt8} {n : Nat} {rest behind text more : List UInt8} {token token' : Token}

/-! ### Skipping a stripped text -/

/-- The text begins with a line comment and its newline, and `behind` follows. -/
def LineComment (text behind : List UInt8) : Prop :=
  ∃ comment, text = '/'.toUInt8 :: '/'.toUInt8 :: (comment ++ '\n'.toUInt8 :: behind) ∧
    '\n'.toUInt8 ∉ comment

theorem lineLength_cases (text : List UInt8) :
    ((text.dropWhile fun d => d != '\n'.toUInt8) = [] ∧ text.drop (lineLength text) = []) ∨
      ∃ comment, text = comment ++ '\n'.toUInt8 :: text.drop (lineLength text) ∧ '\n'.toUInt8 ∉ comment ∧
        (text.dropWhile fun d => d != '\n'.toUInt8) = '\n'.toUInt8 :: text.drop (lineLength text) := by
  induction text with
  | nil => exact .inl ⟨rfl, rfl⟩
  | cons c rest ih =>
    unfold lineLength
    by_cases newline : c = '\n'.toUInt8
    · subst newline
      exact .inr ⟨[], rfl, List.not_mem_nil, rfl⟩
    · have passes : (c != '\n'.toUInt8) = true := bne_iff_ne.mpr newline
      rw [if_neg newline, List.dropWhile_cons, if_pos passes]
      rcases ih with none | ⟨comment, split, fresh, found⟩
      · exact .inl none
      · refine .inr ⟨c :: comment, congrArg (c :: ·) split, ?_, found⟩
        intro member
        rcases List.mem_cons.mp member with same | member
        · exact newline same.symm
        · exact fresh member

theorem lineLength_comment {comment : List UInt8} (fresh : '\n'.toUInt8 ∉ comment) (behind : List UInt8) :
    lineLength (comment ++ '\n'.toUInt8 :: behind) = comment.length + 1 := by
  induction comment with
  | nil => exact if_pos rfl
  | cons c comment ih =>
    show (if c = '\n'.toUInt8 then 1 else lineLength (comment ++ _) + 1) = _
    have other : c ≠ '\n'.toUInt8 := by
      intro same
      subst same
      exact fresh List.mem_cons_self
    rw [if_neg other, ih fun member => fresh (List.mem_cons_of_mem c member)]
    rfl

theorem blockLength_cases (text : List UInt8) :
    (behindBlock text = none ∧ text.drop (blockLength text) = []) ∨
      behindBlock text = some (text.drop (blockLength text)) := by
  induction text with
  | nil => exact .inl ⟨rfl, rfl⟩
  | cons c rest ih =>
    unfold behindBlock blockLength
    by_cases closed : c = '*'.toUInt8 ∧ rest.head? = some '/'.toUInt8
    · rw [if_pos closed, if_pos closed]
      exact .inr (congrArg some List.drop_one.symm)
    · rw [if_neg closed, if_neg closed]
      exact ih

theorem piece_newline (token : Token) (rest : List UInt8) :
    piece token '\n'.toUInt8 rest = if token ∈ terminators then .token .SEMICOLON 1 else .blank := by
  have white : isWhitespace '\n'.toUInt8 = true := by decide
  unfold piece
  rw [if_pos white]
  by_cases ends : token ∈ terminators
  · rw [if_pos ⟨rfl, ends⟩, if_pos ends]
  · rw [if_neg fun both => ends both.2, if_neg ends]

/-- Where two bytes are counted, the two that begin a comment are found to do so. -/
theorem piece_comment {d : UInt8} {p : Piece} (two : 2 ≤ unsigned (rest.length + 2))
    (comment : commentPiece ('/'.toUInt8 :: d :: rest) = some p) :
    piece token '/'.toUInt8 (d :: rest) = p := by
  have none : operatorPiece tokens3 ('/'.toUInt8 :: d :: rest) = none := rfl
  have symbol : symbolPiece ('/'.toUInt8 :: d :: rest) = some p := by
    unfold symbolPiece
    dsimp only [List.length_cons]
    rw [none, ite_self, if_pos two, comment]
    rfl
  unfold piece
  rw [if_neg (by decide), symbol]
  rfl

theorem piece_line (two : 2 ≤ unsigned (rest.length + 2)) :
    piece token '/'.toUInt8 ('/'.toUInt8 :: rest) = .comment (lineLength rest + 1) :=
  piece_comment two rfl

theorem piece_block (two : 2 ≤ unsigned (rest.length + 2)) :
    piece token '/'.toUInt8 ('*'.toUInt8 :: rest) = .comment (blockLength rest + 1) :=
  piece_comment two rfl

/-- What is skipped with some token is skipped with the semicolon. -/
theorem piece_semicolon_skipped (skipped : (piece token c rest).skipped = some n) :
    (piece .SEMICOLON c rest).skipped = some n := by
  unfold piece at skipped ⊢
  by_cases white : isWhitespace c = true
  · rw [if_pos white] at skipped ⊢
    rw [if_neg fun both => absurd both.2 (by decide)]
    split at skipped
    · cases skipped
    · exact skipped
  · rw [if_neg white] at skipped ⊢
    cases symbol : symbolPiece (c :: rest) with
    | some p =>
      rw [symbol] at skipped
      exact skipped
    | none =>
      rw [symbol] at skipped
      replace skipped : (lexemePiece token c rest).skipped = some n := skipped
      show (lexemePiece .SEMICOLON c rest).skipped = some n
      unfold lexemePiece at skipped ⊢
      split at skipped
      · split at skipped <;> cases skipped
      · rename_i quote
        rw [if_neg quote]
        split at skipped
        · cases skipped
        · rename_i number
          rw [if_neg number]
          split at skipped
          · cases skipped
          · rename_i ident
            rw [if_neg ident, if_neg (by decide)]
            split at skipped
            · cases skipped
            · exact skipped

theorem symbolPiece_string (rest : List UInt8) : symbolPiece ('"'.toUInt8 :: rest) = none := by
  have other : ∀ table ∈ [tokens3, tokens2, tokens1], ∀ entry ∈ table,
      entry.1.head?.map Char.toUInt8 ∉ [none, some '"'.toUInt8] := by
    decide
  cases symbol : symbolPiece ('"'.toUInt8 :: rest) with
  | none => rfl
  | some p =>
    rcases symbolPiece_cases symbol with comment | ⟨table, member, operator⟩
    · rw [commentPiece_none fun start => absurd start.1 (by decide)] at comment
      cases comment
    · obtain ⟨str, t, entry, starts, _⟩ := operatorPiece_some operator
      have differs := other table member _ entry
      cases str with
      | nil => simp at differs
      | cons k str =>
        obtain ⟨_, same, _⟩ := startsWith_cons.mp starts
        simp [(List.cons.inj same).1] at differs

theorem piece_string (token : Token) (rest : List UInt8) :
    piece token '"'.toUInt8 rest = match stringLength rest with
      | (none, n) => .token .STRING_LITERAL (n + 1)
      | (some message, n) => .unterminated message (n + 1) := by
  unfold piece
  rw [if_neg (by decide), symbolPiece_string]
  show lexemePiece token _ rest = _
  refine (if_pos rfl).trans ?_
  rcases stringLength rest with ⟨_ | message, n⟩ <;> rfl

theorem piece_string_returns (rest : List UInt8) : (piece token '"'.toUInt8 rest).skipped = none := by
  rw [piece_string]
  split <;> rfl

/-- A piece of more than one byte that is skipped is a comment. -/
theorem commentStart_of_piece (found : piece token c rest = .comment n) : CommentStart c rest := by
  unfold piece at found
  split at found
  · split at found <;> cases found
  · cases symbol : symbolPiece (c :: rest) with
    | some p =>
      rw [symbol] at found
      replace found : p = .comment n := found
      rcases symbolPiece_cases symbol with comment | ⟨table, _, operator⟩
      · rcases commentPiece_some comment with ⟨behind, same, _⟩ | ⟨behind, same, _⟩ <;>
          obtain ⟨rfl, rfl⟩ := List.cons.inj same
        · exact ⟨rfl, .inl rfl⟩
        · exact ⟨rfl, .inr rfl⟩
      · obtain ⟨_, _, _, _, rfl⟩ := operatorPiece_some operator
        cases found
    | none =>
      rw [symbol] at found
      replace found : lexemePiece token c rest = .comment n := found
      unfold lexemePiece at found
      split at found
      · split at found <;> cases found
      · split at found
        · cases found
        · split at found
          · cases found
          · split at found <;> cases found

/-- What is skipped begins a comment, or is one byte before the stripped rest. -/
theorem skipped_cases (skipped : (piece token c rest).skipped = some n) :
    CommentStart c rest ∨ c ≠ '"'.toUInt8 ∧ ¬ CommentStart c rest ∧ n = 0 := by
  by_cases comment : CommentStart c rest
  · exact .inl comment
  · refine .inr ⟨?_, comment, ?_⟩
    · intro quote
      subst quote
      rw [piece_string] at skipped
      split at skipped <;> cases skipped
    · cases found : piece token c rest with
      | comment m => exact absurd (commentStart_of_piece found) comment
      | _ =>
        rw [found] at skipped
        cases skipped <;> rfl

/-- A call on the stripped text skips what is left of what a call on the text skips. The newline of a
line comment is left, so the token must not end a statement there. -/
theorem skip_strip (counted : CountedAt c rest) (skipped : (piece token c rest).skipped = some n)
    (keeps : token' = token ∨ token' = .SEMICOLON)
    (line : ∀ behind, LineComment (c :: rest) behind → token' ∉ terminators) :
    Skips token' (stripComments (c :: rest)) (stripComments (rest.drop n)) := by
  have skipped' : (piece token' c rest).skipped = some n := by
    rcases keeps with rfl | rfl
    · exact skipped
    · exact piece_semicolon_skipped skipped
  rcases skipped_cases skipped' with ⟨rfl, second⟩ | ⟨quote, comment, rfl⟩
  · have two := counted.comment ⟨rfl, second⟩
    cases rest with
    | nil => rcases second with second | second <;> cases second
    | cons d rest =>
      rcases second with second | second <;> obtain rfl := Option.some.inj second
      · rw [piece_line two] at skipped'
        obtain rfl := Option.some.inj skipped'
        rw [stripComments_line]
        show Skips token' _ (stripComments (rest.drop (lineLength rest)))
        rcases lineLength_cases rest with ⟨ends, none⟩ | ⟨comment, split, fresh, found⟩
        · rw [ends, none]
          exact .refl _
        · have free := line (rest.drop (lineLength rest)) ⟨comment, by rw [← split], fresh⟩
          rw [found, stripComments_newline]
          exact .skip (by rw [piece_newline, if_neg free]; rfl) (.refl _)
      · have skips := skipped'
        rw [piece_block two] at skipped'
        obtain rfl := Option.some.inj skipped'
        show Skips token' _ (stripComments (rest.drop (blockLength rest)))
        rcases blockLength_cases rest with ⟨opened, none⟩ | closed
        · rw [stripComments_open opened, none, stripComments_nil]
          exact .skip skips (none ▸ .refl _)
        · rw [stripComments_block closed]
          exact .skip rfl (.refl _)
  · rw [stripComments_cons quote comment]
    exact .skip (by rw [piece_strip token' counted quote comment, skipped']) (.refl _)

theorem Skips.short {text' : List UInt8} (skips : Skips token text text') (short : Short text) :
    Short text' := by
  induction skips with
  | refl => exact short
  | skip _ _ ih => exact ih (short.tail _)

/-- Every place that the call comes to is counted. -/
def CountedAlong (token : Token) (text : List UInt8) : Prop :=
  ∀ c rest, Skips token text (c :: rest) → CountedAt c rest

theorem Short.counted (short : Short text) : CountedAlong token text :=
  fun _ _ skips => (skips.short short).countedAt

theorem CountedAlong.skips {text' : List UInt8} (counted : CountedAlong token text) (skips : Skips token text text') :
    CountedAlong token text' :=
  fun c rest later => counted c rest (skips.trans later)

theorem CountedAlong.here (counted : CountedAlong token (c :: rest)) : CountedAt c rest := counted c rest (.refl _)

theorem CountedAlong.skip (counted : CountedAlong token (c :: rest)) (skipped : (piece token c rest).skipped = some n) :
    CountedAlong token (rest.drop n) :=
  counted.skips (.skip skipped (.refl _))

theorem Skips.strip_semicolon {text' : List UInt8} (skips : Skips token text text') (counted : CountedAlong token text) :
    Skips .SEMICOLON (stripComments text) (stripComments text') := by
  induction skips with
  | refl => exact .refl _
  | skip skipped _ ih =>
    exact (skip_strip counted.here skipped (.inr rfl) fun _ _ => by decide).trans (ih (counted.skip skipped))

/-! ### One call on both texts -/

theorem not_commentStart_of_returns (counted : CountedAt c rest)
    (returns : (piece token c rest).skipped = none) :
    ¬ CommentStart c rest := by
  intro start
  have two := counted.comment start
  obtain ⟨slash, second⟩ := start
  subst slash
  cases rest with
  | nil => rcases second with second | second <;> cases second
  | cons d rest =>
    rcases second with second | second <;> obtain rfl := Option.some.inj second
    · rw [piece_line two] at returns
      cases returns
    · rw [piece_block two] at returns
      cases returns

/-- A token at the front of the text is at the front of the stripped text. -/
theorem scan_strip_return (counted : CountedAt c rest) (returns : (piece token c rest).skipped = none) :
    (scan token (stripComments (c :: rest))).token = (scan token (c :: rest)).token ∧
      (scan token (stripComments (c :: rest))).rest = stripComments (scan token (c :: rest)).rest := by
  by_cases quote : c = '"'.toUInt8
  · subst quote
    have le := stringLength_le rest
    rw [stripComments_string]
    cases closed : (stringLength rest).1 with
    | none =>
      have same := piece_string token (rest.take (stringLength rest).2 ++ stripComments (rest.drop (stringLength rest).2))
      rw [stringLength_take closed, ← piece_string] at same
      have length : (piece token '"'.toUInt8 rest).length = (stringLength rest).2 + 1 := by
        rw [piece_string]
        rcases stringLength rest with ⟨_ | message, n⟩ <;> rfl
      rw [scan_return returns, scan_return (same ▸ returns), same, length]
      refine ⟨rfl, ?_⟩
      show (rest.take (stringLength rest).2 ++ stripComments (rest.drop (stringLength rest).2)).drop
        (stringLength rest).2 = stripComments (rest.drop (stringLength rest).2)
      exact List.drop_left' (List.length_take_of_le le)
    | some message =>
      have opened : (stringLength rest).1 ≠ none := by rw [closed]; exact Option.some_ne_none message
      have whole := stringLength_open opened
      have length : (piece token '"'.toUInt8 rest).length = rest.length + 1 := by
        rw [piece_string, ← whole]
        rcases stringLength rest with ⟨_ | message, n⟩ <;> rfl
      rw [whole, List.take_length, List.drop_length, stripComments_nil, List.append_nil, scan_return returns, length]
      refine ⟨rfl, ?_⟩
      show rest.drop rest.length = stripComments (rest.drop rest.length)
      rw [List.drop_length, stripComments_nil]
  · have comment := not_commentStart_of_returns counted returns
    have same := piece_strip token counted quote comment
    rw [stripComments_cons quote comment, scan_return returns, scan_return (same ▸ returns), same]
    refine ⟨rfl, ?_⟩
    dsimp only
    rcases drop_piece token quote rfl returns with drop | zero
    · exact drop
    · rw [zero]
      exact (stripComments_cons quote comment).symm

/-- Behind every line comment that the call skips where a statement ends, there is another newline
before anything else. -/
def NewlinesKept (token : Token) (text : List UInt8) : Prop :=
  token ∈ terminators → ∀ comment behind, Skips token text comment → LineComment comment behind →
    ∃ rest, Skips token behind ('\n'.toUInt8 :: rest)

/-- The text behind a line comment is what the call goes on with. -/
theorem LineComment.skips (line : LineComment (c :: rest) behind) (counted : CountedAt c rest)
    (skipped : (piece token c rest).skipped = some n) : rest.drop n = behind := by
  obtain ⟨comment, same, fresh⟩ := line
  obtain ⟨rfl, rfl⟩ := List.cons.inj same
  rw [piece_line (counted.comment ⟨rfl, .inl rfl⟩), lineLength_comment fresh] at skipped
  obtain rfl := Option.some.inj skipped
  show (comment ++ '\n'.toUInt8 :: behind).drop (comment.length + 1) = behind
  rw [← List.drop_drop, List.drop_left]
  rfl

theorem LineComment.skip (line : LineComment text behind) (counted : CountedAlong token text) : Skips token text behind := by
  have whole := line
  obtain ⟨comment, rfl, _⟩ := line
  have skipped : (piece token _ _).skipped = _ := congrArg Piece.skipped (piece_line (counted.here.comment ⟨rfl, .inl rfl⟩))
  refine .skip skipped ?_
  rw [whole.skips counted.here skipped]
  exact .refl behind

theorem LineComment.strip (line : LineComment text behind) :
    stripComments text = '\n'.toUInt8 :: stripComments behind := by
  obtain ⟨comment, rfl, fresh⟩ := line
  have passes : ∀ d ∈ comment, (d != '\n'.toUInt8) = true := by
    intro d member
    apply bne_iff_ne.mpr
    intro same
    exact fresh (same ▸ member)
  rw [stripComments_line, List.dropWhile_append_of_pos passes, ← stripComments_newline]
  rfl

theorem scan_newline (ends : token ∈ terminators) (rest : List UInt8) :
    scan token ('\n'.toUInt8 :: rest) = ⟨.SEMICOLON, '\n'.toUInt8 :: rest, rest⟩ := by
  rw [scan, piece_newline, if_pos ends]
  rfl

theorem scan_newline_skip (free : token ∉ terminators) (rest : List UInt8) :
    scan token ('\n'.toUInt8 :: rest) = scan token rest := by
  rw [scan, piece_newline, if_neg free]

/-- Of two texts that a call skips to, the one where it ends is behind the other. -/
theorem Skips.meet {text' : List UInt8} (first : Skips token text text') (second : Skips token text (c :: rest))
    (returns : (piece token c rest).skipped = none) : Skips token text' (c :: rest) := by
  induction first with
  | refl => exact second
  | skip skipped _ ih =>
    cases second with
    | refl => cases returns.symm.trans skipped
    | skip skipped' second =>
      obtain rfl := Option.some.inj (skipped.symm.trans skipped')
      exact ih second

/-- The call ends here, at a token or at the end of the text. -/
def Returns (token : Token) (text : List UInt8) : Prop :=
  text = [] ∨ ∃ c rest, text = c :: rest ∧ (piece token c rest).skipped = none

theorem returns_cons (returns : (piece token c rest).skipped = none) : Returns token (c :: rest) :=
  .inr ⟨c, rest, rfl, returns⟩

theorem Returns.stays {text' : List UInt8} (returns : Returns token text) (skips : Skips token text text') :
    text' = text := by
  rcases returns with rfl | ⟨c, rest, rfl, returns⟩
  · cases skips
    rfl
  · cases skips with
    | refl => rfl
    | skip skipped _ => cases returns.symm.trans skipped

theorem piece_newline_returns (ends : token ∈ terminators) (rest : List UInt8) :
    (piece token '\n'.toUInt8 rest).skipped = none := by
  rw [piece_newline, if_pos ends]
  rfl

theorem exists_return (token : Token) (text : List UInt8) : ∃ text', Skips token text text' ∧ Returns token text' := by
  induction length : text.length using Nat.strongRecOn generalizing text with
  | ind _ ih =>
    cases text with
    | nil => exact ⟨[], .refl _, .inl rfl⟩
    | cons c rest =>
      rw [List.length_cons] at length
      cases skipped : (piece token c rest).skipped with
      | none => exact ⟨c :: rest, .refl _, .inr ⟨c, rest, rfl, skipped⟩⟩
      | some n =>
        have shorter := List.length_drop (l := rest) (i := n)
        obtain ⟨text', skips, ends⟩ := ih _ (by omega) (rest.drop n) rfl
        exact ⟨text', .skip skipped skips, ends⟩

/-- A call on the stripped text skips what is left of what a call on the text skips, up to the newline of
the first line comment where that ends a statement. -/
theorem Skips.strip {text' : List UInt8} (skips : Skips token text text') (counted : CountedAlong token text) :
    Skips token (stripComments text) (stripComments text') ∨
      token ∈ terminators ∧ ∃ comment behind, Skips token text comment ∧ LineComment comment behind ∧
        Skips token text behind ∧ Skips token behind text' ∧
        Skips token (stripComments text) ('\n'.toUInt8 :: stripComments behind) := by
  induction skips with
  | refl => exact .inl (.refl _)
  | @skip c n rest text' skipped skips ih =>
    by_cases swallows : token ∈ terminators ∧ ∃ behind, LineComment (c :: rest) behind
    · obtain ⟨ends, behind, line⟩ := swallows
      obtain rfl := line.skips counted.here skipped
      exact .inr ⟨ends, c :: rest, _, .refl _, line, .skip skipped (.refl _), skips, line.strip ▸ .refl _⟩
    · have free : ∀ behind, LineComment (c :: rest) behind → token ∉ terminators :=
        fun behind line ends => swallows ⟨ends, behind, line⟩
      have first := skip_strip counted.here skipped (.inl rfl) free
      rcases ih (counted.skip skipped) with same | ⟨ends, comment, behind, before, line, between, after, newline⟩
      · exact .inl (first.trans same)
      · exact .inr ⟨ends, comment, behind, .skip skipped before, line, .skip skipped between, after, first.trans newline⟩

/-- Where the newlines are kept, the call ends at the same place of both texts, or at two newlines. -/
theorem NewlinesKept.strip {text' : List UInt8} (kept : NewlinesKept token text) (counted : CountedAlong token text)
    (skips : Skips token text text') (returns : Returns token text') :
    Skips token (stripComments text) (stripComments text') ∨
      token ∈ terminators ∧ ∃ behind tail, text' = '\n'.toUInt8 :: tail ∧ Skips token text behind ∧
        Skips token behind text' ∧ Skips token (stripComments text) ('\n'.toUInt8 :: stripComments behind) := by
  rcases skips.strip counted with same | ⟨ends, comment, behind, before, line, between, after, newline⟩
  · exact .inl same
  · obtain ⟨tail, found⟩ := kept ends comment behind before line
    have same := returns.stays (after.meet found (piece_newline_returns ends tail))
    exact .inr ⟨ends, behind, tail, same.symm, between, after, newline⟩

/-- A call on the stripped text returns the token of the call on the text, and is left with a text from
which it goes on like with the stripped rest. -/
theorem scan_strip (counted : CountedAlong token text) (kept : NewlinesKept token text) :
    (scan token (stripComments text)).token = (scan token text).token ∧
      scan (scan token text).token (scan token (stripComments text)).rest =
        scan (scan token text).token (stripComments (scan token text).rest) := by
  obtain ⟨text', skips, returns⟩ := exists_return token text
  rcases kept.strip counted skips returns with same | ⟨ends, behind, tail, rfl, between, after, newline⟩
  · rw [skips.scan, same.scan]
    rcases returns with rfl | ⟨c, rest, rfl, returns⟩
    · rw [stripComments_nil, scan]
      exact ⟨rfl, by rw [stripComments_nil]⟩
    · obtain ⟨token, rest⟩ := scan_strip_return (counted _ _ skips) returns
      exact ⟨token, by rw [rest]⟩
  · have again := (after.strip_semicolon (counted.skips between)).scan
    rw [stripComments_newline, scan_newline_skip (by decide)] at again
    rw [skips.scan, newline.scan, scan_newline ends, scan_newline ends]
    exact ⟨rfl, again⟩

theorem word_plain {test : UInt8 → Bool} (word : restTest c = some test) : Plain c ∧ PlainTest test := by
  have first := forall_byte (p := fun c => (restTest c).isNone || decide (Plain c)) (by decide +kernel) c
  refine ⟨by simpa [word] using first, ?_⟩
  unfold restTest at word
  split at word
  · obtain rfl := Option.some.inj word
    exact isNumberRest_plain
  · split at word
    · obtain rfl := Option.some.inj word
      exact isIdent_plain
    · cases word

theorem RunsToEnd.returns (runs : RunsToEnd c rest) (token : Token) : (piece token c rest).skipped = none := by
  obtain ⟨symbol, test, word, all⟩ := runs
  cases skipped : (piece token c rest).skipped with
  | none => rfl
  | some n =>
    have ends : Ends c rest [] := ends_of_skipped skipped symbol
    obtain ⟨_, none, _⟩ := ends test word all
    cases none

/-- A word at the end of the text is at the end of the stripped text. -/
theorem overruns_strip (counted : CountedAlong token text) (kept : NewlinesKept token text)
    (skips : Skips token text (c :: rest)) (runs : RunsToEnd c rest) :
    Skips token (stripComments text) (c :: rest) := by
  have runs' := runs
  obtain ⟨_, test, word, all⟩ := runs
  have plain := word_plain word
  rcases kept.strip counted skips (returns_cons (runs'.returns token)) with same | ⟨_, _, _, newline, _⟩
  · rwa [stripComments_plain plain.1, stripComments_of_plain fun d member => plain.2 d (all d member)] at same
  · obtain ⟨rfl, _⟩ := List.cons.inj newline
    exact absurd rfl plain.1.2.2.2

/-- The call comes to a word with a line comment right behind it, which goes on up to the end of the text, and
the byte behind the text does not end the word. -/
def WordExposed (token : Token) (text more : List UInt8) : Prop :=
  ∃ c word comment, Skips token text (c :: (word ++ '/'.toUInt8 :: '/'.toUInt8 :: comment)) ∧ '\n'.toUInt8 ∉ comment ∧
    symbolPiece (c :: (word ++ '/'.toUInt8 :: '/'.toUInt8 :: comment)) = none ∧
    ∃ test ∈ restTest c, (∀ d ∈ word, test d) ∧ ∀ d ∈ more.head?, test d

/-- A word at the end of the stripped text is at the end of the text, or before a line comment there. -/
theorem overruns_of_strip (counted : CountedAlong token text) (kept : NewlinesKept token text)
    (skips : Skips token (stripComments text) (c :: rest)) (runs : RunsToEnd c rest) :
    Skips token text (c :: rest) ∨ ∃ comment, Skips token text (c :: (rest ++ '/'.toUInt8 :: '/'.toUInt8 :: comment)) ∧
      '\n'.toUInt8 ∉ comment ∧ symbolPiece (c :: (rest ++ '/'.toUInt8 :: '/'.toUInt8 :: comment)) = none := by
  have returns := runs.returns token
  obtain ⟨symbol, test, word, all⟩ := runs
  obtain ⟨first, plain⟩ := word_plain word
  obtain ⟨text', before, ends⟩ := exists_return token text
  rcases kept.strip counted before ends with same | ⟨terminates, _, _, _, _, _, newline⟩
  · have there := same.meet skips returns
    rcases ends with rfl | ⟨d, tail, rfl, returns'⟩
    · rw [stripComments_nil] at there
      cases there
    · by_cases quote : d = '"'.toUInt8
      · subst quote
        rw [stripComments_string] at there
        obtain ⟨rfl, _⟩ := List.cons.inj ((returns_cons (piece_string_returns _)).stays there)
        exact absurd rfl first.2.1
      · have comment := not_commentStart_of_returns (counted _ _ before) returns'
        have piece := piece_strip token (counted _ _ before) quote comment
        rw [stripComments_cons quote comment] at there
        obtain ⟨rfl, rfl⟩ := List.cons.inj ((returns_cons (piece ▸ returns')).stays there)
        have taken : tail.takeWhile test = stripComments tail :=
          (takeWhile_strip plain tail).1.symm.trans (List.takeWhile_eq_self_iff.mpr all)
        have none := (takeWhile_strip plain tail).2
        have parts := List.prefix_iff_eq_append.mp (List.takeWhile_prefix (l := tail) test)
        rw [taken] at none parts
        rw [List.drop_length] at none
        by_cases ends : tail.drop (stripComments tail).length = []
        · rw [ends, List.append_nil] at parts
          exact .inl (by rwa [parts])
        · obtain ⟨line, same, fresh⟩ := stripComments_eq_nil none.symm ends
          rw [same] at parts
          refine .inr ⟨line, by rwa [parts], fresh, ?_⟩
          rw [parts, ← (counted _ _ before).symbol comment]
          exact symbol
  · have stays := (returns_cons (piece_newline_returns terminates _)).stays (newline.meet skips returns)
    obtain ⟨rfl, _⟩ := List.cons.inj stays
    exact absurd rfl first.2.2.2

/-! ### Where a newline is lost -/

/-- Where a newline is not kept, the call on the stripped text returns a semicolon for it, and stands
behind the comment. -/
theorem kept_or_lost (counted : CountedAlong token text) : NewlinesKept token text ∨
    ∃ behind, token ∈ terminators ∧ Skips token text behind ∧
      (scan token (stripComments text)).token = .SEMICOLON ∧
      (scan token (stripComments text)).rest = stripComments behind ∧
      ∀ rest, ¬ Skips token behind ('\n'.toUInt8 :: rest) := by
  by_cases kept : NewlinesKept token text
  · exact .inl kept
  · unfold NewlinesKept at kept
    push Not at kept
    obtain ⟨ends, comment, behind, skips, line, lost⟩ := kept
    have beyond := line.skip (counted.skips skips)
    rcases skips.strip counted with same | ⟨_, comment', behind', before, line', between, after, newline⟩
    · rw [line.strip] at same
      rw [same.scan, scan_newline ends]
      exact .inr ⟨behind, ends, skips.trans beyond, rfl, rfl, lost⟩
    · -- of two lost newlines the first one counts
      rw [newline.scan, scan_newline ends]
      refine .inr ⟨behind', ends, between, rfl, rfl, fun rest found => ?_⟩
      have returns := piece_newline_returns ends rest
      exact lost rest (beyond.meet (after.meet found returns) returns)

/-- A semicolon that is no newline is one for every token before. -/
theorem piece_semicolon (other : c ≠ '\n'.toUInt8) (returns : (piece token c rest).skipped = none)
    (kind : (piece token c rest).kind = .SEMICOLON) : piece .SEMICOLON c rest = piece token c rest := by
  unfold piece at returns kind ⊢
  by_cases white : isWhitespace c = true
  · rw [if_pos white, if_neg fun both => other both.1] at returns
    cases returns
  · rw [if_neg white] at returns kind ⊢
    rw [if_neg white]
    cases symbol : symbolPiece (c :: rest) with
    | some p => rfl
    | none =>
      rw [symbol] at returns kind
      replace returns : (lexemePiece token c rest).skipped = none := returns
      replace kind : (lexemePiece token c rest).kind = .SEMICOLON := kind
      show lexemePiece .SEMICOLON c rest = lexemePiece token c rest
      unfold lexemePiece at returns kind ⊢
      by_cases quote : c = '"'.toUInt8
      · rw [if_pos quote, if_pos quote]
      · by_cases number : isNumberStart c = true
        · rw [if_neg quote, if_pos number, if_neg quote, if_pos number]
        · by_cases ident : isIdentStart c = true
          · rw [if_neg quote, if_neg number, if_pos ident, if_neg quote, if_neg number, if_pos ident]
          · rw [if_neg quote, if_neg number, if_neg ident] at returns kind
            split at kind
            · cases kind
            · rename_i fresh
              rw [if_neg fresh] at returns
              cases returns

/-- The calls on the other text are one semicolon behind the calls on this one. -/
def Lags (text other : List UInt8) : Prop :=
  (scan .SEMICOLON other).token = .SEMICOLON ∧
    scan .SEMICOLON (scan .SEMICOLON other).rest = scan .SEMICOLON (stripComments text)

theorem kept_semicolon (text : List UInt8) : NewlinesKept .SEMICOLON text :=
  fun ends => absurd ends (by decide)

theorem lags_of_lost (counted : CountedAlong token behind) (lost : ∀ rest, ¬ Skips token behind ('\n'.toUInt8 :: rest))
    (semicolon : (scan token behind).token = .SEMICOLON) :
    Lags (scan token behind).rest (stripComments behind) := by
  obtain ⟨text', skips, rfl | ⟨c, rest, rfl, returns⟩⟩ := exists_return token behind
  · rw [skips.scan, scan] at semicolon
    cases semicolon
  · rw [skips.scan, scan_return returns] at semicolon ⊢
    have other : c ≠ '\n'.toUInt8 := by
      intro newline
      subst newline
      exact lost rest skips
    have same := piece_semicolon other returns semicolon
    have whole := scan_return (same ▸ returns)
    rw [same] at whole
    have counted' : CountedAlong .SEMICOLON (c :: rest) := by
      intro d tail later
      obtain ⟨rfl, rfl⟩ := List.cons.inj ((returns_cons (same ▸ returns)).stays later)
      exact counted _ _ skips
    have both := scan_strip counted' (kept_semicolon (c :: rest))
    rw [whole, ← (skips.strip_semicolon counted).scan] at both
    refine ⟨both.1.trans semicolon, ?_⟩
    have behind := both.2
    rwa [semicolon] at behind

theorem Lags.next {other : List UInt8} (lags : Lags text other) (counted : CountedAlong .SEMICOLON text)
    (semicolon : (scan .SEMICOLON text).token = .SEMICOLON) :
    Lags (scan .SEMICOLON text).rest (scan .SEMICOLON other).rest := by
  have both := scan_strip counted (kept_semicolon text)
  rw [semicolon, ← lags.2] at both
  exact both

end Low
