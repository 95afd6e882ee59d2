import LowCompiler.Lexer.Calls
import Mathlib.Data.List.Find
import Mathlib.Data.List.TakeWhile

/-!
# Texts without comments

`stripComments` replaces a line comment by nothing, up to its newline, and a
terminated block comment by a space. It copies string literals. Here is what stands
at the front of a stripped text.
-/

namespace Low

/-- The text behind the end of a block comment. -/
def behindBlock : List UInt8 → Option (List UInt8)
  | [] => none
  | c :: rest => if c = '*'.toUInt8 ∧ rest.head? = some '/'.toUInt8 then some rest.tail else behindBlock rest

theorem behindBlock_length {text behind : List UInt8} (closed : behindBlock text = some behind) :
    behind.length ≤ text.length := by
  induction text with
  | nil => cases closed
  | cons c rest ih =>
    rw [List.length_cons]
    unfold behindBlock at closed
    split at closed
    · obtain rfl := Option.some.inj closed
      rw [List.length_tail]
      omega
    · have := ih closed
      omega

def stripComments : List UInt8 → List UInt8
  | [] => []
  | c :: rest =>
    if c = '"'.toUInt8 then
      c :: (rest.take (stringLength rest).2 ++ stripComments (rest.drop (stringLength rest).2))
    else if c = '/'.toUInt8 ∧ rest.head? = some '/'.toUInt8 then
      stripComments (rest.dropWhile fun d => d != '\n'.toUInt8)
    else if c = '/'.toUInt8 ∧ rest.head? = some '*'.toUInt8 then
      match _closed : behindBlock rest.tail with
      | some behind => ' '.toUInt8 :: stripComments behind
      | none => c :: rest
    else c :: stripComments rest
termination_by text => text.length
decreasing_by
  · rw [List.length_drop, List.length_cons]
    omega
  · have le := (List.dropWhile_suffix (l := rest) fun d => d != '\n'.toUInt8).length_le
    rw [List.length_cons]
    omega
  · have le := behindBlock_length _closed
    rw [List.length_tail] at le
    rw [List.length_cons]
    omega
  · exact Nat.lt_succ_self rest.length

variable {c : UInt8} {rest text : List UInt8}

/-- A comment begins with the byte `c`. -/
def CommentStart (c : UInt8) (rest : List UInt8) : Prop :=
  c = '/'.toUInt8 ∧ (rest.head? = some '/'.toUInt8 ∨ rest.head? = some '*'.toUInt8)

@[simp] theorem stripComments_nil : stripComments [] = [] := by
  rw [stripComments]

theorem stripComments_string (rest : List UInt8) :
    stripComments ('"'.toUInt8 :: rest) =
      '"'.toUInt8 :: (rest.take (stringLength rest).2 ++ stripComments (rest.drop (stringLength rest).2)) := by
  rw [stripComments, if_pos rfl]

theorem stripComments_line (rest : List UInt8) :
    stripComments ('/'.toUInt8 :: '/'.toUInt8 :: rest) =
      stripComments (rest.dropWhile fun d => d != '\n'.toUInt8) := by
  rw [stripComments, if_neg (by decide), if_pos ⟨rfl, rfl⟩]
  rfl

theorem stripComments_block {behind : List UInt8} (closed : behindBlock rest = some behind) :
    stripComments ('/'.toUInt8 :: '*'.toUInt8 :: rest) = ' '.toUInt8 :: stripComments behind := by
  rw [stripComments, if_neg (by decide), if_neg fun both => absurd (Option.some.inj both.2) (by decide),
    if_pos ⟨rfl, rfl⟩]
  split
  · rename_i behind' closed'
    obtain rfl := Option.some.inj (closed'.symm.trans closed)
    rfl
  · rename_i opened
    cases opened.symm.trans closed

theorem stripComments_open (opened : behindBlock rest = none) :
    stripComments ('/'.toUInt8 :: '*'.toUInt8 :: rest) = '/'.toUInt8 :: '*'.toUInt8 :: rest := by
  rw [stripComments, if_neg (by decide), if_neg fun both => absurd (Option.some.inj both.2) (by decide),
    if_pos ⟨rfl, rfl⟩]
  split
  · rename_i behind closed
    cases closed.symm.trans opened
  · rfl

theorem stripComments_cons (quote : c ≠ '"'.toUInt8) (comment : ¬ CommentStart c rest) :
    stripComments (c :: rest) = c :: stripComments rest := by
  rw [stripComments, if_neg quote, if_neg fun both => comment ⟨both.1, .inl both.2⟩,
    if_neg fun both => comment ⟨both.1, .inr both.2⟩]

theorem stripComments_newline (rest : List UInt8) :
    stripComments ('\n'.toUInt8 :: rest) = '\n'.toUInt8 :: stripComments rest :=
  stripComments_cons (by decide) fun start => absurd start.1 (by decide)

/-- What stripping makes of the front of a text: it stays, or it is the slash of a comment. -/
theorem stripComments_head (c : UInt8) (rest : List UInt8) :
    (∃ tail, stripComments (c :: rest) = c :: tail) ∨
      c = '/'.toUInt8 ∧ (stripComments (c :: rest) = [] ∨
        ∃ tail, stripComments (c :: rest) = ' '.toUInt8 :: tail ∨ stripComments (c :: rest) = '\n'.toUInt8 :: tail) := by
  by_cases quote : c = '"'.toUInt8
  · subst quote
    exact .inl ⟨_, stripComments_string rest⟩
  · by_cases comment : CommentStart c rest
    · obtain ⟨rfl, second⟩ := comment
      cases rest with
      | nil => rcases second with second | second <;> cases second
      | cons d rest =>
        rcases second with second | second
        · obtain rfl := Option.some.inj second
          refine .inr ⟨rfl, ?_⟩
          rw [stripComments_line]
          cases behind : rest.dropWhile fun d => d != '\n'.toUInt8 with
          | nil => exact .inl stripComments_nil
          | cons d tail =>
            have stops := List.head?_dropWhile_not (fun d => d != '\n'.toUInt8) rest
            rw [behind] at stops
            have newline : d = '\n'.toUInt8 := by simpa using stops
            subst newline
            exact .inr ⟨_, .inr (stripComments_newline tail)⟩
        · obtain rfl := Option.some.inj second
          cases closed : behindBlock rest with
          | some behind => exact .inr ⟨rfl, .inr ⟨_, .inl (stripComments_block closed)⟩⟩
          | none => exact .inl ⟨_, stripComments_open closed⟩
    · exact .inl ⟨_, stripComments_cons quote comment⟩

theorem stripComments_length_le (text : List UInt8) : (stripComments text).length ≤ text.length := by
  fun_induction stripComments text with
  | case1 => exact Nat.le_refl 0
  | case2 rest ih =>
    rw [List.length_drop] at ih
    rw [List.length_cons, List.length_append, List.length_take, List.length_cons]
    omega
  | case3 c rest _ _ ih =>
    have le := (List.dropWhile_suffix (l := rest) fun d => d != '\n'.toUInt8).length_le
    rw [List.length_cons]
    omega
  | case4 c rest _ _ _ behind closed ih =>
    have le := behindBlock_length closed
    rw [List.length_tail] at le
    have pos : 0 < rest.length := by
      cases rest with
      | nil => cases closed
      | cons d rest => exact Nat.succ_pos _
    rw [List.length_cons, List.length_cons]
    omega
  | case5 => exact Nat.le_refl _
  | case6 c rest _ _ _ ih => exact Nat.succ_le_succ ih

/-! ### Plain bytes -/

/-- A byte that neither begins a comment or a string nor stands where a comment was. -/
def Plain (c : UInt8) : Prop :=
  c ≠ '/'.toUInt8 ∧ c ≠ '"'.toUInt8 ∧ c ≠ ' '.toUInt8 ∧ c ≠ '\n'.toUInt8

instance (c : UInt8) : Decidable (Plain c) :=
  inferInstanceAs (Decidable (_ ∧ _ ∧ _ ∧ _))

theorem stripComments_plain (plain : Plain c) (rest : List UInt8) :
    stripComments (c :: rest) = c :: stripComments rest :=
  stripComments_cons plain.2.1 fun start => plain.1 start.1

theorem stripComments_append {word : List UInt8} (plain : ∀ c ∈ word, Plain c) (text : List UInt8) :
    stripComments (word ++ text) = word ++ stripComments text := by
  induction word with
  | nil => rfl
  | cons c word ih =>
    rw [List.cons_append, stripComments_plain (plain c List.mem_cons_self),
      ih fun d member => plain d (List.mem_cons_of_mem c member), List.cons_append]

theorem stripComments_of_plain (plain : ∀ c ∈ text, Plain c) : stripComments text = text := by
  simpa using stripComments_append plain []

/-- Nothing is left of a line comment without its newline, and of no other text. -/
theorem stripComments_eq_nil (stripped : stripComments text = []) (some : text ≠ []) :
    ∃ comment, text = '/'.toUInt8 :: '/'.toUInt8 :: comment ∧ '\n'.toUInt8 ∉ comment := by
  obtain ⟨c, rest, rfl⟩ := List.exists_cons_of_ne_nil some
  by_cases quote : c = '"'.toUInt8
  · subst quote
    cases (stripComments_string rest).symm.trans stripped
  · by_cases comment : CommentStart c rest
    · obtain ⟨rfl, second⟩ := comment
      obtain ⟨d, rest, rfl⟩ := List.exists_cons_of_ne_nil fun none : rest = [] => by
        subst none
        rcases second with second | second <;> cases second
      rcases second with second | second <;> obtain rfl := Option.some.inj second
      · refine ⟨rest, rfl, fun newline => ?_⟩
        rw [stripComments_line] at stripped
        cases behind : rest.dropWhile fun d => d != '\n'.toUInt8 with
        | nil => simpa using List.dropWhile_eq_nil_iff.mp behind _ newline
        | cons d tail =>
          have stops := List.head?_dropWhile_not (fun d => d != '\n'.toUInt8) rest
          rw [behind] at stops
          have newline : d = '\n'.toUInt8 := by simpa using stops
          rw [behind, newline, stripComments_newline] at stripped
          cases stripped
      · cases closed : behindBlock rest with
        | some behind => cases (stripComments_block closed).symm.trans stripped
        | none => cases (stripComments_open closed).symm.trans stripped
    · cases (stripComments_cons quote comment).symm.trans stripped

/-- A plain byte that stands at the front of a stripped text stood there before. -/
theorem plain_of_stripped {d : UInt8} {tail : List UInt8} (plain : Plain d)
    (stripped : stripComments text = d :: tail) : ∃ rest, text = d :: rest ∧ tail = stripComments rest := by
  cases text with
  | nil => cases stripComments_nil.symm.trans stripped
  | cons c rest =>
    rcases stripComments_head c rest with ⟨other, same⟩ | ⟨_, empty | ⟨other, same | same⟩⟩
    · obtain ⟨rfl, rfl⟩ := List.cons.inj (same.symm.trans stripped)
      rw [stripComments_plain plain] at same
      exact ⟨rest, rfl, ((List.cons.inj same).2).symm⟩
    · cases empty.symm.trans stripped
    · exact absurd (List.cons.inj (same.symm.trans stripped)).1.symm plain.2.2.1
    · exact absurd (List.cons.inj (same.symm.trans stripped)).1.symm plain.2.2.2

theorem startsWith_strip {str : List Char} (plain : ∀ k ∈ str, Plain k.toUInt8) (text : List UInt8) :
    startsWith str (stripComments text) = startsWith str text := by
  induction str generalizing text with
  | nil => rfl
  | cons k str ih =>
    have plainTail : ∀ k ∈ str, Plain k.toUInt8 := fun k member => plain k (List.mem_cons_of_mem _ member)
    have first := plain k List.mem_cons_self
    apply Bool.eq_iff_iff.mpr
    rw [startsWith_cons, startsWith_cons]
    constructor
    · intro ⟨tail, same, starts⟩
      obtain ⟨rest, rfl, rfl⟩ := plain_of_stripped first same
      exact ⟨rest, rfl, ih plainTail rest ▸ starts⟩
    · intro ⟨rest, same, starts⟩
      subst same
      exact ⟨stripComments rest, stripComments_plain first rest, (ih plainTail rest).trans starts⟩

theorem drop_strip {str : List Char} (plain : ∀ k ∈ str, Plain k.toUInt8)
    (starts : startsWith str text = true) :
    (stripComments text).drop str.length = stripComments (text.drop str.length) := by
  induction str generalizing text with
  | nil => rfl
  | cons k str ih =>
    obtain ⟨rest, rfl, tail⟩ := startsWith_cons.mp starts
    rw [stripComments_plain (plain k List.mem_cons_self)]
    exact ih (fun k member => plain k (List.mem_cons_of_mem _ member)) tail

/-- The test of a loop over plain bytes only. -/
def PlainTest (test : UInt8 → Bool) : Prop := ∀ c, test c = true → Plain c

theorem takeWhile_strip {test : UInt8 → Bool} (plain : PlainTest test) (text : List UInt8) :
    (stripComments text).takeWhile test = text.takeWhile test ∧
      (stripComments text).drop (text.takeWhile test).length =
        stripComments (text.drop (text.takeWhile test).length) := by
  induction text with
  | nil =>
    rw [stripComments_nil]
    exact ⟨rfl, stripComments_nil.symm⟩
  | cons c rest ih =>
    by_cases pass : test c = true
    · rw [stripComments_plain (plain c pass), List.takeWhile_cons_of_pos pass, List.takeWhile_cons_of_pos pass, ih.1]
      exact ⟨rfl, ih.2⟩
    · rw [List.takeWhile_cons_of_neg pass]
      refine ⟨?_, rfl⟩
      cases stripped : stripComments (c :: rest) with
      | nil => rfl
      | cons d tail =>
        apply List.takeWhile_cons_of_neg
        intro pass'
        obtain ⟨_, same, _⟩ := plain_of_stripped (plain d pass') stripped
        rw [(List.cons.inj same).1] at pass
        exact pass pass'

theorem isIdent_plain : PlainTest isIdent := by
  intro c ident
  have all := forall_byte (p := fun c => !isIdent c || decide (Plain c)) (by decide +kernel) c
  simpa [ident] using all

theorem isNumberRest_plain : PlainTest isNumberRest := by
  intro c number
  have all := forall_byte (p := fun c => !isNumberRest c || decide (Plain c)) (by decide +kernel) c
  simpa [number] using all

theorem stringLength_quote (rest : List UInt8) : stringLength ('"'.toUInt8 :: rest) = (none, 1) := by
  unfold stringLength
  exact if_pos rfl

theorem stringLength_escape (d : UInt8) (rest : List UInt8) :
    stringLength ('\\'.toUInt8 :: d :: rest) = ((stringLength rest).1, (stringLength rest).2 + 2) := by
  rw [stringLength.eq_def]
  exact (if_neg (by decide)).trans (if_pos rfl)

theorem stringLength_other (quote : c ≠ '"'.toUInt8) (escape : c ≠ '\\'.toUInt8) (rest : List UInt8) :
    stringLength (c :: rest) = ((stringLength rest).1, (stringLength rest).2 + 1) := by
  rw [stringLength.eq_def]
  exact (if_neg quote).trans (if_neg escape)

/-- A closed string literal is closed whatever follows it. -/
theorem stringLength_take (closed : (stringLength rest).1 = none) (behind : List UInt8) :
    stringLength (rest.take (stringLength rest).2 ++ behind) = stringLength rest := by
  fun_induction stringLength rest with
  | case1 => cases closed
  | case2 rest => exact stringLength_quote (rest.take 0 ++ behind)
  | case3 => cases closed
  | case4 d rest _ ih =>
    show stringLength ('\\'.toUInt8 :: d :: (rest.take (stringLength rest).2 ++ behind)) = _
    rw [stringLength_escape, ih closed]
  | case5 c rest quote escape ih =>
    show stringLength (c :: (rest.take (stringLength rest).2 ++ behind)) = _
    rw [stringLength_other quote escape, ih closed]

theorem stringLength_open (opened : (stringLength rest).1 ≠ none) : (stringLength rest).2 = rest.length := by
  fun_induction stringLength rest with
  | case1 => rfl
  | case2 => exact absurd rfl opened
  | case3 => rfl
  | case4 d rest _ ih => exact congrArg (· + 2) (ih opened)
  | case5 c rest quote escape ih => exact congrArg (· + 1) (ih opened)

/-! ### Pieces of a stripped text -/

/-- The text is shorter than what `unsigned` counts, so the number of remaining bytes is exact. -/
def Short (text : List UInt8) : Prop := text.length < 2 ^ 32

instance (text : List UInt8) : Decidable (Short text) :=
  inferInstanceAs (Decidable (text.length < 2 ^ 32))

theorem Short.of_le {text' : List UInt8} (short : Short text) (le : text'.length ≤ text.length) : Short text' :=
  Nat.lt_of_le_of_lt le short

theorem Short.tail (short : Short (c :: rest)) (n : Nat) : Short (rest.drop n) := by
  apply short.of_le
  rw [List.length_drop, List.length_cons]
  omega

/-- The tests of the remaining bytes change nothing where the count is exact. -/
theorem symbolPiece_short (short : Short text) :
    symbolPiece text = (operatorPiece tokens3 text).or
      (((commentPiece text).or (operatorPiece tokens2 text)).or (operatorPiece tokens1 text)) := by
  have exact : unsigned text.length = text.length := Nat.mod_eq_of_lt short
  have guard : ∀ (k : Nat) (a : Option Piece), (∀ p, a = some p → k ≤ text.length) →
      (if k ≤ text.length then a else none) = a := by
    intro k a enough
    by_cases le : k ≤ text.length
    · exact if_pos le
    · rw [if_neg le]
      cases a with
      | none => rfl
      | some p => exact absurd (enough p rfl) le
  have operator : ∀ table ∈ [tokens3, tokens2, tokens1], ∀ k, (∀ entry ∈ table, k ≤ entry.1.length) →
      ∀ p, operatorPiece table text = some p → k ≤ text.length := by
    intro table _ k long p found
    obtain ⟨str, t, member, starts, _⟩ := operatorPiece_some found
    exact Nat.le_trans (long _ member) (startsWith_le starts)
  unfold symbolPiece
  dsimp only
  rw [exact, guard 3 (operatorPiece tokens3 text), guard 2 ((commentPiece text).or (operatorPiece tokens2 text)),
    guard 1 (operatorPiece tokens1 text)]
  · exact operator tokens1 (by simp) 1 (by decide)
  · intro p found
    rcases Option.or_eq_some_iff.mp found with comment | ⟨_, found⟩
    · rcases commentPiece_some comment with ⟨rest, rfl, _⟩ | ⟨rest, rfl, _⟩ <;> exact Nat.le_add_left 2 rest.length
    · exact operator tokens2 (by simp) 2 (by decide) p found
  · exact operator tokens3 (by simp) 3 (by decide)

theorem commentPiece_none (comment : ¬ CommentStart c rest) : commentPiece (c :: rest) = none := by
  cases found : commentPiece (c :: rest) with
  | none => rfl
  | some p =>
    rcases commentPiece_some found with ⟨behind, same, _⟩ | ⟨behind, same, _⟩ <;>
      obtain ⟨rfl, rfl⟩ := List.cons.inj same
    · exact absurd ⟨rfl, .inl rfl⟩ comment
    · exact absurd ⟨rfl, .inr rfl⟩ comment

theorem tokens_plain : ∀ table ∈ [tokens3, tokens2, tokens1], ∀ entry ∈ table,
    ∀ k ∈ entry.1.tail, Plain k.toUInt8 := by
  have all : ∀ table ∈ [tokens3, tokens2, tokens1], ∀ entry ∈ table,
      (entry.1.tail.all fun k => decide (Plain k.toUInt8)) = true := by
    decide
  intro table known entry member k behind
  exact of_decide_eq_true (List.all_eq_true.mp (all table known entry member) k behind)

theorem findToken_congr {table : TokenTable} {text' : List UInt8}
    (same : ∀ entry ∈ table, startsWith entry.1 text' = startsWith entry.1 text) :
    findToken table text' = findToken table text := by
  unfold findToken
  rw [List.find?_congr same]

theorem operatorPiece_strip {table : TokenTable} (member : table ∈ [tokens3, tokens2, tokens1]) (c : UInt8)
    (rest : List UInt8) : operatorPiece table (c :: stripComments rest) = operatorPiece table (c :: rest) := by
  unfold operatorPiece
  rw [findToken_congr]
  intro entry inTable
  obtain ⟨str, tkn⟩ := entry
  cases str with
  | nil => rfl
  | cons k str =>
    have plain : ∀ k ∈ str, Plain k.toUInt8 := tokens_plain table member _ inTable
    show (k.toUInt8 == c && startsWith str (stripComments rest)) = (k.toUInt8 == c && startsWith str rest)
    rw [startsWith_strip plain]

theorem not_commentStart_strip (comment : ¬ CommentStart c rest) : ¬ CommentStart c (stripComments rest) := by
  intro ⟨slash, second⟩
  apply comment
  refine ⟨slash, ?_⟩
  cases stripped : stripComments rest with
  | nil =>
    rw [stripped] at second
    rcases second with second | second <;> cases second
  | cons d tail =>
    rw [stripped] at second
    rcases second with second | second
    · obtain rfl := Option.some.inj second
      cases rest with
      | nil => cases stripComments_nil.symm.trans stripped
      | cons e rest =>
        rcases stripComments_head e rest with ⟨other, same⟩ | ⟨rfl, _⟩
        · exact .inl (congrArg some (List.cons.inj (same.symm.trans stripped)).1)
        · exact .inl rfl
    · obtain rfl := Option.some.inj second
      obtain ⟨_, rfl, _⟩ := plain_of_stripped (by decide) stripped
      exact .inr rfl

/-- The number of bytes that remain, as the code counts it, shows the comment that begins here, or the
same symbol as in the stripped text. -/
structure CountedAt (c : UInt8) (rest : List UInt8) : Prop where
  comment : CommentStart c rest → 2 ≤ unsigned (rest.length + 1)
  symbol : ¬ CommentStart c rest → symbolPiece (c :: stripComments rest) = symbolPiece (c :: rest)

theorem Short.countedAt (short : Short (c :: rest)) : CountedAt c rest where
  comment := by
    intro ⟨_, second⟩
    have exact : unsigned (rest.length + 1) = rest.length + 1 := Nat.mod_eq_of_lt short
    cases rest with
    | nil => rcases second with second | second <;> cases second
    | cons d rest =>
      rw [exact, List.length_cons]
      omega
  symbol := by
    intro comment
    have shortStrip : Short (c :: stripComments rest) :=
      short.of_le (Nat.succ_le_succ (stripComments_length_le rest))
    rw [symbolPiece_short short, symbolPiece_short shortStrip, commentPiece_none comment,
      commentPiece_none (not_commentStart_strip comment), operatorPiece_strip (by simp),
      operatorPiece_strip (by simp), operatorPiece_strip (by simp)]

/-- What begins no comment and no string is the same piece before a stripped text. -/
theorem piece_strip (token : Token) (counted : CountedAt c rest) (quote : c ≠ '"'.toUInt8)
    (comment : ¬ CommentStart c rest) : piece token c (stripComments rest) = piece token c rest := by
  have number := (takeWhile_strip isNumberRest_plain rest).1
  have ident := (takeWhile_strip isIdent_plain rest).1
  have lexeme : lexemePiece token c (stripComments rest) = lexemePiece token c rest := by
    unfold lexemePiece
    rw [if_neg quote, if_neg quote, number, ident]
  unfold piece
  rw [counted.symbol comment, lexeme]

/-- The text behind a piece that ends the call, stripped. -/
theorem drop_piece {p : Piece} (token : Token) (quote : c ≠ '"'.toUInt8) (found : piece token c rest = p)
    (returns : p.skipped = none) :
    (c :: stripComments rest).drop p.length = stripComments ((c :: rest).drop p.length) ∨
      p.length = 0 := by
  have number := (takeWhile_strip isNumberRest_plain rest).2
  have ident := (takeWhile_strip isIdent_plain rest).2
  subst found
  unfold piece at returns ⊢
  by_cases white : isWhitespace c = true
  · rw [if_pos white]
    split <;> exact .inl rfl
  · rw [if_neg white] at returns ⊢
    cases symbol : symbolPiece (c :: rest) with
    | some p =>
      rw [symbol] at returns
      rcases symbolPiece_cases symbol with comment | ⟨table, member, operator⟩
      · rcases commentPiece_some comment with ⟨_, _, rfl⟩ | ⟨_, _, rfl⟩ <;> cases returns
      · obtain ⟨str, t, entry, starts, rfl⟩ := operatorPiece_some operator
        have plain := tokens_plain table member _ entry
        cases str with
        | nil => exact .inr rfl
        | cons k str =>
          obtain ⟨_, same, starts⟩ := startsWith_cons.mp starts
          obtain ⟨rfl, rfl⟩ := List.cons.inj same
          exact .inl (drop_strip plain starts)
    | none =>
      show _ = stripComments (List.drop (lexemePiece token c rest).length _) ∨ (lexemePiece token c rest).length = 0
      unfold lexemePiece
      rw [if_neg quote]
      split
      · exact .inl number
      · split
        · exact .inl ident
        · split
          · exact .inr rfl
          · exact .inl rfl

end Low
