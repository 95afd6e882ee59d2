import LowCompiler.Lexer.Specification
import LowCompiler.Lexer.Comments
import Mathlib.Data.Finset.Max
import Mathlib.Data.List.TakeWhile

/-!
# Maximal munch

The longest lexeme at the front of a text is what the lexer finds there, where as many
bytes remain as the operator has, counted as the lexer counts them.
-/

namespace Low

variable {equal : List Char} {str : List Char} {token before : Token} {c : UInt8}
  {text rest lexeme : List UInt8}

/-! ### Words, strings and keywords -/

theorem startsWith_iff : startsWith str text = true ↔ str.map Char.toUInt8 <+: text :=
  List.isPrefixOf_iff_prefix

/-- The longest word is the one that the loop reads. -/
theorem Longest.word {first test : UInt8 → Bool} (found : Longest (IsWord first test) text lexeme) :
    ∃ c rest, text = c :: rest ∧ first c = true ∧ lexeme = c :: rest.takeWhile test := by
  obtain ⟨member, starts, longest⟩ := found
  cases lexeme with
  | nil => exact member.elim
  | cons c tail =>
    obtain ⟨behind, rfl⟩ := starts
    refine ⟨c, tail ++ behind, rfl, member.1, ?_⟩
    have read : tail <+: (tail ++ behind).takeWhile test := by
      rw [List.takeWhile_append_of_pos member.2]
      exact List.prefix_append _ _
    have le := longest (c :: (tail ++ behind).takeWhile test)
      ⟨member.1, fun d within => List.all_eq_true.mp List.all_takeWhile d within⟩
      (List.prefix_cons_inj c |>.mpr (List.takeWhile_prefix test))
    exact congrArg (c :: ·) (read.eq_of_length_le (Nat.le_of_succ_le_succ le))

theorem IsStringRest.length (closed : IsStringRest lexeme) (behind : List UInt8) :
    stringLength (lexeme ++ behind) = (none, lexeme.length) := by
  induction closed with
  | quote => exact stringLength_quote behind
  | escape d _ ih =>
    rw [List.cons_append, List.cons_append, stringLength_escape, ih]
    rfl
  | other quote escape _ ih =>
    rw [List.cons_append, stringLength_other quote escape, ih]
    rfl

theorem matchKeyword_iff : matchKeyword str lexeme = true ↔ str.map Char.toUInt8 = lexeme := by
  induction str generalizing lexeme with
  | nil => cases lexeme <;> simp [matchKeyword]
  | cons k str ih => cases lexeme <;> simp [matchKeyword, ih]

/-- In a table of different words the last match is the only one. -/
theorem foldl_matchKeyword (table : TokenTable) (distinct : (table.map fun entry => entry.1.map Char.toUInt8).Nodup)
    (other : Token) :
    table.foldl (fun token (kw, tkn) => if matchKeyword kw lexeme then tkn else token) other =
      match table.find? fun entry => entry.1.map Char.toUInt8 == lexeme with
      | some entry => entry.2
      | none => other := by
  induction table generalizing other with
  | nil => rfl
  | cons entry table ih =>
    obtain ⟨fresh, distinct⟩ := List.nodup_cons.mp distinct
    rw [List.foldl_cons, ih distinct, List.find?_cons]
    by_cases same : entry.1.map Char.toUInt8 = lexeme
    · have absent : (table.find? fun entry => entry.1.map Char.toUInt8 == lexeme) = none := by
        apply List.find?_eq_none.mpr
        intro other member again
        exact fresh (List.mem_map.mpr ⟨other, member, (beq_iff_eq.mp again).trans same.symm⟩)
      rw [absent, beq_iff_eq.mpr same]
      exact if_pos (matchKeyword_iff.mpr same)
    · have differs : ¬ matchKeyword entry.1 lexeme = true := fun found => same (matchKeyword_iff.mp found)
      show (match table.find? _ with | some entry => entry.2 | none => if matchKeyword entry.1 lexeme then _ else _) = _
      rw [beq_eq_false_iff_ne.mpr same, if_neg differs]

theorem checkKeywords_eq (lexeme : List UInt8) : checkKeywords lexeme = wordToken lexeme :=
  foldl_matchKeyword keywords (by decide) .IDENT

/-! ### Operators -/

/-- In a table of different words of one length the match is the only one. -/
theorem findToken_of_mem {table : TokenTable} (lengths : ∀ entry ∈ table, entry.1.length = str.length)
    (distinct : ∀ entry ∈ table, ∀ other ∈ table,
      entry.1.map Char.toUInt8 = other.1.map Char.toUInt8 → entry = other)
    (member : (str, token) ∈ table) (starts : str.map Char.toUInt8 <+: text) :
    findToken table text = some (str.length, token) := by
  unfold findToken
  cases found : table.find? fun entry => startsWith entry.1 text with
  | none =>
    have absent := List.find?_eq_none.mp found _ member
    exact absurd (startsWith_iff.mpr starts) absent
  | some entry =>
    have within := List.mem_of_find?_eq_some found
    have passes := List.find?_some found
    have other : entry.1.map Char.toUInt8 <+: text := startsWith_iff.mp passes
    have same : entry.1.map Char.toUInt8 = str.map Char.toUInt8 := by
      have length : (entry.1.map Char.toUInt8).length = (str.map Char.toUInt8).length := by
        rw [List.length_map, List.length_map, lengths entry within]
      exact (List.prefix_of_prefix_length_le other starts length.le).eq_of_length length
    obtain rfl := distinct entry within _ member same
    rfl

theorem findToken_none {table : TokenTable}
    (absent : ∀ entry ∈ table, ¬ entry.1.map Char.toUInt8 <+: text) : findToken table text = none := by
  unfold findToken
  rw [List.find?_eq_none.mpr fun entry member starts => absent entry member (startsWith_iff.mp starts)]
  rfl

/-- Every operator is in the table of its length, but for the header's `EQ_OP`. -/
theorem mem_tables (spelt : equal = ['='] ∨ equal = ['=', '=']) (member : (str, token) ∈ operators equal) :
    (str, token) ∈ tokens3 ∨ (str, token) ∈ tokens2 ∨ (str, token) ∈ tokens1 ∨
      equal = ['='] ∧ (str, token) = (['='], .EQ_OP) := by
  have header : ∀ entry ∈ operators ['='], entry ∈ tokens3 ∨ entry ∈ tokens2 ∨ entry ∈ tokens1 ∨
      entry = (['='], .EQ_OP) := by decide
  have lexer : ∀ entry ∈ operators ['=', '='], entry ∈ tokens3 ∨ entry ∈ tokens2 ∨ entry ∈ tokens1 := by
    decide
  rcases spelt with rfl | rfl
  · rcases header _ member with three | two | one | two
    · exact .inl three
    · exact .inr (.inl two)
    · exact .inr (.inr (.inl one))
    · exact .inr (.inr (.inr ⟨rfl, two⟩))
  · rcases lexer _ member with three | two | one
    · exact .inl three
    · exact .inr (.inl two)
    · exact .inr (.inr (.inl one))

theorem tables_mem (spelt : equal = ['='] ∨ equal = ['=', '=']) {entry : List Char × Token}
    (member : entry ∈ tokens3 ++ tokens2 ++ tokens1) :
    entry ∈ operators equal ∨ equal = ['='] ∧ entry = (['=', '='], .EQ_OP) := by
  have header : ∀ entry ∈ tokens3 ++ tokens2 ++ tokens1,
      entry ∈ operators ['='] ∨ entry = (['=', '='], .EQ_OP) := by decide
  have lexer : ∀ entry ∈ tokens3 ++ tokens2 ++ tokens1, entry ∈ operators ['=', '='] := by decide
  rcases spelt with rfl | rfl
  · rcases header entry member with known | two
    · exact .inl known
    · exact .inr ⟨rfl, two⟩
  · exact .inl (lexer entry member)

/-- The operator is read in full: as many bytes remain for the lexer, and with the spelling of the
header it is no equality. -/
def Legible (equal : List Char) (text : List UInt8) (token : Token) (length : Nat) : Prop :=
  length ≤ unsigned text.length ∧
    (equal = ['='] → token ≠ .EQ_OP ∧ ¬ (startsWith ['=', '='] text = true ∧ 2 ≤ unsigned text.length))

theorem Longest.shorter (spelt : equal = ['='] ∨ equal = ['=', '=']) (legible : Legible equal text token str.length)
    (found : Longest (IsOperator equal) text (str.map Char.toUInt8)) {entry : List Char × Token}
    (member : entry ∈ tokens3 ++ tokens2 ++ tokens1) (starts : entry.1.map Char.toUInt8 <+: text)
    (within : entry.1.length ≤ unsigned text.length) : entry.1.length ≤ str.length := by
  rcases tables_mem spelt member with known | ⟨header, rfl⟩
  · have le := found.longest _ ⟨entry, known, rfl⟩ starts
    rwa [List.length_map, List.length_map] at le
  · exact absurd ⟨startsWith_iff.mpr starts, within⟩ (legible.2 header).2

theorem operatorPiece_of_mem {table : TokenTable} (lengths : ∀ entry ∈ table, entry.1.length = str.length)
    (distinct : ∀ entry ∈ table, ∀ other ∈ table,
      entry.1.map Char.toUInt8 = other.1.map Char.toUInt8 → entry = other)
    (member : (str, token) ∈ table) (starts : str.map Char.toUInt8 <+: text) :
    operatorPiece table text = some (.token token str.length) := by
  unfold operatorPiece
  rw [findToken_of_mem lengths distinct member starts]
  rfl

theorem operatorPiece_none {table : TokenTable}
    (absent : ∀ entry ∈ table, ¬ entry.1.map Char.toUInt8 <+: text) : operatorPiece table text = none := by
  unfold operatorPiece
  rw [findToken_none absent]
  rfl

theorem commentPiece_of_not (plain : ¬ Commented text) : commentPiece text = none := by
  unfold commentPiece
  rw [if_neg fun line => plain (.inl line), if_neg fun block => plain (.inr block)]

theorem lengths3 : ∀ entry ∈ tokens3, entry.1.length = 3 := by decide

theorem lengths2 : ∀ entry ∈ tokens2, entry.1.length = 2 := by decide

theorem lengths1 : ∀ entry ∈ tokens1, entry.1.length = 1 := by decide

/-- A legible operator is found in the table of its length, and nothing before it. -/
theorem symbolPiece_of_legible (spelt : equal = ['='] ∨ equal = ['=', '=']) (plain : ¬ Commented text)
    (found : Longest (IsOperator equal) text (str.map Char.toUInt8)) (member : (str, token) ∈ operators equal)
    (legible : Legible equal text token str.length) :
    symbolPiece text = some (.token token str.length) := by
  have counted := legible.1
  have shorter : ∀ entry ∈ tokens3 ++ tokens2 ++ tokens1, entry.1.length ≤ unsigned text.length →
      str.length < entry.1.length → ¬ entry.1.map Char.toUInt8 <+: text := by
    intro entry known within longer starts
    exact absurd (found.shorter spelt legible known starts within) (Nat.not_le.mpr longer)
  have none3 : str.length < 3 → (if 3 ≤ unsigned text.length then operatorPiece tokens3 text else none) = none := by
    intro less
    split
    · rename_i three
      apply operatorPiece_none
      intro entry known
      have length := lengths3 entry known
      exact shorter entry (List.mem_append_left _ (List.mem_append_left _ known)) (by omega) (by omega)
    · rfl
  rcases mem_tables spelt member with three | two | one | ⟨header, same⟩
  · have length : str.length = 3 := lengths3 _ three
    unfold symbolPiece
    dsimp only
    rw [if_pos (by omega), operatorPiece_of_mem (by rw [length]; exact lengths3) (by decide) three found.starts]
    rfl
  · have length : str.length = 2 := lengths2 _ two
    unfold symbolPiece
    dsimp only
    rw [none3 (by omega), if_pos (by omega), commentPiece_of_not plain,
      operatorPiece_of_mem (by rw [length]; exact lengths2) (by decide +kernel) two found.starts]
    rfl
  · have length : str.length = 1 := lengths1 _ one
    have none2 : (if 2 ≤ unsigned text.length then (commentPiece text).or (operatorPiece tokens2 text) else none) =
        none := by
      split
      · rename_i two
        rw [commentPiece_of_not plain]
        apply operatorPiece_none
        intro entry known
        have length := lengths2 entry known
        exact shorter entry (List.mem_append_left _ (List.mem_append_right _ known)) (by omega) (by omega)
      · rfl
    unfold symbolPiece
    dsimp only
    rw [none3 (by omega), none2, if_pos (by omega),
      operatorPiece_of_mem (by rw [length]; exact lengths1) (by decide +kernel) one found.starts]
    rfl
  · exact absurd (Prod.mk.inj same).2 (legible.2 header).1

/-- What is found is in one of the tables, and no longer than the remaining bytes as counted. -/
theorem symbolPiece_counted {n : Nat} (symbol : symbolPiece text = some (.token token n)) :
    n ≤ unsigned text.length ∧
      ∃ table ∈ [tokens3, tokens2, tokens1], ∃ entry ∈ table, entry.2 = token ∧ entry.1.length = n := by
  have of_table : ∀ table, operatorPiece table text = some (.token token n) →
      ∃ entry ∈ table, entry.2 = token ∧ entry.1.length = n := by
    intro table operator
    obtain ⟨str, t, entry, starts, same⟩ := operatorPiece_some operator
    obtain ⟨rfl, rfl⟩ := Piece.token.inj same
    exact ⟨_, entry, rfl, rfl⟩
  have no_comment : commentPiece text ≠ some (.token token n) := by
    unfold commentPiece
    split
    · exact fun same => nomatch same
    · split
      · exact fun same => nomatch same
      · exact fun same => nomatch same
  unfold symbolPiece at symbol
  dsimp only at symbol
  rcases Option.or_eq_some_iff.mp symbol with three | ⟨_, later⟩
  · split at three
    · obtain ⟨entry, member, kind, length⟩ := of_table _ three
      have three := lengths3 entry member
      exact ⟨by omega, tokens3, by simp, entry, member, kind, length⟩
    · cases three
  rcases Option.or_eq_some_iff.mp later with two | ⟨_, one⟩
  · split at two
    · rcases Option.or_eq_some_iff.mp two with comment | ⟨_, two⟩
      · exact absurd comment no_comment
      · obtain ⟨entry, member, kind, length⟩ := of_table _ two
        have two := lengths2 entry member
        exact ⟨by omega, tokens2, by simp, entry, member, kind, length⟩
    · cases two
  · split at one
    · obtain ⟨entry, member, kind, length⟩ := of_table _ one
      have one := lengths1 entry member
      exact ⟨by omega, tokens1, by simp, entry, member, kind, length⟩
    · cases one

theorem symbolPiece_equal (starts : startsWith ['=', '='] text = true) (two : 2 ≤ unsigned text.length) :
    symbolPiece text = some (.token .EQ_OP 2) := by
  obtain ⟨behind, rfl⟩ := startsWith_iff.mp starts
  have ellipsis : operatorPiece tokens3 (['=', '='].map Char.toUInt8 ++ behind) = none := rfl
  have comment : commentPiece (['=', '='].map Char.toUInt8 ++ behind) = none := rfl
  have found : operatorPiece tokens2 (['=', '='].map Char.toUInt8 ++ behind) = some (.token .EQ_OP 2) := rfl
  unfold symbolPiece
  dsimp only
  rw [if_pos two, ellipsis, ite_self, comment, found]
  rfl

theorem symbolPiece_legible (member : (str, token) ∈ operators equal)
    (symbol : symbolPiece text = some (.token token str.length)) : Legible equal text token str.length := by
  obtain ⟨counted, table, known, entry, within, kind, length⟩ := symbolPiece_counted symbol
  refine ⟨counted, ?_⟩
  rintro rfl
  have one : ∀ entry ∈ operators ['='], entry.2 = .EQ_OP → entry.1.length = 1 := by decide
  have two : ∀ table ∈ [tokens3, tokens2, tokens1], ∀ entry ∈ table, entry.2 = .EQ_OP → entry.1.length = 2 := by
    decide
  have other : token ≠ .EQ_OP := by
    intro same
    have first := one _ member same
    have second := two table known entry within (kind.trans same)
    dsimp only at first
    omega
  refine ⟨other, ?_⟩
  rintro ⟨starts, enough⟩
  have again := (symbolPiece_equal starts enough).symm.trans symbol
  exact other (Piece.token.inj (Option.some.inj again)).1.symm

theorem symbolPiece_none (spelt : equal = ['='] ∨ equal = ['=', '=']) (plain : ¬ Commented text)
    (absent : ∀ entry ∈ operators equal, ¬ entry.1.map Char.toUInt8 <+: text) : symbolPiece text = none := by
  have gone : ∀ entry ∈ tokens3 ++ tokens2 ++ tokens1, ¬ entry.1.map Char.toUInt8 <+: text := by
    intro entry member starts
    rcases tables_mem spelt member with known | ⟨rfl, rfl⟩
    · exact absent entry known starts
    · exact absent (['='], .ASSIGN) (by decide) ((List.prefix_append ['='.toUInt8] ['='.toUInt8]).trans starts)
  unfold symbolPiece
  dsimp only
  rw [operatorPiece_none fun entry member => gone entry (by simp [member]), commentPiece_of_not plain,
    operatorPiece_none fun entry member => gone entry (by simp [member]),
    operatorPiece_none fun entry member => gone entry (by simp [member])]
  simp only [ite_self, Option.or_none]

/-! ### What is found at the front of a text -/

theorem not_blank {test : UInt8 → Bool} (word : restTest c = some test) :
    isWhitespace c = false ∧ c ≠ '"'.toUInt8 := by
  constructor
  · by_contra white
    rw [restTest_none_of_blank (.inl (Bool.not_eq_false _ ▸ white))] at word
    cases word
  · intro quote
    rw [restTest_none_of_blank (.inr quote)] at word
    cases word

/-- The first byte of an operator begins neither a string nor an identifier. -/
theorem operator_head (spelt : equal = ['='] ∨ equal = ['=', '=']) (member : (str, token) ∈ operators equal)
    (starts : str.map Char.toUInt8 <+: c :: rest) :
    isWhitespace c = false ∧ c ≠ '"'.toUInt8 ∧ isIdentStart c = false := by
  have others : ∀ equal ∈ [['='], ['=', '=']], ∀ entry ∈ operators equal, entry.1.head?.any fun k =>
      !isWhitespace k.toUInt8 && k.toUInt8 != '"'.toUInt8 && !isIdentStart k.toUInt8 := by decide
  obtain ⟨k, head, other⟩ := (Option.any_eq_true _ _).mp (others equal (by simpa using spelt) _ member)
  obtain ⟨tail, same⟩ := List.head?_eq_some_iff.mp head
  dsimp only at same
  rw [same, List.map_cons, List.cons_prefix_cons] at starts
  simp only [Bool.and_eq_true, Bool.not_eq_true', bne_iff_ne, and_assoc] at other
  exact starts.1 ▸ other

theorem operator_not_ident (spelt : equal = ['='] ∨ equal = ['=', '=']) (ident : isIdentStart c = true) :
    ∀ entry ∈ operators equal, ¬ entry.1.map Char.toUInt8 <+: c :: rest := by
  intro entry member starts
  rw [(operator_head spelt member starts).2.2] at ident
  cases ident

/-- What the lexer finds at the front of the text is the lexeme of the specification. -/
theorem Munch.piece (before : Token) (spelt : equal = ['='] ∨ equal = ['=', '=']) (plain : ¬ Commented (c :: rest))
    (munch : Munch equal (c :: rest) token lexeme)
    (legible : IsOperator equal lexeme → Legible equal (c :: rest) token lexeme.length) :
    piece before c rest = .token token lexeme.length := by
  cases munch with
  | @operator str _ found member =>
    have counted := legible found.member
    rw [List.length_map] at counted ⊢
    unfold Low.piece
    rw [(operator_head spelt member found.starts).1, symbolPiece_of_legible spelt plain found member counted]
    rfl
  | number absent found =>
    obtain ⟨d, tail, same, start, rfl⟩ := found.word
    obtain ⟨rfl, rfl⟩ := List.cons.inj same
    obtain ⟨white, quote⟩ := not_blank (if_pos start : restTest c = some isNumberRest)
    unfold Low.piece lexemePiece
    rw [white, symbolPiece_none spelt plain absent]
    show (if c = '"'.toUInt8 then _ else _) = _
    rw [if_neg quote, if_pos start]
    rfl
  | quoted found =>
    obtain ⟨body, rfl, closed⟩ := found.member
    obtain ⟨behind, same⟩ := found.starts
    obtain ⟨rfl, tail⟩ := List.cons.inj same
    replace tail : body ++ behind = rest := tail
    rw [piece_string, ← tail, closed.length]
    rfl
  | ident found =>
    obtain ⟨d, tail, same, start, rfl⟩ := found.word
    obtain ⟨rfl, rfl⟩ := List.cons.inj same
    have number : ¬ isNumberStart c = true := by
      have all := forall_byte (p := fun c => !isIdentStart c || !isNumberStart c) (by decide +kernel) c
      rw [start] at all
      simpa using all
    have word : restTest c = some isIdent := (if_neg number).trans (if_pos start)
    obtain ⟨white, quote⟩ := not_blank word
    unfold Low.piece lexemePiece
    rw [white, symbolPiece_none spelt plain (operator_not_ident spelt start)]
    show (if c = '"'.toUInt8 then _ else _) = _
    rw [if_neg quote, if_neg number, if_pos start, checkKeywords_eq]
    rfl

theorem operator_kind (member : (str, token) ∈ operators equal) :
    token ≠ .INVALID ∧ token ≠ .EOF ∧ token ≠ .NUMBER_LITERAL ∧ token ≠ .IDENT := by
  have kinds : ∀ token ∈ (operators []).map Prod.snd,
      token ≠ .INVALID ∧ token ≠ .EOF ∧ token ≠ .NUMBER_LITERAL ∧ token ≠ .IDENT := by decide
  exact kinds token (List.mem_map_of_mem (f := Prod.snd) member)

theorem wordToken_kind (lexeme : List UInt8) :
    wordToken lexeme ≠ .INVALID ∧ wordToken lexeme ≠ .EOF ∧ wordToken lexeme ≠ .NUMBER_LITERAL := by
  have kinds : ∀ entry ∈ keywords, entry.2 ≠ .INVALID ∧ entry.2 ≠ .EOF ∧ entry.2 ≠ .NUMBER_LITERAL := by decide
  unfold wordToken
  split
  · rename_i found
    exact kinds _ (List.mem_of_find?_eq_some found)
  · decide

theorem Munch.goes (munch : Munch equal text token lexeme) : token ≠ .INVALID ∧ token ≠ .EOF := by
  cases munch with
  | operator _ member => exact ⟨(operator_kind member).1, (operator_kind member).2.1⟩
  | number => decide
  | quoted => decide
  | ident => exact ⟨(wordToken_kind lexeme).1, (wordToken_kind lexeme).2.1⟩

/-- A lexeme that is spelled like an operator is one. -/
theorem Munch.operator_of (spelt : equal = ['='] ∨ equal = ['=', '=']) (munch : Munch equal text token lexeme)
    (spelled : IsOperator equal lexeme) :
    ∃ str, lexeme = str.map Char.toUInt8 ∧ (str, token) ∈ operators equal ∧
      Longest (IsOperator equal) text lexeme := by
  obtain ⟨entry, member, same⟩ := spelled
  cases munch with
  | operator found member => exact ⟨_, rfl, member, found⟩
  | number absent found => exact absurd (same ▸ found.starts) (absent entry member)
  | quoted found =>
    obtain ⟨body, rfl, _⟩ := found.member
    have starts : entry.1.map Char.toUInt8 <+: '"'.toUInt8 :: body := same ▸ List.prefix_rfl
    exact absurd rfl (operator_head spelt member starts).2.1
  | ident found =>
    obtain ⟨c, rest, rfl, start, rfl⟩ := found.word
    rw [(operator_head spelt member (same ▸ found.starts)).2.2] at start
    cases start

theorem Munch.number_of (munch : Munch equal text .NUMBER_LITERAL lexeme) :
    (∀ entry ∈ operators equal, ¬ entry.1.map Char.toUInt8 <+: text) ∧
      Longest (IsWord isNumberStart isNumberRest) text lexeme := by
  generalize same : Token.NUMBER_LITERAL = token at munch
  cases munch with
  | operator _ member => exact absurd same.symm (operator_kind member).2.2.1
  | number absent found => exact ⟨absent, found⟩
  | quoted => cases same
  | ident => exact absurd same.symm (wordToken_kind lexeme).2.2

theorem Munch.ne_nil (spelt : equal = ['='] ∨ equal = ['=', '=']) (munch : Munch equal text token lexeme) :
    lexeme ≠ [] := by
  cases munch with
  | operator _ member =>
    have some : ∀ equal ∈ [['='], ['=', '=']], ∀ entry ∈ operators equal, entry.1 ≠ [] := by decide
    exact fun none => some equal (by simpa using spelt) _ member (List.map_eq_nil_iff.mp none)
  | number _ found =>
    obtain ⟨_, _, _, _, rfl⟩ := found.word
    exact List.cons_ne_nil _ _
  | quoted found =>
    obtain ⟨_, rfl, _⟩ := found.member
    exact List.cons_ne_nil _ _
  | ident found =>
    obtain ⟨_, _, _, _, rfl⟩ := found.word
    exact List.cons_ne_nil _ _

/-! ### Every text -/

theorem longest_word {first test : UInt8 → Bool} (start : first c = true) (rest : List UInt8) :
    Longest (IsWord first test) (c :: rest) (c :: rest.takeWhile test) := by
  refine ⟨⟨start, fun d within => List.all_eq_true.mp List.all_takeWhile d within⟩,
    (List.prefix_cons_inj c).mpr (List.takeWhile_prefix test), ?_⟩
  intro other word starts
  cases other with
  | nil => exact Nat.zero_le _
  | cons d tail =>
    obtain ⟨behind, same⟩ := (List.cons_prefix_cons.mp starts).2
    rw [← same, List.takeWhile_append_of_pos word.2, List.length_cons, List.length_cons, List.length_append]
    omega

theorem longest_operator {entry : List Char × Token} (member : entry ∈ operators equal)
    (starts : entry.1.map Char.toUInt8 <+: text) :
    ∃ str token, (str, token) ∈ operators equal ∧ Longest (IsOperator equal) text (str.map Char.toUInt8) := by
  obtain ⟨best, known, most⟩ := Finset.exists_max_image
    ((operators equal).toFinset.filter fun entry => entry.1.map Char.toUInt8 <+: text) (fun entry => entry.1.length)
    ⟨entry, by simp [member, starts]⟩
  simp only [Finset.mem_filter, List.mem_toFinset] at known most
  refine ⟨best.1, best.2, known.1, ⟨best, known.1, rfl⟩, known.2, ?_⟩
  rintro _ ⟨other, within, rfl⟩ begins
  rw [List.length_map, List.length_map]
  exact most other ⟨within, begins⟩

theorem IsQuoted.unique {other : List UInt8} (quoted : IsQuoted lexeme) (again : IsQuoted other)
    (starts : lexeme <+: text) (starts' : other <+: text) : lexeme.length = other.length := by
  obtain ⟨body, rfl, closed⟩ := quoted
  obtain ⟨body', rfl, closed'⟩ := again
  obtain ⟨behind, rfl⟩ := starts
  obtain ⟨behind', same⟩ := starts'
  obtain ⟨_, tail⟩ := List.cons.inj same
  replace tail : body' ++ behind' = body ++ behind := tail
  have length := closed.length behind
  rw [← tail, closed'.length behind'] at length
  exact congrArg (· + 1) (Prod.mk.inj length).2.symm

theorem Longest.unique {kind : List UInt8 → Prop} {other : List UInt8} (found : Longest kind text lexeme)
    (again : Longest kind text other) : lexeme = other := by
  have le := again.longest lexeme found.member found.starts
  have ge := found.longest other again.member again.starts
  exact (List.prefix_of_prefix_length_le found.starts again.starts le).eq_of_length (Nat.le_antisymm le ge)

/-- What the lexeme is, by the front of the text. -/
theorem Munch.kind (spelt : equal = ['='] ∨ equal = ['=', '=']) (munch : Munch equal (c :: rest) token lexeme) :
    0x20 < c ∧
      if ∃ entry ∈ operators equal, entry.1.map Char.toUInt8 <+: c :: rest then
        Longest (IsOperator equal) (c :: rest) lexeme ∧
          ∃ str, lexeme = str.map Char.toUInt8 ∧ (str, token) ∈ operators equal
      else if c = '"'.toUInt8 then token = .STRING_LITERAL ∧ Longest IsQuoted (c :: rest) lexeme
      else if isNumberStart c then
        token = .NUMBER_LITERAL ∧ Longest (IsWord isNumberStart isNumberRest) (c :: rest) lexeme
      else isIdentStart c = true ∧ token = wordToken lexeme ∧ Longest (IsWord isIdentStart isIdent) (c :: rest) lexeme := by
  have low : isWhitespace c = false → 0x20 < c := by
    intro black
    have all := forall_byte (p := fun c => isWhitespace c || 0x20 < c) (by decide +kernel) c
    rw [black] at all
    simpa using all
  cases munch with
  | operator found member =>
    have head := operator_head spelt member found.starts
    rw [if_pos ⟨_, member, found.starts⟩]
    exact ⟨low head.1, found, _, rfl, member⟩
  | number absent found =>
    obtain ⟨_, _, same, start, _⟩ := found.word
    obtain ⟨rfl, rfl⟩ := List.cons.inj same
    obtain ⟨white, other⟩ := not_blank (if_pos start : restTest c = some isNumberRest)
    rw [if_neg fun operator => absent _ operator.choose_spec.1 operator.choose_spec.2, if_neg other, if_pos start]
    exact ⟨low white, rfl, found⟩
  | quoted found =>
    obtain ⟨_, rfl, _⟩ := found.member
    obtain ⟨rfl, _⟩ := List.cons_prefix_cons.mp found.starts
    rw [if_neg fun operator => (operator_head spelt operator.choose_spec.1 operator.choose_spec.2).2.1 rfl, if_pos rfl]
    exact ⟨by decide, rfl, found⟩
  | ident found =>
    obtain ⟨_, _, same, start, _⟩ := found.word
    obtain ⟨rfl, rfl⟩ := List.cons.inj same
    have all := forall_byte (p := fun c => !isIdentStart c || (!isWhitespace c && c != '"'.toUInt8 && !isNumberStart c))
      (by decide +kernel) c
    rw [start] at all
    simp only [Bool.not_true, Bool.false_or, Bool.and_eq_true, Bool.not_eq_true', bne_iff_ne] at all
    obtain ⟨⟨white, quote⟩, number⟩ := all
    rw [if_neg fun operator => operator_not_ident spelt start _ operator.choose_spec.1 operator.choose_spec.2,
      if_neg quote, if_neg (Bool.eq_false_iff.mp number)]
    exact ⟨low white, start, rfl, found⟩

/-- With `EQ_OP` spelled as the lexer spells it there is one lexeme at the front of a text. -/
theorem Munch.unique {token' : Token} {other : List UInt8} (munch : Munch ['=', '='] (c :: rest) token lexeme)
    (again : Munch ['=', '='] (c :: rest) token' other) : token = token' ∧ lexeme = other := by
  have distinct : ∀ entry ∈ operators ['=', '='], ∀ entry' ∈ operators ['=', '='],
      entry.1.map Char.toUInt8 = entry'.1.map Char.toUInt8 → entry = entry' := by decide +kernel
  obtain ⟨_, first⟩ := munch.kind (.inr rfl)
  obtain ⟨_, second⟩ := again.kind (.inr rfl)
  by_cases operator : ∃ entry ∈ operators ['=', '='], entry.1.map Char.toUInt8 <+: c :: rest
  · rw [if_pos operator] at first second
    obtain ⟨found, _, rfl, member⟩ := first
    obtain ⟨found', _, rfl, member'⟩ := second
    have same := found.unique found'
    obtain ⟨_, kind⟩ := Prod.mk.inj (distinct _ member _ member' same)
    exact ⟨kind, same⟩
  rw [if_neg operator] at first second
  by_cases quote : c = '"'.toUInt8
  · rw [if_pos quote] at first second
    exact ⟨first.1.trans second.1.symm, first.2.unique second.2⟩
  rw [if_neg quote] at first second
  by_cases number : isNumberStart c = true
  · rw [if_pos number] at first second
    exact ⟨first.1.trans second.1.symm, first.2.unique second.2⟩
  · rw [if_neg number] at first second
    have same := first.2.2.unique second.2.2
    rw [first.2.1, second.2.1, same]
    exact ⟨rfl, rfl⟩

/-- Every text has its tokens, or is stuck. -/
theorem tokens_or_stuck (spelt : equal = ['='] ∨ equal = ['=', '=']) (before : Token) (base : Nat)
    (text : List UInt8) : (∃ lexed, Tokens equal before base text lexed) ∨ Stuck equal before text := by
  induction length : text.length using Nat.strongRecOn generalizing before base text with
  | ind _ ih =>
  subst length
  have lexeme : ∀ token lexeme, Munch equal text token lexeme →
      (∃ lexed, Tokens equal before base text lexed) ∨ Stuck equal before text := by
    intro token lexeme munch
    by_cases comment : Commented text
    · exact .inr (.comment before comment)
    · have some := List.length_pos_iff.mpr (munch.ne_nil spelt)
      obtain ⟨rest, rfl⟩ : lexeme <+: text := by
        cases munch with
        | operator found => exact found.starts
        | number _ found => exact found.starts
        | quoted found => exact found.starts
        | ident found => exact found.starts
      rcases ih _ (by rw [List.length_append]; omega) token (base + lexeme.length) rest rfl with ⟨lexed, tokens⟩ | stuck
      · exact .inl ⟨_, .munch comment munch tokens⟩
      · exact .inr (.munch munch stuck)
  cases text with
  | nil => exact .inl ⟨[], .done _ _⟩
  | cons c rest =>
    by_cases low : c ≤ 0x20
    · by_cases newline : c = '\n'.toUInt8 ∧ before ∈ terminators
      · obtain ⟨rfl, terminates⟩ := newline
        rcases ih _ (Nat.lt_succ_self _) .SEMICOLON (base + 1) rest rfl with ⟨lexed, tokens⟩ | stuck
        · exact .inl ⟨_, .newline terminates tokens⟩
        · exact .inr (.newline terminates stuck)
      · rcases ih _ (Nat.lt_succ_self _) before (base + 1) rest rfl with ⟨lexed, tokens⟩ | stuck
        · exact .inl ⟨_, .blank low newline tokens⟩
        · exact .inr (.blank low newline stuck)
    · by_cases operator : ∃ entry ∈ operators equal, entry.1.map Char.toUInt8 <+: c :: rest
      · obtain ⟨entry, member, starts⟩ := operator
        obtain ⟨str, token, known, found⟩ := longest_operator member starts
        exact lexeme _ _ (.operator found known)
      · have absent : ∀ entry ∈ operators equal, ¬ entry.1.map Char.toUInt8 <+: c :: rest :=
          fun entry member starts => operator ⟨entry, member, starts⟩
        by_cases quote : c = '"'.toUInt8
        · subst quote
          by_cases closed : ∃ body, IsStringRest body ∧ body <+: rest
          · obtain ⟨body, closed, starts⟩ := closed
            have whole : '"'.toUInt8 :: body <+: '"'.toUInt8 :: rest := List.cons_prefix_cons.mpr ⟨rfl, starts⟩
            exact lexeme _ _ (.quoted ⟨⟨body, rfl, closed⟩, whole, fun other again begins =>
              (again.unique ⟨body, rfl, closed⟩ begins whole).le⟩)
          · exact .inr (.unterminated before fun body ends starts => closed ⟨body, ends, starts⟩)
        · by_cases number : isNumberStart c = true
          · exact lexeme _ _ (.number absent (longest_word number rest))
          · by_cases ident : isIdentStart c = true
            · exact lexeme _ _ (.ident (longest_word ident rest))
            · exact .inr (.garbage before (UInt8.not_le.mp low) quote (Bool.eq_false_iff.mpr number)
                (Bool.eq_false_iff.mpr ident) absent)

end Low
