import LowCompiler.Lexer.Tokenisation

/-!
# Explicit semicolons

A semicolon written before each newline that is a token leaves the kinds of the tokens
as they are.
-/

namespace Low

variable {equal : List Char} {token before : Token} {base : Nat} {text rest lexeme more : List UInt8}
  {lexed : List Lexed}

theorem Tokens.bases (tokens : Tokens equal before base text lexed) : ∀ l ∈ lexed, base ≤ l.base := by
  induction tokens with
  | done => exact nofun
  | blank _ _ _ ih => exact fun l member => Nat.le_of_succ_le (ih l member)
  | newline _ _ ih =>
    intro l member
    rcases List.mem_cons.mp member with rfl | member
    · exact Nat.le_refl _
    · exact Nat.le_of_succ_le (ih l member)
  | munch _ _ _ ih =>
    intro l member
    rcases List.mem_cons.mp member with rfl | member
    · exact Nat.le_refl _
    · exact Nat.le_trans (Nat.le_add_right _ _) (ih l member)

/-- The tokens are parts of the text, each at its place. -/
theorem Tokens.lexemes (tokens : Tokens equal before base text lexed) :
    ∀ l ∈ lexed, l.lexeme <+: text.drop (l.base - base) := by
  induction tokens with
  | done => exact nofun
  | blank _ _ tokens ih =>
    intro l member
    have after := tokens.bases l member
    rw [List.drop_cons (by omega), Nat.sub_sub]
    exact ih l member
  | newline _ tokens ih =>
    intro l member
    rcases List.mem_cons.mp member with rfl | member
    · rw [Nat.sub_self]
      exact List.cons_prefix_cons.mpr ⟨rfl, List.nil_prefix⟩
    · have after := tokens.bases l member
      rw [List.drop_cons (by omega), Nat.sub_sub]
      exact ih l member
  | @munch _ _ base lexeme rest _ _ _ tokens ih =>
    intro l member
    rcases List.mem_cons.mp member with rfl | member
    · rw [Nat.sub_self]
      exact List.prefix_append _ _
    · have after := tokens.bases l member
      rw [List.drop_append, List.drop_eq_nil_of_le (by omega), List.nil_append, Nat.sub_sub]
      exact ih l member

theorem explicitSemicolons_cons (lexed : List Lexed) (base : Nat) (c : UInt8) (rest : List UInt8) :
    explicitSemicolons lexed base (c :: rest) =
      (if ⟨.SEMICOLON, base, ['\n'.toUInt8]⟩ ∈ lexed then [';'.toUInt8, c] else [c]) ++
        explicitSemicolons lexed (base + 1) rest := by
  unfold explicitSemicolons
  rw [List.zipIdx_cons, List.flatMap_cons]

/-- Only the newlines from `base` on count. -/
theorem explicitSemicolons_congr {other : List Lexed}
    (same : ∀ place, base ≤ place →
      ((⟨.SEMICOLON, place, ['\n'.toUInt8]⟩ : Lexed) ∈ lexed ↔ ⟨.SEMICOLON, place, ['\n'.toUInt8]⟩ ∈ other)) :
    explicitSemicolons lexed base text = explicitSemicolons other base text := by
  induction text generalizing base with
  | nil => rfl
  | cons c rest ih =>
    rw [explicitSemicolons_cons, explicitSemicolons_cons,
      ih fun place le => same place (Nat.le_of_succ_le le)]
    simp only [same base (Nat.le_refl base)]

theorem explicitSemicolons_append
    (fresh : ∀ place, base ≤ place → place < base + lexeme.length →
      (⟨.SEMICOLON, place, ['\n'.toUInt8]⟩ : Lexed) ∉ lexed) (rest : List UInt8) :
    explicitSemicolons lexed base (lexeme ++ rest) =
      lexeme ++ explicitSemicolons lexed (base + lexeme.length) rest := by
  induction lexeme generalizing base with
  | nil => rfl
  | cons c lexeme ih =>
    rw [List.length_cons] at fresh
    have onwards : explicitSemicolons lexed (base + 1) (lexeme ++ rest) =
        lexeme ++ explicitSemicolons lexed (base + 1 + lexeme.length) rest :=
      ih fun place le lt => fresh place (by omega) (by omega)
    rw [List.cons_append, explicitSemicolons_cons, if_neg (fresh base (Nat.le_refl _) (by omega)), onwards,
      List.length_cons, Nat.add_right_comm, Nat.add_assoc]
    rfl

/-- Without a semicolon in it, what begins the new text began the old one. -/
theorem prefix_of_explicit (word : List UInt8) (fresh : ';'.toUInt8 ∉ word)
    (starts : word <+: explicitSemicolons lexed base text) : word <+: text := by
  induction word generalizing text base with
  | nil => exact List.nil_prefix
  | cons d word ih =>
    cases text with
    | nil => exact absurd (List.prefix_nil.mp starts) (List.cons_ne_nil _ _)
    | cons c rest =>
      rw [explicitSemicolons_cons] at starts
      split at starts
      · rw [List.cons_append, List.cons_prefix_cons] at starts
        exact absurd (starts.1 ▸ List.mem_cons_self) fresh
      · rw [List.cons_append, List.nil_append, List.cons_prefix_cons] at starts
        rw [starts.1, List.cons_prefix_cons]
        exact ⟨rfl, ih (fun member => fresh (List.mem_cons_of_mem d member)) starts.2⟩

theorem operator_of_semicolon (spelt : equal = ['='] ∨ equal = ['=', '=']) {entry : List Char × Token}
    (member : entry ∈ operators equal) (inside : ';'.toUInt8 ∈ entry.1.map Char.toUInt8) :
    entry = ([';'], .SEMICOLON) := by
  have only : ∀ equal ∈ [['='], ['=', '=']], ∀ entry ∈ operators equal,
      ';'.toUInt8 ∈ entry.1.map Char.toUInt8 → entry = ([';'], .SEMICOLON) := by decide
  exact only equal (by simpa using spelt) entry member inside

/-- The operators that begin the new text began the old one. -/
theorem operator_of_explicit (spelt : equal = ['='] ∨ equal = ['=', '=']) (some : lexeme ≠ [])
    {rest' : List UInt8}
    (keeps : ∀ word, ';'.toUInt8 ∉ word → word <+: lexeme ++ rest' → word <+: lexeme ++ rest)
    {entry : List Char × Token} (member : entry ∈ operators equal)
    (starts : entry.1.map Char.toUInt8 <+: lexeme ++ rest') : entry.1.map Char.toUInt8 <+: lexeme ++ rest := by
  by_cases inside : ';'.toUInt8 ∈ entry.1.map Char.toUInt8
  · obtain rfl := operator_of_semicolon spelt member inside
    obtain ⟨c, tail, rfl⟩ := List.exists_cons_of_ne_nil some
    exact List.cons_prefix_cons.mpr ⟨(List.cons_prefix_cons.mp starts).1, List.nil_prefix⟩
  · exact keeps _ inside starts

theorem Munch.explicit (spelt : equal = ['='] ∨ equal = ['=', '=']) {rest' : List UInt8}
    (keeps : ∀ word, ';'.toUInt8 ∉ word → word <+: lexeme ++ rest' → word <+: lexeme ++ rest)
    (munch : Munch equal (lexeme ++ rest) token lexeme) : Munch equal (lexeme ++ rest') token lexeme := by
  have some := munch.ne_nil spelt
  have words : ∀ first test, first ';'.toUInt8 = false → test ';'.toUInt8 = false →
      Longest (IsWord first test) (lexeme ++ rest) lexeme → Longest (IsWord first test) (lexeme ++ rest') lexeme := by
    intro first test notFirst notTest found
    refine ⟨found.member, List.prefix_append _ _, ?_⟩
    intro other word starts
    refine found.longest other word (keeps other ?_ starts)
    intro inside
    cases other with
    | nil => cases inside
    | cons c tail =>
      rcases List.mem_cons.mp inside with rfl | inside
      · rw [word.1] at notFirst
        cases notFirst
      · rw [word.2 _ inside] at notTest
        cases notTest
  generalize whole : lexeme ++ rest = text at munch
  cases munch with
  | operator found member =>
    refine .operator ⟨found.member, List.prefix_append _ _, ?_⟩ member
    rintro _ ⟨entry, known, rfl⟩ starts
    refine found.longest _ ⟨entry, known, rfl⟩ ?_
    rw [← whole]
    exact operator_of_explicit spelt some keeps known starts
  | number absent found =>
    refine .number ?_ (words _ _ rfl rfl (whole ▸ found))
    intro entry known starts
    exact absent entry known (whole ▸ operator_of_explicit spelt some keeps known starts)
  | quoted found =>
    refine .quoted ⟨found.member, List.prefix_append _ _, ?_⟩
    intro other again starts
    exact (again.unique found.member starts (List.prefix_append _ _)).le
  | ident found => exact .ident (words _ _ rfl rfl (whole ▸ found))

theorem munch_semicolon (spelt : equal = ['='] ∨ equal = ['=', '=']) (rest : List UInt8) :
    Munch equal ([';'.toUInt8] ++ rest) .SEMICOLON [';'.toUInt8] := by
  have member : ([';'], .SEMICOLON) ∈ operators equal := by
    rcases spelt with rfl | rfl <;> decide
  have longest : Longest (IsOperator equal) ([';'.toUInt8] ++ rest) ([';'].map Char.toUInt8) := by
    refine ⟨⟨_, member, rfl⟩, List.prefix_append _ _, ?_⟩
    rintro _ ⟨entry, known, rfl⟩ starts
    cases word : entry.1.map Char.toUInt8 with
    | nil => exact Nat.zero_le _
    | cons c tail =>
      rw [word] at starts
      have inside : ';'.toUInt8 ∈ entry.1.map Char.toUInt8 := by
        rw [word, (List.cons_prefix_cons.mp starts).1]
        exact List.mem_cons_self
      obtain rfl := operator_of_semicolon spelt known inside
      rw [← word]
  exact .operator longest member

theorem Munch.ne_newline (spelt : equal = ['='] ∨ equal = ['=', '=']) (munch : Munch equal text token lexeme) :
    lexeme ≠ ['\n'.toUInt8] := by
  intro newline
  cases munch with
  | @operator str _ _ member =>
    have starts : str.map Char.toUInt8 <+: '\n'.toUInt8 :: [] := by rw [newline]
    exact absurd (operator_head spelt member starts).1 (by decide)
  | number _ found =>
    obtain ⟨_, _, _, start, rfl⟩ := found.word
    rw [(List.cons.inj newline).1] at start
    cases start
  | quoted found =>
    obtain ⟨_, rfl, _⟩ := found.member
    cases newline
  | ident found =>
    obtain ⟨_, _, _, start, rfl⟩ := found.word
    rw [(List.cons.inj newline).1] at start
    cases start

/-- An explicit semicolon before each newline that is a token leaves the kinds of the tokens. -/
theorem Tokens.explicit (spelt : equal = ['='] ∨ equal = ['=', '=']) (tokens : Tokens equal before base text lexed)
    (base' : Nat) :
    ∃ lexed', Tokens equal before base' (explicitSemicolons lexed base text) lexed' ∧
      lexed'.map Lexed.token = lexed.map Lexed.token := by
  induction tokens generalizing base' with
  | done => exact ⟨[], .done _ _, rfl⟩
  | @blank before base c rest lexed low same tokens ih =>
    obtain ⟨lexed', again, kinds⟩ := ih (base' + 1)
    have fresh : (⟨.SEMICOLON, base, ['\n'.toUInt8]⟩ : Lexed) ∉ lexed :=
      fun member => absurd (tokens.bases _ member) (Nat.not_succ_le_self base)
    rw [explicitSemicolons_cons, if_neg fresh]
    exact ⟨lexed', .blank low same again, kinds⟩
  | @newline before base rest lexed terminates tokens ih =>
    obtain ⟨lexed', again, kinds⟩ := ih (base' + 2)
    have others : explicitSemicolons (⟨.SEMICOLON, base, ['\n'.toUInt8]⟩ :: lexed) (base + 1) rest =
        explicitSemicolons lexed (base + 1) rest := by
      apply explicitSemicolons_congr
      intro place le
      rw [List.mem_cons, or_iff_right]
      intro same
      exact absurd (congrArg Lexed.base same) (by dsimp only; omega)
    rw [explicitSemicolons_cons, if_pos List.mem_cons_self, others]
    have plain : ¬ Commented ([';'.toUInt8] ++ '\n'.toUInt8 :: explicitSemicolons lexed (base + 1) rest) := by
      rintro (line | block)
      · cases line
      · cases block
    have blank := again.blank (c := '\n'.toUInt8) (by decide) (fun both => absurd both.2 (by decide))
    have more : Tokens equal before base' ([';'.toUInt8] ++ '\n'.toUInt8 :: explicitSemicolons lexed (base + 1) rest) _ :=
      .munch plain (munch_semicolon spelt _) blank
    exact ⟨_, more, congrArg (Token.SEMICOLON :: ·) kinds⟩
  | @munch before token base lexeme rest lexed plain munch tokens ih =>
    obtain ⟨lexed', again, kinds⟩ := ih (base' + lexeme.length)
    have same : explicitSemicolons (⟨token, base, lexeme⟩ :: lexed) base (lexeme ++ rest) =
        lexeme ++ explicitSemicolons lexed (base + lexeme.length) rest := by
      rw [explicitSemicolons_append]
      · congr 1
        apply explicitSemicolons_congr
        intro place le
        rw [List.mem_cons, or_iff_right]
        exact fun same => munch.ne_newline spelt (congrArg Lexed.lexeme same).symm
      · intro place le lt member
        rcases List.mem_cons.mp member with same | member
        · exact munch.ne_newline spelt (congrArg Lexed.lexeme same).symm
        · have after := tokens.bases _ member
          dsimp only at after
          omega
    have keeps : ∀ word, ';'.toUInt8 ∉ word →
        word <+: lexeme ++ explicitSemicolons lexed (base + lexeme.length) rest → word <+: lexeme ++ rest := by
      intro word fresh starts
      rw [← same] at starts
      exact prefix_of_explicit word fresh starts
    have plain' : ¬ Commented (lexeme ++ explicitSemicolons lexed (base + lexeme.length) rest) := by
      rintro (line | block)
      · exact plain (.inl (startsWith_iff.mpr (keeps _ (by decide) (startsWith_iff.mp line))))
      · exact plain (.inr (startsWith_iff.mpr (keeps _ (by decide) (startsWith_iff.mp block))))
    rw [same]
    exact ⟨_, .munch plain' (munch.explicit spelt keeps) again, congrArg (token :: ·) kinds⟩

/-! ### The lexical specification -/

theorem kinds_of_tokenises {lexed' : List Lexed} {text' : List UInt8} (first : Tokenises text more 0 lexed)
    (second : Tokenises text' more 0 lexed') (kinds : lexed'.map Lexed.token = lexed.map Lexed.token)
    (n : Nat) :
    (lexerCalls (text ++ more) text.length n).map Lexer.token =
      (lexerCalls (text' ++ more) text'.length n).map Lexer.token := by
  cases n with
  | zero => rfl
  | succ n =>
    have kind : ∀ {text : List UInt8} {lexed : List Lexed}, Tokenises text more 0 lexed →
        (lexerCalls (text ++ more) text.length (n + 1)).map Lexer.token =
          .ok ((lexed.map Lexed.token)[n]?.getD .EOF) := by
      intro text lexed tokenises
      obtain ⟨s, calls, took⟩ := tokenises n
      rw [Nat.zero_add] at calls
      rw [calls, List.getElem?_map]
      cases token : lexed[n]? with
      | none =>
        rw [token] at took
        exact congrArg Except.ok took
      | some l =>
        rw [token] at took
        exact congrArg Except.ok took.1
    rw [kind first, kind second, kinds]

/-- A text of blanks and lexemes, with a byte behind it that belongs to no identifier, has tokens by the
specification, with `EQ_OP` spelled as in the header or as the lexer spells it. The lexer returns these
if and only if each can be read. With explicit semicolons the kinds stay. -/
theorem lexical_specification (spelt : equal = ['='] ∨ equal = ['=', '=']) (clean : ¬ Stuck equal .SOF text)
    (notIdent : NotIdent more) :
    (∃ lexed, Tokens equal .SOF 0 text lexed) ∧
      ∀ lexed, Tokens equal .SOF 0 text lexed →
        (Tokenises text more 0 lexed ↔ ∀ l ∈ lexed, l.Readable equal text more) ∧
        ∃ lexed', Tokens equal .SOF 0 (explicitSemicolons lexed 0 text) lexed' ∧
          lexed'.map Lexed.token = lexed.map Lexed.token ∧
          ((∀ l ∈ lexed, l.Readable equal text more) →
            (∀ l ∈ lexed', l.Readable equal (explicitSemicolons lexed 0 text) more) →
            ∀ n, (lexerCalls (text ++ more) text.length n).map Lexer.token =
              (lexerCalls (explicitSemicolons lexed 0 text ++ more) (explicitSemicolons lexed 0 text).length n).map
                Lexer.token) := by
  refine ⟨(tokens_or_stuck spelt .SOF 0 text).resolve_right clean, ?_⟩
  intro lexed tokens
  have same := tokenises_iff spelt notIdent tokens
  obtain ⟨lexed', again, kinds⟩ := tokens.explicit spelt 0
  have same' := tokenises_iff spelt notIdent again
  exact ⟨same, lexed', again, kinds, fun readable readable' =>
    kinds_of_tokenises (same.mpr readable) (same'.mpr readable') kinds⟩

theorem not_stuck_nil (spelt : equal = ['='] ∨ equal = ['=', '=']) : ¬ Stuck equal before [] := by
  intro stuck
  generalize none : ([] : List UInt8) = text at stuck
  cases stuck with
  | comment _ comment =>
    subst none
    rcases comment with line | block
    · cases line
    · cases block
  | munch found _ => exact found.ne_nil spelt (List.append_eq_nil_iff.mp none.symm).1
  | _ => cases none

theorem commented_head {c : UInt8} (comment : Commented (c :: text)) : c = '/'.toUInt8 := by
  rcases comment with line | block
  · exact (List.cons_prefix_cons.mp (startsWith_iff.mp line)).1.symm
  · exact (List.cons_prefix_cons.mp (startsWith_iff.mp block)).1.symm

theorem Tokens.not_stuck (tokens : Tokens ['=', '='] before base text lexed) : ¬ Stuck ['=', '='] before text := by
  induction tokens with
  | done => exact not_stuck_nil (.inr rfl)
  | @blank before base c rest lexed low same _ ih =>
    intro stuck
    generalize whole : c :: rest = text at stuck
    cases stuck with
    | comment _ comment =>
      rw [← whole] at comment
      exact absurd (commented_head comment ▸ low) (by decide)
    | unterminated =>
      obtain ⟨rfl, _⟩ := List.cons.inj whole
      exact absurd low (by decide)
    | garbage _ high =>
      obtain ⟨rfl, _⟩ := List.cons.inj whole
      exact absurd low (UInt8.not_le.mpr high)
    | blank _ _ stuck =>
      obtain ⟨_, rfl⟩ := List.cons.inj whole
      exact ih stuck
    | newline terminates =>
      obtain ⟨rfl, _⟩ := List.cons.inj whole
      exact same ⟨rfl, terminates⟩
    | munch munch =>
      rw [← whole] at munch
      exact absurd low (UInt8.not_le.mpr (munch.kind (.inr rfl)).1)
  | @newline before base rest lexed terminates _ ih =>
    intro stuck
    generalize whole : '\n'.toUInt8 :: rest = text at stuck
    cases stuck with
    | comment _ comment =>
      rw [← whole] at comment
      exact absurd (commented_head comment) (by decide)
    | unterminated => exact absurd (List.cons.inj whole).1 (by decide)
    | garbage _ high =>
      obtain ⟨rfl, _⟩ := List.cons.inj whole
      exact absurd high (by decide)
    | blank _ other =>
      obtain ⟨rfl, _⟩ := List.cons.inj whole
      exact other ⟨rfl, terminates⟩
    | newline _ stuck =>
      obtain ⟨_, rfl⟩ := List.cons.inj whole
      exact ih stuck
    | munch munch =>
      rw [← whole] at munch
      exact absurd (munch.kind (.inr rfl)).1 (by decide)
  | @munch before token base lexeme rest lexed plain munch _ ih =>
    intro stuck
    obtain ⟨c, tail, rfl⟩ := List.exists_cons_of_ne_nil (munch.ne_nil (.inr rfl))
    replace munch : Munch ['=', '='] (c :: (tail ++ rest)) token (c :: tail) := munch
    obtain ⟨high, kind⟩ := munch.kind (.inr rfl)
    generalize whole : c :: tail ++ rest = text at stuck
    cases stuck with
    | comment _ comment => exact plain (whole ▸ comment)
    | unterminated _ absent =>
      obtain ⟨rfl, rfl⟩ := List.cons.inj whole
      rw [if_neg fun operator => (operator_head (.inr rfl) operator.choose_spec.1 operator.choose_spec.2).2.1 rfl,
        if_pos rfl] at kind
      obtain ⟨body, same, closed⟩ := kind.2.member
      obtain ⟨_, rfl⟩ := List.cons.inj same
      exact absent _ closed (List.prefix_append _ _)
    | garbage _ _ quote number ident absent =>
      obtain ⟨rfl, rfl⟩ := List.cons.inj whole
      rw [if_neg fun operator => absent _ operator.choose_spec.1 operator.choose_spec.2, if_neg quote,
        if_neg (Bool.eq_false_iff.mp number)] at kind
      exact absurd kind.1 (Bool.eq_false_iff.mp ident)
    | blank low =>
      obtain ⟨rfl, _⟩ := List.cons.inj whole
      exact absurd low (UInt8.not_le.mpr high)
    | newline =>
      obtain ⟨rfl, _⟩ := List.cons.inj whole
      exact absurd high (by decide)
    | munch again stuck =>
      rw [← whole] at again
      obtain ⟨rfl, rfl⟩ := munch.unique again
      rw [List.append_cancel_left whole] at ih
      exact ih stuck

/-- `a>>=1`, a newline and `"b"--c`. -/
def assignedLine : List UInt8 := [0x61, 0x3e, 0x3e, 0x3d, 0x31, 0x0a, 0x22, 0x62, 0x22, 0x2d, 0x2d, 0x63]

def assignedTokens : List Lexed :=
  [⟨.IDENT, 0, [0x61]⟩, ⟨.RIGHT_ASSIGN, 1, [0x3e, 0x3e, 0x3d]⟩, ⟨.NUMBER_LITERAL, 4, [0x31]⟩,
    ⟨.SEMICOLON, 5, [0x0a]⟩, ⟨.STRING_LITERAL, 6, [0x22, 0x62, 0x22]⟩, ⟨.DEC_OP, 9, [0x2d, 0x2d]⟩,
    ⟨.IDENT, 11, [0x63]⟩]

/-- An operator that is the longest of the table at the front of the text. -/
theorem munch_operator (str : List Char) (member : (str, token) ∈ operators equal)
    (starts : str.map Char.toUInt8 <+: text)
    (longest : ∀ entry ∈ operators equal, entry.1.map Char.toUInt8 <+: text → entry.1.length ≤ str.length) :
    Munch equal text token (str.map Char.toUInt8) := by
  refine .operator ⟨⟨_, member, rfl⟩, starts, ?_⟩ member
  rintro _ ⟨entry, known, rfl⟩ begins
  rw [List.length_map, List.length_map]
  exact longest entry known begins

theorem Commented.slash (comment : Commented text) : '/'.toUInt8 ∈ text := by
  cases text with
  | nil => rcases comment with line | block <;> contradiction
  | cons c rest => exact commented_head comment ▸ List.mem_cons_self

theorem assignedLine_tokens : Tokens ['=', '='] .SOF 0 assignedLine assignedTokens := by
  have plain : ∀ n, ¬ Commented (assignedLine.drop n) := fun n comment =>
    absurd (List.mem_of_mem_drop comment.slash) (by decide)
  have c : Tokens ['=', '='] .DEC_OP 11 ([0x63] ++ []) (assignedTokens.drop 6) :=
    .munch (plain 11) (.ident (longest_word rfl [])) (.done _ _)
  have decrement : Tokens ['=', '='] .STRING_LITERAL 9 ([0x2d, 0x2d] ++ [0x63]) (assignedTokens.drop 5) :=
    .munch (plain 9) (munch_operator ['-', '-'] (by decide) (by decide) (by decide)) c
  have string : Tokens ['=', '='] .SEMICOLON 6 ([0x22, 0x62, 0x22] ++ [0x2d, 0x2d, 0x63]) (assignedTokens.drop 4) := by
    have closed : IsQuoted [0x22, 0x62, 0x22] := ⟨_, rfl, .other (by decide) (by decide) .quote⟩
    refine .munch (plain 6) (.quoted ⟨closed, List.prefix_append _ _, ?_⟩) decrement
    intro other again starts
    exact (again.unique closed starts (List.prefix_append _ _)).le
  have number : Tokens ['=', '='] .RIGHT_ASSIGN 4 ([0x31] ++ assignedLine.drop 5) (assignedTokens.drop 2) :=
    .munch (plain 4) (.number (by decide) (longest_word rfl _)) (.newline (by decide) string)
  have shift : Tokens ['=', '='] .IDENT 1 ([0x3e, 0x3e, 0x3d] ++ assignedLine.drop 4) (assignedTokens.drop 1) :=
    .munch (plain 1) (munch_operator ['>', '>', '='] (by decide) (by decide) (by decide)) number
  show Tokens _ _ _ ([0x61] ++ assignedLine.drop 1) assignedTokens
  exact .munch (plain 0) (.ident (longest_word rfl _)) shift

/-- The lexer, at a line with lexemes side by side and a newline between two statements. -/
theorem assignedLine_tokenises : Tokenises assignedLine [0] 0 assignedTokens := by
  have zero : NotIdent [0] := ⟨0, rfl, rfl⟩
  have all := lexical_specification (.inr rfl) assignedLine_tokens.not_stuck zero
  refine (all.2 assignedTokens assignedLine_tokens).1.mpr ?_
  have counted : ∀ l ∈ assignedTokens, l.lexeme.length ≤ unsigned (assignedLine.drop l.base).length := by decide
  intro l member
  exact ⟨fun _ => ⟨counted l member, fun same => absurd same (by decide)⟩, fun _ _ d behind => by
    obtain rfl := Option.some.inj behind
    rfl⟩

/-- A number at the end of the text is read on into a period behind it, and two equal signs are one token
where the header spells no operator so. -/
theorem number_read_on :
    (Tokens ['=', '='] .SOF 0 [0x31] [⟨.NUMBER_LITERAL, 0, [0x31]⟩] ∧ NotIdent [0x2e, 0] ∧
      ¬ Tokenises [0x31] [0x2e, 0] 0 [⟨.NUMBER_LITERAL, 0, [0x31]⟩]) ∧
    Tokens ['='] .SOF 0 [0x3d, 0x3d] [⟨.ASSIGN, 0, [0x3d]⟩, ⟨.ASSIGN, 1, [0x3d]⟩] ∧
      ¬ Tokenises [0x3d, 0x3d] [0] 0 [⟨.ASSIGN, 0, [0x3d]⟩, ⟨.ASSIGN, 1, [0x3d]⟩] := by
  refine ⟨⟨?_, ⟨0x2e, rfl, rfl⟩, ?_⟩, ?_, ?_⟩
  · have absent : ∀ entry ∈ operators ['=', '='], ¬ entry.1.map Char.toUInt8 <+: [0x31] := by decide
    have munch : Munch ['=', '='] ([0x31] ++ []) .NUMBER_LITERAL [0x31] := .number absent (longest_word rfl [])
    have plain : ¬ Commented ([0x31] ++ []) := by
      rintro (line | block)
      · cases line
      · cases block
    exact .munch plain munch (.done _ _)
  · intro tokenises
    obtain ⟨s, calls, took⟩ := tokenises 0
    obtain rfl := Except.ok.inj calls
    exact absurd took.2.2 (by decide)
  · have munch : ∀ rest ∈ [[0x3d], []], Munch ['='] ([0x3d] ++ rest) .ASSIGN [0x3d] := by
      intro rest short
      have member : (['='], .ASSIGN) ∈ operators ['='] := by decide
      suffices longest : Longest (IsOperator ['=']) ([0x3d] ++ rest) (['='].map Char.toUInt8) from
        .operator longest member
      refine ⟨⟨_, member, rfl⟩, List.prefix_append _ _, ?_⟩
      rintro _ ⟨entry, known, rfl⟩ starts
      have all : ∀ rest ∈ [[0x3d], []], ∀ entry ∈ operators ['='], entry.1.map Char.toUInt8 <+: [0x3d] ++ rest →
          entry.1.length ≤ 1 := by decide
      rw [List.length_map]
      exact all rest short entry known starts
    have plain : ∀ rest ∈ [[0x3d], []], ¬ Commented ([0x3d] ++ rest) := by
      unfold Commented
      decide
    have last : Tokens ['='] .ASSIGN 1 ([0x3d] ++ []) [⟨.ASSIGN, 1, [0x3d]⟩] :=
      .munch (plain _ (by decide)) (munch _ (by decide)) (.done _ _)
    exact .munch (plain _ (by decide)) (munch _ (by decide)) last
  · intro tokenises
    obtain ⟨s, calls, took⟩ := tokenises 0
    obtain rfl := Except.ok.inj calls
    exact absurd took.1 (by decide)

end Low
