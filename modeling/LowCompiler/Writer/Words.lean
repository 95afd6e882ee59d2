import LowCompiler.Lexer.Tokenisation
import LowCompiler.Reduce.Decimal
import LowCompiler.Reduce.Numbers
import LowCompiler.Reduce.StringLiterals
import Mathlib.Tactic.IntervalCases

/-!
# Words

A program is written word for word with a blank behind each. What the lexer returns
for such a text is one lexeme for each word, at the place where the word stands.
-/

namespace Low

def blank : UInt8 := ' '.toUInt8

/-- A token with the bytes that spell it. -/
structure Word where
  token : Token
  spelling : List UInt8
  deriving DecidableEq, Repr

/-- The operator or keyword of the token. -/
def Token.spelling (t : Token) : List UInt8 :=
  match (operators ['=', '='] ++ keywords).find? fun entry => entry.2 = t with
  | some entry => entry.1.map Char.toUInt8
  | none => []

def Token.spelt (t : Token) : Bool := ((operators ['=', '='] ++ keywords).map Prod.snd).contains t

def sign (t : Token) : Word := ⟨t, t.spelling⟩

def name (n : Name) : Word := ⟨.IDENT, n⟩

def number (digits : List UInt8) : Word := ⟨.NUMBER_LITERAL, digits⟩

def literal (s : List UInt8) : Word := ⟨.STRING_LITERAL, quote s⟩

/-- A string without escapes. -/
def quoted (s : List UInt8) : Word := ⟨.STRING_LITERAL, '"'.toUInt8 :: (s ++ ['"'.toUInt8])⟩

/-! ### Names and numbers -/

/-- An identifier that is no keyword. -/
def IsIdent (n : Name) : Prop := IsWord isIdentStart isIdent n ∧ wordToken n = .IDENT

def digits (n : Nat) : List UInt8 := (Nat.toDigits 10 n).map Char.toUInt8

/-- A radix other than ten stands before the digits. -/
def numberSpelling (literal : Name) (radix : Nat) : List UInt8 :=
  if radix = 10 then literal else digits radix ++ ['x'.toUInt8] ++ literal

/-- Digits without apostrophes that the radix prefix, or its absence, can be told from. -/
structure WritableNumber (literal : Name) (radix : Nat) : Prop where
  radix_pos : 0 < radix
  radix_lt : radix < 100
  short : literal.length < 2 ^ 31
  plain : '\''.toUInt8 ∉ literal
  rest : ∀ c ∈ literal, isNumberRest c = true
  ten : radix = 10 → 'x'.toUInt8 ∉ literal ∧ ∃ c ∈ literal.head?, isNumberDec c = true

section Digits
variable {n : Nat}

theorem digits_small (small : n < 10) : digits n = [(48 + n).toUInt8] := by
  rw [digits, Nat.toDigits_of_lt_base small]
  interval_cases n <;> rfl

theorem digits_large (large : 10 ≤ n) : digits n = digits (n / 10) ++ [(48 + n % 10).toUInt8] := by
  have last := digits_small (n := n % 10) (Nat.mod_lt n (by decide))
  rw [digits, Nat.toDigits_of_lt_base (Nat.mod_lt n (by decide))] at last
  rw [digits, Nat.toDigits_of_base_le (by decide) large, List.map_append, ← last]
  rfl

theorem digit_spec (small : n < 10) :
    isNumberDec (48 + n).toUInt8 = true ∧ (48 + n).toUInt8.toNat - '0'.toNat = n := by
  interval_cases n <;> decide

theorem digits_spec (n : Nat) : digits n ≠ [] ∧ IsDigits (digits n) ∧ decimal (digits n) = n := by
  induction n using Nat.strongRecOn with
  | ind n ih =>
  by_cases small : n < 10
  · obtain ⟨digit, value⟩ := digit_spec small
    rw [digits_small small]
    refine ⟨List.cons_ne_nil _ _, fun c member => ?_, ?_⟩
    · obtain rfl := List.mem_singleton.mp member
      exact digit
    · show 10 * 0 + ((48 + n).toUInt8.toNat - '0'.toNat) = n
      omega
  · obtain ⟨digit, value⟩ := digit_spec (Nat.mod_lt n (by decide : 0 < 10))
    obtain ⟨some, all, front⟩ := ih (n / 10) (by omega)
    rw [digits_large (by omega)]
    refine ⟨List.append_ne_nil_of_left_ne_nil some _, fun c member => ?_, ?_⟩
    · rcases List.mem_append.mp member with member | member
      · exact all c member
      · obtain rfl := List.mem_singleton.mp member
        exact digit
    · unfold decimal at front ⊢
      rw [positional_concat, front, value]
      omega

theorem digits_length (small : n < 100) : (digits n).length ≤ 2 := by
  by_cases one : n < 10
  · rw [digits_small one, List.length_singleton]
    omega
  · rw [digits_large (by omega), digits_small (by omega)]
    rfl

end Digits

/-- The lexer takes the word for its token, and all of it, where a blank stands behind. -/
structure Word.Lexical (w : Word) : Prop where
  munch : ∀ more, Munch ['=', '='] (w.spelling ++ blank :: more) w.token w.spelling
  plain : ∀ more, ¬ Commented (w.spelling ++ blank :: more)

section Lexical
variable {lexeme more : List UInt8}

instance (first test : UInt8 → Bool) (lexeme : List UInt8) : Decidable (IsWord first test lexeme) :=
  match lexeme with
  | [] => .isFalse id
  | c :: rest =>
    have : Decidable (∀ d ∈ rest, test d = true) := List.decidableBAll (fun d => test d = true) rest
    inferInstanceAs (Decidable (first c = true ∧ ∀ d ∈ rest, test d = true))

theorem longest_of_no_blank {kind : List UInt8 → Prop} (member : kind lexeme)
    (noBlank : ∀ other, kind other → blank ∉ other) (more : List UInt8) :
    Longest kind (lexeme ++ blank :: more) lexeme := by
  refine ⟨member, List.prefix_append _ _, fun other is starts => ?_⟩
  by_contra longer
  have reaches : lexeme ++ [blank] <+: other := by
    refine List.prefix_of_prefix_length_le ?_ starts ?_
    · exact ⟨more, by rw [List.append_assoc, List.singleton_append]⟩
    · rw [List.length_append, List.length_singleton]
      omega
  exact noBlank other is (reaches.subset (List.mem_append_right _ (List.mem_singleton_self _)))

theorem isWord_no_blank {first test : UInt8 → Bool} (start : first blank = false) (inside : test blank = false)
    (word : IsWord first test lexeme) : blank ∉ lexeme := by
  intro member
  cases lexeme with
  | nil => cases member
  | cons c rest =>
    rcases List.mem_cons.mp member with rfl | member
    · exact absurd (word.1.symm.trans start) (by decide)
    · exact absurd ((word.2 _ member).symm.trans inside) (by decide)

theorem commented_slash {c : UInt8} {rest : List UInt8} (comment : Commented (c :: rest)) : c = '/'.toUInt8 := by
  unfold Commented at comment
  rcases comment with starts | starts
  · exact (List.cons_prefix_cons.mp (startsWith_iff.mp starts)).1.symm
  · exact (List.cons_prefix_cons.mp (startsWith_iff.mp starts)).1.symm

/-- Two bytes decide whether a comment begins. -/
theorem commented_front {c d : UInt8} {rest : List UInt8} : Commented (c :: d :: rest) ↔ Commented [c, d] := by
  have front (k l : Char) : startsWith [k, l] (c :: d :: rest) = startsWith [k, l] [c, d] := by
    simp [startsWith, List.isPrefixOf]
  unfold Commented
  rw [front, front]

theorem operator_lexical {str : List Char} {t : Token} (member : (str, t) ∈ operators ['=', '=']) :
    Word.Lexical ⟨t, str.map Char.toUInt8⟩ := by
  have blankless : ∀ entry ∈ operators ['=', '='], blank ∉ entry.1.map Char.toUInt8 := by decide
  refine ⟨fun more => .operator (longest_of_no_blank ⟨_, member, rfl⟩ ?_ more) member, fun more => ?_⟩
  · rintro _ ⟨entry, within, rfl⟩
    exact blankless entry within
  · have fronts : ∀ entry ∈ operators ['=', '='], entry.1 ≠ [] ∧
        ¬ (startsWith ['/', '/'] ((entry.1.map Char.toUInt8 ++ [blank]).take 2) ∨
          startsWith ['/', '*'] ((entry.1.map Char.toUInt8 ++ [blank]).take 2)) := by decide
    obtain ⟨some, plain⟩ := fronts _ member
    intro comment
    apply plain
    match str, some with
    | [k], _ => exact commented_front.mp comment
    | k :: l :: str, _ => exact commented_front.mp comment

theorem word_lexical {first : List UInt8} (word : IsWord isIdentStart isIdent first) :
    Word.Lexical ⟨wordToken first, first⟩ := by
  refine ⟨fun more => .ident (longest_of_no_blank word (fun other => ?_) more), fun more comment => ?_⟩
  · exact isWord_no_blank (by decide) (by decide)
  · cases first with
    | nil => exact word.elim
    | cons c rest =>
      obtain rfl := commented_slash comment
      exact absurd word.1 (by decide)

theorem sign_lexical {t : Token} (spelt : t.spelt = true) : (sign t).Lexical := by
  have known : ∀ t, (operators ['=', '='] ++ keywords).find? (fun entry => entry.2 = t) = none → t.spelt = false := by
    intro t
    cases t <;> decide
  have words : ∀ entry ∈ keywords, IsWord isIdentStart isIdent (entry.1.map Char.toUInt8) ∧
      wordToken (entry.1.map Char.toUInt8) = entry.2 := by
    decide
  unfold sign Token.spelling
  split
  · rename_i entry found
    obtain rfl : entry.2 = t := by simpa using List.find?_some found
    rcases List.mem_append.mp (List.mem_of_find?_eq_some found) with member | member
    · exact operator_lexical member
    · obtain ⟨word, same⟩ := words entry member
      rw [← same]
      exact word_lexical word
  · rename_i none
    exact absurd (spelt.symm.trans (known t none)) (by decide)

theorem name_lexical {n : Name} (ident : IsIdent n) : (name n).Lexical := by
  have lexical := word_lexical ident.1
  rwa [ident.2] at lexical

theorem number_lexical {digits : List UInt8} (word : IsWord isNumberStart isNumberRest digits)
    (start : digits.head? ≠ some '.'.toUInt8) : (number digits).Lexical := by
  cases digits with
  | nil => exact word.elim
  | cons c rest =>
    refine ⟨fun more => .number ?_ (longest_of_no_blank word (fun other => ?_) more), fun more comment => ?_⟩
    · have heads : ∀ entry ∈ operators ['=', '='], entry.1.head?.all (fun k =>
          k.toUInt8 = '.'.toUInt8 || !isNumberStart k.toUInt8) = true := by decide
      have nonempty : ∀ entry ∈ operators ['=', '='], entry.1 ≠ [] := by decide
      intro entry member starts
      obtain ⟨k, str, same⟩ := List.exists_cons_of_ne_nil (nonempty entry member)
      rw [same, List.map_cons] at starts
      replace starts := List.cons_prefix_cons.mp starts
      have head := heads entry member
      rw [same] at head
      rcases Bool.or_eq_true_iff.mp head with period | no
      · exact start (congrArg some (starts.1.symm.trans (of_decide_eq_true period)))
      · rw [starts.1, word.1] at no
        cases no
    · exact isWord_no_blank (by decide) (by decide)
    · obtain rfl := commented_slash comment
      exact absurd word.1 (by decide)

theorem digits_lexical (n : Nat) : (number (digits n)).Lexical := by
  obtain ⟨some, all, _⟩ := digits_spec n
  obtain ⟨c, rest, same⟩ := List.exists_cons_of_ne_nil some
  rw [same] at all ⊢
  refine number_lexical ⟨?_, fun d member => (isNumberDec_rest (all d (List.mem_cons_of_mem c member))).1⟩ ?_
  · rw [isNumberStart, all c List.mem_cons_self]
    rfl
  · intro period
    obtain rfl := Option.some.inj period
    exact absurd (all _ List.mem_cons_self) (by decide)

theorem writableNumber_lexical {literal : Name} {radix : Nat} (writable : WritableNumber literal radix) :
    (number (numberSpelling literal radix)).Lexical := by
  have front : ∃ c rest, numberSpelling literal radix = c :: rest ∧ isNumberDec c = true ∧
      ∀ d ∈ rest, isNumberRest d = true := by
    unfold numberSpelling
    split
    · rename_i ten
      obtain ⟨_, c, head, digit⟩ := writable.ten ten
      obtain ⟨rest, rfl⟩ := List.head?_eq_some_iff.mp head
      exact ⟨c, rest, rfl, digit, fun d member => writable.rest d (List.mem_cons_of_mem c member)⟩
    · obtain ⟨some, all, _⟩ := digits_spec radix
      obtain ⟨c, rest, same⟩ := List.exists_cons_of_ne_nil some
      rw [same] at all ⊢
      refine ⟨c, rest ++ ['x'.toUInt8] ++ literal, rfl, all c List.mem_cons_self, ?_⟩
      simp only [List.forall_mem_append, List.forall_mem_singleton]
      exact ⟨⟨fun d member => (isNumberDec_rest (all d (List.mem_cons_of_mem c member))).1, by decide⟩, writable.rest⟩
  obtain ⟨c, rest, same, digit, all⟩ := front
  rw [same]
  refine number_lexical ⟨?_, all⟩ fun period => ?_
  · rw [isNumberStart, digit]
    rfl
  · obtain rfl := Option.some.inj period
    exact absurd digit (by decide)

theorem isQuoted_lexical {s : List UInt8} (closed : IsQuoted s) : Word.Lexical ⟨.STRING_LITERAL, s⟩ := by
  refine ⟨fun more => .quoted ⟨closed, List.prefix_append _ _, fun other is starts => ?_⟩, fun more comment => ?_⟩
  · exact (is.unique closed starts (List.prefix_append _ _)).le
  · obtain ⟨rest, rfl, _⟩ := closed
    exact absurd (commented_slash comment) (by decide)

theorem literal_lexical (s : List UInt8) : (literal s).Lexical := isQuoted_lexical (quote_isQuoted s)

theorem quoted_lexical {s : List UInt8} (quote : '"'.toUInt8 ∉ s) (escape : '\\'.toUInt8 ∉ s) :
    (quoted s).Lexical := by
  refine isQuoted_lexical ⟨_, rfl, ?_⟩
  induction s with
  | nil => exact .quote
  | cons c s ih =>
    obtain ⟨noQuote, quote⟩ := not_or.mp (List.mem_cons.not.mp quote)
    obtain ⟨noEscape, escape⟩ := not_or.mp (List.mem_cons.not.mp escape)
    exact .other (fun same => noQuote same.symm) (fun same => noEscape same.symm) (ih quote escape)

end Lexical

/-! ### Texts -/

def text : List Word → List UInt8
  | [] => []
  | w :: words => w.spelling ++ blank :: text words

/-- The tokens of the text that stands at `base`. -/
def lexedAt (base : Nat) : List Word → List Lexed
  | [] => []
  | w :: words => ⟨w.token, base, w.spelling⟩ :: lexedAt (base + w.spelling.length + 1) words

section Text
variable {words : List Word}

theorem tokens_text (lexical : ∀ w ∈ words, w.Lexical) (before : Token) (base : Nat) :
    Tokens ['=', '='] before base (text words) (lexedAt base words) := by
  induction words generalizing before base with
  | nil => exact .done before base
  | cons w words ih =>
    obtain ⟨munch, plain⟩ := lexical w List.mem_cons_self
    apply Tokens.munch (plain _) (munch _)
    apply Tokens.blank (by decide) fun newline => absurd newline.1 (by decide)
    exact ih (fun v member => lexical v (List.mem_cons_of_mem w member)) w.token (base + w.spelling.length + 1)

/-- Where a word stands in the text, with the blank behind. -/
theorem lexedAt_place {l : Lexed} {base : Nat} (member : l ∈ lexedAt base words) :
    base ≤ l.base ∧ ∃ more, (text words).drop (l.base - base) = l.lexeme ++ blank :: more := by
  induction words generalizing base with
  | nil => cases member
  | cons w words ih =>
    rcases List.mem_cons.mp member with rfl | member
    · refine ⟨Nat.le_refl base, text words, ?_⟩
      rw [Nat.sub_self]
      rfl
    · obtain ⟨le, more, here⟩ := ih member
      refine ⟨by omega, more, ?_⟩
      have split : l.base - base = w.spelling.length + 1 + (l.base - (base + w.spelling.length + 1)) := by omega
      have behind : (text (w :: words)).drop (w.spelling.length + 1) = text words := by
        rw [text, ← List.drop_drop, List.drop_left]
        rfl
      rw [split, ← List.drop_drop, behind, here]

/-- No length of the text wraps around in the lexer. -/
theorem readable_text {more : List UInt8} (small : (text words).length < 2 ^ 32) {l : Lexed}
    (member : l ∈ lexedAt 0 words) : l.Readable ['=', '='] (text words) more := by
  obtain ⟨_, behind, here⟩ := lexedAt_place member
  rw [Nat.sub_zero] at here
  have length := congrArg List.length here
  rw [List.length_drop, List.length_append, List.length_cons] at length
  constructor
  · intro _
    refine ⟨?_, fun header => absurd header (by decide)⟩
    rw [List.length_drop, unsigned, Nat.mod_eq_of_lt (by omega)]
    omega
  · intro _ last
    omega

theorem tokenises_text {more : List UInt8} (notIdent : NotIdent more) (lexical : ∀ w ∈ words, w.Lexical)
    (small : (text words).length < 2 ^ 32) : Tokenises (text words) more 0 (lexedAt 0 words) :=
  (tokenises_iff (.inr rfl) notIdent (tokens_text lexical .SOF 0)).mpr fun _ member => readable_text small member

end Text

/-! ### Lexemes -/

/-- The lexeme stands for the word where the source has it with the blank behind. -/
inductive Word.Spells (source : Memory) (w : Word) : Lexeme → Prop where
  | mk {base : Nat} {loc : Loc} {more : List UInt8} : source.drop base = w.spelling ++ blank :: more →
      Spells source w ⟨w.token, base, base + w.spelling.length, loc⟩

/-- The token that `main` makes of the lexer. -/
def Lexer.lexeme (s : Lexer) : Lexeme := ⟨s.token, s.base, s.ptr, ⟨s.line, s.col⟩⟩

/-- The calls of the lexer return these lexemes and then the end of the text. -/
def Lexes (text more : List UInt8) (lexemes : List Lexeme) : Prop :=
  ∀ n, ∃ s, lexerCalls (text ++ more) text.length (n + 1) = .ok s ∧
    match lexemes[n]? with
    | some lexeme => s.lexeme = lexeme
    | none => s.token = .EOF

theorem spells_lexedAt {source : Memory} (base : Nat) {words : List Word} {lexemes : List Lexeme}
    (here : ∃ more, source.drop base = text words ++ more)
    (places : List.Forall₂ (fun (l : Lexed) lexeme => ∃ loc,
      lexeme = ⟨l.token, l.base, l.base + l.lexeme.length, loc⟩) (lexedAt base words) lexemes) :
    List.Forall₂ (Word.Spells source) words lexemes := by
  induction words generalizing base lexemes with
  | nil =>
    cases places
    exact .nil
  | cons w words ih =>
    obtain ⟨more, here⟩ := here
    rw [text, List.append_assoc, List.cons_append] at here
    cases places with
    | cons first later =>
      obtain ⟨loc, rfl⟩ := first
      refine .cons (.mk here) (ih _ ⟨more, ?_⟩ later)
      rw [Nat.add_assoc, ← List.drop_drop, here, ← List.drop_drop, List.drop_left]
      rfl

theorem length_lexedAt (base : Nat) (words : List Word) : (lexedAt base words).length = words.length := by
  induction words generalizing base with
  | nil => rfl
  | cons w words ih => rw [lexedAt, List.length_cons, List.length_cons, ih]

/-- The lexer returns one lexeme for each word. -/
theorem lexes_text {words : List Word} {more : List UInt8} (notIdent : NotIdent more)
    (lexical : ∀ w ∈ words, w.Lexical) (small : (text words).length < 2 ^ 32) :
    ∃ lexemes, Lexes (text words) more lexemes ∧ List.Forall₂ (Word.Spells (text words ++ more)) words lexemes := by
  choose s calls took using tokenises_text notIdent lexical small
  have count := length_lexedAt 0 words
  refine ⟨(List.range words.length).map fun n => (s n).lexeme, fun n => ⟨s n, ?_, ?_⟩, ?_⟩
  · have returns := calls n
    rwa [Nat.zero_add] at returns
  · have taken := took n
    by_cases inside : n < words.length
    · rw [List.getElem?_map, List.getElem?_range inside]
      rfl
    · rw [List.getElem?_eq_none (by omega)] at taken
      rw [List.getElem?_eq_none (by rw [List.length_map, List.length_range]; omega)]
      exact taken
  · apply spells_lexedAt 0 ⟨more, rfl⟩
    rw [List.forall₂_iff_get]
    refine ⟨by rw [count, List.length_map, List.length_range], fun n inside inside' => ?_⟩
    have taken := took n
    rw [List.getElem?_eq_getElem inside] at taken
    obtain ⟨kind, base, ptr⟩ := taken
    refine ⟨⟨(s n).line, (s n).col⟩, ?_⟩
    simp only [List.get_eq_getElem, List.getElem_map, List.getElem_range]
    rw [Lexer.lexeme, kind, base, ptr]

end Low
