import LowCompiler.Lexer.Specification
import LowCompiler.Reduce.Decimal
import LowCompiler.Reduce.Reducers
import Mathlib.Data.List.TakeWhile

/-!
# The names of types

Which identifiers are types of the language. `reduce_type_name` tests the beginning of
a name, and takes whatever follows for the width.
-/

namespace Low

def intWord : Name := ['i', 'n', 't'].map Char.toUInt8

def floatWord : Name := ['f', 'l', 'o', 'a', 't'].map Char.toUInt8

def boolWord : Name := ['b', 'o', 'o', 'l'].map Char.toUInt8

/-! ### What the names mean -/

/-- The word alone, or the word and the digits of the width. -/
def HasWidth (word name : Name) (width : Nat) : Prop :=
  (name = word ∧ width = 32) ∨
    (width < 2 ^ 31 ∧ ∃ digits, name = word ++ digits ∧ digits ≠ [] ∧ IsDigits digits ∧ decimal digits = width)

/-- The kind of type that a whole name stands for. -/
structure NamesType (name : Name) (kind : TypeKind AstType) : Prop where
  integer : ∀ width, kind = .integerType width ↔ HasWidth intWord name width
  float : ∀ width, kind = .floatType width ↔ HasWidth floatWord name width
  boolean : kind = .booleanType ↔ name = boolWord
  named : ∀ other, kind = .namedType other ↔ other = name ∧ name ≠ boolWord ∧
    ∀ width, ¬HasWidth intWord name width ∧ ¬HasWidth floatWord name width

/-- The word with something behind it that is no width. -/
def Misread (word name : Name) : Prop :=
  ∃ suffix, name = word ++ suffix ∧ suffix ≠ [] ∧ ¬(IsDigits suffix ∧ decimal suffix < 2 ^ 31)

section Words
variable {word name : Name} {width : Nat}

theorem HasWidth.starts (is : HasWidth word name width) : word <+: name := by
  rcases is with ⟨rfl, _⟩ | ⟨_, digits, rfl, _⟩
  · exact List.prefix_rfl
  · exact List.prefix_append word digits

theorem HasWidth.unique {width' : Nat} (is : HasWidth word name width) (is' : HasWidth word name width') :
    width = width' := by
  rcases is with ⟨rfl, rfl⟩ | ⟨_, digits, rfl, some, _, rfl⟩
  · rcases is' with ⟨_, rfl⟩ | ⟨_, digits, same, some, _⟩
    · rfl
    · exact absurd (List.self_eq_append_right.mp same) some
  · rcases is' with ⟨same, _⟩ | ⟨_, digits', same, _, _, rfl⟩
    · exact absurd (List.append_right_eq_self.mp same) some
    · rw [List.append_cancel_left same]

theorem HasWidth.not_misread (is : HasWidth word name width) : ¬Misread word name := by
  rintro ⟨suffix, rfl, some, bad⟩
  rcases is with ⟨same, _⟩ | ⟨small, digits, same, _, all, rfl⟩
  · exact some (List.append_right_eq_self.mp same)
  · obtain rfl := List.append_cancel_left same
    exact bad ⟨all, small⟩

/-- A name that begins with a word is the word with a width, or with something else behind it. -/
theorem hasWidth_or_misread (starts : word <+: name) :
    (∃ width, HasWidth word name width) ∨ Misread word name := by
  obtain ⟨suffix, rfl⟩ := starts
  by_cases none : suffix = []
  · exact .inl ⟨32, .inl ⟨by rw [none, List.append_nil], rfl⟩⟩
  · by_cases good : IsDigits suffix ∧ decimal suffix < 2 ^ 31
    · exact .inl ⟨decimal suffix, .inr ⟨good.2, suffix, rfl, none, good.1, rfl⟩⟩
    · exact .inr ⟨suffix, rfl, none, good⟩

theorem intWord_apart (starts : intWord <+: name) : ¬floatWord <+: name ∧ name ≠ boolWord := by
  obtain ⟨suffix, rfl⟩ := starts
  exact ⟨fun ⟨_, same⟩ => absurd (List.cons.inj same).1 (by decide), fun same => absurd (List.cons.inj same).1 (by decide)⟩

theorem floatWord_apart (starts : floatWord <+: name) : name ≠ boolWord := by
  obtain ⟨suffix, rfl⟩ := starts
  exact fun same => absurd (List.cons.inj same).1 (by decide)

theorem namesType_integer (is : HasWidth intWord name width) : NamesType name (.integerType width) := by
  obtain ⟨float, bool⟩ := intWord_apart is.starts
  refine ⟨fun width' => ⟨?_, fun is' => by rw [is.unique is']⟩, fun width' => ⟨nofun, fun is' => absurd is'.starts float⟩,
    ⟨nofun, fun same => absurd same bool⟩, fun other => ⟨nofun, fun ⟨_, _, free⟩ => absurd is (free width).1⟩⟩
  rintro ⟨⟩
  exact is

theorem namesType_float (is : HasWidth floatWord name width) : NamesType name (.floatType width) := by
  have int (width' : Nat) (is' : HasWidth intWord name width') : False := (intWord_apart is'.starts).1 is.starts
  refine ⟨fun width' => ⟨nofun, fun is' => (int _ is').elim⟩, fun width' => ⟨?_, fun is' => by rw [is.unique is']⟩,
    ⟨nofun, fun same => absurd same (floatWord_apart is.starts)⟩, fun other => ⟨nofun, fun ⟨_, _, free⟩ => absurd is (free width).2⟩⟩
  rintro ⟨⟩
  exact is

end Words

/-! ### What `reduce_type_name` makes of them -/

section Reduced
variable {name : Name} {width : Nat}

/-- The width of the suffix, as `reduce_type_name` reads it. -/
def widthOf (word name : Name) : Nat :=
  if name.length > word.length then unsignedOfInt (atoi (name.drop word.length)) else 32

theorem widthOf_hasWidth {word : Name} (is : HasWidth word name width) : widthOf word name = width := by
  rcases is with ⟨rfl, rfl⟩ | ⟨small, digits, rfl, some, all, rfl⟩
  · exact if_neg (Nat.lt_irrefl _)
  · have longer : (word ++ digits).length > word.length := by
      rw [List.length_append]
      exact Nat.lt_add_of_pos_right (List.length_pos_iff.mpr some)
    rw [widthOf, if_pos longer, List.drop_left, atoi_digits all some small, unsignedOfInt_of_lt small]

theorem take_eq_iff {word : Name} : name.take word.length = word ↔ word <+: name :=
  ⟨fun same => same ▸ List.take_prefix _ _, fun starts => (List.prefix_iff_eq_take.mp starts).symm⟩

theorem typeOfName_int (starts : intWord <+: name) : typeOfName name = .integerType (widthOf intWord name) :=
  if_pos (take_eq_iff.mpr starts)

theorem typeOfName_float (starts : floatWord <+: name) :
    typeOfName name = .floatType (widthOf floatWord name) :=
  (if_neg fun same => (intWord_apart (take_eq_iff.mp same)).1 starts).trans (if_pos (take_eq_iff.mpr starts))

theorem typeOfName_other (int : ¬intWord <+: name) (float : ¬floatWord <+: name) :
    typeOfName name = if name = boolWord then .booleanType else .namedType name :=
  (if_neg fun same => int (take_eq_iff.mp same)).trans (if_neg fun same => float (take_eq_iff.mp same))

theorem typeOfName_names (int : ¬Misread intWord name) (float : ¬Misread floatWord name) :
    NamesType name (typeOfName name) := by
  by_cases startsInt : intWord <+: name
  · obtain ⟨width, is⟩ := (hasWidth_or_misread startsInt).resolve_right int
    rw [typeOfName_int startsInt, widthOf_hasWidth is]
    exact namesType_integer is
  by_cases startsFloat : floatWord <+: name
  · obtain ⟨width, is⟩ := (hasWidth_or_misread startsFloat).resolve_right float
    rw [typeOfName_float startsFloat, widthOf_hasWidth is]
    exact namesType_float is
  have noInt (width : Nat) (is : HasWidth intWord name width) : False := startsInt is.starts
  have noFloat (width : Nat) (is : HasWidth floatWord name width) : False := startsFloat is.starts
  rw [typeOfName_other startsInt startsFloat]
  by_cases bool : name = boolWord
  · rw [if_pos bool]
    exact ⟨fun width => ⟨nofun, fun is => (noInt width is).elim⟩, fun width => ⟨nofun, fun is => (noFloat width is).elim⟩,
      ⟨fun _ => bool, fun _ => rfl⟩, fun other => ⟨nofun, fun ⟨_, no, _⟩ => absurd bool no⟩⟩
  · rw [if_neg bool]
    refine ⟨fun width => ⟨nofun, fun is => (noInt width is).elim⟩, fun width => ⟨nofun, fun is => (noFloat width is).elim⟩,
      ⟨nofun, fun same => absurd same bool⟩, fun other => ⟨?_, ?_⟩⟩
    · rintro ⟨⟩
      exact ⟨rfl, bool, fun width => ⟨noInt width, noFloat width⟩⟩
    · rintro ⟨rfl, _⟩
      rfl

/-- What was read from the first bytes of a name, where a width follows in the name and in its first
bytes. -/
theorem widthOf_prefix {word first : Name} (le : first <+: name) (starts : word <+: first)
    (is : HasWidth word name (widthOf word first)) : HasWidth word first (widthOf word first) := by
  rcases hasWidth_or_misread starts with ⟨width, is'⟩ | ⟨suffix, rfl, some, bad⟩
  · exact widthOf_hasWidth is' ▸ is'
  · -- What follows the word is the beginning of digits, and denotes no larger number.
    obtain ⟨more, rfl⟩ := le
    rcases is with ⟨same, _⟩ | ⟨small, digits, same, _, all, value⟩
    · rw [List.append_assoc, List.append_right_eq_self] at same
      exact absurd (List.append_eq_nil_iff.mp same).1 some
    · rw [List.append_assoc] at same
      obtain rfl := List.append_cancel_left same
      refine absurd ⟨fun c member => all c (List.mem_append_left _ member), ?_⟩ bad
      exact Nat.lt_of_le_of_lt (positional_le_append (by decide) suffix more) (value.trans_lt small)

/-- An identifier is all of what `strndup` copies. -/
theorem strndup_ident {source more : Memory} {ptr : Nat} (here : source.drop ptr = name ++ more)
    (ident : ∀ c ∈ name, isIdent c = true) (n : Nat) (le : n ≤ name.length) :
    strndup source ptr n = name.take n := by
  rw [strndup, here, List.take_append_of_le_length le, List.takeWhile_eq_self_iff]
  intro c member
  have all := forall_byte (p := fun c => !isIdent c || c != 0) (by decide +kernel) c
  simpa [ident c (List.mem_of_mem_take member)] using all

theorem reduceTypeName_ident {source more : Memory} {tokens : List (StackToken Value)} {token : StackToken Value}
    (lexed : readLexeme tokens 0 .IDENT = .ok token) (here : source.drop token.first = name ++ more)
    (last : token.last = token.first + name.length) (ident : IsWord isIdentStart isIdent name) :
    reduceTypeName source tokens = .ok (newType (typeOfName (measured name))) := by
  have letters : ∀ c ∈ name, isIdent c = true := by
    cases name with
    | nil => exact ident.elim
    | cons c rest =>
      refine List.forall_mem_cons.mpr ⟨?_, ident.2⟩
      simp [isIdent, ident.1]
  have copied := strndup_ident here letters (unsigned name.length) (Nat.mod_le _ _)
  rw [reduceTypeName, lexed]
  show Except.ok (newType (typeOfName (strndup source token.first (unsigned (token.last - token.first))))) = _
  rw [last, Nat.add_sub_cancel_left, copied]
  rfl

/-- The kind is that of the whole name just when its width, if it has one, is that of the bytes that
are measured, and otherwise the name is measured whole and no word with something else behind it. -/
theorem type_name_iff {source more : Memory} {tokens : List (StackToken Value)} {token : StackToken Value}
    (lexed : readLexeme tokens 0 .IDENT = .ok token) (here : source.drop token.first = name ++ more)
    (last : token.last = token.first + name.length) (ident : IsWord isIdentStart isIdent name) :
    ∃ kind, reduceTypeName source tokens = .ok (newType kind) ∧
      (NamesType name kind ↔
        (name.length < 2 ^ 32 ∧ ¬Misread intWord name ∧ ¬Misread floatWord name) ∨
          ∃ word ∈ [intWord, floatWord], ∃ width, HasWidth word name width ∧ HasWidth word (measured name) width) := by
  refine ⟨_, reduceTypeName_ident lexed here last ident, fun names => ?_, ?_⟩
  · by_cases startsInt : intWord <+: measured name
    · have is := (names.integer _).mp (typeOfName_int startsInt)
      exact .inr ⟨intWord, .head _, _, is, widthOf_prefix (measured_begins name) startsInt is⟩
    by_cases startsFloat : floatWord <+: measured name
    · have is := (names.float _).mp (typeOfName_float startsFloat)
      exact .inr ⟨floatWord, .tail _ (.head _), _, is, widthOf_prefix (measured_begins name) startsFloat is⟩
    have kind := typeOfName_other startsInt startsFloat
    have same : measured name = name := by
      by_cases bool : measured name = boolWord
      · rw [bool, (names.boolean).mp (kind.trans (if_pos bool))]
      · exact ((names.named _).mp (kind.trans (if_neg bool))).1
    rw [same] at startsInt startsFloat
    refine .inl ⟨short_of_measured same, ?_, ?_⟩
    · rintro ⟨suffix, rfl, _⟩
      exact startsInt (List.prefix_append _ _)
    · rintro ⟨suffix, rfl, _⟩
      exact startsFloat (List.prefix_append _ _)
  · rintro (⟨short, int, float⟩ | ⟨word, member, width, is, is'⟩)
    · rw [measured_of_short short]
      exact typeOfName_names int float
    · simp only [List.mem_cons, List.not_mem_nil, or_false] at member
      rcases member with rfl | rfl
      · rw [typeOfName_int is'.starts, widthOf_hasWidth is']
        exact namesType_integer is
      · rw [typeOfName_float is'.starts, widthOf_hasWidth is']
        exact namesType_float is

end Reduced

def nameToken (name : Name) : StackToken Value := ⟨Token.IDENT.toNat, 0, name.length, ⟨0, 0⟩, .null⟩

def int64Name : Name := ['i', 'n', 't', '6', '4'].map Char.toUInt8

theorem int64_named : ∃ kind, reduceTypeName int64Name [nameToken int64Name] = .ok (newType kind) ∧ NamesType int64Name kind := by
  have lexed : readLexeme [nameToken int64Name] 0 .IDENT = .ok (nameToken int64Name) := rfl
  have ident : IsWord isIdentStart isIdent int64Name := ⟨by decide, by decide +kernel⟩
  have here : int64Name.drop (nameToken int64Name).first = int64Name ++ [] := (List.append_nil _).symm
  obtain ⟨kind, reduced, exact⟩ := type_name_iff lexed here (Nat.zero_add _).symm ident
  have width : HasWidth intWord int64Name 64 :=
    .inr ⟨by decide, ['6', '4'].map Char.toUInt8, rfl, by decide, by decide, by decide⟩
  exact ⟨kind, reduced, exact.mpr (.inr ⟨intWord, .head _, 64, width, width⟩)⟩

def integerName : Name := ['i', 'n', 't', 'e', 'g', 'e', 'r'].map Char.toUInt8

/-- The type `integer` is an integer type without a width. -/
theorem integer_misnamed : reduceTypeName integerName [nameToken integerName] = .ok (newType (.integerType 0)) ∧
    ¬NamesType integerName (.integerType 0) := by
  refine ⟨rfl, fun names => ?_⟩
  have misread : Misread intWord integerName := ⟨['e', 'g', 'e', 'r'].map Char.toUInt8, rfl, by decide, by decide⟩
  exact ((names.integer 0).mp rfl).not_misread misread

end Low
