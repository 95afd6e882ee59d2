import LowCompiler.Lexer.Literals
import LowCompiler.Reduce.Decimal
import LowCompiler.Reduce.Reducers
import Mathlib.Data.List.TakeWhile

/-!
# Number literals

The notations of numbers, and what the lexer and the reducers make of them: the digits
that are stored, the terminator of their buffer, and the lengths of array types.
-/

namespace Low

def digitOf (c : UInt8) : Nat :=
  if isNumberDec c then c.toNat - '0'.toNat
  else if inRange c 'a' 'z' then c.toNat - 'a'.toNat + 10
  else c.toNat - 'A'.toNat + 10

/-- A digit or a letter for a value below the radix. -/
def IsDigitOf (radix : Nat) (c : UInt8) : Prop :=
  (isNumberDec c || inRange c 'a' 'z' || inRange c 'A' 'Z') = true ∧ digitOf c < radix

def numeral (radix : Nat) : List UInt8 → Nat := positional radix digitOf

/-- What comes before the digits, and their radix. -/
inductive RadixPrefix : List UInt8 → Nat → Prop where
  | none : RadixPrefix [] 10
  | radix {digits : List UInt8} : IsDigits digits → digits ≠ [] → digits.length ≤ 2 →
      RadixPrefix (digits ++ ['x'.toUInt8]) (if decimal digits = 0 then 16 else decimal digits)

/-- A number with a prefix, and apostrophes between its digits. -/
structure IsNumeral (start : List UInt8) (radix : Nat) (digits body : List UInt8) : Prop where
  prefixed : RadixPrefix start radix
  valued : ∀ c ∈ digits, IsDigitOf radix c
  separated : body.filter (· != '\''.toUInt8) = digits
  first : ∃ c ∈ body.head?, c ≠ '\''.toUInt8
  last : ∃ c ∈ body.getLast?, c ≠ '\''.toUInt8

section Digits
variable {radix : Nat} {c : UInt8} {start digits body : List UInt8}

theorem IsDigitOf.plain (digit : IsDigitOf radix c) : isNumberRest c = true ∧ c ≠ '\''.toUInt8 ∧ c ≠ 0 := by
  have all := forall_byte (p := fun c => !(isNumberDec c || inRange c 'a' 'z' || inRange c 'A' 'Z') ||
    decide (isNumberRest c = true ∧ c ≠ '\''.toUInt8 ∧ c ≠ 0)) (by decide +kernel) c
  simpa only [digit.1, Bool.not_true, Bool.false_or, decide_eq_true_eq] using all

theorem IsDigitOf.dec (digit : IsDigitOf 10 c) : isNumberDec c = true := by
  have all := forall_byte (p := fun c => !(decide ((isNumberDec c || inRange c 'a' 'z' || inRange c 'A' 'Z') = true ∧
    digitOf c < 10)) || isNumberDec c) (by decide +kernel) c
  have holds : ((isNumberDec c || inRange c 'a' 'z' || inRange c 'A' 'Z') = true ∧ digitOf c < 10) := digit
  simpa only [holds, and_self, decide_true, Bool.not_true, Bool.false_or] using all

theorem isNumberDec_rest (digit : isNumberDec c = true) : isNumberRest c = true ∧ c ≠ 'x'.toUInt8 := by
  have all := forall_byte (p := fun c => !isNumberDec c || decide (isNumberRest c = true ∧ c ≠ 'x'.toUInt8))
    (by decide +kernel) c
  simpa only [digit, Bool.not_true, Bool.false_or, decide_eq_true_eq] using all

/-- A byte of the body is an apostrophe or a digit. -/
theorem IsNumeral.byte (number : IsNumeral start radix digits body) (member : c ∈ body) :
    c = '\''.toUInt8 ∨ IsDigitOf radix c := by
  by_cases apostrophe : c = '\''.toUInt8
  · exact .inl apostrophe
  · refine .inr (number.valued c (number.separated ▸ List.mem_filter.mpr ⟨member, ?_⟩))
    simpa using apostrophe

theorem IsNumeral.body_rest (number : IsNumeral start radix digits body) (member : c ∈ body) :
    isNumberRest c = true := by
  rcases number.byte member with rfl | digit
  · decide
  · exact digit.plain.1

theorem IsNumeral.start_rest (number : IsNumeral start radix digits body) (member : c ∈ start) :
    isNumberRest c = true := by
  obtain ⟨is, _⟩ := number
  cases is with
  | none => cases member
  | radix all _ _ =>
    rcases List.mem_append.mp member with inside | last
    · exact (isNumberDec_rest (all c inside)).1
    · obtain rfl := List.mem_singleton.mp last
      decide

theorem IsNumeral.head (number : IsNumeral start radix digits body) :
    ∃ c tail, start ++ body = c :: tail ∧ isNumberDec c = true ∧ ∀ d ∈ tail, isNumberRest d = true := by
  have all : ∀ d ∈ start ++ body, isNumberRest d = true := by
    intro d member
    rcases List.mem_append.mp member with inside | inside
    · exact number.start_rest inside
    · exact number.body_rest inside
  obtain ⟨c, tail, same, digit⟩ : ∃ c tail, start ++ body = c :: tail ∧ isNumberDec c = true := by
    obtain ⟨c, head, plain⟩ := number.first
    obtain ⟨rest, rfl⟩ := List.head?_eq_some_iff.mp head
    have digit := (number.byte (.head _)).resolve_left plain
    cases number.prefixed with
    | none => exact ⟨c, rest, rfl, digit.dec⟩
    | @radix digits decs some _ =>
      obtain ⟨d, others, rfl⟩ := List.exists_cons_of_ne_nil some
      exact ⟨d, _, rfl, decs d (.head _)⟩
  refine ⟨c, tail, same, digit, fun d member => all d ?_⟩
  rw [same]
  exact .tail _ member

end Digits

/-! ### The prefix -/

section Prefix
variable {source more : Memory} {ptr radix : Nat} {start digits body : List UInt8}

theorem getD_drop {text : List UInt8} (here : source.drop ptr = text) (i : Nat) :
    source[ptr + i]?.getD 0 = text.getD i 0 := by
  rw [← here, List.getD_eq_getElem?_getD, List.getElem?_drop]

theorem strndup_digits (here : source.drop ptr = digits ++ more) (all : IsDigits digits) :
    strndup source ptr digits.length = digits := by
  rw [strndup, here, List.take_left, List.takeWhile_eq_self_iff]
  intro c member
  have zero := forall_byte (p := fun c => !isNumberDec c || c != 0) (by decide +kernel) c
  simpa [all c member] using zero

theorem isNumberDec_bounds {c : UInt8} (digit : isNumberDec c = true) : c.toNat - '0'.toNat ≤ 9 := by
  have all := forall_byte (p := fun c => !isNumberDec c || decide (c.toNat - '0'.toNat ≤ 9)) (by decide +kernel) c
  simpa only [digit, Bool.not_true, Bool.false_or, decide_eq_true_eq] using all

theorem decimal_short (all : IsDigits digits) (le : digits.length ≤ 2) : decimal digits ≤ 99 := by
  match digits, all, le with
  | [], _, _ => exact Nat.zero_le _
  | [a], all, _ =>
    have first := isNumberDec_bounds (all a (.head _))
    simp only [decimal, positional, List.foldl_cons, List.foldl_nil]
    omega
  | [a, b], all, _ =>
    have first := isNumberDec_bounds (all a (.head _))
    have second := isNumberDec_bounds (all b (.tail _ (.head _)))
    simp only [decimal, positional, List.foldl_cons, List.foldl_nil]
    omega
  | _ :: _ :: _ :: _, _, le => simp at le

/-- Without an `x` there is no prefix. -/
theorem determineRadix_plain {c : UInt8} {rest : List UInt8} (here : source.drop ptr = c :: rest ++ more)
    (plain : ∀ d ∈ rest, d = '\''.toUInt8 ∨ isNumberDec d = true) :
    determineRadix source ptr (ptr + (rest.length + 1)) = (10, 0) := by
  have not_x (d : UInt8) (member : d ∈ rest) : d ≠ 'x'.toUInt8 := by
    rcases plain d member with rfl | digit
    · decide
    · exact (isNumberDec_rest digit).2
  have at_ := getD_drop here
  unfold determineRadix
  match rest, not_x, at_ with
  | [], _, _ => simp
  | [d], not_x, at_ =>
    have second := at_ 1
    have other := not_x d (.head _)
    simp only [List.cons_append, List.getD_cons_succ, List.getD_cons_zero] at second
    by_cases digit : isNumberDec d = true
    · simp [second, digit]
    · simp [second, digit, other]
  | d :: e :: rest, not_x, at_ =>
    have second := at_ 1
    have third := at_ 2
    have others := And.intro (not_x d (.head _)) (not_x e (.tail _ (.head _)))
    simp only [List.cons_append, List.getD_cons_succ, List.getD_cons_zero] at second third
    by_cases digit : isNumberDec d = true
    · simp [second, third, digit, others]
    · simp [second, digit, others]

/-- One or two digits and an `x` are the prefix. -/
theorem determineRadix_radix (here : source.drop ptr = digits ++ ['x'.toUInt8] ++ body ++ more) (all : IsDigits digits)
    (some : digits ≠ []) (le : digits.length ≤ 2) :
    determineRadix source ptr (ptr + (digits ++ ['x'.toUInt8] ++ body).length) =
      (if decimal digits = 0 then 16 else decimal digits, digits.length + 1) := by
  have small := decimal_short all le
  have copied : strndup source ptr digits.length = digits :=
    strndup_digits (by rw [here, List.append_assoc, List.append_assoc]) all
  have read : atoi digits = decimal digits := atoi_digits all some (by omega)
  have at_ := getD_drop here
  have value : (atoi (strndup source ptr digits.length)).toNat = decimal digits := by rw [copied, read]; rfl
  unfold determineRadix
  rcases digits with _ | ⟨a, _ | ⟨b, _ | _⟩⟩
  · exact absurd rfl some
  · have first := at_ 0
    have second := at_ 1
    have digit := all a (.head _)
    have x : isNumberDec 'x'.toUInt8 = false := by decide
    simp only [List.cons_append, List.nil_append, List.getD_cons_succ, List.getD_cons_zero, Nat.add_zero] at first second
    simp only [List.length_cons, List.length_nil, Nat.zero_add] at value
    simp [first, second, digit, x, value]
  · have first := at_ 0
    have second := at_ 1
    have third := at_ 2
    have digit := all a (.head _)
    have digit' := all b (.tail _ (.head _))
    simp only [List.cons_append, List.nil_append, List.getD_cons_succ, List.getD_cons_zero, Nat.add_zero] at first second third
    simp only [List.length_cons, List.length_nil, Nat.zero_add, Nat.reduceAdd] at value
    simp [first, second, third, digit, digit', value]
  · simp at le

theorem IsNumeral.radix_eq (number : IsNumeral start radix digits body)
    (here : source.drop ptr = start ++ body ++ more) :
    determineRadix source ptr (ptr + (start ++ body).length) = (radix, start.length) := by
  cases number.prefixed with
  | none =>
    obtain ⟨c, tail, same, _⟩ := number.head
    have dec (d : UInt8) (member : d ∈ tail) : d = '\''.toUInt8 ∨ isNumberDec d = true := by
      have inside : d ∈ body := by
        rw [List.nil_append] at same
        exact same ▸ .tail _ member
      exact (number.byte inside).imp_right IsDigitOf.dec
    rw [same] at here ⊢
    exact determineRadix_plain here dec
  | radix all some le =>
    rw [determineRadix_radix here all some le, List.length_append, List.length_singleton]

end Prefix

/-! ### The stored digits -/

def stored (literal : List UInt8) : List UInt8 := literal.takeWhile (· != 0)

section Stored
variable {source more : Memory} {ptr radix : Nat} {start digits body : List UInt8}

def unseparated (text : List UInt8) : List UInt8 := text.filter (· != '\''.toUInt8)

/-- The bytes are stored that are no apostrophes, if an `int` can count them. -/
theorem storeDigits_eq {n j : Nat} {str : List UInt8} (inside : n ≤ str.length) (small : j < 2 ^ 31) :
    storeDigits n str j = if j + (unseparated (str.take n)).length < 2 ^ 31 then .ok (unseparated (str.take n))
      else .error .overflow := by
  induction str generalizing n j with
  | nil =>
    obtain rfl := Nat.le_zero.mp inside
    exact (if_pos small).symm
  | cons c str ih =>
    cases n with
    | zero => exact (if_pos small).symm
    | succ n =>
      have tail : n ≤ str.length := Nat.le_of_succ_le_succ inside
      rw [storeDigits, List.take_succ_cons, unseparated]
      by_cases apostrophe : c = '\''.toUInt8
      · rw [if_pos apostrophe, List.filter_cons_of_neg (by simp [apostrophe]), ih tail small]
        rfl
      · rw [if_neg apostrophe, List.filter_cons_of_pos (by simp [apostrophe]), ← unseparated, List.length_cons]
        by_cases more : j + 1 < 2 ^ 31
        · rw [if_pos more, ih tail more, Nat.add_right_comm, ← Nat.add_assoc]
          split <;> rfl
        · rw [if_neg more, if_neg (by omega)]

theorem extractLiteral_eq (here : source.drop ptr = body ++ more) :
    extractLiteral source ptr (unsigned body.length) = if (unseparated (measured body)).length < 2 ^ 31 then
      .ok (unseparated (measured body) ++ List.replicate (unsigned body.length - (unseparated (measured body)).length) 0)
      else .error .overflow := by
  have inside : unsigned body.length ≤ (body ++ more).length := by
    rw [List.length_append]
    exact Nat.le_trans (unsigned_le _) (Nat.le_add_right _ _)
  rw [extractLiteral, here, storeDigits_eq inside (by decide), List.take_append_of_le_length (unsigned_le _), Nat.zero_add,
    ← measured]
  split <;> rfl

theorem stored_eq {text : List UInt8} (nonzero : ∀ c ∈ text, c ≠ 0) (n : Nat) :
    stored (text ++ List.replicate n 0) = text := by
  have all (c : UInt8) (member : c ∈ text) : (c != 0) = true := bne_iff_ne.mpr (nonzero c member)
  rw [stored, List.takeWhile_append_of_pos all]
  cases n <;> simp [List.replicate_succ]

theorem isNumberRest_ne_zero {c : UInt8} (number : isNumberRest c = true) : c ≠ 0 := by
  rintro rfl
  exact absurd number (by decide)

/-- All digits are stored if the length of the body fits into an `unsigned`, and their number into an `int`. -/
theorem IsNumeral.stored_iff (number : IsNumeral start radix digits body)
    (here : source.drop ptr = body ++ more) :
    (∃ literal, extractLiteral source ptr (unsigned body.length) = .ok literal ∧ stored literal = digits) ↔
      body.length < 2 ^ 32 ∧ digits.length < 2 ^ 31 := by
  have nonzero (c : UInt8) (member : c ∈ unseparated (measured body)) : c ≠ 0 :=
    isNumberRest_ne_zero (number.body_rest ((measured_begins body).subset (List.mem_of_mem_filter member)))
  rw [extractLiteral_eq here]
  constructor
  · rintro ⟨literal, extracted, same⟩
    split at extracted
    · rename_i counted
      obtain rfl := Except.ok.inj extracted
      rw [stored_eq nonzero] at same
      refine ⟨?_, same ▸ counted⟩
      obtain ⟨cut, whole⟩ := measured_begins body
      have parts : unseparated (measured body) ++ unseparated cut = unseparated (measured body) := by
        rw [unseparated, unseparated, ← List.filter_append, whole]
        exact number.separated.trans same.symm
      -- The last byte of the body is a digit, and is cut off with whatever is cut off.
      by_cases none : cut = []
      · exact short_of_measured (by simpa [none] using whole)
      · obtain ⟨c, last, plain⟩ := number.last
        have inside : c ∈ cut := by
          rw [← whole, List.getLast?_append_of_ne_nil _ none] at last
          exact List.mem_of_getLast? last
        have gone := List.append_right_eq_self.mp parts
        have kept : c ∈ unseparated cut := List.mem_filter.mpr ⟨inside, by simpa using plain⟩
        rw [gone] at kept
        cases kept
    · cases extracted
  · rintro ⟨short, counted⟩
    rw [measured_of_short short] at nonzero ⊢
    have whole : unseparated body = digits := number.separated
    rw [whole, if_pos counted]
    exact ⟨_, rfl, stored_eq (whole ▸ nonzero) _⟩

end Stored

/-! ### Number literals -/

section Literals
variable {source more : Memory} {first radix : Nat} {loc : Loc} {start digits body lexeme rest : List UInt8}

def numberToken (first last : Nat) (loc : Loc) : StackToken Value :=
  ⟨Token.NUMBER_LITERAL.toNat, first, last, loc, .null⟩

theorem reducePrimaryExprNumber_eq {tokens : List (StackToken Value)} {token : StackToken Value} {skipped : Nat}
    (lexed : readLexeme tokens 0 .NUMBER_LITERAL = .ok token)
    (found : determineRadix source token.first token.last = (radix, skipped)) :
    reducePrimaryExprNumber source tokens =
      (extractLiteral source (token.first + skipped) (unsigned (token.last - (token.first + skipped)))).map fun literal =>
        newExpr token.loc (.numberLiteralExpr literal radix) := by
  rw [reducePrimaryExprNumber, lexed]
  show numberLiteral source token.first token.last >>= _ = _
  rw [numberLiteral, found]
  show (extractLiteral source (token.first + skipped) (unsigned (token.last - (token.first + skipped))) >>= _) >>= _ = _
  cases extractLiteral source (token.first + skipped) (unsigned (token.last - (token.first + skipped))) <;> rfl

theorem IsNumeral.reduced {tokens : List (StackToken Value)} {token : StackToken Value}
    (number : IsNumeral start radix digits body) (lexed : readLexeme tokens 0 .NUMBER_LITERAL = .ok token)
    (here : source.drop token.first = start ++ body ++ more)
    (last : token.last = token.first + (start ++ body).length) :
    reducePrimaryExprNumber source tokens =
      (extractLiteral source (token.first + start.length) (unsigned body.length)).map fun literal =>
        newExpr token.loc (.numberLiteralExpr literal radix) := by
  have found := number.radix_eq here
  rw [← last] at found
  have length : token.last - (token.first + start.length) = body.length := by
    rw [last, List.length_append]
    omega
  rw [reducePrimaryExprNumber_eq lexed found, length]

theorem map_newExpr_ok {r : Except ReduceFault (List UInt8)} {literal : Name} :
    (r.map fun literal => newExpr loc (.numberLiteralExpr literal radix)) =
      .ok (newExpr loc (.numberLiteralExpr literal radix)) ↔ r = .ok literal := by
  cases r with
  | error fault => exact ⟨nofun, nofun⟩
  | ok other =>
    constructor
    · intro same
      cases Except.ok.inj same
      rfl
    · intro same
      cases same
      rfl

theorem drop_behind (here : source.drop first = start ++ body ++ more) :
    source.drop (first + start.length) = body ++ more := by
  rw [← List.drop_drop, here, List.append_assoc, List.drop_left]

/-- A number is lexed as one token, and its radix is read from its prefix; its digits are stored
just when their text has fewer than 2^32 bytes, and they are fewer than 2^31. -/
theorem number_literal_iff {mem : Memory} {self : Lexer} (number : IsNumeral start radix digits body)
    (sees : self.Sees mem (start ++ body ++ rest) more) (goes : self.token ≠ .INVALID ∧ self.token ≠ .EOF)
    (stops : ∃ d ∈ (rest ++ more).head?, isNumberRest d = false) :
    ∃ s, lexerNext mem self = .ok s ∧ s.Took ⟨.NUMBER_LITERAL, self.ptr, start ++ body⟩ ∧
      determineRadix mem s.base s.ptr = (radix, start.length) ∧ ∀ loc,
        ((∃ literal, reducePrimaryExprNumber mem [numberToken s.base s.ptr loc] =
            .ok (newExpr loc (.numberLiteralExpr literal radix)) ∧ stored literal = digits) ↔
          body.length < 2 ^ 32 ∧ digits.length < 2 ^ 31) := by
  obtain ⟨c, tail, same, digit, all⟩ := number.head
  have sees' : self.Sees mem (c :: tail ++ rest) more := same ▸ sees
  obtain ⟨s, next, took, _⟩ := number_lexed sees' goes digit all stops
  rw [← same] at took
  have here : mem.drop self.ptr = start ++ body ++ (rest ++ more) := by
    rw [sees.bytes, List.append_assoc]
  obtain ⟨token, base, ptr⟩ := took
  refine ⟨s, next, ⟨token, base, ptr⟩, ?_, fun loc => ?_⟩
  · rw [base, ptr]
    exact number.radix_eq here
  · rw [base, ptr, ← number.stored_iff (drop_behind here)]
    have lexed (last : Nat) : readLexeme [numberToken self.ptr last loc] 0 .NUMBER_LITERAL = .ok (numberToken self.ptr last loc) := rfl
    have reduced := number.reduced (lexed (self.ptr + (start ++ body).length)) here rfl
    refine exists_congr fun literal => and_congr_left fun _ => ?_
    rw [reduced]
    exact map_newExpr_ok

/-- `0x`. -/
def hexStart : List UInt8 := ['0'.toUInt8] ++ ['x'.toUInt8]

theorem hexStart_radix : RadixPrefix hexStart 16 := by
  have zero : IsDigits ['0'.toUInt8] := by decide
  exact .radix zero (by decide) (by decide)

/-- `0x1'F`. -/
def hexText : List UInt8 := ['0', 'x', '1', '\'', 'F'].map Char.toUInt8

theorem hex_literal :
    ∃ s, lexerNext (hexText ++ [0]) (lexerInit 5) = .ok s ∧ s.Took ⟨.NUMBER_LITERAL, 0, hexText⟩ ∧ ∃ literal,
      reducePrimaryExprNumber (hexText ++ [0]) [numberToken s.base s.ptr ⟨0, 0⟩] =
        .ok (newExpr ⟨0, 0⟩ (.numberLiteralExpr literal 16)) ∧
        stored literal = ['1', 'F'].map Char.toUInt8 := by
  have number : IsNumeral hexStart 16 (['1', 'F'].map Char.toUInt8) (['1', '\'', 'F'].map Char.toUInt8) := by
    refine ⟨hexStart_radix, ?_, by decide, ⟨'1'.toUInt8, rfl, by decide⟩, ⟨'F'.toUInt8, rfl, by decide⟩⟩
    simp [IsDigitOf, digitOf, isNumberDec, inRange]
    decide
  have sees : (lexerInit 5).Sees (hexText ++ [0]) (hexStart ++ ['1', '\'', 'F'].map Char.toUInt8 ++ []) [0] := ⟨rfl, rfl⟩
  obtain ⟨s, next, took, _, reads⟩ := number_literal_iff number sees ⟨by decide, by decide⟩ ⟨0, rfl, by decide⟩
  obtain ⟨literal, reduced, digits⟩ := (reads ⟨0, 0⟩).mpr ⟨by decide, by decide⟩
  exact ⟨s, next, took, literal, reduced, digits⟩

def ones (n : Nat) : List UInt8 := List.replicate n '1'.toUInt8

theorem ones_numeral {n : Nat} (some : n ≠ 0) : IsNumeral [] 10 (ones n) (ones n) := by
  have all (c : UInt8) (member : c ∈ ones n) : c = '1'.toUInt8 := List.eq_of_mem_replicate member
  refine ⟨.none, fun c member => ?_, ?_, ⟨'1'.toUInt8, ?_, by decide⟩, ⟨'1'.toUInt8, ?_, by decide⟩⟩
  · rw [all c member]
    exact ⟨by decide, by decide⟩
  · exact List.filter_eq_self.mpr fun c member => all c member ▸ by decide
  · exact List.head?_replicate.trans (if_neg some)
  · exact List.getLast?_replicate.trans (if_neg some)

/-- Nothing is stored of 2^32 digits. -/
theorem long_literal_lost : IsNumeral [] 10 (ones (2 ^ 32)) (ones (2 ^ 32)) ∧
    reducePrimaryExprNumber (ones (2 ^ 32)) [numberToken 0 (2 ^ 32) ⟨0, 0⟩] =
      .ok (newExpr ⟨0, 0⟩ (.numberLiteralExpr [] 10)) ∧ stored [] ≠ ones (2 ^ 32) := by
  have number : IsNumeral [] 10 (ones (2 ^ 32)) (ones (2 ^ 32)) := ones_numeral (by decide)
  have length : (ones (2 ^ 32)).length = 2 ^ 32 := List.length_replicate
  have here : (ones (2 ^ 32)).drop (numberToken 0 (2 ^ 32) ⟨0, 0⟩).first = [] ++ ones (2 ^ 32) ++ [] := (List.append_nil _).symm
  have lexed : readLexeme [numberToken 0 (2 ^ 32) ⟨0, 0⟩] 0 .NUMBER_LITERAL = .ok (numberToken 0 (2 ^ 32) ⟨0, 0⟩) := rfl
  have reduced := number.reduced lexed here (by rw [List.nil_append, length]; rfl)
  rw [length] at reduced
  refine ⟨number, reduced, fun same => ?_⟩
  have lengths := congrArg List.length same
  rw [length] at lengths
  cases lengths

end Literals

section Terminator
variable {source more : Memory} {first : Nat} {lexeme : List UInt8}

/-- The buffer holds the characters, and a zero byte behind them. -/
def Terminated (buffer chars : List UInt8) : Prop := chars ++ [0] <+: buffer

theorem determineRadix_le (source : Memory) {first last : Nat} (lt : first < last) :
    (determineRadix source first last).2 ≤ last - first := by
  unfold determineRadix
  dsimp only
  split
  · exact Nat.zero_le _
  split
  · exact Nat.zero_le _
  split
  · exact Nat.zero_le _
  rename_i one two
  split <;> rename_i digit <;> split
  · simp only [digit, Bool.true_and, decide_eq_true_eq] at two
    dsimp only
    omega
  · exact Nat.zero_le _
  · dsimp only
    omega
  · exact Nat.zero_le _

/-- There is room for a zero byte behind what is copied just when an apostrophe is left out. -/
theorem unseparated_lt_iff (text : List UInt8) :
    (unseparated text).length < text.length ↔ '\''.toUInt8 ∈ text := by
  rw [unseparated, List.length_filter_lt_length_iff_exists]
  simp

/-- The buffer of a number literal is a terminated string of the characters just when there is an
apostrophe among the bytes that are copied, only apostrophes are cut off, and the other bytes are counted
by an `int`. -/
theorem terminated_iff (loc : Loc) (word : IsWord isNumberStart isNumberRest lexeme)
    (here : source.drop first = lexeme ++ more) :
    ∃ radix skipped, determineRadix source first (first + lexeme.length) = (radix, skipped) ∧
      ((∃ literal, reducePrimaryExprNumber source [numberToken first (first + lexeme.length) loc] =
          .ok (newExpr loc (.numberLiteralExpr literal radix)) ∧ Terminated literal (unseparated (lexeme.drop skipped))) ↔
        '\''.toUInt8 ∈ measured (lexeme.drop skipped) ∧
          (∀ c ∈ (lexeme.drop skipped).drop (unsigned (lexeme.drop skipped).length), c = '\''.toUInt8) ∧
          (unseparated (lexeme.drop skipped)).length < 2 ^ 31) := by
  have some : 0 < lexeme.length := by
    cases lexeme with
    | nil => exact word.elim
    | cons c rest => exact Nat.succ_pos _
  rcases found : determineRadix source first (first + lexeme.length) with ⟨radix, skipped⟩
  have le : skipped ≤ lexeme.length := by
    have bound := determineRadix_le source (Nat.lt_add_of_pos_right some : first < first + lexeme.length)
    rw [found, Nat.add_sub_cancel_left] at bound
    exact bound
  obtain ⟨suffix, same⟩ : ∃ suffix, lexeme.drop skipped = suffix := ⟨_, rfl⟩
  have length : first + lexeme.length - (first + skipped) = suffix.length := by
    rw [← same, List.length_drop]
    omega
  have behind : source.drop (first + skipped) = suffix ++ more := by
    rw [← List.drop_drop, here, List.drop_append_of_le_length le, same]
  have rests (c : UInt8) (member : c ∈ suffix) : c ≠ 0 := by
    have number : isNumberRest c = true := by
      cases lexeme with
      | nil => exact word.elim
      | cons d rest =>
        rcases List.mem_cons.mp (List.mem_of_mem_drop (same ▸ member)) with rfl | inside
        · simp [isNumberRest, isNumber, word.1]
        · exact word.2 c inside
    exact isNumberRest_ne_zero number
  have lexed : readLexeme [numberToken first (first + lexeme.length) loc] 0 .NUMBER_LITERAL =
      .ok (numberToken first (first + lexeme.length) loc) := rfl
  refine ⟨radix, skipped, rfl, ?_⟩
  have reads (literal : Name) : reducePrimaryExprNumber source [numberToken first (first + lexeme.length) loc] =
      .ok (newExpr loc (.numberLiteralExpr literal radix)) ↔
      extractLiteral source (first + skipped) (unsigned suffix.length) = .ok literal := by
    rw [reducePrimaryExprNumber_eq lexed found, ← length]
    exact map_newExpr_ok
  simp only [reads]
  rw [same, extractLiteral_eq behind]
  have parts : unseparated suffix = unseparated (measured suffix) ++ unseparated (suffix.drop (unsigned suffix.length)) := by
    rw [unseparated, unseparated, unseparated, ← List.filter_append, measured, List.take_append_drop]
  have counted : (measured suffix).length = unsigned suffix.length := List.length_take_of_le (unsigned_le _)
  rw [← unseparated_lt_iff]
  constructor
  · rintro ⟨literal, extracted, starts⟩
    split at extracted
    · rename_i small
      obtain rfl := Except.ok.inj extracted
      rw [Terminated, parts, List.append_assoc, List.prefix_append_right_inj, ← counted] at starts
      have gone : unseparated (suffix.drop (measured suffix).length) = [] := by
        refine List.eq_nil_iff_forall_not_mem.mpr fun c member => ?_
        have zero := List.eq_of_mem_replicate (starts.subset (List.mem_append_left _ member))
        exact rests c (List.mem_of_mem_drop (List.mem_of_mem_filter member)) zero
      have le := starts.length_le
      rw [gone, List.nil_append, List.length_singleton, List.length_replicate] at le
      rw [parts, ← counted, gone, List.append_nil]
      refine ⟨by omega, fun c member => ?_, small⟩
      simpa using List.filter_eq_nil_iff.mp gone c member
    · cases extracted
  · rintro ⟨lt, only, small⟩
    have gone : unseparated (suffix.drop (unsigned suffix.length)) = [] :=
      List.filter_eq_nil_iff.mpr fun c member => by simp [only c member]
    rw [gone, List.append_nil] at parts
    rw [parts] at small ⊢
    rw [if_pos small]
    refine ⟨_, rfl, ?_⟩
    rw [Terminated, List.prefix_append_right_inj, ← counted]
    obtain ⟨n, room⟩ := Nat.exists_eq_add_of_lt lt
    have left : (measured suffix).length - (unseparated (measured suffix)).length = n + 1 := by omega
    rw [left]
    exact ⟨List.replicate n 0, rfl⟩

/-- `1'000`. -/
def thousandText : List UInt8 := ['1', '\'', '0', '0', '0'].map Char.toUInt8

theorem thousand_terminated :
    ∃ literal, reducePrimaryExprNumber thousandText [numberToken 0 5 ⟨0, 0⟩] = .ok (newExpr ⟨0, 0⟩ (.numberLiteralExpr literal 10)) ∧
      Terminated literal (['1', '0', '0', '0'].map Char.toUInt8) := by
  have word : IsWord isNumberStart isNumberRest thousandText := ⟨by decide, by decide +kernel⟩
  have here : thousandText.drop 0 = thousandText ++ [] := (List.append_nil _).symm
  obtain ⟨radix, skipped, found, exact⟩ := terminated_iff ⟨0, 0⟩ word here
  obtain ⟨rfl, rfl⟩ : 10 = radix ∧ 0 = skipped := Prod.mk.inj found
  exact exact.mpr ⟨by decide, by decide +kernel, by decide⟩

/-- The buffer of `5` is one byte, and no string. -/
theorem five_unterminated :
    reducePrimaryExprNumber [53] [numberToken 0 1 ⟨0, 0⟩] = .ok (newExpr ⟨0, 0⟩ (.numberLiteralExpr [53] 10)) ∧
      ¬Terminated [53] [53] ∧ (0 : UInt8) ∉ [(53 : UInt8)] := by
  refine ⟨rfl, fun starts => ?_, by decide⟩
  have le := starts.length_le
  simp at le

end Terminator

/-! ### Lengths of arrays -/

section Lengths
variable {source more : Memory} {radix : Nat} {start digits body : List UInt8} {tokens : List (StackToken Value)}
  {token : StackToken Value} {type : AstType}

theorem readLexeme_single {index : Nat} {t : Token} (lexed : readLexeme tokens index t = .ok token) :
    readLexeme [token] 0 t = .ok token := by
  unfold readLexeme at lexed
  split at lexed
  · split at lexed
    · obtain rfl := Except.ok.inj lexed
      exact if_pos (by assumption)
    · cases lexed
  · cases lexed

theorem reduceTypeArray_eq (target : read tokens 3 .type = .ok type)
    (lexed : readLexeme tokens 1 .NUMBER_LITERAL = .ok token) :
    reduceTypeArray source tokens =
      .ok (newType (.arrayType type (unsignedOfInt (atoi (source.drop token.first))))) := by
  rw [reduceTypeArray, target, lexed]
  rfl

theorem length_digits {rest : List UInt8} (all : IsDigits digits) (some : digits ≠ []) (stops : NoDigit rest)
    (small : decimal digits < 2 ^ 31) : unsignedOfInt (atoi (digits ++ rest)) = decimal digits := by
  rw [atoi_append all some stops small, unsignedOfInt_of_lt small]

theorem numeral_decimal (all : IsDigits digits) : numeral 10 digits = decimal digits := by
  induction digits using List.reverseRecOn with
  | nil => rfl
  | append_singleton digits c ih =>
    obtain ⟨before, last⟩ := List.forall_mem_append.mp all
    rw [numeral, decimal, positional_concat, positional_concat, ← numeral, ← decimal, ih before, digitOf,
      if_pos (last c (List.mem_singleton_self c))]

/-- The number and its first digits are the same only if they are zero. -/
theorem decimal_append_eq_iff {more : List UInt8} (some : more ≠ []) :
    decimal digits = decimal (digits ++ more) ↔ decimal (digits ++ more) = 0 := by
  have pos : 0 < more.length := List.length_pos_iff.mpr some
  have ten : 10 ≤ 10 ^ more.length := Nat.le_self_pow (Nat.pos_iff_ne_zero.mp pos) 10
  have grows : decimal digits * 10 ≤ decimal digits * 10 ^ more.length := Nat.mul_le_mul_left _ ten
  have split : decimal (digits ++ more) = decimal digits * 10 ^ more.length + decimal more := positional_append _ _
  omega

theorem noDigit_of_rest (stops : ∀ d ∈ more.head?, isNumberRest d = false) : NoDigit more := by
  intro d head
  by_contra digit
  have rest := (isNumberDec_rest (Bool.not_eq_false _ ▸ digit)).1
  rw [stops d head] at rest
  cases rest

/-- Without a prefix the digits before the first apostrophe are read. -/
theorem plain_length (number : IsNumeral [] 10 digits body) (small : numeral 10 digits < 2 ^ 31)
    (stops : ∀ d ∈ more.head?, isNumberRest d = false) :
    unsignedOfInt (atoi (body ++ more)) = numeral 10 digits ↔ '\''.toUInt8 ∉ body ∨ numeral 10 digits = 0 := by
  have all : IsDigits digits := fun c member => (number.valued c member).dec
  rw [numeral_decimal all] at small ⊢
  by_cases apostrophe : '\''.toUInt8 ∈ body
  · obtain ⟨lead, tail, rfl, plain⟩ := List.eq_append_cons_of_mem apostrophe
    have parts : digits = lead ++ unseparated tail := by
      rw [← number.separated, List.filter_append, List.filter_cons_of_neg (by simp), List.filter_eq_self.mpr, unseparated]
      exact fun c member => bne_iff_ne.mpr fun same => plain (same ▸ member)
    have some : lead ≠ [] := by
      rintro rfl
      obtain ⟨_, ⟨⟩, other⟩ := number.first
      exact other rfl
    have some' : unseparated tail ≠ [] := by
      obtain ⟨c, last, other⟩ := number.last
      rw [List.getLast?_append_of_ne_nil _ (List.cons_ne_nil _ _)] at last
      have inside := (List.mem_cons.mp (List.mem_of_getLast? last)).resolve_left other
      exact List.ne_nil_of_mem (List.mem_filter.mpr ⟨inside, bne_iff_ne.mpr other⟩)
    have leads : IsDigits lead := fun c member => all c (parts ▸ List.mem_append_left _ member)
    have le : decimal lead ≤ decimal digits := parts ▸ positional_le_append (by decide) lead _
    have stops' : NoDigit ('\''.toUInt8 :: tail ++ more) := by
      rintro _ ⟨⟩
      decide
    rw [List.append_assoc, length_digits leads some stops' (Nat.lt_of_le_of_lt le small), parts, decimal_append_eq_iff some']
    exact ⟨.inr, fun either => either.resolve_left fun absent => absent apostrophe⟩
  · have others (c : UInt8) (member : c ∈ body) : (c != '\''.toUInt8) = true :=
      bne_iff_ne.mpr fun same => apostrophe (same ▸ member)
    have whole : body = digits := (List.filter_eq_self.mpr others).symm.trans number.separated
    obtain ⟨c, head, _⟩ := number.first
    have some : digits ≠ [] := whole ▸ List.ne_nil_of_mem (List.mem_of_head? head)
    rw [whole, length_digits all some (noDigit_of_rest stops) small]
    exact iff_of_true rfl (.inl (whole ▸ apostrophe))

theorem numeral_of_base_one (valued : ∀ c ∈ digits, IsDigitOf radix c) (one : radix ≤ 1) : numeral radix digits = 0 := by
  induction digits using List.reverseRecOn with
  | nil => rfl
  | append_singleton digits c ih =>
    obtain ⟨before, last⟩ := List.forall_mem_append.mp valued
    have zero := (last c (List.mem_singleton_self c)).2
    rw [numeral, positional_concat, ← numeral, ih before]
    omega

/-- A number that other digits come behind keeps its value only if it is zero. -/
theorem numeral_append_eq {more : List UInt8} (valued : ∀ c ∈ digits ++ more, IsDigitOf radix c) (some : more ≠ [])
    (same : numeral radix digits = numeral radix (digits ++ more)) : numeral radix digits = 0 := by
  by_cases one : radix ≤ 1
  · exact numeral_of_base_one (fun c member => valued c (List.mem_append_left _ member)) one
  · have pos : 0 < more.length := List.length_pos_iff.mpr some
    have grows : radix ≤ radix ^ more.length := Nat.le_self_pow (Nat.pos_iff_ne_zero.mp pos) radix
    have twice : numeral radix digits * 2 ≤ numeral radix digits * radix ^ more.length := Nat.mul_le_mul_left _ (by omega)
    have split : numeral radix (digits ++ more) = numeral radix digits * radix ^ more.length + numeral radix more :=
      positional_append _ _
    omega

/-- What is stored of a number denotes it just when all of it is stored, or when it is zero and
something is. -/
theorem IsNumeral.value_iff {ptr : Nat} (number : IsNumeral start radix digits body) (here : source.drop ptr = body ++ more) :
    (∃ literal, extractLiteral source ptr (unsigned body.length) = .ok literal ∧ stored literal ≠ [] ∧
      numeral radix (stored literal) = numeral radix digits) ↔
      body.length < 2 ^ 32 ∧ digits.length < 2 ^ 31 ∨
        numeral radix digits = 0 ∧ unsigned body.length ≠ 0 ∧ (unseparated (measured body)).length < 2 ^ 31 := by
  obtain ⟨cut, whole⟩ := measured_begins body
  have parts : digits = unseparated (measured body) ++ unseparated cut := by
    rw [unseparated, unseparated, ← List.filter_append, whole]
    exact number.separated.symm
  have nonzero (c : UInt8) (member : c ∈ unseparated (measured body)) : c ≠ 0 :=
    isNumberRest_ne_zero (number.body_rest ((measured_begins body).subset (List.mem_of_mem_filter member)))
  obtain ⟨c, head, plain⟩ := number.first
  obtain ⟨rest, rfl⟩ := List.head?_eq_some_iff.mp head
  have some : unseparated (measured (c :: rest)) ≠ [] ↔ unsigned (c :: rest).length ≠ 0 := by
    rw [unseparated, measured]
    cases unsigned (c :: rest).length with
    | zero => simp
    | succ n => simp [plain]
  rw [extractLiteral_eq here]
  constructor
  · rintro ⟨literal, extracted, begun, same⟩
    split at extracted
    · rename_i counted
      obtain rfl := Except.ok.inj extracted
      rw [stored_eq nonzero] at begun same
      by_cases none : cut = []
      · have all : unseparated cut = [] := by rw [none]; rfl
        rw [all, List.append_nil] at parts
        exact .inl ⟨short_of_measured (by simpa [none] using whole), parts ▸ counted⟩
      · obtain ⟨d, last, other⟩ := number.last
        rw [← whole, List.getLast?_append_of_ne_nil _ none] at last
        have kept : d ∈ unseparated cut := List.mem_filter.mpr ⟨List.mem_of_getLast? last, by simpa using other⟩
        have zero := numeral_append_eq (fun e member => number.valued e (parts ▸ member)) (List.ne_nil_of_mem kept)
          (same.trans (congrArg _ parts))
        exact .inr ⟨same.symm.trans zero, some.mp begun, counted⟩
    · cases extracted
  · intro either
    have holds : (unseparated (measured (c :: rest))).length < 2 ^ 31 ∧ unseparated (measured (c :: rest)) ≠ [] ∧
        numeral radix (unseparated (measured (c :: rest))) = numeral radix digits := by
      rcases either with ⟨short, counted⟩ | ⟨zero, begun, counted⟩
      · have all : unseparated (measured (c :: rest)) = digits := (congrArg _ (measured_of_short short)).trans number.separated
        refine ⟨all ▸ counted, all ▸ ?_, congrArg _ all⟩
        rw [← number.separated, List.filter_cons_of_pos (by simpa using plain)]
        exact List.cons_ne_nil _ _
      · refine ⟨counted, some.mpr begun, ?_⟩
        have pos : 0 < radix := by
          have inside : c ∈ digits := number.separated ▸ List.mem_filter.mpr ⟨.head _, by simpa using plain⟩
          exact Nat.lt_of_le_of_lt (Nat.zero_le _) (number.valued c inside).2
        have le : numeral radix (unseparated (measured (c :: rest))) ≤ numeral radix digits :=
          parts ▸ positional_le_append pos _ _
        omega
    obtain ⟨counted, begun, same⟩ := holds
    rw [if_pos counted]
    exact ⟨_, rfl, by rwa [stored_eq nonzero], by rwa [stored_eq nonzero]⟩

/-- `atoi` reads the length that the number denotes just when there is no prefix, and no apostrophe
unless the number is zero, or when the number is the one that its prefix spells. The same lexeme denotes
it as an expression just when its digits are stored, or when it is zero and some digit is. -/
theorem array_length_iff (number : IsNumeral start radix digits body) (small : numeral radix digits < 2 ^ 31)
    (here : source.drop token.first = start ++ body ++ more) (stops : ∀ d ∈ more.head?, isNumberRest d = false)
    (last : token.last = token.first + (start ++ body).length) (target : read tokens 3 .type = .ok type)
    (lexed : readLexeme tokens 1 .NUMBER_LITERAL = .ok token) :
    ∃ length, reduceTypeArray source tokens = .ok (newType (.arrayType type length)) ∧
      ((length = numeral radix digits ∧ ∃ literal,
          reducePrimaryExprNumber source [token] = .ok (newExpr token.loc (.numberLiteralExpr literal radix)) ∧
            stored literal ≠ [] ∧ numeral radix (stored literal) = numeral radix digits) ↔
        ((start = [] ∧ ('\''.toUInt8 ∉ body ∨ numeral radix digits = 0)) ∨
          ∃ word, start = word ++ ['x'.toUInt8] ∧ numeral radix digits = decimal word) ∧
        (body.length < 2 ^ 32 ∧ digits.length < 2 ^ 31 ∨
          numeral radix digits = 0 ∧ unsigned body.length ≠ 0 ∧ (unseparated (measured body)).length < 2 ^ 31)) := by
  refine ⟨_, reduceTypeArray_eq target lexed, and_congr ?_ ?_⟩
  · rw [here]
    cases number.prefixed with
    | none =>
      have none (word : List UInt8) : [] ≠ word ++ ['x'.toUInt8] := by simp
      rw [List.nil_append, plain_length number small stops]
      exact ⟨fun either => .inl ⟨rfl, either⟩, fun either => (either.resolve_right fun ⟨word, same, _⟩ => none word same).2⟩
    | @radix word all some le =>
      have stops' : NoDigit (['x'.toUInt8] ++ (body ++ more)) := by
        rintro _ ⟨⟩
        decide
      have bound := decimal_short all le
      rw [List.append_assoc, List.append_assoc, length_digits all some stops' (by omega)]
      constructor
      · exact fun same => .inr ⟨word, rfl, same.symm⟩
      · rintro (⟨same, _⟩ | ⟨other, same, value⟩)
        · simp at same
        · obtain rfl := List.append_cancel_right same
          exact value.symm
  · rw [← number.value_iff (drop_behind here), number.reduced (readLexeme_single lexed) here last]
    simp only [map_newExpr_ok]

/-- The tokens of `[`, a number, `]` and `int64`. -/
def arrayTokens (last : Nat) : List (StackToken Value) :=
  [⟨Token.LBRACK.toNat, 0, 1, ⟨0, 0⟩, .null⟩, numberToken 1 last ⟨0, 1⟩, ⟨Token.RBRACK.toNat, last, last + 1, ⟨0, last⟩, .null⟩,
    ⟨Token.IDENT.toNat, last + 1, last + 6, ⟨0, last + 1⟩, .one .type (.mk 0 (.integerType 64))⟩]

/-- `[12]int64` has as many elements as `12` denotes. -/
theorem array_of_twelve :
    reduceTypeArray (['[', '1', '2', ']'].map Char.toUInt8) (arrayTokens 3) =
        .ok (newType (.arrayType (.mk 0 (.integerType 64)) 12)) ∧
      ∃ literal, reducePrimaryExprNumber (['[', '1', '2', ']'].map Char.toUInt8) [numberToken 1 3 ⟨0, 1⟩] =
        .ok (newExpr ⟨0, 1⟩ (.numberLiteralExpr literal 10)) ∧ numeral 10 (stored literal) = 12 := by
  have number : IsNumeral [] 10 (['1', '2'].map Char.toUInt8) (['1', '2'].map Char.toUInt8) :=
    ⟨.none, by simp [IsDigitOf]; decide, by decide, ⟨_, rfl, by decide⟩, ⟨_, rfl, by decide⟩⟩
  have here : (['[', '1', '2', ']'].map Char.toUInt8).drop (numberToken 1 3 ⟨0, 1⟩).first =
      [] ++ ['1', '2'].map Char.toUInt8 ++ [']'.toUInt8] := rfl
  have lexed : readLexeme (arrayTokens 3) 1 .NUMBER_LITERAL = .ok (numberToken 1 3 ⟨0, 1⟩) := rfl
  obtain ⟨length, reduced, exact⟩ := array_length_iff number (by decide) here (by decide +kernel) rfl rfl lexed
  obtain ⟨same, literal, read, _, value⟩ := exact.mpr ⟨.inl ⟨rfl, .inl (by decide)⟩, .inl ⟨by decide, by decide⟩⟩
  rw [same] at reduced
  exact ⟨reduced, literal, read, value⟩

/-- `[0x10]int64` has no elements. -/
theorem array_of_hex_empty :
    IsNumeral hexStart 16 (['1', '0'].map Char.toUInt8) (['1', '0'].map Char.toUInt8) ∧
      numeral 16 (['1', '0'].map Char.toUInt8) = 16 ∧
      reduceTypeArray (['[', '0', 'x', '1', '0', ']'].map Char.toUInt8) (arrayTokens 5) =
        .ok (newType (.arrayType (.mk 0 (.integerType 64)) 0)) := by
  refine ⟨⟨hexStart_radix, ?_, by decide, ⟨_, rfl, by decide⟩, ⟨_, rfl, by decide⟩⟩, by decide, rfl⟩
  simp [IsDigitOf]
  decide

end Lengths

end Low
