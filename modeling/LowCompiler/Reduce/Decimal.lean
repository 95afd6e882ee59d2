import LowCompiler.Lexer.Scan
import LowCompiler.Reduce.Values
import Mathlib.Data.List.Induction
import Mathlib.Tactic.Ring

/-!
# Decimal numbers

The number that digits denote, and `atoi` on a text that begins with decimal digits.
-/

namespace Low

/-- The number that a text denotes in a base, the most significant digit first. -/
def positional (base : Nat) (digit : UInt8 → Nat) (text : List UInt8) : Nat :=
  text.foldl (fun n c => base * n + digit c) 0

section Positional
variable {base : Nat} {digit : UInt8 → Nat}

theorem positional_concat (text : List UInt8) (c : UInt8) :
    positional base digit (text ++ [c]) = base * positional base digit text + digit c := by
  simp [positional, List.foldl_append]

theorem positional_append (text more : List UInt8) :
    positional base digit (text ++ more) = positional base digit text * base ^ more.length + positional base digit more := by
  induction more using List.reverseRecOn with
  | nil => simp [positional]
  | append_singleton more c ih =>
    rw [← List.append_assoc, positional_concat, positional_concat, ih, List.length_append, List.length_singleton, Nat.pow_succ]
    ring

theorem positional_le_append (pos : 0 < base) (text more : List UInt8) :
    positional base digit text ≤ positional base digit (text ++ more) := by
  rw [positional_append]
  exact Nat.le_add_right_of_le (Nat.le_mul_of_pos_right _ (Nat.pow_pos pos))

end Positional

/-! ### Decimal digits -/

def IsDigits (digits : List UInt8) : Prop := ∀ c ∈ digits, isNumberDec c = true

instance (digits : List UInt8) : Decidable (IsDigits digits) := List.decidableBAll (fun c => isNumberDec c = true) digits

def decimal : List UInt8 → Nat := positional 10 fun c => c.toNat - '0'.toNat

def NoDigit (rest : List UInt8) : Prop := ∀ c ∈ rest.head?, isNumberDec c = false

section Atoi
variable {digits rest : List UInt8} {c : UInt8}

/-- A digit is neither a blank nor a sign. -/
theorem isNumberDec_plain (digit : isNumberDec c = true) :
    isSpace c = false ∧ c ≠ '-'.toUInt8 ∧ c ≠ '+'.toUInt8 := by
  have all := forall_byte (p := fun c => !isNumberDec c || decide (isSpace c = false ∧ c ≠ '-'.toUInt8 ∧ c ≠ '+'.toUInt8))
    (by decide +kernel) c
  simpa only [digit, Bool.not_true, Bool.false_or, decide_eq_true_eq] using all

theorem leadingDigits_append (all : IsDigits digits) (stops : NoDigit rest) :
    leadingDigits (digits ++ rest) = decimal digits := by
  have taken : (digits ++ rest).takeWhile isNumberDec = digits := by
    rw [List.takeWhile_append_of_pos all]
    cases rest with
    | nil => simp
    | cons c rest => simp [stops c rfl]
  rw [leadingDigits, taken]
  rfl

/-- `atoi` stops behind the digits. -/
theorem atoi_append (all : IsDigits digits) (nonempty : digits ≠ []) (stops : NoDigit rest)
    (small : decimal digits < 2 ^ 31) : atoi (digits ++ rest) = decimal digits := by
  have value := leadingDigits_append all stops
  cases digits with
  | nil => exact absurd rfl nonempty
  | cons c digits =>
    obtain ⟨space, minus, plus⟩ := isNumberDec_plain (all c (.head _))
    simp only [atoi, List.cons_append, List.dropWhile_cons, space, Bool.false_eq_true, if_false, List.head?_cons, minus,
      plus, Option.some.injEq]
    rw [← List.cons_append, value, Int.bmod]
    omega

theorem atoi_digits (all : IsDigits digits) (nonempty : digits ≠ []) (small : decimal digits < 2 ^ 31) :
    atoi digits = decimal digits := by
  have stops : NoDigit [] := by simp [NoDigit]
  have read := atoi_append all nonempty stops small
  rwa [List.append_nil] at read

theorem unsignedOfInt_of_lt {n : Nat} (small : n < 2 ^ 31) : unsignedOfInt n = n := by
  unfold unsignedOfInt
  omega

end Atoi

/-! ### Lengths kept in an `unsigned` -/

/-- The bytes of a text that its length, kept in an `unsigned`, covers. -/
def measured (text : List UInt8) : List UInt8 := text.take (unsigned text.length)

theorem measured_begins (text : List UInt8) : measured text <+: text := List.take_prefix _ _

theorem measured_of_short {text : List UInt8} (short : text.length < 2 ^ 32) : measured text = text := by
  rw [measured, unsigned, Nat.mod_eq_of_lt short, List.take_length]

theorem short_of_measured {text : List UInt8} (same : measured text = text) : text.length < 2 ^ 32 := by
  have covered : unsigned text.length < 2 ^ 32 := Nat.mod_lt _ (by decide)
  have length := congrArg List.length same
  rw [measured, List.length_take] at length
  omega

end Low
