import LowCompiler.Lexer.Literals
import LowCompiler.Reduce.Reducers

/-!
# String literals

A text written as a string literal, what the lexer takes of it, and what the reducer
decodes it to.
-/

namespace Low

/-! ### Escapes -/

def escapeByte (c : UInt8) : List UInt8 :=
  if c = '"'.toUInt8 then ['\\', '"'].map Char.toUInt8
  else if c = '\\'.toUInt8 then ['\\', '\\'].map Char.toUInt8
  else if c = '\t'.toUInt8 then ['\\', 't'].map Char.toUInt8
  else if c = '\n'.toUInt8 then ['\\', 'n'].map Char.toUInt8
  else if c = '\r'.toUInt8 then ['\\', 'r'].map Char.toUInt8
  else [c]

def escape (s : List UInt8) : List UInt8 := s.flatMap escapeByte

def quote (s : List UInt8) : List UInt8 := '"'.toUInt8 :: (escape s ++ ['"'.toUInt8])

/-- The bytes that are escaped, and how. -/
inductive Escaped : UInt8 → UInt8 → Prop where
  | quote : Escaped '"'.toUInt8 '"'.toUInt8
  | backslash : Escaped '\\'.toUInt8 '\\'.toUInt8
  | tab : Escaped '\t'.toUInt8 't'.toUInt8
  | newline : Escaped '\n'.toUInt8 'n'.toUInt8
  | return : Escaped '\r'.toUInt8 'r'.toUInt8

theorem escapeByte_cases (c : UInt8) :
    (∃ d, Escaped c d ∧ escapeByte c = ['\\'.toUInt8, d]) ∨
      (escapeByte c = [c] ∧ c ≠ '"'.toUInt8 ∧ c ≠ '\\'.toUInt8) := by
  unfold escapeByte
  split
  · rename_i same
    exact .inl ⟨_, same ▸ .quote, rfl⟩
  split
  · rename_i same
    exact .inl ⟨_, same ▸ .backslash, rfl⟩
  split
  · rename_i same
    exact .inl ⟨_, same ▸ .tab, rfl⟩
  split
  · rename_i same
    exact .inl ⟨_, same ▸ .newline, rfl⟩
  split
  · rename_i same
    exact .inl ⟨_, same ▸ .return, rfl⟩
  · exact .inr ⟨rfl, by assumption, by assumption⟩

theorem escape_cons (c : UInt8) (s : List UInt8) : escape (c :: s) = escapeByte c ++ escape s :=
  List.flatMap_cons

theorem quote_isQuoted (s : List UInt8) : IsQuoted (quote s) := by
  refine ⟨_, rfl, ?_⟩
  induction s with
  | nil => exact .quote
  | cons c s ih =>
    rw [escape_cons]
    rcases escapeByte_cases c with ⟨d, _, same⟩ | ⟨same, quote, backslash⟩
    · rw [same]
      exact .escape d ih
    · rw [same]
      exact .other quote backslash ih

/-! ### What is decoded -/

section Decoded
variable {s : List UInt8} {c d : UInt8} {n : Nat} {data : List UInt8}

/-- An escape is decoded, but for that of a backslash. -/
theorem unescape_escaped (escaped : Escaped c d) (data : List UInt8) (n : Nat) :
    unescape (n + 1) ('\\'.toUInt8 :: d :: data) =
      if c = '\\'.toUInt8 then .error .abort else (unescape (n - 1) data).map (c :: ·) := by
  cases escaped <;> rfl

theorem unescape_plain (plain : c ≠ '\\'.toUInt8) (data : List UInt8) (n : Nat) :
    unescape (n + 1) (c :: data) = (unescape n data).map (c :: ·) := by
  rw [unescape.eq_def]
  exact if_neg plain

theorem unescape_escape (plain : '\\'.toUInt8 ∉ s) (data : List UInt8) :
    unescape (escape s).length (escape s ++ data) = .ok s := by
  induction s with
  | nil => cases data <;> rfl
  | cons c s ih =>
    obtain ⟨other, rest⟩ := not_or.mp (List.mem_cons.not.mp plain)
    rw [escape_cons]
    rcases escapeByte_cases c with ⟨d, escaped, same⟩ | ⟨same, _, backslash⟩
    · rw [same]
      show unescape ((escape s).length + 1 + 1) ('\\'.toUInt8 :: d :: (escape s ++ data)) = _
      rw [unescape_escaped escaped, if_neg fun same => other same.symm, Nat.add_sub_cancel, ih rest]
      rfl
    · rw [same]
      show unescape ((escape s).length + 1) (c :: (escape s ++ data)) = _
      rw [unescape_plain backslash, ih rest]
      rfl

theorem map_cons_ok {r : Except ReduceFault Name} (run : r.map (c :: ·) = .ok (c :: s)) : r = .ok s := by
  cases r with
  | error fault => cases run
  | ok name =>
    obtain ⟨_, rfl⟩ := List.cons.inj (Except.ok.inj run)
    rfl

/-- Where the whole text is decoded, all of the literal is read but perhaps the end of its last escape. -/
theorem length_of_unescape (run : unescape n (escape s ++ data) = .ok s) :
    '\\'.toUInt8 ∉ s ∧ (escape s).length ≤ n + 1 ∧ (n = 0 → s = []) := by
  induction s generalizing n with
  | nil => exact ⟨List.not_mem_nil, Nat.zero_le _, fun _ => rfl⟩
  | cons c s ih =>
    cases n with
    | zero =>
      rw [unescape] at run
      cases run
    | succ n =>
      rw [escape_cons] at run ⊢
      rcases escapeByte_cases c with ⟨d, escaped, same⟩ | ⟨same, _, backslash⟩
      · rw [same] at run ⊢
        replace run : unescape (n + 1) ('\\'.toUInt8 :: d :: (escape s ++ data)) = .ok (c :: s) := run
        rw [unescape_escaped escaped] at run
        by_cases other : c = '\\'.toUInt8
        · rw [if_pos other] at run
          cases run
        rw [if_neg other] at run
        obtain ⟨plain, length, short⟩ := ih (map_cons_ok run)
        refine ⟨List.mem_cons.not.mpr (not_or.mpr ⟨fun same => other same.symm, plain⟩), ?_, nofun⟩
        -- An escape takes two bytes, and the second of them is read although only one is left.
        by_cases last : n - 1 = 0
        · rw [short last]
          simp [escape]
        · rw [List.length_append, List.length_cons, List.length_singleton]
          omega
      · rw [same] at run ⊢
        replace run : unescape (n + 1) (c :: (escape s ++ data)) = .ok (c :: s) := run
        rw [unescape_plain backslash] at run
        obtain ⟨plain, length, _⟩ := ih (map_cons_ok run)
        refine ⟨List.mem_cons.not.mpr (not_or.mpr ⟨fun same => backslash same.symm, plain⟩), ?_, nofun⟩
        rw [List.length_append, List.length_singleton]
        omega

/-- A literal is decoded to its text just when no backslash is escaped and its length fits into an
`unsigned`. -/
theorem unescape_iff (data : List UInt8) :
    unescape (unsigned (escape s).length) (escape s ++ data) = .ok s ↔
      '\\'.toUInt8 ∉ s ∧ (escape s).length < 2 ^ 32 := by
  constructor
  · intro run
    obtain ⟨plain, length, _⟩ := length_of_unescape run
    refine ⟨plain, ?_⟩
    unfold unsigned at length
    omega
  · rintro ⟨plain, short⟩
    rw [unsigned, Nat.mod_eq_of_lt short]
    exact unescape_escape plain data

theorem length_le_escape (s : List UInt8) : s.length ≤ (escape s).length := by
  induction s with
  | nil => exact Nat.zero_le _
  | cons c s ih =>
    rw [escape_cons, List.length_append, List.length_cons]
    rcases escapeByte_cases c with ⟨d, _, same⟩ | ⟨same, _⟩ <;> rw [same] <;> simp <;> omega

/-- The buffer for a literal is too small only if its length is the last one of an `unsigned`. -/
theorem stringLiteral_iff {source : Memory} {first : Nat} (here : source.drop (first + 1) = escape s ++ data) :
    stringLiteral source first (first + (escape s).length + 2) = .ok s ↔
      '\\'.toUInt8 ∉ s ∧ (escape s).length < 2 ^ 32 - 1 := by
  have length : first + (escape s).length + 2 - first - 2 = (escape s).length := by omega
  have decodes := unescape_iff (s := s) data
  have le := length_le_escape s
  rw [stringLiteral, length, here]
  show (unescape (unsigned (escape s).length) (escape s ++ data) >>= fun literal =>
    if literal.length < unsigned (unsigned (escape s).length + 1) then Except.ok literal else .error .buffer) = .ok s ↔ _
  cases decode : unescape (unsigned (escape s).length) (escape s ++ data) with
  | error fault =>
    rw [decode] at decodes
    have never := mt decodes.mpr nofun
    exact iff_of_false nofun fun holds => never ⟨holds.1, by omega⟩
  | ok literal =>
    rw [decode] at decodes
    show (if literal.length < unsigned (unsigned (escape s).length + 1) then Except.ok literal
      else .error ReduceFault.buffer) = .ok s ↔ _
    constructor
    · intro stores
      split at stores
      · rename_i room
        obtain ⟨plain, short⟩ := decodes.mp stores
        refine ⟨plain, ?_⟩
        rw [unsigned, unsigned, Nat.mod_eq_of_lt short] at room
        omega
      · cases stores
    · rintro ⟨plain, short⟩
      obtain rfl := Except.ok.inj (decodes.mpr ⟨plain, by omega⟩)
      rw [if_pos]
      rw [unsigned, unsigned, Nat.mod_eq_of_lt (by omega), Nat.mod_eq_of_lt (by omega)]
      omega

end Decoded

/-! ### String literals -/

section Literals
variable {mem : Memory} {self : Lexer} {s rest more : List UInt8}

def stringToken (first last : Nat) (loc : Loc) : StackToken Value :=
  ⟨Token.STRING_LITERAL.toNat, first, last, loc, .null⟩

/-- A text is lexed as one literal, and decoded to itself just when it has no backslash and is not
too long. -/
theorem string_round_trip_iff (sees : self.Sees mem (quote s ++ rest) more)
    (goes : self.token ≠ .INVALID ∧ self.token ≠ .EOF) :
    ∃ t, lexerNext mem self = .ok t ∧ t.Took ⟨.STRING_LITERAL, self.ptr, quote s⟩ ∧ ∀ loc,
      (reducePrimaryExprString mem [stringToken t.base t.ptr loc] = .ok (newExpr loc (.stringLiteralExpr s)) ↔
        '\\'.toUInt8 ∉ s ∧ (escape s).length < 2 ^ 32 - 1) := by
  obtain ⟨t, next, ⟨token, base, ptr⟩, _⟩ := string_lexed sees goes (quote_isQuoted s)
  have here : mem.drop (self.ptr + 1) = escape s ++ ('"'.toUInt8 :: (rest ++ more)) := by
    rw [← List.drop_drop, sees.bytes]
    simp [quote]
  have length : self.ptr + (quote s).length = self.ptr + (escape s).length + 2 := by
    simp [quote]
    omega
  refine ⟨t, next, ⟨token, base, ptr⟩, fun loc => ?_⟩
  have lexed (first last : Nat) : readLexeme [stringToken first last loc] 0 .STRING_LITERAL = .ok (stringToken first last loc) :=
    rfl
  rw [base, ptr, length, ← stringLiteral_iff here, reducePrimaryExprString, lexed]
  show (stringLiteral mem self.ptr (self.ptr + (escape s).length + 2) >>= fun literal =>
    Except.ok (newExpr loc (.stringLiteralExpr literal))) = _ ↔ _
  cases stringLiteral mem self.ptr (self.ptr + (escape s).length + 2) with
  | error fault => exact ⟨nofun, nofun⟩
  | ok literal =>
    constructor
    · intro same
      cases Except.ok.inj same
      rfl
    · intro same
      cases same
      rfl

/-- A tab and a quote. -/
def tabQuote : List UInt8 := ['\t', '"'].map Char.toUInt8

theorem tab_quote_round_trip :
    ∃ t, lexerNext (quote tabQuote) (lexerInit 6) = .ok t ∧ t.Took ⟨.STRING_LITERAL, 0, quote tabQuote⟩ ∧
      reducePrimaryExprString (quote tabQuote) [stringToken t.base t.ptr ⟨0, 0⟩] =
        .ok (newExpr ⟨0, 0⟩ (.stringLiteralExpr tabQuote)) := by
  have sees : (lexerInit 6).Sees (quote tabQuote) (quote tabQuote ++ []) [] := ⟨rfl, rfl⟩
  obtain ⟨t, next, took, reads⟩ := string_round_trip_iff sees ⟨by decide, by decide⟩
  exact ⟨t, next, took, (reads ⟨0, 0⟩).mpr ⟨by decide, by decide⟩⟩

/-- The compiler aborts at the literal of a backslash. -/
theorem backslash_aborts :
    quote ['\\'.toUInt8] = ['"', '\\', '\\', '"'].map Char.toUInt8 ∧
      reducePrimaryExprString (quote ['\\'.toUInt8]) [stringToken 0 4 ⟨0, 0⟩] = .error .abort :=
  ⟨rfl, rfl⟩

end Literals

end Low
