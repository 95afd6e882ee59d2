import LowCompiler.Lexer.Tokenisation

/-!
# Calls at a literal

What a call of `lexer_next` takes where a number or a string literal begins.
-/

namespace Low

variable {mem : Memory} {self : Lexer} {c : UInt8} {token : Token} {n : Nat} {lexeme rest more : List UInt8}

/-- A token at the pointer is taken in the first turn. -/
theorem lexerNext_token (sees : self.Sees mem (c :: rest) more) (goes : self.token ≠ .INVALID ∧ self.token ≠ .EOF)
    (found : piece self.token c rest = .token token n)
    (ends : symbolPiece (c :: rest) = none → Ends c rest more) :
    lexerNext mem self = .ok { self.start.advance mem n with token := token } := by
  have stop := sees.stop
  unfold lexerNext
  rw [if_neg (by omega), if_neg fun ended => ended.elim goes.1 goes.2]
  unfold lexerLoop
  rw [if_neg sees.ne_stop, lexerTurn_eq sees ends, found]
  rfl

theorem Lexer.Sees.took (sees : self.Sees mem (lexeme ++ rest) more) (token : Token) :
    Lexer.Took { self.start.advance mem lexeme.length with token := token } ⟨token, self.ptr, lexeme⟩ ∧
      Lexer.Sees mem { self.start.advance mem lexeme.length with token := token } rest more := by
  have inside := sees.start.advance (n := lexeme.length) (by rw [List.length_append]; omega)
  rw [List.drop_left] at inside
  exact ⟨⟨rfl, Lexer.advance_base _, Lexer.advance_ptr _⟩, ⟨inside.bytes, inside.stop⟩⟩

/-! ### Numbers -/

/-- No operator and no comment begins with a digit. -/
theorem symbolPiece_digit (digit : isNumberDec c = true) (rest : List UInt8) :
    symbolPiece (c :: rest) = none := by
  have heads : ∀ entry ∈ operators ['='], entry.1.head?.any fun k => !isNumberDec k.toUInt8 := by decide
  refine symbolPiece_none (.inl rfl) ?_ ?_
  · rintro (start | start) <;> obtain ⟨_, same, _⟩ := startsWith_cons.mp start <;>
      exact absurd ((List.cons.inj same).1 ▸ digit) (by decide)
  · intro entry member starts
    obtain ⟨k, head, other⟩ := (Option.any_eq_true _ _).mp (heads entry member)
    obtain ⟨tail, same⟩ := List.head?_eq_some_iff.mp head
    rw [same, List.map_cons, List.cons_prefix_cons] at starts
    simp [starts.1, digit] at other

theorem piece_number (digit : isNumberDec c = true) (rest : List UInt8) :
    piece token c rest = .token .NUMBER_LITERAL ((rest.takeWhile isNumberRest).length + 1) := by
  have start : isNumberStart c = true := by simp [isNumberStart, digit]
  have word : restTest c = some isNumberRest := if_pos start
  obtain ⟨white, quote⟩ := not_blank word
  rw [piece, if_neg (by simp [white]), symbolPiece_digit digit]
  exact (if_neg quote).trans (if_pos start)

/-- A number that begins with a digit is taken up to the first byte that is not of a number. -/
theorem number_lexed (sees : self.Sees mem (c :: lexeme ++ rest) more)
    (goes : self.token ≠ .INVALID ∧ self.token ≠ .EOF) (digit : isNumberDec c = true)
    (all : ∀ d ∈ lexeme, isNumberRest d = true) (stops : ∃ d ∈ (rest ++ more).head?, isNumberRest d = false) :
    ∃ s, lexerNext mem self = .ok s ∧ s.Took ⟨.NUMBER_LITERAL, self.ptr, c :: lexeme⟩ ∧
      s.Sees mem rest more := by
  have start : isNumberStart c = true := by simp [isNumberStart, digit]
  have taken : (lexeme ++ rest).takeWhile isNumberRest = lexeme := by
    rw [List.takeWhile_append_of_pos all]
    cases rest with
    | nil => simp
    | cons d rest =>
      obtain ⟨_, ⟨⟩, no⟩ := stops
      simp [no]
  have ends : Ends c (lexeme ++ rest) more := by
    intro test word within
    obtain rfl : isNumberRest = test := Option.some.inj ((if_pos start).symm.trans word)
    cases rest with
    | nil => exact stops
    | cons d rest =>
      obtain ⟨_, ⟨⟩, no⟩ := stops
      exact absurd (within d (by simp)) (by simp [no])
  have found : piece self.token c (lexeme ++ rest) = .token .NUMBER_LITERAL (c :: lexeme).length := by
    rw [piece_number digit, taken]
    rfl
  exact ⟨_, lexerNext_token sees goes found fun _ => ends, sees.took .NUMBER_LITERAL⟩

/-! ### String literals -/

/-- A string literal is taken up to its closing quote. -/
theorem string_lexed (sees : self.Sees mem (lexeme ++ rest) more) (goes : self.token ≠ .INVALID ∧ self.token ≠ .EOF)
    (quoted : IsQuoted lexeme) :
    ∃ s, lexerNext mem self = .ok s ∧ s.Took ⟨.STRING_LITERAL, self.ptr, lexeme⟩ ∧ s.Sees mem rest more := by
  obtain ⟨body, rfl, closed⟩ := quoted
  have ends : Ends '"'.toUInt8 (body ++ rest) more := by
    intro test word
    cases word
  have found : piece self.token '"'.toUInt8 (body ++ rest) = .token .STRING_LITERAL ('"'.toUInt8 :: body).length := by
    rw [piece_string, closed.length]
    rfl
  exact ⟨_, lexerNext_token sees goes found fun _ => ends, sees.took .STRING_LITERAL⟩

end Low
