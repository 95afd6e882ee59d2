import LowCompiler.Lexer.Token

/-!
# Parser tables

The types of `parser_states.h`. A row with a negative `stateOrLength` reduces
that many symbols; rule 0 marks the accepting row, as the numbers of rules
start behind the tokens.
-/

namespace Low

structure ParserAction where
  token : Token
  stateOrLength : Int
  reducer : Option String
  reducerTag : Int
  rule : Nat
  deriving DecidableEq, Repr

structure ParserGoto where
  rule : Nat
  state : Nat
  deriving DecidableEq, Repr

structure ParserState where
  actions : List ParserAction
  gotos : List ParserGoto
  deriving DecidableEq, Repr

/-- Every state has at most one row for each token. -/
def UniqueRows (states : List ParserState) : Prop :=
  ∀ s ∈ states, (s.actions.map ParserAction.token).Nodup

instance (states : List ParserState) : Decidable (UniqueRows states) :=
  inferInstanceAs (Decidable (∀ s ∈ states, (s.actions.map ParserAction.token).Nodup))

end Low
