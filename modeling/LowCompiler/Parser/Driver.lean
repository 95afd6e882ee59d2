import LowCompiler.Parser.States

/-!
# The parser loop

`parse` of `parser.c`. The stack is a list with its top first. The lexer is the
list of lexemes still to come; behind the last one it returns `TKN_EOF` forever.
A reducer sets the value of the reduced token and nothing else; the values and
the reducers are parameters.
-/

namespace Low

structure Loc where
  line : Nat
  col : Nat
  deriving DecidableEq, Repr

/-- What the parser reads off the lexer: the token, `base`, `ptr` and the location. -/
structure Lexeme where
  token : Token
  base : Nat
  ptr : Nat
  loc : Loc
  deriving DecidableEq, Repr

/-- `token_t`: a token or a reduced rule on the stack, with the value a reducer left there. -/
structure StackToken (V : Type) where
  id : Nat
  first : Nat
  last : Nat
  loc : Loc
  value : V
  deriving DecidableEq, Repr

structure ParserStack (V : Type) where
  state : Nat
  token : StackToken V
  deriving DecidableEq, Repr

/-- The environment of the loop: the tables, the reducers by name, and the value of a new token. -/
structure ParserEnv (V : Type) where
  states : List ParserState
  reducer : String → StackToken V → List (StackToken V) → Int → V
  null : V

/-- The stack is an `array_t` in the source. That is a list as long as the size of its memory, which is
computed in 32 bits, does not wrap. -/
structure Parser (V : Type) where
  stack : List (ParserStack V)
  input : List Lexeme

def eofLexeme : Lexeme := ⟨.EOF, 0, 0, ⟨0, 0⟩⟩

inductive ParserEvent (V : Type) where
  | shift (lexeme : Lexeme)
  /-- A reduction, with the tokens handed to the reducer. -/
  | reduce (action : ParserAction) (tokens : List (StackToken V))

inductive ParserOutcome (V : Type) where
  | next (event : ParserEvent V) (parser : Parser V)
  | accept (result : V)
  | syntaxError (loc : Loc) (expected : List Token) (msg : String)
  /-- The stack is empty, and the loop is left. -/
  | emptyStack
  /-- A read past the stack or the tables. -/
  | outOfBounds

/-- The text of the syntax error: the tokens of the rows of the state. -/
def syntaxErrorMessage (expected : List Token) : String :=
  expected.zipIdx.foldl (fun msg (token, i) =>
    let glue := if i = 0 then " " else if i = expected.length - 1 then ", or " else ", "
    msg ++ glue ++ "\"" ++ (tokenNames token).getD "(null)" ++ "\"") "syntax error, expected"

variable {V : Type}

/-- The token that a reduction leaves behind. Without a reducer it keeps the value of `target`. -/
def reducedToken (env : ParserEnv V) (action : ParserAction) (target current : StackToken V)
    (tokens : List (StackToken V)) : StackToken V :=
  let reduced := { target with id := action.rule, last := current.last }
  match action.reducer with
  | some reducer => { reduced with value := env.reducer reducer reduced tokens action.reducerTag }
  | none => reduced

@[simp] theorem reducedToken_id (env : ParserEnv V) (action : ParserAction) (target current : StackToken V)
    (tokens : List (StackToken V)) : (reducedToken env action target current tokens).id = action.rule := by
  unfold reducedToken
  cases action.reducer <;> rfl

/-- The reduction by a row. A missing goto row leaves the state of the lowest reduced entry. -/
def reduceStep (env : ParserEnv V) (p : Parser V) (current : ParserStack V) (action : ParserAction) :
    ParserOutcome V :=
  let numTokens := (-action.stateOrLength).toNat
  match p.stack[numTokens - 1]?, p.stack[numTokens]? with
  | some target, some base =>
    match env.states[base.state]? with
    | some baseState =>
      let tokens := (p.stack.take numTokens).reverse.map ParserStack.token
      let state := match baseState.gotos.find? fun goto => goto.rule = action.rule with
        | some goto => goto.state
        | none => target.state
      .next (.reduce action tokens)
        { p with stack :=
          ⟨state, reducedToken env action target.token current.token tokens⟩ :: p.stack.drop numTokens }
    | none => .outOfBounds
  | _, _ => .outOfBounds

def parseStep (env : ParserEnv V) (p : Parser V) : ParserOutcome V :=
  match p.stack with
  | [] => .emptyStack
  | current :: _ =>
    match env.states[current.state]? with
    | none => .outOfBounds
    | some state =>
      let lex := p.input.headD eofLexeme
      match state.actions.find? fun action => action.token = lex.token with
      | none =>
        let expected := state.actions.map ParserAction.token
        .syntaxError lex.loc expected (syntaxErrorMessage expected)
      | some action =>
        if action.stateOrLength < 0 then
          if action.rule = 0 then .accept current.token.value
          else reduceStep env p current action
        else
          let token := ⟨lex.token.toNat, lex.base, lex.ptr, lex.loc, env.null⟩
          .next (.shift lex) ⟨⟨action.stateOrLength.toNat, token⟩ :: p.stack, p.input.tail⟩

/-- The parser before the loop: one entry with state 0 and a zero token. -/
def parserInit (env : ParserEnv V) (input : List Lexeme) : Parser V :=
  ⟨[⟨0, ⟨0, 0, 0, ⟨0, 0⟩, env.null⟩⟩], input⟩

def parse (env : ParserEnv V) : Nat → Parser V → Option (ParserOutcome V)
  | 0, _ => none
  | fuel + 1, p =>
    match parseStep env p with
    | .next _ p => parse env fuel p
    | outcome => some outcome

/-- The turns of the loop from one parser to another, with the events on the way. -/
inductive Steps (env : ParserEnv V) : Parser V → List (ParserEvent V) → Parser V → Prop where
  | refl (p : Parser V) : Steps env p [] p
  | step {p q r : Parser V} {event : ParserEvent V} {events : List (ParserEvent V)} :
      parseStep env p = .next event q → Steps env q events r → Steps env p (event :: events) r

/-- The tokens shifted by a run, and its reductions with what the reducers were handed. -/
def shiftedTokens : List (ParserEvent V) → List Token
  | [] => []
  | .shift lexeme :: events => lexeme.token :: shiftedTokens events
  | .reduce _ _ :: events => shiftedTokens events

def reductions : List (ParserEvent V) → List (ParserAction × List (StackToken V))
  | [] => []
  | .shift _ :: events => reductions events
  | .reduce action tokens :: events => (action, tokens) :: reductions events

def ParserOutcome.final : ParserOutcome V → Prop
  | .next _ _ => False
  | _ => True

theorem Steps.trans {env : ParserEnv V} {p q r : Parser V} {events more : List (ParserEvent V)}
    (first : Steps env p events q) (second : Steps env q more r) : Steps env p (events ++ more) r := by
  induction first with
  | refl => exact second
  | step turn _ ih => exact .step turn (ih second)

/-- The loop ends with the outcome in which its turns end. -/
theorem parse_eq_some {env : ParserEnv V} {p : Parser V} {outcome : ParserOutcome V} :
    (∃ fuel, parse env fuel p = some outcome) ↔
      outcome.final ∧ ∃ events q, Steps env p events q ∧ parseStep env q = outcome := by
  constructor
  · rintro ⟨fuel, run⟩
    induction fuel generalizing p with
    | zero => cases run
    | succ fuel ih =>
      unfold parse at run
      cases turn : parseStep env p with
      | next event q =>
        rw [turn] at run
        obtain ⟨final, events, r, steps, last⟩ := ih run
        exact ⟨final, event :: events, r, .step turn steps, last⟩
      | _ =>
        rw [turn] at run
        obtain rfl := Option.some.inj run
        exact ⟨trivial, [], p, .refl p, turn⟩
  · rintro ⟨final, events, q, steps, last⟩
    induction steps with
    | refl p =>
      refine ⟨1, ?_⟩
      unfold parse
      cases outcome with
      | next => cases final
      | _ => rw [last]
    | step turn _ ih =>
      obtain ⟨fuel, run⟩ := ih last
      refine ⟨fuel + 1, ?_⟩
      unfold parse
      rw [turn]
      exact run

end Low
