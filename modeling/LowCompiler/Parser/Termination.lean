import LowCompiler.Parser.Simulation
import LowCompiler.Lr.Termination

/-!
# Termination of the parser loop

When no token has two rows in a state and the grammar does not mention the end
token, the loop reaches an accepting row or a syntax error on every input. The
end token has to be excluded: the lexer returns it forever, and a variant that
contains it can be shifted forever.
-/

namespace Low

variable {R V : Type} [LinearOrder R]

theorem parse_next {env : ParserEnv V} {p q : Parser V} {event : ParserEvent V} {fuel : Nat}
    (turn : parseStep env p = .next event q) : parse env (fuel + 1) p = parse env fuel q := by
  rw [parse, turn]

/-- A run of the machine that is bound to end ends the loop with it. -/
theorem Drives.parse_ends {G : Grammar R} {ruleIds : List R} {env : ParserEnv V}
    {reps : Nat → List (Symbol Token R) → Prop} (drives : Drives G ruleIds env.states reps)
    {c : Lr.Config Token R} (acc : Acc (fun d c => ∃ ev, G.lr.Move .EOF c ev d) c) :
    ∀ (p : Parser V) γ, config p γ = c → Spells ruleIds reps p.stack γ →
      ∃ fuel, (∃ result, parse env fuel p = some (.accept result)) ∨
        ∃ loc expected msg, parse env fuel p = some (.syntaxError loc expected msg) := by
  induction acc with
  | intro c _ ih =>
    rintro p γ rfl spells
    rcases drives.step spells with ⟨event, next, move, δ, turn, _, moved, spells'⟩ | ⟨result, turn, _⟩ |
      ⟨loc, expected, turn, _⟩
    · obtain ⟨fuel, ends⟩ := ih _ ⟨move, moved⟩ next δ rfl spells'
      refine ⟨fuel + 1, ?_⟩
      rw [parse_next turn]
      exact ends
    · exact ⟨1, Or.inl ⟨result, by rw [parse, turn]⟩⟩
    · exact ⟨1, Or.inr ⟨loc, expected, _, by rw [parse, turn]⟩⟩

/-- The loop ends at the accepting row or with a syntax error. -/
theorem parse_terminates [Fintype R] {G : Grammar R} (noEmpty : G.NoEmpty) (free : G.EofFree) {fuel : Nat}
    {ruleIds : List R} {env : ParserEnv V} (run : generate G fuel = .ok (env.states, ruleIds))
    (unique : UniqueRows env.states) (input : List Lexeme) :
    ∃ turns, (∃ result, parse env turns (parserInit env input) = some (.accept result)) ∨
      ∃ loc expected msg, parse env turns (parserInit env input) = some (.syntaxError loc expected msg) := by
  obtain ⟨reps, drives⟩ := generate_drives noEmpty run
  have det := deterministic_of_unique run unique
  exact drives.parse_ends (Lr.Grammar.move_acc det free.lr noEmpty.lr _) _ [] rfl (drives.init input)

theorem parse_terminates_list :
    ∃ turns, (∃ result, parse listEnv turns (parserInit listEnv listInput) = some (.accept result)) ∨
      ∃ loc expected msg, parse listEnv turns (parserInit listEnv listInput) =
        some (.syntaxError loc expected msg) :=
  parse_terminates listGrammar_noEmpty (by decide) listGrammar_tables (by decide) listInput

/-! ### The end token in a variant -/

/-- An identifier, then any number of end tokens. -/
def endlessGrammar : Grammar (Fin 3) where
  variants rule :=
    if rule = 0 then [⟨[.nonterminal 1], some "0 /* accept */", 0⟩]
    else if rule = 1 then [⟨[.terminal .IDENT, .nonterminal 2], none, 0⟩]
    else [⟨[.terminal .EOF, .nonterminal 2], none, 0⟩, ⟨[.terminal .COMMA], none, 0⟩]
  root := 0
  grammarRoot := 1
  root_variants := rfl
  nonzero := by decide

def endlessTables : List ParserState :=
  [⟨[⟨.IDENT, 2, none, 0, 0⟩], [⟨92, 1⟩]⟩,
    ⟨[⟨.EOF, -1, none, 0, 0⟩], []⟩,
    ⟨[⟨.EOF, 4, none, 0, 0⟩, ⟨.COMMA, 5, none, 0, 0⟩], [⟨93, 3⟩]⟩,
    ⟨[⟨.EOF, -2, none, 0, 92⟩], []⟩,
    ⟨[⟨.EOF, 4, none, 0, 0⟩, ⟨.COMMA, 5, none, 0, 0⟩], [⟨93, 6⟩]⟩,
    ⟨[⟨.EOF, -1, none, 0, 93⟩], []⟩,
    ⟨[⟨.EOF, -2, none, 0, 93⟩], []⟩]

def endlessEnv : ParserEnv Unit := ⟨endlessTables, fun _ _ _ _ => (), ()⟩

theorem endless_turns (frame : ParserStack Unit) (state : frame.state = 4) (turns : Nat)
    (below : List (ParserStack Unit)) : parse endlessEnv turns ⟨frame :: below, []⟩ = none := by
  induction turns generalizing frame below with
  | zero => rfl
  | succ turns ih =>
    obtain ⟨_, token⟩ := frame
    obtain rfl := state
    exact ih ⟨4, ⟨Token.EOF.toNat, 0, 0, ⟨0, 0⟩, ()⟩⟩ rfl _

/-- The generator accepts the grammar, no token has two rows, and on a single identifier the loop
shifts end tokens without end. -/
theorem parse_endless :
    endlessGrammar.NoEmpty ∧ generate endlessGrammar 8 = .ok (endlessEnv.states, [1, 2]) ∧
      UniqueRows endlessEnv.states ∧
      ∀ turns, parse endlessEnv turns (parserInit endlessEnv [⟨.IDENT, 0, 1, ⟨0, 0⟩⟩]) = none := by
  refine ⟨by decide, by decide, by decide, fun turns => ?_⟩
  rcases turns with _ | _ | turns
  · rfl
  · rfl
  · exact endless_turns ⟨4, ⟨Token.EOF.toNat, 0, 0, ⟨0, 0⟩, ()⟩⟩ rfl turns _

end Low
