import LowCompiler.Parser.Simulation

/-!
# What the parser loop accepts

The loop accepts the sentences of the grammar and no other sequence, and its
reductions, read backwards, are a rightmost derivation. Neither the end token
nor the root may stand in a variant: either lets the accepting row be taken
before the sequence is at its end.
-/

namespace Low

variable {R V : Type} [LinearOrder R]

section Correct
variable {G : Grammar R} {ruleIds : List R} {reps : Nat → List (Symbol Token R) → Prop} {env : ParserEnv V}

/-- The loop follows a run of the machine, as the machine has no other. -/
theorem Drives.follows (drives : Drives G ruleIds env.states reps) (det : G.lr.Deterministic .EOF)
    {c d : Lr.Config Token R} {moves : List (Lr.Event Token R)} (run : G.lr.Run .EOF c moves d) :
    ∀ (p : Parser V) γ, config p γ = c → Spells ruleIds reps p.stack γ →
      ∃ events q δ, Steps env p events q ∧ config q δ = d ∧ Spells ruleIds reps q.stack δ := by
  induction run with
  | refl => exact fun p γ same spells => ⟨[], p, γ, .refl p, same, spells⟩
  | step move _ ih =>
    rintro p γ rfl spells
    rcases drives.step spells with ⟨event, next, other, δ, turn, _, moved, spells'⟩ | ⟨_, _, accepting⟩ |
      ⟨_, _, _, stuck, _⟩
    · obtain ⟨rfl, rfl⟩ := move.deterministic det moved
      obtain ⟨events, q, ζ, steps, same, spells''⟩ := ih next δ rfl spells'
      exact ⟨event :: events, q, ζ, .step turn steps, same, spells''⟩
    · exact (accepting.final det move).elim
    · obtain ⟨a, acts, _⟩ := move.act
      exact (stuck a acts).elim

theorem Drives.accepts_sentence (drives : Drives G ruleIds env.states reps) (det : G.lr.Deterministic .EOF)
    {input : List Lexeme} (sentence : G.lr.Yields [.nonterminal G.lr.root] (input.map Lexeme.token)) :
    ∃ events q result, Steps env (parserInit env input) events q ∧ parseStep env q = .accept result := by
  obtain ⟨moves, d, run, accepting⟩ := Lr.Grammar.run_of_sentence .EOF drives.noEmpty.lr sentence
  obtain ⟨events, q, δ, steps, rfl, spells⟩ := drives.follows det run (parserInit env input) [] rfl
    (drives.init input)
  rcases drives.step spells with ⟨_, _, _, _, _, _, moved, _⟩ | ⟨result, turn, _⟩ | ⟨_, _, _, stuck, _⟩
  · exact (accepting.final det moved).elim
  · exact ⟨events, q, result, steps, turn⟩
  · exact (stuck _ accepting).elim

omit [LinearOrder R] in
/-- The accepting row is taken with the start symbol alone on the stack, and at the end of the input. -/
theorem accepting_at_end (rootFree : G.RootFree) {w : List Token} {γ : List (Symbol Token R)}
    (accepting : G.lr.Accepting .EOF ⟨γ, w⟩) : γ = [.nonterminal G.grammarRoot] ∧ w.headD .EOF = .EOF := by
  obtain ⟨base, rfl, look⟩ := Lr.Grammar.Acts.reduce_base accepting
  obtain ⟨rfl, eof⟩ := look.root_only fun p has => rootFree.lr has
  exact ⟨by rw [Lr.Grammar.elements_root]; rfl, eof⟩

/-- The tokens shifted by an accepting run are the whole input, and its reductions derive them. -/
theorem Drives.accepting_run (drives : Drives G ruleIds env.states reps) (eofFree : G.EofFree)
    (rootFree : G.RootFree) {input : List Lexeme} (finite : .EOF ∉ input.map Lexeme.token)
    {events : List (ParserEvent V)} {q : Parser V} {result : V}
    (steps : Steps env (parserInit env input) events q) (accept : parseStep env q = .accept result) :
    ∃ productions, List.Forall₂ (ReducesBy G ruleIds) (reductions events) productions ∧
      G.lr.Rightmost [.nonterminal G.grammarRoot] productions.reverse
        ((input.map Lexeme.token).map .terminal) := by
  obtain ⟨moves, δ, agrees, run, spells⟩ := drives.reachable steps
  rcases drives.step spells with ⟨_, _, _, _, turn, _⟩ | ⟨_, _, accepting⟩ | ⟨_, _, turn, _⟩
  · cases accept.symm.trans turn
  · obtain ⟨rfl, eof⟩ := accepting_at_end rootFree accepting
    have read : input.map Lexeme.token = Lr.shifted moves ++ q.input.map Lexeme.token := run.input_eq eofFree.lr
    have rest : q.input.map Lexeme.token = [] := by
      rcases shape : q.input.map Lexeme.token with _ | ⟨t, _⟩
      · rfl
      · rw [shape] at eof
        obtain rfl : t = .EOF := eof
        exact absurd (read ▸ shape ▸ List.mem_append_right _ List.mem_cons_self) finite
    rw [rest, List.append_nil] at read
    exact ⟨_, reductions_of_matches agrees, by simpa [config, read] using run.rightmost⟩
  · cases accept.symm.trans turn

omit [LinearOrder R] in
/-- A rightmost derivation from the start symbol derives a sentence. -/
theorem sentence_of_rightmost {ps : List (Lr.Production R)} {w : List Token}
    (derivation : G.lr.Rightmost [.nonterminal G.grammarRoot] ps (w.map .terminal)) :
    G.lr.Yields [.nonterminal G.lr.root] w := by
  have start := Lr.Grammar.yields_of_rightmost derivation (Lr.Grammar.yields_terminals _ w)
  have root : [.nonterminal G.lr.start] ∈ G.lr.variants G.lr.root := by
    rw [G.lr.augmented]
    exact List.mem_cons_self
  simpa using Lr.Grammar.Yields.nonterminal root start .nil

end Correct

/-- The loop accepts a sequence of tokens just when it is a sentence of the grammar; the reductions of
an accepting run, read backwards, derive it rightmost. -/
theorem parse_correct [Fintype R] {G : Grammar R} (noEmpty : G.NoEmpty) (eofFree : G.EofFree)
    (rootFree : G.RootFree) {fuel : Nat} {ruleIds : List R} {env : ParserEnv V}
    (run : generate G fuel = .ok (env.states, ruleIds)) (unique : UniqueRows env.states)
    {input : List Lexeme} (finite : .EOF ∉ input.map Lexeme.token) :
    ((∃ turns result, parse env turns (parserInit env input) = some (.accept result)) ↔
      input.map Lexeme.token ∈ G.lr.cfg.language) ∧
    ∀ events q result, Steps env (parserInit env input) events q → parseStep env q = .accept result →
      ∃ productions, List.Forall₂ (ReducesBy G ruleIds) (reductions events) productions ∧
        G.lr.Rightmost [.nonterminal G.grammarRoot] productions.reverse
          ((input.map Lexeme.token).map .terminal) := by
  obtain ⟨reps, drives⟩ := generate_drives noEmpty run
  have det := deterministic_of_unique run unique
  refine ⟨?_, fun events q result => drives.accepting_run eofFree rootFree finite⟩
  rw [Lr.Grammar.mem_language_iff]
  constructor
  · rintro ⟨turns, result, accept⟩
    obtain ⟨_, events, q, steps, last⟩ := parse_eq_some.mp ⟨turns, accept⟩
    obtain ⟨_, _, derivation⟩ := drives.accepting_run eofFree rootFree finite steps last
    exact sentence_of_rightmost derivation
  · intro sentence
    obtain ⟨events, q, result, steps, last⟩ := drives.accepts_sentence det sentence
    have final : (ParserOutcome.accept result).final := trivial
    obtain ⟨turns, accept⟩ := parse_eq_some.mpr ⟨final, events, q, steps, last⟩
    exact ⟨turns, result, accept⟩

theorem parse_correct_list :
    (∃ turns result, parse listEnv turns (parserInit listEnv listInput) = some (.accept result)) ↔
      [.IDENT, .COMMA, .IDENT] ∈ listGrammar.lr.cfg.language :=
  (parse_correct listGrammar_noEmpty (by decide) (by decide) listGrammar_tables (by decide) (by decide)).1

/-! ### The end token or the root in a variant -/

def eofGrammar : Grammar (Fin 2) where
  variants rule :=
    if rule = 0 then [⟨[.nonterminal 1], some "0 /* accept */", 0⟩]
    else [⟨[.terminal .IDENT, .terminal .EOF], none, 0⟩]
  root := 0
  grammarRoot := 1
  root_variants := rfl
  nonzero := by decide

def eofEnv : ParserEnv Unit where
  states := [⟨[⟨.IDENT, 2, none, 0, 0⟩], [⟨92, 1⟩]⟩, ⟨[⟨.EOF, -1, none, 0, 0⟩], []⟩,
    ⟨[⟨.EOF, 3, none, 0, 0⟩], []⟩, ⟨[⟨.EOF, -2, none, 0, 92⟩], []⟩]
  reducer _ _ _ _ := ()
  null := ()

/-- An identifier and any number of commas, with the root in a variant. -/
def rootGrammar : Grammar (Fin 2) where
  variants rule :=
    if rule = 0 then [⟨[.nonterminal 1], some "0 /* accept */", 0⟩]
    else [⟨[.terminal .IDENT], none, 0⟩, ⟨[.nonterminal 0, .terminal .COMMA], none, 0⟩]
  root := 0
  grammarRoot := 1
  root_variants := rfl
  nonzero := by decide

def rootEnv : ParserEnv Unit where
  states := [⟨[⟨.IDENT, 2, none, 0, 0⟩], [⟨92, 1⟩, ⟨93, 3⟩]⟩,
    ⟨[⟨.EOF, -1, none, 0, 0⟩, ⟨.COMMA, -1, none, 0, 0⟩], []⟩,
    ⟨[⟨.EOF, -1, none, 0, 92⟩, ⟨.COMMA, -1, none, 0, 92⟩], []⟩, ⟨[⟨.COMMA, 4, none, 0, 0⟩], []⟩,
    ⟨[⟨.EOF, -2, none, 0, 92⟩, ⟨.COMMA, -2, none, 0, 92⟩], []⟩]
  reducer _ _ _ _ := ()
  null := ()

/-- The symbols of `α` that stand for one `t`, when every nonterminal does. -/
def standsFor (t : Token) : Symbol Token R → Bool
  | .terminal s => s = t
  | .nonterminal _ => true

omit [LinearOrder R] in
theorem count_of_yields {g : Lr.Grammar Token R} {t : Token}
    (single : ∀ rule, ∀ v ∈ g.variants rule, v.countP (standsFor t) = 1) {α : List (Symbol Token R)}
    {w : List Token} (h : g.Yields α w) : w.count t = α.countP (standsFor t) := by
  induction h with
  | nil => rfl
  | @terminal s β w _ ih => by_cases same : s = t <;> simp [standsFor, same, ih]
  | nonterminal member _ _ head tail =>
    rw [List.count_append, head, tail, single _ _ member, List.countP_cons]
    simp [standsFor, Nat.add_comm]

/-- Both grammars have tables without two rows for a token, and both loops accept a sequence that is
no sentence: the first puts the end token behind it, the second stops before its last token. -/
theorem parse_accepts_other :
    (eofGrammar.NoEmpty ∧ generate eofGrammar 6 = .ok (eofEnv.states, [1]) ∧ UniqueRows eofEnv.states ∧
      parse eofEnv 5 (parserInit eofEnv [⟨.IDENT, 0, 1, ⟨0, 0⟩⟩]) = some (.accept ()) ∧
      [.IDENT] ∉ eofGrammar.lr.cfg.language) ∧
    (rootGrammar.NoEmpty ∧ generate rootGrammar 6 = .ok (rootEnv.states, [1, 0]) ∧ UniqueRows rootEnv.states ∧
      parse rootEnv 5 (parserInit rootEnv listInput) = some (.accept ()) ∧
      listInput.map Lexeme.token ∉ rootGrammar.lr.cfg.language) := by
  refine ⟨⟨by decide, by decide, by decide, rfl, fun sentence => ?_⟩,
    ⟨by decide, by decide, by decide, rfl, fun sentence => ?_⟩⟩
  · have single : ∀ rule, ∀ v ∈ eofGrammar.lr.variants rule, v.countP (standsFor .EOF) = 1 := by decide
    have counts := count_of_yields single (Lr.Grammar.mem_language_iff.mp sentence)
    revert counts
    decide
  · have single : ∀ rule, ∀ v ∈ rootGrammar.lr.variants rule, v.countP (standsFor .IDENT) = 1 := by decide
    have counts := count_of_yields single (Lr.Grammar.mem_language_iff.mp sentence)
    revert counts
    decide

end Low
