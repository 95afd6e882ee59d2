import LowCompiler.Parser.Simulation

/-!
# Syntax errors

A syntax error is reported at the first token that no sentence has there, and
the message lists the tokens that some sentence has there.
-/

namespace Low

variable {R V : Type} [LinearOrder R] [Fintype R]

/-- Every rule derives some sequence of tokens. -/
def Grammar.Productive (G : Grammar R) : Prop :=
  ∀ rule : R, ∃ w : List Token, G.lr.cfg.Derives [.nonterminal rule] (w.map .terminal)

theorem Grammar.Productive.lr {G : Grammar R} (productive : G.Productive) : G.lr.Productive :=
  fun rule => (productive rule).imp fun _ => Lr.Grammar.yields_of_derives

/-- Some sentence, closed by the end token, starts with `w` and then `t`. -/
def Grammar.Follows (G : Grammar R) (w : List Token) (t : Token) : Prop :=
  ∃ s ∈ G.lr.cfg.language, (w ++ [t]) <+: (s ++ [.EOF])

theorem Grammar.follows_iff {G : Grammar R} {w : List Token} {t : Token} :
    G.Follows w t ↔ G.lr.Follows .EOF w t := by
  simp only [Grammar.Follows, Lr.Grammar.Follows, Lr.Grammar.mem_language_iff]

/-- At a syntax error the shifted tokens start a sentence, the current token cannot follow them, and
the expected tokens are, without repetition, those that can. -/
theorem parse_error {G : Grammar R} (noEmpty : G.NoEmpty) (productive : G.Productive) {fuel : Nat}
    {ruleIds : List R} {env : ParserEnv V} (run : generate G fuel = .ok (env.states, ruleIds))
    (unique : UniqueRows env.states) {input : List Lexeme} {events : List (ParserEvent V)} {p : Parser V}
    (steps : Steps env (parserInit env input) events p) {loc : Loc} {expected : List Token} {msg : String}
    (error : parseStep env p = .syntaxError loc expected msg) :
    (∃ s ∈ G.lr.cfg.language, shiftedTokens events <+: s) ∧
    ¬ G.Follows (shiftedTokens events) (p.input.headD eofLexeme).token ∧
    expected.Nodup ∧ (∀ t, t ∈ expected ↔ G.Follows (shiftedTokens events) t) ∧
    msg = syntaxErrorMessage expected := by
  obtain ⟨reps, drives⟩ := generate_drives noEmpty run
  have det := deterministic_of_unique run unique
  obtain ⟨moves, δ, agrees, machine, spells⟩ := drives.reachable steps
  rcases drives.step spells with ⟨_, _, _, _, turn, _⟩ | ⟨_, turn, _⟩ |
    ⟨loc', expected', turn, stuck, offered, s, member, rows⟩
  · cases error.symm.trans turn
  · cases error.symm.trans turn
  · obtain ⟨rfl, rfl, rfl⟩ := ParserOutcome.syntaxError.inj (error.symm.trans turn)
    have shifted := shifted_of_matches agrees
    have current : (config p δ).input.headD .EOF = (p.input.headD eofLexeme).token := headD_tokens p.input
    have follow := fun t => Lr.Grammar.Stuck.expected det noEmpty.lr productive.lr machine stuck t
    obtain ⟨c, lead⟩ := machine.lead ⟨_, .root⟩
    refine ⟨?_, ?_, rows ▸ unique s member, fun t => ?_, rfl⟩
    · obtain ⟨w, yields, starts⟩ := machine.shifted_viable productive.lr lead
      exact ⟨w, Lr.Grammar.mem_language_iff.mpr yields, shifted ▸ starts⟩
    · rw [Grammar.follows_iff, ← shifted, ← current]
      exact stuck.not_follows det noEmpty.lr machine
    · rw [offered t, Grammar.follows_iff, ← shifted]
      exact follow t

/-- Behind an identifier a list goes on with a comma or ends, so a second identifier is an error. -/
theorem parse_error_list :
    ¬ listGrammar.Follows [.IDENT] .IDENT ∧
      ∀ t, t ∈ [.EOF, .COMMA] ↔ listGrammar.Follows [.IDENT] t := by
  have productive : listGrammar.Productive := by
    have single : listGrammar.lr.Yields [.terminal .IDENT] [.IDENT] := .terminal .nil
    have first : [.terminal .IDENT] ∈ listGrammar.lr.variants 1 := List.mem_cons_self
    have list : listGrammar.lr.Yields [.nonterminal 1] [.IDENT] := .nonterminal first single .nil
    have top : [.nonterminal 1] ∈ listGrammar.lr.variants 0 := List.mem_cons_self
    have root : listGrammar.lr.Yields [.nonterminal 0] [.IDENT] := .nonterminal top list .nil
    intro rule
    refine ⟨[.IDENT], Lr.Grammar.derives_of_yields ?_⟩
    match rule with
    | 0 => exact root
    | 1 => exact list
  have steps : Steps listEnv (parserInit listEnv [⟨.IDENT, 0, 1, ⟨0, 0⟩⟩, ⟨.IDENT, 2, 3, ⟨0, 2⟩⟩]) _ _ :=
    .step rfl (.refl _)
  have error := parse_error listGrammar_noEmpty productive listGrammar_tables (by decide) steps rfl
  exact ⟨error.2.1, error.2.2.2.1⟩

end Low
