import LowCompiler.Generator.Conflicts
import LowCompiler.Parser.Driver
import LowCompiler.Lr.Viable
import Mathlib.Algebra.GroupWithZero.Nat

/-!
# The parser loop simulates the LR(1) machine

On the generated tables a stack of the parser spells a stack of symbols, and
every turn of the loop is a move of the machine on these symbols, an accepting
configuration, or a configuration in which the machine is stuck.
-/

namespace Low

variable {R V : Type} [LinearOrder R]

def symbolId (ruleIds : List R) : Symbol Token R → Nat
  | .terminal t => t.toNat
  | .nonterminal A => ruleId ruleIds A

/-- The tables drive the machine of the grammar, `reps` saying which stacks a state stands for. -/
structure Drives (G : Grammar R) (ruleIds : List R) (states : List ParserState)
    (reps : Nat → List (Symbol Token R) → Prop) : Prop where
  noEmpty : G.NoEmpty
  root : reps 0 []
  rows : ∀ {q γ}, reps q γ → ∃ s goto, states[q]? = some s ∧ RowsFor G ruleIds reps γ s goto

/-- The stack of the parser spells the symbols `γ`, every state being one for the symbols below. -/
inductive Spells (ruleIds : List R) (reps : Nat → List (Symbol Token R) → Prop) :
    List (ParserStack V) → List (Symbol Token R) → Prop where
  | bottom {frame : ParserStack V} : reps frame.state [] → Spells ruleIds reps [frame] []
  | push {frame : ParserStack V} {frames : List (ParserStack V)} {X : Symbol Token R}
      {γ : List (Symbol Token R)} :
      Spells ruleIds reps frames γ → reps frame.state (X :: γ) → frame.token.id = symbolId ruleIds X →
      Spells ruleIds reps (frame :: frames) (X :: γ)

/-- The parser's event does what the machine's does: it reads the same token, or reduces by a row
of the production, handing the reducer its symbols in order. -/
inductive Matches (G : Grammar R) (ruleIds : List R) : ParserEvent V → Lr.Event Token R → Prop where
  | shift (lexeme : Lexeme) : Matches G ruleIds (.shift lexeme) (.shift lexeme.token)
  | reduce {t : Token} {p : Lr.Production R} {tokens : List (StackToken V)} :
      tokens.map StackToken.id = (G.lr.elements p).map (symbolId ruleIds) →
      Matches G ruleIds (.reduce (reduceRow G ruleIds t p) tokens) (.reduce p)

def config (p : Parser V) (γ : List (Symbol Token R)) : Lr.Config Token R := ⟨γ, p.input.map Lexeme.token⟩

theorem headD_tokens (input : List Lexeme) :
    (input.map Lexeme.token).headD .EOF = (input.headD eofLexeme).token := by
  cases input <;> rfl

section Stack
variable {ruleIds : List R} {reps : Nat → List (Symbol Token R) → Prop} {frames : List (ParserStack V)}
  {frame : ParserStack V} {γ α : List (Symbol Token R)}

theorem Spells.top (h : Spells ruleIds reps (frame :: frames) γ) : reps frame.state γ := by
  cases h with
  | bottom reps => exact reps
  | push _ reps _ => exact reps

theorem Spells.ne_nil (h : Spells ruleIds reps frames γ) : ∃ frame rest, frames = frame :: rest := by
  cases h with
  | bottom => exact ⟨_, _, rfl⟩
  | push => exact ⟨_, _, rfl⟩

theorem Spells.reps_of_mem (h : Spells ruleIds reps frames γ) (member : frame ∈ frames) :
    ∃ δ, reps frame.state δ := by
  induction h with
  | bottom reps =>
    obtain rfl := List.mem_singleton.mp member
    exact ⟨_, reps⟩
  | push _ reps _ ih =>
    rcases List.mem_cons.mp member with rfl | member
    · exact ⟨_, reps⟩
    · exact ih member

/-- The entries of the top symbols, and the stack below them. -/
theorem Spells.split (h : Spells ruleIds reps frames (α ++ γ)) :
    ∃ top rest, frames = top ++ rest ∧ top.map (fun f => f.token.id) = α.map (symbolId ruleIds) ∧
      Spells ruleIds reps rest γ := by
  induction α generalizing frames with
  | nil => exact ⟨[], frames, rfl, rfl, h⟩
  | cons X α ih =>
    cases h with
    | @push frame frames _ _ below _ id =>
      obtain ⟨top, rest, rfl, ids, spells⟩ := ih below
      exact ⟨frame :: top, rest, rfl, by rw [List.map_cons, List.map_cons, id, ids], spells⟩

end Stack

section Rows
variable {G : Grammar R} {ruleIds : List R} {t : Token} {p : Lr.Production R}

@[simp] theorem reduceRow_token : (reduceRow G ruleIds t p).token = t := actionRow_token _ _

@[simp] theorem reduceRow_length : (reduceRow G ruleIds t p).stateOrLength = -(G.lr.elements p).length := by
  obtain ⟨rule, variant⟩ := p
  simp only [reduceRow, actionRow, Grammar.lr_elements]
  split <;> rfl

theorem reduceRow_accept : (reduceRow G ruleIds t p).rule = 0 ↔ p.rule = G.root := by
  simp only [reduceRow, actionRow]
  split
  · rename_i accept
    simp [accept]
  · rename_i other
    simp [other, ruleId, MAX_TOKENS]

theorem reduceRow_rule (other : p.rule ≠ G.root) : (reduceRow G ruleIds t p).rule = ruleId ruleIds p.rule := by
  simp [reduceRow, actionRow, other]

omit [LinearOrder R] in
theorem elements_length_pos (noEmpty : G.NoEmpty) (has : G.lr.Has p) : 0 < (G.lr.elements p).length :=
  List.length_pos_iff.mpr (Lr.Grammar.elements_ne_nil noEmpty.lr has)

end Rows

section Step
variable {G : Grammar R} {ruleIds : List R} {reps : Nat → List (Symbol Token R) → Prop} {env : ParserEnv V}
  {parser : Parser V} {γ : List (Symbol Token R)}

/-- Under a reduction: its symbols are on top of the stack, and the entry below them has a goto. -/
theorem Drives.base (drives : Drives G ruleIds env.states reps) {frames : List (ParserStack V)}
    (spells : Spells ruleIds reps frames γ) {t : Token} {p : Lr.Production R}
    (acts : G.lr.Acts .EOF γ t (.reduce p)) (other : p.rule ≠ G.root) :
    ∃ top base rest δ s next, frames = top ++ base :: rest ∧ γ = (G.lr.elements p).reverse ++ δ ∧
      top.reverse.map (fun f => f.token.id) = (G.lr.elements p).map (symbolId ruleIds) ∧
      Spells ruleIds reps (base :: rest) δ ∧ env.states[base.state]? = some s ∧
      s.gotos.find? (fun row => row.rule = ruleId ruleIds p.rule) = some ⟨ruleId ruleIds p.rule, next⟩ ∧
      reps next (.nonterminal p.rule :: δ) := by
  obtain ⟨δ, rfl, look⟩ := acts.reduce_base
  obtain ⟨top, below, rfl, ids, spells⟩ := spells.split
  obtain ⟨base, rest, rfl⟩ := spells.ne_nil
  obtain ⟨s, goto, found, rows⟩ := drives.rows spells.top
  rcases look.lead.waiting with ⟨_, rfl⟩ | ⟨c, lead, next⟩
  · exact absurd rfl other
  · refine ⟨top, base, rest, δ, s, _, rfl, rfl, ?_, spells, found, rows.gotos lead next, rows.reps lead next⟩
    rw [List.map_reverse, ids, ← List.map_reverse, List.reverse_reverse]

theorem Drives.reduceStep (drives : Drives G ruleIds env.states reps) (current : ParserStack V)
    (spells : Spells ruleIds reps parser.stack γ) {t : Token} {p : Lr.Production R}
    (acts : G.lr.Acts .EOF γ t (.reduce p)) (other : p.rule ≠ G.root) :
    ∃ tokens frames δ, reduceStep env parser current (reduceRow G ruleIds t p) =
        .next (.reduce (reduceRow G ruleIds t p) tokens) { parser with stack := frames } ∧
      tokens.map StackToken.id = (G.lr.elements p).map (symbolId ruleIds) ∧
      γ = (G.lr.elements p).reverse ++ δ ∧ Spells ruleIds reps frames (.nonterminal p.rule :: δ) := by
  obtain ⟨top, base, rest, δ, s, next, split, rfl, ids, spells', found, goto, reps'⟩ :=
    drives.base spells acts other
  have count := congrArg List.length ids
  simp only [List.length_map, List.length_reverse] at count
  have positive : 0 < (G.lr.elements p).length :=
    elements_length_pos drives.noEmpty (Lr.Grammar.Acts.reduce_iff.mp acts).lead.has
  obtain ⟨last, target, rfl⟩ : ∃ last target, top = last ++ [target] := by
    rcases List.eq_nil_or_concat' top with rfl | shape
    · simp at count
      omega
    · exact shape
  have atTarget : parser.stack[(G.lr.elements p).length - 1]? = some target := by
    rw [split, ← count]
    simp
  have atBase : parser.stack[(G.lr.elements p).length]? = some base := by
    rw [split, ← count, List.getElem?_append_right (Nat.le_refl _), Nat.sub_self, List.getElem?_cons_zero]
  have popped : parser.stack.drop (G.lr.elements p).length = base :: rest := by
    rw [split, ← count, List.drop_left]
  have taken : parser.stack.take (G.lr.elements p).length = last ++ [target] := by
    rw [split, ← count, List.take_left]
  have tokens : ((last ++ [target]).reverse.map ParserStack.token).map StackToken.id =
      (G.lr.elements p).map (symbolId ruleIds) := by
    rw [List.map_map]
    exact ids
  refine ⟨(last ++ [target]).reverse.map ParserStack.token, ⟨next, reducedToken env (reduceRow G ruleIds t p)
    target.token current.token ((last ++ [target]).reverse.map ParserStack.token)⟩ :: base :: rest, δ, ?_,
    tokens, rfl, .push spells' reps' ?_⟩
  · unfold Low.reduceStep
    simp only [reduceRow_length, Int.neg_neg, Int.toNat_natCast, atTarget, atBase, found, popped, taken,
      reduceRow_rule other, goto]
  · rw [reducedToken_id, reduceRow_rule other]
    rfl

/-- One turn of the loop is one move of the machine, or both stop. -/
theorem Drives.step (drives : Drives G ruleIds env.states reps) (spells : Spells ruleIds reps parser.stack γ) :
    (∃ event next move δ, parseStep env parser = .next event next ∧ Matches G ruleIds event move ∧
      G.lr.Move .EOF (config parser γ) move (config next δ) ∧ Spells ruleIds reps next.stack δ) ∨
    (∃ result, parseStep env parser = .accept result ∧ G.lr.Accepting .EOF (config parser γ)) ∨
    ∃ loc expected, parseStep env parser = .syntaxError loc expected (syntaxErrorMessage expected) ∧
      G.lr.Stuck .EOF (config parser γ) ∧ (∀ t, t ∈ expected ↔ ∃ a, G.lr.Acts .EOF γ t a) ∧
      ∃ s ∈ env.states, expected = s.actions.map ParserAction.token := by
  obtain ⟨current, below, stack⟩ := spells.ne_nil
  obtain ⟨s, goto, found, rows⟩ := drives.rows (stack ▸ spells).top
  have head := headD_tokens parser.input
  unfold parseStep
  simp only [stack, found]
  cases search : s.actions.find? (fun row => decide (row.token = (parser.input.headD eofLexeme).token)) with
  | none =>
    refine Or.inr (Or.inr ⟨_, _, rfl, ?_, ?_, s, List.mem_of_getElem? found, rfl⟩)
    · intro a acts
      have none := List.find?_eq_none.mp search
      simp only [config, head] at acts
      cases a with
      | shift => exact none _ (rows.actions.mpr (Or.inl ⟨_, acts, rfl⟩)) (by simp [shiftRow])
      | reduce p => exact none _ (rows.actions.mpr (Or.inr ⟨_, p, acts, rfl⟩)) (by simp)
    · intro t
      rw [List.mem_map]
      constructor
      · rintro ⟨row, member, rfl⟩
        rcases rows.actions.mp member with ⟨t, acts, rfl⟩ | ⟨t, p, acts, rfl⟩
        · exact ⟨_, acts⟩
        · exact ⟨_, by simpa using acts⟩
      · rintro ⟨a, acts⟩
        cases a with
        | shift => exact ⟨_, rows.actions.mpr (Or.inl ⟨t, acts, rfl⟩), rfl⟩
        | reduce p => exact ⟨_, rows.actions.mpr (Or.inr ⟨t, p, acts, rfl⟩), reduceRow_token⟩
  | some row =>
    have token : row.token = (parser.input.headD eofLexeme).token := by simpa using List.find?_some search
    rcases rows.actions.mp (List.mem_of_find?_eq_some search) with ⟨t, acts, rfl⟩ | ⟨t, p, acts, rfl⟩
    · -- A shift row holds a state, which is not negative.
      obtain rfl : t = _ := token
      have nonneg : ¬ ((goto (.terminal (parser.input.headD eofLexeme).token) : Int) < 0) := by omega
      have move : G.lr.Move .EOF ⟨γ, parser.input.map Lexeme.token⟩ _ _ := .shift (by rw [head]; exact acts)
      rw [head, ← List.map_tail] at move
      simp only [shiftRow, if_neg nonneg]
      cases acts with
      | shift lead next =>
        exact Or.inl ⟨_, _, _, _, rfl, .shift _, move, .push (stack ▸ spells) (rows.reps lead next) rfl⟩
    · obtain rfl : t = _ := reduceRow_token.symm.trans token
      have lead := (Lr.Grammar.Acts.reduce_iff.mp acts).lead
      have negative : -((G.lr.elements p).length : Int) < 0 := by
        have positive : 0 < (G.lr.elements p).length := elements_length_pos drives.noEmpty lead.has
        omega
      simp only [reduceRow_length, if_pos negative, reduceRow_accept]
      by_cases accept : p.rule = G.root
      · obtain ⟨rule, variant⟩ := p
        obtain rfl : rule = G.root := accept
        obtain rfl : variant = 0 := Lr.Grammar.has_root_iff.mp lead.has
        rw [if_pos rfl]
        refine Or.inr (Or.inl ⟨_, rfl, ?_⟩)
        simp only [Lr.Grammar.Accepting, config, head]
        exact acts
      · obtain ⟨tokens, frames, δ, run, ids, rfl, spells'⟩ := drives.reduceStep current spells acts accept
        have move : G.lr.Move .EOF ⟨_, parser.input.map Lexeme.token⟩ _ _ :=
          .reduce accept (by rw [head]; exact acts)
        rw [if_neg accept, run]
        exact Or.inl ⟨_, _, _, _, rfl, .reduce ids, move, spells'⟩

end Step

/-! ### Runs -/

section Runs
variable {G : Grammar R} {ruleIds : List R} {reps : Nat → List (Symbol Token R) → Prop} {env : ParserEnv V}
  {p q : Parser V} {γ : List (Symbol Token R)}

theorem Drives.run (drives : Drives G ruleIds env.states reps) {events : List (ParserEvent V)}
    (steps : Steps env p events q) (spells : Spells ruleIds reps p.stack γ) :
    ∃ moves δ, List.Forall₂ (Matches G ruleIds) events moves ∧
      G.lr.Run .EOF (config p γ) moves (config q δ) ∧ Spells ruleIds reps q.stack δ := by
  induction steps generalizing γ with
  | refl p => exact ⟨[], γ, .nil, .refl _, spells⟩
  | step turn _ ih =>
    rcases drives.step spells with ⟨event, next, move, δ, run, agrees, moved, spells'⟩ | ⟨_, run, _⟩ | ⟨_, _, run, _⟩
    · obtain ⟨rfl, rfl⟩ := ParserOutcome.next.inj (turn.symm.trans run)
      obtain ⟨moves, ζ, rest, tail, spells''⟩ := ih spells'
      exact ⟨move :: moves, ζ, .cons agrees rest, .step moved tail, spells''⟩
    · cases turn.symm.trans run
    · cases turn.symm.trans run

theorem shifted_of_matches {events : List (ParserEvent V)} {moves : List (Lr.Event Token R)}
    (h : List.Forall₂ (Matches G ruleIds) events moves) : Lr.shifted moves = shiftedTokens events := by
  induction h with
  | nil => rfl
  | cons agrees _ ih =>
    cases agrees with
    | shift lexeme => simp only [Lr.shifted, shiftedTokens, ih]
    | reduce => simpa only [Lr.shifted, shiftedTokens] using ih

/-- A reduction of the parser is one by the production: its row, and tokens for all of its symbols. -/
def ReducesBy (G : Grammar R) (ruleIds : List R) (reduction : ParserAction × List (StackToken V))
    (p : Lr.Production R) : Prop :=
  reduction.1 = reduceRow G ruleIds reduction.1.token p ∧
    reduction.2.map StackToken.id = (G.lr.elements p).map (symbolId ruleIds)

theorem reductions_of_matches {events : List (ParserEvent V)} {moves : List (Lr.Event Token R)}
    (h : List.Forall₂ (Matches G ruleIds) events moves) :
    List.Forall₂ (ReducesBy G ruleIds) (reductions events) (Lr.reductions moves) := by
  induction h with
  | nil => exact .nil
  | cons agrees _ ih =>
    cases agrees with
    | shift lexeme => exact ih
    | reduce ids => exact .cons ⟨by rw [reduceRow_token], ids⟩ ih

theorem Drives.init (drives : Drives G ruleIds env.states reps) (input : List Lexeme) :
    Spells ruleIds reps (parserInit env input).stack [] := .bottom drives.root

theorem Drives.reachable (drives : Drives G ruleIds env.states reps) {input : List Lexeme}
    {events : List (ParserEvent V)} (steps : Steps env (parserInit env input) events q) :
    ∃ moves δ, List.Forall₂ (Matches G ruleIds) events moves ∧
      G.lr.Run .EOF ⟨[], input.map Lexeme.token⟩ moves (config q δ) ∧ Spells ruleIds reps q.stack δ :=
  drives.run steps (drives.init input)

end Runs

/-! ### Tables without two rows for one token -/

section Unique
variable [Fintype R] {G : Grammar R} {fuel : Nat} {tables : List ParserState} {ruleIds : List R}

theorem generate_drives (noEmpty : G.NoEmpty) (run : generate G fuel = .ok (tables, ruleIds)) :
    ∃ reps, Drives G ruleIds tables reps := by
  obtain ⟨reps, root, rows, _⟩ := generate_rows run
  exact ⟨reps, noEmpty, root, fun {q γ} => rows q γ⟩

/-- Tables without two rows for one token leave the machine no choice. -/
theorem deterministic_of_unique (run : generate G fuel = .ok (tables, ruleIds))
    (unique : UniqueRows tables) : G.lr.Deterministic .EOF := by
  obtain ⟨reps, _, rows, _, covered⟩ := generate_rows run
  intro γ t a b left right
  obtain ⟨c, lead⟩ := left.nonempty
  obtain ⟨q, represents⟩ := covered γ c lead
  obtain ⟨s, goto, found, rows⟩ := rows q γ represents
  have free := rows.nodup.mp (unique s (List.mem_of_getElem? found))
  cases a with
  | shift =>
    cases b with
    | shift => rfl
    | reduce p => exact absurd right (free t p left)
  | reduce p =>
    cases b with
    | shift => exact absurd left (free t p right)
    | reduce p' => rw [rows.reduce left right]

end Unique

def listGrammar : Grammar (Fin 2) where
  variants rule :=
    if rule = 0 then [⟨[.nonterminal 1], some "0 /* accept */", 0⟩]
    else [⟨[.terminal .IDENT], none, 0⟩,
      ⟨[.nonterminal 1, .terminal .COMMA, .terminal .IDENT], some "reduce_list", 1⟩]
  root := 0
  grammarRoot := 1
  root_variants := rfl
  nonzero := by decide

theorem listGrammar_noEmpty : listGrammar.NoEmpty := by decide

def listTables : List ParserState :=
  [⟨[⟨.IDENT, 2, none, 0, 0⟩], [⟨92, 1⟩]⟩,
    ⟨[⟨.EOF, -1, none, 0, 0⟩, ⟨.COMMA, 3, none, 0, 0⟩], []⟩,
    ⟨[⟨.EOF, -1, none, 0, 92⟩, ⟨.COMMA, -1, none, 0, 92⟩], []⟩,
    ⟨[⟨.IDENT, 4, none, 0, 0⟩], []⟩,
    ⟨[⟨.EOF, -3, some "reduce_list", 1, 92⟩, ⟨.COMMA, -3, some "reduce_list", 1, 92⟩], []⟩]

theorem listGrammar_tables : generate listGrammar 5 = .ok (listTables, [1]) := by decide

/-- The value of an entry is the number of identifiers below it. -/
def listEnv : ParserEnv Nat where
  states := listTables
  reducer _ _ tokens _ := (tokens.map StackToken.value).sum
  null := 1

def listInput : List Lexeme :=
  [⟨.IDENT, 0, 1, ⟨0, 0⟩⟩, ⟨.COMMA, 1, 2, ⟨0, 1⟩⟩, ⟨.IDENT, 2, 3, ⟨0, 2⟩⟩]

end Low
