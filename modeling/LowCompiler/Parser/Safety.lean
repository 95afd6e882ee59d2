import LowCompiler.Parser.Simulation

/-!
# Safety of the parser loop

On generated tables the loop never reads past its stack or its tables, whatever
the tokens are: a reduction finds its symbols on the stack, and below them a
state with a goto row.
-/

namespace Low

variable {R V : Type} [LinearOrder R]

def currentRow (states : List ParserState) (p : Parser V) : Option ParserAction := do
  let current ← p.stack.head?
  let state ← states[current.state]?
  state.actions.find? fun action => action.token = (p.input.headD eofLexeme).token

/-- The stack has what the reduction by `action` takes from it: the symbols of a production of that
row, and below them a state with a goto row for its rule. -/
def ReductionSafe (G : Grammar R) (ruleIds : List R) (states : List ParserState) (stack : List (ParserStack V))
    (action : ParserAction) : Prop :=
  let numTokens := (-action.stateOrLength).toNat
  numTokens < stack.length ∧
  (∃ p, G.lr.Has p ∧ action = reduceRow G ruleIds action.token p ∧
    (stack.take numTokens).reverse.map (fun entry => entry.token.id) =
      (G.lr.elements p).map (symbolId ruleIds)) ∧
  ∃ base state goto, stack[numTokens]? = some base ∧ states[base.state]? = some state ∧
    goto ∈ state.gotos ∧ goto.rule = action.rule ∧ goto.state < states.length

section Safety
variable {G : Grammar R} {ruleIds : List R} {reps : Nat → List (Symbol Token R) → Prop} {env : ParserEnv V}
  {p : Parser V} {γ : List (Symbol Token R)}

theorem Drives.state_lt (drives : Drives G ruleIds env.states reps) {q : Nat} (represents : reps q γ) :
    q < env.states.length := by
  obtain ⟨s, _, found, _⟩ := drives.rows represents
  exact (List.getElem?_eq_some_iff.mp found).1

theorem Drives.currentRow (drives : Drives G ruleIds env.states reps) (spells : Spells ruleIds reps p.stack γ)
    {action : ParserAction} (row : currentRow env.states p = some action) :
    (∃ goto : Nat, action.stateOrLength = goto ∧ goto < env.states.length) ∨
      ∃ t prod, G.lr.Acts .EOF γ t (.reduce prod) ∧ action = reduceRow G ruleIds t prod := by
  obtain ⟨current, below, stack⟩ := spells.ne_nil
  obtain ⟨s, goto, found, rows⟩ := drives.rows (stack ▸ spells).top
  simp only [Low.currentRow, stack, List.head?_cons, found, Option.bind_eq_bind, Option.bind_some] at row
  rcases rows.actions.mp (List.mem_of_find?_eq_some row) with ⟨t, acts, rfl⟩ | ⟨t, prod, acts, rfl⟩
  · cases acts with
    | shift lead next => exact Or.inl ⟨_, rfl, drives.state_lt (rows.reps lead next)⟩
  · exact Or.inr ⟨t, prod, acts, rfl⟩

theorem Drives.reduction_safe (drives : Drives G ruleIds env.states reps)
    (spells : Spells ruleIds reps p.stack γ) {t : Token} {prod : Lr.Production R}
    (acts : G.lr.Acts .EOF γ t (.reduce prod)) (other : prod.rule ≠ G.root) :
    ReductionSafe G ruleIds env.states p.stack (reduceRow G ruleIds t prod) := by
  obtain ⟨top, base, rest, δ, s, next, split, _, ids, _, found, goto, reps'⟩ := drives.base spells acts other
  have count : top.length = (G.lr.elements prod).length := by
    rw [← List.length_map (f := symbolId ruleIds), ← ids, List.length_map, List.length_reverse]
  have has := (Lr.Grammar.Acts.reduce_iff.mp acts).lead.has
  unfold ReductionSafe
  simp only [reduceRow_length, Int.neg_neg, Int.toNat_natCast, reduceRow_rule other, reduceRow_token, ← count, split]
  refine ⟨by simp, ⟨prod, has, rfl, by rw [List.take_left, ids]⟩, base, s, _, ?_, found,
    List.mem_of_find?_eq_some goto, rfl, drives.state_lt reps'⟩
  rw [List.getElem?_append_right (Nat.le_refl _), Nat.sub_self, List.getElem?_cons_zero]

end Safety

section Reachable
variable [Fintype R] {G : Grammar R} {fuel : Nat} {ruleIds : List R} {env : ParserEnv V}

/-- No turn of the loop reads out of bounds. In every reachable parser all states of the stack are
rows of the tables, and so is the state that the current row goes to; a reducing row finds its
symbols and a goto. -/
theorem parse_safe (noEmpty : G.NoEmpty) (run : generate G fuel = .ok (env.states, ruleIds))
    {input : List Lexeme} {events : List (ParserEvent V)} {p : Parser V}
    (steps : Steps env (parserInit env input) events p) :
    parseStep env p ≠ .outOfBounds ∧ parseStep env p ≠ .emptyStack ∧
    (∀ entry ∈ p.stack, entry.state < env.states.length) ∧
    ∀ action, currentRow env.states p = some action →
      (0 ≤ action.stateOrLength → action.stateOrLength < env.states.length) ∧
      (action.stateOrLength < 0 → action.rule ≠ 0 → ReductionSafe G ruleIds env.states p.stack action) := by
  obtain ⟨reps, drives⟩ := generate_drives noEmpty run
  obtain ⟨_, δ, _, _, spells⟩ := drives.reachable steps
  refine ⟨?_, ?_, ?_, ?_⟩
  · intro wrong
    rcases drives.step spells with ⟨_, _, _, _, turn, _⟩ | ⟨_, turn, _⟩ | ⟨_, _, turn, _⟩ <;>
      cases wrong.symm.trans turn
  · intro wrong
    rcases drives.step spells with ⟨_, _, _, _, turn, _⟩ | ⟨_, turn, _⟩ | ⟨_, _, turn, _⟩ <;>
      cases wrong.symm.trans turn
  · intro entry member
    obtain ⟨_, represents⟩ := spells.reps_of_mem member
    exact drives.state_lt represents
  · intro action row
    rcases drives.currentRow spells row with ⟨goto, length, bound⟩ | ⟨t, prod, acts, rfl⟩
    · exact ⟨fun _ => by omega, fun negative => by omega⟩
    · have positive : 0 < (G.lr.elements prod).length :=
        elements_length_pos noEmpty (Lr.Grammar.Acts.reduce_iff.mp acts).lead.has
      refine ⟨fun nonneg => ?_, fun _ other => ?_⟩
      · rw [reduceRow_length] at nonneg
        omega
      · exact drives.reduction_safe spells acts fun accept => other (reduceRow_accept.mpr accept)

end Reachable

/-- The parser of the example after both identifiers. -/
def listShifted : Parser Nat where
  stack := [⟨4, ⟨Token.IDENT.toNat, 2, 3, ⟨0, 2⟩, 1⟩⟩, ⟨3, ⟨Token.COMMA.toNat, 1, 2, ⟨0, 1⟩, 1⟩⟩,
    ⟨1, ⟨92, 0, 1, ⟨0, 0⟩, 1⟩⟩, ⟨0, ⟨0, 0, 0, ⟨0, 0⟩, 1⟩⟩]
  input := []

theorem parse_safe_list :
    ReductionSafe listGrammar [1] listTables listShifted.stack ⟨.EOF, -3, some "reduce_list", 1, 92⟩ := by
  have steps : Steps listEnv (parserInit listEnv listInput) _ listShifted :=
    .step rfl (.step rfl (.step rfl (.step rfl (.refl _))))
  have row : currentRow listTables listShifted = some ⟨.EOF, -3, some "reduce_list", 1, 92⟩ := by decide
  exact ((parse_safe listGrammar_noEmpty listGrammar_tables steps).2.2.2 _ row).2 (by decide) (by decide)

end Low
