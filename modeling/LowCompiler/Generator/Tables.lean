import LowCompiler.Generator.Automaton
import LowCompiler.Parser.States

/-!
# The printed tables

`main` of the parser generator prints one table row for every token of an
action. Rules get their numbers in the order in which they are printed first;
`printStates_eq` says that all rows use the numbers of the finished list.
-/

namespace Low

variable {R : Type} [LinearOrder R]

def assignRuleId (rule : R) (ruleIds : List R) : Nat × List R :=
  let w := ruleIds.findIdx (· = rule)
  if w < ruleIds.length then (w + MAX_TOKENS, ruleIds)
  else (ruleIds.length + 1 + MAX_TOKENS - 1, ruleIds ++ [rule])

def printAction (G : Grammar R) (row : TokenAction R × Token) (ruleIds : List R) : ParserAction × List R :=
  match row.1.production with
  | some p =>
    let variant := G.variant p.rule p.variant
    let length := variant.elements.length
    if p.rule = G.root then (⟨row.2, -length, none, 0, 0⟩, ruleIds) -- accept
    else
      let (id, ruleIds) := assignRuleId p.rule ruleIds
      (⟨row.2, -length, variant.reducer, variant.reducerTag, id⟩, ruleIds)
  | none => (⟨row.2, row.1.state, none, 0, 0⟩, ruleIds)

def printGoto (action : RuleAction R) (ruleIds : List R) : ParserGoto × List R :=
  let (id, ruleIds) := assignRuleId action.rule ruleIds
  (⟨id, action.state⟩, ruleIds)

def printEach {α β : Type} (print : α → List R → β × List R) : List α → List R → List β × List R
  | [], ruleIds => ([], ruleIds)
  | x :: xs, ruleIds =>
    let (y, ruleIds) := print x ruleIds
    let (ys, ruleIds) := printEach print xs ruleIds
    (y :: ys, ruleIds)

def printState (G : Grammar R) (state : State R) (ruleIds : List R) : ParserState × List R :=
  let rows := state.tokenActions.flatMap fun action => action.tokens.tokens.map fun t => (action, t)
  let (actions, ruleIds) := printEach (printAction G) rows ruleIds
  let (gotos, ruleIds) := printEach printGoto state.ruleActions ruleIds
  (⟨actions, gotos⟩, ruleIds)

/-- `parser_states`, as the generator prints it, and the rules in the order of their numbers. -/
def generate [Fintype R] (G : Grammar R) (fuel : Nat) :
    Except Abort (List ParserState × List R) :=
  (parserStates G fuel).map fun states => printEach (printState G) states []

/-! ### The rows under the finished numbering -/

def ruleId (ruleIds : List R) (rule : R) : Nat := ruleIds.idxOf rule + MAX_TOKENS

def actionRow (G : Grammar R) (ruleIds : List R) (row : TokenAction R × Token) : ParserAction :=
  match row.1.production with
  | some p =>
    let variant := G.variant p.rule p.variant
    if p.rule = G.root then ⟨row.2, -variant.elements.length, none, 0, 0⟩
    else ⟨row.2, -variant.elements.length, variant.reducer, variant.reducerTag, ruleId ruleIds p.rule⟩
  | none => ⟨row.2, row.1.state, none, 0, 0⟩

def gotoRow (ruleIds : List R) (action : RuleAction R) : ParserGoto :=
  ⟨ruleId ruleIds action.rule, action.state⟩

def State.rows (state : State R) : List (TokenAction R × Token) :=
  state.tokenActions.flatMap fun action => action.tokens.tokens.map fun t => (action, t)

def stateRow (G : Grammar R) (ruleIds : List R) (state : State R) : ParserState :=
  ⟨state.rows.map (actionRow G ruleIds), state.ruleActions.map (gotoRow ruleIds)⟩

/-- `print` only appends to the list of rules, puts the rules `used` into it, and prints what `row`
gives under every continuation of the list. -/
def Prints {α β : Type} (print : α → List R → β × List R) (row : List R → α → β) (used : α → List R) : Prop :=
  ∀ x ruleIds, ∃ new, (print x ruleIds).2 = ruleIds ++ new ∧ (∀ rule ∈ used x, rule ∈ ruleIds ++ new) ∧
    ∀ more, (print x ruleIds).1 = row (ruleIds ++ new ++ more) x

theorem prints_rule : Prints (R := R) assignRuleId (fun ruleIds rule => ruleId ruleIds rule) (fun rule => [rule]) := by
  intro rule ruleIds
  have search : ruleIds.findIdx (fun x => decide (x = rule)) = ruleIds.idxOf rule := rfl
  simp only [assignRuleId, search, List.mem_singleton, forall_eq]
  by_cases known : rule ∈ ruleIds
  · rw [if_pos (List.idxOf_lt_length_of_mem known)]
    refine ⟨[], by simp, by simpa using known, fun more => ?_⟩
    rw [ruleId, List.append_nil, List.idxOf_append_of_mem known]
  · rw [if_neg (by simpa [List.idxOf_lt_length_iff] using known)]
    refine ⟨[rule], rfl, by simp, fun more => ?_⟩
    rw [ruleId, List.append_assoc, List.idxOf_append, if_neg known, List.cons_append, List.idxOf_cons_self]
    omega

omit [LinearOrder R] in
theorem prints_each {α β : Type} {print : α → List R → β × List R} {row : List R → α → β} {used : α → List R}
    (each : Prints print row used) :
    Prints (printEach print) (fun ruleIds xs => xs.map (row ruleIds)) fun xs => xs.flatMap used := by
  intro xs
  induction xs with
  | nil => exact fun ruleIds => ⟨[], by simp [printEach]⟩
  | cons x xs ih =>
    intro ruleIds
    obtain ⟨new, grown, listed, value⟩ := each x ruleIds
    obtain ⟨new', grown', listed', value'⟩ := ih (ruleIds ++ new)
    refine ⟨new ++ new', ?_, ?_, fun more => ?_⟩
    · simp only [printEach, grown, grown', List.append_assoc]
    · intro rule member
      simp only [List.flatMap_cons, List.mem_append] at member
      rcases member with here | there
      · have := listed rule here
        simp only [List.mem_append] at this ⊢
        tauto
      · simpa using listed' rule there
    · simp only [printEach, grown, value' more, value (new' ++ more), List.map_cons, List.append_assoc]

theorem prints_action (G : Grammar R) : Prints (printAction G) (actionRow G) fun _ => [] := by
  rintro ⟨action, t⟩ ruleIds
  cases production : action.production with
  | none => exact ⟨[], by simp [printAction, actionRow, production]⟩
  | some p =>
    by_cases accept : p.rule = G.root
    · exact ⟨[], by simp [printAction, actionRow, production, accept]⟩
    · obtain ⟨new, grown, _, value⟩ := prints_rule p.rule ruleIds
      refine ⟨new, ?_, by simp, fun more => ?_⟩
      · simp [printAction, production, accept, grown]
      · simp [printAction, actionRow, production, accept, value more]

theorem prints_goto : Prints (R := R) printGoto gotoRow fun action => [action.rule] := by
  intro action ruleIds
  obtain ⟨new, grown, listed, value⟩ := prints_rule action.rule ruleIds
  refine ⟨new, by simp [printGoto, grown], listed, fun more => ?_⟩
  simp [printGoto, gotoRow, value more]

theorem prints_state (G : Grammar R) :
    Prints (printState G) (stateRow G) fun state => state.ruleActions.map RuleAction.rule := by
  intro state ruleIds
  obtain ⟨new, grown, _, value⟩ := prints_each (prints_action G) state.rows ruleIds
  obtain ⟨new', grown', listed, value'⟩ := prints_each prints_goto state.ruleActions (ruleIds ++ new)
  change (printEach (printAction G) (state.tokenActions.flatMap _) ruleIds).2 = _ at grown
  refine ⟨new ++ new', ?_, ?_, fun more => ?_⟩
  · simp only [printState, grown, grown', List.append_assoc]
  · intro rule member
    rw [← List.append_assoc]
    refine listed rule ?_
    simpa [eq_comm] using member
  · have actions := value (new' ++ more)
    have gotos := value' more
    simp only [State.rows] at actions
    simp only [printState, stateRow, State.rows, grown, actions, gotos, List.append_assoc]

/-- The tables hold the rows of every state under one numbering of the rules, in which every rule
with a goto has a number. -/
theorem generate_ok [Fintype R] {G : Grammar R} {fuel : Nat} {tables : List ParserState} {ruleIds : List R}
    (run : generate G fuel = .ok (tables, ruleIds)) :
    ∃ states, parserStates G fuel = .ok states ∧ tables = states.map (stateRow G ruleIds) ∧
      ∀ s ∈ states, ∀ action ∈ s.ruleActions, action.rule ∈ ruleIds := by
  unfold generate at run
  cases call : parserStates G fuel with
  | error e => rw [call] at run; cases run
  | ok states =>
    rw [call] at run
    have printed : printEach (printState G) states [] = (tables, ruleIds) := Except.ok.inj run
    obtain ⟨new, grown, listed, value⟩ := prints_each (prints_state G) states []
    rw [printed] at grown value
    obtain rfl : ruleIds = new := grown
    refine ⟨states, rfl, by simpa using value [], fun s member action inside => ?_⟩
    exact listed _ (List.mem_flatMap.mpr ⟨s, member, List.mem_map_of_mem inside⟩)

end Low
