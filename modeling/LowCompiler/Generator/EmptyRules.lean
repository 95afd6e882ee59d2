import LowCompiler.Generator.Closure
import LowCompiler.Generator.Conflicts

/-!
# Empty variants

The driver takes a row for a reduction when its number is negative, and a reduction by an
empty variant has number 0. The only assertion about empty variants is in `gather_first`:
it sees the ones that a search for first tokens comes to, and no others.
-/

namespace Low

variable {R : Type} [LinearOrder R] [Fintype R]

/-- A rule that the root needs has an empty variant. -/
def EmptyReachable (G : Grammar R) : Prop :=
  ∃ p : Lr.Production R, G.lr.Reaches p.rule ∧ G.lr.Has p ∧ G.lr.elements p = []

/-- In a variant of a rule that the root needs, a nonterminal stands before a symbol whose first
tokens cannot be searched. -/
def FirstStops (G : Grammar R) : Prop :=
  ∃ (p : Lr.Production R) (position : Nat), G.lr.Reaches p.rule ∧ G.lr.Has p ∧ G.lr.Blocked ⟨p, position⟩

def ReduceConflict (G : Grammar R) : Prop :=
  ∃ γ c d, G.lr.Lead γ c ∧ G.lr.next c = none ∧ G.lr.Lead γ d ∧ G.lr.next d = none ∧ c ≠ d

def decidedReductions (state : State R) : List Bool := state.rows.map fun row => row.1.production.isSome

/-- Which rows of a printed state the driver takes for reductions. -/
def readReductions (table : ParserState) : List Bool := table.actions.map fun action => action.stateOrLength < 0

/-- The driver's test of the sign recovers what the generator decided. -/
def SignsDecide (G : Grammar R) : Prop :=
  ∀ fuel states tables ruleIds, parserStates G fuel = .ok states → generate G fuel = .ok (tables, ruleIds) →
    tables.map readReductions = states.map decidedReductions

/-- An assertion fails, and no table is printed. -/
def GeneratorStops (G : Grammar R) : Prop :=
  (∀ fuel out, generate G fuel ≠ .ok out) ∧
    ∃ bound, ∀ fuel, bound ≤ fuel → ∃ e, generate G fuel = .error e ∧ e ≠ .outOfFuel

section EmptyRules
variable {G : Grammar R} {fuel : Nat}

omit [LinearOrder R] [Fintype R] in
theorem firstStops_iff : FirstStops G ↔ ∃ γ c, G.lr.Lead γ c ∧ G.lr.Blocked c := by
  constructor
  · rintro ⟨p, position, reaches, has, blocked⟩
    have ⟨_, _, next, _⟩ := blocked
    have inside := (List.getElem?_eq_some_iff.mp next).1
    obtain ⟨γ, lead⟩ := Lr.Grammar.exists_lead_iff.mpr ⟨reaches, has, Nat.le_of_lt inside⟩
    exact ⟨γ, _, lead, blocked⟩
  · rintro ⟨γ, c, lead, blocked⟩
    exact ⟨c.production, c.position, lead.reaches, lead.has, blocked⟩

/-- What `gather_leads` has gone through was searched for first tokens. -/
theorem gatherLeads_unblocked {seeds out : List (Lead R)} (nonempty : seeds ≠ [])
    (run : gatherLeads G fuel seeds 0 seeds.length = .ok out) : ∀ c, HasCore out c → ¬G.lr.Blocked c := by
  rw [gatherLeads_eq G (List.length_pos_iff.mpr nonempty) (by omega)] at run
  obtain ⟨_, closed, _⟩ := Worklist.saturate_ok run (by omega) (by simp)
  rintro c ⟨l, member, rfl⟩
  obtain ⟨ys, call, _⟩ := closed l member
  exact (newLeads_ok call).2.2

theorem shiftState_unblocked {leads target : List (Lead R)} {X : Symbol Token R}
    (present : ∃ l ∈ leads, G.lr.next l.core = some X)
    (run : shiftState G fuel (leadsOn G leads (some X)) = .ok target) :
    ∀ c, HasCore target c → ¬G.lr.Blocked c := by
  unfold shiftState at run
  cases closure : gatherLeads G fuel ((leadsOn G leads (some X)).map Lead.advance) 0
      ((leadsOn G leads (some X)).map Lead.advance).length with
  | error e => rw [closure] at run; cases run
  | ok out =>
    rw [closure] at run
    obtain rfl := Except.ok.inj run
    obtain ⟨l, member, next⟩ := present
    intro c core
    refine gatherLeads_unblocked ?_ closure c (((consolidateLeads_items out).cores c).mp core)
    exact List.ne_nil_of_mem (List.mem_map_of_mem (mem_leadsOn.mpr ⟨member, next⟩))

theorem reach_unblocked {start leads : List (Lead R)} (free : ∀ c, HasCore start c → ¬G.lr.Blocked c)
    (reach : Worklist.Reach (successors G fuel) [start] leads) : ∀ c, HasCore leads c → ¬G.lr.Blocked c := by
  induction reach with
  | root member =>
    obtain rfl := List.mem_singleton.mp member
    exact free
  | step _ run member _ =>
    obtain ⟨X, present, shift⟩ := (mem_successors run).mp member
    exact shiftState_unblocked present shift

/-- When the generator finishes, every search for first tokens went through. -/
theorem parserStates_unblocked {states : List (State R)} (run : parserStates G fuel = .ok states) :
    ¬FirstStops G := by
  rw [firstStops_iff]
  rintro ⟨γ, c, lead, blocked⟩
  obtain ⟨arrays, _, complete, _, closure, root, _, reach⟩ := parserStates_collected run
  obtain ⟨q, leads, found, denotes⟩ := complete.state lead
  obtain ⟨l, member, core⟩ := denotes.lead_iff.mp lead
  refine reach_unblocked ?_ (reach leads (List.mem_of_getElem? found)) c ⟨l, member, core⟩ blocked
  intro d start
  exact gatherLeads_unblocked (List.cons_ne_nil _ _) root d (((consolidateLeads_items closure).cores d).mp start)

theorem generate_quiet {out : List ParserState × List R} (run : generate G fuel = .ok out) :
    ¬FirstStops G ∧ ¬ReduceConflict G := by
  obtain ⟨tables, ruleIds⟩ := out
  constructor
  · obtain ⟨states, call, _⟩ := generate_ok run
    exact parserStates_unblocked call
  · rintro ⟨γ, c, d, lead, complete, lead', complete', different⟩
    exact different (complete_unique_of_generate run lead complete lead' complete')

theorem generate_error {e : Abort} : generate G fuel = .error e ↔ parserStates G fuel = .error e := by
  unfold generate
  cases parserStates G fuel with
  | error e' =>
    constructor <;> intro same <;> exact congrArg _ (Except.error.inj same)
  | ok states =>
    constructor <;> intro same <;> cases same

/-- With enough fuel the generator prints tables, or one of the two conditions made it fail. -/
theorem generate_stops (G : Grammar R) : ∃ bound, ∀ fuel, bound ≤ fuel → ∀ e, generate G fuel = .error e →
    e ≠ .outOfFuel ∧ (FirstStops G ∨ ReduceConflict G) := by
  obtain ⟨bound, stops⟩ := parserStates_stops G
  refine ⟨bound, ?_⟩
  intro fuel enough e run
  rcases stops fuel enough e (generate_error.mp run) with ⟨rfl, blocked⟩ | ⟨rfl, conflict⟩
  · exact ⟨nofun, .inl (firstStops_iff.mpr blocked)⟩
  · exact ⟨nofun, .inr conflict⟩

/-- The generator stops at an assertion just when a search meets an empty variant or two leads are
complete. -/
theorem generatorStops_iff : GeneratorStops G ↔ FirstStops G ∨ ReduceConflict G := by
  obtain ⟨bound, stops⟩ := generate_stops G
  constructor
  · rintro ⟨_, bound', fails⟩
    obtain ⟨e, run, _⟩ := fails (max bound bound') (Nat.le_max_right _ _)
    exact (stops _ (Nat.le_max_left _ _) e run).2
  · intro wrong
    have never (fuel : Nat) (out : List ParserState × List R) : generate G fuel ≠ .ok out := by
      intro run
      obtain ⟨searched, single⟩ := generate_quiet run
      exact wrong.elim searched single
    refine ⟨never, bound, ?_⟩
    intro fuel enough
    cases run : generate G fuel with
    | ok out => exact absurd run (never fuel out)
    | error e => exact ⟨e, rfl, (stops fuel enough e run).1⟩

omit [Fintype R] in
/-- The number of a printed row is the number of elements to take off, negated, or the state to go to. -/
theorem actionRow_number (ruleIds : List R) (row : TokenAction R × Token) :
    (actionRow G ruleIds row).stateOrLength =
      row.1.production.elim (row.1.state : Int) fun p => -((G.lr.elements p).length : Int) := by
  unfold actionRow
  cases row.1.production with
  | none => rfl
  | some p =>
    obtain ⟨rule, variant⟩ := p
    by_cases accept : rule = G.root <;> simp [accept]

/-- Without empty variants, the numbers of the reductions are negative. -/
theorem signs_decide (full : ¬EmptyReachable G) : SignsDecide G := by
  intro fuel states tables ruleIds call run
  obtain ⟨states', call', rfl, _⟩ := generate_ok run
  obtain rfl := Except.ok.inj (call.symm.trans call')
  obtain ⟨arrays, rfl, complete⟩ := parserStates_ok call
  rw [List.map_map]
  refine List.map_congr_left ?_
  intro state member
  obtain ⟨leads, listed, rfl⟩ := List.mem_map.mp member
  obtain ⟨new, expand, _⟩ := complete.expanded leads listed
  obtain ⟨γ, denotes, _⟩ := complete.reached leads listed
  simp only [Function.comp_apply, readReductions, stateRow, List.map_map]
  refine List.map_congr_left ?_
  rintro ⟨action, t⟩ present
  simp only [Function.comp_apply, actionRow_number]
  obtain ⟨a, inside, same⟩ := List.mem_flatMap.mp present
  obtain ⟨u, _, pair⟩ := List.mem_map.mp same
  obtain ⟨rfl, rfl⟩ := Prod.mk.inj pair
  rcases (mem_filled_tokenActions expand).mp inside with ⟨l, found, _, rfl⟩ | ⟨s, _, rfl⟩
  · have lead := (denotes.covers.sound l found).1
    have some : G.lr.elements l.core.production ≠ [] := fun empty => full ⟨_, lead.reaches, lead.has, empty⟩
    have positive : 0 < (G.lr.elements ⟨l.rule, l.variant⟩).length := List.length_pos_iff.mpr some
    have negative : -((G.lr.elements ⟨l.rule, l.variant⟩).length : Int) < 0 := by omega
    exact decide_eq_true negative
  · have shift : ¬((target G fuel arrays leads (.terminal s) : Nat) : Int) < 0 := by omega
    exact decide_eq_false shift

/-- Which grammars with an empty variant are refused, and so where the signs can be trusted. -/
theorem empty_rules_iff (G : Grammar R) :
    ((EmptyReachable G → GeneratorStops G) ∧ SignsDecide G) ↔ ¬EmptyReachable G ∨ FirstStops G ∨ ReduceConflict G := by
  rw [← generatorStops_iff]
  constructor
  · rintro ⟨refused, _⟩
    by_cases empty : EmptyReachable G
    · exact .inr (refused empty)
    · exact .inl empty
  · rintro (full | stops)
    · exact ⟨fun empty => absurd empty full, signs_decide full⟩
    · refine ⟨fun _ => stops, ?_⟩
      intro fuel _ _ _ _ run
      exact absurd run (stops.1 fuel _)

end EmptyRules

/-- An empty variant at the end of a variant, where nobody looks for its first tokens: `s: IDENT a`,
`a:`. -/
def emptyTailGrammar : Grammar (Fin 3) where
  variants
    | ⟨0, _⟩ => [⟨[.nonterminal ⟨1, by decide⟩], some "0 /* accept */", 0⟩]
    | ⟨1, _⟩ => [⟨[.terminal .IDENT, .nonterminal ⟨2, by decide⟩], none, 0⟩]
    | ⟨2, _⟩ => [⟨[], none, 0⟩]
  root := ⟨0, by decide⟩
  grammarRoot := ⟨1, by decide⟩
  root_variants := rfl
  nonzero := by decide

/-- In state 2 the reduction reads as a shift to state 0. -/
def emptyTailTables : List ParserState :=
  [⟨[⟨.IDENT, 2, none, 0, 0⟩], [⟨92, 1⟩]⟩, ⟨[⟨.EOF, -1, none, 0, 0⟩], []⟩, ⟨[⟨.EOF, 0, none, 0, 93⟩], [⟨93, 3⟩]⟩,
    ⟨[⟨.EOF, -2, none, 0, 92⟩], []⟩]

theorem emptyTail_reachable : EmptyReachable emptyTailGrammar := by
  have start : emptyTailGrammar.lr.Reaches 1 := .mention (p := ⟨0, 0⟩) .root (by decide) (by decide)
  have tail : emptyTailGrammar.lr.Reaches 2 := .mention (p := ⟨1, 0⟩) start (by decide) (by decide)
  exact ⟨⟨2, 0⟩, tail, by decide, rfl⟩

/-- The generator prints tables for a grammar with an empty variant, and the driver misreads a
reduction in them. -/
theorem emptyTail_accepted :
    EmptyReachable emptyTailGrammar ∧ ¬GeneratorStops emptyTailGrammar ∧ ¬SignsDecide emptyTailGrammar := by
  have printed : generate emptyTailGrammar 6 = .ok (emptyTailTables, [1, 2]) := by decide
  have decided : (parserStates emptyTailGrammar 6).map (fun states => states.map decidedReductions) =
      .ok [[false], [true], [true], [true]] := by decide
  refine ⟨emptyTail_reachable, fun stops => stops.1 6 _ printed, ?_⟩
  intro signs
  obtain ⟨states, call, _⟩ := generate_ok printed
  rw [call] at decided
  have read := (signs 6 states _ _ call printed).trans (Except.ok.inj decided)
  exact absurd read (by decide)

end Low
