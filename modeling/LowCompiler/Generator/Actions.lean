import LowCompiler.Generator.Tables

/-!
# The rows of a state as actions

Over the stacks that a state stands for, its token rows are the actions that
the leads offer, its goto rows the nonterminals that they wait for. A token
has two rows just when one lead shifts it and another reduces on it.
-/

namespace Low

variable {R : Type} [LinearOrder R] [Fintype R]

def symbolTokenActions (G : Grammar R) (fuel : Nat) (arrays : List (List (Lead R))) (leads : List (Lead R)) :
    Option (Symbol Token R) → List (TokenAction R)
  | none => (leadsOn G leads none).map reduceAction
  | some (.terminal t) => [⟨tokenSetInsert tokenSetInit t, none, target G fuel arrays leads (.terminal t)⟩]
  | some (.nonterminal _) => []

def symbolRuleActions (G : Grammar R) (fuel : Nat) (arrays : List (List (Lead R))) (leads : List (Lead R)) :
    Option (Symbol Token R) → List (RuleAction R)
  | some (.nonterminal A) => [⟨A, target G fuel arrays leads (.nonterminal A)⟩]
  | _ => []

/-- The symbols after the dots of a state, in the order of its groups. -/
def symbolsAfter (G : Grammar R) (leads : List (Lead R)) : List (Option (Symbol Token R)) :=
  (groupLeads G leads []).map Prod.fst

section Rows
variable {G : Grammar R} {fuel : Nat} {arrays : List (List (Lead R))} {leads : List (Lead R)}
  {new : List (List (Lead R))}

omit [Fintype R] in
theorem mem_symbolsAfter {symbol : Option (Symbol Token R)} :
    symbol ∈ symbolsAfter G leads ↔ ∃ l ∈ leads, G.lr.next l.core = symbol := by
  constructor
  · intro member
    obtain ⟨⟨_, g⟩, present, rfl⟩ := List.mem_map.mp member
    exact (mem_groupLeads.mp present).2
  · intro present
    exact List.mem_map.mpr ⟨(symbol, leadsOn G leads symbol), mem_groupLeads.mpr ⟨rfl, present⟩, rfl⟩

theorem addGroup_actions (arrays : List (List (Lead R))) (run : successors G fuel leads = .ok new) {group : Group R}
    (member : group ∈ groupLeads G leads []) (s : State R) :
    (s.addGroup G fuel arrays group).tokenActions =
        s.tokenActions ++ symbolTokenActions G fuel arrays leads group.1 ∧
      (s.addGroup G fuel arrays group).ruleActions =
        s.ruleActions ++ symbolRuleActions G fuel arrays leads group.1 := by
  obtain ⟨symbol, g⟩ := group
  obtain ⟨rfl, l, present, next⟩ := mem_groupLeads.mp member
  cases symbol with
  | none => simp [State.addGroup, symbolTokenActions, symbolRuleActions]
  | some X =>
    obtain ⟨closure, shift⟩ := successors_shift run present next
    cases X <;>
      simp [State.addGroup, shift, State.addSymbolAction, State.addTokenAction, State.addRuleAction,
        symbolTokenActions, symbolRuleActions, target]

theorem filled_actions (run : successors G fuel leads = .ok new) :
    (filled G fuel arrays leads).tokenActions =
        (symbolsAfter G leads).flatMap (symbolTokenActions G fuel arrays leads) ∧
      (filled G fuel arrays leads).ruleActions =
        (symbolsAfter G leads).flatMap (symbolRuleActions G fuel arrays leads) := by
  have fold : ∀ groups : List (Group R), groups ⊆ groupLeads G leads [] → ∀ s : State R,
      (groups.foldl (State.addGroup G fuel arrays) s).tokenActions =
          s.tokenActions ++ (groups.map Prod.fst).flatMap (symbolTokenActions G fuel arrays leads) ∧
        (groups.foldl (State.addGroup G fuel arrays) s).ruleActions =
          s.ruleActions ++ (groups.map Prod.fst).flatMap (symbolRuleActions G fuel arrays leads) := by
    intro groups
    induction groups with
    | nil => simp
    | cons g groups ih =>
      intro inside s
      obtain ⟨tokens, rules⟩ := ih (fun _ member => inside (List.mem_cons_of_mem _ member))
        (s.addGroup G fuel arrays g)
      obtain ⟨tokens', rules'⟩ := addGroup_actions arrays run (inside List.mem_cons_self) s
      simp only [List.foldl_cons, List.map_cons, List.flatMap_cons, tokens, rules, tokens', rules',
        List.append_assoc, and_self]
  exact fold _ (List.Subset.refl _) (State.new leads)

theorem mem_filled_tokenActions (run : successors G fuel leads = .ok new) {a : TokenAction R} :
    a ∈ (filled G fuel arrays leads).tokenActions ↔
      (∃ l ∈ leads, G.lr.next l.core = none ∧ a = reduceAction l) ∨
      ∃ t, (∃ l ∈ leads, G.lr.next l.core = some (.terminal t)) ∧
        a = ⟨tokenSetInsert tokenSetInit t, none, target G fuel arrays leads (.terminal t)⟩ := by
  rw [(filled_actions run).1, List.mem_flatMap]
  constructor
  · rintro ⟨symbol, member, inside⟩
    rcases symbol with _ | t | A
    · obtain ⟨l, present, rfl⟩ := List.mem_map.mp inside
      exact Or.inl ⟨l, (mem_leadsOn.mp present).1, (mem_leadsOn.mp present).2, rfl⟩
    · exact Or.inr ⟨t, mem_symbolsAfter.mp member, List.mem_singleton.mp inside⟩
    · cases inside
  · rintro (⟨l, member, next, rfl⟩ | ⟨t, present, rfl⟩)
    · exact ⟨none, mem_symbolsAfter.mpr ⟨l, member, next⟩,
        List.mem_map_of_mem (mem_leadsOn.mpr ⟨member, next⟩)⟩
    · exact ⟨some (.terminal t), mem_symbolsAfter.mpr present, List.mem_cons_self⟩

theorem mem_filled_ruleActions (run : successors G fuel leads = .ok new) {a : RuleAction R} :
    a ∈ (filled G fuel arrays leads).ruleActions ↔
      (∃ l ∈ leads, G.lr.next l.core = some (.nonterminal a.rule)) ∧
        a.state = target G fuel arrays leads (.nonterminal a.rule) := by
  rw [(filled_actions run).2, List.mem_flatMap]
  constructor
  · rintro ⟨symbol, member, inside⟩
    rcases symbol with _ | t | A
    · cases inside
    · cases inside
    · obtain rfl := List.mem_singleton.mp inside
      exact ⟨mem_symbolsAfter.mp member, rfl⟩
  · rintro ⟨present, state⟩
    refine ⟨some (.nonterminal a.rule), mem_symbolsAfter.mpr present, ?_⟩
    obtain ⟨A, q⟩ := a
    exact List.mem_singleton.mpr (congrArg (RuleAction.mk A) state)

/-! ### Rows as actions -/

def shiftRow (t : Token) (state : Nat) : ParserAction := ⟨t, state, none, 0, 0⟩

def reduceRow (G : Grammar R) (ruleIds : List R) (t : Token) (p : Lr.Production R) : ParserAction :=
  actionRow G ruleIds (⟨tokenSetInit, some p, 0⟩, t)

omit [Fintype R] in
theorem actionRow_token (ruleIds : List R) (row : TokenAction R × Token) :
    (actionRow G ruleIds row).token = row.2 := by
  unfold actionRow
  cases row.1.production with
  | none => rfl
  | some p => by_cases accept : p.rule = G.root <;> simp [accept]

variable {γ : List (Symbol Token R)} {ruleIds : List R}

theorem mem_actions (denotes : Denotes G leads γ) (run : successors G fuel leads = .ok new)
    {row : ParserAction} :
    row ∈ (stateRow G ruleIds (filled G fuel arrays leads)).actions ↔
      (∃ t, G.lr.Acts .EOF γ t .shift ∧ row = shiftRow t (target G fuel arrays leads (.terminal t))) ∨
      ∃ t p, G.lr.Acts .EOF γ t (.reduce p) ∧ row = reduceRow G ruleIds t p := by
  simp only [stateRow, List.mem_map, State.rows, List.mem_flatMap]
  constructor
  · rintro ⟨_, ⟨a, member, t, present, rfl⟩, rfl⟩
    have inside := TokenSet.mem_tokens.mp present
    rcases (mem_filled_tokenActions run).mp member with ⟨l, listed, next, rfl⟩ | ⟨s, ⟨l, listed, next⟩, rfl⟩
    · exact Or.inr ⟨t, l.core.production, .reduce ((denotes.covers.sound l listed).2 t inside) next, rfl⟩
    · obtain rfl : t = s := by simpa using inside
      exact Or.inl ⟨t, .shift (denotes.covers.sound l listed).1 next, rfl⟩
  · rintro (⟨t, acts, rfl⟩ | ⟨t, p, acts, rfl⟩)
    · cases acts with
      | shift lead next =>
        obtain ⟨l, listed, rfl⟩ := denotes.lead_iff.mp lead
        exact ⟨_, ⟨_, (mem_filled_tokenActions run).mpr (Or.inr ⟨t, ⟨l, listed, next⟩, rfl⟩), t,
          TokenSet.mem_tokens.mpr (by simp), rfl⟩, rfl⟩
    · generalize action : Lr.Action.reduce p = a at acts
      cases acts with
      | shift => cases action
      | reduce look next =>
        obtain rfl := Lr.Action.reduce.inj action
        obtain ⟨l, listed, rfl, inside⟩ := denotes.covers.look _ t look
        exact ⟨_, ⟨_, (mem_filled_tokenActions run).mpr (Or.inl ⟨l, listed, next, rfl⟩), t,
          TokenSet.mem_tokens.mpr inside, rfl⟩, rfl⟩

theorem mem_gotos (denotes : Denotes G leads γ) (run : successors G fuel leads = .ok new) {row : ParserGoto} :
    row ∈ (stateRow G ruleIds (filled G fuel arrays leads)).gotos ↔
      ∃ A, (∃ c, G.lr.Lead γ c ∧ G.lr.next c = some (.nonterminal A)) ∧
        row = ⟨ruleId ruleIds A, target G fuel arrays leads (.nonterminal A)⟩ := by
  simp only [stateRow, List.mem_map]
  constructor
  · rintro ⟨a, member, rfl⟩
    obtain ⟨⟨l, listed, next⟩, state⟩ := (mem_filled_ruleActions run).mp member
    exact ⟨a.rule, ⟨l.core, (denotes.covers.sound l listed).1, next⟩, by rw [← state]; rfl⟩
  · rintro ⟨A, ⟨c, lead, next⟩, rfl⟩
    obtain ⟨l, listed, rfl⟩ := denotes.lead_iff.mp lead
    exact ⟨⟨A, _⟩, (mem_filled_ruleActions run).mpr ⟨⟨l, listed, next⟩, rfl⟩, rfl⟩

/-! ### Conflicts -/

def symbolTokens (G : Grammar R) (leads : List (Lead R)) : Option (Symbol Token R) → List Token
  | none => (leadsOn G leads none).flatMap fun l => l.terminals.tokens
  | some (.terminal t) => [t]
  | some (.nonterminal _) => []

theorem actions_tokens (run : successors G fuel leads = .ok new) :
    (stateRow G ruleIds (filled G fuel arrays leads)).actions.map ParserAction.token =
      (symbolsAfter G leads).flatMap (symbolTokens G leads) := by
  have rows : ∀ s : State R, (s.rows.map (actionRow G ruleIds)).map ParserAction.token =
      s.tokenActions.flatMap fun a => a.tokens.tokens := by
    intro s
    simp only [State.rows, List.map_map, List.map_flatMap]
    refine congrArg (fun f => List.flatMap f s.tokenActions) (funext fun a => ?_)
    refine (List.map_congr_left fun t _ => ?_).trans (List.map_id _)
    exact actionRow_token ruleIds (a, t)
  simp only [stateRow]
  rw [rows, (filled_actions run).1, List.flatMap_assoc]
  refine congrArg (fun f => List.flatMap f (symbolsAfter G leads)) (funext fun symbol => ?_)
  rcases symbol with _ | t | A
  · simp only [symbolTokenActions, symbolTokens, List.flatMap_map]
    rfl
  · simp [symbolTokenActions, symbolTokens]
  · rfl

omit [Fintype R] in
theorem mem_symbolTokens_none (denotes : Denotes G leads γ) {t : Token} :
    t ∈ symbolTokens G leads none ↔ ∃ p, G.lr.Acts .EOF γ t (.reduce p) := by
  simp only [symbolTokens, List.mem_flatMap, TokenSet.mem_tokens]
  constructor
  · rintro ⟨l, member, inside⟩
    obtain ⟨listed, next⟩ := mem_leadsOn.mp member
    exact ⟨_, .reduce ((denotes.covers.sound l listed).2 t inside) next⟩
  · rintro ⟨p, acts⟩
    obtain ⟨l, listed, core, inside⟩ := denotes.covers.look _ t (Lr.Grammar.Acts.reduce_iff.mp acts)
    exact ⟨l, mem_leadsOn.mpr ⟨listed, core ▸ Lr.Grammar.next_eq_none.mpr (Nat.le_refl _)⟩, inside⟩

/-- A token has two rows just when one lead shifts it and another reduces on it. -/
theorem tokens_nodup_iff (denotes : Denotes G leads γ) (run : successors G fuel leads = .ok new) :
    ((stateRow G ruleIds (filled G fuel arrays leads)).actions.map ParserAction.token).Nodup ↔
      ∀ t p, G.lr.Acts .EOF γ t .shift → ¬ G.lr.Acts .EOF γ t (.reduce p) := by
  rw [actions_tokens run, List.nodup_flatMap]
  have shift : ∀ t, some (.terminal t) ∈ symbolsAfter G leads ↔ G.lr.Acts .EOF γ t .shift := by
    intro t
    rw [mem_symbolsAfter]
    constructor
    · rintro ⟨l, listed, next⟩
      exact .shift (denotes.covers.sound l listed).1 next
    · rintro ⟨lead, next⟩
      obtain ⟨l, listed, rfl⟩ := denotes.lead_iff.mp lead
      exact ⟨l, listed, next⟩
  constructor
  · rintro ⟨_, apart⟩ t p shifts reduces
    have left := (shift t).mpr shifts
    have right := (mem_symbolTokens_none denotes).mpr ⟨p, reduces⟩
    obtain ⟨l, member, _⟩ := List.mem_flatMap.mp right
    have listed : none ∈ symbolsAfter G leads :=
      mem_symbolsAfter.mpr ⟨l, (mem_leadsOn.mp member).1, (mem_leadsOn.mp member).2⟩
    have symm : Std.Symm (Function.onFun List.Disjoint (symbolTokens G leads)) := ⟨fun _ _ h => h.symm⟩
    exact apart.forall left listed (by simp) (List.mem_singleton_self t) right
  · intro free
    constructor
    · intro symbol _
      rcases symbol with _ | t | A
      · -- A single complete lead has each of its lookaheads once.
        rcases leads_eq : leadsOn G leads none with _ | ⟨l, _ | ⟨l', rest⟩⟩
        · simp [symbolTokens, leads_eq]
        · simpa [symbolTokens, leads_eq] using TokenSet.tokens_nodup l.terminals
        · have single := successors_complete run
          rw [leads_eq] at single
          simp at single
      · exact List.nodup_singleton t
      · exact List.nodup_nil
    · refine groupLeads_nodup.imp_of_mem fun {a b} inA inB different t left right => ?_
      have clash : ∀ s, some (.terminal s) ∈ symbolsAfter G leads → s ∉ symbolTokens G leads none := by
        intro s member inside
        obtain ⟨p, reduces⟩ := (mem_symbolTokens_none denotes).mp inside
        exact free s p ((shift s).mp member) reduces
      rcases a with _ | s | A <;> rcases b with _ | u | B
      · exact different rfl
      · obtain rfl := List.mem_singleton.mp right
        exact clash _ inB left
      · cases right
      · obtain rfl := List.mem_singleton.mp left
        exact clash _ inA right
      · obtain rfl := List.mem_singleton.mp left
        obtain rfl := List.mem_singleton.mp right
        exact different rfl
      · cases right
      · cases left
      · cases left
      · cases left

/-! ### The tables of a finished generation -/

/-- The rows of `s` are right for the stack `γ`, where `goto` gives the states of the longer stacks. -/
structure RowsFor (G : Grammar R) (ruleIds : List R) (reps : Nat → List (Symbol Token R) → Prop)
    (γ : List (Symbol Token R)) (s : ParserState) (goto : Symbol Token R → Nat) : Prop where
  reps : ∀ {X c}, G.lr.Lead γ c → G.lr.next c = some X → reps (goto X) (X :: γ)
  actions : ∀ {row}, row ∈ s.actions ↔
    (∃ t, G.lr.Acts .EOF γ t .shift ∧ row = shiftRow t (goto (.terminal t))) ∨
    ∃ t p, G.lr.Acts .EOF γ t (.reduce p) ∧ row = reduceRow G ruleIds t p
  gotos : ∀ {A c}, G.lr.Lead γ c → G.lr.next c = some (.nonterminal A) →
    s.gotos.find? (fun row => row.rule = ruleId ruleIds A) =
      some ⟨ruleId ruleIds A, goto (.nonterminal A)⟩
  reduce : ∀ {t u p p'}, G.lr.Acts .EOF γ t (.reduce p) → G.lr.Acts .EOF γ u (.reduce p') → p = p'
  nodup : (s.actions.map ParserAction.token).Nodup ↔
    ∀ t p, G.lr.Acts .EOF γ t .shift → ¬ G.lr.Acts .EOF γ t (.reduce p)

omit [Fintype R] in
theorem ruleId_injective {A B : R} (listed : A ∈ ruleIds) (same : ruleId ruleIds A = ruleId ruleIds B) :
    A = B :=
  (List.idxOf_inj listed).mp (Nat.add_right_cancel same)

theorem denotes_reduce_unique (denotes : Denotes G leads γ) (run : successors G fuel leads = .ok new)
    {t u : Token} {p p' : Lr.Production R} (left : G.lr.Acts .EOF γ t (.reduce p))
    (right : G.lr.Acts .EOF γ u (.reduce p')) : p = p' := by
  obtain ⟨l, listed, core, _⟩ := denotes.covers.look _ t (Lr.Grammar.Acts.reduce_iff.mp left)
  obtain ⟨l', listed', core', _⟩ := denotes.covers.look _ u (Lr.Grammar.Acts.reduce_iff.mp right)
  have next : G.lr.next l.core = none := core ▸ Lr.Grammar.next_eq_none.mpr (Nat.le_refl _)
  have next' : G.lr.next l'.core = none := core' ▸ Lr.Grammar.next_eq_none.mpr (Nat.le_refl _)
  have same := core.symm.trans ((congrArg Lead.core (complete_unique run listed next listed' next')).trans core')
  exact (Lr.Core.mk.inj same).1

theorem rowsFor (complete : Complete G fuel arrays)
    (listed : ∀ leads ∈ arrays, ∀ action ∈ (filled G fuel arrays leads).ruleActions, action.rule ∈ ruleIds)
    (member : leads ∈ arrays) (denotes : Denotes G leads γ) :
    RowsFor G ruleIds (Reps G arrays) γ (stateRow G ruleIds (filled G fuel arrays leads))
      (target G fuel arrays leads) := by
  obtain ⟨new, run, _⟩ := complete.expanded leads member
  refine ⟨complete.target member denotes, mem_actions denotes run, ?_, denotes_reduce_unique denotes run,
    tokens_nodup_iff denotes run⟩
  intro A c lead next
  have row : ⟨ruleId ruleIds A, target G fuel arrays leads (.nonterminal A)⟩ ∈
      (stateRow G ruleIds (filled G fuel arrays leads)).gotos :=
    (mem_gotos denotes run).mpr ⟨A, ⟨c, lead, next⟩, rfl⟩
  have found := List.find?_isSome.mpr
    (⟨_, row, by simp⟩ : ∃ x ∈ _, decide (x.rule = ruleId ruleIds A) = true)
  obtain ⟨row', find⟩ := Option.isSome_iff_exists.mp found
  rw [find]
  obtain ⟨B, ⟨d, lead', next'⟩, rfl⟩ := (mem_gotos denotes run).mp (List.mem_of_find?_eq_some find)
  have same : ruleId ruleIds B = ruleId ruleIds A := by simpa using List.find?_some find
  obtain ⟨l, present, rfl⟩ := denotes.lead_iff.mp lead'
  have known : B ∈ ruleIds := listed leads member ⟨B, target G fuel arrays leads (.nonterminal B)⟩
    ((mem_filled_ruleActions run).mpr ⟨⟨l, present, next'⟩, rfl⟩)
  rw [ruleId_injective known same]

end Rows

/-- The tables that the generator prints, state by state: each state stands for some stack with a
lead, and its rows are right for every stack it stands for. -/
theorem generate_rows {G : Grammar R} {fuel : Nat} {tables : List ParserState}
    {ruleIds : List R} (run : generate G fuel = .ok (tables, ruleIds)) :
    ∃ reps : Nat → List (Symbol Token R) → Prop, reps 0 [] ∧
      (∀ q γ, reps q γ → ∃ s goto, tables[q]? = some s ∧ RowsFor G ruleIds reps γ s goto) ∧
      (∀ q s, tables[q]? = some s → ∃ γ c, reps q γ ∧ G.lr.Lead γ c) ∧
      ∀ γ c, G.lr.Lead γ c → ∃ q, reps q γ := by
  obtain ⟨states, call, rfl, listed⟩ := generate_ok run
  obtain ⟨arrays, rfl, complete⟩ := parserStates_ok call
  have known : ∀ leads ∈ arrays, ∀ action ∈ (filled G fuel arrays leads).ruleActions, action.rule ∈ ruleIds :=
    fun leads member => listed _ (List.mem_map_of_mem member)
  refine ⟨Reps G arrays, complete.first, ?_, ?_, fun γ c => complete.state⟩
  · rintro q γ ⟨leads, found, denotes⟩
    refine ⟨_, _, ?_, rowsFor complete known (List.mem_of_getElem? found) denotes⟩
    simp [found]
  · intro q s found
    simp only [List.getElem?_map, Option.map_eq_some_iff] at found
    obtain ⟨_, ⟨leads, found, rfl⟩, rfl⟩ := found
    obtain ⟨γ, denotes, c, lead⟩ := complete.reached leads (List.mem_of_getElem? found)
    exact ⟨γ, c, ⟨leads, found, denotes⟩, lead⟩

end Low
