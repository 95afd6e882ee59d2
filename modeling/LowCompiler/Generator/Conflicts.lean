import LowCompiler.Generator.Actions
import Mathlib.Data.Fintype.List

/-!
# What the conflict assertions detect

The assertions of `gather_states` look at one group of leads at a time, and the
leads of a group share the symbol after the dot. So a shift-reduce conflict is
never seen: `unique_rows_iff` says which grammars get tables without one. And
two complete leads are always refused, even with disjoint lookaheads:
`generate_completes_iff` says which grammars get tables at all.
-/

namespace Low

variable {R : Type} [LinearOrder R] [Fintype R]

/-! ### Two rows for one token -/

/-- The tables of a grammar have at most one row for each state and token just when over no stack a
complete lead has a lookahead that another lead shifts. -/
theorem unique_rows_iff {G : Grammar R} (_noEmpty : G.NoEmpty) {fuel : Nat} {tables : List ParserState}
    {ruleIds : List R} (run : generate G fuel = .ok (tables, ruleIds)) :
    UniqueRows tables ↔ ∀ γ t c d, G.lr.Look .EOF γ c t → G.lr.next c = none → G.lr.Lead γ d →
      G.lr.next d ≠ some (.terminal t) := by
  obtain ⟨reps, _, rows, reached, covered⟩ := generate_rows run
  constructor
  · intro unique γ t c d look complete lead next
    obtain ⟨q, represents⟩ := covered γ d lead
    obtain ⟨s, goto, found, rows⟩ := rows q γ represents
    exact rows.nodup.mp (unique s (List.mem_of_getElem? found)) t c.production (.shift lead next)
      (.reduce look complete)
  · intro free s member
    obtain ⟨q, found⟩ := List.mem_iff_getElem?.mp member
    obtain ⟨γ, _, represents, _⟩ := reached q s found
    obtain ⟨s', goto, found', rows⟩ := rows q γ represents
    obtain rfl := Option.some.inj (found.symm.trans found')
    refine rows.nodup.mpr fun t p shift reduce => ?_
    cases shift with
    | shift lead next =>
      exact free γ t _ _ (Lr.Grammar.Acts.reduce_iff.mp reduce) (Lr.Grammar.next_eq_none.mpr (Nat.le_refl _))
        lead next

/-- Sums without a precedence: `sum: sum "+" sum | IDENT`. -/
def sumGrammar : Grammar (Fin 2) where
  variants rule :=
    if rule = 0 then [⟨[.nonterminal 1], some "0 /* accept */", 0⟩]
    else [⟨[.nonterminal 1, .terminal .ADD_OP, .nonterminal 1], none, 0⟩, ⟨[.terminal .IDENT], none, 0⟩]
  root := 0
  grammarRoot := 1
  root_variants := rfl
  nonzero := by decide

def sumTables : List ParserState :=
  [⟨[⟨.IDENT, 2, none, 0, 0⟩], [⟨92, 1⟩]⟩,
    ⟨[⟨.EOF, -1, none, 0, 0⟩, ⟨.ADD_OP, 3, none, 0, 0⟩], []⟩,
    ⟨[⟨.EOF, -1, none, 0, 92⟩, ⟨.ADD_OP, -1, none, 0, 92⟩], []⟩,
    ⟨[⟨.IDENT, 2, none, 0, 0⟩], [⟨92, 4⟩]⟩,
    ⟨[⟨.ADD_OP, 3, none, 0, 0⟩, ⟨.EOF, -3, none, 0, 92⟩, ⟨.ADD_OP, -3, none, 0, 92⟩], []⟩]

theorem sumGrammar_tables : generate sumGrammar 6 = .ok (sumTables, [1]) := by decide

/-- The generator completes on the ambiguous grammar, with a shift and a reduce row for `+` in state 4. -/
theorem sumGrammar_conflict :
    sumGrammar.NoEmpty ∧ generate sumGrammar 6 = .ok (sumTables, [1]) ∧ ¬ UniqueRows sumTables := by
  refine ⟨by decide, by decide, by decide⟩

theorem unique_rows_sum :
    ¬ ∀ γ t c d, sumGrammar.lr.Look .EOF γ c t → sumGrammar.lr.next c = none → sumGrammar.lr.Lead γ d →
      sumGrammar.lr.next d ≠ some (.terminal t) :=
  fun free => absurd ((unique_rows_iff (by decide) sumGrammar_tables).mpr free) (by decide)

/-! ### Completion -/

omit [LinearOrder R] in
/-- The arrays of leads that point into the grammar, none of them twice. -/
theorem finite_arrays (G : Grammar R) : {leads : List (Lead R) | leads.Nodup ∧ ∀ l ∈ leads, Valid G l}.Finite := by
  have := (finite_valid G).fintype
  refine (Set.finite_range fun L : {L : List {l : Lead R | Valid G l} // L.Nodup} => L.1.map Subtype.val).subset ?_
  rintro leads ⟨nodup, valid⟩
  refine ⟨⟨leads.attachWith _ valid, ?_⟩, List.attachWith_map_subtype_val _⟩
  exact List.Nodup.of_map Subtype.val (by rwa [List.attachWith_map_subtype_val])

section Completion
variable {G : Grammar R} {fuel : Nat} {leads : List (Lead R)} {γ : List (Symbol Token R)}

omit [LinearOrder R] [Fintype R] in
theorem Denotes.leads_nodup (denotes : Denotes G leads γ) : leads.Nodup := denotes.nodup.of_map _

/-- What a state can stop the generator with: what the closures of its leads stop with, or two
complete leads. -/
theorem successors_error {P : Abort → Prop} (denotes : Denotes G leads γ)
    (shifts : ∀ (kernel : List (Lead R)) δ, Kernel G kernel δ → ∀ e,
      gatherLeads G fuel kernel 0 kernel.length = .error e → P e)
    {e : Abort} (run : successors G fuel leads = .error e) :
    P e ∨
      e = .reduceReduceConflict ∧ ∃ c d, G.lr.Lead γ c ∧ G.lr.next c = none ∧ G.lr.Lead γ d ∧
      G.lr.next d = none ∧ c ≠ d := by
  unfold successors at run
  cases groups : (groupLeads G leads []).mapM (successor G fuel) with
  | ok news => rw [groups] at run; cases run
  | error e' =>
    rw [groups] at run
    obtain rfl := Except.error.inj run
    obtain ⟨⟨symbol, g⟩, member, fails⟩ := mapM_error groups
    obtain ⟨rfl, l, present, next⟩ := mem_groupLeads.mp member
    cases symbol with
    | none =>
      simp only [successor] at fails
      split at fails
      · cases fails
      · rename_i more
        have nodup : (leadsOn G leads none).Nodup := denotes.leads_nodup.filter _
        rcases shape : leadsOn G leads none with _ | ⟨x, _ | ⟨y, rest⟩⟩
        · simp [shape] at more
        · simp [shape] at more
        · rw [shape] at nodup
          have first := mem_leadsOn.mp (shape ▸ List.mem_cons_self : x ∈ leadsOn G leads none)
          have second := mem_leadsOn.mp (shape ▸ List.mem_cons_of_mem _ List.mem_cons_self : y ∈ leadsOn G leads none)
          refine .inr ⟨(Except.error.inj fails).symm, x.core, y.core, (denotes.covers.sound x first.1).1, first.2,
            (denotes.covers.sound y second.1).1, second.2, ?_⟩
          intro same
          have equal := denotes.unique first.1 second.1 same
          subst equal
          simp at nodup
    | some X =>
      have kernel := denotes.kernel (denotes.covers.sound l present).1 next
      simp only [successor, shiftState] at fails
      cases closure : gatherLeads G fuel ((leadsOn G leads (some X)).map Lead.advance) 0
          ((leadsOn G leads (some X)).map Lead.advance).length with
      | ok out => rw [closure] at fails; cases fails
      | error e'' =>
        rw [closure] at fails
        obtain rfl := Except.error.inj fails
        exact .inl (shifts _ _ kernel _ closure)

theorem parserStates_error {P : Abort → Prop}
    (shifts : ∀ (kernel : List (Lead R)) δ, Kernel G kernel δ → ∀ e,
      gatherLeads G fuel kernel 0 kernel.length = .error e → P e)
    {e : Abort} (run : parserStates G fuel = .error e) :
    e = .outOfFuel ∨ P e ∨ e = .reduceReduceConflict ∧
      ∃ γ c d, G.lr.Lead γ c ∧ G.lr.next c = none ∧ G.lr.Lead γ d ∧ G.lr.next d = none ∧ c ≠ d := by
  rw [parserStates_eq] at run
  cases start : gatherLeads G fuel [rootLead G] 0 1 with
  | error e' =>
    rw [start] at run
    obtain rfl := Except.error.inj run
    exact .inr (.inl (shifts [rootLead G] [] (kernel_root G) _ start))
  | ok closure =>
    rw [start, ok_bind] at run
    have root := denotes_consolidate (gatherLeads_covers (kernel_root G) start)
    cases saturation : Worklist.saturate (successors G fuel) .outOfFuel fuel [consolidateLeads closure] 0 1 with
    | ok arrays => rw [saturation] at run; cases run
    | error e' =>
      rw [saturation] at run
      obtain rfl := Except.error.inj run
      rcases Worklist.saturate_error saturation with rfl | ⟨leads, reach, wrong⟩
      · exact .inl rfl
      · obtain ⟨γ, denotes, _⟩ := reach_denotes root reach
        rcases successors_error denotes shifts wrong with blocked | ⟨is, conflict⟩
        · exact .inr (.inl blocked)
        · exact .inr (.inr ⟨is, γ, conflict⟩)

/-- With enough fuel for the closures there is enough for the states. -/
theorem parserStates_fuel (G : Grammar R) : ∃ bound, ∀ fuel, bound ≤ fuel →
    (∀ (kernel : List (Lead R)) δ, Kernel G kernel δ → gatherLeads G fuel kernel 0 kernel.length ≠ .error .outOfFuel) →
    parserStates G fuel ≠ .error .outOfFuel := by
  let carrier := (finite_arrays G).toFinset
  refine ⟨carrier.card + 1, ?_⟩
  intro fuel large enough run
  have quiet (kernel : List (Lead R)) (δ : List (Symbol Token R)) (known : Kernel G kernel δ) (e : Abort)
      (fails : gatherLeads G fuel kernel 0 kernel.length = .error e) : e ≠ .outOfFuel := by
    rintro rfl
    exact enough kernel δ known fails
  rw [parserStates_eq] at run
  cases start : gatherLeads G fuel [rootLead G] 0 1 with
  | error e' =>
    rw [start] at run
    obtain rfl := Except.error.inj run
    exact enough [rootLead G] [] (kernel_root G) start
  | ok closure =>
    rw [start, ok_bind] at run
    have root := denotes_consolidate (gatherLeads_covers (kernel_root G) start)
    cases saturation : Worklist.saturate (successors G fuel) .outOfFuel fuel [consolidateLeads closure] 0 1 with
    | ok arrays => rw [saturation] at run; cases run
    | error e' =>
      rw [saturation] at run
      obtain rfl := Except.error.inj run
      have inside : ∀ leads, Worklist.Reach (successors G fuel) [consolidateLeads closure] leads → leads ∈ carrier := by
        intro leads reach
        obtain ⟨γ, denotes, _⟩ := reach_denotes root reach
        exact (finite_arrays G).mem_toFinset.mpr ⟨denotes.leads_nodup, fun l member =>
          lead_valid (denotes.covers.sound l member).1⟩
      refine absurd saturation (Worklist.saturate_fuel inside ?_ (by omega))
      intro leads reach wrong
      obtain ⟨γ, denotes, _⟩ := reach_denotes root reach
      rcases successors_error denotes quiet wrong with different | ⟨is, _⟩
      · exact different rfl
      · cases is

/-- With enough fuel the generator finishes, or stops at one of two assertions. -/
theorem parserStates_stops (G : Grammar R) :
    ∃ bound, ∀ fuel, bound ≤ fuel → ∀ e, parserStates G fuel = .error e →
    (e = .noEmptyRules ∧ ∃ δ c, G.lr.Lead δ c ∧ G.lr.Blocked c) ∨ e = .reduceReduceConflict ∧
      ∃ γ c d, G.lr.Lead γ c ∧ G.lr.next c = none ∧ G.lr.Lead γ d ∧ G.lr.next d = none ∧ c ≠ d := by
  obtain ⟨bound, shifts⟩ := gatherLeads_kernel_stops G
  obtain ⟨bound', enough⟩ := parserStates_fuel G
  refine ⟨max bound bound', ?_⟩
  intro fuel large e run
  have stops := shifts fuel (by omega)
  have searched (kernel : List (Lead R)) (δ : List (Symbol Token R)) (known : Kernel G kernel δ) :
      gatherLeads G fuel kernel 0 kernel.length ≠ .error .outOfFuel := by
    intro fails
    cases (stops kernel δ known _ fails).1
  have blocked (kernel : List (Lead R)) (δ : List (Symbol Token R)) (known : Kernel G kernel δ) (e : Abort)
      (fails : gatherLeads G fuel kernel 0 kernel.length = .error e) :
      e = .noEmptyRules ∧ ∃ δ c, G.lr.Lead δ c ∧ G.lr.Blocked c := by
    obtain ⟨is, c, found⟩ := stops kernel δ known e fails
    exact ⟨is, δ, c, found⟩
  rcases parserStates_error blocked run with rfl | stopped
  · exact absurd run (enough fuel (by omega) searched)
  · exact stopped

theorem complete_unique_of_generate {out : List ParserState × List R}
    (run : generate G fuel = .ok out) {c d : Lr.Core R} (lead : G.lr.Lead γ c) (complete : G.lr.next c = none)
    (lead' : G.lr.Lead γ d) (complete' : G.lr.next d = none) : c = d := by
  obtain ⟨tables, ruleIds⟩ := out
  obtain ⟨states, call, _⟩ := generate_ok run
  obtain ⟨arrays, _, finished⟩ := parserStates_ok call
  obtain ⟨q, leads, found, denotes⟩ := finished.state lead
  obtain ⟨new, expand, _⟩ := finished.expanded leads (List.mem_of_getElem? found)
  obtain ⟨l, member, rfl⟩ := denotes.lead_iff.mp lead
  obtain ⟨l', member', rfl⟩ := denotes.lead_iff.mp lead'
  rw [complete_unique expand member complete member' complete']

/-- The generator completes just when over no stack two different leads are complete. -/
theorem generate_completes_iff (noEmpty : G.NoEmpty) :
    (∃ fuel out, generate G fuel = .ok out) ↔
      ∀ γ c d, G.lr.Lead γ c → G.lr.next c = none → G.lr.Lead γ d → G.lr.next d = none → c = d := by
  constructor
  · rintro ⟨fuel, out, run⟩ γ c d lead complete lead' complete'
    exact complete_unique_of_generate run lead complete lead' complete'
  · intro single
    obtain ⟨fuel, stops⟩ := parserStates_stops G
    cases run : parserStates G fuel with
    | ok states => exact ⟨fuel, _, by rw [generate, run]; rfl⟩
    | error e =>
      rcases stops fuel (Nat.le_refl _) e run with ⟨_, _, c, _, blocked⟩ | ⟨_, γ, c, d, lead, complete, lead', complete', ne⟩
      · exact absurd blocked (Lr.Grammar.NoEmpty.not_blocked noEmpty.lr c)
      · exact absurd (single γ c d lead complete lead' complete') ne

end Completion

theorem generate_completes_sum : sumGrammar.NoEmpty ∧
    ∀ γ c d, sumGrammar.lr.Lead γ c → sumGrammar.lr.next c = none → sumGrammar.lr.Lead γ d →
      sumGrammar.lr.next d = none → c = d :=
  ⟨by decide, (generate_completes_iff (by decide)).mp ⟨6, _, sumGrammar_tables⟩⟩

/-! ### Two complete leads with disjoint lookaheads -/

/-- An identifier is reduced to rule 2 before a comma and to rule 3 before a period. -/
def splitGrammar : Grammar (Fin 4) where
  variants rule :=
    if rule = 0 then [⟨[.nonterminal 1], some "0 /* accept */", 0⟩]
    else if rule = 1 then
      [⟨[.nonterminal 2, .terminal .COMMA], none, 0⟩, ⟨[.nonterminal 3, .terminal .PERIOD], none, 0⟩]
    else [⟨[.terminal .IDENT], none, 0⟩]
  root := 0
  grammarRoot := 1
  root_variants := rfl
  nonzero := by decide

/-- The leads of the grammar over every stack, with their lookaheads. -/
def splitLooks : List (List (Symbol Token (Fin 4)) × Lr.Core (Fin 4) × Token) :=
  [([], ⟨⟨0, 0⟩, 0⟩, .EOF), ([], ⟨⟨1, 0⟩, 0⟩, .EOF), ([], ⟨⟨1, 1⟩, 0⟩, .EOF), ([], ⟨⟨2, 0⟩, 0⟩, .COMMA),
    ([], ⟨⟨3, 0⟩, 0⟩, .PERIOD), ([.nonterminal 1], ⟨⟨0, 0⟩, 1⟩, .EOF), ([.nonterminal 2], ⟨⟨1, 0⟩, 1⟩, .EOF),
    ([.nonterminal 3], ⟨⟨1, 1⟩, 1⟩, .EOF), ([.terminal .IDENT], ⟨⟨2, 0⟩, 1⟩, .COMMA),
    ([.terminal .IDENT], ⟨⟨3, 0⟩, 1⟩, .PERIOD), ([.terminal .COMMA, .nonterminal 2], ⟨⟨1, 0⟩, 2⟩, .EOF),
    ([.terminal .PERIOD, .nonterminal 3], ⟨⟨1, 1⟩, 2⟩, .EOF)]

theorem split_advance : ∀ l ∈ splitLooks, ∀ X ∈ splitGrammar.lr.next l.2.1,
    (X :: l.1, l.2.1.advance, l.2.2) ∈ splitLooks := by decide

/-- The lookahead of what the lead expands to: the terminal behind the symbol after the dot. -/
def splitFollow (c : Lr.Core (Fin 4)) (t : Token) : Token :=
  match splitGrammar.lr.next c.advance with
  | some (.terminal s) => s
  | _ => t

theorem split_expand : ∀ l ∈ splitLooks, ∀ A : Fin 4, splitGrammar.lr.next l.2.1 = some (.nonterminal A) →
    ∀ i < (splitGrammar.lr.variants A).length,
      (l.1, ⟨⟨A, i⟩, 0⟩, splitFollow l.2.1 l.2.2) ∈ splitLooks := by decide

theorem split_terminal : ∀ l ∈ splitLooks, ∀ A B : Fin 4,
    splitGrammar.lr.next l.2.1 = some (.nonterminal A) →
    splitGrammar.lr.next l.2.1.advance ≠ some (.nonterminal B) := by decide

theorem split_lead {γ : List (Symbol Token (Fin 4))} {c : Lr.Core (Fin 4)} (h : splitGrammar.lr.Lead γ c) :
    ∃ t, (γ, c, t) ∈ splitLooks := by
  induction h with
  | root => exact ⟨.EOF, by decide⟩
  | expand _ next has ih =>
    obtain ⟨t, member⟩ := ih
    exact ⟨_, split_expand _ member _ next _ has⟩
  | advance _ next ih =>
    obtain ⟨t, member⟩ := ih
    exact ⟨t, split_advance _ member _ next⟩

theorem split_look {γ : List (Symbol Token (Fin 4))} {c : Lr.Core (Fin 4)} {t : Token}
    (h : splitGrammar.lr.Look .EOF γ c t) : (γ, c, t) ∈ splitLooks := by
  induction h with
  | root => decide
  | @first γ c p Y t lead next after first has =>
    obtain ⟨u, member⟩ := split_lead lead
    cases first with
    | terminal => simpa [splitFollow, after] using split_expand _ member _ next _ has
    | variant => exact absurd after (split_terminal _ member _ _ next)
  | @inherit γ c p t _ next after has ih => simpa [splitFollow, after] using split_expand _ ih _ next _ has
  | advance _ next ih => exact split_advance _ ih _ next

theorem split_deterministic : splitGrammar.lr.Deterministic .EOF := by
  have reduces : ∀ l ∈ splitLooks, ∀ l' ∈ splitLooks, l.1 = l'.1 → l.2.2 = l'.2.2 →
      splitGrammar.lr.next l.2.1 = none → splitGrammar.lr.next l'.2.1 = none →
      l.2.1.production = l'.2.1.production := by decide
  have shifts : ∀ l ∈ splitLooks, ∀ l' ∈ splitLooks, l.1 = l'.1 →
      splitGrammar.lr.next l.2.1 = some (.terminal l'.2.2) → splitGrammar.lr.next l'.2.1 ≠ none := by decide
  rintro γ t _ _ (⟨lead, next⟩ | ⟨look, next⟩) (⟨lead', next'⟩ | ⟨look', next'⟩)
  · rfl
  · obtain ⟨u, member⟩ := split_lead lead
    exact absurd next' (shifts _ member _ (split_look look') rfl next)
  · obtain ⟨u, member⟩ := split_lead lead'
    exact absurd next (shifts _ member _ (split_look look) rfl next')
  · rw [reduces _ (split_look look) _ (split_look look') rfl rfl next next']

/-- The grammar is LR(1), and the generator fails on it however long it runs. -/
theorem splitGrammar_refused :
    splitGrammar.NoEmpty ∧ splitGrammar.lr.IsLR1 .EOF ∧
      generate splitGrammar 6 = .error .reduceReduceConflict ∧
      ∀ fuel out, generate splitGrammar fuel ≠ .ok out := by
  refine ⟨by decide, split_deterministic.isLR1, by decide, fun fuel out run => ?_⟩
  have has : ∀ rule, splitGrammar.lr.Has ⟨rule, 0⟩ := by
    unfold Lr.Grammar.Has
    decide
  have period : splitGrammar.lr.Has ⟨1, 1⟩ := by
    unfold Lr.Grammar.Has
    decide
  have start : splitGrammar.lr.Lead [] ⟨⟨0, 0⟩, 0⟩ := .root
  have left : splitGrammar.lr.Lead [] ⟨⟨2, 0⟩, 0⟩ := .expand (.expand start rfl (has 1)) rfl (has 2)
  have right : splitGrammar.lr.Lead [] ⟨⟨3, 0⟩, 0⟩ := .expand (.expand start rfl period) rfl (has 3)
  have same := complete_unique_of_generate run (.advance left rfl) rfl (.advance right rfl) rfl
  revert same
  decide

end Low
