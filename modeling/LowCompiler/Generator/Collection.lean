import LowCompiler.Generator.Closure
import LowCompiler.Generator.Conflicts
import Mathlib.Logic.Relation

/-!
# The canonical collection

`gather_states` computes closures one from the other until there is nothing new. The array
that it leaves is the canonical collection of lead sets, each once, and its rows are the
moves between them.
-/

namespace Low

variable {R : Type} [LinearOrder R]

section Definitions
variable (G : Grammar R) (states : List (State R))

/-- State `q` is the closure of the leads on `X`, advanced. -/
def GoesTo (leads : List (Lead R)) (X : Symbol Token R) (q : Nat) : Prop :=
  ∃ s, states[q]? = some s ∧ IsClosure G ((leadsOn G leads (some X)).map Lead.advance) s.leads

/-- State `i` has a row that names state `j`. -/
def Moves (i j : Nat) : Prop :=
  ∃ s, states[i]? = some s ∧
    ((∃ a ∈ s.tokenActions, a.production = none ∧ a.state = j) ∨ ∃ a ∈ s.ruleActions, a.state = j)

/-- The rows of a state: one for each symbol after a dot, one for each complete lead, and no others. -/
structure RowsOf (s : State R) : Prop where
  shift : ∀ t, (∃ l ∈ s.leads, G.lr.next l.core = some (.terminal t)) → ∃ q, GoesTo G states s.leads (.terminal t) q ∧
    s.tokenActions.filter (fun a => a.production = none ∧ t ∈ a.tokens) = [⟨tokenSetInsert tokenSetInit t, none, q⟩]
  goto : ∀ A, (∃ l ∈ s.leads, G.lr.next l.core = some (.nonterminal A)) → ∃ q,
    GoesTo G states s.leads (.nonterminal A) q ∧ s.ruleActions.filter (fun a => a.rule = A) = [⟨A, q⟩]
  reduce : s.tokenActions.filter (fun a => a.production.isSome) = (leadsOn G s.leads none).map reduceAction
  shifts : ∀ a ∈ s.tokenActions, a.production = none →
    ∃ t, (∃ l ∈ s.leads, G.lr.next l.core = some (.terminal t)) ∧ t ∈ a.tokens
  gotos : ∀ a ∈ s.ruleActions, ∃ l ∈ s.leads, G.lr.next l.core = some (.nonterminal a.rule)

/-- The canonical collection of lead sets, with the moves between them. -/
structure IsCollection : Prop where
  root : ∃ s, states[0]? = some s ∧ IsClosure G [rootLead G] s.leads
  grown : ∀ i s, states[i]? = some s → i ≠ 0 → ∃ s' ∈ states, ∃ X,
    (∃ l ∈ s'.leads, G.lr.next l.core = some X) ∧ GoesTo G states s'.leads X i
  merged : ∀ s ∈ states, (s.leads.map Lead.core).Nodup
  different : ∀ (i j : Nat) (s s' : State R), states[i]? = some s → states[j]? = some s' → SameItems s.leads s'.leads → i = j
  reached : ∀ i < states.length, Relation.ReflTransGen (Moves states) 0 i
  rows : ∀ s ∈ states, RowsOf G states s

end Definitions

/-! ### One row for each symbol -/

theorem flatMap_single {α β : Type} {f : α → List β} {xs : List α} {x : α} (nodup : xs.Nodup)
    (others : ∀ y, y ≠ x → f y = []) (absent : x ∉ xs → f x = []) : xs.flatMap f = f x := by
  induction xs with
  | nil => exact (absent List.not_mem_nil).symm
  | cons y ys ih =>
    obtain ⟨fresh, nodup⟩ := List.nodup_cons.mp nodup
    rw [List.flatMap_cons]
    by_cases same : y = x
    · subst same
      have rest : ys.flatMap f = [] := by
        rw [List.flatMap_eq_nil_iff]
        intro z member
        exact others z (fun again => fresh (again ▸ member))
      rw [rest, List.append_nil]
    · rw [others y same, List.nil_append]
      refine ih nodup fun away => absent ?_
      intro member
      rcases List.mem_cons.mp member with rfl | member
      · exact same rfl
      · exact away member

section Rows
variable [Fintype R] {G : Grammar R} {fuel : Nat} {arrays : List (List (Lead R))} {leads new : List (Lead R)}
  {next : List (List (Lead R))}

theorem filled_leads : (filled G fuel arrays leads).leads = leads := by
  have keeps (groups : List (Group R)) (s : State R) :
      (groups.foldl (State.addGroup G fuel arrays) s).leads = s.leads := by
    induction groups generalizing s with
    | nil => rfl
    | cons g groups ih => exact (ih _).trans (by simp)
  exact keeps _ _

omit [Fintype R] in
theorem symbolsAfter_nodup : (symbolsAfter G leads).Nodup := groupLeads_nodup

theorem filled_shift {t : Token} (run : successors G fuel leads = .ok next)
    (present : ∃ l ∈ leads, G.lr.next l.core = some (.terminal t)) :
    (filled G fuel arrays leads).tokenActions.filter (fun a => a.production = none ∧ t ∈ a.tokens) =
      [⟨tokenSetInsert tokenSetInit t, none, target G fuel arrays leads (.terminal t)⟩] := by
  rw [(filled_actions run).1, List.filter_flatMap, flatMap_single symbolsAfter_nodup (x := some (.terminal t))]
  · simp [symbolTokenActions]
  · rintro (_ | s | A) other
    · simp [symbolTokenActions, reduceAction]
    · have apart : t ≠ s := fun same => other (same ▸ rfl)
      simp [symbolTokenActions, apart]
    · rfl
  · intro absent
    exact absurd (mem_symbolsAfter.mpr present) absent

theorem filled_goto {A : R} (run : successors G fuel leads = .ok next)
    (present : ∃ l ∈ leads, G.lr.next l.core = some (.nonterminal A)) :
    (filled G fuel arrays leads).ruleActions.filter (fun a => a.rule = A) =
      [⟨A, target G fuel arrays leads (.nonterminal A)⟩] := by
  rw [(filled_actions run).2, List.filter_flatMap, flatMap_single symbolsAfter_nodup (x := some (.nonterminal A))]
  · simp [symbolRuleActions]
  · rintro (_ | s | B) other
    · rfl
    · rfl
    · have apart : B ≠ A := fun same => other (same ▸ rfl)
      simp [symbolRuleActions, apart]
  · intro absent
    exact absurd (mem_symbolsAfter.mpr present) absent

theorem filled_reduce (run : successors G fuel leads = .ok next) :
    (filled G fuel arrays leads).tokenActions.filter (fun a => a.production.isSome) =
      (leadsOn G leads none).map reduceAction := by
  rw [(filled_actions run).1, List.filter_flatMap, flatMap_single symbolsAfter_nodup (x := none)]
  · simp [symbolTokenActions, reduceAction]
  · rintro (_ | s | A) other
    · exact absurd rfl other
    · simp [symbolTokenActions]
    · rfl
  · intro absent
    have empty : leadsOn G leads none = [] := by
      rw [List.eq_nil_iff_forall_not_mem]
      intro l member
      exact absent (mem_symbolsAfter.mpr ⟨l, mem_leadsOn.mp member⟩)
    simp [symbolTokenActions, empty]

end Rows

/-! ### The array of states -/

section Collection
variable [Fintype R] {G : Grammar R} {fuel : Nat} {arrays : List (List (Lead R))} {leads : List (Lead R)}

theorem shiftState_isClosure {closure : List (Lead R)} {X : Symbol Token R} (present : ∃ l ∈ leads, G.lr.next l.core = some X)
    (run : shiftState G fuel (leadsOn G leads (some X)) = .ok closure) :
    IsClosure G ((leadsOn G leads (some X)).map Lead.advance) closure ∧
      ∃ out, closure = consolidateLeads out := by
  unfold shiftState at run
  cases search : gatherLeads G fuel ((leadsOn G leads (some X)).map Lead.advance) 0
      ((leadsOn G leads (some X)).map Lead.advance).length with
  | error e => rw [search] at run; cases run
  | ok out =>
    rw [search] at run
    obtain rfl := Except.ok.inj run
    obtain ⟨l, member, next⟩ := present
    have nonempty : (leadsOn G leads (some X)).map Lead.advance ≠ [] :=
      List.ne_nil_of_mem (List.mem_map_of_mem (mem_leadsOn.mpr ⟨member, next⟩))
    exact ⟨(gatherLeads_isClosure nonempty search).consolidate, out, rfl⟩

/-- The index of the state to which the leads on a symbol go, in the finished array. -/
theorem Complete.target_at (complete : Complete G fuel arrays) (member : leads ∈ arrays) {X : Symbol Token R}
    (present : ∃ l ∈ leads, G.lr.next l.core = some X) :
    ∃ closure, shiftState G fuel (leadsOn G leads (some X)) = .ok closure ∧
      arrays[Low.target G fuel arrays leads X]? = some closure := by
  obtain ⟨new, run, inside⟩ := complete.expanded leads member
  obtain ⟨l, listed, next⟩ := present
  obtain ⟨closure, shift⟩ := successors_shift run listed next
  have found := inside ((mem_successors run).mpr ⟨X, ⟨l, listed, next⟩, shift⟩)
  have bound := List.idxOf_lt_length_of_mem found
  refine ⟨closure, shift, ?_⟩
  simp only [Low.target, shift, List.getElem?_eq_getElem bound, List.getElem_idxOf bound]

theorem Complete.goesTo (complete : Complete G fuel arrays) (member : leads ∈ arrays) {X : Symbol Token R}
    (present : ∃ l ∈ leads, G.lr.next l.core = some X) :
    GoesTo G (arrays.map (filled G fuel arrays)) leads X (Low.target G fuel arrays leads X) := by
  obtain ⟨closure, shift, found⟩ := complete.target_at member present
  refine ⟨filled G fuel arrays closure, by rw [List.getElem?_map, found]; rfl, ?_⟩
  rw [filled_leads]
  exact (shiftState_isClosure present shift).1

theorem Complete.rows (complete : Complete G fuel arrays) (member : leads ∈ arrays) :
    RowsOf G (arrays.map (filled G fuel arrays)) (filled G fuel arrays leads) := by
  obtain ⟨new, run, _⟩ := complete.expanded leads member
  constructor
  · intro t present
    rw [filled_leads] at present ⊢
    exact ⟨_, complete.goesTo member present, filled_shift run present⟩
  · intro A present
    rw [filled_leads] at present ⊢
    exact ⟨_, complete.goesTo member present, filled_goto run present⟩
  · rw [filled_leads]
    exact filled_reduce run
  · intro a inside shift
    rw [filled_leads]
    rcases (mem_filled_tokenActions run).mp inside with ⟨l, _, _, rfl⟩ | ⟨t, present, rfl⟩
    · cases shift
    · exact ⟨t, present, by simp⟩
  · intro a inside
    rw [filled_leads]
    exact ((mem_filled_ruleActions run).mp inside).1

/-- A symbol after a dot is a move to the state of the symbol. -/
theorem Complete.moves (complete : Complete G fuel arrays) {i : Nat} (found : arrays[i]? = some leads)
    {X : Symbol Token R} (present : ∃ l ∈ leads, G.lr.next l.core = some X) :
    Moves (arrays.map (filled G fuel arrays)) i (Low.target G fuel arrays leads X) := by
  obtain ⟨new, run, _⟩ := complete.expanded leads (List.mem_of_getElem? found)
  refine ⟨filled G fuel arrays leads, by rw [List.getElem?_map, found]; rfl, ?_⟩
  cases X with
  | terminal t => exact .inl ⟨_, (mem_filled_tokenActions run).mpr (.inr ⟨t, present, rfl⟩), rfl, rfl⟩
  | nonterminal A => exact .inr ⟨⟨A, _⟩, (mem_filled_ruleActions run).mpr ⟨present, rfl⟩, rfl⟩

/-- Where an array stands from which the others grow, and how it was reached. -/
theorem reach_index (complete : Complete G fuel arrays) {start : List (Lead R)} (first : arrays[0]? = some start)
    (reach : Worklist.Reach (successors G fuel) [start] leads) :
    ∃ i, arrays[i]? = some leads ∧ Relation.ReflTransGen (Moves (arrays.map (filled G fuel arrays))) 0 i ∧
      (leads = start ∨ ∃ l ∈ arrays, ∃ X, (∃ x ∈ l, G.lr.next x.core = some X) ∧
        shiftState G fuel (leadsOn G l (some X)) = .ok leads) := by
  induction reach with
  | root member =>
    obtain rfl := List.mem_singleton.mp member
    exact ⟨0, first, .refl, .inl rfl⟩
  | @step x y ys _ run member ih =>
    obtain ⟨i, found, path, _⟩ := ih
    obtain ⟨X, present, shift⟩ := (mem_successors run).mp member
    have inside := List.mem_of_getElem? found
    obtain ⟨closure, shift', found'⟩ := complete.target_at inside present
    obtain rfl := Except.ok.inj (shift.symm.trans shift')
    exact ⟨_, found', path.tail (complete.moves found present), .inr ⟨x, inside, X, present, shift⟩⟩

theorem index_unique {α : Type} {xs : List α} (nodup : xs.Nodup) {i j : Nat} {x : α} (at_i : xs[i]? = some x)
    (at_j : xs[j]? = some x) : i = j :=
  (List.getElem?_inj (List.getElem?_eq_some_iff.mp at_i).1 nodup).mp (at_i.trans at_j.symm)

/-- The states of a finished generation are the canonical collection. -/
theorem isCollection_of_run {states : List (State R)} (run : parserStates G fuel = .ok states) :
    IsCollection G states := by
  obtain ⟨arrays, rfl, complete, nodup, closure, root, first, reach⟩ := parserStates_collected run
  have state {i : Nat} {s : State R} (found : (arrays.map (filled G fuel arrays))[i]? = some s) :
      ∃ leads, arrays[i]? = some leads ∧ s = filled G fuel arrays leads := by
    rw [List.getElem?_map, Option.map_eq_some_iff] at found
    exact found.imp fun _ h => ⟨h.1, h.2.symm⟩
  have made {leads : List (Lead R)} (member : leads ∈ arrays) : ∃ out, leads = consolidateLeads out := by
    obtain ⟨_, _, _, rfl | ⟨_, _, X, present, shift⟩⟩ := reach_index complete first (reach leads member)
    · exact ⟨closure, rfl⟩
    · exact (shiftState_isClosure present shift).2
  constructor
  · refine ⟨_, by rw [List.getElem?_map, first]; rfl, ?_⟩
    rw [filled_leads]
    exact (gatherLeads_isClosure (List.cons_ne_nil _ _) root).consolidate
  · intro i s found other
    obtain ⟨leads, at_i, rfl⟩ := state found
    obtain ⟨_, _, _, rfl | ⟨l, member, X, present, shift⟩⟩ := reach_index complete first (reach leads (List.mem_of_getElem? at_i))
    · exact absurd (index_unique nodup at_i first) other
    · refine ⟨filled G fuel arrays l, List.mem_map_of_mem member, X, ?_, _, found, ?_⟩
      · rwa [filled_leads]
      · rw [filled_leads, filled_leads]
        exact (shiftState_isClosure present shift).1
  · intro s member
    obtain ⟨leads, inside, rfl⟩ := List.mem_map.mp member
    obtain ⟨out, rfl⟩ := made inside
    rw [filled_leads]
    exact consolidateLeads_nodup out
  · intro i j s s' found found' same
    obtain ⟨leads, at_i, rfl⟩ := state found
    obtain ⟨leads', at_j, rfl⟩ := state found'
    obtain ⟨out, rfl⟩ := made (List.mem_of_getElem? at_i)
    obtain ⟨out', rfl⟩ := made (List.mem_of_getElem? at_j)
    rw [filled_leads, filled_leads] at same
    have equal := consolidateLeads_congr
      ((consolidateLeads_items out).symm.trans (same.trans (consolidateLeads_items out')))
    exact index_unique nodup at_i (equal ▸ at_j)
  · intro i bound
    rw [List.length_map] at bound
    have at_i := List.getElem?_eq_getElem bound
    obtain ⟨j, at_j, path, _⟩ := reach_index complete first (reach _ (List.getElem_mem bound))
    exact index_unique nodup at_j at_i ▸ path
  · intro s member
    obtain ⟨leads, inside, rfl⟩ := List.mem_map.mp member
    exact complete.rows inside

omit [LinearOrder R] [Fintype R] in
theorem Denotes.item_iff {γ : List (Symbol Token R)} (denotes : Denotes G leads γ) {c : Lr.Core R} {t : Token} :
    HasItem leads c t ↔ G.lr.Look .EOF γ c t := by
  constructor
  · rintro ⟨l, member, rfl, present⟩
    exact (denotes.terminals member).mp present
  · exact denotes.covers.look c t

/-- The states and the stacks with a lead: each stands for some of the other. -/
theorem states_items {states : List (State R)} (run : parserStates G fuel = .ok states) :
    (∀ s ∈ states, ∃ γ, (∃ c, G.lr.Lead γ c) ∧ ∀ c t, HasItem s.leads c t ↔ G.lr.Look .EOF γ c t) ∧
      ∀ γ, (∃ c, G.lr.Lead γ c) → ∃ s ∈ states, ∀ c t, HasItem s.leads c t ↔ G.lr.Look .EOF γ c t := by
  obtain ⟨arrays, rfl, complete⟩ := parserStates_ok run
  constructor
  · intro s member
    obtain ⟨leads, inside, rfl⟩ := List.mem_map.mp member
    obtain ⟨γ, denotes, lead⟩ := complete.reached leads inside
    rw [filled_leads]
    exact ⟨γ, lead, fun c t => denotes.item_iff⟩
  · rintro γ ⟨c, lead⟩
    obtain ⟨q, leads, found, denotes⟩ := complete.state lead
    refine ⟨filled G fuel arrays leads, List.mem_map_of_mem (List.mem_of_getElem? found), ?_⟩
    rw [filled_leads]
    exact fun c t => denotes.item_iff

/-- Unless an assertion fires, `gather_states` finishes with the canonical collection. If each rule
derives some string, these are the textbook sets of items over the stacks. -/
theorem gatherStates_collection (noEmpty : G.NoEmpty)
    (quiet : ∀ fuel e, parserStates G fuel = .error e → e = .outOfFuel) :
    ∃ bound, ∀ fuel, bound ≤ fuel → ∃ states, parserStates G fuel = .ok states ∧ IsCollection G states ∧
      (G.lr.Productive →
        (∀ s ∈ states, ∃ γ, (∃ c, G.lr.Lead γ c) ∧ ∀ c t, HasItem s.leads c t ↔ G.lr.Item .EOF γ c t) ∧
        ∀ γ, (∃ c, G.lr.Lead γ c) → ∃ s ∈ states, ∀ c t, HasItem s.leads c t ↔ G.lr.Item .EOF γ c t) := by
  obtain ⟨bound, stops⟩ := parserStates_stops G
  refine ⟨bound, ?_⟩
  intro fuel enough
  cases run : parserStates G fuel with
  | error e =>
    obtain rfl := quiet fuel e run
    rcases stops fuel enough _ run with ⟨is, _⟩ | ⟨is, _⟩ <;> cases is
  | ok states =>
    refine ⟨states, rfl, isCollection_of_run run, ?_⟩
    intro productive
    simp only [← Lr.Grammar.look_iff_item productive noEmpty.lr]
    exact states_items run

/-- On a grammar without empty variants, where complete leads are alone, no assertion fires. -/
theorem parserStates_quiet (noEmpty : G.NoEmpty)
    (single : ∀ γ c d, G.lr.Lead γ c → G.lr.next c = none → G.lr.Lead γ d → G.lr.next d = none → c = d)
    {e : Abort} (run : parserStates G fuel = .error e) : e = .outOfFuel := by
  have shifts (kernel : List (Lead R)) (δ : List (Symbol Token R)) (known : Kernel G kernel δ) (e : Abort)
      (fails : gatherLeads G fuel kernel 0 kernel.length = .error e) : e = .outOfFuel := by
    rw [gatherLeads_eq G (List.length_pos_iff.mpr known.nonempty) (by omega)] at fails
    rcases Worklist.saturate_error fails with is | ⟨l, _, wrong⟩
    · exact is
    · exact absurd (newLeads_error wrong).2 (Lr.Grammar.NoEmpty.not_blocked noEmpty.lr l.core)
  rcases parserStates_error shifts run with is | is | ⟨_, γ, c, d, lead, complete, lead', complete', different⟩
  · exact is
  · exact is
  · exact absurd (single γ c d lead complete lead' complete') different

end Collection

/-- The sums have a canonical collection, though one of its states has two rows for `+`. -/
theorem gatherStates_collection_sum : ∃ fuel states,
    parserStates sumGrammar fuel = .ok states ∧ IsCollection sumGrammar states := by
  have quiet (fuel : Nat) (e : Abort) (run : parserStates sumGrammar fuel = .error e) : e = .outOfFuel :=
    parserStates_quiet (by decide)
      (fun _ _ _ lead next lead' next' => complete_unique_of_generate sumGrammar_tables lead next lead' next') run
  obtain ⟨bound, finishes⟩ := gatherStates_collection (by decide) quiet
  obtain ⟨states, run, collection, _⟩ := finishes bound (Nat.le_refl _)
  exact ⟨bound, states, run, collection⟩

end Low
