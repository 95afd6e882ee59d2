import LowCompiler.Lr.Closure
import LowCompiler.Generator.Canonical
import LowCompiler.Generator.States

/-!
# The closure of any leads

`gather_leads` from any array of leads. A lead whose terminals are empty is expanded like
the others, so the array it leaves stands for cores and lookaheads, each closed by itself.
-/

namespace Low

variable {R : Type} [LinearOrder R] [Fintype R]

section Seeds
variable {G : Grammar R} {seeds out : List (Lead R)} {fuel : Nat}

/-- What is reached from the seeds is in their closure. -/
theorem reach_closed {l : Lead R} (reach : Worklist.Reach (newLeads G) seeds l) :
    G.lr.ClosedLead (HasCore seeds) l.core ∧
      ∀ t ∈ l.terminals, G.lr.ClosedLook (HasCore seeds) (HasItem seeds) l.core t := by
  induction reach with
  | @root x member =>
    refine ⟨.seed ⟨x, member, rfl⟩, ?_⟩
    intro t present
    exact .seed ⟨x, member, rfl, present⟩
  | @step x y ys _ call member ih =>
    obtain ⟨lead, look⟩ := ih
    obtain ⟨p, next, has, core, terminals⟩ := (newLeads_ok call).1 y member
    rw [core]
    refine ⟨.expand lead next has, ?_⟩
    intro t present
    rcases (terminals t).mp present with ⟨Y, after, first⟩ | ⟨after, inherited⟩
    · exact .first lead next after first has
    · exact .inherit (look t inherited) next after has

section Closed
variable (sub : seeds ⊆ out) (closed : ∀ l ∈ out, Worklist.Expanded (newLeads G) out l)
include sub closed

theorem closed_core {c : Lr.Core R} (lead : G.lr.ClosedLead (HasCore seeds) c) : HasCore out c := by
  induction lead with
  | seed given =>
    obtain ⟨l, member, core⟩ := given
    exact ⟨l, sub member, core⟩
  | expand _ next has ih =>
    obtain ⟨l, member, rfl⟩ := ih
    obtain ⟨l', member', core, _⟩ := expanded_lead (closed l member) next has
    exact ⟨l', member', core⟩

theorem closed_item {c : Lr.Core R} {t : Token} (look : G.lr.ClosedLook (HasCore seeds) (HasItem seeds) c t) :
    HasItem out c t := by
  induction look with
  | seed given =>
    obtain ⟨l, member, item⟩ := given
    exact ⟨l, sub member, item⟩
  | first lead next after first has =>
    obtain ⟨l, member, rfl⟩ := closed_core sub closed lead
    obtain ⟨l', member', core, terminals⟩ := expanded_lead (closed l member) next has
    exact ⟨l', member', core, (terminals _).mpr (.inl ⟨_, after, first⟩)⟩
  | inherit _ next after has ih =>
    obtain ⟨l, member, rfl, present⟩ := ih
    obtain ⟨l', member', core, terminals⟩ := expanded_lead (closed l member) next has
    exact ⟨l', member', core, (terminals _).mpr (.inr ⟨after, present⟩)⟩

end Closed

/-- The array stands for the closure of the seeds. -/
structure IsClosure (G : Grammar R) (seeds leads : List (Lead R)) : Prop where
  cores : ∀ c, HasCore leads c ↔ G.lr.ClosedLead (HasCore seeds) c
  items : ∀ c t, HasItem leads c t ↔ G.lr.ClosedLook (HasCore seeds) (HasItem seeds) c t

omit [Fintype R] in
theorem IsClosure.consolidate (closure : IsClosure G seeds out) : IsClosure G seeds (consolidateLeads out) where
  cores c := ((consolidateLeads_items out).cores c).trans (closure.cores c)
  items c t := ((consolidateLeads_items out).items c t).trans (closure.items c t)

theorem gatherLeads_isClosure (nonempty : seeds ≠ [])
    (run : gatherLeads G fuel seeds 0 seeds.length = .ok out) : IsClosure G seeds out := by
  rw [gatherLeads_eq G (List.length_pos_iff.mpr nonempty) (by omega)] at run
  obtain ⟨grown, closed, reach, _⟩ := Worklist.saturate_ok run (by omega) (by simp)
  constructor
  · intro c
    constructor
    · rintro ⟨l, member, rfl⟩
      exact (reach_closed (reach l member)).1
    · exact closed_core grown.subset closed
  · intro c t
    constructor
    · rintro ⟨l, member, rfl, present⟩
      exact (reach_closed (reach l member)).2 t present
    · exact closed_item grown.subset closed

/-- `gather_leads` finishes, and what it leaves stands for the closure in which a lead without
terminals is expanded too. Where each seed and each symbol to look at has a token, that is the
closure of the single items. -/
theorem gatherLeads_closure (noEmpty : G.NoEmpty) : ∃ bound, ∀ fuel, bound ≤ fuel →
    ∀ seeds : List (Lead R), seeds ≠ [] → (∀ l ∈ seeds, Valid G l) →
      ∃ out, gatherLeads G fuel seeds 0 seeds.length = .ok out ∧ ((consolidateLeads out).map Lead.core).Nodup ∧
        (∀ c, HasCore (consolidateLeads out) c ↔ G.lr.ClosedLead (HasCore seeds) c) ∧
        (∀ c t, HasItem (consolidateLeads out) c t ↔ G.lr.ClosedLook (HasCore seeds) (HasItem seeds) c t) ∧
        ((∀ l ∈ seeds, ∃ t, t ∈ l.terminals) →
          (∀ c A Y, G.lr.ClosedLead (HasCore seeds) c → G.lr.next c = some (.nonterminal A) →
            G.lr.next c.advance = some Y → ∃ t, G.lr.First Y t) →
          ∀ c t, HasItem (consolidateLeads out) c t ↔ G.lr.ClosedItem (HasItem seeds) c t) := by
  obtain ⟨bound, terminates⟩ := gatherLeads_terminates noEmpty
  refine ⟨bound, ?_⟩
  intro fuel enough seeds nonempty valid
  obtain ⟨out, run⟩ := terminates fuel enough seeds nonempty valid
  have closure := (gatherLeads_isClosure nonempty run).consolidate
  refine ⟨out, run, consolidateLeads_nodup out, closure.cores, closure.items, ?_⟩
  intro tokens firsts c t
  rw [closure.items]
  refine Lr.Grammar.closedLook_iff ?_ ?_ firsts
  · rintro c t ⟨l, member, core, _⟩
    exact ⟨l, member, core⟩
  · rintro c ⟨l, member, rfl⟩
    obtain ⟨t, present⟩ := tokens l member
    exact ⟨t, l, member, rfl, present⟩

end Seeds

/-! ### A rule without first tokens -/

/-- Rule 3 derives no string: `s: a b`, `a: c ","`, `b: b ";"`, `c: IDENT`. -/
def stuckGrammar : Grammar (Fin 5) where
  variants rule :=
    if rule = 0 then [⟨[.nonterminal 1], some "0 /* accept */", 0⟩]
    else if rule = 1 then [⟨[.nonterminal 2, .nonterminal 3], none, 0⟩]
    else if rule = 2 then [⟨[.nonterminal 4, .terminal .COMMA], none, 0⟩]
    else if rule = 3 then [⟨[.nonterminal 3, .terminal .SEMICOLON], none, 0⟩]
    else [⟨[.terminal .IDENT], none, 0⟩]
  root := 0
  grammarRoot := 1
  root_variants := rfl
  nonzero := by decide

theorem stuck_first {X : Symbol Token (Fin 5)} {t : Token} (first : stuckGrammar.lr.First X t) :
    X ≠ .nonterminal 3 := by
  induction first with
  | terminal => exact nofun
  | @variant p X β t has shape _ ih =>
    intro same
    obtain ⟨rule, i⟩ := p
    obtain rfl := Symbol.nonterminal.inj same
    have single : i < 1 := has
    obtain rfl : i = 0 := by omega
    cases shape
    exact ih rfl

/-- The closure of the root lead has two items. -/
theorem stuck_item {c : Lr.Core (Fin 5)} {t : Token}
    (item : stuckGrammar.lr.ClosedItem (HasItem [rootLead stuckGrammar]) c t) :
    c = ⟨⟨0, 0⟩, 0⟩ ∨ c = ⟨⟨1, 0⟩, 0⟩ := by
  induction item with
  | seed given =>
    obtain ⟨l, member, rfl, _⟩ := given
    obtain rfl := List.mem_singleton.mp member
    exact .inl rfl
  | first _ next after first _ ih =>
    rcases ih with rfl | rfl
    · cases after
    · obtain rfl := Option.some.inj after
      exact absurd rfl (stuck_first first)
  | @inherit c p t _ next after has ih =>
    rcases ih with rfl | rfl
    · obtain ⟨rule, i⟩ := p
      obtain rfl := Symbol.nonterminal.inj (Option.some.inj next)
      have single : i < 1 := has
      obtain rfl : i = 0 := by omega
      exact .inr rfl
    · cases after

theorem stuck_closure : gatherLeads stuckGrammar 6 [rootLead stuckGrammar] 0 1 = .ok
    [rootLead stuckGrammar, ⟨1, 0, 0, tokenSetInsert tokenSetInit .EOF⟩, ⟨2, 0, 0, tokenSetInit⟩,
      ⟨4, 0, 0, tokenSetInsert tokenSetInit .COMMA⟩] := by decide

/-- The array has an item that is not in the closure of the items, behind a lead without terminals. -/
theorem gatherLeads_more_items : stuckGrammar.NoEmpty ∧ ∃ out,
    gatherLeads stuckGrammar 6 [rootLead stuckGrammar] 0 1 = .ok out ∧
      HasItem (consolidateLeads out) ⟨⟨4, 0⟩, 0⟩ .COMMA ∧
      ¬stuckGrammar.lr.ClosedItem (HasItem [rootLead stuckGrammar]) ⟨⟨4, 0⟩, 0⟩ .COMMA := by
  refine ⟨by decide, _, stuck_closure, ?_, ?_⟩
  · rw [(consolidateLeads_items _).items]
    exact ⟨⟨4, 0, 0, tokenSetInsert tokenSetInit .COMMA⟩, by simp, rfl, by simp⟩
  · intro item
    rcases stuck_item item with wrong | wrong <;> cases wrong

/-- Rule 2 is expanded by itself. -/
theorem gatherLeads_closure_comma : ∃ fuel out,
    gatherLeads stuckGrammar fuel [⟨2, 0, 0, tokenSetInsert tokenSetInit .EOF⟩] 0 1 = .ok out ∧
      HasItem (consolidateLeads out) ⟨⟨4, 0⟩, 0⟩ .COMMA := by
  let seed : Lead (Fin 5) := ⟨2, 0, 0, tokenSetInsert tokenSetInit .EOF⟩
  have known : stuckGrammar.lr.Has ⟨2, 0⟩ := Nat.one_pos
  have expanded : stuckGrammar.lr.Has ⟨4, 0⟩ := Nat.one_pos
  obtain ⟨bound, law⟩ := @gatherLeads_closure _ _ _ stuckGrammar (by decide)
  obtain ⟨out, run, _, _, items, _⟩ := law bound (Nat.le_refl _) [seed] (List.cons_ne_nil _ _) (by
    intro l member
    obtain rfl := List.mem_singleton.mp member
    exact ⟨known, Nat.zero_le _⟩)
  have start : stuckGrammar.lr.ClosedLead (HasCore [seed]) ⟨⟨2, 0⟩, 0⟩ := .seed ⟨seed, List.mem_singleton.mpr rfl, rfl⟩
  exact ⟨bound, out, run, (items _ _).mpr (.first start rfl rfl (.terminal _) expanded)⟩

end Low
