import LowCompiler.Worklist
import LowCompiler.Lr.Items
import LowCompiler.Generator.First
import Mathlib.Data.Finite.Sigma
import Mathlib.Data.Finite.Prod
import Mathlib.Data.Set.Finite.Basic
import Mathlib.Data.Set.Finite.Range

/-!
# The closure of a set of leads

`gather_leads` of the parser generator. It is the saturation of the array of
leads under `newLeads`; `gatherLeads_covers` says that from the kernel of a
stack it reaches exactly the leads and lookaheads of the stack.
-/

namespace Low

/-- A lead names its variant by its index in the array of the rule. -/
structure Lead (R : Type) where
  rule : R
  variant : Nat
  position : Nat
  terminals : TokenSet
  deriving DecidableEq

variable {R : Type}

def Lead.core (lead : Lead R) : Lr.Core R := ⟨⟨lead.rule, lead.variant⟩, lead.position⟩

def Lead.advance (lead : Lead R) : Lead R := { lead with position := lead.position + 1 }

@[simp] theorem Lead.advance_core (lead : Lead R) : lead.advance.core = lead.core.advance := rfl

@[simp] theorem Lead.advance_terminals (lead : Lead R) : lead.advance.terminals = lead.terminals := rfl

def leadGetSymbol (G : Grammar R) (lead : Lead R) (position : Nat) : Option (Symbol Token R) :=
  variantGetSymbol (G.variant lead.rule lead.variant) position

theorem leadGetSymbol_position (G : Grammar R) (lead : Lead R) :
    leadGetSymbol G lead lead.position = G.lr.next lead.core := by
  simp [leadGetSymbol, variantGetSymbol, Lr.Grammar.next, Lead.core]

theorem leadGetSymbol_succ (G : Grammar R) (lead : Lead R) :
    leadGetSymbol G lead (lead.position + 1) = G.lr.next lead.core.advance := by
  simp [leadGetSymbol, variantGetSymbol, Lead.core]

variable [DecidableEq R] [Fintype R]

/-- What may follow the nonterminal after the dot. -/
def follow (G : Grammar R) (lead : Lead R) : Except Abort TokenSet :=
  match leadGetSymbol G lead (lead.position + 1) with
  | none => .ok (tokenSetMerge tokenSetInit lead.terminals)
  | some tn => gatherFirst G (Fintype.card R + 1) tokenSetInit (some tn) []

def newLeads (G : Grammar R) (lead : Lead R) : Except Abort (List (Lead R)) :=
  match leadGetSymbol G lead lead.position with
  | some (.nonterminal rule) => (follow G lead).map fun follow =>
      (List.range (G.variants rule).length).map fun variant => ⟨rule, variant, 0, follow⟩
  | _ => .ok []

def gatherLeads (G : Grammar R) : Nat → List (Lead R) → Nat → Nat → Except Abort (List (Lead R))
  | 0, _, _, _ => .error .outOfFuel
  | fuel + 1, leads, index, length => do
    assertion (index < leads.length) .outOfBounds
    assertion (index + length ≤ leads.length) .outOfBounds
    let firstNew := leads.length
    let leads ← ((leads.drop index).take length).foldlM (Worklist.visit (newLeads G)) leads
    if firstNew < leads.length then gatherLeads G fuel leads firstNew (leads.length - firstNew)
    else .ok leads

theorem gatherLeads_eq (G : Grammar R) {fuel : Nat} {leads : List (Lead R)} {index length : Nat}
    (inside : index < leads.length) (span : index + length ≤ leads.length) :
    gatherLeads G fuel leads index length =
      Worklist.saturate (newLeads G) .outOfFuel fuel leads index length := by
  induction fuel generalizing leads index length with
  | zero => rfl
  | succ fuel ih =>
    unfold gatherLeads Worklist.saturate
    rw [assertion_bind (decide_eq_true inside), assertion_bind (decide_eq_true span)]
    refine bind_congr fun leads' => ?_
    split
    · exact ih (by assumption) (by omega)
    · rfl

section Expansion
variable {G : Grammar R} {lead : Lead R}

/-- The lookaheads of the leads that expand the symbol after the dot of `lead`. -/
def Followed (G : Grammar R) (lead : Lead R) (t : Token) : Prop :=
  (∃ Y, G.lr.next lead.core.advance = some Y ∧ G.lr.First Y t) ∨
    (G.lr.next lead.core.advance = none ∧ t ∈ lead.terminals)

theorem follow_ok {out : TokenSet} (run : follow G lead = .ok out) :
    (∀ t, t ∈ out ↔ Followed G lead t) ∧ ∀ Y, G.lr.next lead.core.advance = some Y → ¬G.lr.MeetsEmpty Y := by
  unfold follow at run
  unfold Followed
  rw [leadGetSymbol_succ] at run
  cases after : G.lr.next lead.core.advance with
  | none =>
    rw [after] at run
    obtain rfl := Except.ok.inj run
    simp
  | some Y =>
    rw [after] at run
    obtain ⟨spec, free⟩ := gatherFirst_ok run
    constructor
    · intro t
      simp [spec]
    · intro Y' same
      obtain rfl := Option.some.inj same
      exact free

theorem follow_error {e : Abort} (run : follow G lead = .error e) :
    e = .noEmptyRules ∧ ∃ Y, G.lr.next lead.core.advance = some Y ∧ G.lr.MeetsEmpty Y := by
  unfold follow at run
  rw [leadGetSymbol_succ] at run
  cases after : G.lr.next lead.core.advance with
  | none =>
    rw [after] at run
    cases run
  | some Y =>
    rw [after] at run
    obtain ⟨is, meets⟩ := gatherFirst_error List.nodup_nil (Nat.lt_succ_self _) run
    exact ⟨is, Y, rfl, meets⟩

/-- An expansion that succeeds gives the variants of the rule after the dot. -/
theorem newLeads_ok {out : List (Lead R)} (run : newLeads G lead = .ok out) :
    (∀ l ∈ out, ∃ p : Lr.Production R, G.lr.next lead.core = some (.nonterminal p.rule) ∧ G.lr.Has p ∧
      l.core = ⟨p, 0⟩ ∧ ∀ t, t ∈ l.terminals ↔ Followed G lead t) ∧
    (∀ p : Lr.Production R, G.lr.next lead.core = some (.nonterminal p.rule) → G.lr.Has p →
      ∃ l ∈ out, l.core = ⟨p, 0⟩ ∧ ∀ t, t ∈ l.terminals ↔ Followed G lead t) ∧
    ¬G.lr.Blocked lead.core := by
  unfold newLeads at run
  rw [leadGetSymbol_position] at run
  split at run
  · rename_i rule next
    cases search : follow G lead with
    | error e => rw [search] at run; cases run
    | ok set =>
      rw [search] at run
      obtain rfl := Except.ok.inj run
      obtain ⟨spec, free⟩ := follow_ok search
      refine ⟨?_, ?_, ?_⟩
      · intro l member
        obtain ⟨i, bound, rfl⟩ := List.mem_map.mp member
        exact ⟨⟨rule, i⟩, next, Grammar.lr_has.mpr (List.mem_range.mp bound), rfl, spec⟩
      · rintro ⟨_, i⟩ same has
        obtain rfl := Symbol.nonterminal.inj (Option.some.inj (next.symm.trans same))
        exact ⟨_, List.mem_map.mpr ⟨i, List.mem_range.mpr (Grammar.lr_has.mp has), rfl⟩, rfl, spec⟩
      · rintro ⟨_, Y, _, after, meets⟩
        exact free Y after meets
  · rename_i other
    obtain rfl := Except.ok.inj run
    refine ⟨fun l member => absurd member List.not_mem_nil, ?_, ?_⟩
    · intro p next
      exact absurd next (other p.rule)
    · rintro ⟨A, _, next, _⟩
      exact other A next

theorem newLeads_error {e : Abort} (run : newLeads G lead = .error e) :
    e = .noEmptyRules ∧ G.lr.Blocked lead.core := by
  unfold newLeads at run
  rw [leadGetSymbol_position] at run
  split at run
  · rename_i rule next
    cases search : follow G lead with
    | ok set => rw [search] at run; cases run
    | error e' =>
      rw [search] at run
      obtain rfl := Except.error.inj run
      obtain ⟨is, Y, after, meets⟩ := follow_error search
      exact ⟨is, rule, Y, next, after, meets⟩
  · cases run

end Expansion

/-! ### The leads of a stack -/

/-- An array of leads holds the leads over the stack `γ`, and their lookaheads. -/
structure Covers (G : Grammar R) (leads : List (Lead R)) (γ : List (Symbol Token R)) : Prop where
  sound : ∀ l ∈ leads, G.lr.Lead γ l.core ∧ ∀ t ∈ l.terminals, G.lr.Look .EOF γ l.core t
  lead : ∀ c, G.lr.Lead γ c → ∃ l ∈ leads, l.core = c
  look : ∀ c t, G.lr.Look .EOF γ c t → ∃ l ∈ leads, l.core = c ∧ t ∈ l.terminals

/-- An array of leads from which expansion alone reaches the leads over `γ`. -/
structure Kernel (G : Grammar R) (leads : List (Lead R)) (γ : List (Symbol Token R)) : Prop where
  nonempty : leads ≠ []
  sound : ∀ l ∈ leads, G.lr.Lead γ l.core ∧ ∀ t ∈ l.terminals, G.lr.Look .EOF γ l.core t
  root : γ = [] → ∃ l ∈ leads, l.core = ⟨⟨G.root, 0⟩, 0⟩ ∧ .EOF ∈ l.terminals
  advance : ∀ {X δ c}, γ = X :: δ → G.lr.Lead δ c → G.lr.next c = some X →
    ∃ l ∈ leads, l.core = c.advance ∧ ∀ t, G.lr.Look .EOF δ c t → t ∈ l.terminals

section Closure
variable {G : Grammar R} {leads out : List (Lead R)} {γ : List (Symbol Token R)} {fuel : Nat}

theorem reach_sound
    (sound : ∀ l ∈ leads, G.lr.Lead γ l.core ∧ ∀ t ∈ l.terminals, G.lr.Look .EOF γ l.core t)
    {l : Lead R} (reach : Worklist.Reach (newLeads G) leads l) :
    G.lr.Lead γ l.core ∧ ∀ t ∈ l.terminals, G.lr.Look .EOF γ l.core t := by
  induction reach with
  | root member => exact sound _ member
  | @step x y ys _ call member ih =>
    obtain ⟨lead, look⟩ := ih
    obtain ⟨p, next, has, core, terminals⟩ := (newLeads_ok call).1 y member
    rw [core]
    refine ⟨.expand lead next has, fun t present => ?_⟩
    rcases (terminals t).mp present with ⟨Y, after, first⟩ | ⟨after, inherited⟩
    · exact .first lead next after first has
    · exact .inherit (look t inherited) next after has

/-- Expanding a lead of a closed array gives a lead of the array. -/
theorem expanded_lead {l : Lead R} (closed : Worklist.Expanded (newLeads G) out l) {p : Lr.Production R}
    (next : G.lr.next l.core = some (.nonterminal p.rule)) (has : G.lr.Has p) :
    ∃ l' ∈ out, l'.core = ⟨p, 0⟩ ∧ ∀ t, t ∈ l'.terminals ↔ Followed G l t := by
  obtain ⟨ys, call, inside⟩ := closed
  obtain ⟨l', member, spec⟩ := (newLeads_ok call).2.1 p next has
  exact ⟨l', inside member, spec⟩

theorem closed_lead (sub : leads ⊆ out)
    (closed : ∀ l ∈ out, Worklist.Expanded (newLeads G) out l) {c : Lr.Core R} (lead : G.lr.Lead γ c) :
    Kernel G leads γ → ∃ l ∈ out, l.core = c := by
  induction lead with
  | root =>
    intro kernel
    obtain ⟨l, member, core, _⟩ := kernel.root rfl
    exact ⟨l, sub member, core⟩
  | expand _ next has ih =>
    intro kernel
    obtain ⟨l, member, rfl⟩ := ih kernel
    obtain ⟨l', member', core, _⟩ := expanded_lead (closed l member) next has
    exact ⟨l', member', core⟩
  | advance lead next _ =>
    intro kernel
    obtain ⟨l, member, core, _⟩ := kernel.advance rfl lead next
    exact ⟨l, sub member, core⟩

theorem closed_look (sub : leads ⊆ out)
    (closed : ∀ l ∈ out, Worklist.Expanded (newLeads G) out l) {c : Lr.Core R} {t : Token}
    (look : G.lr.Look .EOF γ c t) : Kernel G leads γ → ∃ l ∈ out, l.core = c ∧ t ∈ l.terminals := by
  induction look with
  | root =>
    intro kernel
    obtain ⟨l, member, core, present⟩ := kernel.root rfl
    exact ⟨l, sub member, core, present⟩
  | first lead next after first has =>
    intro kernel
    obtain ⟨l, member, rfl⟩ := closed_lead sub closed lead kernel
    obtain ⟨l', member', core, terminals⟩ := expanded_lead (closed l member) next has
    exact ⟨l', member', core, (terminals _).mpr (Or.inl ⟨_, after, first⟩)⟩
  | inherit _ next after has ih =>
    intro kernel
    obtain ⟨l, member, rfl, present⟩ := ih kernel
    obtain ⟨l', member', core, terminals⟩ := expanded_lead (closed l member) next has
    exact ⟨l', member', core, (terminals _).mpr (Or.inr ⟨after, present⟩)⟩
  | advance look next _ =>
    intro kernel
    obtain ⟨l, member, core, terminals⟩ := kernel.advance rfl look.lead next
    exact ⟨l, sub member, core, terminals _ look⟩

/-- From a kernel, `gather_leads` computes the leads of the stack. -/
theorem gatherLeads_covers (kernel : Kernel G leads γ)
    (run : gatherLeads G fuel leads 0 leads.length = .ok out) : Covers G out γ := by
  rw [gatherLeads_eq G (List.length_pos_iff.mpr kernel.nonempty) (by omega)] at run
  obtain ⟨grown, closed, reach, _⟩ := Worklist.saturate_ok run (by omega) (by simp)
  exact ⟨fun l member => reach_sound kernel.sound (reach l member),
    fun c lead => closed_lead grown.subset closed lead kernel,
    fun c t look => closed_look grown.subset closed look kernel⟩

/-! ### Fuel -/

/-- The leads that point into a variant of the grammar. -/
def Valid (G : Grammar R) (l : Lead R) : Prop :=
  G.lr.Has l.core.production ∧ l.position ≤ (G.lr.elements l.core.production).length

omit [DecidableEq R] in
theorem finite_valid (G : Grammar R) : {l : Lead R | Valid G l}.Finite := by
  let toLead : (Σ rule : R, Σ variant : Fin (G.variants rule).length,
    Fin ((G.lr.elements ⟨rule, variant⟩).length + 1) × TokenSet) → Lead R :=
      fun i => ⟨i.1, i.2.1, i.2.2.1, i.2.2.2⟩
  refine (Set.finite_range toLead).subset ?_
  rintro ⟨rule, variant, position, terminals⟩ ⟨has, bound⟩
  exact ⟨⟨rule, ⟨variant, Grammar.lr_has.mp has⟩, ⟨position, Nat.lt_succ_of_le bound⟩, terminals⟩, rfl⟩

omit [DecidableEq R] [Fintype R] in
theorem lead_valid {l : Lead R} (lead : G.lr.Lead γ l.core) : Valid G l := ⟨lead.has, lead.position_le⟩

/-- With enough fuel, `gather_leads` stops on leads that point into the grammar only at an empty variant. -/
theorem gatherLeads_stops (G : Grammar R) : ∃ bound, ∀ fuel, bound ≤ fuel →
    ∀ seeds : List (Lead R), seeds ≠ [] → (∀ l ∈ seeds, Valid G l) →
      ∀ e, gatherLeads G fuel seeds 0 seeds.length = .error e →
        e = .noEmptyRules ∧ ∃ l, Worklist.Reach (newLeads G) seeds l ∧ G.lr.Blocked l.core := by
  refine ⟨(finite_valid G).toFinset.card + 1, ?_⟩
  intro fuel enough seeds nonempty valid e run
  rw [gatherLeads_eq G (List.length_pos_iff.mpr nonempty) (by omega)] at run
  have inside (l : Lead R) (reach : Worklist.Reach (newLeads G) seeds l) : l ∈ (finite_valid G).toFinset := by
    rw [Set.Finite.mem_toFinset]
    induction reach with
    | root member => exact valid _ member
    | @step x y ys _ call member _ =>
      obtain ⟨p, _, has, core, _⟩ := (newLeads_ok call).1 y member
      obtain ⟨rule, variant, position, terminals⟩ := y
      obtain ⟨rfl, rfl⟩ := Lr.Core.mk.inj core
      exact ⟨has, Nat.zero_le _⟩
  rcases Worklist.saturate_error run with rfl | ⟨l, reach, wrong⟩
  · refine absurd run (Worklist.saturate_fuel inside ?_ (by omega))
    intro l _ wrong
    cases (newLeads_error wrong).1
  · obtain ⟨is, blocked⟩ := newLeads_error wrong
    exact ⟨is, l, reach, blocked⟩

/-- With enough fuel, `gather_leads` finishes on any leads of a grammar without empty variants. -/
theorem gatherLeads_terminates (noEmpty : G.NoEmpty) : ∃ bound, ∀ fuel, bound ≤ fuel →
    ∀ seeds : List (Lead R), seeds ≠ [] → (∀ l ∈ seeds, Valid G l) →
      ∃ out, gatherLeads G fuel seeds 0 seeds.length = .ok out := by
  obtain ⟨bound, stops⟩ := gatherLeads_stops G
  refine ⟨bound, ?_⟩
  intro fuel enough seeds nonempty valid
  cases run : gatherLeads G fuel seeds 0 seeds.length with
  | ok out => exact ⟨out, rfl⟩
  | error e =>
    obtain ⟨_, l, _, blocked⟩ := stops fuel enough seeds nonempty valid e run
    exact absurd blocked (Lr.Grammar.NoEmpty.not_blocked noEmpty.lr l.core)

/-- It stops on the kernel of a stack only at a lead over the stack. -/
theorem gatherLeads_kernel_stops (G : Grammar R) : ∃ bound, ∀ fuel, bound ≤ fuel →
    ∀ (leads : List (Lead R)) γ, Kernel G leads γ → ∀ e, gatherLeads G fuel leads 0 leads.length = .error e →
      e = .noEmptyRules ∧ ∃ c, G.lr.Lead γ c ∧ G.lr.Blocked c := by
  obtain ⟨bound, stops⟩ := gatherLeads_stops G
  refine ⟨bound, ?_⟩
  intro fuel enough leads γ kernel e run
  have valid (l : Lead R) (member : l ∈ leads) : Valid G l := lead_valid (kernel.sound l member).1
  obtain ⟨is, l, reach, blocked⟩ := stops fuel enough leads kernel.nonempty valid e run
  exact ⟨is, l.core, (reach_sound kernel.sound reach).1, blocked⟩

end Closure

end Low
