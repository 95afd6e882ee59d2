import LowCompiler.Generator.Rows
import LowCompiler.Lr.Machine

/-!
# The states as item sets

Every state of the generator stands for stacks: its leads are the leads over
them, each once with all of its lookaheads (`Denotes`). The rows of a state
lead to the states of the longer stacks.
-/

namespace Low

variable {R : Type}

/-! ### Groups of leads -/

section Groups
variable [LinearOrder R] {G : Grammar R} {leads : List (Lead R)} {handled : List (Option (Symbol Token R))}

def leadsOn (G : Grammar R) (leads : List (Lead R)) (symbol : Option (Symbol Token R)) : List (Lead R) :=
  leads.filter fun lead => leadGetSymbol G lead lead.position = symbol

theorem mem_leadsOn {symbol : Option (Symbol Token R)} {l : Lead R} :
    l ∈ leadsOn G leads symbol ↔ l ∈ leads ∧ G.lr.next l.core = symbol := by
  simp [leadsOn, leadGetSymbol_position]

theorem groupLeads_sound {group : Group R} (h : group ∈ groupLeads G leads handled) :
    group.1 ∉ handled ∧ group.2 = leadsOn G leads group.1 := by
  induction leads generalizing handled with
  | nil => cases h
  | cons base leads ih =>
    simp only [groupLeads] at h
    -- A lead whose symbol is handled belongs to none of the groups still to come.
    have skip : leadGetSymbol G base base.position ≠ group.1 → group.2 = leadsOn G leads group.1 →
        group.2 = leadsOn G (base :: leads) group.1 := by
      intro other same
      rw [same, leadsOn, leadsOn, List.filter_cons_of_neg (by simpa using other)]
    split at h
    · rename_i seen
      obtain ⟨fresh, same⟩ := ih h
      exact ⟨fresh, skip (fun eq => fresh (eq ▸ seen)) same⟩
    · rename_i new
      rcases List.mem_cons.mp h with rfl | h
      · exact ⟨new, rfl⟩
      · obtain ⟨fresh, same⟩ := ih h
        obtain ⟨other, fresh⟩ := List.ne_and_not_mem_of_not_mem_cons fresh
        exact ⟨fresh, skip (Ne.symm other) same⟩

theorem groupLeads_complete {l : Lead R} (member : l ∈ leads) (fresh : leadGetSymbol G l l.position ∉ handled) :
    ∃ g, (leadGetSymbol G l l.position, g) ∈ groupLeads G leads handled := by
  induction leads generalizing handled with
  | nil => cases member
  | cons base leads ih =>
    simp only [groupLeads]
    split
    · rename_i seen
      rcases List.mem_cons.mp member with rfl | member
      · exact absurd seen fresh
      · exact ih member fresh
    · by_cases same : leadGetSymbol G l l.position = leadGetSymbol G base base.position
      · rw [same]
        exact ⟨_, List.mem_cons_self⟩
      · rcases List.mem_cons.mp member with rfl | member
        · exact absurd rfl same
        · exact (ih member (by simp [same, fresh])).imp fun g h => List.mem_cons_of_mem _ h

theorem groupLeads_nodup : ((groupLeads G leads handled).map Prod.fst).Nodup := by
  induction leads generalizing handled with
  | nil => exact List.nodup_nil
  | cons base leads ih =>
    simp only [groupLeads]
    split
    · exact ih
    · refine List.nodup_cons.mpr ⟨fun again => ?_, ih⟩
      obtain ⟨group, member, same⟩ := List.mem_map.mp again
      exact (groupLeads_sound member).1 (same ▸ List.mem_cons_self)

/-- The groups of a state: one for each symbol after a dot. -/
theorem mem_groupLeads {symbol : Option (Symbol Token R)} {g : List (Lead R)} :
    (symbol, g) ∈ groupLeads G leads [] ↔
      g = leadsOn G leads symbol ∧ ∃ l ∈ leads, G.lr.next l.core = symbol := by
  constructor
  · intro member
    obtain ⟨nonempty, uniform⟩ := groupLeads_uniform _ member
    obtain rfl : g = leadsOn G leads symbol := (groupLeads_sound member).2
    obtain ⟨l, present⟩ := List.exists_mem_of_ne_nil _ nonempty
    exact ⟨rfl, l, mem_leadsOn.mp present⟩
  · rintro ⟨rfl, l, member, next⟩
    obtain ⟨g, present⟩ := @groupLeads_complete _ _ G leads [] l member List.not_mem_nil
    rw [leadGetSymbol_position, next] at present
    obtain rfl : g = leadsOn G leads symbol := (groupLeads_sound present).2
    exact present

end Groups

/-! ### The leads of a state -/

structure Denotes (G : Grammar R) (leads : List (Lead R)) (γ : List (Symbol Token R)) : Prop where
  covers : Covers G leads γ
  nodup : (leads.map Lead.core).Nodup

section Denotes
variable {G : Grammar R} {leads : List (Lead R)} {γ : List (Symbol Token R)} {fuel : Nat}

theorem Denotes.lead_iff (h : Denotes G leads γ) {c : Lr.Core R} :
    G.lr.Lead γ c ↔ ∃ l ∈ leads, l.core = c := by
  constructor
  · exact h.covers.lead c
  · rintro ⟨l, member, rfl⟩
    exact (h.covers.sound l member).1

theorem Denotes.unique (h : Denotes G leads γ) {l l' : Lead R} (member : l ∈ leads) (member' : l' ∈ leads)
    (same : l.core = l'.core) : l = l' :=
  List.inj_on_of_nodup_map h.nodup member member' same

theorem Denotes.terminals (h : Denotes G leads γ) {l : Lead R} (member : l ∈ leads) {t : Token} :
    t ∈ l.terminals ↔ G.lr.Look .EOF γ l.core t := by
  constructor
  · exact (h.covers.sound l member).2 t
  · intro look
    obtain ⟨l', member', core, present⟩ := h.covers.look _ t look
    exact h.unique member' member core ▸ present

theorem kernel_root (G : Grammar R) : Kernel G [rootLead G] [] where
  nonempty := List.cons_ne_nil _ _
  sound l member := by
    obtain rfl := List.mem_singleton.mp member
    refine ⟨.root, fun t present => ?_⟩
    obtain rfl : t = .EOF := by simpa [rootLead] using present
    exact .root
  root _ := ⟨rootLead G, List.mem_cons_self, rfl, by simp [rootLead]⟩
  advance same := by cases same

variable [LinearOrder R]

/-- Moving the dot over a symbol gives a kernel of the longer stack. -/
theorem Denotes.kernel (h : Denotes G leads γ) {X : Symbol Token R} {c : Lr.Core R} (lead : G.lr.Lead γ c)
    (next : G.lr.next c = some X) : Kernel G ((leadsOn G leads (some X)).map Lead.advance) (X :: γ) where
  nonempty := by
    obtain ⟨l, member, rfl⟩ := h.lead_iff.mp lead
    exact List.ne_nil_of_mem (List.mem_map_of_mem (mem_leadsOn.mpr ⟨member, next⟩))
  sound l member := by
    obtain ⟨l, present, rfl⟩ := List.mem_map.mp member
    obtain ⟨member, next⟩ := mem_leadsOn.mp present
    obtain ⟨lead, look⟩ := h.covers.sound l member
    exact ⟨.advance lead next, fun t inside => .advance (look t inside) next⟩
  root same := by cases same
  advance same lead next := by
    obtain ⟨rfl, rfl⟩ := List.cons.inj same
    obtain ⟨l, member, rfl⟩ := h.lead_iff.mp lead
    exact ⟨l.advance, List.mem_map_of_mem (mem_leadsOn.mpr ⟨member, next⟩), rfl,
      fun t look => (h.terminals member).mpr look⟩

variable [Fintype R]

theorem denotes_consolidate (h : Covers G leads γ) : Denotes G (consolidateLeads leads) γ :=
  ⟨h.consolidate, consolidateLeads_nodup leads⟩

theorem Denotes.shift (h : Denotes G leads γ) {X : Symbol Token R} {c : Lr.Core R}
    (lead : G.lr.Lead γ c) (next : G.lr.next c = some X) {target : List (Lead R)}
    (run : shiftState G fuel (leadsOn G leads (some X)) = .ok target) : Denotes G target (X :: γ) := by
  unfold shiftState at run
  cases closure : gatherLeads G fuel ((leadsOn G leads (some X)).map Lead.advance) 0
      ((leadsOn G leads (some X)).map Lead.advance).length with
  | error e => rw [closure] at run; cases run
  | ok out =>
    rw [closure] at run
    obtain rfl := Except.ok.inj run
    exact denotes_consolidate (gatherLeads_covers (h.kernel lead next) closure)

end Denotes

/-! ### The lead arrays of a finished generation -/

theorem mapM_ok {α β ε : Type} {f : α → Except ε β} {xs : List α} {ys : List β} (run : xs.mapM f = .ok ys) :
    (∀ x ∈ xs, ∃ y ∈ ys, f x = .ok y) ∧ ∀ y ∈ ys, ∃ x ∈ xs, f x = .ok y := by
  induction xs generalizing ys with
  | nil =>
    obtain rfl := Except.ok.inj run
    simp
  | cons x xs ih =>
    rw [List.mapM_cons] at run
    cases head : f x with
    | error e => rw [head] at run; cases run
    | ok y =>
      cases tail : xs.mapM f with
      | error e => rw [head, tail] at run; cases run
      | ok ys' =>
        rw [head, tail] at run
        obtain rfl := Except.ok.inj run
        obtain ⟨outputs, inputs⟩ := ih tail
        refine ⟨fun x' member => ?_, fun y' member => ?_⟩
        · rcases List.mem_cons.mp member with rfl | member
          · exact ⟨y, List.mem_cons_self, head⟩
          · exact (outputs x' member).imp fun _ h => ⟨List.mem_cons_of_mem _ h.1, h.2⟩
        · rcases List.mem_cons.mp member with rfl | member
          · exact ⟨x, List.mem_cons_self, head⟩
          · exact (inputs y' member).imp fun _ h => ⟨List.mem_cons_of_mem _ h.1, h.2⟩

theorem mapM_error {α β ε : Type} {f : α → Except ε β} {xs : List α} {e : ε} (run : xs.mapM f = .error e) :
    ∃ x ∈ xs, f x = .error e := by
  induction xs with
  | nil => cases run
  | cons x xs ih =>
    rw [List.mapM_cons] at run
    cases head : f x with
    | error e' =>
      rw [head] at run
      exact ⟨x, List.mem_cons_self, head.trans (congrArg _ (Except.error.inj run))⟩
    | ok y =>
      cases tail : xs.mapM f with
      | error e' =>
        rw [head, tail] at run
        obtain ⟨x', member, fails⟩ := ih (tail.trans (congrArg _ (Except.error.inj run)))
        exact ⟨x', List.mem_cons_of_mem _ member, fails⟩
      | ok ys => rw [head, tail] at run; cases run

section Arrays
variable [LinearOrder R] [Fintype R] {G : Grammar R} {fuel : Nat} {leads : List (Lead R)}
  {arrays : List (List (Lead R))} {γ : List (Symbol Token R)}

theorem mem_successors {new : List (List (Lead R))} (run : successors G fuel leads = .ok new)
    {target : List (Lead R)} :
    target ∈ new ↔ ∃ X, (∃ l ∈ leads, G.lr.next l.core = some X) ∧
      shiftState G fuel (leadsOn G leads (some X)) = .ok target := by
  obtain ⟨news, groups, rfl⟩ := successors_ok run
  obtain ⟨outputs, inputs⟩ := mapM_ok groups
  constructor
  · intro member
    obtain ⟨out, present, inside⟩ := List.mem_flatten.mp member
    obtain ⟨⟨symbol, g⟩, listed, step⟩ := inputs out present
    obtain ⟨rfl, l, found, next⟩ := mem_groupLeads.mp listed
    cases symbol with
    | none =>
      simp only [successor] at step
      split at step
      · obtain rfl := Except.ok.inj step
        cases inside
      · cases step
    | some X =>
      simp only [successor] at step
      cases shift : shiftState G fuel (leadsOn G leads (some X)) with
      | error e => rw [shift] at step; cases step
      | ok closure =>
        rw [shift] at step
        obtain rfl := Except.ok.inj step
        obtain rfl := List.mem_singleton.mp inside
        exact ⟨X, ⟨l, found, next⟩, shift⟩
  · rintro ⟨X, present, shift⟩
    obtain ⟨out, member, step⟩ := outputs (some X, leadsOn G leads (some X)) (mem_groupLeads.mpr ⟨rfl, present⟩)
    simp only [successor, shift] at step
    obtain rfl := Except.ok.inj step
    exact List.mem_flatten.mpr ⟨_, member, List.mem_cons_self⟩

theorem successors_shift {new : List (List (Lead R))} (run : successors G fuel leads = .ok new)
    {l : Lead R} {X : Symbol Token R} (member : l ∈ leads) (next : G.lr.next l.core = some X) :
    ∃ target, shiftState G fuel (leadsOn G leads (some X)) = .ok target := by
  obtain ⟨news, groups, rfl⟩ := successors_ok run
  obtain ⟨out, _, step⟩ := (mapM_ok groups).1 (some X, leadsOn G leads (some X))
    (mem_groupLeads.mpr ⟨rfl, l, member, next⟩)
  simp only [successor] at step
  cases shift : shiftState G fuel (leadsOn G leads (some X)) with
  | error e => rw [shift] at step; cases step
  | ok target => exact ⟨target, rfl⟩

/-- A state that went through has at most one complete lead. -/
theorem successors_complete {new : List (List (Lead R))} (run : successors G fuel leads = .ok new) :
    (leadsOn G leads none).length ≤ 1 := by
  obtain ⟨news, groups, rfl⟩ := successors_ok run
  rcases List.eq_nil_or_concat' (leadsOn G leads none) with empty | ⟨_, l, shape⟩
  · simp [empty]
  · have inside := mem_leadsOn.mp (shape ▸ List.mem_append_right _ List.mem_cons_self : l ∈ leadsOn G leads none)
    obtain ⟨out, _, step⟩ := (mapM_ok groups).1 (none, leadsOn G leads none)
      (mem_groupLeads.mpr ⟨rfl, l, inside.1, inside.2⟩)
    simp only [successor] at step
    split at step
    · assumption
    · cases step

theorem complete_unique {new : List (List (Lead R))} (run : successors G fuel leads = .ok new) {l l' : Lead R}
    (member : l ∈ leads) (next : G.lr.next l.core = none) (member' : l' ∈ leads)
    (next' : G.lr.next l'.core = none) : l = l' := by
  have first := mem_leadsOn.mpr ⟨member, next⟩
  have second := mem_leadsOn.mpr ⟨member', next'⟩
  have single := successors_complete run
  rcases shape : leadsOn G leads none with _ | ⟨x, _ | ⟨y, rest⟩⟩ <;> rw [shape] at first second single
  · cases first
  · rw [List.mem_singleton.mp first, List.mem_singleton.mp second]
  · simp at single

/-- The lead arrays of a finished generation: closed under successors, and all reached. -/
structure Complete (G : Grammar R) (fuel : Nat) (arrays : List (List (Lead R))) : Prop where
  first : ∃ leads, arrays[0]? = some leads ∧ Denotes G leads []
  expanded : ∀ leads ∈ arrays, Worklist.Expanded (successors G fuel) arrays leads
  reached : ∀ leads ∈ arrays, ∃ γ, Denotes G leads γ ∧ ∃ c, G.lr.Lead γ c

theorem reach_denotes {start : List (Lead R)} (root : Denotes G start [])
    (reach : Worklist.Reach (successors G fuel) [start] leads) :
    ∃ γ, Denotes G leads γ ∧ ∃ c, G.lr.Lead γ c := by
  induction reach with
  | root member =>
    obtain rfl := List.mem_singleton.mp member
    exact ⟨[], root, _, .root⟩
  | step _ run member ih =>
    obtain ⟨γ, denotes, _⟩ := ih
    obtain ⟨X, ⟨l, present, next⟩, shift⟩ := (mem_successors run).mp member
    have lead := (denotes.covers.sound l present).1
    exact ⟨_, denotes.shift lead next shift, _, .advance lead next⟩

/-- The arrays of a finished generation are different, and grow from the closure of the root lead. -/
structure Collected (G : Grammar R) (fuel : Nat) (arrays : List (List (Lead R))) : Prop where
  nodup : arrays.Nodup
  grown : ∃ closure, gatherLeads G fuel [rootLead G] 0 1 = .ok closure ∧
    arrays[0]? = some (consolidateLeads closure) ∧
    ∀ leads ∈ arrays, Worklist.Reach (successors G fuel) [consolidateLeads closure] leads

/-- What the generator leaves behind when it finishes. -/
theorem parserStates_collected {states : List (State R)} (run : parserStates G fuel = .ok states) :
    ∃ arrays, states = arrays.map (filled G fuel arrays) ∧ Complete G fuel arrays ∧
      Collected G fuel arrays := by
  rw [parserStates_eq] at run
  cases closure : gatherLeads G fuel [rootLead G] 0 1 with
  | error e => rw [closure] at run; cases run
  | ok out =>
    rw [closure, ok_bind] at run
    cases saturation : Worklist.saturate (successors G fuel) .outOfFuel fuel [consolidateLeads out] 0 1 with
    | error e => rw [saturation] at run; cases run
    | ok arrays =>
      rw [saturation] at run
      obtain ⟨⟨rest, rfl⟩, expanded, reach, nodup⟩ := Worklist.saturate_ok saturation rfl (by simp)
      have root := denotes_consolidate (gatherLeads_covers (kernel_root G) closure)
      refine ⟨_, (Except.ok.inj run).symm, ⟨⟨_, rfl, root⟩, expanded, ?_⟩, nodup (List.nodup_singleton _), ?_⟩
      · intro leads member
        exact reach_denotes root (reach leads member)
      · exact ⟨out, closure, rfl, reach⟩

theorem parserStates_ok {states : List (State R)} (run : parserStates G fuel = .ok states) :
    ∃ arrays, states = arrays.map (filled G fuel arrays) ∧ Complete G fuel arrays := by
  obtain ⟨arrays, filled, complete, _⟩ := parserStates_collected run
  exact ⟨arrays, filled, complete⟩

/-! ### States and stacks -/

/-- State `q` stands for the stack `γ`. -/
def Reps (G : Grammar R) (arrays : List (List (Lead R))) (q : Nat) (γ : List (Symbol Token R)) : Prop :=
  ∃ leads, arrays[q]? = some leads ∧ Denotes G leads γ

/-- The index of the state to which the leads on `X` go. -/
def target (G : Grammar R) (fuel : Nat) (arrays : List (List (Lead R))) (leads : List (Lead R))
    (X : Symbol Token R) : Nat :=
  match shiftState G fuel (leadsOn G leads (some X)) with
  | .ok leads => arrays.idxOf leads
  | .error _ => 0

theorem Complete.target (complete : Complete G fuel arrays) (member : leads ∈ arrays)
    (denotes : Denotes G leads γ) {X : Symbol Token R} {c : Lr.Core R} (lead : G.lr.Lead γ c)
    (next : G.lr.next c = some X) : Reps G arrays (target G fuel arrays leads X) (X :: γ) := by
  obtain ⟨new, run, inside⟩ := complete.expanded leads member
  obtain ⟨l, present, rfl⟩ := denotes.lead_iff.mp lead
  obtain ⟨closure, shift⟩ := successors_shift run present next
  have found := inside ((mem_successors run).mpr ⟨X, ⟨l, present, next⟩, shift⟩)
  refine ⟨closure, ?_, denotes.shift lead next shift⟩
  have bound := List.idxOf_lt_length_of_mem found
  simp only [Low.target, shift, List.getElem?_eq_getElem bound, List.getElem_idxOf bound]

theorem Complete.state (complete : Complete G fuel arrays) {c : Lr.Core R}
    (lead : G.lr.Lead γ c) : ∃ q, Reps G arrays q γ := by
  induction γ generalizing c with
  | nil => exact ⟨0, complete.first⟩
  | cons X γ ih =>
    obtain ⟨d, lead, next⟩ := lead.pushed
    obtain ⟨q, leads, found, denotes⟩ := ih lead
    exact ⟨_, complete.target (List.mem_of_getElem? found) denotes lead next⟩

end Arrays

end Low
