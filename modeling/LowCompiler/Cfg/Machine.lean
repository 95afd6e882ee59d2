import Mathlib.Data.List.Basic

/-!
# Deterministic machines

A machine takes steps that emit events, and may end with a result. Two machines
behave alike when they end with the same events and the same result, and also emit
the same events in runs that do not end.
-/

namespace Low

/-- A step emits events, and leads to a state or to a result. -/
structure Machine (S E R : Type) where
  step : S → List E × (S ⊕ R)

namespace Machine

variable {S T E R : Type}

/-- The events of at most `count` steps, and where they lead. -/
def run (machine : Machine S E R) : Nat → S ⊕ R → List E × (S ⊕ R)
  | 0, config => ([], config)
  | _ + 1, .inr result => ([], .inr result)
  | count + 1, .inl state =>
    let (events, config) := machine.step state
    let (later, final) := machine.run count config
    (events ++ later, final)

def Ends (machine : Machine S E R) (state : S) (events : List E) (result : R) : Prop :=
  ∃ count, machine.run count (.inl state) = (events, .inr result)

def Emits (machine : Machine S E R) (state : S) (events : List E) : Prop :=
  ∃ count, events <+: (machine.run count (.inl state)).1

/-- Two machines end with the same events and results, and emit the same events whether they end or not. -/
def SameBehaviour (A : Machine S E R) (B : Machine T E R) (s : S) (t : T) : Prop :=
  (∀ events result, A.Ends s events result ↔ B.Ends t events result) ∧
    ∀ events, A.Emits s events ↔ B.Emits t events

section Runs
variable {machine : Machine S E R} {m n : Nat} {config : S ⊕ R}

@[simp] theorem run_result {result : R} : machine.run n (.inr result) = ([], .inr result) := by
  cases n <;> rfl

theorem run_zero (machine : Machine S E R) (config : S ⊕ R) : machine.run 0 config = ([], config) := rfl

theorem run_step {state : S} {events : List E} {next : S ⊕ R} (step : machine.step state = (events, next)) :
    machine.run (n + 1) (.inl state) = (events ++ (machine.run n next).1, (machine.run n next).2) := by
  simp only [run, step]

theorem run_one {state : S} : machine.run 1 (.inl state) = machine.step state := by
  simp [run]

theorem run_add : machine.run (m + n) config =
    ((machine.run m config).1 ++ (machine.run n (machine.run m config).2).1,
      (machine.run n (machine.run m config).2).2) := by
  induction m generalizing config with
  | zero => simp [run]
  | succ m ih =>
    rw [Nat.succ_add]
    cases config with
    | inr result => simp
    | inl state => simp only [run, ih, List.append_assoc]

theorem run_trans {middle final : S ⊕ R} {early late : List E} (first : machine.run m config = (early, middle))
    (second : machine.run n middle = (late, final)) : machine.run (m + n) config = (early ++ late, final) := by
  rw [run_add, first, second]

theorem run_prefix (machine : Machine S E R) (config : S ⊕ R) (le : m ≤ n) :
    (machine.run m config).1 <+: (machine.run n config).1 := by
  obtain ⟨more, rfl⟩ := Nat.exists_eq_add_of_le le
  rw [run_add]
  exact List.prefix_append _ _

theorem run_ended {events : List E} {result : R} (ended : machine.run m config = (events, .inr result))
    (le : m ≤ n) : machine.run n config = (events, .inr result) := by
  obtain ⟨more, rfl⟩ := Nat.exists_eq_add_of_le le
  rw [run_add, ended]
  simp

end Runs

/-! ### Simulation -/

/-- Each step of `A` is a number of steps of `B`. Where it is none, the measure falls, so that a run of `A`
does not stand still while `B` could go on. -/
structure Simulation (A : Machine S E R) (B : Machine T E R) (Related : S → T → Prop) (measure : S → Nat) :
    Prop where
  goes : ∀ {s t events s'}, Related s t → A.step s = (events, .inl s') →
    ∃ count t', B.run count (.inl t) = (events, .inl t') ∧ Related s' t' ∧
      (0 < count ∨ measure s' < measure s)
  ends : ∀ {s t events result}, Related s t → A.step s = (events, .inr result) →
    ∃ count, B.run count (.inl t) = (events, .inr result)

namespace Simulation

variable {A : Machine S E R} {B : Machine T E R} {Related : S → T → Prop} {measure : S → Nat}
  (sim : Simulation A B Related measure)
include sim

theorem run {n : Nat} {s : S} {t : T} {events : List E} {s' : S} (related : Related s t)
    (steps : A.run n (.inl s) = (events, .inl s')) :
    ∃ count t', B.run count (.inl t) = (events, .inl t') ∧ Related s' t' := by
  induction n generalizing s t events with
  | zero =>
    cases steps
    exact ⟨0, t, rfl, related⟩
  | succ n ih =>
    rcases first : A.step s with ⟨early, s₁ | result⟩
    · rw [run_step first] at steps
      obtain ⟨rfl, later⟩ := Prod.mk.inj steps
      obtain ⟨count, t₁, moved, related₁, _⟩ := sim.goes related first
      obtain ⟨more, t', rest, related'⟩ := ih related₁ (Prod.ext rfl later)
      exact ⟨count + more, t', run_trans moved rest, related'⟩
    · rw [run_step first] at steps
      simp at steps

theorem run_ends {n : Nat} {s : S} {t : T} {events : List E} {result : R} (related : Related s t)
    (steps : A.run n (.inl s) = (events, .inr result)) : B.Ends t events result := by
  induction n generalizing s t events with
  | zero => cases steps
  | succ n ih =>
    rcases first : A.step s with ⟨early, s₁ | final⟩
    · rw [run_step first] at steps
      obtain ⟨rfl, later⟩ := Prod.mk.inj steps
      obtain ⟨count, t₁, moved, related₁, _⟩ := sim.goes related first
      obtain ⟨more, rest⟩ := ih related₁ (Prod.ext rfl later)
      exact ⟨count + more, run_trans moved rest⟩
    · rw [run_step first] at steps
      simp only [run_result, List.append_nil, Prod.mk.injEq, Sum.inr.injEq] at steps
      obtain ⟨rfl, rfl⟩ := steps
      exact sim.ends related first

/-- The state before the last step is related to one of `B`. -/
theorem last {n : Nat} {s : S} {t : T} {events : List E} {result : R} (related : Related s t)
    (steps : A.run n (.inl s) = (events, .inr result)) :
    ∃ s' t' final, Related s' t' ∧ A.step s' = (final, .inr result) := by
  induction n generalizing s t events with
  | zero => cases steps
  | succ n ih =>
    rcases first : A.step s with ⟨early, s₁ | ended⟩
    · rw [run_step first] at steps
      obtain ⟨_, later⟩ := Prod.mk.inj steps
      obtain ⟨_, t₁, _, related₁, _⟩ := sim.goes related first
      exact ih related₁ (Prod.ext rfl later)
    · rw [run_step first] at steps
      simp only [run_result, List.append_nil, Prod.mk.injEq, Sum.inr.injEq] at steps
      obtain ⟨_, rfl⟩ := steps
      exact ⟨s, t, early, related, first⟩

/-- However far `B` runs, a run of `A` ends or comes as far. -/
theorem covers (k : Nat) {s : S} {t : T} (related : Related s t) :
    (∃ n events result, A.run n (.inl s) = (events, .inr result)) ∨
      ∃ n events s' count t', A.run n (.inl s) = (events, .inl s') ∧ B.run count (.inl t) = (events, .inl t') ∧
        k ≤ count := by
  induction k using Nat.strongRecOn generalizing s t with
  | _ k far =>
    induction rank : measure s using Nat.strongRecOn generalizing s t with
    | _ rank near =>
      subst rank
      by_cases zero : k = 0
      · subst zero
        exact .inr ⟨0, [], s, 0, t, rfl, rfl, Nat.le_refl 0⟩
      rcases first : A.step s with ⟨early, s₁ | result⟩
      · obtain ⟨count, t₁, moved, related₁, progress⟩ := sim.goes related first
        have continued : (∃ n events result, A.run n (.inl s₁) = (events, .inr result)) ∨
            ∃ n events s' more t', A.run n (.inl s₁) = (events, .inl s') ∧
              B.run more (.inl t₁) = (events, .inl t') ∧ k - count ≤ more := by
          by_cases stutter : count = 0
          · subst stutter
            exact near _ (progress.resolve_left (Nat.lt_irrefl 0)) related₁ rfl
          · exact far (k - count) (by omega) related₁
        rcases continued with ⟨n, events, result, ended⟩ | ⟨n, events, s', more, t', steps, rest, reach⟩
        · exact .inl ⟨n + 1, early ++ events, result, by rw [run_step first, ended]⟩
        · refine .inr ⟨n + 1, early ++ events, s', count + more, t', ?_, run_trans moved rest, by omega⟩
          rw [run_step first, steps]
      · exact .inl ⟨1, early, result, by rw [run_one, first]⟩

theorem sameBehaviour {s : S} {t : T} (related : Related s t) : SameBehaviour A B s t := by
  refine ⟨fun events result => ⟨?_, ?_⟩, fun events => ⟨?_, ?_⟩⟩
  · rintro ⟨n, ended⟩
    exact sim.run_ends related ended
  · rintro ⟨k, ended⟩
    rcases sim.covers (k + 1) related with ⟨n, events', result', done⟩ | ⟨_, _, _, count, t', _, running, reach⟩
    · obtain ⟨j, ended'⟩ := sim.run_ends related done
      have same := (run_ended ended (Nat.le_max_left k j)).symm.trans (run_ended ended' (Nat.le_max_right k j))
      simp only [Prod.mk.injEq, Sum.inr.injEq] at same
      obtain ⟨rfl, rfl⟩ := same
      exact ⟨n, done⟩
    · rw [run_ended ended (Nat.le_of_succ_le reach)] at running
      simp at running
  · rintro ⟨n, begins⟩
    rcases steps : A.run n (.inl s) with ⟨trace, s' | result⟩
    · obtain ⟨count, t', moved, _⟩ := sim.run related steps
      exact ⟨count, by rwa [moved, ← show (A.run n (.inl s)).1 = trace by rw [steps]]⟩
    · obtain ⟨count, ended⟩ := sim.run_ends related steps
      exact ⟨count, by rwa [ended, ← show (A.run n (.inl s)).1 = trace by rw [steps]]⟩
  · rintro ⟨k, begins⟩
    rcases sim.covers k related with ⟨n, trace, result, done⟩ | ⟨n, trace, s', count, t', steps, running, reach⟩
    · obtain ⟨j, ended⟩ := sim.run_ends related done
      refine ⟨n, begins.trans ?_⟩
      have upto := run_prefix B (.inl t) (Nat.le_max_left k j)
      rw [run_ended ended (Nat.le_max_right k j)] at upto
      rwa [done]
    · refine ⟨n, begins.trans ?_⟩
      have upto := run_prefix B (.inl t) reach
      rw [running] at upto
      rwa [steps]

end Simulation

end Machine

end Low
