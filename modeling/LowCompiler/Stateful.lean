import Mathlib.Data.List.Basic

/-!
# Fallible programs with a state

Rules for programs in `StateT S (Except E)`: what a run of a composed program says
about the runs of its parts, two rules for a loop over a list, and a relation between
two programs that fail together.
-/

namespace Stateful

variable {S E α β : Type}

@[simp] theorem pure_apply (a : α) (s : S) : (pure a : StateT S (Except E) α) s = .ok (a, s) := rfl

@[simp] theorem throw_apply (e : E) (s : S) : (throw e : StateT S (Except E) α) s = .error e := rfl

@[simp] theorem get_apply (s : S) : (get : StateT S (Except E) S) s = .ok (s, s) := rfl

@[simp] theorem modify_apply (f : S → S) (s : S) :
    (modify f : StateT S (Except E) Unit) s = .ok ((), f s) := rfl

theorem bind_apply (m : StateT S (Except E) α) (f : α → StateT S (Except E) β) (s : S) :
    (m >>= f) s = match m s with
      | .ok (a, s') => f a s'
      | .error e => .error e := by
  cases run : m s <;> simp [bind, StateT.bind, Except.bind, run]

theorem throw_bind (e : E) (f : α → StateT S (Except E) β) (s : S) : (throw e >>= f) s = .error e := rfl

theorem bind_ok {m : StateT S (Except E) α} {f : α → StateT S (Except E) β} {s : S} {r : β × S} :
    (m >>= f) s = .ok r ↔ ∃ a s', m s = .ok (a, s') ∧ f a s' = .ok r := by
  rw [bind_apply]
  cases run : m s with
  | error e => simp
  | ok r => exact ⟨fun h => ⟨_, _, rfl, h⟩, fun ⟨_, _, same, h⟩ => by cases same; exact h⟩

theorem bind_error {m : StateT S (Except E) α} {f : α → StateT S (Except E) β} {s : S} {e : E} :
    (m >>= f) s = .error e ↔ m s = .error e ∨ ∃ a s', m s = .ok (a, s') ∧ f a s' = .error e := by
  rw [bind_apply]
  cases run : m s with
  | error e => simp
  | ok r =>
    constructor
    · exact fun h => .inr ⟨_, _, rfl, h⟩
    · intro h
      obtain failed | ⟨_, _, same, h⟩ := h
      · cases failed
      · cases same
        exact h

theorem mapM_congr {f g : α → StateT S (Except E) β} {xs : List α} (same : ∀ x ∈ xs, f x = g x) :
    xs.mapM f = xs.mapM g := by
  induction xs with
  | nil => rfl
  | cons x xs ih =>
    obtain ⟨first, rest⟩ := List.forall_mem_cons.mp same
    rw [List.mapM_cons, List.mapM_cons, first, ih rest]

section Loop
variable {f : α → StateT S (Except E) β} {I : S → Prop} {xs : List α} {s s' : S} {ys : List β}

/-- A loop that succeeds keeps what its turns keep, and each of its turns has succeeded. -/
theorem mapM_ok (kept : ∀ x ∈ xs, ∀ s y s', I s → f x s = .ok (y, s') → I s') (initial : I s)
    (run : xs.mapM f s = .ok (ys, s')) : I s' ∧ ∀ x ∈ xs, ∃ s₁ y s₂, I s₁ ∧ f x s₁ = .ok (y, s₂) := by
  induction xs generalizing s ys with
  | nil =>
    cases run
    exact ⟨initial, nofun⟩
  | cons x xs ih =>
    rw [List.mapM_cons] at run
    obtain ⟨y, s₁, first, run⟩ := bind_ok.mp run
    obtain ⟨ys, s₂, rest, run⟩ := bind_ok.mp run
    cases run
    obtain ⟨last, turns⟩ := ih (fun x member => kept x (.tail _ member)) (kept x (.head _) s y s₁ initial first) rest
    exact ⟨last, List.forall_mem_cons.mpr ⟨⟨s, y, s₁, initial, first⟩, turns⟩⟩

theorem mapM_error (kept : ∀ x ∈ xs, ∀ s y s', I s → f x s = .ok (y, s') → I s') (initial : I s) {e : E}
    (run : xs.mapM f s = .error e) : ∃ x ∈ xs, ∃ s₁, I s₁ ∧ f x s₁ = .error e := by
  induction xs generalizing s with
  | nil => cases run
  | cons x xs ih =>
    rw [List.mapM_cons] at run
    obtain failed | ⟨y, s₁, first, run⟩ := bind_error.mp run
    · exact ⟨x, .head _, s, initial, failed⟩
    · obtain failed | ⟨ys, s₂, _, run⟩ := bind_error.mp run
      · obtain ⟨x, member, found⟩ :=
          ih (fun x member => kept x (.tail _ member)) (kept x (.head _) s y s₁ initial first) failed
        exact ⟨x, .tail _ member, found⟩
      · cases run

theorem mapM_agree {g : α → StateT S (Except E) β} {t t' : S} {zs : List β}
    (kept : ∀ x ∈ xs, ∀ s y s', I s → f x s = .ok (y, s') → I s')
    (kept' : ∀ x ∈ xs, ∀ s y s', I s → g x s = .ok (y, s') → I s')
    (agree : ∀ x ∈ xs, ∀ s t y z s' t', I s → I t → f x s = .ok (y, s') → g x t = .ok (z, t') → y = z)
    (initial : I s) (initial' : I t) (run : xs.mapM f s = .ok (ys, s')) (run' : xs.mapM g t = .ok (zs, t')) :
    ys = zs := by
  induction xs generalizing s t ys zs with
  | nil =>
    cases run
    cases run'
    rfl
  | cons x xs ih =>
    rw [List.mapM_cons] at run run'
    obtain ⟨y, s₁, first, run⟩ := bind_ok.mp run
    obtain ⟨ys, s₂, rest, run⟩ := bind_ok.mp run
    obtain ⟨z, t₁, first', run'⟩ := bind_ok.mp run'
    obtain ⟨zs, t₂, rest', run'⟩ := bind_ok.mp run'
    cases run
    cases run'
    have head := agree x (.head _) s t y z s₁ t₁ initial initial' first first'
    have tail := ih (fun x member => kept x (.tail _ member)) (fun x member => kept' x (.tail _ member))
      (fun x member => agree x (.tail _ member)) (kept x (.head _) s y s₁ initial first)
      (kept' x (.head _) t z t₁ initial' first') rest rest'
    rw [head, tail]

/-- The results of a loop belong to its turns, in their order. -/
theorem mapM_turn {R : S → S → Prop} (refl : ∀ s, R s s) (trans : ∀ {s t u}, R s t → R t u → R s u)
    (step : ∀ x ∈ xs, ∀ s y s', f x s = .ok (y, s') → R s s') (run : xs.mapM f s = .ok (ys, s')) :
    R s s' ∧ ys.length = xs.length ∧ ∀ (i : Nat) x, xs[i]? = some x →
      ∃ y s₁ s₂, ys[i]? = some y ∧ R s s₁ ∧ f x s₁ = .ok (y, s₂) ∧ R s₂ s' := by
  induction xs generalizing s ys with
  | nil =>
    cases run
    exact ⟨refl _, rfl, nofun⟩
  | cons x xs ih =>
    rw [List.mapM_cons] at run
    obtain ⟨y, s₁, first, run⟩ := bind_ok.mp run
    obtain ⟨ys, s₂, rest, run⟩ := bind_ok.mp run
    cases run
    have before := step x (.head _) s y s₁ first
    obtain ⟨after, length, turns⟩ := ih (fun x member => step x (.tail _ member)) rest
    refine ⟨trans before after, congrArg (· + 1) length, fun i x' found => ?_⟩
    cases i with
    | zero =>
      cases found
      exact ⟨y, s, s₁, rfl, refl s, first, after⟩
    | succ i =>
      obtain ⟨y', t₁, t₂, place, le, turn, le'⟩ := turns i x' found
      exact ⟨y', t₁, t₂, place, trans before le, turn, le'⟩

/-- A loop whose turns differ in their results only. -/
theorem mapM_zipWith {g : α → StateT S (Except E) β} {h : α → β → β}
    (same : ∀ x ∈ xs, ∀ s y s', f x s = .ok (y, s') → g x s = .ok (h x y, s'))
    (run : xs.mapM f s = .ok (ys, s')) :
    xs.mapM g s = .ok (List.zipWith h xs ys, s') := by
  induction xs generalizing s ys with
  | nil =>
    cases run
    rfl
  | cons x xs ih =>
    rw [List.mapM_cons] at run ⊢
    obtain ⟨y, s₁, first, run⟩ := bind_ok.mp run
    obtain ⟨ys, s₂, rest, run⟩ := bind_ok.mp run
    cases run
    have rest' := ih (fun x member => same x (.tail _ member)) rest
    exact bind_ok.mpr ⟨_, _, same x (.head _) s y s₁ first, bind_ok.mpr ⟨_, _, rest', rfl⟩⟩

end Loop

/-! ### Two programs side by side -/

section Together
variable {γ δ : Type} {R : α → β → Prop} {Q : γ → δ → Prop}

/-- Both succeed with related results, or both fail with the same error. -/
def Together (R : α → β → Prop) : Except E α → Except E β → Prop
  | .ok a, .ok b => R a b
  | .error e, .error e' => e = e'
  | _, _ => False

theorem ok_of_bind {m : Except E α} {f : α → Except E β} {b : β} (run : (m >>= f) = .ok b) :
    ∃ a, m = .ok a ∧ f a = .ok b := by
  cases m with
  | error e => cases run
  | ok a => exact ⟨a, rfl, run⟩

/-- The first component of a result that is put together at the end. -/
theorem result_of_bind {γ : Type} {m : Except E α} {f : α → β × γ} {b : β} {c : γ}
    (run : (m >>= fun a => Except.ok (f a)) = .ok (b, c)) : ∃ a, m = .ok a ∧ (f a).1 = b := by
  obtain ⟨a, first, result⟩ := ok_of_bind run
  exact ⟨a, first, congrArg Prod.fst (Except.ok.inj result)⟩

theorem ok_bind (a : α) (f : α → Except E β) : (Except.ok a >>= f) = f a := rfl

theorem together_ok {a : α} {b : β} (related : R a b) : Together (E := E) R (.ok a) (.ok b) := related

theorem together_refl {m : Except E α} : Together (· = ·) m m := by
  cases m <;> rfl

theorem together_bind {m : Except E α} {n : Except E β} {f : α → Except E γ} {g : β → Except E δ}
    (start : Together R m n) (rest : ∀ a b, m = .ok a → n = .ok b → R a b → Together Q (f a) (g b)) :
    Together Q (m >>= f) (n >>= g) := by
  cases m with
  | error e =>
    cases n with
    | error e' => exact start
    | ok b => exact start.elim
  | ok a =>
    cases n with
    | error e' => exact start.elim
    | ok b => exact rest a b rfl rfl start

end Together

end Stateful
