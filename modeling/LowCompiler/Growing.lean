import LowCompiler.Stateful
import Mathlib

/-!
# Programs that only add

Programs in `StateT S (Except E)` over an ordered type of states, that leave a state
above the one they begin in. Verification conditions come from the rules here, and
what is left of them is a chain in the order.
-/

namespace Stateful

open Std.Do

set_option mvcgen.warning false

variable {S E α β : Type} [Preorder S] {s₀ : S}

/-- A run from above a state ends above it. -/
abbrev Keeps (s₀ : S) (m : StateT S (Except E) α) : Prop := ⦃fun s => ⌜s₀ ≤ s⌝⦄ m ⦃⇓? _ s => ⌜s₀ ≤ s⌝⦄

theorem Keeps.of_run {m : StateT S (Except E) α} (le : ∀ s a s', m s = .ok (a, s') → s ≤ s') : Keeps s₀ m := by
  intro s initial
  simp only [wp, StateT.run, PredTrans.pushArg, PredTrans.apply]
  cases run : m s with
  | error e => exact trivial
  | ok r => exact le_trans initial (le s r.1 r.2 run)

theorem Keeps.run {m : StateT S (Except E) α} (keeps : ∀ s₀, Keeps s₀ m) {s s' : S} {a : α}
    (run : m s = .ok (a, s')) : s ≤ s' := by
  have after := keeps s s (le_refl s)
  simp only [wp, StateT.run, PredTrans.pushArg, PredTrans.apply, run] at after
  exact after

theorem keeps_pure (a : α) : Keeps s₀ (pure a : StateT S (Except E) α) := by
  refine Keeps.of_run fun s _ _ run => ?_
  cases run
  exact le_refl s

@[spec high] theorem keeps_throw (e : E) : Keeps s₀ (throw e : StateT S (Except E) α) := Keeps.of_run nofun

@[spec high] theorem keeps_monadLift (m : Except E α) : Keeps s₀ (monadLift m : StateT S (Except E) α) := by
  refine Keeps.of_run fun s a s' run => ?_
  cases m with
  | error e => cases run
  | ok a =>
    cases run
    exact le_refl s

/-- A loop goes up with each of its turns. -/
@[spec] theorem keeps_mapM {f : α → StateT S (Except E) β} (turn : ∀ s₀ x, Keeps s₀ (f x)) (xs : List α) :
    Keeps s₀ (xs.mapM f) := by
  induction xs with
  | nil => exact Keeps.of_run fun s a s' run => by cases run; exact le_refl s
  | cons x xs ih =>
    rw [List.mapM_cons]
    mvcgen [turn, ih] with grind

end Stateful
