import LowCompiler.Cfg.Builder
import LowCompiler.Cfg.Machine

/-!
# Runs of a graph of basic blocks

Plain instructions are the events of a run, and a sequence of outcomes decides the
conditional branches. A run that comes to the end of the current block, where the
next instruction would be built, completes.
-/

namespace Low

inductive Outcome (V : Type) where
  | completed
  | returned (value : Option V)
  | stuck
  deriving DecidableEq, Repr

/-- A place in a graph, and the outcomes that are still to come. -/
structure Config where
  place : Nat × Nat
  outcomes : Nat → Bool

def later (outcomes : Nat → Bool) : Nat → Bool := fun n => outcomes (n + 1)

namespace Builder

variable {I V : Type}

def place (b : Builder I V) : Nat × Nat := (b.current, (b.block b.current).length)

def machine (g : Builder I V) : Machine Config I (Outcome V) where
  step config :=
    match (g.block config.place.1)[config.place.2]? with
    | some (.plain instr) => ([instr], .inl { config with place := (config.place.1, config.place.2 + 1) })
    | some (.br block) => ([], .inl { config with place := (block, 0) })
    | some (.condBr _ onTrue onFalse) =>
      ([], .inl ⟨(if config.outcomes 0 then onTrue else onFalse, 0), later config.outcomes⟩)
    | some (.ret value) => ([], .inr (.returned value))
    | some .unreachable => ([], .inr .stuck)
    | none => ([], .inr (if config.place = g.place then .completed else .stuck))

def At (g : Builder I V) (place : Nat × Nat) (instr : Instr I V) : Prop :=
  (g.block place.1)[place.2]? = some instr

section Steps
variable {g : Builder I V} {place : Nat × Nat} {outcomes : Nat → Bool}

theorem step_plain {instr : I} (here : At g place (.plain instr)) :
    g.machine.step ⟨place, outcomes⟩ = ([instr], .inl ⟨(place.1, place.2 + 1), outcomes⟩) := by
  simp only [At] at here
  simp only [machine, here]

theorem step_br {block : Nat} (here : At g place (.br block)) :
    g.machine.step ⟨place, outcomes⟩ = ([], .inl ⟨(block, 0), outcomes⟩) := by
  simp only [At] at here
  simp only [machine, here]

theorem step_condBr {cond : V} {onTrue onFalse : Nat} (here : At g place (.condBr cond onTrue onFalse)) :
    g.machine.step ⟨place, outcomes⟩ =
      ([], .inl ⟨(if outcomes 0 then onTrue else onFalse, 0), later outcomes⟩) := by
  simp only [At] at here
  simp only [machine, here]

theorem step_ret {value : Option V} (here : At g place (.ret value)) :
    g.machine.step ⟨place, outcomes⟩ = ([], .inr (.returned value)) := by
  simp only [At] at here
  simp only [machine, here]

theorem step_end (here : place = g.place) : g.machine.step ⟨place, outcomes⟩ = ([], .inr .completed) := by
  subst here
  simp [machine, Builder.place]

theorem run_test (outcomes : Nat → Bool) {instr : I} {cond : V} {onTrue onFalse : Nat}
    (here : At g place (.plain instr))
    (test : At g (place.1, place.2 + 1) (.condBr cond onTrue onFalse)) :
    g.machine.run 2 (.inl ⟨place, outcomes⟩) =
      ([instr], .inl ⟨(if outcomes 0 then onTrue else onFalse, 0), later outcomes⟩) := by
  rw [Machine.run_step (step_plain here), Machine.run_one, step_condBr test]
  rfl

end Steps

section Places
variable {g b : Builder I V} (instr : Instr I V)

theorem at_build (inside : b.current < b.blocks.length) (grows : Grows (b.build instr) g) :
    At g b.place instr := by
  obtain ⟨more, same⟩ := grows.block b.current
  rw [build_block _ _ _ inside, if_pos rfl] at same
  simp only [At, place, ← same]
  simp

theorem place_build (inside : b.current < b.blocks.length) :
    (b.build instr).place = (b.place.1, b.place.2 + 1) := by
  simp [place, build_block _ _ _ inside]

@[simp] theorem place_appendBlock : b.appendBlock.place = b.place := by
  simp [place]

theorem Finished.place {pending : List Nat} {n : Nat} (finished : Finished pending b) (member : n ∈ pending) :
    (b.positionAtEnd n).place = (n, 0) := by
  simp [Builder.place, finished.unstarted n member]

theorem place_start (b₁ : Builder I V) (inside : b.current < b.blocks.length) (current : b₁.current = b.current)
    (more : b.blocks.length ≤ b₁.blocks.length) (same : ∀ n, b₁.block n = b.block n) :
    ((b₁.build instr).positionAtEnd b.blocks.length).place = (b.blocks.length, 0) := by
  have fresh : b.block b.blocks.length = [] := by simp [block]
  have other : b.blocks.length ≠ b₁.current := by omega
  simp [place, build_block b₁ _ _ (by omega), other, same, fresh]

end Places

end Builder

end Low
