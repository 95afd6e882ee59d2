import LowCompiler.Codegen.Selection

/-!
# Straight code

Instructions that are built one after the other in a block are run one after the other.
-/

namespace Low

open Llvm (Op Ty Graph Platform Activation Datum Reaches Ahead executeAll)

/-- The instructions with the numbers that they take. -/
def numberedFrom : Nat → List Op → List (Nat × Op)
  | _, [] => []
  | n, op :: ops => (n, op) :: numberedFrom (n + 1) ops

namespace Building

def pushAll (s : Building) (ops : List Op) : Building := ops.foldl (fun s op => s.push (.op op)) s

section Building
variable {s : Building}

@[simp] theorem pushAll_blocks (ops : List Op) : (s.pushAll ops).blocks = s.blocks := by
  induction ops generalizing s with
  | nil => rfl
  | cons op ops ih => exact ih.trans rfl

@[simp] theorem pushAll_current (ops : List Op) : (s.pushAll ops).current = s.current := by
  induction ops generalizing s with
  | nil => rfl
  | cons op ops ih => exact ih.trans (push_op_current s op)

@[simp] theorem pushAll_results (ops : List Op) : (s.pushAll ops).results = s.results + ops.length := by
  induction ops generalizing s with
  | nil => rfl
  | cons op ops ih =>
    have rest : ((s.push (.op op)).pushAll ops).results = (s.push (.op op)).results + ops.length := ih
    rw [pushAll, List.foldl_cons, ← pushAll, rest, push_results, List.length_cons]
    simp only [Emitted.op?, Option.toList_some, List.length_singleton]
    omega

theorem Sound.pushAll (sound : s.Sound) (ops : List Op) : (s.pushAll ops).Sound := by
  induction ops generalizing s with
  | nil => exact sound
  | cons op ops ih => exact ih (sound.push trivial)

theorem Sound.pushAll_block (sound : s.Sound) (ops : List Op) :
    (s.pushAll ops).block s.current = s.block s.current ++ (numberedFrom s.results ops).map .plain := by
  induction ops generalizing s with
  | nil => exact (List.append_nil _).symm
  | cons op ops ih =>
    have first : (s.push (.op op)).block s.current = s.block s.current ++ [.plain (s.results, op)] := by
      rw [push_block, if_pos rfl, Walk.instr, sound.count]
      rfl
    have rest := ih (sound.push (e := .op op) trivial)
    rw [push_op_current, first, List.append_assoc] at rest
    exact rest

theorem pushAll_elsewhere (ops : List Op) {n : Nat} (other : n ≠ s.current) :
    (s.pushAll ops).block n = s.block n := by
  induction ops generalizing s with
  | nil => rfl
  | cons op ops ih =>
    have rest := ih (s := s.push (.op op)) (by simpa using other)
    rw [push_block, if_neg other] at rest
    exact rest

theorem continues_pushAll (s : Building) (ops : List Op) : s.Continues (s.pushAll ops).block := by
  induction ops generalizing s with
  | nil => exact .refl s
  | cons op ops ih => exact (ih (s.push (.op op))).before (continues_push s _)

theorem continues_enter (s : Building) (e : Emitted) (block : Nat) : s.Continues (s.enter e block).block :=
  (continues_push _ _).before (continues_push s e)

theorem continues_context {graph : Graph} (s : Building) (c : Context) :
    ({ s with context := c } : Building).Continues graph ↔ s.Continues graph := Iff.rfl

theorem here_context {M : Type} {a : Activation M} (s : Building) (c : Context) :
    ({ s with context := c } : Building).Here a ↔ s.Here a := Iff.rfl

end Building

section Running
variable {M : Type} {platform : Platform M} {graph : Graph} {s : Building} {a a' : Activation M}

theorem executeAll_place {ops : List (Nat × Op)} {events : List Llvm.Event}
    (run : executeAll platform ops a = some (events, a')) :
    a'.block = a.block ∧ a'.index = a.index + ops.length := by
  induction ops generalizing a events with
  | nil =>
    cases run
    exact ⟨rfl, rfl⟩
  | cons entry ops ih =>
    obtain ⟨number, op⟩ := entry
    obtain ⟨effect, _, run⟩ := Option.bind_eq_some_iff.mp run
    obtain ⟨⟨late, last⟩, others, run⟩ := Option.bind_eq_some_iff.mp run
    cases run
    obtain ⟨block, index⟩ := ih others
    have moved : (a.after number effect).index = a.index + 1 := rfl
    rw [moved] at index
    exact ⟨block, by rw [index, List.length_cons]; omega⟩

/-- A run comes to where the builder stands after the instructions. -/
theorem Here.all (here : s.Here a) (sound : s.Sound) {ops : List Op} {events : List Llvm.Event}
    (continues : (s.pushAll ops).Continues graph)
    (run : executeAll platform (numberedFrom s.results ops) a = some (events, a')) :
    Reaches platform graph a events a' ∧ (s.pushAll ops).Here a' := by
  have ahead : Ahead graph a ((numberedFrom s.results ops).map .plain ++ []) := by
    rw [List.append_nil]
    exact here.ahead (sound.pushAll_block ops) continues
  obtain ⟨block, index⟩ := executeAll_place run
  refine ⟨(Llvm.reaches_all ahead run).1, ?_, ?_⟩
  · rw [block, here.1, pushAll_current]
  · rw [index, here.2, pushAll_current, sound.pushAll_block, List.length_append, List.length_map]

/-- A block ends with a jump to a block that has no code yet, or comes back to one. -/
theorem Here.br (here : s.Here a) {target block : Nat}
    (continues : (s.enter (.br target) block).Continues graph) :
    Reaches platform graph a [] (a.jump target) := by
  have ahead : Ahead graph a [.br target] := here.ahead ((between_block _).trans (if_pos rfl)) continues
  exact Llvm.reaches_br ahead

theorem Here.condBr (here : s.Here a) {condition : Llvm.Value} {onTrue onFalse block : Nat}
    (continues : (s.enter (.condBr condition onTrue onFalse) block).Continues graph) {b : Bool}
    (evaluated : condition.fetch platform a.registers = some (.truth b)) :
    Reaches platform graph a [] (a.jump (if b then onTrue else onFalse)) := by
  have built : (s.enter (.condBr condition onTrue onFalse) block).block s.current =
      s.block s.current ++ [.condBr condition onTrue onFalse] :=
    (enter_block _ _ _ _ (push_current _ _)).trans (if_pos rfl)
  have ahead : Ahead graph a [.condBr condition onTrue onFalse] := here.ahead built continues
  exact Llvm.reaches_condBr ahead evaluated

end Running

/-! ### Instructions that only compute -/

section Computing
variable {M : Type} {platform : Platform M} {a s : Activation M} {n : Nat}

/-- The registers from `n` on hold the data, and the rest is as it was. -/
structure Knows (a : Activation M) (n : Nat) (known : List Datum) (s : Activation M) : Prop where
  old : ∀ k < n, s.registers k = a.registers k
  new : ∀ i d, known[i]? = some d → s.registers (n + i) = some d
  memory : s.memory = a.memory
  objects : s.objects = a.objects
  previous : s.previous = a.previous

theorem Knows.refl (a : Activation M) (n : Nat) : Knows a n [] a where
  old := fun _ _ => rfl
  new := by simp
  memory := rfl
  objects := rfl
  previous := rfl

variable {known data : List Datum} {ops : List Op}

theorem Knows.fetch (knows : Knows a n known s) {value : Llvm.Value} (below : value.Below n) :
    value.fetch platform s.registers = value.fetch platform a.registers := by
  cases value with
  | result k type => exact knows.old k below
  | constInt type k => cases type <;> rfl
  | constAllOnes type => cases type <;> rfl
  | _ => rfl

theorem Knows.snoc (knows : Knows a n known s) (d : Datum) :
    Knows a n (known ++ [d]) (s.after (n + known.length) (s.gives d)) where
  old k inside := by
    have apart : k ≠ n + known.length := by omega
    simp [apart, knows.old k inside]
  new i d' is := by
    rcases Nat.lt_trichotomy i known.length with inside | rfl | beyond
    · rw [List.getElem?_append_left inside] at is
      have apart : n + i ≠ n + known.length := by omega
      simp only [Llvm.after_registers, Function.update_of_ne apart]
      exact knows.new i d' is
    · simp only [List.getElem?_concat_length, Option.some.injEq] at is
      simp [is]
    · rw [List.getElem?_eq_none (by simp; omega)] at is
      cases is
  memory := knows.memory
  objects := knows.objects
  previous := knows.previous

/-- Each instruction computes its datum from those before it. -/
inductive Computes (platform : Platform M) (a : Activation M) (n : Nat) : List Datum → List Op → List Datum → Prop where
  | nil {known : List Datum} : Computes platform a n known [] []
  | cons {known : List Datum} {op : Op} {ops : List Op} {d : Datum} {data : List Datum}
    (first : ∀ s, Knows a n known s → op.effect platform s = some (s.gives d))
    (rest : Computes platform a n (known ++ [d]) ops data) : Computes platform a n known (op :: ops) (d :: data)

theorem Computes.executes (computes : Computes platform a n known ops data) (knows : Knows a n known s) :
    ∃ s', executeAll platform (numberedFrom (n + known.length) ops) s = some ([], s') ∧
      Knows a n (known ++ data) s' := by
  induction computes generalizing s with
  | nil => exact ⟨s, rfl, by rwa [List.append_nil]⟩
  | @cons known op ops d data first rest ih =>
    obtain ⟨s', run, knows'⟩ := ih (knows.snoc d)
    rw [List.length_append, List.length_singleton, ← Nat.add_assoc] at run
    rw [List.append_assoc] at knows'
    exact ⟨s', Llvm.executeAll_cons (first s knows) run, knows'⟩

theorem Here.computes {b : Building} {graph : Graph} (here : b.Here a) (sound : b.Sound)
    (continues : (b.pushAll ops).Continues graph) (computes : Computes platform a b.results [] ops data) :
    ∃ s', Reaches platform graph a [] s' ∧ (b.pushAll ops).Here s' ∧ Knows a b.results data s' := by
  obtain ⟨s', run, knows⟩ := computes.executes (.refl a b.results)
  obtain ⟨reached, there⟩ := here.all sound continues run
  exact ⟨s', reached, there, knows⟩

end Computing

/-! ### Runs through the code that is built -/

section Finishing
variable {M : Type} {platform : Platform M} {graph : Graph} {s : Building} {a after after' : Activation M}
  {events events' : List Llvm.Event}

/-- A run of the code so far comes to where the builder stands. -/
def Finishes (platform : Platform M) (s : Building) (a : Activation M) (events : List Llvm.Event)
    (after : Activation M) : Prop :=
  Reaches platform s.block a events after ∧ s.Here after

/-- There is nothing to run yet where the builder stands. -/
theorem Here.stuck (here : s.Here a) : Llvm.step platform s.block a = ([], .inr .stuck) := by
  rw [Llvm.step, here.1, here.2, List.getElem?_eq_none (Nat.le_refl _)]

theorem Finishes.unique (first : Finishes platform s a events after)
    (second : Finishes platform s a events' after') :
    events = events' ∧ after = after' :=
  first.1.unique second.1 first.2.stuck second.2.stuck

/-- A run to the end goes on from each place that it comes to. -/
theorem Finishes.rest (finishes : Finishes platform s a events after) (reached : Reaches platform s.block a events' after') :
    ∃ later, Finishes platform s after' later after := by
  obtain ⟨⟨n, run⟩, there⟩ := finishes
  obtain ⟨m, reached⟩ := reached
  rcases Nat.le_total m n with le | le
  · obtain ⟨more, rfl⟩ := Nat.exists_eq_add_of_le le
    rw [Machine.run_add, reached] at run
    exact ⟨_, ⟨more, Prod.ext rfl (Prod.ext_iff.mp run).2⟩, there⟩
  · obtain ⟨more, rfl⟩ := Nat.exists_eq_add_of_le le
    rw [Machine.run_add, run] at reached
    cases more with
    | zero =>
      obtain rfl : after = after' := by simpa [Machine.run] using (Prod.ext_iff.mp reached).2
      exact ⟨[], .refl _ _ _, there⟩
    | succ more =>
      rw [Machine.run_step there.stuck] at reached
      simp at reached

/-- The run is also one of the whole function. -/
theorem Finishes.reaches (finishes : Finishes platform s a events after) (continues : s.Continues graph) :
    Reaches platform graph a events after :=
  finishes.1.mono continues

/-- An instruction that cannot be executed ends each run before the code does. -/
theorem Here.not_finishes (here : s.Here a) (sound : s.Sound) {s' : Building} {ops : List Op} {op : Op} {data : List Datum}
    (continues : (s.pushAll (ops ++ [op])).Continues s'.block) (computes : Computes platform a s.results [] ops data)
    (fails : ∀ x, Knows a s.results data x → op.effect platform x = none) :
    ¬s'.Finishes platform a events after := by
  rintro ⟨reached, there⟩
  have pushed : s.pushAll (ops ++ [op]) = (s.pushAll ops).pushAll [op] := by
    simp [pushAll]
  rw [pushed] at continues
  obtain ⟨x, first, here', knows⟩ := here.computes sound (continues.before (continues_pushAll _ _)) computes
  have ahead := here'.ahead ((sound.pushAll ops).pushAll_block [op]) continues
  have stuck : Llvm.step platform s'.block x = ([], .inr .stuck) := by
    rw [Llvm.step, ahead.head]
    simp only [fails x knows]
  obtain ⟨_, rfl⟩ := first.unique reached stuck there.stuck
  have inside := (List.getElem?_eq_some_iff.mp ahead.head).1
  rw [there.1, there.2] at inside
  exact Nat.lt_irrefl _ inside

end Finishing

/-! ### Checks -/

section Checking
variable {M : Type} {platform : Platform M} {graph : Graph} {s : Building} {a after : Activation M} {condition : Llvm.Value}
  {b : Bool} {events : List Llvm.Event}

/-- A check jumps over the trap, or to it. -/
theorem Here.tests (here : s.Here a) (sound : s.Sound) (continues : (s.tested condition).Continues graph)
    (evaluated : condition.fetch platform a.registers = some (.truth b)) :
    Reaches platform graph a []
      ((a.after s.results (a.gives (.truth !b))).jump (if b then s.blocks + 1 else s.blocks)) := by
  have opened : s.append.append.Here a := here
  have negated : (s.append.append.pushAll [.not condition]).Continues graph := continues.before (continues_enter _ _ _)
  obtain ⟨reached, there⟩ := opened.all sound.append.append negated
    (Llvm.executeAll_cons (Llvm.effect_not_truth evaluated) rfl)
  have flipped : (Llvm.Value.result s.results condition.type).fetch platform
      (a.after s.results (a.gives (.truth !b))).registers = some (.truth !b) := Function.update_self _ _ _
  have branched : Reaches platform graph (a.after s.results (a.gives (.truth !b))) []
      ((a.after s.results (a.gives (.truth !b))).jump (if !b then s.blocks else s.blocks + 1)) :=
    there.condBr continues flipped
  cases b <;> exact reached.trans branched

theorem tested_block {n : Nat} (fresh : s.blocks ≤ n) (sound : s.Sound) : (s.tested condition).block n = [] := by
  have current := sound.current
  rw [tested, enter_block _ _ _ _ (push_current _ _), if_neg (by simp; omega), push_block, if_neg (by simp; omega)]
  exact sound.empty fresh

/-- Behind a check that holds. -/
theorem Here.passed (sound : s.Sound) (x : Activation M) : (s.checked condition).Here (x.jump (s.blocks + 1)) := by
  refine here_jump _ (enter_current _ _ _) ?_
  rw [checked, between_block, if_neg (by simp [tested]), push_block, if_neg (by simp [tested])]
  exact tested_block (Nat.le_succ _) sound

/-- No run goes through a check that does not hold. -/
theorem Here.trapped (here : s.Here a) (sound : s.Sound) {s' : Building}
    (continues : (s.checked condition).Continues s'.block)
    (evaluated : condition.fetch platform a.registers = some (.truth false)) :
    ¬s'.Finishes platform a events after := by
  have trap : ((s.tested condition).pushAll ([] ++ [.call .trap []])).Continues s'.block :=
    continues.before (continues_enter _ _ _)
  have tests : (s.tested condition).Continues s'.block := trap.before (continues_push _ _)
  have there : (s.tested condition).Here ((a.after s.results (a.gives (.truth !false))).jump s.blocks) :=
    here_jump _ (enter_current _ _ _) (tested_block (Nat.le_refl _) sound)
  intro finishes
  obtain ⟨later, rest⟩ := finishes.rest (here.tests sound tests evaluated)
  exact there.not_finishes (tested_region condition sound).sound trap .nil (fun _ _ => rfl) rest

end Checking

end Building

end Low
