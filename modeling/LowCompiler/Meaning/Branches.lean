import LowCompiler.Meaning.Simulation

/-!
# Code in blocks of its own

A check that does not trap, and a conditional, whose run goes through one of its two
branches.
-/

namespace Low

open Stateful
open Building (Sound Region Codes)
open Llvm (Op Ty Graph Platform Activation Datum Reaches Ahead)

namespace Building
variable {M : Type} {platform : Platform M} {graph : Graph} {s onTrue onFalse : Building} {a : Activation M}
  {condition value value' : Llvm.Value} {type : Ty} {d : Datum} {b : Bool}

/-! ### Two branches -/

def first (s : Building) (condition : Llvm.Value) : Building :=
  s.append.append.append.enter (.condBr condition s.blocks (s.blocks + 1)) s.blocks

def second (s onTrue : Building) : Building := onTrue.enter (.br (s.blocks + 2)) (s.blocks + 1)

def meet (s onFalse : Building) : Building := onFalse.enter (.br (s.blocks + 2)) (s.blocks + 2)

def joined (s onFalse : Building) (type : Ty) (value value' : Llvm.Value) : Building :=
  (s.meet onFalse).push (.op (.phi type [(value, s.blocks), (value', s.blocks + 1)]))

section Diamond
variable {flat flat' : Prop} (sound : s.Sound) (true : Codes False flat (s.first condition) onTrue)
  (false : Codes False flat' (s.second onTrue) onFalse) (continues : (s.joined onFalse type value value').Continues graph)
include sound true false continues

omit sound true in
theorem continues_second : (s.second onTrue).Continues graph :=
  ((continues.before (continues_push _ _)).before (continues_enter _ _ _)).before false.continues

omit sound in
theorem continues_first : (s.first condition).Continues graph :=
  ((continues_second false continues).before (continues_enter _ _ _)).before true.continues

/-- A run comes to the branch that the condition says. -/
theorem Here.branches (here : s.Here a) (evaluated : condition.fetch platform a.registers = some (.truth b)) :
    Reaches platform graph a [] (a.jump (if b then s.blocks else s.blocks + 1)) ∧
      (if b then s.first condition else s.second onTrue).Here (a.jump (if b then s.blocks else s.blocks + 1)) := by
  have current := sound.current
  have opened : s.append.append.append.Here a := here
  refine ⟨opened.condBr (continues_first true false continues) evaluated, ?_⟩
  cases b with
  | true =>
    show (s.first condition).Here (a.jump s.blocks)
    refine here_jump a (enter_current _ _ _) ((starts_block _).trans ?_)
    exact (if_neg (by omega)).trans (sound.empty (Nat.le_refl _))
  | false =>
    show (s.second onTrue).Here (a.jump (s.blocks + 1))
    have last : onTrue.current = s.blocks := (true.stays id).1.trans (enter_current _ _ _)
    refine here_jump a (enter_current _ _ _) ((between_block _).trans ?_)
    exact (if_neg (by omega)).trans (true.later_empty sound (by omega) (by omega))

/-- From the end of the branch it comes to the phi, which gives the value of the branch. -/
theorem Here.joins (here : (if b then onTrue else onFalse).Here a)
    (evaluated : (if b then value else value').fetch platform a.registers = some d) :
    Reaches platform graph a [] ((a.jump (s.blocks + 2)).after onFalse.results (a.gives d)) ∧
      (s.joined onFalse type value value').Here ((a.jump (s.blocks + 2)).after onFalse.results (a.gives d)) := by
  have last : onTrue.current = s.blocks := (true.stays id).1.trans (enter_current _ _ _)
  have last' : onFalse.current = s.blocks + 1 := (false.stays id).1.trans (enter_current _ _ _)
  have blocks : s.blocks + 3 ≤ onTrue.blocks := true.blocks
  have blocks' : onTrue.blocks ≤ onFalse.blocks := false.blocks
  have meets : (s.meet onFalse).Continues graph := continues.before (continues_push _ _)
  have left : Reaches platform graph a [] (a.jump (s.blocks + 2)) ∧ a.block = if b then s.blocks else s.blocks + 1 := by
    cases b with
    | true => exact ⟨here.br (continues_second false continues), here.1.trans last⟩
    | false => exact ⟨here.br meets, here.1.trans last'⟩
  have exited : (s.meet onFalse).Here (a.jump (s.blocks + 2)) :=
    here_jump a (enter_current _ _ _) (exit_empty sound true false)
  have count : (s.meet onFalse).walk.count = onFalse.results :=
    ((false.sound.push (e := .br (s.blocks + 2)) (by simp [Emitted.Inside]; omega)).push
      (e := .position (s.blocks + 2)) (by simp [Emitted.Inside]; omega)).count
  have built : (s.joined onFalse type value value').block (s.meet onFalse).current = (s.meet onFalse).block (s.meet onFalse).current ++
      [.plain (onFalse.results, .phi type [(value, s.blocks), (value', s.blocks + 1)])] :=
    (push_block _ _ _).trans ((if_pos rfl).trans (by rw [Walk.instr, count]; rfl))
  have chosen : [(value, s.blocks), (value', s.blocks + 1)].find? (fun entry => entry.2 == a.block) =
      some (if b then value else value', if b then s.blocks else s.blocks + 1) := by
    rw [left.2]
    cases b <;> simp
  refine ⟨left.1.trans (Llvm.reaches_phi (exited.ahead built continues) chosen evaluated), ?_, ?_⟩
  · exact exited.1.trans (push_op_current _ _).symm
  · have current : (s.joined onFalse type value value').current = (s.meet onFalse).current := push_op_current _ _
    rw [current, built, List.length_append, ← exited.2]
    rfl

omit continues in
/-- A run through a conditional is a run through one of its branches. -/
theorem runs_diamond {w w' : World M} (here : s.Here a) (evaluated : condition.fetch platform a.registers = some (.truth b))
    (branch : ∀ x : Activation M, (if b then s.first condition else s.second onTrue).Here x → x.registers = a.registers →
      x.memory = a.memory → x.objects = a.objects →
      ∃ x', Runs platform (if b then s.first condition else s.second onTrue) (if b then onTrue else onFalse) x w w' x' ∧
        (if b then value else value').fetch platform x'.registers = some d) :
    ∃ x', Runs platform s (s.joined onFalse type value value') a w w' x' ∧ x'.registers onFalse.results = some d := by
  have whole : (s.joined onFalse type value value').Continues (s.joined onFalse type value value').block := .refl _
  obtain ⟨entered, inside⟩ := here.branches sound true false whole evaluated
  obtain ⟨x, runs, fetched⟩ := branch _ inside rfl rfl rfl
  obtain ⟨events, reached, seen⟩ := runs.reaches
  obtain ⟨left, joined⟩ := Here.joins sound true false whole runs.here fetched
  have built : (if b then onTrue else onFalse).Continues (s.joined onFalse type value value').block := by
    have meets : (s.meet onFalse).Continues (s.joined onFalse type value value').block := whole.before (continues_push _ _)
    cases b with
    | true => exact (continues_second false whole).before (continues_enter _ _ _)
    | false => exact meets.before (continues_enter _ _ _)
  have numbers : s.results ≤ (if b then s.first condition else s.second onTrue).results ∧ s.results ≤ onFalse.results := by
    have first : s.results ≤ onTrue.results := true.results
    have second : onTrue.results ≤ onFalse.results := false.results
    cases b with
    | true => exact ⟨Nat.le_refl _, first.trans second⟩
    | false => exact ⟨first, first.trans second⟩
  refine ⟨_, ⟨⟨events, ?_, seen⟩, joined, ⟨runs.atWorld.1, runs.atWorld.2⟩, ?_⟩, Function.update_self _ _ _⟩
  · have through := (entered.trans (reached.mono built)).trans left
    rwa [List.nil_append, List.append_nil] at through
  · exact Kept.trans (fun k small => runs.kept k (Nat.lt_of_lt_of_le small numbers.1)) (.update _ _ _) numbers.2

end Diamond

/-! ### Checks -/

/-- A condition that holds is not negated into a trap. -/
theorem Here.passes (here : s.Here a) (sound : s.Sound) (continues : (s.checked condition).Continues graph)
    (stands : Stands platform s.results a.registers condition (.ofBool true)) :
    Reaches platform graph a [] ((a.after s.results (a.gives (.truth false))).jump (s.blocks + 1)) ∧
      (s.checked condition).Here ((a.after s.results (a.gives (.truth false))).jump (s.blocks + 1)) := by
  have tests : (s.tested condition).Continues graph :=
    (continues.before (continues_enter _ _ _)).before (continues_push _ _)
  exact ⟨here.tests sound tests (stands.fetched (.refl _ _)), Here.passed sound _⟩

end Building

namespace Simulates
variable {M γ δ : Type} {platform : Platform M} {c : Context} {n : Nat} {r : Nat → Option Datum}
  {R : Nat → (Nat → Option Datum) → γ → δ → Prop}

/-- A check that the evaluation has made already. -/
theorem buildAssert {condition : Llvm.Value} {k : Unit → Codegen γ} {g : Evaluation M δ}
    (stands : Stands platform n r condition (.ofBool true))
    (rest : ∀ n' r', n ≤ n' → Kept n r r' → Simulates platform c n' r' (k ()) g R) :
    Simulates platform c n r (Low.buildAssert condition >>= k) g R := by
  have first : Simulates platform c n r (Low.buildAssert condition) (Pure.pure ()) fun _ _ _ _ => True := by
    intro s a s' x w b w' sound same known here kept atWorld built done
    cases done
    cases (Building.buildAssert_run s condition).symm.trans built
    obtain ⟨reached, there⟩ := here.passes sound (.refl _) (stands.kept kept known)
    have region : Region s (s.checked condition) := (Building.checked_codes condition sound).toRegion
    exact ⟨region, same, _, ⟨⟨_, reached, (List.append_nil _).symm⟩, there, atWorld, .update _ _ _⟩, trivial⟩
  rw [← pure_bind () fun _ => g]
  exact first.bind fun _ _ n' r' le kept _ => rest n' r' le kept

end Simulates

end Low
