import LowCompiler.Codegen.Openings

/-!
# The value of a conditional

The graph of a conditional goes through the branch that its condition says, and the phi
gives the value of that branch, as long as no branch of a conditional opens blocks. The phi
names the blocks that the branches begin in, and not those that they end in.
-/

namespace Low

open Stateful
open Llvm (Op Ty Graph Platform Activation Datum Reaches Ahead)

/-! ### Places in a graph -/

/-- Where the builder stands. -/
def Building.Here {M : Type} (s : Building) (a : Activation M) : Prop :=
  a.block = s.current ∧ a.index = (s.block s.current).length

/-- The graph of a function that is built further. -/
def Building.Continues (s : Building) (graph : Graph) : Prop := ∀ n, s.block n <+: graph n

namespace Building
variable {s s' : Building} {graph : Graph}

theorem Continues.refl (s : Building) : s.Continues s.block := fun _ => List.prefix_rfl

theorem Continues.before (continues : s'.Continues graph) (first : s.Continues s'.block) : s.Continues graph :=
  fun n => (first n).trans (continues n)

theorem continues_push (s : Building) (e : Emitted) : s.Continues (s.push e).block := by
  intro n
  rw [push_block]
  split
  · exact List.prefix_append _ _
  · exact List.prefix_rfl

theorem Region.continues (region : Region s s') : s.Continues s'.block := by
  intro n
  by_cases old : n < s.blocks
  · by_cases here : n = s.current
    · obtain ⟨code, built, _⟩ := region.added
      rw [here, built]
      exact List.prefix_append _ _
    · rw [region.frame n old here]
  · rw [region.start.empty (Nat.le_of_not_lt old)]
    exact List.nil_prefix

theorem Here.ahead {M : Type} {a : Activation M} (here : s.Here a) {code : List LlvmInstr}
    (built : s'.block s.current = s.block s.current ++ code) (continues : s'.Continues graph) :
    Ahead graph a code := by
  obtain ⟨rest, same⟩ := continues s.current
  refine ⟨rest, ?_⟩
  rw [here.1, here.2, ← same, built, List.append_assoc, List.drop_left]

/-- A jump to a block without code comes to where the builder stands in it. -/
theorem here_jump {M : Type} {n : Nat} (a : Activation M) (current : s.current = n) (empty : s.block n = []) :
    s.Here (a.jump n) := by
  refine ⟨current.symm, ?_⟩
  rw [current, empty]
  rfl

end Building

/-! ### Conditionals -/

/-- A run goes through the branch that the condition says, and where this has a value, comes to it. -/
def Selects (codegen : Expr → Bool → Codegen Llvm.Value) (condition trueExpr falseExpr : Expr) (s s' : Building)
    (value : Llvm.Value) : Prop :=
  ∃ cond s₁ trueValue trueStart trueEnd falseValue falseStart falseEnd,
    codegen condition false s = .ok (cond, s₁) ∧
    codegen trueExpr false trueStart = .ok (trueValue, trueEnd) ∧
    codegen falseExpr false falseStart = .ok (falseValue, falseEnd) ∧
    ∀ (M : Type) (platform : Platform M) (graph : Graph), s'.Continues graph → ∀ a : Activation M, s₁.Here a →
      ∀ b, cond.fetch platform a.registers = some (.truth b) →
        (∃ inside : Activation M, Reaches platform graph a [] inside ∧ (if b then trueStart else falseStart).Here inside ∧
          inside.registers = a.registers ∧ inside.memory = a.memory) ∧
        ∀ (last : Activation M) d, (if b then trueEnd else falseEnd).Here last →
          (if b then trueValue else falseValue).fetch platform last.registers = some d →
          ∃ after : Activation M, Reaches platform graph last [] after ∧ s'.Here after ∧
            value.fetch platform after.registers = some d ∧ after.memory = last.memory

section Conditional
variable {c : Context} {decls : List Decl} {codegen : Expr → Bool → Codegen Llvm.Value} {fuel : Nat}
  {condition trueExpr falseExpr : Expr} {lvalue : Bool} {s s' : Building} {value : Llvm.Value}
  (below : ∀ expr lvalue n,
    Generates c n (Opens c decls expr) (¬Nested c decls expr) (codegen expr lvalue) Llvm.Value.Below)
include below

theorem codegenConditionalExpr_selects (sound : s.Sound) (gains : c.Gains s.context)
    (stays : ¬Opens c decls trueExpr) (stays' : ¬Opens c decls falseExpr)
    (run : codegenConditionalExpr fuel codegen condition trueExpr falseExpr lvalue s = .ok (value, s')) :
    Selects codegen condition trueExpr falseExpr s s' value := by
  obtain ⟨cond, s₁, trueValue, s₂, falseValue, s₃, t, s₄, condRun, trueRun, falseRun, translated, rfl, rfl⟩ :=
    codegenConditionalExpr_ok run
  obtain ⟨first, _⟩ := below condition false _ _ _ _ sound gains (Nat.le_refl _) condRun
  have gains₁ := gains.trans first.context
  have starts := Building.diamond_starts first.sound cond
  obtain ⟨true, _⟩ := below trueExpr false _ _ _ _ starts.sound gains₁ (Nat.le_refl _) trueRun
  have blocks : s₁.blocks + 3 ≤ s₂.blocks := true.blocks
  have between := (starts.trans true.toRegion).enter (s₁.blocks + 2) (s₁.blocks + 1) (by omega) (by omega) (by omega)
    (by omega)
  obtain ⟨false, _⟩ := below falseExpr false _ _ _ _ between.sound (gains₁.trans between.context) (Nat.le_refl _) falseRun
  have blocks' : s₂.blocks ≤ s₃.blocks := false.blocks
  have after := (between.trans false.toRegion).enter (s₁.blocks + 2) (s₁.blocks + 2) (by omega) (by omega) (by omega)
    (by omega)
  obtain ⟨meets, _⟩ := Generates.llvmType trueExpr.type _ _ _ after.sound (gains₁.trans after.context) (Nat.le_refl _)
    translated
  have current := first.sound.current
  have last := (true.ends.resolve_right fun moved => stays moved.2).1
  have last' := (false.ends_again.resolve_right fun moved => stays' moved.2).1
  obtain ⟨context, _, same⟩ := llvmType_ok translated
  have exit : s₄.current = s₁.blocks + 2 ∧ s₄.block (s₁.blocks + 2) = [] := by
    rw [same]
    exact ⟨Building.enter_current _ _ _, Building.exit_empty first.sound true false⟩
  have count := meets.sound.count
  refine ⟨cond, s₁, trueValue, _, s₂, falseValue, _, s₃, condRun, trueRun, falseRun, ?_⟩
  intro M platform graph continues a here b evaluated
  -- The graph has all that was built on the way.
  have continues₄ := continues.before (Building.continues_push _ _)
  have continues₆ : (s₃.enter (.br (s₁.blocks + 2)) (s₁.blocks + 2)).Continues graph := continues₄.before meets.continues
  have continues₄' : (s₂.enter (.br (s₁.blocks + 2)) (s₁.blocks + 1)).Continues graph := by
    refine continues₆.before fun n => (false.continues n).trans ?_
    exact (Building.continues_push _ _ n).trans (Building.continues_push _ _ n)
  have continues₂ : (s₁.append.append.append.enter (.condBr cond s₁.blocks (s₁.blocks + 1)) s₁.blocks).Continues graph := by
    refine continues₄'.before fun n => (true.continues n).trans ?_
    exact (Building.continues_push _ _ n).trans (Building.continues_push _ _ n)
  constructor
  · have ahead : Ahead graph a [.condBr cond s₁.blocks (s₁.blocks + 1)] :=
      here.ahead (by rw [Building.starts_block, if_pos rfl]) continues₂
    refine ⟨_, Llvm.reaches_condBr ahead evaluated, ?_, rfl, rfl⟩
    cases b with
    | true =>
      refine Building.here_jump a (Building.enter_current _ _ _) ((Building.starts_block _).trans ?_)
      exact (if_neg (by simp; omega)).trans (first.sound.empty (Nat.le_refl _))
    | false =>
      refine Building.here_jump a (Building.enter_current _ _ _) ((Building.between_block _).trans ?_)
      exact (if_neg (by simp; omega)).trans (true.later_empty first.sound (by simp) (by simp))
  · intro final d there evaluated
    have jumps : Ahead graph final [.br (s₁.blocks + 2)] ∧ final.block = if b then s₁.blocks else s₁.blocks + 1 := by
      cases b with
      | true => exact ⟨there.ahead ((Building.between_block _).trans (if_pos rfl)) continues₄', there.1.trans last⟩
      | false => exact ⟨there.ahead ((Building.between_block _).trans (if_pos rfl)) continues₆, there.1.trans last'⟩
    have exited : s₄.Here (final.jump (s₁.blocks + 2)) := Building.here_jump final exit.1 exit.2
    have built : (s₄.push (.op (.phi t [(trueValue, s₁.blocks), (falseValue, s₁.blocks + 1)]))).block s₄.current =
        s₄.block s₄.current ++ [.plain (s₄.walk.count, .phi t [(trueValue, s₁.blocks), (falseValue, s₁.blocks + 1)])] :=
      (Building.push_block _ _ _).trans (if_pos rfl)
    have ahead := exited.ahead built continues
    have chosen : [(trueValue, s₁.blocks), (falseValue, s₁.blocks + 1)].find? (fun entry => entry.2 == final.block) =
        some (if b then trueValue else falseValue, if b then s₁.blocks else s₁.blocks + 1) := by
      rw [jumps.2]
      cases b <;> simp
    refine ⟨_, (Llvm.reaches_br jumps.1).trans (Llvm.reaches_phi ahead chosen evaluated), ⟨?_, ?_⟩, ?_, rfl⟩
    · exact exited.1.trans (Building.push_op_current _ _).symm
    · rw [Building.push_op_current, built, List.length_append, ← exited.2]
      rfl
    · rw [Llvm.fetch_result, ← count]
      exact Function.update_self _ _ _

end Conditional

/-! ### All conditionals of an expression -/

/-- Each phi in the code from one building to the other names exactly the blocks that lead to it. -/
def PhisExact (s s' : Building) : Prop := ∀ n, s.blocks ≤ n → n < s'.blocks → s'.ExactAt n

/-- Wherever the code for the expression is generated, its phis are exact, and if it is a
conditional, it selects. -/
def JoinsWell (c : Context) (decls : List Decl) (e : Expr) : Prop :=
  ∀ fuel lvalue s value s', s.Sound → c.Gains s.context → codegenExpr decls (fuel + 1) e lvalue s = .ok (value, s') →
    PhisExact s s' ∧ ∀ loc type condition trueExpr falseExpr,
      e = .mk loc type (.conditionalExpr condition trueExpr falseExpr) →
        Selects (codegenExpr decls fuel) condition trueExpr falseExpr s s' value

theorem joinsWell_of_flat {c : Context} {decls : List Decl} {e : Expr} (flat : ¬Nested c decls e) :
    JoinsWell c decls e := by
  intro fuel lvalue s value s' sound gains run
  obtain ⟨codes, _⟩ := Generates.expr c decls (fuel + 1) s.results e lvalue s value s' sound gains (Nat.le_refl _) run
  refine ⟨codes.exact.mpr flat, ?_⟩
  rintro loc type condition trueExpr falseExpr rfl
  exact codegenConditionalExpr_selects (fun e lvalue n => Generates.expr c decls fuel n e lvalue) sound gains
    (fun opens => flat (.here (.inl opens))) (fun opens => flat (.here (.inr opens))) run

theorem Nested.of_parts {c : Context} {decls : List Decl} {e p : Expr}
    (parts : Relation.ReflTransGen (Part c decls) e p) (nested : Nested c decls p) : Nested c decls e := by
  induction parts using Relation.ReflTransGen.head_induction_on with
  | refl => exact nested
  | head part _ ih => exact .part part ih

/-- The conditionals in an expression join their branches well just when none of their branches
opens blocks. -/
theorem conditionals_join_iff {decls : List Decl} {fuel : Nat} {e : Expr} {lvalue : Bool} {s s' : Building}
    {value : Llvm.Value} (sound : s.Sound) (run : codegenExpr decls fuel e lvalue s = .ok (value, s')) :
    (∀ p, Relation.ReflTransGen (Part s.context decls) e p → JoinsWell s.context decls p) ↔
      ¬Nested s.context decls e := by
  constructor
  · intro joins
    cases fuel with
    | zero => cases run
    | succ fuel =>
      obtain ⟨exact, _⟩ := joins e .refl fuel lvalue s value s' sound (.refl _) run
      obtain ⟨codes, _⟩ := Generates.expr s.context decls (fuel + 1) s.results e lvalue s value s' sound (.refl _)
        (Nat.le_refl _) run
      exact codes.exact.mp exact
  · exact fun flat p parts => joinsWell_of_flat fun nested => flat (nested.of_parts parts)

/-- A function of a file without declarations, before its first instruction. -/
def firstBuilding : Building := ⟨⟨[], []⟩, [], 0, 1, 0, []⟩

theorem firstBuilding_sound : firstBuilding.Sound where
  numbered := rfl
  entered := Nat.one_pos
  inside := fun _ member => absurd member List.not_mem_nil
  known := by simp [firstBuilding]

/-- A decimal digit as a number of 64 bits. -/
def digit (n : UInt8) : Expr := .mk ⟨0, 0⟩ int64 (.numberLiteralExpr [48 + n] 10)

/-- `true ? e : e'`. -/
def trueConditional (e e' : Expr) : Expr :=
  .mk ⟨0, 0⟩ int64 (.conditionalExpr (.mk ⟨0, 0⟩ (.mk 0 .booleanType) (.identExpr trueName)) e e')

theorem digit_run (n : UInt8) (fuel : Nat) (s : Building) :
    codegenExpr [] (fuel + 2) (digit n) false s = .ok (.constIntOfString (.int 64) [48 + n] 10, s) := rfl

theorem trueConditional_run {fuel : Nat} {e e' : Expr} (typed : e.type = int64)
    (runs : ∀ s, ∃ r, codegenExpr [] (fuel + 2) e false s = .ok r)
    (runs' : ∀ s, ∃ r, codegenExpr [] (fuel + 2) e' false s = .ok r) (s : Building) :
    ∃ r, codegenExpr [] (fuel + 3) (trueConditional e e') false s = .ok r := by
  obtain ⟨⟨trueValue, s₂⟩, run⟩ := runs (s.append.append.append.enter
    (.condBr (.constAllOnes (.int 1)) s.blocks (s.blocks + 1)) s.blocks)
  obtain ⟨⟨falseValue, s₃⟩, run'⟩ := runs' (s₂.enter (.br (s.blocks + 2)) (s.blocks + 1))
  refine ⟨(.result s₃.results (.int 64),
    (s₃.enter (.br (s.blocks + 2)) (s.blocks + 2)).push
      (.op (.phi (.int 64) [(trueValue, s.blocks), (falseValue, s.blocks + 1)]))), ?_⟩
  refine bind_ok.mpr ⟨(), s, rfl, bind_ok.mpr ⟨.constAllOnes (.int 1), s, rfl, ?_⟩⟩
  refine bind_ok.mpr ⟨_, _, rfl, bind_ok.mpr ⟨_, _, rfl, bind_ok.mpr ⟨_, _, rfl, bind_ok.mpr ⟨_, _, rfl, ?_⟩⟩⟩⟩
  refine bind_ok.mpr ⟨_, _, rfl, bind_ok.mpr ⟨trueValue, s₂, run, bind_ok.mpr ⟨_, _, rfl, bind_ok.mpr ⟨_, _, rfl, ?_⟩⟩⟩⟩
  refine bind_ok.mpr ⟨falseValue, s₃, run', bind_ok.mpr ⟨_, _, rfl, bind_ok.mpr ⟨_, _, rfl, ?_⟩⟩⟩
  rw [typed]
  rfl

theorem digits_run (s : Building) : ∃ r, codegenExpr [] 3 (trueConditional (digit 1) (digit 2)) false s = .ok r :=
  trueConditional_run rfl (fun s => ⟨_, digit_run 1 0 s⟩) (fun s => ⟨_, digit_run 2 0 s⟩) s

/-- `true ? 1 : 2` joins its branches well. -/
theorem conditionals_join_digits : ∃ value s',
    codegenExpr [] 3 (trueConditional (digit 1) (digit 2)) false firstBuilding = .ok (value, s') ∧
      ∀ p, Relation.ReflTransGen (Part firstBuilding.context []) (trueConditional (digit 1) (digit 2)) p →
        JoinsWell firstBuilding.context [] p := by
  obtain ⟨⟨value, s'⟩, run⟩ := digits_run firstBuilding
  refine ⟨value, s', run, (conditionals_join_iff firstBuilding_sound run).mpr ((nested_plain rfl).mpr ?_)⟩
  have plain (n : UInt8) : ¬Opens firstBuilding.context [] (digit n) ∧ ¬Nested firstBuilding.context [] (digit n) :=
    ⟨mt (opens_plain rfl).mp (by simp [ExprKind.OpensHere, ExprKind.operands]),
      (nested_plain rfl).mpr (by simp [ExprKind.NestedHere, ExprKind.operands])⟩
  have known : firstBuilding.context.constant [] trueName = none := rfl
  have flat : ¬Nested firstBuilding.context [] (.mk ⟨0, 0⟩ (.mk 0 .booleanType) (.identExpr trueName)) := by
    simp [nested_iff, ExprKind.NestedHere, part_ident, known]
  simp [ExprKind.NestedHere, ExprKind.operands, plain, flat]

/-- `true ? (true ? 1 : 2) : 3`. The phi names the block in which the inner conditional begins. -/
theorem nested_conditional_inexact :
    ∃ value s', codegenExpr [] 4 (trueConditional (trueConditional (digit 1) (digit 2)) (digit 3)) false firstBuilding =
        .ok (value, s') ∧ ¬PhisExact firstBuilding s' := by
  obtain ⟨⟨value, s'⟩, run⟩ := trueConditional_run rfl digits_run (fun s => ⟨_, digit_run 3 1 s⟩) firstBuilding
  refine ⟨value, s', run, fun exact => ?_⟩
  obtain ⟨codes, _⟩ := Generates.expr firstBuilding.context [] 4 0 _ false _ _ _ firstBuilding_sound (.refl _)
    (Nat.zero_le _) run
  exact codes.exact.mp exact (.here (.inl (.here trivial)))

end Low
