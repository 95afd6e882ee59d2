import LowCompiler.Codegen.CompoundAssignments
import LowCompiler.Codegen.InterfaceTables

/-!
# Casts to and from bool

An integer is cast to bool by a signed comparison with zero, and a bool to an integer by
filling up with zeros.
-/

namespace Low

open Stateful
open Llvm (Op Ty Platform Activation Datum executeAll)

/-- The instruction of a cast from one type to the other. -/
inductive CastOp (value : Llvm.Value) (dst : Ty) : AstType → AstType → Op → Prop where
  | toBool {width : Nat} :
    CastOp value dst (.mk 0 (.integerType width)) (.mk 0 .booleanType) (.icmp .sgt value (.constNull value.type))
  | ofBool {width : Nat} : CastOp value dst (.mk 0 .booleanType) (.mk 0 (.integerType width)) (.zext value dst)

section Code
variable {decls : List Decl} {fuel : Nat} {loc : Loc} {type castType fromType toType : AstType} {target expr : Expr}
  {lvalue : Bool} {s s' : Building} {result : Llvm.Value}

theorem codegenCastExpr_plain (source : s.context.Resolves target.type fromType)
    (dest : s.context.Resolves castType toType)
    (run : codegenExpr decls (fuel + 1) (.mk loc type (.castExpr target castType)) lvalue s = .ok (result, s')) :
    ∃ value s₁ dst c, codegenExpr decls fuel target false s = .ok (value, s₁) ∧
      codegenType fuel castType s₁.context = .ok (dst, c) ∧ s.context.Extends s₁.context ∧
      ∀ op, CastOp value dst fromType toType op →
        result = .result s₁.results op.type ∧ s' = { s₁ with context := c }.push (.op op) := by
  obtain ⟨_, _, same, run⟩ := bind_ok.mp run
  cases lvalue with
  | true => cases same
  | false =>
    cases same
    obtain ⟨value, s₁, code, run⟩ := bind_ok.mp run
    obtain ⟨dst, s₂, translated, run⟩ := bind_ok.mp run
    obtain ⟨from', s₃, resolvedFrom, run⟩ := bind_ok.mp run
    obtain ⟨to', s₄, resolvedTo, run⟩ := bind_ok.mp run
    have later : s ≤ s₁ := Keeps.run (fun _ => codegenExpr_keeps decls fuel target false) code
    have last : s ≤ s₂ := later.trans (Keeps.run (fun _ => llvmType_keeps fuel castType) translated)
    obtain ⟨c, typed, rfl⟩ := llvmType_ok translated
    obtain ⟨found, rfl⟩ := resolved_ok resolvedFrom
    obtain ⟨found', rfl⟩ := resolved_ok resolvedTo
    have none : NoMoreTypes s.context c := last.context.noMoreTypes
    obtain ⟨_, source⟩ := source
    obtain ⟨_, dest⟩ := dest
    obtain rfl := resolveTypeName_agree (fun _ _ => id) none source found
    obtain rfl := resolveTypeName_agree (fun _ _ => id) none dest found'
    refine ⟨value, s₁, dst, c, code, typed, later.context, ?_⟩
    intro op cast
    cases cast with
    | toBool | ofBool =>
      cases (build_run _ _).symm.trans run
      exact ⟨rfl, rfl⟩

theorem codegenBinaryExpr_ne {width : Nat} (typed : target.type = .mk 0 (.integerType width))
    (run : codegenExpr decls (fuel + 1) (.mk loc type (.binaryExpr target expr .NE)) lvalue s = .ok (result, s')) :
    ∃ value t₁ other t₂, codegenExpr decls fuel target false s = .ok (value, t₁) ∧
      codegenExpr decls fuel expr false t₁ = .ok (other, t₂) ∧
      result = .result t₂.results (.int 1) ∧ s' = t₂.push (.op (.icmp .ne value other)) := by
  have known : (target.type.noKind && expr.type.noKind) = false := by
    rw [typed]
    rfl
  change codegenBinaryExpr (codegenExpr decls fuel) loc target expr .NE lvalue s = _ at run
  simp only [codegenBinaryExpr, known, Bool.false_eq_true, if_false] at run
  by_cases same : typeEqual target.type expr.type = true
  · simp only [same, Bool.not_true, Bool.false_eq_true, if_false] at run
    obtain ⟨_, t₀, allowed, run⟩ := bind_ok.mp run
    obtain rfl : s = t₀ := by
      cases lvalue <;> cases allowed
      rfl
    obtain ⟨value, t₁, left, run⟩ := bind_ok.mp run
    obtain ⟨other, t₂, right, run⟩ := bind_ok.mp run
    rw [typed] at run
    cases (build_run _ _).symm.trans run
    exact ⟨value, t₁, other, t₂, left, right, rfl, rfl⟩
  · simp only [Bool.eq_false_iff.mpr same, Bool.not_false, if_true] at run
    cases run

end Code

/-! ### What it computes -/

section Running
variable {M : Type} {platform : Platform M} {a before : Activation M} {events : List Llvm.Event} {s : Building}

theorem Building.Finishes.compute (finishes : s.Finishes platform a events before) (sound : s.Sound) (c : Context) {op : Op}
    {d : Datum} (effect : op.effect platform before = some (before.gives d)) :
    (({ s with context := c } : Building).push (.op op)).Finishes platform a events
      (before.after s.results (before.gives d)) := by
  have run : executeAll platform (numberedFrom s.results [op]) before =
      some ([], before.after s.results (before.gives d)) := Llvm.executeAll_cons effect rfl
  obtain ⟨reached, here⟩ := finishes.2.all sound (.refl _) run
  have first := finishes.reaches (Building.continues_push s (.op op))
  have both := first.trans reached
  rw [List.append_nil] at both
  exact ⟨both, here⟩

/-- A run that comes to the end of the code comes to one result. -/
theorem Building.Finishes.value_iff {s' : Building} {after : Activation M} {result : Llvm.Value} {d d' : Datum}
    (finishes : s'.Finishes platform a events after)
    (fetched : result.fetch platform after.registers = some d) :
    (∃ after, s'.Finishes platform a events after ∧ result.fetch platform after.registers = some d') ↔ d = d' := by
  constructor
  · rintro ⟨after', finishes', fetched'⟩
    obtain ⟨_, rfl⟩ := finishes.unique finishes'
    exact Option.some.inj (fetched.symm.trans fetched')
  · rintro rfl
    exact ⟨after, finishes, fetched⟩

end Running

section Signs
variable {width : Nat}

/-- The comparison is one with zero just for the values whose sign bit is clear. -/
theorem slt_zero_iff (v : BitVec width) : (BitVec.ofNat width 0).slt v = decide (v ≠ 0) ↔ v.msb = false := by
  have nonzero : v ≠ 0 ↔ v.toInt ≠ 0 := by
    rw [Ne, ← BitVec.toInt_inj]
    simp
  rw [BitVec.msb_eq_toInt, BitVec.slt_eq_decide, decide_eq_decide, nonzero, BitVec.toInt_zero, decide_eq_false_iff_not]
  omega

theorem filled_true : (BitVec.ofBool true).setWidth width = BitVec.ofNat width 1 := by
  apply BitVec.eq_of_toNat_eq
  simp

theorem msb_filled (b : Bool) :
    ((BitVec.ofBool b).setWidth width).msb = (b && decide (width = 1)) := by
  cases b with
  | false => simp
  | true =>
    rw [filled_true, BitVec.msb_one]
    simp

theorem filled_ne_zero (b : Bool) (positive : 0 < width) : (BitVec.ofBool b).setWidth width ≠ 0 ↔ b = true := by
  cases b with
  | false => simp
  | true =>
    rw [filled_true]
    simp
    omega

theorem slt_filled_iff (b : Bool) (positive : 0 < width) :
    (BitVec.ofNat width 0).slt ((BitVec.ofBool b).setWidth width) = b ↔ (b = true → width ≠ 1) := by
  have nonzero : decide ((BitVec.ofBool b).setWidth width ≠ 0) = b := by
    rw [Bool.eq_iff_iff, decide_eq_true_iff]
    exact filled_ne_zero b positive
  have law := slt_zero_iff ((BitVec.ofBool b).setWidth width)
  rw [nonzero, msb_filled b] at law
  rw [law]
  simp

end Signs

/-! ### Casts of integers and bools -/

section Casts
variable {decls : List Decl} {fuel : Nat} {loc : Loc} {type castType : AstType} {target : Expr} {lvalue : Bool} {s s' : Building}
  {result : Llvm.Value} {width : Nat}

theorem toBool_finishes (sound : s.Sound) (source : s.context.Resolves target.type (.mk 0 (.integerType width)))
    (dest : s.context.Resolves castType (.mk 0 .booleanType))
    (run : codegenExpr decls (fuel + 1) (.mk loc type (.castExpr target castType)) lvalue s = .ok (result, s')) :
    ∃ value s₁, codegenExpr decls fuel target false s = .ok (value, s₁) ∧
      ∀ {M : Type} (platform : Platform M) (a before : Activation M) (events : List Llvm.Event) (v : BitVec width),
        value.type = .int width → s₁.Finishes platform a events before →
        value.fetch platform before.registers = some (.int width v) →
        ∃ after, s'.Finishes platform a events after ∧
          result.fetch platform after.registers = some (.truth ((BitVec.ofNat width 0).slt v)) := by
  obtain ⟨value, s₁, dst, c, code, _, _, built⟩ := codegenCastExpr_plain source dest run
  obtain ⟨rfl, rfl⟩ := built _ .toBool
  have sound₁ := (Generates.expr s.context decls fuel _ target false _ _ _ sound (.refl _) (Nat.le_refl _) code).1.sound
  refine ⟨value, s₁, code, ?_⟩
  intro M platform a before events v typed finishes fetched
  have zero : (Llvm.Value.constNull value.type).fetch platform before.registers = some (.int width 0) := by
    rw [typed]
    rfl
  have effect := Llvm.effect_icmp (p := .sgt) fetched zero
  exact ⟨_, finishes.compute sound₁ c effect, Function.update_self _ _ _⟩

/-- The value of a bool cast to an integer. -/
theorem ofBool_finishes (sound : s.Sound) (source : s.context.Resolves target.type (.mk 0 .booleanType))
    (dest : s.context.Resolves castType (.mk 0 (.integerType width)))
    (run : codegenExpr decls (fuel + 1) (.mk loc type (.castExpr target castType)) lvalue s = .ok (result, s')) :
    ∃ value s₁, codegenExpr decls fuel target false s = .ok (value, s₁) ∧ result.type = .int width ∧
      ∀ {M : Type} (platform : Platform M) (a before : Activation M) (events : List Llvm.Event) (b : Bool),
        s₁.Finishes platform a events before → value.fetch platform before.registers = some (.truth b) →
        ∃ after, s'.Finishes platform a events after ∧
          result.fetch platform after.registers = some (.int width ((BitVec.ofBool b).setWidth width)) := by
  obtain ⟨value, s₁, dst, c, code, translated, extends', built⟩ := codegenCastExpr_plain source dest run
  obtain ⟨rfl, rfl⟩ := built _ .ofBool
  obtain rfl : dst = .int width := by
    obtain ⟨_, dest⟩ := dest
    obtain ⟨fuel', same⟩ := codegenType_resolved extends'.noMoreTypes dest translated
    cases fuel' with
    | zero => cases same
    | succ fuel' =>
      cases same
      rfl
  have sound₁ := (Generates.expr s.context decls fuel _ target false _ _ _ sound (.refl _) (Nat.le_refl _) code).1.sound
  refine ⟨value, s₁, code, rfl, ?_⟩
  intro M platform a before events b finishes fetched
  exact ⟨_, finishes.compute sound₁ c (Llvm.effect_zext fetched), Function.update_self _ _ _⟩

/-- The cast of an integer to bool tells whether it is not zero, as `v != 0` does, just when its
sign bit is clear. A bool cast to an integer and back is what it was, unless it is true and the
integer has one bit. -/
theorem bool_casts_iff (sound : s.Sound) (boolean : s.context.Resolves castType (.mk 0 .booleanType)) :
    (∀ width target loc type lvalue result s', s.context.Resolves target.type (.mk 0 (.integerType width)) →
      codegenExpr decls (fuel + 1) (.mk loc type (.castExpr target castType)) lvalue s = .ok (result, s') →
      ∃ value s₁, codegenExpr decls fuel target false s = .ok (value, s₁) ∧
        ∀ {M : Type} (platform : Platform M) (a before : Activation M) (events : List Llvm.Event) (v : BitVec width),
          value.type = .int width → s₁.Finishes platform a events before →
          value.fetch platform before.registers = some (.int width v) →
          ((∃ after, s'.Finishes platform a events after ∧
            result.fetch platform after.registers = some (.truth (decide (v ≠ 0)))) ↔ v.msb = false)) ∧
    (∀ width target zero loc type lvalue result s', target.type = .mk 0 (.integerType width) →
      codegenExpr decls (fuel + 1) (.mk loc type (.binaryExpr target zero .NE)) lvalue s = .ok (result, s') →
      ∃ value s₁ other s₂, codegenExpr decls fuel target false s = .ok (value, s₁) ∧
        codegenExpr decls fuel zero false s₁ = .ok (other, s₂) ∧
        ∀ {M : Type} (platform : Platform M) (a before : Activation M) (events : List Llvm.Event) (v : BitVec width),
          s₂.Finishes platform a events before → value.fetch platform before.registers = some (.int width v) →
          other.fetch platform before.registers = some (.int width 0) →
          ∃ after, s'.Finishes platform a events after ∧
            result.fetch platform after.registers = some (.truth (decide (v ≠ 0)))) ∧
    (∀ width wide target loc loc' type lvalue result s', 0 < width → s.context.Resolves target.type (.mk 0 .booleanType) →
      s.context.Resolves wide (.mk 0 (.integerType width)) →
      codegenExpr decls (fuel + 2) (.mk loc type (.castExpr (.mk loc' wide (.castExpr target wide)) castType)) lvalue s =
        .ok (result, s') →
      ∃ value s₁, codegenExpr decls fuel target false s = .ok (value, s₁) ∧
        ∀ {M : Type} (platform : Platform M) (a before : Activation M) (events : List Llvm.Event) (b : Bool),
          s₁.Finishes platform a events before → value.fetch platform before.registers = some (.truth b) →
          ((∃ after, s'.Finishes platform a events after ∧ result.fetch platform after.registers = some (.truth b)) ↔
            (b = true → width ≠ 1))) := by
  have truth {b b' : Bool} : Datum.truth b = .truth b' ↔ b = b' := by
    cases b <;> cases b' <;> simp [Datum.truth]
  refine ⟨?_, ?_, ?_⟩
  · intro width target loc type lvalue result s' source run
    obtain ⟨value, s₁, code, runs⟩ := toBool_finishes sound source boolean run
    refine ⟨value, s₁, code, ?_⟩
    intro M platform a before events v typed finishes fetched
    obtain ⟨after, finishes', fetched'⟩ := runs platform a before events v typed finishes fetched
    rw [finishes'.value_iff fetched', truth]
    exact slt_zero_iff v
  · intro width target zero loc type lvalue result s' typed run
    obtain ⟨value, s₁, other, s₂, left, right, rfl, rfl⟩ := codegenBinaryExpr_ne typed run
    have first := (Generates.expr s.context decls fuel _ target false _ _ _ sound (.refl _) (Nat.le_refl _) left).1
    have second := (Generates.expr s.context decls fuel _ zero false _ _ _ first.sound first.context (Nat.le_refl _) right).1
    refine ⟨value, s₁, other, s₂, left, right, ?_⟩
    intro M platform a before events v finishes fetched nought
    have effect := Llvm.effect_icmp (p := .ne) fetched nought
    have same : Llvm.IntPredicate.holds .ne v 0 = decide (v ≠ 0) := by
      rw [Llvm.IntPredicate.holds, Bool.eq_iff_iff, bne_iff_ne, decide_eq_true_iff]
    rw [same] at effect
    exact ⟨_, finishes.compute second.sound s₂.context effect, Function.update_self _ _ _⟩
  · intro width wide target loc loc' type lvalue result s' positive source dest run
    have dest' : s.context.Resolves (Expr.mk loc' wide (.castExpr target wide)).type (.mk 0 (.integerType width)) := dest
    obtain ⟨middle, s₂, inner, runs⟩ := toBool_finishes sound dest' boolean run
    obtain ⟨value, s₁, code, typed, runs'⟩ := ofBool_finishes sound source dest inner
    refine ⟨value, s₁, code, ?_⟩
    intro M platform a before events b finishes fetched
    obtain ⟨between, finishes', fetched'⟩ := runs' platform a before events b finishes fetched
    obtain ⟨after, finishes'', fetched''⟩ := runs platform a between events _ typed finishes' fetched'
    rw [finishes''.value_iff fetched'', truth]
    exact slt_filled_iff b positive

end Casts

/-- `(bool)x`. -/
def castX : Expr := .mk ⟨0, 0⟩ (.mk 0 .booleanType) (.castExpr variableX (.mk 0 .booleanType))

theorem variable_boolean : variableBuilding.context.Resolves (.mk 0 .booleanType) (.mk 0 .booleanType) :=
  ⟨1, rfl⟩

theorem variable_integer (width : Nat) :
    variableBuilding.context.Resolves (.mk 0 (.integerType width)) (.mk 0 (.integerType width)) := ⟨1, rfl⟩

theorem variable_loads (n : Nat) : (variableBuilding.push (.op (.load (.result 0 (.ptr (.int 64)))))).Finishes Llvm.cells
    (variableActivation n) [] (variableLoaded n) := by
  have start : variableBuilding.Finishes Llvm.cells (variableActivation n) [] (variableActivation n) :=
    ⟨⟨0, rfl⟩, rfl, rfl⟩
  exact start.compute variableBuilding_sound variableBuilding.context (Llvm.effect_load rfl rfl rfl)

def trueExpr : Expr := .mk ⟨0, 0⟩ (.mk 0 .booleanType) (.identExpr trueName)

/-- `(bool)(int8)true`. -/
def castTrue : Expr := .mk ⟨0, 0⟩ (.mk 0 .booleanType)
  (.castExpr (.mk ⟨0, 0⟩ (.mk 0 (.integerType 8)) (.castExpr trueExpr (.mk 0 (.integerType 8)))) (.mk 0 .booleanType))

/-- Five is true, and so is a true bool that has been a byte. -/
theorem bool_casts_five :
    (∃ result s' after, codegenExpr [] 4 castX false variableBuilding = .ok (result, s') ∧
      s'.Finishes Llvm.cells (variableActivation 5) [] after ∧
        result.fetch Llvm.cells after.registers = some (.truth true)) ∧
    ∃ result s' after, codegenExpr [] 4 castTrue false variableBuilding = .ok (result, s') ∧
      s'.Finishes Llvm.cells (variableActivation 0) [] after ∧
        result.fetch Llvm.cells after.registers = some (.truth true) := by
  constructor
  · obtain ⟨⟨result, s'⟩, run⟩ : ∃ r, codegenExpr [] 4 castX false variableBuilding = .ok r := ⟨_, rfl⟩
    obtain ⟨value, s₁, code, law⟩ := (bool_casts_iff variableBuilding_sound variable_boolean).1 64 variableX _ _ _ _ _
      (variable_integer 64) run
    cases code
    obtain ⟨after, finishes, fetched⟩ := (law Llvm.cells _ _ _ 5 rfl (variable_loads 5) rfl).mpr rfl
    exact ⟨result, s', after, run, finishes, fetched⟩
  · obtain ⟨⟨result, s'⟩, run⟩ : ∃ r, codegenExpr [] 4 castTrue false variableBuilding = .ok r := ⟨_, rfl⟩
    obtain ⟨value, s₁, code, law⟩ := (bool_casts_iff variableBuilding_sound variable_boolean).2.2 8 _ trueExpr _ _ _ _ _ _
      (by omega) variable_boolean (variable_integer 8) run
    cases code
    have start : variableBuilding.Finishes Llvm.cells (variableActivation 0) [] (variableActivation 0) :=
      ⟨⟨0, rfl⟩, rfl, rfl⟩
    obtain ⟨after, finishes, fetched⟩ := (law Llvm.cells _ _ _ true start rfl).mpr (by simp)
    exact ⟨result, s', after, run, finishes, fetched⟩

/-- Minus one cast to bool is false. -/
theorem negative_cast_false : ∃ result s' after, codegenExpr [] 4 castX false variableBuilding = .ok (result, s') ∧
    s'.Finishes Llvm.cells (variableActivation (2 ^ 64 - 1)) [] after ∧
      result.fetch Llvm.cells after.registers = some (.truth false) := by
  obtain ⟨⟨result, s'⟩, run⟩ : ∃ r, codegenExpr [] 4 castX false variableBuilding = .ok r := ⟨_, rfl⟩
  have integer : variableBuilding.context.Resolves variableX.type (.mk 0 (.integerType 64)) := variable_integer 64
  obtain ⟨value, s₁, code, runs⟩ := toBool_finishes variableBuilding_sound integer variable_boolean run
  cases code
  obtain ⟨after, finishes, fetched⟩ := runs Llvm.cells _ _ _ (2 ^ 64 - 1 : Nat) rfl (variable_loads (2 ^ 64 - 1)) rfl
  exact ⟨result, s', after, run, finishes, fetched⟩

end Low
