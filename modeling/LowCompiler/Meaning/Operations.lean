import LowCompiler.Meaning.Parts

/-!
# Operators, assignments and builtins

The rules for the expressions that compute with their operands or change a place.
-/

namespace Low

open Stateful
open Building (Region)
open Llvm (Op Ty Platform Datum)

namespace Simulates
variable {M γ δ : Type} {setting : Setting M} {n fuel : Nat} {r : Nat → Option Datum} {decls : List Decl}
  {codegen : Expr → Bool → Codegen Llvm.Value} {locate : Expr → Evaluation M Lvalue} {evaluate : Expr → Evaluation M Rvalue}
  {perform : Expr → Evaluation M Unit} {loc : Loc} {type : AstType} {target expr : Expr} (knows : setting.Knows decls n r)

/-- A result that is asked for as an lvalue gets a place. -/
theorem spills {platform : Platform M} {c : Context} {value : Llvm.Value} {v : Rvalue} (stands : Stands platform n r value v) :
    Simulates platform c n r (spillUnless true value)
      (do
        let place ← allocatePlace v.type fun _ => []
        writePlace platform place v.datum
        return place)
      fun n r value place => Stands platform n r value place.address := by
  unfold spillUnless
  rw [if_pos rfl, stands.type]
  refine (alloca v.type).bind fun ptr place n₁ r₁ le₁ kept₁ holds => ?_
  obtain ⟨there, _⟩ := holds
  refine (store (stands.kept kept₁ le₁) there).bind fun _ _ n₂ r₂ le₂ kept₂ _ => ?_
  exact pure fun n₃ r₃ le₃ kept₃ => there.kept (kept₂.trans kept₃ le₂) (by omega)

/-! ### Increments and unary operators -/

/-- One more, or one less, at the width of the number. -/
theorem yields_incdec {platform : Platform M} {value : Llvm.Value} {width : Nat} {x : BitVec width}
    (stands : Stands platform n r value (.ofBits x)) (direction : IncdecDirection) :
    Yields platform n r (.int (match direction with | .INC => .add | .DEC => .sub) value (.constInt (.int width) 1))
      (.ofBits (match direction with | .INC => BitVec.ofInt width (x.toInt + 1) | .DEC => BitVec.ofInt width (x.toInt - 1))) := by
  refine ⟨stands.type, fun s kept => ?_⟩
  have number : value.fetch platform s.registers = some (.int width x) := stands.fetched kept
  cases direction with
  | INC =>
    refine Llvm.effect_int number rfl ?_
    simp [Llvm.IntOp.apply, BitVec.ofInt_add]
  | DEC =>
    refine Llvm.effect_int number rfl ?_
    simp [Llvm.IntOp.apply, Int.sub_eq_add_neg, BitVec.ofInt_add, BitVec.ofInt_neg, BitVec.sub_eq_add_neg]

include knows in
theorem incdecExpr (order : IncdecOrder) (direction : IncdecDirection)
    (means : Means setting decls codegen locate evaluate perform target) :
    Simulates setting.platform setting.context n r (codegenIncdecExpr fuel codegen loc type target order direction false)
      (evaluateIncdec setting locate target type order direction) (Stands setting.platform) := by
  unfold codegenIncdecExpr evaluateIncdec
  refine guard fun _ => (means.place n r knows).bind fun ptr place n₁ r₁ le₁ kept₁ there => guard fun _ => ?_
  refine (load there).bind fun value v n₂ r₂ le₂ kept₂ stands => ?_
  cases laid : setting.layout type with
  | none => exact fails
  | some t =>
    cases t with
    | int width' =>
      refine llvmType laid (integer fun width x is => ?_)
      subst is
      dsimp only
      by_cases same : width' = width
      · subst same
        rw [if_pos rfl]
        refine computes (by simp) (yields_incdec stands direction) fun changed n₃ r₃ le₃ kept₃ stands' => ?_
        refine (store stands' (there.kept (kept₂.trans kept₃ le₂) (by omega))).bind fun _ _ n₄ r₄ le₄ kept₄ _ => ?_
        refine pure fun n₅ r₅ le₅ kept₅ => ?_
        cases order with
        | PRE => exact stands'.kept (kept₄.trans kept₅ le₄) (by omega)
        | POST => exact stands.kept ((kept₃.trans kept₄ le₃).trans kept₅ (by omega)) (by omega)
      · rw [if_neg same]
        exact fails
    | _ => exact fails

include knows in
theorem unaryExpr (loc : Loc) (op : UnaryOp) (means : Means setting decls codegen locate evaluate perform target) :
    Simulates setting.platform setting.context n r (codegenUnaryExpr codegen loc target op false)
      (evaluateUnary setting locate evaluate target op) (Stands setting.platform) := by
  unfold codegenUnaryExpr evaluateUnary
  cases op with
  | ADDRESS => exact returns (means.place n r knows) fun _ _ _ _ stands => stands
  | DEREF =>
    refine (means.value n r knows).bind fun ptr v n₁ r₁ le₁ kept₁ stands => pointsTo fun place is => ?_
    subst is
    exact load stands
  | POSITIVE => exact means.value n r knows
  | NEGATIVE =>
    refine (means.value n r knows).bind fun value v n₁ r₁ le₁ kept₁ stands => ?_
    cases target.type.kind with
    | integerType _ =>
      exact integer fun width x is => yields (by simp) (yields_neg stands is)
    | floatType _ => exact known fun d negated => yields (by simp) (yields_fneg stands negated)
    | _ => exact fails
  | BITWISE_NOT =>
    dsimp only
    split
    case h_2 => exact throw _
    case h_1 =>
      refine (means.value n r knows).bind fun value v n₁ r₁ le₁ kept₁ stands => integer fun width x is => ?_
      exact yields (by simp) (yields_not stands is)
  | NOT =>
    dsimp only
    split
    case h_2 => exact throw _
    case h_1 =>
      refine (means.value n r knows).bind fun value v n₁ r₁ le₁ kept₁ stands => known fun b is => ?_
      exact yields (by simp) (yields_not_bool stands (Rvalue.bool?_eq.mp is))

theorem typeSizeof (size : AstType) :
    Simulates setting.platform setting.context n r (codegenTypeSizeof fuel loc type size false)
      (evaluateSizeof setting size type) (Stands setting.platform) := by
  unfold codegenTypeSizeof codegenSizeof evaluateSizeof
  refine noLvalue fun _ => guard fun _ => known fun bytes laid => llvmType laid ?_
  split
  case h_2 => exact fails
  case h_1 count measured =>
    cases laid' : setting.layout type with
    | none => exact fails
    | some t =>
      cases t with
      | int width =>
        have stands : Stands setting.platform n r (.sizeOf bytes) (.ofBits count) := ⟨trivial, rfl, measured⟩
        exact llvmType laid' (yields (by simp) (yields_intCast stands rfl))
      | _ => exact fails

include knows in
theorem castExpr (castType : AstType) (means : Means setting decls codegen locate evaluate perform target) :
    Simulates setting.platform setting.context n r (codegenCastExpr fuel decls codegen loc target castType false)
      (evaluateCast setting evaluate target castType) (Stands setting.platform) := by
  unfold codegenCastExpr evaluateCast
  refine noLvalue fun _ => (means.value n r knows).bind fun value v n₁ r₁ le₁ kept₁ stands => ?_
  refine known fun dst laid => llvmType laid (known fun fromType from' => resolved from' ?_)
  refine known fun toType to' => resolved to' (known_last fun w is => ?_)
  unfold castValue at is
  by_cases same : typeEqual fromType toType = true
  · rw [if_pos same] at is ⊢
    cases is
    exact pure fun _ _ le kept => stands.kept kept le
  rw [if_neg same] at is ⊢
  split
  case h_1 members interface =>
    rw [interface] at is
    cases is
  case h_2 other =>
    split at is
    case h_1 => cases is
    case h_2 =>
      by_cases pointer : 0 < fromType.pointer
      · rw [if_pos pointer] at is ⊢
        obtain ⟨place, pointed, result⟩ := Option.bind_eq_some_iff.mp is
        clear is
        obtain rfl := Rvalue.pointee_eq.mp pointed
        by_cases pointer' : 0 < toType.pointer
        · rw [if_pos pointer'] at result ⊢
          cases result
          exact yields (by simp) (yields_pointerCast stands rfl)
        · rw [if_neg pointer'] at result ⊢
          split at result
          case h_2 => cases result
          case h_1 integer =>
            cases result
            rw [integer]
            exact yields (by simp) (yields_ptrToInt stands rfl)
      rw [if_neg pointer] at is ⊢
      split at is
      case h_3 => cases is
      case h_1 number =>
        obtain ⟨⟨width, x⟩, bits, result⟩ := Option.bind_eq_some_iff.mp is
        clear is
        obtain rfl := Rvalue.int?_eq.mp bits
        dsimp only at result
        rw [number]
        by_cases pointer' : 0 < toType.pointer
        · rw [if_pos pointer'] at result ⊢
          cases result
          exact yields (by simp) (yields_intToPtr stands rfl)
        · rw [if_neg pointer'] at result ⊢
          split at result
          case h_2 => cases result
          case h_1 integer =>
            cases result
            rw [integer]
            exact yields (by simp) (yields_intCast stands rfl)
      case h_2 boolean =>
        obtain ⟨b, truth, result⟩ := Option.bind_eq_some_iff.mp is
        clear is
        obtain rfl := Rvalue.bool?_eq.mp truth
        rw [boolean]
        have direct : ¬0 < toType.pointer := by
          intro pointer'
          rw [if_pos pointer'] at result
          cases result
        rw [if_neg direct] at result
        split at result
        case h_2 => cases result
        case h_1 integer =>
          cases result
          rw [integer]
          have none : toType.pointer = 0 := Nat.eq_zero_of_not_pos direct
          simp only [none]
          exact yields (by simp) (yields_zext stands rfl)

include knows in
theorem binaryExpr {lhs rhs : Expr} (op : BinaryOp) (means : Means setting decls codegen locate evaluate perform lhs)
    (means' : Means setting decls codegen locate evaluate perform rhs) :
    Simulates setting.platform setting.context n r (codegenBinaryExpr codegen loc lhs rhs op false)
      (evaluateBinary setting evaluate lhs rhs op) (Stands setting.platform) := by
  unfold codegenBinaryExpr evaluateBinary
  refine guard fun _ => guard fun _ => noLvalue fun _ => ?_
  refine (means.value n r knows).bind fun left v n₁ r₁ le₁ kept₁ stands => ?_
  refine (means'.value n₁ r₁ (knows.kept le₁ kept₁)).bind fun right u n₂ r₂ le₂ kept₂ stands' => ?_
  have first := stands.kept kept₂ le₂
  cases lhs.type.kind with
  | booleanType =>
    refine known_last fun w is => ?_
    cases found : boolOp op with
    | none => exact throw _
    | some instr => exact yields (Generates.operator_plain (.inl found) _ _) (yields_booleans first stands' found is)
  | integerType _ =>
    refine known_last fun w is => ?_
    cases found : intOp op with
    | none => exact throw _
    | some instr => exact yields (Generates.operator_plain (.inr (.inl found)) _ _) (yields_integers first stands' found is)
  | floatType _ =>
    refine known_last fun w is => ?_
    cases found : realOp op with
    | none => exact throw _
    | some instr => exact yields (Generates.operator_plain (.inr (.inr found)) _ _) (yields_reals first stands' found is)
  | _ => exact fails

/-! ### Conditionals -/

def Leaves (c : Context) (codegen : Expr → Bool → Codegen Llvm.Value) (e : Expr) : Prop :=
  ∀ s value s', s.context = c → codegen e false s = .ok (value, s') → s'.context = c

theorem evaluateConditional_some {condition trueExpr falseExpr : Expr} {v : Rvalue} {w w' : World M}
    (done : evaluateConditional setting evaluate condition trueExpr falseExpr w = some (v, w')) :
    ∃ b w₁ t u, evaluate condition w = some (.ofBool b, w₁) ∧ setting.layout trueExpr.type = some t ∧
      evaluate (if b then trueExpr else falseExpr) w₁ = some (u, w') ∧ v = ⟨t, u.datum⟩ := by
  obtain ⟨u, w₁, tested, done⟩ := Evaluation.bind_some.mp done
  obtain ⟨b, _, truth, done⟩ := Evaluation.bind_some.mp done
  obtain ⟨truth, rfl⟩ := Evaluation.known_some.mp truth
  obtain ⟨t, _, laid, done⟩ := Evaluation.bind_some.mp done
  obtain ⟨laid, rfl⟩ := Evaluation.known_some.mp laid
  obtain ⟨chosen, _, arm, last⟩ := Evaluation.bind_some.mp done
  cases last
  exact ⟨b, w₁, t, chosen, Rvalue.bool?_eq.mp truth ▸ tested, laid, arm, rfl⟩

include knows in
theorem conditionalExpr {condition trueExpr falseExpr : Expr}
    (below : ∀ e lvalue n, Generates setting.context n (Opens setting.context decls e) (¬Nested setting.context decls e)
      (codegen e lvalue) Llvm.Value.Below)
    (flat : ¬Opens setting.context decls trueExpr) (flat' : ¬Opens setting.context decls falseExpr)
    (leaves : Leaves setting.context codegen trueExpr) (leaves' : Leaves setting.context codegen falseExpr)
    (means : Means setting decls codegen locate evaluate perform condition)
    (means₁ : Means setting decls codegen locate evaluate perform trueExpr)
    (means₂ : Means setting decls codegen locate evaluate perform falseExpr) :
    Simulates setting.platform setting.context n r (codegenConditionalExpr fuel codegen condition trueExpr falseExpr false)
      (evaluateConditional setting evaluate condition trueExpr falseExpr) (Stands setting.platform) := by
  intro s value s' x w v w' sound same le here kept atWorld built done
  obtain ⟨cond, s₁, trueValue, s₂, falseValue, s₃, t, s₄, condRun, trueRun, falseRun, translated, rfl, rfl⟩ :=
    codegenConditionalExpr_ok built
  obtain ⟨b, w₁, t', u, tested, laid, arm, rfl⟩ := evaluateConditional_some done
  -- The condition comes first.
  obtain ⟨region, same₁, x₁, runs, stands⟩ := means.value n r knows s cond s₁ x w _ w₁ sound same le here kept atWorld condRun tested
  have knows₁ := knows.kept (Nat.le_trans le region.results) (kept.trans runs.kept le)
  -- Both branches leave code, and stay in their blocks.
  have trueRun' : codegen trueExpr false (s₁.first cond) = .ok (trueValue, s₂) := trueRun
  have falseRun' : codegen falseExpr false (s₁.second s₂) = .ok (falseValue, s₃) := falseRun
  have starts : Region s₁ (s₁.first cond) := Building.diamond_starts region.sound cond
  have same₂ : s₂.context = setting.context := leaves (s₁.first cond) _ _ same₁ trueRun'
  have same₃ : s₃.context = setting.context := leaves' (s₁.second s₂) _ _ same₂ falseRun'
  obtain ⟨codes, _⟩ := below trueExpr false _ _ _ _ starts.sound (same₁ ▸ .refl _) (Nat.le_refl _) trueRun'
  have onTrue := codes.congr (iff_false_intro flat) Iff.rfl
  have blocks : s₁.blocks + 3 ≤ s₂.blocks := onTrue.blocks
  have between : Region s₁ (s₁.second s₂) := (starts.trans onTrue.toRegion).enter _ _ (by omega) (by omega) (by omega) (by omega)
  obtain ⟨codes', _⟩ := below falseExpr false _ _ _ _ between.sound (same₂ ▸ .refl _) (Nat.le_refl _) falseRun'
  have onFalse := codes'.congr (iff_false_intro flat') Iff.rfl
  have blocks' : s₂.blocks ≤ s₃.blocks := onFalse.blocks
  have meets : Region s₁ (s₁.meet s₃) := (between.trans onFalse.toRegion).enter _ _ (by omega) (by omega) (by omega) (by omega)
  obtain ⟨context, there, rfl⟩ := llvmType_ok translated
  obtain ⟨rfl, leave⟩ := Context.layout_translated laid (same₃ ▸ there)
  have last : ({ s₃.enter (.br (s₁.blocks + 2)) (s₁.blocks + 2) with context } : Building) = s₁.meet s₃ := by
    rw [leave, ← same₃]
    rfl
  rw [last]
  have joined : Region s₁ (s₁.joined s₃ t trueValue falseValue) :=
    (Building.diamond region.sound onTrue onFalse (.refl meets.sound)).toRegion
  -- The branch that is taken does what it means.
  have branch (y : Llvm.Activation M) (inside : (if b then s₁.first cond else s₁.second s₂).Here y)
      (registers : y.registers = x₁.registers) (memory : y.memory = x₁.memory) (objects : y.objects = x₁.objects) :
      ∃ y', Runs setting.platform (if b then s₁.first cond else s₁.second s₂) (if b then s₂ else s₃) y w₁ w' y' ∧
        (if b then trueValue else falseValue).fetch setting.platform y'.registers = some u.datum := by
    have world : w₁.At y := ⟨memory.trans runs.atWorld.1, objects.trans runs.atWorld.2⟩
    have old : Kept s₁.results x₁.registers y.registers := registers ▸ .refl _ _
    cases b with
    | true =>
      obtain ⟨_, _, y', runs', stands'⟩ := means₁.value _ _ knows₁ (s₁.first cond) _ _ y _ _ _ starts.sound same₁ (Nat.le_refl _)
        inside old world trueRun' arm
      exact ⟨y', runs', stands'.fetch⟩
    | false =>
      obtain ⟨_, _, y', runs', stands'⟩ := means₂.value _ _ knows₁ (s₁.second s₂) _ _ y _ _ _ between.sound same₂ between.results
        inside old world falseRun' arm
      exact ⟨y', runs', stands'.fetch⟩
  obtain ⟨x', through, fetched⟩ := Building.runs_diamond region.sound onTrue onFalse runs.here stands.fetch branch
  exact ⟨region.trans joined, same₃, x', runs.trans through region joined, Nat.lt_succ_self _, rfl, fetched⟩

/-! ### Assignments and sequences -/

include knows in
theorem assignmentExpr (means : Means setting decls codegen locate evaluate perform target)
    (means' : Means setting decls codegen locate evaluate perform expr) :
    Simulates setting.platform setting.context n r (codegenAssignmentExpr codegen target expr .ASSIGN)
      (evaluateAssignment setting locate evaluate target expr) (Stands setting.platform) := by
  unfold codegenAssignmentExpr evaluateAssignment
  refine (means.place n r knows).bind fun ptr place n₁ r₁ le₁ kept₁ there => ?_
  refine (means'.value n₁ r₁ (knows.kept le₁ kept₁)).bind fun value v n₂ r₂ le₂ kept₂ stands => ?_
  rw [pure_bind]
  refine (store stands (there.kept kept₂ le₂)).bind fun _ _ n₃ r₃ le₃ kept₃ _ => ?_
  exact pure fun n₄ r₄ le₄ kept₄ => stands.kept (kept₃.trans kept₄ le₃) (by omega)

include knows in
theorem commaExpr {exprs : List Expr} (means : ∀ e ∈ exprs, Means setting decls codegen locate evaluate perform e) :
    Simulates setting.platform setting.context n r (codegenCommaExpr codegen exprs false) (evaluateComma evaluate perform exprs)
      (Stands setting.platform) := by
  have all : Simulates setting.platform setting.context n r (exprs.mapM fun expr => codegen expr false)
      (evaluateComma evaluate perform exprs) fun n r values v => ∃ value, values.getLast? = some value ∧ Stands setting.platform n r value v := by
    induction exprs generalizing n r with
    | nil => exact fails
    | cons first rest ih =>
      obtain ⟨one, others⟩ := List.forall_mem_cons.mp means
      rw [List.mapM_cons]
      cases rest with
      | nil =>
        rw [← bind_pure (evaluateComma _ _ _)]
        refine (one.value n r knows).bind fun value v n₁ r₁ le₁ kept₁ stands => ?_
        exact pure fun _ _ le kept => ⟨value, rfl, stands.kept kept le⟩
      | cons second rest =>
        refine (one.effect n r knows).bind fun value _ n₁ r₁ le₁ kept₁ _ => ?_
        rw [← bind_pure (evaluateComma _ _ _)]
        refine (ih (knows.kept le₁ kept₁) others).bind fun values v n₂ r₂ le₂ kept₂ holds => ?_
        obtain ⟨last, is, stands⟩ := holds
        refine pure fun _ _ le kept => ⟨last, ?_, stands.kept kept le⟩
        rw [List.getLast?_cons, is]
        rfl
  unfold codegenCommaExpr
  refine noLvalue fun _ => ?_
  rw [← bind_pure (evaluateComma _ _ _)]
  refine all.bind fun values v n₁ r₁ le₁ kept₁ holds => ?_
  obtain ⟨last, is, stands⟩ := holds
  rw [is]
  exact pure fun _ _ le kept => stands.kept kept le

theorem newBuiltinExpr (codegen : Expr → Bool → Codegen Llvm.Value) (newType : AstType) :
    Simulates setting.platform setting.context n r (codegenNewBuiltinExpr fuel codegen newType none)
      (evaluateNew setting newType) (Stands setting.platform) := by
  unfold codegenNewBuiltinExpr evaluateNew
  refine known fun t laid => llvmType laid ?_
  refine (malloc t).bind fun ptr place n₁ r₁ le₁ kept₁ holds => ?_
  obtain ⟨there, _⟩ := holds
  have zeros : Stands setting.platform n₁ r₁ (.constNull t) ⟨t, t.null⟩ := ⟨trivial, rfl, rfl⟩
  refine (store zeros there).bind fun _ _ n₂ r₂ le₂ kept₂ _ => ?_
  exact pure fun _ _ le kept => there.kept (kept₂.trans kept le₂) (by omega)

include knows in
theorem lencapBuiltinExpr (kind : LencapKind) (means : Means setting decls codegen locate evaluate perform expr) :
    Simulates setting.platform setting.context n r (codegenLencapBuiltinExpr codegen expr kind)
      (evaluateLencap evaluate expr kind) (Stands setting.platform) := by
  unfold codegenLencapBuiltinExpr evaluateLencap
  refine (means.value n r knows).bind fun slice v n₁ r₁ le₁ kept₁ stands => known_last fun u is => ?_
  exact yields (by simp) (yields_extractValue stands is)

include knows in
theorem freeBuiltinExpr (means : Means setting decls codegen locate evaluate perform expr) :
    Simulates setting.platform setting.context n r (codegenFreeBuiltinExpr codegen expr) (performFree evaluate expr)
      fun _ _ _ _ => True := by
  unfold codegenFreeBuiltinExpr performFree
  refine (means.value n r knows).bind fun ptr v n₁ r₁ le₁ kept₁ stands => pointsTo fun place is => ?_
  subst is
  exact free stands

include knows in
theorem disposeBuiltinExpr (means : Means setting decls codegen locate evaluate perform expr) :
    Simulates setting.platform setting.context n r (codegenDisposeBuiltinExpr codegen expr) (performDispose setting locate expr)
      fun _ _ _ _ => True := by
  unfold codegenDisposeBuiltinExpr performDispose
  refine (means.place n r knows).bind fun ptr place n₁ r₁ le₁ kept₁ there => ?_
  refine (loads there).bind fun slice v n₂ r₂ le₂ kept₂ holds => known fun base is => ?_
  obtain ⟨stands, same, _⟩ := holds
  obtain ⟨u, fourth, pointed⟩ := Option.bind_eq_some_iff.mp is
  obtain rfl := Rvalue.pointee_eq.mp pointed
  refine computes (by simp) (yields_extractValue stands fourth) fun ptr' n₃ r₃ le₃ kept₃ stands' => ?_
  have typed : slice.type = place.type := stands.type.trans same
  rw [typed]
  have zeros : Stands setting.platform n₃ r₃ (.constNull place.type) ⟨place.type, place.type.null⟩ := ⟨trivial, rfl, rfl⟩
  refine (store zeros (there.kept (kept₂.trans kept₃ le₂) (by omega))).bind fun _ _ n₄ r₄ le₄ kept₄ _ => ?_
  exact free (stands'.kept kept₄ le₄)

end Simulates

end Low
