import LowCompiler.Codegen.Shapes
import LowCompiler.Codegen.InterfaceTables

/-!
# Which expressions open blocks

The code for an expression ends in another block than it begins in, if the expression or
one of its parts opens blocks. The phis of its conditionals are exact, if no branch of a
conditional does.
-/

namespace Low

open Stateful
open Llvm (Op Ty)

/-! ### Parts of expressions -/

/-- `resolve_type_name` comes to the type. -/
def Context.Resolves (c : Context) (type u : AstType) : Prop := ∃ fuel, resolveTypeName c fuel type = .ok u

theorem Context.Resolves.agree {c : Context} {type u v : AstType} (first : c.Resolves type u)
    (second : c.Resolves type v) : u = v := by
  obtain ⟨_, first⟩ := first
  obtain ⟨_, second⟩ := second
  exact resolveTypeName_agree (fun _ _ found => found) (fun _ _ found => found) first second

/-- What a name comes to in a later context it comes to in an earlier one. -/
theorem resolves_before {c c' : Context} (le : NoMoreTypes c c') {fuel : Nat} {type u : AstType}
    (run : resolveTypeName c' fuel type = .ok u) : c.Resolves type u := by
  induction fuel generalizing type with
  | zero => cases run
  | succ fuel ih =>
    by_cases named : ∃ name, type = .mk 0 (.namedType name)
    · obtain ⟨name, rfl⟩ := named
      obtain ⟨v, found, run⟩ := resolveTypeName_named run
      obtain ⟨fuel', run'⟩ := ih run
      obtain ⟨symbol, there, typed⟩ := Option.bind_eq_some_iff.mp (le name v found)
      exact ⟨fuel' + 1, by simpa [resolveTypeName, there, typed] using run'⟩
    · have other (name : Name) : type ≠ .mk 0 (.namedType name) := fun same => named ⟨name, same⟩
      refine ⟨1, ?_⟩
      rw [resolveTypeName] at run ⊢
      · exact run
      · exact other
      · exact other

section Parts
variable (c : Context) (decls : List Decl)

/-- The value whose code is generated for the name of a constant. -/
def Context.constant (ident : Name) : Option Expr :=
  if ident = trueName ∨ ident = falseName then none
  else
    (c.findSymbol ident).bind fun sym =>
      if sym.kind = .FUNC ∨ sym.value.isSome then none
      else
        match sym.decl.bind (decls[·]?) with
        | some ⟨_, .constDecl _ _ value⟩ => some value
        | _ => none

/-- The target of a slice expression is a slice, whatever its pointers. -/
def SlicesSlice (target : Expr) : Prop :=
  ∃ pointer element, c.Resolves target.type (.mk pointer (.sliceType element))

namespace ExprKind

/-- Whose code is generated in any case. -/
def operands : ExprKind Expr → List Expr
  | .identExpr _ | .stringLiteralExpr _ | .numberLiteralExpr _ _ | .typeSizeof _ => []
  | .indexAccessExpr target index => [target, index]
  | .callExpr _ args => args
  | .indexSliceExpr target _ _ _ | .memberAccessExpr target _ | .incdecExpr target _ _ | .unaryExpr target _
  | .castExpr target _ => [target]
  | .exprSizeof expr | .freeBuiltin expr | .makeBuiltin _ expr | .lencapBuiltin expr _ | .disposeBuiltin expr => [expr]
  | .binaryExpr lhs rhs _ => [lhs, rhs]
  | .conditionalExpr condition trueExpr falseExpr => [condition, trueExpr, falseExpr]
  | .assignmentExpr target expr _ => [target, expr]
  | .commaExpr exprs => exprs
  | .newBuiltin _ expr => expr.toList

def OpensHere : ExprKind Expr → Prop
  | .conditionalExpr _ _ _ | .makeBuiltin _ _ | .newBuiltin _ (some _) => True
  | .indexAccessExpr target _ => ∃ element, c.Resolves target.type (.mk 0 (.sliceType element))
  | .indexSliceExpr target _ _ kind => SlicesSlice c target ∧ kind ≠ .COPY
  | _ => False

end ExprKind

/-- The code for the second expression is part of the code for the first. -/
inductive Part : Expr → Expr → Prop where
  | operand {loc : Loc} {type : AstType} {kind : ExprKind Expr} {p : Expr} (member : p ∈ kind.operands) :
    Part (.mk loc type kind) p
  | bound {loc : Loc} {type : AstType} {target p : Expr} {start stop : Option Expr} {kind : IndexSliceKind}
    (member : p ∈ start.toList ++ stop.toList) (taken : ¬(SlicesSlice c target ∧ kind = .COPY)) :
    Part (.mk loc type (.indexSliceExpr target start stop kind)) p
  | const {loc : Loc} {type : AstType} {ident : Name} {p : Expr} (is : c.constant decls ident = some p) :
    Part (.mk loc type (.identExpr ident)) p

inductive Opens : Expr → Prop where
  | here {loc : Loc} {type : AstType} {kind : ExprKind Expr} (opens : kind.OpensHere c) : Opens (.mk loc type kind)
  | part {e p : Expr} (part : Part c decls e p) (opens : Opens p) : Opens e

/-- A branch of a conditional opens blocks. -/
inductive Nested : Expr → Prop where
  | here {loc : Loc} {type : AstType} {condition trueExpr falseExpr : Expr}
    (opens : Opens c decls trueExpr ∨ Opens c decls falseExpr) :
    Nested (.mk loc type (.conditionalExpr condition trueExpr falseExpr))
  | part {e p : Expr} (part : Part c decls e p) (nested : Nested p) : Nested e

def ExprKind.NestedHere : ExprKind Expr → Prop
  | .conditionalExpr _ trueExpr falseExpr => Opens c decls trueExpr ∨ Opens c decls falseExpr
  | _ => False

/-- The parts are the operands. -/
def ExprKind.isPlain : ExprKind Expr → Bool
  | .identExpr _ | .indexSliceExpr _ _ _ _ => false
  | _ => true

section Rules
variable {c decls} {loc : Loc} {type : AstType} {kind : ExprKind Expr}

theorem opens_iff : Opens c decls (.mk loc type kind) ↔
    kind.OpensHere c ∨ ∃ p, Part c decls (.mk loc type kind) p ∧ Opens c decls p := by
  constructor
  · intro opens
    cases opens with
    | here here => exact .inl here
    | part part opens => exact .inr ⟨_, part, opens⟩
  · rintro (here | ⟨p, part, opens⟩)
    · exact .here here
    · exact .part part opens

theorem nested_iff : Nested c decls (.mk loc type kind) ↔
    kind.NestedHere c decls ∨ ∃ p, Part c decls (.mk loc type kind) p ∧ Nested c decls p := by
  constructor
  · intro nested
    cases nested with
    | here opens => exact .inl opens
    | part part nested => exact .inr ⟨_, part, nested⟩
  · rintro (here | ⟨p, part, nested⟩)
    · cases kind <;> first | exact absurd here not_false | exact .here here
    · exact .part part nested

theorem part_iff (plain : kind.isPlain = true) {p : Expr} :
    Part c decls (.mk loc type kind) p ↔ p ∈ kind.operands := by
  refine ⟨fun part => ?_, .operand⟩
  cases part with
  | operand member => exact member
  | bound => cases plain
  | const => cases plain

theorem part_ident {ident : Name} {p : Expr} :
    Part c decls (.mk loc type (.identExpr ident)) p ↔ c.constant decls ident = some p := by
  refine ⟨fun part => ?_, .const⟩
  cases part with
  | operand member => cases member
  | const is => exact is

theorem part_slice {target p : Expr} {start stop : Option Expr} {kind : IndexSliceKind} :
    Part c decls (.mk loc type (.indexSliceExpr target start stop kind)) p ↔
      p = target ∨ p ∈ start.toList ++ stop.toList ∧ ¬(SlicesSlice c target ∧ kind = .COPY) := by
  constructor
  · intro part
    cases part with
    | operand member => exact .inl (List.mem_singleton.mp member)
    | bound member taken => exact .inr ⟨member, taken⟩
  · rintro (rfl | ⟨member, taken⟩)
    · exact .operand (List.mem_singleton_self p)
    · exact .bound member taken

theorem opens_plain (plain : kind.isPlain = true) : Opens c decls (.mk loc type kind) ↔
    kind.OpensHere c ∨ ∃ p ∈ kind.operands, Opens c decls p := by
  simp only [opens_iff, part_iff plain]

theorem nested_plain (plain : kind.isPlain = true) : ¬Nested c decls (.mk loc type kind) ↔
    ¬kind.NestedHere c decls ∧ ∀ p ∈ kind.operands, ¬Nested c decls p := by
  simp only [nested_iff, part_iff plain, not_or, not_exists, not_and]

end Rules

end Parts

/-! ### Programs that generate code -/

open Building (Codes Sound)

/-- A program that succeeds leaves code, and a result that `Q` holds for. Values that are known have
numbers below `n`. -/
def Generates {α : Type} (c : Context) (n : Nat) (opens flat : Prop) (m : Codegen α) (Q : Nat → α → Prop) :
    Prop :=
  ∀ s a s', s.Sound → c.Gains s.context → n ≤ s.results → m s = .ok (a, s') →
    Codes opens flat s s' ∧ Q s'.results a

namespace Generates

section Rules
variable {α β : Type} {c : Context} {n : Nat} {opens opens' flat flat' : Prop} {m : Codegen α} {k : α → Codegen β}
  {Q : Nat → α → Prop} {R : Nat → β → Prop}

theorem congr (generates : Generates c n opens flat m Q) (sameOpens : opens ↔ opens')
    (sameFlat : flat ↔ flat') :
    Generates c n opens' flat' m Q := by
  rwa [← propext sameOpens, ← propext sameFlat]

theorem bind (first : Generates c n opens flat m Q)
    (rest : ∀ a n', n ≤ n' → Q n' a → Generates c n' opens' flat' (k a) R) :
    Generates c n (opens ∨ opens') (flat ∧ flat') (m >>= k) R := by
  intro s b s' sound gains known run
  obtain ⟨a, s₁, run, later⟩ := bind_ok.mp run
  obtain ⟨codes, result⟩ := first s a s₁ sound gains known run
  obtain ⟨codes', result'⟩ := rest a s₁.results (Nat.le_trans known codes.results) result s₁ b s' codes.sound
    (gains.trans codes.context) (Nat.le_refl _) later
  exact ⟨codes.trans codes', result'⟩

/-- A step without blocks of its own comes first. -/
theorem still (first : Generates c n False True m Q)
    (rest : ∀ a n', n ≤ n' → Q n' a → Generates c n' opens flat (k a) R) :
    Generates c n opens flat (m >>= k) R :=
  (first.bind rest).congr (by simp) (by simp)

/-- A step without blocks of its own comes last. -/
theorem last (first : Generates c n opens flat m Q)
    (rest : ∀ a n', n ≤ n' → Q n' a → Generates c n' False True (k a) R) :
    Generates c n opens flat (m >>= k) R :=
  (first.bind rest).congr (by simp) (by simp)

theorem throw (e : CodegenError) : Generates c n opens flat (throw e : Codegen α) Q :=
  fun _ _ _ _ _ _ run => nomatch run

theorem throw_bind (e : CodegenError) : Generates c n opens flat ((MonadExcept.throw e : Codegen α) >>= k) R :=
  fun _ _ _ _ _ _ run => nomatch run

theorem guard {b : Prop} [Decidable b] {e : CodegenError} {m : Codegen β}
    (rest : ¬b → Generates c n opens flat m R) :
    Generates c n opens flat (if b then (MonadExcept.throw e : Codegen α) >>= k else m) R := by
  split
  case isTrue => exact throw_bind e
  case isFalse passed => exact rest passed

theorem pure (a : α) (holds : ∀ n', n ≤ n' → Q n' a) :
    Generates c n False True (Pure.pure a : Codegen α) Q := by
  intro s a s' sound gains known run
  cases run
  exact ⟨.refl sound, holds _ known⟩

theorem present (a : Option α) (holds : ∀ n' v, n ≤ n' → a = some v → Q n' v) :
    Generates c n False True (present a : Codegen α) Q := by
  cases a with
  | none => exact throw _
  | some a => exact pure a fun n' le => holds n' a le rfl

/-- The building is read, to find something in its context. -/
theorem get : Generates c n False True (MonadState.get : Codegen Building) fun n s => c.Gains s.context ∧ s.Sound ∧ n = s.results := by
  intro s a s' sound gains known run
  cases run
  exact ⟨.refl sound, gains, sound, rfl⟩

theorem imp {Q' : Nat → α → Prop} (generates : Generates c n opens flat m Q) (weaker : ∀ n a, Q n a → Q' n a) :
    Generates c n opens flat m Q' := fun s a s' sound gains known run =>
  (generates s a s' sound gains known run).imp id (weaker _ _)

/-- A loop opens blocks if one of its turns does. -/
theorem mapM {f : α → Codegen β} {opens flat : α → Prop} (turn : ∀ x n', n ≤ n' → Generates c n' (opens x) (flat x) (f x) R)
    (mono : ∀ {n n' b}, R n b → n ≤ n' → R n' b) (xs : List α) :
    Generates c n (∃ x ∈ xs, opens x) (∀ x ∈ xs, flat x) (xs.mapM f) fun n bs => ∀ b ∈ bs, R n b := by
  induction xs generalizing n with
  | nil => exact (pure [] fun _ _ => nofun).congr (by simp) (by simp)
  | cons x xs ih =>
    rw [List.mapM_cons]
    refine ((turn x n (Nat.le_refl _)).bind fun b n₁ le₁ first =>
      (ih fun x n' le => turn x n' (Nat.le_trans le₁ le)).last fun bs n₂ le₂ rest => ?_).congr (by simp) (by simp)
    exact pure _ fun n' le => List.forall_mem_cons.mpr
      ⟨mono first (Nat.le_trans le₂ le), fun b member => mono (rest b member) le⟩

theorem mapM_still {f : α → Codegen β} (turn : ∀ x n', Generates c n' False True (f x) fun _ _ => True)
    (xs : List α) :
    Generates c n False True (xs.mapM f) fun _ _ => True :=
  ((mapM (fun x n' _ => turn x n') (fun _ _ => trivial) xs).congr (by simp) (by simp)).imp fun _ _ _ => trivial

end Rules

section Steps
variable {c : Context} {n fuel : Nat} {opens flat : Prop}

theorem build {op : Op} (plain : ∀ type incoming, op ≠ .phi type incoming) :
    Generates c n False True (Low.build op) Llvm.Value.Below := by
  intro s a s' sound gains known run
  cases run
  exact ⟨.of_region ((Building.Region.refl sound).op fun type incoming same => absurd same (plain type incoming))
    (Building.push_current s (.op op)) rfl, Nat.lt_succ_self _⟩

theorem llvmType (type : AstType) : Generates c n False True (Low.llvmType fuel type) fun _ _ => True := by
  intro s a s' sound gains known run
  rw [Low.llvmType] at run
  split at run
  case h_1 translated =>
    cases run
    exact ⟨.of_region ((Building.Region.refl sound).gain (Context.Gains.codegenType (.refl _) translated)) rfl rfl, trivial⟩
  case h_2 => cases run

theorem resolved (type : AstType) : Generates c n False True (Low.resolved fuel type) fun _ u => c.Resolves type u := by
  intro s u s' sound gains known run
  obtain ⟨found, rfl⟩ := resolved_ok run
  exact ⟨.refl sound, resolves_before gains.noMoreTypes found⟩

theorem noLvalue (lvalue : Bool) (message : String) :
    Generates c n False True (Low.noLvalue lvalue message) fun _ _ => True := by
  cases lvalue with
  | true => exact throw _
  | false => exact pure () fun _ _ => trivial

theorem loadUnless {lvalue : Bool} {ptr : Llvm.Value} (there : ptr.Below n) :
    Generates c n False True (Low.loadUnless lvalue ptr) Llvm.Value.Below := by
  cases lvalue with
  | true => exact pure ptr fun _ le => there.mono le
  | false => exact build (by simp)

theorem spillUnless {lvalue : Bool} {result : Llvm.Value} (there : result.Below n) :
    Generates c n False True (Low.spillUnless lvalue result) Llvm.Value.Below := by
  cases lvalue with
  | true =>
    refine (build (by simp)).still fun ptr n₁ le₁ ptrThere => ?_
    exact (build (by simp)).still fun _ n₂ le₂ _ => pure ptr fun _ le => ptrThere.mono (Nat.le_trans le₂ le)
  | false => exact pure result fun _ le => there.mono le

theorem addTable (fields : List Llvm.Value) :
    Generates c n False True (Low.addTable fields) Llvm.Value.Below := by
  intro s a s' sound gains known run
  cases run
  exact ⟨.of_region { Building.Region.refl sound with
    sound := ⟨sound.numbered, sound.entered, sound.inside, sound.known⟩ } rfl rfl, trivial⟩

theorem buildAssert (condition : Llvm.Value) :
    Generates c n True True (Low.buildAssert condition) fun _ _ => True := by
  intro s a s' sound gains known run
  cases (Building.buildAssert_run s condition).symm.trans run
  exact ⟨Building.checked_codes condition sound, trivial⟩

theorem arrayNew (element : Ty) (size : Llvm.Value) :
    Generates c n True True (codegenArrayNew element size) Llvm.Value.Below := by
  intro s a s' sound gains known run
  obtain ⟨rfl, rfl⟩ := Prod.mk.inj (Except.ok.inj ((Building.codegenArrayNew_run s element size).symm.trans run))
  refine ⟨Building.zeroed_codes element size sound, ?_⟩
  rw [Building.zeroed_results, Building.arrptr]
  exact Nat.lt_add_of_pos_right (Nat.succ_pos 8)

end Steps

/-! ### The functions of `codegen_expr_fn` -/

theorem operator_plain {op : BinaryOp} {instr : Llvm.Value → Llvm.Value → Op}
    (is : boolOp op = some instr ∨ intOp op = some instr ∨ realOp op = some instr) (l r : Llvm.Value) (type : Ty)
    (incoming : List (Llvm.Value × Nat)) : instr l r ≠ .phi type incoming := by
  rcases is with is | is | is <;> cases op <;> cases is <;> exact nofun

section Expressions
variable {c : Context} {decls : List Decl} {codegen : Expr → Bool → Codegen Llvm.Value} {fuel : Nat} {loc : Loc}
  {type : AstType} {n : Nat}
  (below : ∀ expr lvalue n,
    Generates c n (Opens c decls expr) (¬Nested c decls expr) (codegen expr lvalue) Llvm.Value.Below)
include below

theorem binaryExpr (lhs rhs : Expr) (op : BinaryOp) (lvalue : Bool) :
    Generates c n (Opens c decls lhs ∨ Opens c decls rhs) (¬Nested c decls lhs ∧ ¬Nested c decls rhs)
      (codegenBinaryExpr codegen loc lhs rhs op lvalue) Llvm.Value.Below := by
  unfold codegenBinaryExpr
  refine guard fun _ => guard fun _ => (noLvalue _ _).still fun _ _ _ _ => (below lhs false _).bind fun l _ _ _ =>
    (below rhs false _).last fun r _ _ _ => ?_
  split
  · split
    case h_1 is => exact build (operator_plain (.inl is) l r)
    case h_2 => exact throw _
  · split
    case h_1 is => exact build (operator_plain (.inr (.inl is)) l r)
    case h_2 => exact throw _
  · split
    case h_1 is => exact build (operator_plain (.inr (.inr is)) l r)
    case h_2 => exact throw _
  · exact throw _

omit below in
theorem stringLiteralExpr (literal : Name) (lvalue : Bool) :
    Generates c n False True (codegenStringLiteralExpr literal lvalue) Llvm.Value.Below :=
  (noLvalue _ _).still fun _ _ _ _ => pure _ fun _ _ => trivial

omit below in
theorem numberLiteralExpr (literal : Name) (radix : Nat) (lvalue : Bool) :
    Generates c n False True (codegenNumberLiteralExpr fuel loc type literal radix lvalue) Llvm.Value.Below := by
  refine (noLvalue _ _).still fun _ _ _ _ => ?_
  split
  · exact throw _
  · exact (llvmType _).still fun _ _ _ _ => pure _ fun _ _ => trivial
  · exact (llvmType _).still fun _ _ _ _ => pure _ fun _ _ => trivial
  · split
    · exact pure _ fun _ _ => trivial
    · split
      · exact pure _ fun _ _ => trivial
      · exact throw _
  · exact throw _

theorem identExpr (ident : Name) (lvalue : Bool) :
    Generates c n (∃ p, c.constant decls ident = some p ∧ Opens c decls p)
      (∀ p, c.constant decls ident = some p → ¬Nested c decls p)
      (codegenIdentExpr decls codegen loc ident lvalue) Llvm.Value.Below := by
  unfold codegenIdentExpr
  split
  case isTrue isTrue =>
    have none : c.constant decls ident = none := if_pos (.inl isTrue)
    split
    · exact throw _
    · exact (pure _ fun _ _ => trivial).congr (by simp [none]) (by simp [none])
  split
  case isTrue isFalse =>
    have none : c.constant decls ident = none := if_pos (.inr isFalse)
    split
    · exact throw _
    · exact (pure _ fun _ _ => trivial).congr (by simp [none]) (by simp [none])
  rename_i notTrue notFalse
  refine get.still fun s n₁ le₁ ⟨gains, sound, same⟩ => ?_
  split
  case h_2 => exact throw _
  case h_1 sym found =>
    -- A symbol with a value is that of the earlier context.
    have valued {ptr : Llvm.Value} (is : sym.value = some ptr) : c.constant decls ident = none ∧ ptr.Below n₁ := by
      have old := gains.findSymbol found is
      refine ⟨by simp [Context.constant, old, is], ?_⟩
      obtain ⟨symbols, member, there⟩ := List.exists_of_findSome?_eq_some found
      exact same ▸ sound.known symbols member sym (List.mem_of_find?_eq_some there) ptr is
    split
    · cases is : sym.value with
      | none => exact throw _
      | some ptr =>
        obtain ⟨none, there⟩ := valued is
        exact (present _ fun _ _ le => by rintro ⟨⟩; exact there.mono le).congr (by simp [none]) (by simp [none])
    · rename_i notFunc
      split
      case h_1 ptr is =>
        obtain ⟨none, there⟩ := valued is
        exact (loadUnless there).congr (by simp [none]) (by simp [none])
      case h_2 none =>
        split
        case h_2 => exact throw _
        case h_1 name type value is =>
          obtain ⟨decl, declared, _⟩ := Option.bind_eq_some_iff.mp is
          have const : c.constant decls ident = some value := by
            simp [Context.constant, notTrue, notFalse, gains.declared found declared, notFunc, none, is]
          exact ((noLvalue _ _).still fun _ _ _ _ => below value false _).congr (by simp [const]) (by simp [const])

theorem indexAccessExpr (target index : Expr) (lvalue : Bool) :
    Generates c n (Opens c decls target ∨ Opens c decls index ∨ ∃ element, c.Resolves target.type (.mk 0 (.sliceType element)))
      (¬Nested c decls target ∧ ¬Nested c decls index)
      (codegenIndexAccessExpr fuel codegen loc target index lvalue) Llvm.Value.Below := by
  refine (resolved target.type).still fun targetType n₁ le₁ found => ?_
  refine ((below target _ _).bind fun value n₂ le₂ there => (below index false _).bind fun i n₃ le₃ _ =>
    (guard fun _ => ?_ : Generates c n₃ (∃ element, c.Resolves target.type (.mk 0 (.sliceType element))) True _ _)).congr
      Iff.rfl (by simp)
  have resolves {u : AstType} (is : c.Resolves target.type u) : targetType = u := found.agree is
  split
  case isTrue pointer =>
    refine ((build (by simp)).still fun ptr _ _ there => loadUnless there).congr ?_ Iff.rfl
    refine iff_of_false id ?_
    rintro ⟨element, is⟩
    rw [resolves is] at pointer
    exact Nat.lt_irrefl 0 pointer
  case isFalse pointer =>
    split
    case h_1 element length is =>
      refine ((build (by simp)).still fun ptr _ _ there => loadUnless there).congr ?_ Iff.rfl
      refine iff_of_false id ?_
      rintro ⟨element, same⟩
      rw [resolves same] at is
      cases is
    case h_2 element is =>
      have opens : ∃ element, c.Resolves target.type (.mk 0 (.sliceType element)) := by
        obtain ⟨pointer', kind⟩ := targetType
        obtain rfl : pointer' = 0 := Nat.eq_zero_of_not_pos pointer
        obtain rfl : kind = .sliceType element := is
        exact ⟨element, found⟩
      refine ((build (by simp)).still fun cap _ _ _ => (build (by simp)).still fun i n₄ _ there =>
        (build (by simp)).still fun oob _ le₅ _ => (buildAssert oob).last fun _ _ _ _ =>
          (build (by simp)).still fun ptr _ _ _ => (build (by simp)).still fun address _ _ there =>
            loadUnless there).congr ?_ Iff.rfl
      exact iff_of_true trivial opens
    case h_3 => exact throw _

theorem bound (expr : Option Expr) :
    Generates c n (∃ p ∈ expr.toList, Opens c decls p) (∀ p ∈ expr.toList, ¬Nested c decls p)
      (codegenBound codegen expr) Llvm.Value.Below := by
  cases expr with
  | none => exact (pure _ fun _ _ => trivial).congr (by simp) (by simp)
  | some expr => exact (guard fun _ => below expr false _).congr (by simp) (by simp)

theorem edge (expr : Option Expr) (value : Llvm.Value) (n : Nat) (there : value.Below n) :
    Generates c n (∃ p ∈ expr.toList, Opens c decls p) (∀ p ∈ expr.toList, ¬Nested c decls p)
      (match expr with
        | some expr => codegen expr false
        | none => Pure.pure value) Llvm.Value.Below := by
  cases expr with
  | none => exact (pure _ fun _ le => there.mono le).congr (by simp) (by simp)
  | some expr => exact (below expr false _).congr (by simp) (by simp)

theorem sliceArray (target : Expr) (start stop : Option Expr) :
    Generates c n (Opens c decls target ∨ ∃ p ∈ start.toList ++ stop.toList, Opens c decls p)
      (¬Nested c decls target ∧ ∀ p ∈ start.toList ++ stop.toList, ¬Nested c decls p)
      (buildSliceArray fuel codegen type target start stop) Llvm.Value.Below := by
  unfold buildSliceArray
  split
  case h_2 => exact throw _
  case h_1 element is =>
    refine (llvmType _).still fun t _ _ _ => ?_
    refine ((below target true _).bind fun value _ _ _ => (build (by simp)).still fun arrayPtr n₁ _ there =>
      (edge below start (.constNull (.int 64)) _ trivial).bind fun indexStart n₂ _ _ =>
        (edge below stop _ _ (by trivial)).last fun indexEnd n₃ _ _ => ?_).congr
          (by simp [or_and_right, exists_or]) (by simp [or_imp, forall_and])
    refine (build (by simp)).still fun ptr _ _ _ => (build (by simp)).still fun len _ _ _ =>
      (build (by simp)).still fun cap _ _ _ => (llvmType _).still fun t _ _ _ => ?_
    exact (build (by simp)).still fun _ _ _ _ => (build (by simp)).still fun _ _ _ _ =>
      (build (by simp)).still fun _ _ _ _ => build (by simp)

omit below in
/-- The length of a slice is set in one of two branches. -/
theorem measured (condition slice newLen : Llvm.Value) (type : Ty) : Generates c n True True
    (do
      let trueBlock ← appendBlock
      let falseBlock ← appendBlock
      let exitBlock ← appendBlock
      emit (.condBr condition trueBlock falseBlock)
      emit (.position trueBlock)
      let sliceLen ← Low.build (.insertValue slice newLen 1)
      emit (.br exitBlock)
      emit (.position falseBlock)
      emit (.br exitBlock)
      emit (.position exitBlock)
      Low.build (.phi type [(sliceLen, trueBlock), (slice, falseBlock)])) Llvm.Value.Below := by
  intro s a s' sound gains known run
  obtain ⟨rfl, rfl⟩ : Llvm.Value.result (s.results + 1) type = a ∧ s.measured condition slice newLen type = s' :=
    Prod.mk.inj (Except.ok.inj run)
  exact ⟨Building.measured_codes sound condition slice newLen type, Nat.lt_succ_self _⟩

theorem sliceSlice (target : Expr) (start stop : Option Expr) (kind : IndexSliceKind) :
    Generates c n (Opens c decls target ∨ (kind ≠ .COPY ∧ ∃ p ∈ start.toList ++ stop.toList, Opens c decls p) ∨ kind ≠ .COPY)
      (¬Nested c decls target ∧ (kind ≠ .COPY → ∀ p ∈ start.toList ++ stop.toList, ¬Nested c decls p))
      (buildSliceSlice codegen target start stop kind) Llvm.Value.Below := by
  unfold buildSliceSlice
  by_cases copy : kind = .COPY
  · subst copy
    exact ((below target false _).last fun value _ _ _ => build (by simp)).congr (by simp) (by simp)
  simp only [if_neg copy]
  refine ((below target false _).bind fun value _ _ _ => (bound below start).bind fun indexStart _ _ _ =>
    (bound below stop).bind fun indexEnd n₁ _ _ => (?_ : Generates c n₁ True True _ _)).congr
      (by simp [copy]) (by simp [copy, or_imp, forall_and])
  refine (build (by simp)).still fun cap _ _ _ => (build (by simp)).still fun indexStart _ _ _ =>
    (build (by simp)).still fun indexEnd _ _ _ => (build (by simp)).still fun newCap _ _ _ =>
      (build (by simp)).still fun newLen _ _ _ => (build (by simp)).still fun arrptr _ _ _ =>
        (build (by simp)).still fun ptr _ _ _ => (build (by simp)).still fun baseptr _ _ _ => ?_
  exact (build (by simp)).still fun slice _ _ _ => (build (by simp)).still fun slice _ _ _ =>
    (build (by simp)).still fun slice _ _ _ => (build (by simp)).still fun condition _ _ _ =>
      measured condition slice newLen value.type

theorem indexSliceExpr (target : Expr) (start stop : Option Expr) (kind : IndexSliceKind) :
    Generates c n
      (Opens c decls target ∨
        (∃ p ∈ start.toList ++ stop.toList, ¬(SlicesSlice c target ∧ kind = .COPY) ∧ Opens c decls p) ∨
        SlicesSlice c target ∧ kind ≠ .COPY)
      (¬Nested c decls target ∧
        ∀ p ∈ start.toList ++ stop.toList, ¬(SlicesSlice c target ∧ kind = .COPY) → ¬Nested c decls p)
      (codegenIndexSliceExpr fuel codegen type target start stop kind) Llvm.Value.Below := by
  refine (resolved target.type).still fun u n₁ _ found => ?_
  obtain ⟨pointer, kind'⟩ := u
  split
  case h_1 element is =>
    obtain rfl : kind' = .sliceType element := is
    have slices : SlicesSlice c target := ⟨pointer, element, found⟩
    refine (sliceSlice below target start stop kind).congr ?_ ?_
    · by_cases copy : kind = .COPY <;> simp [slices, copy]
    · by_cases copy : kind = .COPY <;> simp [slices, copy]
  case h_2 element length is =>
    obtain rfl : kind' = .arrayType element length := is
    have other : ¬SlicesSlice c target := fun ⟨_, _, same⟩ => by cases found.agree same
    exact (sliceArray below target start stop).congr (by simp [other]) (by simp [other])
  case h_3 => exact throw _

theorem args (place : Option Nat) (placed : Option (Nat × Llvm.Value)) (args : List Expr)
    (isPlace : placed.map Prod.fst = place) (known : ∀ i v, placed = some (i, v) → v.Below n) :
    Generates c n (∃ x ∈ args.zipIdx, place ≠ some x.2 ∧ Opens c decls x.1)
      (∀ x ∈ args.zipIdx, place ≠ some x.2 → ¬Nested c decls x.1) (codegenArgs codegen placed args)
      fun n vs => ∀ v ∈ vs, v.Below n := by
  subst isPlace
  refine mapM (fun (arg, i) n' le => ?_) (fun there le => there.mono le) args.zipIdx
  cases placed with
  | none => exact (below arg false n').congr (by simp) (by simp)
  | some entry =>
    obtain ⟨place, value⟩ := entry
    dsimp only
    split
    case isTrue here =>
      subst here
      exact (pure value fun _ le' => (known i value rfl).mono (Nat.le_trans le le')).congr (by simp) (by simp)
    case isFalse other => exact (below arg false n').congr (by simp [Ne.symm other]) (by simp [Ne.symm other])

omit below in
theorem exists_zipIdx {P : Expr → Prop} (args : List Expr) :
    (∃ x ∈ args.zipIdx, none ≠ some x.2 ∧ P x.1) ↔ ∃ p ∈ args, P p := by
  constructor
  · rintro ⟨⟨p, i⟩, member, _, holds⟩
    exact ⟨p, List.mem_of_getElem? (List.mem_zipIdx_iff_getElem?.mp member), holds⟩
  · rintro ⟨p, member, holds⟩
    obtain ⟨i, found⟩ := List.mem_iff_getElem?.mp member
    exact ⟨(p, i), List.mem_zipIdx_iff_getElem?.mpr found, nofun, holds⟩

/-- The argument at the place of the object is generated before the others. -/
theorem memberCall (sym : CodegenSymbol) (interface : AstType) (types : List AstType) (args : List Expr) :
    Generates c n (∃ p ∈ args, Opens c decls p) (∀ p ∈ args, ¬Nested c decls p)
      (codegenMemberCall fuel codegen loc sym interface types args) Llvm.Value.Below := by
  refine guard fun _ => ?_
  split
  case h_2 => exact throw _
  case h_1 place _ =>
    refine (present args[place]? fun _ _ _ is => is : Generates c n _ _ _ fun _ ph => args[place]? = some ph).still
      fun ph _ _ is => (resolved ph.type).still fun phType _ _ _ => guard fun _ => guard fun _ => ?_
    have all {P : Expr → Prop} : (P ph ∨ ∃ x ∈ args.zipIdx, some place ≠ some x.2 ∧ P x.1) ↔ ∃ p ∈ args, P p := by
      constructor
      · rintro (here | ⟨⟨p, i⟩, member, _, holds⟩)
        · exact ⟨ph, List.mem_of_getElem? is, here⟩
        · exact ⟨p, List.mem_of_getElem? (List.mem_zipIdx_iff_getElem?.mp member), holds⟩
      · rintro ⟨p, member, holds⟩
        obtain ⟨i, found⟩ := List.mem_iff_getElem?.mp member
        by_cases here : place = i
        · subst here
          cases is.symm.trans found
          exact .inl holds
        · exact .inr ⟨(p, i), List.mem_zipIdx_iff_getElem?.mpr found, fun same => here (Option.some.inj same), holds⟩
    refine ((below ph false _).bind fun target _ _ _ => (build (by simp)).still fun tablePtr _ _ _ =>
      (build (by simp)).still fun objectPtr n₁ _ there => (build (by simp)).still fun table n₂ le₂ _ =>
        (build (by simp)).still fun memberFunc n₃ le₃ _ =>
          (Generates.args below (some place) (some (place, objectPtr)) args rfl (by
            rintro i v ⟨⟩
            exact there.mono (Nat.le_trans le₂ le₃))).last fun values _ _ _ => build (by simp)).congr all ?_
    have none := not_congr (all (P := Nested c decls))
    simpa only [not_or, not_exists, not_and] using none

theorem callExpr (target : Expr) (args : List Expr) (lvalue : Bool) :
    Generates c n (∃ p ∈ args, Opens c decls p) (∀ p ∈ args, ¬Nested c decls p)
      (codegenCallExpr fuel codegen loc target args lvalue) Llvm.Value.Below := by
  unfold codegenCallExpr
  split
  case h_2 => exact throw _
  case h_1 ident is =>
    refine get.still fun s _ _ _ => ?_
    split
    case h_2 => exact throw _
    case h_1 sym found =>
      split
      · refine (present _ fun _ _ _ _ => trivial : Generates c _ _ _ _ fun _ _ => True).still fun interface _ _ _ => ?_
        split
        case h_2 => exact throw _
        case h_1 members _ =>
          refine (present _ fun _ _ _ _ => trivial : Generates c _ _ _ _ fun _ _ => True).still fun member _ _ _ => ?_
          split
          case h_2 => exact throw _
          case h_1 =>
            exact (memberCall below sym interface _ args).last fun result _ _ there => spillUnless there
      · refine (present _ fun _ _ _ _ => trivial : Generates c _ _ _ _ fun _ _ => True).still fun symType _ _ _ => ?_
        refine guard fun _ => ?_
        refine (present _ fun _ _ _ _ => trivial : Generates c _ _ _ _ fun _ _ => True).still fun funcptr _ _ _ => ?_
        have callee (n : Nat) : Generates c n False True (if sym.kind = .FUNC then Pure.pure funcptr else Low.build (.load funcptr))
            fun _ _ => True := by
          split
          · exact pure _ fun _ _ => trivial
          · exact (build (by simp)).imp fun _ _ _ => trivial
        refine ((callee _).still fun funcptr _ _ _ => (Generates.args below none none args rfl nofun).last fun values _ _ _ =>
          (build (by simp)).still fun result _ _ there => spillUnless there).congr (exists_zipIdx args) ?_
        have none := not_congr (exists_zipIdx (P := Nested c decls) args)
        simpa only [not_exists, not_and] using none

theorem memberAccessExpr (target : Expr) (name : Name) (lvalue : Bool) :
    Generates c n (Opens c decls target) (¬Nested c decls target)
      (codegenMemberAccessExpr fuel codegen loc target name lvalue) Llvm.Value.Below := by
  have stderef (st : AstType) (n : Nat) :
      Generates c n False True (if 0 < st.pointer then Low.resolved fuel st.down else Pure.pure st) fun _ _ => True := by
    split
    · exact (resolved st.down).imp fun _ _ _ => trivial
    · exact pure st fun _ _ => trivial
  refine (resolved target.type).still fun st _ _ _ => (stderef st _).still fun stderef _ _ _ => ?_
  split
  case h_1 members _ =>
    split
    case h_2 => exact throw _
    case h_1 =>
      refine (below target false _).last fun value _ _ _ => (build (by simp)).still fun tablePtr _ _ _ =>
        (build (by simp)).still fun objectPtr _ _ _ => (build (by simp)).still fun table _ _ _ => ?_
      exact (build (by simp)).still fun offset _ _ _ => (build (by simp)).still fun offsetInt _ _ _ =>
        (build (by simp)).still fun bytes _ _ _ => (build (by simp)).still fun address _ _ there => loadUnless there
  case h_2 =>
    refine guard fun _ => (below target _ _).last fun value _ _ _ => ?_
    split
    case h_2 => exact throw _
    case h_1 =>
      split
      case h_2 => exact throw _
      case h_1 => exact (build (by simp)).still fun address _ _ there => loadUnless there

theorem incdecExpr (target : Expr) (order : IncdecOrder) (direction : IncdecDirection) (lvalue : Bool) :
    Generates c n (Opens c decls target) (¬Nested c decls target)
      (codegenIncdecExpr fuel codegen loc type target order direction lvalue) Llvm.Value.Below := by
  refine guard fun _ => (below target true _).last fun ptr _ _ _ => guard fun _ => ?_
  refine (build (by simp)).still fun value n₁ le₁ there => (llvmType _).still fun t n₂ le₂ _ =>
    (build (by simp)).still fun newValue n₃ le₃ there' => (build (by simp)).still fun _ n₄ le₄ _ => pure _ fun n₅ le₅ => ?_
  cases order with
  | PRE => exact there'.mono (by omega)
  | POST => exact there.mono (by omega)

theorem unaryExpr (target : Expr) (op : UnaryOp) (lvalue : Bool) :
    Generates c n (Opens c decls target) (¬Nested c decls target)
      (codegenUnaryExpr codegen loc target op lvalue) Llvm.Value.Below := by
  unfold codegenUnaryExpr
  cases op with
  | ADDRESS => exact below target true _
  | DEREF => exact (below target false _).last fun value _ _ there => loadUnless there
  | POSITIVE => exact below target false _
  | NEGATIVE =>
    refine (below target false _).last fun value _ _ _ => ?_
    split
    · exact build (by simp)
    · exact build (by simp)
    · exact throw _
  | BITWISE_NOT =>
    dsimp only
    split
    · exact (below target false _).last fun value _ _ _ => build (by simp)
    · exact throw _
  | NOT =>
    dsimp only
    split
    · exact (below target false _).last fun value _ _ _ => build (by simp)
    · exact throw _

theorem exprSizeof (expr : Expr) (lvalue : Bool) :
    Generates c n (Opens c decls expr) (¬Nested c decls expr) (codegenExprSizeof fuel codegen loc type expr lvalue)
      Llvm.Value.Below := by
  refine (noLvalue _ _).still fun _ _ _ _ => guard fun _ => ?_
  have size (n : Nat) : Generates c n (Opens c decls expr) (¬Nested c decls expr)
      (do return (← codegen expr false).type) fun _ _ => True :=
    (below expr false n).last fun _ _ _ _ => pure _ fun _ _ => trivial
  exact (size _).last fun t _ _ _ => (llvmType _).still fun _ _ _ _ => build (by simp)

omit below in
theorem typeSizeof (size : AstType) (lvalue : Bool) :
    Generates c n False True (codegenTypeSizeof fuel loc type size lvalue) Llvm.Value.Below :=
  (noLvalue _ _).still fun _ _ _ _ => guard fun _ => (llvmType _).still fun _ _ _ _ => (llvmType _).still fun _ _ _ _ =>
    build (by simp)

theorem assignmentExpr (target expr : Expr) (op : AssignmentOp) :
    Generates c n (Opens c decls target ∨ Opens c decls expr) (¬Nested c decls target ∧ ¬Nested c decls expr)
      (codegenAssignmentExpr codegen target expr op) Llvm.Value.Below := by
  refine (below target true _).bind fun ptr _ _ _ => (below expr false _).last fun value n₁ _ there => ?_
  have stored (combined : Llvm.Value) {n : Nat} (le : n₁ ≤ n) : Generates c n False True
      (do
        let _ ← Low.build (.store combined ptr)
        return value) Llvm.Value.Below :=
    (build (by simp)).still fun _ _ le' _ => pure value fun _ le'' => there.mono (by omega)
  have operation (instr : Llvm.IntOp) : Generates c n₁ False True
      (do
        let old ← Low.build (.load ptr)
        Low.build (.int instr old value)) Llvm.Value.Below :=
    (build (by simp)).still fun old _ _ _ => build (by simp)
  have unknown (e : CodegenError) : Generates c n₁ False True
      (do
        let _ ← Low.build (.load ptr)
        (MonadExcept.throw e : Codegen Llvm.Value)) Llvm.Value.Below :=
    (build (by simp)).still fun _ _ _ _ => throw e
  cases op with
  | ASSIGN => exact (pure value fun _ le => there.mono le).still fun combined _ le _ => stored combined le
  | ADD_ASSIGN => exact (operation .add).still fun combined _ le _ => stored combined le
  | SUB_ASSIGN => exact (operation .sub).still fun combined _ le _ => stored combined le
  | MUL_ASSIGN => exact (operation .mul).still fun combined _ le _ => stored combined le
  | DIV_ASSIGN => exact (operation .udiv).still fun combined _ le _ => stored combined le
  | _ => exact (unknown _).still fun combined _ le _ => stored combined le

theorem commaExpr (exprs : List Expr) (lvalue : Bool) :
    Generates c n (∃ p ∈ exprs, Opens c decls p) (∀ p ∈ exprs, ¬Nested c decls p)
      (codegenCommaExpr codegen exprs lvalue) Llvm.Value.Below := by
  refine (noLvalue _ _).still fun _ _ _ _ => ?_
  refine (mapM (fun expr n' _ => below expr false n') (fun there le => there.mono le) exprs).last fun values _ _ there => ?_
  exact present _ fun n' v le is => (there v (List.mem_of_getLast? is)).mono le

theorem newBuiltinExpr (newType : AstType) (expr : Option Expr) :
    Generates c n ((∃ p ∈ expr.toList, Opens c decls p) ∨ expr ≠ none) (∀ p ∈ expr.toList, ¬Nested c decls p)
      (codegenNewBuiltinExpr fuel codegen newType expr) Llvm.Value.Below := by
  refine (llvmType _).still fun t _ _ _ => ?_
  cases expr with
  | none =>
    refine ((build (by simp)).still fun ptr _ _ there => (build (by simp)).still fun _ _ le _ =>
      pure ptr fun _ le' => there.mono (Nat.le_trans le le')).congr (by simp) (by simp)
  | some expr => exact ((below expr false _).bind fun size _ _ _ => arrayNew t size).congr (by simp) (by simp)

theorem freeBuiltinExpr (expr : Expr) :
    Generates c n (Opens c decls expr) (¬Nested c decls expr) (codegenFreeBuiltinExpr codegen expr) Llvm.Value.Below :=
  (below expr false _).last fun _ _ _ _ => build (by simp)

theorem makeBuiltinExpr (makeType : AstType) (expr : Expr) :
    Generates c n True (¬Nested c decls expr) (codegenMakeBuiltinExpr fuel codegen loc makeType expr) Llvm.Value.Below := by
  refine (resolved makeType).still fun t _ _ _ => ?_
  split
  case h_2 => exact throw _
  case h_1 element is =>
    refine ((below expr false _).bind fun cap _ _ _ => (build (by simp)).still fun cap _ _ _ =>
      (llvmType _).still fun elementType _ _ _ => (arrayNew elementType cap).last fun arrptr _ _ _ => ?_).congr
        (by simp) (by simp)
    refine (build (by simp)).still fun arrptr _ _ _ => (llvmType _).still fun makeType _ _ _ => ?_
    exact (build (by simp)).still fun _ _ _ _ => (build (by simp)).still fun _ _ _ _ => build (by simp)

theorem lencapBuiltinExpr (expr : Expr) (kind : LencapKind) :
    Generates c n (Opens c decls expr) (¬Nested c decls expr) (codegenLencapBuiltinExpr codegen expr kind)
      Llvm.Value.Below :=
  (below expr false _).last fun _ _ _ _ => build (by simp)

theorem disposeBuiltinExpr (expr : Expr) :
    Generates c n (Opens c decls expr) (¬Nested c decls expr) (codegenDisposeBuiltinExpr codegen expr) Llvm.Value.Below :=
  (below expr true _).last fun _ _ _ _ => (build (by simp)).still fun _ _ _ _ => (build (by simp)).still fun _ _ _ _ =>
    (build (by simp)).still fun _ _ _ _ => build (by simp)

theorem conditionalExpr (condition trueExpr falseExpr : Expr) (lvalue : Bool) :
    Generates c n True
      (¬Nested c decls condition ∧ (¬Nested c decls trueExpr ∧ ¬Nested c decls falseExpr) ∧
        ¬Opens c decls trueExpr ∧ ¬Opens c decls falseExpr)
      (codegenConditionalExpr fuel codegen condition trueExpr falseExpr lvalue) Llvm.Value.Below := by
  intro s v s' sound gains known run
  obtain ⟨cond, s₁, trueValue, s₂, falseValue, s₃, t, s₄, condRun, trueRun, falseRun, translated, rfl, rfl⟩ :=
    codegenConditionalExpr_ok run
  obtain ⟨first, _⟩ := below condition false _ _ _ _ sound gains (Nat.le_refl _) condRun
  have gains₁ := gains.trans first.context
  have starts := Building.diamond_starts first.sound cond
  obtain ⟨true, _⟩ := below trueExpr false _ _ _ _ starts.sound gains₁ (Nat.le_refl _) trueRun
  have blocks : s₁.blocks + 3 ≤ s₂.blocks := true.blocks
  have between := (starts.trans true.toRegion).enter (s₁.blocks + 2) (s₁.blocks + 1) (by omega) (by omega) (by omega)
    (by omega)
  obtain ⟨false, _⟩ := below falseExpr false _ _ _ _ between.sound (gains₁.trans between.context) (Nat.le_refl _) falseRun
  have blocks' : s₂.blocks ≤ s₃.blocks := false.blocks
  have after := (between.trans false.toRegion).enter (s₁.blocks + 2) (s₁.blocks + 2) (by omega) (by omega) (by omega)
    (by omega)
  obtain ⟨meets, _⟩ := llvmType trueExpr.type _ _ _ after.sound (gains₁.trans after.context) (Nat.le_refl _) translated
  exact ⟨(first.trans (Building.diamond first.sound true false meets)).congr (by simp) Iff.rfl, Nat.lt_succ_self _⟩

omit below in
theorem slot (castType refd : AstType) (structMembers : List (StructMember AstType)) (target : Llvm.Value)
    (member : InterfaceMember AstType) :
    Generates c n False True (codegenSlot fuel decls loc castType refd structMembers target member) Llvm.Value.Below := by
  cases member with
  | function name returnType args =>
    refine get.still fun s _ _ _ => ?_
    split
    case h_2 => exact throw _
    case h_1 =>
      refine get.still fun s _ _ _ => ?_
      split
      case h_2 => exact throw _
      case h_1 sym _ =>
        refine (mapM_still (fun arg n' => ?_) args).still fun argTypes _ _ _ => (llvmType returnType).still fun t _ _ _ => ?_
        · split
          · exact pure _ fun _ _ => trivial
          · exact llvmType arg
        · exact (present _ fun _ _ _ _ => trivial : Generates c _ _ _ _ fun _ _ => True).still fun value _ _ _ =>
            build (by simp)
  | field name fieldType =>
    simp only [codegenSlot]
    split
    case h_2 => exact throw _
    case h_1 => exact guard fun _ => build (by simp)

omit below in
theorem interfaceCast (castType fromType : AstType) (members : List (InterfaceMember AstType)) (target : Llvm.Value)
    (dst : Ty) : Generates c n False True (codegenInterfaceCast fuel decls loc castType fromType members target dst)
      Llvm.Value.Below := by
  refine guard fun _ => guard fun _ => (resolved fromType.down).still fun u _ _ _ => ?_
  split
  case h_2 => exact throw _
  case h_1 structMembers _ =>
    refine (mapM_still (fun member n' => (slot _ _ _ _ member).imp fun _ _ _ => trivial) members).still
      fun slots _ _ _ => (addTable _).still fun table _ _ _ => ?_
    exact (build (by simp)).still fun _ _ _ _ => (build (by simp)).still fun _ _ _ _ => build (by simp)

theorem castExpr (target : Expr) (castType : AstType) (lvalue : Bool) :
    Generates c n (Opens c decls target) (¬Nested c decls target)
      (codegenCastExpr fuel decls codegen loc target castType lvalue) Llvm.Value.Below := by
  refine (noLvalue _ _).still fun _ _ _ _ => (below target false _).last fun value n₁ _ there =>
    (llvmType castType).still fun dst n₂ le₂ _ => (resolved target.type).still fun fromType n₃ le₃ _ =>
      (resolved castType).still fun toType n₄ le₄ _ => ?_
  split
  · exact pure value fun _ le => there.mono (by omega)
  split
  · exact interfaceCast _ _ _ _ _
  · repeat' split
    all_goals first
      | exact build (by simp)
      | exact throw _

end Expressions

theorem plain {c : Context} {decls : List Decl} {n : Nat} {loc : Loc} {type : AstType} {kind : ExprKind Expr}
    {opens flat : Prop} {m : Codegen Llvm.Value} {Q : Nat → Llvm.Value → Prop} (isPlain : kind.isPlain = true)
    (generates : Generates c n opens flat m Q)
    (same : opens ↔ kind.OpensHere c ∨ ∃ p ∈ kind.operands, Opens c decls p)
    (same' : flat ↔ ¬kind.NestedHere c decls ∧ ∀ p ∈ kind.operands, ¬Nested c decls p) :
    Generates c n (Opens c decls (.mk loc type kind)) (¬Nested c decls (.mk loc type kind)) m Q :=
  generates.congr (same.trans (opens_plain isPlain).symm) (same'.trans (nested_plain isPlain).symm)

/-- The code for an expression opens blocks and has exact phis as its syntax says, and the value is
there. -/
theorem expr (c : Context) (decls : List Decl) (fuel n : Nat) (e : Expr) (lvalue : Bool) :
    Generates c n (Opens c decls e) (¬Nested c decls e) (codegenExpr decls fuel e lvalue) Llvm.Value.Below := by
  induction fuel generalizing n e lvalue with
  | zero => exact throw _
  | succ fuel ih =>
    have below (expr : Expr) (lvalue : Bool) (n : Nat) :
        Generates c n (Opens c decls expr) (¬Nested c decls expr) (codegenExpr decls fuel expr lvalue) Llvm.Value.Below :=
      ih n expr lvalue
    obtain ⟨loc, type, kind⟩ := e
    cases kind with
    | identExpr ident =>
      refine (identExpr below ident lvalue).congr ?_ ?_
      · simp [opens_iff, part_ident, ExprKind.OpensHere]
      · simp [nested_iff, part_ident, ExprKind.NestedHere]
    | indexSliceExpr target start stop kind =>
      refine (indexSliceExpr below target start stop kind).congr ?_ ?_
      · simp only [opens_iff, part_slice, ExprKind.OpensHere, or_and_right, exists_or, exists_eq_left, and_assoc]
        exact or_assoc.symm.trans or_comm
      · simp only [nested_iff, part_slice, ExprKind.NestedHere, or_and_right, exists_or, exists_eq_left, and_assoc, not_or,
          not_false_eq_true, true_and, not_exists, not_and]
    | stringLiteralExpr literal =>
      exact plain rfl (stringLiteralExpr literal lvalue) (by simp [ExprKind.operands, ExprKind.OpensHere])
        (by simp [ExprKind.operands, ExprKind.NestedHere])
    | numberLiteralExpr literal radix =>
      exact plain rfl (numberLiteralExpr literal radix lvalue) (by simp [ExprKind.operands, ExprKind.OpensHere])
        (by simp [ExprKind.operands, ExprKind.NestedHere])
    | indexAccessExpr target index =>
      exact plain rfl (indexAccessExpr below target index lvalue)
        (by simpa [ExprKind.operands, ExprKind.OpensHere] using or_assoc.symm.trans or_comm)
        (by simp [ExprKind.operands, ExprKind.NestedHere])
    | callExpr target args =>
      exact plain rfl (callExpr below target args lvalue) (by simp [ExprKind.operands, ExprKind.OpensHere])
        (by simp [ExprKind.operands, ExprKind.NestedHere])
    | memberAccessExpr target name =>
      exact plain rfl (memberAccessExpr below target name lvalue) (by simp [ExprKind.operands, ExprKind.OpensHere])
        (by simp [ExprKind.operands, ExprKind.NestedHere])
    | incdecExpr target order direction =>
      exact plain rfl (incdecExpr below target order direction lvalue) (by simp [ExprKind.operands, ExprKind.OpensHere])
        (by simp [ExprKind.operands, ExprKind.NestedHere])
    | unaryExpr target op =>
      exact plain rfl (unaryExpr below target op lvalue) (by simp [ExprKind.operands, ExprKind.OpensHere])
        (by simp [ExprKind.operands, ExprKind.NestedHere])
    | exprSizeof expr =>
      exact plain rfl (exprSizeof below expr lvalue) (by simp [ExprKind.operands, ExprKind.OpensHere])
        (by simp [ExprKind.operands, ExprKind.NestedHere])
    | typeSizeof size =>
      exact plain rfl (typeSizeof size lvalue) (by simp [ExprKind.operands, ExprKind.OpensHere])
        (by simp [ExprKind.operands, ExprKind.NestedHere])
    | castExpr target castType =>
      exact plain rfl (castExpr below target castType lvalue) (by simp [ExprKind.operands, ExprKind.OpensHere])
        (by simp [ExprKind.operands, ExprKind.NestedHere])
    | binaryExpr lhs rhs op =>
      exact plain rfl (binaryExpr below lhs rhs op lvalue) (by simp [ExprKind.operands, ExprKind.OpensHere])
        (by simp [ExprKind.operands, ExprKind.NestedHere])
    | conditionalExpr condition trueExpr falseExpr =>
      exact plain rfl (conditionalExpr below condition trueExpr falseExpr lvalue) (by simp [ExprKind.operands, ExprKind.OpensHere])
        (by simpa [ExprKind.operands, ExprKind.NestedHere] using by tauto)
    | assignmentExpr target expr op =>
      exact plain rfl (assignmentExpr below target expr op) (by simp [ExprKind.operands, ExprKind.OpensHere])
        (by simp [ExprKind.operands, ExprKind.NestedHere])
    | commaExpr exprs =>
      exact plain rfl (commaExpr below exprs lvalue) (by simp [ExprKind.operands, ExprKind.OpensHere])
        (by simp [ExprKind.operands, ExprKind.NestedHere])
    | newBuiltin newType expr =>
      exact plain rfl (newBuiltinExpr below newType expr) (by cases expr <;> simp [ExprKind.operands, ExprKind.OpensHere])
        (by simp [ExprKind.operands, ExprKind.NestedHere])
    | freeBuiltin expr =>
      exact plain rfl (freeBuiltinExpr below expr) (by simp [ExprKind.operands, ExprKind.OpensHere])
        (by simp [ExprKind.operands, ExprKind.NestedHere])
    | makeBuiltin makeType expr =>
      exact plain rfl (makeBuiltinExpr below makeType expr) (by simp [ExprKind.operands, ExprKind.OpensHere])
        (by simp [ExprKind.operands, ExprKind.NestedHere])
    | lencapBuiltin expr kind =>
      exact plain rfl (lencapBuiltinExpr below expr kind) (by simp [ExprKind.operands, ExprKind.OpensHere])
        (by simp [ExprKind.operands, ExprKind.NestedHere])
    | disposeBuiltin expr =>
      exact plain rfl (disposeBuiltinExpr below expr) (by simp [ExprKind.operands, ExprKind.OpensHere])
        (by simp [ExprKind.operands, ExprKind.NestedHere])

end Generates

end Low
