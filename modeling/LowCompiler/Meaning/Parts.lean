import LowCompiler.Codegen.Openings
import LowCompiler.Meaning.Branches

/-!
# Names, literals and places

The rules for the parts of expressions: types, names, literals, and what lies in memory.
-/

namespace Low

open Stateful
open Llvm (Op Ty Platform Activation Datum)

section Layout
variable {c c' : Context} {fuel fuel' : Nat} {type : AstType} {t t' : Ty}

theorem mapM_layout {α : Type} {f : α → Option Ty} {g : α → Translate Ty} {xs : List α} {ts ts' : List Ty}
    (each : ∀ x t t' c', f x = some t → g x c = .ok (t', c') → t' = t ∧ c' = c) (is : xs.mapM f = some ts)
    (run : xs.mapM g c = .ok (ts', c')) : ts' = ts ∧ c' = c := by
  induction xs generalizing ts ts' c' with
  | nil =>
    cases is
    cases run
    exact ⟨rfl, rfl⟩
  | cons x xs ih =>
    rw [List.mapM_cons] at is run
    obtain ⟨t, first, others⟩ := Option.bind_eq_some_iff.mp is
    obtain ⟨ts, rest, same⟩ := Option.bind_eq_some_iff.mp others
    obtain ⟨t', c₁, first', others'⟩ := bind_ok.mp run
    obtain ⟨ts', c₂, rest', same'⟩ := bind_ok.mp others'
    cases same
    cases same'
    obtain ⟨rfl, rfl⟩ := each x t t' c₁ first first'
    obtain ⟨rfl, rfl⟩ := ih rest rest'
    exact ⟨rfl, rfl⟩

/-- A type that is laid out is translated so, and nothing is added to the scope. -/
theorem Context.layout_translated (is : c.layout fuel type = some t) (run : codegenType fuel' type c = .ok (t', c')) :
    t' = t ∧ c' = c := by
  induction fuel generalizing fuel' type t t' c' with
  | zero => cases is
  | succ fuel ih =>
    cases fuel' with
    | zero => cases run
    | succ fuel' =>
      obtain ⟨pointer, kind⟩ := type
      obtain ⟨l, inner, rfl⟩ := codegenType_ok run
      obtain ⟨u, outer, rfl⟩ := Option.map_eq_some_iff.mp is
      suffices same : l = u ∧ c' = c by rw [same.1, same.2]; exact ⟨rfl, rfl⟩
      have each (type : AstType) (t t' : Ty) (c' : Context) (is : c.layout fuel type = some t)
          (run : codegenType fuel' type c = .ok (t', c')) : t' = t ∧ c' = c := ih is run
      cases kind with
      | noType | placeholderType => cases inner
      | interfaceType => cases outer
      | voidType | booleanType | integerType =>
        cases outer
        cases inner
        exact ⟨rfl, rfl⟩
      | floatType width =>
        have laid : floatLayout width = some u := outer
        unfold floatLayout at laid
        split at laid <;> cases laid <;> cases inner <;> exact ⟨rfl, rfl⟩
      | funcType returnType args =>
        obtain ⟨ts, first, last⟩ := Option.bind_eq_some_iff.mp outer
        obtain ⟨t, result, same⟩ := Option.bind_eq_some_iff.mp last
        obtain ⟨ts', c₁, first', last'⟩ := bind_ok.mp inner
        obtain ⟨t', c₂, result', same'⟩ := bind_ok.mp last'
        cases same
        cases same'
        obtain ⟨rfl, rfl⟩ := mapM_layout each first first'
        obtain ⟨rfl, rfl⟩ := ih result result'
        exact ⟨rfl, rfl⟩
      | namedType name =>
        obtain ⟨type, found, laid⟩ := Option.bind_eq_some_iff.mp outer
        obtain ⟨type', found', same⟩ | ⟨missing, _⟩ := codegenTypeNamed_eq (codegenType fuel') name c
        · cases found.symm.trans found'
          exact ih laid (same.symm.trans inner)
        · cases found.symm.trans missing
      | structType members =>
        obtain ⟨ts, first, rfl⟩ := Option.map_eq_some_iff.mp outer
        obtain ⟨ts', c₁, first', same⟩ := bind_ok.mp inner
        cases same
        obtain ⟨rfl, rfl⟩ := mapM_layout (fun m t t' c' => each m.type t t' c') first first'
        exact ⟨rfl, rfl⟩
      | sliceType element =>
        obtain ⟨t, laid, rfl⟩ := Option.map_eq_some_iff.mp outer
        obtain ⟨t', c₁, laid', same⟩ := bind_ok.mp inner
        cases same
        obtain ⟨rfl, rfl⟩ := ih laid laid'
        exact ⟨rfl, rfl⟩
      | arrayType element length =>
        obtain ⟨t, laid, rfl⟩ := Option.map_eq_some_iff.mp outer
        obtain ⟨t', c₁, laid', same⟩ := bind_ok.mp inner
        cases same
        obtain ⟨rfl, rfl⟩ := ih laid laid'
        exact ⟨rfl, rfl⟩

end Layout

/-! ### Names -/

section Names
variable {M : Type} (setting : Setting M) (decls : List Decl) (n : Nat) (r : Nat → Option Datum)

/-- What the code generator finds for a name is what the name stands for. -/
inductive Named (name : Name) : Denotation → Prop where
  | place {sym : CodegenSymbol} {ptr : Llvm.Value} {place : Lvalue} (found : setting.context.findSymbol name = some sym)
    (kind : sym.kind = .INVALID) (valued : sym.value = some ptr) (stands : Stands setting.platform n r ptr place.address) :
    Named name (.place place)
  | function {sym : CodegenSymbol} {value : Llvm.Value} {v : Rvalue} (found : setting.context.findSymbol name = some sym)
    (kind : sym.kind = .FUNC) (valued : sym.value = some value) (other : value ≠ .trap)
    (stands : Stands setting.platform n r value v) : Named name (.function v)
  | constant {value : Expr} (is : setting.context.constant decls name = some value) : Named name (.constant value)

def Setting.Knows : Prop := ∀ name d, setting.names name = some d → Named setting decls n r name d

variable {setting decls n r}

theorem Setting.Knows.kept (knows : setting.Knows decls n r) {n' : Nat} {r' : Nat → Option Datum} (le : n ≤ n') (kept : Kept n r r') :
    setting.Knows decls n' r' := by
  intro name d denotes
  cases knows name d denotes with
  | place found kind valued stands => exact .place found kind valued (stands.kept kept le)
  | function found kind valued other stands => exact .function found kind valued other (stands.kept kept le)
  | constant is => exact .constant is

end Names

/-- The symbol of a constant has no value, and its declaration is in the list. -/
theorem constant_symbol {c : Context} {decls : List Decl} {ident : Name} {sym : CodegenSymbol} {value : Expr}
    (notTrue : ident ≠ trueName) (notFalse : ident ≠ falseName) (found : c.findSymbol ident = some sym)
    (is : c.constant decls ident = some value) : sym.kind ≠ .FUNC ∧ sym.value = none ∧
      ∃ loc name type, sym.decl.bind (decls[·]?) = some ⟨loc, .constDecl name type value⟩ := by
  unfold Context.constant at is
  rw [if_neg (by simp [notTrue, notFalse]), found, Option.bind_some] at is
  split at is
  case isTrue => cases is
  case isFalse plain =>
    obtain ⟨kind, valueless⟩ := not_or.mp plain
    refine ⟨kind, by simpa using valueless, ?_⟩
    split at is
    case h_1 declared =>
      cases is
      exact ⟨_, _, _, declared⟩
    case h_2 => cases is

/-! ### Expressions that are compiled -/

/-- The address of a place, or what is in it. -/
def access {M : Type} (setting : Setting M) (lvalue : Bool) (place : Lvalue) : Evaluation M Rvalue :=
  if lvalue then pure place.address else readAt setting place

section Means
variable {M : Type} (setting : Setting M) (decls : List Decl) (codegen : Expr → Bool → Codegen Llvm.Value)
  (locate : Expr → Evaluation M Lvalue) (evaluate : Expr → Evaluation M Rvalue) (perform : Expr → Evaluation M Unit)

/-- The code of the expression does what the expression means. -/
structure Means (e : Expr) : Prop where
  place : ∀ n r, setting.Knows decls n r → Simulates setting.platform setting.context n r (codegen e true) (locate e)
    fun n r value place => Stands setting.platform n r value place.address
  value : ∀ n r, setting.Knows decls n r →
    Simulates setting.platform setting.context n r (codegen e false) (evaluate e) (Stands setting.platform)
  effect : ∀ n r, setting.Knows decls n r →
    Simulates setting.platform setting.context n r (codegen e false) (perform e) fun _ _ _ _ => True

end Means

namespace Simulates
variable {M γ δ : Type} {setting : Setting M} {n fuel : Nat} {r : Nat → Option Datum} {k : Llvm.Value → Codegen γ}
  {g : Evaluation M δ} {R : Nat → (Nat → Option Datum) → γ → δ → Prop}

theorem llvmType {type : AstType} {t : Ty} {l : Ty → Codegen γ} (is : setting.layout type = some t)
    (rest : Simulates setting.platform setting.context n r (l t) g R) :
    Simulates setting.platform setting.context n r (Low.llvmType fuel type >>= l) g R := by
  refine still (P := fun t' => t' = t) (fun s t' s' same run => ?_) fun t' is => is ▸ rest
  obtain ⟨context, translated, rfl⟩ := llvmType_ok run
  rw [same] at translated
  obtain ⟨rfl, rfl⟩ := Context.layout_translated is translated
  rw [← same]
  exact ⟨rfl, rfl⟩

theorem resolved {type u : AstType} {l : AstType → Codegen γ} (is : setting.resolve type = some u)
    (rest : Simulates setting.platform setting.context n r (l u) g R) :
    Simulates setting.platform setting.context n r (Low.resolved fuel type >>= l) g R := by
  refine still (P := fun u' => u' = u) (fun s u' s' same run => ?_) fun u' is => is ▸ rest
  obtain ⟨found, rfl⟩ := resolved_ok run
  rw [same] at found
  have known : resolveTypeName setting.context setting.fuel type = .ok u := by
    unfold Setting.resolve at is
    cases run : resolveTypeName setting.context setting.fuel type with
    | error e => simp [run, Except.toOption] at is
    | ok v => simpa [run, Except.toOption] using is
  exact ⟨rfl, Context.Resolves.agree ⟨_, found⟩ ⟨_, known⟩⟩

theorem loadUnless {ptr : Llvm.Value} {place : Lvalue} (stands : Stands setting.platform n r ptr place.address) (lvalue : Bool) :
    Simulates setting.platform setting.context n r (Low.loadUnless lvalue ptr) (access setting lvalue place)
      (Stands setting.platform) := by
  cases lvalue with
  | true => exact pure fun n' r' le kept => stands.kept kept le
  | false => exact load stands

/-- An address is asked for. -/
theorem address {m : Codegen Llvm.Value} {e : Evaluation M Lvalue}
    (simulates : Simulates setting.platform setting.context n r m (e >>= access setting true) (Stands setting.platform)) :
    Simulates setting.platform setting.context n r m e fun n r value place => Stands setting.platform n r value place.address := by
  intro s a s' x w b w' sound same known here kept atWorld built done
  exact simulates s a s' x w b.address w' sound same known here kept atWorld built
    (Evaluation.bind_some.mpr ⟨b, w', done, rfl⟩)

/-! ### Names -/

section Expressions
variable {decls : List Decl} {codegen : Expr → Bool → Codegen Llvm.Value} {locate : Expr → Evaluation M Lvalue}
  {evaluate : Expr → Evaluation M Rvalue} {perform : Expr → Evaluation M Unit} {loc : Loc} {type : AstType}
  {target index : Expr} (knows : setting.Knows decls n r)

include knows in
theorem identExpr (ident : Name)
    (const : ∀ e, setting.context.constant decls ident = some e → Means setting decls codegen locate evaluate perform e) :
    Simulates setting.platform setting.context n r (codegenIdentExpr decls codegen loc ident false)
      (evaluateIdent setting evaluate ident) (Stands setting.platform) := by
  unfold codegenIdentExpr evaluateIdent
  by_cases isTrue : ident = trueName
  · rw [if_pos isTrue, if_pos isTrue]
    exact pure fun _ _ _ _ => ⟨trivial, rfl, rfl⟩
  rw [if_neg isTrue, if_neg isTrue]
  by_cases isFalse : ident = falseName
  · rw [if_pos isFalse, if_pos isFalse]
    exact pure fun _ _ _ _ => ⟨trivial, rfl, rfl⟩
  rw [if_neg isFalse, if_neg isFalse]
  refine get fun s same => ?_
  split
  case h_2 => exact throw _
  case h_1 sym found =>
    rw [same] at found
    rcases denotes : setting.names ident with _ | ⟨place⟩ | ⟨value⟩ | ⟨value⟩
    · exact fails
    · cases knows ident _ denotes with
      | place found' kind valued stands =>
        cases found.symm.trans found'
        rw [if_neg (by simp [kind]), valued]
        exact load stands
    · cases knows ident _ denotes with
      | function found' kind valued other stands =>
        cases found.symm.trans found'
        rw [if_pos kind, valued]
        exact pure fun n' r' le kept => stands.kept kept le
    · cases knows ident _ denotes with
      | constant is =>
        obtain ⟨kind, valueless, _, _, _, declared⟩ := constant_symbol isTrue isFalse found is
        rw [if_neg kind, valueless, declared]
        exact noLvalue fun _ => (const value is).value n r knows

theorem stringLiteralExpr (literal : Name) :
    Simulates setting.platform setting.context n r (codegenStringLiteralExpr literal false)
      (do return ⟨.ptr (.int 8), ← Low.known (setting.platform.constant (.globalStringPtr literal))⟩)
      (Stands setting.platform) :=
  noLvalue fun _ => known fun _ is => pure fun _ _ _ _ => ⟨trivial, rfl, is⟩

theorem numberLiteralExpr (literal : Name) (radix : Nat) :
    Simulates setting.platform setting.context n r (codegenNumberLiteralExpr fuel loc type literal radix false)
      (evaluateNumber setting type literal radix) (Stands setting.platform) := by
  unfold codegenNumberLiteralExpr evaluateNumber
  refine noLvalue fun _ => ?_
  cases type.kind with
  | integerType width =>
    exact known fun t laid => llvmType laid (known fun d is => pure fun _ _ _ _ => ⟨trivial, rfl, is⟩)
  | floatType width =>
    exact known fun t laid => llvmType laid (known fun d is => pure fun _ _ _ _ => ⟨trivial, rfl, is⟩)
  | booleanType =>
    dsimp only
    by_cases zero : booleanDigits literal = [48]
    · rw [if_pos zero, if_pos zero]
      exact pure fun _ _ _ _ => ⟨trivial, rfl, rfl⟩
    rw [if_neg zero, if_neg zero]
    by_cases one : booleanDigits literal = [49]
    · rw [if_pos one, if_pos one]
      exact pure fun _ _ _ _ => ⟨trivial, rfl, rfl⟩
    rw [if_neg one]
    exact throw _
  | _ => exact fails

/-! ### Elements and members -/

/-- An element of a slice, which the code first checks to be below the capacity. -/
theorem sliceElement {slice i : Llvm.Value} {v : Rvalue} {width : Nat} {x : BitVec width} (lvalue : Bool)
    (sliced : Stands setting.platform n r slice v) (counts : Stands setting.platform n r i (.ofBits x)) :
    Simulates setting.platform setting.context n r
      (do
        let cap ← Low.build (.extractValue slice 2)
        let i ← Low.build (.intCast i cap.type)
        Low.buildAssert (← Low.build (.icmp .ult i cap))
        let ptr ← Low.build (.extractValue slice 0)
        Low.loadUnless lvalue (← Low.build (.gep ptr i [])))
      ((do
        let some ⟨64, cap⟩ := (v.field? 2).bind Rvalue.int? | failure
        let place ← Low.known ((v.field? 0).bind Rvalue.pointee)
        if 0 ≤ x.toInt ∧ x.toInt < cap.toNat then
          return place.at place.type (setting.platform.stride place.type * .ofInt 64 x.toInt)
        else failure) >>= access setting lvalue) (Stands setting.platform) := by
  split
  case h_2 => exact fails_bind
  case h_1 cap measured =>
    obtain ⟨u, second, number⟩ := Option.bind_eq_some_iff.mp measured
    obtain rfl := Rvalue.int?_eq.mp number
    rw [bind_assoc]
    refine known fun place pointed => ?_
    obtain ⟨u, zeroth, pointer⟩ := Option.bind_eq_some_iff.mp pointed
    obtain rfl := Rvalue.pointee_eq.mp pointer
    split
    case isFalse => exact fails_bind
    case isTrue inside =>
      rw [pure_bind]
      refine computes (by simp) (yields_extractValue sliced second) fun capacity n₁ r₁ le₁ kept₁ most => ?_
      have typed : capacity.type = .int 64 := most.type
      rw [typed]
      refine computes (by simp) (yields_intCast (counts.kept kept₁ le₁) rfl) fun j n₂ r₂ le₂ kept₂ counts₂ => ?_
      refine computes (by simp) (yields_icmp counts₂ (most.kept kept₂ le₂) .ult rfl rfl) fun condition n₃ r₃ le₃ kept₃ holds => ?_
      rw [inside_ult inside.1 inside.2] at holds
      refine buildAssert holds fun n₄ r₄ le₄ kept₄ => ?_
      have kept : Kept n r r₄ := ((kept₁.trans kept₂ le₁).trans kept₃ (by omega)).trans kept₄ (by omega)
      refine computes (by simp) (yields_extractValue (sliced.kept kept (by omega)) zeroth) fun ptr n₅ r₅ le₅ kept₅ stands => ?_
      have counts₅ := counts₂.kept ((kept₃.trans kept₄ le₃).trans kept₅ (by omega)) (by omega : n₂ ≤ n₅)
      have element := yields_gep stands rfl counts₅
      rw [BitVec.ofInt_toInt] at element
      exact computes (by simp) element fun _ _ _ _ _ stands => loadUnless stands lvalue

include knows in
theorem indexAccessExpr (lvalue : Bool) (means : Means setting decls codegen locate evaluate perform target)
    (means' : Means setting decls codegen locate evaluate perform index) :
    Simulates setting.platform setting.context n r (codegenIndexAccessExpr fuel codegen loc target index lvalue)
      (locateIndex setting locate evaluate target index >>= access setting lvalue) (Stands setting.platform) := by
  unfold codegenIndexAccessExpr locateIndex
  simp only [bind_assoc]
  refine known fun targetType found => resolved found ?_
  obtain ⟨pointer, kind⟩ := targetType
  cases pointer with
  | succ p =>
    have behind : 0 < (AstType.mk (p + 1) kind).pointer := Nat.succ_pos p
    simp only [if_pos behind, bind_assoc]
    refine (means.value n r knows).bind fun ptr v n₁ r₁ le₁ kept₁ stands => pointsTo fun place pointed => ?_
    refine (means'.value n₁ r₁ (knows.kept le₁ kept₁)).bind fun i u n₂ r₂ le₂ kept₂ counts => guard fun _ => ?_
    refine integer fun width x is => ?_
    subst is
    rw [pure_bind]
    exact computes (by simp) (yields_gep (stands.kept kept₂ le₂) pointed counts)
      fun _ _ _ _ _ stands => loadUnless stands lvalue
  | zero =>
    have here : ¬0 < (AstType.mk 0 kind).pointer := Nat.lt_irrefl 0
    simp only [if_neg here]
    cases kind with
    | arrayType element length =>
      simp only [AstType.kind, AstType.pointer, bind_assoc, beq_self_eq_true, Bool.true_and]
      refine (means.place n r knows).bind fun ptr place n₁ r₁ le₁ kept₁ stands => ?_
      cases typed : place.type with
      | array element length =>
        simp only [bind_assoc]
        refine (means'.value n₁ r₁ (knows.kept le₁ kept₁)).bind fun i u n₂ r₂ le₂ kept₂ counts => guard fun _ => ?_
        refine integer fun width x is => ?_
        subst is
        rw [pure_bind]
        exact computes (by simp) (yields_gep_array (stands.kept kept₂ le₂) rfl typed counts)
          fun _ _ _ _ _ stands => loadUnless stands lvalue
      | _ => exact fails
    | sliceType element =>
      simp only [AstType.kind, AstType.pointer, bind_assoc, beq_self_eq_true, Bool.true_and]
      refine (means.value n r knows).bind fun slice v n₁ r₁ le₁ kept₁ stands => ?_
      refine (means'.value n₁ r₁ (knows.kept le₁ kept₁)).bind fun i u n₂ r₂ le₂ kept₂ counts => guard fun _ => ?_
      refine integer fun width x is => ?_
      subst is
      exact sliceElement lvalue (stands.kept kept₂ le₂) counts
    | _ => exact fails

/-- A member of a struct that lies at a place, or behind a pointer. -/
theorem structMember {ptr : Llvm.Value} {place : Lvalue} (struct : AstType) (name : Name) (lvalue : Bool)
    (stands : Stands setting.platform n r ptr place.address) :
    Simulates setting.platform setting.context n r
      (match struct.kind with
        | .structType members =>
          match findMember members name with
          | some (i, _) => do Low.loadUnless lvalue (← Low.build (.structGep ptr i))
          | _ => MonadExcept.throw (.assertion "struct has no such member")
        | _ => MonadExcept.throw (.assertion "cannot access member of non-struct"))
      ((match struct.kind with
        | .structType members => do
          let (i, _) ← Low.known (findMember members name)
          match place.type with
          | .struct fields => do
            return place.at (← Low.known fields[i]?) (setting.platform.fieldOffset fields i)
          | _ => failure
        | _ => failure) >>= access setting lvalue) (Stands setting.platform) := by
  cases struct.kind with
  | structType members =>
    simp only [bind_assoc]
    refine known fun entry found => ?_
    obtain ⟨i, type⟩ := entry
    rw [found]
    cases typed : place.type with
    | struct fields =>
      simp only [bind_assoc]
      refine known fun t present => ?_
      rw [pure_bind]
      exact computes (by simp) (yields_structGep stands rfl typed present) fun _ _ _ _ _ stands => loadUnless stands lvalue
    | _ => exact fails_bind
  | _ => exact fails_bind

/-- A member of an interface has no place here. -/
theorem noInterface {m : List (InterfaceMember AstType) → Codegen Llvm.Value} {m' : Codegen Llvm.Value} {e : Evaluation M Lvalue}
    {lvalue : Bool} (kind : TypeKind AstType)
    (rest : Simulates setting.platform setting.context n r m' (e >>= access setting lvalue) (Stands setting.platform)) :
    Simulates setting.platform setting.context n r
      (match kind with
        | .interfaceType members => m members
        | _ => m')
      ((match kind with
        | .interfaceType _ => Alternative.failure
        | _ => e) >>= access setting lvalue) (Stands setting.platform) := by
  cases kind with
  | interfaceType members => exact fails_bind
  | _ => exact rest

include knows in
theorem memberAccessExpr (name : Name) (lvalue : Bool) (means : Means setting decls codegen locate evaluate perform target) :
    Simulates setting.platform setting.context n r (codegenMemberAccessExpr fuel codegen loc target name lvalue)
      (locateMember setting locate evaluate target name >>= access setting lvalue) (Stands setting.platform) := by
  unfold codegenMemberAccessExpr locateMember
  simp only [bind_assoc]
  refine known fun st found => resolved found ?_
  obtain ⟨pointer, kind⟩ := st
  cases pointer with
  | zero =>
    simp only [AstType.pointer, Nat.lt_irrefl, if_false, if_true, pure_bind, beq_self_eq_true]
    refine noInterface kind (guard fun _ => ?_)
    rw [bind_assoc]
    exact (means.place n r knows).bind fun ptr place _ _ _ _ stands => structMember (.mk 0 kind) name lvalue stands
  | succ p =>
    simp only [AstType.pointer, Nat.zero_lt_succ, if_true, Nat.add_one_ne_zero, if_false]
    refine known fun stderef behind => resolved behind ?_
    refine noInterface kind (guard fun _ => ?_)
    simp only [bind_assoc]
    refine (means.value n r knows).bind fun ptr v _ _ _ _ stands => pointsTo fun place is => ?_
    subst is
    exact structMember stderef name lvalue stands

/-! ### Calls -/

include knows in
theorem argsExpr (args : List Expr) (means : ∀ e ∈ args, Means setting decls codegen locate evaluate perform e) (start : Nat) :
    Simulates setting.platform setting.context n r
      ((args.zipIdx start).mapM fun (arg, i) =>
        match (none : Option (Nat × Llvm.Value)) with
        | some (place, value) => if i = place then Pure.pure value else codegen arg false
        | none => codegen arg false)
      (args.mapM evaluate) fun n r values vs => List.Forall₂ (Stands setting.platform n r) values vs := by
  induction args generalizing n r start with
  | nil => exact pure fun _ _ _ _ => .nil
  | cons arg args ih =>
    obtain ⟨first, others⟩ := List.forall_mem_cons.mp means
    rw [List.zipIdx_cons, List.mapM_cons, List.mapM_cons]
    refine (first.value n r knows).bind fun value v n₁ r₁ le₁ kept₁ stands => ?_
    refine (ih (knows.kept le₁ kept₁) others (start + 1)).bind fun values vs n₂ r₂ le₂ kept₂ all => ?_
    refine pure fun n₃ r₃ le₃ kept₃ => .cons (stands.kept (kept₂.trans kept₃ le₂) (by omega)) ?_
    exact all.imp fun _ _ stands => stands.kept kept₃ le₃

include knows in
theorem callExpr {ident : Name} {l : Loc} {t : AstType} {args : List Expr} {lvalue : Bool}
    (means : ∀ e ∈ args, Means setting decls codegen locate evaluate perform e) {f : Rvalue → Evaluation M δ}
    {Q : Nat → (Nat → Option Datum) → Llvm.Value → δ → Prop}
    (spill : ∀ value v n' r', Stands setting.platform n' r' value v →
      Simulates setting.platform setting.context n' r' (spillUnless lvalue value) (f v) Q) :
    Simulates setting.platform setting.context n r (codegenCallExpr fuel codegen loc (.mk l t (.identExpr ident)) args lvalue)
      (evaluateCall setting evaluate ident args >>= f) Q := by
  have called {n' : Nat} {r' : Nat → Option Datum} {callee : Llvm.Value} {function : Rvalue} (le : n ≤ n') (kept : Kept n r r')
      (stands : Stands setting.platform n' r' callee function) (other : callee ≠ .trap) :
      Simulates setting.platform setting.context n' r'
        (do
          let values ← codegenArgs codegen none args
          spillUnless lvalue (← Low.build (.call callee values)))
        ((do applyFunction setting.platform function (← args.mapM evaluate)) >>= f) Q := by
    rw [bind_assoc]
    refine (argsExpr (knows.kept le kept) args means 0).bind fun values vs n₁ r₁ le₁ kept₁ all => ?_
    exact (call (stands.kept kept₁ le₁) other all).bind fun value v n₂ r₂ _ _ stands => spill value v n₂ r₂ stands
  unfold codegenCallExpr evaluateCall
  refine get fun s same => ?_
  split
  case h_2 => exact throw _
  case h_1 sym found =>
    rw [same] at found
    rcases denotes : setting.names ident with _ | ⟨place⟩ | ⟨value⟩ | ⟨value⟩
    · exact fails
    · cases knows ident _ denotes with
      | place found' kind valued stands =>
        cases found.symm.trans found'
        have other : sym.kind ≠ .INTERFACE_FUNCTION := by simp [kind]
        have noFunction : sym.kind ≠ .FUNC := by simp [kind]
        rw [if_neg other]
        refine present fun symType _ => guard fun _ => present fun funcptr is => ?_
        cases is.symm.trans valued
        rw [if_neg noFunction, bind_assoc]
        refine (loads stands).bind fun callee function n' r' le kept holds => ?_
        exact called le kept holds.1 holds.2.2
    · cases knows ident _ denotes with
      | function found' kind valued callable stands =>
        cases found.symm.trans found'
        have other : sym.kind ≠ .INTERFACE_FUNCTION := by simp [kind]
        rw [if_neg other]
        refine present fun symType _ => guard fun _ => present fun funcptr is => ?_
        cases is.symm.trans valued
        rw [if_pos kind]
        exact called (Nat.le_refl n) (.refl n r) stands callable
    · exact fails

end Expressions

end Simulates

end Low
