import LowCompiler.Codegen.Scopes

/-!
# Expressions without their types

`prepare_expr` writes types into the nodes of an expression, and into those of the constants that
it uses. It changes nothing else.
-/

namespace Low

open Stateful
open Llvm (Ty)

/-! ### Without types -/

mutual

def Expr.untyped : Expr → Expr
  | .mk loc _ kind => .mk loc .zero (untypedKind kind)
termination_by structural e => e

def untypedKind : ExprKind Expr → ExprKind Expr
  | .identExpr ident => .identExpr ident
  | .stringLiteralExpr literal => .stringLiteralExpr literal
  | .numberLiteralExpr literal radix => .numberLiteralExpr literal radix
  | .indexAccessExpr target index => .indexAccessExpr target.untyped index.untyped
  | .indexSliceExpr target start stop kind =>
    .indexSliceExpr target.untyped (untypedOption start) (untypedOption stop) kind
  | .callExpr target args => .callExpr target.untyped (untypedList args)
  | .memberAccessExpr target name => .memberAccessExpr target.untyped name
  | .incdecExpr target order direction => .incdecExpr target.untyped order direction
  | .unaryExpr target op => .unaryExpr target.untyped op
  | .exprSizeof expr => .exprSizeof expr.untyped
  | .typeSizeof type => .typeSizeof type
  | .castExpr target type => .castExpr target.untyped type
  | .binaryExpr lhs rhs op => .binaryExpr lhs.untyped rhs.untyped op
  | .conditionalExpr condition trueExpr falseExpr =>
    .conditionalExpr condition.untyped trueExpr.untyped falseExpr.untyped
  | .assignmentExpr target expr op => .assignmentExpr target.untyped expr.untyped op
  | .commaExpr exprs => .commaExpr (untypedList exprs)
  | .newBuiltin type expr => .newBuiltin type (untypedOption expr)
  | .freeBuiltin expr => .freeBuiltin expr.untyped
  | .makeBuiltin type expr => .makeBuiltin type expr.untyped
  | .lencapBuiltin expr kind => .lencapBuiltin expr.untyped kind
  | .disposeBuiltin expr => .disposeBuiltin expr.untyped
termination_by structural kind => kind

def untypedList : List Expr → List Expr
  | [] => []
  | e :: es => e.untyped :: untypedList es
termination_by structural es => es

def untypedOption : Option Expr → Option Expr
  | none => none
  | some e => some e.untyped
termination_by structural e => e

end

theorem untypedList_eq (es : List Expr) : untypedList es = es.map Expr.untyped := by
  induction es with
  | nil => rfl
  | cons e es ih => rw [untypedList, ih, List.map_cons]

/-- Of a declaration only the value of a constant is prepared. -/
def Decl.untyped : Decl → Decl
  | ⟨loc, .constDecl name type value⟩ => ⟨loc, .constDecl name type value.untyped⟩
  | decl => decl

theorem Decl.untyped_const {decl : Decl} {loc : Loc} {name : Name} {type : Option AstType} {value : Expr}
    (same : decl.untyped = (⟨loc, .constDecl name type value⟩ : Decl).untyped) :
    ∃ value', decl = ⟨loc, .constDecl name type value'⟩ ∧ value'.untyped = value.untyped := by
  obtain ⟨loc', kind⟩ := decl
  cases kind with
  | constDecl name' type' value' =>
    simp only [Decl.untyped, Decl.mk.injEq, DeclKind.constDecl.injEq] at same
    obtain ⟨rfl, rfl, rfl, same⟩ := same
    exact ⟨value', rfl, same⟩
  | _ => simp [Decl.untyped] at same

/-! ### Steps that add types -/

/-- `Q` holds of the result, and the declarations differ in types only. -/
def Annotates {α : Type} (m : Prepare α) (Q : α → Prop) : Prop :=
  ∀ decls a decls', m decls = .ok (a, decls') → Q a ∧ decls'.map Decl.untyped = decls.map Decl.untyped

namespace Annotates
variable {α β : Type} {m : Prepare α} {f : α → Prepare β} {P : α → Prop} {Q : β → Prop}

theorem bind (first : Annotates m P) (rest : ∀ a, P a → Annotates (f a) Q) : Annotates (m >>= f) Q := by
  intro decls b decls' run
  obtain ⟨a, decls₁, run, run'⟩ := bind_ok.mp run
  obtain ⟨holds, same⟩ := first decls a decls₁ run
  obtain ⟨holds', same'⟩ := rest a holds decls₁ b decls' run'
  exact ⟨holds', same'.trans same⟩

theorem pure {a : α} (holds : P a) : Annotates (Pure.pure a) P := by
  intro decls a' decls' run
  cases run
  exact ⟨holds, rfl⟩

theorem throw (error : CodegenError) : Annotates (MonadExcept.throw error) P := by
  intro decls a decls' run
  cases run

/-- A step that only looks something up. -/
theorem looks (still : ∀ decls a decls', m decls = .ok (a, decls') → decls' = decls)
    (rest : ∀ a, Annotates (f a) Q) : Annotates (m >>= f) Q := by
  refine bind (P := fun _ => True) ?_ fun a _ => rest a
  intro decls a decls' run
  rw [still decls a decls' run]
  exact ⟨trivial, rfl⟩

theorem copies {t : AstType} {f : AstType → Prepare β} (rest : ∀ t, Annotates (f t) Q) :
    Annotates (copyType t >>= f) Q := by
  refine looks (fun decls a decls' run => ?_) rest
  unfold copyType at run
  split at run
  · cases run
    rfl
  · cases run

theorem finds {a? : Option α} (rest : ∀ a, Annotates (f a) Q) : Annotates (present a? >>= f) Q := by
  cases a? with
  | none => exact throw _
  | some a => exact rest a

theorem resolves {context : Context} {fuel : Nat} {t : AstType} {f : AstType → Prepare β} (rest : ∀ t, Annotates (f t) Q) :
    Annotates (resolve context fuel t >>= f) Q := by
  refine looks (fun decls a decls' run => ?_) rest
  unfold resolve at run
  cases found : resolveTypeName context fuel t with
  | error e =>
    rw [found] at run
    cases run
  | ok u =>
    rw [found] at run
    cases run
    rfl

theorem guard {b : Prop} [Decidable b] {error : CodegenError} {g : α → Prepare β} {m : Prepare β} (rest : Annotates m Q) :
    Annotates (if b then MonadExcept.throw error >>= g else m) Q := by
  split
  · exact throw _
  · exact rest

theorem mapM {f : α → Prepare Expr} {g : α → Expr} {xs : List α} (each : ∀ x, Annotates (f x) fun e => e.untyped = g x) :
    Annotates (xs.mapM f) fun es => es.map Expr.untyped = xs.map g := by
  induction xs with
  | nil => exact pure rfl
  | cons x xs ih =>
    rw [List.mapM_cons]
    refine (each x).bind fun e first => ih.bind fun es rest => pure ?_
    rw [List.map_cons, List.map_cons, first, rest]

end Annotates

section Expressions
variable {context : Context} {fuel : Nat} {prepare : Expr → Hint → Prepare Expr} {loc : Loc} {type : AstType} {hint : Hint}
  (each : ∀ e hint, Annotates (prepare e hint) fun e' => e'.untyped = e.untyped)

theorem constValue_ok {n : Nat} {decls decls' : List Decl} {value? : Option Expr} (run : constValue n decls = .ok (value?, decls')) :
    decls' = decls ∧ ∀ value, value? = some value → ∃ loc name type, decls[n]? = some ⟨loc, .constDecl name type value⟩ := by
  rw [constValue, bind_apply, get_apply] at run
  cases found : decls[n]? with
  | none =>
    simp only [found] at run
    cases run
    exact ⟨rfl, fun value is => by cases is⟩
  | some decl =>
    obtain ⟨loc, kind⟩ := decl
    simp only [found] at run
    cases kind with
    | constDecl name type value =>
      cases run
      refine ⟨rfl, fun value is => ?_⟩
      cases is
      exact ⟨loc, name, type, rfl⟩
    | _ =>
      cases run
      exact ⟨rfl, fun value is => by cases is⟩

/-- A constant is prepared where it is declared. -/
theorem setConstValue_untyped {n : Nat} {decls : List Decl} {loc : Loc} {name : Name} {type : Option AstType} {old new : Expr}
    (declared : (decls.map Decl.untyped)[n]? = some (⟨loc, .constDecl name type old⟩ : Decl).untyped)
    (same : new.untyped = old.untyped) {u : Unit} {decls' : List Decl} (run : setConstValue n new decls = .ok (u, decls')) :
    decls'.map Decl.untyped = decls.map Decl.untyped := by
  cases run
  apply List.ext_getElem?
  intro i
  rw [List.getElem?_map, List.getElem?_map, List.getElem?_modify]
  by_cases here : n = i
  · subst here
    rw [List.getElem?_map] at declared
    obtain ⟨decl, found, is⟩ := Option.map_eq_some_iff.mp declared
    obtain ⟨value, rfl, kept⟩ := Decl.untyped_const is
    simp [found, Decl.untyped, same, kept]
  · simp [here]

include each

/-- The value of a constant comes back to the declaration that it was taken from. -/
theorem constant_annotates (n : Nat) (ident : Name) (error : CodegenError) :
    Annotates
      (do
        let some value ← constValue n | throw error
        let value ← prepare value hint
        setConstValue n value
        return Expr.mk loc (← copyType value.type) (.identExpr ident))
      fun e => e.untyped = (Expr.mk loc type (.identExpr ident)).untyped := by
  intro decls e decls' run
  obtain ⟨value?, decls₁, looked, run⟩ := bind_ok.mp run
  obtain ⟨rfl, is⟩ := constValue_ok looked
  cases value? with
  | none => cases run
  | some value =>
    obtain ⟨declLoc, name, declType, declared⟩ := is value rfl
    obtain ⟨value', decls₂, prepared, run⟩ := bind_ok.mp run
    obtain ⟨_, decls₃, set, run⟩ := bind_ok.mp run
    obtain ⟨kept, same⟩ := each value hint decls₁ value' decls₂ prepared
    have there : (decls₂.map Decl.untyped)[n]? = some (⟨declLoc, .constDecl name declType value⟩ : Decl).untyped := by
      rw [same, List.getElem?_map, declared]
      rfl
    have untouched := setConstValue_untyped there kept set
    have last : Annotates (do return Expr.mk loc (← copyType value'.type) (.identExpr ident))
        fun e => e.untyped = (Expr.mk loc type (.identExpr ident)).untyped := .copies fun t => .pure rfl
    obtain ⟨holds, same'⟩ := last decls₃ e decls' run
    exact ⟨holds, same'.trans (untouched.trans same)⟩

theorem prepareIdentExpr_annotates (ident : Name) :
    Annotates (prepareIdentExpr context prepare loc type ident hint)
      fun e => e.untyped = (Expr.mk loc type (.identExpr ident)).untyped := by
  unfold prepareIdentExpr
  split
  · exact .pure rfl
  split
  case h_2 => exact .throw _
  case h_1 sym _ =>
    split
    · exact .finds fun t => .copies fun t => .pure rfl
    split
    · exact .finds fun t => .copies fun t => .pure rfl
    split
    case h_2 => exact .throw _
    case h_1 n _ => exact constant_annotates each n ident _

theorem prepareOption_annotates (hint : Hint) (expr : Option Expr) :
    Annotates (prepareOption prepare hint expr) fun expr' => untypedOption expr' = untypedOption expr := by
  cases expr with
  | none => exact .pure rfl
  | some expr =>
    show Annotates (some <$> prepare expr hint) _
    rw [map_eq_pure_bind]
    exact (each expr hint).bind fun expr' same => .pure (congrArg some same)

theorem prepareArgs_annotates (parsed : Bool) (args : List Expr) (types : List AstType) :
    Annotates (prepareArgs prepare parsed args types) fun args' => args'.map Expr.untyped = args.map Expr.untyped := by
  have all : Annotates (prepareArgs prepare parsed args types)
      fun args' => args'.map Expr.untyped = args.zipIdx.map fun x => x.1.untyped :=
    .mapM fun x => each x.1 (.arg parsed types x.2)
  have fst : args.zipIdx.map (fun x => x.1.untyped) = args.map Expr.untyped := by
    rw [← Function.comp_def Expr.untyped Prod.fst, ← List.map_map, List.zipIdx_map_fst]
  rw [fst] at all
  exact all

attribute [local simp] Expr.untyped untypedKind untypedList_eq

theorem prepareIndexAccessExpr_annotates (target index : Expr) :
    Annotates (prepareIndexAccessExpr context fuel prepare loc target index)
      fun e => e.untyped = (Expr.mk loc type (.indexAccessExpr target index)).untyped := by
  unfold prepareIndexAccessExpr
  refine (each target _).bind fun target' first => (each index _).bind fun index' second => .resolves fun t => ?_
  split
  · exact .copies fun t => .pure (by simp [first, second])
  split
  · exact .copies fun t => .pure (by simp [first, second])
  · exact .copies fun t => .pure (by simp [first, second])
  · exact .throw _

theorem prepareIndexSliceExpr_annotates (target : Expr) (start stop : Option Expr) (kind : IndexSliceKind) :
    Annotates (prepareIndexSliceExpr context fuel prepare loc target start stop kind)
      fun e => e.untyped = (Expr.mk loc type (.indexSliceExpr target start stop kind)).untyped := by
  unfold prepareIndexSliceExpr
  refine (each target _).bind fun target' first => (prepareOption_annotates each _ start).bind fun start' second => ?_
  refine (prepareOption_annotates each _ stop).bind fun stop' third => .resolves fun t => ?_
  split
  · exact .copies fun t => .pure (by simp [first, second, third])
  · exact .copies fun t => .pure (by simp [first, second, third])
  · exact .throw _

theorem prepareCallExpr_annotates (target : Expr) (args : List Expr) :
    Annotates (prepareCallExpr context fuel prepare loc target args)
      fun e => e.untyped = (Expr.mk loc type (.callExpr target args)).untyped := by
  have calls (parsed : Bool) (types : List AstType) (t : AstType) :
      Annotates (do return Expr.mk loc t (.callExpr target (← prepareArgs prepare parsed args types)))
        fun e => e.untyped = (Expr.mk loc type (.callExpr target args)).untyped :=
    (prepareArgs_annotates each parsed args types).bind fun args' same => .pure (by simp [same])
  unfold prepareCallExpr
  split
  · split
    case h_2 => exact .throw _
    case h_1 sym _ =>
      split
      · refine .finds fun interface => ?_
        split
        · refine .finds fun member => ?_
          split
          · exact .copies fun t => calls _ _ t
          · exact .throw _
        · exact .throw _
      · split
        · exact .copies fun t => calls _ _ t
        · exact .throw _
  · refine (each _ _).bind fun object _ => .resolves fun t => ?_
    split
    · exact .throw _
    · exact .throw _
  · exact .throw _

omit each in
/-- The type of a member is found in the struct. -/
theorem structMember_annotates {target target' : Expr} (same : target'.untyped = target.untyped) (name : Name) (st : AstType) :
    Annotates
      (match st.kind with
        | .structType members => do
          let some (_, t) := findMember members name | throw (.derror (some loc) "struct has no member named '%s'\n")
          return Expr.mk loc (← copyType t) (.memberAccessExpr target' name)
        | _ => throw (.derror (some loc) "cannot access member of non-struct\n"))
      fun e => e.untyped = (Expr.mk loc type (.memberAccessExpr target name)).untyped := by
  split
  · split
    · exact .copies fun t => .pure (by simp [same])
    · exact .throw _
  · exact .throw _

theorem prepareMemberAccessExpr_annotates (target : Expr) (name : Name) :
    Annotates (prepareMemberAccessExpr context fuel prepare loc target name)
      fun e => e.untyped = (Expr.mk loc type (.memberAccessExpr target name)).untyped := by
  unfold prepareMemberAccessExpr
  refine (each target _).bind fun target' same => .resolves fun st => ?_
  split
  · refine .guard ?_
    split
    · exact .copies fun t => .pure (by simp [same])
    · exact .throw _
  · unfold pointee
    split
    · exact .resolves (structMember_annotates same name)
    · exact structMember_annotates same name st

theorem prepareIncdecExpr_annotates (target : Expr) (order : IncdecOrder) (direction : IncdecDirection) :
    Annotates (prepareIncdecExpr prepare loc target order direction hint)
      fun e => e.untyped = (Expr.mk loc type (.incdecExpr target order direction)).untyped :=
  (each target hint).bind fun target' same => .copies fun t => .pure (by simp [same])

omit each in
theorem hint_up_annotates (hint : Hint) : Annotates hint.up fun _ => True := by
  cases hint with
  | null => exact .pure trivial
  | type t => exact .copies fun _ => .pure trivial
  | wild => exact .throw _

omit each in
theorem hint_down_annotates (hint : Hint) : Annotates hint.down fun _ => True := by
  cases hint with
  | null => exact .pure trivial
  | type t =>
    dsimp only [Hint.down]
    split
    · exact .copies fun _ => .pure trivial
    · exact .pure trivial
  | wild => exact .throw _

theorem prepareUnaryExpr_annotates (target : Expr) (op : UnaryOp) :
    Annotates (prepareUnaryExpr prepare loc target op hint)
      fun e => e.untyped = (Expr.mk loc type (.unaryExpr target op)).untyped := by
  have plain : Annotates (do
      let target ← prepare target hint
      return Expr.mk loc (← copyType target.type) (.unaryExpr target op))
      fun e => e.untyped = (Expr.mk loc type (.unaryExpr target op)).untyped :=
    (each target hint).bind fun target' same => .copies fun t => .pure (by simp [same])
  unfold prepareUnaryExpr
  cases op with
  | ADDRESS =>
    refine (hint_down_annotates hint).bind fun hint' _ => ?_
    exact (each target hint').bind fun target' same => .copies fun t => .pure (by simp [same])
  | DEREF =>
    refine (hint_up_annotates hint).bind fun hint' _ => ?_
    exact (each target hint').bind fun target' same => .copies fun t => .guard (.pure (by simp [same]))
  | POSITIVE | NEGATIVE | BITWISE_NOT => exact plain
  | NOT => exact (each target _).bind fun target' same => .pure (by simp [same])

omit each in
theorem sizeofType_annotates (type : AstType) (hint : Hint) : Annotates (sizeofType type hint) fun _ => True := by
  cases hint with
  | null => exact .pure trivial
  | type t =>
    rw [sizeofType, ← bind_pure (copyType t)]
    exact .copies fun _ => .pure trivial
  | wild => exact .throw _

theorem prepareExprSizeof_annotates (expr : Expr) :
    Annotates (prepareExprSizeof prepare loc type expr hint)
      fun e => e.untyped = (Expr.mk loc type (.exprSizeof expr)).untyped :=
  (each expr _).bind fun expr' same => (sizeofType_annotates type hint).bind fun t _ => .pure (by simp [same])

theorem prepareCastExpr_annotates (target : Expr) (castType : AstType) :
    Annotates (prepareCastExpr prepare loc target castType)
      fun e => e.untyped = (Expr.mk loc type (.castExpr target castType)).untyped :=
  (each target _).bind fun target' same => .copies fun t => .pure (by simp [same])

/-- An operand that is prepared once more. -/
theorem again_annotates {b : Prop} [Decidable b] {e e' : Expr} (same : e'.untyped = e.untyped) (hint : Hint) :
    Annotates (if b then prepare e' hint else pure e') fun e'' => e''.untyped = e.untyped := by
  split
  · rw [← same]
    exact each e' hint
  · exact .pure same

theorem prepareBinaryExpr_annotates (lhs rhs : Expr) (op : BinaryOp) :
    Annotates (prepareBinaryExpr prepare loc lhs rhs op hint)
      fun e => e.untyped = (Expr.mk loc type (.binaryExpr lhs rhs op)).untyped := by
  unfold prepareBinaryExpr
  refine (each lhs _).bind fun lhs₁ left₁ => (each rhs _).bind fun rhs₁ right₁ => ?_
  refine (again_annotates each left₁ _).bind fun lhs₂ left₂ => (again_annotates each right₁ _).bind fun rhs₂ right₂ => ?_
  refine (again_annotates each left₂ _).bind fun lhs₃ left₃ => (again_annotates each right₂ _).bind fun rhs₃ right₃ => ?_
  split
  case h_9 => exact .copies fun t => .pure (by simp [left₃, right₃])
  all_goals exact .pure (by simp [left₃, right₃])

theorem prepareConditionalExpr_annotates (condition trueExpr falseExpr : Expr) :
    Annotates (prepareConditionalExpr prepare loc condition trueExpr falseExpr hint)
      fun e => e.untyped = (Expr.mk loc type (.conditionalExpr condition trueExpr falseExpr)).untyped :=
  (each condition _).bind fun condition' first => (each trueExpr hint).bind fun trueExpr' second =>
    (each falseExpr hint).bind fun falseExpr' third => .guard (.copies fun t => .pure (by simp [first, second, third]))

theorem prepareAssignmentExpr_annotates (target expr : Expr) (op : AssignmentOp) :
    Annotates (prepareAssignmentExpr prepare loc target expr op hint)
      fun e => e.untyped = (Expr.mk loc type (.assignmentExpr target expr op)).untyped :=
  (each target hint).bind fun target' first => (each expr _).bind fun expr' second =>
    .guard (.copies fun t => .pure (by simp [first, second]))

theorem prepareCommaExpr_annotates (exprs : List Expr) :
    Annotates (prepareCommaExpr prepare loc exprs hint)
      fun e => e.untyped = (Expr.mk loc type (.commaExpr exprs)).untyped := by
  unfold prepareCommaExpr
  refine (Annotates.mapM fun e => each e hint).bind fun exprs' same => .finds fun last => ?_
  exact .copies fun t => .pure (by simp [same])

theorem prepareNewBuiltinExpr_annotates (newType : AstType) (expr : Option Expr) :
    Annotates (prepareNewBuiltinExpr prepare loc newType expr)
      fun e => e.untyped = (Expr.mk loc type (.newBuiltin newType expr)).untyped :=
  (prepareOption_annotates each _ expr).bind fun expr' same => .copies fun t => .pure (by simp [same])

theorem prepareFreeBuiltinExpr_annotates (expr : Expr) :
    Annotates (prepareFreeBuiltinExpr prepare loc type expr)
      fun e => e.untyped = (Expr.mk loc type (.freeBuiltin expr)).untyped :=
  (each expr _).bind fun expr' same => .guard (.pure (by simp [same]))

theorem prepareMakeBuiltinExpr_annotates (makeType : AstType) (expr : Expr) :
    Annotates (prepareMakeBuiltinExpr context fuel prepare loc makeType expr)
      fun e => e.untyped = (Expr.mk loc type (.makeBuiltin makeType expr)).untyped := by
  unfold prepareMakeBuiltinExpr
  refine .resolves fun t => ?_
  split
  · exact (each expr _).bind fun expr' same => .copies fun t => .pure (by simp [same])
  · exact .throw _

theorem prepareLencapBuiltinExpr_annotates (expr : Expr) (kind : LencapKind) :
    Annotates (prepareLencapBuiltinExpr context fuel prepare loc expr kind)
      fun e => e.untyped = (Expr.mk loc type (.lencapBuiltin expr kind)).untyped := by
  unfold prepareLencapBuiltinExpr
  refine (each expr _).bind fun expr' same => .resolves fun t => ?_
  split
  · exact .pure (by simp [same])
  · exact .throw _

theorem prepareDisposeBuiltinExpr_annotates (expr : Expr) :
    Annotates (prepareDisposeBuiltinExpr context fuel prepare loc type expr)
      fun e => e.untyped = (Expr.mk loc type (.disposeBuiltin expr)).untyped := by
  unfold prepareDisposeBuiltinExpr
  refine (each expr _).bind fun expr' same => .resolves fun t => ?_
  split
  · exact .pure (by simp [same])
  · exact .throw _

end Expressions

theorem prepareExpr_annotates (context : Context) (fuel : Nat) (e : Expr) (hint : Hint) :
    Annotates (prepareExpr context fuel e hint) fun e' => e'.untyped = e.untyped := by
  induction fuel generalizing e hint with
  | zero => exact .throw _
  | succ fuel ih =>
    obtain ⟨loc, type, kind⟩ := e
    cases kind with
    | identExpr ident => exact prepareIdentExpr_annotates ih ident
    | stringLiteralExpr literal => exact .pure rfl
    | numberLiteralExpr literal radix =>
      cases hint with
      | null => exact .pure rfl
      | type t => exact .copies fun t => .pure rfl
      | wild => exact .throw _
    | indexAccessExpr target index => exact prepareIndexAccessExpr_annotates ih target index
    | indexSliceExpr target start stop kind => exact prepareIndexSliceExpr_annotates ih target start stop kind
    | callExpr target args => exact prepareCallExpr_annotates ih target args
    | memberAccessExpr target name => exact prepareMemberAccessExpr_annotates ih target name
    | incdecExpr target order direction => exact prepareIncdecExpr_annotates ih target order direction
    | unaryExpr target op => exact prepareUnaryExpr_annotates ih target op
    | exprSizeof expr => exact prepareExprSizeof_annotates ih expr
    | typeSizeof size => exact (sizeofType_annotates type hint).bind fun t _ => .pure rfl
    | castExpr target castType => exact prepareCastExpr_annotates ih target castType
    | binaryExpr lhs rhs op => exact prepareBinaryExpr_annotates ih lhs rhs op
    | conditionalExpr condition trueExpr falseExpr => exact prepareConditionalExpr_annotates ih condition trueExpr falseExpr
    | assignmentExpr target expr op => exact prepareAssignmentExpr_annotates ih target expr op
    | commaExpr exprs => exact prepareCommaExpr_annotates ih exprs
    | newBuiltin newType expr => exact prepareNewBuiltinExpr_annotates ih newType expr
    | freeBuiltin expr => exact prepareFreeBuiltinExpr_annotates ih expr
    | makeBuiltin makeType expr => exact prepareMakeBuiltinExpr_annotates ih makeType expr
    | lencapBuiltin expr kind => exact prepareLencapBuiltinExpr_annotates ih expr kind
    | disposeBuiltin expr => exact prepareDisposeBuiltinExpr_annotates ih expr

theorem prepareExpr_untyped {context : Context} {fuel : Nat} {e e' : Expr} {hint : Hint} {decls decls' : List Decl}
    (run : prepareExpr context fuel e hint decls = .ok (e', decls')) :
    e'.untyped = e.untyped ∧ decls'.map Decl.untyped = decls.map Decl.untyped :=
  prepareExpr_annotates context fuel e hint decls e' decls' run

/-! ### Declarations as they are entered -/

/-- Without the types in the value of a constant, and in the one that a variable starts with. -/
def Decl.unprepared : Decl → Decl
  | ⟨loc, .variableDecl type name initial⟩ => ⟨loc, .variableDecl type name (untypedOption initial)⟩
  | decl => decl.untyped

theorem Decl.untyped_variable {decl : Decl} {loc : Loc} {type : AstType} {name : Name} {initial : Option Expr}
    (same : decl.untyped = ⟨loc, .variableDecl type name initial⟩) : decl = ⟨loc, .variableDecl type name initial⟩ := by
  obtain ⟨loc', kind⟩ := decl
  cases kind with
  | constDecl => simp [Decl.untyped] at same
  | _ => exact same

theorem Decl.unprepared_of_untyped {decl decl' : Decl} (same : decl'.untyped = decl.untyped) :
    decl'.unprepared = decl.unprepared := by
  obtain ⟨loc, kind⟩ := decl
  cases kind with
  | variableDecl type name initial => rw [Decl.untyped_variable same]
  | constDecl name type value =>
    obtain ⟨value', rfl, _⟩ := Decl.untyped_const same
    exact same
  | implementationDecl interface target mappings =>
    obtain ⟨loc', kind⟩ := decl'
    cases kind with
    | variableDecl => simp [Decl.untyped] at same
    | _ => exact same

theorem unprepared_of_untyped {decls decls' : List Decl} (same : decls'.map Decl.untyped = decls.map Decl.untyped) :
    decls'.map Decl.unprepared = decls.map Decl.unprepared := by
  induction decls generalizing decls' with
  | nil => rw [List.map_eq_nil_iff.mp same]
  | cons decl decls ih =>
    obtain ⟨decl', rest, rfl, first, others⟩ := List.map_eq_cons_iff.mp same
    rw [List.map_cons, List.map_cons, Decl.unprepared_of_untyped first, ih others]

theorem lastInitial_eq_some {decls : List Decl} {initial : Expr} : lastInitial decls = some initial ↔
    ∃ loc type name, decls.getLast? = some ⟨loc, .variableDecl type name (some initial)⟩ := by
  unfold lastInitial
  constructor
  · intro is
    split at is
    · rename_i loc type name found last
      subst is
      exact ⟨loc, type, name, last⟩
    · cases is
  · rintro ⟨loc, type, name, last⟩
    rw [last]

/-- Of a variable nothing is prepared with an expression. -/
theorem lastInitial_untyped {decls decls' : List Decl} {initial : Expr}
    (same : decls'.map Decl.untyped = decls.map Decl.untyped) (last : lastInitial decls = some initial) :
    lastInitial decls' = some initial := by
  obtain ⟨loc, type, name, last⟩ := lastInitial_eq_some.mp last
  have untyped : (decls'.map Decl.untyped).getLast? = some ⟨loc, .variableDecl type name (some initial)⟩ := by
    rw [same, List.getLast?_map, last]
    rfl
  rw [List.getLast?_map] at untyped
  obtain ⟨decl, found, is⟩ := Option.map_eq_some_iff.mp untyped
  exact lastInitial_eq_some.mpr ⟨loc, type, name, Decl.untyped_variable is ▸ found⟩

/-- The value in the last declaration is replaced by one that differs in types only. -/
theorem setLastInitial_unprepared {decls : List Decl} {initial value : Expr} {s s' : Building} {decls' : List Decl}
    (last : lastInitial decls = some initial) (same : value.untyped = initial.untyped)
    (run : setLastInitial value (s, decls) = .ok ((), s', decls')) :
    decls'.map Decl.unprepared = decls.map Decl.unprepared := by
  obtain ⟨loc, type, name, last⟩ := lastInitial_eq_some.mp last
  obtain ⟨before, rfl⟩ := List.getLast?_eq_some_iff.mp last
  cases run
  apply List.ext_getElem?
  intro i
  rw [List.getElem?_map, List.getElem?_map, List.getElem?_modify]
  by_cases here : before.length = i
  · subst here
    simp [Decl.unprepared, untypedOption, same]
  · simp [here]

/-! ### Bodies of functions -/

section Jobs
variable {fuel : Nat} {returnType : AstType} {s s' : Building} {decls decls' : List Decl}

theorem built_decls {α : Type} {m : Codegen α} {a : α} (run : built m (s, decls) = .ok (a, s', decls')) : decls' = decls := by
  obtain ⟨⟨a', s₁⟩, _, run⟩ := ok_of_bind run
  cases run
  rfl

theorem copied_decls {t : AstType} {a : AstType} (run : prepared (copyType t) (s, decls) = .ok (a, s', decls')) :
    decls' = decls := by
  obtain ⟨⟨a', decls₁⟩, copied, run⟩ := ok_of_bind run
  cases run
  unfold copyType at copied
  split at copied
  · cases copied
    rfl
  · cases copied

theorem codegenExprTop_untyped {expr : Expr} {hint : Hint} {r : Expr × Llvm.Value}
    (run : codegenExprTop fuel expr hint (s, decls) = .ok (r, s', decls')) :
    r.1.untyped = expr.untyped ∧ decls'.map Decl.untyped = decls.map Decl.untyped := by
  obtain ⟨⟨expr', decls₁⟩, prepared, run⟩ := ok_of_bind run
  obtain ⟨⟨value, s₁⟩, _, run⟩ := ok_of_bind run
  cases run
  exact prepareExpr_annotates _ _ _ _ _ _ _ prepared

theorem codegenExprTop_decls {expr : Expr} {hint : Hint} {r : Expr × Llvm.Value}
    (run : codegenExprTop fuel expr hint (s, decls) = .ok (r, s', decls')) :
    decls'.map Decl.untyped = decls.map Decl.untyped :=
  (codegenExprTop_untyped run).2

theorem codegenDecl_decls {decl : Decl} {more : List Job} (run : codegenDecl fuel decl (s, decls) = .ok (more, s', decls')) :
    decls'.map Decl.untyped = decls.map Decl.untyped := by
  obtain ⟨loc, kind⟩ := decl
  cases kind with
  | variableDecl type name initial =>
    simp only [codegenDecl] at run
    split at run
    · obtain ⟨t, ⟨s₁, d₁⟩, first, run⟩ := bind_ok.mp run
      obtain ⟨var, ⟨s₂, d₂⟩, second, run⟩ := bind_ok.mp run
      cases run
      rw [built_decls second, built_decls first]
    · cases initial with
      | none => cases run
      | some initial =>
        obtain ⟨⟨expr, value⟩, ⟨s₁, d₁⟩, first, run⟩ := bind_ok.mp run
        dsimp only at run
        split at run
        · cases run
        · obtain ⟨type, ⟨s₂, d₂⟩, second, run⟩ := bind_ok.mp run
          obtain ⟨var, ⟨s₃, d₃⟩, third, run⟩ := bind_ok.mp run
          obtain ⟨_, ⟨s₄, d₄⟩, fourth, run⟩ := bind_ok.mp run
          cases run
          rw [built_decls fourth, built_decls third, copied_decls second, codegenExprTop_decls first]
  | constDecl name type value =>
    cases type with
    | none =>
      cases run
      rfl
    | some type =>
      obtain ⟨⟨expr, value⟩, ⟨s₁, d₁⟩, first, run⟩ := bind_ok.mp run
      obtain ⟨global, ⟨s₂, d₂⟩, second, run⟩ := bind_ok.mp run
      cases run
      rw [built_decls second, codegenExprTop_decls first]
  | implementationDecl interface target mappings =>
    cases run
    rfl

/-- The initial value is prepared in the declaration, and nothing else. -/
theorem codegenInitial_decls {type : AstType} {t : Ty} {var : Llvm.Value}
    (run : codegenInitial fuel type t var (s, decls) = .ok ((), s', decls')) :
    decls'.map Decl.unprepared = decls.map Decl.unprepared := by
  obtain ⟨_, _, read, run⟩ := bind_ok.mp run
  cases read
  cases is : lastInitial decls with
  | none =>
    rw [is] at run
    obtain ⟨_, ⟨s₁, d₁⟩, first, run⟩ := bind_ok.mp run
    cases run
    rw [built_decls first]
  | some initial =>
    rw [is] at run
    obtain ⟨⟨expr, value⟩, ⟨s₁, d₁⟩, first, run⟩ := bind_ok.mp run
    obtain ⟨_, _, written, run⟩ := bind_ok.mp run
    cases written
    dsimp only at run
    split at run
    · cases run
    · obtain ⟨_, ⟨s₂, d₂⟩, second, run⟩ := bind_ok.mp run
      cases run
      obtain ⟨same, others⟩ := codegenExprTop_untyped first
      rw [built_decls second, ← unprepared_of_untyped others]
      exact setLastInitial_unprepared (lastInitial_untyped others is) same (s := s₁) rfl

/-- Only the end of a declaration adds to the declarations. -/
theorem codegenJob_decls {job : Job} {more : List Job}
    (run : codegenJob fuel returnType job (s, decls) = .ok (more, s', decls')) :
    decls.map Decl.unprepared <+: decls'.map Decl.unprepared := by
  cases job with
  | stmt inLoop stmt =>
    dsimp only [codegenJob] at run
    cases jobs : stmtJobs returnType inLoop stmt with
    | error e =>
      rw [jobs] at run
      cases run
    | ok jobs' =>
      rw [jobs] at run
      cases run
      exact List.prefix_rfl
  | decl decl => exact (unprepared_of_untyped (codegenDecl_decls run)) ▸ List.prefix_rfl
  | expr expr hint =>
    obtain ⟨r, ⟨s₁, d₁⟩, first, run⟩ := bind_ok.mp run
    cases run
    exact (unprepared_of_untyped (codegenExprTop_decls first)) ▸ List.prefix_rfl
  | test loc expr =>
    obtain ⟨⟨expr, value⟩, ⟨s₁, d₁⟩, first, run⟩ := bind_ok.mp run
    have same := unprepared_of_untyped (codegenExprTop_decls first)
    dsimp only at run
    split at run
    · cases run
    · cases run
      exact same ▸ List.prefix_rfl
  | declare symbol decl =>
    cases run
    rw [List.map_append]
    exact List.prefix_append _ _
  | start type t var =>
    obtain ⟨_, ⟨s₁, d₁⟩, first, run⟩ := bind_ok.mp run
    cases run
    exact (codegenInitial_decls first) ▸ List.prefix_rfl
  | enter =>
    cases run
    exact List.prefix_rfl
  | leave =>
    dsimp only [codegenJob] at run
    split at run
    · cases run
      exact List.prefix_rfl
    · cases run

def Work.Next (fuel : Nat) (returnType : AstType) (w w' : Work) : Prop := w.step fuel returnType = some (.ok w')

theorem Work.next_decls {w w' : Work} (next : Work.Next fuel returnType w w') :
    w.decls.map Decl.unprepared <+: w'.decls.map Decl.unprepared := by
  unfold Work.Next Work.step at next
  split at next
  · cases next
  · obtain ⟨⟨more, s', decls'⟩, run, step⟩ := ok_of_bind (Option.some.inj next)
    cases step
    exact codegenJob_decls run

theorem Work.runs_decls {w w' : Work} (run : Relation.ReflTransGen (Work.Next fuel returnType) w w') :
    w.decls.map Decl.unprepared <+: w'.decls.map Decl.unprepared := by
  induction run with
  | refl => exact List.prefix_rfl
  | tail _ next ih => exact ih.trans (Work.next_decls next)

/-- The number in a symbol leads to the declaration of the symbol for the rest of the function, and all
that is new there are types in the value of a constant, or in that which a variable starts with. -/
theorem declaration_stays {w₀ w₁ w₂ : Work} {symbol : CodegenSymbol} {decl : Decl} {jobs : List Job}
    (declares : w₀.jobs = .declare symbol decl :: jobs) (step : w₀.step fuel returnType = some (.ok w₁))
    (run : Relation.ReflTransGen (Work.Next fuel returnType) w₁ w₂) :
    { symbol with decl := some w₀.decls.length } ∈ w₁.context.symbols ∧
      ∃ decl', w₂.decls[w₀.decls.length]? = some decl' ∧ decl'.unprepared = decl.unprepared := by
  rw [Work.step, declares] at step
  cases step
  refine ⟨List.mem_append_right _ (List.mem_singleton_self _), ?_⟩
  have first : ((w₀.decls ++ [decl]).map Decl.unprepared)[w₀.decls.length]? = some decl.unprepared := by simp
  obtain ⟨new, same⟩ := Work.runs_decls run
  have last : (w₂.decls.map Decl.unprepared)[w₀.decls.length]? = some decl.unprepared := by
    rw [← same, List.getElem?_append_left (by simp)]
    exact first
  rw [List.getElem?_map] at last
  exact Option.map_eq_some_iff.mp last

end Jobs

/-- `const N = 1`. -/
def declaresN : Decl := ⟨⟨0, 0⟩, .constDecl [78] none (.mk ⟨0, 0⟩ .zero (.numberLiteralExpr [49] 10))⟩

def symbolN : CodegenSymbol := ⟨.INVALID, some [78], none, none, none, none, 0, true⟩

def identN : Expr := .mk ⟨0, 0⟩ .zero (.identExpr [78])

/-- The constant takes the type of the hint, in its declaration. -/
theorem identN_untyped : ∃ e' decls',
    prepareExpr ⟨[{ symbolN with decl := some 0 }], []⟩ 2 identN (.type int64) [declaresN] = .ok (e', decls') ∧
      e'.type = int64 ∧ e'.untyped = identN.untyped ∧ decls'.map Decl.untyped = [declaresN].map Decl.untyped := by
  obtain ⟨⟨e', decls'⟩, run, typed⟩ : ∃ r, prepareExpr ⟨[{ symbolN with decl := some 0 }], []⟩ 2 identN (.type int64)
      [declaresN] = .ok r ∧ r.1.type = int64 := ⟨_, rfl, rfl⟩
  exact ⟨e', decls', run, typed, prepareExpr_untyped run⟩

/-- `{ const N = 1 return N }`. -/
theorem declaresN_stays : ∃ w₂ decl',
    (Work.body [.declItem declaresN, .stmtItem (some (.mk ⟨0, 0⟩ (.returnStmt (some identN))))]).after 3 int64 6 = .ok w₂ ∧
      w₂.decls[0]? = some decl' ∧ decl'.unprepared = declaresN.unprepared := by
  let returns : Stmt := .mk ⟨0, 0⟩ (.returnStmt (some identN))
  let declaring : Work := ⟨⟨⟨[], [[]]⟩, [], 0, 0, 0, []⟩, [], [.declare symbolN declaresN, .stmt false returns, .leave]⟩
  let declared (jobs : List Job) : Work := ⟨⟨⟨[{ symbolN with decl := some 0 }], [[]]⟩, [], 0, 0, 0, []⟩, [declaresN], jobs⟩
  have step : declaring.step 3 int64 = some (.ok (declared [.stmt false returns, .leave])) := rfl
  have first : Work.Next 3 int64 (declared [.stmt false returns, .leave]) (declared [.expr identN (.type int64), .leave]) := rfl
  have second : Work.Next 3 int64 (declared [.expr identN (.type int64), .leave]) _ := rfl
  obtain ⟨_, decl', found, same⟩ := declaration_stays rfl step (.tail (.single first) second)
  exact ⟨_, decl', rfl, found, same⟩

end Low
