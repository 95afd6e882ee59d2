import LowCompiler.Codegen.TypeTermination
import LowCompiler.Codegen.Expr
import LowCompiler.Growing

/-!
# What the code generator leaves alone

The code for an expression is added behind what has been built. Instructions are counted
as they are emitted, tables stay in the module, and the context gains nothing but the
symbols of members of interfaces.
-/

namespace Low

open Stateful
open Llvm (Op Ty)

set_option mvcgen.warning false

/-! ### Contexts -/

/-- A later context of the same scope. -/
structure Context.Extends (c c' : Context) : Prop where
  prev : c'.prev = c.prev
  symbols : ∃ added, c'.symbols = c.symbols ++ added ∧
    ∀ symbol ∈ added, symbol.kind = .INTERFACE_FUNCTION ∧ symbol.type = none ∧ symbol.value = none

namespace Context.Extends
variable {c c' c'' : Context}

theorem refl (c : Context) : c.Extends c where
  prev := rfl
  symbols := ⟨[], by simp, fun _ member => absurd member List.not_mem_nil⟩

theorem trans (first : c.Extends c') (second : c'.Extends c'') : c.Extends c'' := by
  obtain ⟨added, same, plain⟩ := first.symbols
  obtain ⟨added', same', plain'⟩ := second.symbols
  refine ⟨second.prev.trans first.prev, added ++ added', ?_, fun symbol member => ?_⟩
  · rw [same', same, List.append_assoc]
  · exact (List.mem_append.mp member).elim (plain symbol) (plain' symbol)

theorem addMembers (c : Context) (interface : Option AstType) (members : List (InterfaceMember AstType)) :
    c.Extends (c.addMembers interface members) where
  prev := rfl
  symbols := by
    refine ⟨memberSymbols interface members, rfl, fun symbol member => ?_⟩
    obtain ⟨i, inside, same⟩ := List.mem_iff_getElem.mp member
    rw [← same]
    simp [memberSymbols, memberSymbol]

/-- A symbol with a value is not hidden by what is added, and none comes in. -/
theorem findSymbol (grows : c.Extends c') {name : Name} {symbol : CodegenSymbol} {value : Llvm.Value}
    (found : c'.findSymbol name = some symbol) (valued : symbol.value = some value) :
    c.findSymbol name = some symbol := by
  obtain ⟨added, same, plain⟩ := grows.symbols
  rw [Context.findSymbol, same, grows.prev, List.findSome?_cons, List.find?_append] at found
  rw [Context.findSymbol, List.findSome?_cons]
  cases inner : c.symbols.find? fun symbol => symbol.name = some name with
  | some first => simpa [inner] using found
  | none =>
    cases new : added.find? fun symbol => symbol.name = some name with
    | some member =>
      obtain rfl : member = symbol := by simpa [inner, new] using found
      have valueless := (plain _ (List.mem_of_find?_eq_some new)).2.2
      cases valueless.symm.trans valued
    | none => simpa [inner, new] using found

theorem noMoreTypes (grows : c.Extends c') : NoMoreTypes c c' := by
  intro name type found
  obtain ⟨added, same, plain⟩ := grows.symbols
  rw [typeOf, Context.findSymbol, same, grows.prev, List.findSome?_cons, List.find?_append] at found
  rw [typeOf, Context.findSymbol, List.findSome?_cons]
  cases inner : c.symbols.find? fun symbol => symbol.name = some name with
  | some first => simpa [inner] using found
  | none =>
    cases new : added.find? fun symbol => symbol.name = some name with
    | some member =>
      have typeless := (plain _ (List.mem_of_find?_eq_some new)).2.1
      simp [inner, new, typeless] at found
    | none => simpa [inner, new] using found

/-- Implementations are never added by a translation. -/
theorem findMapping (grows : c.Extends c') (decls : List Decl) (interface target : AstType) (name : Name) :
    findMapping c' decls interface target name = findMapping c decls interface target name := by
  obtain ⟨added, same, plain⟩ := grows.symbols
  have nothing {f : CodegenSymbol → Option Name} (silent : ∀ symbol, symbol.kind ≠ .IMPLEMENTATION → f symbol = none) :
      added.findSome? f = none :=
    List.findSome?_eq_none_iff.mpr fun symbol member => silent symbol (by simp [(plain symbol member).1])
  simp only [Low.findMapping, same, grows.prev, List.findSome?_cons, List.findSome?_append]
  rw [nothing fun symbol other => if_neg other, Option.or_none]

end Context.Extends

theorem codegenType_extends {fuel : Nat} {type : AstType} {c c₁ c₂ : Context} {l : Ty} (before : c.Extends c₁)
    (run : codegenType fuel type c₁ = .ok (l, c₂)) : c.Extends c₂ := by
  induction fuel generalizing type c₁ c₂ l with
  | zero => cases run
  | succ fuel ih =>
    obtain ⟨pointer, kind⟩ := type
    obtain ⟨l', run, _⟩ := codegenType_ok run
    exact (codegenTypeKind_ok (I := c.Extends) (fun u _ c₁ l c₂ held run => ih held run)
      (fun members interface c₁ _ held => held.trans (.addMembers c₁ interface members)) before run).1

/-! ### Buildings -/

def Emitted.op? : Emitted → Option Op
  | .op instr => some instr
  | _ => none

namespace Building

/-- The instructions that have a number. -/
def ops (s : Building) : List Op := s.emitted.filterMap Emitted.op?

/-- The number of an instruction is its place. -/
def Numbered (s : Building) : Prop := s.results = s.ops.length

structure Extends (s s' : Building) : Prop where
  ops : s.ops <+: s'.ops
  numbered : s.Numbered → s'.Numbered
  tables : s.tables <+: s'.tables
  context : s.context.Extends s'.context

instance buildingPreorder : Preorder Building where
  le := Extends
  le_refl s := ⟨List.prefix_refl _, id, List.prefix_refl _, .refl _⟩
  le_trans _ _ _ first second := ⟨first.ops.trans second.ops, second.numbered ∘ first.numbered,
    first.tables.trans second.tables, first.context.trans second.context⟩

@[simp] theorem ops_emit (s : Building) (emitted : Emitted) :
    ops { s with emitted := s.emitted ++ [emitted] } = s.ops ++ emitted.op?.toList := by
  cases emitted <;> simp [ops, Emitted.op?, List.filterMap_append]

end Building

section Keeps
variable {s₀ : Building}

@[spec] theorem build_keeps (op : Op) : Keeps s₀ (build op) := by
  refine Keeps.of_run fun s v s' run => ?_
  cases run
  refine ⟨?_, fun numbered => ?_, List.prefix_refl _, .refl _⟩
  · exact ⟨[op], by simp [Building.ops, Emitted.op?]⟩
  · simpa [Building.Numbered, Building.ops, Emitted.op?] using numbered

theorem emit_keeps {emitted : Emitted} (plain : emitted.op? = none) : Keeps s₀ (emit emitted) := by
  refine Keeps.of_run fun s v s' run => ?_
  cases run
  refine ⟨?_, fun numbered => ?_, List.prefix_refl _, .refl _⟩
  · exact ⟨[], by simp [plain]⟩
  · simpa [Building.Numbered, plain] using numbered

@[spec] theorem br_keeps (block : Nat) : Keeps s₀ (emit (.br block)) := emit_keeps rfl

@[spec] theorem condBr_keeps (condition : Llvm.Value) (onTrue onFalse : Nat) :
    Keeps s₀ (emit (.condBr condition onTrue onFalse)) := emit_keeps rfl

@[spec] theorem position_keeps (block : Nat) : Keeps s₀ (emit (.position block)) := emit_keeps rfl

@[spec] theorem appendBlock_keeps : Keeps s₀ appendBlock := by
  refine Keeps.of_run fun s v s' run => ?_
  cases run
  exact ⟨List.prefix_refl _, id, List.prefix_refl _, .refl _⟩

@[spec] theorem addTable_keeps (fields : List Llvm.Value) : Keeps s₀ (addTable fields) := by
  refine Keeps.of_run fun s v s' run => ?_
  cases run
  exact ⟨List.prefix_refl _, id, List.prefix_append _ _, .refl _⟩

@[spec] theorem llvmType_keeps (fuel : Nat) (type : AstType) : Keeps s₀ (llvmType fuel type) := by
  refine Keeps.of_run fun s v s' run => ?_
  rw [llvmType] at run
  split at run
  · cases run
    exact ⟨List.prefix_refl _, id, List.prefix_refl _, codegenType_extends (.refl _) ‹_›⟩
  · cases run

@[spec] theorem present_keeps {α : Type} (a : Option α) : Keeps s₀ (present a : Codegen α) := by
  mvcgen [present]

@[spec] theorem resolved_keeps (fuel : Nat) (type : AstType) : Keeps s₀ (resolved fuel type) := by
  refine Keeps.of_run fun s t s' run => ?_
  obtain ⟨s₁, s₂, same, run⟩ := bind_ok.mp run
  cases same
  exact Keeps.run (fun s₀ => keeps_monadLift _) run

@[spec] theorem noLvalue_keeps (lvalue : Bool) (message : String) : Keeps s₀ (noLvalue lvalue message) := by
  mvcgen [noLvalue]

@[spec] theorem loadUnless_keeps (lvalue : Bool) (ptr : Llvm.Value) : Keeps s₀ (loadUnless lvalue ptr) := by
  mvcgen [loadUnless]

@[spec] theorem spillUnless_keeps (lvalue : Bool) (result : Llvm.Value) :
    Keeps s₀ (spillUnless lvalue result) := by
  mvcgen [spillUnless] with grind

@[spec] theorem buildAssert_keeps (condition : Llvm.Value) : Keeps s₀ (buildAssert condition) := by
  mvcgen [buildAssert] with grind

@[spec] theorem codegenArrayNew_keeps (element : Ty) (size : Llvm.Value) :
    Keeps s₀ (codegenArrayNew element size) := by
  mvcgen [codegenArrayNew] with grind

/-! ### The functions of `codegen_expr_fn` -/

section Expressions
variable {fuel : Nat} {decls : List Decl} {codegen : Expr → Bool → Codegen Llvm.Value} {loc : Loc} {type : AstType}

@[spec] theorem codegenStringLiteralExpr_keeps (literal : Name) (lvalue : Bool) :
    Keeps s₀ (codegenStringLiteralExpr literal lvalue) := by
  mvcgen [codegenStringLiteralExpr] with grind

@[spec] theorem codegenNumberLiteralExpr_keeps (literal : Name) (radix : Nat) (lvalue : Bool) :
    Keeps s₀ (codegenNumberLiteralExpr fuel loc type literal radix lvalue) := by
  mvcgen [codegenNumberLiteralExpr] with grind

@[spec] theorem codegenTypeSizeof_keeps (size : AstType) (lvalue : Bool) :
    Keeps s₀ (codegenTypeSizeof fuel loc type size lvalue) := by
  mvcgen [codegenTypeSizeof, codegenSizeof] with grind

@[spec] theorem memberSlot_keeps (castType refd : AstType) (structMembers : List (StructMember AstType)) (target : Llvm.Value)
    (m : InterfaceMember AstType) : Keeps s₀ (codegenSlot fuel decls loc castType refd structMembers target m) := by
  cases m <;> mvcgen [codegenSlot] with grind

@[spec] theorem codegenInterfaceCast_keeps (castType fromType : AstType) (members : List (InterfaceMember AstType))
    (target : Llvm.Value) (dst : Ty) : Keeps s₀ (codegenInterfaceCast fuel decls loc castType fromType members target dst) := by
  mvcgen [codegenInterfaceCast] with grind

variable (below : ∀ s₀ expr lvalue, Keeps s₀ (codegen expr lvalue))
include below

theorem codegenIdentExpr_keeps (ident : Name) (lvalue : Bool) :
    Keeps s₀ (codegenIdentExpr decls codegen loc ident lvalue) := by
  mvcgen [codegenIdentExpr, below] with grind

theorem codegenIndexAccessExpr_keeps (target index : Expr) (lvalue : Bool) :
    Keeps s₀ (codegenIndexAccessExpr fuel codegen loc target index lvalue) := by
  mvcgen [codegenIndexAccessExpr, below] with grind

theorem codegenBound_keeps (bound : Option Expr) : Keeps s₀ (codegenBound codegen bound) := by
  mvcgen [codegenBound, below] with grind

theorem buildSliceSlice_keeps (target : Expr) (start stop : Option Expr) (kind : IndexSliceKind) :
    Keeps s₀ (buildSliceSlice codegen target start stop kind) := by
  have edge (s₀ : Building) (bound : Option Expr) : Keeps s₀ (codegenBound codegen bound) :=
    codegenBound_keeps below bound
  mvcgen [buildSliceSlice, below, edge] with grind

theorem buildSliceArray_keeps (target : Expr) (start stop : Option Expr) :
    Keeps s₀ (buildSliceArray fuel codegen type target start stop) := by
  mvcgen [buildSliceArray, below] with grind

theorem codegenIndexSliceExpr_keeps (target : Expr) (start stop : Option Expr) (kind : IndexSliceKind) :
    Keeps s₀ (codegenIndexSliceExpr fuel codegen type target start stop kind) := by
  have slice (s₀ : Building) : Keeps s₀ (buildSliceSlice codegen target start stop kind) :=
    buildSliceSlice_keeps below target start stop kind
  have array (s₀ : Building) : Keeps s₀ (buildSliceArray fuel codegen type target start stop) :=
    buildSliceArray_keeps below target start stop
  mvcgen [codegenIndexSliceExpr, slice, array] with grind

theorem codegenArgs_keeps (placed : Option (Nat × Llvm.Value)) (args : List Expr) :
    Keeps s₀ (codegenArgs codegen placed args) := by
  refine keeps_mapM (fun s₀ (arg, i) => ?_) args.zipIdx
  mvcgen [below]

theorem codegenMemberCall_keeps (sym : CodegenSymbol) (interface : AstType) (types : List AstType)
    (args : List Expr) :
    Keeps s₀ (codegenMemberCall fuel codegen loc sym interface types args) := by
  have values (s₀ : Building) (placed : Option (Nat × Llvm.Value)) : Keeps s₀ (codegenArgs codegen placed args) :=
    codegenArgs_keeps below placed args
  mvcgen [codegenMemberCall, below, values] with grind

theorem codegenCallExpr_keeps (target : Expr) (args : List Expr) (lvalue : Bool) :
    Keeps s₀ (codegenCallExpr fuel codegen loc target args lvalue) := by
  have values (s₀ : Building) : Keeps s₀ (codegenArgs codegen none args) := codegenArgs_keeps below none args
  have call (s₀ : Building) (sym : CodegenSymbol) (interface : AstType) (types : List AstType) :
      Keeps s₀ (codegenMemberCall fuel codegen loc sym interface types args) :=
    codegenMemberCall_keeps below sym interface types args
  mvcgen [codegenCallExpr, values, call] with grind

theorem codegenMemberAccessExpr_keeps (target : Expr) (name : Name) (lvalue : Bool) :
    Keeps s₀ (codegenMemberAccessExpr fuel codegen loc target name lvalue) := by
  mvcgen [codegenMemberAccessExpr, below] with grind

theorem codegenIncdecExpr_keeps (target : Expr) (order : IncdecOrder) (direction : IncdecDirection)
    (lvalue : Bool) :
    Keeps s₀ (codegenIncdecExpr fuel codegen loc type target order direction lvalue) := by
  mvcgen [codegenIncdecExpr, below] with grind

theorem codegenUnaryExpr_keeps (target : Expr) (op : UnaryOp) (lvalue : Bool) :
    Keeps s₀ (codegenUnaryExpr codegen loc target op lvalue) := by
  mvcgen [codegenUnaryExpr, below] with grind

theorem codegenExprSizeof_keeps (expr : Expr) (lvalue : Bool) :
    Keeps s₀ (codegenExprSizeof fuel codegen loc type expr lvalue) := by
  mvcgen [codegenExprSizeof, codegenSizeof, below] with grind

theorem codegenCastExpr_keeps (target : Expr) (castType : AstType) (lvalue : Bool) :
    Keeps s₀ (codegenCastExpr fuel decls codegen loc target castType lvalue) := by
  mvcgen [codegenCastExpr, below] with grind

theorem codegenBinaryExpr_keeps (lhs rhs : Expr) (op : BinaryOp) (lvalue : Bool) :
    Keeps s₀ (codegenBinaryExpr codegen loc lhs rhs op lvalue) := by
  mvcgen [codegenBinaryExpr, below] with grind

theorem codegenConditionalExpr_keeps (condition trueExpr falseExpr : Expr) (lvalue : Bool) :
    Keeps s₀ (codegenConditionalExpr fuel codegen condition trueExpr falseExpr lvalue) := by
  mvcgen [codegenConditionalExpr, below] with grind

theorem codegenAssignmentExpr_keeps (target expr : Expr) (op : AssignmentOp) :
    Keeps s₀ (codegenAssignmentExpr codegen target expr op) := by
  mvcgen [codegenAssignmentExpr, below] with grind

theorem codegenCommaExpr_keeps (exprs : List Expr) (lvalue : Bool) :
    Keeps s₀ (codegenCommaExpr codegen exprs lvalue) := by
  mvcgen [codegenCommaExpr, below] with grind

theorem codegenNewBuiltinExpr_keeps (newType : AstType) (expr : Option Expr) :
    Keeps s₀ (codegenNewBuiltinExpr fuel codegen newType expr) := by
  mvcgen [codegenNewBuiltinExpr, below] with grind

theorem codegenFreeBuiltinExpr_keeps (expr : Expr) : Keeps s₀ (codegenFreeBuiltinExpr codegen expr) := by
  mvcgen [codegenFreeBuiltinExpr, below] with grind

theorem codegenMakeBuiltinExpr_keeps (makeType : AstType) (expr : Expr) :
    Keeps s₀ (codegenMakeBuiltinExpr fuel codegen loc makeType expr) := by
  mvcgen [codegenMakeBuiltinExpr, below] with grind

theorem codegenLencapBuiltinExpr_keeps (expr : Expr) (kind : LencapKind) :
    Keeps s₀ (codegenLencapBuiltinExpr codegen expr kind) := by
  mvcgen [codegenLencapBuiltinExpr, below] with grind

theorem codegenDisposeBuiltinExpr_keeps (expr : Expr) : Keeps s₀ (codegenDisposeBuiltinExpr codegen expr) := by
  mvcgen [codegenDisposeBuiltinExpr, below] with grind

end Expressions

/-- Whatever is built for an expression. -/
theorem codegenExpr_keeps (decls : List Decl) (fuel : Nat) (expr : Expr) (lvalue : Bool) :
    Keeps s₀ (codegenExpr decls fuel expr lvalue) := by
  induction fuel generalizing s₀ expr lvalue with
  | zero => exact keeps_throw .fuel
  | succ fuel ih =>
    have below (s₀ : Building) (expr : Expr) (lvalue : Bool) : Keeps s₀ (codegenExpr decls fuel expr lvalue) :=
      ih expr lvalue
    obtain ⟨loc, type, kind⟩ := expr
    cases kind with
    | identExpr ident => exact codegenIdentExpr_keeps below ident lvalue
    | stringLiteralExpr literal => exact codegenStringLiteralExpr_keeps literal lvalue
    | numberLiteralExpr literal radix => exact codegenNumberLiteralExpr_keeps literal radix lvalue
    | indexAccessExpr target index => exact codegenIndexAccessExpr_keeps below target index lvalue
    | indexSliceExpr target start stop kind => exact codegenIndexSliceExpr_keeps below target start stop kind
    | callExpr target args => exact codegenCallExpr_keeps below target args lvalue
    | memberAccessExpr target name => exact codegenMemberAccessExpr_keeps below target name lvalue
    | incdecExpr target order direction => exact codegenIncdecExpr_keeps below target order direction lvalue
    | unaryExpr target op => exact codegenUnaryExpr_keeps below target op lvalue
    | exprSizeof expr => exact codegenExprSizeof_keeps below expr lvalue
    | typeSizeof size => exact codegenTypeSizeof_keeps size lvalue
    | castExpr target castType => exact codegenCastExpr_keeps below target castType lvalue
    | binaryExpr lhs rhs op => exact codegenBinaryExpr_keeps below lhs rhs op lvalue
    | conditionalExpr condition trueExpr falseExpr =>
      exact codegenConditionalExpr_keeps below condition trueExpr falseExpr lvalue
    | assignmentExpr target expr op => exact codegenAssignmentExpr_keeps below target expr op
    | commaExpr exprs => exact codegenCommaExpr_keeps below exprs lvalue
    | newBuiltin newType expr => exact codegenNewBuiltinExpr_keeps below newType expr
    | freeBuiltin expr => exact codegenFreeBuiltinExpr_keeps below expr
    | makeBuiltin makeType expr => exact codegenMakeBuiltinExpr_keeps below makeType expr
    | lencapBuiltin expr kind => exact codegenLencapBuiltinExpr_keeps below expr kind
    | disposeBuiltin expr => exact codegenDisposeBuiltinExpr_keeps below expr

end Keeps

theorem codegenExpr_extends {decls : List Decl} {fuel : Nat} {expr : Expr} {lvalue : Bool} {s s' : Building}
    {value : Llvm.Value} (run : codegenExpr decls fuel expr lvalue s = .ok (value, s')) : s.Extends s' :=
  Keeps.run (fun _ => codegenExpr_keeps decls fuel expr lvalue) run

end Low
