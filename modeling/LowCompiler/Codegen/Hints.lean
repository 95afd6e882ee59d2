import LowCompiler.Codegen.Prepare

/-!
# Hints in trees of operators

How the type of a variable comes to the literals around it. Operands are prepared
without a hint first. Trees of literals stay without a type then, and take the hint
that they get from the other operand.
-/

namespace Low

open Stateful

/-! ### Trees -/

/-- Arithmetic and bitwise operators over number literals and names. -/
inductive OperatorTree where
  | number (loc : Loc) (literal : Name) (radix : Nat)
  | ident (loc : Loc) (name : Name)
  | binary (loc : Loc) (lhs rhs : OperatorTree) (op : BinaryOp) (hints : op.hints = true)

namespace OperatorTree

/-- The expression with one type at each of its nodes. -/
def expr (type : AstType) : OperatorTree → Expr
  | .number loc literal radix => .mk loc type (.numberLiteralExpr literal radix)
  | .ident loc name => .mk loc type (.identExpr name)
  | .binary loc lhs rhs op _ => .mk loc type (.binaryExpr (lhs.expr type) (rhs.expr type) op)

abbrev parsed : OperatorTree → Expr := expr .zero

def names : OperatorTree → List Name
  | .number _ _ _ => []
  | .ident _ name => [name]
  | .binary _ lhs rhs _ _ => lhs.names ++ rhs.names

def height : OperatorTree → Nat
  | .number _ _ _ | .ident _ _ => 1
  | .binary _ lhs rhs _ _ => max lhs.height rhs.height + 1

@[simp] theorem expr_type (type : AstType) (tree : OperatorTree) : (tree.expr type).type = type := by
  cases tree <;> rfl

end OperatorTree

/-- A name of a value of a type. -/
def Context.HasVariable (context : Context) (type : AstType) (name : Name) : Prop :=
  name ≠ trueName ∧ name ≠ falseName ∧ ∃ sym, context.findSymbol name = some sym ∧ sym.kind ≠ .FUNC ∧
    sym.value.isSome ∧ sym.type = some type

section Nodes
variable {context : Context} {fuel : Nat} {decls : List Decl} {loc : Loc} {type t : AstType}

@[simp] theorem copyType_of_copyable (copyable : (memberTags t).isEmpty = true) : copyType t = pure t :=
  if_pos copyable

theorem prepareExpr_literal (literal : Name) (radix : Nat) :
    prepareExpr context (fuel + 1) (.mk loc type (.numberLiteralExpr literal radix)) .null decls =
      .ok (.mk loc type (.numberLiteralExpr literal radix), decls) := rfl

theorem prepareExpr_literal_hint (copyable : (memberTags t).isEmpty = true) (literal : Name) (radix : Nat) :
    prepareExpr context (fuel + 1) (.mk loc type (.numberLiteralExpr literal radix)) (.type t) decls =
      .ok (.mk loc t (.numberLiteralExpr literal radix), decls) := by
  simp [prepareExpr, prepareNumberLiteralExpr, copyable]

theorem prepareExpr_variable (copyable : (memberTags t).isEmpty = true) {name : Name} (hint : Hint)
    (known : context.HasVariable t name) :
    prepareExpr context (fuel + 1) (.mk loc type (.identExpr name)) hint decls =
      .ok (.mk loc t (.identExpr name), decls) := by
  obtain ⟨notTrue, notFalse, sym, found, notFunc, valued, typed⟩ := known
  simp [prepareExpr, prepareIdentExpr, copyable, notTrue, notFalse, found, notFunc, valued, typed, present]

/-- An operator takes the type of its left operand, in the end. -/
theorem prepareExpr_binary {lhs rhs : Expr} {op : BinaryOp} (hint : Hint) (hints : op.hints = true) :
    prepareExpr context (fuel + 1) (.mk loc type (.binaryExpr lhs rhs op)) hint = (do
      let lhs ← prepareExpr context fuel lhs .null
      let rhs ← prepareExpr context fuel rhs .null
      let neither := lhs.type.noKind && rhs.type.noKind
      let lhs ← (if neither then prepareExpr context fuel lhs hint else pure lhs)
      let rhs ← (if neither then prepareExpr context fuel rhs hint else pure rhs)
      let lhs ← (if lhs.type.noKind && !rhs.type.noKind then prepareExpr context fuel lhs (.type rhs.type) else pure lhs)
      let rhs ← (if rhs.type.noKind && !lhs.type.noKind then prepareExpr context fuel rhs (.type lhs.type) else pure rhs)
      return .mk loc (← copyType lhs.type) (.binaryExpr lhs rhs op)) := by
  cases op with
  | ADD | SUB | MUL | DIV | MOD | LEFT | RIGHT | BITWISE_AND | BITWISE_XOR | BITWISE_OR => rfl
  | LT | GT | LE | GE | EQ | NE | AND | OR => cases hints

end Nodes

/-! ### Trees of literals -/

theorem untyped : AstType.zero.noKind = true := rfl

theorem copyType_zero : copyType .zero = pure .zero := rfl

section Trees
variable {context : Context} {fuel : Nat} {decls : List Decl} {t : AstType}

theorem prepareExpr_literals (context : Context) (decls : List Decl) {tree : OperatorTree}
    (literals : tree.names = []) (enough : tree.height ≤ fuel) :
    prepareExpr context fuel tree.parsed .null decls = .ok (tree.parsed, decls) := by
  induction tree generalizing fuel with
  | number loc literal radix =>
    obtain ⟨fuel, rfl⟩ := Nat.exists_eq_add_of_le' enough
    exact prepareExpr_literal literal radix
  | ident loc name => cases literals
  | binary loc lhs rhs op hints ihLeft ihRight =>
    obtain ⟨left, right⟩ := List.append_eq_nil_iff.mp literals
    obtain ⟨fuel, rfl⟩ := Nat.exists_eq_add_of_le' (Nat.le_trans (Nat.le_add_left 1 _) enough)
    have below : max lhs.height rhs.height ≤ fuel := Nat.le_of_succ_le_succ enough
    have first := ihLeft left (Nat.le_trans (Nat.le_max_left ..) below)
    have second := ihRight right (Nat.le_trans (Nat.le_max_right ..) below)
    rw [OperatorTree.parsed, OperatorTree.expr, prepareExpr_binary .null hints]
    simp [bind_apply, first, second, untyped, copyType_zero]

theorem prepareExpr_literals_hint (context : Context) (decls : List Decl)
    (copyable : (memberTags t).isEmpty = true) (typed : t.noKind = false) {tree : OperatorTree}
    (literals : tree.names = []) (enough : tree.height ≤ fuel) :
    prepareExpr context fuel tree.parsed (.type t) decls = .ok (tree.expr t, decls) := by
  induction tree generalizing fuel with
  | number loc literal radix =>
    obtain ⟨fuel, rfl⟩ := Nat.exists_eq_add_of_le' enough
    exact prepareExpr_literal_hint copyable literal radix
  | ident loc name => cases literals
  | binary loc lhs rhs op hints ihLeft ihRight =>
    obtain ⟨left, right⟩ := List.append_eq_nil_iff.mp literals
    obtain ⟨fuel, rfl⟩ := Nat.exists_eq_add_of_le' (Nat.le_trans (Nat.le_add_left 1 _) enough)
    have below : max lhs.height rhs.height ≤ fuel := Nat.le_of_succ_le_succ enough
    have enoughLeft := Nat.le_trans (Nat.le_max_left lhs.height rhs.height) below
    have enoughRight := Nat.le_trans (Nat.le_max_right lhs.height rhs.height) below
    have first := prepareExpr_literals context decls left enoughLeft
    have second := prepareExpr_literals context decls right enoughRight
    rw [OperatorTree.parsed, OperatorTree.expr, prepareExpr_binary _ hints]
    simp [bind_apply, first, second, ihLeft left enoughLeft, ihRight right enoughRight, untyped, typed, copyable,
      OperatorTree.expr]

/-- The type of a variable comes to each node. A side without a variable stays untyped at first, and
takes the type of the other side as its hint. -/
theorem prepareExpr_variables (copyable : (memberTags t).isEmpty = true) (typed : t.noKind = false)
    {tree : OperatorTree} (known : ∀ name ∈ tree.names, context.HasVariable t name) (some : tree.names ≠ [])
    (enough : tree.height ≤ fuel) :
    prepareExpr context fuel tree.parsed .null decls = .ok (tree.expr t, decls) := by
  induction tree generalizing fuel with
  | number loc literal radix => exact absurd rfl some
  | ident loc name =>
    obtain ⟨fuel, rfl⟩ := Nat.exists_eq_add_of_le' enough
    exact prepareExpr_variable copyable .null (known name (.head _))
  | binary loc lhs rhs op hints ihLeft ihRight =>
    obtain ⟨knownLeft, knownRight⟩ := List.forall_mem_append.mp known
    obtain ⟨fuel, rfl⟩ := Nat.exists_eq_add_of_le' (Nat.le_trans (Nat.le_add_left 1 _) enough)
    have below : max lhs.height rhs.height ≤ fuel := Nat.le_of_succ_le_succ enough
    have enoughLeft := Nat.le_trans (Nat.le_max_left lhs.height rhs.height) below
    have enoughRight := Nat.le_trans (Nat.le_max_right lhs.height rhs.height) below
    rw [OperatorTree.parsed, OperatorTree.expr, prepareExpr_binary .null hints]
    by_cases left : lhs.names = []
    · have right : rhs.names ≠ [] := fun right => some (List.append_eq_nil_iff.mpr ⟨left, right⟩)
      have first := prepareExpr_literals context decls left enoughLeft
      have again := prepareExpr_literals_hint context decls copyable typed left enoughLeft
      simp [bind_apply, first, again, ihRight knownRight right enoughRight, untyped, typed, copyable, OperatorTree.expr]
    · by_cases right : rhs.names = []
      · have second := prepareExpr_literals context decls right enoughRight
        have again := prepareExpr_literals_hint context decls copyable typed right enoughRight
        simp [-bind_pure_comp, bind_apply, second, again, ihLeft knownLeft left enoughLeft, untyped, typed, copyable,
          OperatorTree.expr]
      · simp [bind_apply, ihLeft knownLeft left enoughLeft, ihRight knownRight right enoughRight, typed, copyable,
          OperatorTree.expr]

/-- All nodes of a tree with a variable get its type. A tree of literals gets the type of the hint,
and none without one. -/
theorem hints_reach_literals (context : Context) (width : Nat) (decls : List Decl) (tree : OperatorTree)
    (known : ∀ name ∈ tree.names, context.HasVariable (.mk 0 (.integerType width)) name) (fuel : Nat)
    (enough : tree.height ≤ fuel) :
    (tree.names ≠ [] →
      prepareExpr context fuel tree.parsed .null decls = .ok (tree.expr (.mk 0 (.integerType width)), decls)) ∧
    (tree.names = [] →
      prepareExpr context fuel tree.parsed (.type (.mk 0 (.integerType width))) decls =
        .ok (tree.expr (.mk 0 (.integerType width)), decls) ∧
      prepareExpr context fuel tree.parsed .null decls = .ok (tree.parsed, decls)) :=
  ⟨fun some => prepareExpr_variables rfl rfl known some enough,
    fun none => ⟨prepareExpr_literals_hint _ _ rfl rfl none enough, prepareExpr_literals _ _ none enough⟩⟩

/-- `(1 + 2) * a`. -/
theorem hints_reach_literals_mul :
    let loc : Loc := ⟨0, 0⟩
    let sum : OperatorTree := .binary loc (.number loc [49] 10) (.number loc [50] 10) .ADD rfl
    let tree : OperatorTree := .binary loc sum (.ident loc [97]) .MUL rfl
    let value : Llvm.Value := .result 0 (.ptr (.int 32))
    let a : CodegenSymbol := ⟨.INVALID, some [97], some (.mk 0 (.integerType 32)), some value, none, none, 0, true⟩
    prepareExpr ⟨[a], []⟩ 3 tree.parsed .null [] = .ok (tree.expr (.mk 0 (.integerType 32)), []) ∧
      prepareExpr ⟨[], []⟩ 2 sum.parsed (.type (.mk 0 (.integerType 32))) [] =
        .ok (sum.expr (.mk 0 (.integerType 32)), []) := by
  refine ⟨(hints_reach_literals _ 32 [] _ ?_ 3 (by decide)).1 (by decide),
    ((hints_reach_literals ⟨[], []⟩ 32 [] _ (by simp [OperatorTree.names]) 2 (by decide)).2 rfl).1⟩
  simp only [OperatorTree.names, List.nil_append, List.forall_mem_singleton]
  exact ⟨by decide, by decide, _, rfl, by decide, rfl, rfl⟩

end Trees

/-! ### Arguments of calls -/

/-- The result and the parameters that `prepare_call_expr` finds for a name, and whether their type was
parsed. -/
inductive Callee (context : Context) (ident : Name) : AstType → Bool → List AstType → Prop where
  | function {sym : CodegenSymbol} {returnType : AstType} {parsed : Bool} {types : List AstType} :
    context.findSymbol ident = some sym → sym.parsed = parsed → sym.kind ≠ .INTERFACE_FUNCTION →
    sym.type.map AstType.kind = some (.funcType returnType types) → Callee context ident returnType parsed types
  | member {sym : CodegenSymbol} {interface returnType : AstType} {members : List (InterfaceMember AstType)} {name : Name}
    {parsed : Bool} {types : List AstType} :
    context.findSymbol ident = some sym → sym.parsed = parsed → sym.kind = .INTERFACE_FUNCTION →
    sym.interface = some interface → interface.kind = .interfaceType members →
    members[sym.member]? = some (.function name returnType types) → Callee context ident returnType parsed types

/-- The type of a parameter, and nothing where there is none. -/
def Hint.declared (types : List AstType) (i : Nat) : Hint := types[i]?.elim .null .type

/-- Arguments with the declared parameters as their hints. -/
def prepareDeclared (prepare : Expr → Hint → Prepare Expr) (args : List Expr) (types : List AstType) :
    Prepare (List Expr) :=
  args.zipIdx.mapM fun (arg, i) => prepare arg (.declared types i)

def prepareCallee (prepare : Expr → Hint → Prepare Expr) (loc : Loc) (target : Expr) (args : List Expr) (returnType : AstType)
    (parsed : Bool) (types : List AstType) : Prepare Expr := do
  let t ← copyType returnType
  return .mk loc t (.callExpr target (← prepareArgs prepare parsed args types))

section Calls
variable {context : Context} {ident : Name} {returnType : AstType} {parsed : Bool} {types : List AstType} {args : List Expr}
  {target : Expr}

theorem prepareCallExpr_callee (callee : Callee context ident returnType parsed types) (named : target.kind = .identExpr ident)
    (fuel : Nat) (prepare : Expr → Hint → Prepare Expr) (loc : Loc) :
    prepareCallExpr context fuel prepare loc target args = prepareCallee prepare loc target args returnType parsed types := by
  cases callee with
  | function found parsed kind typed => simp [prepareCallExpr, prepareCallee, named, found, parsed, kind, typed]
  | member found parsed kind of_ is member =>
    simp [prepareCallExpr, prepareCallee, named, found, parsed, kind, of_, is, member, present]

/-- An argument is one of the parameters, or the first one of a parsed type without any. -/
def Hinted (parsed : Bool) (types : List AstType) (i : Nat) : Prop :=
  i < types.length ∨ parsed = true ∧ types = [] ∧ i = 0

theorem arg_declared {i : Nat} (hinted : Hinted parsed types i) : Hint.arg parsed types i = Hint.declared types i := by
  obtain inside | ⟨rfl, rfl, rfl⟩ := hinted
  · simp [Hint.arg, Hint.declared, inside]
  · rfl

theorem arg_wild {i : Nat} (beyond : ¬Hinted parsed types i) : Hint.arg parsed types i = .wild := by
  obtain ⟨outside, other⟩ := not_or.mp beyond
  have missing : types[i]? = none := List.getElem?_eq_none (Nat.le_of_not_lt outside)
  unfold Hint.arg
  rw [missing]
  refine if_neg fun null => other ?_
  simpa [and_assoc] using null

/-- Fails where a hint is not one of a parameter. -/
def refuseWild (expr : Expr) : Hint → Prepare Expr
  | .wild => throw .undefined
  | _ => pure expr

theorem refuseWild_declared : prepareDeclared refuseWild args types = pure (args.zipIdx.map Prod.fst) := by
  rw [prepareDeclared, ← List.mapM_pure]
  refine mapM_congr fun (arg, i) _ => ?_
  dsimp only
  rw [Hint.declared]
  cases types[i]? <;> rfl

/-- An argument behind the parameters gets what lies behind them, or nothing. -/
theorem prepareArgs_declared_iff :
    (∀ prepare, prepareArgs prepare parsed args types = prepareDeclared prepare args types) ↔
      ∀ i < args.length, Hinted parsed types i := by
  constructor
  · intro same i inside
    by_contra beyond
    have run : prepareArgs refuseWild parsed args types [] = .ok (args.zipIdx.map Prod.fst, []) := by
      rw [same, refuseWild_declared]
      rfl
    obtain ⟨_, turns⟩ := mapM_ok (I := fun _ => True) (fun _ _ _ _ _ _ _ => trivial) trivial run
    obtain ⟨_, _, _, _, turn⟩ := turns (args[i], i) (List.mk_mem_zipIdx_iff_getElem?.mpr (List.getElem?_eq_getElem inside))
    dsimp only at turn
    rw [arg_wild beyond] at turn
    cases turn
  · intro hinted prepare
    refine mapM_congr fun (arg, i) member => ?_
    exact congrArg (prepare arg) (arg_declared (hinted i (List.snd_lt_of_mem_zipIdx member)))

/-- All arguments are hinted where there are no more than parameters, or only one and no parameter of a
parsed type. -/
theorem all_hinted_iff {n : Nat} :
    (∀ i < n, Hinted parsed types i) ↔ n ≤ types.length ∨ parsed = true ∧ types = [] ∧ n = 1 := by
  constructor
  · intro hinted
    by_contra neither
    obtain ⟨more, other⟩ := not_or.mp neither
    obtain inside | ⟨is, rfl, _⟩ := hinted types.length (Nat.lt_of_not_le more)
    · exact absurd inside (Nat.lt_irrefl _)
    · have two : 1 < n := by
        have : n ≠ 1 := fun one => other ⟨is, rfl, one⟩
        have : ¬n ≤ 0 := more
        omega
      obtain inside | ⟨_, _, first⟩ := hinted 1 two
      · cases inside
      · cases first
  · rintro (enough | ⟨is, none, rfl⟩) i inside
    · exact .inl (Nat.lt_of_lt_of_le inside enough)
    · exact .inr ⟨is, none, Nat.lt_one_iff.mp inside⟩

/-- The arguments of a call of a known function, of a function pointer or of a member function are
prepared with the types of the parameters as their hints, and those behind the parameters without
one, just where there are none behind the parameters, or one only and no parameter of a parsed type. -/
theorem arg_hints_iff (callee : Callee context ident returnType parsed types)
    (named : target.kind = .identExpr ident) :
    (∀ fuel prepare loc,
      prepareCallExpr context fuel prepare loc target args = prepareCallee prepare loc target args returnType parsed types) ∧
    ((∀ prepare, prepareArgs prepare parsed args types = prepareDeclared prepare args types) ↔
      args.length ≤ types.length ∨ parsed = true ∧ types = [] ∧ args.length = 1) :=
  ⟨fun fuel prepare loc => prepareCallExpr_callee callee named fuel prepare loc, prepareArgs_declared_iff.trans all_hinted_iff⟩

def functionSymbol (name : Name) (returnType : AstType) (types : List AstType) : CodegenSymbol :=
  ⟨.FUNC, some name, some (.mk 0 (.funcType returnType types)), some (.global 0 (.ptr (.int 8))), none, none, 0, false⟩

/-- A function `f` of a text and as many numbers. -/
def contextF (numbers : Nat) : Context :=
  ⟨[functionSymbol [102] int64 (.mk 1 (.integerType 8) :: List.replicate numbers int64)], []⟩

def identF : Expr := .mk ⟨0, 0⟩ .zero (.identExpr [102])

def textAndOne : List Expr :=
  [.mk ⟨0, 0⟩ .zero (.stringLiteralExpr []), .mk ⟨0, 0⟩ .zero (.numberLiteralExpr [49] 10)]

theorem callee_f (numbers : Nat) :
    Callee (contextF numbers) [102] int64 false (.mk 1 (.integerType 8) :: List.replicate numbers int64) :=
  .function rfl rfl nofun rfl

/-- `f("", 1)` of a function of two parameters. -/
theorem arg_hints_two :
    prepareCallExpr (contextF 1) 1 (prepareExpr (contextF 1) 1) ⟨0, 0⟩ identF textAndOne =
      prepareCallee (prepareExpr (contextF 1) 1) ⟨0, 0⟩ identF textAndOne int64 false [.mk 1 (.integerType 8), int64] ∧
    prepareArgs (prepareExpr (contextF 1) 1) false textAndOne [.mk 1 (.integerType 8), int64] =
      prepareDeclared (prepareExpr (contextF 1) 1) textAndOne [.mk 1 (.integerType 8), int64] := by
  have named : identF.kind = .identExpr [102] := rfl
  have enough : textAndOne.length ≤ [AstType.mk 1 (.integerType 8), int64].length := Nat.le_refl _
  obtain ⟨call, hints⟩ := arg_hints_iff (callee_f 1) named
  exact ⟨call 1 _ ⟨0, 0⟩, hints.mpr (.inl enough) _⟩

/-- `f("", 1)` of a variadic function of one parameter. The type behind the parameter is read for
the number. -/
theorem variadic_arg_reads_behind :
    prepareExpr (contextF 0) 2 (.mk ⟨0, 0⟩ .zero (.callExpr identF textAndOne)) .null [] = .error .undefined ∧
    ∃ prepared, prepareDeclared (prepareExpr (contextF 0) 1) textAndOne [.mk 1 (.integerType 8)] [] = .ok (prepared, []) :=
  ⟨rfl, _, rfl⟩

end Calls

end Low
