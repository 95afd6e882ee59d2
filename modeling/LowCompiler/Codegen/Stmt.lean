import LowCompiler.Ast.TypeEqual
import LowCompiler.Cfg.Builder

/-!
# Statements

`codegen_stmt` and the function case of `codegen_unit`, stage two. What the code
generator builds for an expression is a parameter here. It is made of single
instructions and of the three shapes of blocks that the expression functions build;
that `codegenExpr` is such a parameter is shown in `codegenStmt_gen`.
-/

namespace Low

/-! ### What expressions build -/

inductive ExprPiece (I V : Type) where
  | instr (instr : I)
  /-- `codegen_conditional_expr`, and the length of a slice in `slice_slice`. -/
  | diamond (cond : V) (onTrue onFalse : List (ExprPiece I V))
  /-- `build_assert`. -/
  | check (cond : V) (onTrue : List (ExprPiece I V))
  /-- The loop of `codegen_array_new`. -/
  | loop (head : List (ExprPiece I V)) (cond : V) (body : List (ExprPiece I V))

namespace Builder

variable {I V : Type}

mutual

def emitPiece (b : Builder I V) : ExprPiece I V → Builder I V
  | .instr instr => b.build (.plain instr)
  | .diamond cond onTrue onFalse =>
    let trueBlock := b.blocks.length
    let falseBlock := trueBlock + 1
    let exitBlock := trueBlock + 2
    let b := b.appendBlock.appendBlock.appendBlock.build (.condBr cond trueBlock falseBlock)
    let b := ((b.positionAtEnd trueBlock).emit onTrue).build (.br exitBlock)
    let b := ((b.positionAtEnd falseBlock).emit onFalse).build (.br exitBlock)
    b.positionAtEnd exitBlock
  | .check cond onTrue =>
    let trueBlock := b.blocks.length
    let exitBlock := trueBlock + 1
    let b := b.appendBlock.appendBlock.build (.condBr cond trueBlock exitBlock)
    let b := ((b.positionAtEnd trueBlock).emit onTrue).build (.br exitBlock)
    b.positionAtEnd exitBlock
  | .loop head cond body =>
    let loopBlock := b.blocks.length
    let bodyBlock := loopBlock + 1
    let exitBlock := loopBlock + 2
    let b := b.appendBlock.appendBlock.appendBlock.build (.br loopBlock)
    let b := ((b.positionAtEnd loopBlock).emit head).build (.condBr cond bodyBlock exitBlock)
    let b := ((b.positionAtEnd bodyBlock).emit body).build (.br loopBlock)
    b.positionAtEnd exitBlock
termination_by structural piece => piece

def emit (b : Builder I V) : List (ExprPiece I V) → Builder I V
  | [] => b
  | piece :: pieces => (b.emitPiece piece).emit pieces
termination_by structural pieces => pieces

end

end Builder

namespace Builder

variable {I V : Type} {pending : List Nat}

mutual

/-- Each piece begins with an instruction in the current block. -/
theorem emitPiece_starts (b : Builder I V) : (piece : ExprPiece I V) → Starts b (b.emitPiece piece)
  | .instr instr => .build b _
  | .diamond cond onTrue onFalse => by
    refine .trans ?_ (.positionAtEnd _ _)
    refine .trans ?_ (.build _ _)
    refine .trans ?_ (emit_grows _ onFalse)
    refine .trans ?_ (.positionAtEnd _ _)
    refine .trans ?_ (.build _ _)
    refine .trans ?_ (emit_grows _ onTrue)
    refine .trans ?_ (.positionAtEnd _ _)
    exact (Grows.appendThree b).starts rfl (.build _ _)
  | .check cond onTrue => by
    refine .trans ?_ (.positionAtEnd _ _)
    refine .trans ?_ (.build _ _)
    refine .trans ?_ (emit_grows _ onTrue)
    refine .trans ?_ (.positionAtEnd _ _)
    exact (Grows.appendTwo b).starts rfl (.build _ _)
  | .loop head cond body => by
    refine .trans ?_ (.positionAtEnd _ _)
    refine .trans ?_ (.build _ _)
    refine .trans ?_ (emit_grows _ body)
    refine .trans ?_ (.positionAtEnd _ _)
    refine .trans ?_ (.build _ _)
    refine .trans ?_ (emit_grows _ head)
    refine .trans ?_ (.positionAtEnd _ _)
    exact (Grows.appendThree b).starts rfl (.build _ _)
termination_by structural piece => piece

theorem emit_grows (b : Builder I V) : (pieces : List (ExprPiece I V)) → Grows b (b.emit pieces)
  | [] => .refl b
  | piece :: pieces => (emitPiece_starts b piece).grows.trans (emit_grows _ pieces)
termination_by structural pieces => pieces

end

theorem emit_starts (b : Builder I V) {pieces : List (ExprPiece I V)} (some : pieces ≠ []) :
    Starts b (b.emit pieces) := by
  cases pieces with
  | nil => exact absurd rfl some
  | cons piece pieces => exact (emitPiece_starts b piece).trans (emit_grows _ pieces)

mutual

theorem emitPiece_ready {pending : List Nat} {b : Builder I V} (ready : Ready pending b) :
    (piece : ExprPiece I V) → Ready pending (b.emitPiece piece)
  | .instr instr => ready.plain instr
  | .diamond cond onTrue onFalse => by
    let n := b.blocks.length
    have first := ready.startThree (.condBr cond n (n + 1)) rfl
    have second := ((emit_ready first onTrue).finish (.br (n + 2)) rfl).positionAtEnd (.swap _ _ _)
    exact ((emit_ready second onFalse).finish (.br (n + 2)) rfl).positionAtEnd (.refl _)
  | .check cond onTrue => by
    let n := b.blocks.length
    have first := ready.startTwo (.condBr cond n (n + 1)) rfl
    exact ((emit_ready first onTrue).finish (.br (n + 1)) rfl).positionAtEnd (.refl _)
  | .loop head cond body => by
    let n := b.blocks.length
    have first := ready.startThree (.br n) rfl
    have second := ((emit_ready first head).finish (.condBr cond (n + 1) (n + 2)) rfl).positionAtEnd (.swap _ _ _)
    exact ((emit_ready second body).finish (.br n) rfl).positionAtEnd (.refl _)
termination_by structural piece => piece

theorem emit_ready {pending : List Nat} {b : Builder I V} (ready : Ready pending b) :
    (pieces : List (ExprPiece I V)) → Ready pending (b.emit pieces)
  | [] => ready
  | piece :: pieces => emit_ready (emitPiece_ready ready piece) pieces
termination_by structural pieces => pieces

end

end Builder

/-- What `codegen_expr_top` builds for an expression under a hint: the pieces, the value and the type. -/
structure ExprGen (I V : Type) where
  expr : Expr → Option AstType → Option (List (ExprPiece I V) × V × AstType)
  decl : Decl → Option (List (ExprPiece I V))
  /-- The instructions that store a parameter of the function. -/
  param : FuncParam → List I

inductive Event where
  | expr (expr : Expr)
  | decl (decl : Decl)

/-- Expressions as atomic events. -/
def atomicGen (type : Expr → AstType) : ExprGen Event Expr where
  expr expr _ := some ([.instr (.expr expr)], expr, type expr)
  decl decl := some [.instr (.decl decl)]
  param _ := []

/-! ### Statements -/

/-- The fields of `codegen_t` that statements read. -/
structure CodegenEnv where
  returnType : AstType
  continueBlock : Option Nat
  breakBlock : Option Nat

/-- Ends a branch that did not set `is_terminated`. -/
def Builder.brUnless {I V : Type} (b : Builder I V) (terminated : Bool) (block : Nat) : Builder I V :=
  if terminated then b else b.build (.br block)

section Codegen
variable {I V : Type} (gen : ExprGen I V)

def codegenClause (b : Builder I V) : Option Expr → Option (Builder I V)
  | none => some b
  | some expr => (gen.expr expr none).map fun (pieces, _, _) => b.emit pieces

def codegenTest (b : Builder I V) (bodyBlock exitBlock : Nat) : Option Expr → Option (Builder I V)
  | none => some (b.build (.br bodyBlock))
  | some expr =>
    (gen.expr expr (some .boolean)).map fun (pieces, cond, _) =>
      (b.emit pieces).build (.condBr cond bodyBlock exitBlock)

mutual

/-- `codegen_stmt`. The second result says whether it sets `context->is_terminated`. -/
def codegenStmt (env : CodegenEnv) (b : Builder I V) : Stmt → Option (Builder I V × Bool)
  | .mk _ kind => codegenStmtKind env b kind
termination_by structural stmt => stmt

def codegenStmtKind (env : CodegenEnv) (b : Builder I V) : StmtKind Stmt → Option (Builder I V × Bool)
  | .exprStmt expr => do
    let (pieces, _, _) ← gen.expr expr none
    return (b.emit pieces, false)
  | .compoundStmt items => codegenItems env b items
  | .ifStmt condition stmt none => do
    let (pieces, cond, type) ← gen.expr condition (some .boolean)
    guard (typeEqual type .boolean)
    let b := b.emit pieces
    let trueBlock := b.blocks.length
    let exitBlock := trueBlock + 1
    let b := b.appendBlock.appendBlock.build (.condBr cond trueBlock exitBlock)
    let (b, terminated) ← codegenNullable env (b.positionAtEnd trueBlock) stmt
    return ((b.brUnless terminated exitBlock).positionAtEnd exitBlock, false)
  | .ifStmt condition stmt (some elseStmt) => do
    let (pieces, cond, type) ← gen.expr condition (some .boolean)
    guard (typeEqual type .boolean)
    let b := b.emit pieces
    let trueBlock := b.blocks.length
    let falseBlock := trueBlock + 1
    let exitBlock := trueBlock + 2
    let b := b.appendBlock.appendBlock.appendBlock.build (.condBr cond trueBlock falseBlock)
    let (b, trueTerminated) ← codegenNullable env (b.positionAtEnd trueBlock) stmt
    let b := b.brUnless trueTerminated exitBlock
    let (b, falseTerminated) ← codegenStmt env (b.positionAtEnd falseBlock) elseStmt
    let b := (b.brUnless falseTerminated exitBlock).positionAtEnd exitBlock
    if falseTerminated && trueTerminated then return (b.build .unreachable, true) else return (b, false)
  | .forStmt initial condition step stmt => do
    let b ← codegenClause gen b initial
    let loopBlock := b.blocks.length
    let bodyBlock := loopBlock + 1
    let stepBlock := loopBlock + 2
    let exitBlock := loopBlock + 3
    let b := b.appendBlock.appendBlock.appendBlock.appendBlock.build (.br loopBlock)
    let b ← codegenTest gen (b.positionAtEnd loopBlock) bodyBlock exitBlock condition
    let inner := { env with continueBlock := some stepBlock, breakBlock := some exitBlock }
    let (b, _) ← codegenNullable inner (b.positionAtEnd bodyBlock) stmt
    let b := (b.build (.br stepBlock)).positionAtEnd stepBlock
    let b ← codegenClause gen b step
    return ((b.build (.br loopBlock)).positionAtEnd exitBlock, false)
  | .continueStmt => do
    let block ← env.continueBlock
    return (b.build (.br block), true)
  | .breakStmt => do
    let block ← env.breakBlock
    return (b.build (.br block), true)
  | .returnStmt (some expr) => do
    let (pieces, value, _) ← gen.expr expr (some env.returnType)
    return ((b.emit pieces).build (.ret (some value)), true)
  | .returnStmt none => some (b.build (.ret none), true)
  | .switchStmt _ _ | .doStmt _ _ | .gotoStmt _ | .caseStmt _ _ | .defaultStmt _ => none
termination_by structural kind => kind

/-- The loop over the items of a compound statement, with a context of its own. -/
def codegenItems (env : CodegenEnv) (b : Builder I V) : List (BlockItem Stmt) → Option (Builder I V × Bool)
  | [] => some (b, false)
  | .stmtItem stmt :: items => do
    let (b, first) ← codegenNullable env b stmt
    let (b, later) ← codegenItems env b items
    return (b, first || later)
  | .declItem decl :: items => do
    let pieces ← gen.decl decl
    codegenItems env (b.emit pieces) items
termination_by structural items => items

def codegenNullable (env : CodegenEnv) (b : Builder I V) : Option Stmt → Option (Builder I V × Bool)
  | none => some (b, false)
  | some stmt => codegenStmt env b stmt
termination_by structural stmt => stmt

end

/-- The code of a function with a body, with the missing return at its end. -/
def codegenBody (func : FuncUnit) (body : Stmt) : Option (Builder I V) := do
  let b := Builder.entry.emit (func.params.flatMap fun param => (gen.param param).map ExprPiece.instr)
  let (b, terminated) ← codegenStmt gen ⟨func.returnType, none, none⟩ b body
  if terminated then return b
  else if func.returnType.kind matches .voidType then return b.build (.ret none)
  else none

/-! ### What each statement builds -/

inductive Code where
  | stmt (stmt : Stmt)
  | items (items : List (BlockItem Stmt))
  | nullable (stmt : Option Stmt)

/-- A run of the code generator, with one constructor for each case. -/
inductive Compiled : CodegenEnv → Builder I V → Code → Builder I V → Bool → Prop where
  | expr {env b loc expr pieces value type} : gen.expr expr none = some (pieces, value, type) →
      Compiled env b (.stmt (.mk loc (.exprStmt expr))) (b.emit pieces) false
  | compound {env b loc items b' terminated} : Compiled env b (.items items) b' terminated →
      Compiled env b (.stmt (.mk loc (.compoundStmt items))) b' terminated
  | ifThen {env b loc condition stmt pieces cond type b' terminated n} :
      gen.expr condition (some .boolean) = some (pieces, cond, type) → typeEqual type .boolean = true →
      n = (b.emit pieces).blocks.length →
      Compiled env (((b.emit pieces).appendBlock.appendBlock.build (.condBr cond n (n + 1))).positionAtEnd n)
        (.nullable stmt) b' terminated →
      Compiled env b (.stmt (.mk loc (.ifStmt condition stmt none)))
        ((b'.brUnless terminated (n + 1)).positionAtEnd (n + 1)) false
  | ifElse {env b loc condition stmt elseStmt pieces cond type b₁ b₂ trueTerminated falseTerminated n} :
      gen.expr condition (some .boolean) = some (pieces, cond, type) → typeEqual type .boolean = true →
      n = (b.emit pieces).blocks.length →
      Compiled env
        (((b.emit pieces).appendBlock.appendBlock.appendBlock.build (.condBr cond n (n + 1))).positionAtEnd n)
        (.nullable stmt) b₁ trueTerminated →
      Compiled env ((b₁.brUnless trueTerminated (n + 2)).positionAtEnd (n + 1)) (.stmt elseStmt) b₂
        falseTerminated →
      Compiled env b (.stmt (.mk loc (.ifStmt condition stmt (some elseStmt))))
        (if falseTerminated && trueTerminated then
          ((b₂.brUnless falseTerminated (n + 2)).positionAtEnd (n + 2)).build .unreachable
        else (b₂.brUnless falseTerminated (n + 2)).positionAtEnd (n + 2))
        (falseTerminated && trueTerminated)
  | forLoop {env b loc initial condition step stmt b₁ b₂ b₃ b₄ terminated n} :
      codegenClause gen b initial = some b₁ → n = b₁.blocks.length →
      codegenTest gen ((b₁.appendBlock.appendBlock.appendBlock.appendBlock.build (.br n)).positionAtEnd n) (n + 1)
        (n + 3) condition = some b₂ →
      Compiled { env with continueBlock := some (n + 2), breakBlock := some (n + 3) } (b₂.positionAtEnd (n + 1))
        (.nullable stmt) b₃ terminated →
      codegenClause gen ((b₃.build (.br (n + 2))).positionAtEnd (n + 2)) step = some b₄ →
      Compiled env b (.stmt (.mk loc (.forStmt initial condition step stmt)))
        ((b₄.build (.br n)).positionAtEnd (n + 3)) false
  | continueTo {env b loc block} : env.continueBlock = some block →
      Compiled env b (.stmt (.mk loc .continueStmt)) (b.build (.br block)) true
  | breakTo {env b loc block} : env.breakBlock = some block →
      Compiled env b (.stmt (.mk loc .breakStmt)) (b.build (.br block)) true
  | returnExpr {env b loc expr pieces value type} :
      gen.expr expr (some env.returnType) = some (pieces, value, type) →
      Compiled env b (.stmt (.mk loc (.returnStmt (some expr)))) ((b.emit pieces).build (.ret (some value))) true
  | returnVoid {env b loc} : Compiled env b (.stmt (.mk loc (.returnStmt none))) (b.build (.ret none)) true
  | nil {env b} : Compiled env b (.items []) b false
  | stmtItem {env b stmt items b₁ b₂ first later} : Compiled env b (.nullable stmt) b₁ first →
      Compiled env b₁ (.items items) b₂ later →
      Compiled env b (.items (.stmtItem stmt :: items)) b₂ (first || later)
  | declItem {env b decl items pieces b' terminated} : gen.decl decl = some pieces →
      Compiled env (b.emit pieces) (.items items) b' terminated →
      Compiled env b (.items (.declItem decl :: items)) b' terminated
  | null {env b} : Compiled env b (.nullable none) b false
  | some {env b stmt b' terminated} : Compiled env b (.stmt stmt) b' terminated →
      Compiled env b (.nullable (some stmt)) b' terminated

variable {gen}

mutual

theorem codegenStmt_compiled {env : CodegenEnv} {b : Builder I V} : (stmt : Stmt) → ∀ {b' terminated},
    codegenStmt gen env b stmt = some (b', terminated) → Compiled gen env b (.stmt stmt) b' terminated
  | .mk loc kind, _, _, h => codegenStmtKind_compiled loc kind h
termination_by structural stmt => stmt

theorem codegenStmtKind_compiled {env : CodegenEnv} {b : Builder I V} (loc : Loc) : (kind : StmtKind Stmt) →
    ∀ {b' terminated}, codegenStmtKind gen env b kind = some (b', terminated) →
      Compiled gen env b (.stmt (.mk loc kind)) b' terminated
  | .exprStmt expr, _, _, h => by
    obtain ⟨⟨pieces, value, type⟩, built, same⟩ := Option.bind_eq_some_iff.mp h
    cases same
    exact .expr built
  | .compoundStmt items, _, _, h => .compound (codegenItems_compiled items h)
  | .ifStmt condition stmt none, _, _, h => by
    obtain ⟨⟨pieces, cond, type⟩, built, h⟩ := Option.bind_eq_some_iff.mp h
    obtain ⟨_, boolean, h⟩ := Option.bind_eq_some_iff.mp h
    obtain ⟨⟨b₁, terminated⟩, body, same⟩ := Option.bind_eq_some_iff.mp h
    cases same
    exact .ifThen built (by simpa [guard] using boolean) rfl (codegenNullable_compiled stmt body)
  | .ifStmt condition stmt (some elseStmt), _, _, h => by
    obtain ⟨⟨pieces, cond, type⟩, built, h⟩ := Option.bind_eq_some_iff.mp h
    obtain ⟨_, boolean, h⟩ := Option.bind_eq_some_iff.mp h
    obtain ⟨⟨b₁, trueTerminated⟩, onTrue, h⟩ := Option.bind_eq_some_iff.mp h
    obtain ⟨⟨b₂, falseTerminated⟩, onFalse, h⟩ := Option.bind_eq_some_iff.mp h
    have guarded : typeEqual type .boolean = true := by simpa [guard] using boolean
    have first := codegenNullable_compiled stmt onTrue
    have second := codegenStmt_compiled elseStmt onFalse
    cases falseTerminated <;> cases trueTerminated <;> (cases h; exact .ifElse built guarded rfl first second)
  | .forStmt initial condition step stmt, _, _, h => by
    obtain ⟨b₁, first, h⟩ := Option.bind_eq_some_iff.mp h
    obtain ⟨b₂, test, h⟩ := Option.bind_eq_some_iff.mp h
    obtain ⟨⟨b₃, terminated⟩, body, h⟩ := Option.bind_eq_some_iff.mp h
    obtain ⟨b₄, last, same⟩ := Option.bind_eq_some_iff.mp h
    cases same
    exact .forLoop first rfl test (codegenNullable_compiled stmt body) last
  | .continueStmt, _, _, h => by
    obtain ⟨block, target, same⟩ := Option.bind_eq_some_iff.mp h
    cases same
    exact .continueTo target
  | .breakStmt, _, _, h => by
    obtain ⟨block, target, same⟩ := Option.bind_eq_some_iff.mp h
    cases same
    exact .breakTo target
  | .returnStmt (some expr), _, _, h => by
    obtain ⟨⟨pieces, value, type⟩, built, same⟩ := Option.bind_eq_some_iff.mp h
    cases same
    exact .returnExpr built
  | .returnStmt none, _, _, h => by
    cases h
    exact .returnVoid
  | .switchStmt _ _, _, _, h | .doStmt _ _, _, _, h | .gotoStmt _, _, _, h | .caseStmt _ _, _, _, h
  | .defaultStmt _, _, _, h => nomatch h
termination_by structural kind => kind

theorem codegenItems_compiled {env : CodegenEnv} {b : Builder I V} : (items : List (BlockItem Stmt)) →
    ∀ {b' terminated}, codegenItems gen env b items = some (b', terminated) →
      Compiled gen env b (.items items) b' terminated
  | [], _, _, h => by
    cases h
    exact .nil
  | .stmtItem stmt :: items, _, _, h => by
    obtain ⟨⟨b₁, first⟩, head, h⟩ := Option.bind_eq_some_iff.mp h
    obtain ⟨⟨b₂, later⟩, tail, same⟩ := Option.bind_eq_some_iff.mp h
    cases same
    exact .stmtItem (codegenNullable_compiled stmt head) (codegenItems_compiled items tail)
  | .declItem decl :: items, _, _, h => by
    obtain ⟨pieces, built, h⟩ := Option.bind_eq_some_iff.mp h
    exact .declItem built (codegenItems_compiled items h)
termination_by structural items => items

theorem codegenNullable_compiled {env : CodegenEnv} {b : Builder I V} : (stmt : Option Stmt) →
    ∀ {b' terminated}, codegenNullable gen env b stmt = some (b', terminated) →
      Compiled gen env b (.nullable stmt) b' terminated
  | none, _, _, h => by
    cases h
    exact .null
  | some stmt, _, _, h => .some (codegenStmt_compiled stmt h)
termination_by structural stmt => stmt

end

end Codegen

end Low
