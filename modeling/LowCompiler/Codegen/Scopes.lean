import LowCompiler.Codegen.Growth

/-!
# Scopes

`codegen_decl`, and the contexts that `codegen_stmt` makes on its way. A statement is
taken apart into jobs, one after the other. The blocks and jumps between them are those
of `codegenStmt`; here the instructions only follow each other. A symbol is found at the
first place of its name in the innermost scope that has one.
-/

namespace Low

open Stateful
open Llvm (Op Ty)

set_option mvcgen.warning false

/-! ### Contexts -/

namespace Context

/-- The symbols of a context and of those that `prev` leads to. -/
def scopes (context : Context) : List (List CodegenSymbol) := context.symbols :: context.prev

/-- `codegen_context_init(&subctx); subctx.prev = context`. -/
def enter (context : Context) : Context := ⟨[], context.scopes⟩

/-- `codegen_context_dispose(&subctx)`. -/
def leave (context : Context) : Option Context :=
  context.prev.head?.map fun symbols => ⟨symbols, context.prev.tail⟩

end Context

/-- The place of the symbol that `codegen_context_find_symbol` points to: how many scopes are around
its scope, and how many symbols stand before it. -/
def symbolPlace (name : Name) : List (List CodegenSymbol) → Option (Nat × Nat)
  | [] => none
  | symbols :: prev =>
    match symbols.findIdx? fun symbol => symbol.name = some name with
    | some i => some (prev.length, i)
    | none => symbolPlace name prev

/-- No symbol of a scope has the name. -/
def Lacks (name : Name) (symbols : List CodegenSymbol) : Prop := ∀ symbol ∈ symbols, symbol.name ≠ some name

section Places
variable {name : Name} {symbols before added : List CodegenSymbol} {inner prev : List (List CodegenSymbol)}

theorem findIdx_lacks (lacks : Lacks name symbols) :
    symbols.findIdx? (fun symbol => symbol.name = some name) = none := by
  rw [List.findIdx?_eq_none_iff]
  intro symbol member
  simpa using lacks symbol member

theorem find_lacks (lacks : Lacks name symbols) :
    symbols.find? (fun symbol => symbol.name = some name) = none := by
  rw [List.find?_eq_none]
  intro symbol member
  simpa using lacks symbol member

theorem findIdx_has (has : ¬Lacks name symbols) :
    ∃ i < symbols.length, symbols.findIdx? (fun symbol => symbol.name = some name) = some i := by
  cases found : symbols.findIdx? fun symbol => symbol.name = some name with
  | none =>
    rw [List.findIdx?_eq_none_iff] at found
    exact absurd (fun symbol member => by simpa using found symbol member) has
  | some i => exact ⟨i, (List.findIdx?_eq_some_iff_findIdx_eq.mp found).1, rfl⟩

theorem place_inner_lack (lack : ∀ symbols ∈ inner, Lacks name symbols) :
    symbolPlace name (inner ++ prev) = symbolPlace name prev := by
  induction inner with
  | nil => rfl
  | cons symbols inner ih =>
    obtain ⟨first, rest⟩ := List.forall_mem_cons.mp lack
    rw [List.cons_append, symbolPlace, findIdx_lacks first]
    exact ih rest

theorem place_inner_has (has : ¬∀ symbols ∈ inner, Lacks name symbols) :
    ∃ depth i, symbolPlace name (inner ++ prev) = some (depth, i) ∧ prev.length ≤ depth := by
  induction inner with
  | nil => exact absurd nofun has
  | cons symbols inner ih =>
    rw [List.cons_append, symbolPlace]
    by_cases first : Lacks name symbols
    · rw [findIdx_lacks first]
      exact ih fun rest => has (List.forall_mem_cons.mpr ⟨first, rest⟩)
    · obtain ⟨i, _, found⟩ := findIdx_has first
      rw [found]
      exact ⟨_, i, rfl, by simp⟩

theorem place_lacks {symbol : CodegenSymbol} (named : symbol.name = some name) (lacks : Lacks name before) :
    symbolPlace name ((before ++ symbol :: added) :: prev) = some (prev.length, before.length) := by
  rw [symbolPlace, List.findIdx?_append, findIdx_lacks lacks, List.findIdx?_cons]
  simp [named]

theorem place_has {symbol : CodegenSymbol} (has : ¬Lacks name before) :
    ∃ i < before.length, symbolPlace name ((before ++ symbol :: added) :: prev) = some (prev.length, i) := by
  obtain ⟨i, inside, found⟩ := findIdx_has has
  refine ⟨i, inside, ?_⟩
  rw [symbolPlace, List.findIdx?_append, found]
  rfl

/-- A symbol is found where the scopes inside of its own have none of its name, and none stands
before it. -/
theorem place_iff {symbol : CodegenSymbol} (named : symbol.name = some name) :
    symbolPlace name (inner ++ (before ++ symbol :: added) :: prev) = some (prev.length, before.length) ↔
      Lacks name before ∧ ∀ symbols ∈ inner, Lacks name symbols := by
  by_cases lack : ∀ symbols ∈ inner, Lacks name symbols
  · rw [place_inner_lack lack]
    by_cases first : Lacks name before
    · exact iff_of_true (place_lacks named first) ⟨first, lack⟩
    · obtain ⟨i, inside, found⟩ : ∃ i < before.length,
          symbolPlace name ((before ++ symbol :: added) :: prev) = some (prev.length, i) := place_has first
      rw [found]
      exact iff_of_false (by simp; omega) fun both => first both.1
  · obtain ⟨depth, i, found, le⟩ : ∃ depth i, symbolPlace name (inner ++ (before ++ symbol :: added) :: prev) =
        some (depth, i) ∧ ((before ++ symbol :: added) :: prev).length ≤ depth := place_inner_has lack
    rw [found]
    exact iff_of_false (by simp at le ⊢; omega) fun both => lack both.2

/-- The symbol at the place is the one that is returned. -/
theorem findSymbol_place {context : Context} {outer : List (List CodegenSymbol)} {symbol : CodegenSymbol}
    (scopes : context.scopes = inner ++ (before ++ symbol :: added) :: outer) (named : symbol.name = some name)
    (first : Lacks name before) (lack : ∀ symbols ∈ inner, Lacks name symbols) :
    context.findSymbol name = some symbol := by
  have nothing : inner.findSome? (fun symbols => symbols.find? fun symbol => symbol.name = some name) = none :=
    List.findSome?_eq_none_iff.mpr fun symbols member => find_lacks (lack symbols member)
  change context.scopes.findSome? _ = _
  rw [scopes, List.findSome?_append, nothing, List.findSome?_cons, List.find?_append, find_lacks first]
  simp [named]

end Places

/-! ### Statements -/

inductive Job where
  | stmt (inLoop : Bool) (stmt : Stmt)
  | decl (decl : Decl)
  | expr (expr : Expr) (hint : Hint)
  /-- The condition of an `if`, with the location of the statement. -/
  | test (loc : Loc) (expr : Expr)
  | declare (symbol : CodegenSymbol) (decl : Decl)
  /-- The value that a variable with a type starts with. -/
  | start (type : AstType) (t : Ty) (var : Llvm.Value)
  | enter
  | leave

/-- The declarations are numbered as they come into a context. -/
structure Work where
  building : Building
  decls : List Decl
  jobs : List Job

namespace Work

def context (w : Work) : Context := w.building.context

end Work

abbrev Working := StateT (Building × List Decl) (Except CodegenError)

def built {α : Type} (m : Codegen α) : Working α := fun (s, decls) => do
  let (a, s) ← m s
  return (a, s, decls)

def prepared {α : Type} (m : Prepare α) : Working α := fun (s, decls) => do
  let (a, decls) ← m decls
  return (a, s, decls)

/-- `LLVMAddGlobal`. -/
def constGlobal (t : Ty) : Codegen Llvm.Value := fun s =>
  .ok (.global s.globals (.ptr t), { s with globals := s.globals + 1 })

section Statements
variable (fuel : Nat) (returnType : AstType)

/-- `codegen_expr_top`, with the expression as it is prepared. -/
def codegenExprTop (expr : Expr) (hint : Hint) : Working (Expr × Llvm.Value) := fun (s, decls) => do
  let (expr, decls) ← prepareExpr s.context fuel expr hint decls
  let (value, s) ← codegenExpr decls fuel expr false s
  return ((expr, value), s, decls)

/-- `codegen_decl`, up to the symbol. -/
def codegenDecl (decl : Decl) : Working (List Job) :=
  match decl.kind with
  | .variableDecl type name initial => do
    if !type.noKind then
      let t ← built (llvmType fuel type)
      let var ← built (build (.alloca t))
      return [.declare ⟨.INVALID, some name, some type, some var, none, none, 0, true⟩ decl, .start type t var]
    else
      let some initial := initial | throw (.assertion "expr")
      let (expr, value) ← codegenExprTop fuel initial .null
      if expr.type.noKind then
        throw (.derror (some decl.loc) "type of variable '%s' could not be inferred from its initial value\n")
      let type ← prepared (copyType expr.type)
      let var ← built (do build (.alloca (← llvmType fuel type)))
      let _ ← built (build (.store value var))
      return [.declare ⟨.INVALID, some name, some type, some var, none, none, 0, false⟩
        ⟨decl.loc, .variableDecl type name (some expr)⟩]
  | .constDecl name (some type) value => do
    let (expr, _) ← codegenExprTop fuel value (.type type)
    let global ← built (do constGlobal (← llvmType fuel type))
    return [.declare ⟨.INVALID, some name, some type, some global, none, none, 0, true⟩
      ⟨decl.loc, .constDecl name (some type) expr⟩]
  | .constDecl name none _ => pure [.declare ⟨.INVALID, some name, none, none, none, none, 0, true⟩ decl]
  | .implementationDecl _ _ _ => pure [.declare ⟨.IMPLEMENTATION, none, none, none, none, none, 0, false⟩ decl]

def lastInitial (decls : List Decl) : Option Expr :=
  match decls.getLast? with
  | some ⟨_, .variableDecl _ _ initial⟩ => initial
  | _ => none

def setLastInitial (value : Expr) : Working Unit := fun (s, decls) =>
  .ok ((), s, decls.modify (decls.length - 1) fun decl =>
    match decl with
    | ⟨loc, .variableDecl type name _⟩ => ⟨loc, .variableDecl type name (some value)⟩
    | decl => decl)

/-- The rest of `codegen_decl` for a variable with a type, whose declaration has just come into the
context. -/
def codegenInitial (type : AstType) (t : Ty) (var : Llvm.Value) : Working Unit := do
  match lastInitial (← get).2 with
  | none =>
    let _ ← built (build (.store (.constNull t) var))
  | some initial =>
    let (expr, value) ← codegenExprTop fuel initial (.type type)
    setLastInitial expr
    if !typeEqual type expr.type then
      throw (.derror (some initial.loc) "initial value of variable '%s' is of type %s, but should be %s\n")
    let _ ← built (build (.store value var))

def itemJob (inLoop : Bool) : BlockItem Stmt → Option Job
  | .stmtItem stmt => stmt.map (.stmt inLoop)
  | .declItem decl => some (.decl decl)

def scopedJobs (inLoop : Bool) : Option Stmt → List Job
  | none => []
  | some stmt => [.enter, .stmt inLoop stmt, .leave]

def stmtJobs (inLoop : Bool) : Stmt → Except CodegenError (List Job)
  | .mk loc kind =>
    match kind with
    | .exprStmt expr => pure [.expr expr .null]
    | .compoundStmt items => pure (.enter :: items.filterMap (itemJob inLoop) ++ [.leave])
    | .ifStmt condition stmt elseStmt =>
      pure ([.enter, .test loc condition, .leave] ++ scopedJobs inLoop stmt ++ scopedJobs inLoop elseStmt)
    | .forStmt initial condition step stmt =>
      let clause (hint : Hint) (expr : Option Expr) : List Job := (expr.map fun expr => Job.expr expr hint).toList
      pure (.enter :: clause .null initial ++ clause (.type boolType) condition ++
        (stmt.map (Job.stmt true)).toList ++ clause .null step ++ [.leave])
    | .continueStmt => if inLoop then pure [] else throw (.assertion "nowhere to continue to")
    | .breakStmt => if inLoop then pure [] else throw (.assertion "nowhere to break to")
    | .returnStmt expr => pure (expr.map fun expr => Job.expr expr (.type returnType)).toList
    | _ => throw (.die "%s.%d: codegen for stmt kind %d not implemented\n")

def codegenJob : Job → Working (List Job)
  | .stmt inLoop stmt => monadLift (stmtJobs returnType inLoop stmt)
  | .decl decl => codegenDecl fuel decl
  | .expr expr hint => do
    let _ ← codegenExprTop fuel expr hint
    return []
  | .test loc expr => do
    let (expr, _) ← codegenExprTop fuel expr (.type boolType)
    if !typeEqual expr.type boolType then
      throw (.derror (some loc) "if condition must be a bool expression, got %s instead\n")
    return []
  | .declare symbol decl => fun (s, decls) =>
    .ok ([], { s with context := s.context.addSymbol { symbol with decl := some decls.length } }, decls ++ [decl])
  | .start type t var => do
    codegenInitial fuel type t var
    return []
  | .enter => fun (s, decls) => .ok ([], { s with context := s.context.enter }, decls)
  | .leave => fun (s, decls) =>
    match s.context.leave with
    | some context => .ok ([], { s with context }, decls)
    | none => .error .undefined

/-- One job is done, and those that it leads to come next. -/
def Work.step (w : Work) : Option (Except CodegenError Work) :=
  match w.jobs with
  | [] => none
  | job :: jobs => some do
    let (more, s, decls) ← codegenJob fuel returnType job (w.building, w.decls)
    return ⟨s, decls, more ++ jobs⟩

end Statements

/-! ### What a job does to the context -/

section Jobs
variable {fuel : Nat} {returnType : AstType} {s s' : Building} {decls decls' : List Decl}

theorem built_ok {α : Type} {m : Codegen α} {a : α} (keeps : ∀ {s₀}, Keeps s₀ m)
    (run : built m (s, decls) = .ok (a, s', decls')) : s ≤ s' := by
  obtain ⟨⟨a', s₁⟩, ran, run⟩ := ok_of_bind run
  cases run
  exact Keeps.run (fun _ => keeps) ran

theorem prepared_ok {α : Type} {m : Prepare α} {a : α} (run : prepared m (s, decls) = .ok (a, s', decls')) :
    s ≤ s' := by
  obtain ⟨⟨a', decls₁⟩, ran, run⟩ := ok_of_bind run
  cases run
  exact le_refl s

theorem constGlobal_keeps {s₀ : Building} (t : Ty) : Keeps s₀ (constGlobal t) := by
  refine Keeps.of_run fun s v s' run => ?_
  cases run
  exact ⟨List.prefix_refl _, id, List.prefix_refl _, .refl _⟩

theorem alloca_keeps {s₀ : Building} (fuel : Nat) (type : AstType) :
    Keeps s₀ (do build (.alloca (← llvmType fuel type))) := by
  mvcgen [llvmType_keeps, build_keeps] with grind

theorem global_keeps {s₀ : Building} (fuel : Nat) (type : AstType) :
    Keeps s₀ (do constGlobal (← llvmType fuel type)) := by
  mvcgen [llvmType_keeps, constGlobal_keeps] with grind

theorem codegenExprTop_ok {expr : Expr} {hint : Hint} {r : Expr × Llvm.Value}
    (run : codegenExprTop fuel expr hint (s, decls) = .ok (r, s', decls')) : s ≤ s' := by
  obtain ⟨⟨expr', decls₁⟩, _, run⟩ := ok_of_bind run
  obtain ⟨⟨value, s₁⟩, generated, run⟩ := ok_of_bind run
  cases run
  exact codegenExpr_extends generated

theorem codegenDecl_ok {decl : Decl} {more : List Job}
    (run : codegenDecl fuel decl (s, decls) = .ok (more, s', decls')) :
    s ≤ s' := by
  obtain ⟨loc, kind⟩ := decl
  cases kind with
  | variableDecl type name initial =>
    simp only [codegenDecl] at run
    split at run
    · obtain ⟨t, ⟨s₁, d₁⟩, first, run⟩ := bind_ok.mp run
      obtain ⟨var, ⟨s₂, d₂⟩, second, run⟩ := bind_ok.mp run
      cases run
      exact le_trans (built_ok (llvmType_keeps fuel type) first) (built_ok (build_keeps _) second)
    · cases initial with
      | none => cases run
      | some initial =>
        obtain ⟨⟨expr, value⟩, ⟨s₁, d₁⟩, first, run⟩ := bind_ok.mp run
        have before := codegenExprTop_ok first
        dsimp only at run
        split at run
        · cases run
        · obtain ⟨type, ⟨s₂, d₂⟩, second, run⟩ := bind_ok.mp run
          obtain ⟨var, ⟨s₃, d₃⟩, third, run⟩ := bind_ok.mp run
          obtain ⟨_, ⟨s₄, d₄⟩, fourth, run⟩ := bind_ok.mp run
          cases run
          have typed := le_trans before (prepared_ok second)
          have placed := le_trans typed (built_ok (alloca_keeps fuel type) third)
          exact le_trans placed (built_ok (build_keeps _) fourth)
  | constDecl name type value =>
    cases type with
    | none =>
      cases run
      exact le_refl s
    | some type =>
      obtain ⟨⟨expr, value⟩, ⟨s₁, d₁⟩, first, run⟩ := bind_ok.mp run
      obtain ⟨global, ⟨s₂, d₂⟩, second, run⟩ := bind_ok.mp run
      cases run
      exact le_trans (codegenExprTop_ok first) (built_ok (global_keeps fuel type) second)
  | implementationDecl interface target mappings =>
    cases run
    exact le_refl s

theorem codegenInitial_ok {type : AstType} {t : Ty} {var : Llvm.Value}
    (run : codegenInitial fuel type t var (s, decls) = .ok ((), s', decls')) : s ≤ s' := by
  obtain ⟨_, _, read, run⟩ := bind_ok.mp run
  cases read
  cases is : lastInitial decls with
  | none =>
    rw [is] at run
    obtain ⟨_, ⟨s₁, d₁⟩, first, run⟩ := bind_ok.mp run
    cases run
    exact built_ok (build_keeps _) first
  | some initial =>
    rw [is] at run
    obtain ⟨⟨expr, value⟩, ⟨s₁, d₁⟩, first, run⟩ := bind_ok.mp run
    have before := codegenExprTop_ok first
    obtain ⟨_, _, written, run⟩ := bind_ok.mp run
    cases written
    dsimp only at run
    split at run
    · cases run
    · obtain ⟨_, ⟨s₂, d₂⟩, second, run⟩ := bind_ok.mp run
      cases run
      exact le_trans before (built_ok (build_keeps _) second)

/-- All but the opening and closing of a scope and the end of a declaration leave the scope to grow. -/
def Job.Moves (c c' : Context) : Job → Prop
  | .enter => c' = c.enter
  | .leave => c.leave = some c'
  | .declare symbol _ => ∃ n, c' = c.addSymbol { symbol with decl := some n }
  | _ => c.Extends c'

theorem codegenJob_moves {job : Job} {more : List Job}
    (run : codegenJob fuel returnType job (s, decls) = .ok (more, s', decls')) :
    job.Moves s.context s'.context := by
  cases job with
  | stmt inLoop stmt =>
    dsimp only [codegenJob] at run
    cases jobs : stmtJobs returnType inLoop stmt with
    | error e =>
      rw [jobs] at run
      cases run
    | ok jobs' =>
      rw [jobs] at run
      cases run
      exact .refl _
  | decl decl => exact (codegenDecl_ok run).context
  | expr expr hint =>
    obtain ⟨r, ⟨s₁, d₁⟩, first, run⟩ := bind_ok.mp run
    cases run
    exact (codegenExprTop_ok first).context
  | test loc expr =>
    obtain ⟨⟨expr, value⟩, ⟨s₁, d₁⟩, first, run⟩ := bind_ok.mp run
    have before := codegenExprTop_ok first
    dsimp only at run
    split at run
    · cases run
    · cases run
      exact before.context
  | declare symbol decl =>
    cases run
    exact ⟨decls.length, rfl⟩
  | start type t var =>
    obtain ⟨_, ⟨s₁, d₁⟩, first, run⟩ := bind_ok.mp run
    cases run
    exact (codegenInitial_ok first).context
  | enter =>
    cases run
    rfl
  | leave =>
    dsimp only [codegenJob] at run
    split at run
    · cases run
      assumption
    · cases run

theorem Work.step_moves {w w' : Work} {job : Job} {jobs : List Job} (next : w.jobs = job :: jobs)
    (step : w.step fuel returnType = some (.ok w')) : job.Moves w.context w'.context := by
  rw [Work.step, next] at step
  obtain ⟨⟨more, s', decls'⟩, run, step⟩ := ok_of_bind (Option.some.inj step)
  cases step
  exact codegenJob_moves run

end Jobs

/-! ### After a declaration -/

/-- Whether each of the blocks that were opened since a declaration of a name, the innermost first,
declares it again. There is none where the block of the declaration ends, or declares the name
itself. -/
def shadowing (name : Name) (shadows : List Bool) : Job → Option (List Bool)
  | .enter => some (false :: shadows)
  | .leave =>
    match shadows with
    | [] => none
    | _ :: outer => some outer
  | .declare symbol _ =>
    if symbol.name = some name then
      match shadows with
      | [] => none
      | _ :: outer => some (true :: outer)
    else some shadows
  | _ => some shadows

/-- The code generator goes on from a declaration, until its block ends or declares the name again. -/
inductive Since (fuel : Nat) (returnType : AstType) (name : Name) (w : Work) : List Bool → Work → Prop where
  | here : Since fuel returnType name w [] w
  | step {shadows shadows' : List Bool} {w' w'' : Work} {job : Job} {jobs : List Job} :
    Since fuel returnType name w shadows w' → w'.jobs = job :: jobs → shadowing name shadows job = some shadows' →
    w'.step fuel returnType = some (.ok w'') → Since fuel returnType name w shadows' w''

/-- Only a member of an interface has the name in a scope that does not declare it. -/
def Undeclared (name : Name) (shadow : Bool) (symbols : List CodegenSymbol) : Prop :=
  shadow = false → ∀ symbol ∈ symbols, symbol.name = some name → symbol.kind = .INTERFACE_FUNCTION

/-- The symbol of a declaration stays where it is. -/
structure Remains (name : Name) (before : Context) (symbol : CodegenSymbol) (inner : List (List CodegenSymbol))
    (added : List CodegenSymbol) (shadows : List Bool) (c : Context) : Prop where
  scopes : c.scopes = inner ++ (before.symbols ++ symbol :: added) :: before.prev
  undeclared : List.Forall₂ (Undeclared name) shadows inner

section Runs
variable {name : Name} {before c c' : Context} {symbol : CodegenSymbol} {inner : List (List CodegenSymbol)}
  {added : List CodegenSymbol} {shadows shadows' : List Bool}

/-- Symbols come in behind those of the block of the declaration. -/
theorem Remains.grow_block (remains : Remains name before symbol inner added [] c) {more : List CodegenSymbol}
    (prev : c'.prev = c.prev) (symbols : c'.symbols = c.symbols ++ more) :
    Remains name before symbol [] (added ++ more) [] c' := by
  obtain ⟨scopes, undeclared⟩ := remains
  cases undeclared
  obtain ⟨block, outer⟩ := List.cons.inj scopes
  exact ⟨by simp [Context.scopes, prev, symbols, block, outer], .nil⟩

/-- Symbols come in behind those of a block inside. -/
theorem Remains.grow_inner {shadow shadow' : Bool} {outer : List Bool}
    (remains : Remains name before symbol inner added (shadow :: outer) c) {more : List CodegenSymbol}
    (prev : c'.prev = c.prev) (symbols : c'.symbols = c.symbols ++ more)
    (undeclared : Undeclared name shadow c.symbols → Undeclared name shadow' (c.symbols ++ more)) :
    ∃ inner, Remains name before symbol inner added (shadow' :: outer) c' := by
  obtain ⟨scopes, all⟩ := remains
  cases all with
  | cons first rest =>
    obtain ⟨head, tail⟩ := List.cons.inj scopes
    rw [← head] at first
    exact ⟨_, by simp [Context.scopes, prev, symbols, tail], .cons (undeclared first) rest⟩

theorem Remains.extends (remains : Remains name before symbol inner added shadows c) (grows : c.Extends c') :
    ∃ inner added, Remains name before symbol inner added shadows c' := by
  obtain ⟨more, symbols, plain⟩ := grows.symbols
  cases shadows with
  | nil => exact ⟨_, _, remains.grow_block grows.prev symbols⟩
  | cons shadow outer =>
    have quiet : Undeclared name shadow c.symbols → Undeclared name shadow (c.symbols ++ more) := by
      intro first clear s member named
      obtain old | new := List.mem_append.mp member
      · exact first clear s old named
      · exact (plain s new).1
    obtain ⟨inner, grown⟩ := remains.grow_inner grows.prev symbols quiet
    exact ⟨inner, added, grown⟩

theorem Remains.moves (remains : Remains name before symbol inner added shadows c) {job : Job} (moves : job.Moves c c')
    (shadowed : shadowing name shadows job = some shadows') :
    ∃ inner added, Remains name before symbol inner added shadows' c' := by
  cases job with
  | enter =>
    cases shadowed
    cases moves
    exact ⟨[] :: inner, added, congrArg _ remains.scopes,
      .cons (fun _ _ member => absurd member List.not_mem_nil) remains.undeclared⟩
  | leave =>
    cases shadows with
    | nil => cases shadowed
    | cons shadow outer =>
      cases shadowed
      obtain ⟨scopes, all⟩ := remains
      cases all with
      | cons first rest =>
        obtain ⟨head, tail⟩ := List.cons.inj scopes
        obtain ⟨symbols, first, same⟩ := Option.map_eq_some_iff.mp moves
        refine ⟨_, added, ?_, rest⟩
        rw [← same]
        exact (List.cons_head?_tail first).trans tail
  | declare new decl =>
    obtain ⟨n, same⟩ := moves
    have prev : c'.prev = c.prev := by rw [same]; rfl
    have symbols : c'.symbols = c.symbols ++ [{ new with decl := some n }] := by rw [same]; rfl
    cases shadows with
    | nil =>
      simp only [shadowing] at shadowed
      split at shadowed
      · cases shadowed
      · cases shadowed
        exact ⟨_, _, remains.grow_block prev symbols⟩
    | cons shadow outer =>
      simp only [shadowing] at shadowed
      split at shadowed
      · cases shadowed
        have covered : Undeclared name true (c.symbols ++ [{ new with decl := some n }]) := by
          intro never
          cases never
        obtain ⟨inner, grown⟩ := remains.grow_inner prev symbols fun _ => covered
        exact ⟨inner, added, grown⟩
      · cases shadowed
        have same : Undeclared name shadow c.symbols → Undeclared name shadow (c.symbols ++ [{ new with decl := some n }]) := by
          intro first clear s member named
          obtain old | new := List.mem_append.mp member
          · exact first clear s old named
          · obtain rfl := List.mem_singleton.mp new
            contradiction
        obtain ⟨inner, grown⟩ := remains.grow_inner prev symbols same
        exact ⟨inner, added, grown⟩
  | stmt | decl | expr | test | start =>
    cases shadowed
    exact remains.extends moves

/-- The symbol of a declaration stays as long as its block is open. -/
theorem Since.remains {fuel : Nat} {returnType : AstType} {w w' : Work}
    (initial : Remains name before symbol [] [] [] w.context)
    (since : Since fuel returnType name w shadows w') :
    ∃ inner added, Remains name before symbol inner added shadows w'.context := by
  induction since with
  | here => exact ⟨_, _, initial⟩
  | step _ next shadowed step ih =>
    obtain ⟨inner, added, remains⟩ := ih
    exact remains.moves (Work.step_moves next step) shadowed

theorem declared_remains {fuel : Nat} {returnType : AstType} {w w' : Work} {decl : Decl} {jobs : List Job}
    (declares : w.jobs = .declare symbol decl :: jobs) (step : w.step fuel returnType = some (.ok w')) :
    Remains name w.context { symbol with decl := some w.decls.length } [] [] [] w'.context := by
  rw [Work.step, declares] at step
  cases step
  exact ⟨rfl, .nil⟩

theorem quiet_iff (undeclared : List.Forall₂ (Undeclared name) shadows inner) (visible : ∀ shadow ∈ shadows, shadow = false)
    {symbols : List CodegenSymbol} (member : symbols ∈ inner) :
    (∀ s ∈ symbols, s.kind = .INTERFACE_FUNCTION → s.name ≠ some name) ↔ Lacks name symbols := by
  obtain ⟨i, inside, same⟩ := List.mem_iff_getElem.mp member
  have below : i < shadows.length := undeclared.length_eq ▸ inside
  have only := undeclared.get below inside (visible _ (List.getElem_mem below))
  rw [List.get_eq_getElem, same] at only
  exact ⟨fun quiet s of named => quiet s of (only s of named) named, fun lacks s of _ => lacks s of⟩

end Runs

/-- From the end of a declaration to the end of its block or the next declaration of its name, the
name stands for its symbol in the block, and in each block inside that does not declare it again,
just where the block had no symbol of the name before it, and no interface has brought a member of
the name into an open block inside. The name may be looked up in the middle of an expression. -/
theorem declaration_found_iff (fuel : Nat) (returnType : AstType) {w₀ w₁ w₂ : Work} {symbol : CodegenSymbol} {decl : Decl}
    {jobs : List Job} {name : Name} {shadows : List Bool} {c : Context}
    (declares : w₀.jobs = .declare symbol decl :: jobs) (named : symbol.name = some name)
    (step : w₀.step fuel returnType = some (.ok w₁)) (since : Since fuel returnType name w₁ shadows w₂)
    (visible : ∀ shadow ∈ shadows, shadow = false) (grows : w₂.context.Extends c) :
    (symbolPlace name c.scopes = some (w₀.context.prev.length, w₀.context.symbols.length) ∧
        c.findSymbol name = some { symbol with decl := some w₀.decls.length }) ↔
      Lacks name w₀.context.symbols ∧ ∀ symbols ∈ c.scopes.take shadows.length,
        ∀ s ∈ symbols, s.kind = .INTERFACE_FUNCTION → s.name ≠ some name := by
  obtain ⟨_, _, until_⟩ := since.remains (declared_remains declares step)
  obtain ⟨inner, added, scopes, undeclared⟩ := until_.extends grows
  have same : ({ symbol with decl := some w₀.decls.length } : CodegenSymbol).name = some name := named
  have inside : c.scopes.take shadows.length = inner := by rw [scopes, List.take_left' undeclared.length_eq.symm]
  have lacks : (∀ symbols ∈ inner, ∀ s ∈ symbols, s.kind = .INTERFACE_FUNCTION → s.name ≠ some name) ↔
      ∀ symbols ∈ inner, Lacks name symbols :=
    forall₂_congr fun symbols member => quiet_iff undeclared visible member
  rw [inside, lacks, scopes]
  constructor
  · exact fun found => (place_iff same).mp found.1
  · exact fun clear => ⟨(place_iff same).mpr clear, findSymbol_place scopes same clear.1 clear.2⟩

/-- `var int32 x`. -/
def declaresX : Decl := ⟨⟨0, 0⟩, .variableDecl (.mk 0 (.integerType 32)) [120] none⟩

def Work.body (items : List (BlockItem Stmt)) : Work where
  building := ⟨⟨[], []⟩, [], 0, 0, 0, []⟩
  decls := []
  jobs := [.stmt false (.mk ⟨0, 0⟩ (.compoundStmt items))]

def Work.after (fuel : Nat) (returnType : AstType) : Nat → Work → Except CodegenError Work
  | 0, w => pure w
  | n + 1, w => do
    let some next := w.step fuel returnType | pure w
    (← next).after fuel returnType n

def symbolX (n : Nat) : CodegenSymbol :=
  ⟨.INVALID, some [120], some (.mk 0 (.integerType 32)), some (.result n (.ptr (.int 32))), none, none, 0, true⟩

def startX : Job := .start (.mk 0 (.integerType 32)) (.int 32) (.result 0 (.ptr (.int 32)))

def Work.declaring (jobs : List Job) : Work where
  building := ⟨⟨[], [[]]⟩, [.op (.alloca (.int 32))], 1, 0, 0, []⟩
  decls := []
  jobs := .declare (symbolX 0) declaresX :: startX :: jobs

def Work.declared (ops : List Op) (jobs : List Job) : Work where
  building := ⟨⟨[{ symbolX 0 with decl := some 0 }], [[]]⟩, (.alloca (.int 32) :: ops).map .op, ops.length + 1, 0, 0, []⟩
  decls := [declaresX]
  jobs

/-- `{ var int32 x { } }`, looked up in the inner block. -/
theorem declaration_found_inside : ∃ w₂ : Work,
    (Work.body [.declItem declaresX, .stmtItem (some (.mk ⟨0, 0⟩ (.compoundStmt [])))]).after 2 .zero 7 = .ok w₂ ∧
      w₂.context.prev.length = 2 ∧ symbolPlace [120] w₂.context.scopes = some (1, 0) := by
  let inner : Stmt := .mk ⟨0, 0⟩ (.compoundStmt [])
  let zero : Op := .store (.constNull (.int 32)) (.result 0 (.ptr (.int 32)))
  have zeroed : Since 2 .zero [120] (Work.declared [] [startX, .stmt false inner, .leave]) []
      (Work.declared [zero] [.stmt false inner, .leave]) := .step .here rfl rfl rfl
  have begun : Since 2 .zero [120] _ [] (Work.declared [zero] [.enter, .leave, .leave]) := .step zeroed rfl rfl rfl
  have opened : Since 2 .zero [120] _ [false] _ := .step begun rfl rfl rfl
  refine ⟨_, rfl, rfl, ?_⟩
  have first : (Work.declaring [.stmt false inner, .leave]).step 2 .zero =
      some (.ok (Work.declared [] [startX, .stmt false inner, .leave])) := rfl
  refine ((declaration_found_iff 2 .zero rfl rfl first opened (by decide) (.refl _)).mpr ⟨nofun, ?_⟩).1
  intro symbols member s of
  obtain rfl := List.mem_singleton.mp member
  cases of

/-- In `{ var int32 x var int32 x }` the second declaration is not found, right after it. -/
theorem redeclaration_not_found : ∃ (w₀ w₁ : Work) (symbol : CodegenSymbol) (decl : Decl) (jobs : List Job),
    (Work.body [.declItem declaresX, .declItem declaresX]).after 2 .zero 6 = .ok w₀ ∧
      w₀.jobs = .declare symbol decl :: jobs ∧ symbol.name = some [120] ∧ w₀.step 2 .zero = some (.ok w₁) ∧
      Since 2 .zero [120] w₁ [] w₁ ∧
      symbolPlace [120] w₁.context.scopes ≠ some (w₀.context.prev.length, w₀.context.symbols.length) := by
  let zero : Op := .store (.constNull (.int 32)) (.result 0 (.ptr (.int 32)))
  let start : Job := .start (.mk 0 (.integerType 32)) (.int 32) (.result 2 (.ptr (.int 32)))
  refine ⟨Work.declared [zero, .alloca (.int 32)] [.declare (symbolX 2) declaresX, start, .leave], _, _, _, _, rfl, rfl, rfl,
    rfl, .here, ?_⟩
  decide

end Low
