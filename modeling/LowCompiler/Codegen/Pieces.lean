import LowCompiler.Codegen.InterfaceTables
import LowCompiler.Codegen.Jobs
import LowCompiler.Codegen.Shapes

/-!
# Expressions are made of pieces

What `codegenExpr` builds for an expression is made of the pieces that `codegenStmt`
takes from its generator: single instructions, conditions with two branches, checks and
loops. A builder of blocks that emits the pieces has the graph that the code generator
has.
-/

namespace Low

open Stateful
open Llvm (Op Ty)

/-- The builder has the blocks of the code generator, and stands in the same. -/
structure Builder.Matches (b : Builder (Nat × Op) Llvm.Value) (s : Building) : Prop where
  numbered : s.Numbered
  length : b.blocks.length = s.blocks
  inside : s.current < s.blocks
  current : b.current = s.current
  block : ∀ n, b.block n = s.block n

namespace Builder.Matches
variable {b : Builder (Nat × Op) Llvm.Value} {s s' : Building}

/-- An instruction is built in the current block. -/
theorem emits (same : b.Matches s) {e : Emitted} {instr : LlvmInstr} (is : s.walk.instr e = some instr) :
    (b.build instr).Matches (s.push e) where
  numbered := Building.numbered_push same.numbered e
  length := by simp [same.length]
  inside := by
    rw [Building.push_current, Building.push_blocks]
    cases e <;> cases is <;> exact same.inside
  current := by
    rw [Building.push_current, Builder.build_current]
    cases e <;> cases is <;> exact same.current
  block := by
    intro n
    have inside : b.current < b.blocks.length := by
      rw [same.current, same.length]
      exact same.inside
    rw [Builder.build_block b n instr inside, Building.push_block, is, same.current, same.block]
    rfl

theorem op (same : b.Matches s) (op : Op) : (b.build (.plain (s.results, op))).Matches (s.push (.op op)) :=
  same.emits (by rw [Walk.instr, Building.walk_count, ← show s.results = s.ops.length from same.numbered])

theorem append (same : b.Matches s) : b.appendBlock.Matches s.append where
  numbered := same.numbered
  length := by simp [same.length]
  inside := Nat.lt_succ_of_lt same.inside
  current := same.current
  block := fun n => by simpa using same.block n

theorem positionAtEnd (same : b.Matches s) {n : Nat} (there : n < s.blocks) :
    (b.positionAtEnd n).Matches (s.push (.position n)) where
  numbered := Building.numbered_push same.numbered _
  length := same.length
  inside := by simpa using there
  current := by simp
  block := fun m => by
    rw [Building.push_block]
    simpa [Walk.instr] using same.block m

/-- A block ends, and the builder goes on in another. -/
theorem enter (same : b.Matches s) {e : Emitted} {instr : LlvmInstr} (is : s.walk.instr e = some instr) {n : Nat}
    (there : n < s.blocks) : ((b.build instr).positionAtEnd n).Matches (s.enter e n) :=
  (same.emits is).positionAtEnd there

/-- Nothing is emitted. -/
theorem quiet (same : b.Matches s) (emitted : s'.emitted = s.emitted) (results : s'.results = s.results)
    (blocks : s'.blocks = s.blocks) : b.Matches s' where
  numbered := by
    rw [Building.Numbered, Building.ops, emitted, results]
    exact same.numbered
  length := same.length.trans blocks.symm
  inside := by
    rw [Building.current, Building.walk, emitted, blocks]
    exact same.inside
  current := by
    rw [Building.current, Building.walk, emitted]
    exact same.current
  block := by
    rw [Building.block, Building.walk, emitted]
    exact same.block

end Builder.Matches

theorem Builder.emit_append {I V : Type} (b : Builder I V) (pieces more : List (ExprPiece I V)) :
    b.emit (pieces ++ more) = (b.emit pieces).emit more := by
  induction pieces generalizing b with
  | nil => rfl
  | cons piece pieces ih => exact ih _

abbrev Pieces := List (ExprPiece (Nat × Op) Llvm.Value)

namespace Building

/-- The pieces come between two states of the code generator. -/
def Wrote (pieces : Pieces) (s s' : Building) : Prop :=
  ∀ b : Builder (Nat × Op) Llvm.Value, b.Matches s → (b.emit pieces).Matches s'

namespace Wrote
variable {pieces more onTrue onFalse : Pieces} {s s' s'' : Building}

theorem trans (first : Wrote pieces s s') (second : Wrote more s' s'') : Wrote (pieces ++ more) s s'' := fun b same => by
  rw [Builder.emit_append]
  exact second _ (first b same)

theorem op (op : Op) : Wrote [.instr (s.results, op)] s (s.push (.op op)) := fun _ same => same.op op

theorem quiet (emitted : s'.emitted = s.emitted) (results : s'.results = s.results) (blocks : s'.blocks = s.blocks) :
    Wrote [] s s' := fun _ same => same.quiet emitted results blocks

theorem op_cons {op : Op} (rest : Wrote pieces (s.push (.op op)) s') : Wrote (.instr (s.results, op) :: pieces) s s' :=
  (Wrote.op op).trans rest

/-- The blocks of a builder that matches are those of the code generator. -/
theorem blocks {b : Builder (Nat × Op) Llvm.Value} (same : b.Matches s) (wrote : Wrote pieces s s') : s.blocks ≤ s'.blocks := by
  rw [← same.length, ← (wrote b same).length]
  exact (Builder.emit_grows b pieces).length

/-- Two branches that meet again. -/
theorem diamond {condition : Llvm.Value}
    (true : Wrote onTrue (s.append.append.append.enter (.condBr condition s.blocks (s.blocks + 1)) s.blocks) s')
    (false : Wrote onFalse (s'.enter (.br (s.blocks + 2)) (s.blocks + 1)) s'') :
    Wrote [.diamond condition onTrue onFalse] s (s''.enter (.br (s.blocks + 2)) (s.blocks + 2)) := by
  intro b same
  have opened := same.append.append.append.enter (e := .condBr condition s.blocks (s.blocks + 1)) rfl
    (n := s.blocks) (by simp; omega)
  have grown : s.blocks + 3 ≤ s'.blocks := true.blocks opened
  have between := (true _ opened).enter (e := .br (s.blocks + 2)) rfl (n := s.blocks + 1) (by omega)
  have grown' := false.blocks between
  rw [enter_blocks] at grown'
  have last := (false _ between).enter (e := .br (s.blocks + 2)) rfl (n := s.blocks + 2) (by omega)
  simpa only [Builder.emit, Builder.emitPiece, same.length] using last

/-- A branch that comes back. -/
theorem check {condition : Llvm.Value}
    (true : Wrote onTrue (s.append.append.enter (.condBr condition s.blocks (s.blocks + 1)) s.blocks) s') :
    Wrote [.check condition onTrue] s (s'.enter (.br (s.blocks + 1)) (s.blocks + 1)) := by
  intro b same
  have opened := same.append.append.enter (e := .condBr condition s.blocks (s.blocks + 1)) rfl (n := s.blocks) (by simp)
  have grown : s.blocks + 2 ≤ s'.blocks := true.blocks opened
  have last := (true _ opened).enter (e := .br (s.blocks + 1)) rfl (n := s.blocks + 1) (by omega)
  simpa only [Builder.emit, Builder.emitPiece, same.length] using last

theorem loop {condition : Llvm.Value}
    (head : Wrote onTrue (s.append.append.append.enter (.br s.blocks) s.blocks) s')
    (body : Wrote onFalse (s'.enter (.condBr condition (s.blocks + 1) (s.blocks + 2)) (s.blocks + 1)) s'') :
    Wrote [.loop onTrue condition onFalse] s (s''.enter (.br s.blocks) (s.blocks + 2)) := by
  intro b same
  have opened := same.append.append.append.enter (e := .br s.blocks) rfl (n := s.blocks) (by simp; omega)
  have grown : s.blocks + 3 ≤ s'.blocks := head.blocks opened
  have between := (head _ opened).enter (e := .condBr condition (s.blocks + 1) (s.blocks + 2)) rfl (n := s.blocks + 1)
    (by omega)
  have grown' := body.blocks between
  rw [enter_blocks] at grown'
  have last := (body _ between).enter (e := .br s.blocks) rfl (n := s.blocks + 2) (by omega)
  simpa only [Builder.emit, Builder.emitPiece, same.length] using last

end Wrote

end Building

/-! ### Programs -/

open Building (Wrote)

/-- What a program emits is made of pieces. -/
def Pieced {α : Type} (m : Codegen α) : Prop :=
  ∀ s a s', m s = .ok (a, s') → ∃ pieces, Wrote pieces s s'

namespace Pieced
variable {α β : Type} {m : Codegen α} {k : α → Codegen β} {fuel : Nat}

theorem bind (first : Pieced m) (rest : ∀ a, Pieced (k a)) : Pieced (m >>= k) := by
  intro s b s' run
  obtain ⟨a, s₁, run, later⟩ := bind_ok.mp run
  obtain ⟨pieces, wrote⟩ := first s a s₁ run
  obtain ⟨more, wrote'⟩ := rest a s₁ b s' later
  exact ⟨_, wrote.trans wrote'⟩

theorem quiet (same : ∀ s a s', m s = .ok (a, s') → s'.emitted = s.emitted ∧ s'.results = s.results ∧ s'.blocks = s.blocks) :
    Pieced m := fun s a s' run =>
  ⟨[], .quiet (same s a s' run).1 (same s a s' run).2.1 (same s a s' run).2.2⟩

theorem throw (e : CodegenError) : Pieced (throw e : Codegen α) := fun _ _ _ run => nomatch run

theorem pure (a : α) : Pieced (Pure.pure a : Codegen α) := quiet fun s a s' run => by
  cases run
  exact ⟨rfl, rfl, rfl⟩

theorem get : Pieced (MonadState.get : Codegen Building) := quiet fun s a s' run => by
  cases run
  exact ⟨rfl, rfl, rfl⟩

theorem present (a : Option α) : Pieced (Low.present a : Codegen α) := by
  cases a with
  | none => exact throw _
  | some a => exact pure a

theorem mapM {f : α → Codegen β} (turn : ∀ x, Pieced (f x)) (xs : List α) : Pieced (xs.mapM f) := by
  induction xs with
  | nil => exact pure []
  | cons x xs ih =>
    rw [List.mapM_cons]
    exact (turn x).bind fun b => ih.bind fun bs => pure _

theorem build (op : Op) : Pieced (Low.build op) := fun s a s' run => by
  cases run
  exact ⟨_, .op op⟩

theorem llvmType (type : AstType) : Pieced (Low.llvmType fuel type) := quiet fun s t s' run => by
  rw [Low.llvmType] at run
  split at run
  · cases run
    exact ⟨rfl, rfl, rfl⟩
  · cases run

theorem resolved (type : AstType) : Pieced (Low.resolved fuel type) := quiet fun s t s' run => by
  obtain ⟨_, rfl⟩ := resolved_ok run
  exact ⟨rfl, rfl, rfl⟩

theorem addTable (fields : List Llvm.Value) : Pieced (Low.addTable fields) := quiet fun s t s' run => by
  cases run
  exact ⟨rfl, rfl, rfl⟩

theorem noLvalue (lvalue : Bool) (message : String) : Pieced (Low.noLvalue lvalue message) := by
  cases lvalue with
  | true => exact throw _
  | false => exact pure ()

theorem loadUnless (lvalue : Bool) (ptr : Llvm.Value) : Pieced (Low.loadUnless lvalue ptr) := by
  cases lvalue with
  | true => exact pure ptr
  | false => exact build _

theorem spillUnless (lvalue : Bool) (result : Llvm.Value) : Pieced (Low.spillUnless lvalue result) := by
  cases lvalue with
  | true => exact (build _).bind fun ptr => (build _).bind fun _ => pure ptr
  | false => exact pure result

/-- The check that traps. -/
theorem buildAssert (condition : Llvm.Value) : Pieced (Low.buildAssert condition) := by
  intro s a s' run
  cases (Building.buildAssert_run s condition).symm.trans run
  exact ⟨_, .op_cons (.check (s := s.push (.op (.not condition))) (.op (.call .trap [])))⟩

theorem arrayNew (element : Ty) (size : Llvm.Value) : Pieced (codegenArrayNew element size) := by
  intro s a s' run
  obtain ⟨rfl, rfl⟩ := Prod.mk.inj (Except.ok.inj ((Building.codegenArrayNew_run s element size).symm.trans run))
  refine ⟨_, .op_cons (.op_cons (.op_cons (.loop (.op_cons (.op _)) (.op_cons (.op_cons (.op_cons (.op _)))))))⟩

theorem slot {decls : List Decl} {loc : Loc} (castType refd : AstType) (structMembers : List (StructMember AstType))
    (target : Llvm.Value) (member : InterfaceMember AstType) :
    Pieced (codegenSlot fuel decls loc castType refd structMembers target member) := by
  cases member with
  | function name returnType args =>
    refine get.bind fun s => ?_
    split
    case h_2 => exact throw _
    case h_1 =>
      refine get.bind fun s => ?_
      split
      case h_2 => exact throw _
      case h_1 =>
        refine (mapM (fun arg => ?_) args).bind fun _ => (llvmType _).bind fun _ => (present _).bind fun _ => build _
        split
        · exact pure _
        · exact llvmType _
  | field name fieldType =>
    simp only [codegenSlot]
    split
    case h_2 => exact throw _
    case h_1 =>
      split
      · exact (throw _).bind fun _ => build _
      · exact build _

section Expressions
variable {decls : List Decl} {codegen : Expr → Bool → Codegen Llvm.Value} {loc : Loc} {type : AstType}
  (below : ∀ expr lvalue, Pieced (codegen expr lvalue))
include below

theorem conditionalExpr (condition trueExpr falseExpr : Expr) (lvalue : Bool) :
    Pieced (codegenConditionalExpr fuel codegen condition trueExpr falseExpr lvalue) := by
  intro s v s' run
  obtain ⟨cond, s₁, trueValue, s₂, falseValue, s₃, t, s₄, condRun, trueRun, falseRun, translated, rfl, rfl⟩ :=
    codegenConditionalExpr_ok run
  obtain ⟨_, first⟩ := below _ _ _ _ _ condRun
  obtain ⟨_, true⟩ := below _ _ _ _ _ trueRun
  obtain ⟨_, false⟩ := below _ _ _ _ _ falseRun
  obtain ⟨_, typed⟩ := llvmType _ _ _ _ translated
  exact ⟨_, first.trans ((true.diamond false).trans (typed.trans (.op _)))⟩

theorem sliceSlice (target : Expr) (start stop : Option Expr) (kind : IndexSliceKind) :
    Pieced (buildSliceSlice codegen target start stop kind) := by
  have bound (expr : Option Expr) : Pieced (codegenBound codegen expr) := by
    cases expr with
    | none => exact pure _
    | some expr =>
      dsimp only [codegenBound]
      split <;> split <;> first
        | exact below _ _
        | exact (throw _).bind fun _ => below _ _
  have measured (condition slice newLen : Llvm.Value) (type : Ty) : Pieced (do
      let trueBlock ← appendBlock
      let falseBlock ← appendBlock
      let exitBlock ← appendBlock
      emit (.condBr condition trueBlock falseBlock)
      emit (.position trueBlock)
      let sliceLen ← Low.build (.insertValue slice newLen 1)
      emit (.br exitBlock)
      emit (.position falseBlock)
      emit (.br exitBlock)
      emit (.position exitBlock)
      Low.build (.phi type [(sliceLen, trueBlock), (slice, falseBlock)])) := by
    intro s a s' run
    obtain ⟨rfl, rfl⟩ : Llvm.Value.result (s.results + 1) type = a ∧ s.measured condition slice newLen type = s' :=
      Prod.mk.inj (Except.ok.inj run)
    exact ⟨_, (Wrote.diamond (.op _) (.quiet rfl rfl rfl)).trans (.op _)⟩
  unfold buildSliceSlice
  refine (below _ _).bind fun value => ?_
  split
  · exact build _
  · refine (bound _).bind fun _ => (bound _).bind fun _ => (build _).bind fun _ => (build _).bind fun _ => ?_
    refine (build _).bind fun _ => (build _).bind fun _ => (build _).bind fun _ => (build _).bind fun _ => ?_
    refine (build _).bind fun _ => (build _).bind fun _ => ?_
    exact (build _).bind fun _ => (build _).bind fun _ => (build _).bind fun _ => (build _).bind fun _ => measured _ _ _ _

end Expressions

end Pieced

/-- What is emitted for an expression is made of pieces. -/
theorem codegenExpr_pieced (decls : List Decl) (fuel : Nat) (expr : Expr) (lvalue : Bool) :
    Pieced (codegenExpr decls fuel expr lvalue) := by
  induction fuel generalizing expr lvalue with
  | zero => exact .throw .fuel
  | succ fuel ih =>
    have below (expr : Expr) (lvalue : Bool) : Pieced (codegenExpr decls fuel expr lvalue) := ih expr lvalue
    obtain ⟨loc, type, kind⟩ := expr
    cases kind
    all_goals
      simp only [codegenExpr, codegenIdentExpr, codegenStringLiteralExpr, codegenNumberLiteralExpr, codegenIndexAccessExpr,
        codegenIndexSliceExpr, buildSliceArray, codegenCallExpr, codegenMemberCall, codegenArgs, codegenMemberAccessExpr,
        codegenIncdecExpr, codegenUnaryExpr, codegenExprSizeof, codegenTypeSizeof, codegenSizeof, codegenCastExpr,
        codegenInterfaceCast, codegenBinaryExpr, codegenAssignmentExpr, codegenCommaExpr, codegenNewBuiltinExpr,
        codegenFreeBuiltinExpr, codegenMakeBuiltinExpr, codegenLencapBuiltinExpr, codegenDisposeBuiltinExpr]
      -- All but the conditional and the end of a slice is one step after the other.
      repeat' with_reducible first
        | exact below _ _
        | exact .conditionalExpr below _ _ _ _
        | exact .sliceSlice below _ _ _ _
        | exact .slot _ _ _ _ _
        | exact .build _
        | exact .llvmType _
        | exact .resolved _
        | exact .throw _
        | exact .pure _
        | exact .get
        | exact .present _
        | exact .addTable _
        | exact .noLvalue _ _
        | exact .loadUnless _ _
        | exact .spillUnless _ _
        | exact .buildAssert _
        | exact .arrayNew _ _
        | refine .bind ?_ fun _ => ?_
        | refine .mapM (fun _ => ?_) _
        | split

/-! ### Jobs -/

section Jobs
variable {α β : Type} {fuel : Nat} {returnType : AstType} {w w' : Work}

/-- What is emitted while jobs are done is made of pieces. -/
def PiecedWork (m : Working α) : Prop :=
  ∀ r a r', m r = .ok (a, r') → ∃ pieces, Wrote pieces r.1 r'.1

namespace PiecedWork
variable {m : Working α} {k : α → Working β}

theorem bind (first : PiecedWork m) (rest : ∀ a, PiecedWork (k a)) : PiecedWork (m >>= k) := by
  intro r b r' run
  obtain ⟨a, r₁, run, later⟩ := bind_ok.mp run
  obtain ⟨_, wrote⟩ := first r a r₁ run
  obtain ⟨_, wrote'⟩ := rest a r₁ b r' later
  exact ⟨_, wrote.trans wrote'⟩

theorem throw (e : CodegenError) : PiecedWork (throw e : Working α) := fun _ _ _ run => nomatch run

theorem pure (a : α) : PiecedWork (Pure.pure a : Working α) := fun _ _ _ run => by
  cases run
  exact ⟨[], .quiet rfl rfl rfl⟩

theorem built {m : Codegen α} (pieced : Pieced m) : PiecedWork (built m) := by
  rintro ⟨s, decls⟩ a ⟨s', decls'⟩ run
  obtain ⟨⟨a', s₁⟩, ran, run⟩ := ok_of_bind run
  cases run
  exact pieced s a s' ran

theorem prepared (m : Prepare α) : PiecedWork (prepared m) := by
  rintro ⟨s, decls⟩ a ⟨s', decls'⟩ run
  obtain ⟨⟨a', decls₁⟩, ran, run⟩ := ok_of_bind run
  cases run
  exact ⟨[], .quiet rfl rfl rfl⟩

theorem top (expr : Expr) (hint : Hint) : PiecedWork (codegenExprTop fuel expr hint) := by
  rintro ⟨s, decls⟩ a ⟨s', decls'⟩ run
  obtain ⟨⟨expr', decls₁⟩, _, run⟩ := ok_of_bind run
  obtain ⟨⟨value, s₁⟩, generated, run⟩ := ok_of_bind run
  cases run
  exact codegenExpr_pieced decls' fuel expr' false s value s' generated

theorem constGlobal (t : Ty) : Pieced (constGlobal t) := .quiet fun s a s' run => by
  cases run
  exact ⟨rfl, rfl, rfl⟩

theorem decl (decl : Decl) : PiecedWork (codegenDecl fuel decl) := by
  obtain ⟨loc, kind⟩ := decl
  cases kind with
  | variableDecl type name initial =>
    simp only [codegenDecl]
    split
    · exact (built (.llvmType _)).bind fun _ => (built (.build _)).bind fun _ => pure _
    · cases initial with
      | none => exact throw _
      | some initial =>
        refine (top _ _).bind fun result => ?_
        split
        · exact (throw _).bind fun _ => (prepared _).bind fun _ => (built ((Pieced.llvmType _).bind fun _ => .build _)).bind
            fun _ => (built (.build _)).bind fun _ => pure _
        · exact (prepared _).bind fun _ => (built ((Pieced.llvmType _).bind fun _ => .build _)).bind
            fun _ => (built (.build _)).bind fun _ => pure _
  | constDecl name type value =>
    cases type with
    | none => exact pure _
    | some type => exact (top _ _).bind fun _ => (built ((Pieced.llvmType _).bind fun _ => constGlobal _)).bind fun _ => pure _
  | implementationDecl interface target mappings => exact pure _

theorem initial (type : AstType) (t : Ty) (var : Llvm.Value) : PiecedWork (codegenInitial fuel type t var) := by
  have get : PiecedWork (MonadState.get : Working (Building × List Decl)) := fun _ _ _ run => by
    cases run
    exact ⟨[], .quiet rfl rfl rfl⟩
  have written (value : Expr) : PiecedWork (setLastInitial value) := fun _ _ _ run => by
    cases run
    exact ⟨[], .quiet rfl rfl rfl⟩
  refine get.bind fun r => ?_
  split
  · exact (built (.build _)).bind fun _ => pure ()
  · refine (top _ _).bind fun result => (written _).bind fun _ => ?_
    split
    · exact (throw _).bind fun _ => (built (.build _)).bind fun _ => pure ()
    · exact (built (.build _)).bind fun _ => pure ()

theorem job (job : Job) : PiecedWork (codegenJob fuel returnType job) := by
  cases job with
  | stmt inLoop stmt =>
    intro r more r' run
    dsimp only [codegenJob] at run
    cases leads : stmtJobs returnType inLoop stmt <;> rw [leads] at run <;> cases run
    exact ⟨[], .quiet rfl rfl rfl⟩
  | decl item => exact decl item
  | expr expr hint => exact (top _ _).bind fun _ => pure _
  | test loc expr =>
    refine (top _ _).bind fun result => ?_
    dsimp only
    split
    · exact (throw _).bind fun _ => pure _
    · exact pure _
  | start type t var => exact (initial _ _ _).bind fun _ => pure _
  | declare symbol item | enter =>
    rintro ⟨s, decls⟩ more r' run
    cases run
    exact ⟨[], .quiet rfl rfl rfl⟩
  | leave =>
    rintro ⟨s, decls⟩ more r' run
    dsimp only [codegenJob] at run
    split at run <;> cases run
    exact ⟨[], .quiet rfl rfl rfl⟩

end PiecedWork

/-- The code of a run is made of pieces. -/
theorem Work.Runs.wrote (run : w.Runs fuel returnType w') : ∃ pieces, Wrote pieces w.building w'.building := by
  induction run with
  | refl => exact ⟨[], .quiet rfl rfl rfl⟩
  | tail _ step ih =>
    obtain ⟨job, _, more, _, ran, _⟩ := Work.Steps.job step
    obtain ⟨_, before⟩ := ih
    obtain ⟨_, last⟩ := PiecedWork.job job _ _ _ ran
    exact ⟨_, before.trans last⟩

/-! ### The code generator as a generator -/

/-- The expression of a job, with its hint. -/
def Job.asked : Job → Option (Expr × Hint)
  | .expr e hint => some (e, hint)
  | .test _ e => some (e, .type boolType)
  | _ => none

variable (fuel returnType)

/-- A job for the expression comes first at some time, and this is what it builds. -/
inductive Work.Generated (w : Work) (expr : Expr) (hint : Option AstType) : Pieces × Llvm.Value × AstType → Prop where
  | top {w₁ : Work} {job : Job} {rest : List Job} {hint' : Hint} {prepared : Expr} {value : Llvm.Value} {pieces : Pieces}
    {r : Building × List Decl} : w.Runs fuel returnType w₁ → w₁.jobs = job :: rest → job.asked = some (expr, hint') →
    hint'.type? = hint → codegenExprTop fuel expr hint' (w₁.building, w₁.decls) = .ok ((prepared, value), r) →
    Wrote pieces w₁.building r.1 → Generated w expr hint (pieces, value, prepared.type)

/-- The expression is the condition of an `if`. -/
def Work.Tested (w : Work) (expr : Expr) : Prop :=
  ∃ w₁ loc rest, w.Runs fuel returnType w₁ ∧ w₁.jobs = .test loc expr :: rest

/-- The code for a declaration, up to the jobs that were waiting behind it. -/
def Work.Placed (w : Work) (decl : Decl) (pieces : Pieces) : Prop :=
  ∃ w₁ w₂ rest, w.Runs fuel returnType w₁ ∧ w₁.jobs = .decl decl :: rest ∧ w₁.Runs fuel returnType w₂ ∧ w₂.jobs = rest ∧
    Wrote pieces w₁.building w₂.building

open Classical in
/-- `codegen_expr_top` and `codegen_decl`, in the states that the run from `w` calls them in. -/
noncomputable def Work.gen (w : Work) : ExprGen (Nat × Op) Llvm.Value where
  expr expr hint :=
    if h : ∃ r, w.Generated fuel returnType expr hint r ∧
        (hint = some .boolean → w.Tested fuel returnType expr → typeEqual r.2.2 .boolean = true) then some h.choose else none
  decl decl := if h : ∃ pieces, w.Placed fuel returnType decl pieces then some h.choose else none
  param _ := []

variable {fuel returnType} {body : Stmt} {expr : Expr}

theorem Work.gen_expr {hint : Option AstType} {r : Pieces × Llvm.Value × AstType}
    (is : (w.gen fuel returnType).expr expr hint = some r) :
    w.Generated fuel returnType expr hint r := by
  simp only [Work.gen, Option.dite_none_right_eq_some, Option.some.injEq] at is
  obtain ⟨there, rfl⟩ := is
  exact there.choose_spec.1

/-- The condition of an `if` is generated with the type `bool`. -/
theorem Work.Tested.generated (run : w.Runs fuel returnType w') (done : w'.jobs = []) (tested : w.Tested fuel returnType expr) :
    ∃ r, w.Generated fuel returnType expr (some .boolean) r ∧ typeEqual r.2.2 .boolean = true := by
  obtain ⟨w₁, loc, rest, before, first⟩ := tested
  obtain ⟨more, w₂, _, _, ran, _⟩ := Work.Runs.first (run.to_end done before) done first
  obtain ⟨⟨prepared, value⟩, r, top, ran⟩ := bind_ok.mp ran
  obtain ⟨pieces, wrote⟩ := PiecedWork.top expr (.type boolType) _ _ _ top
  refine ⟨_, .top before first rfl rfl top wrote, ?_⟩
  dsimp only at ran
  split at ran
  · cases ran
  · next same => exact (by simpa using same : typeEqual prepared.type boolType = true)

/-- In a run to the end, the code generator builds the blocks of the body with the code of the jobs. -/
theorem codegenStmt_gen (run : w.Runs fuel returnType w') (done : w'.jobs = []) (begins : w.jobs = [.stmt false body])
    (b : Builder (Nat × Op) Llvm.Value) : (codegenStmt (w.gen fuel returnType) ⟨returnType, none, none⟩ b body).isSome := by
  rw [codegenStmt_run_iff _ run done begins]
  intro w₁ job rest before first
  obtain ⟨more, w₂, step, remaining, ran, next⟩ := Work.Runs.first (run.to_end done before) done first
  cases job with
  | stmt | declare | start | enter | leave => trivial
  | expr expr hint =>
    obtain ⟨prepared, value, top⟩ := codegenJob_expr ran
    obtain ⟨pieces, wrote⟩ := PiecedWork.top expr hint _ _ _ top
    by_cases tested : hint.type? = some .boolean ∧ w.Tested fuel returnType expr
    · obtain ⟨r, generated, same⟩ := tested.2.generated run done
      simp only [ExprGen.Answers, Work.gen, tested.1]
      rw [dif_pos ⟨r, generated, fun _ _ => same⟩]
      rfl
    · simp only [ExprGen.Answers, Work.gen]
      rw [dif_pos ⟨_, .top before first rfl rfl top wrote, fun bool test => absurd ⟨bool, test⟩ tested⟩]
      rfl
  | test loc expr =>
    have tested : w.Tested fuel returnType expr := ⟨w₁, loc, rest, before, first⟩
    obtain ⟨r, generated, same⟩ := tested.generated run done
    have there : ∃ r, w.Generated fuel returnType expr (some .boolean) r ∧
        (some AstType.boolean = some .boolean → w.Tested fuel returnType expr → typeEqual r.2.2 .boolean = true) :=
      ⟨r, generated, fun _ _ => same⟩
    exact ⟨_, _, _, dif_pos there, there.choose_spec.2 rfl tested⟩
  | decl decl =>
    have waiting : rest <:+ w₂.jobs := ⟨more, next.symm⟩
    obtain ⟨w₃, forth, _, at_⟩ := Work.Runs.turn remaining done waiting
    obtain ⟨pieces, wrote⟩ := Work.Runs.wrote (step.trans forth)
    simp only [ExprGen.Answers, Work.gen]
    rw [dif_pos ⟨pieces, w₁, w₃, rest, before, first, step.trans forth, at_, wrote⟩]
    rfl

end Jobs

end Low
