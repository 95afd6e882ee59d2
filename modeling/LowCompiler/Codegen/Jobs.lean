import LowCompiler.Codegen.StatementTypes
import LowCompiler.Codegen.Stmt

/-!
# Blocks and jobs

Two views of `codegen_stmt`: `codegenStmt` builds the blocks, and leaves expressions and
declarations to a generator; `codegenJob` has the scopes and the types, and no blocks.
Both come to the same expressions under the same hints, and to the same declarations.
-/

namespace Low

open Stateful
open Relation (ReflTransGen)

def Hint.type? : Hint → Option AstType
  | .type t => some t
  | _ => none

section Answers
variable {I V : Type} (gen : ExprGen I V)

/-- The generator builds what a job stands for. -/
def ExprGen.Answers : Job → Prop
  | .expr expr hint => (gen.expr expr hint.type?).isSome
  | .test _ expr => ∃ pieces cond type, gen.expr expr (some .boolean) = some (pieces, cond, type) ∧
    typeEqual type .boolean = true
  | .decl decl => (gen.decl decl).isSome
  | _ => True

/-- What each statement inside of another leads to is built. -/
def Compiles (returnType : AstType) (outer : Bool × Stmt) : Prop :=
  ∀ inner, ReflTransGen InnerStmt outer inner →
    ∃ jobs, stmtJobs returnType inner.1 inner.2 = .ok jobs ∧ ∀ job ∈ jobs, gen.Answers job

/-- The blocks that jumps lead to are there in a loop. -/
structure CodegenEnv.Stands (env : CodegenEnv) (returnType : AstType) (inLoop : Bool) : Prop where
  returns : env.returnType = returnType
  continues : env.continueBlock.isSome = inLoop
  breaks : env.breakBlock.isSome = inLoop

variable {gen} {returnType : AstType} {inLoop : Bool} {loc : Loc}

theorem compiles_iff {stmt : Stmt} : Compiles gen returnType (inLoop, stmt) ↔
    (∃ jobs, stmtJobs returnType inLoop stmt = .ok jobs ∧ ∀ job ∈ jobs, gen.Answers job) ∧
      ∀ inner, InnerStmt (inLoop, stmt) inner → Compiles gen returnType inner := by
  constructor
  · intro compiles
    exact ⟨compiles _ .refl, fun inner step last inside => compiles last (.head step inside)⟩
  · rintro ⟨here, below⟩ last inside
    obtain same | ⟨inner, step, inside⟩ := inside.cases_head
    · exact same ▸ here
    · exact below inner step last inside

theorem compiles_compound {items : List (BlockItem Stmt)} : Compiles gen returnType (inLoop, .mk loc (.compoundStmt items)) ↔
    (∀ stmt, .stmtItem (some stmt) ∈ items → Compiles gen returnType (inLoop, stmt)) ∧
      ∀ decl, .declItem decl ∈ items → (gen.decl decl).isSome := by
  rw [compiles_iff]
  constructor
  · rintro ⟨⟨_, leads, answers⟩, below⟩
    cases leads
    refine ⟨fun stmt member => below _ (.item member), fun decl member => ?_⟩
    have job : Job.decl decl ∈ items.filterMap (itemJob inLoop) := List.mem_filterMap.mpr ⟨_, member, rfl⟩
    exact answers (.decl decl) (by simp [job])
  · rintro ⟨stmts, decls⟩
    refine ⟨⟨_, rfl, fun job member => ?_⟩, fun inner step => ?_⟩
    · simp only [List.mem_append, List.mem_cons, List.mem_filterMap, List.not_mem_nil, or_false] at member
      obtain (rfl | ⟨item, member, is⟩) | rfl := member
      · trivial
      · cases item with
        | stmtItem stmt =>
          cases stmt <;> cases is
          trivial
        | declItem decl =>
          cases is
          exact decls decl member
      · trivial
    · cases step with
      | item member => exact stmts _ member

theorem compiles_if {condition : Expr} {stmt elseStmt : Option Stmt} :
    Compiles gen returnType (inLoop, .mk loc (.ifStmt condition stmt elseStmt)) ↔ gen.Answers (.test loc condition) ∧
      (∀ inner ∈ stmt, Compiles gen returnType (inLoop, inner)) ∧
        ∀ inner ∈ elseStmt, Compiles gen returnType (inLoop, inner) := by
  rw [compiles_iff]
  constructor
  · rintro ⟨⟨_, leads, answers⟩, below⟩
    cases leads
    refine ⟨answers _ (by simp), fun inner is => ?_, fun inner is => ?_⟩
    · cases is
      exact below _ .ifTrue
    · cases is
      exact below _ .ifFalse
  · rintro ⟨test, onTrue, onFalse⟩
    refine ⟨⟨_, rfl, fun job member => ?_⟩, fun inner step => ?_⟩
    · cases stmt <;> cases elseStmt <;>
        simp only [scopedJobs, List.mem_append, List.mem_cons, List.not_mem_nil, or_false] at member <;> grind [ExprGen.Answers]
    · cases step with
      | ifTrue => exact onTrue _ rfl
      | ifFalse => exact onFalse _ rfl

theorem compiles_for {initial condition step : Option Expr} {stmt : Option Stmt} :
    Compiles gen returnType (inLoop, .mk loc (.forStmt initial condition step stmt)) ↔
      (∀ expr ∈ initial, gen.Answers (.expr expr .null)) ∧ (∀ expr ∈ condition, gen.Answers (.expr expr (.type boolType))) ∧
        (∀ inner ∈ stmt, Compiles gen returnType (true, inner)) ∧ ∀ expr ∈ step, gen.Answers (.expr expr .null) := by
  rw [compiles_iff]
  constructor
  · rintro ⟨⟨_, leads, answers⟩, below⟩
    cases leads
    refine ⟨fun expr is => ?_, fun expr is => ?_, fun inner is => ?_, fun expr is => ?_⟩ <;> cases is
    · exact answers _ (by simp)
    · exact answers _ (by simp)
    · exact below _ .body
    · exact answers _ (by simp)
  · rintro ⟨first, test, body, last⟩
    refine ⟨⟨_, rfl, fun job member => ?_⟩, fun inner step => ?_⟩
    · cases initial <;> cases condition <;> cases step <;> cases stmt <;>
        simp only [Option.map_none, Option.map_some, Option.toList_none, Option.toList_some, List.mem_append, List.mem_cons,
          List.not_mem_nil, or_false, List.append_nil] at member <;> grind [ExprGen.Answers]
    · cases step with
      | body => exact body _ rfl

theorem compiles_plain {kind : StmtKind Stmt} (plain : ∀ inner, ¬InnerStmt (inLoop, .mk loc kind) inner) :
    Compiles gen returnType (inLoop, .mk loc kind) ↔
      ∃ jobs, stmtJobs returnType inLoop (.mk loc kind) = .ok jobs ∧ ∀ job ∈ jobs, gen.Answers job := by
  rw [compiles_iff, and_iff_left fun inner step => absurd step (plain inner)]

/-! ### Blocks -/

theorem isSome_bind_iff {α β : Type} {x : Option α} {f : α → Option β} {P Q : Prop} (first : x.isSome ↔ P)
    (rest : ∀ a, x = some a → ((f a).isSome ↔ Q)) : (x >>= f).isSome ↔ P ∧ Q := by
  cases x with
  | none => simpa using fun p => absurd (first.mpr p) (by simp)
  | some a => exact (rest a rfl).trans (and_iff_right (first.mp rfl)).symm

theorem codegenClause_isSome {b : Builder I V} {clause : Option Expr} :
    (codegenClause gen b clause).isSome ↔ ∀ expr ∈ clause, gen.Answers (.expr expr .null) := by
  cases clause <;> simp [codegenClause, ExprGen.Answers, Hint.type?]

theorem codegenTest_isSome {b : Builder I V} {body exit : Nat} {condition : Option Expr} :
    (codegenTest gen b body exit condition).isSome ↔ ∀ expr ∈ condition, gen.Answers (.expr expr (.type boolType)) := by
  cases condition with
  | none => simp [codegenTest]
  | some expr =>
    have same : AstType.boolean = boolType := rfl
    simp [codegenTest, ExprGen.Answers, Hint.type?, same]

/-- The condition of an `if` is compared with `bool` in both views. -/
theorem tested_isSome {condition : Expr} {β : Type} {f : List (ExprPiece I V) × V × AstType → Option β} {Q : Prop}
    (rest : ∀ pieces cond type, gen.expr condition (some .boolean) = some (pieces, cond, type) →
      ((f (pieces, cond, type)).isSome ↔ Q)) :
    ((gen.expr condition (some .boolean)) >>= fun r => guard (typeEqual r.2.2 .boolean = true) >>= fun _ => f r).isSome ↔
      gen.Answers (.test loc condition) ∧ Q := by
  cases answer : gen.expr condition (some .boolean) with
  | none => simp [ExprGen.Answers, answer]
  | some r =>
    obtain ⟨pieces, cond, type⟩ := r
    by_cases same : typeEqual type .boolean = true
    · simp [ExprGen.Answers, answer, same, rest pieces cond type answer]
    · simp [ExprGen.Answers, answer, same]

mutual

theorem codegenStmt_isSome {env : CodegenEnv} {inLoop : Bool} (stands : env.Stands returnType inLoop) {b : Builder I V} :
    (stmt : Stmt) → ((codegenStmt gen env b stmt).isSome ↔ Compiles gen returnType (inLoop, stmt))
  | .mk loc kind => codegenStmtKind_isSome stands loc kind
termination_by structural stmt => stmt

theorem codegenStmtKind_isSome {env : CodegenEnv} {inLoop : Bool} (stands : env.Stands returnType inLoop) {b : Builder I V}
    (loc : Loc) : (kind : StmtKind Stmt) →
      ((codegenStmtKind gen env b kind).isSome ↔ Compiles gen returnType (inLoop, .mk loc kind))
  | .exprStmt expr => by
    refine .trans ?_ (compiles_plain (by rintro _ ⟨⟩)).symm
    cases answer : gen.expr expr none <;>
      simp [codegenStmtKind, stmtJobs, pure, Except.pure, ExprGen.Answers, Hint.type?, answer]
  | .compoundStmt items => (codegenItems_isSome stands items).trans compiles_compound.symm
  | .ifStmt condition stmt none => by
    rw [compiles_if]
    refine tested_isSome fun pieces cond type _ => ?_
    refine .trans (isSome_bind_iff (codegenNullable_isSome stands stmt) fun r _ => iff_of_true rfl trivial) ?_
    simp
  | .ifStmt condition stmt (some elseStmt) => by
    rw [compiles_if]
    refine tested_isSome fun pieces cond type _ => ?_
    refine isSome_bind_iff (codegenNullable_isSome stands stmt) fun r _ => ?_
    refine .trans (isSome_bind_iff (codegenStmt_isSome stands elseStmt) fun r' _ => iff_of_true ?_ trivial) (by simp)
    dsimp only
    split <;> rfl
  | .forStmt initial condition step stmt => by
    rw [compiles_for]
    refine isSome_bind_iff codegenClause_isSome fun b₁ _ => ?_
    refine isSome_bind_iff codegenTest_isSome fun b₂ _ => ?_
    have inner (next last : Nat) :
        CodegenEnv.Stands { env with continueBlock := some next, breakBlock := some last } returnType true :=
      ⟨stands.returns, rfl, rfl⟩
    refine isSome_bind_iff (codegenNullable_isSome (inner _ _) stmt) fun r _ => ?_
    exact (isSome_bind_iff codegenClause_isSome fun b₄ _ => iff_of_true rfl trivial).trans (and_iff_left trivial)
  | .continueStmt => by
    refine .trans ?_ (compiles_plain (by rintro _ ⟨⟩)).symm
    rw [← stands.continues]
    cases there : env.continueBlock <;>
      simp [codegenStmtKind, stmtJobs, there, throw, throwThe, MonadExceptOf.throw, pure, Except.pure]
  | .breakStmt => by
    refine .trans ?_ (compiles_plain (by rintro _ ⟨⟩)).symm
    rw [← stands.breaks]
    cases there : env.breakBlock <;>
      simp [codegenStmtKind, stmtJobs, there, throw, throwThe, MonadExceptOf.throw, pure, Except.pure]
  | .returnStmt (some expr) => by
    refine .trans ?_ (compiles_plain (by rintro _ ⟨⟩)).symm
    rw [← stands.returns]
    cases answer : gen.expr expr (some env.returnType) <;>
      simp [codegenStmtKind, stmtJobs, pure, Except.pure, ExprGen.Answers, Hint.type?, answer]
  | .returnStmt none => by
    refine .trans ?_ (compiles_plain (by rintro _ ⟨⟩)).symm
    simp [codegenStmtKind, stmtJobs, pure, Except.pure]
  | .switchStmt _ _ | .doStmt _ _ | .gotoStmt _ | .caseStmt _ _ | .defaultStmt _ => by
    refine .trans ?_ (compiles_plain (by rintro _ ⟨⟩)).symm
    simp [codegenStmtKind, stmtJobs, throw, throwThe, MonadExceptOf.throw]
termination_by structural kind => kind

theorem codegenItems_isSome {env : CodegenEnv} {inLoop : Bool} (stands : env.Stands returnType inLoop) {b : Builder I V} :
    (items : List (BlockItem Stmt)) → ((codegenItems gen env b items).isSome ↔
      (∀ stmt, .stmtItem (some stmt) ∈ items → Compiles gen returnType (inLoop, stmt)) ∧
        ∀ decl, .declItem decl ∈ items → (gen.decl decl).isSome)
  | [] => by simp [codegenItems]
  | .stmtItem stmt :: items => by
    have rest (b : Builder I V) := codegenItems_isSome stands (b := b) items
    refine (isSome_bind_iff (codegenNullable_isSome stands stmt) fun r _ =>
      (isSome_bind_iff (rest _) fun r' _ => iff_of_true rfl trivial).trans (and_iff_left trivial)).trans ?_
    simp only [List.mem_cons, BlockItem.stmtItem.injEq, reduceCtorEq, false_or, or_imp, forall_and, Option.mem_def, and_assoc,
      @eq_comm _ (some _) stmt]
  | .declItem decl :: items => by
    refine (isSome_bind_iff Iff.rfl fun pieces _ => codegenItems_isSome stands items).trans ?_
    simp only [List.mem_cons, BlockItem.declItem.injEq, reduceCtorEq, false_or, or_imp, forall_and, forall_eq]
    exact and_left_comm
termination_by structural items => items

theorem codegenNullable_isSome {env : CodegenEnv} {inLoop : Bool} (stands : env.Stands returnType inLoop) {b : Builder I V} :
    (stmt : Option Stmt) → ((codegenNullable gen env b stmt).isSome ↔ ∀ inner ∈ stmt, Compiles gen returnType (inLoop, inner))
  | none => by simp [codegenNullable]
  | some stmt => by simpa [codegenNullable] using codegenStmt_isSome stands stmt
termination_by structural stmt => stmt

end

end Answers

/-! ### Jobs -/

section Jobs
variable {fuel : Nat} {returnType : AstType} {outer : Bool × Stmt} {inLoop : Bool} {stmt : Stmt} {job : Job} {more : List Job}

/-- The jobs for a statement, for those inside of it and for the declarations among them. -/
inductive Job.Within (returnType : AstType) (outer : Bool × Stmt) : Job → Prop where
  | stmt {inLoop : Bool} {stmt : Stmt} : ReflTransGen InnerStmt outer (inLoop, stmt) →
    Within returnType outer (.stmt inLoop stmt)
  | leads {inner : Bool × Stmt} {jobs : List Job} {job : Job} : ReflTransGen InnerStmt outer inner →
    stmtJobs returnType inner.1 inner.2 = .ok jobs → job ∈ jobs → Within returnType outer job
  | declare {symbol : CodegenSymbol} {decl : Decl} : Within returnType outer (.declare symbol decl)
  | start {type : AstType} {t : Llvm.Ty} {var : Llvm.Value} : Within returnType outer (.start type t var)

/-- The only statements among the jobs for a statement are right inside of it. -/
theorem InnerStmt.of_job {inLoop' : Bool} {stmt' : Stmt} (leads : stmtJobs returnType inLoop stmt = .ok more)
    (member : .stmt inLoop' stmt' ∈ more) : InnerStmt (inLoop, stmt) (inLoop', stmt') := by
  obtain ⟨loc, kind⟩ := stmt
  cases kind with
  | compoundStmt items =>
    cases leads
    simp only [List.mem_append, List.mem_cons, List.mem_filterMap, List.not_mem_nil, reduceCtorEq, false_or, or_false] at member
    obtain ⟨item, member, is⟩ := member
    cases item with
    | declItem decl => cases is
    | stmtItem stmt =>
      cases stmt <;> cases is
      exact .item member
  | ifStmt condition stmt elseStmt =>
    cases leads
    cases stmt <;> cases elseStmt <;> simp [scopedJobs] at member
    · obtain ⟨rfl, rfl⟩ := member
      exact .ifFalse
    · obtain ⟨rfl, rfl⟩ := member
      exact .ifTrue
    · obtain ⟨rfl, rfl⟩ | ⟨rfl, rfl⟩ := member
      · exact .ifTrue
      · exact .ifFalse
  | forStmt initial condition step stmt =>
    cases leads
    cases stmt <;> simp at member
    obtain ⟨rfl, rfl⟩ := member
    exact .body
  | exprStmt expr =>
    cases leads
    simp at member
  | returnStmt expr =>
    cases leads
    simp at member
  | continueStmt | breakStmt =>
    cases inLoop <;> cases leads
    cases member
  | switchStmt | doStmt | gotoStmt | caseStmt | defaultStmt => cases leads

theorem Job.Within.inside (within : Job.Within returnType outer (.stmt inLoop stmt)) :
    ReflTransGen InnerStmt outer (inLoop, stmt) := by
  cases within with
  | stmt inside => exact inside
  | leads inside leads member => exact inside.tail (InnerStmt.of_job leads member)

/-- A declaration leads to its symbol and to the value that it starts with. -/
theorem codegenDecl_within {decl : Decl} {r r' : Building × List Decl} (run : codegenDecl fuel decl r = .ok (more, r'))
    (member : job ∈ more) : job.Within returnType outer := by
  obtain ⟨loc, kind⟩ := decl
  cases kind with
  | variableDecl type name initial =>
    simp only [codegenDecl] at run
    split at run
    · obtain ⟨_, _, _, run⟩ := bind_ok.mp run
      obtain ⟨_, _, _, run⟩ := bind_ok.mp run
      cases run
      simp only [List.mem_cons, List.not_mem_nil, or_false] at member
      obtain rfl | rfl := member
      · exact .declare
      · exact .start
    · cases initial with
      | none => cases run
      | some initial =>
        obtain ⟨⟨_, _⟩, _, _, run⟩ := bind_ok.mp run
        dsimp only at run
        split at run
        · cases run
        · obtain ⟨_, _, _, run⟩ := bind_ok.mp run
          obtain ⟨_, _, _, run⟩ := bind_ok.mp run
          obtain ⟨_, _, _, run⟩ := bind_ok.mp run
          cases run
          exact List.mem_singleton.mp member ▸ .declare
  | constDecl name type value =>
    cases type with
    | none =>
      cases run
      exact List.mem_singleton.mp member ▸ .declare
    | some type =>
      obtain ⟨_, _, _, run⟩ := bind_ok.mp run
      obtain ⟨_, _, _, run⟩ := bind_ok.mp run
      cases run
      exact List.mem_singleton.mp member ▸ .declare
  | implementationDecl interface target mappings =>
    cases run
    exact List.mem_singleton.mp member ▸ .declare

theorem codegenJob_within {next : Job} {r r' : Building × List Decl} (within : job.Within returnType outer)
    (run : codegenJob fuel returnType job r = .ok (more, r')) (member : next ∈ more) : next.Within returnType outer := by
  cases job with
  | stmt inLoop stmt =>
    dsimp only [codegenJob] at run
    cases leads : stmtJobs returnType inLoop stmt with
    | error e =>
      rw [leads] at run
      cases run
    | ok jobs =>
      rw [leads] at run
      cases run
      exact .leads within.inside leads member
  | decl decl => exact codegenDecl_within run member
  | expr expr hint =>
    obtain ⟨_, _, _, run⟩ := bind_ok.mp run
    cases run
    cases member
  | test loc expr =>
    obtain ⟨_, _, _, run⟩ := bind_ok.mp run
    dsimp only at run
    split at run
    · cases run
    · cases run
      cases member
  | start type t var =>
    obtain ⟨_, _, _, run⟩ := bind_ok.mp run
    cases run
    cases member
  | declare symbol decl | enter =>
    cases run
    cases member
  | leave =>
    simp only [codegenJob] at run
    split at run <;> cases run
    cases member

theorem Work.Runs.within {w w₁ : Work} (run : w.Runs fuel returnType w₁) (all : ∀ job ∈ w.jobs, job.Within returnType outer) :
    ∀ job ∈ w₁.jobs, job.Within returnType outer := by
  induction run with
  | refl => exact all
  | tail _ step ih =>
    obtain ⟨first, rest, more, is, ran, next⟩ := Work.Steps.job step
    intro job member
    rw [next] at member
    obtain new | old := List.mem_append.mp member
    · exact codegenJob_within (ih first (by simp [is])) ran new
    · exact ih job (by simp [is, old])

/-- Where the jobs for a body come to an end, its blocks are built just when the generator builds all that
the jobs came to. -/
theorem codegenStmt_run_iff {I V : Type} (gen : ExprGen I V) {w w' : Work} {body : Stmt} (run : w.Runs fuel returnType w')
    (done : w'.jobs = []) (begins : w.jobs = [.stmt false body]) (b : Builder I V) :
    (codegenStmt gen ⟨returnType, none, none⟩ b body).isSome ↔
      ∀ w₁ job rest, w.Runs fuel returnType w₁ → w₁.jobs = job :: rest → gen.Answers job := by
  rw [codegenStmt_isSome ⟨rfl, rfl, rfl⟩ body]
  constructor
  · intro compiles w₁ job rest before first
    have all : ∀ job ∈ w.jobs, job.Within returnType (false, body) := fun job member =>
      List.mem_singleton.mp (begins ▸ member) ▸ .stmt .refl
    cases before.within all job (by simp [first]) with
    | leads inside leads member =>
      obtain ⟨jobs, leads', answers⟩ := compiles _ inside
      cases leads.symm.trans leads'
      exact answers job member
    | stmt | declare | start => trivial
  · rintro answers ⟨inLoop, stmt⟩ inside
    obtain ⟨w₁, rest, before, after, first⟩ := Work.Runs.visits run done begins inside
    obtain ⟨jobs, w₂, leads, step, remaining, next, _⟩ := Work.Runs.leads after done first
    refine ⟨jobs, leads, fun job member => ?_⟩
    obtain ⟨earlier, later, split⟩ := List.append_of_mem member
    have waiting : job :: (later ++ rest) <:+ w₂.jobs := ⟨earlier, by simp [next, split]⟩
    obtain ⟨w₃, forth, _, at_⟩ := Work.Runs.turn remaining done waiting
    exact answers w₃ job _ (before.trans (step.trans forth)) at_

end Jobs

end Low
