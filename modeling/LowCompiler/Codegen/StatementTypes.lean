import LowCompiler.Codegen.Scopes
import Mathlib.Logic.Relation

/-!
# The types of statements

Every statement inside of a body comes first among the jobs at some time, and then the
job for its own expression does. The condition of an `if` is compared with `bool` there.
The values of a loop's condition and of a `return` are not: they are left to
`LLVMVerifyFunction`, which knows the types of LLVM only.
-/

namespace Low

open Stateful
open Llvm (Op Ty)
open Relation (ReflTransGen)

/-! ### Runs -/

section Runs
variable {fuel : Nat} {returnType : AstType} {w w' : Work}

def Work.Steps (fuel : Nat) (returnType : AstType) (w w' : Work) : Prop :=
  w.step fuel returnType = some (.ok w')

abbrev Work.Runs (fuel : Nat) (returnType : AstType) : Work → Work → Prop :=
  ReflTransGen (Work.Steps fuel returnType)

theorem Work.Steps.job (steps : w.Steps fuel returnType w') : ∃ job jobs more, w.jobs = job :: jobs ∧
    codegenJob fuel returnType job (w.building, w.decls) = .ok (more, w'.building, w'.decls) ∧
      w'.jobs = more ++ jobs := by
  rw [Work.Steps, Work.step] at steps
  cases jobs : w.jobs with
  | nil =>
    rw [jobs] at steps
    cases steps
  | cons job rest =>
    rw [jobs] at steps
    obtain ⟨⟨more, s, decls⟩, run, same⟩ := ok_of_bind (Option.some.inj steps)
    cases same
    exact ⟨job, rest, more, rfl, run, rfl⟩

theorem Work.Runs.turn (run : w.Runs fuel returnType w') (done : w'.jobs = []) {jobs : List Job}
    (waiting : jobs <:+ w.jobs) :
    ∃ w₁, w.Runs fuel returnType w₁ ∧ w₁.Runs fuel returnType w' ∧ w₁.jobs = jobs := by
  induction run using ReflTransGen.head_induction_on with
  | refl =>
    rw [done] at waiting
    exact ⟨w', .refl, .refl, done.trans (List.suffix_nil.mp waiting).symm⟩
  | head step rest ih =>
    obtain ⟨job, others, more, first, _, next⟩ := Work.Steps.job step
    rw [first, List.suffix_cons_iff] at waiting
    obtain rfl | later := waiting
    · exact ⟨_, .refl, .head step rest, first⟩
    · obtain ⟨w₁, before, after, same⟩ := ih (next ▸ later.trans (List.suffix_append _ _))
      exact ⟨w₁, .head step before, after, same⟩

/-- There is one way to go on. -/
theorem Work.Runs.to_end (run : w.Runs fuel returnType w') (done : w'.jobs = []) {w₁ : Work} (part : w.Runs fuel returnType w₁) :
    w₁.Runs fuel returnType w' := by
  have unique : Relator.RightUnique (Work.Steps fuel returnType) := by
    intro w₀ w₁ w₂ step step'
    exact Except.ok.inj (Option.some.inj (step.symm.trans step'))
  obtain rest | more := ReflTransGen.total_of_right_unique unique part run
  · exact rest
  · obtain same | ⟨_, step, _⟩ := more.cases_head
    · exact same ▸ .refl
    · obtain ⟨_, _, _, first, _⟩ := Work.Steps.job step
      cases done.symm.trans first

/-- The first job is done in a run to the end. -/
theorem Work.Runs.first (run : w.Runs fuel returnType w') (done : w'.jobs = []) {job : Job} {jobs : List Job}
    (first : w.jobs = job :: jobs) : ∃ more w₁, w.Runs fuel returnType w₁ ∧ w₁.Runs fuel returnType w' ∧
      codegenJob fuel returnType job (w.building, w.decls) = .ok (more, w₁.building, w₁.decls) ∧
      w₁.jobs = more ++ jobs := by
  obtain rfl | ⟨w₁, step, rest⟩ := run.cases_head
  · cases done.symm.trans first
  · obtain ⟨job', jobs', more, first', ran, next⟩ := Work.Steps.job step
    cases first.symm.trans first'
    exact ⟨more, w₁, .single step, rest, ran, next⟩

end Runs

/-- A statement right inside of another, and whether each of them is in a loop. -/
inductive InnerStmt : Bool × Stmt → Bool × Stmt → Prop where
  | item {inLoop : Bool} {loc : Loc} {items : List (BlockItem Stmt)} {stmt : Stmt} :
    .stmtItem (some stmt) ∈ items → InnerStmt (inLoop, .mk loc (.compoundStmt items)) (inLoop, stmt)
  | ifTrue {inLoop : Bool} {loc : Loc} {condition : Expr} {stmt : Stmt} {elseStmt : Option Stmt} :
    InnerStmt (inLoop, .mk loc (.ifStmt condition (some stmt) elseStmt)) (inLoop, stmt)
  | ifFalse {inLoop : Bool} {loc : Loc} {condition : Expr} {stmt : Option Stmt} {elseStmt : Stmt} :
    InnerStmt (inLoop, .mk loc (.ifStmt condition stmt (some elseStmt))) (inLoop, elseStmt)
  | body {inLoop : Bool} {loc : Loc} {initial condition step : Option Expr} {stmt : Stmt} :
    InnerStmt (inLoop, .mk loc (.forStmt initial condition step (some stmt))) (true, stmt)

section Visits
variable {fuel : Nat} {returnType : AstType} {w w' : Work} {inLoop inLoop' : Bool} {stmt stmt' : Stmt} {jobs : List Job}

theorem InnerStmt.job (inner : InnerStmt (inLoop, stmt) (inLoop', stmt'))
    (leads : stmtJobs returnType inLoop stmt = .ok jobs) : .stmt inLoop' stmt' ∈ jobs := by
  cases inner with
  | item member =>
    cases leads
    have job : Job.stmt inLoop stmt' ∈ List.filterMap (itemJob inLoop) _ := List.mem_filterMap.mpr ⟨_, member, rfl⟩
    simp [job]
  | ifTrue | ifFalse | body =>
    cases leads
    simp [scopedJobs]

theorem Work.Runs.leads (run : w.Runs fuel returnType w') (done : w'.jobs = []) {rest : List Job}
    (first : w.jobs = .stmt inLoop stmt :: rest) : ∃ jobs w₁, stmtJobs returnType inLoop stmt = .ok jobs ∧
      w.Runs fuel returnType w₁ ∧ w₁.Runs fuel returnType w' ∧ w₁.jobs = jobs ++ rest ∧
        (w₁.building, w₁.decls) = (w.building, w.decls) := by
  obtain ⟨more, w₁, before, after, ran, next⟩ := Work.Runs.first run done first
  dsimp only [codegenJob] at ran
  cases leads : stmtJobs returnType inLoop stmt with
  | error e =>
    rw [leads] at ran
    cases ran
  | ok jobs =>
    rw [leads] at ran
    obtain ⟨rfl, same⟩ := Prod.mk.inj (Except.ok.inj ran)
    exact ⟨jobs, w₁, rfl, before, after, next, same.symm⟩

/-- Every statement inside of the first one is the first at some time. -/
theorem Work.Runs.visits (run : w.Runs fuel returnType w') (done : w'.jobs = []) {rest : List Job}
    (first : w.jobs = .stmt inLoop stmt :: rest)
    (inside : ReflTransGen InnerStmt (inLoop, stmt) (inLoop', stmt')) :
    ∃ w₁ rest', w.Runs fuel returnType w₁ ∧ w₁.Runs fuel returnType w' ∧
      w₁.jobs = .stmt inLoop' stmt' :: rest' := by
  generalize same : (inLoop', stmt') = last at inside
  induction inside generalizing inLoop' stmt' with
  | refl =>
    cases same
    exact ⟨w, rest, .refl, run, first⟩
  | @tail outer _ _ inner ih =>
    subst same
    obtain ⟨outerLoop, outerStmt⟩ := outer
    obtain ⟨w₁, rest₁, before, after, at_⟩ := ih rfl
    obtain ⟨jobs, w₂, leads, step, remaining, next, _⟩ := Work.Runs.leads after done at_
    obtain ⟨earlier, later, split⟩ := List.append_of_mem (inner.job leads)
    have waiting : .stmt inLoop' stmt' :: (later ++ rest₁) <:+ w₂.jobs := ⟨earlier, by simp [next, split]⟩
    obtain ⟨w₃, forth, rest', at'⟩ := Work.Runs.turn remaining done waiting
    exact ⟨w₃, later ++ rest₁, before.trans (step.trans forth), rest', at'⟩

/-- The expression of a job is prepared and generated. -/
theorem codegenJob_expr {expr : Expr} {hint : Hint} {more : List Job} {r r' : Building × List Decl}
    (run : codegenJob fuel returnType (.expr expr hint) r = .ok (more, r')) :
    ∃ prepared value, codegenExprTop fuel expr hint r = .ok ((prepared, value), r') := by
  obtain ⟨⟨prepared, value⟩, r₁, first, run⟩ := bind_ok.mp run
  cases run
  exact ⟨prepared, value, first⟩

end Visits

/-! ### The expression of a statement -/

/-- The expression of a statement, with the type that is asked of it, the job that generates it, and those
that are waiting then. -/
inductive Own (returnType : AstType) (inLoop : Bool) (rest : List Job) : Stmt → AstType → Expr → Job → List Job → Prop where
  | test {loc : Loc} {condition : Expr} {stmt elseStmt : Option Stmt} :
    Own returnType inLoop rest (.mk loc (.ifStmt condition stmt elseStmt)) boolType condition (.test loc condition)
      (.leave :: (scopedJobs inLoop stmt ++ scopedJobs inLoop elseStmt ++ rest))
  | loop {loc : Loc} {condition : Expr} {initial step : Option Expr} {stmt : Option Stmt} :
    Own returnType inLoop rest (.mk loc (.forStmt initial (some condition) step stmt)) boolType condition
      (.expr condition (.type boolType))
      ((stmt.map (Job.stmt true)).toList ++ (step.map fun expr => Job.expr expr .null).toList ++ .leave :: rest)
  | ret {loc : Loc} {expr : Expr} :
    Own returnType inLoop rest (.mk loc (.returnStmt (some expr))) returnType expr (.expr expr (.type returnType)) rest

/-- In the run from `w` a statement comes first, and then the job for its own expression does, which gives
the value. -/
inductive Takes (fuel : Nat) (returnType : AstType) (w : Work) (inLoop : Bool) (stmt : Stmt) (asked : AstType) (prepared : Expr)
    (value : Llvm.Value) : Prop where
  | generated {w₀ w₁ : Work} {expr : Expr} {rest others : List Job} {job : Job} {r : Building × List Decl}
    (before : w.Runs fuel returnType w₀) (first : w₀.jobs = .stmt inLoop stmt :: rest) (after : w₀.Runs fuel returnType w₁)
    (own : Own returnType inLoop rest stmt asked expr job others) (next : w₁.jobs = job :: others)
    (top : codegenExprTop fuel expr (.type asked) (w₁.building, w₁.decls) = .ok ((prepared, value), r)) :
    Takes fuel returnType w inLoop stmt asked prepared value

section Own
variable {fuel : Nat} {returnType asked : AstType} {w w' : Work} {inLoop : Bool} {stmt : Stmt} {rest others more : List Job}
  {expr : Expr} {job : Job}

theorem Own.waiting (own : Own returnType inLoop rest stmt asked expr job others) (rest' : List Job) :
    ∃ others', Own returnType inLoop rest' stmt asked expr job others' := by
  cases own with
  | test => exact ⟨_, .test⟩
  | loop => exact ⟨_, .loop⟩
  | ret => exact ⟨_, .ret⟩

/-- Before the expression of a statement come an opened scope and the first clause of a loop, at most. -/
theorem Own.suffix (own : Own returnType inLoop rest stmt asked expr job others)
    (leads : stmtJobs returnType inLoop stmt = .ok more) : job :: others <:+ more ++ rest := by
  cases own with
  | test =>
    cases leads
    exact ⟨[.enter], by simp⟩
  | @loop _ _ initial =>
    cases leads
    exact ⟨.enter :: (initial.map fun expr => Job.expr expr .null).toList, by simp⟩
  | ret =>
    cases leads
    exact ⟨[], rfl⟩

/-- The type that is asked for is the hint. -/
theorem Own.generates {r r' : Building × List Decl} (own : Own returnType inLoop rest stmt asked expr job others)
    (run : codegenJob fuel returnType job r = .ok (more, r')) :
    ∃ prepared value r₁, codegenExprTop fuel expr (.type asked) r = .ok ((prepared, value), r₁) := by
  cases own with
  | test =>
    obtain ⟨⟨prepared, value⟩, r₁, top, _⟩ := bind_ok.mp run
    exact ⟨prepared, value, r₁, top⟩
  | loop | ret =>
    obtain ⟨prepared, value, top⟩ := codegenJob_expr run
    exact ⟨prepared, value, _, top⟩

/-- The expression of a statement that comes first is generated in a run to the end. -/
theorem Work.Runs.takes (run : w.Runs fuel returnType w') (done : w'.jobs = []) {w₀ : Work}
    (before : w.Runs fuel returnType w₀) (first : w₀.jobs = .stmt inLoop stmt :: rest)
    (own : Own returnType inLoop rest stmt asked expr job others) :
    ∃ prepared value, Takes fuel returnType w inLoop stmt asked prepared value := by
  obtain ⟨more, w₁, leads, step, remaining, next, _⟩ := Work.Runs.leads (run.to_end done before) done first
  obtain ⟨w₂, forth, remaining, at_⟩ := Work.Runs.turn remaining done (next ▸ own.suffix leads)
  obtain ⟨_, _, _, _, ran, _⟩ := Work.Runs.first remaining done at_
  obtain ⟨prepared, value, r, top⟩ := own.generates ran
  exact ⟨prepared, value, .generated before first (step.trans forth) own at_ top⟩

end Own

inductive Ending where
  | ret (value : Option Llvm.Value)
  | condBr (condition : Llvm.Value)

/-- What LLVM asks of it in a function with a result. -/
def Ending.WellFormed (result : Ty) : Ending → Prop
  | .ret (some value) => value.type = result ∧ result ≠ .void
  | .ret none => result = .void
  | .condBr condition => condition.type = .int 1

def Stmt.ending (value : Llvm.Value) : Stmt → Ending
  | .mk _ (.returnStmt _) => .ret (some value)
  | _ => .condBr value

/-- The instructions that `codegen_stmt` ends blocks with, from `w` on, but for jumps. -/
inductive Endings (fuel : Nat) (returnType : AstType) (w : Work) : Ending → Prop where
  | takes {inLoop : Bool} {stmt : Stmt} {asked : AstType} {prepared : Expr} {value : Llvm.Value} :
    Takes fuel returnType w inLoop stmt asked prepared value → Endings fuel returnType w (stmt.ending value)
  | retVoid {w₁ : Work} {inLoop : Bool} {loc : Loc} {rest : List Job} :
    w.Runs fuel returnType w₁ → w₁.jobs = .stmt inLoop (.mk loc (.returnStmt none)) :: rest →
    Endings fuel returnType w (.ret none)

/-! ### Types that are alike for LLVM -/

def voidType : AstType := .mk 0 .voidType

/-- What LLVM has for a type, as it is found at first. -/
def Work.Translated (w : Work) (type : AstType) (t : Ty) : Prop :=
  ∃ fuel c, codegenType fuel type w.context = .ok (t, c)

/-- The types of the expression are compared by `codegen_stmt` itself. -/
def Stmt.compares : Stmt → Bool
  | .mk _ (.ifStmt _ _ _) => true
  | _ => false

section Typed
variable {fuel : Nat} {returnType asked : AstType} {result : Ty} {w w₁ w' : Work} {inLoop : Bool} {stmt : Stmt}
  {prepared : Expr} {value : Llvm.Value}

theorem typeEqual_bool {type : AstType} (same : typeEqual type boolType = true) : type = boolType := by
  obtain ⟨pointer, kind⟩ := type
  cases kind <;> simp_all [boolType, typeEqual, kindEqual]

theorem translated_bool : w.Translated boolType (.int 1) := ⟨1, w.context, rfl⟩

/-- The condition of an `if` is compared with `bool`. -/
theorem Takes.compared (run : w.Runs fuel returnType w') (done : w'.jobs = [])
    (takes : Takes fuel returnType w inLoop stmt asked prepared value) (compares : stmt.compares = true) :
    prepared.type = asked := by
  obtain ⟨before, first, after, own, next, top⟩ := takes
  cases own with
  | loop | ret => cases compares
  | test =>
    obtain ⟨more, w₂, _, _, ran, _⟩ := Work.Runs.first (run.to_end done (before.trans after)) done next
    obtain ⟨⟨prepared', value'⟩, r, top', ran⟩ := bind_ok.mp ran
    cases top.symm.trans top'
    dsimp only at ran
    split at ran
    · cases ran
    · next same => exact typeEqual_bool (by simpa using same)

/-- What LLVM accepts is of its type for what is asked. -/
theorem Takes.accepted (takes : Takes fuel returnType w inLoop stmt asked prepared value)
    (translated : w.Translated returnType result)
    (all : ∀ ending, Endings fuel returnType w ending → ending.WellFormed result) :
    w.Translated asked value.type := by
  have built := all _ (.takes takes)
  obtain ⟨before, first, after, own, next, top⟩ := takes
  cases own with
  | test | loop =>
    have bit : value.type = .int 1 := built
    exact bit ▸ translated_bool
  | ret =>
    have typed : value.type = result := built.1
    exact typed ▸ translated

end Typed

section Known
variable {fuel : Nat} {returnType : AstType} {w w₁ w' : Work} {states : List Work}

theorem Work.Runs.ended (run : w.Runs fuel returnType w₁) (done : w.jobs = []) : w₁ = w := by
  obtain same | ⟨w₂, step, _⟩ := run.cases_head
  · exact same.symm
  · obtain ⟨job, jobs, more, first, _⟩ := Work.Steps.job step
    cases done.symm.trans first

/-- A run to the end goes through its states only. -/
theorem Work.Runs.known (chain : List.IsChain (Work.Steps fuel returnType) (w :: states))
    (last : (w :: states).getLast? = some w') (done : w'.jobs = []) :
    w.Runs fuel returnType w' ∧ ∀ w₁, w.Runs fuel returnType w₁ → w₁ ∈ w :: states := by
  induction states generalizing w with
  | nil =>
    cases last
    exact ⟨.refl, fun w₁ run => List.mem_singleton.mpr (run.ended done)⟩
  | cons next states ih =>
    obtain ⟨step, chain⟩ := List.isChain_cons_cons.mp chain
    obtain ⟨rest, mem⟩ := ih chain (by simpa using last)
    refine ⟨.head step rest, fun w₁ run => ?_⟩
    obtain same | ⟨_, step', run⟩ := run.cases_head
    · exact same ▸ List.mem_cons_self
    · cases Option.some.inj (step.symm.trans step')
      exact List.mem_cons_of_mem _ (mem w₁ run)

end Known

section Return

end Return

end Low
