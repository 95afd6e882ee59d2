import LowCompiler.Codegen.Structured
import Mathlib.Algebra.GroupWithZero.Nat

/-!
# Statements keep their meaning

The graph that the code generator builds for a statement does what the statement is
meant to do. The code of each part of a statement is laid out somewhere in the graph;
a state of the structured meaning belongs to the place where the code of its statement
begins, or where the code around a complete statement goes on.
-/

namespace Low

open Builder

variable {g : Builder Event Expr}

/-! ### Code in a graph -/

/-- The initial expression of a loop, or its step, from one place to another. -/
def ClauseLaid (g : Builder Event Expr) (clause : Option Expr) (start stop : Nat × Nat) : Prop :=
  match clause with
  | none => stop = start
  | some expr => At g start (.plain (.expr expr)) ∧ stop = (start.1, start.2 + 1)

def TestLaid (g : Builder Event Expr) (condition : Option Expr) (n body exit : Nat) : Prop :=
  match condition with
  | none => At g (n, 0) (.br body)
  | some expr => At g (n, 0) (.plain (.expr expr)) ∧ At g (n, 1) (.condBr expr body exit)

/-- The code of a statement between two places. There is no second place where the statement sets
`is_terminated`. -/
inductive Laid (g : Builder Event Expr) : Option Nat → Option Nat → Code → Nat × Nat → Option (Nat × Nat) → Prop where
  | expr {onContinue onBreak loc expr start} : At g start (.plain (.expr expr)) →
      Laid g onContinue onBreak (.stmt (.mk loc (.exprStmt expr))) start (some (start.1, start.2 + 1))
  | compound {onContinue onBreak loc items start stop} : Laid g onContinue onBreak (.items items) start stop →
      Laid g onContinue onBreak (.stmt (.mk loc (.compoundStmt items))) start stop
  | ifThen {onContinue onBreak loc condition stmt n start stop} : At g start (.plain (.expr condition)) →
      At g (start.1, start.2 + 1) (.condBr condition n (n + 1)) →
      Laid g onContinue onBreak (.nullable stmt) (n, 0) stop →
      (∀ place, stop = some place → At g place (.br (n + 1))) →
      Laid g onContinue onBreak (.stmt (.mk loc (.ifStmt condition stmt none))) start (some (n + 1, 0))
  | ifElse {onContinue onBreak loc condition stmt elseStmt n start stop₁ stop₂ stop} :
      At g start (.plain (.expr condition)) → At g (start.1, start.2 + 1) (.condBr condition n (n + 1)) →
      Laid g onContinue onBreak (.nullable stmt) (n, 0) stop₁ →
      Laid g onContinue onBreak (.stmt elseStmt) (n + 1, 0) stop₂ →
      (∀ place, stop₁ = some place ∨ stop₂ = some place → At g place (.br (n + 2)) ∧ stop = some (n + 2, 0)) →
      Laid g onContinue onBreak (.stmt (.mk loc (.ifStmt condition stmt (some elseStmt)))) start stop
  | forLoop {onContinue onBreak loc initial condition step stmt n start place stop} :
      ClauseLaid g initial start place → At g place (.br n) → TestLaid g condition n (n + 1) (n + 3) →
      Laid g (some (n + 2)) (some (n + 3)) (.nullable stmt) (n + 1, 0) stop →
      (∀ place, stop = some place → At g place (.br (n + 2))) →
      (∃ place, ClauseLaid g step (n + 2, 0) place ∧ At g place (.br n)) →
      Laid g onContinue onBreak (.stmt (.mk loc (.forStmt initial condition step stmt))) start (some (n + 3, 0))
  | continueTo {n onBreak loc start} : At g start (.br n) →
      Laid g (some n) onBreak (.stmt (.mk loc .continueStmt)) start none
  | breakTo {onContinue n loc start} : At g start (.br n) →
      Laid g onContinue (some n) (.stmt (.mk loc .breakStmt)) start none
  | returnStmt {onContinue onBreak loc expr start place} : ClauseLaid g expr start place → At g place (.ret expr) →
      Laid g onContinue onBreak (.stmt (.mk loc (.returnStmt expr))) start none
  | nil {onContinue onBreak start} : Laid g onContinue onBreak (.items []) start (some start)
  | jump {onContinue onBreak stmt items start} : Laid g onContinue onBreak (.nullable stmt) start none →
      Laid g onContinue onBreak (.items (.stmtItem stmt :: items)) start none
  | stmtItem {onContinue onBreak stmt items start place stop} :
      Laid g onContinue onBreak (.nullable stmt) start (some place) →
      Laid g onContinue onBreak (.items items) place stop →
      Laid g onContinue onBreak (.items (.stmtItem stmt :: items)) start stop
  | declItem {onContinue onBreak decl items start stop} : At g start (.plain (.decl decl)) →
      Laid g onContinue onBreak (.items items) (start.1, start.2 + 1) stop →
      Laid g onContinue onBreak (.items (.declItem decl :: items)) start stop
  | null {onContinue onBreak start} : Laid g onContinue onBreak (.nullable none) start (some start)
  | some {onContinue onBreak stmt start stop} : Laid g onContinue onBreak (.stmt stmt) start stop →
      Laid g onContinue onBreak (.nullable (some stmt)) start stop

structure LoopLaid (g : Builder Event Expr) (condition step : Option Expr) (stmt : Option Stmt) (n : Nat) : Prop where
  test : TestLaid g condition n (n + 1) (n + 3)
  body : ∃ stop, Laid g (some (n + 2)) (some (n + 3)) (.nullable stmt) (n + 1, 0) stop ∧
    ∀ place, stop = some place → At g place (.br (n + 2))
  step : ∃ place, ClauseLaid g step (n + 2, 0) place ∧ At g place (.br n)

/-! ### The graph is laid out by the code generator -/

section Layout
variable {type : Expr → AstType} {env : CodegenEnv} {b b' : Builder Event Expr} {code : Code} {terminated : Bool}
  {pending : List Nat}

/-- Where a statement leaves the builder, unless it set `is_terminated`. -/
def stopOf (b : Builder Event Expr) (terminated : Bool) : Option (Nat × Nat) :=
  if terminated then none else some b.place

theorem codegenClause_laid {clause : Option Expr} (ready : Ready pending b)
    (built : codegenClause (atomicGen type) b clause = some b') (grows : Grows b' g) :
    ClauseLaid g clause b.place b'.place := by
  cases clause with
  | none =>
    cases built
    exact rfl
  | some expr =>
    cases built
    exact ⟨at_build _ ready.inside grows, place_build _ ready.inside⟩

theorem codegenTest_laid {condition : Option Expr} {n body exit : Nat} (ready : Ready pending b)
    (start : b.place = (n, 0)) (built : codegenTest (atomicGen type) b body exit condition = some b')
    (grows : Grows b' g) : TestLaid g condition n body exit := by
  cases condition with
  | none =>
    cases built
    have here := at_build _ ready.inside grows
    rwa [start] at here
  | some expr =>
    cases built
    have ready' := ready.plain (.expr expr)
    have here := at_build _ ready.inside ((Grows.build _ _).trans grows)
    have there := at_build _ ready'.inside grows
    rw [place_build _ ready.inside, start] at there
    rw [start] at here
    exact ⟨here, there⟩

theorem at_brUnless {n : Nat} (left : Left pending b terminated) (grows : Grows (b.brUnless terminated n) g) :
    ∀ place, stopOf b terminated = some place → At g place (.br n) := by
  intro place stop
  cases terminated with
  | true => cases stop
  | false =>
    cases stop
    exact at_build _ (Ready.toTidy left).inside grows

theorem emit_single (b : Builder Event Expr) (event : Event) :
    b.emit [.instr event] = b.build (.plain event) := rfl

/-- An expression, and the instruction after it, in the same block or behind new ones. -/
theorem exprThen_laid {expr : Expr} {b₀ b₁ : Builder Event Expr} {instr : Instr Event Expr} (ready : Ready pending b)
    (built : b.build (.plain (.expr expr)) = b₀) (blocks : Grows b₀ b₁) (current : b₁.current = b₀.current)
    (place : b₁.place = b₀.place) (grows : Grows (b₁.build instr) g) :
    At g b.place (.plain (.expr expr)) ∧ At g (b.place.1, b.place.2 + 1) instr := by
  subst built
  have inside : b₁.current < b₁.blocks.length :=
    current ▸ Nat.lt_of_lt_of_le (ready.plain (.expr expr)).inside blocks.length
  have there := at_build instr inside grows
  rw [place, place_build _ ready.inside] at there
  exact ⟨at_build _ ready.inside (blocks.trans ((Grows.build _ _).trans grows)), there⟩

theorem Compiled.laid (run : Compiled (atomicGen type) env b code b' terminated)
    (isClean : code.clean (atomicGen type) = true) (ready : Ready pending b) (grows : Grows b' g) :
    Laid g env.continueBlock env.breakBlock code b.place (stopOf b' terminated) := by
  induction run generalizing pending with
  | @expr _ b _ _ _ _ _ built =>
    cases built
    rw [stopOf, if_neg Bool.false_ne_true, show (b.emit [.instr _]).place = _ from place_build _ ready.inside]
    exact .expr (at_build _ ready.inside grows)
  | compound _ ih => exact .compound (ih isClean ready grows)
  | @ifThen _ b _ condition _ _ _ _ b₁ terminated n built _ here run ih =>
    cases built
    rw [emit_single] at here run ih
    have ready₀ := ready.plain (.expr condition)
    generalize same : b.build (.plain (.expr condition)) = b₀ at here run ih ready₀
    subst here
    have start := ready₀.startTwo (.condBr condition b₀.blocks.length (b₀.blocks.length + 1)) rfl
    have left := run.left isClean start
    have growsExit : Grows (b₁.brUnless terminated (b₀.blocks.length + 1)) g := (Grows.positionAtEnd _ _).trans grows
    have growsBody : Grows b₁ g := (brUnless_grows _ _ _).trans growsExit
    obtain ⟨here, test⟩ := exprThen_laid ready same (.appendTwo b₀) rfl (by simp)
      ((Grows.positionAtEnd _ _).trans (run.builds.grows.trans growsBody))
    have body := ih isClean start growsBody
    rw [place_start _ b₀.appendBlock.appendBlock ready₀.inside rfl (Grows.appendTwo b₀).length (by simp)] at body
    rw [stopOf, if_neg Bool.false_ne_true, (left.brUnless _).place List.mem_cons_self]
    exact .ifThen here test body (at_brUnless left growsExit)
  | @ifElse _ b _ condition _ _ _ _ _ b₁ b₂ onTrue onFalse n built _ here runTrue runFalse ihTrue ihFalse =>
    cases built
    rw [emit_single] at here runTrue ihTrue
    have ready₀ := ready.plain (.expr condition)
    generalize same : b.build (.plain (.expr condition)) = b₀ at here runTrue ihTrue ready₀
    subst here
    obtain ⟨cleanTrue, cleanFalse⟩ := Bool.and_eq_true_iff.mp isClean
    have start := ready₀.startThree (.condBr condition b₀.blocks.length (b₀.blocks.length + 1)) rfl
    have leftTrue := runTrue.left cleanTrue start
    have startFalse := (leftTrue.brUnless (b₀.blocks.length + 2)).positionAtEnd (.swap _ _ _)
    have leftFalse := runFalse.left cleanFalse startFalse
    have growsExit : Grows ((b₂.brUnless onFalse (b₀.blocks.length + 2)).positionAtEnd (b₀.blocks.length + 2)) g := by
      refine .trans ?_ grows
      split
      · exact .build _ _
      · exact .refl _
    have growsEnd : Grows (b₂.brUnless onFalse (b₀.blocks.length + 2)) g := (Grows.positionAtEnd _ _).trans growsExit
    have growsFalse : Grows b₂ g := (brUnless_grows _ _ _).trans growsEnd
    have growsMiddle : Grows (b₁.brUnless onTrue (b₀.blocks.length + 2)) g :=
      (Grows.positionAtEnd _ _).trans (runFalse.builds.grows.trans growsFalse)
    have growsTrue : Grows b₁ g := (brUnless_grows _ _ _).trans growsMiddle
    obtain ⟨here, test⟩ := exprThen_laid ready same (.appendThree b₀) rfl (by simp)
      ((Grows.positionAtEnd _ _).trans (runTrue.builds.grows.trans growsTrue))
    have laidTrue := ihTrue cleanTrue start growsTrue
    have laidFalse := ihFalse cleanFalse startFalse growsFalse
    rw [place_start _ b₀.appendBlock.appendBlock.appendBlock ready₀.inside rfl (Grows.appendThree b₀).length
      (by simp)] at laidTrue
    rw [(leftTrue.brUnless _).place (List.mem_cons_of_mem _ List.mem_cons_self)] at laidFalse
    refine .ifElse here test laidTrue laidFalse fun place stop => ?_
    have both : (onFalse && onTrue) = false := by
      rcases stop with stop | stop
      · cases onTrue with
        | true => cases stop
        | false => exact Bool.and_false _
      · cases onFalse with
        | true => cases stop
        | false => rfl
    rw [both, stopOf, if_neg Bool.false_ne_true, if_neg Bool.false_ne_true,
      (leftFalse.brUnless _).place List.mem_cons_self]
    exact ⟨stop.elim (at_brUnless leftTrue growsMiddle place) (at_brUnless leftFalse growsEnd place), rfl⟩
  | @forLoop _ b _ initial condition step stmt b₁ b₂ b₃ b₄ terminated n first here test body last ih =>
    subst here
    obtain ⟨cleanBody, falls⟩ := Bool.and_eq_true_iff.mp isClean
    let n := b₁.blocks.length
    have ready₁ := codegenClause_ready first ready
    have loops := ready₁.startFour (.br n) rfl
    have tested := codegenTest_finished test loops
    have start := tested.positionAtEnd (List.perm_middle : ([n + 3, n + 2] ++ (n + 1) :: pending).Perm _)
    have left := body.left cleanBody start
    have ready₃ : Ready ((n + 3) :: (n + 2) :: pending) b₃ := by
      rw [body.terminated.trans (Bool.not_eq_true' _ ▸ falls)] at left
      exact left
    have stepped := (ready₃.finish (.br (n + 2)) rfl).positionAtEnd (.swap _ _ _)
    have ready₄ := codegenClause_ready last stepped
    have growsEnd : Grows (b₄.build (.br n)) g := (Grows.positionAtEnd _ _).trans grows
    have growsStep : Grows b₄ g := (Grows.build _ _).trans growsEnd
    have growsJump : Grows (b₃.build (.br (n + 2))) g :=
      (Grows.positionAtEnd _ _).trans ((codegenClause_grows last).trans growsStep)
    have growsBody : Grows b₃ g := (Grows.build _ _).trans growsJump
    have growsTest : Grows b₂ g := (Grows.positionAtEnd _ _).trans (body.builds.grows.trans growsBody)
    have growsLoop : Grows (b₁.appendBlock.appendBlock.appendBlock.appendBlock.build (.br n)) g :=
      (Grows.positionAtEnd _ _).trans ((codegenTest_grows test).trans growsTest)
    have enter := at_build _ ready₁.appendBlock.appendBlock.appendBlock.appendBlock.inside growsLoop
    simp only [place_appendBlock] at enter
    have bodyLaid := ih cleanBody start growsBody
    rw [tested.place (by simp)] at bodyLaid
    have stepLaid := codegenClause_laid stepped last growsStep
    rw [(ready₃.finish (.br (n + 2)) rfl).place (by simp)] at stepLaid
    rw [stopOf, if_neg Bool.false_ne_true, (ready₄.finish (.br n) rfl).place List.mem_cons_self]
    refine .forLoop (codegenClause_laid ready first ((Grows.appendFour b₁).trans ((Grows.build _ _).trans growsLoop)))
      enter (codegenTest_laid loops ?_ test growsTest) bodyLaid (at_brUnless left ?_)
      ⟨_, stepLaid, at_build _ ready₄.inside growsEnd⟩
    · exact place_start _ b₁.appendBlock.appendBlock.appendBlock.appendBlock ready₁.inside rfl
        (Grows.appendFour b₁).length (by simp)
    · rwa [body.terminated.trans (Bool.not_eq_true' _ ▸ falls)]
  | continueTo target =>
    rw [target]
    exact .continueTo (at_build _ ready.inside grows)
  | breakTo target =>
    rw [target]
    exact .breakTo (at_build _ ready.inside grows)
  | @returnExpr _ b _ expr _ _ _ built =>
    cases built
    have ready' := ready.plain (.expr expr)
    refine .returnStmt ⟨at_build _ ready.inside ((Grows.build _ _).trans grows), rfl⟩ ?_
    rw [← place_build (.plain (.expr expr)) ready.inside]
    exact at_build _ ready'.inside grows
  | returnVoid => exact .returnStmt rfl (at_build _ ready.inside grows)
  | nil => exact .nil
  | @stmtItem _ _ stmt items b₁ b₂ first later runFirst runLater ihFirst ihLater =>
    simp only [Code.clean, itemsClean, Bool.and_eq_true, Bool.not_eq_true'] at isClean
    obtain ⟨⟨cleanFirst, cleanLater⟩, separate⟩ := isClean
    have laid := ihFirst cleanFirst ready (runLater.builds.grows.trans grows)
    cases first with
    | true => exact .jump laid
    | false => exact .stmtItem laid (ihLater cleanLater (runFirst.left cleanFirst ready) grows)
  | @declItem _ b decl _ _ _ _ built run ih =>
    cases built
    refine .declItem (at_build _ ready.inside (run.builds.grows.trans grows)) ?_
    rw [← place_build (.plain (.decl decl)) ready.inside]
    exact ih isClean (ready.plain _) grows
  | null => exact .null
  | some _ ih => exact .some (ih isClean ready grows)

end Layout

/-! ### States and places -/

/-- The code at a place goes on with what the frames hold. It may get there by branches. -/
inductive After (g : Builder Event Expr) : List Frame → Option Nat → Option Nat → Nat × Nat → Prop where
  | done : After g [] none none g.place
  | items {items frames onContinue onBreak start stop} : Laid g onContinue onBreak (.items items) start stop →
      (∀ place, stop = some place → After g frames onContinue onBreak place) →
      After g (.items items :: frames) onContinue onBreak start
  | loop {condition step stmt frames n onBreak} : After g (.loop condition step stmt :: frames) (some n) onBreak (n, 0)
  | branch {frames onContinue onBreak start n} : At g start (.br n) → After g frames onContinue onBreak (n, 0) →
      After g frames onContinue onBreak start

/-- The blocks for `continue` and `break` are those of the innermost loop. -/
inductive Inside (g : Builder Event Expr) : List Frame → Option Nat → Option Nat → Prop where
  | nil : Inside g [] none none
  | items {items frames onContinue onBreak} : Inside g frames onContinue onBreak →
      Inside g (.items items :: frames) onContinue onBreak
  | loop {condition step stmt frames onContinue onBreak n} : LoopLaid g condition step stmt n →
      After g frames onContinue onBreak (n + 3, 0) → Inside g frames onContinue onBreak →
      Inside g (.loop condition step stmt :: frames) (some (n + 2)) (some (n + 3))

def ControlAt (g : Builder Event Expr) (frames : List Frame) (onContinue onBreak : Option Nat)
    (place : Nat × Nat) :
    Control → Prop
  | .run stmt => ∃ stop, Laid g onContinue onBreak (.stmt stmt) place stop ∧
      ∀ next, stop = some next → After g frames onContinue onBreak next
  | .test condition step stmt => ∃ n, place = (n, 0) ∧ LoopLaid g condition step stmt n ∧
      After g frames onContinue onBreak (n + 3, 0)
  | .next => After g frames onContinue onBreak place

def Related (g : Builder Event Expr) (state : StmtState) (config : Config) : Prop :=
  state.outcomes = config.outcomes ∧ ∃ onContinue onBreak, Inside g state.frames onContinue onBreak ∧
    ControlAt g state.frames onContinue onBreak config.place state.control

noncomputable def frameSize : Frame → Nat
  | .items items => 1 + sizeOf items
  | .loop _ _ _ => 0

/-- What falls where the graph does not take a step: the statements and items that are left to enter. -/
noncomputable def stateSize (state : StmtState) : Nat :=
  (match state.control with
    | .run stmt => sizeOf stmt
    | _ => 0) + (state.frames.map frameSize).sum

/-- The code at a place is that for the innermost frame. -/
def Resumes (g : Builder Event Expr) (onContinue onBreak : Option Nat) (place : Nat × Nat) : List Frame → Prop
  | [] => place = g.place
  | .items rest :: outer => ∃ stop, Laid g onContinue onBreak (.items rest) place stop ∧
      ∀ next, stop = some next → After g outer onContinue onBreak next
  | .loop _ _ _ :: _ => ∃ n, onContinue = some n ∧ place = (n, 0)

section States
variable {frames : List Frame} {onContinue onBreak : Option Nat} {place : Nat × Nat} {outcomes : Nat → Bool}

/-- The branches at a place lead to the code for the innermost frame. -/
theorem After.follow (after : After g frames onContinue onBreak place) (outcomes : Nat → Bool) : ∃ count place',
    g.machine.run count (.inl ⟨place, outcomes⟩) = ([], .inl ⟨place', outcomes⟩) ∧
      Resumes g onContinue onBreak place' frames := by
  induction after with
  | done => exact ⟨0, _, rfl, rfl⟩
  | items laid after => exact ⟨0, _, rfl, _, laid, after⟩
  | loop => exact ⟨0, _, rfl, _, rfl, rfl⟩
  | branch here _ ih =>
    obtain ⟨count, place', steps, found⟩ := ih
    exact ⟨count + 1, place', by rw [Machine.run_step (step_br here), steps]; rfl, found⟩

theorem ControlAt.nullable {stmt : Option Stmt} {stop : Option (Nat × Nat)}
    (laid : Laid g onContinue onBreak (.nullable stmt) place stop)
    (after : ∀ next, stop = some next → After g frames onContinue onBreak next) :
    ControlAt g frames onContinue onBreak place (.nullable stmt) := by
  cases laid with
  | null => exact after _ rfl
  | some laid => exact ⟨_, laid, after⟩

theorem Inside.innermost (inside : Inside g frames onContinue onBreak) {target : Nat}
    (jumps : onContinue = some target ∨ onBreak = some target) :
    ∃ condition step stmt outer n outerContinue outerBreak,
      Low.innermost frames = some (.loop condition step stmt, outer) ∧ onContinue = some (n + 2) ∧
        onBreak = some (n + 3) ∧ LoopLaid g condition step stmt n ∧
        After g outer outerContinue outerBreak (n + 3, 0) ∧ Inside g outer outerContinue outerBreak ∧
        (outer.map frameSize).sum ≤ (frames.map frameSize).sum := by
  induction inside with
  | nil => simp at jumps
  | items _ ih =>
    obtain ⟨condition, step, stmt, outer, n, outerContinue, outerBreak, found, onContinue, onBreak, laid, after,
      inside, le⟩ := ih jumps
    exact ⟨condition, step, stmt, outer, n, outerContinue, outerBreak, found, onContinue, onBreak, laid, after, inside,
      Nat.le_trans le (by simp)⟩
  | loop laid after inside _ =>
    exact ⟨_, _, _, _, _, _, _, rfl, rfl, rfl, laid, after, inside, by simp [frameSize]⟩

theorem run_clause {clause : Option Expr} {stop : Nat × Nat} (laid : ClauseLaid g clause place stop)
    (outcomes : Nat → Bool) :
    ∃ count, g.machine.run count (.inl ⟨place, outcomes⟩) = (clauseEvents clause, .inl ⟨stop, outcomes⟩) := by
  cases clause with
  | none =>
    cases laid
    exact ⟨0, rfl⟩
  | some expr =>
    obtain ⟨here, rfl⟩ := laid
    exact ⟨1, by rw [Machine.run_one, step_plain here]; rfl⟩

end States

/-! ### Each step -/

/-- A step of the structured meaning, done by the graph. -/
inductive Simulated (g : Builder Event Expr) (state : StmtState) (config : Config) : Prop where
  | goes {events state' count config'} : structured.step state = (events, .inl state') →
      g.machine.run count (.inl config) = (events, .inl config') → Related g state' config' →
      0 < count ∨ stateSize state' < stateSize state → Simulated g state config
  | ends {events result count} : structured.step state = (events, .inr result) →
      g.machine.run count (.inl config) = (events, .inr result) → result ≠ .stuck → Simulated g state config

section Steps
variable {frames : List Frame} {onContinue onBreak : Option Nat} {place : Nat × Nat} {outcomes : Nat → Bool}

theorem stateSize_item (stmt : Option Stmt) (items : List (BlockItem Stmt)) (frames : List Frame)
    (outcomes : Nat → Bool) :
    stateSize ⟨.nullable stmt, .items items :: frames, outcomes⟩ <
      stateSize ⟨.next, .items (.stmtItem stmt :: items) :: frames, outcomes⟩ := by
  cases stmt with
  | none =>
    simp [stateSize, frameSize, Control.nullable]
  | some stmt =>
    simp [stateSize, frameSize, Control.nullable]
    omega

theorem simulated_run {stmt : Stmt} {stop : Option (Nat × Nat)} (inside : Inside g frames onContinue onBreak)
    (laid : Laid g onContinue onBreak (.stmt stmt) place stop)
    (after : ∀ next, stop = some next → After g frames onContinue onBreak next) :
    Simulated g ⟨.run stmt, frames, outcomes⟩ ⟨place, outcomes⟩ := by
  cases laid with
  | expr here =>
    have step : g.machine.run 1 (.inl ⟨place, outcomes⟩) = _ := Machine.run_one.trans (step_plain here)
    exact .goes rfl step ⟨rfl, _, _, inside, after _ rfl⟩ (.inl Nat.one_pos)
  | @compound _ _ loc items _ _ laid =>
    refine .goes rfl (Machine.run_zero _ _) ⟨rfl, _, _, .items inside, .items laid after⟩ (.inr ?_)
    simp only [stateSize, frameSize, List.map_cons, List.sum_cons, Stmt.mk.sizeOf_spec,
      StmtKind.compoundStmt.sizeOf_spec]
    omega
  | @ifThen _ _ loc condition stmt n _ stop here test laid exit =>
    have branches : ControlAt g frames onContinue onBreak (if outcomes 0 then n else n + 1, 0)
        (.nullable (if outcomes 0 then stmt else none)) := by
      cases outcomes 0 with
      | true => exact .nullable laid fun next stop => .branch (exit next stop) (after _ rfl)
      | false => exact after _ rfl
    exact .goes rfl (run_test outcomes here test) ⟨rfl, _, _, inside, branches⟩ (.inl Nat.two_pos)
  | @ifElse _ _ loc condition stmt elseStmt n _ stop₁ stop₂ _ here test onTrue onFalse exit =>
    have joins (next : Nat × Nat) (stop : stop₁ = some next ∨ stop₂ = some next) :
        After g frames onContinue onBreak next := .branch (exit next stop).1 (after _ (exit next stop).2)
    have branches : ControlAt g frames onContinue onBreak (if outcomes 0 then n else n + 1, 0)
        (.nullable (if outcomes 0 then stmt else some elseStmt)) := by
      cases outcomes 0 with
      | true => exact .nullable onTrue fun next stop => joins next (.inl stop)
      | false => exact ⟨_, onFalse, fun next stop => joins next (.inr stop)⟩
    exact .goes rfl (run_test outcomes here test) ⟨rfl, _, _, inside, branches⟩ (.inl Nat.two_pos)
  | @forLoop _ _ loc initial condition step stmt n _ middle stop first enter test body exit last =>
    obtain ⟨count, clause⟩ := run_clause first outcomes
    have run := Machine.run_trans clause (Machine.run_one.trans (step_br enter))
    rw [List.append_nil] at run
    exact .goes rfl run ⟨rfl, _, _, inside, n, rfl, ⟨test, ⟨stop, body, exit⟩, last⟩, after _ rfl⟩
      (.inl (Nat.succ_pos _))
  | @continueTo target _ loc _ here =>
    obtain ⟨condition, step, body, outer, n, _, _, found, same, rfl, laid, exit, outside, le⟩ := inside.innermost (.inl rfl)
    cases same
    have step : structured.step ⟨.run (.mk loc .continueStmt), frames, outcomes⟩ =
        ([], .inl ⟨.next, .loop condition step body :: outer, outcomes⟩) := by
      simp only [structured, stepStmt, found]
    refine .goes step (Machine.run_zero _ _) ⟨rfl, _, _, .loop laid exit outside, .branch here .loop⟩ (.inr ?_)
    simp only [stateSize, frameSize, List.map_cons, List.sum_cons, Stmt.mk.sizeOf_spec]
    omega
  | @breakTo _ target loc _ here =>
    obtain ⟨condition, step, body, outer, n, _, _, found, rfl, same, laid, exit, outside, le⟩ := inside.innermost (.inr rfl)
    cases same
    have step : structured.step ⟨.run (.mk loc .breakStmt), frames, outcomes⟩ = ([], .inl ⟨.next, outer, outcomes⟩) := by
      simp only [structured, stepStmt, found]
    exact .goes step (Machine.run_one.trans (step_br here)) ⟨rfl, _, _, outside, exit⟩ (.inl Nat.one_pos)
  | returnStmt clause here =>
    obtain ⟨count, first⟩ := run_clause clause outcomes
    have run := Machine.run_trans first (Machine.run_one.trans (step_ret here))
    rw [List.append_nil] at run
    exact .ends rfl run (by simp)

theorem simulated_test {condition step : Option Expr} {stmt : Option Stmt} {n : Nat}
    (inside : Inside g frames onContinue onBreak) (laid : LoopLaid g condition step stmt n)
    (after : After g frames onContinue onBreak (n + 3, 0)) :
    Simulated g ⟨.test condition step stmt, frames, outcomes⟩ ⟨(n, 0), outcomes⟩ := by
  obtain ⟨stop, body, exit⟩ := laid.body
  have onTrue : ControlAt g (.loop condition step stmt :: frames) (some (n + 2)) (some (n + 3)) (n + 1, 0)
      (.nullable stmt) := .nullable body fun next stop => .branch (exit next stop) .loop
  have test := laid.test
  cases condition with
  | none =>
    exact .goes rfl (Machine.run_one.trans (step_br test)) ⟨rfl, _, _, .loop laid after inside, onTrue⟩ (.inl Nat.one_pos)
  | some expr =>
    obtain ⟨here, test⟩ := test
    have run := run_test outcomes here test
    cases outcome : outcomes 0 with
    | true =>
      have step : structured.step ⟨.test (some expr) step stmt, frames, outcomes⟩ =
          ([.expr expr], .inl ⟨.nullable stmt, .loop (some expr) step stmt :: frames, later outcomes⟩) := by
        simp only [structured, outcome, if_true]
      rw [outcome] at run
      exact .goes step run ⟨rfl, _, _, .loop laid after inside, onTrue⟩ (.inl Nat.two_pos)
    | false =>
      have step : structured.step ⟨.test (some expr) step stmt, frames, outcomes⟩ =
          ([.expr expr], .inl ⟨.next, frames, later outcomes⟩) := by
        simp only [structured, outcome, Bool.false_eq_true, if_false]
      rw [outcome] at run
      exact .goes step run ⟨rfl, _, _, inside, after⟩ (.inl Nat.two_pos)

theorem simulated_next (inside : Inside g frames onContinue onBreak)
    (after : After g frames onContinue onBreak place) :
    Simulated g ⟨.next, frames, outcomes⟩ ⟨place, outcomes⟩ := by
  obtain ⟨count, place', run, resumes⟩ := after.follow outcomes
  cases inside with
  | nil =>
    obtain rfl : place' = g.place := resumes
    exact .ends rfl (Machine.run_trans run (Machine.run_one.trans (step_end rfl))) nofun
  | items inside =>
    obtain ⟨stop, laid, onward⟩ := resumes
    cases laid with
    | nil =>
      refine .goes rfl run ⟨rfl, _, _, inside, onward _ rfl⟩ (.inr ?_)
      simp [stateSize, frameSize]
    | jump laid =>
      exact .goes rfl run ⟨rfl, _, _, .items inside, .nullable laid nofun⟩ (.inr (stateSize_item ..))
    | stmtItem laid rest =>
      refine .goes rfl run ⟨rfl, _, _, .items inside, .nullable laid fun next stop => ?_⟩ (.inr (stateSize_item ..))
      cases stop
      exact .items rest onward
    | declItem here rest =>
      have more := Machine.run_trans run (Machine.run_one.trans (step_plain here))
      exact .goes rfl more ⟨rfl, _, _, .items inside, .items rest onward⟩ (.inl (Nat.succ_pos _))
  | @loop condition step stmt frames outerContinue outerBreak n laid exit inside =>
    obtain ⟨_, same, rfl⟩ := resumes
    cases same
    obtain ⟨stop, clause, back⟩ := laid.step
    obtain ⟨more, stepped⟩ := run_clause clause outcomes
    have all := Machine.run_trans run (Machine.run_trans stepped (Machine.run_one.trans (step_br back)))
    rw [List.append_nil, List.nil_append] at all
    exact .goes rfl all ⟨rfl, _, _, inside, n, rfl, laid, exit⟩ (.inl (Nat.lt_of_lt_of_le (Nat.succ_pos _) (Nat.le_add_left _ _)))

theorem related_simulated {state : StmtState} {config : Config} (related : Related g state config) :
    Simulated g state config := by
  obtain ⟨control, frames, outcomes⟩ := state
  obtain ⟨place, _⟩ := config
  obtain ⟨rfl, onContinue, onBreak, inside, at'⟩ := related
  cases control with
  | run stmt =>
    obtain ⟨stop, laid, after⟩ := at'
    exact simulated_run inside laid after
  | test condition step stmt =>
    obtain ⟨n, rfl, laid, after⟩ := at'
    exact simulated_test inside laid after
  | next => exact simulated_next inside at'

end Steps

theorem structured_simulation (g : Builder Event Expr) :
    Machine.Simulation structured g.machine (Related g) stateSize where
  goes related step := by
    cases related_simulated related with
    | goes step' run related' progress =>
      rw [step] at step'
      cases step'
      exact ⟨_, _, run, related', progress⟩
    | ends step' =>
      rw [step] at step'
      cases step'
  ends related step := by
    cases related_simulated related with
    | goes step' =>
      rw [step] at step'
      cases step'
    | ends step' run =>
      rw [step] at step'
      cases step'
      exact ⟨_, run⟩

section Whole
variable {type : Expr → AstType} {start b : Builder Event Expr} {stmt : Stmt} {terminated : Bool}

/-- The graph that is built for a clean statement behaves as the statement is meant to, whatever the
outcomes of the conditions are: it has the same events, also where it runs for ever, and it ends in
the same way. -/
theorem codegenStmt_preserves (returnType : AstType) (outcomes : Nat → Bool) (ready : Ready [] start)
    (compiled : codegenStmt (atomicGen type) ⟨returnType, none, none⟩ start stmt = some (b, terminated))
    (isClean : clean (atomicGen type) stmt = true) :
    Machine.SameBehaviour structured b.machine ⟨.run stmt, [], outcomes⟩ ⟨start.place, outcomes⟩ ∧
      ∀ events, ¬structured.Ends ⟨.run stmt, [], outcomes⟩ events .stuck := by
  have laid := (codegenStmt_compiled stmt compiled).laid isClean ready (.refl b)
  have after (next : Nat × Nat) (stop : stopOf b terminated = some next) : After b [] none none next := by
    cases terminated with
    | true => cases stop
    | false =>
      cases stop
      exact .done
  have related : Related b ⟨.run stmt, [], outcomes⟩ ⟨start.place, outcomes⟩ :=
    ⟨rfl, none, none, .nil, _, laid, after⟩
  refine ⟨(structured_simulation b).sameBehaviour related, ?_⟩
  rintro events ⟨count, ends⟩
  obtain ⟨state, config, final, related', step⟩ := (structured_simulation b).last related ends
  cases related_simulated related' with
  | goes step' =>
    rw [step] at step'
    cases step'
  | ends step' _ live =>
    rw [step] at step'
    cases step'
    exact live rfl

end Whole

/-- `for c { if (d) break; e }`, where each third condition holds. -/
theorem loop_with_break_preserved :
    let ident (name : UInt8) : Expr := .mk ⟨0, 0⟩ .zero (.identExpr [name])
    let of (kind : StmtKind Stmt) : Stmt := .mk ⟨0, 0⟩ kind
    let stmt := of (.forStmt none (some (ident 99)) none (some (of (.compoundStmt
      [.stmtItem (some (of (.ifStmt (ident 100) (some (of .breakStmt)) none))),
        .stmtItem (some (of (.exprStmt (ident 101))))]))))
    let outcomes (n : Nat) := n % 3 = 0
    ∃ b : Builder Event Expr,
      Machine.SameBehaviour structured b.machine ⟨.run stmt, [], fun n => outcomes n⟩ ⟨(0, 0), fun n => outcomes n⟩ :=
  ⟨_, (codegenStmt_preserves .zero _ ready_entry
    (rfl : codegenStmt (atomicGen fun _ => .boolean) ⟨.zero, none, none⟩ .entry _ = _) rfl).1⟩

end Low
