import LowCompiler.Codegen.Structured

/-!
# How statements complete

A statement completes normally, or it jumps: to the step of the innermost loop, behind
that loop, or out of the function. A statement that sets `is_terminated` never completes
normally, whatever the outcomes of its conditions are.
-/

namespace Low

open Builder

inductive Completion where
  | normal
  | continued
  | broken
  | returned

/-- What is executed: a statement, the items of a compound statement, or a loop from its condition on. -/
inductive Task where
  | run (stmt : Option Stmt)
  | items (items : List (BlockItem Stmt))
  | loop (condition step : Option Expr) (stmt : Option Stmt)

/-- The executions of statements, over all outcomes of the conditions. -/
inductive Executes : Task → Completion → Prop where
  | null : Executes (.run none) .normal
  | expr {loc expr} : Executes (.run (some (.mk loc (.exprStmt expr)))) .normal
  | compound {loc items c} : Executes (.items items) c → Executes (.run (some (.mk loc (.compoundStmt items)))) c
  | onTrue {loc condition stmt elseStmt c} : Executes (.run stmt) c →
      Executes (.run (some (.mk loc (.ifStmt condition stmt elseStmt)))) c
  | onFalse {loc condition stmt elseStmt c} : Executes (.run elseStmt) c →
      Executes (.run (some (.mk loc (.ifStmt condition stmt elseStmt)))) c
  | forLoop {loc initial condition step stmt c} : Executes (.loop condition step stmt) c →
      Executes (.run (some (.mk loc (.forStmt initial condition step stmt)))) c
  | continueStmt {loc} : Executes (.run (some (.mk loc .continueStmt))) .continued
  | breakStmt {loc} : Executes (.run (some (.mk loc .breakStmt))) .broken
  | returnStmt {loc expr} : Executes (.run (some (.mk loc (.returnStmt expr)))) .returned
  | nil : Executes (.items []) .normal
  | item {stmt items c} : Executes (.run stmt) .normal → Executes (.items items) c →
      Executes (.items (.stmtItem stmt :: items)) c
  | jump {stmt items c} : Executes (.run stmt) c → c ≠ .normal → Executes (.items (.stmtItem stmt :: items)) c
  | decl {decl items c} : Executes (.items items) c → Executes (.items (.declItem decl :: items)) c
  | exit {condition step stmt} : Executes (.loop (some condition) step stmt) .normal
  | again {condition step stmt body c} : Executes (.run stmt) body → body = .normal ∨ body = .continued →
      Executes (.loop condition step stmt) c → Executes (.loop condition step stmt) c
  | leave {condition step stmt} : Executes (.run stmt) .broken → Executes (.loop condition step stmt) .normal
  | returnFrom {condition step stmt} : Executes (.run stmt) .returned → Executes (.loop condition step stmt) .returned

/-! ### The machine for statements -/

def Control.Executes : Control → Completion → Prop
  | .run stmt, c => Low.Executes (.run (some stmt)) c
  | .test condition step stmt, c => Low.Executes (.loop condition step stmt) c
  | .next, c => c = .normal

/-- After a completion, what is left around leads to the end of the function. -/
def Finishes : List Frame → Completion → Prop
  | [], c => c = .normal
  | .items items :: frames, .normal => ∃ c, Executes (.items items) c ∧ Finishes frames c
  | .items _ :: frames, c => Finishes frames c
  | .loop condition step stmt :: frames, .normal | .loop condition step stmt :: frames, .continued =>
    ∃ c, Executes (.loop condition step stmt) c ∧ Finishes frames c
  | .loop _ _ _ :: frames, .broken => Finishes frames .normal
  | .loop _ _ _ :: frames, .returned => Finishes frames .returned

section Runs
variable {frames : List Frame} {stmt : Option Stmt} {c : Completion}

theorem nullable_executes : (Control.nullable stmt).Executes c ↔ Executes (.run stmt) c := by
  cases stmt with
  | none =>
    refine ⟨?_, fun executes => ?_⟩
    · rintro rfl
      exact .null
    · cases executes
      rfl
  | some stmt => exact Iff.rfl

theorem finishes_item {items : List (BlockItem Stmt)} (executes : Executes (.run stmt) c)
    (finishes : Finishes (.items items :: frames) c) :
    ∃ c, Executes (.items (.stmtItem stmt :: items)) c ∧ Finishes frames c := by
  cases c with
  | normal =>
    obtain ⟨c, rest, after⟩ := finishes
    exact ⟨c, .item executes rest, after⟩
  | continued | broken | returned => exact ⟨_, .jump executes nofun, finishes⟩

theorem finishes_body {condition step : Option Expr} (executes : Executes (.run stmt) c)
    (finishes : Finishes (.loop condition step stmt :: frames) c) :
    ∃ c, Executes (.loop condition step stmt) c ∧ Finishes frames c := by
  cases c with
  | normal =>
    obtain ⟨c, more, after⟩ := finishes
    exact ⟨c, .again executes (.inl rfl) more, after⟩
  | continued =>
    obtain ⟨c, more, after⟩ := finishes
    exact ⟨c, .again executes (.inr rfl) more, after⟩
  | broken => exact ⟨.normal, .leave executes, finishes⟩
  | returned => exact ⟨.returned, .returnFrom executes, finishes⟩

theorem finishes_continued {loop : Frame} {outer : List Frame} (found : innermost frames = some (loop, outer))
    (finishes : Finishes (loop :: outer) .normal) : Finishes frames .continued := by
  induction frames with
  | nil => cases found
  | cons frame frames ih =>
    cases frame with
    | items _ => exact ih found
    | loop _ _ _ =>
      cases found
      exact finishes

theorem finishes_broken {loop : Frame} {outer : List Frame} (found : innermost frames = some (loop, outer))
    (finishes : Finishes outer .normal) : Finishes frames .broken := by
  induction frames with
  | nil => cases found
  | cons frame frames ih =>
    cases frame with
    | items _ => exact ih found
    | loop _ _ _ =>
      cases found
      exact finishes

/-- Some completion of what is to run next leads to the end. -/
def StmtState.Completes (state : StmtState) : Prop := ∃ c, state.control.Executes c ∧ Finishes state.frames c

theorem completes_of_stepStmt {loc : Loc} {kind : StmtKind Stmt} {outcomes : Nat → Bool} {events : List Event}
    {state : StmtState} (step : stepStmt frames outcomes kind = (events, .inl state))
    (completes : state.Completes) :
    StmtState.Completes ⟨.run (.mk loc kind), frames, outcomes⟩ := by
  obtain ⟨c, executes, finishes⟩ := completes
  cases kind with
  | exprStmt expr =>
    cases step
    exact ⟨.normal, .expr, executes ▸ finishes⟩
  | compoundStmt items =>
    cases step
    cases executes
    obtain ⟨c, executes, finishes⟩ := finishes
    exact ⟨c, .compound executes, finishes⟩
  | ifStmt condition stmt elseStmt =>
    cases step
    have taken := nullable_executes.mp executes
    cases outcome : outcomes 0 with
    | true => exact ⟨c, .onTrue (by simpa [outcome] using taken), finishes⟩
    | false => exact ⟨c, .onFalse (by simpa [outcome] using taken), finishes⟩
  | forStmt initial condition step stmt =>
    cases step
    exact ⟨c, .forLoop executes, finishes⟩
  | continueStmt =>
    cases found : innermost frames with
    | none => simp [stepStmt, found] at step
    | some place =>
      obtain ⟨loop, outer⟩ := place
      simp only [stepStmt, found] at step
      cases step
      exact ⟨.continued, .continueStmt, finishes_continued found (executes ▸ finishes)⟩
  | breakStmt =>
    cases found : innermost frames with
    | none => simp [stepStmt, found] at step
    | some place =>
      obtain ⟨loop, outer⟩ := place
      simp only [stepStmt, found] at step
      cases step
      exact ⟨.broken, .breakStmt, finishes_broken found (executes ▸ finishes)⟩
  | returnStmt | switchStmt | doStmt | gotoStmt | caseStmt | defaultStmt => cases step

theorem completes_of_stepFrames {outcomes : Nat → Bool} {events : List Event} {state : StmtState}
    (step : stepFrames outcomes frames = (events, .inl state)) (completes : state.Completes) :
    StmtState.Completes ⟨.next, frames, outcomes⟩ := by
  obtain ⟨c, executes, finishes⟩ := completes
  refine ⟨.normal, rfl, ?_⟩
  cases frames with
  | nil => cases step
  | cons frame frames =>
    cases frame with
    | items items =>
      cases items with
      | nil =>
        cases step
        exact ⟨.normal, .nil, executes ▸ finishes⟩
      | cons item items =>
        cases item with
        | stmtItem stmt =>
          cases step
          exact finishes_item (nullable_executes.mp executes) finishes
        | declItem decl =>
          cases step
          cases executes
          obtain ⟨c, executes, finishes⟩ := finishes
          exact ⟨c, .decl executes, finishes⟩
    | loop condition step stmt =>
      cases step
      exact ⟨c, executes, finishes⟩

theorem completes_of_step {events : List Event} {state next : StmtState}
    (step : structured.step state = (events, .inl next)) (completes : next.Completes) : state.Completes := by
  obtain ⟨control, frames, outcomes⟩ := state
  cases control with
  | run stmt =>
    obtain ⟨loc, kind⟩ := stmt
    exact completes_of_stepStmt step completes
  | next => exact completes_of_stepFrames step completes
  | test condition clause stmt =>
    obtain ⟨c, executes, finishes⟩ := completes
    cases condition with
    | none =>
      cases step
      exact finishes_body (nullable_executes.mp executes) finishes
    | some condition =>
      cases outcome : outcomes 0 with
      | true =>
        simp only [structured, outcome, if_true] at step
        cases step
        exact finishes_body (nullable_executes.mp executes) finishes
      | false =>
        simp only [structured, outcome, Bool.false_eq_true, if_false] at step
        cases step
        exact ⟨.normal, .exit, executes ▸ finishes⟩

/-- Only the end of the outermost statement completes the function. -/
theorem completes_of_completed {events : List Event} {state : StmtState}
    (step : structured.step state = (events, .inr .completed)) : state.Completes := by
  obtain ⟨control, frames, outcomes⟩ := state
  cases control with
  | run stmt =>
    obtain ⟨loc, kind⟩ := stmt
    cases kind with
    | continueStmt | breakStmt => cases found : innermost frames <;> simp [structured, stepStmt, found] at step
    | _ => cases step
  | test condition clause stmt =>
    cases condition with
    | none => cases step
    | some condition => cases outcome : outcomes 0 <;> simp [structured, outcome] at step
  | next =>
    cases frames with
    | nil => exact ⟨.normal, rfl, rfl⟩
    | cons frame frames =>
      cases frame with
      | items items =>
        cases items with
        | nil => cases step
        | cons item items => cases item <;> cases step
      | loop condition clause stmt => cases step

/-- A run of the machine that reaches the end of the function is an execution that completes normally. -/
theorem completes_of_ends {state : StmtState} {events : List Event}
    (ends : structured.Ends state events .completed) :
    state.Completes := by
  obtain ⟨count, run⟩ := ends
  induction count generalizing state events with
  | zero => cases run
  | succ count ih =>
    rcases step : structured.step state with ⟨first, next | result⟩
    · rw [Machine.run_step step] at run
      exact completes_of_step step (ih (Prod.ext rfl (Prod.mk.inj run).2))
    · rw [Machine.run_step step] at run
      obtain rfl : result = .completed := by simpa using (Prod.mk.inj run).2
      exact completes_of_completed step

end Runs

/-! ### Soundness -/

def Task.setsTerminated : Task → Bool
  | .run stmt => nullableSetsTerminated stmt
  | .items list => itemsSetTerminated list
  | .loop _ _ _ => false

theorem Executes.not_normal {task : Task} {c : Completion} (executes : Executes task c)
    (terminated : task.setsTerminated = true) : c ≠ .normal := by
  induction executes with
  | null | expr | nil | exit | leave | again | returnFrom => cases terminated
  | forLoop => cases terminated
  | compound _ ih => exact ih terminated
  | @onTrue _ _ _ elseStmt _ _ ih =>
    cases elseStmt with
    | none => cases terminated
    | some elseStmt => exact ih (Bool.and_eq_true_iff.mp terminated).2
  | @onFalse _ _ _ elseStmt _ _ ih =>
    cases elseStmt with
    | none => cases terminated
    | some elseStmt => exact ih (Bool.and_eq_true_iff.mp terminated).1
  | continueStmt | breakStmt | returnStmt => exact nofun
  | item _ _ ihFirst ihLater =>
    obtain first | later := Bool.or_eq_true_iff.mp terminated
    · exact absurd rfl (ihFirst first)
    · exact ihLater later
  | jump _ jumps => exact jumps
  | decl _ ih => exact ih terminated

section Sound
variable {I V : Type} {gen : ExprGen I V}

theorem codegenStmt_not_normal {env : CodegenEnv} {b b' : Builder I V} {stmt : Stmt}
    (compiled : codegenStmt gen env b stmt = some (b', true)) {c : Completion}
    (executes : Executes (.run (some stmt)) c) :
    c ≠ .normal :=
  executes.not_normal (codegenStmt_compiled stmt compiled).terminated.symm

def AstType.isVoid (type : AstType) : Bool := type.pointer == 0 && type.kind matches .voidType

/-- What the verifier of LLVM asks of a function with a result. -/
def Builder.ReturnsValues (b : Builder I V) : Prop := WellFormed b ∧ ∀ block ∈ b.blocks, .ret none ∉ block

/-- The check at the end of a body takes a pointer to void for void. Then the verifier finds the mistake. -/
theorem codegenBody_terminated {func : FuncUnit} {body : Stmt} {b : Builder I V} (compiled : codegenBody gen func body = some b)
    (checked : (func.returnType.kind matches .voidType) → b.ReturnsValues) : setsTerminated body = true := by
  have verified := codegenBody_wellFormed func body b compiled
  obtain ⟨⟨b₁, terminated⟩, built, ending⟩ := Option.bind_eq_some_iff.mp compiled
  have run := codegenStmt_compiled body built
  cases terminated with
  | true => exact run.terminated.symm
  | false =>
    cases kind : func.returnType.kind with
    | voidType =>
      simp only [kind, Bool.false_eq_true, if_false] at ending
      cases ending
      obtain ⟨wellFormed, valued⟩ := checked (by rw [kind])
      have ready := emit_ready ready_entry
        (func.params.flatMap fun param => (gen.param param).map fun instr => (.instr instr : ExprPiece I V))
      have left : Ready [] b₁ := run.left (verified.mp wellFormed) ready
      have last := left.build_current (.ret none)
      have inside : b₁.current < (b₁.build (.ret none)).blocks.length := by simpa using left.inside
      rw [Builder.block, List.getElem?_eq_getElem inside, Option.getD_some] at last
      exact absurd (last ▸ List.mem_append_right _ (.head _)) (valued _ (List.getElem_mem inside))
    | _ => simp [kind] at ending

/-- Where `is_terminated` is set no execution completes normally, and no execution of a function
with a result comes to the end of its body. -/
theorem terminated_sound (gen : ExprGen I V) :
    (∀ env b b' stmt c, codegenStmt gen env b stmt = some (b', true) → Executes (.run (some stmt)) c → c ≠ .normal) ∧
    ∀ (func : FuncUnit) body b, func.returnType.isVoid = false → codegenBody gen func body = some b →
      ((func.returnType.kind matches .voidType) → b.ReturnsValues) →
        (∀ c, Executes (.run (some body)) c → c ≠ .normal) ∧
          ∀ outcomes events, ¬structured.Ends ⟨.run body, [], outcomes⟩ events .completed := by
  refine ⟨fun env b b' stmt c compiled executes => codegenStmt_not_normal compiled executes, ?_⟩
  intro func body b _ compiled checked
  have terminated := codegenBody_terminated compiled checked
  refine ⟨fun c executes => executes.not_normal terminated, fun outcomes events ends => ?_⟩
  obtain ⟨c, executes, finishes⟩ := completes_of_ends ends
  exact Executes.not_normal executes terminated finishes

end Sound

/-- `if (c) return 1; else return 2;` in a function of type `int32`. -/
theorem terminated_sound_ifElse :
    let expr (kind : ExprKind Expr) : Expr := .mk ⟨0, 0⟩ .zero kind
    let result (digit : UInt8) : Stmt := .mk ⟨0, 0⟩ (.returnStmt (some (expr (.numberLiteralExpr [digit] 10))))
    let body : Stmt := .mk ⟨0, 0⟩ (.ifStmt (expr (.identExpr [99])) (some (result 49)) (some (result 50)))
    ¬structured.Ends ⟨.run body, [], fun _ => true⟩ [.expr (expr (.identExpr [99]))] .completed ∧
      ¬Executes (.run (some body)) .normal := by
  intro expr result body
  let func : FuncUnit := ⟨.mk 0 (.integerType 32), [102], some body, [], false⟩
  have sound := (terminated_sound (atomicGen fun _ => .boolean)).2 func body _ rfl rfl nofun
  exact ⟨sound.2 _ _, fun normal => sound.1 _ normal rfl⟩

end Low
