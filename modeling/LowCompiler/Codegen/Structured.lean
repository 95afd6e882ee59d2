import LowCompiler.Codegen.Terminators
import LowCompiler.Cfg.Run

/-!
# The structured meaning of statements

What the statements of a function are meant to do, with expressions as atomic events
and the outcomes of the conditions given from outside: `for` runs the initial
expression once and then the condition, the body and the step; `continue` goes to the
step of the innermost loop and `break` leaves it.
-/

namespace Low

inductive Frame where
  | items (items : List (BlockItem Stmt))
  | loop (condition step : Option Expr) (stmt : Option Stmt)

inductive Control where
  | run (stmt : Stmt)
  | test (condition step : Option Expr) (stmt : Option Stmt)
  /-- A statement is complete. -/
  | next

def Control.nullable : Option Stmt → Control
  | none => .next
  | some stmt => .run stmt

structure StmtState where
  control : Control
  frames : List Frame
  outcomes : Nat → Bool

/-- The innermost loop, and the frames around it. -/
def innermost : List Frame → Option (Frame × List Frame)
  | [] => none
  | .items _ :: frames => innermost frames
  | .loop condition step stmt :: frames => some (.loop condition step stmt, frames)

def clauseEvents (clause : Option Expr) : List Event :=
  clause.toList.map .expr

def stepStmt (frames : List Frame) (outcomes : Nat → Bool) :
    StmtKind Stmt → List Event × (StmtState ⊕ Outcome Expr)
  | .exprStmt expr => ([.expr expr], .inl ⟨.next, frames, outcomes⟩)
  | .compoundStmt items => ([], .inl ⟨.next, .items items :: frames, outcomes⟩)
  | .ifStmt condition stmt elseStmt =>
    ([.expr condition], .inl ⟨.nullable (if outcomes 0 then stmt else elseStmt), frames, later outcomes⟩)
  | .forStmt initial condition step stmt => (clauseEvents initial, .inl ⟨.test condition step stmt, frames, outcomes⟩)
  | .continueStmt =>
    match innermost frames with
    | some (loop, frames) => ([], .inl ⟨.next, loop :: frames, outcomes⟩)
    | none => ([], .inr .stuck)
  | .breakStmt =>
    match innermost frames with
    | some (_, frames) => ([], .inl ⟨.next, frames, outcomes⟩)
    | none => ([], .inr .stuck)
  | .returnStmt expr => (clauseEvents expr, .inr (.returned expr))
  | .switchStmt _ _ | .doStmt _ _ | .gotoStmt _ | .caseStmt _ _ | .defaultStmt _ => ([], .inr .stuck)

def stepFrames (outcomes : Nat → Bool) : List Frame → List Event × (StmtState ⊕ Outcome Expr)
  | [] => ([], .inr .completed)
  | .items [] :: frames => ([], .inl ⟨.next, frames, outcomes⟩)
  | .items (.stmtItem stmt :: items) :: frames => ([], .inl ⟨.nullable stmt, .items items :: frames, outcomes⟩)
  | .items (.declItem decl :: items) :: frames => ([.decl decl], .inl ⟨.next, .items items :: frames, outcomes⟩)
  | .loop condition step stmt :: frames => (clauseEvents step, .inl ⟨.test condition step stmt, frames, outcomes⟩)

def structured : Machine StmtState Event (Outcome Expr) where
  step state :=
    match state.control with
    | .run (.mk _ kind) => stepStmt state.frames state.outcomes kind
    | .test condition step stmt =>
      let body : Frame := .loop condition step stmt
      match condition with
      | none => ([], .inl ⟨.nullable stmt, body :: state.frames, state.outcomes⟩)
      | some expr =>
        if state.outcomes 0 then
          ([.expr expr], .inl ⟨.nullable stmt, body :: state.frames, later state.outcomes⟩)
        else ([.expr expr], .inl ⟨.next, state.frames, later state.outcomes⟩)
    | .next => stepFrames state.outcomes state.frames

end Low
