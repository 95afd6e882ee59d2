import LowCompiler.Writer.Declarations

/-!
# Writing statements

An empty block and an empty statement are null in the tree.
-/

namespace Low

def writeMaybe : Option Expr → List Word
  | none => []
  | some e => writeAt .expr e

mutual

def writeStmt : Stmt → List Word
  | .mk _ kind => writeStmtKind kind
termination_by structural s => s

def writeStmtKind : StmtKind Stmt → List Word
  | .exprStmt expr => writeAt .expr expr ++ [sign .SEMICOLON]
  | .compoundStmt items => sign .LBRACE :: (joined [] (writeItems items) ++ [sign .RBRACE])
  | .ifStmt condition stmt none => sign .IF :: (writeAt .expr condition ++ writeBlock stmt)
  | .ifStmt condition stmt (some elseStmt) =>
    sign .IF :: (writeAt .expr condition ++ (writeBlock stmt ++ sign .ELSE :: writeStmt elseStmt))
  | .switchStmt condition stmt =>
    sign .SWITCH :: sign .LPAREN :: (writeAt .expr condition ++ sign .RPAREN :: writeBody stmt)
  | .doStmt stmt condition =>
    sign .DO :: (writeBody stmt ++
      sign .WHILE :: sign .LPAREN :: (writeAt .expr condition ++ [sign .RPAREN, sign .SEMICOLON]))
  | .forStmt initial condition step stmt =>
    sign .FOR :: (writeMaybe initial ++ sign .SEMICOLON :: (writeMaybe condition ++ sign .SEMICOLON ::
      (writeMaybe step ++ writeBlock stmt)))
  | .gotoStmt n => [sign .GOTO, name n, sign .SEMICOLON]
  | .continueStmt => [sign .CONTINUE, sign .SEMICOLON]
  | .breakStmt => [sign .BREAK, sign .SEMICOLON]
  | .returnStmt expr => sign .RETURN :: (writeMaybe expr ++ [sign .SEMICOLON])
  | .caseStmt expr stmt => sign .CASE :: (writeAt .expr expr ++ sign .COLON :: writeBody stmt)
  | .defaultStmt stmt => sign .DEFAULT :: sign .COLON :: writeBody stmt
termination_by structural kind => kind

def writeBody : Option Stmt → List Word
  | none => [sign .SEMICOLON]
  | some s => writeStmt s
termination_by structural body => body

def writeBlock : Option Stmt → List Word
  | none => [sign .LBRACE, sign .RBRACE]
  | some s => writeStmt s
termination_by structural block => block

def writeItems : List (BlockItem Stmt) → List (List Word)
  | [] => []
  | item :: items => writeItem item :: writeItems items
termination_by structural items => items

def writeItem : BlockItem Stmt → List Word
  | .stmtItem stmt => writeBody stmt
  | .declItem decl => writeDecl decl
termination_by structural item => item

end

theorem writeItems_eq (items : List (BlockItem Stmt)) : writeItems items = items.map writeItem := by
  induction items with
  | nil => rfl
  | cons item items ih => rw [writeItems, ih, List.map_cons]

def Stmt.isCompound : Stmt → Bool
  | .mk _ (.compoundStmt _) => true
  | _ => false

namespace BlockItem

def stmts : BlockItem Stmt → List Stmt
  | .stmtItem stmt => stmt.toList
  | .declItem _ => []

def decls : BlockItem Stmt → List Decl
  | .stmtItem _ => []
  | .declItem decl => [decl]

end BlockItem

namespace StmtKind

def stmts : StmtKind Stmt → List Stmt
  | .compoundStmt items => items.flatMap BlockItem.stmts
  | .ifStmt _ stmt elseStmt => stmt.toList ++ elseStmt.toList
  | .switchStmt _ stmt | .doStmt stmt _ | .forStmt _ _ _ stmt | .caseStmt _ stmt | .defaultStmt stmt => stmt.toList
  | _ => []

def exprs : StmtKind Stmt → List Expr
  | .exprStmt expr | .caseStmt expr _ => [expr]
  | .ifStmt condition _ _ | .switchStmt condition _ | .doStmt _ condition => [condition]
  | .forStmt initial condition step _ => initial.toList ++ (condition.toList ++ step.toList)
  | .returnStmt expr => expr.toList
  | _ => []

/-- A block with items, and blocks where the grammar has them. -/
def Writable : StmtKind Stmt → Prop
  | .compoundStmt items => items ≠ [] ∧ ∀ item ∈ items, ∀ decl ∈ item.decls, decl.Writable
  | .ifStmt _ stmt _ | .forStmt _ _ _ stmt => ∀ s ∈ stmt, s.isCompound = true
  | .gotoStmt n => IsIdent n
  | _ => True

end StmtKind

inductive Stmt.Writable : Stmt → Prop where
  | mk {loc : Loc} {kind : StmtKind Stmt} : kind.Writable → (∀ e ∈ kind.exprs, e.Writable) →
      (∀ s ∈ kind.stmts, Writable s) → Writable (.mk loc kind)

/-! ### Written statements are read back -/

section Parses
variable {source : Memory} {ruleIds : Rule → Nat} {v w : List Word}

/-- The rule that a statement is a phrase of. -/
def StmtKind.rule : StmtKind Stmt → Rule
  | .exprStmt _ => .exprStmt
  | .compoundStmt _ => .compoundStmt
  | .ifStmt .. | .switchStmt .. => .selectionStmt
  | .doStmt .. | .forStmt .. => .iterationStmt
  | .gotoStmt _ | .continueStmt | .breakStmt | .returnStmt _ => .jumpStmt
  | .caseStmt .. | .defaultStmt _ => .labeledStmt

def Stmt.kind : Stmt → StmtKind Stmt
  | .mk _ kind => kind

theorem Parses.stmt {s : Stmt} (own : Parses source ruleIds [SUB s.kind.rule] w [Holds .stmt s]) :
    Parses source ruleIds [SUB .stmt] w [HoldsMaybe .stmt (some s)] := by
  replace own := own.maybe
  obtain ⟨loc, kind⟩ := s
  cases kind with
  | exprStmt => exact own.passMaybe (p := ⟨.stmt, 0⟩) (by decide) rfl
  | compoundStmt => exact own.passMaybe (p := ⟨.stmt, 1⟩) (by decide) rfl
  | ifStmt | switchStmt => exact own.passMaybe (p := ⟨.stmt, 2⟩) (by decide) rfl
  | doStmt | forStmt => exact own.passMaybe (p := ⟨.stmt, 3⟩) (by decide) rfl
  | gotoStmt | continueStmt | breakStmt | returnStmt => exact own.passMaybe (p := ⟨.stmt, 4⟩) (by decide) rfl
  | caseStmt | defaultStmt => exact own.passMaybe (p := ⟨.stmt, 5⟩) (by decide) rfl

theorem parses_body {body : Option Stmt}
    (each : ∀ s ∈ body, Parses source ruleIds [SUB s.kind.rule] (writeStmt s) [Holds .stmt s]) :
    Parses source ruleIds [SUB .stmt] (writeBody body) [HoldsMaybe .stmt body] := by
  cases body with
  | some s => exact (each s rfl).stmt
  | none =>
    have null : Parses source ruleIds [SUB .exprStmt] [sign .SEMICOLON] [HoldsMaybe .stmt none] := by
      refine Parses.node (p := ⟨.exprStmt, 0⟩) (by decide) parses_semicolon ?_
      intro tokens hold
      obtain _ | ⟨⟨_⟩, _ | _⟩ := hold
      exact ⟨_, rfl, .none _ _ _ _⟩
    exact null.passMaybe (p := ⟨.stmt, 0⟩) (by decide) rfl

theorem parses_block {block : Option Stmt} (compound : ∀ s ∈ block, s.isCompound = true)
    (each : ∀ s ∈ block, Parses source ruleIds [SUB s.kind.rule] (writeStmt s) [Holds .stmt s]) :
    Parses source ruleIds [SUB .compoundStmt] (writeBlock block) [HoldsMaybe .stmt block] := by
  cases block with
  | none =>
    refine Parses.node (p := ⟨.compoundStmt, 0⟩) (by decide) (Parses.sign (by decide) (parses_sign .RBRACE (by decide))) ?_
    intro tokens hold
    obtain _ | ⟨⟨_⟩, _ | ⟨⟨_⟩, _ | _⟩⟩ := hold
    exact ⟨_, rfl, .none _ _ _ _⟩
  | some s =>
    have own := each s rfl
    have is := compound s rfl
    obtain ⟨loc, kind⟩ := s
    cases kind with
    | compoundStmt items => exact own.maybe
    | _ => cases is

theorem parses_item {item : BlockItem Stmt} (decls : ∀ decl ∈ item.decls, decl.Writable)
    (each : ∀ s ∈ item.stmts, Parses source ruleIds [SUB s.kind.rule] (writeStmt s) [Holds .stmt s]) :
    Parses source ruleIds [SUB .blockItem] (writeItem item) [Holds .blockItem item] := by
  cases item with
  | declItem decl =>
    refine Parses.node (p := ⟨.blockItem, 0⟩) (by decide) (parses_decl (decls decl (List.mem_singleton_self decl))) ?_
    intro tokens hold
    obtain _ | ⟨⟨_, _, _, _, same⟩, _ | _⟩ := hold
    simp only [Kind.erase] at same
    exact ⟨_, rfl, .mk _ _ _ _ (by simp only [Kind.erase, unlocatedItem, same])⟩
  | stmtItem stmt =>
    have body : Parses source ruleIds [SUB .stmt] (writeBody stmt) [HoldsMaybe .stmt stmt] :=
      parses_body fun s is => each s (Option.mem_toList.mpr is)
    refine Parses.node (p := ⟨.blockItem, 1⟩) (by decide) body ?_
    intro tokens hold
    obtain _ | ⟨holds, _ | _⟩ := hold
    obtain ⟨_, _, _, _⟩ | ⟨_, _, _, _, same⟩ := holds
    · exact ⟨_, rfl, .mk _ _ _ _ rfl⟩
    · simp only [Kind.erase] at same
      exact ⟨_, rfl, .mk _ _ _ _ (by simp only [Kind.erase, unlocatedItem, unlocatedBody, same])⟩

theorem blockItem_list : IsListRule .blockItemList .blockItem none .blockItem .blockItemList :=
  ⟨rfl, rfl, by decide, nofun, fun _ _ _ => .inr rfl⟩

/-! ### Loops -/

def forHeader (initial condition step : Option Expr) : Stmt := .mk .zero (.forStmt initial condition step none)

theorem forHeader_of_unlocated {s : Stmt} {initial condition step : Option Expr}
    (same : s.unlocated = (forHeader initial condition step).unlocated) :
    ∃ loc' initial' condition' step' stmt', s = .mk loc' (.forStmt initial' condition' step' stmt') ∧
      initial'.map Expr.unlocated = initial.map Expr.unlocated ∧
      condition'.map Expr.unlocated = condition.map Expr.unlocated ∧
      step'.map Expr.unlocated = step.map Expr.unlocated ∧ unlocatedBody stmt' = none := by
  obtain ⟨loc', kind⟩ := s
  unfold forHeader at same
  cases kind with
  | forStmt initial' condition' step' stmt' =>
    simp only [Stmt.unlocated, unlocatedStmt, Stmt.mk.injEq, StmtKind.forStmt.injEq, true_and] at same
    exact ⟨loc', initial', condition', step', stmt', rfl, same.1, same.2.1, same.2.2.1, same.2.2.2⟩
  | _ => simp [Stmt.unlocated, unlocatedStmt] at same

theorem forHeader_unlocated (loc : Loc) {initial condition step initial' condition' step' : Option Expr}
    {stmt : Option Stmt} (initials : initial'.map Expr.unlocated = initial.map Expr.unlocated)
    (conditions : condition'.map Expr.unlocated = condition.map Expr.unlocated)
    (steps : step'.map Expr.unlocated = step.map Expr.unlocated) (body : unlocatedBody stmt = none) :
    (Stmt.mk loc (.forStmt initial' condition' step' stmt)).unlocated =
      (forHeader initial condition step).unlocated := by
  simp only [forHeader, Stmt.unlocated, unlocatedStmt, initials, conditions, steps, body]
  rfl

theorem parses_forInit {initial : Option Expr} (writable : ∀ e ∈ initial, e.Writable) :
    Parses source ruleIds [SUB .iterationStmtForInit] (sign .FOR :: (writeMaybe initial ++ [sign .SEMICOLON]))
      [Holds .stmt (forHeader initial none none)] := by
  cases initial with
  | none =>
    refine Parses.node (p := ⟨.iterationStmtForInit, 0⟩) (by decide) (Parses.sign (by decide) parses_semicolon) ?_
    intro tokens hold
    obtain _ | ⟨⟨_⟩, _ | ⟨⟨_⟩, _ | _⟩⟩ := hold
    exact ⟨_, rfl, .mk _ _ _ _ rfl⟩
  | some e =>
    have inside : Parses source ruleIds [SUB .expr] (writeAt .expr e) [Holds .expr e] :=
      parses_expr (writable e rfl) .expr (by decide)
    refine Parses.node (p := ⟨.iterationStmtForInit, 1⟩) (by decide) (Parses.sign (by decide) (inside.cons parses_semicolon)) ?_
    intro tokens hold
    obtain _ | ⟨⟨_, _, loc⟩, _ | ⟨⟨_, _, _, _, same⟩, _ | ⟨⟨_⟩, _ | _⟩⟩⟩ := hold
    exact ⟨_, rfl, .mk _ _ _ _ (forHeader_unlocated loc (congrArg some same) rfl rfl rfl)⟩

theorem parses_forCond {initial condition : Option Expr} (writable : ∀ e ∈ condition, e.Writable)
    (front : Parses source ruleIds [SUB .iterationStmtForInit] w [Holds .stmt (forHeader initial none none)]) :
    Parses source ruleIds [SUB .iterationStmtForCond] (w ++ (writeMaybe condition ++ [sign .SEMICOLON]))
      [Holds .stmt (forHeader initial condition none)] := by
  cases condition with
  | none =>
    refine Parses.node (p := ⟨.iterationStmtForCond, 0⟩) (by decide) (front.cons parses_semicolon) ?_
    intro tokens hold
    obtain _ | ⟨⟨_, _, _, _, same⟩, _ | ⟨⟨_⟩, _ | _⟩⟩ := hold
    obtain ⟨loc, _, _, _, _, rfl, initials, conditions, steps, body⟩ := forHeader_of_unlocated same
    exact ⟨_, rfl, .mk _ _ _ _ (forHeader_unlocated loc initials conditions steps body)⟩
  | some e =>
    have inside : Parses source ruleIds [SUB .expr] (writeAt .expr e) [Holds .expr e] :=
      parses_expr (writable e rfl) .expr (by decide)
    refine Parses.node (p := ⟨.iterationStmtForCond, 1⟩) (by decide) (front.cons (inside.cons parses_semicolon)) ?_
    intro tokens hold
    obtain _ | ⟨⟨_, _, _, _, same⟩, _ | ⟨⟨_, _, _, _, same'⟩, _ | ⟨⟨_⟩, _ | _⟩⟩⟩ := hold
    obtain ⟨loc, _, _, _, _, rfl, initials, _, steps, body⟩ := forHeader_of_unlocated same
    exact ⟨_, rfl, .mk _ _ _ _ (forHeader_unlocated loc initials (congrArg some same') steps body)⟩

theorem parses_forStep {initial condition step : Option Expr} (writable : ∀ e ∈ step, e.Writable)
    (front : Parses source ruleIds [SUB .iterationStmtForCond] w [Holds .stmt (forHeader initial condition none)]) :
    Parses source ruleIds [SUB .iterationStmtForStep] (w ++ writeMaybe step)
      [Holds .stmt (forHeader initial condition step)] := by
  cases step with
  | none =>
    rw [writeMaybe, List.append_nil]
    refine Parses.node (p := ⟨.iterationStmtForStep, 0⟩) (by decide) front ?_
    intro tokens hold
    obtain _ | ⟨⟨_, _, _, _, same⟩, _ | _⟩ := hold
    obtain ⟨loc, _, _, _, _, rfl, initials, conditions, steps, body⟩ := forHeader_of_unlocated same
    exact ⟨_, rfl, .mk _ _ _ _ (forHeader_unlocated loc initials conditions steps body)⟩
  | some e =>
    have inside : Parses source ruleIds [SUB .expr] (writeAt .expr e) [Holds .expr e] :=
      parses_expr (writable e rfl) .expr (by decide)
    refine Parses.node (p := ⟨.iterationStmtForStep, 1⟩) (by decide) (front.cons inside) ?_
    intro tokens hold
    obtain _ | ⟨⟨_, _, _, _, same⟩, _ | ⟨⟨_, _, _, _, same'⟩, _ | _⟩⟩ := hold
    obtain ⟨loc, _, _, _, _, rfl, initials, conditions, _, body⟩ := forHeader_of_unlocated same
    exact ⟨_, rfl, .mk _ _ _ _ (forHeader_unlocated loc initials conditions (congrArg some same') body)⟩

theorem parses_for {loc : Loc} {initial condition step : Option Expr} {stmt : Option Stmt}
    (writable : ∀ e ∈ initial.toList ++ (condition.toList ++ step.toList), e.Writable)
    (block : Parses source ruleIds [SUB .compoundStmt] (writeBlock stmt) [HoldsMaybe .stmt stmt]) :
    Parses source ruleIds [SUB .iterationStmt] (writeStmtKind (.forStmt initial condition step stmt))
      [Holds .stmt (.mk loc (.forStmt initial condition step stmt))] := by
  simp only [List.mem_append, Option.mem_toList] at writable
  have front : Parses source ruleIds [SUB .iterationStmtForInit] _ _ :=
    parses_forInit fun e is => writable e (.inl is)
  have middle := parses_forCond (fun e is => writable e (.inr (.inl is))) front
  have header := parses_forStep (fun e is => writable e (.inr (.inr is))) middle
  have all : Parses source ruleIds [SUB .iterationStmt]
      (((sign .FOR :: (writeMaybe initial ++ [sign .SEMICOLON])) ++ (writeMaybe condition ++ [sign .SEMICOLON]) ++
        writeMaybe step) ++ writeBlock stmt) [Holds .stmt (.mk loc (.forStmt initial condition step stmt))] := by
    refine Parses.node (p := ⟨.iterationStmt, 1⟩) (by decide) (header.cons block) ?_
    intro tokens hold
    obtain _ | ⟨⟨_, _, _, _, same⟩, _ | ⟨holds, _ | _⟩⟩ := hold
    obtain ⟨_, _, _, _, _, rfl, initials, conditions, steps, _⟩ := forHeader_of_unlocated same
    obtain ⟨_, _, _, _⟩ | ⟨_, _, _, _, same'⟩ := holds
    · refine ⟨_, rfl, .mk _ _ _ _ ?_⟩
      simp only [Kind.erase, Stmt.unlocated, unlocatedStmt, initials, conditions, steps]
    · refine ⟨_, rfl, .mk _ _ _ _ ?_⟩
      simp only [Kind.erase] at same'
      simp only [Kind.erase, Stmt.unlocated, unlocatedStmt, initials, conditions, steps, unlocatedBody, same']
  simpa [writeStmtKind, List.append_assoc] using all

/-! ### Statements -/

section Stmt
variable {loc : Loc} {condition expr : Expr} {stmt elseStmt : Option Stmt}

theorem parses_if
    (first : Parses source ruleIds [SUB .expr] (writeAt .expr condition) [Holds .expr condition])
    (block : Parses source ruleIds [SUB .compoundStmt] (writeBlock stmt) [HoldsMaybe .stmt stmt])
    (other : ∀ s ∈ elseStmt, Parses source ruleIds [SUB s.kind.rule] (writeStmt s) [Holds .stmt s]) :
    Parses source ruleIds [SUB .selectionStmt] (writeStmtKind (.ifStmt condition stmt elseStmt))
      [Holds .stmt (.mk loc (.ifStmt condition stmt elseStmt))] := by
  cases elseStmt with
  | none =>
    refine Parses.node (p := ⟨.selectionStmt, 0⟩) (by decide) (Parses.sign (by decide) (first.cons block)) ?_
    intro tokens hold
    obtain _ | ⟨⟨_⟩, _ | ⟨⟨_, _, _, _, same⟩, _ | ⟨holds, _ | _⟩⟩⟩ := hold
    simp only [Kind.erase] at same
    obtain ⟨_, _, _, _⟩ | ⟨_, _, _, _, same'⟩ := holds
    · exact ⟨_, rfl, .mk _ _ _ _ (by simp only [Kind.erase, Stmt.unlocated, unlocatedStmt, unlocatedBody, same])⟩
    · simp only [Kind.erase] at same'
      exact ⟨_, rfl, .mk _ _ _ _ (by simp only [Kind.erase, Stmt.unlocated, unlocatedStmt, unlocatedBody, same, same'])⟩
  | some s =>
    refine Parses.node (p := ⟨.selectionStmt, 1⟩) (by decide)
      (Parses.sign (by decide) (first.cons (block.cons ((other s rfl).stmt.sign (by decide))))) ?_
    intro tokens hold
    obtain _ | ⟨⟨_⟩, _ | ⟨⟨_, _, _, _, same⟩, _ | ⟨holds, _ | ⟨⟨_⟩, _ | ⟨⟨⟩ | ⟨_, _, _, _, same''⟩, _ | _⟩⟩⟩⟩⟩ := hold
    simp only [Kind.erase] at same same''
    obtain ⟨_, _, _, _⟩ | ⟨_, _, _, _, same'⟩ := holds
    · exact ⟨_, rfl, .mk _ _ _ _
        (by simp only [Kind.erase, Stmt.unlocated, unlocatedStmt, unlocatedBody, same, same''])⟩
    · simp only [Kind.erase] at same'
      exact ⟨_, rfl, .mk _ _ _ _
        (by simp only [Kind.erase, Stmt.unlocated, unlocatedStmt, unlocatedBody, same, same', same''])⟩

theorem parses_switch
    (first : Parses source ruleIds [SUB .expr] (writeAt .expr condition) [Holds .expr condition])
    (body : Parses source ruleIds [SUB .stmt] (writeBody stmt) [HoldsMaybe .stmt stmt]) :
    Parses source ruleIds [SUB .selectionStmt] (writeStmtKind (.switchStmt condition stmt))
      [Holds .stmt (.mk loc (.switchStmt condition stmt))] := by
  refine Parses.node (p := ⟨.selectionStmt, 2⟩) (by decide)
    (Parses.sign (by decide) (Parses.sign (by decide) (first.cons (Parses.sign (by decide) body)))) ?_
  intro tokens hold
  obtain _ | ⟨⟨_⟩, _ | ⟨⟨_⟩, _ | ⟨⟨_, _, _, _, same⟩, _ | ⟨⟨_⟩, _ | ⟨holds, _ | _⟩⟩⟩⟩⟩ := hold
  simp only [Kind.erase] at same
  obtain ⟨_, _, _, _⟩ | ⟨_, _, _, _, same'⟩ := holds
  · exact ⟨_, rfl, .mk _ _ _ _ (by simp only [Kind.erase, Stmt.unlocated, unlocatedStmt, unlocatedBody, same])⟩
  · simp only [Kind.erase] at same'
    exact ⟨_, rfl, .mk _ _ _ _ (by simp only [Kind.erase, Stmt.unlocated, unlocatedStmt, unlocatedBody, same, same'])⟩

theorem parses_do
    (body : Parses source ruleIds [SUB .stmt] (writeBody stmt) [HoldsMaybe .stmt stmt])
    (last : Parses source ruleIds [SUB .expr] (writeAt .expr condition) [Holds .expr condition]) :
    Parses source ruleIds [SUB .iterationStmt] (writeStmtKind (.doStmt stmt condition))
      [Holds .stmt (.mk loc (.doStmt stmt condition))] := by
  refine Parses.node (p := ⟨.iterationStmt, 0⟩) (by decide)
    (Parses.sign (by decide) (body.cons (Parses.sign (by decide) (Parses.sign (by decide) (last.cons (Parses.sign (by decide) parses_semicolon)))))) ?_
  intro tokens hold
  obtain _ | ⟨⟨_⟩, _ | ⟨holds, _ | ⟨⟨_⟩, _ | ⟨⟨_⟩, _ | ⟨⟨_, _, _, _, same⟩, _ | ⟨⟨_⟩, _ | ⟨⟨_⟩, _ | _⟩⟩⟩⟩⟩⟩⟩ := hold
  simp only [Kind.erase] at same
  obtain ⟨_, _, _, _⟩ | ⟨_, _, _, _, same'⟩ := holds
  · exact ⟨_, rfl, .mk _ _ _ _ (by simp only [Kind.erase, Stmt.unlocated, unlocatedStmt, unlocatedBody, same])⟩
  · simp only [Kind.erase] at same'
    exact ⟨_, rfl, .mk _ _ _ _ (by simp only [Kind.erase, Stmt.unlocated, unlocatedStmt, unlocatedBody, same, same'])⟩

theorem parses_return {value : Option Expr} (writable : ∀ e ∈ value, e.Writable) :
    Parses source ruleIds [SUB .jumpStmt] (writeStmtKind (.returnStmt value))
      [Holds .stmt (.mk loc (.returnStmt value))] := by
  cases value with
  | none =>
    refine Parses.node (p := ⟨.jumpStmt, 3⟩) (by decide) (Parses.sign (by decide) parses_semicolon) ?_
    intro tokens hold
    obtain _ | ⟨⟨_⟩, _ | ⟨⟨_⟩, _ | _⟩⟩ := hold
    exact ⟨_, rfl, .mk _ _ _ _ rfl⟩
  | some e =>
    have inside : Parses source ruleIds [SUB .expr] (writeAt .expr e) [Holds .expr e] :=
      parses_expr (writable e rfl) .expr (by decide)
    refine Parses.node (p := ⟨.jumpStmt, 4⟩) (by decide) (Parses.sign (by decide) (inside.cons parses_semicolon)) ?_
    intro tokens hold
    obtain _ | ⟨⟨_⟩, _ | ⟨⟨_, _, _, _, same⟩, _ | ⟨⟨_⟩, _ | _⟩⟩⟩ := hold
    simp only [Kind.erase] at same
    exact ⟨_, rfl, .mk _ _ _ _ (by simp only [Kind.erase, Stmt.unlocated, unlocatedStmt, Option.map_some, same])⟩

theorem parses_case
    (first : Parses source ruleIds [SUB .expr] (writeAt .expr expr) [Holds .expr expr])
    (body : Parses source ruleIds [SUB .stmt] (writeBody stmt) [HoldsMaybe .stmt stmt]) :
    Parses source ruleIds [SUB .labeledStmt] (writeStmtKind (.caseStmt expr stmt))
      [Holds .stmt (.mk loc (.caseStmt expr stmt))] := by
  refine Parses.node (p := ⟨.labeledStmt, 0⟩) (by decide) (Parses.sign (by decide) (first.cons (Parses.sign (by decide) body))) ?_
  intro tokens hold
  obtain _ | ⟨⟨_⟩, _ | ⟨⟨_, _, _, _, same⟩, _ | ⟨⟨_⟩, _ | ⟨holds, _ | _⟩⟩⟩⟩ := hold
  simp only [Kind.erase] at same
  obtain ⟨_, _, _, _⟩ | ⟨_, _, _, _, same'⟩ := holds
  · exact ⟨_, rfl, .mk _ _ _ _ (by simp only [Kind.erase, Stmt.unlocated, unlocatedStmt, unlocatedBody, same])⟩
  · simp only [Kind.erase] at same'
    exact ⟨_, rfl, .mk _ _ _ _ (by simp only [Kind.erase, Stmt.unlocated, unlocatedStmt, unlocatedBody, same, same'])⟩

theorem parses_default (body : Parses source ruleIds [SUB .stmt] (writeBody stmt) [HoldsMaybe .stmt stmt]) :
    Parses source ruleIds [SUB .labeledStmt] (writeStmtKind (.defaultStmt stmt))
      [Holds .stmt (.mk loc (.defaultStmt stmt))] := by
  refine Parses.node (p := ⟨.labeledStmt, 1⟩) (by decide) (Parses.sign (by decide) (Parses.sign (by decide) body)) ?_
  intro tokens hold
  obtain _ | ⟨⟨_⟩, _ | ⟨⟨_⟩, _ | ⟨holds, _ | _⟩⟩⟩ := hold
  obtain ⟨_, _, _, _⟩ | ⟨_, _, _, _, same'⟩ := holds
  · exact ⟨_, rfl, .mk _ _ _ _ rfl⟩
  · simp only [Kind.erase] at same'
    exact ⟨_, rfl, .mk _ _ _ _ (by simp only [Kind.erase, Stmt.unlocated, unlocatedStmt, unlocatedBody, same'])⟩

end Stmt

/-- A written statement is read as itself. The induction is on the statement, one case for each kind. -/
theorem parses_stmt {s : Stmt} (writable : s.Writable) :
    Parses source ruleIds [SUB s.kind.rule] (writeStmt s) [Holds .stmt s] := by
  induction writable with
  | @mk loc kind legal exprs _ ih =>
    have operand (e : Expr) (member : e ∈ kind.exprs) :
        Parses source ruleIds [SUB .expr] (writeAt .expr e) [Holds .expr e] :=
      parses_expr (exprs e member) .expr (by decide)
    have body (stmt : Option Stmt) (inside : ∀ s ∈ stmt, s ∈ kind.stmts) :
        Parses source ruleIds [SUB .stmt] (writeBody stmt) [HoldsMaybe .stmt stmt] :=
      parses_body fun s is => ih s (inside s is)
    rw [writeStmt]
    cases kind with
    | exprStmt expr =>
      have inside := operand expr (List.mem_singleton_self expr)
      refine Parses.node (p := ⟨.exprStmt, 1⟩) (by decide) (inside.cons parses_semicolon) ?_
      intro tokens hold
      obtain _ | ⟨⟨_, _, _, _, same⟩, _ | ⟨⟨_⟩, _ | _⟩⟩ := hold
      simp only [Kind.erase] at same
      exact ⟨_, rfl, .mk _ _ _ _ (by simp only [Kind.erase, Stmt.unlocated, unlocatedStmt, same])⟩
    | compoundStmt items =>
      have list := blockItem_list.parses_map legal.1 fun item member =>
        parses_item (legal.2 item member) fun s inside => ih s (List.mem_flatMap.mpr ⟨item, member, inside⟩)
      rw [← writeItems_eq] at list
      refine Parses.node (p := ⟨.compoundStmt, 1⟩) (by decide)
        (Parses.sign (by decide) (list.cons (parses_sign .RBRACE (by decide)))) ?_
      intro tokens hold
      obtain _ | ⟨⟨_⟩, _ | ⟨⟨_, _, _, _, same⟩, _ | ⟨⟨_⟩, _ | _⟩⟩⟩ := hold
      replace same : List.map unlocatedItem _ = items.map unlocatedItem := same
      exact ⟨_, rfl, .mk _ _ _ _ (by simp only [Kind.erase, Stmt.unlocated, unlocatedStmt, unlocatedItems_eq, same])⟩
    | ifStmt condition stmt elseStmt =>
      refine parses_if (operand condition (List.mem_singleton_self condition)) (parses_block legal fun s is => ?_)
        fun s is => ?_
      · exact ih s (List.mem_append_left _ (Option.mem_toList.mpr is))
      · exact ih s (List.mem_append_right _ (Option.mem_toList.mpr is))
    | switchStmt condition stmt =>
      exact parses_switch (operand condition (List.mem_singleton_self condition))
        (body stmt fun _ is => Option.mem_toList.mpr is)
    | doStmt stmt condition =>
      exact parses_do (body stmt fun _ is => Option.mem_toList.mpr is)
        (operand condition (List.mem_singleton_self condition))
    | forStmt initial condition step stmt =>
      exact parses_for exprs (parses_block legal fun s is => ih s (Option.mem_toList.mpr is))
    | gotoStmt n =>
      refine Parses.node (p := ⟨.jumpStmt, 0⟩) (by decide)
        (Parses.sign (by decide) ((parses_name legal).cons parses_semicolon)) ?_
      intro tokens hold
      obtain _ | ⟨⟨_⟩, _ | ⟨⟨_, _, _, rfl⟩, _ | ⟨⟨_⟩, _ | _⟩⟩⟩ := hold
      exact ⟨_, rfl, .mk _ _ _ _ rfl⟩
    | continueStmt =>
      refine Parses.node (p := ⟨.jumpStmt, 1⟩) (by decide) (Parses.sign (by decide) parses_semicolon) ?_
      intro tokens hold
      obtain _ | ⟨⟨_⟩, _ | ⟨⟨_⟩, _ | _⟩⟩ := hold
      exact ⟨_, rfl, .mk _ _ _ _ rfl⟩
    | breakStmt =>
      refine Parses.node (p := ⟨.jumpStmt, 2⟩) (by decide) (Parses.sign (by decide) parses_semicolon) ?_
      intro tokens hold
      obtain _ | ⟨⟨_⟩, _ | ⟨⟨_⟩, _ | _⟩⟩ := hold
      exact ⟨_, rfl, .mk _ _ _ _ rfl⟩
    | returnStmt expr => exact parses_return fun e is => exprs e (Option.mem_toList.mpr is)
    | caseStmt expr stmt =>
      exact parses_case (operand expr (List.mem_singleton_self expr)) (body stmt fun _ is => Option.mem_toList.mpr is)
    | defaultStmt stmt => exact parses_default (body stmt fun _ is => Option.mem_toList.mpr is)

end Parses

end Low
