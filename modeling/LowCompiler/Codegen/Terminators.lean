import LowCompiler.Codegen.Stmt

/-!
# Terminators

When the basic blocks that the statements of a function build are well formed. A
context only remembers that it is terminated: the statements after the one that
terminated it are still compiled, and a loop branches to its step whatever its body
did.
-/

namespace Low

open Builder

/-! ### What the code depends on -/

mutual

def setsTerminated : Stmt → Bool
  | .mk _ kind => kindSetsTerminated kind
termination_by structural stmt => stmt

def kindSetsTerminated : StmtKind Stmt → Bool
  | .compoundStmt items => itemsSetTerminated items
  | .ifStmt _ stmt (some elseStmt) => setsTerminated elseStmt && nullableSetsTerminated stmt
  | .continueStmt | .breakStmt | .returnStmt _ => true
  | _ => false
termination_by structural kind => kind

def itemsSetTerminated : List (BlockItem Stmt) → Bool
  | [] => false
  | .stmtItem stmt :: items => nullableSetsTerminated stmt || itemsSetTerminated items
  | .declItem _ :: items => itemsSetTerminated items
termination_by structural items => items

def nullableSetsTerminated : Option Stmt → Bool
  | none => false
  | some stmt => setsTerminated stmt
termination_by structural stmt => stmt

end

section Emits
variable {I V : Type} (gen : ExprGen I V)

def exprEmits (expr : Expr) : Bool :=
  (gen.expr expr none).any fun (pieces, _, _) => !pieces.isEmpty

mutual

def stmtEmits : Stmt → Bool
  | .mk _ kind => kindEmits kind
termination_by structural stmt => stmt

def kindEmits : StmtKind Stmt → Bool
  | .exprStmt expr => exprEmits gen expr
  | .compoundStmt items => itemsEmit items
  | _ => true
termination_by structural kind => kind

def itemsEmit : List (BlockItem Stmt) → Bool
  | [] => false
  | .stmtItem stmt :: items => nullableEmits stmt || itemsEmit items
  | .declItem decl :: items => (gen.decl decl).any (!·.isEmpty) || itemsEmit items
termination_by structural items => items

def nullableEmits : Option Stmt → Bool
  | none => false
  | some stmt => stmtEmits stmt
termination_by structural stmt => stmt

end

mutual

/-- Nothing that builds an instruction follows, in the same block, a statement that sets `is_terminated`,
and no loop body sets it. -/
def clean : Stmt → Bool
  | .mk _ kind => kindClean kind
termination_by structural stmt => stmt

def kindClean : StmtKind Stmt → Bool
  | .compoundStmt items => itemsClean items
  | .ifStmt _ stmt none => nullableClean stmt
  | .ifStmt _ stmt (some elseStmt) => nullableClean stmt && clean elseStmt
  | .forStmt _ _ _ stmt => nullableClean stmt && !nullableSetsTerminated stmt
  | _ => true
termination_by structural kind => kind

def itemsClean : List (BlockItem Stmt) → Bool
  | [] => true
  | .stmtItem stmt :: items =>
    nullableClean stmt && itemsClean items && !(nullableSetsTerminated stmt && itemsEmit gen items)
  | .declItem _ :: items => itemsClean items
termination_by structural items => items

def nullableClean : Option Stmt → Bool
  | none => true
  | some stmt => clean stmt
termination_by structural stmt => stmt

end

end Emits

namespace Code

def setsTerminated : Code → Bool
  | .stmt s => Low.setsTerminated s
  | .items is => itemsSetTerminated is
  | .nullable s => nullableSetsTerminated s

variable {I V : Type} (gen : ExprGen I V)

def emits : Code → Bool
  | .stmt s => stmtEmits gen s
  | .items is => itemsEmit gen is
  | .nullable s => nullableEmits gen s

def clean : Code → Bool
  | .stmt s => Low.clean gen s
  | .items is => itemsClean gen is
  | .nullable s => nullableClean gen s

end Code

variable {I V : Type} {gen : ExprGen I V}

theorem Compiled.terminated {env : CodegenEnv} {b b' : Builder I V} {code : Code} {terminated : Bool}
    (run : Compiled gen env b code b' terminated) : terminated = code.setsTerminated := by
  induction run with
  | expr | ifThen | forLoop | continueTo | breakTo | returnExpr | returnVoid | nil | null => rfl
  | compound _ ih => exact ih
  | ifElse _ _ _ _ _ ihTrue ihFalse => exact congr (congrArg and ihFalse) ihTrue
  | stmtItem _ _ ihFirst ihLater => exact congr (congrArg or ihFirst) ihLater
  | declItem _ _ ih => exact ih
  | some _ ih => exact ih

/-! ### What a run builds -/

def Builds (emits : Bool) (b b' : Builder I V) : Prop :=
  if emits then Starts b b' else b' = b

section Builds
variable {env : CodegenEnv} {b b' b'' : Builder I V} {code : Code} {terminated first later : Bool}

theorem Builds.grows (builds : Builds first b b') : Grows b b' := by
  cases first with
  | false =>
    obtain rfl : b' = b := builds
    exact .refl _
  | true => exact Starts.grows builds

theorem Builds.trans (builds : Builds first b b') (more : Builds later b' b'') :
    Builds (first || later) b b'' := by
  cases first with
  | false =>
    obtain rfl : b' = b := builds
    exact more
  | true => exact Starts.trans builds more.grows

theorem emit_builds (b : Builder I V) (pieces : List (ExprPiece I V)) :
    Builds (!pieces.isEmpty) b (b.emit pieces) := by
  cases pieces with
  | nil => exact rfl
  | cons piece pieces => exact emit_starts b (List.cons_ne_nil _ _)

theorem brUnless_grows (b : Builder I V) (terminated : Bool) (block : Nat) :
    Grows b (b.brUnless terminated block) := by
  cases terminated with
  | true => exact .refl b
  | false => exact .build b _

/-- The end of an `if` with an `else`. -/
theorem ifExit_grows (b : Builder I V) (onTrue onFalse : Bool) (n : Nat) :
    Grows b (if onFalse && onTrue then ((b.brUnless onFalse n).positionAtEnd n).build .unreachable
      else (b.brUnless onFalse n).positionAtEnd n) := by
  have exit : Grows b ((b.brUnless onFalse n).positionAtEnd n) := (brUnless_grows _ _ _).trans (.positionAtEnd _ _)
  split
  · exact exit.trans (.build _ _)
  · exact exit

theorem codegenClause_grows {clause : Option Expr} (built : codegenClause gen b clause = some b') :
    Grows b b' := by
  cases clause with
  | none =>
    cases built
    exact .refl b
  | some expr =>
    obtain ⟨⟨pieces, _⟩, _, rfl⟩ := Option.map_eq_some_iff.mp built
    exact emit_grows b pieces

theorem codegenTest_grows {condition : Option Expr} {bodyBlock exitBlock : Nat}
    (built : codegenTest gen b bodyBlock exitBlock condition = some b') : Grows b b' := by
  cases condition with
  | none =>
    cases built
    exact .build b _
  | some expr =>
    obtain ⟨⟨pieces, _⟩, _, rfl⟩ := Option.map_eq_some_iff.mp built
    exact (emit_grows b pieces).trans (.build _ _)

theorem emit_build_starts {pieces : List (ExprPiece I V)} {b₁ : Builder I V} (instr : Instr I V)
    (blocks : Grows (b.emit pieces) b₁) (current : b₁.current = (b.emit pieces).current) :
    Starts b (b₁.build instr) := by
  cases pieces with
  | nil => exact Grows.starts blocks current (.build _ _)
  | cons piece pieces => exact (emit_starts b (List.cons_ne_nil _ _)).trans (blocks.trans (.build _ _))

theorem Compiled.builds (run : Compiled gen env b code b' terminated) : Builds (code.emits gen) b b' := by
  induction run with
  | @expr env b loc expr pieces value type built =>
    have emits : (Code.stmt (.mk loc (.exprStmt expr))).emits gen = !pieces.isEmpty := by
      simp [Code.emits, stmtEmits, kindEmits, exprEmits, built]
    rw [emits]
    exact emit_builds b pieces
  | compound _ ih => exact ih
  | ifThen _ _ _ _ ih =>
    refine Starts.trans ?_ (.positionAtEnd _ _)
    refine .trans ?_ (brUnless_grows _ _ _)
    refine .trans ?_ ih.grows
    refine .trans ?_ (.positionAtEnd _ _)
    exact emit_build_starts _ (.appendTwo _) rfl
  | @ifElse _ b _ _ _ _ pieces cond _ b₁ b₂ trueTerminated falseTerminated n _ _ _ _ _ ihTrue ihFalse =>
    have start := (emit_build_starts (.condBr cond n (n + 1)) (.appendThree (b.emit pieces)) rfl).trans
      (.trans (.positionAtEnd _ n) (ihTrue.grows.trans (.trans (brUnless_grows _ _ _)
        (.trans (.positionAtEnd _ _) ihFalse.grows))))
    exact start.trans (ifExit_grows b₂ trueTerminated falseTerminated (n + 2))
  | @forLoop _ b _ initial _ _ _ b₁ b₂ b₃ b₄ _ n first _ test _ last ih =>
    have start : Starts b (b₁.appendBlock.appendBlock.appendBlock.appendBlock.build (.br n)) := by
      cases initial with
      | none =>
        cases first
        exact (Grows.appendFour b).starts rfl (.build _ _)
      | some expr =>
        obtain ⟨⟨pieces, _⟩, _, rfl⟩ := Option.map_eq_some_iff.mp first
        exact emit_build_starts _ (.appendFour _) rfl
    refine Starts.trans ?_ (.positionAtEnd _ _)
    refine .trans ?_ (.build _ _)
    refine .trans ?_ (codegenClause_grows last)
    refine .trans ?_ (.positionAtEnd _ _)
    refine .trans ?_ (.build _ _)
    refine .trans ?_ ih.grows
    refine .trans ?_ (.positionAtEnd _ _)
    refine .trans ?_ (codegenTest_grows test)
    exact start.trans (.positionAtEnd _ _)
  | continueTo | breakTo | returnVoid => exact Starts.build _ _
  | returnExpr => exact emit_build_starts _ (.refl _) rfl
  | nil | null => exact rfl
  | stmtItem _ _ ihFirst ihLater => exact ihFirst.trans ihLater
  | @declItem env b decl items pieces _ _ built _ ih =>
    have emits : (Code.items (.declItem decl :: items)).emits gen = (!pieces.isEmpty || itemsEmit gen items) := by
      simp [Code.emits, itemsEmit, built]
    rw [emits]
    exact (emit_builds b pieces).trans ih
  | some _ ih => exact ih

end Builds

/-! ### Clean statements -/

section Clean
variable {env : CodegenEnv} {b b' : Builder I V} {code : Code} {terminated : Bool} {pending : List Nat}

/-- Code that builds nothing has no jump in it. -/
theorem Compiled.clean_of_silent (run : Compiled gen env b code b' terminated)
    (silent : code.emits gen = false) :
    code.clean gen = true ∧ terminated = false := by
  induction run with
  | expr => exact ⟨rfl, rfl⟩
  | compound _ ih => exact ih silent
  | nil | null => exact ⟨rfl, rfl⟩
  | stmtItem _ _ ihFirst ihLater =>
    obtain ⟨first, later⟩ := Bool.or_eq_false_iff.mp silent
    obtain ⟨cleanFirst, rfl⟩ := ihFirst first
    obtain ⟨cleanLater, rfl⟩ := ihLater later
    refine ⟨?_, rfl⟩
    simp only [Code.clean, itemsClean, Bool.and_eq_true, Bool.not_eq_true']
    exact ⟨⟨cleanFirst, cleanLater⟩, Bool.and_eq_false_iff.mpr (.inr later)⟩
  | declItem _ _ ih => exact ih (Bool.or_eq_false_iff.mp silent).2
  | some _ ih => exact ih silent
  | ifThen | ifElse | forLoop | continueTo | breakTo | returnExpr | returnVoid => cases silent

/-- The builder after a statement, by whether it set `is_terminated`. -/
def Left (pending : List Nat) (b : Builder I V) (terminated : Bool) : Prop :=
  if terminated then Finished pending b else Ready pending b

theorem Left.brUnless (left : Left pending b terminated) (n : Nat) :
    Finished pending (b.brUnless terminated n) := by
  cases terminated with
  | true => exact left
  | false => exact Ready.finish left _ rfl

theorem codegenClause_ready {clause : Option Expr} (built : codegenClause gen b clause = some b')
    (ready : Ready pending b) : Ready pending b' := by
  cases clause with
  | none =>
    cases built
    exact ready
  | some expr =>
    obtain ⟨⟨pieces, _⟩, _, rfl⟩ := Option.map_eq_some_iff.mp built
    exact emit_ready ready pieces

theorem codegenTest_finished {condition : Option Expr} {bodyBlock exitBlock : Nat}
    (built : codegenTest gen b bodyBlock exitBlock condition = some b') (ready : Ready pending b) :
    Finished pending b' := by
  cases condition with
  | none =>
    cases built
    exact ready.finish _ rfl
  | some expr =>
    obtain ⟨⟨pieces, _⟩, _, rfl⟩ := Option.map_eq_some_iff.mp built
    exact (emit_ready ready pieces).finish _ rfl

/-- Clean code leaves the pending blocks alone and finishes every block that it leaves. -/
theorem Compiled.left (run : Compiled gen env b code b' terminated) (isClean : code.clean gen = true)
    (ready : Ready pending b) : Left pending b' terminated := by
  induction run generalizing pending with
  | expr => exact emit_ready ready _
  | compound _ ih => exact ih isClean ready
  | @ifThen _ b _ _ _ pieces cond _ _ _ n _ _ here _ ih =>
    subst here
    let n := (b.emit pieces).blocks.length
    have start := (emit_ready ready pieces).startTwo (.condBr cond n (n + 1)) rfl
    exact ((ih isClean start).brUnless (n + 1)).positionAtEnd (.refl _)
  | @ifElse _ b _ _ _ _ pieces cond _ b₁ b₂ trueTerminated falseTerminated n _ _ here _ _ ihTrue ihFalse =>
    subst here
    obtain ⟨cleanTrue, cleanFalse⟩ := Bool.and_eq_true_iff.mp isClean
    let n := (b.emit pieces).blocks.length
    have onTrue := (emit_ready ready pieces).startThree (.condBr cond n (n + 1)) rfl
    have onFalse := ((ihTrue cleanTrue onTrue).brUnless (n + 2)).positionAtEnd (.swap _ _ _)
    have exit := ((ihFalse cleanFalse onFalse).brUnless (n + 2)).positionAtEnd (.refl _)
    cases both : falseTerminated && trueTerminated with
    | true => exact exit.finish .unreachable rfl
    | false => exact exit
  | @forLoop _ b _ _ _ _ _ b₁ _ _ _ terminated n first here test body last ih =>
    subst here
    obtain ⟨cleanBody, falls⟩ := Bool.and_eq_true_iff.mp isClean
    let n := b₁.blocks.length
    have loops := (codegenClause_ready first ready).startFour (.br n) rfl
    have start := (codegenTest_finished test loops).positionAtEnd
      (List.perm_middle : ([n + 3, n + 2] ++ (n + 1) :: pending).Perm _)
    have bodyLeft := ih cleanBody start
    rw [body.terminated.trans (Bool.not_eq_true' _ ▸ falls)] at bodyLeft
    have step := (Ready.finish bodyLeft (.br (n + 2)) rfl).positionAtEnd (.swap _ _ _)
    exact ((codegenClause_ready last step).finish (.br n) rfl).positionAtEnd (.refl _)
  | continueTo | breakTo | returnVoid => exact ready.finish _ rfl
  | returnExpr => exact (emit_ready ready _).finish _ rfl
  | nil | null => exact ready
  | @stmtItem _ _ stmt items b₁ b₂ first later runFirst runLater ihFirst ihLater =>
    simp only [Code.clean, itemsClean, Bool.and_eq_true, Bool.not_eq_true'] at isClean
    obtain ⟨⟨cleanFirst, cleanLater⟩, separate⟩ := isClean
    have middle := ihFirst cleanFirst ready
    cases first with
    | false => exact ihLater cleanLater middle
    | true =>
      have silent : itemsEmit gen items = false := by
        rw [show nullableSetsTerminated stmt = true from runFirst.terminated.symm] at separate
        exact separate
      have same := runLater.builds
      rw [show (Code.items items).emits gen = false from silent] at same
      obtain rfl : b₂ = b₁ := same
      exact middle
  | declItem _ _ ih => exact ih isClean (emit_ready ready _)
  | some _ ih => exact ih isClean ready

theorem broken_grows (broken : ∃ n, Broken (b.block n)) (grows : Grows b b') : ∃ n, Broken (b'.block n) :=
  broken.imp fun n here => here.mono (grows.block n)

/-- Other code leaves a block with instructions behind a terminator. -/
theorem Compiled.broken (run : Compiled gen env b code b' terminated) (unclean : code.clean gen = false)
    (ready : Ready pending b) : ∃ n, Broken (b'.block n) := by
  induction run generalizing pending with
  | expr | continueTo | breakTo | returnExpr | returnVoid | nil | null => cases unclean
  | compound _ ih => exact ih unclean ready
  | @ifThen _ b _ _ _ pieces cond _ _ _ n _ _ here _ ih =>
    subst here
    let n := (b.emit pieces).blocks.length
    have start := (emit_ready ready pieces).startTwo (.condBr cond n (n + 1)) rfl
    exact broken_grows (ih unclean start) ((brUnless_grows _ _ _).trans (.positionAtEnd _ _))
  | @ifElse _ b _ _ _ _ pieces cond _ b₁ b₂ trueTerminated falseTerminated n _ _ here runTrue runFalse ihTrue
      ihFalse =>
    subst here
    let n := (b.emit pieces).blocks.length
    have onTrue := (emit_ready ready pieces).startThree (.condBr cond n (n + 1)) rfl
    have inside : ∃ m, Broken (b₂.block m) := by
      cases cleanTrue : (Code.nullable _).clean gen with
      | false =>
        refine broken_grows (ihTrue cleanTrue onTrue) ?_
        exact (brUnless_grows _ _ _).trans ((Grows.positionAtEnd _ _).trans runFalse.builds.grows)
      | true =>
        have onFalse := ((runTrue.left cleanTrue onTrue).brUnless (n + 2)).positionAtEnd (.swap _ _ _)
        refine ihFalse ?_ onFalse
        exact (Bool.and_eq_false_iff.mp unclean).resolve_left (Bool.not_eq_false _ ▸ cleanTrue)
    exact broken_grows inside (ifExit_grows b₂ trueTerminated falseTerminated (n + 2))
  | @forLoop _ b _ _ _ _ _ b₁ _ b₃ b₄ terminated n first here test body last ih =>
    subst here
    let n := b₁.blocks.length
    have loops := (codegenClause_ready first ready).startFour (.br n) rfl
    have start := (codegenTest_finished test loops).positionAtEnd
      (List.perm_middle : ([n + 3, n + 2] ++ (n + 1) :: pending).Perm _)
    have exit : Grows (b₃.build (.br (n + 2))) ((b₄.build (.br n)).positionAtEnd (n + 3)) :=
      (Grows.positionAtEnd _ _).trans ((codegenClause_grows last).trans (.trans (.build _ _) (.positionAtEnd _ _)))
    rcases Bool.and_eq_false_iff.mp unclean with inside | jumps
    · exact broken_grows (ih inside start) (.trans (.build _ _) exit)
    · cases cleanBody : (Code.nullable _).clean gen with
      | false => exact broken_grows (ih cleanBody start) (.trans (.build _ _) exit)
      | true =>
        have bodyLeft := body.left cleanBody start
        rw [body.terminated.trans (Bool.not_eq_false' _ ▸ jumps)] at bodyLeft
        exact broken_grows ⟨_, Finished.broken bodyLeft (.build _ _)⟩ exit
  | @stmtItem _ _ stmt items b₁ b₂ first later runFirst runLater ihFirst ihLater =>
    cases cleanFirst : (Code.nullable stmt).clean gen with
    | false => exact broken_grows (ihFirst cleanFirst ready) runLater.builds.grows
    | true =>
      have middle := runFirst.left cleanFirst ready
      have builds := runLater.builds
      cases first with
      | false =>
        refine ihLater ?_ middle
        have falls : nullableSetsTerminated stmt = false := runFirst.terminated.symm
        simpa [Code.clean, itemsClean, show nullableClean gen stmt = true from cleanFirst, falls] using unclean
      | true =>
        cases emits : (Code.items items).emits gen with
        | true =>
          rw [emits] at builds
          exact ⟨_, Finished.broken middle builds⟩
        | false =>
          have cleanLater := (runLater.clean_of_silent emits).1
          simp only [Code.clean, itemsClean, Bool.and_eq_false_iff, Bool.not_eq_false', Bool.and_eq_true] at unclean
          rcases unclean with (unclean | unclean) | unclean
          · exact absurd cleanFirst (Bool.not_eq_true _ ▸ unclean)
          · exact absurd cleanLater (Bool.not_eq_true _ ▸ unclean)
          · exact absurd unclean.2 (Bool.not_eq_true _ ▸ emits)
  | declItem _ _ ih => exact ih unclean (emit_ready ready _)
  | some _ ih => exact ih unclean ready

end Clean

/-- The blocks of a function are well formed just when its body is clean. -/
theorem codegenBody_wellFormed (func : FuncUnit) (body : Stmt) (b : Builder I V)
    (accepted : codegenBody gen func body = some b) : WellFormed b ↔ clean gen body = true := by
  obtain ⟨⟨b₁, terminated⟩, built, ending⟩ := Option.bind_eq_some_iff.mp accepted
  have run := codegenStmt_compiled body built
  have ready := emit_ready ready_entry
    (func.params.flatMap fun param => (gen.param param).map fun instr => (.instr instr : ExprPiece I V))
  have grows : Grows b₁ b := by
    cases terminated with
    | true =>
      cases ending
      exact .refl _
    | false =>
      simp only [Bool.false_eq_true, if_false] at ending
      split at ending
      · cases ending
        exact .build _ _
      · cases ending
  cases isClean : clean gen body with
  | false =>
    obtain ⟨n, broken⟩ := broken_grows (run.broken isClean ready) grows
    simp [broken.not_wellFormed]
  | true =>
    have left := run.left isClean ready
    simp only [iff_true]
    cases terminated with
    | true =>
      cases ending
      exact Finished.wellFormed left
    | false =>
      simp only [Bool.false_eq_true, if_false] at ending
      split at ending
      · cases ending
        exact (Ready.finish left (.ret none) rfl).wellFormed
      · cases ending

/-- `for { break }`: the body ends with the branch of the `break` and the one to the step. -/
theorem break_at_end_of_loop :
    let func : FuncUnit := ⟨.mk 0 .voidType, [102], none, [], false⟩
    let body : Stmt := .mk ⟨0, 0⟩ (.compoundStmt [.stmtItem (some (.mk ⟨0, 0⟩
      (.forStmt none none none (some (.mk ⟨0, 0⟩ .breakStmt)))))])
    ∃ b, codegenBody (atomicGen fun _ => .boolean) func body = some b ∧ ¬WellFormed b := by
  refine ⟨_, rfl, Broken.not_wellFormed (n := 2) ⟨[], .br 4, [.br 3], rfl, rfl, List.cons_ne_nil _ _⟩⟩

/-- `{ for c { if c { break } else { c } c } if c { return } else { c } }`. -/
def loopBody : Stmt :=
  let stmt (kind : StmtKind Stmt) : Stmt := .mk ⟨0, 0⟩ kind
  let c : Expr := .mk ⟨0, 0⟩ .zero (.identExpr [99])
  let choice (jump : StmtKind Stmt) : Stmt := stmt (.ifStmt c (some (stmt jump)) (some (stmt (.exprStmt c))))
  let loop : Stmt := stmt (.forStmt none (some c) none (some (stmt (.compoundStmt
    [.stmtItem (some (choice .breakStmt)), .stmtItem (some (stmt (.exprStmt c)))]))))
  stmt (.compoundStmt [.stmtItem (some loop), .stmtItem (some (choice (.returnStmt none)))])

theorem loopBody_wellFormed :
    ∃ b, codegenBody (atomicGen fun _ => .boolean) ⟨.mk 0 .voidType, [102], none, [], false⟩ loopBody = some b ∧
      WellFormed b := by
  obtain ⟨b, accepted⟩ : ∃ b, codegenBody (atomicGen fun _ => .boolean) ⟨.mk 0 .voidType, [102], none, [], false⟩ loopBody =
    some b := ⟨_, rfl⟩
  exact ⟨b, accepted, (codegenBody_wellFormed _ loopBody b accepted).mpr rfl⟩

end Low
