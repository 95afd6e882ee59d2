import LowCompiler.Writer.Types

/-!
# Writing expressions

Every expression but one that no text has: a comma expression of fewer than two
elements or one that begins with another, a slice whose kind is not that of its
bounds, and a literal that cannot be spelled.
-/

namespace Low

def wordParens (words : List Word) : List Word := sign .LPAREN :: (words ++ [sign .RPAREN])

mutual

def writeAt (rule : Rule) : Expr → List Word
  | .mk _ _ kind => if exprLevel rule ≤ exprLevel kind.rule then writeKind kind else wordParens (writeKind kind)
termination_by structural e => e

def writeKind : ExprKind Expr → List Word
  | .identExpr ident => [name ident]
  | .stringLiteralExpr s => [literal s]
  | .numberLiteralExpr s radix => [number (numberSpelling s radix)]
  | .indexAccessExpr target index =>
    writeAt .postfixExpr target ++ sign .LBRACK :: (writeAt .expr index ++ [sign .RBRACK])
  | .indexSliceExpr target start stop _ =>
    writeAt .postfixExpr target ++
      sign .LBRACK :: (writeBound start ++ sign .COLON :: (writeBound stop ++ [sign .RBRACK]))
  | .callExpr target args =>
    writeAt .postfixExpr target ++ sign .LPAREN :: (commas (writeExprs args) ++ [sign .RPAREN])
  | .memberAccessExpr target n => writeAt .postfixExpr target ++ [sign .PERIOD, name n]
  | .incdecExpr target .POST direction => writeAt .postfixExpr target ++ [sign direction.token]
  | .incdecExpr target .PRE direction => sign direction.token :: writeAt .unaryExpr target
  | .unaryExpr target op => sign op.token :: writeAt .castExpr target
  | .exprSizeof expr => sign .SIZEOF :: writeAt .unaryExpr expr
  | .typeSizeof type => sign .SIZEOF :: sign .HASH :: writeType type
  | .castExpr target type =>
    sign .HASH :: sign .LPAREN :: (writeType type ++ sign .RPAREN :: writeAt .castExpr target)
  | .binaryExpr lhs rhs op => writeAt op.rules.1 lhs ++ sign op.token :: writeAt op.rules.2 rhs
  | .conditionalExpr condition trueExpr falseExpr =>
    writeAt .orExpr condition ++
      sign .QUESTION :: (writeAt .expr trueExpr ++ sign .COLON :: writeAt .conditionalExpr falseExpr)
  | .assignmentExpr target expr op =>
    writeAt .unaryExpr target ++ sign op.token :: writeAt .assignmentExpr expr
  | .commaExpr exprs => commas (writeExprs exprs)
  | .newBuiltin type none => sign .NEW :: sign .LPAREN :: (writeType type ++ [sign .RPAREN])
  | .newBuiltin type (some expr) =>
    sign .NEW :: sign .LPAREN :: (writeType type ++ sign .COMMA :: (writeAt .expr expr ++ [sign .RPAREN]))
  | .freeBuiltin expr => sign .FREE :: sign .LPAREN :: (writeAt .expr expr ++ [sign .RPAREN])
  | .makeBuiltin type expr =>
    sign .MAKE :: sign .LPAREN :: (writeType type ++ sign .COMMA :: (writeAt .expr expr ++ [sign .RPAREN]))
  | .lencapBuiltin expr .LEN => sign .LEN :: sign .LPAREN :: (writeAt .expr expr ++ [sign .RPAREN])
  | .lencapBuiltin expr .CAP => sign .CAP :: sign .LPAREN :: (writeAt .expr expr ++ [sign .RPAREN])
  | .disposeBuiltin expr => sign .DISPOSE :: sign .LPAREN :: (writeAt .expr expr ++ [sign .RPAREN])
termination_by structural kind => kind

def writeExprs : List Expr → List (List Word)
  | [] => []
  | e :: es => writeAt .assignmentExpr e :: writeExprs es
termination_by structural es => es

def writeBound : Option Expr → List Word
  | none => []
  | some e => writeAt .expr e
termination_by structural bound => bound

end

theorem writeExprs_eq (es : List Expr) : writeExprs es = es.map (writeAt .assignmentExpr) := by
  induction es with
  | nil => rfl
  | cons e es ih => rw [writeExprs, ih, List.map_cons]

/-! ### Expressions that can be written -/

def ExprKind.Writable : ExprKind Expr → Prop
  | .identExpr ident => IsIdent ident
  | .stringLiteralExpr s => '\\'.toUInt8 ∉ s ∧ (escape s).length < 2 ^ 32 - 1
  | .numberLiteralExpr s radix => WritableNumber s radix
  | .indexSliceExpr target start stop kind => (ExprKind.indexSliceExpr target start stop kind).Plain
  | .commaExpr exprs => (ExprKind.commaExpr exprs).Plain
  | .memberAccessExpr _ n => IsIdent n
  | .typeSizeof type | .castExpr _ type | .newBuiltin type _ | .makeBuiltin type _ => type.Writable
  | _ => True

/-- An expression as the parser can build it. It has no type yet. -/
inductive Expr.Writable : Expr → Prop where
  | mk {loc : Loc} {kind : ExprKind Expr} : kind.Writable → (∀ e ∈ kind.children, Writable e) →
      Writable (.mk loc .zero kind)

/-! ### A written expression is read back -/

section Parses
variable {source : Memory} {ruleIds : Rule → Nat} {v w : List Word}

theorem Parses.default (level : Nat) (bound : level < 16) {e : Expr}
    (next : Parses source ruleIds [SUB (exprRule (level + 1))] w [Holds .expr e]) :
    Parses source ruleIds [SUB (exprRule level)] w [Holds .expr e] := by
  obtain ⟨has, variant⟩ := default_variant level bound
  exact next.pass (p := ⟨exprRule level, 0⟩) has variant

/-- A phrase of a level is one of every level above it. -/
theorem Parses.lift {level lower : Nat} (le : level ≤ lower) (bound : lower ≤ 16) {e : Expr}
    (phrase : Parses source ruleIds [SUB (exprRule lower)] w [Holds .expr e]) :
    Parses source ruleIds [SUB (exprRule level)] w [Holds .expr e] := by
  induction lower, le using Nat.le_induction with
  | base => exact phrase
  | succ lower le ih => exact ih (by omega) (Parses.default lower (by omega) phrase)

theorem Parses.parens {e : Expr} (inside : Parses source ruleIds [SUB .expr] w [Holds .expr e]) :
    Parses source ruleIds [SUB .primaryExpr] (wordParens w) [Holds .expr e] := by
  refine Parses.node (p := ⟨.primaryExpr, 3⟩) (by decide)
    (Parses.sign (by decide) (inside.cons (parses_sign .RPAREN (by decide)))) ?_
  intro tokens hold
  obtain _ | ⟨⟨_⟩, _ | ⟨⟨_, _, _, _, same⟩, _ | ⟨⟨_⟩, _ | _⟩⟩⟩ := hold
  exact ⟨_, rfl, .mk _ _ _ _ same⟩

/-- An operand is read at the level asked for, with parentheses or without. -/
theorem Parses.writeAt {e : Expr} (own : Parses source ruleIds [SUB e.kind.rule] (writeKind e.kind) [Holds .expr e])
    {rule : Rule} (known : rule ∈ exprLevels.map Prod.fst) :
    Parses source ruleIds [SUB rule] (writeAt rule e) [Holds .expr e] := by
  obtain ⟨loc, type, kind⟩ := e
  obtain ⟨bound, same⟩ := exprRule_level rule known
  obtain ⟨bound', same'⟩ := exprRule_level kind.rule (ExprKind.rule_known kind)
  rw [Low.writeAt]
  split
  · rename_i le
    rw [← same]
    exact .lift le bound' (by rw [same']; exact own)
  · have whole : Parses source ruleIds [SUB (exprRule 0)] (writeKind kind) [Holds .expr (.mk loc type kind)] :=
      .lift (Nat.zero_le _) bound' (by rw [same']; exact own)
    rw [← same]
    exact .lift bound (Nat.le_refl 16) (Parses.parens whole)

/-! ### Operators -/

theorem BinaryOp.token_spelt (op : BinaryOp) : op.token.spelt = true := by
  cases op <;> decide

theorem parses_binary {loc : Loc} {lhs rhs : Expr} (op : BinaryOp)
    (left : Parses source ruleIds [SUB op.rules.1] v [Holds .expr lhs])
    (right : Parses source ruleIds [SUB op.rules.2] w [Holds .expr rhs]) :
    Parses source ruleIds [SUB op.rules.1] (v ++ sign op.token :: w)
      [Holds .expr (.mk loc .zero (.binaryExpr lhs rhs op))] := by
  obtain ⟨has, elements⟩ := binary_elements op
  refine Parses.node (p := ⟨op.rules.1, op.variant⟩) has
    (by rw [elements]; exact left.cons (right.sign op.token_spelt)) ?_
  intro tokens hold
  obtain _ | ⟨⟨_, _, _, _, same⟩, _ | ⟨⟨_⟩, _ | ⟨⟨_, _, _, _, same'⟩, _ | _⟩⟩⟩ := hold
  simp only [Kind.erase] at same same'
  cases op <;> exact ⟨_, rfl, .mk _ _ _ _ (by simp only [Kind.erase, Expr.unlocated, unlocatedKind, same, same'])⟩

theorem parses_unaryOp (op : UnaryOp) :
    Parses source ruleIds [SUB .unaryOp] [sign op.token] [IsOp .unaryOp op] := by
  have word : Parses source ruleIds (lowGrammar.lr.elements ⟨.unaryOp, op.variant⟩) [sign op.token] [IsSign op.token] := by
    cases op <;> exact parses_sign _ (by decide)
  refine Parses.node (p := ⟨.unaryOp, op.variant⟩) (by cases op <;> decide) word ?_
  intro tokens hold
  obtain _ | ⟨⟨_⟩, _ | _⟩ := hold
  cases op <;> exact ⟨_, rfl, .mk _ _ _ _⟩

theorem parses_assignmentOp (op : AssignmentOp) :
    Parses source ruleIds [SUB .assignmentOp] [sign op.token] [IsOp .assignmentOp op] := by
  have word : Parses source ruleIds (lowGrammar.lr.elements ⟨.assignmentOp, op.variant⟩) [sign op.token]
      [IsSign op.token] := by
    cases op <;> exact parses_sign _ (by decide)
  refine Parses.node (p := ⟨.assignmentOp, op.variant⟩) (by cases op <;> decide) word ?_
  intro tokens hold
  obtain _ | ⟨⟨_⟩, _ | _⟩ := hold
  cases op <;> exact ⟨_, rfl, .mk _ _ _ _⟩

theorem parses_incdec {loc : Loc} {target : Expr} (order : IncdecOrder) (direction : IncdecDirection)
    (operand : ∀ rule ∈ exprLevels.map Prod.fst, Parses source ruleIds [SUB rule] (writeAt rule target)
      [Holds .expr target]) :
    Parses source ruleIds [SUB (ExprKind.incdecExpr target order direction).rule]
      (writeKind (.incdecExpr target order direction))
      [Holds .expr (.mk loc .zero (.incdecExpr target order direction))] := by
  cases order with
  | POST =>
    have first := operand .postfixExpr (by decide)
    cases direction with
    | INC =>
      refine Parses.node (p := ⟨.postfixExpr, 9⟩) (by decide) (first.cons (parses_sign .INC_OP (by decide))) ?_
      intro tokens hold
      obtain _ | ⟨⟨_, _, _, _, same⟩, _ | ⟨⟨_⟩, _ | _⟩⟩ := hold
      simp only [Kind.erase] at same
      exact ⟨_, rfl, .mk _ _ _ _ (by simp only [Kind.erase, Expr.unlocated, unlocatedKind, same]; rfl)⟩
    | DEC =>
      refine Parses.node (p := ⟨.postfixExpr, 10⟩) (by decide) (first.cons (parses_sign .DEC_OP (by decide))) ?_
      intro tokens hold
      obtain _ | ⟨⟨_, _, _, _, same⟩, _ | ⟨⟨_⟩, _ | _⟩⟩ := hold
      simp only [Kind.erase] at same
      exact ⟨_, rfl, .mk _ _ _ _ (by simp only [Kind.erase, Expr.unlocated, unlocatedKind, same]; rfl)⟩
  | PRE =>
    have first := operand .unaryExpr (by decide)
    cases direction with
    | INC =>
      refine Parses.node (p := ⟨.unaryExpr, 1⟩) (by decide) (first.sign (by decide)) ?_
      intro tokens hold
      obtain _ | ⟨⟨_⟩, _ | ⟨⟨_, _, _, _, same⟩, _ | _⟩⟩ := hold
      simp only [Kind.erase] at same
      exact ⟨_, rfl, .mk _ _ _ _ (by simp only [Kind.erase, Expr.unlocated, unlocatedKind, same]; rfl)⟩
    | DEC =>
      refine Parses.node (p := ⟨.unaryExpr, 2⟩) (by decide) (first.sign (by decide)) ?_
      intro tokens hold
      obtain _ | ⟨⟨_⟩, _ | ⟨⟨_, _, _, _, same⟩, _ | _⟩⟩ := hold
      simp only [Kind.erase] at same
      exact ⟨_, rfl, .mk _ _ _ _ (by simp only [Kind.erase, Expr.unlocated, unlocatedKind, same]; rfl)⟩

/-! ### Slices, calls and commas -/

/-- The bounds of a slice between the bracket before them and the bracket behind. -/
theorem parses_slice {loc : Loc} {target : Expr} {start stop : Option Expr} {kind : IndexSliceKind}
    (plain : (ExprKind.indexSliceExpr target start stop kind).Plain)
    (first : Parses source ruleIds [SUB .postfixExpr] w [Holds .expr target])
    (bound : ∀ e ∈ start.toList ++ stop.toList, Parses source ruleIds [SUB .expr] (writeAt .expr e) [Holds .expr e]) :
    Parses source ruleIds [SUB .postfixExpr]
      (w ++ sign .LBRACK :: (writeBound start ++ sign .COLON :: (writeBound stop ++ [sign .RBRACK])))
      [Holds .expr (.mk loc .zero (.indexSliceExpr target start stop kind))] := by
  have close : Parses source ruleIds [TKN .RBRACK] [sign .RBRACK] [IsSign .RBRACK] := parses_sign .RBRACK (by decide)
  cases start with
  | none =>
    cases stop with
    | none =>
      obtain rfl : kind = .COPY := plain
      refine Parses.node (p := ⟨.postfixExpr, 5⟩) (by decide) (first.cons ((close.sign (by decide)).sign (by decide))) ?_
      intro tokens hold
      obtain _ | ⟨⟨_, _, _, _, same⟩, _ | ⟨⟨_⟩, _ | ⟨⟨_⟩, _ | ⟨⟨_⟩, _ | _⟩⟩⟩⟩ := hold
      simp only [Kind.erase] at same
      exact ⟨_, rfl, .mk _ _ _ _ (by simp only [Kind.erase, Expr.unlocated, unlocatedKind, unlocatedOption, same])⟩
    | some stop =>
      obtain rfl : kind = .PREFIX := plain
      have last := bound stop (by simp)
      refine Parses.node (p := ⟨.postfixExpr, 3⟩) (by decide) (first.cons (((last.cons close).sign (by decide)).sign (by decide))) ?_
      intro tokens hold
      obtain _ | ⟨⟨_, _, _, _, same⟩, _ | ⟨⟨_⟩, _ | ⟨⟨_⟩, _ | ⟨⟨_, _, _, _, same'⟩, _ | ⟨⟨_⟩, _ | _⟩⟩⟩⟩⟩ := hold
      simp only [Kind.erase] at same same'
      exact ⟨_, rfl, .mk _ _ _ _ (by simp only [Kind.erase, Expr.unlocated, unlocatedKind, unlocatedOption, same, same'])⟩
  | some start =>
    have begins := bound start (by simp)
    cases stop with
    | none =>
      obtain rfl : kind = .POSTFIX := plain
      refine Parses.node (p := ⟨.postfixExpr, 4⟩) (by decide) (first.cons ((begins.cons (close.sign (by decide))).sign (by decide))) ?_
      intro tokens hold
      obtain _ | ⟨⟨_, _, _, _, same⟩, _ | ⟨⟨_⟩, _ | ⟨⟨_, _, _, _, same'⟩, _ | ⟨⟨_⟩, _ | ⟨⟨_⟩, _ | _⟩⟩⟩⟩⟩ := hold
      simp only [Kind.erase] at same same'
      exact ⟨_, rfl, .mk _ _ _ _ (by simp only [Kind.erase, Expr.unlocated, unlocatedKind, unlocatedOption, same, same'])⟩
    | some stop =>
      obtain rfl : kind = .RANGE := plain
      have last := bound stop (by simp)
      refine Parses.node (p := ⟨.postfixExpr, 2⟩) (by decide) (first.cons ((begins.cons ((last.cons close).sign (by decide))).sign (by decide))) ?_
      intro tokens hold
      obtain _ | ⟨⟨_, _, _, _, same⟩, _ | ⟨⟨_⟩, _ | ⟨⟨_, _, _, _, same'⟩, _ | ⟨⟨_⟩, _ |
        ⟨⟨_, _, _, _, same''⟩, _ | ⟨⟨_⟩, _ | _⟩⟩⟩⟩⟩⟩ := hold
      simp only [Kind.erase] at same same' same''
      exact ⟨_, rfl, .mk _ _ _ _
        (by simp only [Kind.erase, Expr.unlocated, unlocatedKind, unlocatedOption, same, same', same''])⟩

theorem argument_list : IsListRule .argumentExprList .assignmentExpr (some .COMMA) .expr .argumentExprList :=
  ⟨rfl, rfl, by decide, by decide, fun _ _ _ => .inl rfl⟩

theorem parses_call {loc : Loc} {target : Expr} {args : List Expr}
    (first : Parses source ruleIds [SUB .postfixExpr] w [Holds .expr target])
    (each : ∀ e ∈ args, Parses source ruleIds [SUB .assignmentExpr] (writeAt .assignmentExpr e) [Holds .expr e]) :
    Parses source ruleIds [SUB .postfixExpr] (w ++ sign .LPAREN :: (commas (writeExprs args) ++ [sign .RPAREN]))
      [Holds .expr (.mk loc .zero (.callExpr target args))] := by
  have close : Parses source ruleIds [TKN .RPAREN] [sign .RPAREN] [IsSign .RPAREN] := parses_sign .RPAREN (by decide)
  by_cases none : args = []
  · subst none
    refine Parses.node (p := ⟨.postfixExpr, 6⟩) (by decide) (first.cons (close.sign (by decide))) ?_
    intro tokens hold
    obtain _ | ⟨⟨_, _, _, _, same⟩, _ | ⟨⟨_⟩, _ | ⟨⟨_⟩, _ | _⟩⟩⟩ := hold
    simp only [Kind.erase] at same
    exact ⟨_, rfl, .mk _ _ _ _ (by simp only [Kind.erase, Expr.unlocated, unlocatedKind, unlocatedList, same])⟩
  · have list := argument_list.parses_map none each
    rw [← writeExprs_eq] at list
    refine Parses.node (p := ⟨.postfixExpr, 7⟩) (by decide) (first.cons ((list.cons close).sign (by decide))) ?_
    intro tokens hold
    obtain _ | ⟨⟨_, _, _, _, same⟩, _ | ⟨⟨_⟩, _ | ⟨⟨_, _, _, _, items⟩, _ | ⟨⟨_⟩, _ | _⟩⟩⟩⟩ := hold
    simp only [Kind.erase] at same
    replace items : List.map Expr.unlocated _ = args.map Expr.unlocated := items
    exact ⟨_, rfl, .mk _ _ _ _
      (by simp only [Kind.erase, Expr.unlocated, unlocatedKind, unlocatedList_eq, same, items])⟩

theorem parses_commas {loc : Loc} {ws : List (List Word)} {es : List Expr}
    (each : List.Forall₂ (fun w e => Parses source ruleIds [SUB .assignmentExpr] w [Holds .expr e]) ws es) :
    ∀ {before : List Expr} {w : List Word},
      Parses source ruleIds [SUB .expr] w [Holds .expr (.mk loc .zero (.commaExpr before))] →
      Parses source ruleIds [SUB .expr] (w ++ ws.flatMap ([sign .COMMA] ++ ·))
        [Holds .expr (.mk loc .zero (.commaExpr (before ++ es)))] := by
  induction each with
  | nil =>
    intro before w read
    simpa using read
  | @cons v e _ _ first _ ih =>
    intro before w read
    have next : Parses source ruleIds [SUB .expr] (w ++ sign .COMMA :: v)
        [Holds .expr (.mk loc .zero (.commaExpr (before ++ [e])))] := by
      refine Parses.node (p := ⟨.expr, 1⟩) (by decide) (read.cons (first.sign (by decide))) ?_
      intro tokens hold
      obtain _ | ⟨⟨_, _, _, _, same⟩, _ | ⟨⟨_⟩, _ | ⟨⟨_, _, _, _, same'⟩, _ | _⟩⟩⟩ := hold
      exact ⟨_, rfl, .mk _ _ _ _ (unlocated_commaAdd same same')⟩
    have later := ih next
    simpa [List.append_assoc] using later

theorem parses_comma {loc : Loc} {exprs : List Expr} (plain : (ExprKind.commaExpr exprs).Plain)
    (each : ∀ e ∈ exprs, Parses source ruleIds [SUB .assignmentExpr] (writeAt .assignmentExpr e) [Holds .expr e]) :
    Parses source ruleIds [SUB .expr] (commas (writeExprs exprs))
      [Holds .expr (.mk loc .zero (.commaExpr exprs))] := by
  match exprs, plain with
  | e :: next :: es, plain =>
    have first : e.kind.isComma = false := plain.2 e rfl
    have begins : Parses source ruleIds [SUB .expr] (writeAt .assignmentExpr e) [Holds .expr e] :=
      (each e List.mem_cons_self).pass (p := ⟨.expr, 0⟩) (by decide) rfl
    have two : Parses source ruleIds [SUB .expr]
        (writeAt .assignmentExpr e ++ sign .COMMA :: writeAt .assignmentExpr next)
        [Holds .expr (.mk loc .zero (.commaExpr [e, next]))] := by
      refine Parses.node (p := ⟨.expr, 1⟩) (by decide) (begins.cons ((each next (by simp)).sign (by decide))) ?_
      intro tokens hold
      obtain _ | ⟨⟨_, _, _, _, same⟩, _ | ⟨⟨_⟩, _ | ⟨⟨_, _, _, _, same'⟩, _ | _⟩⟩⟩ := hold
      refine ⟨_, rfl, .mk _ _ _ _ ((unlocated_commaAdd same same').trans ?_)⟩
      rw [commaAdd_first first]
      simp only [Expr.unlocated, Kind.erase]
    have others : List.Forall₂ (fun w e => Parses source ruleIds [SUB .assignmentExpr] w [Holds .expr e])
        (es.map (writeAt .assignmentExpr)) es := by
      rw [List.forall₂_map_left_iff, List.forall₂_same]
      exact fun f member => each f (by simp [member])
    have all := parses_commas others two
    simpa [commas, joined, writeExprs, writeExprs_eq] using all

theorem Parses.builtin {e : Expr} (own : Parses source ruleIds [SUB .builtinFunc] w [Holds .expr e]) :
    Parses source ruleIds [SUB .unaryExpr] w [Holds .expr e] :=
  own.pass (p := ⟨.unaryExpr, 6⟩) (by decide) rfl

theorem parses_new {loc : Loc} {type : AstType} {expr : Option Expr} (writable : type.Writable)
    (operand : ∀ e ∈ expr, Parses source ruleIds [SUB .expr] (writeAt .expr e) [Holds .expr e]) :
    Parses source ruleIds [SUB .unaryExpr] (writeKind (.newBuiltin type expr))
      [Holds .expr (.mk loc .zero (.newBuiltin type expr))] := by
  have close : Parses source ruleIds [TKN .RPAREN] [sign .RPAREN] [IsSign .RPAREN] := parses_sign .RPAREN (by decide)
  cases expr with
  | none =>
    refine Parses.builtin (Parses.node (p := ⟨.builtinFunc, 0⟩) (by decide)
      (Parses.sign (by decide) (Parses.sign (by decide) ((parses_type writable).cons close))) ?_)
    intro tokens hold
    obtain _ | ⟨⟨_⟩, _ | ⟨⟨_⟩, _ | ⟨@⟨_, _, _, _, type', same⟩, _ | ⟨⟨_⟩, _ | _⟩⟩⟩⟩ := hold
    obtain rfl : type' = type := same
    exact ⟨_, rfl, .mk _ _ _ _ rfl⟩
  | some expr =>
    have inside := operand expr rfl
    refine Parses.builtin (Parses.node (p := ⟨.builtinFunc, 1⟩) (by decide)
      (Parses.sign (by decide) (Parses.sign (by decide) ((parses_type writable).cons (Parses.sign (by decide) (inside.cons close))))) ?_)
    intro tokens hold
    obtain _ | ⟨⟨_⟩, _ | ⟨⟨_⟩, _ | ⟨@⟨_, _, _, _, type', same⟩, _ | ⟨⟨_⟩, _ | ⟨⟨_, _, _, _, same'⟩, _ |
      ⟨⟨_⟩, _ | _⟩⟩⟩⟩⟩⟩ := hold
    obtain rfl : type' = type := same
    simp only [Kind.erase] at same'
    exact ⟨_, rfl, .mk _ _ _ _ (by simp only [Kind.erase, Expr.unlocated, unlocatedKind, unlocatedOption, same'])⟩

theorem parses_make {loc : Loc} {type : AstType} {expr : Expr} (writable : type.Writable)
    (inside : Parses source ruleIds [SUB .expr] (writeAt .expr expr) [Holds .expr expr]) :
    Parses source ruleIds [SUB .unaryExpr] (writeKind (.makeBuiltin type expr))
      [Holds .expr (.mk loc .zero (.makeBuiltin type expr))] := by
  have close : Parses source ruleIds [TKN .RPAREN] [sign .RPAREN] [IsSign .RPAREN] := parses_sign .RPAREN (by decide)
  refine Parses.builtin (Parses.node (p := ⟨.builtinFunc, 3⟩) (by decide)
    (Parses.sign (by decide) (Parses.sign (by decide) ((parses_type writable).cons (Parses.sign (by decide) (inside.cons close))))) ?_)
  intro tokens hold
  obtain _ | ⟨⟨_⟩, _ | ⟨⟨_⟩, _ | ⟨@⟨_, _, _, _, type', same⟩, _ | ⟨⟨_⟩, _ | ⟨⟨_, _, _, _, same'⟩, _ |
    ⟨⟨_⟩, _ | _⟩⟩⟩⟩⟩⟩ := hold
  obtain rfl : type' = type := same
  simp only [Kind.erase] at same'
  exact ⟨_, rfl, .mk _ _ _ _ (by simp only [Kind.erase, Expr.unlocated, unlocatedKind, same'])⟩

/-- The builtins of one expression. -/
theorem parses_builtin {loc : Loc} {expr : Expr} {kind : ExprKind Expr}
    (is : kind = .freeBuiltin expr ∨ kind = .lencapBuiltin expr .LEN ∨ kind = .lencapBuiltin expr .CAP ∨
      kind = .disposeBuiltin expr)
    (inside : Parses source ruleIds [SUB .expr] (writeAt .expr expr) [Holds .expr expr]) :
    Parses source ruleIds [SUB .unaryExpr] (writeKind kind) [Holds .expr (.mk loc .zero kind)] := by
  have close : Parses source ruleIds [TKN .RPAREN] [sign .RPAREN] [IsSign .RPAREN] := parses_sign .RPAREN (by decide)
  rcases is with rfl | rfl | rfl | rfl
  · refine Parses.builtin (Parses.node (p := ⟨.builtinFunc, 2⟩) (by decide)
      (Parses.sign (by decide) (Parses.sign (by decide) (inside.cons close))) ?_)
    intro tokens hold
    obtain _ | ⟨⟨_⟩, _ | ⟨⟨_⟩, _ | ⟨⟨_, _, _, _, same⟩, _ | ⟨⟨_⟩, _ | _⟩⟩⟩⟩ := hold
    simp only [Kind.erase] at same
    exact ⟨_, rfl, .mk _ _ _ _ (by simp only [Kind.erase, Expr.unlocated, unlocatedKind, same])⟩
  · refine Parses.builtin (Parses.node (p := ⟨.builtinFunc, 4⟩) (by decide)
      (Parses.sign (by decide) (Parses.sign (by decide) (inside.cons close))) ?_)
    intro tokens hold
    obtain _ | ⟨⟨_⟩, _ | ⟨⟨_⟩, _ | ⟨⟨_, _, _, _, same⟩, _ | ⟨⟨_⟩, _ | _⟩⟩⟩⟩ := hold
    simp only [Kind.erase] at same
    exact ⟨_, rfl, .mk _ _ _ _ (by simp only [Kind.erase, Expr.unlocated, unlocatedKind, same]; rfl)⟩
  · refine Parses.builtin (Parses.node (p := ⟨.builtinFunc, 5⟩) (by decide)
      (Parses.sign (by decide) (Parses.sign (by decide) (inside.cons close))) ?_)
    intro tokens hold
    obtain _ | ⟨⟨_⟩, _ | ⟨⟨_⟩, _ | ⟨⟨_, _, _, _, same⟩, _ | ⟨⟨_⟩, _ | _⟩⟩⟩⟩ := hold
    simp only [Kind.erase] at same
    exact ⟨_, rfl, .mk _ _ _ _ (by simp only [Kind.erase, Expr.unlocated, unlocatedKind, same]; rfl)⟩
  · refine Parses.builtin (Parses.node (p := ⟨.builtinFunc, 6⟩) (by decide)
      (Parses.sign (by decide) (Parses.sign (by decide) (inside.cons close))) ?_)
    intro tokens hold
    obtain _ | ⟨⟨_⟩, _ | ⟨⟨_⟩, _ | ⟨⟨_, _, _, _, same⟩, _ | ⟨⟨_⟩, _ | _⟩⟩⟩⟩ := hold
    simp only [Kind.erase] at same
    exact ⟨_, rfl, .mk _ _ _ _ (by simp only [Kind.erase, Expr.unlocated, unlocatedKind, same])⟩

/-! ### Expressions -/

/-- A written expression is read as itself. The induction is on the expression, one case for each kind. -/
theorem parses_kind {e : Expr} (writable : e.Writable) :
    Parses source ruleIds [SUB e.kind.rule] (writeKind e.kind) [Holds .expr e] := by
  have close : Parses source ruleIds [TKN .RPAREN] [sign .RPAREN] [IsSign .RPAREN] := parses_sign .RPAREN (by decide)
  have bracket : Parses source ruleIds [TKN .RBRACK] [sign .RBRACK] [IsSign .RBRACK] := parses_sign .RBRACK (by decide)
  induction writable with
  | @mk loc kind legal _ ih =>
    have operand (rule : Rule) (known : rule ∈ exprLevels.map Prod.fst) (e : Expr) (member : e ∈ kind.children) :
        Parses source ruleIds [SUB rule] (writeAt rule e) [Holds .expr e] := (ih e member).writeAt known
    cases kind with
    | identExpr ident =>
      refine Parses.node (p := ⟨.primaryExpr, 0⟩) (by decide) (parses_name legal) ?_
      intro tokens hold
      obtain _ | ⟨⟨_, _, _, rfl⟩, _ | _⟩ := hold
      exact ⟨_, rfl, .mk _ _ _ _ rfl⟩
    | stringLiteralExpr s =>
      refine Parses.node (p := ⟨.primaryExpr, 1⟩) (by decide) (parses_string legal.1 legal.2) ?_
      intro tokens hold
      obtain _ | ⟨⟨first, last, loc', decoded⟩, _ | _⟩ := hold
      refine ⟨⟨ruleIds .primaryExpr, first, last, loc', newExpr loc' (.stringLiteralExpr s)⟩, ?_, .mk _ _ _ _ rfl⟩
      show Except.map _ (stringLiteral _ _ _ >>= _) = _
      rw [decoded]
      rfl
    | numberLiteralExpr s radix =>
      refine Parses.node (p := ⟨.primaryExpr, 2⟩) (by decide) (parses_number legal) ?_
      intro tokens hold
      obtain _ | ⟨⟨first, last, loc', stored⟩, _ | _⟩ := hold
      refine ⟨⟨ruleIds .primaryExpr, first, last, loc', newExpr loc' (.numberLiteralExpr s radix)⟩, ?_, .mk _ _ _ _ rfl⟩
      show Except.map _ (numberLiteral _ _ _ >>= _) = _
      rw [stored]
      rfl
    | indexAccessExpr target index =>
      have first := operand .postfixExpr (by decide) target (by simp [ExprKind.children])
      have second := operand .expr (by decide) index (by simp [ExprKind.children])
      refine Parses.node (p := ⟨.postfixExpr, 1⟩) (by decide) (first.cons ((second.cons bracket).sign (by decide))) ?_
      intro tokens hold
      obtain _ | ⟨⟨_, _, _, _, same⟩, _ | ⟨⟨_⟩, _ | ⟨⟨_, _, _, _, same'⟩, _ | ⟨⟨_⟩, _ | _⟩⟩⟩⟩ := hold
      simp only [Kind.erase] at same same'
      exact ⟨_, rfl, .mk _ _ _ _ (by simp only [Kind.erase, Expr.unlocated, unlocatedKind, same, same'])⟩
    | indexSliceExpr target start stop kind =>
      exact parses_slice legal (operand .postfixExpr (by decide) target (by simp [ExprKind.children])) fun e member =>
        operand .expr (by decide) e (List.mem_cons_of_mem _ member)
    | callExpr target args =>
      exact parses_call (operand .postfixExpr (by decide) target (by simp [ExprKind.children])) fun e member =>
        operand .assignmentExpr (by decide) e (List.mem_cons_of_mem _ member)
    | memberAccessExpr target n =>
      have first := operand .postfixExpr (by decide) target (by simp [ExprKind.children])
      refine Parses.node (p := ⟨.postfixExpr, 8⟩) (by decide) (first.cons ((parses_name legal).sign (by decide))) ?_
      intro tokens hold
      obtain _ | ⟨⟨_, _, _, _, same⟩, _ | ⟨⟨_⟩, _ | ⟨⟨_, _, _, rfl⟩, _ | _⟩⟩⟩ := hold
      simp only [Kind.erase] at same
      exact ⟨_, rfl, .mk _ _ _ _ (by simp only [Kind.erase, Expr.unlocated, unlocatedKind, same])⟩
    | incdecExpr target order direction =>
      exact parses_incdec order direction fun rule known => operand rule known target (by simp [ExprKind.children])
    | unaryExpr target op =>
      have first := operand .castExpr (by decide) target (by simp [ExprKind.children])
      refine Parses.node (p := ⟨.unaryExpr, 3⟩) (by decide) ((parses_unaryOp op).cons first) ?_
      intro tokens hold
      obtain _ | ⟨⟨_, _, _, _⟩, _ | ⟨⟨_, _, _, _, same⟩, _ | _⟩⟩ := hold
      simp only [Kind.erase] at same
      exact ⟨_, rfl, .mk _ _ _ _ (by simp only [Kind.erase, Expr.unlocated, unlocatedKind, same])⟩
    | exprSizeof expr =>
      have first := operand .unaryExpr (by decide) expr (by simp [ExprKind.children])
      refine Parses.node (p := ⟨.unaryExpr, 4⟩) (by decide) (first.sign (by decide)) ?_
      intro tokens hold
      obtain _ | ⟨⟨_⟩, _ | ⟨⟨_, _, _, _, same⟩, _ | _⟩⟩ := hold
      simp only [Kind.erase] at same
      exact ⟨_, rfl, .mk _ _ _ _ (by simp only [Kind.erase, Expr.unlocated, unlocatedKind, same])⟩
    | typeSizeof type =>
      refine Parses.node (p := ⟨.unaryExpr, 5⟩) (by decide) (Parses.sign (by decide) ((parses_type legal).sign (by decide))) ?_
      intro tokens hold
      obtain _ | ⟨⟨_⟩, _ | ⟨⟨_⟩, _ | ⟨@⟨_, _, _, _, type', same⟩, _ | _⟩⟩⟩ := hold
      obtain rfl : type' = type := same
      exact ⟨_, rfl, .mk _ _ _ _ rfl⟩
    | castExpr target type =>
      have last := operand .castExpr (by decide) target (by simp [ExprKind.children])
      refine Parses.node (p := ⟨.castExpr, 1⟩) (by decide)
        (Parses.sign (by decide) (Parses.sign (by decide) ((parses_type legal).cons (last.sign (by decide))))) ?_
      intro tokens hold
      obtain _ | ⟨⟨_⟩, _ | ⟨⟨_⟩, _ | ⟨@⟨_, _, _, _, type', same⟩, _ | ⟨⟨_⟩, _ | ⟨⟨_, _, _, _, same'⟩, _ | _⟩⟩⟩⟩⟩ := hold
      obtain rfl : type' = type := same
      simp only [Kind.erase] at same'
      exact ⟨_, rfl, .mk _ _ _ _ (by simp only [Kind.erase, Expr.unlocated, unlocatedKind, same'])⟩
    | binaryExpr lhs rhs op =>
      exact parses_binary op (operand _ (BinaryOp.rules_known op).1 lhs (by simp [ExprKind.children]))
        (operand _ (BinaryOp.rules_known op).2 rhs (by simp [ExprKind.children]))
    | conditionalExpr condition trueExpr falseExpr =>
      have first := operand .orExpr (by decide) condition (by simp [ExprKind.children])
      have second := operand .expr (by decide) trueExpr (by simp [ExprKind.children])
      have third := operand .conditionalExpr (by decide) falseExpr (by simp [ExprKind.children])
      refine Parses.node (p := ⟨.conditionalExpr, 1⟩) (by decide) (first.cons ((second.cons (third.sign (by decide))).sign (by decide))) ?_
      intro tokens hold
      obtain _ | ⟨⟨_, _, _, _, same⟩, _ | ⟨⟨_⟩, _ | ⟨⟨_, _, _, _, same'⟩, _ | ⟨⟨_⟩, _ |
        ⟨⟨_, _, _, _, same''⟩, _ | _⟩⟩⟩⟩⟩ := hold
      simp only [Kind.erase] at same same' same''
      exact ⟨_, rfl, .mk _ _ _ _ (by simp only [Kind.erase, Expr.unlocated, unlocatedKind, same, same', same''])⟩
    | assignmentExpr target expr op =>
      have first := operand .unaryExpr (by decide) target (by simp [ExprKind.children])
      have second := operand .assignmentExpr (by decide) expr (by simp [ExprKind.children])
      refine Parses.node (p := ⟨.assignmentExpr, 1⟩) (by decide)
        (first.cons ((parses_assignmentOp op).cons second)) ?_
      intro tokens hold
      obtain _ | ⟨⟨_, _, _, _, same⟩, _ | ⟨⟨_, _, _, _⟩, _ | ⟨⟨_, _, _, _, same'⟩, _ | _⟩⟩⟩ := hold
      simp only [Kind.erase] at same same'
      exact ⟨_, rfl, .mk _ _ _ _ (by simp only [Kind.erase, Expr.unlocated, unlocatedKind, same, same'])⟩
    | commaExpr exprs => exact parses_comma legal (operand .assignmentExpr (by decide))
    | newBuiltin type expr =>
      refine parses_new legal fun e is => operand .expr (by decide) e ?_
      cases is
      exact List.mem_singleton_self e
    | makeBuiltin type expr =>
      exact parses_make legal (operand .expr (by decide) expr (by simp [ExprKind.children]))
    | freeBuiltin expr =>
      exact parses_builtin (.inl rfl) (operand .expr (by decide) expr (by simp [ExprKind.children]))
    | lencapBuiltin expr kind =>
      refine parses_builtin (.inr ?_) (operand .expr (by decide) expr (by simp [ExprKind.children]))
      cases kind with
      | LEN => exact .inl rfl
      | CAP => exact .inr (.inl rfl)
    | disposeBuiltin expr =>
      exact parses_builtin (.inr (.inr (.inr rfl))) (operand .expr (by decide) expr (by simp [ExprKind.children]))

theorem parses_expr {e : Expr} (writable : e.Writable) (rule : Rule) (known : rule ∈ exprLevels.map Prod.fst) :
    Parses source ruleIds [SUB rule] (writeAt rule e) [Holds .expr e] :=
  (parses_kind writable).writeAt known

end Parses

end Low
