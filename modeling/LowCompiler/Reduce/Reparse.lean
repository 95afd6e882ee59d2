import LowCompiler.Ast.Print
import LowCompiler.Ast.TypeEqual
import LowCompiler.Reduce.Trees

/-!
# Reading a printed expression back

`Reads` pairs a derivation with what the reducers make of it. It is closed under
the variants of the grammar, so that a printed expression is read back one node
at a time; what it is read as is unique by the levels of the grammar.
-/

namespace Low

open Lr (Forest)

/-- The lexeme stands for the printed token, and the reducers read its text as it was. -/
def Printed.Spells (source : Memory) (lexeme : Lexeme) : Printed → Prop
  | .sign t => lexeme.token = t
  | .ident name => lexeme.token = .IDENT ∧ strndup source lexeme.base (lexeme.ptr - lexeme.base) = name
  | .string literal => lexeme.token = .STRING_LITERAL ∧
    stringLiteral source lexeme.base lexeme.ptr = .ok literal
  | .number literal radix => lexeme.token = .NUMBER_LITERAL ∧
    numberLiteral source lexeme.base lexeme.ptr = .ok (literal, radix)

/-! ### Tokens on the stack -/

inductive IsSign (t : Token) : StackToken Value → Prop where
  | mk (first last : Nat) (loc : Loc) : IsSign t ⟨t.toNat, first, last, loc, .null⟩

inductive IsName (source : Memory) (name : Name) : StackToken Value → Prop where
  | mk (first last : Nat) (loc : Loc) : strndup source first (last - first) = name →
      IsName source name ⟨Token.IDENT.toNat, first, last, loc, .null⟩

inductive IsString (source : Memory) (literal : Name) : StackToken Value → Prop where
  | mk (first last : Nat) (loc : Loc) : stringLiteral source first last = .ok literal →
      IsString source literal ⟨Token.STRING_LITERAL.toNat, first, last, loc, .null⟩

inductive IsNumber (source : Memory) (literal : Name) (radix : Nat) : StackToken Value → Prop where
  | mk (first last : Nat) (loc : Loc) : numberLiteral source first last = .ok (literal, radix) →
      IsNumber source literal radix ⟨Token.NUMBER_LITERAL.toNat, first, last, loc, .null⟩

inductive IsExpr (e : Expr) : StackToken Value → Prop where
  | mk (id first last : Nat) (loc : Loc) {e' : Expr} : e'.unlocated = e.unlocated →
      IsExpr e ⟨id, first, last, loc, .one .expr e'⟩

inductive IsArgs (es : List Expr) : StackToken Value → Prop where
  | mk (id first last : Nat) (loc : Loc) {es' : List Expr} : es'.map Expr.unlocated = es.map Expr.unlocated →
      IsArgs es ⟨id, first, last, loc, .array .expr es'⟩

inductive IsOp (kind : Kind) (op : kind.Val) : StackToken Value → Prop where
  | mk (id first last : Nat) (loc : Loc) : IsOp kind op ⟨id, first, last, loc, .one kind op⟩

/-! ### Derivations with their values -/

section Reads
variable (source : Memory) (ruleIds : Rule → Nat)

/-- Whatever lexemes stand for the printed tokens are derived from `α`, and if they spell them the
reductions leave tokens as described. -/
def Reads (α : List (Symbol Token Rule)) (w : List Printed) (results : List (StackToken Value → Prop)) : Prop :=
  ∀ lexemes : List Lexeme, lexemes.map Lexeme.token = w.map Printed.token →
    ∃ f : Forest Rule Lexeme, f.Valid lowGrammar.lr Lexeme.token ∧ f.roots Lexeme.token = α ∧ f.leaves = lexemes ∧
      (List.Forall₂ (fun printed lexeme => printed.Spells source lexeme) w lexemes →
        ∃ tokens, reduce source ruleIds f = .ok tokens ∧ List.Forall₂ (fun result token => result token) results tokens)

variable {source ruleIds} {α β : List (Symbol Token Rule)} {v w : List Printed}
  {results others : List (StackToken Value → Prop)}

theorem Reads.append (left : Reads source ruleIds α v results) (right : Reads source ruleIds β w others) :
    Reads source ruleIds (α ++ β) (v ++ w) (results ++ others) := by
  intro lexemes same
  rw [List.map_append] at same
  obtain ⟨first, second, rfl, firsts, seconds⟩ := List.map_eq_append_iff.mp same
  obtain ⟨f, valid, roots, leaves, values⟩ := left first firsts
  obtain ⟨h, valid', roots', leaves', values'⟩ := right second seconds
  refine ⟨f ++ h, valid.append valid', by rw [Forest.roots_append, roots, roots'], by
    rw [Forest.leaves_append, leaves, leaves'], fun spells => ?_⟩
  have length : v.length = first.length := by simpa using (congrArg List.length firsts).symm
  obtain ⟨front, back⟩ := (forall₂_append_iff length).mp spells
  obtain ⟨tokens, reduced, hold⟩ := values front
  obtain ⟨tokens', reduced', hold'⟩ := values' back
  exact ⟨tokens ++ tokens', Forest.eval_append reduced reduced', List.rel_append hold hold'⟩

theorem Reads.cons {X : Symbol Token Rule} {result : StackToken Value → Prop}
    (left : Reads source ruleIds [X] v [result]) (right : Reads source ruleIds β w others) :
    Reads source ruleIds (X :: β) (v ++ w) (result :: others) := left.append right

theorem Reads.leaf {printed : Printed} {result : StackToken Value → Prop}
    (spelled : ∀ lexeme, lexeme.token = printed.token → printed.Spells source lexeme → result (leafToken lexeme)) :
    Reads source ruleIds [TKN printed.token] [printed] [result] := by
  intro lexemes same
  obtain ⟨lexeme, rest, rfl, token, nothing⟩ := List.map_eq_cons_iff.mp same
  obtain rfl := List.map_eq_nil_iff.mp nothing
  refine ⟨.leaf lexeme .nil, trivial, by rw [Forest.roots, token]; rfl, rfl, fun spells => ?_⟩
  obtain _ | ⟨spells, _⟩ := spells
  exact ⟨[leafToken lexeme], rfl, .cons (spelled lexeme token spells) .nil⟩

theorem reads_sign (t : Token) : Reads source ruleIds [TKN t] [.sign t] [IsSign t] :=
  Reads.leaf fun lexeme token _ => by
    obtain ⟨_, base, ptr, loc⟩ := lexeme
    obtain rfl := token
    exact .mk base ptr loc

theorem reads_name (name : Name) : Reads source ruleIds [TKN .IDENT] [.ident name] [IsName source name] :=
  Reads.leaf fun lexeme token spells => by
    obtain ⟨_, base, ptr, loc⟩ := lexeme
    obtain rfl := token
    exact .mk base ptr loc spells.2

theorem reads_string (literal : Name) :
    Reads source ruleIds [TKN .STRING_LITERAL] [.string literal] [IsString source literal] :=
  Reads.leaf fun lexeme token spells => by
    obtain ⟨_, base, ptr, loc⟩ := lexeme
    obtain rfl := token
    exact .mk base ptr loc spells.2

theorem reads_number (literal : Name) (radix : Nat) :
    Reads source ruleIds [TKN .NUMBER_LITERAL] [.number literal radix] [IsNumber source literal radix] :=
  Reads.leaf fun lexeme token spells => by
    obtain ⟨_, base, ptr, loc⟩ := lexeme
    obtain rfl := token
    exact .mk base ptr loc spells.2

theorem Reads.sign {t : Token} (right : Reads source ruleIds β w others) :
    Reads source ruleIds (TKN t :: β) (.sign t :: w) (IsSign t :: others) := (reads_sign t).cons right

/-- A variant puts a node over its symbols, and its reducer makes one token of theirs. -/
theorem Reads.node {p : Lr.Production Rule} {result : StackToken Value → Prop} (has : lowGrammar.lr.Has p)
    (below : Reads source ruleIds (lowGrammar.lr.elements p) w results)
    (step : ∀ tokens, List.Forall₂ (fun result token => result token) results tokens →
      ∃ token, reduceNode source ruleIds p tokens = .ok token ∧ result token) :
    Reads source ruleIds [SUB p.rule] w [result] := by
  intro lexemes same
  obtain ⟨f, valid, roots, leaves, values⟩ := below lexemes same
  refine ⟨.node p f .nil, ⟨has, roots, valid, trivial⟩, rfl, by simp [Forest.leaves, leaves], fun spells => ?_⟩
  obtain ⟨tokens, reduced, hold⟩ := values spells
  obtain ⟨token, computed, holds⟩ := step tokens hold
  exact ⟨[token], Forest.eval_node reduced computed, .cons holds .nil⟩

/-! ### Levels -/

/-- The rule at a place between `expr` and `primary_expr`. -/
def exprRule (level : Nat) : Rule := (exprLevels.map Prod.fst).getD level .primaryExpr

theorem exprRule_level : ∀ rule ∈ exprLevels.map Prod.fst, exprLevel rule ≤ 16 ∧ exprRule (exprLevel rule) = rule := by
  decide

theorem default_variant : ∀ level < 16, 0 < (lowGrammar.lr.variants (exprRule level)).length ∧
    ruleVariant ⟨exprRule level, 0⟩ = ⟨[SUB (exprRule (level + 1))], none, 0⟩ := by
  decide

theorem Reads.default (level : Nat) (bound : level < 16) {e : Expr}
    (next : Reads source ruleIds [SUB (exprRule (level + 1))] w [IsExpr e]) :
    Reads source ruleIds [SUB (exprRule level)] w [IsExpr e] := by
  obtain ⟨has, variant⟩ := default_variant level bound
  refine Reads.node (p := ⟨exprRule level, 0⟩) has (by rw [elements_ruleVariant, variant]; exact next) ?_
  rintro _ (_ | ⟨⟨_, first, last, loc, same⟩, _ | _⟩)
  exact ⟨_, by rw [reduceNode, variant]; rfl, .mk _ first last loc same⟩

/-- A phrase of a level is one of every level above it. -/
theorem Reads.lift {level lower : Nat} (le : level ≤ lower) (bound : lower ≤ 16) {e : Expr}
    (phrase : Reads source ruleIds [SUB (exprRule lower)] w [IsExpr e]) :
    Reads source ruleIds [SUB (exprRule level)] w [IsExpr e] := by
  induction lower, le using Nat.le_induction with
  | base => exact phrase
  | succ lower le ih => exact ih (by omega) (Reads.default lower (by omega) phrase)

theorem Reads.parens {e : Expr} (inside : Reads source ruleIds [SUB .expr] w [IsExpr e]) :
    Reads source ruleIds [SUB .primaryExpr] (parens w) [IsExpr e] := by
  refine Reads.node (p := ⟨.primaryExpr, 3⟩) (by decide) (.sign (inside.cons (reads_sign .RPAREN))) ?_
  rintro _ (_ | ⟨⟨_⟩, _ | ⟨⟨_, _, _, _, same⟩, _ | ⟨⟨_⟩, _ | _⟩⟩⟩)
  exact ⟨_, rfl, .mk _ _ _ _ same⟩

/-- An operand is read at the level asked for, with parentheses or without. -/
theorem Reads.printAt {e : Expr} (own : Reads source ruleIds [SUB e.kind.rule] (printKind e.kind) [IsExpr e])
    {rule : Rule} (known : rule ∈ exprLevels.map Prod.fst) (level : e.kind.rule ∈ exprLevels.map Prod.fst) :
    Reads source ruleIds [SUB rule] (printAt rule e) [IsExpr e] := by
  obtain ⟨loc, type, kind⟩ := e
  obtain ⟨bound, same⟩ := exprRule_level rule known
  obtain ⟨bound', same'⟩ := exprRule_level kind.rule level
  rw [Low.printAt]
  split
  · rename_i le
    rw [← same]
    exact .lift le bound' (by rw [same']; exact own)
  · have whole : Reads source ruleIds [SUB (exprRule 0)] (printKind kind) [IsExpr (.mk loc type kind)] :=
      .lift (Nat.zero_le _) bound' (by rw [same']; exact own)
    rw [← same]
    exact .lift bound (Nat.le_refl 16) (Reads.parens whole)

theorem BinaryOp.rules_known (op : BinaryOp) :
    op.rules.1 ∈ exprLevels.map Prod.fst ∧ op.rules.2 ∈ exprLevels.map Prod.fst := by
  cases op <;> decide

theorem ExprKind.rule_known (kind : ExprKind Expr) : kind.rule ∈ exprLevels.map Prod.fst := by
  unfold ExprKind.rule
  split
  case h_10 => exact (BinaryOp.rules_known _).1
  all_goals decide

/-! ### Operators -/

/-- The index of the operator in its rule. -/
def BinaryOp.variant : BinaryOp → Nat
  | .DIV | .SUB | .RIGHT | .GT | .NE => 2
  | .MOD | .LE => 3
  | .GE => 4
  | _ => 1

theorem binary_elements (op : BinaryOp) : lowGrammar.lr.Has ⟨op.rules.1, op.variant⟩ ∧
    lowGrammar.lr.elements ⟨op.rules.1, op.variant⟩ = [SUB op.rules.1, TKN op.token, SUB op.rules.2] := by
  cases op <;> exact ⟨by decide, rfl⟩

theorem reads_binary {loc : Loc} {lhs rhs : Expr} (op : BinaryOp)
    (left : Reads source ruleIds [SUB op.rules.1] v [IsExpr lhs])
    (right : Reads source ruleIds [SUB op.rules.2] w [IsExpr rhs]) :
    Reads source ruleIds [SUB op.rules.1] (v ++ .sign op.token :: w)
      [IsExpr (.mk loc .zero (.binaryExpr lhs rhs op))] := by
  obtain ⟨has, elements⟩ := binary_elements op
  refine Reads.node (p := ⟨op.rules.1, op.variant⟩) has (by rw [elements]; exact left.cons right.sign) ?_
  rintro _ (_ | ⟨⟨_, _, _, _, same⟩, _ | ⟨⟨_⟩, _ | ⟨⟨_, _, _, _, same'⟩, _ | _⟩⟩⟩)
  cases op <;> exact ⟨_, rfl, .mk _ _ _ _ (by simp only [Expr.unlocated, unlocatedKind, same, same'])⟩

def UnaryOp.variant : UnaryOp → Nat
  | .ADDRESS => 0
  | .DEREF => 1
  | .POSITIVE => 2
  | .NEGATIVE => 3
  | .BITWISE_NOT => 4
  | .NOT => 5

theorem reads_unaryOp (op : UnaryOp) :
    Reads source ruleIds [SUB .unaryOp] [.sign op.token] [IsOp .unaryOp op] := by
  have sign : Reads source ruleIds (lowGrammar.lr.elements ⟨.unaryOp, op.variant⟩) [.sign op.token] [IsSign op.token] := by
    cases op <;> exact reads_sign _
  refine Reads.node (p := ⟨.unaryOp, op.variant⟩) (by cases op <;> decide) sign ?_
  rintro _ (_ | ⟨⟨_⟩, _ | _⟩)
  cases op <;> exact ⟨_, rfl, .mk _ _ _ _⟩

def AssignmentOp.variant : AssignmentOp → Nat
  | .ASSIGN => 0
  | .ADD_ASSIGN => 1
  | .AND_ASSIGN => 2
  | .DIV_ASSIGN => 3
  | .LEFT_ASSIGN => 4
  | .MOD_ASSIGN => 5
  | .MUL_ASSIGN => 6
  | .OR_ASSIGN => 7
  | .RIGHT_ASSIGN => 8
  | .SUB_ASSIGN => 9
  | .XOR_ASSIGN => 10

theorem reads_assignmentOp (op : AssignmentOp) :
    Reads source ruleIds [SUB .assignmentOp] [.sign op.token] [IsOp .assignmentOp op] := by
  have sign : Reads source ruleIds (lowGrammar.lr.elements ⟨.assignmentOp, op.variant⟩) [.sign op.token]
      [IsSign op.token] := by
    cases op <;> exact reads_sign _
  refine Reads.node (p := ⟨.assignmentOp, op.variant⟩) (by cases op <;> decide) sign ?_
  rintro _ (_ | ⟨⟨_⟩, _ | _⟩)
  cases op <;> exact ⟨_, rfl, .mk _ _ _ _⟩

/-- The arguments read so far, and what remains of them. -/
theorem reads_args {es : List Expr}
    (each : ∀ e ∈ es, Reads source ruleIds [SUB .assignmentExpr] (printAt .assignmentExpr e) [IsExpr e]) :
    ∀ {before : List Expr} {w : List Printed}, Reads source ruleIds [SUB .argumentExprList] w [IsArgs before] →
      Reads source ruleIds [SUB .argumentExprList] (w ++ printRest es) [IsArgs (before ++ es)] := by
  induction es with
  | nil =>
    intro before w read
    simpa [printRest] using read
  | cons e es ih =>
    intro before w read
    have next : Reads source ruleIds [SUB .argumentExprList] (w ++ .sign .COMMA :: printAt .assignmentExpr e)
        [IsArgs (before ++ [e])] := by
      refine Reads.node (p := ⟨.argumentExprList, 1⟩) (by decide) (read.cons (each e List.mem_cons_self).sign) ?_
      rintro _ (_ | ⟨⟨_, _, _, _, same⟩, _ | ⟨⟨_⟩, _ | ⟨⟨_, _, _, _, same'⟩, _ | _⟩⟩⟩)
      exact ⟨_, rfl, .mk _ _ _ _ (by simp only [List.map_append, List.map_cons, List.map_nil, same, same'])⟩
    have later := ih (fun e member => each e (List.mem_cons_of_mem _ member)) next
    simpa [printRest] using later

theorem reads_argument {e : Expr} (read : Reads source ruleIds [SUB .assignmentExpr] w [IsExpr e]) :
    Reads source ruleIds [SUB .argumentExprList] w [IsArgs [e]] := by
  refine Reads.node (p := ⟨.argumentExprList, 0⟩) (by decide) read ?_
  rintro _ (_ | ⟨⟨_, _, _, _, same⟩, _ | _⟩)
  exact ⟨_, rfl, .mk _ _ _ _ (by simp only [List.map_cons, List.map_nil, same])⟩

theorem isComma_unlocated {e e' : Expr} (same : e'.unlocated = e.unlocated) :
    e'.kind.isComma = e.kind.isComma := by
  obtain ⟨_, _, kind⟩ := e
  obtain ⟨_, _, kind'⟩ := e'
  simp only [Expr.unlocated, Expr.mk.injEq] at same
  cases kind <;> cases kind' <;> simp_all [unlocatedKind, ExprKind.isComma, Expr.kind]

theorem commaAdd_first {e next : Expr} (first : e.kind.isComma = false) :
    commaAdd e next = .mk e.loc .zero (.commaExpr [e, next]) := by
  obtain ⟨_, _, kind⟩ := e
  cases kind <;> first | rfl | cases first

theorem unlocated_commaAdd {e next e' next' : Expr} (same : e'.unlocated = e.unlocated)
    (same' : next'.unlocated = next.unlocated) :
    (commaAdd e' next').unlocated = (commaAdd e next).unlocated := by
  cases comma : e.kind.isComma with
  | false =>
    have comma' := (isComma_unlocated same).trans comma
    simp only [commaAdd_first comma, commaAdd_first comma', Expr.unlocated, unlocatedKind, unlocatedList, same, same']
  | true =>
    obtain ⟨_, _, kind⟩ := e
    obtain ⟨_, _, kind'⟩ := e'
    simp only [Expr.unlocated, Expr.mk.injEq, true_and] at same
    obtain ⟨rfl, same⟩ := same
    cases kind with
    | commaExpr items =>
      cases kind' with
      | commaExpr items' =>
        simp only [unlocatedKind, ExprKind.commaExpr.injEq, unlocatedList_eq] at same
        simp only [commaAdd, Expr.unlocated, unlocatedKind, unlocatedList_eq, List.map_append, List.map_cons,
          List.map_nil, same, same']
      | _ => simp [unlocatedKind] at same
    | _ => cases comma

/-- The elements of a comma expression read so far, and what remains of them. -/
theorem reads_elements {loc : Loc} {es : List Expr}
    (each : ∀ e ∈ es, Reads source ruleIds [SUB .assignmentExpr] (printAt .assignmentExpr e) [IsExpr e]) :
    ∀ {before : List Expr} {w : List Printed},
      Reads source ruleIds [SUB .expr] w [IsExpr (.mk loc .zero (.commaExpr before))] →
      Reads source ruleIds [SUB .expr] (w ++ printRest es) [IsExpr (.mk loc .zero (.commaExpr (before ++ es)))] := by
  induction es with
  | nil =>
    intro before w read
    simpa [printRest] using read
  | cons e es ih =>
    intro before w read
    have next : Reads source ruleIds [SUB .expr] (w ++ .sign .COMMA :: printAt .assignmentExpr e)
        [IsExpr (.mk loc .zero (.commaExpr (before ++ [e])))] := by
      refine Reads.node (p := ⟨.expr, 1⟩) (by decide) (read.cons (each e List.mem_cons_self).sign) ?_
      rintro _ (_ | ⟨⟨_, _, _, _, same⟩, _ | ⟨⟨_⟩, _ | ⟨⟨_, _, _, _, same'⟩, _ | _⟩⟩⟩)
      exact ⟨_, rfl, .mk _ _ _ _ (unlocated_commaAdd same same')⟩
    have later := ih (fun e member => each e (List.mem_cons_of_mem _ member)) next
    simpa [printRest] using later

theorem reads_postIncdec {loc : Loc} {target : Expr} (direction : IncdecDirection)
    (first : Reads source ruleIds [SUB .postfixExpr] w [IsExpr target]) :
    Reads source ruleIds [SUB .postfixExpr] (w ++ [.sign direction.token])
      [IsExpr (.mk loc .zero (.incdecExpr target .POST direction))] := by
  cases direction with
  | INC =>
    refine Reads.node (p := ⟨.postfixExpr, 9⟩) (by decide) (first.cons (reads_sign .INC_OP)) ?_
    rintro _ (_ | ⟨⟨_, _, _, _, same⟩, _ | ⟨⟨_⟩, _ | _⟩⟩)
    exact ⟨_, rfl, .mk _ _ _ _ (by simp only [Expr.unlocated, unlocatedKind, same]; rfl)⟩
  | DEC =>
    refine Reads.node (p := ⟨.postfixExpr, 10⟩) (by decide) (first.cons (reads_sign .DEC_OP)) ?_
    rintro _ (_ | ⟨⟨_, _, _, _, same⟩, _ | ⟨⟨_⟩, _ | _⟩⟩)
    exact ⟨_, rfl, .mk _ _ _ _ (by simp only [Expr.unlocated, unlocatedKind, same]; rfl)⟩

theorem reads_preIncdec {loc : Loc} {target : Expr} (direction : IncdecDirection)
    (first : Reads source ruleIds [SUB .unaryExpr] w [IsExpr target]) :
    Reads source ruleIds [SUB .unaryExpr] (.sign direction.token :: w)
      [IsExpr (.mk loc .zero (.incdecExpr target .PRE direction))] := by
  cases direction with
  | INC =>
    refine Reads.node (p := ⟨.unaryExpr, 1⟩) (by decide) first.sign ?_
    rintro _ (_ | ⟨⟨_⟩, _ | ⟨⟨_, _, _, _, same⟩, _ | _⟩⟩)
    exact ⟨_, rfl, .mk _ _ _ _ (by simp only [Expr.unlocated, unlocatedKind, same]; rfl)⟩
  | DEC =>
    refine Reads.node (p := ⟨.unaryExpr, 2⟩) (by decide) first.sign ?_
    rintro _ (_ | ⟨⟨_⟩, _ | ⟨⟨_, _, _, _, same⟩, _ | _⟩⟩)
    exact ⟨_, rfl, .mk _ _ _ _ (by simp only [Expr.unlocated, unlocatedKind, same]; rfl)⟩

/-- The bounds of a slice between the bracket before them and the bracket behind. -/
theorem reads_slice {loc : Loc} {target : Expr} {start stop : Option Expr} {kind : IndexSliceKind}
    (plain : (ExprKind.indexSliceExpr target start stop kind).Plain)
    (first : Reads source ruleIds [SUB .postfixExpr] w [IsExpr target])
    (bound : ∀ e ∈ start.toList ++ stop.toList, Reads source ruleIds [SUB .expr] (printAt .expr e) [IsExpr e]) :
    Reads source ruleIds [SUB .postfixExpr]
      (w ++ .sign .LBRACK :: (printBound start ++ .sign .COLON :: (printBound stop ++ [.sign .RBRACK])))
      [IsExpr (.mk loc .zero (.indexSliceExpr target start stop kind))] := by
  cases start with
  | none =>
    cases stop with
    | none =>
      obtain rfl : kind = .COPY := plain
      refine Reads.node (p := ⟨.postfixExpr, 5⟩) (by decide) (first.cons (reads_sign .RBRACK).sign.sign) ?_
      rintro _ (_ | ⟨⟨_, _, _, _, same⟩, _ | ⟨⟨_⟩, _ | ⟨⟨_⟩, _ | ⟨⟨_⟩, _ | _⟩⟩⟩⟩)
      exact ⟨_, rfl, .mk _ _ _ _ (by simp only [Expr.unlocated, unlocatedKind, unlocatedOption, same])⟩
    | some stop =>
      obtain rfl : kind = .PREFIX := plain
      have last := bound stop (by simp)
      refine Reads.node (p := ⟨.postfixExpr, 3⟩) (by decide) (first.cons (last.cons (reads_sign .RBRACK)).sign.sign) ?_
      rintro _ (_ | ⟨⟨_, _, _, _, same⟩, _ | ⟨⟨_⟩, _ | ⟨⟨_⟩, _ | ⟨⟨_, _, _, _, same'⟩, _ | ⟨⟨_⟩, _ | _⟩⟩⟩⟩⟩)
      exact ⟨_, rfl, .mk _ _ _ _ (by simp only [Expr.unlocated, unlocatedKind, unlocatedOption, same, same'])⟩
  | some start =>
    have begins := bound start (by simp)
    cases stop with
    | none =>
      obtain rfl : kind = .POSTFIX := plain
      refine Reads.node (p := ⟨.postfixExpr, 4⟩) (by decide)
        (first.cons (begins.cons (reads_sign .RBRACK).sign).sign) ?_
      rintro _ (_ | ⟨⟨_, _, _, _, same⟩, _ | ⟨⟨_⟩, _ | ⟨⟨_, _, _, _, same'⟩, _ | ⟨⟨_⟩, _ | ⟨⟨_⟩, _ | _⟩⟩⟩⟩⟩)
      exact ⟨_, rfl, .mk _ _ _ _ (by simp only [Expr.unlocated, unlocatedKind, unlocatedOption, same, same'])⟩
    | some stop =>
      obtain rfl : kind = .RANGE := plain
      have last := bound stop (by simp)
      refine Reads.node (p := ⟨.postfixExpr, 2⟩) (by decide)
        (first.cons (begins.cons (last.cons (reads_sign .RBRACK)).sign).sign) ?_
      rintro _ (_ | ⟨⟨_, _, _, _, same⟩, _ | ⟨⟨_⟩, _ | ⟨⟨_, _, _, _, same'⟩, _ | ⟨⟨_⟩, _ |
        ⟨⟨_, _, _, _, same''⟩, _ | ⟨⟨_⟩, _ | _⟩⟩⟩⟩⟩⟩)
      exact ⟨_, rfl, .mk _ _ _ _ (by simp only [Expr.unlocated, unlocatedKind, unlocatedOption, same, same', same''])⟩

theorem reads_call {loc : Loc} {target : Expr} {args : List Expr}
    (first : Reads source ruleIds [SUB .postfixExpr] w [IsExpr target])
    (each : ∀ e ∈ args, Reads source ruleIds [SUB .assignmentExpr] (printAt .assignmentExpr e) [IsExpr e]) :
    Reads source ruleIds [SUB .postfixExpr] (w ++ .sign .LPAREN :: (printList args ++ [.sign .RPAREN]))
      [IsExpr (.mk loc .zero (.callExpr target args))] := by
  cases args with
  | nil =>
    refine Reads.node (p := ⟨.postfixExpr, 6⟩) (by decide) (first.cons (reads_sign .RPAREN).sign) ?_
    rintro _ (_ | ⟨⟨_, _, _, _, same⟩, _ | ⟨⟨_⟩, _ | ⟨⟨_⟩, _ | _⟩⟩⟩)
    exact ⟨_, rfl, .mk _ _ _ _ (by simp only [Expr.unlocated, unlocatedKind, unlocatedList, same])⟩
  | cons arg args =>
    have list : Reads source ruleIds [SUB .argumentExprList] (printList (arg :: args)) [IsArgs (arg :: args)] :=
      reads_args (fun e member => each e (List.mem_cons_of_mem _ member)) (reads_argument (each arg List.mem_cons_self))
    refine Reads.node (p := ⟨.postfixExpr, 7⟩) (by decide) (first.cons (list.cons (reads_sign .RPAREN)).sign) ?_
    rintro _ (_ | ⟨⟨_, _, _, _, same⟩, _ | ⟨⟨_⟩, _ | ⟨⟨_, _, _, _, same'⟩, _ | ⟨⟨_⟩, _ | _⟩⟩⟩⟩)
    exact ⟨_, rfl, .mk _ _ _ _ (by simp only [Expr.unlocated, unlocatedKind, unlocatedList_eq, same, same'])⟩

theorem reads_comma {loc : Loc} {exprs : List Expr} (plain : (ExprKind.commaExpr exprs).Plain)
    (each : ∀ e ∈ exprs, Reads source ruleIds [SUB .assignmentExpr] (printAt .assignmentExpr e) [IsExpr e]) :
    Reads source ruleIds [SUB .expr] (printList exprs) [IsExpr (.mk loc .zero (.commaExpr exprs))] := by
  match exprs, plain with
  | e :: next :: es, plain =>
    have first : e.kind.isComma = false := plain.2 e rfl
    have begins : Reads source ruleIds [SUB .expr] (printAt .assignmentExpr e) [IsExpr e] :=
      Reads.default 0 (by decide) (each e List.mem_cons_self)
    have two : Reads source ruleIds [SUB .expr] (printAt .assignmentExpr e ++ .sign .COMMA :: printAt .assignmentExpr next)
        [IsExpr (.mk loc .zero (.commaExpr [e, next]))] := by
      refine Reads.node (p := ⟨.expr, 1⟩) (by decide) (begins.cons (each next (by simp)).sign) ?_
      rintro _ (_ | ⟨⟨_, _, _, _, same⟩, _ | ⟨⟨_⟩, _ | ⟨⟨_, _, _, _, same'⟩, _ | _⟩⟩⟩)
      refine ⟨_, rfl, .mk _ _ _ _ ((unlocated_commaAdd same same').trans ?_)⟩
      rw [commaAdd_first first]
      simp only [Expr.unlocated]
    have others (f : Expr) (member : f ∈ es) := each f (by simp [member])
    have all := reads_elements others two
    simpa [printList, printRest] using all

/-! ### Expressions -/

/-- A printed expression is read as itself. The induction is on the expression, one case for each kind. -/
theorem reads_kind {e : Expr} (printable : e.Printable) :
    Reads source ruleIds [SUB e.kind.rule] (printKind e.kind) [IsExpr e] := by
  induction printable with
  | @mk loc kind plain _ ih =>
    have operand (rule : Rule) (known : rule ∈ exprLevels.map Prod.fst) (e : Expr) (member : e ∈ kind.children) :
        Reads source ruleIds [SUB rule] (printAt rule e) [IsExpr e] :=
      (ih e member).printAt known (ExprKind.rule_known _)
    cases kind with
    | identExpr ident =>
      refine Reads.node (p := ⟨.primaryExpr, 0⟩) (by decide) (reads_name ident) ?_
      rintro _ (_ | ⟨⟨_, _, _, rfl⟩, _ | _⟩)
      exact ⟨_, rfl, .mk _ _ _ _ rfl⟩
    | stringLiteralExpr literal =>
      refine Reads.node (p := ⟨.primaryExpr, 1⟩) (by decide) (reads_string literal) ?_
      rintro _ (_ | ⟨⟨first, last, loc', decoded⟩, _ | _⟩)
      refine ⟨⟨ruleIds .primaryExpr, first, last, loc', newExpr loc' (.stringLiteralExpr literal)⟩, ?_, .mk _ _ _ _ rfl⟩
      show Except.map _ (stringLiteral _ _ _ >>= _) = _
      rw [decoded]
      rfl
    | numberLiteralExpr literal radix =>
      refine Reads.node (p := ⟨.primaryExpr, 2⟩) (by decide) (reads_number literal radix) ?_
      rintro _ (_ | ⟨⟨first, last, loc', stored⟩, _ | _⟩)
      refine ⟨⟨ruleIds .primaryExpr, first, last, loc', newExpr loc' (.numberLiteralExpr literal radix)⟩, ?_, .mk _ _ _ _ rfl⟩
      show Except.map _ (numberLiteral _ _ _ >>= _) = _
      rw [stored]
      rfl
    | indexAccessExpr target index =>
      have first := operand .postfixExpr (by decide) target (by simp [ExprKind.children])
      have second := operand .expr (by decide) index (by simp [ExprKind.children])
      refine Reads.node (p := ⟨.postfixExpr, 1⟩) (by decide) (first.cons (second.cons (reads_sign .RBRACK)).sign) ?_
      rintro _ (_ | ⟨⟨_, _, _, _, same⟩, _ | ⟨⟨_⟩, _ | ⟨⟨_, _, _, _, same'⟩, _ | ⟨⟨_⟩, _ | _⟩⟩⟩⟩)
      exact ⟨_, rfl, .mk _ _ _ _ (by simp only [Expr.unlocated, unlocatedKind, same, same'])⟩
    | indexSliceExpr target start stop kind =>
      exact reads_slice plain (operand .postfixExpr (by decide) target (by simp [ExprKind.children])) fun e member =>
        operand .expr (by decide) e (List.mem_cons_of_mem _ member)
    | callExpr target args =>
      exact reads_call (operand .postfixExpr (by decide) target (by simp [ExprKind.children])) fun e member =>
        operand .assignmentExpr (by decide) e (List.mem_cons_of_mem _ member)
    | memberAccessExpr target name =>
      have first := operand .postfixExpr (by decide) target (by simp [ExprKind.children])
      refine Reads.node (p := ⟨.postfixExpr, 8⟩) (by decide) (first.cons (reads_name name).sign) ?_
      rintro _ (_ | ⟨⟨_, _, _, _, same⟩, _ | ⟨⟨_⟩, _ | ⟨⟨_, _, _, rfl⟩, _ | _⟩⟩⟩)
      exact ⟨_, rfl, .mk _ _ _ _ (by simp only [Expr.unlocated, unlocatedKind, same])⟩
    | incdecExpr target order direction =>
      cases order with
      | PRE => exact reads_preIncdec direction (operand .unaryExpr (by decide) target (by simp [ExprKind.children]))
      | POST => exact reads_postIncdec direction (operand .postfixExpr (by decide) target (by simp [ExprKind.children]))
    | unaryExpr target op =>
      have first := operand .castExpr (by decide) target (by simp [ExprKind.children])
      refine Reads.node (p := ⟨.unaryExpr, 3⟩) (by decide) ((reads_unaryOp op).cons first) ?_
      rintro _ (_ | ⟨⟨_, _, _, _⟩, _ | ⟨⟨_, _, _, _, same⟩, _ | _⟩⟩)
      exact ⟨_, rfl, .mk _ _ _ _ (by simp only [Expr.unlocated, unlocatedKind, same])⟩
    | binaryExpr lhs rhs op =>
      exact reads_binary op (operand _ (BinaryOp.rules_known op).1 lhs (by simp [ExprKind.children]))
        (operand _ (BinaryOp.rules_known op).2 rhs (by simp [ExprKind.children]))
    | conditionalExpr condition trueExpr falseExpr =>
      have first := operand .orExpr (by decide) condition (by simp [ExprKind.children])
      have second := operand .expr (by decide) trueExpr (by simp [ExprKind.children])
      have third := operand .conditionalExpr (by decide) falseExpr (by simp [ExprKind.children])
      refine Reads.node (p := ⟨.conditionalExpr, 1⟩) (by decide) (first.cons (second.cons third.sign).sign) ?_
      rintro _ (_ | ⟨⟨_, _, _, _, same⟩, _ | ⟨⟨_⟩, _ | ⟨⟨_, _, _, _, same'⟩, _ | ⟨⟨_⟩, _ |
        ⟨⟨_, _, _, _, same''⟩, _ | _⟩⟩⟩⟩⟩)
      exact ⟨_, rfl, .mk _ _ _ _ (by simp only [Expr.unlocated, unlocatedKind, same, same', same''])⟩
    | assignmentExpr target expr op =>
      have first := operand .unaryExpr (by decide) target (by simp [ExprKind.children])
      have second := operand .assignmentExpr (by decide) expr (by simp [ExprKind.children])
      refine Reads.node (p := ⟨.assignmentExpr, 1⟩) (by decide) (first.cons ((reads_assignmentOp op).cons second)) ?_
      rintro _ (_ | ⟨⟨_, _, _, _, same⟩, _ | ⟨⟨_, _, _, _⟩, _ | ⟨⟨_, _, _, _, same'⟩, _ | _⟩⟩⟩)
      exact ⟨_, rfl, .mk _ _ _ _ (by simp only [Expr.unlocated, unlocatedKind, same, same'])⟩
    | commaExpr exprs => exact reads_comma plain (operand .assignmentExpr (by decide))
    | _ => exact plain.elim

end Reads

/-- A printed expression has one derivation, and the reducers make the expression of it. -/
theorem print_reparses (source : Memory) (ruleIds : Rule → Nat) {e : Expr} (printable : e.Printable)
    (lexemes : List Lexeme) (tokens : lexemes.map Lexeme.token = (printAt .expr e).map Printed.token) :
    ∃ d : Lr.Derivation lowGrammar.lr Lexeme.token [SUB .expr], d.forest.leaves = lexemes ∧
      (∀ d' : Lr.Derivation lowGrammar.lr Lexeme.token [SUB .expr], d'.forest.leaves = lexemes → d' = d) ∧
      (List.Forall₂ (fun printed lexeme => printed.Spells source lexeme) (printAt .expr e) lexemes →
        ∃ token e', reduce source ruleIds d.forest = .ok [token] ∧ token.value = .one .expr e' ∧
          e'.unlocated = e.unlocated) := by
  have read : Reads source ruleIds [SUB .expr] (printAt .expr e) [IsExpr e] :=
    (reads_kind printable).printAt (by decide) (ExprKind.rule_known _)
  obtain ⟨f, valid, roots, leaves, values⟩ := read lexemes tokens
  refine ⟨⟨f, valid, roots⟩, leaves, ?_, fun spells => ?_⟩
  · rintro ⟨h, valid', roots'⟩ leaves'
    have allowed : ∀ lexeme ∈ f.leaves, lexeme.token.plainExpr = true := by
      intro lexeme member
      rw [leaves] at member
      have known : lexeme.token ∈ lexemes.map Lexeme.token := List.mem_map_of_mem member
      rw [tokens] at known
      obtain ⟨printed, inside, same⟩ := List.mem_map.mp known
      exact same ▸ List.all_eq_true.mp (printAt_plain .expr e) printed inside
    obtain rfl := expr_derivation_unique (by decide) valid valid' roots roots' (leaves.trans leaves'.symm) allowed
    rfl
  · obtain ⟨_, reduced, _ | ⟨⟨id, first, last, loc, same⟩, _ | _⟩⟩ := values spells
    exact ⟨_, _, reduced, rfl, same⟩

def identExprAt (col : Nat) (c : Char) : Expr := .mk ⟨0, col⟩ .zero (.identExpr [c.toUInt8])

/-- The expression of the text `a-(b-c)`. -/
def nestedDifference : Expr :=
  .mk ⟨0, 1⟩ .zero (.binaryExpr (identExprAt 0 'a')
    (.mk ⟨0, 4⟩ .zero (.binaryExpr (identExprAt 3 'b') (identExprAt 5 'c') .SUB)) .SUB)

def nestedSource : Memory := ['a', '-', '(', 'b', '-', 'c', ')'].map Char.toUInt8

def nestedLexemes : List Lexeme :=
  ([.IDENT, .SUB_OP, .LPAREN, .IDENT, .SUB_OP, .IDENT, .RPAREN] : List Token).zipIdx.map fun (token, base) =>
    ⟨token, base, base + 1, ⟨0, base⟩⟩

theorem nested_difference_reparses :
    ∃ d : Lr.Derivation lowGrammar.lr Lexeme.token [SUB .expr], d.forest.leaves = nestedLexemes ∧
      (∀ d' : Lr.Derivation lowGrammar.lr Lexeme.token [SUB .expr], d'.forest.leaves = nestedLexemes → d' = d) ∧
      ∃ token e', reduce nestedSource (fun _ => 92) d.forest = .ok [token] ∧ token.value = .one .expr e' ∧
        e'.unlocated = nestedDifference.unlocated := by
  have leaf (col : Nat) (c : Char) : (identExprAt col c).Printable := .mk trivial nofun
  have inner : (Expr.mk ⟨0, 4⟩ .zero (.binaryExpr (identExprAt 3 'b') (identExprAt 5 'c') .SUB)).Printable :=
    .mk trivial (List.forall_mem_cons.mpr ⟨leaf 3 'b', List.forall_mem_singleton.mpr (leaf 5 'c')⟩)
  have printable : nestedDifference.Printable :=
    .mk trivial (List.forall_mem_cons.mpr ⟨leaf 0 'a', List.forall_mem_singleton.mpr inner⟩)
  have spells : List.Forall₂ (fun printed lexeme => Printed.Spells nestedSource lexeme printed)
      (printAt .expr nestedDifference) nestedLexemes :=
    .cons ⟨rfl, rfl⟩ (.cons rfl (.cons rfl (.cons ⟨rfl, rfl⟩ (.cons rfl (.cons ⟨rfl, rfl⟩ (.cons rfl .nil))))))
  obtain ⟨d, leaves, unique, values⟩ := print_reparses nestedSource (fun _ => 92) printable nestedLexemes rfl
  exact ⟨d, leaves, unique, values spells⟩

end Low
