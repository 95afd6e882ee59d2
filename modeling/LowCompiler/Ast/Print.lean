import LowCompiler.Ast.Syntax
import LowCompiler.Grammar.Expressions

/-!
# Printing an expression

The tokens of an expression. An operand stands in parentheses where its own level
lies above the one that the grammar asks for. The grammar has no phrase for a comma
expression of fewer than two elements, and merges one that begins with another.
-/

namespace Low

/-- A token with what the reducers read of its text. -/
inductive Printed where
  | sign (t : Token)
  | ident (name : Name)
  | string (literal : Name)
  | number (literal : Name) (radix : Nat)

def Printed.token : Printed → Token
  | .sign t => t
  | .ident _ => .IDENT
  | .string _ => .STRING_LITERAL
  | .number _ _ => .NUMBER_LITERAL

/-! ### Operators -/

def BinaryOp.token : BinaryOp → Token
  | .MUL => .MUL_OP
  | .DIV => .DIV_OP
  | .MOD => .MOD_OP
  | .ADD => .ADD_OP
  | .SUB => .SUB_OP
  | .LEFT => .LEFT_OP
  | .RIGHT => .RIGHT_OP
  | .LT => .LT_OP
  | .GT => .GT_OP
  | .LE => .LE_OP
  | .GE => .GE_OP
  | .EQ => .EQ_OP
  | .NE => .NE_OP
  | .BITWISE_AND => .BITWISE_AND
  | .BITWISE_XOR => .BITWISE_XOR
  | .BITWISE_OR => .BITWISE_OR
  | .AND => .AND_OP
  | .OR => .OR_OP

/-- The ten levels: the rule of the operation and of its left operand, and the rule of its right operand. -/
def BinaryOp.rules : BinaryOp → Rule × Rule
  | .MUL | .DIV | .MOD => (.multiplicativeExpr, .castExpr)
  | .ADD | .SUB => (.additiveExpr, .multiplicativeExpr)
  | .LEFT | .RIGHT => (.shiftExpr, .additiveExpr)
  | .LT | .GT | .LE | .GE => (.relationalExpr, .shiftExpr)
  | .EQ | .NE => (.equalityExpr, .relationalExpr)
  | .BITWISE_AND => (.bitwiseAndExpr, .equalityExpr)
  | .BITWISE_XOR => (.bitwiseXorExpr, .bitwiseAndExpr)
  | .BITWISE_OR => (.bitwiseOrExpr, .bitwiseXorExpr)
  | .AND => (.andExpr, .bitwiseOrExpr)
  | .OR => (.orExpr, .andExpr)

def UnaryOp.token : UnaryOp → Token
  | .ADDRESS => .BITWISE_AND
  | .DEREF => .MUL_OP
  | .POSITIVE => .ADD_OP
  | .NEGATIVE => .SUB_OP
  | .BITWISE_NOT => .BITWISE_NOT
  | .NOT => .NOT_OP

def AssignmentOp.token : AssignmentOp → Token
  | .ASSIGN => .ASSIGN
  | .ADD_ASSIGN => .ADD_ASSIGN
  | .AND_ASSIGN => .AND_ASSIGN
  | .DIV_ASSIGN => .DIV_ASSIGN
  | .LEFT_ASSIGN => .LEFT_ASSIGN
  | .MOD_ASSIGN => .MOD_ASSIGN
  | .MUL_ASSIGN => .MUL_ASSIGN
  | .OR_ASSIGN => .OR_ASSIGN
  | .RIGHT_ASSIGN => .RIGHT_ASSIGN
  | .SUB_ASSIGN => .SUB_ASSIGN
  | .XOR_ASSIGN => .XOR_ASSIGN

def IncdecDirection.token : IncdecDirection → Token
  | .INC => .INC_OP
  | .DEC => .DEC_OP

/-- The place of a rule between `expr` and `primary_expr`. -/
def exprLevel (rule : Rule) : Nat := exprLevels.findIdx (·.1 = rule)

/-- The rule that an expression is a phrase of, other than by default. -/
def ExprKind.rule {E : Type} : ExprKind E → Rule
  | .identExpr _ | .stringLiteralExpr _ | .numberLiteralExpr _ _ => .primaryExpr
  | .indexAccessExpr .. | .indexSliceExpr .. | .callExpr .. | .memberAccessExpr .. | .incdecExpr _ .POST _ =>
    .postfixExpr
  | .castExpr .. => .castExpr
  | .binaryExpr _ _ op => op.rules.1
  | .conditionalExpr .. => .conditionalExpr
  | .assignmentExpr .. => .assignmentExpr
  | .commaExpr _ => .expr
  | _ => .unaryExpr

def parens (w : List Printed) : List Printed := .sign .LPAREN :: w ++ [.sign .RPAREN]

mutual

/-- The expression where the grammar has the rule. Casts and builtins are left out. -/
def printAt (rule : Rule) : Expr → List Printed
  | .mk _ _ kind => if exprLevel rule ≤ exprLevel kind.rule then printKind kind else parens (printKind kind)
termination_by structural e => e

def printKind : ExprKind Expr → List Printed
  | .identExpr ident => [.ident ident]
  | .stringLiteralExpr literal => [.string literal]
  | .numberLiteralExpr literal radix => [.number literal radix]
  | .indexAccessExpr target index =>
    printAt .postfixExpr target ++ .sign .LBRACK :: (printAt .expr index ++ [.sign .RBRACK])
  | .indexSliceExpr target start stop _ =>
    printAt .postfixExpr target ++
      .sign .LBRACK :: (printBound start ++ .sign .COLON :: (printBound stop ++ [.sign .RBRACK]))
  | .callExpr target args => printAt .postfixExpr target ++ .sign .LPAREN :: (printList args ++ [.sign .RPAREN])
  | .memberAccessExpr target name => printAt .postfixExpr target ++ [.sign .PERIOD, .ident name]
  | .incdecExpr target .POST direction => printAt .postfixExpr target ++ [.sign direction.token]
  | .incdecExpr target .PRE direction => .sign direction.token :: printAt .unaryExpr target
  | .unaryExpr target op => .sign op.token :: printAt .castExpr target
  | .binaryExpr lhs rhs op => printAt op.rules.1 lhs ++ .sign op.token :: printAt op.rules.2 rhs
  | .conditionalExpr condition trueExpr falseExpr =>
    printAt .orExpr condition ++
      .sign .QUESTION :: (printAt .expr trueExpr ++ .sign .COLON :: printAt .conditionalExpr falseExpr)
  | .assignmentExpr target expr op =>
    printAt .unaryExpr target ++ .sign op.token :: printAt .assignmentExpr expr
  | .commaExpr exprs => printList exprs
  | _ => []
termination_by structural kind => kind

def printList : List Expr → List Printed
  | [] => []
  | e :: es => printAt .assignmentExpr e ++ printRest es
termination_by structural es => es

def printRest : List Expr → List Printed
  | [] => []
  | e :: es => .sign .COMMA :: printAt .assignmentExpr e ++ printRest es
termination_by structural es => es

def printBound : Option Expr → List Printed
  | none => []
  | some e => printAt .expr e
termination_by structural bound => bound

end

section Tokens

theorem parens_plain {w : List Printed} (plain : w.all (·.token.plainExpr) = true) :
    (parens w).all (·.token.plainExpr) = true := by
  simp only [parens, List.cons_append, List.all_cons, List.all_append, plain]
  rfl

mutual

/-- No token of a cast or a builtin is printed. -/
theorem printAt_plain (rule : Rule) : (e : Expr) → (printAt rule e).all (·.token.plainExpr) = true
  | .mk _ _ kind => by
    rw [printAt]
    split
    · exact printKind_plain kind
    · exact parens_plain (printKind_plain kind)
termination_by structural e => e

theorem printKind_plain : (kind : ExprKind Expr) → (printKind kind).all (·.token.plainExpr) = true
  | .identExpr ident => rfl
  | .stringLiteralExpr literal => rfl
  | .numberLiteralExpr literal radix => rfl
  | .indexAccessExpr target index => by
    simp only [printKind, List.all_append, List.all_cons, printAt_plain _ target, printAt_plain _ index]
    rfl
  | .indexSliceExpr target start stop _ => by
    simp only [printKind, List.all_append, List.all_cons, printAt_plain _ target, printBound_plain start,
      printBound_plain stop]
    rfl
  | .callExpr target args => by
    simp only [printKind, List.all_append, List.all_cons, printAt_plain _ target, printList_plain args]
    rfl
  | .memberAccessExpr target name => by
    simp only [printKind, List.all_append, printAt_plain _ target]
    rfl
  | .incdecExpr target order direction => by
    cases order <;> cases direction <;>
      simp only [printKind, List.all_append, List.all_cons, printAt_plain _ target] <;> rfl
  | .unaryExpr target op => by
    cases op <;> simp only [printKind, List.all_cons, printAt_plain _ target] <;> rfl
  | .binaryExpr lhs rhs op => by
    simp only [printKind, List.all_append, List.all_cons, printAt_plain _ lhs, printAt_plain _ rhs]
    cases op <;> rfl
  | .conditionalExpr condition trueExpr falseExpr => by
    simp only [printKind, List.all_append, List.all_cons, printAt_plain _ condition, printAt_plain _ trueExpr,
      printAt_plain _ falseExpr]
    rfl
  | .assignmentExpr target expr op => by
    simp only [printKind, List.all_append, List.all_cons, printAt_plain _ target, printAt_plain _ expr]
    cases op <;> rfl
  | .commaExpr exprs => by
    rw [printKind]
    exact printList_plain exprs
  | .exprSizeof _ | .typeSizeof _ | .castExpr .. | .newBuiltin .. | .freeBuiltin _ | .makeBuiltin ..
  | .lencapBuiltin .. | .disposeBuiltin _ => rfl
termination_by structural kind => kind

theorem printList_plain : (es : List Expr) → (printList es).all (·.token.plainExpr) = true
  | [] => rfl
  | e :: es => by
    simp only [printList, List.all_append, printAt_plain _ e, printRest_plain es]
    rfl
termination_by structural es => es

theorem printRest_plain : (es : List Expr) → (printRest es).all (·.token.plainExpr) = true
  | [] => rfl
  | e :: es => by
    simp only [printRest, List.cons_append, List.all_cons, List.all_append, printAt_plain _ e, printRest_plain es]
    rfl
termination_by structural es => es

theorem printBound_plain : (bound : Option Expr) → (printBound bound).all (·.token.plainExpr) = true
  | none => rfl
  | some e => by
    rw [printBound]
    exact printAt_plain _ e
termination_by structural bound => bound

end

end Tokens

/-! ### What is printed -/

namespace ExprKind

def children {E : Type} : ExprKind E → List E
  | .identExpr _ | .stringLiteralExpr _ | .numberLiteralExpr _ _ | .typeSizeof _ | .newBuiltin _ none => []
  | .indexAccessExpr target index => [target, index]
  | .indexSliceExpr target start stop _ => target :: (start.toList ++ stop.toList)
  | .callExpr target args => target :: args
  | .memberAccessExpr target _ | .incdecExpr target _ _ | .unaryExpr target _ | .castExpr target _ => [target]
  | .exprSizeof expr | .newBuiltin _ (some expr) | .freeBuiltin expr | .makeBuiltin _ expr | .lencapBuiltin expr _
  | .disposeBuiltin expr => [expr]
  | .binaryExpr lhs rhs _ => [lhs, rhs]
  | .conditionalExpr condition trueExpr falseExpr => [condition, trueExpr, falseExpr]
  | .assignmentExpr target expr _ => [target, expr]
  | .commaExpr exprs => exprs

def isComma {E : Type} : ExprKind E → Bool
  | .commaExpr _ => true
  | _ => false

/-- No cast and no builtin, a slice with the bounds of its kind, and a comma expression of two
elements or more of which the first is none. -/
def Plain : ExprKind Expr → Prop
  | .indexSliceExpr _ start stop kind => kind = match start, stop with
    | some _, some _ => .RANGE
    | none, some _ => .PREFIX
    | some _, none => .POSTFIX
    | none, none => .COPY
  | .commaExpr exprs => 2 ≤ exprs.length ∧ ∀ e ∈ exprs.head?, e.kind.isComma = false
  | .exprSizeof _ | .typeSizeof _ | .castExpr .. | .newBuiltin .. | .freeBuiltin _ | .makeBuiltin .. | .lencapBuiltin ..
  | .disposeBuiltin _ => False
  | _ => True

end ExprKind

/-- An expression as the parser can build it, of the nodes that are printed. It has no type yet. -/
inductive Expr.Printable : Expr → Prop where
  | mk {loc : Loc} {kind : ExprKind Expr} : kind.Plain → (∀ e ∈ kind.children, Printable e) →
      Printable (.mk loc .zero kind)

/-! ### Without locations -/

mutual

def Expr.unlocated : Expr → Expr
  | .mk _ type kind => .mk ⟨0, 0⟩ type (unlocatedKind kind)
termination_by structural e => e

def unlocatedKind : ExprKind Expr → ExprKind Expr
  | .identExpr ident => .identExpr ident
  | .stringLiteralExpr literal => .stringLiteralExpr literal
  | .numberLiteralExpr literal radix => .numberLiteralExpr literal radix
  | .indexAccessExpr target index => .indexAccessExpr target.unlocated index.unlocated
  | .indexSliceExpr target start stop kind =>
    .indexSliceExpr target.unlocated (unlocatedOption start) (unlocatedOption stop) kind
  | .callExpr target args => .callExpr target.unlocated (unlocatedList args)
  | .memberAccessExpr target name => .memberAccessExpr target.unlocated name
  | .incdecExpr target order direction => .incdecExpr target.unlocated order direction
  | .unaryExpr target op => .unaryExpr target.unlocated op
  | .exprSizeof expr => .exprSizeof expr.unlocated
  | .typeSizeof type => .typeSizeof type
  | .castExpr target type => .castExpr target.unlocated type
  | .binaryExpr lhs rhs op => .binaryExpr lhs.unlocated rhs.unlocated op
  | .conditionalExpr condition trueExpr falseExpr =>
    .conditionalExpr condition.unlocated trueExpr.unlocated falseExpr.unlocated
  | .assignmentExpr target expr op => .assignmentExpr target.unlocated expr.unlocated op
  | .commaExpr exprs => .commaExpr (unlocatedList exprs)
  | .newBuiltin type expr => .newBuiltin type (unlocatedOption expr)
  | .freeBuiltin expr => .freeBuiltin expr.unlocated
  | .makeBuiltin type expr => .makeBuiltin type expr.unlocated
  | .lencapBuiltin expr kind => .lencapBuiltin expr.unlocated kind
  | .disposeBuiltin expr => .disposeBuiltin expr.unlocated
termination_by structural kind => kind

def unlocatedList : List Expr → List Expr
  | [] => []
  | e :: es => e.unlocated :: unlocatedList es
termination_by structural es => es

def unlocatedOption : Option Expr → Option Expr
  | none => none
  | some e => some e.unlocated
termination_by structural e => e

end

theorem unlocatedList_eq (es : List Expr) : unlocatedList es = es.map Expr.unlocated := by
  induction es with
  | nil => rfl
  | cons e es ih => rw [unlocatedList, ih, List.map_cons]

end Low
