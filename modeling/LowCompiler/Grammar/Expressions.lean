import LowCompiler.Grammar.LowRules
import LowCompiler.Lr.Readings

/-!
# The levels of an expression

The rules from `expr` down to `primary_expr`, each with the tokens of its own
operators. A phrase of one of them is continued by the tokens of its own level and
of the levels below it, and no input without a cast or a builtin has two derivations.
-/

namespace Low

open Lr (Forest Lookahead)

def assignmentTokens : List Token :=
  [.ASSIGN, .ADD_ASSIGN, .AND_ASSIGN, .DIV_ASSIGN, .LEFT_ASSIGN, .MOD_ASSIGN, .MUL_ASSIGN, .OR_ASSIGN,
    .RIGHT_ASSIGN, .SUB_ASSIGN, .XOR_ASSIGN]

def exprLevels : List (Rule × List Token) :=
  [(.expr, [.COMMA]), (.assignmentExpr, assignmentTokens), (.conditionalExpr, [.QUESTION]), (.orExpr, [.OR_OP]),
    (.andExpr, [.AND_OP]), (.bitwiseOrExpr, [.BITWISE_OR]), (.bitwiseXorExpr, [.BITWISE_XOR]),
    (.bitwiseAndExpr, [.BITWISE_AND]), (.equalityExpr, [.EQ_OP, .NE_OP]),
    (.relationalExpr, [.LT_OP, .GT_OP, .LE_OP, .GE_OP]), (.shiftExpr, [.LEFT_OP, .RIGHT_OP]),
    (.additiveExpr, [.ADD_OP, .SUB_OP]), (.multiplicativeExpr, [.MUL_OP, .DIV_OP, .MOD_OP]), (.castExpr, []),
    (.unaryExpr, []), (.postfixExpr, [.LBRACK, .LPAREN, .PERIOD, .INC_OP, .DEC_OP]), (.primaryExpr, [])]

/-- The rules that an expression can use; of a builtin function no token is allowed. -/
def exprRules : List Rule :=
  exprLevels.map Prod.fst ++ [.argumentExprList, .unaryOp, .assignmentOp, .builtinFunc]

/-- The tokens that do not begin a cast or a builtin. -/
def Token.plainExpr (t : Token) : Bool := t ∉ [.HASH, .SIZEOF, .NEW, .FREE, .MAKE, .LEN, .CAP, .DISPOSE]

def primaryFirst : List Token := [.IDENT, .STRING_LITERAL, .NUMBER_LITERAL, .LPAREN]

def unaryOpTokens : List Token := [.BITWISE_AND, .MUL_OP, .ADD_OP, .SUB_OP, .BITWISE_NOT, .NOT_OP]

def exprLook : Lookahead Token Rule where
  allowed := Token.plainExpr
  first
    | .primaryExpr | .postfixExpr => primaryFirst
    | .unaryOp => unaryOpTokens
    | .assignmentOp => assignmentTokens
    | .builtinFunc => []
    | _ => primaryFirst ++ .INC_OP :: .DEC_OP :: unaryOpTokens
  continues
    | .unaryOp | .assignmentOp => []
    | .argumentExprList => exprLevels.flatMap Prod.snd
    | rule => (exprLevels.dropWhile (·.1 ≠ rule)).flatMap Prod.snd

theorem expr_headed : ∀ rule ∈ exprRules, exprLook.headed lowGrammar.lr exprRules rule = true := by
  decide

theorem expr_predictive : ∀ rule ∈ exprRules, rule ≠ .assignmentExpr →
    exprLook.predictive lowGrammar.lr exprRules rule = true := by
  decide

/-- The levels between the target of an assignment and the rest of it. -/
def spineRules : List Rule := ((exprLevels.map Prod.fst).drop 2).take 12

/-- The operators that can stand behind the first operand of a conditional expression. -/
def operatorTokens : List Token := (((exprLevels.map Prod.snd).drop 2).take 12).flatten

theorem expr_cornered : ∀ rule ∈ spineRules,
    exprLook.cornered lowGrammar.lr exprRules spineRules .unaryExpr operatorTokens rule = true := by
  decide

section Readings
variable {A : Type} {token : A → Token}

variable (token) in
/-- `f` over `α` reads the input up to `r`. -/
abbrev ExprReading (outer : List Token) (α : List (Symbol Token Rule)) (f : Forest Rule A) (r : List A) :
    Prop :=
  Forest.Reading lowGrammar.lr token exprLook exprRules outer α f r

variable (token) in
abbrev ExprUnique (t : Forest Rule A) : Prop := Forest.Unique lowGrammar.lr token exprLook exprRules t

/-- A conditional expression that is no assignment begins with a unary expression, and no assignment
follows. -/
theorem conditional_corner {f : Forest Rule A} {r : List A}
    (reading : ExprReading token (exprLook.continues .assignmentExpr) [SUB .conditionalExpr] f r) :
    ∃ u s, ExprReading token (exprLook.continues .unaryExpr) [SUB .unaryExpr] u s ∧
      f.leaves ++ r = u.leaves ++ s ∧
      u.size ≤ f.size ∧ Lr.Stops token assignmentTokens s := by
  obtain ⟨q, below, rest, rfl, rule, nothing⟩ := Forest.roots_nonterminal reading.roots
  obtain rfl := Forest.roots_nil nothing
  have allowed : ∀ a ∈ below.leaves, exprLook.allowed (token a) = true := fun a inside =>
    reading.allowed a (by simp [Forest.leaves, inside])
  obtain ⟨u, s, valid, roots, input, head, size⟩ :=
    Forest.exists_corner expr_headed (by decide) expr_cornered reading.valid (rule ▸ by decide) allowed
  -- what follows is an operator, or follows the conditional expression
  have stops {ts : List Token} (other : ∀ t ∈ operatorTokens, t ∉ ts)
      (subset : ∀ t ∈ ts, t ∈ exprLook.continues .assignmentExpr) : Lr.Stops token ts (s ++ r) := by
    cases s with
    | nil => exact reading.stops.mono subset
    | cons b s => exact fun a first => other _ (head a first)
  have whole : (Forest.node q below .nil).leaves ++ r = u.leaves ++ (s ++ r) := by
    simp [Forest.leaves, input]
  refine ⟨u, s ++ r, ⟨by decide, by decide, valid, roots, whole ▸ reading.allowed, stops (by decide) (by decide)⟩, whole, ?_,
    stops (by decide) (by decide)⟩
  simp only [Forest.size]
  omega

/-- An assignment begins with a unary expression, and an assignment operator follows. -/
theorem assignment_corner {f : Forest Rule A} {r : List A} {outer : List Token}
    (reading : ExprReading token outer [SUB .unaryExpr, SUB .assignmentOp, SUB .assignmentExpr] f r) :
    ∃ u s, ExprReading token (exprLook.continues .unaryExpr) [SUB .unaryExpr] u s ∧
      f.leaves ++ r = u.leaves ++ s ∧
      u.size ≤ f.size ∧ ¬Lr.Stops token assignmentTokens s := by
  obtain ⟨q, below, rest, rfl, rule, _⟩ := Forest.roots_nonterminal reading.roots
  obtain ⟨a, more, leaves, first⟩ := reading.rest.first expr_headed
  refine ⟨.node q below .nil, rest.leaves ++ r, rule ▸ reading.node expr_headed, by simp [Forest.leaves], ?_, ?_⟩
  · simp only [Forest.size]
    omega
  · intro stops
    exact stops a (by rw [leaves]; rfl) first

theorem corners_differ {f h : Forest Rule A} {r s : List A} {outer : List Token}
    (smaller : (∀ t : Forest Rule A, t.size ≤ f.size → ExprUnique token t) ∨
      ∀ t : Forest Rule A, t.size ≤ h.size → ExprUnique token t)
    (conditional : ExprReading token (exprLook.continues .assignmentExpr) [SUB .conditionalExpr] f r)
    (assignment : ExprReading token outer [SUB .unaryExpr, SUB .assignmentOp, SUB .assignmentExpr] h s) :
    f.leaves ++ r ≠ h.leaves ++ s := by
  intro same
  obtain ⟨u, behind, left, input, size, stops⟩ := conditional_corner conditional
  obtain ⟨v, behind', right, input', size', goes⟩ := assignment_corner assignment
  have both : u.leaves ++ behind = v.leaves ++ behind' := input.symm.trans (same.trans input')
  have rest : behind = behind' := by
    rcases smaller with smaller | smaller
    · exact (smaller u size _ _ _ _ left right both).2
    · exact (smaller v size' _ _ _ _ right left both.symm).2.symm
  exact goes (rest ▸ stops)

theorem assignment_elements {p : Lr.Production Rule} (rule : p.rule = .assignmentExpr)
    (has : lowGrammar.lr.Has p) :
    p.variant = 0 ∧ lowGrammar.lr.elements p = [SUB .conditionalExpr] ∨
      p.variant = 1 ∧ lowGrammar.lr.elements p = [SUB .unaryExpr, SUB .assignmentOp, SUB .assignmentExpr] := by
  obtain ⟨_, variant⟩ := p
  obtain rfl := rule
  match variant, has with
  | 0, _ => exact .inl ⟨rfl, rfl⟩
  | 1, _ => exact .inr ⟨rfl, rfl⟩

/-- The two variants of an assignment expression begin alike, but only one has an operator behind
its corner. -/
theorem unique_assignment {p : Lr.Production Rule} {children : Forest Rule A} (rule : p.rule = .assignmentExpr)
    (smaller : ∀ t : Forest Rule A, t.size ≤ children.size → ExprUnique token t) :
    ExprUnique token (.node p children .nil) := by
  intro rule' h r s reading other input
  obtain rfl : .assignmentExpr = rule' := rule.symm.trans (Symbol.nonterminal.inj (List.cons.inj reading.roots).1)
  obtain ⟨q, below, rest, rfl, ruleq, nothing⟩ := Forest.roots_nonterminal other.roots
  obtain rfl := Forest.roots_nil nothing
  have inside {p : Lr.Production Rule} {f : Forest Rule A} {r : List A} {α : List (Symbol Token Rule)}
      (reading : ExprReading token (exprLook.continues .assignmentExpr) [SUB .assignmentExpr] (.node p f .nil) r)
      (elements : lowGrammar.lr.elements p = α) (bounded : exprLook.bounded (exprLook.continues .assignmentExpr) α = true)
      (known : ∀ X ∈ α, Lookahead.known exprRules X = true) :
      ExprReading token (exprLook.continues .assignmentExpr) α f r :=
    ⟨bounded, known, reading.valid.2.2.1, reading.valid.2.1.trans elements,
      by simpa [Forest.leaves] using reading.allowed, reading.stops⟩
  have same : children.leaves ++ r = below.leaves ++ s := by simpa [Forest.leaves] using input
  rcases assignment_elements rule reading.valid.1 with ⟨first, elements⟩ | ⟨first, elements⟩ <;>
    rcases assignment_elements ruleq other.valid.1 with ⟨first', elements'⟩ | ⟨first', elements'⟩ <;>
    have left := inside reading elements (by decide) (by decide) <;>
    have right := inside other elements' (by decide) (by decide)
  case inl.inr => exact absurd same (corners_differ (.inl smaller) left right)
  case inr.inl => exact absurd same.symm (corners_differ (.inr smaller) right left)
  all_goals
    obtain ⟨_, rfl, rfl⟩ := Forest.reads_once expr_headed smaller (Nat.le_refl _) (.inl rfl) left right same
    obtain ⟨_, _⟩ := p
    obtain ⟨_, _⟩ := q
    obtain rfl := rule
    obtain rfl := ruleq
    obtain rfl := first
    obtain rfl := first'
    exact ⟨rfl, rfl⟩

/-- Every tree of an expression rule is the only one that reads what it reads. The induction is on
its size. -/
theorem expr_unique (t : Forest Rule A) : ExprUnique token t := by
  induction size : t.size using Nat.strongRecOn generalizing t with
  | ind n ih =>
    intro rule h r s reading other same
    obtain ⟨p, children, rest, rfl, ruleSame, nothing⟩ := Forest.roots_nonterminal reading.roots
    obtain rfl := Forest.roots_nil nothing
    have smaller : ∀ t : Forest Rule A, t.size ≤ children.size → ExprUnique token t := fun t le =>
      ih t.size (by rw [← size]; simp only [Forest.size]; omega) t rfl
    have known : p.rule ∈ exprRules := by
      simpa [Lookahead.known, ruleSame] using reading.known _ List.mem_cons_self
    by_cases assignment : p.rule = .assignmentExpr
    · exact unique_assignment assignment smaller rule h r s reading other same
    · exact Forest.unique_of_predictive expr_headed (expr_predictive p.rule known assignment) rfl smaller rule h r s reading
        other same

/-- No input without a cast or a builtin has two derivations from an expression rule. -/
theorem expr_derivation_unique {rule : Rule} (known : rule ∈ exprRules) {f h : Forest Rule A}
    (valid : f.Valid lowGrammar.lr token) (other : h.Valid lowGrammar.lr token)
    (roots : f.roots token = [SUB rule]) (roots' : h.roots token = [SUB rule]) (same : f.leaves = h.leaves)
    (allowed : ∀ a ∈ f.leaves, (token a).plainExpr = true) : f = h := by
  have reading {t : Forest Rule A} (valid : t.Valid lowGrammar.lr token) (roots : t.roots token = [SUB rule])
      (same : t.leaves = f.leaves) : ExprReading token (exprLook.continues rule) [SUB rule] t [] :=
    ⟨by simp [Lookahead.bounded, Lookahead.behind], fun X member => by
      simpa [Lookahead.known, List.mem_singleton.mp member] using known, valid, roots,
      by simpa [same, exprLook] using allowed, nofun⟩
  exact (expr_unique f rule h [] [] (reading valid roots rfl) (reading other roots' same.symm) (by rw [same])).1

end Readings

end Low
