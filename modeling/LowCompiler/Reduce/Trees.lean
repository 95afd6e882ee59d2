import LowCompiler.Lr.Tree
import LowCompiler.Reduce.Reducers

/-!
# Reducing a tree

What `parse` does to the values on its stack, as an evaluation of the derivation
tree: a reduced token is the first token of the variant with the rule for its id
and the end of the last token, and the reducer, if any, sets its value.
-/

namespace Low

open Lr (Forest)

def leafToken (lexeme : Lexeme) : StackToken Value :=
  ⟨lexeme.token.toNat, lexeme.base, lexeme.ptr, lexeme.loc, .null⟩

/-- The reduction of `tokens` by a variant of the rule with the given id. -/
def reduceVariant (source : Memory) (id : Nat) (v : RuleVariant) (tokens : List (StackToken Value)) :
    Except ReduceFault (StackToken Value) :=
  match tokens.head?, tokens.getLast? with
  | some target, some current =>
    let reduced := { target with id, last := current.last }
    match v.reducer with
    | none => .ok reduced
    | some reducer => (reducer.run source tokens v.tag).map fun value => { reduced with value }
  | _, _ => .error (.operand 0)

def reduceNode (source : Memory) (ruleIds : Rule → Nat) (p : Lr.Production Rule) :
    List (StackToken Value) → Except ReduceFault (StackToken Value) :=
  reduceVariant source (ruleIds p.rule) (ruleVariant p)

/-- The tokens that the reductions of a forest leave, or the first fault. -/
def reduce (source : Memory) (ruleIds : Rule → Nat) (f : Forest Rule Lexeme) :
    Except ReduceFault (List (StackToken Value)) :=
  f.eval leafToken (reduceNode source ruleIds)

/-! ### The values of the rules -/

inductive Shape where
  | one (kind : Kind)
  | nullable (kind : Kind)
  | array (kind : Kind)
  /-- A for statement, to which reducers still add. -/
  | forStmt
  /-- A function, to which a reducer still adds the body. -/
  | funcUnit

inductive Shape.Fits : Shape → Value → Prop where
  | one {kind : Kind} (val : kind.Val) : Fits (.one kind) (.one kind val)
  | null {kind : Kind} : Fits (.nullable kind) .null
  | nonnull {kind : Kind} (val : kind.Val) : Fits (.nullable kind) (.one kind val)
  | array {kind : Kind} (items : List kind.Val) : Fits (.array kind) (.array kind items)
  | forStmt (loc : Loc) (initial condition step : Option Expr) (stmt : Option Stmt) :
      Fits .forStmt (.one .stmt (.mk loc (.forStmt initial condition step stmt)))
  | funcUnit (loc : Loc) (func : FuncUnit) : Fits .funcUnit (.one .unit ⟨loc, .funcUnit func⟩)

/-- What the reducers of a rule store. An empty statement, an empty block and an empty unit are null. -/
def Rule.shape : Rule → Shape
  | .argumentExprList => .array .expr
  | .unaryOp => .one .unaryOp
  | .assignmentOp => .one .assignmentOp
  | .exprStmt | .compoundStmt | .stmt => .nullable .stmt
  | .blockItemList => .array .blockItem
  | .blockItem => .one .blockItem
  | .selectionStmt | .iterationStmt | .jumpStmt | .labeledStmt => .one .stmt
  | .iterationStmtForInit | .iterationStmtForCond | .iterationStmtForStep | .iterationStmtForWhile => .forStmt
  | .variableDecl | .constDecl | .implementationDecl | .decl => .one .decl
  | .implementationMappingList => .array .mapping
  | .implementationMapping => .one .mapping
  | .type | .interfaceMemberFuncParameter => .one .type
  | .structMemberList => .array .structMember
  | .structMember => .one .structMember
  | .funcTypeArgs | .interfaceMemberFuncParameterList => .array .type
  | .interfaceMemberList => .array .interfaceMember
  | .interfaceMember => .one .interfaceMember
  | .importUnit | .packageUnit | .declUnit | .funcUnit | .typeUnit => .one .unit
  | .funcUnitDecl => .funcUnit
  | .parameterList => .array .param
  | .parameter => .one .param
  | .unit => .nullable .unit
  | .unitList | .root => .array .unit
  | _ => .one .expr

/-- A token of the stack is what its symbol stands for. -/
inductive Fits : Symbol Token Rule → StackToken Value → Prop where
  | terminal {t : Token} (first last : Nat) (loc : Loc) : Fits (.terminal t) ⟨t.toNat, first, last, loc, .null⟩
  | nonterminal {rule : Rule} {shape : Shape} {value : Value} (id first last : Nat) (loc : Loc) :
      rule.shape = shape → shape.Fits value → Fits (.nonterminal rule) ⟨id, first, last, loc, value⟩

/-! ### Every variant but three -/

/-- The variant reduces any tokens of its symbols to a token of the rule. -/
def Reduces (source : Memory) (id : Nat) (rule : Rule) (v : RuleVariant) : Prop :=
  ∀ tokens, List.Forall₂ Fits v.elements tokens →
    ∃ token, reduceVariant source id v tokens = .ok token ∧ Fits (.nonterminal rule) token

/-- The variant is no literal, and does not add a mapping to a list of them. -/
def RuleVariant.Sound (v : RuleVariant) : Prop :=
  v.reducer ≠ some .primaryExprString ∧ v.reducer ≠ some .primaryExprNumber ∧
    (v.reducer = some .implementationMappingList → v.tag = 0)

/-- A property of all values of a shape. -/
def Shape.Every : Shape → (Value → Prop) → Prop
  | .one kind, P => ∀ val, P (.one kind val)
  | .nullable kind, P => P .null ∧ ∀ val, P (.one kind val)
  | .array kind, P => ∀ items, P (.array kind items)
  | .forStmt, P => ∀ loc initial condition step stmt, P (.one .stmt (.mk loc (.forStmt initial condition step stmt)))
  | .funcUnit, P => ∀ loc func, P (.one .unit ⟨loc, .funcUnit func⟩)

theorem Shape.Fits.every {shape : Shape} {value : Value} (fits : shape.Fits value) {P : Value → Prop}
    (every : shape.Every P) : P value := by
  cases fits with
  | one val => exact every val
  | null => exact every.1
  | nonnull val => exact every.2 val
  | array items => exact every items
  | forStmt loc initial condition step stmt => exact every loc initial condition step stmt
  | funcUnit loc func => exact every loc func

/-- A property of all tokens that the symbols stand for. -/
def EveryFit : List (Symbol Token Rule) → (List (StackToken Value) → Prop) → Prop
  | [], P => P []
  | .terminal t :: symbols, P => ∀ first last loc, EveryFit symbols fun tokens => P (⟨t.toNat, first, last, loc, .null⟩ :: tokens)
  | .nonterminal rule :: symbols, P => ∀ id first last loc,
      rule.shape.Every fun value => EveryFit symbols fun tokens => P (⟨id, first, last, loc, value⟩ :: tokens)

theorem EveryFit.holds {symbols : List (Symbol Token Rule)} {tokens : List (StackToken Value)}
    (fits : List.Forall₂ Fits symbols tokens) {P : List (StackToken Value) → Prop} (every : EveryFit symbols P) : P tokens := by
  induction fits generalizing P with
  | nil => exact every
  | cons first _ ih =>
    cases first with
    | terminal first last loc => exact ih (every first last loc)
    | nonterminal id first last loc shaped fits =>
      subst shaped
      exact ih (fits.every (every id first last loc))

/-- One case for each variant of the grammar: the reducer computes on the tokens. -/
theorem variant_reduces (source : Memory) (id : Nat) (rule : Rule) :
    ∀ v ∈ rule.variants, v.Sound → Reduces source id rule v := by
  have every (v : RuleVariant) (sound : v.Sound) (all : v.Sound → EveryFit v.elements fun tokens =>
      ∃ token, reduceVariant source id v tokens = .ok token ∧ Fits (.nonterminal rule) token) : Reduces source id rule v :=
    fun tokens fits => (all sound).holds fits
  cases rule
  all_goals
    simp only [Rule.variants, List.forall_mem_cons]
    and_intros
  all_goals first
    | exact fun v member => absurd member List.not_mem_nil
    | refine fun sound => every _ sound fun sound => ?_
  all_goals first
    | exact absurd rfl sound.1
    | exact absurd rfl sound.2.1
    | exact absurd (sound.2.2 rfl) (by decide)
    | skip
  all_goals
    repeat' first | intro _ | apply And.intro
    all_goals exact ⟨_, rfl, .nonterminal _ _ _ _ rfl (by constructor)⟩

theorem literal_variant {rule : Rule} {v : RuleVariant} (member : v ∈ rule.variants)
    (reducer : v.reducer = some .primaryExprString ∨ v.reducer = some .primaryExprNumber) :
    rule = .primaryExpr ∧ (v = ⟨[TKN .STRING_LITERAL], some .primaryExprString, 0⟩ ∨
      v = ⟨[TKN .NUMBER_LITERAL], some .primaryExprNumber, 0⟩) := by
  have only : ∀ v ∈ rule.variants, v.reducer = some .primaryExprString ∨ v.reducer = some .primaryExprNumber →
      rule = .primaryExpr ∧ (v = ⟨[TKN .STRING_LITERAL], some .primaryExprString, 0⟩ ∨
        v = ⟨[TKN .NUMBER_LITERAL], some .primaryExprNumber, 0⟩) := by
    cases rule <;> decide
  exact only v member reducer

theorem mapping_variant {rule : Rule} {v : RuleVariant} (member : v ∈ rule.variants)
    (reducer : v.reducer = some .implementationMappingList) (tag : v.tag ≠ 0) :
    rule = .implementationMappingList ∧
      v = ⟨[SUB .implementationMappingList, SUB .implementationMapping], some .implementationMappingList, 1⟩ := by
  have only : ∀ v ∈ rule.variants, v.reducer = some .implementationMappingList → v.tag ≠ 0 →
      rule = .implementationMappingList ∧ v =
        ⟨[SUB .implementationMappingList, SUB .implementationMapping], some .implementationMappingList, 1⟩ := by
    cases rule <;> decide
  exact only v member reducer tag

end Low
