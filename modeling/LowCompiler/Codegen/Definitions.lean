import LowCompiler.Codegen.Stmt
import LowCompiler.Reduce.Lossless
import LowCompiler.Stateful

/-!
# Functions with and without a body

A function has a body where the reducers leave one behind its header, and then it gets an
entry block. The braces of an empty body are reduced like any other variant without a
reducer: what is left has the null pointer of the first brace.
-/

namespace Low

open Lr (Forest)
open Stateful

inductive FuncCode (I V : Type) where
  | declaration
  /-- There is an entry block. The code is missing where an error stops it. -/
  | definition (code : Option (Builder I V))

def codegenFunc {I V : Type} (gen : ExprGen I V) (func : FuncUnit) : FuncCode I V :=
  match func.body with
  | none => .declaration
  | some body => .definition (codegenBody gen func body)

/-! ### What the source has behind a header -/

section Source
variable (children : Forest Rule Lexeme)

def WithBraces : Prop := children.roots Lexeme.token = [SUB .funcUnitDecl, SUB .compoundStmt]

def WithSemicolon : Prop := children.roots Lexeme.token = [SUB .funcUnitDecl, TKN .SEMICOLON]

/-- Nothing stands between the braces. -/
def EmptyBraces : Prop := ∃ p header q block, children = .node p header (.node q block .nil) ∧
  block.roots Lexeme.token = [TKN .LBRACE, TKN .RBRACE]

/-- The function is defined just where it has braces, and only declared just where it has a semicolon. -/
def DefinedAsWritten {I V : Type} (gen : ExprGen I V) (func : FuncUnit) : Prop :=
  ((∃ code, codegenFunc gen func = .definition code) ↔ WithBraces children) ∧
    (codegenFunc gen func = .declaration ↔ WithSemicolon children)

end Source

/-! ### What the reducers leave -/

section Reduce
variable {source : Memory} {ruleIds : Rule → Nat} {tokens : List (StackToken Value)} {tag : Int} {value : Value}

def IsFunc (body : Option Stmt) (value : Value) : Prop :=
  ∃ loc func, value = .one .unit ⟨loc, .funcUnit func⟩ ∧ func.body = body

theorem reduceFuncUnitDecl_ok (run : reduceFuncUnitDecl source tokens tag = .ok value) : IsFunc none value := by
  obtain ⟨_, _, run⟩ := ok_of_bind run
  obtain ⟨_, _, run⟩ := ok_of_bind run
  obtain ⟨_, _, run⟩ := ok_of_bind run
  obtain ⟨_, _, run⟩ := ok_of_bind run
  cases run
  exact ⟨_, _, rfl, rfl⟩

theorem reduceFuncUnitDecl2_ok (run : reduceFuncUnitDecl2 source tokens tag = .ok value) :
    IsFunc none value := by
  obtain ⟨_, _, run⟩ := ok_of_bind run
  obtain ⟨_, _, run⟩ := ok_of_bind run
  obtain ⟨_, _, run⟩ := ok_of_bind run
  obtain ⟨_, _, run⟩ := ok_of_bind run
  cases run
  exact ⟨_, _, rfl, rfl⟩

theorem reduceVariant_reducer (reducer : Reducer) {id : Nat} {v : RuleVariant} {token : StackToken Value}
    (reduces : v.reducer = some reducer) (run : reduceVariant source id v tokens = .ok token) :
    reducer.run source tokens v.tag = .ok token.value := by
  unfold reduceVariant at run
  split at run
  · simp only [reduces] at run
    cases ran : reducer.run source tokens v.tag with
    | error e =>
      rw [ran] at run
      cases run
    | ok value =>
      rw [ran] at run
      cases run
      rfl
  · cases run

/-- A header leaves a function without a body. -/
theorem header_isFunc {i : Nat} {token : StackToken Value} (has : lowGrammar.lr.Has ⟨.funcUnitDecl, i⟩)
    (run : reduceNode source ruleIds ⟨.funcUnitDecl, i⟩ tokens = .ok token) : IsFunc none token.value := by
  have reducers : ∀ v ∈ Rule.variants .funcUnitDecl, v.reducer = some .funcUnitDecl ∨ v.reducer = some .funcUnitDecl2 := by
    decide
  obtain reduces | reduces := reducers _ (ruleVariant_mem has)
  · exact reduceFuncUnitDecl_ok (reduceVariant_reducer _ reduces run)
  · exact reduceFuncUnitDecl2_ok (reduceVariant_reducer _ reduces run)

/-- Braces leave a null pointer where they are empty, and a statement elsewhere. -/
theorem braces_value {i : Nat} {block : Forest Rule Lexeme} {token : StackToken Value}
    (has : lowGrammar.lr.Has ⟨.compoundStmt, i⟩) (elements : block.roots Lexeme.token = lowGrammar.lr.elements ⟨.compoundStmt, i⟩)
    (below : reduce source ruleIds block = .ok tokens)
    (run : reduceNode source ruleIds ⟨.compoundStmt, i⟩ tokens = .ok token) :
    if block.roots Lexeme.token = [TKN .LBRACE, TKN .RBRACE] then token.value = .null
    else ∃ stmt, token.value = .one .stmt stmt := by
  match i with
  | 0 =>
    rw [if_pos (by exact elements)]
    obtain ⟨open', rest, rfl, _, more⟩ := Forest.roots_terminal elements
    obtain ⟨close, rest, rfl, _, more⟩ := Forest.roots_terminal more
    obtain rfl := Forest.roots_nil more
    cases below
    cases run
    rfl
  | 1 =>
    rw [elements, if_neg (by decide)]
    have built := reduceVariant_reducer .compoundStmt rfl run
    obtain ⟨_, _, built⟩ := ok_of_bind built
    obtain ⟨_, _, built⟩ := ok_of_bind built
    exact ⟨_, (Except.ok.inj built).symm⟩
  | n + 2 => exact absurd has (by simp [Lr.Grammar.Has, lowGrammar_elements, Rule.variants])

/-- The body is what the second token points to, if it is taken for one. -/
theorem reduceFuncUnit_ok {header second : StackToken Value} (isFunc : IsFunc none header.value)
    (run : reduceFuncUnit [header, second] tag = .ok value) :
    (tag ≠ 1 → IsFunc none value) ∧
      (tag = 1 → (second.value = .null → IsFunc none value) ∧ ∀ stmt, second.value = .one .stmt stmt → IsFunc (some stmt) value) := by
  obtain ⟨loc, func, is, body⟩ := isFunc
  have first : read [header, second] 0 .unit = .ok ⟨loc, .funcUnit func⟩ := by simp [read, operand, is]
  obtain ⟨_, same, run⟩ := ok_of_bind run
  cases first.symm.trans same
  dsimp only at run
  constructor
  · intro declared
    rw [if_neg declared] at run
    cases run
    exact ⟨loc, func, rfl, body⟩
  · rintro rfl
    obtain ⟨_, read, run⟩ := ok_of_bind run
    cases run
    refine ⟨fun null => ?_, fun stmt is => ?_⟩
    · simp [readNullable, operand, null, Value.isNull] at read
      exact ⟨loc, _, rfl, read.symm⟩
    · simp [readNullable, operand, is, Value.isNull] at read
      exact ⟨loc, _, rfl, read.symm⟩

theorem codegenFunc_declaration {I V : Type} (gen : ExprGen I V) (func : FuncUnit) :
    (codegenFunc gen func = .declaration ↔ func.body = none) ∧
      ((∃ code, codegenFunc gen func = .definition code) ↔ func.body ≠ none) := by
  unfold codegenFunc
  cases func.body <;> simp

section Unit
variable {p : Lr.Production Rule} {children : Forest Rule Lexeme} {token : StackToken Value}

/-- The body of the function that a tree is reduced to. -/
theorem func_body (valid : (Forest.node p children .nil).Valid lowGrammar.lr Lexeme.token) (rule : p.rule = .funcUnit)
    (run : reduce source ruleIds (.node p children .nil) = .ok [token]) :
    ∃ body, IsFunc body token.value ∧
      (WithSemicolon children ∧ ¬EmptyBraces children ∧ body = none ∨
        WithBraces children ∧ (EmptyBraces children ↔ body = none)) := by
  obtain ⟨rule', i⟩ := p
  obtain rfl : rule' = .funcUnit := rule
  obtain ⟨has, elements, validChildren, _⟩ := valid
  obtain ⟨inputs, value, others, below, here, _, same⟩ := Forest.eval_node_ok run
  obtain ⟨rfl, _⟩ := List.cons.inj same
  match i with
  | 0 =>
    obtain ⟨⟨headerRule, j⟩, header, rest, rfl, is, more⟩ := Forest.roots_nonterminal elements
    obtain ⟨semicolon, rest, rfl, isSemicolon, more⟩ := Forest.roots_terminal more
    obtain rfl := Forest.roots_nil more
    obtain rfl : headerRule = .funcUnitDecl := is
    obtain ⟨tokens, first, _, _, headerRun, second, rfl⟩ := Forest.eval_node_ok below
    cases second
    have built := reduceVariant_reducer .funcUnit rfl here
    refine ⟨none, (reduceFuncUnit_ok (header_isFunc validChildren.1 headerRun) built).1 (by decide), .inl ⟨elements, ?_, rfl⟩⟩
    rintro ⟨_, _, _, _, impossible, _⟩
    cases impossible
  | 1 =>
    obtain ⟨⟨headerRule, j⟩, header, rest, rfl, is, more⟩ := Forest.roots_nonterminal elements
    obtain ⟨⟨blockRule, k⟩, block, rest, rfl, is', more⟩ := Forest.roots_nonterminal more
    obtain rfl := Forest.roots_nil more
    obtain rfl : headerRule = .funcUnitDecl := is
    obtain rfl : blockRule = .compoundStmt := is'
    obtain ⟨_, first, others, _, headerRun, second, rfl⟩ := Forest.eval_node_ok below
    obtain ⟨_, braces, _, inside, blockRun, last, rfl⟩ := Forest.eval_node_ok second
    cases last
    have built := reduceVariant_reducer .funcUnit rfl here
    have body := (reduceFuncUnit_ok (header_isFunc validChildren.1 headerRun) built).2 rfl
    obtain ⟨hasBlock, blockElements, _⟩ := validChildren.2.2.2
    have left := braces_value hasBlock blockElements inside blockRun
    have empty : EmptyBraces (.node ⟨.funcUnitDecl, j⟩ header (.node ⟨.compoundStmt, k⟩ block .nil)) ↔
        block.roots Lexeme.token = [TKN .LBRACE, TKN .RBRACE] := by
      refine ⟨?_, fun roots => ⟨_, _, _, _, rfl, roots⟩⟩
      rintro ⟨_, _, _, _, same, roots⟩
      cases same
      exact roots
    split at left
    case isTrue roots => exact ⟨none, body.1 left, .inr ⟨elements, by simp [empty, roots]⟩⟩
    case isFalse roots =>
      obtain ⟨stmt, is⟩ := left
      exact ⟨some stmt, body.2 stmt is, .inr ⟨elements, by simp [empty, roots]⟩⟩
  | n + 2 => exact absurd has (by simp [Lr.Grammar.Has, lowGrammar_elements, Rule.variants])

/-- A function is defined as it is written, unless its braces are empty. -/
theorem func_defined_iff {I V : Type} (gen : ExprGen I V)
    (valid : (Forest.node p children .nil).Valid lowGrammar.lr Lexeme.token) (rule : p.rule = .funcUnit)
    (run : reduce source ruleIds (.node p children .nil) = .ok [token]) :
    ∃ loc func, token.value = .one .unit ⟨loc, .funcUnit func⟩ ∧
      (DefinedAsWritten children gen func ↔ ¬EmptyBraces children) := by
  obtain ⟨body, ⟨loc, func, is, rfl⟩, written⟩ := func_body valid rule run
  refine ⟨loc, func, is, ?_⟩
  obtain ⟨declared, defined⟩ := codegenFunc_declaration gen func
  rw [DefinedAsWritten, declared, defined]
  obtain ⟨semicolon, nonempty, none⟩ | ⟨braces, empty⟩ := written
  · have other : ¬WithBraces children := fun braces => by cases semicolon.symm.trans braces
    simp [semicolon, nonempty, none, other]
  · have other : ¬WithSemicolon children := fun semicolon => by cases semicolon.symm.trans braces
    simp [braces, empty, other]

end Unit

end Reduce

/-- The header `T f()`. -/
def funcHeader : Forest Rule Lexeme → Forest Rule Lexeme :=
  .node ⟨.funcUnitDecl, 0⟩ (nameType 0 (byteLeaf .IDENT 2 (byteLeaf .LPAREN 3 (byteLeaf .RPAREN 4 .nil))))

/-- The text `T f(){;}`. -/
def semicolonBody : Forest Rule Lexeme :=
  funcHeader (.node ⟨.compoundStmt, 1⟩ (byteLeaf .LBRACE 5 (.node ⟨.blockItemList, 0⟩ (.node ⟨.blockItem, 1⟩
    (.node ⟨.stmt, 0⟩ (.node ⟨.exprStmt, 0⟩ (byteLeaf .SEMICOLON 6 .nil) .nil) .nil) .nil) (byteLeaf .RBRACE 7 .nil))) .nil)

/-- The text `T f(){}`. -/
def emptyBody : Forest Rule Lexeme :=
  funcHeader (.node ⟨.compoundStmt, 0⟩ (byteLeaf .LBRACE 5 (byteLeaf .RBRACE 6 .nil)) .nil)

def headerSource : Memory := ['T', ' ', 'f', '(', ')', Char.ofNat 0x7b, ';', Char.ofNat 0x7d].map Char.toUInt8

theorem func_defined_semicolon : ∃ token loc func,
    reduce headerSource (fun _ => 92) (.node ⟨.funcUnit, 1⟩ semicolonBody .nil) = .ok [token] ∧
      token.value = .one .unit ⟨loc, .funcUnit func⟩ ∧ DefinedAsWritten semicolonBody (atomicGen fun _ => .boolean) func := by
  have run : reduce headerSource (fun _ => 92) (.node ⟨.funcUnit, 1⟩ semicolonBody .nil) = .ok [_] := rfl
  obtain ⟨loc, func, is, iff⟩ := func_defined_iff (atomicGen fun _ => .boolean) (by decide) rfl run
  refine ⟨_, loc, func, run, is, iff.mpr ?_⟩
  rintro ⟨_, _, _, _, same, roots⟩
  cases same
  cases roots

/-- With empty braces the function is a declaration, and nothing asks for its return statement. -/
theorem empty_body_declares : (Forest.node ⟨.funcUnit, 1⟩ emptyBody .nil).Valid lowGrammar.lr Lexeme.token ∧
    ∃ token loc func, reduce headerSource (fun _ => 92) (.node ⟨.funcUnit, 1⟩ emptyBody .nil) = .ok [token] ∧
      token.value = .one .unit ⟨loc, .funcUnit func⟩ ∧ WithBraces emptyBody ∧
        codegenFunc (atomicGen fun _ => .boolean) func = .declaration ∧
          ¬DefinedAsWritten emptyBody (atomicGen fun _ => .boolean) func := by
  refine ⟨by decide, _, _, _, rfl, rfl, rfl, rfl, fun written => ?_⟩
  obtain ⟨_, impossible⟩ := written.1.mpr rfl
  cases impossible

end Low
