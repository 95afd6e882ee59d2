import LowCompiler.Writer.Exprs

/-!
# Writing declarations

A variable without a type has no words for it, and an implementation has one mapping,
for the reducers add none to a list of them.
-/

namespace Low

def writeInitial : Option Expr → List Word
  | none => []
  | some e => sign .ASSIGN :: writeAt .assignmentExpr e

def writeMapping (m : ImplementationMapping) : List Word := [name m.intf, sign .ASSIGN, name m.func, sign .SEMICOLON]

/-- A variable without a type has no words for it. -/
def writeDecl (decl : Decl) : List Word :=
  match decl.kind with
  | .variableDecl type n initial =>
    sign .VAR :: (writeType type ++ name n :: (writeInitial initial ++ [sign .SEMICOLON]))
  | .constDecl n none value =>
    sign .CONST :: name n :: sign .ASSIGN :: (writeAt .assignmentExpr value ++ [sign .SEMICOLON])
  | .constDecl n (some type) value =>
    sign .CONST :: name n :: (writeType type ++ sign .ASSIGN :: (writeAt .assignmentExpr value ++ [sign .SEMICOLON]))
  | .implementationDecl interface target mappings =>
    sign .INTERFACE :: (writeType interface ++ sign .LPAREN :: (writeType target ++ sign .RPAREN ::
      sign .LBRACE :: (joined [] (mappings.map writeMapping) ++ [sign .RBRACE])))

/-- A variable has a type or an initial value. The reducers add no mapping to a list of mappings, so
that an implementation has one. -/
def Decl.Writable (decl : Decl) : Prop :=
  match decl.kind with
  | .variableDecl type n initial =>
    IsIdent n ∧ (type.Writable ∨ type = .zero ∧ initial ≠ none) ∧ ∀ e ∈ initial, e.Writable
  | .constDecl n type value => IsIdent n ∧ (∀ t ∈ type, t.Writable) ∧ value.Writable
  | .implementationDecl interface target mappings => interface.Writable ∧ target.Writable ∧
    ∃ m, mappings = [m] ∧ IsIdent m.intf ∧ IsIdent m.func

/-! ### Written declarations are read back -/

section Parses
variable {source : Memory} {ruleIds : Rule → Nat} {v w : List Word}

theorem parses_semicolon : Parses source ruleIds [TKN .SEMICOLON] [sign .SEMICOLON] [IsSign .SEMICOLON] :=
  parses_sign .SEMICOLON (by decide)

theorem parses_variable {loc : Loc} {type : AstType} {n : Name} {initial : Option Expr}
    (writable : Decl.Writable ⟨loc, .variableDecl type n initial⟩) :
    Parses source ruleIds [SUB .variableDecl] (writeDecl ⟨loc, .variableDecl type n initial⟩)
      [Holds .decl ⟨loc, .variableDecl type n initial⟩] := by
  obtain ⟨ident, typed, values⟩ := writable
  rw [writeDecl]
  rcases typed with typed | ⟨rfl, valued⟩
  · have front : Parses source ruleIds [SUB .type] (writeType type) [Holds .type type] := parses_type typed
    cases initial with
    | none =>
      refine Parses.node (p := ⟨.variableDecl, 0⟩) (by decide)
        (Parses.sign (by decide) (front.cons ((parses_name ident).cons parses_semicolon))) ?_
      intro tokens hold
      obtain _ | ⟨⟨_⟩, _ | ⟨@⟨_, _, _, _, type', same⟩, _ | ⟨⟨_, _, _, read⟩, _ | ⟨⟨_⟩, _ | _⟩⟩⟩⟩ := hold
      obtain rfl : type' = type := same
      exact ⟨_, rfl, .mk _ _ _ _ (by rw [read]; rfl)⟩
    | some e =>
      have last : Parses source ruleIds [SUB .assignmentExpr] (writeAt .assignmentExpr e) [Holds .expr e] :=
        parses_expr (values e rfl) .assignmentExpr (by decide)
      refine Parses.node (p := ⟨.variableDecl, 1⟩) (by decide)
        (Parses.sign (by decide) (front.cons ((parses_name ident).cons (Parses.sign (by decide) (last.cons parses_semicolon))))) ?_
      intro tokens hold
      obtain _ | ⟨⟨_⟩, _ | ⟨@⟨_, _, _, _, type', same⟩, _ | ⟨⟨_, _, _, read⟩, _ | ⟨⟨_⟩, _ |
        ⟨⟨_, _, _, _, same'⟩, _ | ⟨⟨_⟩, _ | _⟩⟩⟩⟩⟩⟩ := hold
      obtain rfl : type' = type := same
      simp only [Kind.erase] at same'
      refine ⟨_, rfl, .mk _ _ _ _ ?_⟩
      rw [read]
      simp only [Kind.erase, Decl.unlocated, DeclKind.unlocated, Option.map_some, same']
  · obtain ⟨e, rfl⟩ := Option.ne_none_iff_exists'.mp valued
    have last : Parses source ruleIds [SUB .assignmentExpr] (writeAt .assignmentExpr e) [Holds .expr e] :=
      parses_expr (values e rfl) .assignmentExpr (by decide)
    refine Parses.node (p := ⟨.variableDecl, 2⟩) (by decide)
      (Parses.sign (by decide) ((parses_name ident).cons (Parses.sign (by decide) (last.cons parses_semicolon)))) ?_
    intro tokens hold
    obtain _ | ⟨⟨_⟩, _ | ⟨⟨_, _, _, read⟩, _ | ⟨⟨_⟩, _ | ⟨⟨_, _, _, _, same'⟩, _ | ⟨⟨_⟩, _ | _⟩⟩⟩⟩⟩ := hold
    simp only [Kind.erase] at same'
    refine ⟨_, rfl, .mk _ _ _ _ ?_⟩
    rw [read]
    simp only [Kind.erase, Decl.unlocated, DeclKind.unlocated, Option.map_some, same']

theorem parses_const {loc : Loc} {n : Name} {type : Option AstType} {value : Expr}
    (writable : Decl.Writable ⟨loc, .constDecl n type value⟩) :
    Parses source ruleIds [SUB .constDecl] (writeDecl ⟨loc, .constDecl n type value⟩)
      [Holds .decl ⟨loc, .constDecl n type value⟩] := by
  obtain ⟨ident, typed, valued⟩ := writable
  have last : Parses source ruleIds [SUB .assignmentExpr] (writeAt .assignmentExpr value) [Holds .expr value] :=
    parses_expr valued .assignmentExpr (by decide)
  cases type with
  | none =>
    refine Parses.node (p := ⟨.constDecl, 0⟩) (by decide)
      (Parses.sign (by decide) ((parses_name ident).cons (Parses.sign (by decide) (last.cons parses_semicolon)))) ?_
    intro tokens hold
    obtain _ | ⟨⟨_⟩, _ | ⟨⟨_, _, _, read⟩, _ | ⟨⟨_⟩, _ | ⟨⟨_, _, _, _, same⟩, _ | ⟨⟨_⟩, _ | _⟩⟩⟩⟩⟩ := hold
    simp only [Kind.erase] at same
    refine ⟨_, rfl, .mk _ _ _ _ ?_⟩
    rw [read]
    simp only [Kind.erase, Decl.unlocated, DeclKind.unlocated, same]
  | some type =>
    have front : Parses source ruleIds [SUB .type] (writeType type) [Holds .type type] := parses_type (typed type rfl)
    refine Parses.node (p := ⟨.constDecl, 1⟩) (by decide)
      (Parses.sign (by decide) ((parses_name ident).cons (front.cons (Parses.sign (by decide) (last.cons parses_semicolon))))) ?_
    intro tokens hold
    obtain _ | ⟨⟨_⟩, _ | ⟨⟨_, _, _, read⟩, _ | ⟨@⟨_, _, _, _, type', same'⟩, _ | ⟨⟨_⟩, _ |
      ⟨⟨_, _, _, _, same⟩, _ | ⟨⟨_⟩, _ | _⟩⟩⟩⟩⟩⟩ := hold
    obtain rfl : type' = type := same'
    simp only [Kind.erase] at same
    refine ⟨_, rfl, .mk _ _ _ _ ?_⟩
    rw [read]
    simp only [Kind.erase, Decl.unlocated, DeclKind.unlocated, same]

theorem parses_mapping {m : ImplementationMapping} (intf : IsIdent m.intf) (func : IsIdent m.func) :
    Parses source ruleIds [SUB .implementationMapping] (writeMapping m) [Holds .mapping m] := by
  refine Parses.node (p := ⟨.implementationMapping, 0⟩) (by decide)
    ((parses_name intf).cons (Parses.sign (by decide) ((parses_name func).cons parses_semicolon))) ?_
  intro tokens hold
  obtain _ | ⟨⟨_, _, _, read⟩, _ | ⟨⟨_⟩, _ | ⟨⟨_, _, _, read'⟩, _ | ⟨⟨_⟩, _ | _⟩⟩⟩⟩ := hold
  refine ⟨_, rfl, .mk _ _ _ _ ?_⟩
  rw [read, read']

theorem parses_implementation {loc : Loc} {interface target : AstType} {mappings : List ImplementationMapping}
    (writable : Decl.Writable ⟨loc, .implementationDecl interface target mappings⟩) :
    Parses source ruleIds [SUB .implementationDecl] (writeDecl ⟨loc, .implementationDecl interface target mappings⟩)
      [Holds .decl ⟨loc, .implementationDecl interface target mappings⟩] := by
  obtain ⟨typed, typed', m, rfl, intf, func⟩ := writable
  have list : Parses source ruleIds [SUB .implementationMappingList] (writeMapping m ++ []) [HoldsAll .mapping [m]] := by
    rw [List.append_nil]
    refine Parses.node (p := ⟨.implementationMappingList, 0⟩) (by decide) (parses_mapping intf func) ?_
    intro tokens hold
    obtain _ | ⟨@⟨_, _, _, _, m', same⟩, _ | _⟩ := hold
    obtain rfl : m' = m := same
    exact ⟨_, rfl, .mk _ _ _ _ rfl⟩
  refine Parses.node (p := ⟨.implementationDecl, 0⟩) (by decide)
    (Parses.sign (by decide) ((parses_type typed).cons (Parses.sign (by decide) ((parses_type typed').cons (Parses.sign (by decide) (Parses.sign (by decide)
      (list.cons (parses_sign .RBRACE (by decide))))))))) ?_
  intro tokens hold
  obtain _ | ⟨⟨_⟩, _ | ⟨@⟨_, _, _, _, type, same⟩, _ | ⟨⟨_⟩, _ | ⟨@⟨_, _, _, _, type', same'⟩, _ | ⟨⟨_⟩, _ | ⟨⟨_⟩, _ |
    ⟨@⟨_, _, _, _, ms, items⟩, _ | ⟨⟨_⟩, _ | _⟩⟩⟩⟩⟩⟩⟩⟩ := hold
  obtain rfl : type = interface := same
  obtain rfl : type' = target := same'
  obtain rfl := map_erase (fun _ => rfl) items
  exact ⟨_, rfl, .mk _ _ _ _ rfl⟩

theorem parses_decl {decl : Decl} (writable : decl.Writable) :
    Parses source ruleIds [SUB .decl] (writeDecl decl) [Holds .decl decl] := by
  obtain ⟨loc, kind⟩ := decl
  cases kind with
  | variableDecl type n initial =>
    exact (parses_variable writable).pass (p := ⟨.decl, 0⟩) (by decide) rfl
  | constDecl n type value =>
    exact (parses_const writable).pass (p := ⟨.decl, 1⟩) (by decide) rfl
  | implementationDecl interface target mappings =>
    exact (parses_implementation writable).pass (p := ⟨.decl, 2⟩) (by decide) rfl

end Parses

end Low
