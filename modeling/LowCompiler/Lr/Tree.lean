import LowCompiler.Lr.Grammar

/-!
# Derivation trees

A forest is a sequence of trees. A leaf carries a lexeme, from which `token`
reads the terminal; a node carries a production and its children. A valid forest
is a derivation from the symbols at its roots, and `eval` computes a value for
every tree bottom-up, the children from left to right before their parent.
-/

namespace Lr

inductive Forest (N A : Type) where
  | nil
  | leaf (a : A) (rest : Forest N A)
  | node (p : Production N) (children rest : Forest N A)
  deriving DecidableEq, Repr

namespace Forest

variable {T N A : Type}

def roots (token : A → T) : Forest N A → List (Symbol T N)
  | nil => []
  | leaf a rest => .terminal (token a) :: rest.roots token
  | node p _ rest => .nonterminal p.rule :: rest.roots token

def leaves : Forest N A → List A
  | nil => []
  | leaf a rest => a :: rest.leaves
  | node _ children rest => children.leaves ++ rest.leaves

/-- The nodes with their children, in the order in which `eval` comes to them. -/
def nodes : Forest N A → List (Production N × Forest N A)
  | nil => []
  | leaf _ rest => rest.nodes
  | node p children rest => children.nodes ++ (p, children) :: rest.nodes

/-- The children of every node are the symbols of its production. -/
def Valid (g : Grammar T N) (token : A → T) : Forest N A → Prop
  | nil => True
  | leaf _ rest => rest.Valid g token
  | node p children rest =>
    g.Has p ∧ children.roots token = g.elements p ∧ children.Valid g token ∧ rest.Valid g token

instance decidableValid [DecidableEq T] [DecidableEq N] (g : Grammar T N) (token : A → T) :
    (f : Forest N A) → Decidable (f.Valid g token)
  | nil => .isTrue trivial
  | leaf _ rest => rest.decidableValid g token
  | node p children rest =>
    have := children.decidableValid g token
    have := rest.decidableValid g token
    inferInstanceAs (Decidable (p.variant < (g.variants p.rule).length ∧
      children.roots token = g.elements p ∧ children.Valid g token ∧ rest.Valid g token))

def append : Forest N A → Forest N A → Forest N A
  | nil, g => g
  | leaf a rest, g => leaf a (rest.append g)
  | node p children rest, g => node p children (rest.append g)

instance : Append (Forest N A) := ⟨append⟩

def lastTree : Forest N A → List (Forest N A)
  | nil => []
  | leaf a nil => [leaf a nil]
  | leaf _ rest => rest.lastTree
  | node p children nil => [node p children nil]
  | node _ _ rest => rest.lastTree

/-- The elements of a left-recursive list: the last child of each of its nodes, the innermost first. -/
def items [DecidableEq N] (rule : N) : Forest N A → List (Forest N A)
  | node p children rest =>
    if p.rule = rule then children.items rule ++ rest.lastTree else (node p children rest).lastTree
  | f => f.lastTree

section Basic
variable {g : Grammar T N} {token : A → T}

@[simp] theorem nil_append (f : Forest N A) : nil ++ f = f := rfl

@[simp] theorem leaf_append (a : A) (rest f : Forest N A) : leaf a rest ++ f = leaf a (rest ++ f) := rfl

@[simp] theorem node_append (p : Production N) (children rest f : Forest N A) :
    node p children rest ++ f = node p children (rest ++ f) := rfl

@[simp] theorem append_nil (f : Forest N A) : f ++ nil = f := by
  induction f with
  | nil => rfl
  | leaf a rest ih => rw [leaf_append, ih]
  | node p children rest _ ih => rw [node_append, ih]

@[simp] theorem roots_append (f h : Forest N A) : (f ++ h).roots token = f.roots token ++ h.roots token := by
  induction f with
  | nil => rfl
  | leaf a rest ih => rw [leaf_append, roots, ih, roots, List.cons_append]
  | node p children rest _ ih => rw [node_append, roots, ih, roots, List.cons_append]

@[simp] theorem leaves_append (f h : Forest N A) : (f ++ h).leaves = f.leaves ++ h.leaves := by
  induction f with
  | nil => rfl
  | leaf a rest ih => rw [leaf_append, leaves, ih, leaves, List.cons_append]
  | node p children rest _ ih => rw [node_append, leaves, ih, leaves, List.append_assoc]

theorem roots_nil {f : Forest N A} (h : f.roots token = ([] : List (Symbol T N))) : f = nil := by
  cases f with
  | nil => rfl
  | leaf => cases h
  | node => cases h

theorem roots_terminal {f : Forest N A} {t : T} {α : List (Symbol T N)} (h : f.roots token = .terminal t :: α) :
    ∃ a rest, f = leaf a rest ∧ token a = t ∧ rest.roots token = α := by
  cases f with
  | nil => cases h
  | leaf a rest =>
    obtain ⟨head, tail⟩ := List.cons.inj h
    exact ⟨a, rest, rfl, Symbol.terminal.inj head, tail⟩
  | node => cases h

theorem roots_nonterminal {f : Forest N A} {X : N} {α : List (Symbol T N)}
    (h : f.roots token = .nonterminal X :: α) :
    ∃ p children rest, f = node p children rest ∧ p.rule = X ∧ rest.roots token = α := by
  cases f with
  | nil => cases h
  | leaf => cases h
  | node p children rest =>
    obtain ⟨head, tail⟩ := List.cons.inj h
    exact ⟨p, children, rest, rfl, Symbol.nonterminal.inj head, tail⟩

theorem Valid.append {f h : Forest N A} (left : f.Valid g token) (right : h.Valid g token) :
    (f ++ h).Valid g token := by
  induction f with
  | nil => exact right
  | leaf a rest ih => exact ih left
  | node p children rest _ ih =>
    obtain ⟨has, roots, below, behind⟩ := left
    exact ⟨has, roots, below, ih behind⟩

theorem valid_of_mem_nodes {f : Forest N A} (valid : f.Valid g token) {n : Production N × Forest N A}
    (member : n ∈ f.nodes) : (node n.1 n.2 nil).Valid g token := by
  induction f with
  | nil => cases member
  | leaf a rest ih => exact ih valid member
  | node p children rest below behind =>
    obtain ⟨has, roots, validChildren, validRest⟩ := valid
    rcases List.mem_append.mp member with inner | later
    · exact below validChildren inner
    · rcases List.mem_cons.mp later with rfl | later
      · exact ⟨has, roots, validChildren, trivial⟩
      · exact behind validRest later

/-- The leaves of a valid forest are a word that its roots yield. -/
theorem Valid.yields {f : Forest N A} (valid : f.Valid g token) :
    g.Yields (f.roots token) (f.leaves.map token) := by
  induction f with
  | nil => exact .nil
  | leaf a rest ih => exact .terminal (ih valid)
  | node p children rest below behind =>
    obtain ⟨has, roots, valid, rest⟩ := valid
    have head := below valid
    rw [roots] at head
    rw [leaves, List.map_append]
    exact .nonterminal (Grammar.elements_mem has) head (behind rest)

end Basic

/-! ### Evaluation -/

section Eval
variable {E V : Type} (leafValue : A → V) (nodeValue : Production N → List V → Except E V)

def eval : Forest N A → Except E (List V)
  | nil => .ok []
  | leaf a rest => do
    let values ← rest.eval
    .ok (leafValue a :: values)
  | node p children rest => do
    let inputs ← children.eval
    let value ← nodeValue p inputs
    let values ← rest.eval
    .ok (value :: values)

variable {leafValue nodeValue} {g : Grammar T N} {token : A → T} {Fits : Symbol T N → V → Prop}
  {trouble : Production N × Forest N A → Option E} {f h : Forest N A}

theorem eval_leaf {a : A} {rest : Forest N A} : (leaf a rest).eval leafValue nodeValue =
    (rest.eval leafValue nodeValue).map (leafValue a :: ·) := by
  rw [eval]
  cases rest.eval leafValue nodeValue <;> rfl

theorem eval_leaf_ok {a : A} {rest : Forest N A} {values : List V}
    (run : (leaf a rest).eval leafValue nodeValue = .ok values) :
    ∃ others, rest.eval leafValue nodeValue = .ok others ∧ values = leafValue a :: others := by
  rw [eval_leaf] at run
  cases behind : rest.eval leafValue nodeValue with
  | error e => rw [behind] at run; cases run
  | ok others =>
    rw [behind] at run
    exact ⟨others, rfl, (Except.ok.inj run).symm⟩

section Node
variable {p : Production N} {children rest : Forest N A} {inputs : List V} {value : V} {e : E}

theorem eval_node_below (below : children.eval leafValue nodeValue = .error e) :
    (node p children rest).eval leafValue nodeValue = .error e := by
  rw [eval, below]
  rfl

theorem eval_node_here (below : children.eval leafValue nodeValue = .ok inputs)
    (here : nodeValue p inputs = .error e) : (node p children rest).eval leafValue nodeValue = .error e := by
  simp only [eval, below, bind, Except.bind, here]

theorem eval_node (below : children.eval leafValue nodeValue = .ok inputs)
    (here : nodeValue p inputs = .ok value) : (node p children rest).eval leafValue nodeValue =
      (rest.eval leafValue nodeValue).map (value :: ·) := by
  simp only [eval, below, bind, Except.bind, here]
  cases rest.eval leafValue nodeValue <;> rfl

theorem eval_node_ok {values : List V} (run : (node p children rest).eval leafValue nodeValue = .ok values) :
    ∃ inputs value others, children.eval leafValue nodeValue = .ok inputs ∧ nodeValue p inputs = .ok value ∧
      rest.eval leafValue nodeValue = .ok others ∧ values = value :: others := by
  cases below : children.eval leafValue nodeValue with
  | error e => cases (eval_node_below below).symm.trans run
  | ok inputs =>
    cases here : nodeValue p inputs with
    | error e => cases (eval_node_here below here).symm.trans run
    | ok value =>
      rw [eval_node below here] at run
      cases behind : rest.eval leafValue nodeValue with
      | error e => rw [behind] at run; cases run
      | ok others =>
        rw [behind] at run
        exact ⟨inputs, value, others, rfl, here, rfl, (Except.ok.inj run).symm⟩

end Node

theorem eval_append {left right : List V} (first : f.eval leafValue nodeValue = .ok left)
    (second : h.eval leafValue nodeValue = .ok right) :
    (f ++ h).eval leafValue nodeValue = .ok (left ++ right) := by
  induction f generalizing left with
  | nil =>
    obtain rfl := Except.ok.inj first
    exact second
  | leaf a rest ih =>
    obtain ⟨others, behind, rfl⟩ := eval_leaf_ok first
    rw [leaf_append, eval_leaf, ih behind]
    rfl
  | node p children rest _ ih =>
    obtain ⟨inputs, value, others, below, here, behind, rfl⟩ := eval_node_ok first
    rw [node_append, eval_node below here, ih behind]
    rfl

/-- What a node does when its children fit: it fails as `trouble` foretells, or its value fits. -/
def NodeSpec (leafValue : A → V) (nodeValue : Production N → List V → Except E V) (g : Grammar T N)
    (token : A → T) (Fits : Symbol T N → V → Prop) (trouble : Production N × Forest N A → Option E) : Prop :=
  ∀ p children inputs, g.Has p → children.roots token = g.elements p →
    children.eval leafValue nodeValue = .ok inputs → List.Forall₂ Fits (g.elements p) inputs →
    match trouble (p, children) with
    | some e => nodeValue p inputs = .error e
    | none => ∃ value, nodeValue p inputs = .ok value ∧ Fits (.nonterminal p.rule) value

/-- The evaluation of a valid forest fails at its first troubled node, and without one all values fit. -/
theorem eval_spec (atLeaf : ∀ a, Fits (.terminal (token a)) (leafValue a))
    (atNode : NodeSpec leafValue nodeValue g token Fits trouble) (valid : f.Valid g token) :
    match f.nodes.findSome? trouble with
    | some e => f.eval leafValue nodeValue = .error e
    | none => ∃ values, f.eval leafValue nodeValue = .ok values ∧ List.Forall₂ Fits (f.roots token) values := by
  induction f with
  | nil => exact ⟨[], rfl, .nil⟩
  | leaf a rest ih =>
    have behind := ih valid
    rw [nodes, eval_leaf]
    cases first : rest.nodes.findSome? trouble with
    | some e =>
      rw [first] at behind
      exact congrArg _ behind
    | none =>
      rw [first] at behind
      obtain ⟨values, run, fits⟩ := behind
      exact ⟨leafValue a :: values, by rw [run]; rfl, .cons (atLeaf a) fits⟩
  | node p children rest ihChildren ihRest =>
    obtain ⟨has, roots, validChildren, validRest⟩ := valid
    have below := ihChildren validChildren
    have behind := ihRest validRest
    rw [nodes, List.findSome?_append, List.findSome?_cons]
    cases inner : children.nodes.findSome? trouble with
    | some e =>
      rw [inner] at below
      exact eval_node_below below
    | none =>
      rw [inner] at below
      obtain ⟨inputs, run, fits⟩ := below
      rw [roots] at fits
      have here := atNode p children inputs has roots run fits
      cases own : trouble (p, children) with
      | some e =>
        rw [own] at here
        exact eval_node_here run here
      | none =>
        rw [own] at here
        obtain ⟨value, computed, fit⟩ := here
        show match rest.nodes.findSome? trouble with
          | some e => _
          | none => _
        rw [eval_node run computed]
        cases later : rest.nodes.findSome? trouble with
        | some e =>
          rw [later] at behind
          exact congrArg _ behind
        | none =>
          rw [later] at behind
          obtain ⟨values, runRest, fitsRest⟩ := behind
          exact ⟨value :: values, by rw [runRest]; rfl, .cons fit fitsRest⟩

end Eval

end Forest

/-- A derivation from `α`: a valid forest with `α` at its roots. -/
structure Derivation {T A N : Type} (g : Grammar T N) (token : A → T) (α : List (Symbol T N)) where
  forest : Forest N A
  valid : forest.Valid g token
  roots : forest.roots token = α

end Lr
