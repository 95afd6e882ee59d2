import LowCompiler.Reduce.Trees

/-!
# Reductions read what is there, and lists keep their elements

The reducers of the list rules are one function with the index of the element as
its parameter. Only the list of implementation mappings has the wrong index: its
second variant has two symbols, and the element is read at index 2.
-/

namespace Low

open Lr (Forest)

/-- A left-recursive list rule: its element, what stands before it, and its reducer. -/
structure ListRule where
  rule : Rule
  item : Rule
  separators : List Token
  reducer : Reducer
  kind : Kind

def listRules : List ListRule :=
  [⟨.argumentExprList, .assignmentExpr, [.COMMA], .argumentExprList, .expr⟩,
    ⟨.blockItemList, .blockItem, [], .blockItemList, .blockItem⟩,
    ⟨.implementationMappingList, .implementationMapping, [], .implementationMappingList, .mapping⟩,
    ⟨.structMemberList, .structMember, [], .structMemberList, .structMember⟩,
    ⟨.funcTypeArgs, .type, [.COMMA], .funcTypeArgs, .type⟩,
    ⟨.interfaceMemberList, .interfaceMember, [], .interfaceMemberList, .interfaceMember⟩,
    ⟨.interfaceMemberFuncParameterList, .interfaceMemberFuncParameter, [.COMMA],
      .interfaceMemberFuncParameterList, .type⟩,
    ⟨.parameterList, .parameter, [.COMMA], .parameterList, .param⟩,
    ⟨.unitList, .unit, [], .unitList, .unit⟩]

namespace ListRule

def first (list : ListRule) : RuleVariant := ⟨[SUB list.item], some list.reducer, 0⟩

def next (list : ListRule) : RuleVariant :=
  ⟨SUB list.rule :: (list.separators.map TKN ++ [SUB list.item]), some list.reducer, 1⟩

/-- The elements among the values of the items: an empty unit is none. -/
def elements (list : ListRule) (values : List Value) : List Value :=
  if list.rule = .unitList then values.filter fun value => !value.isNull else values

variable {list : ListRule}

theorem variants_eq (member : list ∈ listRules) : list.rule.variants = [list.first, list.next] := by
  simp only [listRules, List.mem_cons, List.not_mem_nil, or_false] at member
  rcases member with rfl | rfl | rfl | rfl | rfl | rfl | rfl | rfl | rfl <;> rfl

theorem elements_cons {v : RuleVariant} (member : list ∈ listRules) (variant : v ∈ list.rule.variants) :
    ∃ X α, v.elements = SUB X :: α := by
  simp only [variants_eq member, List.mem_cons, List.not_mem_nil, or_false] at variant
  rcases variant with rfl | rfl
  · exact ⟨_, _, rfl⟩
  · exact ⟨_, _, rfl⟩

theorem item_ne (member : list ∈ listRules) : list.item ≠ list.rule := by
  simp only [listRules, List.mem_cons, List.not_mem_nil, or_false] at member
  rcases member with rfl | rfl | rfl | rfl | rfl | rfl | rfl | rfl | rfl <;> decide

theorem elements_append (values more : List Value) :
    list.elements (values ++ more) = list.elements values ++ list.elements more := by
  unfold elements
  split
  · exact List.filter_append ..
  · rfl

variable {source : Memory} {id : Nat} {token : StackToken Value} {tokens : List (StackToken Value)}

theorem first_value (member : list ∈ listRules) (fits : List.Forall₂ Fits list.first.elements tokens)
    (run : reduceVariant source id list.first tokens = .ok token) :
    ∃ item added, tokens = [item] ∧ token.value = .array list.kind added ∧
      added.map (.one list.kind) = list.elements [item.value] := by
  simp only [listRules, List.mem_cons, List.not_mem_nil, or_false] at member
  rcases member with rfl | rfl | rfl | rfl | rfl | rfl | rfl | rfl | rfl
  all_goals
    rcases fits with _ | ⟨item, ⟨⟩⟩
    rcases item with _ | ⟨_, _, _, _, rfl, ⟨⟩⟩
  all_goals
    obtain rfl := Except.ok.inj run
    exact ⟨_, _, rfl, rfl, rfl⟩

theorem next_value (member : list ∈ listRules) (fits : List.Forall₂ Fits list.next.elements tokens)
    (run : reduceVariant source id list.next tokens = .ok token) :
    ∃ head item items added, tokens.head? = some head ∧ tokens.getLast? = some item ∧
      head.value = .array list.kind items ∧ token.value = .array list.kind (items ++ added) ∧
      added.map (.one list.kind) = list.elements [item.value] := by
  simp only [listRules, List.mem_cons, List.not_mem_nil, or_false] at member
  rcases member with rfl | rfl | rfl | rfl | rfl | rfl | rfl | rfl | rfl
  all_goals rcases fits with _ | ⟨head, _ | ⟨second, _ | ⟨third, ⟨⟩⟩⟩⟩
  all_goals
    rcases head with _ | ⟨_, _, _, _, rfl, ⟨⟩⟩
    rcases second with _ | ⟨_, _, _, _, rfl, ⟨⟩⟩
  all_goals try rcases third with _ | ⟨_, _, _, _, rfl, ⟨⟩⟩
  all_goals first
    | obtain rfl := Except.ok.inj run
      exact ⟨_, _, _, _, rfl, rfl, rfl, rfl, rfl⟩
    | cases run

end ListRule

/-! ### Faults -/

def literalKind (source : Memory) (first last : Nat) : Reducer → Option (Except ReduceFault (ExprKind Expr))
  | .primaryExprString => some ((stringLiteral source first last).map ExprKind.stringLiteralExpr)
  | .primaryExprNumber => some ((numberLiteral source first last).map fun (literal, radix) => .numberLiteralExpr literal radix)
  | _ => none

def faultOf {α : Type} : Except ReduceFault α → Option ReduceFault
  | .ok _ => none
  | .error fault => some fault

/-- What goes wrong at a node, told from the tree: a second mapping is read at index 2, and the text of
a literal may not be one that its reducer can store. -/
def trouble (source : Memory) (node : Lr.Production Rule × Forest Rule Lexeme) : Option ReduceFault :=
  match (ruleVariant node.1).reducer, node.2 with
  | some .implementationMappingList, _ => if (ruleVariant node.1).tag = 0 then none else some (.operand 2)
  | some reducer, .leaf lexeme .nil => (literalKind source lexeme.base lexeme.ptr reducer).bind faultOf
  | _, _ => none

/-- What may happen over the text of a literal. -/
def ReduceFault.OfLiteral (fault : ReduceFault) : Prop :=
  fault = .source ∨ fault = .abort ∨ fault = .overflow ∨ fault = .buffer

theorem unescape_fault {n : Nat} {data : List UInt8} {fault : ReduceFault}
    (run : unescape n data = .error fault) : fault.OfLiteral := by
  have later {c : UInt8} {r : Except ReduceFault Name} (same : r.map (c :: ·) = .error fault)
      (ih : r = .error fault → fault.OfLiteral) : fault.OfLiteral := by
    cases r with
    | error e => exact ih same
    | ok name => cases same
  fun_induction unescape n data with
  | case1 => cases run
  | case2 => exact .inl (Except.error.inj run).symm
  | case3 => exact .inl (Except.error.inj run).symm
  | case4 _ _ ih | case5 _ _ _ ih | case6 _ _ _ _ ih | case7 _ _ _ _ _ ih => exact later run ih
  | case8 => exact .inr (.inl (Except.error.inj run).symm)
  | case9 _ _ _ _ ih => exact later run ih

theorem storeDigits_fault {n j : Nat} {str : List UInt8} {fault : ReduceFault}
    (run : storeDigits n str j = .error fault) : fault.OfLiteral := by
  fun_induction storeDigits n str j with
  | case1 => cases run
  | case2 => exact .inl (Except.error.inj run).symm
  | case3 _ _ _ ih => exact ih run
  | case4 n c str j _ _ ih =>
    cases rest : storeDigits n str (j + 1) with
    | error e =>
      rw [rest] at run
      exact ih (rest.trans run)
    | ok digits =>
      rw [rest] at run
      cases run
  | case5 => exact .inr (.inr (.inl (Except.error.inj run).symm))

theorem stringLiteral_fault {source : Memory} {first last : Nat} {fault : ReduceFault}
    (run : stringLiteral source first last = .error fault) : fault.OfLiteral := by
  unfold stringLiteral at run
  dsimp only at run
  cases decode : unescape (unsigned (last - first - 2)) (source.drop (first + 1)) with
  | error e =>
    rw [decode] at run
    exact Except.error.inj run ▸ unescape_fault decode
  | ok literal =>
    rw [decode] at run
    replace run : (if literal.length < _ then Except.ok literal else .error .buffer) = .error fault := run
    split at run
    · cases run
    · exact .inr (.inr (.inr (Except.error.inj run).symm))

theorem numberLiteral_fault {source : Memory} {first last : Nat} {fault : ReduceFault}
    (run : numberLiteral source first last = .error fault) : fault.OfLiteral := by
  have extract {ptr n : Nat} {fault : ReduceFault} (run : extractLiteral source ptr n = .error fault) :
      fault.OfLiteral := by
    unfold extractLiteral at run
    cases store : storeDigits n (source.drop ptr) 0 with
    | error e =>
      rw [store] at run
      exact Except.error.inj run ▸ storeDigits_fault store
    | ok text =>
      rw [store] at run
      cases run
  unfold numberLiteral at run
  rcases found : determineRadix source first last with ⟨radix, skipped⟩
  rw [found] at run
  replace run : (extractLiteral source (first + skipped) (unsigned (last - (first + skipped))) >>= fun literal =>
    Except.ok (literal, radix)) = .error fault := run
  cases literal : extractLiteral source (first + skipped) (unsigned (last - (first + skipped))) with
  | error e =>
    rw [literal] at run
    exact Except.error.inj run ▸ extract literal
  | ok digits =>
    rw [literal] at run
    cases run

/-- A literal that cannot be stored names no operand. -/
theorem literalKind_fault {source : Memory} {first last : Nat} {reducer : Reducer} {fault : ReduceFault}
    (found : (literalKind source first last reducer).bind faultOf = some fault) : fault.OfLiteral := by
  have mapped {α β : Type} {r : Except ReduceFault α} {f : α → β} (told : faultOf (r.map f) = some fault) :
      r = .error fault := by
    cases r with
    | error e => exact congrArg Except.error (Option.some.inj told)
    | ok a => cases told
  unfold literalKind at found
  split at found
  · exact stringLiteral_fault (mapped found)
  · exact numberLiteral_fault (mapped found)
  · cases found

theorem trouble_cases {source : Memory} {node : Lr.Production Rule × Forest Rule Lexeme} {fault : ReduceFault}
    (found : trouble source node = some fault) : fault = .operand 2 ∨ fault.OfLiteral := by
  unfold trouble at found
  split at found
  · split at found
    · cases found
    · exact .inl (Option.some.inj found).symm
  · exact .inr (literalKind_fault found)
  · cases found

theorem trouble_of_sound {source : Memory} {p : Lr.Production Rule} {children : Forest Rule Lexeme}
    (sound : (ruleVariant p).Sound) : trouble source (p, children) = none := by
  obtain ⟨noString, noNumber, single⟩ := sound
  unfold trouble
  split
  · rename_i reducer
    rw [if_pos (single reducer)]
  · rename_i other same leaf
    unfold literalKind
    split
    · exact absurd same noString
    · exact absurd same noNumber
    · rfl
  · rfl

theorem trouble_leaf {source : Memory} {p : Lr.Production Rule} {lexeme : Lexeme} {reducer : Reducer}
    (is : (ruleVariant p).reducer = some reducer) (other : reducer ≠ .implementationMappingList) :
    trouble source (p, .leaf lexeme .nil) = (literalKind source lexeme.base lexeme.ptr reducer).bind faultOf := by
  unfold trouble
  rw [is]
  split
  · rename_i same
    exact absurd (Option.some.inj same) other
  · rename_i same leaf
    cases same
    cases leaf
    rfl
  · rename_i absent
    exact absurd rfl (absent reducer lexeme rfl)

section Nodes
variable {source : Memory} {ruleIds : Rule → Nat}

/-- The node of a literal. -/
theorem literal_node {id : Nat} {lexeme : Lexeme} {v : RuleVariant}
    (variant : v = ⟨[TKN .STRING_LITERAL], some .primaryExprString, 0⟩ ∨
      v = ⟨[TKN .NUMBER_LITERAL], some .primaryExprNumber, 0⟩) (token : [.terminal lexeme.token] = v.elements) :
    ∃ reducer kind, v.reducer = some reducer ∧ reducer ≠ .implementationMappingList ∧
      literalKind source lexeme.base lexeme.ptr reducer = some kind ∧
      reduceVariant source id v [leafToken lexeme] =
        kind.map fun kind => { leafToken lexeme with id, value := newExpr lexeme.loc kind } := by
  have lexed {t : Token} (same : [Symbol.terminal lexeme.token] = [TKN t]) :
      readLexeme [leafToken lexeme] 0 t = .ok (leafToken lexeme) := by
    obtain ⟨token, _⟩ := List.cons.inj same
    simp [readLexeme, operand, leafToken, Symbol.terminal.inj token]
  rcases variant with rfl | rfl
  · refine ⟨_, _, rfl, by decide, rfl, ?_⟩
    show Except.map _ (reducePrimaryExprString source [leafToken lexeme]) = _
    unfold reducePrimaryExprString
    rw [lexed token]
    show Except.map _ (stringLiteral source lexeme.base lexeme.ptr >>= _) = _
    cases stringLiteral source lexeme.base lexeme.ptr <;> rfl
  · refine ⟨_, _, rfl, by decide, rfl, ?_⟩
    show Except.map _ (reducePrimaryExprNumber source [leafToken lexeme]) = _
    unfold reducePrimaryExprNumber
    rw [lexed token]
    show Except.map _ (numberLiteral source lexeme.base lexeme.ptr >>= _) = _
    cases numberLiteral source lexeme.base lexeme.ptr <;> rfl

/-- Every node fails as told, or its value is one of its rule. -/
theorem node_spec : Forest.NodeSpec leafToken (reduceNode source ruleIds) lowGrammar.lr Lexeme.token Fits
    (trouble source) := by
  intro p children inputs has roots run fits
  rw [elements_ruleVariant] at roots fits
  have member := ruleVariant_mem has
  unfold reduceNode
  by_cases sound : (ruleVariant p).Sound
  · rw [trouble_of_sound sound]
    exact variant_reduces source _ p.rule _ member sound inputs fits
  · by_cases literal : (ruleVariant p).reducer = some .primaryExprString ∨ (ruleVariant p).reducer = some .primaryExprNumber
    · obtain ⟨rule, variant⟩ := literal_variant member literal
      obtain ⟨t, terminal⟩ : ∃ t, (ruleVariant p).elements = [TKN t] := by
        rcases variant with same | same <;> exact ⟨_, congrArg RuleVariant.elements same⟩
      rw [terminal] at roots
      obtain ⟨lexeme, rest, rfl, token, nothing⟩ := Forest.roots_terminal roots
      obtain rfl := Forest.roots_nil nothing
      obtain rfl := Except.ok.inj run
      obtain ⟨reducer, kind, is, other, makes, reduced⟩ :=
        @literal_node source (ruleIds p.rule) lexeme _ variant (by rw [terminal, token])
      have told : trouble source (p, .leaf lexeme .nil) = faultOf kind := by
        rw [trouble_leaf is other, makes]
        rfl
      rw [told, reduced]
      cases kind with
      | error fault => rfl
      | ok kind => exact ⟨_, rfl, .nonterminal _ _ _ _ (rule ▸ rfl) (.one _)⟩
    · have mapping : (ruleVariant p).reducer = some .implementationMappingList ∧ (ruleVariant p).tag ≠ 0 := by
        simpa [RuleVariant.Sound, not_or.mp literal] using sound
      obtain ⟨rule, variant⟩ := mapping_variant member mapping.1 mapping.2
      have told : trouble source (p, children) = some (.operand 2) := by
        unfold trouble
        rw [variant]
        rfl
      rw [told, variant]
      rw [variant] at fits
      rcases fits with _ | ⟨head, _ | ⟨second, ⟨⟩⟩⟩
      rcases head with _ | ⟨_, _, _, _, rfl, ⟨⟩⟩
      rfl

theorem reduce_fits {f : Forest Rule Lexeme} {tokens : List (StackToken Value)}
    (valid : f.Valid lowGrammar.lr Lexeme.token) (run : reduce source ruleIds f = .ok tokens) :
    List.Forall₂ Fits (f.roots Lexeme.token) tokens := by
  have nodes : Forest.NodeSpec leafToken (reduceNode source ruleIds) _ _ _ _ := node_spec
  have spec := Forest.eval_spec (fun lexeme => .terminal ..) nodes valid
  split at spec
  · cases spec.symm.trans run
  · obtain ⟨values, computed, fits⟩ := spec
    obtain rfl := Except.ok.inj (computed.symm.trans run)
    exact fits

/-! ### Lists -/

/-- The last tree of a list node is its item. -/
theorem lastTree_item {separators : List Token} {item : Rule} {f : Forest Rule Lexeme}
    {tokens : List (StackToken Value)} {last : StackToken Value}
    (roots : f.roots Lexeme.token = separators.map TKN ++ [SUB item])
    (run : reduce source ruleIds f = .ok tokens) (lastToken : tokens.getLast? = some last) :
    ∃ tree, f.lastTree = [tree] ∧ reduce source ruleIds tree = .ok [last] := by
  induction separators generalizing f tokens with
  | nil =>
    obtain ⟨p, children, rest, rfl, _, nothing⟩ := Forest.roots_nonterminal roots
    obtain rfl := Forest.roots_nil nothing
    obtain ⟨inputs, value, others, _, _, behind, rfl⟩ := Forest.eval_node_ok run
    obtain rfl := Except.ok.inj behind
    obtain rfl := Option.some.inj lastToken
    exact ⟨_, rfl, run⟩
  | cons separator separators ih =>
    obtain ⟨lexeme, rest, rfl, _, roots⟩ := Forest.roots_terminal roots
    obtain ⟨others, behind, rfl⟩ := Forest.eval_leaf_ok run
    cases rest with
    | nil => simp [Forest.roots] at roots
    | leaf a more =>
      obtain ⟨_, rest, rfl⟩ := Forest.eval_leaf_ok behind
      have found := ih roots behind lastToken
      exact found
    | node p children more =>
      obtain ⟨_, _, _, _, _, _, rfl⟩ := Forest.eval_node_ok behind
      have found := ih roots behind lastToken
      exact found

/-- The array of a list node holds the values of its items. The induction is on its children, of which
the first is a node of the same list or the first item. -/
theorem list_items {list : ListRule} (member : list ∈ listRules) {children : Forest Rule Lexeme} :
    ∀ {p : Lr.Production Rule} {token : StackToken Value}, p.rule = list.rule →
      (Forest.node p children .nil).Valid lowGrammar.lr Lexeme.token →
      reduce source ruleIds (.node p children .nil) = .ok [token] →
      ∃ items tokens, token.value = .array list.kind items ∧
        List.Forall₂ (fun item t => reduce source ruleIds item = .ok [t]) (children.items list.rule) tokens ∧
        items.map (.one list.kind) = list.elements (tokens.map StackToken.value) := by
  induction children with
  | nil =>
    intro p token rule valid _
    obtain ⟨X, α, shape⟩ := ListRule.elements_cons member (rule ▸ ruleVariant_mem valid.1)
    cases (valid.2.1.trans (elements_ruleVariant p)).trans shape
  | leaf a rest =>
    intro p token rule valid _
    obtain ⟨X, α, shape⟩ := ListRule.elements_cons member (rule ▸ ruleVariant_mem valid.1)
    cases (valid.2.1.trans (elements_ruleVariant p)).trans shape
  | node q inner rest ihInner _ =>
    intro p token rule valid run
    obtain ⟨has, roots, validChildren, _⟩ := valid
    obtain ⟨inputs, value, _, below, here, nothing, same⟩ := Forest.eval_node_ok run
    obtain rfl := Except.ok.inj nothing
    obtain ⟨rfl, _⟩ := List.cons.inj same
    have fits := reduce_fits validChildren below
    have variant := ruleVariant_mem has
    rw [rule, ListRule.variants_eq member] at variant
    rw [elements_ruleVariant] at roots
    unfold reduceNode at here
    rw [roots] at fits
    simp only [List.mem_cons, List.not_mem_nil, or_false] at variant
    rcases variant with variant | variant
    · rw [variant] at roots here fits
      obtain ⟨item, added, rfl, stored, elements⟩ := ListRule.first_value member fits here
      obtain ⟨head, tail⟩ := List.cons.inj roots
      obtain rfl := Forest.roots_nil tail
      have other : q.rule ≠ list.rule := Symbol.nonterminal.inj head ▸ ListRule.item_ne member
      refine ⟨added, [item], stored, ?_, elements⟩
      rw [Forest.items, if_neg other]
      exact .cons below .nil
    · rw [variant] at roots here fits
      obtain ⟨first, item, items, added, atHead, atLast, before, stored, elements⟩ :=
        ListRule.next_value member fits here
      obtain ⟨head, tail⟩ := List.cons.inj roots
      have again : q.rule = list.rule := Symbol.nonterminal.inj head
      obtain ⟨inputs', value', others, below', here', behind, rfl⟩ := Forest.eval_node_ok below
      obtain rfl := Option.some.inj atHead
      obtain ⟨hasInner, rootsInner, validInner, validRest⟩ := validChildren
      have whole : reduce source ruleIds (.node q inner .nil) = .ok [value'] := Forest.eval_node below' here'
      obtain ⟨xs, ts, storedInner, trees, same⟩ :=
        ihInner again ⟨hasInner, rootsInner, validInner, trivial⟩ whole
      obtain rfl : xs = items := by
        rw [before] at storedInner
        injection storedInner with _ heads
        exact heads.symm
      have lastToken : others.getLast? = some item := by
        cases others with
        | nil =>
          have none := reduce_fits validRest behind
          rw [tail] at none
          exact absurd none.length_eq (by simp)
        | cons => exact atLast
      obtain ⟨tree, lastTree, reduced⟩ := lastTree_item tail behind lastToken
      refine ⟨xs ++ added, ts ++ [item], stored, ?_, ?_⟩
      · rw [Forest.items, if_pos again, lastTree]
        exact List.rel_append trees (.cons reduced .nil)
      · rw [List.map_append, List.map_append, same, elements, ListRule.elements_append]
        rfl

end Nodes

/-- The reductions of a forest are safe and keep the elements of lists: they stop, if at all, over the
text of a literal, and a reduced list is the array of what its items reduce to, in their order. -/
structure Lossless (source : Memory) (ruleIds : Rule → Nat) (f : Forest Rule Lexeme) : Prop where
  reads : ∀ fault, reduce source ruleIds f = .error fault → fault.OfLiteral
  lists : ∀ list ∈ listRules, ∀ node ∈ f.nodes, node.1.rule = list.rule → ∀ token,
    reduce source ruleIds (.node node.1 node.2 .nil) = .ok [token] →
    ∃ items tokens, token.value = .array list.kind items ∧
      List.Forall₂ (fun item t => reduce source ruleIds item = .ok [t]) (node.2.items list.rule) tokens ∧
      items.map (.one list.kind) = list.elements (tokens.map StackToken.value)

/-- In the order of the reductions, an implementation block gets a second mapping, and no literal before
it has stopped them. -/
def SecondMapping (source : Memory) (f : Forest Rule Lexeme) : Prop :=
  f.nodes.findSome? (trouble source) = some (.operand 2)

instance (source : Memory) (f : Forest Rule Lexeme) : Decidable (SecondMapping source f) :=
  inferInstanceAs (Decidable (_ = _))

/-- The reductions of a derivation are safe and lossless just when no block gets a second mapping. -/
theorem reductions_lossless (source : Memory) (ruleIds : Rule → Nat) {α : List (Symbol Token Rule)}
    (t : Lr.Derivation lowGrammar.lr Lexeme.token α) :
    Lossless source ruleIds t.forest ↔ ¬SecondMapping source t.forest := by
  have nodes : Forest.NodeSpec leafToken (reduceNode source ruleIds) _ _ _ _ := node_spec
  have spec := Forest.eval_spec (fun lexeme => .terminal ..) nodes t.valid
  constructor
  · rintro ⟨reads, _⟩ second
    unfold SecondMapping at second
    rw [second] at spec
    rcases reads _ spec with impossible | impossible | impossible | impossible <;> cases impossible
  · intro single
    refine ⟨fun fault run => ?_, fun list member node present rule token run => ?_⟩
    · cases found : t.forest.nodes.findSome? (trouble source) with
      | none =>
        rw [found] at spec
        obtain ⟨tokens, computed, _⟩ := spec
        cases run.symm.trans computed
      | some first =>
        rw [found] at spec
        obtain rfl := Except.error.inj (run.symm.trans spec)
        obtain ⟨node, _, told⟩ := List.exists_of_findSome?_eq_some found
        exact (trouble_cases told).resolve_left fun second => single (found.trans (congrArg some second))
    · exact list_items member rule (Forest.valid_of_mem_nodes t.valid present) run

/-- A token of one byte in the first line. -/
def byteLeaf (token : Token) (base : Nat) (rest : Forest Rule Lexeme) : Forest Rule Lexeme :=
  .leaf ⟨token, base, base + 1, ⟨0, base⟩⟩ rest

def nameType (base : Nat) : Forest Rule Lexeme → Forest Rule Lexeme :=
  .node ⟨.type, 1⟩ (byteLeaf .IDENT base .nil)

def mappingTree (base : Nat) : Forest Rule Lexeme → Forest Rule Lexeme :=
  .node ⟨.implementationMapping, 0⟩ (byteLeaf .IDENT base (byteLeaf .ASSIGN (base + 1)
    (byteLeaf .IDENT (base + 2) (byteLeaf .SEMICOLON (base + 3) .nil))))

/-- The text `interface T(U){a=b;c=d;}`. -/
def twoMappingsSource : Memory :=
  (['i', 'n', 't', 'e', 'r', 'f', 'a', 'c', 'e', ' ', 'T', '(', 'U', ')', Char.ofNat 0x7b, 'a', '=', 'b', ';',
    'c', '=', 'd', ';', Char.ofNat 0x7d]).map Char.toUInt8

def twoMappingsList : Forest Rule Lexeme → Forest Rule Lexeme :=
  .node ⟨.implementationMappingList, 1⟩
    (.node ⟨.implementationMappingList, 0⟩ (mappingTree 15 .nil) (mappingTree 19 .nil))

def twoMappingsDecl : Forest Rule Lexeme :=
  .node ⟨.implementationDecl, 0⟩
    (.leaf ⟨.INTERFACE, 0, 9, ⟨0, 0⟩⟩ <| nameType 10 <| byteLeaf .LPAREN 11 <| nameType 12 <|
      byteLeaf .RPAREN 13 <| byteLeaf .LBRACE 14 <| twoMappingsList <| byteLeaf .RBRACE 23 .nil) .nil

def twoMappings : Lr.Derivation lowGrammar.lr Lexeme.token [SUB .unitList] where
  forest :=
    .node ⟨.unitList, 0⟩ (.node ⟨.unit, 2⟩ (.node ⟨.declUnit, 0⟩ (.node ⟨.decl, 2⟩ twoMappingsDecl .nil)
      .nil) .nil) .nil
  valid := by decide
  roots := rfl

/-- The reducer of the second mapping reads past the two tokens it is handed. -/
theorem second_mapping_faults : ¬Lossless twoMappingsSource (fun _ => 92) twoMappings.forest := by
  rintro ⟨reads, _⟩
  have run : reduce twoMappingsSource (fun _ => 92) twoMappings.forest = .error (.operand 2) := rfl
  rcases reads _ run with impossible | impossible | impossible | impossible <;> cases impossible

end Low
