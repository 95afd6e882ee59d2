import LowCompiler.Reduce.Numbers
import LowCompiler.Reduce.Reparse
import LowCompiler.Reduce.TypeNames
import LowCompiler.Writer.Words

/-!
# Phrases

`Parses` pairs the words of a phrase with a derivation and with what the reducers
make of it, up to locations. It is closed under the variants of the grammar.
-/

namespace Low

open Lr (Forest)

/-! ### Without locations -/

def DeclKind.unlocated : DeclKind → DeclKind
  | .variableDecl type name initial => .variableDecl type name (initial.map Expr.unlocated)
  | .constDecl name type value => .constDecl name type value.unlocated
  | .implementationDecl interface target mappings => .implementationDecl interface target mappings

def Decl.unlocated (decl : Decl) : Decl := ⟨.zero, decl.kind.unlocated⟩

mutual

def Stmt.unlocated : Stmt → Stmt
  | .mk _ kind => .mk .zero (unlocatedStmt kind)
termination_by structural s => s

def unlocatedStmt : StmtKind Stmt → StmtKind Stmt
  | .exprStmt expr => .exprStmt expr.unlocated
  | .compoundStmt items => .compoundStmt (unlocatedItems items)
  | .ifStmt condition stmt elseStmt =>
    .ifStmt condition.unlocated (unlocatedBody stmt) (unlocatedBody elseStmt)
  | .switchStmt condition stmt => .switchStmt condition.unlocated (unlocatedBody stmt)
  | .doStmt stmt condition => .doStmt (unlocatedBody stmt) condition.unlocated
  | .forStmt initial condition step stmt =>
    .forStmt (initial.map Expr.unlocated) (condition.map Expr.unlocated) (step.map Expr.unlocated)
      (unlocatedBody stmt)
  | .gotoStmt name => .gotoStmt name
  | .continueStmt => .continueStmt
  | .breakStmt => .breakStmt
  | .returnStmt expr => .returnStmt (expr.map Expr.unlocated)
  | .caseStmt expr stmt => .caseStmt expr.unlocated (unlocatedBody stmt)
  | .defaultStmt stmt => .defaultStmt (unlocatedBody stmt)
termination_by structural kind => kind

def unlocatedBody : Option Stmt → Option Stmt
  | none => none
  | some s => some s.unlocated
termination_by structural body => body

def unlocatedItems : List (BlockItem Stmt) → List (BlockItem Stmt)
  | [] => []
  | item :: items => unlocatedItem item :: unlocatedItems items
termination_by structural items => items

def unlocatedItem : BlockItem Stmt → BlockItem Stmt
  | .stmtItem stmt => .stmtItem (unlocatedBody stmt)
  | .declItem decl => .declItem decl.unlocated
termination_by structural item => item

end

theorem unlocatedItems_eq (items : List (BlockItem Stmt)) : unlocatedItems items = items.map unlocatedItem := by
  induction items with
  | nil => rfl
  | cons item items ih => rw [unlocatedItems, ih, List.map_cons]

def UnitKind.unlocated : UnitKind → UnitKind
  | .importUnit name => .importUnit name
  | .declUnit decl => .declUnit decl.unlocated
  | .funcUnit func => .funcUnit { func with body := func.body.map Stmt.unlocated }
  | .typeUnit name type => .typeUnit name type
  | .packageUnit name => .packageUnit name

def AstUnit.unlocated (unit : AstUnit) : AstUnit := ⟨.zero, unit.kind.unlocated⟩

def Kind.erase : (kind : Kind) → kind.Val → kind.Val
  | .expr, e => e.unlocated
  | .stmt, s => s.unlocated
  | .decl, d => d.unlocated
  | .unit, u => u.unlocated
  | .blockItem, item => unlocatedItem item
  | .type, val | .mapping, val | .structMember, val | .interfaceMember, val | .param, val | .unaryOp, val
  | .assignmentOp, val => val

/-! ### Tokens on the stack -/

section Tokens
variable {kind : Kind}

/-- The token points to the value, up to locations. -/
inductive Holds (kind : Kind) (val : kind.Val) : StackToken Value → Prop where
  | mk (id first last : Nat) (loc : Loc) {val' : kind.Val} : kind.erase val' = kind.erase val →
      Holds kind val ⟨id, first, last, loc, .one kind val'⟩

inductive HoldsAll (kind : Kind) (vals : List kind.Val) : StackToken Value → Prop where
  | mk (id first last : Nat) (loc : Loc) {vals' : List kind.Val} : vals'.map kind.erase = vals.map kind.erase →
      HoldsAll kind vals ⟨id, first, last, loc, .array kind vals'⟩

/-- The token points to the value, or is null where there is none. -/
inductive HoldsMaybe (kind : Kind) : Option kind.Val → StackToken Value → Prop where
  | none (id first last : Nat) (loc : Loc) : HoldsMaybe kind none ⟨id, first, last, loc, .null⟩
  | some (id first last : Nat) (loc : Loc) {val val' : kind.Val} : kind.erase val' = kind.erase val →
      HoldsMaybe kind (some val) ⟨id, first, last, loc, .one kind val'⟩

/-- The identifier that `reduce_type_name` reads. -/
inductive IsTypeName (source : Memory) (n : Name) : StackToken Value → Prop where
  | mk (first last : Nat) (loc : Loc) : strndup source first (unsigned (last - first)) = n →
      IsTypeName source n ⟨Token.IDENT.toNat, first, last, loc, .null⟩

/-- The number that `reduce_type_array` reads. -/
inductive IsLength (source : Memory) (length : Nat) : StackToken Value → Prop where
  | mk (first last : Nat) (loc : Loc) : unsignedOfInt (atoi (source.drop first)) = length →
      IsLength source length ⟨Token.NUMBER_LITERAL.toNat, first, last, loc, .null⟩

/-- The text that `reduce_import_unit` and `reduce_package_unit` read. -/
inductive IsQuotedName (source : Memory) (n : Name) : StackToken Value → Prop where
  | mk (first last : Nat) (loc : Loc) : strndup source (first + 1) (last - first - 2) = n →
      IsQuotedName source n ⟨Token.STRING_LITERAL.toNat, first, last, loc, .null⟩

end Tokens

/-! ### Phrases with their values -/

section Parses
variable (source : Memory) (ruleIds : Rule → Nat)

/-- The lexer takes the words, whatever lexemes stand for them are derived from `α`, and the
reductions leave tokens as described. -/
structure Parses (α : List (Symbol Token Rule)) (words : List Word) (results : List (StackToken Value → Prop)) :
    Prop where
  lexical : ∀ w ∈ words, w.Lexical
  derives : ∀ lexemes, List.Forall₂ (Word.Spells source) words lexemes →
    ∃ f : Forest Rule Lexeme, f.Valid lowGrammar.lr Lexeme.token ∧ f.roots Lexeme.token = α ∧ f.leaves = lexemes ∧
      ∃ tokens, reduce source ruleIds f = .ok tokens ∧ List.Forall₂ (fun result token => result token) results tokens

variable {source ruleIds} {α β : List (Symbol Token Rule)} {v w : List Word}
  {results others : List (StackToken Value → Prop)}

theorem Parses.append (left : Parses source ruleIds α v results) (right : Parses source ruleIds β w others) :
    Parses source ruleIds (α ++ β) (v ++ w) (results ++ others) := by
  refine ⟨fun word member => (List.mem_append.mp member).elim (left.lexical word) (right.lexical word), ?_⟩
  intro lexemes spells
  have firsts := List.forall₂_take v.length spells
  have seconds := List.forall₂_drop v.length spells
  rw [List.take_left] at firsts
  rw [List.drop_left] at seconds
  obtain ⟨f, valid, roots, leaves, tokens, reduced, hold⟩ := left.derives _ firsts
  obtain ⟨h, valid', roots', leaves', tokens', reduced', hold'⟩ := right.derives _ seconds
  refine ⟨f ++ h, valid.append valid', ?_, ?_, tokens ++ tokens', Forest.eval_append reduced reduced', ?_⟩
  · rw [Forest.roots_append, roots, roots']
  · rw [Forest.leaves_append, leaves, leaves', List.take_append_drop]
  · exact List.rel_append hold hold'

theorem Parses.cons {X : Symbol Token Rule} {result : StackToken Value → Prop}
    (left : Parses source ruleIds [X] v [result]) (right : Parses source ruleIds β w others) :
    Parses source ruleIds (X :: β) (v ++ w) (result :: others) := left.append right

theorem Parses.nil : Parses source ruleIds [] [] [] := by
  refine ⟨nofun, fun lexemes spells => ?_⟩
  cases spells
  exact ⟨.nil, trivial, rfl, rfl, [], rfl, .nil⟩

theorem Parses.leaf (word : Word) {result : StackToken Value → Prop} (lexical : word.Lexical)
    (spelled : ∀ base loc more, source.drop base = word.spelling ++ blank :: more →
      result ⟨word.token.toNat, base, base + word.spelling.length, loc, .null⟩) :
    Parses source ruleIds [TKN word.token] [word] [result] := by
  refine ⟨List.forall_mem_singleton.mpr lexical, fun lexemes spells => ?_⟩
  obtain _ | ⟨⟨here⟩, _ | _⟩ := spells
  exact ⟨.leaf _ .nil, trivial, rfl, rfl, _, rfl, .cons (spelled _ _ _ here) .nil⟩

/-- A variant puts a node over its symbols, and its reducer makes one token of theirs. -/
theorem Parses.node {p : Lr.Production Rule} {result : StackToken Value → Prop} (has : lowGrammar.lr.Has p)
    (below : Parses source ruleIds (lowGrammar.lr.elements p) w results)
    (step : ∀ tokens, List.Forall₂ (fun result token => result token) results tokens →
      ∃ token, reduceNode source ruleIds p tokens = .ok token ∧ result token) :
    Parses source ruleIds [SUB p.rule] w [result] := by
  refine ⟨below.lexical, fun lexemes spells => ?_⟩
  obtain ⟨f, valid, roots, leaves, tokens, reduced, hold⟩ := below.derives lexemes spells
  obtain ⟨token, computed, holds⟩ := step tokens hold
  refine ⟨.node p f .nil, ⟨has, roots, valid, trivial⟩, rfl, ?_, [token], Forest.eval_node reduced computed, ?_⟩
  · simp [Forest.leaves, leaves]
  · exact .cons holds .nil

/-- A reduction without a reducer hands the value on. -/
theorem Parses.pass {lower : Rule} {p : Lr.Production Rule} {kind : Kind} {val : kind.Val}
    (has : lowGrammar.lr.Has p) (variant : ruleVariant p = ⟨[SUB lower], none, 0⟩)
    (phrase : Parses source ruleIds [SUB lower] w [Holds kind val]) :
    Parses source ruleIds [SUB p.rule] w [Holds kind val] := by
  refine Parses.node has (by rw [elements_ruleVariant, variant]; exact phrase) ?_
  intro tokens hold
  obtain _ | ⟨⟨_, first, last, loc, same⟩, _ | _⟩ := hold
  exact ⟨_, by rw [reduceNode, variant]; rfl, .mk _ first last loc same⟩

theorem Parses.passMaybe {lower : Rule} {p : Lr.Production Rule} {kind : Kind} {val : Option kind.Val}
    (has : lowGrammar.lr.Has p) (variant : ruleVariant p = ⟨[SUB lower], none, 0⟩)
    (phrase : Parses source ruleIds [SUB lower] w [HoldsMaybe kind val]) :
    Parses source ruleIds [SUB p.rule] w [HoldsMaybe kind val] := by
  refine Parses.node has (by rw [elements_ruleVariant, variant]; exact phrase) ?_
  intro tokens hold
  obtain _ | ⟨⟨_, first, last, loc⟩ | ⟨_, first, last, loc, same⟩, _ | _⟩ := hold
  · exact ⟨_, by rw [reduceNode, variant]; rfl, .none _ first last loc⟩
  · exact ⟨_, by rw [reduceNode, variant]; rfl, .some _ first last loc same⟩

theorem Parses.maybe {α : List (Symbol Token Rule)} {kind : Kind} {val : kind.Val}
    (phrase : Parses source ruleIds α w [Holds kind val]) : Parses source ruleIds α w [HoldsMaybe kind (some val)] := by
  refine ⟨phrase.lexical, fun lexemes spells => ?_⟩
  obtain ⟨f, valid, roots, leaves, tokens, reduced, hold⟩ := phrase.derives lexemes spells
  refine ⟨f, valid, roots, leaves, tokens, reduced, ?_⟩
  obtain _ | ⟨⟨_, first, last, loc, same⟩, _ | _⟩ := hold
  exact .cons (.some _ first last loc same) .nil

/-! ### Words -/

theorem parses_sign (t : Token) (spelt : t.spelt = true) : Parses source ruleIds [TKN t] [sign t] [IsSign t] :=
  Parses.leaf (sign t) (sign_lexical spelt) fun base loc _ _ => .mk base _ loc

theorem Parses.sign {t : Token} (spelt : t.spelt = true) (right : Parses source ruleIds β w others) :
    Parses source ruleIds (TKN t :: β) (sign t :: w) (IsSign t :: others) := (parses_sign t spelt).cons right

section Bytes
variable {base : Nat} {more : List UInt8}

theorem IsIdent.letters {n : Name} (ident : IsIdent n) : ∀ c ∈ n, isIdent c = true := by
  obtain ⟨word, _⟩ := ident
  cases n with
  | nil => exact word.elim
  | cons c rest =>
    refine List.forall_mem_cons.mpr ⟨?_, word.2⟩
    rw [isIdent, word.1]
    rfl

theorem strndup_word {n : Name} (ident : IsIdent n) (here : source.drop base = n ++ blank :: more) :
    strndup source base n.length = n := by
  rw [strndup_ident here ident.letters n.length (Nat.le_refl _), List.take_length]

theorem determineRadix_written {literal : Name} {radix : Nat} (writable : WritableNumber literal radix)
    (here : source.drop base = numberSpelling literal radix ++ blank :: more) :
    ∃ skipped, determineRadix source base (base + (numberSpelling literal radix).length) = (radix, skipped) ∧
      source.drop (base + skipped) = literal ++ blank :: more ∧
      base + (numberSpelling literal radix).length - (base + skipped) = literal.length := by
  unfold numberSpelling at here ⊢
  split at here
  · rename_i ten
    rw [if_pos ten]
    refine ⟨0, ?_, here, by omega⟩
    obtain ⟨noX, c, head, digit⟩ := writable.ten ten
    obtain ⟨rest, rfl⟩ := List.head?_eq_some_iff.mp head
    rw [ten]
    -- The second and the third byte are read, and neither is an `x`.
    have at_ := getD_drop here
    unfold determineRadix
    match rest, noX, at_ with
    | [], _, _ => simp
    | [d], noX, at_ =>
      have second := at_ 1
      have other : d ≠ 'x'.toUInt8 := fun same => noX (same ▸ by simp)
      simp only [List.cons_append, List.getD_cons_succ, List.getD_cons_zero] at second
      by_cases digit : isNumberDec d = true
      · simp [second, digit]
      · simp [second, digit, other]
    | d :: e :: rest, noX, at_ =>
      have second := at_ 1
      have third := at_ 2
      have other : d ≠ 'x'.toUInt8 := fun same => noX (same ▸ by simp)
      have other' : e ≠ 'x'.toUInt8 := fun same => noX (same ▸ by simp)
      simp only [List.cons_append, List.getD_cons_succ, List.getD_cons_zero] at second third
      by_cases digit : isNumberDec d = true
      · simp [second, third, digit, other']
      · simp [second, digit, other]
  · rename_i other
    rw [if_neg other]
    obtain ⟨some, all, value⟩ := digits_spec radix
    have short := digits_length writable.radix_lt
    have read := determineRadix_radix here all some short
    rw [value, if_neg (Nat.pos_iff_ne_zero.mp writable.radix_pos)] at read
    refine ⟨(digits radix).length + 1, read, ?_, ?_⟩
    · rw [← List.drop_drop, here, List.append_assoc]
      have length : (digits radix).length + 1 = (digits radix ++ ['x'.toUInt8]).length := by
        rw [List.length_append, List.length_singleton]
      rw [length, List.drop_left]
    · rw [List.length_append, List.length_append, List.length_singleton]
      omega

theorem numberLiteral_written {literal : Name} {radix : Nat} (writable : WritableNumber literal radix)
    (here : source.drop base = numberSpelling literal radix ++ blank :: more) :
    numberLiteral source base (base + (numberSpelling literal radix).length) = .ok (literal, radix) := by
  obtain ⟨skipped, found, behind, length⟩ := determineRadix_written writable here
  have whole : unseparated literal = literal := by
    apply List.filter_eq_self.mpr
    intro c member
    exact bne_iff_ne.mpr fun same => writable.plain (same ▸ member)
  have short := writable.short
  have small : literal.length < 2 ^ 32 := by omega
  rw [numberLiteral, found]
  show (extractLiteral _ _ _ >>= _) = _
  rw [length, extractLiteral_eq behind, measured_of_short small, whole, if_pos short, unsigned, Nat.mod_eq_of_lt small,
    Nat.sub_self, List.replicate_zero, List.append_nil]
  rfl

end Bytes

theorem parses_name {n : Name} (ident : IsIdent n) :
    Parses source ruleIds [TKN .IDENT] [name n] [IsName source n] := by
  refine Parses.leaf (name n) (name_lexical ident) fun base loc more here => .mk base _ loc ?_
  rw [Nat.add_sub_cancel_left]
  exact strndup_word ident here

theorem parses_typeName {n : Name} (ident : IsIdent n) (short : n.length < 2 ^ 32) :
    Parses source ruleIds [TKN .IDENT] [name n] [IsTypeName source n] := by
  refine Parses.leaf (name n) (name_lexical ident) fun base loc more here => .mk base _ loc ?_
  have length : unsigned (name n).spelling.length = n.length := Nat.mod_eq_of_lt short
  rw [Nat.add_sub_cancel_left, length]
  exact strndup_word ident here

theorem parses_length {n : Nat} (small : n < 2 ^ 31) :
    Parses source ruleIds [TKN .NUMBER_LITERAL] [number (digits n)] [IsLength source n] := by
  refine Parses.leaf (number (digits n)) (digits_lexical n) fun base loc more here => .mk base _ loc ?_
  obtain ⟨some, all, value⟩ := digits_spec n
  have stops : NoDigit (blank :: more) := by
    intro c head
    obtain rfl := Option.some.inj head
    rfl
  rw [here, number, length_digits all some stops (by omega), value]

theorem parses_string {s : List UInt8} (plain : '\\'.toUInt8 ∉ s) (short : (escape s).length < 2 ^ 32 - 1) :
    Parses source ruleIds [TKN .STRING_LITERAL] [literal s] [IsString source s] := by
  refine Parses.leaf (literal s) (literal_lexical s) fun base loc more here => .mk base _ loc ?_
  have length : base + (literal s).spelling.length = base + (escape s).length + 2 := by
    simp [literal, quote]
    omega
  have behind : source.drop (base + 1) = escape s ++ '"'.toUInt8 :: blank :: more := by
    rw [← List.drop_drop, here]
    simp [literal, quote]
  rw [length]
  exact (stringLiteral_iff behind).mpr ⟨plain, short⟩

theorem parses_number {literal : Name} {radix : Nat} (writable : WritableNumber literal radix) :
    Parses source ruleIds [TKN .NUMBER_LITERAL] [number (numberSpelling literal radix)]
      [IsNumber source literal radix] := by
  refine Parses.leaf (number (numberSpelling literal radix)) (writableNumber_lexical writable) ?_
  intro base loc more here
  exact .mk base _ loc (numberLiteral_written writable here)

theorem parses_quoted {n : Name} (zero : 0 ∉ n) (quote : '"'.toUInt8 ∉ n) (escape : '\\'.toUInt8 ∉ n) :
    Parses source ruleIds [TKN .STRING_LITERAL] [quoted n] [IsQuotedName source n] := by
  refine Parses.leaf (quoted n) (quoted_lexical quote escape) fun base loc more here => .mk base _ loc ?_
  have length : (quoted n).spelling.length - 2 = n.length := by
    simp [quoted]
  have behind : source.drop (base + 1) = n ++ '"'.toUInt8 :: blank :: more := by
    rw [← List.drop_drop, here]
    simp [quoted]
  rw [Nat.add_sub_cancel_left, length, strndup, behind, List.take_left, List.takeWhile_eq_self_iff]
  intro c member
  exact bne_iff_ne.mpr fun same => zero (same ▸ member)

/-! ### Lists -/

def joined (separator : List Word) : List (List Word) → List Word
  | [] => []
  | w :: ws => w ++ ws.flatMap (separator ++ ·)

/-- A rule for lists of a rule, with a separator or without. -/
structure IsListRule (rule item : Rule) (separator : Option Token) (kind : Kind) (reducer : Reducer) : Prop where
  first : ruleVariant ⟨rule, 0⟩ = ⟨[SUB item], some reducer, 0⟩
  next : ruleVariant ⟨rule, 1⟩ = ⟨SUB rule :: (separator.toList.map TKN ++ [SUB item]), some reducer, 1⟩
  has : 1 < (lowGrammar.lr.variants rule).length
  spelt : ∀ t ∈ separator, t.spelt = true
  run : ∀ (source : Memory) tokens tag,
    reducer.run source tokens tag = reduceList tokens tag kind (separator.toList.length + 1) ∨
      reducer.run source tokens tag = reduceListNullable tokens tag kind (separator.toList.length + 1)

section Lists
variable {rule item : Rule} {separator : Option Token} {kind : Kind} {reducer : Reducer}

theorem read_one {tokens : List (StackToken Value)} {index : Nat} {token : StackToken Value} {val : kind.Val}
    (found : tokens[index]? = some token) (value : token.value = .one kind val) :
    read tokens index kind = .ok val ∧ readNullable tokens index kind = .ok (some val) := by
  have known : operand tokens index = .ok token := by
    unfold operand
    rw [found]
  unfold read readNullable
  rw [known]
  simp [value, Value.isNull]

theorem readArray_array {tokens : List (StackToken Value)} {index : Nat} {token : StackToken Value}
    {vals : List kind.Val} (found : tokens[index]? = some token) (value : token.value = .array kind vals) :
    readArray tokens index kind = .ok vals := by
  have known : operand tokens index = .ok token := by
    unfold operand
    rw [found]
  unfold readArray
  rw [known]
  simp [value]

theorem IsListRule.run_first (is : IsListRule rule item separator kind reducer) {token : StackToken Value}
    {val : kind.Val} (value : token.value = .one kind val) :
    reducer.run source [token] 0 = .ok (.array kind [val]) := by
  have only : [token][0]? = some token := rfl
  obtain ⟨one, maybe⟩ := read_one only value
  rcases is.run source [token] 0 with run | run
  · rw [run, reduceList, if_pos rfl, one]
    rfl
  · rw [run, reduceListNullable, if_pos rfl, maybe]
    rfl

theorem IsListRule.run_next (is : IsListRule rule item separator kind reducer) {tokens : List (StackToken Value)}
    {list token : StackToken Value} {vals : List kind.Val} {val : kind.Val} (front : tokens[0]? = some list)
    (items : list.value = .array kind vals) (found : tokens[separator.toList.length + 1]? = some token)
    (value : token.value = .one kind val) :
    reducer.run source tokens 1 = .ok (.array kind (vals ++ [val])) := by
  have before := readArray_array front items
  obtain ⟨one, maybe⟩ := read_one found value
  rcases is.run source tokens 1 with run | run
  · rw [run, reduceList, if_neg (by decide), before, one]
    rfl
  · rw [run, reduceListNullable, if_neg (by decide), before, maybe]
    rfl

theorem parses_separator (spelt : ∀ t ∈ separator, t.spelt = true) :
    Parses source ruleIds (separator.toList.map TKN) (separator.toList.map sign) (separator.toList.map IsSign) := by
  cases separator with
  | none => exact Parses.nil
  | some t => exact parses_sign t (spelt t rfl)

theorem IsListRule.parses_first (is : IsListRule rule item separator kind reducer) {x : kind.Val}
    (each : Parses source ruleIds [SUB item] w [Holds kind x]) :
    Parses source ruleIds [SUB rule] w [HoldsAll kind [x]] := by
  refine Parses.node (p := ⟨rule, 0⟩) (Nat.lt_of_succ_lt is.has) (by rw [elements_ruleVariant, is.first]; exact each) ?_
  intro tokens hold
  obtain _ | ⟨@⟨_, first, last, loc, val, same⟩, _ | _⟩ := hold
  refine ⟨⟨ruleIds rule, first, last, loc, .array kind [val]⟩, ?_, .mk _ _ _ _ ?_⟩
  · rw [reduceNode, is.first]
    exact congrArg (Except.map _) (is.run_first rfl)
  · rw [List.map_singleton, List.map_singleton, same]

theorem IsListRule.parses_next (is : IsListRule rule item separator kind reducer) {xs : List kind.Val} {x : kind.Val}
    (before : Parses source ruleIds [SUB rule] v [HoldsAll kind xs])
    (each : Parses source ruleIds [SUB item] w [Holds kind x]) :
    Parses source ruleIds [SUB rule] (v ++ (separator.toList.map sign ++ w)) [HoldsAll kind (xs ++ [x])] := by
  have below := before.cons ((parses_separator is.spelt).append each)
  refine Parses.node (p := ⟨rule, 1⟩) is.has (by rw [elements_ruleVariant, is.next]; exact below) ?_
  intro tokens hold
  obtain _ | ⟨@⟨_, first, last, loc, vals, items⟩, hold⟩ := hold
  have all (val : kind.Val) (same : kind.erase val = kind.erase x) :
      (vals ++ [val]).map kind.erase = (xs ++ [x]).map kind.erase := by
    rw [List.map_append, List.map_append, items, List.map_singleton, List.map_singleton, same]
  cases separator with
  | none =>
    obtain _ | ⟨@⟨_, _, stop, _, val, same⟩, _ | _⟩ := hold
    refine ⟨⟨ruleIds rule, first, stop, loc, .array kind (vals ++ [val])⟩, ?_, .mk _ _ _ _ (all val same)⟩
    rw [reduceNode, is.next]
    exact congrArg (Except.map _) (is.run_next rfl rfl rfl rfl)
  | some t =>
    obtain _ | ⟨⟨_⟩, _ | ⟨@⟨_, _, stop, _, val, same⟩, _ | _⟩⟩ := hold
    refine ⟨⟨ruleIds rule, first, stop, loc, .array kind (vals ++ [val])⟩, ?_, .mk _ _ _ _ (all val same)⟩
    rw [reduceNode, is.next]
    exact congrArg (Except.map _) (is.run_next rfl rfl rfl rfl)

/-- The items of a list one after the other, with the separators between them. -/
theorem IsListRule.parses (is : IsListRule rule item separator kind reducer) {ws : List (List Word)}
    {xs : List kind.Val} (some : xs ≠ [])
    (each : List.Forall₂ (fun w x => Parses source ruleIds [SUB item] w [Holds kind x]) ws xs) :
    Parses source ruleIds [SUB rule] (joined (separator.toList.map sign) ws) [HoldsAll kind xs] := by
  have later : ∀ {ws : List (List Word)} {xs : List kind.Val},
      List.Forall₂ (fun w x => Parses source ruleIds [SUB item] w [Holds kind x]) ws xs →
      ∀ {v : List Word} {before : List kind.Val}, Parses source ruleIds [SUB rule] v [HoldsAll kind before] →
        Parses source ruleIds [SUB rule] (v ++ ws.flatMap (separator.toList.map sign ++ ·))
          [HoldsAll kind (before ++ xs)] := by
    intro ws xs each
    induction each with
    | nil =>
      intro v before list
      rwa [List.flatMap_nil, List.append_nil, List.append_nil]
    | cons first _ ih =>
      intro v before list
      have next := ih (is.parses_next list first)
      simpa [List.append_assoc] using next
  cases each with
  | nil => exact absurd rfl some
  | @cons w x ws xs first rest =>
    have all := later rest (is.parses_first first)
    exact all

theorem IsListRule.parses_map (is : IsListRule rule item separator kind reducer) {xs : List kind.Val}
    {write : kind.Val → List Word} (some : xs ≠ [])
    (each : ∀ x ∈ xs, Parses source ruleIds [SUB item] (write x) [Holds kind x]) :
    Parses source ruleIds [SUB rule] (joined (separator.toList.map sign) (xs.map write)) [HoldsAll kind xs] := by
  apply is.parses some
  rw [List.forall₂_map_left_iff, List.forall₂_same]
  exact each

end Lists

end Parses

end Low
