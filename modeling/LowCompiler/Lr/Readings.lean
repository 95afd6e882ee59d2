import LowCompiler.Lr.Tree

/-!
# Reading an input once

A check on the variants of a rule under which an input is read by one derivation
tree only. It looks one token ahead, takes variants apart behind what they have in
common, and reads a left-recursive rule as a head with suffixes hung onto it.
-/

namespace Lr

variable {T N A : Type}

/-- The tokens that may occur, those that begin a phrase of a rule, and those that would continue one. -/
structure Lookahead (T N : Type) where
  allowed : T → Bool
  first : N → List T
  continues : N → List T

namespace Grammar
variable [DecidableEq N] (g : Grammar T N)

def productions (rule : N) : List (Production N) :=
  (List.range (g.variants rule).length).map fun variant => ⟨rule, variant⟩

/-- What a left-recursive variant puts behind its own rule. -/
def suffixOf (p : Production N) : Option (List (Symbol T N)) :=
  match g.elements p with
  | .nonterminal rule :: α => if rule = p.rule then some α else none
  | _ => none

/-- The symbols of a variant, without its own rule at the front. -/
def partOf (p : Production N) : List (Symbol T N) := (g.suffixOf p).getD (g.elements p)

omit [DecidableEq N] in
theorem mem_productions {g : Grammar T N} {p : Production N} : p ∈ g.productions p.rule ↔ g.Has p := by
  obtain ⟨rule, variant⟩ := p
  simp [productions, Has]

theorem suffixOf_eq_some {g : Grammar T N} {p : Production N} {α : List (Symbol T N)} :
    g.suffixOf p = some α ↔ g.elements p = .nonterminal p.rule :: α := by
  unfold suffixOf
  split
  · rename_i rule β shape
    rw [shape]
    split
    · rename_i same
      simp [same]
    · rename_i other
      simp [other]
  · rename_i other
    constructor
    · exact nofun
    · intro shape
      exact absurd shape (other _ _)

end Grammar

namespace Lookahead
variable [DecidableEq T] [DecidableEq N] (look : Lookahead T N)

def starts : Symbol T N → List T
  | .terminal t => if look.allowed t then [t] else []
  | .nonterminal rule => look.first rule

/-- The tokens that would continue a symbol. -/
def behind : Symbol T N → List T
  | .terminal _ => []
  | .nonterminal rule => look.continues rule

/-- No symbol is continued by the next one, and the last one only by tokens of `outer`. -/
def bounded (outer : List T) : List (Symbol T N) → Bool
  | [] => true
  | [X] => (look.behind X).all (· ∈ outer)
  | X :: Y :: α => (look.starts Y).all (· ∉ look.behind X) && bounded outer (Y :: α)

/-- Behind what they have in common two sequences begin with different tokens. -/
def parted (outer : List T) : List (Symbol T N) → List (Symbol T N) → Bool
  | [], [] => false
  | [], Y :: _ => (look.starts Y).all (· ∈ outer)
  | X :: _, [] => (look.starts X).all (· ∈ outer)
  | X :: α, Y :: β => if X = Y then parted outer α β else (look.starts X).all (· ∉ look.starts Y)

def live : List (Symbol T N) → Bool
  | [] => false
  | X :: _ => !(look.starts X).isEmpty

def known (rules : List N) : Symbol T N → Bool
  | .terminal _ => true
  | .nonterminal rule => rule ∈ rules

variable (g : Grammar T N)

/-- Every variant of the rule begins with a known symbol, and with tokens that begin the rule. -/
def headed (rules : List N) (rule : N) : Bool := (g.variants rule).all fun
  | [] => false
  | X :: _ => known rules X && (look.starts X).all (· ∈ look.first rule)

def startsSuffix (rule : N) (t : T) : Bool := (g.productions rule).any fun p =>
  match g.suffixOf p with
  | some (X :: _) => t ∈ look.starts X
  | _ => false

/-- The tokens that would continue a part of a phrase. -/
def inner (rule : N) : List T := (look.continues rule).filter fun t => !look.startsSuffix g rule t

def readable (rules : List N) (p : Production N) : Bool :=
  look.bounded (look.inner g p.rule) (g.partOf p) && (g.partOf p).all (known rules) &&
    match g.suffixOf p with
    | none => true
    | some [] => false
    | some (X :: _) => (look.starts X).all (· ∈ look.continues p.rule)

/-- Two variants of a rule are not read from one input. -/
def told (p q : Production N) : Bool :=
  (g.suffixOf p).isSome != (g.suffixOf q).isSome ||
    look.parted (look.inner g p.rule) (g.partOf p) (g.partOf q)

/-- The variants of the rule begin with `corner` or another of the rules `spine`, and go on with
tokens of `ops`. -/
def cornered (rules spine : List N) (corner : N) (ops : List T) (rule : N) : Bool :=
  ((g.productions rule).filter fun p => look.live (g.elements p)).all fun p =>
    match g.elements p with
    | .nonterminal X :: α => (X = corner || X ∈ spine) &&
      match α with
      | [] => true
      | Y :: _ => known rules Y && (look.starts Y).all (· ∈ ops)
    | _ => false

/-- The check for one rule, over the variants that allowed tokens begin. -/
def predictive (rules : List N) (rule : N) : Bool :=
  let ps := (g.productions rule).filter fun p => look.live (g.elements p)
  ps.all fun p => look.readable g rules p && ps.all fun q => p = q || look.told g p q

omit [DecidableEq N] in
theorem bounded_tail {look : Lookahead T N} {outer : List T} {X : Symbol T N} {α : List (Symbol T N)}
    (bounded : look.bounded outer (X :: α) = true) : look.bounded outer α = true := by
  cases α with
  | nil => rfl
  | cons Y β =>
    rw [Lookahead.bounded, Bool.and_eq_true] at bounded
    exact bounded.2

theorem parted_irrefl {look : Lookahead T N} {outer : List T} (α : List (Symbol T N)) :
    look.parted outer α α = false := by
  induction α with
  | nil => rfl
  | cons X α ih => rw [parted, if_pos rfl, ih]

theorem mem_inner {look : Lookahead T N} {g : Grammar T N} {rule : N} {t : T} :
    t ∈ look.inner g rule ↔ t ∈ look.continues rule ∧ look.startsSuffix g rule t = false := by
  simp [inner]

end Lookahead

/-- The input does not begin with one of these tokens. -/
def Stops (token : A → T) (tokens : List T) (input : List A) : Prop := ∀ a ∈ input.head?, token a ∉ tokens

theorem Stops.mono {token : A → T} {ts us : List T} {input : List A} (stops : Stops token us input)
    (subset : ∀ t ∈ ts, t ∈ us) : Stops token ts input :=
  fun a head member => stops a head (subset _ member)

namespace Forest

def size : Forest N A → Nat
  | nil => 0
  | leaf _ rest => rest.size
  | node _ children rest => children.size + rest.size + 1

@[simp] theorem size_append (f h : Forest N A) : (f ++ h).size = f.size + h.size := by
  induction f with
  | nil => simp [size]
  | leaf a rest ih => rw [leaf_append, size, ih, size]
  | node p children rest _ ih =>
    rw [node_append, size, ih, size]
    omega

/-! ### First tokens -/

section Readings
variable [DecidableEq T] [DecidableEq N] {g : Grammar T N} {token : A → T} {look : Lookahead T N} {rules : List N}

/-- What a known symbol derives from allowed tokens begins as the tables say. -/
theorem exists_first (headed : ∀ rule ∈ rules, look.headed g rules rule = true) {f : Forest N A} :
    ∀ {X α}, f.Valid g token → f.roots token = X :: α → Lookahead.known rules X = true →
      (∀ a ∈ f.leaves, look.allowed (token a) = true) →
      ∃ a rest, f.leaves = a :: rest ∧ token a ∈ look.starts X := by
  induction f with
  | nil =>
    intro X α _ roots
    cases roots
  | leaf a rest =>
    intro X α _ roots _ allowed
    obtain ⟨rfl, _⟩ := List.cons.inj roots
    exact ⟨a, rest.leaves, rfl, by simp [Lookahead.starts, allowed a List.mem_cons_self]⟩
  | node p children rest below =>
    intro X α valid roots known allowed
    obtain ⟨has, rootsBelow, valid, _⟩ := valid
    obtain ⟨rfl, _⟩ := List.cons.inj roots
    have member : p.rule ∈ rules := by simpa [Lookahead.known] using known
    have head := List.all_eq_true.mp (headed p.rule member) _ (Grammar.elements_mem has)
    cases shape : g.elements p with
    | nil =>
      rw [shape] at head
      cases head
    | cons Y β =>
      rw [shape] at head rootsBelow
      simp only [Bool.and_eq_true, List.all_eq_true, decide_eq_true_eq] at head
      obtain ⟨a, more, leaves, first⟩ := below valid rootsBelow head.1 fun a inside =>
        allowed a (List.mem_append_left _ inside)
      exact ⟨a, more ++ rest.leaves, by rw [Forest.leaves, leaves, List.cons_append], head.2 _ first⟩

variable (g token look rules) in
/-- A forest over `α` reads the input up to `r`, which does not continue it. -/
structure Reading (outer : List T) (α : List (Symbol T N)) (f : Forest N A) (r : List A) : Prop where
  bounded : look.bounded outer α = true
  known : ∀ X ∈ α, Lookahead.known rules X = true
  valid : f.Valid g token
  roots : f.roots token = α
  allowed : ∀ a ∈ f.leaves ++ r, look.allowed (token a) = true
  stops : Stops token outer r

variable (g token look rules) in
/-- No other tree of its rule reads what the tree reads. -/
def Unique (t : Forest N A) : Prop :=
  ∀ (rule : N) (h : Forest N A) (r s : List A),
    Reading g token look rules (look.continues rule) [.nonterminal rule] t r →
    Reading g token look rules (look.continues rule) [.nonterminal rule] h s → t.leaves ++ r = h.leaves ++ s →
    t = h ∧ r = s

section Sequences
variable (headed : ∀ rule ∈ rules, look.headed g rules rule = true) {outer : List T} {X : Symbol T N}
  {α β : List (Symbol T N)} {f h : Forest N A} {r s : List A}
include headed

theorem Reading.first (reading : Reading g token look rules outer (X :: α) f r) :
    ∃ a rest, f.leaves = a :: rest ∧ token a ∈ look.starts X :=
  exists_first headed reading.valid reading.roots (reading.known X List.mem_cons_self) fun a inside =>
    reading.allowed a (List.mem_append_left _ inside)

omit headed in
theorem Reading.leaf {a : A} (reading : Reading g token look rules outer (X :: α) (leaf a f) r) :
    Reading g token look rules outer α f r where
  bounded := Lookahead.bounded_tail reading.bounded
  known Y member := reading.known Y (List.mem_cons_of_mem _ member)
  valid := reading.valid
  roots := (List.cons.inj reading.roots).2
  allowed b inside := reading.allowed b (List.mem_cons_of_mem _ inside)
  stops := reading.stops

omit headed in
theorem Reading.rest {p : Production N} {children : Forest N A}
    (reading : Reading g token look rules outer (X :: α) (node p children f) r) :
    Reading g token look rules outer α f r where
  bounded := Lookahead.bounded_tail reading.bounded
  known Y member := reading.known Y (List.mem_cons_of_mem _ member)
  valid := reading.valid.2.2.2
  roots := (List.cons.inj reading.roots).2
  allowed b inside := by
    refine reading.allowed b ?_
    rw [leaves, List.append_assoc]
    exact List.mem_append_right _ inside
  stops := reading.stops

/-- The first tree of a sequence: what stands behind it does not continue it. -/
theorem Reading.node {p : Production N} {children : Forest N A}
    (reading : Reading g token look rules outer (X :: α) (node p children f) r) :
    Reading g token look rules (look.continues p.rule) [.nonterminal p.rule] (.node p children .nil)
      (f.leaves ++ r) := by
  obtain ⟨rfl, _⟩ := List.cons.inj reading.roots
  obtain ⟨has, roots, valid, _⟩ := reading.valid
  refine ⟨by simp [Lookahead.bounded, Lookahead.behind], ?_, ⟨has, roots, valid, trivial⟩, rfl, ?_, ?_⟩
  · exact fun Y member => List.mem_singleton.mp member ▸ reading.known _ List.mem_cons_self
  · intro b inside
    refine reading.allowed b ?_
    simpa [leaves] using inside
  · have rest := reading.rest
    have bounded := reading.bounded
    cases α with
    | nil =>
      obtain rfl := roots_nil rest.roots
      simp only [Lookahead.bounded, List.all_eq_true, decide_eq_true_eq] at bounded
      exact rest.stops.mono bounded
    | cons Y γ =>
      obtain ⟨a, more, leaves, first⟩ := rest.first headed
      simp only [Lookahead.bounded, Bool.and_eq_true, List.all_eq_true, decide_eq_true_eq] at bounded
      rw [leaves]
      rintro _ ⟨⟩
      exact bounded.1 _ first

/-- Sequences that are read from one input begin with the same symbol. -/
theorem Reading.head (related : X :: α = β ∨ look.parted outer (X :: α) β = true)
    (reading : Reading g token look rules outer (X :: α) f r) (other : Reading g token look rules outer β h s)
    (same : f.leaves ++ r = h.leaves ++ s) : ∃ γ, β = X :: γ ∧ (α = γ ∨ look.parted outer α γ = true) := by
  obtain ⟨a, rest, leaves, first⟩ := reading.first headed
  rw [leaves] at same
  rcases related with rfl | parted
  · exact ⟨α, rfl, .inl rfl⟩
  cases β with
  | nil =>
    obtain rfl := roots_nil other.roots
    simp only [Lookahead.parted, List.all_eq_true, decide_eq_true_eq] at parted
    exact absurd (parted _ first) (other.stops a (by rw [← List.nil_append s]; exact congrArg List.head? same.symm))
  | cons Y γ =>
    by_cases heads : X = Y
    · subst heads
      rw [Lookahead.parted, if_pos rfl] at parted
      exact ⟨γ, rfl, .inr parted⟩
    · obtain ⟨b, more, leaves', first'⟩ := other.first headed
      rw [leaves'] at same
      obtain ⟨rfl, _⟩ := List.cons.inj same
      simp only [Lookahead.parted, if_neg heads, List.all_eq_true, decide_eq_true_eq] at parted
      exact absurd first' (parted _ first)

/-- Two sequences that are read from one input are the same, and so are their trees. The induction is on the
first one; its trees are read once. -/
theorem reads_once {n : Nat} (smaller : ∀ t : Forest N A, t.size ≤ n → Unique g token look rules t) :
    ∀ {α β : List (Symbol T N)} {h : Forest N A} {r s : List A}, f.size ≤ n →
      α = β ∨ look.parted outer α β = true → Reading g token look rules outer α f r →
      Reading g token look rules outer β h s → f.leaves ++ r = h.leaves ++ s → α = β ∧ f = h ∧ r = s := by
  induction f with
  | nil =>
    intro α β h r s _ related reading other same
    obtain rfl : [] = α := reading.roots
    cases β with
    | nil =>
      obtain rfl := roots_nil other.roots
      exact ⟨rfl, rfl, same⟩
    | cons Y γ =>
      obtain ⟨b, more, leaves, first⟩ := other.first headed
      rw [leaves] at same
      have parted := related.resolve_left (List.cons_ne_nil Y γ).symm
      simp only [Lookahead.parted, List.all_eq_true, decide_eq_true_eq] at parted
      exact absurd (parted _ first) (reading.stops b (congrArg List.head? same))
  | leaf a rest ih =>
    intro α β h r s size related reading other same
    obtain rfl : .terminal (token a) :: rest.roots token = α := reading.roots
    obtain ⟨γ, rfl, onward⟩ := reading.head headed related other same
    obtain ⟨b, more, rfl, _, _⟩ := roots_terminal other.roots
    obtain ⟨rfl, behind⟩ := List.cons.inj same
    obtain ⟨rfl, rfl, rfl⟩ := ih size onward reading.leaf other.leaf behind
    exact ⟨rfl, rfl, rfl⟩
  | node p children rest _ ih =>
    intro α β h r s size related reading other same
    obtain rfl : .nonterminal p.rule :: rest.roots token = α := reading.roots
    obtain ⟨γ, rfl, onward⟩ := reading.head headed related other same
    obtain ⟨q, below, more, rfl, rule, _⟩ := roots_nonterminal other.roots
    rw [Forest.size] at size
    rw [leaves, leaves, List.append_assoc, List.append_assoc] at same
    have here : (Forest.node p children .nil).size ≤ n := by
      rw [Forest.size, Forest.size]
      omega
    have left := reading.node headed
    have right := other.node headed
    rw [rule] at right
    obtain ⟨tree, behind⟩ := smaller _ here _ _ _ _ left right (by simpa [leaves] using same)
    obtain ⟨rfl, rfl⟩ : p = q ∧ children = below := by
      injection tree with production children
      exact ⟨production, children⟩
    obtain ⟨rfl, rfl, rfl⟩ := ih (by omega) onward reading.rest other.rest behind
    exact ⟨rfl, rfl, rfl⟩

end Sequences

end Readings

/-! ### Left recursion -/

/-- A tree with suffixes hung onto it, the innermost first. -/
def plant (head : Forest N A) (suffixes : List (Production N × Forest N A)) : Forest N A :=
  suffixes.foldl (fun t suffix => node suffix.1 (t ++ suffix.2) nil) head

theorem plant_leaves (head : Forest N A) (suffixes : List (Production N × Forest N A)) :
    (plant head suffixes).leaves = head.leaves ++ suffixes.flatMap fun suffix => suffix.2.leaves := by
  induction suffixes generalizing head with
  | nil => simp [plant]
  | cons suffix suffixes ih =>
    have later := ih (node suffix.1 (head ++ suffix.2) nil)
    simpa [plant, leaves] using later

theorem plant_size (head : Forest N A) (suffixes : List (Production N × Forest N A)) :
    head.size ≤ (plant head suffixes).size ∧ ∀ suffix ∈ suffixes, suffix.2.size < (plant head suffixes).size := by
  induction suffixes generalizing head with
  | nil => exact ⟨Nat.le_refl _, nofun⟩
  | cons suffix suffixes ih =>
    obtain ⟨first, others⟩ := ih (node suffix.1 (head ++ suffix.2) nil)
    have size : (node suffix.1 (head ++ suffix.2) nil).size = head.size + suffix.2.size + 1 := by simp [Forest.size]
    rw [size] at first
    refine ⟨by simp only [plant, List.foldl_cons] at *; omega, fun other member => ?_⟩
    rcases List.mem_cons.mp member with rfl | member
    · simp only [plant, List.foldl_cons] at *
      omega
    · exact others other member

section Plants
variable [DecidableEq N] {g : Grammar T N} {token : A → T}

variable (g token) in
/-- What a left-recursive variant of the rule reads behind its own rule. -/
structure IsSuffix (rule : N) (suffix : Production N × Forest N A) : Prop where
  rule : suffix.1.rule = rule
  has : g.Has suffix.1
  shape : g.suffixOf suffix.1 = some (suffix.2.roots token)
  valid : suffix.2.Valid g token

/-- A tree of a rule is a head, of a variant that is not left-recursive, with suffixes. The
induction is on the children. -/
theorem exists_plant {children : Forest N A} : ∀ {p : Production N}, (node p children nil).Valid g token →
    ∃ q below suffixes, node p children nil = plant (node q below nil) suffixes ∧ q.rule = p.rule ∧
      (node q below nil).Valid g token ∧ g.suffixOf q = none ∧ ∀ suffix ∈ suffixes, IsSuffix g token p.rule suffix := by
  have plain {p : Production N} {children : Forest N A} (valid : (node p children nil).Valid g token)
      (shape : g.suffixOf p = none) : ∃ q below suffixes, node p children nil = plant (node q below nil) suffixes ∧
        q.rule = p.rule ∧ (node q below nil).Valid g token ∧ g.suffixOf q = none ∧
        ∀ suffix ∈ suffixes, IsSuffix g token p.rule suffix :=
    ⟨p, children, [], rfl, rfl, valid, shape, nofun⟩
  induction children with
  | nil =>
    intro p valid
    refine plain valid (Option.eq_none_iff_forall_ne_some.mpr fun α shape => ?_)
    cases valid.2.1.trans (Grammar.suffixOf_eq_some.mp shape)
  | leaf a rest =>
    intro p valid
    refine plain valid (Option.eq_none_iff_forall_ne_some.mpr fun α shape => ?_)
    cases valid.2.1.trans (Grammar.suffixOf_eq_some.mp shape)
  | node q inner rest ih =>
    intro p valid
    cases shape : g.suffixOf p with
    | none => exact plain valid shape
    | some α =>
      obtain ⟨has, roots, validInner, _⟩ := valid
      obtain ⟨head, rfl⟩ := List.cons.inj (roots.trans (Grammar.suffixOf_eq_some.mp shape))
      have same : q.rule = p.rule := Symbol.nonterminal.inj head
      obtain ⟨hasInner, rootsInner, below, behind⟩ := validInner
      obtain ⟨o, lowest, suffixes, planted, rule, valid, none, all⟩ := ih ⟨hasInner, rootsInner, below, trivial⟩
      refine ⟨o, lowest, suffixes ++ [(p, rest)], ?_, rule.trans same, valid, none, ?_⟩
      · simp only [plant, List.foldl_append, List.foldl_cons, List.foldl_nil] at planted ⊢
        rw [← planted]
        rfl
      · intro suffix member
        rcases List.mem_append.mp member with member | member
        · exact same ▸ all suffix member
        · obtain rfl := List.mem_singleton.mp member
          exact ⟨rfl, has, shape, behind⟩

end Plants

section Predictive
variable [DecidableEq T] [DecidableEq N] {g : Grammar T N} {token : A → T} {look : Lookahead T N} {rules : List N}
  (headed : ∀ rule ∈ rules, look.headed g rules rule = true) {rule : N}
  (predictive : look.predictive g rules rule = true)

include predictive in
theorem predictive_readable {p : Production N} (same : p.rule = rule) (has : g.Has p)
    (live : look.live (g.elements p) = true) : look.readable g rules p = true := by
  subst same
  simp only [Lookahead.predictive, List.all_eq_true, Bool.and_eq_true] at predictive
  exact (predictive p (List.mem_filter.mpr ⟨Grammar.mem_productions.mpr has, live⟩)).1

include predictive in
theorem predictive_told {p q : Production N} (same : p.rule = rule) (other : q.rule = rule) (has : g.Has p)
    (hasOther : g.Has q) (live : look.live (g.elements p) = true)
    (liveOther : look.live (g.elements q) = true) :
    p = q ∨ look.told g p q = true := by
  subst same
  simp only [Lookahead.predictive, List.all_eq_true, Bool.and_eq_true, Bool.or_eq_true, decide_eq_true_eq] at predictive
  exact (predictive p (List.mem_filter.mpr ⟨Grammar.mem_productions.mpr has, live⟩)).2 q
    (List.mem_filter.mpr ⟨other ▸ Grammar.mem_productions.mpr hasOther, liveOther⟩)

omit [DecidableEq T] in
theorem live_suffix (begins : look.first rule ≠ []) {suffix : Production N × Forest N A}
    (is : IsSuffix g token rule suffix) : look.live (g.elements suffix.1) = true := by
  rw [Grammar.suffixOf_eq_some.mp is.shape, is.rule]
  simpa [Lookahead.live, Lookahead.starts] using begins

section Suffixes
variable (begins : look.first rule ≠ []) {suffix : Production N × Forest N A} (is : IsSuffix g token rule suffix)
  {suffixes : List (Production N × Forest N A)} (all : ∀ suffix ∈ suffixes, IsSuffix g token rule suffix) {r : List A}
include headed predictive begins

include is in
/-- A suffix begins with a token that continues the rule, and is not one that would continue a part
of it. -/
theorem suffix_first (allowed : ∀ a ∈ suffix.2.leaves, look.allowed (token a) = true) :
    ∃ a rest, suffix.2.leaves = a :: rest ∧ token a ∈ look.continues rule ∧ token a ∉ look.inner g rule := by
  have readable := predictive_readable predictive is.rule is.has (live_suffix begins is)
  have shape := is.shape
  simp only [Lookahead.readable, Bool.and_eq_true, Grammar.partOf, shape, Option.getD_some, List.all_eq_true] at readable
  cases roots : suffix.2.roots token with
  | nil => simp [roots] at readable
  | cons X α =>
    rw [roots] at readable shape
    obtain ⟨⟨_, known⟩, starts⟩ := readable
    obtain ⟨a, rest, leaves, first⟩ := exists_first headed is.valid roots (known X List.mem_cons_self) allowed
    refine ⟨a, rest, leaves, is.rule ▸ of_decide_eq_true (List.all_eq_true.mp starts _ first), fun inside => ?_⟩
    have starter : look.startsSuffix g rule (token a) = true :=
      List.any_eq_true.mpr ⟨suffix.1, is.rule ▸ Grammar.mem_productions.mpr is.has, by
        rw [shape]
        exact decide_eq_true first⟩
    exact absurd (starter.symm.trans (Lookahead.mem_inner.mp inside).2) (by decide)

include all in
theorem stops_inner (allowed : ∀ a ∈ suffixes.flatMap (fun suffix => suffix.2.leaves) ++ r, look.allowed (token a) = true)
    (stops : Stops token (look.continues rule) r) :
    Stops token (look.inner g rule) (suffixes.flatMap (fun suffix => suffix.2.leaves) ++ r) := by
  cases suffixes with
  | nil => exact stops.mono fun t inside => (Lookahead.mem_inner.mp inside).1
  | cons suffix suffixes =>
    obtain ⟨a, rest, leaves, _, outside⟩ := suffix_first headed predictive begins (all suffix List.mem_cons_self)
      fun a inside => allowed a (by simp [inside])
    rw [List.flatMap_cons, leaves]
    rintro _ ⟨⟩
    exact outside

include all is in
theorem suffix_reading
    (allowed : ∀ a ∈ suffix.2.leaves ++ (suffixes.flatMap (fun suffix => suffix.2.leaves) ++ r),
      look.allowed (token a) = true) (stops : Stops token (look.continues rule) r) :
    Reading g token look rules (look.inner g rule) (g.partOf suffix.1) suffix.2
      (suffixes.flatMap (fun suffix => suffix.2.leaves) ++ r) := by
  have readable := predictive_readable predictive is.rule is.has (live_suffix begins is)
  simp only [Lookahead.readable, Bool.and_eq_true, List.all_eq_true, is.rule] at readable
  refine ⟨readable.1.1, readable.1.2, is.valid, ?_, allowed, ?_⟩
  · rw [Grammar.partOf, is.shape, Option.getD_some]
  · exact stops_inner headed predictive begins all (fun a inside => allowed a (List.mem_append_right _ inside)) stops

end Suffixes

include headed predictive in
/-- The parts of two variants that are read from one input are those of one variant. -/
theorem parts_once {n : Nat} (smaller : ∀ t : Forest N A, t.size ≤ n → Unique g token look rules t)
    {p q : Production N} (same : p.rule = rule) (other : q.rule = rule) (has : g.Has p) (hasOther : g.Has q)
    (live : look.live (g.elements p) = true) (liveOther : look.live (g.elements q) = true)
    (kind : (g.suffixOf p).isSome = (g.suffixOf q).isSome) {f h : Forest N A} {r s : List A} (size : f.size ≤ n)
    (left : Reading g token look rules (look.inner g rule) (g.partOf p) f r)
    (right : Reading g token look rules (look.inner g rule) (g.partOf q) h s)
    (input : f.leaves ++ r = h.leaves ++ s) :
    p = q ∧ f = h ∧ r = s := by
  rcases predictive_told predictive same other has hasOther live liveOther with rfl | told
  · obtain ⟨_, trees, rest⟩ := reads_once headed smaller size (.inl rfl) left right input
    exact ⟨rfl, trees, rest⟩
  · simp only [Lookahead.told, kind, bne_self_eq_false, Bool.false_or, same] at told
    obtain ⟨parts, _, _⟩ := reads_once headed smaller size (.inr told) left right input
    rw [parts, Lookahead.parted_irrefl] at told
    cases told

include headed predictive in
/-- Two lists of suffixes that are read from one input are the same. -/
theorem suffixes_once (begins : look.first rule ≠ []) {n : Nat}
    (smaller : ∀ t : Forest N A, t.size ≤ n → Unique g token look rules t)
    {xs : List (Production N × Forest N A)} : ∀ {ys : List (Production N × Forest N A)} {r s : List A},
      (∀ x ∈ xs, IsSuffix g token rule x) → (∀ x ∈ xs, x.2.size ≤ n) → (∀ y ∈ ys, IsSuffix g token rule y) →
      xs.flatMap (fun x => x.2.leaves) ++ r = ys.flatMap (fun y => y.2.leaves) ++ s →
      (∀ a ∈ xs.flatMap (fun x => x.2.leaves) ++ r, look.allowed (token a) = true) →
      Stops token (look.continues rule) r → Stops token (look.continues rule) s → xs = ys ∧ r = s := by
  induction xs with
  | nil =>
    intro ys r s _ _ others same allowed stops _
    cases ys with
    | nil => exact ⟨rfl, same⟩
    | cons y ys =>
      rw [same] at allowed
      obtain ⟨a, rest, leaves, continues, _⟩ := suffix_first headed predictive begins (others y List.mem_cons_self)
        fun a inside => allowed a (by simp [inside])
      rw [List.flatMap_cons, leaves] at same
      exact absurd continues (stops a (congrArg List.head? same))
  | cons x xs ih =>
    intro ys r s all sizes others same allowed stops ends
    have is := all x List.mem_cons_self
    cases ys with
    | nil =>
      obtain ⟨a, rest, leaves, continues, _⟩ := suffix_first headed predictive begins is
        fun a inside => allowed a (by simp [inside])
      rw [List.flatMap_cons, leaves] at same
      exact absurd continues (ends a (congrArg List.head? same.symm))
    | cons y ys =>
      have is' := others y List.mem_cons_self
      have behind : ∀ x ∈ xs, IsSuffix g token rule x := fun z member => all z (List.mem_cons_of_mem _ member)
      have behind' : ∀ y ∈ ys, IsSuffix g token rule y := fun z member => others z (List.mem_cons_of_mem _ member)
      rw [List.flatMap_cons, List.append_assoc] at same allowed
      rw [List.flatMap_cons, List.append_assoc] at same
      have left := suffix_reading headed predictive begins is behind allowed stops
      have right := suffix_reading headed predictive begins is' behind' (same ▸ allowed) ends
      have kind : (g.suffixOf x.1).isSome = (g.suffixOf y.1).isSome := by rw [is.shape, is'.shape]; rfl
      obtain ⟨production, trees, rest⟩ := parts_once headed predictive smaller is.rule is'.rule is.has is'.has
        (live_suffix begins is) (live_suffix begins is') kind (sizes x List.mem_cons_self) left right same
      obtain ⟨rfl, rfl⟩ := ih behind (fun z member => sizes z (List.mem_cons_of_mem _ member)) behind' rest
        (fun a inside => allowed a (List.mem_append_right _ inside)) stops ends
      exact ⟨by rw [Prod.ext production trees], rfl⟩

include headed in
theorem live_of_valid {p : Production N} {children : Forest N A} (known : p.rule ∈ rules)
    (valid : (node p children nil).Valid g token)
    (allowed : ∀ a ∈ children.leaves, look.allowed (token a) = true) :
    look.live (g.elements p) = true := by
  obtain ⟨has, roots, below, _⟩ := valid
  have head := List.all_eq_true.mp (headed p.rule known) _ (Grammar.elements_mem has)
  cases shape : g.elements p with
  | nil =>
    rw [shape] at head
    cases head
  | cons X α =>
    rw [shape, Bool.and_eq_true] at head
    obtain ⟨_, _, _, first⟩ := exists_first headed below (roots.trans shape) head.1 allowed
    simpa [Lookahead.live] using List.ne_nil_of_mem first

include headed in
/-- A tree of a rule on the spine begins with one of the corner. The induction is on the children. -/
theorem exists_corner {spine : List N} {corner : N} {ops : List T} (subset : ∀ rule ∈ spine, rule ∈ rules)
    (cornered : ∀ rule ∈ spine, look.cornered g rules spine corner ops rule = true) {children : Forest N A} :
    ∀ {p : Production N}, (node p children nil).Valid g token → p.rule ∈ spine →
      (∀ a ∈ children.leaves, look.allowed (token a) = true) →
      ∃ (u : Forest N A) (s : List A), u.Valid g token ∧ u.roots token = [.nonterminal corner] ∧
        children.leaves = u.leaves ++ s ∧ (∀ a ∈ s.head?, token a ∈ ops) ∧ u.size ≤ children.size := by
  have shape {p : Production N} {children : Forest N A} (valid : (node p children nil).Valid g token)
      (member : p.rule ∈ spine) (allowed : ∀ a ∈ children.leaves, look.allowed (token a) = true) :
      ∃ X α, children.roots token = .nonterminal X :: α ∧ (X = corner ∨ X ∈ spine) ∧
        ∀ Y ∈ α.head?, Lookahead.known rules Y = true ∧ ∀ t ∈ look.starts Y, t ∈ ops := by
    have live := live_of_valid headed (subset _ member) valid allowed
    have check := List.all_eq_true.mp (cornered _ member) p
      (List.mem_filter.mpr ⟨Grammar.mem_productions.mpr valid.1, live⟩)
    rw [valid.2.1]
    split at check
    · rename_i X α elements
      simp only [Bool.and_eq_true, Bool.or_eq_true, decide_eq_true_eq] at check
      refine ⟨X, α, elements, check.1, fun Y head => ?_⟩
      cases α with
      | nil => cases head
      | cons Z β =>
        obtain rfl := Option.some.inj head
        simpa using check.2
    · cases check
  induction children with
  | nil =>
    intro p valid member allowed
    obtain ⟨X, α, roots, _⟩ := shape valid member allowed
    cases roots
  | leaf a rest =>
    intro p valid member allowed
    obtain ⟨X, α, roots, _⟩ := shape valid member allowed
    cases roots
  | node q inner rest ih =>
    intro p valid member allowed
    obtain ⟨X, α, roots, begins, onward⟩ := shape valid member allowed
    obtain ⟨head, rfl⟩ := List.cons.inj roots
    obtain rfl := Symbol.nonterminal.inj head
    obtain ⟨_, _, ⟨has, rootsInner, below, behind⟩, _⟩ := valid
    have here : (node q inner nil).Valid g token := ⟨has, rootsInner, below, trivial⟩
    -- what stands behind the first tree
    have ops : ∀ a ∈ rest.leaves.head?, token a ∈ ops := by
      intro a first
      cases roots : rest.roots token with
      | nil =>
        obtain rfl := roots_nil roots
        cases first
      | cons Y β =>
        obtain ⟨known, starts⟩ := onward Y (by rw [roots]; rfl)
        obtain ⟨b, more, leaves, begins⟩ := exists_first headed behind roots known fun a inside =>
          allowed a (List.mem_append_right _ inside)
        rw [leaves] at first
        cases first
        exact starts _ begins
    rcases begins with rfl | spine
    · exact ⟨node q inner nil, rest.leaves, here, rfl, by simp [leaves], ops, by simp [Forest.size]⟩
    · obtain ⟨u, s, valid, roots, input, head, size⟩ := ih here spine fun a inside =>
        allowed a (List.mem_append_left _ inside)
      refine ⟨u, s ++ rest.leaves, valid, roots, by rw [leaves, input, List.append_assoc], fun a first => ?_, ?_⟩
      · cases s with
        | nil => exact ops a first
        | cons b s => exact head a first
      · rw [Forest.size]
        omega

include headed in
/-- A tree of the rule, taken apart: its head and its suffixes, and where the head ends. -/
theorem Reading.plant {t : Forest N A} {r : List A}
    (reading : Reading g token look rules (look.continues rule) [.nonterminal rule] t r) :
    ∃ q below suffixes, t = Forest.plant (.node q below .nil) suffixes ∧ q.rule = rule ∧ g.Has q ∧
      g.suffixOf q = none ∧ look.live (g.elements q) = true ∧ look.first rule ≠ [] ∧
      (∀ suffix ∈ suffixes, IsSuffix g token rule suffix) ∧ below.Valid g token ∧ below.roots token = g.elements q ∧
      t.leaves ++ r = below.leaves ++ (suffixes.flatMap (fun suffix => suffix.2.leaves) ++ r) := by
  obtain ⟨p, children, rest, rfl, rfl, nothing⟩ := roots_nonterminal reading.roots
  obtain rfl := roots_nil nothing
  obtain ⟨q, below, suffixes, planted, rule, valid, none, all⟩ := exists_plant reading.valid
  obtain ⟨has, roots, validBelow, _⟩ := valid
  have input : (Forest.node p children .nil).leaves ++ r =
      below.leaves ++ (suffixes.flatMap (fun suffix => suffix.2.leaves) ++ r) := by
    rw [planted, plant_leaves]
    simp [leaves]
  have allowed : ∀ a ∈ below.leaves, look.allowed (token a) = true := fun a inside =>
    reading.allowed a (input ▸ List.mem_append_left _ inside)
  obtain ⟨_, _, _, begins⟩ := reading.first headed
  have known : q.rule ∈ rules := rule ▸ by simpa [Lookahead.known] using reading.known _ List.mem_cons_self
  exact ⟨q, below, suffixes, planted, rule, has, none, live_of_valid headed known ⟨has, roots, validBelow, trivial⟩ allowed,
    List.ne_nil_of_mem begins, all, validBelow, roots, input⟩

include headed predictive in
/-- A rule that passes the check reads an input once if its parts do. -/
theorem unique_of_predictive {p : Production N} {children : Forest N A} (same : p.rule = rule)
    (smaller : ∀ t : Forest N A, t.size ≤ children.size → Unique g token look rules t) :
    Unique g token look rules (.node p children .nil) := by
  intro rule' h r s reading other input
  obtain rfl : rule = rule' := same.symm.trans (Symbol.nonterminal.inj (List.cons.inj reading.roots).1)
  obtain ⟨q, below, xs, planted, ruleq, has, none, live, begins, all, valid, roots, left⟩ := reading.plant headed
  obtain ⟨q', below', ys, planted', ruleq', has', none', live', _, all', valid', roots', right⟩ := other.plant headed
  have size := plant_size (.node q below .nil) xs
  rw [← planted] at size
  simp only [Forest.size] at size
  have readable := predictive_readable predictive ruleq has live
  have readable' := predictive_readable predictive ruleq' has' live'
  simp only [Lookahead.readable, Bool.and_eq_true, List.all_eq_true, ruleq, ruleq'] at readable readable'
  have allowed := reading.allowed
  have allowed' := other.allowed
  rw [left] at allowed
  rw [right] at allowed'
  have behind := fun a inside => allowed a (List.mem_append_right _ inside)
  have behind' := fun a inside => allowed' a (List.mem_append_right _ inside)
  have first : Reading g token look rules (look.inner g rule) (g.partOf q) below _ :=
    ⟨readable.1.1, readable.1.2, valid, by rw [Grammar.partOf, none]; exact roots, allowed,
      stops_inner headed predictive begins all behind reading.stops⟩
  have first' : Reading g token look rules (look.inner g rule) (g.partOf q') below' _ :=
    ⟨readable'.1.1, readable'.1.2, valid', by rw [Grammar.partOf, none']; exact roots', allowed',
      stops_inner headed predictive begins all' behind' other.stops⟩
  obtain ⟨rfl, rfl, rest⟩ := parts_once headed predictive smaller ruleq ruleq' has has' live live'
    (by rw [none, none']) (by omega) first first' (left.symm.trans (input.trans right))
  have sizes : ∀ x ∈ xs, x.2.size ≤ children.size := fun x member => by
    have below := size.2 x member
    omega
  obtain ⟨rfl, rfl⟩ := suffixes_once headed predictive begins smaller all sizes all' rest behind reading.stops
    other.stops
  exact ⟨planted.trans planted'.symm, rfl⟩

end Predictive
end Forest

end Lr
