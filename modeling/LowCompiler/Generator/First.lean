import LowCompiler.Lr.First
import LowCompiler.Worklist
import LowCompiler.Grammar.Rules
import LowCompiler.Generator.TokenSet

/-!
# First tokens of a symbol

`gather_first` of the parser generator. Its recursion is cut off by the chain
of rules above it. `gatherFirst_error` shows that it ends, since the chain only
grows and repeats no rule, and `gatherFirst_ok` that it finds every first token.
-/

namespace Low

/-- How the generator stops without a result: an assertion of the source fails, or the model runs
out of fuel. -/
inductive Abort where
  | noEmptyRules
  | syntaxError
  | shiftReduceConflict
  | reduceReduceConflict
  | outOfBounds
  | outOfFuel
  deriving DecidableEq, Repr

def assertion (condition : Bool) (failure : Abort) : Except Abort Unit :=
  if condition then .ok () else .error failure

theorem ok_bind {ε α β : Type} (a : α) (k : α → Except ε β) : ((Except.ok a : Except ε α) >>= k) = k a := rfl

theorem assertion_bind {α : Type} {condition : Bool} {failure : Abort} {k : Unit → Except Abort α}
    (holds : condition = true) : (assertion condition failure >>= k) = k () := by
  subst holds
  rfl

variable {R : Type} [DecidableEq R]

def gatherFirst (G : Grammar R) :
    Nat → TokenSet → Option (Symbol Token R) → List R → Except Abort TokenSet
  | _, _, none, _ => .error .noEmptyRules
  | _, first, some (.terminal token), _ => .ok (tokenSetInsert first token)
  | 0, _, some (.nonterminal _), _ => .error .outOfFuel
  | fuel + 1, first, some (.nonterminal rule), chain =>
    if rule ∈ chain then .ok first
    else
      (G.variants rule).foldlM
        (fun first variant => gatherFirst G fuel first (variantGetSymbol variant 0) (rule :: chain)) first

section Correct
variable {G : Grammar R}

/-- The search of a rule finds what its variants begin with, and none of them is empty. -/
theorem gatherFirst_variants {fuel : Nat} {chain : List R}
    (each : ∀ first X out, gatherFirst G fuel first (some X) chain = .ok out →
      (∀ t, t ∈ out ↔ t ∈ first ∨ G.lr.FirstAvoiding chain X t) ∧ ¬G.lr.MeetsEmptyAvoiding chain X)
    {variants : List (Variant R)} {first out : TokenSet}
    (run : variants.foldlM (fun first v => gatherFirst G fuel first (variantGetSymbol v 0) chain) first = .ok out) :
    (∀ t, t ∈ out ↔ t ∈ first ∨ ∃ v ∈ variants, ∃ X β, v.elements = X :: β ∧ G.lr.FirstAvoiding chain X t) ∧
      ∀ v ∈ variants, ∃ X β, v.elements = X :: β ∧ ¬G.lr.MeetsEmptyAvoiding chain X := by
  induction variants generalizing first with
  | nil =>
    obtain rfl := Except.ok.inj run
    simp
  | cons v rest ih =>
    obtain ⟨middle, head, run⟩ := Worklist.foldlM_cons_ok run
    obtain ⟨tailSpec, others⟩ := ih run
    cases shape : v.elements with
    | nil =>
      rw [show variantGetSymbol v 0 = none by simp [variantGetSymbol, shape]] at head
      cases fuel <;> simp [gatherFirst] at head
    | cons X β =>
      rw [show variantGetSymbol v 0 = some X by simp [variantGetSymbol, shape]] at head
      obtain ⟨headSpec, free⟩ := each first X middle head
      constructor
      · intro t
        rw [tailSpec, headSpec]
        constructor
        · rintro ((old | new) | ⟨v', member, found⟩)
          · exact Or.inl old
          · exact Or.inr ⟨v, List.mem_cons_self, X, β, shape, new⟩
          · exact Or.inr ⟨v', List.mem_cons_of_mem _ member, found⟩
        · rintro (old | ⟨v', member, Y, ζ, shape', found⟩)
          · exact Or.inl (Or.inl old)
          · rcases List.mem_cons.mp member with rfl | member
            · obtain ⟨rfl, _⟩ := List.cons.inj (shape.symm.trans shape')
              exact Or.inl (Or.inr found)
            · exact Or.inr ⟨v', member, Y, ζ, shape', found⟩
      · intro v' member
        rcases List.mem_cons.mp member with rfl | member
        · exact ⟨X, β, shape, free⟩
        · exact others v' member

theorem gatherFirst_terminal {fuel : Nat} {chain : List R} {first out : TokenSet} {s : Token}
    (run : gatherFirst G fuel first (some (.terminal s)) chain = .ok out) :
    (∀ t, t ∈ out ↔ t ∈ first ∨ G.lr.FirstAvoiding chain (.terminal s) t) ∧
      ¬G.lr.MeetsEmptyAvoiding chain (.terminal s) := by
  simp only [gatherFirst] at run
  obtain rfl := Except.ok.inj run
  refine ⟨fun t => ?_, nofun⟩
  rw [TokenSet.mem_insert]
  refine or_congr_right ⟨?_, ?_⟩
  · rintro rfl
    exact .terminal _ _
  · rintro ⟨⟩
    rfl

/-- The search adds the first tokens that it reaches without repeating a rule of the chain, and on
its way there is no empty variant. -/
theorem gatherFirst_avoiding {fuel : Nat} {chain : List R} {first out : TokenSet} {X : Symbol Token R}
    (run : gatherFirst G fuel first (some X) chain = .ok out) :
    (∀ t, t ∈ out ↔ t ∈ first ∨ G.lr.FirstAvoiding chain X t) ∧ ¬G.lr.MeetsEmptyAvoiding chain X := by
  induction fuel generalizing chain first X out with
  | zero =>
    cases X with
    | terminal s => exact gatherFirst_terminal run
    | nonterminal rule => cases run
  | succ fuel ih =>
    cases X with
    | terminal s => exact gatherFirst_terminal run
    | nonterminal rule =>
      simp only [gatherFirst] at run
      rw [Lr.Grammar.meetsEmptyAvoiding_nonterminal]
      simp only [Lr.Grammar.firstAvoiding_nonterminal]
      by_cases seen : rule ∈ chain
      · rw [if_pos seen] at run
        obtain rfl := Except.ok.inj run
        simp [seen]
      · rw [if_neg seen] at run
        obtain ⟨spec, free⟩ := gatherFirst_variants (fun _ _ _ => ih) run
        constructor
        · intro t
          rw [spec, and_iff_right seen]
          simp only [Grammar.mem_lr_variants, exists_exists_and_eq_and]
        · rintro ⟨_, _, listed, meets⟩
          obtain ⟨v, member, rfl⟩ := Grammar.mem_lr_variants.mp listed
          obtain ⟨X, β, shape, none⟩ := free v member
          rcases meets with empty | ⟨Y, ζ, shape', meets⟩
          · cases shape.symm.trans empty
          · obtain ⟨rfl, _⟩ := List.cons.inj (shape.symm.trans shape')
            exact none meets

/-- A search that ends returns the first tokens of the symbol, and has met no empty variant. -/
theorem gatherFirst_ok {fuel : Nat} {first out : TokenSet} {X : Symbol Token R}
    (run : gatherFirst G fuel first (some X) [] = .ok out) :
    (∀ t, t ∈ out ↔ t ∈ first ∨ G.lr.First X t) ∧ ¬G.lr.MeetsEmpty X := by
  obtain ⟨spec, free⟩ := gatherFirst_avoiding run
  rw [Lr.Grammar.meetsEmpty_iff_avoiding]
  refine ⟨fun t => ?_, free⟩
  rw [spec, Lr.Grammar.first_iff_avoiding]

/-- The search of a rule fails where one of its variants is empty or the search of its first symbol
fails. -/
theorem gatherFirst_variants_error {fuel : Nat} {chain : List R} {e : Abort}
    (each : ∀ first X, gatherFirst G fuel first (some X) chain = .error e → e = .noEmptyRules ∧ G.lr.MeetsEmpty X)
    {variants : List (Variant R)} {first : TokenSet}
    (run : variants.foldlM (fun first v => gatherFirst G fuel first (variantGetSymbol v 0) chain) first = .error e) :
    e = .noEmptyRules ∧
      ∃ v ∈ variants, v.elements = [] ∨ ∃ X β, v.elements = X :: β ∧ G.lr.MeetsEmpty X := by
  induction variants generalizing first with
  | nil => cases run
  | cons v rest ih =>
    rcases Worklist.foldlM_cons_error run with head | ⟨middle, _, run⟩
    · cases shape : v.elements with
      | nil =>
        rw [show variantGetSymbol v 0 = none by simp [variantGetSymbol, shape]] at head
        refine ⟨?_, v, List.mem_cons_self, Or.inl shape⟩
        cases fuel <;> exact (Except.error.inj head).symm
      | cons X β =>
        rw [show variantGetSymbol v 0 = some X by simp [variantGetSymbol, shape]] at head
        obtain ⟨is, meets⟩ := each first X head
        exact ⟨is, v, List.mem_cons_self, Or.inr ⟨X, β, shape, meets⟩⟩
    · obtain ⟨is, v', member, meets⟩ := ih run
      exact ⟨is, v', List.mem_cons_of_mem _ member, meets⟩

variable [Fintype R]

/-- A search with fuel for every rule fails on an empty variant only. -/
theorem gatherFirst_error {fuel : Nat} {chain : List R} {first : TokenSet} {X : Symbol Token R} {e : Abort}
    (nodup : chain.Nodup) (enough : Fintype.card R < fuel + chain.length)
    (run : gatherFirst G fuel first (some X) chain = .error e) : e = .noEmptyRules ∧ G.lr.MeetsEmpty X := by
  induction fuel generalizing chain first X with
  | zero =>
    have bound := nodup.length_le_card
    omega
  | succ fuel ih =>
    cases X with
    | terminal s => simp [gatherFirst] at run
    | nonterminal rule =>
      simp only [gatherFirst] at run
      by_cases seen : rule ∈ chain
      · rw [if_pos seen] at run
        cases run
      · rw [if_neg seen] at run
        have nodup' : (rule :: chain).Nodup := List.nodup_cons.mpr ⟨seen, nodup⟩
        have enough' : Fintype.card R < fuel + (rule :: chain).length := by
          rw [List.length_cons]
          omega
        obtain ⟨is, v, member, meets⟩ := gatherFirst_variants_error (fun _ _ => ih nodup' enough') run
        have listed : v.elements ∈ G.lr.variants rule := Grammar.mem_lr_variants.mpr ⟨v, member, rfl⟩
        exact ⟨is, Lr.Grammar.meetsEmpty_of_variant listed meets⟩

/-- Without empty variants every search with fuel for every rule ends. -/
theorem gatherFirst_ends (noEmpty : G.NoEmpty) {fuel : Nat} (enough : Fintype.card R < fuel) (first : TokenSet)
    (X : Symbol Token R) : ∃ out, gatherFirst G fuel first (some X) [] = .ok out := by
  cases run : gatherFirst G fuel first (some X) [] with
  | ok out => exact ⟨out, rfl⟩
  | error e =>
    obtain ⟨_, meets⟩ := gatherFirst_error List.nodup_nil enough run
    exact absurd meets noEmpty.lr.not_meetsEmpty

/-- Left recursion does not keep the search from ending, and the chain that cuts it off hides no
token. -/
theorem gatherFirst_exact (noEmpty : G.NoEmpty) (first : TokenSet) {X : Symbol Token R}
    (symbol : X ≠ .terminal .INVALID) :
    ∃ out, (∀ fuel, Fintype.card R < fuel → gatherFirst G fuel first (some X) [] = .ok out) ∧
      (∀ t, t ∈ out ↔ t ∈ first ∨ G.lr.First X t) ∧ (∀ t, G.lr.First X t → t ≠ .INVALID) ∧
      (G.lr.Productive → ∀ t, t ∈ out ↔ t ∈ first ∨ ∃ w, G.lr.Yields [X] (t :: w)) := by
  obtain ⟨out, run⟩ := gatherFirst_ends noEmpty (Nat.lt_succ_self (Fintype.card R)) first X
  obtain ⟨spec, _⟩ := gatherFirst_ok run
  refine ⟨out, ?_, spec, fun t found => Grammar.first_ne_invalid found symbol, ?_⟩
  · intro fuel enough
    obtain ⟨other, again⟩ := gatherFirst_ends noEmpty enough first X
    obtain ⟨spec', _⟩ := gatherFirst_ok again
    have same : other = out := TokenSet.ext fun t => (spec' t).trans (spec t).symm
    rw [again, same]
  · intro productive t
    rw [spec, Lr.Grammar.first_iff_begins noEmpty.lr productive]

end Correct

inductive CrossRule where
  | root
  | a
  | b
  deriving DecidableEq

instance : Fintype CrossRule where
  elems := {.root, .a, .b}
  complete rule := by cases rule <;> decide

/-- Left recursion through two rules and through one: `a: b IDENT | NUMBER_LITERAL`,
`b: a COMMA | b PERIOD | IDENT`. -/
def crossGrammar : Grammar CrossRule where
  variants
    | .root => [⟨[.nonterminal .a], some "0 /* accept */", 0⟩]
    | .a => [⟨[.nonterminal .b, .terminal .IDENT], none, 0⟩, ⟨[.terminal .NUMBER_LITERAL], none, 0⟩]
    | .b =>
      [⟨[.nonterminal .a, .terminal .COMMA], none, 0⟩, ⟨[.nonterminal .b, .terminal .PERIOD], none, 0⟩,
        ⟨[.terminal .IDENT], none, 0⟩]
  root := .root
  grammarRoot := .a
  root_variants := rfl
  nonzero := by decide

theorem crossGrammar_productive : crossGrammar.lr.Productive := by
  have number : crossGrammar.lr.Yields [.terminal .NUMBER_LITERAL] [.NUMBER_LITERAL] := .terminal .nil
  have ident : crossGrammar.lr.Yields [.terminal .IDENT] [.IDENT] := .terminal .nil
  have a : crossGrammar.lr.Yields [.nonterminal .a] [.NUMBER_LITERAL] :=
    .nonterminal (List.mem_cons_of_mem _ List.mem_cons_self) number .nil
  have listed : [.terminal .IDENT] ∈ crossGrammar.lr.variants .b :=
    List.mem_cons_of_mem _ (List.mem_cons_of_mem _ List.mem_cons_self)
  intro rule
  cases rule with
  | root => exact ⟨[.NUMBER_LITERAL], .nonterminal List.mem_cons_self a .nil⟩
  | a => exact ⟨[.NUMBER_LITERAL], a⟩
  | b => exact ⟨[.IDENT], .nonterminal listed ident .nil⟩

/-- Both rules are searched from either of them, and a sentence begins with what either has found. -/
theorem gatherFirst_exact_cross :
    ∃ out, gatherFirst crossGrammar 4 tokenSetInit (some (.nonterminal .a)) [] = .ok out ∧
      out.tokens = [.IDENT, .NUMBER_LITERAL] ∧
      ∀ t, t ∈ out ↔ ∃ w, crossGrammar.lr.Yields [.nonterminal .a] (t :: w) := by
  have evaluated : (gatherFirst crossGrammar 4 tokenSetInit (some (.nonterminal .a)) []).map
      TokenSet.tokens = .ok [.IDENT, .NUMBER_LITERAL] := by decide
  have noEmpty : crossGrammar.NoEmpty := by decide
  have symbol : Symbol.nonterminal CrossRule.a ≠ .terminal Token.INVALID := nofun
  obtain ⟨out, ends, _, _, begins⟩ := gatherFirst_exact noEmpty tokenSetInit symbol
  have run := ends 4 (by decide)
  rw [run] at evaluated
  refine ⟨out, run, Except.ok.inj evaluated, ?_⟩
  intro t
  rw [begins crossGrammar_productive]
  simp

end Low
