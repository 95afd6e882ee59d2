import LowCompiler.Lr.Items

/-!
# First tokens along a chain of nonterminals

A depth-first search for first tokens cuts off at nonterminals that are already
on its path. It loses nothing: a shortest path repeats no nonterminal. The same
holds of a search for empty productions, which would stop it.
-/

namespace Lr
namespace Grammar

variable {T N : Type} {g : Grammar T N}

/-- `First` along a path that avoids the nonterminals of `chain` and repeats none. -/
inductive FirstAvoiding (g : Grammar T N) : List N → Symbol T N → T → Prop where
  | terminal (chain : List N) (t : T) : FirstAvoiding g chain (.terminal t) t
  | variant {chain : List N} {p : Production N} {X : Symbol T N} {β : List (Symbol T N)} {t : T} :
      p.rule ∉ chain → g.Has p → g.elements p = X :: β → FirstAvoiding g (p.rule :: chain) X t →
      FirstAvoiding g chain (.nonterminal p.rule) t

/-- `First` along a path of a given length. -/
inductive FirstIn (g : Grammar T N) : Nat → Symbol T N → T → Prop where
  | terminal (t : T) : FirstIn g 0 (.terminal t) t
  | variant {n : Nat} {p : Production N} {X : Symbol T N} {β : List (Symbol T N)} {t : T} :
      g.Has p → g.elements p = X :: β → FirstIn g n X t → FirstIn g (n + 1) (.nonterminal p.rule) t

theorem FirstAvoiding.first {chain : List N} {X : Symbol T N} {t : T} (h : g.FirstAvoiding chain X t) :
    g.First X t := by
  induction h with
  | terminal => exact .terminal _
  | variant _ has shape _ ih => exact .variant has shape ih

theorem First.firstIn {X : Symbol T N} {t : T} (h : g.First X t) : ∃ n, g.FirstIn n X t := by
  induction h with
  | terminal => exact ⟨0, .terminal _⟩
  | variant has shape _ ih => exact ih.imp' (· + 1) fun _ path => .variant has shape path

theorem firstAvoiding_nonterminal {chain : List N} {A : N} {t : T} :
    g.FirstAvoiding chain (.nonterminal A) t ↔
      A ∉ chain ∧ ∃ v ∈ g.variants A, ∃ X β, v = X :: β ∧ g.FirstAvoiding (A :: chain) X t := by
  constructor
  · intro found
    generalize same : Symbol.nonterminal A = symbol at found
    cases found with
    | terminal => cases same
    | variant fresh has shape found =>
      obtain rfl := Symbol.nonterminal.inj same
      exact ⟨fresh, _, elements_mem has, _, _, shape, found⟩
  · rintro ⟨fresh, v, member, X, β, shape, found⟩
    obtain ⟨i, has, same⟩ := mem_variants_iff.mp member
    exact .variant fresh has (same.trans shape) found

/-- A path either avoids the chain or passes through one of its nonterminals, from where it is
shorter. -/
theorem FirstIn.avoiding {n : Nat} {X : Symbol T N} {t : T} (h : g.FirstIn n X t) (chain : List N) :
    g.FirstAvoiding chain X t ∨ ∃ A ∈ chain, ∃ m ≤ n, g.FirstIn m (.nonterminal A) t := by
  induction n using Nat.strong_induction_on generalizing X chain with
  | _ n ih =>
  cases h with
  | terminal => exact Or.inl (.terminal _ _)
  | @variant n p X β _ has shape path =>
    by_cases seen : p.rule ∈ chain
    · exact Or.inr ⟨p.rule, seen, n + 1, Nat.le_refl _, .variant has shape path⟩
    · rcases ih n (Nat.lt_succ_self n) path (p.rule :: chain) with direct | ⟨A, member, m, le, again⟩
      · exact Or.inl (.variant seen has shape direct)
      · rcases List.mem_cons.mp member with rfl | member
        · rcases ih m (by omega) again chain with direct | ⟨B, member, k, le', short⟩
          · exact Or.inl direct
          · exact Or.inr ⟨B, member, k, by omega, short⟩
        · exact Or.inr ⟨A, member, m, by omega, again⟩

theorem first_iff_avoiding {X : Symbol T N} {t : T} : g.First X t ↔ g.FirstAvoiding [] X t := by
  constructor
  · intro first
    obtain ⟨n, path⟩ := first.firstIn
    rcases path.avoiding [] with direct | ⟨A, member, _⟩
    · exact direct
    · cases member
  · exact FirstAvoiding.first

/-! ### Empty productions -/

/-- A search for the first tokens of the symbol comes to an empty production. -/
inductive MeetsEmpty (g : Grammar T N) : Symbol T N → Prop where
  | here {p : Production N} : g.Has p → g.elements p = [] → MeetsEmpty g (.nonterminal p.rule)
  | variant {p : Production N} {X : Symbol T N} {β : List (Symbol T N)} :
      g.Has p → g.elements p = X :: β → MeetsEmpty g X → MeetsEmpty g (.nonterminal p.rule)

/-- `MeetsEmpty` along a path that avoids the nonterminals of `chain` and repeats none. -/
inductive MeetsEmptyAvoiding (g : Grammar T N) : List N → Symbol T N → Prop where
  | here {chain : List N} {p : Production N} :
      p.rule ∉ chain → g.Has p → g.elements p = [] → MeetsEmptyAvoiding g chain (.nonterminal p.rule)
  | variant {chain : List N} {p : Production N} {X : Symbol T N} {β : List (Symbol T N)} :
      p.rule ∉ chain → g.Has p → g.elements p = X :: β → MeetsEmptyAvoiding g (p.rule :: chain) X →
      MeetsEmptyAvoiding g chain (.nonterminal p.rule)

/-- `MeetsEmpty` along a path of a given length. -/
inductive MeetsEmptyIn (g : Grammar T N) : Nat → Symbol T N → Prop where
  | here {p : Production N} : g.Has p → g.elements p = [] → MeetsEmptyIn g 0 (.nonterminal p.rule)
  | variant {n : Nat} {p : Production N} {X : Symbol T N} {β : List (Symbol T N)} :
      g.Has p → g.elements p = X :: β → MeetsEmptyIn g n X → MeetsEmptyIn g (n + 1) (.nonterminal p.rule)

theorem MeetsEmptyAvoiding.meetsEmpty {chain : List N} {X : Symbol T N} (h : g.MeetsEmptyAvoiding chain X) :
    g.MeetsEmpty X := by
  induction h with
  | here _ has empty => exact .here has empty
  | variant _ has shape _ ih => exact .variant has shape ih

theorem MeetsEmpty.meetsEmptyIn {X : Symbol T N} (h : g.MeetsEmpty X) : ∃ n, g.MeetsEmptyIn n X := by
  induction h with
  | here has empty => exact ⟨0, .here has empty⟩
  | variant has shape _ ih => exact ih.imp' (· + 1) fun _ path => .variant has shape path

theorem meetsEmptyAvoiding_nonterminal {chain : List N} {A : N} :
    g.MeetsEmptyAvoiding chain (.nonterminal A) ↔ A ∉ chain ∧
      ∃ v ∈ g.variants A, v = [] ∨ ∃ X β, v = X :: β ∧ g.MeetsEmptyAvoiding (A :: chain) X := by
  constructor
  · intro meets
    generalize same : Symbol.nonterminal A = symbol at meets
    cases meets with
    | here fresh has empty =>
      obtain rfl := Symbol.nonterminal.inj same
      exact ⟨fresh, _, elements_mem has, Or.inl empty⟩
    | variant fresh has shape meets =>
      obtain rfl := Symbol.nonterminal.inj same
      exact ⟨fresh, _, elements_mem has, Or.inr ⟨_, _, shape, meets⟩⟩
  · rintro ⟨fresh, v, member, empty | ⟨X, β, shape, meets⟩⟩
    · obtain ⟨i, has, same⟩ := mem_variants_iff.mp member
      exact .here fresh has (same.trans empty)
    · obtain ⟨i, has, same⟩ := mem_variants_iff.mp member
      exact .variant fresh has (same.trans shape) meets

theorem meetsEmpty_of_variant {A : N} {v : List (Symbol T N)} (member : v ∈ g.variants A)
    (meets : v = [] ∨ ∃ X β, v = X :: β ∧ g.MeetsEmpty X) : g.MeetsEmpty (.nonterminal A) := by
  obtain ⟨i, has, same⟩ := mem_variants_iff.mp member
  rcases meets with empty | ⟨X, β, shape, meets⟩
  · exact .here has (same.trans empty)
  · exact .variant has (same.trans shape) meets

/-- Here too a path avoids the chain or is shorter from one of its nonterminals. -/
theorem MeetsEmptyIn.avoiding {n : Nat} {X : Symbol T N} (h : g.MeetsEmptyIn n X) (chain : List N) :
    g.MeetsEmptyAvoiding chain X ∨ ∃ A ∈ chain, ∃ m ≤ n, g.MeetsEmptyIn m (.nonterminal A) := by
  induction n using Nat.strong_induction_on generalizing X chain with
  | _ n ih =>
  cases h with
  | @here p has empty =>
    by_cases seen : p.rule ∈ chain
    · exact Or.inr ⟨p.rule, seen, 0, Nat.le_refl _, .here has empty⟩
    · exact Or.inl (.here seen has empty)
  | @variant n p X β has shape path =>
    by_cases seen : p.rule ∈ chain
    · exact Or.inr ⟨p.rule, seen, n + 1, Nat.le_refl _, .variant has shape path⟩
    · rcases ih n (Nat.lt_succ_self n) path (p.rule :: chain) with direct | ⟨A, member, m, le, again⟩
      · exact Or.inl (.variant seen has shape direct)
      · rcases List.mem_cons.mp member with rfl | member
        · rcases ih m (by omega) again chain with direct | ⟨B, member, k, le', short⟩
          · exact Or.inl direct
          · exact Or.inr ⟨B, member, k, by omega, short⟩
        · exact Or.inr ⟨A, member, m, by omega, again⟩

theorem meetsEmpty_iff_avoiding {X : Symbol T N} : g.MeetsEmpty X ↔ g.MeetsEmptyAvoiding [] X := by
  constructor
  · intro meets
    obtain ⟨n, path⟩ := meets.meetsEmptyIn
    rcases path.avoiding [] with direct | ⟨A, member, _⟩
    · exact direct
    · cases member
  · exact MeetsEmptyAvoiding.meetsEmpty

theorem NoEmpty.not_meetsEmpty (noEmpty : g.NoEmpty) {X : Symbol T N} : ¬g.MeetsEmpty X := by
  intro meets
  induction meets with
  | here has empty => exact elements_ne_nil noEmpty has empty
  | variant _ _ _ ih => exact ih

/-- The first tokens of what stands behind the nonterminal after the dot cannot be searched. -/
def Blocked (g : Grammar T N) (c : Core N) : Prop :=
  ∃ A Y, g.next c = some (.nonterminal A) ∧ g.next c.advance = some Y ∧ g.MeetsEmpty Y

theorem NoEmpty.not_blocked (noEmpty : g.NoEmpty) (c : Core N) : ¬g.Blocked c := by
  rintro ⟨A, Y, _, _, meets⟩
  exact NoEmpty.not_meetsEmpty noEmpty meets

end Grammar
end Lr
