import LowCompiler.Lexer.Token
import LowCompiler.Lr.Grammar
import Mathlib.Algebra.GroupWithZero.Nat

/-!
# Rules and variants

`rule_t` and `variant_t` of `grammar.h`. Rules are named by a type `R`, whose
order stands for the order of their addresses. A variant lists the entries of
its `elements` array before the terminating null, so none of them is token 0,
and the list of a rule's variants ends before the null variant.
-/

namespace Low

structure Variant (R : Type) where
  elements : List (Symbol Token R)
  reducer : Option String
  reducerTag : Int

/-- The rules of `GRAMMAR` with the root rule that `grammar.c` adds to them. -/
structure Grammar (R : Type) where
  variants : R → List (Variant R)
  root : R
  grammarRoot : R
  root_variants : variants root = [⟨[.nonterminal grammarRoot], some "0 /* accept */", 0⟩]
  nonzero : ∀ rule, ∀ v ∈ variants rule, .terminal .INVALID ∉ v.elements

variable {R : Type}

/-- Entry `index` of a variant's elements; none is the terminating null, `{0, 0}` in the source. -/
def variantGetSymbol (self : Variant R) (index : Nat) : Option (Symbol Token R) := self.elements[index]?

namespace Grammar

/-- The variant at an index of a rule's array, the null variant past its end. -/
def variant (G : Grammar R) (rule : R) (index : Nat) : Variant R :=
  ((G.variants rule)[index]?).getD ⟨[], none, 0⟩

/-- The grammar without its reducers. -/
def lr (G : Grammar R) : Lr.Grammar Token R where
  variants rule := (G.variants rule).map Variant.elements
  root := G.root
  start := G.grammarRoot
  augmented := by simp [G.root_variants]

@[simp] theorem lr_root (G : Grammar R) : G.lr.root = G.root := rfl

theorem mem_lr_variants {G : Grammar R} {rule : R} {α : List (Symbol Token R)} :
    α ∈ G.lr.variants rule ↔ ∃ v ∈ G.variants rule, v.elements = α := List.mem_map

@[simp] theorem lr_elements (G : Grammar R) (rule : R) (index : Nat) :
    G.lr.elements ⟨rule, index⟩ = (G.variant rule index).elements := by
  simp only [Lr.Grammar.elements, lr, variant, List.getElem?_map]
  cases (G.variants rule)[index]? <;> rfl

theorem lr_has {G : Grammar R} {rule : R} {index : Nat} :
    G.lr.Has ⟨rule, index⟩ ↔ index < (G.variants rule).length := by
  simp [Lr.Grammar.Has, lr]

theorem variant_mem {G : Grammar R} {rule : R} {index : Nat} (h : G.lr.Has ⟨rule, index⟩) :
    G.variant rule index ∈ G.variants rule := by
  have bound := lr_has.mp h
  simp [variant, List.getElem?_eq_getElem bound]

def NoEmpty (G : Grammar R) : Prop := ∀ rule, ∀ v ∈ G.variants rule, v.elements ≠ []

instance [Fintype R] (G : Grammar R) : Decidable G.NoEmpty :=
  inferInstanceAs (Decidable (∀ rule, ∀ v ∈ G.variants rule, v.elements ≠ []))

theorem NoEmpty.lr {G : Grammar R} (noEmpty : G.NoEmpty) : G.lr.NoEmpty := by
  intro rule v member
  obtain ⟨v, present, rfl⟩ := mem_lr_variants.mp member
  exact noEmpty rule v present

def EofFree (G : Grammar R) : Prop := ∀ rule, ∀ v ∈ G.variants rule, .terminal .EOF ∉ v.elements

def RootFree (G : Grammar R) : Prop := ∀ rule, ∀ v ∈ G.variants rule, .nonterminal G.root ∉ v.elements

instance [Fintype R] [DecidableEq R] (G : Grammar R) : Decidable G.EofFree :=
  inferInstanceAs (Decidable (∀ rule, ∀ v ∈ G.variants rule, .terminal .EOF ∉ v.elements))

instance [Fintype R] [DecidableEq R] (G : Grammar R) : Decidable G.RootFree :=
  inferInstanceAs (Decidable (∀ rule, ∀ v ∈ G.variants rule, .nonterminal G.root ∉ v.elements))

theorem lr_elements_mem {G : Grammar R} {p : Lr.Production R} (h : G.lr.Has p) :
    ∃ v ∈ G.variants p.rule, v.elements = G.lr.elements p :=
  ⟨_, variant_mem h, (lr_elements G p.rule p.variant).symm⟩

theorem EofFree.lr {G : Grammar R} (free : G.EofFree) : G.lr.EofFree .EOF := by
  intro p has
  obtain ⟨v, member, same⟩ := lr_elements_mem has
  exact same ▸ free p.rule v member

theorem RootFree.lr {G : Grammar R} (free : G.RootFree) {p : Lr.Production R} (has : G.lr.Has p) :
    .nonterminal G.lr.root ∉ G.lr.elements p := by
  obtain ⟨v, member, same⟩ := lr_elements_mem has
  exact same ▸ free p.rule v member

theorem nonzero_element {G : Grammar R} {p : Lr.Production R} (h : G.lr.Has p) :
    .terminal .INVALID ∉ G.lr.elements p := by
  rw [lr_elements]
  exact G.nonzero p.rule _ (variant_mem h)

/-- The first tokens of a symbol are tokens. -/
theorem first_ne_invalid {G : Grammar R} {X : Symbol Token R} {t : Token} (first : G.lr.First X t)
    (symbol : X ≠ .terminal .INVALID) : t ≠ .INVALID := by
  induction first with
  | terminal t => exact fun zero => symbol (congrArg Symbol.terminal zero)
  | @variant p X β t has shape _ ih =>
    apply ih
    rintro rfl
    have absent := nonzero_element has
    rw [shape] at absent
    exact absent List.mem_cons_self

end Grammar

/-- The smallest grammars have one rule besides the root. -/
instance twoRules : NeZero 2 := ⟨Nat.succ_ne_zero 1⟩

end Low
