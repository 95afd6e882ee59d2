import Mathlib.Computability.ContextFreeGrammar
import Mathlib.Data.Finset.Union

/-!
# Augmented grammars

A context-free grammar given by the ordered right-hand sides of every
nonterminal. The root has the start symbol as its only right-hand side, as the
grammars of LR parser generators do. `cfg` is the same grammar in Mathlib's
form, which fixes what a sentence is.
-/

namespace Lr

structure Grammar (T N : Type) where
  variants : N → List (List (Symbol T N))
  root : N
  start : N
  augmented : variants root = [[.nonterminal start]]

/-- A production is named by its nonterminal and the index of its right-hand side. -/
structure Production (N : Type) where
  rule : N
  variant : Nat
  deriving DecidableEq, Repr

variable {T N : Type}

namespace Grammar

def elements (g : Grammar T N) (p : Production N) : List (Symbol T N) :=
  ((g.variants p.rule)[p.variant]?).getD []

def Has (g : Grammar T N) (p : Production N) : Prop :=
  p.variant < (g.variants p.rule).length

instance (g : Grammar T N) (p : Production N) : Decidable (g.Has p) :=
  inferInstanceAs (Decidable (p.variant < (g.variants p.rule).length))

def NoEmpty (g : Grammar T N) : Prop :=
  ∀ rule, ∀ v ∈ g.variants rule, v ≠ []

/-- The end marker is not a terminal of the grammar. -/
def EofFree (g : Grammar T N) (eof : T) : Prop := ∀ p, g.Has p → .terminal eof ∉ g.elements p

theorem elements_mem {g : Grammar T N} {p : Production N} (h : g.Has p) :
    g.elements p ∈ g.variants p.rule := by
  simp only [elements, List.getElem?_eq_getElem h, Option.getD_some]
  exact List.getElem_mem h

theorem mem_variants_iff {g : Grammar T N} {rule : N} {v : List (Symbol T N)} :
    v ∈ g.variants rule ↔ ∃ i, g.Has ⟨rule, i⟩ ∧ g.elements ⟨rule, i⟩ = v := by
  constructor
  · intro member
    obtain ⟨i, bound, same⟩ := List.mem_iff_getElem.mp member
    exact ⟨i, bound, by simp [elements, List.getElem?_eq_getElem bound, same]⟩
  · rintro ⟨i, bound, rfl⟩
    exact elements_mem bound

theorem elements_ne_nil {g : Grammar T N} (noEmpty : g.NoEmpty) {p : Production N} (h : g.Has p) :
    g.elements p ≠ [] := noEmpty _ _ (elements_mem h)

@[simp] theorem elements_root (g : Grammar T N) : g.elements ⟨g.root, 0⟩ = [.nonterminal g.start] := by
  simp [elements, g.augmented]

theorem has_root_iff {g : Grammar T N} {i : Nat} : g.Has ⟨g.root, i⟩ ↔ i = 0 := by
  simp [Has, g.augmented]

/-- `α` yields the word `w`: one constructor for each way its first symbol is expanded. -/
inductive Yields (g : Grammar T N) : List (Symbol T N) → List T → Prop where
  | nil : Yields g [] []
  | terminal {t : T} {β : List (Symbol T N)} {w : List T} :
      Yields g β w → Yields g (.terminal t :: β) (t :: w)
  | nonterminal {A : N} {v β : List (Symbol T N)} {w₁ w₂ : List T} :
      v ∈ g.variants A → Yields g v w₁ → Yields g β w₂ → Yields g (.nonterminal A :: β) (w₁ ++ w₂)

theorem yields_append {g : Grammar T N} {α β : List (Symbol T N)} {w₁ w₂ : List T}
    (left : g.Yields α w₁) (right : g.Yields β w₂) : g.Yields (α ++ β) (w₁ ++ w₂) := by
  induction left with
  | nil => exact right
  | terminal _ ih => exact .terminal ih
  | nonterminal member head _ _ ih =>
    rw [List.append_assoc]
    exact .nonterminal member head ih

theorem yields_append_split {g : Grammar T N} {α β : List (Symbol T N)} {w : List T}
    (h : g.Yields (α ++ β) w) : ∃ w₁ w₂, w = w₁ ++ w₂ ∧ g.Yields α w₁ ∧ g.Yields β w₂ := by
  induction α generalizing w with
  | nil => exact ⟨[], w, rfl, .nil, h⟩
  | cons symbol α ih =>
    cases h with
    | terminal rest =>
      obtain ⟨w₁, w₂, rfl, left, right⟩ := ih rest
      exact ⟨_ :: w₁, w₂, rfl, .terminal left, right⟩
    | nonterminal member head rest =>
      obtain ⟨w₁, w₂, rfl, left, right⟩ := ih rest
      exact ⟨_ ++ w₁, w₂, (List.append_assoc ..).symm, .nonterminal member head left, right⟩

theorem yields_terminals (g : Grammar T N) (w : List T) : g.Yields (w.map .terminal) w := by
  induction w with
  | nil => exact .nil
  | cons t w ih => exact .terminal ih

theorem yields_ne_nil {g : Grammar T N} (noEmpty : g.NoEmpty) {α : List (Symbol T N)} {w : List T}
    (h : g.Yields α w) (nonempty : α ≠ []) : w ≠ [] := by
  induction h with
  | nil => exact absurd rfl nonempty
  | terminal => exact List.cons_ne_nil _ _
  | nonterminal member _ _ head _ => simp [head (noEmpty _ _ member)]

/-! ### The same grammar in Mathlib's form -/

section Language
variable [Fintype N] [DecidableEq T] [DecidableEq N]

def cfg (g : Grammar T N) : ContextFreeGrammar T where
  NT := N
  initial := g.root
  rules := Finset.univ.biUnion fun rule =>
    ((g.variants rule).map fun v => (⟨rule, v⟩ : ContextFreeRule T N)).toFinset

theorem mem_cfg_rules {g : Grammar T N} {r : ContextFreeRule T N} :
    r ∈ g.cfg.rules ↔ r.output ∈ g.variants r.input := by
  constructor
  · intro member
    obtain ⟨rule, _, listed⟩ := Finset.mem_biUnion.mp member
    obtain ⟨v, present, rfl⟩ := List.mem_map.mp (List.mem_toFinset.mp listed)
    exact present
  · intro present
    exact Finset.mem_biUnion.mpr ⟨r.input, Finset.mem_univ _,
      List.mem_toFinset.mpr (List.mem_map.mpr ⟨r.output, present, rfl⟩)⟩

theorem yields_of_produces {g : Grammar T N} {α β : List (Symbol T N)} {w : List T}
    (step : g.cfg.Produces α β) (h : g.Yields β w) : g.Yields α w := by
  obtain ⟨r, member, rewrites⟩ := step
  obtain ⟨p, q, rfl, rfl⟩ := rewrites.exists_parts
  rw [List.append_assoc] at h
  obtain ⟨w₁, _, rfl, left, h⟩ := yields_append_split h
  obtain ⟨w₂, w₃, rfl, middle, right⟩ := yields_append_split h
  rw [List.append_assoc]
  exact yields_append left (.nonterminal (mem_cfg_rules.mp member) middle right)

theorem yields_of_derives {g : Grammar T N} {α : List (Symbol T N)} {w : List T}
    (h : g.cfg.Derives α (w.map .terminal)) : g.Yields α w := by
  induction h using Relation.ReflTransGen.head_induction_on with
  | refl => exact yields_terminals g w
  | head step _ ih => exact yields_of_produces step ih

theorem produces_of_mem {g : Grammar T N} {A : N} {v : List (Symbol T N)} (member : v ∈ g.variants A) :
    g.cfg.Produces [.nonterminal A] v :=
  ⟨⟨A, v⟩, mem_cfg_rules.mpr member, ContextFreeRule.Rewrites.input_output⟩

theorem derives_of_yields {g : Grammar T N} {α : List (Symbol T N)} {w : List T}
    (h : g.Yields α w) : g.cfg.Derives α (w.map .terminal) := by
  induction h with
  | nil => exact ContextFreeGrammar.Derives.refl _
  | terminal _ ih => exact ih.append_left [_]
  | @nonterminal A v β w₁ w₂ member _ _ head tail =>
    have first : g.cfg.Derives [.nonterminal A] (w₁.map .terminal) :=
      (produces_of_mem member).trans_derives head
    rw [List.map_append]
    exact (first.append_right β).trans (tail.append_left (w₁.map .terminal))

/-- A sentence in Mathlib's sense is a word that the root yields. -/
theorem mem_language_iff {g : Grammar T N} {w : List T} :
    w ∈ g.cfg.language ↔ g.Yields [.nonterminal g.root] w :=
  ⟨yields_of_derives, derives_of_yields⟩

end Language

/-! ### First tokens -/

/-- The tokens that can stand first in what a symbol derives, found through first symbols. -/
inductive First (g : Grammar T N) : Symbol T N → T → Prop where
  | terminal (t : T) : First g (.terminal t) t
  | variant {p : Production N} {X : Symbol T N} {β : List (Symbol T N)} {t : T} :
      g.Has p → g.elements p = X :: β → First g X t → First g (.nonterminal p.rule) t

theorem first_of_yields {g : Grammar T N} (noEmpty : g.NoEmpty) {α : List (Symbol T N)} {w : List T}
    (h : g.Yields α w) : ∀ {X β t u}, α = X :: β → w = t :: u → g.First X t := by
  induction h with
  | nil => intro X β t u cons; cases cons
  | terminal =>
    rintro X β t u ⟨⟩ ⟨⟩
    exact .terminal _
  | @nonterminal A v γ w₁ w₂ member head _ ihead _ =>
    rintro X β t u ⟨⟩ word
    obtain ⟨i, has, rfl⟩ := mem_variants_iff.mp member
    obtain ⟨s, w₁, rfl⟩ := List.exists_cons_of_ne_nil (yields_ne_nil noEmpty head (noEmpty _ _ member))
    obtain ⟨Y, ζ, shape⟩ := List.exists_cons_of_ne_nil (noEmpty _ _ member)
    obtain ⟨rfl, _⟩ := List.cons.inj word
    exact .variant has shape (ihead shape rfl)

/-! ### Sentential forms -/

/-- One symbol string rewrites to another by expanding nonterminals. -/
inductive Derives (g : Grammar T N) : List (Symbol T N) → List (Symbol T N) → Prop where
  | refl (α : List (Symbol T N)) : Derives g α α
  | step {α β ζ : List (Symbol T N)} {p : Production N} : g.Has p →
      Derives g ζ (α ++ .nonterminal p.rule :: β) → Derives g ζ (α ++ (g.elements p ++ β))

theorem yields_of_derived {g : Grammar T N} {α ζ : List (Symbol T N)} {w : List T}
    (h : g.Derives ζ α) (yields : g.Yields α w) : g.Yields ζ w := by
  induction h with
  | refl => exact yields
  | step has _ ih =>
    obtain ⟨w₁, _, rfl, left, rest⟩ := yields_append_split yields
    obtain ⟨w₂, w₃, rfl, middle, right⟩ := yields_append_split rest
    exact ih (yields_append left (.nonterminal (elements_mem has) middle right))

theorem first_derives {g : Grammar T N} {X : Symbol T N} {t : T} (first : g.First X t)
    {ζ α β : List (Symbol T N)} (h : g.Derives ζ (α ++ X :: β)) :
    ∃ δ, g.Derives ζ (α ++ .terminal t :: δ) := by
  induction first generalizing β with
  | terminal => exact ⟨β, h⟩
  | @variant p X ξ t has shape _ ih =>
    have expanded := Derives.step has h
    rw [shape, List.cons_append] at expanded
    exact ih expanded

def Productive (g : Grammar T N) : Prop := ∀ A, ∃ w, g.Yields [.nonterminal A] w

theorem yields_some {g : Grammar T N} (productive : g.Productive) (α : List (Symbol T N)) :
    ∃ w, g.Yields α w := by
  induction α with
  | nil => exact ⟨[], .nil⟩
  | cons X α ih =>
    obtain ⟨w, tail⟩ := ih
    cases X with
    | terminal t => exact ⟨t :: w, .terminal tail⟩
    | nonterminal A =>
      obtain ⟨u, head⟩ := productive A
      exact ⟨u ++ w, yields_append head tail⟩

/-- With a word for every nonterminal, the first tokens are what words begin with. -/
theorem first_iff_begins {g : Grammar T N} (noEmpty : g.NoEmpty) (productive : g.Productive)
    {X : Symbol T N} {t : T} : g.First X t ↔ ∃ w, g.Yields [X] (t :: w) := by
  constructor
  · intro first
    obtain ⟨δ, derived⟩ := first_derives first (.refl ([] ++ X :: []))
    obtain ⟨w, tail⟩ := yields_some productive δ
    exact ⟨w, yields_of_derived derived (.terminal tail)⟩
  · rintro ⟨w, word⟩
    exact first_of_yields noEmpty word rfl rfl

/-! ### Rightmost derivations -/

/-- `Rightmost g α ps β`: expanding the rightmost nonterminal by the productions `ps` in turn
takes `α` to `β`. -/
inductive Rightmost (g : Grammar T N) :
    List (Symbol T N) → List (Production N) → List (Symbol T N) → Prop where
  | refl (α : List (Symbol T N)) : Rightmost g α [] α
  | step {α β : List (Symbol T N)} {p : Production N} {ps : List (Production N)} (w : List T) :
      g.Has p → Rightmost g (α ++ (g.elements p ++ w.map .terminal)) ps β →
      Rightmost g (α ++ .nonterminal p.rule :: w.map .terminal) (p :: ps) β

theorem rightmost_trans {g : Grammar T N} {α β δ : List (Symbol T N)} {ps qs : List (Production N)}
    (first : g.Rightmost α ps β) (second : g.Rightmost β qs δ) : g.Rightmost α (ps ++ qs) δ := by
  induction first with
  | refl => exact second
  | step w has _ ih => exact .step w has (ih second)

theorem yields_of_rightmost {g : Grammar T N} {α β : List (Symbol T N)} {ps : List (Production N)}
    (h : g.Rightmost α ps β) {w : List T} (yields : g.Yields β w) : g.Yields α w := by
  induction h with
  | refl => exact yields
  | step _ has _ ih =>
    obtain ⟨w₁, _, rfl, left, rest⟩ := yields_append_split (ih yields)
    obtain ⟨w₂, w₃, rfl, middle, right⟩ := yields_append_split rest
    exact yields_append left (.nonterminal (elements_mem has) middle right)

end Grammar

end Lr
