import LowCompiler.Lr.Grammar

/-!
# Leads and lookaheads

`Lead γ c` and `Look γ c t` describe the LR(1) item set reached over a stack
`γ` of symbols (the top first): which productions with a dot are in it, and
which lookahead tokens they carry. A lead whose lookaheads are empty still
expands here, as it does in a generator that keeps one token set per lead.
`Item` is the textbook form, where an item exists only with a lookahead.
-/

namespace Lr

/-- A production with a dot in it. -/
structure Core (N : Type) where
  production : Production N
  position : Nat
  deriving DecidableEq, Repr

variable {T N : Type}

def Core.advance (c : Core N) : Core N := { c with position := c.position + 1 }

@[simp] theorem Core.advance_production (c : Core N) : c.advance.production = c.production := rfl

@[simp] theorem Core.advance_position (c : Core N) : c.advance.position = c.position + 1 := rfl

namespace Grammar

/-- The symbol after the dot; none when the lead is complete. -/
def next (g : Grammar T N) (c : Core N) : Option (Symbol T N) := (g.elements c.production)[c.position]?

@[simp] theorem next_advance (g : Grammar T N) (c : Core N) :
    g.next c.advance = (g.elements c.production)[c.position + 1]? := rfl

theorem drop_of_next {g : Grammar T N} {c : Core N} {X : Symbol T N} (h : g.next c = some X) :
    (g.elements c.production).drop c.position = X :: (g.elements c.production).drop (c.position + 1) := by
  obtain ⟨bound, rfl⟩ := List.getElem?_eq_some_iff.mp h
  exact List.drop_eq_getElem_cons bound

theorem next_of_drop {g : Grammar T N} {c : Core N} {X : Symbol T N} {β : List (Symbol T N)}
    (h : (g.elements c.production).drop c.position = X :: β) : g.next c = some X := by
  rw [next, ← List.head?_drop, h, List.head?_cons]

theorem next_eq_none {g : Grammar T N} {c : Core N} :
    g.next c = none ↔ (g.elements c.production).length ≤ c.position := List.getElem?_eq_none_iff

inductive Lead (g : Grammar T N) : List (Symbol T N) → Core N → Prop where
  | root : Lead g [] ⟨⟨g.root, 0⟩, 0⟩
  | expand {γ : List (Symbol T N)} {c : Core N} {p : Production N} :
      Lead g γ c → g.next c = some (.nonterminal p.rule) → g.Has p → Lead g γ ⟨p, 0⟩
  | advance {γ : List (Symbol T N)} {c : Core N} {X : Symbol T N} :
      Lead g γ c → g.next c = some X → Lead g (X :: γ) c.advance

inductive Look (g : Grammar T N) (eof : T) : List (Symbol T N) → Core N → T → Prop where
  | root : Look g eof [] ⟨⟨g.root, 0⟩, 0⟩ eof
  | first {γ : List (Symbol T N)} {c : Core N} {p : Production N} {Y : Symbol T N} {t : T} :
      Lead g γ c → g.next c = some (.nonterminal p.rule) → g.next c.advance = some Y →
      g.First Y t → g.Has p → Look g eof γ ⟨p, 0⟩ t
  | inherit {γ : List (Symbol T N)} {c : Core N} {p : Production N} {t : T} :
      Look g eof γ c t → g.next c = some (.nonterminal p.rule) → g.next c.advance = none →
      g.Has p → Look g eof γ ⟨p, 0⟩ t
  | advance {γ : List (Symbol T N)} {c : Core N} {X : Symbol T N} {t : T} :
      Look g eof γ c t → g.next c = some X → Look g eof (X :: γ) c.advance t

/-- The canonical LR(1) item sets: `Item γ c t` says that `[c, t]` is in the set reached over `γ`. -/
inductive Item (g : Grammar T N) (eof : T) : List (Symbol T N) → Core N → T → Prop where
  | root : Item g eof [] ⟨⟨g.root, 0⟩, 0⟩ eof
  | first {γ : List (Symbol T N)} {c : Core N} {p : Production N} {Y : Symbol T N} {t u : T} :
      Item g eof γ c u → g.next c = some (.nonterminal p.rule) → g.next c.advance = some Y →
      g.First Y t → g.Has p → Item g eof γ ⟨p, 0⟩ t
  | inherit {γ : List (Symbol T N)} {c : Core N} {p : Production N} {t : T} :
      Item g eof γ c t → g.next c = some (.nonterminal p.rule) → g.next c.advance = none →
      g.Has p → Item g eof γ ⟨p, 0⟩ t
  | advance {γ : List (Symbol T N)} {c : Core N} {X : Symbol T N} {t : T} :
      Item g eof γ c t → g.next c = some X → Item g eof (X :: γ) c.advance t

variable {g : Grammar T N} {eof : T} {γ : List (Symbol T N)} {c : Core N} {p : Production N} {t : T}

theorem Look.lead (h : g.Look eof γ c t) : g.Lead γ c := by
  induction h with
  | root => exact .root
  | first lead next _ _ has => exact .expand lead next has
  | inherit _ next _ has ih => exact .expand ih next has
  | advance _ next ih => exact .advance ih next

theorem Item.look (h : g.Item eof γ c t) : g.Look eof γ c t := by
  induction h with
  | root => exact .root
  | first _ next after first has ih => exact .first ih.lead next after first has
  | inherit _ next after has ih => exact .inherit ih next after has
  | advance _ next ih => exact .advance ih next

theorem Lead.has (h : g.Lead γ c) : g.Has c.production := by
  induction h with
  | root => exact has_root_iff.mpr rfl
  | expand _ _ has => exact has
  | advance _ _ ih => exact ih

theorem Lead.position_le (h : g.Lead γ c) : c.position ≤ (g.elements c.production).length := by
  cases h with
  | root => exact Nat.zero_le _
  | expand => exact Nat.zero_le _
  | advance _ next => exact (List.getElem?_eq_some_iff.mp next).1

theorem take_succ_reverse (next : g.next c = some X) :
    ((g.elements c.production).take (c.position + 1)).reverse =
      X :: ((g.elements c.production).take c.position).reverse := by
  rw [List.take_add_one, show (g.elements c.production)[c.position]? = some X from next]
  simp

/-- The symbols before the dot lie on top of the stack, and below them the production starts. -/
theorem Lead.stack (h : g.Lead γ c) :
    ∃ base, γ = ((g.elements c.production).take c.position).reverse ++ base ∧
      g.Lead base ⟨c.production, 0⟩ := by
  induction h with
  | root => exact ⟨[], by simp, .root⟩
  | @expand γ c p lead next has => exact ⟨γ, by simp, .expand lead next has⟩
  | @advance γ c X _ next ih =>
    obtain ⟨base, rfl, start⟩ := ih
    exact ⟨base, by simp [take_succ_reverse next], start⟩

theorem Look.stack (h : g.Look eof γ c t) :
    ∃ base, γ = ((g.elements c.production).take c.position).reverse ++ base ∧
      g.Look eof base ⟨c.production, 0⟩ t := by
  induction h with
  | root => exact ⟨[], by simp, .root⟩
  | @first γ c p Y t lead next after first has => exact ⟨γ, by simp, .first lead next after first has⟩
  | @inherit γ c p t look next after has => exact ⟨γ, by simp, .inherit look next after has⟩
  | @advance γ c X t _ next ih =>
    obtain ⟨base, rfl, start⟩ := ih
    exact ⟨base, by simp [take_succ_reverse next], start⟩

/-- A lead with the dot at the start is the root's, or some lead waits for its nonterminal. -/
theorem Lead.waiting (h : g.Lead γ ⟨p, 0⟩) :
    (γ = [] ∧ p = ⟨g.root, 0⟩) ∨ ∃ c, g.Lead γ c ∧ g.next c = some (.nonterminal p.rule) := by
  generalize same : (⟨p, 0⟩ : Core N) = d at h
  cases h with
  | root => exact Or.inl ⟨rfl, (Core.mk.inj same).1⟩
  | expand lead next _ =>
    obtain rfl := (Core.mk.inj same).1
    exact Or.inr ⟨_, lead, next⟩
  | advance => simp [Core.advance] at same

/-- A nonempty item set over a nonempty stack comes from a lead waiting for the top symbol. -/
theorem Lead.pushed {X : Symbol T N} (h : g.Lead (X :: γ) c) : ∃ d, g.Lead γ d ∧ g.next d = some X := by
  generalize same : X :: γ = δ at h
  induction h with
  | root => cases same
  | expand _ _ _ ih => exact ih same
  | advance lead next _ =>
    obtain ⟨rfl, rfl⟩ := List.cons.inj same
    exact ⟨_, lead, next⟩

/-- The first tokens of the symbol after a dot can be shifted. -/
theorem Lead.shift_first {X : Symbol T N} (h : g.Lead γ c) (next : g.next c = some X) (first : g.First X t) :
    ∃ d, g.Lead γ d ∧ g.next d = some (.terminal t) := by
  induction first generalizing c with
  | terminal => exact ⟨c, h, next⟩
  | @variant p Y β t has shape _ ih =>
    exact ih (.expand h next has) (next_of_drop (by rw [List.drop_zero]; exact shape))

theorem Lead.reachable (h : g.Lead γ c) :
    ∃ δ, g.Derives [.nonterminal g.root]
      (γ.reverse ++ ((g.elements c.production).drop c.position ++ δ)) := by
  induction h with
  | root => exact ⟨[], by simpa using @Derives.step _ _ g [] [] _ _ (has_root_iff.mpr rfl) (.refl _)⟩
  | @expand γ c p _ next has ih =>
    obtain ⟨δ, derived⟩ := ih
    rw [drop_of_next next, List.cons_append] at derived
    exact ⟨_, by simpa using Derives.step has derived⟩
  | @advance γ c X _ next ih =>
    obtain ⟨δ, derived⟩ := ih
    rw [drop_of_next next] at derived
    exact ⟨δ, by simpa using derived⟩

/-- What follows a lead with lookahead `t` in a sentential form starts with `t`, or is empty when
`t` stands for the end. -/
theorem Look.reachable (h : g.Look eof γ c t) :
    ∃ δ, g.Derives [.nonterminal g.root]
        (γ.reverse ++ ((g.elements c.production).drop c.position ++ δ)) ∧
      ((δ = [] ∧ t = eof) ∨ ∃ ζ, δ = .terminal t :: ζ) := by
  induction h with
  | root =>
    exact ⟨[], by simpa using @Derives.step _ _ g [] [] _ _ (has_root_iff.mpr rfl) (.refl _), by simp⟩
  | @first γ c p Y t lead next after first has =>
    obtain ⟨δ, derived⟩ := lead.reachable
    have waiting : (g.elements c.production).drop (c.position + 1) =
        Y :: (g.elements c.production).drop (c.position + 1 + 1) := drop_of_next after
    rw [drop_of_next next, waiting, List.cons_append, List.cons_append] at derived
    have split : ∀ ζ : List (Symbol T N), γ.reverse ++ .nonterminal p.rule :: ζ =
        (γ.reverse ++ [.nonterminal p.rule]) ++ ζ := by simp
    rw [split] at derived
    obtain ⟨ζ, shifted⟩ := first_derives first derived
    rw [List.append_assoc, List.singleton_append] at shifted
    exact ⟨.terminal t :: ζ, by simpa using Derives.step has shifted, Or.inr ⟨ζ, rfl⟩⟩
  | @inherit γ c p t _ next after has ih =>
    obtain ⟨δ, derived, follow⟩ := ih
    have complete : (g.elements c.production).drop (c.position + 1) = [] :=
      List.drop_eq_nil_of_le (next_eq_none.mp after)
    rw [drop_of_next next, complete, List.cons_append, List.nil_append] at derived
    exact ⟨δ, by simpa using Derives.step has derived, follow⟩
  | @advance γ c X t _ next ih =>
    obtain ⟨δ, derived, follow⟩ := ih
    rw [drop_of_next next] at derived
    exact ⟨δ, by simpa using derived, follow⟩

/-- When every nonterminal is productive, every lead has a lookahead. -/
theorem Lead.item (productive : g.Productive) (noEmpty : g.NoEmpty) (h : g.Lead γ c) :
    ∃ t, g.Item eof γ c t := by
  induction h with
  | root => exact ⟨eof, .root⟩
  | @expand γ c p _ next has ih =>
    obtain ⟨u, item⟩ := ih
    cases after : g.next c.advance with
    | none => exact ⟨u, .inherit item next after has⟩
    | some Y =>
      obtain ⟨w, yields⟩ := yields_some productive [Y]
      obtain ⟨t, w, rfl⟩ := List.exists_cons_of_ne_nil
        (yields_ne_nil noEmpty yields (List.cons_ne_nil _ _))
      exact ⟨t, .first item next after (first_of_yields noEmpty yields rfl rfl) has⟩
  | advance _ next ih =>
    obtain ⟨u, item⟩ := ih
    exact ⟨u, .advance item next⟩

/-- Then the lookaheads are those of the textbook form. -/
theorem look_iff_item (productive : g.Productive) (noEmpty : g.NoEmpty) :
    g.Look eof γ c t ↔ g.Item eof γ c t := by
  constructor
  · intro h
    induction h with
    | root => exact .root
    | first lead next after first has =>
      obtain ⟨u, item⟩ := lead.item productive noEmpty
      exact .first item next after first has
    | inherit _ next after has ih => exact .inherit ih next after has
    | advance _ next ih => exact .advance ih next
  · exact Item.look

/-- Nothing but the root's own lead starts the root, when no right-hand side mentions it. -/
theorem Look.root_only (fresh : ∀ p, g.Has p → .nonterminal g.root ∉ g.elements p) {i : Nat}
    (h : g.Look eof γ ⟨⟨g.root, i⟩, 0⟩ t) : γ = [] ∧ t = eof := by
  have unreferenced : ∀ {δ d}, g.Lead δ d → g.next d = some (.nonterminal g.root) → False :=
    fun lead next => fresh _ lead.has (List.mem_of_getElem? next)
  generalize same : (⟨⟨g.root, i⟩, 0⟩ : Core N) = d at h
  cases h with
  | root => exact ⟨rfl, rfl⟩
  | first lead next _ _ _ =>
    obtain rfl := (Core.mk.inj same).1
    exact (unreferenced lead next).elim
  | inherit look next _ _ =>
    obtain rfl := (Core.mk.inj same).1
    exact (unreferenced look.lead next).elim
  | advance => simp [Core.advance] at same

/-! ### Reachable rules -/

/-- The rules that the root mentions, the ones that these mention, and so on. -/
inductive Reaches (g : Grammar T N) : N → Prop where
  | root : Reaches g g.root
  | mention {p : Production N} {A : N} :
      Reaches g p.rule → g.Has p → .nonterminal A ∈ g.elements p → Reaches g A

theorem Lead.reaches (h : g.Lead γ c) : g.Reaches c.production.rule := by
  induction h with
  | root => exact .root
  | expand lead next _ ih => exact .mention ih lead.has (List.mem_of_getElem? next)
  | advance _ _ ih => exact ih

/-- The dot moves to every position of a production. -/
theorem Lead.dot {position : Nat} (h : g.Lead γ ⟨p, 0⟩) (inside : position ≤ (g.elements p).length) :
    ∃ δ, g.Lead δ ⟨p, position⟩ := by
  induction position with
  | zero => exact ⟨γ, h⟩
  | succ position ih =>
    obtain ⟨δ, lead⟩ := ih (by omega)
    have next : g.next ⟨p, position⟩ = some (g.elements p)[position] := List.getElem?_eq_getElem inside
    exact ⟨_, .advance lead next⟩

theorem Reaches.lead {A : N} (h : g.Reaches A) (rule : p.rule = A) (has : g.Has p) : ∃ δ, g.Lead δ ⟨p, 0⟩ := by
  induction h generalizing p with
  | root =>
    obtain ⟨A, i⟩ := p
    obtain rfl : A = g.root := rule
    obtain rfl := has_root_iff.mp has
    exact ⟨[], .root⟩
  | @mention q A _ known member ih =>
    obtain ⟨δ, start⟩ := ih rfl known
    obtain ⟨position, bound, symbol⟩ := List.mem_iff_getElem.mp member
    obtain ⟨ζ, lead⟩ := start.dot (Nat.le_of_lt bound)
    have next : g.next ⟨q, position⟩ = some (.nonterminal p.rule) := by
      rw [rule, ← symbol]
      exact List.getElem?_eq_getElem bound
    exact ⟨ζ, .expand lead next has⟩

/-- The productions of the reachable rules are the ones over some stack, at every position of the dot. -/
theorem exists_lead_iff : (∃ δ, g.Lead δ c) ↔
    g.Reaches c.production.rule ∧ g.Has c.production ∧ c.position ≤ (g.elements c.production).length := by
  constructor
  · rintro ⟨δ, lead⟩
    exact ⟨lead.reaches, lead.has, lead.position_le⟩
  · rintro ⟨reaches, has, inside⟩
    obtain ⟨δ, start⟩ := reaches.lead rfl has
    exact start.dot inside

end Grammar

end Lr
