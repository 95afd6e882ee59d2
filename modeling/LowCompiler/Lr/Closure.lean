import LowCompiler.Lr.Items

/-!
# Closures of sets of items

The items that expansion reaches from given ones. `ClosedItem` is the textbook form, where
an item is a core with one lookahead. `ClosedLead` and `ClosedLook` also expand a core that
has no lookahead; `closedLook_iff` says when this makes no difference.
-/

namespace Lr
namespace Grammar

variable {T N : Type}

/-- The cores that expansion reaches from the cores `S`. -/
inductive ClosedLead (g : Grammar T N) (S : Core N → Prop) : Core N → Prop where
  | seed {c : Core N} : S c → ClosedLead g S c
  | expand {c : Core N} {p : Production N} :
      ClosedLead g S c → g.next c = some (.nonterminal p.rule) → g.Has p → ClosedLead g S ⟨p, 0⟩

/-- The lookaheads that come with them, from the lookaheads `L`. -/
inductive ClosedLook (g : Grammar T N) (S : Core N → Prop) (L : Core N → T → Prop) : Core N → T → Prop where
  | seed {c : Core N} {t : T} : L c t → ClosedLook g S L c t
  | first {c : Core N} {p : Production N} {Y : Symbol T N} {t : T} :
      ClosedLead g S c → g.next c = some (.nonterminal p.rule) → g.next c.advance = some Y →
      g.First Y t → g.Has p → ClosedLook g S L ⟨p, 0⟩ t
  | inherit {c : Core N} {p : Production N} {t : T} :
      ClosedLook g S L c t → g.next c = some (.nonterminal p.rule) → g.next c.advance = none →
      g.Has p → ClosedLook g S L ⟨p, 0⟩ t

/-- The items that expansion reaches from the items `L`. -/
inductive ClosedItem (g : Grammar T N) (L : Core N → T → Prop) : Core N → T → Prop where
  | seed {c : Core N} {t : T} : L c t → ClosedItem g L c t
  | first {c : Core N} {p : Production N} {Y : Symbol T N} {t u : T} :
      ClosedItem g L c u → g.next c = some (.nonterminal p.rule) → g.next c.advance = some Y →
      g.First Y t → g.Has p → ClosedItem g L ⟨p, 0⟩ t
  | inherit {c : Core N} {p : Production N} {t : T} :
      ClosedItem g L c t → g.next c = some (.nonterminal p.rule) → g.next c.advance = none →
      g.Has p → ClosedItem g L ⟨p, 0⟩ t

variable {g : Grammar T N} {S : Core N → Prop} {L : Core N → T → Prop} {c : Core N} {t : T}

theorem ClosedItem.lead (seeds : ∀ c t, L c t → S c) (h : g.ClosedItem L c t) : g.ClosedLead S c := by
  induction h with
  | seed given => exact .seed (seeds _ _ given)
  | first _ next _ _ has ih => exact .expand ih next has
  | inherit _ next _ has ih => exact .expand ih next has

theorem ClosedItem.look (seeds : ∀ c t, L c t → S c) (h : g.ClosedItem L c t) : g.ClosedLook S L c t := by
  induction h with
  | seed given => exact .seed given
  | first item next after first has _ => exact .first (item.lead seeds) next after first has
  | inherit _ next after has ih => exact .inherit ih next after has

/-- If each seed has a lookahead, and each symbol behind a nonterminal to expand has a first token,
then every core has one. -/
theorem ClosedLead.item (seeds : ∀ c, S c → ∃ t, L c t)
    (firsts : ∀ c A Y, g.ClosedLead S c → g.next c = some (.nonterminal A) → g.next c.advance = some Y → ∃ t, g.First Y t)
    (h : g.ClosedLead S c) : ∃ t, g.ClosedItem L c t := by
  induction h with
  | seed given =>
    obtain ⟨t, look⟩ := seeds _ given
    exact ⟨t, .seed look⟩
  | @expand c p lead next has ih =>
    obtain ⟨u, item⟩ := ih
    cases after : g.next c.advance with
    | none => exact ⟨u, .inherit item next after has⟩
    | some Y =>
      obtain ⟨t, first⟩ := firsts c p.rule Y lead next after
      exact ⟨t, .first item next after first has⟩

/-- Then no lookahead depends on a core without one. -/
theorem closedLook_iff (known : ∀ c t, L c t → S c) (seeds : ∀ c, S c → ∃ t, L c t)
    (firsts : ∀ c A Y, g.ClosedLead S c → g.next c = some (.nonterminal A) → g.next c.advance = some Y →
      ∃ t, g.First Y t) : g.ClosedLook S L c t ↔ g.ClosedItem L c t := by
  constructor
  · intro h
    induction h with
    | seed given => exact .seed given
    | first lead next after first has =>
      obtain ⟨u, item⟩ := lead.item seeds firsts
      exact .first item next after first has
    | inherit _ next after has ih => exact .inherit ih next after has
  · exact ClosedItem.look known

end Grammar
end Lr
