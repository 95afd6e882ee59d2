import Mathlib.Data.Finset.Card

/-!
# Depth-first search

A search that opens every node it meets and has not met before. Nodes are compared by
their names; a node that cannot be opened stops the search. A search that ends has met
exactly the nodes that can be reached, each once, and it ends when these are finitely
many and can be opened.
-/

namespace DepthFirst

variable {α : Type}

inductive Reached (next : α → Option (List α)) (nodes : List α) : α → Prop where
  | start {node : α} : node ∈ nodes → Reached next nodes node
  | step {node child : α} {below : List α} : Reached next nodes node → next node = some below → child ∈ below →
      Reached next nodes child

/-- The node was opened, and everything below it was met. -/
def Opened (next : α → Option (List α)) (met : List α) (node : α) : Prop :=
  ∃ below, next node = some below ∧ below ⊆ met

variable {next : α → Option (List α)} {fuel : Nat} {nodes nodes' met met' : List α} {node : α}

theorem Reached.trans (reached : Reached next nodes node) (starts : ∀ a ∈ nodes, Reached next nodes' a) :
    Reached next nodes' node := by
  induction reached with
  | start member => exact starts _ member
  | step _ opened member ih => exact .step ih opened member

theorem Opened.mono {node : α} (opened : Opened next met node) (le : met ⊆ met') : Opened next met' node := by
  obtain ⟨below, same, inside⟩ := opened
  exact ⟨below, same, List.Subset.trans inside le⟩

variable [DecidableEq α]

def visit (next : α → Option (List α)) : Nat → List α → List α → Option (List α)
  | 0, _, _ => none
  | fuel + 1, nodes, met =>
    nodes.foldlM (fun met node =>
      if node ∈ met then some met
      else do
        let below ← next node
        visit next fuel below (met ++ [node])) met

structure Searched (next : α → Option (List α)) (nodes met met' : List α) : Prop where
  kept : met ⊆ met'
  nodup : met.Nodup → met'.Nodup
  starts : nodes ⊆ met'
  reached : ∀ a ∈ met', a ∈ met ∨ Reached next nodes a
  opened : ∀ a ∈ met', a ∈ met ∨ Opened next met' a

theorem visit_searched (visited : visit next fuel nodes met = some met') : Searched next nodes met met' := by
  induction fuel generalizing nodes met met' with
  | zero => cases visited
  | succ fuel deeper =>
    rw [visit] at visited
    induction nodes generalizing met with
    | nil =>
      cases visited
      exact ⟨List.Subset.refl _, id, List.nil_subset _, fun _ => .inl, fun _ => .inl⟩
    | cons node nodes ih =>
      obtain ⟨middle, first, rest⟩ := Option.bind_eq_some_iff.mp visited
      have later := ih rest
      have tail {a : α} (reached : Reached next nodes a) : Reached next (node :: nodes) a :=
        reached.trans fun _ member => .start (.tail _ member)
      by_cases known : node ∈ met
      · simp only [known, if_true] at first
        cases first
        exact ⟨later.kept, later.nodup, List.cons_subset.mpr ⟨later.kept known, later.starts⟩,
          fun a member => (later.reached a member).imp_right tail, later.opened⟩
      · simp only [known, if_false] at first
        obtain ⟨below, opened, first⟩ := Option.bind_eq_some_iff.mp first
        have here := deeper first
        have start : Reached next (node :: nodes) node := .start (.head _)
        refine ⟨fun a member => later.kept (here.kept (List.mem_append_left _ member)), fun distinct => ?_,
          List.cons_subset.mpr ⟨later.kept (here.kept (by simp)), later.starts⟩, fun a member => ?_, fun a member => ?_⟩
        · exact later.nodup (here.nodup (List.nodup_append'.mpr ⟨distinct, List.nodup_singleton _, by simpa using known⟩))
        · obtain inside | reached := later.reached a member
          · obtain inside | reached := here.reached a inside
            · obtain old | new := List.mem_append.mp inside
              · exact .inl old
              · obtain rfl := List.mem_singleton.mp new
                exact .inr start
            · exact .inr (reached.trans fun _ member => .step start opened member)
          · exact .inr (tail reached)
        · obtain inside | done := later.opened a member
          · obtain inside | done := here.opened a inside
            · obtain old | new := List.mem_append.mp inside
              · exact .inl old
              · obtain rfl := List.mem_singleton.mp new
                exact .inr ⟨below, opened, List.Subset.trans here.starts later.kept⟩
            · exact .inr (done.mono later.kept)
          · exact .inr done

/-- A search from nothing meets the nodes that are reached, each once. -/
theorem visit_reached (visited : visit next fuel nodes [] = some met') :
    met'.Nodup ∧ ∀ a, a ∈ met' ↔ Reached next nodes a := by
  have searched := visit_searched visited
  refine ⟨searched.nodup List.nodup_nil, fun a => ⟨fun member => ?_, fun reached => ?_⟩⟩
  · exact (searched.reached a member).resolve_left List.not_mem_nil
  · induction reached with
    | start member => exact searched.starts member
    | step _ opened member ih =>
      obtain ⟨below, same, inside⟩ := (searched.opened _ ih).resolve_left List.not_mem_nil
      cases opened.symm.trans same
      exact inside member

/-- How many nodes of a set are not met yet. -/
def unmet (S : Finset α) (met : List α) : Nat := (S.filter (· ∉ met)).card

theorem unmet_le {S : Finset α} (le : met ⊆ met') : unmet S met' ≤ unmet S met :=
  Finset.card_le_card (Finset.monotone_filter_right S fun _ _ fresh old => fresh (le old))

theorem unmet_lt {S : Finset α} (inside : node ∈ S) (fresh : node ∉ met) :
    unmet S (met ++ [node]) < unmet S met := by
  refine Finset.card_lt_card ((Finset.ssubset_iff_of_subset ?_).mpr ⟨node, ?_, ?_⟩)
  · exact Finset.monotone_filter_right S fun a _ fresh old => fresh (List.mem_append_left _ old)
  · simpa using ⟨inside, fresh⟩
  · simp

/-- In a finite set of nodes that can be opened the search ends. -/
theorem visit_ends {S : Finset α} (closed : ∀ a ∈ S, ∃ below, next a = some below ∧ ∀ b ∈ below, b ∈ S)
    (starts : ∀ a ∈ nodes, a ∈ S) (enough : unmet S met < fuel) :
    ∃ met', visit next fuel nodes met = some met' := by
  induction fuel generalizing nodes met with
  | zero => exact absurd enough (Nat.not_lt_zero _)
  | succ fuel deeper =>
    rw [visit]
    induction nodes generalizing met with
    | nil => exact ⟨met, rfl⟩
    | cons node nodes ih =>
      have inside : node ∈ S := starts node (.head _)
      have rest := fun a member => starts a (.tail _ member)
      by_cases known : node ∈ met
      · simp only [List.foldlM_cons, known, if_true]
        exact ih rest enough
      · obtain ⟨below, opened, closedBelow⟩ := closed node inside
        obtain ⟨middle, first⟩ :=
          deeper closedBelow (lt_of_lt_of_le (unmet_lt inside known) (Nat.le_of_lt_succ enough))
        have kept := (visit_searched first).kept
        obtain ⟨met', later⟩ :=
          ih rest (lt_of_le_of_lt (unmet_le fun _ old => kept (List.mem_append_left _ old)) enough)
        refine ⟨met', ?_⟩
        simp only [List.foldlM_cons, known, if_false, opened, Option.bind_eq_bind, Option.bind_some, first]
        exact later

end DepthFirst
