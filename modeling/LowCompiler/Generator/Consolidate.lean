import LowCompiler.Generator.Leads
import Mathlib.Data.List.Sort
import Mathlib.Order.Std

/-!
# Consolidated leads

`consolidate_leads` sorts an array of leads and merges neighbours that differ
in their lookaheads only. Afterwards every lead is there once, with all of its
lookaheads.
-/

namespace Low

variable {R : Type} [LinearOrder R]

def compareLeads : Lead R → Lead R → Ordering :=
  compareLex (compareOn Lead.rule) <| compareLex (compareOn Lead.variant) <|
    compareLex (compareOn Lead.position) fun l1 l2 => compareTokenSets l1.terminals l2.terminals

/-- The loop over the sorted array; `lo` is the lead under construction. -/
def mergeLeads (lo : Lead R) : List (Lead R) → List (Lead R)
  | [] => [lo]
  | li :: rest =>
    if li.rule = lo.rule ∧ li.variant = lo.variant ∧ li.position = lo.position then
      mergeLeads { lo with terminals := tokenSetMerge lo.terminals li.terminals } rest
    else lo :: mergeLeads li rest

def consolidateLeads (leads : List (Lead R)) : List (Lead R) :=
  match leads.insertionSort fun l1 l2 => (compareLeads l1 l2).isLE with
  | [] => []
  | lo :: rest => mergeLeads lo rest

/-! ### The order of leads -/

/-- The comparison of leads without their lookaheads. -/
def compareCores : Lr.Core R → Lr.Core R → Ordering :=
  compareLex (compareOn fun c => c.production.rule) <|
    compareLex (compareOn fun c => c.production.variant) (compareOn Lr.Core.position)

instance : Std.TransCmp (compareCores (R := R)) := by
  unfold compareCores
  infer_instance

instance : Std.TransCmp (compareLeads (R := R)) := by
  have : Std.TransCmp fun l1 l2 : Lead R => compareTokenSets l1.terminals l2.terminals :=
    inferInstanceAs (Std.TransCmp (compareOn fun l : Lead R => l.terminals.words))
  unfold compareLeads
  infer_instance

theorem compareCores_eq {c d : Lr.Core R} : compareCores c d = .eq ↔ c = d := by
  obtain ⟨⟨A, i⟩, n⟩ := c
  obtain ⟨⟨B, j⟩, m⟩ := d
  simp [compareCores, compareLex_eq_eq, compareOn, and_assoc]

theorem compareCores_of_leads {l1 l2 : Lead R} (h : (compareLeads l1 l2).isLE) :
    (compareCores l1.core l2.core).isLE := by
  simp only [compareLeads, compareCores, compareLex, Ordering.isLE_then_iff_and, compareOn] at h ⊢
  exact ⟨h.1, h.2.imp_right fun h => ⟨h.1, h.2.imp_right And.left⟩⟩

omit [LinearOrder R] in
theorem same_core_iff {l1 l2 : Lead R} :
    (l1.rule = l2.rule ∧ l1.variant = l2.variant ∧ l1.position = l2.position) ↔ l1.core = l2.core := by
  simp [Lead.core, and_assoc]

instance : Std.Total fun l1 l2 : Lead R => ((compareLeads l1 l2).isLE : Prop) where
  total l1 l2 := by
    rw [show compareLeads l2 l1 = (compareLeads l1 l2).swap from Std.OrientedCmp.eq_swap]
    cases compareLeads l1 l2 <;> simp

instance : IsTrans (Lead R) fun l1 l2 => ((compareLeads l1 l2).isLE : Prop) where
  trans _ _ _ first second := Std.TransCmp.isLE_trans first second

theorem sorted_cores (leads : List (Lead R)) :
    (leads.insertionSort fun l1 l2 => (compareLeads l1 l2).isLE).Pairwise fun l1 l2 =>
      (compareCores l1.core l2.core).isLE :=
  (List.pairwise_insertionSort _ leads).imp compareCores_of_leads

/-! ### Merging -/

theorem mergeLeads_sound {lo l : Lead R} {leads : List (Lead R)} (h : l ∈ mergeLeads lo leads) :
    (∃ l' ∈ lo :: leads, l'.core = l.core) ∧
      ∀ t ∈ l.terminals, ∃ l' ∈ lo :: leads, l'.core = l.core ∧ t ∈ l'.terminals := by
  induction leads generalizing lo with
  | nil =>
    obtain rfl := List.mem_singleton.mp h
    exact ⟨⟨l, by simp, rfl⟩, fun t present => ⟨l, by simp, rfl, present⟩⟩
  | cons li rest ih =>
    unfold mergeLeads at h
    split at h
    · rename_i same
      obtain ⟨⟨l', member, core⟩, terminals⟩ := ih h
      refine ⟨?_, fun t present => ?_⟩
      · rcases List.mem_cons.mp member with rfl | member
        · exact ⟨lo, by simp, core⟩
        · exact ⟨l', by simp [member], core⟩
      · obtain ⟨l', member, core, present⟩ := terminals t present
        rcases List.mem_cons.mp member with rfl | member
        · rcases TokenSet.mem_merge.mp present with old | new
          · exact ⟨lo, by simp, core, old⟩
          · exact ⟨li, by simp, (same_core_iff.mp same).trans core, new⟩
        · exact ⟨l', by simp [member], core, present⟩
    · rcases List.mem_cons.mp h with rfl | h
      · exact ⟨⟨l, by simp, rfl⟩, fun t present => ⟨l, by simp, rfl, present⟩⟩
      · obtain ⟨⟨l', member, core⟩, terminals⟩ := ih h
        refine ⟨⟨l', List.mem_cons_of_mem _ member, core⟩, fun t present => ?_⟩
        obtain ⟨l', member, rest⟩ := terminals t present
        exact ⟨l', List.mem_cons_of_mem _ member, rest⟩

theorem mergeLeads_complete {lo l : Lead R} {leads : List (Lead R)} (h : l ∈ lo :: leads) :
    ∃ l' ∈ mergeLeads lo leads, l'.core = l.core ∧ ∀ t ∈ l.terminals, t ∈ l'.terminals := by
  induction leads generalizing lo l with
  | nil => exact ⟨l, by simpa [mergeLeads] using h, rfl, fun _ => id⟩
  | cons li rest ih =>
    unfold mergeLeads
    split
    · rename_i same
      rcases List.mem_cons.mp h with rfl | h
      · obtain ⟨l', member, core, terminals⟩ :=
          @ih { l with terminals := tokenSetMerge l.terminals li.terminals } _ List.mem_cons_self
        exact ⟨l', member, core, fun t present => terminals t (TokenSet.mem_merge.mpr (Or.inl present))⟩
      · rcases List.mem_cons.mp h with rfl | h
        · obtain ⟨l', member, core, terminals⟩ :=
            @ih { lo with terminals := tokenSetMerge lo.terminals l.terminals } _ List.mem_cons_self
          exact ⟨l', member, core.trans (same_core_iff.mp same).symm,
            fun t present => terminals t (TokenSet.mem_merge.mpr (Or.inr present))⟩
        · exact ih (List.mem_cons_of_mem _ h)
    · rcases List.mem_cons.mp h with rfl | h
      · exact ⟨l, List.mem_cons_self, rfl, fun _ => id⟩
      · obtain ⟨l', member, rest⟩ := ih h
        exact ⟨l', List.mem_cons_of_mem _ member, rest⟩

/-- Merging the neighbours of a sorted array leaves its cores strictly increasing. -/
theorem mergeLeads_sorted {lo : Lead R} {leads : List (Lead R)}
    (sorted : (lo :: leads).Pairwise fun l1 l2 => (compareCores l1.core l2.core).isLE) :
    (mergeLeads lo leads).Pairwise fun l1 l2 => compareCores l1.core l2.core = .lt := by
  induction leads generalizing lo with
  | nil => exact List.pairwise_singleton _ _
  | cons li rest ih =>
    obtain ⟨first, tail⟩ := List.pairwise_cons.mp sorted
    unfold mergeLeads
    split
    · exact ih (List.pairwise_cons.mpr
        ⟨fun l member => first l (List.mem_cons_of_mem _ member), (List.pairwise_cons.mp tail).2⟩)
    · rename_i different
      refine List.pairwise_cons.mpr ⟨fun l member => ?_, ih tail⟩
      have head : compareCores lo.core li.core = .lt := by
        have le := first li List.mem_cons_self
        have ne : compareCores lo.core li.core ≠ .eq := fun eq =>
          different (same_core_iff.mpr (compareCores_eq.mp eq).symm)
        cases order : compareCores lo.core li.core <;> simp_all
      obtain ⟨⟨l', member', core⟩, _⟩ := mergeLeads_sound member
      rw [← core]
      rcases List.mem_cons.mp member' with rfl | member'
      · exact head
      · exact Std.TransCmp.lt_of_lt_of_isLE head ((List.pairwise_cons.mp tail).1 l' member')

/-! ### Consolidation -/

theorem consolidateLeads_sorted (leads : List (Lead R)) :
    (consolidateLeads leads).Pairwise fun l1 l2 => compareCores l1.core l2.core = .lt := by
  have sorted := sorted_cores leads
  unfold consolidateLeads
  split
  · exact List.Pairwise.nil
  · rename_i lo rest shape
    rw [shape] at sorted
    exact mergeLeads_sorted sorted

/-- No lead of a consolidated array has another's core. -/
theorem consolidateLeads_nodup (leads : List (Lead R)) : ((consolidateLeads leads).map Lead.core).Nodup := by
  refine List.pairwise_map.mpr ((consolidateLeads_sorted leads).imp fun lt same => ?_)
  rw [compareCores_eq.mpr same] at lt
  cases lt

theorem consolidateLeads_sound {leads : List (Lead R)} {l : Lead R} (h : l ∈ consolidateLeads leads) :
    (∃ l' ∈ leads, l'.core = l.core) ∧ ∀ t ∈ l.terminals, ∃ l' ∈ leads, l'.core = l.core ∧ t ∈ l'.terminals := by
  unfold consolidateLeads at h
  split at h
  · cases h
  · rename_i lo rest shape
    obtain ⟨⟨l', member, core⟩, terminals⟩ := mergeLeads_sound h
    have sorted : ∀ x ∈ lo :: rest, x ∈ leads := fun x member =>
      (List.mem_insertionSort _).mp (shape ▸ member)
    refine ⟨⟨l', sorted l' member, core⟩, fun t present => ?_⟩
    obtain ⟨l', member, rest⟩ := terminals t present
    exact ⟨l', sorted l' member, rest⟩

theorem consolidateLeads_complete {leads : List (Lead R)} {l : Lead R} (h : l ∈ leads) :
    ∃ l' ∈ consolidateLeads leads, l'.core = l.core ∧ ∀ t ∈ l.terminals, t ∈ l'.terminals := by
  have member := (List.mem_insertionSort fun l1 l2 : Lead R => ((compareLeads l1 l2).isLE : Prop)).mpr h
  unfold consolidateLeads
  split
  · rename_i shape
    rw [shape] at member
    cases member
  · rename_i lo rest shape
    rw [shape] at member
    exact mergeLeads_complete member

theorem Covers.consolidate [Fintype R] {G : Grammar R} {leads : List (Lead R)} {γ : List (Symbol Token R)}
    (h : Covers G leads γ) : Covers G (consolidateLeads leads) γ where
  sound l member := by
    obtain ⟨⟨l', member', core⟩, terminals⟩ := consolidateLeads_sound member
    refine ⟨core ▸ (h.sound l' member').1, fun t present => ?_⟩
    obtain ⟨l', member', core, present⟩ := terminals t present
    exact core ▸ (h.sound l' member').2 t present
  lead c lead := by
    obtain ⟨l, member, rfl⟩ := h.lead c lead
    obtain ⟨l', member', core, _⟩ := consolidateLeads_complete member
    exact ⟨l', member', core⟩
  look c t look := by
    obtain ⟨l, member, rfl, present⟩ := h.look c t look
    obtain ⟨l', member', core, terminals⟩ := consolidateLeads_complete member
    exact ⟨l', member', core, terminals t present⟩

end Low
