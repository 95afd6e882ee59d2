import LowCompiler.Generator.Consolidate
import Mathlib.Data.List.Sort

/-!
# Consolidated leads as a normal form

The loop of `consolidate_leads` with its two cursors, and what an array of leads stands
for: the cores in it, and the lookaheads of each. Arrays that stand for the same are
consolidated to the same array, so the comparison of arrays lead by lead decides that.
-/

namespace Low

variable {R : Type}

/-! ### The loop -/

/-- The rest of the loop, with `rest` turns to go: the lead at `lo` is the last of the compacted ones. -/
def consolidateLoop [DecidableEq R] : Nat → List (Lead R) → Nat → Nat → List (Lead R)
  | 0, leads, lo, _ => leads.take (lo + 1)
  | rest + 1, leads, lo, li =>
    match leads[lo]?, leads[li]? with
    | some last, some lead =>
      if lead.rule = last.rule ∧ lead.variant = last.variant ∧ lead.position = last.position then
        consolidateLoop rest (leads.set lo { last with terminals := tokenSetMerge last.terminals lead.terminals }) lo (li + 1)
      else consolidateLoop rest (leads.set (lo + 1) lead) (lo + 1) (li + 1)
    | _, _ => leads

/-- `consolidate_leads` behind the call of `qsort`. -/
def consolidateSorted [DecidableEq R] (leads : List (Lead R)) : List (Lead R) :=
  if 2 ≤ leads.length then consolidateLoop (leads.length - 1) leads 0 1 else leads

section Loop
variable [LinearOrder R]

/-- The leads before the first cursor are done, those between the cursors are not looked at again. -/
theorem consolidateLoop_eq (pre : List (Lead R)) (lo : Lead R) (gap rest : List (Lead R)) :
    consolidateLoop rest.length (pre ++ lo :: (gap ++ rest)) pre.length (pre.length + 1 + gap.length) =
      pre ++ mergeLeads lo rest := by
  induction rest generalizing pre lo gap with
  | nil => simp [consolidateLoop, mergeLeads, List.take_append]
  | cons li rest ih =>
    have first : (pre ++ lo :: (gap ++ li :: rest))[pre.length]? = some lo := by simp
    have second : (pre ++ lo :: (gap ++ li :: rest))[pre.length + 1 + gap.length]? = some li := by
      rw [Nat.add_assoc, List.getElem?_append_right (Nat.le_add_right _ _), Nat.add_sub_cancel_left, Nat.add_comm 1]
      simp
    rw [List.length_cons, consolidateLoop, first, second, mergeLeads]
    dsimp only
    split
    · have merged := ih pre { lo with terminals := tokenSetMerge lo.terminals li.terminals } (gap ++ [li])
      rw [List.length_append, List.length_singleton, List.append_assoc, List.singleton_append, ← Nat.add_assoc] at merged
      rw [← merged, List.set_append_right _ _ (Nat.le_refl _), Nat.sub_self, List.set_cons_zero]
    · -- the first cursor moves into the gap, or onto the second one
      have size : pre.length + 1 = (pre ++ [lo]).length := by simp
      cases gap with
      | nil =>
        have moved : (pre ++ lo :: ([] ++ li :: rest)).set (pre.length + 1) li = (pre ++ [lo]) ++ li :: ([] ++ rest) := by
          simp
        rw [moved, List.length_nil, Nat.add_zero, size]
        exact (ih (pre ++ [lo]) li []).trans (List.append_assoc _ _ _)
      | cons x gap =>
        have moved : (pre ++ lo :: (x :: gap ++ li :: rest)).set (pre.length + 1) li =
            (pre ++ [lo]) ++ li :: ((gap ++ [li]) ++ rest) := by
          simp
        have index : pre.length + 1 + (x :: gap).length + 1 = (pre ++ [lo]).length + 1 + (gap ++ [li]).length := by
          simp only [List.length_cons, List.length_append, List.length_nil]
          omega
        rw [moved, index, size]
        exact (ih (pre ++ [lo]) li (gap ++ [li])).trans (List.append_assoc _ _ _)

theorem consolidateSorted_eq (lo : Lead R) (rest : List (Lead R)) :
    consolidateSorted (lo :: rest) = mergeLeads lo rest := by
  unfold consolidateSorted
  cases rest with
  | nil => rfl
  | cons li rest =>
    rw [if_pos (by simp)]
    exact consolidateLoop_eq [] lo [] (li :: rest)

end Loop

/-! ### Comparisons -/

def equalTokenSets (s1 s2 : TokenSet) : Bool := s1.words == s2.words

def equalLeads [DecidableEq R] (l1 l2 : Lead R) : Bool :=
  l1.rule == l2.rule && l1.variant == l2.variant && l1.position == l2.position && equalTokenSets l1.terminals l2.terminals

def equalSetOfLeads [DecidableEq R] (a1 a2 : List (Lead R)) : Bool :=
  a1.length == a2.length && (a1.zip a2).all fun pair => equalLeads pair.1 pair.2

theorem words_inj {a b : TokenSet} : a.words = b.words ↔ a = b := by
  constructor
  · intro same
    obtain ⟨a⟩ := a
    obtain ⟨b⟩ := b
    refine congrArg TokenSet.mk (BitVec.eq_of_getLsbD_eq fun i bound => ?_)
    have inside : i / 32 < (MAX_TOKENS + 31) / 32 := by omega
    have word := List.map_inj_left.mp same (i / 32) (List.mem_range.mpr inside)
    have bit := congrArg (·.getLsbD (i % 32)) (BitVec.eq_of_toNat_eq word)
    have low : i % 32 < 32 := Nat.mod_lt _ (by omega)
    simpa [low, Nat.div_add_mod] using bit
  · exact congrArg TokenSet.words

section Compare
variable [LinearOrder R]

theorem equalLeads_iff {l1 l2 : Lead R} : equalLeads l1 l2 = true ↔ l1 = l2 := by
  obtain ⟨A, i, n, s⟩ := l1
  obtain ⟨B, j, m, t⟩ := l2
  simp [equalLeads, equalTokenSets, words_inj, and_assoc]

theorem equalSetOfLeads_iff {a1 a2 : List (Lead R)} : equalSetOfLeads a1 a2 = true ↔ a1 = a2 := by
  induction a1 generalizing a2 with
  | nil => cases a2 <;> simp [equalSetOfLeads]
  | cons l1 a1 ih =>
    cases a2 with
    | nil => simp [equalSetOfLeads]
    | cons l2 a2 =>
      rw [List.cons_eq_cons, ← ih, ← equalLeads_iff]
      simp only [equalSetOfLeads, List.length_cons, List.zip_cons_cons, List.all_cons, Bool.and_eq_true, beq_iff_eq,
        Nat.add_right_cancel_iff]
      tauto

theorem compareLeads_eq {l1 l2 : Lead R} : compareLeads l1 l2 = .eq ↔ l1 = l2 := by
  obtain ⟨A, i, n, s⟩ := l1
  obtain ⟨B, j, m, t⟩ := l2
  simp [compareLeads, compareLex_eq_eq, compareOn, compareTokenSets, words_inj]

theorem compareLeads_lt {l1 l2 : Lead R} (lt : compareCores l1.core l2.core = .lt) :
    compareLeads l1 l2 = .lt := by
  have le : (compareLeads l1 l2).isLE := by
    by_contra greater
    have swapped : (compareLeads l2 l1).isLE := by
      rw [show compareLeads l2 l1 = (compareLeads l1 l2).swap from Std.OrientedCmp.eq_swap]
      cases order : compareLeads l1 l2 <;> simp_all
    have back := compareCores_of_leads swapped
    rw [show compareCores l2.core l1.core = (compareCores l1.core l2.core).swap from Std.OrientedCmp.eq_swap, lt] at back
    cases back
  have ne : compareLeads l1 l2 ≠ .eq := by
    intro eq
    rw [compareLeads_eq.mp eq, compareCores_eq.mpr rfl] at lt
    cases lt
  cases order : compareLeads l1 l2 <;> simp_all

/-- Whatever order `qsort` leaves, it is that of the comparison. -/
theorem sorted_eq {leads sorted : List (Lead R)} (perm : sorted.Perm leads)
    (ordered : sorted.Pairwise fun l1 l2 => (compareLeads l1 l2).isLE) :
    leads.insertionSort (fun l1 l2 => (compareLeads l1 l2).isLE) = sorted := by
  refine List.Perm.eq_of_pairwise ?_ (List.pairwise_insertionSort _ leads) ordered
    ((List.perm_insertionSort _ leads).trans perm.symm)
  intro l1 l2 _ _ le ge
  rw [show compareLeads l2 l1 = (compareLeads l1 l2).swap from Std.OrientedCmp.eq_swap] at ge
  refine compareLeads_eq.mp ?_
  cases order : compareLeads l1 l2 <;> simp_all

end Compare

/-! ### What an array of leads stands for -/

def HasCore (leads : List (Lead R)) (c : Lr.Core R) : Prop := ∃ l ∈ leads, l.core = c

def HasItem (leads : List (Lead R)) (c : Lr.Core R) (t : Token) : Prop :=
  ∃ l ∈ leads, l.core = c ∧ t ∈ l.terminals

/-- Both arrays have the same cores, and the same lookaheads for each. -/
structure SameItems (leads leads' : List (Lead R)) : Prop where
  cores : ∀ c, HasCore leads c ↔ HasCore leads' c
  items : ∀ c t, HasItem leads c t ↔ HasItem leads' c t

theorem SameItems.symm {leads leads' : List (Lead R)} (same : SameItems leads leads') :
    SameItems leads' leads :=
  ⟨fun c => (same.cores c).symm, fun c t => (same.items c t).symm⟩

theorem SameItems.trans {leads leads' leads'' : List (Lead R)} (same : SameItems leads leads')
    (same' : SameItems leads' leads'') : SameItems leads leads'' :=
  ⟨fun c => (same.cores c).trans (same'.cores c), fun c t => (same.items c t).trans (same'.items c t)⟩

section Canonical
variable [LinearOrder R] {leads leads' : List (Lead R)}

theorem consolidateLeads_items (leads : List (Lead R)) : SameItems (consolidateLeads leads) leads where
  cores c := by
    constructor
    · rintro ⟨l, member, rfl⟩
      exact (consolidateLeads_sound member).1
    · rintro ⟨l, member, rfl⟩
      obtain ⟨l', member', core, _⟩ := consolidateLeads_complete member
      exact ⟨l', member', core⟩
  items c t := by
    constructor
    · rintro ⟨l, member, rfl, present⟩
      exact (consolidateLeads_sound member).2 t present
    · rintro ⟨l, member, rfl, present⟩
      obtain ⟨l', member', core, more⟩ := consolidateLeads_complete member
      exact ⟨l', member', core, more t present⟩

/-- A consolidated array is known by what it stands for. -/
theorem mem_consolidateLeads {l : Lead R} :
    l ∈ consolidateLeads leads ↔ HasCore leads l.core ∧ ∀ t, t ∈ l.terminals ↔ HasItem leads l.core t := by
  have same := consolidateLeads_items leads
  have unique {l l' : Lead R} (member : l ∈ consolidateLeads leads) (member' : l' ∈ consolidateLeads leads)
      (core : l.core = l'.core) : l = l' := List.inj_on_of_nodup_map (consolidateLeads_nodup leads) member member' core
  have terminals {l : Lead R} (member : l ∈ consolidateLeads leads) (t : Token) :
      t ∈ l.terminals ↔ HasItem leads l.core t := by
    rw [← same.items]
    constructor
    · intro present
      exact ⟨l, member, rfl, present⟩
    · rintro ⟨l', member', core, present⟩
      rwa [unique member member' core.symm]
  constructor
  · intro member
    exact ⟨(same.cores _).mp ⟨l, member, rfl⟩, terminals member⟩
  · rintro ⟨there, lookaheads⟩
    obtain ⟨l', member, core⟩ := (same.cores _).mpr there
    have equal : l' = l := by
      obtain ⟨A, i, n, s⟩ := l
      obtain ⟨A', i', n', s'⟩ := l'
      obtain ⟨⟨rfl, rfl⟩, rfl⟩ := core
      have terminals : s' = s := TokenSet.ext fun t => (terminals member t).trans (lookaheads t).symm
      rw [terminals]
    exact equal ▸ member

/-- Arrays that stand for the same are consolidated to the same array. -/
theorem consolidateLeads_congr (same : SameItems leads leads') :
    consolidateLeads leads = consolidateLeads leads' := by
  have nodup (leads : List (Lead R)) : (consolidateLeads leads).Nodup := List.Nodup.of_map _ (consolidateLeads_nodup leads)
  have perm : (consolidateLeads leads).Perm (consolidateLeads leads') := by
    refine (List.perm_ext_iff_of_nodup (nodup leads) (nodup leads')).mpr fun l => ?_
    simp only [mem_consolidateLeads, same.cores, same.items]
  refine perm.eq_of_pairwise ?_ (consolidateLeads_sorted leads) (consolidateLeads_sorted leads')
  intro l l' _ _ lt gt
  rw [show compareCores l'.core l.core = (compareCores l.core l'.core).swap from Std.OrientedCmp.eq_swap, lt] at gt
  cases gt

/-- `consolidate_leads` computes a normal form of what the array stands for, whatever `qsort` does
with it, and `equal_set_of_leads` tells normal forms apart just when they stand for something else.
-/
theorem consolidateLeads_canonical (leads : List (Lead R)) :
    (∀ sorted : List (Lead R), sorted.Perm leads → (sorted.Pairwise fun l1 l2 => (compareLeads l1 l2).isLE) →
      consolidateSorted sorted = consolidateLeads leads) ∧
    SameItems (consolidateLeads leads) leads ∧
    ((consolidateLeads leads).map Lead.core).Nodup ∧
    ((consolidateLeads leads).Pairwise fun l1 l2 => compareLeads l1 l2 = .lt) ∧
    consolidateLeads (consolidateLeads leads) = consolidateLeads leads ∧
    ∀ other : List (Lead R), (SameItems leads other → consolidateLeads leads = consolidateLeads other) ∧
      (equalSetOfLeads (consolidateLeads leads) (consolidateLeads other) = true ↔ SameItems leads other) := by
  refine ⟨?_, consolidateLeads_items leads, consolidateLeads_nodup leads,
    (consolidateLeads_sorted leads).imp compareLeads_lt, consolidateLeads_congr (consolidateLeads_items leads), ?_⟩
  · intro sorted perm ordered
    rw [consolidateLeads, sorted_eq perm ordered]
    cases sorted with
    | nil => rfl
    | cons lo rest => exact consolidateSorted_eq lo rest
  · intro other
    refine ⟨consolidateLeads_congr, ?_⟩
    rw [equalSetOfLeads_iff]
    constructor
    · intro equal
      have same := consolidateLeads_items leads
      rw [equal] at same
      exact same.symm.trans (consolidateLeads_items other)
    · exact consolidateLeads_congr

end Canonical

def twoLeads : List (Lead Nat) :=
  [⟨0, 0, 1, tokenSetInsert tokenSetInit .EOF⟩, ⟨0, 0, 1, tokenSetInsert tokenSetInit .IDENT⟩]

theorem consolidateLeads_two : consolidateLeads twoLeads = consolidateLeads twoLeads.reverse ∧
    equalSetOfLeads (consolidateLeads twoLeads) (consolidateLeads twoLeads.reverse) = true := by
  have same : SameItems twoLeads twoLeads.reverse := by
    constructor
    · intro c
      simp only [HasCore, List.mem_reverse]
    · intro c t
      simp only [HasItem, List.mem_reverse]
  obtain ⟨equal, decides⟩ := (consolidateLeads_canonical twoLeads).2.2.2.2.2 twoLeads.reverse
  exact ⟨equal same, decides.mpr same⟩

end Low
