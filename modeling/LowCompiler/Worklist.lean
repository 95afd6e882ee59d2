import Mathlib.Data.Finset.Card

/-!
# Saturating an array

An array is closed under an expansion that may fail: every entry is expanded
once, results that are not in the array yet are appended, and the appended part
is expanded next. `saturate_ok` says what a finished run has computed,
`saturate_error` where a failed one failed, and `saturate_fuel` that a run over
a finite set of entries finishes.
-/

namespace Worklist

variable {α ε : Type} [DecidableEq α]

def insertNew (xs : List α) (y : α) : List α := if y ∈ xs then xs else xs ++ [y]

def visit (f : α → Except ε (List α)) (xs : List α) (x : α) : Except ε (List α) :=
  (f x).map fun ys => ys.foldl insertNew xs

/-- Expand the entries at `index` to `index + length`, then those that this has appended. -/
def saturate (f : α → Except ε (List α)) (exhausted : ε) : Nat → List α → Nat → Nat → Except ε (List α)
  | 0, _, _, _ => .error exhausted
  | fuel + 1, xs, index, length => do
    let ys ← ((xs.drop index).take length).foldlM (visit f) xs
    if xs.length < ys.length then saturate f exhausted fuel ys xs.length (ys.length - xs.length)
    else .ok ys

/-- What expansion reaches from the entries `roots`. -/
inductive Reach (f : α → Except ε (List α)) (roots : List α) : α → Prop where
  | root {x : α} : x ∈ roots → Reach f roots x
  | step {x y : α} {ys : List α} : Reach f roots x → f x = .ok ys → y ∈ ys → Reach f roots y

def Expanded (f : α → Except ε (List α)) (xs : List α) (x : α) : Prop := ∃ ys, f x = .ok ys ∧ ys ⊆ xs

theorem mem_insertNew {xs : List α} {x y : α} : x ∈ insertNew xs y ↔ x ∈ xs ∨ x = y := by
  unfold insertNew
  split
  · rename_i member
    constructor
    · exact Or.inl
    · rintro (old | rfl)
      · exact old
      · exact member
  · simp

theorem mem_foldl_insertNew {xs ys : List α} {x : α} : x ∈ ys.foldl insertNew xs ↔ x ∈ xs ∨ x ∈ ys := by
  induction ys generalizing xs with
  | nil => simp
  | cons y ys ih => rw [List.foldl_cons, ih, mem_insertNew, List.mem_cons, or_assoc]

theorem isPrefix_foldl_insertNew (xs ys : List α) : xs <+: ys.foldl insertNew xs := by
  induction ys generalizing xs with
  | nil => exact List.prefix_rfl
  | cons y ys ih =>
    have first : xs <+: insertNew xs y := by
      unfold insertNew
      split
      · exact List.prefix_rfl
      · exact List.prefix_append _ _
    exact first.trans (ih _)

theorem nodup_foldl_insertNew {xs ys : List α} (nodup : xs.Nodup) : (ys.foldl insertNew xs).Nodup := by
  induction ys generalizing xs with
  | nil => exact nodup
  | cons y ys ih =>
    refine ih ?_
    unfold insertNew
    split
    · exact nodup
    · rename_i fresh
      exact List.nodup_append.mpr ⟨nodup, List.nodup_singleton _, by
        rintro a member b single rfl
        exact fresh (List.mem_singleton.mp single ▸ member)⟩

variable {f : α → Except ε (List α)} {exhausted : ε}

theorem visit_ok {xs ys : List α} {x : α} (h : visit f xs x = .ok ys) :
    ∃ zs, f x = .ok zs ∧ ys = zs.foldl insertNew xs := by
  unfold visit at h
  cases call : f x with
  | error e => rw [call] at h; cases h
  | ok zs =>
    rw [call] at h
    exact ⟨zs, rfl, (Except.ok.inj h).symm⟩

theorem visit_error {xs : List α} {x : α} {e : ε} (h : visit f xs x = .error e) : f x = .error e := by
  unfold visit at h
  cases call : f x with
  | error e' =>
    rw [call] at h
    exact h
  | ok zs => rw [call] at h; cases h

omit [DecidableEq α] in
theorem Expanded.mono {xs ys : List α} {x : α} (h : Expanded f xs x) (sub : xs ⊆ ys) : Expanded f ys x := by
  obtain ⟨zs, call, inside⟩ := h
  exact ⟨zs, call, fun _ member => sub (inside member)⟩

omit [DecidableEq α] in
theorem Reach.mono {roots roots' : List α} {x : α} (h : Reach f roots x)
    (sub : ∀ y ∈ roots, Reach f roots' y) : Reach f roots' x := by
  induction h with
  | root member => exact sub _ member
  | step _ call member ih => exact .step ih call member

/-! ### A pass -/

section Loop
variable {β δ : Type} {g : δ → β → Except ε δ} {x : β} {xs : List β} {d : δ}

omit [DecidableEq α] in
theorem foldlM_cons_ok {d' : δ} (run : (x :: xs).foldlM g d = .ok d') :
    ∃ middle, g d x = .ok middle ∧ xs.foldlM g middle = .ok d' := by
  rw [List.foldlM_cons] at run
  cases head : g d x with
  | error e => rw [head] at run; cases run
  | ok middle =>
    rw [head] at run
    exact ⟨middle, rfl, run⟩

omit [DecidableEq α] in
theorem foldlM_cons_error {e : ε} (run : (x :: xs).foldlM g d = .error e) :
    g d x = .error e ∨ ∃ middle, g d x = .ok middle ∧ xs.foldlM g middle = .error e := by
  rw [List.foldlM_cons] at run
  cases head : g d x with
  | error e' =>
    rw [head] at run
    obtain rfl := Except.error.inj run
    exact Or.inl rfl
  | ok middle =>
    rw [head] at run
    exact Or.inr ⟨middle, rfl, run⟩

end Loop

/-- One pass over the entries `work`, all of them in the array already. -/
theorem pass_ok {work xs ys : List α} (h : work.foldlM (visit f) xs = .ok ys) (inside : work ⊆ xs) :
    xs <+: ys ∧ (∀ x ∈ work, Expanded f ys x) ∧ (∀ y ∈ ys, Reach f xs y) ∧ (xs.Nodup → ys.Nodup) := by
  induction work generalizing xs with
  | nil =>
    obtain rfl := Except.ok.inj h
    exact ⟨List.prefix_rfl, by simp, fun y member => .root member, id⟩
  | cons x work ih =>
    obtain ⟨middle, call, rest⟩ := foldlM_cons_ok h
    obtain ⟨zs, expand, rfl⟩ := visit_ok call
    have grown := isPrefix_foldl_insertNew xs zs
    obtain ⟨tail, expanded, reach, nodup⟩ := ih rest fun y member =>
      grown.subset (inside (List.mem_cons_of_mem _ member))
    refine ⟨grown.trans tail, ?_, ?_, fun start => nodup (nodup_foldl_insertNew start)⟩
    · intro y member
      rcases List.mem_cons.mp member with rfl | member
      · exact ⟨zs, expand, fun z present => tail.subset (mem_foldl_insertNew.mpr (Or.inr present))⟩
      · exact expanded y member
    · intro y member
      refine (reach y member).mono fun z present => ?_
      rcases mem_foldl_insertNew.mp present with old | new
      · exact .root old
      · exact .step (.root (inside List.mem_cons_self)) expand new

theorem pass_error {work xs : List α} {e : ε} (h : work.foldlM (visit f) xs = .error e) :
    ∃ x ∈ work, f x = .error e := by
  induction work generalizing xs with
  | nil => cases h
  | cons x work ih =>
    rcases foldlM_cons_error h with here | ⟨middle, _, rest⟩
    · exact ⟨x, List.mem_cons_self, visit_error here⟩
    · obtain ⟨y, member, fails⟩ := ih rest
      exact ⟨y, List.mem_cons_of_mem _ member, fails⟩

omit [DecidableEq α] in
theorem work_eq_drop {xs : List α} {index length : Nat} (span : index + length = xs.length) :
    (xs.drop index).take length = xs.drop index := by
  refine List.take_of_length_le ?_
  rw [List.length_drop]
  omega

/-- A finished run has only appended, everything in the array is expanded inside it, and everything
in it is reached from the start. -/
theorem saturate_ok {fuel : Nat} {xs ys : List α} {index length : Nat}
    (h : saturate f exhausted fuel xs index length = .ok ys) (span : index + length = xs.length)
    (before : ∀ x ∈ xs.take index, Expanded f xs x) :
    xs <+: ys ∧ (∀ y ∈ ys, Expanded f ys y) ∧ (∀ y ∈ ys, Reach f xs y) ∧ (xs.Nodup → ys.Nodup) := by
  induction fuel generalizing xs index length with
  | zero => cases h
  | succ fuel ih =>
    unfold saturate at h
    rw [work_eq_drop span] at h
    cases call : (xs.drop index).foldlM (visit f) xs with
    | error e => rw [call] at h; cases h
    | ok middle =>
      rw [call] at h
      change (if xs.length < middle.length then _ else _) = _ at h
      obtain ⟨grown, expanded, reach, nodup⟩ := pass_ok call (List.drop_subset _ _)
      have all : ∀ x ∈ xs, Expanded f middle x := by
        intro x member
        rw [← List.take_append_drop index xs] at member
        rcases List.mem_append.mp member with early | late
        · exact (before x early).mono grown.subset
        · exact expanded x late
      split at h
      · have split : xs.length + (middle.length - xs.length) = middle.length := by omega
        obtain ⟨tail, closed, reach', nodup'⟩ := ih h split (by
          intro x member
          rw [← List.prefix_iff_eq_take.mp grown] at member
          exact all x member)
        exact ⟨grown.trans tail, closed, fun y member => (reach' y member).mono reach,
          fun start => nodup' (nodup start)⟩
      · obtain rfl := Except.ok.inj h
        obtain rfl := grown.eq_of_length_le (by omega)
        exact ⟨grown, all, reach, nodup⟩

/-- A failed run is out of fuel, or the expansion of something reached has failed. -/
theorem saturate_error {fuel : Nat} {xs : List α} {index length : Nat} {e : ε}
    (h : saturate f exhausted fuel xs index length = .error e) :
    e = exhausted ∨ ∃ x, Reach f xs x ∧ f x = .error e := by
  induction fuel generalizing xs index length with
  | zero => exact Or.inl (Except.error.inj h).symm
  | succ fuel ih =>
    unfold saturate at h
    have inside : (xs.drop index).take length ⊆ xs :=
      fun _ member => List.drop_subset _ _ (List.take_subset _ _ member)
    cases call : ((xs.drop index).take length).foldlM (visit f) xs with
    | error e' =>
      rw [call] at h
      obtain rfl := Except.error.inj h
      obtain ⟨x, member, fails⟩ := pass_error call
      exact Or.inr ⟨x, .root (inside member), fails⟩
    | ok middle =>
      rw [call] at h
      change (if xs.length < middle.length then _ else _) = _ at h
      split at h
      · rcases ih h with out | ⟨x, reach, fails⟩
        · exact Or.inl out
        · exact Or.inr ⟨x, reach.mono (pass_ok call inside).2.2.1, fails⟩
      · cases h

theorem foldl_insertNew_of_subset {xs ys : List α} (inside : ys ⊆ xs) : ys.foldl insertNew xs = xs := by
  induction ys with
  | nil => rfl
  | cons y ys ih =>
    have old : insertNew xs y = xs := if_pos (inside List.mem_cons_self)
    rw [List.foldl_cons, old]
    exact ih fun _ member => inside (List.mem_cons_of_mem _ member)

/-- A pass that finds nothing new appends nothing. -/
theorem pass_eq_of_subset {work xs ys : List α} (h : work.foldlM (visit f) xs = .ok ys) (inside : work ⊆ xs)
    (old : ys ⊆ xs) : ys = xs := by
  induction work generalizing xs with
  | nil => exact (Except.ok.inj h).symm
  | cons x work ih =>
    obtain ⟨middle, call, h⟩ := foldlM_cons_ok h
    obtain ⟨zs, _, rfl⟩ := visit_ok call
    have grown := isPrefix_foldl_insertNew xs zs
    have rest : work ⊆ zs.foldl insertNew xs := fun y member => grown.subset (inside (List.mem_cons_of_mem _ member))
    have same : zs.foldl insertNew xs = xs := foldl_insertNew_of_subset fun z member =>
      old ((pass_ok h rest).1.subset (mem_foldl_insertNew.mpr (Or.inr member)))
    rw [same] at h rest
    exact ih h rest old

/-- A run inside `carrier` ends within as many passes as there are entries that are not in the array yet. -/
theorem saturate_ends {carrier : Finset α} {fuel : Nat} {xs : List α} {index length : Nat}
    (bounded : ∀ y, Reach f xs y → y ∈ carrier) (fails : ∀ x, Reach f xs x → f x ≠ .error exhausted)
    (enough : (carrier \ xs.toFinset).card < fuel) :
    saturate f exhausted fuel xs index length ≠ .error exhausted := by
  induction fuel generalizing xs index length with
  | zero => omega
  | succ fuel ih =>
    unfold saturate
    have inside : (xs.drop index).take length ⊆ xs :=
      fun _ member => List.drop_subset _ _ (List.take_subset _ _ member)
    cases call : ((xs.drop index).take length).foldlM (visit f) xs with
    | error e =>
      intro same
      obtain rfl := Except.error.inj same
      obtain ⟨x, member, wrong⟩ := pass_error call
      exact fails x (.root (inside member)) wrong
    | ok middle =>
      change (if xs.length < middle.length then _ else _) ≠ _
      obtain ⟨grown, _, reach, _⟩ := pass_ok call inside
      split
      · rename_i more
        -- what the pass has appended is in the carrier, and was not in the array
        have new : ∃ y ∈ middle, y ∉ xs := by
          by_contra none
          have old : middle ⊆ xs := fun y member => by_contra fun fresh => none ⟨y, member, fresh⟩
          rw [pass_eq_of_subset call inside old] at more
          exact Nat.lt_irrefl _ more
        obtain ⟨y, member, fresh⟩ := new
        have fewer : carrier \ middle.toFinset ⊂ carrier \ xs.toFinset := by
          refine Finset.ssubset_iff_of_subset (Finset.sdiff_subset_sdiff (Finset.Subset.refl _) fun z present => ?_) |>.mpr
            ⟨y, ?_, ?_⟩
          · exact List.mem_toFinset.mpr (grown.subset (List.mem_toFinset.mp present))
          · exact Finset.mem_sdiff.mpr ⟨bounded y (reach y member), fun old => fresh (List.mem_toFinset.mp old)⟩
          · exact fun still => (Finset.mem_sdiff.mp still).2 (List.mem_toFinset.mpr member)
        have less := Finset.card_lt_card fewer
        exact ih (fun y reached => bounded y (reached.mono reach)) (fun x reached => fails x (reached.mono reach))
          (by omega)
      · intro wrong
        cases wrong

/-- A run inside `carrier` ends within as many passes as there are entries. -/
theorem saturate_fuel {carrier : Finset α} {fuel : Nat} {xs : List α} {index length : Nat}
    (bounded : ∀ y, Reach f xs y → y ∈ carrier) (fails : ∀ x, Reach f xs x → f x ≠ .error exhausted)
    (enough : carrier.card < fuel) : saturate f exhausted fuel xs index length ≠ .error exhausted :=
  saturate_ends bounded fails (Nat.lt_of_le_of_lt (Finset.card_le_card Finset.sdiff_subset) enough)

end Worklist
