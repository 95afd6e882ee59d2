import LowCompiler.Lr.Machine

/-!
# Termination of the deterministic machine

Shifts consume input and longer reductions shrink the stack. A chain of
reductions of length one over one stack cannot cycle: the lead by which the
cycle was entered would offer a second action.
-/

namespace Lr
namespace Grammar

variable {T N : Type} {g : Grammar T N} {eof : T}

/-- `A` on top of `γ` can be reduced to `B` by a production of length one. -/
def UnitStep (g : Grammar T N) (eof : T) (γ : List (Symbol T N)) (t : T) (A B : N) : Prop :=
  B ≠ g.root ∧ ∃ i, g.elements ⟨B, i⟩ = [.nonterminal A] ∧ g.Look eof γ ⟨⟨B, i⟩, 0⟩ t

theorem look_not_cyclic (det : g.Deterministic eof) {γ : List (Symbol T N)} {c : Core N} {t : T}
    (look : g.Look eof γ c t) : c.position = 0 → c.production.rule ≠ g.root →
      ¬ Relation.TransGen (g.UnitStep eof γ t) c.production.rule c.production.rule := by
  induction look with
  | root => exact fun _ other => absurd rfl other
  | @first γ c p Y t lead next after first has =>
    intro _ _ cyclic
    obtain ⟨B, ⟨_, i, shape, look⟩, _⟩ := Relation.TransGen.head'_iff.mp cyclic
    have complete : g.Look eof (.nonterminal p.rule :: γ) (Core.advance ⟨⟨B, i⟩, 0⟩) t :=
      .advance look (next_of_drop (by simpa using shape))
    have reduce := Acts.reduce (t := t) complete (by simp [shape])
    obtain ⟨d, waiting, shift⟩ := (Lead.advance lead next).shift_first after first
    cases det _ _ _ _ (.shift waiting shift) reduce
  | @inherit γ c p t look next after has ih =>
    intro _ _ cyclic
    obtain ⟨B, ⟨other, i, shape, unitLook⟩, back⟩ := Relation.TransGen.head'_iff.mp cyclic
    have complete : g.Look eof (.nonterminal p.rule :: γ) (Core.advance ⟨⟨B, i⟩, 0⟩) t :=
      .advance unitLook (next_of_drop (by simpa using shape))
    have reduce := Acts.reduce (t := t) complete (by simp [shape])
    -- The lead that entered the cycle is complete too, so it is the unit lead itself.
    have entered : g.Acts eof (.nonterminal p.rule :: γ) t (.reduce c.advance.production) :=
      .reduce (.advance look next) after
    have same : c.production = ⟨B, i⟩ := Action.reduce.inj (det _ _ _ _ entered reduce)
    have start : c.position = 0 := by
      have bound := (List.getElem?_eq_some_iff.mp next).1
      simpa [same, shape] using bound
    refine ih start (by rw [same]; exact other) ?_
    rw [same]
    exact Relation.TransGen.tail' back ⟨other, i, shape, unitLook⟩
  | advance => intro start; simp at start

theorem unitStep_irrefl (det : g.Deterministic eof) {γ : List (Symbol T N)} {t : T} (A : N) :
    ¬ Relation.TransGen (g.UnitStep eof γ t) A A := by
  intro cyclic
  obtain ⟨_, _, other, i, shape, look⟩ := Relation.TransGen.tail'_iff.mp cyclic
  exact look_not_cyclic det look rfl other cyclic

theorem unitStep_wellFounded [Finite N] (det : g.Deterministic eof) (γ : List (Symbol T N)) (t : T) :
    WellFounded fun B A => g.UnitStep eof γ t A B := by
  have irrefl : Std.Irrefl (Relation.TransGen fun B A => g.UnitStep eof γ t A B) :=
    ⟨fun A cyclic => unitStep_irrefl det A (Relation.transGen_swap.mp cyclic)⟩
  have wf := Finite.wellFounded_of_trans_of_irrefl (Relation.TransGen fun B A => g.UnitStep eof γ t A B)
  exact wf.mono fun _ _ step => .single step

section Termination
variable [Finite N] (det : g.Deterministic eof) (free : g.EofFree eof) (noEmpty : g.NoEmpty)

include det free noEmpty in
/-- Every run is finite. The induction is on the input, then on the height of the stack, and last
along the reductions of length one. -/
theorem move_acc (c : Config T N) : Acc (fun d c => ∃ ev, g.Move eof c ev d) c := by
  obtain ⟨γ, w⟩ := c
  induction hw : w.length using Nat.strong_induction_on generalizing γ w with
  | _ inputSize ihInput =>
  induction hγ : γ.length using Nat.strong_induction_on generalizing γ with
  | _ height ihHeight =>
  subst hw hγ
  have shorter : ∀ {δ : List (Symbol T N)} {ev d}, δ.length = γ.length →
      g.Move eof ⟨δ, w⟩ ev d → (∃ p base, δ = (g.elements p).reverse ++ base ∧ g.elements p ≠ [] ∧
        (g.elements p).length = 1 ∧ d = ⟨.nonterminal p.rule :: base, w⟩ ∧ p.rule ≠ g.root ∧
        g.Look eof base ⟨p, 0⟩ (w.headD eof)) ∨ Acc (fun d c => ∃ ev, g.Move eof c ev d) d := by
    intro δ ev d size move
    cases move with
    | shift acts =>
      have nonempty := free.input_ne_nil acts
      have := List.length_pos_iff.mpr nonempty
      exact Or.inr (ihInput _ (by rw [List.length_tail]; omega) _ _ rfl)
    | @reduce base _ p other acts =>
      have look := Acts.reduce_iff.mp acts
      obtain ⟨under, split, start⟩ := acts.reduce_base
      obtain rfl := List.append_cancel_left split
      have nonempty : g.elements p ≠ [] := elements_ne_nil noEmpty look.lead.has
      have positive := List.length_pos_iff.mpr nonempty
      simp only [List.length_append, List.length_reverse] at size
      by_cases one : (g.elements p).length = 1
      · exact Or.inl ⟨p, base, rfl, nonempty, one, rfl, other, start⟩
      · exact Or.inr (ihHeight _ (by simp only [List.length_cons]; omega) _ rfl)
  -- The stack below the top symbol is fixed along reductions of length one.
  have chain : ∀ (base : List (Symbol T N)) (A : N), base.length + 1 = γ.length →
      Acc (fun d c => ∃ ev, g.Move eof c ev d) ⟨.nonterminal A :: base, w⟩ := by
    intro base A size
    induction A using (unitStep_wellFounded det base (w.headD eof)).induction with
    | _ A ihA =>
    refine Acc.intro _ ?_
    rintro d ⟨ev, move⟩
    rcases shorter (by simpa using size) move with ⟨p, under, split, _, one, rfl, other, look⟩ | done
    · obtain ⟨X, shape⟩ := List.length_eq_one_iff.mp one
      rw [shape] at split
      obtain ⟨rfl, rfl⟩ := List.cons.inj split
      exact ihA _ ⟨other, p.variant, shape, look⟩
    · exact done
  refine Acc.intro _ ?_
  rintro d ⟨ev, move⟩
  rcases shorter rfl move with ⟨p, under, rfl, _, one, rfl, _, _⟩ | done
  · exact chain under p.rule (by simp [one]; omega)
  · exact done

end Termination

end Grammar
end Lr
