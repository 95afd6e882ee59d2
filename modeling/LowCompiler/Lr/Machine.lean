import LowCompiler.Lr.Items
import Mathlib.Order.WellFounded
import Mathlib.Data.Fintype.Card

/-!
# The LR(1) machine of a grammar

A configuration is a stack of symbols, the top first, and the tokens still to
read; behind the last token the end marker repeats forever. What the machine
may do is read off the leads of its stack. Nothing here chooses between two
actions: `Deterministic` says that there never is a choice.
-/

namespace Lr

variable {T N : Type}

structure Config (T N : Type) where
  stack : List (Symbol T N)
  input : List T

inductive Action (N : Type) where
  | shift
  | reduce (p : Production N)
  deriving DecidableEq

inductive Event (T N : Type) where
  | shift (t : T)
  | reduce (p : Production N)

def shifted : List (Event T N) → List T
  | [] => []
  | .shift t :: es => t :: shifted es
  | .reduce _ :: es => shifted es

def reductions : List (Event T N) → List (Production N)
  | [] => []
  | .shift _ :: es => reductions es
  | .reduce p :: es => p :: reductions es

@[simp] theorem shifted_append (es fs : List (Event T N)) : shifted (es ++ fs) = shifted es ++ shifted fs := by
  induction es with
  | nil => rfl
  | cons e es ih => cases e <;> simp [shifted, ih]

namespace Grammar

/-- The actions the leads over `γ` offer on the token `t`. -/
inductive Acts (g : Grammar T N) (eof : T) (γ : List (Symbol T N)) (t : T) : Action N → Prop where
  | shift {c : Core N} : g.Lead γ c → g.next c = some (.terminal t) → Acts g eof γ t .shift
  | reduce {c : Core N} : g.Look eof γ c t → g.next c = none → Acts g eof γ t (.reduce c.production)

inductive Move (g : Grammar T N) (eof : T) : Config T N → Event T N → Config T N → Prop where
  | shift {γ : List (Symbol T N)} {w : List T} :
      g.Acts eof γ (w.headD eof) .shift →
      Move g eof ⟨γ, w⟩ (.shift (w.headD eof)) ⟨.terminal (w.headD eof) :: γ, w.tail⟩
  | reduce {γ : List (Symbol T N)} {w : List T} {p : Production N} :
      p.rule ≠ g.root → g.Acts eof ((g.elements p).reverse ++ γ) (w.headD eof) (.reduce p) →
      Move g eof ⟨(g.elements p).reverse ++ γ, w⟩ (.reduce p) ⟨.nonterminal p.rule :: γ, w⟩

inductive Run (g : Grammar T N) (eof : T) : Config T N → List (Event T N) → Config T N → Prop where
  | refl (c : Config T N) : Run g eof c [] c
  | step {c d e : Config T N} {ev : Event T N} {es : List (Event T N)} :
      Move g eof c ev d → Run g eof d es e → Run g eof c (ev :: es) e

/-- The reduction by the root is the accepting action. -/
def Accepting (g : Grammar T N) (eof : T) (c : Config T N) : Prop :=
  g.Acts eof c.stack (c.input.headD eof) (.reduce ⟨g.root, 0⟩)

def Deterministic (g : Grammar T N) (eof : T) : Prop :=
  ∀ γ t a b, g.Acts eof γ t a → g.Acts eof γ t b → a = b

/-- The actions of the canonical LR(1) item set over `γ` on the token `t`. -/
inductive ItemActs (g : Grammar T N) (eof : T) (γ : List (Symbol T N)) (t : T) : Action N → Prop where
  | shift {c : Core N} {u : T} : g.Item eof γ c u → g.next c = some (.terminal t) → ItemActs g eof γ t .shift
  | reduce {c : Core N} : g.Item eof γ c t → g.next c = none → ItemActs g eof γ t (.reduce c.production)

/-- The canonical LR(1) item sets never give two different actions for one token. -/
def IsLR1 (g : Grammar T N) (eof : T) : Prop := ∀ γ t a b, g.ItemActs eof γ t a → g.ItemActs eof γ t b → a = b

variable {g : Grammar T N} {eof : T}

theorem ItemActs.acts {γ : List (Symbol T N)} {t : T} {a : Action N} (h : g.ItemActs eof γ t a) :
    g.Acts eof γ t a := by
  cases h with
  | shift item next => exact .shift item.look.lead next
  | reduce item next => exact .reduce item.look next

theorem Deterministic.isLR1 (det : g.Deterministic eof) : g.IsLR1 eof :=
  fun γ t a b left right => det γ t a b left.acts right.acts

theorem Run.trans {c d e : Config T N} {es fs : List (Event T N)} (first : g.Run eof c es d)
    (second : g.Run eof d fs e) : g.Run eof c (es ++ fs) e := by
  induction first with
  | refl => exact second
  | step move _ ih => exact .step move (ih second)

theorem Run.single {c d : Config T N} {ev : Event T N} (move : g.Move eof c ev d) : g.Run eof c [ev] d :=
  .step move (.refl d)

/-- Undoing the last event of a run. -/
theorem Run.split {c e : Config T N} {es fs : List (Event T N)} (h : g.Run eof c (es ++ fs) e) :
    ∃ d, g.Run eof c es d ∧ g.Run eof d fs e := by
  induction es generalizing c with
  | nil => exact ⟨c, .refl c, h⟩
  | cons ev es ih =>
    cases h with
    | step move rest =>
      obtain ⟨d, left, right⟩ := ih rest
      exact ⟨d, .step move left, right⟩

theorem Acts.nonempty {γ : List (Symbol T N)} {t : T} {a : Action N} (h : g.Acts eof γ t a) :
    ∃ c, g.Lead γ c := by
  cases h with
  | shift lead _ => exact ⟨_, lead⟩
  | reduce look _ => exact ⟨_, look.lead⟩

/-- Under a complete lead the stack holds the production's symbols, and below them the production
starts with the same lookahead. -/
theorem Look.complete {γ : List (Symbol T N)} {c : Core N} {t : T} (look : g.Look eof γ c t)
    (complete : g.next c = none) :
    c.position = (g.elements c.production).length ∧
    ∃ base, γ = (g.elements c.production).reverse ++ base ∧ g.Look eof base ⟨c.production, 0⟩ t := by
  have full : c.position = (g.elements c.production).length :=
    Nat.le_antisymm look.lead.position_le (next_eq_none.mp complete)
  obtain ⟨base, rfl, start⟩ := look.stack
  exact ⟨full, base, by rw [full, List.take_length], start⟩

theorem Acts.reduce_iff {γ : List (Symbol T N)} {t : T} {p : Production N} :
    g.Acts eof γ t (.reduce p) ↔ g.Look eof γ ⟨p, (g.elements p).length⟩ t := by
  constructor
  · rintro (_ | ⟨look, complete⟩)
    rw [← (look.complete complete).1]
    exact look
  · intro look
    exact .reduce look (next_eq_none.mpr (Nat.le_refl _))

theorem Acts.reduce_base {γ : List (Symbol T N)} {t : T} {p : Production N}
    (h : g.Acts eof γ t (.reduce p)) :
    ∃ base, γ = (g.elements p).reverse ++ base ∧ g.Look eof base ⟨p, 0⟩ t :=
  ((Acts.reduce_iff.mp h).complete (next_eq_none.mpr (Nat.le_refl _))).2

/-! ### Soundness -/

theorem Run.rightmost {c d : Config T N} {es : List (Event T N)} (run : g.Run eof c es d) :
    g.Rightmost d.stack.reverse (reductions es).reverse
      (c.stack.reverse ++ (shifted es).map .terminal) := by
  induction run with
  | refl c => simpa [reductions, shifted] using Rightmost.refl c.stack.reverse
  | @step _ _ _ _ es move _ ih =>
    cases move with
    | shift => simpa [reductions, shifted] using ih
    | @reduce γ w p _ acts =>
      have has : g.Has p := (Acts.reduce_iff.mp acts).lead.has
      have last : g.Rightmost (γ.reverse ++ .nonterminal p.rule :: (shifted es).map .terminal) [p] _ :=
        .step _ has (.refl _)
      rw [List.reverse_cons, List.append_assoc, List.singleton_append] at ih
      simpa [reductions, shifted] using rightmost_trans ih last

/-- The stack of a run from the empty stack derives the tokens shifted so far. -/
theorem Run.yields {w : List T} {d : Config T N} {es : List (Event T N)} (run : g.Run eof ⟨[], w⟩ es d) :
    g.Yields d.stack.reverse (shifted es) :=
  yields_of_rightmost run.rightmost (by simpa using yields_terminals g (shifted es))

theorem Move.lead {c d : Config T N} {ev : Event T N} (move : g.Move eof c ev d) : ∃ i, g.Lead d.stack i := by
  cases move with
  | shift acts =>
    cases acts with
    | shift lead next => exact ⟨_, .advance lead next⟩
  | reduce other acts =>
    obtain ⟨base, split, look⟩ := acts.reduce_base
    obtain rfl := List.append_cancel_left split
    rcases look.lead.waiting with ⟨_, rfl⟩ | ⟨i, lead, next⟩
    · exact absurd rfl other
    · exact ⟨_, .advance lead next⟩

/-- The stack of a run never runs out of leads. -/
theorem Run.lead {c d : Config T N} {es : List (Event T N)} (run : g.Run eof c es d)
    (start : ∃ i, g.Lead c.stack i) : ∃ i, g.Lead d.stack i := by
  induction run with
  | refl => exact start
  | step move _ ih => exact ih move.lead

/-! ### What a run reads -/

theorem getD_tail (w : List T) (n : Nat) : w.tail.getD n eof = w.getD (n + 1) eof := by
  cases w <;> simp

theorem headD_eq_getD (w : List T) : w.headD eof = w.getD 0 eof := by cases w <;> simp

theorem headD_drop (w : List T) (n : Nat) : (w.drop n).headD eof = w.getD n eof := by
  rw [headD_eq_getD, List.getD_eq_getElem?_getD, List.getElem?_drop, Nat.add_zero,
    ← List.getD_eq_getElem?_getD]

theorem Run.input {c d : Config T N} {es : List (Event T N)} (run : g.Run eof c es d) :
    d.input = c.input.drop (shifted es).length ∧
    ∀ n, n < (shifted es).length → (shifted es)[n]? = some (c.input.getD n eof) := by
  induction run with
  | refl => simp [shifted]
  | step move _ ih =>
    cases move with
    | @shift γ w _ =>
      refine ⟨by rw [ih.1]; simp [shifted], ?_⟩
      intro n bound
      cases n with
      | zero => rw [← headD_eq_getD]; simp [shifted]
      | succ n =>
        rw [← getD_tail]
        simpa [shifted] using ih.2 n (by simpa [shifted] using bound)
    | reduce => exact ih

/-- Under a shift the input is not exhausted. -/
theorem EofFree.input_ne_nil (free : g.EofFree eof) {γ : List (Symbol T N)} {w : List T}
    (acts : g.Acts eof γ (w.headD eof) .shift) : w ≠ [] := by
  rintro rfl
  cases acts with
  | shift lead next => exact free _ lead.has (List.mem_of_getElem? next)

/-- Without end markers in the grammar, a run shifts what is gone from the input. -/
theorem Run.input_eq (free : g.EofFree eof) {c d : Config T N} {es : List (Event T N)}
    (run : g.Run eof c es d) : c.input = shifted es ++ d.input := by
  induction run with
  | refl => rfl
  | step move _ ih =>
    cases move with
    | shift acts =>
      obtain ⟨t, w, rfl⟩ := List.exists_cons_of_ne_nil (free.input_ne_nil acts)
      exact congrArg (t :: ·) ih
    | reduce => exact ih

/-- A run never looks past the token behind the ones it shifts: it repeats on any input that
agrees up to there. -/
theorem Run.replay {c d : Config T N} {es : List (Event T N)} (run : g.Run eof c es d) {w : List T}
    (same : ∀ n ≤ (shifted es).length, w.getD n eof = c.input.getD n eof) :
    g.Run eof ⟨c.stack, w⟩ es ⟨d.stack, w.drop (shifted es).length⟩ := by
  induction run generalizing w with
  | refl => exact .refl _
  | @step c d e ev es move _ ih =>
    cases move with
    | @shift γ u acts =>
      have head : w.headD eof = u.headD eof := by
        rw [headD_eq_getD, headD_eq_getD]
        exact same 0 (Nat.zero_le _)
      have rest := ih (w := w.tail) (by
        intro n bound
        rw [getD_tail, getD_tail]
        exact same (n + 1) (by simpa [shifted] using bound))
      rw [← head] at acts rest
      rw [← head]
      have move := Move.shift acts
      simp only [shifted, List.length_cons, ← List.drop_tail]
      exact .step move rest
    | @reduce γ u p other acts =>
      have head : w.headD eof = u.headD eof := by
        rw [headD_eq_getD, headD_eq_getD]
        exact same 0 (Nat.zero_le _)
      rw [← head] at acts
      exact .step (.reduce other acts) (ih same)

/-! ### Determinism -/

theorem Move.act {c d : Config T N} {ev : Event T N} (move : g.Move eof c ev d) :
    ∃ a, g.Acts eof c.stack (c.input.headD eof) a ∧ a ≠ .reduce ⟨g.root, 0⟩ := by
  cases move with
  | shift acts => exact ⟨_, acts, by simp⟩
  | @reduce _ _ p other acts =>
    refine ⟨_, acts, ?_⟩
    rintro ⟨⟩
    exact other rfl

theorem Move.deterministic (det : g.Deterministic eof) {c d e : Config T N} {ev fv : Event T N}
    (first : g.Move eof c ev d) (second : g.Move eof c fv e) : ev = fv ∧ d = e := by
  cases first with
  | shift acts =>
    generalize same : Config.mk _ _ = c' at second
    cases second with
    | shift =>
      obtain ⟨rfl, rfl⟩ := Config.mk.inj same
      exact ⟨rfl, rfl⟩
    | reduce _ other =>
      obtain ⟨rfl, rfl⟩ := Config.mk.inj same
      cases det _ _ _ _ acts other
  | reduce _ acts =>
    generalize same : Config.mk _ _ = c' at second
    cases second with
    | shift other =>
      obtain ⟨rfl, rfl⟩ := Config.mk.inj same
      cases det _ _ _ _ acts other
    | reduce _ other =>
      obtain ⟨sameStack, rfl⟩ := Config.mk.inj same
      rw [← sameStack] at other
      obtain rfl := Action.reduce.inj (det _ _ _ _ acts other)
      obtain rfl := List.append_cancel_left sameStack
      exact ⟨rfl, rfl⟩

theorem Accepting.final (det : g.Deterministic eof) {c d : Config T N} {ev : Event T N}
    (accepting : g.Accepting eof c) (move : g.Move eof c ev d) : False := by
  obtain ⟨a, acts, other⟩ := move.act
  exact other (det _ _ _ _ acts accepting)

/-- Of two runs from one configuration, one continues the other. -/
theorem Run.comparable (det : g.Deterministic eof) {c d e : Config T N} {es fs : List (Event T N)}
    (first : g.Run eof c es d) (second : g.Run eof c fs e) :
    (∃ gs, g.Run eof d gs e) ∨ ∃ gs, g.Run eof e gs d := by
  induction first generalizing fs with
  | refl => exact Or.inl ⟨fs, second⟩
  | step move rest ih =>
    cases second with
    | refl => exact Or.inr ⟨_, .step move rest⟩
    | step other tail =>
      obtain ⟨rfl, rfl⟩ := move.deterministic det other
      exact ih tail

/-! ### Completeness -/

/-- Over a stack with a lead whose remaining symbols yield `w`, the machine reads `w` and pushes
these symbols, unless it accepts before. The induction is on the yield, one case for each way the
symbol after the dot is expanded. -/
theorem run_of_yields (noEmpty : g.NoEmpty) {β : List (Symbol T N)} {w : List T} (h : g.Yields β w) :
    ∀ (γ : List (Symbol T N)) (c : Core N) (rest : List T),
      (g.elements c.production).drop c.position = β → g.Look eof γ c (rest.headD eof) →
      (∃ es d, g.Run eof ⟨γ, w ++ rest⟩ es d ∧ g.Accepting eof d) ∨
      ∃ es, g.Run eof ⟨γ, w ++ rest⟩ es ⟨β.reverse ++ γ, rest⟩ ∧
        g.Look eof (β.reverse ++ γ) ⟨c.production, (g.elements c.production).length⟩ (rest.headD eof) := by
  induction h with
  | nil =>
    intro γ c rest remaining look
    refine Or.inr ⟨[], .refl _, ?_⟩
    have full := (look.complete (next_eq_none.mpr (List.drop_eq_nil_iff.mp remaining))).1
    rw [← full]
    exact look
  | @terminal t β w _ ih =>
    intro γ c rest remaining look
    have next := next_of_drop remaining
    have move : g.Move eof ⟨γ, t :: (w ++ rest)⟩ _ _ := .shift (.shift look.lead next)
    have tail : (g.elements c.advance.production).drop c.advance.position = β := by
      have split := drop_of_next next
      rw [remaining] at split
      exact (List.cons.inj split).2.symm
    rcases ih _ c.advance rest tail (.advance look next) with ⟨es, d, run, accepting⟩ | ⟨es, run, look⟩
    · exact Or.inl ⟨_, d, .step move run, accepting⟩
    · exact Or.inr ⟨_, by simpa using Run.step move run, by simpa using look⟩
  | @nonterminal A v β w₁ w₂ member _ tailYields ihead itail =>
    intro γ c rest remaining look
    have next := next_of_drop remaining
    have tail : (g.elements c.advance.production).drop c.advance.position = β := by
      have split := drop_of_next next
      rw [remaining] at split
      exact (List.cons.inj split).2.symm
    obtain ⟨i, has, shape⟩ := mem_variants_iff.mp member
    -- The token behind the first symbol's yield is a lookahead of the expanded lead.
    have start : g.Look eof γ ⟨⟨A, i⟩, 0⟩ ((w₂ ++ rest).headD eof) := by
      cases β with
      | nil =>
        cases tailYields
        exact .inherit look next (next_eq_none.mpr (List.drop_eq_nil_iff.mp tail)) has
      | cons Y β =>
        obtain ⟨t, u, rfl⟩ := List.exists_cons_of_ne_nil
          (yields_ne_nil noEmpty tailYields (List.cons_ne_nil _ _))
        exact .first look.lead next (next_of_drop tail) (first_of_yields noEmpty tailYields rfl rfl) has
    rw [List.append_assoc]
    rcases ihead γ ⟨⟨A, i⟩, 0⟩ (w₂ ++ rest) shape start with early | ⟨es, run, complete⟩
    · exact Or.inl early
    · have acts := Acts.reduce_iff.mpr complete
      by_cases root : A = g.root
      · subst root
        obtain rfl := has_root_iff.mp has
        exact Or.inl ⟨es, _, run, acts⟩
      · rw [← shape] at run acts
        have reduce : g.Move eof ⟨(g.elements ⟨A, i⟩).reverse ++ γ, w₂ ++ rest⟩ _
            ⟨.nonterminal A :: γ, w₂ ++ rest⟩ := .reduce root acts
        have run := run.trans (.single reduce)
        rcases itail _ c.advance rest tail (.advance look next) with ⟨fs, d, more, accepting⟩ | ⟨fs, more, look⟩
        · exact Or.inl ⟨_, d, run.trans more, accepting⟩
        · exact Or.inr ⟨_, by simpa using run.trans more, by simpa using look⟩

/-- On every sentence the machine can reach an accepting configuration. -/
theorem run_of_sentence (eof : T) (noEmpty : g.NoEmpty) {w : List T} (h : g.Yields [.nonterminal g.root] w) :
    ∃ es d, g.Run eof ⟨[], w⟩ es d ∧ g.Accepting eof d := by
  cases h with
  | nonterminal member head tail =>
    cases tail
    rw [g.augmented, List.mem_singleton] at member
    subst member
    have lead : (g.elements ⟨g.root, 0⟩).drop 0 = [.nonterminal g.start] := elements_root g
    rcases run_of_yields noEmpty head [] ⟨⟨g.root, 0⟩, 0⟩ [] lead .root with early | ⟨es, run, look⟩
    · simpa using early
    · exact ⟨es, _, by simpa using run, Acts.reduce_iff.mpr look⟩

end Grammar

end Lr
