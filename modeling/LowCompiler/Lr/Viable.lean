import LowCompiler.Lr.Machine

/-!
# Error detection

When the deterministic machine is stuck, the tokens shifted so far start a
sentence, the current token cannot follow them, and the tokens on which the
stack offers an action are those that can.
-/

namespace Lr
namespace Grammar

variable {T N : Type} {g : Grammar T N} {eof : T}

/-- Some sentence, closed by the end marker, starts with `w` and then `t`. -/
def Follows (g : Grammar T N) (eof : T) (w : List T) (t : T) : Prop :=
  ∃ s, g.Yields [.nonterminal g.root] s ∧ (w ++ [t]) <+: (s ++ [eof])

def Stuck (g : Grammar T N) (eof : T) (c : Config T N) : Prop :=
  ∀ a, ¬ g.Acts eof c.stack (c.input.headD eof) a

theorem getD_of_isPrefix {s w : List T} {t : T} (h : (w ++ [t]) <+: (s ++ [eof])) {n : Nat}
    (bound : n ≤ w.length) : (w ++ [t])[n]? = some (s.getD n eof) := by
  obtain ⟨rest, whole⟩ := h
  have inside : n < (w ++ [t]).length := by simp; omega
  have size := congrArg List.length whole
  simp only [List.length_append, List.length_singleton] at size
  have read : (w ++ [t])[n]? = (s ++ [eof])[n]? := by
    rw [← whole, List.getElem?_append_left inside]
  rw [read, List.getD_eq_getElem?_getD]
  rcases Nat.lt_or_ge n s.length with before | behind
  · simp [List.getElem?_append_left before, List.getElem?_eq_getElem before]
  · obtain rfl : n = s.length := by omega
    simp

/-- The word shifted by a run, with the token behind it, is what the run reads. -/
theorem Run.agrees {w s : List T} {d : Config T N} {es : List (Event T N)} (run : g.Run eof ⟨[], w⟩ es d)
    {t : T} (starts : (shifted es ++ [t]) <+: (s ++ [eof])) {n : Nat} (bound : n < (shifted es).length) :
    s.getD n eof = w.getD n eof := by
  have left := getD_of_isPrefix starts (Nat.le_of_lt bound)
  rw [List.getElem?_append_left bound, run.input.2 n bound] at left
  exact (Option.some.inj left).symm

theorem getD_behind {w s : List T} {t : T} (starts : (w ++ [t]) <+: (s ++ [eof])) :
    s.getD w.length eof = t := by
  have read := getD_of_isPrefix starts (Nat.le_refl _)
  simpa using read.symm

theorem sentence_not_stuck (det : g.Deterministic eof) (noEmpty : g.NoEmpty) {s : List T}
    {d : Config T N} {es : List (Event T N)} (sentence : g.Yields [.nonterminal g.root] s)
    (run : g.Run eof ⟨[], s⟩ es d) : ∃ a, g.Acts eof d.stack (d.input.headD eof) a := by
  obtain ⟨fs, e, other, accepting⟩ := run_of_sentence eof noEmpty sentence
  rcases run.comparable det other with ⟨gs, more⟩ | ⟨gs, more⟩
  · cases more with
    | refl => exact ⟨_, accepting⟩
    | step move _ => exact move.act.imp fun _ h => h.1
  · cases more with
    | refl => exact ⟨_, accepting⟩
    | step move _ => exact (accepting.final det move).elim

theorem Stuck.not_follows (det : g.Deterministic eof) (noEmpty : g.NoEmpty) {w : List T}
    {d : Config T N} {es : List (Event T N)} (run : g.Run eof ⟨[], w⟩ es d) (stuck : g.Stuck eof d) :
    ¬ g.Follows eof (shifted es) (d.input.headD eof) := by
  rintro ⟨s, sentence, starts⟩
  have current : d.input.headD eof = w.getD (shifted es).length eof := by
    rw [run.input.1, headD_drop]
  have again := run.replay (w := s) (by
    intro n bound
    rcases Nat.lt_or_ge n (shifted es).length with before | behind
    · exact run.agrees starts before
    · obtain rfl := Nat.le_antisymm bound behind
      rw [getD_behind starts, current])
  obtain ⟨a, acts⟩ := sentence_not_stuck det noEmpty sentence again
  rw [headD_drop, getD_behind starts] at acts
  exact stuck a acts

/-- What the leads offer can follow the tokens shifted so far. -/
theorem Acts.follows (productive : g.Productive) {w : List T} {d : Config T N} {es : List (Event T N)}
    (run : g.Run eof ⟨[], w⟩ es d) {t : T} {a : Action N} (acts : g.Acts eof d.stack t a) :
    g.Follows eof (shifted es) t := by
  cases acts with
  | shift lead next =>
    obtain ⟨δ, derived⟩ := lead.reachable
    rw [drop_of_next next, List.cons_append] at derived
    obtain ⟨z, tail⟩ := yields_some productive (((g.elements _).drop _) ++ δ)
    exact ⟨shifted es ++ t :: z, yields_of_derived derived (yields_append run.yields (.terminal tail)),
      ⟨z ++ [eof], by simp⟩⟩
  | reduce look complete =>
    obtain ⟨δ, derived, follow⟩ := look.reachable
    rw [List.drop_eq_nil_of_le (next_eq_none.mp complete), List.nil_append] at derived
    rcases follow with ⟨rfl, rfl⟩ | ⟨ζ, rfl⟩
    · exact ⟨shifted es, yields_of_derived derived (by simpa using run.yields), List.prefix_rfl⟩
    · obtain ⟨z, tail⟩ := yields_some productive ζ
      exact ⟨shifted es ++ t :: z, yields_of_derived derived (yields_append run.yields (.terminal tail)),
        ⟨z ++ [eof], by simp⟩⟩

theorem Run.shifted_viable (productive : g.Productive) {w : List T} {d : Config T N} {es : List (Event T N)}
    (run : g.Run eof ⟨[], w⟩ es d) {c : Core N} (lead : g.Lead d.stack c) :
    ∃ s, g.Yields [.nonterminal g.root] s ∧ shifted es <+: s := by
  obtain ⟨δ, derived⟩ := lead.reachable
  obtain ⟨z, tail⟩ := yields_some productive (((g.elements c.production).drop c.position) ++ δ)
  exact ⟨shifted es ++ z, yields_of_derived derived (yields_append run.yields tail),
    List.prefix_append _ _⟩

/-- A stuck run ends with a shift: an action on the current token would have let it follow. -/
theorem Stuck.last (det : g.Deterministic eof) (noEmpty : g.NoEmpty) (productive : g.Productive)
    {w : List T} {d : Config T N} {es : List (Event T N)} (run : g.Run eof ⟨[], w⟩ es d)
    (stuck : g.Stuck eof d) : es = [] ∨ ∃ fs t, es = fs ++ [.shift t] := by
  rcases List.eq_nil_or_concat' es with rfl | ⟨fs, ev, rfl⟩
  · exact Or.inl rfl
  · obtain ⟨e, before, last⟩ := run.split
    cases last with
    | step move rest =>
      cases rest
      cases move with
      | shift => exact Or.inr ⟨fs, _, rfl⟩
      | reduce _ acts =>
        have follows := acts.follows productive before
        have none := stuck.not_follows det noEmpty run
        simp only [shifted_append, shifted, List.append_nil] at none
        exact (none follows).elim

theorem Stuck.expected (det : g.Deterministic eof) (noEmpty : g.NoEmpty) (productive : g.Productive)
    {w : List T} {d : Config T N} {es : List (Event T N)} (run : g.Run eof ⟨[], w⟩ es d)
    (stuck : g.Stuck eof d) (t : T) :
    (∃ a, g.Acts eof d.stack t a) ↔ g.Follows eof (shifted es) t := by
  constructor
  · rintro ⟨a, acts⟩
    exact acts.follows productive run
  · rintro ⟨s, sentence, starts⟩
    -- The same events on the sentence `s` lead to the same stack, now with `t` as current token.
    suffices again : g.Run eof ⟨[], s⟩ es ⟨d.stack, s.drop (shifted es).length⟩ by
      obtain ⟨a, acts⟩ := sentence_not_stuck det noEmpty sentence again
      rw [headD_drop, getD_behind starts] at acts
      exact ⟨a, acts⟩
    rcases stuck.last det noEmpty productive run with rfl | ⟨fs, u, rfl⟩
    · cases run
      exact .refl _
    · obtain ⟨e, before, last⟩ := run.split
      have size : (shifted (fs ++ [Event.shift (N := N) u])).length = (shifted fs).length + 1 := by
        simp [shifted]
      have agrees : ∀ n ≤ (shifted fs).length, s.getD n eof = w.getD n eof :=
        fun n bound => run.agrees starts (by omega)
      have replayed := before.replay (w := s) agrees
      cases last with
      | step move rest =>
        cases rest
        cases move with
        | @shift γ v acts =>
          have current : v = w.drop (shifted fs).length := before.input.1
          have head : (s.drop (shifted fs).length).headD eof = v.headD eof := by
            rw [current, headD_drop, headD_drop]
            exact agrees _ (Nat.le_refl _)
          rw [← head] at acts ⊢
          have step : g.Move eof ⟨γ, s.drop (shifted fs).length⟩ _ _ := .shift acts
          simp only [shifted_append, shifted, List.length_append, List.length_singleton, ← List.tail_drop]
          exact replayed.trans (.single step)

end Grammar
end Lr
