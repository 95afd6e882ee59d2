import LowCompiler.Generator.States

/-!
# The rows of the states

What `gather_states` leaves behind, in two parts: the lead arrays of its states
are a saturation, and the rows of a state are a function of its leads and of
these arrays. `gatherStates_simulates` connects both with the array of states that
the source fills in place.
-/

namespace Low

variable {R : Type} [LinearOrder R] [Fintype R]

abbrev Group (R : Type) := Option (Symbol Token R) × List (Lead R)

/-- The leads of a group have its symbol after the dot. -/
def Uniform (G : Grammar R) (group : Group R) : Prop :=
  group.2 ≠ [] ∧ ∀ l ∈ group.2, leadGetSymbol G l l.position = group.1

/-- The leads of the state to which a group goes. -/
def shiftState (G : Grammar R) (fuel : Nat) (leads : List (Lead R)) : Except Abort (List (Lead R)) :=
  (gatherLeads G fuel (leads.map Lead.advance) 0 (leads.map Lead.advance).length).map consolidateLeads

def successor (G : Grammar R) (fuel : Nat) (group : Group R) : Except Abort (List (List (Lead R))) :=
  match group.1 with
  | none => if group.2.length ≤ 1 then .ok [] else .error .reduceReduceConflict
  | some _ => (shiftState G fuel group.2).map fun leads => [leads]

def successors (G : Grammar R) (fuel : Nat) (leads : List (Lead R)) : Except Abort (List (List (Lead R))) :=
  ((groupLeads G leads []).mapM (successor G fuel)).map List.flatten

/-- What a group adds to the rows of its state when `arrays` are the leads of all states. -/
def State.addGroup (G : Grammar R) (fuel : Nat) (arrays : List (List (Lead R))) (s : State R)
    (group : Group R) : State R :=
  match group.1 with
  | none => { s with tokenActions := s.tokenActions ++ group.2.map reduceAction }
  | some X =>
    match shiftState G fuel group.2 with
    | .ok leads => s.addSymbolAction (some X) (arrays.idxOf leads)
    | .error _ => s

section Groups
variable {G : Grammar R} {fuel i : Nat} {states : List (State R)} {leads : List (Lead R)}

omit [Fintype R] in
theorem findState_spec (states : List (State R)) (leads : List (Lead R)) :
    ∃ fresh, findState states leads =
        (states ++ fresh.map State.new, (states.map State.leads ++ fresh).idxOf leads) ∧
      states.map State.leads ++ fresh = Worklist.insertNew (states.map State.leads) leads := by
  have search : states.findIdx (fun s => decide (leads = s.leads)) = (states.map State.leads).idxOf leads := by
    rw [List.idxOf, List.findIdx_map]
    congr 1
    funext s
    rw [Bool.eq_iff_iff, decide_eq_true_iff, Function.comp_apply, beq_iff_eq, eq_comm]
  have found : (states.map State.leads).idxOf leads < states.length ↔ leads ∈ states.map State.leads := by
    rw [← List.idxOf_lt_length_iff, List.length_map]
  unfold findState Worklist.insertNew
  by_cases member : leads ∈ states.map State.leads
  · refine ⟨[], ?_, by simp [member]⟩
    simp only [search, if_pos (found.mpr member), List.map_nil, List.append_nil]
  · refine ⟨[leads], ?_, by simp [member]⟩
    simp only [search, if_neg (fun h => member (found.mp h))]
    rw [List.idxOf_append, if_neg member]
    simp

theorem gatherGroup_reduce {leads : List (Lead R)} (uniform : Uniform G (none, leads)) :
    gatherGroup G fuel i states (none, leads) =
      if leads.length ≤ 1 then .ok (states.modify i fun s => { s with
        tokenActions := s.tokenActions ++ leads.map reduceAction })
      else .error .reduceReduceConflict := by
  obtain ⟨nonempty, uniform⟩ := uniform
  have reduce : leads.filter (fun lead => (leadGetSymbol G lead lead.position).isNone) = leads :=
    List.filter_eq_self.mpr fun l member => by rw [uniform l member]; rfl
  have shift : leads.filter (fun lead => (leadGetSymbol G lead lead.position).isSome) = [] :=
    List.filter_eq_nil_iff.mpr fun l member => by rw [uniform l member]; simp
  have positive := List.length_pos_iff.mpr nonempty
  unfold gatherGroup
  simp only [reduce, shift]
  rw [assertion_bind (by simp [positive]), assertion_bind (by simp [positive])]
  by_cases single : leads.length ≤ 1
  · rw [assertion_bind (decide_eq_true single), if_pos single]
    obtain ⟨lead, rfl⟩ := List.length_eq_one_iff.mp (Nat.le_antisymm single positive)
    rfl
  · simp [assertion, single, bind, Except.bind]

theorem gatherGroup_shift {leads : List (Lead R)} {X : Symbol Token R} (uniform : Uniform G (some X, leads)) :
    gatherGroup G fuel i states (some X, leads) = (shiftState G fuel leads).map fun closure =>
      (findState states closure).1.modify i (.addSymbolAction (some X) (findState states closure).2) := by
  obtain ⟨nonempty, uniform⟩ := uniform
  have reduce : leads.filter (fun lead => (leadGetSymbol G lead lead.position).isNone) = [] :=
    List.filter_eq_nil_iff.mpr fun l member => by rw [uniform l member]; simp
  have shift : leads.filter (fun lead => (leadGetSymbol G lead lead.position).isSome) = leads :=
    List.filter_eq_self.mpr fun l member => by rw [uniform l member]; rfl
  have positive : 0 < (leads.map Lead.advance).length := by
    rw [List.length_map]
    exact List.length_pos_iff.mpr nonempty
  unfold gatherGroup shiftState
  simp only [reduce, shift]
  rw [assertion_bind (by rw [decide_eq_true positive]; rfl),
    assertion_bind (by rw [decide_eq_true positive]; rfl), assertion_bind (by rfl), if_pos positive]
  cases gatherLeads G fuel (leads.map Lead.advance) 0 (leads.map Lead.advance).length <;> rfl

/-- Growing the array of states does not move what is found in it. -/
theorem State.addGroup_stable {arrays : List (List (Lead R))} (more : List (List (Lead R))) {group : Group R}
    {new : List (List (Lead R))} (run : successor G fuel group = .ok new) (found : new ⊆ arrays) (s : State R) :
    s.addGroup G fuel (arrays ++ more) group = s.addGroup G fuel arrays group := by
  obtain ⟨symbol, leads⟩ := group
  cases symbol with
  | none => rfl
  | some X =>
    simp only [successor] at run
    simp only [State.addGroup]
    cases shift : shiftState G fuel leads with
    | error e => rfl
    | ok closure =>
      rw [shift] at run
      obtain rfl := Except.ok.inj run
      exact congrArg (fun k => s.addSymbolAction (some X) k) (List.idxOf_append_of_mem (found List.mem_cons_self))

@[simp] theorem State.addGroup_leads (arrays : List (List (Lead R))) (s : State R) (group : Group R) :
    (s.addGroup G fuel arrays group).leads = s.leads := by
  obtain ⟨symbol, leads⟩ := group
  cases symbol with
  | none => rfl
  | some X =>
    simp only [State.addGroup]
    cases shiftState G fuel leads with
    | error e => rfl
    | ok closure => cases X <;> rfl

theorem gatherGroup_error {group : Group R} {e : Abort} (uniform : Uniform G group)
    (run : successor G fuel group = .error e) : gatherGroup G fuel i states group = .error e := by
  obtain ⟨symbol, leads⟩ := group
  cases symbol with
  | none =>
    rw [gatherGroup_reduce uniform]
    simp only [successor] at run
    split at run
    · cases run
    · rename_i several
      obtain rfl := Except.error.inj run
      exact if_neg several
  | some X =>
    rw [gatherGroup_shift uniform]
    simp only [successor] at run
    cases shift : shiftState G fuel leads with
    | error e' =>
      rw [shift] at run
      obtain rfl := Except.error.inj run
      rfl
    | ok closure =>
      rw [shift] at run
      cases run

theorem gatherGroup_ok (i : Nat) (states : List (State R)) {group : Group R} {new : List (List (Lead R))} (uniform : Uniform G group)
    (run : successor G fuel group = .ok new) :
    ∃ fresh, states.map State.leads ++ fresh = new.foldl Worklist.insertNew (states.map State.leads) ∧
      gatherGroup G fuel i states group = .ok ((states ++ fresh.map State.new).modify i
        fun s => s.addGroup G fuel (states.map State.leads ++ fresh) group) := by
  obtain ⟨symbol, leads⟩ := group
  cases symbol with
  | none =>
    rw [gatherGroup_reduce uniform]
    simp only [successor] at run
    split at run
    · rename_i single
      obtain rfl := Except.ok.inj run
      exact ⟨[], by simp, by simp [single, State.addGroup]⟩
    · cases run
  | some X =>
    rw [gatherGroup_shift uniform]
    simp only [successor] at run
    simp only [State.addGroup]
    cases shift : shiftState G fuel leads with
    | error e =>
      rw [shift] at run
      cases run
    | ok closure =>
      rw [shift] at run
      obtain rfl := Except.ok.inj run
      obtain ⟨fresh, find, grown⟩ := findState_spec states closure
      refine ⟨fresh, grown, ?_⟩
      simp only [Except.map, find]

/-- The inner loop of `gather_states`: the groups of state `i` in turn. -/
theorem gatherGroups_error {groups : List (Group R)} {e : Abort} (uniform : ∀ g ∈ groups, Uniform G g)
    (run : groups.mapM (successor G fuel) = .error e) :
    groups.foldlM (gatherGroup G fuel i) states = .error e := by
  induction groups generalizing states with
  | nil => cases run
  | cons g groups ih =>
    rw [List.mapM_cons] at run
    rw [List.foldlM_cons]
    cases head : successor G fuel g with
    | error e' =>
      rw [head] at run
      rw [gatherGroup_error (uniform g List.mem_cons_self) head]
      obtain rfl := Except.error.inj run
      rfl
    | ok new =>
      obtain ⟨fresh, _, step⟩ := gatherGroup_ok i states (uniform g List.mem_cons_self) head
      rw [head] at run
      rw [step]
      cases tail : groups.mapM (successor G fuel) with
      | error e' =>
        rw [tail] at run
        obtain rfl := Except.error.inj run
        exact ih (fun g member => uniform g (List.mem_cons_of_mem _ member)) tail
      | ok rest =>
        rw [tail] at run
        cases run

theorem modify_append {α : Type} {f : α → α} {i : Nat} {xs ys : List α} (inside : i < xs.length) :
    xs.modify i f ++ ys = (xs ++ ys).modify i f := by
  induction xs generalizing i with
  | nil => cases inside
  | cons x xs ih =>
    cases i with
    | zero => rfl
    | succ i => exact congrArg (x :: ·) (ih (Nat.lt_of_succ_lt_succ inside))

theorem modify_middle {α : Type} (xs : List α) (x : α) (ys : List α) (f : α → α) :
    (xs ++ x :: ys).modify xs.length f = xs ++ f x :: ys := by
  induction xs with
  | nil => rfl
  | cons y xs ih => exact congrArg (y :: ·) ih

omit [LinearOrder R] [Fintype R] in
theorem map_leads_modify (i : Nat) (states : List (State R)) {f : State R → State R}
    (keeps : ∀ s, (f s).leads = s.leads) :
    (states.modify i f).map State.leads = states.map State.leads := by
  refine List.ext_getElem? fun n => ?_
  simp only [List.getElem?_map, List.getElem?_modify]
  split <;> cases states[n]? <;> simp [keeps]

theorem gatherGroups_ok (states : List (State R)) {groups : List (Group R)} {news : List (List (List (Lead R)))}
    (uniform : ∀ g ∈ groups, Uniform G g) (run : groups.mapM (successor G fuel) = .ok news)
    (inside : i < states.length) :
    ∃ fresh, states.map State.leads ++ fresh = news.flatten.foldl Worklist.insertNew (states.map State.leads) ∧
      groups.foldlM (gatherGroup G fuel i) states = .ok ((states ++ fresh.map State.new).modify i
        fun s => groups.foldl (State.addGroup G fuel (states.map State.leads ++ fresh)) s) := by
  induction groups generalizing states news with
  | nil =>
    obtain rfl := Except.ok.inj run
    refine ⟨[], by simp, ?_⟩
    simp only [List.foldlM_nil, List.map_nil, List.append_nil, List.foldl_nil]
    exact congrArg Except.ok (List.modify_id i states).symm
  | cons g groups ih =>
    rw [List.mapM_cons] at run
    cases head : successor G fuel g with
    | error e' => rw [head] at run; cases run
    | ok new =>
      cases tail : groups.mapM (successor G fuel) with
      | error e' => rw [head, tail] at run; cases run
      | ok rest =>
        rw [head, tail] at run
        obtain rfl := Except.ok.inj run
        obtain ⟨fresh, grown, step⟩ := gatherGroup_ok i states
          (uniform g List.mem_cons_self) head
        have keeps : ((states ++ fresh.map State.new).modify i
            fun s => s.addGroup G fuel (states.map State.leads ++ fresh) g).map State.leads =
              (states ++ fresh.map State.new).map State.leads :=
          map_leads_modify i _ fun s => State.addGroup_leads _ s g
        have arrays : (states ++ fresh.map State.new).map State.leads = states.map State.leads ++ fresh := by
          simp [Function.comp_def, State.new]
        obtain ⟨fresh', grown', steps⟩ := ih ((states ++ fresh.map State.new).modify i
            fun s => s.addGroup G fuel (states.map State.leads ++ fresh) g)
          (fun g member => uniform g (List.mem_cons_of_mem _ member)) tail (by simp; omega)
        rw [keeps, arrays] at grown' steps
        have found : new ⊆ states.map State.leads ++ fresh := fun x member => by
          rw [grown]
          exact Worklist.mem_foldl_insertNew.mpr (Or.inr member)
        refine ⟨fresh ++ fresh', ?_, ?_⟩
        · rw [← List.append_assoc, grown', grown, List.flatten_cons, List.foldl_append]
        · rw [List.foldlM_cons, step]
          refine steps.trans (congrArg _ ?_)
          rw [modify_append (by simp; omega), List.modify_modify_eq, List.map_append, List.append_assoc]
          congr 1
          funext s
          simp only [Function.comp_apply, List.foldl_cons, ← List.append_assoc]
          rw [State.addGroup_stable fresh' head found]

omit [Fintype R] in
theorem groupLeads_uniform {leads : List (Lead R)} {handled : List (Option (Symbol Token R))} :
    ∀ g ∈ groupLeads G leads handled, Uniform G g := by
  induction leads generalizing handled with
  | nil => exact fun g member => absurd member List.not_mem_nil
  | cons base leads ih =>
    intro g member
    simp only [groupLeads] at member
    split at member
    · exact ih g member
    · rcases List.mem_cons.mp member with rfl | member
      · refine ⟨List.ne_nil_of_mem (a := base) (by simp), fun l present => ?_⟩
        exact of_decide_eq_true (List.mem_filter.mp present).2
      · exact ih g member

end Groups

/-! ### The array of states -/

def filled (G : Grammar R) (fuel : Nat) (arrays : List (List (Lead R))) (leads : List (Lead R)) : State R :=
  (groupLeads G leads []).foldl (State.addGroup G fuel arrays) (State.new leads)

/-- The states with leads `pre` have their rows, those with leads `post` are still to do. -/
structure Progress (G : Grammar R) (fuel : Nat) (pre post : List (List (Lead R))) (states : List (State R)) :
    Prop where
  states_eq : states = pre.map (filled G fuel (pre ++ post)) ++ post.map State.new
  expanded : ∀ leads ∈ pre, Worklist.Expanded (successors G fuel) (pre ++ post) leads

section Simulation
variable {G : Grammar R} {fuel : Nat} {pre post : List (List (Lead R))} {states : List (State R)}

theorem addGroups_stable {arrays : List (List (Lead R))} (more : List (List (Lead R)))
    {groups : List (Group R)} {news : List (List (List (Lead R)))}
    (run : groups.mapM (successor G fuel) = .ok news) (found : news.flatten ⊆ arrays) (s : State R) :
    groups.foldl (State.addGroup G fuel (arrays ++ more)) s = groups.foldl (State.addGroup G fuel arrays) s := by
  induction groups generalizing s news with
  | nil => rfl
  | cons g groups ih =>
    rw [List.mapM_cons] at run
    cases head : successor G fuel g with
    | error e' => rw [head] at run; cases run
    | ok new =>
      cases tail : groups.mapM (successor G fuel) with
      | error e' => rw [head, tail] at run; cases run
      | ok rest =>
        rw [head, tail] at run
        obtain rfl := Except.ok.inj run
        rw [List.flatten_cons] at found
        rw [List.foldl_cons, List.foldl_cons,
          State.addGroup_stable more head fun _ member => found (List.mem_append_left _ member)]
        exact ih tail (fun _ member => found (List.mem_append_right _ member)) _

theorem successors_ok {leads : List (Lead R)} {new : List (List (Lead R))}
    (run : successors G fuel leads = .ok new) :
    ∃ news, (groupLeads G leads []).mapM (successor G fuel) = .ok news ∧ new = news.flatten := by
  unfold successors at run
  cases groups : (groupLeads G leads []).mapM (successor G fuel) with
  | error e => rw [groups] at run; cases run
  | ok news =>
    rw [groups] at run
    exact ⟨news, rfl, (Except.ok.inj run).symm⟩

theorem filled_stable {arrays : List (List (Lead R))} (more : List (List (Lead R))) {leads : List (Lead R)}
    (expanded : Worklist.Expanded (successors G fuel) arrays leads) :
    filled G fuel (arrays ++ more) leads = filled G fuel arrays leads := by
  obtain ⟨new, run, inside⟩ := expanded
  obtain ⟨news, groups, rfl⟩ := successors_ok run
  exact addGroups_stable more groups inside _

theorem Progress.leads (progress : Progress G fuel pre post states) : states.map State.leads = pre ++ post := by
  have keeps : ∀ arrays (groups : List (Group R)) (s : State R),
      (groups.foldl (State.addGroup G fuel arrays) s).leads = s.leads := by
    intro arrays groups
    induction groups with
    | nil => exact fun _ => rfl
    | cons g groups ih => exact fun s => (ih _).trans (by simp)
  rw [progress.states_eq, List.map_append, List.map_map, List.map_map]
  congr 1
  · refine (List.map_congr_left fun leads _ => ?_).trans (List.map_id _)
    simp [filled, keeps, State.new]
  · exact (List.map_congr_left fun _ _ => rfl).trans (List.map_id _)

theorem Progress.length (progress : Progress G fuel pre post states) :
    states.length = pre.length + post.length := by
  rw [progress.states_eq]
  simp

theorem Progress.current {leads : List (Lead R)} (progress : Progress G fuel pre (leads :: post) states) :
    states[pre.length]? = some (State.new leads) := by
  rw [progress.states_eq]
  simp

theorem gatherState_error {leads : List (Lead R)} {e : Abort}
    (progress : Progress G fuel pre (leads :: post) states)
    (run : Worklist.visit (successors G fuel) (pre ++ leads :: post) leads = .error e) :
    gatherState G fuel states pre.length = .error e := by
  simp only [gatherState, progress.current, State.new]
  unfold Worklist.visit at run
  refine gatherGroups_error groupLeads_uniform ?_
  cases groups : (groupLeads G leads []).mapM (successor G fuel) with
  | error e' =>
    rw [successors, groups] at run
    exact congrArg _ (Except.error.inj run)
  | ok news => rw [successors, groups] at run; cases run

/-- One turn of the outer loop is one visit of the saturation. -/
theorem gatherState_ok {leads : List (Lead R)} {arrays : List (List (Lead R))}
    (progress : Progress G fuel pre (leads :: post) states)
    (run : Worklist.visit (successors G fuel) (pre ++ leads :: post) leads = .ok arrays) :
    ∃ fresh out, arrays = pre ++ leads :: post ++ fresh ∧ gatherState G fuel states pre.length = .ok out ∧
      Progress G fuel (pre ++ [leads]) (post ++ fresh) out := by
  obtain ⟨new, expand, rfl⟩ := Worklist.visit_ok run
  obtain ⟨news, groups, rfl⟩ := successors_ok expand
  obtain ⟨fresh, grown, step⟩ := gatherGroups_ok states groupLeads_uniform groups
    (by rw [progress.length]; simp : pre.length < states.length)
  rw [progress.leads] at grown step
  have arrays : (pre ++ [leads]) ++ (post ++ fresh) = pre ++ leads :: post ++ fresh := by simp
  have turn : gatherState G fuel states pre.length =
      (groupLeads G leads []).foldlM (gatherGroup G fuel pre.length) states := by
    simp only [gatherState, progress.current, State.new]
  refine ⟨fresh, _, grown.symm, turn.trans step, ?_, ?_⟩
  · rw [arrays, progress.states_eq]
    have rows : pre.map (filled G fuel (pre ++ leads :: post ++ fresh)) =
        pre.map (filled G fuel (pre ++ leads :: post)) :=
      List.map_congr_left fun l member => filled_stable fresh (progress.expanded l member)
    have at_current := modify_middle (pre.map (filled G fuel (pre ++ leads :: post)))
      (State.new leads) ((post ++ fresh).map State.new)
      (fun s => (groupLeads G leads []).foldl (State.addGroup G fuel (pre ++ leads :: post ++ fresh)) s)
    rw [List.length_map] at at_current
    rw [show (pre ++ [leads]).map (filled G fuel (pre ++ leads :: post ++ fresh)) = _ from List.map_append, rows]
    simp only [List.map_append, List.map_cons, List.map_nil, List.append_assoc, List.cons_append,
      List.nil_append] at at_current ⊢
    exact at_current
  · rw [arrays]
    intro l member
    have old : pre ++ leads :: post ⊆ pre ++ leads :: post ++ fresh := List.subset_append_left _ _
    rcases List.mem_append.mp member with before | now
    · exact (progress.expanded l before).mono old
    · obtain rfl := List.mem_singleton.mp now
      exact ⟨_, expand, fun x present => grown ▸ Worklist.mem_foldl_insertNew.mpr (Or.inr present)⟩

theorem gatherPass_ok {work arrays : List (List (Lead R))} (progress : Progress G fuel pre (work ++ post) states)
    (run : work.foldlM (Worklist.visit (successors G fuel)) (pre ++ (work ++ post)) = .ok arrays) :
    ∃ fresh out, arrays = pre ++ (work ++ post) ++ fresh ∧
      (List.range' pre.length work.length).foldlM (gatherState G fuel) states = .ok out ∧
      Progress G fuel (pre ++ work) (post ++ fresh) out := by
  induction work generalizing pre post states with
  | nil => exact ⟨[], states, by simpa using (Except.ok.inj run).symm, rfl, by simpa using progress⟩
  | cons leads work ih =>
    rw [List.cons_append] at progress run
    obtain ⟨arrays', head, run⟩ := Worklist.foldlM_cons_ok run
    obtain ⟨fresh, out, rfl, turn, progress'⟩ := gatherState_ok progress head
    have whole : pre ++ leads :: (work ++ post) ++ fresh = pre ++ [leads] ++ (work ++ (post ++ fresh)) := by
      simp
    rw [whole] at run
    rw [List.append_assoc] at progress'
    obtain ⟨fresh', out', rfl, rest, progress''⟩ := ih progress' run
    refine ⟨fresh ++ fresh', out', by simp, ?_, by simpa using progress''⟩
    rw [List.length_cons, List.range'_succ, List.foldlM_cons, turn, ok_bind]
    simpa using rest

theorem gatherPass_error {work : List (List (Lead R))} {e : Abort}
    (progress : Progress G fuel pre (work ++ post) states)
    (run : work.foldlM (Worklist.visit (successors G fuel)) (pre ++ (work ++ post)) = .error e) :
    (List.range' pre.length work.length).foldlM (gatherState G fuel) states = .error e := by
  induction work generalizing pre post states with
  | nil => cases run
  | cons leads work ih =>
    rw [List.cons_append] at progress run
    rw [List.length_cons, List.range'_succ, List.foldlM_cons]
    rcases Worklist.foldlM_cons_error run with head | ⟨arrays', head, run⟩
    · rw [gatherState_error progress head]
      rfl
    · obtain ⟨fresh, out, rfl, turn, progress'⟩ := gatherState_ok progress head
      have whole : pre ++ leads :: (work ++ post) ++ fresh = pre ++ [leads] ++ (work ++ (post ++ fresh)) := by
        simp
      rw [whole] at run
      rw [List.append_assoc] at progress'
      rw [turn, ok_bind]
      simpa using ih progress' run

/-- `gather_states` runs as the saturation of the lead arrays does, and fills in all rows. -/
theorem gatherStates_eq {turns : Nat} {work : List (List (Lead R))} (nonempty : work ≠ [])
    (progress : Progress G fuel pre work states) :
    gatherStates G fuel turns states pre.length work.length =
      (Worklist.saturate (successors G fuel) .outOfFuel turns (pre ++ work) pre.length work.length).map
        fun arrays => arrays.map (filled G fuel arrays) := by
  induction turns generalizing pre work states with
  | zero => rfl
  | succ turns ih =>
    have positive := List.length_pos_iff.mpr nonempty
    have size := progress.length
    have whole : pre ++ (work ++ []) = pre ++ work := by rw [List.append_nil]
    have progress₀ : Progress G fuel pre (work ++ []) states := by rwa [List.append_nil]
    unfold Worklist.saturate gatherStates
    rw [List.drop_left, List.take_length, assertion_bind (by simp; omega), assertion_bind (by simp; omega)]
    cases pass : work.foldlM (Worklist.visit (successors G fuel)) (pre ++ work) with
    | error e =>
      rw [gatherPass_error progress₀ (whole ▸ pass)]
      rfl
    | ok arrays =>
      obtain ⟨fresh, out, rfl, turn, progress'⟩ := gatherPass_ok progress₀ (whole ▸ pass)
      rw [List.nil_append] at progress'
      simp only [turn, ok_bind, whole, size, progress'.length]
      by_cases none : fresh = []
      · subst none
        rw [if_neg (by simp), if_neg (by simp)]
        have done := progress'.states_eq
        rw [List.map_nil, List.append_nil] at done
        rw [done, List.append_nil]
        rfl
      · have more := List.length_pos_iff.mpr none
        rw [if_pos (by simp; omega), if_pos (by simp; omega)]
        have rest := ih none progress'
        simp only [List.length_append] at rest ⊢
        convert rest using 3 <;> omega

end Simulation

/-- All states of the parser: the lead arrays that saturation reaches from the root lead, each with
its rows. -/
theorem parserStates_eq (G : Grammar R) (fuel : Nat) :
    parserStates G fuel = (gatherLeads G fuel [rootLead G] 0 1) >>= fun closure =>
      (Worklist.saturate (successors G fuel) .outOfFuel fuel [consolidateLeads closure] 0 1).map
        fun arrays => arrays.map (filled G fuel arrays) := by
  unfold parserStates
  refine bind_congr fun closure => ?_
  have start : Progress G fuel [] [consolidateLeads closure] [.new (consolidateLeads closure)] :=
    ⟨rfl, fun _ member => absurd member List.not_mem_nil⟩
  have run := @gatherStates_eq _ _ _ G fuel [] _ fuel _ (List.cons_ne_nil _ _) start
  simp only [List.length_nil, List.length_singleton, List.nil_append] at run
  exact run

end Low
