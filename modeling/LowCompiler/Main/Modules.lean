import Mathlib.Data.List.Basic
import Mathlib.Data.List.Count
import Mathlib.Data.List.Nodup
import Mathlib.Data.List.Range
import Mathlib.Logic.Function.Basic

/-!
# The modules of the inputs

`main` compiles each input into a slot of an array that nobody initialises. For an input
that cannot be read `compile` returns before it writes the slot, and the clean-up of `main`
tests it all the same.
-/

namespace Low

/-- What an input makes of `compile`: its file cannot be opened or mapped, it is compiled, or
the program ends inside. -/
inductive Input where
  | unreadable
  | readable
  | ends
  deriving DecidableEq, Repr

/-- The value of a slot: nothing, what the stack held before, or the module of an input. -/
inductive ModulePointer where
  | null
  | stale (address : Nat)
  | created (input : Nat)
  deriving DecidableEq, Repr

/-- What happens to the slots: `compile` writes one, `main` tests one, and LLVM is handed
one, or the first one with another. -/
inductive ModuleEvent where
  | store (slot : Nat) (m : ModulePointer)
  | test (slot : Nat)
  | dispose (slot : Nat) (m : ModulePointer)
  | link (slot : Nat) (m : ModulePointer)
  | print (m : ModulePointer)
  deriving DecidableEq, Repr

structure Modules where
  slots : Nat → ModulePointer
  events : List ModuleEvent

def Modules.record (s : Modules) (event : ModuleEvent) : Modules := { s with events := s.events ++ [event] }

def Modules.set (s : Modules) (slot : Nat) (m : ModulePointer) : Modules :=
  { s with slots := Function.update s.slots slot m }

/-- The error code and the modules, unless the program ends. -/
def compile (slot : Nat) (input : Input) (s : Modules) : Option (Nat × Modules) :=
  match input with
  | .unreadable => some (1, s)
  | .readable => some (0, (s.set slot (.created slot)).record (.store slot (.created slot)))
  | .ends => none

/-- `if (modules[i]) { LLVMDisposeModule(modules[i]); modules[i] = 0; }`. -/
def disposeFailed (slot : Nat) (s : Modules) : Modules :=
  let s := s.record (.test slot)
  if s.slots slot ≠ .null then (s.record (.dispose slot (s.slots slot))).set slot .null else s

/-- The loop over the inputs: whether any failed, unless the program ends. -/
def compileInputs : Nat → List Input → Bool → Modules → Option Bool × Modules
  | _, [], anyFailed, s => (some anyFailed, s)
  | i, input :: inputs, anyFailed, s =>
    match compile i input s with
    | none => (none, s)
    | some (err, s) =>
      if err ≠ 0 then compileInputs (i + 1) inputs true (disposeFailed i s)
      else compileInputs (i + 1) inputs anyFailed s

/-- Links into the first module, until a link fails. -/
def linkModules (failed : Nat → Bool) : Nat → Nat → Modules → Bool × Modules
  | _, 0, s => (false, s)
  | i, count + 1, s =>
    let s := s.record (.link i (s.slots i))
    if failed i then (true, s) else linkModules failed (i + 1) count s

def disposeModules : Nat → Nat → Modules → Modules
  | _, 0, s => s
  | i, count + 1, s => disposeModules (i + 1) count (s.record (.dispose i (s.slots i)))

def mainModules (initial : Nat → ModulePointer) (inputs : List Input) (outputName : Bool)
    (failed : Nat → Bool) : Modules :=
  match compileInputs 0 inputs false ⟨initial, []⟩ with
  | (some false, s) =>
    if inputs = [] then s
    else if outputName then
      match linkModules failed 1 (inputs.length - 1) s with
      | (true, s) => s
      | (false, s) => (s.record (.print (s.slots 0))).record (.dispose 0 (s.slots 0))
    else disposeModules 0 inputs.length s
  | (_, s) => s

/-! ### What it should do -/

def ModuleEvent.uses : ModuleEvent → List Nat
  | .store _ _ => []
  | .test slot => [slot]
  | .dispose slot _ => [slot]
  | .link slot _ => [0, slot]
  | .print _ => [0]

/-- The slots whose modules an event hands to LLVM. -/
def ModuleEvent.hands : ModuleEvent → List Nat
  | .test _ => []
  | event => event.uses

/-- The module that is gone after an event. -/
def ModuleEvent.consumes : ModuleEvent → Option ModulePointer
  | .dispose _ m => some m
  | .link _ m => some m
  | _ => none

/-- Slots are used after `compile` stored a module in them. -/
def StoredFirst (uses : ModuleEvent → List Nat) (events : List ModuleEvent) : Prop :=
  ∀ before event after, events = before ++ event :: after → ∀ i ∈ uses event, .store i (.created i) ∈ before

def ConsumedOnce (events : List ModuleEvent) : Prop :=
  ∀ i, (events.filterMap ModuleEvent.consumes).count (.created i) ≤ 1

def CleansUp (uses : ModuleEvent → List Nat) (events : List ModuleEvent) : Prop :=
  StoredFirst uses events ∧ ConsumedOnce events

def reached (inputs : List Input) : List Input := inputs.takeWhile (· ≠ .ends)

/-! ### The loop over the inputs -/

def turn (initial : Nat → ModulePointer) (p : Input × Nat) : List ModuleEvent :=
  match p.1 with
  | .readable => [.store p.2 (.created p.2)]
  | .unreadable => .test p.2 :: if initial p.2 = .null then [] else [.dispose p.2 (initial p.2)]
  | .ends => []

section Compile
variable {initial : Nat → ModulePointer} {inputs : List Input} {i : Nat} {anyFailed : Bool} {s : Modules}

theorem disposeFailed_events (untouched : s.slots i = initial i) :
    (disposeFailed i s).events = s.events ++ turn initial (.unreadable, i) := by
  by_cases empty : initial i = .null
  · simp [disposeFailed, turn, Modules.record, untouched, empty]
  · simp [disposeFailed, turn, Modules.record, Modules.set, untouched, empty]

theorem disposeFailed_slots {j : Nat} (other : j ≠ i) : (disposeFailed i s).slots j = s.slots j := by
  simp only [disposeFailed]
  split
  · exact Function.update_of_ne other _ _
  · rfl

theorem compileInputs_events (untouched : ∀ j, i ≤ j → s.slots j = initial j) :
    (compileInputs i inputs anyFailed s).2.events = s.events ++ ((reached inputs).zipIdx i).flatMap (turn initial) := by
  induction inputs generalizing i anyFailed s with
  | nil => exact (List.append_nil _).symm
  | cons input inputs ih =>
    cases input with
    | ends => exact (List.append_nil _).symm
    | unreadable =>
      have later (j : Nat) (after : i + 1 ≤ j) : (disposeFailed i s).slots j = initial j :=
        (disposeFailed_slots (Nat.ne_of_gt after)).trans (untouched j (Nat.le_of_succ_le after))
      have rest := @ih (i + 1) true _ later
      rw [disposeFailed_events (untouched i (Nat.le_refl _)), List.append_assoc] at rest
      exact rest
    | readable =>
      have later (j : Nat) (after : i + 1 ≤ j) : ((s.set i (.created i)).record (.store i (.created i))).slots j = initial j :=
        (Function.update_of_ne (Nat.ne_of_gt after) _ _).trans (untouched j (Nat.le_of_succ_le after))
      have rest := @ih (i + 1) anyFailed _ later
      exact rest.trans (List.append_assoc _ _ _)

/-- The loop goes through without a failure just when all inputs are compiled. -/
theorem compileInputs_result : (compileInputs i inputs anyFailed s).1 = some false ↔
    anyFailed = false ∧ ∀ input ∈ inputs, input = .readable := by
  induction inputs generalizing i anyFailed s with
  | nil => simp [compileInputs]
  | cons input inputs ih =>
    cases input <;> simp [compileInputs, compile, ih]

theorem compileInputs_slots {j : Nat} (all : ∀ input ∈ inputs, input = .readable) (inside : j < i + inputs.length)
    (known : i ≤ j ∨ s.slots j = .created j) : (compileInputs i inputs anyFailed s).2.slots j = .created j := by
  induction inputs generalizing i anyFailed s with
  | nil =>
    rcases known with above | known
    · exact absurd inside (Nat.not_lt_of_le above)
    · exact known
  | cons input inputs ih =>
    obtain ⟨rfl, others⟩ := List.forall_mem_cons.mp all
    rw [List.length_cons] at inside
    refine ih others (by omega) ?_
    by_cases here : j = i
    · subst here
      exact .inr (Function.update_self _ _ _)
    · rcases known with above | known
      · exact .inl (by omega)
      · exact .inr ((Function.update_of_ne here _ _).trans known)

end Compile

/-! ### What is left to do -/

section Rest
variable {failed : Nat → Bool} {i count : Nat} {s : Modules}

/-- The links leave the slots as they are, and take the modules in their order. -/
theorem linkModules_events : ∃ taken ≤ count, (linkModules failed i count s).2 =
    { s with events := s.events ++ (List.range' i taken).map fun j => .link j (s.slots j) } := by
  induction count generalizing i s with
  | zero => exact ⟨0, Nat.le_refl _, by simp [linkModules]⟩
  | succ count ih =>
    simp only [linkModules]
    split
    · exact ⟨1, Nat.succ_le_succ (Nat.zero_le _), by simp [Modules.record]⟩
    · obtain ⟨taken, bound, rest⟩ := @ih (i + 1) (s.record (.link i (s.slots i)))
      refine ⟨taken + 1, Nat.succ_le_succ bound, ?_⟩
      rw [rest]
      simp [Modules.record, List.range'_succ]

theorem disposeModules_events : (disposeModules i count s).events =
    s.events ++ (List.range' i count).map fun j => .dispose j (s.slots j) := by
  induction count generalizing i s with
  | zero => simp [disposeModules]
  | succ count ih =>
    simp only [disposeModules]
    rw [ih]
    simp [Modules.record, List.range'_succ]

end Rest

section Main
variable {initial : Nat → ModulePointer} {inputs : List Input} {outputName : Bool} {failed : Nat → Bool}

theorem mem_turns {e : ModuleEvent} : e ∈ ((reached inputs).zipIdx 0).flatMap (turn initial) ↔
    ∃ i input, (reached inputs)[i]? = some input ∧ e ∈ turn initial (input, i) := by
  simp only [List.mem_flatMap, Prod.exists, List.mem_zipIdx_iff_getElem?]
  exact exists_comm

/-- With an input that fails or ends the program, the loop is all that happens. -/
theorem mainModules_stopped (some : ∃ input ∈ inputs, input ≠ .readable) :
    (mainModules initial inputs outputName failed).events = ((reached inputs).zipIdx 0).flatMap (turn initial) := by
  have events := @compileInputs_events initial inputs 0 false ⟨initial, []⟩ fun _ _ => rfl
  have result : (compileInputs 0 inputs false ⟨initial, []⟩).1 ≠ .some false := by
    intro through
    obtain ⟨input, member, other⟩ := some
    exact other ((compileInputs_result.mp through).2 input member)
  unfold mainModules
  generalize run : compileInputs 0 inputs false ⟨initial, []⟩ = r at events result
  obtain ⟨anyFailed, s⟩ := r
  rcases anyFailed with _ | _ | _
  · exact events
  · exact absurd rfl result
  · exact events

theorem turns_readable (i : Nat) (all : ∀ input ∈ inputs, input = .readable) :
    ((reached inputs).zipIdx i).flatMap (turn initial) =
      (List.range' i inputs.length).map fun j => .store j (.created j) := by
  induction inputs generalizing i with
  | nil => rfl
  | cons input inputs ih =>
    obtain ⟨rfl, others⟩ := List.forall_mem_cons.mp all
    have rest := ih (i + 1) others
    rw [List.length_cons, List.range'_succ, List.map_cons, ← rest]
    rfl

/-- The modules that a list of disposals or links of compiled slots consumes. -/
theorem consumed_slots {slots : Nat → ModulePointer} {is : List Nat} (event : Nat → ModulePointer → ModuleEvent)
    (consumes : ∀ i m, (event i m).consumes = some m) (created : ∀ i ∈ is, slots i = .created i) :
    (is.map fun i => event i (slots i)).filterMap ModuleEvent.consumes = is.map ModulePointer.created := by
  rw [List.filterMap_map, List.filterMap_eq_map_iff_forall_eq_some]
  intro i inside
  exact (consumes i _).trans (congrArg some (created i inside))

theorem created_nodup (is : List Nat) (nodup : is.Nodup) : (is.map ModulePointer.created).Nodup :=
  nodup.map fun _ _ same => ModulePointer.created.inj same

theorem links_inside {slots : Nat → ModulePointer} {taken n : Nat} (positive : 0 < n) (bound : taken < n) :
    ∀ e ∈ (List.range' 1 taken).map (fun i => ModuleEvent.link i (slots i)), ∀ i ∈ e.uses, i < n := by
  intro e member i used
  obtain ⟨j, present, rfl⟩ := List.mem_map.mp member
  rcases List.mem_cons.mp used with rfl | used
  · exact positive
  · obtain rfl := List.mem_singleton.mp used
    have := List.mem_range'_1.mp present
    omega

theorem printed_inside {slots : Nat → ModulePointer} {n : Nat} (positive : 0 < n) :
    ∀ e ∈ [ModuleEvent.print (slots 0), .dispose 0 (slots 0)], ∀ i ∈ e.uses, i < n := by
  intro e member i used
  rcases List.mem_cons.mp member with rfl | last
  · obtain rfl := List.mem_singleton.mp used
    exact positive
  · obtain rfl := List.mem_singleton.mp last
    obtain rfl := List.mem_singleton.mp used
    exact positive

/-- Linking consumes the other modules, and the first one is disposed of at the end. -/
theorem linked_nodup {slots : Nat → ModulePointer} {taken : Nat} (created : ∀ i ≤ taken, slots i = .created i) :
    (((List.range' 1 taken).map (fun i => ModuleEvent.link i (slots i)) ++
      [ModuleEvent.print (slots 0), .dispose 0 (slots 0)]).filterMap ModuleEvent.consumes).Nodup := by
  have last : [ModuleEvent.print (slots 0), .dispose 0 (slots 0)].filterMap ModuleEvent.consumes =
      [0].map .created := by
    rw [created 0 (Nat.zero_le _)]
    rfl
  have others : ∀ i ∈ List.range' 1 taken, slots i = .created i := by
    intro i member
    have := List.mem_range'_1.mp member
    exact created i (by omega)
  rw [List.filterMap_append, consumed_slots .link (fun _ _ => rfl) others, last, ← List.map_append]
  refine created_nodup _ (List.nodup_append.mpr ⟨List.nodup_range', List.nodup_singleton 0, ?_⟩)
  intro i member j zero
  have := (List.mem_range'_1.mp member).1
  obtain rfl := List.mem_singleton.mp zero
  omega

/-- When all inputs are compiled, what follows uses their slots, and consumes no module twice. -/
theorem mainModules_compiled (all : ∀ input ∈ inputs, input = .readable) :
    ∃ rest, (mainModules initial inputs outputName failed).events =
        (List.range' 0 inputs.length).map (fun i => .store i (.created i)) ++ rest ∧
      (∀ e ∈ rest, ∀ i ∈ e.uses, i < inputs.length) ∧ (rest.filterMap ModuleEvent.consumes).Nodup := by
  have events := @compileInputs_events initial inputs 0 false ⟨initial, []⟩ fun _ _ => rfl
  have result := (@compileInputs_result inputs 0 false ⟨initial, []⟩).mpr ⟨rfl, all⟩
  have slots (i : Nat) (inside : i < inputs.length) : (compileInputs 0 inputs false ⟨initial, []⟩).2.slots i = .created i :=
    compileInputs_slots all (by omega) (.inl (Nat.zero_le _))
  rw [turns_readable 0 all, List.nil_append] at events
  unfold mainModules
  generalize compileInputs 0 inputs false ⟨initial, []⟩ = r at events result slots
  obtain ⟨anyFailed, s⟩ := r
  obtain rfl := result
  simp only at events slots ⊢
  by_cases none : inputs = []
  · rw [if_pos none, events]
    exact ⟨[], (List.append_nil _).symm, nofun, List.nodup_nil⟩
  have positive : 0 < inputs.length := List.length_pos_iff.mpr none
  rw [if_neg none]
  cases outputName with
  | false =>
    refine ⟨(List.range' 0 inputs.length).map fun i => .dispose i (s.slots i), ?_, ?_, ?_⟩
    · rw [if_neg Bool.false_ne_true, disposeModules_events, events]
    · intro e member i used
      obtain ⟨j, inside, rfl⟩ := List.mem_map.mp member
      obtain rfl := List.mem_singleton.mp used
      have := List.mem_range'_1.mp inside
      omega
    · rw [consumed_slots .dispose (fun _ _ => rfl) fun i inside => slots i (by have := List.mem_range'_1.mp inside; omega)]
      exact created_nodup _ List.nodup_range'
  | true =>
    obtain ⟨taken, bound, links⟩ := @linkModules_events failed 1 (inputs.length - 1) s
    have few : taken < inputs.length := by omega
    have created (i : Nat) (le : i ≤ taken) : s.slots i = .created i := slots i (Nat.lt_of_le_of_lt le few)
    rw [if_pos rfl]
    generalize linkModules failed 1 (inputs.length - 1) s = r at links
    obtain ⟨broken, s'⟩ := r
    obtain rfl := links
    cases broken with
    | true =>
      refine ⟨_, by rw [events], links_inside positive few, ?_⟩
      have nodup := linked_nodup created
      rw [List.filterMap_append] at nodup
      exact (List.nodup_append.mp nodup).1
    | false =>
      refine ⟨(List.range' 1 taken).map (fun i => .link i (s.slots i)) ++
        [.print (s.slots 0), .dispose 0 (s.slots 0)], ?_, ?_, linked_nodup created⟩
      · simp [Modules.record, events]
      · intro e member
        rcases List.mem_append.mp member with link | last
        · exact links_inside positive few e link
        · exact printed_inside positive e last

/-- Events that use no slot and consume no module do no harm. -/
theorem cleansUp_idle {uses : ModuleEvent → List Nat} {events : List ModuleEvent}
    (idle : ∀ e ∈ events, uses e = [] ∧ e.consumes = none) : CleansUp uses events := by
  constructor
  · rintro before e after rfl i used
    rw [(idle e (by simp)).1] at used
    cases used
  · intro i
    have none : events.filterMap ModuleEvent.consumes = [] := by
      rw [List.filterMap_eq_nil_iff]
      exact fun e member => (idle e member).2
    simp [none]

theorem cleansUp_compiled {uses : ModuleEvent → List Nat} (sub : ∀ e, uses e ⊆ e.uses)
    (all : ∀ input ∈ inputs, input = .readable) :
    CleansUp uses (mainModules initial inputs outputName failed).events := by
  obtain ⟨rest, events, inside, nodup⟩ := @mainModules_compiled initial inputs outputName failed all
  rw [events]
  have stored {i : Nat} (less : i < inputs.length) :
      ModuleEvent.store i (.created i) ∈ (List.range' 0 inputs.length).map fun i => ModuleEvent.store i (.created i) :=
    List.mem_map.mpr ⟨i, List.mem_range'_1.mpr (by omega), rfl⟩
  constructor
  · intro before e after split i used
    rcases List.append_eq_append_iff.mp split with ⟨more, rfl, shape⟩ | ⟨more, shape, behind⟩
    · have member : e ∈ rest := shape ▸ List.mem_append_right _ List.mem_cons_self
      exact List.mem_append_left _ (stored (inside e member i (sub e used)))
    · cases more with
      | nil =>
        have member : e ∈ rest := by
          rw [List.nil_append] at behind
          exact behind ▸ List.mem_cons_self
        rw [List.append_nil] at shape
        exact shape ▸ stored (inside e member i (sub e used))
      | cons e' more =>
        obtain ⟨rfl, _⟩ := List.cons.inj behind
        have member : e ∈ (List.range' 0 inputs.length).map fun i => ModuleEvent.store i (.created i) :=
          shape ▸ List.mem_append_right _ List.mem_cons_self
        obtain ⟨j, _, rfl⟩ := List.mem_map.mp member
        exact absurd (sub _ used) List.not_mem_nil
  · intro i
    have none : ((List.range' 0 inputs.length).map fun i => ModuleEvent.store i (.created i)).filterMap ModuleEvent.consumes = [] := by
      rw [List.filterMap_map, List.filterMap_eq_nil_iff]
      exact fun _ _ => rfl
    rw [List.filterMap_append, none, List.nil_append]
    exact List.nodup_iff_count_le_one.mp nodup _

/-- The slot of an input that failed was never stored. -/
theorem not_storedFirst {uses : ModuleEvent → List Nat} {i : Nat} {e : ModuleEvent}
    (fails : (reached inputs)[i]? = some .unreadable) (member : e ∈ turn initial (.unreadable, i))
    (used : i ∈ uses e) :
    ¬StoredFirst uses (mainModules initial inputs outputName failed).events := by
  have some : ∃ input ∈ inputs, input ≠ .readable :=
    ⟨.unreadable, (List.takeWhile_prefix _).subset (List.mem_of_getElem? fails), nofun⟩
  intro first
  rw [mainModules_stopped some] at first
  obtain ⟨before, after, split⟩ := List.append_of_mem (mem_turns.mpr ⟨i, .unreadable, fails, member⟩)
  have stored := first before e after split i used
  have present : ModuleEvent.store i (.created i) ∈ ((reached inputs).zipIdx 0).flatMap (turn initial) :=
    split ▸ List.mem_append_left _ stored
  obtain ⟨j, input, found, event⟩ := mem_turns.mp present
  cases input with
  | readable =>
    have same := List.mem_singleton.mp event
    obtain rfl := (ModuleEvent.store.inj same).1
    cases fails.symm.trans found
  | unreadable =>
    rcases List.mem_cons.mp event with wrong | wrong
    · cases wrong
    · split at wrong
      · cases wrong
      · cases List.mem_singleton.mp wrong
  | ends => cases event

/-- Using a slot, be it to test it: `main` is right just when no input fails. -/
theorem cleansUp_uses_iff : CleansUp ModuleEvent.uses (mainModules initial inputs outputName failed).events ↔
    .unreadable ∉ reached inputs := by
  constructor
  · rintro ⟨first, _⟩ fails
    obtain ⟨i, found⟩ := List.mem_iff_getElem?.mp fails
    exact not_storedFirst found List.mem_cons_self List.mem_cons_self first
  · intro none
    by_cases all : ∀ input ∈ inputs, input = .readable
    · exact cleansUp_compiled (fun e => List.Subset.refl _) all
    · have some : ∃ input ∈ inputs, input ≠ .readable := by
        simpa only [not_forall, exists_prop] using all
      rw [mainModules_stopped some]
      refine cleansUp_idle ?_
      intro e member
      obtain ⟨i, input, found, event⟩ := mem_turns.mp member
      cases input with
      | readable =>
        obtain rfl := List.mem_singleton.mp event
        exact ⟨rfl, rfl⟩
      | unreadable => exact absurd (List.mem_of_getElem? found) none
      | ends => cases event

/-- Handing a slot to LLVM: `main` is right just when the slots of the inputs that fail held nothing
before. -/
theorem cleansUp_hands_iff : CleansUp ModuleEvent.hands (mainModules initial inputs outputName failed).events ↔
    ∀ i, (reached inputs)[i]? = some .unreadable → initial i = .null := by
  constructor
  · rintro ⟨first, _⟩ i fails
    by_contra held
    refine @not_storedFirst initial inputs outputName failed _ i (.dispose i (initial i)) fails ?_ List.mem_cons_self first
    simp [turn, held]
  · intro clean
    by_cases all : ∀ input ∈ inputs, input = .readable
    · refine cleansUp_compiled (fun e => ?_) all
      cases e with
      | test => exact List.nil_subset _
      | _ => exact List.Subset.refl _
    · have some : ∃ input ∈ inputs, input ≠ .readable := by
        simpa only [not_forall, exists_prop] using all
      rw [mainModules_stopped some]
      refine cleansUp_idle ?_
      intro e member
      obtain ⟨i, input, found, event⟩ := mem_turns.mp member
      cases input with
      | readable =>
        obtain rfl := List.mem_singleton.mp event
        exact ⟨rfl, rfl⟩
      | unreadable =>
        simp only [turn, clean i found, if_pos] at event
        obtain rfl := List.mem_singleton.mp event
        exact ⟨rfl, rfl⟩
      | ends => cases event

/-- Whatever the slots hold before, `main` uses only modules that were stored just when no input
fails; it hands on only such modules just when nothing stood in the slots of those that fail. -/
theorem modules_cleaned_iff (initial : Nat → ModulePointer) (inputs : List Input) (outputName : Bool)
    (failed : Nat → Bool) :
    (CleansUp ModuleEvent.uses (mainModules initial inputs outputName failed).events ↔ .unreadable ∉ reached inputs) ∧
    (CleansUp ModuleEvent.hands (mainModules initial inputs outputName failed).events ↔
      ∀ i, (reached inputs)[i]? = some .unreadable → initial i = .null) :=
  ⟨cleansUp_uses_iff, cleansUp_hands_iff⟩

end Main

/-- The first of two inputs cannot be read: what the stack held is disposed. -/
theorem stale_module_disposed :
    (mainModules (fun _ => .stale 4096) [.unreadable, .readable] false fun _ => false).events =
      [.test 0, .dispose 0 (.stale 4096), .store 1 (.created 1)] ∧
    ¬CleansUp ModuleEvent.uses (mainModules (fun _ => .stale 4096) [.unreadable, .readable] false fun _ => false).events ∧
    ¬CleansUp ModuleEvent.hands (mainModules (fun _ => .stale 4096) [.unreadable, .readable] false fun _ => false).events := by
  refine ⟨by decide, ?_, ?_⟩
  · rw [cleansUp_uses_iff]
    decide
  · rw [cleansUp_hands_iff]
    intro clean
    exact absurd (clean 0 rfl) nofun

end Low
