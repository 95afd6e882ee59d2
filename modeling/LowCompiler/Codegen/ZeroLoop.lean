import LowCompiler.Codegen.Straight

/-!
# The loop that zeroes an array

The loop of `codegen_array_new` counts down from the number of elements and stops below
zero. Before each decrement it stores to the element that the counter names, so it also
stores to the one past the end.
-/

namespace Low

open Stateful
open Llvm (Op Ty Graph Platform Pointer Activation Datum Reaches executeAll)

section Addresses
variable {M : Type} (platform : Platform M) (element : Ty) (array : Pointer)

def elementAddress (k : Nat) : Pointer :=
  { array with offset := array.offset + platform.stride element * BitVec.ofNat 64 k }

/-- A number below the half of the range is itself, with any sign. -/
theorem ofNat_small {width k : Nat} (small : k < 2 ^ (width - 1)) :
    (BitVec.ofNat width k).toNat = k ∧ (BitVec.ofNat width k).msb = false := by
  have half : 2 ^ (width - 1) ≤ 2 ^ width := Nat.pow_le_pow_right (by omega) (by omega)
  have same : (BitVec.ofNat width k).toNat = k := by
    rw [BitVec.toNat_ofNat]
    exact Nat.mod_eq_of_lt (by omega)
  refine ⟨same, ?_⟩
  rw [BitVec.msb_eq_decide, same]
  simpa using small

theorem signExtend_ofNat {width k : Nat} (small : k < 2 ^ (width - 1)) :
    (BitVec.ofNat width k).signExtend 64 = BitVec.ofNat 64 k := by
  obtain ⟨same, positive⟩ := ofNat_small small
  rw [BitVec.signExtend_eq_setWidth_of_msb_false positive]
  apply BitVec.eq_of_toNat_eq
  rw [BitVec.toNat_setWidth, same, BitVec.toNat_ofNat]

theorem zero_sle_ofNat {width k : Nat} (small : k < 2 ^ (width - 1)) :
    (0 : BitVec width).sle (BitVec.ofNat width k) = true := by
  rw [BitVec.sle_eq_decide, BitVec.toInt_eq_toNat_of_msb (ofNat_small small).2]
  simp
  omega

def turnEvents (slot : Pointer) (width k : Nat) : List Llvm.Event :=
  [.stored (elementAddress platform element array k) element.null, .stored slot (.int width (BitVec.ofNat width k - 1))]

def loopEvents (slot : Pointer) (width : Nat) : Nat → List Llvm.Event
  | 0 => turnEvents platform element array slot width 0
  | k + 1 => turnEvents platform element array slot width (k + 1) ++ loopEvents slot width k

theorem mem_loopEvents {slot : Pointer} {width n : Nat} {event : Llvm.Event} :
    event ∈ loopEvents platform element array slot width n ↔
      ∃ k ≤ n, event ∈ turnEvents platform element array slot width k := by
  induction n with
  | zero => simp [loopEvents]
  | succ n ih =>
    rw [loopEvents, List.mem_append, ih]
    constructor
    · rintro (here | ⟨k, le, there⟩)
      · exact ⟨n + 1, Nat.le_refl _, here⟩
      · exact ⟨k, by omega, there⟩
    · rintro ⟨k, le, there⟩
      by_cases last : k = n + 1
      · exact .inl (last ▸ there)
      · exact .inr ⟨k, by omega, there⟩

/-- Zero was stored to the elements before the `n`th, and nothing was stored elsewhere but to the
counter. -/
def ZeroesExactly (slot : Pointer) (n : Nat) (events : List Llvm.Event) : Prop :=
  (∀ pointer datum, .stored pointer datum ∈ events → pointer ≠ slot →
    datum = element.null ∧ ∃ k < n, pointer = elementAddress platform element array k) ∧
  ∀ k < n, .stored (elementAddress platform element array k) element.null ∈ events

end Addresses

/-! ### The code of the loop -/

namespace Building
variable (s : Building) (element : Ty) (size : Llvm.Value)

def allocating : List Op := [.arrayMalloc element size, .alloca size.type, .store size (s.cntrptr size)]

def comparing : List Op := [.load (s.cntrptr size), .icmp .sle (.constNull size.type) (s.cntr size)]

def storing : List Op :=
  [.gep (s.arrptr element) (s.cntr size) [], .store (.constNull element) (.result (s.results + 5) (.ptr element)),
    .int .sub (s.cntr size) (.constInt size.type 1), .store (.result (s.results + 7) size.type) (s.cntrptr size)]

theorem counting_eq : s.counting element size =
    (s.pushAll (s.allocating element size)).append.append.append.enter (.br s.blocks) s.blocks := rfl

theorem turning_eq : s.turning element size = ((s.counting element size).pushAll (s.comparing size)).enter
    (.condBr (.result (s.results + 4) (.int 1)) (s.blocks + 1) (s.blocks + 2)) (s.blocks + 1) := rfl

theorem zeroed_eq : s.zeroed element size = ((s.turning element size).pushAll (s.storing element size)).enter
    (.br s.blocks) (s.blocks + 2) := rfl

variable {s element size} {graph : Graph}

@[simp] theorem counting_results : (s.counting element size).results = s.results + 3 := rfl

@[simp] theorem turning_results : (s.turning element size).results = s.results + 5 := rfl

theorem Continues.storing (continues : (s.zeroed element size).Continues graph) :
    ((s.turning element size).pushAll (s.storing element size)).Continues graph :=
  continues.before (continues_enter _ _ _)

theorem Continues.turning (continues : (s.zeroed element size).Continues graph) :
    (s.turning element size).Continues graph :=
  continues.storing.before (continues_pushAll _ _)

theorem Continues.comparing (continues : (s.zeroed element size).Continues graph) :
    ((s.counting element size).pushAll (s.comparing size)).Continues graph :=
  continues.turning.before (continues_enter _ _ _)

theorem Continues.counting (continues : (s.zeroed element size).Continues graph) :
    (s.counting element size).Continues graph :=
  continues.comparing.before (continues_pushAll _ _)

theorem Continues.allocating (continues : (s.zeroed element size).Continues graph) :
    (s.pushAll (s.allocating element size)).Continues graph :=
  continues.counting.before (continues_enter (s.pushAll (s.allocating element size)).append.append.append _ _)

/-- The blocks of the loop are empty when they are entered. -/
theorem counting_empty (sound : s.Sound) {n : Nat} (new : s.blocks ≤ n) :
    (s.counting element size).block n = [] := by
  have current := sound.current
  have blocks : (s.pushAll (s.allocating element size)).append.append.append.block n = [] :=
    (sound.pushAll _).empty (by simpa using new)
  rw [counting_eq, between_block, if_neg (by simp; omega), blocks]

theorem turning_empty (sound : s.Sound) {n : Nat} (new : s.blocks < n) :
    (s.turning element size).block n = [] := by
  have current : (s.counting element size).current = s.blocks := enter_current _ _ _
  have other : n ≠ (s.counting element size).current := by omega
  rw [turning_eq, enter_block _ _ _ _ (push_current _ _), pushAll_current, if_neg other, pushAll_elsewhere _ other]
  exact counting_empty sound (Nat.le_of_lt new)

theorem zeroed_empty (sound : s.Sound) {n : Nat} (new : s.blocks + 1 < n) :
    (s.zeroed element size).block n = [] := by
  have current : (s.turning element size).current = s.blocks + 1 := enter_current _ _ _
  have other : n ≠ (s.turning element size).current := by omega
  rw [zeroed_eq, between_block, pushAll_current, if_neg other, pushAll_elsewhere _ other]
  exact turning_empty sound (by omega)

end Building

section Loop
variable {M : Type} {platform : Platform M} {graph : Graph} {element : Ty} {size : Llvm.Value} {width : Nat}
  {s : Building} {first a : Activation M} {array slot : Pointer} {counter : BitVec width}

/-- The loop is about to compare the counter. The registers of the instructions before it are as
they were. -/
structure Looping (platform : Platform M) (element : Ty) (size : Llvm.Value) (width : Nat) (s : Building)
    (first : Activation M) (slot : Pointer) (counter : BitVec width) (a : Activation M) : Prop where
  here : (s.counting element size).Here a
  kept : ∀ k < s.results + 3, a.registers k = first.registers k
  counter : platform.load a.memory slot (.int width) = some (.int width counter)
  objects : a.objects = first.objects

structure Allocated (s : Building) (first : Activation M) (array slot : Pointer) : Prop where
  arrayAt : first.registers s.results = some (.ptr array)
  slotAt : first.registers (s.results + 1) = some (.ptr slot)

theorem Looping.compares (looping : Looping platform element size width s first slot counter a)
    (allocated : Allocated s first array slot) (sound : s.Sound) (sized : size.type = .int width)
    (continues : (s.zeroed element size).Continues graph) :
    ∃ next : Activation M, Reaches platform graph a [] next ∧
      (if (0 : BitVec width).sle counter then s.turning element size else s.zeroed element size).Here next ∧
      (∀ k < s.results + 3, next.registers k = first.registers k) ∧
      next.registers (s.results + 3) = some (.int width counter) ∧ next.memory = a.memory ∧
      next.objects = first.objects := by
  have counting : (s.counting element size).Sound := (Building.counting_region element size sound).sound
  have pointed : (s.cntrptr size).fetch platform a.registers = some (.ptr slot) :=
    (looping.kept _ (by omega)).trans allocated.slotAt
  have loads : (Op.load (s.cntrptr size)).effect platform a = some (a.gives (.int width counter)) :=
    Llvm.effect_load (congrArg Ty.ptr sized) pointed looping.counter
  have null : (Llvm.Value.constNull size.type).fetch platform
      (a.after (s.results + 3) (a.gives (.int width counter))).registers = some (.int width 0) := by
    simp [sized, Ty.null]
  have compared : (s.cntr size).fetch platform (a.after (s.results + 3) (a.gives (.int width counter))).registers =
      some (.int width counter) := by
    simp [Building.cntr]
  have run : executeAll platform (numberedFrom (s.results + 3) (s.comparing size)) a = some ([], _) :=
    Llvm.executeAll_cons loads (Llvm.executeAll_cons (Llvm.effect_icmp null compared) rfl)
  obtain ⟨reached, there⟩ := looping.here.all counting continues.comparing run
  refine ⟨_, reached.trans (there.condBr continues.turning (b := (0 : BitVec width).sle counter) ?_), ?_, fun k below => ?_,
    ?_, rfl, looping.objects⟩
  · simp [Llvm.IntPredicate.holds]
  · split
    · exact Building.here_jump _ (Building.enter_current _ _ _) (Building.turning_empty sound (Nat.lt_succ_self _))
    · exact Building.here_jump _ (Building.enter_current _ _ _) (Building.zeroed_empty sound (by omega))
  · have apart : k ≠ s.results + 3 ∧ k ≠ s.results + 4 := by omega
    rw [← looping.kept k below]
    simp [apart]
  · simp

theorem Looping.stores {next : Activation M} (here : (s.turning element size).Here next)
    (kept : ∀ k < s.results + 3, next.registers k = first.registers k)
    (counted : next.registers (s.results + 3) = some (.int width counter)) (objects : next.objects = first.objects)
    (allocated : Allocated s first array slot) (sound : s.Sound) (sized : size.type = .int width)
    (continues : (s.zeroed element size).Continues graph) :
    ∃ last : Activation M,
      Reaches platform graph next [.stored
        { array with offset := array.offset + platform.stride element * counter.signExtend 64 } element.null,
        .stored slot (.int width (counter - 1))] last ∧
        Looping platform element size width s first slot (counter - 1) last := by
  have turning : (s.turning element size).Sound := (Building.turning_region element size sound).sound
  obtain ⟨place, placed⟩ : ∃ place : Pointer,
      place = { array with offset := array.offset + platform.stride element * counter.signExtend 64 } := ⟨_, rfl⟩
  have arrayAt : next.registers s.results = some (.ptr array) := (kept _ (by omega)).trans allocated.arrayAt
  have slotAt : next.registers (s.results + 1) = some (.ptr slot) := (kept _ (by omega)).trans allocated.slotAt
  -- The address, and the store to it.
  have gep : (Op.gep (s.arrptr element) (s.cntr size) []).effect platform next = some (next.gives (.ptr place)) :=
    placed ▸ Llvm.effect_gep rfl arrayAt counted
  let addressed := next.after (s.results + 5) (next.gives (.ptr place))
  have zeroes : (Op.store (.constNull element) (.result (s.results + 5) (.ptr element))).effect platform addressed =
      some ⟨none, platform.store next.memory place element.null, next.objects, [.stored place element.null]⟩ :=
    Llvm.effect_store rfl (Function.update_self _ _ _)
  let zeroed := addressed.after (s.results + 6)
    ⟨none, platform.store next.memory place element.null, next.objects, [.stored place element.null]⟩
  -- The new counter, and the store of it.
  have old : (s.cntr size).fetch platform zeroed.registers = some (.int width counter) := by
    simp [Building.cntr, zeroed, addressed, counted]
  have one : (Llvm.Value.constInt size.type 1).fetch platform zeroed.registers = some (.int width 1) := by
    simp [sized]
  have subtracts : (Op.int .sub (s.cntr size) (.constInt size.type 1)).effect platform zeroed =
      some (zeroed.gives (.int width (counter - 1))) := Llvm.effect_int old one rfl
  let counted' := zeroed.after (s.results + 7) (zeroed.gives (.int width (counter - 1)))
  have slotted : (s.cntrptr size).fetch platform counted'.registers = some (.ptr slot) := by
    simp [Building.cntrptr, counted', zeroed, addressed, slotAt]
  have stores : (Op.store (.result (s.results + 7) size.type) (s.cntrptr size)).effect platform counted' =
      some ⟨none, platform.store counted'.memory slot (.int width (counter - 1)), next.objects,
        [.stored slot (.int width (counter - 1))]⟩ :=
    Llvm.effect_store (Function.update_self _ _ _) slotted
  have run : executeAll platform (numberedFrom (s.results + 5) (s.storing element size)) next =
      some ([.stored place element.null, .stored slot (.int width (counter - 1))], _) :=
    Llvm.executeAll_cons gep (Llvm.executeAll_cons zeroes
      (Llvm.executeAll_cons subtracts (Llvm.executeAll_cons stores rfl)))
  obtain ⟨reached, there⟩ := here.all turning continues.storing run
  rw [← placed]
  refine ⟨_, reached.trans (there.br continues), ?_, fun k below => ?_, ?_, objects⟩
  · exact Building.here_jump _ (Building.enter_current _ _ _) (Building.counting_empty sound (Nat.le_refl _))
  · have apart : k ≠ s.results + 5 ∧ k ≠ s.results + 6 ∧ k ≠ s.results + 7 ∧ k ≠ s.results + 8 := by omega
    rw [← kept k below]
    simp [counted', zeroed, addressed, apart]
  · exact platform.load_stored (.int width _)

/-- A turn stores zero to the element that the counter names, and counts down. -/
theorem Looping.turn (looping : Looping platform element size width s first slot counter a)
    (allocated : Allocated s first array slot) (sound : s.Sound) (sized : size.type = .int width)
    (continues : (s.zeroed element size).Continues graph) (positive : (0 : BitVec width).sle counter = true) :
    ∃ last : Activation M,
      Reaches platform graph a [.stored
        { array with offset := array.offset + platform.stride element * counter.signExtend 64 } element.null,
        .stored slot (.int width (counter - 1))] last ∧
        Looping platform element size width s first slot (counter - 1) last := by
  obtain ⟨next, reached, here, kept, counted, memory, objects⟩ := looping.compares allocated sound sized continues
  rw [if_pos positive] at here
  obtain ⟨last, stored, again⟩ := Looping.stores here kept counted objects allocated sound sized continues
  exact ⟨last, reached.trans stored, again⟩

/-- The loop ends when the counter is below zero. -/
theorem Looping.ends (looping : Looping platform element size width s first slot counter a)
    (allocated : Allocated s first array slot) (sound : s.Sound) (sized : size.type = .int width)
    (continues : (s.zeroed element size).Continues graph) (negative : (0 : BitVec width).sle counter = false) :
    ∃ after : Activation M, Reaches platform graph a [] after ∧ (s.zeroed element size).Here after ∧
      (∀ k < s.results + 3, after.registers k = first.registers k) ∧ after.objects = first.objects := by
  obtain ⟨next, reached, here, kept, counted, memory, objects⟩ := looping.compares allocated sound sized continues
  rw [negative, if_neg Bool.false_ne_true] at here
  exact ⟨next, reached, here, kept, objects⟩

/-- The loop runs through the turns from an element down to the first. -/
theorem Looping.runs {k : Nat} (small : k < 2 ^ (width - 1)) (wide : 0 < width)
    (looping : Looping platform element size width s first slot (BitVec.ofNat width k) a)
    (allocated : Allocated s first array slot) (sound : s.Sound) (sized : size.type = .int width)
    (continues : (s.zeroed element size).Continues graph) :
    ∃ after : Activation M, Reaches platform graph a (loopEvents platform element array slot width k) after ∧
      (s.zeroed element size).Here after ∧ (∀ k < s.results + 3, after.registers k = first.registers k) ∧
      after.objects = first.objects := by
  induction k generalizing a with
  | zero =>
    obtain ⟨next, reached, again⟩ := looping.turn allocated sound sized continues (zero_sle_ofNat small)
    have negative : (0 : BitVec width).sle (BitVec.ofNat width 0 - 1) = false := by
      have last : BitVec.ofNat width 0 - 1 = BitVec.allOnes width := (BitVec.zero_sub 1).trans BitVec.neg_one_eq_allOnes
      rw [last, BitVec.sle_eq_decide, BitVec.toInt_allOnes, if_pos wide]
      simp
    obtain ⟨last, left, here, kept, objects⟩ := again.ends allocated sound sized continues negative
    rw [signExtend_ofNat small] at reached
    refine ⟨last, ?_, here, kept, objects⟩
    have whole := reached.trans left
    rwa [List.append_nil] at whole
  | succ k ih =>
    obtain ⟨next, reached, again⟩ := looping.turn allocated sound sized continues (zero_sle_ofNat small)
    have down : BitVec.ofNat width (k + 1) - 1 = BitVec.ofNat width k := by
      rw [BitVec.ofNat_add]
      exact BitVec.add_sub_cancel _ _
    rw [signExtend_ofNat small] at reached
    obtain ⟨last, rest, here, kept, objects⟩ := ih (by omega) (down ▸ again)
    exact ⟨last, reached.trans rest, here, kept, objects⟩

end Loop

/-! ### The whole of `codegen_array_new` -/

section ArrayNew
variable {M : Type} {platform : Platform M} {graph : Graph} {element : Ty} {size : Llvm.Value} {width n : Nat}
  {s : Building} {a : Activation M}

/-- Allocates the elements and the counter, and comes to the loop. -/
theorem allocating_runs {x : BitVec width} (sound : s.Sound) (below : size.Below s.results)
    (continues : (s.zeroed element size).Continues graph) (here : s.Here a)
    (counted : size.fetch platform a.registers = some (.int width x)) :
    ∃ head : Activation M,
      Reaches platform graph a [.allocated ⟨a.objects, 0⟩ element x.toNat, .stored ⟨a.objects + 1, 0⟩ (.int width x)] head ∧
      Looping platform element size width s head ⟨a.objects + 1, 0⟩ x head ∧
      Allocated s head ⟨a.objects, 0⟩ ⟨a.objects + 1, 0⟩ ∧ (∀ k < s.results, head.registers k = a.registers k) ∧
      head.objects = a.objects + 2 := by
  have mallocs : (Op.arrayMalloc element size).effect platform a =
      some ⟨some (.ptr ⟨a.objects, 0⟩), a.memory, a.objects + 1, [.allocated ⟨a.objects, 0⟩ element x.toNat]⟩ :=
    Llvm.effect_arrayMalloc counted
  let made := a.after s.results
    ⟨some (.ptr ⟨a.objects, 0⟩), a.memory, a.objects + 1, [.allocated ⟨a.objects, 0⟩ element x.toNat]⟩
  let slotted := made.after (s.results + 1) (made.allocates fun _ => [])
  have counted' : size.fetch platform slotted.registers = some (.int width x) :=
    (below.fetch (Nat.le_succ _) _).trans ((below.fetch (Nat.le_refl _) _).trans counted)
  have stores : (Op.store size (s.cntrptr size)).effect platform slotted =
      some ⟨none, platform.store a.memory ⟨a.objects + 1, 0⟩ (.int width x), a.objects + 2,
        [.stored ⟨a.objects + 1, 0⟩ (.int width x)]⟩ :=
    Llvm.effect_store counted' (Function.update_self _ _ _)
  have run : executeAll platform (numberedFrom s.results (s.allocating element size)) a =
      some ([.allocated ⟨a.objects, 0⟩ element x.toNat, .stored ⟨a.objects + 1, 0⟩ (.int width x)], _) :=
    Llvm.executeAll_cons mallocs (Llvm.executeAll_cons rfl (Llvm.executeAll_cons stores rfl))
  obtain ⟨reached, there⟩ := here.all sound continues.allocating run
  have opened : (s.pushAll (s.allocating element size)).append.append.append.Here _ := there
  refine ⟨_, reached.trans (opened.br continues.counting), ⟨?_, fun _ _ => rfl, ?_, rfl⟩, ⟨?_, ?_⟩, fun k old => ?_, rfl⟩
  · exact Building.here_jump _ (Building.enter_current _ _ _) (Building.counting_empty sound (Nat.le_refl _))
  · exact platform.load_stored (.int width _)
  · have apart : s.results ≠ s.results + 1 ∧ s.results ≠ s.results + 2 := by omega
    simp [made, apart]
  · simp [made, Llvm.Activation.allocates]
  · have apart : k ≠ s.results ∧ k ≠ s.results + 1 ∧ k ≠ s.results + 2 := by omega
    simp [made, apart]

theorem arrayNew_runs (sound : s.Sound) (below : size.Below s.results) (sized : size.type = .int width) (wide : 0 < width)
    (small : n < 2 ^ (width - 1)) (continues : (s.zeroed element size).Continues graph) (here : s.Here a)
    (counted : size.fetch platform a.registers = some (.int width (BitVec.ofNat width n))) :
    ∃ after : Activation M,
      Reaches platform graph a ([.allocated ⟨a.objects, 0⟩ element n,
        .stored ⟨a.objects + 1, 0⟩ (.int width (BitVec.ofNat width n))] ++
          loopEvents platform element ⟨a.objects, 0⟩ ⟨a.objects + 1, 0⟩ width n) after ∧
        (s.zeroed element size).Here after ∧
        (s.arrptr element).fetch platform after.registers = some (.ptr ⟨a.objects, 0⟩) ∧
        (∀ k < s.results, after.registers k = a.registers k) ∧ after.objects = a.objects + 2 := by
  obtain ⟨head, allocates, looping, allocated, old, objects⟩ := allocating_runs sound below continues here counted
  rw [(ofNat_small small).1] at allocates
  obtain ⟨after, runs, there, kept, same⟩ := looping.runs small wide allocated sound sized continues
  refine ⟨after, allocates.trans runs, there, (kept _ (by omega)).trans allocated.arrayAt, fun k inside => ?_, ?_⟩
  · exact (kept k (by omega)).trans (old k inside)
  · exact same.trans objects

theorem arrayNew_allocates {x : BitVec width} (sound : s.Sound) (below : size.Below s.results) (sized : size.type = .int width)
    (wide : 0 < width) (continues : (s.zeroed element size).Continues graph) (here : s.Here a)
    (counted : size.fetch platform a.registers = some (.int width x)) :
    ∃ events after, Reaches platform graph a events after ∧ (s.zeroed element size).Here after ∧
      (∀ array type k, .allocated array type k ∈ events ↔ array = ⟨a.objects, 0⟩ ∧ type = element ∧ k = x.toNat) ∧
      (s.arrptr element).fetch platform after.registers = some (.ptr ⟨a.objects, 0⟩) ∧
      ∀ k < s.results, after.registers k = a.registers k := by
  obtain ⟨head, allocates, looping, allocated, old, _⟩ := allocating_runs sound below continues here counted
  obtain ⟨stores, after, reached, there, none, kept⟩ : ∃ events after, Reaches platform graph head events after ∧
      (s.zeroed element size).Here after ∧ (∀ array type k, .allocated array type k ∉ events) ∧
      ∀ k < s.results + 3, after.registers k = head.registers k := by
    cases sign : (0 : BitVec width).sle x with
    | false =>
      obtain ⟨after, reached, there, kept, _⟩ := looping.ends allocated sound sized continues sign
      exact ⟨[], after, reached, there, by simp, kept⟩
    | true =>
      have positive : x.msb = false := BitVec.zero_sle_iff_msb_eq_false.mp sign
      have small : x.toNat < 2 ^ (width - 1) := by
        have double := BitVec.msb_eq_false_iff_two_mul_lt.mp positive
        have whole : 2 ^ width = 2 * 2 ^ (width - 1) := by rw [← Nat.pow_succ', Nat.succ_eq_add_one, Nat.sub_add_cancel wide]
        omega
      have same : BitVec.ofNat width x.toNat = x := by simp
      rw [← same] at looping
      obtain ⟨after, reached, there, kept, _⟩ := looping.runs small wide allocated sound sized continues
      refine ⟨_, after, reached, there, fun array type k member => ?_, kept⟩
      obtain ⟨_, _, turn⟩ := (mem_loopEvents ..).mp member
      simp [turnEvents] at turn
  refine ⟨_, after, allocates.trans reached, there, ?_, (kept _ (by omega)).trans allocated.arrayAt, fun k inside => ?_⟩
  · simp [none]
  · exact (kept k (by omega)).trans (old k inside)

theorem stored_iff {array slot pointer : Pointer} {datum : Datum} (other : pointer ≠ slot) :
    .stored pointer datum ∈ [.allocated array element n, .stored slot (.int width (BitVec.ofNat width n))] ++
        loopEvents platform element array slot width n ↔
      datum = element.null ∧ ∃ k ≤ n, pointer = elementAddress platform element array k := by
  rw [List.mem_append, mem_loopEvents]
  constructor
  · rintro (before | ⟨k, le, turn⟩)
    · simp [other] at before
    · simp only [turnEvents, List.mem_cons, Llvm.Event.stored.injEq, other, false_and, List.not_mem_nil, or_false] at turn
      exact ⟨turn.2, k, le, turn.1⟩
  · rintro ⟨rfl, k, le, rfl⟩
    exact .inr ⟨k, le, .head _⟩

/-- Exactly the elements of the array are zeroed just when the one past the end has the address of
one of them. -/
theorem zeroesExactly_iff {array slot : Pointer} (apart : array.object ≠ slot.object) :
    ZeroesExactly platform element array slot n ([.allocated array element n,
      .stored slot (.int width (BitVec.ofNat width n))] ++ loopEvents platform element array slot width n) ↔
    ∃ k < n, elementAddress platform element array n = elementAddress platform element array k := by
  have other (k : Nat) : elementAddress platform element array k ≠ slot := by
    rintro rfl
    exact apart rfl
  constructor
  · rintro ⟨only, -⟩
    exact (only _ element.null ((stored_iff (other n)).mpr ⟨rfl, n, Nat.le_refl _, rfl⟩) (other n)).2
  · rintro ⟨k, inside, same⟩
    refine ⟨fun pointer datum stored elsewhere => ?_, fun j before => ?_⟩
    · obtain ⟨null, j, le, rfl⟩ := (stored_iff elsewhere).mp stored
      refine ⟨null, ?_⟩
      by_cases last : j = n
      · exact ⟨k, inside, last ▸ same⟩
      · exact ⟨j, by omega, rfl⟩
    · exact (stored_iff (other j)).mpr ⟨rfl, j, Nat.le_of_lt before, rfl⟩

end ArrayNew

/-! ### `new` and `make` -/

section Builtins
variable {decls : List Decl} {fuel : Nat} {codegen : Expr → Bool → Codegen Llvm.Value} {loc : Loc} {s s' : Building}
  {value : Llvm.Value}

theorem build_run (op : Op) (s : Building) :
    build op s = .ok (.result s.results op.type, s.push (.op op)) := rfl

/-- The steps of `codegen_new_builtin_expr` with a count. -/
theorem codegenNewBuiltinExpr_ok {newType : AstType} {count : Expr}
    (run : codegenNewBuiltinExpr fuel codegen newType (some count) s = .ok (value, s')) :
    ∃ element s₀ size s₁, llvmType fuel newType s = .ok (element, s₀) ∧
      codegen count false s₀ = .ok (size, s₁) ∧
      s₁.arrptr element = value ∧ s₁.zeroed element size = s' := by
  obtain ⟨element, s₀, translated, run⟩ := bind_ok.mp run
  obtain ⟨size, s₁, counted, run⟩ := bind_ok.mp run
  rw [Building.codegenArrayNew_run] at run
  obtain ⟨rfl, rfl⟩ := Prod.mk.inj (Except.ok.inj run)
  exact ⟨element, s₀, size, s₁, translated, counted, rfl, rfl⟩

def assembling (first : Nat) (type : Ty) (arrptr cap : Llvm.Value) : List Op :=
  [.insertValue (.constNull type) arrptr 0, .insertValue (.result first type) cap 2,
    .insertValue (.result (first + 1) type) arrptr 3]

def Building.casted (s : Building) (element : Ty) (cap : Llvm.Value) : Building :=
  (s.zeroed element cap).push (.op (.pointerCast (s.arrptr element) (.ptr element)))

/-- The steps of `codegen_make_builtin_expr`. -/
theorem codegenMakeBuiltinExpr_ok {makeType : AstType} {count : Expr}
    (run : codegenMakeBuiltinExpr fuel codegen loc makeType count s = .ok (value, s')) :
    ∃ t slice cap s₀ element s₁ type s₃, resolveTypeName s.context fuel makeType = .ok t ∧
      t.kind = .sliceType slice ∧
      codegen count false s = .ok (cap, s₀) ∧
      llvmType fuel slice (s₀.push (.op (.intCast cap (.int 64)))) = .ok (element, s₁) ∧
      llvmType fuel t (s₁.casted element (.result s₀.results (.int 64))) = .ok (type, s₃) ∧
      value = .result (s₃.results + 2) type ∧
      s' = s₃.pushAll (assembling s₃.results type (.result (s₁.results + 9) (.ptr element)) (.result s₀.results (.int 64))) := by
  obtain ⟨t, _, resolves, run⟩ := bind_ok.mp run
  obtain ⟨found, rfl⟩ := resolved_ok resolves
  obtain ⟨slice, is⟩ : ∃ slice, t.kind = .sliceType slice := by
    cases is : t.kind with
    | sliceType slice => exact ⟨slice, rfl⟩
    | _ =>
      simp only [is] at run
      cases run
  simp only [is] at run
  obtain ⟨cap, s₀, counted, run⟩ := bind_ok.mp run
  obtain ⟨_, _, same, run⟩ := bind_ok.mp run
  cases (build_run _ _).symm.trans same
  obtain ⟨element, s₁, translated, run⟩ := bind_ok.mp run
  obtain ⟨_, _, same, run⟩ := bind_ok.mp run
  cases (Building.codegenArrayNew_run _ _ _).symm.trans same
  obtain ⟨_, _, same, run⟩ := bind_ok.mp run
  cases (build_run _ _).symm.trans same
  obtain ⟨type, s₃, translated', run⟩ := bind_ok.mp run
  obtain ⟨_, _, same, run⟩ := bind_ok.mp run
  cases (build_run _ _).symm.trans same
  obtain ⟨_, _, same, run⟩ := bind_ok.mp run
  cases (build_run _ _).symm.trans same
  cases (build_run _ _).symm.trans run
  refine ⟨t, slice, cap, s₀, element, s₁, type, s₃, found, is, counted, translated, translated', ?_, ?_⟩
  · simp [Op.type, Emitted.op?]
  · simp [Op.type, Emitted.op?, assembling, Building.pushAll, Building.zeroed_results]

/-- `new(T, n)` or `make([]T, n)`. -/
def Expr.IsArrayNew : Expr → Prop
  | .mk _ _ (.newBuiltin _ (some _)) | .mk _ _ (.makeBuiltin _ _) => True
  | _ => False

/-- The code for the expression calls `codegen_array_new` there, for elements of a type and their number. -/
inductive ArrayNewAt (decls : List Decl) (fuel : Nat) : Expr → Building → Building → Ty → Llvm.Value → Prop where
  | new {loc type newType count s s₀ s₁ element size} (translated : llvmType fuel newType s = .ok (element, s₀))
    (counted : codegenExpr decls fuel count false s₀ = .ok (size, s₁)) :
    ArrayNewAt decls fuel (.mk loc type (.newBuiltin newType (some count))) s s₁ element size
  | make {loc type makeType count t slice s cap s₀ s₁ element}
    (found : resolveTypeName s.context fuel makeType = .ok t) (is : t.kind = .sliceType slice)
    (counted : codegenExpr decls fuel count false s = .ok (cap, s₀))
    (translated : llvmType fuel slice (s₀.push (.op (.intCast cap (.int 64)))) = .ok (element, s₁)) :
    ArrayNewAt decls fuel (.mk loc type (.makeBuiltin makeType count)) s s₁ element (.result s₀.results (.int 64))

/-- `codegen_array_new` is called in a sound state, and all that it builds stays. -/
theorem arrayNewAt {e : Expr} {lvalue : Bool} (sound : s.Sound) (many : e.IsArrayNew)
    (run : codegenExpr decls (fuel + 1) e lvalue s = .ok (value, s')) :
    ∃ s₁ element size, ArrayNewAt decls fuel e s s₁ element size ∧ s₁.Sound ∧ size.Below s₁.results ∧
      (s₁.zeroed element size).Continues s'.block := by
  obtain ⟨loc, type, kind⟩ := e
  cases kind with
  | newBuiltin newType count =>
    cases count with
    | none => cases many
    | some count =>
      obtain ⟨element, s₀, size, s₁, translated, counted, rfl, rfl⟩ := codegenNewBuiltinExpr_ok run
      obtain ⟨first, _⟩ := Generates.llvmType newType s _ _ sound (.refl _) (Nat.le_refl _) translated
      obtain ⟨second, below⟩ := Generates.expr s.context decls fuel _ count false _ _ _ first.sound first.context
        (Nat.le_refl _) counted
      exact ⟨s₁, element, size, .new translated counted, second.sound, below, .refl _⟩
  | makeBuiltin makeType count =>
    obtain ⟨t, slice, cap, s₀, element, s₁, made, s₃, found, is, counted, translated, translated', rfl, rfl⟩ :=
      codegenMakeBuiltinExpr_ok run
    obtain ⟨first, _⟩ := Generates.expr s.context decls fuel _ count false _ _ _ sound (.refl _) (Nat.le_refl _) counted
    have second : (s₀.push (.op (.intCast cap (.int 64)))).Sound := first.sound.push trivial
    obtain ⟨third, _⟩ := Generates.llvmType slice _ _ _ second (.refl _) (Nat.le_refl _) translated
    have zeroed := (Building.zeroed_codes element (.result s₀.results (.int 64)) third.sound).sound
    have casted : (s₁.casted element (.result s₀.results (.int 64))).Sound := zeroed.push trivial
    obtain ⟨last, _⟩ := Generates.llvmType t _ _ _ casted (.refl _) (Nat.le_refl _) translated'
    refine ⟨s₁, element, _, .make found is counted translated, third.sound, ?_, ?_⟩
    · exact Nat.lt_of_lt_of_le (Nat.lt_succ_self _) third.results
    · exact ((Building.continues_pushAll s₃ _).before last.continues).before (Building.continues_push _ _)
  | _ => cases many

/-- Zero is stored to exactly the elements of `new(T, n)` and `make([]T, n)` just when the element
past the end has the address of one of them. -/
theorem zero_initialised_iff {e : Expr} {lvalue : Bool} (sound : s.Sound) (many : e.IsArrayNew)
    (run : codegenExpr decls (fuel + 1) e lvalue s = .ok (value, s')) :
    ∃ s₁ element size, ArrayNewAt decls fuel e s s₁ element size ∧
      ∀ {M : Type} (platform : Platform M) (graph : Graph), s'.Continues graph →
      ∀ (a : Activation M) (width n : Nat),
        s₁.Here a → size.type = .int width → 0 < width → n < 2 ^ (width - 1) →
        size.fetch platform a.registers = some (.int width (BitVec.ofNat width n)) →
        ∃ events after, Reaches platform graph a events after ∧ (s₁.zeroed element size).Here after ∧
          .allocated ⟨a.objects, 0⟩ element n ∈ events ∧
          (ZeroesExactly platform element ⟨a.objects, 0⟩ ⟨a.objects + 1, 0⟩ n events ↔
            ∃ k < n, elementAddress platform element ⟨a.objects, 0⟩ n = elementAddress platform element ⟨a.objects, 0⟩ k) := by
  obtain ⟨s₁, element, size, found, sound₁, below, stays⟩ := arrayNewAt sound many run
  refine ⟨s₁, element, size, found, ?_⟩
  intro M platform graph continues a width n here sized wide small counted
  have built : (s₁.zeroed element size).Continues graph := continues.before stays
  obtain ⟨after, reached, there, _⟩ := arrayNew_runs sound₁ below sized wide small built here counted
  refine ⟨_, after, reached, there, .head _, zeroesExactly_iff ?_⟩
  exact Nat.ne_of_lt (Nat.lt_succ_self _)

end Builtins

/-- `new(T, n)` with a digit. -/
def newDigit (newType : AstType) (n : UInt8) : Expr :=
  .mk ⟨0, 0⟩ newType.up (.newBuiltin newType (some (digit n)))

/-- The digit in the code for `newDigit`. -/
def digitValue (n : UInt8) : Llvm.Value := .constIntOfString (.int 64) [48 + n] 10

/-- A function is called that has no parameters, and nothing is allocated yet. -/
def firstActivation : Activation (Pointer → Option Datum) := ⟨fun _ => none, fun _ => none, 0, 0, 0, 0⟩

theorem newDigit_run {newType : AstType} {element : Ty} (n : UInt8)
    (translated : llvmType 2 newType firstBuilding = .ok (element, firstBuilding)) :
    codegenExpr [] 3 (newDigit newType n) false firstBuilding =
      .ok (firstBuilding.arrptr element, firstBuilding.zeroed element (digitValue n)) := by
  refine bind_ok.mpr ⟨element, firstBuilding, translated, bind_ok.mpr ⟨digitValue n, firstBuilding, rfl, ?_⟩⟩
  exact Building.codegenArrayNew_run _ _ _

/-- `new(struct {}, 1)` zeroes its only element, and no other address. -/
theorem zero_initialised_empty :
    ∃ events after, Reaches Llvm.cells (firstBuilding.zeroed (.struct []) (digitValue 1)).block firstActivation events after ∧
      ZeroesExactly Llvm.cells (.struct []) ⟨0, 0⟩ ⟨1, 0⟩ 1 events := by
  have run : codegenExpr [] 3 (newDigit (.mk 0 (.structType [])) 1) false firstBuilding =
      .ok (firstBuilding.arrptr (.struct []), firstBuilding.zeroed (.struct []) (digitValue 1)) := newDigit_run 1 rfl
  have many : (newDigit (.mk 0 (.structType [])) 1).IsArrayNew := trivial
  obtain ⟨s₁, element, size, found, exact⟩ := zero_initialised_iff firstBuilding_sound many run
  cases found with
  | new translated counted =>
    cases translated
    cases counted
    obtain ⟨events, after, reached, _, _, exact⟩ := exact Llvm.cells _ (.refl _) firstActivation 64 1 ⟨rfl, rfl⟩ rfl
      (by decide) (by decide) rfl
    exact ⟨events, after, reached, exact.mpr ⟨0, Nat.one_pos, rfl⟩⟩

/-- `new(int64, 1)` stores to the element past the end. -/
theorem past_end_zeroed :
    codegenExpr [] 3 (newDigit int64 1) false firstBuilding =
      .ok (firstBuilding.arrptr (.int 64), firstBuilding.zeroed (.int 64) (digitValue 1)) ∧
    ∃ events after, Reaches Llvm.cells (firstBuilding.zeroed (.int 64) (digitValue 1)).block firstActivation events after ∧
      .stored ⟨0, 8⟩ (.int 64 0) ∈ events ∧ ¬ZeroesExactly Llvm.cells (.int 64) ⟨0, 0⟩ ⟨1, 0⟩ 1 events := by
  refine ⟨newDigit_run 1 rfl, ?_⟩
  have here : firstBuilding.Here firstActivation := ⟨rfl, rfl⟩
  have counted : (digitValue 1).fetch Llvm.cells firstActivation.registers = some (.int 64 (BitVec.ofNat 64 1)) := rfl
  have below : (digitValue 1).Below firstBuilding.results := trivial
  obtain ⟨after, reached, _⟩ := arrayNew_runs firstBuilding_sound below rfl (by decide) (by decide)
    (.refl (firstBuilding.zeroed (.int 64) (digitValue 1))) here counted
  refine ⟨_, after, reached, ?_, fun exact => ?_⟩
  · refine (stored_iff (by decide)).mpr ⟨rfl, 1, Nat.le_refl _, by decide⟩
  · obtain ⟨k, inside, same⟩ := (zeroesExactly_iff (by decide)).mp exact
    obtain rfl : k = 0 := by omega
    revert same
    decide

end Low
