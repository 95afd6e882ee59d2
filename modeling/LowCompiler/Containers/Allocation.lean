import LowCompiler.Containers.Refinement
import LowCompiler.Stateful
import Mathlib.Data.Nat.Basic

/-!
# The arithmetic of allocations

Three computations of `array.c` wrap around at 32 bits: the size that is required, the
doubling of the capacity, and the number of bytes. `allocation_exact_iff` says on which
sequences of operations none of them does harm.
-/

namespace Low
namespace ArrayT

/-- Every item below the capacity lies inside the allocation. -/
def Allocated (self : ArrayT) : Prop := self.capacity.toNat * self.itemSize.toNat ≤ self.block.length

/-- The items that an operation is about are counted by an `unsigned`. -/
def Counted (self : ArrayT) : ArrayOperation → Prop
  | .insert _ _ | .add _ => self.size.toNat + 1 < 2 ^ 32
  | .insertMany _ _ numItems | .addMany _ numItems => self.size.toNat + numItems.toNat < 2 ^ 32
  | _ => True

/-- What an operation does to the allocation, before it touches an item. -/
def allocate (null : Bool) (self : ArrayT) : ArrayOperation → Except ArrayFault ArrayT
  | .init itemSize => arrayInit itemSize
  | .reserve capacity => .ok (arrayReserve null self capacity)
  | .resize items => .ok (arrayResize null self items)
  | .shrink => .ok (arrayShrink null self)
  | .insert _ _ | .add _ => arrayGrow null self 1
  | .insertMany _ _ numItems | .addMany _ numItems => arrayGrow null self numItems
  | _ => .ok self

/-- The capacity that is doubled. -/
def doubledFrom (self : ArrayT) : Nat := if self.capacity = 0 then 1 else self.capacity.toNat

/-- The capacity is enough, or a doubled one is whose bytes can be counted. Single bytes leave room for a
doubling that wraps around and still ends. -/
def GrowthFits (self : ArrayT) (additional : Nat) : Prop :=
  self.size.toNat + additional ≤ self.capacity.toNat ∨
  (∃ k, self.size.toNat + additional ≤ self.doubledFrom * 2 ^ k ∧ self.doubledFrom * 2 ^ k * self.itemSize.toNat < 2 ^ 32) ∨
  self.itemSize = 1 ∧ ∃ k, self.size.toNat + additional ≤ self.doubledFrom * 2 ^ k % 2 ^ 32

/-- The bytes that an operation asks for can be counted by an `unsigned`. -/
def BytesFit (self : ArrayT) : ArrayOperation → Prop
  | .reserve items | .resize items =>
    items.toNat ≤ self.capacity.toNat ∨ items.toNat * self.itemSize.toNat < 2 ^ 32
  | .insert _ _ | .add _ => self.GrowthFits 1
  | .insertMany _ _ numItems | .addMany _ numItems => self.GrowthFits numItems.toNat
  | _ => True

/-! ### Doubling -/

section Doubling
variable {req v : BitVec 32} {n k rounds : Nat}

theorem ofNat_double : BitVec.ofNat 32 n * 2 = BitVec.ofNat 32 (n * 2) := by
  apply BitVec.eq_of_toNat_eq
  simp [BitVec.toNat_mul]

/-- The loop ends with the first value that is enough. -/
theorem doubled_some (ends : doubled req rounds (BitVec.ofNat 32 n) = some v) :
    ∃ k, v = BitVec.ofNat 32 (n * 2 ^ k) ∧ req ≤ v ∧ ∀ j < k, BitVec.ofNat 32 (n * 2 ^ j) < req := by
  induction rounds generalizing n with
  | zero => cases ends
  | succ rounds ih =>
    unfold doubled at ends
    by_cases less : BitVec.ofNat 32 n < req
    · rw [if_pos less, ofNat_double] at ends
      obtain ⟨k, value, enough, before⟩ := ih ends
      have power (j : Nat) : n * 2 * 2 ^ j = n * 2 ^ (j + 1) := by
        rw [Nat.mul_assoc, Nat.pow_succ']
      rw [power] at value
      refine ⟨k + 1, value, enough, ?_⟩
      intro j within
      cases j with
      | zero => rwa [Nat.pow_zero, Nat.mul_one]
      | succ j =>
        rw [← power]
        exact before j (Nat.lt_of_succ_lt_succ within)
    · rw [if_neg less] at ends
      obtain rfl := Option.some.inj ends
      exact ⟨0, by simp, BitVec.not_lt.mp less, fun j within => absurd within (Nat.not_lt_zero j)⟩

/-- The loop goes on when no value is enough. -/
theorem doubled_none (ends : doubled req rounds (BitVec.ofNat 32 n) = none) (within : k < rounds) :
    BitVec.ofNat 32 (n * 2 ^ k) < req := by
  induction rounds generalizing n k with
  | zero => exact absurd within (Nat.not_lt_zero k)
  | succ rounds ih =>
    unfold doubled at ends
    by_cases less : BitVec.ofNat 32 n < req
    · rw [if_pos less, ofNat_double] at ends
      cases k with
      | zero => rwa [Nat.pow_zero, Nat.mul_one]
      | succ k =>
        have later := ih ends (Nat.lt_of_succ_lt_succ within)
        rwa [Nat.mul_assoc, ← Nat.pow_succ'] at later
    · rw [if_neg less] at ends
      cases ends

/-- After 32 doublings nothing is left. -/
theorem double_zero (many : 32 ≤ k) : n * 2 ^ k % 2 ^ 32 = 0 := by
  obtain ⟨more, rfl⟩ := Nat.exists_eq_add_of_le many
  rw [Nat.pow_add, ← Nat.mul_assoc, Nat.mul_right_comm]
  exact Nat.mul_mod_left _ _

/-- The loop ends just when some value is enough. -/
theorem doubled_ends (positive : 0 < req.toNat) :
    (∃ v, doubled req 33 (BitVec.ofNat 32 n) = some v) ↔ ∃ k, req.toNat ≤ n * 2 ^ k % 2 ^ 32 := by
  constructor
  · rintro ⟨v, ends⟩
    obtain ⟨k, rfl, enough, _⟩ := doubled_some ends
    rw [BitVec.le_def, BitVec.toNat_ofNat] at enough
    exact ⟨k, enough⟩
  · rintro ⟨k, enough⟩
    cases ends : doubled req 33 (BitVec.ofNat 32 n) with
    | some v => exact ⟨v, rfl⟩
    | none =>
      have few : k < 32 := by
        by_contra many
        rw [double_zero (Nat.le_of_not_lt many)] at enough
        omega
      have less := doubled_none ends (Nat.lt_succ_of_lt few)
      rw [BitVec.lt_def, BitVec.toNat_ofNat] at less
      omega

/-- As long as the values are below a requirement of 31 bits, nothing wraps around. -/
theorem double_exact (start : n < 2 ^ 32) (small : req.toNat ≤ 2 ^ 31)
    (before : ∀ j < k, BitVec.ofNat 32 (n * 2 ^ j) < req) :
    n * 2 ^ k < 2 ^ 32 := by
  induction k with
  | zero => simpa using start
  | succ k ih =>
    have exact := ih fun j less => before j (Nat.lt_succ_of_lt less)
    have last := before k (Nat.lt_succ_self k)
    rw [BitVec.lt_def, BitVec.toNat_ofNat, Nat.mod_eq_of_lt exact] at last
    rw [Nat.pow_succ, ← Nat.mul_assoc]
    omega

end Doubling

/-! ### The allocation of one operation -/

section Operation
variable (null : Bool) {self : ArrayT} {operation : ArrayOperation}

/-- The block has as many bytes as were asked for. -/
theorem block_length_reallocate (capacity : BitVec 32) :
    (arrayReallocate null self capacity).block.length = (capacity * self.itemSize).toNat := by
  rw [block_reallocate, List.length_append, List.length_take, List.length_replicate]
  omega

theorem allocated_reallocate {capacity : BitVec 32} :
    (arrayReallocate null self capacity).Allocated ↔ capacity.toNat * self.itemSize.toNat < 2 ^ 32 := by
  unfold Allocated
  rw [block_length_reallocate, capacity_reallocate, itemSize_reallocate, BitVec.toNat_mul]
  constructor
  · intro enough
    exact Nat.lt_of_le_of_lt enough (Nat.mod_lt _ (Nat.two_pow_pos 32))
  · intro small
    rw [Nat.mod_eq_of_lt small]

/-- What stays true of an array: its size is within the capacity, and the block has the bytes that
were asked for. -/
structure Sized (array : ArrayT) : Prop where
  size : array.size.toNat ≤ array.capacity.toNat
  block : array.block.length = (array.capacity * array.itemSize).toNat
  positive : 0 < array.itemSize.toNat

theorem Sized.bytes (sized : Sized self) (allocated : self.Allocated) :
    self.capacity.toNat * self.itemSize.toNat < 2 ^ 32 := by
  have enough := allocated
  unfold Allocated at enough
  rw [sized.block] at enough
  exact Nat.lt_of_le_of_lt enough (BitVec.isLt _)

theorem ofNat_doubledFrom : BitVec.ofNat 32 self.doubledFrom = if self.capacity = 0 then 1 else self.capacity := by
  unfold doubledFrom
  split
  · rfl
  · simp

theorem doubledFrom_lt : self.doubledFrom < 2 ^ 32 := by
  unfold doubledFrom
  split
  · exact Nat.one_lt_two_pow (by omega)
  · exact BitVec.isLt _

theorem arrayGrow_none {additional : BitVec 32}
    (enough : self.size.toNat + additional.toNat ≤ self.capacity.toNat) :
    arrayGrow null self additional = .ok self := by
  have required : (self.size + additional).toNat ≤ self.size.toNat + additional.toNat := by
    rw [BitVec.toNat_add]
    exact Nat.mod_le _ _
  have stop : ¬self.capacity < self.size + additional := by
    rw [BitVec.lt_def]
    omega
  rw [arrayGrow, if_neg stop]

/-- The growth of an array that is too small. -/
theorem arrayGrow_some {additional : BitVec 32} (counted : self.size.toNat + additional.toNat < 2 ^ 32)
    (less : self.capacity.toNat < self.size.toNat + additional.toNat) {r : Except ArrayFault ArrayT} :
    arrayGrow null self additional = r ↔
      (∃ cap, doubled (self.size + additional) 33 (BitVec.ofNat 32 self.doubledFrom) = some cap ∧
        .ok (arrayReallocate null self cap) = r) ∨
      doubled (self.size + additional) 33 (BitVec.ofNat 32 self.doubledFrom) = none ∧ .error .diverges = r := by
  have required : (self.size + additional).toNat = self.size.toNat + additional.toNat := by
    rw [BitVec.toNat_add, Nat.mod_eq_of_lt counted]
  have grows : self.capacity < self.size + additional := by
    rw [BitVec.lt_def, required]
    exact less
  rw [ofNat_doubledFrom]
  simp only [arrayGrow, if_pos grows]
  generalize doubled (self.size + additional) 33 (if self.capacity = 0 then 1 else self.capacity) = ends
  cases ends with
  | none => simp
  | some cap => simp

/-- Growing ends with a block that is large enough just when the bytes fit. -/
theorem arrayGrow_iff (sized : Sized self) (allocated : self.Allocated) {additional : BitVec 32}
    (counted : self.size.toNat + additional.toNat < 2 ^ 32) :
    (∃ self', arrayGrow null self additional = .ok self' ∧ self'.Allocated) ↔ self.GrowthFits additional.toNat := by
  by_cases enough : self.size.toNat + additional.toNat ≤ self.capacity.toNat
  · exact ⟨fun _ => .inl enough, fun _ => ⟨self, arrayGrow_none null enough, allocated⟩⟩
  have less : self.capacity.toNat < self.size.toNat + additional.toNat := Nat.lt_of_not_le enough
  have required : (self.size + additional).toNat = self.size.toNat + additional.toNat := by
    rw [BitVec.toNat_add, Nat.mod_eq_of_lt counted]
  have some : 0 < (self.size + additional).toNat := by omega
  have positive := sized.positive
  constructor
  · rintro ⟨self', run, enough'⟩
    rcases (arrayGrow_some null counted less).mp run with ⟨cap, ends, same⟩ | ⟨_, wrong⟩
    · obtain rfl := Except.ok.inj same
      rw [allocated_reallocate] at enough'
      obtain ⟨k, rfl, reaches, before⟩ := doubled_some ends
      rw [BitVec.le_def, required, BitVec.toNat_ofNat] at reaches
      rw [BitVec.toNat_ofNat] at enough'
      by_cases single : self.itemSize = 1
      · exact .inr (.inr ⟨single, k, reaches⟩)
      · have wide : 2 ≤ self.itemSize.toNat := by
          have other : self.itemSize.toNat ≠ 1 := fun one => single (BitVec.eq_of_toNat_eq one)
          omega
        have half : self.doubledFrom * 2 ^ k % 2 ^ 32 * 2 ≤ self.doubledFrom * 2 ^ k % 2 ^ 32 * self.itemSize.toNat :=
          Nat.mul_le_mul_left _ wide
        have exact := double_exact doubledFrom_lt (by omega) before
        rw [Nat.mod_eq_of_lt exact] at reaches enough'
        exact .inr (.inl ⟨k, reaches, enough'⟩)
    · cases wrong
  · intro fits
    have reached : ∃ k, self.size.toNat + additional.toNat ≤ self.doubledFrom * 2 ^ k % 2 ^ 32 := by
      rcases fits with wrong | ⟨k, reaches, bytes⟩ | ⟨_, k, reaches⟩
      · exact absurd wrong enough
      · have exact : self.doubledFrom * 2 ^ k < 2 ^ 32 :=
          Nat.lt_of_le_of_lt (Nat.le_mul_of_pos_right _ positive) bytes
        exact ⟨k, by rwa [Nat.mod_eq_of_lt exact]⟩
      · exact ⟨k, reaches⟩
    rw [← required] at reached
    obtain ⟨cap, ends⟩ := (doubled_ends some).mpr reached
    refine ⟨_, (arrayGrow_some null counted less).mpr (.inl ⟨cap, ends, rfl⟩), ?_⟩
    rw [allocated_reallocate]
    obtain ⟨k, rfl, reaches, before⟩ := doubled_some ends
    rcases fits with wrong | ⟨k', reaches', bytes⟩ | ⟨single, _⟩
    · exact absurd wrong enough
    · -- The loop ends at the first value that is enough, so at the latest here.
      have first : k ≤ k' := by
        by_contra later
        have less' := before k' (Nat.lt_of_not_le later)
        have exact : self.doubledFrom * 2 ^ k' < 2 ^ 32 :=
          Nat.lt_of_le_of_lt (Nat.le_mul_of_pos_right _ positive) bytes
        rw [BitVec.lt_def, BitVec.toNat_ofNat, Nat.mod_eq_of_lt exact, required] at less'
        omega
      have below : self.doubledFrom * 2 ^ k ≤ self.doubledFrom * 2 ^ k' :=
        Nat.mul_le_mul_left _ (Nat.pow_le_pow_right (by omega) first)
      refine Nat.lt_of_le_of_lt (Nat.mul_le_mul_right _ ?_) bytes
      rw [BitVec.toNat_ofNat]
      exact Nat.le_trans (Nat.mod_le _ _) below
    · rw [single]
      show _ * 1 < _
      rw [Nat.mul_one]
      exact BitVec.isLt _

theorem arrayReserve_iff (allocated : self.Allocated) (n : BitVec 32) : (arrayReserve null self n).Allocated ↔
    n.toNat ≤ self.capacity.toNat ∨ n.toNat * self.itemSize.toNat < 2 ^ 32 := by
  unfold arrayReserve
  split
  · rename_i enough
    exact iff_of_true allocated (.inl (BitVec.le_def.mp enough))
  · rename_i more
    rw [BitVec.le_def] at more
    rw [allocated_reallocate, or_iff_right more]

theorem arrayResize_iff (allocated : self.Allocated) (n : BitVec 32) : (arrayResize null self n).Allocated ↔
    n.toNat ≤ self.capacity.toNat ∨ n.toNat * self.itemSize.toNat < 2 ^ 32 := by
  have same (array : ArrayT) : Allocated { array with size := n } ↔ array.Allocated := Iff.rfl
  unfold arrayResize
  rw [same]
  split
  · rename_i more
    rw [gt_iff_lt, BitVec.lt_def] at more
    rw [allocated_reallocate, or_iff_right (Nat.not_le_of_lt more)]
  · rename_i enough
    rw [gt_iff_lt, BitVec.lt_def] at enough
    exact iff_of_true allocated (.inl (Nat.le_of_not_lt enough))

theorem arrayShrink_allocated (sized : Sized self) (allocated : self.Allocated) :
    (arrayShrink null self).Allocated := by
  unfold arrayShrink
  split
  · rw [allocated_reallocate]
    exact Nat.lt_of_le_of_lt (Nat.mul_le_mul_right _ sized.size) (sized.bytes allocated)
  · exact allocated

/-- An operation leaves an allocation that is large enough just when the bytes it asks for fit. -/
theorem allocate_iff (sized : Sized self) (allocated : self.Allocated) (asserted : self.Asserted operation)
    (counted : self.Counted operation) :
    (∃ self', allocate null self operation = .ok self' ∧ self'.Allocated) ↔ self.BytesFit operation := by
  have returns (array : ArrayT) : (∃ self', (.ok array : Except ArrayFault ArrayT) = .ok self' ∧ self'.Allocated) ↔
      array.Allocated := by simp
  cases operation with
  | init itemSize =>
    have positive : 0 < itemSize := asserted
    show (∃ self', arrayInit itemSize = .ok self' ∧ self'.Allocated) ↔ True
    rw [arrayInit, assert_ok (decide_eq_true positive)]
    refine iff_of_true ((returns _).mpr ?_) trivial
    exact Nat.le_of_eq (Nat.zero_mul _)
  | reserve n => exact (returns _).trans (arrayReserve_iff null allocated n)
  | resize n => exact (returns _).trans (arrayResize_iff null allocated n)
  | shrink => exact (returns _).trans (iff_of_true (arrayShrink_allocated null sized allocated) trivial)
  | insert index item => exact arrayGrow_iff null sized allocated counted
  | add item => exact arrayGrow_iff null sized allocated counted
  | insertMany index items n => exact arrayGrow_iff null sized allocated counted
  | addMany items n => exact arrayGrow_iff null sized allocated counted
  | _ => exact (returns _).trans (iff_of_true allocated trivial)

end Operation

/-! ### What an operation keeps -/

structure SameBlock (array array' : ArrayT) : Prop where
  capacity : array'.capacity = array.capacity
  itemSize : array'.itemSize = array.itemSize
  length : array'.block.length = array.block.length

section Kept
variable {null : Bool} {self self' array array' : ArrayT} {index n : BitVec 32}

theorem SameBlock.trans (first : SameBlock self array) (second : SameBlock array array') :
    SameBlock self array' :=
  ⟨second.capacity.trans first.capacity, second.itemSize.trans first.itemSize, second.length.trans first.length⟩

theorem SameBlock.allocated (same : SameBlock array array') (allocated : array.Allocated) :
    array'.Allocated := by
  unfold Allocated at allocated ⊢
  rwa [same.capacity, same.itemSize, same.length]

theorem sameBlock_size (size : BitVec 32) : SameBlock array { array with size } := ⟨rfl, rfl, rfl⟩

theorem sameBlock_setBlock {block : List Byte} (length : block.length = array.block.length) :
    SameBlock array (array.setBlock block) :=
  ⟨rfl, rfl, by rw [block_setBlock length, length]⟩

theorem defined_ok {α : Type} {o : Option α} {a : α} (run : defined o = .ok a) : o = some a := by
  cases o with
  | none => cases run
  | some b => exact congrArg some (Except.ok.inj run)

theorem sameBlock_moveTail {source target : BitVec 32} (run : arrayMoveTail array source target = .ok array') :
    SameBlock array array' ∧ array'.size = array.size := by
  obtain ⟨block, moved, result⟩ := Stateful.ok_of_bind run
  obtain rfl := Except.ok.inj result
  exact ⟨sameBlock_setBlock (Blocks.move_length (defined_ok moved)), rfl⟩

theorem sameBlock_set {item : List Byte} (run : arraySet array index item = .ok array') :
    SameBlock array array' ∧ array'.size = array.size := by
  obtain ⟨_, _, run⟩ := Stateful.ok_of_bind run
  obtain ⟨bytes, _, run⟩ := Stateful.ok_of_bind run
  obtain ⟨block, written, result⟩ := Stateful.ok_of_bind run
  obtain rfl := Except.ok.inj result
  exact ⟨sameBlock_setBlock (Blocks.write_length (defined_ok written)), rfl⟩

theorem sameBlock_setMany {items : List Byte} (run : arraySetMany array index items n = .ok array') :
    SameBlock array array' ∧ array'.size = array.size := by
  obtain ⟨_, _, run⟩ := Stateful.ok_of_bind run
  obtain ⟨bytes, _, run⟩ := Stateful.ok_of_bind run
  obtain ⟨block, written, result⟩ := Stateful.ok_of_bind run
  obtain rfl := Except.ok.inj result
  exact ⟨sameBlock_setBlock (Blocks.write_length (defined_ok written)), rfl⟩

/-- After growing there is room for what is required, and the block has the bytes that were asked for. -/
theorem arrayGrow_sized (sized : Sized self) (counted : self.size.toNat + n.toNat < 2 ^ 32)
    (run : arrayGrow null self n = .ok self') :
    Sized self' ∧ self'.size = self.size ∧ self.size.toNat + n.toNat ≤ self'.capacity.toNat := by
  by_cases enough : self.size.toNat + n.toNat ≤ self.capacity.toNat
  · rw [arrayGrow_none null enough] at run
    obtain rfl := Except.ok.inj run
    exact ⟨sized, rfl, enough⟩
  · rcases (arrayGrow_some null counted (Nat.lt_of_not_le enough)).mp run with ⟨cap, ends, same⟩ | ⟨_, wrong⟩
    · obtain rfl := Except.ok.inj same
      obtain ⟨k, rfl, reaches, _⟩ := doubled_some ends
      rw [BitVec.le_def, BitVec.toNat_add, Nat.mod_eq_of_lt counted] at reaches
      refine ⟨⟨?_, block_length_reallocate null _, sized.positive⟩, rfl, reaches⟩
      exact Nat.le_trans (Nat.le_add_right _ _) reaches
    · cases wrong

theorem size_add (counted : self.size.toNat + n.toNat < 2 ^ 32) :
    (self.size + n).toNat = self.size.toNat + n.toNat := by
  rw [BitVec.toNat_add, Nat.mod_eq_of_lt counted]

/-- Opening a gap behind `index` and making the array longer. -/
theorem insert_room {target : BitVec 32} {array'' : ArrayT} (counted : self.size.toNat + n.toNat < 2 ^ 32)
    (sized : Sized self) (grown : arrayGrow null self n = .ok array)
    (moved : (if index < array.size then arrayMoveTail array index target else pure array) = .ok array')
    (filled : SameBlock { array' with size := array'.size + n } array'' ∧ array''.size = array'.size + n) :
    SameBlock array array'' ∧ array''.size.toNat ≤ array.capacity.toNat := by
  obtain ⟨_, same, room⟩ := arrayGrow_sized sized counted grown
  have kept : SameBlock array array' ∧ array'.size = array.size := by
    split at moved
    · exact sameBlock_moveTail moved
    · obtain rfl := Except.ok.inj moved
      exact ⟨⟨rfl, rfl, rfl⟩, rfl⟩
  refine ⟨kept.1.trans ((sameBlock_size _).trans filled.1), ?_⟩
  rw [filled.2, kept.2, same, size_add counted]
  exact room

theorem arrayInsert_room {item : Option (List Byte)} {pointer : BitVec 32} (sized : Sized self)
    (counted : self.size.toNat + 1 < 2 ^ 32) (run : arrayInsert null self index item = .ok (self', pointer)) :
    ∃ array, arrayGrow null self 1 = .ok array ∧ SameBlock array self' ∧
      self'.size.toNat ≤ array.capacity.toNat := by
  obtain ⟨_, _, run⟩ := Stateful.ok_of_bind run
  obtain ⟨array, grown, run⟩ := Stateful.ok_of_bind run
  obtain ⟨array', moved, run⟩ := Stateful.ok_of_bind run
  obtain ⟨array'', filled, rfl⟩ := Stateful.result_of_bind run
  refine ⟨array, grown, insert_room counted sized grown moved ?_⟩
  cases item with
  | some item => exact sameBlock_set filled
  | none =>
    obtain rfl := Except.ok.inj filled
    exact ⟨⟨rfl, rfl, rfl⟩, rfl⟩

theorem arrayInsertMany_room {items : Option (List Byte)} {pointer : BitVec 32} (sized : Sized self)
    (counted : self.size.toNat + n.toNat < 2 ^ 32)
    (run : arrayInsertMany null self index items n = .ok (self', pointer)) :
    ∃ array, arrayGrow null self n = .ok array ∧ SameBlock array self' ∧
      self'.size.toNat ≤ array.capacity.toNat := by
  obtain ⟨_, _, run⟩ := Stateful.ok_of_bind run
  obtain ⟨array, grown, run⟩ := Stateful.ok_of_bind run
  obtain ⟨array', moved, run⟩ := Stateful.ok_of_bind run
  obtain ⟨array'', filled, rfl⟩ := Stateful.result_of_bind run
  refine ⟨array, grown, insert_room counted sized grown moved ?_⟩
  cases items with
  | some items => exact sameBlock_setMany filled
  | none =>
    obtain rfl := Except.ok.inj filled
    exact ⟨⟨rfl, rfl, rfl⟩, rfl⟩

theorem arrayErase_room (sized : Sized self) (asserted : index < self.size)
    (run : arrayErase self index = .ok self') :
    SameBlock self self' ∧ self'.size.toNat ≤ self.capacity.toNat := by
  obtain ⟨_, _, run⟩ := Stateful.ok_of_bind run
  obtain ⟨array, moved, result⟩ := Stateful.ok_of_bind run
  obtain rfl := Except.ok.inj result
  have kept : SameBlock self array ∧ array.size = self.size := by
    split at moved
    · exact sameBlock_moveTail moved
    · obtain rfl := Except.ok.inj moved
      exact ⟨⟨rfl, rfl, rfl⟩, rfl⟩
  refine ⟨kept.1.trans (sameBlock_size _), ?_⟩
  have held := sized.size
  rw [BitVec.lt_def] at asserted
  simp only [kept.2]
  rw [BitVec.toNat_sub_of_le (BitVec.le_def.mpr (by show 1 ≤ _; omega))]
  omega

theorem arrayEraseRange_room {first last : BitVec 32} (sized : Sized self) (order : first ≤ last) (asserted : last ≤ self.size)
    (run : arrayEraseRange self first last = .ok self') :
    SameBlock self self' ∧ self'.size.toNat ≤ self.capacity.toNat := by
  obtain ⟨_, _, run⟩ := Stateful.ok_of_bind run
  obtain ⟨_, _, run⟩ := Stateful.ok_of_bind run
  obtain ⟨array, moved, result⟩ := Stateful.ok_of_bind run
  obtain rfl := Except.ok.inj result
  have kept : SameBlock self array ∧ array.size = self.size := by
    split at moved
    · exact sameBlock_moveTail moved
    · obtain rfl := Except.ok.inj moved
      exact ⟨⟨rfl, rfl, rfl⟩, rfl⟩
  refine ⟨kept.1.trans (sameBlock_size _), ?_⟩
  have held := sized.size
  rw [BitVec.le_def] at asserted
  have cut : (last - first).toNat ≤ self.size.toNat := by
    rw [BitVec.toNat_sub_of_le order]
    omega
  simp only [kept.2]
  rw [BitVec.toNat_sub_of_le (BitVec.le_def.mpr cut)]
  omega

theorem arrayReserve_room (sized : Sized self) : Sized (arrayReserve null self n) := by
  unfold arrayReserve
  split
  · exact sized
  · rename_i more
    rw [BitVec.le_def] at more
    have held := sized.size
    refine ⟨?_, block_length_reallocate null n, sized.positive⟩
    show self.size.toNat ≤ n.toNat
    omega

theorem arrayResize_room (sized : Sized self) : Sized (arrayResize null self n) := by
  unfold arrayResize
  simp only
  split
  · exact ⟨Nat.le_refl _, block_length_reallocate null n, sized.positive⟩
  · rename_i enough
    rw [gt_iff_lt, BitVec.lt_def] at enough
    exact ⟨Nat.le_of_not_lt enough, sized.block, sized.positive⟩

theorem arrayShrink_room (sized : Sized self) : Sized (arrayShrink null self) := by
  unfold arrayShrink
  split
  · exact ⟨Nat.le_refl _, block_length_reallocate null _, sized.positive⟩
  · exact sized

/-- What an operation asks for is what it leaves: later steps do not touch the allocation. -/
theorem perform_room {operation : ArrayOperation} {output : List Byte} (sized : Sized self)
    (asserted : self.Asserted operation) (counted : self.Counted operation)
    (run : self.perform null operation = .ok (self', output)) :
    ∃ array, allocate null self operation = .ok array ∧ SameBlock array self' ∧
      self'.size.toNat ≤ array.capacity.toNat := by
  have alone (same : SameBlock self self') (room : self'.size.toNat ≤ self.capacity.toNat) :
      ∃ array, (.ok self : Except ArrayFault ArrayT) = .ok array ∧ SameBlock array self' ∧
        self'.size.toNat ≤ array.capacity.toNat := ⟨self, rfl, same, room⟩
  cases operation with
  | init itemSize =>
    obtain ⟨array, started, rfl⟩ := Stateful.result_of_bind run
    refine ⟨array, started, ⟨rfl, rfl, rfl⟩, ?_⟩
    obtain ⟨_, _, made⟩ := Stateful.ok_of_bind started
    obtain rfl := Except.ok.inj made
    exact Nat.le_refl _
  | reserve capacity =>
    obtain ⟨rfl, _⟩ := Prod.mk.inj (Except.ok.inj run)
    exact ⟨_, rfl, ⟨rfl, rfl, rfl⟩, (arrayReserve_room sized).size⟩
  | resize items =>
    obtain ⟨rfl, _⟩ := Prod.mk.inj (Except.ok.inj run)
    exact ⟨_, rfl, ⟨rfl, rfl, rfl⟩, (arrayResize_room sized).size⟩
  | shrink =>
    obtain ⟨rfl, _⟩ := Prod.mk.inj (Except.ok.inj run)
    exact ⟨_, rfl, ⟨rfl, rfl, rfl⟩, (arrayShrink_room sized).size⟩
  | get index =>
    obtain ⟨_, _, run⟩ := Stateful.ok_of_bind run
    obtain ⟨_, _, rfl⟩ := Stateful.result_of_bind run
    exact alone ⟨rfl, rfl, rfl⟩ sized.size
  | getMany index n =>
    obtain ⟨_, _, rfl⟩ := Stateful.result_of_bind run
    exact alone ⟨rfl, rfl, rfl⟩ sized.size
  | set index item =>
    obtain ⟨_, set, rfl⟩ := Stateful.result_of_bind run
    obtain ⟨same, size⟩ := sameBlock_set set
    exact alone same (size ▸ sized.size)
  | setMany index items n =>
    obtain ⟨_, set, rfl⟩ := Stateful.result_of_bind run
    obtain ⟨same, size⟩ := sameBlock_setMany set
    exact alone same (size ▸ sized.size)
  | insert index item =>
    obtain ⟨⟨_, pointer⟩, inserted, run⟩ := Stateful.ok_of_bind run
    obtain ⟨_, _, rfl⟩ := Stateful.result_of_bind run
    exact arrayInsert_room sized counted inserted
  | insertMany index items n =>
    obtain ⟨⟨_, pointer⟩, inserted, run⟩ := Stateful.ok_of_bind run
    obtain ⟨_, _, rfl⟩ := Stateful.result_of_bind run
    exact arrayInsertMany_room sized counted inserted
  | erase index =>
    obtain ⟨_, erased, rfl⟩ := Stateful.result_of_bind run
    obtain ⟨same, room⟩ := arrayErase_room sized asserted erased
    exact alone same room
  | eraseRange first last =>
    obtain ⟨_, erased, rfl⟩ := Stateful.result_of_bind run
    obtain ⟨same, room⟩ := arrayEraseRange_room sized asserted.1 asserted.2 erased
    exact alone same room
  | add item =>
    obtain ⟨⟨_, pointer⟩, inserted, run⟩ := Stateful.ok_of_bind run
    obtain ⟨_, _, rfl⟩ := Stateful.result_of_bind run
    exact arrayInsert_room sized counted inserted
  | addMany items n =>
    obtain ⟨⟨_, pointer⟩, inserted, run⟩ := Stateful.ok_of_bind run
    obtain ⟨_, _, rfl⟩ := Stateful.result_of_bind run
    exact arrayInsertMany_room sized counted inserted
  | remove =>
    obtain ⟨_, removed, rfl⟩ := Stateful.result_of_bind run
    obtain ⟨_, _, made⟩ := Stateful.ok_of_bind removed
    obtain rfl := Except.ok.inj made
    have some : 0 < self.size.toNat := asserted
    have one : (1 : BitVec 32) ≤ self.size := BitVec.le_def.mpr some
    have held := sized.size
    refine alone (sameBlock_size _) ?_
    rw [BitVec.toNat_sub_of_le one]
    omega
  | removeMany n =>
    obtain ⟨_, removed, rfl⟩ := Stateful.result_of_bind run
    obtain ⟨_, _, made⟩ := Stateful.ok_of_bind removed
    obtain rfl := Except.ok.inj made
    have held := sized.size
    refine alone (sameBlock_size _) ?_
    rw [BitVec.toNat_sub_of_le asserted]
    omega
  | clear =>
    obtain ⟨rfl, _⟩ := Prod.mk.inj (Except.ok.inj run)
    exact alone (sameBlock_size _) (Nat.zero_le _)

/-- What is allocated has the bytes that were asked for. -/
theorem allocate_block {operation : ArrayOperation} (sized : Sized self) (counted : self.Counted operation)
    (run : allocate null self operation = .ok array) :
    array.block.length = (array.capacity * array.itemSize).toNat ∧ 0 < array.itemSize.toNat := by
  have sizes (sized : Sized array) : array.block.length = (array.capacity * array.itemSize).toNat ∧
    0 < array.itemSize.toNat := ⟨sized.block, sized.positive⟩
  cases operation with
  | init itemSize =>
    obtain ⟨_, known, made⟩ := Stateful.ok_of_bind run
    obtain rfl := Except.ok.inj made
    unfold assert at known
    split at known
    · rename_i positive
      refine ⟨?_, of_decide_eq_true positive⟩
      simp [ArrayT.block]
    · cases known
  | reserve n =>
    obtain rfl := Except.ok.inj run
    exact sizes (arrayReserve_room sized)
  | resize n =>
    obtain rfl := Except.ok.inj run
    exact sizes (arrayResize_room sized)
  | shrink =>
    obtain rfl := Except.ok.inj run
    exact sizes (arrayShrink_room sized)
  | insert index item =>
    have few : self.size.toNat + (1 : BitVec 32).toNat < 2 ^ 32 := counted
    exact sizes (arrayGrow_sized sized few run).1
  | add item =>
    have few : self.size.toNat + (1 : BitVec 32).toNat < 2 ^ 32 := counted
    exact sizes (arrayGrow_sized sized few run).1
  | insertMany index items n => exact sizes (arrayGrow_sized sized counted run).1
  | addMany items n => exact sizes (arrayGrow_sized sized counted run).1
  | _ =>
    obtain rfl := Except.ok.inj run
    exact sizes sized

end Kept

end ArrayT

/-! ### Sequences of operations -/

/-- The assertions hold, and the items are counted by an `unsigned`. -/
def CountedRun : List (Bool × ArrayOperation) → ArrayT → Prop
  | [], _ => True
  | (null, operation) :: steps, self =>
    (self.Asserted operation ∧ self.Counted operation) ∧
      match self.perform null operation with
      | .ok (self', _) => CountedRun steps self'
      | .error _ => True

/-- Growing ends, and every allocation is large enough for its capacity. -/
def AllocatedRun : List (Bool × ArrayOperation) → ArrayT → Prop
  | [], self => self.Allocated
  | (null, operation) :: steps, self =>
    self.Allocated ∧ (∃ self', ArrayT.allocate null self operation = .ok self' ∧ self'.Allocated) ∧
      match self.perform null operation with
      | .ok (self', _) => AllocatedRun steps self'
      | .error _ => True

/-- The bytes that each operation asks for fit. -/
def BytesFitRun : List (Bool × ArrayOperation) → ArrayT → Prop
  | [], _ => True
  | (null, operation) :: steps, self =>
    self.BytesFit operation ∧
      match self.perform null operation with
      | .ok (self', _) => BytesFitRun steps self'
      | .error _ => True

theorem allocatedRun_iff {steps : List (Bool × ArrayOperation)} {self : ArrayT} (sized : self.Sized)
    (allocated : self.Allocated) (counted : CountedRun steps self) :
    AllocatedRun steps self ↔ BytesFitRun steps self := by
  induction steps generalizing self with
  | nil => exact iff_of_true allocated trivial
  | cons step steps ih =>
    obtain ⟨null, operation⟩ := step
    obtain ⟨⟨asserted, few⟩, later⟩ := counted
    have here := ArrayT.allocate_iff null sized allocated asserted few
    unfold AllocatedRun BytesFitRun
    rw [here, and_iff_right allocated]
    refine and_congr_right ?_
    intro fits
    cases run : self.perform null operation with
    | error e => exact Iff.rfl
    | ok result =>
      obtain ⟨self', output⟩ := result
      rw [run] at later
      obtain ⟨array, made, same, room⟩ := ArrayT.perform_room sized asserted few run
      obtain ⟨array', made', large⟩ := here.mpr fits
      obtain rfl := Except.ok.inj (made.symm.trans made')
      obtain ⟨block, positive⟩ := ArrayT.allocate_block sized few made
      refine ih ⟨?_, ?_, ?_⟩ (same.allocated large) later
      · rw [same.capacity]
        exact room
      · rw [same.length, same.capacity, same.itemSize, block]
      · rw [same.itemSize]
        exact positive

/-- From an initial array on, growing ends and no index below the capacity leaves the allocation,
just as long as the bytes of each operation fit. -/
theorem allocation_exact_iff {itemSize : BitVec 32} {self : ArrayT} (started : arrayInit itemSize = .ok self)
    (steps : List (Bool × ArrayOperation)) (counted : CountedRun steps self) :
    AllocatedRun steps self ↔ BytesFitRun steps self := by
  have stores := arrayInit_stores started
  have none : self.capacity.toNat = 0 := stores.capacity
  refine allocatedRun_iff ⟨?_, ?_, stores.positive⟩ ?_ counted
  · rw [stores.size]
    exact Nat.zero_le _
  · rw [stores.block, BitVec.toNat_mul, none, Nat.zero_mul]
    rfl
  · unfold ArrayT.Allocated
    rw [none, Nat.zero_mul]
    exact Nat.zero_le _

/-- Three items of eight bytes: the capacity goes from 1 to 2 and 4. -/
theorem allocation_exact_three :
    let steps : List (Bool × ArrayOperation) := [(true, .add none), (true, .add none), (true, .insert 0 none)]
    CountedRun steps ⟨0, 0, 8, none⟩ ∧ AllocatedRun steps ⟨0, 0, 8, none⟩ := by
  intro steps
  have counted : CountedRun steps ⟨0, 0, 8, none⟩ := by
    exact ⟨⟨trivial, Nat.le_of_ble_eq_true rfl⟩, ⟨trivial, Nat.le_of_ble_eq_true rfl⟩,
      ⟨Nat.zero_le _, Nat.le_of_ble_eq_true rfl⟩, trivial⟩
  refine ⟨counted, (allocation_exact_iff (rfl : arrayInit 8 = _) steps counted).mpr ?_⟩
  exact ⟨.inr (.inl ⟨0, Nat.le_of_ble_eq_true rfl, Nat.le_of_ble_eq_true rfl⟩),
    .inr (.inl ⟨1, Nat.le_of_ble_eq_true rfl, Nat.le_of_ble_eq_true rfl⟩),
    .inr (.inl ⟨1, Nat.le_of_ble_eq_true rfl, Nat.le_of_ble_eq_true rfl⟩), trivial⟩

/-- Two items of 2^31 bytes get no bytes at all, and the room for 2^31 + 1 items is looked for
without end. -/
theorem allocation_wraps_around :
    (arrayInit 0x80000000 = .ok ⟨0, 0, 0x80000000, none⟩ ∧ CountedRun [(true, .reserve 2)] ⟨0, 0, 0x80000000, none⟩ ∧
      ¬AllocatedRun [(true, .reserve 2)] ⟨0, 0, 0x80000000, none⟩) ∧
    arrayInit 1 = .ok ⟨0, 0, 1, none⟩ ∧ CountedRun [(true, .insertMany 0 none 0x80000001)] ⟨0, 0, 1, none⟩ ∧
      arrayGrow true ⟨0, 0, 1, none⟩ 0x80000001 = .error .diverges ∧
      ¬AllocatedRun [(true, .insertMany 0 none 0x80000001)] ⟨0, 0, 1, none⟩ := by
  have endless : arrayGrow true ⟨0, 0, 1, none⟩ 0x80000001 = .error .diverges := by decide
  refine ⟨⟨rfl, ⟨⟨trivial, trivial⟩, trivial⟩, ?_⟩, rfl, ⟨⟨Nat.zero_le _, Nat.le_of_ble_eq_true rfl⟩, ?_⟩, endless, ?_⟩
  · rintro ⟨_, ⟨self', run, large⟩, _⟩
    obtain rfl := Except.ok.inj run
    exact absurd large (by unfold ArrayT.Allocated; decide)
  · trivial
  · rintro ⟨_, ⟨self', run, _⟩, _⟩
    cases endless.symm.trans run

end Low
