import LowCompiler.Containers.Array
import Mathlib.Algebra.Group.Nat.Defs

/-!
# Arrays refine lists

The abstract array is a list of items. `Stores` splits the memory behind an array into
the items it holds and the spare ones, and each operation is a change of these two lists.
-/

namespace Low

abbrev Item := List Byte

/-- A call of one of the functions, with the items that its pointers lead to. -/
inductive ArrayOperation where
  | init (itemSize : BitVec 32)
  | reserve (capacity : BitVec 32)
  | resize (items : BitVec 32)
  | shrink
  | get (index : BitVec 32)
  | getMany (index numItems : BitVec 32)
  | set (index : BitVec 32) (item : Item)
  | setMany (index : BitVec 32) (items : List Item) (numItems : BitVec 32)
  | insert (index : BitVec 32) (item : Option Item)
  | insertMany (index : BitVec 32) (items : Option (List Item)) (numItems : BitVec 32)
  | erase (index : BitVec 32)
  | eraseRange (first last : BitVec 32)
  | add (item : Option Item)
  | addMany (items : Option (List Item)) (numItems : BitVec 32)
  | remove
  | removeMany (numItems : BitVec 32)
  | clear
  deriving DecidableEq, Repr

namespace ArrayT

/-- What the caller finds behind a pointer to items. -/
def behind (self : ArrayT) (pointer bytes : BitVec 32) : Except ArrayFault (List Byte) :=
  defined (Blocks.read self.block pointer.toNat bytes.toNat)

/-- Runs an operation. What is returned is what it copies out, or what is behind the pointer it returns. -/
def perform (null : Bool) (self : ArrayT) : ArrayOperation → Except ArrayFault (ArrayT × List Byte)
  | .init itemSize => do return (← arrayInit itemSize, [])
  | .reserve capacity => return (arrayReserve null self capacity, [])
  | .resize items => return (arrayResize null self items, [])
  | .shrink => return (arrayShrink null self, [])
  | .get index => do
    let pointer ← arrayGet self index
    return (self, ← self.behind pointer self.itemSize)
  | .getMany index numItems => do return (self, ← arrayGetMany self index numItems)
  | .set index item => do return (← arraySet self index item, [])
  | .setMany index items numItems => do return (← arraySetMany self index items.flatten numItems, [])
  | .insert index item => do
    let (self, pointer) ← arrayInsert null self index item
    return (self, ← self.behind pointer self.itemSize)
  | .insertMany index items numItems => do
    let (self, pointer) ← arrayInsertMany null self index (items.map List.flatten) numItems
    return (self, ← self.behind pointer (numItems * self.itemSize))
  | .erase index => do return (← arrayErase self index, [])
  | .eraseRange first last => do return (← arrayEraseRange self first last, [])
  | .add item => do
    let (self, pointer) ← arrayAdd null self item
    return (self, ← self.behind pointer self.itemSize)
  | .addMany items numItems => do
    let (self, pointer) ← arrayAddMany null self (items.map List.flatten) numItems
    return (self, ← self.behind pointer (numItems * self.itemSize))
  | .remove => do return (← arrayRemove self, [])
  | .removeMany numItems => do return (← arrayRemoveMany self numItems, [])
  | .clear => return (arrayClear self, [])

/-- The assertions of an operation, as they are evaluated. -/
def Asserted (self : ArrayT) : ArrayOperation → Prop
  | .init itemSize => 0 < itemSize
  | .get index | .set index _ | .erase index => index < self.size
  | .getMany index numItems => index < self.size ∧ index + numItems ≤ self.size
  | .setMany index _ numItems => index + numItems ≤ self.size
  | .insert index _ | .insertMany index _ _ => index ≤ self.size
  | .eraseRange first last => first ≤ last ∧ last ≤ self.size
  | .remove => 0 < self.size
  | .removeMany numItems => numItems ≤ self.size
  | .reserve _ | .resize _ | .shrink | .add _ | .addMany _ _ | .clear => True

/-- Sizes and reserved capacities come to at most 2^30 bytes. -/
def Bounded (self : ArrayT) : ArrayOperation → Prop
  | .reserve items | .resize items => items.toNat * self.itemSize.toNat ≤ 2 ^ 30
  | .insert _ _ | .add _ => (self.size.toNat + 1) * self.itemSize.toNat ≤ 2 ^ 30
  | .insertMany _ _ numItems | .addMany _ numItems =>
    (self.size.toNat + numItems.toNat) * self.itemSize.toNat ≤ 2 ^ 30
  | _ => True

/-- The pointers of the caller lead to as many items as the operation reads. -/
def Provided (self : ArrayT) : ArrayOperation → Prop
  | .set _ item | .insert _ (some item) | .add (some item) => item.length = self.itemSize.toNat
  | .setMany _ items numItems | .insertMany _ (some items) numItems | .addMany (some items) numItems =>
    items.length = numItems.toNat ∧ Blocks.Uniform self.itemSize.toNat items
  | _ => True

structure Permitted (array : ArrayT) (operation : ArrayOperation) : Prop where
  asserted : array.Asserted operation
  bounded : array.Bounded operation
  provided : array.Provided operation

end ArrayT

/-- The end of the range of items is no more than an `unsigned` holds. -/
def ArrayOperation.Unwrapped : ArrayOperation → Prop
  | .getMany index numItems | .setMany index _ numItems => index.toNat + numItems.toNat < 2 ^ 32
  | _ => True

/-- What an operation does to a list of items, and what it returns. Items that nothing is given for
are any. -/
def ListStep (items : List Item) : ArrayOperation → List Byte → List Item → Prop
  | .init _, _, items' | .clear, _, items' => items' = []
  | .reserve _, _, items' | .shrink, _, items' => items' = items
  | .resize n, _, items' => ∃ added, items' = items.take n.toNat ++ added ∧ items'.length = n.toNat
  | .get index, returned, items' => items' = items ∧ items[index.toNat]? = some returned
  | .getMany index numItems, returned, items' =>
    items' = items ∧ returned = ((items.drop index.toNat).take numItems.toNat).flatten
  | .set index item, _, items' => items' = items.set index.toNat item
  | .setMany index given numItems, _, items' =>
    items' = items.take index.toNat ++ given ++ items.drop (index.toNat + numItems.toNat)
  | .insert index given, returned, items' =>
    items' = items.take index.toNat ++ [returned] ++ items.drop index.toNat ∧ ∀ item, given = some item → returned = item
  | .insertMany index given numItems, returned, items' =>
    ∃ added, items' = items.take index.toNat ++ added ++ items.drop index.toNat ∧ added.length = numItems.toNat ∧
      returned = added.flatten ∧ ∀ given', given = some given' → added = given'
  | .erase index, _, items' => items' = items.eraseIdx index.toNat
  | .eraseRange first last, _, items' => items' = items.take first.toNat ++ items.drop last.toNat
  | .add given, returned, items' =>
    items' = items ++ [returned] ∧ ∀ item, given = some item → returned = item
  | .addMany given numItems, returned, items' =>
    ∃ added, items' = items ++ added ∧ added.length = numItems.toNat ∧
      returned = added.flatten ∧ ∀ given', given = some given' → added = given'
  | .remove, _, items' => items' = items.dropLast
  | .removeMany numItems, _, items' => items' = items.take (items.length - numItems.toNat)

/-! ### The items in memory -/

namespace ArrayT

/-- The first items in memory are these. -/
structure Refines (array : ArrayT) (items : List Item) : Prop where
  size : array.size.toNat = items.length
  fits : array.size ≤ array.capacity
  uniform : Blocks.Uniform array.itemSize.toNat items
  bytes : array.block.take (array.size.toNat * array.itemSize.toNat) = items.flatten
  allocated : array.block.length = array.capacity.toNat * array.itemSize.toNat

structure Stores (array : ArrayT) (items spare : List Item) : Prop where
  size : array.size.toNat = items.length
  capacity : array.capacity.toNat = (items ++ spare).length
  uniform : Blocks.Uniform array.itemSize.toNat (items ++ spare)
  block : array.block = (items ++ spare).flatten
  positive : 0 < array.itemSize.toNat
  limit : array.capacity.toNat * array.itemSize.toNat < 2 ^ 31

variable (null : Bool) {self : ArrayT} {items items' spare spare' : List Item}

theorem Stores.refines (stores : Stores self items spare) : Refines self items where
  size := stores.size
  fits := by
    rw [BitVec.le_def, stores.size, stores.capacity, List.length_append]
    exact Nat.le_add_right _ _
  uniform := (Blocks.uniform_append.mp stores.uniform).1
  bytes := by
    rw [stores.block, stores.size, Blocks.take_flatten stores.uniform, List.take_left]
  allocated := by rw [stores.block, Blocks.length_flatten stores.uniform, stores.capacity]

theorem Stores.le (stores : Stores self items spare) : items.length ≤ self.capacity.toNat := by
  rw [stores.capacity, List.length_append]
  exact Nat.le_add_right _ _

theorem toNat_mul {a b : BitVec 32} (small : a.toNat * b.toNat < 2 ^ 32) :
    (a * b).toNat = a.toNat * b.toNat := by
  rw [BitVec.toNat_mul, Nat.mod_eq_of_lt small]

/-- The arithmetic of offsets is exact up to the capacity. -/
theorem Stores.offset (stores : Stores self items spare) {n : BitVec 32}
    (inside : n.toNat ≤ self.capacity.toNat) :
    (n * self.itemSize).toNat = n.toNat * self.itemSize.toNat := by
  have bound := Nat.mul_le_mul_right self.itemSize.toNat inside
  have limit := stores.limit
  exact toNat_mul (by omega)

theorem block_setBlock {block : List Byte} (length : block.length = self.block.length) :
    (self.setBlock block).block = block := by
  cases present : self.items with
  | some old => simp [ArrayT.block, setBlock, present]
  | none =>
    have empty : block = [] := List.length_eq_zero_iff.mp (by rw [length]; simp [ArrayT.block, present])
    simp [ArrayT.block, setBlock, present, empty]

theorem Stores.update (stores : Stores self items spare) (size : BitVec 32) (count : size.toNat = items'.length)
    (length : (items' ++ spare').length = (items ++ spare).length)
    (uniform : Blocks.Uniform self.itemSize.toNat (items' ++ spare')) :
    Stores { self.setBlock (items' ++ spare').flatten with size } items' spare' where
  size := count
  capacity := by rw [length]; exact stores.capacity
  uniform := uniform
  block := by
    refine block_setBlock ?_
    rw [stores.block, Blocks.length_flatten uniform, Blocks.length_flatten stores.uniform, length]
  positive := stores.positive
  limit := stores.limit

theorem Stores.cut (stores : Stores self items spare) (size : BitVec 32) (count : size.toNat = items'.length)
    (same : items' ++ spare' = items ++ spare) : Stores { self with size } items' spare' where
  size := count
  capacity := by rw [same]; exact stores.capacity
  uniform := by rw [same]; exact stores.uniform
  block := by rw [same]; exact stores.block
  positive := stores.positive
  limit := stores.limit

/-! ### More memory -/

@[simp] theorem size_reallocate (capacity : BitVec 32) :
    (arrayReallocate null self capacity).size = self.size := rfl

@[simp] theorem itemSize_reallocate (capacity : BitVec 32) :
    (arrayReallocate null self capacity).itemSize = self.itemSize := rfl

@[simp] theorem capacity_reallocate (capacity : BitVec 32) :
    (arrayReallocate null self capacity).capacity = capacity := rfl

theorem block_realloc (block : List Byte) (bytes : Nat) :
    (realloc null block bytes).getD [] = block.take bytes ++ List.replicate (bytes - block.length) none := by
  unfold realloc
  split
  · rename_i empty
    simp [empty.1]
  · rfl

theorem block_reallocate (capacity : BitVec 32) :
    (arrayReallocate null self capacity).block = self.block.take (capacity * self.itemSize).toNat ++
      List.replicate ((capacity * self.itemSize).toNat - self.block.length) none := by
  have behind : (arrayReallocate null self capacity).block = (realloc null self.block (capacity * self.itemSize).toNat).getD [] := by
    cases present : self.items <;> simp [arrayReallocate, ArrayT.block, malloc, present]
  rw [behind, block_realloc]

theorem Stores.reallocate (stores : Stores self items spare) (capacity : BitVec 32) (enough : items.length ≤ capacity.toNat)
    (limit : capacity.toNat * self.itemSize.toNat < 2 ^ 31) :
    ∃ spare', Stores (arrayReallocate null self capacity) items spare' := by
  have uniform := (Blocks.uniform_append.mp stores.uniform).1
  have bytes : (capacity * self.itemSize).toNat = capacity.toNat * self.itemSize.toNat := toNat_mul (by omega)
  have held := Nat.mul_le_mul_right self.itemSize.toNat enough
  have all : self.block = items.flatten ++ spare.flatten := by rw [stores.block, List.flatten_append]
  have first : items.flatten.length = items.length * self.itemSize.toNat := Blocks.length_flatten uniform
  have behind : (arrayReallocate null self capacity).block = items.flatten ++
      (spare.flatten.take (capacity.toNat * self.itemSize.toNat - items.flatten.length) ++
        List.replicate (capacity.toNat * self.itemSize.toNat - self.block.length) none) := by
    rw [block_reallocate, bytes, all, List.take_append, List.take_of_length_le (by omega), List.append_assoc]
  obtain ⟨spare', count, uniform', cells⟩ := Blocks.exists_items (k := self.itemSize.toNat) (capacity.toNat - items.length)
    (spare.flatten.take (capacity.toNat * self.itemSize.toNat - items.flatten.length) ++
      List.replicate (capacity.toNat * self.itemSize.toNat - self.block.length) none)
    (by
      rw [List.length_append, List.length_take, List.length_replicate, all, List.length_append, first, Nat.sub_mul]
      omega)
  refine ⟨spare', ?_⟩
  exact {
    size := stores.size
    capacity := by rw [capacity_reallocate, List.length_append, count]; omega
    uniform := Blocks.uniform_append.mpr ⟨uniform, uniform'⟩
    block := by rw [behind, List.flatten_append, cells]
    positive := stores.positive
    limit := limit }

/-- Doubling a capacity ends below twice of what is required. -/
theorem doubled_ok (req : BitVec 32) (small : req.toNat ≤ 2 ^ 30) (rounds : Nat) (cap : BitVec 32)
    (reached : req.toNat ≤ cap.toNat * 2 ^ rounds) (below : cap.toNat < 2 * req.toNat) :
    ∃ cap', doubled req (rounds + 1) cap = some cap' ∧ req.toNat ≤ cap'.toNat ∧ cap'.toNat < 2 * req.toNat := by
  induction rounds generalizing cap with
  | zero =>
    have stop : ¬cap < req := by
      rw [BitVec.lt_def]
      omega
    exact ⟨cap, by rw [doubled, if_neg stop], by omega, below⟩
  | succ rounds ih =>
    by_cases less : cap < req
    · rw [doubled, if_pos less]
      rw [BitVec.lt_def] at less
      have twice : (cap * 2).toNat = cap.toNat * 2 := by
        rw [BitVec.toNat_mul]
        exact Nat.mod_eq_of_lt (by simp; omega)
      refine ih (cap * 2) ?_ (by omega)
      rw [twice, Nat.mul_assoc, ← Nat.pow_succ']
      exact reached
    · refine ⟨cap, by rw [doubled, if_neg less], ?_, below⟩
      rw [BitVec.lt_def] at less
      omega

theorem Stores.grow (stores : Stores self items spare) (additional : BitVec 32)
    (bounded : (items.length + additional.toNat) * self.itemSize.toNat ≤ 2 ^ 30) :
    ∃ self' spare', arrayGrow null self additional = .ok self' ∧ Stores self' items spare' ∧
      items.length + additional.toNat ≤ self'.capacity.toNat ∧ self'.size = self.size ∧
      self'.itemSize = self.itemSize := by
  have positive := stores.positive
  have small : items.length + additional.toNat ≤ 2 ^ 30 := Nat.le_trans (Nat.le_mul_of_pos_right _ positive) bounded
  have required : (self.size + additional).toNat = items.length + additional.toNat := by
    rw [BitVec.toNat_add, stores.size]
    exact Nat.mod_eq_of_lt (by omega)
  rw [arrayGrow]
  by_cases less : self.capacity < self.size + additional
  · rw [if_pos less]
    rw [BitVec.lt_def, required] at less
    have start : 0 < (if self.capacity = 0 then 1 else self.capacity).toNat ∧
        (if self.capacity = 0 then 1 else self.capacity).toNat ≤ items.length + additional.toNat := by
      split
      · rename_i none
        have zero : self.capacity.toNat = 0 := by rw [none]; rfl
        have one : (1 : BitVec 32).toNat = 1 := rfl
        omega
      · rename_i some
        have : self.capacity.toNat ≠ 0 := fun zero => some (BitVec.eq_of_toNat_eq (by simpa using zero))
        omega
    obtain ⟨cap, doubles, enough, below⟩ := doubled_ok (self.size + additional) (by omega) 32
      (if self.capacity = 0 then 1 else self.capacity) (by omega) (by omega)
    simp only [doubles]
    rw [required] at enough below
    have limit : cap.toNat * self.itemSize.toNat < 2 ^ 31 := by
      have bytes := Nat.mul_lt_mul_of_pos_right below positive
      rw [Nat.mul_assoc] at bytes
      omega
    obtain ⟨spare', stores'⟩ := stores.reallocate null cap (by omega) limit
    exact ⟨_, spare', rfl, stores', enough, rfl, rfl⟩
  · rw [if_neg less]
    rw [BitVec.lt_def, required] at less
    exact ⟨self, spare, rfl, stores, by omega, rfl, rfl⟩

/-! ### One operation -/

theorem assert_ok {cond : Bool} (holds : cond = true) : assert cond = .ok () := by rw [assert, if_pos holds]

theorem Stores.read (stores : Stores self items spare) (index n : BitVec 32)
    (inside : index.toNat + n.toNat ≤ items.length) :
    Blocks.read self.block (index * self.itemSize).toNat (n * self.itemSize).toNat =
      some ((items.drop index.toNat).take n.toNat).flatten := by
  have enough := stores.le
  have all := stores.capacity
  rw [stores.offset (by omega), stores.offset (by omega), stores.block,
    Blocks.read_items stores.uniform (by omega), List.drop_append_of_le_length (by omega),
    List.take_append_of_le_length (by rw [List.length_drop]; omega)]

theorem Stores.write (stores : Stores self items spare) (index n : BitVec 32) {given : List Item}
    (inside : index.toNat + n.toNat ≤ items.length) (count : given.length = n.toNat)
    (uniform : Blocks.Uniform self.itemSize.toNat given) :
    ∃ block, Blocks.write self.block (index * self.itemSize).toNat given.flatten = some block ∧
      Stores (self.setBlock block) (items.take index.toNat ++ given ++ items.drop (index.toNat + n.toNat)) spare := by
  have enough := stores.le
  have all := stores.capacity
  have split : (items ++ spare).take index.toNat ++ given ++ (items ++ spare).drop (index.toNat + given.length) =
      items.take index.toNat ++ given ++ items.drop (index.toNat + n.toNat) ++ spare := by
    rw [List.take_append_of_le_length (by omega), List.drop_append_of_le_length (by omega), count, List.append_assoc,
      List.append_assoc, List.append_assoc]
  refine ⟨_, ?_, stores.update self.size ?_ ?_ ?_⟩
  · rw [stores.offset (by omega), stores.block, Blocks.write_items stores.uniform uniform (by omega), split]
  · rw [stores.size]
    simp only [List.length_append, List.length_take, List.length_drop]
    omega
  · simp only [List.length_append, List.length_take, List.length_drop]
    omega
  · obtain ⟨held, behind⟩ := Blocks.uniform_append.mp stores.uniform
    exact Blocks.uniform_append.mpr ⟨Blocks.uniform_append.mpr
      ⟨Blocks.uniform_append.mpr ⟨held.take _, uniform⟩, held.drop _⟩, behind⟩

theorem fromBuffer_ok {buffer : List Byte} {bytes : BitVec 32} (length : buffer.length = bytes.toNat) :
    fromBuffer buffer bytes = .ok buffer := by
  rw [fromBuffer, Blocks.read, if_pos (by omega), List.drop_zero, List.take_of_length_le (by omega)]
  rfl

theorem Stores.setMany (stores : Stores self items spare) (index n : BitVec 32) {given : List Item}
    (inside : index.toNat + n.toNat ≤ items.length) (count : given.length = n.toNat)
    (uniform : Blocks.Uniform self.itemSize.toNat given) :
    ∃ self', arraySetMany self index given.flatten n = .ok self' ∧ self'.itemSize = self.itemSize ∧
      Stores self' (items.take index.toNat ++ given ++ items.drop (index.toNat + n.toNat)) spare := by
  have enough := stores.le
  have size := stores.size
  have range : index + n ≤ self.size := by
    rw [BitVec.le_def, BitVec.toNat_add, size]
    exact Nat.le_trans (Nat.mod_le _ _) inside
  have buffer : given.flatten.length = (n * self.itemSize).toNat := by
    rw [Blocks.length_flatten uniform, count, stores.offset (by omega)]
  obtain ⟨block, written, stores'⟩ := stores.write index n inside count uniform
  refine ⟨self.setBlock block, ?_, rfl, stores'⟩
  rw [arraySetMany, assert_ok (decide_eq_true range), fromBuffer_ok buffer]
  simp only [bind, Except.bind, written]
  rfl

theorem Stores.set (stores : Stores self items spare) (index : BitVec 32) {item : Item}
    (inside : index.toNat < items.length) (length : item.length = self.itemSize.toNat) :
    ∃ self', arraySet self index item = .ok self' ∧ self'.itemSize = self.itemSize ∧
      Stores self' (items.take index.toNat ++ [item] ++ items.drop (index.toNat + 1)) spare := by
  have range : index < self.size := by
    rw [BitVec.lt_def, stores.size]
    exact inside
  obtain ⟨block, written, stores'⟩ := stores.write index 1 inside (List.length_singleton (a := item))
    (Blocks.uniform_cons.mpr ⟨length, Blocks.uniform_nil⟩)
  refine ⟨self.setBlock block, ?_, rfl, stores'⟩
  rw [List.flatten_singleton] at written
  rw [arraySet, assert_ok (decide_eq_true range), fromBuffer_ok length]
  simp only [bind, Except.bind, written]
  rfl

theorem Stores.moveTail (stores : Stores self items spare) (source target : BitVec 32)
    (inside : source.toNat ≤ items.length)
    (inside' : target.toNat + (items.length - source.toNat) ≤ self.capacity.toNat) :
    arrayMoveTail self source target = .ok (self.setBlock ((items ++ spare).take target.toNat ++
      items.drop source.toNat ++ (items ++ spare).drop (target.toNat + (items.length - source.toNat))).flatten) := by
  have enough := stores.le
  have all := stores.capacity
  have tail : (self.size - source).toNat = items.length - source.toNat := by
    rw [BitVec.toNat_sub_of_le (by rw [BitVec.le_def, stores.size]; exact inside), stores.size]
  have held : ((items ++ spare).drop source.toNat).take (items.length - source.toNat) = items.drop source.toNat := by
    rw [List.drop_append_of_le_length inside, List.take_left' (List.length_drop ..)]
  rw [arrayMoveTail, stores.offset (by omega), stores.offset (by omega), stores.offset (by omega), tail, stores.block,
    Blocks.move_items stores.uniform (by rw [List.length_append]; omega) (by omega), held]
  rfl

/-- A gap is opened for new items: what is in it does not matter. -/
theorem Stores.open (stores : Stores self items spare) {index : BitVec 32} (n : BitVec 32) (inside : index.toNat ≤ items.length)
    (bounded : (items.length + n.toNat) * self.itemSize.toNat ≤ 2 ^ 30) :
    ∃ self₁ self₂ gap spare', arrayGrow null self n = .ok self₁ ∧
      (if index < self₁.size then arrayMoveTail self₁ index (index + n) else pure self₁) = .ok self₂ ∧
      gap.length = n.toNat ∧ self₂.itemSize = self.itemSize ∧ self₂.size = self.size ∧
      Stores { self₂ with size := self₂.size + n } (items.take index.toNat ++ gap ++ items.drop index.toNat) spare' := by
  obtain ⟨self₁, spare₁, grown, stores₁, enough, sameSize, sameItemSize⟩ := stores.grow null n bounded
  have small : items.length + n.toNat ≤ 2 ^ 30 :=
    Nat.le_trans (Nat.le_mul_of_pos_right _ stores.positive) bounded
  have size := stores₁.size
  have all := stores₁.capacity
  rw [List.length_append] at all
  have more : (self₁.size + n).toNat = items.length + n.toNat := by
    rw [BitVec.toNat_add, size]
    exact Nat.mod_eq_of_lt (by omega)
  have past : (index + n).toNat = index.toNat + n.toNat := by
    rw [BitVec.toNat_add]
    exact Nat.mod_eq_of_lt (by omega)
  obtain ⟨held, behind⟩ := Blocks.uniform_append.mp stores₁.uniform
  refine ⟨self₁, ?_⟩
  by_cases less : index < self₁.size
  · have moved := stores₁.moveTail index (index + n) inside (by omega)
    have gapped : (items ++ spare₁).take (index + n).toNat ++ items.drop index.toNat ++
          (items ++ spare₁).drop ((index + n).toNat + (items.length - index.toNat)) =
        items.take index.toNat ++ ((items ++ spare₁).drop index.toNat).take n.toNat ++ items.drop index.toNat ++
          spare₁.drop n.toNat := by
      have far : index.toNat + n.toNat + (items.length - index.toNat) = items.length + n.toNat := by omega
      rw [past, far, List.take_add, List.take_append_of_le_length inside, List.drop_length_add_append]
    rw [gapped] at moved
    refine ⟨self₁.setBlock _, ((items ++ spare₁).drop index.toNat).take n.toNat, spare₁.drop n.toNat, grown, ?_, ?_,
      sameItemSize, sameSize, stores₁.update (self₁.size + n) ?_ ?_ ?_⟩
    · rw [if_pos less]
      exact moved
    · rw [List.length_take, List.length_drop, List.length_append]
      omega
    · rw [more]
      simp only [List.length_append, List.length_take, List.length_drop]
      omega
    · simp only [List.length_append, List.length_take, List.length_drop]
      omega
    · exact Blocks.uniform_append.mpr ⟨Blocks.uniform_append.mpr ⟨Blocks.uniform_append.mpr
        ⟨held.take _, (stores₁.uniform.drop _).take _⟩, held.drop _⟩, behind.drop _⟩
  · have last : index.toNat = items.length := by
      rw [BitVec.lt_def, size] at less
      omega
    refine ⟨self₁, spare₁.take n.toNat, spare₁.drop n.toNat, grown, by rw [if_neg less]; rfl, ?_, sameItemSize, sameSize,
      stores₁.cut (self₁.size + n) ?_ ?_⟩
    · rw [List.length_take]
      omega
    · rw [more, last]
      simp only [List.length_append, List.length_take, List.length_drop]
      omega
    · rw [last, List.take_length, List.drop_length, List.append_nil, List.append_assoc, List.take_append_drop]

/-- What an insertion stores in the gap that it has opened, if anything. -/
def putGiven {Self Given : Type} (put : Self → Given → Except ArrayFault Self) (given : Option Given)
    (self : Self) :
    Except ArrayFault Self :=
  match given with
  | some given => put self given
  | none => pure self

theorem arrayInsert_eq (self : ArrayT) (index : BitVec 32) (item : Option Item) :
    arrayInsert null self index item = (do
    assert (index ≤ self.size)
    let self ← arrayGrow null self 1
    let self ← (if index < self.size then arrayMoveTail self index (index + 1) else pure self)
    let self := { self with size := self.size + 1 }
    let self ← putGiven (arraySet · index ·) item self
    return (self, index * self.itemSize)) := by
  cases item <;> rfl

theorem arrayInsertMany_eq (self : ArrayT) (index : BitVec 32) (items : Option Item) (n : BitVec 32) :
    arrayInsertMany null self index items n = (do
      assert (index ≤ self.size)
      let self ← arrayGrow null self n
      let self ← (if index < self.size then arrayMoveTail self index (index + n) else pure self)
      let self := { self with size := self.size + n }
      let self ← putGiven (arraySetMany · index · n) items self
      return (self, index * self.itemSize)) := by
  cases items <;> rfl

theorem Stores.insertMany (stores : Stores self items spare) {index n : BitVec 32} {given : Option (List Item)}
    (inside : index.toNat ≤ items.length) (bounded : (items.length + n.toNat) * self.itemSize.toNat ≤ 2 ^ 30)
    (provided : ∀ given', given = some given' → given'.length = n.toNat ∧ Blocks.Uniform self.itemSize.toNat given') :
    ∃ self' added spare', arrayInsertMany null self index (given.map List.flatten) n = .ok (self', index * self'.itemSize) ∧
      added.length = n.toNat ∧ (∀ given', given = some given' → added = given') ∧
      Stores self' (items.take index.toNat ++ added ++ items.drop index.toNat) spare' := by
  have range : index ≤ self.size := by
    rw [BitVec.le_def, stores.size]
    exact inside
  obtain ⟨self₁, self₂, gap, spare', grown, moved, count, sameItemSize, sameSize, opened⟩ :=
    stores.open null n inside bounded
  have start : arrayInsertMany null self index (given.map List.flatten) n = (do
      let self₃ ← putGiven (arraySetMany · index · n) (given.map List.flatten) { self₂ with size := self₂.size + n }
      return (self₃, index * self₃.itemSize)) := by
    rw [arrayInsertMany_eq, assert_ok (decide_eq_true range), grown]
    simp only [bind, Except.bind, moved]
  rw [start]
  cases given with
  | none => exact ⟨_, gap, spare', rfl, count, nofun, opened⟩
  | some given =>
    obtain ⟨length, uniform⟩ := provided given rfl
    have front : (items.take index.toNat).length = index.toNat := by
      rw [List.length_take]
      omega
    obtain ⟨self₃, written, sameItemSize₃, stores₃⟩ := opened.setMany index n
      (by simp only [List.length_append, List.length_take, List.length_drop]; omega) length
      (by rw [← sameItemSize] at uniform; exact uniform)
    refine ⟨self₃, given, spare', ?_, length, fun _ same => Option.some.inj same, ?_⟩
    · simp only [Option.map_some, putGiven, written]
      rfl
    · have placed : (items.take index.toNat ++ gap ++ items.drop index.toNat).take index.toNat ++ given ++
            (items.take index.toNat ++ gap ++ items.drop index.toNat).drop (index.toNat + n.toNat) =
          items.take index.toNat ++ given ++ items.drop index.toNat := by
        rw [← count, List.append_assoc (items.take index.toNat) gap, List.take_left' front, ← List.drop_drop,
          List.drop_left' front, List.drop_left]
      rw [placed] at stores₃
      exact stores₃

theorem Stores.insert (stores : Stores self items spare) {index : BitVec 32} {given : Option Item}
    (inside : index.toNat ≤ items.length) (bounded : (items.length + 1) * self.itemSize.toNat ≤ 2 ^ 30)
    (provided : ∀ item, given = some item → item.length = self.itemSize.toNat) :
    ∃ self' added spare', arrayInsert null self index given = .ok (self', index * self'.itemSize) ∧
      (∀ item, given = some item → added = item) ∧
      Stores self' (items.take index.toNat ++ [added] ++ items.drop index.toNat) spare' := by
  have range : index ≤ self.size := by
    rw [BitVec.le_def, stores.size]
    exact inside
  obtain ⟨self₁, self₂, gap, spare', grown, moved, count, sameItemSize, sameSize, opened⟩ :=
    stores.open null 1 inside bounded
  obtain ⟨hole, rfl⟩ := List.length_eq_one_iff.mp count
  have start : arrayInsert null self index given = (do
      let self₃ ← putGiven (arraySet · index ·) given { self₂ with size := self₂.size + 1 }
      return (self₃, index * self₃.itemSize)) := by
    rw [arrayInsert_eq, assert_ok (decide_eq_true range), grown]
    simp only [bind, Except.bind, moved]
  rw [start]
  cases given with
  | none => exact ⟨_, hole, spare', rfl, nofun, opened⟩
  | some item =>
    have front : (items.take index.toNat).length = index.toNat := by
      rw [List.length_take]
      omega
    obtain ⟨self₃, written, sameItemSize₃, stores₃⟩ := opened.set index
      (by simp only [List.length_append, List.length_take, List.length_drop, List.length_singleton]; omega)
      (by rw [provided item rfl, ← sameItemSize])
    refine ⟨self₃, item, spare', ?_, fun _ same => Option.some.inj same, ?_⟩
    · simp only [putGiven, written]
      rfl
    · have placed : (items.take index.toNat ++ [hole] ++ items.drop index.toNat).take index.toNat ++ [item] ++
            (items.take index.toNat ++ [hole] ++ items.drop index.toNat).drop (index.toNat + 1) =
          items.take index.toNat ++ [item] ++ items.drop index.toNat := by
        rw [List.append_assoc (items.take index.toNat) [hole], List.take_left' front, ← List.drop_drop,
          List.drop_left' front]
        rfl
      rw [placed] at stores₃
      exact stores₃

theorem Stores.close (stores : Stores self items spare) (first last size : BitVec 32) (order : first.toNat ≤ last.toNat)
    (inside : last.toNat ≤ items.length) (rest : size.toNat = items.length - (last.toNat - first.toNat)) :
    ∃ self₂ spare', (if last < self.size then arrayMoveTail self last first else pure self) = .ok self₂ ∧
      self₂.size = self.size ∧ Stores { self₂ with size } (items.take first.toNat ++ items.drop last.toNat) spare' := by
  have enough := stores.le
  have all := stores.capacity
  rw [List.length_append] at all
  obtain ⟨held, behind⟩ := Blocks.uniform_append.mp stores.uniform
  by_cases less : last < self.size
  · have moved := stores.moveTail last first inside (by omega)
    rw [List.take_append_of_le_length (by omega)] at moved
    refine ⟨self.setBlock _, (items ++ spare).drop (first.toNat + (items.length - last.toNat)), ?_, rfl,
      stores.update size ?_ ?_ ?_⟩
    · rw [if_pos less]
      exact moved
    · simp only [List.length_append, List.length_take, List.length_drop]
      omega
    · simp only [List.length_append, List.length_take, List.length_drop]
      omega
    · exact Blocks.uniform_append.mpr ⟨Blocks.uniform_append.mpr ⟨held.take _, held.drop _⟩, stores.uniform.drop _⟩
  · have end_ : last.toNat = items.length := by
      rw [BitVec.lt_def, stores.size] at less
      omega
    refine ⟨self, items.drop first.toNat ++ spare, by rw [if_neg less]; rfl, rfl, stores.cut size ?_ ?_⟩
    · rw [end_, List.drop_length, List.append_nil, List.length_take]
      omega
    · rw [end_, List.drop_length, List.append_nil, ← List.append_assoc, List.take_append_drop]

theorem Stores.resize (stores : Stores self items spare) (n : BitVec 32)
    (bounded : n.toNat * self.itemSize.toNat ≤ 2 ^ 30) :
    ∃ added spare', (items.take n.toNat ++ added).length = n.toNat ∧
      Stores (arrayResize null self n) (items.take n.toNat ++ added) spare' := by
  have reserved : ∃ self' spare', (if n > self.capacity then arrayReallocate null self n else self) = self' ∧
      Stores self' items spare' ∧ n.toNat ≤ self'.capacity.toNat := by
    by_cases more : n > self.capacity
    · have enough := stores.le
      have wanted : self.capacity.toNat < n.toNat := by
        rw [gt_iff_lt, BitVec.lt_def] at more
        exact more
      obtain ⟨spare', stores'⟩ := stores.reallocate null n (by omega) (by omega)
      exact ⟨_, spare', if_pos more, stores', Nat.le_refl _⟩
    · refine ⟨_, spare, if_neg more, stores, ?_⟩
      rw [gt_iff_lt, BitVec.lt_def] at more
      omega
  obtain ⟨self', spare', same, stores', enough⟩ := reserved
  have all := stores'.capacity
  rw [List.length_append] at all
  rw [arrayResize, same]
  by_cases less : n.toNat ≤ items.length
  · refine ⟨[], items.drop n.toNat ++ spare', by simp; omega, stores'.cut n (by simp; omega) ?_⟩
    rw [List.append_nil, ← List.append_assoc, List.take_append_drop]
  · have whole : items.take n.toNat = items := List.take_of_length_le (by omega)
    have added : (spare'.take (n.toNat - items.length)).length = n.toNat - items.length := by
      rw [List.length_take]
      omega
    refine ⟨spare'.take (n.toNat - items.length), spare'.drop (n.toNat - items.length), ?_, stores'.cut n ?_ ?_⟩
    · rw [whole, List.length_append, added]
      omega
    · rw [whole, List.length_append, added]
      omega
    · rw [whole, List.append_assoc, List.take_append_drop]

theorem Stores.below (stores : Stores self items spare) {index : BitVec 32} (inside : index < self.size) :
    index.toNat < items.length := by
  rw [← stores.size]
  exact inside

theorem Stores.upTo (stores : Stores self items spare) {index : BitVec 32} (inside : index ≤ self.size) :
    index.toNat ≤ items.length := by
  rw [← stores.size]
  exact inside

theorem Stores.range (stores : Stores self items spare) {index n : BitVec 32} (inside : index + n ≤ self.size)
    (unwrapped : index.toNat + n.toNat < 2 ^ 32) : index.toNat + n.toNat ≤ items.length := by
  have small : (index + n).toNat = index.toNat + n.toNat := by
    rw [BitVec.toNat_add]
    exact Nat.mod_eq_of_lt unwrapped
  rw [← small]
  exact stores.upTo inside

theorem Stores.behind (stores : Stores self items spare) {index : BitVec 32} {item : Item}
    (held : items[index.toNat]? = some item) :
    self.behind (index * self.itemSize) self.itemSize = .ok item := by
  obtain ⟨inside, rfl⟩ := List.getElem?_eq_some_iff.mp held
  have one : (1 : BitVec 32) * self.itemSize = self.itemSize := by bv_omega
  have read := stores.read index 1 inside
  rw [one, List.drop_eq_getElem_cons inside] at read
  rw [ArrayT.behind, read]
  exact congrArg Except.ok (List.append_nil _)

theorem Stores.behindMany (stores : Stores self items spare) (index n : BitVec 32)
    (inside : index.toNat + n.toNat ≤ items.length) :
    self.behind (index * self.itemSize) (n * self.itemSize) = .ok ((items.drop index.toNat).take n.toNat).flatten := by
  rw [ArrayT.behind, stores.read index n inside]
  rfl

/-- What an operation has to be shown to do. -/
def Steps (null : Bool) (self : ArrayT) (items : List Item) (operation : ArrayOperation) : Prop :=
  ∃ self' returned items' spare', self.perform null operation = .ok (self', returned) ∧
    ListStep items operation returned items' ∧ Stores self' items' spare'

section Operations

theorem steps_init {itemSize : BitVec 32} (positive : 0 < itemSize) :
    Steps null self items (.init itemSize) := by
  refine ⟨{ itemSize, size := 0, capacity := 0, items := none }, [], [], [], ?_, rfl, ?_⟩
  · rw [perform, arrayInit, assert_ok (decide_eq_true positive)]
    rfl
  · exact ⟨rfl, rfl, Blocks.uniform_nil, rfl, positive, by simp⟩

variable (stores : Stores self items spare)
include stores

theorem steps_reserve {capacity : BitVec 32} (bounded : capacity.toNat * self.itemSize.toNat ≤ 2 ^ 30) :
    Steps null self items (.reserve capacity) := by
  by_cases present : capacity ≤ self.capacity
  · exact ⟨self, [], items, spare, by rw [perform, arrayReserve, if_pos present]; rfl, rfl, stores⟩
  · have enough := stores.le
    have more := present
    rw [BitVec.le_def] at more
    obtain ⟨spare', stores'⟩ := stores.reallocate null capacity (by omega) (by omega)
    exact ⟨_, [], items, spare', by rw [perform, arrayReserve, if_neg present]; rfl, rfl, stores'⟩

theorem steps_shrink : Steps null self items .shrink := by
  by_cases larger : self.size ≠ self.capacity
  · have enough := Nat.mul_le_mul_right self.itemSize.toNat stores.le
    have limit := stores.limit
    have size := stores.size
    obtain ⟨spare', stores'⟩ := stores.reallocate null self.size (by omega) (by rw [size]; omega)
    exact ⟨_, [], items, spare', by rw [perform, arrayShrink, if_pos larger]; rfl, rfl, stores'⟩
  · exact ⟨self, [], items, spare, by rw [perform, arrayShrink, if_neg larger]; rfl, rfl, stores⟩

theorem steps_resize {n : BitVec 32} (bounded : n.toNat * self.itemSize.toNat ≤ 2 ^ 30) :
    Steps null self items (.resize n) := by
  obtain ⟨added, spare', length, stores'⟩ := stores.resize null n bounded
  exact ⟨_, [], _, spare', rfl, ⟨added, rfl, length⟩, stores'⟩

theorem steps_get {index : BitVec 32} (asserted : index < self.size) : Steps null self items (.get index) := by
  have held := List.getElem?_eq_getElem (stores.below asserted)
  refine ⟨self, _, items, spare, ?_, ⟨rfl, held⟩, stores⟩
  rw [perform, arrayGet, assert_ok (decide_eq_true asserted)]
  simp only [bind, Except.bind, pure, Except.pure, stores.behind held]

theorem steps_getMany {index n : BitVec 32} (first : index < self.size) (asserted : index + n ≤ self.size)
    (unwrapped : index.toNat + n.toNat < 2 ^ 32) : Steps null self items (.getMany index n) := by
  refine ⟨self, _, items, spare, ?_, ⟨rfl, rfl⟩, stores⟩
  rw [perform, arrayGetMany, assert_ok (decide_eq_true first), assert_ok (decide_eq_true asserted),
    stores.read index n (stores.range asserted unwrapped)]
  rfl

theorem steps_set {index : BitVec 32} {item : Item} (asserted : index < self.size)
    (provided : item.length = self.itemSize.toNat) : Steps null self items (.set index item) := by
  have inside := stores.below asserted
  obtain ⟨self', written, _, stores'⟩ := stores.set index inside provided
  refine ⟨self', [], _, spare, by rw [perform, written]; rfl, ?_, stores'⟩
  rw [ListStep, List.set_eq_take_append_cons_drop, if_pos inside, List.append_assoc]
  rfl

theorem steps_setMany {index n : BitVec 32} {given : List Item} (asserted : index + n ≤ self.size)
    (provided : given.length = n.toNat ∧ Blocks.Uniform self.itemSize.toNat given)
    (unwrapped : index.toNat + n.toNat < 2 ^ 32) : Steps null self items (.setMany index given n) := by
  obtain ⟨self', written, _, stores'⟩ := stores.setMany index n (stores.range asserted unwrapped) provided.1 provided.2
  exact ⟨self', [], _, spare, by rw [perform, written]; rfl, rfl, stores'⟩

theorem steps_insert {index : BitVec 32} {given : Option Item} (asserted : index ≤ self.size)
    (bounded : (self.size.toNat + 1) * self.itemSize.toNat ≤ 2 ^ 30)
    (provided : ∀ item, given = some item → item.length = self.itemSize.toNat) :
    Steps null self items (.insert index given) := by
  have inside := stores.upTo asserted
  rw [stores.size] at bounded
  obtain ⟨self', added, spare', inserted, chosen, stores'⟩ := stores.insert null inside bounded provided
  have held : (items.take index.toNat ++ [added] ++ items.drop index.toNat)[index.toNat]? = some added := by
    have front : (items.take index.toNat).length = index.toNat := List.length_take_of_le inside
    rw [List.append_assoc, List.getElem?_append_right (Nat.le_of_eq front), front, Nat.sub_self]
    rfl
  refine ⟨self', added, _, spare', ?_, ⟨rfl, chosen⟩, stores'⟩
  rw [perform, inserted]
  simp only [bind, Except.bind, stores'.behind held]
  rfl

theorem steps_insertMany {index n : BitVec 32} {given : Option (List Item)} (asserted : index ≤ self.size)
    (bounded : (self.size.toNat + n.toNat) * self.itemSize.toNat ≤ 2 ^ 30)
    (provided : ∀ given', given = some given' → given'.length = n.toNat ∧ Blocks.Uniform self.itemSize.toNat given') :
    Steps null self items (.insertMany index given n) := by
  have inside := stores.upTo asserted
  rw [stores.size] at bounded
  obtain ⟨self', added, spare', inserted, count, chosen, stores'⟩ := stores.insertMany null inside bounded provided
  have front : (items.take index.toNat).length = index.toNat := List.length_take_of_le inside
  have held : ((items.take index.toNat ++ added ++ items.drop index.toNat).drop index.toNat).take n.toNat = added := by
    rw [List.append_assoc, List.drop_left' front, List.take_left' count]
  have read := stores'.behindMany index n
    (by simp only [List.length_append, front, count, List.length_drop]; omega)
  rw [held] at read
  refine ⟨self', added.flatten, _, spare', ?_, ⟨added, rfl, count, rfl, chosen⟩, stores'⟩
  rw [perform, inserted]
  simp only [bind, Except.bind, read]
  rfl

theorem steps_erase {index : BitVec 32} (asserted : index < self.size) :
    Steps null self items (.erase index) := by
  have inside := stores.below asserted
  have size := stores.size
  have small := self.size.isLt
  have next : (index + 1).toNat = index.toNat + 1 := by
    rw [BitVec.toNat_add]
    exact Nat.mod_eq_of_lt (by simp; omega)
  have one : (1 : BitVec 32).toNat = 1 := rfl
  have less : (self.size - 1).toNat = items.length - 1 := by
    rw [BitVec.toNat_sub_of_le (by rw [BitVec.le_def, one, size]; omega), size, one]
  have before : index < self.size - 1 ↔ index + 1 < self.size := by
    rw [BitVec.lt_def, BitVec.lt_def, less, next, size]
    omega
  obtain ⟨self₂, spare', closed, sameSize, stores'⟩ := stores.close index (index + 1) (self.size - 1)
    (by omega) (by omega) (by rw [less]; omega)
  rw [next, ← List.eraseIdx_eq_take_drop_succ, ← sameSize] at stores'
  refine ⟨_, [], _, spare', ?_, rfl, stores'⟩
  rw [perform, arrayErase, assert_ok (decide_eq_true asserted)]
  simp only [bind, Except.bind, before, closed]
  rfl

theorem steps_eraseRange {first last : BitVec 32} (order : first ≤ last) (asserted : last ≤ self.size) :
    Steps null self items (.eraseRange first last) := by
  have inside := stores.upTo asserted
  have distance : (last - first).toNat = last.toNat - first.toNat := BitVec.toNat_sub_of_le order
  have rest : (self.size - (last - first)).toNat = items.length - (last.toNat - first.toNat) := by
    rw [BitVec.toNat_sub_of_le (by rw [BitVec.le_def, distance, stores.size]; omega), distance, stores.size]
  obtain ⟨self₂, spare', closed, sameSize, stores'⟩ := stores.close first last _ order inside rest
  rw [← sameSize] at stores'
  refine ⟨_, [], _, spare', ?_, rfl, stores'⟩
  rw [perform, arrayEraseRange, assert_ok (decide_eq_true order), assert_ok (decide_eq_true asserted)]
  simp only [bind, Except.bind, closed]
  rfl

theorem steps_add {given : Option Item} (inserted : Steps null self items (.insert self.size given)) :
    Steps null self items (.add given) := by
  obtain ⟨self', returned, items', spare', run, ⟨rfl, chosen⟩, stores'⟩ := inserted
  rw [stores.size, List.take_length, List.drop_length, List.append_nil] at stores'
  exact ⟨self', returned, _, spare', run, ⟨rfl, chosen⟩, stores'⟩

theorem steps_addMany {given : Option (List Item)} {n : BitVec 32}
    (inserted : Steps null self items (.insertMany self.size given n)) :
    Steps null self items (.addMany given n) := by
  obtain ⟨self', returned, items', spare', run, ⟨added, rfl, rest⟩, stores'⟩ := inserted
  rw [stores.size, List.take_length, List.drop_length, List.append_nil] at stores'
  exact ⟨self', returned, _, spare', run, ⟨added, rfl, rest⟩, stores'⟩

theorem steps_removeMany {n : BitVec 32} (asserted : n ≤ self.size) :
    Steps null self items (.removeMany n) := by
  have inside := stores.upTo asserted
  refine ⟨{ self with size := self.size - n }, [], items.take (items.length - n.toNat),
    items.drop (items.length - n.toNat) ++ spare, ?_, rfl, stores.cut (self.size - n) ?_ ?_⟩
  · rw [perform, arrayRemoveMany, assert_ok (decide_eq_true asserted)]
    rfl
  · rw [BitVec.toNat_sub_of_le asserted, stores.size, List.length_take]
    omega
  · rw [← List.append_assoc, List.take_append_drop]

theorem steps_remove (asserted : 0 < self.size) : Steps null self items .remove := by
  have one : (1 : BitVec 32) ≤ self.size := by bv_omega
  obtain ⟨self', returned, items', spare', run, rfl, stores'⟩ := steps_removeMany null stores one
  rw [perform, arrayRemoveMany, assert_ok (decide_eq_true one)] at run
  refine ⟨self', returned, _, spare', ?_, List.dropLast_eq_take.symm, stores'⟩
  rw [perform, arrayRemove, assert_ok (decide_eq_true asserted)]
  exact run

theorem steps_clear : Steps null self items .clear :=
  ⟨arrayClear self, [], [], items ++ spare, rfl, rfl, stores.cut 0 rfl rfl⟩

/-- Each operation does to the items in memory what it does to the list. -/
theorem perform_steps {operation : ArrayOperation} (permitted : self.Permitted operation)
    (unwrapped : operation.Unwrapped) : Steps null self items operation := by
  obtain ⟨asserted, bounded, provided⟩ := permitted
  cases operation with
  | init itemSize => exact steps_init null asserted
  | reserve capacity => exact steps_reserve null stores bounded
  | resize n => exact steps_resize null stores bounded
  | shrink => exact steps_shrink null stores
  | get index => exact steps_get null stores asserted
  | getMany index n => exact steps_getMany null stores asserted.1 asserted.2 unwrapped
  | set index item => exact steps_set null stores asserted provided
  | setMany index given n => exact steps_setMany null stores asserted provided unwrapped
  | insert index given =>
    refine steps_insert null stores asserted bounded fun item same => ?_
    subst same
    exact provided
  | insertMany index given n =>
    refine steps_insertMany null stores asserted bounded fun given' same => ?_
    subst same
    exact provided
  | erase index => exact steps_erase null stores asserted
  | eraseRange first last => exact steps_eraseRange null stores asserted.1 asserted.2
  | add given =>
    refine steps_add null stores (steps_insert null stores (BitVec.le_refl _) bounded fun item same => ?_)
    subst same
    exact provided
  | addMany given n =>
    refine steps_addMany null stores (steps_insertMany null stores (BitVec.le_refl _) bounded fun given' same => ?_)
    subst same
    exact provided
  | remove => exact steps_remove null stores asserted
  | removeMany n => exact steps_removeMany null stores asserted
  | clear => exact steps_clear null stores

end Operations

end ArrayT

/-! ### Sequences of operations -/

/-- Runs operations one after another; for each, whether an empty allocation is null. -/
def runArray : List (Bool × ArrayOperation) → ArrayT → Except ArrayFault (ArrayT × List (List Byte))
  | [], self => .ok (self, [])
  | (null, operation) :: steps, self => do
    let (self, returned) ← self.perform null operation
    let (self, rest) ← runArray steps self
    return (self, returned :: rest)

/-- Every operation is permitted in the state it is called in. -/
def PermittedRun : List (Bool × ArrayOperation) → ArrayT → Prop
  | [], _ => True
  | (null, operation) :: steps, self =>
    self.Permitted operation ∧
      match self.perform null operation with
      | .ok (self', _) => PermittedRun steps self'
      | .error _ => True

inductive ListRun : List Item → List (Bool × ArrayOperation) → List (List Byte) → List Item → Prop where
  | nil {items} : ListRun items [] [] items
  | cons {items items' items'' null operation returned steps rest} :
      ListStep items operation returned items' → ListRun items' steps rest items'' →
      ListRun items ((null, operation) :: steps) (returned :: rest) items''

theorem run_stores {steps : List (Bool × ArrayOperation)} {self : ArrayT} {items spare : List Item}
    (stores : self.Stores items spare) (permitted : PermittedRun steps self)
    (unwrapped : ∀ step ∈ steps, step.2.Unwrapped) :
    ∃ self' outputs items' spare', runArray steps self = .ok (self', outputs) ∧
      ListRun items steps outputs items' ∧
      self'.Stores items' spare' := by
  induction steps generalizing self items spare with
  | nil => exact ⟨self, [], items, spare, rfl, .nil, stores⟩
  | cons step steps ih =>
    obtain ⟨null, operation⟩ := step
    obtain ⟨first, later⟩ := permitted
    obtain ⟨self₁, returned, items₁, spare₁, performed, listed, stores₁⟩ :=
      ArrayT.perform_steps null stores first (unwrapped _ (.head _))
    rw [performed] at later
    obtain ⟨self', outputs, items', spare', run, lists, stores'⟩ :=
      ih stores₁ later fun step member => unwrapped step (.tail _ member)
    refine ⟨self', returned :: outputs, items', spare', ?_, .cons listed lists, stores'⟩
    simp only [runArray, performed, bind, Except.bind, run]
    rfl

theorem arrayInit_stores {itemSize : BitVec 32} {self : ArrayT} (started : arrayInit itemSize = .ok self) :
    self.Stores [] [] := by
  unfold arrayInit assert at started
  split at started
  · rename_i positive
    cases started
    exact ⟨rfl, rfl, Blocks.uniform_nil, rfl, of_decide_eq_true positive, by simp⟩
  · cases started

/-- From an initial array on, operations do to the items in memory what they do to a list, as long
as the ends of the ranges do not wrap around. -/
theorem array_refines {itemSize : BitVec 32} {self : ArrayT} (started : arrayInit itemSize = .ok self)
    (steps : List (Bool × ArrayOperation)) (permitted : PermittedRun steps self)
    (unwrapped : ∀ step ∈ steps, step.2.Unwrapped) :
    ∃ self' outputs items, runArray steps self = .ok (self', outputs) ∧ ListRun [] steps outputs items ∧
      self'.Refines items := by
  obtain ⟨self', outputs, items, spare, run, lists, stores⟩ := run_stores (arrayInit_stores started) permitted unwrapped
  exact ⟨self', outputs, items, run, lists, stores.refines⟩

/-- Two items of one byte, one inserted in front of the other, and the first one erased. -/
theorem array_refines_three :
    let steps : List (Bool × ArrayOperation) :=
  [(true, .add (some [some 1])), (true, .insert 0 (some [some 2])), (true, .erase 0)]
    ∃ self' outputs items, runArray steps ⟨0, 0, 1, none⟩ = .ok (self', outputs) ∧ ListRun [] steps outputs items ∧
      self'.Refines items := by
  intro steps
  refine array_refines (rfl : arrayInit 1 = _) steps ?_ ?_
  · exact ⟨⟨trivial, Nat.le_of_ble_eq_true rfl, rfl⟩, ⟨Nat.zero_le _, Nat.le_of_ble_eq_true rfl, rfl⟩,
      ⟨Nat.zero_lt_succ _, trivial, trivial⟩, trivial⟩
  · intro step member
    simp only [steps, List.mem_cons, List.not_mem_nil, or_false] at member
    obtain rfl | rfl | rfl := member <;> trivial

/-- One item is set at the last index there is: `index + num_items` is zero, and the assertion holds. -/
theorem set_many_wraps_around :
    let steps : List (Bool × ArrayOperation) :=
  [(true, .add (some [some 1])), (true, .setMany (BitVec.allOnes 32) [[some 2]] 1)]
    PermittedRun steps ⟨0, 0, 1, none⟩ ∧ arrayInit 1 = .ok ⟨0, 0, 1, none⟩ ∧
      runArray steps ⟨0, 0, 1, none⟩ = .error .undefined := by
  refine ⟨⟨⟨trivial, Nat.le_of_ble_eq_true rfl, rfl⟩, ⟨Nat.zero_le _, trivial, rfl, ?_⟩, trivial⟩, rfl, rfl⟩
  exact Blocks.uniform_cons.mpr ⟨rfl, Blocks.uniform_nil⟩

end Low
