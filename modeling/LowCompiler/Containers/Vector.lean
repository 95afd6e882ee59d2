import LowCompiler.Containers.Refinement
import LowCompiler.Stateful

/-!
# Vectors of the Low library

The functions of `lib/vector.low`, which follow those of `array.c`. Integers are `int32`:
comparisons and indices are signed, and the assertions are comments.
-/

namespace Low

structure VectorT where
  size : BitVec 32
  capacity : BitVec 32
  itemSize : BitVec 32
  items : Option (List Byte)
  deriving DecidableEq, Repr

namespace VectorT

def block (self : VectorT) : List Byte := self.items.getD []

def setBlock (self : VectorT) (block : List Byte) : VectorT :=
  { self with items := self.items.map fun _ => block }

end VectorT

/-- Where `&self.items[index]` leads to. There is nothing in front of the items. -/
def itemAddress (index : BitVec 32) : Except ArrayFault Nat :=
  if index.msb then .error .undefined else .ok index.toNat

section Allocation
variable (null : Bool)

def vectorReallocate (self : VectorT) (capacity : BitVec 32) : VectorT :=
  let bytes := (capacity * self.itemSize).toNat
  let items :=
    if capacity = 0 then none
    else match self.items with
      | some block => realloc null block bytes
      | none => malloc null bytes
  { self with items, capacity }

/-- `for cp < req { cp *= 2 }`. -/
def doubledSigned (req : BitVec 32) : Nat → BitVec 32 → Option (BitVec 32)
  | 0, _ => none
  | rounds + 1, cp => if cp.slt req then doubledSigned req rounds (cp * 2) else some cp

def vectorGrow (self : VectorT) (additional : BitVec 32) : Except ArrayFault VectorT :=
  let req := self.size + additional
  if self.capacity.slt req then
    let cp := if self.capacity = 0 then 1 else self.capacity
    match doubledSigned req 33 cp with
    | some cp => .ok (vectorReallocate null self cp)
    | none => .error .diverges
  else .ok self

def vectorMoveTail (self : VectorT) (source target : BitVec 32) : Except ArrayFault VectorT := do
  let target ← itemAddress (target * self.itemSize)
  let address ← itemAddress (source * self.itemSize)
  let block ← defined (Blocks.move self.block target address ((self.size - source) * self.itemSize).toNat)
  return self.setBlock block

def vectorInit (itemSize : BitVec 32) : VectorT := { itemSize, size := 0, capacity := 0, items := none }

def vectorReserve (self : VectorT) (capacity : BitVec 32) : VectorT :=
  if capacity.sle self.capacity then self else vectorReallocate null self capacity

def vectorResize (self : VectorT) (size : BitVec 32) : VectorT :=
  let self := if self.capacity.slt size then vectorReallocate null self size else self
  { self with size }

def vectorShrink (self : VectorT) : VectorT :=
  if self.size ≠ self.capacity then vectorReallocate null self self.size else self

def vectorGet (self : VectorT) (index : BitVec 32) : BitVec 32 := index * self.itemSize

def vectorGetMany (self : VectorT) (index numItems : BitVec 32) : Except ArrayFault (List Byte) := do
  let address ← itemAddress (index * self.itemSize)
  defined (Blocks.read self.block address (numItems * self.itemSize).toNat)

def vectorSet (self : VectorT) (index : BitVec 32) (item : List Byte) : Except ArrayFault VectorT := do
  let bytes ← fromBuffer item self.itemSize
  let address ← itemAddress (index * self.itemSize)
  let block ← defined (Blocks.write self.block address bytes)
  return self.setBlock block

def vectorSetMany (self : VectorT) (index : BitVec 32) (items : List Byte) (numItems : BitVec 32) :
    Except ArrayFault VectorT := do
  let bytes ← fromBuffer items (numItems * self.itemSize)
  let address ← itemAddress (index * self.itemSize)
  let block ← defined (Blocks.write self.block address bytes)
  return self.setBlock block

def vectorInsert (self : VectorT) (index : BitVec 32) (item : Option (List Byte)) :
    Except ArrayFault (VectorT × BitVec 32) := do
  let self ← vectorGrow null self 1
  let self ← (if index.slt self.size then vectorMoveTail self index (index + 1) else pure self)
  let self := { self with size := self.size + 1 }
  let self ← (match item with
    | some item => vectorSet self index item
    | none => pure self)
  return (self, index * self.itemSize)

def vectorInsertMany (self : VectorT) (index : BitVec 32) (items : Option (List Byte)) (numItems : BitVec 32) :
    Except ArrayFault (VectorT × BitVec 32) := do
  let self ← vectorGrow null self numItems
  let self ← (if index.slt self.size then vectorMoveTail self index (index + numItems) else pure self)
  let self := { self with size := self.size + numItems }
  let self ← (match items with
    | some items => vectorSetMany self index items numItems
    | none => pure self)
  return (self, index * self.itemSize)

def vectorErase (self : VectorT) (index : BitVec 32) : Except ArrayFault VectorT := do
  let self ← (if index.slt (self.size - 1) then vectorMoveTail self (index + 1) index else pure self)
  return { self with size := self.size - 1 }

def vectorEraseMany (self : VectorT) (index numItems : BitVec 32) : Except ArrayFault VectorT := do
  let self ← (if (index + numItems).slt self.size then vectorMoveTail self (index + numItems) index else pure self)
  return { self with size := self.size - numItems }

def vectorAdd (self : VectorT) (item : Option (List Byte)) : Except ArrayFault (VectorT × BitVec 32) :=
  vectorInsert null self self.size item

def vectorAddMany (self : VectorT) (items : Option (List Byte)) (numItems : BitVec 32) :
    Except ArrayFault (VectorT × BitVec 32) :=
  vectorInsertMany null self self.size items numItems

def vectorRemove (self : VectorT) : VectorT := { self with size := self.size - 1 }

def vectorRemoveMany (self : VectorT) (numItems : BitVec 32) : VectorT :=
  { self with size := self.size - numItems }

def vectorClear (self : VectorT) : VectorT := { self with size := 0 }

end Allocation

namespace VectorT

def behind (self : VectorT) (pointer bytes : BitVec 32) : Except ArrayFault (List Byte) := do
  let address ← itemAddress pointer
  defined (Blocks.read self.block address bytes.toNat)

def perform (null : Bool) (self : VectorT) : ArrayOperation → Except ArrayFault (VectorT × List Byte)
  | .init itemSize => return (vectorInit itemSize, [])
  | .reserve capacity => return (vectorReserve null self capacity, [])
  | .resize items => return (vectorResize null self items, [])
  | .shrink => return (vectorShrink null self, [])
  | .get index => do return (self, ← self.behind (vectorGet self index) self.itemSize)
  | .getMany index numItems => do return (self, ← vectorGetMany self index numItems)
  | .set index item => do return (← vectorSet self index item, [])
  | .setMany index items numItems => do return (← vectorSetMany self index items.flatten numItems, [])
  | .insert index item => do
    let (self, pointer) ← vectorInsert null self index item
    return (self, ← self.behind pointer self.itemSize)
  | .insertMany index items numItems => do
    let (self, pointer) ← vectorInsertMany null self index (items.map List.flatten) numItems
    return (self, ← self.behind pointer (numItems * self.itemSize))
  | .erase index => do return (← vectorErase self index, [])
  | .eraseRange first last => do return (← vectorEraseMany self first (last - first), [])
  | .add item => do
    let (self, pointer) ← vectorAdd null self item
    return (self, ← self.behind pointer self.itemSize)
  | .addMany items numItems => do
    let (self, pointer) ← vectorAddMany null self (items.map List.flatten) numItems
    return (self, ← self.behind pointer (numItems * self.itemSize))
  | .remove => return (vectorRemove self, [])
  | .removeMany numItems => return (vectorRemoveMany self numItems, [])
  | .clear => return (vectorClear self, [])

end VectorT

/-! ### Signed and unsigned -/

theorem slt_small {x y : BitVec 32} (hx : x.toNat < 2 ^ 31) (hy : y.toNat < 2 ^ 31) :
    x.slt y = decide (x < y) := by
  rw [BitVec.slt, BitVec.toInt_eq_toNat_of_lt (by omega), BitVec.toInt_eq_toNat_of_lt (by omega)]
  simp [BitVec.lt_def]

theorem sle_small {x y : BitVec 32} (hx : x.toNat < 2 ^ 31) (hy : y.toNat < 2 ^ 31) :
    x.sle y = decide (x ≤ y) := by
  rw [BitVec.sle, BitVec.toInt_eq_toNat_of_lt (by omega), BitVec.toInt_eq_toNat_of_lt (by omega)]
  simp [BitVec.le_def]

theorem itemAddress_cases (index : BitVec 32) :
    (itemAddress index = .ok index.toNat) ∨ (itemAddress index = .error .undefined ∧ 2 ^ 31 ≤ index.toNat) := by
  unfold itemAddress
  split
  · rename_i negative
    have high := BitVec.msb_eq_decide index
    rw [negative] at high
    exact .inr ⟨rfl, by simpa using high.symm⟩
  · exact .inl rfl

section Addresses
variable {block : List Byte} (small : block.length < 2 ^ 31)
include small

/-- An index that is negative for the one is out of bounds for the other. -/
theorem read_address (index : BitVec 32) (count : Nat) :
    (do let address ← itemAddress index; defined (Blocks.read block address count)) =
      defined (Blocks.read block index.toNat count) := by
  obtain same | ⟨outside, high⟩ := itemAddress_cases index
  · rw [same]
    rfl
  · rw [outside, Blocks.read, if_neg (by omega)]
    rfl

theorem write_address (index : BitVec 32) (bytes : List Byte) :
    (do let address ← itemAddress index; defined (Blocks.write block address bytes)) =
      defined (Blocks.write block index.toNat bytes) := by
  obtain same | ⟨outside, high⟩ := itemAddress_cases index
  · rw [same]
    rfl
  · rw [outside, Blocks.write, if_neg (by omega)]
    rfl

theorem move_address (target source : BitVec 32) (count : Nat) :
    (do
      let target ← itemAddress target
      let address ← itemAddress source
      defined (Blocks.move block target address count)) =
      defined (Blocks.move block target.toNat source.toNat count) := by
  obtain same | ⟨outside, high⟩ := itemAddress_cases target
  · obtain same' | ⟨outside, high⟩ := itemAddress_cases source
    · rw [same, same']
      rfl
    · rw [same, outside, Blocks.move, Blocks.read, if_neg (by omega)]
      rfl
  · have fails : Blocks.move block target.toNat source.toNat count = none := by
      rw [Blocks.move]
      cases Blocks.read block source.toNat count with
      | none => rfl
      | some cells => exact if_neg (by omega)
    rw [outside, fails]
    rfl

end Addresses

/-! ### Side by side -/

/-- The same size, capacity and item bytes. -/
structure Agree (array : ArrayT) (vector : VectorT) : Prop where
  size : array.size = vector.size
  capacity : array.capacity = vector.capacity
  itemSize : array.itemSize = vector.itemSize
  block : array.block = vector.block

def Alike (result : ArrayT × List Byte) (result' : VectorT × List Byte) : Prop :=
  Agree result.1 result'.1 ∧ result.2 = result'.2

section Functions
open Stateful ArrayT
variable {null : Bool} {array : ArrayT} {vector : VectorT}

theorem VectorT.block_setBlock {self : VectorT} {block : List Byte}
    (length : block.length = self.block.length) :
    (self.setBlock block).block = block := by
  cases present : self.items with
  | some old => simp [VectorT.block, setBlock, present]
  | none =>
    have empty : block = [] := List.length_eq_zero_iff.mp (by rw [length]; simp [VectorT.block, present])
    simp [VectorT.block, setBlock, present, empty]

theorem Agree.setBlock (agree : Agree array vector) {block : List Byte}
    (length : block.length = array.block.length) :
    Agree (array.setBlock block) (vector.setBlock block) where
  size := agree.size
  capacity := agree.capacity
  itemSize := agree.itemSize
  block := by rw [ArrayT.block_setBlock length, VectorT.block_setBlock (by rw [length, agree.block])]

theorem Agree.withSize (agree : Agree array vector) (size : BitVec 32) :
    Agree { array with size } { vector with size } where
  size := rfl
  capacity := agree.capacity
  itemSize := agree.itemSize
  block := agree.block

theorem vectorReallocate_block (capacity : BitVec 32) :
    (vectorReallocate null vector capacity).block = vector.block.take (capacity * vector.itemSize).toNat ++
      List.replicate ((capacity * vector.itemSize).toNat - vector.block.length) none := by
  by_cases zero : capacity = 0
  · subst zero
    simp [vectorReallocate, VectorT.block]
  · have behind : (vectorReallocate null vector capacity).block =
        (realloc null vector.block (capacity * vector.itemSize).toNat).getD [] := by
      simp only [vectorReallocate, VectorT.block, if_neg zero]
      cases vector.items <;> rfl
    rw [behind, block_realloc]

theorem Agree.reallocate (agree : Agree array vector) (capacity : BitVec 32) :
    Agree (arrayReallocate null array capacity) (vectorReallocate null vector capacity) where
  size := agree.size
  capacity := rfl
  itemSize := agree.itemSize
  block := by rw [block_reallocate, vectorReallocate_block, agree.block, agree.itemSize]

theorem doubledSigned_eq {req : BitVec 32} (small : req.toNat ≤ 2 ^ 30) (rounds : Nat) (cap : BitVec 32)
    (below : cap.toNat < 2 ^ 31) : doubledSigned req rounds cap = doubled req rounds cap := by
  induction rounds generalizing cap with
  | zero => rfl
  | succ rounds ih =>
    rw [doubledSigned, doubled, slt_small below (by omega)]
    by_cases less : cap < req
    · have twice : (cap * 2).toNat < 2 ^ 31 := by
        rw [BitVec.lt_def] at less
        rw [BitVec.toNat_mul, show (2 : BitVec 32).toNat = 2 from rfl]
        exact Nat.lt_of_le_of_lt (Nat.mod_le _ _) (by omega)
      simp only [less, decide_true, if_true]
      exact ih _ twice
    · simp [less]

theorem Agree.grow (agree : Agree array vector) {additional : BitVec 32} (capacity : array.capacity.toNat < 2 ^ 31)
    (required : (array.size + additional).toNat ≤ 2 ^ 30) :
    Together Agree (arrayGrow null array additional) (vectorGrow null vector additional) := by
  rw [arrayGrow, vectorGrow, ← agree.size, ← agree.capacity, slt_small capacity (by omega)]
  by_cases less : array.capacity < array.size + additional
  · have start : (if array.capacity = 0 then 1 else array.capacity).toNat < 2 ^ 31 := by
      split
      · decide
      · exact capacity
    simp only [less, decide_true, if_true, doubledSigned_eq required 33 _ start]
    cases doubled (array.size + additional) 33 (if array.capacity = 0 then 1 else array.capacity) with
    | none => rfl
    | some cap => exact agree.reallocate cap
  · simp only [less, decide_false, if_false]
    exact agree

theorem together_setBlock (agree : Agree array vector) (change : Option (List Byte))
    (length : ∀ block, change = some block → block.length = array.block.length) :
    Together Agree (do return array.setBlock (← defined change)) (do return vector.setBlock (← defined change)) := by
  cases change with
  | none => rfl
  | some block => exact agree.setBlock (length block rfl)

theorem Agree.moveTail (agree : Agree array vector) (small : array.block.length < 2 ^ 31)
    (source target : BitVec 32) :
    Together Agree (arrayMoveTail array source target) (vectorMoveTail vector source target) := by
  have addresses := move_address small (target * array.itemSize) (source * array.itemSize)
    ((array.size - source) * array.itemSize).toNat
  have together := together_setBlock agree (Blocks.move array.block (target * array.itemSize).toNat
    (source * array.itemSize).toNat ((array.size - source) * array.itemSize).toNat) fun _ => Blocks.move_length
  rw [← addresses] at together
  rw [arrayMoveTail, vectorMoveTail, ← agree.size, ← agree.itemSize, ← agree.block, ← addresses]
  simpa only [bind_assoc] using together

theorem Agree.set (agree : Agree array vector) (small : array.block.length < 2 ^ 31) {index : BitVec 32} {item : List Byte}
    (asserted : index < array.size) : Together Agree (arraySet array index item) (vectorSet vector index item) := by
  rw [arraySet, vectorSet, assert_ok (decide_eq_true asserted), ok_bind, ← agree.itemSize, ← agree.block]
  refine together_bind together_refl fun bytes _ _ _ same => ?_
  subst same
  have together := together_setBlock agree
    (Blocks.write array.block (index * array.itemSize).toNat bytes) fun _ => Blocks.write_length
  rw [← write_address small] at together
  rw [← write_address small]
  simpa only [bind_assoc] using together

theorem Agree.setMany (agree : Agree array vector) (small : array.block.length < 2 ^ 31) {index n : BitVec 32}
    {items : List Byte} (asserted : index + n ≤ array.size) :
    Together Agree (arraySetMany array index items n) (vectorSetMany vector index items n) := by
  rw [arraySetMany, vectorSetMany, assert_ok (decide_eq_true asserted), ok_bind, ← agree.itemSize, ← agree.block]
  refine together_bind together_refl fun bytes _ _ _ same => ?_
  subst same
  have together := together_setBlock agree
    (Blocks.write array.block (index * array.itemSize).toNat bytes) fun _ => Blocks.write_length
  rw [← write_address small] at together
  rw [← write_address small]
  simpa only [bind_assoc] using together

theorem Agree.behind (agree : Agree array vector) (small : array.block.length < 2 ^ 31)
    (pointer bytes : BitVec 32) :
    array.behind pointer bytes = vector.behind pointer bytes := by
  rw [ArrayT.behind, VectorT.behind, ← agree.block, read_address small]

theorem write_ok {offset : Nat} {bytes : List Byte} {array' : ArrayT}
    (written : (do return array.setBlock (← defined (Blocks.write array.block offset bytes))) = .ok array') :
    ∃ block, block.length = array.block.length ∧ array' = array.setBlock block := by
  cases change : Blocks.write array.block offset bytes with
  | none =>
    rw [change] at written
    cases written
  | some block =>
    rw [change] at written
    cases written
    exact ⟨block, Blocks.write_length change, rfl⟩

theorem length_moveTail {source target : BitVec 32} {array' : ArrayT}
    (moved : arrayMoveTail array source target = .ok array') :
    array'.block.length = array.block.length ∧ array'.size = array.size ∧ array'.itemSize = array.itemSize := by
  unfold arrayMoveTail at moved
  cases change : Blocks.move array.block (target * array.itemSize).toNat (source * array.itemSize).toNat
      ((array.size - source) * array.itemSize).toNat with
  | none =>
    rw [change] at moved
    cases moved
  | some block =>
    rw [change] at moved
    cases moved
    rw [ArrayT.block_setBlock (Blocks.move_length change)]
    exact ⟨Blocks.move_length change, rfl, rfl⟩

theorem changed_length {array' : ArrayT}
    (changed : ∃ block, block.length = array.block.length ∧ array' = array.setBlock block) :
    array'.block.length = array.block.length := by
  obtain ⟨block, length, rfl⟩ := changed
  rw [ArrayT.block_setBlock length, length]

theorem set_ok {index : BitVec 32} {item : List Byte} {array' : ArrayT} (asserted : index < array.size)
    (written : arraySet array index item = .ok array') :
    ∃ block, block.length = array.block.length ∧ array' = array.setBlock block := by
  rw [arraySet, assert_ok (decide_eq_true asserted), ok_bind] at written
  cases buffer : fromBuffer item array.itemSize with
  | error e =>
    rw [buffer] at written
    cases written
  | ok bytes =>
    rw [buffer, ok_bind] at written
    exact write_ok written

theorem setMany_ok {index n : BitVec 32} {items : List Byte} {array' : ArrayT} (asserted : index + n ≤ array.size)
    (written : arraySetMany array index items n = .ok array') :
    ∃ block, block.length = array.block.length ∧ array' = array.setBlock block := by
  rw [arraySetMany, assert_ok (decide_eq_true asserted), ok_bind] at written
  cases buffer : fromBuffer items (n * array.itemSize) with
  | error e =>
    rw [buffer] at written
    cases written
  | ok bytes =>
    rw [buffer, ok_bind] at written
    exact write_ok written

variable {items spare : List Item}

theorem stores_small (stores : array.Stores items spare) : array.block.length < 2 ^ 31 := by
  rw [stores.block, Blocks.length_flatten stores.uniform, ← stores.capacity]
  exact stores.limit

theorem stores_capacity (stores : array.Stores items spare) : array.capacity.toNat < 2 ^ 31 :=
  Nat.lt_of_le_of_lt (Nat.le_mul_of_pos_right _ stores.positive) stores.limit

theorem stores_size (stores : array.Stores items spare) : array.size.toNat < 2 ^ 31 := by
  have enough := stores.le
  have small := stores_capacity stores
  have size := stores.size
  omega

/-- The part that `insert` and `insert_many` have in common. -/
theorem Agree.open (agree : Agree array vector) (stores : array.Stores items spare) {index n : BitVec 32}
    (inside : index ≤ array.size) (bounded : (array.size.toNat + n.toNat) * array.itemSize.toNat ≤ 2 ^ 30)
    {f : ArrayT → Except ArrayFault (ArrayT × List Byte)} {g : VectorT → Except ArrayFault (VectorT × List Byte)}
    (rest : ∀ array' vector', Agree array' vector' → array'.block.length < 2 ^ 31 → array'.size = array.size →
      array'.itemSize = array.itemSize → Together Alike (f { array' with size := array'.size + n })
        (g { vector' with size := vector'.size + n })) :
    Together Alike
      (do
        let array ← arrayGrow null array n
        let array ← (if index < array.size then arrayMoveTail array index (index + n) else pure array)
        f { array with size := array.size + n })
      (do
        let vector ← vectorGrow null vector n
        let vector ← (if index.slt vector.size then vectorMoveTail vector index (index + n) else pure vector)
        g { vector with size := vector.size + n }) := by
  have small := stores_size stores
  have total : array.size.toNat + n.toNat ≤ 2 ^ 30 := Nat.le_trans (Nat.le_mul_of_pos_right _ stores.positive) bounded
  have required : (array.size + n).toNat ≤ 2 ^ 30 := by
    rw [BitVec.toNat_add]
    exact Nat.le_trans (Nat.mod_le _ _) total
  have held : (items.length + n.toNat) * array.itemSize.toNat ≤ 2 ^ 30 := by
    rw [← stores.size]
    exact bounded
  rw [BitVec.le_def] at inside
  refine together_bind (agree.grow (stores_capacity stores) required) fun array₁ vector₁ grown _ agree₁ => ?_
  obtain ⟨array₁', spare₁, grown', stores₁, _, sameSize, sameItemSize⟩ := stores.grow null n held
  cases grown.symm.trans grown'
  have same : index.slt vector₁.size = decide (index < array₁.size) := by
    rw [← agree₁.size, sameSize]
    exact slt_small (by omega) small
  rw [same]
  by_cases less : index < array₁.size
  · rw [if_pos less, decide_eq_true less, if_pos rfl]
    refine together_bind (agree₁.moveTail (stores_small stores₁) index (index + n)) fun array₂ vector₂ moved _ agree₂ => ?_
    obtain ⟨length, size, itemSize⟩ := length_moveTail moved
    exact rest array₂ vector₂ agree₂ (by rw [length]; exact stores_small stores₁) (size.trans sameSize)
      (itemSize.trans sameItemSize)
  · rw [if_neg less, decide_eq_false less, if_neg Bool.false_ne_true]
    exact rest array₁ vector₁ agree₁ (stores_small stores₁) sameSize sameItemSize

theorem alike_return {read read' : Except ArrayFault (List Byte)} (agree : Agree array vector)
    (same : read = read') :
    Together Alike (do return (array, ← read)) (do return (vector, ← read')) := by
  rw [same]
  exact together_bind together_refl fun _ _ _ _ equal => ⟨agree, equal⟩

theorem alike_put (agree : Agree array vector) (small : array.block.length < 2 ^ 31)
    (put : ArrayT → Except ArrayFault ArrayT) (put' : VectorT → Except ArrayFault VectorT)
    (runs : Agree array vector → Together Agree (put array) (put' vector))
    (length : ∀ array', put array = .ok array' → array'.block.length = array.block.length)
    (pointer bytes : BitVec 32 → BitVec 32) :
    Together Alike
      (do
        let array ← put array
        return (array, ← array.behind (pointer array.itemSize) (bytes array.itemSize)))
      (do
        let vector ← put' vector
        return (vector, ← vector.behind (pointer vector.itemSize) (bytes vector.itemSize))) := by
  refine together_bind (runs agree) fun array' vector' written _ agree' => alike_return agree' ?_
  rw [← agree'.itemSize]
  exact agree'.behind (by rw [length _ written]; exact small) _ _

theorem vectorInsert_eq (self : VectorT) (index : BitVec 32) (item : Option Item) :
    vectorInsert null self index item = (do
      let self ← vectorGrow null self 1
      let self ← (if index.slt self.size then vectorMoveTail self index (index + 1) else pure self)
      let self := { self with size := self.size + 1 }
      let self ← putGiven (vectorSet · index ·) item self
      return (self, index * self.itemSize)) := by
  cases item <;> rfl

theorem vectorInsertMany_eq (self : VectorT) (index : BitVec 32) (items : Option Item) (n : BitVec 32) :
    vectorInsertMany null self index items n = (do
      let self ← vectorGrow null self n
      let self ← (if index.slt self.size then vectorMoveTail self index (index + n) else pure self)
      let self := { self with size := self.size + n }
      let self ← putGiven (vectorSetMany · index · n) items self
      return (self, index * self.itemSize)) := by
  cases items <;> rfl

section Operations
variable (agree : Agree array vector) (stores : array.Stores items spare)
include agree stores

theorem alike_insert {index : BitVec 32} {given : Option Item} (inside : index ≤ array.size)
    (bounded : (array.size.toNat + 1) * array.itemSize.toNat ≤ 2 ^ 30) :
    Together Alike (array.perform null (.insert index given)) (vector.perform null (.insert index given)) := by
  have total : array.size.toNat + 1 ≤ 2 ^ 30 := Nat.le_trans (Nat.le_mul_of_pos_right _ stores.positive) bounded
  rw [ArrayT.perform, VectorT.perform, arrayInsert_eq, vectorInsert_eq, assert_ok (decide_eq_true inside), ok_bind]
  simp only [bind_assoc, pure_bind]
  refine agree.open stores (n := 1) inside bounded
    (f := fun array => do
      let array ← putGiven (arraySet · index ·) given array
      return (array, ← array.behind (index * array.itemSize) array.itemSize))
    (g := fun vector => do
      let vector ← putGiven (vectorSet · index ·) given vector
      return (vector, ← vector.behind (index * vector.itemSize) vector.itemSize))
    fun array' vector' agree' small size _ => ?_
  have agree₁ := agree'.withSize (array'.size + 1)
  rw [← agree'.size]
  cases given with
  | none => exact alike_put agree₁ small pure pure together_ok (fun _ same => by cases same; rfl) (index * ·) id
  | some item =>
    have asserted : index < array'.size + 1 := by
      rw [size]
      bv_omega
    exact alike_put agree₁ small (arraySet · index item) (vectorSet · index item) (·.set small asserted)
      (fun _ written => changed_length (set_ok asserted written)) (index * ·) id

theorem alike_insertMany {index n : BitVec 32} {given : Option (List Item)} (inside : index ≤ array.size)
    (bounded : (array.size.toNat + n.toNat) * array.itemSize.toNat ≤ 2 ^ 30) :
    Together Alike (array.perform null (.insertMany index given n)) (vector.perform null (.insertMany index given n)) := by
  have total : array.size.toNat + n.toNat ≤ 2 ^ 30 := Nat.le_trans (Nat.le_mul_of_pos_right _ stores.positive) bounded
  rw [ArrayT.perform, VectorT.perform, arrayInsertMany_eq, vectorInsertMany_eq, assert_ok (decide_eq_true inside),
    ok_bind]
  simp only [bind_assoc, pure_bind]
  refine agree.open stores inside bounded
    (f := fun array => do
      let array ← putGiven (arraySetMany · index · n) (given.map List.flatten) array
      return (array, ← array.behind (index * array.itemSize) (n * array.itemSize)))
    (g := fun vector => do
      let vector ← putGiven (vectorSetMany · index · n) (given.map List.flatten) vector
      return (vector, ← vector.behind (index * vector.itemSize) (n * vector.itemSize)))
    fun array' vector' agree' small size _ => ?_
  have agree₁ := agree'.withSize (array'.size + n)
  rw [← agree'.size]
  cases given with
  | none =>
    exact alike_put agree₁ small pure pure together_ok (fun _ same => by cases same; rfl) (index * ·) (n * ·)
  | some items =>
    have asserted : index + n ≤ array'.size + n := by
      rw [size]
      bv_omega
    exact alike_put agree₁ small (arraySetMany · index items.flatten n) (vectorSetMany · index items.flatten n)
      (·.setMany small asserted) (fun _ written => changed_length (setMany_ok asserted written)) (index * ·) (n * ·)

omit agree stores in
theorem alike_nothing {m : Except ArrayFault ArrayT} {m' : Except ArrayFault VectorT}
    (runs : Together Agree m m') :
    Together Alike (do return (← m, [])) (do return (← m', [])) :=
  together_bind runs fun _ _ _ _ agree => ⟨agree, rfl⟩

theorem alike_erase {index : BitVec 32} (inside : index < array.size) :
    Together Alike (array.perform null (.erase index)) (vector.perform null (.erase index)) := by
  have small := stores_size stores
  have low : index.toNat < 2 ^ 31 := Nat.lt_trans inside small
  have less : (array.size - 1).toNat < 2 ^ 31 := by bv_omega
  rw [ArrayT.perform, VectorT.perform, arrayErase, vectorErase, assert_ok (decide_eq_true inside), ok_bind, ← agree.size,
    slt_small low less]
  refine alike_nothing ?_
  by_cases before : index < array.size - 1
  · rw [if_pos before, decide_eq_true before, if_pos rfl]
    refine together_bind (agree.moveTail (stores_small stores) (index + 1) index) fun array' vector' _ _ agree' => ?_
    rw [← agree'.size]
    exact agree'.withSize (array'.size - 1)
  · rw [if_neg before, decide_eq_false before, if_neg Bool.false_ne_true, pure_bind, pure_bind, ← agree.size]
    exact agree.withSize (array.size - 1)

theorem alike_eraseRange {first last : BitVec 32} (order : first ≤ last) (inside : last ≤ array.size) :
    Together Alike (array.perform null (.eraseRange first last)) (vector.perform null (.eraseRange first last)) := by
  have small := stores_size stores
  have stop : first + (last - first) = last := by bv_omega
  rw [ArrayT.perform, VectorT.perform, arrayEraseRange, vectorEraseMany, assert_ok (decide_eq_true order), ok_bind,
    assert_ok (decide_eq_true inside), ok_bind, stop, ← agree.size]
  rw [BitVec.le_def] at inside
  rw [slt_small (by omega) small]
  refine alike_nothing ?_
  by_cases before : last < array.size
  · rw [if_pos before, decide_eq_true before, if_pos rfl]
    refine together_bind (agree.moveTail (stores_small stores) last first) fun array' vector' _ _ agree' => ?_
    rw [← agree'.size]
    exact agree'.withSize (array'.size - (last - first))
  · rw [if_neg before, decide_eq_false before, if_neg Bool.false_ne_true, pure_bind, pure_bind, ← agree.size]
    exact agree.withSize (array.size - (last - first))

theorem perform_alike {operation : ArrayOperation} (permitted : array.Permitted operation) :
    Together Alike (array.perform null operation) (vector.perform null operation) := by
  obtain ⟨asserted, bounded, provided⟩ := permitted
  have small := stores_small stores
  have capacity := stores_capacity stores
  have positive := stores.positive
  cases operation with
  | init itemSize =>
    have positive : 0 < itemSize := asserted
    rw [ArrayT.perform, VectorT.perform, arrayInit, assert_ok (decide_eq_true positive)]
    exact ⟨⟨rfl, rfl, rfl, rfl⟩, rfl⟩
  | reserve n =>
    have bound : n.toNat ≤ 2 ^ 30 := Nat.le_trans (Nat.le_mul_of_pos_right _ positive) bounded
    rw [ArrayT.perform, VectorT.perform, arrayReserve, vectorReserve, ← agree.capacity, sle_small (by omega) capacity]
    by_cases present : n ≤ array.capacity
    · rw [if_pos present, decide_eq_true present, if_pos rfl]
      exact ⟨agree, rfl⟩
    · rw [if_neg present, decide_eq_false present, if_neg Bool.false_ne_true]
      exact ⟨agree.reallocate n, rfl⟩
  | resize n =>
    have bound : n.toNat ≤ 2 ^ 30 := Nat.le_trans (Nat.le_mul_of_pos_right _ positive) bounded
    rw [ArrayT.perform, VectorT.perform, arrayResize, vectorResize, ← agree.capacity, slt_small capacity (by omega)]
    by_cases more : n > array.capacity
    · rw [if_pos more, decide_eq_true more, if_pos rfl]
      exact ⟨(agree.reallocate n).withSize n, rfl⟩
    · rw [if_neg more, decide_eq_false more, if_neg Bool.false_ne_true]
      exact ⟨agree.withSize n, rfl⟩
  | shrink =>
    rw [ArrayT.perform, VectorT.perform, arrayShrink, vectorShrink, ← agree.capacity, ← agree.size]
    split
    · exact ⟨agree.reallocate array.size, rfl⟩
    · exact ⟨agree, rfl⟩
  | get index =>
    have inside : index < array.size := asserted
    rw [ArrayT.perform, VectorT.perform, arrayGet, vectorGet, assert_ok (decide_eq_true inside), ← agree.itemSize]
    exact alike_return agree (agree.behind small (index * array.itemSize) array.itemSize)
  | getMany index n =>
    obtain ⟨first, range⟩ := asserted
    rw [ArrayT.perform, VectorT.perform, arrayGetMany, vectorGetMany, assert_ok (decide_eq_true first), ok_bind,
      assert_ok (decide_eq_true range), ok_bind, ← agree.block, ← agree.itemSize, read_address small]
    exact alike_return agree rfl
  | set index item => exact alike_nothing (agree.set small asserted)
  | setMany index given n => exact alike_nothing (agree.setMany small asserted)
  | insert index given => exact alike_insert agree stores asserted bounded
  | insertMany index given n => exact alike_insertMany agree stores asserted bounded
  | erase index => exact alike_erase agree stores asserted
  | eraseRange first last => exact alike_eraseRange agree stores asserted.1 asserted.2
  | add given =>
    rw [ArrayT.perform, VectorT.perform, arrayAdd, vectorAdd, ← agree.size]
    exact alike_insert agree stores (BitVec.le_refl _) bounded
  | addMany given n =>
    rw [ArrayT.perform, VectorT.perform, arrayAddMany, vectorAddMany, ← agree.size]
    exact alike_insertMany agree stores (BitVec.le_refl _) bounded
  | remove =>
    have inside : 0 < array.size := asserted
    rw [ArrayT.perform, VectorT.perform, arrayRemove, vectorRemove, assert_ok (decide_eq_true inside), ← agree.size]
    exact ⟨agree.withSize (array.size - 1), rfl⟩
  | removeMany n =>
    have inside : n ≤ array.size := asserted
    rw [ArrayT.perform, VectorT.perform, arrayRemoveMany, vectorRemoveMany, assert_ok (decide_eq_true inside), ← agree.size]
    exact ⟨agree.withSize (array.size - n), rfl⟩
  | clear => exact ⟨agree.withSize 0, rfl⟩

end Operations

theorem stores_setBlock (stores : array.Stores items spare) {block : List Byte}
    (length : block.length = array.block.length) :
    ∃ items' spare', (array.setBlock block).Stores items' spare' := by
  have all : block.length = array.capacity.toNat * array.itemSize.toNat := by
    rw [length, stores.block, Blocks.length_flatten stores.uniform, stores.capacity]
  obtain ⟨cells, count, uniform, same⟩ := Blocks.exists_items array.capacity.toNat block all
  have enough := stores.le
  have split := List.take_append_drop array.size.toNat cells
  refine ⟨cells.take array.size.toNat, cells.drop array.size.toNat, ?_⟩
  have stores' : ArrayT.Stores _ (cells.take array.size.toNat) (cells.drop array.size.toNat) := stores.update array.size
    (by rw [List.length_take, count, stores.size]; omega) (by rw [split, count, stores.capacity]) (by rw [split]; exact uniform)
  rw [split, same] at stores'
  exact stores'

/-- An operation that succeeds leaves an array behind, even where a range has wrapped around. -/
theorem perform_stores (stores : array.Stores items spare) {operation : ArrayOperation} (permitted : array.Permitted operation)
    {array' : ArrayT} {returned : List Byte} (run : array.perform null operation = .ok (array', returned)) :
    ∃ items' spare', array'.Stores items' spare' := by
  have regular (unwrapped : operation.Unwrapped) : ∃ items' spare', array'.Stores items' spare' := by
    obtain ⟨array₁, returned₁, items', spare', run', _, stores'⟩ := perform_steps null stores permitted unwrapped
    cases run.symm.trans run'
    exact ⟨items', spare', stores'⟩
  cases operation with
  | getMany index n =>
    rw [ArrayT.perform] at run
    cases read : arrayGetMany array index n with
    | error e =>
      rw [read] at run
      cases run
    | ok bytes =>
      rw [read] at run
      cases run
      exact ⟨items, spare, stores⟩
  | setMany index given n =>
    rw [ArrayT.perform] at run
    cases written : arraySetMany array index given.flatten n with
    | error e =>
      rw [written] at run
      cases run
    | ok array₁ =>
      rw [written] at run
      cases run
      obtain ⟨block, length, rfl⟩ := setMany_ok permitted.asserted written
      exact stores_setBlock stores length
  | _ => exact regular trivial

end Functions

/-! ### Sequences of operations -/

def runVector : List (Bool × ArrayOperation) → VectorT → Except ArrayFault (VectorT × List (List Byte))
  | [], self => .ok (self, [])
  | (null, operation) :: steps, self => do
    let (self, returned) ← self.perform null operation
    let (self, rest) ← runVector steps self
    return (self, returned :: rest)

/-- The same size, capacity and items, and the same results on the way. -/
def AlikeRuns (result : ArrayT × List (List Byte)) (result' : VectorT × List (List Byte)) : Prop :=
  Agree result.1 result'.1 ∧ result.2 = result'.2

theorem run_alike {steps : List (Bool × ArrayOperation)} {array : ArrayT} {vector : VectorT} {items spare : List Item}
    (agree : Agree array vector) (stores : array.Stores items spare) (permitted : PermittedRun steps array) :
    Stateful.Together AlikeRuns (runArray steps array) (runVector steps vector) := by
  induction steps generalizing array vector items spare with
  | nil => exact ⟨agree, rfl⟩
  | cons step steps ih =>
    obtain ⟨null, operation⟩ := step
    obtain ⟨first, later⟩ := permitted
    refine Stateful.together_bind (perform_alike agree stores first) fun (array', returned) (vector', returned') run _ alike => ?_
    obtain ⟨agree', rfl⟩ := alike
    obtain ⟨items', spare', stores'⟩ := perform_stores stores first run
    rw [run] at later
    refine Stateful.together_bind (ih agree' stores' later) fun (array'', rest) (vector'', rest') _ _ alike' => ?_
    obtain ⟨agree'', rfl⟩ := alike'
    exact ⟨agree'', rfl⟩

/-- A vector and an array that are given the same operations agree after each of them: they have the
same size, capacity and bytes. An operation on a range that wraps around may be undefined, and then
it is for both. -/
theorem vector_agrees {itemSize : BitVec 32} {array : ArrayT} (started : arrayInit itemSize = .ok array)
    (steps : List (Bool × ArrayOperation)) (permitted : PermittedRun steps array) :
    Stateful.Together AlikeRuns (runArray steps array) (runVector steps (vectorInit itemSize)) ∧
      ((∀ step ∈ steps, step.2.Unwrapped) → ∃ array' outputs vector', runArray steps array = .ok (array', outputs) ∧
        runVector steps (vectorInit itemSize) = .ok (vector', outputs) ∧ Agree array' vector') := by
  have empty := arrayInit_stores started
  have agree : Agree array (vectorInit itemSize) := by
    unfold arrayInit assert at started
    split at started <;> cases started
    exact ⟨rfl, rfl, rfl, rfl⟩
  have alike := run_alike agree empty permitted
  refine ⟨alike, fun unwrapped => ?_⟩
  obtain ⟨array', outputs, items', spare', run, _, _⟩ := run_stores empty permitted unwrapped
  rw [run] at alike
  cases run' : runVector steps (vectorInit itemSize) with
  | error e =>
    rw [run'] at alike
    cases alike
  | ok result =>
    rw [run'] at alike
    obtain ⟨agree', rfl⟩ := alike
    exact ⟨array', _, result.1, run, rfl, agree'⟩

/-- Two items of one byte are added and removed, and the memory is given back. -/
theorem vector_agrees_three :
    let steps : List (Bool × ArrayOperation) :=
      [(true, .addMany (some [[some 1], [some 2]]) 2), (true, .removeMany 2), (true, .shrink)]
    Stateful.Together AlikeRuns (runArray steps ⟨0, 0, 1, none⟩) (runVector steps (vectorInit 1)) ∧
      ((∀ step ∈ steps, step.2.Unwrapped) → ∃ array' outputs vector', runArray steps ⟨0, 0, 1, none⟩ = .ok (array', outputs) ∧
        runVector steps (vectorInit 1) = .ok (vector', outputs) ∧ Agree array' vector') := by
  intro steps
  refine vector_agrees (rfl : arrayInit 1 = _) steps ?_
  exact ⟨⟨trivial, Nat.le_of_ble_eq_true rfl, rfl, Blocks.uniform_cons.mpr ⟨rfl, Blocks.uniform_cons.mpr ⟨rfl, Blocks.uniform_nil⟩⟩⟩,
    ⟨Nat.le_refl 2, trivial, trivial⟩, ⟨trivial, trivial, trivial⟩, trivial⟩

end Low
