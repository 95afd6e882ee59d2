import LowCompiler.Blocks

/-!
# Dynamic arrays

The functions of `array.c`. `unsigned` is 32 bits wide, and a pointer into the items is
the number of bytes from their start. Memory that nothing was written to has bytes
without a value.
-/

namespace Low

/-- A byte of memory, or none while it is indeterminate. -/
abbrev Byte := Option UInt8

structure ArrayT where
  size : BitVec 32
  capacity : BitVec 32
  itemSize : BitVec 32
  items : Option (List Byte)
  deriving DecidableEq, Repr

/-- How an operation can fail: a violated assertion, an access outside of a block, or a loop without end. -/
inductive ArrayFault where
  | assertion
  | undefined
  | diverges
  deriving DecidableEq, Repr

namespace ArrayT

/-- The bytes behind `items`; none behind a null pointer. -/
def block (self : ArrayT) : List Byte := self.items.getD []

def setBlock (self : ArrayT) (block : List Byte) : ArrayT :=
  { self with items := self.items.map fun _ => block }

end ArrayT

def assert (cond : Bool) : Except ArrayFault Unit := if cond then .ok () else .error .assertion

def defined {α : Type} : Option α → Except ArrayFault α
  | some a => .ok a
  | none => .error .undefined

/-- The first bytes stay. For zero bytes, C leaves open whether the result is null. -/
def realloc (null : Bool) (block : List Byte) (bytes : Nat) : Option (List Byte) :=
  if bytes = 0 ∧ null then none
  else some (block.take bytes ++ List.replicate (bytes - block.length) none)

def malloc (null : Bool) (bytes : Nat) : Option (List Byte) := realloc null [] bytes

/-- The bytes that `memcpy` reads from a buffer of the caller. -/
def fromBuffer (buffer : List Byte) (bytes : BitVec 32) : Except ArrayFault (List Byte) :=
  defined (Blocks.read buffer 0 bytes.toNat)

section Allocation
variable (null : Bool)

def arrayReallocate (self : ArrayT) (capacity : BitVec 32) : ArrayT :=
  let bytes := capacity * self.itemSize
  let items := match self.items with
    | some block => realloc null block bytes.toNat
    | none => malloc null bytes.toNat
  { self with items, capacity }

/-- `while (cap < req) cap *= 2`. A capacity doubled 32 times is zero, and the loop never ends. -/
def doubled (req : BitVec 32) : Nat → BitVec 32 → Option (BitVec 32)
  | 0, _ => none
  | rounds + 1, cap => if cap < req then doubled req rounds (cap * 2) else some cap

def arrayGrow (self : ArrayT) (additional : BitVec 32) : Except ArrayFault ArrayT :=
  let req := self.size + additional
  if self.capacity < req then
    let cap := if self.capacity = 0 then 1 else self.capacity
    match doubled req 33 cap with
    | some cap => .ok (arrayReallocate null self cap)
    | none => .error .diverges
  else .ok self

def arrayMoveTail (self : ArrayT) (source target : BitVec 32) : Except ArrayFault ArrayT := do
  let block ← defined (Blocks.move self.block (target * self.itemSize).toNat (source * self.itemSize).toNat
    ((self.size - source) * self.itemSize).toNat)
  return self.setBlock block

def arrayInit (itemSize : BitVec 32) : Except ArrayFault ArrayT := do
  assert (0 < itemSize)
  return { itemSize, size := 0, capacity := 0, items := none }

def arrayReserve (self : ArrayT) (capacity : BitVec 32) : ArrayT :=
  if capacity ≤ self.capacity then self else arrayReallocate null self capacity

def arrayResize (self : ArrayT) (items : BitVec 32) : ArrayT :=
  let self := if items > self.capacity then arrayReallocate null self items else self
  { self with size := items }

def arrayShrink (self : ArrayT) : ArrayT :=
  if self.size ≠ self.capacity then arrayReallocate null self self.size else self

def arrayGet (self : ArrayT) (index : BitVec 32) : Except ArrayFault (BitVec 32) := do
  assert (index < self.size)
  return index * self.itemSize

def arrayGetMany (self : ArrayT) (index numItems : BitVec 32) : Except ArrayFault (List Byte) := do
  assert (index < self.size)
  assert (index + numItems ≤ self.size)
  defined (Blocks.read self.block (index * self.itemSize).toNat (numItems * self.itemSize).toNat)

def arraySet (self : ArrayT) (index : BitVec 32) (item : List Byte) : Except ArrayFault ArrayT := do
  assert (index < self.size)
  let bytes ← fromBuffer item self.itemSize
  let block ← defined (Blocks.write self.block (index * self.itemSize).toNat bytes)
  return self.setBlock block

def arraySetMany (self : ArrayT) (index : BitVec 32) (items : List Byte) (numItems : BitVec 32) :
    Except ArrayFault ArrayT := do
  assert (index + numItems ≤ self.size)
  let bytes ← fromBuffer items (numItems * self.itemSize)
  let block ← defined (Blocks.write self.block (index * self.itemSize).toNat bytes)
  return self.setBlock block

def arrayInsert (self : ArrayT) (index : BitVec 32) (item : Option (List Byte)) :
    Except ArrayFault (ArrayT × BitVec 32) := do
  assert (index ≤ self.size)
  let self ← arrayGrow null self 1
  let self ← (if index < self.size then arrayMoveTail self index (index + 1) else pure self)
  let self := { self with size := self.size + 1 }
  let self ← (match item with
    | some item => arraySet self index item
    | none => pure self)
  return (self, index * self.itemSize)

def arrayInsertMany (self : ArrayT) (index : BitVec 32) (items : Option (List Byte)) (numItems : BitVec 32) :
    Except ArrayFault (ArrayT × BitVec 32) := do
  assert (index ≤ self.size)
  let self ← arrayGrow null self numItems
  let self ← (if index < self.size then arrayMoveTail self index (index + numItems) else pure self)
  let self := { self with size := self.size + numItems }
  let self ← (match items with
    | some items => arraySetMany self index items numItems
    | none => pure self)
  return (self, index * self.itemSize)

def arrayErase (self : ArrayT) (index : BitVec 32) : Except ArrayFault ArrayT := do
  assert (index < self.size)
  let self ← (if index < self.size - 1 then arrayMoveTail self (index + 1) index else pure self)
  return { self with size := self.size - 1 }

def arrayEraseRange (self : ArrayT) (first last : BitVec 32) : Except ArrayFault ArrayT := do
  assert (first ≤ last)
  assert (last ≤ self.size)
  let self ← (if last < self.size then arrayMoveTail self last first else pure self)
  return { self with size := self.size - (last - first) }

def arrayAdd (self : ArrayT) (item : Option (List Byte)) : Except ArrayFault (ArrayT × BitVec 32) :=
  arrayInsert null self self.size item

def arrayAddMany (self : ArrayT) (items : Option (List Byte)) (numItems : BitVec 32) :
    Except ArrayFault (ArrayT × BitVec 32) :=
  arrayInsertMany null self self.size items numItems

def arrayRemove (self : ArrayT) : Except ArrayFault ArrayT := do
  assert (self.size > 0)
  return { self with size := self.size - 1 }

def arrayRemoveMany (self : ArrayT) (numItems : BitVec 32) : Except ArrayFault ArrayT := do
  assert (numItems ≤ self.size)
  return { self with size := self.size - numItems }

def arrayClear (self : ArrayT) : ArrayT := { self with size := 0 }

end Allocation

end Low
