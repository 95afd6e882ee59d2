import LowCompiler.Ast.Syntax
import Mathlib.Algebra.Group.Nat.Defs

/-!
# Slices at run time

What the code built by `slice_slice`, `slice_array`, `codegen_make_builtin_expr` and
`codegen_index_access_expr` computes. Integers are 64-bit, and a pointer is the
number of elements from the start of the allocation.
-/

namespace Low

structure Slice where
  ptr : BitVec 64
  len : BitVec 64
  cap : BitVec 64
  base : BitVec 64
  deriving DecidableEq, Repr

structure SliceBounds where
  start : Option (BitVec 64)
  stop : Option (BitVec 64)
  kind : IndexSliceKind
  deriving DecidableEq, Repr

namespace SliceBounds

def first (bounds : SliceBounds) : BitVec 64 := bounds.start.getD 0

end SliceBounds

/-- `slice_slice`. For `s[:]` the code loads from the slice, which is no pointer. -/
def sliceSlice (target : Slice) (bounds : SliceBounds) : Option Slice :=
  if bounds.kind = .COPY then none
  else
    let start := bounds.start.getD 0
    let stop := bounds.stop.getD 0
    let ncap := target.cap - start
    let nlen := stop - start
    some { ptr := target.ptr + start, len := if (0 : BitVec 64).slt nlen then nlen else 0, cap := ncap, base := target.base }

/-- `slice_array`, with the length that the type of the target holds. -/
def sliceArray (length : BitVec 32) (bounds : SliceBounds) : Slice :=
  let arrayLength := length.setWidth 64
  let start := bounds.start.getD 0
  let stop := bounds.stop.getD arrayLength
  { ptr := start, len := stop - start, cap := arrayLength - start, base := 0 }

def makeSlice (count : BitVec 64) : Slice :=
  { ptr := 0, len := 0, cap := count, base := 0 }

/-- The address of `slice[k]`, or none where the trap is executed. -/
def indexSlice (slice : Slice) (k : BitVec 64) : Option (BitVec 64) :=
  let oob := k.ult slice.cap
  if !oob then none else some (slice.ptr + k)

/-! ### Chains of slice expressions -/

/-- Where a slice comes from. The type of an array may be given by its name; the code then reads the length
of that type, which is zero. -/
inductive SliceOrigin where
  | make (count : BitVec 64)
  | array (length : BitVec 32) (named : Bool) (bounds : SliceBounds)
  deriving DecidableEq, Repr

namespace SliceOrigin

def slice : SliceOrigin → Slice
  | .make count => makeSlice count
  | .array length named bounds => sliceArray (if named then 0 else length) bounds

/-- The number of elements in the block. What `LLVMBuildArrayMalloc` makes of a count is up to LLVM. -/
def allocated (arrayMalloc : BitVec 64 → Nat) : SliceOrigin → Nat
  | .make count => arrayMalloc count
  | .array length _ _ => length.toNat

def capacity : SliceOrigin → BitVec 64
  | .make count => count
  | .array length named _ => if named then 0 else length.setWidth 64

def start : SliceOrigin → BitVec 64
  | .make _ => 0
  | .array _ _ bounds => bounds.first

end SliceOrigin

/-- A slice of an allocation, sliced any number of times. -/
def sliceChain (origin : SliceOrigin) (chain : List SliceBounds) : Option Slice :=
  chain.foldlM sliceSlice origin.slice

def totalStart (origin : SliceOrigin) (chain : List SliceBounds) : BitVec 64 :=
  chain.foldl (fun total bounds => total + bounds.first) origin.start

/-- One more slice expression. -/
theorem sliceChain_snoc {origin : SliceOrigin} {chain : List SliceBounds} {slice sliced : Slice} {bounds : SliceBounds}
    (made : sliceChain origin chain = some slice) (next : sliceSlice slice bounds = some sliced) :
    sliceChain origin (chain ++ [bounds]) = some sliced := by
  rw [sliceChain, List.foldlM_append, ← sliceChain, made]
  simpa using next

theorem sliceSlice_ok {target slice : Slice} {bounds : SliceBounds}
    (sliced : sliceSlice target bounds = some slice) :
    slice.ptr = target.ptr + bounds.first ∧ slice.cap = target.cap - bounds.first := by
  unfold sliceSlice at sliced
  split at sliced
  · cases sliced
  · cases sliced
    exact ⟨rfl, rfl⟩

/-- Pointer and capacity depend on the sum of the start indices only. -/
theorem sliceChain_ok {origin : SliceOrigin} {chain : List SliceBounds} {slice : Slice}
    (sliced : sliceChain origin chain = some slice) :
    slice.ptr = totalStart origin chain ∧ slice.cap = origin.capacity - totalStart origin chain := by
  have run (chain : List SliceBounds) : ∀ (target : Slice) (total : BitVec 64), target.ptr = total →
      target.cap = origin.capacity - total → ∀ slice, chain.foldlM sliceSlice target = some slice →
      slice.ptr = chain.foldl (fun total bounds => total + bounds.first) total ∧
        slice.cap = origin.capacity - chain.foldl (fun total bounds => total + bounds.first) total := by
    induction chain with
    | nil =>
      intro target total ptr cap slice same
      cases same
      exact ⟨ptr, cap⟩
    | cons bounds chain ih =>
      intro target total ptr cap slice sliced
      obtain ⟨next, one, rest⟩ := Option.bind_eq_some_iff.mp sliced
      obtain ⟨ptr', cap'⟩ := sliceSlice_ok one
      refine ih next (total + bounds.first) (by rw [ptr', ptr]) ?_ slice rest
      rw [cap', cap]
      bv_omega
  refine run chain origin.slice origin.start ?_ ?_ slice sliced
  · cases origin <;> rfl
  · cases origin with
    | make count => simp [SliceOrigin.slice, makeSlice, SliceOrigin.capacity, SliceOrigin.start]
    | array length named bounds =>
      cases named <;> simp [SliceOrigin.slice, sliceArray, SliceOrigin.capacity, SliceOrigin.start, SliceBounds.first]

theorem indexSlice_eq_some {slice : Slice} {k place : BitVec 64} :
    indexSlice slice k = some place ↔ k < slice.cap ∧ slice.ptr + k = place := by
  rw [← BitVec.ult_iff_lt]
  cases inside : k.ult slice.cap <;> simp [indexSlice, inside]

/-- The element before the end of the address space is out of any allocation. -/
theorem access_outside {ptr cap total start : BitVec 64} {allocated : Nat} (small : allocated < 2 ^ 64)
    (ptrIs : ptr = total) (capIs : cap = start - total) (apart : total ≠ start)
    (outside : start < total ∨ allocated < start.toNat) :
    ∃ k, k < cap ∧ ¬(ptr + k).toNat < allocated := by
  subst ptrIs capIs
  by_cases before : ptr < start
  · have beyond : allocated < start.toNat := outside.resolve_left (by bv_omega)
    refine ⟨start - 1 - ptr, by bv_omega, ?_⟩
    have place : ptr + (start - 1 - ptr) = start - 1 := by bv_omega
    rw [place]
    bv_omega
  · refine ⟨18446744073709551615 - ptr, by bv_omega, ?_⟩
    have place : ptr + (18446744073709551615 - ptr) = 18446744073709551615 := by bv_omega
    rw [place]
    bv_omega

section Accesses
variable (arrayMalloc : BitVec 64 → Nat) {origin : SliceOrigin} {chain : List SliceBounds} {slice : Slice}

/-- Every access that does not trap is inside of the allocation. -/
def AccessSafe (origin : SliceOrigin) (slice : Slice) : Prop :=
  ∀ k place, indexSlice slice k = some place → place.toNat < origin.allocated arrayMalloc

/-- The start indices come to the capacity, or to less of a capacity that was allocated. -/
def StartsInside (origin : SliceOrigin) (chain : List SliceBounds) : Prop :=
  totalStart origin chain = origin.capacity ∨
    totalStart origin chain < origin.capacity ∧ origin.capacity.toNat ≤ origin.allocated arrayMalloc

variable {arrayMalloc}

theorem allocated_small (small : ∀ count, arrayMalloc count < 2 ^ 64) (origin : SliceOrigin) :
    origin.allocated arrayMalloc < 2 ^ 64 := by
  cases origin with
  | make count => exact small count
  | array length named bounds =>
    have := length.isLt
    simp only [SliceOrigin.allocated]
    omega

theorem StartsInside.safe (inside : StartsInside arrayMalloc origin chain) (sliced : sliceChain origin chain = some slice) :
    AccessSafe arrayMalloc origin slice := by
  obtain ⟨ptr, cap⟩ := sliceChain_ok sliced
  intro k place access
  obtain ⟨passes, rfl⟩ := indexSlice_eq_some.mp access
  rw [cap] at passes
  rw [ptr]
  rcases inside with same | ⟨before, le⟩
  · rw [same] at passes
    bv_omega
  · refine Nat.lt_of_lt_of_le ?_ le
    bv_omega

/-- Accesses through a slice are safe just when its start indices are inside, if no block takes all of
the address space. -/
theorem accessSafe_iff (arrayMalloc : BitVec 64 → Nat) (small : ∀ count, arrayMalloc count < 2 ^ 64)
    (origin : SliceOrigin) (chain : List SliceBounds) (slice : Slice) (sliced : sliceChain origin chain = some slice) :
    AccessSafe arrayMalloc origin slice ↔ StartsInside arrayMalloc origin chain := by
  refine ⟨fun safe => ?_, fun inside => inside.safe sliced⟩
  obtain ⟨ptr, cap⟩ := sliceChain_ok sliced
  refine Classical.byContradiction fun outside => ?_
  obtain ⟨apart, outside⟩ := not_or.mp outside
  have beyond : origin.capacity < totalStart origin chain ∨ origin.allocated arrayMalloc < origin.capacity.toNat := by
    by_cases before : totalStart origin chain < origin.capacity
    · exact .inr (Nat.lt_of_not_le fun le => outside ⟨before, le⟩)
    · exact .inl (by bv_omega)
  obtain ⟨k, passes, escapes⟩ := access_outside (allocated_small small origin) ptr cap apart beyond
  exact escapes (safe k _ (indexSlice_eq_some.mpr ⟨passes, rfl⟩))

end Accesses

/-- The elements of eight bytes that LLVM allocates for a count: their size is computed in 32 bits. -/
def arrayMalloc64 (count : BitVec 64) : Nat := (count.setWidth 32 * 8).toNat / 8

theorem arrayMalloc64_small (count : BitVec 64) : arrayMalloc64 count < 2 ^ 64 := by
  have size := (count.setWidth 32 * 8).isLt
  rw [arrayMalloc64]
  omega

/-- `make([]int64, 4)[1:3]`. -/
theorem slice_inside :
    ∃ slice, sliceChain (.make 4) [⟨some 1, some 3, .RANGE⟩] = some slice ∧ indexSlice slice 2 = some 3 ∧
      AccessSafe arrayMalloc64 (.make 4) slice := by
  refine ⟨_, rfl, by decide, ?_⟩
  refine (accessSafe_iff arrayMalloc64 arrayMalloc64_small _ [⟨some 1, some 3, .RANGE⟩] _ rfl).mpr (.inr ?_)
  decide

/-- `make([]int64, 4)[-1:]`: the capacity is five, and the first element lies before the allocation. -/
theorem slice_from_minus_one :
    let chain : List SliceBounds := [⟨some (-1), none, .POSTFIX⟩]
    ∃ slice, sliceChain (.make 4) chain = some slice ∧ indexSlice slice 0 = some (-1) ∧ slice.cap = 5 ∧
      ¬AccessSafe arrayMalloc64 (.make 4) slice := by
  refine ⟨_, rfl, by decide, by decide, fun safe => ?_⟩
  have inside := safe 0 (-1) (by decide)
  revert inside
  decide

end Low
