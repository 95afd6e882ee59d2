import LowCompiler.Codegen.Slices
import LowCompiler.Memory

/-!
# Strings of the Low library

`copy`, `concat` and `append` of `lib/string.low`, run on a memory of bytes. A string is
a slice whose pointer is the address of its first byte; slice expressions, indices and
`make` are those of the code generator. A trap ends a run without a result.
-/

namespace Low

abbrev Bytes := BitVec 64 → UInt8

/-- The loop of `codegen_array_new`: from the counter down to zero, both included. -/
def clearDown (memory : Bytes) (pointer : BitVec 64) : Nat → Bytes
  | 0 => Memory.store memory (pointer + BitVec.ofNat 64 0) 0
  | cntr + 1 => clearDown (Memory.store memory (pointer + BitVec.ofNat 64 (cntr + 1)) 0) pointer cntr

/-- `make(string, count)`, where the allocation is at `fresh`. -/
def makeString (fresh : BitVec 64) (memory : Bytes) (count : BitVec 64) : Slice × Bytes :=
  ({ ptr := fresh, len := 0, cap := count, base := fresh },
    if (0 : BitVec 64).sle count then clearDown memory fresh count.toNat else memory)

/-- `for i = 0; i < len(src); ++i { dst[i] = src[i] }`. -/
def copyLoop (dst src : Slice) : Nat → BitVec 64 → Bytes → Option Bytes
  | 0, _, _ => none
  | rounds + 1, i, memory =>
    if i.slt src.len then do
      let place ← indexSlice dst i
      let source ← indexSlice src i
      copyLoop dst src rounds (i + 1) (Memory.store memory place (memory source))
    else some memory

def copy (dst src : Slice) (memory : Bytes) : Option Bytes := copyLoop dst src (src.len.toNat + 1) 0 memory

def Slice.before (slice : Slice) (stop : BitVec 64) : Option Slice :=
  sliceSlice slice ⟨none, some stop, .PREFIX⟩

def Slice.after (slice : Slice) (start : BitVec 64) : Option Slice :=
  sliceSlice slice ⟨some start, none, .POSTFIX⟩

/-- What `concat` and `append` do with a new buffer: both strings are copied to it, and a zero is
put behind them. -/
def fillBuffer (buffer a b : Slice) (newLength : BitVec 64) (memory : Bytes) : Option (Slice × Bytes) := do
  let memory ← copy (← buffer.before a.len) a memory
  let memory ← copy (← buffer.after a.len) b memory
  let place ← indexSlice buffer newLength
  return (← buffer.before newLength, Memory.store memory place 0)

def concat (fresh : BitVec 64) (a b : Slice) (memory : Bytes) : Option (Slice × Bytes) :=
  let newLength := a.len + b.len
  let (result, memory) := makeString fresh memory (newLength + 1)
  fillBuffer result a b newLength memory

def append (fresh : BitVec 64) (dst a : Slice) (memory : Bytes) : Option (Slice × Bytes) :=
  let newLength := dst.len + a.len
  if dst.cap.slt (newLength + 1) then
    let (buffer, memory) := makeString fresh memory (newLength + 1)
    fillBuffer buffer dst a newLength memory
  else do
    let memory ← copy (← dst.after dst.len) a memory
    return (← dst.before newLength, memory)

/-- `cap(str) >= len(str)+1`, and `str[len(str)] == 0`. -/
structure ValidString (memory : Bytes) (string : Slice) : Prop where
  length : 0 ≤ string.len.toInt
  capacity : string.len.toInt + 1 ≤ string.cap.toInt
  terminated : memory (string.ptr + string.len) = 0

def byteAt (memory : Bytes) (slice : Slice) (i : Nat) : UInt8 := memory (slice.ptr + BitVec.ofNat 64 i)

/-- A string that holds the bytes of one string and then those of another. -/
structure Joined (memory : Bytes) (a b : Slice) (result : Slice) (memory' : Bytes) : Prop where
  string : ValidString memory' result
  length : result.len.toNat = a.len.toNat + b.len.toNat
  first : ∀ i < a.len.toNat, byteAt memory' result i = byteAt memory a i
  second : ∀ i < b.len.toNat, byteAt memory' result (a.len.toNat + i) = byteAt memory b i

/-- An allocation that holds no byte of a string. -/
def Fresh (fresh : BitVec 64) (count : Nat) (string : Slice) : Prop :=
  ∀ i < count, ∀ j < string.cap.toNat, fresh + BitVec.ofNat 64 i ≠ string.ptr + BitVec.ofNat 64 j

instance decidableFresh (fresh : BitVec 64) (count : Nat) (string : Slice) : Decidable (Fresh fresh count string) :=
  inferInstanceAs (Decidable (∀ i < count, ∀ j < string.cap.toNat, fresh + BitVec.ofNat 64 i ≠ string.ptr + BitVec.ofNat 64 j))

/-- The byte behind an allocation, which `make` clears too, is no byte of the string other than zero. -/
def Unhit (memory : Bytes) (fresh : BitVec 64) (count : Nat) (string : Slice) : Prop :=
  ∀ i < string.len.toNat, fresh + BitVec.ofNat 64 count = string.ptr + BitVec.ofNat 64 i → byteAt memory string i = 0

/-! ### The parts -/

theorem clearDown_zero {memory : Bytes} (pointer : BitVec 64) (n : Nat) {x : BitVec 64} (zero : memory x = 0) :
    clearDown memory pointer n x = 0 := by
  have stored (cntr : BitVec 64) : Memory.store memory cntr 0 x = 0 := by
    by_cases same : x = cntr
    · rw [same, Memory.store_same]
    · rw [Memory.store_other _ _ same, zero]
  induction n generalizing memory with
  | zero => exact stored _
  | succ n ih =>
    refine ih (stored _) fun cntr => ?_
    by_cases same : x = cntr
    · rw [same, Memory.store_same]
    · rw [Memory.store_other _ _ same, stored]

theorem clearDown_inside (memory : Bytes) (pointer : BitVec 64) {n i : Nat} (inside : i ≤ n) :
    clearDown memory pointer n (pointer + BitVec.ofNat 64 i) = 0 := by
  induction n generalizing memory with
  | zero =>
    obtain rfl : i = 0 := by omega
    exact Memory.store_same _ _ _
  | succ n ih =>
    by_cases last : i = n + 1
    · rw [last]
      exact clearDown_zero pointer n (Memory.store_same _ _ _)
    · exact ih _ (by omega)

theorem clearDown_outside (memory : Bytes) (pointer : BitVec 64) {n : Nat} {x : BitVec 64}
    (outside : ∀ i ≤ n, x ≠ pointer + BitVec.ofNat 64 i) : clearDown memory pointer n x = memory x := by
  induction n generalizing memory with
  | zero => exact Memory.store_other _ _ (outside 0 (Nat.le_refl 0))
  | succ n ih =>
    rw [clearDown, ih _ fun i inside => outside i (Nat.le_succ_of_le inside)]
    exact Memory.store_other _ _ (outside (n + 1) (Nat.le_refl _))

theorem toInt_small {x : BitVec 64} (small : x.toNat < 2 ^ 63) : x.toInt = x.toNat :=
  BitVec.toInt_eq_toNat_of_lt (by omega)

theorem toNat_small {x : BitVec 64} (positive : 0 ≤ x.toInt) : x.toNat < 2 ^ 63 := by
  rw [BitVec.toInt_eq_toNat_cond] at positive
  split at positive <;> omega

theorem slt_iff {x y : BitVec 64} (hx : x.toNat < 2 ^ 63) (hy : y.toNat < 2 ^ 63) :
    x.slt y = decide (x.toNat < y.toNat) := by
  rw [BitVec.slt, toInt_small hx, toInt_small hy]
  simp

theorem copyLoop_copied {dst src : Slice} {memory : Bytes} (positive : 0 ≤ src.len.toInt)
    (room : src.len.toNat ≤ dst.cap.toNat) (held : src.len.toNat ≤ src.cap.toNat) (rounds k : Nat)
    (start : k ≤ src.len.toNat) (enough : src.len.toNat < rounds + k) :
    copyLoop dst src rounds (BitVec.ofNat 64 k) (Memory.copied memory dst.ptr src.ptr k) =
      some (Memory.copied memory dst.ptr src.ptr src.len.toNat) := by
  have small := toNat_small positive
  have value : (BitVec.ofNat 64 k).toNat = k := Nat.mod_eq_of_lt (by omega)
  induction rounds generalizing k with
  | zero => omega
  | succ rounds ih =>
    rw [copyLoop, slt_iff (by omega) small, value]
    by_cases more : k < src.len.toNat
    · have place : indexSlice dst (BitVec.ofNat 64 k) = some (dst.ptr + BitVec.ofNat 64 k) := by
        rw [indexSlice, BitVec.ult, value, decide_eq_true (by omega)]
        rfl
      have source : indexSlice src (BitVec.ofNat 64 k) = some (src.ptr + BitVec.ofNat 64 k) := by
        rw [indexSlice, BitVec.ult, value, decide_eq_true (by omega)]
        rfl
      have next : BitVec.ofNat 64 k + 1 = BitVec.ofNat 64 (k + 1) := (BitVec.ofNat_add k 1).symm
      rw [decide_eq_true more, if_pos rfl, place, source, next]
      exact ih (k + 1) more (by omega) (Nat.mod_eq_of_lt (by omega))
    · obtain rfl : k = src.len.toNat := by omega
      rw [decide_eq_false more, if_neg Bool.false_ne_true]

theorem copy_copied {dst src : Slice} (memory : Bytes) (positive : 0 ≤ src.len.toInt)
    (room : src.len.toNat ≤ dst.cap.toNat) (held : src.len.toNat ≤ src.cap.toNat) :
    copy dst src memory = some (Memory.copied memory dst.ptr src.ptr src.len.toNat) :=
  copyLoop_copied positive room held _ 0 (Nat.zero_le _) (Nat.lt_succ_self _)

theorem before_eq (slice : Slice) {stop : BitVec 64} (positive : 0 ≤ stop.toInt) :
    slice.before stop = some { slice with len := stop } := by
  have small := toNat_small positive
  have whole : stop - 0 = stop := by bv_omega
  have ptr : slice.ptr + 0 = slice.ptr := by bv_omega
  have cap : slice.cap - 0 = slice.cap := by bv_omega
  simp only [Slice.before, sliceSlice, reduceCtorEq, if_false, Option.getD_none, Option.getD_some, whole, ptr, cap,
    slt_iff (by decide : (0 : BitVec 64).toNat < 2 ^ 63) small]
  by_cases zero : stop = 0
  · subst zero
    rfl
  · have more : (0 : BitVec 64).toNat < stop.toNat := by bv_omega
    rw [decide_eq_true more, if_pos rfl]

theorem after_ok (slice : Slice) (start : BitVec 64) :
    ∃ len, slice.after start = some { ptr := slice.ptr + start, len, cap := slice.cap - start, base := slice.base } :=
  ⟨_, rfl⟩

theorem offset_add (p x : BitVec 64) (i : Nat) :
    p + x + BitVec.ofNat 64 i = p + BitVec.ofNat 64 (x.toNat + i) := by
  rw [BitVec.ofNat_add, BitVec.ofNat_toNat, BitVec.setWidth_eq, BitVec.add_assoc]

theorem offset_self (p x : BitVec 64) : p + x = p + BitVec.ofNat 64 x.toNat := by
  rw [BitVec.ofNat_toNat, BitVec.setWidth_eq]

theorem ValidString.small {memory : Bytes} {string : Slice} (holds : ValidString memory string) :
    string.len.toNat < 2 ^ 63 ∧ string.len.toNat + 1 ≤ string.cap.toNat ∧ string.cap.toNat < 2 ^ 63 := by
  have length := toNat_small holds.length
  have positive := holds.length
  have capacity := holds.capacity
  have cap := toNat_small (x := string.cap) (by omega)
  rw [toInt_small length, toInt_small cap] at capacity
  exact ⟨length, by omega, cap⟩

section Buffer
variable {memory : Bytes} {a b : Slice} (first : ValidString memory a) (second : ValidString memory b)

/-- The lengths add up to that of a string. -/
def LengthsFit (a b : Slice) : Prop := a.len.toNat + b.len.toNat + 1 < 2 ^ 63

theorem newLength_toNat (fits : LengthsFit a b) : (a.len + b.len).toNat = a.len.toNat + b.len.toNat := by
  unfold LengthsFit at fits
  rw [BitVec.toNat_add, Nat.mod_eq_of_lt (by omega)]

include first second

theorem fillBuffer_ok (fits : LengthsFit a b) (buffer : Slice) (room : buffer.cap.toNat = a.len.toNat + b.len.toNat + 1)
    (apart : Fresh buffer.ptr (a.len.toNat + b.len.toNat + 1) a) (apart' : Fresh buffer.ptr (a.len.toNat + b.len.toNat + 1) b)
    (cleared : Bytes) :
    ∃ memory', fillBuffer buffer a b (a.len + b.len) cleared = some ({ buffer with len := a.len + b.len }, memory') ∧
      memory' (buffer.ptr + (a.len + b.len)) = 0 ∧
      (∀ i < a.len.toNat, memory' (buffer.ptr + BitVec.ofNat 64 i) = byteAt cleared a i) ∧
      ∀ i < b.len.toNat, memory' (buffer.ptr + BitVec.ofNat 64 (a.len.toNat + i)) = byteAt cleared b i := by
  have total := newLength_toNat fits
  unfold LengthsFit at fits
  obtain ⟨_, roomA, _⟩ := first.small
  obtain ⟨_, roomB, _⟩ := second.small
  have positive : 0 ≤ (a.len + b.len).toInt := by
    rw [toInt_small (by omega)]
    omega
  have rest : (buffer.cap - a.len).toNat = b.len.toNat + 1 := by
    rw [BitVec.toNat_sub_of_le (by rw [BitVec.le_def]; omega)]
    omega
  obtain ⟨len, after⟩ := after_ok buffer a.len
  let once := Memory.copied cleared buffer.ptr a.ptr a.len.toNat
  let twice := Memory.copied once (buffer.ptr + a.len) b.ptr b.len.toNat
  have copy₁ : copy { buffer with len := a.len } a cleared = some once :=
    copy_copied cleared first.length (by simp only; omega) (by omega)
  have copy₂ : copy { ptr := buffer.ptr + a.len, len, cap := buffer.cap - a.len, base := buffer.base } b once = some twice :=
    copy_copied once second.length (by simp only; omega) (by omega)
  have place : indexSlice buffer (a.len + b.len) = some (buffer.ptr + (a.len + b.len)) := by
    rw [indexSlice, BitVec.ult, decide_eq_true (by omega)]
    rfl
  have different {i j : Nat} (hi : i < a.len.toNat + b.len.toNat + 1) (hj : j < a.len.toNat + b.len.toNat + 1) (other : i ≠ j) :
      buffer.ptr + BitVec.ofNat 64 i ≠ buffer.ptr + BitVec.ofNat 64 j :=
    fun same => other (Memory.offset_inj buffer.ptr (by omega) (by omega) same)
  have stop : buffer.ptr + (a.len + b.len) = buffer.ptr + BitVec.ofNat 64 (a.len.toNat + b.len.toNat) := by
    rw [offset_self, total]
  refine ⟨Memory.store twice (buffer.ptr + (a.len + b.len)) 0, ?_, Memory.store_same _ _ _, fun i inside => ?_, fun i inside => ?_⟩
  · simp only [fillBuffer, before_eq buffer first.length, copy₁, after, copy₂, place, before_eq buffer positive,
      Option.bind_eq_bind, Option.bind_some]
    rfl
  · -- Neither the zero nor the second copy is put where the first string is.
    have kept : twice (buffer.ptr + BitVec.ofNat 64 i) = once (buffer.ptr + BitVec.ofNat 64 i) := by
      refine Memory.copied_outside fun k less => ?_
      rw [offset_add]
      exact different (by omega) (by omega) (by omega)
    rw [stop, Memory.store_other _ _ (different (by omega) (by omega) (by omega)), kept]
    exact Memory.copied_disjoint (fun j hj k hk same => apart k (by omega) j (by omega) same.symm) inside (by omega)
  · have read : once (b.ptr + BitVec.ofNat 64 i) = byteAt cleared b i :=
      Memory.copied_outside fun k less same => apart' k (by omega) i (by omega) same.symm
    have written : twice (buffer.ptr + a.len + BitVec.ofNat 64 i) = once (b.ptr + BitVec.ofNat 64 i) := by
      refine Memory.copied_disjoint (fun j hj k hk same => ?_) inside (by omega)
      rw [offset_add] at same
      exact apart' (a.len.toNat + k) (by omega) j (by omega) same.symm
    rw [stop, Memory.store_other _ _ (different (by omega) (by omega) (by omega)), ← offset_add, written, read]

end Buffer

/-! ### A new buffer -/

theorem cleared_byte {memory : Bytes} {fresh : BitVec 64} {count i : Nat} {string : Slice} (apart : Fresh fresh count string)
    (inside : i < string.cap.toNat) :
    byteAt (clearDown memory fresh count) string i =
      if fresh + BitVec.ofNat 64 count = string.ptr + BitVec.ofNat 64 i then 0 else byteAt memory string i := by
  split
  · rename_i hit
    rw [byteAt, ← hit]
    exact clearDown_inside memory fresh (Nat.le_refl count)
  · rename_i other
    refine clearDown_outside memory fresh fun k within same => ?_
    obtain less | rfl : k < count ∨ k = count := by omega
    · exact apart k less i inside same.symm
    · exact other same.symm

theorem unhit_iff {memory : Bytes} {fresh : BitVec 64} {count : Nat} {string : Slice} (apart : Fresh fresh count string)
    (held : string.len.toNat ≤ string.cap.toNat) :
    (∀ i < string.len.toNat, byteAt (clearDown memory fresh count) string i = byteAt memory string i) ↔
      Unhit memory fresh count string := by
  refine forall₂_congr fun i inside => ?_
  rw [cleared_byte apart (by omega)]
  constructor
  · intro same hit
    rw [if_pos hit] at same
    exact same.symm
  · intro zero
    split
    · rename_i hit
      exact (zero hit).symm
    · rfl

/-- A joined string is no longer than a string can be. -/
theorem Joined.fits {memory memory' : Bytes} {a b result : Slice}
    (joined : Joined memory a b result memory') : LengthsFit a b := by
  have small := joined.string.small
  have length := joined.length
  unfold LengthsFit
  omega

theorem filled_joined {memory : Bytes} {a b : Slice} (first : ValidString memory a) (second : ValidString memory b) {fresh : BitVec 64}
    (apart : Fresh fresh (a.len.toNat + b.len.toNat + 1) a)
    (apart' : Fresh fresh (a.len.toNat + b.len.toNat + 1) b) :
    (∃ result memory', fillBuffer (makeString fresh memory (a.len + b.len + 1)).1 a b (a.len + b.len)
        (makeString fresh memory (a.len + b.len + 1)).2 = some (result, memory') ∧ Joined memory a b result memory') ↔
      LengthsFit a b ∧ Unhit memory fresh (a.len.toNat + b.len.toNat + 1) a ∧
      Unhit memory fresh (a.len.toNat + b.len.toNat + 1) b := by
  by_cases fits : LengthsFit a b
  · have total := newLength_toNat fits
    have small := fits
    unfold LengthsFit at small
    have count : (a.len + b.len + 1).toNat = a.len.toNat + b.len.toNat + 1 := by
      rw [BitVec.toNat_add, total]
      exact Nat.mod_eq_of_lt (by simp; omega)
    have cleared : (makeString fresh memory (a.len + b.len + 1)).2 =
        clearDown memory fresh (a.len.toNat + b.len.toNat + 1) := by
      have positive : (0 : BitVec 64).sle (a.len + b.len + 1) = true := by
        rw [BitVec.sle, decide_eq_true_eq, toInt_small (x := a.len + b.len + 1) (by omega)]
        exact Int.natCast_nonneg _
      rw [makeString, if_pos positive, count]
    obtain ⟨memory', filled, terminated, bytes, bytes'⟩ :=
      fillBuffer_ok first second fits (makeString fresh memory (a.len + b.len + 1)).1 count apart apart'
        (clearDown memory fresh (a.len.toNat + b.len.toNat + 1))
    rw [cleared, filled, ← unhit_iff apart (by have := first.small; omega), ← unhit_iff apart' (by have := second.small; omega)]
    constructor
    · intro holds
      obtain ⟨result, memory'', same, joined⟩ := holds
      cases same
      exact ⟨fits, fun i inside => (bytes i inside).symm.trans (joined.first i inside),
        fun i inside => (bytes' i inside).symm.trans (joined.second i inside)⟩
    · intro holds
      obtain ⟨_, same, same'⟩ := holds
      refine ⟨_, _, rfl, ⟨⟨?_, ?_, terminated⟩, total, fun i inside => ?_, fun i inside => ?_⟩⟩
      · rw [toInt_small (by simp only; omega)]
        omega
      · simp only [makeString]
        rw [toInt_small (by omega), toInt_small (by omega)]
        omega
      · exact (bytes i inside).trans (same i inside)
      · exact (bytes' i inside).trans (same' i inside)
  · refine ⟨fun holds => ?_, fun holds => absurd holds.1 fits⟩
    obtain ⟨_, _, _, joined⟩ := holds
    exact absurd joined.fits fits

/-! ### The buffer in place -/

/-- Where a string is read after it was written to by the copy, it has to hold what was written there. -/
def Unclobbered (memory : Bytes) (dst a : Slice) : Prop :=
  ∀ i < a.len.toNat, (dst.ptr + dst.len - a.ptr).toNat ≤ i →
    byteAt memory a i = byteAt memory a (i - (dst.ptr + dst.len - a.ptr).toNat)

theorem place_joined {memory : Bytes} {dst a : Slice} (first : ValidString memory dst) (second : ValidString memory a)
    (room : dst.len.toNat + a.len.toNat + 1 ≤ dst.cap.toNat) :
    (∃ result memory', (do
        let memory ← copy (← dst.after dst.len) a memory
        return (← dst.before (dst.len + a.len), memory)) = some (result, memory') ∧ Joined memory dst a result memory') ↔
      memory (dst.ptr + BitVec.ofNat 64 (dst.len.toNat + a.len.toNat)) = 0 ∧ Unclobbered memory dst a := by
  obtain ⟨_, _, capacity⟩ := first.small
  obtain ⟨_, roomA, _⟩ := second.small
  have fits : LengthsFit dst a := by
    unfold LengthsFit
    omega
  have total := newLength_toNat fits
  have positive : 0 ≤ (dst.len + a.len).toInt := by
    rw [toInt_small (by omega)]
    omega
  have rest : (dst.cap - dst.len).toNat = dst.cap.toNat - dst.len.toNat :=
    BitVec.toNat_sub_of_le (by rw [BitVec.le_def]; omega)
  obtain ⟨len, after⟩ := after_ok dst dst.len
  let memory' := Memory.copied memory (dst.ptr + dst.len) a.ptr a.len.toNat
  have copied : copy { ptr := dst.ptr + dst.len, len, cap := dst.cap - dst.len, base := dst.base } a memory = some memory' :=
    copy_copied memory second.length (by simp only; omega) (by omega)
  have run : (do
      let memory ← copy (← dst.after dst.len) a memory
      return (← dst.before (dst.len + a.len), memory)) = some ({ dst with len := dst.len + a.len }, memory') := by
    simp only [after, Option.bind_eq_bind, Option.bind_some, copied, before_eq dst positive]
    rfl
  -- The copy starts behind the first string, and ends in front of the terminator.
  have outside {i : Nat} (other : i < dst.len.toNat ∨ i = dst.len.toNat + a.len.toNat) :
      memory' (dst.ptr + BitVec.ofNat 64 i) = memory (dst.ptr + BitVec.ofNat 64 i) := by
    refine Memory.copied_outside fun k less same => ?_
    rw [offset_add] at same
    have := Memory.offset_inj dst.ptr (by omega) (by omega) same
    omega
  have bytes : (∀ i < a.len.toNat, memory' (dst.ptr + BitVec.ofNat 64 (dst.len.toNat + i)) = byteAt memory a i) ↔
      Unclobbered memory dst a := by
    have small : a.len.toNat ≤ 2 ^ 64 := by omega
    refine Iff.trans (forall₂_congr fun i _ => ?_) (Memory.copied_exact (m := memory) (d := dst.ptr + dst.len) (s := a.ptr) small)
    rw [offset_add]
    rfl
  rw [run, ← bytes]
  constructor
  · intro holds
    obtain ⟨result, memory'', same, joined⟩ := holds
    cases same
    have terminated := joined.string.terminated
    rw [offset_self, total, outside (.inr rfl)] at terminated
    exact ⟨terminated, joined.second⟩
  · intro holds
    obtain ⟨terminated, same⟩ := holds
    refine ⟨_, _, rfl, ⟨⟨positive, ?_, ?_⟩, total, fun i inside => outside (.inl inside), same⟩⟩
    · rw [toInt_small (by simp only; omega), toInt_small capacity]
      simp only
      omega
    · rw [offset_self, total, outside (.inr rfl)]
      exact terminated

/-- Exactly when `concat` and `append` join two strings: `make` must not hit a byte of them, and
where `append` writes in place, the byte that becomes the terminator has to be zero already. -/
theorem strings_joined {memory : Bytes} {a b : Slice} (first : ValidString memory a)
    (second : ValidString memory b) (fresh : BitVec 64) :
    (Fresh fresh (a.len.toNat + b.len.toNat + 1) a → Fresh fresh (a.len.toNat + b.len.toNat + 1) b →
      ((∃ result memory', concat fresh a b memory = some (result, memory') ∧ Joined memory a b result memory') ↔
        LengthsFit a b ∧ Unhit memory fresh (a.len.toNat + b.len.toNat + 1) a ∧
          Unhit memory fresh (a.len.toNat + b.len.toNat + 1) b)) ∧
      ((a.cap.toNat < a.len.toNat + b.len.toNat + 1 → Fresh fresh (a.len.toNat + b.len.toNat + 1) a ∧
          Fresh fresh (a.len.toNat + b.len.toNat + 1) b) →
        ((∃ result memory', append fresh a b memory = some (result, memory') ∧ Joined memory a b result memory') ↔
          LengthsFit a b ∧
            if a.cap.toNat < a.len.toNat + b.len.toNat + 1 then
              Unhit memory fresh (a.len.toNat + b.len.toNat + 1) a ∧ Unhit memory fresh (a.len.toNat + b.len.toNat + 1) b
            else
              memory (a.ptr + BitVec.ofNat 64 (a.len.toNat + b.len.toNat)) = 0 ∧ Unclobbered memory a b)) := by
  refine ⟨filled_joined first second, fun apart => ?_⟩
  by_cases fits : LengthsFit a b
  · have total := newLength_toNat fits
    have small := fits
    unfold LengthsFit at small
    have count : (a.len + b.len + 1).toNat = a.len.toNat + b.len.toNat + 1 := by
      rw [BitVec.toNat_add, total]
      exact Nat.mod_eq_of_lt (by simp; omega)
    have full : a.cap.slt (a.len + b.len + 1) = decide (a.cap.toNat < a.len.toNat + b.len.toNat + 1) := by
      rw [slt_iff first.small.2.2 (by omega), count]
    rw [append, full]
    by_cases grows : a.cap.toNat < a.len.toNat + b.len.toNat + 1
    · rw [if_pos grows, decide_eq_true grows, if_pos rfl]
      exact filled_joined first second (apart grows).1 (apart grows).2
    · rw [if_neg grows, decide_eq_false grows, if_neg Bool.false_ne_true, place_joined first second (by omega)]
      exact (and_iff_right fits).symm
  · refine ⟨fun holds => ?_, fun holds => absurd holds.1 fits⟩
    obtain ⟨_, _, _, joined⟩ := holds
    exact absurd joined.fits fits

/-- The string "B" at 50, with room for one byte more, and the string "A" at 100. The first is joined with
the second in a new buffer, and in place. -/
theorem strings_joined_two :
    let memory : Bytes := fun x => if x = 50 then 66 else if x = 100 then 65 else 0
    let a : Slice := ⟨50, 1, 3, 50⟩
    let b : Slice := ⟨100, 1, 2, 100⟩
    (∃ result memory', concat 200 a b memory = some (result, memory') ∧ Joined memory a b result memory') ∧
      ∃ result memory', append 200 a b memory = some (result, memory') ∧ Joined memory a b result memory' := by
  intro memory a b
  have first : ValidString memory a := ⟨by decide, by decide, by decide⟩
  have second : ValidString memory b := ⟨by decide, by decide, by decide⟩
  have fits : LengthsFit a b := by
    unfold LengthsFit
    decide
  obtain ⟨concats, appends⟩ := strings_joined first second 200
  refine ⟨(concats (by decide) (by decide)).mpr ⟨fits, ?_, ?_⟩, (appends ?_).mpr ⟨fits, ?_⟩⟩
  · exact fun i inside hit => absurd hit (by revert i; decide)
  · exact fun i inside hit => absurd hit (by revert i; decide)
  · exact fun grows => absurd grows (by decide)
  · rw [if_neg (by decide)]
    exact ⟨by decide, fun i inside behind => absurd behind (by revert i; decide)⟩

/-- The string "A" is appended to an empty string of capacity 4, behind whose terminator there is
the byte 7. -/
theorem append_not_terminated :
    let memory : Bytes := fun x => if x = 100 then 65 else if x = 1 then 7 else 0
    let dst : Slice := ⟨0, 0, 4, 0⟩
    let a : Slice := ⟨100, 1, 2, 100⟩
    ValidString memory dst ∧ ValidString memory a ∧
      ∃ result memory', append 200 dst a memory = some (result, memory') ∧ result.len = 1 ∧ memory' 0 = 65 ∧
        memory' (result.ptr + result.len) = 7 ∧ ¬ValidString memory' result := by
  intro memory dst a
  refine ⟨⟨by decide, by decide, by decide⟩, ⟨by decide, by decide, by decide⟩, ⟨0, 1, 4, 0⟩,
    Memory.copied memory 0 100 1, ?_, rfl, by decide, by decide, fun string => absurd string.terminated (by decide)⟩
  have copied : copy ⟨0, 0, 4, 0⟩ a memory = some (Memory.copied memory 0 100 1) :=
    copy_copied memory (by decide) (by decide) (by decide)
  have after : dst.after dst.len = some ⟨0, 0, 4, 0⟩ := by decide
  have before : dst.before (dst.len + a.len) = some ⟨0, 1, 4, 0⟩ := by decide
  have stays : dst.cap.slt (dst.len + a.len + 1) = false := by decide
  rw [append, stays, if_neg Bool.false_ne_true]
  simp only [after, before, copied, Option.bind_eq_bind, Option.bind_some]
  rfl

end Low
