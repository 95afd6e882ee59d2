import LowCompiler.Codegen.Slices
import LowCompiler.Codegen.ZeroLoop

/-!
# The code that slices slices

What the code of `slice_slice` leaves for a slice and two bounds.
-/

namespace Low

open Stateful
open Llvm (Op Ty Graph Platform Pointer Activation Datum Reaches executeAll)

/-! ### Slices as data -/

structure SliceValue where
  ptr : Pointer
  len : BitVec 64
  cap : BitVec 64
  base : Pointer
  deriving DecidableEq

def sliceTy (element : Ty) : Ty := .struct [.ptr element, .int 64, .int 64, .ptr element]

namespace SliceValue

def datum (slice : SliceValue) : Datum :=
  .aggregate [.ptr slice.ptr, .int 64 slice.len, .int 64 slice.cap, .ptr slice.base]

def sliced (stride : BitVec 64) (slice : SliceValue) (start stop : BitVec 64) : SliceValue where
  ptr := { slice.ptr with offset := slice.ptr.offset + stride * start }
  len := if (0 : BitVec 64).slt (stop - start) then stop - start else 0
  cap := slice.cap - start
  base := slice.base

end SliceValue

def slicing (n : Nat) (element : Ty) (value start stop : Llvm.Value) : List Op :=
  [.extractValue value 2, .intCast start (.int 64), .intCast stop (.int 64),
    .int .sub (.result n (.int 64)) (.result (n + 1) (.int 64)),
    .int .sub (.result (n + 2) (.int 64)) (.result (n + 1) (.int 64)), .extractValue value 0,
    .gep (.result (n + 5) (.ptr element)) (.result (n + 1) (.int 64)) [], .extractValue value 3,
    .insertValue (.constNull (sliceTy element)) (.result (n + 6) (.ptr element)) 0,
    .insertValue (.result (n + 8) (sliceTy element)) (.result (n + 3) (.int 64)) 2,
    .insertValue (.result (n + 9) (sliceTy element)) (.result (n + 7) (.ptr element)) 3,
    .icmp .sgt (.result (n + 4) (.int 64)) (.constNull (.int 64))]

/-- What they compute for the bounds, extended to 64 bits. -/
def slicingData (stride : BitVec 64) (slice : SliceValue) (i j : BitVec 64) : List Datum :=
  let made := slice.sliced stride i j
  let null : Datum := .ptr ⟨0, 0⟩
  [.int 64 slice.cap, .int 64 i, .int 64 j, .int 64 (slice.cap - i), .int 64 (j - i), .ptr slice.ptr, .ptr made.ptr,
    .ptr slice.base, .aggregate [.ptr made.ptr, .int 64 0, .int 64 0, null],
    .aggregate [.ptr made.ptr, .int 64 0, .int 64 made.cap, null],
    .aggregate [.ptr made.ptr, .int 64 0, .int 64 made.cap, .ptr made.base], .truth ((0 : BitVec 64).slt (j - i))]

section Execution
variable {M : Type} {platform : Platform M} {element : Ty} {value start stop : Llvm.Value} {slice : SliceValue}
  {a : Activation M} {width width' n : Nat} {i : BitVec width} {j : BitVec width'}

open Building (Computes)

theorem slicing_computes (below : value.Below n) (below' : start.Below n) (below'' : stop.Below n)
    (is : value.fetch platform a.registers = some slice.datum) (starts : start.fetch platform a.registers = some (.int width i))
    (stops : stop.fetch platform a.registers = some (.int width' j)) :
    Computes platform a n [] (slicing n element value start stop)
      (slicingData (platform.stride element) slice (i.signExtend 64) (j.signExtend 64)) := by
  refine .cons (fun s knows => Llvm.effect_extractValue ((knows.fetch below).trans is) rfl) ?_
  refine .cons (fun s knows => Llvm.effect_intCast ((knows.fetch below').trans starts)) ?_
  refine .cons (fun s knows => Llvm.effect_intCast ((knows.fetch below'').trans stops)) ?_
  refine .cons (fun s knows => Llvm.effect_int (knows.new 0 _ rfl) (knows.new 1 _ rfl) rfl) ?_
  refine .cons (fun s knows => Llvm.effect_int (knows.new 2 _ rfl) (knows.new 1 _ rfl) rfl) ?_
  refine .cons (fun s knows => Llvm.effect_extractValue ((knows.fetch below).trans is) rfl) ?_
  refine .cons (fun s knows => ?_) ?_
  · have moved : (Op.gep (.result (n + 5) (.ptr element)) (.result (n + 1) (.int 64)) []).effect platform s =
        some (s.gives (.ptr { slice.ptr with
          offset := slice.ptr.offset + platform.stride element * (i.signExtend 64).signExtend 64 })) :=
      Llvm.effect_gep rfl (knows.new 5 _ rfl) (knows.new 1 _ rfl)
    rwa [BitVec.signExtend_eq] at moved
  refine .cons (fun s knows => Llvm.effect_extractValue ((knows.fetch below).trans is) rfl) ?_
  refine .cons (fun s knows => Llvm.effect_insertValue rfl (knows.new 6 _ rfl) rfl) ?_
  refine .cons (fun s knows => Llvm.effect_insertValue (knows.new 8 _ rfl) (knows.new 3 _ rfl) rfl) ?_
  refine .cons (fun s knows => Llvm.effect_insertValue (knows.new 9 _ rfl) (knows.new 7 _ rfl) rfl) ?_
  exact .cons (fun s knows => Llvm.effect_icmp (knows.new 4 _ rfl) rfl) .nil

end Execution

section Measured
variable {M : Type} {platform : Platform M} {graph : Graph} {s : Building} {a : Activation M}
  {condition slice newLen : Llvm.Value} {type : Ty} {d d' len : Datum} {b : Bool}

def Building.lengthSet (s : Building) (condition slice newLen : Llvm.Value) : Building :=
  (s.append.append.append.enter (.condBr condition s.blocks (s.blocks + 1)) s.blocks).push (.op (.insertValue slice newLen 1))

def Building.lengthLeft (s : Building) (condition slice newLen : Llvm.Value) : Building :=
  (s.lengthSet condition slice newLen).enter (.br (s.blocks + 2)) (s.blocks + 1)

theorem Building.measured_eq : s.measured condition slice newLen type =
    ((s.lengthLeft condition slice newLen).enter (.br (s.blocks + 2)) (s.blocks + 2)).push
      (.op (.phi type [(.result s.results slice.type, s.blocks), (slice, s.blocks + 1)])) := rfl

theorem Building.lengthSet_empty (sound : s.Sound) {n : Nat} (new : s.blocks < n) :
    (s.lengthSet condition slice newLen).block n = [] := by
  have current := sound.current
  have here : n ≠ (s.append.append.append.enter (.condBr condition s.blocks (s.blocks + 1)) s.blocks).current := by
    simp only [Building.enter_current]
    omega
  rw [Building.lengthSet, Building.push_block, if_neg here, Building.starts_block, if_neg (by omega)]
  exact sound.empty (Nat.le_of_lt new)

theorem Building.lengthLeft_empty (sound : s.Sound) {n : Nat} (new : s.blocks < n) :
    (s.lengthLeft condition slice newLen).block n = [] := by
  have here : n ≠ (s.lengthSet condition slice newLen).current := by
    simp only [Building.lengthSet, Building.push_op_current, Building.enter_current]
    omega
  rw [Building.lengthLeft, Building.between_block, if_neg here]
  exact Building.lengthSet_empty sound new

/-- The phi takes the slice of the branch that was left. -/
theorem Building.Here.meets (here : ((s.lengthLeft condition slice newLen).enter (.br (s.blocks + 2)) (s.blocks + 2)).Here a)
    (sound : s.Sound) (continues : (s.measured condition slice newLen type).Continues graph)
    (left : a.previous = if b then s.blocks else s.blocks + 1)
    (evaluated : (if b then Llvm.Value.result s.results slice.type else slice).fetch platform a.registers = some d) :
    ∃ after : Activation M, Reaches platform graph a [] after ∧
      (s.measured condition slice newLen type).Here after ∧
      after.registers (s.results + 1) = some d ∧ after.memory = a.memory := by
  have set : (s.lengthSet condition slice newLen).Sound := (Building.diamond_starts sound condition).sound.push trivial
  have blocks : (s.lengthSet condition slice newLen).blocks = s.blocks + 3 := rfl
  have unset : (s.lengthLeft condition slice newLen).Sound :=
    (set.push (e := .br (s.blocks + 2)) (by simp [Emitted.Inside, blocks])).push (by simp [Emitted.Inside, blocks])
  have exit : ((s.lengthLeft condition slice newLen).enter (.br (s.blocks + 2)) (s.blocks + 2)).Sound :=
    (unset.push (e := .br (s.blocks + 2)) (by simp [Emitted.Inside, Building.lengthLeft, blocks])).push
      (by simp [Emitted.Inside, Building.lengthLeft, blocks])
  have built := exit.pushAll_block [.phi type [(.result s.results slice.type, s.blocks), (slice, s.blocks + 1)]]
  have ahead := here.ahead built continues
  have chosen : [(Llvm.Value.result s.results slice.type, s.blocks), (slice, s.blocks + 1)].find?
      (fun entry => entry.2 == a.previous) =
        some (if b then .result s.results slice.type else slice, if b then s.blocks else s.blocks + 1) := by
    rw [left]
    cases b <;> simp
  refine ⟨_, Llvm.reaches_phi ahead chosen evaluated, ⟨?_, ?_⟩, Function.update_self _ _ _, rfl⟩
  · exact here.1.trans (Building.push_op_current _ _).symm
  · rw [Building.measured_eq, Building.push_op_current]
    refine Eq.trans ?_ (congrArg List.length built).symm
    rw [List.length_append, ← here.2]
    rfl

/-- The slice gets its length in the one branch, and keeps the length zero in the other. -/
theorem Building.Here.measured (here : s.Here a) (sound : s.Sound)
    (continues : (s.measured condition slice newLen type).Continues graph)
    (evaluated : condition.fetch platform a.registers = some (.truth b))
    (unset : slice.fetch platform a.registers = some d) (measured : newLen.fetch platform a.registers = some len)
    (set : d.setField 1 len = some d') :
    ∃ after : Activation M, Reaches platform graph a [] after ∧
      (s.measured condition slice newLen type).Here after ∧
      after.registers (s.results + 1) = some (if b then d' else d) ∧ after.memory = a.memory := by
  have exits : ((s.lengthLeft condition slice newLen).enter (.br (s.blocks + 2)) (s.blocks + 2)).Continues graph :=
    continues.before (Building.continues_push _ _)
  have leaves : (s.lengthLeft condition slice newLen).Continues graph := exits.before (Building.continues_enter _ _ _)
  have sets : (s.lengthSet condition slice newLen).Continues graph := leaves.before (Building.continues_enter _ _ _)
  have starts : (s.append.append.append.enter (.condBr condition s.blocks (s.blocks + 1)) s.blocks).Continues graph :=
    sets.before (Building.continues_push _ _)
  have opened : s.append.append.append.Here a := here
  have branched := opened.condBr starts evaluated
  have joined : (s.lengthLeft condition slice newLen).block (s.blocks + 2) = [] :=
    Building.lengthLeft_empty sound (by omega)
  have current : (s.lengthLeft condition slice newLen).current = s.blocks + 1 := Building.enter_current _ _ _
  have empty : ((s.lengthLeft condition slice newLen).enter (.br (s.blocks + 2)) (s.blocks + 2)).block (s.blocks + 2) = [] := by
    rw [Building.between_block, if_neg (by omega), joined]
  cases b with
  | true =>
    have sound₁ := (Building.diamond_starts sound condition).sound
    have here₁ : (s.append.append.append.enter (.condBr condition s.blocks (s.blocks + 1)) s.blocks).Here
        (a.jump s.blocks) := by
      refine Building.here_jump a (Building.enter_current _ _ _) ((Building.starts_block _).trans ?_)
      exact (if_neg (Nat.ne_of_gt sound.current)).trans (sound.empty (Nat.le_refl _))
    have inserts : (Op.insertValue slice newLen 1).effect platform (a.jump s.blocks) =
        some ((a.jump s.blocks).gives d') := Llvm.effect_insertValue unset measured set
    have inserted : ((s.append.append.append.enter (.condBr condition s.blocks (s.blocks + 1)) s.blocks).pushAll
      [.insertValue slice newLen 1]).Continues graph := sets
    obtain ⟨reached, here₂⟩ := here₁.all sound₁ inserted (Llvm.executeAll_cons inserts rfl)
    let body := (a.jump s.blocks).after s.results ((a.jump s.blocks).gives d')
    have left : Reaches platform graph body [] (body.jump (s.blocks + 2)) := here₂.br leaves
    have here₃ := Building.here_jump body (Building.enter_current _ (.br (s.blocks + 2)) _) empty
    obtain ⟨after, met, there, is, memory⟩ := here₃.meets (b := true) sound continues rfl (Function.update_self _ _ _)
    exact ⟨after, branched.trans (reached.trans (left.trans met)), there, is, memory⟩
  | false =>
    have here₁ : (s.lengthLeft condition slice newLen).Here (a.jump (s.blocks + 1)) :=
      Building.here_jump a current (Building.lengthLeft_empty sound (Nat.lt_succ_self _))
    have left : Reaches platform graph (a.jump (s.blocks + 1)) [] ((a.jump (s.blocks + 1)).jump (s.blocks + 2)) :=
      here₁.br exits
    have here₂ := Building.here_jump (a.jump (s.blocks + 1)) (Building.enter_current _ (.br (s.blocks + 2)) _) empty
    obtain ⟨after, met, there, is, memory⟩ := here₂.meets (b := false) sound continues rfl unset
    exact ⟨after, branched.trans (left.trans met), there, is, memory⟩

end Measured

/-! ### `slice_slice` -/

section SliceSlice
variable {codegen : Expr → Bool → Codegen Llvm.Value} {target : Expr} {start stop : Option Expr} {kind : IndexSliceKind}
  {s s' : Building} {result : Llvm.Value}

def Building.slicedAt (s : Building) (element : Ty) (value start stop : Llvm.Value) : Building :=
  (s.pushAll (slicing s.results element value start stop)).measured (.result (s.results + 11) (.int 1))
    (.result (s.results + 10) (sliceTy element)) (.result (s.results + 4) (.int 64)) (sliceTy element)

/-- The steps of `slice_slice`. -/
theorem buildSliceSlice_ok (run : buildSliceSlice codegen target start stop kind s = .ok (result, s'))
    (slices : kind ≠ .COPY) :
    ∃ value s₁ i s₂ j s₃, codegen target false s = .ok (value, s₁) ∧
      codegenBound codegen start s₁ = .ok (i, s₂) ∧
      codegenBound codegen stop s₂ = .ok (j, s₃) ∧ ∀ element, value.type = sliceTy element →
        result = .result (s₃.results + 13) (sliceTy element) ∧ s' = s₃.slicedAt element value i j := by
  obtain ⟨value, s₁, targeted, run⟩ := bind_ok.mp run
  rw [if_neg slices] at run
  obtain ⟨i, s₂, started, run⟩ := bind_ok.mp run
  obtain ⟨j, s₃, stopped, run⟩ := bind_ok.mp run
  refine ⟨value, s₁, i, s₂, j, s₃, targeted, started, stopped, fun element typed => ?_⟩
  have field (n : Nat) (t : Ty) (present : [Ty.ptr element, .int 64, .int 64, .ptr element][n]? = some t) :
    (Op.extractValue value n).type = t := Llvm.Op.type_extractValue typed present
  have cap := field 2 _ rfl
  have ptr := field 0 _ rfl
  have base := field 3 _ rfl
  simp only [bind_apply, build, emit, appendBlock, cap, ptr, base, typed] at run
  obtain ⟨rfl, rfl⟩ := Prod.mk.inj (Except.ok.inj run)
  constructor
  · rfl
  · simp [Building.slicedAt, slicing, Building.pushAll, Building.measured, Building.enter, Building.push, Building.append,
      Op.type, Emitted.op?, Ty.index, sliceTy]

open Building (Computes) in
/-- A run through the code comes to the slice of the bounds, which are extended to 64 bits. -/
theorem Building.Here.sliced {M : Type} {platform : Platform M} {graph : Graph} {element : Ty} {value i j : Llvm.Value}
    {slice : SliceValue} {a : Activation M} {width width' : Nat} {first : BitVec width} {last : BitVec width'}
    (here : s.Here a) (sound : s.Sound) (below : value.Below s.results) (below' : i.Below s.results)
    (below'' : j.Below s.results) (continues : (s.slicedAt element value i j).Continues graph)
    (is : value.fetch platform a.registers = some slice.datum) (starts : i.fetch platform a.registers = some (.int width first))
    (stops : j.fetch platform a.registers = some (.int width' last)) :
    ∃ after : Activation M, Reaches platform graph a [] after ∧ (s.slicedAt element value i j).Here after ∧
      after.registers (s.results + 13) =
        some (slice.sliced (platform.stride element) (first.signExtend 64) (last.signExtend 64)).datum ∧
      after.memory = a.memory := by
  have computes : Computes platform a s.results [] (slicing s.results element value i j)
      (slicingData (platform.stride element) slice (first.signExtend 64) (last.signExtend 64)) :=
    slicing_computes below below' below'' is starts stops
  have passed : (s.pushAll (slicing s.results element value i j)).Continues graph :=
    continues.before (Building.measured_codes (sound.pushAll _) _ _ _ _).continues
  obtain ⟨middle, computed, there, knows⟩ := here.computes sound passed computes
  have results : (s.pushAll (slicing s.results element value i j)).results = s.results + 12 := Building.pushAll_results _
  obtain ⟨after, reached, last, is, memory⟩ := there.measured (sound.pushAll _) continues (knows.new 11 _ rfl)
    (knows.new 10 _ rfl) (knows.new 4 _ rfl) rfl
  refine ⟨after, computed.trans reached, last, ?_, memory.trans knows.memory⟩
  rw [results] at is
  rw [is]
  simp only [SliceValue.datum, SliceValue.sliced]
  split <;> rfl

end SliceSlice

/-! ### The law of slicing -/

/-- The bounds of a slice expression with its kind, as `reduce_postfix_expr_slice` makes them. -/
inductive SliceFormed : Option Expr → Option Expr → IndexSliceKind → Prop where
  | range (start stop : Expr) : SliceFormed (some start) (some stop) .RANGE
  | prefixed (stop : Expr) : SliceFormed none (some stop) .PREFIX
  | postfixed (start : Expr) : SliceFormed (some start) none .POSTFIX
  | copy : SliceFormed none none .COPY

/-- A slice of a slice. A missing start is zero, and a missing end is the length. -/
def SliceValue.law (stride : BitVec 64) (slice : SliceValue) (first last : Option Nat) : SliceValue where
  ptr := { slice.ptr with offset := slice.ptr.offset + stride * BitVec.ofNat 64 (first.getD 0) }
  len := BitVec.ofNat 64 (last.getD slice.len.toNat - first.getD 0)
  cap := BitVec.ofNat 64 (slice.cap.toNat - first.getD 0)
  base := slice.base

/-- The length of the slice and the bounds are at most its capacity. -/
structure SliceValue.InRange (slice : SliceValue) (first last : Option Nat) : Prop where
  len : slice.len.toNat ≤ slice.cap.toNat
  cap : slice.cap.toNat < 2 ^ 63
  first : first.getD 0 ≤ last.getD slice.cap.toNat
  last : last.getD slice.cap.toNat ≤ slice.cap.toNat

/-- A bound that is there has a value, which is not negative. -/
def BoundIs {M : Type} (platform : Platform M) (a : Activation M) (value : Llvm.Value) :
    Option Expr → Option Nat → Prop
  | none, bound => bound = none
  | some _, bound => ∃ width k, bound = some k ∧ k < 2 ^ (width - 1) ∧
      value.fetch platform a.registers = some (.int width (BitVec.ofNat width k))

section Law
variable {stride : BitVec 64} {slice : SliceValue} {first last : Option Nat}

theorem SliceValue.datum_inj {slice slice' : SliceValue} (same : slice.datum = slice'.datum) :
    slice = slice' := by
  cases slice
  cases slice'
  simp only [SliceValue.datum, Datum.aggregate.injEq, List.cons.injEq, Datum.ptr.injEq, Datum.int.injEq, heq_eq_eq,
    true_and, and_true] at same
  obtain ⟨rfl, rfl, rfl, rfl⟩ := same
  rfl

/-- A slice of a slice is a slice of the whole. -/
theorem SliceValue.law_law (i j k l : Nat) :
    (slice.law stride (some i) (some j)).law stride (some k) (some l) = slice.law stride (some (i + k)) (some (i + l)) := by
  have small : slice.cap.toNat - i < 2 ^ 64 := by omega
  have cap : (BitVec.ofNat 64 (slice.cap.toNat - i)).toNat = slice.cap.toNat - i := by
    rw [BitVec.toNat_ofNat, Nat.mod_eq_of_lt small]
  simp only [law, Option.getD_some, cap, BitVec.ofNat_add, BitVec.mul_add, BitVec.add_assoc, Nat.sub_sub,
    Nat.add_sub_add_left]

theorem sub_ofNat {x : BitVec 64} {k : Nat} (le : k ≤ x.toNat) :
    x - BitVec.ofNat 64 k = BitVec.ofNat 64 (x.toNat - k) := by
  apply BitVec.eq_of_toNat_eq
  have := x.isLt
  simp only [BitVec.toNat_sub, BitVec.toNat_ofNat]
  omega

/-- The length that `slice_slice` computes is the difference of the bounds, or zero. -/
theorem sliced_len {i j : Nat} (small : i < 2 ^ 63) (small' : j < 2 ^ 63) :
    (if (0 : BitVec 64).slt (BitVec.ofNat 64 j - BitVec.ofNat 64 i) then BitVec.ofNat 64 j - BitVec.ofNat 64 i else 0) =
      BitVec.ofNat 64 (j - i) := by
  have toInt : (BitVec.ofNat 64 j - BitVec.ofNat 64 i).toInt = (j : Int) - i := by
    simp only [BitVec.toInt_sub, BitVec.toInt_ofNat', Int.bmod_def]
    omega
  have toNat : (BitVec.ofNat 64 j).toNat = j := by
    rw [BitVec.toNat_ofNat]
    omega
  have zero : (0 : BitVec 64).toInt = 0 := rfl
  rw [BitVec.slt_eq_decide, toInt, zero]
  by_cases before : i < j
  · have positive : (0 : Int) < (j : Int) - i := by omega
    rw [if_pos (decide_eq_true positive), sub_ofNat (by omega), toNat]
  · have negative : ¬(0 : Int) < (j : Int) - i := by omega
    rw [if_neg (by simpa using negative), Nat.sub_eq_zero_of_le (Nat.le_of_not_lt before)]
    rfl

/-- What `slice_slice` computes is right, but where the end is missing, unless nothing is left. -/
theorem SliceValue.sliced_eq_law (inside : slice.InRange first last) :
    slice.sliced stride (BitVec.ofNat 64 (first.getD 0)) (BitVec.ofNat 64 (last.getD 0)) = slice.law stride first last ↔
      last ≠ none ∨ slice.len.toNat ≤ first.getD 0 := by
  obtain ⟨len, cap, le, le'⟩ := inside
  have cap' := sub_ofNat (Nat.le_trans le le')
  have small : last.getD 0 < 2 ^ 63 := by
    cases last with
    | none => exact Nat.two_pow_pos 63
    | some j => exact Nat.lt_of_le_of_lt le' cap
  have len' := sliced_len (i := first.getD 0) (by omega) small
  simp only [sliced, law, cap', len', SliceValue.mk.injEq, true_and, and_true]
  cases last with
  | some j => simp
  | none =>
    have size := slice.len.isLt
    simp only [Option.getD_none, ne_eq, not_true_eq_false, false_or, Nat.zero_sub]
    constructor
    · intro same
      have value := congrArg BitVec.toNat same
      simp only [BitVec.toNat_ofNat] at value
      omega
    · intro le
      rw [Nat.sub_eq_zero_of_le le]

end Law

/-! ### Slice expressions -/

section Expressions
variable {decls : List Decl} {fuel : Nat} {loc : Loc} {type : AstType} {target : Expr} {start stop : Option Expr}
  {kind : IndexSliceKind} {lvalue : Bool} {s s' : Building} {result : Llvm.Value}

/-- The code for the target and the bounds of a slice expression, before they are used. -/
structure SlicesAt (decls : List Decl) (fuel : Nat) (target : Expr) (start stop : Option Expr) (s : Building)
    (value i j : Llvm.Value) (s₃ : Building) : Prop where
  run : ∃ s₁ s₂, codegenExpr decls fuel target false s = .ok (value, s₁) ∧
    codegenBound (codegenExpr decls fuel) start s₁ = .ok (i, s₂) ∧
    codegenBound (codegenExpr decls fuel) stop s₂ = .ok (j, s₃)

/-- The code is sound, and its values are there. -/
theorem SlicesAt.sound {value i j : Llvm.Value} {s₃ : Building} (slices : SlicesAt decls fuel target start stop s value i j s₃)
    (sound : s.Sound) :
    s₃.Sound ∧ value.Below s₃.results ∧ i.Below s₃.results ∧ j.Below s₃.results := by
  obtain ⟨s₁, s₂, targeted, started, stopped⟩ := slices.run
  have below := fun e lvalue n => Generates.expr s.context decls fuel n e lvalue
  obtain ⟨first, there⟩ := below target false _ _ _ _ sound (.refl _) (Nat.le_refl _) targeted
  obtain ⟨second, there'⟩ := Generates.bound below start _ _ _ first.sound first.context (Nat.le_refl _) started
  obtain ⟨third, there''⟩ := Generates.bound below stop _ _ _ second.sound (first.context.trans second.context)
    (Nat.le_refl _) stopped
  exact ⟨third.sound, there.mono (Nat.le_trans second.results third.results), there'.mono third.results, there''⟩

/-- A slice of a slice is generated by `slice_slice`. -/
theorem codegenIndexSliceExpr_slice {t : AstType} {element : AstType}
    (found : resolveTypeName s.context fuel target.type = .ok t) (is : t.kind = .sliceType element)
    (run : codegenExpr decls (fuel + 1) (.mk loc type (.indexSliceExpr target start stop kind)) lvalue s = .ok (result, s')) :
    buildSliceSlice (codegenExpr decls fuel) target start stop kind s = .ok (result, s') := by
  obtain ⟨t', _, resolves, run⟩ := bind_ok.mp run
  obtain ⟨found', rfl⟩ := resolved_ok resolves
  cases found.symm.trans found'
  simpa only [is] using run

/-- A run through the code of a bounded slice expression comes to the slice. -/
def SlicesTo (s₃ s' : Building) (value i j result : Llvm.Value) : Prop :=
  ∀ {M : Type} (platform : Platform M) (a : Activation M) (element : Ty) (slice : SliceValue) (width width' : Nat)
    (first : BitVec width) (last : BitVec width'), s₃.Here a → value.type = sliceTy element →
    value.fetch platform a.registers = some slice.datum → i.fetch platform a.registers = some (.int width first) →
    j.fetch platform a.registers = some (.int width' last) →
    ∃ after, s'.Finishes platform a [] after ∧ after.memory = a.memory ∧ result.type = sliceTy element ∧
      result.fetch platform after.registers =
        some (slice.sliced (platform.stride element) (first.signExtend 64) (last.signExtend 64)).datum

theorem slicesTo (sound : s.Sound) (bounded : kind ≠ .COPY)
    (run : buildSliceSlice (codegenExpr decls fuel) target start stop kind s = .ok (result, s')) :
    ∃ value i j s₃, SlicesAt decls fuel target start stop s value i j s₃ ∧ SlicesTo s₃ s' value i j result := by
  obtain ⟨value, s₁, i, s₂, j, s₃, targeted, started, stopped, built⟩ := buildSliceSlice_ok run bounded
  have slices : SlicesAt decls fuel target start stop s value i j s₃ := ⟨s₁, s₂, targeted, started, stopped⟩
  refine ⟨value, i, j, s₃, slices, ?_⟩
  intro M platform a element slice width width' first last here typed is starts stops
  obtain ⟨rfl, rfl⟩ := built element typed
  obtain ⟨sound₃, below, below', below''⟩ := slices.sound sound
  obtain ⟨after, reached, there, holds, memory⟩ := here.sliced sound₃ below below' below'' (.refl _) is starts stops
  exact ⟨after, ⟨reached, there⟩, memory, rfl, holds⟩

/-- A bound has its value when it is extended to 64 bits. -/
theorem BoundIs.fetch {M : Type} {platform : Platform M} {a : Activation M} {bound : Option Expr} {first : Option Nat}
    {i : Llvm.Value} (boundIs : BoundIs platform a i bound first)
    (started : codegenBound (codegenExpr decls fuel) bound s = .ok (i, s')) :
    ∃ width, ∃ k : BitVec width, i.fetch platform a.registers = some (.int width k) ∧
      k.signExtend 64 = BitVec.ofNat 64 (first.getD 0) := by
  cases bound with
  | none =>
    cases started
    cases boundIs
    exact ⟨64, 0, rfl, rfl⟩
  | some expr =>
    obtain ⟨width, k, rfl, small, is⟩ := boundIs
    exact ⟨width, _, is, signExtend_ofNat small⟩

/-- Where `slice_slice` is asked for a copy, it loads from the slice, and the code gets stuck. -/
theorem copy_stuck {M : Type} {platform : Platform M} {a after : Activation M} {value : Llvm.Value} {element : Ty}
    {events : List Llvm.Event} (sound : s.Sound) (here : s.Here a) (typed : value.type = sliceTy element) :
    ¬(s.push (.op (.load value))).Finishes platform a events after :=
  here.not_finishes sound (.refl _) .nil fun x _ => by simp [Op.effect, typed, sliceTy]

/-- A slice of a slice is what the law says just when its end is given, or its start is, and nothing
is left behind it. -/
theorem slicing_law_iff (sound : s.Sound) (formed : SliceFormed start stop kind) {t element : AstType}
    (found : resolveTypeName s.context fuel target.type = .ok t) (is : t.kind = .sliceType element)
    (run : codegenExpr decls (fuel + 1) (.mk loc type (.indexSliceExpr target start stop kind)) lvalue s = .ok (result, s')) :
    (∃ value i j s₃, SlicesAt decls fuel target start stop s value i j s₃ ∧
      ∀ {M : Type} (platform : Platform M) (a : Activation M) (element : Ty) (slice : SliceValue) (first last : Option Nat),
        s₃.Here a → value.type = sliceTy element → value.fetch platform a.registers = some slice.datum →
        slice.InRange first last → BoundIs platform a i start first → BoundIs platform a j stop last →
        ((∃ events after, s'.Finishes platform a events after ∧
            result.fetch platform after.registers = some (slice.law (platform.stride element) first last).datum) ↔
          last ≠ none ∨ first ≠ none ∧ slice.len.toNat ≤ first.getD 0)) ∧
      ∀ (stride : BitVec 64) (slice : SliceValue) (i j k l : Nat),
        (slice.law stride (some i) (some j)).law stride (some k) (some l) = slice.law stride (some (i + k)) (some (i + l)) := by
  refine ⟨?_, fun stride slice i j k l => SliceValue.law_law i j k l⟩
  have built := codegenIndexSliceExpr_slice found is run
  by_cases bounded : kind = .COPY
  · subst bounded
    cases formed
    obtain ⟨value, s₁, targeted, run⟩ := bind_ok.mp built
    cases run
    have slices : SlicesAt decls fuel target none none s value (.constNull (.int 64)) (.constNull (.int 64)) s₁ :=
      ⟨s₁, s₁, targeted, rfl, rfl⟩
    refine ⟨value, _, _, s₁, slices, ?_⟩
    rintro M platform a element slice first last here typed is inside rfl rfl
    refine iff_of_false ?_ (by simp)
    rintro ⟨events, after, finishes, _⟩
    exact copy_stuck (slices.sound sound).1 here typed finishes
  · obtain ⟨value, i, j, s₃, slices, computes⟩ := slicesTo sound bounded built
    refine ⟨value, i, j, s₃, slices, ?_⟩
    intro M platform a element slice first last here typed is inside firstIs lastIs
    obtain ⟨s₁, s₂, targeted, started, stopped⟩ := slices.run
    obtain ⟨width, x, starts, same⟩ := firstIs.fetch started
    obtain ⟨width', y, stops, same'⟩ := lastIs.fetch stopped
    obtain ⟨after, finishes, _, _, holds⟩ := computes platform a element slice width width' x y here typed is starts stops
    rw [same, same'] at holds
    have given : last = none → first ≠ none := by
      cases formed with
      | copy => exact absurd rfl bounded
      | prefixed stop =>
        obtain ⟨_, k, rfl, _⟩ := lastIs
        exact nofun
      | range start stop | postfixed start =>
        obtain ⟨_, k, rfl, _⟩ := firstIs
        exact fun _ => nofun
    have same : (∃ events after, s'.Finishes platform a events after ∧
        result.fetch platform after.registers = some (slice.law (platform.stride element) first last).datum) ↔
        slice.sliced (platform.stride element) (BitVec.ofNat 64 (first.getD 0)) (BitVec.ofNat 64 (last.getD 0)) =
          slice.law (platform.stride element) first last := by
      constructor
      · rintro ⟨events, after', finishes', holds'⟩
        obtain ⟨_, rfl⟩ := finishes.unique finishes'
        exact SliceValue.datum_inj (Option.some.inj (holds.symm.trans holds'))
      · exact fun law => ⟨[], after, finishes, holds.trans (by rw [law])⟩
    rw [same, SliceValue.sliced_eq_law inside]
    refine or_congr_right' fun absent => ?_
    simp [given (not_not.mp absent)]

end Expressions

/-- A slice of four elements, of which three are used. -/
def threeOfFour : SliceValue := ⟨⟨5, 0⟩, 3, 4, ⟨5, 0⟩⟩

def sliceSymbol : CodegenSymbol :=
  ⟨.INVALID, some [115], some (.mk 0 (.sliceType int64)), some (.result 0 (.ptr (sliceTy (.int 64)))), none, none, 0, true⟩

def sliceBuilding : Building := ⟨⟨[sliceSymbol], []⟩, [.op (.alloca (sliceTy (.int 64)))], 1, 1, 0, []⟩

theorem sliceBuilding_sound : sliceBuilding.Sound where
  numbered := rfl
  entered := Nat.one_pos
  inside := by simp [sliceBuilding, Emitted.Inside]
  known := by simp [sliceBuilding, sliceSymbol, Llvm.Value.Below]

def sliceActivation : Activation (Pointer → Option Datum) :=
  ⟨fun k => if k = 1 then some threeOfFour.datum else none, fun _ => none, 6, 0, 0, 2⟩

/-- `s[i:j]`, with digits. -/
def sliceOfS (start stop : Option UInt8) (kind : IndexSliceKind) : Expr :=
  .mk ⟨0, 0⟩ (.mk 0 (.sliceType int64))
    (.indexSliceExpr (.mk ⟨0, 0⟩ (.mk 0 (.sliceType int64)) (.identExpr [115])) (start.map digit) (stop.map digit) kind)

/-- `s[1:2]`. -/
theorem slice_one_to_two : ∃ result s' events after,
    codegenExpr [] 4 (sliceOfS (some 1) (some 2) .RANGE) false sliceBuilding = .ok (result, s') ∧
      s'.Finishes Llvm.cells sliceActivation events after ∧
        result.fetch Llvm.cells after.registers = some (SliceValue.datum ⟨⟨5, 8⟩, 1, 3, ⟨5, 0⟩⟩) := by
  obtain ⟨⟨result, s'⟩, run⟩ : ∃ r, codegenExpr [] 4 (sliceOfS (some 1) (some 2) .RANGE) false sliceBuilding = .ok r :=
    ⟨_, rfl⟩
  obtain ⟨⟨value, i, j, s₃, ⟨s₁, s₂, targeted, started, stopped⟩, law⟩, -⟩ :=
    slicing_law_iff sliceBuilding_sound (.range (digit 1) (digit 2)) rfl rfl run
  cases targeted
  cases started
  cases stopped
  have inside : threeOfFour.InRange (some 1) (some 2) := ⟨by decide, by decide, by decide, by decide⟩
  obtain ⟨events, after, finishes, holds⟩ := (law Llvm.cells sliceActivation (.int 64) threeOfFour (some 1) (some 2)
    ⟨rfl, rfl⟩ rfl rfl inside ⟨64, 1, rfl, by decide, rfl⟩ ⟨64, 2, rfl, by decide, rfl⟩).mpr (.inl nofun)
  exact ⟨result, s', events, after, run, finishes, holds⟩

/-- `s[1:]` of a slice with three elements has the length zero, and not two. -/
theorem slice_from_one_empty : ∃ result s' after,
    codegenExpr [] 4 (sliceOfS (some 1) none .POSTFIX) false sliceBuilding = .ok (result, s') ∧
      s'.Finishes Llvm.cells sliceActivation [] after ∧
        result.fetch Llvm.cells after.registers = some (SliceValue.datum ⟨⟨5, 8⟩, 0, 3, ⟨5, 0⟩⟩) ∧
          threeOfFour.law 8 (some 1) none = ⟨⟨5, 8⟩, 2, 3, ⟨5, 0⟩⟩ := by
  obtain ⟨⟨result, s'⟩, run⟩ : ∃ r, codegenExpr [] 4 (sliceOfS (some 1) none .POSTFIX) false sliceBuilding = .ok r :=
    ⟨_, rfl⟩
  have bounded : IndexSliceKind.POSTFIX ≠ .COPY := nofun
  obtain ⟨value, i, j, s₃, ⟨s₁, s₂, targeted, started, stopped⟩, computes⟩ :=
    slicesTo sliceBuilding_sound bounded (codegenIndexSliceExpr_slice rfl rfl run)
  cases targeted
  cases started
  cases stopped
  obtain ⟨after, finishes, _, _, holds⟩ := computes Llvm.cells sliceActivation (.int 64) threeOfFour 64 64 1 0 ⟨rfl, rfl⟩
    rfl rfl rfl rfl
  exact ⟨result, s', after, run, finishes, holds, by decide⟩

end Low
