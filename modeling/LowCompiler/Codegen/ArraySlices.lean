import LowCompiler.Codegen.Prepare
import LowCompiler.Codegen.Slicing
import LowCompiler.Codegen.TypeAgreement

/-!
# The code that slices arrays

`slice_array` takes the length of the array from the type as it is written, which has none
if it is a name, and it subtracts the bounds in the width that they have.
-/

namespace Low

open Stateful
open Building (Computes Knows)
open Llvm (Op Ty Graph Platform Pointer Activation Datum Reaches executeAll)

def arrayFields (arrayPtr arrayLength start stop : Llvm.Value) : List Op :=
  [.gep arrayPtr start [], .int .sub stop start, .int .sub arrayLength start]

def arraySlice (n : Nat) (element : Ty) (arrayPtr stop : Llvm.Value) : List Op :=
  [.insertValue (.constNull (sliceTy element)) (.result n (.ptr element)) 0,
    .insertValue (.result (n + 3) (sliceTy element)) (.result (n + 1) stop.type) 1,
    .insertValue (.result (n + 4) (sliceTy element)) (.result (n + 2) (.int 64)) 2,
    .insertValue (.result (n + 5) (sliceTy element)) arrayPtr 3]

section SliceArray
variable {fuel : Nat} {codegen : Expr → Bool → Codegen Llvm.Value} {type element : AstType} {target : Expr}
  {start stop : Option Expr} {s s' : Building} {result : Llvm.Value}

/-- A bound of an array. Nothing is checked. -/
def arrayBound (codegen : Expr → Bool → Codegen Llvm.Value) (missing : Llvm.Value) :
    Option Expr → Codegen Llvm.Value
  | some expr => codegen expr false
  | none => pure missing

def arrayLength (target : Expr) : Llvm.Value := .constInt (.int 64) (target.type.kind.length?.getD 0)

theorem buildSliceArray_ok (is : type.kind = .sliceType element)
    (run : buildSliceArray fuel codegen type target start stop s = .ok (result, s')) :
    ∃ elementTy s₀ value s₁ i s₂ j s₃ sliced c, llvmType fuel element s = .ok (elementTy, s₀) ∧
      codegen target true s₀ = .ok (value, s₁) ∧
      arrayBound codegen (.constNull (.int 64)) start (s₁.push (.op (.pointerCast value (.ptr elementTy)))) = .ok (i, s₂) ∧
      arrayBound codegen (arrayLength target) stop s₂ = .ok (j, s₃) ∧
      codegenType fuel type s₃.context = .ok (sliced, c) ∧
      result = .result (s₃.results + 6) sliced ∧
      (sliced = sliceTy elementTy →
        s' = ({ s₃.pushAll (arrayFields (.result s₁.results (.ptr elementTy)) (arrayLength target) i j) with
          context := c } : Building).pushAll (arraySlice s₃.results elementTy (.result s₁.results (.ptr elementTy)) j)) := by
  unfold buildSliceArray at run
  simp only [is] at run
  obtain ⟨elementTy, s₀, translated, run⟩ := bind_ok.mp run
  obtain ⟨value, s₁, targeted, run⟩ := bind_ok.mp run
  obtain ⟨_, _, same, run⟩ := bind_ok.mp run
  cases (build_run _ _).symm.trans same
  obtain ⟨i, s₂, started, run⟩ := bind_ok.mp run
  obtain ⟨j, s₃, stopped, run⟩ := bind_ok.mp run
  obtain ⟨_, _, same, run⟩ := bind_ok.mp run
  cases (build_run _ _).symm.trans same
  obtain ⟨_, _, same, run⟩ := bind_ok.mp run
  cases (build_run _ _).symm.trans same
  obtain ⟨_, _, same, run⟩ := bind_ok.mp run
  cases (build_run _ _).symm.trans same
  obtain ⟨sliced, _, translated', run⟩ := bind_ok.mp run
  obtain ⟨c, found, rfl⟩ := llvmType_ok translated'
  obtain ⟨_, _, same, run⟩ := bind_ok.mp run
  cases (build_run _ _).symm.trans same
  obtain ⟨_, _, same, run⟩ := bind_ok.mp run
  cases (build_run _ _).symm.trans same
  obtain ⟨_, _, same, run⟩ := bind_ok.mp run
  cases (build_run _ _).symm.trans same
  cases (build_run _ _).symm.trans run
  refine ⟨elementTy, s₀, value, s₁, i, s₂, j, s₃, sliced, c, translated, targeted, ?_, ?_, found, ?_, ?_⟩
  · cases start <;> exact started
  · cases stop <;> exact stopped
  · simp [Op.type, Emitted.op?]
  · rintro rfl
    simp [Op.type, Emitted.op?, arrayFields, arraySlice, Building.pushAll, Building.push, Ty.index, arrayLength]
    rfl

end SliceArray

/-! ### Slices of arrays as data -/

/-- A slice of an array. A missing start is zero, and a missing end is the length of the array. -/
def arrayLaw (stride : BitVec 64) (array : Pointer) (length : Nat) (first last : Option Nat) : SliceValue where
  ptr := { array with offset := array.offset + stride * BitVec.ofNat 64 (first.getD 0) }
  len := BitVec.ofNat 64 (last.getD length - first.getD 0)
  cap := BitVec.ofNat 64 (length - first.getD 0)
  base := array

/-- A bound that is there has a value of some width, which is not negative. -/
def WideBound {M : Type} (platform : Platform M) (a : Activation M) (value : Llvm.Value) :
    Option Expr → Option (Nat × Nat) → Prop
  | none, bound => bound = none
  | some _, bound => ∃ width k, bound = some (width, k) ∧ k < 2 ^ (width - 1) ∧ value.type = .int width ∧
      value.fetch platform a.registers = some (.int width (BitVec.ofNat width k))

section Computing
variable {M : Type} {platform : Platform M} {a : Activation M} {element : Ty} {arrayPtr start stop : Llvm.Value}
  {array : Pointer} {n length : Nat} {i j : BitVec 64}

/-- What the instructions compute for bounds of 64 bits, if the length is read as `length`. -/
def arrayData (stride : BitVec 64) (array : Pointer) (length : Nat) (i j : BitVec 64) : List Datum :=
  let ptr : Datum := .ptr { array with offset := array.offset + stride * i }
  let len : Datum := .int 64 (j - i)
  let cap : Datum := .int 64 (BitVec.ofNat 64 length - i)
  let null : Datum := .ptr ⟨0, 0⟩
  [ptr, len, cap, .aggregate [ptr, .int 64 0, .int 64 0, null], .aggregate [ptr, len, .int 64 0, null],
    .aggregate [ptr, len, cap, null], .aggregate [ptr, len, cap, .ptr array]]

theorem array_computes (below : arrayPtr.Below n) (below' : start.Below n) (below'' : stop.Below n)
    (typed : arrayPtr.type = .ptr element) (at_ : arrayPtr.fetch platform a.registers = some (.ptr array))
    (starts : start.fetch platform a.registers = some (.int 64 i))
    (stops : stop.fetch platform a.registers = some (.int 64 j)) :
    Computes platform a n [] (arrayFields arrayPtr (.constInt (.int 64) length) start stop ++ arraySlice n element arrayPtr stop)
      (arrayData (platform.stride element) array length i j) := by
  refine .cons (fun s knows => ?_) ?_
  · have moved : (Op.gep arrayPtr start []).effect platform s = some (s.gives (.ptr { array with
        offset := array.offset + platform.stride element * i.signExtend 64 })) :=
      Llvm.effect_gep typed ((knows.fetch below).trans at_) ((knows.fetch below').trans starts)
    rwa [BitVec.signExtend_eq] at moved
  refine .cons (fun s knows => Llvm.effect_int ((knows.fetch below'').trans stops) ((knows.fetch below').trans starts) rfl) ?_
  refine .cons (fun s knows => Llvm.effect_int rfl ((knows.fetch below').trans starts) rfl) ?_
  refine .cons (fun s knows => Llvm.effect_insertValue rfl (knows.new 0 _ rfl) rfl) ?_
  refine .cons (fun s knows => Llvm.effect_insertValue (knows.new 3 _ rfl) (knows.new 1 _ rfl) rfl) ?_
  refine .cons (fun s knows => Llvm.effect_insertValue (knows.new 4 _ rfl) (knows.new 2 _ rfl) rfl) ?_
  exact .cons (fun s knows => Llvm.effect_insertValue (knows.new 5 _ rfl) ((knows.fetch below).trans at_) rfl) .nil

theorem effect_int_apart {op : Llvm.IntOp} {lhs rhs : Llvm.Value} {width width' : Nat} {x : BitVec width} {y : BitVec width'}
    (left : lhs.fetch platform a.registers = some (.int width x))
    (right : rhs.fetch platform a.registers = some (.int width' y)) (apart : width ≠ width') :
    (Op.int op lhs rhs).effect platform a = none := by
  simp [Op.effect, Op.compute, left, right, Datum.ints, apart]

end Computing

section Running
variable {M : Type} {platform : Platform M} {a after : Activation M} {element : Ty} {arrayPtr start stop : Llvm.Value}
  {array : Pointer} {length width width' x y : Nat} {s : Building} {events : List Llvm.Event}

def Building.arraySlicedAt (s : Building) (element : Ty) (arrayPtr arrayLength start stop : Llvm.Value) :
    Building :=
  s.pushAll (arrayFields arrayPtr arrayLength start stop ++ arraySlice s.results element arrayPtr stop)

/-- Only bounds of 64 bits can be subtracted from the length. -/
theorem Building.Here.wide_stuck (here : s.Here a) (sound : s.Sound) (below : arrayPtr.Below s.results)
    (below' : start.Below s.results) (below'' : stop.Below s.results) (typed : arrayPtr.type = .ptr element)
    (at_ : arrayPtr.fetch platform a.registers = some (.ptr array))
    (starts : start.fetch platform a.registers = some (.int width (BitVec.ofNat width x)))
    (stops : stop.fetch platform a.registers = some (.int width' (BitVec.ofNat width' y)))
    (apart : ¬(width = 64 ∧ width' = 64)) :
    ¬(s.arraySlicedAt element arrayPtr (.constInt (.int 64) length) start stop).Finishes platform a events after := by
  have moves (x' : Activation M) (knows : Knows a s.results [] x') : (Op.gep arrayPtr start []).effect platform x' =
      some (x'.gives (.ptr { array with
        offset := array.offset + platform.stride element * (BitVec.ofNat width x).signExtend 64 })) :=
    Llvm.effect_gep typed ((knows.fetch below).trans at_) ((knows.fetch below').trans starts)
  by_cases same : width = width'
  · subst same
    have narrow : 64 ≠ width := fun wide => apart ⟨wide.symm, wide.symm⟩
    have continues : (s.pushAll ([.gep arrayPtr start [], .int .sub stop start] ++
        [.int .sub (.constInt (.int 64) length) start])).Continues
        (s.arraySlicedAt element arrayPtr (.constInt (.int 64) length) start stop).block :=
      Building.continues_pushAll (s.pushAll (arrayFields arrayPtr (.constInt (.int 64) length) start stop)) _
    have computes : Computes platform a s.results [] [.gep arrayPtr start [], .int .sub stop start]
        [.ptr { array with offset := array.offset + platform.stride element * (BitVec.ofNat width x).signExtend 64 },
          .int width (BitVec.ofNat width y - BitVec.ofNat width x)] := by
      refine .cons moves (.cons (fun x' knows => ?_) .nil)
      exact Llvm.effect_int ((knows.fetch below'').trans stops) ((knows.fetch below').trans starts) rfl
    refine here.not_finishes sound continues computes fun x' knows => ?_
    exact effect_int_apart rfl ((knows.fetch below').trans starts) narrow
  · have continues : (s.pushAll ([.gep arrayPtr start []] ++ [.int .sub stop start])).Continues
        (s.arraySlicedAt element arrayPtr (.constInt (.int 64) length) start stop).block :=
      Building.continues_pushAll (s.pushAll [.gep arrayPtr start [], .int .sub stop start])
        (.int .sub (.constInt (.int 64) length) start :: arraySlice s.results element arrayPtr stop)
    refine here.not_finishes sound continues (.cons moves .nil) fun x' knows => ?_
    exact effect_int_apart ((knows.fetch below'').trans stops) ((knows.fetch below').trans starts) (Ne.symm same)

theorem Building.Here.arraySliced (here : s.Here a) (sound : s.Sound) (below : arrayPtr.Below s.results)
    (below' : start.Below s.results) (below'' : stop.Below s.results) (typed : arrayPtr.type = .ptr element)
    (at_ : arrayPtr.fetch platform a.registers = some (.ptr array))
    (starts : start.fetch platform a.registers = some (.int 64 (BitVec.ofNat 64 x)))
    (stops : stop.fetch platform a.registers = some (.int 64 (BitVec.ofNat 64 y))) :
    ∃ after, (s.arraySlicedAt element arrayPtr (.constInt (.int 64) length) start stop).Finishes platform a [] after ∧
      after.registers (s.results + 6) = some (SliceValue.datum
        ⟨{ array with offset := array.offset + platform.stride element * BitVec.ofNat 64 x },
          BitVec.ofNat 64 y - BitVec.ofNat 64 x, BitVec.ofNat 64 length - BitVec.ofNat 64 x, array⟩) := by
  obtain ⟨after, reached, there, knows⟩ := here.computes sound (.refl _)
    (array_computes below below' below'' typed at_ starts stops)
  exact ⟨after, ⟨reached, there⟩, knows.new 6 _ rfl⟩

theorem arrayLaw_iff {stride : BitVec 64} {found : Nat} {first last : Option Nat} (small : length < 2 ^ 32)
    (small' : found < 2 ^ 32) (le : first.getD 0 ≤ last.getD length) (le' : last.getD length ≤ length) :
    (⟨{ array with offset := array.offset + stride * BitVec.ofNat 64 (first.getD 0) },
      BitVec.ofNat 64 (last.getD found) - BitVec.ofNat 64 (first.getD 0),
      BitVec.ofNat 64 found - BitVec.ofNat 64 (first.getD 0), array⟩ : SliceValue) =
        arrayLaw stride array length first last ↔ found = length := by
  have before {n m : Nat} (le : m ≤ n) (small : n < 2 ^ 32) : BitVec.ofNat 64 n - BitVec.ofNat 64 m = BitVec.ofNat 64 (n - m) := by
    have toNat : (BitVec.ofNat 64 n).toNat = n := by
      rw [BitVec.toNat_ofNat]
      omega
    rw [sub_ofNat (by omega), toNat]
  simp only [arrayLaw, SliceValue.mk.injEq, true_and, and_true]
  constructor
  · rintro ⟨_, cap⟩
    rw [← before (by omega) small] at cap
    have same := congrArg (fun b => (b + BitVec.ofNat 64 (first.getD 0)).toNat) cap
    simp only [BitVec.sub_add_cancel, BitVec.toNat_ofNat] at same
    omega
  · rintro rfl
    exact ⟨before le (by omega), before (by omega) small⟩

end Running

/-! ### Slice expressions of arrays -/

section Expressions
variable {decls : List Decl} {fuel : Nat} {loc : Loc} {element : AstType} {target : Expr} {start stop : Option Expr}
  {kind : IndexSliceKind} {lvalue : Bool} {s s₁ s₃ s' : Building} {elementTy : Ty} {i j result : Llvm.Value} {length : Nat}

/-- The code for the target and the bounds of a slice of an array, before they are used. The address
of the target is the result with the number that `s₁` gives. -/
structure ArraySlicesAt (decls : List Decl) (fuel : Nat) (element : AstType) (target : Expr) (start stop : Option Expr)
    (s : Building) (elementTy : Ty) (s₁ : Building) (i j : Llvm.Value) (s₃ : Building) : Prop where
  run : ∃ s₀ value s₂, llvmType fuel element s = .ok (elementTy, s₀) ∧
    codegenExpr decls fuel target true s₀ = .ok (value, s₁) ∧
    arrayBound (codegenExpr decls fuel) (.constNull (.int 64)) start (s₁.push (.op (.pointerCast value (.ptr elementTy)))) =
      .ok (i, s₂) ∧
    arrayBound (codegenExpr decls fuel) (arrayLength target) stop s₂ = .ok (j, s₃)

theorem arrayBound_generates {c : Context} {n : Nat} {missing : Llvm.Value} (there : missing.Below n)
    (bound : Option Expr) :
    Generates c n (∃ p ∈ bound.toList, Opens c decls p) (∀ p ∈ bound.toList, ¬Nested c decls p)
      (arrayBound (codegenExpr decls fuel) missing bound) Llvm.Value.Below := by
  cases bound with
  | none => exact (Generates.pure _ fun _ le => there.mono le).congr (by simp) (by simp)
  | some expr => exact (Generates.expr c decls fuel n expr false).congr (by simp) (by simp)

theorem ArraySlicesAt.sound (slices : ArraySlicesAt decls fuel element target start stop s elementTy s₁ i j s₃)
    (sound : s.Sound) : s₃.Sound ∧ s₁.results < s₃.results ∧ i.Below s₃.results ∧ j.Below s₃.results ∧
      s.context.Gains s₃.context := by
  obtain ⟨s₀, value, s₂, translated, targeted, started, stopped⟩ := slices.run
  obtain ⟨first, _⟩ := Generates.llvmType element _ _ _ sound (.refl _) (Nat.le_refl _) translated
  obtain ⟨second, _⟩ := Generates.expr s.context decls fuel _ target true _ _ _ first.sound first.context (Nat.le_refl _) targeted
  have gains := first.context.trans second.context
  have cast : (s₁.push (.op (.pointerCast value (.ptr elementTy)))).Sound := second.sound.push trivial
  have null : (Llvm.Value.constNull (.int 64)).Below (s₁.results + 1) := trivial
  obtain ⟨third, below⟩ := arrayBound_generates null start _ _ _ cast gains (Nat.le_refl _) started
  have constant : (arrayLength target).Below s₂.results := trivial
  obtain ⟨fourth, below'⟩ := arrayBound_generates constant stop _ _ _ third.sound (gains.trans third.context)
    (Nat.le_refl _) stopped
  have pushed : s₁.results < (s₁.push (.op (.pointerCast value (.ptr elementTy)))).results := Nat.lt_succ_self _
  have later := Nat.le_trans third.results fourth.results
  exact ⟨fourth.sound, Nat.lt_of_lt_of_le pushed later, below.mono fourth.results, below',
    gains.trans (third.context.trans fourth.context)⟩

theorem WideBound.fetch {M : Type} {platform : Platform M} {a : Activation M} {bound : Option Expr}
    {first : Option (Nat × Nat)} {missing : Llvm.Value} {n : Nat} (is : WideBound platform a i bound first)
    (started : arrayBound (codegenExpr decls fuel) missing bound s = .ok (i, s')) (typed : missing.type = .int 64)
    (fetched : missing.fetch platform a.registers = some (.int 64 (BitVec.ofNat 64 n))) :
    ∃ width, i.type = .int width ∧
      i.fetch platform a.registers = some (.int width (BitVec.ofNat width ((first.map Prod.snd).getD n))) ∧
      (width = 64 ↔ ∀ b ∈ first, b.1 = 64) := by
  cases bound with
  | none =>
    cases started
    cases is
    exact ⟨64, typed, fetched, by simp⟩
  | some expr =>
    obtain ⟨width, k, rfl, _, typed, fetched⟩ := is
    exact ⟨width, typed, fetched, by simp⟩

/-- The length that `slice_array` reads is that of the array, or zero where the type is a name. -/
theorem length_found {c : Context} {type element : AstType}
    (found : resolveTypeName c fuel type = .ok (.mk 0 (.arrayType element length))) :
    type.kind.length? = some length ∨ type.kind.length? = none := by
  cases fuel with
  | zero => cases found
  | succ fuel =>
    obtain ⟨pointer, kind⟩ := type
    cases kind with
    | arrayType inner m =>
      rw [resolveTypeName_other (by simp)] at found
      cases found
      exact .inl rfl
    | _ => exact .inr rfl

theorem sliceType_translated {c c' d : Context} {fuel' : Nat} {t sliced : Ty} (le : NoMoreTypes c c')
    (translated : codegenType fuel element c = .ok (t, d)) {d' : Context}
    (translated' : codegenType fuel' (.mk 0 (.sliceType element)) c' = .ok (sliced, d')) :
    sliced = sliceTy t := by
  cases fuel' with
  | zero => cases translated'
  | succ fuel' =>
    obtain ⟨l, _, run, same⟩ := bind_ok.mp translated'
    cases same
    obtain ⟨inner, _, run, same⟩ := bind_ok.mp run
    cases same
    rw [codegenType_agree (fun _ _ => id) le translated run]
    rfl

theorem codegenIndexSliceExpr_array (found : resolveTypeName s.context fuel target.type = .ok (.mk 0 (.arrayType element length)))
    (run : codegenExpr decls (fuel + 1) (.mk loc (.mk 0 (.sliceType element)) (.indexSliceExpr target start stop kind))
      lvalue s = .ok (result, s')) :
    buildSliceArray fuel (codegenExpr decls fuel) (.mk 0 (.sliceType element)) target start stop s = .ok (result, s') := by
  obtain ⟨t', _, resolves, run⟩ := bind_ok.mp run
  obtain ⟨found', rfl⟩ := resolved_ok resolves
  cases found.symm.trans found'
  exact run

theorem arraySlicedAt_wellTyped {n : Nat} {arrayPtr : Llvm.Value} (sized : elementTy.sized = true)
    (pointer : arrayPtr.type = .ptr elementTy) (typed : i.type = .int 64) (typed' : j.type = .int 64) :
    ∀ op ∈ arrayFields arrayPtr (arrayLength target) i j ++ arraySlice n elementTy arrayPtr j, op.WellTyped := by
  have constant : (arrayLength target).type = .int 64 := rfl
  simp [arrayFields, arraySlice, Op.WellTyped, pointer, typed, typed', constant, sized, sliceTy, Ty.index]

theorem copyType_ok {t t' : AstType} {decls decls' : List Decl} (run : copyType t decls = .ok (t', decls')) : t' = t := by
  unfold copyType at run
  split at run <;> cases run
  rfl

/-- A slice of an array is prepared with the type of a slice of its elements. -/
theorem prepareExpr_arraySlice {context : Context} {hint : Hint} {e : Expr} {decls' : List Decl}
    (run : prepareExpr context (fuel + 1) (.mk loc type (.indexSliceExpr target start stop kind)) hint decls =
      .ok (e, decls')) :
    ∃ target' start' stop' type', e = .mk loc type' (.indexSliceExpr target' start' stop' kind) ∧
      ∀ pointer element length, resolveTypeName context fuel target'.type = .ok (.mk pointer (.arrayType element length)) →
        type' = .mk 0 (.sliceType element) := by
  obtain ⟨target', _, _, run⟩ := bind_ok.mp run
  obtain ⟨start', _, _, run⟩ := bind_ok.mp run
  obtain ⟨stop', _, _, run⟩ := bind_ok.mp run
  obtain ⟨resolved, _, resolves, run⟩ := bind_ok.mp run
  obtain ⟨_, is, same⟩ := ok_of_bind resolves
  cases same
  refine ⟨target', start', stop', ?_⟩
  obtain ⟨pointers, k⟩ := resolved
  cases k with
  | sliceType inner =>
    obtain ⟨type', _, _, run⟩ := bind_ok.mp run
    cases run
    refine ⟨type', rfl, fun pointer element length found => ?_⟩
    cases is.symm.trans found
  | arrayType inner count =>
    obtain ⟨type', _, copied, run⟩ := bind_ok.mp run
    cases run
    refine ⟨_, rfl, fun pointer element length found => ?_⟩
    cases is.symm.trans found
    rw [copyType_ok copied]
  | _ => cases run

/-- A slice of an array is well typed and what the law says just when the array's type is written
out, or has no elements, and all bounds have 64 bits. -/
theorem array_slicing_iff (sound : s.Sound) (small : length < 2 ^ 32)
    (found : resolveTypeName s.context fuel target.type = .ok (.mk 0 (.arrayType element length)))
    (run : codegenExpr decls (fuel + 1) (.mk loc (.mk 0 (.sliceType element)) (.indexSliceExpr target start stop kind))
      lvalue s = .ok (result, s')) :
    ∃ elementTy s₁ i j s₃, ArraySlicesAt decls fuel element target start stop s elementTy s₁ i j s₃ ∧
      ∀ {M : Type} (platform : Platform M) (a : Activation M) (array : Pointer) (first last : Option (Nat × Nat)),
        s₃.Here a → elementTy.sized = true →
        (Llvm.Value.result s₁.results (.ptr elementTy)).fetch platform a.registers = some (.ptr array) →
        WideBound platform a i start first → WideBound platform a j stop last →
        (first.map Prod.snd).getD 0 ≤ (last.map Prod.snd).getD length → (last.map Prod.snd).getD length ≤ length →
        (((∃ ops : List Op, s'.emitted = s₃.emitted ++ ops.map .op ∧ ∀ op ∈ ops, op.WellTyped) ∧
          ∃ events after, s'.Finishes platform a events after ∧ result.fetch platform after.registers = some
            (arrayLaw (platform.stride elementTy) array length (first.map Prod.snd) (last.map Prod.snd)).datum) ↔
          (target.type.kind.length? ≠ none ∨ length = 0) ∧ (∀ b ∈ first, b.1 = 64) ∧ ∀ b ∈ last, b.1 = 64) := by
  have built := codegenIndexSliceExpr_array found run
  obtain ⟨elementTy, s₀, value, s₁, i, s₂, j, s₃, sliced, c, translated, targeted, started, stopped, translated', rfl, steps⟩ :=
    buildSliceArray_ok rfl built
  have slices : ArraySlicesAt decls fuel element target start stop s elementTy s₁ i j s₃ :=
    ⟨s₀, value, s₂, translated, targeted, started, stopped⟩
  obtain ⟨sound₃, inside, below, below', gains⟩ := slices.sound sound
  obtain ⟨_, elementRun, _⟩ := llvmType_ok translated
  obtain rfl := sliceType_translated gains.noMoreTypes elementRun translated'
  refine ⟨elementTy, s₁, i, j, s₃, slices, ?_⟩
  intro M platform a array first last here sized at_ firstIs lastIs le le'
  obtain ⟨width, typed, starts, wide⟩ := firstIs.fetch started rfl rfl
  obtain ⟨width', typed', stops, wide'⟩ := lastIs.fetch stopped rfl rfl
  -- The type of the slice is translated on the way, which changes the context only.
  let t : Building := { s₃ with context := c }
  have soundT : t.Sound := sound₃.gain (Context.Gains.codegenType (.refl _) translated')
  have hereT : t.Here a := here
  have same : s' = t.arraySlicedAt elementTy (.result s₁.results (.ptr elementTy)) (arrayLength target) i j := steps rfl
  subst same
  have emitted : (t.arraySlicedAt elementTy (.result s₁.results (.ptr elementTy)) (arrayLength target) i j).emitted =
      s₃.emitted ++ (arrayFields (.result s₁.results (.ptr elementTy)) (arrayLength target) i j ++
        arraySlice s₃.results elementTy (.result s₁.results (.ptr elementTy)) j).map .op := by
    simp [Building.arraySlicedAt, arrayFields, arraySlice, Building.pushAll, Building.push, t]
  rw [← wide, ← wide']
  by_cases both : width = 64 ∧ width' = 64
  · obtain ⟨rfl, rfl⟩ := both
    have wellTyped : ∀ op ∈ arrayFields (.result s₁.results (.ptr elementTy)) (arrayLength target) i j ++
        arraySlice s₃.results elementTy (.result s₁.results (.ptr elementTy)) j, op.WellTyped :=
      arraySlicedAt_wellTyped sized rfl typed typed'
    obtain ⟨after, finishes, holds⟩ : ∃ after,
        (t.arraySlicedAt elementTy (.result s₁.results (.ptr elementTy)) (arrayLength target) i j).Finishes platform a [] after ∧ _ :=
      hereT.arraySliced soundT inside below below' rfl at_ starts stops
    have read : target.type.kind.length?.getD 0 = length ↔ target.type.kind.length? ≠ none ∨ length = 0 := by
      rcases length_found found with written | named
      · simp [written]
      · simp [named, eq_comm]
    have short : target.type.kind.length?.getD 0 < 2 ^ 32 := by
      rcases length_found found with written | named
      · simpa [written] using small
      · simp [named]
    simp only [and_self, and_true]
    rw [← read, ← arrayLaw_iff small short le le']
    constructor
    · rintro ⟨_, events, after', finishes', law⟩
      obtain ⟨_, rfl⟩ := finishes.unique finishes'
      exact SliceValue.datum_inj (Option.some.inj (holds.symm.trans law))
    · exact fun law => ⟨⟨_, emitted, wellTyped⟩, [], after, finishes, holds.trans (by rw [law])⟩
  · have below₁ : (Llvm.Value.result s₁.results (.ptr elementTy)).Below t.results := inside
    refine iff_of_false ?_ (fun holds => both holds.2)
    rintro ⟨_, events, after, finishes, _⟩
    exact hereT.wide_stuck soundT below₁ below below' rfl at_ starts stops both finishes

end Expressions

def fourNumbers : AstType := .mk 0 (.arrayType int64 4)

/-- The type name `t` for it. -/
def fourName : AstType := .mk 0 (.namedType [116])

def arrayBuilding (type : AstType) : Building :=
  ⟨⟨[⟨.INVALID, some [97], some type, some (.result 0 (.ptr (.array (.int 64) 4))), none, none, 0, true⟩,
    ⟨.INVALID, some [116], some fourNumbers, none, none, none, 0, true⟩], []⟩, [.op (.alloca (.array (.int 64) 4))], 1, 1, 0, []⟩

theorem arrayBuilding_sound (type : AstType) : (arrayBuilding type).Sound where
  numbered := rfl
  entered := Nat.one_pos
  inside := by simp [arrayBuilding, Emitted.Inside]
  known := by simp [arrayBuilding, Llvm.Value.Below]

def arrayActivation : Activation (Pointer → Option Datum) :=
  ⟨fun k => if k = 1 then some (.ptr ⟨5, 0⟩) else none, fun _ => none, 6, 0, 0, 2⟩

/-- `a[:]`. -/
def sliceOfA (type : AstType) : Expr :=
  .mk ⟨0, 0⟩ (.mk 0 (.sliceType int64)) (.indexSliceExpr (.mk ⟨0, 0⟩ type (.identExpr [97])) none none .COPY)

/-- `a[:]` of an array with its type written out. -/
theorem array_slice_whole : ∃ result s' events after,
    codegenExpr [] 4 (sliceOfA fourNumbers) false (arrayBuilding fourNumbers) = .ok (result, s') ∧
      s'.Finishes Llvm.cells arrayActivation events after ∧
        result.fetch Llvm.cells after.registers = some (SliceValue.datum ⟨⟨5, 0⟩, 4, 4, ⟨5, 0⟩⟩) := by
  obtain ⟨⟨result, s'⟩, run⟩ : ∃ r, codegenExpr [] 4 (sliceOfA fourNumbers) false (arrayBuilding fourNumbers) = .ok r :=
    ⟨_, rfl⟩
  obtain ⟨elementTy, s₁, i, j, s₃, ⟨s₀, value, s₂, translated, targeted, started, stopped⟩, law⟩ :=
    array_slicing_iff (arrayBuilding_sound fourNumbers) (by decide) rfl run
  cases translated
  cases targeted
  cases started
  cases stopped
  obtain ⟨_, events, after, finishes, holds⟩ := (law Llvm.cells arrayActivation ⟨5, 0⟩ none none ⟨rfl, rfl⟩ rfl rfl rfl rfl
    (by decide) (by decide)).mpr ⟨.inl nofun, nofun, nofun⟩
  exact ⟨result, s', events, after, run, finishes, holds⟩

/-- `a[:]` of an array whose type is a name has no elements. -/
theorem named_array_slice_empty : ∃ result s' after,
    codegenExpr [] 4 (sliceOfA fourName) false (arrayBuilding fourName) = .ok (result, s') ∧
      s'.Finishes Llvm.cells arrayActivation [] after ∧
        result.fetch Llvm.cells after.registers = some (SliceValue.datum ⟨⟨5, 0⟩, 0, 0, ⟨5, 0⟩⟩) ∧
          arrayLaw 8 ⟨5, 0⟩ 4 none none = ⟨⟨5, 0⟩, 4, 4, ⟨5, 0⟩⟩ := by
  let cast := (arrayBuilding fourName).push (.op (.pointerCast (.result 0 (.ptr (.array (.int 64) 4))) (.ptr (.int 64))))
  have sound : cast.Sound := (arrayBuilding_sound fourName).push trivial
  have here : cast.Here arrayActivation := ⟨rfl, rfl⟩
  have below : (Llvm.Value.result 1 (.ptr (.int 64))).Below cast.results := Nat.lt_succ_self 1
  have run : codegenExpr [] 4 (sliceOfA fourName) false (arrayBuilding fourName) = .ok (.result 8 (sliceTy (.int 64)),
      cast.arraySlicedAt (.int 64) (.result 1 (.ptr (.int 64))) (.constInt (.int 64) 0) (.constNull (.int 64))
        (.constInt (.int 64) 0)) := rfl
  have null : (Llvm.Value.constNull (.int 64)).Below cast.results := trivial
  have length : (Llvm.Value.constInt (.int 64) 0).Below cast.results := trivial
  have at_ : (Llvm.Value.result 1 (.ptr (.int 64))).fetch Llvm.cells arrayActivation.registers = some (.ptr ⟨5, 0⟩) := rfl
  obtain ⟨after, finishes, holds⟩ := here.arraySliced sound below null length rfl at_ rfl rfl
  exact ⟨_, _, after, run, finishes, holds, by decide⟩

end Low
