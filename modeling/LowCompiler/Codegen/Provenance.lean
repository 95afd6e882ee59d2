import LowCompiler.Codegen.ArraySlices

/-!
# Where slices come from

Pointer, capacity and base of a slice stay those of the allocation that `make` made, through
any chain of slice expressions, so that `dispose` frees that allocation.
-/

namespace Low

open Stateful
open Building (Computes Knows)
open Llvm (Op Ty Graph Platform Pointer Activation Datum Reaches executeAll)

/-! ### `make` -/

section Make
variable {M : Type} {platform : Platform M} {decls : List Decl} {fuel : Nat} {loc : Loc} {type makeType slice : AstType}
  {count : Expr} {lvalue : Bool} {s s₁ s' : Building} {element : Ty} {size value : Llvm.Value} {a : Activation M}
  {n : BitVec 64}

def madeSlice (array : Pointer) (n : BitVec 64) : SliceValue := ⟨array, 0, n, array⟩

theorem assembling_computes {k : Nat} {arrptr cap : Llvm.Value} {array : Pointer} (below : arrptr.Below k)
    (below' : cap.Below k) (at_ : arrptr.fetch platform a.registers = some (.ptr array))
    (counted : cap.fetch platform a.registers = some (.int 64 n)) :
    Computes platform a k [] (assembling k (sliceTy element) arrptr cap)
      [.aggregate [.ptr array, .int 64 0, .int 64 0, .ptr ⟨0, 0⟩], .aggregate [.ptr array, .int 64 0, .int 64 n, .ptr ⟨0, 0⟩],
        (madeSlice array n).datum] := by
  refine .cons (fun s knows => Llvm.effect_insertValue rfl ((knows.fetch below).trans at_) rfl) ?_
  refine .cons (fun s knows => Llvm.effect_insertValue (knows.new 0 _ rfl) ((knows.fetch below').trans counted) rfl) ?_
  exact .cons (fun s knows => Llvm.effect_insertValue (knows.new 1 _ rfl) ((knows.fetch below).trans at_) rfl) .nil

theorem cast_computes {k : Nat} {ptr : Llvm.Value} {array : Pointer} (below : ptr.Below k)
    (at_ : ptr.fetch platform a.registers = some (.ptr array)) :
    Computes platform a k [] [.pointerCast ptr (.ptr element)] [.ptr array] :=
  .cons (fun _ knows => Llvm.effect_pointerCast ((knows.fetch below).trans at_)) .nil

theorem casted_context {cap : Llvm.Value} : (s.casted element cap).context = s.context := by
  simp [Building.casted, Building.zeroed, Building.turning, Building.counting, Building.enter, Building.append]

theorem casted_results {cap : Llvm.Value} : (s.casted element cap).results = s.results + 10 := by
  simp [Building.casted, Building.zeroed_results, Emitted.op?]

theorem casted_runs {graph : Graph} (sound : s.Sound) (below : size.Below s.results) (sized : size.type = .int 64)
    (continues : (s.casted element size).Continues graph) (here : s.Here a)
    (counted : size.fetch platform a.registers = some (.int 64 n)) :
    ∃ events after, Reaches platform graph a events after ∧ (s.casted element size).Here after ∧
      (∀ array type k, .allocated array type k ∈ events ↔ array = ⟨a.objects, 0⟩ ∧ type = element ∧ k = n.toNat) ∧
      after.registers (s.results + 9) = some (.ptr ⟨a.objects, 0⟩) ∧
      ∀ k < s.results, after.registers k = a.registers k := by
  obtain ⟨events, x, reached, there, only, at_, kept⟩ := arrayNew_allocates sound below sized (by decide)
    (continues.before (Building.continues_push _ _)) here counted
  have inside : (s.arrptr element).Below (s.zeroed element size).results := by
    rw [Building.zeroed_results]
    exact Nat.lt_add_of_pos_right (by decide)
  have casts : Computes platform x (s.zeroed element size).results [] [.pointerCast (s.arrptr element) (.ptr element)] _ :=
    cast_computes inside at_
  have casted : ((s.zeroed element size).pushAll [.pointerCast (s.arrptr element) (.ptr element)]).Continues graph := continues
  obtain ⟨y, cast, there', knows⟩ := there.computes (Building.zeroed_codes element size sound).sound casted casts
  rw [Building.zeroed_results] at knows
  refine ⟨_, y, reached.trans cast, there', by simpa using only, knows.new 0 _ rfl, fun k inside => ?_⟩
  exact (knows.old k (by omega)).trans (kept k inside)

/-- A run through the code for `make` comes to the slice of its only allocation. -/
theorem make_finishes (sound : s.Sound)
    (found : resolveTypeName s.context fuel makeType = .ok (.mk 0 (.sliceType slice)))
    (run : codegenExpr decls (fuel + 1) (.mk loc type (.makeBuiltin makeType count)) lvalue s = .ok (value, s'))
    (place : ArrayNewAt decls fuel (.mk loc type (.makeBuiltin makeType count)) s s₁ element size) (here : s₁.Here a)
    (counted : size.fetch platform a.registers = some (.int 64 n)) :
    value.type = sliceTy element ∧ ∃ events after, s'.Finishes platform a events after ∧
      (∀ array type k, .allocated array type k ∈ events ↔ array = ⟨a.objects, 0⟩ ∧ type = element ∧ k = n.toNat) ∧
      value.fetch platform after.registers = some (madeSlice ⟨a.objects, 0⟩ n).datum := by
  obtain ⟨t, slice', cap, s₀, element', s₁', type', s₃, found', is, capped, translated, translated', rfl, rfl⟩ :=
    codegenMakeBuiltinExpr_ok run
  cases found.symm.trans found'
  cases place with
  | make found₂ is₂ capped₂ translated₂ =>
    cases found.symm.trans found₂
    cases is₂
    cases is
    cases capped.symm.trans capped₂
    cases translated.symm.trans translated₂
    obtain ⟨first, _⟩ := Generates.expr s.context decls fuel _ count false _ _ _ sound (.refl _) (Nat.le_refl _) capped
    have second : (s₀.push (.op (.intCast cap (.int 64)))).Sound := first.sound.push trivial
    obtain ⟨third, _⟩ := Generates.llvmType slice _ _ _ second (.refl _) (Nat.le_refl _) translated
    have inside : (Llvm.Value.result s₀.results (.int 64)).Below s₁.results := Nat.lt_of_lt_of_le (Nat.lt_succ_self _) third.results
    have zeroed := (Building.zeroed_codes element (.result s₀.results (.int 64)) third.sound).sound
    have casted : (s₁.casted element (.result s₀.results (.int 64))).Sound := zeroed.push trivial
    -- The type of the slice, which is translated after its array was made.
    obtain ⟨_, elementRun, _⟩ := llvmType_ok translated
    obtain ⟨c, sliceRun, rfl⟩ := llvmType_ok translated'
    have sound₃ := casted.gain (Context.Gains.codegenType (.refl _) sliceRun)
    rw [casted_context] at sliceRun
    obtain rfl := sliceType_translated third.context.noMoreTypes elementRun sliceRun
    refine ⟨rfl, ?_⟩
    let t : Building := { s₁.casted element (.result s₀.results (.int 64)) with context := c }
    have results : t.results = s₁.results + 10 := casted_results
    have castedIn : (s₁.casted element (.result s₀.results (.int 64))).Continues (t.pushAll (assembling t.results
      (sliceTy element) (.result (s₁.results + 9) (.ptr element)) (.result s₀.results (.int 64)))).block :=
      (Building.continues_context _ c).mp (Building.continues_pushAll t _)
    -- The array, the cast of its pointer, and the slice.
    obtain ⟨events, y, reached, there, only, at_, kept⟩ := casted_runs third.sound inside rfl castedIn here counted
    have sizeAt : y.registers s₀.results = some (.int 64 n) :=
      (kept _ inside).trans counted
    have arrayIn : (Llvm.Value.result (s₁.results + 9) (.ptr element)).Below t.results := by
      rw [results]
      exact Nat.lt_succ_self _
    have assembles : Computes platform y t.results [] (assembling t.results (sliceTy element)
        (.result (s₁.results + 9) (.ptr element)) (.result s₀.results (.int 64))) _ :=
      assembling_computes arrayIn (inside.mono (by omega)) at_ sizeAt
    have thereT : t.Here y := (Building.here_context _ c).mpr there
    obtain ⟨z, assembled, last, knows⟩ := thereT.computes sound₃ (.refl _) assembles
    refine ⟨_, z, ⟨reached.trans assembled, last⟩, ?_, knows.new 2 _ rfl⟩
    simpa using only

end Make

/-! ### Chains of slice expressions -/

/-- The slice was made with `n` elements, or is a bounded slice of one that was obtained. Each step
is a run through the code of its expression, in any function. -/
inductive Obtained {M : Type} (platform : Platform M) (element : Ty) (n : BitVec 64) (array : Pointer) : SliceValue → Prop where
  | made {decls : List Decl} {fuel : Nat} {loc : Loc} {type makeType elementType : AstType} {count : Expr} {lvalue : Bool}
      {s s₁ s' : Building} {size value : Llvm.Value} {a after : Activation M} {events : List Llvm.Event} {slice : SliceValue}
    (sound : s.Sound) (found : resolveTypeName s.context fuel makeType = .ok (.mk 0 (.sliceType elementType)))
    (run : codegenExpr decls (fuel + 1) (.mk loc type (.makeBuiltin makeType count)) lvalue s = .ok (value, s'))
    (place : ArrayNewAt decls fuel (.mk loc type (.makeBuiltin makeType count)) s s₁ element size) (here : s₁.Here a)
    (counted : size.fetch platform a.registers = some (.int 64 n)) (finishes : s'.Finishes platform a events after)
    (allocated : .allocated array element n.toNat ∈ events)
    (is : value.fetch platform after.registers = some slice.datum) : Obtained platform element n array slice
  | sliced {decls : List Decl} {fuel : Nat} {loc : Loc} {type t elementType : AstType} {target : Expr}
      {start stop : Option Expr} {kind : IndexSliceKind} {lvalue : Bool} {s s₃ s' : Building} {value i j result : Llvm.Value}
      {a after : Activation M} {events : List Llvm.Event} {width width' : Nat} {first : BitVec width} {last : BitVec width'}
      {slice slice' : SliceValue} (obtained : Obtained platform element n array slice) (sound : s.Sound)
    (found : resolveTypeName s.context fuel target.type = .ok t) (slices : t.kind = .sliceType elementType)
    (bounded : kind ≠ .COPY)
    (run : codegenExpr decls (fuel + 1) (.mk loc type (.indexSliceExpr target start stop kind)) lvalue s = .ok (result, s'))
    (place : SlicesAt decls fuel target start stop s value i j s₃) (here : s₃.Here a) (typed : value.type = sliceTy element)
    (is : value.fetch platform a.registers = some slice.datum) (starts : i.fetch platform a.registers = some (.int width first))
    (stops : j.fetch platform a.registers = some (.int width' last)) (finishes : s'.Finishes platform a events after)
    (is' : result.fetch platform after.registers = some slice'.datum) : Obtained platform element n array slice'

/-- The slice lies in an array of `n` elements, and reaches to its end. -/
structure SliceValue.From (slice : SliceValue) (stride n : BitVec 64) (array : Pointer) : Prop where
  reaches : ∃ k, slice.ptr = { array with offset := array.offset + stride * k } ∧ k + slice.cap = n
  base : slice.base = array

theorem madeSlice_from (stride n : BitVec 64) (array : Pointer) : (madeSlice array n).From stride n array where
  reaches := ⟨0, by simp [madeSlice], BitVec.zero_add n⟩
  base := rfl

theorem SliceValue.From.sliced {slice : SliceValue} {stride n : BitVec 64} {array : Pointer} (source : slice.From stride n array)
    (i j : BitVec 64) : (slice.sliced stride i j).From stride n array := by
  obtain ⟨⟨k, ptr, cap⟩, base⟩ := source
  refine ⟨⟨k + i, ?_, ?_⟩, base⟩
  · simp [SliceValue.sliced, ptr, BitVec.mul_add, BitVec.add_assoc]
  · rw [← cap]
    simp only [SliceValue.sliced]
    bv_omega

section Provenance
variable {M : Type} {platform : Platform M} {element : Ty} {n : BitVec 64} {array : Pointer} {slice : SliceValue}

theorem Obtained.from (obtained : Obtained platform element n array slice) :
    slice.From (platform.stride element) n array := by
  induction obtained with
  | made sound found run place here counted finishes allocated is =>
    obtain ⟨_, events, after, finishes', only, holds⟩ := make_finishes sound found run place here counted
    obtain ⟨rfl, rfl⟩ := finishes.unique finishes'
    obtain ⟨rfl, _⟩ := (only _ _ _).mp allocated
    cases SliceValue.datum_inj (Option.some.inj (is.symm.trans holds))
    exact madeSlice_from _ _ _
  | sliced obtained sound found slices bounded run place here typed is starts stops finishes is' ih =>
    obtain ⟨value, i, j, s₃, place', computes⟩ := slicesTo sound bounded (codegenIndexSliceExpr_slice found slices run)
    obtain ⟨s₁, s₂, targeted, started, stopped⟩ := place.run
    obtain ⟨s₁', s₂', targeted', started', stopped'⟩ := place'.run
    cases targeted.symm.trans targeted'
    cases started.symm.trans started'
    cases stopped.symm.trans stopped'
    obtain ⟨after, finishes', _, _, holds⟩ := computes platform _ element _ _ _ _ _ here typed is starts stops
    obtain ⟨rfl, rfl⟩ := finishes.unique finishes'
    cases SliceValue.datum_inj (Option.some.inj (is'.symm.trans holds))
    exact ih.sliced _ _

/-! ### `dispose` -/

variable {decls : List Decl} {fuel : Nat} {loc : Loc} {type : AstType} {target : Expr} {lvalue : Bool} {s s₁ s' : Building}
  {ptr value : Llvm.Value} {a : Activation M} {place : Pointer}

/-- What `dispose` leaves in the variable. -/
def noSlice : SliceValue := ⟨⟨0, 0⟩, 0, 0, ⟨0, 0⟩⟩

def disposing (k : Nat) (element : Ty) (ptr : Llvm.Value) : List Op :=
  [.load ptr, .extractValue (.result k (sliceTy element)) 3, .store (.constNull (sliceTy element)) ptr,
    .free (.result (k + 1) (.ptr element))]

theorem codegenDisposeBuiltinExpr_ok
    (run : codegenExpr decls (fuel + 1) (.mk loc type (.disposeBuiltin target)) lvalue s = .ok (value, s')) :
    ∃ ptr s₁, codegenExpr decls fuel target true s = .ok (ptr, s₁) ∧
      ∀ element, ptr.type = .ptr (sliceTy element) → s' = s₁.pushAll (disposing s₁.results element ptr) := by
  obtain ⟨ptr, s₁, targeted, run⟩ := bind_ok.mp run
  refine ⟨ptr, s₁, targeted, fun element typed => ?_⟩
  obtain ⟨_, _, same, run⟩ := bind_ok.mp run
  cases (build_run _ _).symm.trans same
  obtain ⟨_, _, same, run⟩ := bind_ok.mp run
  cases (build_run _ _).symm.trans same
  obtain ⟨_, _, same, run⟩ := bind_ok.mp run
  cases (build_run _ _).symm.trans same
  cases (build_run _ _).symm.trans run
  simp [disposing, Building.pushAll, Op.type, typed, sliceTy, Emitted.op?]

/-- The base is freed, and the variable becomes zero. -/
theorem dispose_finishes (sound : s₁.Sound) (below : ptr.Below s₁.results) (typed : ptr.type = .ptr (sliceTy element))
    (here : s₁.Here a) (pointed : ptr.fetch platform a.registers = some (.ptr place))
    (loaded : platform.load a.memory place (sliceTy element) = some slice.datum) :
    ∃ after, (s₁.pushAll (disposing s₁.results element ptr)).Finishes platform a
        [.stored place noSlice.datum, .freed slice.base] after ∧
      platform.load after.memory place (sliceTy element) = some noSlice.datum := by
  let read := a.after s₁.results (a.gives slice.datum)
  let based := read.after (s₁.results + 1) (read.gives (.ptr slice.base))
  let zeroed := based.after (s₁.results + 2)
    ⟨none, platform.store a.memory place noSlice.datum, a.objects, [.stored place noSlice.datum]⟩
  have loads : (Op.load ptr).effect platform a = some (a.gives slice.datum) := Llvm.effect_load typed pointed loaded
  have extracts : (Op.extractValue (.result s₁.results (sliceTy element)) 3).effect platform read =
      some (read.gives (.ptr slice.base)) := Llvm.effect_extractValue (Function.update_self _ _ _) rfl
  have pointed' : ptr.fetch platform based.registers = some (.ptr place) :=
    (below.fetch (Nat.le_succ _) _).trans ((below.fetch (Nat.le_refl _) _).trans pointed)
  have stores : (Op.store (.constNull (sliceTy element)) ptr).effect platform based =
      some ⟨none, platform.store a.memory place noSlice.datum, a.objects, [.stored place noSlice.datum]⟩ :=
    Llvm.effect_store rfl pointed'
  have base : zeroed.registers (s₁.results + 1) = some (.ptr slice.base) := by
    simp [zeroed, based]
  have frees : (Op.free (.result (s₁.results + 1) (.ptr element))).effect platform zeroed =
      some ⟨none, zeroed.memory, zeroed.objects, [.freed slice.base]⟩ := Llvm.effect_free base
  have run : executeAll platform (numberedFrom s₁.results (disposing s₁.results element ptr)) a =
      some ([.stored place noSlice.datum, .freed slice.base], _) :=
    Llvm.executeAll_cons loads (Llvm.executeAll_cons extracts (Llvm.executeAll_cons stores (Llvm.executeAll_cons frees rfl)))
  obtain ⟨reached, there⟩ := here.all sound (.refl _) run
  refine ⟨_, ⟨reached, there⟩, platform.load_stored ?_⟩
  exact Llvm.Ty.null_hasType (t := sliceTy element) (by simp [sliceTy])

/-- A slice that was made and sliced any number of times reaches to the end of its allocation, has
it as its base, and `dispose` of a variable with the slice frees it and leaves zeros. -/
theorem slice_provenance (obtained : Obtained platform element n array slice) :
    slice.From (platform.stride element) n array ∧
      ∀ {decls : List Decl} {fuel : Nat} {loc : Loc} {type : AstType} {target : Expr} {lvalue : Bool} {s s' : Building}
        {value : Llvm.Value}, s.Sound →
        codegenExpr decls (fuel + 1) (.mk loc type (.disposeBuiltin target)) lvalue s = .ok (value, s') →
        ∃ ptr s₁, codegenExpr decls fuel target true s = .ok (ptr, s₁) ∧
          ∀ (a : Activation M) (place : Pointer), s₁.Here a → ptr.type = .ptr (sliceTy element) →
            ptr.fetch platform a.registers = some (.ptr place) →
            platform.load a.memory place (sliceTy element) = some slice.datum →
            ∃ after, s'.Finishes platform a [.stored place noSlice.datum, .freed array] after ∧
              platform.load after.memory place (sliceTy element) = some noSlice.datum := by
  refine ⟨obtained.from, ?_⟩
  intro decls fuel loc type target lvalue s s' value sound run
  obtain ⟨ptr, s₁, targeted, built⟩ := codegenDisposeBuiltinExpr_ok run
  refine ⟨ptr, s₁, targeted, ?_⟩
  intro a place here typed pointed loaded
  obtain ⟨codes, below⟩ := Generates.expr s.context decls fuel _ target true _ _ _ sound (.refl _) (Nat.le_refl _) targeted
  rw [built element typed, ← obtained.from.base]
  exact dispose_finishes codes.sound below typed here pointed loaded

end Provenance

/-- `make([]int64, 2)`. -/
def makeTwo : Expr := .mk ⟨0, 0⟩ (.mk 0 (.sliceType int64)) (.makeBuiltin (.mk 0 (.sliceType int64)) (digit 2))

/-- The count of `makeTwo` was cast. -/
def madeActivation : Activation (Pointer → Option Datum) :=
  ⟨fun k => if k = 0 then some (.int 64 2) else none, fun _ => none, 0, 0, 0, 1⟩

/-- The code for `makeTwo`. -/
theorem makeTwo_run : ∃ r, codegenExpr [] 4 makeTwo false firstBuilding = .ok r := by
  have element (s : Building) : llvmType 3 int64 s = .ok (.int 64, s) := rfl
  have slice (s : Building) : llvmType 3 (.mk 0 (.sliceType int64)) s = .ok (sliceTy (.int 64), s) := rfl
  have assembled (t : Ty) (arrptr cap : Llvm.Value) (s : Building) : ∃ r, (do
      let slice ← build (.insertValue (.constNull t) arrptr 0)
      let slice ← build (.insertValue slice cap 2)
      build (.insertValue slice arrptr 3) : Codegen Llvm.Value) s = .ok r := ⟨_, rfl⟩
  let counted := firstBuilding.push (.op (.intCast (digitValue 2) (.int 64)))
  let size : Llvm.Value := .result 0 (.int 64)
  obtain ⟨r, run⟩ := assembled (sliceTy (.int 64)) (.result (counted.zeroed (.int 64) size).results (.ptr (.int 64))) size
    (counted.casted (.int 64) size)
  refine ⟨r, bind_ok.mpr ⟨.mk 0 (.sliceType int64), firstBuilding, rfl, ?_⟩⟩
  refine bind_ok.mpr ⟨digitValue 2, firstBuilding, digit_run 2 1 _, bind_ok.mpr ⟨size, counted, build_run _ _, ?_⟩⟩
  refine bind_ok.mpr ⟨_, _, element _, bind_ok.mpr ⟨_, _, Building.codegenArrayNew_run _ _ _, ?_⟩⟩
  exact bind_ok.mpr ⟨_, _, build_run _ _, bind_ok.mpr ⟨_, _, slice _, run⟩⟩

theorem makeTwo_obtained : Obtained Llvm.cells (.int 64) 2 ⟨0, 0⟩ (madeSlice ⟨0, 0⟩ 2) := by
  obtain ⟨⟨value, s'⟩, run⟩ := makeTwo_run
  have digits : codegenExpr [] 3 (digit 2) false firstBuilding = .ok (digitValue 2, firstBuilding) := digit_run 2 1 _
  have place : ArrayNewAt [] 3 makeTwo firstBuilding (firstBuilding.push (.op (.intCast (digitValue 2) (.int 64)))) (.int 64)
      (.result 0 (.int 64)) := ArrayNewAt.make rfl rfl digits rfl
  have here : (firstBuilding.push (.op (.intCast (digitValue 2) (.int 64)))).Here madeActivation := ⟨rfl, rfl⟩
  have counted : (Llvm.Value.result 0 (.int 64)).fetch Llvm.cells madeActivation.registers = some (.int 64 2) := rfl
  obtain ⟨_, events, after, finishes, only, holds⟩ := make_finishes firstBuilding_sound rfl run place here counted
  exact .made firstBuilding_sound rfl run place here counted finishes ((only _ _ _).mpr ⟨rfl, rfl, rfl⟩) holds

def loadedSlice (slice : SliceValue) : Activation (Pointer → Option Datum) :=
  ⟨fun k => if k = 1 then some slice.datum else none, fun _ => none, 6, 0, 0, 2⟩

/-- The slices of a slice in the variable `s` come from the array of the slice. -/
theorem Obtained.of_variable {n : BitVec 64} {array : Pointer} {slice slice' : SliceValue} {i j : Llvm.Value}
    {first last : BitVec 64} (start stop : Option UInt8) (kind : IndexSliceKind)
    (obtained : Obtained Llvm.cells (.int 64) n array slice) (bounded : kind ≠ .COPY)
    (run : ∃ r, codegenExpr [] 4 (sliceOfS start stop kind) false sliceBuilding = .ok r)
    (started : ∀ s, codegenBound (codegenExpr [] 3) (start.map digit) s = .ok (i, s))
    (stopped : ∀ s, codegenBound (codegenExpr [] 3) (stop.map digit) s = .ok (j, s))
    (starts : i.fetch Llvm.cells (loadedSlice slice).registers = some (.int 64 first))
    (stops : j.fetch Llvm.cells (loadedSlice slice).registers = some (.int 64 last))
    (same : slice.sliced 8 first last = slice') : Obtained Llvm.cells (.int 64) n array slice' := by
  obtain ⟨⟨result, s'⟩, run⟩ := run
  obtain ⟨value, i', j', s₃, place, computes⟩ :=
    slicesTo sliceBuilding_sound bounded (codegenIndexSliceExpr_slice rfl rfl run)
  have again := place
  obtain ⟨s₁, s₂, targeted, started', stopped'⟩ := place.run
  cases targeted
  cases (started _).symm.trans started'
  cases (stopped _).symm.trans stopped'
  obtain ⟨after, finishes, _, _, holds⟩ := computes Llvm.cells (loadedSlice slice) (.int 64) slice 64 64 first last ⟨rfl, rfl⟩
    rfl rfl starts stops
  rw [BitVec.signExtend_eq, BitVec.signExtend_eq] at holds
  exact .sliced obtained sliceBuilding_sound rfl rfl bounded run again ⟨rfl, rfl⟩ rfl rfl starts stops finishes
    (same ▸ holds)

/-- `s[0:2]` of it, whose length is positive. -/
theorem twoOfTwo_obtained : Obtained Llvm.cells (.int 64) 2 ⟨0, 0⟩ ⟨⟨0, 0⟩, 2, 2, ⟨0, 0⟩⟩ :=
  Obtained.of_variable (some 0) (some 2) .RANGE makeTwo_obtained (by decide) ⟨_, rfl⟩ (fun _ => rfl) (fun _ => rfl) rfl rfl
    (by decide)

/-- `s[1:]` of that, whose length is not. -/
theorem fromOne_obtained : Obtained Llvm.cells (.int 64) 2 ⟨0, 0⟩ ⟨⟨0, 8⟩, 0, 1, ⟨0, 0⟩⟩ :=
  Obtained.of_variable (some 1) none .POSTFIX twoOfTwo_obtained (by decide) ⟨_, rfl⟩ (fun _ => rfl) (fun _ => rfl) rfl rfl
    (by decide)

/-- The variable `s` holds the last of the slices. -/
def holdsFromOne : Activation (Pointer → Option Datum) :=
  ⟨fun k => if k = 0 then some (.ptr ⟨5, 0⟩) else none,
    fun p => if p = ⟨5, 0⟩ then some (SliceValue.datum ⟨⟨0, 8⟩, 0, 1, ⟨0, 0⟩⟩) else none, 6, 0, 0, 1⟩

/-- `dispose(s)` of a slice of a slice of what was made frees the array. -/
theorem sliced_disposed : SliceValue.From ⟨⟨0, 8⟩, 0, 1, ⟨0, 0⟩⟩ 8 2 ⟨0, 0⟩ ∧ ∃ value s' after,
    codegenExpr [] 4 (.mk ⟨0, 0⟩ (.mk 0 .voidType) (.disposeBuiltin (.mk ⟨0, 0⟩ (.mk 0 (.sliceType int64)) (.identExpr [115]))))
      false sliceBuilding = .ok (value, s') ∧
    s'.Finishes Llvm.cells holdsFromOne [.stored ⟨5, 0⟩ noSlice.datum, .freed ⟨0, 0⟩] after := by
  obtain ⟨⟨value, s'⟩, run⟩ : ∃ r, codegenExpr [] 4 (.mk ⟨0, 0⟩ (.mk 0 .voidType)
    (.disposeBuiltin (.mk ⟨0, 0⟩ (.mk 0 (.sliceType int64)) (.identExpr [115])))) false sliceBuilding = .ok r := ⟨_, rfl⟩
  obtain ⟨source, disposed⟩ := slice_provenance fromOne_obtained
  obtain ⟨ptr, s₁, targeted, finishes⟩ := disposed sliceBuilding_sound run
  cases targeted
  obtain ⟨after, finishes, _⟩ := finishes holdsFromOne ⟨5, 0⟩ ⟨rfl, rfl⟩ rfl rfl rfl
  exact ⟨source, value, s', after, run, finishes⟩

end Low
