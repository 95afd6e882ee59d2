import LowCompiler.Codegen.Provenance

/-!
# Slices in runs of the code

Runs through the code of `make`, of slice expressions and of indices come to the slices
and places that are computed at run time, in elements of the block that they lie in.
-/

namespace Low

open Stateful
open Building (Computes Knows)
open Llvm (Op Ty Graph Platform Pointer Activation Datum Reaches)

/-! ### Slices in a block -/

def elementOf (stride : BitVec 64) (block : Pointer) (i : BitVec 64) : Pointer :=
  { block with offset := block.offset + stride * i }

/-- A slice as data, with its pointers into a block. -/
def Slice.inBlock (slice : Slice) (stride : BitVec 64) (block : Pointer) : SliceValue where
  ptr := elementOf stride block slice.ptr
  len := slice.len
  cap := slice.cap
  base := elementOf stride block slice.base

def boundsOf (start stop : Option Expr) (kind : IndexSliceKind) (first last : BitVec 64) : SliceBounds where
  start := start.map fun _ => first
  stop := stop.map fun _ => last
  kind

section Blocks
variable {stride : BitVec 64} {block : Pointer} {i j : BitVec 64}

@[simp] theorem elementOf_zero : elementOf stride block 0#64 = block := by
  simp [elementOf]

@[simp] theorem elementOf_add : elementOf stride (elementOf stride block i) j = elementOf stride block (i + j) := by
  simp [elementOf, BitVec.mul_add, BitVec.add_assoc]

theorem makeSlice_inBlock (n : BitVec 64) : (makeSlice n).inBlock stride block = madeSlice block n := by
  simp [Slice.inBlock, makeSlice, madeSlice]

/-- `slice_slice` at run time is what its instructions compute. -/
theorem sliceSlice_inBlock {slice sliced : Slice} {bounds : SliceBounds} (run : sliceSlice slice bounds = some sliced) :
    (slice.inBlock stride block).sliced stride bounds.first (bounds.stop.getD 0) = sliced.inBlock stride block := by
  unfold sliceSlice at run
  split at run
  · cases run
  · cases run
    simp only [SliceValue.sliced, Slice.inBlock, SliceBounds.first, elementOf, BitVec.mul_add, BitVec.add_assoc]
    rfl

theorem sliceSlice_some {slice : Slice} {bounds : SliceBounds} (bounded : bounds.kind ≠ .COPY) :
    ∃ sliced, sliceSlice slice bounds = some sliced :=
  ⟨_, if_neg bounded⟩

end Blocks

/-! ### Slice expressions -/

section Slicing
variable {M : Type} {platform : Platform M} {decls : List Decl} {fuel : Nat} {loc : Loc} {type t elementType : AstType}
  {target : Expr} {start stop : Option Expr} {kind : IndexSliceKind} {lvalue : Bool} {s s₃ s' : Building}
  {value i j result : Llvm.Value} {a : Activation M} {element : Ty} {block : Pointer} {slice : Slice}

/-- A bound that is missing is zero. -/
theorem bound_first {width : Nat} {first : BitVec width} {bound : Option Expr}
    (built : codegenBound (codegenExpr decls fuel) bound s = .ok (i, s'))
    (is : i.fetch platform a.registers = some (.int width first)) :
    (bound.map fun _ => first.signExtend 64).getD 0 = first.signExtend 64 := by
  cases bound with
  | some expr => rfl
  | none =>
    cases built
    cases is
    rfl

/-- A run through the code of a bounded slice expression does what `sliceSlice` says. -/
theorem SlicesTo.runs {width width' : Nat} {first : BitVec width} {last : BitVec width'}
    (computes : SlicesTo s₃ s' value i j result) (place : SlicesAt decls fuel target start stop s value i j s₃)
    (bounded : kind ≠ .COPY) (here : s₃.Here a) (typed : value.type = sliceTy element)
    (is : value.fetch platform a.registers = some (slice.inBlock (platform.stride element) block).datum)
    (starts : i.fetch platform a.registers = some (.int width first))
    (stops : j.fetch platform a.registers = some (.int width' last)) :
    ∃ after sliced, s'.Finishes platform a [] after ∧
      sliceSlice slice (boundsOf start stop kind (first.signExtend 64) (last.signExtend 64)) = some sliced ∧
      result.fetch platform after.registers = some (sliced.inBlock (platform.stride element) block).datum := by
  obtain ⟨s₁, s₂, targeted, started, stopped⟩ := place.run
  let bounds := boundsOf start stop kind (first.signExtend 64) (last.signExtend 64)
  obtain ⟨sliced, made⟩ : ∃ sliced, sliceSlice slice bounds = some sliced := sliceSlice_some bounded
  have firstIs : bounds.first = first.signExtend 64 := bound_first started starts
  have lastIs : bounds.stop.getD 0 = last.signExtend 64 := bound_first stopped stops
  obtain ⟨after, finishes, _, _, holds⟩ := computes platform a element _ _ _ _ _ here typed is starts stops
  refine ⟨after, sliced, finishes, made, ?_⟩
  rw [holds, ← sliceSlice_inBlock made, firstIs, lastIs]

/-- Each slice that is made and then sliced is one of a chain. -/
theorem Obtained.chain {n : BitVec 64} {v : SliceValue} (obtained : Obtained platform element n block v) :
    ∃ chain slice, sliceChain (.make n) chain = some slice ∧ v = slice.inBlock (platform.stride element) block := by
  induction obtained with
  | made sound found run place here counted finishes allocated is =>
    obtain ⟨_, events, after, finishes', only, holds⟩ := make_finishes sound found run place here counted
    obtain ⟨rfl, rfl⟩ := finishes.unique finishes'
    obtain ⟨rfl, _⟩ := (only _ _ _).mp allocated
    cases SliceValue.datum_inj (Option.some.inj (is.symm.trans holds))
    exact ⟨[], makeSlice n, rfl, (makeSlice_inBlock n).symm⟩
  | sliced obtained sound found slices bounded run place here typed is starts stops finishes is' ih =>
    obtain ⟨chain, slice, made, rfl⟩ := ih
    obtain ⟨value, i, j, s₃, place', computes⟩ := slicesTo sound bounded (codegenIndexSliceExpr_slice found slices run)
    obtain ⟨s₁, s₂, targeted, started, stopped⟩ := place.run
    obtain ⟨s₁', s₂', targeted', started', stopped'⟩ := place'.run
    cases targeted.symm.trans targeted'
    cases started.symm.trans started'
    cases stopped.symm.trans stopped'
    obtain ⟨after, sliced, finishes', next, holds⟩ := computes.runs place bounded here typed is starts stops
    obtain ⟨rfl, rfl⟩ := finishes.unique finishes'
    cases SliceValue.datum_inj (Option.some.inj (is'.symm.trans holds))
    exact ⟨_, sliced, sliceChain_snoc made next, rfl⟩

end Slicing

section Arrays
variable {M : Type} {platform : Platform M} {decls : List Decl} {fuel length : Nat} {loc : Loc} {elementType : AstType}
  {target : Expr} {start stop : Option Expr} {kind : IndexSliceKind} {lvalue : Bool} {s s' : Building}
  {i missing result : Llvm.Value} {a : Activation M}

/-- A bound of an array has the value that is taken where it is missing. -/
theorem arrayBound_value {first n : BitVec 64} {bound : Option Expr}
    (built : arrayBound (codegenExpr decls fuel) missing bound s = .ok (i, s'))
    (is : i.fetch platform a.registers = some (.int 64 first)) (absent : missing.fetch platform a.registers = some (.int 64 n)) :
    (bound.map fun _ => first).getD n = first := by
  cases bound with
  | some expr => rfl
  | none =>
    cases built
    cases is.symm.trans absent
    rfl

/-- The length that the code takes for an array. -/
theorem length_capacity {c : Context} {type : AstType} (small : length < 2 ^ 32)
    (found : resolveTypeName c fuel type = .ok (.mk 0 (.arrayType elementType length))) :
    (if type.kind.length?.isNone then 0 else BitVec.ofNat 32 length).setWidth 64 =
      BitVec.ofNat 64 (type.kind.length?.getD 0) := by
  rcases length_found found with written | named
  · apply BitVec.eq_of_toNat_eq
    simp only [written, Option.isNone_some, Option.getD_some, BitVec.toNat_setWidth, BitVec.toNat_ofNat]
    simp only [Bool.false_eq_true, if_false, BitVec.toNat_ofNat]
    omega
  · simp [named]

/-- A run through the code of a slice of an array does what `sliceArray` says. -/
theorem sliceArray_runs (sound : s.Sound) (small : length < 2 ^ 32)
    (found : resolveTypeName s.context fuel target.type = .ok (.mk 0 (.arrayType elementType length)))
    (run : codegenExpr decls (fuel + 1) (.mk loc (.mk 0 (.sliceType elementType)) (.indexSliceExpr target start stop kind))
      lvalue s = .ok (result, s')) :
    ∃ element s₁ i j s₃, ArraySlicesAt decls fuel elementType target start stop s element s₁ i j s₃ ∧
      ∀ {M : Type} (platform : Platform M) (a : Activation M) (array : Pointer) (first last : BitVec 64), s₃.Here a →
        (Llvm.Value.result s₁.results (.ptr element)).fetch platform a.registers = some (.ptr array) →
        i.fetch platform a.registers = some (.int 64 first) → j.fetch platform a.registers = some (.int 64 last) →
        ∃ after, s'.Finishes platform a [] after ∧ result.fetch platform after.registers = some
          ((SliceOrigin.array (.ofNat 32 length) target.type.kind.length?.isNone
            (boundsOf start stop kind first last)).slice.inBlock (platform.stride element) array).datum := by
  have built := codegenIndexSliceExpr_array found run
  obtain ⟨element, s₀, value, s₁, i, s₂, j, s₃, sliced, c, translated, targeted, started, stopped, translated', rfl, steps⟩ :=
    buildSliceArray_ok rfl built
  have slices : ArraySlicesAt decls fuel elementType target start stop s element s₁ i j s₃ :=
    ⟨s₀, value, s₂, translated, targeted, started, stopped⟩
  obtain ⟨sound₃, inside, below, below', gains⟩ := slices.sound sound
  obtain ⟨_, elementRun, _⟩ := llvmType_ok translated
  obtain rfl := sliceType_translated gains.noMoreTypes elementRun translated'
  refine ⟨element, s₁, i, j, s₃, slices, ?_⟩
  intro M platform a array first last here at_ starts stops
  let t : Building := { s₃ with context := c }
  have soundT : t.Sound := sound₃.gain (Context.Gains.codegenType (.refl _) translated')
  have hereT : t.Here a := here
  have same : s' = t.arraySlicedAt element (.result s₁.results (.ptr element)) (arrayLength target) i j := steps rfl
  subst same
  have counts (n : BitVec 64) : BitVec.ofNat 64 n.toNat = n := by simp
  obtain ⟨after, finishes, holds⟩ : ∃ after,
      (t.arraySlicedAt element (.result s₁.results (.ptr element)) (arrayLength target) i j).Finishes platform a [] after ∧ _ :=
    hereT.arraySliced soundT inside below below' rfl at_ (starts.trans (by rw [counts])) (stops.trans (by rw [counts]))
  refine ⟨after, finishes, holds.trans ?_⟩
  have firstIs : (start.map fun _ => first).getD 0 = first := arrayBound_value started starts rfl
  have lastIs : (stop.map fun _ => last).getD (BitVec.ofNat 64 (target.type.kind.length?.getD 0)) = last :=
    arrayBound_value stopped stops rfl
  simp only [counts, SliceOrigin.slice, sliceArray, boundsOf, Slice.inBlock, elementOf, length_capacity small found, firstIs,
    lastIs]
  simp

/-- So does a run through the code of a slice that is prepared and then generated. -/
theorem prepared_sliceArray_runs {type : AstType} {hint : Hint} {e : Expr} {decls' : List Decl} (sound : s.Sound)
    (prepares : prepareExpr s.context (fuel + 1) (.mk loc type (.indexSliceExpr target start stop kind)) hint decls =
      .ok (e, decls'))
    (run : codegenExpr decls' (fuel + 1) e lvalue s = .ok (result, s')) :
    ∃ target' start' stop', e.kind = .indexSliceExpr target' start' stop' kind ∧ ∀ elementType length, length < 2 ^ 32 →
      resolveTypeName s.context fuel target'.type = .ok (.mk 0 (.arrayType elementType length)) →
      ∃ element s₁ i j s₃, ArraySlicesAt decls' fuel elementType target' start' stop' s element s₁ i j s₃ ∧
        ∀ {M : Type} (platform : Platform M) (a : Activation M) (array : Pointer) (first last : BitVec 64), s₃.Here a →
          (Llvm.Value.result s₁.results (.ptr element)).fetch platform a.registers = some (.ptr array) →
          i.fetch platform a.registers = some (.int 64 first) → j.fetch platform a.registers = some (.int 64 last) →
          ∃ after, s'.Finishes platform a [] after ∧ result.fetch platform after.registers = some
            ((SliceOrigin.array (.ofNat 32 length) target'.type.kind.length?.isNone
              (boundsOf start' stop' kind first last)).slice.inBlock (platform.stride element) array).datum := by
  obtain ⟨target', start', stop', type', rfl, typed⟩ := prepareExpr_arraySlice prepares
  refine ⟨target', start', stop', rfl, fun elementType length small found => ?_⟩
  obtain rfl := typed _ _ _ found
  exact sliceArray_runs sound small found run

end Arrays

/-! ### Indices -/

def indexing (n : Nat) (value i : Llvm.Value) : List Op :=
  [.extractValue value 2, .intCast i (.int 64), .icmp .ult (.result (n + 1) (.int 64)) (.result n (.int 64))]

def Building.indexChecked (s : Building) (value i : Llvm.Value) : Building :=
  (s.pushAll (indexing s.results value i)).checked (.result (s.results + 2) (.int 1))

def Building.indexedAt (s : Building) (element : Ty) (value i : Llvm.Value) : Building :=
  (s.indexChecked value i).pushAll [.extractValue value 0,
    .gep (.result (s.indexChecked value i).results (.ptr element)) (.result (s.results + 1) (.int 64)) []]

section Indexing
variable {M : Type} {platform : Platform M} {decls : List Decl} {fuel : Nat} {loc : Loc} {type t elementType : AstType}
  {target index : Expr} {s s₂ s' : Building} {value i result : Llvm.Value} {a after : Activation M} {element : Ty}
  {block : Pointer} {slice : Slice} {width : Nat} {k : BitVec width} {events : List Llvm.Event}

/-- The code for the slice and for the index, before they are used. -/
structure IndexesAt (decls : List Decl) (fuel : Nat) (target index : Expr) (s : Building) (value i : Llvm.Value)
    (s₂ : Building) : Prop where
  run : ∃ s₁, codegenExpr decls fuel target false s = .ok (value, s₁) ∧ codegenExpr decls fuel index false s₁ = .ok (i, s₂)

theorem IndexesAt.sound (indexes : IndexesAt decls fuel target index s value i s₂) (sound : s.Sound) :
    s₂.Sound ∧ value.Below s₂.results ∧ i.Below s₂.results := by
  obtain ⟨s₁, targeted, indexed⟩ := indexes.run
  obtain ⟨first, there⟩ := Generates.expr s.context decls fuel _ target false _ _ _ sound (.refl _) (Nat.le_refl _) targeted
  obtain ⟨second, there'⟩ := Generates.expr s.context decls fuel _ index false _ _ _ first.sound first.context (Nat.le_refl _)
    indexed
  exact ⟨second.sound, there.mono second.results, there'⟩

/-- The steps of `codegen_index_access_expr` for an element of a slice that is asked for its address. -/
theorem codegenIndexAccessExpr_slice (found : resolveTypeName s.context fuel target.type = .ok t) (pointer : t.pointer = 0)
    (is : t.kind = .sliceType elementType)
    (run : codegenExpr decls (fuel + 1) (.mk loc type (.indexAccessExpr target index)) true s = .ok (result, s')) :
    ∃ value i s₂, IndexesAt decls fuel target index s value i s₂ ∧ ∀ element, value.type = sliceTy element →
      result = .result ((s₂.indexChecked value i).results + 1) (.ptr element) ∧ s' = s₂.indexedAt element value i := by
  obtain ⟨t', _, resolves, run⟩ := bind_ok.mp run
  obtain ⟨found', rfl⟩ := resolved_ok resolves
  cases found.symm.trans found'
  obtain ⟨pointers, kind⟩ := t
  obtain rfl : pointers = 0 := pointer
  obtain rfl : kind = .sliceType elementType := is
  obtain ⟨value, s₁, targeted, run⟩ := bind_ok.mp run
  obtain ⟨i, s₂, indexed, run⟩ := bind_ok.mp run
  refine ⟨value, i, s₂, ⟨s₁, targeted, indexed⟩, fun element typed => ?_⟩
  have field (n : Nat) (t : Ty) (present : [Ty.ptr element, .int 64, .int 64, .ptr element][n]? = some t) :
    (Op.extractValue value n).type = t := Llvm.Op.type_extractValue typed present
  have cap := field 2 _ rfl
  have ptr := field 0 _ rfl
  dsimp only at run
  split at run
  · obtain ⟨_, _, capacity, run⟩ := bind_ok.mp run
    cases (build_run _ _).symm.trans capacity
    rw [cap] at run
    obtain ⟨_, _, extended, run⟩ := bind_ok.mp run
    cases (build_run _ _).symm.trans extended
    obtain ⟨_, _, compared, run⟩ := bind_ok.mp run
    cases (build_run _ _).symm.trans compared
    obtain ⟨_, _, checked, run⟩ := bind_ok.mp run
    cases (Building.buildAssert_run _ _).symm.trans checked
    obtain ⟨_, _, first, run⟩ := bind_ok.mp run
    cases (build_run _ _).symm.trans first
    rw [ptr] at run
    obtain ⟨_, _, addressed, run⟩ := bind_ok.mp run
    cases (build_run _ _).symm.trans addressed
    have address (n : Nat) (i : Llvm.Value) : (Op.gep (.result n (.ptr element)) i []).type = .ptr element := by
      simp [Op.type, Ty.index]
    rw [address] at run
    cases run
    exact ⟨rfl, rfl⟩
  · cases run

/-- What is computed before the check. -/
theorem indexing_computes (below : value.Below s.results) (below' : i.Below s.results)
    (is : value.fetch platform a.registers = some (slice.inBlock (platform.stride element) block).datum)
    (indexed : i.fetch platform a.registers = some (.int width k)) :
    Computes platform a s.results [] (indexing s.results value i)
      [.int 64 slice.cap, .int 64 (k.signExtend 64), .truth ((k.signExtend 64).ult slice.cap)] := by
  refine .cons (fun x knows => Llvm.effect_extractValue ((knows.fetch below).trans is) rfl) ?_
  refine .cons (fun x knows => Llvm.effect_intCast ((knows.fetch below').trans indexed)) ?_
  exact .cons (fun x knows => Llvm.effect_icmp (knows.new 1 _ rfl) (knows.new 0 _ rfl)) .nil

/-- What is computed behind the check. -/
theorem addressing_computes {n m : Nat} {j : BitVec 64} (below : value.Below n) (before : m < n)
    (is : value.fetch platform a.registers = some (slice.inBlock (platform.stride element) block).datum)
    (indexed : a.registers m = some (.int 64 j)) :
    Computes platform a n [] [.extractValue value 0, .gep (.result n (.ptr element)) (.result m (.int 64)) []]
      [.ptr (elementOf (platform.stride element) block slice.ptr),
        .ptr (elementOf (platform.stride element) block (slice.ptr + j))] := by
  refine .cons (fun x knows => Llvm.effect_extractValue ((knows.fetch below).trans is) rfl) ?_
  refine .cons (fun x knows => ?_) .nil
  have pointed : (Llvm.Value.result n (.ptr element)).fetch platform x.registers =
      some (.ptr (elementOf (platform.stride element) block slice.ptr)) := knows.new 0 _ rfl
  have counted : (Llvm.Value.result m (.int 64)).fetch platform x.registers = some (.int 64 j) :=
    (knows.old m before).trans indexed
  rw [Llvm.effect_gep rfl pointed counted]
  simp [elementOf, BitVec.mul_add, BitVec.add_assoc]

/-- Behind a check that holds, the code comes to the address. -/
theorem Building.Here.addresses {m : Nat} {j : BitVec 64} {condition : Llvm.Value} (here : s.Here a) (sound : s.Sound)
    (holds : condition.fetch platform a.registers = some (.truth true)) (below : value.Below s.results) (before : m < s.results)
    (is : value.fetch platform a.registers = some (slice.inBlock (platform.stride element) block).datum)
    (indexed : a.registers m = some (.int 64 j)) :
    ∃ after, ((s.checked condition).pushAll
        [.extractValue value 0, .gep (.result (s.checked condition).results (.ptr element)) (.result m (.int 64)) []]).Finishes
          platform a [] after ∧
      after.registers ((s.checked condition).results + 1) =
        some (.ptr (elementOf (platform.stride element) block (slice.ptr + j))) := by
  generalize ended : (s.checked condition).pushAll _ = s'
  have codes := Building.checked_codes condition sound
  have uses : (s.checked condition).Continues s'.block := ended ▸ Building.continues_pushAll _ _
  have tests : (s.tested condition).Continues s'.block :=
    (uses.before (Building.continues_enter _ _ _)).before (Building.continues_push _ _)
  let passed : Activation M := (a.after s.results (a.gives (.truth false))).jump (s.blocks + 1)
  have reached : Reaches platform s'.block a [] passed := here.tests sound tests holds
  have known : Knows a s.results [.truth false] (a.after s.results (a.gives (.truth false))) :=
    (Knows.refl a s.results).snoc (.truth false)
  have fetched : value.fetch platform passed.registers = value.fetch platform a.registers := known.fetch below
  have kept : passed.registers m = a.registers m := known.old m before
  subst ended
  obtain ⟨after, used, last, knows⟩ := Building.Here.computes (Building.Here.passed sound _) codes.sound (.refl _)
    (addressing_computes (below.mono codes.results) (Nat.lt_of_lt_of_le before codes.results) (fetched.trans is)
      (kept.trans indexed))
  exact ⟨after, ⟨reached.trans used, last⟩, knows.new 1 _ rfl⟩

/-- A run through the code of an index comes to an address just where `indexSlice` has a place, and to the
address of that place. -/
theorem indexSlice_runs (here : s.Here a) (sound : s.Sound) (below : value.Below s.results) (below' : i.Below s.results)
    (is : value.fetch platform a.registers = some (slice.inBlock (platform.stride element) block).datum)
    (indexed : i.fetch platform a.registers = some (.int width k)) (address : Pointer) :
    (∃ events after, (s.indexedAt element value i).Finishes platform a events after ∧
        after.registers ((s.indexChecked value i).results + 1) = some (.ptr address)) ↔
      ∃ place, indexSlice slice (k.signExtend 64) = some place ∧ address = elementOf (platform.stride element) block place := by
  have uses : (s.indexChecked value i).Continues (s.indexedAt element value i).block := Building.continues_pushAll _ _
  have soundT : (s.pushAll (indexing s.results value i)).Sound := sound.pushAll _
  have checks : (s.pushAll (indexing s.results value i)).Continues (s.indexedAt element value i).block :=
    uses.before (Building.checked_codes _ soundT).continues
  have results : (s.pushAll (indexing s.results value i)).results = s.results + 3 := Building.pushAll_results _
  obtain ⟨middle, computed, there, knows⟩ := here.computes sound checks (indexing_computes below below' is indexed)
  have test : (Llvm.Value.result (s.results + 2) (.int 1)).fetch platform middle.registers =
      some (.truth ((k.signExtend 64).ult slice.cap)) := knows.new 2 _ rfl
  by_cases inside : (k.signExtend 64).ult slice.cap
  · rw [inside] at test
    have placed : indexSlice slice (k.signExtend 64) = some (slice.ptr + k.signExtend 64) := by simp [indexSlice, inside]
    obtain ⟨after, ⟨used, last⟩, at_⟩ := there.addresses soundT test (below.mono (by omega)) (by omega)
      ((knows.fetch below).trans is) (knows.new 1 _ rfl)
    have finishes : (s.indexedAt element value i).Finishes platform a [] after := ⟨computed.trans used, last⟩
    constructor
    · rintro ⟨events, after', finishes', at_'⟩
      obtain ⟨rfl, rfl⟩ := finishes.unique finishes'
      cases at_.symm.trans at_'
      exact ⟨_, placed, rfl⟩
    · rintro ⟨place, placed', rfl⟩
      cases placed.symm.trans placed'
      exact ⟨[], after, finishes, at_⟩
  · rw [eq_false_of_ne_true inside] at test
    have refused (events) (after) : ¬(s.indexedAt element value i).Finishes platform a events after := by
      intro finishes
      obtain ⟨later, rest⟩ := finishes.rest computed
      exact there.trapped soundT uses test rest
    constructor
    · rintro ⟨events, after, finishes, _⟩
      exact (refused _ _ finishes).elim
    · rintro ⟨place, placed, _⟩
      simp [indexSlice, inside] at placed

/-- Where the start indices are inside, every address that is run to is that of an element of the block. -/
theorem indexed_inside {arrayMalloc : BitVec 64 → Nat} {origin : SliceOrigin} {chain : List SliceBounds} {address : Pointer}
    (inside : StartsInside arrayMalloc origin chain) (sliced : sliceChain origin chain = some slice)
    (here : s.Here a) (sound : s.Sound) (below : value.Below s.results) (below' : i.Below s.results)
    (is : value.fetch platform a.registers = some (slice.inBlock (platform.stride element) block).datum)
    (indexed : i.fetch platform a.registers = some (.int width k))
    (finishes : (s.indexedAt element value i).Finishes platform a events after)
    (at_ : after.registers ((s.indexChecked value i).results + 1) = some (.ptr address)) :
    ∃ place : BitVec 64, place.toNat < origin.allocated arrayMalloc ∧
      address = elementOf (platform.stride element) block place := by
  obtain ⟨place, placed, same⟩ := (indexSlice_runs here sound below below' is indexed address).mp ⟨events, after, finishes, at_⟩
  exact ⟨place, inside.safe sliced _ _ placed, same⟩

end Indexing

end Low
