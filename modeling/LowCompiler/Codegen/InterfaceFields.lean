import LowCompiler.Codegen.InterfaceTables

/-!
# Fields behind an interface

A table holds the offset of a field as a pointer behind null. The access adds it to the
object, and comes to the address that the struct itself has for the field.
-/

namespace Low

open Stateful
open Llvm (Op Ty Val)

/-! ### What is built -/

/-- The value of a member access is the address, or what is loaded from there. -/
def Building.Accessed (s : Building) (lvalue : Bool) (value address : Llvm.Value) : Prop :=
  if lvalue then value = address else s.Built value (.load address)

/-- The address of a field behind an interface. The table is loaded by an instruction from `start` on. -/
def FieldBuilt (start : Nat) (s : Building) (interface : Llvm.Value) (i : Nat) (address : Llvm.Value) : Prop :=
  ∃ tablePtr object n offset offsetInt bytes, s.Built tablePtr (.extractValue interface 0) ∧
    s.Built object (.extractValue interface 1) ∧ start ≤ n ∧ s.ops[n]? = some (.load tablePtr) ∧
      s.Built offset (.extractValue (.result n (Op.load tablePtr).type) (1 + i)) ∧
      s.Built offsetInt (.ptrToInt offset (.int 64)) ∧ s.Built bytes (.gep object offsetInt []) ∧
      s.Built address (.pointerCast bytes offset.type)

section Access
variable {fuel : Nat} {codegen : Expr → Bool → Codegen Llvm.Value} {loc : Loc} {target : Expr} {name : Name} {lvalue : Bool}
  {s s' : Building} {value : Llvm.Value}

theorem loadUnless_accessed {address : Llvm.Value} (numbered : s.Numbered)
    (run : loadUnless lvalue address s = .ok (value, s')) : s ≤ s' ∧ s'.Accessed lvalue value address := by
  cases lvalue with
  | true =>
    cases run
    exact ⟨le_refl _, rfl⟩
  | false => exact ⟨build_ok run, build_built numbered run⟩

theorem codegenMemberAccessExpr_interface {members : List (InterfaceMember AstType)} (numbered : s.Numbered)
    (below : ∀ s₀ expr lvalue, Keeps s₀ (codegen expr lvalue))
    (found : resolveTypeName s.context fuel target.type = .ok (.mk 0 (.interfaceType members)))
    (run : codegenMemberAccessExpr fuel codegen loc target name lvalue s = .ok (value, s')) :
    ∃ i t interface s₁ address, findField members name = some (i, t) ∧
      codegen target false s = .ok (interface, s₁) ∧
      FieldBuilt s.ops.length s' interface i address ∧ s'.Accessed lvalue value address := by
  obtain ⟨st, _, here, run⟩ := bind_ok.mp run
  obtain ⟨same, rfl⟩ := resolved_ok here
  cases found.symm.trans same
  obtain ⟨_, _, same, run⟩ := bind_ok.mp run
  cases same
  cases place : findField members name with
  | none => simp [AstType.kind, place] at run
  | some field =>
    obtain ⟨i, t⟩ := field
    simp only [AstType.kind, place] at run
    obtain ⟨interface, s₁, code, run⟩ := bind_ok.mp run
    obtain ⟨tablePtr, s₂, r₂, run⟩ := bind_ok.mp run
    obtain ⟨object, s₃, r₃, run⟩ := bind_ok.mp run
    obtain ⟨table, s₄, r₄, run⟩ := bind_ok.mp run
    obtain ⟨offset, s₅, r₅, run⟩ := bind_ok.mp run
    obtain ⟨offsetInt, s₆, r₆, run⟩ := bind_ok.mp run
    obtain ⟨bytes, s₇, r₇, run⟩ := bind_ok.mp run
    obtain ⟨address, s₈, r₈, run⟩ := bind_ok.mp run
    have n₁ := (Keeps.run (fun s₀ => below s₀ target false) code).numbered numbered
    have n₂ := (build_ok r₂).numbered n₁
    have n₃ := (build_ok r₃).numbered n₂
    have n₄ := (build_ok r₄).numbered n₃
    have n₅ := (build_ok r₅).numbered n₄
    have n₆ := (build_ok r₆).numbered n₅
    have n₇ := (build_ok r₇).numbered n₆
    obtain ⟨le₈, accessed⟩ := loadUnless_accessed ((build_ok r₈).numbered n₇) run
    have le₇ := (build_ok r₈).trans le₈
    have le₆ := (build_ok r₇).trans le₇
    have le₅ := (build_ok r₆).trans le₆
    have le₄ := (build_ok r₅).trans le₅
    have le₃ := (build_ok r₄).trans le₄
    have start : s.ops.length ≤ s₃.results := by
      rw [show s₃.results = s₃.ops.length from n₃]
      exact ((Keeps.run (fun s₀ => below s₀ target false) code).trans ((build_ok r₂).trans (build_ok r₃))).ops.length_le
    obtain ⟨n, same, loaded⟩ := (build_built n₃ r₄).mono le₄
    cases r₄
    cases same
    refine ⟨i, t, interface, s₁, address, rfl, code, ?_, accessed⟩
    exact ⟨tablePtr, object, s₃.results, offset, offsetInt, bytes, (build_built n₁ r₂).mono ((build_ok r₃).trans le₃),
      (build_built n₂ r₃).mono le₃, start, loaded, (build_built n₄ r₅).mono le₅, (build_built n₅ r₆).mono le₆,
      (build_built n₆ r₇).mono le₇, (build_built n₇ r₈).mono le₈⟩

/-- An object of a struct type, or a pointer to one. -/
def OfStruct (context : Context) (fuel : Nat) (type : AstType) (behind : Bool)
    (structMembers : List (StructMember AstType)) : Prop :=
  ∃ st, resolveTypeName context fuel type = .ok st ∧
    if behind then st.pointer = 1 ∧ resolveTypeName context fuel st.down = .ok (.mk 0 (.structType structMembers))
    else st = .mk 0 (.structType structMembers)

theorem OfStruct.not_interface {context : Context} {type st : AstType} {behind : Bool}
    {structMembers : List (StructMember AstType)} (found : resolveTypeName context fuel type = .ok st)
    (object : OfStruct context fuel type behind structMembers) :
    ∀ members, st.kind ≠ .interfaceType members := by
  obtain ⟨st', same, object⟩ := object
  cases found.symm.trans same
  rintro members isInterface
  cases behind with
  | false =>
    obtain rfl : st = .mk 0 (.structType structMembers) := object
    cases isInterface
  | true =>
    obtain ⟨_, down⟩ := object
    obtain ⟨pointer, kind⟩ := st
    obtain rfl : kind = .interfaceType members := isInterface
    cases fuel with
    | zero => simp [resolveTypeName] at down
    | succ fuel =>
      rw [AstType.down, resolveTypeName_other (by simp)] at down
      simp at down

theorem codegenMemberAccessExpr_struct {behind : Bool} {structMembers : List (StructMember AstType)}
    (numbered : s.Numbered) (below : ∀ s₀ expr lvalue, Keeps s₀ (codegen expr lvalue))
    (object : OfStruct s.context fuel target.type behind structMembers)
    (run : codegenMemberAccessExpr fuel codegen loc target name lvalue s = .ok (value, s')) :
    ∃ n t base s₁ address, findMember structMembers name = some (n, t) ∧
      codegen target (!behind) s = .ok (base, s₁) ∧
      s'.Built address (.structGep base n) ∧ s'.Accessed lvalue value address := by
  obtain ⟨st, _, here, run⟩ := bind_ok.mp run
  obtain ⟨found, rfl⟩ := resolved_ok here
  have other := object.not_interface found
  obtain ⟨_, same, object⟩ := object
  cases found.symm.trans same
  obtain ⟨stderef, s₀, reached, run⟩ := bind_ok.mp run
  have reached : s = s₀ ∧ stderef = .mk 0 (.structType structMembers) ∧ st.pointer ≤ 1 ∧ (st.pointer == 0) = !behind := by
    cases behind with
    | false =>
      obtain rfl : st = .mk 0 (.structType structMembers) := object
      rw [if_neg (by simp [AstType.pointer])] at reached
      cases reached
      exact ⟨rfl, rfl, Nat.zero_le 1, rfl⟩
    | true =>
      obtain ⟨single, down⟩ := object
      rw [if_pos (by omega)] at reached
      obtain ⟨found', rfl⟩ := resolved_ok reached
      cases down.symm.trans found'
      exact ⟨rfl, rfl, by omega, by simp [single]⟩
  obtain ⟨rfl, rfl, single, lv⟩ := reached
  obtain ⟨pointer, kind⟩ := st
  have near : ¬1 < pointer := Nat.not_lt.mpr single
  have code : ∃ base s₁ n t address s₂, codegen target (pointer == 0) s = .ok (base, s₁) ∧
      findMember structMembers name = some (n, t) ∧ build (.structGep base n) s₁ = .ok (address, s₂) ∧
      loadUnless lvalue address s₂ = .ok (value, s') := by
    cases kind with
    | interfaceType members => exact absurd rfl (other members)
    | _ =>
      simp only [AstType.kind, AstType.pointer, near, ↓reduceIte] at run
      obtain ⟨base, s₁, code, run⟩ := bind_ok.mp run
      cases place : findMember structMembers name with
      | none => simp [place] at run
      | some member =>
        obtain ⟨n, t⟩ := member
        simp only [place] at run
        obtain ⟨address, s₂, gep, run⟩ := bind_ok.mp run
        exact ⟨base, s₁, n, t, address, s₂, code, rfl, gep, run⟩
  obtain ⟨base, s₁, n, t, address, s₂, code, place, gep, run⟩ := code
  have n₁ := (Keeps.run (fun s₀ => below s₀ target _) code).numbered numbered
  obtain ⟨le, accessed⟩ := loadUnless_accessed ((build_ok gep).numbered n₁) run
  rw [show (pointer == 0) = !behind from lv] at code
  exact ⟨n, t, base, s₁, address, place, code, (build_built n₁ gep).mono le, accessed⟩

end Access

/-! ### What it amounts to -/

/-- An instruction finds the table in memory as it was initialised. -/
def InterfaceTable.Held (machine : Llvm.Machine) (writer reader : Llvm.Frame) (n : Nat)
    (table : InterfaceTable) : Prop :=
  ∃ address pointee vals, table.global.eval machine reader = some (.word address) ∧ table.global.type = .ptr pointee ∧
    reader.memory n address pointee = .aggregate vals ∧
      ∀ (i : Nat) field val, table.fields[i]? = some field → field.eval machine writer = some val → vals[i]? = some val

/-- The code for the cast of a pointer to an object to an interface, and an activation of it. -/
structure ObjectCast (machine : Llvm.Machine) (members : List (InterfaceMember AstType))
    (structMembers : List (StructMember AstType)) where
  decls : List Decl
  fuel : Nat
  loc : Loc
  type : AstType
  pointer : Expr
  castType : AstType
  before : Building
  between : Building
  after : Building
  object : Llvm.Value
  value : Llvm.Value
  frame : Llvm.Frame
  address : BitVec 64
  numbered : before.Numbered
  isInterface : resolveTypeName before.context fuel castType = .ok (.mk 0 (.interfaceType members))
  ofStruct : OfStruct before.context fuel pointer.type true structMembers
  pointerCode : codegenExpr decls fuel pointer false before = .ok (object, between)
  code : codegenExpr decls (fuel + 1) (.mk loc type (.castExpr pointer castType)) false before = .ok (value, after)
  typed : ∃ fuel c, codegenType fuel pointer.type before.context = .ok (object.type, c)
  runs : frame.Runs machine after.ops
  located : object.eval machine frame = some (.word address)

structure FieldAccess (machine : Llvm.Machine) (name : Name) where
  decls : List Decl
  fuel : Nat
  loc : Loc
  type : AstType
  target : Expr
  lvalue : Bool
  before : Building
  between : Building
  after : Building
  /-- The target is asked for as an lvalue. -/
  asked : Bool
  base : Llvm.Value
  value : Llvm.Value
  frame : Llvm.Frame
  numbered : before.Numbered
  targetCode : codegenExpr decls fuel target asked before = .ok (base, between)
  code : codegenExpr decls (fuel + 1) (.mk loc type (.memberAccessExpr target name)) lvalue before = .ok (value, after)
  runs : frame.Runs machine after.ops

section Agreement
variable {machine : Llvm.Machine} {members : List (InterfaceMember AstType)} {structMembers : List (StructMember AstType)}
  {name : Name}

/-- The type of an object, from that of a pointer to it. -/
theorem struct_translated {c c₁ : Context} {fuel fuel' : Nat} {type : AstType} {l : Ty}
    (object : OfStruct c fuel type true structMembers) (run : codegenType fuel' type c = .ok (l, c₁)) :
    ∃ fields, l = .ptr (.struct fields) ∧ ∀ (n : Nat) m, structMembers[n]? = some m →
      ∃ t fuel c' c'', fields[n]? = some t ∧ NoMoreTypes c c' ∧ codegenType fuel m.type c' = .ok (t, c'') := by
  obtain ⟨⟨pointer, kind⟩, found, single, down⟩ := object
  obtain rfl : pointer = 1 := single
  obtain ⟨fuel₁, run⟩ := codegenType_resolved (fun _ _ => id) found run
  cases fuel₁ with
  | zero => cases run
  | succ fuel₁ =>
    obtain ⟨l, inner, rfl⟩ := codegenType_ok run
    -- behind the pointer the kind is translated as it is without
    have same : codegenType (fuel₁ + 1) (.mk 0 kind) c = .ok (l, c₁) := by
      cases kind with
      | interfaceType members =>
        cases fuel with
        | zero => simp [resolveTypeName] at down
        | succ fuel =>
          rw [AstType.down, resolveTypeName_other (by simp)] at down
          simp at down
      | _ => exact bind_ok.mpr ⟨l, c₁, inner, rfl⟩
    obtain ⟨fuel₂, run⟩ := codegenType_resolved (fun _ _ => id) down same
    cases fuel₂ with
    | zero => cases run
    | succ fuel₂ =>
      obtain ⟨l, inner, rfl⟩ := codegenType_ok run
      obtain ⟨fields, c₂, turns, inner⟩ := bind_ok.mp inner
      cases inner
      refine ⟨fields, rfl, fun n m present => ?_⟩
      obtain ⟨_, _, turns⟩ := mapM_turn (R := NoMoreTypes) (fun _ _ _ => id)
        (fun le le' name type found => le name type (le' name type found))
        (fun m _ c l c' run => codegenType_noMoreTypes (fun _ _ => id) run) turns
      obtain ⟨t, c', c'', place, le, turn, _⟩ := turns n m present
      exact ⟨t, fuel₂, c', c'', place, le, turn⟩

theorem findMember_some {n : Nat} {t : AstType} (found : findMember structMembers name = some (n, t)) :
    ∃ m, structMembers[n]? = some m ∧ m.type = t := by
  obtain ⟨⟨m, i⟩, first, same⟩ := Option.map_eq_some_iff.mp found
  cases same
  exact ⟨m, List.mem_zipIdx_iff_getElem?.mp (List.mem_of_find?_eq_some first), rfl⟩

theorem findField_some {i : Nat} {t : AstType} (found : findField members name = some (i, t)) :
    members[i]? = some (.field name t) := by
  obtain ⟨⟨m, j⟩, member, here⟩ := List.exists_of_findSome?_eq_some found
  have place : members[j]? = some m := List.mem_zipIdx_iff_getElem?.mp member
  cases m with
  | function => cases here
  | field n type =>
    obtain ⟨rfl, same⟩ : n = name ∧ (j, type) = (i, t) := by simpa using here
    cases same
    exact place

theorem memberSlots_agree {c c₁ c₂ d₁ d₂ : Context} (le : NoMoreTypes c c₁) (le' : NoMoreTypes c c₂) {fuel fuel' : Nat}
    {m : InterfaceMember AstType} {l l' : Ty} (run : memberSlotType (codegenType fuel) m c₁ = .ok (l, d₁))
    (run' : memberSlotType (codegenType fuel') m c₂ = .ok (l', d₂)) : l = l' :=
  memberSlotType_agree (I := NoMoreTypes c)
    (fun u c l c' held (run : codegenType fuel u c = .ok (l, c')) => codegenType_noMoreTypes held run)
    (fun u c l c' held (run : codegenType fuel' u c = .ok (l, c')) => codegenType_noMoreTypes held run)
    (fun _ _ _ _ _ _ _ held held' run run' => codegenType_agree held held' run run') le le' run run'

/-- The pair of a cast at run time, and the slots of the fields. -/
structure ObjectCast.Described (cast : ObjectCast machine members structMembers) (fields : List Ty) (k : Nat)
    (slots : List Llvm.Value) : Prop where
  object : cast.object.type = .ptr (.struct fields)
  type : cast.value.type = .struct [.ptr (.struct (bytePtr :: slots.map Llvm.Value.type)), bytePtr]
  pair : cast.value.eval machine cast.frame = some (.aggregate [.word (machine.global k), .word cast.address])
  table : ⟨tableGlobal k slots, .constNull bytePtr :: slots⟩ ∈ cast.after.tables.drop cast.before.tables.length
  field : ∀ (i : Nat) name t, members[i]? = some (.field name t) → ∃ (slot : Llvm.Value) (n : Nat) (l : Ty),
    slots[i]? = some slot ∧ findMember structMembers name = some (n, t) ∧ fields[n]? = some l ∧ slot.type = .ptr l ∧
      slot.eval machine cast.frame = some (.word (machine.offset fields n))

theorem ObjectCast.described (cast : ObjectCast machine members structMembers)
    (provided : ∀ name t, .field name t ∈ members → ∃ n, findMember structMembers name = some (n, t)) :
    ∃ fields k slots, cast.Described fields k slots := by
  obtain ⟨st, found, single, down⟩ := cast.ofStruct
  obtain ⟨object, s₁, dst, c, code, dstRun, run⟩ := codegenCastExpr_interface
    (fun s₀ expr lvalue => codegenExpr_keeps cast.decls cast.fuel expr lvalue) cast.isInterface found (by omega) cast.code
  cases cast.pointerCode.symm.trans code
  have le := codegenExpr_extends code
  have numbered : Building.Numbered { cast.between with context := c } := le.numbered cast.numbered
  obtain ⟨_, pointer, structMembers', down', k, slots, built⟩ := codegenInterfaceCast_ok numbered run
  have later : NoMoreTypes cast.before.context c :=
    fun name type found => le.context.noMoreTypes name type (codegenType_noMoreTypes (fun _ _ => id) dstRun name type found)
  cases resolveTypeName_agree (fun _ _ => id) later down down'
  obtain ⟨_, _, typed⟩ := cast.typed
  obtain ⟨fields, objectType, translated⟩ := struct_translated cast.ofStruct typed
  obtain ⟨slotTypes, rfl, length, slotRuns⟩ := interface_translated le.context.noMoreTypes cast.isInterface dstRun
  -- a field's slot points to the member behind null
  have field (i : Nat) (name : Name) (t : AstType) (inside : members[i]? = some (.field name t)) :
      ∃ (slot : Llvm.Value) (n : Nat) (l : Ty), slots[i]? = some slot ∧ findMember structMembers name = some (n, t) ∧
        fields[n]? = some l ∧ slot.type = .ptr l ∧
          slot.eval machine cast.frame = some (.word (machine.offset fields n)) ∧ slotTypes[i]? = some (.ptr l) := by
    obtain ⟨slot, s₁, place, _, n, memberType, member, _, slotBuilt⟩ := built.slot i _ inside
    obtain ⟨n', same⟩ := provided name t (List.mem_of_getElem? inside)
    cases member.symm.trans same
    obtain ⟨m, at_n, rfl⟩ := findMember_some same
    obtain ⟨l, fuel, c', c'', here, le', memberRun⟩ := translated n m at_n
    obtain ⟨t, fuel', d, d', slotPlace, le'', slotRun⟩ := slotRuns i _ inside
    obtain ⟨l', d₁, inner, same⟩ := bind_ok.mp slotRun
    cases same
    obtain rfl := codegenType_agree le' le'' memberRun inner
    refine ⟨slot, n, l, place, same, here, ?_, ?_, slotPlace⟩
    · exact slotBuilt.type.trans (Op.type_structGep objectType here)
    · have null : (Llvm.Value.constNull cast.object.type).eval machine cast.frame = some (.word 0) := by
        rw [Llvm.Value.eval, objectType]
        rfl
      have nullType : (Llvm.Value.constNull cast.object.type).type = .ptr (.struct fields) := objectType
      refine slotBuilt.eval cast.runs fun n' => ?_
      simpa using Llvm.eval_structGep (n := n') nullType null
  -- each slot has the type that the table has for it
  have types : slots.map Llvm.Value.type = slotTypes := by
    refine List.ext_getElem? fun i => ?_
    rw [List.getElem?_map]
    cases inside : members[i]? with
    | none =>
      have beyond := List.getElem?_eq_none_iff.mp inside
      rw [List.getElem?_eq_none (built.length.trans_le beyond), List.getElem?_eq_none (length.trans_le beyond),
        Option.map_none]
    | some m =>
      cases m with
      | field name t =>
        obtain ⟨slot, n, l, place, _, _, type, _, slotPlace⟩ := field i name t inside
        rw [place, slotPlace, Option.map_some, type]
      | function name returnType args =>
        obtain ⟨slot, s₁, place, le', mapped, sym, function, l, _, _, _, slotBuilt, d, slotRun⟩ := built.slot i _ inside
        obtain ⟨t, fuel', e, e', slotPlace, le'', slotRun'⟩ := slotRuns i _ inside
        have here : NoMoreTypes cast.before.context s₁.context :=
          fun name type found => later name type (le'.context.noMoreTypes name type found)
        rw [place, slotPlace, Option.map_some, slotBuilt.type, memberSlots_agree le'' here slotRun' slotRun]
        rfl
  obtain ⟨object, half, objectBuilt, halfBuilt, pairBuilt⟩ := built.pair
  subst types
  refine ⟨fields, k, slots, objectType, ?_, ?_, ?_, ?_⟩
  · rw [pairBuilt.type]
    exact halfBuilt.type
  · have table : (tableGlobal k slots).eval machine cast.frame = some (.word (machine.global k)) := rfl
    have null : (Llvm.Value.constNull (.struct [.ptr (.struct (bytePtr :: slots.map Llvm.Value.type)), bytePtr])).eval
        machine cast.frame = some (.aggregate [.word 0, .word 0]) := rfl
    have first := halfBuilt.eval cast.runs fun n => Llvm.eval_insertValue (n := n) null table Nat.zero_lt_two
    have address := objectBuilt.eval cast.runs fun n => Llvm.eval_pointerCast (n := n) cast.located
    exact pairBuilt.eval cast.runs fun n => Llvm.eval_insertValue (n := n) first address Nat.one_lt_two
  · exact List.drop_subset_drop_left _ le.tables.length_le built.table
  · intro i name t inside
    obtain ⟨slot, n, l, place, member, here, type, value, _⟩ := field i name t inside
    exact ⟨slot, n, l, place, member, here, type, value⟩

/-- The address that an access through an interface comes to. -/
theorem FieldBuilt.eval {s : Building} {frame : Llvm.Frame} {start i k : Nat} {interface address : Llvm.Value} {slots : List Ty}
    {object offset : BitVec 64} {l : Ty} (built : FieldBuilt start s interface i address)
    (runs : frame.Runs machine s.ops) (type : interface.type = .struct [.ptr (.struct (bytePtr :: slots)), bytePtr])
    (pair : interface.eval machine frame = some (.aggregate [.word (machine.global k), .word object]))
    (table : ∀ n, start ≤ n → n < s.ops.length →
      ∃ vals, frame.memory n (machine.global k) (.struct (bytePtr :: slots)) = .aggregate vals ∧
        vals[1 + i]? = some (.word offset))
    (slot : slots[i]? = some (.ptr l)) :
    address.eval machine frame = some (.word (object + offset)) ∧ address.type = .ptr l := by
  obtain ⟨tablePtr, objectPtr, n, slotValue, offsetInt, bytes, b₁, b₂, le, loaded, b₄, b₅, b₆, b₇⟩ := built
  have e₁ := b₁.eval runs fun n => Llvm.eval_extractValue (n := n) pair rfl
  have e₂ := b₂.eval runs fun n => Llvm.eval_extractValue (n := n) pair rfl
  have t₁ : tablePtr.type = .ptr (.struct (bytePtr :: slots)) := b₁.type.trans (Op.type_extractValue type rfl)
  have t₂ : objectPtr.type = .ptr (.int 8) := b₂.type.trans (Op.type_extractValue type rfl)
  obtain ⟨vals, held, present⟩ := table n le (List.getElem?_eq_some_iff.mp loaded).1
  have e₃ : (Llvm.Value.result n (Op.load tablePtr).type).eval machine frame = some (.aggregate vals) :=
    congrArg some (runs n _ loaded _ ((Llvm.eval_load t₁ e₁).trans (congrArg some held)))
  have t₃ : (Llvm.Value.result n (Op.load tablePtr).type).type = .struct (bytePtr :: slots) := Op.type_load t₁
  have e₄ := b₄.eval runs fun n => Llvm.eval_extractValue (n := n) e₃ present
  have t₄ : slotValue.type = .ptr l :=
    b₄.type.trans (Op.type_extractValue t₃ (by rw [Nat.add_comm, List.getElem?_cons_succ, slot]))
  have e₅ := b₅.eval runs fun n => Llvm.eval_ptrToInt (n := n) e₄
  have e₆ := b₆.eval runs fun n => Llvm.eval_gep_bytes (n := n) t₂ b₅.type e₂ e₅
  exact ⟨b₇.eval runs fun n => Llvm.eval_pointerCast (n := n) e₆, b₇.type.trans t₄⟩

/-- A field has one address, whether it is accessed through an interface or on the object. -/
theorem field_access_agrees (cast : ObjectCast machine members structMembers) (access direct : FieldAccess machine name)
    {behind : Bool}
    (provided : ∀ name t, .field name t ∈ members → ∃ n, findMember structMembers name = some (n, t))
    (interface : resolveTypeName access.before.context access.fuel access.target.type = .ok (.mk 0 (.interfaceType members)))
    (ofStruct : OfStruct direct.before.context direct.fuel direct.target.type behind structMembers)
    (asked : access.asked = false) (asked' : direct.asked = !behind)
    (type : access.base.type = cast.value.type)
    (carried : access.base.eval machine access.frame = cast.value.eval machine cast.frame)
    (objectType : direct.base.type = cast.object.type)
    (object : direct.base.eval machine direct.frame = cast.object.eval machine cast.frame)
    (held : ∀ table ∈ cast.after.tables.drop cast.before.tables.length, ∀ n, access.before.ops.length ≤ n →
      n < access.after.ops.length → table.Held machine cast.frame access.frame n) :
    ∃ a b address, access.after.Accessed access.lvalue access.value a ∧
      direct.after.Accessed direct.lvalue direct.value b ∧
      a.eval machine access.frame = some (.word address) ∧ b.eval machine direct.frame = some (.word address) ∧
        a.type = b.type := by
  obtain ⟨fields, k, slots, described⟩ := cast.described provided
  obtain ⟨i, t, base, s₁, a, found, code, built, accessed⟩ := codegenMemberAccessExpr_interface access.numbered
    (fun s₀ expr lvalue => codegenExpr_keeps access.decls access.fuel expr lvalue) interface access.code
  obtain ⟨n, t', base', s₁', b, found', code', built', accessed'⟩ := codegenMemberAccessExpr_struct direct.numbered
    (fun s₀ expr lvalue => codegenExpr_keeps direct.decls direct.fuel expr lvalue) ofStruct direct.code
  have targetCode := access.targetCode
  have targetCode' := direct.targetCode
  rw [asked] at targetCode
  rw [asked'] at targetCode'
  cases targetCode.symm.trans code
  cases targetCode'.symm.trans code'
  obtain ⟨slot, n', l, place, member, here, slotType, slotValue⟩ := described.field i name t (findField_some found)
  cases found'.symm.trans member
  -- the slot is found in the table at its own place, behind the pointer to the type
  have table (n' : Nat) (first : access.before.ops.length ≤ n') (last : n' < access.after.ops.length) :
      ∃ vals, access.frame.memory n' (machine.global k) (.struct (bytePtr :: slots.map Llvm.Value.type)) = .aggregate vals ∧
        vals[1 + i]? = some (.word (machine.offset fields n)) := by
    obtain ⟨address, pointee, vals, global, same, memory, each⟩ := held _ described.table n' first last
    cases global
    cases same
    exact ⟨vals, memory, each (1 + i) slot _ (by rw [Nat.add_comm, List.getElem?_cons_succ, place]) slotValue⟩
  obtain ⟨value, pointer⟩ := built.eval access.runs (type.trans described.type) (carried.trans described.pair) table
    (by rw [List.getElem?_map, place, Option.map_some, slotType])
  have direct' := built'.eval direct.runs fun n => Llvm.eval_structGep (n := n) (objectType.trans described.object)
    (object.trans cast.located)
  exact ⟨a, b, _, accessed, accessed', value, direct', pointer.trans
    (built'.type.trans (Op.type_structGep (objectType.trans described.object) here)).symm⟩

end Agreement

/-- `struct { y : int64, x : int32 }` and `interface { x : int32 }`. -/
def pairMembers : List (StructMember AstType) :=
  [⟨[121], .mk 0 (.integerType 64)⟩, ⟨[120], .mk 0 (.integerType 32)⟩]

def xMembers : List (InterfaceMember AstType) := [.field [120] (.mk 0 (.integerType 32))]

def pairTy : Ty := .struct [.int 64, .int 32]

def xTy : Ty := .struct [.ptr (.struct [bytePtr, .ptr (.int 32)]), bytePtr]

/-- The scope of a variable, whose instruction is the first of its function. -/
def variableScope (type : AstType) (l : Ty) (ops : List Op) : Building where
  context := ⟨[⟨.INVALID, some [118], some type, some (.result 0 (.ptr l)), none, none, 0, true⟩], []⟩
  emitted := (.alloca l :: ops).map .op
  results := 1 + ops.length
  blocks := 0
  globals := 0
  tables := []

def variableExpr (type : AstType) : Expr := .mk ⟨0, 0⟩ type (.identExpr [118])

def pairMachine : Llvm.Machine where
  offset _ n := 8 * n
  stride _ := 1
  bytes := rfl
  global _ := 4096

def objectCast : ObjectCast pairMachine xMembers pairMembers where
  decls := []
  fuel := 3
  loc := ⟨0, 0⟩
  type := .mk 0 (.interfaceType xMembers)
  pointer := variableExpr (.mk 1 (.structType pairMembers))
  castType := .mk 0 (.interfaceType xMembers)
  before := variableScope (.mk 1 (.structType pairMembers)) (.ptr pairTy) []
  between := variableScope (.mk 1 (.structType pairMembers)) (.ptr pairTy) [.load (.result 0 (.ptr (.ptr pairTy)))]
  after :=
    let slot := Llvm.Value.result 2 (.ptr (.int 32))
    let s := variableScope (.mk 1 (.structType pairMembers)) (.ptr pairTy) [.load (.result 0 (.ptr (.ptr pairTy))),
      .structGep (.constNull (.ptr pairTy)) 1, .pointerCast (.result 1 (.ptr pairTy)) bytePtr,
      .insertValue (.constNull xTy) (tableGlobal 0 [slot]) 0, .insertValue (.result 4 xTy) (.result 3 bytePtr) 1]
    { s with
      context := s.context.addMembers (some (.mk 0 (.interfaceType xMembers))) xMembers
      globals := 1
      tables := [⟨tableGlobal 0 [slot], [.constNull bytePtr, slot]⟩] }
  object := .result 1 (.ptr pairTy)
  value := .result 5 xTy
  frame :=
    { result n := [.word 16, .word 256, .word 8, .word 256, .aggregate [.word 4096, .word 0],
        .aggregate [.word 4096, .word 256]].getD n (.word 0)
      memory _ _ _ := .word 256 }
  address := 256
  numbered := rfl
  isInterface := rfl
  ofStruct := ⟨_, rfl, rfl, rfl⟩
  pointerCode := rfl
  code := rfl
  typed := ⟨3, _, rfl⟩
  runs := by
    intro n op found val gives
    match n, found with
    | 0, rfl => cases gives
    | 1, rfl | 2, rfl | 3, rfl | 4, rfl | 5, rfl =>
      cases gives
      rfl
  located := rfl

def interfaceAccess : FieldAccess pairMachine [120] where
  decls := []
  fuel := 3
  loc := ⟨0, 0⟩
  type := .mk 0 (.integerType 32)
  target := variableExpr (.mk 0 (.interfaceType xMembers))
  lvalue := true
  before := variableScope (.mk 0 (.interfaceType xMembers)) xTy []
  between := variableScope (.mk 0 (.interfaceType xMembers)) xTy [.load (.result 0 (.ptr xTy))]
  after := variableScope (.mk 0 (.interfaceType xMembers)) xTy [.load (.result 0 (.ptr xTy)),
    .extractValue (.result 1 xTy) 0, .extractValue (.result 1 xTy) 1,
    .load (.result 2 (.ptr (.struct [bytePtr, .ptr (.int 32)]))),
    .extractValue (.result 4 (.struct [bytePtr, .ptr (.int 32)])) 1, .ptrToInt (.result 5 (.ptr (.int 32))) (.int 64),
    .gep (.result 3 bytePtr) (.result 6 (.int 64)) [], .pointerCast (.result 7 bytePtr) (.ptr (.int 32))]
  asked := false
  base := .result 1 xTy
  value := .result 8 (.ptr (.int 32))
  frame :=
    { result n := [.word 16, .aggregate [.word 4096, .word 256], .word 4096, .word 256, .aggregate [.word 0, .word 8],
        .word 8, .word 8, .word 264, .word 264].getD n (.word 0)
      memory _ address _ :=
        if address = 4096 then .aggregate [.word 0, .word 8] else .aggregate [.word 4096, .word 256] }
  numbered := rfl
  targetCode := rfl
  code := rfl
  runs := by
    intro n op found val gives
    match n, found with
    | 0, rfl => cases gives
    | 1, rfl | 2, rfl | 3, rfl | 4, rfl | 5, rfl | 6, rfl | 7, rfl | 8, rfl =>
      cases gives
      rfl

/-- The member, through a pointer to the object. -/
def directAccess : FieldAccess pairMachine [120] where
  decls := []
  fuel := 3
  loc := ⟨0, 0⟩
  type := .mk 0 (.integerType 32)
  target := variableExpr (.mk 1 (.structType pairMembers))
  lvalue := true
  before := variableScope (.mk 1 (.structType pairMembers)) (.ptr pairTy) []
  between := variableScope (.mk 1 (.structType pairMembers)) (.ptr pairTy) [.load (.result 0 (.ptr (.ptr pairTy)))]
  after := variableScope (.mk 1 (.structType pairMembers)) (.ptr pairTy) [.load (.result 0 (.ptr (.ptr pairTy))),
    .structGep (.result 1 (.ptr pairTy)) 1]
  asked := false
  base := .result 1 (.ptr pairTy)
  value := .result 2 (.ptr (.int 32))
  frame :=
    { result n := [.word 16, .word 256, .word 264].getD n (.word 0)
      memory _ _ _ := .word 256 }
  numbered := rfl
  targetCode := rfl
  code := rfl
  runs := by
    intro n op found val gives
    match n, found with
    | 0, rfl => cases gives
    | 1, rfl | 2, rfl =>
      cases gives
      rfl

theorem field_access_agrees_pair :
    ∃ a b address, interfaceAccess.after.Accessed true (.result 8 (.ptr (.int 32))) a ∧
      directAccess.after.Accessed true (.result 2 (.ptr (.int 32))) b ∧
        a.eval pairMachine interfaceAccess.frame = some (.word address) ∧
          b.eval pairMachine directAccess.frame = some (.word address) ∧ a.type = b.type := by
  have ofStruct : OfStruct directAccess.before.context directAccess.fuel directAccess.target.type true pairMembers := ⟨_, rfl, rfl, rfl⟩
  refine field_access_agrees objectCast interfaceAccess directAccess ?_ rfl ofStruct rfl rfl rfl rfl rfl rfl ?_
  · intro name t member
    obtain ⟨rfl, rfl⟩ : name = [120] ∧ t = .mk 0 (.integerType 32) := by simpa [xMembers] using member
    exact ⟨1, rfl⟩
  · intro table member n _ _
    obtain rfl : table = ⟨tableGlobal 0 [.result 2 (.ptr (.int 32))], [.constNull bytePtr, .result 2 (.ptr (.int 32))]⟩ := by
      simpa [objectCast, variableScope] using member
    refine ⟨4096, _, _, rfl, rfl, rfl, fun i field val found value => ?_⟩
    match i, found with
    | 0, rfl | 1, rfl =>
      cases value
      rfl

end Low
