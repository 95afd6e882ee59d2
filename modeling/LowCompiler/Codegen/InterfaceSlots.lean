import LowCompiler.Codegen.InterfaceTables

/-!
# Slots of interface tables

A slot for a field is checked against the struct. A slot for a function takes the function
that the implementation names, whatever its signature: it is only cast.
-/

namespace Low

open Stateful
open Llvm (Op Ty)

/-- The type of a function for a member of an interface: placeholders are pointers to the object. -/
def slotSignature (object returnType : AstType) (args : List AstType) : AstType :=
  .mk 0 (.funcType returnType (args.map fun arg => if arg.kind matches .placeholderType then object else arg))

structure CodegenSymbol.Implements (symbol : CodegenSymbol) (object returnType : AstType) (args : List AstType) : Prop where
  function : symbol.kind = .FUNC
  typed : symbol.type = some (slotSignature object returnType args)

/-- What the slot of a member should hold: the address of the function that the implementation
names, with the signature of the member, or the place of the member of the struct with the name and
the type of the field. -/
def SlotConforms (context : Context) (decls : List Decl) (castType object : AstType)
    (structMembers : List (StructMember AstType)) (target : Llvm.Value) (s : Building) (slot : Llvm.Value) :
    InterfaceMember AstType → Prop
  | .function name returnType args => ∃ mapped symbol function l,
      findMapping context decls castType object.down name = some mapped ∧ context.findSymbol mapped = some symbol ∧
        symbol.value = some function ∧ s.Built slot (.pointerCast function l) ∧ symbol.Implements object returnType args
  | .field name type => ∃ n, findMember structMembers name = some (n, type) ∧ s.Built slot (.structGep (.constNull target.type) n)

/-- The declarations that a slot rests on agree: the function that the implementation names has the
signature of the member, and `type_equal` does not take another type of a struct member for that of
the field. -/
def WellImplemented (context : Context) (decls : List Decl) (castType object : AstType)
    (structMembers : List (StructMember AstType)) : InterfaceMember AstType → Prop
  | .function name returnType args => ∀ mapped symbol, findMapping context decls castType object.down name = some mapped →
      context.findSymbol mapped = some symbol → symbol.Implements object returnType args
  | .field name type => ∀ n u, findMember structMembers name = some (n, u) → typeEqual type u = true → u = type

theorem resolveTypeName_before {c c' : Context} {fuel : Nat} {type u : AstType} (le : NoMoreTypes c c')
    (run : resolveTypeName c' fuel type = .ok u) : resolveTypeName c fuel type = .ok u := by
  induction fuel generalizing type with
  | zero => cases run
  | succ fuel ih =>
    obtain ⟨pointer, kind⟩ := type
    by_cases named : ∃ name, pointer = 0 ∧ kind = .namedType name
    · obtain ⟨name, rfl, rfl⟩ := named
      obtain ⟨v, typed, run⟩ := resolveTypeName_named run
      obtain ⟨symbol, found, type⟩ := Option.bind_eq_some_iff.mp (le name v typed)
      simp [resolveTypeName, found, type, ih run]
    · rw [resolveTypeName] at run ⊢
      · exact run
      · rintro name ⟨⟩
        exact named ⟨name, rfl, rfl⟩
      · rintro name ⟨⟩
        exact named ⟨name, rfl, rfl⟩

theorem CastBuilt.after {fuel : Nat} {decls : List Decl} {castType refd : AstType} {members : List (InterfaceMember AstType)}
    {structMembers : List (StructMember AstType)} {target value : Llvm.Value} {dst : Ty} {s t s' : Building} {k : Nat}
    {slots : List Llvm.Value} (built : CastBuilt fuel decls castType refd members structMembers target dst t s' value k slots)
    (le : s ≤ t) : CastBuilt fuel decls castType refd members structMembers target dst s s' value k slots where
  length := built.length
  slot i m inside := by
    obtain ⟨slot, s₁, place, le', holds⟩ := built.slot i m inside
    exact ⟨slot, s₁, place, le.trans le', holds⟩
  table := List.drop_subset_drop_left _ le.tables.length_le built.table
  pair := built.pair

section Slots
variable {fuel : Nat} {decls : List Decl} {loc : Loc} {type castType object : AstType}
  {structMembers : List (StructMember AstType)} {target slot : Llvm.Value} {c : Context} {s s₁ s' : Building}

theorem SlotBuilt.conforms_iff {m : InterfaceMember AstType} (grows : c.Extends s.context)
    (built : SlotBuilt fuel decls castType object.down structMembers target s s' slot m) :
    SlotConforms c decls castType object structMembers target s' slot m ↔
      WellImplemented c decls castType object structMembers m := by
  cases m with
  | field name type =>
    obtain ⟨n, u, found, equal, built⟩ := built
    constructor
    · rintro ⟨n', found', _⟩ n'' u' found'' _
      cases found'.symm.trans found''
      rfl
    · intro well
      obtain rfl := well n u found equal
      exact ⟨n, found, built⟩
  | function name returnType args =>
    obtain ⟨mapped, symbol, function, l, mapping, known, valued, built, _⟩ := built
    rw [grows.findMapping] at mapping
    have known' := grows.findSymbol known valued
    constructor
    · rintro ⟨mapped', symbol', function', l', mapping', found, _, _, implements⟩ mapped'' symbol'' mapping'' found''
      cases mapping'.symm.trans mapping''
      cases found.symm.trans found''
      exact implements
    · intro well
      exact ⟨mapped, symbol, function, l, mapping, known', valued, built, well mapped symbol mapping known'⟩

end Slots

structure TableMade (fuel : Nat) (decls : List Decl) (castType object : AstType) (members : List (InterfaceMember AstType))
    (pointer : Expr) (s s' : Building) (value : Llvm.Value) (structMembers : List (StructMember AstType)) (target : Llvm.Value)
    (slots : List Llvm.Value) : Prop where
  struct : ∃ p, resolveTypeName s.context fuel object.down = .ok (.mk p (.structType structMembers))
  single : object.pointer = 1
  pointed : ∃ s₁, codegenExpr decls fuel pointer false s = .ok (target, s₁)
  length : slots.length = members.length
  pair : ∃ dst k, CastBuilt fuel decls castType object.down members structMembers target dst s s' value k slots

/-- The slots of the table of a cast conform to the members of the interface just when the
declarations for all of them agree. -/
theorem interface_slots_iff {fuel : Nat} {decls : List Decl} {loc : Loc} {type castType object : AstType}
    {members : List (InterfaceMember AstType)} {pointer : Expr} {lvalue : Bool} {value : Llvm.Value} {s s' : Building}
    (numbered : s.Numbered) (interface : resolveTypeName s.context fuel castType = .ok (.mk 0 (.interfaceType members)))
    (found : resolveTypeName s.context fuel pointer.type = .ok object)
    (differ : typeEqual object (.mk 0 (.interfaceType members)) = false)
    (run : codegenExpr decls (fuel + 1) (.mk loc type (.castExpr pointer castType)) lvalue s = .ok (value, s')) :
    ∃ structMembers target slots,
      TableMade fuel decls castType object members pointer s s' value structMembers target slots ∧
        ((∀ (i : Nat) m, members[i]? = some m → ∃ slot, slots[i]? = some slot ∧
            SlotConforms s.context decls castType object structMembers target s' slot m) ↔
          ∀ m ∈ members, WellImplemented s.context decls castType object structMembers m) := by
  have cast : codegenCastExpr fuel decls (codegenExpr decls fuel) loc pointer castType lvalue s = .ok (value, s') := run
  obtain ⟨target, s₁, dst, c, pointed, translated, built⟩ :=
    codegenCastExpr_differ (fun _ => codegenExpr_keeps decls fuel) interface found differ cast
  let t : Building := { s₁ with context := c }
  have first : s ≤ s₁ := codegenExpr_extends pointed
  have second : s₁ ≤ t := ⟨List.prefix_refl _, id, List.prefix_refl _, codegenType_extends (.refl _) translated⟩
  have le : s ≤ t := first.trans second
  obtain ⟨single, p, structMembers, down, k, slots, built⟩ := codegenInterfaceCast_ok (le.numbered numbered) built
  have made := built.after le
  refine ⟨structMembers, target, slots, ⟨⟨p, resolveTypeName_before le.context.noMoreTypes down⟩, single, ⟨s₁, pointed⟩,
    built.length, dst, k, made⟩, ?_⟩
  constructor
  · intro conform m member
    obtain ⟨i, inside⟩ := List.mem_iff_getElem?.mp member
    obtain ⟨slot, s₂, place, before, holds⟩ := made.slot i m inside
    obtain ⟨slot', place', conforms⟩ := conform i m inside
    cases place.symm.trans place'
    exact (holds.conforms_iff before.context).mp conforms
  · intro well i m inside
    obtain ⟨slot, s₂, place, before, holds⟩ := made.slot i m inside
    exact ⟨slot, place, (holds.conforms_iff before.context).mpr (well m (List.mem_of_getElem? inside))⟩

/-- `struct { x : int32 }`. -/
def adder : AstType := .mk 0 (.structType [⟨[120], .integer 32⟩])

/-- `interface { func f(#, int32) int32 }`. -/
def addsMembers : List (InterfaceMember AstType) :=
  [.function [102] (.integer 32) [.mk 0 .placeholderType, .integer 32]]

def adds : AstType := .mk 0 (.interfaceType addsMembers)

/-- `interface adds(adder) { f = g }`. -/
def addsDecl : Decl := ⟨⟨0, 0⟩, .implementationDecl adds adder [⟨[102], [103]⟩]⟩

/-- The scope of `p : *adder`, of the implementation and of a function `g` with some parameters. -/
def adderScope (args : List AstType) : Building where
  context := ⟨[⟨.INVALID, some [112], some adder.up, some (.result 0 (.ptr (.ptr (.struct [.int 32])))), none, none, 0, true⟩,
    ⟨.IMPLEMENTATION, none, none, none, some 0, none, 0, false⟩,
    ⟨.FUNC, some [103], some (.mk 0 (.funcType (.integer 32) args)), some (.global 0 bytePtr), none, none, 0, false⟩], []⟩
  emitted := [.op (.alloca (.ptr (.struct [.int 32])))]
  results := 1
  blocks := 0
  globals := 1
  tables := []

/-- `#adds(p)`. -/
def castOfP : Expr := .mk ⟨0, 0⟩ adds (.castExpr (.mk ⟨0, 0⟩ adder.up (.identExpr [112])) adds)

/-- `func g(self *adder, v int32) int32` goes into the slot of `f`, and conforms. -/
theorem interface_slots_adder : ∃ value s' slot,
    codegenExpr [addsDecl] 4 castOfP false (adderScope [adder.up, .integer 32]) = .ok (value, s') ∧
      SlotConforms (adderScope [adder.up, .integer 32]).context [addsDecl] adds adder.up [⟨[120], .integer 32⟩]
        (.result 1 (.ptr (.struct [.int 32]))) s' slot (.function [102] (.integer 32) [.mk 0 .placeholderType, .integer 32]) := by
  obtain ⟨⟨value, s'⟩, run⟩ : ∃ r, codegenExpr [addsDecl] 4 castOfP false (adderScope [adder.up, .integer 32]) = .ok r :=
    ⟨_, rfl⟩
  obtain ⟨structMembers, target, slots, ⟨⟨p, struct⟩, _, ⟨s₁, pointed⟩, _, _⟩, law⟩ :=
    interface_slots_iff (s := adderScope [adder.up, .integer 32]) rfl rfl rfl rfl run
  cases struct
  cases pointed
  have well : ∀ m ∈ addsMembers, WellImplemented (adderScope [adder.up, .integer 32]).context [addsDecl] adds adder.up
      [⟨[120], .integer 32⟩] m := by
    intro m member
    obtain rfl := List.mem_singleton.mp member
    intro mapped symbol mapping found
    cases mapping
    cases found
    exact ⟨rfl, rfl⟩
  obtain ⟨slot, _, conforms⟩ := law.mpr well 0 _ rfl
  exact ⟨value, s', slot, run, conforms⟩

/-- `func g(self *adder) int32` goes into the slot of `f` as well, which is called with two arguments. -/
theorem interface_slot_mismatch : ∃ value s' slot function,
    codegenExpr [addsDecl] 4 castOfP false (adderScope [adder.up]) = .ok (value, s') ∧
      s'.tables = [⟨tableGlobal 1 [slot], [.constNull bytePtr, slot]⟩] ∧
        s'.Built slot (.pointerCast function (.ptr (.func (.int 32) [bytePtr, .int 32] false))) ∧
          ((adderScope [adder.up]).context.findSymbol [103]).bind CodegenSymbol.value = some function ∧
            ¬SlotConforms (adderScope [adder.up]).context [addsDecl] adds adder.up [⟨[120], .integer 32⟩]
              (.result 1 (.ptr (.struct [.int 32]))) s' slot
                (.function [102] (.integer 32) [.mk 0 .placeholderType, .integer 32]) := by
  refine ⟨_, _, .result 2 (.ptr (.func (.int 32) [bytePtr, .int 32] false)), .global 0 bytePtr, rfl, rfl, ⟨2, rfl, rfl⟩, rfl, ?_⟩
  rintro ⟨mapped, symbol, function, l, mapping, found, _, _, implements⟩
  cases mapping
  cases found
  cases implements.typed

end Low
