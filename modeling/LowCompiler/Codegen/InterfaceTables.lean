import LowCompiler.Codegen.Growth
import LowCompiler.Codegen.TypeAgreement
import LowCompiler.Llvm.Semantics

/-!
# Interface tables

What a cast to an interface builds: a table with a slot for each member, and a pair of
the table and the object.
-/

namespace Low

open Stateful
open Llvm (Op Ty Val)

/-! ### Built values -/

def Building.Built (s : Building) (value : Llvm.Value) (op : Op) : Prop :=
  ∃ n, value = .result n op.type ∧ s.ops[n]? = some op

section Built
variable {s s' : Building} {value : Llvm.Value} {op : Op}

theorem Building.Built.mono (built : s.Built value op) (le : s ≤ s') : s'.Built value op := by
  obtain ⟨n, same, found⟩ := built
  obtain ⟨rest, more⟩ := le.ops
  refine ⟨n, same, ?_⟩
  rw [← more, List.getElem?_append_left (List.getElem?_eq_some_iff.mp found).1, found]

theorem Building.Built.type (built : s.Built value op) : value.type = op.type := by
  obtain ⟨n, rfl, _⟩ := built
  rfl

theorem build_ok (run : build op s = .ok (value, s')) : s ≤ s' := Keeps.run (fun _ => build_keeps op) run

theorem build_built (numbered : s.Numbered) (run : build op s = .ok (value, s')) : s'.Built value op := by
  cases run
  refine ⟨s.results, rfl, ?_⟩
  rw [show s.results = s.ops.length from numbered]
  simp [Building.ops, Emitted.op?]

theorem Building.Built.eval {machine : Llvm.Machine} {frame : Llvm.Frame} {val : Val} (built : s.Built value op)
    (runs : frame.Runs machine s.ops) (gives : ∀ n, op.eval machine frame n = some val) :
    value.eval machine frame = some val := by
  obtain ⟨n, rfl, found⟩ := built
  exact congrArg some (runs n op found val (gives n))

end Built

/-! ### Slots -/

/-- A translation, run on the context. -/
def inContext {α : Type} (m : Translate α) : Codegen α := fun s =>
  match m s.context with
  | .ok (a, context) => .ok (a, { s with context })
  | .error e => .error e

theorem inContext_ok {α : Type} {m : Translate α} {s s' : Building} {a : α} :
    inContext m s = .ok (a, s') ↔ ∃ c, m s.context = .ok (a, c) ∧ s' = { s with context := c } := by
  unfold inContext
  cases m s.context with
  | error e => simp
  | ok r =>
    obtain ⟨b, c⟩ := r
    simp only [Except.ok.injEq, Prod.mk.injEq]
    grind

theorem mapM_inContext {α β : Type} {f : α → Codegen β} {g : α → Translate β} (same : ∀ x, f x = inContext (g x))
    (xs : List α) : xs.mapM f = inContext (xs.mapM g) := by
  induction xs with
  | nil => rfl
  | cons x xs ih =>
    funext s
    simp only [List.mapM_cons, bind_apply, same, ih, inContext]
    cases g x s.context with
    | error e => rfl
    | ok r =>
      dsimp only
      cases xs.mapM g r.2 <;> rfl

theorem mapM_inContext_ok {α β : Type} {f : α → Codegen β} {xs : List α} {ys : List β} {s s' : Building}
    (run : xs.mapM f s = .ok (ys, s')) {g : α → Translate β} (same : ∀ x, f x = inContext (g x)) :
    ∃ c, xs.mapM g s.context = .ok (ys, c) ∧ s' = { s with context := c } := by
  rw [mapM_inContext same] at run
  exact inContext_ok.mp run

theorem llvmType_eq (fuel : Nat) (type : AstType) : llvmType fuel type = inContext (codegenType fuel type) := by
  funext s
  rw [llvmType, inContext]
  cases codegenType fuel type s.context <;> rfl

theorem present_ok {α : Type} {o : Option α} {a : α} {s s' : Building}
    (run : (present o : Codegen α) s = .ok (a, s')) :
    o = some a ∧ s = s' := by
  cases o with
  | none => cases run
  | some b =>
    cases run
    exact ⟨rfl, rfl⟩

def SlotBuilt (fuel : Nat) (decls : List Decl) (castType refd : AstType) (structMembers : List (StructMember AstType))
    (target : Llvm.Value) (s s' : Building) (value : Llvm.Value) : InterfaceMember AstType → Prop
  | .function name returnType args => ∃ mapped sym function l,
      findMapping s.context decls castType refd name = some mapped ∧ s.context.findSymbol mapped = some sym ∧
        sym.value = some function ∧ s'.Built value (.pointerCast function l) ∧
        ∃ c, memberSlotType (codegenType fuel) (.function name returnType args) s.context = .ok (l, c)
  | .field name fieldType => ∃ n memberType, findMember structMembers name = some (n, memberType) ∧
      typeEqual fieldType memberType = true ∧ s'.Built value (.structGep (.constNull target.type) n)

section Cast
variable {fuel : Nat} {decls : List Decl} {loc : Loc} {castType refd : AstType}
  {structMembers : List (StructMember AstType)} {target value : Llvm.Value} {s s' : Building}

theorem codegenSlot_ok {m : InterfaceMember AstType} (numbered : s.Numbered)
    (run : codegenSlot fuel decls loc castType refd structMembers target m s = .ok (value, s')) :
    SlotBuilt fuel decls castType refd structMembers target s s' value m := by
  cases m with
  | field name fieldType =>
    cases found : findMember structMembers name with
    | none => simp [codegenSlot, found] at run
    | some place =>
      obtain ⟨n, memberType⟩ := place
      by_cases equal : typeEqual fieldType memberType = true
      · simp only [codegenSlot, found, equal] at run
        exact ⟨n, memberType, found, equal, build_built numbered run⟩
      · simp [codegenSlot, found, equal, bind_apply] at run
  | function name returnType args =>
    obtain ⟨_, _, same, run⟩ := bind_ok.mp run
    cases same
    cases mapped : findMapping s.context decls castType refd name with
    | none => simp [mapped] at run
    | some function =>
      simp only [mapped] at run
      obtain ⟨_, _, same, run⟩ := bind_ok.mp run
      cases same
      cases known : s.context.findSymbol function with
      | none => simp [known] at run
      | some sym =>
        simp only [known] at run
        obtain ⟨argTypes, s₁, before, run⟩ := bind_ok.mp run
        obtain ⟨result, s₂, last, run⟩ := bind_ok.mp run
        obtain ⟨value', s₃, symbol, run⟩ := bind_ok.mp run
        -- the arguments are translated as in the type of the table
        obtain ⟨c, argsRun, rfl⟩ := mapM_inContext_ok before (g := memberArgType (codegenType fuel)) fun arg => by
          obtain ⟨pointer, kind⟩ := arg
          cases kind with
          | placeholderType => rfl
          | _ => exact llvmType_eq fuel _
        rw [llvmType_eq] at last
        obtain ⟨c', resultRun, rfl⟩ := inContext_ok.mp last
        obtain ⟨valued, rfl⟩ := present_ok symbol
        refine ⟨function, sym, value', .ptr (.func result argTypes false), mapped, known, valued, ?_, c', ?_⟩
        · refine build_built ?_ run
          exact numbered
        · exact bind_ok.mpr ⟨argTypes, c, argsRun, bind_ok.mpr ⟨result, c', resultRun, rfl⟩⟩

theorem llvmType_ok {type : AstType} {l : Ty} (run : llvmType fuel type s = .ok (l, s')) :
    ∃ c, codegenType fuel type s.context = .ok (l, c) ∧ s' = { s with context := c } := by
  rw [llvmType_eq] at run
  exact inContext_ok.mp run

theorem resolved_ok {type u : AstType} (run : resolved fuel type s = .ok (u, s')) :
    resolveTypeName s.context fuel type = .ok u ∧ s = s' := by
  obtain ⟨_, _, same, run⟩ := bind_ok.mp run
  cases same
  cases found : resolveTypeName s.context fuel type with
  | error e =>
    rw [found] at run
    cases run
  | ok u' =>
    rw [found] at run
    cases run
    exact ⟨rfl, rfl⟩

def tableGlobal (k : Nat) (slots : List Llvm.Value) : Llvm.Value :=
  .global k (.ptr (.struct (bytePtr :: slots.map Llvm.Value.type)))

structure CastBuilt (fuel : Nat) (decls : List Decl) (castType refd : AstType) (members : List (InterfaceMember AstType))
    (structMembers : List (StructMember AstType)) (target : Llvm.Value) (dst : Ty) (s s' : Building) (value : Llvm.Value) (k : Nat)
    (slots : List Llvm.Value) : Prop where
  length : slots.length = members.length
  slot : ∀ (i : Nat) m, members[i]? = some m → ∃ slot s₁, slots[i]? = some slot ∧ s ≤ s₁ ∧
    SlotBuilt fuel decls castType refd structMembers target s₁ s' slot m
  table : ⟨tableGlobal k slots, .constNull bytePtr :: slots⟩ ∈ s'.tables.drop s.tables.length
  pair : ∃ object half, s'.Built object (.pointerCast target bytePtr) ∧
    s'.Built half (.insertValue (.constNull dst) (tableGlobal k slots) 0) ∧
    s'.Built value (.insertValue half object 1)

theorem SlotBuilt.mono {s₁ : Building} {m : InterfaceMember AstType}
    (built : SlotBuilt fuel decls castType refd structMembers target s s₁ value m) (le : s₁ ≤ s') :
    SlotBuilt fuel decls castType refd structMembers target s s' value m := by
  cases m with
  | field name fieldType =>
    obtain ⟨n, memberType, found, equal, built⟩ := built
    exact ⟨n, memberType, found, equal, built.mono le⟩
  | function name returnType args =>
    obtain ⟨mapped, sym, function, l, mapping, known, valued, built, type⟩ := built
    exact ⟨mapped, sym, function, l, mapping, known, valued, built.mono le, type⟩

theorem codegenInterfaceCast_ok {fromType : AstType} {members : List (InterfaceMember AstType)} {dst : Ty}
    (numbered : s.Numbered)
    (run : codegenInterfaceCast fuel decls loc castType fromType members target dst s = .ok (value, s')) :
    fromType.pointer = 1 ∧ ∃ pointer structMembers,
      resolveTypeName s.context fuel fromType.down = .ok (.mk pointer (.structType structMembers)) ∧
        ∃ k slots, CastBuilt fuel decls castType fromType.down members structMembers target dst s s' value k slots := by
  by_cases single : fromType.pointer = 1
  case neg => simp [codegenInterfaceCast, single, bind_apply] at run
  by_cases plain : (memberTags fromType).isEmpty = true
  case neg => simp [codegenInterfaceCast, single, plain, bind_apply] at run
  simp only [codegenInterfaceCast, single, plain] at run
  obtain ⟨st, _, here, run⟩ := bind_ok.mp run
  obtain ⟨found, rfl⟩ := resolved_ok here
  obtain ⟨pointer, kind⟩ := st
  cases kind with
  | structType structMembers =>
    refine ⟨single, pointer, structMembers, found, ?_⟩
    obtain ⟨slots, s₁, turns, run⟩ := bind_ok.mp run
    obtain ⟨table, s₂, added, run⟩ := bind_ok.mp run
    obtain ⟨object, s₃, cast, run⟩ := bind_ok.mp run
    obtain ⟨half, s₄, first, second⟩ := bind_ok.mp run
    have step (m : InterfaceMember AstType) : ∀ s y s', codegenSlot fuel decls loc castType fromType.down structMembers
        target m s = .ok (y, s') → s ≤ s' := fun _ _ _ => Keeps.run fun _ => memberSlot_keeps _ _ _ _ m
    obtain ⟨le₁, length, turns⟩ := mapM_turn le_refl le_trans (fun m _ => step m) turns
    have le₂ : s₁ ≤ s₂ := Keeps.run (fun _ => addTable_keeps _) added
    have le₃ := build_ok cast
    have le₄ := build_ok first
    have le₅ := build_ok second
    have numbered₂ := (le_trans le₁ le₂).numbered numbered
    cases added
    refine ⟨s₁.globals, slots, length, fun i m inside => ?_, ?_, object, half, ?_, ?_, ?_⟩
    · obtain ⟨slot, t₁, t₂, place, le, turn, le'⟩ := turns i m inside
      refine ⟨slot, t₁, place, le, (codegenSlot_ok (le.numbered numbered) turn).mono ?_⟩
      exact le'.trans (le₂.trans (le₃.trans (le₄.trans le₅)))
    · obtain ⟨rest, more⟩ := (le₃.trans (le₄.trans le₅)).tables
      rw [← more, List.append_assoc, List.drop_append_of_le_length le₁.tables.length_le]
      exact List.mem_append_right _ (.head _)
    · exact (build_built numbered₂ cast).mono (le₄.trans le₅)
    · exact (build_built (le₃.numbered numbered₂) first).mono le₅
    · exact build_built ((le_trans le₃ le₄).numbered numbered₂) second
  | _ => cases run

/-- A cast to an interface builds a pair, unless the types are the same. -/
theorem codegenCastExpr_differ {codegen : Expr → Bool → Codegen Llvm.Value} {pointer : Expr} {st : AstType}
    {members : List (InterfaceMember AstType)} {lvalue : Bool} (below : ∀ s₀ expr lvalue, Keeps s₀ (codegen expr lvalue))
    (interface : resolveTypeName s.context fuel castType = .ok (.mk 0 (.interfaceType members)))
    (found : resolveTypeName s.context fuel pointer.type = .ok st)
    (differ : typeEqual st (.mk 0 (.interfaceType members)) = false)
    (run : codegenCastExpr fuel decls codegen loc pointer castType lvalue s = .ok (value, s')) :
    ∃ object s₁ dst c, codegen pointer false s = .ok (object, s₁) ∧
      codegenType fuel castType s₁.context = .ok (dst, c) ∧
      codegenInterfaceCast fuel decls loc castType st members object dst { s₁ with context := c } = .ok (value, s') := by
  obtain ⟨_, _, same, run⟩ := bind_ok.mp run
  cases lvalue with
  | true => cases same
  | false =>
    cases same
    obtain ⟨object, s₁, code, run⟩ := bind_ok.mp run
    obtain ⟨dst, s₂, translated, run⟩ := bind_ok.mp run
    obtain ⟨fromType, s₃, resolvedFrom, run⟩ := bind_ok.mp run
    obtain ⟨toType, s₄, resolvedTo, run⟩ := bind_ok.mp run
    have later : s ≤ s₂ :=
      (Keeps.run (fun s₀ => below s₀ pointer false) code).trans (Keeps.run (fun _ => llvmType_keeps fuel castType) translated)
    obtain ⟨c, type, rfl⟩ := llvmType_ok translated
    obtain ⟨found', rfl⟩ := resolved_ok resolvedFrom
    obtain ⟨interface', rfl⟩ := resolved_ok resolvedTo
    have none : NoMoreTypes s.context c := later.context.noMoreTypes
    obtain rfl := resolveTypeName_agree (fun _ _ => id) none found found'
    obtain rfl := resolveTypeName_agree (fun _ _ => id) none interface interface'
    refine ⟨object, s₁, dst, c, code, type, ?_⟩
    simpa [differ, AstType.kind] using run

/-- A cast of a pointer to an interface builds a pair. -/
theorem codegenCastExpr_interface {codegen : Expr → Bool → Codegen Llvm.Value} {pointer : Expr} {st : AstType}
    {members : List (InterfaceMember AstType)} (below : ∀ s₀ expr lvalue, Keeps s₀ (codegen expr lvalue))
    (interface : resolveTypeName s.context fuel castType = .ok (.mk 0 (.interfaceType members)))
    (found : resolveTypeName s.context fuel pointer.type = .ok st) (behind : st.pointer ≠ 0)
    (run : codegenCastExpr fuel decls codegen loc pointer castType false s = .ok (value, s')) :
    ∃ object s₁ dst c, codegen pointer false s = .ok (object, s₁) ∧
      codegenType fuel castType s₁.context = .ok (dst, c) ∧
      codegenInterfaceCast fuel decls loc castType st members object dst { s₁ with context := c } = .ok (value, s') := by
  obtain ⟨p, kind⟩ := st
  have differ : typeEqual (.mk p kind) (.mk 0 (.interfaceType members)) = false := by
    simp [typeEqual, show p ≠ 0 from behind]
  exact codegenCastExpr_differ below interface found differ run

end Cast

/-- The types of the slots, as the type of the table has them. -/
theorem interface_translated {members : List (InterfaceMember AstType)} {c c₁ : Context} {fuel fuel' : Nat}
    {type : AstType} {l : Ty} (le : NoMoreTypes c c₁)
    (found : resolveTypeName c fuel type = .ok (.mk 0 (.interfaceType members))) {c₂ : Context}
    (run : codegenType fuel' type c₁ = .ok (l, c₂)) :
    ∃ slots, l = .struct [.ptr (.struct (bytePtr :: slots)), bytePtr] ∧ slots.length = members.length ∧
      ∀ (i : Nat) m, members[i]? = some m → ∃ t fuel c' c'', slots[i]? = some t ∧ NoMoreTypes c c' ∧
        memberSlotType (codegenType fuel) m c' = .ok (t, c'') := by
  obtain ⟨fuel₁, run⟩ := codegenType_resolved le found run
  cases fuel₁ with
  | zero => cases run
  | succ fuel₁ =>
    obtain ⟨l, inner, rfl⟩ := codegenType_ok run
    obtain ⟨table, c₂, turns, inner⟩ := bind_ok.mp inner
    obtain ⟨slots, c₃, turns, same⟩ := bind_ok.mp turns
    cases same
    cases inner
    obtain ⟨_, length, turns⟩ := mapM_turn (R := NoMoreTypes) (fun _ _ _ => id)
      (fun le le' name type found => le name type (le' name type found))
      (fun m _ c l c' run => memberSlotType_kept (I := NoMoreTypes c)
        (fun u c₁ l c₂ held run => codegenType_noMoreTypes held run) m c l c' (fun _ _ => id) run) turns
    refine ⟨slots, rfl, length, fun i m present => ?_⟩
    obtain ⟨t, c', c'', place, le', turn, _⟩ := turns i m present
    exact ⟨t, fuel₁, c', c'', place, fun name type found => le name type (le' name type found), turn⟩

end Low
