import LowCompiler.Codegen.InterfaceTables

/-!
# Calls through an interface

A call of a member function takes the table and the object from the argument at the first
placeholder. There the object is passed; at every other place the argument is passed as it is.
-/

namespace Low

open Stateful
open Llvm (Op Ty)

def AstType.isPlaceholder (type : AstType) : Bool := type.kind matches .placeholderType

/-- What the context, or one that has grown from it, translates a type to. -/
def Context.Translates (c : Context) (type : AstType) (l : Ty) : Prop :=
  ∃ fuel c' c'', NoMoreTypes c c' ∧ codegenType fuel type c' = .ok (l, c'')

theorem Context.Translates.unique {c : Context} {type : AstType} {l l' : Ty} (first : c.Translates type l)
    (second : c.Translates type l') : l = l' := by
  obtain ⟨_, _, _, le, run⟩ := first
  obtain ⟨_, _, _, le', run'⟩ := second
  exact codegenType_agree le le' run run'

/-! ### Arguments -/

section Args
variable {codegen : Expr → Bool → Codegen Llvm.Value} {args : List Expr} {place : Nat} {a b : Llvm.Value} {values : List Llvm.Value}
  {s s' : Building}

variable (below : ∀ s₀ expr lvalue, Keeps s₀ (codegen expr lvalue))
include below

/-- Each place has its own argument's value, but for the known one. -/
theorem codegenArgs_turn (run : codegenArgs codegen (some (place, a)) args s = .ok (values, s')) :
    s ≤ s' ∧ values.length = args.length ∧ ∀ (i : Nat) arg, args[i]? = some arg →
      ∃ v s₁ s₂, values[i]? = some v ∧
      s ≤ s₁ ∧ s₂ ≤ s' ∧ if i = place then v = a else codegen arg false s₁ = .ok (v, s₂) := by
  have step (x : Expr × Nat) : ∀ s₀, Keeps s₀ (if x.2 = place then pure a else codegen x.1 false) := by
    intro s₀
    split
    · exact keeps_pure a
    · exact below s₀ x.1 false
  obtain ⟨le, length, turns⟩ := mapM_turn le_refl le_trans (fun x _ s y s' turn => Keeps.run (step x) turn) run
  refine ⟨le, by rw [length, List.length_zipIdx], fun i arg inside => ?_⟩
  obtain ⟨v, s₁, s₂, here, le₁, turn, le₂⟩ := turns i (arg, i) (by simp [inside])
  refine ⟨v, s₁, s₂, here, le₁, le₂, ?_⟩
  split
  · rw [if_pos (by assumption)] at turn
    cases turn
    rfl
  · rwa [if_neg (by assumption)] at turn

/-- Another value at the known place changes nothing else. -/
theorem codegenArgs_replaced (run : codegenArgs codegen (some (place, a)) args s = .ok (values, s')) :
    codegenArgs codegen (some (place, b)) args s = .ok (values.set place b, s') := by
  have length := (codegenArgs_turn below run).2.1
  rw [codegenArgs, mapM_zipWith (h := fun x v => if x.2 = place then b else v) ?_ run]
  · congr 2
    refine List.ext_getElem? fun i => ?_
    by_cases inside : i < args.length
    · have inside' : i < values.length := by omega
      simp [List.getElem_set, inside, inside', eq_comm]
    · have outside : ¬i < values.length := by omega
      simp [inside, outside]
  · intro x _ t v t' turn
    by_cases here : x.2 = place
    · simp only [here, ↓reduceIte] at turn ⊢
      cases turn
      rfl
    · simpa only [here, ↓reduceIte] using turn

end Args

/-! ### What is built -/

/-- A call of a member function: the values of the arguments, what is passed, and what is called. -/
structure CallBuilt (codegen : Expr → Bool → Codegen Llvm.Value) (types : List AstType) (args : List Expr) (member : Nat)
    (s s' : Building) (call : Llvm.Value) (place : Nat) (values passed : List Llvm.Value) (callee : Llvm.Value) : Prop where
  found : findPlaceholder types = some place
  arguments : args.length = types.length ∧ ∃ ph target s₁ s₂ s₃, args[place]? = some ph ∧
    codegen ph false s = .ok (target, s₁) ∧ s₁ ≤ s₂ ∧
      codegenArgs codegen (some (place, target)) args s₂ = .ok (values, s₃) ∧ s₃ ≤ s'
  target : ∃ target tablePtr object table, values[place]? = some target ∧ s'.Built tablePtr (.extractValue target 0) ∧
    s'.Built table (.load tablePtr) ∧ s'.Built callee (.extractValue table (1 + member)) ∧
      s'.Built object (.extractValue target 1) ∧ passed = values.set place object
  call : s'.Built call (.call callee passed)

theorem CallBuilt.mono {codegen : Expr → Bool → Codegen Llvm.Value} {types : List AstType} {args : List Expr} {member : Nat}
    {s s₁ s' : Building} {call callee : Llvm.Value} {place : Nat} {values passed : List Llvm.Value}
    (built : CallBuilt codegen types args member s s₁ call place values passed callee) (le : s₁ ≤ s') :
    CallBuilt codegen types args member s s' call place values passed callee := by
  obtain ⟨found, ⟨length, ph, target, t₁, t₂, t₃, present, code, le₁, arguments, le₂⟩, target', call⟩ := built
  obtain ⟨w, tablePtr, object, table, here, b₁, b₂, b₃, b₄, same⟩ := target'
  exact ⟨found, ⟨length, ph, target, t₁, t₂, t₃, present, code, le₁, arguments, le₂.trans le⟩,
    ⟨w, tablePtr, object, table, here, b₁.mono le, b₂.mono le, b₃.mono le, b₄.mono le, same⟩, call.mono le⟩

section Call
variable {fuel : Nat} {codegen : Expr → Bool → Codegen Llvm.Value} {loc : Loc} {sym : CodegenSymbol} {interface : AstType}
  {types : List AstType} {args : List Expr} {s s' : Building} {value : Llvm.Value}

theorem codegenMemberCall_ok (below : ∀ s₀ expr lvalue, Keeps s₀ (codegen expr lvalue)) (numbered : s.Numbered)
    (run : codegenMemberCall fuel codegen loc sym interface types args s = .ok (value, s')) :
    ∃ place values passed callee, CallBuilt codegen types args sym.member s s' value place values passed callee := by
  by_cases length : types.length = args.length
  case neg => simp [codegenMemberCall, length, throw_bind] at run
  cases found : findPlaceholder types with
  | none => simp [codegenMemberCall, length, found] at run
  | some place =>
    simp only [codegenMemberCall, length, found, ne_eq, not_true_eq_false, ↓reduceIte] at run
    obtain ⟨ph, s₁, here, run⟩ := bind_ok.mp run
    obtain ⟨present, rfl⟩ := present_ok here
    obtain ⟨phType, s₁, resolvedType, run⟩ := bind_ok.mp run
    obtain ⟨_, rfl⟩ := resolved_ok resolvedType
    obtain ⟨target, s₁, code, run⟩ : ∃ target s₁, codegen ph false s = .ok (target, s₁) ∧ (do
        let tablePtr ← build (.extractValue target 0)
        let objectPtr ← build (.extractValue target 1)
        let table ← build (.load tablePtr)
        let memberFunc ← build (.extractValue table (1 + sym.member))
        let values ← codegenArgs codegen (some (place, objectPtr)) args
        build (.call memberFunc values) : Codegen Llvm.Value) s₁ = .ok (value, s') := by
      cases compatible : typeEqual phType interface <;> split at run <;> simp [compatible, throw_bind] at run
      exact bind_ok.mp run
    obtain ⟨tablePtr, s₂, r₂, run⟩ := bind_ok.mp run
    obtain ⟨object, s₃, r₃, run⟩ := bind_ok.mp run
    obtain ⟨table, s₄, r₄, run⟩ := bind_ok.mp run
    obtain ⟨callee, s₅, r₅, run⟩ := bind_ok.mp run
    obtain ⟨passed, s₆, arguments, called⟩ := bind_ok.mp run
    -- the same run, with the argument at the placeholder as it was generated
    have values := codegenArgs_replaced (b := target) below arguments
    have passed' := codegenArgs_replaced (b := object) below values
    have same : passed = (passed.set place target).set place object :=
      congrArg Prod.fst (Except.ok.inj (arguments.symm.trans passed'))
    obtain ⟨le₆, count, turns⟩ := codegenArgs_turn below values
    obtain ⟨v, _, _, atPlace, _, _, known⟩ := turns place ph present
    rw [if_pos rfl] at known
    subst known
    have n₁ := (Keeps.run (fun s₀ => below s₀ ph false) code).numbered numbered
    have n₂ := (build_ok r₂).numbered n₁
    have n₃ := (build_ok r₃).numbered n₂
    have n₄ := (build_ok r₄).numbered n₃
    have n₅ := (build_ok r₅).numbered n₄
    have le₅ := le₆.trans (build_ok called)
    have le₄ := (build_ok r₅).trans le₅
    have le₃ := (build_ok r₄).trans le₄
    refine ⟨place, passed.set place v, passed, callee, found, ⟨length.symm, ph, v, s₁, s₅, s₆, present, code, ?_, values,
      build_ok called⟩, ⟨v, tablePtr, object, table, atPlace, (build_built n₁ r₂).mono ((build_ok r₃).trans le₃),
      (build_built n₃ r₄).mono le₄, (build_built n₄ r₅).mono le₅, (build_built n₂ r₃).mono le₃, same⟩,
      build_built (le₆.numbered n₅) called⟩
    exact (build_ok r₂).trans ((build_ok r₃).trans ((build_ok r₄).trans (build_ok r₅)))

end Call

/-! ### What a call should pass -/

/-- The member's function is called, with an object at each placeholder and the argument itself
elsewhere. -/
structure PassesRight (context : Context) (interface : AstType) (types : List AstType) (member : Nat) (s : Building)
    (values passed : List Llvm.Value) (callee : Llvm.Value) : Prop where
  called : ∃ (i : Nat) (t : AstType) (w tablePtr table : Llvm.Value), types[i]? = some t ∧ t.isPlaceholder = true ∧
    values[i]? = some w ∧ s.Built tablePtr (.extractValue w 0) ∧ s.Built table (.load tablePtr) ∧
      s.Built callee (.extractValue table (1 + member))
  placeholder : ∀ (i : Nat) (t : AstType), types[i]? = some t → t.isPlaceholder = true → ∃ w object : Llvm.Value,
    values[i]? = some w ∧ context.Translates interface w.type ∧ passed[i]? = some object ∧
      s.Built object (.extractValue w 1)
  other : ∀ (i : Nat) (t : AstType), types[i]? = some t → t.isPlaceholder = false → passed[i]? = values[i]?
  typed : ∃ result, callee.type = .ptr (.func result (passed.map Llvm.Value.type) false)

/-- There is no second placeholder, and each argument has the type of its parameter. -/
structure WellPassed (context : Context) (interface : AstType) (types : List AstType) (values : List Llvm.Value) : Prop where
  single : ∀ (i j : Nat) (t u : AstType), types[i]? = some t → types[j]? = some u → t.isPlaceholder = true →
    u.isPlaceholder = true → i = j
  typed : ∀ (i : Nat) (t : AstType) (w : Llvm.Value), types[i]? = some t → values[i]? = some w →
    context.Translates (if t.isPlaceholder then interface else t) w.type

section Types
variable {c : Context} {members : List (InterfaceMember AstType)} {name : Name} {returnType : AstType}
  {types : List AstType} {member : Nat}

theorem slot_translated {fuel : Nat} {c₁ c₂ : Context} {l : Ty} (le : NoMoreTypes c c₁)
    (run : memberSlotType (codegenType fuel) (.function name returnType types) c₁ = .ok (l, c₂)) :
    ∃ result params, l = .ptr (.func result params false) ∧ params.length = types.length ∧
      ∀ (i : Nat) t, types[i]? = some t → ∃ p, params[i]? = some p ∧
        if t.isPlaceholder then p = bytePtr else c.Translates t p := by
  obtain ⟨params, c₃, turns, run⟩ := bind_ok.mp run
  obtain ⟨result, c₄, _, run⟩ := bind_ok.mp run
  cases run
  obtain ⟨_, length, turns⟩ := mapM_turn (R := NoMoreTypes) (fun _ _ _ => id)
    (fun le le' name type found => le name type (le' name type found))
    (fun t _ c l c' run => memberArgType_kept (I := NoMoreTypes c)
      (fun u c₁ l c₂ held run => codegenType_noMoreTypes held run) t c l c' (fun _ _ => id) run) turns
  refine ⟨result, params, rfl, length, fun i t inside => ?_⟩
  obtain ⟨p, d, d', place, le', turn, _⟩ := turns i t inside
  refine ⟨p, place, ?_⟩
  obtain ⟨pointer, kind⟩ := t
  cases kind with
  | placeholderType =>
    cases turn
    rfl
  | _ => exact ⟨fuel, d, d', fun name type found => le name type (le' name type found), turn⟩

/-- The type of what is called, from that of the interface. -/
theorem callee_translated (declared : members[member]? = some (.function name returnType types)) {s : Building}
    {w tablePtr table callee : Llvm.Value} (translated : c.Translates (.mk 0 (.interfaceType members)) w.type)
    (b₁ : s.Built tablePtr (.extractValue w 0)) (b₂ : s.Built table (.load tablePtr))
    (b₃ : s.Built callee (.extractValue table (1 + member))) :
    ∃ result params, callee.type = .ptr (.func result params false) ∧ params.length = types.length ∧
      ∀ (i : Nat) t, types[i]? = some t → ∃ p, params[i]? = some p ∧
        if t.isPlaceholder then p = bytePtr else c.Translates t p := by
  obtain ⟨fuel, c₁, c₂, le, run⟩ := translated
  obtain ⟨slots, type, _, each⟩ := interface_translated le (resolveTypeName_other (by simp) : resolveTypeName _ 1 _ = _) run
  obtain ⟨l, fuel', c₃, c₄, slot, le', slotRun⟩ := each member _ declared
  obtain ⟨result, params, rfl, length, params_translated⟩ := slot_translated le' slotRun
  refine ⟨result, params, ?_, length, params_translated⟩
  have t₁ : tablePtr.type = .ptr (.struct (bytePtr :: slots)) := b₁.type.trans (Op.type_extractValue type rfl)
  have t₂ : table.type = .struct (bytePtr :: slots) := b₂.type.trans (Op.type_load t₁)
  exact b₃.type.trans (Op.type_extractValue t₂ (by rw [Nat.add_comm, List.getElem?_cons_succ, slot]))

end Types

section Passing
variable {codegen : Expr → Bool → Codegen Llvm.Value} {context : Context} {members : List (InterfaceMember AstType)}
  {name : Name} {returnType : AstType} {types : List AstType} {args : List Expr} {member place : Nat} {s s' : Building}
  {call callee : Llvm.Value} {values passed : List Llvm.Value}

theorem findPlaceholder_some (found : findPlaceholder types = some place) :
    ∃ t, types[place]? = some t ∧ t.isPlaceholder = true := by
  obtain ⟨inside, isPlaceholder, _⟩ := List.findIdx?_eq_some_iff_getElem.mp found
  exact ⟨types[place], List.getElem?_eq_getElem inside, isPlaceholder⟩

/-- An interface value is not the object in it, so it is right at no second placeholder. -/
theorem PassesRight.single (built : CallBuilt codegen types args member s s' call place values passed callee)
    (right : PassesRight context (.mk 0 (.interfaceType members)) types member s' values passed callee) :
    ∀ (i : Nat) t, types[i]? = some t → t.isPlaceholder = true → i = place := by
  intro i t inside isPlaceholder
  refine Decidable.byContradiction fun other => ?_
  obtain ⟨w, object, here, ⟨fuel, c₁, c₂, le, run⟩, there, objectBuilt⟩ := right.placeholder i t inside isPlaceholder
  obtain ⟨_, _, object', _, _, _, _, _, _, passed_eq⟩ := built.target
  rw [passed_eq, List.getElem?_set_ne (Ne.symm other), here] at there
  cases there
  obtain ⟨slots, type, _⟩ := interface_translated le (resolveTypeName_other (by simp) : resolveTypeName _ 1 _ = _) run
  have object := objectBuilt.type.trans (Op.type_extractValue type rfl)
  cases type.symm.trans object

theorem passesRight_iff (declared : members[member]? = some (.function name returnType types))
    (built : CallBuilt codegen types args member s s' call place values passed callee)
    (counted : values.length = args.length) :
    PassesRight context (.mk 0 (.interfaceType members)) types member s' values passed callee ↔
      WellPassed context (.mk 0 (.interfaceType members)) types values := by
  obtain ⟨t, first, isPlaceholder⟩ := findPlaceholder_some built.found
  obtain ⟨target, tablePtr, object, table, here, b₁, b₂, b₃, b₄, rfl⟩ := built.target
  constructor
  · intro right
    have alone := right.single built
    refine ⟨fun i j t u inside inside' left right => (alone i t inside left).trans (alone j u inside' right).symm, ?_⟩
    intro i u w inside argument
    cases holds : u.isPlaceholder with
    | true =>
      obtain ⟨w', _, same, translated, _⟩ := right.placeholder i u inside holds
      cases argument.symm.trans same
      exact translated
    | false =>
      obtain ⟨_, _, same, translated, _⟩ := right.placeholder place t first isPlaceholder
      cases here.symm.trans same
      obtain ⟨result, params, type, _, each⟩ := callee_translated declared translated b₁ b₂ b₃
      obtain ⟨result', type'⟩ := right.typed
      cases type.symm.trans type'
      obtain ⟨p, at_i, param⟩ := each i u inside
      rw [List.getElem?_map, right.other i u inside holds, argument] at at_i
      cases at_i
      simpa [holds] using param
  · intro well
    have translated := well.typed place t target first here
    rw [if_pos isPlaceholder] at translated
    obtain ⟨result, params, type, length, each⟩ := callee_translated declared translated b₁ b₂ b₃
    obtain ⟨fuel, c₁, c₂, le, run⟩ := translated
    obtain ⟨slots, targetType, _⟩ := interface_translated le (resolveTypeName_other (by simp) : resolveTypeName _ 1 _ = _) run
    have inPlace : place < values.length := (List.getElem?_eq_some_iff.mp here).1
    refine ⟨⟨place, t, target, tablePtr, table, first, isPlaceholder, here, b₁, b₂, b₃⟩, ?_, ?_, result, ?_⟩
    · intro i u inside holds
      obtain rfl := well.single i place u t inside first holds isPlaceholder
      exact ⟨target, object, here, ⟨fuel, c₁, c₂, le, run⟩, by simp [inPlace], b₄⟩
    · intro i u inside holds
      refine List.getElem?_set_ne fun same => ?_
      subst same
      cases first.symm.trans inside
      cases isPlaceholder.symm.trans holds
    · rw [type]
      congr 2
      refine List.ext_getElem? fun i => ?_
      rw [List.getElem?_map]
      cases inside : types[i]? with
      | none =>
        have outside := List.getElem?_eq_none_iff.mp inside
        have same := built.arguments.1
        rw [List.getElem?_eq_none (by omega), List.getElem?_eq_none (by rw [List.length_set]; omega), Option.map_none]
      | some u =>
        obtain ⟨p, at_i, param⟩ := each i u inside
        rw [at_i]
        cases holds : u.isPlaceholder with
        | true =>
          obtain rfl := well.single i place u t inside first holds isPlaceholder
          rw [if_pos holds] at param
          have objectType := b₄.type.trans (Op.type_extractValue targetType rfl)
          simp [inPlace, param, objectType]
        | false =>
          have other : place ≠ i := by
            rintro rfl
            cases first.symm.trans inside
            cases isPlaceholder.symm.trans holds
          rw [List.getElem?_set_ne other]
          have within := (List.getElem?_eq_some_iff.mp inside).1
          have same := built.arguments.1
          have argument := List.getElem?_eq_getElem (l := values) (i := i) (by omega)
          have translated := well.typed i u _ inside argument
          rw [if_neg (by simp [holds])] at translated param
          rw [argument, Option.map_some, translated.unique param]

/-- What is built for a call of a member. -/
theorem codegenExpr_memberCall {decls : List Decl} {fuel : Nat} {loc targetLoc : Loc} {type targetType : AstType}
    {ident : Name} {lvalue : Bool} {value : Llvm.Value} (numbered : s.Numbered)
    (found : s.context.findSymbol ident = some (memberSymbol (some (.mk 0 (.interfaceType members))) ident member))
    (declared : members[member]? = some (.function name returnType types))
    (run : codegenExpr decls (fuel + 1) (.mk loc type (.callExpr (.mk targetLoc targetType (.identExpr ident)) args)) lvalue s =
      .ok (value, s')) :
    ∃ call place values passed callee, values.length = args.length ∧
      CallBuilt (codegenExpr decls fuel) types args member s s' call place values passed callee := by
  have below (s₀ : Building) (expr : Expr) (lvalue : Bool) : Keeps s₀ (codegenExpr decls fuel expr lvalue) :=
    codegenExpr_keeps decls fuel expr lvalue
  obtain ⟨_, _, same, run⟩ := bind_ok.mp run
  cases same
  simp only [found] at run
  obtain ⟨_, _, same, run⟩ := bind_ok.mp run
  cases same
  simp only [AstType.kind] at run
  obtain ⟨m, _, here, run⟩ := bind_ok.mp run
  obtain ⟨present, rfl⟩ := present_ok here
  cases declared.symm.trans present
  obtain ⟨call, s₁, called, run⟩ := bind_ok.mp run
  have le : s₁ ≤ s' := Keeps.run (fun _ => spillUnless_keeps lvalue call) run
  obtain ⟨place, values, passed, callee, built⟩ := codegenMemberCall_ok below numbered called
  obtain ⟨_, _, _, _, _, _, _, _, arguments, _⟩ := built.arguments.2
  exact ⟨call, place, values, passed, callee, (codegenArgs_turn below arguments).2.1, built.mono le⟩

/-- A call of a member that has a placeholder passes what it should exactly if there is one
placeholder, and the arguments have the types of the parameters. -/
theorem interface_call_passes {decls : List Decl} {fuel : Nat} {loc targetLoc : Loc} {type targetType : AstType}
    {ident : Name} {lvalue : Bool} {value : Llvm.Value} (numbered : s.Numbered)
    (found : s.context.findSymbol ident = some (memberSymbol (some (.mk 0 (.interfaceType members))) ident member))
    (declared : members[member]? = some (.function name returnType types))
    (run : codegenExpr decls (fuel + 1) (.mk loc type (.callExpr (.mk targetLoc targetType (.identExpr ident)) args)) lvalue s =
      .ok (value, s')) :
    ∃ call place values passed callee,
      CallBuilt (codegenExpr decls fuel) types args member s s' call place values passed callee ∧
        (PassesRight s.context (.mk 0 (.interfaceType members)) types member s' values passed callee ↔
          WellPassed s.context (.mk 0 (.interfaceType members)) types values) := by
  obtain ⟨call, place, values, passed, callee, counted, built⟩ := codegenExpr_memberCall numbered found declared run
  exact ⟨call, place, values, passed, callee, built, passesRight_iff declared built counted⟩

end Passing

def placeholder : AstType := .mk 0 .placeholderType

def consumerMembers (types : List AstType) : List (InterfaceMember AstType) :=
  [.function [102] (.mk 0 .voidType) types]

def consumer (types : List AstType) : AstType := .mk 0 (.interfaceType (consumerMembers types))

def consumerTy (params : List Ty) : Ty :=
  .struct [.ptr (.struct [bytePtr, .ptr (.func .void params false)]), bytePtr]

/-- The scope of `i : consumer`, of `n : int32` and of `p : *int8`. -/
def callScope (types : List AstType) (params : List Ty) : Building where
  context := ⟨[⟨.INVALID, some [105], some (consumer types), some (.result 0 (.ptr (consumerTy params))), none, none, 0, true⟩,
    ⟨.INVALID, some [110], some (.integer 32), some (.result 1 (.ptr (.int 32))), none, none, 0, true⟩,
    ⟨.INVALID, some [112], some (.mk 1 (.integerType 8)), some (.result 2 (.ptr bytePtr)), none, none, 0, true⟩,
    memberSymbol (some (consumer types)) [102] 0], []⟩
  emitted := [.op (.alloca (consumerTy params)), .op (.alloca (.int 32)), .op (.alloca bytePtr)]
  results := 3
  blocks := 0
  globals := 0
  tables := []

def identOf (type : AstType) (name : Name) : Expr := .mk ⟨0, 0⟩ type (.identExpr name)

def callOf (args : List Expr) : Expr :=
  .mk ⟨0, 0⟩ (.mk 0 .voidType) (.callExpr (.mk ⟨0, 0⟩ (.mk 0 .noType) (.identExpr [102])) args)

/-- The arguments of `f(i, n)` for `func f(#, int32) void`. -/
def objectAndNumber : List Expr :=
  [identOf (consumer [placeholder, .integer 32]) [105], identOf (.integer 32) [110]]

def numberScope : Building := callScope [placeholder, .integer 32] [bytePtr, .int 32]

/-- In whatever the scope has grown to, the arguments are an interface value and a number. -/
theorem objectAndNumber_wellPassed {member : Nat} {s' : Building} {call callee : Llvm.Value} {place : Nat}
    {values passed : List Llvm.Value}
    (built : CallBuilt (codegenExpr [] 4) [placeholder, .integer 32] objectAndNumber member numberScope s' call place values
      passed callee) :
    WellPassed numberScope.context (consumer [placeholder, .integer 32]) [placeholder, .integer 32] values := by
  obtain ⟨_, ph, target, s₁, s₂, s₃, present, targeted, le, arguments, _⟩ := built.arguments
  cases built.found
  cases present
  cases targeted
  obtain ⟨added, same, _⟩ := le.context.symbols
  obtain ⟨⟨symbols, prev⟩, emitted, results, blocks, globals, tables⟩ := s₂
  dsimp only at same
  subst same
  cases arguments
  have first : ∀ i t, [placeholder, .integer 32][i]? = some t → t.isPlaceholder = true → i = 0 := by
    rintro (_ | _ | i) t inside holds
    · rfl
    · cases inside
      cases holds
    · cases inside
  refine ⟨fun i j t u inside inside' left right => (first i t inside left).trans (first j u inside' right).symm, ?_⟩
  have same : NoMoreTypes numberScope.context numberScope.context := fun _ _ found => found
  rintro (_ | _ | i) t w inside argument
  · cases inside
    cases argument
    exact ⟨4, numberScope.context, _, same, rfl⟩
  · cases inside
    cases argument
    exact ⟨1, numberScope.context, _, same, rfl⟩
  · cases inside

/-- `f(i, n)` passes the object of `i` and the number. -/
theorem objectAndNumber_passes :
    ∃ s' call place values passed callee,
      CallBuilt (codegenExpr [] 4) [placeholder, .integer 32] objectAndNumber 0 numberScope s' call place values passed callee ∧
        PassesRight numberScope.context (consumer [placeholder, .integer 32]) [placeholder, .integer 32] 0 s' values passed
          callee := by
  obtain ⟨⟨value, s'⟩, run⟩ : ∃ r, codegenExpr [] 5 (callOf objectAndNumber) false numberScope = .ok r := ⟨_, rfl⟩
  obtain ⟨call, place, values, passed, callee, built, right⟩ := interface_call_passes (s := numberScope) rfl rfl rfl run
  exact ⟨s', call, place, values, passed, callee, built, right.mpr (objectAndNumber_wellPassed built)⟩

/-- The arguments of `f(i, i)` and of `f(i, p)` for `func f(#, #) void`. -/
def objectTwice : List Expr :=
  [identOf (consumer [placeholder, placeholder]) [105], identOf (consumer [placeholder, placeholder]) [105]]

def objectAndPointer : List Expr :=
  [identOf (consumer [placeholder, placeholder]) [105], identOf (.mk 1 (.integerType 8)) [112]]

/-- The call is built, and it does not pass what it should. -/
def PassedWrong (args : List Expr) (s' : Building) : Prop :=
  (∃ call place values passed callee, CallBuilt (codegenExpr [] 4) [placeholder, placeholder] args 0
    (callScope [placeholder, placeholder] [bytePtr, bytePtr]) s' call place values passed callee) ∧
  ∀ call place values passed callee, CallBuilt (codegenExpr [] 4) [placeholder, placeholder] args 0
    (callScope [placeholder, placeholder] [bytePtr, bytePtr]) s' call place values passed callee →
      ¬PassesRight (callScope [placeholder, placeholder] [bytePtr, bytePtr]).context (consumer [placeholder, placeholder])
        [placeholder, placeholder] 0 s' values passed callee

theorem passedWrong {args : List Expr} {value : Llvm.Value} {s' : Building} (run : codegenExpr [] 5 (callOf args) false
    (callScope [placeholder, placeholder] [bytePtr, bytePtr]) = .ok (value, s')) : PassedWrong args s' := by
  constructor
  · obtain ⟨call, place, values, passed, callee, _, built⟩ :=
      codegenExpr_memberCall (s := callScope [placeholder, placeholder] [bytePtr, bytePtr]) rfl rfl rfl run
    exact ⟨call, place, values, passed, callee, built⟩
  · intro call place values passed callee built right
    have first := right.single built 0 placeholder rfl rfl
    have second := right.single built 1 placeholder rfl rfl
    omega

/-- The second argument is passed as it is, an interface value table and all, and a pointer without
a question. LLVM has nothing against the pointer. -/
theorem second_placeholder_not_object :
    (∃ value s', codegenExpr [] 5 (callOf objectTwice) false (callScope [placeholder, placeholder] [bytePtr, bytePtr]) =
      .ok (value, s') ∧ PassedWrong objectTwice s') ∧
    ∃ value s', codegenExpr [] 5 (callOf objectAndPointer) false
        (callScope [placeholder, placeholder] [bytePtr, bytePtr]) = .ok (value, s') ∧
      PassedWrong objectAndPointer s' ∧ ∀ op ∈ s'.ops, op.WellTyped := by
  refine ⟨⟨_, _, rfl, passedWrong rfl⟩, _, _, rfl, passedWrong rfl, ?_⟩
  have each : ∀ op ∈ [Op.alloca (consumerTy [bytePtr, bytePtr]), .alloca (.int 32), .alloca bytePtr,
      .load (.result 0 (.ptr (consumerTy [bytePtr, bytePtr]))), .extractValue (.result 3 (consumerTy [bytePtr, bytePtr])) 0,
      .extractValue (.result 3 (consumerTy [bytePtr, bytePtr])) 1,
      .load (.result 4 (.ptr (.struct [bytePtr, .ptr (.func .void [bytePtr, bytePtr] false)]))),
      .extractValue (.result 6 (.struct [bytePtr, .ptr (.func .void [bytePtr, bytePtr] false)])) 1,
      .load (.result 2 (.ptr bytePtr)),
      .call (.result 7 (.ptr (.func .void [bytePtr, bytePtr] false))) [.result 5 bytePtr, .result 8 bytePtr]],
      op.WellTyped := by
    simp [Op.WellTyped, consumerTy, bytePtr]
  exact each

end Low
