import LowCompiler.Codegen.Context
import LowCompiler.Stateful

/-!
# When the translation of a type stops

`codegen_type` follows every reference of a type, through names, pointers, elements,
members and arguments alike, and it does not remember where it has been. So it stops
when every chain of references ends, and a type that leads back to itself in any way
is translated forever.
-/

namespace Low

open Stateful

/-- The types that the translation of a kind goes on with. -/
def InterfaceMember.translated : InterfaceMember AstType → List AstType
  | .field _ type => [type]
  | .function _ returnType args => returnType :: args.filter fun arg => !(arg.kind matches .placeholderType)

def TypeKind.translated : TypeKind AstType → List AstType
  | .interfaceType members => members.flatMap InterfaceMember.translated
  | kind => kind.parts

def Context.typeOf (context : Context) (name : Name) : Option AstType :=
  (context.findSymbol name).bind CodegenSymbol.type

inductive Follows (context : Context) : TypeKind AstType → AstType → Prop where
  | part {kind type} : type ∈ kind.translated → Follows context kind type
  | name {name type} : context.typeOf name = some type → Follows context (.namedType name) type

def Refers (context : Context) (target type : AstType) : Prop := Follows context type.kind target

/-- The kinds that have no translation, whatever they refer to. -/
def Refused (context : Context) : TypeKind AstType → Prop
  | .noType | .placeholderType => True
  | .floatType width => width ∉ [16, 32, 64, 128]
  | .namedType name => context.typeOf name = none
  | _ => False

def Stops {α : Type} (run : Except CodegenError α) : Prop := run ≠ .error .fuel

/-! ### The symbols of members -/

def Context.addMembers (context : Context) (interface : Option AstType)
    (members : List (InterfaceMember AstType)) :
    Context :=
  { context with symbols := context.symbols ++ memberSymbols interface members }

section Members
variable {context : Context} {interface : Option AstType} {members : List (InterfaceMember AstType)} {name : Name}

theorem mem_memberSymbols {symbol : CodegenSymbol} (member : symbol ∈ memberSymbols interface members) :
    symbol.type = none ∧ ∃ m ∈ members, symbol.name = some m.name := by
  obtain ⟨i, inside, same⟩ := List.mem_iff_getElem.mp member
  simp only [memberSymbols, List.getElem_mapIdx, memberSymbol] at same
  subst same
  simp only [memberSymbols, List.length_mapIdx] at inside
  exact ⟨rfl, members[i], List.getElem_mem inside, rfl⟩

theorem findSymbol_addMembers (context : Context) (interface : Option AstType)
    (members : List (InterfaceMember AstType)) (name : Name) :
    (context.addMembers interface members).findSymbol name =
      match context.symbols.find? fun symbol => symbol.name = some name with
      | some symbol => some symbol
      | none => match (memberSymbols interface members).find? fun symbol => symbol.name = some name with
        | some symbol => some symbol
        | none => context.findSymbol name := by
  simp only [Context.findSymbol, Context.addMembers, List.findSome?_cons, List.find?_append]
  cases context.symbols.find? fun symbol => symbol.name = some name with
  | some symbol => rfl
  | none => cases (memberSymbols interface members).find? fun symbol => symbol.name = some name <;> rfl

theorem typeOf_addMembers {type : AstType}
    (found : (context.addMembers interface members).typeOf name = some type) :
    context.typeOf name = some type := by
  rw [Context.typeOf, findSymbol_addMembers] at found
  cases inner : context.symbols.find? fun symbol => symbol.name = some name with
  | some symbol =>
    rw [inner] at found
    simpa [Context.typeOf, Context.findSymbol, inner] using found
  | none =>
    rw [inner] at found
    cases added : (memberSymbols interface members).find? fun symbol => symbol.name = some name with
    | some symbol =>
      rw [added] at found
      have typeless := (mem_memberSymbols (List.mem_of_find?_eq_some added)).1
      simp [typeless] at found
    | none =>
      rw [added] at found
      exact found

theorem typeOf_addMembers_other (other : name ∉ members.map InterfaceMember.name) :
    (context.addMembers interface members).typeOf name = context.typeOf name := by
  have absent : (memberSymbols interface members).find? (fun symbol => symbol.name = some name) = none := by
    refine List.find?_eq_none.mpr fun symbol member same => other ?_
    obtain ⟨_, m, present, named⟩ := mem_memberSymbols member
    rw [named] at same
    exact List.mem_map.mpr ⟨m, present, by simpa using same⟩
  rw [Context.typeOf, findSymbol_addMembers, absent, Context.typeOf]
  cases inner : context.symbols.find? fun symbol => symbol.name = some name with
  | some symbol => simp [Context.findSymbol, inner]
  | none => rfl

end Members

/-! ### One translation -/

section Kind
variable {translate : AstType → Translate Llvm.Ty} {I : Context → Prop} {c c' : Context} {l : Llvm.Ty}

theorem memberArgType_eq (translate : AstType → Translate Llvm.Ty) (arg : AstType) :
    memberArgType translate arg = if arg.kind matches .placeholderType then pure (.ptr (.int 8)) else translate arg := by
  obtain ⟨pointer, kind⟩ := arg
  cases kind <;> rfl

theorem memberArgs_kept {args : List AstType}
    (kept : ∀ u ∈ args.filter (fun arg => !(arg.kind matches .placeholderType)), ∀ c l c', I c →
      translate u c = .ok (l, c') → I c') :
    ∀ arg ∈ args, ∀ c l c', I c → memberArgType translate arg c = .ok (l, c') → I c' := by
  intro arg member c l c' held run
  rw [memberArgType_eq] at run
  split at run
  · cases run
    exact held
  · exact kept arg (List.mem_filter.mpr ⟨member, by simp [*]⟩) c l c' held run

/-- The types in a slot are translated one after the other. -/
theorem memberSlotType_turn {R : Context → Context → Prop} (refl : ∀ c, R c c) (trans : ∀ {c d e}, R c d → R d e → R c e)
    {m : InterfaceMember AstType} (step : ∀ u ∈ m.translated, ∀ c l c', translate u c = .ok (l, c') → R c c')
    (run : memberSlotType translate m c = .ok (l, c')) :
    R c c' ∧ ∀ u ∈ m.translated, ∃ c₁ l c₂, R c c₁ ∧ translate u c₁ = .ok (l, c₂) ∧ R c₂ c' := by
  cases m with
  | field name type =>
    obtain ⟨l, c₁, inner, run⟩ := bind_ok.mp run
    cases run
    have single : type ∈ InterfaceMember.translated (.field name type) := .head _
    exact ⟨step type single c l _ inner, List.forall_mem_singleton.mpr ⟨c, l, _, refl c, inner, refl _⟩⟩
  | function name returnType args =>
    obtain ⟨ls, c₁, before, run⟩ := bind_ok.mp run
    obtain ⟨l, c₂, last, run⟩ := bind_ok.mp run
    cases run
    have turn : ∀ arg ∈ args, ∀ c l c', memberArgType translate arg c = .ok (l, c') → R c c' := by
      intro arg member c l c' run
      rw [memberArgType_eq] at run
      split at run
      · cases run
        exact refl c
      · exact step arg (.tail _ (List.mem_filter.mpr ⟨member, by simp [*]⟩)) c l c' run
    obtain ⟨middle, _, turns⟩ := mapM_turn refl trans turn before
    have after := step returnType (.head _) c₁ l _ last
    refine ⟨trans middle after, List.forall_mem_cons.mpr ⟨⟨c₁, l, _, middle, last, refl _⟩, ?_⟩⟩
    intro arg member
    obtain ⟨member, typed⟩ := List.mem_filter.mp member
    obtain ⟨i, found⟩ := List.getElem?_of_mem member
    obtain ⟨l, c₁, c₂, _, le, run, le'⟩ := turns i arg found
    rw [memberArgType_eq, if_neg (by simpa using typed)] at run
    exact ⟨c₁, l, c₂, le, run, trans le' after⟩

/-- Translating a slot keeps what translating the types in it keeps, and these have been translated. -/
theorem memberSlotType_ok {m : InterfaceMember AstType}
    (kept : ∀ u ∈ m.translated, ∀ c l c', I c → translate u c = .ok (l, c') → I c') (initial : I c)
    (run : memberSlotType translate m c = .ok (l, c')) :
    I c' ∧ ∀ u ∈ m.translated, ∃ c₁ l c₂, I c₁ ∧ translate u c₁ = .ok (l, c₂) := by
  obtain ⟨last, turns⟩ := memberSlotType_turn (R := fun c d => I c → I d) (fun _ => id) (fun first second => second ∘ first)
    (fun u inside c l c' run held => kept u inside c l c' held run) run
  refine ⟨last initial, fun u inside => ?_⟩
  obtain ⟨c₁, l, c₂, le, run, _⟩ := turns u inside
  exact ⟨c₁, l, c₂, le initial, run⟩

/-- The translation of a slot fails in one of the types in it. -/
theorem memberSlotType_error {m : InterfaceMember AstType} {e : CodegenError}
    (kept : ∀ u ∈ m.translated, ∀ c l c', I c → translate u c = .ok (l, c') → I c') (initial : I c)
    (run : memberSlotType translate m c = .error e) :
    ∃ u ∈ m.translated, ∃ c₁, I c₁ ∧ translate u c₁ = .error e := by
  cases m with
  | field name type =>
    obtain inner | ⟨_, _, _, run⟩ := bind_error.mp run
    · exact ⟨type, .head _, c, initial, inner⟩
    · cases run
  | function name returnType args =>
    have turn := memberArgs_kept fun arg member => kept arg (.tail _ member)
    obtain before | ⟨ls, c₁, before, run⟩ := bind_error.mp run
    · obtain ⟨arg, member, c₁, held, run⟩ := mapM_error turn initial before
      rw [memberArgType_eq] at run
      split at run
      · cases run
      · exact ⟨arg, .tail _ (List.mem_filter.mpr ⟨member, by simp [*]⟩), c₁, held, run⟩
    · obtain last | ⟨_, _, _, run⟩ := bind_error.mp run
      · exact ⟨returnType, .head _, c₁, (mapM_ok turn initial before).1, last⟩
      · cases run

theorem codegenTypeFloat_ok {width : Nat} (run : codegenTypeFloat width c = .ok (l, c')) :
    c' = c ∧ width ∈ [16, 32, 64, 128] := by
  unfold codegenTypeFloat at run
  split at run <;> cases run <;> exact ⟨rfl, by decide⟩

theorem codegenTypeFloat_error {width : Nat} {e : CodegenError} (run : codegenTypeFloat width c = .error e) :
    e ≠ .fuel ∧ width ∉ [16, 32, 64, 128] := by
  unfold codegenTypeFloat at run
  split at run <;> cases run
  exact ⟨nofun, by simp_all⟩

theorem codegenTypeNamed_eq (translate : AstType → Translate Llvm.Ty) (name : Name) (c : Context) :
    (∃ u, c.typeOf name = some u ∧ codegenTypeNamed translate name c = translate u c) ∨
      c.typeOf name = none ∧ ∃ message, codegenTypeNamed translate name c = .error (.derror none message) := by
  simp only [codegenTypeNamed, bind_apply, get_apply, Context.typeOf]
  cases c.findSymbol name with
  | none => exact .inr ⟨rfl, _, rfl⟩
  | some symbol =>
    obtain ⟨_, _, type, _⟩ := symbol
    cases type with
    | none => exact .inr ⟨rfl, _, rfl⟩
    | some u => exact .inl ⟨u, rfl, rfl⟩

/-- The references of a type are translated one after the other, and the members of an interface
come in last. -/
theorem codegenTypeKind_turn {R : Context → Context → Prop} (refl : ∀ c, R c c) (trans : ∀ {c d e}, R c d → R d e → R c e)
    {k : TypeKind AstType} {behind : Bool} (step : ∀ u, Follows c k u → ∀ c l c', translate u c = .ok (l, c') → R c c')
    (added : ∀ members interface c, k = .interfaceType members → R c (c.addMembers interface members))
    (run : codegenTypeKind translate behind k c = .ok (l, c')) :
    R c c' ∧ ¬Refused c k ∧ ∀ u, Follows c k u → ∃ c₁ l c₂, R c c₁ ∧ translate u c₁ = .ok (l, c₂) ∧
      R c₂ c' := by
  have follows {k : TypeKind AstType} {P : AstType → Prop} (named : ∀ n, k ≠ .namedType n)
      (parts : ∀ u ∈ k.translated, P u) : ∀ u, Follows c k u → P u := by
    intro u follow
    cases follow with
    | part member => exact parts u member
    | name => exact absurd rfl (named _)
  cases k with
  | noType | placeholderType => cases run
  | voidType | booleanType | integerType =>
    cases run
    exact ⟨refl c, id, follows nofun nofun⟩
  | floatType width =>
    obtain ⟨rfl, known⟩ := codegenTypeFloat_ok run
    exact ⟨refl _, fun refused => refused known, follows nofun nofun⟩
  | funcType returnType args =>
    obtain ⟨ls, c₁, before, run⟩ := bind_ok.mp run
    obtain ⟨l, c₂, last, run⟩ := bind_ok.mp run
    cases run
    obtain ⟨middle, _, turns⟩ := mapM_turn refl trans (fun arg member => step arg (.part (.tail _ member))) before
    have after := step returnType (.part (.head _)) c₁ l _ last
    refine ⟨trans middle after, id, follows nofun (List.forall_mem_cons.mpr ⟨⟨c₁, l, _, middle, last, refl _⟩, ?_⟩)⟩
    intro arg member
    obtain ⟨i, found⟩ := List.getElem?_of_mem member
    obtain ⟨l, c₁, c₂, _, le, run, le'⟩ := turns i arg found
    exact ⟨c₁, l, c₂, le, run, trans le' after⟩
  | namedType name =>
    obtain ⟨u, found, same⟩ | ⟨_, _, failed⟩ := codegenTypeNamed_eq translate name c
    · have run : translate u c = .ok (l, c') := same.symm.trans run
      refine ⟨step u (.name found) c l c' run, fun absent => ?_, fun u' follow => ?_⟩
      · cases found.symm.trans absent
      · cases follow with
        | part member => cases member
        | name found' =>
          cases found.symm.trans found'
          exact ⟨c, l, c', refl c, run, refl c'⟩
    · cases failed.symm.trans run
  | structType members =>
    obtain ⟨ls, c₁, turns, run⟩ := bind_ok.mp run
    cases run
    obtain ⟨last, _, turns⟩ := mapM_turn refl trans
      (fun m member => step m.type (.part (List.mem_map_of_mem (f := StructMember.type) member))) turns
    refine ⟨last, id, follows nofun fun u inside => ?_⟩
    obtain ⟨m, present, rfl⟩ := List.mem_map.mp inside
    obtain ⟨i, found⟩ := List.getElem?_of_mem present
    obtain ⟨l, c₁, c₂, _, le, run, le'⟩ := turns i m found
    exact ⟨c₁, l, c₂, le, run, le'⟩
  | arrayType type length =>
    obtain ⟨l, c₁, inner, run⟩ := bind_ok.mp run
    cases run
    exact ⟨step type (.part (.head _)) c l _ inner, id,
      follows nofun (List.forall_mem_singleton.mpr ⟨c, l, _, refl c, inner, refl _⟩)⟩
  | sliceType type =>
    obtain ⟨l, c₁, inner, run⟩ := bind_ok.mp run
    cases run
    exact ⟨step type (.part (.head _)) c l _ inner, id,
      follows nofun (List.forall_mem_singleton.mpr ⟨c, l, _, refl c, inner, refl _⟩)⟩
  | interfaceType members =>
    obtain ⟨table, c₁, slots, run⟩ := bind_ok.mp run
    obtain ⟨ls, c₂, slots, same⟩ := bind_ok.mp slots
    cases same
    cases run
    have slot (m) (present : m ∈ members) (c l c') (run : memberSlotType translate m c = .ok (l, c')) :=
      memberSlotType_turn refl trans (fun u inside => step u (.part (List.mem_flatMap.mpr ⟨m, present, inside⟩))) run
    obtain ⟨last, _, turns⟩ := mapM_turn refl trans (fun m present c l c' run => (slot m present c l c' run).1) slots
    have after := added members (if behind then none else some (.mk 0 (.interfaceType members))) c₁ rfl
    refine ⟨trans last after, id, follows nofun fun u inside => ?_⟩
    obtain ⟨m, present, inside⟩ := List.mem_flatMap.mp inside
    obtain ⟨i, found⟩ := List.getElem?_of_mem present
    obtain ⟨l, d₁, d₂, _, le, run, le'⟩ := turns i m found
    obtain ⟨c₁, l, c₂, le₁, run, le₂⟩ := (slot m present d₁ l d₂ run).2 u inside
    exact ⟨c₁, l, c₂, trans le le₁, run, trans le₂ (trans le' after)⟩

section Parts
variable {k : TypeKind AstType} {behind : Bool}
  (kept : ∀ u, Follows c k u → ∀ c₁ l c₂, I c₁ → translate u c₁ = .ok (l, c₂) → I c₂)
  (added : ∀ members interface c, k = .interfaceType members → I c → I (c.addMembers interface members))
include kept added

/-- A translation that succeeds keeps what translating its references keeps, and these have been
translated. -/
theorem codegenTypeKind_ok (initial : I c)
    (run : codegenTypeKind translate behind k c = .ok (l, c')) :
    I c' ∧ ¬Refused c k ∧ ∀ u, Follows c k u → ∃ c₁ l c₂, I c₁ ∧ translate u c₁ = .ok (l, c₂) := by
  obtain ⟨last, known, turns⟩ := codegenTypeKind_turn (R := fun c d => I c → I d) (fun _ => id)
    (fun first second => second ∘ first) (fun u follow c l c' run held => kept u follow c l c' held run) added run
  refine ⟨last initial, known, fun u follow => ?_⟩
  obtain ⟨c₁, l, c₂, le, run, _⟩ := turns u follow
  exact ⟨c₁, l, c₂, le initial, run⟩

/-- A translation fails in one of its references, or it is refused. -/
theorem codegenTypeKind_error {e : CodegenError} (initial : I c)
    (run : codegenTypeKind translate behind k c = .error e) :
    (∃ u, Follows c k u ∧ ∃ c₁, I c₁ ∧ translate u c₁ = .error e) ∨ e ≠ .fuel ∧ Refused c k := by
  cases k with
  | noType | placeholderType =>
    cases run
    exact .inr ⟨nofun, trivial⟩
  | voidType | booleanType | integerType => cases run
  | floatType width => exact .inr (codegenTypeFloat_error run)
  | funcType returnType args =>
    have turn := fun arg member => kept arg (.part (.tail _ member))
    obtain before | ⟨ls, c₁, before, run⟩ := bind_error.mp run
    · obtain ⟨arg, member, found⟩ := mapM_error turn initial before
      exact .inl ⟨arg, .part (.tail _ member), found⟩
    · obtain last | ⟨_, _, _, run⟩ := bind_error.mp run
      · exact .inl ⟨returnType, .part (.head _), c₁, (mapM_ok turn initial before).1, last⟩
      · cases run
  | namedType name =>
    obtain ⟨u, found, same⟩ | ⟨absent, _, failed⟩ := codegenTypeNamed_eq translate name c
    · exact .inl ⟨u, .name found, c, initial, same.symm.trans run⟩
    · cases failed.symm.trans run
      exact .inr ⟨nofun, absent⟩
  | structType members =>
    obtain turns | ⟨_, _, _, run⟩ := bind_error.mp run
    · obtain ⟨m, member, found⟩ := mapM_error
        (fun m member => kept m.type (.part (List.mem_map_of_mem (f := StructMember.type) member))) initial turns
      exact .inl ⟨m.type, .part (List.mem_map_of_mem (f := StructMember.type) member), found⟩
    · cases run
  | arrayType type length =>
    obtain inner | ⟨_, _, _, run⟩ := bind_error.mp run
    · exact .inl ⟨type, .part (.head _), c, initial, inner⟩
    · cases run
  | sliceType type =>
    obtain inner | ⟨_, _, _, run⟩ := bind_error.mp run
    · exact .inl ⟨type, .part (.head _), c, initial, inner⟩
    · cases run
  | interfaceType members =>
    have member {m u} (present : m ∈ members) (inside : u ∈ InterfaceMember.translated m) :
        u ∈ TypeKind.translated (.interfaceType members) := List.mem_flatMap.mpr ⟨m, present, inside⟩
    obtain slots | ⟨_, _, _, run⟩ := bind_error.mp run
    · obtain slots | ⟨_, _, _, run⟩ := bind_error.mp slots
      · obtain ⟨m, present, c₁, held, run⟩ := mapM_error
          (fun m present c l c' held run => (memberSlotType_ok (fun u inside => kept u (.part (member present inside)))
            held run).1) initial slots
        obtain ⟨u, inside, found⟩ := memberSlotType_error
          (fun u inside => kept u (.part (member present inside))) held run
        exact .inl ⟨u, .part (member present inside), found⟩
      · cases run
    · cases run

end Parts

end Kind

theorem codegenType_ok {fuel pointer : Nat} {kind : TypeKind AstType} {c c' : Context} {l : Llvm.Ty}
    (run : codegenType (fuel + 1) (.mk pointer kind) c = .ok (l, c')) :
    ∃ l', codegenTypeKind (codegenType fuel) (0 < pointer) kind c = .ok (l', c') ∧ l = l'.pointer pointer := by
  obtain ⟨l', c₁, inner, run⟩ := bind_ok.mp run
  cases run
  exact ⟨l', inner, rfl⟩

theorem codegenType_error {fuel pointer : Nat} {kind : TypeKind AstType} {c : Context} {e : CodegenError}
    (run : codegenType (fuel + 1) (.mk pointer kind) c = .error e) :
    codegenTypeKind (codegenType fuel) (0 < pointer) kind c = .error e := by
  obtain inner | ⟨_, _, _, run⟩ := bind_error.mp run
  · exact inner
  · cases run

/-! ### When it stops -/

/-- A later context knows no more types than an earlier one. -/
def NoMoreTypes (c c' : Context) : Prop := ∀ name type, c'.typeOf name = some type → c.typeOf name = some type

theorem codegenType_noMoreTypes {fuel : Nat} {type : AstType} {c c₁ c₂ : Context} {l : Llvm.Ty}
    (before : NoMoreTypes c c₁) (run : codegenType fuel type c₁ = .ok (l, c₂)) : NoMoreTypes c c₂ := by
  induction fuel generalizing type c₁ c₂ l with
  | zero => cases run
  | succ fuel ih =>
    obtain ⟨pointer, kind⟩ := type
    obtain ⟨l', run, _⟩ := codegenType_ok run
    exact (codegenTypeKind_ok (I := NoMoreTypes c) (fun u _ c₁ l c₂ held run => ih held run)
      (fun members interface c₁ _ held name type found => held name type (typeOf_addMembers found)) before run).1

theorem Follows.mono {c c' : Context} {kind : TypeKind AstType} {type : AstType} (le : NoMoreTypes c c')
    (follows : Follows c' kind type) : Follows c kind type := by
  cases follows with
  | part member => exact .part member
  | name found => exact .name (le _ _ found)

/-- A translation that is cut off is cut off in a type that it refers to. -/
theorem codegenType_cut {fuel : Nat} {type : AstType} {c c₁ : Context} (le : NoMoreTypes c c₁)
    (cut : codegenType (fuel + 1) type c₁ = .error .fuel) :
    ∃ u, Refers c u type ∧ ∃ c₂, NoMoreTypes c c₂ ∧ codegenType fuel u c₂ = .error .fuel := by
  obtain ⟨pointer, kind⟩ := type
  obtain ⟨u, follows, c₂, le', cut⟩ | ⟨absurd, _⟩ := codegenTypeKind_error (I := NoMoreTypes c)
    (fun u _ c₁ l c₂ held run => codegenType_noMoreTypes held run)
    (fun members interface c₁ _ held name type found => held name type (typeOf_addMembers found)) le
    (codegenType_error cut)
  · exact ⟨u, follows.mono le, c₂, le', cut⟩
  · contradiction

def references (context : Context) : TypeKind AstType → List AstType
  | .namedType name => (context.typeOf name).toList
  | kind => kind.translated

theorem mem_references {context : Context} {kind : TypeKind AstType} {type : AstType}
    (follows : Follows context kind type) : type ∈ references context kind := by
  cases follows with
  | part member =>
    cases kind with
    | namedType => cases member
    | _ => exact member
  | name found => simpa [references] using found

theorem exists_bound {α : Type} {P : Nat → α → Prop} {xs : List α}
    (each : ∀ x ∈ xs, ∃ bound, ∀ n ≥ bound, P n x) :
    ∃ bound, ∀ n ≥ bound, ∀ x ∈ xs, P n x := by
  induction xs with
  | nil => exact ⟨0, fun _ _ _ member => absurd member List.not_mem_nil⟩
  | cons x xs ih =>
    obtain ⟨m, first⟩ := each x (.head _)
    obtain ⟨n, rest⟩ := ih fun x member => each x (.tail _ member)
    refine ⟨max m n, fun k le => List.forall_mem_cons.mpr ⟨first k ?_, rest k ?_⟩⟩ <;> omega

theorem codegenType_stops {context : Context} {type : AstType} (ends : Acc (Refers context) type) :
    ∃ bound, ∀ fuel ≥ bound, ∀ c, NoMoreTypes context c → Stops (codegenType fuel type c) := by
  induction ends with
  | intro type _ ih =>
    have each : ∀ u ∈ references context type.kind, ∃ bound, ∀ fuel ≥ bound, Refers context u type →
        ∀ c, NoMoreTypes context c → Stops (codegenType fuel u c) := by
      intro u _
      by_cases refers : Refers context u type
      · obtain ⟨bound, stops⟩ := ih u refers
        exact ⟨bound, fun fuel le _ => stops fuel le⟩
      · exact ⟨0, fun _ _ refers' => absurd refers' refers⟩
    obtain ⟨bound, below⟩ := exists_bound each
    refine ⟨bound + 1, fun fuel le c known cut => ?_⟩
    obtain ⟨fuel, rfl⟩ : ∃ n, fuel = n + 1 := ⟨fuel - 1, by omega⟩
    obtain ⟨u, refers, c', known', cut⟩ := codegenType_cut known cut
    exact below _ (by omega) u (mem_references refers) refers c' known' cut

theorem resolveTypeName_stops {context : Context} {type : AstType} (ends : Acc (Refers context) type) :
    ∃ fuel, Stops (resolveTypeName context fuel type) := by
  induction ends with
  | intro type _ ih =>
    obtain ⟨pointer, kind⟩ := type
    by_cases named : ∃ name, pointer = 0 ∧ kind = .namedType name
    · obtain ⟨name, rfl, rfl⟩ := named
      cases found : context.findSymbol name with
      | none => exact ⟨1, by simp [Stops, resolveTypeName, found, throw, throwThe, MonadExceptOf.throw]⟩
      | some symbol =>
        cases type : symbol.type with
        | none => exact ⟨1, by simp [Stops, resolveTypeName, found, type, throw, throwThe, MonadExceptOf.throw]⟩
        | some u =>
          obtain ⟨fuel, stops⟩ := ih u (.name (by simp [Context.typeOf, found, type]))
          exact ⟨fuel + 1, by simpa [Stops, resolveTypeName, found, type] using stops⟩
    · refine ⟨1, ?_⟩
      rw [resolveTypeName]
      · exact nofun
      · intro name same
        cases same
        exact named ⟨name, rfl, rfl⟩

/-! ### When it does not -/

/-- A set of types over declared names: each name in them is that of a type, none of them is refused, and no
member of their interfaces takes the name of a type. -/
structure DeclaredTypes (context : Context) (types : AstType → Prop) : Prop where
  accepted : ∀ type, types type → ¬Refused context type.kind
  closed : ∀ type u, types type → Refers context u type → types u
  apart : ∀ pointer members pointer' name, types (.mk pointer (.interfaceType members)) →
    types (.mk pointer' (.namedType name)) → name ∉ members.map InterfaceMember.name

/-- The names in the types mean in a later context what they mean in an earlier one. -/
def SameTypes (types : AstType → Prop) (context c : Context) : Prop :=
  ∀ pointer name, types (.mk pointer (.namedType name)) → c.typeOf name = context.typeOf name

section Declared
variable {context : Context} {types : AstType → Prop}

theorem Follows.same {c : Context} {pointer : Nat} {kind : TypeKind AstType} {u : AstType}
    (same : SameTypes types context c) (member : types (.mk pointer kind)) (follows : Follows c kind u) :
    Follows context kind u := by
  cases follows with
  | part inside => exact .part inside
  | name found => exact .name ((same pointer _ member).symm.trans found)

/-- A translation of declared types is never refused, and one that ends has seen the end of every chain. -/
theorem codegenType_declared (declared : DeclaredTypes context types) (fuel : Nat) {type : AstType} {c : Context}
    (member : types type) (same : SameTypes types context c) :
    (∀ l c', codegenType fuel type c = .ok (l, c') → SameTypes types context c' ∧ Acc (Refers context) type) ∧
      ∀ e, codegenType fuel type c = .error e → e = .fuel := by
  induction fuel generalizing type c with
  | zero =>
    refine ⟨nofun, fun e failed => ?_⟩
    cases failed
    rfl
  | succ fuel ih =>
    obtain ⟨pointer, kind⟩ := type
    have below (u : AstType) (follows : Follows c kind u) : types u :=
      declared.closed _ u member (follows.same same member)
    have kept (u : AstType) (follows : Follows c kind u) (c₁ : Context) (l : Llvm.Ty) (c₂ : Context)
        (held : SameTypes types context c₁) (run : codegenType fuel u c₁ = .ok (l, c₂)) : SameTypes types context c₂ :=
      ((ih (below u follows) held).1 l c₂ run).1
    have added (members : List (InterfaceMember AstType)) (interface : Option AstType) (c₁ : Context)
        (isInterface : kind = .interfaceType members) (held : SameTypes types context c₁) :
        SameTypes types context (c₁.addMembers interface members) := by
      intro pointer' name named
      subst isInterface
      rw [typeOf_addMembers_other (declared.apart _ _ _ _ member named), held pointer' name named]
    constructor
    · intro l c' run
      obtain ⟨l', run, _⟩ := codegenType_ok run
      obtain ⟨last, _, turns⟩ := codegenTypeKind_ok kept added same run
      refine ⟨last, .intro _ fun u refers => ?_⟩
      have follows : Follows c kind u := by
        cases refers with
        | part inside => exact .part inside
        | name found => exact .name ((same pointer _ member).trans found)
      obtain ⟨c₁, l, c₂, held, run⟩ := turns u follows
      exact ((ih (below u follows) held).1 l c₂ run).2
    · intro e failed
      obtain ⟨u, follows, c₁, held, failed⟩ | ⟨_, refused⟩ := codegenTypeKind_error kept added same (codegenType_error failed)
      · exact (ih (below u follows) held).2 e failed
      · refine absurd refused fun refused => declared.accepted _ member ?_
        cases kind with
        | namedType name => exact (same pointer name member).symm.trans refused
        | _ => exact refused

end Declared

/-- `codegen_type` and `resolve_type_name` both stop on a type. -/
def TranslationStops (context : Context) (type : AstType) : Prop :=
  (∃ fuel, Stops (codegenType fuel type context)) ∧ ∃ fuel, Stops (resolveTypeName context fuel type)

/-- They stop on every type from which all chains of references end. Over declared names they stop
on no other. -/
theorem translation_stops (context : Context) :
    (∀ type, Acc (Refers context) type → TranslationStops context type) ∧
      ∀ types, DeclaredTypes context types → ∀ type, types type →
        (TranslationStops context type ↔ Acc (Refers context) type) := by
  have sufficient (type : AstType) (ends : Acc (Refers context) type) : TranslationStops context type := by
    obtain ⟨bound, stops⟩ := codegenType_stops ends
    exact ⟨⟨bound, stops bound (Nat.le_refl _) context fun _ _ => id⟩, resolveTypeName_stops ends⟩
  refine ⟨sufficient, fun types declared type member => ⟨fun stops => ?_, sufficient type⟩⟩
  obtain ⟨⟨fuel, stops⟩, _⟩ := stops
  have either := codegenType_declared declared fuel member fun _ _ _ => rfl
  cases run : codegenType fuel type context with
  | ok result => exact (either.1 _ _ run).2
  | error e => exact absurd (run.trans (congrArg _ (either.2 e run))) stops

def typeSymbol (name : Name) (type : AstType) : CodegenSymbol :=
  ⟨.INVALID, some name, some type, none, none, none, 0, true⟩

/-- `type N struct { next *N }`. -/
def nodeContext : Context := ⟨[typeSymbol [78] (.mk 0 (.structType [⟨[110], .mk 1 (.namedType [78])⟩]))], []⟩

/-- `type A B; type B A`. -/
def aliasContext : Context :=
  ⟨[typeSymbol [65] (.mk 0 (.namedType [66])), typeSymbol [66] (.mk 0 (.namedType [65]))], []⟩

theorem codegenType_node (fuel pointer : Nat) :
    codegenType fuel (.mk pointer (.namedType [78])) nodeContext = .error .fuel := by
  induction fuel using Nat.strongRecOn generalizing pointer with
  | ind fuel ih =>
    match fuel with
    | 0 | 1 => rfl
    | fuel + 2 =>
      have next := ih fuel (by omega) 1
      have struct : codegenType (fuel + 1) (.mk 0 (.structType [⟨[110], .mk 1 (.namedType [78])⟩])) nodeContext =
          .error .fuel := by
        refine bind_error.mpr (.inl (bind_error.mpr (.inl ?_)))
        rw [List.mapM_cons]
        exact bind_error.mpr (.inl next)
      exact bind_error.mpr (.inl struct)

theorem codegenType_alias (fuel : Nat) :
    codegenType fuel (.mk 0 (.namedType [65])) aliasContext = .error .fuel ∧
      codegenType fuel (.mk 0 (.namedType [66])) aliasContext = .error .fuel := by
  induction fuel with
  | zero => exact ⟨rfl, rfl⟩
  | succ fuel ih => exact ⟨bind_error.mpr (.inl ih.2), bind_error.mpr (.inl ih.1)⟩

theorem resolveTypeName_alias (fuel : Nat) :
    resolveTypeName aliasContext fuel (.mk 0 (.namedType [65])) = .error .fuel ∧
      resolveTypeName aliasContext fuel (.mk 0 (.namedType [66])) = .error .fuel := by
  induction fuel with
  | zero => exact ⟨rfl, rfl⟩
  | succ fuel ih => exact ⟨ih.2, ih.1⟩

/-- A struct with a pointer to itself is translated forever. A cycle of aliases is followed forever by both
functions, without an error. -/
theorem recursive_types_never_stop :
    (∀ fuel, codegenType fuel (.mk 0 (.namedType [78])) nodeContext = .error .fuel) ∧
      (∀ fuel, codegenType fuel (.mk 0 (.namedType [65])) aliasContext = .error .fuel) ∧
      (∀ fuel, resolveTypeName aliasContext fuel (.mk 0 (.namedType [65])) = .error .fuel) ∧
      ¬TranslationStops nodeContext (.mk 0 (.namedType [78])) := by
  refine ⟨fun fuel => codegenType_node fuel 0, fun fuel => (codegenType_alias fuel).1,
    fun fuel => (resolveTypeName_alias fuel).1, fun stops => ?_⟩
  obtain ⟨⟨fuel, stops⟩, _⟩ := stops
  exact stops (codegenType_node fuel 0)

/-- `type P struct { x int32 }`. -/
def pairType : AstType := .mk 0 (.structType [⟨[120], .mk 0 (.integerType 32)⟩])

/-- `type L struct { p *P; s []P }`. -/
def listType : AstType :=
  .mk 0 (.structType [⟨[112], .mk 1 (.namedType [80])⟩, ⟨[115], .mk 0 (.sliceType (.mk 0 (.namedType [80])))⟩])

def listContext : Context := ⟨[typeSymbol [76] listType, typeSymbol [80] pairType], []⟩

def listTypes : List AstType :=
  [.mk 0 (.namedType [76]), listType, .mk 1 (.namedType [80]), .mk 0 (.sliceType (.mk 0 (.namedType [80]))),
    .mk 0 (.namedType [80]), pairType, .mk 0 (.integerType 32)]

theorem mem_listTypes {type : AstType} (member : type ∈ listTypes) :
    type = .mk 0 (.integerType 32) ∨ type = pairType ∨ type = listType ∨ (∃ pointer, type = .mk pointer (.namedType [80])) ∨
      type = .mk 0 (.sliceType (.mk 0 (.namedType [80]))) ∨ type = .mk 0 (.namedType [76]) := by
  simp only [listTypes, List.mem_cons, List.not_mem_nil, or_false] at member
  obtain rfl | rfl | rfl | rfl | rfl | rfl | rfl := member <;> simp

theorem listTypes_declared : DeclaredTypes listContext (· ∈ listTypes) where
  accepted := by
    intro type member refused
    obtain rfl | rfl | rfl | ⟨pointer, rfl⟩ | rfl | rfl := mem_listTypes member <;> cases refused
  closed := by
    intro type u member refers
    have inside := mem_references refers
    obtain rfl | rfl | rfl | ⟨pointer, rfl⟩ | rfl | rfl := mem_listTypes member
    · cases inside
    · obtain rfl := List.mem_singleton.mp inside
      simp [listTypes]
    · obtain rfl | inside := List.mem_cons.mp inside
      · simp [listTypes]
      · obtain rfl := List.mem_singleton.mp inside
        simp [listTypes]
    · obtain rfl := List.mem_singleton.mp inside
      simp [listTypes]
    · obtain rfl := List.mem_singleton.mp inside
      simp [listTypes]
    · obtain rfl := List.mem_singleton.mp inside
      simp [listTypes]
  apart := by
    intro pointer members pointer' name member
    obtain same | same | same | ⟨_, same⟩ | same | same := mem_listTypes member <;> cases same

/-- A struct of pointers and slices of another struct. -/
theorem translation_stops_list : TranslationStops listContext (.mk 0 (.namedType [76])) := by
  have ends (type : AstType) (all : ∀ u ∈ references listContext type.kind, Acc (Refers listContext) u) :
      Acc (Refers listContext) type := .intro _ fun u refers => all u (mem_references refers)
  have int : Acc (Refers listContext) (.mk 0 (.integerType 32)) := ends _ nofun
  have pair : Acc (Refers listContext) pairType := ends _ fun u member => List.mem_singleton.mp member ▸ int
  have named (pointer : Nat) : Acc (Refers listContext) (.mk pointer (.namedType [80])) :=
    ends _ fun u member => List.mem_singleton.mp member ▸ pair
  have slice : Acc (Refers listContext) (.mk 0 (.sliceType (.mk 0 (.namedType [80])))) :=
    ends _ fun u member => List.mem_singleton.mp member ▸ named 0
  have list : Acc (Refers listContext) listType := by
    refine ends _ fun u member => ?_
    obtain rfl | member := List.mem_cons.mp member
    · exact named 1
    · exact List.mem_singleton.mp member ▸ slice
  have whole : Acc (Refers listContext) (.mk 0 (.namedType [76])) := ends _ fun u member => List.mem_singleton.mp member ▸ list
  exact ((translation_stops listContext).2 _ listTypes_declared _ (.head _)).mpr whole

end Low
