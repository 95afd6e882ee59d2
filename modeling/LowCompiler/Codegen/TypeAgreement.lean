import LowCompiler.Codegen.TypeTermination

/-!
# A type has one translation

Contexts that know the same types, or fewer, translate a type alike where they translate
it at all. The fuel does not matter, and neither does a name that was resolved before.
-/

namespace Low

open Stateful
open Llvm (Ty)

section Kind
variable {translate translate' : AstType → Translate Ty} {I : Context → Prop} {c c' d d' : Context} {l l' : Ty}
  (kept : ∀ u c l c', I c → translate u c = .ok (l, c') → I c')
  (kept' : ∀ u c l c', I c → translate' u c = .ok (l, c') → I c')
  (agree : ∀ u c l c' d l' d', I c → I d → translate u c = .ok (l, c') → translate' u d = .ok (l', d') → l = l')
include kept kept' agree

omit kept kept' in
theorem memberArgType_agree {arg : AstType} (initial : I c) (initial' : I d)
    (run : memberArgType translate arg c = .ok (l, c')) (run' : memberArgType translate' arg d = .ok (l', d')) :
    l = l' := by
  obtain ⟨pointer, kind⟩ := arg
  cases kind with
  | placeholderType =>
    cases run
    cases run'
    rfl
  | _ => exact agree _ c l c' d l' d' initial initial' run run'

omit kept' agree in
theorem memberArgType_kept (arg : AstType) (c : Context) (l : Ty) (c' : Context) (held : I c)
    (run : memberArgType translate arg c = .ok (l, c')) : I c' := by
  rw [memberArgType_eq] at run
  split at run
  · cases run
    exact held
  · exact kept arg c l c' held run

theorem memberSlotType_agree {m : InterfaceMember AstType} (initial : I c) (initial' : I d)
    (run : memberSlotType translate m c = .ok (l, c')) (run' : memberSlotType translate' m d = .ok (l', d')) :
    l = l' := by
  cases m with
  | field name type =>
    obtain ⟨l, c₁, inner, run⟩ := bind_ok.mp run
    obtain ⟨l', d₁, inner', run'⟩ := bind_ok.mp run'
    cases run
    cases run'
    rw [agree type _ _ _ _ _ _ initial initial' inner inner']
  | function name returnType args =>
    obtain ⟨ls, c₁, before, run⟩ := bind_ok.mp run
    obtain ⟨l, c₂, last, run⟩ := bind_ok.mp run
    obtain ⟨ls', d₁, before', run'⟩ := bind_ok.mp run'
    obtain ⟨l', d₂, last', run'⟩ := bind_ok.mp run'
    cases run
    cases run'
    have turn := fun arg (_ : arg ∈ args) => memberArgType_kept kept arg
    have turn' := fun arg (_ : arg ∈ args) => memberArgType_kept kept' arg
    have args := mapM_agree turn turn'
      (fun arg _ s t y z s' t' held held' => memberArgType_agree agree held held') initial initial'
      before before'
    have result := agree returnType _ _ _ _ _ _ (mapM_ok turn initial before).1 (mapM_ok turn' initial' before').1
      last last'
    rw [args, result]

omit kept' agree in
theorem memberSlotType_kept (m : InterfaceMember AstType) (c : Context) (l : Ty) (c' : Context) (held : I c)
    (run : memberSlotType translate m c = .ok (l, c')) : I c' :=
  (memberSlotType_ok (fun u _ => kept u) held run).1

theorem codegenTypeKind_agree {k : TypeKind AstType} {behind behind' : Bool}
    (known : ∀ c d name u v, I c → I d → c.typeOf name = some u → d.typeOf name = some v → u = v)
    (initial : I c) (initial' : I d) (run : codegenTypeKind translate behind k c = .ok (l, c'))
    (run' : codegenTypeKind translate' behind' k d = .ok (l', d')) : l = l' := by
  cases k with
  | noType | placeholderType => cases run
  | voidType | booleanType | integerType =>
    cases run
    cases run'
    rfl
  | floatType width =>
    simp only [codegenTypeKind, codegenTypeFloat] at run run'
    split at run <;> cases run <;> cases run' <;> rfl
  | funcType returnType args =>
    obtain ⟨ls, c₁, before, run⟩ := bind_ok.mp run
    obtain ⟨l, c₂, last, run⟩ := bind_ok.mp run
    obtain ⟨ls', d₁, before', run'⟩ := bind_ok.mp run'
    obtain ⟨l', d₂, last', run'⟩ := bind_ok.mp run'
    cases run
    cases run'
    have same := mapM_agree (fun u _ => kept u) (fun u _ => kept' u) (fun u _ c d l l' c' d' => agree u c l c' d l' d')
      initial initial' before before'
    have result := agree returnType _ _ _ _ _ _ (mapM_ok (fun u _ => kept u) initial before).1
      (mapM_ok (fun u _ => kept' u) initial' before').1 last last'
    rw [same, result]
  | namedType name =>
    obtain ⟨u, found, same⟩ | ⟨_, _, failed⟩ := codegenTypeNamed_eq translate name c
    · obtain ⟨v, found', same'⟩ | ⟨_, _, failed⟩ := codegenTypeNamed_eq translate' name d
      · obtain rfl := known c d name u v initial initial' found found'
        exact agree u c l c' d l' d' initial initial' (same.symm.trans run) (same'.symm.trans run')
      · cases failed.symm.trans run'
    · cases failed.symm.trans run
  | structType members =>
    obtain ⟨ls, c₁, turns, run⟩ := bind_ok.mp run
    obtain ⟨ls', d₁, turns', run'⟩ := bind_ok.mp run'
    cases run
    cases run'
    rw [mapM_agree (fun m _ => kept m.type) (fun m _ => kept' m.type)
      (fun m _ c d l l' c' d' => agree m.type c l c' d l' d') initial initial' turns turns']
  | arrayType type length =>
    obtain ⟨l, c₁, inner, run⟩ := bind_ok.mp run
    obtain ⟨l', d₁, inner', run'⟩ := bind_ok.mp run'
    cases run
    cases run'
    rw [agree type _ _ _ _ _ _ initial initial' inner inner']
  | sliceType type =>
    obtain ⟨l, c₁, inner, run⟩ := bind_ok.mp run
    obtain ⟨l', d₁, inner', run'⟩ := bind_ok.mp run'
    cases run
    cases run'
    rw [agree type _ _ _ _ _ _ initial initial' inner inner']
  | interfaceType members =>
    obtain ⟨table, c₁, slots, run⟩ := bind_ok.mp run
    obtain ⟨ls, c₂, slots, same⟩ := bind_ok.mp slots
    obtain ⟨table', d₁, slots', run'⟩ := bind_ok.mp run'
    obtain ⟨ls', d₂, slots', same'⟩ := bind_ok.mp slots'
    cases same
    cases same'
    cases run
    cases run'
    rw [mapM_agree (fun m _ => memberSlotType_kept kept m) (fun m _ => memberSlotType_kept kept' m)
      (fun m _ c d l l' c' d' held held' => memberSlotType_agree kept kept' agree held held') initial initial'
      slots slots']

end Kind

theorem NoMoreTypes.agree {c c₁ c₂ : Context} (le : NoMoreTypes c c₁) (le' : NoMoreTypes c c₂) {name : Name}
    {u v : AstType} (found : c₁.typeOf name = some u) (found' : c₂.typeOf name = some v) : u = v :=
  Option.some.inj ((le name u found).symm.trans (le' name v found'))

theorem codegenType_agree {c c₁ c₂ d₁ d₂ : Context} (le : NoMoreTypes c c₁) (le' : NoMoreTypes c c₂)
    {fuel fuel' : Nat} {type : AstType} {l l' : Ty} (run : codegenType fuel type c₁ = .ok (l, d₁))
    (run' : codegenType fuel' type c₂ = .ok (l', d₂)) : l = l' := by
  induction fuel generalizing fuel' type c₁ c₂ d₁ d₂ l l' with
  | zero => cases run
  | succ fuel ih =>
    cases fuel' with
    | zero => cases run'
    | succ fuel' =>
      obtain ⟨pointer, kind⟩ := type
      obtain ⟨l, inner, rfl⟩ := codegenType_ok run
      obtain ⟨l', inner', rfl⟩ := codegenType_ok run'
      have same : l = l' := codegenTypeKind_agree (I := NoMoreTypes c)
        (fun u c l c' held (run : codegenType fuel u c = .ok (l, c')) => codegenType_noMoreTypes held run)
        (fun u c l c' held (run : codegenType fuel' u c = .ok (l, c')) => codegenType_noMoreTypes held run)
        (fun u c l c' d l' d' held held' run run' => ih held held' run run')
        (fun c d name u v held held' => held.agree held') le le' inner inner'
      rw [same]

theorem resolveTypeName_other {c : Context} {fuel pointer : Nat} {kind : TypeKind AstType}
    (other : ∀ name, kind ≠ .namedType name) :
    resolveTypeName c (fuel + 1) (.mk pointer kind) = .ok (.mk pointer kind) := by
  rw [resolveTypeName]
  · rfl
  · intro name same
    cases same
    exact other name rfl

theorem resolveTypeName_named {c : Context} {fuel : Nat} {name : Name} {u : AstType}
    (resolved : resolveTypeName c (fuel + 1) (.mk 0 (.namedType name)) = .ok u) :
    ∃ v, c.typeOf name = some v ∧ resolveTypeName c fuel v = .ok u := by
  cases found : c.findSymbol name with
  | none => simp [resolveTypeName, found, throw, throwThe, MonadExceptOf.throw] at resolved
  | some symbol =>
    cases type : symbol.type with
    | none => simp [resolveTypeName, found, type, throw, throwThe, MonadExceptOf.throw] at resolved
    | some v =>
      refine ⟨v, by simp [Context.typeOf, found, type], ?_⟩
      simpa [resolveTypeName, found, type] using resolved

theorem resolveTypeName_agree {c c₁ c₂ : Context} (le : NoMoreTypes c c₁) (le' : NoMoreTypes c c₂)
    {fuel fuel' : Nat} {type u v : AstType} (run : resolveTypeName c₁ fuel type = .ok u)
    (run' : resolveTypeName c₂ fuel' type = .ok v) : u = v := by
  induction fuel generalizing fuel' type with
  | zero => simp [resolveTypeName, throw, throwThe, MonadExceptOf.throw] at run
  | succ fuel ih =>
    cases fuel' with
    | zero => simp [resolveTypeName, throw, throwThe, MonadExceptOf.throw] at run'
    | succ fuel' =>
      by_cases named : ∃ name, type = .mk 0 (.namedType name)
      · obtain ⟨name, rfl⟩ := named
        obtain ⟨t, found, run⟩ := resolveTypeName_named run
        obtain ⟨t', found', run'⟩ := resolveTypeName_named run'
        obtain rfl := le.agree le' found found'
        exact ih run run'
      · have other (name : Name) : type ≠ .mk 0 (.namedType name) := fun same => named ⟨name, same⟩
        rw [resolveTypeName] at run run'
        · exact Except.ok.inj (run.symm.trans run')
        · exact other
        · exact other

/-- A name is translated as the type that it resolves to. -/
theorem codegenType_resolved {c c₁ c₂ : Context} (le : NoMoreTypes c c₁) {fuel fuel' : Nat} {type u : AstType} {l : Ty}
    (resolved : resolveTypeName c fuel type = .ok u) (run : codegenType fuel' type c₁ = .ok (l, c₂)) :
    ∃ fuel, codegenType fuel u c₁ = .ok (l, c₂) := by
  induction fuel generalizing fuel' type with
  | zero => cases resolved
  | succ fuel ih =>
    by_cases named : ∃ name, type = .mk 0 (.namedType name)
    · obtain ⟨name, rfl⟩ := named
      cases fuel' with
      | zero => cases run
      | succ fuel' =>
        obtain ⟨l, inner, rfl⟩ := codegenType_ok run
        obtain ⟨v, found, same⟩ | ⟨_, _, failed⟩ := codegenTypeNamed_eq (codegenType fuel') name c₁
        · have here := le name v found
          refine ih ?_ (same.symm.trans inner)
          obtain ⟨u', found', resolved⟩ := resolveTypeName_named resolved
          cases here.symm.trans found'
          exact resolved
        · cases failed.symm.trans inner
    · rw [resolveTypeName] at resolved
      · cases resolved
        exact ⟨fuel', run⟩
      · rintro name rfl
        exact named ⟨name, rfl⟩

end Low
