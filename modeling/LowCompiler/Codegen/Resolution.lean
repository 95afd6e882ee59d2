import LowCompiler.Codegen.Scopes

/-!
# Names after the translation of a type

A translated interface leaves its members in the innermost scope, whatever they are and
wherever it was found. A name that has a symbol there keeps it. Any other name of a
member stands for the member from then on, also where a scope outside declares it.
-/

namespace Low

open Stateful

/-- An interface is translated along with a type, and has a member of the name. -/
inductive Brings (context : Context) (name : Name) : AstType → Prop where
  | here {pointer : Nat} {members : List (InterfaceMember AstType)} {m : InterfaceMember AstType} :
    m ∈ members → m.name = name → Brings context name (.mk pointer (.interfaceType members))
  | through {type u : AstType} : Refers context u type → Brings context name u → Brings context name type

section Translations
variable {name : Name} {fuel : Nat} {type : AstType} {c₀ c c' : Context} {l : Llvm.Ty}

theorem Lacks.append {symbols added : List CodegenSymbol} (first : Lacks name symbols)
    (rest : Lacks name added) :
    Lacks name (symbols ++ added) := List.forall_mem_append.mpr ⟨first, rest⟩

theorem Context.Extends.has (grows : c.Extends c') (has : ¬Lacks name c.symbols) : ¬Lacks name c'.symbols := by
  obtain ⟨added, same, _⟩ := grows.symbols
  rw [same]
  exact fun lacks => has (List.forall_mem_append.mp lacks).1

theorem lacks_memberSymbols {interface : Option AstType} {members : List (InterfaceMember AstType)} :
    Lacks name (memberSymbols interface members) ↔ ∀ m ∈ members, m.name ≠ name := by
  constructor
  · intro lacks m present same
    obtain ⟨i, inside, rfl⟩ := List.mem_iff_getElem.mp present
    refine lacks (memberSymbol interface members[i].name i) ?_ (congrArg some same)
    exact List.mem_iff_getElem.mpr ⟨i, by simpa [memberSymbols] using inside, by simp [memberSymbols]⟩
  · intro other symbol member named
    obtain ⟨_, m, present, same⟩ := mem_memberSymbols member
    exact other m present (Option.some.inj (same.symm.trans named))

/-- A name that no interface brings does not come in. -/
theorem codegenType_lacks (le : NoMoreTypes c₀ c) (run : codegenType fuel type c = .ok (l, c'))
    (foreign : ¬Brings c₀ name type) (lacks : Lacks name c.symbols) : Lacks name c'.symbols := by
  induction fuel generalizing type c c' l with
  | zero => cases run
  | succ fuel ih =>
    obtain ⟨pointer, kind⟩ := type
    obtain ⟨l', run, _⟩ := codegenType_ok run
    have kept (u : AstType) (follow : Follows c kind u) (c₁ : Context) (l : Llvm.Ty) (c₂ : Context)
        (held : NoMoreTypes c₀ c₁ ∧ Lacks name c₁.symbols) (run : codegenType fuel u c₁ = .ok (l, c₂)) :
        NoMoreTypes c₀ c₂ ∧ Lacks name c₂.symbols :=
      ⟨codegenType_noMoreTypes held.1 run, ih held.1 run (fun brings => foreign (.through (follow.mono le) brings)) held.2⟩
    have added (members : List (InterfaceMember AstType)) (interface : Option AstType) (c₁ : Context)
        (is : kind = .interfaceType members) (held : NoMoreTypes c₀ c₁ ∧ Lacks name c₁.symbols) :
        NoMoreTypes c₀ (c₁.addMembers interface members) ∧ Lacks name (c₁.addMembers interface members).symbols := by
      subst is
      refine ⟨fun n t found => held.1 n t (typeOf_addMembers found), held.2.append (lacks_memberSymbols.mpr ?_)⟩
      exact fun m present same => foreign (.here present same)
    exact (codegenTypeKind_ok kept added ⟨le, lacks⟩ run).1.2

/-- The members of an interface come in last. -/
theorem codegenTypeInterface_ok {translate : AstType → Translate Llvm.Ty} {interface : Option AstType}
    {members : List (InterfaceMember AstType)}
    (run : codegenTypeInterface translate interface members c = .ok (l, c')) :
    ∃ c₁ : Context, c' = c₁.addMembers interface members := by
  obtain ⟨table, c₁, _, run⟩ := bind_ok.mp run
  cases run
  exact ⟨c₁, rfl⟩

/-- What a type leads to does not change, unless a name on the way is not known any more. -/
theorem NoMoreTypes.follows (le : NoMoreTypes c₀ c) {kind : TypeKind AstType} {u : AstType} (known : ¬Refused c kind)
    (follow : Follows c₀ kind u) : Follows c kind u := by
  cases follow with
  | part member => exact .part member
  | @name n _ found =>
    obtain ⟨u', found'⟩ := Option.ne_none_iff_exists'.mp known
    cases found.symm.trans (le n u' found')
    exact .name found'

/-- A name that an interface brings is there afterwards. -/
theorem codegenType_has (le : NoMoreTypes c₀ c) (run : codegenType fuel type c = .ok (l, c'))
    (brings : Brings c₀ name type) :
    ¬Lacks name c'.symbols := by
  induction fuel generalizing type c c' l with
  | zero => cases run
  | succ fuel ih =>
    obtain ⟨pointer, kind⟩ := type
    obtain ⟨l', run, _⟩ := codegenType_ok run
    obtain ⟨_, known, turns⟩ := codegenTypeKind_turn (R := Context.Extends) .refl .trans
      (fun u _ c l c' run => codegenType_extends (.refl c) run) (fun members interface c _ => .addMembers c interface members) run
    cases brings with
    | here present same =>
      obtain ⟨c₁, rfl⟩ := codegenTypeInterface_ok run
      exact fun lacks => lacks_memberSymbols.mp (List.forall_mem_append.mp lacks).2 _ present same
    | @through _ u follow brings =>
      obtain ⟨c₁, l, c₂, before, run, after⟩ := turns u (le.follows known follow)
      exact after.has (ih (fun n t found => le n t (before.noMoreTypes n t found)) run brings)

end Translations

/-! ### Names -/

section Names
variable {name : Name} {fuel : Nat} {type : AstType} {c c' : Context} {l : Llvm.Ty}

/-- The same symbol is found, at the same place. -/
def ResolvedAlike (name : Name) (c c' : Context) : Prop :=
  symbolPlace name c'.scopes = symbolPlace name c.scopes ∧ c'.findSymbol name = c.findSymbol name

theorem symbolPlace_depth {scopes : List (List CodegenSymbol)} {depth i : Nat}
    (found : symbolPlace name scopes = some (depth, i)) :
    depth < scopes.length := by
  induction scopes with
  | nil => cases found
  | cons symbols prev ih =>
    rw [symbolPlace] at found
    split at found
    · cases found
      exact Nat.lt_succ_self _
    · exact Nat.lt_succ_of_lt (ih found)

/-- What comes in behind a symbol of the name does not matter. -/
theorem Context.Extends.alike_has (grows : c.Extends c') (has : ¬Lacks name c.symbols) :
    ResolvedAlike name c c' := by
  obtain ⟨added, same, _⟩ := grows.symbols
  obtain ⟨i, _, found⟩ := findIdx_has has
  obtain ⟨symbol, first⟩ : ∃ symbol, (c.symbols.find? fun symbol => symbol.name = some name) = some symbol := by
    refine Option.ne_none_iff_exists'.mp fun absent => has fun symbol member => ?_
    simpa using List.find?_eq_none.mp absent symbol member
  constructor
  · simp [Context.scopes, symbolPlace, same, grows.prev, List.findIdx?_append, found]
  · simp [Context.findSymbol, same, grows.prev, List.find?_append, first]

/-- A name that does not come in is looked for further out, as before. -/
theorem Context.Extends.alike_lacks (grows : c.Extends c') (lacks : Lacks name c'.symbols) :
    ResolvedAlike name c c' := by
  obtain ⟨added, same, _⟩ := grows.symbols
  rw [same] at lacks
  obtain ⟨before, after⟩ := List.forall_mem_append.mp lacks
  constructor
  · simp only [Context.scopes, symbolPlace, same, grows.prev, findIdx_lacks lacks, findIdx_lacks before]
  · rw [Context.findSymbol, Context.findSymbol, same, grows.prev, List.findSome?_cons, List.findSome?_cons,
      find_lacks lacks, find_lacks before]

/-- A name that comes in is found in the innermost scope. -/
theorem Context.Extends.not_alike (grows : c.Extends c') (lacks : Lacks name c.symbols)
    (has : ¬Lacks name c'.symbols) :
    ¬ResolvedAlike name c c' := by
  intro alike
  obtain ⟨i, _, found⟩ := findIdx_has has
  have inner : symbolPlace name c'.scopes = some (c'.prev.length, i) := by simp [Context.scopes, symbolPlace, found]
  have outer : symbolPlace name c.scopes = symbolPlace name c.prev := by
    simp [Context.scopes, symbolPlace, findIdx_lacks lacks]
  have deep := symbolPlace_depth (outer.symm.trans (alike.1.symm.trans inner))
  rw [grows.prev] at deep
  exact Nat.lt_irrefl _ deep

/-- After the translation of a type a name stands for the same symbol just where the innermost scope
has one of the name already, or no interface that is translated along has a member of the name. -/
theorem resolution_kept_iff (run : codegenType fuel type c = .ok (l, c')) (name : Name) :
    ResolvedAlike name c c' ↔ ¬Lacks name c.symbols ∨ ¬Brings c name type := by
  have grows := codegenType_extends (.refl c) run
  have le : NoMoreTypes c c := fun _ _ => id
  by_cases lacks : Lacks name c.symbols
  · by_cases brings : Brings c name type
    · exact iff_of_false (grows.not_alike lacks (codegenType_has le run brings)) (by simp [lacks, brings])
    · exact iff_of_true (grows.alike_lacks (codegenType_lacks le run brings lacks)) (.inr brings)
  · exact iff_of_true (grows.alike_has lacks) (.inl lacks)

end Names

/-- `interface { .. }` with a field. -/
def fieldInterface (name : Name) : AstType := .mk 0 (.interfaceType [.field name (.mk 0 (.integerType 32))])

/-- A block in the scope of a variable `x`. -/
def scopeX : Context := ⟨[], [[symbolX 0]]⟩

theorem brings_fieldInterface {context : Context} {name field : Name} :
    Brings context name (fieldInterface field) ↔ field = name := by
  constructor
  · intro brings
    cases brings with
    | here present same =>
      obtain rfl := List.mem_singleton.mp present
      exact same
    | through follow brings =>
      cases follow with
      | part inside =>
        obtain rfl : _ = AstType.mk 0 (.integerType 32) := List.mem_singleton.mp inside
        cases brings with
        | through follow _ =>
          cases follow with
          | part inside => cases inside
  · exact fun same => .here (.head _) same

/-- The translation of `interface { y int32 }` leaves `x` alone. -/
theorem resolution_kept_field : ∃ l c', codegenType 2 (fieldInterface [121]) scopeX = .ok (l, c') ∧
    ResolvedAlike [120] scopeX c' := by
  obtain ⟨⟨l, c'⟩, run⟩ : ∃ r, codegenType 2 (fieldInterface [121]) scopeX = .ok r := ⟨_, rfl⟩
  refine ⟨l, c', run, (resolution_kept_iff run [120]).mpr (.inr fun brings => ?_)⟩
  cases brings_fieldInterface.mp brings

/-- The translation of `interface { x int32 }` hides the variable `x`. -/
theorem resolution_lost_field : ∃ l c', codegenType 2 (fieldInterface [120]) scopeX = .ok (l, c') ∧
    scopeX.findSymbol [120] = some (symbolX 0) ∧ c'.findSymbol [120] ≠ some (symbolX 0) := by
  refine ⟨_, _, rfl, rfl, fun same => ?_⟩
  have kind := congrArg CodegenSymbol.kind (Option.some.inj same)
  cases kind

end Low
