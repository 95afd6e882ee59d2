import LowCompiler.Ast.Syntax

/-!
# Symbol names across files

`resolve_imports` and `compile` of `main.c`, and the parts of `codegen_unit` that give
functions their names. Imported files are declared while `cg.package` is still zero,
and the file's own functions after it is set. LLVM gives a name that is taken a suffix,
by a function that is a parameter here, as are the symbols that the translation of
types adds to the context.
-/

namespace Low

/-! ### Declarations -/

/-- `codegen_symbol_t`, with the name of the LLVM value. -/
structure GlobalSymbol where
  name : Option Name
  value : Option Name
  function : Bool

/-- The context of a file, and the names in its module. -/
structure Declared where
  symbols : List GlobalSymbol
  names : List Name

def Declared.empty : Declared := ⟨[], []⟩

/-- `codegen_context_find_symbol` in the context of the file. -/
def Declared.findSymbol (s : Declared) (name : Name) : Option GlobalSymbol :=
  s.symbols.find? fun symbol => symbol.name = some name

def Declared.addSymbol (s : Declared) (symbol : GlobalSymbol) : Declared :=
  { s with symbols := s.symbols ++ [symbol] }

def mainName : Name := [109, 97, 105, 110]

def PKG_SEPARATOR : Name := [95]

/-- `mangle_func_name`, whose buffer holds 100 bytes. -/
def mangleFuncName (package : Option Name) (name : Name) : Option Name :=
  match package with
  | none => some name
  | some pkg =>
    if name = mainName then some name
    else if pkg.length + 1 + name.length < 100 then some (pkg ++ PKG_SEPARATOR ++ name)
    else none

section Declare
variable (rename : List Name → Name → Name) (typeSymbols : List GlobalSymbol → AstUnit → List Name)

/-- `LLVMAddFunction` and `LLVMAddGlobal`. -/
def addGlobal (names : List Name) (name : Name) : Name :=
  if name ∈ names then rename names name else name

/-- The symbols of interface members, which have no value. -/
def addTypeSymbols (s : Declared) (unit : AstUnit) : Declared :=
  { s with symbols := s.symbols ++ (typeSymbols s.symbols unit).map fun name => ⟨some name, none, false⟩ }

/-- `codegen_unit` in stage zero. -/
def declareType (s : Declared) (unit : AstUnit) : Declared :=
  match unit.kind with
  | .typeUnit name _ => s.addSymbol ⟨some name, none, false⟩
  | _ => s

/-- The name that the module gives to a function, and the module with it. -/
def declareFunc (package : Option Name) (s : Declared) (unit : AstUnit) (func : FuncUnit) :
    Option (Name × Declared) := do
  let s := addTypeSymbols typeSymbols s unit
  let value := addGlobal rename s.names (← mangleFuncName package func.name)
  return (value, { s.addSymbol ⟨some func.name, some value, true⟩ with names := s.names ++ [value] })

/-- `codegen_unit` in stage one. A variable needs a builder, and there is none outside of functions. -/
def declareUnit (package : Option Name) (s : Declared) (unit : AstUnit) : Option Declared :=
  match unit.kind with
  | .funcUnit func => (declareFunc rename typeSymbols package s unit func).map Prod.snd
  | .declUnit decl =>
    match decl.kind with
    | .constDecl name (some _) _ =>
      let s := addTypeSymbols typeSymbols s unit
      let value := addGlobal rename s.names name
      some { s.addSymbol ⟨some name, some value, false⟩ with names := s.names ++ [value] }
    | .constDecl name none _ => some (s.addSymbol ⟨some name, none, false⟩)
    | .implementationDecl _ _ _ => some (s.addSymbol ⟨none, none, false⟩)
    | .variableDecl _ _ _ => none
  | _ => some s

def codegenDecls (package : Option Name) (s : Declared) (units : List AstUnit) : Option Declared :=
  units.foldlM (declareUnit rename typeSymbols package) (units.foldl declareType s)

def codegenPackage (units : List AstUnit) : Option (Option Name) :=
  match units.filterMap fun unit => match unit.kind with | .packageUnit name => some name | _ => none with
  | [] => some none
  | [package] => some (some package)
  | _ => none

/-- `parse_file`. -/
abbrev Files := Name → Option (List AstUnit)

/-- The part of a path before its last slash. -/
def basename (path : Name) : Name :=
  (path.reverse.dropWhile (· != 47)).tail.reverse

def importPath (relativeTo name : Name) : Name :=
  if basename relativeTo = [] then name else basename relativeTo ++ [47] ++ name

/-- `resolve_imports`: the handled paths, and the files in the order in which they are declared. -/
def resolveImports (files : Files) : Nat → Name → List AstUnit → List Name × List (List AstUnit) →
    Option (List Name × List (List AstUnit))
  | 0, _, _, _ => none
  | fuel + 1, relativeTo, units, done =>
    units.foldlM (fun (handled, declared) unit =>
      match unit.kind with
      | .importUnit name =>
        let filename := importPath relativeTo name
        if filename ∈ handled then some (handled, declared)
        else do
          let imported ← files filename
          let (handled, declared) ← resolveImports files fuel filename imported (handled ++ [filename], declared)
          return (handled, declared ++ [imported])
      | _ => some (handled, declared)) done

/-- The files that a file imports, directly or through others, in the order of their declaration. -/
def importedFiles (files : Files) (fuel : Nat) (path : Name) : Option (List (List AstUnit)) := do
  let (_, declared) ← resolveImports files fuel path (← files path) ([], [])
  return declared

def declareImports (imported : List (List AstUnit)) : Option Declared :=
  imported.foldlM (codegenDecls rename typeSymbols none) .empty

/-- The name of the function that gets the body of `name` when the file is compiled. -/
def definedName (files : Files) (fuel : Nat) (path name : Name) : Option Name := do
  let s ← declareImports rename typeSymbols (← importedFiles files fuel path)
  let units ← files path
  let s ← codegenDecls rename typeSymbols (← codegenPackage units) s units
  let symbol ← s.findSymbol name
  if symbol.function then symbol.value else none

/-- The name under which an imported file declares a function, behind the files `before` and the units
`first` of its own file. -/
def declaredName (before : List (List AstUnit)) (units first : List AstUnit) (unit : AstUnit)
    (func : FuncUnit) :
    Option Name := do
  let s ← declareImports rename typeSymbols before
  let s ← first.foldlM (declareUnit rename typeSymbols none) (units.foldl declareType s)
  let (value, _) ← declareFunc rename typeSymbols none s unit func
  return value

end Declare

/-! ### Names in a module -/

/-- The name that a unit asks LLVM for when no package is set. -/
def globalName (unit : AstUnit) : Option Name :=
  match unit.kind with
  | .funcUnit func => some func.name
  | .declUnit ⟨_, .constDecl name (some _) _⟩ => some name
  | _ => none

/-- An identifier has no dot. -/
def Identifiers (units : List AstUnit) : Prop :=
  ∀ unit ∈ units, ∀ name, globalName unit = some name → 46 ∉ name

section Reached
variable {rename : List Name → Name → Name} {typeSymbols : List GlobalSymbol → AstUnit → List Name}
  {s s' : Declared} {name : Name}

theorem findSymbol_addSymbol (symbol : GlobalSymbol) :
    (s.addSymbol symbol).findSymbol name =
      (s.findSymbol name).or (if symbol.name = some name then some symbol else none) := by
  simp only [Declared.findSymbol, Declared.addSymbol, List.find?_append]
  congr 1
  by_cases same : symbol.name = some name <;> simp [same]

/-- What a context and a module hold once the `globals` are declared without a package. -/
structure Reached (globals : List Name) (s : Declared) : Prop where
  names : ∀ name, 46 ∉ name → (name ∈ s.names ↔ name ∈ globals)
  symbols : ∀ name ∈ globals, s.findSymbol name ≠ none
  first : ∀ name symbol value, s.findSymbol name = some symbol → symbol.value = some value → value = name

variable {globals : List Name}

theorem reached_empty : Reached [] .empty where
  names _ _ := Iff.rfl
  symbols _ member := absurd member List.not_mem_nil
  first _ _ _ found := nomatch found

theorem Reached.addValueless (reached : Reached globals s) {symbol : GlobalSymbol}
    (valueless : symbol.value = none) :
    Reached globals (s.addSymbol symbol) where
  names := reached.names
  symbols name member := by
    rw [findSymbol_addSymbol]
    cases found : s.findSymbol name with
    | none => exact absurd found (reached.symbols name member)
    | some symbol => exact nofun
  first name found value := by
    rw [findSymbol_addSymbol]
    cases earlier : s.findSymbol name with
    | some symbol => exact fun same => reached.first name found value (earlier.trans same)
    | none =>
      simp only [Option.none_or]
      split
      · rintro ⟨⟩ valued
        rw [valueless] at valued
        cases valued
      · exact nofun

theorem Reached.addTypeSymbols (reached : Reached globals s) (unit : AstUnit) :
    Reached globals (addTypeSymbols typeSymbols s unit) := by
  have all (names : List Name) : ∀ s, Reached globals s →
      Reached globals { s with symbols := s.symbols ++ names.map fun name => ⟨some name, none, false⟩ } := by
    induction names with
    | nil => exact fun s reached => by simpa using reached
    | cons name names ih =>
      intro s reached
      have valueless : (⟨some name, none, false⟩ : GlobalSymbol).value = none := rfl
      have later := ih _ (reached.addValueless valueless)
      simpa [Declared.addSymbol] using later
  exact all _ s reached

theorem Reached.declareType (reached : Reached globals s) (unit : AstUnit) :
    Reached globals (declareType s unit) := by
  rw [Low.declareType]
  split
  · exact reached.addValueless rfl
  · exact reached

/-- A name that is taken gets a suffix that begins with a dot and has no underscore. -/
def Suffixes (rename : List Name → Name → Name) : Prop :=
  ∀ names name, ∃ suffix, rename names name = name ++ 46 :: suffix ∧ 95 ∉ suffix

theorem addGlobal_cases (suffixes : Suffixes rename) (names : List Name) (name : Name) :
    (name ∉ names ∧ addGlobal rename names name = name) ∨
      name ∈ names ∧ ∃ suffix, addGlobal rename names name = name ++ 46 :: suffix ∧ 95 ∉ suffix := by
  by_cases taken : name ∈ names
  · exact .inr ⟨taken, by simpa only [addGlobal, if_pos taken] using suffixes names name⟩
  · exact .inl ⟨taken, if_neg taken⟩

theorem Reached.addValue (suffixes : Suffixes rename) (reached : Reached globals s) (plain : 46 ∉ name)
    (function : Bool) :
    Reached (globals ++ [name])
      { s.addSymbol ⟨some name, some (addGlobal rename s.names name), function⟩ with
        names := s.names ++ [addGlobal rename s.names name] } where
  names other dotless := by
    simp only [List.mem_append, List.mem_singleton, reached.names other dotless]
    rcases addGlobal_cases suffixes s.names name with ⟨_, same⟩ | ⟨taken, suffix, same, _⟩
    · rw [same]
    · rw [same]
      constructor
      · rintro (earlier | rfl)
        · exact .inl earlier
        · simp at dotless
      · rintro (earlier | rfl)
        · exact .inl earlier
        · exact .inl ((reached.names _ dotless).mp taken)
  symbols other member := by
    change (s.addSymbol _).findSymbol other ≠ none
    rw [findSymbol_addSymbol]
    rcases List.mem_append.mp member with earlier | here
    · cases found : s.findSymbol other with
      | none => exact absurd found (reached.symbols other earlier)
      | some symbol => exact nofun
    · rw [List.mem_singleton.mp here]
      cases s.findSymbol name <;> simp
  first other found value := by
    change (s.addSymbol _).findSymbol other = _ → _
    rw [findSymbol_addSymbol]
    cases earlier : s.findSymbol other with
    | some symbol => exact fun same => reached.first other found value (earlier.trans same)
    | none =>
      simp only [Option.none_or, Option.some.injEq]
      split
      case isTrue here =>
        subst here
        rintro ⟨⟩ ⟨⟩
        have fresh : name ∉ s.names := fun taken => reached.symbols name ((reached.names name plain).mp taken) earlier
        exact if_neg fresh
      case isFalse => exact nofun

def globalNames (units : List AstUnit) : List Name :=
  units.filterMap globalName

theorem declareFunc_ok {package : Option Name} {unit : AstUnit} {func : FuncUnit} {value : Name}
    (declared : declareFunc rename typeSymbols package s unit func = some (value, s')) :
    ∃ mangled, mangleFuncName package func.name = some mangled ∧ value = addGlobal rename s.names mangled ∧
      s' = { (addTypeSymbols typeSymbols s unit).addSymbol ⟨some func.name, some value, true⟩ with
        names := s.names ++ [value] } := by
  obtain ⟨mangled, named, same⟩ := Option.bind_eq_some_iff.mp declared
  cases same
  exact ⟨mangled, named, rfl, rfl⟩

theorem Reached.declareUnit (suffixes : Suffixes rename) (reached : Reached globals s) {unit : AstUnit}
    (plain : ∀ name, globalName unit = some name → 46 ∉ name)
    (declared : declareUnit rename typeSymbols none s unit = some s') :
    Reached (globals ++ (globalName unit).toList) s' := by
  have typed : Reached globals (Low.addTypeSymbols typeSymbols s unit) := reached.addTypeSymbols unit
  obtain ⟨loc, kind⟩ := unit
  cases kind with
  | funcUnit func =>
    simp only [Low.declareUnit] at declared
    obtain ⟨⟨value, _⟩, built, rfl⟩ := Option.map_eq_some_iff.mp declared
    obtain ⟨mangled, named, rfl, rfl⟩ := declareFunc_ok built
    cases named
    exact typed.addValue suffixes (plain _ rfl) true
  | declUnit decl =>
    obtain ⟨_, kind⟩ := decl
    cases kind with
    | variableDecl => cases declared
    | implementationDecl =>
      cases declared
      simpa [globalName] using reached.addValueless rfl
    | constDecl name type initial =>
      cases type with
      | none =>
        cases declared
        simpa [globalName] using reached.addValueless rfl
      | some type =>
        cases declared
        exact typed.addValue suffixes (plain _ rfl) false
  | importUnit | typeUnit | packageUnit =>
    cases declared
    simpa [globalName] using reached

theorem Reached.declareUnits (suffixes : Suffixes rename) (reached : Reached globals s) {units : List AstUnit}
    (plain : Identifiers units) (declared : units.foldlM (Low.declareUnit rename typeSymbols none) s = some s') :
    Reached (globals ++ globalNames units) s' := by
  induction units generalizing globals s with
  | nil =>
    cases declared
    simpa [globalNames] using reached
  | cons unit units ih =>
    obtain ⟨s₁, one, rest⟩ := Option.bind_eq_some_iff.mp declared
    have later := ih (reached.declareUnit suffixes (plain unit List.mem_cons_self) one)
      (fun unit member => plain unit (List.mem_cons_of_mem _ member)) rest
    cases named : globalName unit <;> simpa [globalNames, named] using later

theorem Reached.declareTypes (reached : Reached globals s) (units : List AstUnit) :
    Reached globals (units.foldl Low.declareType s) := by
  induction units generalizing s with
  | nil => exact reached
  | cons unit units ih => exact ih (reached.declareType unit)

theorem declareImports_reached (suffixes : Suffixes rename) {imported : List (List AstUnit)}
    (plain : ∀ units ∈ imported, Identifiers units)
    (declared : declareImports rename typeSymbols imported = some s) :
    Reached (globalNames imported.flatten) s := by
  have run (imported : List (List AstUnit)) : ∀ globals s₀, Reached globals s₀ → (∀ units ∈ imported, Identifiers units) →
      ∀ s, imported.foldlM (codegenDecls rename typeSymbols none) s₀ = some s →
      Reached (globals ++ globalNames imported.flatten) s := by
    induction imported with
    | nil =>
      intro globals s₀ reached _ s same
      cases same
      simpa [globalNames] using reached
    | cons units imported ih =>
      intro globals s₀ reached plain s declared
      obtain ⟨s₁, one, rest⟩ := Option.bind_eq_some_iff.mp declared
      have here := (reached.declareTypes units).declareUnits suffixes (plain units List.mem_cons_self) one
      have later := ih _ s₁ here (fun units member => plain units (List.mem_cons_of_mem _ member)) s rest
      simpa [globalNames] using later
  simpa using run imported [] .empty reached_empty plain s declared

/-- Where the symbol of a function comes from. -/
def FromUnit (rename : List Name → Name → Name) (package : Option Name) (units : List AstUnit)
    (symbol : GlobalSymbol) :
    Prop :=
  symbol.function = true → ∃ loc func names mangled, ⟨loc, .funcUnit func⟩ ∈ units ∧ symbol.name = some func.name ∧
    mangleFuncName package func.name = some mangled ∧ symbol.value = some (addGlobal rename names mangled)

def Adds (rename : List Name → Name → Name) (package : Option Name) (units : List AstUnit)
    (s s' : Declared) : Prop :=
  ∃ symbols, s'.symbols = s.symbols ++ symbols ∧ ∀ symbol ∈ symbols, FromUnit rename package units symbol

variable {package : Option Name} {units units' : List AstUnit} {s'' : Declared}

theorem Adds.refl : Adds rename package units s s :=
  ⟨[], by simp, fun _ member => absurd member List.not_mem_nil⟩

theorem Adds.trans (first : Adds rename package units s s') (second : Adds rename package units s' s'') :
    Adds rename package units s s'' := by
  obtain ⟨early, same, fromEarly⟩ := first
  obtain ⟨late, same', fromLate⟩ := second
  exact ⟨early ++ late, by rw [same', same, List.append_assoc], List.forall_mem_append.mpr ⟨fromEarly, fromLate⟩⟩

theorem Adds.mono (adds : Adds rename package units s s') (more : ∀ unit ∈ units, unit ∈ units') :
    Adds rename package units' s s' := by
  obtain ⟨symbols, same, origin⟩ := adds
  refine ⟨symbols, same, fun symbol member function => ?_⟩
  obtain ⟨loc, func, names, mangled, present, rest⟩ := origin symbol member function
  exact ⟨loc, func, names, mangled, more _ present, rest⟩

theorem Adds.symbol (symbol : GlobalSymbol) (names : List Name)
    (origin : FromUnit rename package units symbol) :
    Adds rename package units s ⟨s.symbols ++ [symbol], names⟩ :=
  ⟨[symbol], rfl, List.forall_mem_singleton.mpr origin⟩

theorem addTypeSymbols_adds (unit : AstUnit) :
    Adds rename package units s (addTypeSymbols typeSymbols s unit) := by
  refine ⟨_, rfl, fun symbol member function => ?_⟩
  obtain ⟨name, _, rfl⟩ := List.mem_map.mp member
  cases function

theorem declareType_adds (unit : AstUnit) : Adds rename package units s (declareType s unit) := by
  rw [declareType]
  split
  · exact .symbol _ _ nofun
  · exact .refl

theorem declareUnit_adds {unit : AstUnit} (declared : declareUnit rename typeSymbols package s unit = some s') :
    Adds rename package [unit] s s' := by
  obtain ⟨loc, kind⟩ := unit
  cases kind with
  | funcUnit func =>
    simp only [declareUnit] at declared
    obtain ⟨⟨value, _⟩, built, rfl⟩ := Option.map_eq_some_iff.mp declared
    obtain ⟨mangled, named, rfl, rfl⟩ := declareFunc_ok built
    refine (addTypeSymbols_adds _).trans (.symbol _ _ fun _ => ?_)
    exact ⟨loc, func, s.names, mangled, List.mem_singleton.mpr rfl, rfl, named, rfl⟩
  | declUnit decl =>
    obtain ⟨_, kind⟩ := decl
    cases kind with
    | variableDecl => cases declared
    | implementationDecl =>
      cases declared
      exact .symbol _ _ nofun
    | constDecl name type initial =>
      cases type with
      | none =>
        cases declared
        exact .symbol _ _ nofun
      | some type =>
        cases declared
        exact (addTypeSymbols_adds _).trans (.symbol _ _ nofun)
  | importUnit | typeUnit | packageUnit =>
    cases declared
    exact .refl

theorem codegenDecls_adds (declared : codegenDecls rename typeSymbols package s units = some s') :
    Adds rename package units s s' := by
  have types (list : List AstUnit) : ∀ s, Adds rename package units s (list.foldl declareType s) := by
    induction list with
    | nil => exact fun s => .refl
    | cons unit list ih => exact fun s => (declareType_adds unit).trans (ih _)
  have decls (list : List AstUnit) : ∀ s, (∀ unit ∈ list, unit ∈ units) →
      ∀ s', list.foldlM (declareUnit rename typeSymbols package) s = some s' → Adds rename package units s s' := by
    induction list with
    | nil =>
      intro s _ s' same
      cases same
      exact .refl
    | cons unit list ih =>
      intro s within s' declared
      obtain ⟨s₁, one, rest⟩ := Option.bind_eq_some_iff.mp declared
      have here := (declareUnit_adds one).mono (fun other member => List.mem_singleton.mp member ▸ within unit List.mem_cons_self)
      exact here.trans (ih s₁ (fun unit member => within unit (List.mem_cons_of_mem _ member)) s' rest)
  exact (types units s).trans (decls units _ (fun _ member => member) s' declared)

theorem declareImports_adds {imported : List (List AstUnit)}
    (declared : declareImports rename typeSymbols imported = some s) :
    Adds rename none imported.flatten .empty s := by
  have run (list : List (List AstUnit)) : ∀ s, (∀ units ∈ list, units ∈ imported) →
      ∀ s', list.foldlM (codegenDecls rename typeSymbols none) s = some s' →
        Adds rename none imported.flatten s s' := by
    induction list with
    | nil =>
      intro s _ s' same
      cases same
      exact .refl
    | cons units list ih =>
      intro s within s' declared
      obtain ⟨s₁, one, rest⟩ := Option.bind_eq_some_iff.mp declared
      have here := (codegenDecls_adds one).mono fun unit member =>
        List.mem_flatten.mpr ⟨units, within units List.mem_cons_self, member⟩
      exact here.trans (ih s₁ (fun units member => within units (List.mem_cons_of_mem _ member)) s' rest)
  exact run imported .empty (fun _ member => member) s declared

/-- The first symbol with a name stays the first, and a new one comes from a unit. -/
theorem Adds.findSymbol (adds : Adds rename package units s s') {symbol : GlobalSymbol}
    (found : s'.findSymbol name = some symbol) :
    s.findSymbol name = some symbol ∨ s.findSymbol name = none ∧ FromUnit rename package units symbol := by
  obtain ⟨symbols, same, origin⟩ := adds
  simp only [Declared.findSymbol, same, List.find?_append] at found ⊢
  cases earlier : s.symbols.find? fun symbol => symbol.name = some name with
  | some first =>
    rw [earlier, Option.some_or] at found
    exact .inl found
  | none =>
    rw [earlier, Option.none_or] at found
    exact .inr ⟨rfl, origin symbol (List.mem_of_find?_eq_some found)⟩

end Reached

/-! ### When the names agree -/

theorem resolveImports_files {files : Files} {fuel : Nat} {relativeTo : Name} {units : List AstUnit}
    {done done' : List Name × List (List AstUnit)} (resolved : resolveImports files fuel relativeTo units done = some done')
    (known : ∀ imported ∈ done.2, ∃ path, files path = some imported) :
    ∀ imported ∈ done'.2, ∃ path, files path = some imported := by
  induction fuel generalizing relativeTo units done done' with
  | zero => cases resolved
  | succ fuel deeper =>
    rw [resolveImports] at resolved
    induction units generalizing done with
    | nil =>
      cases resolved
      exact known
    | cons unit units ih =>
      obtain ⟨middle, one, rest⟩ := Option.bind_eq_some_iff.mp resolved
      refine ih rest ?_
      obtain ⟨loc, kind⟩ := unit
      cases kind with
      | importUnit name =>
        simp only at one
        split at one
        · cases one
          exact known
        · obtain ⟨imported, parsed, one⟩ := Option.bind_eq_some_iff.mp one
          obtain ⟨⟨handled, declared⟩, below, same⟩ := Option.bind_eq_some_iff.mp one
          cases same
          intro other member
          rcases List.mem_append.mp member with earlier | here
          · exact deeper below known other earlier
          · exact ⟨_, List.mem_singleton.mp here ▸ parsed⟩
      | declUnit | funcUnit | typeUnit | packageUnit =>
        cases one
        exact known

theorem importedFiles_files {files : Files} {fuel : Nat} {path : Name} {imported : List (List AstUnit)}
    (resolved : importedFiles files fuel path = some imported) :
    ∀ units ∈ imported, ∃ path, files path = some units := by
  obtain ⟨units, _, resolved⟩ := Option.bind_eq_some_iff.mp resolved
  obtain ⟨⟨handled, declared⟩, resolved, same⟩ := Option.bind_eq_some_iff.mp resolved
  cases same
  exact resolveImports_files resolved nofun

def functionNames (units : List AstUnit) : List Name :=
  units.filterMap fun unit => match unit.kind with | .funcUnit func => some func.name | _ => none

theorem mem_functionNames {units : List AstUnit} {name : Name} :
    name ∈ functionNames units ↔ ∃ loc func, ⟨loc, .funcUnit func⟩ ∈ units ∧ func.name = name := by
  rw [functionNames, List.mem_filterMap]
  constructor
  · rintro ⟨⟨loc, kind⟩, member, named⟩
    cases kind with
    | funcUnit func => exact ⟨loc, func, member, Option.some.inj named⟩
    | _ => cases named
  · rintro ⟨loc, func, member, rfl⟩
    exact ⟨_, member, rfl⟩

/-- A mangled name has an underscore more than the names that a function gets without a package. -/
theorem mangled_ne {rename : List Name → Name → Name} (suffixes : Suffixes rename) {pkg name mangled : Name}
    (notMain : name ≠ mainName) (mangle : mangleFuncName (some pkg) name = some mangled)
    (names names' : List Name) :
    addGlobal rename names name ≠ addGlobal rename names' mangled := by
  simp only [mangleFuncName, if_neg notMain, Option.ite_none_right_eq_some, Option.some.injEq] at mangle
  obtain ⟨_, rfl⟩ := mangle
  intro same
  have count := congrArg (List.count 95) same
  have plain (names : List Name) (name : Name) : (addGlobal rename names name).count 95 = name.count 95 := by
    rcases addGlobal_cases suffixes names name with ⟨_, same⟩ | ⟨_, suffix, same, absent⟩
    · rw [same]
    · simp [same, List.count_eq_zero.mpr absent]
  simp [plain, PKG_SEPARATOR] at count
  omega

section Agree
variable {rename : List Name → Name → Name} {typeSymbols : List GlobalSymbol → AstUnit → List Name} {files : Files}
  {pathF pathG : Name} {fuelF fuelG : Nat} {units first rest : List AstUnit} {before after importedF : List (List AstUnit)}
  {loc : Loc} {func : FuncUnit} {package : Option Name} {declared defined : Name}

/-- The name under which an importer declares the function. -/
theorem declaredName_eq (suffixes : Suffixes rename) (plain : ∀ list ∈ before, Identifiers list)
    (plainF : Identifiers units) (split : units = first ++ ⟨loc, .funcUnit func⟩ :: rest)
    (declares : declaredName rename typeSymbols before units first ⟨loc, .funcUnit func⟩ func = some declared) :
    ∃ names, declared = addGlobal rename names func.name ∧
      (func.name ∈ names ↔ func.name ∈ globalNames (before.flatten ++ first)) := by
  obtain ⟨s, imports, declares⟩ := Option.bind_eq_some_iff.mp declares
  obtain ⟨s', decls, declares⟩ := Option.bind_eq_some_iff.mp declares
  obtain ⟨⟨value, s''⟩, built, same⟩ := Option.bind_eq_some_iff.mp declares
  cases same
  obtain ⟨mangled, named, rfl, _⟩ := declareFunc_ok built
  cases named
  have inside : ∀ unit ∈ first, unit ∈ units := fun unit member => split ▸ List.mem_append_left _ member
  have reached := ((declareImports_reached suffixes plain imports).declareTypes units).declareUnits suffixes
    (fun unit member => plainF unit (inside unit member)) decls
  have dotless : 46 ∉ func.name :=
    plainF ⟨loc, .funcUnit func⟩ (split ▸ List.mem_append_right _ List.mem_cons_self) _ rfl
  refine ⟨s'.names, rfl, (reached.names _ dotless).trans ?_⟩
  rw [globalNames, globalNames, globalNames, List.filterMap_append]

/-- The name of the function that gets the body: the plain one when the file has no package or
imports a function of that name, and one that is mangled otherwise. -/
theorem definedName_eq (suffixes : Suffixes rename) (plain : ∀ list ∈ importedF, Identifiers list)
    (plainF : Identifiers units) (fileF : files pathF = some units)
    (importsF : importedFiles files fuelF pathF = some importedF) (packageF : codegenPackage units = some package)
    (defines : definedName rename typeSymbols files fuelF pathF func.name = some defined) :
    if package = none ∨ func.name ∈ functionNames importedF.flatten then defined = func.name
    else ∃ names mangled, mangleFuncName package func.name = some mangled ∧
      defined = addGlobal rename names mangled := by
  simp only [definedName, importsF, fileF, packageF, Option.bind_eq_bind, Option.bind_some] at defines
  obtain ⟨s, imports, defines⟩ := Option.bind_eq_some_iff.mp defines
  obtain ⟨s', decls, defines⟩ := Option.bind_eq_some_iff.mp defines
  obtain ⟨symbol, found, defines⟩ := Option.bind_eq_some_iff.mp defines
  obtain ⟨function, valued⟩ := Option.ite_none_right_eq_some.mp defines
  have reached := declareImports_reached suffixes plain imports
  have named : symbol.name = some func.name := by simpa using List.find?_some found
  rcases (codegenDecls_adds decls).findSymbol found with imported | ⟨absent, origin⟩
  · have present : func.name ∈ functionNames importedF.flatten := by
      rcases (declareImports_adds imports).findSymbol imported with early | ⟨_, origin⟩
      · cases early
      · obtain ⟨loc, other, _, _, member, same, _⟩ := origin function
        exact mem_functionNames.mpr ⟨loc, other, member, Option.some.inj (same.symm.trans named)⟩
    rw [if_pos (.inr present)]
    exact reached.first _ symbol defined imported valued
  · have notImported : func.name ∉ functionNames importedF.flatten := by
      intro present
      obtain ⟨loc, other, member, same⟩ := mem_functionNames.mp present
      refine reached.symbols func.name (List.mem_filterMap.mpr ⟨_, member, ?_⟩) absent
      simp [globalName, same]
    cases package with
    | none =>
      rw [if_pos (.inl rfl)]
      have own := (reached.declareTypes units).declareUnits suffixes plainF decls
      exact own.first _ symbol defined found valued
    | some pkg =>
      rw [if_neg (by simp [notImported])]
      obtain ⟨loc, other, names, mangled, _, same, mangle, value⟩ := origin function
      rw [Option.some.inj (same.symm.trans named)] at mangle
      exact ⟨names, mangled, mangle, Option.some.inj (valued.symm.trans value)⟩

/-- An importer declares a function under the name that its own file gives it just when no function
or typed constant of that name is declared before it, and its file has no package, or imports a
function of that name. -/
theorem symbolNames_agree (suffixes : Suffixes rename)
    (plain : ∀ path list, files path = some list → Identifiers list) (fileF : files pathF = some units)
    (split : units = first ++ ⟨loc, .funcUnit func⟩ :: rest) (notMain : func.name ≠ mainName)
    (importsF : importedFiles files fuelF pathF = some importedF) (packageF : codegenPackage units = some package)
    (importsG : importedFiles files fuelG pathG = some (before ++ units :: after))
    (defines : definedName rename typeSymbols files fuelF pathF func.name = some defined)
    (declares : declaredName rename typeSymbols before units first ⟨loc, .funcUnit func⟩ func = some declared) :
    declared = defined ↔ func.name ∉ globalNames (before.flatten ++ first) ∧
      (package = none ∨ func.name ∈ functionNames importedF.flatten) := by
  have known {path : Name} {fuel : Nat} {list : List (List AstUnit)} (resolved : importedFiles files fuel path = some list) :
      ∀ units ∈ list, Identifiers units := by
    intro units member
    obtain ⟨path, parsed⟩ := importedFiles_files resolved units member
    exact plain path units parsed
  have plainG : ∀ list ∈ before, Identifiers list := fun list member => known importsG list (List.mem_append_left _ member)
  obtain ⟨names, rfl, taken⟩ := declaredName_eq suffixes plainG (plain _ _ fileF) split declares
  have name := definedName_eq suffixes (known importsF) (plain _ _ fileF) fileF importsF packageF defines
  rw [← taken]
  split at name
  case isTrue own =>
    subst name
    rcases addGlobal_cases suffixes names func.name with ⟨fresh, same⟩ | ⟨present, suffix, same, _⟩
    · simp [same, fresh, own]
    · simp [same, present]
  case isFalse mangledName =>
    obtain ⟨names', mangled, mangle, rfl⟩ := name
    refine iff_of_false ?_ fun agree => mangledName agree.2
    cases package with
    | none => exact absurd (.inl rfl) mangledName
    | some pkg => exact mangled_ne suffixes notMain mangle names names'

end Agree

def importedFunc : FuncUnit := ⟨.mk 0 .voidType, [102], some (.mk ⟨0, 0⟩ (.compoundStmt [])), [], false⟩

/-- LLVM's suffix for a name that is taken. -/
def dotSuffix (_ : List Name) (name : Name) : Name := name ++ [46, 49]

/-- `a` has the units given, and `b` imports `a`. -/
def importing (units : List AstUnit) : Files := fun path =>
  if path = [97] then some units
  else if path = [98] then some [⟨⟨0, 0⟩, .importUnit [97]⟩]
  else none

/-- `package "p"; func f () void {}`: an importer declares `f`, and the file itself defines `p_f`. -/
theorem package_name_not_declared :
    let units : List AstUnit := [⟨⟨0, 0⟩, .packageUnit [112]⟩, ⟨⟨1, 0⟩, .funcUnit importedFunc⟩]
    importedFiles (importing units) 2 [98] = some ([] ++ units :: []) ∧
      declaredName dotSuffix (fun _ _ => []) [] units [⟨⟨0, 0⟩, .packageUnit [112]⟩]
        ⟨⟨1, 0⟩, .funcUnit importedFunc⟩ importedFunc = some [102] ∧
      definedName dotSuffix (fun _ _ => []) (importing units) 1 [97] importedFunc.name = some [112, 95, 102] ∧
      ([102] : Name) ≠ [112, 95, 102] :=
  ⟨rfl, rfl, rfl, by decide⟩

theorem dotSuffix_suffixes : Suffixes dotSuffix := fun _ _ => ⟨[49], rfl, by decide⟩

/-- `func g () void {}`. -/
def packagedFunc : FuncUnit := ⟨.mk 0 .voidType, [103], some (.mk ⟨0, 0⟩ (.compoundStmt [])), [], false⟩

/-- The file `a` has `f`. The file `d` has the package `p` and `g`. The file `b` has the package `q` and
imports both. -/
def importingTwo : Files := fun path =>
  if path = [97] then some [⟨⟨0, 0⟩, .funcUnit importedFunc⟩]
  else if path = [100] then some [⟨⟨0, 0⟩, .packageUnit [112]⟩, ⟨⟨1, 0⟩, .funcUnit packagedFunc⟩]
  else if path = [98] then some [⟨⟨0, 0⟩, .packageUnit [113]⟩, ⟨⟨1, 0⟩, .importUnit [97]⟩, ⟨⟨2, 0⟩, .importUnit [100]⟩]
  else none

theorem importingTwo_identifiers (path : Name) (list : List AstUnit) (parsed : importingTwo path = some list) :
    Identifiers list := by
  have all : ∀ path ∈ ([[97], [100], [98]] : List Name), ∀ list ∈ importingTwo path, ∀ unit ∈ list,
      ∀ name ∈ globalName unit, 46 ∉ name := by decide
  by_cases known : path ∈ ([[97], [100], [98]] : List Name)
  · exact fun unit member name named => all path known list parsed unit member name named
  · simp only [List.mem_cons, List.not_mem_nil, or_false, not_or] at known
    simp [importingTwo, known] at parsed

/-- The importer declares `f` under the name that `a` defines it under, and `g` under another one than `d`. -/
theorem importingTwo_names : ∃ f f' g g',
    declaredName dotSuffix (fun _ _ => []) [] [⟨⟨0, 0⟩, .funcUnit importedFunc⟩] [] ⟨⟨0, 0⟩, .funcUnit importedFunc⟩
        importedFunc = some f ∧
      definedName dotSuffix (fun _ _ => []) importingTwo 1 [97] importedFunc.name = some f' ∧ f = f' ∧
    declaredName dotSuffix (fun _ _ => []) [[⟨⟨0, 0⟩, .funcUnit importedFunc⟩]]
        [⟨⟨0, 0⟩, .packageUnit [112]⟩, ⟨⟨1, 0⟩, .funcUnit packagedFunc⟩] [⟨⟨0, 0⟩, .packageUnit [112]⟩]
        ⟨⟨1, 0⟩, .funcUnit packagedFunc⟩ packagedFunc = some g ∧
      definedName dotSuffix (fun _ _ => []) importingTwo 1 [100] packagedFunc.name = some g' ∧ g ≠ g' := by
  have resolved : importedFiles importingTwo 2 [98] = some [[⟨⟨0, 0⟩, .funcUnit importedFunc⟩],
      [⟨⟨0, 0⟩, .packageUnit [112]⟩, ⟨⟨1, 0⟩, .funcUnit packagedFunc⟩]] := rfl
  have declaresF : declaredName dotSuffix (fun _ _ => []) [] [⟨⟨0, 0⟩, .funcUnit importedFunc⟩] []
      ⟨⟨0, 0⟩, .funcUnit importedFunc⟩ importedFunc = some [102] := rfl
  have definesF : definedName dotSuffix (fun _ _ => []) importingTwo 1 [97] importedFunc.name = some [102] := rfl
  have declaresG : declaredName dotSuffix (fun _ _ => []) [[⟨⟨0, 0⟩, .funcUnit importedFunc⟩]]
      [⟨⟨0, 0⟩, .packageUnit [112]⟩, ⟨⟨1, 0⟩, .funcUnit packagedFunc⟩] [⟨⟨0, 0⟩, .packageUnit [112]⟩]
      ⟨⟨1, 0⟩, .funcUnit packagedFunc⟩ packagedFunc = some [103] := rfl
  have definesG : definedName dotSuffix (fun _ _ => []) importingTwo 1 [100] packagedFunc.name = some [112, 95, 103] := rfl
  have plain : ([102] : Name) = [102] := by
    refine (symbolNames_agree dotSuffix_suffixes importingTwo_identifiers (rfl : importingTwo [97] = _)
      (rfl : _ = [] ++ _ :: []) (by decide) (rfl : importedFiles importingTwo 1 [97] = some []) rfl
      (resolved : _ = some ([] ++ _ :: _)) definesF declaresF).mpr ?_
    exact ⟨by decide, .inl rfl⟩
  have packaged : ([103] : Name) ≠ [112, 95, 103] := by
    refine mt (symbolNames_agree dotSuffix_suffixes importingTwo_identifiers (rfl : importingTwo [100] = _)
      (rfl : _ = [_] ++ _ :: []) (by decide) (rfl : importedFiles importingTwo 1 [100] = some []) rfl
      (resolved : _ = some ([_] ++ _ :: [])) definesG declaresG).mp ?_
    rintro ⟨_, unpackaged | imported⟩
    · cases unpackaged
    · cases imported
  exact ⟨[102], [102], [103], [112, 95, 103], declaresF, definesF, plain, declaresG, definesG, packaged⟩

end Low
