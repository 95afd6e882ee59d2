import LowCompiler.Codegen.Names
import LowCompiler.DepthFirst
import Mathlib.Data.Set.Finite.Basic

/-!
# When imports are resolved

`resolve_imports` is a depth-first search over files. It knows the files it has met by
the paths it has built for them, and it builds a path by putting the directory of the
importing file in front. The operating system sees through such paths: one file has
many of them.
-/

namespace Low

/-! ### The search -/

def importPaths (path : Name) (units : List AstUnit) : List Name :=
  units.filterMap fun unit =>
    match unit.kind with
    | .importUnit name => some (importPath path name)
    | _ => none

def filePaths (files : Files) (path : Name) : Option (List Name) :=
  (files path).map (importPaths path)

theorem resolveImports_visit (files : Files) (fuel : Nat) (path : Name) (units : List AstUnit)
    (handled : List Name) (declared : List (List AstUnit)) :
    (resolveImports files fuel path units (handled, declared)).map Prod.fst =
      DepthFirst.visit (filePaths files) fuel (importPaths path units) handled := by
  induction fuel generalizing path units handled declared with
  | zero => rfl
  | succ fuel deeper =>
    rw [resolveImports, DepthFirst.visit]
    induction units generalizing handled declared with
    | nil => rfl
    | cons unit units ih =>
      obtain ⟨loc, kind⟩ := unit
      cases kind with
      | importUnit name =>
        have paths : importPaths path (⟨loc, .importUnit name⟩ :: units) = importPath path name :: importPaths path units :=
          rfl
        rw [paths, List.foldlM_cons, List.foldlM_cons]
        by_cases known : importPath path name ∈ handled
        · simp only [known, if_true]
          exact ih handled declared
        · simp only [known, if_false]
          cases parsed : files (importPath path name) with
          | none => simp [filePaths, parsed]
          | some imported =>
            have below := deeper (importPath path name) imported (handled ++ [importPath path name]) declared
            simp only [filePaths, parsed, Option.map_some, Option.bind_eq_bind, Option.bind_some]
            rw [← below]
            cases resolveImports files fuel (importPath path name) imported (handled ++ [importPath path name], declared) with
            | none => rfl
            | some result => exact ih result.1 _
      | declUnit | funcUnit | typeUnit | packageUnit => exact ih handled declared

/-- The paths that are imported, directly or through other files. -/
def Imported (files : Files) (path : Name) (units : List AstUnit) (p : Name) : Prop :=
  DepthFirst.Reached (filePaths files) (importPaths path units) p

section Files
variable {files : Files} {path : Name} {units : List AstUnit}

theorem resolveImports_handled {fuel : Nat} {handled : List Name} {declared : List (List AstUnit)}
    (resolved : resolveImports files fuel path units ([], []) = some (handled, declared)) :
    handled.Nodup ∧ ∀ p, p ∈ handled ↔ Imported files path units p := by
  have visited := resolveImports_visit files fuel path units [] []
  rw [resolved] at visited
  exact DepthFirst.visit_reached visited.symm

theorem resolveImports_ends (finite : {p | Imported files path units p}.Finite)
    (closed : ∀ p, Imported files path units p → files p ≠ none) :
    ∃ fuel handled declared, resolveImports files fuel path units ([], []) = some (handled, declared) := by
  have member {p : Name} : p ∈ finite.toFinset ↔ Imported files path units p := finite.mem_toFinset
  have opened : ∀ p ∈ finite.toFinset, ∃ below, filePaths files p = some below ∧ ∀ q ∈ below, q ∈ finite.toFinset := by
    intro p inside
    obtain ⟨imported, parsed⟩ := Option.ne_none_iff_exists'.mp (closed p (member.mp inside))
    have paths : filePaths files p = some (importPaths p imported) := by rw [filePaths, parsed, Option.map_some]
    exact ⟨_, paths, fun q below => member.mpr (.step (member.mp inside) paths below)⟩
  have starts (p : Name) (start : p ∈ importPaths path units) : p ∈ finite.toFinset := member.mpr (.start start)
  obtain ⟨handled, visited⟩ := DepthFirst.visit_ends opened starts (Nat.lt_succ_self (DepthFirst.unmet _ []))
  rw [← resolveImports_visit files _ path units [] []] at visited
  obtain ⟨⟨handled, declared⟩, resolved, _⟩ := Option.map_eq_some_iff.mp visited
  exact ⟨_, handled, declared, resolved⟩

end Files

/-! ### Files with several paths -/

/-- A path leads to a file, and a file has contents. -/
def fileSystem {F : Type} (file : Name → F) (contents : F → Option (List AstUnit)) : Files :=
  fun path => contents (file path)

/-- `resolve_imports` ends, and it has parsed no file twice. -/
def ResolvesOnce {F : Type} (file : Name → F) (contents : F → Option (List AstUnit)) (path : Name)
    (units : List AstUnit) : Prop :=
  ∃ fuel handled declared, resolveImports (fileSystem file contents) fuel path units ([], []) = some (handled, declared) ∧
    (handled.map file).Nodup

/-- Over finitely many files, imports are resolved with each file parsed once just when no file is
reached by two paths. -/
theorem resolveImports_once {F : Type} (file : Name → F) (contents : F → Option (List AstUnit))
    (finite : {f | contents f ≠ none}.Finite) (path : Name) (units : List AstUnit)
    (closed : ∀ p, Imported (fileSystem file contents) path units p → fileSystem file contents p ≠ none) :
    ResolvesOnce file contents path units ↔
      Set.InjOn file {p | Imported (fileSystem file contents) path units p} := by
  constructor
  · intro once
    obtain ⟨fuel, handled, declared, resolved, distinct⟩ := once
    obtain ⟨_, members⟩ := resolveImports_handled resolved
    intro p reached q reached' same
    exact List.inj_on_of_nodup_map distinct ((members p).mpr reached) ((members q).mpr reached') same
  · intro injective
    have image : file '' {p | Imported (fileSystem file contents) path units p} ⊆ {f | contents f ≠ none} := by
      intro f inside
      obtain ⟨p, reached, rfl⟩ := inside
      exact closed p reached
    have paths := Set.Finite.of_finite_image (finite.subset image) injective
    obtain ⟨fuel, handled, declared, resolved⟩ := resolveImports_ends paths closed
    obtain ⟨distinct, members⟩ := resolveImports_handled resolved
    refine ⟨fuel, handled, declared, resolved, distinct.map_on fun p inside q inside' same => ?_⟩
    exact injective ((members p).mp inside) ((members q).mp inside') same

def enter (directory : List Name) : Name → List Name
  | [] | [46] => directory
  | [46, 46] => directory.dropLast
  | component => directory ++ [component]

/-- What the operating system finds at a path, as the components from the working directory. -/
def normalise (path : Name) : List Name :=
  let (directory, component) := path.foldl (fun (directory, component) byte =>
    if byte = 47 then (enter directory component, []) else (directory, component ++ [byte])) ([], [])
  enter directory component

/-- `import "./a"`, in the file `a`. -/
def selfImport : List AstUnit := [⟨⟨0, 0⟩, .importUnit [46, 47, 97]⟩]

def selfImporting : List Name → Option (List AstUnit) :=
  fun file => if file = [[97]] then some selfImport else none

/-- `./././a`, with a number of dots. -/
def dotted (n : Nat) : Name := (List.replicate n [46, 47]).flatten ++ [97]

theorem dotted_succ (n : Nat) : dotted (n + 1) = (List.replicate n [46, 47]).flatten ++ [46, 47, 97] := by
  simp [dotted, List.replicate_succ']

theorem dotted_length (n : Nat) : (dotted n).length = 2 * n + 1 := by
  simp [dotted]
  omega

theorem normalise_dotted (n : Nat) : normalise (dotted n) = [[97]] := by
  have dots (step : List Name × Name → UInt8 → List Name × Name) (same : [46, 47].foldl step ([], []) = ([], [])) :
      (List.replicate n [46, 47]).flatten.foldl step ([], []) = ([], []) := by
    induction n with
    | zero => rfl
    | succ n ih => rw [List.replicate_succ, List.flatten_cons, List.foldl_append, same, ih]
  rw [normalise, dotted, List.foldl_append, dots _ rfl]
  rfl

theorem importPath_dotted (n : Nat) : importPath (dotted n) [46, 47, 97] = dotted (n + 1) := by
  cases n with
  | zero => rfl
  | succ n =>
    have directory : basename (dotted (n + 1)) = (List.replicate n [46, 47]).flatten ++ [46] := by
      rw [basename, dotted_succ, List.reverse_append]
      simp
    rw [importPath, directory, if_neg (by simp), dotted_succ (n + 1), List.replicate_succ']
    simp

theorem imported_dotted (n : Nat) :
    Imported (fileSystem normalise selfImporting) [97] selfImport (dotted (n + 1)) := by
  induction n with
  | zero => exact .start (.head _)
  | succ n ih =>
    have contents : fileSystem normalise selfImporting (dotted (n + 1)) = some selfImport := by
      rw [fileSystem, normalise_dotted]
      rfl
    have paths : filePaths (fileSystem normalise selfImporting) (dotted (n + 1)) = some [dotted (n + 2)] := by
      rw [filePaths, contents, ← importPath_dotted (n + 1)]
      rfl
    exact .step ih paths (.head _)

/-- The search never ends: each turn puts one more dot in front of the path. -/
theorem self_import_never_ends :
    (∀ fuel, resolveImports (fileSystem normalise selfImporting) fuel [97] selfImport ([], []) = none) ∧
      ¬ResolvesOnce normalise selfImporting [97] selfImport := by
  have never (fuel : Nat) : resolveImports (fileSystem normalise selfImporting) fuel [97] selfImport ([], []) = none := by
    cases resolved : resolveImports (fileSystem normalise selfImporting) fuel [97] selfImport ([], []) with
    | none => rfl
    | some result =>
      obtain ⟨_, members⟩ := resolveImports_handled resolved
      have injective : Function.Injective fun n => dotted (n + 1) := by
        intro m n same
        have lengths := congrArg List.length same
        simp only [dotted_length] at lengths
        omega
      exact absurd (List.finite_toSet result.1)
        (Set.infinite_of_injective_forall_mem injective fun n => (members _).mpr (imported_dotted n))
  refine ⟨never, fun once => ?_⟩
  obtain ⟨fuel, handled, declared, resolved, _⟩ := once
  cases (never fuel).symm.trans resolved

/-- `import "b"` and `import "c"`. -/
def twoImports : List AstUnit := [⟨⟨0, 0⟩, .importUnit [98]⟩, ⟨⟨1, 0⟩, .importUnit [99]⟩]

/-- The file `a` imports `b` and `c`, which import each other. -/
def circular (file : List Name) : Option (List AstUnit) :=
  if file = [[97]] then some twoImports
  else if file = [[98]] then some [⟨⟨0, 0⟩, .importUnit [99]⟩]
  else if file = [[99]] then some [⟨⟨0, 0⟩, .importUnit [98]⟩]
  else none

theorem circular_imported {p : Name} (reached : Imported (fileSystem normalise circular) [97] twoImports p) :
    p = [98] ∨ p = [99] := by
  induction reached with
  | start member =>
    have paths : importPaths [97] twoImports = [[98], [99]] := rfl
    simpa [paths] using member
  | step _ opened member ih =>
    rcases ih with rfl | rfl <;>
    · cases opened
      rw [List.mem_singleton.mp member]
      decide

/-- Each of the two files is reached again, by the name that it has been reached by. -/
theorem resolveImports_circular : ResolvesOnce normalise circular [97] twoImports := by
  have finite : {f | circular f ≠ none}.Finite := by
    refine (List.finite_toSet [[[97]], [[98]], [[99]]]).subset fun f known => ?_
    by_contra other
    simp only [Set.mem_ofPred_eq, List.mem_cons, List.not_mem_nil, or_false, not_or] at other
    exact known (by simp [circular, other])
  refine (resolveImports_once normalise circular finite [97] twoImports fun p reached => ?_).mpr ?_
  · rcases circular_imported reached with rfl | rfl <;> decide
  · intro p reached q reached' same
    rcases circular_imported reached with rfl | rfl <;> rcases circular_imported reached' with rfl | rfl
    · rfl
    · exact absurd same (by decide)
    · exact absurd same (by decide)
    · rfl

end Low
