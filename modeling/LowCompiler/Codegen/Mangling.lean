import LowCompiler.Codegen.Names

/-!
# Names of functions in packages

A function gets the name of its package in front of its own. Both are joined by an underscore,
which either may contain, in a buffer of a fixed size.
-/

namespace Low

/-- What stands before the name of a function. -/
def qualifier : Option Name → Name
  | none => []
  | some pkg => pkg ++ PKG_SEPARATOR

/-- The name fits into the buffer with its terminator, where one is used. -/
def FitsBuffer : Option Name → Name → Prop
  | none, _ => True
  | some pkg, name => pkg.length + 1 + name.length < 100

/-- The name of the first function begins with what the second package has beyond the first. -/
def Spills (package : Option Name) (name : Name) (package' : Option Name) (name' : Name) : Prop :=
  ∃ more, more ≠ [] ∧ qualifier package' = qualifier package ++ more ∧ name = more ++ name'

section Mangling
variable {package package' : Option Name} {name name' : Name}

theorem qualifier_inj (same : qualifier package = qualifier package') : package = package' := by
  cases package with
  | none =>
    cases package' with
    | none => rfl
    | some pkg => simp [qualifier, PKG_SEPARATOR] at same
  | some pkg =>
    cases package' with
    | none => simp [qualifier, PKG_SEPARATOR] at same
    | some pkg' =>
      have equal : pkg = pkg' := List.append_cancel_right same
      rw [equal]

theorem mangleFuncName_iff (other : name ≠ mainName) :
    mangleFuncName package name = some (qualifier package ++ name) ↔ FitsBuffer package name := by
  cases package with
  | none => simp [mangleFuncName, qualifier, FitsBuffer]
  | some pkg => simp [mangleFuncName, qualifier, FitsBuffer, other]

/-- Two functions share a name when one name takes over where the other's package ends. -/
theorem qualified_eq_iff : qualifier package ++ name = qualifier package' ++ name' ↔
    package = package' ∧ name = name' ∨ Spills package name package' name' ∨
      Spills package' name' package name := by
  rw [List.append_eq_append_iff]
  constructor
  · rintro (⟨more, front, back⟩ | ⟨more, front, back⟩)
    · by_cases empty : more = []
      · subst empty
        rw [List.append_nil] at front
        exact .inl ⟨(qualifier_inj front).symm, back⟩
      · exact .inr (.inl ⟨more, empty, front, back⟩)
    · by_cases empty : more = []
      · subst empty
        rw [List.append_nil] at front
        exact .inl ⟨qualifier_inj front, back.symm⟩
      · exact .inr (.inr ⟨more, empty, front, back⟩)
  · rintro (⟨rfl, rfl⟩ | ⟨more, _, front, back⟩ | ⟨more, _, front, back⟩)
    · exact .inl ⟨[], by simp, by simp⟩
    · exact .inl ⟨more, front, back⟩
    · exact .inr ⟨more, front, back⟩

theorem Spills.differ (spills : Spills package name package' name') : ¬(package = package' ∧ name = name') := by
  rintro ⟨rfl, rfl⟩
  obtain ⟨more, nonempty, front, _⟩ := spills
  exact nonempty (List.append_right_eq_self.mp front.symm)

/-- Two functions get their full names, and these tell them apart, just when both names fit and
neither spills over. -/
theorem mangled_apart_iff (other : name ≠ mainName) (other' : name' ≠ mainName) :
    (mangleFuncName package name = some (qualifier package ++ name) ∧
      mangleFuncName package' name' = some (qualifier package' ++ name') ∧
      (mangleFuncName package name = mangleFuncName package' name' → package = package' ∧ name = name')) ↔
    FitsBuffer package name ∧ FitsBuffer package' name' ∧ ¬Spills package name package' name' ∧
      ¬Spills package' name' package name := by
  rw [mangleFuncName_iff other, mangleFuncName_iff other']
  refine and_congr_right fun fits => and_congr_right fun fits' => ?_
  rw [(mangleFuncName_iff other).mpr fits, (mangleFuncName_iff other').mpr fits', Option.some.injEq, qualified_eq_iff]
  constructor
  · intro apart
    constructor
    · intro spills
      exact spills.differ (apart (.inr (.inl spills)))
    · intro spills
      obtain ⟨rfl, rfl⟩ := apart (.inr (.inr spills))
      exact spills.differ ⟨rfl, rfl⟩
  · rintro ⟨first, second⟩ (same | spills | spills)
    · exact same
    · exact absurd spills first
    · exact absurd spills second

/-- `f` in the packages `a` and `b`. -/
theorem mangled_apart_packages : mangleFuncName (some [97]) [102] ≠ mangleFuncName (some [98]) [102] := by
  have letters (p q : UInt8) : ¬Spills (some [p]) [102] (some [q]) [102] := by
    rintro ⟨more, nonempty, front, _⟩
    have length := congrArg List.length front
    simp [qualifier, PKG_SEPARATOR] at length
    exact nonempty length
  have fits (p : UInt8) : FitsBuffer (some [p]) [102] := by simp [FitsBuffer]
  have law := (@mangled_apart_iff (some [97]) (some [98]) [102] [102] (by decide) (by decide)).mpr
    ⟨fits 97, fits 98, letters 97 98, letters 98 97⟩
  intro same
  obtain ⟨wrong, _⟩ := law.2.2 same
  simp at wrong

/-- `b_c` in the package `a` and `c` in the package `a_b` get one name, and a long name has no room. -/
theorem mangled_collision :
    mangleFuncName (some [97]) [98, 95, 99] = mangleFuncName (some [97, 95, 98]) [99] ∧
      mangleFuncName (some (List.replicate 60 97)) (List.replicate 60 98) = none := by
  constructor
  · rfl
  · rfl

end Mangling

end Low
