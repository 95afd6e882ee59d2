import LowCompiler.Ast.Syntax
import Mathlib.Data.List.Forall2

/-!
# Equality of types

`type_equal` of `ast.c`. What a type says is split in three: its head, which is
all but an array's length and the types below; the length; and the types below.
The code compares them with one connective wrong: at an array type it takes
equal lengths or equal elements.
-/

namespace Low

mutual

/-- `type_equal`. Arrays are the same when their lengths are or their elements are. -/
def typeEqual : AstType → AstType → Bool
  | .mk p k, .mk q l => p == q && kindEqual k l
termination_by structural t => t

/-- The `switch` over the kind. -/
def kindEqual : TypeKind AstType → TypeKind AstType → Bool
  | .noType, .noType | .voidType, .voidType | .booleanType, .booleanType
  | .placeholderType, .placeholderType => true
  | .integerType w, .integerType v => w == v
  | .floatType w, .floatType v => w == v
  | .namedType n, .namedType m => n == m
  | .funcType r as, .funcType s bs => typeEqual r s && argsEqual as bs
  | .structType ms, .structType ns => structMembersEqual ms ns
  | .sliceType t, .sliceType s => typeEqual t s
  | .arrayType t m, .arrayType s n => m == n || typeEqual t s
  | .interfaceType ms, .interfaceType ns => interfaceMembersEqual ms ns
  | _, _ => false
termination_by structural k => k

/-- The comparison of the counts, and the loop over the arguments. -/
def argsEqual : List AstType → List AstType → Bool
  | [], [] => true
  | a :: as, b :: bs => typeEqual a b && argsEqual as bs
  | _, _ => false
termination_by structural as => as

def structMembersEqual : List (StructMember AstType) → List (StructMember AstType) → Bool
  | [], [] => true
  | ⟨m, a⟩ :: ms, ⟨n, b⟩ :: ns => m == n && typeEqual a b && structMembersEqual ms ns
  | _, _ => false
termination_by structural ms => ms

def interfaceMembersEqual : List (InterfaceMember AstType) → List (InterfaceMember AstType) → Bool
  | [], [] => true
  | .field m a :: ms, .field n b :: ns => m == n && typeEqual a b && interfaceMembersEqual ms ns
  | .function m r as :: ms, .function n s bs :: ns =>
    m == n && typeEqual r s && argsEqual as bs && interfaceMembersEqual ms ns
  | _, _ => false
termination_by structural ms => ms

end

/-! ### Heads, lengths and the types below -/

namespace InterfaceMember

variable {T S : Type}

def map (f : T → S) : InterfaceMember T → InterfaceMember S
  | .field name type => .field name (f type)
  | .function name returnType args => .function name (f returnType) (args.map f)

def parts : InterfaceMember T → List T
  | .field _ type => [type]
  | .function _ returnType args => returnType :: args

end InterfaceMember

namespace TypeKind

variable {T S : Type}

def parts : TypeKind T → List T
  | .funcType returnType args => returnType :: args
  | .structType members => members.map StructMember.type
  | .arrayType type _ => [type]
  | .sliceType type => [type]
  | .interfaceType members => members.flatMap InterfaceMember.parts
  | _ => []

def length? : TypeKind T → Option Nat
  | .arrayType _ length => some length
  | _ => none

/-- The kind without the types below and without the length of an array. -/
def head : TypeKind T → TypeKind Unit
  | .noType => .noType
  | .voidType => .voidType
  | .booleanType => .booleanType
  | .integerType width => .integerType width
  | .floatType width => .floatType width
  | .funcType _ args => .funcType () (args.map fun _ => ())
  | .namedType name => .namedType name
  | .structType members => .structType (members.map fun m => ⟨m.name, ()⟩)
  | .arrayType _ _ => .arrayType () 0
  | .sliceType _ => .sliceType ()
  | .interfaceType members => .interfaceType (members.map (InterfaceMember.map fun _ => ()))
  | .placeholderType => .placeholderType

end TypeKind

/-- Induction over the types below. -/
theorem AstType.induct {P : AstType → Prop} (step : ∀ p k, (∀ t ∈ k.parts, P t) → P (.mk p k)) (t : AstType) :
    P t := by
  have none {t : AstType} : t ∈ ([] : List AstType) → P t := fun member => absurd member List.not_mem_nil
  have one {t : AstType} (h : P t) : ∀ s ∈ [t], P s := fun s member => List.mem_singleton.mp member ▸ h
  have cons {α : Type} {x : α} {xs : List α} {Q : α → Prop} (head : Q x) (tail : ∀ y ∈ xs, Q y) : ∀ y ∈ x :: xs, Q y :=
    List.forall_mem_cons.mpr ⟨head, tail⟩
  refine AstType.rec (motive_1 := P) (motive_2 := fun k => ∀ t ∈ k.parts, P t)
    (motive_3 := fun ts => ∀ t ∈ ts, P t) (motive_4 := fun ms => ∀ m ∈ ms, P m.type)
    (motive_5 := fun ms => ∀ m ∈ ms, ∀ t ∈ m.parts, P t) (motive_6 := fun m => P m.type)
    (motive_7 := fun m => ∀ t ∈ m.parts, P t) step
    (fun _ => none) (fun _ => none) (fun _ => none) (fun _ _ => none) (fun _ _ => none)
    (fun _ _ => cons) (fun _ _ => none) ?structs (fun _ _ => one) (fun _ => one) ?interface (fun _ => none)
    (fun _ => none) (fun _ _ => cons) ?noMembers
    (fun _ _ head tail => List.forall_mem_cons.mpr ⟨head, tail⟩)
    ?noInterface
    (fun _ _ head tail => List.forall_mem_cons.mpr ⟨head, tail⟩)
    (fun _ _ h => h) (fun _ _ => one) (fun _ _ _ => cons) t
  case structs =>
    intro members ih t member
    obtain ⟨m, present, rfl⟩ := List.mem_map.mp member
    exact ih m present
  case interface =>
    intro members ih t member
    obtain ⟨m, present, below⟩ := List.mem_flatMap.mp member
    exact ih m present t below
  case noMembers => exact fun m member => absurd member List.not_mem_nil
  case noInterface => exact fun m member => absurd member List.not_mem_nil

/-! ### What the code compares -/

section Lists
variable {as bs : List AstType}

theorem argsEqual_iff : argsEqual as bs = true ↔ List.Forall₂ (fun a b => typeEqual a b = true) as bs := by
  induction as generalizing bs with
  | nil => cases bs <;> simp [argsEqual]
  | cons a as ih => cases bs <;> simp [argsEqual, ih]

theorem structMembersEqual_iff {ms ns : List (StructMember AstType)} :
    structMembersEqual ms ns = true ↔
      (ms.map fun m => (⟨m.name, ()⟩ : StructMember Unit)) = ns.map (fun n => ⟨n.name, ()⟩) ∧
        List.Forall₂ (fun a b => typeEqual a b = true) (ms.map StructMember.type) (ns.map StructMember.type) := by
  induction ms generalizing ns with
  | nil => cases ns <;> simp [structMembersEqual]
  | cons m ms ih =>
    cases ns with
    | nil => simp [structMembersEqual]
    | cons n ns =>
      simp [structMembersEqual, ih]
      tauto

theorem forall₂_append_iff {α β : Type} {R : α → β → Prop} {as xs : List α} {bs ys : List β}
    (length : as.length = bs.length) :
    List.Forall₂ R (as ++ xs) (bs ++ ys) ↔ List.Forall₂ R as bs ∧ List.Forall₂ R xs ys := by
  induction as generalizing bs with
  | nil =>
    obtain rfl := List.length_eq_zero_iff.mp length.symm
    simp
  | cons a as ih =>
    cases bs with
    | nil => cases length
    | cons b bs => simp [ih (Nat.succ.inj length), and_assoc]

theorem map_unit_eq {α : Type} {as bs : List α} :
    as.map (fun _ => ()) = bs.map (fun _ => ()) ↔ as.length = bs.length := by
  simp [List.map_const', List.replicate_inj]

theorem interfaceMembersEqual_iff {ms ns : List (InterfaceMember AstType)} :
    interfaceMembersEqual ms ns = true ↔
      ms.map (InterfaceMember.map fun _ => ()) = ns.map (InterfaceMember.map fun _ => ()) ∧
        List.Forall₂ (fun a b => typeEqual a b = true) (ms.flatMap InterfaceMember.parts)
          (ns.flatMap InterfaceMember.parts) := by
  induction ms generalizing ns with
  | nil => cases ns <;> simp [interfaceMembersEqual]
  | cons m ms ih =>
    cases ns with
    | nil => cases m <;> simp [interfaceMembersEqual]
    | cons n ns =>
      cases m with
      | field name type =>
        cases n with
        | field name' type' =>
          simp [interfaceMembersEqual, InterfaceMember.map, InterfaceMember.parts, ih]
          tauto
        | function => simp [interfaceMembersEqual, InterfaceMember.map]
      | function name returnType args =>
        cases n with
        | field => simp [interfaceMembersEqual, InterfaceMember.map]
        | function name' returnType' args' =>
          simp only [interfaceMembersEqual, Bool.and_eq_true, beq_iff_eq, argsEqual_iff, ih, List.map_cons,
            InterfaceMember.map, List.cons.injEq, InterfaceMember.function.injEq, map_unit_eq, true_and,
            List.flatMap_cons, InterfaceMember.parts, List.cons_append, List.forall₂_cons]
          constructor
          · rintro ⟨⟨⟨rfl, head⟩, args⟩, same, below⟩
            exact ⟨⟨⟨rfl, args.length_eq⟩, same⟩, head, (forall₂_append_iff args.length_eq).mpr ⟨args, below⟩⟩
          · rintro ⟨⟨⟨rfl, length⟩, same⟩, head, both⟩
            obtain ⟨args, below⟩ := (forall₂_append_iff length).mp both
            exact ⟨⟨⟨rfl, head⟩, args⟩, same, below⟩

end Lists

/-- The code compares pointers and heads, and then the lengths or the types below. -/
theorem typeEqual_iff {p q : Nat} {k l : TypeKind AstType} :
    typeEqual (.mk p k) (.mk q l) = true ↔
      p = q ∧ k.head = l.head ∧ ((k.length? ≠ none ∧ k.length? = l.length?) ∨
        List.Forall₂ (fun a b => typeEqual a b = true) k.parts l.parts) := by
  simp only [typeEqual, Bool.and_eq_true, beq_iff_eq]
  refine and_congr_right fun _ => ?_
  cases k <;> cases l
  case funcType.funcType r as s bs =>
    simp only [kindEqual, Bool.and_eq_true, argsEqual_iff, TypeKind.head, TypeKind.funcType.injEq, true_and,
      map_unit_eq, TypeKind.length?, TypeKind.parts, List.forall₂_cons, ne_eq, not_true_eq_false, false_and,
      false_or]
    exact ⟨fun h => ⟨h.2.length_eq, h⟩, And.right⟩
  all_goals
    simp [kindEqual, TypeKind.head, TypeKind.length?, TypeKind.parts, structMembersEqual_iff,
      interfaceMembersEqual_iff]

/-! ### When the comparison is right -/

/-- The types differ at some place in more than the length of an array, and every array type on the way
there has different lengths in the two. -/
inductive Differ : AstType → AstType → Prop where
  | here {p q : Nat} {k l : TypeKind AstType} : p ≠ q ∨ k.head ≠ l.head → Differ (.mk p k) (.mk q l)
  | inside {p q : Nat} {k l : TypeKind AstType} {a b : AstType} (i : Nat) :
      k.parts[i]? = some a → l.parts[i]? = some b → k.length? = none ∨ k.length? ≠ l.length? →
      Differ a b → Differ (.mk p k) (.mk q l)

theorem head_parts_length (k : TypeKind AstType) : k.head.parts.length = k.parts.length := by
  cases k with
  | structType members => simp [TypeKind.head, TypeKind.parts]
  | interfaceType members =>
    have part (m : InterfaceMember AstType) : (m.map fun _ => ()).parts.length = m.parts.length := by
      cases m <;> simp [InterfaceMember.map, InterfaceMember.parts]
    simp [TypeKind.head, TypeKind.parts, List.length_flatMap, Function.comp_def, part]
  | _ => simp [TypeKind.head, TypeKind.parts]

theorem typeEqual_refl (a : AstType) : typeEqual a a = true := by
  induction a using AstType.induct with
  | step p k ih => exact typeEqual_iff.mpr ⟨rfl, rfl, .inr (List.forall₂_same.mpr ih)⟩

theorem typeEqual_symm {a b : AstType} (same : typeEqual a b = true) : typeEqual b a = true := by
  induction a using AstType.induct generalizing b with
  | step p k ih =>
    obtain ⟨q, l⟩ := b
    obtain ⟨pointer, head, below⟩ := typeEqual_iff.mp same
    refine typeEqual_iff.mpr ⟨pointer.symm, head.symm, ?_⟩
    rcases below with ⟨array, length⟩ | parts
    · exact .inl ⟨length ▸ array, length.symm⟩
    · have flipped : List.Forall₂ (fun a b => a ∈ k.parts ∧ typeEqual a b = true) k.parts l.parts :=
        List.forall₂_and_left _ _ |>.mpr ⟨fun a member => member, parts⟩
      exact .inr (flipped.imp fun a b both => ih a both.1 both.2).flip

/-- The code tells two types apart just when they differ in the sense above. -/
theorem typeEqual_false_iff (a b : AstType) : typeEqual a b = false ↔ Differ a b := by
  constructor
  · intro apart
    induction a using AstType.induct generalizing b with
    | step p k ih =>
      obtain ⟨q, l⟩ := b
      by_cases pointer : p = q
      · by_cases head : k.head = l.head
        · have not : ¬((k.length? ≠ none ∧ k.length? = l.length?) ∨
              List.Forall₂ (fun a b => typeEqual a b = true) k.parts l.parts) := by
            intro below
            rw [typeEqual_iff.mpr ⟨pointer, head, below⟩] at apart
            cases apart
          obtain ⟨lengths, parts⟩ := not_or.mp not
          have count : k.parts.length = l.parts.length := by
            rw [← head_parts_length, head, head_parts_length]
          simp only [List.forall₂_iff_get, not_and, not_forall] at parts
          obtain ⟨i, left, right, different⟩ := parts count
          refine .inside i (List.getElem?_eq_getElem left) (List.getElem?_eq_getElem right) ?_
            (ih _ (List.getElem_mem left) _ (Bool.not_eq_true _ ▸ different))
          by_cases array : k.length? = none
          · exact .inl array
          · exact .inr fun same => lengths ⟨array, same⟩
        · exact .here (.inr head)
      · exact .here (.inl pointer)
  · intro differ
    induction differ with
    | here different =>
      refine Bool.eq_false_iff.mpr fun same => ?_
      obtain ⟨pointer, head, _⟩ := typeEqual_iff.mp same
      exact different.elim (· pointer) (· head)
    | inside i left right lengths _ ih =>
      refine Bool.eq_false_iff.mpr fun same => ?_
      obtain ⟨_, _, ⟨array, length⟩ | parts⟩ := typeEqual_iff.mp same
      · exact lengths.elim array (· length)
      · obtain ⟨_, all⟩ := List.forall₂_iff_get.mp parts
        obtain ⟨low, rfl⟩ := List.getElem?_eq_some_iff.mp left
        obtain ⟨high, rfl⟩ := List.getElem?_eq_some_iff.mp right
        have equal := all i low high
        simp only [List.get_eq_getElem] at equal
        rw [ih] at equal
        cases equal

/-- The code compares two types rightly just when they are the same or differ in the sense above. In any
case it is reflexive and symmetric. -/
theorem typeEqual_decides (a b : AstType) :
    ((typeEqual a b = true ↔ a = b) ↔ a = b ∨ Differ a b) ∧ typeEqual a a = true ∧
      typeEqual a b = typeEqual b a := by
  refine ⟨?_, typeEqual_refl a, Bool.eq_iff_iff.mpr ⟨typeEqual_symm, typeEqual_symm⟩⟩
  rw [← typeEqual_false_iff]
  constructor
  · intro decides
    cases compared : typeEqual a b with
    | false => exact .inr rfl
    | true => exact .inl (decides.mp compared)
  · rintro (rfl | apart)
    · exact ⟨fun _ => rfl, fun _ => typeEqual_refl _⟩
    · refine ⟨fun same => ?_, ?_⟩
      · rw [apart] at same
        cases same
      · rintro rfl
        exact typeEqual_refl _

namespace AstType

def boolean : AstType := .mk 0 .booleanType

def integer (width : Nat) : AstType := .mk 0 (.integerType width)

def array (type : AstType) (length : Nat) : AstType := .mk 0 (.arrayType type length)

end AstType

/-- An array of three booleans equals one of three integers, and that one an array of four integers; the
first and the last are told apart. -/
theorem arrays_not_told_apart :
    typeEqual (.array .boolean 3) (.array (.integer 32) 3) = true ∧
      AstType.array .boolean 3 ≠ .array (.integer 32) 3 ∧
      typeEqual (.array (.integer 32) 3) (.array (.integer 32) 4) = true ∧
      typeEqual (.array .boolean 3) (.array (.integer 32) 4) = false := by
  refine ⟨by decide, fun same => ?_, by decide, by decide⟩
  injection same with _ kind
  injection kind with element _
  injection element with _ element
  cases element

end Low
