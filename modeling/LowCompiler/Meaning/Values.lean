import Mathlib
import LowCompiler.Ast.TypeEqual
import LowCompiler.Llvm.Execution

/-!
# Values, places and worlds

What expressions compute with: values that know the type they have in the machine, places
in memory, and a world that is read and written. Integers are numbers, and the result of
an operator is cut to the width of its operands.
-/

namespace Low

open Llvm (Ty Datum Pointer Platform)

/-! ### Values -/

structure Rvalue where
  type : Ty
  datum : Datum

structure Lvalue where
  type : Ty
  pointer : Pointer

def Lvalue.address (place : Lvalue) : Rvalue := ⟨.ptr place.type, .ptr place.pointer⟩

/-- A place some bytes further on. -/
def Lvalue.at (place : Lvalue) (type : Ty) (bytes : BitVec 64) : Lvalue :=
  ⟨type, { place.pointer with offset := place.pointer.offset + bytes }⟩

namespace Rvalue

def ofBits {width : Nat} (x : BitVec width) : Rvalue := ⟨.int width, .int width x⟩

def ofBool (b : Bool) : Rvalue := ⟨.int 1, .truth b⟩

def int? : Rvalue → Option (Σ width, BitVec width)
  | ⟨.int width, .int width' x⟩ => if width = width' then some ⟨width', x⟩ else none
  | _ => none

def bool? (v : Rvalue) : Option Bool := v.int?.bind fun ⟨width, x⟩ => if width = 1 then some (x.getLsbD 0) else none

def pointee : Rvalue → Option Lvalue
  | ⟨.ptr type, .ptr pointer⟩ => some ⟨type, pointer⟩
  | _ => none

/-- A field of a struct that is not in memory. -/
def field? (v : Rvalue) (i : Nat) : Option Rvalue :=
  match v.type with
  | .struct types => do return ⟨← types[i]?, ← v.datum.field? i⟩
  | _ => none

theorem int?_eq {v : Rvalue} {width : Nat} {x : BitVec width} :
    v.int? = some ⟨width, x⟩ ↔ v = ofBits x := by
  constructor
  · intro is
    unfold int? at is
    split at is
    · split at is
      · rename_i same
        cases is
        rw [same]
        rfl
      · cases is
    · cases is
  · intro is
    subst is
    exact if_pos rfl

theorem bool?_eq {v : Rvalue} {b : Bool} : v.bool? = some b ↔ v = ofBool b := by
  constructor
  · intro is
    obtain ⟨⟨width, x⟩, found, bit⟩ := Option.bind_eq_some_iff.mp is
    obtain rfl := int?_eq.mp found
    clear is
    dsimp only at bit
    split at bit
    case isFalse => cases bit
    case isTrue one =>
      subst one
      obtain rfl := Option.some.inj bit
      have same : x = BitVec.ofBool (x.getLsbD 0) := by
        apply BitVec.eq_of_getLsbD_eq
        intro i inside
        obtain rfl : i = 0 := by omega
        cases x.getLsbD 0 <;> rfl
      rw [ofBool, Datum.truth, ← same]
      rfl
  · intro is
    subst is
    cases b <;> rfl

theorem pointee_eq {v : Rvalue} {place : Lvalue} : v.pointee = some place ↔ v = place.address := by
  constructor
  · intro is
    unfold pointee at is
    split at is
    · cases is
      rfl
    · cases is
  · intro is
    subst is
    rfl

theorem field?_eq {v u : Rvalue} {i : Nat} (is : v.field? i = some u) :
    ∃ types, v.type = .struct types ∧ types[i]? = some u.type ∧ v.datum.field? i = some u.datum := by
  unfold field? at is
  split at is
  case h_2 => cases is
  case h_1 types typed =>
    obtain ⟨type, found, is⟩ := Option.bind_eq_some_iff.mp is
    obtain ⟨datum, there, is⟩ := Option.bind_eq_some_iff.mp is
    cases is
    exact ⟨types, typed, found, there⟩

end Rvalue

/-! ### Operators -/

/-- A number with that many bits can be negative, and has no more than these. -/
def HasRoom (width : Nat) (z : Int) : Prop := -2 ^ (width - 1) ≤ z ∧ z < 2 ^ (width - 1)

instance decidableHasRoom (width : Nat) (z : Int) : Decidable (HasRoom width z) :=
  inferInstanceAs (Decidable (_ ∧ _))

namespace BinaryOp
variable {M : Type} (platform : Platform M) (op : BinaryOp)

/-- A quotient is cut towards zero, and a shift is by less than the width. -/
def onNumbers {width : Nat} (x y : BitVec width) : Option (BitVec width) :=
  let cut := BitVec.ofInt width
  let quotient := x.toInt.tdiv y.toInt
  let divides := y.toInt ≠ 0 ∧ HasRoom width quotient
  match op with
  | .ADD => some (cut (x.toInt + y.toInt))
  | .SUB => some (cut (x.toInt - y.toInt))
  | .MUL => some (cut (x.toInt * y.toInt))
  | .DIV => if divides then some (cut quotient) else none
  | .MOD => if divides then some (cut (x.toInt.tmod y.toInt)) else none
  | .LEFT => if y.toNat < width then some (cut (x.toInt * 2 ^ y.toNat)) else none
  | .RIGHT => if y.toNat < width then some (cut (x.toInt / 2 ^ y.toNat)) else none
  | .BITWISE_AND => some (x &&& y)
  | .BITWISE_XOR => some (x ^^^ y)
  | .BITWISE_OR => some (x ||| y)
  | _ => none

def compares (x y : Int) : Option Bool :=
  match op with
  | .LT => some (x < y)
  | .GT => some (y < x)
  | .LE => some (x ≤ y)
  | .GE => some (y ≤ x)
  | .EQ => some (x = y)
  | .NE => some (x ≠ y)
  | _ => none

def onIntegers (l r : Rvalue) : Option Rvalue := do
  let ⟨width, x⟩ ← l.int?
  let ⟨width', y⟩ ← r.int?
  if same : width' = width then
    let y := y.cast same
    match op.compares x.toInt y.toInt with
    | some b => some (.ofBool b)
    | none => (op.onNumbers x y).map .ofBits
  else none

/-- There is no short cut: both operands have been evaluated. -/
def onBooleans (l r : Rvalue) : Option Rvalue := do
  let x ← l.bool?
  let y ← r.bool?
  match op with
  | .EQ => some (.ofBool (x == y))
  | .NE => some (.ofBool (x != y))
  | .AND => some (.ofBool (x && y))
  | .OR => some (.ofBool (x || y))
  | _ => none

def onReals (l r : Rvalue) : Option Rvalue :=
  let calculate (op : Llvm.RealOp) := (platform.real op l.datum r.datum).map (Rvalue.mk l.type)
  let compare (predicate : Llvm.RealPredicate) := (platform.compare predicate l.datum r.datum).map Rvalue.ofBool
  match op with
  | .ADD => calculate .add
  | .SUB => calculate .sub
  | .MUL => calculate .mul
  | .DIV => calculate .div
  | .MOD => calculate .rem
  | .LT => compare .olt
  | .GT => compare .ogt
  | .LE => compare .ole
  | .GE => compare .oge
  | .EQ => compare .oeq
  | .NE => compare .one
  | _ => none

end BinaryOp

/-- A cast between pointers, integers and booleans. Both types are resolved, and the second is laid
out as `dst`. A number keeps as much of it as there is room for. -/
def castValue {M : Type} (platform : Platform M) (fromType toType : AstType) (dst : Ty) (v : Rvalue) : Option Rvalue :=
  if typeEqual fromType toType then some v
  else
    match toType.kind with
    | .interfaceType _ => none
    | toKind =>
      if 0 < fromType.pointer then do
        let place ← v.pointee
        if 0 < toType.pointer then some ⟨dst, .ptr place.pointer⟩
        else
          match toKind, dst with
          | .integerType _, .int width => some (.ofBits ((platform.address place.pointer).setWidth width))
          | _, _ => none
      else
        match fromType.kind with
        | .integerType _ => do
          let ⟨_, x⟩ ← v.int?
          if 0 < toType.pointer then some ⟨dst, .ptr (platform.pointer (x.setWidth 64))⟩
          else
            match toKind, dst with
            | .integerType _, .int width => some (.ofBits (.ofInt width x.toInt))
            | _, _ => none
        | .booleanType => do
          let b ← v.bool?
          if 0 < toType.pointer then none
          else
            match toKind, dst with
            | .integerType _, .int width => some (.ofBits (BitVec.ofNat width b.toNat))
            | _, _ => none
        | _ => none

/-! ### Worlds -/

/-- What expressions read and change, and what could be seen of that from outside. -/
structure World (M : Type) where
  memory : M
  objects : Nat
  events : List Llvm.Event

abbrev Evaluation (M : Type) := StateT (World M) Option

def known {α : Type} (a? : Option α) : Evaluation M α := fun w => a?.map fun a => (a, w)

section Worlds
variable {M : Type} (platform : Platform M)

def readPlace (place : Lvalue) : Evaluation M Rvalue := fun w =>
  (platform.load w.memory place.pointer place.type).map fun datum => (⟨place.type, datum⟩, w)

def writePlace (place : Lvalue) (datum : Datum) : Evaluation M Unit := fun w =>
  some ((), { w with
    memory := platform.store w.memory place.pointer datum
    events := w.events ++ [.stored place.pointer datum] })

/-- A place in a new object. -/
def allocatePlace (type : Ty) (events : Pointer → List Llvm.Event) : Evaluation M Lvalue := fun w =>
  let pointer : Pointer := ⟨w.objects, 0⟩
  some (⟨type, pointer⟩, { w with objects := w.objects + 1, events := w.events ++ events pointer })

def freePlace (place : Lvalue) : Evaluation M Unit := fun w =>
  some ((), { w with events := w.events ++ [.freed place.pointer] })

/-- The result has the type that the type of the function says. -/
def applyFunction (function : Rvalue) (args : List Rvalue) : Evaluation M Rvalue := fun w =>
  match function.type with
  | .ptr (.func result _ _) =>
    (platform.call function.datum (args.map Rvalue.datum) w.memory w.objects).map fun (datum, memory, objects) =>
      (⟨result, datum⟩, { w with memory, objects })
  | _ => none

end Worlds

namespace Evaluation
variable {M α β : Type} {m : Evaluation M α} {k : α → Evaluation M β} {w : World M}

theorem bind_some {r : β × World M} : (m >>= k) w = some r ↔ ∃ a w', m w = some (a, w') ∧ k a w' = some r := by
  refine (Option.bind_eq_some_iff (x := m w)).trans ?_
  exact ⟨fun ⟨⟨a, w'⟩, first, rest⟩ => ⟨a, w', first, rest⟩, fun ⟨a, w', first, rest⟩ => ⟨(a, w'), first, rest⟩⟩

theorem known_some {a? : Option α} {r : α × World M} : known a? w = some r ↔ a? = some r.1 ∧ w = r.2 := by
  obtain ⟨a, w'⟩ := r
  cases a? <;> simp [known]

end Evaluation

end Low
