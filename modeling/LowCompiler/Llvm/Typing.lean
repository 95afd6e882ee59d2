import Mathlib.Data.List.Basic

/-!
# Typed instructions of LLVM

The types, values and instructions that a front end builds through the C interface,
with the typing rules of the language reference. The type of a result is defined for
every instruction, so that a front end can go on after it has built one that breaks
the rules; there it says nothing.
-/

namespace Llvm

inductive Ty where
  | void
  | int (width : Nat)
  | half
  | float
  | double
  | fp128
  | ptr (pointee : Ty)
  | func (result : Ty) (params : List Ty) (variadic : Bool)
  | struct (fields : List Ty)
  | array (element : Ty) (length : Nat)

namespace Ty

def IsInt (t : Ty) : Prop := ∃ width, t = .int width

def IsReal (t : Ty) : Prop := t = .half ∨ t = .float ∨ t = .double ∨ t = .fp128

def IsPtr (t : Ty) : Prop := ∃ pointee, t = .ptr pointee

mutual

/-- The type has a size. Only such values lie in memory. -/
def sized : Ty → Bool
  | .void | .func _ _ _ => false
  | .int _ | .half | .float | .double | .fp128 | .ptr _ => true
  | .struct fields => allSized fields
  | .array element _ => sized element
termination_by structural t => t

def allSized : List Ty → Bool
  | [] => true
  | t :: ts => sized t && allSized ts
termination_by structural ts => ts

end

@[simp] theorem sized_void : sized .void = false := rfl

@[simp] theorem sized_int (width : Nat) : sized (.int width) = true := rfl

@[simp] theorem sized_ptr (t : Ty) : sized (.ptr t) = true := rfl

@[simp] theorem sized_func (result : Ty) (params : List Ty) (variadic : Bool) :
    sized (.func result params variadic) = false := rfl

@[simp] theorem sized_array (element : Ty) (length : Nat) : sized (.array element length) = sized element := rfl

@[simp] theorem sized_struct (fields : List Ty) : sized (.struct fields) = fields.all sized := by
  have all : ∀ ts : List Ty, allSized ts = ts.all sized := by
    intro ts
    induction ts with
    | nil => rfl
    | cons t ts ih => rw [allSized, List.all_cons, ih]
  exact all fields

theorem IsReal.sized {t : Ty} (real : t.IsReal) : t.sized = true := by
  obtain rfl | rfl | rfl | rfl := real <;> rfl

@[simp] theorem isInt_int (width : Nat) : IsInt (.int width) := ⟨width, rfl⟩

@[simp] theorem isPtr_ptr (t : Ty) : IsPtr (.ptr t) := ⟨t, rfl⟩

@[simp] theorem not_isInt_ptr (t : Ty) : ¬IsInt (.ptr t) := nofun

@[simp] theorem not_isReal_ptr (t : Ty) : ¬IsReal (.ptr t) := nofun

/-- A pointer to a pointer, and so on. -/
def pointer (t : Ty) : Nat → Ty
  | 0 => t
  | n + 1 => .ptr (t.pointer n)

/-- The types that a `getelementptr` steps into behind its first index. Only arrays are indexed here. -/
def index (t : Ty) : Nat → Option Ty
  | 0 => some t
  | depth + 1 =>
    match t with
    | .array element _ => element.index depth
    | _ => none

end Ty

/-! ### Values -/

/-- Values are the results of instructions, the globals of a module, and constants. -/
inductive Value where
  | result (n : Nat) (type : Ty)
  | global (n : Nat) (type : Ty)
  | constInt (type : Ty) (n : Nat)
  | constIntOfString (type : Ty) (literal : List UInt8) (radix : Nat)
  | constRealOfString (type : Ty) (literal : List UInt8)
  | constNull (type : Ty)
  | constAllOnes (type : Ty)
  | sizeOf (type : Ty)
  | globalStringPtr (string : List UInt8)
  | trap

namespace Value

/-- `LLVMTypeOf`. -/
def type : Value → Ty
  | .result _ type | .global _ type | .constInt type _ | .constIntOfString type _ _
  | .constRealOfString type _ | .constNull type | .constAllOnes type => type
  | .sizeOf _ => .int 64
  | .globalStringPtr _ => .ptr (.int 8)
  | .trap => .ptr (.func .void [] false)

@[simp] theorem type_result (n : Nat) (t : Ty) : (Value.result n t).type = t := rfl

@[simp] theorem type_global (n : Nat) (t : Ty) : (Value.global n t).type = t := rfl

@[simp] theorem type_constNull (t : Ty) : (Value.constNull t).type = t := rfl

/-- What a constant may be made from. -/
def WellTyped : Value → Prop
  | .result _ _ | .global _ _ | .globalStringPtr _ | .trap => True
  | .constInt type _ | .constIntOfString type _ _ | .constAllOnes type => type.IsInt
  | .constRealOfString type _ => type.IsReal
  | .constNull type | .sizeOf type => type.sized = true

end Value

/-! ### Instructions -/

inductive IntOp where
  | add | sub | mul | sdiv | udiv | srem | shl | ashr | and | or | xor
  deriving DecidableEq, Repr

inductive RealOp where
  | add | sub | mul | div | rem
  deriving DecidableEq, Repr

inductive IntPredicate where
  | eq | ne | slt | sgt | sle | sge | ult
  deriving DecidableEq, Repr

inductive RealPredicate where
  | oeq | one | olt | ogt | ole | oge
  deriving DecidableEq, Repr

/-- Instructions that do not end a block. The blocks of a `phi` are numbers. -/
inductive Op where
  | alloca (type : Ty)
  | load (ptr : Value)
  | store (value ptr : Value)
  | malloc (type : Ty)
  | arrayMalloc (type : Ty) (size : Value)
  | free (ptr : Value)
  | int (op : IntOp) (lhs rhs : Value)
  | real (op : RealOp) (lhs rhs : Value)
  | icmp (predicate : IntPredicate) (lhs rhs : Value)
  | fcmp (predicate : RealPredicate) (lhs rhs : Value)
  | neg (value : Value)
  | fneg (value : Value)
  | not (value : Value)
  | intCast (value : Value) (type : Ty)
  | zext (value : Value) (type : Ty)
  | ptrToInt (value : Value) (type : Ty)
  | intToPtr (value : Value) (type : Ty)
  | pointerCast (value : Value) (type : Ty)
  | gep (ptr : Value) (index : Value) (inner : List Value)
  | structGep (ptr : Value) (field : Nat)
  | extractValue (aggregate : Value) (field : Nat)
  | insertValue (aggregate value : Value) (field : Nat)
  | phi (type : Ty) (incoming : List (Value × Nat))
  | call (callee : Value) (args : List Value)

namespace Op

/-- The type of the result. Instructions without one have type void. -/
def type : Op → Ty
  | .alloca type | .malloc type | .arrayMalloc type _ => .ptr type
  | .load ptr =>
    match ptr.type with
    | .ptr t => t
    | t => t
  | .store _ _ | .free _ => .void
  | .int _ lhs _ | .real _ lhs _ => lhs.type
  | .icmp _ _ _ | .fcmp _ _ _ => .int 1
  | .neg value | .fneg value | .not value => value.type
  | .intCast _ type | .zext _ type | .ptrToInt _ type | .intToPtr _ type | .pointerCast _ type => type
  | .gep ptr _ inner =>
    match ptr.type with
    | .ptr t => .ptr ((t.index inner.length).getD t)
    | t => t
  | .structGep ptr field =>
    match ptr.type with
    | .ptr (.struct fields) => .ptr ((fields[field]?).getD .void)
    | t => t
  | .extractValue aggregate field =>
    match aggregate.type with
    | .struct fields => (fields[field]?).getD .void
    | t => t
  | .insertValue aggregate _ _ => aggregate.type
  | .phi type _ => type
  | .call callee _ =>
    match callee.type with
    | .ptr (.func result _ _) => result
    | t => t

theorem type_load {ptr : Value} {t : Ty} (typed : ptr.type = .ptr t) : (load ptr).type = t := by
  simp [type, typed]

theorem type_structGep {ptr : Value} {fields : List Ty} {field : Nat} {t : Ty} (typed : ptr.type = .ptr (.struct fields))
    (present : fields[field]? = some t) : (structGep ptr field).type = .ptr t := by
  simp [type, typed, present]

theorem type_extractValue {aggregate : Value} {fields : List Ty} {field : Nat} {t : Ty}
    (typed : aggregate.type = .struct fields) (present : fields[field]? = some t) :
    (extractValue aggregate field).type = t := by
  simp [type, typed, present]

def WellTyped : Op → Prop
  | .alloca type | .malloc type => type.sized = true
  | .load ptr => ∃ t, ptr.type = .ptr t ∧ t.sized = true
  | .store value ptr => ptr.type = .ptr value.type ∧ value.type.sized = true
  | .arrayMalloc type size => type.sized = true ∧ size.type.IsInt
  | .free ptr => ptr.type.IsPtr
  | .int _ lhs rhs => lhs.type.IsInt ∧ rhs.type = lhs.type
  | .real _ lhs rhs => lhs.type.IsReal ∧ rhs.type = lhs.type
  | .icmp _ lhs rhs => (lhs.type.IsInt ∨ lhs.type.IsPtr) ∧ rhs.type = lhs.type
  | .fcmp _ lhs rhs => lhs.type.IsReal ∧ rhs.type = lhs.type
  | .neg value | .not value => value.type.IsInt
  | .fneg value => value.type.IsReal
  | .intCast value type => value.type.IsInt ∧ type.IsInt
  | .zext value type => ∃ n m, value.type = .int n ∧ type = .int m ∧ n ≤ m
  | .ptrToInt value type => value.type.IsPtr ∧ type.IsInt
  | .intToPtr value type => value.type.IsInt ∧ type.IsPtr
  | .pointerCast value type => value.type.IsPtr ∧ type.IsPtr
  | .gep ptr index inner =>
    (∃ t, ptr.type = .ptr t ∧ t.sized = true ∧ t.index inner.length ≠ none) ∧ ∀ i ∈ index :: inner, i.type.IsInt
  | .structGep ptr field =>
    ∃ fields, ptr.type = .ptr (.struct fields) ∧ fields.all Ty.sized = true ∧ field < fields.length
  | .extractValue aggregate field => ∃ fields, aggregate.type = .struct fields ∧ field < fields.length
  | .insertValue aggregate value field => ∃ fields, aggregate.type = .struct fields ∧ fields[field]? = some value.type
  | .phi type incoming => type.sized = true ∧ ∀ i ∈ incoming, i.1.type = type
  | .call callee args => ∃ result params variadic, callee.type = .ptr (.func result params variadic) ∧
      (args.map Value.type = params ∨ variadic = true ∧ params <+: args.map Value.type)

end Op

end Llvm
