import LowCompiler.Llvm.Typing

/-!
# Values at run time

What the instructions on aggregates and addresses give, on a machine with addresses of 64
bits. The layout of structs and the places of the globals are those of the machine. The
other instructions are left open.
-/

namespace Llvm

inductive Val where
  | word (bits : BitVec 64)
  | aggregate (fields : List Val)

namespace Val

def word? : Val → Option (BitVec 64)
  | .word bits => some bits
  | .aggregate _ => none

def field? : Val → Nat → Option Val
  | .word _, _ => none
  | .aggregate fields, i => fields[i]?

def setField : Val → Nat → Val → Option Val
  | .word _, _, _ => none
  | .aggregate fields, i, value => if i < fields.length then some (.aggregate (fields.set i value)) else none

end Val

mutual

def Ty.zero : Ty → Val
  | .struct fields => .aggregate (Ty.zeros fields)
  | .array element length => .aggregate (List.replicate length element.zero)
  | .void | .int _ | .half | .float | .double | .fp128 | .ptr _ | .func _ _ _ => .word 0
termination_by structural t => t

def Ty.zeros : List Ty → List Val
  | [] => []
  | t :: ts => t.zero :: Ty.zeros ts
termination_by structural ts => ts

end

structure Machine where
  /-- Where a field begins in a struct. -/
  offset : List Ty → Nat → BitVec 64
  /-- The distance of two elements of an array. -/
  stride : Ty → BitVec 64
  bytes : stride (.int 8) = 1
  global : Nat → BitVec 64

/-- One activation of a function: what its instructions gave, and the memory that each of them found. -/
structure Frame where
  result : Nat → Val
  memory : Nat → BitVec 64 → Ty → Val

section Meaning
variable (machine : Machine) (frame : Frame)

/-- The value of an operand. Of the constants, only nulls are given one. -/
def Value.eval : Value → Option Val
  | .result n _ => some (frame.result n)
  | .global n _ => some (.word (machine.global n))
  | .constNull type => some type.zero
  | _ => none

/-- What an instruction gives, where this is laid down. -/
def Op.eval (n : Nat) : Op → Option Val
  | .load ptr =>
    match ptr.type with
    | .ptr t => do return frame.memory n (← (← ptr.eval machine frame).word?) t
    | _ => none
  | .ptrToInt value (.int 64) | .pointerCast value _ => value.eval machine frame
  | .gep ptr index [] =>
    match ptr.type, index.type with
    | .ptr t, .int 64 => do
      return .word ((← (← ptr.eval machine frame).word?) + machine.stride t * (← (← index.eval machine frame).word?))
    | _, _ => none
  | .structGep ptr field =>
    match ptr.type with
    | .ptr (.struct fields) => do return .word ((← (← ptr.eval machine frame).word?) + machine.offset fields field)
    | _ => none
  | .extractValue aggregate field => do (← aggregate.eval machine frame).field? field
  | .insertValue aggregate value field => do
    (← aggregate.eval machine frame).setField field (← value.eval machine frame)
  | _ => none

/-- The results are those of the instructions. -/
def Frame.Runs (ops : List Op) : Prop :=
  ∀ n op, ops[n]? = some op → ∀ val, op.eval machine frame n = some val → frame.result n = val

section Rules
variable {machine : Machine} {frame : Frame} {n field : Nat} {ptr index aggregate value : Value} {a b : BitVec 64}
  {vals : List Val} {val : Val} {t : Ty}

theorem eval_load (typed : ptr.type = .ptr t) (address : ptr.eval machine frame = some (.word a)) :
    (Op.load ptr).eval machine frame n = some (frame.memory n a t) := by
  simp [Op.eval, typed, address, Val.word?]

theorem eval_pointerCast (evaluated : value.eval machine frame = some val) :
    (Op.pointerCast value t).eval machine frame n = some val := evaluated

theorem eval_ptrToInt (evaluated : value.eval machine frame = some val) :
    (Op.ptrToInt value (.int 64)).eval machine frame n = some val := evaluated

theorem eval_gep_bytes (typed : ptr.type = .ptr (.int 8)) (typed' : index.type = .int 64)
    (address : ptr.eval machine frame = some (.word a)) (offset : index.eval machine frame = some (.word b)) :
    (Op.gep ptr index []).eval machine frame n = some (.word (a + b)) := by
  simp [Op.eval, typed, typed', address, offset, Val.word?, machine.bytes]

theorem eval_structGep {fields : List Ty} (typed : ptr.type = .ptr (.struct fields))
    (address : ptr.eval machine frame = some (.word a)) :
    (Op.structGep ptr field).eval machine frame n = some (.word (a + machine.offset fields field)) := by
  simp [Op.eval, typed, address, Val.word?]

theorem eval_extractValue (evaluated : aggregate.eval machine frame = some (.aggregate vals))
    (present : vals[field]? = some val) :
    (Op.extractValue aggregate field).eval machine frame n = some val := by
  simp [Op.eval, evaluated, Val.field?, present]

theorem eval_insertValue (evaluated : aggregate.eval machine frame = some (.aggregate vals))
    (inserted : value.eval machine frame = some val) (inside : field < vals.length) :
    (Op.insertValue aggregate value field).eval machine frame n = some (.aggregate (vals.set field val)) := by
  simp [Op.eval, evaluated, inserted, Val.setField, inside]

end Rules

end Meaning

end Llvm
