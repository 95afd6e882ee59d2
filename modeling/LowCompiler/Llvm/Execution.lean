import LowCompiler.Cfg.Builder
import LowCompiler.Cfg.Machine
import LowCompiler.Llvm.Typing
import Mathlib.Data.Nat.Init
import Mathlib.Logic.Function.Basic

/-!
# Running a function

A function is a graph of blocks whose instructions are numbered, and a number names the
result. A pointer is an object and an offset into it in bytes. Each allocation makes a new
object, and none fails. Layout, memory, floating point and called functions are those of a
platform.
-/

namespace Llvm

open Low (Instr)

structure Pointer where
  object : Nat
  offset : BitVec 64
  deriving DecidableEq, Repr

inductive Datum where
  | int (width : Nat) (bits : BitVec width)
  | real (type : Ty) (bits : Nat)
  | ptr (pointer : Pointer)
  | aggregate (fields : List Datum)

namespace Datum

inductive HasType : Datum → Ty → Prop where
  | int (width : Nat) (bits : BitVec width) : HasType (.int width bits) (.int width)
  | real {type : Ty} (isReal : type.IsReal) (bits : Nat) : HasType (.real type bits) type
  | ptr (pointer : Pointer) (type : Ty) : HasType (.ptr pointer) (.ptr type)
  | struct {fields : List Datum} {types : List Ty} (typed : List.Forall₂ HasType fields types) :
    HasType (.aggregate fields) (.struct types)
  | array {fields : List Datum} {type : Ty} (typed : ∀ field ∈ fields, HasType field type) :
    HasType (.aggregate fields) (.array type fields.length)

def field? : Datum → Nat → Option Datum
  | .aggregate fields, i => fields[i]?
  | _, _ => none

def setField : Datum → Nat → Datum → Option Datum
  | .aggregate fields, i, datum => if i < fields.length then some (.aggregate (fields.set i datum)) else none
  | _, _, _ => none

end Datum

mutual

/-- The datum of `LLVMConstNull`. -/
def Ty.null : Ty → Datum
  | .int width => .int width 0
  | .half => .real .half 0
  | .float => .real .float 0
  | .double => .real .double 0
  | .fp128 => .real .fp128 0
  | .ptr _ => .ptr ⟨0, 0⟩
  | .struct fields => .aggregate (Ty.nulls fields)
  | .array element length => .aggregate (List.replicate length element.null)
  | .void | .func _ _ _ => .aggregate []
termination_by structural t => t

def Ty.nulls : List Ty → List Datum
  | [] => []
  | t :: ts => t.null :: Ty.nulls ts
termination_by structural ts => ts

end

mutual

theorem Ty.null_hasType : {t : Ty} → t.sized = true → t.null.HasType t
  | .int width, _ => .int width 0
  | .half, _ => .real (.inl rfl) 0
  | .float, _ => .real (.inr (.inl rfl)) 0
  | .double, _ => .real (.inr (.inr (.inl rfl))) 0
  | .fp128, _ => .real (.inr (.inr (.inr rfl))) 0
  | .ptr t, _ => .ptr _ t
  | .struct fields, sized => .struct (Ty.nulls_hasType (by simpa [List.all_eq_true] using sized))
  | .array element length, sized => by
    have same : (List.replicate length element.null).length = length := List.length_replicate
    have typed : (Datum.aggregate (List.replicate length element.null)).HasType
        (.array element (List.replicate length element.null).length) :=
      .array fun field member => (List.eq_of_mem_replicate member) ▸ Ty.null_hasType sized
    rwa [same] at typed

theorem Ty.nulls_hasType : {ts : List Ty} → (∀ t ∈ ts, t.sized = true) →
    List.Forall₂ Datum.HasType (Ty.nulls ts) ts
  | [], _ => .nil
  | _ :: _, sized => .cons (Ty.null_hasType (sized _ (.head _))) (Ty.nulls_hasType fun t member => sized t (.tail _ member))

end

/-! ### Platforms -/

/-- What a target lays down, and what lies outside of the function. -/
structure Platform (M : Type) where
  /-- The distance of two elements of an array. -/
  stride : Ty → BitVec 64
  fieldOffset : List Ty → Nat → BitVec 64
  address : Pointer → BitVec 64
  pointer : BitVec 64 → Pointer
  /-- Globals, and constants that are given by a text or by the target. -/
  constant : Value → Option Datum
  load : M → Pointer → Ty → Option Datum
  store : M → Pointer → Datum → M
  load_stored : ∀ {m p d t}, d.HasType t → load (store m p d) p t = some d
  load_apart : ∀ {m p q d t}, p.object ≠ q.object → load (store m p d) q t = load m q t
  real : RealOp → Datum → Datum → Option Datum
  compare : RealPredicate → Datum → Datum → Option Bool
  negate : Datum → Option Datum
  /-- What a called function returns, the memory it leaves, and the objects there are then. -/
  call : Datum → List Datum → M → Nat → Option (Datum × M × Nat)

/-- What others can see of a function. -/
inductive Event where
  | allocated (pointer : Pointer) (type : Ty) (count : Nat)
  | stored (pointer : Pointer) (datum : Datum)
  | freed (pointer : Pointer)

/-- An activation of a function. `previous` is the block that was left last. -/
structure Activation (M : Type) where
  registers : Nat → Option Datum
  memory : M
  /-- The objects with smaller numbers exist. -/
  objects : Nat
  previous : Nat
  block : Nat
  index : Nat

/-! ### Instructions -/

/-- The result of an integer instruction, where it is defined. -/
def IntOp.apply {width : Nat} (op : IntOp) (x y : BitVec width) : Option (BitVec width) :=
  match op with
  | .add => some (x + y)
  | .sub => some (x - y)
  | .mul => some (x * y)
  | .sdiv => if y = 0 ∨ x = BitVec.intMin width ∧ y = -1 then none else some (x.sdiv y)
  | .udiv => if y = 0 then none else some (x / y)
  | .srem => if y = 0 ∨ x = BitVec.intMin width ∧ y = -1 then none else some (x.srem y)
  | .shl => if width ≤ y.toNat then none else some (x <<< y.toNat)
  | .ashr => if width ≤ y.toNat then none else some (x.sshiftRight y.toNat)
  | .and => some (x &&& y)
  | .or => some (x ||| y)
  | .xor => some (x ^^^ y)

def IntPredicate.holds {width : Nat} (predicate : IntPredicate) (x y : BitVec width) : Bool :=
  match predicate with
  | .eq => x == y
  | .ne => x != y
  | .slt => x.slt y
  | .sgt => y.slt x
  | .sle => x.sle y
  | .sge => y.sle x
  | .ult => x.ult y

def Datum.truth (b : Bool) : Datum := .int 1 (BitVec.ofBool b)

section Execution
variable {M : Type} (platform : Platform M)

def Value.fetch (registers : Nat → Option Datum) : Value → Option Datum
  | .result n _ => registers n
  | .constInt (.int width) n => some (.int width (BitVec.ofNat width n))
  | .constNull type => some type.null
  | .constAllOnes (.int width) => some (.int width (BitVec.allOnes width))
  | value => platform.constant value

/-- Both operands of an instruction on integers. -/
def Datum.ints {α : Type} (f : {width : Nat} → BitVec width → BitVec width → Option α) :
    Datum → Datum → Option α
  | .int width x, .int width' y => if same : width = width' then f x (y.cast same.symm) else none
  | _, _ => none

/-- The offset that the inner indices of a `getelementptr` come to. -/
def innerOffset : Ty → List Datum → Option (BitVec 64)
  | _, [] => some 0
  | .array element _, .int _ i :: rest => do
    return platform.stride element * i.signExtend 64 + (← innerOffset element rest)
  | _, _ :: _ => none

def Op.compute (registers : Nat → Option Datum) (previous : Nat) : Op → Option Datum
  | .int op lhs rhs => do
    (← lhs.fetch platform registers).ints (fun x y => (op.apply x y).map (Datum.int _)) (← rhs.fetch platform registers)
  | .real op lhs rhs => do platform.real op (← lhs.fetch platform registers) (← rhs.fetch platform registers)
  | .icmp predicate lhs rhs => do
    match ← lhs.fetch platform registers, ← rhs.fetch platform registers with
    | .ptr p, .ptr q => some (.truth (predicate.holds (platform.address p) (platform.address q)))
    | x, y => x.ints (fun x y => some (.truth (predicate.holds x y))) y
  | .fcmp predicate lhs rhs => do
    return .truth (← platform.compare predicate (← lhs.fetch platform registers) (← rhs.fetch platform registers))
  | .neg value => do
    match ← value.fetch platform registers with
    | .int width x => some (.int width (-x))
    | _ => none
  | .fneg value => do platform.negate (← value.fetch platform registers)
  | .not value => do
    match ← value.fetch platform registers with
    | .int width x => some (.int width (~~~x))
    | _ => none
  | .intCast value (.int width) => do
    match ← value.fetch platform registers with
    | .int _ x => some (.int width (x.signExtend width))
    | _ => none
  | .zext value (.int width) => do
    match ← value.fetch platform registers with
    | .int _ x => some (.int width (x.setWidth width))
    | _ => none
  | .ptrToInt value (.int width) => do
    match ← value.fetch platform registers with
    | .ptr p => some (.int width ((platform.address p).setWidth width))
    | _ => none
  | .intToPtr value _ => do
    match ← value.fetch platform registers with
    | .int _ x => some (.ptr (platform.pointer (x.setWidth 64)))
    | _ => none
  | .pointerCast value _ => do
    match ← value.fetch platform registers with
    | .ptr p => some (.ptr p)
    | _ => none
  | .gep ptr index inner => do
    match ptr.type, ← ptr.fetch platform registers, ← index.fetch platform registers with
    | .ptr t, .ptr p, .int _ i =>
      let rest ← innerOffset platform t (← inner.mapM (Value.fetch platform registers))
      some (.ptr { p with offset := p.offset + platform.stride t * i.signExtend 64 + rest })
    | _, _, _ => none
  | .structGep ptr field => do
    match ptr.type, ← ptr.fetch platform registers with
    | .ptr (.struct fields), .ptr p => some (.ptr { p with offset := p.offset + platform.fieldOffset fields field })
    | _, _ => none
  | .extractValue aggregate field => do (← aggregate.fetch platform registers).field? field
  | .insertValue aggregate value field => do
    (← aggregate.fetch platform registers).setField field (← value.fetch platform registers)
  | .phi _ incoming => do
    let (value, _) ← incoming.find? fun entry => entry.2 == previous
    value.fetch platform registers
  | _ => none

structure Effect (M : Type) where
  result : Option Datum
  memory : M
  objects : Nat
  events : List Event

namespace Activation
variable (s : Activation M)

def after (number : Nat) (effect : Effect M) : Activation M :=
  { s with registers := Function.update s.registers number effect.result, memory := effect.memory,
           objects := effect.objects, index := s.index + 1 }

def jump (block : Nat) : Activation M :=
  { s with previous := s.block, block := block, index := 0 }

def gives (datum : Datum) : Effect M := ⟨some datum, s.memory, s.objects, []⟩

def allocates (events : Pointer → List Event) : Effect M :=
  let pointer : Pointer := ⟨s.objects, 0⟩
  ⟨some (.ptr pointer), s.memory, s.objects + 1, events pointer⟩

end Activation

def Op.effect (s : Activation M) : Op → Option (Effect M)
  | .alloca _ => some (s.allocates fun _ => [])
  | .malloc type => some (s.allocates fun p => [.allocated p type 1])
  | .arrayMalloc type size => do
    match ← size.fetch platform s.registers with
    | .int _ n => some (s.allocates fun p => [.allocated p type n.toNat])
    | _ => none
  | .load ptr => do
    match ptr.type, ← ptr.fetch platform s.registers with
    | .ptr t, .ptr p => do return s.gives (← platform.load s.memory p t)
    | _, _ => none
  | .store value ptr => do
    match ← ptr.fetch platform s.registers, ← value.fetch platform s.registers with
    | .ptr p, d => some ⟨none, platform.store s.memory p d, s.objects, [.stored p d]⟩
    | _, _ => none
  | .free ptr => do
    match ← ptr.fetch platform s.registers with
    | .ptr p => some ⟨none, s.memory, s.objects, [.freed p]⟩
    | _ => none
  | .call .trap _ => none
  | .call callee args => do
    let values ← args.mapM (Value.fetch platform s.registers)
    let (result, memory, objects) ← platform.call (← callee.fetch platform s.registers) values s.memory s.objects
    return ⟨some result, memory, objects, []⟩
  | op => do return s.gives (← op.compute platform s.registers s.previous)

abbrev Graph := Nat → List (Instr (Nat × Op) Value)

inductive Outcome where
  | returned (result : Option Datum)
  | stuck

def step (graph : Graph) (s : Activation M) : List Event × (Activation M ⊕ Outcome) :=
  match (graph s.block)[s.index]? with
  | some (.plain (number, op)) =>
    match op.effect platform s with
    | some effect => (effect.events, .inl (s.after number effect))
    | none => ([], .inr .stuck)
  | some (.br block) => ([], .inl (s.jump block))
  | some (.condBr cond onTrue onFalse) =>
    match cond.fetch platform s.registers with
    | some (.int 1 b) => ([], .inl (s.jump (if b = 1 then onTrue else onFalse)))
    | _ => ([], .inr .stuck)
  | some (.ret value) => ([], .inr (.returned (value.bind (Value.fetch platform s.registers))))
  | some .unreachable | none => ([], .inr .stuck)

def machine (graph : Graph) : Low.Machine (Activation M) Event Outcome := ⟨step platform graph⟩

def Reaches (graph : Graph) (s : Activation M) (events : List Event) (s' : Activation M) : Prop :=
  ∃ count, (machine platform graph).run count (.inl s) = (events, .inl s')

def Ahead (graph : Graph) (s : Activation M) (code : List (Instr (Nat × Op) Value)) : Prop :=
  code <+: (graph s.block).drop s.index

def executeAll : List (Nat × Op) → Activation M → Option (List Event × Activation M)
  | [], s => some ([], s)
  | (number, op) :: rest, s => do
    let effect ← op.effect platform s
    let (later, s) ← executeAll rest (s.after number effect)
    return (effect.events ++ later, s)

end Execution

/-- The value is no result with a number from `n` on. -/
def Value.Below (n : Nat) : Value → Prop
  | .result m _ => m < n
  | _ => True

section Operands
variable {M : Type} {platform : Platform M} {registers : Nat → Option Datum} {value : Value} {n m : Nat}

theorem Value.Below.mono (below : value.Below n) (le : n ≤ m) : value.Below m := by
  cases value with
  | result k type => exact Nat.lt_of_lt_of_le below le
  | _ => trivial

theorem Value.Below.fetch (below : value.Below n) (le : n ≤ m) (datum : Option Datum) :
    value.fetch platform (Function.update registers m datum) = value.fetch platform registers := by
  cases value with
  | result k type =>
    have apart : k ≠ m := Nat.ne_of_lt (Nat.lt_of_lt_of_le below le)
    simp [Value.fetch, Function.update_of_ne apart]
  | constInt type k => cases type <;> rfl
  | constAllOnes type => cases type <;> rfl
  | _ => rfl

@[simp] theorem fetch_result {type : Ty} : (Value.result n type).fetch platform registers = registers n := rfl

@[simp] theorem fetch_constNull {type : Ty} :
    (Value.constNull type).fetch platform registers = some type.null := rfl

@[simp] theorem fetch_constInt {width k : Nat} :
    (Value.constInt (.int width) k).fetch platform registers = some (.int width (BitVec.ofNat width k)) := rfl

@[simp] theorem ints_same {α : Type} {width : Nat} (f : {width : Nat} → BitVec width → BitVec width → Option α)
    (x y : BitVec width) : (Datum.int width x).ints f (.int width y) = f x y := by
  simp [Datum.ints]

end Operands

/-! ### What an instruction does -/

section Effects
variable {M : Type} {platform : Platform M} {s s' : Activation M} {value ptr : Value} {p : Pointer} {d d' : Datum}

attribute [local simp] Op.effect Op.compute

@[simp] theorem after_registers (number : Nat) (effect : Effect M) :
    (s.after number effect).registers = Function.update s.registers number effect.result := rfl

@[simp] theorem after_memory (number : Nat) (effect : Effect M) :
    (s.after number effect).memory = effect.memory := rfl

@[simp] theorem after_objects (number : Nat) (effect : Effect M) :
    (s.after number effect).objects = effect.objects := rfl

@[simp] theorem jump_registers (block : Nat) : (s.jump block).registers = s.registers := rfl

@[simp] theorem gives_result : (s.gives d).result = some d := rfl

@[simp] theorem gives_memory : (s.gives d).memory = s.memory := rfl

@[simp] theorem gives_objects : (s.gives d).objects = s.objects := rfl

@[simp] theorem gives_events : (s.gives d).events = [] := rfl

theorem effect_load {t : Ty} (typed : ptr.type = .ptr t) (pointed : ptr.fetch platform s.registers = some (.ptr p))
    (loaded : platform.load s.memory p t = some d) : (Op.load ptr).effect platform s = some (s.gives d) := by
  simp [typed, pointed, loaded]

theorem effect_store (stored : value.fetch platform s.registers = some d)
    (pointed : ptr.fetch platform s.registers = some (.ptr p)) :
    (Op.store value ptr).effect platform s = some ⟨none, platform.store s.memory p d, s.objects, [.stored p d]⟩ := by
  simp [stored, pointed]

theorem effect_free (pointed : ptr.fetch platform s.registers = some (.ptr p)) :
    (Op.free ptr).effect platform s = some ⟨none, s.memory, s.objects, [.freed p]⟩ := by
  simp [pointed]

theorem effect_arrayMalloc {type : Ty} {width : Nat} {n : BitVec width}
    (counted : value.fetch platform s.registers = some (.int width n)) :
    (Op.arrayMalloc type value).effect platform s =
      some ⟨some (.ptr ⟨s.objects, 0⟩), s.memory, s.objects + 1, [.allocated ⟨s.objects, 0⟩ type n.toNat]⟩ := by
  simp [counted, Activation.allocates]

theorem effect_int {op : IntOp} {lhs rhs : Value} {width : Nat} {x y z : BitVec width}
    (left : lhs.fetch platform s.registers = some (.int width x))
    (right : rhs.fetch platform s.registers = some (.int width y)) (applied : op.apply x y = some z) :
    (Op.int op lhs rhs).effect platform s = some (s.gives (.int width z)) := by
  simp [left, right, applied]

theorem effect_icmp {p : IntPredicate} {lhs rhs : Value} {width : Nat} {x y : BitVec width}
    (left : lhs.fetch platform s.registers = some (.int width x))
    (right : rhs.fetch platform s.registers = some (.int width y)) :
    (Op.icmp p lhs rhs).effect platform s = some (s.gives (.truth (p.holds x y))) := by
  simp [left, right]

theorem effect_not_truth {b : Bool} (evaluated : value.fetch platform s.registers = some (.truth b)) :
    (Op.not value).effect platform s = some (s.gives (.truth !b)) := by
  cases b <;> simp [evaluated, Datum.truth]

theorem effect_intCast {width width' : Nat} {x : BitVec width}
    (cast : value.fetch platform s.registers = some (.int width x)) :
    (Op.intCast value (.int width')).effect platform s = some (s.gives (.int width' (x.signExtend width'))) := by
  simp [cast]

theorem effect_zext {width width' : Nat} {x : BitVec width}
    (extended : value.fetch platform s.registers = some (.int width x)) :
    (Op.zext value (.int width')).effect platform s = some (s.gives (.int width' (x.setWidth width'))) := by
  simp [extended]

theorem effect_pointerCast {t : Ty} (pointed : value.fetch platform s.registers = some (.ptr p)) :
    (Op.pointerCast value t).effect platform s = some (s.gives (.ptr p)) := by
  simp [pointed]

theorem effect_gep {t : Ty} {width : Nat} {i : BitVec width} (typed : ptr.type = .ptr t)
    (pointed : ptr.fetch platform s.registers = some (.ptr p))
    (counted : value.fetch platform s.registers = some (.int width i)) :
    (Op.gep ptr value []).effect platform s =
      some (s.gives (.ptr { p with offset := p.offset + platform.stride t * i.signExtend 64 })) := by
  simp [typed, pointed, counted, innerOffset]

theorem effect_extractValue {field : Nat} (aggregate : value.fetch platform s.registers = some d)
    (is : d.field? field = some d') : (Op.extractValue value field).effect platform s = some (s.gives d') := by
  simp [aggregate, is]

theorem effect_insertValue {aggregate : Value} {field : Nat} {d'' : Datum}
    (fetched : aggregate.fetch platform s.registers = some d) (inserted : value.fetch platform s.registers = some d')
    (is : d.setField field d' = some d'') :
    (Op.insertValue aggregate value field).effect platform s = some (s.gives d'') := by
  simp [fetched, inserted, is]

end Effects

theorem executeAll_cons {M : Type} {platform : Platform M} {s s' : Activation M} {number : Nat} {op : Op} {ops : List (Nat × Op)} {effect : Effect M} {events : List Event}
    (first : op.effect platform s = some effect)
    (rest : executeAll platform ops (s.after number effect) = some (events, s')) :
    executeAll platform ((number, op) :: ops) s = some (effect.events ++ events, s') := by
  simp [executeAll, first, rest]

/-! ### Runs -/

section Runs
variable {M : Type} {platform : Platform M} {graph : Graph} {s s' s'' : Activation M} {events later : List Event}
  {rest : List (Instr (Nat × Op) Value)}

theorem Reaches.refl (platform : Platform M) (graph : Graph) (s : Activation M) :
    Reaches platform graph s [] s :=
  ⟨0, rfl⟩

theorem Reaches.trans (first : Reaches platform graph s events s')
    (second : Reaches platform graph s' later s'') :
    Reaches platform graph s (events ++ later) s'' := by
  obtain ⟨m, first⟩ := first
  obtain ⟨n, second⟩ := second
  exact ⟨m + n, Low.Machine.run_trans first second⟩

theorem Reaches.single (taken : step platform graph s = (events, .inl s')) :
    Reaches platform graph s events s' :=
  ⟨1, Low.Machine.run_one.trans taken⟩

theorem Ahead.head {instr : Instr (Nat × Op) Value} (ahead : Ahead graph s (instr :: rest)) :
    (graph s.block)[s.index]? = some instr := by
  obtain ⟨more, same⟩ := ahead
  have head : ((graph s.block).drop s.index)[0]? = some instr := by rw [← same]; rfl
  simpa using head

theorem Ahead.tail {instr : Instr (Nat × Op) Value} (ahead : Ahead graph s (instr :: rest))
    (block : s'.block = s.block) (index : s'.index = s.index + 1) : Ahead graph s' rest := by
  obtain ⟨more, same⟩ := ahead
  refine ⟨more, ?_⟩
  rw [block, index, ← List.drop_drop, ← same]
  rfl

theorem reaches_all {ops : List (Nat × Op)} (ahead : Ahead graph s (ops.map Instr.plain ++ rest))
    (run : executeAll platform ops s = some (events, s')) :
    Reaches platform graph s events s' ∧ Ahead graph s' rest := by
  induction ops generalizing s events with
  | nil =>
    cases run
    exact ⟨.refl platform graph _, ahead⟩
  | cons entry ops ih =>
    obtain ⟨number, op⟩ := entry
    obtain ⟨effect, first, run⟩ := Option.bind_eq_some_iff.mp run
    obtain ⟨⟨late, s₂⟩, others, run⟩ := Option.bind_eq_some_iff.mp run
    cases run
    have tail : Ahead graph (s.after number effect) (ops.map Instr.plain ++ rest) := ahead.tail rfl rfl
    obtain ⟨reached, left⟩ := ih tail others
    refine ⟨.trans (.single ?_) reached, left⟩
    simp only [step, ahead.head, first]

theorem reaches_br {block : Nat} (ahead : Ahead graph s (.br block :: rest)) :
    Reaches platform graph s [] (s.jump block) :=
  .single (by simp only [step, ahead.head])

theorem reaches_condBr {cond : Value} {onTrue onFalse : Nat} {b : Bool}
    (ahead : Ahead graph s (.condBr cond onTrue onFalse :: rest))
    (evaluated : cond.fetch platform s.registers = some (.truth b)) :
    Reaches platform graph s [] (s.jump (if b then onTrue else onFalse)) := by
  refine .single ?_
  simp only [step, ahead.head, evaluated, Datum.truth]
  cases b <;> rfl

/-- A phi takes the value of the block that was left. -/
theorem reaches_phi {number k : Nat} {type : Ty} {incoming : List (Value × Nat)} {value : Value} {datum : Datum}
    (ahead : Ahead graph s (.plain (number, .phi type incoming) :: rest))
    (chosen : incoming.find? (fun entry => entry.2 == s.previous) = some (value, k))
    (evaluated : value.fetch platform s.registers = some datum) :
    Reaches platform graph s [] (s.after number (s.gives datum)) := by
  refine .single ?_
  simp only [step, ahead.head, Op.effect, Op.compute, chosen, Option.bind_eq_bind, Option.bind_some, evaluated,
    Option.pure_def]
  rfl

/-- A run that cannot go on has come to one state only. -/
theorem Reaches.unique (first : Reaches platform graph s events s') (second : Reaches platform graph s later s'')
    (stuck : step platform graph s' = ([], .inr .stuck))
    (stuck' : step platform graph s'' = ([], .inr .stuck)) :
    events = later ∧ s' = s'' := by
  obtain ⟨m, first⟩ := first
  obtain ⟨n, second⟩ := second
  rcases Nat.le_total m n with le | le
  · obtain ⟨more, rfl⟩ := Nat.exists_eq_add_of_le le
    rw [Low.Machine.run_add, first] at second
    cases more with
    | zero => simpa [Low.Machine.run] using second
    | succ more =>
      rw [Low.Machine.run_step stuck] at second
      simp at second
  · obtain ⟨more, rfl⟩ := Nat.exists_eq_add_of_le le
    rw [Low.Machine.run_add, second] at first
    cases more with
    | zero => exact (by simpa [Low.Machine.run, eq_comm] using first)
    | succ more =>
      rw [Low.Machine.run_step stuck'] at first
      simp at first

/-- A graph that has more code runs as far. -/
theorem Reaches.mono {graph' : Graph} (more : ∀ n, graph n <+: graph' n)
    (reached : Reaches platform graph s events s') :
    Reaches platform graph' s events s' := by
  obtain ⟨count, run⟩ := reached
  induction count generalizing s events with
  | zero =>
    cases run
    exact .refl platform graph' _
  | succ count ih =>
    rcases first : step platform graph s with ⟨early, next | outcome⟩
    · rw [Low.Machine.run_step first] at run
      obtain ⟨rfl, rest⟩ := Prod.mk.inj run
      have later : (machine platform graph).run count (.inl next) = (_, .inl s') := Prod.ext rfl rest
      refine .trans (.single ?_) (ih later)
      rw [step] at first ⊢
      cases here : (graph s.block)[s.index]? with
      | none => simp [here] at first
      | some instr =>
        obtain ⟨rest, same⟩ := more s.block
        rw [here] at first
        rw [← same, List.getElem?_append_left (List.getElem?_eq_some_iff.mp here).1, here]
        exact first
    · rw [Low.Machine.run_step first] at run
      simp at run

end Runs

/-- A platform without floating point and without other functions. A datum is found where it was
stored, and takes eight bytes, or none if it has no fields. -/
def cells : Platform (Pointer → Option Datum) where
  stride
    | .struct [] => 0
    | _ => 8
  fieldOffset _ field := BitVec.ofNat 64 (8 * field)
  address p := p.offset
  pointer offset := ⟨0, offset⟩
  constant
    | .constIntOfString (.int width) literal _ =>
      some (.int width (BitVec.ofNat width (literal.foldl (fun n c => 10 * n + (c.toNat - 48)) 0)))
    | _ => none
  load memory p _ := memory p
  store memory p d := Function.update memory p (some d)
  load_stored _ := Function.update_self _ _ _
  load_apart apart := Function.update_of_ne (fun same => apart (congrArg Pointer.object same).symm) _ _
  real _ _ _ := none
  compare _ _ _ := none
  negate _ := none
  call _ _ _ _ := none

end Llvm
