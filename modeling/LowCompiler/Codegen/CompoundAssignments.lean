import LowCompiler.Codegen.ArraySlices
import LowCompiler.Codegen.Selection

/-!
# Compound assignments

The code for `t op= e`, beside the code for `t = t op e`. Both load, compute and store.
The instruction for `/` is another one, integers and floating point are not told apart,
and the value of the expression is that of the operand.
-/

namespace Low

open Stateful
open Llvm (Op IntOp Ty Platform Activation Datum Pointer executeAll)

/-- An assignment with its operator, the instruction that is built for it, and the instruction for
the operator on integers. -/
inductive Compound : AssignmentOp → BinaryOp → IntOp → IntOp → Prop where
  | add : Compound .ADD_ASSIGN .ADD .add .add
  | sub : Compound .SUB_ASSIGN .SUB .sub .sub
  | mul : Compound .MUL_ASSIGN .MUL .mul .mul
  | div : Compound .DIV_ASSIGN .DIV .udiv .sdiv

/-- A value of an integer type or of a floating point type. -/
inductive Numeric : AstType → Datum → Prop where
  | int {width : Nat} (x : BitVec width) : Numeric (.mk 0 (.integerType width)) (.int width x)
  | real {width : Nat} (type : Ty) (bits : Nat) : Numeric (.mk 0 (.floatType width)) (.real type bits)

section Code
variable {codegen : Expr → Bool → Codegen Llvm.Value} {target expr : Expr} {op : AssignmentOp} {binary : BinaryOp}
  {ours theirs : IntOp} {s s' : Building} {result : Llvm.Value}

def operating (n : Nat) (op : IntOp) (ptr old value : Llvm.Value) : List Op :=
  [.int op old value, .store (.result n (Op.int op old value).type) ptr]

def combining (n : Nat) (ours : IntOp) (ptr value : Llvm.Value) : List Op :=
  .load ptr :: operating (n + 1) ours ptr (.result n (Op.load ptr).type) value

theorem codegenAssignmentExpr_compound (compound : Compound op binary ours theirs)
    (run : codegenAssignmentExpr codegen target expr op s = .ok (result, s')) :
    ∃ ptr s₁ s₂, codegen target true s = .ok (ptr, s₁) ∧ codegen expr false s₁ = .ok (result, s₂) ∧
      s' = s₂.pushAll (combining s₂.results ours ptr result) := by
  obtain ⟨ptr, s₁, targeted, run⟩ := bind_ok.mp run
  obtain ⟨value, s₂, valued, run⟩ := bind_ok.mp run
  obtain ⟨new, s₃, combined, run⟩ := bind_ok.mp run
  obtain ⟨_, s₄, stored, run⟩ := bind_ok.mp run
  cases (build_run _ _).symm.trans stored
  cases run
  refine ⟨ptr, s₁, s₂, targeted, valued, ?_⟩
  cases compound with
  | add | sub | mul | div =>
    obtain ⟨old, s₅, loaded, computed⟩ := bind_ok.mp combined
    cases (build_run _ _).symm.trans loaded
    cases (build_run _ _).symm.trans computed
    rfl

theorem codegenAssignmentExpr_plain (run : codegenAssignmentExpr codegen target expr .ASSIGN s = .ok (result, s')) :
    ∃ ptr s₁ s₂, codegen target true s = .ok (ptr, s₁) ∧ codegen expr false s₁ = .ok (result, s₂) ∧
      s' = s₂.push (.op (.store result ptr)) := by
  obtain ⟨ptr, s₁, targeted, run⟩ := bind_ok.mp run
  obtain ⟨value, s₂, valued, run⟩ := bind_ok.mp run
  obtain ⟨new, s₃, combined, run⟩ := bind_ok.mp run
  obtain ⟨_, s₄, stored, run⟩ := bind_ok.mp run
  cases combined
  cases (build_run _ _).symm.trans stored
  cases run
  exact ⟨ptr, s₁, s₂, targeted, valued, rfl⟩

theorem codegenBinaryExpr_number {loc : Loc} {width : Nat} {lvalue : Bool} (compound : Compound op binary ours theirs)
    (typed : target.type = .mk 0 (.integerType width) ∨ target.type = .mk 0 (.floatType width))
    (run : codegenBinaryExpr codegen loc target expr binary lvalue s = .ok (result, s')) :
    ∃ old t₁ value t₂ instr, codegen target false s = .ok (old, t₁) ∧ codegen expr false t₁ = .ok (value, t₂) ∧
      (target.type = .mk 0 (.integerType width) → instr = .int theirs old value) ∧
      result = .result t₂.results instr.type ∧ s' = t₂.push (.op instr) := by
  have known : (target.type.noKind && expr.type.noKind) = false := by
    obtain typed | typed := typed <;> rw [typed] <;> rfl
  simp only [codegenBinaryExpr, known, Bool.false_eq_true, if_false] at run
  by_cases same : typeEqual target.type expr.type = true
  · simp only [same, Bool.not_true, Bool.false_eq_true, if_false] at run
    obtain ⟨_, t₀, allowed, run⟩ := bind_ok.mp run
    obtain rfl : s = t₀ := by
      cases lvalue <;> cases allowed
      rfl
    obtain ⟨old, t₁, left, run⟩ := bind_ok.mp run
    obtain ⟨value, t₂, right, run⟩ := bind_ok.mp run
    refine ⟨old, t₁, value, t₂, ?_⟩
    obtain typed | typed := typed
    · rw [typed] at run
      cases compound with
      | add | sub | mul | div =>
        cases (build_run _ _).symm.trans run
        exact ⟨_, left, right, fun _ => rfl, rfl, rfl⟩
    · rw [typed] at run
      cases compound with
      | add | sub | mul | div =>
        cases (build_run _ _).symm.trans run
        refine ⟨_, left, right, fun integer => ?_, rfl, rfl⟩
        cases typed.symm.trans integer
  · simp only [Bool.eq_false_iff.mpr same, Bool.not_false, if_true] at run
    cases run

end Code

/-! ### What it stores -/

section Running
variable {M : Type} {platform : Platform M} {a after : Activation M} {s : Building} {ptr value old : Llvm.Value} {p : Pointer}
  {ours theirs : IntOp} {t : Ty} {d r l : Datum} {events : List Llvm.Event}

def combined (op : IntOp) (x y : Datum) : Option Datum := x.ints (fun x y => (op.apply x y).map (Datum.int _)) y

theorem effect_combined {a : Activation M} {op : IntOp} (left : old.fetch platform a.registers = some l)
    (right : value.fetch platform a.registers = some r) :
    (Op.int op old value).effect platform a = (combined op l r).map a.gives := by
  simp only [Op.effect, Op.compute, left, right, Option.bind_eq_bind, Option.bind_some]
  change (combined op l r).bind _ = _
  rw [Option.map_eq_bind]
  rfl

theorem operating_run {n : Nat} {op : IntOp} (below : ptr.Below n) (pointed : ptr.fetch platform a.registers = some (.ptr p))
    (left : old.fetch platform a.registers = some l) (right : value.fetch platform a.registers = some r) {v : Datum}
    (computed : combined op l r = some v) :
    ∃ after, executeAll platform (numberedFrom n (operating n op ptr old value)) a = some ([.stored p v], after) ∧
      after.registers = Function.update (Function.update a.registers n (some v)) (n + 1) none := by
  have computes : (Op.int op old value).effect platform a = some (a.gives v) := by
    rw [effect_combined left right, computed]
    rfl
  let a₁ := a.after n (a.gives v)
  have pointed' : ptr.fetch platform a₁.registers = some (.ptr p) := (below.fetch (Nat.le_refl _) _).trans pointed
  have stores : (Op.store (.result n (Op.int op old value).type) ptr).effect platform a₁ =
      some ⟨none, platform.store a₁.memory p v, a₁.objects, [.stored p v]⟩ :=
    Llvm.effect_store (Function.update_self _ _ _) pointed'
  exact ⟨_, Llvm.executeAll_cons computes (Llvm.executeAll_cons stores rfl), rfl⟩

/-- Both operands of a compound assignment have been evaluated. -/
structure Operands (platform : Platform M) (s : Building) (a : Activation M) (ptr value : Llvm.Value) (p : Pointer) (t : Ty)
    (d r : Datum) : Prop where
  here : s.Here a
  typed : ptr.type = .ptr t
  pointed : ptr.fetch platform a.registers = some (.ptr p)
  loaded : platform.load a.memory p t = some d
  fetched : value.fetch platform a.registers = some r

theorem Operands.finishes (operands : Operands platform s a ptr value p t d r) (sound : s.Sound) (below : ptr.Below s.results)
    (below' : value.Below s.results) {v : Datum} (computed : combined ours d r = some v) :
    ∃ after, (s.pushAll (combining s.results ours ptr value)).Finishes platform a [.stored p v] after ∧
      value.fetch platform after.registers = some r := by
  obtain ⟨here, typed, pointed, loaded, fetched⟩ := operands
  have loads : (Op.load ptr).effect platform a = some (a.gives d) := Llvm.effect_load typed pointed loaded
  let a₁ := a.after s.results (a.gives d)
  have left : (Llvm.Value.result s.results (Op.load ptr).type).fetch platform a₁.registers = some d := Function.update_self _ _ _
  have right : value.fetch platform a₁.registers = some r := (below'.fetch (Nat.le_refl _) _).trans fetched
  have pointed' : ptr.fetch platform a₁.registers = some (.ptr p) := (below.fetch (Nat.le_refl _) _).trans pointed
  obtain ⟨after, run, registers⟩ := operating_run (below.mono (Nat.le_succ _)) pointed' left right computed
  refine ⟨after, here.all sound (.refl _) (Llvm.executeAll_cons loads run), ?_⟩
  rw [registers, below'.fetch (Nat.le_add_right _ 2), below'.fetch (Nat.le_succ _), right]

theorem Operands.not_finishes (operands : Operands platform s a ptr value p t d r) (sound : s.Sound)
    (below : ptr.Below s.results) (below' : value.Below s.results) (failed : combined ours d r = none) :
    ¬(s.pushAll (combining s.results ours ptr value)).Finishes platform a events after := by
  obtain ⟨here, typed, pointed, loaded, fetched⟩ := operands
  have computes : Building.Computes platform a s.results [] [.load ptr] [d] := by
    refine .cons (fun x knows => Llvm.effect_load typed ((knows.fetch below).trans pointed) ?_) .nil
    rw [knows.memory, loaded]
  have continues : (s.pushAll ([.load ptr] ++ [.int ours (.result s.results (Op.load ptr).type) value])).Continues
      (s.pushAll (combining s.results ours ptr value)).block := Building.continues_push _ _
  refine here.not_finishes sound continues computes fun x knows => ?_
  have left : (Llvm.Value.result s.results (Op.load ptr).type).fetch platform x.registers = some d := knows.new 0 d rfl
  rw [effect_combined left ((knows.fetch below').trans fetched), failed]
  rfl

/-- Nothing else is stored than what is computed, and the value of the expression stays what it was. -/
theorem Operands.stored (operands : Operands platform s a ptr value p t d r) (sound : s.Sound) (below : ptr.Below s.results)
    (below' : value.Below s.results) {v : Datum}
    (finishes : (s.pushAll (combining s.results ours ptr value)).Finishes platform a [.stored p v] after) :
    combined ours d r = some v ∧ value.fetch platform after.registers = some r := by
  cases computed : combined ours d r with
  | none => exact absurd finishes (operands.not_finishes sound below below' computed)
  | some x =>
    obtain ⟨after', finishes', fetched⟩ := operands.finishes sound below below' computed
    obtain ⟨same, rfl⟩ := finishes'.unique finishes
    cases same
    exact ⟨rfl, fetched⟩

/-- Both operands of an operator have been evaluated, and the place for its result. -/
structure PlainOperands (platform : Platform M) (s : Building) (a : Activation M) (ptr old value : Llvm.Value) (p : Pointer)
    (l r : Datum) : Prop where
  here : s.Here a
  pointed : ptr.fetch platform a.registers = some (.ptr p)
  left : old.fetch platform a.registers = some l
  right : value.fetch platform a.registers = some r

theorem PlainOperands.finishes (operands : PlainOperands platform s a ptr old value p l r) (sound : s.Sound)
    (below : ptr.Below s.results) {v : Datum} (computed : combined theirs l r = some v) :
    ∃ after, (s.pushAll (operating s.results theirs ptr old value)).Finishes platform a [.stored p v] after := by
  obtain ⟨here, pointed, left, right⟩ := operands
  obtain ⟨after, run, _⟩ := operating_run below pointed left right computed
  exact ⟨after, here.all sound (.refl _) run⟩

theorem PlainOperands.not_finishes (operands : PlainOperands platform s a ptr old value p l r) (sound : s.Sound)
    (below : old.Below s.results) (below' : value.Below s.results) (failed : combined theirs l r = none) :
    ¬(s.pushAll (operating s.results theirs ptr old value)).Finishes platform a events after := by
  obtain ⟨here, pointed, left, right⟩ := operands
  have continues : (s.pushAll ([] ++ [.int theirs old value])).Continues
      (s.pushAll (operating s.results theirs ptr old value)).block := Building.continues_push _ _
  refine here.not_finishes sound continues .nil fun x knows => ?_
  rw [effect_combined ((knows.fetch below).trans left) ((knows.fetch below').trans right), failed]
  rfl

theorem PlainOperands.stored (operands : PlainOperands platform s a ptr old value p l r) (sound : s.Sound)
    (below : ptr.Below s.results) (below' : old.Below s.results) (below'' : value.Below s.results) {v : Datum}
    (finishes : (s.pushAll (operating s.results theirs ptr old value)).Finishes platform a [.stored p v] after) :
    combined theirs l r = some v := by
  cases computed : combined theirs l r with
  | none => exact absurd finishes (operands.not_finishes sound below' below'' computed)
  | some x =>
    obtain ⟨after', finishes'⟩ := operands.finishes sound below computed
    obtain ⟨same, _⟩ := finishes'.unique finishes
    cases same
    rfl

end Running

/-! ### Where the two agree -/

/-- The value `d` of a target, the value `r` of an expression, and the values `l` and `r'` that the
two have as the operands of the operator, such that both assignments store `r`. -/
inductive CompoundExact : AssignmentOp → Datum → Datum → Datum → Datum → Prop where
  | add {width : Nat} {r l r' : BitVec width} : l + r' = r →
    CompoundExact .ADD_ASSIGN (.int width 0) (.int width r) (.int width l) (.int width r')
  | sub {width : Nat} {r l r' : BitVec width} : l - r' = r →
    CompoundExact .SUB_ASSIGN (.int width (r + r)) (.int width r) (.int width l) (.int width r')
  | mul {width : Nat} {d r l r' : BitVec width} : d * r = r → l * r' = r →
    CompoundExact .MUL_ASSIGN (.int width d) (.int width r) (.int width l) (.int width r')
  | div {width : Nat} {d r l r' : BitVec width} : r ≠ 0 → d / r = r → IntOp.sdiv.apply l r' = some r →
    CompoundExact .DIV_ASSIGN (.int width d) (.int width r) (.int width l) (.int width r')

section Exact
variable {op : AssignmentOp} {binary : BinaryOp} {ours theirs : IntOp} {width : Nat}

theorem combined_int {op : IntOp} {x y z : BitVec width} :
    combined op (.int width x) (.int width y) = some (.int width z) ↔ op.apply x y = some z := by
  rw [combined, Llvm.ints_same, Option.map_eq_some_iff]
  constructor
  · rintro ⟨z', applied, same⟩
    cases same
    exact applied
  · exact fun applied => ⟨z, applied, rfl⟩

theorem udiv_apply_iff {x y z : BitVec width} : IntOp.udiv.apply x y = some z ↔ y ≠ 0 ∧ x / y = z := by
  simp [IntOp.apply]

theorem compoundExact_iff (compound : Compound op binary ours theirs) (d r l r' : BitVec width) :
    CompoundExact op (.int width d) (.int width r) (.int width l) (.int width r') ↔
      ours.apply d r = some r ∧ theirs.apply l r' = some r := by
  constructor
  · intro exact
    cases exact with
    | add same =>
      cases compound
      exact ⟨congrArg some (BitVec.zero_add r), congrArg some same⟩
    | sub same =>
      cases compound
      exact ⟨congrArg some (BitVec.add_sub_cancel r r), congrArg some same⟩
    | mul times same =>
      cases compound
      exact ⟨congrArg some times, congrArg some same⟩
    | div nonzero quotient same =>
      cases compound
      exact ⟨udiv_apply_iff.mpr ⟨nonzero, quotient⟩, same⟩
  · rintro ⟨stored, same⟩
    cases compound with
    | add =>
      obtain rfl : d = 0 := add_eq_right.mp (Option.some.inj stored)
      exact .add (Option.some.inj same)
    | sub =>
      obtain rfl : d = r + r := sub_eq_iff_eq_add.mp (Option.some.inj stored)
      exact .sub (Option.some.inj same)
    | mul => exact .mul (Option.some.inj stored) (Option.some.inj same)
    | div =>
      obtain ⟨nonzero, quotient⟩ := udiv_apply_iff.mp stored
      exact .div nonzero quotient same

/-- A number that is a quotient by itself is not negative. -/
theorem msb_of_quotient {d r : BitVec width} (quotient : d / r = r) (plain : 2 ≤ width) : r.msb = false := by
  have same : d.toNat / r.toNat = r.toNat := by rw [← BitVec.toNat_udiv, quotient]
  rw [BitVec.msb_eq_false_iff_two_mul_lt]
  by_contra large
  have square : r.toNat * r.toNat ≤ d.toNat := by
    calc r.toNat * r.toNat = d.toNat / r.toNat * r.toNat := by rw [same]
      _ ≤ d.toNat := Nat.div_mul_le_self _ _
  have bound : d.toNat < 2 ^ width := d.isLt
  obtain ⟨k, rfl⟩ := Nat.exists_eq_add_of_le plain
  have half : 2 ^ (2 + k) = 2 * (2 * 2 ^ k) := by ring
  have one : 0 < 2 ^ k := Nat.two_pow_pos k
  have low : 2 * 2 ^ k ≤ r.toNat := by omega
  have product : 2 * 2 ^ k * 2 ≤ r.toNat * r.toNat := Nat.mul_le_mul low (by omega)
  omega

/-- The quotient of a negative number by a positive one is not positive. -/
theorem sdiv_ne_of_msb {d r : BitVec width} (sign : d.msb = true) (positive : r.msb = false) (nonzero : r ≠ 0) :
    d.sdiv r ≠ r := by
  rw [BitVec.sdiv_eq, sign, positive]
  intro same
  have quotient : (-d) / r = -r := neg_eq_iff_eq_neg.mp same
  have le : (-r).toNat ≤ (-d).toNat := by
    rw [← quotient, BitVec.toNat_udiv]
    exact Nat.div_le_self _ _
  have below : 2 * r.toNat < 2 ^ width := BitVec.msb_eq_false_iff_two_mul_lt.mp positive
  have large : 2 ^ width ≤ 2 * d.toNat := BitVec.msb_eq_true_iff_two_mul_ge.mp sign
  have some : r.toNat ≠ 0 := fun zero => nonzero (BitVec.eq_of_toNat_eq zero)
  have bound : d.toNat < 2 ^ width := d.isLt
  rw [BitVec.toNat_neg, BitVec.toNat_neg, Nat.mod_eq_of_lt (by omega), Nat.mod_eq_of_lt (by omega)] at le
  omega

/-- A quotient that is the divisor is the same with signs just where no sign is set. -/
theorem sdiv_apply_iff {d r : BitVec width} (nonzero : r ≠ 0) (quotient : d / r = r) :
    IntOp.sdiv.apply d r = some r ↔ d.msb = false ∧ r.msb = false := by
  by_cases plain : 2 ≤ width
  · have positive : r.msb = false := msb_of_quotient quotient plain
    have one : r ≠ -1 := by
      rintro rfl
      have all : (-1 : BitVec width).msb = true := by
        change BitVec.msb (-BitVec.ofNat width 1) = true
        rw [BitVec.neg_one_eq_allOnes, BitVec.msb_allOnes (by omega)]
      exact Bool.false_ne_true (positive.symm.trans all)
    have applied : IntOp.sdiv.apply d r = some (d.sdiv r) := if_neg fun undefined => undefined.elim nonzero fun last => one last.2
    rw [applied, Option.some_inj]
    cases sign : d.msb with
    | false =>
      rw [BitVec.sdiv_eq, sign, positive]
      exact iff_of_true quotient ⟨rfl, rfl⟩
    | true => exact iff_of_false (sdiv_ne_of_msb sign positive nonzero) (fun signs => Bool.noConfusion signs.1)
  · obtain rfl | rfl : width = 0 ∨ width = 1 := by omega
    · exact absurd (Subsingleton.elim _ _) nonzero
    · -- With one bit the quotient of the two is not defined.
      revert d r
      decide

/-- The values of a target and an expression for which the two agree, if both operands stay what
they are. -/
def CompoundAgrees (op : AssignmentOp) (d r : BitVec width) : Prop :=
  match op with
  | .ADD_ASSIGN => d = 0
  | .SUB_ASSIGN => d = r + r
  | .MUL_ASSIGN => d * r = r
  | _ => r ≠ 0 ∧ d / r = r ∧ d.msb = false ∧ r.msb = false

theorem compoundExact_same (compound : Compound op binary ours theirs) (d r : BitVec width) :
    CompoundExact op (.int width d) (.int width r) (.int width d) (.int width r) ↔ CompoundAgrees op d r := by
  rw [compoundExact_iff compound]
  cases compound with
  | add => simp [CompoundAgrees, IntOp.apply]
  | sub => simp [CompoundAgrees, IntOp.apply, sub_eq_iff_eq_add]
  | mul => simp [CompoundAgrees, IntOp.apply]
  | div =>
    constructor
    · rintro ⟨stored, same⟩
      obtain ⟨nonzero, quotient⟩ := udiv_apply_iff.mp stored
      exact ⟨nonzero, quotient, (sdiv_apply_iff nonzero quotient).mp same⟩
    · rintro ⟨nonzero, quotient, signs⟩
      exact ⟨udiv_apply_iff.mpr ⟨nonzero, quotient⟩, (sdiv_apply_iff nonzero quotient).mpr signs⟩

end Exact

/-! ### Assignments -/

section Assignments
variable {decls : List Decl} {fuel fuel' : Nat} {loc loc' loc'' : Loc} {type type' type'' : AstType} {target expr : Expr}
  {op : AssignmentOp} {binary : BinaryOp} {ours theirs : IntOp} {width : Nat} {lvalue lvalue' : Bool} {s s' s'' : Building}
  {result result' : Llvm.Value}

/-- The code for the operands of `t op= e`: the address of `t` and the value of `e`. -/
def CompoundOperands (decls : List Decl) (fuel : Nat) (target expr : Expr) (s : Building) (ptr value : Llvm.Value)
    (s₂ : Building) : Prop :=
  ∃ s₁, codegenExpr decls fuel target true s = .ok (ptr, s₁) ∧ codegenExpr decls fuel expr false s₁ = .ok (value, s₂)

/-- The code for the operands of `t = t op e`: the address of `t`, its value and the value of `e`. -/
def AssignedOperands (decls : List Decl) (fuel : Nat) (target expr : Expr) (s : Building) (ptr old value : Llvm.Value)
    (s₃ : Building) : Prop :=
  ∃ s₁ s₂, codegenExpr decls (fuel + 1) target true s = .ok (ptr, s₁) ∧
    codegenExpr decls fuel target false s₁ = .ok (old, s₂) ∧ codegenExpr decls fuel expr false s₂ = .ok (value, s₃)

theorem CompoundOperands.sound {ptr value : Llvm.Value} {s₂ : Building}
    (codes : CompoundOperands decls fuel target expr s ptr value s₂) (sound : s.Sound) :
    s₂.Sound ∧ ptr.Below s₂.results ∧ value.Below s₂.results := by
  obtain ⟨s₁, targeted, valued⟩ := codes
  obtain ⟨first, below⟩ := Generates.expr s.context decls fuel _ target true _ _ _ sound (.refl _) (Nat.le_refl _) targeted
  obtain ⟨second, below'⟩ := Generates.expr s.context decls fuel _ expr false _ _ _ first.sound first.context
    (Nat.le_refl _) valued
  exact ⟨second.sound, below.mono second.results, below'⟩

theorem AssignedOperands.sound {ptr old value : Llvm.Value} {s₃ : Building}
    (codes : AssignedOperands decls fuel target expr s ptr old value s₃) (sound : s.Sound) :
    s₃.Sound ∧ ptr.Below s₃.results ∧ old.Below s₃.results ∧ value.Below s₃.results := by
  obtain ⟨s₁, s₂, targeted, loaded, valued⟩ := codes
  obtain ⟨first, below⟩ := Generates.expr s.context decls (fuel + 1) _ target true _ _ _ sound (.refl _) (Nat.le_refl _) targeted
  obtain ⟨second, below'⟩ := Generates.expr s.context decls fuel _ target false _ _ _ first.sound first.context
    (Nat.le_refl _) loaded
  obtain ⟨third, below''⟩ := Generates.expr s.context decls fuel _ expr false _ _ _ second.sound
    (first.context.trans second.context) (Nat.le_refl _) valued
  exact ⟨third.sound, below.mono (Nat.le_trans second.results third.results), below'.mono third.results, below''⟩

/-- No instruction on integers computes with floating point values. -/
theorem combined_real {op : IntOp} {t t' : Ty} {bits bits' : Nat} :
    combined op (.real t bits) (.real t' bits') = none := rfl

/-- The compound assignment stores the value of its expression, and `t = t op e` stores the same,
just for the operands of `CompoundExact`. Its value is what it stores for no others, and for no
floating point values. -/
theorem compound_assignment_iff (sound : s.Sound) (compound : Compound op binary ours theirs)
    (typed : target.type = .mk 0 (.integerType width) ∨ target.type = .mk 0 (.floatType width))
    (run : codegenExpr decls (fuel + 1) (.mk loc type (.assignmentExpr target expr op)) lvalue s = .ok (result, s'))
    (run' : codegenExpr decls (fuel' + 2)
      (.mk loc' type' (.assignmentExpr target (.mk loc'' type'' (.binaryExpr target expr binary)) .ASSIGN)) lvalue' s =
        .ok (result', s'')) :
    ∃ ptr s₂ ptr' old value s₃, CompoundOperands decls fuel target expr s ptr result s₂ ∧
      AssignedOperands decls fuel' target expr s ptr' old value s₃ ∧
      ∀ {M : Type} (platform : Platform M) (a a' : Activation M) (p p' : Pointer) (t : Ty) (d r l r' : Datum),
        Operands platform s₂ a ptr result p t d r → PlainOperands platform s₃ a' ptr' old value p' l r' →
        Numeric target.type d → Numeric target.type r → Numeric target.type l → Numeric target.type r' →
        ((∃ v after after', s'.Finishes platform a [.stored p v] after ∧ result.fetch platform after.registers = some v ∧
          s''.Finishes platform a' [.stored p' v] after') ↔ CompoundExact op d r l r') := by
  obtain ⟨ptr, s₁, s₂, targeted, valued, rfl⟩ := codegenAssignmentExpr_compound compound run
  obtain ⟨ptr', t₁, t₂, targeted', computed, rfl⟩ := codegenAssignmentExpr_plain run'
  obtain ⟨old, t₃, value, s₃, instr, loaded', valued', integer, rfl, rfl⟩ := codegenBinaryExpr_number compound typed computed
  have codes : CompoundOperands decls fuel target expr s ptr result s₂ := ⟨s₁, targeted, valued⟩
  have codes' : AssignedOperands decls fuel' target expr s ptr' old value s₃ :=
    ⟨t₁, t₃, targeted', loaded', valued'⟩
  obtain ⟨sound₂, below, below'⟩ := codes.sound sound
  obtain ⟨sound₃, beneath, beneath', beneath''⟩ := codes'.sound sound
  refine ⟨ptr, s₂, ptr', old, value, s₃, codes, codes', ?_⟩
  intro M platform a a' p p' t d r l r' operands operands' first second third fourth
  obtain typed | typed := typed
  · rw [typed] at first second third fourth
    cases first with
    | int d =>
    cases second with
    | int r =>
    cases third with
    | int l =>
    cases fourth with
    | int r' =>
    obtain rfl := integer typed
    rw [compoundExact_iff compound]
    constructor
    · rintro ⟨v, after, after', finishes, fetched, finishes'⟩
      obtain ⟨stored, same⟩ := operands.stored sound₂ below below' finishes
      obtain rfl : v = .int width r := Option.some.inj (fetched.symm.trans same)
      exact ⟨combined_int.mp stored, combined_int.mp (operands'.stored sound₃ beneath beneath' beneath'' finishes')⟩
    · rintro ⟨ours, theirs⟩
      obtain ⟨after, finishes, fetched⟩ := operands.finishes sound₂ below below' (combined_int.mpr ours)
      obtain ⟨after', finishes'⟩ := operands'.finishes sound₃ beneath (combined_int.mpr theirs)
      exact ⟨_, after, after', finishes, fetched, finishes'⟩
  · rw [typed] at first second third fourth
    cases first with
    | real t₁ bits =>
    cases second with
    | real t₂ bits' =>
    refine iff_of_false ?_ ?_
    · rintro ⟨v, after, after', finishes, _⟩
      exact operands.not_finishes sound₂ below below' combined_real finishes
    · intro exact
      cases exact

end Assignments

def variableBuilding : Building :=
  ⟨⟨[⟨.INVALID, some [120], some int64, some (.result 0 (.ptr (.int 64))), none, none, 0, true⟩], []⟩,
    [.op (.alloca (.int 64))], 1, 1, 0, []⟩

theorem variableBuilding_sound : variableBuilding.Sound where
  numbered := rfl
  entered := Nat.one_pos
  inside := by simp [variableBuilding, Emitted.Inside]
  known := by simp [variableBuilding, Llvm.Value.Below]

def variableActivation (n : Nat) : Activation (Pointer → Option Datum) :=
  ⟨fun k => if k = 0 then some (.ptr ⟨5, 0⟩) else none, fun _ => some (.int 64 n), 6, 0, 0, 1⟩

def variableX : Expr := .mk ⟨0, 0⟩ int64 (.identExpr [120])

/-- `x += 1`. -/
def incremented : Expr := .mk ⟨0, 0⟩ int64 (.assignmentExpr variableX (digit 1) .ADD_ASSIGN)

/-- `x = x + 1`. -/
def assignedSum : Expr :=
  .mk ⟨0, 0⟩ int64 (.assignmentExpr variableX (.mk ⟨0, 0⟩ int64 (.binaryExpr variableX (digit 1) .ADD)) .ASSIGN)

/-- The address of `x` is at hand, and the digit is a constant. -/
theorem variable_operands (n : Nat) : Operands Llvm.cells variableBuilding (variableActivation n) (.result 0 (.ptr (.int 64)))
    (.constIntOfString (.int 64) [49] 10) ⟨5, 0⟩ (.int 64) (.int 64 n) (.int 64 1) :=
  ⟨⟨rfl, rfl⟩, rfl, rfl, rfl, rfl⟩

def variableLoaded (n : Nat) : Activation (Pointer → Option Datum) :=
  (variableActivation n).after 1 ((variableActivation n).gives (.int 64 n))

theorem loaded_operands (n : Nat) : PlainOperands Llvm.cells (variableBuilding.push (.op (.load (.result 0 (.ptr (.int 64))))))
    (variableLoaded n) (.result 0 (.ptr (.int 64))) (.result 1 (.int 64)) (.constIntOfString (.int 64) [49] 10) ⟨5, 0⟩
    (.int 64 n) (.int 64 1) :=
  ⟨⟨rfl, rfl⟩, rfl, rfl, rfl⟩

/-- If `x` is zero, then `x += 1` stores what `x = x + 1` stores, and that is its value. -/
theorem compound_assignment_zero : ∃ result s' result' s'' v after after',
    codegenExpr [] 4 incremented false variableBuilding = .ok (result, s') ∧
      codegenExpr [] 4 assignedSum false variableBuilding = .ok (result', s'') ∧
        s'.Finishes Llvm.cells (variableActivation 0) [.stored ⟨5, 0⟩ v] after ∧
          result.fetch Llvm.cells after.registers = some v ∧
            s''.Finishes Llvm.cells (variableLoaded 0) [.stored ⟨5, 0⟩ v] after' := by
  obtain ⟨⟨result, s'⟩, run⟩ : ∃ r, codegenExpr [] 4 incremented false variableBuilding = .ok r := ⟨_, rfl⟩
  obtain ⟨⟨result', s''⟩, run'⟩ : ∃ r, codegenExpr [] 4 assignedSum false variableBuilding = .ok r := ⟨_, rfl⟩
  obtain ⟨ptr, s₂, ptr', old, value, s₃, ⟨s₁, targeted, valued⟩, ⟨t₁, t₂, targeted', loaded', valued'⟩, law⟩ :=
    compound_assignment_iff variableBuilding_sound .add (.inl rfl) run run'
  cases targeted
  cases valued
  cases targeted'
  cases loaded'
  cases valued'
  have number (n : BitVec 64) : Numeric variableX.type (.int 64 n) := .int n
  obtain ⟨v, after, after', finishes, fetched, finishes'⟩ := (law Llvm.cells _ _ _ _ _ _ _ _ _ (variable_operands 0)
    (loaded_operands 0) (number 0) (number 1) (number 0) (number 1)).mpr ((compoundExact_same .add 0 1).mpr rfl)
  exact ⟨_, s', result', s'', v, after, after', run, run', finishes, fetched, finishes'⟩

/-- `x += 1` stores two if `x` is one, and has the value one. -/
theorem incremented_value_stale : ∃ result s' after, codegenExpr [] 4 incremented false variableBuilding = .ok (result, s') ∧
    s'.Finishes Llvm.cells (variableActivation 1) [.stored ⟨5, 0⟩ (.int 64 2)] after ∧
      result.fetch Llvm.cells after.registers = some (.int 64 1) := by
  have below : (Llvm.Value.result 0 (.ptr (.int 64))).Below variableBuilding.results := Nat.one_pos
  have constant : (Llvm.Value.constIntOfString (.int 64) [49] 10).Below variableBuilding.results := trivial
  have computed : combined .add (.int 64 1) (.int 64 1) = some (.int 64 2) := combined_int.mpr rfl
  obtain ⟨after, finishes, fetched⟩ := (variable_operands 1).finishes variableBuilding_sound below constant computed
  exact ⟨_, _, after, rfl, finishes, fetched⟩

end Low
