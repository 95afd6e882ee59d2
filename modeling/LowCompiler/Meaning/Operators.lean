import LowCompiler.Codegen.Expr
import LowCompiler.Meaning.Values

/-!
# Instructions for operators

The instruction that is built for an operator gives what the operator means for numbers,
booleans and floating point values.
-/

namespace Low

open Llvm (Op IntOp IntPredicate Ty Platform Activation Datum)

section Numbers
variable {width : Nat} {x y z : BitVec width}

/-- The only quotient that has no room is that of the least number by minus one. -/
theorem hasRoom_tdiv (nonzero : y.toInt ≠ 0) (fits : HasRoom width (x.toInt.tdiv y.toInt)) :
    ¬(y = 0 ∨ x = BitVec.intMin width ∧ y = -1) := by
  intro bad
  obtain rfl | ⟨rfl, rfl⟩ := bad
  · exact nonzero BitVec.toInt_zero
  · rcases Nat.eq_zero_or_pos width with rfl | wide
    · exact nonzero rfl
    · have least := BitVec.toInt_intMin_of_pos wide
      have one : (-1 : BitVec width).toInt = -1 := by
        have ones : (-1 : BitVec width) = BitVec.allOnes width := BitVec.neg_one_eq_allOnes
        rw [ones, BitVec.toInt_allOnes, if_pos wide]
      rw [least, one, Int.tdiv_neg, Int.tdiv_one] at fits
      exact Int.lt_irrefl _ (Int.neg_neg (2 ^ (width - 1) : Int) ▸ fits.2)

theorem cut_sdiv : BitVec.ofInt width (x.toInt.tdiv y.toInt) = x.sdiv y := by
  apply BitVec.eq_of_toInt_eq
  rw [BitVec.toInt_ofInt, BitVec.toInt_sdiv]

theorem cut_srem : BitVec.ofInt width (x.toInt.tmod y.toInt) = x.srem y := by
  rw [← BitVec.toInt_srem, BitVec.ofInt_toInt]

theorem cut_shiftLeft (n : Nat) : BitVec.ofInt width (x.toInt * 2 ^ n) = x <<< n := by
  rw [BitVec.ofInt_mul, BitVec.ofInt_toInt, BitVec.shiftLeft_eq_mul_twoPow]
  have power : (2 ^ n : Int) = ((2 ^ n : Nat) : Int) := (Int.natCast_pow 2 n).symm
  rw [power, BitVec.ofInt_natCast]
  congr 1
  apply BitVec.eq_of_toNat_eq
  rw [BitVec.toNat_ofNat, BitVec.toNat_twoPow]

theorem cut_sshiftRight (n : Nat) : BitVec.ofInt width (x.toInt / 2 ^ n) = x.sshiftRight n := by
  have same := BitVec.toInt_sshiftRight (x := x) (n := n)
  rw [Int.shiftRight_eq_div_pow] at same
  push_cast at same
  rw [← same, BitVec.ofInt_toInt]

/-- What an operator means is what its instruction gives. -/
theorem onNumbers_apply {op : BinaryOp} (means : op.onNumbers x y = some z) :
    ∃ instr, intOp op = some (.int instr) ∧ instr.apply x y = some z := by
  cases op with
  | ADD =>
    cases means
    exact ⟨.add, rfl, by simp [IntOp.apply, BitVec.ofInt_add]⟩
  | SUB =>
    cases means
    exact ⟨.sub, rfl, by simp [IntOp.apply, Int.sub_eq_add_neg, BitVec.ofInt_add, BitVec.ofInt_neg, BitVec.sub_eq_add_neg]⟩
  | MUL =>
    cases means
    exact ⟨.mul, rfl, by simp [IntOp.apply, BitVec.ofInt_mul]⟩
  | DIV =>
    refine ⟨.sdiv, rfl, ?_⟩
    simp only [BinaryOp.onNumbers] at means
    split at means
    case isFalse => cases means
    case isTrue divides =>
      cases means
      rw [IntOp.apply, if_neg (hasRoom_tdiv divides.1 divides.2), cut_sdiv]
  | MOD =>
    refine ⟨.srem, rfl, ?_⟩
    simp only [BinaryOp.onNumbers] at means
    split at means
    case isFalse => cases means
    case isTrue divides =>
      cases means
      rw [IntOp.apply, if_neg (hasRoom_tdiv divides.1 divides.2), cut_srem]
  | LEFT =>
    refine ⟨.shl, rfl, ?_⟩
    simp only [BinaryOp.onNumbers] at means
    split at means
    case isFalse => cases means
    case isTrue small =>
      cases means
      rw [IntOp.apply, if_neg (Nat.not_le_of_lt small), cut_shiftLeft]
  | RIGHT =>
    refine ⟨.ashr, rfl, ?_⟩
    simp only [BinaryOp.onNumbers] at means
    split at means
    case isFalse => cases means
    case isTrue small =>
      cases means
      rw [IntOp.apply, if_neg (Nat.not_le_of_lt small), cut_sshiftRight]
  | BITWISE_AND => exact ⟨.and, rfl, means⟩
  | BITWISE_XOR => exact ⟨.xor, rfl, means⟩
  | BITWISE_OR => exact ⟨.or, rfl, means⟩
  | _ => cases means

theorem compares_holds {op : BinaryOp} {b : Bool} (means : op.compares x.toInt y.toInt = some b) :
    ∃ predicate, intOp op = some (.icmp predicate) ∧ predicate.holds x y = b := by
  cases op with
  | LT => exact ⟨.slt, rfl, Option.some.inj means⟩
  | GT => exact ⟨.sgt, rfl, Option.some.inj means⟩
  | LE => exact ⟨.sle, rfl, Option.some.inj means⟩
  | GE => exact ⟨.sge, rfl, Option.some.inj means⟩
  | EQ =>
    refine ⟨.eq, rfl, ?_⟩
    rw [← Option.some.inj means, IntPredicate.holds, beq_eq_decide]
    exact decide_eq_decide.mpr BitVec.toInt_inj.symm
  | NE =>
    refine ⟨.ne, rfl, ?_⟩
    rw [← Option.some.inj means, IntPredicate.holds, bne, beq_eq_decide, ← decide_not]
    exact decide_eq_decide.mpr (not_congr BitVec.toInt_inj.symm)
  | _ => cases means

theorem inside_ult {cap : BitVec 64} {z : Int} (nonnegative : 0 ≤ z) (small : z < cap.toNat) :
    IntPredicate.ult.holds (BitVec.ofInt 64 z) cap = true := by
  have bound := cap.isLt
  have same : z % (2 ^ 64 : Nat) = z := Int.emod_eq_of_lt nonnegative (by omega)
  rw [IntPredicate.holds, BitVec.ult, BitVec.toNat_ofInt, same]
  exact decide_eq_true (by omega)

theorem onIntegers_eq {op : BinaryOp} {v u w : Rvalue} (means : op.onIntegers v u = some w) :
    ∃ (width : Nat) (x y : BitVec width), v = .ofBits x ∧ u = .ofBits y ∧
      ((∃ b, op.compares x.toInt y.toInt = some b ∧ w = .ofBool b) ∨ ∃ z, op.onNumbers x y = some z ∧ w = .ofBits z) := by
  obtain ⟨⟨width, x⟩, first, rest⟩ := Option.bind_eq_some_iff.mp means
  obtain ⟨⟨width', y⟩, second, result⟩ := Option.bind_eq_some_iff.mp rest
  clear means rest
  dsimp only at result
  split at result
  case isFalse => cases result
  case isTrue same =>
    subst same
    refine ⟨_, x, y, Rvalue.int?_eq.mp first, Rvalue.int?_eq.mp second, ?_⟩
    rw [BitVec.cast_eq] at result
    split at result
    case h_1 b holds => exact .inl ⟨b, holds, (Option.some.inj result).symm⟩
    case h_2 =>
      obtain ⟨z, number, same⟩ := Option.map_eq_some_iff.mp result
      exact .inr ⟨z, number, same.symm⟩

end Numbers

/-! ### Operands -/

/-- Registers with numbers below `n` are left alone. -/
def Kept (n : Nat) (r r' : Nat → Option Datum) : Prop := ∀ k < n, r' k = r k

namespace Kept
variable {n n' : Nat} {r r' r'' : Nat → Option Datum}

theorem refl (n : Nat) (r : Nat → Option Datum) : Kept n r r := fun _ _ => rfl

theorem trans (first : Kept n r r') (second : Kept n' r' r'') (le : n ≤ n') : Kept n r r'' := by
  intro k small
  rw [second k (Nat.lt_of_lt_of_le small le), first k small]

theorem update (n : Nat) (r : Nat → Option Datum) (d : Option Datum) : Kept n r (Function.update r n d) := by
  intro k small
  exact Function.update_of_ne (Nat.ne_of_lt small) d r

end Kept

section Operands
variable {M : Type} {platform : Platform M} {n n' : Nat} {r r' : Nat → Option Datum} {value left right : Llvm.Value}
  {v u w : Rvalue} {place : Lvalue}

/-- What an operand is at run time. -/
structure Stands (platform : Platform M) (n : Nat) (r : Nat → Option Datum) (value : Llvm.Value) (v : Rvalue) : Prop where
  below : value.Below n
  type : value.type = v.type
  fetch : value.fetch platform r = some v.datum

theorem Stands.kept (stands : Stands platform n r value v) (kept : Kept n r r') (le : n ≤ n') :
    Stands platform n' r' value v where
  below := stands.below.mono le
  type := stands.type
  fetch := by
    rw [← stands.fetch]
    cases value with
    | result k type => exact kept k stands.below
    | constInt type k => cases type <;> rfl
    | constAllOnes type => cases type <;> rfl
    | _ => rfl

theorem Stands.fetched (stands : Stands platform n r value v) (kept : Kept n r r') : value.fetch platform r' = some v.datum :=
  (stands.kept kept (Nat.le_refl n)).fetch

/-- An instruction that only computes, and what it computes. -/
structure Yields (platform : Platform M) (n : Nat) (r : Nat → Option Datum) (op : Op) (v : Rvalue) : Prop where
  type : op.type = v.type
  effect : ∀ s : Activation M, Kept n r s.registers → op.effect platform s = some (s.gives v.datum)

attribute [local simp] Op.effect Op.compute

section Binary
variable (stands : Stands platform n r left v) (stands' : Stands platform n r right u)
include stands stands'

theorem yields_icmp {width : Nat} {x y : BitVec width} (predicate : IntPredicate) (is : v = .ofBits x) (is' : u = .ofBits y) :
    Yields platform n r (.icmp predicate left right) (.ofBool (predicate.holds x y)) := by
  subst is is'
  refine ⟨rfl, fun s kept => ?_⟩
  exact Llvm.effect_icmp (stands.fetched kept) (stands'.fetched kept)

theorem yields_integers {op : BinaryOp} {instr : Llvm.Value → Llvm.Value → Op} (is : intOp op = some instr)
    (means : op.onIntegers v u = some w) : Yields platform n r (instr left right) w := by
  obtain ⟨width, x, y, rfl, rfl, holds | number⟩ := onIntegers_eq means
  · obtain ⟨b, holds, rfl⟩ := holds
    obtain ⟨predicate, found, held⟩ := compares_holds holds
    cases is.symm.trans found
    rw [← held]
    exact yields_icmp stands stands' predicate rfl rfl
  · obtain ⟨z, number, rfl⟩ := number
    obtain ⟨instr, found, applied⟩ := onNumbers_apply number
    cases is.symm.trans found
    refine ⟨stands.type, fun s kept => ?_⟩
    exact Llvm.effect_int (stands.fetched kept) (stands'.fetched kept) applied

theorem yields_booleans {op : BinaryOp} {instr : Llvm.Value → Llvm.Value → Op} (is : boolOp op = some instr)
    (means : op.onBooleans v u = some w) : Yields platform n r (instr left right) w := by
  obtain ⟨x, first, rest⟩ := Option.bind_eq_some_iff.mp means
  obtain ⟨y, second, result⟩ := Option.bind_eq_some_iff.mp rest
  clear means rest
  obtain rfl := Rvalue.bool?_eq.mp first
  obtain rfl := Rvalue.bool?_eq.mp second
  have both (s : Activation M) (kept : Kept n r s.registers) :=
    And.intro (stands.fetched kept) (stands'.fetched kept)
  cases op with
  | EQ =>
    cases is
    cases result
    refine ⟨rfl, fun s kept => (Llvm.effect_icmp (both s kept).1 (both s kept).2).trans ?_⟩
    cases x <;> cases y <;> rfl
  | NE =>
    cases is
    cases result
    refine ⟨rfl, fun s kept => (Llvm.effect_icmp (both s kept).1 (both s kept).2).trans ?_⟩
    cases x <;> cases y <;> rfl
  | AND =>
    cases is
    cases result
    refine ⟨stands.type, fun s kept => (Llvm.effect_int (both s kept).1 (both s kept).2 rfl).trans ?_⟩
    cases x <;> cases y <;> rfl
  | OR =>
    cases is
    cases result
    refine ⟨stands.type, fun s kept => (Llvm.effect_int (both s kept).1 (both s kept).2 rfl).trans ?_⟩
    cases x <;> cases y <;> rfl
  | _ => cases is

theorem yields_reals {op : BinaryOp} {instr : Llvm.Value → Llvm.Value → Op} (is : realOp op = some instr)
    (means : op.onReals platform v u = some w) : Yields platform n r (instr left right) w := by
  have both (s : Activation M) (kept : Kept n r s.registers) :=
    And.intro (stands.fetched kept) (stands'.fetched kept)
  have real {instr : Llvm.RealOp} (means : (platform.real instr v.datum u.datum).map (Rvalue.mk v.type) = some w) :
      Yields platform n r (.real instr left right) w := by
    obtain ⟨d, computed, rfl⟩ := Option.map_eq_some_iff.mp means
    exact ⟨stands.type, fun s kept => by simp [both s kept, computed]⟩
  have compare {predicate : Llvm.RealPredicate}
      (means : (platform.compare predicate v.datum u.datum).map Rvalue.ofBool = some w) :
      Yields platform n r (.fcmp predicate left right) w := by
    obtain ⟨b, computed, rfl⟩ := Option.map_eq_some_iff.mp means
    exact ⟨rfl, fun s kept => by simp [both s kept, computed, Rvalue.ofBool]⟩
  cases op with
  | ADD | SUB | MUL | DIV | MOD =>
    cases is
    exact real means
  | LT | GT | LE | GE | EQ | NE =>
    cases is
    exact compare means
  | _ => cases is

end Binary

section Unary
variable (stands : Stands platform n r value v)
include stands

theorem yields_neg {width : Nat} {x : BitVec width} (is : v = .ofBits x) :
    Yields platform n r (.neg value) (.ofBits (BitVec.ofInt width (-x.toInt))) := by
  subst is
  refine ⟨stands.type, fun s kept => ?_⟩
  simp [stands.fetched kept, Rvalue.ofBits, BitVec.ofInt_neg]

theorem yields_fneg {d : Datum} (negated : platform.negate v.datum = some d) :
    Yields platform n r (.fneg value) ⟨v.type, d⟩ := by
  refine ⟨stands.type, fun s kept => ?_⟩
  simp [stands.fetched kept, negated]

theorem yields_not {width : Nat} {x : BitVec width} (is : v = .ofBits x) :
    Yields platform n r (.not value) (.ofBits (~~~x)) := by
  subst is
  refine ⟨stands.type, fun s kept => ?_⟩
  simp [stands.fetched kept, Rvalue.ofBits]

theorem yields_not_bool {b : Bool} (is : v = .ofBool b) : Yields platform n r (.not value) (.ofBool !b) := by
  have bits : Rvalue.ofBool b = .ofBits (BitVec.ofBool b) := rfl
  have flipped : Rvalue.ofBits (~~~BitVec.ofBool b) = .ofBool !b := by cases b <;> rfl
  rw [← flipped]
  exact yields_not stands (is.trans bits)

theorem yields_extractValue {i : Nat} (is : v.field? i = some u) : Yields platform n r (.extractValue value i) u := by
  obtain ⟨types, typed, found, there⟩ := Rvalue.field?_eq is
  refine ⟨Op.type_extractValue (stands.type.trans typed) found, fun s kept => ?_⟩
  exact Llvm.effect_extractValue (stands.fetched kept) there

theorem yields_gep {index : Llvm.Value} {width : Nat} {i : BitVec width} (is : v = place.address)
    (counts : Stands platform n r index (.ofBits i)) :
    Yields platform n r (.gep value index []) (place.at place.type (platform.stride place.type * BitVec.ofInt 64 i.toInt)).address := by
  subst is
  have typed : value.type = .ptr place.type := stands.type
  refine ⟨by simp [Op.type, typed, Ty.index, Lvalue.address, Lvalue.at], fun s kept => ?_⟩
  exact Llvm.effect_gep typed (stands.fetched kept) (counts.fetched kept)

theorem yields_gep_array {index : Llvm.Value} {element : Ty} {length width : Nat} {i : BitVec width} (is : v = place.address)
    (array : place.type = .array element length) (counts : Stands platform n r index (.ofBits i)) :
    Yields platform n r (.gep value (.constNull (.int 32)) [index])
      (place.at element (platform.stride element * BitVec.ofInt 64 i.toInt)).address := by
  subst is
  have typed : value.type = .ptr (.array element length) := array ▸ stands.type
  refine ⟨by simp [Op.type, typed, Ty.index, Lvalue.address, Lvalue.at], fun s kept => ?_⟩
  have pointed : value.fetch platform s.registers = some (.ptr place.pointer) := stands.fetched kept
  have counted : index.fetch platform s.registers = some (.int width i) := counts.fetched kept
  simp [typed, pointed, counted, Llvm.Ty.null, Llvm.innerOffset, Lvalue.address, Lvalue.at, BitVec.signExtend]

theorem yields_structGep {fields : List Ty} {i : Nat} {t : Ty} (is : v = place.address) (struct : place.type = .struct fields)
    (present : fields[i]? = some t) :
    Yields platform n r (.structGep value i) (place.at t (platform.fieldOffset fields i)).address := by
  subst is
  have typed : value.type = .ptr (.struct fields) := struct ▸ stands.type
  refine ⟨Op.type_structGep typed present, fun s kept => ?_⟩
  have pointed : value.fetch platform s.registers = some (.ptr place.pointer) := stands.fetched kept
  simp [typed, pointed, Lvalue.address, Lvalue.at]

theorem yields_pointerCast {dst : Ty} (is : v = place.address) :
    Yields platform n r (.pointerCast value dst) ⟨dst, .ptr place.pointer⟩ := by
  subst is
  exact ⟨rfl, fun s kept => Llvm.effect_pointerCast (stands.fetched kept)⟩

theorem yields_ptrToInt {width : Nat} (is : v = place.address) :
    Yields platform n r (.ptrToInt value (.int width)) (.ofBits ((platform.address place.pointer).setWidth width)) := by
  subst is
  have pointed (s : Activation M) (kept : Kept n r s.registers) :
      value.fetch platform s.registers = some (.ptr place.pointer) := stands.fetched kept
  exact ⟨rfl, fun s kept => by simp [pointed s kept, Rvalue.ofBits]⟩

theorem yields_intToPtr {width : Nat} {x : BitVec width} {dst : Ty} (is : v = .ofBits x) :
    Yields platform n r (.intToPtr value dst) ⟨dst, .ptr (platform.pointer (x.setWidth 64))⟩ := by
  subst is
  exact ⟨rfl, fun s kept => by simp [stands.fetched kept, Rvalue.ofBits]⟩

theorem yields_intCast {width width' : Nat} {x : BitVec width} (is : v = .ofBits x) :
    Yields platform n r (.intCast value (.int width')) (.ofBits (BitVec.ofInt width' x.toInt)) := by
  subst is
  exact ⟨rfl, fun s kept => Llvm.effect_intCast (stands.fetched kept)⟩

/-- A boolean is zero or one. -/
theorem yields_zext {width : Nat} {b : Bool} (is : v = .ofBool b) :
    Yields platform n r (.zext value (.int width)) (.ofBits (BitVec.ofNat width b.toNat)) := by
  subst is
  have wide : (BitVec.ofBool b).setWidth width = BitVec.ofNat width b.toNat := by
    rw [← BitVec.toNat_ofBool, BitVec.ofNat_toNat]
  rw [← wide]
  exact ⟨rfl, fun s kept => Llvm.effect_zext (stands.fetched kept)⟩

end Unary

end Operands

end Low
