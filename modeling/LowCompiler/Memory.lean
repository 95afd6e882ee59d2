import Mathlib.Data.BitVec

/-!
# Memory with wrapping addresses

A memory gives a value at every address of `w` bits. `copied` copies a range value by
value, upwards, so that a range may be read again after it was written to.
-/

namespace Memory

variable {w : Nat} {α : Type}

def store (m : BitVec w → α) (address : BitVec w) (value : α) : BitVec w → α :=
  fun x => if x = address then value else m x

@[simp] theorem store_same (m : BitVec w → α) (address : BitVec w) (value : α) :
    store m address value address = value :=
  if_pos rfl

theorem store_other (m : BitVec w → α) {address x : BitVec w} (value : α) (other : x ≠ address) :
    store m address value x = m x :=
  if_neg other

/-- Addresses of a range that does not wrap onto itself are different. -/
theorem offset_inj (p : BitVec w) {i j : Nat} (hi : i < 2 ^ w) (hj : j < 2 ^ w)
    (same : p + BitVec.ofNat w i = p + BitVec.ofNat w j) : i = j := by
  have equal := congrArg BitVec.toNat ((BitVec.add_right_inj p).mp same)
  rwa [BitVec.toNat_ofNat, BitVec.toNat_ofNat, Nat.mod_eq_of_lt hi, Nat.mod_eq_of_lt hj] at equal

/-- The first `n` values from `s` on are copied to `d`, one after the other. -/
def copied (m : BitVec w → α) (d s : BitVec w) : Nat → BitVec w → α
  | 0 => m
  | n + 1 => store (copied m d s n) (d + BitVec.ofNat w n) (copied m d s n (s + BitVec.ofNat w n))

section Copied
variable {m : BitVec w → α} {d s x : BitVec w} {n k : Nat}

theorem copied_outside (outside : ∀ k < n, x ≠ d + BitVec.ofNat w k) : copied m d s n x = m x := by
  induction n with
  | zero => rfl
  | succ n ih =>
    rw [copied, store_other _ _ (outside n (Nat.lt_succ_self n))]
    exact ih fun k less => outside k (Nat.lt_succ_of_lt less)

/-- What was written stays: it is what was read when its turn came. -/
theorem copied_inside (less : k < n) (fits : n ≤ 2 ^ w) :
    copied m d s n (d + BitVec.ofNat w k) = copied m d s k (s + BitVec.ofNat w k) := by
  induction n with
  | zero => exact absurd less (Nat.not_lt_zero k)
  | succ n ih =>
    rw [copied]
    by_cases last : k = n
    · rw [last, store_same]
    · rw [store_other _ _ fun same => last (offset_inj d (by omega) (by omega) same)]
      exact ih (by omega) (by omega)

theorem copied_disjoint (disjoint : ∀ i < n, ∀ j < n, s + BitVec.ofNat w i ≠ d + BitVec.ofNat w j) (less : k < n)
    (fits : n ≤ 2 ^ w) : copied m d s n (d + BitVec.ofNat w k) = m (s + BitVec.ofNat w k) := by
  rw [copied_inside less fits]
  exact copied_outside fun j before => disjoint k less j (Nat.lt_trans before less)

/-- A copy gives the values that were there before just when each value that is read after its place
was written to is the one that was written there. -/
theorem copied_exact (fits : n ≤ 2 ^ w) :
    (∀ k < n, copied m d s n (d + BitVec.ofNat w k) = m (s + BitVec.ofNat w k)) ↔
      ∀ k < n, (d - s).toNat ≤ k → m (s + BitVec.ofNat w k) = m (s + BitVec.ofNat w (k - (d - s).toNat)) := by
  have place (k : Nat) : d + BitVec.ofNat w k = s + BitVec.ofNat w ((d - s).toNat + k) := by
    rw [BitVec.ofNat_add, BitVec.ofNat_toNat, BitVec.setWidth_eq, ← BitVec.add_assoc, BitVec.add_comm s, BitVec.sub_add_cancel]
  have bound := (d - s).isLt
  have early (k : Nat) (less : k < n) (before : k < (d - s).toNat ∨ (d - s).toNat = 0) :
      copied m d s n (d + BitVec.ofNat w k) = m (s + BitVec.ofNat w k) := by
    rw [copied_inside less fits]
    refine copied_outside fun j earlier same => ?_
    rw [place j] at same
    by_cases wrapped : (d - s).toNat + j < 2 ^ w
    · have := offset_inj s (by omega) wrapped same
      omega
    · have around : BitVec.ofNat w ((d - s).toNat + j) = BitVec.ofNat w ((d - s).toNat + j - 2 ^ w) := by
        refine BitVec.eq_of_toNat_eq ?_
        rw [BitVec.toNat_ofNat, BitVec.toNat_ofNat, Nat.mod_eq_sub_mod (by omega)]
      rw [around] at same
      have := offset_inj s (by omega) (by omega) same
      omega
  have late (k : Nat) (less : k < n) (after : (d - s).toNat ≤ k) (moved : (d - s).toNat ≠ 0) :
      copied m d s n (d + BitVec.ofNat w k) = copied m d s n (d + BitVec.ofNat w (k - (d - s).toNat)) := by
    have source : s + BitVec.ofNat w k = d + BitVec.ofNat w (k - (d - s).toNat) := by
      rw [place, Nat.add_sub_cancel' after]
    rw [copied_inside less fits, source, copied_inside (by omega) (by omega), copied_inside (by omega) fits]
  constructor
  · intro exact_ k less after
    by_cases moved : (d - s).toNat = 0
    · rw [moved, Nat.sub_zero]
    · rw [← exact_ k less, late k less after moved, exact_ _ (by omega)]
  · intro periodic k
    induction k using Nat.strongRecOn with
    | ind k ih =>
      intro less
      by_cases moved : (d - s).toNat = 0
      · exact early k less (.inr moved)
      · by_cases after : (d - s).toNat ≤ k
        · rw [late k less after moved, ih _ (by omega) (by omega), periodic k less after]
        · exact early k less (.inl (by omega))

end Copied

end Memory
