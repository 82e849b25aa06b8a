import Mathlib.Data.BitVec
import Mathlib.Tactic.SplitIfs

/-! Fields of words that are put together by concatenation. -/

set_option autoImplicit false

namespace Fields

variable {k n m : Nat}

theorem first (a : BitVec k) (b : BitVec n) : (a ++ b).extractLsb' n k = a := BitVec.extractLsb'_append_eq_left

theorem first_of_three (a : BitVec k) (b : BitVec n) (c : BitVec m) : (a ++ b ++ c).extractLsb' (m + n) k = a := by
  rw [BitVec.extractLsb'_append_eq_of_le (Nat.le_add_right m n), Nat.add_sub_cancel_left]
  exact first a b

theorem second_of_three (a : BitVec k) (b : BitVec n) (c : BitVec m) : (a ++ b ++ c).extractLsb' m n = b := by
  rw [BitVec.extractLsb'_append_eq_of_le le_rfl, Nat.sub_self]
  exact BitVec.extractLsb'_append_eq_right

/-- A field of a field. -/
theorem nested {w : Nat} (x : BitVec w) (s : Nat) {p l : Nat} (inside : p + l ≤ n) :
    (x.extractLsb' s n).extractLsb' p l = x.extractLsb' (s + p) l := by
  apply BitVec.eq_of_getLsbD_eq
  intro q bound
  have within : p + q < n := by omega
  simp only [BitVec.getLsbD_extractLsb', bound, within, decide_true, Bool.true_and, Nat.add_assoc]

/-- Two fields side by side. -/
theorem joined {w : Nat} (x : BitVec w) (s : Nat) :
    x.extractLsb' (s + n) k ++ x.extractLsb' s n = x.extractLsb' s (k + n) :=
  BitVec.extractLsb'_append_extractLsb'_eq_extractLsb' rfl

theorem bit {w : Nat} (x : BitVec w) (p : Nat) : x.extractLsb' p 1 = BitVec.ofBool (x.getLsbD p) := by
  apply BitVec.eq_of_getLsbD_eq
  intro q bound
  obtain rfl : q = 0 := by omega
  rw [BitVec.getLsbD_extractLsb', BitVec.getLsbD_ofBool, Nat.add_zero]
  simp

theorem ofBool_inj {a b : Bool} (same : BitVec.ofBool a = BitVec.ofBool b) : a = b := by
  revert a b
  decide

theorem toNat_zero_append (x : BitVec n) : (0#k ++ x).toNat = x.toNat := by
  simp [BitVec.toNat_append]

/-- A word whose upper part is zero is its lower part. -/
theorem low {w : Nat} (x : BitVec w) (size : w = m + n) (zero : x.extractLsb' n m = 0#m) :
    (x.extractLsb' 0 n).setWidth w = x := by
  apply BitVec.eq_of_getLsbD_eq
  intro p bound
  rw [BitVec.getLsbD_setWidth, BitVec.getLsbD_extractLsb', Nat.zero_add, decide_eq_true bound, Bool.true_and]
  by_cases inside : p < n
  · simp [inside]
  · have upper := congrArg (fun y : BitVec m => y.getLsbD (p - n)) zero
    have place : n + (p - n) = p := by omega
    have within : p - n < m := by omega
    simp only [BitVec.getLsbD_extractLsb', place, within, decide_true, Bool.true_and, BitVec.getLsbD_zero] at upper
    simp [inside, upper]

/-- To extend a word twice is to extend it once. -/
theorem signExtend_twice (x : BitVec n) (v : Nat) (some_ : 0 < m) (inside : n ≤ m) :
    (x.signExtend m).signExtend v = x.signExtend v := by
  apply BitVec.eq_of_getLsbD_eq
  intro i small
  have sign : (x.signExtend m).msb = x.msb := by
    rw [BitVec.msb_eq_getLsbD_last, BitVec.getLsbD_signExtend, decide_eq_true (by omega), Bool.true_and]
    split_ifs with last
    · rw [BitVec.msb_eq_getLsbD_last, show n - 1 = m - 1 by omega]
    · rfl
  rw [BitVec.getLsbD_signExtend, BitVec.getLsbD_signExtend, BitVec.getLsbD_signExtend, sign]
  by_cases here : i < m
  · simp [small, here]
  · have beyond : ¬i < n := by omega
    simp [here, beyond]

/-! ### Fields of integers -/

theorem toNat_ofInt (w : Nat) (z : Int) : ((BitVec.ofInt w z).toNat : Int) = z % (2 ^ w : Nat) := by
  have pos := Nat.two_pow_pos w
  rw [BitVec.toNat_ofInt]
  exact Int.toNat_of_nonneg (Int.emod_nonneg z (by omega))

theorem setWidth_ofInt {w : Nat} (z : Int) (inside : n ≤ w) : (BitVec.ofInt w z).setWidth n = BitVec.ofInt n z := by
  apply BitVec.eq_of_toNat_eq
  have divides : ((2 ^ n : Nat) : Int) ∣ (2 ^ w : Nat) := Int.natCast_dvd_natCast.mpr (Nat.pow_dvd_pow 2 inside)
  rw [← Int.natCast_inj, BitVec.toNat_setWidth, Int.natCast_emod, toNat_ofInt, toNat_ofInt,
    Int.emod_emod_of_dvd z divides]

/-- A word with zeroes behind it. -/
theorem ofInt_append_zero (z : Int) : BitVec.ofInt n z ++ 0#m = BitVec.ofInt (n + m) ((2 ^ m : Nat) * z) := by
  apply BitVec.eq_of_toNat_eq
  have pos := Nat.two_pow_pos m
  rw [← Int.natCast_inj, BitVec.toNat_append, Nat.shiftLeft_eq, BitVec.toNat_ofNat, Nat.zero_mod, Nat.or_zero,
    Int.natCast_mul, toNat_ofInt, toNat_ofInt, Nat.pow_add, Nat.mul_comm (2 ^ n), Int.natCast_mul,
    Int.mul_emod_mul_of_pos _ _ (by omega), Int.mul_comm]

end Fields
