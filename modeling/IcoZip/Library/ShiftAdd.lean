import Mathlib.Data.BitVec
import Mathlib.Tactic.Linarith
import Mathlib.Tactic.Positivity
import Mathlib.Tactic.Ring

/-! Multiplication by shifting and adding.

An accumulator takes one row of the product at a time at its upper end and is
halved in between. A row of a signed product is entered with its sign inverted,
which makes it a word without a sign and adds the same power of two to each row,
so that the rows together are off by a constant.
-/

set_option autoImplicit false

namespace ShiftAdd

variable {n : Nat}

/-! ### Words with their sign inverted -/

theorem toNat_append (x : BitVec n) {m : Nat} (y : BitVec m) : (x ++ y).toNat = x.toNat * 2 ^ m + y.toNat := by
  rw [BitVec.toNat_append, ← Nat.shiftLeft_add_eq_or_of_lt y.isLt, Nat.shiftLeft_eq]

theorem toNat_bit (x : BitVec n) (p : Nat) : (x.extractLsb' p 1).toNat = (x.getLsbD p).toNat := by
  rw [BitVec.extractLsb'_toNat, Nat.shiftRight_eq_div_pow, Nat.pow_one, BitVec.getLsbD, Nat.testBit_eq_decide_div_mod_eq]
  rcases Nat.mod_two_eq_zero_or_one (x.toNat / 2 ^ p) with even | odd
  · simp [even]
  · simp [odd]

theorem toNat_split (x : BitVec n) (some : 0 < n) :
    x.toNat = (x.getLsbD (n - 1)).toNat * 2 ^ (n - 1) + x.toNat % 2 ^ (n - 1) := by
  have whole := Nat.div_add_mod x.toNat (2 ^ (n - 1))
  have top : x.toNat / 2 ^ (n - 1) = (x.getLsbD (n - 1)).toNat := by
    have small : x.toNat / 2 ^ (n - 1) < 2 := by
      rw [Nat.div_lt_iff_lt_mul (Nat.two_pow_pos _), ← Nat.pow_succ', Nat.succ_eq_add_one, Nat.sub_add_cancel some]
      exact x.isLt
    rw [← toNat_bit, BitVec.extractLsb'_toNat, Nat.shiftRight_eq_div_pow, Nat.pow_one, Nat.mod_eq_of_lt small]
  rw [top, Nat.mul_comm] at whole
  exact whole.symm

theorem toInt_split (x : BitVec n) (some : 0 < n) :
    x.toInt = (x.toNat % 2 ^ (n - 1) : Nat) - (x.getLsbD (n - 1)).toNat * (2 : ℤ) ^ (n - 1) := by
  have split := toNat_split x some
  have double : (2 : ℤ) ^ n = 2 * 2 ^ (n - 1) := by rw [← pow_succ', Nat.sub_add_cancel some]
  rw [BitVec.toInt_eq_msb_cond, BitVec.msb_eq_getLsbD_last]
  cases sign : x.getLsbD (n - 1) with
  | false =>
    rw [sign, Bool.toNat_false, Nat.zero_mul, Nat.zero_add] at split
    simp [← split]
  | true =>
    rw [sign] at split
    have cast : (x.toNat : ℤ) = 2 ^ (n - 1) + (x.toNat % 2 ^ (n - 1) : Nat) := by
      conv_lhs => rw [split]
      push_cast
      simp
    simp only [if_true, Bool.toNat_true]
    push_cast at cast ⊢
    rw [double]
    linarith

/-- The sign inverted. -/
theorem signInverted (x : BitVec n) (some : 0 < n) :
    ((~~~x.extractLsb' (n - 1) 1 ++ x.extractLsb' 0 (n - 1)).toNat : ℤ) = x.toInt + 2 ^ (n - 1) := by
  rw [toNat_append, BitVec.toNat_not, toNat_bit, BitVec.extractLsb'_toNat, Nat.shiftRight_zero, toInt_split x some]
  cases x.getLsbD (n - 1) <;> simp
  ring

/-- Everything but the sign inverted. -/
theorem restInverted (x : BitVec n) (some : 0 < n) :
    ((x.extractLsb' (n - 1) 1 ++ ~~~x.extractLsb' 0 (n - 1)).toNat : ℤ) = 2 ^ (n - 1) - 1 - x.toInt := by
  have low : x.toNat % 2 ^ (n - 1) < 2 ^ (n - 1) := Nat.mod_lt _ (Nat.two_pow_pos _)
  have rest : ((2 ^ (n - 1) - 1 - x.toNat % 2 ^ (n - 1) : Nat) : ℤ) =
      2 ^ (n - 1) - 1 - (x.toNat % 2 ^ (n - 1) : Nat) := by
    rw [Nat.sub_sub, Nat.cast_sub (by omega)]
    push_cast
    ring
  rw [toNat_append, BitVec.toNat_not, toNat_bit, BitVec.extractLsb'_toNat, Nat.shiftRight_zero, toInt_split x some,
    Nat.cast_add, rest]
  cases x.getLsbD (n - 1) <;> simp
  ring

/-- A word does not show the carries out of it. -/
theorem ofInt_wrapped (x q : ℤ) : BitVec.ofInt n (x + 2 ^ n * q) = BitVec.ofInt n x := by
  refine BitVec.eq_of_toNat_eq ?_
  rw [BitVec.toNat_ofInt, BitVec.toNat_ofInt]
  push_cast
  rw [Int.add_mul_emod_self_left]

/-- Two words side by side hold the product. -/
theorem toInt_product (x y : BitVec n) (some : 0 < n) :
    (BitVec.ofInt (n + n) (x.toInt * y.toInt)).toInt = x.toInt * y.toInt := by
  have most := @BitVec.toInt_mul_toInt_le n x y
  have least := @BitVec.le_toInt_mul_toInt n x y
  have places : n * 2 - 2 + 2 = n + n := by omega
  have whole : (2 : ℤ) ^ (n + n) = 4 * 2 ^ (n * 2 - 2) := by
    rw [← places, pow_add]
    ring
  have positive : (0 : ℤ) < 2 ^ (n * 2 - 2) := by positivity
  rw [BitVec.toInt_ofInt]
  refine Int.bmod_eq_of_le_mul_two ?_ ?_ <;> push_cast <;> rw [whole] <;> omega

/-! ### Rows -/

/-- The first `k` rows of a product. -/
def rows (a : ℤ) (b : BitVec n) (k : Nat) : ℤ := a * (b.toNat % 2 ^ k : Nat)

theorem rows_zero (a : ℤ) (b : BitVec n) : rows a b 0 = 0 := by simp [rows, Nat.mod_one]

theorem rows_succ (a : ℤ) (b : BitVec n) (k : Nat) :
    rows a b (k + 1) = rows a b k + 2 ^ k * (if b.getLsbD k then a else 0) := by
  have bit : b.toNat / 2 ^ k % 2 = (b.getLsbD k).toNat := by
    rw [← toNat_bit, BitVec.extractLsb'_toNat, Nat.shiftRight_eq_div_pow, Nat.pow_one]
  rw [rows, rows, Nat.mod_pow_succ, bit]
  cases b.getLsbD k <;> push_cast <;> simp
  ring

/-- All of them, without a sign. -/
theorem rows_all (a : ℤ) (b : BitVec n) : rows a b n = a * b.toNat := by rw [rows, Nat.mod_eq_of_lt b.isLt]

/-- The last row counts against the others where there is one. -/
theorem rows_signed (a : ℤ) (b : BitVec n) (some : 0 < n) :
    rows a b (n - 1) - 2 ^ (n - 1) * (if b.getLsbD (n - 1) then a else 0) = a * b.toInt := by
  rw [rows, toInt_split b some]
  cases b.getLsbD (n - 1) <;> simp
  ring

/-! ### The accumulator -/

/-- One row into the accumulator of `n` places above the point. -/
theorem accumulate {k : Nat} (more : k < n) {acc : Nat} {sum word : ℤ} (held : (acc : ℤ) = 2 ^ (n - k) * sum) :
    (acc / 2 : ℤ) + 2 ^ (n - 1) * word = 2 ^ (n - (k + 1)) * (sum + 2 ^ k * word) := by
  have places : n - k = n - (k + 1) + 1 := by omega
  have whole : (2 : ℤ) ^ (n - 1) = 2 ^ (n - (k + 1)) * 2 ^ k := by
    rw [← pow_add]
    congr 1
    omega
  have half : (acc / 2 : ℤ) = 2 ^ (n - (k + 1)) * sum := by
    rw [held, places, pow_succ, mul_right_comm]
    exact Int.mul_ediv_cancel _ (by decide)
  rw [half, whole]
  ring

end ShiftAdd
