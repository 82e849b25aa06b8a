import Mathlib.Data.BitVec

/-! Counters that count down to zero, with what a test for zero or one says about their number. -/

set_option autoImplicit false

namespace Counter

variable {w : Nat} {x : BitVec w}

theorem sub_toNat {k : Nat} (fits : k ≤ x.toNat) : (x - BitVec.ofNat w k).toNat = x.toNat - k := by
  have small : (BitVec.ofNat w k).toNat = k := Nat.mod_eq_of_lt (Nat.lt_of_le_of_lt fits x.isLt)
  rw [BitVec.toNat_sub_of_le, small]
  rwa [BitVec.le_def, small]

theorem sub_one_toNat (fits : 1 ≤ x.toNat) : (x - 1#w).toNat = x.toNat - 1 := sub_toNat fits

theorem sub_two_toNat (fits : 2 ≤ x.toNat) : (x - 2#w).toNat = x.toNat - 2 := sub_toNat fits

theorem eq_one (wide : 1 < 2 ^ w) : x = 1#w ↔ x.toNat = 1 := by
  have one : (1#w).toNat = 1 := Nat.mod_eq_of_lt wide
  rw [← BitVec.toNat_inj, one]

theorem beq_one (wide : 1 < 2 ^ w) : (x == 1#w) = decide (x.toNat = 1) := by
  rw [Bool.eq_iff_iff, beq_iff_eq, decide_eq_true_eq, eq_one wide]

theorem beq_zero : (x == 0#w) = decide (x.toNat = 0) := by
  rw [Bool.eq_iff_iff, beq_iff_eq, decide_eq_true_eq, ← BitVec.toNat_inj, BitVec.toNat_ofNat, Nat.zero_mod]

end Counter
