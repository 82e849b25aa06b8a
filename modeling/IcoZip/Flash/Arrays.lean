import IcoZip.Flash.SpiNor
import IcoZip.Library.Loop

/-! What the loops of `FLASHSIM` over its array do, and its masks. -/

set_option autoImplicit false

namespace IcoZip.Flash.Flashsim

open SpiNor (erased)

/-! ### Loops over the array -/

section
variable {lglen : Nat}

theorem membytes_toNat (small : lglen < 32) : (membytes lglen).toNat = 2 ^ lglen := by
  have bound : 2 ^ lglen < 2 ^ 32 := Nat.pow_lt_pow_right (by decide) small
  have one : (1#32).toNat = 1 := rfl
  rw [membytes, BitVec.toNat_shiftLeft, Nat.shiftLeft_eq, one, Nat.one_mul, Nat.mod_eq_of_lt bound]

/-- A loop that writes one byte after the other inside the array. -/
theorem forEach_eq {base : BitVec 32} {f : Nat → BitVec 8 → BitVec 8} {body : Array8 → Nat → Option Array8} (n : Nat)
    (fits : base.toNat + n ≤ 2 ^ 32)
    (writes : ∀ mem i, i < n → body mem i =
      some (Function.update mem (base + BitVec.ofNat 32 i) (f i (mem (base + BitVec.ofNat 32 i))))) (mem : Array8) :
    forEach n body mem = some fun x =>
      if base.toNat ≤ x.toNat ∧ x.toNat < base.toNat + n then f (x.toNat - base.toNat) (mem x) else mem x := by
  -- the bytes below the index are written, the others are as they were
  induction n with
  | zero =>
    have none (x : BitVec 32) : ¬ (base.toNat ≤ x.toNat ∧ x.toNat < base.toNat + 0) := by omega
    simp only [none, if_false]
    rfl
  | succ n ih =>
    have before := ih (by omega) fun mem i inside => writes mem i (Nat.lt_succ_of_lt inside)
    have place : (base + BitVec.ofNat 32 n).toNat = base.toNat + n := by
      rw [BitVec.toNat_add, BitVec.toNat_ofNat]
      omega
    unfold forEach at before ⊢
    rw [List.range_succ, List.foldlM_append, before, Option.bind_eq_bind, Option.bind_some, List.foldlM_cons,
      writes _ n (Nat.lt_succ_self n)]
    change some (Function.update _ _ _) = _
    congr 1
    funext x
    by_cases here : x = base + BitVec.ofNat 32 n
    · rw [here, Function.update_self, place, if_neg (by omega), if_pos (by omega), Nat.add_sub_cancel_left]
    · have other : x.toNat ≠ base.toNat + n := fun same => here (BitVec.eq_of_toNat_eq (same.trans place.symm))
      have same : (base.toNat ≤ x.toNat ∧ x.toNat < base.toNat + n) ↔
          base.toNat ≤ x.toNat ∧ x.toNat < base.toNat + (n + 1) := by omega
      rw [Function.update_of_ne here]
      simp only [same]

theorem inside_array {base : BitVec 32} {n i : Nat} (small : lglen < 32) (room : base.toNat + n ≤ 2 ^ lglen)
    (inside : i < n) : base + BitVec.ofNat 32 i < membytes lglen := by
  have bound : 2 ^ lglen < 2 ^ 32 := Nat.pow_lt_pow_right (by decide) small
  rw [BitVec.lt_def, membytes_toNat small, BitVec.toNat_add, BitVec.toNat_ofNat]
  omega

theorem eraseFrom_eq {base : BitVec 32} {n : Nat} (small : lglen < 32) (room : base.toNat + n ≤ 2 ^ lglen)
    (mem : Array8) : eraseFrom lglen base n mem = some fun x =>
      if base.toNat ≤ x.toNat ∧ x.toNat < base.toNat + n then 0xff#8 else mem x := by
  have bound : 2 ^ lglen < 2 ^ 32 := Nat.pow_lt_pow_right (by decide) small
  have fits : base.toNat + n ≤ 2 ^ 32 := by omega
  exact forEach_eq (f := fun _ _ => 0xff#8) n fits (fun mem i inside => if_pos (inside_array small room inside)) mem

theorem programPage_eq {base : BitVec 32} {pmem : BitVec 8 → BitVec 8} (small : lglen < 32)
    (room : base.toNat + 256 ≤ 2 ^ lglen) (mem : Array8) : programPage lglen base pmem mem = some fun x =>
      if base.toNat ≤ x.toNat ∧ x.toNat < base.toNat + 256
        then mem x &&& pmem (BitVec.ofNat 8 (x.toNat - base.toNat)) else mem x := by
  have bound : 2 ^ lglen < 2 ^ 32 := Nat.pow_lt_pow_right (by decide) small
  have fits : base.toNat + 256 ≤ 2 ^ 32 := by omega
  apply forEach_eq (f := fun i byte => byte &&& pmem (BitVec.ofNat 8 i)) 256 fits
  intro mem i inside
  have here := inside_array small room inside
  simp only [load, store, here, if_true, Option.bind_eq_bind, Option.bind_some]

end

/-! ### Masks -/

section
variable {lglen : Nat}

theorem page_toNat (a : BitVec 32) : (a &&& ~~~0x0ff#32).toNat = a.toNat / 256 * 256 := by
  have mask : (~~~0x0ff#32).toNat = 2 ^ 32 - 2 ^ 8 := by decide
  rw [BitVec.toNat_and, mask]
  exact Loop.and_mask a.isLt (by decide)

theorem sector_toNat (a : BitVec 32) : (a &&& 0xffff0000#32).toNat = a.toNat / 65536 * 65536 := by
  have mask : (0xffff0000#32).toNat = 2 ^ 32 - 2 ^ 16 := by decide
  rw [BitVec.toNat_and, mask]
  exact Loop.and_mask a.isLt (by decide)

theorem low_toNat (x : BitVec 32) : (x &&& 0x0ff#32).toNat = x.toNat % 256 := by
  rw [BitVec.toNat_and]
  exact Nat.and_two_pow_sub_one_eq_mod _ 8

/-- Where a bit is in its byte. -/
theorem position_toNat (x : BitVec 32) : (x &&& 0x07#32).toNat = x.toNat % 8 := by
  rw [BitVec.toNat_and]
  exact Nat.and_two_pow_sub_one_eq_mod _ 3

/-- A mask of some bits in the middle. -/
theorem window_toNat (x : BitVec 32) (n k : Nat) (fits : (2 ^ n - 1) <<< k < 2 ^ 32) :
    (x &&& BitVec.ofNat 32 ((2 ^ n - 1) <<< k)).toNat = x.toNat / 2 ^ k % 2 ^ n * 2 ^ k := by
  rw [BitVec.toNat_and, BitVec.toNat_ofNat, Nat.mod_eq_of_lt fits, ← Nat.shiftLeft_eq, ← Nat.shiftRight_eq_div_pow]
  apply Nat.eq_of_testBit_eq
  intro i
  rw [Nat.testBit_and, Nat.testBit_shiftLeft, Nat.testBit_shiftLeft, Nat.testBit_mod_two_pow,
    Nat.testBit_two_pow_sub_one, Nat.testBit_shiftRight]
  by_cases above : k ≤ i
  · rw [Nat.add_sub_cancel' above, decide_eq_true above, Bool.true_and, Bool.true_and, Bool.and_comm]
  · rw [decide_eq_false above, Bool.false_and, Bool.and_false, Bool.false_and]

theorem memmask_toNat (small : lglen < 32) (a : BitVec 32) : (a &&& memmask lglen).toNat = a.toNat % 2 ^ lglen := by
  have positive : 0 < 2 ^ lglen := Nat.two_pow_pos lglen
  have mask : (memmask lglen).toNat = 2 ^ lglen - 1 := by
    have bytes := membytes_toNat small
    have one : (1#32).toNat = 1 := rfl
    rw [memmask, BitVec.toNat_sub_of_le (by rw [BitVec.le_def, bytes, one]; exact positive), bytes, one]
  rw [BitVec.toNat_and, mask, Nat.and_two_pow_sub_one_eq_mod]

/-- The array is made of sectors. -/
theorem sectors (large : 16 ≤ lglen) : ∃ k, 2 ^ lglen = 65536 * k ∧ 0 < k :=
  ⟨2 ^ (lglen - 16), by rw [show (65536 : Nat) = 2 ^ 16 from rfl, ← Nat.pow_add, Nat.add_sub_cancel' large],
    Nat.two_pow_pos _⟩

/-- The page of an address is programmed. -/
theorem programPage_page (large : 16 ≤ lglen) (small : lglen < 32) {a : BitVec 32} (inside : a.toNat < 2 ^ lglen)
    (pmem : BitVec 8 → BitVec 8) (mem : Array8) :
    programPage lglen (a &&& ~~~0x0ff#32) pmem mem = some fun x =>
      if x.toNat / 256 = a.toNat / 256 then mem x &&& pmem (x.setWidth 8) else mem x := by
  obtain ⟨k, whole, -⟩ := sectors large
  have base := page_toNat a
  rw [programPage_eq small (by omega), base]
  congr 1
  funext x
  have page : (a.toNat / 256 * 256 ≤ x.toNat ∧ x.toNat < a.toNat / 256 * 256 + 256) ↔
      x.toNat / 256 = a.toNat / 256 := by omega
  simp only [page]
  split_ifs with same
  · have offset : BitVec.ofNat 8 (x.toNat - a.toNat / 256 * 256) = x.setWidth 8 := by
      apply BitVec.eq_of_toNat_eq
      rw [BitVec.toNat_ofNat, BitVec.toNat_setWidth]
      omega
    rw [offset]
  · rfl

theorem eraseFrom_sector (large : 16 ≤ lglen) (small : lglen < 32) {a : BitVec 32} (inside : a.toNat < 2 ^ lglen)
    (mem : Array8) : eraseFrom lglen (a &&& 0xffff0000#32) 65536 mem = some (erased mem a.toNat) := by
  obtain ⟨k, whole, -⟩ := sectors large
  have base := sector_toNat a
  rw [eraseFrom_eq small (by omega), base]
  congr 1
  funext x
  have sector : (a.toNat / 65536 * 65536 ≤ x.toNat ∧ x.toNat < a.toNat / 65536 * 65536 + 65536) ↔
      x.toNat / 65536 = a.toNat / 65536 := by omega
  simp only [sector]
  rfl

end

end IcoZip.Flash.Flashsim
