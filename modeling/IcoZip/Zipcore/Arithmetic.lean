import IcoZip.Library.Fields
import IcoZip.Zipcore.Cpuops
import IcoZip.Zipcore.Multiply
import Mathlib.Data.List.Forall2

/-! The arithmetic unit answers every operation with its result and its flags.

An operation is one that is issued while the unit is not busy. What an operation means is said in terms of numbers
here; the unit is shown to meet that for each of them, in order, whatever clocks the multiplier takes.
-/

set_option autoImplicit false

namespace IcoZip.Zipcore

namespace Cpuops

/-! ### What the operations mean -/

/-- The result of an operation. -/
def reference (op : BitVec 4) (a b : BitVec 32) : BitVec 32 :=
  if op = 0x0#4 then a - b
  else if op = 0x1#4 then a &&& b
  else if op = 0x2#4 then a + b
  else if op = 0x3#4 then a ||| b
  else if op = 0x4#4 then a ^^^ b
  else if op = 0x5#4 then a >>> b.toNat
  else if op = 0x6#4 then a <<< b.toNat
  else if op = 0x7#4 then a.sshiftRight b.toNat
  else if op = 0x8#4 then b.reverse
  else if op = 0x9#4 then a.extractLsb' 16 16 ++ b.extractLsb' 0 16
  else if op = 0xa#4 then BitVec.ofNat 32 (a.toNat * b.toNat / 2 ^ 32)
  else if op = 0xb#4 then BitVec.ofInt 32 (a.toInt * b.toInt / 2 ^ 32)
  else if op = 0xc#4 then a * b
  else b

/-- What comes out with `o_valid`. -/
structure Outcome where
  oC : BitVec 32
  oF : BitVec 4
  deriving DecidableEq, Repr

namespace Outcome

variable (out : Outcome)

def v : Bool := out.oF.getLsbD 3

def n : Bool := out.oF.getLsbD 2

def c : Bool := out.oF.getLsbD 1

def z : Bool := out.oF.getLsbD 0

end Outcome

/-- The bit that leaves the word last is at its edge after all the other places. -/
structure Meets (i : Inputs) (out : Outcome) : Prop where
  value : out.oC = reference i.op i.a i.b
  lsr : i.op = 0x5#4 → out.c = (decide (0 < i.b.toNat) && (i.a >>> (i.b.toNat - 1)).getLsbD 0)
  lsl : i.op = 0x6#4 → out.c = (decide (0 < i.b.toNat) && (i.a <<< (i.b.toNat - 1)).getLsbD 31)
  asr : i.op = 0x7#4 → out.c = (decide (0 < i.b.toNat) && (i.a.sshiftRight (i.b.toNat - 1)).getLsbD 0)
  less : i.op = 0x0#4 → out.n = decide (i.a.toInt < i.b.toInt)
  below : i.op = 0x0#4 → out.c = decide (i.a.toNat < i.b.toNat)
  equal : i.op = 0x0#4 → out.z = decide (i.a = i.b)
  carry : i.op = 0x2#4 → out.c = decide (2 ^ 32 ≤ i.a.toNat + i.b.toNat)
  overflow : i.op = 0x2#4 → out.v = decide (i.a.toInt + i.b.toInt < -2 ^ 31 ∨ 2 ^ 31 ≤ i.a.toInt + i.b.toInt)

/-! ### Shifts -/

section Shifts
variable (a b : BitVec 32)

theorem nonzero {n : Nat} (x : BitVec n) : (x != 0) = decide (x.toNat ≠ 0) := by
  rw [Bool.eq_iff_iff, bne_iff_ne, decide_eq_true_iff, ne_eq, ← BitVec.toNat_inj]
  rfl

theorem amount : (b.extractLsb' 0 5).toNat = b.toNat % 32 := by
  rw [BitVec.extractLsb'_toNat, Nat.shiftRight_zero]

theorem shiftsOut_eq : shiftsOut b = decide (32 < b.toNat) := by
  have bound := b.isLt
  rw [shiftsOut, nonzero, nonzero, amount, BitVec.extractLsb'_toNat, BitVec.getLsbD, Nat.testBit_eq_decide_div_mod_eq,
    Nat.shiftRight_eq_div_pow, Bool.eq_iff_iff]
  simp only [Bool.or_eq_true, Bool.and_eq_true, decide_eq_true_iff]
  omega

theorem atWord (below : ¬32 < b.toNat) : b.getLsbD 5 = decide (b.toNat = 32) := by
  rw [BitVec.getLsbD, Nat.testBit_eq_decide_div_mod_eq, decide_eq_decide]
  omega

theorem wLsrResult_eq : wLsrResult true a b = (a ++ 0b0#1 : BitVec 33) >>> b.toNat := by
  rw [wLsrResult, if_pos rfl, shiftsOut_eq, amount]
  by_cases far : 32 < b.toNat
  · rw [decide_eq_true far, if_pos rfl]
    exact (BitVec.ushiftRight_eq_zero far).symm
  · rw [decide_eq_false far, if_neg Bool.false_ne_true, atWord b far]
    by_cases whole : b.toNat = 32
    · rw [decide_eq_true whole, if_pos rfl, whole]
      apply BitVec.eq_of_getLsbD_eq
      intro p inside
      rw [BitVec.getLsbD_append, BitVec.getLsbD_ushiftRight, BitVec.getLsbD_append, if_neg (by omega : ¬32 + p < 1),
        BitVec.getLsbD_extractLsb', BitVec.getLsbD_zero]
      by_cases first : p < 1
      · rw [if_pos first, decide_eq_true first, Bool.true_and, Nat.sub_eq_of_eq_add (by omega : 32 + p = 31 + p + 1)]
      · rw [if_neg first, BitVec.getLsbD_of_ge a _ (by omega)]
    · rw [decide_eq_false whole, if_neg Bool.false_ne_true, Nat.mod_eq_of_lt (by omega)]

theorem wLslResult_eq : wLslResult true a b = (0b0#1 ++ a : BitVec 33) <<< b.toNat := by
  rw [wLslResult, if_pos rfl, shiftsOut_eq, amount]
  by_cases far : 32 < b.toNat
  · rw [decide_eq_true far, if_pos rfl]
    exact (BitVec.shiftLeft_eq_zero far).symm
  · rw [decide_eq_false far, if_neg Bool.false_ne_true, atWord b far]
    by_cases whole : b.toNat = 32
    · rw [decide_eq_true whole, if_pos rfl, whole]
      apply BitVec.eq_of_getLsbD_eq
      intro p inside
      rw [BitVec.getLsbD_append, BitVec.getLsbD_shiftLeft, BitVec.getLsbD_append, BitVec.getLsbD_zero,
        BitVec.getLsbD_extractLsb', decide_eq_true inside, Bool.true_and]
      by_cases low : p < 32
      · rw [if_pos low, decide_eq_true low, Bool.not_true, Bool.false_and]
      · have last : p - 32 = 0 := by omega
        rw [if_neg low, decide_eq_false low, last]
        rfl
    · rw [decide_eq_false whole, if_neg Bool.false_ne_true, Nat.mod_eq_of_lt (by omega)]

theorem wAsrResult_eq : wAsrResult true a b = (a ++ 0b0#1 : BitVec 33).sshiftRight b.toNat := by
  have bound := b.isLt
  have upper : (b.extractLsb' 5 27 != 0) = decide (32 ≤ b.toNat) := by
    rw [nonzero, BitVec.extractLsb'_toNat, Nat.shiftRight_eq_div_pow, decide_eq_decide]
    omega
  rw [wAsrResult, if_pos rfl, upper, amount]
  by_cases far : 32 ≤ b.toNat
  · rw [decide_eq_true far, if_pos rfl]
    apply BitVec.eq_of_getLsbD_eq
    intro p inside
    have top : (a ++ 0b0#1 : BitVec 33).msb = a.getLsbD 31 := by
      rw [BitVec.msb_eq_getLsbD_last, BitVec.getLsbD_append]
      rfl
    have sign : (a.extractLsb' 31 1).msb = a.getLsbD 31 := by
      rw [BitVec.msb_eq_getLsbD_last, BitVec.getLsbD_extractLsb']
      rfl
    rw [BitVec.getLsbD_sshiftRight, BitVec.getLsbD_signExtend, top, sign, decide_eq_true inside,
      decide_eq_false (by omega : ¬33 ≤ p)]
    have left : (if p < 1 then (a.extractLsb' 31 1).getLsbD p else a.getLsbD 31) = a.getLsbD 31 := by
      by_cases first : p < 1
      · obtain rfl : p = 0 := by omega
        rw [if_pos first, BitVec.getLsbD_extractLsb']
        rfl
      · rw [if_neg first]
    have right : (if b.toNat + p < 33 then (a ++ 0b0#1 : BitVec 33).getLsbD (b.toNat + p) else a.getLsbD 31) =
        a.getLsbD 31 := by
      by_cases word : b.toNat + p < 33
      · have edge : b.toNat + p = 32 := by omega
        rw [if_pos word, edge, BitVec.getLsbD_append]
        rfl
      · rw [if_neg word]
    rw [left, right]
    rfl
  · rw [decide_eq_false far, if_neg Bool.false_ne_true, Nat.mod_eq_of_lt (by omega)]

/-- The place below a word stands for the carry of a right shift. -/
theorem padded_bit (p : Nat) : (a ++ 0b0#1 : BitVec 33).getLsbD p = (decide (0 < p) && a.getLsbD (p - 1)) := by
  rw [BitVec.getLsbD_append]
  by_cases first : p < 1
  · obtain rfl : p = 0 := by omega
    rfl
  · rw [if_neg first, decide_eq_true (by omega : 0 < p), Bool.true_and]

theorem padded_msb : (a ++ 0b0#1 : BitVec 33).msb = a.msb := by
  rw [BitVec.msb_eq_getLsbD_last, BitVec.msb_eq_getLsbD_last, padded_bit]
  rfl

/-- The place above a word stands for the carry of a left shift. -/
theorem extended_bit (p : Nat) : (0b0#1 ++ a : BitVec 33).getLsbD p = a.getLsbD p := by
  rw [BitVec.getLsbD_append]
  split
  · rfl
  · rw [BitVec.getLsbD_zero, BitVec.getLsbD_of_ge a p (by omega)]

variable (n : Nat)

theorem right_value : ((a ++ 0b0#1 : BitVec 33) >>> n).extractLsb' 1 32 = a >>> n := by
  apply BitVec.eq_of_getLsbD_eq
  intro p inside
  rw [BitVec.getLsbD_extractLsb', decide_eq_true inside, Bool.true_and, BitVec.getLsbD_ushiftRight, padded_bit,
    BitVec.getLsbD_ushiftRight, decide_eq_true (by omega : 0 < n + (1 + p)), Bool.true_and,
    Nat.sub_eq_of_eq_add (by omega : n + (1 + p) = n + p + 1)]

theorem right_carry :
    ((a ++ 0b0#1 : BitVec 33) >>> n).getLsbD 0 = (decide (0 < n) && (a >>> (n - 1)).getLsbD 0) := by
  rw [BitVec.getLsbD_ushiftRight, padded_bit, BitVec.getLsbD_ushiftRight, Nat.add_zero, Nat.add_zero]

theorem left_value : ((0b0#1 ++ a : BitVec 33) <<< n).extractLsb' 0 32 = a <<< n := by
  apply BitVec.eq_of_getLsbD_eq
  intro p inside
  rw [BitVec.getLsbD_extractLsb', decide_eq_true inside, Bool.true_and, BitVec.getLsbD_shiftLeft, extended_bit,
    BitVec.getLsbD_shiftLeft, Nat.zero_add, decide_eq_true inside, decide_eq_true (by omega : p < 33)]

theorem left_carry :
    ((0b0#1 ++ a : BitVec 33) <<< n).getLsbD 32 = (decide (0 < n) && (a <<< (n - 1)).getLsbD 31) := by
  rw [BitVec.getLsbD_shiftLeft, extended_bit, BitVec.getLsbD_shiftLeft]
  by_cases some : 0 < n
  · have place : 31 - (n - 1) = 32 - n := by omega
    have past : (31 < n - 1) = (32 < n) := by
      rw [eq_iff_iff]
      omega
    simp only [some, place, past, decide_true, Bool.true_and]
    rfl
  · rw [decide_eq_false some, Bool.false_and, BitVec.getLsbD_of_ge a _ (by omega), Bool.and_false]

theorem signed_value : ((a ++ 0b0#1 : BitVec 33).sshiftRight n).extractLsb' 1 32 = a.sshiftRight n := by
  apply BitVec.eq_of_getLsbD_eq
  intro p inside
  have place : n + (1 + p) - 1 = n + p := by omega
  have within : (n + (1 + p) < 33) = (n + p < 32) := by
    rw [eq_iff_iff]
    omega
  rw [BitVec.getLsbD_extractLsb', decide_eq_true inside, BitVec.getLsbD_sshiftRight, BitVec.getLsbD_sshiftRight,
    padded_bit, padded_msb, decide_eq_true (by omega : 0 < n + (1 + p)), Bool.true_and, Bool.true_and, place,
    decide_eq_false (by omega : ¬33 ≤ 1 + p), decide_eq_false (by omega : ¬32 ≤ p)]
  simp only [within]

theorem signed_carry : ((a ++ 0b0#1 : BitVec 33).sshiftRight n).getLsbD 0 =
    (decide (0 < n) && (a.sshiftRight (n - 1)).getLsbD 0) := by
  rw [BitVec.getLsbD_sshiftRight, BitVec.getLsbD_sshiftRight, padded_bit, padded_msb]
  simp only [Nat.add_zero]
  by_cases some : 0 < n
  · have within : (n < 32 + 1) = (n - 1 < 32) := by
      rw [eq_iff_iff]
      omega
    simp only [some, within, decide_true, Bool.true_and]
    rfl
  · have none : n = 0 := by omega
    rw [none]
    rfl

end Shifts

/-! ### Sums and differences -/

section Sums
variable (a b : BitVec 32)

theorem difference_value : ((0b0#1 ++ a : BitVec 33) - (0b0#1 ++ b)).extractLsb' 0 32 = a - b := by
  apply BitVec.eq_of_toNat_eq
  have bound := a.isLt
  have bound' := b.isLt
  rw [BitVec.extractLsb'_toNat, BitVec.toNat_sub, BitVec.toNat_sub, Fields.toNat_zero_append, Fields.toNat_zero_append]
  simp only [Nat.shiftRight_zero]
  omega

theorem difference_borrow :
    ((0b0#1 ++ a : BitVec 33) - (0b0#1 ++ b)).getLsbD 32 = decide (a.toNat < b.toNat) := by
  have bound := a.isLt
  have bound' := b.isLt
  rw [BitVec.getLsbD, Nat.testBit_eq_decide_div_mod_eq, BitVec.toNat_sub, Fields.toNat_zero_append,
    Fields.toNat_zero_append, decide_eq_decide]
  omega

theorem sum_value : ((0b0#1 ++ a : BitVec 33) + (0b0#1 ++ b)).extractLsb' 0 32 = a + b := by
  apply BitVec.eq_of_toNat_eq
  have bound := a.isLt
  have bound' := b.isLt
  rw [BitVec.extractLsb'_toNat, BitVec.toNat_add, BitVec.toNat_add, Fields.toNat_zero_append, Fields.toNat_zero_append]
  simp only [Nat.shiftRight_zero]
  omega

theorem sum_carry :
    ((0b0#1 ++ a : BitVec 33) + (0b0#1 ++ b)).getLsbD 32 = decide (2 ^ 32 ≤ a.toNat + b.toNat) := by
  have bound := a.isLt
  have bound' := b.isLt
  rw [BitVec.getLsbD, Nat.testBit_eq_decide_div_mod_eq, BitVec.toNat_add, Fields.toNat_zero_append,
    Fields.toNat_zero_append, decide_eq_decide]
  omega

/-- The sign of a difference, corrected where it overflows. -/
theorem difference_sign :
    ((a - b).msb != (a.msb != b.msb && a.msb != (a - b).msb)) = decide (a.toInt < b.toInt) := by
  have bound := a.isLt
  have bound' := b.isLt
  have first := BitVec.msb_eq_decide a
  have second := BitVec.msb_eq_decide b
  have result := BitVec.msb_eq_decide (a - b)
  rw [BitVec.toNat_sub] at result
  rw [BitVec.toInt_eq_msb_cond, BitVec.toInt_eq_msb_cond]
  cases negative : a.msb <;> cases negative' : b.msb <;> cases sign : (a - b).msb <;>
    rw [negative] at first <;> rw [negative'] at second <;> rw [sign] at result <;>
    simp at first second result ⊢ <;> omega

/-- A sum overflows if its sign is not the one of both operands. -/
theorem sum_overflow : (a.msb == b.msb && a.msb != (a + b).msb) =
    decide (a.toInt + b.toInt < -2 ^ 31 ∨ 2 ^ 31 ≤ a.toInt + b.toInt) := by
  have bound := a.isLt
  have bound' := b.isLt
  have first := BitVec.msb_eq_decide a
  have second := BitVec.msb_eq_decide b
  have result := BitVec.msb_eq_decide (a + b)
  rw [BitVec.toNat_add] at result
  rw [BitVec.toInt_eq_msb_cond, BitVec.toInt_eq_msb_cond]
  cases negative : a.msb <;> cases negative' : b.msb <;> cases sign : (a + b).msb <;>
    rw [negative] at first <;> rw [negative'] at second <;> rw [sign] at result <;>
    simp at first second result ⊢ <;> omega

end Sums

/-! ### Products -/

theorem high_unsigned (p : Nat) : (BitVec.ofNat 64 p).extractLsb' 32 32 = BitVec.ofNat 32 (p / 2 ^ 32) := by
  apply BitVec.eq_of_toNat_eq
  rw [BitVec.extractLsb'_toNat, BitVec.toNat_ofNat, BitVec.toNat_ofNat, Nat.shiftRight_eq_div_pow]
  omega

theorem high_signed (p : Int) : (BitVec.ofInt 64 p).extractLsb' 32 32 = BitVec.ofInt 32 (p / 2 ^ 32) := by
  apply BitVec.eq_of_toNat_eq
  rw [BitVec.extractLsb'_toNat, BitVec.toNat_ofInt, BitVec.toNat_ofInt, Nat.shiftRight_eq_div_pow]
  omega

theorem low_product (a b : BitVec 32) : (BitVec.ofNat 64 (a.toNat * b.toNat)).extractLsb' 0 32 = a * b := by
  apply BitVec.eq_of_toNat_eq
  rw [BitVec.extractLsb'_toNat, BitVec.toNat_ofNat, BitVec.toNat_mul, Nat.shiftRight_zero]
  omega

/-! ### One operation -/

/-- The operations that the shifter is for. -/
def isShift (op : BitVec 4) : Bool := op == 0x5#4 || op == 0x6#4 || op == 0x7#4

section Operation
variable {optShifts : Bool} (i : Inputs)

/-- The product that the multiplier is asked for. -/
def product : BitVec 64 := (mpyInputs i).exact 64

theorem signed_eq : (mpyInputs i).signed = i.op.getLsbD 0 := by
  rw [mpyInputs, MpyInputs.signed, BitVec.getLsbD_extractLsb']
  rfl

theorem result_value (shifts : isShift i.op = true → optShifts = true) :
    (result optShifts i.op i.a i.b (product i)).extractLsb' 0 32 = reference i.op i.a i.b := by
  rw [result, reference]
  -- One operation after the other, in the order of the source's case statement.
  by_cases sub : i.op = 0x0#4
  · rw [if_pos sub, if_pos sub]
    exact difference_value i.a i.b
  rw [if_neg sub, if_neg sub]
  by_cases and : i.op = 0x1#4
  · rw [if_pos and, if_pos and]
    exact BitVec.extractLsb'_append_eq_right
  rw [if_neg and, if_neg and]
  by_cases add : i.op = 0x2#4
  · rw [if_pos add, if_pos add]
    exact sum_value i.a i.b
  rw [if_neg add, if_neg add]
  by_cases or : i.op = 0x3#4
  · rw [if_pos or, if_pos or]
    exact BitVec.extractLsb'_append_eq_right
  rw [if_neg or, if_neg or]
  by_cases xor : i.op = 0x4#4
  · rw [if_pos xor, if_pos xor]
    exact BitVec.extractLsb'_append_eq_right
  rw [if_neg xor, if_neg xor]
  by_cases lsr : i.op = 0x5#4
  · obtain rfl : optShifts = true := shifts (by rw [lsr]; rfl)
    rw [if_pos lsr, if_pos lsr, wLsrResult_eq, right_value]
    exact BitVec.extractLsb'_append_eq_right
  rw [if_neg lsr, if_neg lsr]
  by_cases lsl : i.op = 0x6#4
  · obtain rfl : optShifts = true := shifts (by rw [lsl]; rfl)
    rw [if_pos lsl, if_pos lsl, wLslResult_eq, left_value]
  rw [if_neg lsl, if_neg lsl]
  by_cases asr : i.op = 0x7#4
  · obtain rfl : optShifts = true := shifts (by rw [asr]; rfl)
    rw [if_pos asr, if_pos asr, wAsrResult_eq, signed_value]
    exact BitVec.extractLsb'_append_eq_right
  rw [if_neg asr, if_neg asr]
  by_cases brev : i.op = 0x8#4
  · rw [if_pos brev, if_pos brev]
    exact BitVec.extractLsb'_append_eq_right
  rw [if_neg brev, if_neg brev]
  by_cases lodilo : i.op = 0x9#4
  · rw [if_pos lodilo, if_pos lodilo]
    exact BitVec.extractLsb'_append_eq_right
  rw [if_neg lodilo, if_neg lodilo]
  by_cases mpyuhi : i.op = 0xa#4
  · rw [if_pos (Or.inl mpyuhi), if_pos mpyuhi, ← high_unsigned]
    have unsigned : (mpyInputs i).signed = false := (signed_eq i).trans (mpyuhi ▸ by decide)
    rw [product, MpyInputs.exact, unsigned]
    exact BitVec.extractLsb'_append_eq_right
  rw [if_neg mpyuhi]
  by_cases mpyshi : i.op = 0xb#4
  · rw [if_pos (Or.inr mpyshi), if_pos mpyshi, ← high_signed]
    have signed : (mpyInputs i).signed = true := (signed_eq i).trans (mpyshi ▸ by decide)
    rw [product, MpyInputs.exact, signed]
    exact BitVec.extractLsb'_append_eq_right
  rw [if_neg (not_or.mpr ⟨mpyuhi, mpyshi⟩), if_neg mpyshi]
  by_cases mpy : i.op = 0xc#4
  · rw [if_pos mpy, if_pos mpy, ← low_product]
    have unsigned : (mpyInputs i).signed = false := (signed_eq i).trans (mpy ▸ by decide)
    rw [product, MpyInputs.exact, unsigned]
    exact BitVec.extractLsb'_append_eq_right
  rw [if_neg mpy, if_neg mpy]
  exact BitVec.extractLsb'_append_eq_right

/-- The registers behind an operation, when its result is there. -/
def settled (optShifts : Bool) : Cpuops where
  oC := (result optShifts i.op i.a i.b (product i)).extractLsb' 0 32
  c := (result optShifts i.op i.a i.b (product i)).getLsbD 32
  preSign := i.a.msb
  setOvfl := mayOverflow i || i.op == 0x6#4 || i.op == 0x5#4
  keepSgnOnOvfl := mayOverflow i
  busy := false
  valid := true
  mpy := .absent

/-- What the outputs say. -/
def outcome (s : Cpuops) : Outcome := ⟨s.oC, s.flags⟩

def answer (optShifts : Bool) : Outcome := (settled i optShifts).outcome

theorem flags_bits : ∀ v n c z : Bool,
    let f := BitVec.ofBool v ++ BitVec.ofBool n ++ BitVec.ofBool c ++ BitVec.ofBool z
    f.getLsbD 3 = v ∧ f.getLsbD 2 = n ∧ f.getLsbD 1 = c ∧ f.getLsbD 0 = z := by decide

variable (s : Cpuops)

theorem outcome_v : s.outcome.v = (s.setOvfl && s.preSign != s.oC.msb) := (flags_bits _ _ _ _).1

theorem outcome_n : s.outcome.n = (s.oC.msb != (s.keepSgnOnOvfl && s.preSign != s.oC.msb)) := (flags_bits _ _ _ _).2.1

theorem outcome_c : s.outcome.c = s.c := (flags_bits _ _ _ _).2.2.1

theorem outcome_z : s.outcome.z = (s.oC == 0) := (flags_bits _ _ _ _).2.2.2

theorem top_bit (x : BitVec 33) (y : BitVec 32) : (x.extractLsb' 0 1 ++ y).getLsbD 32 = x.getLsbD 0 := by
  rw [BitVec.getLsbD_append, if_neg (by decide), BitVec.getLsbD_extractLsb']
  rfl

theorem settled_sub (sub : i.op = 0x0#4) : (settled i optShifts).oC = i.a - i.b ∧
    (settled i optShifts).c = decide (i.a.toNat < i.b.toNat) ∧
    (settled i optShifts).keepSgnOnOvfl = (i.a.msb != i.b.msb) := by
  refine ⟨?_, ?_, ?_⟩
  · rw [settled, sub]
    exact difference_value i.a i.b
  · rw [settled, sub]
    exact difference_borrow i.a i.b
  · rw [settled, mayOverflow, sub]
    exact Bool.or_false _

theorem settled_add (add : i.op = 0x2#4) : (settled i optShifts).oC = i.a + i.b ∧
    (settled i optShifts).c = decide (2 ^ 32 ≤ i.a.toNat + i.b.toNat) ∧
    (settled i optShifts).setOvfl = (i.a.msb == i.b.msb) := by
  refine ⟨?_, ?_, ?_⟩
  · rw [settled, add]
    exact sum_value i.a i.b
  · rw [settled, add]
    exact sum_carry i.a i.b
  · rw [settled, mayOverflow, add]
    exact (Bool.or_false _).trans (Bool.or_false _)

theorem answer_meets (shifts : isShift i.op = true → optShifts = true) : Meets i (answer i optShifts) where
  value := result_value i shifts
  lsr := fun lsr => by
    obtain rfl : optShifts = true := shifts (by rw [lsr]; rfl)
    rw [answer, outcome_c, settled, lsr]
    exact (top_bit _ _).trans (wLsrResult_eq i.a i.b ▸ right_carry i.a i.b.toNat)
  lsl := fun lsl => by
    obtain rfl : optShifts = true := shifts (by rw [lsl]; rfl)
    rw [answer, outcome_c, settled, lsl]
    exact (congrArg (fun x => x.getLsbD 32) (wLslResult_eq i.a i.b)).trans (left_carry i.a i.b.toNat)
  asr := fun asr => by
    obtain rfl : optShifts = true := shifts (by rw [asr]; rfl)
    rw [answer, outcome_c, settled, asr]
    exact (top_bit _ _).trans (wAsrResult_eq i.a i.b ▸ signed_carry i.a i.b.toNat)
  less := fun sub => by
    obtain ⟨value, -, keep⟩ := @settled_sub optShifts i sub
    rw [answer, outcome_n, value, keep]
    exact difference_sign i.a i.b
  below := fun sub => by
    rw [answer, outcome_c]
    exact (settled_sub i sub).2.1
  equal := fun sub => by
    rw [answer, outcome_z, (settled_sub i sub).1, Bool.eq_iff_iff, beq_iff_eq, decide_eq_true_iff]
    exact BitVec.sub_eq_iff_eq_add.trans (by rw [BitVec.ofNat_eq_ofNat, BitVec.zero_add])
  carry := fun add => by
    rw [answer, outcome_c]
    exact (settled_add i add).2.1
  overflow := fun add => by
    obtain ⟨value, -, ovfl⟩ := @settled_add optShifts i add
    rw [answer, outcome_v, value, ovfl]
    exact sum_overflow i.a i.b

end Operation

/-! ### Runs -/

section Runs
variable (optShifts : Bool) (s : Cpuops) (i : Inputs)

def step : Cpuops := s.cpuops optShifts false i

def shown (s : Cpuops) (_ : Inputs) : List Outcome := if s.valid then [s.outcome] else []

/-- The unit is asked when it is not busy; the decoder asks for no product where there is no multiplier. -/
def Polite : Prop :=
  i.stb → s.busy = false ∧ (thisIsAMultiplyOp i → s.mpy ≠ .absent) ∧ (isShift i.op → optShifts)

instance : Decidable (Polite optShifts s i) := inferInstanceAs (Decidable (_ → _ ∧ (_ → _) ∧ (_ → _)))

/-- Nothing is on its way, and nothing comes out. -/
structure Ready : Prop where
  busy : s.busy = false
  valid : s.valid = false
  pending : s.mpy.pending = false

/-- The products that are on their way. -/
def Products (products : List (Bool × BitVec 64)) : Prop :=
  if s.mpy.clocked then s.mpy.Owes products else products = []

/-- What comes of a product. -/
def delivered (product : Bool × BitVec 64) : Outcome :=
  outcome { s with oC := if product.1 then product.2.extractLsb' 32 32 else product.2.extractLsb' 0 32 }

def Owes (owed : List Outcome) : Prop :=
  s.Steady ∧ ∃ products, s.Products products ∧ owed = (if s.valid then [s.outcome] else []) ++ products.map s.delivered

def asked (_ : Cpuops) : List Outcome := if i.stb then [answer i optShifts] else []

variable {optShifts s i}

theorem result_single (single : (i.op.extractLsb' 1 3 == 0x5#3 || i.op == 0xc#4) = false) (p q : BitVec 64) :
    result optShifts i.op i.a i.b p = result optShifts i.op i.a i.b q := by
  have mpyuhi : i.op ≠ 0xa#4 := fun same => by simp [same] at single
  have mpyshi : i.op ≠ 0xb#4 := fun same => by simp [same] at single
  have mpy : i.op ≠ 0xc#4 := fun same => by simp [same] at single
  simp only [result, mpyuhi, mpyshi, mpy, or_self, if_false]

/-- What is asked for comes out, where the product is there at once or not needed. -/
theorem outcome_step (stb : i.stb = true)
    (same : result optShifts i.op i.a i.b (s.mpy.result (mpyInputs i)) = result optShifts i.op i.a i.b (product i)) :
    (step optShifts s i).outcome = answer i optShifts := by
  simp only [outcome, answer, settled, step, Cpuops.cpuops, flags, stb, if_true, same]

theorem delivered_idle (stb : i.stb = false) : (step optShifts s i).delivered = s.delivered := by
  funext product
  simp only [delivered, outcome, step, Cpuops.cpuops, flags, stb]
  rfl

theorem result_multiply (multiply : (i.op.extractLsb' 1 3 == 0x5#3 || i.op == 0xc#4) = true) (p : BitVec 64) :
    result optShifts i.op i.a i.b p =
      0b0#1 ++ (if i.op.getLsbD 1 then p.extractLsb' 32 32 else p.extractLsb' 0 32) := by
  have codes : ∀ op : BitVec 4, (op.extractLsb' 1 3 == 0x5#3 || op == 0xc#4) = true →
      op = 0xa#4 ∨ op = 0xb#4 ∨ op = 0xc#4 := by decide
  obtain code | code | code := codes i.op multiply <;> rw [code] <;> rfl

theorem delivered_asked (stb : i.stb = true)
    (multiply : (i.op.extractLsb' 1 3 == 0x5#3 || i.op == 0xc#4) = true) :
    (step optShifts s i).delivered (mpyInputs i).answer = answer i optShifts := by
  have half : (mpyInputs i).high = i.op.getLsbD 1 := by
    rw [mpyInputs, MpyInputs.high, BitVec.getLsbD_extractLsb']
    rfl
  have value : (settled i optShifts).oC =
      if (mpyInputs i).high then (product i).extractLsb' 32 32 else (product i).extractLsb' 0 32 := by
    rw [settled, result_multiply multiply, half]
    exact BitVec.extractLsb'_append_eq_right
  have noCarry (p : BitVec 64) : (result optShifts i.op i.a i.b p).getLsbD 32 = false := by
    rw [result_multiply multiply, BitVec.getLsbD_append, if_neg (by decide)]
    rfl
  have carry : (settled i optShifts).c = (step optShifts s i).c := by
    simp only [settled, step, Cpuops.cpuops, stb, if_true, noCarry]
  simp only [delivered, answer, outcome, flags, MpyInputs.answer, value, carry]
  simp only [settled, step, Cpuops.cpuops, stb, if_true]
  rfl

/-- An asked unit has nothing on its way. -/
theorem Steady.free (steady : s.Steady) (polite : s.Polite optShifts i) (clocked : s.mpy.clocked = true)
    (stb : i.stb = true) : s.mpy.pending = false :=
  Bool.eq_false_iff.mpr (steady.unpending (polite stb).1 clocked)

theorem mpy_polite (steady : s.Steady) (polite : s.Polite optShifts i) (clocked : s.mpy.clocked = true) :
    s.mpy.Polite (mpyInputs i) := by
  intro multiply
  have stb : i.stb = true := by
    simp only [mpyInputs, thisIsAMultiplyOp, Bool.and_eq_true] at multiply
    exact multiply.1
  by_contra busy
  have pending := s.mpy.busy_pending (Bool.not_eq_false _ ▸ busy)
  exact Bool.false_ne_true ((steady.free polite clocked stb).symm.trans pending)

theorem not_absent {m : Mpyop} (clocked : m.clocked = true) : m ≠ .absent := by
  rintro rfl
  contradiction

/-- The multiplier is asked for nothing by an operation of another kind. -/
theorem asked_single (m : Mpyop) (single : thisIsAMultiplyOp i = false) : Mpyop.asked (mpyInputs i) m = [] := by
  rw [Mpyop.asked, mpyInputs, single]
  rfl

/-- One clock of a unit whose multiplier takes its own time. -/
theorem Steady.advance_clocked (steady : s.Steady) {products : List (Bool × BitVec 64)}
    (owes : s.mpy.Owes products) (clocked : s.mpy.clocked = true) (polite : s.Polite optShifts i) :
    ∃ later, (step optShifts s i).mpy.Owes later ∧
      (if (step optShifts s i).valid then [(step optShifts s i).outcome] else []) ++
        later.map (step optShifts s i).delivered = products.map s.delivered ++ asked optShifts i s := by
  obtain ⟨later, next, law⟩ := owes.mpyop (mpy_polite steady polite clocked)
  refine ⟨later, next, ?_⟩
  have valid : (step optShifts s i).valid = (i.stb && !thisIsAMultiplyOp i || s.mpy.valid (mpyInputs i)) := by
    simp only [step, Cpuops.cpuops, clocked, if_true, Bool.not_false, Bool.true_and]
  rw [valid]
  cases stb : i.stb with
  | true =>
    have free := steady.free polite clocked stb
    obtain rfl : products = [] := (Mpyop.owes_idle (not_absent clocked) free).mp owes
    have silent : s.mpy.valid (mpyInputs i) = false := by
      by_contra shows
      exact Bool.false_ne_true (free.symm.trans (s.mpy.valid_pending _ clocked (Bool.not_eq_false _ ▸ shows)))
    rw [Mpyop.shown, silent] at law
    simp only [Bool.false_eq_true, if_false, List.nil_append] at law
    subst law
    rw [silent, asked, stb, if_pos rfl]
    cases multiply : i.op.extractLsb' 1 3 == 0x5#3 || i.op == 0xc#4 with
    | true =>
      have this : thisIsAMultiplyOp i = true := by rw [thisIsAMultiplyOp, stb, multiply]; rfl
      rw [Mpyop.asked, mpyInputs, this]
      simp only [if_true, List.map_cons, List.map_nil, List.nil_append, Bool.not_true, Bool.and_false, Bool.or_false,
        Bool.false_eq_true, if_false]
      rw [← this]
      exact congrArg (fun out => [out]) (delivered_asked stb multiply)
    | false =>
      have this : thisIsAMultiplyOp i = false := by rw [thisIsAMultiplyOp, stb, multiply]; rfl
      rw [asked_single s.mpy this, this]
      exact congrArg (fun out => [out]) (outcome_step stb (result_single multiply _ _))
  | false =>
    have this : thisIsAMultiplyOp i = false := by rw [thisIsAMultiplyOp, stb]; rfl
    rw [asked_single s.mpy this, List.append_nil] at law
    rw [← law, delivered_idle stb, asked, stb, List.map_append, Mpyop.shown]
    cases shows : s.mpy.valid (mpyInputs i) with
    | true =>
      have out : (step optShifts s i).outcome = s.delivered (s.mpy.hi (mpyInputs i), s.mpy.result (mpyInputs i)) := by
        simp only [delivered, outcome, step, Cpuops.cpuops, flags, stb]
        rfl
      simp [out]
    | false => simp

/-- One clock: what comes out next and what is on the way are what was on the way and what is asked for. -/
theorem Steady.advance (steady : s.Steady) {products : List (Bool × BitVec 64)} (holds : s.Products products)
    (polite : s.Polite optShifts i) :
    ∃ later, (step optShifts s i).Products later ∧
      (if (step optShifts s i).valid then [(step optShifts s i).outcome] else []) ++
        later.map (step optShifts s i).delivered = products.map s.delivered ++ asked optShifts i s := by
  have keeps : (step optShifts s i).mpy.clocked = s.mpy.clocked := Mpyop.clocked_mpyop _ _ _
  rw [Products] at holds
  cases clocked : s.mpy.clocked with
  | true =>
    rw [clocked, if_pos rfl] at holds
    obtain ⟨later, owes, law⟩ := steady.advance_clocked holds clocked polite
    exact ⟨later, by rw [Products, keeps, clocked, if_pos rfl]; exact owes, law⟩
  | false =>
    rw [clocked, if_neg Bool.false_ne_true] at holds
    subst holds
    refine ⟨[], by rw [Products, keeps, clocked, if_neg Bool.false_ne_true], ?_⟩
    have valid : (step optShifts s i).valid = i.stb := by
      simp only [step, Cpuops.cpuops, clocked, Bool.not_false, Bool.true_and, Bool.false_eq_true, if_false]
    rw [valid, asked]
    cases stb : i.stb with
    | true =>
      have out : (step optShifts s i).outcome = answer i optShifts := by
        refine outcome_step stb ?_
        cases kind : s.mpy with
        | absent =>
          cases multiply : i.op.extractLsb' 1 3 == 0x5#3 || i.op == 0xc#4 with
          | true => exact absurd kind ((polite stb).2.1 (by rw [thisIsAMultiplyOp, stb, multiply]; rfl))
          | false => exact result_single multiply _ _
        | one => rw [product, ← MpyInputs.widen_mul, Mpyop.result]
        | two | three | four | slow =>
          rw [kind] at clocked
          contradiction
      simp [out]
    | false => rfl

theorem Owes.advance {owed : List Outcome} (owes : s.Owes owed) (polite : s.Polite optShifts i) :
    ∃ later, (step optShifts s i).Owes later ∧ shown s i ++ later = owed ++ asked optShifts i s := by
  obtain ⟨steady, products, holds, rfl⟩ := owes
  obtain ⟨later, next, law⟩ := steady.advance holds polite
  exact ⟨_, ⟨steady_cpuops optShifts false i, later, next, rfl⟩, by rw [law, shown, List.append_assoc]⟩

theorem Ready.owes (ready : s.Ready) : s.Owes [] := by
  refine ⟨fun _ pending => absurd (ready.pending.symm.trans pending) Bool.false_ne_true, [], ?_, ?_⟩
  · rw [Products]
    split
    · exact (Mpyop.owes_idle (not_absent ‹_›) ready.pending).mpr rfl
    · rfl
  · rw [ready.valid]
    rfl

theorem run_mpy (s : Cpuops) (is : List Inputs) :
    (Clocked.run (step optShifts) s is).mpy = Clocked.run Mpyop.step s.mpy (is.map mpyInputs) := by
  induction is generalizing s with
  | nil => rfl
  | cons i is ih => exact ih (step optShifts s i)

theorem emitted_asked (s : Cpuops) (is : List Inputs) :
    Clocked.emitted (step optShifts) (fun s i => asked optShifts i s) s is =
      (is.filter Inputs.stb).map (answer · optShifts) := by
  induction is generalizing s with
  | nil => rfl
  | cons i is ih =>
    rw [Clocked.emitted_cons, ih, asked]
    cases stb : i.stb <;> simp [stb]

/-- Every run from a unit that is ready, whatever its registers hold. -/
theorem Ready.run (ready : s.Ready) {is : List Inputs}
    (polite : Clocked.Always (step optShifts) (Polite optShifts) s is) :
    ∃ later, (Clocked.run (step optShifts) s is).Owes later ∧
      Clocked.emitted (step optShifts) shown s is ++ later = (is.filter Inputs.stb).map (answer · optShifts) := by
  obtain ⟨later, owes, law⟩ := @Clocked.conservation_rel _ _ _ (step optShifts) (Polite optShifts) shown
    (fun s i => asked optShifts i s) Owes (fun s i _ owes polite => owes.advance polite) s is [] ready.owes polite
  exact ⟨later, owes, by rw [law, List.nil_append, emitted_asked]⟩

theorem quiet_mpy {js : List Inputs} (quiet : ∀ j ∈ js, j.stb = false) :
    ∀ j ∈ js.map mpyInputs, j.stb = false := by
  intro k member
  obtain ⟨j, inside, rfl⟩ := List.mem_map.mp member
  rw [mpyInputs, thisIsAMultiplyOp, quiet j inside]
  rfl

/-- Left alone for 35 clocks, the multiplier is idle. -/
theorem Owes.idle {owed : List Outcome} (owes : s.Owes owed) {js : List Inputs} (quiet : ∀ j ∈ js, j.stb = false)
    (enough : 35 ≤ js.length) : (Clocked.run (step optShifts) s js).mpy.pending = false := by
  obtain ⟨-, products, holds, -⟩ := owes
  have bound : s.mpy.left ≤ 35 := by
    rw [Products] at holds
    split at holds
    · exact holds.left_le
    · cases kind : s.mpy with
      | absent | one => exact Nat.zero_le 35
      | two | three | four | slow => simp [kind, Mpyop.clocked] at *
  rw [run_mpy]
  exact Mpyop.pending_left _ (Mpyop.left_run (quiet_mpy quiet) _ (by rw [List.length_map]; omega))

theorem Owes.eq_nil {owed : List Outcome} (owes : s.Owes owed) (idle : s.mpy.pending = false)
    (silent : s.valid = false) : owed = [] := by
  obtain ⟨-, products, holds, rfl⟩ := owes
  obtain rfl : products = [] := by
    rw [Products] at holds
    split at holds
    · exact (Mpyop.owes_idle (not_absent ‹_›) idle).mp holds
    · exact holds
  rw [silent]
  rfl

theorem silent_step (idle : s.mpy.pending = false) (unasked : i.stb = false) : (step optShifts s i).valid = false := by
  have still (clocked : s.mpy.clocked = true) : s.mpy.valid (mpyInputs i) = false := by
    by_contra valid
    have pending := s.mpy.valid_pending _ clocked (Bool.not_eq_false _ ▸ valid)
    exact Bool.false_ne_true (idle.symm.trans pending)
  cases clocked : s.mpy.clocked with
  | true => simp [step, Cpuops.cpuops, clocked, unasked, still clocked]
  | false => simp [step, Cpuops.cpuops, clocked, unasked]

theorem always_quiet {js : List Inputs} (quiet : ∀ j ∈ js, j.stb = false) (s : Cpuops) :
    Clocked.Always (step optShifts) (Polite optShifts) s js := by
  refine Clocked.always_of_inputs (fun j member t stb => ?_) s
  rw [quiet j member] at stb
  contradiction

/-- Left alone for 36 clocks, the unit has nothing more to say. -/
theorem Owes.drained {owed later : List Outcome} (owes : s.Owes owed) {js : List Inputs}
    (quiet : ∀ j ∈ js, j.stb = false) (enough : 36 ≤ js.length)
    (owes' : (Clocked.run (step optShifts) s js).Owes later) : later = [] := by
  refine owes'.eq_nil (owes.idle quiet (by omega)) ?_
  obtain rfl | ⟨ks, j, rfl⟩ := List.eq_nil_or_concat js
  · exact absurd enough (by decide)
  · rw [List.concat_eq_append, List.forall_mem_append] at quiet
    rw [List.length_concat] at enough
    rw [List.concat_eq_append, Clocked.run_append]
    exact silent_step (owes.idle quiet.1 (by omega)) (quiet.2 j List.mem_cons_self)

/-- Every operation that is issued while the unit is not busy comes out once, in order, as its meaning says. -/
theorem computes (s : Cpuops) (ready : s.Ready) (is js : List Inputs)
    (polite : Clocked.Always (step optShifts) (Polite optShifts) s is) :
    (∃ later, List.Forall₂ Meets (is.filter Inputs.stb) (Clocked.emitted (step optShifts) shown s is ++ later)) ∧
      ((∀ j ∈ js, j.stb = false) → 36 ≤ js.length →
        List.Forall₂ Meets (is.filter Inputs.stb) (Clocked.emitted (step optShifts) shown s (is ++ js))) := by
  have meets : List.Forall₂ Meets (is.filter Inputs.stb) ((is.filter Inputs.stb).map (answer · optShifts)) := by
    have shifts : ∀ i ∈ is, i.stb = true → isShift i.op = true → optShifts = true :=
      polite.inputs fun _ _ ok stb => (ok stb).2.2
    refine List.forall₂_map_right_iff.mpr (List.forall₂_same.mpr fun i member => answer_meets i ?_)
    obtain ⟨inside, stb⟩ := List.mem_filter.mp member
    exact shifts i inside stb
  obtain ⟨later, owes, law⟩ := ready.run polite
  refine ⟨⟨later, law ▸ meets⟩, fun quiet enough => ?_⟩
  obtain ⟨last, owes', law'⟩ := ready.run ((Clocked.always_append _ s is js).mpr ⟨polite, always_quiet quiet _⟩)
  rw [Clocked.run_append] at owes'
  have none : js.filter Inputs.stb = [] := List.filter_eq_nil_iff.mpr fun j member => by simp [quiet j member]
  rw [owes.drained quiet enough owes', List.append_nil, List.filter_append, none, List.append_nil] at law'
  exact law' ▸ meets

end Runs

/-- `7 - 9`, the upper half of `-3 * 5` in four clocks, and a shift by 40. -/
theorem computes_three :
    List.Forall₂ Meets [⟨true, 0x0#4, 7, 9⟩, ⟨true, 0xb#4, -3, 5⟩, ⟨true, 0x7#4, -3, 40⟩]
      [⟨0xfffffffe#32, 0b0110#4⟩, ⟨0xffffffff#32, 0b0100#4⟩, ⟨0xffffffff#32, 0b0110#4⟩] := by
  have all := (@computes true ⟨0, false, false, false, false, false, false, .four default⟩ ⟨rfl, rfl, rfl⟩
    [⟨true, 0x0#4, 7, 9⟩, ⟨true, 0xb#4, -3, 5⟩, ⟨false, 0x0#4, 1, 1⟩, ⟨false, 0x0#4, 1, 1⟩, ⟨false, 0x0#4, 1, 1⟩,
      ⟨true, 0x7#4, -3, 40⟩] (List.replicate 36 ⟨false, 0x0#4, 1, 1⟩) (by decide +kernel)).2
    (fun j member => by rw [List.eq_of_mem_replicate member]) (by decide)
  exact all

end Cpuops

end IcoZip.Zipcore
