import IcoZip.Library.Clocked
import IcoZip.Library.ShiftAdd
import IcoZip.Zipcore.Div

/-! What `div` answers: the long division in its registers, and the operands for which it starts right. -/

set_option autoImplicit false

namespace IcoZip.Zipcore.Div

variable {s : Div} {i j : Inputs}

/-! ### One digit -/

/-- The digits of a number in binary, brought down one by one. -/
theorem bring_down {d b : Nat} (n : Nat) (some : 0 < d) (bit : b < 2) :
    ((2 * n + b) / d = 2 * (n / d) + if d ≤ 2 * (n % d) + b then 1 else 0) ∧
      (2 * n + b) % d = if d ≤ 2 * (n % d) + b then 2 * (n % d) + b - d else 2 * (n % d) + b := by
  have whole := Nat.div_add_mod n d
  have less := Nat.mod_lt n some
  generalize n / d = q at *
  generalize n % d = r at *
  have sum : 2 * n + b = d * (2 * q) + (2 * r + b) := by
    rw [← whole, Nat.mul_add, ← Nat.mul_assoc, ← Nat.mul_assoc, Nat.mul_comm 2 d, Nat.add_assoc]
  rw [sum, Nat.mul_add_div some, Nat.mul_add_mod]
  by_cases fits : d ≤ 2 * r + b
  · have one : (2 * r + b) / d = 1 := by
      rw [Nat.div_eq_sub_div some fits, Nat.div_eq_of_lt (by omega)]
    rw [if_pos fits, if_pos fits, one, Nat.mod_eq_sub_mod fits, Nat.mod_eq_of_lt (by omega)]
    exact ⟨rfl, rfl⟩
  · rw [if_neg fits, if_neg fits, Nat.div_eq_of_lt (by omega), Nat.mod_eq_of_lt (by omega)]
    exact ⟨rfl, rfl⟩

/-- The difference with a borrow in front. -/
theorem borrow (x y : BitVec 32) :
    ((0b0#1 ++ x) - (0b0#1 ++ y) : BitVec 33).getLsbD 32 = decide (x.toNat < y.toNat) ∧
      (y.toNat ≤ x.toNat → ((0b0#1 ++ x) - (0b0#1 ++ y) : BitVec 33).toNat = x.toNat - y.toNat) := by
  have difference : ((0b0#1 ++ x) - (0b0#1 ++ y) : BitVec 33).toNat = (2 ^ 33 - y.toNat + x.toNat) % 2 ^ 33 := by
    rw [BitVec.toNat_sub, ShiftAdd.toNat_append, ShiftAdd.toNat_append, BitVec.toNat_ofNat, Nat.zero_mod, Nat.zero_mul,
      Nat.zero_add, Nat.zero_add]
  have boundX := x.isLt
  have boundY := y.isLt
  constructor
  · rw [BitVec.getLsbD, difference, Nat.testBit_eq_decide_div_mod_eq, decide_eq_decide]
    omega
  · intro order
    rw [difference]
    omega

/-- The part of the dividend that the divisor is taken off. -/
def top (s : Div) : Nat := s.dividend.toNat / 2 ^ 31

theorem top_eq (s : Div) : (s.dividend.extractLsb' 31 32).toNat = s.top := by
  rw [BitVec.extractLsb'_toNat, Nat.shiftRight_eq_div_pow]
  have bound := s.dividend.isLt
  exact Nat.mod_eq_of_lt (by omega)

theorem diff_borrow (s : Div) : s.diff.getLsbD 32 = decide (s.top < s.divisor.toNat) := by
  rw [diff, (borrow _ _).1, top_eq]

/-- What stays of the dividend when it moves on by one bit. -/
theorem nextDividend_toNat (works : s.rBusy = true) (unsigned : s.preSign = false) :
    (s.nextDividend j).toNat =
      (if s.divisor.toNat ≤ s.top then (s.top - s.divisor.toNat) % 2 ^ 31 else s.top % 2 ^ 31) * 2 ^ 32 +
        s.dividend.toNat % 2 ^ 31 * 2 := by
  have borrowed := diff_borrow s
  rw [nextDividend, unsigned, if_neg Bool.false_ne_true, works, if_pos rfl, borrowed]
  by_cases fits : s.divisor.toNat ≤ s.top
  · have value : s.diff.toNat = s.top - s.divisor.toNat := by
      rw [diff, (borrow _ _).2 (by rw [top_eq]; exact fits), top_eq]
    rw [if_pos fits, decide_eq_false (Nat.not_lt.mpr fits), if_neg Bool.false_ne_true]
    rw [ShiftAdd.toNat_append, ShiftAdd.toNat_append, BitVec.extractLsb'_toNat, BitVec.extractLsb'_toNat, value]
    rfl
  · rw [if_neg fits, decide_eq_true (Nat.lt_of_not_le fits), if_pos rfl, ShiftAdd.toNat_append, BitVec.extractLsb'_toNat,
      top]
    have zero : (0b0#1).toNat = 0 := rfl
    rw [zero, Nat.shiftRight_zero]
    omega

/-! ### The clocks of a division -/

/-- `k` digits are out. -/
structure Dividing (d : BitVec 32) (sign : Bool) (k : Nat) (s : Div) : Prop where
  rBusy : s.rBusy = true
  busy : s.busy = true
  valid : s.valid = false
  preSign : s.preSign = false
  zeroDivisor : s.zeroDivisor = false
  sign : s.sign = sign
  divisor : s.divisor = d
  bit : s.bit = BitVec.ofNat 5 k
  lastBit : s.lastBit = decide (k = 31)

variable {d : BitVec 32} {sign : Bool} {k : Nat}

theorem Dividing.div (dividing : Dividing d sign k s) (more : k < 31) (unasked : j.wr = false) :
    Dividing d sign (k + 1) (s.div false j) := by
  obtain ⟨rBusy, busy, valid, preSign, zeroDivisor, sign, divisor, bit, lastBit⟩ := dividing
  have early : s.lastBit = false := lastBit.trans (decide_eq_false (Nat.ne_of_lt more))
  constructor
  · simp [Div.div, unasked, early, zeroDivisor, rBusy]
  · simp [Div.div, unasked, early, zeroDivisor, rBusy, busy]
  · simp [Div.div, nextValid, valid, rBusy, zeroDivisor, early]
  · simp [Div.div, unasked]
  · simp [Div.div, unasked, zeroDivisor]
  · simp [Div.div, preSign, rBusy, zeroDivisor, sign]
  · simp [Div.div, preSign, rBusy, divisor]
  · simp [Div.div, preSign, rBusy, bit, BitVec.ofNat_add]
  · have counts : ∀ k < 31, (BitVec.ofNat 5 k == 0x1e#5) = decide (k + 1 = 31) := by decide
    simp only [Div.div, rBusy, bit, Bool.not_false, Bool.true_and]
    exact counts k more

/-- The last digit. -/
theorem Dividing.last (dividing : Dividing d sign 31 s) (unasked : j.wr = false) :
    (s.div false j).rBusy = false ∧ (s.div false j).busy = sign ∧ (s.div false j).valid = !sign ∧
      (s.div false j).err = false ∧ (s.div false j).sign = sign ∧ (s.div false j).preSign = false := by
  obtain ⟨rBusy, busy, valid, preSign, zeroDivisor, sign, divisor, bit, lastBit⟩ := dividing
  have last : s.lastBit = true := lastBit
  refine ⟨?_, ?_, ?_, ?_, ?_, ?_⟩
  · simp [Div.div, unasked, last]
  · cases s.sign <;> simp_all [Div.div]
  · simp [Div.div, nextValid, valid, rBusy, zeroDivisor, last, sign]
  · simp [Div.div, zeroDivisor]
  · simp [Div.div, preSign, rBusy, zeroDivisor, sign]
  · simp [Div.div, unasked]

/-- What each digit keeps holds behind the last one. -/
theorem Dividing.run {P : Nat → Div → Prop} (kept : ∀ k s j, Dividing d sign k s → k < 32 → j.wr = false → P k s →
      P (k + 1) (s.div false j)) (is : List Inputs) (unasked : ∀ j ∈ is, j.wr = false)
    (dividing : Dividing d sign k s) (holds : P k s) (within : k + is.length < 32) :
    Dividing d sign (k + is.length) (Clocked.run (Div.div · false ·) s is) ∧
      P (k + is.length) (Clocked.run (Div.div · false ·) s is) := by
  induction is generalizing k s with
  | nil => exact ⟨dividing, holds⟩
  | cons j is ih =>
    rw [List.length_cons] at within
    have quiet := unasked j List.mem_cons_self
    have same : k + (j :: is).length = k + 1 + is.length := by
      rw [List.length_cons]
      omega
    rw [same]
    exact ih (fun j member => unasked j (List.mem_cons_of_mem _ member)) (dividing.div (by omega) quiet)
      (kept k s j dividing (by omega) quiet holds) (by omega)

/-! ### The digits -/

/-- The digits of `n` divided by `d`, after `k` of them. -/
structure Digits (n d k : Nat) (s : Div) : Prop where
  quotient : s.quotient.toNat % 2 ^ k = n / 2 ^ (32 - k) / d
  zero : s.z = decide (n / 2 ^ (32 - k) / d = 0)
  dividend : k < 32 → s.dividend.toNat = n / 2 ^ (32 - k) % d * 2 ^ 32 + n % 2 ^ (32 - k) * 2 ^ k

theorem quotient_word (works : s.rBusy = true) :
    (s.div false j).quotient = s.quotient.extractLsb' 0 31 ++ BitVec.ofBool (!s.diff.getLsbD 32) := by
  simp [Div.div, works]

theorem quotient_div (works : s.rBusy = true) (within : k < 32) : (s.div false j).quotient.toNat % 2 ^ (k + 1) =
    2 * (s.quotient.toNat % 2 ^ k) + if s.divisor.toNat ≤ s.top then 1 else 0 := by
  have digit : (BitVec.ofBool (!s.diff.getLsbD 32)).toNat = if s.divisor.toNat ≤ s.top then 1 else 0 := by
    rw [diff_borrow]
    by_cases fits : s.divisor.toNat ≤ s.top
    · rw [decide_eq_false (Nat.not_lt.mpr fits), if_pos fits]
      rfl
    · rw [decide_eq_true (Nat.lt_of_not_le fits), if_neg fits]
      rfl
  have one : (if s.divisor.toNat ≤ s.top then 1 else 0) < 2 := by split <;> decide
  have finer : 2 ^ k ∣ 2 ^ 31 := Nat.pow_dvd_pow 2 (Nat.le_of_lt_succ within)
  rw [quotient_word works, ShiftAdd.toNat_append, digit, BitVec.extractLsb'_toNat, Nat.shiftRight_zero]
  generalize (if s.divisor.toNat ≤ s.top then 1 else 0) = b at one
  have shifted (x : Nat) : (x * 2 + b) % 2 ^ (k + 1) = 2 * (x % 2 ^ k) + b := by
    have even : (x * 2 + b) % 2 = b := by omega
    have half : (x * 2 + b) / 2 = x := by omega
    rw [Nat.pow_succ', Nat.mod_mul, even, half, Nat.add_comm]
  rw [Nat.pow_one, shifted, Nat.mod_mod_of_dvd _ finer]

theorem Digits.div {n : Nat} (some : d ≠ 0) (small : n < 2 ^ 32) (k : Nat) (s : Div) (j : Inputs)
    (dividing : Dividing d sign k s) (more : k < 32) (unasked : j.wr = false) (digits : Digits n d.toNat k s) :
    Digits n d.toNat (k + 1) (s.div false j) := by
  obtain ⟨quotient, zero, dividend⟩ := digits
  have dividend := dividend more
  have positive : 0 < d.toNat := by
    by_contra none
    exact some (BitVec.eq_of_toNat_eq (Nat.eq_zero_of_not_pos none))
  obtain ⟨e, rest⟩ : ∃ e, 32 - k = e + 1 := ⟨31 - k, by omega⟩
  have after : 32 - (k + 1) = e := by omega
  have all : 2 ^ e * 2 ^ k = 2 ^ 31 := by
    rw [← Nat.pow_add]
    congr 1
    omega
  rw [rest] at quotient zero dividend
  -- the next bit of the number
  have bit : n / 2 ^ e % 2 < 2 := Nat.mod_lt _ (by decide)
  have upper : n / 2 ^ e = 2 * (n / 2 ^ (e + 1)) + n / 2 ^ e % 2 := by
    rw [Nat.pow_succ, ← Nat.div_div_eq_div_mul, Nat.div_add_mod]
  obtain ⟨digit, remainder⟩ := bring_down (n / 2 ^ (e + 1)) positive bit
  rw [← upper] at digit remainder
  have low : n % 2 ^ e * 2 ^ k < 2 ^ 31 := by
    rw [← all]
    exact Nat.mul_lt_mul_of_pos_right (Nat.mod_lt _ (Nat.two_pow_pos e)) (Nat.two_pow_pos k)
  have split : s.dividend.toNat = (2 * (n / 2 ^ (e + 1) % d.toNat) + n / 2 ^ e % 2) * 2 ^ 31 + n % 2 ^ e * 2 ^ k := by
    have product : 2 ^ e * (n / 2 ^ e % 2) * 2 ^ k = n / 2 ^ e % 2 * 2 ^ 31 := by
      rw [← all, Nat.mul_comm (2 ^ e), Nat.mul_assoc]
    rw [dividend, Nat.mod_pow_succ, Nat.add_mul, product]
    omega
  have high : s.top = 2 * (n / 2 ^ (e + 1) % d.toNat) + n / 2 ^ e % 2 := by
    rw [top, split]
    omega
  have left : s.dividend.toNat % 2 ^ 31 = n % 2 ^ e * 2 ^ k := by
    rw [split]
    omega
  rw [← high] at digit remainder
  constructor
  · rw [quotient_div dividing.rBusy more, dividing.divisor, quotient, after, digit]
  · have flag : (s.div false j).z = (s.z && decide (s.top < d.toNat)) := by
      simp only [Div.div, unasked, dividing.rBusy, dividing.preSign, diff_borrow, dividing.divisor]
      cases decide (s.top < d.toNat) <;> cases s.z <;> rfl
    rw [flag, zero, after, digit]
    by_cases fits : d.toNat ≤ s.top
    · rw [if_pos fits, decide_eq_false (Nat.not_lt.mpr fits), Bool.and_false]
      exact (decide_eq_false (Nat.succ_ne_zero _)).symm
    · rw [if_neg fits, decide_eq_true (Nat.lt_of_not_le fits), Bool.and_true, Nat.add_zero, decide_eq_decide]
      omega
  · intro further
    have room : s.top < 2 ^ 31 := by
      have early : n / 2 ^ e < 2 ^ (k + 1) := by
        rw [Nat.div_lt_iff_lt_mul (Nat.two_pow_pos e), ← Nat.pow_add]
        have whole : k + 1 + e = 32 := by omega
        rw [whole]
        exact small
      have less := Nat.mod_le (n / 2 ^ (e + 1)) d.toNat
      have most : 2 ^ (k + 1) ≤ 2 ^ 31 := Nat.pow_le_pow_right (by decide) (by omega)
      omega
    have double : n % 2 ^ e * 2 ^ (k + 1) = n % 2 ^ e * 2 ^ k * 2 := by rw [Nat.pow_succ, Nat.mul_assoc]
    rw [after]
    change (s.nextDividend j).toNat = _
    rw [nextDividend_toNat dividing.rBusy dividing.preSign, dividing.divisor, left, remainder, double]
    by_cases fits : d.toNat ≤ s.top
    · rw [if_pos fits, if_pos fits, Nat.mod_eq_of_lt (Nat.lt_of_le_of_lt (Nat.sub_le _ _) room)]
    · rw [if_neg fits, if_neg fits, Nat.mod_eq_of_lt room]

/-! ### The end -/

/-- The clocks behind the first digit, and one more to negate the quotient. -/
theorem Dividing.finish {P : Nat → Div → Prop} (kept : ∀ k s j, Dividing d sign k s → k < 32 → j.wr = false → P k s →
      P (k + 1) (s.div false j)) (is : List Inputs) (unasked : ∀ j ∈ is, j.wr = false)
    (dividing : Dividing d sign 0 s) (holds : P 0 s) :
    (is.length < 32 + sign.toNat → (Clocked.run (Div.div · false ·) s is).busy = true ∧
      (Clocked.run (Div.div · false ·) s is).valid = false) ∧
    (is.length = 32 + sign.toNat → (Clocked.run (Div.div · false ·) s is).busy = false ∧
      (Clocked.run (Div.div · false ·) s is).valid = true ∧ (Clocked.run (Div.div · false ·) s is).err = false ∧
        ∃ t, P 32 t ∧ (Clocked.run (Div.div · false ·) s is).quotient = (if sign then -t.quotient else t.quotient) ∧
          (Clocked.run (Div.div · false ·) s is).z = t.z) := by
  -- 31 digits, then the clock of the last one, then the one that negates
  by_cases early : is.length < 32
  · obtain ⟨working, _⟩ := dividing.run kept is unasked holds (by omega)
    exact ⟨fun _ => ⟨working.busy, working.valid⟩, fun late => by omega⟩
  · have split : is.take 31 ++ is.drop 31 = is := List.take_append_drop 31 is
    have first : (is.take 31).length = 31 := by
      rw [List.length_take]
      omega
    have quiet (j : Inputs) (member : j ∈ is.take 31) : j.wr = false := unasked j (List.mem_of_mem_take member)
    have quietly (j : Inputs) (member : j ∈ is.drop 31) : j.wr = false := unasked j (List.mem_of_mem_drop member)
    have length : (is.drop 31).length = is.length - 31 := List.length_drop
    obtain ⟨working, kept₃₁⟩ := dividing.run kept (is.take 31) quiet holds (by omega)
    rw [first] at working kept₃₁
    rw [← split, Clocked.run_append]
    generalize Clocked.run (Div.div · false ·) s (is.take 31) = t at *
    cases rest : is.drop 31 with
    | nil =>
      rw [rest, List.length_nil] at length
      omega
    | cons j js =>
      rw [rest] at length quietly
      rw [List.length_cons] at length
      have asked := quietly j List.mem_cons_self
      have all := kept 31 t j working (by decide) asked kept₃₁
      obtain ⟨rBusy, busy, valid, err, signed, preSign⟩ := working.last asked
      have total : (List.take 31 is ++ j :: js).length = 32 + js.length := by
        rw [List.length_append, first, List.length_cons]
        omega
      rw [total, Clocked.run_cons]
      cases sign with
      | false =>
        refine ⟨fun late => by simp only [Bool.toNat_false] at late; omega, fun same => ?_⟩
        have none : js = [] := List.eq_nil_of_length_eq_zero (by simp only [Bool.toNat_false] at same; omega)
        rw [none]
        exact ⟨busy, valid, err, _, all, rfl, rfl⟩
      | true =>
        cases js with
        | nil => exact ⟨fun _ => ⟨busy, valid⟩, fun same => by simp at same⟩
        | cons j' js =>
          refine ⟨fun late => ?_, fun same => ?_⟩
          · simp only [List.length_cons, Bool.toNat_true] at late
            omega
          · have none : js = [] := List.eq_nil_of_length_eq_zero (by
              simp only [List.length_cons, Bool.toNat_true] at same
              omega)
            have asked' := quietly j' (List.mem_cons_of_mem _ List.mem_cons_self)
            rw [none, Clocked.run_cons, Clocked.run_nil]
            generalize t.div false j = t' at *
            refine ⟨?_, ?_, ?_, t', all, ?_, ?_⟩
            · simp [Div.div, asked', rBusy]
            · simp [Div.div, nextValid, valid, rBusy, signed]
            · simp [Div.div, rBusy]
            · simp [Div.div, rBusy, signed]
            · simp [Div.div, asked', rBusy]

/-! ### The start -/

/-- What the clock of a request leaves, whatever was in the registers. -/
structure Asked (i : Inputs) (s : Div) : Prop where
  rBusy : s.rBusy = true
  busy : s.busy = true
  valid : s.valid = false
  preSign : s.preSign = (i.signed && (i.numerator.msb || i.denominator.msb))
  zeroDivisor : s.zeroDivisor = (i.denominator == 0)
  sign : s.sign = false
  divisor : s.divisor = i.denominator
  dividend : s.dividend = 0#31 ++ i.numerator
  bit : s.bit = 0
  lastBit : s.lastBit = false
  z : s.z = true

theorem Steady.asked (steady : s.Steady) (idle : s.busy = false) (asked : i.wr = true) : Asked i (s.div false i) := by
  obtain ⟨still, signed⟩ := steady.stopped idle
  have unsigned : s.preSign = false := by
    by_contra signs
    have works := (steady.signs (Bool.not_eq_false _ ▸ signs)).1
    rw [still] at works
    exact Bool.false_ne_true works
  constructor
  · simp [Div.div, asked]
  · simp [Div.div, asked]
  · cases sign : s.sign with
    | false => simp [Div.div, nextValid, still, sign]
    | true => simp [Div.div, nextValid, signed sign]
  · simp [Div.div, asked]
  · simp [Div.div, asked]
  · simp [Div.div, unsigned, still]
  · simp [Div.div, unsigned, still]
  · simp [Div.div, nextDividend, unsigned, still]
  · simp [Div.div, still]
  · simp [Div.div, still]
  · simp [Div.div, asked]

/-- A divisor of zero is told at once. -/
theorem Asked.zero (begun : Asked i s) (zero : i.denominator = 0) (unasked : j.wr = false) :
    (s.div false j).busy = false ∧ (s.div false j).valid = true ∧ (s.div false j).err = true := by
  have divisor : s.zeroDivisor = true := begun.zeroDivisor.trans (beq_iff_eq.mpr zero)
  refine ⟨?_, ?_, ?_⟩
  · simp [Div.div, unasked, divisor]
  · simp [Div.div, nextValid, begun.valid, begun.rBusy, divisor]
  · simp [Div.div, begun.rBusy, divisor]

theorem Asked.unsigned (begun : Asked i s) (some : i.denominator ≠ 0)
    (unsigned : (i.signed && (i.numerator.msb || i.denominator.msb)) = false) :
    Dividing i.denominator false 0 s where
  rBusy := begun.rBusy
  busy := begun.busy
  valid := begun.valid
  preSign := begun.preSign.trans unsigned
  zeroDivisor := begun.zeroDivisor.trans (beq_eq_false_iff_ne.mpr some)
  sign := begun.sign
  divisor := begun.divisor
  bit := begun.bit
  lastBit := begun.lastBit

/-- The absolute value. -/
def magnitude (x : BitVec 32) : BitVec 32 := if x.msb then -x else x

/-- The clock that takes the signs away. -/
theorem Asked.signed (begun : Asked i s) (some : i.denominator ≠ 0)
    (signed : (i.signed && (i.numerator.msb || i.denominator.msb)) = true) (unasked : j.wr = false) :
    Dividing (magnitude i.denominator) (i.denominator.msb != i.numerator.msb) 0 (s.div false j) := by
  have preSign := begun.preSign.trans signed
  have zeroDivisor : s.zeroDivisor = false := begun.zeroDivisor.trans (beq_eq_false_iff_ne.mpr some)
  have negative : s.dividend.getLsbD 31 = i.numerator.msb := by
    rw [begun.dividend, BitVec.getLsbD_append, BitVec.msb_eq_getLsbD_last]
    rfl
  constructor
  · simp [Div.div, unasked, begun.lastBit, zeroDivisor, begun.rBusy]
  · simp [Div.div, unasked, begun.lastBit, zeroDivisor, begun.rBusy, begun.busy]
  · simp [Div.div, nextValid, begun.valid, begun.rBusy, zeroDivisor, begun.lastBit]
  · simp [Div.div, unasked]
  · simp [Div.div, unasked, zeroDivisor]
  · have sign : (s.div false j).sign = (s.divisor.msb != s.dividend.getLsbD 31) := by
      simp only [Div.div, preSign, Bool.false_eq_true, if_false, if_true]
    rw [sign, begun.divisor, negative]
  · simp [Div.div, preSign, begun.rBusy, begun.divisor, magnitude]
  · simp [Div.div, preSign]
  · simp [Div.div, begun.bit]

theorem Asked.dividend_signed (begun : Asked i s)
    (signed : (i.signed && (i.numerator.msb || i.denominator.msb)) = true) :
    (s.div false j).dividend = if i.numerator.msb then BitVec.allOnes 31 ++ -i.numerator else 0#31 ++ i.numerator := by
  have negative : s.dividend.getLsbD 31 = i.numerator.msb := by
    rw [begun.dividend, BitVec.getLsbD_append, BitVec.msb_eq_getLsbD_last]
    rfl
  have low : s.dividend.extractLsb' 0 32 = i.numerator := by
    rw [begun.dividend]
    exact BitVec.extractLsb'_append_eq_right
  change s.nextDividend j = _
  rw [nextDividend, begun.preSign.trans signed, if_pos rfl, negative, low, begun.dividend]

/-- The digits start with none of them. -/
theorem digits_zero {n : BitVec 32} {d : Nat} (z : s.z = true) (dividend : s.dividend = 0#31 ++ n) :
    Digits n.toNat d 0 s where
  quotient := by rw [Nat.pow_zero, Nat.mod_one, Nat.div_eq_of_lt n.isLt, Nat.zero_div]
  zero := by
    rw [z, Nat.div_eq_of_lt n.isLt, Nat.zero_div]
    rfl
  dividend _ := by
    rw [dividend, ShiftAdd.toNat_append, Nat.div_eq_of_lt n.isLt, Nat.zero_mod, Nat.mod_eq_of_lt n.isLt, Nat.pow_zero,
      Nat.mul_one]
    rfl

/-! ### A negative numerator -/

/-- The dividend starts with ones in front of its magnitude `x`, which give the quotient a bit too much. -/
structure Lost (x d : BitVec 32) (k : Nat) (s : Div) : Prop where
  start : k = 0 → s.dividend = BitVec.allOnes 31 ++ x
  first : 1 ≤ k → s.quotient.getLsbD (k - 1) = true
  next : x = BitVec.intMin 32 → d = 1 → k = 1 → s.dividend = 0x7ffffffe#31 ++ 0#32
  second : x = BitVec.intMin 32 → d = 1 → 2 ≤ k → s.quotient.getLsbD (k - 2) = true

theorem quotient_bit (works : s.rBusy = true) (p : Nat) (inside : p < 31) :
    (s.div false j).quotient.getLsbD (p + 1) = s.quotient.getLsbD p := by
  rw [quotient_word works, BitVec.getLsbD_append]
  simp [inside]

theorem quotient_first (works : s.rBusy = true) (fits : s.divisor.toNat ≤ s.top) :
    (s.div false j).quotient.getLsbD 0 = true := by
  rw [quotient_word works, BitVec.getLsbD_append, diff_borrow, decide_eq_false (Nat.not_lt.mpr fits)]
  rfl

theorem Lost.div {x : BitVec 32} (small : d.toNat ≤ 2 ^ 31) (k : Nat) (s : Div) (j : Inputs)
    (dividing : Dividing d sign k s) (more : k < 32) (_ : j.wr = false) (lost : Lost x d k s) :
    Lost x d (k + 1) (s.div false j) := by
  have works := dividing.rBusy
  constructor
  · intro none
    exact absurd none (Nat.succ_ne_zero k)
  · intro _
    by_cases zero : k = 0
    · subst zero
      have fits : s.divisor.toNat ≤ s.top := by
        rw [dividing.divisor, top, lost.start rfl, ShiftAdd.toNat_append]
        have ones : (BitVec.allOnes 31).toNat = 2 ^ 31 - 1 := rfl
        rw [ones]
        omega
      exact quotient_first works fits
    · have place : k + 1 - 1 = k - 1 + 1 := by omega
      rw [place, quotient_bit works _ (by omega)]
      exact lost.first (by omega)
  · intro most one now
    have zero : k = 0 := by omega
    subst zero
    have start := lost.start rfl
    rw [most] at start
    have value := nextDividend_toNat (j := j) works dividing.preSign
    rw [dividing.divisor, one, top, start] at value
    exact BitVec.eq_of_toNat_eq value
  · intro most one two
    by_cases now : k = 1
    · subst now
      have fits : s.divisor.toNat ≤ s.top := by
        rw [dividing.divisor, one, top, lost.next most one rfl]
        decide
      exact quotient_first works fits
    · have place : k + 1 - 2 = k - 2 + 1 := by omega
      rw [place, quotient_bit works _ (by omega)]
      exact lost.second most one (by omega)

/-- A quotient with a bit too much is not the one of the magnitudes. -/
theorem Lost.wrong {x : BitVec 32} {t : Div} (some : d ≠ 0) (least : x.toNat ≤ 2 ^ 31) (lost : Lost x d 32 t) :
    t.quotient ≠ x / d := by
  intro right
  have top := lost.first (by decide)
  have high : 2 ^ 31 ≤ x.toNat / d.toNat := by
    rw [← BitVec.toNat_udiv, ← right]
    exact Nat.ge_two_pow_of_testBit top
  have positive : 0 < d.toNat := by
    by_contra none
    exact some (BitVec.eq_of_toNat_eq (Nat.eq_zero_of_not_pos none))
  have product : 2 ^ 31 * d.toNat ≤ x.toNat := (Nat.le_div_iff_mul_le positive).mp high
  -- the quotient would be 2 ^ 31, which only -2 ^ 31 by 1 has, and there the next bit is wrong
  have one : d = 1 := BitVec.eq_of_toNat_eq (by
    have unit : (1 : BitVec 32).toNat = 1 := rfl
    omega)
  have most : x = BitVec.intMin 32 := BitVec.eq_of_toNat_eq (by
    have power : (BitVec.intMin 32).toNat = 2 ^ 31 := rfl
    omega)
  have bit := lost.second most one (by decide)
  rw [right, most, one] at bit
  revert bit
  decide

/-! ### Division -/

/-- The quotient, rounded to zero, that is asked for. -/
def Inputs.answer (i : Inputs) : BitVec 32 :=
  if i.signed then i.numerator.sdiv i.denominator else i.numerator / i.denominator

/-- The result, with its zero and its sign in the flags. -/
structure Answered (i : Inputs) (s : Div) : Prop where
  busy : s.busy = false
  valid : s.valid = true
  err : s.err = decide (i.denominator = 0)
  quotient : i.denominator ≠ 0 → s.quotient = i.answer
  zero : i.denominator ≠ 0 → s.flags.getLsbD 0 = decide (i.answer = 0)
  negative : i.denominator ≠ 0 → s.flags.getLsbD 2 = i.answer.msb

/-- The clock of a request and those behind it. -/
abbrev after (s : Div) (i : Inputs) (is : List Inputs) : Div := Clocked.run (Div.div · false ·) s (i :: is)

/-- The unit is busy for some clocks, and then it has the answer. -/
def Divides (s : Div) (i : Inputs) : Prop :=
  ∃ n, ∀ is : List Inputs, (∀ j ∈ is, j.wr = false) →
    (is.length < n → (after s i is).busy = true ∧ (after s i is).valid = false) ∧
      (is.length = n → Answered i (after s i is))

theorem flags_zero (s : Div) : s.flags.getLsbD 0 = s.z := by
  rw [flags, BitVec.getLsbD_append]
  cases s.z <;> rfl

theorem flags_negative (s : Div) : s.flags.getLsbD 2 = s.quotient.msb := by
  rw [flags, BitVec.getLsbD_append, BitVec.getLsbD_append, BitVec.getLsbD_append]
  cases s.quotient.msb <;> rfl

/-- From the magnitudes' quotient to the answer. -/
theorem answered {n : BitVec 32} {s t : Div} (busy : s.busy = false) (valid : s.valid = true) (err : s.err = false)
    (digits : Digits n.toNat d.toNat 32 t) (quotient : s.quotient = if sign then -t.quotient else t.quotient)
    (z : s.z = t.z) (some : i.denominator ≠ 0) (answer : i.answer = if sign then -(n / d) else n / d) :
    Answered i s := by
  have value : t.quotient = n / d := by
    apply BitVec.eq_of_toNat_eq
    have all := digits.quotient
    rw [Nat.mod_eq_of_lt t.quotient.isLt, Nat.sub_self, Nat.pow_zero, Nat.div_one] at all
    rw [all, BitVec.toNat_udiv]
  have zero : s.z = decide (n / d = 0) := by
    rw [z, digits.zero, Nat.sub_self, Nat.pow_zero, Nat.div_one, decide_eq_decide, ← BitVec.toNat_inj,
      BitVec.toNat_udiv]
    rfl
  rw [value, ← answer] at quotient
  refine ⟨busy, valid, err.trans (decide_eq_false some).symm, fun _ => quotient, fun _ => ?_, fun _ => ?_⟩
  · rw [flags_zero, zero, answer]
    cases sign with
    | false => rfl
    | true =>
      rw [if_pos rfl, decide_eq_decide]
      exact BitVec.neg_eq_zero_iff.symm
  · rw [flags_negative, quotient]

theorem sdiv_magnitudes (x y : BitVec 32) :
    x.sdiv y = if y.msb != x.msb then -(magnitude x / magnitude y) else magnitude x / magnitude y := by
  unfold magnitude BitVec.sdiv
  cases x.msb <;> cases y.msb <;> rfl

theorem magnitude_some {x : BitVec 32} (some : x ≠ 0) : magnitude x ≠ 0 := by
  unfold magnitude
  split
  · exact fun zero => some (BitVec.neg_eq_zero_iff.mp zero)
  · exact some

theorem magnitude_le (x : BitVec 32) : (magnitude x).toNat ≤ 2 ^ 31 := by
  unfold magnitude
  split
  · rename_i negative
    have half := BitVec.le_toNat_of_msb_true negative
    rw [BitVec.toNat_neg]
    omega
  · rename_i positive
    have half := BitVec.toNat_lt_of_msb_false (Bool.eq_false_of_not_eq_true positive)
    omega

/-- A signed division with a negative numerator ends in time, with a wrong quotient. -/
theorem Asked.wrong (begun : Asked i s) (signed : i.signed = true) (negative : i.numerator.msb = true)
    (some : i.denominator ≠ 0) : ∃ n, ∀ is : List Inputs, (∀ j ∈ is, j.wr = false) →
      (is.length < n → (Clocked.run (Div.div · false ·) s is).busy = true) ∧
        (is.length = n → (Clocked.run (Div.div · false ·) s is).busy = false ∧
          (Clocked.run (Div.div · false ·) s is).quotient ≠ i.answer) := by
  have signs : (i.signed && (i.numerator.msb || i.denominator.msb)) = true := by rw [signed, negative]; rfl
  have answer : i.answer = if i.denominator.msb != i.numerator.msb then
      -(magnitude i.numerator / magnitude i.denominator) else magnitude i.numerator / magnitude i.denominator := by
    rw [Inputs.answer, if_pos signed, sdiv_magnitudes]
  refine ⟨33 + (i.denominator.msb != i.numerator.msb).toNat, fun is unasked => ?_⟩
  cases is with
  | nil =>
    refine ⟨fun _ => begun.busy, fun none => ?_⟩
    rw [List.length_nil] at none
    omega
  | cons j is =>
    have first := unasked j List.mem_cons_self
    have dividing := begun.signed some signs first
    have start : Lost (magnitude i.numerator) (magnitude i.denominator) 0 (s.div false j) := by
      refine ⟨fun _ => ?_, fun no => absurd no (by decide), fun _ _ no => absurd no (by decide),
        fun _ _ no => absurd no (by decide)⟩
      rw [begun.dividend_signed signs, if_pos negative, magnitude, if_pos negative]
    obtain ⟨before, behind⟩ := dividing.finish (P := Lost (magnitude i.numerator) (magnitude i.denominator))
      (Lost.div (magnitude_le i.denominator)) is (fun j member => unasked j (List.mem_cons_of_mem _ member)) start
    rw [List.length_cons, Clocked.run_cons]
    refine ⟨fun early => (before (by omega)).1, fun late => ?_⟩
    obtain ⟨busy, _, _, t, lost, quotient, _⟩ := behind (by omega)
    refine ⟨busy, ?_⟩
    have differs := lost.wrong (magnitude_some some) (magnitude_le i.numerator)
    rw [quotient, answer]
    cases i.denominator.msb != i.numerator.msb with
    | false => exact differs
    | true => exact fun same => differs (BitVec.neg_inj.mp same)

/-- What is not such a division is answered. -/
theorem Asked.right (begun : Asked i s)
    (positive : i.signed = true → i.numerator.msb = true → i.denominator = 0) :
    ∃ n, ∀ is : List Inputs, (∀ j ∈ is, j.wr = false) →
      (is.length < n → (Clocked.run (Div.div · false ·) s is).busy = true ∧
        (Clocked.run (Div.div · false ·) s is).valid = false) ∧
      (is.length = n → Answered i (Clocked.run (Div.div · false ·) s is)) := by
  -- A division by zero is answered at once.
  by_cases zero : i.denominator = 0
  · refine ⟨1, fun is unasked => ⟨fun early => ?_, fun one => ?_⟩⟩
    · rw [List.eq_nil_of_length_eq_zero (Nat.lt_one_iff.mp early)]
      exact ⟨begun.busy, begun.valid⟩
    · obtain ⟨j, rfl⟩ := List.length_eq_one_iff.mp one
      obtain ⟨busy, valid, err⟩ := begun.zero zero (unasked j List.mem_cons_self)
      exact ⟨busy, valid, err.trans (decide_eq_true zero).symm, fun some => absurd zero some,
        fun some => absurd zero some, fun some => absurd zero some⟩
  -- A sign costs one clock at the start, and one more at the end where the quotient is to be negated.
  cases signs : i.signed && (i.numerator.msb || i.denominator.msb) with
  | false =>
    have dividing := begun.unsigned zero signs
    have answer : i.answer = i.numerator / i.denominator := by
      unfold Inputs.answer
      cases signed : i.signed with
      | false => rfl
      | true =>
        rw [signed, Bool.true_and, Bool.or_eq_false_iff] at signs
        rw [if_pos rfl, sdiv_magnitudes, magnitude, magnitude, signs.1, signs.2]
        rfl
    refine ⟨32, fun is unasked => ?_⟩
    obtain ⟨before, behind⟩ := dividing.finish (P := Digits i.numerator.toNat i.denominator.toNat)
      (Digits.div zero i.numerator.isLt) is unasked (digits_zero begun.z begun.dividend)
    refine ⟨before, fun late => ?_⟩
    obtain ⟨busy, valid, err, t, digits, quotient, z⟩ := behind late
    exact answered busy valid err digits quotient z zero answer
  | true =>
    have signed : i.signed = true := (Bool.and_eq_true_iff.mp signs).1
    have above : i.numerator.msb = false := by
      by_contra negative
      exact zero (positive signed (Bool.not_eq_false _ ▸ negative))
    have answer : i.answer = if i.denominator.msb != i.numerator.msb then
        -(i.numerator / magnitude i.denominator) else i.numerator / magnitude i.denominator := by
      have own : magnitude i.numerator = i.numerator := by
        rw [magnitude, above]
        rfl
      rw [Inputs.answer, if_pos signed, sdiv_magnitudes, own]
    refine ⟨33 + (i.denominator.msb != i.numerator.msb).toNat, fun is unasked => ?_⟩
    cases is with
    | nil =>
      refine ⟨fun _ => ⟨begun.busy, begun.valid⟩, fun none => ?_⟩
      rw [List.length_nil] at none
      omega
    | cons j is =>
      have first := unasked j List.mem_cons_self
      have dividing := begun.signed zero signs first
      have dividend : (s.div false j).dividend = 0#31 ++ i.numerator := by
        rw [begun.dividend_signed signs, above]
        rfl
      have z : (s.div false j).z = true := by
        simp [Div.div, first, begun.preSign.trans signs, begun.z]
      obtain ⟨before, behind⟩ := dividing.finish (P := Digits i.numerator.toNat (magnitude i.denominator).toNat)
        (Digits.div (magnitude_some zero) i.numerator.isLt) is (fun j member => unasked j (List.mem_cons_of_mem _ member))
        (digits_zero z dividend)
      rw [List.length_cons, Clocked.run_cons]
      refine ⟨fun early => before (by omega), fun late => ?_⟩
      obtain ⟨busy, valid, err, t, digits, quotient, z⟩ := behind (by omega)
      exact answered busy valid err digits quotient z zero answer

theorem Asked.not_divides {s : Div} (begun : Asked i (s.div false i)) (signed : i.signed = true)
    (negative : i.numerator.msb = true) (some : i.denominator ≠ 0) : ¬ s.Divides i := by
  rintro ⟨n, divides⟩
  obtain ⟨m, ends⟩ := begun.wrong signed negative some
  have quiet (n : Nat) (j : Inputs) (member : j ∈ List.replicate n ⟨false, false, 0, 0⟩) : j.wr = false := by
    rw [List.eq_of_mem_replicate member]
  -- two times to end at: not the same one, for at that one the quotient is wrong
  rcases Nat.lt_trichotomy n m with early | same | late
  · have answered := (divides _ (quiet n)).2 List.length_replicate
    have working := (ends _ (quiet n)).1 (by rw [List.length_replicate]; exact early)
    exact Bool.false_ne_true (answered.busy.symm.trans working)
  · have answered := (divides _ (quiet m)).2 (List.length_replicate.trans same.symm)
    exact ((ends _ (quiet m)).2 List.length_replicate).2 (answered.quotient some)
  · have working := ((divides _ (quiet m)).1 (by rw [List.length_replicate]; exact late)).1
    exact Bool.false_ne_true (((ends _ (quiet m)).2 List.length_replicate).1.symm.trans working)

/-- A unit that is not busy divides, but for a signed division of a negative number: its ones in front of the
magnitude are taken for digits.
-/
theorem divides_iff (s : Div) (i : Inputs) (steady : s.Steady) (idle : s.busy = false) (asked : i.wr = true) :
    s.Divides i ↔ (i.signed = true → i.numerator.msb = true → i.denominator = 0) := by
  have begun := steady.asked idle asked
  constructor
  · intro divides signed negative
    by_contra some
    exact begun.not_divides signed negative some divides
  · exact begun.right

theorem divides_seven : (default : Div).Divides ⟨true, true, 7, -2⟩ :=
  (divides_iff default ⟨true, true, 7, -2⟩ steady_default rfl rfl).mpr (by decide)

/-- Minus seven by two comes out as one. -/
theorem minus_seven : ¬ (default : Div).Divides ⟨true, true, -7, 2⟩ ∧
    ((default : Div).after ⟨true, true, -7, 2⟩ (List.replicate 34 ⟨false, false, 0, 0⟩)).valid = true ∧
      ((default : Div).after ⟨true, true, -7, 2⟩ (List.replicate 34 ⟨false, false, 0, 0⟩)).quotient = 1 := by
  refine ⟨Asked.not_divides (steady_default.asked rfl rfl) rfl (by decide) (by decide), ?_, ?_⟩
  · decide +kernel
  · decide +kernel

end IcoZip.Zipcore.Div
