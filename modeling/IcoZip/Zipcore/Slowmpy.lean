import IcoZip.Library.Clocked
import IcoZip.Library.ShiftAdd
import IcoZip.Zipcore.Mpyop

/-! `slowmpy` for operands of any width (`NA`, with `LGNA` bits for the counter),
and the product it returns.
-/

set_option autoImplicit false

namespace IcoZip.Zipcore

structure SlowmpyN (na lgna : Nat) where
  busy : Bool
  done : Bool
  count : BitVec lgna
  pA : BitVec na
  pB : BitVec na
  product : BitVec (na + na)
  aux : Bool
  almostDone : Bool
  p : BitVec (na + na)
  oAux : Bool
  deriving DecidableEq, Repr

namespace SlowmpyN

structure Inputs (na : Nat) where
  reset : Bool
  stb : Bool
  a : BitVec na
  b : BitVec na
  aux : Bool
  deriving DecidableEq, Repr

variable {na lgna : Nat} (signed lowpower : Bool) (s : SlowmpyN na lgna) (i : Inputs na)

def preDone : Bool := s.count == 0

def pwire : BitVec na := if s.pB.getLsbD 0 then s.pA else 0

/-- What is added to the upper part in this clock. -/
def addend : BitVec (1 + na) :=
  if signed && s.preDone then
    (0b0#1 ++ (s.pwire.extractLsb' (na - 1) 1 ++ ~~~s.pwire.extractLsb' 0 (na - 1))).setWidth (1 + na)
  else if signed then
    (0b0#1 ++ (~~~s.pwire.extractLsb' (na - 1) 1 ++ s.pwire.extractLsb' 0 (na - 1))).setWidth (1 + na)
  else if s.pB.getLsbD 0 then 0b0#1 ++ s.pA
  else 0

/-- One clock. -/
def slowmpy : SlowmpyN na lgna where
  almostDone := !i.reset && s.busy && s.preDone
  aux :=
    if i.reset then false
    else if !s.busy then if !lowpower || i.stb then i.aux else false
    else s.aux
  done := if i.reset then false else if !s.busy then false else s.almostDone
  busy := if i.reset then false else if !s.busy then i.stb else !s.almostDone
  count := if !s.busy then BitVec.ofNat lgna na - 1 else s.count - 1
  pA := if !s.busy then if lowpower && !i.stb then 0 else i.a else s.pA
  pB := if !s.busy then if lowpower && !i.stb then 0 else i.b else s.pB >>> 1
  product :=
    if !s.busy then 0
    else (((0b0#1 ++ s.product.extractLsb' na na) + s.addend signed) ++
      s.product.extractLsb' 1 (na - 1)).setWidth (na + na)
  p :=
    if s.almostDone then
      if signed then s.product + ((0b1#1 ++ 0#(na - 2)) ++ (0b1#1 ++ 0#(na))).setWidth (na + na)
      else s.product
    else s.p
  oAux := if s.almostDone then s.aux else s.oAux

/-- The exact product. -/
def Inputs.exact : BitVec (na + na) :=
  if signed then BitVec.ofInt (na + na) (i.a.toInt * i.b.toInt) else BitVec.ofNat (na + na) (i.a.toNat * i.b.toNat)

/-! ### The accumulator -/

/-- What the accumulator holds after `k` rows, the constants of the signed ones included. -/
def total (k : Nat) : ℤ :=
  if signed then
    if k < na then ShiftAdd.rows i.a.toInt i.b k + 2 ^ (na - 1) * (2 ^ k - 1)
    else i.a.toInt * i.b.toInt + 2 ^ (na + na - 1) - 2 ^ na
  else ShiftAdd.rows i.a.toNat i.b k

theorem total_zero (some : 0 < na) : total signed i 0 = 0 := by simp [total, some, ShiftAdd.rows_zero]

theorem toNat_setWidth_append {k m w : Nat} (x : BitVec k) (y : BitVec m) (fits : k + m ≤ w) :
    ((x ++ y).setWidth w).toNat = x.toNat * 2 ^ m + y.toNat := by
  have small := Nat.lt_of_lt_of_le (x ++ y).isLt (Nat.pow_le_pow_right (by decide) fits)
  rw [BitVec.toNat_setWidth, Nat.mod_eq_of_lt small,
    ShiftAdd.toNat_append]

variable {signed lowpower s i}

theorem toInt_pwire : s.pwire.toInt = if s.pB.getLsbD 0 then s.pA.toInt else 0 := by
  unfold pwire
  split_ifs <;> simp

/-- The last row of a signed product. -/
theorem addend_last (some : 0 < na) (last : s.preDone) :
    ((s.addend true).toNat : ℤ) = 2 ^ (na - 1) - 1 - if s.pB.getLsbD 0 then s.pA.toInt else 0 := by
  rw [addend, if_pos (by simp [last]), toNat_setWidth_append _ _ (by omega), BitVec.toNat_ofNat,
    Nat.zero_mod, Nat.zero_mul, Nat.zero_add, ShiftAdd.restInverted _ some, toInt_pwire]

/-- The others. -/
theorem addend_row (some : 0 < na) (more : s.preDone = false) :
    ((s.addend true).toNat : ℤ) = (if s.pB.getLsbD 0 then s.pA.toInt else 0) + 2 ^ (na - 1) := by
  rw [addend, if_neg (by simp [more]), if_pos rfl, toNat_setWidth_append _ _ (by omega), BitVec.toNat_ofNat,
    Nat.zero_mod, Nat.zero_mul, Nat.zero_add, ShiftAdd.signInverted _ some, toInt_pwire]

theorem addend_unsigned : ((s.addend false).toNat : ℤ) = if s.pB.getLsbD 0 then (s.pA.toNat : ℤ) else 0 := by
  rw [addend, if_neg (by simp), if_neg (by simp)]
  split_ifs
  · rw [ShiftAdd.toNat_append]
    simp
  · simp

theorem addend_lt (some : 0 < na) : (s.addend signed).toNat < 2 ^ na := by
  unfold addend
  split_ifs
  · rw [toNat_setWidth_append _ _ (by omega), BitVec.toNat_ofNat, Nat.zero_mod, Nat.zero_mul, Nat.zero_add]
    exact Nat.lt_of_lt_of_eq (BitVec.isLt _) (congrArg _ (by omega))
  · rw [toNat_setWidth_append _ _ (by omega), BitVec.toNat_ofNat, Nat.zero_mod, Nat.zero_mul, Nat.zero_add]
    exact Nat.lt_of_lt_of_eq (BitVec.isLt _) (congrArg _ (by omega))
  · rw [ShiftAdd.toNat_append]
    simpa using s.pA.isLt
  · exact Nat.two_pow_pos na

/-- The accumulator is halved, and takes a row at its upper end. -/
theorem product_slowmpy (some : 0 < na) (busy : s.busy) :
    (s.slowmpy signed lowpower i).product.toNat = s.product.toNat / 2 + 2 ^ (na - 1) * (s.addend signed).toNat := by
  have upper : (s.product.extractLsb' na na).toNat = s.product.toNat / 2 ^ na := by
    rw [BitVec.extractLsb'_toNat, Nat.shiftRight_eq_div_pow, Nat.mod_eq_of_lt]
    rw [Nat.div_lt_iff_lt_mul (Nat.two_pow_pos na), ← Nat.pow_add]
    exact s.product.isLt
  have lower : (s.product.extractLsb' 1 (na - 1)).toNat = s.product.toNat / 2 % 2 ^ (na - 1) := by
    rw [BitVec.extractLsb'_toNat, Nat.shiftRight_eq_div_pow, Nat.pow_one]
  have sum : ((0b0#1 ++ s.product.extractLsb' na na) + s.addend signed).toNat =
      s.product.toNat / 2 ^ na + (s.addend signed).toNat := by
    have bound : s.product.toNat / 2 ^ na < 2 ^ na := upper ▸ (s.product.extractLsb' na na).isLt
    have row : (s.addend signed).toNat < 2 ^ na := addend_lt some
    have double : 2 ^ (1 + na) = 2 * 2 ^ na := by rw [Nat.add_comm, Nat.pow_succ']
    rw [BitVec.toNat_add, ShiftAdd.toNat_append, upper, BitVec.toNat_ofNat, Nat.zero_mod, Nat.zero_mul, Nat.zero_add,
      Nat.mod_eq_of_lt (by omega)]
  have halves : s.product.toNat / 2 ^ na = s.product.toNat / 2 / 2 ^ (na - 1) := by
    rw [Nat.div_div_eq_div_mul, ← Nat.pow_succ', Nat.succ_eq_add_one, Nat.sub_add_cancel some]
  have whole := Nat.div_add_mod (s.product.toNat / 2) (2 ^ (na - 1))
  simp only [slowmpy, busy, Bool.not_true, Bool.false_eq_true, if_false]
  rw [toNat_setWidth_append _ _ (by omega), sum, lower, halves]
  linarith

/-! ### A multiplication -/

variable (signed i) in
/-- `k` rows of the product of `i` are in the accumulator. -/
structure Working (k : Nat) (s : SlowmpyN na lgna) : Prop where
  busy : s.busy
  done : s.done = false
  almost : s.almostDone = decide (k = na)
  count : k < na → s.count.toNat = na - 1 - k
  pA : s.pA = i.a
  pB : s.pB = i.b >>> k
  aux : s.aux = i.aux
  product : (s.product.toNat : ℤ) = 2 ^ (na - k) * total signed i k

/-- The counter takes `2 ^ lgna` for zero. -/
theorem toNat_counted {count : BitVec lgna} {m : Nat} (fits : m < 2 ^ lgna)
    (here : count.toNat = (m + 1) % 2 ^ lgna) : (count - 1).toNat = m := by
  have next : count = BitVec.ofNat lgna (m + 1) := BitVec.eq_of_toNat_eq (by rw [here, BitVec.toNat_ofNat])
  have back : count - 1 = BitVec.ofNat lgna m := by
    rw [next, BitVec.ofNat_add]
    exact BitVec.add_sub_cancel _ _
  rw [back, BitVec.toNat_ofNat, Nat.mod_eq_of_lt fits]

variable (s i) in
/-- The clock takes a multiplication. -/
structure Accepts : Prop where
  idle : s.busy = false
  reset : i.reset = false
  stb : i.stb

theorem Accepts.working (some : 0 < na) (fits : na ≤ 2 ^ lgna) (accepts : s.Accepts i) :
    (s.slowmpy signed lowpower i).Working signed i 0 where
  busy := by simp [slowmpy, accepts.idle, accepts.reset, accepts.stb]
  done := by simp [slowmpy, accepts.idle]
  almost := by simp [slowmpy, accepts.idle, Nat.ne_of_lt some]
  count _ := by
    simp only [slowmpy, accepts.idle, Bool.not_false, if_true, Nat.sub_zero]
    exact toNat_counted (by omega) (by rw [BitVec.toNat_ofNat, Nat.sub_add_cancel some])
  pA := by simp [slowmpy, accepts.idle, accepts.stb]
  pB := by simp [slowmpy, accepts.idle, accepts.stb]
  aux := by simp [slowmpy, accepts.idle, accepts.reset, accepts.stb]
  product := by simp [slowmpy, accepts.idle, total_zero signed i some]

/-- The rows that are in, and the next one. -/
theorem total_succ {k : Nat} (more : k < na) (working : s.Working signed i k) :
    total signed i (k + 1) = total signed i k + 2 ^ k * (s.addend signed).toNat := by
  have some : 0 < na := by omega
  have bit : s.pB.getLsbD 0 = i.b.getLsbD k := by rw [working.pB, BitVec.getLsbD_ushiftRight, Nat.add_zero]
  have zero : s.preDone = decide (k = na - 1) := by
    rw [preDone, Bool.eq_iff_iff, beq_iff_eq, decide_eq_true_iff, ← BitVec.toNat_inj, working.count more]
    simp
    omega
  cases signed with
  | false =>
    rw [addend_unsigned, bit, working.pA]
    exact ShiftAdd.rows_succ i.a.toNat i.b k
  | true =>
    have before : total true i k = ShiftAdd.rows i.a.toInt i.b k + 2 ^ (na - 1) * (2 ^ k - 1) := by
      rw [total, if_pos rfl, if_pos more]
    by_cases last : k = na - 1
    · have all : total true i (k + 1) = i.a.toInt * i.b.toInt + 2 ^ (na + na - 1) - 2 ^ na := by
        rw [total, if_pos rfl, if_neg (by omega)]
      have double : (2 : ℤ) ^ na = 2 * 2 ^ (na - 1) := by rw [← pow_succ', Nat.sub_add_cancel some]
      have square : (2 : ℤ) ^ (na + na - 1) = 2 ^ na * 2 ^ (na - 1) := by
        rw [← pow_add]
        congr 1
        omega
      rw [all, before, addend_last some (by simp [zero, last]), bit, working.pA, last, ← ShiftAdd.rows_signed _ _ some,
        square, double]
      ring
    · have after : total true i (k + 1) = ShiftAdd.rows i.a.toInt i.b (k + 1) + 2 ^ (na - 1) * (2 ^ (k + 1) - 1) := by
        rw [total, if_pos rfl, if_pos (by omega)]
      rw [after, before, addend_row some (by simp [zero, last]), bit, working.pA, ShiftAdd.rows_succ]
      ring

variable {j : Inputs na}

theorem Working.slowmpy {k : Nat} (working : s.Working signed i k) (more : k < na) (free : j.reset = false) :
    (s.slowmpy signed lowpower j).Working signed i (k + 1) where
  busy := by simp [SlowmpyN.slowmpy, free, working.busy, working.almost, Nat.ne_of_lt more]
  done := by simp [SlowmpyN.slowmpy, working.busy, working.almost, Nat.ne_of_lt more]
  almost := by
    have zero : s.preDone = decide (k + 1 = na) := by
      rw [preDone, Bool.eq_iff_iff, beq_iff_eq, decide_eq_true_iff, ← BitVec.toNat_inj, working.count more]
      simp
      omega
    simp [SlowmpyN.slowmpy, free, working.busy, zero]
  count further := by
    have bound := s.count.isLt
    have here := working.count more
    simp only [SlowmpyN.slowmpy, working.busy, Bool.not_true, Bool.false_eq_true, if_false]
    exact toNat_counted (by omega) (by rw [Nat.mod_eq_of_lt (by omega)]; omega)
  pA := by simp [SlowmpyN.slowmpy, working.busy, working.pA]
  pB := by simp [SlowmpyN.slowmpy, working.busy, working.pB, BitVec.shiftRight_add]
  aux := by simp [SlowmpyN.slowmpy, free, working.busy, working.aux]
  product := by
    rw [product_slowmpy (by omega) working.busy, total_succ more working]
    push_cast
    exact ShiftAdd.accumulate more working.product

/-- The constants of the signed rows leave the word at its upper end. -/
theorem exact_of_total (wide : 2 ≤ na) (total : (s.product.toNat : ℤ) = total signed i na) :
    (if signed then s.product + ((0b1#1 ++ 0#(na - 2)) ++ (0b1#1 ++ 0#(na))).setWidth (na + na) else s.product) =
      i.exact signed := by
  have word : s.product = BitVec.ofInt (na + na) (SlowmpyN.total signed i na) := by
    rw [← total, BitVec.ofInt_natCast, BitVec.ofNat_toNat, BitVec.setWidth_eq]
  cases signed with
  | false =>
    rw [if_neg (by simp), word, Inputs.exact, if_neg (by simp), ← BitVec.ofInt_natCast]
    push_cast
    exact congrArg _ (ShiftAdd.rows_all i.a.toNat i.b)
  | true =>
    have square : (2 : ℤ) ^ (na + na) = 2 ^ (na + na - 1) + 2 ^ (na + na - 1) := by
      rw [← two_mul (2 ^ (na + na - 1) : ℤ), ← pow_succ', Nat.sub_add_cancel (by omega)]
    have constants : (((0b1#1 ++ 0#(na - 2)) ++ (0b1#1 ++ 0#(na))).setWidth (na + na)).toNat =
        2 ^ (na + na - 1) + 2 ^ na := by
      rw [toNat_setWidth_append _ _ (by omega), ShiftAdd.toNat_append, ShiftAdd.toNat_append, BitVec.toNat_ofNat,
        BitVec.toNat_ofNat, BitVec.toNat_ofNat, Nat.zero_mod, Nat.zero_mod, Nat.pow_one, Nat.mod_eq_of_lt (by decide),
        Nat.one_mul, Nat.one_mul, Nat.add_zero, Nat.add_zero, ← Nat.pow_add]
      congr 2
      omega
    rw [if_pos rfl, word, ← BitVec.setWidth_eq (BitVec.setWidth (na + na) _), ← BitVec.ofNat_toNat, constants,
      ← BitVec.ofInt_natCast, ← BitVec.ofInt_add, SlowmpyN.total, if_pos rfl, if_neg (Nat.lt_irrefl na), Inputs.exact,
      if_pos rfl]
    have sum : i.a.toInt * i.b.toInt + 2 ^ (na + na - 1) - 2 ^ na + ((2 ^ (na + na - 1) + 2 ^ na : Nat) : ℤ) =
        i.a.toInt * i.b.toInt + 2 ^ (na + na) * 1 := by
      rw [square]
      push_cast
      ring
    rw [sum, ShiftAdd.ofInt_wrapped]

theorem Working.finish (wide : 2 ≤ na) (working : s.Working signed i na) (free : j.reset = false) :
    (s.slowmpy signed lowpower j).busy = false ∧ (s.slowmpy signed lowpower j).done ∧
      (s.slowmpy signed lowpower j).p = i.exact signed ∧ (s.slowmpy signed lowpower j).oAux = i.aux := by
  have almost : s.almostDone = true := by simp [working.almost]
  have product := working.product
  rw [Nat.sub_self, pow_zero, one_mul] at product
  refine ⟨by simp [SlowmpyN.slowmpy, working.busy, almost], by simp [SlowmpyN.slowmpy, free, working.busy, almost],
    ?_, by simp [SlowmpyN.slowmpy, almost, working.aux]⟩
  simp only [SlowmpyN.slowmpy, almost, if_true]
  exact exact_of_total wide product

/-- The accumulator has taken as many rows as clocks have passed. -/
theorem Working.run {k : Nat} {s : SlowmpyN na lgna} (working : s.Working signed i k) {js : List (Inputs na)}
    (free : ∀ j ∈ js, j.reset = false) (within : k + js.length ≤ na) :
    (Clocked.run (SlowmpyN.slowmpy signed lowpower) s js).Working signed i (k + js.length) := by
  induction js generalizing k s with
  | nil => exact working
  | cons j js ih =>
    rw [List.length_cons] at within ⊢
    have next : (s.slowmpy signed lowpower j).Working signed i (k + 1) :=
      working.slowmpy (by omega) (free j List.mem_cons_self)
    rw [show k + (js.length + 1) = k + 1 + js.length by omega]
    exact ih next (fun j member => free j (List.mem_cons_of_mem _ member)) (by omega)

theorem done_of_idle (idle : s.busy = false) : (s.slowmpy signed lowpower i).done = false := by
  simp [SlowmpyN.slowmpy, idle]

variable (signed lowpower s i) in
/-- After the clock that takes `i`, and those behind it. -/
abbrev after (js : List (Inputs na)) : SlowmpyN na lgna := Clocked.run (SlowmpyN.slowmpy signed lowpower) s (i :: js)

variable {js : List (Inputs na)}

theorem Accepts.during (some : 0 < na) (fits : na ≤ 2 ^ lgna) (accepts : s.Accepts i)
    (free : ∀ j ∈ js, j.reset = false) (within : js.length ≤ na) :
    (after signed lowpower s i js).Working signed i js.length := by
  have begun : (s.slowmpy signed lowpower i).Working signed i 0 := accepts.working some fits
  have went : (after signed lowpower s i js).Working signed i (0 + js.length) := begun.run free (by omega)
  rwa [Nat.zero_add] at went

/-- It takes a clock for each bit and two more. -/
theorem Accepts.finish (wide : 2 ≤ na) (fits : na ≤ 2 ^ lgna) (accepts : s.Accepts i)
    (free : ∀ j ∈ js, j.reset = false) (all : js.length = na + 1) :
    (after signed lowpower s i js).busy = false ∧ (after signed lowpower s i js).done ∧
      (after signed lowpower s i js).p = i.exact signed ∧ (after signed lowpower s i js).oAux = i.aux := by
  rcases List.eq_nil_or_concat' js with rfl | ⟨early, last, rfl⟩
  · simp at all
  · have rows : early.length = na := by simpa using all
    have working : (after signed lowpower s i early).Working signed i early.length :=
      accepts.during (by omega) fits (fun j member => free j (List.mem_append_left _ member)) (Nat.le_of_eq rows)
    rw [rows] at working
    rw [after, ← List.cons_append, Clocked.run_append]
    exact working.finish wide (free last (by simp))

theorem Accepts.silent (wide : 2 ≤ na) (fits : na ≤ 2 ^ lgna) (accepts : s.Accepts i)
    (free : ∀ j ∈ js, j.reset = false) (all : js.length = na + 2) : (after signed lowpower s i js).done = false := by
  rcases List.eq_nil_or_concat' js with rfl | ⟨early, last, rfl⟩
  · simp at all
  · have rows : early.length = na + 1 := by simpa using all
    have idle : (after signed lowpower s i early).busy = false :=
      (accepts.finish wide fits (fun j member => free j (List.mem_append_left _ member)) rows).1
    rw [after, ← List.cons_append, Clocked.run_append]
    exact done_of_idle idle

end SlowmpyN

end IcoZip.Zipcore
