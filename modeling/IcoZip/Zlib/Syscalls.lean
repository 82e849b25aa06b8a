import IcoZip.Library.Calendar
import Mathlib.Data.BitVec
import Mathlib.Tactic.IntervalCases

/-! `_gettimeofday_r`, with a clock and a date to read.

Its `unsigned` and `long` variables stay far below their limits, whatever the registers hold.
-/

set_option autoImplicit false

namespace IcoZip.Zlib

structure Timeval where
  tvSec : Nat
  tvUsec : Nat
  deriving DecidableEq, Repr

/-- Two decimal digits from a bit on. -/
def bcd (word : BitVec 32) (bit : Nat) : Nat :=
  (word >>> bit &&& 0xf#32).toNat + (word >>> (bit + 4) &&& 0xf#32).toNat * 10

/-- `ly` -/
def leapYear (y : Nat) : Bool :=
  if y &&& 3 == 0 then
    if y != 0 then true
    else if y &&& 3 == 0 then true
    else false
  else false

/-- The days that the months before `m` add. -/
def monthDays (m : Nat) (ly : Bool) : Nat :=
  if 1 < m then
    31 + if 2 < m then
      28 + (if ly then 1 else 0) + if 3 < m then
        31 + if 4 < m then
          30 + if 5 < m then
            31 + if 6 < m then
              30 + if 7 < m then
                31 + if 8 < m then
                  31 + if 9 < m then
                    30 + if 10 < m then
                      31 + if 11 < m then 30 else 0
                    else 0
                  else 0
                else 0
              else 0
            else 0
          else 0
        else 0
      else 0
    else 0
  else 0

/-- `for (yy = 1970; yy < year; yy++)` -/
def addYears (year daysSinceEpoch : Nat) : Nat :=
  (List.range' 1970 (year - 1970)).foldl (fun days yy => days + if yy &&& 3 == 0 then 366 else 365) daysSinceEpoch

def daysSinceEpoch (date : BitVec 32) : Nat :=
  let d := bcd date 0
  let m := bcd date 8
  let y := bcd date 16
  let c := bcd date 24
  addYears (c * 100 + y) (d + monthDays m (leapYear y))

/-- What is returned, and what `ptimeval` points to. -/
def gettimeofdayR (clock date : BitVec 32) : Option Timeval → Int × Option Timeval
  | none => (0, none)
  | some _ =>
    let m := bcd clock 8
    let h := bcd clock 16
    let tod := (h * 60 + m) * 60
    (0, some ⟨daysSinceEpoch date * 86400 + tod, 0⟩)

/-! ### What it is for -/

/-- The date in a register. -/
def registerDate (date : BitVec 32) : Calendar.Date := ⟨100 * bcd date 24 + bcd date 16, bcd date 8, bcd date 0⟩

def Decimal (word : BitVec 32) (bit : Nat) : Prop :=
  (word >>> bit &&& 0xf#32).toNat ≤ 9 ∧ (word >>> (bit + 4) &&& 0xf#32).toNat ≤ 9

instance (word : BitVec 32) (bit : Nat) : Decidable (Decimal word bit) :=
  inferInstanceAs (Decidable (_ ∧ _))

/-- A date from 1970 to 2037. -/
structure DateRegister (date : BitVec 32) : Prop where
  decimal : Decimal date 0 ∧ Decimal date 8 ∧ Decimal date 16 ∧ Decimal date 24
  valid : (registerDate date).Valid
  since : 1970 ≤ (registerDate date).year
  till : (registerDate date).year ≤ 2037

/-- A time of day. -/
structure ClockRegister (clock : BitVec 32) : Prop where
  decimal : Decimal clock 0 ∧ Decimal clock 8 ∧ Decimal clock 16
  hour : bcd clock 16 < 24
  minute : bcd clock 8 < 60
  second : bcd clock 0 < 60

/-- The seconds since the start of 1970. -/
def posix (clock date : BitVec 32) : Nat :=
  86400 * (registerDate date).days 1970 + 3600 * bcd clock 16 + 60 * bcd clock 8 + bcd clock 0

/-! ### Days -/

theorem and_three (n : Nat) : n &&& 3 = n % 4 := Nat.and_two_pow_sub_one_eq_mod n 2

theorem monthDays_eq (m : Nat) (leap : Bool) (month : 1 ≤ m ∧ m ≤ 12) :
    monthDays m leap = Calendar.daysBeforeMonth leap m := by
  obtain ⟨first, last⟩ := month
  interval_cases m <;> cases leap <;> rfl

/-- Every fourth year from 1901 to 2099 is a leap year. -/
theorem leap_fourth (year : Nat) (since : 1901 ≤ year) (till : year ≤ 2099) : Calendar.leap year = (year % 4 == 0) := by
  rw [Calendar.leap, Bool.eq_iff_iff]
  simp only [Bool.and_eq_true, Bool.or_eq_true, beq_iff_eq, bne_iff_ne]
  omega

theorem leapYear_eq (c y : Nat) (since : 1901 ≤ 100 * c + y) (till : 100 * c + y ≤ 2099) :
    leapYear y = Calendar.leap (100 * c + y) := by
  have fourth : leapYear y = (y % 4 == 0) := by
    unfold leapYear
    rw [and_three]
    cases y % 4 == 0 with
    | false => rfl
    | true => cases y != 0 <;> rfl
  have same : (100 * c + y) % 4 = y % 4 := by omega
  rw [fourth, leap_fourth _ since till, same]

theorem addYears_eq (years days : Nat) (till : 1970 + years ≤ 2100) :
    addYears (1970 + years) days = days + Calendar.daysBeforeYear 1970 (1970 + years) := by
  unfold addYears
  rw [Nat.add_sub_cancel_left]
  induction years with
  | zero => rw [Calendar.daysBeforeYear_epoch 1970 (Nat.le_refl 1970)]; rfl
  | succ years ih =>
    have late : ¬ 1970 + years < 1970 := by omega
    have year : (if (1970 + years) &&& 3 == 0 then 366 else 365) = Calendar.yearLength (1970 + years) := by
      rw [Calendar.yearLength, leap_fourth _ (by omega) (by omega), and_three]
    rw [List.range'_concat, List.foldl_append, ih (by omega), List.foldl_cons, List.foldl_nil, Nat.one_mul, year,
      ← Nat.add_assoc 1970 years 1, Calendar.daysBeforeYear, if_neg late, Nat.add_assoc]

/-- The first of January 1970 counts as one day. -/
theorem daysSinceEpoch_eq (date : BitVec 32) (register : DateRegister date) :
    daysSinceEpoch date = (registerDate date).days 1970 + 1 := by
  obtain ⟨_, ⟨month, day⟩, since, till⟩ := register
  have whole : bcd date 24 * 100 + bcd date 16 = 1970 + (bcd date 24 * 100 + bcd date 16 - 1970) := by
    have year : 1970 ≤ 100 * bcd date 24 + bcd date 16 := since
    omega
  have early : 100 * bcd date 24 + bcd date 16 ≤ 2037 := till
  have some : 1 ≤ bcd date 0 := day.1
  have leap := leapYear_eq (bcd date 24) (bcd date 16) (Nat.le_trans (by decide) since) (Nat.le_trans till (by decide))
  have years := addYears_eq (bcd date 24 * 100 + bcd date 16 - 1970)
    (bcd date 0 + monthDays (bcd date 8) (leapYear (bcd date 16))) (by omega)
  rw [← whole] at years
  rw [daysSinceEpoch, years, monthDays_eq (bcd date 8) _ month, leap]
  simp only [Calendar.Date.days, registerDate, Nat.mul_comm 100]
  omega

/-- The time is a day late, and the seconds are missing. -/
theorem gettimeofday_late (clock date : BitVec 32) (t : Timeval) (time : ClockRegister clock)
    (register : DateRegister date) :
    (∃ tvSec, gettimeofdayR clock date (some t) = (0, some ⟨tvSec, 0⟩) ∧
      tvSec + bcd clock 0 = posix clock date + 86400 ∧ tvSec ≠ posix clock date) ∧
    ∀ clock' : BitVec 32, bcd clock' 16 = bcd clock 16 → bcd clock' 8 = bcd clock 8 →
      gettimeofdayR clock' date (some t) = gettimeofdayR clock date (some t) := by
  have days := daysSinceEpoch_eq date register
  have short := time.second
  constructor
  · refine ⟨_, rfl, ?_, ?_⟩ <;>
    · rw [posix, days]
      omega
  · intro clock' hour minute
    simp only [gettimeofdayR, hour, minute]

/-- The last second of the year 1999. -/
theorem gettimeofday_late_1999 : ∃ tvSec, gettimeofdayR 0x00235959 0x19991231 (some ⟨0, 0⟩) = (0, some ⟨tvSec, 0⟩) ∧
    tvSec ≠ posix 0x00235959 0x19991231 :=
  have late := gettimeofday_late 0x00235959 0x19991231 ⟨0, 0⟩
    ⟨by decide, by decide, by decide, by decide⟩ ⟨by decide, by decide, by decide, by decide⟩
  late.1.imp fun _ h => ⟨h.1, h.2.2⟩

theorem epoch_late : ¬ ∀ clock date : BitVec 32, ClockRegister clock → DateRegister date →
    gettimeofdayR clock date (some ⟨0, 0⟩) = (0, some ⟨posix clock date, 0⟩) := by
  intro exact
  have epoch := exact 0 0x19700101 ⟨by decide, by decide, by decide, by decide⟩
    ⟨by decide, by decide, by decide, by decide⟩
  have start : posix 0 0x19700101 = 0 := by
    have day : registerDate 0x19700101 = ⟨1970, 1, 1⟩ := by decide
    rw [posix, day, Calendar.Date.days_epoch]
    rfl
  rw [start] at epoch
  revert epoch
  decide

end IcoZip.Zlib
