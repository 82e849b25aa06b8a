import IcoZip.Library.Calendar
import IcoZip.Library.Clocked
import IcoZip.Library.Fields
import Mathlib.Data.BitVec

/-! `rtcdate`, the date behind the clock, in decimal digits.

Whether a day is the last one of its month and of its year is found out in registers behind
each other, so that it takes four clocks after a change.
-/

set_option autoImplicit false

namespace IcoZip.Rtc

structure Rtcdate where
  day : BitVec 6
  mon : BitVec 5
  year : BitVec 14
  lastDayOfMonth : Bool
  lastDayOfYear : Bool
  isLeapYear : Bool
  yearDivisibleByFour : Bool
  centuryYear : Bool
  fourCenturyYear : Bool
  wbAck : Bool
  deriving DecidableEq, Repr

namespace Rtcdate

structure Inputs where
  ppd : Bool
  wbCycStb : Bool
  wbWe : Bool
  wbData : BitVec 32

/-- No pulse, and nothing on the bus. -/
def Inputs.idle : Inputs := ⟨false, false, false, 0⟩

/-- The value `last_day_of_month` takes. -/
def monthEnds (mon : BitVec 5) (day : BitVec 6) (isLeapYear : Bool) : Bool :=
  if mon = 0x01#5 then 0x31#6 ≤ day
  else if mon = 0x02#5 then 0x29#6 ≤ day || !isLeapYear && day == 0x28#6
  else if mon = 0x03#5 then 0x31#6 ≤ day
  else if mon = 0x04#5 then 0x30#6 ≤ day
  else if mon = 0x05#5 then 0x31#6 ≤ day
  else if mon = 0x06#5 then 0x30#6 ≤ day
  else if mon = 0x07#5 then 0x31#6 ≤ day
  else if mon = 0x08#5 then 0x31#6 ≤ day
  else if mon = 0x09#5 then 0x30#6 ≤ day
  else if mon = 0x10#5 then 0x31#6 ≤ day
  else if mon = 0x11#5 then 0x30#6 ≤ day
  else if mon = 0x12#5 then 0x31#6 ≤ day
  else false

/-- `r_day`, before what is written. -/
def nextDay (day : BitVec 6) (ppd lastDayOfMonth : Bool) : BitVec 6 :=
  let units := day.extractLsb' 0 4
  let tens := day.extractLsb' 4 2
  if day == 0 || 0x31#6 < day || 0x9#4 < units then 0x01#6
  else if ppd && lastDayOfMonth then 0x01#6
  else if ppd && units != 0x9#4 then tens ++ (units + 1)
  else if ppd then (tens + 1) ++ 0#4
  else day

/-- `r_mon`, before what is written. -/
def nextMon (mon : BitVec 5) (ppd lastDayOfMonth lastDayOfYear : Bool) : BitVec 5 :=
  let units := mon.extractLsb' 0 4
  let tens := mon.extractLsb' 4 1
  if mon == 0 || 0x12#5 < mon || 0x9#4 < units then 0x01#5
  else if ppd && lastDayOfYear then 0x01#5
  else if ppd && lastDayOfMonth && units != 0x9#4 then tens ++ (units + 1)
  else if ppd && lastDayOfMonth then 1#1 ++ 0#4
  else mon

/-- A digit of the year, which counts if it is its turn. -/
def nextDigit (digit : BitVec 4) (turn : Bool) : BitVec 4 :=
  if turn then if digit != 0x9#4 then digit + 1 else 0
  else if 0x9#4 < digit then 0 else digit

/-- `r_year`, before what is written. -/
def nextYear (year : BitVec 14) (ppd lastDayOfYear : Bool) : BitVec 14 :=
  let ones := year.extractLsb' 0 4
  let tens := year.extractLsb' 4 4
  let hundreds := year.extractLsb' 8 4
  let thousands := year.extractLsb' 12 2
  let turn := ppd && lastDayOfYear
  let turn₁ := turn && ones == 0x9#4
  let turn₂ := turn₁ && tens == 0x9#4
  let turn₃ := turn₂ && hundreds == 0x9#4
  (if turn₃ then thousands + 1 else thousands) ++
    (nextDigit hundreds turn₂ ++ (nextDigit tens turn₁ ++ nextDigit ones turn))

variable (s : Rtcdate) (i : Inputs)

/-- One clock. -/
def clock : Rtcdate where
  lastDayOfYear := s.lastDayOfMonth && s.mon == 0x12#5
  lastDayOfMonth := monthEnds s.mon s.day s.isLeapYear
  yearDivisibleByFour := !s.year.getLsbD 0 && s.year.getLsbD 4 == s.year.getLsbD 1
  centuryYear := s.year.extractLsb' 0 8 == 0
  fourCenturyYear := !s.year.getLsbD 8 && s.year.getLsbD 12 == s.year.getLsbD 9
  isLeapYear := s.yearDivisibleByFour && (!s.centuryYear || s.centuryYear && s.fourCenturyYear)
  day :=
    if i.wbCycStb && i.wbWe && i.wbData.extractLsb' 0 8 != 0xff#8 then i.wbData.extractLsb' 0 6
    else nextDay s.day i.ppd s.lastDayOfMonth
  mon :=
    if i.wbCycStb && i.wbWe && i.wbData.extractLsb' 8 8 != 0xff#8 then i.wbData.extractLsb' 8 5
    else nextMon s.mon i.ppd s.lastDayOfMonth s.lastDayOfYear
  year :=
    if i.wbCycStb && i.wbWe && i.wbData.extractLsb' 16 16 != 0xffff#16 then i.wbData.extractLsb' 16 14
    else nextYear s.year i.ppd s.lastDayOfYear
  wbAck := i.wbCycStb

/-- `o_wb_data` -/
def wbData : BitVec 32 := 0#2 ++ (s.year ++ (0#3 ++ (s.mon ++ (0#2 ++ s.day))))

/-! ### Dates -/

/-- The value of two digits. -/
def pair (tens units : Nat) : Nat := 10 * tens + units

def dayNumber (day : BitVec 6) : Nat := pair (day.extractLsb' 4 2).toNat (day.extractLsb' 0 4).toNat

def monthNumber (mon : BitVec 5) : Nat := pair (mon.extractLsb' 4 1).toNat (mon.extractLsb' 0 4).toNat

def yearNumber (year : BitVec 14) : Nat :=
  100 * pair (year.extractLsb' 12 2).toNat (year.extractLsb' 8 4).toNat +
    pair (year.extractLsb' 4 4).toNat (year.extractLsb' 0 4).toNat

/-- The digits of the year are decimal. -/
def DecimalYear (year : BitVec 14) : Prop :=
  (year.extractLsb' 0 4).toNat ≤ 9 ∧ (year.extractLsb' 4 4).toNat ≤ 9 ∧ (year.extractLsb' 8 4).toNat ≤ 9

/-- A day in 01..31, a month in 01..12 and a year in decimal digits. -/
structure Decimal : Prop where
  day : (s.day.extractLsb' 0 4).toNat ≤ 9 ∧ 1 ≤ dayNumber s.day ∧ dayNumber s.day ≤ 31
  mon : (s.mon.extractLsb' 0 4).toNat ≤ 9 ∧ 1 ≤ monthNumber s.mon ∧ monthNumber s.mon ≤ 12
  year : DecimalYear s.year

/-- The date that the registers hold. -/
def date : Calendar.Date := ⟨yearNumber s.year, monthNumber s.mon, dayNumber s.day⟩

/-- The registers hold a date. -/
structure Valid : Prop where
  decimal : s.Decimal
  date : s.date.Valid

/-- The flags do not change any more. -/
structure Settled : Prop where
  lastDayOfYear : (s.clock .idle).lastDayOfYear = s.lastDayOfYear
  lastDayOfMonth : (s.clock .idle).lastDayOfMonth = s.lastDayOfMonth
  yearDivisibleByFour : (s.clock .idle).yearDivisibleByFour = s.yearDivisibleByFour
  centuryYear : (s.clock .idle).centuryYear = s.centuryYear
  fourCenturyYear : (s.clock .idle).fourCenturyYear = s.fourCenturyYear
  isLeapYear : (s.clock .idle).isLeapYear = s.isLeapYear

/-! ### The tables -/

theorem nextDay_table (day : BitVec 6) (last : Bool)
    (decimal : (day.extractLsb' 0 4).toNat ≤ 9 ∧ 1 ≤ dayNumber day ∧ dayNumber day ≤ 31) :
    nextDay day false last = day ∧ ((last = false → dayNumber day ≤ 30) →
      ((nextDay day true last).extractLsb' 0 4).toNat ≤ 9 ∧
        dayNumber (nextDay day true last) = if last then 1 else dayNumber day + 1) := by
  revert day last
  decide +kernel

theorem nextDay_quiet (day : BitVec 6) (last : Bool)
    (decimal : (day.extractLsb' 0 4).toNat ≤ 9 ∧ 1 ≤ dayNumber day ∧ dayNumber day ≤ 31) :
    nextDay day false last = day :=
  (nextDay_table day last decimal).1

theorem nextDay_pulse (day : BitVec 6) (last : Bool)
    (decimal : (day.extractLsb' 0 4).toNat ≤ 9 ∧ 1 ≤ dayNumber day ∧ dayNumber day ≤ 31)
    (more : last = false → dayNumber day ≤ 30) :
    ((nextDay day true last).extractLsb' 0 4).toNat ≤ 9 ∧
      dayNumber (nextDay day true last) = if last then 1 else dayNumber day + 1 :=
  (nextDay_table day last decimal).2 more

theorem nextMon_table (mon : BitVec 5) (last : Bool)
    (decimal : (mon.extractLsb' 0 4).toNat ≤ 9 ∧ 1 ≤ monthNumber mon ∧ monthNumber mon ≤ 12) :
    (∀ ppd lastMonth, (ppd && lastMonth) = false → (ppd && last) = false → nextMon mon ppd lastMonth last = mon) ∧
      ((last = false → monthNumber mon ≤ 11) →
        ((nextMon mon true true last).extractLsb' 0 4).toNat ≤ 9 ∧
          monthNumber (nextMon mon true true last) = if last then 1 else monthNumber mon + 1) := by
  revert mon last
  decide +kernel

theorem nextMon_quiet (mon : BitVec 5) (ppd lastMonth lastYear : Bool) (inside : (ppd && lastMonth) = false)
    (early : (ppd && lastYear) = false)
    (decimal : (mon.extractLsb' 0 4).toNat ≤ 9 ∧ 1 ≤ monthNumber mon ∧ monthNumber mon ≤ 12) :
    nextMon mon ppd lastMonth lastYear = mon :=
  (nextMon_table mon lastYear decimal).1 ppd lastMonth inside early

theorem nextMon_pulse (mon : BitVec 5) (last : Bool)
    (decimal : (mon.extractLsb' 0 4).toNat ≤ 9 ∧ 1 ≤ monthNumber mon ∧ monthNumber mon ≤ 12)
    (more : last = false → monthNumber mon ≤ 11) :
    ((nextMon mon true true last).extractLsb' 0 4).toNat ≤ 9 ∧
      monthNumber (nextMon mon true true last) = if last then 1 else monthNumber mon + 1 :=
  (nextMon_table mon last decimal).2 more

theorem monthEnds_eq (mon : BitVec 5) (day : BitVec 6) (leap : Bool)
    (decimal : (mon.extractLsb' 0 4).toNat ≤ 9 ∧ 1 ≤ monthNumber mon ∧ monthNumber mon ≤ 12)
    (inside : (day.extractLsb' 0 4).toNat ≤ 9 ∧ dayNumber day ≤ Calendar.monthLength leap (monthNumber mon)) :
    monthEnds mon day leap = decide (dayNumber day = Calendar.monthLength leap (monthNumber mon)) := by
  revert mon day leap
  decide +kernel

theorem nextDigit_value (digit : BitVec 4) (turn : Bool) (decimal : digit.toNat ≤ 9) :
    (nextDigit digit turn).toNat = if turn then if digit.toNat = 9 then 0 else digit.toNat + 1 else digit.toNat := by
  revert digit turn
  decide

theorem digits (x : BitVec 2) (y z t : BitVec 4) :
    (x ++ (y ++ (z ++ t)) : BitVec 14).extractLsb' 12 2 = x ∧ (x ++ (y ++ (z ++ t)) : BitVec 14).extractLsb' 8 4 = y ∧
      (x ++ (y ++ (z ++ t)) : BitVec 14).extractLsb' 4 4 = z ∧ (x ++ (y ++ (z ++ t)) : BitVec 14).extractLsb' 0 4 = t := by
  refine ⟨Fields.first x (y ++ (z ++ t)), ?_, ?_, ?_⟩
  · rw [BitVec.extractLsb'_append_eq_of_add_le (by decide), Fields.first]
  · rw [BitVec.extractLsb'_append_eq_of_add_le (by decide), BitVec.extractLsb'_append_eq_of_add_le (by decide),
      Fields.first]
  · rw [BitVec.extractLsb'_append_eq_of_add_le (by decide), BitVec.extractLsb'_append_eq_of_add_le (by decide),
      BitVec.extractLsb'_append_eq_of_add_le (by decide), BitVec.extractLsb'_eq_self]

theorem nextYear_quiet (year : BitVec 14) (ppd last : Bool) (still : (ppd && last) = false)
    (decimal : DecimalYear year) : nextYear year ppd last = year := by
  have same (digit : BitVec 4) (decimal : digit.toNat ≤ 9) : nextDigit digit false = digit := by
    revert digit
    decide
  obtain ⟨first, second, third⟩ := decimal
  unfold nextYear
  simp only [still, Bool.false_and, Bool.false_eq_true, if_false]
  rw [same _ first, same _ second, same _ third]
  have lower : year.extractLsb' 4 4 ++ year.extractLsb' 0 4 = year.extractLsb' 0 8 := Fields.joined year 0
  have upper : year.extractLsb' 8 4 ++ year.extractLsb' 0 8 = year.extractLsb' 0 12 := Fields.joined year 0
  have whole : year.extractLsb' 12 2 ++ year.extractLsb' 0 12 = year.extractLsb' 0 14 := Fields.joined year 0
  have all : year.extractLsb' 0 14 = year := BitVec.extractLsb'_eq_self
  change (year.extractLsb' 12 2 ++ (year.extractLsb' 8 4 ++
    (year.extractLsb' 4 4 ++ year.extractLsb' 0 4 : BitVec 8) : BitVec 12) : BitVec 14) = year
  rw [lower, upper, whole, all]

/-- The year counts to 3999. -/
theorem nextYear_value (year : BitVec 14) (ppd last : Bool) (decimal : DecimalYear year) :
    DecimalYear (nextYear year ppd last) ∧
      yearNumber (nextYear year ppd last) = if ppd && last then (yearNumber year + 1) % 4000 else yearNumber year := by
  obtain ⟨first, second, third⟩ := decimal
  have top := (year.extractLsb' 12 2).isLt
  unfold DecimalYear yearNumber nextYear
  simp only [(digits _ _ _ _).1, (digits _ _ _ _).2.1, (digits _ _ _ _).2.2.1, (digits _ _ _ _).2.2.2]
  rw [nextDigit_value _ _ first, nextDigit_value _ _ second, nextDigit_value _ _ third]
  have nine (x : BitVec 4) : (x == 0x9#4) = decide (x.toNat = 9) := by
    revert x
    decide
  have counts (x : BitVec 2) (turn : Bool) :
      (if turn then x + 1 else x).toNat = if turn then if x.toNat = 3 then 0 else x.toNat + 1 else x.toNat := by
    revert x turn
    decide
  rw [counts]
  -- each digit on its own, with the carries between them
  simp only [nine, Bool.and_eq_true, decide_eq_true_eq, pair]
  generalize (year.extractLsb' 0 4).toNat = ones at *
  generalize (year.extractLsb' 4 4).toNat = tens at *
  generalize (year.extractLsb' 8 4).toNat = hundreds at *
  generalize (year.extractLsb' 12 2).toNat = thousands at *
  refine ⟨⟨?_, ?_, ?_⟩, ?_⟩
  · split_ifs <;> omega
  · split_ifs <;> omega
  · split_ifs <;> omega
  · split_ifs <;> first | omega | simp_all

theorem four (tens ones : BitVec 4) (decimal : tens.toNat ≤ 9 ∧ ones.toNat ≤ 9) :
    (!ones.getLsbD 0 && tens.getLsbD 0 == ones.getLsbD 1) = (pair tens.toNat ones.toNat % 4 == 0) := by
  revert tens ones
  decide

theorem fourCenturies (thousands : BitVec 2) (hundreds : BitVec 4) (decimal : hundreds.toNat ≤ 9) :
    (!hundreds.getLsbD 0 && thousands.getLsbD 0 == hundreds.getLsbD 1) =
      (pair thousands.toNat hundreds.toNat % 4 == 0) := by
  revert thousands hundreds
  decide

theorem century (tens ones : BitVec 4) : ((tens ++ ones : BitVec 8) == 0) = (pair tens.toNat ones.toNat == 0) := by
  revert tens ones
  decide

/-- The tests of the digits are those of the calendar. -/
theorem leap_eq (year : BitVec 14) (decimal : DecimalYear year) :
    ((!year.getLsbD 0 && year.getLsbD 4 == year.getLsbD 1) && (!(year.extractLsb' 0 8 == 0) ||
      year.extractLsb' 0 8 == 0 && (!year.getLsbD 8 && year.getLsbD 12 == year.getLsbD 9))) =
        Calendar.leap (yearNumber year) := by
  obtain ⟨first, second, third⟩ := decimal
  have years := four (year.extractLsb' 4 4) (year.extractLsb' 0 4) ⟨second, first⟩
  have centuries := fourCenturies (year.extractLsb' 12 2) (year.extractLsb' 8 4) third
  have none := century (year.extractLsb' 4 4) (year.extractLsb' 0 4)
  simp only [BitVec.getLsbD_extractLsb', Nat.reduceLT, decide_true, Bool.true_and, Nat.reduceAdd] at years centuries
  have joined : year.extractLsb' 4 4 ++ year.extractLsb' 0 4 = year.extractLsb' 0 8 := Fields.joined year 0
  rw [joined] at none
  rw [years, centuries, none, Calendar.leap, yearNumber, Bool.eq_iff_iff]
  have small : pair (year.extractLsb' 4 4).toNat (year.extractLsb' 0 4).toNat < 100 := by
    unfold pair
    omega
  generalize pair (year.extractLsb' 4 4).toNat (year.extractLsb' 0 4).toNat = low at *
  generalize pair (year.extractLsb' 12 2).toNat (year.extractLsb' 8 4).toNat = high at *
  simp only [Bool.and_eq_true, Bool.or_eq_true, beq_iff_eq, bne_iff_ne, Bool.not_eq_true', beq_eq_false_iff_ne]
  omega

theorem yearNumber_lt {year : BitVec 14} (decimal : DecimalYear year) : yearNumber year < 4000 := by
  obtain ⟨first, second, third⟩ := decimal
  have top := (year.extractLsb' 12 2).isLt
  unfold yearNumber pair
  omega

/-! ### Days -/

/-- Nothing is written. -/
def Inputs.Unwritten (i : Inputs) : Prop := (i.wbCycStb && i.wbWe) = false

section
variable {i} (unwritten : i.Unwritten)
include unwritten

theorem day_clock : (s.clock i).day = nextDay s.day i.ppd s.lastDayOfMonth := by
  simp only [clock, show (i.wbCycStb && i.wbWe) = false from unwritten]
  rfl

theorem mon_clock : (s.clock i).mon = nextMon s.mon i.ppd s.lastDayOfMonth s.lastDayOfYear := by
  simp only [clock, show (i.wbCycStb && i.wbWe) = false from unwritten]
  rfl

theorem year_clock : (s.clock i).year = nextYear s.year i.ppd s.lastDayOfYear := by
  simp only [clock, show (i.wbCycStb && i.wbWe) = false from unwritten]
  rfl

end

/-- The flags of the first `n` stages are those of the date. -/
structure Flags (n : Nat) : Prop where
  yearDivisibleByFour : 1 ≤ n →
    s.yearDivisibleByFour = (!s.year.getLsbD 0 && s.year.getLsbD 4 == s.year.getLsbD 1)
  centuryYear : 1 ≤ n → s.centuryYear = (s.year.extractLsb' 0 8 == 0)
  fourCenturyYear : 1 ≤ n → s.fourCenturyYear = (!s.year.getLsbD 8 && s.year.getLsbD 12 == s.year.getLsbD 9)
  isLeapYear : 2 ≤ n → s.isLeapYear = Calendar.leap s.date.year
  lastDayOfMonth : 3 ≤ n → s.lastDayOfMonth = decide (s.date.day = s.date.length)
  lastDayOfYear : 4 ≤ n → s.lastDayOfYear = (decide (s.date.day = s.date.length) && decide (s.date.month = 12))

variable {s i}

theorem december (mon : BitVec 5) (decimal : (mon.extractLsb' 0 4).toNat ≤ 9 ∧ 1 ≤ monthNumber mon ∧
    monthNumber mon ≤ 12) : (mon == 0x12#5) = decide (monthNumber mon = 12) := by
  revert mon
  decide

theorem Valid.ends (valid : s.Valid) (leap : s.isLeapYear = Calendar.leap s.date.year) :
    monthEnds s.mon s.day s.isLeapYear = decide (s.date.day = s.date.length) := by
  rw [leap]
  exact monthEnds_eq s.mon s.day _ valid.decimal.mon ⟨valid.decimal.day.1, valid.date.day.2⟩

/-- Without a pulse the date stays, and one stage more of the flags is right. -/
theorem Valid.quiet (valid : s.Valid) (unwritten : i.Unwritten) (quiet : i.ppd = false) :
    (s.clock i).Valid ∧ (s.clock i).date = s.date ∧ ∀ n, s.Flags n → (s.clock i).Flags (n + 1) := by
  have day : (s.clock i).day = s.day := by
    rw [day_clock s unwritten, quiet]
    exact nextDay_quiet s.day _ valid.decimal.day
  have mon : (s.clock i).mon = s.mon := by
    rw [mon_clock s unwritten, quiet]
    exact nextMon_quiet s.mon _ _ _ rfl rfl valid.decimal.mon
  have year : (s.clock i).year = s.year := by
    rw [year_clock s unwritten, quiet]
    exact nextYear_quiet s.year _ _ rfl valid.decimal.year
  have date : (s.clock i).date = s.date := by rw [Rtcdate.date, day, mon, year, Rtcdate.date]
  refine ⟨⟨⟨?_, ?_, ?_⟩, ?_⟩, date, fun n flags => ⟨?_, ?_, ?_, ?_, ?_, ?_⟩⟩
  · rw [day]
    exact valid.decimal.day
  · rw [mon]
    exact valid.decimal.mon
  · rw [year]
    exact valid.decimal.year
  · rw [date]
    exact valid.date
  · intro _
    rw [year]
    rfl
  · intro _
    rw [year]
    rfl
  · intro _
    rw [year]
    rfl
  · intro second
    have leap := leap_eq s.year valid.decimal.year
    rw [← flags.yearDivisibleByFour (by omega), ← flags.centuryYear (by omega),
      ← flags.fourCenturyYear (by omega)] at leap
    rw [date]
    exact leap
  · intro third
    rw [date]
    exact valid.ends (flags.isLeapYear (by omega))
  · intro fourth
    rw [date, ← flags.lastDayOfMonth (by omega)]
    exact congrArg (s.lastDayOfMonth && ·) (december s.mon valid.decimal.mon)

/-- The day after. -/
def tomorrow (d : Calendar.Date) : Calendar.Date := { d.next with year := d.next.year % 4000 }

theorem leap_wraps (year : Nat) : Calendar.leap (year % 4000) = Calendar.leap year := by
  rw [Calendar.leap, Calendar.leap, Nat.mod_mod_of_dvd _ (by decide), Nat.mod_mod_of_dvd _ (by decide),
    Nat.mod_mod_of_dvd _ (by decide)]

theorem tomorrow_valid {d : Calendar.Date} (valid : d.Valid) : (tomorrow d).Valid := by
  have next := valid.next
  refine ⟨next.month, next.day.1, ?_⟩
  have same : (tomorrow d).length = d.next.length := by
    rw [Calendar.Date.length, Calendar.Date.length, tomorrow, leap_wraps]
  rw [same]
  exact next.day.2

/-- With the flags right, a pulse moves the date on. -/
theorem Valid.pulse (valid : s.Valid) (flags : s.Flags 4) (unwritten : i.Unwritten) (pulse : i.ppd = true) :
    (s.clock i).Valid ∧ (s.clock i).date = tomorrow s.date := by
  have ends := flags.lastDayOfMonth (by decide)
  have last := flags.lastDayOfYear (by decide)
  have day := day_clock s unwritten
  have mon := mon_clock s unwritten
  have year := year_clock s unwritten
  rw [pulse] at day mon year
  obtain ⟨month, begins, before⟩ := valid.date
  have bounds (leap : Bool) (month : Nat) : Calendar.monthLength leap month ≤ 31 :=
    (Calendar.monthLength_pos leap month).2
  have most : s.date.length ≤ 31 := bounds _ _
  have small := yearNumber_lt valid.decimal.year
  obtain ⟨digits, number⟩ := nextYear_value s.year true s.lastDayOfYear valid.decimal.year
  obtain ⟨units, days⟩ := nextDay_pulse s.day s.lastDayOfMonth valid.decimal.day fun inside => by
    rw [ends] at inside
    have differs : ¬ s.date.day = s.date.length := of_decide_eq_false inside
    have less : s.date.day ≤ 30 := by omega
    exact less
  rw [← day] at units days
  rw [← year] at digits number
  -- the month goes on with the first day
  have months : ((s.clock i).mon.extractLsb' 0 4).toNat ≤ 9 ∧ monthNumber (s.clock i).mon =
      if s.lastDayOfMonth then if s.lastDayOfYear then 1 else monthNumber s.mon + 1 else monthNumber s.mon := by
    cases inside : s.lastDayOfMonth with
    | false =>
      have early : s.lastDayOfYear = false := by
        rw [last, ← ends, inside, Bool.false_and]
      rw [inside, early] at mon
      rw [mon, nextMon_quiet s.mon _ _ _ rfl rfl valid.decimal.mon]
      exact ⟨valid.decimal.mon.1, rfl⟩
    | true =>
      rw [inside] at mon
      rw [mon]
      refine nextMon_pulse s.mon s.lastDayOfYear valid.decimal.mon fun early => ?_
      rw [last, ← ends, inside, Bool.true_and] at early
      have differs : ¬ s.date.month = 12 := of_decide_eq_false early
      have less : s.date.month ≤ 11 := by omega
      exact less
  obtain ⟨unit, months⟩ := months
  have date : (s.clock i).date = tomorrow s.date := by
    rw [last] at months number
    rw [ends] at days months
    have kept : yearNumber s.year % 4000 = yearNumber s.year := Nat.mod_eq_of_lt small
    unfold tomorrow Calendar.Date.next
    by_cases inside : s.date.day < s.date.length
    · have differs : ¬ s.date.day = s.date.length := Nat.ne_of_lt inside
      simp only [differs, decide_false, Bool.false_eq_true, Bool.false_and, Bool.and_false, if_false]
        at days months number
      rw [if_pos inside, Rtcdate.date, days, months, number]
      exact congrArg (Calendar.Date.mk · (monthNumber s.mon) (dayNumber s.day + 1)) kept.symm
    · have full : s.date.day = s.date.length := by omega
      rw [if_neg inside]
      by_cases early : s.date.month < 12
      · have differs : ¬ s.date.month = 12 := Nat.ne_of_lt early
        simp only [full, differs, decide_true, decide_false, Bool.false_eq_true, Bool.and_false, if_false, if_true]
          at days months number
        rw [if_pos early, Rtcdate.date, days, months, number]
        exact congrArg (Calendar.Date.mk · (monthNumber s.mon + 1) 1) kept.symm
      · have december : s.date.month = 12 := by omega
        simp only [full, december, decide_true, Bool.and_true, if_true] at days months number
        rw [if_neg early, Rtcdate.date, days, months, number]
        rfl
  have next := tomorrow_valid valid.date
  rw [← date] at next
  have short : (s.clock i).date.length ≤ 31 := bounds _ _
  exact ⟨⟨⟨⟨units, next.day.1, Nat.le_trans next.day.2 short⟩, ⟨unit, next.month⟩, digits⟩, next⟩, date⟩

/-- No writes, and at least four clocks between pulses; `wait` of them are still to come. -/
def Spaced : Nat → List Inputs → Prop
  | _, [] => True
  | wait, i :: is => i.Unwritten ∧ if i.ppd then wait = 0 ∧ Spaced 4 is else Spaced (wait - 1) is

/-- The pulses of a run. -/
def pulses (is : List Inputs) : Nat := (is.filter (·.ppd)).length

def run : Rtcdate → List Inputs → Rtcdate := Clocked.run clock

theorem Settled.flags (settled : s.Settled) (valid : s.Valid) : s.Flags 4 := by
  have leap : s.isLeapYear = Calendar.leap s.date.year := by
    have tests : s.isLeapYear =
        (s.yearDivisibleByFour && (!s.centuryYear || s.centuryYear && s.fourCenturyYear)) := settled.isLeapYear.symm
    rw [tests, ← settled.yearDivisibleByFour, ← settled.centuryYear, ← settled.fourCenturyYear]
    exact leap_eq s.year valid.decimal.year
  have month : s.lastDayOfMonth = decide (s.date.day = s.date.length) := by
    rw [← settled.lastDayOfMonth]
    exact valid.ends leap
  have year : s.lastDayOfYear = (decide (s.date.day = s.date.length) && decide (s.date.month = 12)) := by
    rw [← settled.lastDayOfYear, ← month]
    exact congrArg (s.lastDayOfMonth && ·) (december s.mon valid.decimal.mon)
  exact ⟨fun _ => settled.yearDivisibleByFour.symm, fun _ => settled.centuryYear.symm,
    fun _ => settled.fourCenturyYear.symm, fun _ => leap, fun _ => month, fun _ => year⟩

/-- A pulse makes all of the flags late, and each clock after it makes one stage right. -/
theorem Valid.run (is : List Inputs) (wait : Nat) (valid : s.Valid) (flags : s.Flags (4 - wait))
    (spaced : Spaced wait is) : (s.run is).Valid ∧ (s.run is).date = tomorrow^[pulses is] s.date := by
  induction is generalizing s wait with
  | nil => exact ⟨valid, rfl⟩
  | cons i is ih =>
    obtain ⟨unwritten, spaced⟩ := spaced
    cases pulse : i.ppd with
    | true =>
      rw [pulse, if_pos rfl] at spaced
      obtain ⟨rfl, spaced⟩ := spaced
      obtain ⟨later, date⟩ := valid.pulse flags unwritten pulse
      have late : (s.clock i).Flags (4 - 4) := by
        constructor <;> intro early <;> exact absurd early (by decide)
      obtain ⟨holds, dates⟩ := ih 4 later late spaced
      have count : pulses (i :: is) = pulses is + 1 := by
        rw [pulses, List.filter_cons_of_pos pulse]
        rfl
      refine ⟨holds, ?_⟩
      rw [count, Function.iterate_succ_apply, ← date]
      exact dates
    | false =>
      rw [pulse, if_neg Bool.false_ne_true] at spaced
      obtain ⟨later, date, right⟩ := valid.quiet unwritten pulse
      have more : (s.clock i).Flags (4 - (wait - 1)) := by
        have all := right _ flags
        constructor <;> intro early
        · exact all.yearDivisibleByFour (by omega)
        · exact all.centuryYear (by omega)
        · exact all.fourCenturyYear (by omega)
        · exact all.isLeapYear (by omega)
        · exact all.lastDayOfMonth (by omega)
        · exact all.lastDayOfYear (by omega)
      obtain ⟨holds, dates⟩ := ih (wait - 1) later more spaced
      have count : pulses (i :: is) = pulses is := by
        have none : ¬ i.ppd = true := by
          rw [pulse]
          exact Bool.false_ne_true
        rw [pulses, List.filter_cons_of_neg none]
        rfl
      refine ⟨holds, ?_⟩
      rw [count, ← date]
      exact dates

/-- Whatever the registers hold, one clock without a pulse leaves digits of a date. -/
theorem decimal_clock (s : Rtcdate) (unwritten : i.Unwritten) (quiet : i.ppd = false) : (s.clock i).Decimal := by
  have days (day : BitVec 6) (last : Bool) : ((nextDay day false last).extractLsb' 0 4).toNat ≤ 9 ∧
      1 ≤ dayNumber (nextDay day false last) ∧ dayNumber (nextDay day false last) ≤ 31 := by
    revert day last
    decide +kernel
  have months (mon : BitVec 5) (lastMonth lastYear : Bool) :
      ((nextMon mon false lastMonth lastYear).extractLsb' 0 4).toNat ≤ 9 ∧
        1 ≤ monthNumber (nextMon mon false lastMonth lastYear) ∧
          monthNumber (nextMon mon false lastMonth lastYear) ≤ 12 := by
    revert mon lastMonth lastYear
    decide +kernel
  have clipped (digit : BitVec 4) : (nextDigit digit false).toNat ≤ 9 := by
    revert digit
    decide
  have day := day_clock s unwritten
  have mon := mon_clock s unwritten
  have year := year_clock s unwritten
  rw [quiet] at day mon year
  refine ⟨?_, ?_, ?_⟩
  · rw [day]
    exact days s.day s.lastDayOfMonth
  · rw [mon]
    exact months s.mon s.lastDayOfMonth s.lastDayOfYear
  · rw [year, DecimalYear, nextYear]
    simp only [Bool.false_and, Bool.false_eq_true, if_false, (digits _ _ _ _).2.1, (digits _ _ _ _).2.2.1,
      (digits _ _ _ _).2.2.2]
    exact ⟨clipped _, clipped _, clipped _⟩

theorem decimal_run (s : Rtcdate) (is : List Inputs) (some : is ≠ [])
    (quiet : ∀ i ∈ is, i.Unwritten ∧ i.ppd = false) : (s.run is).Decimal := by
  have split : is.dropLast ++ [is.getLast some] = is := List.dropLast_concat_getLast some
  obtain ⟨unwritten, none⟩ := quiet _ (List.getLast_mem some)
  have last : s.run (is.dropLast ++ [is.getLast some]) = (s.run is.dropLast).clock (is.getLast some) :=
    Clocked.run_append clock s is.dropLast [is.getLast some]
  rw [split] at last
  rw [last]
  exact decimal_clock _ unwritten none

/-- With five clocks from a pulse to the next, each pulse is a day of the calendar. Whatever the registers
hold, they are digits of a date from the first clock without a pulse on.
-/
theorem follows_calendar :
    (∀ (s : Rtcdate) (is : List Inputs), s.Valid → s.Settled → Spaced 0 is →
      (s.run is).Valid ∧ (s.run is).date = tomorrow^[pulses is] s.date) ∧
    ∀ (s : Rtcdate) (is : List Inputs), is ≠ [] → (∀ i ∈ is, i.Unwritten ∧ i.ppd = false) → (s.run is).Decimal :=
  ⟨fun _ is valid settled spaced => valid.run is 0 (settled.flags valid) spaced, decimal_run⟩

/-- The thirtieth of December 3999, with its flags. -/
def endOf3999 : Rtcdate := ⟨0x30, 0x12, 0x3999, false, false, false, false, false, false, false⟩

theorem follows_calendar_wraps :
    (endOf3999.run [⟨true, false, false, 0⟩, .idle, .idle, .idle, .idle, ⟨true, false, false, 0⟩]).date = ⟨0, 1, 1⟩ ∧
      (Rtcdate.run ⟨0x3f, 0x1f, 0x3fff, true, true, true, true, true, true, true⟩ [.idle]).Decimal := by
  have settled : endOf3999.Settled := ⟨rfl, rfl, rfl, rfl, rfl, rfl⟩
  have valid : endOf3999.Valid := ⟨⟨by decide, by decide, by unfold DecimalYear; decide⟩, by decide⟩
  have spaced : Spaced 0 [⟨true, false, false, 0⟩, .idle, .idle, .idle, .idle, ⟨true, false, false, 0⟩] :=
    ⟨rfl, rfl, rfl, rfl, rfl, rfl, rfl, rfl, trivial⟩
  have dates := (follows_calendar.1 endOf3999 _ valid settled spaced).2
  refine ⟨dates.trans (by decide), follows_calendar.2 _ [.idle] (List.cons_ne_nil _ _) fun i mem => ?_⟩
  rw [List.mem_singleton.mp mem]
  exact ⟨rfl, rfl⟩

end Rtcdate

end IcoZip.Rtc
