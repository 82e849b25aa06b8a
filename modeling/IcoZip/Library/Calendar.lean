import Mathlib.Tactic.Common
import Mathlib.Tactic.SplitIfs

/-! The proleptic Gregorian calendar. -/

set_option autoImplicit false

namespace Calendar

def leap (year : Nat) : Bool := year % 4 == 0 && (year % 100 != 0 || year % 400 == 0)

def monthLength (leap : Bool) : Nat → Nat
  | 2 => if leap then 29 else 28
  | 4 | 6 | 9 | 11 => 30
  | _ => 31

structure Date where
  year : Nat
  month : Nat
  day : Nat
  deriving DecidableEq, Repr

namespace Date

/-- The last day of the month. -/
def length (d : Date) : Nat := monthLength (leap d.year) d.month

structure Valid (d : Date) : Prop where
  month : 1 ≤ d.month ∧ d.month ≤ 12
  day : 1 ≤ d.day ∧ d.day ≤ d.length

instance (d : Date) : Decidable d.Valid :=
  decidable_of_iff ((1 ≤ d.month ∧ d.month ≤ 12) ∧ 1 ≤ d.day ∧ d.day ≤ d.length)
    ⟨fun h => ⟨h.1, h.2⟩, fun h => ⟨h.month, h.day⟩⟩

/-- The next day. -/
def next (d : Date) : Date :=
  if d.day < d.length then { d with day := d.day + 1 }
  else if d.month < 12 then { d with month := d.month + 1, day := 1 }
  else { year := d.year + 1, month := 1, day := 1 }

end Date

theorem monthLength_pos (leap : Bool) (month : Nat) : 28 ≤ monthLength leap month ∧ monthLength leap month ≤ 31 := by
  unfold monthLength
  split <;> cases leap <;> decide

theorem Date.Valid.next {d : Date} (valid : d.Valid) : d.next.Valid := by
  obtain ⟨month, day⟩ := valid
  have first (year month : Nat) : 1 ≤ monthLength (leap year) month := by
    have bounds := monthLength_pos (leap year) month
    omega
  unfold Date.next
  split_ifs with inside early
  · exact ⟨month, Nat.le_add_left 1 d.day, inside⟩
  · exact ⟨⟨Nat.le_add_left 1 d.month, early⟩, Nat.le_refl 1, first d.year (d.month + 1)⟩
  · exact ⟨⟨Nat.le_refl 1, Nat.le_add_left 1 11⟩, Nat.le_refl 1, first (d.year + 1) 1⟩

/-! ### Counting days -/

def yearLength (year : Nat) : Nat := if leap year then 366 else 365

/-- The days of the months before one. -/
def daysBeforeMonth (leap : Bool) : Nat → Nat
  | 0 => 0
  | month + 1 => daysBeforeMonth leap month + if month = 0 then 0 else monthLength leap month

/-- The days of the years from one to another. -/
def daysBeforeYear (epoch : Nat) : Nat → Nat
  | 0 => 0
  | year + 1 => daysBeforeYear epoch year + if year < epoch then 0 else yearLength year

/-- The days from the first of January of a year. -/
def Date.days (epoch : Nat) (d : Date) : Nat :=
  daysBeforeYear epoch d.year + daysBeforeMonth (leap d.year) d.month + (d.day - 1)

theorem daysBeforeYear_epoch (epoch : Nat) {year : Nat} (early : year ≤ epoch) : daysBeforeYear epoch year = 0 := by
  induction year with
  | zero => rfl
  | succ year ih => rw [daysBeforeYear, if_pos (Nat.lt_of_succ_le early), ih (Nat.le_of_succ_le early)]

theorem Date.days_epoch (epoch : Nat) : Date.days epoch ⟨epoch, 1, 1⟩ = 0 := by
  rw [days, daysBeforeYear_epoch epoch (Nat.le_refl epoch)]
  rfl

end Calendar
