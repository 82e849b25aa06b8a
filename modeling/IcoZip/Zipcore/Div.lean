import Mathlib.Data.BitVec

/-! The divider `div`, for words of 32 bits. -/

set_option autoImplicit false

namespace IcoZip.Zipcore

structure Div where
  rBusy : Bool
  busy : Bool
  valid : Bool
  err : Bool
  quotient : BitVec 32
  divisor : BitVec 32
  dividend : BitVec 63
  sign : Bool
  preSign : Bool
  z : Bool
  c : Bool
  lastBit : Bool
  bit : BitVec 5
  zeroDivisor : Bool
  deriving DecidableEq, Repr, Inhabited

namespace Div

structure Inputs where
  wr : Bool
  signed : Bool
  numerator : BitVec 32
  denominator : BitVec 32

variable (s : Div) (reset : Bool) (i : Inputs)

/-- The divisor off the upper part of the dividend; the top bit is the borrow. -/
def diff : BitVec 33 := (0b0#1 ++ s.dividend.extractLsb' 31 32) - (0b0#1 ++ s.divisor)

def flags : BitVec 4 := 0b0#1 ++ BitVec.ofBool s.quotient.msb ++ BitVec.ofBool s.c ++ BitVec.ofBool s.z

def nextDividend : BitVec 63 :=
  if s.preSign then
    if s.dividend.getLsbD 31 then BitVec.allOnes 31 ++ -s.dividend.extractLsb' 0 32 else s.dividend
  else if s.rBusy then
    if s.diff.getLsbD 32 then s.dividend.extractLsb' 0 62 ++ 0b0#1
    else s.diff.extractLsb' 0 31 ++ (s.dividend.extractLsb' 0 31 ++ 0b0#1)
  else 0#31 ++ i.numerator

def nextValid : Bool :=
  if reset || s.valid then false
  else if s.rBusy && s.zeroDivisor then true
  else if s.rBusy then if s.lastBit then !s.sign else s.valid
  else s.sign

/-- One clock of `div`. -/
def div : Div where
  rBusy := if reset then false else if i.wr then true else if s.lastBit || s.zeroDivisor then false else s.rBusy
  busy :=
    if reset then false
    else if i.wr then true
    else if s.lastBit && !s.sign || s.zeroDivisor then false
    else if !s.rBusy then false
    else s.busy
  zeroDivisor := if i.wr then i.denominator == 0 else s.zeroDivisor
  valid := s.nextValid reset
  err := !reset && (s.rBusy && s.zeroDivisor)
  bit := if reset then 0 else if s.rBusy && !s.preSign then s.bit + 1 else 0
  lastBit := !reset && (s.rBusy && s.bit == 0x1e#5)
  preSign := !reset && (i.wr && i.signed && (i.numerator.msb || i.denominator.msb))
  z := if i.wr then true else if s.rBusy && !s.preSign && !s.diff.getLsbD 32 then false else s.z
  dividend := s.nextDividend i
  divisor :=
    if reset then 0
    else if s.preSign && s.rBusy then if s.divisor.msb then -s.divisor else s.divisor
    else if !s.rBusy then i.denominator
    else s.divisor
  sign :=
    if reset then false
    else if s.preSign then s.divisor.msb != s.dividend.getLsbD 31
    else if s.rBusy then s.sign && !s.zeroDivisor
    else false
  quotient :=
    if reset then 0
    else if s.rBusy then s.quotient.extractLsb' 0 31 ++ BitVec.ofBool (!s.diff.getLsbD 32)
    else if s.sign then -s.quotient
    else 0
  c := !reset && (s.rBusy && s.diff == 0)

/-- A unit that is not busy works on nothing: at most a sign is left over when its result has come out. -/
structure Steady : Prop where
  stopped : s.busy = false → s.rBusy = false ∧ (s.sign = true → s.valid = true)
  signs : s.preSign = true → s.rBusy = true ∧ s.lastBit = false
  works : s.rBusy = true → s.valid = false

/-- Nothing is on its way, and nothing comes out. -/
structure Idle : Prop where
  busy : s.busy = false
  valid : s.valid = false
  err : s.err = false

variable {s}

theorem Steady.div (steady : s.Steady) (fits : i.wr = true → s.busy = false) : (s.div reset i).Steady := by
  cases reset with
  | true => constructor <;> simp [Div.div, nextValid]
  | false =>
    cases asked : i.wr with
    | true =>
      obtain ⟨still, signed⟩ := steady.stopped (fits asked)
      constructor
      · simp [Div.div, asked]
      · simp [Div.div, asked, still]
      · intro _
        cases valid : s.valid <;> simp_all [Div.div, nextValid]
    | false =>
      constructor
      · intro stops
        cases works : s.rBusy with
        | false =>
          have unsigned : s.preSign = false := by
            by_contra signs
            simp [(steady.signs (Bool.not_eq_false _ ▸ signs)).1] at works
          simp [Div.div, asked, works, unsigned]
        | true =>
          have silent := steady.works works
          have busy : s.busy = true := by
            by_contra stopped
            simp [(steady.stopped (Bool.not_eq_true _ ▸ stopped)).1] at works
          cases zero : s.zeroDivisor with
          | true => simp [Div.div, nextValid, asked, works, zero, silent]
          | false =>
            have last : s.lastBit = true ∧ s.sign = false := by simpa [Div.div, asked, works, zero, busy] using stops
            have unsigned : s.preSign = false := by
              by_contra signs
              simp [(steady.signs (Bool.not_eq_false _ ▸ signs)).2] at last
            simp [Div.div, asked, works, last, unsigned]
      · simp [Div.div, asked]
      · intro works
        cases before : s.rBusy with
        | false => simp [Div.div, asked, before] at works
        | true =>
          have silent := steady.works before
          simp_all [Div.div, nextValid]

theorem steady_default : (default : Div).Steady where
  stopped _ := ⟨rfl, fun sign => sign⟩
  signs sign := absurd sign Bool.false_ne_true
  works works := absurd works Bool.false_ne_true

theorem div_reset : (s.div true i).Idle := ⟨rfl, rfl, rfl⟩

/-- A unit that is not busy has nothing more to say, unless it is asked. -/
theorem Steady.idle (steady : s.Steady) (free : s.busy = false) (unasked : i.wr = false) :
    (s.div reset i).Idle := by
  obtain ⟨still, signed⟩ := steady.stopped free
  constructor
  · simp [Div.div, unasked, still]
  · cases sign : s.sign <;> simp_all [Div.div, nextValid]
  · simp [Div.div, still]

/-- How many clocks are left before the unit is free. -/
def left (s : Div) : Nat :=
  if s.busy then
    if s.rBusy then
      if s.zeroDivisor then 1 else if s.lastBit then 2 else if s.preSign then 40 else (0x1e#5 - s.bit).toNat + 3
    else 1
  else 0

theorem left_div (unasked : i.wr = false) (busy : s.busy = true) : (s.div reset i).left < s.left := by
  cases reset with
  | true =>
    have now : 0 < s.left := by
      simp only [left, busy, if_true]
      repeat' split
      all_goals omega
    simpa [left, Div.div] using now
  | false =>
    cases works : s.rBusy with
    | false => simp [left, Div.div, busy, works, unasked]
    | true =>
      cases zero : s.zeroDivisor with
      | true => simp [left, Div.div, busy, works, unasked, zero]
      | false =>
        cases last : s.lastBit with
        | true => cases sign : s.sign <;> simp [left, Div.div, busy, works, unasked, zero, last, sign]
        | false =>
          cases signs : s.preSign with
          | true =>
            by_cases bit : s.bit = 0x1e#5 <;> simp [left, Div.div, busy, works, unasked, zero, last, signs, bit]
          | false =>
            by_cases bit : s.bit = 0x1e#5
            · simp [left, Div.div, busy, works, unasked, zero, last, signs, bit]
            · have counts : ∀ bit : BitVec 5, bit ≠ 0x1e#5 → (0x1e#5 - (bit + 1#5)).toNat < (0x1e#5 - bit).toNat := by
                decide
              have here : s.left = (0x1e#5 - s.bit).toNat + 3 := by simp [left, busy, works, zero, last, signs]
              have next : (s.div false i).left = (0x1e#5 - (s.bit + 1#5)).toNat + 3 := by
                simp [left, Div.div, busy, works, unasked, zero, last, signs, bit]
              rw [here, next]
              exact Nat.add_lt_add_right (counts s.bit bit) 3

theorem Steady.left_div (steady : s.Steady) (unasked : i.wr = false) : (s.div reset i).left ≤ s.left := by
  cases busy : s.busy with
  | true => exact Nat.le_of_lt (Div.left_div reset i unasked busy)
  | false => simp [left, (steady.idle reset i busy unasked).busy]

end Div

end IcoZip.Zipcore
