import IcoZip.Uart.Txuartlite

/-! The receiver `rxuartlite`, on a line whose bits may last a little longer or shorter than it expects. -/

set_option autoImplicit false

namespace IcoZip.Uart

/-- `tb` is `TIMER_BITS`. -/
structure Rxuartlite (tb : Nat) where
  qUart : Bool
  qqUart : Bool
  ckUart : Bool
  chgCounter : BitVec tb
  halfBaudTime : Bool
  state : BitVec 4
  dataReg : BitVec 8
  wr : Bool
  data : BitVec 8
  baudCounter : BitVec tb
  zeroBaudCounter : Bool
  deriving DecidableEq, Repr

namespace Rxuartlite

variable {tb : Nat}

def powerUp : Rxuartlite tb where
  qUart := true
  qqUart := true
  ckUart := true
  chgCounter := BitVec.allOnes tb
  halfBaudTime := false
  state := 15
  dataReg := 0
  wr := false
  data := 0
  baudCounter := 0
  zeroBaudCounter := true

variable (clocksPerBaud : BitVec tb) (s : Rxuartlite tb) (rx : Bool)

def halfBaud : BitVec tb := clocksPerBaud >>> 1

/-- The middle of a start bit. -/
def found : Bool := s.state == 15 && (!s.ckUart && s.halfBaudTime)

def clock : Rxuartlite tb where
  qUart := rx
  qqUart := s.qUart
  ckUart := s.qqUart
  chgCounter :=
    if s.qqUart != s.ckUart then 0
    else if s.chgCounter != BitVec.allOnes tb then s.chgCounter + 1
    else s.chgCounter
  halfBaudTime := !s.ckUart && decide (halfBaud clocksPerBaud - 1 - 1 ≤ s.chgCounter)
  state :=
    if s.state == 15 then if !s.ckUart && s.halfBaudTime then 0 else 15
    else if 9 ≤ s.state ∧ s.ckUart then 15
    else if s.zeroBaudCounter then if s.state ≤ 8 then s.state + 1 else s.state
    else s.state
  dataReg :=
    if s.zeroBaudCounter && s.state != 8 then BitVec.ofBool s.qqUart ++ s.dataReg.extractLsb' 1 7 else s.dataReg
  wr := s.zeroBaudCounter && s.state == 8 && s.ckUart
  data := if s.zeroBaudCounter && s.state == 8 && s.ckUart then s.dataReg else s.data
  baudCounter :=
    if s.found then clocksPerBaud - 1
    else if s.state == 9 then 0
    else if s.zeroBaudCounter && decide (s.state < 8) then clocksPerBaud - 1
    else if !s.zeroBaudCounter then s.baudCounter - 1
    else s.baudCounter
  zeroBaudCounter :=
    if s.found then false
    else if s.state == 9 then true
    else if s.zeroBaudCounter && decide (s.state < 8) then false
    else if s.baudCounter == 1 then true
    else s.zeroBaudCounter

def delivers : Option (BitVec 8) := if s.wr then some s.data else none

/-! ### A frame -/

/-- In the first half of a start bit. -/
structure Hunts (m age : Nat) : Prop where
  state : s.state = 15
  since : s.chgCounter.toNat = age
  half : s.halfBaudTime = decide (m / 2 ≤ age + 1)

/-- So many clocks behind the middle of a start bit. -/
structure Reads (m : Nat) (byte : BitVec 8) (age : Nat) : Prop where
  within : age < 9 * m
  state : s.state = BitVec.ofNat 4 (age / m)
  counter : s.baudCounter.toNat + age % m + 1 = m
  zero : s.zeroBaudCounter = decide (s.baudCounter.toNat = 0)
  read : ∀ j < age / m, s.dataReg.getLsbD (8 - age / m + j) = byte.getLsbD j

/-- Where a receiver is in a frame whose start bit came to it as many clocks ago as the number says. -/
inductive Phase (m : Nat) (byte : BitVec 8) : Nat → Prop where
  | hunts {age : Nat} (early : age < m / 2) (hunts : s.Hunts m age) (silent : s.delivers = none) : Phase m byte age
  | reads {age : Nat} (reads : s.Reads m byte age) (silent : s.delivers = none) : Phase m byte (m / 2 + age)
  | waits (state : s.state = 9) (delivers : s.delivers = some byte) : Phase m byte (m / 2 + 9 * m)
  | idle {age : Nat} (late : m / 2 + 9 * m < age) (state : s.state = 15) (silent : s.delivers = none) : Phase m byte age

/-- The receiver of a line, as far as the line has come to it; `m` is its own time for a bit. -/
def At (n m : Nat) (c : Option (BitVec 8 × Nat)) : Prop :=
  s.ckUart = Serial.level frame n c ∧
    match c with
    | none => s.state = 15 ∧ s.delivers = none
    | some (byte, age) => s.Phase m byte age

/-- A receiver that has been told another time for a bit than the sender's still finds the bits. -/
structure Tolerates (n m : Nat) : Prop where
  slow : 4 ≤ m
  early : 9 * n < m / 2 + 9 * m
  late : m / 2 + 9 * m < 10 * n

theorem Tolerates.middle {n m : Nat} (tolerates : Tolerates n m) {j : Nat} (first : 0 < j) (last : j ≤ 9) :
    j * n ≤ m / 2 + j * m ∧ m / 2 + j * m < (j + 1) * n := by
  obtain ⟨slow, early, late⟩ := tolerates
  interval_cases j <;> omega

theorem readings : ∀ k < 9, BitVec.ofNat 4 k ≠ 15#4 ∧ BitVec.ofNat 4 k ≠ 9#4 ∧ ¬9#4 ≤ BitVec.ofNat 4 k ∧
    BitVec.ofNat 4 k ≤ 8#4 ∧ (BitVec.ofNat 4 k < 8#4 ↔ k < 8) ∧ (BitVec.ofNat 4 k = 8#4 ↔ k = 8) := by
  decide

variable {clocksPerBaud s rx} {n m : Nat} {byte : BitVec 8} {age : Nat}

section Phases
variable (rate : clocksPerBaud.toNat = m) (tolerates : Tolerates n m)
include rate tolerates

theorem halfBaud_toNat : (halfBaud clocksPerBaud - 1 - 1).toNat = m / 2 - 2 := by
  have slow := tolerates.slow
  have half : (halfBaud clocksPerBaud).toNat = m / 2 := by
    rw [halfBaud, BitVec.toNat_ushiftRight, rate, Nat.shiftRight_one]
  have one : (halfBaud clocksPerBaud - BitVec.ofNat tb 1).toNat = m / 2 - 1 := by
    rw [Counter.sub_one_toNat (by omega), half]
  have two := Counter.sub_one_toNat (x := halfBaud clocksPerBaud - BitVec.ofNat tb 1) (by omega)
  rw [one] at two
  exact two

/-- The line stays low for the first half of the start bit. -/
theorem Hunts.next (hunts : s.Hunts m age) (low : s.ckUart = false) (still : s.qqUart = false) (early : age < m / 2) :
    if age + 1 < m / 2 then (s.clock clocksPerBaud rx).Hunts m (age + 1)
    else (s.clock clocksPerBaud rx).Reads m byte 0 := by
  have slow := tolerates.slow
  have fits : m < 2 ^ tb := rate ▸ clocksPerBaud.isLt
  have state := hunts.state
  split
  · rename_i more
    have half : s.halfBaudTime = false := by
      rw [hunts.half]
      exact decide_eq_false (by omega)
    have since := hunts.since
    have stays : s.chgCounter ≠ BitVec.allOnes tb := by
      rw [ne_eq, ← BitVec.toNat_inj, BitVec.toNat_allOnes, since]
      omega
    constructor
    · simp [clock, state, half]
    · have counts : (s.clock clocksPerBaud rx).chgCounter = s.chgCounter + BitVec.ofNat tb 1 := by
        simp [clock, low, still, stays]
      rw [counts, BitVec.toNat_add, since, BitVec.toNat_ofNat, Nat.mod_eq_of_lt (a := 1) (by omega)]
      exact Nat.mod_eq_of_lt (by omega)
    · have next : (s.clock clocksPerBaud rx).halfBaudTime = decide (halfBaud clocksPerBaud - 1 - 1 ≤ s.chgCounter) := by
        simp [clock, low]
      rw [next, decide_eq_decide, BitVec.le_def, halfBaud_toNat rate tolerates, since]
      omega
  · rename_i middle
    have half : s.halfBaudTime = true := by
      rw [hunts.half]
      exact decide_eq_true (by omega)
    have found : s.found = true := by simp [Rxuartlite.found, state, low, half]
    have counter : (clocksPerBaud - BitVec.ofNat tb 1).toNat = m - 1 := by rw [Counter.sub_one_toNat (by omega), rate]
    have loaded : (s.clock clocksPerBaud rx).baudCounter = clocksPerBaud - BitVec.ofNat tb 1 := by
      simp [clock, found]
    constructor
    · omega
    · simp [clock, state, low, half]
    · rw [loaded, counter, Nat.zero_mod]
      omega
    · have some : m - 1 ≠ 0 := by omega
      rw [loaded, counter]
      simp [clock, found, some]
    · intro j inside
      rw [Nat.zero_div] at inside
      contradiction

/-- A clock between two samples. -/
theorem Reads.goes (reads : s.Reads m byte age) (more : s.zeroBaudCounter = false) :
    (s.clock clocksPerBaud rx).Reads m byte (age + 1) := by
  have slow := tolerates.slow
  have pos : 0 < m := by omega
  have wide : 1 < 2 ^ tb := by
    have fits := clocksPerBaud.isLt
    omega
  have small : age / m < 9 := Nat.div_lt_of_lt_mul (by rw [Nat.mul_comm]; exact reads.within)
  obtain ⟨active, waits, early, -⟩ := readings (age / m) small
  rw [← reads.state] at active waits early
  have counter := reads.counter
  have some : s.baudCounter.toNat ≠ 0 := by simpa [more] using reads.zero
  obtain ⟨-, bit, rest⟩ : age % m + 1 < m ∧ (age + 1) / m = age / m ∧ (age + 1) % m = age % m + 1 := by
    rcases Serial.next_bit pos age with here | ⟨full, -⟩
    · exact here
    · omega
  have less : (s.baudCounter - BitVec.ofNat tb 1).toNat = s.baudCounter.toNat - 1 := Counter.sub_one_toNat (by omega)
  have found : s.found = false := by simp [Rxuartlite.found, active]
  have down : (s.clock clocksPerBaud rx).baudCounter = s.baudCounter - BitVec.ofNat tb 1 := by
    simp [clock, found, more, waits]
  have same : (s.clock clocksPerBaud rx).state = s.state := by simp [clock, active, early, more]
  constructor
  · rw [← Nat.div_lt_iff_lt_mul pos, bit]
    exact small
  · rw [same, bit, reads.state]
  · rw [down, less, rest]
    omega
  · have flag : (s.clock clocksPerBaud rx).zeroBaudCounter = decide (s.baudCounter.toNat = 1) := by
      simp [clock, found, more, waits, Counter.eq_one wide]
    rw [flag, down, less, decide_eq_decide]
    omega
  · rw [bit]
    simpa [clock, more] using reads.read

/-- A data bit is sampled. -/
theorem Reads.samples (reads : s.Reads m byte age) (last : s.zeroBaudCounter = true) (bits : age / m < 8)
    (sampled : s.qqUart = byte.getLsbD (age / m)) : (s.clock clocksPerBaud rx).Reads m byte (age + 1) := by
  have slow := tolerates.slow
  have pos : 0 < m := by omega
  obtain ⟨active, waits, early, goesOn, data, stop⟩ := readings (age / m) (by omega)
  rw [← reads.state] at active waits early goesOn data stop
  have counter := reads.counter
  have none : s.baudCounter.toNat = 0 := by simpa [last] using reads.zero
  obtain ⟨-, bit, rest⟩ : age % m + 1 = m ∧ (age + 1) / m = age / m + 1 ∧ (age + 1) % m = 0 := by
    rcases Serial.next_bit pos age with ⟨less, -⟩ | here
    · omega
    · exact here
  have found : s.found = false := by simp [Rxuartlite.found, active]
  have reload : (s.clock clocksPerBaud rx).baudCounter = clocksPerBaud - BitVec.ofNat tb 1 := by
    simp [clock, found, last, waits, data.mpr bits]
  have next : (s.clock clocksPerBaud rx).state = s.state + 1#4 := by simp [clock, active, early, last, goesOn]
  have counter : (clocksPerBaud - BitVec.ofNat tb 1).toNat = m - 1 := by rw [Counter.sub_one_toNat (by omega), rate]
  have shifts : (s.clock clocksPerBaud rx).dataReg = BitVec.ofBool s.qqUart ++ s.dataReg.extractLsb' 1 7 := by
    have reading : s.state ≠ 8#4 := mt stop.mp (by omega)
    simp [clock, last, reading]
  constructor
  · rw [← Nat.div_lt_iff_lt_mul pos, bit]
    omega
  · rw [next, bit, reads.state, BitVec.ofNat_add]
  · rw [reload, counter, rest]
    omega
  · have some : m - 1 ≠ 0 := by omega
    rw [reload, counter]
    simp [clock, found, last, waits, data.mpr bits, some]
  · intro j inside
    rw [bit] at inside ⊢
    rw [shifts, BitVec.getLsbD_append, BitVec.getLsbD_extractLsb']
    rcases Nat.eq_or_lt_of_le (Nat.le_of_lt_succ inside) with rfl | before
    · have top : 8 - (age / m + 1) + age / m = 7 := by omega
      rw [top, ← sampled]
      cases s.qqUart <;> rfl
    · have below : 8 - (age / m + 1) + j < 7 := by omega
      have place : 1 + (8 - (age / m + 1) + j) = 8 - age / m + j := by omega
      simp only [below, if_true, decide_true, Bool.true_and, place]
      exact reads.read j before

omit rate in
/-- The byte is given when the stop bit is found. -/
theorem Reads.stops (reads : s.Reads m byte age) (last : s.zeroBaudCounter = true) (bits : ¬age / m < 8)
    (high : s.ckUart = true) :
    age + 1 = 9 * m ∧ (s.clock clocksPerBaud rx).state = 9 ∧ (s.clock clocksPerBaud rx).delivers = some byte := by
  have slow := tolerates.slow
  have pos : 0 < m := by omega
  have eight : age / m = 8 := by
    have small : age / m < 9 := Nat.div_lt_of_lt_mul (by rw [Nat.mul_comm]; exact reads.within)
    omega
  have stop : s.state = 8#4 := by rw [reads.state, eight]
  have counter := reads.counter
  have none : s.baudCounter.toNat = 0 := by simpa [last] using reads.zero
  have read : s.dataReg = byte := by
    apply BitVec.eq_of_getLsbD_eq
    intro j inside
    have here := reads.read j (by rw [eight]; exact inside)
    rwa [eight, Nat.sub_self, Nat.zero_add] at here
  refine ⟨?_, ?_, ?_⟩
  · have split := Nat.div_add_mod age m
    rw [eight] at split
    omega
  · simp [clock, stop, last]
  · simp [delivers, clock, stop, last, high, read]

end Phases

/-! ### Any clock -/

/-- Only behind a stop bit there is a byte. -/
theorem silent_next (reading : s.zeroBaudCounter = false ∨ s.state ≠ 8) :
    (s.clock clocksPerBaud rx).delivers = none := by
  have off : (s.clock clocksPerBaud rx).wr = false := by
    rcases reading with more | reading
    · simp [clock, more]
    · have other : (s.state == 8#4) = false := beq_false_of_ne reading
      simp [clock, other]
  rw [delivers, off]
  rfl

theorem Phase.delivers_eq (phase : s.Phase m byte age) :
    s.delivers = if age = m / 2 + 9 * m then some byte else none := by
  cases phase with
  | hunts early _ silent => rw [silent, if_neg (by omega)]
  | reads reads silent =>
    have within := reads.within
    rw [silent, if_neg (by omega)]
  | waits _ delivers => rw [delivers, if_pos rfl]
  | idle late _ silent => rw [silent, if_neg (by omega)]

section Clock
variable (rate : clocksPerBaud.toNat = m) (tolerates : Tolerates n m)
include rate tolerates

/-- The line is low for the first half of a start bit, and high from a stop bit on. -/
theorem low_early (early : age < m / 2 + 1) : Serial.level frame n (some (byte, age)) = false := by
  have late := tolerates.late
  exact Serial.level_bit (k := 0) (by omega) (by omega)

omit rate in
theorem high_late (late : m / 2 + 9 * m ≤ age + 1) : Serial.level frame n (some (byte, age)) = true := by
  have early := tolerates.early
  have slow := tolerates.slow
  rw [Serial.level, frame_over byte]
  rw [Nat.le_div_iff_mul_le (by have := tolerates.late; omega)]
  omega

omit rate in
/-- A frame comes to a receiver that waits for it. -/
theorem starts (high : s.ckUart = true) (low : s.qqUart = false) (ready : s.state = 15 ∨ s.state = 9) :
    (s.clock clocksPerBaud rx).Phase m byte 0 := by
  have slow := tolerates.slow
  refine .hunts (by omega) ⟨?_, ?_, ?_⟩ (silent_next (.inr ?_))
  · rcases ready with idle | waits
    · simp [clock, idle, high]
    · simp [clock, waits, high]
  · simp [clock, high, low]
  · have far : ¬m / 2 ≤ 0 + 1 := by omega
    rw [decide_eq_false far]
    simp [clock, high]
  · rcases ready with idle | waits
    · rw [idle]
      decide
    · rw [waits]
      decide

theorem Phase.next (phase : s.Phase m byte age) (now : s.ckUart = Serial.level frame n (some (byte, age)))
    (then' : s.qqUart = Serial.level frame n (some (byte, age + 1))) :
    (s.clock clocksPerBaud rx).Phase m byte (age + 1) := by
  have slow := tolerates.slow
  -- The two ends drift apart by less than half a bit over a frame, so each sample stays in its bit.
  cases phase with
  | hunts early hunts =>
    have low := now.trans (low_early rate tolerates (by omega))
    have still := then'.trans (low_early rate tolerates (by omega))
    have silent : (s.clock clocksPerBaud rx).delivers = none := by
      apply silent_next
      rw [hunts.state]
      exact .inr (by decide)
    have next : if age + 1 < m / 2 then (s.clock clocksPerBaud rx).Hunts m (age + 1)
        else (s.clock clocksPerBaud rx).Reads m byte 0 :=
      hunts.next rate tolerates low still early
    split at next
    · rename_i more
      exact .hunts more next silent
    · have here : age + 1 = m / 2 + 0 := by omega
      rw [here]
      exact .reads next silent
  | @reads age reads =>
    have pos : 0 < m := by omega
    rw [Nat.add_assoc]
    cases last : s.zeroBaudCounter with
    | false => exact .reads (reads.goes rate tolerates last) (silent_next (.inl last))
    | true =>
      have none : s.baudCounter.toNat = 0 := by simpa [last] using reads.zero
      have counter := reads.counter
      have whole : age + 1 = (age / m + 1) * m := by
        have split := Nat.div_add_mod age m
        rw [Nat.succ_mul, Nat.mul_comm]
        omega
      by_cases bits : age / m < 8
      · have sampled : s.qqUart = byte.getLsbD (age / m) := by
          obtain ⟨begun, within⟩ := tolerates.middle (j := age / m + 1) (Nat.succ_pos _) (by omega)
          rw [then', Nat.add_assoc, whole, Serial.level_bit begun within, frame_data byte bits]
        have state : s.state ≠ 8 := by
          rw [reads.state]
          exact mt (readings (age / m) (by omega)).2.2.2.2.2.mp (by omega)
        exact .reads (reads.samples rate tolerates last bits sampled) (silent_next (.inr state))
      · have small : age / m < 9 := Nat.div_lt_of_lt_mul (by rw [Nat.mul_comm]; exact reads.within)
        have eight : age / m + 1 = 9 := by omega
        rw [eight] at whole
        have high := now.trans (high_late tolerates (by omega))
        obtain ⟨-, state, delivers⟩ : age + 1 = 9 * m ∧ (s.clock clocksPerBaud rx).state = 9 ∧
            (s.clock clocksPerBaud rx).delivers = some byte :=
          reads.stops tolerates last bits high
        rw [whole]
        exact .waits state delivers
  | waits state =>
    have high := now.trans (high_late tolerates (by omega))
    refine .idle (by omega) ?_ (silent_next (.inr ?_))
    · simp [clock, state, high]
    · rw [state]
      decide
  | idle late state =>
    have high := now.trans (high_late tolerates (by omega))
    refine .idle (by omega) ?_ (silent_next (.inr ?_))
    · simp [clock, state, high]
    · rw [state]
      decide

theorem At.next {c c' : Option (BitVec 8 × Nat)} (on : s.At n m c) (follows : Serial.Follows (10 * n) c c')
    (line : s.qqUart = Serial.level frame n c') : (s.clock clocksPerBaud rx).At n m c' := by
  obtain ⟨now, phase⟩ := on
  have slow := tolerates.slow
  have late := tolerates.late
  have first (byte : BitVec 8) : Serial.level frame n (some (byte, 0)) = false :=
    low_early rate tolerates (Nat.succ_pos _)
  refine ⟨line, ?_⟩
  cases follows with
  | idle =>
    obtain ⟨state, -⟩ := phase
    have high : s.ckUart = true := now
    refine ⟨by simp [clock, state, high], silent_next (.inr ?_)⟩
    rw [state]
    decide
  | goes byte age => exact phase.next rate tolerates now line
  | first byte => exact starts tolerates now (line.trans (first byte)) (.inl phase.1)
  | next f byte age elapsed =>
    have high := now.trans (high_late tolerates (by omega))
    refine starts tolerates high (line.trans (first byte)) ?_
    cases phase with
    | hunts early => omega
    | reads reads =>
      have within := reads.within
      omega
    | waits state => exact .inr state
    | idle _ state => exact .inl state

end Clock

end Rxuartlite

end IcoZip.Uart
