import IcoZip.Library.Counter
import IcoZip.Uart.Format
import Mathlib.Tactic.IntervalCases

/-! The transmitter `txuart`, with a setup that does not change and no breaks.

Behind a reset it keeps the line high for sixteen bits.
-/

set_option autoImplicit false

namespace IcoZip.Uart

structure Txuart where
  rSetup : BitVec 31
  baudCounter : BitVec 28
  state : BitVec 4
  lclData : BitVec 8
  calcParity : Bool
  rBusy : Bool
  zeroBaudCounter : Bool
  lastState : Bool
  qCtsN : Bool
  qqCtsN : Bool
  ckCts : Bool
  uartTx : Bool
  deriving DecidableEq, Repr

structure TxInputs where
  reset : Bool
  breaks : Bool
  wr : Bool
  data : BitVec 8
  ctsN : Bool
  deriving DecidableEq, Repr

namespace Txuart

def powerUp (initialSetup : BitVec 31) : Txuart where
  rSetup := initialSetup
  baudCounter := 5
  state := 15
  lclData := 0xff
  calcParity := false
  rBusy := true
  zeroBaudCounter := false
  lastState := false
  qCtsN := false
  qqCtsN := false
  ckCts := false
  uartTx := true

variable (setup : BitVec 31) (s : Txuart) (i : TxInputs)

def accepts : Bool := i.wr && !s.rBusy

def hwFlowControl : Bool := !s.rSetup.getLsbD 30

def clock : Txuart where
  qCtsN := i.ctsN
  qqCtsN := s.qCtsN
  ckCts := !s.qqCtsN || !s.hwFlowControl
  rBusy :=
    if i.reset then true
    else if i.breaks then true
    else if !s.zeroBaudCounter then true
    else if s.state == 14 then !s.ckCts
    else if s.state == 15 then if s.accepts i then true else !s.ckCts
    else true
  state :=
    if i.reset then 15
    else if i.breaks then 14
    else if !s.zeroBaudCounter then s.state
    else if s.state == 14 then 15
    else if s.state == 15 then if s.accepts i then (format setup).first else 15
    else (format s.rSetup).next s.state
  rSetup := if !s.rBusy then setup else s.rSetup
  lclData :=
    if !s.rBusy then i.data
    else if s.zeroBaudCounter then 0#1 ++ s.lclData.extractLsb' 1 7
    else s.lclData
  uartTx :=
    if i.reset then true
    else if i.breaks || s.accepts i then false
    else if s.zeroBaudCounter then
      if s.state < 8 then s.lclData.getLsbD 0 else if s.state = 8 then s.calcParity else true
    else s.uartTx
  calcParity :=
    if !s.rBusy then (format setup).parityBit
    else if (format s.rSetup).fixdParity then (format s.rSetup).parityBit
    else if s.zeroBaudCounter then
      if s.state < 8 then s.calcParity ^^ s.lclData.getLsbD 0
      else if s.state == 15 then (format s.rSetup).parityBit
      else s.calcParity
    else s.calcParity
  baudCounter :=
    if i.reset || i.breaks then breakCondition s.rSetup
    else if !s.zeroBaudCounter then s.baudCounter - 1
    else if s.state == 14 then 0
    else if s.state == 15 then if s.accepts i then clocksPerBaud setup - 1 else 0
    else if s.lastState then clocksPerBaud s.rSetup - 2
    else clocksPerBaud s.rSetup - 1
  zeroBaudCounter :=
    if i.reset || i.breaks then false
    else if !s.zeroBaudCounter then s.baudCounter == 1
    else if s.state == 14 then true
    else if s.state == 15 then !s.accepts i
    else s.baudCounter == 1
  lastState := if (format s.rSetup).dblstop then s.state == 10 else s.state == 9

/-- What begins on the line in a clock. -/
def begins : Option (BitVec 8) := if s.accepts i then some i.data else none

/-! ### A frame -/

/-- Nothing is sent. -/
structure Idle : Prop where
  kept : s.rSetup = setup
  state : s.state = 15
  zero : s.zeroBaudCounter = true
  high : s.uartTx = true

/-- The clocks behind a reset. -/
structure Settles (n since : Nat) : Prop where
  kept : s.rSetup = setup
  state : s.state = 15
  busy : s.rBusy = true
  counter : s.baudCounter.toNat + since = 16 * n
  zero : s.zeroBaudCounter = decide (s.baudCounter.toNat = 0)
  high : s.uartTx = true

/-- A frame has begun as many clocks ago as `age` says. -/
structure Sends (n : Nat) (byte : BitVec 8) (age : Nat) : Prop where
  within : age + 1 < ((format setup).samples + 1) * n
  kept : s.rSetup = setup
  busy : s.rBusy = true
  state : s.state = (format setup).state (age / n)
  counter : s.baudCounter.toNat + age % n + 1 = if age / n < (format setup).samples then n else n - 1
  zero : s.zeroBaudCounter = decide (s.baudCounter.toNat = 0)
  last : age % n ≠ 0 → s.lastState = decide (age / n + 1 = (format setup).samples)
  rest : s.lclData = byte >>> (age / n)
  parity : age / n ≤ (format setup).bits → s.calcParity = if (format setup).fixdParity then (format setup).parityBit
    else (format setup).parityBit ^^ Format.sum byte (age / n)
  line : s.uartTx = ((format setup).frame byte).getD (age / n) true

/-- The transmitter of a line; `since` are the clocks since the last reset. -/
def At (n since : Nat) : Option (BitVec 8 × Nat) → Prop
  | none => if since ≤ 16 * n then s.Settles setup n since else s.Idle setup
  | some (byte, age) => if age + 1 < ((format setup).samples + 1) * n then s.Sends setup n byte age else s.Idle setup

variable {setup s i} {n since : Nat} {byte : BitVec 8} {age : Nat}

theorem Sends.accepts (sends : s.Sends setup n byte age) : s.accepts i = false := by
  simp [Txuart.accepts, sends.busy]

theorem Sends.bit (sends : s.Sends setup n byte age) (pos : 0 < n) :
    age / n < (format setup).samples ∨ age / n = (format setup).samples ∧ age % n + 1 < n :=
  (Serial.within_iff pos (format setup).samples age).mp sends.within

section Clock
variable (speed : rate setup = n) (slow : 3 ≤ n) (free : i.reset = false ∧ i.breaks = false)
include speed slow free

theorem Idle.starts (idle : s.Idle setup) (accepts : s.accepts i = true) :
    (s.clock setup i).Sends setup n i.data 0 := by
  obtain ⟨reset, breaks⟩ := free
  have ready : s.rBusy = false := by
    have both := accepts
    simp only [Txuart.accepts, Bool.and_eq_true, Bool.not_eq_true'] at both
    exact both.2
  have zero : (0 : Nat) / n = 0 := Nat.zero_div n
  have many := (format setup).samples_le
  have counter : (clocksPerBaud setup - 1#28).toNat = n - 1 := by
    have whole := clocksPerBaud_toNat setup
    rw [Counter.sub_one_toNat (by omega), whole, speed]
  have loaded : (s.clock setup i).baudCounter = clocksPerBaud setup - 1#28 := by
    simp [clock, idle.state, idle.zero, accepts, reset, breaks]
  constructor
  · have pos : 1 * n ≤ ((format setup).samples + 1) * n := Nat.mul_le_mul_right n (by omega)
    omega
  · simp [clock, ready]
  · simp [clock, idle.zero, idle.state, accepts, reset, breaks]
  · rw [zero]
    simp [clock, idle.zero, idle.state, accepts, reset, breaks, Format.state]
  · rw [loaded, counter, zero, Nat.zero_mod, if_pos (by omega)]
    omega
  · have some : n - 1 ≠ 0 := by omega
    rw [loaded, counter]
    simp [clock, idle.zero, idle.state, accepts, reset, breaks, some]
  · intro inside
    exact absurd (Nat.zero_mod n) inside
  · rw [zero]
    simp [clock, ready]
  · rw [zero]
    simp [clock, ready, Format.sum]
  · rw [zero]
    simp [clock, accepts, reset, breaks, Format.frame]

omit speed slow in
theorem Idle.waits (idle : s.Idle setup) (waits : s.accepts i = false) : (s.clock setup i).Idle setup := by
  obtain ⟨reset, breaks⟩ := free
  constructor
  · simp [clock, idle.kept]
  · simp [clock, idle.zero, idle.state, waits, reset, breaks]
  · simp [clock, idle.zero, idle.state, waits, reset, breaks]
  · simp [clock, idle.zero, idle.state, waits, reset, breaks]

omit speed slow in
theorem Settles.next (settles : s.Settles setup n since) :
    if since + 1 ≤ 16 * n then (s.clock setup i).Settles setup n (since + 1) else (s.clock setup i).Idle setup := by
  obtain ⟨reset, breaks⟩ := free
  have counter := settles.counter
  have waits : s.accepts i = false := by simp [accepts, settles.busy]
  split
  · have some : s.baudCounter.toNat ≠ 0 := by omega
    have more : s.zeroBaudCounter = false := by
      rw [settles.zero]
      exact decide_eq_false some
    have less : (s.baudCounter - 1#28).toNat = s.baudCounter.toNat - 1 := Counter.sub_one_toNat (by omega)
    have down : (s.clock setup i).baudCounter = s.baudCounter - 1#28 := by simp [clock, more, reset, breaks]
    constructor
    · simp [clock, settles.kept]
    · simp [clock, settles.state, more, reset, breaks]
    · simp [clock, more, reset, breaks]
    · rw [down, less]
      omega
    · have flag : (s.clock setup i).zeroBaudCounter = decide (s.baudCounter.toNat = 1) := by
        simp [clock, more, reset, breaks, Counter.beq_one]
      rw [flag, down, less, decide_eq_decide]
      omega
    · simp [clock, more, reset, breaks, waits, settles.high]
  · have last : s.zeroBaudCounter = true := by
      rw [settles.zero]
      exact decide_eq_true (by omega)
    constructor
    · simp [clock, settles.kept]
    · simp [clock, settles.state, last, waits, reset, breaks]
    · simp [clock, settles.state, last, waits, reset, breaks]
    · simp [clock, settles.state, last, waits, reset, breaks]

omit speed in
/-- A clock within a bit. -/
theorem Sends.goes (sends : s.Sends setup n byte age) (more : s.zeroBaudCounter = false) :
    (s.clock setup i).Sends setup n byte (age + 1) := by
  obtain ⟨reset, breaks⟩ := free
  have pos : 0 < n := by omega
  have waits := sends.accepts (i := i)
  have place := sends.bit pos
  have counter := sends.counter
  have some : s.baudCounter.toNat ≠ 0 := by simpa [more] using sends.zero
  have room : age % n + 1 < n := by
    split at counter <;> omega
  obtain ⟨-, bit, rest⟩ : age % n + 1 < n ∧ (age + 1) / n = age / n ∧ (age + 1) % n = age % n + 1 := by
    rcases Serial.next_bit pos age with here | ⟨full, -⟩
    · exact here
    · omega
  have less : (s.baudCounter - 1#28).toNat = s.baudCounter.toNat - 1 := Counter.sub_one_toNat (by omega)
  have down : (s.clock setup i).baudCounter = s.baudCounter - 1#28 := by simp [clock, more, reset, breaks]
  constructor
  · rw [Serial.within_iff pos, bit, rest]
    split at counter <;> omega
  · simp [clock, sends.busy, sends.kept]
  · simp [clock, more, reset, breaks]
  · rw [bit, ← sends.state]
    simp [clock, more, reset, breaks]
  · rw [down, bit, rest, less, ← counter]
    omega
  · have flag : (s.clock setup i).zeroBaudCounter = decide (s.baudCounter.toNat = 1) := by
      simp [clock, more, reset, breaks, Counter.beq_one]
    rw [flag, down, less, decide_eq_decide]
    omega
  · intro _
    have final := (format setup).state_last (k := age / n) (by omega)
    rw [← sends.state] at final
    rw [bit, ← final]
    simp [clock, sends.kept]
  · rw [bit, ← sends.rest]
    simp [clock, more, sends.busy]
  · intro data
    rw [bit] at data ⊢
    have parity := sends.parity data
    cases fixd : (format setup).fixdParity <;> simp [clock, more, sends.busy, sends.kept, fixd, parity]
  · rw [bit, ← sends.line]
    simp [clock, more, waits, reset, breaks]

/-- The next bit begins. -/
theorem Sends.turns (sends : s.Sends setup n byte age) (last : s.zeroBaudCounter = true)
    (before : age / n < (format setup).samples) : (s.clock setup i).Sends setup n byte (age + 1) := by
  obtain ⟨reset, breaks⟩ := free
  have pos : 0 < n := by omega
  have waits := sends.accepts (i := i)
  have course := (format setup).course before
  obtain ⟨unbroken, active⟩ := course.active
  have data := course.data
  have parity := course.parity
  rw [← sends.state] at unbroken active data parity
  have none : s.baudCounter.toNat = 0 := by simpa [last] using sends.zero
  have counter := sends.counter
  rw [if_pos before] at counter
  obtain ⟨-, bit, rest⟩ : age % n + 1 = n ∧ (age + 1) / n = age / n + 1 ∧ (age + 1) % n = 0 := by
    rcases Serial.next_bit pos age with ⟨less, -⟩ | here
    · omega
    · exact here
  have final := sends.last (by omega)
  have whole := clocksPerBaud_toNat setup
  rw [speed] at whole
  -- The last stop bit is one clock shorter: the clock in which the next byte is taken makes it whole.
  have reload : (s.clock setup i).baudCounter.toNat + 1 =
      if age / n + 1 < (format setup).samples then n else n - 1 := by
    by_cases ends : age / n + 1 = (format setup).samples
    · have loaded : (s.clock setup i).baudCounter = clocksPerBaud setup - 2#28 := by
        simp [clock, last, unbroken, active, final, ends, sends.kept, reset, breaks]
      rw [loaded, Counter.sub_two_toNat (by omega), whole, if_neg (by omega)]
      omega
    · have loaded : (s.clock setup i).baudCounter = clocksPerBaud setup - 1#28 := by
        simp [clock, last, unbroken, active, final, ends, sends.kept, reset, breaks]
      rw [loaded, Counter.sub_one_toNat (by omega), whole, if_pos (by omega)]
      omega
  constructor
  · rw [Serial.within_iff pos, bit, rest]
    omega
  · simp [clock, sends.busy, sends.kept]
  · simp [clock, last, unbroken, active, reset, breaks]
  · have next : (s.clock setup i).state = (format setup).next s.state := by
      simp [clock, last, unbroken, active, sends.kept, reset, breaks]
    rw [next, sends.state, bit]
    rfl
  · rw [bit, rest, ← reload]
  · have flag : (s.clock setup i).zeroBaudCounter = decide (s.baudCounter.toNat = 1) := by
      simp [clock, last, unbroken, active, reset, breaks, Counter.beq_one]
    rw [flag, decide_eq_decide, none]
    split at reload <;> omega
  · exact fun inside => absurd rest inside
  · have shifts : (s.clock setup i).lclData = 0#1 ++ s.lclData.extractLsb' 1 7 := by simp [clock, last, sends.busy]
    rw [shifts, bit, sends.rest, ← Format.shifted, BitVec.shiftRight_add]
  · intro inside
    rw [bit] at inside ⊢
    have parity := sends.parity (by omega)
    have sum := Format.sum_succ byte (age / n)
    have low : s.lclData.getLsbD 0 = byte.getLsbD (age / n) := by
      rw [sends.rest, BitVec.getLsbD_ushiftRight, Nat.add_zero]
    have begun : s.state < 8#4 := data.mpr inside
    cases fixd : (format setup).fixdParity with
    | true => simp [clock, sends.busy, sends.kept, fixd]
    | false =>
      simp only [fixd, Bool.false_eq_true, if_false] at parity ⊢
      rw [sum, ← low, ← Bool.xor_assoc, ← parity]
      simp [clock, last, sends.busy, sends.kept, fixd, begun]
  · rw [bit]
    -- What is on the line next: a bit of the byte, its parity, or a stop bit.
    by_cases inside : age / n < (format setup).bits
    · have begun : s.state < 8#4 := data.mpr inside
      rw [(format setup).frame_data byte inside]
      simp [clock, last, waits, reset, breaks, begun, sends.rest]
    · have outside : ¬s.state < 8#4 := mt data.mp inside
      by_cases bits : (format setup).useParity = true ∧ age / n = (format setup).bits
      · have here : s.state = 8#4 := parity.mpr bits
        have sum := sends.parity (Nat.le_of_eq bits.2)
        rw [bits.2] at sum ⊢
        rw [(format setup).frame_parity byte bits.1, Format.parity, ← sum]
        simp [clock, last, waits, reset, breaks, here]
      · have away : s.state ≠ 8#4 := mt parity.mp bits
        have stop : (format setup).bits + (format setup).useParity.toNat < age / n + 1 := by
          cases uses : (format setup).useParity with
          | true =>
            rw [Bool.toNat_true]
            have past : age / n ≠ (format setup).bits := fun here => bits ⟨uses, here⟩
            omega
          | false =>
            rw [Bool.toNat_false]
            omega
        rw [(format setup).frame_stop byte stop]
        simp [clock, last, waits, reset, breaks, outside, away]

omit speed in
/-- The last stop bit has one clock left, in which a byte can be taken. -/
theorem Sends.stops (sends : s.Sends setup n byte age) (last : s.zeroBaudCounter = true)
    (after : ¬age / n < (format setup).samples) :
    (s.clock setup i).Idle setup ∧ age + 2 = ((format setup).samples + 1) * n := by
  obtain ⟨reset, breaks⟩ := free
  have pos : 0 < n := by omega
  have waits := sends.accepts (i := i)
  have ended : age / n = (format setup).samples := by
    rcases sends.bit pos with before | ⟨here, -⟩
    · exact absurd before after
    · exact here
  have state : s.state = 15#4 := by rw [sends.state, ended, Format.state_samples]
  have none : s.baudCounter.toNat = 0 := by simpa [last] using sends.zero
  have counter := sends.counter
  rw [if_neg after] at counter
  refine ⟨⟨?_, ?_, ?_, ?_⟩, ?_⟩
  · simp [clock, sends.busy, sends.kept]
  · simp [clock, last, state, waits, reset, breaks]
  · simp [clock, last, state, waits, reset, breaks]
  · simp [clock, last, state, waits, reset, breaks]
  · have split := Nat.div_add_mod age n
    rw [ended, Nat.mul_comm] at split
    rw [Nat.succ_mul]
    omega

theorem Sends.next (sends : s.Sends setup n byte age) : (s.clock setup i).At setup n since (some (byte, age + 1)) := by
  rw [At]
  cases last : s.zeroBaudCounter with
  | false =>
    have goes := sends.goes slow free last
    rwa [if_pos goes.within]
  | true =>
    by_cases before : age / n < (format setup).samples
    · have turns := sends.turns speed slow free last before
      rwa [if_pos turns.within]
    · obtain ⟨idle, elapsed⟩ := sends.stops slow free last before
      rwa [if_neg (by omega)]

end Clock

/-! ### Any clock -/

theorem At.line {c : Option (BitVec 8 × Nat)} (on : s.At setup n since c) (slow : 3 ≤ n) :
    s.uartTx = Serial.level (format setup).frame n c := by
  cases c with
  | none =>
    rw [At] at on
    split at on
    · exact on.high
    · exact on.high
  | some c =>
    obtain ⟨byte, age⟩ := c
    rw [At] at on
    split at on
    · exact on.line
    · rename_i elapsed
      have stop : (format setup).samples ≤ age / n := by
        rw [Nat.le_div_iff_mul_le (by omega)]
        rw [Nat.succ_mul] at elapsed
        omega
      rw [on.high, Serial.level, (format setup).frame_stop byte]
      rw [Format.samples] at stop
      omega

theorem reset (resets : i.reset = true) (kept : s.rSetup = setup) (slow : 3 ≤ rate setup) :
    (s.clock setup i).At setup (rate setup) 0 none := by
  rw [At, if_pos (Nat.zero_le _)]
  have counter := breakCondition_toNat setup
  have loaded : (s.clock setup i).baudCounter = breakCondition setup := by simp [clock, resets, kept]
  constructor
  · simp [clock, kept]
  · simp [clock, resets]
  · simp [clock, resets]
  · rw [loaded, counter, Nat.add_zero]
  · rw [loaded, counter, decide_eq_false (by omega)]
    simp [clock, resets]
  · simp [clock, resets]

theorem At.kept {c : Option (BitVec 8 × Nat)} (on : s.At setup n since c) : s.rSetup = setup := by
  cases c with
  | none =>
    rw [At] at on
    split at on
    · exact on.kept
    · exact on.kept
  | some c =>
    obtain ⟨byte, age⟩ := c
    rw [At] at on
    split at on
    · exact on.kept
    · exact on.kept

/-- Where a frame begins. -/
theorem At.begins {c : Option (BitVec 8 × Nat)} (on : s.At setup n since c) (accepts : s.accepts i = true) :
    s.Idle setup ∧ (c = none → 16 * n < since) ∧
      ∀ c', c = some c' → ((format setup).samples + 1) * n ≤ c'.2 + 1 := by
  cases c with
  | none =>
    rw [At] at on
    split at on
    · have waits : s.accepts i = false := by simp [Txuart.accepts, on.busy]
      exact absurd (accepts.symm.trans waits) (by decide)
    · rename_i late
      exact ⟨on, fun _ => Nat.lt_of_not_le late, fun c' here => absurd here (Option.some_ne_none c').symm⟩
  | some c =>
    obtain ⟨byte, age⟩ := c
    rw [At] at on
    split at on
    · exact absurd (accepts.symm.trans on.accepts) (by decide)
    · rename_i elapsed
      refine ⟨on, fun here => absurd here (Option.some_ne_none _), fun c' here => ?_⟩
      obtain rfl := Option.some.inj here
      exact Nat.le_of_not_lt elapsed

theorem At.next {l : List (Option (BitVec 8))} (on : s.At setup n l.length (Serial.carried l)) (speed : rate setup = n)
    (slow : 3 ≤ n) (free : i.reset = false ∧ i.breaks = false)
    (spaced : Serial.Spaced (((format setup).samples + 1) * n) l) :
    (s.clock setup i).At setup n (l.length + 1) (Serial.carried (s.begins i :: l)) ∧
      Serial.Spaced (((format setup).samples + 1) * n) (s.begins i :: l) := by
  rw [Txuart.begins]
  cases accepts : s.accepts i with
  | true =>
    obtain ⟨idle, -, elapsed⟩ := on.begins accepts
    have starts := idle.starts speed slow free accepts
    refine ⟨?_, spaced, elapsed⟩
    rw [if_pos rfl, Serial.carried, At, if_pos starts.within]
    exact starts
  | false =>
    refine ⟨?_, spaced⟩
    rw [if_neg Bool.false_ne_true, Serial.carried]
    cases before : Serial.carried l with
    | none =>
      rw [before, At] at on
      rw [Option.map_none, At]
      split at on
      · exact on.next free
      · rw [if_neg (by omega)]
        exact on.waits free accepts
    | some c =>
      obtain ⟨byte, age⟩ := c
      rw [before, At] at on
      rw [Option.map_some]
      split at on
      · exact on.next speed slow free
      · rw [At, if_neg (by omega)]
        exact on.waits free accepts

end Txuart

end IcoZip.Uart
