import IcoZip.Library.Counter
import IcoZip.Library.Serial
import Mathlib.Data.BitVec
import Mathlib.Data.List.OfFn
import Mathlib.Tactic.IntervalCases

/-! The transmitter `txuartlite`: a start bit, eight data bits, the lowest first, and a stop bit. -/

set_option autoImplicit false

namespace IcoZip.Uart

/-- The bits of a frame. -/
def frame (byte : BitVec 8) : List Bool := false :: (List.ofFn fun j : Fin 8 => byte.getLsbD j) ++ [true]

theorem frame_data (byte : BitVec 8) {j : Nat} (small : j < 8) : (frame byte).getD (j + 1) true = byte.getLsbD j := by
  rw [frame, List.cons_append, List.getD_cons_succ, List.getD_eq_getElem?_getD,
    List.getElem?_append_left (by simpa using small), List.getElem?_ofFn, dif_pos small]
  rfl

theorem frame_over (byte : BitVec 8) {k : Nat} (elapsed : 9 ≤ k) : (frame byte).getD k true = true := by
  rcases Nat.eq_or_lt_of_le elapsed with rfl | elapsed
  · rfl
  · have past : (frame byte).length ≤ k := by simpa [frame] using Nat.succ_le_of_lt elapsed
    rw [List.getD_eq_getElem?_getD, List.getElem?_eq_none past]
    rfl

/-- `tb` is `TIMING_BITS`. -/
structure Txuartlite (tb : Nat) where
  baudCounter : BitVec tb
  state : BitVec 4
  lclData : BitVec 8
  rBusy : Bool
  zeroBaudCounter : Bool
  uartTx : Bool
  deriving DecidableEq, Repr

namespace Txuartlite

variable {tb : Nat}

def powerUp : Txuartlite tb := ⟨0, 15, 0xff, true, true, true⟩

variable (clocksPerBaud : BitVec tb) (s : Txuartlite tb) (wr : Bool) (data : BitVec 8)

def accepts : Bool := wr && !s.rBusy

def clock : Txuartlite tb where
  rBusy :=
    if !s.zeroBaudCounter then true
    else if 8 < s.state then s.accepts wr
    else true
  state :=
    if !s.zeroBaudCounter then s.state
    else if 8 < s.state then if s.accepts wr then 0 else 15
    else s.state + 1
  lclData :=
    if s.accepts wr then data
    else if s.zeroBaudCounter then BitVec.ofBool true ++ s.lclData.extractLsb' 1 7
    else s.lclData
  uartTx :=
    if s.accepts wr then false
    else if s.zeroBaudCounter then s.lclData.getLsbD 0
    else s.uartTx
  baudCounter :=
    if s.state == 15 then if s.accepts wr then clocksPerBaud - 1 else 0
    else if !s.zeroBaudCounter then s.baudCounter - 1
    else if 8 < s.state then 0
    else if s.state == 8 then clocksPerBaud - 2
    else clocksPerBaud - 1
  zeroBaudCounter :=
    if s.state == 15 then !s.accepts wr
    else if !s.zeroBaudCounter then s.baudCounter == 1
    else if 8 < s.state then true
    else s.baudCounter == 1

/-! ### A frame -/

/-- Between frames. -/
structure Idle : Prop where
  state : s.state = 15
  zero : s.zeroBaudCounter = true
  ones : s.lclData = 0xff
  high : s.uartTx = true

/-- A frame has begun as many clocks ago as `age` says. -/
structure Sends (n : Nat) (byte : BitVec 8) (age : Nat) : Prop where
  within : age + 1 < 10 * n
  busy : s.rBusy = true
  state : s.state = BitVec.ofNat 4 (age / n)
  counter : s.baudCounter.toNat + age % n + 1 = if age / n < 9 then n else n - 1
  zero : s.zeroBaudCounter = decide (s.baudCounter.toNat = 0)
  rest : ∀ j < 8, s.lclData.getLsbD j = (frame byte).getD (age / n + j + 1) true
  line : s.uartTx = (frame byte).getD (age / n) true

/-- The transmitter of a line; it is ready in the last clock of a stop bit. -/
def At (n : Nat) : Option (BitVec 8 × Nat) → Prop
  | none => s.Idle
  | some (byte, age) => if age + 1 < 10 * n then s.Sends n byte age else s.Idle

variable {clocksPerBaud s wr data} {n : Nat} {byte : BitVec 8} {age : Nat}

theorem idle_powerUp : (powerUp : Txuartlite tb).Idle := ⟨rfl, rfl, rfl, rfl⟩

theorem states : ∀ k < 10,
    BitVec.ofNat 4 k ≠ 15#4 ∧ (8#4 < BitVec.ofNat 4 k ↔ k = 9) ∧ (BitVec.ofNat 4 k = 8#4 ↔ k = 8) := by
  decide

/-- A byte is taken, and its frame begins. -/
theorem Idle.starts (idle : s.Idle) (rate : clocksPerBaud.toNat = n) (slow : 3 ≤ n)
    (accepts : s.accepts wr = true) : (s.clock clocksPerBaud wr data).Sends n data 0 := by
  have zero : (0 : Nat) / n = 0 := Nat.zero_div n
  have counter : (clocksPerBaud - BitVec.ofNat tb 1).toNat = n - 1 := by
    rw [Counter.sub_one_toNat (by omega), rate]
  have loaded : (s.clock clocksPerBaud wr data).baudCounter = clocksPerBaud - BitVec.ofNat tb 1 := by
    simp [clock, idle.state, accepts]
  constructor
  · omega
  · simp [clock, idle.zero, idle.state, accepts]
  · simp [clock, idle.zero, idle.state, accepts, zero]
  · rw [loaded, counter, zero, Nat.zero_mod, if_pos (by decide)]
    omega
  · have some : n - 1 ≠ 0 := by omega
    rw [loaded, counter]
    simp [clock, idle.state, accepts, some]
  · intro j small
    rw [zero, Nat.zero_add, frame_data data small]
    simp [clock, accepts]
  · simp [clock, accepts, zero, frame]

theorem Idle.waits (idle : s.Idle) (waits : s.accepts wr = false) : (s.clock clocksPerBaud wr data).Idle := by
  constructor
  · simp [clock, idle.zero, idle.state, waits]
  · simp [clock, idle.state, waits]
  · simp [clock, idle.zero, idle.ones, waits]
  · simp [clock, idle.zero, idle.ones, waits]

/-- A clock within a bit. -/
theorem Sends.goes (sends : s.Sends n byte age) (slow : 3 ≤ n) (fits : n < 2 ^ tb) (more : s.zeroBaudCounter = false) :
    (s.clock clocksPerBaud wr data).Sends n byte (age + 1) := by
  have pos : 0 < n := by omega
  have wide : 1 < 2 ^ tb := by omega
  have busy : s.accepts wr = false := by simp [accepts, sends.busy]
  have place := (Serial.within_iff pos 9 age).mp sends.within
  obtain ⟨active, -, -⟩ := states (age / n) (by omega)
  rw [← sends.state] at active
  have counter := sends.counter
  have some : s.baudCounter.toNat ≠ 0 := by simpa [more] using sends.zero
  have room : age % n + 1 < n := by
    split at counter <;> omega
  obtain ⟨-, bit, rest⟩ : age % n + 1 < n ∧ (age + 1) / n = age / n ∧ (age + 1) % n = age % n + 1 := by
    rcases Serial.next_bit pos age with here | ⟨full, -⟩
    · exact here
    · omega
  have less : (s.baudCounter - BitVec.ofNat tb 1).toNat = s.baudCounter.toNat - 1 := Counter.sub_one_toNat (by omega)
  have down : (s.clock clocksPerBaud wr data).baudCounter = s.baudCounter - BitVec.ofNat tb 1 := by
    simp [clock, active, more]
  constructor
  · rw [Serial.within_iff pos, bit, rest]
    split at counter <;> omega
  · simp [clock, more]
  · simp [clock, more, bit, sends.state]
  · rw [down, bit, rest, less, ← counter]
    omega
  · have flag : (s.clock clocksPerBaud wr data).zeroBaudCounter = decide (s.baudCounter.toNat = 1) := by
      simp [clock, active, more, Counter.beq_one wide]
    rw [flag, down, less, decide_eq_decide]
    omega
  · intro j small
    rw [bit]
    simpa [clock, busy, more] using sends.rest j small
  · rw [bit]
    simpa [clock, busy, more] using sends.line

section LastClock
variable (sends : s.Sends n byte age) (last : s.zeroBaudCounter = true)
include sends last

theorem Sends.shifted {j : Nat} (small : j < 8) : (s.clock clocksPerBaud wr data).lclData.getLsbD j =
    (frame byte).getD (age / n + 1 + j + 1) true := by
  have busy : s.accepts wr = false := by simp [accepts, sends.busy]
  have next : (s.clock clocksPerBaud wr data).lclData = BitVec.ofBool true ++ s.lclData.extractLsb' 1 7 := by
    simp [clock, busy, last]
  rw [next, BitVec.getLsbD_append, BitVec.getLsbD_extractLsb']
  rcases Nat.eq_or_lt_of_le (Nat.le_of_lt_succ small) with rfl | inside
  · rw [frame_over byte (Nat.le_add_left 9 _)]
    rfl
  · have rest := sends.rest (1 + j) (by omega)
    simp only [inside, if_true, decide_true, Bool.true_and, rest]
    congr 1
    omega

theorem Sends.shown : (s.clock clocksPerBaud wr data).uartTx = (frame byte).getD (age / n + 1) true := by
  have busy : s.accepts wr = false := by simp [accepts, sends.busy]
  have next := sends.rest 0 (by decide)
  simpa [clock, busy, last] using next

/-- The next bit begins. -/
theorem Sends.turns (rate : clocksPerBaud.toNat = n) (slow : 3 ≤ n) (before : age / n < 9) :
    (s.clock clocksPerBaud wr data).Sends n byte (age + 1) := by
  have pos : 0 < n := by omega
  have wide : 1 < 2 ^ tb := by
    have fits := clocksPerBaud.isLt
    omega
  obtain ⟨active, elapsed, stop⟩ := states (age / n) (by omega)
  rw [← sends.state] at active elapsed stop
  have goesOn : ¬8#4 < s.state := fun past => absurd (elapsed.mp past) (by omega)
  have none : s.baudCounter.toNat = 0 := by simpa [last] using sends.zero
  have counter := sends.counter
  rw [if_pos before] at counter
  obtain ⟨-, bit, rest⟩ : age % n + 1 = n ∧ (age + 1) / n = age / n + 1 ∧ (age + 1) % n = 0 := by
    rcases Serial.next_bit pos age with ⟨less, -⟩ | here
    · omega
    · exact here
  have reload : (s.clock clocksPerBaud wr data).baudCounter.toNat + 1 = if age / n + 1 < 9 then n else n - 1 := by
    by_cases eight : age / n = 8
    · have loaded : (s.clock clocksPerBaud wr data).baudCounter = clocksPerBaud - BitVec.ofNat tb 2 := by
        simp [clock, last, stop.mpr eight]
      rw [loaded, Counter.sub_two_toNat (by omega), rate, if_neg (by omega)]
      omega
    · have loaded : (s.clock clocksPerBaud wr data).baudCounter = clocksPerBaud - BitVec.ofNat tb 1 := by
        simp [clock, active, last, goesOn, mt stop.mp eight]
      rw [loaded, Counter.sub_one_toNat (by omega), rate, if_pos (by omega)]
      omega
  constructor
  · rw [Serial.within_iff pos, bit, rest]
    omega
  · simp [clock, last, goesOn]
  · have next : (s.clock clocksPerBaud wr data).state = s.state + 1#4 := by simp [clock, last, goesOn]
    rw [next, sends.state, bit, BitVec.ofNat_add]
  · rw [bit, rest, ← reload]
  · have flag : (s.clock clocksPerBaud wr data).zeroBaudCounter = decide (s.baudCounter.toNat = 1) := by
      simp [clock, active, last, goesOn, Counter.beq_one wide]
    rw [flag, decide_eq_decide, none]
    split at reload <;> omega
  · intro j small
    rw [bit]
    exact sends.shifted last small
  · rw [bit]
    exact sends.shown last

/-- The stop bit has one clock left, in which a byte can be taken. -/
theorem Sends.stops (slow : 3 ≤ n) (after : ¬age / n < 9) :
    (s.clock clocksPerBaud wr data).Idle ∧ age + 2 = 10 * n := by
  have pos : 0 < n := by omega
  have busy : s.accepts wr = false := by simp [accepts, sends.busy]
  have nine : age / n = 9 := by
    rcases (Serial.within_iff pos 9 age).mp sends.within with before | ⟨here, -⟩
    · exact absurd before after
    · exact here
  obtain ⟨active, elapsed, -⟩ := states (age / n) (by omega)
  rw [← sends.state] at active elapsed
  have past : 8#4 < s.state := elapsed.mpr nine
  have none : s.baudCounter.toNat = 0 := by simpa [last] using sends.zero
  have counter := sends.counter
  rw [if_neg after] at counter
  refine ⟨⟨?_, ?_, ?_, ?_⟩, ?_⟩
  · simp [clock, last, past, busy]
  · simp [clock, active, last, past]
  · apply BitVec.eq_of_getLsbD_eq
    intro j small
    rw [sends.shifted last small, nine, frame_over byte (by omega)]
    interval_cases j <;> rfl
  · rw [sends.shown last, nine, frame_over byte (by decide)]
  · have split := Nat.div_add_mod age n
    rw [nine] at split
    omega

end LastClock

/-! ### Any clock -/

/-- What begins on the line in a clock. -/
def begins (s : Txuartlite tb) (wr : Bool) (data : BitVec 8) : Option (BitVec 8) :=
  if s.accepts wr then some data else none

theorem At.line {c : Option (BitVec 8 × Nat)} (on : s.At n c) (slow : 3 ≤ n) : s.uartTx = Serial.level frame n c := by
  cases c with
  | none => exact on.high
  | some c =>
    obtain ⟨byte, age⟩ := c
    rw [At] at on
    split at on
    · exact on.line
    · rename_i elapsed
      rw [on.high, Serial.level, frame_over byte]
      rw [Nat.le_div_iff_mul_le (by omega)]
      omega

theorem Sends.next (sends : s.Sends n byte age) (rate : clocksPerBaud.toNat = n) (slow : 3 ≤ n) :
    (s.clock clocksPerBaud wr data).At n (some (byte, age + 1)) := by
  rw [At]
  cases last : s.zeroBaudCounter with
  | false =>
    have goes : (s.clock clocksPerBaud wr data).Sends n byte (age + 1) :=
      sends.goes slow (rate ▸ clocksPerBaud.isLt) last
    rwa [if_pos goes.within]
  | true =>
    by_cases before : age / n < 9
    · have turns : (s.clock clocksPerBaud wr data).Sends n byte (age + 1) := sends.turns last rate slow before
      rwa [if_pos turns.within]
    · obtain ⟨idle, elapsed⟩ : (s.clock clocksPerBaud wr data).Idle ∧ age + 2 = 10 * n := sends.stops last slow before
      rwa [if_neg (by omega)]

theorem At.next {l : List (Option (BitVec 8))} (on : s.At n (Serial.carried l)) (rate : clocksPerBaud.toNat = n)
    (slow : 3 ≤ n) (spaced : Serial.Spaced (10 * n) l) :
    (s.clock clocksPerBaud wr data).At n (Serial.carried (s.begins wr data :: l)) ∧
      Serial.Spaced (10 * n) (s.begins wr data :: l) := by
  have pos : 0 + 1 < 10 * n := by omega
  rw [begins]
  cases accepts : s.accepts wr with
  | true =>
    have starts (idle : s.Idle) : (s.clock clocksPerBaud wr data).At n (some (data, 0)) := by
      rw [At, if_pos pos]
      exact idle.starts rate slow accepts
    cases before : Serial.carried l with
    | none =>
      rw [before] at on
      exact ⟨starts on, spaced, fun c here => by simp [before] at here⟩
    | some c =>
      obtain ⟨byte, age⟩ := c
      rw [before, At] at on
      split at on
      · have busy : s.accepts wr = false := by simp [Txuartlite.accepts, on.busy]
        exact absurd (accepts.symm.trans busy) (by decide)
      · rename_i elapsed
        refine ⟨starts on, spaced, fun c here => ?_⟩
        obtain rfl := Option.some.inj (before.symm.trans here)
        exact Nat.le_of_not_lt elapsed
  | false =>
    refine ⟨?_, spaced⟩
    rw [if_neg Bool.false_ne_true, Serial.carried]
    cases before : Serial.carried l with
    | none =>
      rw [before] at on
      exact on.waits accepts
    | some c =>
      obtain ⟨byte, age⟩ := c
      rw [before, At] at on
      rw [Option.map_some]
      split at on
      · exact on.next rate slow
      · rw [At, if_neg (by omega)]
        exact on.waits accepts

end Txuartlite

end IcoZip.Uart
