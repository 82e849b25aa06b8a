import IcoZip.Uart.Txuart

/-! The receiver `rxuart`, with a setup that does not change.

Behind a reset it waits until the line has been high for sixteen bits.
-/

set_option autoImplicit false

namespace IcoZip.Uart

structure Rxuart where
  qUart : Bool
  qqUart : Bool
  ckUart : Bool
  chgCounter : BitVec 28
  break' : Bool
  lineSynch : Bool
  halfBaudTime : Bool
  rSetup : BitVec 30
  state : BitVec 4
  dataReg : BitVec 8
  calcParity : Bool
  parityErr : Bool
  frameErr : Bool
  data : BitVec 8
  preWr : Bool
  wr : Bool
  baudCounter : BitVec 28
  zeroBaudCounter : Bool
  deriving DecidableEq, Repr

namespace Rxuart

def powerUp (initialSetup : BitVec 31) : Rxuart where
  qUart := false
  qqUart := false
  ckUart := false
  chgCounter := 0
  break' := false
  lineSynch := false
  halfBaudTime := false
  rSetup := initialSetup.extractLsb' 0 30
  state := 14
  dataReg := 0
  calcParity := false
  parityErr := false
  frameErr := false
  data := 0
  preWr := false
  wr := false
  baudCounter := 0
  zeroBaudCounter := false

variable (setup : BitVec 31) (s : Rxuart) (reset rx : Bool)

/-- The setup in use, without the bit for flow control. -/
def held : BitVec 31 := 0#1 ++ s.rSetup

def halfBaud : BitVec 28 := (0#5 ++ s.rSetup.extractLsb' 1 23) - 1

def clock : Rxuart where
  qUart := rx
  qqUart := s.qUart
  ckUart := s.qqUart
  chgCounter :=
    if reset then 0
    else if s.qqUart != s.ckUart then 0
    else if s.chgCounter < breakCondition s.held then s.chgCounter + 1
    else s.chgCounter
  break' := decide (breakCondition s.held ≤ s.chgCounter) && !s.ckUart
  lineSynch := decide (breakCondition s.held ≤ s.chgCounter) && s.ckUart
  halfBaudTime := !s.ckUart && decide (s.halfBaud ≤ s.chgCounter)
  rSetup := if 14 ≤ s.state then setup.extractLsb' 0 30 else s.rSetup
  state :=
    if reset then 14
    else if s.state == 14 then if s.lineSynch then 15 else 14
    else if s.break' then 13
    else if s.state == 13 then if s.ckUart then 15 else 13
    else if s.state == 15 then if !s.ckUart && s.halfBaudTime then (format s.held).first else 15
    else if s.zeroBaudCounter then
      if s.state < 9 then (format s.held).next s.state
      else if s.state = 9 then
        if !s.ckUart then 14 else if (format s.held).dblstop then 10 else 15
      else if !s.ckUart then 14 else 15
    else s.state
  dataReg :=
    if s.zeroBaudCounter && s.state != 8 then BitVec.ofBool s.ckUart ++ s.dataReg.extractLsb' 1 7 else s.dataReg
  calcParity :=
    if s.state == 15 then false
    else if s.zeroBaudCounter then s.calcParity ^^ s.ckUart
    else s.calcParity
  parityErr :=
    if s.zeroBaudCounter && s.state == 8 then
      if (format s.held).fixdParity then s.ckUart ^^ (format s.held).parityBit
      else if (format s.held).parityBit then s.calcParity != s.ckUart
      else s.calcParity == s.ckUart
    else if 13 ≤ s.state then false
    else s.parityErr
  frameErr :=
    if s.zeroBaudCounter && (s.state == 9 || s.state == 10) then s.frameErr || !s.ckUart
    else if s.zeroBaudCounter || decide (13 ≤ s.state) then false
    else s.frameErr
  data :=
    if reset then 0
    else if s.zeroBaudCounter && s.state == 9 then s.dataReg >>> (format s.held).dataBits.toNat
    else s.data
  preWr :=
    if reset then false
    else if s.zeroBaudCounter && s.state == 9 then true
    else if s.zeroBaudCounter || s.state == 15 then false
    else s.preWr
  wr := if s.zeroBaudCounter || s.state == 15 then s.preWr && !reset else false
  baudCounter :=
    if reset then clocksPerBaud s.held - 1
    else if s.zeroBaudCounter then clocksPerBaud s.held - 1
    else if s.state == 14 then clocksPerBaud s.held - 1
    else if s.state == 13 then clocksPerBaud s.held - 1
    else if s.state == 15 then clocksPerBaud s.held - 1
    else s.baudCounter - 1
  zeroBaudCounter := if s.state == 15 then false else s.baudCounter == 1

def delivers : Option (BitVec 8) := if s.wr then some s.data else none

/-! ### A frame -/

structure Quiet : Prop where
  preWr : s.preWr = false
  wr : s.wr = false
  parityErr : s.parityErr = false
  frameErr : s.frameErr = false

/-- Neither a break nor a frame error is reported, and no parity error but for a parity that is misread. -/
structure Calm : Prop where
  unbroken : s.break' = false
  frameErr : s.frameErr = false
  right : (format setup).misread = false → s.parityErr = false

/-- In the first half of a start bit. -/
structure Hunts (age : Nat) : Prop where
  state : s.state = 15
  since : s.chgCounter.toNat = age
  half : s.halfBaudTime = decide (rate setup / 2 ≤ age)

/-- So many clocks behind the middle of a start bit. -/
structure Reads (byte : BitVec 8) (age : Nat) : Prop where
  within : age < (format setup).samples * rate setup
  state : s.state = (format setup).state (age / rate setup)
  counter : s.baudCounter.toNat + age % rate setup + 1 = rate setup
  zero : s.zeroBaudCounter = decide (s.baudCounter.toNat = 0)
  read : age / rate setup ≤ (format setup).bits + (format setup).useParity.toNat →
    ∀ j < min (age / rate setup) (format setup).bits,
      s.dataReg.getLsbD (8 - min (age / rate setup) (format setup).bits + j) = byte.getLsbD j
  sum : age / rate setup ≤ (format setup).bits → s.calcParity = Format.sum byte (age / rate setup)
  parityErr : s.parityErr = (decide ((format setup).bits < age / rate setup) && (format setup).misread)
  frameErr : s.frameErr = false
  preWr : s.preWr = decide ((format setup).bits + (format setup).useParity.toNat < age / rate setup)
  data : (format setup).bits + (format setup).useParity.toNat < age / rate setup → s.data = (format setup).kept byte
  wr : s.wr = false

/-- The clock behind the last stop bit, where a byte with two stop bits is given, and the next one. -/
structure Ends (byte : BitVec 8) : Prop where
  state : s.state = 15
  data : s.data = (format setup).kept byte
  preWr : s.preWr = !(format setup).dblstop
  wr : s.wr = (format setup).dblstop
  parityErr : s.parityErr = (format setup).misread
  frameErr : s.frameErr = false

structure Gives (byte : BitVec 8) : Prop where
  state : s.state = 15
  data : s.data = (format setup).kept byte
  preWr : s.preWr = false
  wr : s.wr = !(format setup).dblstop
  parityErr : s.parityErr = false
  frameErr : s.frameErr = false

/-- Where a receiver is in a frame whose start bit came to it as many clocks ago as the number says. -/
inductive Phase (byte : BitVec 8) : Nat → Prop where
  | hunts {age : Nat} (early : age ≤ rate setup / 2) (hunts : s.Hunts setup age) (quiet : s.Quiet) : Phase byte age
  | reads {age : Nat} (reads : s.Reads setup byte age) : Phase byte (rate setup / 2 + 1 + age)
  | ends (ends : s.Ends setup byte) : Phase byte (rate setup / 2 + 1 + (format setup).samples * rate setup)
  | gives (gives : s.Gives setup byte) : Phase byte (rate setup / 2 + 2 + (format setup).samples * rate setup)
  | rests {age : Nat} (late : rate setup / 2 + 2 + (format setup).samples * rate setup < age) (state : s.state = 15)
      (quiet : s.Quiet) : Phase byte age

/-- No frame has come yet, `since` clocks behind a reset. -/
structure Waits (since : Nat) : Prop where
  kept : s.rSetup = setup.extractLsb' 0 30
  state : s.state = 15 ∧ 0 < since ∨
    s.state = 14 ∧ since ≤ 16 * rate setup + 4 ∧ (since = 16 * rate setup + 4 → s.lineSynch = true)
  line : 3 ≤ since → s.ckUart = true
  counts : 3 ≤ since → s.state = 14 → min (16 * rate setup) (since - 3) ≤ s.chgCounter.toNat
  fresh : since < 3 → s.chgCounter.toNat ≤ since
  half : 0 < since → since < 3 → s.halfBaudTime = false
  calm : s.Calm setup
  preWr : s.preWr = false
  wr : s.wr = false
  quiet : 0 < since → s.Quiet

/-- A frame has come. -/
structure Takes (byte : BitVec 8) (age : Nat) : Prop where
  kept : s.rSetup = setup.extractLsb' 0 30
  line : s.ckUart = Serial.level (format setup).frame (rate setup) (some (byte, age))
  since : s.chgCounter.toNat ≤ age
  unbroken : s.break' = false
  phase : s.Phase setup byte age

/-- The receiver of a line, as far as the line has come to it. -/
def At (since : Nat) : Option (BitVec 8 × Nat) → Prop
  | none => s.Waits setup since
  | some (byte, age) => s.Takes setup byte age

variable {setup s reset rx} {byte : BitVec 8} {age since : Nat}

/-! ### The setup in use -/

section Held
variable (kept : s.rSetup = setup.extractLsb' 0 30)
include kept

theorem held_bit {j : Nat} (small : j < 30) : s.held.getLsbD j = setup.getLsbD j := by
  rw [held, kept, BitVec.getLsbD_append, BitVec.getLsbD_extractLsb']
  simp [small]

theorem held_field {p l : Nat} (inside : p + l ≤ 30) : s.held.extractLsb' p l = setup.extractLsb' p l := by
  apply BitVec.eq_of_getLsbD_eq
  intro j small
  have place : p + j < 30 := by omega
  rw [BitVec.getLsbD_extractLsb', BitVec.getLsbD_extractLsb', held_bit kept place]

theorem held_format : format s.held = format setup := by
  simp only [format, held_field kept, held_bit kept, Nat.reduceAdd, Nat.reduceLT, Nat.reduceLeDiff]

theorem held_clocks : clocksPerBaud s.held = clocksPerBaud setup := by
  rw [clocksPerBaud, held_field kept (by decide), clocksPerBaud]

theorem held_break : breakCondition s.held = breakCondition setup := by
  rw [breakCondition, held_field kept (by decide), breakCondition]

theorem halfBaud_toNat (slow : 2 ≤ rate setup) : s.halfBaud.toNat = rate setup / 2 - 1 := by
  have whole : (0#5 ++ s.rSetup.extractLsb' 1 23 : BitVec 28).toNat = rate setup / 2 := by
    rw [Fields.toNat_zero_append, kept, BitVec.extractLsb'_toNat, BitVec.extractLsb'_toNat, rate,
      BitVec.extractLsb'_toNat]
    omega
  have one := Counter.sub_one_toNat (x := (0#5 ++ s.rSetup.extractLsb' 1 23 : BitVec 28)) (by omega)
  rw [whole] at one
  exact one

theorem kept_next : (s.clock setup reset rx).rSetup = setup.extractLsb' 0 30 := by
  simp [clock, kept]

end Held

/-! ### Clocks of a frame -/

/-- Between frames nothing is reported. -/
theorem quiet_next (idle : s.state = 15 ∨ s.state = 14) (none : s.preWr = false) :
    (s.clock setup false rx).Quiet := by
  rcases idle with state | state <;> constructor <;> simp [clock, state, none]

section Phases
variable (kept : s.rSetup = setup.extractLsb' 0 30) (slow : 6 ≤ rate setup) (unbroken : s.break' = false)
include kept slow

omit slow in
/-- The counter of clocks without a change. -/
theorem chg_next (still : s.qqUart = s.ckUart) : (s.clock setup false rx).chgCounter.toNat =
    min (16 * rate setup) (s.chgCounter.toNat + 1) ∨
      16 * rate setup ≤ s.chgCounter.toNat ∧ (s.clock setup false rx).chgCounter = s.chgCounter := by
  have whole := breakCondition_toNat setup
  have room := rate_lt setup
  by_cases more : s.chgCounter < breakCondition setup
  · left
    have counts : (s.clock setup false rx).chgCounter = s.chgCounter + 1#28 := by
      simp [clock, still, held_break kept, more]
    rw [BitVec.lt_def, whole] at more
    rw [counts, BitVec.toNat_add]
    change (s.chgCounter.toNat + 1) % 2 ^ 28 = _
    omega
  · right
    have stays : (s.clock setup false rx).chgCounter = s.chgCounter := by
      simp [clock, still, held_break kept, more]
    rw [BitVec.lt_def, whole] at more
    exact ⟨by omega, stays⟩

theorem half_next : (s.clock setup false rx).halfBaudTime =
    (!s.ckUart && decide (rate setup / 2 - 1 ≤ s.chgCounter.toNat)) := by
  have half := halfBaud_toNat kept (by omega)
  simp [clock, BitVec.le_def, half]

include unbroken

/-- The line stays low for the first half of the start bit. -/
theorem Hunts.next (hunts : s.Hunts setup age) (quiet : s.Quiet) (low : s.ckUart = false) (still : s.qqUart = false)
    (early : age ≤ rate setup / 2) : (s.clock setup false rx).Phase setup byte (age + 1) := by
  have state := hunts.state
  have calm : (s.clock setup false rx).Quiet := quiet_next (.inl state) quiet.preWr
  -- The start bit is taken in its middle; from there on the samples are one bit apart.
  rcases Nat.lt_or_eq_of_le early with more | rfl
  · have half : s.halfBaudTime = false := by
      rw [hunts.half]
      exact decide_eq_false (by omega)
    refine .hunts more ⟨?_, ?_, ?_⟩ calm
    · simp [clock, state, half, unbroken]
    · have since := hunts.since
      have counts : (s.clock setup false rx).chgCounter.toNat = min (16 * rate setup) (s.chgCounter.toNat + 1) ∨ _ :=
        chg_next kept (still.trans low.symm)
      rcases counts with counts | ⟨full, -⟩
      · rw [counts, since]
        omega
      · omega
    · rw [half_next kept slow, low, hunts.since, Bool.not_false, Bool.true_and, decide_eq_decide]
      omega
  · have half : s.halfBaudTime = true := by
      rw [hunts.half]
      exact decide_eq_true (Nat.le_refl _)
    have pos : 0 < rate setup := by omega
    have many := (format setup).samples_le
    have whole := clocksPerBaud_toNat setup
    have loaded : (s.clock setup false rx).baudCounter = clocksPerBaud setup - 1#28 := by
      simp [clock, state, held_clocks kept]
    have counter : (clocksPerBaud setup - 1#28).toNat = rate setup - 1 := by
      rw [Counter.sub_one_toNat (by omega), whole]
    have zero : (0 : Nat) / rate setup = 0 := Nat.zero_div _
    have first : (s.clock setup false rx).Reads setup byte 0 := by
      constructor
      · exact Nat.mul_pos (by omega) pos
      · rw [zero]
        simp [clock, state, unbroken, low, half, held_format kept, Format.state]
      · rw [loaded, counter, Nat.zero_mod]
        omega
      · have some : rate setup - 1 ≠ 0 := by omega
        rw [loaded, counter]
        simp [clock, state, some]
      · intro _ j inside
        rw [zero, Nat.zero_min] at inside
        contradiction
      · intro _
        rw [zero]
        simp [clock, state, Format.sum]
      · rw [zero, calm.parityErr]
        simp
      · exact calm.frameErr
      · rw [zero, calm.preWr]
        simp
      · intro inside
        rw [zero] at inside
        contradiction
      · exact calm.wr
    exact .reads first

omit kept unbroken in
/-- The states of a frame are none of the others. -/
theorem Reads.active (reads : s.Reads setup byte age) : (format setup).Course (age / rate setup) ∧
    s.state ≠ 13#4 ∧ s.state ≠ 14#4 ∧ s.state ≠ 15#4 ∧ ¬13#4 ≤ s.state ∧ ¬14#4 ≤ s.state := by
  have inside : age / rate setup < (format setup).samples := by
    rw [Nat.div_lt_iff_lt_mul (by omega)]
    exact reads.within
  have course := (format setup).course inside
  have busy := course.busy
  rw [← reads.state] at busy
  refine ⟨course, ?_⟩
  clear reads course
  generalize s.state = state at busy
  revert state
  decide

omit kept in
/-- A clock between two samples. -/
theorem Reads.goes (reads : s.Reads setup byte age) (more : s.zeroBaudCounter = false) :
    (s.clock setup false rx).Reads setup byte (age + 1) := by
  have pos : 0 < rate setup := by omega
  obtain ⟨course, broken, waiting, idle, high, higher⟩ := reads.active slow
  have counter := reads.counter
  have some : s.baudCounter.toNat ≠ 0 := by simpa [more] using reads.zero
  obtain ⟨-, bit, rest⟩ : age % rate setup + 1 < rate setup ∧ (age + 1) / rate setup = age / rate setup ∧
      (age + 1) % rate setup = age % rate setup + 1 := by
    rcases Serial.next_bit pos age with here | ⟨full, -⟩
    · exact here
    · omega
  have less : (s.baudCounter - 1#28).toNat = s.baudCounter.toNat - 1 := Counter.sub_one_toNat (by omega)
  have down : (s.clock setup false rx).baudCounter = s.baudCounter - 1#28 := by
    simp [clock, more, broken, waiting, idle]
  constructor
  · rw [← Nat.div_lt_iff_lt_mul pos, bit, Nat.div_lt_iff_lt_mul pos]
    exact reads.within
  · rw [bit, ← reads.state]
    simp [clock, more, broken, waiting, idle, unbroken]
  · rw [down, less, rest]
    omega
  · have flag : (s.clock setup false rx).zeroBaudCounter = decide (s.baudCounter.toNat = 1) := by
      simp [clock, idle, Counter.beq_one]
    rw [flag, down, less, decide_eq_decide]
    omega
  · rw [bit]
    simpa [clock, more] using reads.read
  · rw [bit]
    simpa [clock, more, idle] using reads.sum
  · rw [bit, ← reads.parityErr]
    simp [clock, more, high]
  · simp [clock, more, high, reads.frameErr]
  · rw [bit, ← reads.preWr]
    simp [clock, more, idle]
  · rw [bit]
    simpa [clock, more] using reads.data
  · simp [clock, more, idle]

section Sample
variable (reads : s.Reads setup byte age) (last : s.zeroBaudCounter = true)
  (sampled : s.ckUart = ((format setup).frame byte).getD (age / rate setup + 1) true)
include reads last sampled

omit kept unbroken in
/-- A data bit goes into the register. -/
theorem Reads.read_next (more : age / rate setup < (format setup).bits + (format setup).useParity.toNat) :
    ∀ j < min (age / rate setup + 1) (format setup).bits, (s.clock setup false rx).dataReg.getLsbD
      (8 - min (age / rate setup + 1) (format setup).bits + j) = byte.getLsbD j := by
  intro j inside
  obtain ⟨course, -⟩ := reads.active slow
  have parity := course.parity
  rw [← reads.state] at parity
  have read := reads.read (by omega)
  have narrow := (format setup).bits_le
  by_cases data : age / rate setup < (format setup).bits
  · have reading : s.state ≠ 8#4 := mt parity.mp (by omega)
    have shifts : (s.clock setup false rx).dataReg = BitVec.ofBool s.ckUart ++ s.dataReg.extractLsb' 1 7 := by
      simp [clock, last, reading]
    have now : min (age / rate setup) (format setup).bits = age / rate setup := Nat.min_eq_left (by omega)
    have then' : min (age / rate setup + 1) (format setup).bits = age / rate setup + 1 := Nat.min_eq_left data
    rw [(format setup).frame_data byte data] at sampled
    rw [now] at read
    rw [then'] at inside ⊢
    rw [shifts, BitVec.getLsbD_append, BitVec.getLsbD_extractLsb']
    rcases Nat.eq_or_lt_of_le (Nat.le_of_lt_succ inside) with rfl | before
    · have top : 8 - (age / rate setup + 1) + age / rate setup = 7 := by omega
      rw [top, ← sampled]
      cases s.ckUart <;> rfl
    · have below : 8 - (age / rate setup + 1) + j < 7 := by omega
      have place : 1 + (8 - (age / rate setup + 1) + j) = 8 - age / rate setup + j := by omega
      simp only [below, if_true, decide_true, Bool.true_and, place]
      exact read j before
  · have uses : (format setup).useParity = true := by
      rw [← Bool.not_eq_false]
      intro off
      rw [off, Bool.toNat_false] at more
      omega
    have here : age / rate setup = (format setup).bits := by
      rw [uses, Bool.toNat_true] at more
      omega
    have skips : (s.clock setup false rx).dataReg = s.dataReg := by
      simp [clock, parity.mpr ⟨uses, here⟩]
    rw [here, Nat.min_self] at read
    rw [here, Nat.min_eq_right (Nat.le_succ _)] at inside ⊢
    rw [skips]
    exact read j inside

omit unbroken sampled in
/-- The register holds the byte when the stop bit comes. -/
theorem Reads.data_stop (stop : age / rate setup = (format setup).bits + (format setup).useParity.toNat) :
    (s.clock setup false rx).data = (format setup).kept byte := by
  obtain ⟨course, -⟩ := reads.active slow
  have state : s.state = 9#4 := by
    rw [reads.state]
    exact course.stop.mpr stop
  have read := reads.read (Nat.le_of_eq stop)
  have narrow := (format setup).bits_le
  rw [Nat.min_eq_right (by omega)] at read
  have given : (s.clock setup false rx).data = s.dataReg >>> (format setup).dataBits.toNat := by
    simp [clock, last, state, held_format kept]
  rw [given]
  have drop : (format setup).bits + (format setup).dataBits.toNat = 8 := by
    have small := (format setup).dataBits.isLt
    rw [Format.bits]
    omega
  apply BitVec.eq_of_getLsbD_eq
  intro j small
  rw [BitVec.getLsbD_ushiftRight, Format.kept, BitVec.getLsbD_ushiftRight, BitVec.getLsbD_shiftLeft]
  by_cases inside : j < (format setup).bits
  · have here := read j inside
    have place : 8 - (format setup).bits + j = (format setup).dataBits.toNat + j := by omega
    have within : (format setup).dataBits.toNat + j < 8 := by omega
    rw [place] at here
    rw [here]
    simp [within]
  · have outside : ¬(format setup).dataBits.toNat + j < 8 := by omega
    rw [BitVec.getLsbD_of_ge s.dataReg _ (by omega)]
    simp [outside]

omit unbroken in
/-- The parity is found right or wrong. -/
theorem Reads.parityErr_next : (s.clock setup false rx).parityErr =
    (decide ((format setup).bits < age / rate setup + 1) && (format setup).misread) := by
  obtain ⟨course, -, -, -, high, -⟩ := reads.active slow
  have parity := course.parity
  rw [← reads.state] at parity
  by_cases here : (format setup).useParity = true ∧ age / rate setup = (format setup).bits
  · have state : s.state = 8#4 := parity.mpr here
    have sum := reads.sum (Nat.le_of_eq here.2)
    rw [here.2] at sum sampled
    rw [(format setup).frame_parity byte here.1, Format.parity] at sampled
    have next : (s.clock setup false rx).parityErr =
        if (format setup).fixdParity then s.ckUart ^^ (format setup).parityBit
        else if (format setup).parityBit then s.calcParity != s.ckUart else s.calcParity == s.ckUart := by
      simp [clock, last, state, held_format kept]
    rw [next, sampled, sum, here.2, decide_eq_true (Nat.lt_succ_self _), Format.misread, here.1]
    cases (format setup).fixdParity <;> cases (format setup).parityBit <;>
      cases Format.sum byte (format setup).bits <;> rfl
  · have state : s.state ≠ 8#4 := mt parity.mp here
    have stays : (s.clock setup false rx).parityErr = s.parityErr := by simp [clock, state, high]
    rw [stays, reads.parityErr]
    cases uses : (format setup).useParity with
    | true =>
      have past : age / rate setup ≠ (format setup).bits := fun same => here ⟨uses, same⟩
      congr 1
      rw [decide_eq_decide]
      omega
    | false => simp [Format.misread, uses]

omit last sampled kept unbroken in
theorem Reads.state_before (before : age / rate setup < (format setup).bits + (format setup).useParity.toNat) :
    s.state < 9#4 := by
  obtain ⟨course, -⟩ := reads.active slow
  have busy := course.busy
  have stop : s.state ≠ 9#4 := by
    rw [reads.state]
    exact mt course.stop.mp (Nat.ne_of_lt before)
  have second : s.state ≠ 10#4 := by
    rw [reads.state]
    exact mt course.second.mp (by omega)
  rw [← reads.state] at busy
  clear reads course before
  generalize s.state = state at busy stop second
  revert state
  decide

/-- A sample that is not the last one. -/
theorem Reads.samples (more : age / rate setup + 1 < (format setup).samples) :
    (s.clock setup false rx).Reads setup byte (age + 1) := by
  have pos : 0 < rate setup := by omega
  obtain ⟨course, broken, waiting, idle, high, higher⟩ := reads.active slow
  have data := course.data
  have stop := course.stop
  have second := course.second
  rw [← reads.state] at data stop second
  have counter := reads.counter
  have none : s.baudCounter.toNat = 0 := by simpa [last] using reads.zero
  obtain ⟨-, bit, rest⟩ : age % rate setup + 1 = rate setup ∧ (age + 1) / rate setup = age / rate setup + 1 ∧
      (age + 1) % rate setup = 0 := by
    rcases Serial.next_bit pos age with ⟨less, -⟩ | here
    · omega
    · exact here
  have whole := clocksPerBaud_toNat setup
  have reload : (s.clock setup false rx).baudCounter = clocksPerBaud setup - 1#28 := by
    simp [clock, last, held_clocks kept]
  have counter : (clocksPerBaud setup - 1#28).toNat = rate setup - 1 := by
    rw [Counter.sub_one_toNat (by omega), whole]
  have count := more
  rw [Format.samples] at count
  -- Both kinds of samples agree on the counter and the line; they differ in where they lead.
  have shared (state : (s.clock setup false rx).state = (format setup).next s.state)
      (frameErr : (s.clock setup false rx).frameErr = false) (wr : (s.clock setup false rx).wr = false)
      (preWr : (s.clock setup false rx).preWr =
        decide ((format setup).bits + (format setup).useParity.toNat < age / rate setup + 1))
      (data : (format setup).bits + (format setup).useParity.toNat < age / rate setup + 1 →
        (s.clock setup false rx).data = (format setup).kept byte) :
      (s.clock setup false rx).Reads setup byte (age + 1) := by
    constructor
    · rw [← Nat.div_lt_iff_lt_mul pos, bit]
      exact more
    · rw [state, reads.state, bit]
      rfl
    · rw [reload, counter, rest]
      omega
    · have some : rate setup - 1 ≠ 0 := by omega
      rw [reload, counter]
      simp [clock, idle, Counter.beq_one, none, some]
    · rw [bit]
      intro inside
      exact reads.read_next slow last sampled (by omega)
    · rw [bit]
      intro inside
      have sum := reads.sum (by omega)
      rw [Format.sum_succ, ← sum, ← (format setup).frame_data byte inside, ← sampled]
      simp [clock, idle, last]
    · rw [bit]
      exact reads.parityErr_next kept slow last sampled
    · exact frameErr
    · rw [bit]
      exact preWr
    · rw [bit]
      exact data
    · exact wr
  -- A bit of the byte or its parity, or the first of two stop bits.
  rcases Nat.lt_or_ge (age / rate setup) ((format setup).bits + (format setup).useParity.toNat) with before | after
  · have early := reads.state_before slow before
    have away : s.state ≠ 9#4 ∧ s.state ≠ 10#4 := by
      generalize s.state = state at early
      revert state
      decide
    have early' : ¬(format setup).bits + (format setup).useParity.toNat < age / rate setup := by omega
    have silent : s.preWr = false := by rw [reads.preWr, decide_eq_false early']
    apply shared
    · simp [clock, last, broken, waiting, idle, unbroken, early, held_format kept]
    · simp [clock, last, away]
    · simp [clock, last, silent]
    · rw [decide_eq_false (by omega)]
      simp [clock, last, away]
    · intro late
      omega
  · have twice : (format setup).dblstop = true := by
      rw [← Bool.not_eq_false]
      intro once
      rw [once, Bool.toNat_false] at count
      omega
    have here : age / rate setup = (format setup).bits + (format setup).useParity.toNat := by
      rw [twice, Bool.toNat_true] at count
      omega
    have state : s.state = 9#4 := stop.mpr here
    have high : s.ckUart = true := by
      rw [sampled, (format setup).frame_stop byte (by omega)]
    have early' : ¬(format setup).bits + (format setup).useParity.toNat < age / rate setup := by omega
    have silent : s.preWr = false := by rw [reads.preWr, decide_eq_false early']
    apply shared
    · simp [clock, last, unbroken, state, high, held_format kept, twice, Format.next]
    · simp [clock, last, state, high, reads.frameErr]
    · simp [clock, last, silent]
    · rw [decide_eq_true (by omega)]
      simp [clock, last, state]
    · intro _
      exact reads.data_stop kept slow last here

/-- The last sample. -/
theorem Reads.stops (done : age / rate setup + 1 = (format setup).samples) :
    (s.clock setup false rx).Ends setup byte ∧ age + 1 = (format setup).samples * rate setup := by
  obtain ⟨course, broken, waiting, idle, -, -⟩ := reads.active slow
  have stop := course.stop
  have second := course.second
  rw [← reads.state] at stop second
  have counter := reads.counter
  have none : s.baudCounter.toNat = 0 := by simpa [last] using reads.zero
  have count := done
  rw [Format.samples] at count
  have high : s.ckUart = true := by
    rw [sampled, (format setup).frame_stop byte (by omega)]
  have alarm : (s.clock setup false rx).parityErr = _ := reads.parityErr_next kept slow last sampled
  have whole : age + 1 = (format setup).samples * rate setup := by
    have split := Nat.div_add_mod age (rate setup)
    rw [← done, Nat.succ_mul, Nat.mul_comm]
    omega
  have misread : (decide ((format setup).bits < age / rate setup + 1) && (format setup).misread) =
      (format setup).misread := by
    rw [decide_eq_true (by omega), Bool.true_and]
  rw [misread] at alarm
  refine ⟨?_, whole⟩
  cases twice : (format setup).dblstop with
  | false =>
    rw [twice, Bool.toNat_false] at count
    have here : age / rate setup = (format setup).bits + (format setup).useParity.toNat := by omega
    have state : s.state = 9#4 := stop.mpr here
    have silent : s.preWr = false := by rw [reads.preWr, decide_eq_false (by omega)]
    refine ⟨?_, reads.data_stop kept slow last here, ?_, ?_, alarm, ?_⟩
    · simp [clock, last, unbroken, state, high, held_format kept, twice]
    · rw [twice]
      simp [clock, last, state]
    · rw [twice]
      simp [clock, silent]
    · simp [clock, last, state, high, reads.frameErr]
  | true =>
    rw [twice, Bool.toNat_true] at count
    have here : age / rate setup = (format setup).bits + (format setup).useParity.toNat + 1 := by omega
    have state : s.state = 10#4 := second.mpr ⟨twice, here⟩
    have loud : s.preWr = true := by rw [reads.preWr, decide_eq_true (by omega)]
    refine ⟨?_, ?_, ?_, ?_, alarm, ?_⟩
    · simp [clock, last, unbroken, state, high]
    · rw [← reads.data (by omega)]
      simp [clock, state]
    · rw [twice]
      simp [clock, last, state]
    · rw [twice]
      simp [clock, last, loud]
    · simp [clock, last, state, high, reads.frameErr]

end Sample

end Phases

/-! ### Any clock -/

theorem Ends.next (ends : s.Ends setup byte) (unbroken : s.break' = false) (high : s.ckUart = true) :
    (s.clock setup false rx).Gives setup byte := by
  have state := ends.state
  constructor
  · simp [clock, state, unbroken, high]
  · rw [← ends.data]
    simp [clock, state]
  · simp [clock, state]
  · rw [← ends.preWr]
    simp [clock, state]
  · simp [clock, state]
  · simp [clock, state]

theorem Gives.next (gives : s.Gives setup byte) : (s.clock setup false rx).Quiet :=
  quiet_next (.inl gives.state) gives.preWr

section Clock
variable (slow : 6 ≤ rate setup)
include slow

/-- The line is low for the first half of a start bit, and high from the stop bit on. -/
theorem low_early (early : age ≤ rate setup / 2 + 1) :
    Serial.level (format setup).frame (rate setup) (some (byte, age)) = false :=
  Serial.level_bit (k := 0) (by omega) (by omega)

theorem high_late (late : (format setup).samples * rate setup ≤ age) :
    Serial.level (format setup).frame (rate setup) (some (byte, age)) = true := by
  have stop : (format setup).samples ≤ age / rate setup := (Nat.le_div_iff_mul_le (by omega)).mpr late
  rw [Serial.level, (format setup).frame_stop byte]
  rw [Format.samples] at stop
  omega

/-- No frame is low for as long as a break. -/
theorem low_short (low : Serial.level (format setup).frame (rate setup) (some (byte, age)) = false) :
    age < 16 * rate setup := by
  rw [← Nat.not_le]
  intro late
  have many := (format setup).samples_le
  have elapsed : (format setup).samples * rate setup ≤ 16 * rate setup := Nat.mul_le_mul_right _ (by omega)
  rw [high_late slow (by omega)] at low
  contradiction

/-- A frame comes to a receiver that waits for it. -/
theorem starts (unbroken : s.break' = false) (none : s.preWr = false) (high : s.ckUart = true) (low : s.qqUart = false)
    (ready : s.state = 15 ∨ s.state = 14 ∧ s.lineSynch = true) : (s.clock setup false rx).Phase setup byte 0 := by
  have far : ¬rate setup / 2 ≤ 0 := by omega
  have idle : s.state = 15 ∨ s.state = 14 := ready.imp_right And.left
  refine .hunts (Nat.zero_le _) ⟨?_, ?_, ?_⟩ (quiet_next idle none)
  · rcases ready with state | ⟨state, synch⟩
    · simp [clock, state, unbroken, high]
    · simp [clock, state, synch]
  · simp [clock, high, low]
  · rw [decide_eq_false far]
    simp [clock, high]

theorem Phase.next (phase : s.Phase setup byte age) (kept : s.rSetup = setup.extractLsb' 0 30)
    (unbroken : s.break' = false) (now : s.ckUart = Serial.level (format setup).frame (rate setup) (some (byte, age)))
    (then' : s.qqUart = Serial.level (format setup).frame (rate setup) (some (byte, age + 1))) :
    (s.clock setup false rx).Phase setup byte (age + 1) := by
  have pos : 0 < rate setup := by omega
  cases phase with
  | hunts early hunts quiet =>
    exact hunts.next kept slow unbroken quiet (now.trans (low_early slow (by omega)))
      (then'.trans (low_early slow (by omega))) early
  | @reads age reads =>
    rw [Nat.add_assoc _ age]
    cases last : s.zeroBaudCounter with
    | false => exact .reads (reads.goes slow unbroken last)
    | true =>
      have none : s.baudCounter.toNat = 0 := by simpa [last] using reads.zero
      have counter := reads.counter
      have whole : age + 1 = (age / rate setup + 1) * rate setup := by
        have split := Nat.div_add_mod age (rate setup)
        rw [Nat.succ_mul, Nat.mul_comm]
        omega
      have sampled : s.ckUart = ((format setup).frame byte).getD (age / rate setup + 1) true := by
        rw [now, Serial.level_bit]
        · omega
        · rw [Nat.succ_mul]
          omega
      by_cases more : age / rate setup + 1 < (format setup).samples
      · exact .reads (reads.samples kept slow unbroken last sampled more)
      · have inside : age / rate setup < (format setup).samples := by
          rw [Nat.div_lt_iff_lt_mul pos]
          exact reads.within
        obtain ⟨ends, done⟩ : (s.clock setup false rx).Ends setup byte ∧
            age + 1 = (format setup).samples * rate setup :=
          reads.stops kept slow unbroken last sampled (by omega)
        rw [done]
        exact .ends ends
  | ends ends =>
    have high := now.trans (high_late slow (by omega))
    have gives : (s.clock setup false rx).Gives setup byte := ends.next unbroken high
    have next : rate setup / 2 + 1 + (format setup).samples * rate setup + 1 =
        rate setup / 2 + 2 + (format setup).samples * rate setup := by omega
    rw [next]
    exact .gives gives
  | gives gives =>
    have high := now.trans (high_late slow (by omega))
    have state := gives.state
    exact .rests (Nat.lt_succ_self _) (by simp [clock, state, unbroken, high]) gives.next
  | rests late state quiet =>
    have high := now.trans (high_late slow (by omega))
    exact .rests (by omega) (by simp [clock, state, unbroken, high]) (quiet_next (.inl state) quiet.preWr)

omit slow in
/-- The counter goes on by one at most. -/
theorem chg_le (kept : s.rSetup = setup.extractLsb' 0 30) :
    (s.clock setup false rx).chgCounter.toNat ≤ s.chgCounter.toNat + 1 := by
  by_cases still : s.qqUart = s.ckUart
  · have counts : (s.clock setup false rx).chgCounter.toNat = min (16 * rate setup) (s.chgCounter.toNat + 1) ∨
        16 * rate setup ≤ s.chgCounter.toNat ∧ (s.clock setup false rx).chgCounter = s.chgCounter :=
      chg_next kept still
    rcases counts with counts | ⟨-, same⟩
    · omega
    · rw [same]
      exact Nat.le_succ _
  · have again : (s.clock setup false rx).chgCounter = 0 := by simp [clock, still]
    rw [again]
    exact Nat.zero_le _

omit slow in
theorem unbroken_next (kept : s.rSetup = setup.extractLsb' 0 30)
    (short : s.ckUart = true ∨ s.chgCounter.toNat < 16 * rate setup) : (s.clock setup false rx).break' = false := by
  have whole := breakCondition_toNat setup
  rcases short with high | short
  · simp [clock, high]
  · have less : ¬breakCondition setup ≤ s.chgCounter := by
      rw [BitVec.le_def, whole]
      omega
    simp [clock, held_break kept, less]

theorem Takes.next {c : Option (BitVec 8 × Nat)} (takes : s.Takes setup byte age)
    (follows : Serial.Follows (((format setup).samples + 1) * rate setup) (some (byte, age)) c)
    (line : s.qqUart = Serial.level (format setup).frame (rate setup) c) :
    (s.clock setup false rx).At setup (since + 1) c := by
  have kept := takes.kept
  have short : s.ckUart = true ∨ s.chgCounter.toNat < 16 * rate setup := by
    cases now : s.ckUart with
    | true => exact .inl rfl
    | false =>
      have low := low_short slow (takes.line.symm.trans now)
      have most := takes.since
      right
      omega
  cases follows with
  | goes =>
    refine ⟨kept_next kept, line, ?_, unbroken_next kept short,
      takes.phase.next slow kept takes.unbroken takes.line line⟩
    have most := takes.since
    have next : (s.clock setup false rx).chgCounter.toNat ≤ s.chgCounter.toNat + 1 := chg_le kept
    omega
  | next f byte' age elapsed =>
    rw [Nat.succ_mul] at elapsed
    have high := takes.line.trans (high_late slow (by omega))
    have low : s.qqUart = false := line.trans (low_early slow (Nat.zero_le _))
    have phase : (s.clock setup false rx).Phase setup byte' 0 := by
      have phase := takes.phase
      cases phase with
      | hunts early => omega
      | reads reads =>
        have within := reads.within
        omega
      | ends => omega
      | gives gives => exact starts slow takes.unbroken gives.preWr high low (.inl gives.state)
      | rests _ state quiet => exact starts slow takes.unbroken quiet.preWr high low (.inl state)
    exact ⟨kept_next kept, line, by simp [clock, high, low], unbroken_next kept short, phase⟩

omit slow in
/-- A receiver that has found the line idle goes on doing so. -/
theorem Waits.keeps (waits : s.Waits setup since) (pos : 0 < since) (state : s.state = 15) :
    (s.clock setup false rx).state = 15 := by
  have stays : ¬(s.ckUart = false ∧ s.halfBaudTime = true) := by
    rintro ⟨low, half⟩
    rcases Nat.lt_or_ge since 3 with early | late
    · exact absurd ((waits.half pos early).symm.trans half) (by decide)
    · exact absurd (low.symm.trans (waits.line late)) (by decide)
  simp [clock, state, waits.calm.unbroken, stays]

/-- A clock in which the line stays idle. -/
theorem Waits.next (waits : s.Waits setup since) (line : 2 ≤ since → s.qqUart = true) :
    (s.clock setup false rx).Waits setup (since + 1) := by
  have kept := waits.kept
  have whole := breakCondition_toNat setup
  have idle : s.state = 15 ∨ s.state = 14 := waits.state.imp And.left And.left
  have short : s.ckUart = true ∨ s.chgCounter.toNat < 16 * rate setup := by
    -- Three registers hold the line back, so what was there before the reset is seen for three clocks.
    rcases Nat.lt_or_ge since 3 with early | late
    · have fresh := waits.fresh early
      right
      omega
    · exact .inl (waits.line late)
  have quiet : (s.clock setup false rx).Quiet := quiet_next idle waits.preWr
  have most : (s.clock setup false rx).chgCounter.toNat ≤ s.chgCounter.toNat + 1 := chg_le kept
  have calm : (s.clock setup false rx).Calm setup :=
    ⟨unbroken_next kept short, quiet.frameErr, fun _ => quiet.parityErr⟩
  refine ⟨kept_next kept, ?_, fun late => line (by omega), ?_, ?_, ?_, calm, quiet.preWr, quiet.wr, fun _ => quiet⟩
  · rcases waits.state with ⟨state, pos⟩ | ⟨state, bound, synched⟩
    · exact .inl ⟨waits.keeps pos state, Nat.succ_pos _⟩
    · cases synch : s.lineSynch with
      | true => exact .inl ⟨by simp [clock, state, synch], Nat.succ_pos _⟩
      | false =>
        right
        refine ⟨by simp [clock, state, synch], ?_, ?_⟩
        · have more : since ≠ 16 * rate setup + 4 := fun last =>
            absurd (synch.symm.trans (synched last)) (by decide)
          omega
        · intro last
          have counts := waits.counts (by omega) state
          have full : breakCondition setup ≤ s.chgCounter := by
            rw [BitVec.le_def, whole]
            omega
          simp [clock, held_break kept, full, waits.line (by omega)]
  · intro late waiting
    have before : s.state = 14 := by
      rcases waits.state with ⟨state, pos⟩ | ⟨state, -⟩
      · have stays : (s.clock setup false rx).state = 15 := waits.keeps pos state
        exact absurd (stays.symm.trans waiting) (by decide)
      · exact state
    rcases Nat.lt_or_ge since 3 with early | later
    · have none : since + 1 - 3 = 0 := by omega
      rw [none, Nat.min_zero]
      exact Nat.zero_le _
    · have counts := waits.counts later before
      have still : s.qqUart = s.ckUart := (line (by omega)).trans (waits.line later).symm
      have next : (s.clock setup false rx).chgCounter.toNat = min (16 * rate setup) (s.chgCounter.toNat + 1) ∨
          16 * rate setup ≤ s.chgCounter.toNat ∧ (s.clock setup false rx).chgCounter = s.chgCounter :=
        chg_next kept still
      rcases next with counted | ⟨full, same⟩
      · omega
      · rw [same]
        omega
  · intro early
    have fresh := waits.fresh (by omega)
    omega
  · intro _ early
    have fresh := waits.fresh (by omega)
    have small : ¬rate setup / 2 - 1 ≤ s.chgCounter.toNat := by omega
    rw [half_next kept slow, decide_eq_false small, Bool.and_false]

omit slow in
/-- In the clock of a reset, too, what is reported comes from the clock before. -/
theorem reset_next (kept : s.rSetup = setup.extractLsb' 0 30) (calm : (s.clock setup false rx).Calm setup) :
    (s.clock setup true rx).Waits setup 0 where
  kept := kept_next kept
  state := .inr ⟨rfl, Nat.zero_le _, fun far => by omega⟩
  line late := absurd late (by decide)
  counts late := absurd late (by decide)
  fresh _ := Nat.le_refl 0
  half pos := absurd pos (by decide)
  calm := ⟨calm.unbroken, calm.frameErr, calm.right⟩
  preWr := rfl
  wr := by simp [clock]
  quiet pos := absurd pos (by decide)

theorem At.next {c c' : Option (BitVec 8 × Nat)} (on : s.At setup since c)
    (follows : Serial.Follows (((format setup).samples + 1) * rate setup) c c')
    (line : 2 ≤ since → s.qqUart = Serial.level (format setup).frame (rate setup) c')
    (late : c' ≠ none → 16 * rate setup + 4 ≤ since) : (s.clock setup false rx).At setup (since + 1) c' := by
  cases c with
  | some c =>
    have begun : c' ≠ none := by
      cases follows <;> exact Option.some_ne_none _
    have settled := late begun
    obtain ⟨byte, age⟩ := c
    have takes : s.Takes setup byte age := on
    exact takes.next slow follows (line (by omega))
  | none =>
    have waits : s.Waits setup since := on
    cases follows with
    | idle => exact waits.next slow line
    | first byte =>
      have settled := late (Option.some_ne_none _)
      have high := waits.line (by omega)
      have begun := line (by omega)
      have low := begun.trans (low_early slow (Nat.zero_le _))
      have unbroken := waits.calm.unbroken
      have ready : s.state = 15 ∨ s.state = 14 ∧ s.lineSynch = true := by
        rcases waits.state with ⟨state, -⟩ | ⟨state, bound, synched⟩
        · exact .inl state
        · exact .inr ⟨state, synched (by omega)⟩
      exact ⟨kept_next waits.kept, begun, by simp [clock, high, low], unbroken_next waits.kept (.inl high),
        starts slow unbroken waits.preWr high low ready⟩

end Clock

theorem At.kept {c : Option (BitVec 8 × Nat)} (on : s.At setup since c) : s.rSetup = setup.extractLsb' 0 30 := by
  cases c with
  | none =>
    have waits : s.Waits setup since := on
    exact waits.kept
  | some c =>
    obtain ⟨byte, age⟩ := c
    have takes : s.Takes setup byte age := on
    exact takes.kept

/-! ### What is reported -/

theorem Phase.delivers_eq (phase : s.Phase setup byte age) : s.delivers =
    if age = rate setup / 2 + (format setup).samples * rate setup + (if (format setup).dblstop then 1 else 2) then
      some ((format setup).kept byte) else none := by
  cases phase with
  | hunts early _ quiet =>
    have many := (format setup).samples_le
    have far : rate setup ≤ (format setup).samples * rate setup := Nat.le_mul_of_pos_left _ (by omega)
    rw [delivers, quiet.wr, if_neg Bool.false_ne_true, if_neg]
    split <;> omega
  | reads reads =>
    have within := reads.within
    rw [delivers, reads.wr, if_neg Bool.false_ne_true, if_neg]
    split <;> omega
  | ends ends =>
    rw [delivers, ends.wr, ends.data]
    cases (format setup).dblstop with
    | true =>
      rw [if_pos rfl, if_pos]
      rw [if_pos rfl]
      omega
    | false =>
      rw [if_neg Bool.false_ne_true, if_neg]
      rw [if_neg Bool.false_ne_true]
      omega
  | gives gives =>
    rw [delivers, gives.wr, gives.data]
    cases (format setup).dblstop with
    | true =>
      rw [Bool.not_true, if_neg Bool.false_ne_true, if_neg]
      rw [if_pos rfl]
      omega
    | false =>
      rw [Bool.not_false, if_pos rfl, if_pos]
      rw [if_neg Bool.false_ne_true]
      omega
  | rests late _ quiet =>
    rw [delivers, quiet.wr, if_neg Bool.false_ne_true, if_neg]
    split <;> omega

theorem Phase.frameErr_eq (phase : s.Phase setup byte age) : s.frameErr = false := by
  cases phase with
  | hunts _ _ quiet => exact quiet.frameErr
  | reads reads => exact reads.frameErr
  | ends ends => exact ends.frameErr
  | gives gives => exact gives.frameErr
  | rests _ _ quiet => exact quiet.frameErr

theorem Phase.parityErr_right (phase : s.Phase setup byte age) (right : (format setup).misread = false) :
    s.parityErr = false := by
  cases phase with
  | hunts _ _ quiet => exact quiet.parityErr
  | reads reads => rw [reads.parityErr, right, Bool.and_false]
  | ends ends => rw [ends.parityErr, right]
  | gives gives => exact gives.parityErr
  | rests _ _ quiet => exact quiet.parityErr

theorem Phase.parityErr_misread (phase : s.Phase setup byte age) (slow : 6 ≤ rate setup)
    (behind : rate setup / 2 + 1 + ((format setup).bits + 1) * rate setup ≤ age)
    (before : age ≤ rate setup / 2 + 1 + (format setup).samples * rate setup) :
    s.parityErr = (format setup).misread := by
  cases phase with
  | hunts early =>
    have far : rate setup ≤ ((format setup).bits + 1) * rate setup := Nat.le_mul_of_pos_left _ (by omega)
    omega
  | @reads age reads =>
    have sampled : (format setup).bits < age / rate setup := by
      rw [Nat.lt_iff_add_one_le, Nat.le_div_iff_mul_le (by omega)]
      omega
    rw [reads.parityErr, decide_eq_true sampled, Bool.true_and]
  | ends ends => exact ends.parityErr
  | gives => omega
  | rests late => omega

theorem Takes.calm (takes : s.Takes setup byte age) : s.Calm setup :=
  ⟨takes.unbroken, takes.phase.frameErr_eq, takes.phase.parityErr_right⟩

theorem At.calm {c : Option (BitVec 8 × Nat)} (on : s.At setup since c) : s.Calm setup := by
  cases c with
  | none =>
    have waits : s.Waits setup since := on
    exact waits.calm
  | some c =>
    obtain ⟨byte, age⟩ := c
    have takes : s.Takes setup byte age := on
    exact takes.calm

theorem calm_powerUp (slow : 0 < rate setup) : ((powerUp setup).clock setup false rx).Calm setup := by
  have short : (powerUp setup).chgCounter.toNat < 16 * rate setup := Nat.mul_pos (by decide) slow
  exact ⟨unbroken_next rfl (.inr short), by simp [clock, powerUp], fun _ => by simp [clock, powerUp]⟩

end Rxuart

end IcoZip.Uart
