import IcoZip.Library.Clocked
import IcoZip.Spixpress.Controller

/-! The user mode: bytes written to the configuration port go to the flash as they are.

Beside the controller runs a record of the bits that the flash is clocked for in
the user mode and of the bytes that have been written. A read of the memory port
is not refused in the user mode, and sends a command of its own.
-/

set_option autoImplicit false

namespace IcoZip.Spixpress

/-- A byte that was written to the configuration port with bit 8 clear. -/
structure Byte where
  data : BitVec 8
  /-- The clocks of the flash since then. -/
  count : Nat
  /-- The cycle of the write was not dropped while the byte was being sent. -/
  whole : Bool
  deriving DecidableEq, Repr

/-- The bits of a byte, the most significant first, as far as they have been clocked. -/
def Byte.sent (b : Byte) : List Bool := ((List.range 8).map fun k => b.data.getLsbD (7 - k)).take b.count

/-- A clock of both buses, and what the data pin reads. -/
structure Tick where
  bus : Inputs
  miso : Bool
  deriving DecidableEq, Repr

structure Watched where
  core : Registers
  /-- The bits for which the flash was clocked in the user mode while its chip select was low. -/
  clocked : List Bool
  /-- The bytes written, the latest first. -/
  bytes : List Byte
  deriving DecidableEq, Repr

/-- Strobes come within cycles. -/
def Inputs.Polite (i : Inputs) : Prop :=
  (i.wb.stb = true → i.wb.cyc = true) ∧ (i.cfg.stb = true → i.cfg.cyc = true)

instance (i : Inputs) : Decidable i.Polite := inferInstanceAs (Decidable (_ ∧ _))

namespace Watched

variable (optPipe : Bool)

def powerUp (free : Registers) : Watched := ⟨free.powerUp, [], []⟩

/-- The flash takes a bit in this clock. -/
def clocks (x : Watched) : Bool := x.core.cfgUserMode && x.core.pinSck && !x.core.spiCsN

/-- The byte that is being sent loses its cycle. -/
def cuts (x : Watched) (i : Tick) : Bool := (i.bus.reset || !x.core.busCyc i.bus) && decide (0 < x.core.ackDelay)

/-- What a clock makes of the byte written last. -/
def tally (x : Watched) (i : Tick) (b : Byte) : Byte :=
  { b with count := if x.clocks then b.count + 1 else b.count, whole := b.whole && !x.cuts i }

def step (x : Watched) (i : Tick) : Watched where
  core := x.core.clock i.bus optPipe i.miso
  clocked := x.clocked ++ if x.clocks then [x.core.spiMosi] else []
  bytes :=
    (if x.core.userRequest i.bus && !i.bus.reset then [⟨(x.core.busData i.bus).extractLsb' 0 8, 0, true⟩] else []) ++
      x.bytes.modifyHead (x.tally i)

/-- The bits are those of the bytes in the order in which they were written, eight for every byte whose cycle was
kept, but for those that the last one still waits for. -/
structure Faithful (x : Watched) : Prop where
  bits : x.clocked = x.bytes.reverse.flatMap Byte.sent
  whole : ∀ b ∈ x.bytes.tail, b.whole = true → b.count = 8
  latest : ∀ b ∈ x.bytes.head?, b.whole = true → x.core.ackDelay = 0 → b.count = 8

/-- A read of the memory port is accepted in the user mode. -/
def intrudes (x : Watched) (i : Tick) : Bool := x.core.cfgUserMode && x.core.busRequest i.bus && !i.bus.reset

/-- Such a read is acknowledged at once with the control port's register, and the flash is left alone. -/
def Silent (x : Watched) (i : Tick) : Prop :=
  x.intrudes i = true → (x.step optPipe i).core.spiSck = false ∧ (x.step optPipe i).core.ackDelay = 0 ∧
    (x.step optPipe i).core.spiCsN = x.core.spiCsN ∧ (x.step optPipe i).core.busAck = true ∧
    (x.step optPipe i).core.wbData = x.core.wbData

/-- No read of the memory port is accepted in the user mode. -/
def Apart (x : Watched) (i : Tick) : Prop := x.intrudes i = false

instance (x : Watched) (i : Tick) : Decidable (Apart x i) := inferInstanceAs (Decidable (_ = _))

end Watched

/-! ### What a clock does in the user mode -/

namespace Registers

variable {s : Registers} {i : Inputs} {optPipe miso : Bool}

theorem quiet_of_idle (polite : i.Polite) (cyc : s.busCyc i = false) : s.busStb i = false := by
  by_contra strobes
  rw [Bool.not_eq_false] at strobes
  have busy : s.busCyc i = true := by
    cases owner : s.aOwner
    · simp_all [busStb, busCyc, Registers.owner, Inputs.Polite]
    · simp_all [busStb, busCyc, Registers.owner, Inputs.Polite]
  exact absurd (busy.symm.trans cyc) (by decide)

/-- A reset or the end of a cycle ends what is under way. -/
theorem clock_cut (optPipe miso : Bool) (polite : i.Polite) (stop : i.reset = true ∨ s.busCyc i = false) :
    (s.clock i optPipe miso).ackDelay = 0 ∧ (s.clock i optPipe miso).spiSck = false := by
  rcases stop with reset | cyc
  · simp [clock, reset]
  · have quiet := quiet_of_idle polite cyc
    simp [clock, cyc, quiet, busRequest, userRequest, nextRequest, memBusStb, cfgBusStb]

theorem userRequest_iff : s.userRequest i = true ↔
    s.aOwner = false ∧ i.cfg.stb = true ∧ s.busStall = false ∧ i.cfg.we = true ∧ i.cfg.data.getLsbD 8 = false := by
  cases owner : s.aOwner <;> simp [userRequest, cfgBusStb, busStb, busWe, busData, Registers.owner, owner]
  tauto

/-- A byte is written. -/
theorem clock_write (optPipe miso : Bool) (running : i.reset = false) (cyc : s.busCyc i = true)
    (user : s.userRequest i = true) :
    (s.clock i optPipe miso).ackDelay = 9 ∧ (s.clock i optPipe miso).spiSck = true ∧
    (s.clock i optPipe miso).busStall = true ∧ (s.clock i optPipe miso).spiCsN = false ∧
    (s.clock i optPipe miso).cfgUserMode = true ∧
    (s.clock i optPipe miso).wdataPipe = 0#1 ++ i.cfg.data.extractLsb' 0 8 ++ s.pipeLow i := by
  obtain ⟨owner, stb, free, we, low⟩ := userRequest_iff.mp user
  have bus : s.busRequest i = false := by simp [busRequest, memBusStb, owner]
  refine ⟨?_, ?_, ?_, ?_, ?_, ?_⟩
  · simp [clock, running, cyc, bus, user]
  · simp [clock, running, user]
  · simp [clock, running, cyc, user]
  · have high : i.cfg.data[8] = false := by simpa using low
    simp [clock, running, cyc, bus, cfgBusStb, busStb, busWe, busData, Registers.owner, owner, stb, free, we, high]
  · have high : i.cfg.data[8] = false := by simpa using low
    simp [clock, running, cfgBusStb, busStb, busWe, Registers.owner, owner, stb, free, we, high]
  · simp [clock, pipeHigh, memBusStb, owner, free]

/-- A clock of a cycle in the user mode in which nothing is sent. -/
theorem clock_passes (optPipe miso : Bool) (running : i.reset = false) (user : s.cfgUserMode = true)
    (cyc : s.busCyc i = true)
    (bus : s.busRequest i = false) (write : s.userRequest i = false) (delay : s.ackDelay = 0) :
    (s.clock i optPipe miso).ackDelay = 0 ∧ (s.clock i optPipe miso).spiSck = false ∧
    ((s.clock i optPipe miso).cfgUserMode = true → (s.clock i optPipe miso).spiCsN = false) := by
  refine ⟨?_, ?_, ?_⟩
  · simp [clock, running, cyc, bus, write, delay]
  · simp [clock, running, bus, write, delay]
  · cases owner : s.aOwner
    · by_cases accepted : i.cfg.stb = true ∧ s.busStall = false ∧ i.cfg.we = true
      · obtain ⟨stb, free, we⟩ := accepted
        simp [clock, running, cyc, bus, user, cfgBusStb, busStb, busWe, busData, Registers.owner, owner, stb, free, we]
      · have other : (s.cfgBusStb i && !s.busStall && s.busWe i) = false := by
          rw [Bool.eq_false_iff]
          intro taken
          simp only [cfgBusStb, busStb, busWe, Registers.owner, owner, Bool.false_eq_true, if_false, Bool.not_false,
            Bool.and_true, Bool.and_eq_true, Bool.not_eq_true'] at taken
          exact accepted ⟨taken.1.1, taken.1.2, taken.2⟩
        simp [clock, running, cyc, bus, user, other]
    · simp [clock, running, cyc, bus, user, cfgBusStb, owner]

/-- A clock of the cycle of a byte. -/
theorem clock_sends (optPipe miso : Bool) (running : i.reset = false) (user : s.cfgUserMode = true)
    (cyc : s.busCyc i = true)
    (stall : s.busStall = true) (positive : 0 < s.ackDelay) :
    (s.clock i optPipe miso).ackDelay = s.ackDelay - 1 ∧ (s.clock i optPipe miso).cfgUserMode = true ∧
    (s.clock i optPipe miso).spiSck = decide (2 < s.ackDelay) ∧ (s.clock i optPipe miso).spiCsN = false ∧
    (s.clock i optPipe miso).busStall = decide (1 < s.ackDelay) ∧
    (s.clock i optPipe miso).wdataPipe = s.wdataPipe <<< (1 : Nat) := by
  have bus : s.busRequest i = false := by simp [busRequest, stall]
  have write : s.userRequest i = false := by simp [userRequest, stall]
  refine ⟨?_, ?_, ?_, ?_, ?_, pipe_shift stall⟩
  · simp [clock, running, cyc, bus, write]
    omega
  · simp [clock, running, user, stall]
  · simp [clock, running, cyc, bus, write, nextRequest, user]
  · simp [clock, running, bus, user, stall]
  · simp [clock, running, cyc, bus, write, nextRequest, user]

/-- The clock behind a reset or the end of a cycle in the user mode. -/
theorem clock_left (optPipe miso : Bool) (user : s.cfgUserMode = true) (cyc : s.busCyc i = false) (polite : i.Polite)
    (running : i.reset = false) :
    (s.clock i optPipe miso).cfgUserMode = true ∧ (s.clock i optPipe miso).spiCsN = false := by
  have quiet := quiet_of_idle polite cyc
  constructor
  · simp [clock, running, user, cfgBusStb, quiet]
  · simp [clock, running, user, cfgBusStb, quiet, busRequest, memBusStb]

end Registers

namespace Watched

variable {optPipe : Bool} {x : Watched} {i : Tick}

/-- Not in the user mode. -/
structure Outside (x : Watched) : Prop where
  normal : x.core.cfgUserMode = false
  lent : x.core.aOwner = false → x.core.ackDelay = 0 ∧ x.core.spiSck = false
  done : ∀ b ∈ x.bytes.head?, b.whole = true → b.count = 8

/-- In the user mode, and no byte under way; the clock of one whose cycle was dropped may still run out. -/
structure Resting (b : Byte) (x : Watched) : Prop where
  user : x.core.cfgUserMode = true
  delay : x.core.ackDelay = 0
  sck : x.core.spiSck = false
  csN : x.core.spiCsN = false
  latest : x.bytes.head? = some b
  late : x.core.pinSck = true → b.whole = false ∧ b.count < 8 ∧ x.core.spiMosi = b.data.getLsbD (7 - b.count)
  done : b.whole = true → b.count = 8

/-- A byte is being sent, and takes another `d` clocks. -/
structure Sending (b : Byte) (d : Nat) (x : Watched) : Prop where
  user : x.core.cfgUserMode = true
  delay : x.core.ackDelay = d
  positive : 0 < d
  bound : d ≤ 9
  owner : x.core.aOwner = false
  stall : x.core.busStall = true
  sck : x.core.spiSck = decide (1 < d)
  pin : x.core.pinSck = decide (d ≤ 8)
  csN : x.core.spiCsN = false
  latest : x.bytes.head? = some b
  count : b.count = 8 - d
  pipe : ∀ j < d, x.core.wdataPipe.getLsbD (32 - j) = b.data.getLsbD (d - 1 - j)

theorem sent_succ {b : Byte} (short : b.count < 8) (whole : Bool) :
    (Byte.mk b.data (b.count + 1) whole).sent = b.sent ++ [b.data.getLsbD (7 - b.count)] := by
  simp [Byte.sent, List.take_add_one, short]

/-- The byte written last when a clock takes a bit, and the bit. -/
def Takes (x : Watched) : Prop :=
  x.clocks = true → ∃ b, x.bytes.head? = some b ∧ b.count < 8 ∧ x.core.spiMosi = b.data.getLsbD (7 - b.count)

/-- The bits keep in step with the bytes. -/
theorem bits_step (bits : x.clocked = x.bytes.reverse.flatMap Byte.sent) (takes : Takes x) :
    (x.step optPipe i).clocked = (x.step optPipe i).bytes.reverse.flatMap Byte.sent := by
  have rest : (x.step optPipe i).bytes.reverse.flatMap Byte.sent =
      (x.bytes.modifyHead (x.tally i)).reverse.flatMap Byte.sent := by
    simp only [step, List.reverse_append, List.flatMap_append]
    split_ifs <;> simp [Byte.sent]
  rw [rest]
  cases clocks : x.clocks with
  | false =>
    have same (b : Byte) : (x.tally i b).sent = b.sent := by simp [tally, clocks, Byte.sent]
    cases bytes : x.bytes with
    | nil => simp [step, clocks, bits, bytes]
    | cons b older => simp [step, clocks, bits, bytes, same]
  | true =>
    obtain ⟨b, latest, short, mosi⟩ := takes clocks
    obtain ⟨older, bytes⟩ := List.head?_eq_some_iff.mp latest
    have more : (x.tally i b).sent = b.sent ++ [x.core.spiMosi] := by
      rw [mosi, ← sent_succ short, tally, clocks, if_pos rfl]
    simp [step, clocks, bits, bytes, more]

theorem head_step (quiet : (x.core.userRequest i.bus && !i.bus.reset) = false) :
    (x.step optPipe i).bytes.head? = x.bytes.head?.map (x.tally i) ∧ (x.step optPipe i).bytes.tail = x.bytes.tail := by
  cases bytes : x.bytes <;> simp [step, quiet, bytes]

theorem write_step (write : x.core.userRequest i.bus = true) (running : i.bus.reset = false) :
    (x.step optPipe i).bytes.head? = some ⟨(x.core.busData i.bus).extractLsb' 0 8, 0, true⟩ ∧
    (x.step optPipe i).bytes.tail = x.bytes.modifyHead (x.tally i) := by
  simp [step, write, running]

/-- A byte is written while the clock rests. -/
theorem sending_of_write (write : x.core.userRequest i.bus = true) (running : i.bus.reset = false)
    (polite : i.bus.Polite) (rests : x.core.spiSck = false) :
    Sending ⟨(x.core.busData i.bus).extractLsb' 0 8, 0, true⟩ 9 (x.step optPipe i) := by
  obtain ⟨owner, stb, free, we, low⟩ := Registers.userRequest_iff.mp write
  have cyc : x.core.busCyc i.bus = true := by
    simpa [Registers.busCyc, Registers.owner, owner] using polite.2 stb
  obtain ⟨delay, sck, stall, csN, user, pipe⟩ := Registers.clock_write optPipe i.miso running cyc write
  constructor
  case user => exact user
  case delay => exact delay
  case positive => decide
  case bound => decide
  case owner => exact (Registers.aOwner_clock cyc).trans owner
  case stall => exact stall
  case sck => exact sck
  case pin => exact rests
  case csN => exact csN
  case latest => exact (write_step write running).1
  case count => rfl
  case pipe =>
    intro j inside
    have data : x.core.busData i.bus = i.bus.cfg.data := by simp [Registers.busData, Registers.owner, owner]
    have place : ¬ 32 - j < 24 := by omega
    have index : 32 - j - 24 = 8 - j := by omega
    have core : (x.step optPipe i).core.wdataPipe = _ := pipe
    rw [core, data, BitVec.getLsbD_append, if_neg place, BitVec.getLsbD_append, index]
    rcases j with - | j
    · simp
    · simp

/-- Outside the user mode a clock that writes no byte stays there. -/
theorem Outside.stays (outside : Outside x) (polite : i.bus.Polite)
    (write : (x.core.userRequest i.bus && !i.bus.reset) = false) : Outside (x.step optPipe i) := by
  have core : (x.step optPipe i).core = x.core.clock i.bus optPipe i.miso := rfl
  constructor
  case normal =>
    cases reset : i.bus.reset with
    | true => simp [core, Registers.clock, reset]
    | false =>
      rw [reset, Bool.not_false, Bool.and_true] at write
      simp only [Registers.userRequest, Registers.busData, Registers.busWe, Registers.owner] at write
      cases owner : x.core.aOwner with
      | true => simp [core, Registers.clock, reset, Registers.cfgBusStb, owner, outside.normal]
      | false =>
        simp only [owner, Bool.false_eq_true, if_false] at write
        cases accepted : x.core.cfgBusStb i.bus && !x.core.busStall && i.bus.cfg.we with
        | false =>
          simp [core, Registers.clock, reset, Registers.busWe, Registers.owner, owner, accepted, outside.normal]
        | true =>
          rw [accepted, Bool.true_and, Bool.not_eq_false'] at write
          simp [core, Registers.clock, reset, Registers.busWe, Registers.owner, owner, accepted, write]
  case lent =>
    intro lent
    by_cases stop : i.bus.reset = true ∨ x.core.busCyc i.bus = false
    · exact Registers.clock_cut optPipe i.miso polite stop
    · simp only [not_or, Bool.not_eq_true, Bool.not_eq_false] at stop
      rw [stop.1, Bool.not_false, Bool.and_true] at write
      have owner : x.core.aOwner = false := (Registers.aOwner_clock stop.2).symm.trans lent
      obtain ⟨delay, sck⟩ := outside.lent owner
      have bus : x.core.busRequest i.bus = false := by simp [Registers.busRequest, Registers.memBusStb, owner]
      constructor
      · simp [core, Registers.clock, stop.1, stop.2, bus, write, delay]
      · simp [core, Registers.clock, stop.1, bus, write, delay]
  case done =>
    intro b member
    rw [(head_step write).1] at member
    obtain ⟨before, latest, rfl⟩ := Option.map_eq_some_iff.mp member
    intro whole
    have clocks : x.clocks = false := by simp [clocks, outside.normal]
    simp only [tally, clocks, Bool.false_eq_true, if_false]
    exact outside.done before latest (Bool.and_eq_true_iff.mp whole).1

namespace Resting

variable {b : Byte}

theorem quiet (resting : Resting b x) (whole : b.whole = true) : x.clocks = false := by
  cases pin : x.core.pinSck with
  | false => simp [clocks, pin]
  | true => exact absurd ((resting.late pin).1.symm.trans whole) (by decide)

/-- A byte that is whole stays complete. -/
theorem tally_done (resting : Resting b x) (whole : (x.tally i b).whole = true) : (x.tally i b).count = 8 := by
  have before : b.whole = true := (Bool.and_eq_true_iff.mp whole).1
  simp [tally, resting.quiet before, resting.done before]

/-- A clock that writes no byte and clocks no read rests, in or out of the user mode. -/
theorem stays (resting : Resting b x) (polite : i.bus.Polite) (apart : Apart x i)
    (write : (x.core.userRequest i.bus && !i.bus.reset) = false) :
    Outside (x.step optPipe i) ∨ Resting (x.tally i b) (x.step optPipe i) := by
  have core : (x.step optPipe i).core = x.core.clock i.bus optPipe i.miso := rfl
  have latest : (x.step optPipe i).bytes.head? = some (x.tally i b) := by
    rw [(head_step write).1, resting.latest]
    rfl
  have still : (x.step optPipe i).core.ackDelay = 0 ∧ (x.step optPipe i).core.spiSck = false ∧
      ((x.step optPipe i).core.cfgUserMode = true → (x.step optPipe i).core.spiCsN = false) := by
    by_cases stop : i.bus.reset = true ∨ x.core.busCyc i.bus = false
    · obtain ⟨delay, sck⟩ := Registers.clock_cut optPipe i.miso polite stop
      refine ⟨delay, sck, fun user => ?_⟩
      cases reset : i.bus.reset with
      | true => simp [core, Registers.clock, reset] at user
      | false =>
        have cyc : x.core.busCyc i.bus = false := by simpa [reset] using stop
        exact (Registers.clock_left optPipe i.miso resting.user cyc polite reset).2
    · simp only [not_or, Bool.not_eq_true, Bool.not_eq_false] at stop
      have bus : x.core.busRequest i.bus = false := by simpa [Apart, intrudes, resting.user, stop.1] using apart
      rw [stop.1, Bool.not_false, Bool.and_true] at write
      exact Registers.clock_passes optPipe i.miso stop.1 resting.user stop.2 bus write resting.delay
  obtain ⟨delay, sck, csN⟩ := still
  cases user : (x.step optPipe i).core.cfgUserMode with
  | true =>
    refine .inr ⟨user, delay, sck, csN user, latest, fun pin => ?_, resting.tally_done⟩
    exact absurd (resting.sck.symm.trans pin) (by decide)
  | false =>
    refine .inl ⟨user, fun _ => ⟨delay, sck⟩, fun last member => ?_⟩
    rw [latest] at member
    obtain rfl := Option.mem_some_iff.mp member
    exact resting.tally_done

end Resting

namespace Sending

variable {b : Byte} {d : Nat}

theorem clocks (sending : Sending b d x) : x.clocks = decide (d ≤ 8) := by
  simp [Watched.clocks, sending.user, sending.pin, sending.csN]

/-- The next bit comes to the top. -/
theorem shift (sending : Sending b d x) (optPipe : Bool) (i : Tick) : ∀ j < d - 1,
    (x.step optPipe i).core.wdataPipe.getLsbD (32 - j) = b.data.getLsbD (d - 1 - 1 - j) := by
  intro j inside
  have pipe : (x.step optPipe i).core.wdataPipe = x.core.wdataPipe <<< (1 : Nat) := Registers.pipe_shift sending.stall
  have bound := sending.bound
  have down : 32 - j - 1 = 32 - (j + 1) := by omega
  have index : d - 1 - (j + 1) = d - 1 - 1 - j := by omega
  have above : ¬ 32 - j < 1 := by omega
  rw [pipe, BitVec.getLsbD_shiftLeft, decide_eq_true (by omega), decide_eq_false above, down,
    sending.pipe (j + 1) (by omega), index]
  rfl

theorem latest_step (sending : Sending b d x) : (x.step optPipe i).bytes.head? = some (x.tally i b) := by
  have write : (x.core.userRequest i.bus && !i.bus.reset) = false := by simp [Registers.userRequest, sending.stall]
  rw [(head_step write).1, sending.latest]
  rfl

/-- When the cycle is dropped the clock runs for one more bit at most. -/
theorem cut (sending : Sending b d x) (polite : i.bus.Polite)
    (stop : i.bus.reset = true ∨ x.core.busCyc i.bus = false) :
    Outside (x.step optPipe i) ∨ Resting (x.tally i b) (x.step optPipe i) := by
  obtain ⟨delay, sck⟩ := Registers.clock_cut optPipe i.miso polite stop
  have broken : (x.tally i b).whole = false := by
    have positive := sending.positive
    rcases stop with reset | cyc
    · simp [tally, cuts, reset, sending.delay, positive]
    · simp [tally, cuts, cyc, sending.delay, positive]
  cases reset : i.bus.reset with
  | true =>
    refine .inl ⟨by simp [step, Registers.clock, reset], fun _ => ⟨delay, sck⟩, fun last member => ?_⟩
    rw [sending.latest_step] at member
    obtain rfl := Option.mem_some_iff.mp member
    exact fun whole => absurd (broken.symm.trans whole) (by decide)
  | false =>
    have cyc : x.core.busCyc i.bus = false := by simpa [reset] using stop
    obtain ⟨user, csN⟩ := Registers.clock_left optPipe i.miso sending.user cyc polite reset
    refine .inr ⟨user, delay, sck, csN, sending.latest_step, fun pin => ⟨broken, ?_⟩,
      fun whole => absurd (broken.symm.trans whole) (by decide)⟩
    have more : 1 < d := of_decide_eq_true (sending.sck.symm.trans pin)
    have bound := sending.bound
    have count : (x.tally i b).count = 9 - d := by
      rw [tally, sending.clocks, sending.count]
      split_ifs with low <;> simp only [decide_eq_true_eq] at low <;> simp only <;> omega
    have top := sending.shift optPipe i 0 (by omega)
    have index : 7 - (x.tally i b).count = d - 1 - 1 - 0 := by omega
    exact ⟨by omega, by rw [index]; exact top⟩

/-- While the cycle is kept the bits follow one another. -/
theorem goes_on (sending : Sending b d x) (running : i.bus.reset = false) (cyc : x.core.busCyc i.bus = true) :
    Resting (x.tally i b) (x.step optPipe i) ∨ Sending (x.tally i b) (d - 1) (x.step optPipe i) := by
  have positive := sending.positive
  have bound := sending.bound
  obtain ⟨delay, user, sck, csN, stall, -⟩ := Registers.clock_sends optPipe i.miso running
    sending.user cyc sending.stall (by rw [sending.delay]; exact positive)
  rw [sending.delay] at delay sck stall
  have count : (x.tally i b).count = 8 - (d - 1) := by
    rw [tally, sending.clocks, sending.count]
    split_ifs with low <;> simp only [decide_eq_true_eq] at low <;> simp only <;> omega
  by_cases more : 1 < d
  · right
    constructor
    case user => exact user
    case delay => exact delay
    case positive => omega
    case bound => omega
    case owner => exact (Registers.aOwner_clock cyc).trans sending.owner
    case stall => exact stall.trans (decide_eq_true more)
    case sck => exact sck.trans (decide_eq_decide.mpr (by omega))
    case pin =>
      have clocking : (x.step optPipe i).core.pinSck = x.core.spiSck := rfl
      rw [clocking, sending.sck, decide_eq_true more, decide_eq_true (by omega)]
    case csN => exact csN
    case latest => exact sending.latest_step
    case count => exact count
    case pipe => exact sending.shift optPipe i
  · left
    have one : d = 1 := by omega
    subst one
    refine ⟨user, delay, sck, csN, sending.latest_step, fun pin => ?_, fun _ => count⟩
    exact absurd (sending.sck.symm.trans pin) (by decide)

end Sending

/-- What holds in every clock of a run without a read in the user mode. -/
structure Sound (x : Watched) : Prop where
  bits : x.clocked = x.bytes.reverse.flatMap Byte.sent
  whole : ∀ b ∈ x.bytes.tail, b.whole = true → b.count = 8
  mode : Outside x ∨ (∃ b, Resting b x) ∨ ∃ b d, Sending b d x

namespace Sound

theorem takes (sound : Sound x) : Takes x := by
  intro clocks
  rcases sound.mode with outside | ⟨b, resting⟩ | ⟨b, d, sending⟩
  · simp [Watched.clocks, outside.normal] at clocks
  · have pin : x.core.pinSck = true := by
      simp only [Watched.clocks, Bool.and_eq_true] at clocks
      exact clocks.1.2
    exact ⟨b, resting.latest, (resting.late pin).2⟩
  · have low : d ≤ 8 := of_decide_eq_true (sending.clocks.symm.trans clocks)
    have positive := sending.positive
    have top := sending.pipe 0 positive
    have index : d - 1 - 0 = 7 - b.count := by rw [sending.count]; omega
    exact ⟨b, sending.latest, by rw [sending.count]; omega, by rw [← index]; exact top⟩

/-- The byte before a new one is complete, or its cycle was dropped. -/
theorem tail_of_write (sound : Sound x) (write : x.core.userRequest i.bus = true) (running : i.bus.reset = false) :
    ∀ b ∈ (x.step optPipe i).bytes.tail, b.whole = true → b.count = 8 := by
  rw [(write_step write running).2]
  have free := (Registers.userRequest_iff.mp write).2.2.1
  have done : ∀ b ∈ x.bytes.head?, (x.tally i b).whole = true → (x.tally i b).count = 8 := by
    rcases sound.mode with outside | ⟨b, resting⟩ | ⟨b, d, sending⟩
    · intro b member whole
      have clocks : x.clocks = false := by simp [Watched.clocks, outside.normal]
      simp only [tally, clocks, Bool.false_eq_true, if_false]
      exact outside.done b member (Bool.and_eq_true_iff.mp whole).1
    · intro last member
      rw [resting.latest] at member
      obtain rfl := Option.mem_some_iff.mp member
      exact resting.tally_done
    · exact absurd (sending.stall.symm.trans free) (by decide)
  have older := sound.whole
  cases bytes : x.bytes with
  | nil => simp
  | cons b rest =>
    rw [bytes] at done older
    intro last member
    rcases List.mem_cons.mp member with rfl | early
    · exact done b rfl
    · exact older last early

theorem step (sound : Sound x) (polite : i.bus.Polite) (apart : Apart x i) : Sound (x.step optPipe i) := by
  refine ⟨bits_step sound.bits sound.takes, ?_, ?_⟩
  · cases write : x.core.userRequest i.bus && !i.bus.reset with
    | true =>
      rw [Bool.and_eq_true, Bool.not_eq_true'] at write
      exact sound.tail_of_write write.1 write.2
    | false =>
      rw [(head_step write).2]
      exact sound.whole
  · rcases sound.mode with outside | ⟨b, resting⟩ | ⟨b, d, sending⟩
    · cases write : x.core.userRequest i.bus && !i.bus.reset with
      | true =>
        rw [Bool.and_eq_true, Bool.not_eq_true'] at write
        obtain ⟨owner, -⟩ := Registers.userRequest_iff.mp write.1
        exact .inr (.inr ⟨_, 9, sending_of_write write.1 write.2 polite (outside.lent owner).2⟩)
      | false => exact .inl (outside.stays polite write)
    · cases write : x.core.userRequest i.bus && !i.bus.reset with
      | true =>
        rw [Bool.and_eq_true, Bool.not_eq_true'] at write
        exact .inr (.inr ⟨_, 9, sending_of_write write.1 write.2 polite resting.sck⟩)
      | false => exact (resting.stays polite apart write).imp_right fun rests => .inl ⟨_, rests⟩
    · by_cases stop : i.bus.reset = true ∨ x.core.busCyc i.bus = false
      · exact (sending.cut polite stop).imp_right fun rests => .inl ⟨_, rests⟩
      · simp only [not_or, Bool.not_eq_true, Bool.not_eq_false] at stop
        exact .inr ((sending.goes_on stop.1 stop.2).imp (fun rests => ⟨_, rests⟩) fun sends => ⟨_, _, sends⟩)

theorem faithful (sound : Sound x) : Faithful x := by
  refine ⟨sound.bits, sound.whole, ?_⟩
  rcases sound.mode with outside | ⟨b, resting⟩ | ⟨b, d, sending⟩
  · exact fun b member whole _ => outside.done b member whole
  · intro last member whole _
    rw [resting.latest] at member
    obtain rfl := Option.mem_some_iff.mp member
    exact resting.done whole
  · intro _ _ _ delay
    have := sending.positive
    have := sending.delay
    omega

end Sound

theorem sound_powerUp (free : Registers) : Sound (powerUp free) :=
  ⟨rfl, by simp [powerUp], .inl ⟨rfl, fun _ => ⟨rfl, rfl⟩, by simp [powerUp]⟩⟩

/-- A read that is accepted clocks the flash. -/
theorem not_silent (intrudes : x.intrudes i = true) : ¬ Silent optPipe x i := by
  intro silent
  have quiet := (silent intrudes).1
  simp only [Watched.intrudes, Bool.and_eq_true, Bool.not_eq_true'] at intrudes
  simp [Watched.step, Registers.clock, intrudes.1.2, intrudes.2] at quiet

/-- In a run in which the masters keep to the rules of the bus, the flash is clocked in the user mode for exactly
the bytes written, and reads of the memory port leave it alone, if and only if no such read is accepted. -/
theorem exclusive_iff (optPipe : Bool) (free : Registers) (is : List Tick) (polite : ∀ i ∈ is, i.bus.Polite) :
    ((∀ before, before <+: is → Faithful (Clocked.run (step optPipe) (powerUp free) before)) ∧
      Clocked.Always (step optPipe) (Silent optPipe) (powerUp free) is) ↔
    Clocked.Always (step optPipe) Apart (powerUp free) is := by
  constructor
  · rintro ⟨-, silent⟩
    refine silent.mono fun x i silent => ?_
    by_contra intrudes
    exact not_silent (by simpa [Apart] using intrudes) silent
  · intro apart
    have quiet : Clocked.Always (step optPipe) (Silent optPipe) (powerUp free) is :=
      apart.mono fun x i apart intrudes => absurd (apart.symm.trans intrudes) (by decide)
    refine ⟨fun before initial => ?_, quiet⟩
    obtain ⟨rest, rfl⟩ := initial
    have rules : Clocked.Always (step optPipe) (fun _ i => i.bus.Polite) (powerUp free) before :=
      Clocked.always_of_inputs (fun i member _ => polite i (List.mem_append_left rest member)) _
    have kept (x : Watched) (i : Tick) (sound : Sound x) (ok : i.bus.Polite ∧ Apart x i) : Sound (x.step optPipe i) :=
      sound.step ok.1 ok.2
    have always := rules.and ((Clocked.always_append _ _ _ _).mp apart).1
    exact (Clocked.run_invariant kept (sound_powerUp free) always).faithful

def fresh : Registers := ⟨true, false, false, 0, true, false, false, 0, 0, false, 0, false⟩

def still : Port := ⟨false, false, false, 0⟩

/-- A clock in which the memory port and the configuration port do this. -/
def tick (wb cfg : Port) : Tick := ⟨⟨false, wb, 0, cfg⟩, false⟩

/-- A write of the configuration port, from the clock in which it asks for the bus until its byte has been sent. -/
def writing (data : BitVec 32) : List Tick :=
  List.replicate 2 (tick still ⟨true, true, true, data⟩) ++ List.replicate 10 (tick still ⟨true, false, false, 0⟩)

/-- A read of the memory port. -/
def intruding : Tick := tick ⟨true, true, false, 0⟩ still

/-- Two bytes in a cycle each, and the end of the user mode. -/
def twoBytes : List Tick :=
  writing 0x9f ++ [tick still still] ++ writing 0x03 ++ [tick still still] ++ writing 0x100

theorem exclusive_iff_twoBytes :
    (∀ before, before <+: twoBytes → Faithful (Clocked.run (step true) (powerUp fresh) before)) ∧
      Clocked.Always (step true) (Silent true) (powerUp fresh) twoBytes :=
  (exclusive_iff true fresh twoBytes (by decide)).mpr (by decide +kernel)

/-- A byte, and a read of the memory port in the user mode: the flash is clocked for a read command. -/
theorem read_intrudes :
    (Clocked.run (step true) (powerUp fresh) (writing 0x06 ++ List.replicate 12 intruding)).clocked =
      [false, false, false, false, false, true, true, false] ++
        [false, false, false, false, false, false, true, true, false] ∧
    ¬ Faithful (Clocked.run (step true) (powerUp fresh) (writing 0x06 ++ List.replicate 12 intruding)) := by
  have clocked : (Clocked.run (step true) (powerUp fresh) (writing 0x06 ++ List.replicate 12 intruding)).clocked =
      [false, false, false, false, false, true, true, false] ++
        [false, false, false, false, false, false, true, true, false] := by decide +kernel
  refine ⟨clocked, fun faithful => ?_⟩
  have bits := faithful.bits
  rw [clocked] at bits
  exact absurd bits (by decide +kernel)

end Watched

end IcoZip.Spixpress
