import IcoZip.Library.Clocked
import IcoZip.Spixpress.Flash

/-! Reads of the memory port are reads of the flash.

Beside the controller and the flash runs a record of the requests of the memory
port that have been accepted and neither acknowledged nor dropped. The
configuration port may do anything but enter the user mode.
-/

set_option autoImplicit false

namespace IcoZip.Spixpress

structure Request where
  we : Bool
  addr : BitVec 22
  /-- The clocks since the request was accepted. -/
  age : Nat
  deriving DecidableEq, Repr

/-- A clock of both buses; `float` is what the data pin reads where the flash does not drive it. -/
structure Clock where
  bus : Inputs
  float : Bool
  deriving DecidableEq, Repr

structure Bench where
  core : Registers
  flash : Flash
  outstanding : List Request
  /-- The last read that was accepted. -/
  last : Option (BitVec 22)
  /-- The request that was stalled in the last clock. -/
  stalled : Option (Bool × BitVec 22)
  deriving DecidableEq, Repr

/-- The cycle of the memory port is dropped. -/
def Clock.drops (i : Clock) : Bool := i.bus.reset || !i.bus.wb.cyc

namespace Bench

variable (mem : Memory)

def powerUp (free : Registers) (flash : Flash) : Bench := ⟨free.powerUp, flash, [], none, none⟩

def accepts (x : Bench) (i : Clock) : Bool := i.bus.wb.stb && !x.core.wbStall && !i.drops

def step (x : Bench) (i : Clock) : Bench where
  core := x.core.clock i.bus true (x.flash.miso mem i.float)
  flash := x.flash.step x.core.spiCsN x.core.pinSck x.core.spiMosi
  outstanding :=
    if i.drops then []
    else
      ((if x.core.wbAck then x.outstanding.tail else x.outstanding).map fun r => { r with age := r.age + 1 }) ++
        if x.accepts i then [⟨i.bus.wb.we, i.bus.wbAddr, 0⟩] else []
  last := if x.accepts i && !i.bus.wb.we then some i.bus.wbAddr else x.last
  stalled := if !i.drops && i.bus.wb.stb && x.core.wbStall then some (i.bus.wb.we, i.bus.wbAddr) else none

/-- The rules of both buses: strobes come within cycles, and a stalled request waits. The configuration port
does not enter the user mode. -/
structure Polite (x : Bench) (i : Clock) : Prop where
  wb : i.bus.wb.stb = true → i.bus.wb.cyc = true
  cfg : i.bus.cfg.stb = true → i.bus.cfg.cyc = true
  waits : ∀ r ∈ x.stalled, i.drops = false → i.bus.wb.stb = true ∧ (i.bus.wb.we, i.bus.wbAddr) = r
  memory : i.bus.cfg.stb = true → i.bus.cfg.we = true → i.bus.cfg.data.getLsbD 8 = true

instance (x : Bench) (i : Clock) : Decidable (Polite x i) :=
  -- looks at the one request that may be there, not at all that could be
  have : Decidable (∀ r ∈ x.stalled, i.drops = false → i.bus.wb.stb = true ∧ (i.bus.wb.we, i.bus.wbAddr) = r) :=
    Option.decidableForallMem x.stalled
  decidable_of_iff (_ ∧ _ ∧ _ ∧ _) ⟨fun all => ⟨all.1, all.2.1, all.2.2.1, all.2.2.2⟩,
    fun polite => ⟨polite.wb, polite.cfg, polite.waits, polite.memory⟩⟩

end Bench

namespace Registers

variable {s : Registers} {i : Inputs} {optPipe miso : Bool}

theorem load_parts (a : BitVec 22) : (0#1 ++ 0x03#8) ++ (a ++ 0#2) = 0#1 ++ command a := by
  apply BitVec.eq_of_getLsbD_eq
  intro j small
  simp only [command, BitVec.getLsbD_append]
  by_cases low : j < 24
  · have inside : j < 32 := by omega
    simp [low, inside]
  · by_cases inside : j < 32
    · have place : j - 24 < 8 := by omega
      simp [low, inside, place]
    · have place : ¬ j - 24 < 8 := by omega
      simp [low, inside, place]

theorem pipe_load (request : s.memBusStb i = true) (free : s.busStall = false) :
    (s.clock i optPipe miso).wdataPipe = 0#1 ++ command i.wbAddr := by
  simp only [clock, pipeHigh, pipeLow, request, free, Bool.not_false, Bool.and_self, if_true]
  exact load_parts i.wbAddr

theorem not_userRequest (memory : i.cfg.stb = true → i.cfg.we = true → i.cfg.data.getLsbD 8 = true) :
    s.userRequest i = false := by
  cases owner : s.aOwner
  · cases stb : i.cfg.stb <;> cases we : i.cfg.we <;>
      simp_all [userRequest, cfgBusStb, busStb, busWe, busData, Registers.owner]
  · simp [userRequest, cfgBusStb, owner]

theorem cfgUserMode_clock (normal : s.cfgUserMode = false)
    (memory : i.cfg.stb = true → i.cfg.we = true → i.cfg.data.getLsbD 8 = true) :
    (s.clock i optPipe miso).cfgUserMode = false := by
  cases owner : s.aOwner
  · cases stb : i.cfg.stb <;> cases we : i.cfg.we <;>
      simp_all [clock, cfgBusStb, busStb, busWe, Registers.owner]
  · simp [clock, cfgBusStb, owner, normal]

/-- A reset or the end of a cycle. -/
theorem clock_stop (optPipe miso : Bool) (normal : s.cfgUserMode = false)
    (strobe : s.busStb i = true → s.busCyc i = true)
    (stop : i.reset = true ∨ s.busCyc i = false) :
    (s.clock i optPipe miso).ackDelay = 0 ∧ (s.clock i optPipe miso).busStall = false ∧
    (s.clock i optPipe miso).spiSck = false ∧ (s.clock i optPipe miso).spiCsN = true ∧
    (s.clock i optPipe miso).busAck = false := by
  rcases stop with reset | cyc
  · simp [clock, reset]
  · have quiet : s.busStb i = false := by
      by_contra strobes
      rw [Bool.not_eq_false] at strobes
      exact absurd ((strobe strobes).symm.trans cyc) (by decide)
    simp [clock, cyc, normal, quiet, busRequest, userRequest, nextRequest, memBusStb, cfgBusStb]

/-- A clock of a cycle in which no flash access is requested or under way. -/
theorem clock_rest (optPipe miso : Bool) (running : i.reset = false) (normal : s.cfgUserMode = false)
    (cyc : s.busCyc i = true)
    (bus : s.busRequest i = false) (memory : i.cfg.stb = true → i.cfg.we = true → i.cfg.data.getLsbD 8 = true)
    (delay : s.ackDelay = 0) (csN : s.spiCsN = true) :
    (s.clock i optPipe miso).ackDelay = 0 ∧ (s.clock i optPipe miso).busStall = false ∧
    (s.clock i optPipe miso).spiSck = false ∧ (s.clock i optPipe miso).spiCsN = true := by
  have user := not_userRequest (s := s) memory
  refine ⟨?_, ?_, ?_, ?_⟩
  · simp [clock, running, cyc, bus, user, delay]
  · simp [clock, running, cyc, bus, user, delay]
  · simp [clock, running, bus, user, delay]
  · cases owner : s.aOwner
    · cases stb : i.cfg.stb <;> cases we : i.cfg.we <;>
        simp_all [clock, cfgBusStb, busStb, busWe, busData, Registers.owner]
    · simp [clock, running, cyc, bus, normal, delay, csN, cfgBusStb, owner]

/-- A read is accepted. -/
theorem clock_request (miso : Bool) (running : i.reset = false) (cyc : s.busCyc i = true)
    (bus : s.busRequest i = true) :
    (s.clock i true miso).ackDelay = (if s.spiCsN then 65 else 32) ∧ (s.clock i true miso).busStall = true ∧
    (s.clock i true miso).spiSck = true ∧ (s.clock i true miso).spiCsN = false ∧
    (s.clock i true miso).busAck = decide (s.ackDelay = 1) ∧
    (s.clock i true miso).wdataPipe = 0#1 ++ command i.wbAddr ∧ (s.clock i true miso).nextAddr = i.wbAddr + 1 ∧
    (s.clock i true miso).actualSck = s.spiSck := by
  obtain ⟨owner, stb, free, we⟩ := busRequest_iff.mp bus
  have mine : s.memBusStb i = true := by simp [memBusStb, busStb, Registers.owner, owner, stb]
  refine ⟨?_, ?_, ?_, ?_, ?_, pipe_load mine free, ?_, ?_⟩
  · simp [clock, running, cyc, bus]
  · simp [clock, running, cyc, bus]
  · simp [clock, running, bus]
  · simp [clock, running, cyc, bus]
  · simp [clock, running, cyc, bus, cfgBusStb, owner]
  · simp [clock, free]
  · simp [clock, running, cyc]

/-- A clock of an access that stalls the bus. -/
theorem clock_counts (miso : Bool) (running : i.reset = false) (normal : s.cfgUserMode = false)
    (cyc : s.busCyc i = true)
    (stall : s.busStall = true) (positive : 0 < s.ackDelay) :
    (s.clock i true miso).ackDelay = s.ackDelay - 1 ∧
    (s.clock i true miso).busStall = (!(s.nextRequest i true && decide (s.ackDelay = 2)) && decide (1 < s.ackDelay)) ∧
    (s.clock i true miso).spiSck = (decide (2 < s.ackDelay) || s.nextRequest i true && decide (s.ackDelay = 2)) ∧
    (s.clock i true miso).spiCsN = (decide (s.ackDelay = 1) || s.spiCsN) ∧
    (s.clock i true miso).busAck = decide (s.ackDelay = 1) ∧
    (s.clock i true miso).wdataPipe = s.wdataPipe <<< (1 : Nat) ∧ (s.clock i true miso).nextAddr = s.nextAddr ∧
    (s.clock i true miso).actualSck = s.spiSck := by
  have bus : s.busRequest i = false := by simp [busRequest, stall]
  have user : s.userRequest i = false := by simp [userRequest, stall]
  refine ⟨?_, ?_, ?_, ?_, ?_, pipe_shift stall, ?_, ?_⟩
  · simp [clock, running, cyc, bus, user]
    omega
  · simp [clock, running, cyc, bus, user]
  · simp [clock, running, cyc, bus, user]
  · simp [clock, running, cyc, bus, normal, stall]
  · simp [clock, running, cyc, stall]
  · simp [clock, stall]
  · simp [clock, running, cyc]

theorem wbData_clock (i : Inputs) (optPipe miso : Bool) (normal : s.cfgUserMode = false) :
    (s.clock i optPipe miso).wbData =
    if s.actualSck then s.wbData.extractLsb' 0 31 ++ BitVec.ofBool miso else s.wbData := by
  simp [clock, normal]

end Registers

namespace Bench

/-- The requests that are not acknowledged in this clock either. -/
def remaining (x : Bench) : List Request := if x.core.wbAck then x.outstanding.tail else x.outstanding

/-- An acknowledgement is for the oldest outstanding request. -/
def Answers (mem : Memory) (x : Bench) : Prop :=
  x.core.wbAck = true → ∃ r, x.outstanding = r :: x.remaining ∧ r.age ≤ 65 ∧
    (r.we = false → x.core.wbData = mem.word r.addr)

/-- No access of the flash is under way. -/
structure Idle (mem : Memory) (x : Bench) : Prop where
  normal : x.core.cfgUserMode = false
  delay : x.core.ackDelay = 0
  stall : x.core.busStall = false
  sck : x.core.spiSck = false
  csN : x.core.spiCsN = true
  answers : Answers mem x
  remaining : x.remaining = []

/-- The word at `a` is being read, and takes another `d` clocks. -/
structure Reading (mem : Memory) (a : BitVec 22) (d : Nat) (x : Bench) : Prop where
  normal : x.core.cfgUserMode = false
  delay : x.core.ackDelay = d
  positive : 0 < d
  bound : d ≤ 65
  owner : x.core.aOwner = true
  csN : x.core.spiCsN = false
  sck : x.core.spiSck = (decide (1 < d) || !x.core.busStall)
  stall : x.core.busStall = false → d = 1 ∧ x.stalled = some (false, a + 1)
  pin : x.core.pinSck = decide (d ≤ 64)
  actual : x.core.actualSck = decide (d ≤ 64)
  next : x.core.nextAddr = a + 1
  last : x.last = some a
  sends : 33 ≤ d → Sends x.flash x.core.wdataPipe a d
  streams : d ≤ 32 → Streams mem x.flash x.core.wbData a d
  answers : Answers mem x
  remaining : ∃ age, age + d ≤ 65 ∧ x.remaining = [⟨false, a, age⟩]

/-- What the ports see. -/
structure Serves (mem : Memory) (x : Bench) (i : Clock) : Prop where
  /-- An acknowledgement is for the oldest outstanding request, and a read gets the word at its address. -/
  answers : x.core.wbAck = true → ∃ r rest, x.outstanding = r :: rest ∧ (r.we = false → x.core.wbData = mem.word r.addr)
  /-- No request stays outstanding for more than 65 clocks. -/
  prompt : ∀ r ∈ x.outstanding, r.age ≤ 65
  /-- A read for which chip select stays low is of the word behind the last one. -/
  released : x.core.busRequest i.bus = true → i.drops = false → x.core.spiCsN = false →
    ∃ a, x.last = some a ∧ i.bus.wbAddr = a + 1

section
variable {mem : Memory} {x : Bench} {i : Clock}

theorem strobe (polite : Polite x i) : x.core.busStb i.bus = true → x.core.busCyc i.bus = true := by
  cases owner : x.core.aOwner
  · simpa [Registers.busStb, Registers.busCyc, Registers.owner, owner] using polite.cfg
  · simpa [Registers.busStb, Registers.busCyc, Registers.owner, owner] using polite.wb

theorem outstanding_dropped (drops : i.drops = true) : (x.step mem i).outstanding = [] := if_pos drops

theorem outstanding_kept (mem : Memory) (x : Bench) (drops : i.drops = false) : (x.step mem i).outstanding =
    (x.remaining.map fun r => { r with age := r.age + 1 }) ++
      if x.accepts i then [⟨i.bus.wb.we, i.bus.wbAddr, 0⟩] else [] := if_neg (by simp [drops])

/-- Nothing is acknowledged in a clock without `bus_ack`. -/
theorem unanswered (quiet : x.core.busAck = false) : x.core.wbAck = false := by
  simp [Registers.wbAck, quiet]

theorem answers_none (none : x.core.wbAck = false) : Answers mem x :=
  fun ack => absurd (none.symm.trans ack) (by decide)

/-- After a reset or the end of a cycle of the port that has the bus. -/
theorem idle_of_stop (polite : Polite x i) (normal : x.core.cfgUserMode = false)
    (stop : i.bus.reset = true ∨ x.core.busCyc i.bus = false) (empty : (x.step mem i).outstanding = []) :
    Idle mem (x.step mem i) := by
  obtain ⟨delay, stall, sck, csN, ack⟩ := Registers.clock_stop true (x.flash.miso mem i.float)
    normal (strobe polite) stop
  have core : (x.step mem i).core = x.core.clock i.bus true (x.flash.miso mem i.float) := rfl
  rw [← core] at delay stall sck csN ack
  have none := unanswered ack
  exact ⟨Registers.cfgUserMode_clock normal polite.memory, delay, stall, sck, csN, answers_none none,
    by rw [Bench.remaining, none, empty]; rfl⟩

namespace Idle

/-- While the configuration port has the bus. -/
theorem lent (idle : Idle mem x) (polite : Polite x i) (owner : x.core.aOwner = false) : Idle mem (x.step mem i) := by
  have none : x.core.wbAck = false := by simp [Registers.wbAck, owner]
  have before : x.remaining = [] := idle.remaining
  have empty : (x.step mem i).outstanding = [] := by
    cases drops : i.drops with
    | true => exact outstanding_dropped drops
    | false => simp [outstanding_kept mem x drops, before, accepts, Registers.wbStall, owner]
  by_cases stop : i.bus.reset = true ∨ x.core.busCyc i.bus = false
  · exact idle_of_stop polite idle.normal stop empty
  · simp only [not_or, Bool.not_eq_true, Bool.not_eq_false] at stop
    have bus : x.core.busRequest i.bus = false := by simp [Registers.busRequest, Registers.memBusStb, owner]
    obtain ⟨delay, stall, sck, csN⟩ := Registers.clock_rest true (x.flash.miso mem i.float)
      stop.1 idle.normal stop.2 bus polite.memory idle.delay idle.csN
    have kept : (x.step mem i).core.aOwner = false := (Registers.aOwner_clock stop.2).trans owner
    have after : (x.step mem i).core.wbAck = false := by simp [Registers.wbAck, kept]
    exact ⟨Registers.cfgUserMode_clock idle.normal polite.memory, delay, stall, sck, csN, answers_none after,
      by rw [Bench.remaining, after, empty]; rfl⟩

/-- A write, which is acknowledged at once, or no request. -/
theorem rests (idle : Idle mem x) (polite : Polite x i) (owner : x.core.aOwner = true) (drops : i.drops = false)
    (bus : x.core.busRequest i.bus = false) : Idle mem (x.step mem i) := by
  have running : i.bus.reset = false ∧ i.bus.wb.cyc = true := by simpa [Clock.drops] using drops
  have cyc : x.core.busCyc i.bus = true := by simp [Registers.busCyc, Registers.owner, owner, running.2]
  obtain ⟨delay, stall, sck, csN⟩ := Registers.clock_rest true (x.flash.miso mem i.float)
    running.1 idle.normal cyc bus polite.memory idle.delay idle.csN
  have kept : (x.step mem i).core.aOwner = true := (Registers.aOwner_clock cyc).trans owner
  have ack : (x.step mem i).core.wbAck = i.bus.wb.stb := by
    rw [Registers.wbAck, kept, if_pos rfl]
    cases stb : i.bus.wb.stb <;>
      simp [step, Registers.clock, running.1, idle.delay, idle.stall, Registers.busStb, Registers.cfgBusStb,
        Registers.owner, owner, stb, bus]
  have outstanding := outstanding_kept mem x drops
  rw [idle.remaining, List.map_nil, List.nil_append] at outstanding
  refine ⟨Registers.cfgUserMode_clock idle.normal polite.memory, delay, stall, sck, csN, ?_, ?_⟩
  · intro acked
    have stb := ack.symm.trans acked
    have we : i.bus.wb.we = true := by
      by_contra read
      have request := Registers.busRequest_iff.mpr ⟨owner, stb, idle.stall, by simpa using read⟩
      exact absurd (bus.symm.trans request) (by decide)
    have taken : x.accepts i = true := by
      simp [accepts, stb, Registers.wbStall, owner, idle.stall, drops]
    rw [taken, if_pos rfl] at outstanding
    refine ⟨_, by rw [Bench.remaining, acked, outstanding]; rfl, by simp, ?_⟩
    simp [we]
  · cases stb : i.bus.wb.stb with
    | false => simp [Bench.remaining, ack, outstanding, accepts, stb]
    | true => cases taken : x.accepts i <;> simp [Bench.remaining, ack, outstanding, stb, taken]

/-- A read begins. -/
theorem begins (idle : Idle mem x) (polite : Polite x i) (drops : i.drops = false)
    (bus : x.core.busRequest i.bus = true) : Reading mem i.bus.wbAddr 65 (x.step mem i) := by
  obtain ⟨owner, stb, free, we⟩ := Registers.busRequest_iff.mp bus
  have running : i.bus.reset = false ∧ i.bus.wb.cyc = true := by simpa [Clock.drops] using drops
  have cyc : x.core.busCyc i.bus = true := by simp [Registers.busCyc, Registers.owner, owner, running.2]
  obtain ⟨delay, stall, sck, csN, ack, pipe, next, actual⟩ := Registers.clock_request
    (x.flash.miso mem i.float) running.1 cyc bus
  have core : (x.step mem i).core = x.core.clock i.bus true (x.flash.miso mem i.float) := rfl
  rw [← core] at delay stall sck csN ack pipe next actual
  rw [idle.csN, if_pos rfl] at delay
  rw [idle.sck] at actual
  rw [idle.delay] at ack
  have taken : x.accepts i = true := by simp [accepts, stb, Registers.wbStall, owner, free, drops]
  have outstanding := outstanding_kept mem x drops
  rw [idle.remaining, taken, we, if_pos rfl] at outstanding
  have none := unanswered ack
  constructor
  case normal => exact Registers.cfgUserMode_clock idle.normal polite.memory
  case delay => exact delay
  case positive => decide
  case bound => decide
  case owner => exact (Registers.aOwner_clock cyc).trans owner
  case csN => exact csN
  case sck => rw [sck]; rfl
  case stall => exact fun low => absurd (stall.symm.trans low) (by decide)
  case pin => exact idle.sck
  case actual => exact actual
  case next => exact next
  case last => simp [step, taken, we]
  case sends =>
    intro _
    have selected : (x.step mem i).flash = ⟨0, 0⟩ := by simp [step, Flash.step, idle.csN]
    rw [selected, pipe]
    exact Sends.select i.bus.wbAddr
  case streams => exact fun late => absurd late (by decide)
  case answers => exact answers_none none
  case remaining => exact ⟨0, by decide, by rw [Bench.remaining, none, outstanding]; rfl⟩

end Idle

namespace Reading

variable {a : BitVec 22} {d : Nat}

theorem flash_step (reading : Reading mem a d x) :
    (x.step mem i).flash = x.flash.step false (decide (d ≤ 64)) (x.core.wdataPipe.getLsbD 32) := by
  simp [step, Registers.spiMosi, reading.csN, reading.pin]

/-- The word takes another clock. -/
theorem counts (reading : Reading mem a d x) (polite : Polite x i) (drops : i.drops = false) (more : 1 < d) :
    Reading mem a (d - 1) (x.step mem i) := by
  have running : i.bus.reset = false ∧ i.bus.wb.cyc = true := by simpa [Clock.drops] using drops
  have cyc : x.core.busCyc i.bus = true := by simp [Registers.busCyc, Registers.owner, reading.owner, running.2]
  have stalled : x.core.busStall = true := by
    by_contra free
    have := (reading.stall (by simpa using free)).1
    omega
  have wait : x.core.wbStall = true := by simp [Registers.wbStall, reading.owner, stalled]
  obtain ⟨delay, stall, sck, csN, ack, pipe, next, actual⟩ := Registers.clock_counts
    (x.flash.miso mem i.float) running.1 reading.normal cyc stalled (by rw [reading.delay]; omega)
  have core : (x.step mem i).core = x.core.clock i.bus true (x.flash.miso mem i.float) := rfl
  have shifts := Registers.wbData_clock i.bus true (x.flash.miso mem i.float) reading.normal
  rw [← core] at delay stall sck csN ack pipe next actual shifts
  rw [reading.delay] at delay stall sck csN ack
  have clocking : x.core.spiSck = true := by rw [reading.sck, decide_eq_true more]; rfl
  have silent : (x.step mem i).core.busAck = false := by rw [ack]; exact decide_eq_false (by omega)
  have none := unanswered silent
  obtain ⟨age, young, rest⟩ := reading.remaining
  have outstanding := outstanding_kept mem x drops
  have taken : x.accepts i = false := by simp [accepts, wait]
  rw [rest, taken] at outstanding
  constructor
  case normal => exact Registers.cfgUserMode_clock reading.normal polite.memory
  case delay => exact delay
  case positive => omega
  case bound => have := reading.bound; omega
  case owner => exact (Registers.aOwner_clock cyc).trans reading.owner
  case csN => rw [csN, reading.csN]; simp; omega
  case sck =>
    have early : decide (1 < d - 1) = decide (2 < d) := decide_eq_decide.mpr (by omega)
    rw [sck, stall, early, decide_eq_true more]
    simp
  case stall =>
    -- Only the last clock but one lets the next request in, and only for the word that follows.
    intro free
    rw [stall, decide_eq_true more, Bool.and_true, Bool.not_eq_false', Bool.and_eq_true, decide_eq_true_eq] at free
    obtain ⟨follows, two⟩ := free
    simp only [Registers.nextRequest, Registers.memBusStb, Registers.busStb, Registers.busWe, Registers.owner,
      reading.owner, reading.next, Bool.and_eq_true, Bool.not_eq_true', beq_iff_eq] at follows
    refine ⟨by omega, ?_⟩
    simp_all [step]
  case pin => rw [decide_eq_true (by have := reading.bound; omega)]; exact clocking
  case actual => rw [actual, clocking, decide_eq_true (by have := reading.bound; omega)]
  case next => rw [next, reading.next]
  case last => simpa [step, taken] using reading.last
  case sends =>
    intro sending
    have sends := reading.sends (by omega)
    rw [pipe, reading.flash_step]
    by_cases first : d = 65
    · subst first
      exact sends.first
    · have early : d ≤ 64 := by have := reading.bound; omega
      rw [decide_eq_true early]
      exact sends.step (by omega) early
  case streams =>
    -- The flash has the whole address after 32 of the 64 clocks and sends the word in the others.
    intro late
    have early : d ≤ 64 := by omega
    rw [reading.flash_step, decide_eq_true early]
    by_cases first : d = 33
    · subst first
      exact (reading.sends (by decide)).last mem _
    · rw [shifts, reading.actual, decide_eq_true early, if_pos rfl]
      exact (reading.streams (by omega)).step more (by omega) i.float _
  case answers => exact answers_none none
  case remaining => exact ⟨age + 1, by omega, by rw [Bench.remaining, none, outstanding]; rfl⟩

/-- With the last bit comes the acknowledgement. -/
theorem answered (reading : Reading mem a 1 x) (drops : i.drops = false) (cyc : x.core.busCyc i.bus = true)
    (ack : (x.step mem i).core.busAck = true) {more : List Request}
    (taken : (if x.accepts i then [⟨i.bus.wb.we, i.bus.wbAddr, 0⟩] else []) = more) :
    Answers mem (x.step mem i) ∧ (x.step mem i).remaining = more := by
  obtain ⟨age, young, rest⟩ := reading.remaining
  have outstanding := outstanding_kept mem x drops
  rw [rest, taken] at outstanding
  have owner : (x.step mem i).core.aOwner = true := (Registers.aOwner_clock cyc).trans reading.owner
  have acked : (x.step mem i).core.wbAck = true := by rw [Registers.wbAck, owner, ack]; rfl
  have remaining : (x.step mem i).remaining = more := by rw [Bench.remaining, acked, outstanding]; rfl
  refine ⟨fun _ => ⟨⟨false, a, age + 1⟩, by rw [remaining, outstanding]; rfl, young, fun _ => ?_⟩, remaining⟩
  have shifts := Registers.wbData_clock i.bus true (x.flash.miso mem i.float) reading.normal
  rw [reading.actual] at shifts
  exact shifts.trans ((reading.streams (by decide)).complete i.float)

/-- The last bit comes in, and no read of the next word waits. -/
theorem ends (reading : Reading mem a 1 x) (polite : Polite x i) (drops : i.drops = false)
    (stalled : x.core.busStall = true) : Idle mem (x.step mem i) := by
  have running : i.bus.reset = false ∧ i.bus.wb.cyc = true := by simpa [Clock.drops] using drops
  have cyc : x.core.busCyc i.bus = true := by simp [Registers.busCyc, Registers.owner, reading.owner, running.2]
  obtain ⟨delay, stall, sck, csN, ack, -⟩ := Registers.clock_counts
    (x.flash.miso mem i.float) running.1 reading.normal cyc stalled (by rw [reading.delay]; decide)
  have core : (x.step mem i).core = x.core.clock i.bus true (x.flash.miso mem i.float) := rfl
  rw [← core] at delay stall sck csN ack
  rw [reading.delay] at delay stall sck csN ack
  have wait : x.core.wbStall = true := by simp [Registers.wbStall, reading.owner, stalled]
  obtain ⟨answers, remaining⟩ := reading.answered drops cyc ack (if_neg (by simp [accepts, wait]))
  exact ⟨Registers.cfgUserMode_clock reading.normal polite.memory, delay, by rw [stall]; simp, by rw [sck]; simp,
    by rw [csN]; rfl, answers, remaining⟩

/-- The last bit comes in, and a read of the next word is accepted. -/
theorem goes_on (reading : Reading mem a 1 x) (polite : Polite x i) (drops : i.drops = false)
    (free : x.core.busStall = false) : Reading mem (a + 1) 32 (x.step mem i) := by
  have running : i.bus.reset = false ∧ i.bus.wb.cyc = true := by simpa [Clock.drops] using drops
  have cyc : x.core.busCyc i.bus = true := by simp [Registers.busCyc, Registers.owner, reading.owner, running.2]
  obtain ⟨stb, same⟩ := polite.waits _ (reading.stall free).2 drops
  obtain ⟨we, addr⟩ := Prod.mk.inj same
  have bus := Registers.busRequest_iff.mpr ⟨reading.owner, stb, free, we⟩
  obtain ⟨delay, stall, sck, csN, ack, pipe, next, actual⟩ := Registers.clock_request
    (x.flash.miso mem i.float) running.1 cyc bus
  have core : (x.step mem i).core = x.core.clock i.bus true (x.flash.miso mem i.float) := rfl
  rw [← core] at delay stall sck csN ack pipe next actual
  rw [reading.csN, if_neg (by decide)] at delay
  rw [reading.delay] at ack
  have clocking : x.core.spiSck = true := by rw [reading.sck, free]; rfl
  have taken : x.accepts i = true := by simp [accepts, stb, Registers.wbStall, reading.owner, free, drops]
  have entry : (if x.accepts i then [⟨i.bus.wb.we, i.bus.wbAddr, 0⟩] else []) = [(⟨false, a + 1, 0⟩ : Request)] := by
    rw [taken, we, addr]
    rfl
  obtain ⟨answers, remaining⟩ := reading.answered drops cyc ack entry
  constructor
  case normal => exact Registers.cfgUserMode_clock reading.normal polite.memory
  case delay => exact delay
  case positive => decide
  case bound => decide
  case owner => exact (Registers.aOwner_clock cyc).trans reading.owner
  case csN => exact csN
  case sck => rw [sck]; rfl
  case stall => exact fun low => absurd (stall.symm.trans low) (by decide)
  case pin => exact clocking
  case actual => rw [actual, clocking]; rfl
  case next => rw [next, addr]
  case last => simp [step, taken, we, addr]
  case sends => exact fun sending => absurd sending (by decide)
  case streams =>
    intro _
    rw [reading.flash_step]
    exact (reading.streams (by decide)).next _ _
  case answers => exact answers
  case remaining => exact ⟨0, by decide, remaining⟩

end Reading

/-- What holds in every clock of a run. -/
def Sound (mem : Memory) (x : Bench) : Prop := Idle mem x ∨ ∃ a d, Reading mem a d x

theorem Sound.step (sound : Sound mem x) (polite : Polite x i) : Sound mem (x.step mem i) := by
  rcases sound with idle | ⟨a, d, reading⟩
  · cases owner : x.core.aOwner with
    | false => exact .inl (idle.lent polite owner)
    | true =>
      cases drops : i.drops with
      | true =>
        refine .inl (idle_of_stop polite idle.normal ?_ (outstanding_dropped drops))
        simpa [Clock.drops, Registers.busCyc, Registers.owner, owner] using drops
      | false =>
        cases bus : x.core.busRequest i.bus with
        | false => exact .inl (idle.rests polite owner drops bus)
        | true => exact .inr ⟨_, _, idle.begins polite drops bus⟩
  · cases drops : i.drops with
    | true =>
      refine .inl (idle_of_stop polite reading.normal ?_ (outstanding_dropped drops))
      simpa [Clock.drops, Registers.busCyc, Registers.owner, reading.owner] using drops
    | false =>
      by_cases more : 1 < d
      · exact .inr ⟨a, d - 1, reading.counts polite drops more⟩
      · have one : d = 1 := by have := reading.positive; omega
        subst one
        cases stall : x.core.busStall with
        | true => exact .inl (reading.ends polite drops stall)
        | false => exact .inr ⟨_, _, reading.goes_on polite drops stall⟩

theorem Sound.shows (sound : Sound mem x) (polite : Polite x i) : Serves mem x i := by
  have answers : Answers mem x := by
    rcases sound with idle | ⟨a, d, reading⟩
    · exact idle.answers
    · exact reading.answers
  have young : ∀ r ∈ x.remaining, r.age ≤ 65 := by
    rcases sound with idle | ⟨a, d, reading⟩
    · simp [idle.remaining]
    · obtain ⟨age, young, rest⟩ := reading.remaining
      have := reading.positive
      intro r member
      rw [rest, List.mem_singleton] at member
      subst member
      simp only
      omega
  constructor
  case answers =>
    intro ack
    obtain ⟨r, split, -, data⟩ := answers ack
    exact ⟨r, _, split, data⟩
  case prompt =>
    intro r member
    cases ack : x.core.wbAck with
    | false =>
      refine young r ?_
      simpa [remaining, ack] using member
    | true =>
      obtain ⟨first, split, early, -⟩ := answers ack
      rw [split] at member
      rcases List.mem_cons.mp member with rfl | later
      · exact early
      · exact young r later
  case released =>
    intro bus drops low
    obtain ⟨-, -, free, -⟩ := Registers.busRequest_iff.mp bus
    rcases sound with idle | ⟨a, d, reading⟩
    · exact absurd (idle.csN.symm.trans low) (by decide)
    · obtain ⟨-, same⟩ := polite.waits _ (reading.stall free).2 drops
      exact ⟨a, reading.last, (Prod.mk.inj same).2⟩

end

theorem sound_powerUp (mem : Memory) (free : Registers) (flash : Flash) : Sound mem (powerUp free flash) :=
  .inl ⟨rfl, rfl, rfl, rfl, rfl, answers_none rfl, rfl⟩

/-- In every clock of a run an acknowledgement is for the oldest request that has been accepted and neither
acknowledged nor dropped, a read gets the word at its address, every request is acknowledged after at most 65
clocks, and chip select is released between reads that do not follow each other, whatever the addresses, the
gaps and the clocks in which cycles are dropped. -/
theorem reads_served (mem : Memory) (free : Registers) (flash : Flash) (is : List Clock) (next : Clock)
    (polite : Clocked.Always (step mem) Polite (powerUp free flash) (is ++ [next])) :
    Serves mem (Clocked.run (step mem) (powerUp free flash) is) next := by
  obtain ⟨before, now, -⟩ := (Clocked.always_append _ _ is [next]).mp polite
  have kept (x : Bench) (i : Clock) (sound : Sound mem x) (polite : Polite x i) : Sound mem (x.step mem i) :=
    sound.step polite
  exact (Clocked.run_invariant kept (sound_powerUp mem free flash) before).shows now

def blank : Registers := ⟨true, false, false, 0, true, false, false, 0, 0, false, 0, false⟩

/-- A clock of a cycle of the memory port. -/
def waiting : Clock := ⟨⟨false, ⟨true, false, false, 0⟩, 0, ⟨false, false, false, 0⟩⟩, false⟩

/-- A read of the memory port. -/
def reading (a : BitVec 22) : Clock :=
  { waiting with bus := { waiting.bus with wb := ⟨true, true, false, 0⟩, wbAddr := a } }

/-- Two reads in a row, a read of another word, and the end of the cycle before its word is there. -/
def threeReads : List Clock :=
  reading 5 :: List.replicate 65 (reading 6) ++ List.replicate 40 (reading 9) ++
    [{ waiting with bus := { waiting.bus with wb := ⟨false, false, false, 0⟩ } }]

/-- A flash whose bytes are the low bits of their addresses. -/
def ramp : Memory := fun a => a.setWidth 8

theorem reads_served_three : Serves ramp (Clocked.run (step ramp) (powerUp blank ⟨0, 0⟩) threeReads) waiting :=
  reads_served ramp blank ⟨0, 0⟩ threeReads waiting (by decide +kernel)

end Bench

end IcoZip.Spixpress
