import Mathlib.Data.BitVec

/-! `spixpress` behind its arbiter, with the configuration port (`OPT_CFG`).

The clock pin of the flash is driven through a register (`oclkddr`): the flash
sees a clock one clock after `o_spi_sck`.
-/

set_option autoImplicit false

namespace IcoZip.Spixpress

/-- One of the two bus masters. -/
structure Port where
  cyc : Bool
  stb : Bool
  we : Bool
  data : BitVec 32
  deriving DecidableEq, Repr

structure Inputs where
  reset : Bool
  wb : Port
  wbAddr : BitVec 22
  cfg : Port
  deriving DecidableEq, Repr

structure Registers where
  /-- `r_a_owner` of the arbiter: the memory port has the bus. -/
  aOwner : Bool
  busStall : Bool
  busAck : Bool
  wbData : BitVec 32
  spiCsN : Bool
  spiSck : Bool
  cfgUserMode : Bool
  wdataPipe : BitVec 33
  ackDelay : Nat
  actualSck : Bool
  nextAddr : BitVec 22
  /-- The output register of the clock pin. -/
  pinSck : Bool
  deriving DecidableEq, Repr

namespace Registers

/-- The `initial` values; registers without one keep what `free` has. -/
def powerUp (free : Registers) : Registers :=
  { free with
    aOwner := true
    busStall := false
    busAck := false
    spiCsN := true
    spiSck := false
    cfgUserMode := false
    wdataPipe := 0
    ackDelay := 0
    actualSck := false }

variable (s : Registers) (i : Inputs)

/-! ### The arbiter -/

def owner : Port := if s.aOwner then i.wb else i.cfg

def busCyc : Bool := (s.owner i).cyc

def busStb : Bool := (s.owner i).stb

def busWe : Bool := (s.owner i).we

def busData : BitVec 32 := (s.owner i).data

/-- Both ports are wired to the address of the memory port. -/
def busAddr : BitVec 22 := i.wbAddr

def cfgBusStb : Bool := s.busStb i && !s.aOwner

def memBusStb : Bool := s.busStb i && s.aOwner

def wbStall : Bool := if s.aOwner then s.busStall else true

def wbAck : Bool := if s.aOwner then s.busAck else false

def cfgStall : Bool := if !s.aOwner then s.busStall else true

def cfgAck : Bool := if !s.aOwner then s.busAck else false

/-! ### The requests -/

def busRequest : Bool := s.memBusStb i && !s.busStall && !s.busWe i && !s.busStall

def nextRequest (optPipe : Bool) : Bool :=
  optPipe && s.memBusStb i && !s.busWe i && !s.cfgUserMode && i.wbAddr == s.nextAddr

def userRequest : Bool := s.cfgBusStb i && !s.busStall && s.busWe i && !(s.busData i).getLsbD 8

/-- A write of the configuration port is accepted. -/
def cfgWrite : Bool := s.cfgBusStb i && !s.busStall && s.busWe i

/-- `o_spi_mosi` -/
def spiMosi : Bool := s.wdataPipe.getLsbD 32

/-- The control port's bits above the byte. -/
def control : BitVec 24 := 0#19 ++ 1#1 ++ 0#4

/-- The low bits of `wdata_pipe`. -/
def pipeLow : BitVec 24 :=
  if !s.busStall then busAddr i ++ 0#2 else s.wdataPipe.extractLsb' 0 23 ++ 0#1

/-- The high bits of `wdata_pipe`. -/
def pipeHigh : BitVec 9 :=
  if s.memBusStb i && !s.busStall then 0#1 ++ 0x03#8
  else if !s.busStall then 0#1 ++ i.cfg.data.extractLsb' 0 8
  else s.wdataPipe.extractLsb' 23 9

/-- One clock, while the data pin reads `miso`. -/
def clock (optPipe : Bool) (miso : Bool) : Registers where
  aOwner := if !i.cfg.cyc then true else if i.cfg.stb && !i.wb.cyc then false else s.aOwner
  ackDelay :=
    if i.reset || !s.busCyc i then 0
    else if s.busRequest i then if s.spiCsN || !optPipe then 65 else 32
    else if s.userRequest i then 9
    else if s.ackDelay ≠ 0 then s.ackDelay - 1
    else s.ackDelay
  wdataPipe := s.pipeHigh i ++ s.pipeLow i
  busAck :=
    if i.reset then false
    else if s.ackDelay = 1 then s.busCyc i
    else if s.busStb i && !s.busStall && !s.busRequest i then true
    else s.cfgBusStb i && !s.busStall && !s.userRequest i
  cfgUserMode :=
    if i.reset then false
    else if s.cfgBusStb i && !s.busStall && s.busWe i then !i.cfg.data.getLsbD 8
    else s.cfgUserMode
  actualSck := if i.reset || !s.busCyc i then false else s.spiSck
  wbData :=
    if s.cfgUserMode then
      control ++ if s.actualSck then s.wbData.extractLsb' 0 7 ++ BitVec.ofBool miso else s.wbData.extractLsb' 0 8
    else if s.actualSck then s.wbData.extractLsb' 0 31 ++ BitVec.ofBool miso
    else s.wbData
  spiCsN :=
    if i.reset then true
    else if !s.busCyc i && !s.cfgUserMode then true
    else if s.busRequest i then false
    else if s.cfgBusStb i && !s.busStall && s.busWe i then (s.busData i).getLsbD 8
    else if s.cfgUserMode then false
    else if s.ackDelay = 1 && !s.cfgUserMode then true
    else s.spiCsN
  spiSck :=
    if i.reset then false
    else if s.busRequest i || s.userRequest i then true
    else if s.busCyc i && s.ackDelay > 2 then true
    else s.nextRequest i optPipe && s.ackDelay = 2
  busStall :=
    if i.reset || !s.busCyc i then false
    else if s.busRequest i || s.userRequest i then true
    else if s.nextRequest i optPipe && s.ackDelay = 2 then false
    else s.ackDelay > 1
  nextAddr := if optPipe then if !s.busStall then i.wbAddr + 1 else s.nextAddr else 0
  pinSck := s.spiSck

section
variable {s : Registers} {i : Inputs} {optPipe miso : Bool}

theorem shift_parts (pipe : BitVec 33) :
    pipe.extractLsb' 23 9 ++ (pipe.extractLsb' 0 23 ++ 0#1) = pipe <<< (1 : Nat) := by
  apply BitVec.eq_of_getLsbD_eq
  intro j small
  rw [BitVec.getLsbD_append, BitVec.getLsbD_append, BitVec.getLsbD_shiftLeft]
  rcases j with - | j
  · simp
  · by_cases low : j < 23
    · have inside : j + 1 < 24 ∧ j + 1 < 33 := by omega
      simp [low, inside.1, inside.2]
    · have place : 23 + (j - 23) = j := by omega
      have inside : ¬ j + 1 < 24 ∧ j - 23 < 9 ∧ j + 1 < 33 := by omega
      simp [place, inside.1, inside.2.1, inside.2.2]

theorem pipe_shift (stall : s.busStall = true) : (s.clock i optPipe miso).wdataPipe = s.wdataPipe <<< (1 : Nat) := by
  simp only [clock, pipeHigh, pipeLow, stall, Bool.not_true, Bool.and_false, Bool.false_eq_true, if_false]
  exact shift_parts s.wdataPipe

theorem busRequest_iff : s.busRequest i = true ↔
    s.aOwner = true ∧ i.wb.stb = true ∧ s.busStall = false ∧ i.wb.we = false := by
  cases owner : s.aOwner <;> simp [busRequest, memBusStb, busStb, busWe, Registers.owner, owner]
  tauto

/-- The owner keeps the bus as long as its cycle lasts. -/
theorem aOwner_clock (cyc : s.busCyc i = true) : (s.clock i optPipe miso).aOwner = s.aOwner := by
  cases owner : s.aOwner <;> simp_all [clock, busCyc, Registers.owner]

end

end Registers

end IcoZip.Spixpress
