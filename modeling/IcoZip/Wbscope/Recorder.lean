import IcoZip.Library.Clocked
import Mathlib.Data.BitVec
import Mathlib.Logic.Function.Basic

/-! `wbscope` in its synchronous build: one clock for the bus and the data,
32 bits of data, `HOLDOFFBITS` = 20.

Every sample goes to the memory, one sample behind. The interrupt is left out.
-/

set_option autoImplicit false

namespace IcoZip.Wbscope

structure Inputs where
  ce : Bool
  trigger : Bool
  data : BitVec 32
  wbCyc : Bool
  wbStb : Bool
  wbWe : Bool
  wbAddr : Bool
  wbData : BitVec 32
  deriving DecidableEq, Repr

namespace Inputs

variable (i : Inputs)

def readFromData : Bool := i.wbStb && !i.wbWe && i.wbAddr

def writeToControl : Bool := i.wbStb && i.wbWe && !i.wbAddr

end Inputs

/-- A memory of `2 ^ lgmem` words. -/
structure Registers (lgmem : Nat) where
  brConfig : BitVec 3
  brHoldoff : BitVec 20
  drTriggered : Bool
  counter : BitVec 20
  drStopped : Bool
  waddr : BitVec lgmem
  drPrimed : Bool
  dataPipe : BitVec 32
  mem : BitVec lgmem → BitVec 32
  raddr : BitVec lgmem
  thisAddr : BitVec lgmem
  nxtMem : BitVec 32
  readAddress : Bool
  busData : BitVec 32
  brPreWbAck : Bool
  brWbAck : Bool

namespace Registers

variable {lgmem : Nat}

/-- The `initial` values, `DEFAULT_HOLDOFF` included; registers without one keep what `free` has. -/
def powerUp (free : Registers lgmem) : Registers lgmem :=
  { free with
    brConfig := 0
    brHoldoff := BitVec.ofNat 20 (2 ^ (lgmem - 1)) - 4
    drTriggered := false
    counter := 0
    drStopped := false
    waddr := 0
    drPrimed := false
    brPreWbAck := false
    brWbAck := false }

variable (s : Registers lgmem) (i : Inputs)

def dwReset : Bool := !s.brConfig.getLsbD 2

def dwManualTrigger : Bool := s.brConfig.getLsbD 1

def dwDisableTrigger : Bool := s.brConfig.getLsbD 0

def dwTrigger : Bool := s.drPrimed && (i.trigger && !s.dwDisableTrigger || s.dwManualTrigger)

/-- `br_config[2]`; a reset request is pending for one clock. -/
def resetRequest : Bool :=
  if s.dwReset then true
  else if !s.brConfig.getLsbD 2 then false
  else if i.writeToControl && !i.wbData.getLsbD 31 then false
  else s.brConfig.getLsbD 2

/-- What a control read shows of the configuration and the state. -/
def status : BitVec 32 :=
  BitVec.ofBool s.dwReset ++ (BitVec.ofBool s.drStopped ++ (BitVec.ofBool s.drTriggered ++
    (BitVec.ofBool s.drPrimed ++ (BitVec.ofBool s.dwManualTrigger ++ (BitVec.ofBool s.dwDisableTrigger ++
      (BitVec.ofBool (s.raddr == 0) ++ (BitVec.ofNat 5 lgmem ++ s.brHoldoff)))))))

def clock : Registers lgmem where
  brConfig :=
    BitVec.ofBool (s.resetRequest i) ++
      if i.writeToControl then BitVec.ofBool (i.wbData.getLsbD 27) ++ BitVec.ofBool (i.wbData.getLsbD 26)
      else s.brConfig.extractLsb' 0 2
  brHoldoff :=
    if i.writeToControl && (!i.wbData.getLsbD 31 && s.brConfig.getLsbD 2) then i.wbData.extractLsb' 0 20
    else s.brHoldoff
  drTriggered := if s.dwReset then false else if i.ce && s.dwTrigger i then true else s.drTriggered
  counter :=
    if s.dwReset then 0 else if i.ce && s.drTriggered && !s.drStopped then s.counter + 1 else s.counter
  -- unlike everything else here, not only at a sample
  drStopped :=
    if !s.drTriggered || s.dwReset then false
    else if !s.drStopped then decide (s.brHoldoff ≤ s.counter)
    else s.drStopped
  waddr := if s.dwReset then 0 else if i.ce && !s.drStopped then s.waddr + 1 else s.waddr
  drPrimed :=
    if s.dwReset then false
    else if i.ce && !s.drStopped then s.drPrimed || s.waddr == BitVec.allOnes lgmem
    else s.drPrimed
  dataPipe := if i.ce then i.data else s.dataPipe
  mem := if i.ce && !s.drStopped then Function.update s.mem s.waddr s.dataPipe else s.mem
  raddr :=
    if s.dwReset || i.writeToControl then 0
    else if i.readFromData && s.drStopped then s.raddr + 1
    else s.raddr
  thisAddr := if i.readFromData then s.raddr + s.waddr + 1 else s.raddr + s.waddr
  nxtMem := s.mem s.thisAddr
  readAddress := i.wbAddr
  busData := if !s.readAddress then s.status else if !s.drStopped then i.data else s.nxtMem
  brPreWbAck := i.wbStb
  brWbAck := s.brPreWbAck && i.wbCyc

/-- `o_wb_ack`; the data are on `o_wb_data` in the same clock. -/
def wbAck : Bool := i.wbCyc && s.brWbAck

/-- The memory in the order of its reads once the scope has stopped. -/
def window : List (BitVec 32) := (List.range (2 ^ lgmem)).map fun k => s.mem (s.waddr + BitVec.ofNat lgmem k)

end Registers

/-- The scope beside a record of what it has been given and what it has given back since the last reset. -/
structure Scope (lgmem : Nat) where
  core : Registers lgmem
  samples : List (BitVec 32)
  /-- The place of the trigger sample. -/
  trigger : Option Nat
  /-- Samples that have gone to the memory, with the one that the reset has found on its way. -/
  written : Nat
  /-- Data reads since the stop or the last write to the control register. -/
  reads : Nat
  /-- Whether such a read was begun one clock ago, and two clocks ago. -/
  begun : Bool
  due : Bool
  returned : List (BitVec 32)

namespace Scope

variable {lgmem : Nat}

def powerUp (free : Registers lgmem) : Scope lgmem := ⟨.powerUp free, [], none, 0, 0, false, false, []⟩

variable (x : Scope lgmem) (i : Inputs)

/-- The pointer of the reads goes back to the oldest sample. -/
def rewinds : Bool := x.core.dwReset || i.writeToControl

/-- A data read of the stopped memory. -/
def takes : Bool := i.readFromData && x.core.drStopped

def step : Scope lgmem where
  core := x.core.clock i
  samples := if x.core.dwReset then [] else if i.ce then x.samples ++ [i.data] else x.samples
  trigger :=
    if x.core.dwReset then none
    else if i.ce && x.core.dwTrigger i && x.trigger.isNone then some x.samples.length
    else x.trigger
  written := if x.core.dwReset then 0 else if i.ce && !x.core.drStopped then x.written + 1 else x.written
  reads := if x.rewinds i then 0 else if x.takes i then x.reads + 1 else x.reads
  begun := !x.rewinds i && x.takes i
  due := !x.rewinds i && x.begun
  returned :=
    if x.rewinds i then []
    else if x.due && x.core.wbAck i then x.returned ++ [x.core.busData]
    else x.returned

def run : List Inputs → Scope lgmem := Clocked.run step x

/-- The clock behind the last sample of the holdoff brings a sample, too. -/
def prompt : Prop :=
  x.core.drStopped = false → x.trigger.map (· + 1 + x.core.brHoldoff.toNat) = some x.samples.length → i.ce = true

instance : Decidable (x.prompt i) :=
  inferInstanceAs (Decidable (x.core.drStopped = false →
    x.trigger.map (· + 1 + x.core.brHoldoff.toNat) = some x.samples.length → i.ce = true))

/-- The master keeps its cycle up until its reads are answered. -/
def keeps : Prop := (i.wbStb || x.begun || x.due) = true → i.wbCyc = true

instance : Decidable (x.keeps i) := inferInstanceAs (Decidable ((i.wbStb || x.begun || x.due) = true → i.wbCyc = true))

end Scope

end IcoZip.Wbscope
