import Mathlib.Data.BitVec
import Mathlib.Logic.Function.Basic

/-! The recording side of `wbscopc` in its synchronous build: one clock for the
bus and the data, 31 bits of data.

A sample comes in at every clock with `i_ce`. What goes to the memory are data
words and, for samples that repeat the one before, the length of the run. The
reading side of the bus is left out.
-/

set_option autoImplicit false

namespace IcoZip.Wbscopc

structure Inputs where
  ce : Bool
  trigger : Bool
  data : BitVec 31
  wbStb : Bool
  wbWe : Bool
  wbAddr : Bool
  wbData : BitVec 32
  deriving DecidableEq, Repr

def Inputs.writeToControl (i : Inputs) : Bool := i.wbStb && i.wbWe && !i.wbAddr

/-- A memory of `2 ^ lgmem` words. -/
structure Registers (lgmem : Nat) where
  brConfig : BitVec 3
  brHoldoff : BitVec 20
  drTriggered : Bool
  drPrimed : Bool
  drStopped : Bool
  holdoffCounter : BitVec 20
  drStopPipe : BitVec 5
  drForceWrite : Bool
  drForceInhibit : Bool
  ckAddr : BitVec 31
  drRunTimeout : Bool
  newData : Bool
  qdData : BitVec 31
  immVal : BitVec 31
  immAdr : Bool
  lstVal : BitVec 31
  lstAdr : Bool
  recordCe : Bool
  rData : BitVec 32
  waddr : BitVec lgmem
  mem : BitVec lgmem → BitVec 32

namespace Registers

variable {lgmem : Nat}

/-- The `initial` values, `br_holdoff` apart; registers without one keep what `free` has. -/
def powerUp (free : Registers lgmem) : Registers lgmem :=
  { free with
    brConfig := 0
    drTriggered := false
    drPrimed := false
    drStopped := false
    holdoffCounter := 0
    ckAddr := 0
    drForceWrite := false
    immAdr := true
    lstAdr := true
    recordCe := false
    waddr := 0 }

variable (s : Registers lgmem) (i : Inputs)

def dwReset : Bool := !s.brConfig.getLsbD 2

def dwManualTrigger : Bool := s.brConfig.getLsbD 1

def dwDisableTrigger : Bool := s.brConfig.getLsbD 0

def dwTrigger : Bool := s.drPrimed && (i.trigger && !s.dwDisableTrigger || s.dwManualTrigger)

/-- The next word is data, and the run starts anew. -/
def restarts : Bool := s.newData || s.drForceWrite || s.drStopped

/-- Not two addresses in a row. -/
def apart : Bool := !s.lstAdr || !s.immAdr

/-- `br_config[2]`; a reset request is pending for one clock. -/
def resetRequest : Bool :=
  if s.dwReset then true
  else if !s.brConfig.getLsbD 2 then false
  else if i.writeToControl && !i.wbData.getLsbD 31 then false
  else s.brConfig.getLsbD 2

/-- One clock. A run is cut after `maxStep` (`MAX_STEP`) samples. -/
def clock (maxStep : BitVec 31) : Registers lgmem where
  brConfig :=
    BitVec.ofBool (s.resetRequest i) ++
      if i.writeToControl then BitVec.ofBool (i.wbData.getLsbD 27) ++ BitVec.ofBool (i.wbData.getLsbD 26)
      else s.brConfig.extractLsb' 0 2
  brHoldoff :=
    if i.writeToControl && (!i.wbData.getLsbD 31 && s.brConfig.getLsbD 2) then i.wbData.extractLsb' 0 20
    else s.brHoldoff
  drTriggered := if s.dwReset then false else if i.ce && s.dwTrigger i then true else s.drTriggered
  holdoffCounter :=
    if s.dwReset then 0
    else if i.ce && s.drTriggered && !s.drStopped then s.holdoffCounter + 1
    else s.holdoffCounter
  drStopped :=
    if !s.drTriggered || s.dwReset then false
    else if i.ce && !s.drStopped then decide (s.brHoldoff ≤ s.holdoffCounter)
    else s.drStopped
  drStopPipe :=
    if s.dwReset then 0
    else if i.ce then s.drStopPipe.extractLsb' 0 4 ++ BitVec.ofBool s.drStopped
    else s.drStopPipe
  drForceInhibit := if s.dwReset then false else if i.ce then s.drForceWrite else s.drForceInhibit
  drForceWrite :=
    if s.dwReset then true
    else if i.ce then
      if s.drRunTimeout && !s.drForceWrite && !s.drForceInhibit then true
      else s.dwTrigger i && !s.drTriggered || !s.drPrimed
    else s.drForceWrite
  ckAddr := if s.dwReset then 0 else if i.ce then if s.restarts then 0 else s.ckAddr + 1 else s.ckAddr
  drRunTimeout :=
    if s.dwReset then true else if i.ce then decide (maxStep - 1 ≤ s.ckAddr) else s.drRunTimeout
  newData := if s.dwReset then true else if i.ce then i.data != s.qdData else s.newData
  qdData := if i.ce then i.data else s.qdData
  immVal := if s.dwReset then 0 else if i.ce then if s.restarts then s.qdData else s.ckAddr else s.immVal
  immAdr := if s.dwReset then true else if i.ce then !s.restarts else s.immAdr
  lstVal := if s.dwReset then 0 else if i.ce then s.immVal else s.lstVal
  lstAdr := if s.dwReset then true else if i.ce then s.immAdr else s.lstAdr
  recordCe := i.ce && s.apart && !s.drStopPipe.getLsbD 2
  rData := if s.apart then BitVec.ofBool s.lstAdr ++ s.lstVal else 0#1 ++ s.qdData
  waddr := if s.dwReset then 0 else if s.recordCe then s.waddr + 1 else s.waddr
  drPrimed :=
    if s.dwReset then false
    else if s.recordCe then s.drPrimed || s.waddr == BitVec.allOnes lgmem
    else s.drPrimed
  mem := if s.recordCe then Function.update s.mem s.waddr s.rData else s.mem

end Registers

end IcoZip.Wbscopc
