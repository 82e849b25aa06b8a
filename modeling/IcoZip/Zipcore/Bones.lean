import IcoZip.Zipcore.Core

/-! `zipbones`: the debug port around the core.

What the fetch unit and the memory unit answer comes in with every clock. The
port's registers are stepped with the core's outputs, so that what holds of
the port alone can be said for any core.
-/

set_option autoImplicit false

namespace IcoZip.Zipcore

/-- The debug port's registers. -/
structure Port where
  resetCounter : BitVec 4
  resetHold : Bool
  cmdReset : Bool
  cmdHalt : Bool
  cmdStep : Bool
  cmdClearCache : Bool
  cmdWrite : Bool
  cmdWaddr : BitVec 5
  cmdWdata : BitVec 32
  dbgPreAddr : Bool
  dbgPreAck : Bool
  dbgAck : Bool
  dbgOdata : BitVec 32
  dbgCpuStatus : BitVec 32
  deriving DecidableEq, Repr

namespace Port

/-- What comes in over the debug bus. -/
structure Inputs where
  reset : Bool
  dbgCyc : Bool
  dbgStb : Bool
  dbgWe : Bool
  dbgAddr : BitVec 6
  dbgData : BitVec 32
  dbgSel : BitVec 4
  extInt : Bool
  deriving DecidableEq, Repr

/-- What the port sees of the core. -/
structure Cpu where
  dbgStall : Bool
  break_ : Bool
  dbgData : BitVec 32
  dbgCc : BitVec 3
  deriving DecidableEq, Repr

abbrev RESET_BIT : Nat := 6

abbrev STEP_BIT : Nat := 8

abbrev HALT_BIT : Nat := 10

abbrev CLEAR_CACHE_BIT : Nat := 11

abbrev RESET_DURATION : BitVec 4 := 10

variable (startHalted : Bool) (s : Port) (i : Inputs) (cpu : Cpu)

def dbgCmdWrite : Bool := i.dbgStb && i.dbgWe && i.dbgAddr.getLsbD 5

/-- A write to a register of the core. -/
def regWrite : Bool := i.dbgStb && i.dbgWe && !i.dbgAddr.getLsbD 5

def oDbgStall : Bool := s.resetHold || s.cmdWrite && cpu.dbgStall && i.dbgWe && !i.dbgAddr.getLsbD 5

/-- A command to go on, which is heard only where the core has come to a full stop. -/
def releases : Bool :=
  !s.cmdWrite && !cpu.dbgStall && dbgCmdWrite i && (!i.dbgData.getLsbD HALT_BIT || i.dbgData.getLsbD STEP_BIT)

/-- The reasons to halt. -/
def halts : Bool :=
  cpu.break_ && startHalted || dbgCmdWrite i && i.dbgData.getLsbD HALT_BIT && !i.dbgData.getLsbD STEP_BIT ||
    regWrite i || s.cmdStep || s.cmdClearCache || dbgCmdWrite i && i.dbgData.getLsbD CLEAR_CACHE_BIT

def nextCmdHalt : Bool :=
  if i.reset then startHalted
  else if s.cmdReset && startHalted then startHalted
  else if s.halts startHalted i cpu then true
  else if s.releases i cpu then false
  else s.cmdHalt

def nextCmdReset : Bool :=
  if i.reset then true
  else if s.resetHold then true
  else if cpu.break_ && !startHalted then true
  else dbgCmdWrite i && i.dbgData.getLsbD RESET_BIT

def nextCmdClearCache : Bool :=
  if i.reset || s.cmdReset then false
  else if dbgCmdWrite i && i.dbgData.getLsbD CLEAR_CACHE_BIT && i.dbgData.getLsbD HALT_BIT then true
  else if s.cmdHalt && !cpu.dbgStall then false
  else s.cmdClearCache

def nextCmdStep : Bool :=
  if i.reset then false
  else if dbgCmdWrite i && i.dbgData.getLsbD STEP_BIT then true
  else if !cpu.dbgStall then false
  else s.cmdStep

/-- There is room for a write, or there will be. -/
def takesWrite : Bool := !s.cmdWrite || !cpu.dbgStall

def cpuStatus : BitVec 32 :=
  0#15 ++ BitVec.ofBool i.extInt ++ BitVec.ofBool cpu.break_ ++ cpu.dbgCc ++ 0b0#1 ++ BitVec.ofBool s.cmdHalt ++
    BitVec.ofBool (!cpu.dbgStall) ++ 0b0#1 ++ BitVec.ofBool i.extInt ++ BitVec.ofBool s.cmdReset ++ 0#6

/-- One clock of the debug port of `zipbones`. -/
def clock : Port where
  resetCounter :=
    if i.reset then RESET_DURATION else if s.resetCounter ≠ 0 then s.resetCounter - 1 else s.resetCounter
  resetHold := i.reset || 1#4 < s.resetCounter
  cmdReset := s.nextCmdReset startHalted i cpu
  cmdHalt := s.nextCmdHalt startHalted i cpu
  cmdStep := s.nextCmdStep i cpu
  cmdClearCache := s.nextCmdClearCache i cpu
  cmdWrite :=
    if i.reset then false else if s.takesWrite cpu then regWrite i && i.dbgSel != 0 else s.cmdWrite
  cmdWaddr := if s.takesWrite cpu && regWrite i then i.dbgAddr.extractLsb' 0 5 else s.cmdWaddr
  cmdWdata := if s.takesWrite cpu && regWrite i then i.dbgData else s.cmdWdata
  dbgPreAddr := i.dbgAddr.getLsbD 5
  dbgCpuStatus := s.cpuStatus i cpu
  dbgPreAck := !(i.reset || !i.dbgCyc) && (i.dbgStb && !s.oDbgStall i cpu)
  dbgAck := !(i.reset || !i.dbgCyc) && s.dbgPreAck
  dbgOdata := if s.dbgPreAddr then s.dbgCpuStatus else cpu.dbgData

/-- The registers as they come up. -/
def powerUp : Port where
  resetCounter := RESET_DURATION
  resetHold := true
  cmdReset := true
  cmdHalt := startHalted
  cmdStep := false
  cmdClearCache := false
  cmdWrite := false
  cmdWaddr := 0
  cmdWdata := 0
  dbgPreAddr := false
  dbgPreAck := false
  dbgAck := false
  dbgOdata := 0
  dbgCpuStatus := 0

end Port

/-- The debug port and the core. -/
structure Zipbones (aw : Nat) where
  port : Port
  cpu : Core aw

namespace Zipbones

/-- What the fetch unit and the memory unit answer. -/
structure Units (aw : Nat) where
  pfValid : Bool
  pfIllegal : Bool
  pfInstruction : BitVec 32
  pfInstructionPc : BitVec (aw + 2)
  memBusy : Bool
  memValid : Bool
  busErr : Bool
  memWreg : BitVec 5
  memResult : BitVec 32

variable {aw : Nat} (b : Build aw) (startHalted : Bool) (s : Zipbones aw) (i : Port.Inputs) (u : Units aw)

def coreInputs : Core.Inputs aw where
  reset := s.port.cmdReset
  interrupt := i.extInt
  halt := s.port.cmdHalt
  clearCache := s.port.cmdClearCache
  dbgWreg := s.port.cmdWaddr
  dbgWe := s.port.cmdWrite
  dbgData := s.port.cmdWdata
  dbgRreg := i.dbgAddr.extractLsb' 0 5
  pfValid := u.pfValid
  pfIllegal := u.pfIllegal
  pfInstruction := u.pfInstruction
  pfInstructionPc := u.pfInstructionPc
  memBusy := u.memBusy
  memValid := u.memValid
  busErr := u.busErr
  memWreg := u.memWreg
  memResult := u.memResult

/-- What the port sees of the core. -/
def seen : Port.Cpu where
  dbgStall := s.cpu.oDbgStall
  break_ := s.cpu.oBreak (s.coreInputs i u)
  dbgData := s.cpu.dbgReg
  dbgCc := s.cpu.dbgCc

/-- One clock of `zipbones`. -/
def zipbones : Zipbones aw where
  port := s.port.clock startHalted i (s.seen i u)
  cpu := s.cpu.zipcore b (s.coreInputs i u)

end Zipbones

end IcoZip.Zipcore
