import IcoZip.Zipcore.Cpuops
import IcoZip.Zipcore.Div
import IcoZip.Zipcore.Idecode
import Mathlib.Logic.Function.Basic

/-! The core `zipcore` as it is built here: without its pipeline, without early
branching, a floating point unit or simulation codes, and with a user mode.

Without a pipeline the register numbers, the operation and the address of the
operand stage are those of the decoder, which waits until the instruction is done.
-/

set_option autoImplicit false

namespace IcoZip.Zipcore

/-- The parameters that are left open. -/
structure Build (aw : Nat) where
  optMpy : Bool
  optShifts : Bool
  optDivide : Bool
  optCis : Bool
  optLock : Bool
  resetAddress : BitVec (aw + 2)

/-- The decoder's parameters. -/
def Build.options {aw : Nat} (b : Build aw) : Options where
  optMpy := b.optMpy
  optEarlyBranching := false
  optPipelined := false
  optDivide := b.optDivide
  optFpu := false
  optCis := b.optCis
  optLock := b.optLock
  optSim := false
  optSuppressNullBranches := false
  optNoUsermode := false

/-- The core's registers. Without a floating point unit the top bit of `wr_index` is always clear. -/
structure Core (aw : Nat) where
  dcd : Idecode aw
  opValid : Bool
  opValidAlu : Bool
  opValidMem : Bool
  opValidDiv : Bool
  opAv : BitVec 32
  opBv : BitVec 32
  opF : BitVec 7
  opBreak : Bool
  opLock : Bool
  opIllegal : Bool
  opWF : Bool
  opPhase : Bool
  alu : Cpuops
  div : Div
  aluWR : Bool
  aluWF : Bool
  aluPhase : Bool
  aluReg : BitVec 5
  wrIndex : BitVec 2
  dbgv : Bool
  dbgVal : BitVec 32
  dbgClearPipe : Bool
  rAluPcValid : Bool
  memPcValid : Bool
  rBusLock : BitVec 2
  regset : BitVec 5 → BitVec 32
  flags : BitVec 4
  iflags : BitVec 4
  breakEn : Bool
  sleep : Bool
  step : Bool
  rPendingInterrupt : Bool
  gie : Bool
  trap : Bool
  ubreak : Bool
  illErrI : Bool
  illErrU : Bool
  ibusErr : Bool
  ubusErr : Bool
  idivErr : Bool
  udivErr : Bool
  ihaltPhase : Bool
  uhaltPhase : Bool
  upc : BitVec (aw + 2)
  ipc : BitVec (aw + 2)
  pfPc : BitVec (aw + 2)
  lastWriteToCc : Bool
  clearIcache : Bool
  newPc : Bool
  dbgReg : BitVec 32
  dbgCc : BitVec 3
  halted : Bool
  rDbgStall : Bool
  deriving Inhabited

namespace Core

structure Inputs (aw : Nat) where
  reset : Bool
  interrupt : Bool
  halt : Bool
  clearCache : Bool
  dbgWreg : BitVec 5
  dbgWe : Bool
  dbgData : BitVec 32
  dbgRreg : BitVec 5
  pfValid : Bool
  pfIllegal : Bool
  pfInstruction : BitVec 32
  pfInstructionPc : BitVec (aw + 2)
  memBusy : Bool
  memValid : Bool
  busErr : Bool
  memWreg : BitVec 5
  memResult : BitVec 32

abbrev CPU_CLRICACHE_BIT : Nat := 14

abbrev CPU_DIVERR_BIT : Nat := 11

abbrev CPU_BUSERR_BIT : Nat := 10

abbrev CPU_TRAP_BIT : Nat := 9

abbrev CPU_ILL_BIT : Nat := 8

abbrev CPU_BREAK_BIT : Nat := 7

abbrev CPU_STEP_BIT : Nat := 6

abbrev CPU_GIE_BIT : Nat := 5

abbrev CPU_SLEEP_BIT : Nat := 4

variable {aw : Nat} (b : Build aw) (s : Core aw) (i : Inputs aw)

/-! ### What is written back -/

def wrDiscard : Bool := s.newPc || s.opIllegal

def wrRegCe : Bool :=
  if s.wrIndex = 0b00#2 then s.dbgv
  else if s.wrIndex = 0b01#2 then i.memValid
  else if s.wrIndex = 0b11#2 then !s.wrDiscard && s.div.valid && !s.div.err
  else !s.wrDiscard && (s.aluWR && s.alu.valid)

def wrRegId : BitVec 5 := if i.memValid then i.memWreg else s.aluReg

/-- The mode whose registers are written. -/
def wrUser : Bool := (s.wrRegId i).getLsbD 4

def wrWriteCc : Bool := (s.wrRegId i).extractLsb' 0 4 == Idecode.CPU_CC_REG

def wrWriteScc : Bool := s.wrRegId i == 0b0#1 ++ Idecode.CPU_CC_REG

def wrWriteUcc : Bool := s.wrRegId i == 0b1#1 ++ Idecode.CPU_CC_REG

def wrWritePc : Bool := (s.wrRegId i).extractLsb' 0 4 == Idecode.CPU_PC_REG

def wrGpregVl : BitVec 32 :=
  if s.wrIndex = 0b00#2 then s.dbgVal
  else if s.wrIndex = 0b01#2 then i.memResult
  else if s.wrIndex = 0b11#2 then s.div.quotient
  else s.alu.oC

/-- The value for the special registers, to which the divider does not write. -/
def wrSpregVl : BitVec 32 :=
  if s.wrIndex = 0b00#2 then s.dbgVal else if s.wrIndex = 0b01#2 then i.memResult else s.alu.oC

def wrFlagsCe : Bool :=
  s.aluWF && !s.wrDiscard &&
    (if s.wrIndex = 0b10#2 then s.alu.valid
     else if s.wrIndex = 0b11#2 then s.div.valid && !s.div.err
     else false)

def wrFlags : BitVec 4 :=
  if s.wrIndex = 0b10#2 then s.alu.flags else if s.wrIndex = 0b11#2 then s.div.flags else 0

/-- The condition codes of the user. -/
def wUflags : BitVec 16 :=
  0b00#2 ++ BitVec.ofBool s.uhaltPhase ++ 0b0#1 ++ BitVec.ofBool s.udivErr ++ BitVec.ofBool s.ubusErr ++
    BitVec.ofBool s.trap ++ BitVec.ofBool s.illErrU ++ BitVec.ofBool s.ubreak ++ BitVec.ofBool s.step ++ 0b1#1 ++
    BitVec.ofBool s.sleep ++ (if s.wrFlagsCe && s.gie then s.wrFlags else s.flags)

/-- The condition codes of the supervisor. -/
def wIflags : BitVec 16 :=
  0b00#2 ++ BitVec.ofBool s.ihaltPhase ++ 0b0#1 ++ BitVec.ofBool s.idivErr ++ BitVec.ofBool s.ibusErr ++
    BitVec.ofBool s.trap ++ BitVec.ofBool s.illErrI ++ BitVec.ofBool s.breakEn ++ 0b0#1 ++ 0b0#1 ++
    BitVec.ofBool s.sleep ++ (if s.wrFlagsCe && !s.gie then s.wrFlags else s.iflags)

/-! ### What may go on -/

def oBreak : Bool :=
  (s.breakEn || !s.gie) && s.opBreak && !s.newPc || s.illErrI || !s.gie && i.busErr || !s.gie && s.div.err ||
    !s.gie && s.opIllegal && !s.newPc

def ccWriteHold : Bool := s.wrRegCe i && s.wrWriteCc i || s.lastWriteToCc

def masterCe : Bool := (!i.halt || s.aluPhase) && !s.ccWriteHold i && !s.oBreak i && !s.sleep

def pendingInterrupt : Bool := s.rPendingInterrupt && !i.halt

def oBusLock : Bool := s.rBusLock != 0

def masterStall : Bool :=
  !s.masterCe i || !s.opValid || s.illErrI || s.ibusErr || s.idivErr ||
    s.pendingInterrupt i && !s.oBusLock && !s.aluPhase || s.alu.busy || s.div.busy || s.opBreak

def dcdStalled : Bool :=
  !s.masterCe i || s.illErrI || s.ibusErr || s.idivErr || (s.dcd.valid || s.opValid) || s.alu.busy || s.div.busy ||
    i.memBusy

/-- An instruction goes to the arithmetic unit or to the divider. -/
def adfCe : Bool := !s.masterStall i && s.opValid && !s.opValidMem

def memCe : Bool := s.masterCe i && s.opValidMem && !(s.masterStall i || i.memBusy) && !s.newPc

def aluCe : Bool := s.adfCe i && s.opValidAlu

def opFl : BitVec 4 := (if s.gie then s.wUflags else s.wIflags).extractLsb' 0 4

/-- The condition is met. `opF` has the bits that matter above the values that they must have. -/
def setCond : Bool := (s.opF.extractLsb' 3 1 ++ s.opF.extractLsb' 4 3) &&& s.opFl == s.opF.extractLsb' 0 4

def divCe : Bool := s.opValidDiv && s.adfCe i && s.setCond

/-- A request to the memory unit. -/
def oMemCe : Bool := s.memCe i && s.setCond

def oPfReady : Bool := !s.dcdStalled i && !s.dcd.phase

def oDbgStall : Bool := !s.halted || s.rDbgStall

/-- A write of the debugger is taken. -/
def dbgTaken : Bool := i.dbgWe && !s.oDbgStall

def aluPcValid : Bool := s.rAluPcValid && !s.alu.busy && !s.div.busy

/-- The program counter moves behind an instruction. -/
def pcMoves : Bool := s.aluPcValid && !s.newPc && !s.opIllegal || s.memPcValid

def wSwitchToInterrupt : Bool :=
  s.gie &&
    (s.pendingInterrupt i && !s.aluPhase && !s.oBusLock && !i.memBusy || s.div.err || i.busErr ||
      s.wrRegCe i && !(s.wrSpregVl i).getLsbD CPU_GIE_BIT && s.wrUser i && s.wrWriteCc i)

def wReleaseFromInterrupt : Bool :=
  !s.gie && !i.interrupt && (s.wrRegCe i && (s.wrSpregVl i).getLsbD CPU_GIE_BIT && s.wrWriteScc i)

/-! ### Decoding and reading operands -/

def dcdInputs : Idecode.Inputs aw where
  reset := i.reset || s.newPc || s.clearIcache
  ce := !s.dcdStalled i
  stalled := s.dcdStalled i
  instruction := i.pfInstruction
  gie := s.gie
  pc := i.pfInstructionPc
  pfValid := i.pfValid
  illegal := i.pfIllegal

def wOpValid : Bool := !s.newPc && s.dcd.valid

def wCpuInfo : BitVec 9 :=
  0b1#1 ++ BitVec.ofBool b.optMpy ++ BitVec.ofBool b.optDivide ++ 0b00000#5 ++ BitVec.ofBool b.optCis

/-- The program counter as an operand. -/
def pcValue (reg : BitVec 5) : BitVec 32 :=
  if reg.getLsbD 4 = s.gie then (s.dcd.pc.extractLsb' 2 aw ++ 0b00#2).setWidth 32
  else (s.upc.extractLsb' 2 aw ++ (BitVec.ofBool s.uhaltPhase ++ 0b0#1)).setWidth 32

/-- The condition codes as an operand. -/
def ccValue (reg : BitVec 5) : BitVec 32 :=
  wCpuInfo b ++ (s.regset reg).extractLsb' 16 7 ++ (if reg.getLsbD 4 then s.wUflags else s.wIflags)

def nextOpAv : BitVec 32 :=
  if s.dcd.dcd.dcdAPc then s.pcValue s.dcd.dcd.dcdA
  else if s.dcd.dcd.dcdACc then s.ccValue b s.dcd.dcd.dcdA
  else s.regset s.dcd.dcd.dcdA

def wOpBnI : BitVec 32 :=
  if !s.dcd.dcd.rB then 0
  else if s.dcd.dcd.dcdBCc then s.ccValue b s.dcd.dcd.dcdB
  else s.regset s.dcd.dcd.dcdB

def nextOpBv : BitVec 32 :=
  if s.dcd.dcd.dcdBPc && s.dcd.dcd.rB then s.pcValue s.dcd.dcd.dcdB + (s.dcd.dcd.o_I.extractLsb' 0 30 ++ 0b00#2)
  else s.wOpBnI b + s.dcd.dcd.o_I

/-- The conditions: always, Z, LT, C, V, NE, GE and NC. -/
def condition (cond : BitVec 3) : BitVec 7 :=
  if cond = 0#3 then 0x00#7
  else if cond = 1#3 then 0x11#7
  else if cond = 2#3 then 0x44#7
  else if cond = 3#3 then 0x22#7
  else if cond = 4#3 then 0x08#7
  else if cond = 5#3 then 0x10#7
  else if cond = 6#3 then 0x40#7
  else 0x20#7

/-- A valid bit of the operand stage, with what the decoder has for it. -/
def nextOpValid (valid decoded : Bool) : Bool :=
  if i.reset || s.newPc then false
  else if s.dcd.valid then
    if !s.opValid then decoded else if s.adfCe i || s.memCe i then false else valid
  else if s.adfCe i || s.memCe i then false
  else valid

def nextOpPhase : Bool :=
  if !b.optCis then false
  else if i.reset || s.newPc then false
  else if s.dcd.valid then s.dcd.phase && (!s.dcd.dcd.wR || !s.dcd.dcd.dcdRPc)
  else s.opPhase

/-! ### Executing -/

def aluInputs : Cpuops.Inputs := ⟨s.aluCe i, s.dcd.dcd.op, s.opAv, s.opBv⟩

def divInputs : Div.Inputs := ⟨s.divCe i, s.dcd.dcd.op.getLsbD 0, s.opAv, s.opBv⟩

def nextAluPhase : Bool :=
  if !b.optCis then false
  else if i.reset || s.newPc then false
  else if (s.adfCe i || s.memCe i) && s.opValid then s.opPhase
  else if s.adfCe i || s.memCe i then false
  else s.aluPhase

def nextWrIndex : BitVec 2 :=
  if s.dbgTaken i then 0
  else if s.opValid then
    BitVec.ofBool (s.opValidAlu || s.opValidDiv) ++ BitVec.ofBool (s.opValidMem || s.opValidDiv)
  else s.wrIndex

def nextDbgClearPipe : Bool :=
  if i.reset || s.newPc || !s.halted then false
  else if s.dbgTaken i then true
  else i.clearCache && !s.oDbgStall

def nextRAluPcValid : Bool :=
  if s.newPc then false
  else if s.adfCe i && !s.opPhase then true
  else if !s.alu.busy && !s.div.busy then false
  else s.rAluPcValid

def nextRBusLock : BitVec 2 :=
  if !b.optLock then 0
  else if s.newPc then 0
  else if s.opValid && (s.adfCe i || s.memCe i) then
    if s.rBusLock ≠ 0 then s.rBusLock - 1 else if s.opLock then 0b11#2 else s.rBusLock
  else s.rBusLock

/-! ### Writing back -/

def doneFlags : BitVec 4 := if s.div.valid then s.div.flags else s.alu.flags

/-- The special registers' writes: of the supervisor's condition codes, and of the user's. -/
def writesScc : Bool := s.wrRegCe i && s.wrWriteScc i

def writesUcc : Bool := s.wrRegCe i && s.wrWriteUcc i

def nextSleep : Bool :=
  if i.reset || s.wSwitchToInterrupt i then false
  else if s.wrRegCe i && s.wrWriteCc i && !s.gie then
    (s.wrSpregVl i).getLsbD CPU_SLEEP_BIT && (!i.interrupt || !(s.wrSpregVl i).getLsbD CPU_GIE_BIT)
  else if s.wrRegCe i && s.wrWriteCc i && (s.wrSpregVl i).getLsbD CPU_GIE_BIT then
    (s.wrSpregVl i).getLsbD CPU_SLEEP_BIT
  else s.sleep

def nextRPendingInterrupt : Bool :=
  if i.reset then false
  else if !s.gie || s.newPc || s.wSwitchToInterrupt i then false
  else
    s.rPendingInterrupt || i.interrupt || s.opBreak || s.adfCe i && s.opIllegal ||
      (s.adfCe i || s.memCe i) && s.step && !s.opLock && !s.oBusLock

def nextTrap : Bool :=
  if i.reset || s.wReleaseFromInterrupt i then false
  else if s.gie && s.wrRegCe i && !(s.wrSpregVl i).getLsbD CPU_GIE_BIT && s.wrWriteUcc i then true
  else if s.writesUcc i && !s.gie then s.trap && (s.wrSpregVl i).getLsbD CPU_TRAP_BIT
  else s.trap

def nextUbreak : Bool :=
  if i.reset || s.wReleaseFromInterrupt i then false
  else if s.gie && s.opBreak && s.wSwitchToInterrupt i then true
  else if (!s.gie || s.dbgv) && s.writesUcc i then s.ubreak && (s.wrSpregVl i).getLsbD CPU_BREAK_BIT
  else s.ubreak

/-- An error flag of the supervisor, which only the debugger clears. -/
def nextErrI (flag : Bool) (bit : Nat) (raised : Bool) : Bool :=
  if i.reset then false
  else if s.dbgv && s.wrWriteScc i then flag && (s.wrSpregVl i).getLsbD bit
  else if raised && !s.gie then true
  else flag

/-- An error flag of the user. -/
def nextErrU (flag : Bool) (bit : Nat) (raised : Bool) : Bool :=
  if i.reset || s.wReleaseFromInterrupt i then false
  else if (!s.gie || s.dbgv) && s.writesUcc i then flag && (s.wrSpregVl i).getLsbD bit
  else if raised && s.gie then true
  else flag

def nextIhaltPhase : Bool :=
  if !b.optCis then false
  else if i.reset then false
  else if !s.gie && s.aluPcValid && !s.newPc then s.aluPhase
  else s.ihaltPhase

def nextUhaltPhase : Bool :=
  if !b.optCis then false
  else if i.reset || s.wReleaseFromInterrupt i then false
  else if s.gie && s.aluPcValid then s.aluPhase
  else if !s.gie && s.wrRegCe i && s.wrWritePc i && s.wrUser i then (s.wrSpregVl i).getLsbD 1
  else s.uhaltPhase

/-- The value for a program counter. -/
def wrPc : BitVec (aw + 2) := (s.wrSpregVl i).extractLsb' 2 aw ++ 0b00#2

def nextUpc : BitVec (aw + 2) :=
  if s.wrRegCe i && s.wrUser i && s.wrWritePc i then s.wrPc i
  else if s.gie && s.pcMoves then s.dcd.pc
  else s.upc

def resetPc : BitVec (aw + 2) := b.resetAddress.extractLsb' 2 aw ++ 0b00#2

def nextIpc : BitVec (aw + 2) :=
  if i.reset then resetPc b
  else if s.wrRegCe i && !s.wrUser i && s.wrWritePc i then s.wrPc i
  else if !s.gie && !s.aluPhase && s.pcMoves then s.dcd.pc
  else s.ipc

/-- A write to the program counter of the mode. -/
def writesPc : Bool := s.wrRegCe i && (s.wrUser i == s.gie) && s.wrWritePc i

def nextPfPc : BitVec (aw + 2) :=
  if i.reset then resetPc b
  else if s.dbgv && s.writesPc i then s.wrPc i
  else if s.wSwitchToInterrupt i || !s.gie && (s.clearIcache || s.dbgClearPipe) then s.ipc.extractLsb' 2 aw ++ 0b00#2
  else if s.wReleaseFromInterrupt i || s.gie && (s.clearIcache || s.dbgClearPipe) then
    s.upc.extractLsb' 2 aw ++ 0b00#2
  else if s.writesPc i then s.wrPc i
  else if s.newPc || s.oPfReady i && i.pfValid then Idecode.nextWord s.pfPc
  else s.pfPc

def nextClearIcache : Bool :=
  if i.reset then false
  else if i.clearCache && !s.oDbgStall then true
  else s.writesScc i && (s.wrSpregVl i).getLsbD CPU_CLRICACHE_BIT

def nextNewPc : Bool :=
  i.reset || s.clearIcache || s.dbgClearPipe || s.wSwitchToInterrupt i || s.wReleaseFromInterrupt i || s.writesPc i

/-! ### The debugger's view -/

section
variable (reg : BitVec 5)

def debugPc : BitVec 32 :=
  if reg.getLsbD 4 then (s.upc.extractLsb' 2 aw ++ (BitVec.ofBool s.uhaltPhase ++ 0b0#1)).setWidth 32
  else (s.ipc.extractLsb' 2 aw ++ (BitVec.ofBool s.ihaltPhase ++ 0b0#1)).setWidth 32

/-- The condition codes of either mode, with the mode in place. -/
def debugCc : BitVec 32 :=
  wCpuInfo b ++ (s.regset reg).extractLsb' 16 7 ++ (if reg.getLsbD 4 then s.wUflags else s.wIflags).extractLsb' 6 10 ++
    BitVec.ofBool s.gie ++ (if reg.getLsbD 4 then s.wUflags else s.wIflags).extractLsb' 0 5

/-- What the debugger is shown of a register. -/
def debugReg : BitVec 32 :=
  if reg.extractLsb' 0 4 = Idecode.CPU_PC_REG then s.debugPc reg
  else if reg.extractLsb' 0 4 = Idecode.CPU_CC_REG then s.debugCc b reg
  else s.regset reg

end

def nextHalted : Bool :=
  if !i.halt then false
  else if i.reset || s.halted then true
  else !s.aluPhase && i.pfValid && !i.memBusy && !s.alu.busy && !s.div.busy

def nextRDbgStall : Bool :=
  if i.reset then true
  else if !s.halted || s.wrRegCe i && Idecode.special (s.wrRegId i) then true
  else s.dbgTaken i

/-! ### The clock -/

/-- One clock of `zipcore`. -/
def zipcore : Core aw where
  dcd := s.dcd.idecode b.options (s.dcdInputs i)
  opValid := s.nextOpValid i s.opValid s.wOpValid
  opValidAlu := s.nextOpValid i s.opValidAlu (s.wOpValid && (s.dcd.dcd.ALU || s.dcd.illegal))
  opValidMem := s.nextOpValid i s.opValidMem (s.dcd.dcd.M && !s.dcd.illegal && s.wOpValid)
  opValidDiv := s.nextOpValid i s.opValidDiv (b.optDivide && s.dcd.dcd.DV && !s.dcd.illegal && s.wOpValid)
  opAv := s.nextOpAv b
  opBv := s.nextOpBv b
  opF := condition (s.dcd.dcd.cond.extractLsb' 0 3)
  opBreak := if s.newPc then false else if s.dcd.valid then s.dcd.dcd.brk && !s.dcd.illegal else s.opBreak
  opLock :=
    if s.newPc then false else if s.dcd.valid then b.optLock && s.dcd.dcd.lock && !s.dcd.illegal else s.opLock
  opIllegal := if i.reset || s.newPc then false else if s.dcd.valid then s.dcd.illegal else s.opIllegal
  opWF := s.dcd.dcd.wF && (!s.dcd.dcd.dcdRCc || !s.dcd.dcd.wR)
  opPhase := s.nextOpPhase b i
  alu := s.alu.cpuops b.optShifts (i.reset || s.newPc) (s.aluInputs i)
  div := s.div.div (i.reset || s.newPc) (s.divInputs i)
  aluWR := s.dcd.dcd.wR && s.setCond && !s.opIllegal
  aluWF := s.opWF && s.setCond && !s.opIllegal
  aluPhase := s.nextAluPhase b i
  aluReg := if s.dbgTaken i then i.dbgWreg else s.dcd.dcd.dcdR
  wrIndex := s.nextWrIndex i
  dbgv := !(i.reset || !s.halted) && s.dbgTaken i
  dbgVal := i.dbgData
  dbgClearPipe := s.nextDbgClearPipe i
  rAluPcValid := s.nextRAluPcValid i
  memPcValid := !i.reset && s.memCe i
  rBusLock := s.nextRBusLock b i
  regset := if s.wrRegCe i then Function.update s.regset (s.wrRegId i) (s.wrGpregVl i) else s.regset
  flags :=
    if s.writesUcc i then (s.wrGpregVl i).extractLsb' 0 4
    else if s.wrFlagsCe && s.gie then s.doneFlags
    else s.flags
  iflags :=
    if s.writesScc i then (s.wrGpregVl i).extractLsb' 0 4
    else if s.wrFlagsCe && !s.gie then s.doneFlags
    else s.iflags
  breakEn :=
    if i.reset then false else if s.writesScc i then (s.wrSpregVl i).getLsbD CPU_BREAK_BIT else s.breakEn
  sleep := s.nextSleep i
  step :=
    if i.reset then false
    else if s.wrRegCe i && !s.gie && s.wrWriteUcc i then (s.wrSpregVl i).getLsbD CPU_STEP_BIT
    else s.step
  rPendingInterrupt := s.nextRPendingInterrupt i
  gie :=
    if i.reset then false
    else if s.wSwitchToInterrupt i then false
    else if s.wReleaseFromInterrupt i then true
    else s.gie
  trap := s.nextTrap i
  ubreak := s.nextUbreak i
  illErrI := s.nextErrI i s.illErrI CPU_ILL_BIT (s.opIllegal && !s.newPc)
  illErrU := s.nextErrU i s.illErrU CPU_ILL_BIT (s.opIllegal && !s.newPc)
  ibusErr := s.nextErrI i s.ibusErr CPU_BUSERR_BIT i.busErr
  ubusErr := s.nextErrU i s.ubusErr CPU_BUSERR_BIT i.busErr
  idivErr := s.nextErrI i s.idivErr CPU_DIVERR_BIT s.div.err
  udivErr := s.nextErrU i s.udivErr CPU_DIVERR_BIT s.div.err
  ihaltPhase := s.nextIhaltPhase b i
  uhaltPhase := s.nextUhaltPhase b i
  upc := s.nextUpc i
  ipc := s.nextIpc b i
  pfPc := s.nextPfPc b i
  lastWriteToCc := !i.reset && (s.wrRegCe i && s.wrWriteCc i)
  clearIcache := s.nextClearIcache i
  newPc := s.nextNewPc i
  dbgReg := s.debugReg b i.dbgRreg
  dbgCc := BitVec.ofBool i.busErr ++ BitVec.ofBool s.gie ++ BitVec.ofBool s.sleep
  halted := s.nextHalted i
  rDbgStall := s.nextRDbgStall i

/-- The registers as they come up, around a multiplier and the general registers. -/
def powerUp (mpy : Mpyop) (regset : BitVec 5 → BitVec 32) : Core aw :=
  { (default : Core aw) with
    alu := { (default : Cpuops) with mpy := mpy }
    regset := regset
    ipc := resetPc b
    pfPc := resetPc b
    clearIcache := true
    newPc := true
    rDbgStall := true }

end Core

end IcoZip.Zipcore
