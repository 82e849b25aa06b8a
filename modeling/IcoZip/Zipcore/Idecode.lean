import Mathlib.Data.BitVec

/-! The instruction decoder `idecode`, without its test for pipelined memory
operations.

The wires that it makes of an instruction word are functions of the word and of
the mode; what it registers of them is one record.
-/

set_option autoImplicit false

namespace IcoZip.Zipcore

structure Options where
  optMpy : Bool
  optEarlyBranching : Bool
  optPipelined : Bool
  optDivide : Bool
  optFpu : Bool
  optCis : Bool
  optLock : Bool
  optSim : Bool
  optSuppressNullBranches : Bool
  optNoUsermode : Bool
  deriving DecidableEq, Repr

namespace Idecode

abbrev CPU_SP_REG : BitVec 4 := 0xd#4

abbrev CPU_CC_REG : BitVec 4 := 0xe#4

abbrev CPU_PC_REG : BitVec 4 := 0xf#4

/-! ### The wires -/

section Wires
variable (o : Options) (iword : BitVec 32) (iGie : Bool)

/-- The bit that tells a pair of compressed instructions from one instruction. -/
def cis : Bool := iword.getLsbD 31

def wOp : BitVec 5 := iword.extractLsb' 22 5

/-- The operations of the compressed instructions. -/
def cisOp (code : BitVec 3) : BitVec 5 :=
  if code = 0#3 then 0x00#5
  else if code = 1#3 then 0x01#5
  else if code = 2#3 then 0x02#5
  else if code = 3#3 then 0x10#5
  else if code = 4#3 then 0x12#5
  else if code = 5#3 then 0x13#5
  else if code = 6#3 then 0x18#5
  else 0x0d#5

def wCisOp : BitVec 5 := if o.optCis && cis iword then cisOp (iword.extractLsb' 24 3) else wOp iword

def wMov : Bool := wCisOp o iword == 0x0d#5

def wLdi : Bool := (wCisOp o iword).extractLsb' 1 4 == 0xc#4

def wBrev : Bool := wCisOp o iword == 0x08#5

def wMpy : Bool := (wCisOp o iword).extractLsb' 1 4 == 0x5#4 || wCisOp o iword == 0x0c#5

def wCmptst : Bool := (wCisOp o iword).extractLsb' 1 4 == 0x8#4

def wLdilo : Bool := wCisOp o iword == 0x09#5

def wALU : Bool := !(wCisOp o iword).getLsbD 4 && (wCisOp o iword).extractLsb' 1 3 != 0x7#3

def wAdd : Bool := wCisOp o iword == 0x02#5

def wMem : Bool := (wCisOp o iword).extractLsb' 3 2 == 0b10#2 && (wCisOp o iword).extractLsb' 1 2 != 0b00#2

def wSto : Bool := wMem o iword && (wCisOp o iword).getLsbD 0

def wDiv : Bool := !cis iword && (wOp iword).extractLsb' 1 4 == 0x7#4

def wDcdR : BitVec 5 :=
  BitVec.ofBool (if !cis iword && !o.optNoUsermode && wMov o iword && !iGie then iword.getLsbD 18 else iGie) ++
    iword.extractLsb' 27 4

/-- The register is the condition code or program counter register, of either set. -/
def special (reg : BitVec 5) : Bool := reg.extractLsb' 1 3 == 0x7#3

def wFpu : Bool :=
  !cis iword && (wOp iword).extractLsb' 3 2 == 0b11#2 && !special (wDcdR o iword iGie) &&
    (wOp iword).extractLsb' 1 2 != 0b00#2

def wSpecial : Bool :=
  !cis iword && (!o.optFpu || special (wDcdR o iword iGie)) && (wOp iword).extractLsb' 2 3 == 0b111#3

def wBreak : Bool := wSpecial o iword iGie && wOp iword == 0x1c#5

def wLock : Bool := wSpecial o iword iGie && wOp iword == 0x1d#5

def wSim : Bool := wSpecial o iword iGie && wOp iword == 0x1e#5

def wNoop : Bool := wSpecial o iword iGie && (wOp iword).extractLsb' 1 4 == 0xf#4

def wDcdRPc : Bool := wDcdR o iword iGie == BitVec.ofBool iGie ++ CPU_PC_REG

def wDcdRCc : Bool := wDcdR o iword iGie == BitVec.ofBool iGie ++ CPU_CC_REG

def wDcdB : BitVec 5 :=
  BitVec.ofBool (if !cis iword && wMov o iword && !o.optNoUsermode && !iGie then iword.getLsbD 13 else iGie) ++
    (if cis iword then
      if !iword.getLsbD 23 && iword.extractLsb' 25 2 == 0b10#2 then CPU_SP_REG else iword.extractLsb' 19 4
    else iword.extractLsb' 14 4)

def wCond : BitVec 4 :=
  if wLdi o iword || wSpecial o iword iGie || cis iword then 0x8#4
  else BitVec.ofBool (iword.extractLsb' 19 3 == 0#3) ++ iword.extractLsb' 19 3

def wRA : Bool :=
  wFpu o iword iGie && o.optFpu || wDiv iword || wALU o iword && !wBrev o iword && !wMov o iword || wSto o iword ||
    wCmptst o iword

def wRB : Bool :=
  wMov o iword || !cis iword && iword.getLsbD 18 && !wLdi o iword && !wSpecial o iword iGie ||
    cis iword && iword.getLsbD 23 && !wLdi o iword || cis iword && wMem o iword

def wDcdBPc : Bool := wRB o iword iGie && (wDcdB o iword iGie).extractLsb' 0 4 == CPU_PC_REG

def wDcdBCc : Bool := wRB o iword iGie && (wDcdB o iword iGie).extractLsb' 0 4 == CPU_CC_REG

def wWR : Bool := !(wSto o iword || wSpecial o iword iGie || wCmptst o iword)

def wWF : Bool :=
  wCmptst o iword ||
    (wCond o iword iGie).getLsbD 3 &&
      (wFpu o iword iGie && o.optFpu || wDiv iword ||
        wALU o iword && !wMov o iword && !wLdilo o iword && !wBrev o iword && !special (wDcdR o iword iGie))

def wFullI : BitVec 23 :=
  if wLdi o iword then iword.extractLsb' 0 23
  else if wMov o iword then (iword.extractLsb' 0 13).signExtend 23
  else if !iword.getLsbD 18 then (iword.extractLsb' 0 18).signExtend 23
  else (iword.extractLsb' 0 14).signExtend 23

def wHalfI : BitVec 8 :=
  if iword.extractLsb' 24 3 = 0x6#3 then iword.extractLsb' 16 8
  else if iword.getLsbD 23 then (iword.extractLsb' 16 3).signExtend 8
  else (iword.extractLsb' 16 7).signExtend 8

def wI : BitVec 23 := if o.optCis && cis iword then (wHalfI iword).signExtend 23 else wFullI o iword

end Wires

/-- What is registered of a word. -/
structure Fields where
  cond : BitVec 4
  wF : Bool
  op : BitVec 4
  dcdR : BitVec 5
  dcdRCc : Bool
  dcdRPc : Bool
  dcdB : BitVec 5
  dcdBCc : Bool
  dcdBPc : Bool
  wR : Bool
  rA : Bool
  rB : Bool
  imm : BitVec 23
  zI : Bool
  ALU : Bool
  M : Bool
  DV : Bool
  FP : Bool
  brk : Bool
  lock : Bool
  sim : Bool
  simImmv : BitVec 23
  deriving DecidableEq, Repr, Inhabited

namespace Fields

variable (f : Fields)

/-- The register that is read first is always the one of the result. -/
def dcdA : BitVec 5 := f.dcdR

def dcdACc : Bool := f.dcdRCc

def dcdAPc : Bool := f.dcdRPc

def o_I : BitVec 32 := f.imm.signExtend 32

end Fields

def decode (o : Options) (iword : BitVec 32) (iGie : Bool) : Fields where
  cond := wCond o iword iGie
  wF := wWF o iword iGie
  op :=
    if wLdi o iword || wNoop o iword iGie || wLock o iword iGie then 0xd#4 else (wCisOp o iword).extractLsb' 0 4
  dcdR := wDcdR o iword iGie
  dcdRCc := wDcdRCc o iword iGie
  dcdRPc := wDcdRPc o iword iGie
  dcdB := wDcdB o iword iGie
  dcdBCc := wDcdBCc o iword iGie
  dcdBPc := wDcdBPc o iword iGie
  wR := wWR o iword iGie
  rA := wRA o iword iGie
  rB := wRB o iword iGie
  imm := wI o iword
  zI := wI o iword == 0
  ALU :=
    wALU o iword || wLdi o iword || wCmptst o iword || wNoop o iword iGie || !o.optLock && wLock o iword iGie
  M := wMem o iword
  DV := o.optDivide && wDiv iword
  FP := o.optFpu && wFpu o iword iGie
  brk := wBreak o iword iGie
  lock := o.optLock && wLock o iword iGie
  sim := o.optSim && (wSim o iword iGie || wNoop o iword iGie)
  simImmv := if o.optSim then iword.extractLsb' 0 23 else 0

/-- The words that are illegal by themselves. The instruction as it was fetched is what tells a compressed one. -/
def illegalWord (o : Options) (iInstruction iword : BitVec 32) (iGie : Bool) : Bool :=
  !o.optCis && cis iInstruction || !o.optMpy && wMpy o iword || !o.optDivide && wDiv iword ||
    o.optDivide && wDiv iword && special (wDcdR o iword iGie) || !o.optFpu && wFpu o iword iGie ||
    !o.optSim && wSim o iword iGie ||
    special (wDcdR o iword iGie) && (wCisOp o iword).extractLsb' 1 4 == 0b1101#4 || !o.optLock && wLock o iword iGie

/-! ### The registers -/

end Idecode

structure Idecode (aw : Nat) where
  valid : Bool
  phase : Bool
  illegal : Bool
  pc : BitVec (aw + 2)
  dcd : Idecode.Fields
  nxtHalf : BitVec 15
  ljmp : Bool
  earlyBranch : Bool
  earlyBranchStb : Bool
  branchPc : BitVec (aw + 2)
  deriving DecidableEq, Repr, Inhabited

namespace Idecode

/-- What comes in from the fetch unit and from the core. -/
structure Inputs (aw : Nat) where
  reset : Bool
  ce : Bool
  stalled : Bool
  instruction : BitVec 32
  gie : Bool
  pc : BitVec (aw + 2)
  pfValid : Bool
  illegal : Bool

variable {aw : Nat} (o : Options) (s : Idecode aw) (i : Inputs aw)

/-- The address of the word behind. -/
def nextWord (pc : BitVec (aw + 2)) : BitVec (aw + 2) := (pc.extractLsb' 2 aw + 1) ++ 0b00#2

def pfValid : Bool := i.pfValid && !s.earlyBranchStb

/-- The word to decode: the second half of the one before, in the place of a first one, or the one that is fetched. -/
def iword : BitVec 32 :=
  if o.optCis then
    if s.phase then (0b1#1 ++ s.nxtHalf) ++ i.instruction.extractLsb' 0 16 else i.instruction
  else 0b0#1 ++ i.instruction.extractLsb' 0 31

def wLjmp : Bool := o.optEarlyBranching && s.iword o i == 0x7c87c000#32

def wCisLjmp : Bool :=
  o.optEarlyBranching && o.optCis && s.phase && (s.iword o i).extractLsb' 16 16 == 0xfcf8#16

/-- An `ADD` of an immediate to the program counter. -/
def branches : Bool :=
  !cis (s.iword o i) && (s.iword o i).extractLsb' 27 4 == CPU_PC_REG && (wCond o (s.iword o i) i.gie).getLsbD 3 &&
    (wAdd o (s.iword o i) && !(s.iword o i).getLsbD 18)

def nextPhase : Bool :=
  if !o.optCis then false
  else if i.reset || s.ljmp then false
  else if i.ce && s.pfValid i then !s.phase && (cis i.instruction && !i.illegal)
  else if i.ce then false
  else s.phase

def nextIllegal : Bool :=
  if i.reset then false
  else if i.ce && s.phase then s.illegal
  else if i.ce && i.pfValid then illegalWord o i.instruction (s.iword o i) i.gie || i.illegal
  else s.illegal

def nextPc : BitVec (aw + 2) :=
  if i.ce && (s.phase || i.pfValid) then
    if o.optCis && cis (s.iword o i) then
      if s.phase then (s.pc.extractLsb' 1 (aw + 1) + 1) ++ 0b0#1 else i.pc.extractLsb' 2 aw ++ 0b10#2
    else nextWord i.pc
  else s.pc

def nextLjmp : Bool :=
  if !o.optEarlyBranching then false
  else if i.reset then false
  else if i.ce then
    if s.ljmp && s.pfValid i then false
    else if s.earlyBranchStb then false
    else if s.pfValid i then
      if o.optCis && cis (s.iword o i) then s.wCisLjmp o i else s.wLjmp o i
    else if o.optCis && s.phase && cis (s.iword o i) then s.wCisLjmp o i
    else s.ljmp
  else s.ljmp

def nextEarlyBranch : Bool :=
  if !o.optEarlyBranching then false
  else if i.reset then false
  else if i.ce && s.pfValid i then s.ljmp || s.branches o i
  else if i.ce then false
  else s.earlyBranch

def nextEarlyBranchStb : Bool :=
  if !o.optEarlyBranching then false
  else if i.reset then false
  else if i.ce && s.pfValid i then
    s.ljmp || s.branches o i && (!o.optSuppressNullBranches || !(wI o (s.iword o i) == 0))
  else false

def nextBranchPc : BitVec (aw + 2) :=
  if !o.optEarlyBranching then 0
  else if i.ce then
    if s.ljmp then (s.iword o i).extractLsb' 2 aw ++ 0b00#2
    else (i.pc.extractLsb' 2 aw + ((s.iword o i).extractLsb' 2 16).signExtend aw + 1) ++ 0b00#2
  else s.branchPc

def nextValid : Bool :=
  if i.reset then false
  else if o.optPipelined then
    if i.ce then (s.pfValid i || s.phase) && !s.ljmp else if !i.stalled then false else s.valid
  else if !i.stalled then (s.pfValid i || s.phase) && !s.ljmp
  else false

/-- One clock of `idecode`. -/
def idecode : Idecode aw where
  valid := s.nextValid o i
  phase := s.nextPhase o i
  illegal := s.nextIllegal o i
  pc := s.nextPc o i
  dcd := if i.ce then decode o (s.iword o i) i.gie else s.dcd
  nxtHalf := if i.ce then if o.optCis then (s.iword o i).extractLsb' 0 15 else 0 else s.nxtHalf
  ljmp := s.nextLjmp o i
  earlyBranch := s.nextEarlyBranch o i
  earlyBranchStb := s.nextEarlyBranchStb o i
  branchPc := s.nextBranchPc o i

end Idecode

end IcoZip.Zipcore
