import IcoZip.Library.Clocked
import Mathlib.Data.BitVec

/-! `wbdmac`: words are read into a memory of 1024 words, a block at a time, and
written from there.

`AW` is `w`, `LGMEMLEN` is 10. The read side of the control port is left out.
-/

set_option autoImplicit false

namespace IcoZip.Dma

inductive State where
  | idle
  | wait
  | readReq
  | readAck
  | preWrite
  | writeReq
  | writeAck
  deriving DecidableEq, Repr

/-- A cycle of the control port. -/
structure Swb where
  stb : Bool
  we : Bool
  addr : BitVec 2
  data : BitVec 32
  deriving DecidableEq, Repr

/-- The inputs of the master port. -/
structure Mwb where
  stall : Bool
  ack : Bool
  err : Bool
  data : BitVec 32
  deriving DecidableEq, Repr

structure Wbdmac (w : Nat) where
  dmaState : State
  /-- The control port, a clock late. -/
  s : Swb
  cfgErr : Bool
  cfgLenNonzero : Bool
  cfgWaddr : BitVec w
  cfgRaddr : BitVec w
  cfgLen : BitVec w
  cfgBlocklenSubOne : BitVec 10
  cfgIncs : Bool
  cfgIncd : Bool
  cfgDevTrigger : BitVec 5
  cfgOnDevTrigger : Bool
  dmaMem : BitVec 10 → BitVec 32
  nread : BitVec 11
  nwritten : BitVec 11
  nwacks : BitVec 11
  nracks : BitVec 11
  lastReadRequest : Bool
  lastReadAck : Bool
  lastWriteRequest : Bool
  lastWriteAck : Bool
  trigger : Bool
  abort : Bool
  userHalt : Bool
  rdaddr : BitVec 10
  mwbAddr : BitVec w
  mwbData : BitVec 32
  interrupt : Bool

variable {w : Nat}

namespace Wbdmac

/-- The `initial` values. -/
def powerUp (free : Wbdmac w) : Wbdmac w :=
  { free with
    dmaState := .idle
    interrupt := false
    cfgBlocklenSubOne := BitVec.allOnes 10
    cfgOnDevTrigger := false
    cfgLen := 0
    cfgLenNonzero := false
    nracks := 0
    nread := 0
    nwritten := 0
    nwacks := 0
    cfgErr := false
    lastReadRequest := false
    lastReadAck := false
    lastWriteRequest := false
    lastWriteAck := false
    rdaddr := 0
    trigger := false
    abort := false
    userHalt := false }

variable (x : Wbdmac w) (b : Mwb)

def mwbCyc : Bool :=
  x.dmaState == .readReq || x.dmaState == .readAck || x.dmaState == .writeReq || x.dmaState == .writeAck

def mwbStb : Bool := x.dmaState == .readReq || x.dmaState == .writeReq

def mwbWe : Bool := x.dmaState == .preWrite || x.dmaState == .writeReq || x.dmaState == .writeAck

/-- The CPU writes a register. -/
def sets (addr : BitVec 2) : Bool := x.s.stb && x.s.we && x.s.addr == addr

/-- The command that starts a transfer. -/
def starts : Bool :=
  x.dmaState == .idle && x.sets 0#2 && x.s.data.extractLsb' 16 12 == 0xfed#12 && x.s.data.extractLsb' 30 2 == 0#2 &&
    x.cfgLenNonzero

/-- Where the source or the destination goes from an address. -/
def advance (inc : Bool) (addr : BitVec w) : BitVec w := if inc then addr + 1 else addr

/-- `DMA_IDLE`: the registers can be written. -/
def idle : Wbdmac w :=
  { x with
    mwbAddr := x.cfgRaddr
    dmaState := if x.starts then .wait else .idle
    cfgBlocklenSubOne := if x.sets 0#2 then x.s.data.extractLsb' 0 10 + BitVec.allOnes 10 else x.cfgBlocklenSubOne
    cfgDevTrigger := if x.sets 0#2 then x.s.data.extractLsb' 10 5 else x.cfgDevTrigger
    cfgOnDevTrigger := if x.sets 0#2 then x.s.data.getLsbD 15 else x.cfgOnDevTrigger
    cfgIncs := if x.sets 0#2 then !x.s.data.getLsbD 29 else x.cfgIncs
    cfgIncd := if x.sets 0#2 then !x.s.data.getLsbD 28 else x.cfgIncd
    cfgRaddr := if x.sets 2#2 then x.s.data.extractLsb' 2 w else x.cfgRaddr
    cfgWaddr := if x.sets 3#2 then x.s.data.extractLsb' 2 w else x.cfgWaddr }

/-- Where a write that is answered leads. -/
def behindWrite (otherwise : State) : State :=
  if b.err || x.abort then .idle
  else if b.ack && x.lastWriteAck then (if x.cfgLen.toNat ≤ 1 then .idle else .wait)
  else if !x.cfgLenNonzero then .idle
  else otherwise

/-- The state machine, without the reset. -/
def machine : Wbdmac w :=
  match x.dmaState with
  | .idle => x.idle
  | .wait =>
    { x with
      mwbAddr := x.cfgRaddr
      dmaState := if x.abort then .idle else if x.userHalt then .idle else if x.trigger then .readReq else .wait }
  | .readReq =>
    { x with
      mwbAddr := if !b.stall then advance x.cfgIncs x.mwbAddr else x.mwbAddr
      dmaState :=
        if b.err || x.abort then .idle
        else if b.ack && x.lastReadAck then .preWrite
        else if !b.stall && (x.lastReadRequest || x.userHalt) then .readAck
        else .readReq
      cfgRaddr := if !(b.err || x.abort) && b.ack then advance x.cfgIncs x.cfgRaddr else x.cfgRaddr }
  | .readAck =>
    { x with
      dmaState :=
        if b.err || x.abort then .idle
        else if b.ack && x.userHalt then .idle
        else if b.ack && x.lastReadAck then .preWrite
        else .readAck
      cfgRaddr := if !(b.err || x.abort) && b.ack then advance x.cfgIncs x.cfgRaddr else x.cfgRaddr }
  | .preWrite =>
    { x with
      mwbAddr := x.cfgWaddr
      dmaState := if x.abort then .idle else .writeReq }
  | .writeReq =>
    { x with
      mwbAddr := if !b.stall then advance x.cfgIncd x.mwbAddr else x.mwbAddr
      cfgWaddr := if !b.stall then advance x.cfgIncd x.cfgWaddr else x.cfgWaddr
      dmaState := x.behindWrite b (if !b.stall && x.lastWriteRequest then .writeAck else .writeReq) }
  | .writeAck => { x with dmaState := x.behindWrite b .writeAck }

/-- Counted acknowledgements do not shift behind the requests. -/
def late : Bool := b.ack && (!x.mwbStb || b.stall)

/-- One clock; `swb` is at the control port, `devInts` are the interrupt lines. -/
def clock (reset : Bool) (swb : Swb) (devInts : BitVec 32) : Wbdmac w :=
  if reset then
    { x with
      dmaState := .idle
      cfgOnDevTrigger := false
      cfgIncs := false
      cfgIncd := false
      s := { swb with stb := false }
      interrupt := false
      cfgLen := 0
      cfgLenNonzero := false
      nracks := 0
      nread := 0
      nwritten := 0
      nwacks := 0
      cfgErr := false
      lastReadRequest := false
      lastReadAck := false
      lastWriteRequest := false
      lastWriteAck := false
      rdaddr := 0
      mwbData := 0
      trigger := false
      abort := false
      userHalt := false
      dmaMem :=
        if x.dmaState = .readReq ∨ x.dmaState = .readAck then
          Function.update x.dmaMem (x.nread.setWidth 10) b.data
        else x.dmaMem }
  else
    { x.machine b with
      s := swb
      interrupt :=
        x.dmaState == .writeAck && b.ack && x.lastWriteAck && x.cfgLen == 1#w || x.dmaState != .idle && b.err
      cfgLen :=
        if x.dmaState == .idle && x.sets 1#2 then x.s.data.setWidth w
        else if x.mwbCyc && x.mwbWe && b.ack then x.cfgLen - 1
        else x.cfgLen
      cfgLenNonzero :=
        if x.dmaState == .idle && x.sets 1#2 then x.s.data.setWidth w != 0#w
        else if x.mwbCyc && x.mwbWe && b.ack then 1 < x.cfgLen.toNat
        else x.cfgLenNonzero
      nracks :=
        if x.dmaState == .idle || x.dmaState == .wait then 0
        else if x.mwbStb && !x.mwbWe && !b.stall then x.nracks + 1
        else x.nracks
      nread :=
        if x.dmaState == .idle || x.dmaState == .wait then 0
        else if !x.mwbWe && b.ack then x.nread + 1
        else x.nread
      nwritten :=
        if !x.mwbCyc || !x.mwbWe then 0
        else if x.mwbStb && !b.stall then x.nwritten + 1
        else x.nwritten
      nwacks := if !x.mwbCyc || !x.mwbWe then 0 else if b.ack then x.nwacks + 1 else x.nwacks
      cfgErr :=
        if x.dmaState == .idle then (if x.sets 0#2 then false else x.cfgErr)
        else if b.err && x.mwbCyc || x.abort then true
        else x.cfgErr
      lastReadRequest :=
        if x.dmaState == .readReq && !b.stall then
          x.nracks.toNat + 1 == x.cfgBlocklenSubOne.toNat || x.nracks.toNat + 2 == x.cfgLen.toNat
        else if x.dmaState == .wait || x.dmaState == .readReq then
          x.nracks.toNat == x.cfgBlocklenSubOne.toNat || x.nracks.toNat + 1 == x.cfgLen.toNat
        else false
      lastReadAck :=
        match x.dmaState with
        | .readReq => (if x.late b then x.nread + 1 else x.nread) == 0#1 ++ x.cfgBlocklenSubOne
        | .readAck => if x.late b then x.nread.toNat + 2 == x.nracks.toNat else x.nread + 1 == x.nracks
        | _ => false
      lastWriteRequest :=
        match x.dmaState with
        | .preWrite => x.nread.toNat ≤ 1
        | .writeReq =>
          if b.stall then (x.nread.setWidth 32 - 1#32).toNat ≤ x.nwritten.toNat
          else (x.nread.setWidth 32 - 2#32).toNat ≤ x.nwritten.toNat
        | _ => false
      lastWriteAck :=
        (x.dmaState == .writeReq || x.dmaState == .writeAck) &&
          x.nwacks.toNat + (if x.late b then 2 else 1) == x.nwritten.toNat
      rdaddr :=
        if x.dmaState == .idle || x.dmaState == .wait || x.dmaState == .writeAck then 0
        else if x.dmaState == .preWrite || x.dmaState == .writeReq && !b.stall then x.rdaddr + 1
        else x.rdaddr
      mwbData := if x.dmaState != .writeReq || !b.stall then x.dmaMem x.rdaddr else x.mwbData
      dmaMem :=
        if x.dmaState = .readReq ∨ x.dmaState = .readAck then
          Function.update x.dmaMem (x.nread.setWidth 10) b.data
        else x.dmaMem
      trigger := x.dmaState == .wait && (!x.cfgOnDevTrigger || devInts.getLsbD x.cfgDevTrigger.toNat)
      abort := x.dmaState != .idle && (x.sets 0#2 && x.s.data == 0xffed0000#32)
      userHalt :=
        x.userHalt && x.dmaState != .idle || x.sets 0#2 && x.dmaState != .idle && x.s.data == 0xafed0000#32 }

end Wbdmac

end IcoZip.Dma
