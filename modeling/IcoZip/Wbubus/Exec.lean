import IcoZip.Library.Clocked

/-! The command executor `wbuexec` behind the input FIFO, as `wbuconsole` and
`wbubus` connect them: a codeword is popped, and shown to the executor, only
while the executor is not busy.

Reads of every length run to their end. A write raises `o_busy` and waits for
the next codeword before it lowers it.
-/

set_option autoImplicit false

namespace IcoZip.Wbubus

inductive WbState where
  | idle
  | readRequest
  | writeRequest
  | flushWriteRequests
  deriving DecidableEq, Repr

structure Exec where
  wbState : WbState
  busy : Bool
  wbCyc : Bool
  wbStb : Bool
  wbWe : Bool
  wbAddr : BitVec 32
  wbData : BitVec 32
  stb : Bool
  codword : BitVec 36
  acksNeeded : BitVec 10
  rLen : BitVec 10
  rInc : Bool
  rNewAddr : Bool
  lastReadRequest : Bool
  lastAck : Bool
  zeroAcks : Bool
  singleReadRequest : Bool
  deriving DecidableEq, Repr

/-- What the slave drives. -/
structure Slave where
  stall : Bool
  ack : Bool
  err : Bool
  data : BitVec 32
  deriving DecidableEq, Repr

def writePrefix : BitVec 2 := 0b01#2

def readPrefix : BitVec 2 := 0b11#2

def codData (codeword : BitVec 36) : BitVec 32 := codeword.extractLsb' 31 2 ++ codeword.extractLsb' 0 30

/-- The two bits that tell reads and writes from other codewords. -/
def kind (codeword : BitVec 36) : BitVec 2 := codeword.extractLsb' 34 2

def readLength (codeword : BitVec 36) : BitVec 10 := codeword.extractLsb' 0 10

namespace Exec

/-- `o_wb_cyc`, `o_wb_stb`, `o_busy` and `wb_state` together. -/
def control (s : Exec) : WbState × Bool × Bool × Bool := (s.wbState, s.wbCyc, s.wbStb, s.busy)

/-- A request that the slave accepts. -/
def requests (s : Exec) (i : Slave) : Bool := s.wbStb && !i.stall

def needed (i : Slave) : BitVec 10 := if i.ack then 1#10 else 0#10

/-- The state machine: `wb_state`, `o_wb_cyc`, `o_wb_stb` and `o_busy`. -/
def machine (s : Exec) (iReset iStb : Bool) (iCodeword : BitVec 36) (i : Slave) : WbState × Bool × Bool × Bool :=
  if iReset then (.idle, false, false, false)
  else
    match s.wbState with
    | .idle =>
        if iStb && kind iCodeword == writePrefix then (.writeRequest, true, true, true)
        else if iStb && kind iCodeword == readPrefix then (.readRequest, true, true, true)
        else (.idle, false, false, s.busy)
    | .readRequest =>
        if i.err then (.idle, false, false, false)
        else
          let stb := if !i.stall && (s.singleReadRequest || s.lastReadRequest) then false else s.wbStb
          if i.ack && s.lastAck then (.idle, false, stb, false) else (.readRequest, true, stb, s.busy)
    | .writeRequest =>
        if i.err then (.flushWriteRequests, false, false, true)
        else
          let stb := if !i.stall then false else s.wbStb
          if iStb && !s.wbStb then
            let done := s.busy && kind iCodeword != writePrefix && s.acksNeeded == needed i
            let state := if done then WbState.idle else .writeRequest
            if !s.busy then (state, !done, true, true)
            else if kind iCodeword == writePrefix || s.acksNeeded == needed i then (state, !done, stb, false)
            else (state, !done, stb, true)
          else (.writeRequest, true, stb, true)
    | .flushWriteRequests =>
        if iStb && kind iCodeword != writePrefix then (.idle, false, false, false)
        else (.flushWriteRequests, false, false, true)

/-- One clock of `wbuexec`. -/
def wbuexec (s : Exec) (iReset iStb : Bool) (iCodeword : BitVec 36) (i : Slave) : Exec :=
  let next := s.machine iReset iStb iCodeword i
  { wbState := next.1
    wbCyc := next.2.1
    wbStb := next.2.2.1
    busy := next.2.2.2
    wbData :=
      if !iReset && (s.wbState == .idle || (s.wbState == .writeRequest && !s.busy)) then codData iCodeword else s.wbData
    wbWe := if s.wbState = .idle then !iCodeword[35] else s.wbWe
    wbAddr :=
      if iStb && !s.busy && iCodeword.extractLsb' 32 4 == 0x0#4 then iCodeword.extractLsb' 0 32
      else if iStb && !s.busy && iCodeword.extractLsb' 33 3 == 0x1#3 then s.wbAddr + codData iCodeword
      else if s.requests i && s.rInc then s.wbAddr + 1
      else s.wbAddr
    rNewAddr :=
      if iReset then true
      else if !s.wbCyc && iStb && !iCodeword[35] then true
      else if s.wbCyc then false
      else s.rNewAddr
    stb :=
      if iReset then true
      else if !s.wbCyc then iStb && !s.busy && kind iCodeword == readPrefix && s.rNewAddr
      else i.err || i.ack
    codword :=
      if iReset then 0x03#6 ++ i.data.extractLsb' 0 30
      else if !s.wbCyc then 0x2#4 ++ s.wbAddr
      else if i.err then 0x05#6 ++ i.data.extractLsb' 0 30
      else if s.wbWe then 0x02#6 ++ i.data.extractLsb' 0 30
      else 0x7#3 ++ i.data.extractLsb' 30 2 ++ BitVec.ofBool s.rInc ++ i.data.extractLsb' 0 30
    acksNeeded :=
      if !s.wbCyc then 0#10
      else if s.requests i && !i.ack then s.acksNeeded + 1#10
      else if !s.requests i && i.ack then s.acksNeeded - 1#10
      else s.acksNeeded
    rInc := if s.wbState = .idle then iCodeword[30] else s.rInc
    lastAck :=
      if !s.wbCyc then kind iCodeword == readPrefix && readLength iCodeword ≤ 1#10
      else !s.wbWe && s.rLen.toNat + s.acksNeeded.toNat ≤ 1 + if i.ack then 1 else 0
    zeroAcks := !s.wbStb && s.acksNeeded == needed i
    rLen :=
      if !s.wbCyc then readLength iCodeword
      else if s.requests i && s.rLen != 0#10 then s.rLen - 1#10
      else s.rLen
    singleReadRequest := if !s.wbCyc then readLength iCodeword ≤ 1#10 else s.singleReadRequest
    lastReadRequest :=
      if !s.wbCyc then readLength iCodeword ≤ 1#10
      else if s.requests i then s.rLen ≤ 2#10
      else s.rLen ≤ 1#10 }

end Exec

end IcoZip.Wbubus
