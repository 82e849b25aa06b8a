import IcoZip.Library.Clocked

/-! The console port without FIFOs: `console` with `LGFLEN = 0`.

One register holds the last character received and one the character to be sent.
A bus access is answered two clocks after its strobe.
-/

set_option autoImplicit false

namespace IcoZip.Console

structure Inputs where
  reset : Bool
  cyc : Bool
  stb : Bool
  we : Bool
  addr : BitVec 2
  data : BitVec 32
  sel : BitVec 4
  /-- `i_console_busy` -/
  busy : Bool
  consoleStb : Bool
  consoleData : BitVec 7
  deriving DecidableEq, Repr

structure Registers where
  rxFifoData : BitVec 7
  rxFifoFull : Bool
  rxFifoErr : Bool
  txfWbWrite : Bool
  txfWbData : BitVec 7
  txfErr : Bool
  /-- `r_wb_addr` and `r_wb_ack`, a clock before `o_wb_data` and `o_wb_ack`. -/
  rWbAddr : BitVec 2
  rWbAck : Bool
  wbAck : Bool
  wbData : BitVec 32
  deriving DecidableEq, Repr

def setup : BitVec 2 := 0b00#2

def fifo : BitVec 2 := 0b01#2

def rxreg : BitVec 2 := 0b10#2

def txreg : BitVec 2 := 0b11#2

/-- A strobe that reads `RXREG`. -/
def Inputs.reads (i : Inputs) : Bool := i.stb && i.addr == rxreg && !i.we

namespace Registers

def consoleStb (s : Registers) : Bool := s.txfWbWrite

def rxfStatus (s : Registers) : BitVec 16 :=
  0#13 ++ (BitVec.ofBool s.rxFifoFull ++ BitVec.ofBool s.rxFifoFull ++ BitVec.ofBool s.rxFifoFull)

def txfStatus (s : Registers) : BitVec 16 :=
  0#13 ++ (BitVec.ofBool s.txfWbWrite ++ BitVec.ofBool s.txfWbWrite ++ BitVec.ofBool (!s.txfWbWrite))

def wbFifoData (s : Registers) : BitVec 32 := s.txfStatus ++ s.rxfStatus

def wbRxData (s : Registers) : BitVec 32 :=
  0#19 ++ BitVec.ofBool s.rxFifoErr ++ 0#3 ++ BitVec.ofBool (!s.rxFifoFull) ++ 0#1 ++ s.rxFifoData

def wbTxData (s : Registers) (busy : Bool) : BitVec 32 :=
  0#17 ++ s.txfStatus.extractLsb' 0 2 ++ BitVec.ofBool s.txfErr ++ 0#1 ++ BitVec.ofBool s.consoleStb ++ 0#1 ++
    BitVec.ofBool (busy || s.consoleStb) ++ 0#1 ++ if busy || s.consoleStb then s.txfWbData else 0#7

/-- One clock of `console`. -/
def clock (s : Registers) (i : Inputs) : Registers :=
  { rxFifoFull :=
      if i.reset then false
      else if i.consoleStb then true
      else if i.stb && i.addr == rxreg && !i.we then false
      else s.rxFifoFull
    rxFifoData := if i.consoleStb then i.consoleData else s.rxFifoData
    rxFifoErr :=
      if i.reset then false
      else if s.rxFifoFull && i.consoleStb then true
      else if i.stb && i.addr == rxreg then false
      else s.rxFifoErr
    txfWbWrite :=
      if i.reset then false
      else if i.stb && i.we && i.sel[0] && i.addr == txreg then true
      else if !i.busy then false
      else s.txfWbWrite
    txfWbData :=
      if i.stb && i.we && !s.consoleStb && i.addr == txreg then i.data.extractLsb' 0 7 else s.txfWbData
    txfErr :=
      if i.reset || (i.stb && i.we && i.addr == setup) then false
      else if i.stb && i.we && i.sel[1] && i.data[12] && i.addr == txreg then false
      else if i.stb && i.we && i.addr == txreg && s.consoleStb && i.busy then true
      else s.txfErr
    rWbAddr := i.addr
    rWbAck := !i.reset && i.stb
    wbAck := !i.reset && s.rWbAck && i.cyc
    wbData :=
      if s.rWbAddr = setup then 0
      else if s.rWbAddr = fifo then s.wbFifoData
      else if s.rWbAddr = rxreg then s.wbRxData
      else s.wbTxData i.busy }

end Registers

/-! ### The fields of a receive word -/

def rxError (word : BitVec 32) : Bool := word[12]

def rxEmpty (word : BitVec 32) : Bool := word[8]

def rxChar (word : BitVec 32) : BitVec 7 := word.extractLsb' 0 7

section
variable (s : Registers)

@[simp] theorem rxError_wbRxData : rxError s.wbRxData = s.rxFifoErr := by
  unfold rxError Registers.wbRxData
  rw [← BitVec.getLsbD_eq_getElem]
  grind

@[simp] theorem rxEmpty_wbRxData : rxEmpty s.wbRxData = !s.rxFifoFull := by
  unfold rxEmpty Registers.wbRxData
  rw [← BitVec.getLsbD_eq_getElem]
  grind

@[simp] theorem rxChar_wbRxData : rxChar s.wbRxData = s.rxFifoData := by
  apply BitVec.eq_of_getLsbD_eq
  intro p bound
  unfold rxChar Registers.wbRxData
  rw [BitVec.getLsbD_extractLsb']
  grind

end

end IcoZip.Console
