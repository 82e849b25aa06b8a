import Mathlib.Data.BitVec
import Mathlib.Logic.Function.Basic

/-! The SDRAM controller `wbsdram`, out of its start-up sequence, with the read
path it has under Verilator.

`command` is the decision of its state machine and `step` one clock. A word
address is a row, a bank and a column.
-/

set_option autoImplicit false

namespace IcoZip.Sdram

/-- The bus inputs of a clock. -/
structure Wb where
  cyc : Bool
  stb : Bool
  we : Bool
  addr : BitVec 21
  data : BitVec 32
  sel : BitVec 4
  deriving DecidableEq, Repr

def row (addr : BitVec 21) : BitVec 12 := addr.extractLsb' 9 12
def bank (addr : BitVec 21) : BitVec 2 := addr.extractLsb' 7 2
def column (addr : BitVec 21) : BitVec 7 := addr.extractLsb' 0 7

/-- The pins of the memory. -/
structure Pins where
  csN : Bool
  rasN : Bool
  casN : Bool
  weN : Bool
  bs : BitVec 2
  addr : BitVec 12
  dmod : Bool
  data : BitVec 16
  dqm : BitVec 2
  deriving DecidableEq, Repr

/-- The registers of the controller; `ramDataIn` is the `ram_data` of the Verilator path. -/
@[ext]
structure Wbsdram where
  needRefresh : Bool
  refreshClk : BitVec 10
  inRefresh : Bool
  inRefreshClk : BitVec 3
  bankActive : BitVec 2 → BitVec 3
  bankRow : BitVec 2 → BitVec 12
  barrellAck : BitVec 6
  rPending : Bool
  rWe : Bool
  rAddr : BitVec 21
  rData : BitVec 32
  rSel : BitVec 4
  fwdAddr : BitVec 21
  rBankValid : Bool
  fwdBankValid : Bool
  clocksTilIdle : BitVec 3
  nxtDmod : Bool
  stall : Bool
  pins : Pins
  ramDataIn : BitVec 16
  lastRamData : BitVec 16

/-- What the state machine does in a clock. -/
inductive Command where
  | noop
  | prechargeAll
  | refresh
  | activate (bs : BitVec 2) (row : BitVec 12)
  | precharge (bs : BitVec 2)
  | read
  | write
  deriving DecidableEq, Repr

namespace Wbsdram

def COL_THRESHOLD : BitVec 7 := -16

def banks : List (BitVec 2) := [0, 1, 2, 3]

section
variable (s : Wbsdram) (i : Wb)

def busCyc : Bool := i.cyc && i.stb && !s.stall

/-- A request that has not been issued. -/
def pending : Bool := s.rPending && s.stall

def refreshCmd : Bool := !s.pins.csN && !s.pins.rasN && !s.pins.casN && s.pins.weN

/-- A read or write command is on the pins. -/
def accessCmd : Bool := !s.pins.csN && s.pins.rasN && !s.pins.casN

def rBs : BitVec 2 := bank s.rAddr
def rRow : BitVec 12 := row s.rAddr
def fwdBs : BitVec 2 := bank s.fwdAddr
def fwdRow : BitVec 12 := row s.fwdAddr

/-- The branches of the state machine, in their order. -/
def command : Command :=
  if s.nxtDmod then .noop
  else if !i.cyc || s.needRefresh then
    if banks.any (fun b => (s.bankActive b).extractLsb' 1 2 == 0b10#2) || s.clocksTilIdle != 0 then .noop
    else if banks.any (fun b => (s.bankActive b).getLsbD 2) then .prechargeAll
    else if banks.any (fun b => s.bankActive b != 0) then .noop
    else if !s.inRefresh && (s.refreshClk.extractLsb' 8 2 == 0b00#2 || s.needRefresh) then .refresh
    else .noop
  else if s.inRefresh then .noop
  else if s.pending && !s.rBankValid && s.bankActive s.rBs == 0 then .activate s.rBs s.rRow
  else if s.pending && !s.rBankValid && s.bankActive s.rBs == 0b111 then .precharge s.rBs
  else if s.pending && !s.rWe && (s.bankActive s.rBs).getLsbD 2 && s.rBankValid && s.clocksTilIdle < 4 then .read
  else if s.pending && s.rWe && (s.bankActive s.rBs).getLsbD 2 && s.rBankValid && s.clocksTilIdle == 0 then .write
  else if s.rPending && COL_THRESHOLD ≤ column s.rAddr && !s.fwdBankValid then
    if (s.bankActive s.fwdBs).extractLsb' 1 2 == 0b11#2 then .precharge s.fwdBs
    else if s.bankActive s.fwdBs == 0 then .activate s.fwdBs s.fwdRow
    else .noop
  else .noop

/-- A bank goes on in its state. -/
def continued (active : BitVec 3) : BitVec 3 :=
  BitVec.ofBool (active.getLsbD 2) ++ active.extractLsb' 1 2

def opened (active : BitVec 3) : BitVec 3 := 1#1 ++ (continued active).extractLsb' 0 2

def closed (active : BitVec 3) : BitVec 3 := 0#1 ++ (continued active).extractLsb' 0 2

/-- `bank_active` after a command. The look-ahead sets 3'h4, which is what opening an idle bank gives. -/
def bankActive' (cmd : Command) (b : BitVec 2) : BitVec 3 :=
  match cmd with
  | .prechargeAll => closed (s.bankActive b)
  | .activate bs _ => if b = bs then opened (s.bankActive b) else continued (s.bankActive b)
  | .precharge bs => if b = bs then closed (s.bankActive b) else continued (s.bankActive b)
  | _ => continued (s.bankActive b)

/-- The pins after a command. -/
def pins' (cmd : Command) : Pins :=
  let dqm := if s.rWe then if s.nxtDmod then ~~~ s.rSel.extractLsb' 0 2 else ~~~ s.rSel.extractLsb' 2 2 else 0
  let data := if s.nxtDmod then s.rData.extractLsb' 0 16 else s.rData.extractLsb' 16 16
  let column : BitVec 12 := 0#4 ++ (column s.rAddr ++ 0#1)
  let a10 (level : BitVec 1) : BitVec 12 :=
    s.pins.addr.extractLsb' 11 1 ++ (level ++ s.pins.addr.extractLsb' 0 10)
  match cmd with
  | .noop =>
    { s.pins with csN := !i.cyc, rasN := true, casN := true, weN := true, dmod := s.nxtDmod, data, dqm }
  | .prechargeAll =>
    { s.pins with csN := false, rasN := false, casN := true, weN := false, addr := a10 1, dmod := s.nxtDmod, data, dqm }
  | .refresh =>
    { s.pins with csN := false, rasN := false, casN := false, weN := true, dmod := s.nxtDmod, data, dqm }
  | .activate bs row =>
    { csN := false, rasN := false, casN := true, weN := true, addr := row, bs, dmod := s.nxtDmod, data, dqm }
  | .precharge bs =>
    { csN := false, rasN := false, casN := true, weN := false, addr := a10 0, bs, dmod := s.nxtDmod, data, dqm }
  | .read =>
    { csN := false, rasN := true, casN := false, weN := true, addr := column, bs := s.rBs,
      dmod := s.nxtDmod, data, dqm }
  | .write =>
    { csN := false, rasN := true, casN := false, weN := false, addr := column, bs := s.rBs, dmod := true, data, dqm }

/-- One clock. -/
def step (iRamData : BitVec 16) : Wbsdram :=
  let cmd := s.command i
  { needRefresh := s.refreshClk == 0 && !s.refreshCmd
    refreshClk := if s.refreshCmd then 625 else if s.refreshClk != 0 then s.refreshClk - 1 else s.refreshClk
    inRefresh := s.inRefreshClk != 0 || s.refreshCmd
    inRefreshClk := if s.refreshCmd then 6 else if s.inRefreshClk != 0 then s.inRefreshClk - 1 else s.inRefreshClk
    bankActive := s.bankActive' cmd
    bankRow := match cmd with
      | .activate bs row => Function.update s.bankRow bs row
      | _ => s.bankRow
    barrellAck :=
      if !i.cyc then 0
      else
        match cmd with
        | .read => s.barrellAck >>> 1 ||| 0b100000#6
        | .write => s.barrellAck >>> 1 ||| 0b000010#6
        | _ => s.barrellAck >>> 1
    rPending := if s.busCyc i then true else if s.accessCmd then false else if !i.cyc then false else s.rPending
    rWe := if s.busCyc i then i.we else s.rWe
    rAddr := if s.busCyc i then i.addr else s.rAddr
    rData := if s.busCyc i then i.data else s.rData
    rSel := if s.busCyc i then i.sel else s.rSel
    fwdAddr := (if s.busCyc i then i.addr.extractLsb' 7 14 + 1 else s.fwdAddr.extractLsb' 7 14) ++ 0#7
    rBankValid :=
      if s.busCyc i then (s.bankActive (bank i.addr)).getLsbD 2 && s.bankRow (bank i.addr) == row i.addr
      else (s.bankActive s.rBs).getLsbD 2 && s.bankRow s.rBs == s.rRow
    fwdBankValid := (s.bankActive s.fwdBs).getLsbD 2 && s.bankRow s.fwdBs == s.fwdRow
    clocksTilIdle := match cmd with
      | .read => 4
      | .write => 1
      | _ => if s.clocksTilIdle != 0 then s.clocksTilIdle - 1 else s.clocksTilIdle
    nxtDmod := cmd == .write
    stall := match cmd with
      | .read | .write => false
      | _ => s.rPending || s.busCyc i
    pins := s.pins' i cmd
    ramDataIn := iRamData
    lastRamData := s.ramDataIn }

/-- `o_wb_data`. -/
def wbData : BitVec 32 := s.lastRamData ++ s.ramDataIn

/-- `o_wb_ack`. -/
def wbAck : Bool := s.barrellAck.getLsbD 0

end

end Wbsdram

end IcoZip.Sdram
