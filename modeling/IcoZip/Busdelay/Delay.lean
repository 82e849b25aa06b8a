import Mathlib.Data.BitVec

/-! `busdelay`, which registers a bus between a master and a slave, with the
stall line delayed (`DELAY_STALL`) or not.
-/

set_option autoImplicit false

namespace IcoZip.Busdelay

/-- What goes along with a strobe. -/
structure Request (aw dw : Nat) where
  we : Bool
  addr : BitVec aw
  data : BitVec dw
  sel : BitVec (dw / 8)
  deriving DecidableEq, Repr

structure Inputs (aw dw : Nat) where
  reset : Bool
  wbCyc : Bool
  wbStb : Bool
  wb : Request aw dw
  dlyStall : Bool
  dlyAck : Bool
  dlyData : BitVec dw
  dlyErr : Bool
  deriving DecidableEq, Repr

/-- The registers. `rStb` and `r` are the skid buffer, which is there with `DELAY_STALL` only. -/
structure Delay (aw dw : Nat) where
  dlyCyc : Bool
  dlyStb : Bool
  dly : Request aw dw
  rStb : Bool
  r : Request aw dw
  wbAck : Bool
  wbData : BitVec dw
  wbErr : Bool
  deriving DecidableEq, Repr

variable {aw dw : Nat}

def Request.zero : Request aw dw := ⟨false, 0, 0, 0⟩

/-- Everything but the direction. -/
def Request.blank (q : Request aw dw) : Request aw dw := { q with addr := 0, data := 0, sel := 0 }

namespace Delay

def powerUp : Delay aw dw := ⟨false, false, .zero, false, .zero, false, 0, false⟩

variable (delayStall lowpower : Bool) (s : Delay aw dw) (i : Inputs aw dw)

def wbStall : Bool := if delayStall then s.rStb else i.dlyStall && s.dlyStb

/-- With `DELAY_STALL`. -/
def skidbuffer : Delay aw dw where
  dlyCyc := if i.reset || !i.wbCyc then false else !s.wbErr && (!i.dlyErr || !s.dlyCyc)
  dlyStb :=
    if i.reset || !i.wbCyc || s.wbErr || (s.dlyCyc && i.dlyErr) then false
    else if !s.dlyStb || !i.dlyStall then i.wbStb || s.rStb
    else s.dlyStb
  dly :=
    if lowpower && (i.reset || (!i.wbCyc || s.wbErr || (s.dlyCyc && i.dlyErr))) then .zero
    else if !s.dlyStb || !i.dlyStall then
      if s.rStb then s.r else if !lowpower || i.wbStb then i.wb else s.dly.blank
    else s.dly
  rStb :=
    if i.reset || !i.wbCyc || s.wbErr || i.dlyErr || !i.dlyStall || !s.dlyStb then false
    else if i.wbStb && !s.wbStall true i then true
    else s.rStb
  r :=
    if lowpower && (i.reset || !i.wbCyc || i.dlyErr || !s.dlyStb || !i.dlyStall) then .zero
    else if i.wbStb && !s.wbStall true i then i.wb
    else s.r
  wbAck := if i.reset || !i.wbCyc || s.wbErr || !s.dlyCyc then false else i.dlyAck
  wbData :=
    if lowpower && (i.reset || !i.wbCyc || !s.dlyCyc || s.wbErr || !i.dlyAck) then 0 else i.dlyData
  wbErr := if i.reset || !i.wbCyc || !s.dlyCyc then false else i.dlyErr

/-- Without it. -/
def unregistered : Delay aw dw where
  dlyCyc :=
    if i.reset then false
    else if i.dlyErr && s.dlyCyc then false
    else if s.wbErr && i.wbCyc then false
    else i.wbCyc
  dlyStb :=
    if i.reset then false
    else if i.dlyErr && s.dlyCyc then false
    else if s.wbErr && i.wbCyc then false
    else if !i.wbCyc then false
    else if !s.wbStall false i then i.wbStb
    else s.dlyStb
  dly :=
    let we := if !s.wbStall false i then i.wb.we else s.dly.we
    let rest :=
      if lowpower && (i.reset || !i.wbCyc || s.wbErr || (s.dlyCyc && i.dlyErr)) then s.dly.blank
      else if !s.dlyStb || !i.dlyStall then if lowpower && !i.wbStb then i.wb.blank else i.wb
      else s.dly
    { rest with we := we }
  rStb := s.rStb
  r := s.r
  wbAck := if i.reset then false else (i.dlyAck && !i.dlyErr && s.dlyCyc && i.wbCyc) && !s.wbErr
  wbErr :=
    if i.reset then false else if !s.dlyCyc then false else s.wbErr || i.dlyErr && i.wbCyc
  wbData :=
    if lowpower && (i.reset || !i.wbCyc || !s.dlyCyc || s.wbErr || !i.dlyAck) then 0 else i.dlyData

def clock : Delay aw dw := if delayStall then s.skidbuffer lowpower i else s.unregistered lowpower i

end Delay

end IcoZip.Busdelay
