import IcoZip.LoadStore.Memops

/-! `pipemem`, the CPU's unit for loads and stores in a row.

What belongs to an operation that the bus has not answered waits in a ring of
sixteen entries.
-/

set_option autoImplicit false

namespace IcoZip.LoadStore

namespace Pipemem

structure Options where
  /-- `IMPLEMENT_LOCK` -/
  lock : Bool
  /-- `WITH_LOCAL_BUS` -/
  localBus : Bool
  /-- `OPT_ZERO_ON_IDLE` -/
  zeroOnIdle : Bool
  /-- `OPT_ALIGNMENT_ERR` -/
  alignmentErr : Bool
  /-- `OPT_MAXDEPTH` -/
  maxDepth : BitVec 4
  deriving DecidableEq, Repr

end Pipemem

structure Pipemem (aw : Nat) where
  cyc : Bool
  cycGbl : Bool
  cycLcl : Bool
  stbGbl : Bool
  stbLcl : Bool
  we : Bool
  addr : BitVec aw
  data : BitVec 32
  sel : BitVec 4
  rdaddr : BitVec 4
  wraddr : BitVec 4
  full : Bool
  /-- `fifo_oreg` -/
  fifo : BitVec 4 → BitVec 8
  /-- `fifo_gie` -/
  gie : Bool
  lockGbl : Bool
  lockLcl : Bool
  valid : Bool
  err : Bool
  wreg : BitVec 5
  result : BitVec 32

namespace Pipemem
variable {aw : Nat}

/-! ### The tables -/

section Tables
variable (opt : Options) (op : BitVec 3) (addr : BitVec 32)

def misaligned (stb : Bool) : Bool :=
  let key := sizeAndOffset op addr
  if opt.alignmentErr then
    if key &&& 0b1101#4 = 0b0101#4 then stb
    else if key = 0b0110#4 then stb
    else if key &&& 0b1101#4 = 0b1001#4 then stb
    else stb
  else false

def lclBus : Bool := addr.extractLsb' 24 8 == 0xff#8 && opt.localBus

/-- `lcl_stb` -/
def lclStb (stb : Bool) : Bool := lclBus opt addr && !misaligned opt op addr stb

/-- `gbl_stb` -/
def gblStb (stb : Bool) : Bool := (!lclBus opt addr || !opt.localBus) && !misaligned opt op addr stb

/-- `o_wb_sel` -/
def wbSel : BitVec 4 :=
  let key := sizeAndOffset op addr
  if key.extractLsb' 1 3 = 0b100#3 then 0b1100#4
  else if key.extractLsb' 1 3 = 0b101#3 then 0b0011#4
  else if key = 0b1100#4 then 0b1000#4
  else if key = 0b1101#4 then 0b0100#4
  else if key = 0b1110#4 then 0b0010#4
  else if key = 0b1111#4 then 0b0001#4
  else 0b1111#4

/-- `o_wb_data` -/
def wbData (data : BitVec 32) : BitVec 32 :=
  let half := data.extractLsb' 0 16
  let byte := data.extractLsb' 0 8
  let key := sizeAndOffset op addr
  if key.extractLsb' 1 3 = 0b100#3 then half ++ 0#16
  else if key.extractLsb' 1 3 = 0b101#3 then 0#16 ++ half
  else if key = 0b1100#4 then byte ++ 0#24
  else if key = 0b1101#4 then 0#8 ++ (byte ++ 0#16)
  else if key = 0b1110#4 then 0#16 ++ (byte ++ 0#8)
  else if key = 0b1111#4 then 0#24 ++ byte
  else data

/-- `o_result`, for the key of the operation -/
def extracted (key : BitVec 4) (data : BitVec 32) : BitVec 32 :=
  if key = 0b1100#4 then 0#24 ++ data.extractLsb' 24 8
  else if key = 0b1101#4 then 0#24 ++ data.extractLsb' 16 8
  else if key = 0b1110#4 then 0#24 ++ data.extractLsb' 8 8
  else if key = 0b1111#4 then 0#24 ++ data.extractLsb' 0 8
  else if key.extractLsb' 1 3 = 0b100#3 then 0#16 ++ data.extractLsb' 16 16
  else if key.extractLsb' 1 3 = 0b101#3 then 0#16 ++ data.extractLsb' 0 16
  else data

end Tables

/-! ### The registers -/

/-- The `initial` values; registers without one keep what `free` has. -/
def powerUp (free : Pipemem aw) : Pipemem aw :=
  { free with
    cyc := false
    cycGbl := false
    cycLcl := false
    stbGbl := false
    stbLcl := false
    rdaddr := 0
    wraddr := 0
    full := false
    lockGbl := false
    lockLcl := false
    valid := false
    err := false }

variable (opt : Options) (s : Pipemem aw) (i : Cpu) (bus : Bus)

/-- `fifo_fill` -/
def fill : BitVec 4 := s.wraddr - s.rdaddr

/-- `w_wreg` -/
def entry : BitVec 8 := s.fifo s.rdaddr

/-- `o_wb_cyc_gbl` -/
def wbCycGbl : Bool := if opt.lock then s.cycGbl || s.lockGbl else s.cycGbl

/-- `o_wb_cyc_lcl` -/
def wbCycLcl : Bool := if opt.lock then s.cycLcl || s.lockLcl else s.cycLcl

/-- `o_pipe_stalled` -/
def pipeStalled : Bool := s.cyc && s.full || s.cyc && (bus.stall || !s.stbLcl && !s.stbGbl)

/-- The ring is emptied: by an error of the bus, or by a misaligned operation. -/
def flushes : Bool := bus.err && s.cyc || i.stb && misaligned opt i.op i.addr i.stb

/-- The strobes fall, and nothing follows. -/
def strobesEnd : Bool := !bus.stall && !i.stb && !misaligned opt i.op i.addr i.stb || bus.err

/-- The last answer there is to come, or an error. -/
def cycleEnds : Bool :=
  bus.ack && s.rdaddr + 1#4 == s.wraddr && (!i.stb || misaligned opt i.op i.addr i.stb) || bus.err

/-- One clock. -/
def clock : Pipemem aw where
  cyc :=
    if i.reset then false
    else if s.cyc then s.cyc && !s.cycleEnds opt i bus
    else if i.stb then !misaligned opt i.op i.addr i.stb
    else s.cyc
  cycGbl :=
    if i.reset then false
    else if s.cyc then s.cycGbl && !s.cycleEnds opt i bus
    else if i.stb then gblStb opt i.op i.addr i.stb
    else s.cycGbl
  cycLcl :=
    if !opt.localBus then false
    else if i.reset then false
    else if s.cyc then s.cycLcl && !s.cycleEnds opt i bus
    else if i.stb then lclStb opt i.op i.addr i.stb
    else s.cycLcl
  stbGbl :=
    if i.reset then false
    else if s.cyc then s.stbGbl && !strobesEnd opt i bus && !s.cycleEnds opt i bus
    else if i.stb then gblStb opt i.op i.addr i.stb
    else s.stbGbl
  stbLcl :=
    if !opt.localBus then false
    else if i.reset then false
    else if s.cyc then s.stbLcl && !strobesEnd opt i bus && !s.cycleEnds opt i bus
    else if i.stb then lclStb opt i.op i.addr i.stb
    else s.stbLcl
  we :=
    if i.stb && !s.cyc then i.op.getLsbD 0
    else if opt.zeroOnIdle && !s.cyc then false
    else s.we
  addr :=
    if !s.cyc || !bus.stall then
      if opt.zeroOnIdle && !i.stb then 0 else i.addr.extractLsb' 2 aw
    else s.addr
  sel :=
    if !s.cyc || !bus.stall then
      if opt.zeroOnIdle && !i.stb then 0 else wbSel i.op i.addr
    else s.sel
  data :=
    if !s.cyc || !bus.stall then
      if opt.zeroOnIdle && !i.stb then 0 else wbData i.op i.addr i.data
    else s.data
  rdaddr :=
    if i.reset then 0
    else if s.flushes opt i bus then 0
    else if bus.ack && s.cyc then s.rdaddr + 1#4
    else s.rdaddr
  wraddr :=
    if i.reset then 0
    else if s.flushes opt i bus then 0
    else if i.stb then s.wraddr + 1#4
    else s.wraddr
  full :=
    if i.reset then false
    else if s.flushes opt i bus then false
    else if i.stb then decide (opt.maxDepth.setWidth 32 - 1#32 ≤ s.fill.setWidth 32)
    else decide (opt.maxDepth ≤ s.fill)
  fifo := Function.update s.fifo s.wraddr (i.oreg.extractLsb' 0 4 ++ sizeAndOffset i.op i.addr)
  gie := if i.stb then i.oreg.getLsbD 4 else s.gie
  lockGbl :=
    if i.reset || bus.err && s.cyc || i.stb && misaligned opt i.op i.addr i.stb || !i.lock then false
    else s.cycGbl || s.lockGbl
  lockLcl :=
    if !opt.localBus then false
    else if i.reset || bus.err && s.cyc || i.stb && misaligned opt i.op i.addr i.stb || !i.lock then false
    else s.cycLcl || s.lockLcl
  valid := !i.reset && (s.cyc && bus.ack && !s.we)
  err := !i.reset && (s.cyc && bus.err || i.stb && misaligned opt i.op i.addr i.stb)
  wreg := BitVec.ofBool s.gie ++ s.entry.extractLsb' 4 4
  result :=
    if opt.zeroOnIdle && (!s.cyc || !bus.ack && !bus.err) then 0
    else extracted (s.entry.extractLsb' 0 4) bus.data

end Pipemem

end IcoZip.LoadStore
