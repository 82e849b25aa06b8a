import Mathlib.Data.BitVec

/-! `memops`, the CPU's unit for single loads and stores.

Bytes have addresses of 32 bits, words on the bus addresses of `aw` bits
(`ADDRESS_WIDTH`).
-/

set_option autoImplicit false

namespace IcoZip.LoadStore

structure Options where
  /-- `IMPLEMENT_LOCK` -/
  lock : Bool
  /-- `WITH_LOCAL_BUS` -/
  localBus : Bool
  /-- `OPT_ALIGNMENT_ERR` -/
  alignmentErr : Bool
  /-- `OPT_LOWPOWER` -/
  lowpower : Bool
  /-- `OPT_LITTLE_ENDIAN` -/
  littleEndian : Bool
  deriving DecidableEq, Repr

/-- The CPU's side. -/
structure Cpu where
  reset : Bool
  stb : Bool
  lock : Bool
  op : BitVec 3
  addr : BitVec 32
  data : BitVec 32
  oreg : BitVec 5
  deriving DecidableEq, Repr

/-- The bus's side. -/
structure Bus where
  stall : Bool
  ack : Bool
  err : Bool
  data : BitVec 32
  deriving DecidableEq, Repr

structure Memops (aw : Nat) where
  cycGbl : Bool
  cycLcl : Bool
  stbGbl : Bool
  stbLcl : Bool
  we : Bool
  addr : BitVec aw
  data : BitVec 32
  sel : BitVec 4
  op : BitVec 4
  lockGbl : Bool
  lockLcl : Bool
  rdbusy : Bool
  valid : Bool
  err : Bool
  wreg : BitVec 5
  result : BitVec 32
  deriving DecidableEq, Repr

variable {aw : Nat}

/-! ### The tables -/

section Tables
variable (opt : Options) (op : BitVec 3) (addr : BitVec 32)

/-- `{ i_op[2:1], i_addr[1:0] }` -/
def sizeAndOffset : BitVec 4 := op.extractLsb' 1 2 ++ addr.extractLsb' 0 2

/-- `{ OPT_LITTLE_ENDIAN, i_op[2:1], i_addr[1:0] }` -/
def endianKey (key : BitVec 4) : BitVec 5 := BitVec.ofBool opt.littleEndian ++ key

/-- Whether a strobe is `misaligned`. -/
def misaligned (stb : Bool) : Bool :=
  let key := sizeAndOffset op addr
  if opt.alignmentErr then
    if key &&& 0b1101#4 = 0b0101#4 then stb
    else if key = 0b0110#4 then stb
    else if key &&& 0b1101#4 = 0b1001#4 then stb
    else false
  else false

def lclStb (stb : Bool) : Bool :=
  stb && opt.localBus && addr.extractLsb' 24 8 == 0xff#8 && !misaligned opt op addr stb

def gblStb (stb : Bool) : Bool :=
  stb && (!opt.localBus || addr.extractLsb' 24 8 != 0xff#8) && !misaligned opt op addr stb

/-- `o_wb_data` -/
def wbData (data : BitVec 32) : BitVec 32 :=
  let half := data.extractLsb' 0 16
  let byte := data.extractLsb' 0 8
  let key := endianKey opt (sizeAndOffset op addr)
  if opt.lowpower then
    if key.extractLsb' 1 4 = 0b0100#4 then half ++ 0#16
    else if key.extractLsb' 1 4 = 0b0101#4 then 0#16 ++ half
    else if key = 0b01100#5 then byte ++ 0#24
    else if key = 0b01101#5 then 0#8 ++ (byte ++ 0#16)
    else if key = 0b01110#5 then 0#16 ++ (byte ++ 0#8)
    else if key = 0b01111#5 then 0#24 ++ byte
    else if key.extractLsb' 1 4 = 0b1100#4 then 0#16 ++ half
    else if key.extractLsb' 1 4 = 0b1101#4 then half ++ 0#16
    else if key = 0b11100#5 then 0#24 ++ byte
    else if key = 0b11101#5 then 0#16 ++ (byte ++ 0#8)
    else if key = 0b11110#5 then 0#8 ++ (byte ++ 0#16)
    else if key = 0b11111#5 then byte ++ 0#24
    else data
  else if op.extractLsb' 1 2 = 0b10#2 then half ++ half
  else if op.extractLsb' 1 2 = 0b11#2 then byte ++ (byte ++ (byte ++ byte))
  else data

/-- `o_wb_sel` -/
def wbSel : BitVec 4 :=
  let key := endianKey opt (sizeAndOffset op addr)
  if key.extractLsb' 2 3 = 0b001#3 then 0b1111#4
  else if key.extractLsb' 1 4 = 0b0100#4 then 0b1100#4
  else if key.extractLsb' 1 4 = 0b0101#4 then 0b0011#4
  else if key = 0b01100#5 then 0b1000#4
  else if key = 0b01101#5 then 0b0100#4
  else if key = 0b01110#5 then 0b0010#4
  else if key = 0b01111#5 then 0b0001#4
  else if key.extractLsb' 2 3 = 0b101#3 then 0b1111#4
  else if key.extractLsb' 1 4 = 0b1100#4 then 0b0011#4
  else if key.extractLsb' 1 4 = 0b1101#4 then 0b1100#4
  else if key = 0b11100#5 then 0b0001#4
  else if key = 0b11101#5 then 0b0010#4
  else if key = 0b11110#5 then 0b0100#4
  else if key = 0b11111#5 then 0b1000#4
  else 0b1111#4

/-- `o_result`, for `r_op` -/
def extracted (rOp : BitVec 4) (data : BitVec 32) : BitVec 32 :=
  let key := endianKey opt rOp
  if key.extractLsb' 2 2 = 0b01#2 then data
  else if key.extractLsb' 1 4 = 0b0100#4 then 0#16 ++ data.extractLsb' 16 16
  else if key.extractLsb' 1 4 = 0b0101#4 then 0#16 ++ data.extractLsb' 0 16
  else if key = 0b01100#5 then 0#24 ++ data.extractLsb' 24 8
  else if key = 0b01101#5 then 0#24 ++ data.extractLsb' 16 8
  else if key = 0b01110#5 then 0#24 ++ data.extractLsb' 8 8
  else if key = 0b01111#5 then 0#24 ++ data.extractLsb' 0 8
  else if key.extractLsb' 1 4 = 0b1100#4 then 0#16 ++ data.extractLsb' 0 16
  else if key.extractLsb' 1 4 = 0b1101#4 then 0#16 ++ data.extractLsb' 16 16
  else if key = 0b11100#5 then 0#24 ++ data.extractLsb' 0 8
  else if key = 0b11101#5 then 0#24 ++ data.extractLsb' 8 8
  else if key = 0b11110#5 then 0#24 ++ data.extractLsb' 16 8
  else if key = 0b11111#5 then 0#24 ++ data.extractLsb' 24 8
  else data

end Tables

/-! ### The registers -/

namespace Memops

/-- The `initial` values; registers without one keep what `free` has. -/
def powerUp (free : Memops aw) : Memops aw :=
  { free with
    cycGbl := false
    cycLcl := false
    stbGbl := false
    stbLcl := false
    we := false
    data := 0
    sel := 0
    lockGbl := false
    lockLcl := false
    rdbusy := false
    valid := false
    err := false }

variable (opt : Options) (s : Memops aw) (i : Cpu) (bus : Bus)

/-- `o_wb_cyc_gbl` -/
def wbCycGbl : Bool := if opt.lock then s.cycGbl || s.lockGbl else s.cycGbl

/-- `o_wb_cyc_lcl` -/
def wbCycLcl : Bool := if opt.lock then s.cycLcl || s.lockLcl else s.cycLcl

def busy : Bool := s.cycGbl || s.cycLcl

/-- One clock. -/
def clock : Memops aw where
  cycGbl :=
    if i.reset then false
    else if s.busy then if bus.ack || bus.err then false else s.cycGbl
    else gblStb opt i.op i.addr i.stb
  cycLcl :=
    if i.reset then false
    else if s.busy then if bus.ack || bus.err then false else s.cycLcl
    else lclStb opt i.op i.addr i.stb
  stbGbl :=
    if i.reset then false
    else if bus.err && s.cycGbl then false
    else if gblStb opt i.op i.addr i.stb then true
    else if s.wbCycGbl opt then s.stbGbl && bus.stall
    else s.stbGbl
  stbLcl :=
    if i.reset then false
    else if bus.err && s.cycLcl then false
    else if lclStb opt i.op i.addr i.stb then true
    else if s.wbCycLcl opt then s.stbLcl && bus.stall
    else s.stbLcl
  we :=
    if i.stb then i.op.getLsbD 0
    else if opt.lowpower && !s.wbCycGbl opt && !s.wbCycLcl opt then false
    else s.we
  data :=
    if i.stb then wbData opt i.op i.addr i.data
    else if opt.lowpower && !s.wbCycGbl opt && !s.wbCycLcl opt then 0
    else s.data
  addr :=
    if i.stb then i.addr.extractLsb' 2 aw
    else if opt.lowpower && !s.wbCycGbl opt && !s.wbCycLcl opt then 0
    else s.addr
  sel :=
    if i.stb then wbSel opt i.op i.addr
    else if opt.lowpower && !s.wbCycGbl opt && !s.wbCycLcl opt then 0
    else s.sel
  op := if i.stb then sizeAndOffset i.op i.addr else s.op
  valid := !i.reset && ((s.wbCycGbl opt || s.wbCycLcl opt) && bus.ack && !s.we)
  err :=
    if i.reset then false
    else if s.busy then bus.err
    else if i.stb && !s.busy then misaligned opt i.op i.addr i.stb
    else false
  rdbusy :=
    if i.reset || ((s.wbCycGbl opt || s.wbCycLcl opt) && (bus.err || bus.ack)) then false
    else if i.stb && !i.op.getLsbD 0 && !misaligned opt i.op i.addr i.stb then true
    else if s.valid then false
    else s.rdbusy
  wreg := if i.stb then i.oreg else s.wreg
  result := if opt.lowpower && !bus.ack then 0 else extracted opt s.op bus.data
  lockGbl :=
    if i.reset then false
    else if bus.err && s.busy || misaligned opt i.op i.addr i.stb then false
    else i.lock && (s.cycGbl || s.lockGbl) && !lclStb opt i.op i.addr i.stb
  lockLcl :=
    if i.reset then false
    else if bus.err && s.busy || misaligned opt i.op i.addr i.stb then false
    else i.lock && (s.cycLcl || s.lockLcl) && !gblStb opt i.op i.addr i.stb

end Memops

end IcoZip.LoadStore
