import Mathlib.Data.BitVec
import Mathlib.Logic.Function.Basic

/-! `FLASHSIM`. A call that runs into an assertion, leaves the memory array or shifts by more than
a width fails. Messages and what only they depend on are left out.
-/

set_option autoImplicit false

namespace IcoZip.Flash

inductive QspifState where
  | idle | quadReadIdle | rdsr | rdcr | wrsr | clsr | rdid | release | slowRead | fastRead | quadReadCmd
  | quadRead | sectorErase | pp | qpp | bulkErase | deepPowerDown | dualReadIdle | dualReadCmd | dualRead
  | invalid
  deriving DecidableEq, Repr

inductive FlashMode where
  | spi | dspi | qspi
  deriving DecidableEq, Repr

abbrev Array8 := BitVec 32 → BitVec 8

structure Flashsim where
  mem : Array8
  pmem : BitVec 8 → BitVec 8
  state : QspifState
  mode : FlashMode
  lastSck : Bool
  writeCount : BitVec 32
  ireg : BitVec 32
  oreg : BitVec 32
  sreg : BitVec 32
  addr : BitVec 32
  count : BitVec 32
  modeByte : BitVec 32
  creg : BitVec 32

structure Pins where
  csn : Bool
  sck : Bool
  dat : BitVec 32

namespace Flashsim

/-! ### Constants -/

def DEVID : BitVec 32 := 0x0115
def DEVESD : BitVec 32 := 0x014
def MICROSECONDS : Nat := 100
def MILLISECONDS : Nat := MICROSECONDS * 1000
def SECONDS : Nat := MILLISECONDS * 1000
def tW : BitVec 32 := BitVec.ofNat 32 (50 * MICROSECONDS)
def tBE : BitVec 32 := BitVec.ofNat 32 (32 * SECONDS)
def tDP : BitVec 32 := BitVec.ofNat 32 (10 * SECONDS)
def tRES : BitVec 32 := BitVec.ofNat 32 (30 * SECONDS)
def tPP : BitVec 32 := BitVec.ofNat 32 (12 * MICROSECONDS)
def tSE : BitVec 32 := BitVec.ofNat 32 (15 * MILLISECONDS)
def NDUMMY : BitVec 32 := 4
def WIP : BitVec 32 := 0x0001
def WEL : BitVec 32 := 0x0002
def DEEP_POWER_DOWN : BitVec 32 := 0x0200

/-! ### The array -/

variable (lglen : Nat)

def membytes : BitVec 32 := 1#32 <<< lglen

def memmask : BitVec 32 := membytes lglen - 1#32

def load (mem : Array8) (a : BitVec 32) : Option (BitVec 8) := if a < membytes lglen then some (mem a) else none

def store (mem : Array8) (a : BitVec 32) (v : BitVec 8) : Option Array8 :=
  if a < membytes lglen then some (Function.update mem a v) else none

/-- `for(i=0; i<n; i++)` over the array. -/
def forEach (n : Nat) (body : Array8 → Nat → Option Array8) (mem : Array8) : Option Array8 :=
  (List.range n).foldlM body mem

/-- `for(i=0; i<256; i++) m_mem[base+i] &= m_pmem[i]` -/
def programPage (base : BitVec 32) (pmem : BitVec 8 → BitVec 8) : Array8 → Option Array8 :=
  forEach 256 fun mem i => do
    let byte ← load lglen mem (base + BitVec.ofNat 32 i)
    store lglen mem (base + BitVec.ofNat 32 i) (byte &&& pmem (BitVec.ofNat 8 i))

/-- `for(i=0; i<n; i++) m_mem[base+i] = 0x0ff` -/
def eraseFrom (base : BitVec 32) (n : Nat) : Array8 → Option Array8 :=
  forEach n fun mem i => store lglen mem (base + BitVec.ofNat 32 i) 0xff#8

def assert (b : Bool) : Option Unit := if b then some () else none

/-! ### A call -/

variable (s : Flashsim)

/-- After the constructor, and after what was loaded; nothing sets the last three. -/
def new (mem : Array8) (pmem : BitVec 8 → BitVec 8) (addr count : BitVec 32) : Flashsim :=
  { mem, pmem, addr, count, state := .idle, mode := .spi, lastSck := true, writeCount := 0, ireg := 0, oreg := 0,
    sreg := 0x01c, modeByte := 0, creg := 0x001 }

/-- The timer of a program or erase. -/
def tick : Flashsim :=
  if 0#32 < s.writeCount then
    let s := { s with writeCount := s.writeCount - 1#32 }
    if s.writeCount = 0#32 then { s with sreg := s.sreg &&& 0x0fc#32 } else s
  else s

/-- The write is in progress, and the latch is cleared. -/
def begins : Flashsim := { s with state := .idle, sreg := s.sreg &&& ~~~WEL ||| WIP }

/-- What is set whenever `csn` is high. -/
def released : Flashsim := { s with lastSck := true, ireg := 0#32, oreg := 0x0fe#32, count := 0#32 }

def raised : Option Flashsim :=
  let s := s.released
  match s.state with
  | .pp | .qpp => do
    let mem ← programPage lglen (s.addr &&& ~~~0x0ff#32) s.pmem s.mem
    some { s.begins with writeCount := tPP, mem, mode := .spi }
  | .sectorErase => do
    -- not reduced to the size of the array
    let addr := s.addr &&& 0xffff0000#32
    let mem ← eraseFrom lglen addr 65536 s.mem
    some { s.begins with writeCount := tSE, addr, mem }
  | .wrsr => some { s.begins with writeCount := tW }
  | .clsr => some { s with state := .idle, sreg := s.sreg &&& 0x09f#32 }
  | .bulkErase => do
    let mem ← eraseFrom lglen 0#32 (membytes lglen).toNat s.mem
    some { s.begins with writeCount := tBE, mem }
  | .deepPowerDown => some { s with writeCount := tDP, state := .idle }
  | .release => some { s with writeCount := tRES, state := .idle }
  | .quadReadCmd | .quadRead =>
    some (if s.modeByte &&& 0x0f0#32 ≠ 0x0a0#32 then { s with mode := .spi } else { s with state := .quadReadIdle })
  | .dualReadCmd | .dualRead =>
    some (if s.modeByte &&& 0x0f0#32 ≠ 0x0a0#32 then { s with mode := .spi } else { s with state := .dualReadIdle })
  | _ => some s

/-- `QOREG` -/
def qoreg (a : BitVec 32) : Flashsim := { s with oreg := s.oreg &&& ~~~0x0ff#32 ||| a &&& 0x0ff#32 }

def shift (dat : BitVec 32) : Flashsim :=
  match s.mode with
  | .qspi => { s with ireg := s.ireg <<< 4 ||| dat &&& 0x0f#32, count := s.count + 4#32, oreg := s.oreg <<< 4 }
  | .dspi => { s with ireg := s.ireg <<< 2 ||| dat &&& 0x03#32, count := s.count + 2#32, oreg := s.oreg <<< 2 }
  | .spi => { s with ireg := s.ireg <<< 1 ||| dat &&& 1#32, count := s.count + 1#32, oreg := s.oreg <<< 1 }

/-- A command that writes is accepted or not. -/
def guarded (state : QspifState) : Flashsim :=
  if 2#32 ≠ s.sreg &&& 0x203#32 then { s with state := .invalid } else { s with state }

def command (op : BitVec 8) : Option Flashsim :=
  let s := s.qoreg 0x0a5#32
  -- asleep, the device hears a release only
  if s.sreg &&& DEEP_POWER_DOWN ≠ 0#32 ∧ op ≠ 0xab#8 then some s
  else match op with
  | 0x01#8 => some (s.guarded .wrsr)
  | 0x02#8 => some (s.guarded .pp)
  | 0x03#8 => some { s with state := .slowRead }
  | 0x04#8 => some { s with state := .idle, sreg := s.sreg &&& ~~~WEL }
  | 0x05#8 => some ({ s with state := .rdsr }.qoreg s.sreg)
  | 0x06#8 => some { s with state := .idle, sreg := s.sreg ||| WEL }
  | 0x0b#8 => some { s with state := .fastRead }
  | 0x30#8 => some { s with state := .clsr }
  | 0x32#8 => some (s.guarded .qpp)
  | 0x35#8 => some ({ s with state := .rdcr }.qoreg s.creg)
  | 0x50#8 => some ({ s with state := .idle }.qoreg 0#32)
  | 0x70#8 => some ({ s with state := .idle }.qoreg 0#32)
  | 0x81#8 => some (s.qoreg 0#32)
  | 0x9f#8 => some ({ s with state := .rdid }.qoreg (DEVID >>> 24))
  | 0xab#8 =>
    let s := if s.sreg &&& DEEP_POWER_DOWN ≠ 0#32
      then { s with sreg := s.sreg &&& ~~~DEEP_POWER_DOWN, writeCount := tRES } else s
    some { s with state := .release }
  | 0xb9#8 =>
    some (if s.sreg &&& 0x01#32 ≠ 0#32 then { s with state := .invalid }
      else { s with sreg := s.sreg ||| DEEP_POWER_DOWN, state := .idle })
  | 0xbb#8 => some { s with state := .dualReadCmd, mode := .dspi }
  | 0xc7#8 => some (s.guarded .bulkErase)
  | 0xd8#8 => some (s.guarded .sectorErase)
  | 0xeb#8 => some { s with state := .quadReadCmd, mode := .qspi }
  | 0x00#8 => some { s with state := .idle, mode := .spi }
  | 0xff#8 => some { s with state := .idle, mode := .spi }
  | _ => none

/-- `m_addr = m_ireg & m_memmask` -/
def latchAddr : Option Flashsim := do
  let s := { s with addr := s.ireg &&& memmask lglen }
  assert (s.addr &&& ~~~memmask lglen == 0#32)
  some s

/-- `QOREG(m_mem[m_addr++])` -/
def readNext : Option Flashsim := do
  let byte ← load lglen s.mem s.addr
  some ({ s with addr := s.addr + 1#32 }.qoreg (byte.setWidth 32))

/-- A data byte goes to the page buffer. -/
def fillPage : Flashsim :=
  { s with
    pmem := Function.update s.pmem ((s.addr &&& 0x0ff#32).setWidth 8) ((s.ireg &&& 0x0ff#32).setWidth 8)
    addr := s.addr &&& ~~~0x0ff#32 ||| (s.addr + 1#32) &&& 0x0ff#32 }

/-- A whole byte after the command. -/
def data : Option Flashsim :=
  let s := s.qoreg 0#32
  let free : Bool := s.sreg &&& 0x01#32 == 0#32
  let zero := { s with oreg := 0#32 }
  match s.state with
  | .wrsr =>
    if s.count = 16#32 then some { s with sreg := s.sreg &&& 0x061#32 ||| s.ireg &&& 0x09c#32 }
    else if s.count = 24#32 then some { s with creg := s.creg &&& 0x0fd#32 ||| s.ireg &&& 0x02#32 }
    else none
  | .clsr => none
  | .rdid => if s.count ≤ 32#32 then some (s.qoreg (DEVID >>> (32#32 - s.count).toNat)) else none
  | .rdsr => some (s.qoreg s.sreg)
  | .rdcr => some (s.qoreg s.creg)
  | .slowRead =>
    if s.count = 32#32 then do
      let s ← s.latchAddr lglen
      s.readNext lglen
    else if 40#32 ≤ s.count ∧ free then s.readNext lglen
    else some zero
  | .fastRead =>
    if s.count = 32#32 then (s.qoreg 0x0c3#32).latchAddr lglen
    else if 40#32 ≤ s.count ∧ free then s.readNext lglen
    else some zero
  | .dualReadCmd =>
    if s.count = 32#32 then s.latchAddr lglen
    else if s.count = 40#32 ∧ free then { s with modeByte := s.ireg &&& 0x0ff#32 }.readNext lglen
    else if 40#32 < s.count ∧ free then s.readNext lglen
    else some zero
  | .quadReadCmd =>
    if s.count = 32#32 then s.latchAddr lglen
    else if s.count = 40#32 then some { s with modeByte := s.ireg &&& 0x0ff#32 }
    else if 40#32 + NDUMMY < s.count ∧ free then s.readNext lglen
    else some zero
  | .dualRead =>
    (if s.count = 32#32 then { s with modeByte := s.ireg &&& 0x0ff#32 } else s).readNext lglen
  | .quadRead =>
    if s.count = 32#32 then some { s with modeByte := s.ireg &&& 0x0ff#32 }
    else if 24#32 + 4#32 * NDUMMY ≤ s.count ∧ free then s.readNext lglen
    else some zero
  | .pp =>
    if s.count = 32#32 then do
      let s ← s.latchAddr lglen
      some { s with pmem := fun _ => 0xff#8 }
    else some (if 40#32 ≤ s.count then s.fillPage else s)
  | .qpp =>
    if s.count = 32#32 then do
      let s ← s.latchAddr lglen
      some { s with mode := .qspi, pmem := fun _ => 0xff#8 }
    else some (if 40#32 ≤ s.count then s.fillPage else s)
  | .sectorErase =>
    if s.count = 32#32 then do
      let s := { s with addr := s.ireg &&& 0x0ffc000#32 }
      assert (s.addr &&& 0xfc00000#32 == 0#32)
      some s
    else some s
  | .release => some (if 32#32 ≤ s.count then s.qoreg DEVESD else s)
  | _ => some s

/-- The address of a read that continues an earlier one. -/
def continued (state : QspifState) : Option Flashsim := do
  assert (s.sreg &&& DEEP_POWER_DOWN == 0#32)
  let s ← if s.count = 24#32 then do
      let s ← s.latchAddr lglen
      some { s with state }
    else some s
  some { s with oreg := 0#32 }

/-- After a falling edge. -/
def clocked : Option Flashsim :=
  if s.state = .quadReadIdle then do
    assert (s.mode == .qspi)
    s.continued lglen .quadRead
  else if s.state = .dualReadIdle then do
    assert (s.mode == .dspi)
    s.continued lglen .dualRead
  else if s.count = 8#32 then s.command (s.ireg.setWidth 8)
  else if s.count &&& 0x07#32 = 0#32 ∧ s.count ≠ 0#32 then s.data lglen
  else some s

def output (dat : BitVec 32) : BitVec 32 :=
  match s.mode with
  | .qspi => s.oreg >>> 8 &&& 0x0f#32
  | .dspi => s.oreg >>> 8 &&& 0x03#32 ||| dat &&& 0x0c#32
  | .spi => (if s.oreg &&& 0x0100#32 ≠ 0#32 then 2#32 else 0#32) ||| dat &&& 0x0d#32

/-- `operator()` -/
def step (p : Pins) : Option (Flashsim × BitVec 32) :=
  let s := s.tick
  if p.csn then do
    let s ← s.raised lglen
    some (s, p.dat)
  -- no falling edge: nothing is taken in
  else if !s.lastSck || p.sck == s.lastSck then
    let s := { s with lastSck := p.sck }
    some (s, s.output p.dat)
  else do
    let s ← (s.shift p.dat).clocked lglen
    let s := { s with lastSck := p.sck }
    some (s, s.output p.dat)

/-- The calls of a simulation. -/
def run : Flashsim → List Pins → Option Flashsim
  | s, [] => some s
  | s, p :: ps => do
    let (s, _) ← s.step lglen p
    run s ps

end Flashsim

end IcoZip.Flash
