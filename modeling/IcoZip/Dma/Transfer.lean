import IcoZip.Dma.Controller

/-! The controller between the CPU and a slave, and what a transfer is to do. -/

set_option autoImplicit false

namespace IcoZip.Dma

/-- The clock: the CPU, the interrupt lines, whether the slave stalls, and whether it answers the
oldest request, with an error or with data. -/
structure Inputs where
  reset : Bool
  swb : Swb
  devInts : BitVec 32
  stall : Bool
  answer : Bool
  fails : Bool
  data : BitVec 32
  deriving DecidableEq, Repr

variable {w : Nat}

/-- What has been asked for. -/
structure Job (w : Nat) where
  length : Nat
  source : BitVec w
  target : BitVec w
  incs : Bool
  incd : Bool
  block : Nat
  deriving DecidableEq, Repr

/-- The address of word `k`. -/
def place (inc : Bool) (addr : BitVec w) (k : Nat) : BitVec w := if inc then addr + BitVec.ofNat w k else addr

/-- What has become of it: the requests that the slave has accepted, what it has answered to the reads, and how
often the interrupt has been raised. -/
structure Transfer (w : Nat) where
  job : Job w
  reads : List (BitVec w)
  words : List (BitVec 32)
  writes : List (BitVec w × BitVec 32)
  interrupts : Nat
  deriving DecidableEq, Repr

/-- A new length, a reset or an error ends the record of a transfer. -/
structure Bench (w : Nat) where
  core : Wbdmac w
  outstanding : Nat
  transfer : Option (Transfer w)

namespace Bench

/-- Any memory and registers, configured. -/
def powerUp (free : Wbdmac w) : Bench w := ⟨free.powerUp, 0, none⟩

variable (x : Bench w) (i : Inputs)

/-- The slave answers requests that it has accepted at an earlier clock. -/
def answered : Bool := x.core.mwbCyc && i.answer && x.outstanding != 0

def mwb : Mwb := ⟨i.stall, x.answered i && !i.fails, x.answered i && i.fails, i.data⟩

def accepted : Bool := x.core.mwbCyc && x.core.mwbStb && !i.stall

/-- The job that a start command begins. -/
def job : Job w where
  length := x.core.cfgLen.toNat
  source := x.core.cfgRaddr
  target := x.core.cfgWaddr
  incs := !x.core.s.data.getLsbD 29
  incd := !x.core.s.data.getLsbD 28
  block := (x.core.s.data.extractLsb' 0 10 + BitVec.allOnes 10).toNat + 1

/-- What a clock adds to a transfer. -/
def follow (t : Transfer w) : Transfer w :=
  { t with
    reads := if x.accepted i && !x.core.mwbWe then t.reads ++ [x.core.mwbAddr] else t.reads
    words := if (x.mwb i).ack && !x.core.mwbWe then t.words ++ [i.data] else t.words
    writes := if x.accepted i && x.core.mwbWe then t.writes ++ [(x.core.mwbAddr, x.core.mwbData)] else t.writes
    interrupts := t.interrupts + x.core.interrupt.toNat }

def step : Bench w where
  core := x.core.clock (x.mwb i) i.reset i.swb i.devInts
  outstanding := if x.core.mwbCyc then x.outstanding + (x.accepted i).toNat - (x.answered i).toNat else 0
  transfer :=
    if i.reset then none
    else if x.core.starts then some ⟨x.job, [], [], [], 0⟩
    else if x.core.dmaState = .idle ∧ x.core.sets 1#2 then none
    else if (x.mwb i).err then none
    else x.transfer.map (x.follow i)

end Bench

/-- The CPU neither aborts nor halts the transfer. -/
def Swb.patient (c : Swb) : Bool :=
  !(c.stb && c.we && c.addr == 0 && (c.data == 0xffed0000#32 || c.data == 0xafed0000#32))

/-- The flags that are computed a clock ahead are right for the answer that comes: `last_read_ack` is set if it
answers the last read of a block, `last_write_ack` is set exactly if it answers the last write of a block. -/
def Bench.foreseen (x : Bench w) (i : Inputs) : Bool :=
  !(x.mwb i).ack ||
    match x.core.dmaState with
    | .readAck => x.core.nread + 1 != x.core.nracks || x.core.lastReadAck
    | .writeReq => !x.core.lastWriteAck
    | .writeAck => x.core.lastWriteAck == (x.core.nwacks + 1 == x.core.nwritten)
    | _ => true

/-! ### What a transfer is to do -/

/-- Words `ws` at the target's addresses. -/
def Job.written (j : Job w) (ws : List (BitVec 32)) : List (BitVec w × BitVec 32) :=
  ws.zipIdx.map fun p => (place j.incd j.target p.2, p.1)

/-- The words read by the time that word `k` is written: all blocks up to its own. -/
def Job.ahead (j : Job w) (k : Nat) : Nat := min j.length ((k / j.block + 1) * j.block)

/-- The transfer as it stands: what has been read is the beginning of the source, what has been written is the
beginning of what has been read, and each request that is out belongs to it. -/
structure Transfer.Copies (t : Transfer w) (c : Wbdmac w) : Prop where
  reads : t.reads = (List.range t.reads.length).map (place t.job.incs t.job.source)
  words : t.words.length ≤ t.reads.length
  writes : t.writes = t.job.written (t.words.take t.writes.length)
  within_length : t.reads.length ≤ t.job.length
  asks : c.mwbStb = true → c.mwbWe = false →
    t.reads.length < t.job.length ∧ c.mwbAddr = place t.job.incs t.job.source t.reads.length
  stores : c.mwbStb = true → c.mwbWe = true →
    t.words.length = t.job.ahead t.writes.length ∧ t.writes.length < t.words.length ∧
      c.mwbAddr = place t.job.incd t.job.target t.writes.length ∧ t.words[t.writes.length]? = some c.mwbData
  busy : c.dmaState ≠ .idle → t.interrupts + c.interrupt.toNat = 0
  done : c.dmaState = .idle →
    t.words.length = t.job.length ∧ t.writes.length = t.job.length ∧ c.cfgLen = 0 ∧
      t.interrupts + c.interrupt.toNat = 1

end IcoZip.Dma
