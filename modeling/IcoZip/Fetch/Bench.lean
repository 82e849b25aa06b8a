import IcoZip.Library.Clocked
import IcoZip.Library.Pipelined

/-! What the instruction fetch units have in common: the CPU in front of them,
the memory behind them, and the stream of instructions that they are there to
deliver.

Instructions have addresses of `w + 2` bits, words of `d` bits have addresses of
`w` bits (`ADDRESS_WIDTH`, `DATA_WIDTH`).
-/

set_option autoImplicit false

namespace IcoZip.Fetch

/-- What the CPU drives. -/
structure Cpu (w : Nat) where
  reset : Bool
  newPc : Bool
  clearCache : Bool
  ready : Bool
  pc : BitVec (w + 2)
  deriving DecidableEq, Repr

/-- The Wishbone inputs of a unit. -/
structure Bus (d : Nat) where
  stall : Bool
  ack : Bool
  err : Bool
  data : BitVec d
  deriving DecidableEq, Repr

/-- The outputs of a unit; it never writes. -/
structure Pins (w d : Nat) where
  valid : Bool
  illegal : Bool
  insn : BitVec d
  pc : BitVec (w + 2)
  cyc : Bool
  stb : Bool
  addr : BitVec w
  deriving DecidableEq, Repr

structure Fetcher (w d : Nat) where
  Reg : Type
  pins : Reg → Pins w d
  clock : Reg → Cpu w → Bus d → Reg

/-- Reading some addresses fails. -/
abbrev Memory (w d : Nat) := BitVec w → Option (BitVec d)

/-- What the CPU is handed. -/
structure Insn (w d : Nat) where
  pc : BitVec (w + 2)
  insn : BitVec d
  illegal : Bool
  deriving DecidableEq, Repr

/-- The clock: the CPU, whether the slave stalls, whether it answers, and what the data lines
carry if it does not. -/
structure Inputs (w d : Nat) where
  cpu : Cpu w
  stall : Bool
  answer : Bool
  float : BitVec d
  deriving DecidableEq, Repr

variable {w d : Nat}

/-- The word an instruction address is in. -/
def word (pc : BitVec (w + 2)) : BitVec w := pc.extractLsb' 2 w

/-- The address behind an instruction. -/
def next (pc : BitVec (w + 2)) : BitVec (w + 2) := (word pc + 1) ++ 0#2

/-- A unit, the requests it has outstanding, and what it has handed to the CPU since the
latest new address. -/
structure Bench (u : Fetcher w d) where
  core : u.Reg
  waiting : List (BitVec w)
  /-- The latest new address; a reset or a clear ends its instructions. -/
  segment : Option (BitVec (w + 2))
  taken : List (Insn w d)

namespace Bench

variable {u : Fetcher w d}

/-- Reset has not been heard of, nor an address. -/
def powerUp (u : Fetcher w d) (core : u.Reg) : Bench u := ⟨core, [], none, []⟩

variable (mem : Memory w d) (x : Bench u) (i : Inputs w d)

/-- The request that the slave accepts. -/
def accepted : List (BitVec w) :=
  if (u.pins x.core).cyc && (u.pins x.core).stb && !i.stall then [(u.pins x.core).addr] else []

/-- The requests that the slave can answer. Ending the cycle withdraws them. -/
def outstanding : List (BitVec w) := if (u.pins x.core).cyc then x.waiting ++ x.accepted i else []

def reply : Option (BitVec w) := Pipelined.reply (x.outstanding i) i.answer

def bus : Bus d where
  stall := i.stall
  ack := (x.reply i).any fun a => (mem a).isSome
  err := (x.reply i).any fun a => (mem a).isNone
  data := ((x.reply i).bind mem).getD i.float

/-- The instruction handed over at this clock. -/
def hands : List (Insn w d) :=
  let pins := u.pins x.core
  if pins.valid && i.cpu.ready then [⟨pins.pc, pins.insn, pins.illegal⟩] else []

/-- Everything handed over for the latest new address, this clock included. -/
def handed : List (Insn w d) := x.taken ++ x.hands i

def step : Bench u where
  core := u.clock x.core i.cpu (x.bus mem i)
  waiting := Pipelined.rest (x.outstanding i) i.answer
  segment :=
    if i.cpu.reset then none
    else if i.cpu.newPc then some i.cpu.pc
    else if i.cpu.clearCache then none
    else x.segment
  taken := if i.cpu.newPc then [] else x.handed i

def run : List (Inputs w d) → Bench u := Clocked.run (step mem) x

end Bench

/-! ### The stream -/

/-- Up to `n` instructions from an address on, the last of them the first that cannot be read. -/
def stream (mem : Memory w d) (pc : BitVec (w + 2)) : Nat → List (BitVec (w + 2) × Option (BitVec d))
  | 0 => []
  | n + 1 => (pc, mem (word pc)) :: if (mem (word pc)).isSome then stream mem (next pc) n else []

/-- What the CPU hears, up to the first illegal instruction. -/
def heard : List (Insn w d) → List (BitVec (w + 2) × Option (BitVec d))
  | [] => []
  | x :: xs => if x.illegal then [(x.pc, none)] else (x.pc, some x.insn) :: heard xs

/-- Behind an illegal instruction there are only illegal ones. -/
def Stops (xs : List (Insn w d)) : Prop := xs.Pairwise fun a b => a.illegal → b.illegal

end IcoZip.Fetch
