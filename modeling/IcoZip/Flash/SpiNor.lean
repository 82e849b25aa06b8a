import IcoZip.Flash.Flashsim
import Mathlib.Tactic.SplitIfs
import Mathlib.Data.List.Induction

/-! A NOR flash on a serial bus, as its pins show it.

What has been clocked in is a list of bytes and the bits of the next one. A command that writes is
accepted or not when its first byte is complete, and takes effect when chip select rises.
-/

set_option autoImplicit false

namespace IcoZip.Flash

structure SpiNor where
  mem : Array8
  /-- The write enable latch. -/
  enabled : Bool
  /-- How many calls a write still takes. -/
  busy : Nat
  accepted : Bool
  bytes : List (BitVec 8)
  pending : List Bool
  sck : Bool

namespace SpiNor

/-! ### What a command does -/

/-- The page buffer after the data, and where its next byte goes. -/
def buffered (first : BitVec 8) (data : List (BitVec 8)) : (BitVec 8 → BitVec 8) × BitVec 8 :=
  data.foldl (fun page byte => (Function.update page.1 page.2 byte, page.2 + 1#8)) (fun _ => 0xff#8, first)

def programmed (mem : Array8) (a : Nat) (data : List (BitVec 8)) : Array8 := fun x =>
  if x.toNat / 256 = a / 256 then mem x &&& (buffered (BitVec.ofNat 8 a) data).1 (x.setWidth 8) else mem x

def erased (mem : Array8) (a : Nat) : Array8 := fun x => if x.toNat / 65536 = a / 65536 then 0xff#8 else mem x

/-- An address, most significant byte first. -/
def address (a₂ a₁ a₀ : BitVec 8) : Nat := (a₂.toNat * 256 + a₁.toNat) * 256 + a₀.toNat

variable (size : Nat) (t : SpiNor)

/-- The memory after an accepted command and how long the write takes, if the command is complete. -/
def effect : Option (Array8 × Nat) :=
  if t.bytes.head? = some 0xc7#8 then
    some (fun x => if x.toNat < size then 0xff#8 else t.mem x, Flashsim.tBE.toNat)
  else match t.bytes with
    | op :: a₂ :: a₁ :: a₀ :: data =>
      some (if op = 0xd8#8 then (erased t.mem (address a₂ a₁ a₀ % size), Flashsim.tSE.toNat)
        else (programmed t.mem (address a₂ a₁ a₀ % size) data, Flashsim.tPP.toNat))
    | _ => none

/-! ### The pins -/

/-- A write that ends clears the latch. -/
def wait : SpiNor :=
  if t.busy = 0 then t
  else if t.busy = 1 then { t with busy := 0, enabled := false }
  else { t with busy := t.busy - 1 }

/-- Chip select is high. -/
def finish : SpiNor :=
  let idle := { t with accepted := false, bytes := [], pending := [], sck := true }
  if t.accepted then
    match t.effect size with
    | some (mem, busy) => { idle with mem, busy, enabled := false }
    | none => idle
  else idle

/-- The commands that write. -/
def writes : List (BitVec 8) := [0x02#8, 0x32#8, 0xc7#8, 0xd8#8]

def command (op : BitVec 8) : SpiNor :=
  if op = 0x06#8 then { t with enabled := true }
  else if op = 0x04#8 then { t with enabled := false }
  else if op ∈ writes then { t with accepted := t.enabled && t.busy == 0 }
  else t

/-- The data of a quad page program takes four bits a clock. -/
def quad : Bool := t.accepted && t.bytes.head? == some 0x32#8 && 4 ≤ t.bytes.length

/-- Bits as a number, the first on top. -/
def value (n : Nat) (bits : List Bool) : Nat := bits.foldl (fun n bit => 2 * n + bit.toNat) n

/-- What the pins bring in a clock. -/
def bits (dat : BitVec 32) : List Bool :=
  if t.quad then [dat.getLsbD 3, dat.getLsbD 2, dat.getLsbD 1, dat.getLsbD 0] else [dat.getLsbD 0]

def clock (dat : BitVec 32) : SpiNor :=
  let pending := t.pending ++ t.bits dat
  let t := { t with sck := false }
  if pending.length = 8 then
    let byte := BitVec.ofNat 8 (value 0 pending)
    let t := { t with bytes := t.bytes ++ [byte], pending := [] }
    if t.bytes.length = 1 then t.command byte else t
  else { t with pending }

def step (p : Pins) : SpiNor :=
  let t := t.wait
  if p.csn then t.finish size
  else if t.sck && !p.sck then t.clock p.dat
  else { t with sck := p.sck }

def run (t : SpiNor) (ps : List Pins) : SpiNor := ps.foldl (step size) t

/-- Before the first call. -/
def new (mem : Array8) : SpiNor :=
  { mem, enabled := false, busy := 0, accepted := false, bytes := [], pending := [], sck := true }

/-! ### The page buffer -/

theorem buffered_append (first byte : BitVec 8) (data : List (BitVec 8)) :
    buffered first (data ++ [byte]) =
      (Function.update (buffered first data).1 (buffered first data).2 byte, (buffered first data).2 + 1#8) := by
  unfold buffered
  rw [List.foldl_append]
  rfl

end SpiNor

end IcoZip.Flash
