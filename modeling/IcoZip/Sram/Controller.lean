import IcoZip.Library.Bytes
import IcoZip.Library.Clocked

/-! `sramdev` and the memory behind it: two 16-bit accesses for every 32-bit
request, the upper half word first.

The memory is asynchronous. It reads combinationally, and a byte lane is written
for as long as chip select, write enable and the lane's enable are low.
-/

set_option autoImplicit false

namespace IcoZip.Sram

/-- The Wishbone inputs; words have addresses of `w` bits (`WBADDR`). -/
structure Wb (w : Nat) where
  cyc : Bool
  stb : Bool
  we : Bool
  addr : BitVec w
  data : BitVec 32
  sel : BitVec 4
  deriving DecidableEq, Repr

structure Sramdev (w : Nat) where
  wbStall : Bool
  wbAck : Bool
  wbData : BitVec 32
  ramCeN : Bool
  ramOeN : Bool
  ramWeN : Bool
  ramAddr : BitVec (w + 1)
  ramData : BitVec 16
  ramSel : BitVec 2
  ramState : Fin 8
  data : BitVec 32
  nextAck : Bool
  write : Bool
  sel : BitVec 4
  deriving DecidableEq, Repr

variable {w : Nat}

namespace Sramdev

/-- The `initial` values; registers without one keep what `free` has. -/
def powerUp (free : Sramdev w) : Sramdev w :=
  { free with
    ramState := 0
    sel := 0xf
    wbAck := false
    wbStall := false
    nextAck := false
    ramCeN := true
    ramOeN := true
    ramWeN := true
    ramSel := 0b11 }

/-- The assignments in front of the case distinction. -/
def defaults (s : Sramdev w) (i : Wb w) : Sramdev w :=
  { s with
    ramCeN := true
    ramOeN := true
    ramWeN := true
    wbStall := false
    wbAck := false
    nextAck := if s.ramState ≠ 0 then s.nextAck && i.cyc else false
    ramState := if s.ramState ≠ 0 then s.ramState + 1 else s.ramState }

/-- The pins of an access under way, with its byte enables. -/
def access (s : Sramdev w) (i : Wb w) (ramSel : BitVec 2) : Sramdev w :=
  { s.defaults i with
    ramCeN := false
    ramOeN := s.write
    ramWeN := !s.write
    ramSel := ramSel
    wbStall := true }

/-- One clock, while the data pins read `ramIn`. -/
def clock (s : Sramdev w) (i : Wb w) (ramIn : BitVec 16) : Sramdev w :=
  match s.ramState with
  | 0 =>
    { s.defaults i with
      wbData := s.wbData.extractLsb' 16 16 ++ ramIn
      ramAddr := i.addr ++ 0#1
      ramSel := 0b11
      ramCeN := !i.stb
      ramOeN := if i.stb then i.we else true
      ramWeN := if i.stb then !i.we else true
      ramData := i.data.extractLsb' 16 16
      data := i.data
      sel := if i.we then ~~~i.sel else 0
      write := i.we
      nextAck := i.stb
      ramState := if i.stb then 1 else 0
      wbStall := i.stb }
  | 1 => s.access i (s.sel.extractLsb' 2 2)
  | 2 => s.access i (s.sel.extractLsb' 2 2)
  | 3 =>
    { s.defaults i with
      ramSel := 0b11
      ramData := s.data.extractLsb' 0 16
      ramAddr := s.ramAddr.extractLsb' 1 w ++ 1#1
      wbData := ramIn ++ s.wbData.extractLsb' 0 16
      wbStall := true }
  | 4 => s.access i 0b11
  | 5 => s.access i (s.sel.extractLsb' 0 2)
  | 6 => s.access i (s.sel.extractLsb' 0 2)
  | 7 =>
    { s.defaults i with
      ramSel := 0b11
      wbData := s.wbData.extractLsb' 16 16 ++ ramIn
      wbAck := s.nextAck && i.cyc }

/-- The pins write-enable a byte lane. -/
def strobes (s : Sramdev w) (lane : Fin 2) : Bool := !s.ramCeN && !s.ramWeN && !s.ramSel.getLsbD lane

/-- The pins ask for a byte lane. -/
def drives (s : Sramdev w) (lane : Fin 2) : Bool := !s.ramCeN && !s.ramOeN && !s.ramSel.getLsbD lane

end Sramdev

/-- Half words by their two byte lanes. -/
abbrev Memory (w : Nat) := BitVec (w + 1) → Fin 2 → BitVec 8

/-- Byte `j` of a word; the upper half word has the lower address. -/
def Memory.byte (mem : Memory w) (a : BitVec w) (j : Fin 4) : BitVec 8 :=
  mem (a ++ BitVec.ofBool (j < 2)) (Fin.ofNat 2 j)

def lane (half : BitVec 16) (l : Fin 2) : BitVec 8 := half.extractLsb' (8 * l) 8

/-- The controller and the memory. -/
structure Bench (w : Nat) where
  core : Sramdev w
  mem : Memory w

/-- The bus, and what the data pins read where the memory does not drive them. -/
structure Inputs (w : Nat) where
  wb : Wb w
  float : BitVec 16
  deriving DecidableEq, Repr

namespace Bench

/-- `i_ram_data` -/
def ramIn (x : Bench w) (i : Inputs w) : BitVec 16 :=
  let pins (l : Fin 2) : BitVec 8 := if x.core.drives l then x.mem x.core.ramAddr l else lane i.float l
  pins 1 ++ pins 0

/-- What the pins leave in the memory by the end of the clock. -/
def stored (x : Bench w) : Memory w := fun a l =>
  if a = x.core.ramAddr ∧ x.core.strobes l then lane x.core.ramData l else x.mem a l

def step (x : Bench w) (i : Inputs w) : Bench w := ⟨x.core.clock i.wb (x.ramIn i), x.stored⟩

/-- A request is accepted. -/
def accepts (x : Bench w) (i : Inputs w) : Bool := i.wb.stb && !x.core.wbStall

/-- Any memory behind a controller that has just been configured. -/
def powerUp (free : Bench w) : Bench w := ⟨free.core.powerUp, free.mem⟩

end Bench

/-! ### The clocks of a request -/

/-- The first of the two bytes whose enables are out in the clock behind this one of a request. -/
def window : Fin 8 → Option (Fin 4)
  | 1 | 2 => some 2
  | 5 | 6 => some 0
  | _ => none

/-- The lane of the half word to which a byte belongs that comes first in its word. -/
def base (j : Fin 4) : Fin 4 := if j < 2 then 0 else 2

/-- The clocks of a request after which a byte is in the memory. -/
def written (k : Fin 8) (j : Fin 4) : Bool := if 2 ≤ j then 3 ≤ k else k = 7

end IcoZip.Sram
