import Mathlib.Data.BitVec
import Mathlib.Data.List.Basic
import Mathlib.Data.Nat.Bitwise

/-! A NOR flash behind the bus.

The configuration register drives its serial port: a value with bit 8 set ends
the command, any other sends a byte of one. A program command can only clear
bits of one page, an erase command sets a whole sector, and both need the write
enable latch. While the device is busy it answers nothing but its status.
-/

set_option autoImplicit false

namespace IcoZip.Flash

/-! ### Constants -/

def F_EMPTY : Nat := 0
def F_PP : Nat := 0x002
def F_WRDI : Nat := 0x004
def F_RDSR1 : Nat := 0x005
def F_WREN : Nat := 0x006
def F_SE : Nat := 0x0d8
def F_END : Nat := 0x100

def FLASHBASE : Nat := 0x01000000
def FLASHLEN : Nat := 0x01000000
def PGLENB : Nat := 256
def NPAGES : Nat := 256
def SZPAGEB : Nat := 256
def SZPAGEW : Nat := 64
def SECTORSZB : Nat := NPAGES * SZPAGEB

/-! ### The device -/

/-- `busy` counts the status reads that still find a write in progress, and `latency` says how
many of them a command costs. -/
structure Nor where
  mem : Nat → BitVec 8
  enabled : Bool
  busy : Nat
  session : List (BitVec 8)
  latency : List (BitVec 8) → Nat

namespace Nor

/-- A 24-bit address, most significant byte first. -/
def address (a₂ a₁ a₀ : BitVec 8) : Nat := a₂.toNat * 65536 + a₁.toNat * 256 + a₀.toNat

def eraseAt (f : Nor) (at_ : Nat) : Nat → BitVec 8 :=
  fun a => if a / 65536 = at_ / 65536 then 0xff else f.mem a

/-- Bytes are programmed from an address on, within its page. -/
def programAt (f : Nor) (at_ : Nat) (data : List (BitVec 8)) : Nat → BitVec 8 :=
  fun a => if a / 256 = at_ / 256 then f.mem a &&& (data[(a + 256 - at_ % 256) % 256]?).getD 0xff else f.mem a

/-- A command that has been ended. -/
def execute (f : Nor) (command : List (BitVec 8)) : Nor :=
  if f.busy ≠ 0 then f
  else match command with
    | [] => f
    | opcode :: args =>
      if opcode.toNat = F_WREN then { f with enabled := true }
      else if opcode.toNat = F_WRDI then { f with enabled := false }
      else if opcode.toNat = F_SE ∧ f.enabled then
        match args with
        | [a₂, a₁, a₀] =>
          { f with mem := f.eraseAt (address a₂ a₁ a₀), enabled := false, busy := f.latency command }
        | _ => f
      else if opcode.toNat = F_PP ∧ f.enabled then
        match args with
        | a₂ :: a₁ :: a₀ :: data =>
          { f with mem := f.programAt (address a₂ a₁ a₀) data, enabled := false, busy := f.latency command }
        | _ => f
      else f

/-- `writeio(R_FLASHCFG, value)`. -/
def writeCfg (f : Nor) (value : Nat) : Nor :=
  if value.testBit 8 then { f with session := [] }.execute f.session
  else { f with session := f.session ++ [BitVec.ofNat 8 value] }

/-- `readio(R_FLASHCFG)`, which shows the status during a status command. -/
def readCfg (f : Nor) : Nat × Nor :=
  if f.session.head? = some (BitVec.ofNat 8 F_RDSR1) ∧ f.busy ≠ 0 then (1, { f with busy := f.busy - 1 })
  else (0, f)

/-- The byte at a bus address. -/
def byte (f : Nor) (addr : Nat) : BitVec 8 := f.mem (addr % 2 ^ 24)

/-- Nothing is in progress. -/
def Ready (f : Nor) : Prop := f.busy = 0 ∧ f.session = []

instance (f : Nor) : Decidable f.Ready := inferInstanceAs (Decidable (f.busy = 0 ∧ f.session = []))

/-- The word at a bus address, most significant byte first. -/
def word (f : Nor) (addr : Nat) : BitVec 32 :=
  let a := addr / 4 * 4
  if f.Ready then f.byte a ++ (f.byte (a + 1) ++ (f.byte (a + 2) ++ f.byte (a + 3))) else 0

/-- `readi(addr, len, buf)`. -/
def readi (f : Nor) (addr len : Nat) : List (BitVec 32) := (List.range len).map fun k => f.word (addr + 4 * k)

/-! ### Sessions -/

section
variable (f : Nor)

/-- A configuration value that sends a byte. -/
theorem writeCfg_byte {value : Nat} (small : value < 256) :
    f.writeCfg value = { f with session := f.session ++ [BitVec.ofNat 8 value] } := by
  have low : value.testBit 8 = false := Nat.testBit_lt_two_pow small
  simp [writeCfg, low]

theorem writeCfg_end : f.writeCfg F_END = { f with session := [] }.execute f.session := by
  have high : F_END.testBit 8 = true := by decide
  simp [writeCfg, high]

theorem writeCfg_end_ready (ready : f.Ready) : f.writeCfg F_END = f := by
  obtain ⟨busy, session⟩ := ready
  rw [writeCfg_end, session]
  cases f
  simp_all [execute]

/-- Sending bytes one after the other. -/
theorem foldl_writeCfg (values : List Nat) (small : ∀ value ∈ values, value < 256) :
    values.foldl writeCfg f = { f with session := f.session ++ values.map (BitVec.ofNat 8) } := by
  induction values generalizing f with
  | nil => simp
  | cons value values ih =>
    rw [List.foldl_cons, writeCfg_byte f (small value (by simp)), ih _ fun v member => small v (by simp [member])]
    simp

/-- The three address bytes of a command. -/
def addressBytes (flashaddr : Nat) : List Nat :=
  [(flashaddr >>> 16) &&& 0xff, (flashaddr >>> 8) &&& 0xff, flashaddr &&& 0xff]

theorem addressBytes_small (flashaddr : Nat) : ∀ value ∈ addressBytes flashaddr, value < 256 := by
  have byte (n : Nat) : n &&& 0xff < 256 := Nat.lt_of_le_of_lt Nat.and_le_right (by decide)
  simp [addressBytes, byte]

theorem address_bytes {flashaddr : Nat} (small : flashaddr < 2 ^ 24) :
    address (BitVec.ofNat 8 ((flashaddr >>> 16) &&& 0xff)) (BitVec.ofNat 8 ((flashaddr >>> 8) &&& 0xff))
      (BitVec.ofNat 8 (flashaddr &&& 0xff)) = flashaddr := by
  have byte (n : Nat) : n &&& 0xff = n % 256 := Nat.and_two_pow_sub_one_eq_mod n 8
  simp only [address, byte, BitVec.toNat_ofNat, Nat.shiftRight_eq_div_pow]
  omega

end

end Nor

end IcoZip.Flash
