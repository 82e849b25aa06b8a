import Mathlib.Data.BitVec
import Mathlib.Logic.Function.Iterate
import Mathlib.Tactic.Ring
import Mathlib.Tactic.SplitIfs

/-! The bootloader. A pointer to an `int` is the address of a word, and the difference of two
pointers is a number of words. The symbols of the linker are declared as arrays, and the address
of an array is never null: the tests of `_kram` and `_ram` for it hold whatever the linker has put
there. Only `NOTNULL`, which computes with the address, can tell.
-/

set_option autoImplicit false

namespace IcoZip.Zlib

/-- The symbols of the linker that the bootloader uses. -/
structure Layout where
  rom : BitVec 30
  kram : BitVec 30
  ram : BitVec 30
  kramStart : BitVec 30
  kramEnd : BitVec 30
  ramImageEnd : BitVec 30
  bssImageEnd : BitVec 30

abbrev Memory := BitVec 30 → BitVec 32

/-- The memory, and where the next word is read and written. -/
structure Cursor where
  mem : Memory
  rdp : BitVec 30
  wrp : BitVec 30

/-- `*wrp++ = *rdp++` -/
def Cursor.copy (s : Cursor) : Cursor :=
  { mem := Function.update s.mem s.wrp (s.mem s.rdp), rdp := s.rdp + 1#30, wrp := s.wrp + 1#30 }

/-- `*wrp++ = 0` -/
def Cursor.clear (s : Cursor) : Cursor :=
  { s with mem := Function.update s.mem s.wrp 0#32, wrp := s.wrp + 1#30 }

/-- `a - b` -/
def distance (a b : BitVec 30) : Int := a.toNat - b.toNat

/-- The memory, and the registers of the DMA. -/
structure Dma where
  mem : Memory
  dLen : BitVec 30
  dRd : BitVec 30
  dWr : BitVec 30

/-- `DMACCOPY`, until the interrupt. -/
def Dma.copy (s : Dma) : Dma :=
  let t := Cursor.copy^[s.dLen.toNat] ⟨s.mem, s.dRd, s.dWr⟩
  { mem := t.mem, dLen := 0#30, dRd := t.rdp, dWr := t.wrp }

/-- `DMACCOPY|DMA_CONSTSRC` from the local that holds zero, until the interrupt. -/
def Dma.clear (s : Dma) : Dma :=
  let t := Cursor.clear^[s.dLen.toNat] ⟨s.mem, s.dRd, s.dWr⟩
  { mem := t.mem, dLen := 0#30, dRd := t.rdp, dWr := t.wrp }

namespace Layout

/-- How many words the kernel section has. -/
def kernelLength (l : Layout) : Nat := if l.kramEnd = l.kramStart then 0 else l.kramEnd.toNat - l.kram.toNat

/-- The kernel section, copied. -/
def kernelImage (l : Layout) (mem : Memory) : Memory := fun x =>
  if l.kramEnd ≠ l.kramStart ∧ l.kram ≤ x ∧ x < l.kramEnd then mem (l.kramStart + (x - l.kram)) else mem x

/-- The image that the comments promise. -/
def image (l : Layout) (mem : Memory) : Memory := fun x =>
  if l.ramImageEnd ≤ x ∧ x < l.bssImageEnd then 0#32
  else if l.ram ≤ x ∧ x < l.ramImageEnd then mem (l.kramStart + BitVec.ofNat 30 l.kernelLength + (x - l.ram))
  else l.kernelImage mem x

/-- Two ranges of words without a common one. -/
def Apart (a b c d : Nat) : Prop := b ≤ a ∨ d ≤ c ∨ b ≤ c ∨ d ≤ a

/-- How many words the image has for `_ram`. -/
def ramLength (l : Layout) : Nat := l.ramImageEnd.toNat - l.ram.toNat

/-- Where the flash image ends. -/
def flashEnd (l : Layout) : Nat := l.kramStart.toNat + l.kernelLength + l.ramLength

/-- The layouts that the comments allow. -/
structure Allowed (l : Layout) : Prop where
  rom : l.rom ≠ 0#30
  kernel : l.kramEnd = l.kramStart ∨ l.kram ≤ l.kramEnd
  image : l.ram ≤ l.ramImageEnd ∨ l.kram ≠ 0#30 ∧ l.kram ≤ l.ramImageEnd
  bss : l.ramImageEnd ≤ l.bssImageEnd
  fits : l.flashEnd < 2 ^ 30
  kernelApart : Apart l.kramStart.toNat l.flashEnd l.kram.toNat (l.kram.toNat + l.kernelLength)
  ramApart : Apart l.kramStart.toNat l.flashEnd l.ram.toNat l.ramImageEnd.toNat
  bssApart : Apart l.kramStart.toNat l.flashEnd l.ramImageEnd.toNat l.bssImageEnd.toNat
  -- The flash does not end before the word after the image.
  device : l.ram.toNat < l.kramStart.toNat ∨ l.flashEnd < l.ram.toNat

end Layout

/-! ### Copying and clearing -/

/-- An address past a word is one nearer to the next. -/
theorem sub_succ {x w : BitVec 30} (other : x ≠ w) : (x - (w + 1#30)).toNat + 1 = (x - w).toNat := by
  bv_omega

theorem sub_succ_self (w : BitVec 30) : (w - (w + 1#30)).toNat = 2 ^ 30 - 1 := by
  bv_omega

theorem ne_of_lt_sub {x w : BitVec 30} {n : Nat} (far : n < (x - w).toNat) : x ≠ w := by
  rintro rfl
  rw [BitVec.sub_self] at far
  exact absurd far (Nat.not_lt_zero n)

namespace Cursor

theorem copy_rdp (n : Nat) (s : Cursor) : (copy^[n] s).rdp = s.rdp + BitVec.ofNat 30 n := by
  induction n generalizing s with
  | zero => exact (BitVec.add_zero s.rdp).symm
  | succ n ih =>
    rw [Function.iterate_succ_apply, ih, copy, BitVec.add_assoc, ← BitVec.ofNat_add, Nat.add_comm 1 n]

/-- The words that are not written stay. -/
theorem copy_outside (n : Nat) (s : Cursor) (x : BitVec 30) (outside : n ≤ (x - s.wrp).toNat) :
    (copy^[n] s).mem x = s.mem x := by
  induction n generalizing s with
  | zero => rfl
  | succ n ih =>
    -- the word written first is not this one, and it is still as far behind the rest
    have other : x ≠ s.wrp := ne_of_lt_sub outside
    have later : n ≤ (x - (s.wrp + 1#30)).toNat := by
      have nearer := sub_succ other
      omega
    rw [Function.iterate_succ_apply, ih s.copy later]
    exact Function.update_of_ne other _ _

/-- A word that is read before anything is written there arrives. -/
theorem copy_inside (n : Nat) (few : n ≤ 2 ^ 30) (s : Cursor) (x : BitVec 30) (inside : (x - s.wrp).toNat < n)
    (unwritten : (x - s.wrp).toNat ≤ (s.rdp + (x - s.wrp) - s.wrp).toNat) :
    (copy^[n] s).mem x = s.mem (s.rdp + (x - s.wrp)) := by
  induction n generalizing s with
  | zero => exact absurd inside (Nat.not_lt_zero _)
  | succ n ih =>
    rw [Function.iterate_succ_apply]
    by_cases first : x = s.wrp
    · have later : n ≤ (x - s.copy.wrp).toNat := by
        rw [first, copy, sub_succ_self]
        exact Nat.le_pred_of_lt few
      rw [copy_outside n s.copy x later, first, BitVec.sub_self, BitVec.add_zero]
      exact Function.update_self _ _ _
    · have nearer : (x - s.copy.wrp).toNat + 1 = (x - s.wrp).toNat := sub_succ first
      have source : s.copy.rdp + (x - s.copy.wrp) = s.rdp + (x - s.wrp) := by
        unfold copy
        ring
      have some : 0 < (x - s.wrp).toNat := by omega
      -- the source is not the word written first
      have other : s.rdp + (x - s.wrp) ≠ s.wrp := ne_of_lt_sub (Nat.lt_of_lt_of_le some unwritten)
      have left : (s.rdp + (x - s.wrp) - s.copy.wrp).toNat + 1 = (s.rdp + (x - s.wrp) - s.wrp).toNat :=
        sub_succ other
      rw [ih (Nat.le_of_succ_le few) s.copy (by omega) (by rw [source]; omega), source]
      exact Function.update_of_ne other _ _

end Cursor

theorem length_lt (a b : BitVec 30) : a.toNat - b.toNat < 2 ^ 30 := Nat.lt_of_le_of_lt (Nat.sub_le _ _) a.isLt

def Dma.cursor (s : Dma) : Cursor := ⟨s.mem, s.dRd, s.dWr⟩

namespace Layout

theorem kernelLength_eq {l : Layout} (some : l.kramEnd ≠ l.kramStart) :
    l.kernelLength = l.kramEnd.toNat - l.kram.toNat := if_neg some

/-- The kernel section and the BSS, and so many words for `_ram`. -/
def loaded (l : Layout) (mem : Memory) (n : Nat) : Memory :=
  let kernel := Cursor.copy^[l.kernelLength] ⟨mem, l.kramStart, l.kram⟩
  let ram := Cursor.copy^[n] { kernel with wrp := l.ram }
  (Cursor.clear^[l.bssImageEnd.toNat - l.ramImageEnd.toNat] ram).mem

theorem between {a b : BitVec 30} (x : BitVec 30) (order : a ≤ b) :
    (x - a).toNat < b.toNat - a.toNat ↔ a ≤ x ∧ x < b := by
  bv_omega

theorem unwritten {r w o : BitVec 30} (fits : r.toNat + o.toNat < 2 ^ 30)
    (apart : r.toNat + o.toNat < w.toNat ∨ w.toNat ≤ r.toNat) : o.toNat ≤ (r + o - w).toNat := by
  bv_omega

theorem kernelImage_eq {l : Layout} (allowed : l.Allowed) (mem : Memory) :
    (Cursor.copy^[l.kernelLength] ⟨mem, l.kramStart, l.kram⟩).mem = l.kernelImage mem := by
  funext x
  unfold kernelImage
  by_cases empty : l.kramEnd = l.kramStart
  · have none : l.kernelLength = 0 := if_pos empty
    rw [if_neg (fun some => some.1 empty), none]
    rfl
  · have order : l.kram ≤ l.kramEnd := allowed.kernel.resolve_left empty
    have length := kernelLength_eq empty
    have inside := between x order
    rw [← length] at inside
    by_cases kernel : l.kram ≤ x ∧ x < l.kramEnd
    · have few : l.kernelLength ≤ 2 ^ 30 := by
        have bound := l.kramEnd.isLt
        omega
      have early : (x - l.kram).toNat < l.kernelLength := inside.mpr kernel
      have fits := allowed.fits
      have apart := allowed.kernelApart
      unfold flashEnd at fits apart
      unfold Apart at apart
      have safe : (x - l.kram).toNat ≤ (l.kramStart + (x - l.kram) - l.kram).toNat :=
        unwritten (by omega) (by omega)
      rw [if_pos ⟨empty, kernel⟩]
      exact Cursor.copy_inside _ few _ _ early safe
    · have late : l.kernelLength ≤ (x - l.kram).toNat := Nat.le_of_not_lt (mt inside.mp kernel)
      rw [if_neg (fun some => kernel some.2)]
      exact Cursor.copy_outside _ _ x late

theorem loaded_eq {l : Layout} (allowed : l.Allowed) (mem : Memory) (n : Nat) :
    l.loaded mem n = (Cursor.clear^[l.bssImageEnd.toNat - l.ramImageEnd.toNat] (Cursor.copy^[n]
      ⟨l.kernelImage mem, l.kramStart + BitVec.ofNat 30 l.kernelLength, l.ram⟩)).mem := by
  unfold loaded
  dsimp only
  rw [kernelImage_eq allowed, Cursor.copy_rdp]

theorem differ {l : Layout} {mem : Memory} {n : Nat} (x : BitVec 30) {v w : BitVec 32} (written : l.loaded mem n x = v)
    (wanted : l.image mem x = w) (other : v ≠ w) : l.loaded mem n ≠ l.image mem := by
  intro same
  apply other
  rw [← written, same, wanted]

/-- One word of a memory set. -/
def marked (a : BitVec 30) : Memory := fun x => if x = a then 1#32 else 0#32

theorem loaded_inside {l : Layout} (allowed : l.Allowed) (none : l.bssImageEnd = l.ramImageEnd) (mem : Memory)
    (n : Nat) (few : n < 2 ^ 30) (x : BitVec 30) (inside : (x - l.ram).toNat < n)
    (unwritten : (x - l.ram).toNat ≤ (l.kramStart + BitVec.ofNat 30 l.kernelLength + (x - l.ram) - l.ram).toNat) :
    l.loaded mem n x = l.kernelImage mem (l.kramStart + BitVec.ofNat 30 l.kernelLength + (x - l.ram)) := by
  rw [loaded_eq allowed, none, Nat.sub_self]
  exact Cursor.copy_inside n (Nat.le_of_lt few) _ x inside unwritten

/-- Where a word of the copied kernel section comes from. -/
def origin (l : Layout) (x : BitVec 30) : BitVec 30 :=
  if l.kramEnd ≠ l.kramStart ∧ l.kram ≤ x ∧ x < l.kramEnd then l.kramStart + (x - l.kram) else x

/-- Block RAM below the SRAM, and something in both. -/
def filled : Layout :=
  { rom := 0x400000#30, kram := 0x500000#30, ram := 0x800000#30, kramStart := 0x400100#30, kramEnd := 0x500002#30,
    ramImageEnd := 0x800003#30, bssImageEnd := 0x800005#30 }

/-- No block RAM, so no kernel section either. -/
def unmapped : Layout := { filled with kram := 0#30, kramEnd := 0x400100#30 }

end Layout

end IcoZip.Zlib
