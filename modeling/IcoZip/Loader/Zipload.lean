import IcoZip.Flash.Driver
import IcoZip.Hexbus.Coherence
import IcoZip.Library.Block
import IcoZip.Library.Bytes

/-! Loading a program: `elfread`, which packs the sections of an ELF file into
one block of host memory, and the two section loops of `zipload`, which end in
calls of the debugging bus.

Accesses outside the block fail. Offsets into it are natural numbers: the
program headers of a 32-bit file are too few for `unsigned` to wrap. The pointers, with
which the block begins, are kept apart. Flash is not part of the design, so its
branches are not compiled.
-/

set_option autoImplicit false

namespace IcoZip.Loader

open Flash (byteswap)
open Hexbus (Call Memory)

/-- What `elfread` uses of a program header. -/
structure Phdr where
  offset : BitVec 32
  paddr : BitVec 32
  filesz : BitVec 32
  memsz : BitVec 32
  deriving DecidableEq, Repr

/-- `char` arrays. -/
abbrev Heap := Block (BitVec 8)

/-- A `uint32_t` in the order of the host. -/
def fillWord (b : Heap) (pos : Nat) (v : BitVec 32) : Option Heap := b.fill pos ((List.range 4).map (Bytes.byte v))

def loadWord (b : Heap) (pos : Nat) : Option (BitVec 32) :=
  (b.load pos 4).map fun bytes => Bytes.ofBytes fun j => bytes.getD j 0

/-! ### `elfread` -/

/-- `sizeof(ELFSECTION)`: `m_start`, `m_len` and `m_data[4]`. -/
def ELFSECTION : Nat := 12

/-- `read` behind `lseek`; a read that falls short is fatal. -/
def readFile (file : List (BitVec 8)) (offset len : Nat) : Option (List (BitVec 8)) :=
  let data := (file.drop offset).take len
  if data.length = len then some data else none

/-- The section at `current_offset`. -/
def readSection (file : List (BitVec 8)) (phdr : Phdr) (pos : Nat) (b : Heap) : Option Heap := do
  let b ← fillWord b pos phdr.paddr
  let b ← fillWord b (pos + 4) phdr.filesz
  let filesz := if phdr.memsz < phdr.filesz then 0 else phdr.filesz
  let data ← readFile file phdr.offset.toNat filesz.toNat
  b.fill (pos + 8) data

/-- The pointers `r` and the block, with the end marker. -/
def readSections (file : List (BitVec 8)) : List Phdr → Nat → Heap → Option (List Nat × Heap)
  | [], pos, b => do
    let b ← fillWord b pos 0
    let b ← fillWord b (pos + 4) 0
    some ([pos], b)
  | phdr :: phdrs, pos, b => do
    let b ← readSection file phdr pos b
    let (r, b) ← readSections file phdrs (pos + (phdr.memsz.toNat + ELFSECTION)) b
    some (pos :: r, b)

def totalOctets (pointer : Nat) : List Phdr → Nat
  | [] => 0
  | phdr :: phdrs => (pointer + ELFSECTION + phdr.memsz.toNat) + totalOctets pointer phdrs

/-- `free` is what the allocated memory holds, `pointer` the size of a pointer of the host. A file without program
headers fails an assertion. -/
def elfread (pointer : Nat) (file : List (BitVec 8)) (phdrs : List Phdr) (free : Nat → BitVec 8) :
    Option (List Nat × Heap) := do
  if phdrs = [] then none
  let total := totalOctets pointer phdrs
  let d ← Block.fill ⟨total + ELFSECTION + pointer, free⟩ 0 (List.replicate total 0)
  readSections file phdrs ((phdrs.length + 1) * pointer) d

/-! ### `zipload` -/

def R_VERSION : BitVec 32 := 0x01000014#32

def R_ZIPCTRL : BitVec 32 := 0x04000000#32

def CPU_HALT : BitVec 32 := 0x0400#32

def CPU_RESET : BitVec 32 := 0x0040#32

def BKRAMBASE : BitVec 32 := 0x01400000#32

def BKRAMLEN : BitVec 32 := 0x00002000#32

def SDRAMBASE : BitVec 32 := 0x02000000#32

def SDRAMLEN : BitVec 32 := 0x01000000#32

def inBkram (start len : BitVec 32) : Bool := BKRAMBASE ≤ start && start + len ≤ BKRAMBASE + BKRAMLEN

def inSdram (start len : BitVec 32) : Bool := SDRAMBASE ≤ start && start + len ≤ SDRAMBASE + SDRAMLEN

/-- The loop that checks the sections, up to the end marker. -/
def checkSections (b : Heap) : List Nat → Option Unit
  | [] => none
  | p :: r => do
    let start ← loadWord b p
    let len ← loadWord b (p + 4)
    if len = 0 then some ()
    else if inBkram start len || inSdram start len then checkSections b r
    else none

/-- An array of `uint32_t` that bytes were copied to, on a little-endian host. -/
def wordsOf (bytes : List (BitVec 8)) (n : Nat) : List (BitVec 32) :=
  (List.range n).map fun k => Bytes.ofBytes fun j => bytes.getD (4 * k + j) 0

/-- The words of a section as they are written; `memcpy` copies the padding as well. -/
def sectionWords (b : Heap) (p : Nat) (len : BitVec 32) : Option (List (BitVec 32)) := do
  let ln := len.toNat + 3 &&& 0xfffffffc
  let bswapd := List.replicate ln 0
  let data ← b.load (p + 8) ln
  let bswapd := data ++ bswapd.drop ln
  some ((wordsOf bswapd (ln >>> 2)).map byteswap)

/-- The loop that writes them, as the calls that it makes. -/
def writeSections (b : Heap) : List Nat → Option (List Call)
  | [] => none
  | p :: r => do
    let start ← loadWord b p
    let len ← loadWord b (p + 4)
    if len = 0 then some []
    else if inSdram start len || inBkram start len then do
      let buf ← sectionWords b p len
      let calls ← writeSections b r
      some (.writei start buf :: calls)
    else writeSections b r

/-- What is asked of `m_fpga` before the file is read: the version, and that the CPU is halted. -/
def connect : List Call := [.readio R_VERSION, .writeio R_ZIPCTRL (CPU_HALT ||| CPU_RESET)]

/-- From the file to the calls that write it. -/
def zipload (pointer : Nat) (file : List (BitVec 8)) (phdrs : List Phdr) (free : Nat → BitVec 8) :
    Option (List Call) := do
  let (r, b) ← elfread pointer file phdrs free
  checkSections b r
  writeSections b r

/-- The byte that the CPU, which is big-endian, finds at an address. -/
def cpuByte (mem : Memory) (a : BitVec 32) : BitVec 8 := Bytes.byte (mem (Hexbus.wordAddr a)) (3 - a.toNat % 4)

end IcoZip.Loader
