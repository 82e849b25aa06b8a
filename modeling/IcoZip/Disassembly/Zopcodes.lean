import IcoZip.Library.Fields

/-! The disassembler of the host, `zopcodes`.

Two tables say what an instruction word looks like, one of them for the lower half of a compressed pair. The first
entry that matches a word gives its text. The `int` codes of the fields of a word are kept as they are packed.
-/

set_option autoImplicit false

namespace IcoZip.Zopcodes

def OPUNUSED : BitVec 32 := -1

def BITFIELD (ln mn : BitVec 32) : BitVec 32 := ((ln &&& 0xff) <<< 8) + (mn &&& 0xff)

def REGFIELD (mn : BitVec 32) : BitVec 32 := 0x400 + (mn &&& 0xff)

def URGFIELD (mn : BitVec 32) : BitVec 32 := 0x100400 + (mn &&& 0xff)

def IMMFIELD (ln mn : BitVec 32) : BitVec 32 := 0x40000000#32 + (((ln &&& 0xff) <<< 8) + (mn &&& 0xff))

def SP : BitVec 32 := 0xd0000

structure Zopcode where
  opstr : String
  mask : BitVec 32
  val : BitVec 32
  result : BitVec 32
  ra : BitVec 32
  rb : BitVec 32
  i : BitVec 32
  cf : BitVec 32
  deriving DecidableEq, Repr

def zipRegstr : List String :=
  ["R0", "R1", "R2", "R3", "R4", "R5", "R6", "R7", "R8", "R9", "R10", "R11", "R12", "SP", "CC", "PC",
    "uR0", "uR1", "uR2", "uR3", "uR4", "uR5", "uR6", "uR7", "uR8", "uR9", "uR10", "uR11", "uR12", "uSP", "uCC", "uPC",
    "sR0", "sR1", "sR2", "sR3", "sR4", "sR5", "sR6", "sR7", "sR8", "sR9", "sR10", "sR11", "sR12", "sSP", "sCC", "sPC",
    "rILL"]

def zipCcstr : List String := ["", ".Z", ".LT", ".C", ".V", ".NZ", ".GE", ".NC"]

def zipOplist : List Zopcode :=
  [⟨"BUSY", 0xffc7ffff, 0x7883ffff, OPUNUSED, OPUNUSED, OPUNUSED, OPUNUSED, BITFIELD 3 19⟩,
    ⟨"BZ", 0xfffc0000, 0x78880000, OPUNUSED, OPUNUSED, OPUNUSED, IMMFIELD 18 0, OPUNUSED⟩,
    ⟨"BLT", 0xfffc0000, 0x78900000, OPUNUSED, OPUNUSED, OPUNUSED, IMMFIELD 18 0, OPUNUSED⟩,
    ⟨"BC", 0xfffc0000, 0x78980000, OPUNUSED, OPUNUSED, OPUNUSED, IMMFIELD 18 0, OPUNUSED⟩,
    ⟨"BV", 0xfffc0000, 0x78a00000, OPUNUSED, OPUNUSED, OPUNUSED, IMMFIELD 18 0, OPUNUSED⟩,
    ⟨"BNZ", 0xfffc0000, 0x78a80000, OPUNUSED, OPUNUSED, OPUNUSED, IMMFIELD 18 0, OPUNUSED⟩,
    ⟨"BGE", 0xfffc0000, 0x78b00000, OPUNUSED, OPUNUSED, OPUNUSED, IMMFIELD 18 0, OPUNUSED⟩,
    ⟨"BNC", 0xfffc0000, 0x78b80000, OPUNUSED, OPUNUSED, OPUNUSED, IMMFIELD 18 0, OPUNUSED⟩,
    ⟨"BRA", 0xffc40000, 0x78800000, OPUNUSED, OPUNUSED, OPUNUSED, IMMFIELD 18 0, BITFIELD 3 19⟩,
    ⟨"TRAP", 0xfffffff0, 0x76000000, OPUNUSED, OPUNUSED, OPUNUSED, OPUNUSED, OPUNUSED⟩,
    ⟨"TRAP", 0xff800000, 0x76000000, OPUNUSED, OPUNUSED, OPUNUSED, OPUNUSED, OPUNUSED⟩,
    ⟨"TRAP", 0xffc7ffff, 0x72000000, OPUNUSED, OPUNUSED, OPUNUSED, IMMFIELD 18 0, BITFIELD 3 19⟩,
    ⟨"TRAP", 0xffc4ffff, 0x72400000, OPUNUSED, OPUNUSED, OPUNUSED, OPUNUSED, BITFIELD 3 19⟩,
    ⟨"TRAP", 0xffc40000, 0x72400000, OPUNUSED, OPUNUSED, OPUNUSED, IMMFIELD 18 0, BITFIELD 3 19⟩,
    ⟨"CLR", 0x87ffffff, 0x06000000, REGFIELD 27, OPUNUSED, OPUNUSED, OPUNUSED, OPUNUSED⟩,
    ⟨"CLR", 0x87c7ffff, 0x02000000, REGFIELD 27, REGFIELD 27, OPUNUSED, IMMFIELD 18 0, BITFIELD 3 19⟩,
    ⟨"HALT", 0xffc7ffff, 0x70c00010, OPUNUSED, OPUNUSED, OPUNUSED, OPUNUSED, BITFIELD 3 19⟩,
    ⟨"WAIT", 0xffc7ffff, 0x70c00030, OPUNUSED, OPUNUSED, OPUNUSED, OPUNUSED, BITFIELD 3 19⟩,
    ⟨"RTU", 0xffc7ffff, 0x70c00020, OPUNUSED, OPUNUSED, OPUNUSED, OPUNUSED, BITFIELD 3 19⟩,
    ⟨"RTN", 0xffc7ffff, 0x7b400000, OPUNUSED, OPUNUSED, OPUNUSED, OPUNUSED, BITFIELD 3 19⟩,
    ⟨"JMP", 0xffc40000, 0x7b400000, OPUNUSED, OPUNUSED, REGFIELD 14, IMMFIELD 13 0, BITFIELD 3 19⟩,
    ⟨"JMPI", 0xff800000, 0x7e000000, REGFIELD 27, OPUNUSED, OPUNUSED, IMMFIELD 23 0, OPUNUSED⟩,
    ⟨"LJMP", 0xffffffff, 0x7c87c000, OPUNUSED, OPUNUSED, OPUNUSED, OPUNUSED, OPUNUSED⟩,
    ⟨"SUB", 0x87c40000, 0x00000000, REGFIELD 27, REGFIELD 27, OPUNUSED, IMMFIELD 18 0, BITFIELD 3 19⟩,
    ⟨"SUB", 0x87c40000, 0x00040000, REGFIELD 27, REGFIELD 27, REGFIELD 14, IMMFIELD 14 0, BITFIELD 3 19⟩,
    ⟨"AND", 0x87c40000, 0x00400000, REGFIELD 27, REGFIELD 27, OPUNUSED, IMMFIELD 18 0, BITFIELD 3 19⟩,
    ⟨"AND", 0x87c40000, 0x00440000, REGFIELD 27, REGFIELD 27, REGFIELD 14, IMMFIELD 14 0, BITFIELD 3 19⟩,
    ⟨"ADD", 0x87c40000, 0x00800000, REGFIELD 27, REGFIELD 27, OPUNUSED, IMMFIELD 18 0, BITFIELD 3 19⟩,
    ⟨"ADD", 0x87c40000, 0x00840000, REGFIELD 27, REGFIELD 27, REGFIELD 14, IMMFIELD 14 0, BITFIELD 3 19⟩,
    ⟨"OR", 0x87c40000, 0x00c00000, REGFIELD 27, REGFIELD 27, OPUNUSED, IMMFIELD 18 0, BITFIELD 3 19⟩,
    ⟨"OR", 0x87c40000, 0x00c40000, REGFIELD 27, REGFIELD 27, REGFIELD 14, IMMFIELD 14 0, BITFIELD 3 19⟩,
    ⟨"XOR", 0x87c40000, 0x01000000, REGFIELD 27, REGFIELD 27, OPUNUSED, IMMFIELD 18 0, BITFIELD 3 19⟩,
    ⟨"XOR", 0x87c40000, 0x01040000, REGFIELD 27, REGFIELD 27, REGFIELD 14, IMMFIELD 14 0, BITFIELD 3 19⟩,
    ⟨"LSR", 0x87c40000, 0x01400000, REGFIELD 27, REGFIELD 27, OPUNUSED, IMMFIELD 18 0, BITFIELD 3 19⟩,
    ⟨"LSR", 0x87c40000, 0x01440000, REGFIELD 27, REGFIELD 27, REGFIELD 14, IMMFIELD 14 0, BITFIELD 3 19⟩,
    ⟨"LSL", 0x87c40000, 0x01800000, REGFIELD 27, REGFIELD 27, OPUNUSED, IMMFIELD 18 0, BITFIELD 3 19⟩,
    ⟨"LSL", 0x87c40000, 0x01840000, REGFIELD 27, REGFIELD 27, REGFIELD 14, IMMFIELD 14 0, BITFIELD 3 19⟩,
    ⟨"ASR", 0x87c40000, 0x01c00000, REGFIELD 27, REGFIELD 27, OPUNUSED, IMMFIELD 18 0, BITFIELD 3 19⟩,
    ⟨"ASR", 0x87c40000, 0x01c40000, REGFIELD 27, REGFIELD 27, REGFIELD 14, IMMFIELD 14 0, BITFIELD 3 19⟩,
    ⟨"BREV", 0x87c40000, 0x02000000, REGFIELD 27, REGFIELD 27, OPUNUSED, IMMFIELD 18 0, BITFIELD 3 19⟩,
    ⟨"BREV", 0x87c40000, 0x02040000, REGFIELD 27, REGFIELD 27, REGFIELD 14, IMMFIELD 14 0, BITFIELD 3 19⟩,
    ⟨"LDILO", 0x87c40000, 0x02400000, REGFIELD 27, REGFIELD 27, OPUNUSED, IMMFIELD 18 0, BITFIELD 3 19⟩,
    ⟨"LDILO", 0x87c40000, 0x02440000, REGFIELD 27, REGFIELD 27, REGFIELD 14, IMMFIELD 14 0, BITFIELD 3 19⟩,
    ⟨"MPYUHI", 0x87c40000, 0x02800000, REGFIELD 27, REGFIELD 27, OPUNUSED, IMMFIELD 18 0, BITFIELD 3 19⟩,
    ⟨"MPYUHI", 0x87c40000, 0x02840000, REGFIELD 27, REGFIELD 27, REGFIELD 14, IMMFIELD 14 0, BITFIELD 3 19⟩,
    ⟨"MPYSHI", 0x87c40000, 0x02c00000, REGFIELD 27, REGFIELD 27, OPUNUSED, IMMFIELD 18 0, BITFIELD 3 19⟩,
    ⟨"MPYSHI", 0x87c40000, 0x02c40000, REGFIELD 27, REGFIELD 27, REGFIELD 14, IMMFIELD 14 0, BITFIELD 3 19⟩,
    ⟨"MPY", 0x87c40000, 0x03000000, REGFIELD 27, REGFIELD 27, OPUNUSED, IMMFIELD 18 0, BITFIELD 3 19⟩,
    ⟨"MPY", 0x87c40000, 0x03040000, REGFIELD 27, REGFIELD 27, REGFIELD 14, IMMFIELD 14 0, BITFIELD 3 19⟩,
    ⟨"MOV", 0x87c42000, 0x03400000, REGFIELD 27, OPUNUSED, REGFIELD 14, IMMFIELD 13 0, BITFIELD 3 19⟩,
    ⟨"MOV", 0x87c42000, 0x03440000, URGFIELD 27, OPUNUSED, REGFIELD 14, IMMFIELD 13 0, BITFIELD 3 19⟩,
    ⟨"MOV", 0x87c42000, 0x03402000, REGFIELD 27, OPUNUSED, URGFIELD 14, IMMFIELD 13 0, BITFIELD 3 19⟩,
    ⟨"MOV", 0x87c42000, 0x03442000, URGFIELD 27, OPUNUSED, URGFIELD 14, IMMFIELD 13 0, BITFIELD 3 19⟩,
    ⟨"DIVU", 0x87c40000, 0x03800000, REGFIELD 27, REGFIELD 27, OPUNUSED, IMMFIELD 18 0, BITFIELD 3 19⟩,
    ⟨"DIVU", 0x87c40000, 0x03840000, REGFIELD 27, REGFIELD 27, REGFIELD 14, IMMFIELD 14 0, BITFIELD 3 19⟩,
    ⟨"DIVS", 0x87c40000, 0x03c00000, REGFIELD 27, REGFIELD 27, OPUNUSED, IMMFIELD 18 0, BITFIELD 3 19⟩,
    ⟨"DIVS", 0x87c40000, 0x03c40000, REGFIELD 27, REGFIELD 27, REGFIELD 14, IMMFIELD 14 0, BITFIELD 3 19⟩,
    ⟨"CMP", 0x87c40000, 0x04000000, OPUNUSED, REGFIELD 27, OPUNUSED, IMMFIELD 18 0, BITFIELD 3 19⟩,
    ⟨"CMP", 0x87c40000, 0x04040000, OPUNUSED, REGFIELD 27, REGFIELD 14, IMMFIELD 14 0, BITFIELD 3 19⟩,
    ⟨"TST", 0x87c40000, 0x04400000, OPUNUSED, REGFIELD 27, OPUNUSED, IMMFIELD 18 0, BITFIELD 3 19⟩,
    ⟨"TST", 0x87c40000, 0x04440000, OPUNUSED, REGFIELD 27, REGFIELD 14, IMMFIELD 14 0, BITFIELD 3 19⟩,
    ⟨"LW", 0x87c40000, 0x04800000, REGFIELD 27, OPUNUSED, OPUNUSED, IMMFIELD 18 0, BITFIELD 3 19⟩,
    ⟨"LW", 0x87c40000, 0x04840000, REGFIELD 27, OPUNUSED, REGFIELD 14, IMMFIELD 14 0, BITFIELD 3 19⟩,
    ⟨"SW", 0x87c40000, 0x04c00000, OPUNUSED, REGFIELD 27, OPUNUSED, IMMFIELD 18 0, BITFIELD 3 19⟩,
    ⟨"SW", 0x87c40000, 0x04c40000, OPUNUSED, REGFIELD 27, REGFIELD 14, IMMFIELD 14 0, BITFIELD 3 19⟩,
    ⟨"LH", 0x87c40000, 0x05000000, REGFIELD 27, OPUNUSED, OPUNUSED, IMMFIELD 18 0, BITFIELD 3 19⟩,
    ⟨"LH", 0x87c40000, 0x05040000, REGFIELD 27, OPUNUSED, REGFIELD 14, IMMFIELD 14 0, BITFIELD 3 19⟩,
    ⟨"SH", 0x87c40000, 0x05400000, OPUNUSED, REGFIELD 27, OPUNUSED, IMMFIELD 18 0, BITFIELD 3 19⟩,
    ⟨"SH", 0x87c40000, 0x05440000, OPUNUSED, REGFIELD 27, REGFIELD 14, IMMFIELD 14 0, BITFIELD 3 19⟩,
    ⟨"LB", 0x87c40000, 0x05800000, REGFIELD 27, OPUNUSED, OPUNUSED, IMMFIELD 18 0, BITFIELD 3 19⟩,
    ⟨"LB", 0x87c40000, 0x05840000, REGFIELD 27, OPUNUSED, REGFIELD 14, IMMFIELD 14 0, BITFIELD 3 19⟩,
    ⟨"SB", 0x87c40000, 0x05c00000, OPUNUSED, REGFIELD 27, OPUNUSED, IMMFIELD 18 0, BITFIELD 3 19⟩,
    ⟨"SB", 0x87c40000, 0x05c40000, OPUNUSED, REGFIELD 27, REGFIELD 14, IMMFIELD 14 0, BITFIELD 3 19⟩,
    ⟨"LDI", 0x87800000, 0x06000000, REGFIELD 27, OPUNUSED, OPUNUSED, IMMFIELD 23 0, OPUNUSED⟩,
    ⟨"BRK", 0xf7ffffff, 0x77000000, OPUNUSED, OPUNUSED, OPUNUSED, OPUNUSED, OPUNUSED⟩,
    ⟨"BRK", 0xf7c00000, 0x77000000, OPUNUSED, OPUNUSED, OPUNUSED, IMMFIELD 22 0, OPUNUSED⟩,
    ⟨"LOCK", 0xf7ffffff, 0x77400000, OPUNUSED, OPUNUSED, OPUNUSED, OPUNUSED, OPUNUSED⟩,
    ⟨"LOCK", 0xf7c00000, 0x77400000, OPUNUSED, OPUNUSED, OPUNUSED, IMMFIELD 22 0, OPUNUSED⟩,
    ⟨"SIM", 0xf7ffffff, 0x77800000, OPUNUSED, OPUNUSED, OPUNUSED, OPUNUSED, OPUNUSED⟩,
    ⟨"SEXIT", 0xf7ffffff, 0x77800100, OPUNUSED, OPUNUSED, OPUNUSED, OPUNUSED, OPUNUSED⟩,
    ⟨"SEXIT", 0xf7fffff0, 0x77800310, OPUNUSED, URGFIELD 0, OPUNUSED, OPUNUSED, OPUNUSED⟩,
    ⟨"SEXIT", 0xf7ffffe0, 0x77800300, OPUNUSED, REGFIELD 0, OPUNUSED, OPUNUSED, OPUNUSED⟩,
    ⟨"SEXIT", 0xf7ffff00, 0x77800100, OPUNUSED, OPUNUSED, OPUNUSED, IMMFIELD 8 0, OPUNUSED⟩,
    ⟨"SDUMP", 0xf7ffffff, 0x778002ff, OPUNUSED, OPUNUSED, OPUNUSED, OPUNUSED, OPUNUSED⟩,
    ⟨"SDUMP", 0xf7fffff0, 0x77800200, OPUNUSED, REGFIELD 0, OPUNUSED, OPUNUSED, OPUNUSED⟩,
    ⟨"SDUMP", 0xf7fffff0, 0x77800210, OPUNUSED, URGFIELD 0, OPUNUSED, OPUNUSED, OPUNUSED⟩,
    ⟨"SOUT", 0xf7fffff0, 0x77800230, OPUNUSED, URGFIELD 0, OPUNUSED, OPUNUSED, OPUNUSED⟩,
    ⟨"SOUT", 0xf7ffffe0, 0x77800220, OPUNUSED, REGFIELD 0, OPUNUSED, OPUNUSED, OPUNUSED⟩,
    ⟨"SOUT", 0xf7ffff00, 0x77800400, OPUNUSED, OPUNUSED, OPUNUSED, IMMFIELD 8 0, OPUNUSED⟩,
    ⟨"SDUMP", 0xf7ffff00, 0x77800200, OPUNUSED, OPUNUSED, OPUNUSED, IMMFIELD 8 0, OPUNUSED⟩,
    ⟨"SIM", 0xf7c00000, 0x77800000, OPUNUSED, OPUNUSED, OPUNUSED, IMMFIELD 22 0, OPUNUSED⟩,
    ⟨"NOOP", 0xf7ffffff, 0x77c00000, OPUNUSED, OPUNUSED, OPUNUSED, OPUNUSED, OPUNUSED⟩,
    ⟨"NEXIT", 0xf7ffffff, 0x77c00100, OPUNUSED, OPUNUSED, OPUNUSED, OPUNUSED, OPUNUSED⟩,
    ⟨"NEXIT", 0xf7ffff00, 0x77c00100, OPUNUSED, OPUNUSED, OPUNUSED, IMMFIELD 8 0, OPUNUSED⟩,
    ⟨"NEXIT", 0xf7fffff0, 0x77c00310, OPUNUSED, URGFIELD 0, OPUNUSED, OPUNUSED, OPUNUSED⟩,
    ⟨"NEXIT", 0xf7ffffe0, 0x77c00300, OPUNUSED, REGFIELD 0, OPUNUSED, OPUNUSED, OPUNUSED⟩,
    ⟨"NDUMP", 0xf7ffffff, 0x77c002ff, OPUNUSED, OPUNUSED, OPUNUSED, OPUNUSED, OPUNUSED⟩,
    ⟨"NDUMP", 0xf7fffff0, 0x77c00200, OPUNUSED, REGFIELD 0, OPUNUSED, OPUNUSED, OPUNUSED⟩,
    ⟨"NDUMP", 0xf7fffff0, 0x77c00210, OPUNUSED, URGFIELD 0, OPUNUSED, OPUNUSED, OPUNUSED⟩,
    ⟨"NOUT", 0xf7fffff0, 0x77c00230, OPUNUSED, URGFIELD 0, OPUNUSED, OPUNUSED, OPUNUSED⟩,
    ⟨"NOUT", 0xf7ffffe0, 0x77c00220, OPUNUSED, REGFIELD 0, OPUNUSED, OPUNUSED, OPUNUSED⟩,
    ⟨"NOUT", 0xf7ffff00, 0x77c00400, OPUNUSED, OPUNUSED, OPUNUSED, IMMFIELD 8 0, OPUNUSED⟩,
    ⟨"NDUMP", 0xf7ffff00, 0x77c00200, OPUNUSED, OPUNUSED, OPUNUSED, OPUNUSED, OPUNUSED⟩,
    ⟨"NSIM", 0xf7c00000, 0x77c00000, OPUNUSED, OPUNUSED, OPUNUSED, IMMFIELD 22 0, OPUNUSED⟩,
    ⟨"FPADD", 0x87c43fff, 0x06840000, REGFIELD 27, REGFIELD 27, REGFIELD 14, OPUNUSED, BITFIELD 3 19⟩,
    ⟨"FPSUB", 0x87c43fff, 0x06c40000, REGFIELD 27, REGFIELD 27, REGFIELD 14, OPUNUSED, BITFIELD 3 19⟩,
    ⟨"FPMPY", 0x87c43fff, 0x07040000, REGFIELD 27, REGFIELD 27, REGFIELD 14, OPUNUSED, BITFIELD 3 19⟩,
    ⟨"FPDIV", 0x87c43fff, 0x07440000, REGFIELD 27, REGFIELD 27, REGFIELD 14, OPUNUSED, BITFIELD 3 19⟩,
    ⟨"FPI2F", 0x87c40000, 0x07800000, REGFIELD 27, OPUNUSED, OPUNUSED, IMMFIELD 18 0, BITFIELD 3 19⟩,
    ⟨"FPI2F", 0x87c40000, 0x07840000, REGFIELD 27, OPUNUSED, REGFIELD 14, IMMFIELD 14 0, BITFIELD 3 19⟩,
    ⟨"FPF2I", 0x87c40000, 0x07c40000, REGFIELD 27, OPUNUSED, REGFIELD 14, IMMFIELD 14 0, BITFIELD 3 19⟩,
    ⟨"BRA", 0xff800000, 0xf9000000, OPUNUSED, OPUNUSED, OPUNUSED, IMMFIELD 7 16, OPUNUSED⟩,
    ⟨"CLR", 0x87ff0000, 0x86000000, REGFIELD 27, OPUNUSED, OPUNUSED, OPUNUSED, OPUNUSED⟩,
    ⟨"RTN", 0xffff0000, 0xff800000, OPUNUSED, OPUNUSED, OPUNUSED, OPUNUSED, OPUNUSED⟩,
    ⟨"JMP", 0xff800000, 0xff000000, REGFIELD 27, OPUNUSED, REGFIELD 19, IMMFIELD 3 16, OPUNUSED⟩,
    ⟨"SUB", 0x87800000, 0x80000000, REGFIELD 27, REGFIELD 27, OPUNUSED, IMMFIELD 7 16, OPUNUSED⟩,
    ⟨"SUB", 0x87800000, 0x80800000, REGFIELD 27, REGFIELD 27, REGFIELD 19, IMMFIELD 3 16, OPUNUSED⟩,
    ⟨"AND", 0x87800000, 0x81000000, REGFIELD 27, REGFIELD 27, OPUNUSED, IMMFIELD 7 16, OPUNUSED⟩,
    ⟨"AND", 0x87800000, 0x81800000, REGFIELD 27, REGFIELD 27, REGFIELD 19, IMMFIELD 3 16, OPUNUSED⟩,
    ⟨"ADD", 0x87800000, 0x82000000, REGFIELD 27, REGFIELD 27, OPUNUSED, IMMFIELD 7 16, OPUNUSED⟩,
    ⟨"ADD", 0x87800000, 0x82800000, REGFIELD 27, REGFIELD 27, REGFIELD 19, IMMFIELD 3 16, OPUNUSED⟩,
    ⟨"CMP", 0x87800000, 0x83000000, REGFIELD 27, OPUNUSED, REGFIELD 19, IMMFIELD 7 16, OPUNUSED⟩,
    ⟨"CMP", 0x87800000, 0x83800000, REGFIELD 27, OPUNUSED, REGFIELD 19, IMMFIELD 3 16, OPUNUSED⟩,
    ⟨"LW", 0x87800000, 0x84000000, REGFIELD 27, OPUNUSED, SP, IMMFIELD 7 16, OPUNUSED⟩,
    ⟨"LW", 0x87800000, 0x84800000, REGFIELD 27, OPUNUSED, REGFIELD 19, IMMFIELD 3 16, OPUNUSED⟩,
    ⟨"SW", 0x87000000, 0x85000000, OPUNUSED, REGFIELD 27, SP, IMMFIELD 7 16, OPUNUSED⟩,
    ⟨"SW", 0x87800000, 0x85800000, OPUNUSED, REGFIELD 27, REGFIELD 19, IMMFIELD 3 16, OPUNUSED⟩,
    ⟨"LDI", 0x87000000, 0x86000000, REGFIELD 27, OPUNUSED, OPUNUSED, IMMFIELD 8 16, OPUNUSED⟩,
    ⟨"MOV", 0x87800000, 0x87800000, OPUNUSED, REGFIELD 27, REGFIELD 19, IMMFIELD 3 16, OPUNUSED⟩,
    ⟨"ILLV", 0x80000000, 0x80000000, OPUNUSED, OPUNUSED, OPUNUSED, IMMFIELD 32 16, OPUNUSED⟩,
    ⟨"ILL", 0x00000000, 0x00000000, OPUNUSED, OPUNUSED, OPUNUSED, IMMFIELD 32 0, OPUNUSED⟩]

/-- The lower halves of compressed pairs. -/
def zipOpbottomlist : List Zopcode :=
  [⟨"BRA", 0x80007f80, 0x80007900, OPUNUSED, OPUNUSED, OPUNUSED, IMMFIELD 7 0, OPUNUSED⟩,
    ⟨"CLR", 0x800007ff, 0x80000600, REGFIELD 11, OPUNUSED, OPUNUSED, OPUNUSED, OPUNUSED⟩,
    ⟨"RTN", 0x80007fff, 0x80007f80, OPUNUSED, OPUNUSED, OPUNUSED, OPUNUSED, OPUNUSED⟩,
    ⟨"JMP", 0x80007f80, 0x80007f00, REGFIELD 11, OPUNUSED, REGFIELD 3, IMMFIELD 3 0, OPUNUSED⟩,
    ⟨"LJMP", 0x80007fff, 0x80007cf8, REGFIELD 11, OPUNUSED, REGFIELD 3, IMMFIELD 3 0, OPUNUSED⟩,
    ⟨"SUB", 0x80000780, 0x80000000, REGFIELD 11, REGFIELD 11, OPUNUSED, IMMFIELD 7 0, OPUNUSED⟩,
    ⟨"SUB", 0x80000780, 0x80000080, REGFIELD 11, REGFIELD 11, REGFIELD 3, IMMFIELD 3 0, OPUNUSED⟩,
    ⟨"AND", 0x80000780, 0x80000100, REGFIELD 11, REGFIELD 11, OPUNUSED, IMMFIELD 7 0, OPUNUSED⟩,
    ⟨"AND", 0x80000780, 0x80000180, REGFIELD 11, REGFIELD 11, REGFIELD 3, IMMFIELD 3 0, OPUNUSED⟩,
    ⟨"ADD", 0x80000780, 0x80000200, REGFIELD 11, REGFIELD 11, OPUNUSED, IMMFIELD 7 0, OPUNUSED⟩,
    ⟨"ADD", 0x80000780, 0x80000280, REGFIELD 11, REGFIELD 11, REGFIELD 3, IMMFIELD 3 0, OPUNUSED⟩,
    ⟨"CMP", 0x80000780, 0x80000300, REGFIELD 11, OPUNUSED, OPUNUSED, IMMFIELD 7 0, OPUNUSED⟩,
    ⟨"CMP", 0x80000780, 0x80000380, REGFIELD 11, OPUNUSED, REGFIELD 3, IMMFIELD 3 0, OPUNUSED⟩,
    ⟨"LW", 0x80000780, 0x80000400, REGFIELD 11, OPUNUSED, SP, IMMFIELD 7 0, OPUNUSED⟩,
    ⟨"LW", 0x80000780, 0x80000480, REGFIELD 11, OPUNUSED, REGFIELD 3, IMMFIELD 3 0, OPUNUSED⟩,
    ⟨"SW", 0x80000780, 0x80000500, OPUNUSED, REGFIELD 11, SP, IMMFIELD 7 0, OPUNUSED⟩,
    ⟨"SW", 0x80000780, 0x80000580, OPUNUSED, REGFIELD 11, REGFIELD 3, IMMFIELD 3 0, OPUNUSED⟩,
    ⟨"LDI", 0x80000700, 0x80000600, REGFIELD 11, OPUNUSED, OPUNUSED, IMMFIELD 8 0, OPUNUSED⟩,
    ⟨"MOV", 0x80000780, 0x80000780, REGFIELD 11, OPUNUSED, REGFIELD 3, IMMFIELD 3 0, OPUNUSED⟩,
    ⟨"ILLV", 0x80000000, 0x80000000, OPUNUSED, OPUNUSED, OPUNUSED, IMMFIELD 15 0, OPUNUSED⟩,
    ⟨"ILL", 0x00000000, 0x00000000, OPUNUSED, OPUNUSED, OPUNUSED, IMMFIELD 15 0, OPUNUSED⟩]

/-- A `MOV` out of the program counter, with an offset. -/
def offsetPcMov (ins : BitVec 32) : Bool := ins &&& 0x87c7e000 == 0x0343c000

/-! ### The fields of a word -/

def zipSbits (val : BitVec 64) (bits : Nat) : BitVec 64 :=
  let r := val &&& (1#64 <<< bits - 1)
  if r &&& 1#64 <<< (bits - 1) ≠ 0 then r ||| (-1#64) <<< bits else r

def zipUbits (val : BitVec 64) (bits : Nat) : BitVec 64 := val &&& (1#64 <<< bits - 1)

def zipGetbits (ins which : BitVec 32) : BitVec 32 :=
  let val := (ins >>> (which &&& 0x3f).toNat).setWidth 64
  let bits := ((which >>> 8) &&& 0x3f).toNat
  if which &&& 0x40000000 ≠ 0 then (zipSbits val bits).setWidth 32
  else (zipUbits val bits + ((which >>> 16) &&& 0xff).setWidth 64).setWidth 32

/-! ### The text of a word -/

/-- `%08x` -/
def hex08 (value : BitVec 32) : String :=
  let digits := Nat.toDigits 16 value.toNat
  String.ofList (List.replicate (8 - digits.length) '0' ++ digits)

/-- `%d` -/
def decimal (value : BitVec 32) : String := toString value.toInt

/-- `%-11s` -/
def padded (line : String) : String := line.pushn ' ' (11 - line.length)

def strcasecmp (first second : String) : Bool := first.toList.map Char.toUpper == second.toList.map Char.toUpper

def strncasecmp (first second : String) (n : Nat) : Bool :=
  (first.toList.take n).map Char.toUpper == (second.toList.take n).map Char.toUpper

def regstr (reg : BitVec 32) : String := zipRegstr.getD reg.toNat ""

def ccstr (cond : BitVec 32) : String := zipCcstr.getD cond.toNat ""

namespace Zopcode

variable (op : Zopcode) (addr ins : BitVec 32)

/-- What the tables are checked for before they are used. -/
def consistent : Bool := ~~~op.mask &&& op.val == 0

def matched : Bool := ins &&& op.mask == op.val

def rr : BitVec 32 := if op.result ≠ OPUNUSED then zipGetbits ins op.result else -1

def raOf : BitVec 32 := if op.ra ≠ OPUNUSED then zipGetbits ins op.ra else -1

def rbOf : BitVec 32 := if op.rb ≠ OPUNUSED then zipGetbits ins op.rb else -1

/-- Offsets to the program counter count words. -/
def imv : BitVec 32 :=
  let imv := if op.i ≠ OPUNUSED then zipGetbits ins op.i else 0
  if op.rb ≠ OPUNUSED ∧ op.rbOf ins = 15 then imv <<< 2 else imv

def mnemonic : String :=
  padded (op.opstr ++ (if op.cf ≠ OPUNUSED then ccstr (zipGetbits ins op.cf) else ""))

def isStore : Bool := strncasecmp "SW" op.opstr 2 || strncasecmp "SH" op.opstr 2 || strncasecmp "SB" op.opstr 2

def isBranch : Bool :=
  op.opstr.toList.head? == some 'B' && !strcasecmp op.opstr "BUSY" && !strcasecmp op.opstr "BREV" &&
    !strcasecmp op.opstr "BRK" && addr != 0

def memop : Bool := strcasecmp op.opstr "LW" || strcasecmp op.opstr "LH" || strcasecmp op.opstr "LB"

def storeOperands : String :=
  regstr (op.raOf ins) ++ "," ++
    (if op.i ≠ OPUNUSED then
      if op.rb = OPUNUSED then "($" ++ decimal (op.imv ins) ++ ")"
      else if op.imv ins ≠ 0 then "$" ++ decimal (op.imv ins) else ""
    else "") ++
    (if op.rb ≠ OPUNUSED then "(" ++ regstr (op.rbOf ins) ++ ")" else "")

/-- Where a branch goes. -/
def target : BitVec 32 := addr + (zipGetbits ins op.i + 4)

def immediate : String :=
  if op.memop && op.rb == OPUNUSED then "($" ++ decimal (op.imv ins) ++ ")"
  else if op.memop && op.imv ins != 0 then decimal (op.imv ins)
  else if !op.memop && (op.imv ins != 0 || op.rb == OPUNUSED) then
    "$" ++ decimal (op.imv ins) ++ (if op.rb ≠ OPUNUSED then "+" else "")
  else ""

def operands : String :=
  (if op.i ≠ OPUNUSED then op.immediate ins else "") ++
    (if op.rb ≠ OPUNUSED then
      if op.memop then "(" ++ regstr (op.rbOf ins) ++ ")" else regstr (op.rbOf ins)
    else "") ++
    (if (op.i ≠ OPUNUSED ∨ op.rb ≠ OPUNUSED) ∧ (op.ra ≠ OPUNUSED ∨ op.result ≠ OPUNUSED) then "," else "") ++
    (if op.ra ≠ OPUNUSED then regstr (op.raOf ins)
    else if op.result ≠ OPUNUSED then regstr (op.rr ins) else "")

def line : String :=
  op.mnemonic ins ++
    (if op.isStore then op.storeOperands ins
    else if strncasecmp "LJMP" op.opstr 3 then ""
    else if op.isBranch addr then "@0x" ++ hex08 (op.target addr ins)
    else op.operands ins)

end Zopcode

/-- The first entry that matches. An entry without a mask ends a table. -/
def entry : List Zopcode → BitVec 32 → Option Zopcode
  | [], _ => none
  | op :: rest, ins => if op.mask = 0 then none else if op.matched ins then some op else entry rest ins

def pcMovLine (addr ins : BitVec 32) : String :=
  padded ("MOV" ++ ccstr (zipGetbits ins (BITFIELD 3 19))) ++ "0x" ++
    hex08 (((zipSbits (ins.setWidth 64) 13).setWidth 32 <<< 2) + addr + 4) ++ "," ++
    regstr (zipGetbits ins (REGFIELD 27))

/-- The text of a word at an address, and nothing where the check of the tables would stop the program. -/
def zipiToHalfstring (addr ins : BitVec 32) (listp : List Zopcode) : Option String :=
  if offsetPcMov ins then some (pcMovLine addr ins)
  else if zipOplist.all Zopcode.consistent then
    some ((entry listp ins).elim ("ILL " ++ hex08 ins) (fun op => op.line addr ins))
  else none

/-- The address that is expected behind an instruction. -/
def zopEarlyBranch (pc insn : BitVec 32) : BitVec 32 :=
  if insn &&& 0xf8000000 ≠ 0x78000000 then pc + 4
  else if insn &&& 0xffc60000 = 0x78800000 then pc + 4#32 + ((insn &&& 0x3ffff) <<< 2)
  else if insn &&& 0xffc60000 = 0x78820000 then pc + 4#32 + ((0x40000#32 - (insn &&& 0x3ffff)) <<< 2)
  else pc + 4

end IcoZip.Zopcodes
