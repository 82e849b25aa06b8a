import IcoZip.Library.Clocked
import Mathlib.Data.BitVec
import Mathlib.Logic.Function.Basic

/-! Characters to command words: `wbutohex`, `wbureadcw` and `wbudecompress`, as
`wbuinput` connects them.

No stage can be stalled. A codeword leaves `wbureadcw` with its leading symbols
in place and whatever the shift register holds below them.
-/

set_option autoImplicit false

namespace IcoZip.Wbubus

/-! ### Characters to symbols -/

structure Tohex where
  stb : Bool
  valid : Bool
  hexbits : BitVec 6
  deriving DecidableEq, Repr

/-- An entry of the table in `wbutohex`; bit 6 is set for the characters of the alphabet. -/
def remapHex (k : BitVec 7) : BitVec 7 :=
  if 48 ≤ k ∧ k ≤ 57 then 0b100#3 ++ k.extractLsb' 0 4
  else if 65 ≤ k ∧ k ≤ 90 then 0b1#1 ++ (k.extractLsb' 0 6 + 0x09#6)
  else if 97 ≤ k ∧ k ≤ 122 then 0b1#1 ++ (k.extractLsb' 0 6 + 0x03#6)
  else if k = 64 then 0b1#1 ++ 0x3e#6
  else if k = 37 then 0b1#1 ++ 0x3f#6
  else 0

/-- One clock of `wbutohex`. -/
def wbutohex (iStb : Bool) (iByte : BitVec 8) : Tohex :=
  { stb := iStb
    valid := (remapHex (iByte.extractLsb' 0 7)).getLsbD 6 && !iByte.getLsbD 7
    hexbits := (remapHex (iByte.extractLsb' 0 7)).extractLsb' 0 6 }

/-! ### Symbols to codewords -/

structure Readcw where
  rLen : BitVec 3
  cwLen : BitVec 3
  lastcw : BitVec 2
  shiftreg : BitVec 36
  stb : Bool
  codword : BitVec 36
  deriving DecidableEq, Repr

/-- The number of symbols of a codeword, by its first. -/
def codeLen (hexbits : BitVec 6) : BitVec 3 :=
  if hexbits.extractLsb' 4 2 = 0b11#2 then 2#3
  else if hexbits.extractLsb' 4 2 = 0b10#2 then 1#3
  else if hexbits.extractLsb' 3 3 = 0b010#3 then 2#3
  else if hexbits.extractLsb' 3 3 = 0b001#3 then 0b010#3 + (0#1 ++ hexbits.extractLsb' 1 2)
  else 6#3

/-- A symbol goes to its place in the shift register. -/
def place (word : BitVec 36) (rLen : BitVec 3) (hexbits : BitVec 6) : BitVec 36 :=
  if rLen = 0#3 then hexbits ++ word.extractLsb' 0 30
  else if rLen = 1#3 then word.extractLsb' 30 6 ++ (hexbits ++ word.extractLsb' 0 24)
  else if rLen = 2#3 then word.extractLsb' 24 12 ++ (hexbits ++ word.extractLsb' 0 18)
  else if rLen = 3#3 then word.extractLsb' 18 18 ++ (hexbits ++ word.extractLsb' 0 12)
  else if rLen = 4#3 then word.extractLsb' 12 24 ++ (hexbits ++ word.extractLsb' 0 6)
  else if rLen = 5#3 then word.extractLsb' 6 30 ++ hexbits
  else word

namespace Readcw

variable (s : Readcw) (iStb iValid : Bool) (iHexbits : BitVec 6)

/-- A newline behind a write. -/
def endsWrite : Bool := iStb && !iValid && s.lastcw == 0b01#2

def wStb : Bool := s.rLen == s.cwLen && s.cwLen != 0 || s.endsWrite iStb iValid

/-- One clock of `wbureadcw`. -/
def wbureadcw : Readcw :=
  { rLen :=
      if iStb && !iValid then 0
      else if s.wStb iStb iValid then if iStb then 1 else 0
      else if iStb then s.rLen + 1
      else s.rLen
    shiftreg :=
      if s.wStb iStb iValid then iHexbits ++ s.shiftreg.extractLsb' 0 30
      else if iStb then place s.shiftreg s.rLen iHexbits
      else s.shiftreg
    lastcw := if s.stb then s.codword.extractLsb' 34 2 else s.lastcw
    codword := if s.endsWrite iStb iValid then 0x2e#6 ++ s.codword.extractLsb' 0 30 else s.shiftreg
    cwLen :=
      if iStb && !iValid then 0
      else if iStb && (s.cwLen == 0 || s.wStb iStb iValid) then codeLen iHexbits
      else if s.wStb iStb iValid then 0
      else s.cwLen
    stb := s.wStb iStb iValid }

end Readcw

/-! ### Codewords to command words -/

structure Decompress where
  wrAddr : BitVec 8
  compressionTbl : BitVec 8 → BitVec 32
  rWord : BitVec 36
  cmdAddr : BitVec 8
  rAddr : BitVec 25
  rdLen : BitVec 10
  cword : BitVec 32
  rStb : BitVec 3
  stb : Bool
  word : BitVec 36

/-- The data of a write word; bit 30 between its two parts is the increment bit. -/
def writeData (word : BitVec 36) : BitVec 32 := word.extractLsb' 31 2 ++ word.extractLsb' 0 30

/-- The distance of a compressed write. -/
def distance (word : BitVec 36) : BitVec 8 := word.extractLsb' 31 2 ++ word.extractLsb' 24 6

/-- A compressed address, zero- or sign-extended. -/
def shortAddr (word : BitVec 36) : BitVec 25 :=
  if word.extractLsb' 30 3 = 0b000#3 then (word.extractLsb' 24 6).setWidth 25
  else if word.extractLsb' 30 3 = 0b010#3 then (word.extractLsb' 18 12).setWidth 25
  else if word.extractLsb' 30 3 = 0b100#3 then (word.extractLsb' 12 18).setWidth 25
  else if word.extractLsb' 30 3 = 0b110#3 then (word.extractLsb' 6 24).setWidth 25
  else if word.extractLsb' 30 3 = 0b001#3 then (word.extractLsb' 24 6).signExtend 25
  else if word.extractLsb' 30 3 = 0b011#3 then (word.extractLsb' 18 12).signExtend 25
  else if word.extractLsb' 30 3 = 0b101#3 then (word.extractLsb' 12 18).signExtend 25
  else (word.extractLsb' 6 24).signExtend 25

def readLen (word : BitVec 36) : BitVec 10 :=
  if word.getLsbD 34 then 0x09#10 + (0#1 ++ (word.extractLsb' 31 3 ++ word.extractLsb' 24 6))
  else 0x01#10 + (0#7 ++ word.extractLsb' 31 3)

/-- The output word for a codeword, with its address, its length and the word of the table. -/
def unpack (word : BitVec 36) (rAddr : BitVec 25) (rdLen : BitVec 10) (cword : BitVec 32) : BitVec 36 :=
  let wAddr : BitVec 32 := rAddr.signExtend 32
  if word.extractLsb' 30 6 = 0b101110#6 then word
  else if word.extractLsb' 33 3 = 0b001#3 ∧ word.getLsbD 30 = false then 0x0#4 ++ wAddr
  else if word.extractLsb' 33 3 = 0b001#3 then
    0x1#3 ++ (wAddr.extractLsb' 30 2 ++ (0b1#1 ++ wAddr.extractLsb' 0 30))
  else if word.extractLsb' 33 3 = 0b010#3 then
    0x3#3 ++ (cword.extractLsb' 30 2 ++ (word.extractLsb' 30 1 ++ cword.extractLsb' 0 30))
  else if word.getLsbD 35 then 0b11000#5 ++ (word.extractLsb' 30 1 ++ (0x00#20 ++ rdLen))
  else word

/-- One clock of `wbudecompress`. -/
def wbudecompress (s : Decompress) (iStb : Bool) (iWord : BitVec 36) : Decompress :=
  { wrAddr := if iStb && iWord.extractLsb' 33 3 == 0x3#3 then s.wrAddr + 1 else s.wrAddr
    compressionTbl :=
      if iStb then Function.update s.compressionTbl s.wrAddr (writeData iWord) else s.compressionTbl
    rWord := if iStb then iWord else s.rWord
    cmdAddr := if iStb then s.wrAddr - distance iWord else s.cmdAddr
    rAddr := if iStb then shortAddr iWord else s.rAddr
    rdLen := if iStb then readLen iWord else s.rdLen
    cword := s.compressionTbl s.cmdAddr
    rStb := s.rStb.extractLsb' 0 2 ++ BitVec.ofBool iStb
    stb := s.rStb.getLsbD 2
    word := unpack s.rWord s.rAddr s.rdLen s.cword }

/-! ### `wbuinput` -/

structure Wbuinput where
  tobits : Tohex
  formcw : Readcw
  unpacker : Decompress

namespace Wbuinput

/-- The `initial` values; registers without one keep what `free` has. -/
def powerUp (free : Wbuinput) : Wbuinput where
  tobits := { free.tobits with stb := false }
  formcw := { free.formcw with rLen := 0, cwLen := 0, lastcw := 0, shiftreg := 0, stb := false }
  unpacker := { free.unpacker with wrAddr := 0, rStb := 0, stb := false }

/-- One clock, with the character that comes in. The byte on the line is free without one. -/
def clock (s : Wbuinput) (iStb : Bool) (iByte : BitVec 8) : Wbuinput where
  tobits := wbutohex iStb iByte
  formcw := s.formcw.wbureadcw s.tobits.stb s.tobits.valid s.tobits.hexbits
  unpacker := wbudecompress s.unpacker s.formcw.stb s.formcw.codword

end Wbuinput

end IcoZip.Wbubus
