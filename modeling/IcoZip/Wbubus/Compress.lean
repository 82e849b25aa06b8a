import IcoZip.Library.Elastic
import Mathlib.Logic.Function.Basic

/-! The compressor `wbucompress` and the decoder of what it emits.

An address word is shortened in the first stage. While a read word waits for the
output, the second stage searches the words sent before it, one each clock, and
replaces it by its distance from the end of the table when it finds it.
-/

set_option autoImplicit false

namespace IcoZip.Wbubus

open Elastic (Offer)

structure Compress where
  awordValid : Bool
  addrword : BitVec 36
  stb : Bool
  rWord : BitVec 36
  rCword : BitVec 36
  tblAddr : BitVec 10
  tblFilled : Bool
  compressionTbl : BitVec 10 → BitVec 32
  rdAddr : BitVec 10
  pmatch : Bool
  dmatch : Bool
  vaddr : Bool
  cword : BitVec 32
  maddr : BitVec 10
  matched : Bool
  zmatch : Bool
  hmatch : Bool
  adrDbld : BitVec 10
  adrHlfd : BitVec 3
  dffaddr : BitVec 10
  addrWithinTable : Bool

/-! ### Codewords -/

/-- The data of a read word; bit 30 between its two parts is the increment bit. -/
def readData (codeword : BitVec 36) : BitVec 32 := codeword.extractLsb' 31 2 ++ codeword.extractLsb' 0 30

def readWord (data : BitVec 32) (inc : Bool) : BitVec 36 :=
  0x7#3 ++ data.extractLsb' 30 2 ++ BitVec.ofBool inc ++ data.extractLsb' 0 30

def isRead (codeword : BitVec 36) : Bool := codeword.extractLsb' 33 3 == 0b111#3

/-- An address word, in full or short. -/
def isAddress (codeword : BitVec 36) : Bool := codeword.extractLsb' 33 3 == 0b001#3

/-- The address compression stage. -/
def shorten (codeword : BitVec 36) : BitVec 36 :=
  let addr : BitVec 32 := codeword.extractLsb' 0 32
  if codeword.extractLsb' 32 4 ≠ 0x2#4 then codeword
  else if addr.extractLsb' 24 8 ≠ 0#8 then codeword
  else if addr.extractLsb' 18 6 ≠ 0#6 then 0x0f#6 ++ addr.extractLsb' 0 24 ++ 0#6
  else if addr.extractLsb' 12 6 ≠ 0#6 then 0x0e#6 ++ addr.extractLsb' 0 18 ++ 0#12
  else if addr.extractLsb' 6 6 ≠ 0#6 then 0x0d#6 ++ addr.extractLsb' 0 12 ++ 0#18
  else 0x0c#6 ++ addr.extractLsb' 0 6 ++ 0#24

namespace Compress

def tblBusy (s : Compress) (iBusy : Bool) : Bool := s.stb && iBusy

def busy (s : Compress) (iBusy : Bool) : Bool := s.awordValid && s.tblBusy iBusy

def clearTable (s : Compress) (iReset iBusy : Bool) : Bool :=
  iReset || (s.stb && !iBusy && isAddress s.rCword)

def wMatch (s : Compress) : Bool := s.addrWithinTable && s.dmatch && isRead s.rWord

/-- What a word is replaced by when it has been found. -/
def replaced (s : Compress) : BitVec 36 :=
  if s.zmatch then 0x3#5 ++ s.rWord.extractLsb' 30 1 ++ s.rWord.extractLsb' 0 30
  else if s.hmatch then 0b10#2 ++ s.adrHlfd ++ s.rWord.extractLsb' 30 1 ++ s.rWord.extractLsb' 0 30
  else
    0b01#2 ++ s.adrDbld.extractLsb' 6 3 ++ s.rWord.extractLsb' 30 1 ++ s.adrDbld.extractLsb' 0 6 ++
      s.rWord.extractLsb' 0 24

/-- One clock of `wbucompress`. -/
def wbucompress (s : Compress) (iReset iStb : Bool) (iCodeword : BitVec 36) (iBusy : Bool) : Compress :=
  let tblBusy := s.tblBusy iBusy
  let clear := s.clearTable iReset iBusy
  let leaves := !s.stb || !iBusy
  { addrword := if !s.awordValid || !tblBusy then shorten iCodeword else s.addrword
    awordValid :=
      if iReset then false
      else if iStb then true
      else if !tblBusy then false
      else s.awordValid
    rWord := if !tblBusy then s.addrword else s.rWord
    tblAddr :=
      if clear then 0#10
      else if s.stb && !tblBusy && isRead s.rCword then s.tblAddr + 1#10
      else s.tblAddr
    tblFilled :=
      if clear then false
      else if s.tblAddr == 0x3ff#10 then true
      else s.tblFilled
    compressionTbl := Function.update s.compressionTbl s.tblAddr (readData s.rWord)
    rdAddr :=
      if clear then BitVec.allOnes 10
      else if leaves then s.tblAddr - (if s.stb && isRead s.rCword then 0#10 else 1#10)
      else s.rdAddr - 1#10
    cword := s.compressionTbl s.rdAddr
    dmatch :=
      if leaves then false
      else s.cword == readData s.rWord && s.pmatch && !s.matched && s.vaddr
    maddr := s.dffaddr
    dffaddr := if clear || leaves then 1#10 else s.dffaddr + 1#10
    vaddr :=
      if iReset || !iBusy then false
      else 0#1 ++ s.rdAddr < BitVec.ofBool s.tblFilled ++ s.tblAddr
    addrWithinTable :=
      if iReset || !iBusy then true
      else if s.addrWithinTable then s.dffaddr ≤ 521#10
      else s.addrWithinTable
    pmatch := if iReset then false else tblBusy
    matched :=
      if iReset then false
      else if leaves then false
      else s.matched || s.wMatch
    zmatch := if iReset || leaves || !s.pmatch then false else s.dffaddr == 2#10
    hmatch := if iReset || leaves || !s.pmatch then false else s.dffaddr < 11#10
    adrHlfd := if !s.matched && !s.wMatch then s.maddr.extractLsb' 0 3 - 2#3 else s.adrHlfd
    adrDbld := if !s.matched && !s.wMatch then s.maddr - 10#10 else s.adrDbld
    rCword :=
      if !tblBusy then s.addrword
      else if !s.matched && s.wMatch then s.replaced
      else s.rCword
    stb :=
      if iReset then false
      else if s.awordValid then true
      else if !iBusy then false
      else s.stb }

end Compress

/-! ### The decoder -/

/-- The symbol that is sent first. -/
def firstSymbol (codeword : BitVec 36) : BitVec 6 := codeword.extractLsb' 30 6

def addressWord (addr : BitVec 32) : BitVec 36 := 0x2#4 ++ addr

/-- The read words received uncompressed since the last address word, the last one first. -/
abbrev Table := List (BitVec 32)

namespace Table

def after (t : Table) (codeword : BitVec 36) : Table :=
  if isAddress codeword then []
  else if isRead codeword then readData codeword :: t
  else t

/-- A short form stands for an entry of the table or for an address; every other codeword for itself. -/
def expand (t : Table) (codeword : BitVec 36) : Option (BitVec 36) :=
  let first := firstSymbol codeword
  if first.extractLsb' 1 5 = 0x3#5 then t[0]?.map (readWord · (first.getLsbD 0))
  else if first.extractLsb' 4 2 = 0b10#2 then t[(first.extractLsb' 1 3).toNat + 1]?.map (readWord · (first.getLsbD 0))
  else if first.extractLsb' 4 2 = 0b01#2 then
    t[(first.extractLsb' 1 3 ++ codeword.extractLsb' 24 6).toNat + 9]?.map (readWord · (first.getLsbD 0))
  else if first = 0x0c#6 then some (addressWord (codeword.extractLsb' 24 6 |>.setWidth 32))
  else if first = 0x0d#6 then some (addressWord (codeword.extractLsb' 18 12 |>.setWidth 32))
  else if first = 0x0e#6 then some (addressWord (codeword.extractLsb' 12 18 |>.setWidth 32))
  else if first = 0x0f#6 then some (addressWord (codeword.extractLsb' 6 24 |>.setWidth 32))
  else some codeword

/-- All the words that a list of codewords stands for. -/
def decode : Table → List (BitVec 36) → Option (List (BitVec 36))
  | _, [] => some []
  | t, codeword :: rest => do
      let word ← t.expand codeword
      let words ← decode (t.after codeword) rest
      some (word :: words)

def afterAll (t : Table) (codewords : List (BitVec 36)) : Table := codewords.foldl after t

theorem decode_append {t : Table} {first words : List (BitVec 36)} (decoded : t.decode first = some words)
    (codeword : BitVec 36) :
    t.decode (first ++ [codeword]) = ((t.afterAll first).expand codeword).map (words ++ [·]) := by
  induction first generalizing t words with
  | nil =>
    cases decoded
    cases expanded : t.expand codeword <;> simp [decode, afterAll, expanded]
  | cons head rest ih =>
    simp only [decode, Option.bind_eq_bind, Option.bind_eq_some_iff] at decoded
    obtain ⟨word, expanded, tail, decoded, equal⟩ := decoded
    cases equal
    have later := ih decoded
    simp only [List.cons_append, decode, expanded, later, afterAll, List.foldl_cons]
    cases (List.foldl after (t.after head) rest).expand codeword <;> rfl

end Table

/-- A codeword that is none of the short forms. -/
def Plain (codeword : BitVec 36) : Prop :=
  let first := firstSymbol codeword
  first.extractLsb' 1 5 ≠ 0x3#5 ∧ first.extractLsb' 4 2 ≠ 0b10#2 ∧ first.extractLsb' 4 2 ≠ 0b01#2 ∧
    first.extractLsb' 2 4 ≠ 0x3#4

instance : DecidablePred Plain := fun _ => inferInstanceAs (Decidable (_ ∧ _))

end IcoZip.Wbubus
