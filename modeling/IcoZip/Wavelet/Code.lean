import Mathlib.Data.Int.Notation
import Mathlib.Logic.Function.Iterate
import Mathlib.Logic.Function.Basic

/-! The wavelet of `sw/board/lifting.c`: `singlelift`, `ilift` and `lifting`.

A buffer is addressed by element, a pointer is an offset into its buffer, and
`int` is unbounded with arithmetic right shifts. Registers that the C code
carries round a loop are the fields of a structure, and a loop is an iteration
of its body.
-/

set_option autoImplicit false

namespace IcoZip.Wavelet

/-- An array of `int`, by element offset. -/
abbrev Buf := Nat → Int

/-- `ap`, `b`, `cp`, `d` and the three pointers of `singlelift`, with the array it fills. -/
structure LiftRegs where
  ip : Nat
  op : Nat
  opb : Nat
  ap : Int
  b : Int
  cp : Int
  d : Int
  obuf : Buf

/-- The code in front of the column loop of `singlelift`. -/
def liftPrecharge (ibuf obuf : Buf) (ip op opb : Nat) : LiftRegs :=
  let ap := ibuf ip
  let b := ibuf (ip + 1)
  let cp := ibuf (ip + 2)
  let d := ibuf (ip + 3)
  let ap := ap - b
  let cp := cp - ((b + d) >>> (1 : Nat))
  { ip := ip + 4, op, opb, ap, b, cp, d
    obuf := Function.update (Function.update obuf op ap) opb (b + ((ap + cp + 2) >>> (2 : Nat))) }

/-- One turn of the column loop of `singlelift`. -/
def liftColumn (rb : Nat) (ibuf : Buf) (s : LiftRegs) : LiftRegs :=
  let op := s.op + rb
  let opb := s.opb + rb
  let ap := s.cp
  let b := s.d
  let cp := ibuf s.ip
  let d := ibuf (s.ip + 1)
  let cp := cp - ((b + d) >>> (1 : Nat))
  { ip := s.ip + 2, op, opb, ap, b, cp, d
    obuf := Function.update (Function.update s.obuf op ap) opb (b + ((ap + cp + 2) >>> (2 : Nat))) }

/-- The code behind the column loop of `singlelift`. -/
def liftLast (rb : Nat) (s : LiftRegs) : Buf :=
  Function.update (Function.update s.obuf (s.op + rb) s.cp) (s.opb + rb) (s.d + ((s.cp + 1) >>> (3 : Nat)))

/-- The body of the row loop of `singlelift`: reads a row, writes a column. -/
def singleliftRow (rb w : Nat) (ibuf : Buf) (ibase obase : Nat) (obuf : Buf) (row : Nat) : Buf :=
  let op := obase + row
  liftLast rb ((liftColumn rb ibuf)^[w / 2 - 2]
    (liftPrecharge ibuf obuf (ibase + row * rb) op (op + w * rb / 2)))

def singlelift (rb w : Nat) (ibuf : Buf) (ibase : Nat) (obuf : Buf) (obase : Nat) : Buf :=
  (List.range w).foldl (singleliftRow rb w ibuf ibase obase) obuf

/-- `b`, `c`, `d`, `e` and the three pointers of `ilift`, with the array it fills. -/
structure IliftRegs where
  ip : Nat
  ipb : Nat
  op : Nat
  b : Int
  c : Int
  d : Int
  e : Int
  obuf : Buf

/-- The code in front of the column loop of `ilift`. Nothing has been assigned to `b`
here, so its value is a parameter. -/
def iliftPrecharge (rb : Nat) (ibuf obuf : Buf) (ip ipb op : Nat) (junk : Int) : IliftRegs :=
  let c := ibuf ip
  let ip := ip + rb
  let e := ibuf ip
  let d := ibuf ipb - ((c + e + 2) >>> (2 : Nat))
  { ip, ipb, op, b := junk, c, d, e
    obuf := Function.update (Function.update obuf op (c + d)) (op + 1) d }

/-- One turn of the column loop of `ilift`. -/
def iliftColumn (rb : Nat) (ibuf : Buf) (s : IliftRegs) : IliftRegs :=
  let op := s.op + 2
  let ip := s.ip + rb
  let ipb := s.ipb + rb
  let c := s.e
  let b := s.d
  let e := ibuf ip
  let d := ibuf ipb - ((c + e + 2) >>> (2 : Nat))
  let c := c + ((b + d) >>> (1 : Nat))
  { ip, ipb, op, b, c, d, e
    obuf := Function.update (Function.update s.obuf op c) (op + 1) d }

/-- The code behind the column loop of `ilift`; `b` is not advanced before it is used. -/
def iliftLast (rb : Nat) (ibuf : Buf) (s : IliftRegs) : Buf :=
  let ipb := s.ipb + rb
  let d := ibuf ipb - ((s.e + 1) >>> (3 : Nat))
  let c := s.e + ((s.b + d) >>> (1 : Nat))
  Function.update (Function.update s.obuf (s.op + 2) c) (s.op + 3) d

/-- The body of the row loop of `ilift`: reads a column, writes a row. -/
def iliftRow (rb w : Nat) (ibuf : Buf) (ibase obase : Nat) (junk : Nat → Int) (obuf : Buf)
    (row : Nat) : Buf :=
  let ip := ibase + row
  iliftLast rb ibuf ((iliftColumn rb ibuf)^[w / 2 - 2]
    (iliftPrecharge rb ibuf obuf ip (ip + w * rb / 2) (obase + row * rb) (junk row)))

def ilift (rb w : Nat) (ibuf : Buf) (ibase : Nat) (obuf : Buf) (obase : Nat) (junk : Nat → Int) : Buf :=
  (List.range w).foldl (iliftRow rb w ibuf ibase obase junk) obuf

/-- The variables of `lifting`. -/
structure Levels where
  w : Nat
  ip : Nat
  tp : Nat
  ibuf : Buf
  tmpbuf : Buf
  ov : Nat → Nat

/-- The body of the forward loop of `lifting`. -/
def forwardLevel (rb : Nat) (s : Levels) (lvl : Nat) : Levels :=
  let tmpbuf := singlelift rb s.w s.ibuf s.ip s.tmpbuf s.tp
  let ibuf := singlelift rb s.w tmpbuf s.tp s.ibuf s.ip
  let offset := s.w * rb / 2 + s.w / 2
  { w := s.w / 2, ip := s.ip + offset, tp := s.tp + offset, ibuf, tmpbuf
    ov := Function.update s.ov lvl (offset + if lvl = 0 then 0 else s.ov (lvl - 1)) }

/-- The body of the inverse loop of `lifting`; `junk` gives, for both calls of `ilift` at
each level, the values that their uninitialised registers start with. -/
def inverseLevel (rb : Nat) (junk : Nat → Bool → Nat → Int) (s : Levels) (lvl : Nat) : Levels :=
  let w := s.w * 2
  let offset := if lvl = 0 then 0 else s.ov (lvl - 1)
  let tmpbuf := ilift rb w s.ibuf offset s.tmpbuf offset (junk lvl false)
  let ibuf := ilift rb w tmpbuf offset s.ibuf offset (junk lvl true)
  { s with w, ip := offset, tp := offset, ibuf, tmpbuf }

/-- Three forward levels and, when `*fwd` is zero, three inverse ones. -/
def lifting (w : Nat) (ibuf tmpbuf : Buf) (fwd : Int) (junk : Nat → Bool → Nat → Int) : Levels :=
  let s := [0, 1, 2].foldl (forwardLevel w) { w, ip := 0, tp := 0, ibuf, tmpbuf, ov := fun _ => 0 }
  if fwd = 0 then [2, 1, 0].foldl (inverseLevel w junk) s else s

end IcoZip.Wavelet
