import Mathlib.Data.BitVec

/-! The bus arbiters: `wbarbiter` under its three schemes, `wbpriarbiter` and
`wbdblpriarb`.

A master has `n` pairs of cycle and strobe lines: two in front of
`wbdblpriarb`, which picks between two buses at once, and one elsewhere. Side
`true` is bus A.
-/

set_option autoImplicit false

namespace IcoZip.Arbitration

/-- What a master drives, and what the arbiter drives downstream. -/
structure Master (n aw dw : Nat) where
  cyc : BitVec n
  stb : BitVec n
  we : Bool
  adr : BitVec aw
  dat : BitVec dw
  sel : BitVec (dw / 8)
  deriving DecidableEq, Repr

/-- What comes back. -/
structure Answer where
  stall : Bool
  ack : Bool
  err : Bool
  deriving DecidableEq, Repr

structure Outputs (n aw dw : Nat) where
  bus : Master n aw dw
  a : Answer
  b : Answer
  deriving DecidableEq, Repr

variable {n aw dw : Nat}

/-- Some cycle line is high. -/
def Master.cycle (m : Master n aw dw) : Bool := m.cyc != 0

/-- Some strobe line is high. -/
def Master.strobe (m : Master n aw dw) : Bool := m.stb != 0

/-- A strobe on a line whose cycle is high. -/
def Master.requests (m : Master n aw dw) : Bool := m.cyc &&& m.stb != 0

/-- The combined bus follows its owner. -/
def select (aOwner : Bool) (a b : Master n aw dw) : Master n aw dw := if aOwner then a else b

/-- `OPT_ZERO_ON_IDLE`: address, data and lanes are zero without a strobe. -/
def Master.idled (m : Master n aw dw) : Master n aw dw :=
  { m with
    adr := if m.strobe then m.adr else 0
    dat := if m.strobe then m.dat else 0
    sel := if m.strobe then m.sel else 0 }

/-- What a master hears, `granted` or not. -/
def hears (granted : Bool) (slave : Answer) : Answer where
  stall := if granted then slave.stall else true
  ack := if granted then slave.ack else false
  err := if granted then slave.err else false

/-! ### `wbarbiter` -/

inductive Scheme where
  | priority
  | alternating
  | last
  deriving DecidableEq, Repr

/-- Only the alternating scheme has a `last_owner`. -/
structure Wbarbiter where
  rAOwner : Bool
  lastOwner : Bool
  deriving DecidableEq, Repr

namespace Wbarbiter

def powerUp : Wbarbiter := ⟨true, false⟩

variable (scheme : Scheme) (zeroOnIdle : Bool) (s : Wbarbiter) (a b : Master 1 aw dw) (slave : Answer)

def clock : Wbarbiter where
  rAOwner :=
    match scheme with
    | .priority => if !b.cycle then true else if b.strobe && !a.cycle then false else s.rAOwner
    | .alternating =>
        if !a.cycle && !b.cycle then !s.lastOwner
        else if s.rAOwner && !a.cycle then if b.strobe then false else s.rAOwner
        else if !s.rAOwner && !b.cycle then if a.strobe then true else s.rAOwner
        else s.rAOwner
    | .last => if !a.cycle && b.strobe then false else if !b.cycle && a.strobe then true else s.rAOwner
  lastOwner :=
    if a.cycle && s.rAOwner then true else if b.cycle && !s.rAOwner then false else s.lastOwner

/-- With `OPT_ZERO_ON_IDLE` the strobe is low outside the cycle, too. -/
def bus : Master 1 aw dw :=
  let m := select s.rAOwner a b
  if zeroOnIdle then { m with stb := if m.cycle then m.stb else 0 }.idled else m

def outputs : Outputs 1 aw dw where
  bus := s.bus zeroOnIdle a b
  a := hears (s.rAOwner && (!zeroOnIdle || (s.bus zeroOnIdle a b).cycle)) slave
  b := hears (!s.rAOwner && (!zeroOnIdle || (s.bus zeroOnIdle a b).cycle)) slave

end Wbarbiter

/-! ### `wbpriarbiter` -/

structure Wbpriarbiter where
  rAOwner : Bool
  deriving DecidableEq, Repr

namespace Wbpriarbiter

def powerUp : Wbpriarbiter := ⟨true⟩

variable (zeroOnIdle : Bool) (s : Wbpriarbiter) (a b : Master 1 aw dw) (slave : Answer)

def clock : Wbpriarbiter where
  rAOwner := if !b.cycle then true else if b.cycle && b.strobe && !a.cycle then false else s.rAOwner

def bus : Master 1 aw dw := if zeroOnIdle then (select s.rAOwner a b).idled else select s.rAOwner a b

def outputs : Outputs 1 aw dw where
  bus := s.bus zeroOnIdle a b
  a := hears (s.rAOwner && (!zeroOnIdle || (s.bus zeroOnIdle a b).cycle)) slave
  b := hears (!s.rAOwner && (!zeroOnIdle || (s.bus zeroOnIdle a b).cycle)) slave

end Wbpriarbiter

/-! ### `wbdblpriarb` -/

structure Wbdblpriarb where
  rAOwner : Bool
  deriving DecidableEq, Repr

namespace Wbdblpriarb

def powerUp : Wbdblpriarb := ⟨true⟩

variable (zeroOnIdle reset : Bool) (s : Wbdblpriarb) (a b : Master 2 aw dw) (slave : Answer)

/-- A reset gives the state of power-up, so that a run behind one is a run from power-up. -/
def clock : Wbdblpriarb where
  rAOwner := if reset then true else if !b.cycle then true else if !a.cycle && b.strobe then false else s.rAOwner

def bus : Master 2 aw dw := if zeroOnIdle then (select s.rAOwner a b).idled else select s.rAOwner a b

def outputs : Outputs 2 aw dw where
  bus := s.bus zeroOnIdle a b
  a := hears (s.rAOwner && (!zeroOnIdle || (s.bus zeroOnIdle a b).cycle)) slave
  b := hears (!s.rAOwner && (!zeroOnIdle || (s.bus zeroOnIdle a b).cycle)) slave

end Wbdblpriarb

end IcoZip.Arbitration
