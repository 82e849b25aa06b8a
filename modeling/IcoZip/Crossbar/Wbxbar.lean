import IcoZip.Busdelay.Delay

/-! The crossbar `wbxbar` between masters and slaves, with the `skidbuffer` and the
`addrdecode` that it has for each master.

The slaves are those of the build and one more, `none`, for addresses that no slave has.
Outputs are registered (`OPT_DBLBUFFER`), and nothing times out.
-/

set_option autoImplicit false

namespace IcoZip.Crossbar

open Busdelay (Request)

/-- The parameters. No address has two slaves, but for a first slave that takes what the others leave. -/
structure Build (ns aw lg : Nat) where
  slaveAddr : Fin ns → BitVec aw
  slaveMask : Fin ns → BitVec aw
  lowpower : Bool
  several : 1 < ns
  longBursts : 2 < lg
  apart : ∀ j k, j < k → j.val = 0 ∧ slaveMask j = 0 ∨
    (slaveAddr j ^^^ slaveAddr k) &&& (slaveMask j &&& slaveMask k) ≠ 0

/-! ### `skidbuffer` -/

structure Skidbuffer (A : Type) where
  rValid : Bool
  rData : A
  deriving DecidableEq, Repr

namespace Skidbuffer

variable {A : Type} (s : Skidbuffer A) (reset iValid : Bool) (iData : A) (iReady : Bool)

def ready : Bool := !s.rValid

def valid : Bool := !reset && (iValid || s.rValid)

def data : A := if s.rValid then s.rData else iData

def clock : Skidbuffer A where
  rValid :=
    if reset then false
    else if (iValid && s.ready) && (s.valid reset iValid && !iReady) then true
    else if iReady then false
    else s.rValid
  rData := if s.ready then iData else s.rData

end Skidbuffer

/-! ### `addrdecode` -/

namespace Build

variable {ns aw lg : Nat} (b : Build ns aw lg) (addr : BitVec aw)

/-- Without a mask for the first slave, there is no address without a slave. -/
def noneSel : Bool := b.slaveMask ⟨0, Nat.zero_lt_of_lt b.several⟩ != 0

def prerequest (k : Fin ns) : Bool := (addr ^^^ b.slaveAddr k) &&& b.slaveMask k == 0

def request : Option (Fin ns) → Bool
  | none => b.noneSel && (List.finRange ns).all fun k => !b.prerequest addr k
  | some k =>
    if !b.noneSel && k.val == 0 then
      b.prerequest addr k && !(List.finRange ns).any fun j => j.val != 0 && b.prerequest addr j
    else b.prerequest addr k

end Build

structure Addrdecode (ns aw dw : Nat) where
  valid : Bool
  decode : Option (Fin ns) → Bool
  req : Request aw dw

namespace Addrdecode

variable {ns aw dw lg : Nat} (b : Build ns aw lg) (s : Addrdecode ns aw dw) (reset iValid : Bool) (q : Request aw dw)
  (iStall : Bool)

def stall : Bool := s.valid && iStall

def clock : Addrdecode ns aw dw where
  valid := if reset then false else if !s.stall iStall then iValid else s.valid
  decode :=
    if reset then fun _ => false
    else if !s.valid || !iStall then fun t => iValid && b.request q.addr t
    else s.decode
  req := if !s.valid || !iStall then q else s.req

end Addrdecode

/-! ### `wbxbar` -/

structure MasterIn (aw dw : Nat) where
  cyc : Bool
  stb : Bool
  req : Request aw dw
  deriving DecidableEq, Repr

structure SlaveIn (dw : Nat) where
  stall : Bool
  ack : Bool
  err : Bool
  data : BitVec dw
  deriving DecidableEq, Repr

structure Inputs (nm ns aw dw : Nat) where
  reset : Bool
  master : Fin nm → MasterIn aw dw
  slave : Fin ns → SlaveIn dw

structure Wbxbar (nm ns aw dw lg : Nat) where
  skid : Fin nm → Skidbuffer (Request aw dw)
  dcd : Fin nm → Addrdecode ns aw dw
  grant : Fin nm → Option (Fin ns) → Bool
  mgrant : Fin nm → Bool
  mindex : Fin nm → Nat
  sgrant : Fin ns → Bool
  sindex : Fin ns → Nat
  scyc : Fin ns → Bool
  sstb : Fin ns → Bool
  /-- `o_swe`, `o_saddr`, `o_sdata` and `o_ssel` -/
  sreq : Fin ns → Request aw dw
  mack : Fin nm → Bool
  merr : Fin nm → Bool
  mdata : Fin nm → BitVec dw
  pending : Fin nm → BitVec lg
  mempty : Fin nm → Bool
  mnearfull : Fin nm → Bool
  mfull : Fin nm → Bool

/-- An entry of an array that is filled up with `other`. -/
def pick {A : Type} {n : Nat} (f : Fin n → A) (other : A) (k : Nat) : A := if h : k < n then f ⟨k, h⟩ else other

/-- The numbers of all that are chosen, ored together. -/
def merge {n : Nat} (p : Fin n → Bool) : Nat :=
  (List.finRange n).foldl (fun index k => if p k then index ||| k.val else index) 0

namespace Wbxbar

variable {nm ns aw dw lg : Nat}

def powerUp : Wbxbar nm ns aw dw lg where
  skid _ := ⟨false, .zero⟩
  dcd _ := ⟨false, fun _ => false, .zero⟩
  grant _ _ := false
  mgrant _ := false
  mindex _ := 0
  sgrant _ := false
  sindex _ := 0
  scyc _ := false
  sstb _ := false
  sreq _ := .zero
  mack _ := false
  merr _ := false
  mdata _ := 0
  pending _ := 0
  mempty _ := true
  mnearfull _ := false
  mfull _ := false

variable (b : Build ns aw lg) (s : Wbxbar nm ns aw dw lg) (i : Inputs nm ns aw dw)

/-- `o_mstall` -/
def mstall (m : Fin nm) : Bool := !(s.skid m).ready

section Requests
variable (m : Fin nm)

def request (t : Option (Fin ns)) : Bool := (i.master m).cyc && (s.dcd m).valid && (s.dcd m).decode t

def mStb : Bool := (i.master m).cyc && (s.dcd m).valid && !s.mfull m

/-- A master in front of this one asks for the slave, and could be given it. -/
def requested (k : Fin ns) : Bool :=
  (List.finRange nm).any fun n =>
    decide (n < m) && s.request i n (some k) && (s.grant n (some k) || (!s.mgrant n || s.mempty n))

/-- `request[N][mindex[N]]` -/
def requestIndexed : Bool :=
  if s.mindex m = ns then s.request i m none else pick (fun k => s.request i m (some k)) false (s.mindex m)

end Requests

section Slaves
variable (k : Fin ns)

def sStall : Bool := s.sstb k && (i.slave k).stall

def sAck : Bool := s.scyc k && (i.slave k).ack

def sErr : Bool := s.scyc k && (i.slave k).err

end Slaves

section Grants
variable (m : Fin nm)

def stayOnChannel : Bool :=
  s.request i m none && s.grant m none ||
    ((List.finRange ns).any fun k => s.request i m (some k) && s.grant m (some k)) || s.mgrant m && !s.mempty m

def available : Bool :=
  if nm < 2 then s.mStb i m
  else s.request i m none ||
    (List.finRange ns).any fun k => s.request i m (some k) && !s.sgrant k && !s.requested i m k

def nextGrant (t : Option (Fin ns)) : Bool :=
  if i.reset || !(i.master m).cyc then false
  else if s.stayOnChannel i m then s.grant m t
  else if s.available i m then s.request i m t
  else if s.mStb i m then false
  else s.grant m t

def nextMgrant : Bool :=
  if i.reset || !(i.master m).cyc then false
  else if s.stayOnChannel i m then s.mgrant m
  else if s.available i m then true
  else if s.mStb i m then false
  else s.mgrant m

/-- The channels that are kept or opened. -/
def regrant : Option (Fin ns) → Bool
  | none => s.grant m none && s.request i m none && !(s.mgrant m && !s.mempty m)
  | some k =>
    (s.grant m (some k) || (!s.sgrant k && !s.requested i m k)) && s.request i m (some k) &&
      !(s.mgrant m && !s.mempty m)

def reindex : Nat :=
  if !s.regrant i m none && (List.finRange ns).all fun k => !s.regrant i m (some k) then s.mindex m
  else merge (fun k => s.regrant i m (some k)) ||| if s.regrant i m none then ns else 0

end Grants

section SlaveGrants
variable (k : Fin ns)

/-- What the master of a slave shows. -/
def owner {A : Type} (f : Fin nm → A) (other : A) : A := pick f other (s.sindex k)

def dropSgrant : Bool :=
  if i.reset then true
  else if !s.sgrant k then false
  else !s.owner k (fun m => (i.master m).cyc) false ||
    (!s.owner k (fun m => s.request i m (some k)) false && s.owner k (s.mStb i) false && s.owner k s.mempty false)

def nextSgrant : Bool :=
  if s.dropSgrant i k then false
  else if (List.finRange nm).any fun m => s.request i m (some k) && (!s.mgrant m || s.mempty m) then true
  else s.sgrant k

def resindex : Nat :=
  if nm ≤ 1 then 0
  else if (List.finRange nm).all fun m => !s.regrant i m (some k) then s.sindex k
  else merge fun m => s.regrant i m (some k)

def nextScyc : Bool :=
  if i.reset || s.sErr i k then false else s.sgrant k && s.owner k (fun m => (i.master m).cyc) false

def nextSstb : Bool :=
  if i.reset || s.sErr i k then false
  else if s.sgrant k && s.owner k (fun m => (i.master m).cyc) false then
    if !s.sstb k || !s.sStall i k then
      s.owner k (fun m => s.request i m (some k)) false && !s.owner k s.mfull false
    else s.sstb k
  else false

def nextSreq : Request aw dw :=
  if b.lowpower && !s.sgrant k then .zero
  else if !s.sStall i k then
    let q := s.owner k (fun m => (s.dcd m).req) .zero
    { q with data := if b.lowpower && !q.we then 0 else q.data }
  else s.sreq k

end SlaveGrants

section Answers
variable (m : Fin nm)

def mStall : Bool :=
  if s.merr m then false
  else if s.grant m none then true
  else if s.mgrant m && s.requestIndexed i m then s.mfull m || pick (s.sStall i) true (s.mindex m)
  else s.mStb i m

def nextMack : Bool :=
  if i.reset || !(i.master m).cyc || s.merr m then false
  else if s.grant m none then false
  else s.mgrant m && pick (s.sAck i) false (s.mindex m)

def nextMerr : Bool :=
  if i.reset || !(i.master m).cyc || s.merr m then false
  else if s.grant m none then !s.merr m
  else s.mgrant m && pick (s.sErr i) true (s.mindex m)

def nextMdata : BitVec dw :=
  if b.lowpower && !s.mgrant m then 0 else pick (fun k => (i.slave k).data) 0 (s.mindex m)

/-- The request in the decoder goes on to a slave. -/
def handsOn : Bool := s.mStb i m && !s.mStall i m

def clears : Bool := i.reset || !(i.master m).cyc || s.merr m

end Answers

def clock : Wbxbar nm ns aw dw lg where
  skid m :=
    (s.skid m).clock (i.reset || !(i.master m).cyc) (i.master m).stb (i.master m).req
      !(s.dcd m).stall (s.mStall i m && (i.master m).cyc)
  dcd m :=
    (s.dcd m).clock b i.reset
      ((s.skid m).valid (i.reset || !(i.master m).cyc) (i.master m).stb && (i.master m).cyc)
      ((s.skid m).data (i.master m).req) (s.mStall i m && (i.master m).cyc)
  grant m := s.nextGrant i m
  mgrant m := s.nextMgrant i m
  mindex m := s.reindex i m
  sgrant k := s.nextSgrant i k
  sindex k := s.resindex i k
  scyc k := s.nextScyc i k
  sstb k := s.nextSstb i k
  sreq k := s.nextSreq b i k
  mack m := s.nextMack i m
  merr m := s.nextMerr i m
  mdata m := s.nextMdata b i m
  pending m :=
    if s.clears i m then 0
    else if !s.handsOn i m && s.mack m then s.pending m - 1
    else if s.handsOn i m && !s.mack m then s.pending m + 1
    else s.pending m
  mempty m :=
    if s.clears i m then true
    else if !s.handsOn i m && s.mack m then s.pending m == 1
    else if s.handsOn i m && !s.mack m then false
    else s.mempty m
  mnearfull m :=
    if s.clears i m then false
    else if !s.handsOn i m && s.mack m then s.mfull m
    else if s.handsOn i m && !s.mack m then
      (s.pending m).extractLsb' 2 (lg - 2) == BitVec.allOnes (lg - 2) && (s.pending m).extractLsb' 0 2 != 0
    else s.mnearfull m
  mfull m :=
    if s.clears i m then false
    else if !s.handsOn i m && s.mack m then false
    else if s.handsOn i m && !s.mack m then s.mnearfull m
    else s.mfull m

end Wbxbar

end IcoZip.Crossbar
