import IcoZip.Fetch.Stream
import IcoZip.Library.ShiftAdd

/-! `pfcache`, the instruction cache. It is directly mapped, and has `2 ^ lg` lines of
`2 ^ ls` words (`LGLINES`, `LS`); the addresses of words have `tg` bits more.
-/

set_option autoImplicit false

namespace IcoZip.Fetch

structure Pfcache (tg lg ls d : Nat) where
  rPcCache : BitVec d
  rLastCache : BitVec d
  rPc : BitVec (tg + lg + ls + 2)
  rLastpc : BitVec (tg + lg + ls + 2)
  isrc : Bool
  tagvalipc : BitVec tg
  tagvallst : BitVec tg
  lastpc : BitVec (tg + lg + ls + 2)
  rvsrc : Bool
  delay : BitVec 2
  /-- `r_v_from_pc` -/
  fromPc : Bool
  /-- `r_v_from_last` -/
  fromLast : Bool
  needload : Bool
  lastAddr : Bool
  lastAck : Bool
  busAbort : Bool
  cyc : Bool
  stb : Bool
  /-- `cache_tags` -/
  tags : BitVec lg → BitVec tg
  wraddr : BitVec (lg + ls)
  addr : BitVec (tg + lg + ls)
  cache : BitVec (lg + ls) → BitVec d
  validMask : BitVec lg → Bool
  svmask : Bool
  saddr : BitVec lg
  illegalCache : BitVec (tg + lg)
  illegalValid : Bool
  illegal : Bool

variable {tg lg ls d : Nat}

namespace Pfcache

/-! ### Parts of an address -/

section Parts
variable (a : BitVec (tg + lg + ls))

/-- `[(AW-1):CW]` -/
def tag : BitVec tg := a.extractLsb' (lg + ls) tg

/-- `[(CW-1):LS]` -/
def index : BitVec lg := a.extractLsb' ls lg

/-- `[(AW-1):LS]` -/
def line : BitVec (tg + lg) := a.extractLsb' ls (tg + lg)

/-- `[(LS-1):0]` -/
def offset : BitVec ls := a.extractLsb' 0 ls

/-- `[(CW-1):0]` -/
def cell : BitVec (lg + ls) := a.extractLsb' 0 (lg + ls)

end Parts

section Parts
variable (a : BitVec (tg + lg + ls)) (l : BitVec (tg + lg)) (o : BitVec ls)

theorem line_offset : line a ++ offset a = a := by
  have whole := @Fields.joined (tg + lg) ls _ a 0
  rw [Nat.zero_add] at whole
  exact whole.trans BitVec.extractLsb'_eq_self

theorem cell_eq : cell a = index a ++ offset a := by
  have whole := @Fields.joined lg ls _ a 0
  rw [Nat.zero_add] at whole
  exact whole.symm

theorem line_eq : line a = tag a ++ index a := by
  have whole := @Fields.joined tg lg _ a ls
  rw [Nat.add_comm ls lg] at whole
  exact whole.symm

/-- The line has the index. -/
theorem index_eq : index a = (line a).extractLsb' 0 lg := by
  rw [line, Fields.nested a ls (by omega)]
  rfl

/-- And the tag. -/
theorem tag_eq : tag a = (line a).extractLsb' lg tg := by
  rw [line, Fields.nested a ls (by omega), Nat.add_comm ls lg]
  rfl

@[simp] theorem line_append : line (l ++ o) = l := Fields.first l o

@[simp] theorem offset_append : offset (l ++ o) = o := BitVec.extractLsb'_append_eq_right

variable {a} {b : BitVec (tg + lg + ls)}

theorem line_inj (tags : tag a = tag b) (indices : index a = index b) : line a = line b := by
  rw [line_eq, line_eq, tags, indices]

theorem index_congr (same : line a = line b) : index a = index b := by rw [index_eq, index_eq, same]

theorem tag_congr (same : line a = line b) : tag a = tag b := by rw [tag_eq, tag_eq, same]

theorem cell_inj (same : cell a = cell b) : index a = index b ∧ offset a = offset b := by
  rw [cell_eq, cell_eq] at same
  constructor
  · have first := congrArg (fun x : BitVec (lg + ls) => x.extractLsb' ls lg) same
    simpa only [Fields.first] using first
  · have second := congrArg (fun x : BitVec (lg + ls) => x.extractLsb' 0 ls) same
    simpa only [BitVec.extractLsb'_append_eq_right] using second

end Parts

/-- `[(LS-1):1] == {(LS-1){1'b1}}` -/
def nearEnd (ls : Nat) {n : Nat} (a : BitVec n) : Bool := a.extractLsb' 1 (ls - 1) == BitVec.allOnes (ls - 1)

section Ends
variable {k : Nat} (x : BitVec k) {n : Nat}

theorem toNat_cell (inside : n < 2 ^ ls) : (x ++ BitVec.ofNat ls n).toNat = x.toNat * 2 ^ ls + n := by
  rw [ShiftAdd.toNat_append, BitVec.toNat_ofNat, Nat.mod_eq_of_lt inside]

/-- The address behind one that is not the last of its line. -/
theorem cell_succ (inside : n + 1 < 2 ^ ls) : x ++ BitVec.ofNat ls n + 1 = x ++ BitVec.ofNat ls (n + 1) := by
  apply BitVec.eq_of_toNat_eq
  have bound := (x ++ BitVec.ofNat ls (n + 1)).isLt
  rw [toNat_cell x inside] at bound
  have some_ : 0 < ls := Nat.pos_of_ne_zero fun none => by
    rw [none] at inside
    omega
  have one : BitVec.toNat (1 : BitVec (k + ls)) = 1 := BitVec.toNat_one (by omega)
  have before := toNat_cell x (Nat.lt_of_succ_lt inside)
  rw [BitVec.toNat_add_of_lt (by omega), before, toNat_cell x inside, one, Nat.add_assoc]

/-- The flags for the last word of a line are set a clock before it comes up. -/
theorem nearEnd_cell (some_ : 0 < ls) (inside : n < 2 ^ ls) (go : Bool) :
    (nearEnd ls (x ++ BitVec.ofNat ls n) && (go || (x ++ BitVec.ofNat ls n).getLsbD 0)) =
      (decide (n + 1 = 2 ^ ls) || decide (n + 2 = 2 ^ ls) && go) := by
  obtain ⟨m, rfl⟩ := Nat.exists_eq_succ_of_ne_zero (Nat.pos_iff_ne_zero.mp some_)
  have twice : 2 ^ (m + 1) = 2 * 2 ^ m := Nat.pow_succ'
  have upper : ((x ++ BitVec.ofNat (m + 1) n).extractLsb' 1 (m + 1 - 1)).toNat = n / 2 := by
    rw [BitVec.extractLsb'_toNat, Nat.shiftRight_eq_div_pow, Nat.pow_one, toNat_cell x inside, Nat.succ_eq_add_one,
      twice, Nat.mul_left_comm, Nat.mul_add_div (by decide), Nat.add_sub_cancel, Nat.mul_add_mod', Nat.mod_eq_of_lt]
    rw [Nat.succ_eq_add_one, twice] at inside
    omega
  have near : nearEnd (m + 1) (x ++ BitVec.ofNat (m + 1) n) = decide (n / 2 = 2 ^ m - 1) := by
    rw [nearEnd, Bool.eq_iff_iff, beq_iff_eq, decide_eq_true_iff, ← BitVec.toNat_inj, upper, BitVec.toNat_allOnes]
    rfl
  have odd : (x ++ BitVec.ofNat (m + 1) n).getLsbD 0 = decide (n % 2 = 1) := by
    rw [BitVec.getLsbD, Nat.testBit_zero, toNat_cell x inside, Nat.succ_eq_add_one, twice, Nat.mul_left_comm,
      Nat.mul_add_mod]
  rw [Nat.succ_eq_add_one, twice] at inside
  rw [near, odd, Bool.eq_iff_iff, Nat.succ_eq_add_one, twice]
  cases go <;> simp <;> omega

end Ends

/-! ### The registers -/

/-- The `initial` values; the cache and its tags have none. -/
def powerUp (free : Pfcache tg lg ls d) : Pfcache tg lg ls d :=
  { free with
    rPc := 0
    rLastpc := 0
    tagvalipc := 0
    tagvallst := 0
    lastpc := 0
    delay := 3
    fromPc := false
    fromLast := false
    needload := false
    lastAddr := false
    lastAck := false
    busAbort := false
    cyc := false
    stb := false
    wraddr := 0
    addr := 0
    validMask := fun _ => false
    svmask := false
    illegalCache := 0
    illegalValid := false
    illegal := false }

variable (s : Pfcache tg lg ls d) (c : Cpu (tg + lg + ls)) (b : Bus d)

/-- `r_v` -/
def rV : Bool := if s.rvsrc then s.fromPc else s.fromLast

def advance : Bool := c.newPc || s.rV && c.ready

def tagval : BitVec tg := if s.isrc then s.tagvalipc else s.tagvallst

/-- `lasttag` -/
def lasttag : BitVec (tg + lg) := line (word s.lastpc)

def vFromPc : Bool :=
  line (word c.pc) == s.lasttag && s.tagval == tag (word c.pc) && s.validMask (index (word c.pc))

def vFromLast : Bool := s.tagval == tag (word s.lastpc) && s.validMask (index (word s.lastpc))

/-- `w_invalidate_result` -/
def invalidates : Bool := c.reset || c.clearCache

def pins : Pins (tg + lg + ls) d where
  valid := s.illegal || s.rV
  illegal := s.illegal
  insn := if s.isrc then s.rPcCache else s.rLastCache
  pc := if s.isrc then s.rPc else s.rLastpc
  cyc := s.cyc
  stb := s.stb
  addr := s.addr

def clock : Pfcache tg lg ls d where
  rPcCache := s.cache (cell (word c.pc))
  rLastCache := s.cache (cell (word s.lastpc))
  rPc := c.pc
  rLastpc := s.lastpc
  isrc := s.advance c
  tagvalipc := s.tags (index (word c.pc))
  tagvallst := s.tags (index (word s.lastpc))
  lastpc := if s.advance c then c.pc else s.lastpc
  rvsrc := c.reset || c.clearCache || s.advance c
  delay :=
    if c.reset || c.clearCache || s.advance c then 2#2
    else if !s.rV && !s.illegal then
      if s.cyc then 2#2
      else if s.delay ≠ 0#2 then s.delay + 0b11#2
      else s.delay
    else if s.illegal then 2#2
    else s.delay
  fromPc := s.vFromPc c && !invalidates c && !s.illegal
  fromLast := s.vFromLast && !invalidates c
  needload :=
    if c.clearCache || s.cyc then false
    else if s.advance c && !s.illegal then false
    else s.delay == 0#2 && !s.vFromLast && (!s.illegalValid || s.lasttag != s.illegalCache)
  lastAddr :=
    if !s.cyc then false
    else if nearEnd ls s.addr && (!b.stall || s.addr.getLsbD 0) then true
    else s.lastAddr
  lastAck := s.cyc && (nearEnd ls s.wraddr && (s.wraddr.getLsbD 0 || b.ack))
  busAbort :=
    if !s.cyc then false
    else if c.clearCache || c.newPc then true
    else s.busAbort
  cyc :=
    if c.reset || c.clearCache then false
    else if s.cyc then !(b.ack && s.lastAck || b.err)
    else if s.needload && !c.newPc then true
    else s.cyc
  stb :=
    if c.reset || c.clearCache then false
    else if s.cyc then
      if b.err then false
      else if s.stb && !b.stall && s.lastAddr then false
      else s.stb
    else if s.needload && !c.newPc then true
    else s.stb
  tags := if s.cyc && b.ack then Function.update s.tags (index s.addr) (tag s.addr) else s.tags
  wraddr :=
    if s.cyc && b.ack && !s.lastAck then s.wraddr + 1
    else if !s.cyc then index (word s.lastpc) ++ 0#(ls)
    else s.wraddr
  addr :=
    if s.stb && !b.stall && !s.lastAddr then line s.addr ++ (offset s.addr + 1)
    else if !s.cyc then s.lasttag ++ 0#(ls)
    else s.addr
  -- also without an answer; the word that is answered comes last
  cache := if s.cyc then Function.update s.cache s.wraddr b.data else s.cache
  validMask :=
    if c.reset || c.clearCache then fun _ => false
    else
      -- where both assignments are to one bit, the second one stands
      let loaded := if s.svmask then Function.update s.validMask s.saddr (!s.busAbort) else s.validMask
      if !s.cyc && s.needload then Function.update loaded (index (word s.lastpc)) false else loaded
  svmask := if c.reset || c.clearCache then false else s.cyc && b.ack && s.lastAck && !s.busAbort
  saddr := if s.cyc && b.ack then s.wraddr.extractLsb' ls lg else s.saddr
  illegalCache :=
    if c.reset || c.clearCache then 0
    else if s.cyc && b.err then line s.addr
    else s.illegalCache
  illegalValid :=
    if c.reset || c.clearCache then false
    else if s.cyc && b.err then true
    else if s.cyc && b.ack && s.lastAck && !s.busAbort &&
        s.wraddr.extractLsb' ls lg == s.illegalCache.extractLsb' 0 lg then false
    else s.illegalValid
  illegal :=
    if c.reset || c.clearCache || c.newPc then false
    -- it stays until a new address, a clear or a reset
    else if !s.illegal then !b.err && s.illegalValid && !s.isrc && s.illegalCache == s.lasttag
    else s.illegal

end Pfcache

abbrev pfcache (tg lg ls d : Nat) : Fetcher (tg + lg + ls) d := ⟨Pfcache tg lg ls d, Pfcache.pins, Pfcache.clock⟩

end IcoZip.Fetch
