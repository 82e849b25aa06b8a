import IcoZip.Busdelay.Transparent
import IcoZip.Crossbar.Grants

/-! What a clock moves between a master and its slave: through the skid buffer and the decoder
to the slave's port, and back, and what the counters make of it.
-/

set_option autoImplicit false

namespace IcoZip.Crossbar

open Busdelay (Request Response response)

variable {nm ns aw dw lg : Nat}

/-- A request with the slave that has its address. -/
def Build.route (b : Build ns aw lg) (q : Request aw dw) : Option (Fin ns) × Request aw dw :=
  (b.target q.addr, b.told q)

def Skidbuffer.held {A : Type} (s : Skidbuffer A) : List A := if s.rValid then [s.rData] else []

def Addrdecode.held (s : Addrdecode ns aw dw) : List (Request aw dw) := if s.valid then [s.req] else []

namespace Wbxbar

variable (b : Build ns aw lg) (s : Wbxbar nm ns aw dw lg) (i : Inputs nm ns aw dw) (m : Fin nm)

/-- The slave that a master has. -/
def channel : Option (Fin ns) :=
  pick (fun k => if s.grant m (some k) then some k else none) none (s.mindex m)

def accepts : List (Request aw dw) :=
  if (i.master m).cyc && (i.master m).stb && !s.mstall m then [(i.master m).req] else []

/-- The request that the slave accepts. -/
def passes : List (Fin ns × Request aw dw) :=
  match s.channel m with
  | some k => if s.sstb k && !(i.slave k).stall then [(k, s.sreq k)] else []
  | none => []

/-- The request at the slave's port. -/
def port : List (Fin ns × Request aw dw) :=
  match s.channel m with
  | some k => if s.sstb k then [(k, s.sreq k)] else []
  | none => []

def waiting : List (Option (Fin ns) × Request aw dw) := ((s.dcd m).held ++ (s.skid m).held).map b.route

/-- What the slave says, or the crossbar for an address that no slave has. -/
def replies : List (Option (Fin ns) × Response dw) :=
  match s.channel m with
  | some k => (response (s.sAck i k) (s.sErr i k) (i.slave k).data).map (some k, ·)
  | none => if s.grant m none && !s.merr m then [(none, none)] else []

def shows : List (Response dw) := response (s.mack m) (s.merr m) (s.mdata m)

end Wbxbar

/-- A slave's number as that of a target. -/
def tagged (e : Fin ns × Request aw dw) : Option (Fin ns) × Request aw dw := (some e.1, e.2)

/-- The clock ends the master's cycle, if there was one. -/
def Inputs.ends (i : Inputs nm ns aw dw) (m : Fin nm) : Bool := i.reset || !(i.master m).cyc

/-! ### What a clock does -/

/-- What the skid buffer hands on and keeps is what it kept and takes in. -/
theorem Skidbuffer.clock_held {A : Type} (s : Skidbuffer A) (iValid : Bool) (iData : A) (iReady : Bool) :
    (if s.valid false iValid && iReady then [s.data iData] else []) ++ (s.clock false iValid iData iReady).held =
      s.held ++ if iValid && s.ready then [iData] else [] := by
  obtain ⟨rValid, rData⟩ := s
  cases rValid <;> cases iValid <;> cases iReady <;> rfl

theorem Addrdecode.clock_held (b : Build ns aw lg) (s : Addrdecode ns aw dw) (iValid : Bool) (q : Request aw dw)
    (iStall : Bool) : (if s.valid && !iStall then [s.req] else []) ++ (s.clock b false iValid q iStall).held =
      s.held ++ if iValid && !s.stall iStall then [q] else [] := by
  obtain ⟨valid, decode, req⟩ := s
  cases valid <;> cases iValid <;> cases iStall <;> rfl

namespace Wbxbar

variable {b : Build ns aw lg} {s : Wbxbar nm ns aw dw lg} {i : Inputs nm ns aw dw} {m : Fin nm} {k : Fin ns}

theorem Granted.channel_iff (granted : s.Granted b) : s.channel m = some k ↔ s.grant m (some k) = true := by
  constructor
  · intro has
    rw [channel, pick] at has
    split at has
    · split at has
      · rename_i given
        rwa [← Option.some.inj has]
      · contradiction
    · contradiction
  · intro has
    rw [channel, (granted.owned has).2.1, pick_val, if_pos has]

theorem Granted.channel_none (granted : s.Granted b) : s.channel m = none ↔ ∀ k, s.grant m (some k) = false := by
  rw [Option.eq_none_iff_forall_ne_some]
  exact forall_congr' fun k => by rw [ne_eq, granted.channel_iff, Bool.not_eq_true]

/-- What leaves the decoder for a slave. -/
def leaving (b : Build ns aw lg) (s : Wbxbar nm ns aw dw lg) (i : Inputs nm ns aw dw) (m : Fin nm) :
    List (Option (Fin ns) × Request aw dw) :=
  if s.handsOn i m then [b.route (s.dcd m).req] else []

/-- The skid buffer and the decoder keep what a master has sent. -/
theorem Granted.waiting_next (granted : s.Granted b) (goes : i.ends m = false) (quiet : s.merr m = false)
    (room : s.mfull m = true → s.asks i m = true → s.grant m (s.target b m) = true)
    (mapped : s.grant m none = false) :
    s.leaving b i m ++ (s.clock b i).waiting b m = s.waiting b m ++ (s.accepts i m).map b.route := by
  obtain ⟨reset, cyc⟩ : i.reset = false ∧ (i.master m).cyc = true := by simpa [Inputs.ends] using goes
  -- the decoder is not emptied but towards a slave
  have hands : s.handsOn i m = ((s.dcd m).valid && !s.mStall i m) := by
    cases full : s.mfull m with
    | false => simp [handsOn, mStb, cyc, full]
    | true =>
      cases valid : (s.dcd m).valid with
      | false => simp [handsOn, mStb, valid]
      | true =>
        have has := room full (by simp [asks, cyc, valid])
        cases here : s.target b m with
        | none => rw [here, mapped] at has; contradiction
        | some k =>
          rw [here] at has
          have asked : s.request i m (some k) = true :=
            granted.request_iff.mpr ⟨by simp [asks, cyc, valid], here.symm⟩
          simp [handsOn, mStb, full, granted.mStall_held has quiet, asked]
  have skid := (s.skid m).clock_held (i.master m).stb (i.master m).req !(s.dcd m).stall (s.mStall i m)
  have decoder := (s.dcd m).clock_held b ((s.skid m).valid false (i.master m).stb) ((s.skid m).data (i.master m).req)
    (s.mStall i m)
  have leaves : s.leaving b i m = (if (s.dcd m).valid && !s.mStall i m then [(s.dcd m).req] else []).map b.route := by
    rw [leaving, hands]
    cases (s.dcd m).valid && !s.mStall i m <;> rfl
  have accepts : s.accepts i m = if (i.master m).stb && (s.skid m).ready then [(i.master m).req] else [] := by
    simp [Wbxbar.accepts, cyc, mstall]
  rw [leaves, accepts, waiting, waiting, ← List.map_append, ← List.map_append]
  simp only [clock, reset, cyc, Bool.not_true, Bool.or_self, Bool.and_true]
  rw [← List.append_assoc, decoder, List.append_assoc, skid, List.append_assoc]

/-- A master that has no request at a slave's port. -/
def Unasked (s : Wbxbar nm ns aw dw lg) (m : Fin nm) : Prop := ∀ k, s.channel m = some k → s.sstb k = false

theorem Unasked.port (unasked : s.Unasked m) : s.port m = [] := by
  rw [Wbxbar.port]
  cases has : s.channel m with
  | none => rfl
  | some k => simp [unasked k has]

theorem Unasked.passes (unasked : s.Unasked m) : s.passes i m = [] := by
  rw [Wbxbar.passes]
  cases has : s.channel m with
  | none => rfl
  | some k => simp [unasked k has]

theorem answers_cyc (answers : (s.sAck i k || s.sErr i k) = true) : s.scyc k = true := by
  rw [sAck, sErr, ← Bool.and_or_distrib_left] at answers
  exact (Bool.and_eq_true_iff.mp answers).1

/-- There is at most one response in a clock. -/
theorem replies_short : (s.replies i m).length ≤ 1 := by
  rw [replies]
  cases s.channel m with
  | none => cases s.grant m none <;> cases s.merr m <;> simp
  | some k => cases ack : s.sAck i k <;> cases err : s.sErr i k <;> simp [response, ack, err]

/-- A slave that is not granted yet is not asked for anything. -/
theorem strobe_ungranted (unowned : s.sgrant k = false) : (s.clock b i).sstb k = false := by
  simp [clock, nextSstb, unowned]

/-- The port of a slave that a master has. -/
theorem Granted.strobe_held (granted : s.Granted b) (goes : i.ends m = false) (has : s.grant m (some k) = true)
    (clean : s.sErr i k = false) : (s.clock b i).scyc k = true ∧
      (s.clock b i).sstb k = (if s.sStall i k then s.sstb k else s.request i m (some k) && !s.mfull m) ∧
      (s.clock b i).sreq k = if s.sStall i k then s.sreq k else b.told (s.dcd m).req := by
  obtain ⟨reset, cyc⟩ : i.reset = false ∧ (i.master m).cyc = true := by simpa [Inputs.ends] using goes
  obtain ⟨taken, -, index⟩ := granted.owned has
  have ready : (!s.sstb k || !s.sStall i k) = !s.sStall i k := by
    cases stb : s.sstb k <;> simp [sStall, stb]
  simp only [clock, nextScyc, nextSstb, nextSreq, reset, clean, taken, Granted.owner_eq index, cyc, ready]
  cases s.sStall i k with
  | true => simp
  | false => simp [Build.told]

/-- The port takes what leaves the decoder, and keeps what the slave does not accept. -/
theorem Granted.port_next (granted : s.Granted b) (goes : i.ends m = false) (quiet : s.merr m = false)
    (idle : s.free m → s.Unasked m) (clean : ∀ k, s.channel m = some k → s.sErr i k = false) :
    (s.passes i m).map tagged ++ ((s.clock b i).port m).map tagged = (s.port m).map tagged ++ s.leaving b i m := by
  have next (k : Fin ns) : (s.clock b i).channel m = some k ↔ s.nextGrant i m (some k) = true :=
    granted.kept.channel_iff
  -- where the grant is not kept, nothing is on its way
  have moves (free : s.free m) (other : s.grant m (s.target b m) = false) (empty : (s.clock b i).Unasked m) :
      (s.passes i m).map tagged ++ ((s.clock b i).port m).map tagged = (s.port m).map tagged ++ s.leaving b i m := by
    have stays : s.leaving b i m = [] := by
      rw [leaving, if_neg]
      intro on
      obtain ⟨-, k, here, has, -⟩ := (granted.handsOn_iff quiet).mp on
      rw [here, has] at other
      contradiction
    rw [(idle free).port, (idle free).passes, empty.port, stays]
    rfl
  cases granted.outcome (i := i) m with
  | dropped ends =>
    have ends : i.ends m = true := by simpa [Inputs.ends] using ends
    exact absurd (ends.symm.trans goes) (by decide)
  | lost _ _ free other _ grant =>
    exact moves free other fun k has => absurd (((next k).mp has).symm.trans (grant _)) (by decide)
  | opened _ _ free other opens grant =>
    exact moves free other fun k has => strobe_ungranted (opens k ((grant _).mp ((next k).mp has)).symm).1
  | kept _ _ grant =>
    have same : (s.clock b i).channel m = s.channel m := by
      apply Option.ext
      intro k
      rw [next, grant, granted.channel_iff]
    rw [port, port, passes, same, leaving]
    cases has : s.channel m with
    | none =>
      have off : s.handsOn i m = false := by
        rw [← Bool.not_eq_true, granted.handsOn_iff quiet]
        rintro ⟨-, k, -, given, -⟩
        rw [granted.channel_iff.mpr given] at has
        contradiction
      simp [off]
    | some k =>
      have given := granted.channel_iff.mp has
      obtain ⟨-, strobe, request⟩ := granted.strobe_held goes given (clean k has)
      have hands : s.handsOn i m = (s.request i m (some k) && !s.mfull m && !s.sStall i k) := by
        rw [Bool.eq_iff_iff, granted.handsOn_iff quiet]
        simp only [Bool.and_eq_true, Bool.not_eq_true', granted.request_iff]
        constructor
        · rintro ⟨⟨asks, room⟩, j, here, has', ready⟩
          obtain rfl := Option.some.inj (granted.one has' given)
          exact ⟨⟨⟨asks, here.symm⟩, room⟩, ready⟩
        · rintro ⟨⟨⟨asks, here⟩, room⟩, ready⟩
          exact ⟨⟨asks, room⟩, k, here.symm, given, ready⟩
      simp only [strobe, request, hands]
      cases asked : s.request i m (some k) with
      | false =>
        cases stb : s.sstb k <;> cases stall : (i.slave k).stall <;> simp [sStall, stb, stall]
      | true =>
        have here : s.target b m = some k := (granted.request_iff.mp asked).2.symm
        have route : b.route (s.dcd m).req = (some k, b.told (s.dcd m).req) := congrArg (·, b.told (s.dcd m).req) here
        cases stb : s.sstb k <;> cases stall : (i.slave k).stall <;> cases s.mfull m <;>
          simp [sStall, stb, stall, tagged, route]

/-- A master hears in the next clock what is said in this one. -/
theorem Granted.shows_next (granted : s.Granted b) (goes : i.ends m = false) (quiet : s.merr m = false) :
    (s.clock b i).shows m = (s.replies i m).map Prod.snd := by
  obtain ⟨reset, cyc⟩ : i.reset = false ∧ (i.master m).cyc = true := by simpa [Inputs.ends] using goes
  rw [replies]
  cases has : s.channel m with
  | some k =>
    have given := granted.channel_iff.mp has
    have other : s.grant m none = false := by
      rw [← Bool.not_eq_true]
      exact fun also => absurd (granted.one also given).symm (Option.some_ne_none k)
    simp [shows, clock, nextMack, nextMerr, nextMdata, reset, cyc, quiet, other, (granted.granted m).mpr ⟨_, given⟩,
      (granted.owned given).2.1, Function.comp_def]
  | none =>
    cases other : s.grant m none with
    | true => simp [shows, clock, nextMack, nextMerr, reset, cyc, quiet, other, response]
    | false =>
      have idle : s.mgrant m = false := by
        rw [← Bool.not_eq_true, granted.granted]
        rintro ⟨t, given⟩
        cases t with
        | none => exact absurd (other.symm.trans given) (by decide)
        | some k => exact absurd (((granted.channel_none.mp has) k).symm.trans given) (by decide)
      simp [shows, clock, nextMack, nextMerr, reset, cyc, quiet, other, idle, response]

/-- Behind the end of a cycle, and behind an error, there is nothing to hear. -/
theorem shows_cleared (clears : s.clears i m = true) : (s.clock b i).shows m = [] := by
  have ack : (s.clock b i).mack m = false := if_pos clears
  have err : (s.clock b i).merr m = false := if_pos clears
  rw [shows, ack, err]
  rfl

/-! ### The counters -/

/-- The flags say how many requests are pending. -/
structure Counted (s : Wbxbar nm ns aw dw lg) (m : Fin nm) : Prop where
  empty : s.mempty m = true ↔ (s.pending m).toNat = 0
  nearfull : s.mnearfull m = true ↔ 2 ^ lg - 2 ≤ (s.pending m).toNat
  full : s.mfull m = true ↔ (s.pending m).toNat = 2 ^ lg - 1

theorem four (b : Build ns aw lg) : 2 ^ lg = 4 * 2 ^ (lg - 2) := by
  have long := b.longBursts
  rw [show (4 : Nat) = 2 ^ 2 from rfl, ← Nat.pow_add]
  congr 1
  omega

/-- The test of the code for a counter that is nearly full. -/
theorem nearly (b : Build ns aw lg) (p : BitVec lg) :
    (p.extractLsb' 2 (lg - 2) == BitVec.allOnes (lg - 2) && p.extractLsb' 0 2 != 0) = true ↔ 2 ^ lg - 3 ≤ p.toNat := by
  have bound := p.isLt
  have pos := Nat.two_pow_pos (lg - 2)
  rw [four b] at bound ⊢
  have high : p.toNat / 4 < 2 ^ (lg - 2) := by omega
  rw [Bool.and_eq_true, beq_iff_eq, bne_iff_ne, ne_eq, ← BitVec.toNat_inj, ← BitVec.toNat_inj,
    BitVec.extractLsb'_toNat, BitVec.extractLsb'_toNat, BitVec.toNat_allOnes, Nat.shiftRight_eq_div_pow,
    Nat.shiftRight_zero, Nat.mod_eq_of_lt high]
  change p.toNat / 4 = 2 ^ (lg - 2) - 1 ∧ ¬p.toNat % 4 = 0 ↔ _
  omega

theorem one_toNat (b : Build ns aw lg) : (1 : BitVec lg).toNat = 1 := by
  have long := b.longBursts
  exact Nat.mod_eq_of_lt (Nat.one_lt_two_pow (by omega))

/-- The counter stays where nothing goes on and nothing is acknowledged, or both. -/
theorem Counted.same (counted : s.Counted m) (b : Build ns aw lg) (goes : s.clears i m = false)
    (even : s.handsOn i m = s.mack m) : (s.clock b i).Counted m ∧ (s.clock b i).pending m = s.pending m := by
  have pending : (s.clock b i).pending m = s.pending m := by
    cases ack : s.mack m <;> simp [clock, goes, even, ack]
  have empty : (s.clock b i).mempty m = s.mempty m := by
    cases ack : s.mack m <;> simp [clock, goes, even, ack]
  have near : (s.clock b i).mnearfull m = s.mnearfull m := by
    cases ack : s.mack m <;> simp [clock, goes, even, ack]
  have full : (s.clock b i).mfull m = s.mfull m := by
    cases ack : s.mack m <;> simp [clock, goes, even, ack]
  refine ⟨⟨?_, ?_, ?_⟩, pending⟩
  · rw [empty, pending, counted.empty]
  · rw [near, pending, counted.nearfull]
  · rw [full, pending, counted.full]

theorem Counted.up (counted : s.Counted m) (b : Build ns aw lg) (goes : s.clears i m = false)
    (on : s.handsOn i m = true) (ack : s.mack m = false) :
    (s.clock b i).Counted m ∧ ((s.clock b i).pending m).toNat = (s.pending m).toNat + 1 := by
  have bound := (s.pending m).isLt
  have room : (s.pending m).toNat ≠ 2 ^ lg - 1 := by
    rw [handsOn, Bool.and_eq_true, mStb_iff] at on
    exact mt counted.full.mpr (by simp [on.1.2])
  have pending : ((s.clock b i).pending m).toNat = (s.pending m).toNat + 1 := by
    have next : (s.clock b i).pending m = s.pending m + 1 := by simp [clock, goes, on, ack]
    rw [next, BitVec.toNat_add, one_toNat b]
    exact Nat.mod_eq_of_lt (by omega)
  have empty : (s.clock b i).mempty m = false := by simp [clock, goes, on, ack]
  have near : (s.clock b i).mnearfull m = ((s.pending m).extractLsb' 2 (lg - 2) == BitVec.allOnes (lg - 2) &&
      (s.pending m).extractLsb' 0 2 != 0) := by simp [clock, goes, on, ack]
  have full : (s.clock b i).mfull m = s.mnearfull m := by simp [clock, goes, on, ack]
  refine ⟨⟨?_, ?_, ?_⟩, pending⟩
  · rw [empty, pending]
    simp
  · rw [near, pending, nearly b]
    omega
  · rw [full, pending, counted.nearfull]
    omega

theorem Counted.down (counted : s.Counted m) (b : Build ns aw lg) (goes : s.clears i m = false)
    (on : s.handsOn i m = false) (ack : s.mack m = true) (some : 0 < (s.pending m).toNat) :
    (s.clock b i).Counted m ∧ ((s.clock b i).pending m).toNat + 1 = (s.pending m).toNat := by
  have bound := (s.pending m).isLt
  have pending : ((s.clock b i).pending m).toNat = (s.pending m).toNat - 1 := by
    have next : (s.clock b i).pending m = s.pending m - 1 := by simp [clock, goes, on, ack]
    rw [next, BitVec.toNat_sub, one_toNat b,
      show 2 ^ lg - 1 + (s.pending m).toNat = 2 ^ lg + ((s.pending m).toNat - 1) by omega, Nat.add_mod_left]
    exact Nat.mod_eq_of_lt (by omega)
  have empty : (s.clock b i).mempty m = (s.pending m == 1) := by simp [clock, goes, on, ack]
  have near : (s.clock b i).mnearfull m = s.mfull m := by simp [clock, goes, on, ack]
  have full : (s.clock b i).mfull m = false := by simp [clock, goes, on, ack]
  refine ⟨⟨?_, ?_, ?_⟩, by omega⟩
  · rw [empty, pending, beq_iff_eq, ← BitVec.toNat_inj, one_toNat b]
    omega
  · rw [near, pending, counted.full]
    omega
  · rw [full, pending]
    have less : (s.pending m).toNat - 1 ≠ 2 ^ lg - 1 := by omega
    simp [less]

theorem Counted.next (counted : s.Counted m) (b : Build ns aw lg)
    (owed : s.clears i m = false → s.mack m = true → 0 < (s.pending m).toNat) : (s.clock b i).Counted m := by
  cases clears : s.clears i m with
  | true =>
    have wide : 2 ^ 3 ≤ 2 ^ lg := Nat.pow_le_pow_right (by decide) b.longBursts
    have pending : ((s.clock b i).pending m).toNat = 0 := by simp [clock, clears]
    refine ⟨?_, ?_, ?_⟩
    · rw [pending]
      simp [clock, clears]
    · rw [pending]
      simp [clock, clears]
      omega
    · rw [pending]
      simp [clock, clears]
      omega
  | false =>
    cases on : s.handsOn i m with
    | true =>
      cases ack : s.mack m with
      | true => exact (counted.same b clears (on.trans ack.symm)).1
      | false => exact (counted.up b clears on ack).1
    | false =>
      cases ack : s.mack m with
      | true => exact (counted.down b clears on ack (owed clears ack)).1
      | false => exact (counted.same b clears (on.trans ack.symm)).1

theorem Counted.pending_next (counted : s.Counted m) (b : Build ns aw lg) (goes : s.clears i m = false)
    (owed : s.mack m = true → 0 < (s.pending m).toNat) :
    ((s.clock b i).pending m).toNat + (s.mack m).toNat = (s.pending m).toNat + (s.handsOn i m).toNat := by
  cases on : s.handsOn i m with
  | true =>
    cases ack : s.mack m with
    | true => rw [(counted.same b goes (on.trans ack.symm)).2]
    | false => exact (counted.up b goes on ack).2
  | false =>
    cases ack : s.mack m with
    | true => exact (counted.down b goes on ack (owed ack)).2
    | false => rw [(counted.same b goes (on.trans ack.symm)).2]

end Wbxbar

end IcoZip.Crossbar
