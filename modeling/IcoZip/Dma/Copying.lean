import IcoZip.Dma.Transfer
import IcoZip.Library.Fields
import Mathlib.Tactic.SplitIfs

/-! A transfer, phase by phase. -/

set_option autoImplicit false

namespace IcoZip.Dma

variable {w : Nat}

/-! ### Addresses and counters -/

theorem place_succ (inc : Bool) (addr : BitVec w) (k : Nat) :
    Wbdmac.advance inc (place inc addr k) = place inc addr (k + 1) := by
  cases inc
  · rfl
  · change addr + BitVec.ofNat w k + 1 = addr + BitVec.ofNat w (k + 1)
    rw [BitVec.add_assoc, BitVec.ofNat_add]
    rfl

@[simp] theorem place_zero (inc : Bool) (addr : BitVec w) : place inc addr 0 = addr := by cases inc <;> simp [place]

theorem places_succ (inc : Bool) (addr : BitVec w) (n : Nat) :
    (List.range (n + 1)).map (place inc addr) = (List.range n).map (place inc addr) ++ [place inc addr n] := by
  rw [List.range_succ, List.map_append]
  rfl

theorem written_concat (j : Job w) (ws : List (BitVec 32)) (v : BitVec 32) :
    j.written (ws ++ [v]) = j.written ws ++ [(place j.incd j.target ws.length, v)] := by
  simp [Job.written, List.zipIdx_append]

theorem toNat_succ {n : Nat} (c : BitVec n) {k : Nat} (value : c.toNat = k) (small : k + 1 < 2 ^ n) :
    (c + 1).toNat = k + 1 := by
  rw [BitVec.toNat_add, value]
  have one : (1 : BitVec n).toNat = 1 := by
    rcases n with _ | n
    · omega
    · exact Nat.mod_eq_of_lt (Nat.one_lt_two_pow (Nat.succ_ne_zero n))
  rw [one, Nat.mod_eq_of_lt small]

theorem toNat_pred {n : Nat} (c : BitVec n) {k : Nat} (value : c.toNat = k) (more : 0 < k) : (c - 1).toNat = k - 1 := by
  have bound := c.isLt
  have one : (1 : BitVec n).toNat = 1 := by
    rcases n with _ | n
    · omega
    · exact Nat.mod_eq_of_lt (Nat.one_lt_two_pow (Nat.succ_ne_zero n))
  rw [BitVec.toNat_sub_of_le (by rw [BitVec.le_def, one]; omega), one, value]

theorem toNat_less (c : BitVec 11) {k : Nat} (enough : k ≤ c.toNat) :
    (c.setWidth 32 - BitVec.ofNat 32 k).toNat = c.toNat - k := by
  have bound := c.isLt
  have wide : (c.setWidth 32).toNat = c.toNat := BitVec.toNat_setWidth_of_le (by decide)
  have small : (BitVec.ofNat 32 k).toNat = k := by
    rw [BitVec.toNat_ofNat]
    omega
  rw [BitVec.toNat_sub_of_le (by rw [BitVec.le_def, wide, small]; exact enough), wide, small]

/-- The words of the block that begins at word `b`. -/
def Job.size (j : Job w) (b : Nat) : Nat := min j.block (j.length - b)

/-! ### Phases -/

/-- From the start to the end of a transfer. -/
structure Held (c : Wbdmac w) (t : Transfer w) : Prop where
  incs : c.cfgIncs = t.job.incs
  incd : c.cfgIncd = t.job.incd
  block : c.cfgBlocklenSubOne.toNat + 1 = t.job.block
  patient : c.s.patient = true
  abort : c.abort = false
  userHalt : c.userHalt = false
  nonzero : c.cfgLenNonzero = true
  interrupt : c.interrupt = false
  interrupts : t.interrupts = 0

/-- The block that begins at word `b` has not been finished. -/
structure Block (j : Job w) (b : Nat) : Prop where
  whole : b % j.block = 0
  more : b < j.length

/-- `r` words of the block have been asked for and `q` of them have been read. -/
structure Reading (x : Bench w) (t : Transfer w) (b r q : Nat) : Prop where
  held : Held x.core t
  start : Block t.job b
  order : q ≤ r
  most : r ≤ t.job.size b
  reads : t.reads = (List.range (b + r)).map (place t.job.incs t.job.source)
  words : t.words.length = b + q
  writes : t.writes = t.job.written (t.words.take b)
  length : x.core.cfgLen.toNat = t.job.length - b
  nracks : x.core.nracks.toNat = r
  nread : x.core.nread.toNat = q
  raddr : x.core.cfgRaddr = place t.job.incs t.job.source (b + q)
  waddr : x.core.cfgWaddr = place t.job.incd t.job.target b
  outstanding : x.outstanding = r - q
  rdaddr : x.core.rdaddr = 0
  mem : ∀ k < q, some (x.core.dmaMem (BitVec.ofNat 10 k)) = t.words[b + k]?

/-- The block has been read; `m` of its words have been written and `a` of the writes have been answered. -/
structure Writing (x : Bench w) (t : Transfer w) (b m a : Nat) : Prop where
  held : Held x.core t
  start : Block t.job b
  order : a ≤ m
  most : m ≤ t.job.size b
  reads : t.reads = (List.range (b + t.job.size b)).map (place t.job.incs t.job.source)
  words : t.words.length = b + t.job.size b
  writes : t.writes = t.job.written (t.words.take (b + m))
  length : x.core.cfgLen.toNat = t.job.length - b - a
  nread : x.core.nread.toNat = t.job.size b
  nwritten : x.core.nwritten.toNat = m
  nwacks : x.core.nwacks.toNat = a
  raddr : x.core.cfgRaddr = place t.job.incs t.job.source (b + t.job.size b)
  waddr : x.core.cfgWaddr = place t.job.incd t.job.target (b + m)
  outstanding : x.outstanding = m - a
  mem : ∀ k < t.job.size b, some (x.core.dmaMem (BitVec.ofNat 10 k)) = t.words[b + k]?

/-- In front of a block. -/
structure Waiting (x : Bench w) (t : Transfer w) (b : Nat) : Prop where
  held : Held x.core t
  start : Block t.job b
  reads : t.reads = (List.range b).map (place t.job.incs t.job.source)
  words : t.words.length = b
  writes : t.writes = t.job.written t.words
  length : x.core.cfgLen.toNat = t.job.length - b
  raddr : x.core.cfgRaddr = place t.job.incs t.job.source b
  waddr : x.core.cfgWaddr = place t.job.incd t.job.target b
  armed : x.core.trigger = true → x.core.nracks = 0

/-- What the controller is doing for a transfer. -/
inductive Phase (x : Bench w) (t : Transfer w) : Prop where
  | wait (b : Nat) (state : x.core.dmaState = .wait) (waiting : Waiting x t b)
  | readReq (b r q : Nat) (state : x.core.dmaState = .readReq) (reading : Reading x t b r q)
      (more : r < t.job.size b) (last : x.core.lastReadRequest = decide (r + 1 = t.job.size b))
      (flag : x.core.lastReadAck = true → q + 1 = t.job.block)
      (addr : x.core.mwbAddr = place t.job.incs t.job.source (b + r))
  | readAck (b q : Nat) (state : x.core.dmaState = .readAck) (reading : Reading x t b (t.job.size b) q)
      (more : q < t.job.size b) (flag : x.core.lastReadAck = true → q + 1 = t.job.size b)
  | preWrite (b : Nat) (state : x.core.dmaState = .preWrite)
      (reading : Reading x t b (t.job.size b) (t.job.size b))
  | writeReq (b m a : Nat) (state : x.core.dmaState = .writeReq) (writing : Writing x t b m a)
      (more : m < t.job.size b) (last : x.core.lastWriteRequest = decide (m + 1 = t.job.size b))
      (addr : x.core.mwbAddr = place t.job.incd t.job.target (b + m))
      (data : some x.core.mwbData = t.words[b + m]?) (rdaddr : x.core.rdaddr = BitVec.ofNat 10 (m + 1))
  | writeAck (b a : Nat) (state : x.core.dmaState = .writeAck) (writing : Writing x t b (t.job.size b) a)
      (more : a < t.job.size b)
  | done (state : x.core.dmaState = .idle) (copies : t.Copies x.core)

/-! ### Clocks -/

namespace Wbdmac

variable {x : Wbdmac w} {b : Mwb} (swb : Swb) (devInts : BitVec 32)

/-- The registers that a running transfer leaves alone. -/
theorem machine_config (running : x.dmaState ≠ .idle) :
    (x.machine b).cfgIncs = x.cfgIncs ∧ (x.machine b).cfgIncd = x.cfgIncd ∧
      (x.machine b).cfgBlocklenSubOne = x.cfgBlocklenSubOne := by
  cases state : x.dmaState <;> simp_all [machine]

theorem clock_wait (state : x.dmaState = .wait) (abort : x.abort = false) (halt : x.userHalt = false) :
    (x.clock b false swb devInts).dmaState = (if x.trigger then .readReq else .wait) ∧
    (x.clock b false swb devInts).cfgLen = x.cfgLen ∧
    (x.clock b false swb devInts).cfgLenNonzero = x.cfgLenNonzero ∧
    (x.clock b false swb devInts).nracks = 0 ∧ (x.clock b false swb devInts).nread = 0 ∧
    (x.clock b false swb devInts).cfgRaddr = x.cfgRaddr ∧ (x.clock b false swb devInts).cfgWaddr = x.cfgWaddr ∧
    (x.clock b false swb devInts).rdaddr = 0 ∧ (x.clock b false swb devInts).mwbAddr = x.cfgRaddr ∧
    (x.clock b false swb devInts).lastReadAck = false ∧
    (x.clock b false swb devInts).lastReadRequest =
      (x.nracks.toNat == x.cfgBlocklenSubOne.toNat || x.nracks.toNat + 1 == x.cfgLen.toNat) := by
  simp [clock, machine, mwbCyc, mwbWe, state, abort, halt]

theorem clock_preWrite (state : x.dmaState = .preWrite) (abort : x.abort = false) :
    (x.clock b false swb devInts).dmaState = .writeReq ∧ (x.clock b false swb devInts).cfgLen = x.cfgLen ∧
    (x.clock b false swb devInts).cfgLenNonzero = x.cfgLenNonzero ∧ (x.clock b false swb devInts).nread = x.nread ∧
    (x.clock b false swb devInts).nwritten = 0 ∧ (x.clock b false swb devInts).nwacks = 0 ∧
    (x.clock b false swb devInts).cfgRaddr = x.cfgRaddr ∧ (x.clock b false swb devInts).cfgWaddr = x.cfgWaddr ∧
    (x.clock b false swb devInts).rdaddr = x.rdaddr + 1 ∧ (x.clock b false swb devInts).mwbAddr = x.cfgWaddr ∧
    (x.clock b false swb devInts).mwbData = x.dmaMem x.rdaddr ∧ (x.clock b false swb devInts).dmaMem = x.dmaMem ∧
    (x.clock b false swb devInts).lastWriteRequest = decide (x.nread.toNat ≤ 1) := by
  simp [clock, machine, mwbCyc, mwbStb, mwbWe, state, abort]

/-- A clock in which words are read. -/
theorem clock_reading (state : x.dmaState = .readReq ∨ x.dmaState = .readAck) (abort : x.abort = false)
    (fine : b.err = false) :
    (x.clock b false swb devInts).cfgLen = x.cfgLen ∧
    (x.clock b false swb devInts).cfgLenNonzero = x.cfgLenNonzero ∧
    (x.clock b false swb devInts).interrupt = false ∧
    (x.clock b false swb devInts).nracks = (if x.mwbStb && !b.stall then x.nracks + 1 else x.nracks) ∧
    (x.clock b false swb devInts).nread = (if b.ack then x.nread + 1 else x.nread) ∧
    (x.clock b false swb devInts).cfgRaddr = (if b.ack then advance x.cfgIncs x.cfgRaddr else x.cfgRaddr) ∧
    (x.clock b false swb devInts).cfgWaddr = x.cfgWaddr ∧ (x.clock b false swb devInts).rdaddr = x.rdaddr ∧
    (x.clock b false swb devInts).dmaMem = Function.update x.dmaMem (x.nread.setWidth 10) b.data := by
  rcases state with state | state <;>
    simp [clock, machine, mwbCyc, mwbStb, mwbWe, state, abort, fine]

theorem clock_readReq (state : x.dmaState = .readReq) :
    (x.clock b false swb devInts).lastReadRequest =
      (if b.stall then x.nracks.toNat == x.cfgBlocklenSubOne.toNat || x.nracks.toNat + 1 == x.cfgLen.toNat
      else x.nracks.toNat + 1 == x.cfgBlocklenSubOne.toNat || x.nracks.toNat + 2 == x.cfgLen.toNat) ∧
    (x.clock b false swb devInts).lastReadAck =
      ((if b.ack && b.stall then x.nread + 1 else x.nread) == 0#1 ++ x.cfgBlocklenSubOne) ∧
    (x.clock b false swb devInts).mwbAddr = if b.stall then x.mwbAddr else advance x.cfgIncs x.mwbAddr := by
  cases stall : b.stall <;> simp [clock, machine, late, mwbStb, state, stall]

theorem clock_readAck (state : x.dmaState = .readAck) :
    (x.clock b false swb devInts).lastReadAck =
      if b.ack then x.nread.toNat + 2 == x.nracks.toNat else x.nread + 1 == x.nracks := by
  simp [clock, late, mwbStb, state]

/-- A clock in which words are written. -/
theorem clock_writing (state : x.dmaState = .writeReq ∨ x.dmaState = .writeAck) :
    (x.clock b false swb devInts).cfgLen = (if b.ack then x.cfgLen - 1 else x.cfgLen) ∧
    (x.clock b false swb devInts).cfgLenNonzero = (if b.ack then decide (1 < x.cfgLen.toNat) else x.cfgLenNonzero) ∧
    (x.clock b false swb devInts).nread = x.nread ∧
    (x.clock b false swb devInts).nwritten = (if x.mwbStb && !b.stall then x.nwritten + 1 else x.nwritten) ∧
    (x.clock b false swb devInts).nwacks = (if b.ack then x.nwacks + 1 else x.nwacks) ∧
    (x.clock b false swb devInts).cfgRaddr = x.cfgRaddr ∧
    (x.clock b false swb devInts).cfgWaddr =
      (if x.mwbStb && !b.stall then advance x.cfgIncd x.cfgWaddr else x.cfgWaddr) ∧
    (x.clock b false swb devInts).dmaMem = x.dmaMem := by
  rcases state with state | state <;> simp [clock, machine, mwbCyc, mwbStb, mwbWe, state]

theorem clock_writeReq (state : x.dmaState = .writeReq) :
    (x.clock b false swb devInts).lastWriteRequest =
      (if b.stall then decide ((x.nread.setWidth 32 - 1#32).toNat ≤ x.nwritten.toNat)
      else decide ((x.nread.setWidth 32 - 2#32).toNat ≤ x.nwritten.toNat)) ∧
    (x.clock b false swb devInts).mwbAddr = (if b.stall then x.mwbAddr else advance x.cfgIncd x.mwbAddr) ∧
    (x.clock b false swb devInts).mwbData = (if b.stall then x.mwbData else x.dmaMem x.rdaddr) ∧
    (x.clock b false swb devInts).rdaddr = if b.stall then x.rdaddr else x.rdaddr + 1 := by
  cases stall : b.stall <;> simp [clock, machine, state, stall]

theorem not_aborted (patient : x.s.patient = true) :
    (x.sets 0#2 && x.s.data == 0xffed0000#32) = false ∧ (x.sets 0#2 && x.s.data == 0xafed0000#32) = false := by
  simp only [Swb.patient, Bool.not_eq_true', Bool.and_eq_false_iff, Bool.or_eq_false_iff, sets] at patient ⊢
  grind

end Wbdmac

theorem Held.clock {x : Wbdmac w} {t t' : Transfer w} {b : Mwb} {swb : Swb} {devInts : BitVec 32} (held : Held x t)
    (running : x.dmaState ≠ .idle) (patient : swb.patient = true) (job : t'.job = t.job)
    (nonzero : (x.clock b false swb devInts).cfgLenNonzero = true)
    (interrupt : (x.clock b false swb devInts).interrupt = false) (interrupts : t'.interrupts = 0) :
    Held (x.clock b false swb devInts) t' := by
  obtain ⟨incs, incd, block⟩ := Wbdmac.machine_config (b := b) running
  obtain ⟨abort, halt⟩ := Wbdmac.not_aborted held.patient
  constructor
  case incs => exact incs.trans (job ▸ held.incs)
  case incd => exact incd.trans (job ▸ held.incd)
  case block => exact (congrArg (fun n : BitVec 10 => n.toNat + 1) block).trans (job ▸ held.block)
  case patient => exact patient
  case abort =>
    change (x.dmaState != .idle && (x.sets 0#2 && x.s.data == 0xffed0000#32)) = false
    rw [abort, Bool.and_false]
  case userHalt =>
    change (x.userHalt && x.dmaState != .idle || x.sets 0#2 && x.dmaState != .idle && x.s.data == 0xafed0000#32) = false
    rw [held.userHalt, Bool.and_right_comm, halt]
    rfl
  case nonzero => exact nonzero
  case interrupt => exact interrupt
  case interrupts => exact interrupts

namespace Bench

variable {x : Bench w} {i : Inputs} {t : Transfer w}

theorem core_step (reset : i.reset = false) : (x.step i).core = x.core.clock (x.mwb i) false i.swb i.devInts := by
  rw [← reset]
  rfl

theorem answered_ack (fine : (x.mwb i).err = false) : x.answered i = (x.mwb i).ack := by
  have err : (x.answered i && i.fails) = false := fine
  change x.answered i = (x.answered i && !i.fails)
  cases answered : x.answered i <;> simp_all

theorem step_outstanding (fine : (x.mwb i).err = false) (cyc : x.core.mwbCyc = true) :
    (x.step i).outstanding = x.outstanding + (x.accepted i).toNat - (x.mwb i).ack.toNat := by
  rw [← answered_ack fine]
  exact if_pos cyc

/-- Only what is outstanding is answered. -/
theorem ack_outstanding (ack : (x.mwb i).ack = true) : x.outstanding ≠ 0 := by
  simp only [mwb, answered] at ack
  simp_all

end Bench

theorem Held.size_le {x : Wbdmac w} {t : Transfer w} (held : Held x t) (b : Nat) : t.job.size b ≤ 1024 := by
  have small := x.cfgBlocklenSubOne.isLt
  have block := held.block
  unfold Job.size
  omega

section
variable {x : Bench w} {i : Inputs} {t : Transfer w} {b r q : Nat}

theorem Reading.step (reading : Reading x t b r q) (state : x.core.dmaState = .readReq ∨ x.core.dmaState = .readAck)
    (reset : i.reset = false) (patient : i.swb.patient = true) (fine : (x.mwb i).err = false)
    (more : q < t.job.size b) (room : r + (x.accepted i).toNat ≤ t.job.size b)
    (addr : x.accepted i = true → x.core.mwbAddr = place t.job.incs t.job.source (b + r)) :
    Reading (x.step i) (x.follow i t) b (r + (x.accepted i).toNat) (q + (x.mwb i).ack.toNat) := by
  have core := Bench.core_step (x := x) reset
  have cyc : x.core.mwbCyc = true := by rcases state with state | state <;> simp [Wbdmac.mwbCyc, state]
  have we : x.core.mwbWe = false := by rcases state with state | state <;> simp [Wbdmac.mwbWe, state]
  have running : x.core.dmaState ≠ .idle := by rcases state with state | state <;> simp [state]
  have small := reading.held.size_le b
  -- What comes has been asked for, so the answers never overtake the requests.
  have ack_le : (x.mwb i).ack = true → q < r := by
    intro ack
    have some_ := Bench.ack_outstanding ack
    rw [reading.outstanding] at some_
    omega
  have words : (x.follow i t).words = t.words ++ if (x.mwb i).ack then [i.data] else [] := by
    simp only [Bench.follow, we, Bool.not_false, Bool.and_true]
    split_ifs <;> simp
  have reads : (x.follow i t).reads = t.reads ++ if x.accepted i then [x.core.mwbAddr] else [] := by
    simp only [Bench.follow, we, Bool.not_false, Bool.and_true]
    split_ifs <;> simp
  have job : (x.follow i t).job = t.job := rfl
  obtain ⟨length, nonzero, interrupt, asked, read, raddr, waddr, rdaddr, mem⟩ :=
    Wbdmac.clock_reading i.swb i.devInts state reading.held.abort fine
  have order := reading.order
  have nread := reading.nread
  have nracks := reading.nracks
  constructor
  case held =>
    rw [core]
    refine reading.held.clock running patient rfl (nonzero.trans reading.held.nonzero) interrupt ?_
    simp [Bench.follow, reading.held.interrupts, reading.held.interrupt]
  case start => exact reading.start
  case order =>
    cases ack : (x.mwb i).ack with
    | false => exact Nat.le_add_right_of_le reading.order
    | true =>
      have := ack_le ack
      simp only [Bool.toNat_true]
      omega
  case most => exact room
  case reads =>
    rw [reads, job]
    cases accepted : x.accepted i with
    | false => simpa using reading.reads
    | true => rw [Bool.toNat_true, ← Nat.add_assoc, places_succ, ← reading.reads, ← addr accepted]; rfl
  case words =>
    rw [words, List.length_append, reading.words]
    cases (x.mwb i).ack <;> simp [Nat.add_assoc]
  case writes =>
    have enough : b ≤ t.words.length := by rw [reading.words]; omega
    have same : (x.follow i t).writes = t.writes := by simp [Bench.follow, we]
    rw [same, words, List.take_append_of_le_length enough, reading.writes]
    rfl
  case length => exact (congrArg BitVec.toNat (core ▸ length)).trans reading.length
  case nracks =>
    have counted : (x.mwb i).stall = i.stall := rfl
    rw [core, asked, counted]
    rw [Bench.accepted, cyc, Bool.true_and] at room ⊢
    split_ifs with accepted
    · rw [accepted, toNat_succ _ nracks (by simp only [accepted, Bool.toNat_true] at room; omega)]
      rfl
    · rw [Bool.eq_false_of_not_eq_true accepted, nracks]
      rfl
  case nread =>
    rw [core, read]
    split_ifs with ack
    · rw [ack, toNat_succ _ nread (by omega)]
      rfl
    · rw [Bool.eq_false_of_not_eq_true ack, nread]
      rfl
  case raddr =>
    rw [core, raddr, reading.raddr, reading.held.incs, place_succ]
    cases (x.mwb i).ack <;> rfl
  case waddr => exact (core ▸ waddr).trans reading.waddr
  case outstanding =>
    rw [Bench.step_outstanding fine cyc, reading.outstanding]
    cases ack : (x.mwb i).ack with
    | false => simp only [Bool.toNat_false]; omega
    | true =>
      have := ack_le ack
      simp only [Bool.toNat_true]
      omega
  case rdaddr => exact (core ▸ rdaddr).trans reading.rdaddr
  case mem =>
    -- A block has at most 1024 words, so no word of it is written over another.
    intro k below
    have index : x.core.nread.setWidth 10 = BitVec.ofNat 10 q := by
      apply BitVec.eq_of_toNat_eq
      rw [BitVec.toNat_setWidth, BitVec.toNat_ofNat, nread]
    rw [core, mem, index, words]
    by_cases old : k < q
    · have apart : BitVec.ofNat 10 k ≠ BitVec.ofNat 10 q := by
        intro same
        have values := congrArg BitVec.toNat same
        rw [BitVec.toNat_ofNat, BitVec.toNat_ofNat] at values
        omega
      rw [Function.update_of_ne apart, List.getElem?_append_left (by rw [reading.words]; omega), reading.mem k old]
    · -- the word that has just come
      have bit := Bool.toNat_le (x.mwb i).ack
      have ack : (x.mwb i).ack = true := by
        rw [← Bool.toNat_eq_one]
        omega
      obtain rfl : k = q := by omega
      rw [Function.update_self, ack, if_pos rfl, List.getElem?_append_right (by rw [reading.words]), reading.words,
        Nat.sub_self]
      rfl

theorem Writing.step {m a : Nat} (writing : Writing x t b m a)
    (state : x.core.dmaState = .writeReq ∨ x.core.dmaState = .writeAck) (reset : i.reset = false)
    (patient : i.swb.patient = true) (fine : (x.mwb i).err = false) (room : m + (x.accepted i).toNat ≤ t.job.size b)
    (more : (x.mwb i).ack = true → a + 1 < t.job.length - b)
    (out : x.accepted i = true →
      x.core.mwbAddr = place t.job.incd t.job.target (b + m) ∧ some x.core.mwbData = t.words[b + m]?) :
    Writing (x.step i) (x.follow i t) b (m + (x.accepted i).toNat) (a + (x.mwb i).ack.toNat) := by
  have core := Bench.core_step (x := x) reset
  have cyc : x.core.mwbCyc = true := by rcases state with state | state <;> simp [Wbdmac.mwbCyc, state]
  have we : x.core.mwbWe = true := by rcases state with state | state <;> simp [Wbdmac.mwbWe, state]
  have running : x.core.dmaState ≠ .idle := by rcases state with state | state <;> simp [state]
  have small := writing.held.size_le b
  have ack_le : (x.mwb i).ack = true → a < m := by
    intro ack
    have some_ := Bench.ack_outstanding ack
    rw [writing.outstanding] at some_
    omega
  have words : (x.follow i t).words = t.words := by simp [Bench.follow, we]
  have job : (x.follow i t).job = t.job := rfl
  obtain ⟨length, nonzero, nread, written, answered, raddr, waddr, mem⟩ :=
    Wbdmac.clock_writing (b := x.mwb i) i.swb i.devInts state
  have order := writing.order
  have nwritten := writing.nwritten
  have nwacks := writing.nwacks
  have left := writing.length
  constructor
  case held =>
    rw [core]
    refine writing.held.clock running patient rfl ?_ ?_ ?_
    · rw [nonzero, left, writing.held.nonzero]
      split_ifs with ack
      · have := more ack
        rw [decide_eq_true_eq]
        omega
      · rfl
    · -- The transfer goes on, so this is not the acknowledgement that ends it.
      have longer : (x.mwb i).ack = true → x.core.cfgLen ≠ 1#w := by
        intro ack one
        have := more ack
        rw [one, BitVec.toNat_ofNat] at left
        have := Nat.mod_le 1 (2 ^ w)
        omega
      cases ack : (x.mwb i).ack <;> simp_all [Wbdmac.clock]
    · simp [Bench.follow, writing.held.interrupts, writing.held.interrupt]
  case start => exact writing.start
  case order =>
    cases ack : (x.mwb i).ack with
    | false => exact Nat.le_add_right_of_le writing.order
    | true =>
      have := ack_le ack
      simp only [Bool.toNat_true]
      omega
  case most => exact room
  case reads =>
    have same : (x.follow i t).reads = t.reads := by simp [Bench.follow, we]
    rw [same, writing.reads]
    rfl
  case words => rw [words, writing.words]; rfl
  case writes =>
    -- The words that are written are those that have been read, in order.
    rw [words, job]
    have more : (x.follow i t).writes =
        t.writes ++ if x.accepted i then [(x.core.mwbAddr, x.core.mwbData)] else [] := by
      simp only [Bench.follow, we, Bool.and_true]
      split_ifs <;> simp
    rw [more, writing.writes]
    cases accepted : x.accepted i with
    | false => simp
    | true =>
      obtain ⟨addr, data⟩ := out accepted
      have long : b + m ≤ t.words.length := by
        have := writing.words
        omega
      rw [Bool.toNat_true, ← Nat.add_assoc, List.take_add_one, ← data, Option.toList_some, written_concat,
        List.length_take, Nat.min_eq_left long, addr]
      rfl
  case length =>
    rw [core, length, job]
    split_ifs with ack
    · have := more ack
      rw [ack, toNat_pred _ left (by omega), Bool.toNat_true, Nat.sub_sub]
    · rw [Bool.eq_false_of_not_eq_true ack, left]
      rfl
  case nread => exact (congrArg BitVec.toNat (core ▸ nread)).trans writing.nread
  case nwritten =>
    have counted : (x.mwb i).stall = i.stall := rfl
    rw [core, written, counted]
    rw [Bench.accepted, cyc, Bool.true_and] at room ⊢
    split_ifs with accepted
    · rw [accepted, toNat_succ _ nwritten (by simp only [accepted, Bool.toNat_true] at room; omega)]
      rfl
    · rw [Bool.eq_false_of_not_eq_true accepted, nwritten]
      rfl
  case nwacks =>
    rw [core, answered]
    split_ifs with ack
    · have := ack_le ack
      have := writing.most
      rw [ack, toNat_succ _ nwacks (by omega)]
      rfl
    · rw [Bool.eq_false_of_not_eq_true ack, nwacks]
      rfl
  case raddr => exact (core ▸ raddr).trans writing.raddr
  case waddr =>
    have counted : (x.mwb i).stall = i.stall := rfl
    rw [core, waddr, writing.waddr, writing.held.incd, place_succ, Bench.accepted, cyc, Bool.true_and, counted]
    cases x.core.mwbStb && !i.stall <;> rfl
  case outstanding =>
    rw [Bench.step_outstanding fine cyc, writing.outstanding]
    cases ack : (x.mwb i).ack with
    | false => simp only [Bool.toNat_false]; omega
    | true =>
      have := ack_le ack
      simp only [Bool.toNat_true]
      omega
  case mem =>
    intro k below
    rw [core, mem, words, writing.mem k below]

theorem Bench.follow_off (off : x.core.mwbCyc = false) (interrupt : x.core.interrupt = false) : x.follow i t = t := by
  simp [Bench.follow, accepted, mwb, answered, off, interrupt]

theorem Bench.err_off (off : x.core.mwbCyc = false) : (x.mwb i).err = false := by simp [mwb, answered, off]

theorem Job.size_pos {j : Job w} (block : 0 < j.block) (start : Block j b) : 0 < j.size b := by
  have := start.more
  unfold size
  omega

theorem Held.block_pos {c : Wbdmac w} (held : Held c t) : 0 < t.job.block := by
  have := held.block
  omega

theorem Held.last_request {c : Wbdmac w} (held : Held c t) {k : Nat} (more : k < t.job.size b) :
    (k == c.cfgBlocklenSubOne.toNat || k + 1 == t.job.length - b) = decide (k + 1 = t.job.size b) := by
  have block := held.block
  unfold Job.size at more ⊢
  rw [Bool.eq_iff_iff, Bool.or_eq_true, beq_iff_eq, beq_iff_eq, decide_eq_true_eq]
  omega

/-- Between two cycles. -/
theorem Held.off (held : Held x.core t) (state : x.core.dmaState = .wait ∨ x.core.dmaState = .preWrite)
    (reset : i.reset = false) (patient : i.swb.patient = true)
    (nonzero : (x.step i).core.cfgLenNonzero = x.core.cfgLenNonzero) : Held (x.step i).core t := by
  have off : x.core.mwbCyc = false := by rcases state with state | state <;> simp [Wbdmac.mwbCyc, state]
  have running : x.core.dmaState ≠ .idle := by rcases state with state | state <;> simp [state]
  have interrupt : (x.core.clock (x.mwb i) false i.swb i.devInts).interrupt = false := by
    rcases state with state | state <;> simp [Wbdmac.clock, state, Bench.err_off off]
  rw [Bench.core_step reset] at nonzero ⊢
  exact held.clock running patient rfl (nonzero.trans held.nonzero) interrupt held.interrupts

/-- In front of a block the next request is the last one of its block exactly if the block has one word. -/
theorem Waiting.step (waiting : Waiting x t b) (state : x.core.dmaState = .wait) (reset : i.reset = false)
    (patient : i.swb.patient = true) : Phase (x.step i) (x.follow i t) := by
  have core := Bench.core_step (x := x) reset
  have off : x.core.mwbCyc = false := by simp [Wbdmac.mwbCyc, state]
  have held := waiting.held
  have pos := Job.size_pos held.block_pos waiting.start
  obtain ⟨next, length, nonzero, nracks, nread, raddr, waddr, rdaddr, addr, ack, request⟩ :=
    Wbdmac.clock_wait (b := x.mwb i) i.swb i.devInts state held.abort held.userHalt
  rw [← core] at next length nonzero nracks nread raddr waddr rdaddr addr ack request
  have held' : Held (x.step i).core t := held.off (by simp [state]) reset patient nonzero
  have free : (x.step i).outstanding = 0 := if_neg (by simp [off])
  rw [Bench.follow_off off held.interrupt]
  cases trigger : x.core.trigger with
  | false =>
    refine .wait b (by rw [next, trigger]; rfl) ⟨held', waiting.start, waiting.reads, waiting.words, waiting.writes,
      ?_, raddr.trans waiting.raddr, waddr.trans waiting.waddr, fun _ => nracks⟩
    rw [length, waiting.length]
  | true =>
    refine .readReq b 0 0 (by rw [next, trigger]; rfl) ⟨held', waiting.start, le_rfl, pos.le, waiting.reads,
      waiting.words, ?_, ?_, ?_, ?_, raddr.trans waiting.raddr, waddr.trans waiting.waddr, free, rdaddr, nofun⟩
      pos ?_ ?_ (addr.trans waiting.raddr)
    · rw [← waiting.words, List.take_length, waiting.writes]
    · rw [length, waiting.length]
    · rw [nracks]; rfl
    · rw [nread]; rfl
    · rw [request, waiting.armed trigger, waiting.length]
      exact held.last_request pos
    · rw [ack]
      nofun

/-- While words are still asked for. -/
theorem Reading.request (reading : Reading x t b r q) (state : x.core.dmaState = .readReq) (more : r < t.job.size b)
    (last : x.core.lastReadRequest = decide (r + 1 = t.job.size b))
    (flag : x.core.lastReadAck = true → q + 1 = t.job.block)
    (addr : x.core.mwbAddr = place t.job.incs t.job.source (b + r)) (reset : i.reset = false)
    (patient : i.swb.patient = true) (fine : (x.mwb i).err = false) : Phase (x.step i) (x.follow i t) := by
  have core := Bench.core_step (x := x) reset
  have order := reading.order
  have block : t.job.size b ≤ t.job.block := Nat.min_le_left _ _
  have taken : x.accepted i = !i.stall := by
    simp [Bench.accepted, Wbdmac.mwbCyc, Wbdmac.mwbStb, state]
  have ack_le : (x.mwb i).ack = true → q < r := by
    intro ack
    have some_ := Bench.ack_outstanding ack
    rw [reading.outstanding] at some_
    omega
  have early : ((x.mwb i).ack && x.core.lastReadAck) = false := by
    cases ack : (x.mwb i).ack with
    | false => rfl
    | true =>
      by_contra last
      have := flag (by simpa using last)
      have := ack_le ack
      omega
  have room : r + (x.accepted i).toNat ≤ t.job.size b := by
    have := Bool.toNat_le (x.accepted i)
    omega
  have next := reading.step (.inl state) reset patient fine (by omega) room fun _ => addr
  have goes : (x.step i).core.dmaState = if !i.stall && x.core.lastReadRequest then .readAck else .readReq := by
    have err : ((x.mwb i).err || x.core.abort) = false := by rw [fine, reading.held.abort]; rfl
    have stall : (x.mwb i).stall = i.stall := rfl
    rw [core]
    simp [Wbdmac.clock, Wbdmac.machine, state, err, early, reading.held.userHalt, stall]
  obtain ⟨request, ack, moved⟩ := Wbdmac.clock_readReq (b := x.mwb i) i.swb i.devInts state
  rw [← core] at request ack moved
  have stalled : (x.mwb i).stall = i.stall := rfl
  have blocklen := reading.held.block
  have job : (x.follow i t).job = t.job := rfl
  -- the flag compares the words read so far, unless one is answered in the clock of an acceptance
  have known : (x.step i).core.lastReadAck = true →
      q + ((x.mwb i).ack && i.stall).toNat + 1 = t.job.block := by
    intro flagged
    rw [ack, beq_iff_eq, stalled] at flagged
    have value := congrArg BitVec.toNat flagged
    rw [Fields.toNat_zero_append] at value
    cases late : (x.mwb i).ack && i.stall with
    | false =>
      rw [late, if_neg Bool.false_ne_true, reading.nread] at value
      simp only [Bool.toNat_false]
      omega
    | true =>
      have small := reading.held.size_le b
      rw [late, if_pos rfl, toNat_succ _ reading.nread (by omega)] at value
      simp only [Bool.toNat_true]
      omega
  rw [stalled] at request moved
  cases stall : i.stall with
  | true =>
    rw [taken, stall] at next
    rw [stall] at goes request moved known
    refine .readReq b r _ (by simpa using goes) (by simpa using next) (by rwa [job]) ?_ ?_ ?_
    · rw [request, if_pos rfl, reading.nracks, reading.length, job]
      exact reading.held.last_request more
    · rw [job]
      simpa using known
    · rw [moved, if_pos rfl, addr]
      rfl
  | false =>
    rw [taken, stall] at next
    rw [stall] at goes request moved known
    cases final : x.core.lastReadRequest with
    | true =>
      rw [final] at last goes
      have whole : r + 1 = t.job.size b := of_decide_eq_true last.symm
      rw [Bool.not_false, Bool.toNat_true, whole] at next
      have bit := Bool.toNat_le (x.mwb i).ack
      refine .readAck b _ (by simpa using goes) next ?_ fun flagged => ?_
      · rw [job]
        cases ack : (x.mwb i).ack with
        | false => simp only [Bool.toNat_false]; omega
        | true => have := ack_le ack; simp only [Bool.toNat_true]; omega
      · have all := known flagged
        rw [Bool.and_false, Bool.toNat_false] at all
        rw [job]
        cases ack : (x.mwb i).ack with
        | false => simp only [Bool.toNat_false]; omega
        | true => have := ack_le ack; omega
    | false =>
      rw [final] at last goes
      have further : r + 1 ≠ t.job.size b := of_decide_eq_false last.symm
      rw [Bool.not_false, Bool.toNat_true] at next
      refine .readReq b (r + 1) _ (by simpa using goes) next (by rw [job]; omega) ?_ (fun flagged => ?_) ?_
      · rw [request, if_neg Bool.false_ne_true, reading.nracks, reading.length, job]
        exact reading.held.last_request (by omega)
      · have all := known flagged
        rw [Bool.and_false, Bool.toNat_false] at all
        omega
      · rw [moved, if_neg Bool.false_ne_true, addr, reading.held.incs, place_succ]
        rfl

/-- When all words of a block have been asked for. -/
theorem Reading.await (reading : Reading x t b (t.job.size b) q) (state : x.core.dmaState = .readAck)
    (more : q < t.job.size b) (flag : x.core.lastReadAck = true → q + 1 = t.job.size b) (reset : i.reset = false)
    (patient : i.swb.patient = true) (fine : (x.mwb i).err = false) (foreseen : x.foreseen i = true) :
    Phase (x.step i) (x.follow i t) := by
  have core := Bench.core_step (x := x) reset
  have small := reading.held.size_le b
  have none : x.accepted i = false := by simp [Bench.accepted, Wbdmac.mwbStb, state]
  have next := reading.step (.inr state) reset patient fine more (by simp [none]) (by simp [none])
  rw [none, Bool.toNat_false, Nat.add_zero] at next
  have goes : (x.step i).core.dmaState =
      if (x.mwb i).ack && x.core.lastReadAck then .preWrite else .readAck := by
    have err : ((x.mwb i).err || x.core.abort) = false := by rw [fine, reading.held.abort]; rfl
    rw [core]
    simp [Wbdmac.clock, Wbdmac.machine, state, err, reading.held.userHalt]
  have ahead := Wbdmac.clock_readAck (b := x.mwb i) i.swb i.devInts state
  rw [← core] at ahead
  have succ := toNat_succ _ reading.nread (by omega)
  have last : x.core.nread + 1 = x.core.nracks ↔ q + 1 = t.job.size b := by
    rw [← BitVec.toNat_inj, succ, reading.nracks]
  cases ack : (x.mwb i).ack with
  | false =>
    rw [ack] at next goes ahead
    refine .readAck b q (by simpa using goes) next more fun flagged => ?_
    rw [ahead, if_neg Bool.false_ne_true, beq_iff_eq] at flagged
    exact last.mp flagged
  | true =>
    rw [ack] at next goes ahead
    have seen : q + 1 = t.job.size b → x.core.lastReadAck = true := by
      intro final
      simp only [Bench.foreseen, ack, state, Bool.not_true, Bool.false_or, bne, last.mpr final, beq_self_eq_true,
        Bool.not_true, Bool.false_or] at foreseen
      exact foreseen
    cases flagged : x.core.lastReadAck with
    | true =>
      rw [Bool.toNat_true, flag flagged] at next
      rw [flagged] at goes
      exact .preWrite b goes next
    | false =>
      have further : q + 1 ≠ t.job.size b := fun final => by simp [seen final] at flagged
      rw [flagged] at goes
      refine .readAck b (q + 1) goes next (Nat.lt_of_le_of_ne more further) fun flagged' => ?_
      rw [ahead, if_pos rfl, reading.nread, reading.nracks, beq_iff_eq] at flagged'
      exact flagged'

theorem Reading.turn (reading : Reading x t b (t.job.size b) (t.job.size b)) (state : x.core.dmaState = .preWrite)
    (reset : i.reset = false) (patient : i.swb.patient = true) : Phase (x.step i) (x.follow i t) := by
  have core := Bench.core_step (x := x) reset
  have off : x.core.mwbCyc = false := by simp [Wbdmac.mwbCyc, state]
  have held := reading.held
  have pos := Job.size_pos held.block_pos reading.start
  obtain ⟨next, length, nonzero, nread, nwritten, nwacks, raddr, waddr, rdaddr, addr, data, mem, request⟩ :=
    Wbdmac.clock_preWrite (b := x.mwb i) i.swb i.devInts state held.abort
  rw [← core] at next length nonzero nread nwritten nwacks raddr waddr rdaddr addr data mem request
  have held' : Held (x.step i).core t := held.off (by simp [state]) reset patient nonzero
  have free : (x.step i).outstanding = 0 := if_neg (by simp [off])
  rw [Bench.follow_off off held.interrupt]
  refine .writeReq b 0 0 next ⟨held', reading.start, le_rfl, pos.le, reading.reads, reading.words, reading.writes,
    ?_, ?_, ?_, ?_, raddr.trans reading.raddr, waddr.trans reading.waddr, free, ?_⟩ pos ?_ (addr.trans reading.waddr)
    ?_ ?_
  · rw [length, reading.length]; rfl
  · rw [nread, reading.nread]
  · rw [nwritten]; rfl
  · rw [nwacks]; rfl
  · rw [mem]; exact reading.mem
  · rw [request, reading.nread, decide_eq_decide]
    omega
  · rw [data, reading.rdaddr]
    exact reading.mem 0 pos
  · rw [rdaddr, reading.rdaddr]
    rfl

/-- While words are still to be written. -/
theorem Writing.request {m a : Nat} (writing : Writing x t b m a) (state : x.core.dmaState = .writeReq)
    (more : m < t.job.size b) (last : x.core.lastWriteRequest = decide (m + 1 = t.job.size b))
    (addr : x.core.mwbAddr = place t.job.incd t.job.target (b + m)) (data : some x.core.mwbData = t.words[b + m]?)
    (rdaddr : x.core.rdaddr = BitVec.ofNat 10 (m + 1)) (reset : i.reset = false) (patient : i.swb.patient = true)
    (fine : (x.mwb i).err = false) (foreseen : x.foreseen i = true) : Phase (x.step i) (x.follow i t) := by
  have core := Bench.core_step (x := x) reset
  have small := writing.held.size_le b
  have size : t.job.size b ≤ t.job.length - b := Nat.min_le_right _ _
  have taken : x.accepted i = !i.stall := by
    simp [Bench.accepted, Wbdmac.mwbCyc, Wbdmac.mwbStb, state]
  have ack_le : (x.mwb i).ack = true → a < m := by
    intro ack
    have some_ := Bench.ack_outstanding ack
    rw [writing.outstanding] at some_
    omega
  have early : ((x.mwb i).ack && x.core.lastWriteAck) = false := by
    simp only [Bench.foreseen, state] at foreseen
    cases ack : (x.mwb i).ack <;> simp_all
  have room : m + (x.accepted i).toNat ≤ t.job.size b := by
    have := Bool.toNat_le (x.accepted i)
    omega
  have next := writing.step (.inl state) reset patient fine room (fun ack => by have := ack_le ack; omega)
    fun _ => ⟨addr, data⟩
  have stalled : (x.mwb i).stall = i.stall := rfl
  have goes : (x.step i).core.dmaState = if !i.stall && x.core.lastWriteRequest then .writeAck else .writeReq := by
    have err : ((x.mwb i).err || x.core.abort) = false := by rw [fine, writing.held.abort]; rfl
    rw [core]
    simp [Wbdmac.clock, Wbdmac.machine, Wbdmac.behindWrite, state, err, early, writing.held.nonzero, stalled]
  obtain ⟨request, moved, shown, index⟩ :=
    Wbdmac.clock_writeReq (b := x.mwb i) i.swb i.devInts state
  rw [← core, stalled] at request moved shown index
  have words : (x.follow i t).words = t.words := by simp [Bench.follow, Wbdmac.mwbWe, state]
  have job : (x.follow i t).job = t.job := rfl
  -- A stalled request stays as it is; one that is taken is the last of its block, or it is followed by the next word.
  cases stall : i.stall with
  | true =>
    rw [taken, stall] at next
    rw [stall] at goes request moved shown index
    refine .writeReq b m _ (by simpa using goes) (by simpa using next) (by rwa [job]) ?_ ?_ ?_ ?_
    · rw [request, if_pos rfl, toNat_less _ (by rw [writing.nread]; omega), writing.nread, writing.nwritten, job,
        decide_eq_decide]
      omega
    · rw [moved, if_pos rfl, addr]
      rfl
    · rw [shown, if_pos rfl, data, words]
    · rw [index, if_pos rfl, rdaddr]
  | false =>
    rw [taken, stall] at next
    rw [stall] at goes request moved shown index
    cases final : x.core.lastWriteRequest with
    | true =>
      rw [final] at last goes
      have whole : m + 1 = t.job.size b := of_decide_eq_true last.symm
      rw [Bool.not_false, Bool.toNat_true, whole] at next
      refine .writeAck b _ (by simpa using goes) next ?_
      rw [job]
      cases ack : (x.mwb i).ack with
      | false => have := writing.order; simp only [Bool.toNat_false]; omega
      | true => have := ack_le ack; simp only [Bool.toNat_true]; omega
    | false =>
      rw [final] at last goes
      have further : m + 1 ≠ t.job.size b := of_decide_eq_false last.symm
      rw [Bool.not_false, Bool.toNat_true] at next
      refine .writeReq b (m + 1) _ (by simpa using goes) next (by rw [job]; omega) ?_ ?_ ?_ ?_
      · rw [request, if_neg Bool.false_ne_true, toNat_less _ (by rw [writing.nread]; omega), writing.nread,
          writing.nwritten, job, decide_eq_decide]
        omega
      · rw [moved, if_neg Bool.false_ne_true, addr, writing.held.incd, place_succ]
        rfl
      · rw [shown, if_neg Bool.false_ne_true, rdaddr, writing.mem (m + 1) (by omega), words]
      · rw [index, if_neg Bool.false_ne_true, rdaddr, BitVec.ofNat_add (m + 1)]
        rfl

/-- Between two blocks. -/
theorem Writing.next (writing : Writing x t b (t.job.size b) (t.job.size b)) (more : b + t.job.size b < t.job.length)
    (idle : x.core.trigger = false) : Waiting x t (b + t.job.size b) := by
  have whole : t.job.size b = t.job.block := by
    unfold Job.size at more ⊢
    omega
  refine ⟨writing.held, ⟨?_, more⟩, writing.reads, writing.words, ?_, ?_, writing.raddr, writing.waddr, ?_⟩
  · rw [whole, Nat.add_mod_right, writing.start.whole]
  · rw [writing.writes, ← writing.words, List.take_length]
  · rw [writing.length]
    omega
  · rw [idle]
    nofun

@[simp] theorem Job.written_length (j : Job w) (ws : List (BitVec 32)) : (j.written ws).length = ws.length := by
  simp [written]

/-- The end of a transfer. -/
theorem Writing.finish {a : Nat} (writing : Writing x t b (t.job.size b) a) (goes : (x.step i).core.dmaState = .idle)
    (length : (x.step i).core.cfgLen = 0) (interrupt : (x.step i).core.interrupt = true)
    (all : b + t.job.size b = t.job.length) (none : x.accepted i = false) (state : x.core.mwbWe = true) :
    (x.follow i t).Copies (x.step i).core := by
  have off : (x.step i).core.mwbStb = false := by simp [Wbdmac.mwbStb, goes]
  have reads : (x.follow i t).reads = t.reads := by simp [Bench.follow, none]
  have words : (x.follow i t).words = t.words := by simp [Bench.follow, state]
  have writes : (x.follow i t).writes = t.writes := by simp [Bench.follow, none]
  have whole : t.words.length = t.job.length := writing.words.trans all
  have asked : t.reads.length = t.job.length := by rw [writing.reads, List.length_map, List.length_range, all]
  have stored : t.writes = t.job.written t.words := by
    rw [writing.writes, ← writing.words, List.take_length]
  have sent : t.writes.length = t.job.length := by rw [stored, Job.written_length, whole]
  constructor
  case reads => rw [reads, asked, ← all]; exact writing.reads
  case words => rw [reads, words, asked, whole]
  case writes => rw [words, writes, sent, ← whole, List.take_length]; exact stored
  case within_length => rw [reads, asked]; rfl
  case asks => exact fun on => absurd (off.symm.trans on) Bool.false_ne_true
  case stores => exact fun on => absurd (off.symm.trans on) Bool.false_ne_true
  case busy => exact fun running => absurd goes running
  case done =>
    intro _
    refine ⟨by rw [words, whole]; rfl, by rw [writes, sent]; rfl, length, ?_⟩
    rw [interrupt]
    simp [Bench.follow, writing.held.interrupts, writing.held.interrupt]

/-- When all words of a block have been sent. -/
theorem Writing.await {a : Nat} (writing : Writing x t b (t.job.size b) a) (state : x.core.dmaState = .writeAck)
    (more : a < t.job.size b) (reset : i.reset = false) (patient : i.swb.patient = true)
    (fine : (x.mwb i).err = false) (foreseen : x.foreseen i = true) : Phase (x.step i) (x.follow i t) := by
  have core := Bench.core_step (x := x) reset
  have held := writing.held
  have small := held.size_le b
  have size : t.job.size b ≤ t.job.length - b := Nat.min_le_right _ _
  have none : x.accepted i = false := by simp [Bench.accepted, Wbdmac.mwbStb, state]
  have job : (x.follow i t).job = t.job := rfl
  have err : ((x.mwb i).err || x.core.abort) = false := by rw [fine, held.abort]; rfl
  have flag : (x.mwb i).ack = true → (x.core.lastWriteAck = true ↔ a + 1 = t.job.size b) := by
    intro ack
    have counted := toNat_succ _ writing.nwacks (by omega)
    simp only [Bench.foreseen, ack, state, Bool.not_true, Bool.false_or, beq_iff_eq] at foreseen
    rw [foreseen, beq_iff_eq, ← BitVec.toNat_inj, counted, writing.nwritten]
  have goes : (x.step i).core.dmaState = if (x.mwb i).ack && x.core.lastWriteAck then
      (if x.core.cfgLen.toNat ≤ 1 then .idle else .wait) else .writeAck := by
    rw [core]
    simp [Wbdmac.clock, Wbdmac.machine, Wbdmac.behindWrite, state, err, held.nonzero]
  have trigger : (x.step i).core.trigger = false := by
    rw [core]
    simp [Wbdmac.clock, state]
  -- The last acknowledgement ends the transfer, the last one of a block leads to the next block.
  by_cases final : (x.mwb i).ack = true ∧ b + (a + 1) = t.job.length
  · obtain ⟨ack, all⟩ := final
    have last : a + 1 = t.job.size b := by omega
    have left := writing.length
    have one : x.core.cfgLen = 1#w := by
      apply BitVec.eq_of_toNat_eq
      have bound := x.core.cfgLen.isLt
      rw [BitVec.toNat_ofNat, Nat.mod_eq_of_lt (by omega)]
      omega
    rw [ack, (flag ack).mpr last, Bool.and_self, if_pos rfl, if_pos (by omega)] at goes
    refine .done goes (writing.finish goes ?_ ?_ (by omega) none (by simp [Wbdmac.mwbWe, state]))
    · rw [core, (Wbdmac.clock_writing _ _ (.inr state)).1, if_pos ack, one]
      exact BitVec.sub_self _
    · rw [core]
      simp [Wbdmac.clock, state, ack, (flag ack).mpr last, one]
  · have further : (x.mwb i).ack = true → a + 1 < t.job.length - b := by
      intro ack
      have more : b + (a + 1) ≠ t.job.length := fun done => final ⟨ack, done⟩
      omega
    have next := writing.step (.inr state) reset patient fine (by simp [none]) further (by simp [none])
    rw [none, Bool.toNat_false, Nat.add_zero] at next
    cases ack : (x.mwb i).ack with
    | false =>
      rw [ack] at next goes
      exact .writeAck b a goes next more
    | true =>
      rw [ack] at next goes
      cases flagged : x.core.lastWriteAck with
      | false =>
        rw [flagged] at goes
        refine .writeAck b (a + 1) goes next ?_
        have further : a + 1 ≠ t.job.size b := fun last => by simp [(flag ack).mpr last] at flagged
        rw [job]
        omega
      | true =>
        have last : a + 1 = t.job.size b := (flag ack).mp flagged
        rw [Bool.toNat_true, last] at next
        have rest : b + t.job.size b < t.job.length := by
          have := further ack
          omega
        have left := writing.length
        rw [flagged, Bool.and_self, if_pos rfl, if_neg (by omega)] at goes
        exact .wait _ goes (next.next rest trigger)

end

end IcoZip.Dma
