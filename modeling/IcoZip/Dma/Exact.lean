import IcoZip.Dma.Copying

/-! Transfers are exact as long as the flags computed ahead are right, and come to an end. -/

set_option autoImplicit false

namespace IcoZip.Dma

variable {w : Nat}

section
variable {x : Bench w} {i : Inputs} {t : Transfer w} {b r q m a : Nat}

/-! ### What each phase says of the transfer -/

/-- A transfer that is running and has not raised its interrupt. -/
theorem Held.copies (held : Held x.core t) (running : x.core.dmaState ≠ .idle)
    (reads : t.reads = (List.range r).map (place t.job.incs t.job.source)) (words : t.words.length ≤ r)
    (writes : t.writes = t.job.written (t.words.take m)) (sent : m ≤ t.words.length) (asked : r ≤ t.job.length)
    (asks : x.core.mwbStb = true → x.core.mwbWe = false →
      r < t.job.length ∧ x.core.mwbAddr = place t.job.incs t.job.source r)
    (stores : x.core.mwbStb = true → x.core.mwbWe = true → t.words.length = t.job.ahead m ∧ m < t.words.length ∧
      x.core.mwbAddr = place t.job.incd t.job.target m ∧ t.words[m]? = some x.core.mwbData) : t.Copies x.core := by
  have count : t.reads.length = r := by rw [reads, List.length_map, List.length_range]
  have number : t.writes.length = m := by
    rw [writes, Job.written_length, List.length_take, Nat.min_eq_left sent]
  constructor
  case reads => rw [count]; exact reads
  case words => rw [count]; exact words
  case writes => rw [number]; exact writes
  case within_length => rw [count]; exact asked
  case asks => rw [count]; exact asks
  case stores => rw [number]; exact stores
  case busy => intro _; rw [held.interrupts, held.interrupt]; rfl
  case done => exact fun idle => absurd idle running

theorem Block.within (start : Block t.job b) : b + t.job.size b ≤ t.job.length := by
  have := start.more
  unfold Job.size
  omega

/-- The words of all blocks up to the one that begins at word `b`. -/
theorem Block.ahead (start : Block t.job b) (more : m < t.job.size b) :
    t.job.ahead (b + m) = b + t.job.size b := by
  have block : m < t.job.block := Nat.lt_of_lt_of_le more (Nat.min_le_left _ _)
  have whole : b = b / t.job.block * t.job.block := (Nat.div_mul_cancel (Nat.dvd_of_mod_eq_zero start.whole)).symm
  have quotient : (b + m) / t.job.block = b / t.job.block := by
    rw [whole, Nat.mul_comm, Nat.mul_add_div (by omega), Nat.div_eq_of_lt block, Nat.add_zero,
      Nat.mul_div_cancel_left _ (by omega)]
  have := start.more
  rw [Job.ahead, quotient, Nat.add_mul, Nat.one_mul, ← whole, Job.size]
  omega

theorem Phase.copies (phase : Phase x t) : t.Copies x.core := by
  cases phase with
  | wait b state waiting =>
    have off : x.core.mwbStb = false := by simp [Wbdmac.mwbStb, state]
    have sent : t.words.take b = t.words := by rw [← waiting.words, List.take_length]
    exact waiting.held.copies (by simp [state]) waiting.reads waiting.words.le (sent.symm ▸ waiting.writes)
      waiting.words.ge waiting.start.more.le (by simp [off]) (by simp [off])
  | readReq b r q state reading more last flag addr =>
    have within := reading.start.within
    have words := reading.words
    have order := reading.order
    refine reading.held.copies (by simp [state]) reading.reads (by omega) reading.writes (by omega) (by omega) ?_ ?_
    · exact fun _ _ => ⟨by omega, addr⟩
    · simp [Wbdmac.mwbWe, state]
  | readAck b q state reading more flag =>
    have off : x.core.mwbStb = false := by simp [Wbdmac.mwbStb, state]
    have within := reading.start.within
    have words := reading.words
    exact reading.held.copies (by simp [state]) reading.reads (by omega) reading.writes (by omega) within
      (by simp [off]) (by simp [off])
  | preWrite b state reading =>
    have off : x.core.mwbStb = false := by simp [Wbdmac.mwbStb, state]
    have words := reading.words
    exact reading.held.copies (by simp [state]) reading.reads (by omega) reading.writes (by omega)
      reading.start.within (by simp [off]) (by simp [off])
  | writeReq b m a state writing more last addr data rdaddr =>
    have words := writing.words
    refine writing.held.copies (by simp [state]) writing.reads (by omega) writing.writes (by omega)
      writing.start.within ?_ ?_
    · simp [Wbdmac.mwbWe, state]
    · exact fun _ _ => ⟨words.trans (writing.start.ahead more).symm, by omega, addr, data.symm⟩
  | writeAck b a state writing more =>
    have off : x.core.mwbStb = false := by simp [Wbdmac.mwbStb, state]
    have words := writing.words
    exact writing.held.copies (by simp [state]) writing.reads (by omega) writing.writes (by omega)
      writing.start.within (by simp [off]) (by simp [off])
  | done state copies => exact copies

/-! ### Starting, running, ending -/

/-- The controller is idle or runs a transfer, and knows whether words are left. -/
structure Sane (x : Bench w) : Prop where
  runs : ∀ t, x.transfer = some t → Phase x t
  owned : x.core.dmaState ≠ .idle → x.transfer ≠ none
  nonzero : x.core.cfgLenNonzero = decide (x.core.cfgLen.toNat ≠ 0)

theorem Bench.starts_idle (starts : x.core.starts = true) :
    x.core.dmaState = .idle ∧ x.core.sets 0#2 = true ∧ x.core.cfgLenNonzero = true := by
  simp only [Wbdmac.starts, Bool.and_eq_true, beq_iff_eq] at starts
  exact ⟨starts.1.1.1.1, starts.1.1.1.2, starts.2⟩

theorem Wbdmac.sets_one {c : Wbdmac w} {a b : BitVec 2} (apart : a ≠ b) (sets : c.sets a = true) :
    c.sets b = false := by
  simp only [Wbdmac.sets, Bool.and_eq_true, beq_iff_eq] at sets ⊢
  simp [sets.2, apart]

/-- A start command opens a transfer in front of its first block. -/
theorem Sane.start (sane : Sane x) (starts : x.core.starts = true) (reset : i.reset = false)
    (patient : i.swb.patient = true) : Phase (x.step i) ⟨x.job, [], [], [], 0⟩ := by
  obtain ⟨state, sets, some_⟩ := Bench.starts_idle starts
  have core := Bench.core_step (x := x) reset
  have others (a : BitVec 2) (apart : 0#2 ≠ a) : x.core.sets a = false := Wbdmac.sets_one apart sets
  have length : (x.step i).core.cfgLen = x.core.cfgLen := by
    rw [core]
    simp [Wbdmac.clock, Wbdmac.mwbCyc, state, others 1#2 (by decide)]
  have more : 0 < x.core.cfgLen.toNat := by
    have := sane.nonzero.symm.trans some_
    simp only [decide_eq_true_eq] at this
    omega
  have zero (inc : Bool) (addr : BitVec w) : addr = place inc addr 0 := (place_zero inc addr).symm
  refine .wait 0 ?_ ⟨?_, ⟨Nat.zero_mod _, more⟩, rfl, rfl, rfl, ?_, ?_, ?_, ?_⟩
  · rw [core]
    simp [Wbdmac.clock, Wbdmac.machine, Wbdmac.idle, state, starts]
  · rw [core]
    constructor
    case patient => exact patient
    case interrupts => rfl
    all_goals simp [Wbdmac.clock, Wbdmac.machine, Wbdmac.idle, Wbdmac.mwbCyc, Bench.job, state, sets, some_,
      others 1#2 (by decide)]
  · rw [length]; rfl
  · rw [← zero, core]
    simp [Wbdmac.clock, Wbdmac.machine, Wbdmac.idle, Bench.job, state, others 2#2 (by decide)]
  · rw [← zero, core]
    simp [Wbdmac.clock, Wbdmac.machine, Wbdmac.idle, Bench.job, state, others 3#2 (by decide)]
  · rw [core]
    simp [Wbdmac.clock, state]

/-- A finished transfer stays as it is while the controller is idle. -/
theorem Transfer.Copies.rest (copies : t.Copies x.core) (state : x.core.dmaState = .idle) (reset : i.reset = false)
    (still : x.core.starts = false) (length : x.core.sets 1#2 = false) : Phase (x.step i) (x.follow i t) := by
  have core := Bench.core_step (x := x) reset
  have off : x.core.mwbCyc = false := by simp [Wbdmac.mwbCyc, state]
  have goes : (x.step i).core.dmaState = .idle := by
    rw [core]
    simp [Wbdmac.clock, Wbdmac.machine, Wbdmac.idle, state, still]
  have same : x.follow i t = { t with interrupts := t.interrupts + x.core.interrupt.toNat } := by
    simp [Bench.follow, Bench.accepted, Bench.mwb, Bench.answered, off]
  have stb : (x.step i).core.mwbStb = false := by simp [Wbdmac.mwbStb, goes]
  obtain ⟨words, writes, done, interrupts⟩ := copies.done state
  rw [same]
  refine .done goes ⟨copies.reads, copies.words, copies.writes, copies.within_length, by simp [stb], by simp [stb],
    fun running => absurd goes running, fun _ => ⟨words, writes, ?_, ?_⟩⟩
  · rw [core, ← done]
    simp [Wbdmac.clock, state, length, off]
  · have quiet : (x.step i).core.interrupt = false := by
      rw [core]
      simp [Wbdmac.clock, state]
    rw [quiet]
    exact interrupts

theorem Phase.step (phase : Phase x t) (reset : i.reset = false) (patient : i.swb.patient = true)
    (foreseen : x.foreseen i = true) (fine : (x.mwb i).err = false) (still : x.core.starts = false)
    (length : x.core.dmaState = .idle → x.core.sets 1#2 = false) : Phase (x.step i) (x.follow i t) := by
  cases phase with
  | wait b state waiting => exact waiting.step state reset patient
  | readReq b r q state reading more last flag addr =>
    exact reading.request state more last flag addr reset patient fine
  | readAck b q state reading more flag => exact reading.await state more flag reset patient fine foreseen
  | preWrite b state reading => exact reading.turn state reset patient
  | writeReq b m a state writing more last addr data rdaddr =>
    exact writing.request state more last addr data rdaddr reset patient fine foreseen
  | writeAck b a state writing more => exact writing.await state more reset patient fine foreseen
  | done state copies => exact copies.rest state reset still (length state)

/-- While words are written, some are left. -/
theorem Phase.left (phase : Phase x t) (we : x.core.mwbWe = true) (cyc : x.core.mwbCyc = true) :
    0 < x.core.cfgLen.toNat := by
  cases phase with
  | wait b state waiting => simp [Wbdmac.mwbWe, state] at we
  | readReq b r q state reading more last flag addr => simp [Wbdmac.mwbWe, state] at we
  | readAck b q state reading more flag => simp [Wbdmac.mwbWe, state] at we
  | preWrite b state reading => simp [Wbdmac.mwbCyc, state] at cyc
  | writeReq b m a state writing more last addr data rdaddr =>
    have order := writing.order
    have within := writing.start.within
    rw [writing.length]
    omega
  | writeAck b a state writing more =>
    have within := writing.start.within
    rw [writing.length]
    omega
  | done state copies => simp [Wbdmac.mwbWe, state] at we

/-- An error leads back to the idle state. -/
theorem Bench.step_err (err : (x.mwb i).err = true) :
    (x.step i).core.dmaState = .idle ∧ (i.reset = false → (x.step i).core.cfgErr = true) := by
  have cyc : x.core.mwbCyc = true := by
    simp only [mwb, answered] at err
    simp_all
  have bus : x.core.dmaState = .readReq ∨ x.core.dmaState = .readAck ∨ x.core.dmaState = .writeReq ∨
      x.core.dmaState = .writeAck := by
    simpa [Wbdmac.mwbCyc, or_assoc] using cyc
  constructor
  · cases reset : i.reset with
    | true => simp [step, Wbdmac.clock, reset]
    | false =>
      rw [core_step reset]
      rcases bus with state | state | state | state <;>
        simp [Wbdmac.clock, Wbdmac.machine, Wbdmac.behindWrite, state, err]
  · intro reset
    rw [core_step reset]
    rcases bus with state | state | state | state <;> simp [Wbdmac.clock, Wbdmac.mwbCyc, state, err]

theorem Sane.nonzero_step (sane : Sane x) (i : Inputs) :
    (x.step i).core.cfgLenNonzero = decide ((x.step i).core.cfgLen.toNat ≠ 0) := by
  cases reset : i.reset with
  | true => simp [Bench.step, Wbdmac.clock, reset]
  | false =>
    rw [Bench.core_step reset]
    simp only [Wbdmac.clock, Bool.false_eq_true, if_false]
    split_ifs with sets counts
    · rw [Bool.eq_iff_iff, bne_iff_ne, decide_eq_true_eq, ne_eq, ne_eq, ← BitVec.toNat_inj, BitVec.toNat_zero]
    · obtain ⟨⟨cyc, we⟩, ack⟩ := by simpa [Bool.and_eq_true] using counts
      have running : x.core.dmaState ≠ .idle := fun idle => by simp [Wbdmac.mwbCyc, idle] at cyc
      obtain ⟨t, current⟩ := Option.ne_none_iff_exists'.mp (sane.owned running)
      have left := (sane.runs t current).left we cyc
      rw [toNat_pred _ rfl left, decide_eq_decide]
      omega
    · exact sane.nonzero

theorem Sane.step (sane : Sane x) (patient : i.swb.patient = true) (foreseen : x.foreseen i = true) :
    Sane (x.step i) := by
  refine ⟨?_, ?_, sane.nonzero_step i⟩
  · intro t current
    cases reset : i.reset with
    | true => simp [Bench.step, reset] at current
    | false =>
      simp only [Bench.step, reset, Bool.false_eq_true, if_false] at current
      split_ifs at current with starts length err
      · cases current
        exact sane.start starts reset patient
      · obtain ⟨t, before, rfl⟩ := Option.map_eq_some_iff.mp current
        exact (sane.runs t before).step reset patient foreseen (by simpa using err) (by simpa using starts)
          fun idle => by simpa [idle] using length
  · intro running none
    cases reset : i.reset with
    | true => simp [Bench.step, Wbdmac.clock, reset] at running
    | false =>
      simp only [Bench.step, reset, Bool.false_eq_true, if_false] at none
      rw [Bench.core_step reset] at running
      split_ifs at none with starts length err
      · simp [Wbdmac.clock, Wbdmac.machine, Wbdmac.idle, length.1, starts] at running
      · exact running (Bench.core_step reset ▸ (Bench.step_err err).1)
      · have before := Option.map_eq_none_iff.mp none
        have idle : x.core.dmaState = .idle := by
          by_contra busy
          exact sane.owned busy before
        simp [Wbdmac.clock, Wbdmac.machine, Wbdmac.idle, idle, starts] at running

theorem sane_powerUp (free : Wbdmac w) : Sane (Bench.powerUp free) :=
  ⟨nofun, fun running => absurd rfl running, rfl⟩

/-! ### Progress -/

/-- What the slave has to do to bring the transfer on: accept each request, and answer as soon as the flags are
right. The device triggers. -/
def Bench.urge (x : Bench w) : Inputs where
  reset := false
  swb := ⟨false, false, 0, 0⟩
  devInts := BitVec.allOnes 32
  stall := false
  answer :=
    match x.core.dmaState with
    | .readAck => x.core.nread + 1 != x.core.nracks || x.core.lastReadAck
    | .writeAck => x.core.lastWriteAck == (x.core.nwacks + 1 == x.core.nwritten)
    | _ => false
  fails := false
  data := 0

theorem Bench.urge_foreseen (x : Bench w) : x.foreseen x.urge = true := by
  cases state : x.core.dmaState <;> simp [foreseen, urge, mwb, answered, state] <;> grind

theorem Bench.urge_fine (x : Bench w) : (x.mwb x.urge).err = false := by simp [mwb, urge]

/-- The clocks that a phase takes, at most. -/
def Wbdmac.rank (c : Wbdmac w) : Nat :=
  match c.dmaState with
  | .idle => 0
  | .wait => 12000 + (!c.trigger).toNat
  | .readReq => 8000 + (2000 - c.nracks.toNat)
  | .readAck => 5000 + 2 * (c.nracks.toNat - c.nread.toNat) + (!c.lastReadAck).toNat
  | .preWrite => 4600
  | .writeReq => 2500 + (2000 - c.nwritten.toNat)
  | .writeAck => (c.lastWriteAck != (c.nwacks + 1 == c.nwritten)).toNat

/-- The clocks that are left, at most, in the words still to be written and in the phase. -/
def Bench.remaining (x : Bench w) : Nat := 16384 * x.core.cfgLen.toNat + x.core.rank

theorem Wbdmac.rank_lt (c : Wbdmac w) : c.rank < 16384 := by
  have small := c.nracks.isLt
  have ready := Bool.toNat_le (!c.trigger)
  have flag := Bool.toNat_le (!c.lastReadAck)
  have right := Bool.toNat_le (c.lastWriteAck != (c.nwacks + 1 == c.nwritten))
  unfold rank
  cases c.dmaState <;> simp only <;> omega

theorem Waiting.nears (waiting : Waiting x t b) (state : x.core.dmaState = .wait) :
    (x.step x.urge).remaining < x.remaining := by
  have core := Bench.core_step (x := x) (i := x.urge) rfl
  obtain ⟨next, length, -, nracks, -⟩ :=
    Wbdmac.clock_wait (b := x.mwb x.urge) x.urge.swb x.urge.devInts state waiting.held.abort waiting.held.userHalt
  have trigger : (x.step x.urge).core.trigger = true := by
    have line : (BitVec.allOnes 32).getLsbD x.core.cfgDevTrigger.toNat = true := by
      rw [BitVec.getLsbD_allOnes]
      exact decide_eq_true x.core.cfgDevTrigger.isLt
    have set_ : (x.step x.urge).core.trigger = (x.core.dmaState == .wait &&
        (!x.core.cfgOnDevTrigger || (BitVec.allOnes 32).getLsbD x.core.cfgDevTrigger.toNat)) := by
      rw [core]
      rfl
    rw [set_, state, line, Bool.or_true]
    rfl
  rw [← core] at next length nracks
  simp only [Bench.remaining, Wbdmac.rank, next, length, nracks, trigger, state]
  cases x.core.trigger <;> simp

theorem Reading.request_nears (reading : Reading x t b r q) (state : x.core.dmaState = .readReq)
    (more : r < t.job.size b) : (x.step x.urge).remaining < x.remaining := by
  have core := Bench.core_step (x := x) (i := x.urge) rfl
  have small := reading.held.size_le b
  have bus : (x.mwb x.urge).ack = false ∧ (x.mwb x.urge).stall = false := by
    simp [Bench.mwb, Bench.answered, Bench.urge, state]
  obtain ⟨length, -, -, asked, read, -⟩ := Wbdmac.clock_reading x.urge.swb x.urge.devInts
    (.inl state) reading.held.abort x.urge_fine
  have counted : (x.step x.urge).core.nracks.toNat = r + 1 := by
    have on : (x.core.mwbStb && !(x.mwb x.urge).stall) = true := by simp [Wbdmac.mwbStb, state, bus.2]
    rw [core, asked, if_pos on, toNat_succ _ reading.nracks (by omega)]
  have goes : (x.step x.urge).core.dmaState = if x.core.lastReadRequest then .readAck else .readReq := by
    have err : ((x.mwb x.urge).err || x.core.abort) = false := by rw [x.urge_fine, reading.held.abort]; rfl
    rw [core]
    simp [Wbdmac.clock, Wbdmac.machine, state, err, bus.1, bus.2, reading.held.userHalt]
  rw [← core] at length
  have flag := Bool.toNat_le (!(x.step x.urge).core.lastReadAck)
  simp only [Bench.remaining, Wbdmac.rank, goes, length, counted, state, reading.nracks]
  cases x.core.lastReadRequest <;> simp <;> omega

theorem Reading.await_nears (reading : Reading x t b (t.job.size b) q) (state : x.core.dmaState = .readAck)
    (more : q < t.job.size b) : (x.step x.urge).remaining < x.remaining := by
  have core := Bench.core_step (x := x) (i := x.urge) rfl
  have small := reading.held.size_le b
  obtain ⟨length, -, -, asked, read, -⟩ := Wbdmac.clock_reading x.urge.swb x.urge.devInts
    (.inr state) reading.held.abort x.urge_fine
  have ahead := Wbdmac.clock_readAck (b := x.mwb x.urge) x.urge.swb x.urge.devInts state
  have goes : (x.step x.urge).core.dmaState =
      if (x.mwb x.urge).ack && x.core.lastReadAck then .preWrite else .readAck := by
    have err : ((x.mwb x.urge).err || x.core.abort) = false := by rw [x.urge_fine, reading.held.abort]; rfl
    rw [core]
    simp [Wbdmac.clock, Wbdmac.machine, state, err, reading.held.userHalt]
  have still : (x.step x.urge).core.nracks = x.core.nracks := by
    rw [core, asked]
    simp [Wbdmac.mwbStb, state]
  have answer : (x.mwb x.urge).ack = (x.core.nread + 1 != x.core.nracks || x.core.lastReadAck) := by
    have some_ : x.outstanding ≠ 0 := by
      rw [reading.outstanding]
      omega
    simp [Bench.mwb, Bench.answered, Bench.urge, Wbdmac.mwbCyc, state, some_]
  rw [← core] at length read ahead
  have flag := Bool.toNat_le (!(x.step x.urge).core.lastReadAck)
  simp only [Bench.remaining, Wbdmac.rank, goes, length, still, state, reading.nracks, reading.nread]
  cases ack : (x.mwb x.urge).ack with
  | false =>
    rw [ack, eq_comm, Bool.or_eq_false_iff, bne_eq_false_iff_eq] at answer
    rw [ack, if_neg Bool.false_ne_true] at read ahead
    rw [answer.1, beq_self_eq_true] at ahead
    simp [read, ahead, answer.2, reading.nread]
  | true =>
    rw [ack, if_pos rfl] at read
    have counted : (x.step x.urge).core.nread.toNat = q + 1 := by
      rw [read, toNat_succ _ reading.nread (by omega)]
    rw [counted]
    cases x.core.lastReadAck <;> simp <;> omega

theorem Reading.turn_nears (reading : Reading x t b (t.job.size b) (t.job.size b))
    (state : x.core.dmaState = .preWrite) : (x.step x.urge).remaining < x.remaining := by
  have core := Bench.core_step (x := x) (i := x.urge) rfl
  obtain ⟨next, length, -, -, nwritten, -⟩ :=
    Wbdmac.clock_preWrite (b := x.mwb x.urge) x.urge.swb x.urge.devInts state reading.held.abort
  rw [← core] at next length nwritten
  simp only [Bench.remaining, Wbdmac.rank, next, length, nwritten, state]
  simp

theorem Writing.request_nears (writing : Writing x t b m a) (state : x.core.dmaState = .writeReq)
    (more : m < t.job.size b) : (x.step x.urge).remaining < x.remaining := by
  have core := Bench.core_step (x := x) (i := x.urge) rfl
  have small := writing.held.size_le b
  have bus : (x.mwb x.urge).ack = false ∧ (x.mwb x.urge).stall = false := by
    simp [Bench.mwb, Bench.answered, Bench.urge, state]
  obtain ⟨length, -, -, written, -⟩ := Wbdmac.clock_writing (b := x.mwb x.urge) x.urge.swb x.urge.devInts (.inl state)
  rw [bus.1, if_neg Bool.false_ne_true] at length
  have counted : (x.step x.urge).core.nwritten.toNat = m + 1 := by
    have on : (x.core.mwbStb && !(x.mwb x.urge).stall) = true := by simp [Wbdmac.mwbStb, state, bus.2]
    rw [core, written, if_pos on, toNat_succ _ writing.nwritten (by omega)]
  have goes : (x.step x.urge).core.dmaState = if x.core.lastWriteRequest then .writeAck else .writeReq := by
    have err : ((x.mwb x.urge).err || x.core.abort) = false := by rw [x.urge_fine, writing.held.abort]; rfl
    rw [core]
    simp [Wbdmac.clock, Wbdmac.machine, Wbdmac.behindWrite, state, err, bus.1, bus.2, writing.held.nonzero]
  rw [← core] at length
  have flag := Bool.toNat_le
    ((x.step x.urge).core.lastWriteAck != ((x.step x.urge).core.nwacks + 1 == (x.step x.urge).core.nwritten))
  simp only [Bench.remaining, Wbdmac.rank, goes, length, counted, state, writing.nwritten]
  cases x.core.lastWriteRequest <;> simp only [Bool.false_eq_true, if_false, if_true] <;> omega

theorem Writing.await_nears (writing : Writing x t b (t.job.size b) a) (state : x.core.dmaState = .writeAck)
    (more : a < t.job.size b) : (x.step x.urge).remaining < x.remaining := by
  have core := Bench.core_step (x := x) (i := x.urge) rfl
  have small := writing.held.size_le b
  have within := writing.start.within
  obtain ⟨length, -, -, written, acked, -⟩ :=
    Wbdmac.clock_writing (b := x.mwb x.urge) x.urge.swb x.urge.devInts (.inr state)
  have answer : (x.mwb x.urge).ack = (x.core.lastWriteAck == (x.core.nwacks + 1 == x.core.nwritten)) := by
    have some_ : x.outstanding ≠ 0 := by
      rw [writing.outstanding]
      omega
    simp [Bench.mwb, Bench.answered, Bench.urge, Wbdmac.mwbCyc, state, some_]
  cases ack : (x.mwb x.urge).ack with
  | true =>
    -- a word less
    rw [ack, if_pos rfl, ← core] at length
    have left := writing.length
    have rank := (x.step x.urge).core.rank_lt
    rw [Bench.remaining, Bench.remaining, length, toNat_pred _ left (by omega), left]
    omega
  | false =>
    -- the flag is right a clock later
    rw [ack, if_neg Bool.false_ne_true, ← core] at length acked
    rw [ack] at answer
    have still : (x.step x.urge).core.nwritten = x.core.nwritten := by
      rw [core, written]
      simp [Wbdmac.mwbStb, state]
    have goes : (x.step x.urge).core.dmaState = .writeAck := by
      have err : ((x.mwb x.urge).err || x.core.abort) = false := by rw [x.urge_fine, writing.held.abort]; rfl
      rw [core]
      simp [Wbdmac.clock, Wbdmac.machine, Wbdmac.behindWrite, state, err, ack, writing.held.nonzero]
    have right : (x.step x.urge).core.lastWriteAck = (x.core.nwacks + 1 == x.core.nwritten) := by
      have counted := toNat_succ _ writing.nwacks (by omega)
      rw [core, Bool.eq_iff_iff, beq_iff_eq, ← BitVec.toNat_inj, counted, writing.nwritten]
      simp [Wbdmac.clock, Wbdmac.late, state, ack, writing.nwacks, writing.nwritten]
    have wrong : (x.core.lastWriteAck != (x.core.nwacks + 1 == x.core.nwritten)) = true := by
      rw [bne, ← answer]
      rfl
    simp only [Bench.remaining, Wbdmac.rank, goes, length, right, acked, still, state, wrong, bne_self_eq_false]
    simp

theorem Phase.nears (phase : Phase x t) (running : x.core.dmaState ≠ .idle) :
    (x.step x.urge).remaining < x.remaining := by
  cases phase with
  | wait b state waiting => exact waiting.nears state
  | readReq b r q state reading more last flag addr => exact reading.request_nears state more
  | readAck b q state reading more flag => exact reading.await_nears state more
  | preWrite b state reading => exact reading.turn_nears state
  | writeReq b m a state writing more last addr data rdaddr => exact writing.request_nears state more
  | writeAck b a state writing more => exact writing.await_nears state more
  | done state copies => exact absurd state running

end

/-! ### Runs -/

open Clocked (run Always)

/-- The CPU is patient, and the answer that comes has been foreseen. -/
def Bench.timely (x : Bench w) (i : Inputs) : Prop := i.swb.patient = true ∧ x.foreseen i = true

/-- The transfer is left alone by resets and errors. -/
def Bench.undisturbed (x : Bench w) (i : Inputs) : Prop := i.reset = false ∧ (x.mwb i).err = false

instance (x : Bench w) (i : Inputs) : Decidable (x.timely i) :=
  inferInstanceAs (Decidable (i.swb.patient = true ∧ x.foreseen i = true))

theorem sane_run {x : Bench w} (sane : Sane x) {is : List Inputs} (timely : Always Bench.step Bench.timely x is) :
    Sane (run Bench.step x is) :=
  Clocked.run_invariant (fun _ _ sane timely => sane.step timely.1 timely.2) sane timely

/-- From wherever a transfer stands it can be brought to its end. -/
theorem Sane.finishes {x : Bench w} {t : Transfer w} (sane : Sane x) (current : x.transfer = some t) :
    ∃ (js : List Inputs) (t' : Transfer w),
      Always Bench.step (fun y j => y.undisturbed j ∧ y.timely j) x js ∧
      (run Bench.step x js).transfer = some t' ∧ t'.job = t.job ∧ (run Bench.step x js).core.dmaState = .idle := by
  induction left : x.remaining using Nat.strong_induction_on generalizing x t with
  | _ n ih =>
    by_cases idle : x.core.dmaState = .idle
    · exact ⟨[], t, trivial, current, rfl, idle⟩
    · have phase := sane.runs t current
      have still : x.core.starts = false := by
        by_contra starts
        exact idle (Bench.starts_idle (by simpa using starts)).1
      have next : (x.step x.urge).transfer = some (x.follow x.urge t) := by
        simp [Bench.step, Bench.urge_fine, idle, still, current, show x.urge.reset = false from rfl]
      have sane' := sane.step (i := x.urge) rfl x.urge_foreseen
      obtain ⟨js, t', always, done, job, ends⟩ :=
        ih _ (left ▸ phase.nears idle) sane' next rfl
      exact ⟨x.urge :: js, t', ⟨⟨⟨rfl, x.urge_fine⟩, rfl, x.urge_foreseen⟩, always⟩, done, job, ends⟩

/-- Behind an error the controller does nothing until it is started again. -/
theorem Bench.quiet_run {x : Bench w} (idle : x.core.dmaState = .idle) {is : List Inputs}
    (still : Always step (fun y _ => y.core.starts = false) x is) :
    (run step x is).core.dmaState = .idle ∧ (run step x is).core.mwbCyc = false := by
  have stays (y : Bench w) (i : Inputs) (idle : y.core.dmaState = .idle) (still : y.core.starts = false) :
      (y.step i).core.dmaState = .idle := by
    cases reset : i.reset with
    | true => simp [step, Wbdmac.clock, reset]
    | false =>
      rw [core_step reset]
      simp [Wbdmac.clock, Wbdmac.machine, Wbdmac.idle, idle, still]
  have kept : (run step x is).core.dmaState = .idle := Clocked.run_invariant stays idle still
  exact ⟨kept, by simp [Wbdmac.mwbCyc, kept]⟩

/-- As long as the flags that are computed ahead are right for the answers that come, transfers copy exactly their
words, and can be brought to their end, with one interrupt; and an error ends them. -/
theorem copies_exactly (free : Wbdmac w) (is : List Inputs)
    (timely : Always Bench.step Bench.timely (.powerUp free) is) :
    ((run Bench.step (.powerUp free) is).core.dmaState ≠ .idle →
      (run Bench.step (.powerUp free) is).transfer ≠ none) ∧
    (∀ t, (run Bench.step (.powerUp free) is).transfer = some t →
      t.Copies (run Bench.step (.powerUp free) is).core ∧
      ∃ (js : List Inputs) (t' : Transfer w),
        Always Bench.step (fun y j => y.undisturbed j ∧ y.timely j) (run Bench.step (.powerUp free) is) js ∧
        (run Bench.step (.powerUp free) (is ++ js)).transfer = some t' ∧ t'.job = t.job ∧
        (run Bench.step (.powerUp free) (is ++ js)).core.dmaState = .idle ∧
        t'.Copies (run Bench.step (.powerUp free) (is ++ js)).core) ∧
    ∀ (x : Bench w) (i : Inputs) (js : List Inputs), (x.mwb i).err = true → i.reset = false →
      (x.step i).core.cfgErr = true ∧
        (Always Bench.step (fun y _ => y.core.starts = false) (x.step i) js →
          (run Bench.step (x.step i) js).core.dmaState = .idle ∧
            (run Bench.step (x.step i) js).core.mwbCyc = false) := by
  have sane := sane_run (sane_powerUp free) timely
  refine ⟨sane.owned, fun t current => ⟨(sane.runs t current).copies, ?_⟩, fun x i js err reset => ?_⟩
  · obtain ⟨js, t', always, done, job, ends⟩ := sane.finishes current
    have later := sane_run sane (always.mono fun _ _ both => both.2)
    refine ⟨js, t', always, ?_⟩
    rw [Clocked.run_append]
    exact ⟨done, job, ends, (later.runs t' done).copies⟩
  · exact ⟨(Bench.step_err err).2 reset, Bench.quiet_run (Bench.step_err err).1⟩

/-- Two words in blocks of one, by a slave that answers three clocks late: they have been copied when the interrupt is
raised. An error in place of the second word ends the transfer. -/
theorem copies_exactly_two :
    let free : Wbdmac 12 := ⟨.idle, ⟨false, false, 0, 0⟩, false, false, 0, 0, 0, 0, false, false, 0, false, fun _ => 0,
      0, 0, 0, 0, false, false, false, false, false, false, false, 0, 0, 0, false⟩
    let quiet : Inputs := ⟨false, ⟨false, false, 0, 0⟩, 0, false, false, false, 0⟩
    let sets (a : BitVec 2) (d : BitVec 32) : Inputs := { quiet with swb := ⟨true, true, a, d⟩ }
    let answer (d : BitVec 32) : Inputs := { quiet with answer := true, data := d }
    let error : Inputs := { quiet with answer := true, fails := true }
    let begins := [sets 1 2, sets 2 0x40, sets 3 0x80, sets 0 0x0fed0001, quiet, quiet, quiet, quiet, quiet, quiet,
      answer 7, quiet, quiet, quiet, quiet, answer 0, quiet, quiet, quiet, quiet, quiet]
    let x := run Bench.step (.powerUp free) (begins ++ [answer 9, quiet, quiet, quiet, quiet, answer 0])
    let y := run Bench.step (.powerUp free) begins
    x.transfer.map Transfer.writes = some [(0x20, 7), (0x21, 9)] ∧ x.core.interrupt = true ∧
      (∀ t, x.transfer = some t → t.Copies x.core) ∧
    y.core.dmaState = .readAck ∧ y.transfer ≠ none ∧
      (run Bench.step (y.step error) [quiet, quiet]).core.dmaState = .idle := by
  intro free quiet sets answer error begins x y
  have whole := copies_exactly free (begins ++ [answer 9, quiet, quiet, quiet, quiet, answer 0]) (by decide)
  have part := copies_exactly free begins (by decide)
  refine ⟨by decide, by decide, fun t runs => (whole.2.1 t runs).1, by decide, part.1 (by decide), ?_⟩
  exact ((part.2.2 y error [quiet, quiet] (by decide) rfl).2 (by decide)).1

/-- All words of the block have been read, and the controller waits for another one. -/
structure Bench.Stuck (x : Bench w) : Prop where
  state : x.core.dmaState = .readAck
  outstanding : x.outstanding = 0
  all : x.core.nread + 1 ≠ x.core.nracks
  flag : x.core.lastReadAck = false
  abort : x.core.abort = false
  userHalt : x.core.userHalt = false
  patient : x.core.s.patient = true

theorem Bench.Stuck.step {x : Bench w} {i : Inputs} (stuck : x.Stuck) (patient : i.swb.patient = true)
    (reset : i.reset = false) : (x.step i).Stuck := by
  obtain ⟨state, outstanding, all, flag, abort, userHalt, before⟩ := stuck
  have silent : x.answered i = false := by simp [answered, outstanding]
  have none : x.mwb i = ⟨i.stall, false, false, i.data⟩ := by simp [mwb, silent]
  obtain ⟨aborts, halts⟩ := Wbdmac.not_aborted before
  have stb : x.core.mwbStb = false := by simp [Wbdmac.mwbStb, state]
  constructor
  case outstanding => simp [Bench.step, accepted, silent, outstanding, stb]
  case patient =>
    rw [core_step reset]
    exact patient
  all_goals
    rw [core_step reset, none]
    simp_all [Wbdmac.clock, Wbdmac.machine, Wbdmac.late, Wbdmac.mwbWe]

/-- One word in a block of 1024, by a slave that answers in the clock behind the acceptance: the word is read, nothing
is outstanding, and the controller never leaves the cycle. -/
theorem read_hangs :
    let free : Wbdmac 12 := ⟨.idle, ⟨false, false, 0, 0⟩, false, false, 0, 0, 0, 0, false, false, 0, false, fun _ => 0,
      0, 0, 0, 0, false, false, false, false, false, false, false, 0, 0, 0, false⟩
    let quiet : Inputs := ⟨false, ⟨false, false, 0, 0⟩, 0, false, false, false, 0⟩
    let sets (a : BitVec 2) (d : BitVec 32) : Inputs := { quiet with swb := ⟨true, true, a, d⟩ }
    let is := [sets 1 1, sets 2 0x40, sets 3 0x80, sets 0 0x0fed0000, quiet, quiet, quiet, quiet,
      { quiet with answer := true, data := 7 }]
    let x := run Bench.step (.powerUp free) is
    x.outstanding = 0 ∧ x.transfer.map Transfer.words = some [7] ∧
      ∀ js, Always Bench.step (fun _ j => j.swb.patient = true ∧ j.reset = false) x js →
        (run Bench.step x js).core.dmaState = .readAck := by
  intro free quiet sets is x
  have stuck : x.Stuck :=
    ⟨by decide, by decide, by decide, by decide, by decide, by decide, by decide⟩
  refine ⟨by decide, by decide, fun js always => ?_⟩
  have kept (y : Bench 12) (j : Inputs) (stuck : y.Stuck) (left : j.swb.patient = true ∧ j.reset = false) :
      (y.step j).Stuck := stuck.step left.1 left.2
  exact (Clocked.run_invariant kept stuck always).state

end IcoZip.Dma
