import IcoZip.Wbubus.Exec

/-! Runs of the executor and its FIFO.

Words that the popped commands ask for, requests that the slave accepts and
responses are counted. The counts agree in every state; what fails is that the
executor comes back: once the slave has answered a write, `o_busy` keeps the FIFO
from showing the codeword that would lower it.
-/

set_option autoImplicit false

namespace IcoZip.Wbubus

/-- The executor and what the FIFO has to show. -/
structure Bus where
  exec : Exec
  fifo : List (BitVec 36)
  deriving DecidableEq, Repr

structure BusInputs where
  /-- A codeword that enters the FIFO. -/
  push : Option (BitVec 36)
  /-- `o_data` of the FIFO while it is empty. -/
  stale : BitVec 36
  slave : Slave
  deriving DecidableEq, Repr

namespace Bus

/-- `fifo_in_stb`: not busy, and not empty. -/
def fifoInStb (x : Bus) : Bool := !x.exec.busy && !x.fifo.isEmpty

def front (x : Bus) (i : BusInputs) : BitVec 36 := x.fifo.headD i.stale

def step (x : Bus) (i : BusInputs) : Bus :=
  { exec := x.exec.wbuexec false x.fifoInStb (x.front i) i.slave
    fifo := (if x.fifoInStb then x.fifo.tail else x.fifo) ++ i.push.toList }

end Bus

/-- The requests that a codeword asks for. The decompressor makes no read of length 0; it would be one of
length 1. -/
def wordsOf (codeword : BitVec 36) : Nat :=
  if kind codeword = writePrefix then 1
  else if kind codeword = readPrefix then max 1 (readLength codeword).toNat
  else 0

namespace Exec

/-- The requests that the command in progress has still to make. -/
def remaining (s : Exec) : Nat :=
  if !s.wbStb then 0 else if s.wbWe then 1 else max 1 s.rLen.toNat

/-- The requests that the slave has accepted and not answered. -/
def outstanding (s : Exec) : Nat := if s.wbCyc then s.acksNeeded.toNat else 0

/-- Not idle, nothing outstanding, and nothing changes whatever the FIFO holds. -/
def Hung (s : Exec) : Prop :=
  s.wbState ≠ .idle ∧ s.outstanding = 0 ∧
    ∀ fifo i, i.slave.ack = false → i.slave.err = false →
      (Bus.step ⟨s, fifo⟩ i).exec.control = s.control ∧ (Bus.step ⟨s, fifo⟩ i).exec.outstanding = 0

/-- The slave answers only what it has accepted. -/
def Answering (s : Exec) (i : Slave) : Prop :=
  (i.ack || i.err) = true → 0 < s.outstanding ∨ s.requests i = true

/-- No write is answered, and no word of a read but its last is answered with an error. -/
def Smooth (s : Exec) (i : Slave) : Prop :=
  (i.ack || i.err) = true → s.wbWe = false ∧ (i.err = true → s.lastAck = true)

instance (s : Exec) (i : Slave) : Decidable (Answering s i) := inferInstanceAs (Decidable (_ → _))

instance (s : Exec) (i : Slave) : Decidable (Smooth s i) := inferInstanceAs (Decidable (_ → _))

/-! ### The executor between two clocks -/

structure Idle (s : Exec) : Prop where
  state : s.wbState = .idle
  cyc : s.wbCyc = false
  stb : s.wbStb = false
  busy : s.busy = false

structure Reading (s : Exec) : Prop where
  state : s.wbState = .readRequest
  cyc : s.wbCyc = true
  busy : s.busy = true
  we : s.wbWe = false
  done : s.wbStb = false → s.rLen = 0#10
  first : s.wbStb = true → s.rLen = 0#10 → s.acksNeeded = 0#10
  last : s.lastReadRequest = decide (s.rLen.toNat ≤ 1)
  single : s.singleReadRequest = true → s.rLen.toNat ≤ 1
  lastAck : s.lastAck = decide (s.remaining + s.acksNeeded.toNat ≤ 1)
  some : 1 ≤ s.remaining + s.acksNeeded.toNat
  bound : s.remaining + s.acksNeeded.toNat < 1024

structure Writing (s : Exec) : Prop where
  state : s.wbState = .writeRequest
  cyc : s.wbCyc = true
  busy : s.busy = true
  we : s.wbWe = true
  acks : s.acksNeeded = if s.wbStb then 0#10 else 1#10

variable {s : Exec} {iStb : Bool} {codeword : BitVec 36} {i : Slave}

theorem le_one_iff (n : BitVec 10) : n ≤ 1#10 ↔ n.toNat ≤ 1 := BitVec.le_def

theorem le_two_iff (n : BitVec 10) : n ≤ 2#10 ↔ n.toNat ≤ 2 := BitVec.le_def

theorem Idle.read (idle : Idle s) (read : kind codeword = readPrefix) :
    Reading (s.wbuexec false true codeword i) ∧
      (s.wbuexec false true codeword i).remaining = max 1 (readLength codeword).toNat ∧
      (s.wbuexec false true codeword i).acksNeeded = 0#10 := by
  obtain ⟨state, cyc, stb, busy⟩ := idle
  have top : codeword[35] = true := by
    have bit := congrArg (fun two : BitVec 2 => two.getLsbD 1) read
    simpa [kind, readPrefix] using bit
  have next : s.machine false true codeword i = (.readRequest, true, true, true) := by
    simp [machine, state, read, readPrefix, writePrefix]
  have length : (readLength codeword).toNat < 1024 := (readLength codeword).isLt
  have remaining : (s.wbuexec false true codeword i).remaining = max 1 (readLength codeword).toNat := by
    simp [Exec.remaining, wbuexec, next, state, top, cyc]
  have acks : (s.wbuexec false true codeword i).acksNeeded = 0#10 := by simp [wbuexec, cyc]
  refine ⟨?_, remaining, acks⟩
  constructor
  case state | cyc | busy => simp [wbuexec, next]
  case we => simp [wbuexec, state, top]
  case done => simp [wbuexec, next]
  case first => simp [acks]
  case last => simp [wbuexec, cyc, le_one_iff]
  case single => simp [wbuexec, cyc, le_one_iff]
  -- a read of one word, or of none, has its last word first
  case lastAck =>
    rw [remaining, acks]
    have single : max 1 (readLength codeword).toNat + (0#10).toNat ≤ 1 ↔ (readLength codeword).toNat ≤ 1 := by
      rw [BitVec.toNat_ofNat]
      omega
    simp only [wbuexec, cyc, read, readPrefix, le_one_iff, single, Bool.not_false, if_true, BEq.rfl, Bool.true_and]
  case some =>
    rw [remaining, acks]
    exact Nat.le_add_right_of_le (Nat.le_max_left 1 _)
  case bound =>
    rw [remaining, acks]
    simp
    omega

theorem Idle.write (idle : Idle s) (write : kind codeword = writePrefix) :
    Writing (s.wbuexec false true codeword i) ∧ (s.wbuexec false true codeword i).wbStb = true := by
  obtain ⟨state, cyc, stb, busy⟩ := idle
  have top : codeword[35] = false := by
    have bit := congrArg (fun two : BitVec 2 => two.getLsbD 1) write
    simpa [kind, writePrefix] using bit
  have next : s.machine false true codeword i = (.writeRequest, true, true, true) := by
    simp [machine, state, write]
  refine ⟨?_, by simp [wbuexec, next]⟩
  constructor <;> simp [wbuexec, next, state, top, cyc]

theorem Idle.stays (idle : Idle s) (none : iStb = true → wordsOf codeword = 0) :
    Idle (s.wbuexec false iStb codeword i) := by
  obtain ⟨state, cyc, stb, busy⟩ := idle
  have next : s.machine false iStb codeword i = (.idle, false, false, false) := by
    cases iStb with
    | false => simp [machine, state, busy]
    | true =>
      have nothing := none rfl
      unfold wordsOf at nothing
      split_ifs at nothing with write read
      · omega
      · simp [machine, state, busy, write, read]
  constructor <;> simp [wbuexec, next]

/-- The last request is the one that takes the strobe down. -/
theorem Reading.wbStb_next (reading : Reading s) (running : i.err = false) :
    (s.wbuexec false iStb codeword i).wbStb = (s.wbStb && !(s.requests i && decide (s.rLen.toNat ≤ 1))) := by
  have drop : (s.singleReadRequest || s.lastReadRequest) = decide (s.rLen.toNat ≤ 1) := by
    rw [reading.last]
    cases single : s.singleReadRequest with
    | false => simp
    | true => simp [reading.single single]
  have next : (s.machine false iStb codeword i).2.2.1 =
      if !i.stall && (s.singleReadRequest || s.lastReadRequest) then false else s.wbStb := by
    simp only [machine, reading.state, running, Bool.false_eq_true, if_false]
    cases i.ack && s.lastAck <;> rfl
  simp only [wbuexec, next, drop, requests]
  cases i.stall <;> cases s.wbStb <;> cases decide (s.rLen.toNat ≤ 1) <;> rfl

theorem Reading.rLen_next (reading : Reading s) :
    (s.wbuexec false iStb codeword i).rLen.toNat = s.rLen.toNat - (s.requests i).toNat := by
  simp only [wbuexec, reading.cyc]
  cases requests : s.requests i with
  | false => simp
  | true =>
    by_cases zero : s.rLen = 0#10
    · simp [zero]
    · have more : (s.rLen != 0#10) = true := by simpa using zero
      simp only [more, Bool.not_true, Bool.false_eq_true, if_false, Bool.and_self, if_true, Bool.toNat_true]
      bv_omega

/-- A clock moves what the slave accepts from what is to be requested to what is outstanding. -/
theorem Reading.remaining_next (reading : Reading s) (running : i.err = false) :
    (s.wbuexec false iStb codeword i).remaining + (s.requests i).toNat = s.remaining := by
  have we : (s.wbuexec false iStb codeword i).wbWe = false := by simp [wbuexec, reading.state, reading.we]
  rw [remaining, remaining, reading.wbStb_next running, we, reading.we, reading.rLen_next]
  cases stb : s.wbStb with
  | false => simp [requests, stb]
  | true =>
    cases requests : s.requests i with
    | false => simp
    | true =>
      by_cases few : s.rLen.toNat ≤ 1
      · simp [few]
      · simp [few]
        omega

theorem Reading.requests_le (reading : Reading s) : (s.requests i).toNat ≤ s.remaining := by
  cases requests : s.requests i with
  | false => exact Nat.zero_le _
  | true =>
    have stb : s.wbStb = true := (Bool.and_eq_true_iff.mp requests).1
    rw [remaining, stb, reading.we]
    exact Nat.le_max_left 1 _

theorem Reading.answered (reading : Reading s) (answering : Answering s i) (given : (i.ack || i.err) = true) :
    1 ≤ s.acksNeeded.toNat + (s.requests i).toNat := by
  rcases answering given with some | requests
  · rw [outstanding, reading.cyc] at some
    exact Nat.le_add_right_of_le some
  · rw [requests]
    exact Nat.le_add_left 1 _

theorem Reading.acks_next (reading : Reading s) (answering : Answering s i) :
    (s.wbuexec false iStb codeword i).acksNeeded.toNat + i.ack.toNat = s.acksNeeded.toNat + (s.requests i).toNat := by
  have bound := reading.bound
  have asked : (s.requests i).toNat ≤ s.remaining := reading.requests_le
  simp only [wbuexec, reading.cyc]
  cases ack : i.ack with
  | false =>
    cases requests : s.requests i with
    | false => simp
    | true =>
      rw [requests, Bool.toNat_true] at asked
      simp
      omega
  | true =>
    have some := reading.answered answering (by simp [ack])
    cases requests : s.requests i with
    | false =>
      rw [requests] at some
      simp at some ⊢
      bv_omega
    | true => simp

/-- No request is left, none is outstanding, and the strobe is still up: only before the first request. -/
theorem Reading.first_next (reading : Reading s) (answering : Answering s i) (running : i.err = false)
    (on : (s.wbuexec false iStb codeword i).wbStb = true) (zero : (s.wbuexec false iStb codeword i).rLen = 0#10) :
    (s.wbuexec false iStb codeword i).acksNeeded = 0#10 := by
  have open_ : (s.wbuexec false iStb codeword i).acksNeeded.toNat + i.ack.toNat =
      s.acksNeeded.toNat + (s.requests i).toNat := reading.acks_next answering
  have none : s.rLen.toNat - (s.requests i).toNat = 0 := by rw [← reading.rLen_next, zero]; rfl
  rw [reading.wbStb_next running, Bool.and_eq_true] at on
  have still : s.requests i = false := by
    cases requests : s.requests i with
    | false => rfl
    | true =>
      have long : ¬ s.rLen.toNat ≤ 1 := by simpa [requests] using on.2
      rw [requests, Bool.toNat_true] at none
      omega
  rw [still, Bool.toNat_false, Nat.sub_zero] at none
  have empty := reading.first on.1 (BitVec.eq_of_toNat_eq none)
  apply BitVec.eq_of_toNat_eq
  rw [still, empty] at open_
  simp at open_ ⊢
  omega

/-- The flag for the last acknowledgement counts the words that are left as the strobe and `r_len` show them. -/
theorem Reading.lastAck_next (reading : Reading s) : (s.wbuexec false iStb codeword i).lastAck =
    decide (s.remaining + s.acksNeeded.toNat ≤ 1 + i.ack.toNat) := by
  have flag : (s.wbuexec false iStb codeword i).lastAck =
      decide (s.rLen.toNat + s.acksNeeded.toNat ≤ 1 + i.ack.toNat) := by
    simp only [wbuexec, reading.cyc, reading.we]
    cases i.ack <;> simp
  rw [flag, decide_eq_decide]
  cases on : s.wbStb with
  | false => simp [remaining, on, reading.done on]
  | true =>
    by_cases zero : s.rLen = 0#10
    · simp [remaining, on, reading.we, zero, reading.first on zero]
    · have positive : 1 ≤ s.rLen.toNat := by bv_omega
      simp [remaining, on, reading.we, Nat.max_eq_right positive]

/-- The read goes on, or its last word is answered. -/
theorem Reading.step (reading : Reading s) (answering : Answering s i) (running : i.err = false)
    (more : (i.ack && s.lastAck) = false) : Reading (s.wbuexec false iStb codeword i) := by
  have left : (s.wbuexec false iStb codeword i).remaining + (s.requests i).toNat = s.remaining :=
    reading.remaining_next running
  have open_ : (s.wbuexec false iStb codeword i).acksNeeded.toNat + i.ack.toNat =
      s.acksNeeded.toNat + (s.requests i).toNat := reading.acks_next answering
  have stb : (s.wbuexec false iStb codeword i).wbStb = (s.wbStb && !(s.requests i && decide (s.rLen.toNat ≤ 1))) :=
    reading.wbStb_next running
  have length : (s.wbuexec false iStb codeword i).rLen.toNat = s.rLen.toNat - (s.requests i).toNat := reading.rLen_next
  have next : (s.machine false iStb codeword i) =
      (.readRequest, true, (s.machine false iStb codeword i).2.2.1, true) := by
    simp [machine, reading.state, running, more, reading.busy]
  have sum := reading.bound
  constructor
  case state | cyc | busy => rw [wbuexec, next]
  case we => simp [wbuexec, reading.state, reading.we]
  case done =>
    intro off
    rw [stb] at off
    apply BitVec.eq_of_toNat_eq
    rw [length]
    cases on : s.wbStb with
    | false => simp [reading.done on]
    | true =>
      obtain ⟨requests, few⟩ : s.requests i = true ∧ s.rLen.toNat ≤ 1 := by simpa [on] using off
      rw [requests]
      simp
      omega
  case first => exact reading.first_next answering running
  case last =>
    rw [length]
    simp only [wbuexec, reading.cyc, le_one_iff, le_two_iff]
    cases s.requests i <;> simp
  case single =>
    intro single
    have before : s.singleReadRequest = true := by simpa [wbuexec, reading.cyc] using single
    have few := reading.single before
    omega
  case lastAck =>
    rw [reading.lastAck_next, decide_eq_decide]
    omega
  -- an acknowledgement that is not the last leaves a word to be answered
  case some =>
    cases ack : i.ack with
    | false =>
      rw [ack] at open_
      have some := reading.some
      simp at open_
      omega
    | true =>
      have long : ¬ s.remaining + s.acksNeeded.toNat ≤ 1 := by
        have last : s.lastAck = false := by simpa [ack] using more
        simpa [reading.lastAck] using last
      rw [ack] at open_
      simp at open_
      omega
  case bound => omega

/-- The answer to the last word, or an error, ends the read. -/
theorem Reading.ends (reading : Reading s) (answering : Answering s i) (ended : i.err = true ∨
    (i.ack && s.lastAck) = true) :
    Idle (s.wbuexec false iStb codeword i) := by
  cases err : i.err with
  | true => constructor <;> simp [wbuexec, machine, reading.state, err]
  | false =>
    have last : (i.ack && s.lastAck) = true := by simpa [err] using ended
    obtain ⟨ack, lastAck⟩ := Bool.and_eq_true_iff.mp last
    have few : s.remaining + s.acksNeeded.toNat ≤ 1 := by simpa [reading.lastAck] using lastAck
    have left : (s.wbuexec false iStb codeword i).remaining + (s.requests i).toNat = s.remaining :=
      reading.remaining_next err
    have some := reading.answered answering (by simp [ack])
    have asked : (s.requests i).toNat ≤ s.remaining := reading.requests_le
    have next : (s.machine false iStb codeword i) = (.idle, false, (s.machine false iStb codeword i).2.2.1, false) := by
      simp [machine, reading.state, err, ack, lastAck]
    have we : (s.wbuexec false iStb codeword i).wbWe = false := by simp [wbuexec, reading.state, reading.we]
    constructor
    case state | cyc | busy => rw [wbuexec, next]
    case stb =>
      cases stb : (s.wbuexec false iStb codeword i).wbStb with
      | false => rfl
      | true =>
        -- a strobe would be for a word that has not been requested
        rw [remaining, stb, we] at left
        simp at left
        omega

theorem Writing.step (writing : Writing s) (quiet : (i.ack || i.err) = false) :
    Writing (s.wbuexec false false codeword i) ∧
      (s.wbuexec false false codeword i).wbStb = (s.wbStb && !s.requests i) := by
  obtain ⟨ack, err⟩ := Bool.or_eq_false_iff.mp quiet
  obtain ⟨state, cyc, busy, we, acks⟩ := writing
  have next : s.machine false false codeword i = (.writeRequest, true, s.wbStb && !s.requests i, true) := by
    simp only [machine, state, err, requests]
    cases i.stall <;> cases s.wbStb <;> simp
  refine ⟨?_, by simp [wbuexec, next]⟩
  constructor
  case state | cyc | busy => simp [wbuexec, next]
  case we => simp [wbuexec, state, we]
  case acks =>
    have stb : (s.wbuexec false false codeword i).wbStb = (s.wbStb && !s.requests i) := by simp [wbuexec, next]
    rw [stb]
    simp only [wbuexec, cyc, ack, acks]
    cases on : s.wbStb <;> cases stall : i.stall <;> simp [requests, on, stall]

/-- A busy executor that waits for a codeword, with nothing left on the bus. -/
theorem hung_of_waiting (busy : s.busy = true) (stb : s.wbStb = false)
    (waiting : s.wbState = .writeRequest ∧ s.wbCyc = true ∧ s.acksNeeded = 0#10 ∨
      s.wbState = .flushWriteRequests ∧ s.wbCyc = false) : Hung s := by
  have outstanding : s.outstanding = 0 := by
    rcases waiting with ⟨-, -, acks⟩ | ⟨-, cyc⟩
    · simp [Exec.outstanding, acks]
    · simp [Exec.outstanding, cyc]
  refine ⟨?_, outstanding, fun fifo i ack err => ?_⟩
  · rcases waiting with ⟨state, -⟩ | ⟨state, -⟩ <;> rw [state] <;> decide
  · -- the FIFO is not read, since the executor is busy
    have closed : (Bus.mk s fifo).fifoInStb = false := by simp [Bus.fifoInStb, busy]
    rcases waiting with ⟨state, cyc, acks⟩ | ⟨state, cyc⟩
    · simp [Bus.step, closed, control, Exec.outstanding, wbuexec, machine, requests, state, cyc, acks, stb, busy, ack,
        err]
    · simp [Bus.step, closed, control, Exec.outstanding, wbuexec, machine, state, cyc, stb, busy]

/-- The answer to a write leaves the executor waiting. -/
theorem Writing.hung (writing : Writing s) (answering : Answering s i) (given : (i.ack || i.err) = true) :
    Hung (s.wbuexec false false codeword i) := by
  obtain ⟨state, cyc, busy, we, acks⟩ := writing
  cases err : i.err with
  | true =>
    have next : s.machine false false codeword i = (.flushWriteRequests, false, false, true) := by
      simp [machine, state, err]
    apply hung_of_waiting <;> simp [wbuexec, next]
  | false =>
    have ack : i.ack = true := by simpa [err] using given
    have stb : (s.wbStb && !s.requests i) = false := by
      cases on : s.wbStb with
      | false => rfl
      | true =>
        rcases answering given with some | requests
        · simp [Exec.outstanding, acks, on] at some
        · simp [requests]
    have next : s.machine false false codeword i = (.writeRequest, true, false, true) := by
      have drop : (if !i.stall then false else s.wbStb) = (s.wbStb && !s.requests i) := by
        cases on : s.wbStb <;> cases stall : i.stall <;> simp [requests, on, stall]
      simp only [machine, state, err, Bool.false_eq_true, if_false, drop, stb, Bool.false_and]
    have none : (s.wbuexec false false codeword i).acksNeeded = 0#10 := by
      simp only [wbuexec, cyc, ack, acks]
      cases on : s.wbStb with
      | false => simp [requests, on]
      | true =>
        have requests : s.requests i = true := by simpa [on] using stb
        simp [requests]
    refine hung_of_waiting ?_ ?_ (.inl ⟨?_, ?_, none⟩) <;> simp [wbuexec, next]

/-- A request that can be accepted is not the end. -/
theorem not_hung_of_strobe (stb : s.wbStb = true) (acks : s.acksNeeded = 0#10)
    (state : (s.wbState = .readRequest ∨ s.wbState = .writeRequest) ∧ s.wbCyc = true) : ¬ Hung s := by
  rintro ⟨-, -, still⟩
  have next := (still [] ⟨none, 0, ⟨false, false, false, 0⟩⟩ rfl rfl).2
  obtain ⟨state | state, cyc⟩ := state <;>
    simp [Bus.step, Bus.fifoInStb, Exec.outstanding, wbuexec, machine, requests, state, cyc, stb, acks] at next

theorem Reading.not_hung (reading : Reading s) : ¬ Hung s := by
  intro hung
  have none : s.acksNeeded.toNat = 0 := by simpa [Exec.outstanding, reading.cyc] using hung.2.1
  have stb : s.wbStb = true := by
    cases stb : s.wbStb with
    | true => rfl
    | false => simpa [remaining, stb, none] using reading.some
  exact not_hung_of_strobe stb (BitVec.eq_of_toNat_eq none) ⟨.inl reading.state, reading.cyc⟩ hung

theorem Writing.not_hung (writing : Writing s) : ¬ Hung s := by
  intro hung
  have none : s.acksNeeded.toNat = 0 := by simpa [Exec.outstanding, writing.cyc] using hung.2.1
  have stb : s.wbStb = true := by
    cases stb : s.wbStb with
    | true => rfl
    | false => simp [writing.acks, stb] at none
  exact not_hung_of_strobe stb (BitVec.eq_of_toNat_eq none) ⟨.inr writing.state, writing.cyc⟩ hung

theorem Idle.not_hung (idle : Idle s) : ¬ Hung s := fun hung => hung.1 idle.state

/-- Between two clocks, as long as no write has been answered. -/
def Regular (s : Exec) : Prop := Idle s ∨ Reading s ∨ Writing s

theorem Regular.not_hung (regular : Regular s) : ¬ Hung s := by
  rcases regular with idle | reading | writing
  · exact idle.not_hung
  · exact reading.not_hung
  · exact writing.not_hung

theorem Regular.idle (regular : Regular s) (remaining : s.remaining = 0)
    (outstanding : s.outstanding = 0) : Idle s := by
  rcases regular with idle | reading | writing
  · exact idle
  · have some := reading.some
    rw [Exec.outstanding, reading.cyc, if_pos rfl] at outstanding
    omega
  · rw [Exec.outstanding, writing.cyc, if_pos rfl, writing.acks] at outstanding
    cases stb : s.wbStb with
    | true => simp [Exec.remaining, stb, writing.we] at remaining
    | false => simp [stb] at outstanding

theorem Idle.remaining_eq (idle : Idle s) : s.remaining = 0 := by simp [remaining, idle.stb]

theorem Idle.outstanding_eq (idle : Idle s) : s.outstanding = 0 := by simp [outstanding, idle.cyc]

/-- What is popped is what remains to be requested. -/
theorem Idle.pops (idle : Idle s) (iStb : Bool) (codeword : BitVec 36) (i : Slave) :
    Regular (s.wbuexec false iStb codeword i) ∧
      (s.wbuexec false iStb codeword i).remaining = (if iStb then wordsOf codeword else 0) ∧
      (s.wbuexec false iStb codeword i).outstanding = 0 := by
  have acks : (s.wbuexec false iStb codeword i).acksNeeded = 0#10 := by simp [wbuexec, idle.cyc]
  have outstanding : (s.wbuexec false iStb codeword i).outstanding = 0 := by simp [Exec.outstanding, acks]
  by_cases none : iStb = true → wordsOf codeword = 0
  · have next := idle.stays (i := i) none
    refine ⟨.inl next, ?_, outstanding⟩
    rw [next.remaining_eq]
    split_ifs with stb
    · exact (none stb).symm
    · rfl
  · obtain ⟨rfl, some⟩ := Classical.not_imp.mp none
    by_cases write : kind codeword = writePrefix
    · obtain ⟨writing, stb⟩ := idle.write (i := i) write
      refine ⟨.inr (.inr writing), ?_, outstanding⟩
      simp [Exec.remaining, stb, writing.we, wordsOf, write]
    · by_cases read : kind codeword = readPrefix
      · obtain ⟨reading, remaining, -⟩ := idle.read (i := i) read
        refine ⟨.inr (.inl reading), ?_, outstanding⟩
        rw [remaining, if_pos rfl, wordsOf, if_neg write, if_pos read]
      · exact absurd (by rw [wordsOf, if_neg write, if_neg read]) some

end Exec

/-! ### Counting -/

structure Tally where
  /-- The requests that the popped codewords ask for. -/
  words : Nat
  requests : Nat
  responses : List (BitVec 36)
  deriving DecidableEq, Repr

abbrev Counted := Bus × Tally

namespace Counted

open Exec

def step (x : Counted) (i : BusInputs) : Counted :=
  let next := x.1.step i
  (next,
    { words := x.2.words + if x.1.fifoInStb then wordsOf (x.1.front i) else 0
      requests := x.2.requests + (x.1.exec.requests i.slave).toNat
      responses := x.2.responses ++ if x.1.exec.wbCyc && next.exec.stb then [next.exec.codword] else [] })

/-- Every word has been requested or is to be requested, every request has been answered or is
outstanding, the executor is not hung, and once everything is answered the next codeword is popped. -/
structure Executes (x : Counted) : Prop where
  requested : x.2.words = x.2.requests + x.1.exec.remaining
  answered : x.2.requests = x.2.responses.length + x.1.exec.outstanding
  moving : ¬ Hung x.1.exec
  ready : x.2.responses.length = x.2.words → x.1.exec.wbCyc = false ∧ x.1.fifoInStb = !x.1.fifo.isEmpty

variable {x : Counted} {i : BusInputs}

theorem responses_length : (x.step i).2.responses.length =
    x.2.responses.length + (x.1.exec.wbCyc && (i.slave.ack || i.slave.err)).toNat := by
  cases cyc : x.1.exec.wbCyc with
  | false => simp [step, cyc]
  | true =>
    have stb : (x.1.step i).exec.stb = (i.slave.err || i.slave.ack) := by simp [Bus.step, wbuexec, cyc]
    simp only [step, cyc, stb, Bool.true_and, List.length_append]
    cases i.slave.ack <;> cases i.slave.err <;> rfl

/-- In a regular state the counts are all there is to show. -/
theorem executes_of (regular : Regular x.1.exec) (requested : x.2.words = x.2.requests + x.1.exec.remaining)
    (answered : x.2.requests = x.2.responses.length + x.1.exec.outstanding) : Executes x := by
  refine ⟨requested, answered, regular.not_hung, fun all => ?_⟩
  have idle := regular.idle (by omega) (by omega)
  exact ⟨idle.cyc, by simp [Bus.fifoInStb, idle.busy]⟩

theorem idle_step (idle : Idle x.1.exec) (answering : Answering x.1.exec i.slave) (executes : Executes x) :
    Smooth x.1.exec i.slave ∧ Regular (x.step i).1.exec ∧ Executes (x.step i) := by
  have off (given : (i.slave.ack || i.slave.err) = true) : False := by
    rcases answering given with some | asked
    · rw [idle.outstanding_eq] at some
      exact absurd some (by decide)
    · simp [Exec.requests, idle.stb] at asked
  have pops := idle.pops x.1.fifoInStb (x.1.front i) i.slave
  obtain ⟨requested, answered, -, -⟩ := executes
  rw [idle.remaining_eq] at requested
  rw [idle.outstanding_eq] at answered
  have requests : x.1.exec.requests i.slave = false := by simp [Exec.requests, idle.stb]
  refine ⟨fun given => (off given).elim, pops.1, executes_of pops.1 ?_ ?_⟩
  · have remaining := pops.2.1
    simp only [step, Bus.step, requests, Bool.toNat_false] at remaining ⊢
    omega
  · have outstanding := pops.2.2
    rw [responses_length, idle.cyc]
    simp only [step, Bus.step, requests, Bool.toNat_false, Bool.false_and] at outstanding ⊢
    omega

/-- While the executor is busy nothing is popped. -/
theorem busy_step (busy : x.1.exec.busy = true) :
    (x.step i).1.exec = x.1.exec.wbuexec false false (x.1.front i) i.slave ∧ (x.step i).2.words = x.2.words := by
  have closed : x.1.fifoInStb = false := by simp [Bus.fifoInStb, busy]
  constructor
  · simp [step, Bus.step, closed]
  · simp [step, closed]

/-- The last word is answered, or an error ends the read before it. -/
theorem reading_ends (reading : Reading x.1.exec) (answering : Answering x.1.exec i.slave) (executes : Executes x)
    (ended : i.slave.err = true ∨ (i.slave.ack && x.1.exec.lastAck) = true) :
    Idle (x.step i).1.exec ∧ (Executes (x.step i) ↔ Smooth x.1.exec i.slave) := by
  obtain ⟨requested, answered, -, -⟩ := executes
  obtain ⟨exec, words⟩ := busy_step (i := i) reading.busy
  have requests : (x.step i).2.requests = x.2.requests + (x.1.exec.requests i.slave).toNat := rfl
  have length := responses_length (x := x) (i := i)
  have open_ : x.1.exec.outstanding = x.1.exec.acksNeeded.toNat := by simp [Exec.outstanding, reading.cyc]
  have given : (i.slave.ack || i.slave.err) = true := by
    rcases ended with err | last
    · simp [err]
    · simp [(Bool.and_eq_true_iff.mp last).1]
  have idle : Idle (x.step i).1.exec := by
    rw [exec]
    exact reading.ends answering ended
  have some := reading.answered answering given
  have asked : (x.1.exec.requests i.slave).toNat ≤ x.1.exec.remaining := reading.requests_le
  rw [reading.cyc, Bool.true_and, given, Bool.toNat_true] at length
  refine ⟨idle, fun next => ?_, fun smooth => ?_⟩
  · -- the counts agree only if this was the last word
    have left := next.requested
    have done := next.answered
    rw [idle.remaining_eq] at left
    rw [idle.outstanding_eq] at done
    have last : x.1.exec.remaining + x.1.exec.acksNeeded.toNat ≤ 1 := by omega
    exact fun _ => ⟨reading.we, fun _ => by simp [reading.lastAck, last]⟩
  · have last : x.1.exec.lastAck = true := by
      rcases ended with err | last
      · exact (smooth given).2 err
      · exact (Bool.and_eq_true_iff.mp last).2
    rw [reading.lastAck, decide_eq_true_eq] at last
    have one := reading.some
    refine executes_of (.inl idle) ?_ ?_
    · rw [idle.remaining_eq]
      omega
    · rw [idle.outstanding_eq]
      omega

/-- A clock in the middle of a read keeps the counts. -/
theorem reading_runs (reading : Reading x.1.exec) (answering : Answering x.1.exec i.slave) (executes : Executes x)
    (running : i.slave.err = false) (more : (i.slave.ack && x.1.exec.lastAck) = false) :
    Reading (x.step i).1.exec ∧ Executes (x.step i) := by
  obtain ⟨requested, answered, -, -⟩ := executes
  obtain ⟨exec, words⟩ := busy_step (i := i) reading.busy
  have requests : (x.step i).2.requests = x.2.requests + (x.1.exec.requests i.slave).toNat := rfl
  have length := responses_length (x := x) (i := i)
  have open_ : x.1.exec.outstanding = x.1.exec.acksNeeded.toNat := by simp [Exec.outstanding, reading.cyc]
  have next : Reading (x.step i).1.exec := by
    rw [exec]
    exact reading.step answering running more
  have left := @Reading.remaining_next _ false (x.1.front i) _ reading running
  have acks := @Reading.acks_next _ false (x.1.front i) _ reading answering
  have open' : (x.step i).1.exec.outstanding = (x.step i).1.exec.acksNeeded.toNat := by
    simp [Exec.outstanding, next.cyc]
  rw [← exec] at left acks
  rw [reading.cyc, Bool.true_and, running, Bool.or_false] at length
  refine ⟨next, executes_of (.inr (.inl next)) ?_ ?_⟩
  · omega
  · omega

theorem reading_step (reading : Reading x.1.exec) (answering : Answering x.1.exec i.slave) (executes : Executes x) :
    (Smooth x.1.exec i.slave → Regular (x.step i).1.exec) ∧ (Executes (x.step i) ↔ Smooth x.1.exec i.slave) := by
  by_cases ended : i.slave.err = true ∨ (i.slave.ack && x.1.exec.lastAck) = true
  · obtain ⟨idle, same⟩ := reading_ends reading answering executes ended
    exact ⟨fun _ => .inl idle, same⟩
  · obtain ⟨running, more⟩ : i.slave.err = false ∧ (i.slave.ack && x.1.exec.lastAck) = false := by
      simpa [not_or] using ended
    obtain ⟨next, done⟩ := reading_runs reading answering executes running more
    have smooth : Smooth x.1.exec i.slave := fun _ => ⟨reading.we, fun err => by simp [running] at err⟩
    exact ⟨fun _ => .inr (.inl next), iff_of_true done smooth⟩

theorem writing_step (writing : Writing x.1.exec) (answering : Answering x.1.exec i.slave) (executes : Executes x) :
    (Smooth x.1.exec i.slave → Regular (x.step i).1.exec) ∧ (Executes (x.step i) ↔ Smooth x.1.exec i.slave) := by
  obtain ⟨requested, answered, -, -⟩ := executes
  obtain ⟨exec, words⟩ := busy_step (i := i) writing.busy
  cases given : i.slave.ack || i.slave.err with
  | true =>
    have rough : ¬ Smooth x.1.exec i.slave := fun smooth => by simpa [writing.we] using (smooth given).1
    refine ⟨fun smooth => absurd smooth rough, iff_of_false (fun next => next.moving ?_) rough⟩
    rw [exec]
    exact writing.hung answering given
  | false =>
    obtain ⟨next, stb⟩ := @Writing.step _ (x.1.front i) _ writing given
    rw [← exec] at next stb
    have length := responses_length (x := x) (i := i)
    have smooth : Smooth x.1.exec i.slave := fun answer => by simp [given] at answer
    rw [given, Bool.and_false, Bool.toNat_false] at length
    have requests : (x.step i).2.requests = x.2.requests + (x.1.exec.requests i.slave).toNat := rfl
    refine ⟨fun _ => .inr (.inr next), iff_of_true (executes_of (.inr (.inr next)) ?_ ?_) smooth⟩
    · rw [words, requests, requested, remaining, remaining, stb, next.we, writing.we]
      cases on : x.1.exec.wbStb <;> cases stall : i.slave.stall <;> simp [Exec.requests, on, stall]
    · rw [requests, length, answered, outstanding, outstanding, next.cyc, writing.cyc, next.acks, writing.acks, stb]
      cases on : x.1.exec.wbStb <;> cases stall : i.slave.stall <;> simp [Exec.requests, on, stall]

/-- The executor with the FIFO's contents, before its first clock. -/
def start (s : Exec) (fifo : List (BitVec 36)) : Counted :=
  (⟨{ s with wbState := .idle, wbCyc := false, wbStb := false, busy := false, stb := false, rNewAddr := true }, fifo⟩,
    ⟨0, 0, []⟩)

/-- Behind a slave that answers what it has accepted, every command is executed and the next codeword is
popped exactly if no write is answered and only the last word of a read with an error. -/
theorem executes_iff (s : Exec) (fifo : List (BitVec 36)) (is : List BusInputs)
    (slave : Clocked.Always step (fun x i => Answering x.1.exec i.slave) (start s fifo) is) :
    (∀ before, before <+: is → Executes (Clocked.run step (start s fifo) before)) ↔
      Clocked.Always step (fun x i => Smooth x.1.exec i.slave) (start s fifo) is := by
  have idle : Idle (start s fifo).1.exec := ⟨rfl, rfl, rfl, rfl⟩
  have first : Executes (start s fifo) := by
    refine executes_of (.inl idle) ?_ ?_
    · rw [idle.remaining_eq]
      rfl
    · rw [idle.outstanding_eq]
      rfl
  have clock (x : Counted) (i : BusInputs) (regular : Regular x.1.exec) (answering : Answering x.1.exec i.slave)
      (executes : Executes x) : (Smooth x.1.exec i.slave → Regular (x.step i).1.exec) ∧
        (Executes (x.step i) ↔ Smooth x.1.exec i.slave) := by
    -- popping, reading, or stuck in a write
    rcases regular with idle | reading | writing
    · obtain ⟨smooth, next, done⟩ := idle_step idle answering executes
      exact ⟨fun _ => next, iff_of_true done smooth⟩
    · exact reading_step reading answering executes
    · exact writing_step writing answering executes
  refine @Clocked.always_iff_of _ _ step _ (fun x => Regular x.1.exec ∧ Executes x) _ _ ?_ ?_ _ _ slave
      ⟨.inl idle, first⟩ first
  · intro x i sound answering smooth
    obtain ⟨next, done⟩ := clock x i sound.1 answering sound.2
    exact ⟨next smooth, done.mpr smooth⟩
  · intro x i sound answering executes
    exact (clock x i sound.1 answering executes).2

def blank : Exec := ⟨.idle, false, false, false, false, 0, 0, false, 0, 0, 0, false, false, false, false, false, false⟩

/-- A clock of the slave: stalling, answering. -/
def reply (stall ack : Bool) : BusInputs := ⟨none, 0, ⟨stall, ack, false, 7⟩⟩

/-- A read of three words from a slave that stalls, answers at once, and answers late. -/
def readThree : List BusInputs :=
  [reply false false, reply true false, reply false true, reply false false, reply false true, reply false true,
    reply false false]

theorem executes_readThree :
    (∀ before, before <+: readThree → Executes (Clocked.run step (start blank [0xc40000003, 0x000000004]) before)) ↔
      Clocked.Always step (fun x i => Smooth x.1.exec i.slave) (start blank [0xc40000003, 0x000000004]) readThree :=
  executes_iff blank [0xc40000003, 0x000000004] readThree (by decide +kernel)

/-- A write that is accepted, and acknowledged a clock later. -/
def writeOne : List BusInputs := [reply false false, reply false false, reply false true]

/-- A write, then the end of writing: the write is executed, and the codeword behind it is never popped. -/
theorem write_hangs :
    Clocked.Always step (fun x i => Answering x.1.exec i.slave) (start blank [0x400000005, 0xb80000000]) writeOne ∧
    (Clocked.run step (start blank [0x400000005, 0xb80000000]) writeOne).1.fifo = [0xb80000000] ∧
    Hung (Clocked.run step (start blank [0x400000005, 0xb80000000]) writeOne).1.exec ∧
    ¬ ∀ before, before <+: writeOne →
      Executes (Clocked.run step (start blank [0x400000005, 0xb80000000]) before) := by
  have hung : Hung (Clocked.run step (start blank [0x400000005, 0xb80000000]) writeOne).1.exec :=
    hung_of_waiting (by decide +kernel) (by decide +kernel) (.inl (by decide +kernel))
  exact ⟨by decide +kernel, by decide +kernel, hung, fun executes =>
    (executes writeOne (List.prefix_refl _)).moving hung⟩

end Counted

end IcoZip.Wbubus
