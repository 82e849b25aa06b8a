import IcoZip.Console.Registers

/-! Reading `RXREG`.

A mailbox runs beside the port: it holds the character that arrived last until a
read returns it. A read is looked up in the mailbox a clock after its strobe,
when the port fetches the answer. By then the strobe has cleared `r_rx_fifo_full`
and the error flag, so a read finds the character only if it arrives with the
strobe.
-/

set_option autoImplicit false

namespace IcoZip.Console

/-- What became of the characters since the last reset. -/
structure Mailbox where
  /-- `RXREG` was strobed for reading in the last clock. -/
  made : Bool
  unread : Option (BitVec 7)
  /-- A character was overwritten, and no read has returned the error bit since. -/
  owed : Bool
  arrived : List (BitVec 7)
  /-- The characters that the mailbox no longer holds, and whether they were returned. -/
  gone : List (BitVec 7 × Bool)
  /-- What acknowledged reads without the empty bit have returned. -/
  returned : List (BitVec 7)
  deriving DecidableEq, Repr

namespace Mailbox

def empty : Mailbox := ⟨false, none, false, [], [], []⟩

/-- The answer is empty exactly if nothing is unread, returns what is unread, and reports what is owed. -/
def Fits (m : Mailbox) (word : BitVec 32) : Prop :=
  m.unread = (if rxEmpty word then none else some (rxChar word)) ∧ (m.owed = true → rxError word = true)

instance (m : Mailbox) : DecidablePred m.Fits := fun _ => inferInstanceAs (Decidable (_ = _ ∧ _))

def answered (m : Mailbox) : Option (BitVec 32) → Mailbox
  | none => m
  | some word =>
      if rxEmpty word then { m with owed := m.owed && !rxError word }
      else
        { m with
          unread := none
          owed := m.owed && !rxError word
          gone := m.gone ++ m.unread.toList.map (·, true)
          returned := m.returned ++ [rxChar word] }

def arrives (m : Mailbox) (char : BitVec 7) : Mailbox :=
  { m with
    unread := some char
    owed := m.owed || m.unread.isSome
    arrived := m.arrived ++ [char]
    gone := m.gone ++ m.unread.toList.map (·, false) }

/-- The characters that were not overwritten before they were read. -/
def survivors (m : Mailbox) : List (BitVec 7) := (m.gone.filter (·.2)).map (·.1)

end Mailbox

/-- The port with its mailbox. -/
abbrev Watched := Registers × Mailbox

namespace Watched

/-- The answer to a read of `RXREG`, if it is acknowledged. -/
def answer (x : Watched) (i : Inputs) : Option (BitVec 32) :=
  if x.2.made && (x.1.clock i).wbAck then some (x.1.clock i).wbData else none

/-- The mailbox after the read of the last clock. -/
def settled (x : Watched) (i : Inputs) : Mailbox := x.2.answered (x.answer i)

def step (x : Watched) (i : Inputs) : Watched :=
  (x.1.clock i,
    if i.reset then .empty
    else
      let m := if i.consoleStb then (x.settled i).arrives i.consoleData else x.settled i
      { m with made := i.reads })

/-- An acknowledged read answers for the mailbox. -/
def Answers (x : Watched) (i : Inputs) : Prop := ∀ word ∈ x.answer i, x.2.Fits word

/-- A character arrives with the strobe of a read, or the read finds none unread. -/
def Met (x : Watched) (i : Inputs) : Prop :=
  i.reads = true → i.consoleStb = true ∨ (x.settled i).unread = none

instance (x : Watched) (i : Inputs) : Decidable (Answers x i) :=
  Option.decidableForallMem (x.answer i)

instance (x : Watched) (i : Inputs) : Decidable (Met x i) := inferInstanceAs (Decidable (_ → _))

/-- What the port holds is unread, what is owed is behind it, and every character is accounted for. -/
structure Tidy (s : Registers) (m : Mailbox) : Prop where
  unread : ∀ char ∈ m.unread, s.rxFifoFull = true ∧ s.rxFifoData = char
  owed : m.owed = true → m.unread ≠ none
  arrived : m.arrived = m.gone.map (·.1) ++ m.unread.toList
  returned : m.returned = m.survivors

/-- A read that has been made finds what the mailbox holds. -/
structure Kept (x : Watched) : Prop where
  tidy : Tidy x.1 x.2
  addressed : x.2.made = true → x.1.rWbAddr = rxreg
  full : x.2.made = true → x.2.unread = none → x.1.rxFifoFull = false
  reported : x.2.made = true → x.2.owed = true → x.1.rxFifoErr = true

theorem tidy_empty (s : Registers) : Tidy s .empty := by
  constructor <;> simp [Mailbox.empty, Mailbox.survivors]

theorem Tidy.arrives {s : Registers} {m : Mailbox} (tidy : Tidy s m) {i : Inputs} (running : i.reset = false)
    (arrival : i.consoleStb = true) : Tidy (s.clock i) (m.arrives i.consoleData) := by
  obtain ⟨-, -, arrived, returned⟩ := tidy
  refine ⟨?_, ?_, ?_, ?_⟩
  · simp [Mailbox.arrives, Registers.clock, running, arrival]
  · simp [Mailbox.arrives]
  · cases held : m.unread <;> simp [Mailbox.arrives, arrived, held]
  · rw [Mailbox.survivors] at returned
    cases held : m.unread <;> simp [Mailbox.arrives, Mailbox.survivors, held, returned]

/-- Without an arrival a strobe that finds nothing unread does no harm. -/
theorem Tidy.stays {s : Registers} {m : Mailbox} (tidy : Tidy s m) {i : Inputs} (running : i.reset = false)
    (still : i.consoleStb = false) (met : i.reads = true → m.unread = none) (made : Bool) :
    Tidy (s.clock i) { m with made := made } := by
  refine ⟨fun char held => ?_, tidy.owed, tidy.arrived, tidy.returned⟩
  obtain ⟨full, data⟩ := tidy.unread char held
  have unread : i.reads = false := by
    cases reads : i.reads with
    | false => rfl
    | true =>
      rw [Option.mem_def, met reads] at held
      exact absurd held (by simp)
  rw [Inputs.reads] at unread
  simp only [Registers.clock, running, still, unread, Bool.false_eq_true, if_false]
  exact ⟨full, data⟩

namespace Kept

variable {x : Watched} {i : Inputs} (kept : Kept x)
include kept

theorem answer {word : BitVec 32} (given : word ∈ x.answer i) : x.2.made = true ∧ word = x.1.wbRxData := by
  unfold Watched.answer at given
  split_ifs at given with ack
  · obtain ⟨made, -⟩ := Bool.and_eq_true_iff.mp ack
    have addr := kept.addressed made
    refine ⟨made, ?_⟩
    rw [← Option.mem_some.mp given]
    simp [Registers.clock, addr, setup, fifo, rxreg]
  · simp at given

theorem answers : Answers x i := by
  intro word given
  obtain ⟨made, rfl⟩ := kept.answer given
  rw [Mailbox.Fits, rxEmpty_wbRxData, rxChar_wbRxData, rxError_wbRxData]
  refine ⟨?_, kept.reported made⟩
  cases held : x.2.unread with
  | none => simp [kept.full made held]
  | some char => simp [kept.tidy.unread char held]

/-- The answer leaves things tidy: it returns what is unread, and with it what is owed. -/
theorem settled : Tidy x.1 (x.settled i) := by
  obtain ⟨unread, owed, arrived, returned⟩ := kept.tidy
  cases given : x.answer i with
  | none =>
    rw [Watched.settled, given]
    exact kept.tidy
  | some word =>
    obtain ⟨holds, report⟩ := kept.answers word given
    rw [Watched.settled, given, Mailbox.answered]
    have quit : (x.2.owed && !rxError word) = false := by
      cases due : x.2.owed with
      | false => rfl
      | true => simp [report due]
    rw [quit]
    split_ifs at holds ⊢
    · exact ⟨unread, by simp, arrived, returned⟩
    · refine ⟨by simp, by simp, ?_, ?_⟩
      · simp [arrived, holds]
      · rw [Mailbox.survivors] at returned
        simp [Mailbox.survivors, holds, returned]

theorem step (met : Met x i) : Kept (x.step i) := by
  cases running : i.reset with
  | true =>
    have next : (x.step i).2 = .empty := by simp [Watched.step, running]
    refine ⟨?_, ?_, ?_, ?_⟩
    · rw [next]
      exact tidy_empty _
    all_goals simp [next, Mailbox.empty]
  | false =>
    have before := kept.settled (i := i)
    have strobe : i.reads = true → i.addr = rxreg := by simp +contextual [Inputs.reads]
    cases arrival : i.consoleStb with
    | true =>
      have next : (x.step i).2 = { (x.settled i).arrives i.consoleData with made := i.reads } := by
        simp [Watched.step, running, arrival]
      have tidy := before.arrives running arrival
      refine ⟨?_, ?_, ?_, ?_⟩
      · rw [next]
        exact ⟨tidy.unread, tidy.owed, tidy.arrived, tidy.returned⟩
      · rw [next]
        exact strobe
      · simp [next, Mailbox.arrives]
      · intro _ due
        -- what is owed stands behind a character that was unread when this one arrived
        have held : (x.settled i).unread ≠ none := by
          simp only [next, Mailbox.arrives, Bool.or_eq_true] at due
          rcases due with due | held
          · exact before.owed due
          · exact Option.isSome_iff_ne_none.mp held
        obtain ⟨char, held⟩ := Option.ne_none_iff_exists'.mp held
        have full := (before.unread char held).1
        simp [Watched.step, Registers.clock, running, arrival, full]
    | false =>
      have unread : i.reads = true → (x.settled i).unread = none := by
        intro reads
        rcases met reads with arrived | nothing
        · exact absurd arrived (by simp [arrival])
        · exact nothing
      have next : (x.step i).2 = { x.settled i with made := i.reads } := by
        simp [Watched.step, running, arrival]
      refine ⟨?_, ?_, ?_, ?_⟩
      · rw [next]
        exact before.stays running arrival unread i.reads
      · rw [next]
        exact strobe
      · intro made _
        have reads : i.reads = true := by simpa [next] using made
        rw [Inputs.reads] at reads
        simp [Watched.step, Registers.clock, running, arrival, reads]
      · intro made due
        rw [next] at made due
        exact absurd (unread made) (before.owed due)

end Kept

theorem kept_empty (s : Registers) : Kept (s, .empty) := by
  refine ⟨tidy_empty s, ?_, ?_, ?_⟩ <;> simp [Mailbox.empty]

/-- What reads of `RXREG` return along a run: every acknowledged read answers for the mailbox, and the
characters returned are those that arrived, in order and once, but for the ones overwritten unread and the
one that is still unread. -/
def Delivers (x : Watched) (is : List Inputs) : Prop :=
  Clocked.Always step Answers x is ∧
    let m := (Clocked.run step x is).2
    m.returned = m.survivors ∧ m.arrived = m.gone.map (·.1) ++ m.unread.toList

instance (x : Watched) (is : List Inputs) : Decidable (Delivers x is) :=
  inferInstanceAs (Decidable (_ ∧ _ = _ ∧ _ = _))

/-- From whatever a reset leaves, `RXREG` delivers as long as no read is strobed, without a character
arriving with it, while one is unread. -/
theorem delivers (s : Registers) (is : List Inputs) (met : Clocked.Always step Met (s, .empty) is) :
    Delivers (s, .empty) is := by
  have start : Kept (s, .empty) := kept_empty s
  have steps (x : Watched) (i : Inputs) (kept : Kept x) (met : Met x i) : Kept (x.step i) := kept.step met
  have final := Clocked.run_invariant steps start met
  refine ⟨?_, final.tidy.returned, final.tidy.arrived⟩
  exact (met.with_invariant steps start).mono fun x i holds => holds.1.answers

def powerUp : Registers := ⟨0, false, false, false, 0, false, 0, false, false, 0⟩

def idle : Inputs := ⟨false, true, false, false, 0, 0, 0b1111, false, false, 0⟩

def arrival (char : BitVec 7) : Inputs := { idle with consoleStb := true, consoleData := char }

def reading : Inputs := { idle with stb := true, addr := rxreg }

/-- The letter arrives with the strobe. -/
def readingWith (char : BitVec 7) : Inputs := { reading with consoleStb := true, consoleData := char }

/-- A character is returned, two are overwritten. -/
def inTime : List Inputs := [readingWith 0x41, idle, reading, idle, arrival 0x42, arrival 0x43, readingWith 0x44, idle]

theorem delivers_inTime : Delivers (powerUp, .empty) inTime := delivers powerUp inTime (by decide +kernel)

/-- A letter that arrived two clocks before the strobe is unread; the read is acknowledged and reports empty. -/
theorem read_reports_empty :
    (Clocked.run step (powerUp, .empty) [arrival 0x41, idle]).2.unread = some 0x41 ∧
    (Clocked.run step (powerUp, .empty) [arrival 0x41, idle, reading]).answer idle = some 0x141 ∧
    rxEmpty 0x141 = true ∧ ¬ Delivers (powerUp, .empty) [arrival 0x41, idle, reading, idle] := by
  decide +kernel

end Watched

end IcoZip.Console
