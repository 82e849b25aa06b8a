import IcoZip.Console.Registers

/-! Writing `TXREG`.

A write finds the transmit register free or occupied. Beside the port runs a
record of the characters that found it free and of those that were taken
downstream. A write that comes in the clock in which the old character is taken
raises the valid flag for the old one again.
-/

set_option autoImplicit false

namespace IcoZip.Console

/-- A strobe that writes the low byte of `TXREG`. -/
def Inputs.writes (i : Inputs) : Bool := i.stb && i.we && i.sel.getLsbD 0 && i.addr == txreg

def Inputs.char (i : Inputs) : BitVec 7 := i.data.extractLsb' 0 7

/-- What became of the characters written since the last reset. -/
structure Record where
  /-- The write of the last clock found the register occupied. -/
  dropped : Bool
  /-- The writes that found the register free. -/
  kept : List (BitVec 7)
  /-- What was taken downstream. -/
  taken : List (BitVec 7)
  deriving DecidableEq, Repr

def Record.empty : Record := ⟨false, [], []⟩

/-- The port with its record. -/
abbrev Recorded := Registers × Record

namespace Recorded

/-- The character in the register is taken. -/
def takes (x : Recorded) (i : Inputs) : Bool := x.1.consoleStb && !i.busy

def step (x : Recorded) (i : Inputs) : Recorded :=
  (x.1.clock i,
    if i.reset then .empty
    else
      { dropped := i.writes && x.1.consoleStb
        kept := x.2.kept ++ if i.writes && !x.1.consoleStb then [i.char] else []
        taken := x.2.taken ++ if x.takes i then [x.1.txfWbData] else [] })

def held (s : Registers) : List (BitVec 7) := if s.consoleStb then [s.txfWbData] else []

/-- What was taken and what is held are the writes that found the register free, in order and once, and a
write that was dropped has set the error flag. -/
structure Faithful (x : Recorded) : Prop where
  conserved : x.2.taken ++ held x.1 = x.2.kept
  reported : x.2.dropped = true → x.1.txfErr = true

instance (x : Recorded) : Decidable (Faithful x) :=
  decidable_of_iff (_ ∧ _) ⟨fun both => ⟨both.1, both.2⟩, fun faithful => ⟨faithful.1, faithful.2⟩⟩

/-- No write comes in the clock in which the old character is taken. -/
def Apart (x : Recorded) (i : Inputs) : Prop := i.reset = false → i.writes = true → x.takes i = false

instance (x : Recorded) (i : Inputs) : Decidable (Apart x i) := inferInstanceAs (Decidable (_ → _ → _))

section
variable {s : Registers} {i : Inputs}

theorem consoleStb_clock (running : i.reset = false) :
    (s.clock i).consoleStb = (i.writes || i.busy && s.consoleStb) := by
  cases busy : i.busy <;> cases writes : i.writes <;>
    simp_all [Registers.clock, Registers.consoleStb, Inputs.writes]

theorem txfWbData_free (writes : i.writes = true) (free : s.consoleStb = false) : (s.clock i).txfWbData = i.char := by
  simp_all [Registers.clock, Inputs.writes, Inputs.char]

theorem txfWbData_occupied (occupied : s.consoleStb = true) : (s.clock i).txfWbData = s.txfWbData := by
  simp [Registers.clock, occupied]

/-- A write that is dropped while the register is not being emptied is reported. -/
theorem txfErr_dropped (running : i.reset = false) (writes : i.writes = true) (clear : i.data.getLsbD 12 = false)
    (occupied : s.consoleStb = true) (busy : i.busy = true) : (s.clock i).txfErr = true := by
  simp_all [Registers.clock, Inputs.writes, setup, txreg]

end

theorem faithful_empty {s : Registers} (free : s.txfWbWrite = false) : Faithful (s, .empty) :=
  ⟨by simp [held, Registers.consoleStb, free, Record.empty], by simp [Record.empty]⟩

theorem faithful_reset (x : Recorded) {i : Inputs} (reset : i.reset = true) : Faithful (x.step i) := by
  have next : x.step i = (x.1.clock i, .empty) := by simp [step, reset]
  rw [next]
  exact faithful_empty (by simp [Registers.clock, reset])

/-- One clock keeps the record faithful exactly if no write comes while the old character is taken. -/
theorem faithful_step_iff {x : Recorded} {i : Inputs} (faithful : Faithful x)
    (clear : i.writes = true → i.data.getLsbD 12 = false) : Faithful (x.step i) ↔ Apart x i := by
  cases running : i.reset with
  | true => exact iff_of_true (faithful_reset x running) (by simp [Apart, running])
  | false =>
    have next : (x.step i).1 = x.1.clock i := rfl
    have ledger : (x.step i).2 = ⟨_, _, _⟩ := if_neg (by simp [running])
    have stb := consoleStb_clock (s := x.1) running
    have conserved := faithful.conserved
    cases occupied : x.1.consoleStb with
    | false =>
      have apart : Apart x i := fun _ _ => by simp [takes, occupied]
      refine iff_of_true ⟨?_, by simp [ledger, occupied]⟩ apart
      cases writes : i.writes with
      | false => simpa [held, next, ledger, takes, stb, occupied, writes] using conserved
      | true =>
        have data := txfWbData_free writes occupied
        simpa [held, next, ledger, takes, stb, occupied, writes, data] using conserved
    | true =>
      have data := txfWbData_occupied (i := i) occupied
      cases writes : i.writes with
      | false =>
        have apart : Apart x i := fun _ wrote => absurd (writes.symm.trans wrote) (by decide)
        refine iff_of_true ⟨?_, by simp [ledger, writes]⟩ apart
        cases busy : i.busy <;> simpa [held, next, ledger, takes, stb, occupied, writes, busy, data] using conserved
      | true =>
        cases busy : i.busy with
        | true =>
          have reported := txfErr_dropped running writes (clear writes) occupied busy
          refine iff_of_true ⟨?_, fun _ => reported⟩ (by simp [Apart, takes, busy])
          simpa [held, next, ledger, takes, stb, occupied, writes, busy, data] using conserved
        | false =>
          -- the old character is taken and raised again
          refine iff_of_false (fun after => ?_) (by simp [Apart, takes, running, writes, occupied, busy])
          have twice := congrArg List.length after.conserved
          have once := congrArg List.length conserved
          simp [held, next, ledger, takes, stb, occupied, writes, busy] at twice
          simp [held, occupied] at once
          omega

/-- In every state of a run the characters taken are the writes that found the register free, but for the
one it holds, and every other write has set the error flag, if and only if no write comes in the clock in
which the register is emptied. -/
theorem faithful_iff (s : Registers) (free : s.txfWbWrite = false) (is : List Inputs)
    (clear : ∀ i ∈ is, i.writes = true → i.data.getLsbD 12 = false) :
    (∀ before, before <+: is → Faithful (Clocked.run step (s, .empty) before)) ↔
      Clocked.Always step Apart (s, .empty) is := by
  have bits : Clocked.Always step (fun _ i => i.writes = true → i.data.getLsbD 12 = false) (s, .empty) is :=
    Clocked.always_of_inputs (fun i member _ => clear i member) _
  have exact_ (x : Recorded) (i : Inputs) (_ : True) (bit : i.writes = true → i.data.getLsbD 12 = false)
      (faithful : Faithful x) : Faithful (x.step i) ↔ Apart x i := faithful_step_iff faithful bit
  exact Clocked.always_iff_of (fun _ _ _ _ _ => trivial) exact_ bits trivial (faithful_empty free)

def powerUp : Registers := ⟨0, false, false, false, 0, false, 0, false, false, 0⟩

def idle : Inputs := ⟨false, true, false, false, 0, 0, 0b1111, false, false, 0⟩

def stalled : Inputs := { idle with busy := true }

def writing (char : BitVec 7) : Inputs := { idle with stb := true, we := true, addr := txreg, data := char.setWidth 32 }

/-- A write is dropped and reported, the next is sent behind the one before it. -/
def spaced : List Inputs :=
  [writing 0x41, stalled, { writing 0x42 with busy := true }, idle, writing 0x43, idle]

theorem faithful_iff_spaced : Faithful (Clocked.run step (powerUp, .empty) spaced) :=
  (faithful_iff powerUp rfl spaced (by decide)).mpr (by decide) spaced List.prefix_rfl

/-- Two writes in a row to a port that is never busy: the first letter is taken twice, the second never, and
nothing is reported. -/
theorem second_write_repeats :
    (Clocked.run step (powerUp, .empty) [writing 0x41, writing 0x42, idle]).2.taken = [0x41, 0x41] ∧
    (Clocked.run step (powerUp, .empty) [writing 0x41, writing 0x42, idle]).1.txfErr = false ∧
    (Clocked.run step (powerUp, .empty) [writing 0x41, writing 0x42]).2.dropped = true ∧
    ¬ Faithful (Clocked.run step (powerUp, .empty) [writing 0x41, writing 0x42]) := by
  decide +kernel

end Recorded

end IcoZip.Console
