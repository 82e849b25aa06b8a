import IcoZip.Library.Clocked
import IcoZip.Zipcore.Bones

/-! What the debug port takes and hands on, for any core behind it. -/

set_option autoImplicit false

namespace IcoZip.Zipcore

/-- A write to a register of the core. -/
abbrev RegWrite := BitVec 5 × BitVec 32

namespace Port
variable (startHalted : Bool) (s : Port) (i : Inputs) (cpu : Cpu)

/-- A request is accepted. -/
def accepts : Bool := i.dbgStb && !s.oDbgStall i cpu

/-- The write that is accepted. -/
def written : List RegWrite :=
  if s.accepts i cpu && regWrite i && i.dbgSel != 0 then [(i.dbgAddr.extractLsb' 0 5, i.dbgData)] else []

/-- The write that waits for the core to stop. -/
def parked : List RegWrite := if s.cmdWrite then [(s.cmdWaddr, s.cmdWdata)] else []

/-- The write that the core takes. -/
def handed : List RegWrite := if s.cmdWrite && !cpu.dbgStall then [(s.cmdWaddr, s.cmdWdata)] else []

/-- The write of this clock, which the port takes note of also where it does not accept it. -/
theorem regWrite_halts (write : regWrite i) (free : !i.reset) : (s.clock startHalted i cpu).cmdHalt = true := by
  simp_all [clock, nextCmdHalt, halts]

theorem stays_halted (kept : s.releases i cpu = false) (free : !i.reset) (halted : s.cmdHalt = true) :
    (s.clock startHalted i cpu).cmdHalt = true := by
  simp_all [clock, nextCmdHalt]

/-- Only a command releases the core. -/
theorem releases_silent (silent : dbgCmdWrite i = false) : s.releases i cpu = false := by simp [releases, silent]

/-- The port's reset is over when it has been counted out. -/
def Counted : Prop := s.resetCounter ≠ 0 → s.resetHold = true

theorem counted_clock : (s.clock startHalted i cpu).Counted := by
  intro counts
  cases reset : i.reset with
  | true => simp [clock, reset]
  | false =>
    have left : (if s.resetCounter ≠ 0 then s.resetCounter - 1 else s.resetCounter) ≠ 0 := by
      simpa [clock, reset] using counts
    have one : ∀ n : BitVec 4, (if n ≠ 0 then n - 1 else n) ≠ 0 → 1#4 < n := by decide
    simp [clock, one s.resetCounter left]

/-- A write that waits keeps the core halted. -/
theorem write_halts (halts : s.cmdWrite = true → s.cmdHalt = true)
    (write : (s.clock startHalted i cpu).cmdWrite = true) : (s.clock startHalted i cpu).cmdHalt = true := by
  cases reset : i.reset with
  | true => simp [clock, reset] at write
  | false =>
    cases room : s.takesWrite cpu with
    | true =>
      have new : regWrite i = true := by
        simp only [clock, reset, room, if_true, Bool.false_eq_true, if_false, Bool.and_eq_true] at write
        exact write.1
      exact s.regWrite_halts startHalted i cpu new (by simp [reset])
    | false =>
      have old : s.cmdWrite = true := by simpa [clock, reset, room] using write
      cases startHalted <;> simp [clock, nextCmdHalt, reset, releases, old, halts old]

/-- A write is accepted when there is room for it. -/
theorem accepts_regWrite (write : regWrite i) (settled : !s.resetHold) : s.accepts i cpu = s.takesWrite cpu := by
  simp_all [regWrite, accepts, oDbgStall, takesWrite]

/-- A write that is accepted goes into the port's registers. -/
theorem written_clock (free : !i.reset) (settled : !s.resetHold) {w : RegWrite} (write : w ∈ s.written i cpu) :
    regWrite i = true ∧ (s.clock startHalted i cpu).cmdWrite = true ∧
      ((s.clock startHalted i cpu).cmdWaddr, (s.clock startHalted i cpu).cmdWdata) = w := by
  rw [Bool.not_eq_true'] at free
  by_cases new : (s.accepts i cpu && regWrite i && i.dbgSel != 0) = true
  · rw [written, if_pos new, List.mem_singleton] at write
    rw [Bool.and_eq_true, Bool.and_eq_true] at new
    obtain ⟨⟨accepted, reg⟩, sel⟩ := new
    have room : s.takesWrite cpu = true := (s.accepts_regWrite i cpu reg settled).symm.trans accepted
    refine ⟨reg, ?_, ?_⟩
    · simp only [clock, free, room, reg, sel, Bool.false_eq_true, if_false, if_true, Bool.and_self]
    · simp only [clock, room, reg, Bool.and_self, if_true, write]
  · rw [written, if_neg new] at write
    exact absurd write List.not_mem_nil

/-- Nothing is lost and nothing comes twice between the bus and the core, once the port's reset is over. -/
theorem handed_law (free : !i.reset) (settled : !s.resetHold) :
    s.handed cpu ++ (s.clock startHalted i cpu).parked = s.parked ++ s.written i cpu := by
  rw [Bool.not_eq_true'] at free
  by_cases write : regWrite i = true
  · have accepted := s.accepts_regWrite i cpu write settled
    cases waiting : s.cmdWrite <;> cases stall : cpu.dbgStall <;>
      simp [handed, parked, written, clock, accepted, takesWrite, free, write, waiting, stall]
  · cases waiting : s.cmdWrite <;> cases stall : cpu.dbgStall <;>
      simp [handed, parked, written, clock, takesWrite, free, write, waiting, stall]

/-- What waits for one register is what has waited, where nothing new is written to it. -/
theorem parked_clock (free : !i.reset) (settled : !s.resetHold) {reg : BitVec 5}
    (other : ∀ w ∈ s.written i cpu, w.1 ≠ reg) :
    ((s.clock startHalted i cpu).cmdWrite && (s.clock startHalted i cpu).cmdWaddr == reg) =
      (s.cmdWrite && s.cmdWaddr == reg && cpu.dbgStall) := by
  rw [Bool.not_eq_true'] at free
  cases room : s.takesWrite cpu with
  | true =>
    have none : (s.cmdWrite && s.cmdWaddr == reg && cpu.dbgStall) = false := by
      cases waiting : s.cmdWrite <;> cases stall : cpu.dbgStall <;> simp_all [takesWrite]
    rw [none]
    by_cases write : (regWrite i && i.dbgSel != 0) = true
    · obtain ⟨write, sel⟩ : regWrite i = true ∧ (i.dbgSel != 0) = true := Bool.and_eq_true_iff.mp write
      have accepted : s.accepts i cpu = true := (s.accepts_regWrite i cpu write settled).trans room
      have one : s.written i cpu = [(i.dbgAddr.extractLsb' 0 5, i.dbgData)] := by
        simp only [written, accepted, write, sel, Bool.and_self, if_true]
      have apart := other (i.dbgAddr.extractLsb' 0 5, i.dbgData) (by simp [one])
      simp [clock, room, write, beq_false_of_ne apart]
    · have unwritten : (regWrite i && i.dbgSel != 0) = false := Bool.eq_false_of_not_eq_true write
      simp only [clock, free, room, unwritten, Bool.false_eq_true, if_false, if_true, Bool.false_and]
  | false =>
    have waits : s.cmdWrite = true ∧ cpu.dbgStall = true := by simpa [takesWrite] using room
    simp [clock, free, room, waits]

end Port

end IcoZip.Zipcore
