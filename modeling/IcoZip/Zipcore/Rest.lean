import IcoZip.Library.Clocked
import IcoZip.Zipcore.Core

/-! The core at rest: what a halted core still does, and what the debugger's writes do to it.

The memory unit is any that answers each request once, after any number of clocks
through which it says that it is busy.
-/

set_option autoImplicit false

namespace IcoZip.Zipcore

namespace Core
variable {aw : Nat}

/-! ### The memory unit -/

/-- What the memory unit has been asked for and has not answered. -/
inductive Pending where
  | nothing
  | store
  | load (reg : BitVec 5)
  deriving DecidableEq, Repr

namespace Pending
variable (p : Pending) (s : Core aw) (i : Inputs aw)

/-- The unit gives an answer only to what it has been asked for, to a load with the number of its register,
and it is busy until then and no longer. -/
structure Answers : Prop where
  idle : p = .nothing → i.memBusy = false
  valid : i.memValid = true → p = .load i.memWreg
  error : i.busErr = true → p ≠ .nothing
  busy : i.memBusy = false → p = .nothing ∨ p = .store ∨ i.memValid = true ∨ i.busErr = true

variable {p i} in
/-- A unit that has not been asked for anything is silent. -/
theorem Answers.quiet (answers : p.Answers i) (nothing : p = .nothing) :
    i.memValid = false ∧ i.busErr = false ∧ i.memBusy = false := by
  subst nothing
  refine ⟨?_, ?_, answers.idle rfl⟩
  · by_contra valid
    exact Pending.noConfusion (answers.valid (Bool.not_eq_false _ ▸ valid))
  · by_contra err
    exact answers.error (Bool.not_eq_false _ ▸ err) rfl

/-- One clock of what the unit is asked for. A reset makes it forget. -/
def next : Pending :=
  if i.reset then .nothing
  else if s.oMemCe i then if s.dcd.dcd.op.getLsbD 0 then .store else .load s.dcd.dcd.dcdR
  else if !i.memBusy || i.memValid || i.busErr then .nothing
  else p

end Pending

/-! ### Rest -/

/-- Nothing is on its way through the core. One instruction may wait for its operands to be used. -/
structure Calm (s : Core aw) : Prop where
  alu : s.alu.Idle
  div : s.div.Idle
  aluPhase : s.aluPhase = false
  aluPc : s.rAluPcValid = true → s.newPc = true
  memPc : s.memPcValid = false
  dcd : s.dcd.valid = false

section Halt
variable {s : Core aw} {i : Inputs aw} (halt : i.halt = true) (phase : s.aluPhase = false)
include halt phase

/-- Between two instructions a halt stops everything that begins. -/
theorem masterCe_halt : s.masterCe i = false := by simp [masterCe, halt, phase]

theorem adfCe_halt : s.adfCe i = false := by simp [adfCe, masterStall, masterCe_halt halt phase]

theorem memCe_halt : s.memCe i = false := by simp [memCe, masterCe_halt halt phase]

theorem dcdStalled_halt : s.dcdStalled i = true := by simp [dcdStalled, masterCe_halt halt phase]

end Halt

/-- The arithmetic unit and the divider, whatever they are at. -/
structure Steady (s : Core aw) : Prop where
  alu : s.alu.Steady
  div : s.div.Steady

variable {b : Build aw} {s : Core aw} {i : Inputs aw} {p : Pending}

theorem Steady.zipcore (steady : s.Steady) : (s.zipcore b i).Steady where
  alu := Cpuops.steady_cpuops b.optShifts (i.reset || s.newPc) (s.aluInputs i)
  div := by
    refine steady.div.div _ _ fun asked => ?_
    by_contra busy
    simp [divInputs, divCe, adfCe, masterStall, Bool.not_eq_false _ ▸ busy] at asked

/-- A core in which nothing lasts any longer is calm when it is halted. -/
theorem Steady.calms (steady : s.Steady) (halt : i.halt = true) (phase : s.aluPhase = false)
    (alu : s.alu.busy = false) (div : s.div.busy = false) : (s.zipcore b i).Calm where
  alu := steady.alu.idle _ _ _ alu (by simp [aluInputs, aluCe, adfCe_halt halt phase])
  div := steady.div.idle _ _ div (by simp [divInputs, divCe, adfCe_halt halt phase])
  aluPhase := by simp [Core.zipcore, nextAluPhase, adfCe_halt halt phase, memCe_halt halt phase, phase]
  aluPc := by simp [Core.zipcore, nextRAluPcValid, adfCe_halt halt phase, alu, div]
  memPc := by simp [Core.zipcore, memCe_halt halt phase]
  dcd := by
    simp [Core.zipcore, Idecode.idecode, Idecode.nextValid, Build.options, dcdInputs, dcdStalled_halt halt phase]

/-- A reset makes the core calm. -/
theorem calm_reset (reset : i.reset = true) : (s.zipcore b i).Calm where
  alu := by simpa [Core.zipcore, reset] using Cpuops.cpuops_reset b.optShifts _
  div := by simpa [Core.zipcore, reset] using Div.div_reset _
  aluPhase := by simp [Core.zipcore, nextAluPhase, reset]
  aluPc := by simp [Core.zipcore, nextNewPc, reset]
  memPc := by simp [Core.zipcore, reset]
  dcd := by simp [Core.zipcore, Idecode.idecode, Idecode.nextValid, dcdInputs, reset]

/-- What holds of the core and of the memory unit in every clock: once the core is halted it is calm, and a
write of the debugger that it has taken is the only one that comes. -/
structure Sound (p : Pending) (s : Core aw) : Prop where
  steady : s.Steady
  calm : s.halted = true → s.Calm ∧ p = .nothing
  taken : s.dbgv = true → s.wrIndex = 0#2 ∧ s.halted = true ∧ s.rDbgStall = true
  clears : s.dbgv = true → s.dbgClearPipe = true ∨ s.opValid = false

theorem sound_powerUp {mpy : Mpyop} (idle : mpy.pending = false) (regset : BitVec 5 → BitVec 32) :
    (powerUp b mpy regset).Sound .nothing where
  steady := ⟨fun _ pending => absurd (pending.symm.trans idle) Bool.noConfusion, Div.steady_default⟩
  calm halted := absurd halted Bool.false_ne_true
  taken taken := absurd taken Bool.false_ne_true
  clears taken := absurd taken Bool.false_ne_true

theorem nextHalted_halted (halted : s.halted = true) (halt : i.halt = true) : s.nextHalted i = true := by
  simp [nextHalted, halted, halt]

theorem nextHalted_halt (halted : s.nextHalted i = true) : i.halt = true := by
  by_contra released
  simp [nextHalted, released] at halted

/-- An instruction that waits in a calm core waits on, or is thrown away. -/
theorem Calm.opValid_cleared (calm : s.Calm) (cleared : s.newPc = true ∨ s.opValid = false) :
    (s.zipcore b i).opValid = false := by
  rcases cleared with new | empty
  · simp [Core.zipcore, nextOpValid, new]
  · simp [Core.zipcore, nextOpValid, calm.dcd, empty]

theorem dbgTaken_we (taken : s.dbgTaken i = true) : i.dbgWe = true := by
  simp only [dbgTaken, Bool.and_eq_true] at taken
  exact taken.1

theorem Sound.zipcore (sound : s.Sound p) (stops : i.dbgWe = true → i.halt = true) :
    (s.zipcore b i).Sound (p.next s i) where
  steady := sound.steady.zipcore
  calm := by
    intro halted
    have halt : i.halt = true := nextHalted_halt halted
    by_cases reset : i.reset = true
    · exact ⟨calm_reset reset, by simp [Pending.next, reset]⟩
    · by_cases before : s.halted = true
      · obtain ⟨calm, nothing⟩ := sound.calm before
        refine ⟨sound.steady.calms halt calm.aluPhase calm.alu.busy calm.div.busy, ?_⟩
        simp [Pending.next, oMemCe, memCe_halt halt calm.aluPhase, nothing]
      · have settles : ((((s.aluPhase = false ∧ i.pfValid = true) ∧ i.memBusy = false) ∧ s.alu.busy = false) ∧
            s.div.busy = false) := by
          simpa [Core.zipcore, nextHalted, halt, reset, before] using halted
        obtain ⟨⟨⟨⟨phase, -⟩, memBusy⟩, alu⟩, div⟩ := settles
        refine ⟨sound.steady.calms halt phase alu div, ?_⟩
        simp [Pending.next, oMemCe, memCe_halt halt phase, memBusy]
  taken := by
    intro taken
    have parts : (i.reset = false ∧ s.halted = true) ∧ s.dbgTaken i = true := by
      simpa [Core.zipcore] using taken
    have halt := stops (dbgTaken_we parts.2)
    simp [Core.zipcore, nextWrIndex, nextHalted, nextRDbgStall, parts, halt]
  clears := by
    intro taken
    have parts : (i.reset = false ∧ s.halted = true) ∧ s.dbgTaken i = true := by
      simpa [Core.zipcore] using taken
    have calm := (sound.calm parts.1.2).1
    cases new : s.newPc with
    | true => exact .inr (calm.opValid_cleared (.inl new))
    | false => exact .inl (by simp [Core.zipcore, nextDbgClearPipe, parts, new])

/-! ### The debugger's writes -/

section Halted
variable (sound : s.Sound p) (halted : s.halted = true) (answers : p.Answers i)
include sound halted answers

theorem memValid_halted : i.memValid = false := (answers.quiet (sound.calm halted).2).1

/-- Nothing but the debugger writes to a halted core. -/
theorem wrRegCe_halted : s.wrRegCe i = s.dbgv := by
  have calm := (sound.calm halted).1
  cases dbgv : s.dbgv with
  | true => simp [wrRegCe, (sound.taken dbgv).1, dbgv]
  | false => simp [wrRegCe, dbgv, memValid_halted sound halted answers, calm.alu.valid, calm.div.valid]

theorem wrRegId_halted : s.wrRegId i = s.aluReg := by simp [wrRegId, memValid_halted sound halted answers]

omit answers in
theorem wrFlagsCe_halted : s.wrFlagsCe = false := by
  have calm := (sound.calm halted).1
  simp [wrFlagsCe, calm.alu.valid, calm.div.valid]

omit answers in
theorem pcMoves_halted : s.pcMoves = false := by
  have calm := (sound.calm halted).1
  cases valid : s.rAluPcValid with
  | true => simp [pcMoves, calm.aluPc valid, calm.memPc]
  | false => simp [pcMoves, aluPcValid, valid, calm.memPc]

end Halted

theorem supervisor_pc (reg : BitVec 5) :
    (!reg.getLsbD 4 && reg.extractLsb' 0 4 == Idecode.CPU_PC_REG) = (reg == 0b0#1 ++ Idecode.CPU_PC_REG) := by
  revert reg
  decide

theorem user_pc (reg : BitVec 5) :
    (reg.getLsbD 4 && reg.extractLsb' 0 4 == Idecode.CPU_PC_REG) = (reg == 0b1#1 ++ Idecode.CPU_PC_REG) := by
  revert reg
  decide

/-- A register and what depends on it show a value that has been written. -/
structure Shows (s : Core aw) (reg : BitVec 5) (v : BitVec 32) : Prop where
  regset : s.regset reg = v
  ipc : reg = 0b0#1 ++ Idecode.CPU_PC_REG → s.ipc = v.extractLsb' 2 aw ++ 0b00#2
  upc : reg = 0b1#1 ++ Idecode.CPU_PC_REG → s.upc = v.extractLsb' 2 aw ++ 0b00#2
  iflags : reg = 0b0#1 ++ Idecode.CPU_CC_REG → s.iflags = v.extractLsb' 0 4
  flags : reg = 0b1#1 ++ Idecode.CPU_CC_REG → s.flags = v.extractLsb' 0 4

section Effects
variable (sound : s.Sound p) (halted : s.halted = true) (answers : p.Answers i) (free : i.reset = false)
include sound halted answers free

theorem rDbgStall_halted : s.nextRDbgStall i = (s.dbgv && Idecode.special s.aluReg || s.dbgTaken i) := by
  simp [nextRDbgStall, free, halted, wrRegCe_halted sound halted answers, wrRegId_halted sound halted answers]

/-- A write that has been taken takes effect in the next clock. -/
theorem shows_written (taken : s.dbgv = true) : (s.zipcore b i).Shows s.aluReg s.dbgVal := by
  have ce : s.wrRegCe i = true := by rw [wrRegCe_halted sound halted answers, taken]
  have reg := wrRegId_halted sound halted answers
  have index := (sound.taken taken).1
  constructor
  · simp [Core.zipcore, ce, reg, wrGpregVl, index]
  · intro special
    have user : s.wrUser i = false := by rw [wrUser, reg, special]; rfl
    have pc : s.wrWritePc i = true := by rw [wrWritePc, reg, special]; rfl
    simp [Core.zipcore, nextIpc, ce, user, pc, wrPc, wrSpregVl, index, free]
  · intro special
    have user : s.wrUser i = true := by rw [wrUser, reg, special]; rfl
    have pc : s.wrWritePc i = true := by rw [wrWritePc, reg, special]; rfl
    simp [Core.zipcore, nextUpc, ce, user, pc, wrPc, wrSpregVl, index]
  · intro special
    simp [Core.zipcore, writesScc, ce, wrWriteScc, wrGpregVl, index, reg, special]
  · intro special
    simp [Core.zipcore, writesUcc, ce, wrWriteUcc, wrGpregVl, index, reg, special]

/-- What a register shows is left alone by writes to the others. -/
theorem Shows.zipcore {reg : BitVec 5} {v : BitVec 32} (shows_ : s.Shows reg v)
    (other : s.dbgv = true → s.aluReg ≠ reg) : (s.zipcore b i).Shows reg v := by
  have ce : s.wrRegCe i = s.dbgv := wrRegCe_halted sound halted answers
  have id := wrRegId_halted sound halted answers
  have flags := wrFlagsCe_halted sound halted
  have still := pcMoves_halted sound halted
  cases dbgv : s.dbgv with
  | false =>
    rw [dbgv] at ce
    constructor
    · simpa [Core.zipcore, ce] using shows_.regset
    · simpa [Core.zipcore, nextIpc, ce, still, free] using shows_.ipc
    · simpa [Core.zipcore, nextUpc, ce, still] using shows_.upc
    · simpa [Core.zipcore, writesScc, ce, flags] using shows_.iflags
    · simpa [Core.zipcore, writesUcc, ce, flags] using shows_.flags
  | true =>
    rw [dbgv] at ce
    have different := other dbgv
    constructor
    · simpa [Core.zipcore, ce, id, Function.update_of_ne different.symm] using shows_.regset
    · intro special
      have apart : (!s.wrUser i && s.wrWritePc i) = false := by
        rw [wrUser, wrWritePc, id, supervisor_pc]
        exact beq_false_of_ne (special ▸ different)
      simp only [Core.zipcore, nextIpc, ce, Bool.true_and, apart, still, free, Bool.and_false, Bool.false_eq_true,
        if_false]
      exact shows_.ipc special
    · intro special
      have apart : (s.wrUser i && s.wrWritePc i) = false := by
        rw [wrUser, wrWritePc, id, user_pc]
        exact beq_false_of_ne (special ▸ different)
      simp only [Core.zipcore, nextUpc, ce, Bool.true_and, apart, still, Bool.and_false, Bool.false_eq_true, if_false]
      exact shows_.upc special
    · intro special
      have apart : s.writesScc i = false := by
        simp [writesScc, wrWriteScc, id, special ▸ different]
      simpa [Core.zipcore, apart, flags] using shows_.iflags special
    · intro special
      have apart : s.writesUcc i = false := by
        simp [writesUcc, wrWriteUcc, id, special ▸ different]
      simpa [Core.zipcore, apart, flags] using shows_.flags special

end Effects

end Core

end IcoZip.Zipcore
