import IcoZip.Zipcore.DebugPort
import IcoZip.Zipcore.Rest

/-! The debug port of `zipbones` as a register file.

A write waits in the port until the core has come to its stop, and then goes
through the core's own write-back, one clock later. What is shown of a register is
what was written to it as soon as the write is through.
-/

set_option autoImplicit false

namespace IcoZip.Zipcore

/-- `zipbones` and what its memory unit has been asked for. -/
structure System (aw : Nat) where
  zip : Zipbones aw
  mem : Core.Pending

namespace System

/-- The debug bus, and what the fetch unit and the memory unit answer. -/
structure Inputs (aw : Nat) where
  dbg : Port.Inputs
  units : Zipbones.Units aw

variable {aw : Nat} (b : Build aw) (startHalted : Bool) (x : System aw) (e : Inputs aw)

def coreInputs : Core.Inputs aw := x.zip.coreInputs e.dbg e.units

def seen : Port.Cpu := x.zip.seen e.dbg e.units

def clock : System aw where
  zip := x.zip.zipbones b startHalted e.dbg e.units
  mem := x.mem.next x.zip.cpu (x.coreInputs e)

def powerUp (mpy : Mpyop) (regset : BitVec 5 → BitVec 32) : System aw :=
  ⟨⟨Port.powerUp startHalted, Core.powerUp b mpy regset⟩, .nothing⟩

/-- The memory unit keeps to its rules. -/
def Answers : Prop := x.mem.Answers (x.coreInputs e)

/-- Neither the port nor the core is in reset. -/
structure Up : Prop where
  port : e.dbg.reset = false
  hold : x.zip.port.resetHold = false
  core : x.zip.port.cmdReset = false

/-! ### Requests and answers -/

/-- What is answered to the request that is accepted. -/
def asked : List (BitVec 32) :=
  if x.zip.port.accepts e.dbg (x.seen e) then
    [if e.dbg.dbgAddr.getLsbD 5 then x.zip.port.cpuStatus e.dbg (x.seen e)
      else x.zip.cpu.debugReg b (e.dbg.dbgAddr.extractLsb' 0 5)]
  else []

/-- The answer on the bus. -/
def answered : List (BitVec 32) := if x.zip.port.dbgAck then [x.zip.port.dbgOdata] else []

/-- The answers on their way. -/
def owed : List (BitVec 32) :=
  x.answered ++
    if x.zip.port.dbgPreAck then [if x.zip.port.dbgPreAddr then x.zip.port.dbgCpuStatus else x.zip.cpu.dbgReg] else []

/-- While the cycle is held every request is answered once, with what there was to see when it was accepted. -/
theorem answered_law (cycle : e.dbg.dbgCyc = true) (free : e.dbg.reset = false) :
    x.answered ++ (x.clock b startHalted e).owed = x.owed ++ x.asked b e := by
  cases accepts : x.zip.port.accepts e.dbg (x.seen e) <;> cases pre : x.zip.port.dbgPreAck <;>
    simp_all [answered, owed, asked, clock, Zipbones.zipbones, Port.clock, seen, Zipbones.seen, Port.accepts,
      Core.zipcore, Zipbones.coreInputs]

/-! ### Writes -/

def written : List RegWrite := x.zip.port.written e.dbg (x.seen e)

/-- The core takes a write. -/
def handed : List RegWrite := x.zip.port.handed (x.seen e)

/-- The write to a register that is on its way, the last one if there are two. -/
def due (reg : BitVec 5) : Option (BitVec 32) :=
  if x.zip.port.cmdWrite && x.zip.port.cmdWaddr == reg then some x.zip.port.cmdWdata
  else if x.zip.cpu.dbgv && x.zip.cpu.aluReg == reg then some x.zip.cpu.dbgVal
  else none

/-- What holds in every clock. A write that waits keeps the core halted. -/
structure Sound : Prop where
  core : x.zip.cpu.Sound x.mem
  halts : x.zip.port.cmdWrite = true → x.zip.port.cmdHalt = true

variable {b startHalted x e}

theorem sound_powerUp {mpy : Mpyop} (idle : mpy.pending = false) (regset : BitVec 5 → BitVec 32) :
    (powerUp b startHalted mpy regset).Sound where
  core := Core.sound_powerUp idle regset
  halts write := absurd write Bool.false_ne_true

theorem Sound.clock (sound : x.Sound) : (x.clock b startHalted e).Sound where
  core := sound.core.zipcore sound.halts
  halts := Port.write_halts startHalted x.zip.port e.dbg (x.seen e) sound.halts

/-- The core is halted, with nothing in it that was decoded before, and shows a value for a register. -/
structure Shown (x : System aw) (reg : BitVec 5) (v : BitVec 32) : Prop where
  halted : x.zip.cpu.halted = true
  cleared : x.zip.cpu.newPc = true ∨ x.zip.cpu.opValid = false
  shown : x.zip.cpu.Shows reg v

/-- A value has been written to a register of a CPU that is to halt: it is on its way or has got there. -/
structure Holds (x : System aw) (reg : BitVec 5) (v : BitVec 32) : Prop where
  halt : x.zip.port.cmdHalt = true
  value : x.due reg = some v ∨ x.due reg = none ∧ x.Shown reg v

theorem Up.port_free (up : x.Up e) : !e.dbg.reset := by simp [up.port]

theorem Up.port_settled (up : x.Up e) : !x.zip.port.resetHold := by simp [up.hold]

/-- The core has taken what has been handed to it. -/
theorem taken_clock (up : x.Up e) :
    (x.clock b startHalted e).zip.cpu.dbgv = (x.zip.port.cmdWrite && !x.zip.cpu.oDbgStall) := by
  cases halted : x.zip.cpu.halted <;>
    simp [clock, Zipbones.zipbones, Core.zipcore, Core.dbgTaken, Zipbones.coreInputs, Core.oDbgStall, up.core, halted]

/-- What is on its way to a register comes on, from the port to the core and from there to the register. -/
theorem due_clock (up : x.Up e) {reg : BitVec 5} (other : ∀ w ∈ x.written e, w.1 ≠ reg) :
    (x.clock b startHalted e).due reg =
      if x.zip.port.cmdWrite && x.zip.port.cmdWaddr == reg then some x.zip.port.cmdWdata else none := by
  have parked := Port.parked_clock startHalted x.zip.port e.dbg (x.seen e) up.port_free up.port_settled other
  have taken : (x.clock b startHalted e).zip.cpu.dbgv = _ := taken_clock up
  change ((x.clock b startHalted e).zip.port.cmdWrite && (x.clock b startHalted e).zip.port.cmdWaddr == reg) =
    (x.zip.port.cmdWrite && x.zip.port.cmdWaddr == reg && x.zip.cpu.oDbgStall) at parked
  rw [due, parked, taken]
  cases waiting : x.zip.port.cmdWrite with
  | false => simp
  | true =>
    cases stall : x.zip.cpu.oDbgStall with
    | true =>
      have kept : (x.clock b startHalted e).zip.port.cmdWdata = x.zip.port.cmdWdata := by
        simp [clock, Zipbones.zipbones, Port.clock, Port.takesWrite, waiting, Zipbones.seen, stall]
      simp [kept]
    | false =>
      have number : (x.clock b startHalted e).zip.cpu.aluReg = x.zip.port.cmdWaddr := by
        simp [clock, Zipbones.zipbones, Core.zipcore, Core.dbgTaken, Zipbones.coreInputs, waiting, stall]
      have value : (x.clock b startHalted e).zip.cpu.dbgVal = x.zip.port.cmdWdata := rfl
      simp [number, value]

/-- A write that comes through is shown, and what is shown stays. -/
theorem shown_clock (sound : x.Sound) (up : x.Up e) (answers : x.Answers e) (halt : x.zip.port.cmdHalt = true)
    {reg : BitVec 5} {v : BitVec 32}
    (arrives : x.zip.cpu.dbgv = true ∧ x.zip.cpu.aluReg = reg ∧ x.zip.cpu.dbgVal = v ∨
      (x.zip.cpu.dbgv = true → x.zip.cpu.aluReg ≠ reg) ∧ x.Shown reg v) :
    (x.clock b startHalted e).Shown reg v := by
  have here : x.zip.cpu.halted = true := by
    rcases arrives with ⟨taken, -, -⟩ | ⟨-, shown⟩
    · exact (sound.core.taken taken).2.1
    · exact shown.halted
  have calm := (sound.core.calm here).1
  constructor
  · exact Core.nextHalted_halted here halt
  · rcases arrives with ⟨taken, -, -⟩ | ⟨-, shown⟩
    · rcases sound.core.clears taken with clear | empty
      · exact .inl (by simp [clock, Zipbones.zipbones, Core.zipcore, Core.nextNewPc, clear])
      · exact .inr (calm.opValid_cleared (.inr empty))
    · exact .inr (calm.opValid_cleared shown.cleared)
  · rcases arrives with ⟨taken, rfl, rfl⟩ | ⟨other, shown⟩
    · exact Core.shows_written sound.core here answers up.core taken
    · exact shown.shown.zipcore sound.core here answers up.core other

/-- A value that has been written stays until something else is written to the register or the CPU is released. -/
theorem Holds.clock (sound : x.Sound) (up : x.Up e) (answers : x.Answers e)
    (kept : x.zip.port.releases e.dbg (x.seen e) = false) {reg : BitVec 5} {v : BitVec 32}
    (other : ∀ w ∈ x.written e, w.1 ≠ reg) (holds : x.Holds reg v) : (x.clock b startHalted e).Holds reg v where
  halt := x.zip.port.stays_halted startHalted e.dbg (x.seen e) kept up.port_free holds.halt
  value := by
    rw [due_clock up other]
    cases waiting : (x.zip.port.cmdWrite && x.zip.port.cmdWaddr == reg) with
    | true => exact .inl (by simpa [due, waiting] using holds.value)
    | false =>
      refine .inr ⟨rfl, shown_clock sound up answers holds.halt ?_⟩
      rcases holds.value with due | ⟨due, shown⟩
      · exact .inl (by simpa [System.due, waiting, and_assoc] using due)
      · exact .inr ⟨by simpa [System.due, waiting] using due, shown⟩

/-- From the clock in which it is accepted, a write is on its way. -/
theorem written_holds (up : x.Up e) {reg : BitVec 5} {v : BitVec 32} (write : (reg, v) ∈ x.written e) :
    (x.clock b startHalted e).Holds reg v := by
  obtain ⟨new, waits, is⟩ :=
    x.zip.port.written_clock startHalted e.dbg (x.seen e) up.port_free up.port_settled write
  obtain ⟨number, value⟩ := Prod.mk.inj is
  refine ⟨x.zip.port.regWrite_halts startHalted e.dbg (x.seen e) new up.port_free, .inl ?_⟩
  change (if (x.zip.port.clock startHalted e.dbg (x.seen e)).cmdWrite &&
    (x.zip.port.clock startHalted e.dbg (x.seen e)).cmdWaddr == reg then _ else _) = _
  simp only [waits, number, beq_self_eq_true, Bool.and_self, if_true]
  exact congrArg some value

/-- The core has come to its stop, and no write waits. -/
structure Resting (x : System aw) : Prop where
  empty : x.zip.port.cmdWrite = false
  stopped : x.zip.cpu.oDbgStall = false

theorem stopped_iff : x.zip.cpu.oDbgStall = false ↔ x.zip.cpu.halted = true ∧ x.zip.cpu.rDbgStall = false := by
  simp [Core.oDbgStall]

theorem Resting.untaken (resting : x.Resting) (sound : x.Sound) : x.zip.cpu.dbgv = false := by
  by_contra taken
  have stall := (sound.core.taken (Bool.not_eq_false _ ▸ taken)).2.2
  simp [(stopped_iff.mp resting.stopped).2] at stall

/-- What has been written to a register of a core at rest is there. -/
theorem Resting.shown (resting : x.Resting) (sound : x.Sound) {reg : BitVec 5} {v : BitVec 32}
    (holds : x.Holds reg v) : x.Shown reg v := by
  rcases holds.value with due | ⟨-, shown⟩
  · simp [System.due, resting.empty, resting.untaken sound] at due
  · exact shown

/-- How a halted core answers for its stop in the next clock. -/
theorem oDbgStall_clock (sound : x.Sound) (up : x.Up e) (answers : x.Answers e) (halt : x.zip.port.cmdHalt = true)
    (halted : x.zip.cpu.halted = true) :
    (x.clock b startHalted e).zip.cpu.oDbgStall =
      (x.zip.cpu.dbgv && Idecode.special x.zip.cpu.aluReg || x.zip.port.cmdWrite && !x.zip.cpu.oDbgStall) := by
  have next : (x.clock b startHalted e).zip.cpu.halted = true := Core.nextHalted_halted halted halt
  have stall : (x.clock b startHalted e).zip.cpu.rDbgStall = x.zip.cpu.nextRDbgStall (x.coreInputs e) := rfl
  rw [Core.oDbgStall, next, stall, Core.rDbgStall_halted sound.core halted answers up.core]
  rfl

/-- The port has no write left when it had none or it has been taken, and none comes. -/
theorem unasked_clock (up : x.Up e) (room : x.zip.port.cmdWrite = false ∨ x.zip.cpu.oDbgStall = false)
    (silent : e.dbg.dbgStb = false) : (x.clock b startHalted e).zip.port.cmdWrite = false := by
  have room : x.zip.port.takesWrite (x.seen e) = true := by
    rcases room with room | room <;> simp [Port.takesWrite, seen, Zipbones.seen, room]
  change (x.zip.port.clock startHalted e.dbg (x.seen e)).cmdWrite = false
  simp [Port.clock, up.port, room, Port.regWrite, silent]

theorem halt_silent (up : x.Up e) (silent : e.dbg.dbgStb = false) (halt : x.zip.port.cmdHalt = true) :
    (x.clock b startHalted e).zip.port.cmdHalt = true := by
  have kept := x.zip.port.releases_silent e.dbg (x.seen e) (by simp [Port.dbgCmdWrite, silent])
  exact x.zip.port.stays_halted startHalted e.dbg (x.seen e) kept up.port_free halt

/-- A write to a general register of a core at rest is through when three clocks are over, in which nothing else is
asked for. -/
theorem Resting.settles (resting : x.Resting) (halt : x.zip.port.cmdHalt = true) (sound : x.Sound)
    {first second : Inputs aw} {reg : BitVec 5} {v : BitVec 32} (general : Idecode.special reg = false)
    (write : (reg, v) ∈ x.written e) (silent : first.dbg.dbgStb = false ∧ second.dbg.dbgStb = false)
    (always : Clocked.Always (clock b startHalted) (fun x e => x.Up e ∧ x.Answers e) x [e, first, second]) :
    (Clocked.run (clock b startHalted) x [e, first, second]).Resting := by
  obtain ⟨⟨up, answers⟩, ⟨up₁, answers₁⟩, ⟨up₂, answers₂⟩, -⟩ := always
  obtain ⟨-, waits, is⟩ := x.zip.port.written_clock startHalted e.dbg (x.seen e) up.port_free up.port_settled write
  let x₁ := x.clock b startHalted e
  let x₂ := x₁.clock b startHalted first
  have halt₁ : x₁.zip.port.cmdHalt = true := (written_holds up write).halt
  have halt₂ : x₂.zip.port.cmdHalt = true := halt_silent up₁ silent.1 halt₁
  have stopped₁ : x₁.zip.cpu.oDbgStall = false := by
    rw [oDbgStall_clock sound up answers halt (stopped_iff.mp resting.stopped).1, resting.untaken sound, resting.empty]
    rfl
  have halted₂ : x₂.zip.cpu.halted = true := Core.nextHalted_halted (stopped_iff.mp stopped₁).1 halt₁
  have empty₂ : x₂.zip.port.cmdWrite = false := unasked_clock up₁ (.inr stopped₁) silent.1
  have number₂ : x₂.zip.cpu.aluReg = reg := by
    have taken : x₁.zip.cpu.dbgTaken (x₁.coreInputs first) = true := by
      simp only [Core.dbgTaken, stopped₁, Bool.not_false, Bool.and_true]
      exact waits
    have handed : x₂.zip.cpu.aluReg = x₁.zip.port.cmdWaddr := if_pos taken
    exact handed.trans (congrArg Prod.fst is)
  refine ⟨unasked_clock up₂ (.inl empty₂) silent.2, ?_⟩
  have stall := @oDbgStall_clock _ b startHalted x₂ second sound.clock.clock up₂ answers₂ halt₂ halted₂
  rw [number₂, general, empty₂] at stall
  simpa using stall

/-! ### The port in service -/

/-- A read of a general register. -/
structure ReadOf (e : Inputs aw) (reg : BitVec 5) : Prop where
  general : Idecode.special reg = false
  register : e.dbg.dbgAddr = 0b0#1 ++ reg
  read : e.dbg.dbgWe = false

/-- A command to go on: neither `HALT` nor `CLEAR_CACHE` is set. -/
structure GoesOn (e : Inputs aw) : Prop where
  command : Port.dbgCmdWrite e.dbg = true
  halt : e.dbg.dbgData.getLsbD Port.HALT_BIT = false
  cache : e.dbg.dbgData.getLsbD Port.CLEAR_CACHE_BIT = false

/-- There is nothing in the port that keeps a core halted: no exception, no step and no clearing of the cache. -/
structure Untroubled (x : System aw) (e : Inputs aw) : Prop where
  exception : (x.seen e).break_ = false
  step : x.zip.port.cmdStep = false
  cache : x.zip.port.cmdClearCache = false

theorem general_number {reg : BitVec 5} (general : Idecode.special reg = false) :
    reg.extractLsb' 0 4 ≠ Idecode.CPU_PC_REG ∧ reg.extractLsb' 0 4 ≠ Idecode.CPU_CC_REG := by
  revert reg
  decide

theorem Shown.asked {reg : BitVec 5} {v : BitVec 32} (shown : x.Shown reg v) (read : ReadOf e reg)
    (accepted : x.zip.port.accepts e.dbg (x.seen e) = true) : x.asked b e = [v] := by
  have register : ∀ reg : BitVec 5,
      (0b0#1 ++ reg).getLsbD 5 = false ∧ (0b0#1 ++ reg).extractLsb' 0 5 = reg := by decide
  obtain ⟨noPc, noCc⟩ := general_number read.general
  simp only [System.asked, accepted, if_true, read.register, register, Bool.false_eq_true, if_false, Core.debugReg,
    noPc, noCc, shown.shown.regset]

theorem Resting.goes_on (resting : x.Resting) (up : x.Up e) (goes : GoesOn e) (untroubled : x.Untroubled e) :
    (x.clock b startHalted e).zip.port.cmdHalt = false := by
  have releases : x.zip.port.releases e.dbg (x.seen e) = true := by
    simp [Port.releases, goes.command, goes.halt, resting.empty, seen, Zipbones.seen, resting.stopped]
  have register : Port.regWrite e.dbg = false := by
    have command := goes.command
    simp only [Port.dbgCmdWrite, Bool.and_eq_true] at command
    simp [Port.regWrite, command]
  have halts : x.zip.port.halts startHalted e.dbg (x.seen e) = false := by
    simp [Port.halts, untroubled.exception, untroubled.step, untroubled.cache, goes.halt, goes.cache, register]
  change x.zip.port.nextCmdHalt startHalted e.dbg (x.seen e) = false
  simp [Port.nextCmdHalt, up.port, up.core, halts, releases]

/-- A clock in which the CPU is not released. -/
structure Undisturbed (x : System aw) (e : Inputs aw) : Prop where
  up : x.Up e
  answers : x.Answers e
  kept : x.zip.port.releases e.dbg (x.seen e) = false

theorem halts_run (halt : x.zip.port.cmdHalt = true) {es : List (Inputs aw)}
    (always : Clocked.Always (clock b startHalted) Undisturbed x es) :
    (Clocked.run (clock b startHalted) x es).zip.port.cmdHalt = true := by
  refine @Clocked.run_invariant _ _ _ _ (fun x => x.zip.port.cmdHalt = true) (fun x e halt calm => ?_) _ _ halt always
  exact x.zip.port.stays_halted startHalted e.dbg (x.seen e) calm.kept calm.up.port_free halt

theorem holds_run (sound : x.Sound) {reg : BitVec 5} {v : BitVec 32} (holds : x.Holds reg v) {es : List (Inputs aw)}
    (always : Clocked.Always (clock b startHalted) (fun x e => x.Undisturbed e ∧ ∀ w ∈ x.written e, w.1 ≠ reg) x es) :
    (Clocked.run (clock b startHalted) x es).Sound ∧ (Clocked.run (clock b startHalted) x es).Holds reg v := by
  refine @Clocked.run_invariant _ _ _ _ (fun x => x.Sound ∧ x.Holds reg v) (fun x e both calm => ?_) _ _
    ⟨sound, holds⟩ always
  exact ⟨both.1.clock, both.2.clock both.1 calm.1.up calm.1.answers calm.1.kept calm.2⟩

section
variable (b startHalted) (x)

/-- The run writes a value to a register in its first clock, and nothing else to it later. -/
structure LastWritten (e : Inputs aw) (es : List (Inputs aw)) (reg : BitVec 5) (v : BitVec 32) : Prop where
  up : x.Up e
  write : (reg, v) ∈ x.written e
  after : Clocked.Always (clock b startHalted) (fun x e => x.Undisturbed e ∧ ∀ w ∈ x.written e, w.1 ≠ reg)
    (x.clock b startHalted e) es

/-- The debug port as a register file: requests are answered once, and writes reach the core once, in order and as
they are, and keep it halted. What has been written is read back, and is there for the core to go on with, once the
core has come to its stop and no write waits. A write to a core at rest is through before its answer has been heard. -/
structure InService : Prop where
  answers : ∀ es, Clocked.Always (clock b startHalted) (fun _ e => e.dbg.dbgCyc = true ∧ e.dbg.reset = false) x es →
    Clocked.emitted (clock b startHalted) (fun x _ => x.answered) x es ++
        (Clocked.run (clock b startHalted) x es).owed =
      x.owed ++ Clocked.emitted (clock b startHalted) (asked b) x es
  hands : ∀ es, Clocked.Always (clock b startHalted) Up x es →
    Clocked.emitted (clock b startHalted) handed x es ++ (Clocked.run (clock b startHalted) x es).zip.port.parked =
      x.zip.port.parked ++ Clocked.emitted (clock b startHalted) written x es
  halts : ∀ e es, x.Up e → x.written e ≠ [] →
    Clocked.Always (clock b startHalted) Undisturbed (x.clock b startHalted e) es →
      (Clocked.run (clock b startHalted) x (e :: es)).zip.port.cmdHalt = true
  reads : ∀ e es reg v, x.LastWritten b startHalted e es reg v →
    ∀ y, y = Clocked.run (clock b startHalted) x (e :: es) → y.Resting →
      ∀ e, ReadOf e reg → y.zip.port.accepts e.dbg (y.seen e) = true → y.asked b e = [v]
  goes : ∀ e es reg v, x.LastWritten b startHalted e es reg v →
    ∀ y, y = Clocked.run (clock b startHalted) x (e :: es) → y.Resting →
      ∀ e, y.Up e → y.Answers e → GoesOn e → y.Untroubled e →
        (y.clock b startHalted e).zip.port.cmdHalt = false ∧ (y.clock b startHalted e).zip.cpu.Shows reg v ∧
          (y.clock b startHalted e).zip.cpu.opValid = false ∧ (y.clock b startHalted e).zip.cpu.dcd.valid = false
  settles : ∀ e first second reg v, x.Resting → x.zip.port.cmdHalt = true → Idecode.special reg = false →
    (reg, v) ∈ x.written e → first.dbg.dbgStb = false ∧ second.dbg.dbgStb = false →
      Clocked.Always (clock b startHalted) (fun x e => x.Up e ∧ x.Answers e) x [e, first, second] →
        (Clocked.run (clock b startHalted) x [e, first, second]).Resting

end

theorem LastWritten.holds (sound : x.Sound) {e : Inputs aw} {es : List (Inputs aw)} {reg : BitVec 5} {v : BitVec 32}
    (last : x.LastWritten b startHalted e es reg v) :
    (Clocked.run (clock b startHalted) x (e :: es)).Sound ∧
      (Clocked.run (clock b startHalted) x (e :: es)).Holds reg v :=
  holds_run sound.clock (written_holds last.up last.write) last.after

/-- What is shown of a register when the CPU is released. -/
theorem Shown.released (sound : x.Sound) (up : x.Up e) (answers : x.Answers e) (halt : x.zip.port.cmdHalt = true)
    (untaken : x.zip.cpu.dbgv = false) {reg : BitVec 5} {v : BitVec 32} (shown : x.Shown reg v) :
    (x.clock b startHalted e).zip.cpu.Shows reg v ∧ (x.clock b startHalted e).zip.cpu.opValid = false ∧
      (x.clock b startHalted e).zip.cpu.dcd.valid = false := by
  have calm := (sound.core.calm shown.halted).1
  have after : (x.clock b startHalted e).Shown reg v :=
    shown_clock sound up answers halt (.inr ⟨fun taken => absurd (untaken.symm.trans taken) Bool.false_ne_true, shown⟩)
  refine ⟨after.shown, calm.opValid_cleared shown.cleared, ?_⟩
  have next : (x.clock b startHalted e).Sound := sound.clock
  exact (next.core.calm after.halted).1.dcd

/-- Whatever has happened since power-up, the debug port is in service. -/
theorem in_service {mpy : Mpyop} (idle : mpy.pending = false) (regset : BitVec 5 → BitVec 32)
    (before : List (Inputs aw)) :
    (Clocked.run (clock b startHalted) (powerUp b startHalted mpy regset) before).InService b startHalted := by
  have free : Clocked.Always (clock b startHalted) (fun _ _ => True) (powerUp b startHalted mpy regset) before :=
    Clocked.always_of_forall (fun _ _ => trivial) _ before
  have sound : (Clocked.run (clock b startHalted) (powerUp b startHalted mpy regset) before).Sound :=
    Clocked.run_invariant (fun x e sound _ => sound.clock) (sound_powerUp idle regset) free
  generalize Clocked.run (clock b startHalted) (powerUp b startHalted mpy regset) before = x at sound
  constructor
  · intro es always
    refine @Clocked.conservation _ _ _ (clock b startHalted) (fun _ e => e.dbg.dbgCyc = true ∧ e.dbg.reset = false)
      (fun _ => True) (fun x _ => x.answered) (asked b) owed (fun _ _ _ _ => trivial) (fun x e _ held => ?_) x es
      trivial
      always
    exact answered_law b startHalted x e held.1 held.2
  · intro es always
    refine @Clocked.conservation _ _ _ (clock b startHalted) Up (fun _ => True) handed written
      (fun x => x.zip.port.parked) (fun _ _ _ _ => trivial) (fun x e _ up => ?_) x es trivial always
    exact Port.handed_law startHalted x.zip.port e.dbg (x.seen e) up.port_free up.port_settled
  · intro e es up write always
    obtain ⟨w, member⟩ := List.exists_mem_of_ne_nil _ write
    exact halts_run (written_holds up member).halt always
  · rintro e es reg v last y rfl resting e' read accepted
    obtain ⟨sound, holds⟩ := last.holds sound
    exact (resting.shown sound holds).asked read accepted
  · rintro e es reg v last y rfl resting e' up answers goes untroubled
    obtain ⟨sound, holds⟩ := last.holds sound
    refine ⟨resting.goes_on up goes untroubled, ?_⟩
    exact (resting.shown sound holds).released sound up answers holds.halt (resting.untaken sound)
  · intro e first second reg v resting halt general write silent always
    exact resting.settles halt sound general write silent always

/-- As it is built here, for a program that waits at address 0. -/
def built : Build 24 := ⟨true, true, true, true, false, 0⟩

/-- A clock of the bus with a fetch unit that has no instruction yet. -/
def bus (stb we : Bool) (addr : BitVec 6) (data : BitVec 32) : Inputs 24 :=
  ⟨⟨false, true, stb, we, addr, data, 0xf#4, false⟩, ⟨false, false, 0, 0, false, false, false, 0, 0⟩⟩

/-- A memory unit that has not been asked for anything says nothing. -/
theorem answers_idle (idle : x.mem = .nothing) (busy : (x.coreInputs e).memBusy = false)
    (valid : (x.coreInputs e).memValid = false) (err : (x.coreInputs e).busErr = false) : x.Answers e :=
  ⟨fun _ => busy, fun given => absurd (valid.symm.trans given) Bool.false_ne_true,
    fun failed => absurd (err.symm.trans failed) Bool.false_ne_true, fun _ => .inl idle⟩

/-- A clock in which nothing is written leaves every register out. -/
theorem elsewhere {reg : BitVec 5} (none : x.written e = []) : ∀ w ∈ x.written e, w.1 ≠ reg := by
  intro w member
  rw [none] at member
  cases member

/-- Register 2 is written: it is read back, and it is there when the CPU goes on. -/
theorem in_service_built :
    let quiet := bus false false 0 0
    let x := Clocked.run (clock built true) (powerUp built true .absent fun _ => 9#32) (List.replicate 12 quiet)
    let y := Clocked.run (clock built true) x [bus true true 2 5, quiet, quiet]
    y.asked built (bus true false 2 0) = [5] ∧ (y.clock built true (bus true true 32 0)).zip.port.cmdHalt = false ∧
      (y.clock built true (bus true true 32 0)).zip.cpu.regset 2 = 5 := by
  intro quiet x y
  have serves : x.InService built true := in_service rfl (fun _ => 9#32) (List.replicate 12 quiet)
  have last : x.LastWritten built true (bus true true 2 5) [quiet, quiet] 2 5 := by
    refine ⟨⟨rfl, ?_, ?_⟩, ?_, ⟨⟨⟨rfl, ?_, ?_⟩, answers_idle ?_ rfl rfl rfl, ?_⟩, elsewhere ?_⟩,
      ⟨⟨⟨rfl, ?_, ?_⟩, answers_idle ?_ rfl rfl rfl, ?_⟩, elsewhere ?_⟩, trivial⟩ <;> decide +kernel
  have resting : y.Resting := by constructor <;> decide +kernel
  have shows := serves.goes _ _ _ _ last y rfl resting (bus true true 32 0) ?_ ?_ ?_ ?_
  · exact ⟨serves.reads _ _ _ _ last y rfl resting _ ⟨rfl, rfl, rfl⟩ (by decide +kernel), shows.1, shows.2.1.regset⟩
  · refine ⟨rfl, ?_, ?_⟩ <;> decide +kernel
  · exact answers_idle (by decide +kernel) rfl rfl rfl
  · exact ⟨rfl, rfl, rfl⟩
  · refine ⟨?_, ?_, ?_⟩ <;> decide +kernel

/-- The CPU is released, and while it runs register 2 is written, then read, and then the CPU is told to go on: the read
shows the old value, and the CPU is halted. -/
theorem write_outstanding :
    let quiet := bus false false 0 0
    let go := bus true true 32 0
    let x := powerUp built true .absent fun _ => 9#32
    let es := List.replicate 12 quiet ++ [go, quiet, quiet, bus true true 2 5, quiet, quiet, bus true false 2 0, quiet,
      quiet, go, quiet, quiet]
    Clocked.emitted (clock built true) written x es = [(2#5, 5#32)] ∧
      Clocked.emitted (clock built true) (fun x _ => x.answered) x (es ++ [quiet]) =
          [0x600#32, 9#32, 9#32, 0x400#32] ∧
        (Clocked.run (clock built true) x es).zip.port.cmdHalt = true := by
  decide +kernel

end System

end IcoZip.Zipcore
