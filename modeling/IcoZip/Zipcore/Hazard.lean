import IcoZip.Zipcore.Returns

/-! What a step needs, and what it comes to.

A step executes an instruction word where one waits in the operand stage when it is
asked for. It may then be left in the middle of the word for good.
-/

set_option autoImplicit false

namespace IcoZip.Zipcore

namespace Core
variable {aw : Nat} (b : Build aw) (s : Core aw)

/-- What the arithmetic unit makes of the operands that wait. -/
def aluResult : BitVec 32 := (s.alu.cpuops b.optShifts false ⟨true, s.dcd.dcd.op, s.opAv, s.opBv⟩).oC

/-- The instruction that waits may end in an error of the supervisor, or put the mode to sleep. -/
def hazard : Bool :=
  s.setCond &&
    (s.opValidMem &&
        (!s.gie || !s.dcd.dcd.op.getLsbD 0 && s.dcd.dcd.dcdR.extractLsb' 0 4 == Idecode.CPU_CC_REG) ||
      s.opValidAlu && s.dcd.dcd.wR && s.dcd.dcd.dcdR.extractLsb' 0 4 == Idecode.CPU_CC_REG &&
        dozes s.gie (s.aluResult b))

variable {b s} {i : Inputs aw} {p : Pending}

theorem user_reg (reg : BitVec 5) (gie : Bool) (cc : reg.extractLsb' 0 4 = Idecode.CPU_CC_REG)
    (user : reg.getLsbD 4 = gie) : reg = ccReg gie := by
  revert reg gie
  decide

/-- An instruction that can be executed at once is not overtaken by an interrupt. -/
theorem Ready.unswitched (ready : s.Ready) (stopped : s.Stopped p) (answers : p.Answers i)
    (released : i.halt = false) : s.wSwitchToInterrupt i = false := by
  have err := (answers.quiet stopped.nothing).2.1
  have lock : s.rPendingInterrupt = true → s.oBusLock = true := ready.interrupt
  cases pending : s.rPendingInterrupt <;>
    simp_all [wSwitchToInterrupt, pendingInterrupt, stopped.wrRegCe answers, stopped.calm.div.err]

/-- The operands go to the arithmetic unit as they are. -/
theorem aluResult_clock (asked : s.aluCe i = true) : (s.zipcore b i).alu.oC = s.aluResult b := by
  change (s.alu.cpuops b.optShifts (i.reset || s.newPc) ⟨s.aluCe i, _, _, _⟩).oC = _
  rw [asked]
  rfl

/-- A stopped core is let go with the first half of a word in its operand stage. -/
structure Opens (b : Build aw) (s : Core aw) (i : Inputs aw) (p : Pending) : Prop where
  stopped : s.Stopped p
  steady : s.Steady
  staged : s.Staged b
  answers : p.Answers i
  released : i.halt = false
  reset : i.reset = false
  unasked : i.dbgWe = false
  ready : s.Ready
  first : s.opPhase = true

section Opens
variable (opens : s.Opens b i p)
include opens

theorem Opens.waits : b.optCis = true ∧ s.dcd.phase = true := by
  have first := opens.first
  rw [(opens.staged.fetched opens.ready.valid opens.ready.same).phase, Bool.and_eq_true, Bool.and_eq_true] at first
  exact ⟨first.1, first.2.1⟩

theorem Opens.half : s.dcd.dcd.Half := opens.staged.half opens.waits.2

theorem Opens.mode : s.dcd.dcd.dcdR.getLsbD 4 = s.gie := opens.staged.mode opens.waits.2 opens.ready.same

/-- It is for the arithmetic unit or for the memory unit, and not for both. -/
theorem Opens.units : s.opValidDiv = false ∧ (s.opValidMem && s.opValidAlu) = false := by
  have fetched := opens.staged.fetched opens.ready.valid opens.ready.same
  have legal := fetched.illegal.symm.trans opens.ready.legal
  have half := opens.half
  have apart := half.apart
  constructor
  · simp [fetched.div, half.div]
  · simpa [fetched.mem, fetched.alu, legal] using apart

theorem Opens.unwritten : s.wrRegCe i = false := opens.stopped.wrRegCe opens.answers

theorem Opens.unswitched : s.wSwitchToInterrupt i = false :=
  opens.ready.unswitched opens.stopped opens.answers opens.released

theorem Opens.gie : (s.zipcore b i).gie = s.gie := by
  simp [Core.zipcore, opens.reset, opens.unswitched, wReleaseFromInterrupt, opens.unwritten]

theorem Opens.aluReg : (s.zipcore b i).aluReg = s.dcd.dcd.dcdR := by simp [Core.zipcore, dbgTaken, opens.unasked]

/-- The memory unit is asked for what the instruction says, if it is. -/
theorem Opens.asks (outstanding : p.next s i ≠ .nothing) : (s.setCond = true ∧ s.opValidMem = true) ∧
    p.next s i = if s.dcd.dcd.op.getLsbD 0 then .store else .load s.dcd.dcd.dcdR := by
  cases asked : s.oMemCe i with
  | false => simp [Pending.next, opens.reset, asked, opens.stopped.nothing] at outstanding
  | true =>
    refine ⟨?_, by simp [Pending.next, opens.reset, asked]⟩
    simp only [oMemCe, memCe, Bool.and_eq_true] at asked
    exact ⟨asked.2, asked.1.1.1.2⟩

theorem Opens.calm : (s.zipcore b i).alu.busy = false ∧ (s.zipcore b i).div.Idle := by
  constructor
  · exact opens.steady.alu.single b.optShifts _ _ opens.stopped.calm.alu.busy
      (by simp [Cpuops.thisIsAMultiplyOp, aluInputs, opens.half.single])
  · exact opens.steady.div.idle _ _ opens.stopped.calm.div.busy (by simp [divInputs, divCe, opens.units.1])

/-- Nothing is in the way of the second half, where the first one is without a hazard. -/
theorem Opens.lively (safe : s.hazard b = false) : (s.zipcore b i).Lively (p.next s i) := by
  have ready := opens.ready
  have unwritten := opens.unwritten
  have busErr := (opens.answers.quiet opens.stopped.nothing).2.1
  constructor
  · exact opens.calm.2
  · exact opens.calm.1
  · simp [Core.zipcore, ready.same, opens.stopped.calm.dcd, ready.brk]
  · simp [Core.zipcore, ready.same, opens.reset, opens.stopped.calm.dcd, ready.legal]
  · simp [Core.zipcore, nextErrI, ready.illErr, ready.legal]
  · simp [Core.zipcore, nextErrI, ready.busErr, busErr]
  · simp [Core.zipcore, nextErrI, ready.divErr, opens.stopped.calm.div.err]
  · simp [Core.zipcore, dbgTaken, opens.unasked]
  · simp [Core.zipcore, nextSleep, opens.reset, opens.unswitched, unwritten, ready.awake]
  · intro outstanding
    obtain ⟨⟨met, mem⟩, -⟩ := opens.asks outstanding
    rw [opens.gie]
    by_contra supervisor
    simp [hazard, met, mem, supervisor] at safe
  · intro reg load
    obtain ⟨⟨met, mem⟩, is⟩ := opens.asks (load ▸ Pending.noConfusion)
    rw [load] at is
    cases store : s.dcd.dcd.op.getLsbD 0 with
    | true => simp [store] at is
    | false =>
      have number : reg = s.dcd.dcd.dcdR := by
        rw [store, if_neg Bool.false_ne_true] at is
        exact Pending.load.inj is
      simp only [hazard, met, mem, store, Bool.not_false, Bool.true_and, Bool.or_eq_false_iff] at safe
      rw [number]
      exact ne_of_beq_false safe.1.2
  · intro valid writes cc
    have asked : s.aluCe i = true := by
      by_contra unasked
      have idle := opens.steady.alu.idle b.optShifts (i.reset || s.newPc) (s.aluInputs i) opens.stopped.calm.alu.busy
        (Bool.eq_false_of_not_eq_true unasked)
      exact Bool.false_ne_true (idle.valid.symm.trans valid)
    have write : s.dcd.dcd.wR = true ∧ s.setCond = true := by
      have all : (s.dcd.dcd.wR && s.setCond && !s.opIllegal) = true := writes
      simp only [Bool.and_eq_true] at all
      exact all.1
    rw [opens.aluReg] at cc
    rw [opens.aluReg, opens.gie, aluResult_clock asked]
    simp only [aluCe, Bool.and_eq_true] at asked
    refine ⟨user_reg _ _ cc opens.mode, ?_⟩
    simp only [hazard, write, asked.2, cc, beq_self_eq_true, Bool.true_and, Bool.or_eq_false_iff] at safe
    exact safe.2

end Opens

/-! ### The middle of a word for good -/

/-- Nothing is left of the first half, and the second one is not executed any more: the mode is asleep, or an error of
the supervisor waits for the debugger. -/
structure Stuck (s : Core aw) (p : Pending) : Prop where
  phase : s.aluPhase = true
  same : s.newPc = false
  clears : s.clearIcache = false
  pipe : s.dbgClearPipe = false
  running : s.halted = false
  nothing : p = .nothing
  untaken : s.dbgv = false
  alu : s.alu.Idle
  div : s.div.Idle
  dead : s.sleep = true ∨ s.ibusErr = true ∧ s.gie = false

/-- The first half has been let go, and its result is to come. -/
structure Begun (s : Core aw) : Prop where
  phase : s.aluPhase = true
  same : s.newPc = false
  clears : s.clearIcache = false
  pipe : s.dbgClearPipe = false
  running : s.halted = false
  untaken : s.dbgv = false
  busy : s.alu.busy = false
  div : s.div.Idle

theorem Stuck.begun (stuck : s.Stuck p) : s.Begun :=
  ⟨stuck.phase, stuck.same, stuck.clears, stuck.pipe, stuck.running, stuck.untaken, stuck.alu.busy, stuck.div⟩

/-- The first half has come to a bad end. -/
theorem Begun.stuck (begun : s.Begun) (optCis : b.optCis = true) (steady : s.Steady) (reset : i.reset = false)
    (idle : s.adfCe i = false ∧ s.memCe i = false) (goes : s.nextNewPc i = false)
    (keeps : (s.writesScc i && (s.wrSpregVl i).getLsbD CPU_CLRICACHE_BIT) = false) (past : p.next s i = .nothing)
    (dead : s.nextSleep i = true ∨ s.nextErrI i s.ibusErr CPU_BUSERR_BIT i.busErr = true ∧ s.gie = false) :
    (s.zipcore b i).Stuck (p.next s i) where
  phase := by simp [Core.zipcore, nextAluPhase, optCis, reset, begun.same, idle, begun.phase]
  same := goes
  clears := by simp [Core.zipcore, nextClearIcache, reset, oDbgStall, begun.running, keeps]
  pipe := by simp [Core.zipcore, nextDbgClearPipe, begun.running]
  running := by simp [Core.zipcore, nextHalted, reset, begun.running, begun.phase]
  nothing := past
  untaken := by simp [Core.zipcore, begun.running]
  alu := steady.alu.idle b.optShifts _ _ begun.busy (by simp [aluInputs, aluCe, idle])
  div := steady.div.idle _ _ begun.div.busy (by simp [divInputs, divCe, idle])
  dead := by
    rw [gie_same goes]
    exact dead

theorem Stuck.clock (stuck : s.Stuck p) (optCis : b.optCis = true) (steady : s.Steady) (reset : i.reset = false)
    (answers : p.Answers i) : (s.zipcore b i).Stuck (p.next s i) := by
  obtain ⟨memValid, busErr, memBusy⟩ := answers.quiet stuck.nothing
  have unwritten : s.wrRegCe i = false := by
    simp [wrRegCe, stuck.untaken, memValid, stuck.div.valid, stuck.alu.valid]
  have unswitched : s.wSwitchToInterrupt i = false := by
    simp [wSwitchToInterrupt, stuck.phase, stuck.div.err, busErr, unwritten]
  have idle : s.adfCe i = false ∧ s.memCe i = false := by
    rcases stuck.dead with asleep | ⟨err, -⟩
    · simp [adfCe, memCe, masterStall, masterCe, asleep]
    · simp [adfCe, memCe, masterStall, err]
  refine stuck.begun.stuck optCis steady reset idle ?_ ?_ ?_ ?_
  · simp [nextNewPc, reset, stuck.clears, stuck.pipe, unswitched, wReleaseFromInterrupt, unwritten, writesPc]
  · simp [writesScc, unwritten]
  · simp [Pending.next, oMemCe, idle, memBusy]
  · rcases stuck.dead with asleep | ⟨err, supervisor⟩
    · exact .inl (by simp [nextSleep, reset, unswitched, unwritten, asleep])
    · exact .inr ⟨by simp [nextErrI, reset, stuck.untaken, err], supervisor⟩

/-- A bus error of the supervisor in the first half. -/
theorem Begun.fails (begun : s.Begun) (optCis : b.optCis = true) (steady : s.Steady) (reset : i.reset = false)
    (empty : s.opValid = false) (valid : s.alu.valid = false) (supervisor : s.gie = false)
    (fails : i.memValid = false ∧ i.busErr = true) : (s.zipcore b i).Stuck (p.next s i) := by
  have unwritten : s.wrRegCe i = false := by simp [wrRegCe, begun.untaken, fails, begun.div.valid, valid]
  have idle := unasked_empty (i := i) empty
  refine begun.stuck optCis steady reset idle ?_ ?_ ?_ (.inr ⟨?_, supervisor⟩)
  · simp [nextNewPc, reset, begun.clears, begun.pipe, wSwitchToInterrupt, supervisor, wReleaseFromInterrupt, unwritten,
      writesPc]
  · simp [writesScc, unwritten]
  · simp [Pending.next, oMemCe, idle, fails]
  · simp [nextErrI, reset, begun.untaken, fails, supervisor]

/-- The first half puts the mode to sleep. -/
theorem Begun.dozes (begun : s.Begun) (optCis : b.optCis = true) (steady : s.Steady) (reset : i.reset = false)
    (empty : s.opValid = false) (write : s.wrRegCe i = true) (cc : s.wrRegId i = ccReg s.gie)
    (dozes : dozes s.gie (s.wrSpregVl i) = true) (answered : i.memBusy = false ∧ i.busErr = false) :
    (s.zipcore b i).Stuck (p.next s i) := by
  have idle := unasked_empty (i := i) empty
  have past : p.next s i = .nothing := by simp [Pending.next, oMemCe, idle, answered]
  simp only [Core.dozes, Bool.and_eq_true, beq_iff_eq] at dozes
  obtain ⟨⟨sleeps, mode⟩, keeps⟩ := dozes
  have number : s.wrWriteCc i = true ∧ s.wrWritePc i = false ∧ s.wrUser i = s.gie ∧ s.wrWriteScc i = !s.gie := by
    rw [wrWriteCc, wrWritePc, wrUser, wrWriteScc, cc]
    cases s.gie <;> decide
  obtain ⟨isCc, noPc, user, isScc⟩ := number
  refine begun.stuck optCis steady reset idle ?_ ?_ past (.inl ?_)
  · cases gie : s.gie <;>
      simp_all [nextNewPc, begun.clears, begun.pipe, wSwitchToInterrupt, begun.phase, begun.div.err,
        wReleaseFromInterrupt, writesPc]
  · cases gie : s.gie <;> simp_all [writesScc]
  · cases gie : s.gie <;>
      simp_all [nextSleep, wSwitchToInterrupt, begun.phase, begun.div.err]

/-- The state behind the clock in which the first half is let go. -/
theorem Opens.begun (opens : s.Opens b i p) (executes : s.executes i = true) (uncleared : i.clearCache = false)
    (clears : s.clearIcache = false) (pipe : s.dbgClearPipe = false) : (s.zipcore b i).Begun where
  phase := (opens.stopped.executes_clock opens.staged opens.reset executes).1.trans opens.first
  same := by
    simp [Core.zipcore, nextNewPc, opens.reset, clears, pipe, opens.unswitched, wReleaseFromInterrupt, opens.unwritten,
      writesPc]
  clears := by simp [Core.zipcore, nextClearIcache, uncleared, writesScc, opens.unwritten]
  pipe := by simp [Core.zipcore, nextDbgClearPipe, dbgTaken, opens.unasked, uncleared]
  running := by simp [Core.zipcore, nextHalted, opens.released]
  untaken := by simp [Core.zipcore, dbgTaken, opens.unasked]
  busy := opens.calm.1
  div := opens.calm.2

/-- Where the result of the first half comes from. -/
theorem Opens.wrIndex (opens : s.Opens b i p) :
    (s.zipcore b i).wrIndex = BitVec.ofBool s.opValidAlu ++ BitVec.ofBool s.opValidMem := by
  simp [Core.zipcore, nextWrIndex, dbgTaken, opens.unasked, opens.ready.valid, opens.units.1]

theorem Opens.emptied (opens : s.Opens b i p) (executes : s.executes i = true) : (s.zipcore b i).Emptied :=
  (opens.stopped.executes_clock opens.staged opens.reset executes).2.2

/-- The memory unit is asked. -/
theorem Opens.mem_clock (opens : s.Opens b i p) (executes : s.executes i = true) (mem : s.opValidMem = true)
    (met : s.setCond = true) :
    p.next s i = (if s.dcd.dcd.op.getLsbD 0 then .store else .load s.dcd.dcd.dcdR) ∧
      (s.zipcore b i).alu.valid = false ∧ (s.zipcore b i).wrIndex = 0b01#2 := by
  have adf : s.adfCe i = false := by simp [adfCe, mem]
  have asked : s.oMemCe i = true := by simpa [oMemCe, met, Core.executes, adf] using executes
  have noAlu : s.opValidAlu = false := by simpa [mem] using opens.units.2
  refine ⟨by simp [Pending.next, opens.reset, asked], ?_, by rw [opens.wrIndex, noAlu, mem]; rfl⟩
  exact (opens.steady.alu.idle b.optShifts _ _ opens.stopped.calm.alu.busy (by simp [aluInputs, aluCe, adf])).valid

/-- The arithmetic unit is asked. -/
theorem Opens.alu_clock (opens : s.Opens b i p) (executes : s.executes i = true) (alu : s.opValidAlu = true) :
    p.next s i = .nothing ∧ (s.zipcore b i).wrIndex = 0b10#2 ∧ (s.zipcore b i).alu.valid = true ∧
      (s.zipcore b i).wrDiscard = (s.zipcore b i).newPc ∧ (s.zipcore b i).alu.oC = s.aluResult b := by
  have noMem : s.opValidMem = false := by simpa [alu] using opens.units.2
  have mem : s.memCe i = false := by simp [memCe, noMem]
  have asked : s.aluCe i = true := by
    simp only [Core.executes, mem, Bool.or_false, Bool.and_eq_true] at executes
    simp [aluCe, executes.1.1, alu]
  have single : Cpuops.thisIsAMultiplyOp (s.aluInputs i) = false := by
    simp [Cpuops.thisIsAMultiplyOp, aluInputs, opens.half.single]
  refine ⟨?_, by rw [opens.wrIndex, alu, noMem]; rfl, ?_, ?_, aluResult_clock asked⟩
  · simp [Pending.next, oMemCe, mem, opens.stopped.nothing]
  · have free : (i.reset || s.newPc) = false := by simp [opens.reset, opens.ready.same]
    change (s.alu.cpuops b.optShifts (i.reset || s.newPc) (s.aluInputs i)).valid = true
    have stb : (s.aluInputs i).stb = true := asked
    cases clocked : s.alu.mpy.clocked <;> simp [Cpuops.cpuops, free, single, clocked, stb]
  · simp [wrDiscard, Core.zipcore, opens.reset, opens.ready.same, opens.stopped.calm.dcd, opens.ready.legal]

/-- Behind an exception there is nothing that can be executed at once. -/
theorem Ready.unbroken (ready : (s.zipcore b i).Ready) (calm : s.Calm) (untaken : s.dbgv = false)
    (reset : i.reset = false) (busErr : i.busErr = false) : s.oBreak i = false := by
  have brk : s.newPc = false → s.opBreak = false := by
    intro same
    have next := ready.brk
    simpa [Core.zipcore, same, calm.dcd] using next
  have illegal : s.newPc = false → s.opIllegal = false := by
    intro same
    have next := ready.legal
    simpa [Core.zipcore, same, reset, calm.dcd] using next
  have flag : s.illErrI = false := by
    have next : s.nextErrI i s.illErrI CPU_ILL_BIT (s.opIllegal && !s.newPc) = false := ready.illErr
    by_contra err
    simp [nextErrI, reset, untaken, Bool.not_eq_false _ ▸ err] at next
  cases same : s.newPc with
  | true => simp [oBreak, same, flag, busErr, calm.div.err]
  | false => simp [oBreak, same, flag, busErr, calm.div.err, brk same, illegal same]

end Core

namespace System
variable {aw : Nat} {b : Build aw} {x : System aw} {e : Inputs aw}

/-! ### The command -/

/-- A command to step comes to a halted CPU. -/
structure Commands (x : System aw) (e : Inputs aw) : Prop where
  halted : x.Halted
  up : x.Up e
  answers : x.Answers e
  steps : Steps e

structure Commanded (b : Build aw) (x : System aw) (e : Inputs aw) : Prop extends x.Commands e where
  good : x.Good b

section Commanded
variable (commanded : x.Commanded b e)
include commanded

theorem Commanded.here : x.zip.cpu.halted = true := (stopped_iff.mp commanded.halted.stopped).1

theorem Commanded.unwritten : x.zip.cpu.wrRegCe (x.coreInputs e) = false := by
  have ce : x.zip.cpu.wrRegCe (x.coreInputs e) = x.zip.cpu.dbgv :=
    Core.wrRegCe_halted commanded.good.sound.core commanded.here commanded.answers
  rw [ce, commanded.halted.untaken commanded.good.sound]

theorem Commanded.unwriting : Port.regWrite e.dbg = false := by
  have command := commanded.steps.command
  simp only [Port.dbgCmdWrite, Bool.and_eq_true] at command
  simp [Port.regWrite, command]

theorem Commanded.letGo : (x.clock b true e).LetGo b where
  good := commanded.good.clock
  stopped := commanded.halted.stopped_clock commanded.good commanded.up commanded.answers
  empty := by
    have room : x.zip.port.takesWrite (x.seen e) = true := by simp [Port.takesWrite, commanded.halted.empty]
    change (x.zip.port.clock true e.dbg (x.seen e)).cmdWrite = false
    simp [Port.clock, commanded.up.port, room, commanded.unwriting]
  step := by
    change x.zip.port.nextCmdStep e.dbg (x.seen e) = true
    simp [Port.nextCmdStep, commanded.up.port, commanded.steps.command, commanded.steps.step]

theorem Commanded.out : (x.clock b true e).Out where
  hold := resetHold_clock commanded.up commanded.good.counted
  core := by
    change x.zip.port.nextCmdReset true e.dbg (x.seen e) = false
    simp [Port.nextCmdReset, commanded.up.port, commanded.up.hold, commanded.steps.reset]

theorem Commanded.unbroken (ready : (x.clock b true e).zip.cpu.Ready) : (x.seen e).break_ = false := by
  obtain ⟨calm, nothing⟩ := commanded.good.sound.core.calm commanded.here
  have busErr := (commanded.answers.quiet nothing).2.1
  exact ready.unbroken calm (commanded.halted.untaken commanded.good.sound) commanded.up.core busErr

/-- The core is let go, unless a step or a clearing of the cache is under way already. -/
theorem Commanded.released_iff (ready : (x.clock b true e).zip.cpu.Ready) :
    (x.clock b true e).zip.port.cmdHalt = false ↔ x.zip.port.cmdStep = false ∧ x.zip.port.cmdClearCache = false := by
  have releases : x.zip.port.releases e.dbg (x.seen e) = true := by
    simp [Port.releases, commanded.halted.empty, commanded.steps.command, commanded.steps.step, seen, Zipbones.seen,
      commanded.halted.stopped]
  have halts : x.zip.port.halts true e.dbg (x.seen e) = (x.zip.port.cmdStep || x.zip.port.cmdClearCache) := by
    simp [Port.halts, commanded.unbroken ready, commanded.steps.step, commanded.steps.cache, commanded.unwriting]
  change x.zip.port.nextCmdHalt true e.dbg (x.seen e) = false ↔ _
  simp only [Port.nextCmdHalt, commanded.up.port, commanded.up.core, halts, releases]
  cases x.zip.port.cmdStep <;> cases x.zip.port.cmdClearCache <;> simp

/-- Nothing sends the program elsewhere when the core is let go. -/
theorem Commanded.kept (uncleared : x.zip.port.cmdClearCache = false) :
    (x.clock b true e).zip.port.cmdClearCache = false ∧ (x.clock b true e).zip.cpu.clearIcache = false ∧
      (x.clock b true e).zip.cpu.dbgClearPipe = false := by
  have clear : (x.coreInputs e).clearCache = false := uncleared
  have unasked : (x.coreInputs e).dbgWe = false := commanded.halted.empty
  refine ⟨?_, ?_, ?_⟩
  · change x.zip.port.nextCmdClearCache e.dbg (x.seen e) = false
    simp [Port.nextCmdClearCache, commanded.steps.cache, uncleared]
  · change x.zip.cpu.nextClearIcache (x.coreInputs e) = false
    simp [Core.nextClearIcache, clear, Core.writesScc, commanded.unwritten]
  · change x.zip.cpu.nextDbgClearPipe (x.coreInputs e) = false
    simp [Core.nextDbgClearPipe, Core.dbgTaken, unasked, clear]

end Commanded

theorem LetGo.opens (go : x.LetGo b) (waits : x.Waits e) (released : x.zip.port.cmdHalt = false)
    (ready : x.zip.cpu.Ready) (first : x.zip.cpu.opPhase = true) :
    x.zip.cpu.Opens b (x.coreInputs e) x.mem where
  stopped := go.stopped
  steady := go.good.sound.core.steady
  staged := go.good.staged
  answers := waits.answers
  released := released
  reset := waits.up.core
  unasked := go.empty
  ready := ready
  first := first

/-- A word without a hazard comes to its end. -/
theorem LetGo.ending (go : x.LetGo b) (waits : x.Waits e)
    (safe : x.zip.cpu.opPhase = true → x.zip.cpu.hazard b = false) : (x.clock b true e).Ending b where
  good := go.good.clock
  out := waits.out_clock go.good.counted
  halt := go.halt waits
  empty := unasked_clock waits.up (.inl go.empty) waits.silent
  finishes := by
    intro more
    have executes : x.zip.cpu.executes (x.coreInputs e) = true := by
      by_contra none
      have past := (go.stopped.nothing_clock (b := b) go.good.staged (Bool.eq_false_of_not_eq_true none)).2
      exact Bool.false_ne_true (past.symm.trans more)
    obtain ⟨released, ready⟩ := (go.executing_iff waits).mp executes
    obtain ⟨phase, second, -⟩ := go.stopped.executes_clock go.good.staged (i := x.coreInputs e) waits.up.core executes
    have first : x.zip.cpu.opPhase = true := phase.symm.trans more
    have opens := go.opens waits released ready first
    exact ⟨opens.waits.1, second first, .inr (opens.lively (safe first))⟩

theorem LetGo.returns (go : x.LetGo b) (out : x.Out) (safe : x.zip.cpu.opPhase = true → x.zip.cpu.hazard b = false)
    {es : List (Inputs aw)} (always : Clocked.Always (clock b true) Waits x es) :
    (Clocked.run (clock b true) x es).Returns b := by
  cases es with
  | nil => exact .step out.waits (go.ending out.waits safe).returns
  | cons e es => exact ((go.ending always.1 safe).run always.2).returns

/-! ### The hazards -/

/-- A memory unit that reports a bus error. -/
def failing (x : System aw) : Inputs aw :=
  { x.prompt with units := { x.prompt.units with memValid := false, busErr := true } }

/-- A memory unit that loads a value. -/
def loading (x : System aw) (v : BitVec 32) : Inputs aw :=
  { x.prompt with units := { x.prompt.units with memResult := v } }

theorem Out.failing_waits (out : x.Out) (outstanding : x.mem ≠ .nothing) : x.Waits x.failing where
  up := ⟨rfl, out.hold, out.core⟩
  silent := rfl
  answers := ⟨fun _ => rfl, fun valid => absurd valid Bool.false_ne_true, fun _ => outstanding,
    fun _ => .inr (.inr (.inr rfl))⟩

theorem Out.loading_waits (out : x.Out) (v : BitVec 32) : x.Waits (x.loading v) where
  up := ⟨rfl, out.hold, out.core⟩
  silent := rfl
  answers := ⟨out.waits.answers.idle, out.waits.answers.valid, out.waits.answers.error, out.waits.answers.busy⟩

theorem loading_load (x : System aw) {reg : BitVec 5} (load : x.mem = .load reg) (v : BitVec 32) :
    (x.coreInputs (x.loading v)).memValid = true ∧ (x.coreInputs (x.loading v)).memWreg = reg ∧
      (x.coreInputs (x.loading v)).memResult = v := by
  simp [coreInputs, Zipbones.coreInputs, loading, prompt, load]

/-- A CPU that is stuck in the middle of a word never reports that it has halted. -/
theorem stuck_run (optCis : b.optCis = true) (good : x.Good b) (stuck : x.zip.cpu.Stuck x.mem) {es : List (Inputs aw)}
    (always : Clocked.Always (clock b true) Waits x es) : ¬(Clocked.run (clock b true) x es).Halted := by
  intro halted
  have both : (Clocked.run (clock b true) x es).Good b ∧
      (Clocked.run (clock b true) x es).zip.cpu.Stuck (Clocked.run (clock b true) x es).mem := by
    refine @Clocked.run_invariant _ _ _ _ (fun x => x.Good b ∧ x.zip.cpu.Stuck x.mem) (fun x e both waits => ?_) _ _
      ⟨good, stuck⟩ always
    exact ⟨both.1.clock, both.2.clock optCis both.1.sound.core.steady waits.up.core waits.answers⟩
  exact Bool.false_ne_true (both.2.running.symm.trans (stopped_iff.mp halted.stopped).1)

/-- A word with a hazard may never come to its end. -/
theorem LetGo.stuck (go : x.LetGo b) (out : x.Out) (released : x.zip.port.cmdHalt = false) (ready : x.zip.cpu.Ready)
    (first : x.zip.cpu.opPhase = true) (hazard : x.zip.cpu.hazard b = true)
    (kept : x.zip.port.cmdClearCache = false ∧ x.zip.cpu.clearIcache = false ∧ x.zip.cpu.dbgClearPipe = false) :
    ∃ y e, y = x.clock b true x.prompt ∧ y.Waits e ∧ (y.clock b true e).zip.cpu.Stuck (y.clock b true e).mem := by
  have waits := out.waits
  have opens := go.opens waits released ready first
  have executes := (go.executing_iff waits).mpr ⟨released, ready⟩
  have begun := opens.begun executes kept.1 kept.2.1 kept.2.2
  have empty := (opens.emptied executes).op
  have mode := opens.gie
  have optCis := opens.waits.1
  have out₁ := waits.out_clock (b := b) go.good.counted
  have good₁ : (x.clock b true x.prompt).Good b := go.good.clock
  have steady₁ := good₁.sound.core.steady
  simp only [Core.hazard, Bool.and_eq_true, Bool.or_eq_true, Bool.not_eq_true', beq_iff_eq] at hazard
  obtain ⟨met, ⟨mem, supervisor | ⟨load, cc⟩⟩ | ⟨⟨⟨alu, writes⟩, cc⟩, dozes⟩⟩ := hazard
  · -- A memory operation of the supervisor that fails: the processor halts for good.
    obtain ⟨asked, quiet, -⟩ := opens.mem_clock executes mem met
    have outstanding : (x.clock b true x.prompt).mem ≠ .nothing := by
      change x.mem.next x.zip.cpu (x.coreInputs x.prompt) ≠ .nothing
      rw [asked]
      split <;> exact Core.Pending.noConfusion
    refine ⟨_, _, rfl, out₁.failing_waits outstanding, ?_⟩
    exact begun.fails optCis steady₁ out₁.core empty quiet (mode.trans supervisor) ⟨rfl, rfl⟩
  · -- A load into CC: memory has a value that puts the processor to sleep.
    obtain ⟨asked, -, index⟩ := opens.mem_clock executes mem met
    rw [load, if_neg Bool.false_ne_true, Core.user_reg _ _ cc opens.mode] at asked
    change (x.clock b true x.prompt).mem = .load (Core.ccReg x.zip.cpu.gie) at asked
    change (x.clock b true x.prompt).zip.cpu.wrIndex = 0b01#2 at index
    change (x.clock b true x.prompt).zip.cpu.gie = x.zip.cpu.gie at mode
    let y := x.clock b true x.prompt
    let v := if x.zip.cpu.gie then 0x30#32 else 0x10#32
    obtain ⟨valid, number, value⟩ := y.loading_load asked v
    have sleeps : ∀ gie : Bool, Core.dozes gie (if gie then 0x30#32 else 0x10#32) = true := by decide
    refine ⟨y, y.loading v, rfl, out₁.loading_waits v, ?_⟩
    refine begun.dozes optCis steady₁ out₁.core empty ?_ ?_ ?_ ⟨rfl, rfl⟩
    · change y.zip.cpu.wrRegCe (y.coreInputs (y.loading v)) = true
      simp [Core.wrRegCe, y, index, valid]
    · change y.zip.cpu.wrRegId (y.coreInputs (y.loading v)) = Core.ccReg y.zip.cpu.gie
      simp [Core.wrRegId, y, valid, number, mode]
    · change Core.dozes y.zip.cpu.gie (y.zip.cpu.wrSpregVl (y.coreInputs (y.loading v))) = true
      have written : y.zip.cpu.wrSpregVl (y.coreInputs (y.loading v)) = v := by
        simp [Core.wrSpregVl, y, index, value]
      rw [written]
      exact mode ▸ sleeps x.zip.cpu.gie
  · -- The ALU writes CC itself, and its result puts the processor to sleep.
    obtain ⟨unasked, index, valid, discard, value⟩ := opens.alu_clock executes alu
    let y := x.clock b true x.prompt
    change y.mem = .nothing at unasked
    change y.zip.cpu.wrIndex = 0b10#2 at index
    change y.zip.cpu.alu.valid = true at valid
    change y.zip.cpu.wrDiscard = y.zip.cpu.newPc at discard
    change y.zip.cpu.alu.oC = x.zip.cpu.aluResult b at value
    change y.zip.cpu.gie = x.zip.cpu.gie at mode
    have same : y.zip.cpu.newPc = false := begun.same
    have wR : y.zip.cpu.aluWR = true := by
      change (x.zip.cpu.dcd.dcd.wR && x.zip.cpu.setCond && !x.zip.cpu.opIllegal) = true
      simp [writes, met, ready.legal]
    have silent : (y.coreInputs y.prompt).memValid = false := by
      simp [coreInputs, Zipbones.coreInputs, prompt, unasked]
    have number : y.zip.cpu.aluReg = Core.ccReg x.zip.cpu.gie :=
      opens.aluReg.trans (Core.user_reg _ _ cc opens.mode)
    refine ⟨y, y.prompt, rfl, out₁.waits, ?_⟩
    refine begun.dozes optCis steady₁ out₁.core empty ?_ ?_ ?_ ⟨rfl, rfl⟩
    · change y.zip.cpu.wrRegCe (y.coreInputs y.prompt) = true
      simp [Core.wrRegCe, index, discard, same, wR, valid]
    · change y.zip.cpu.wrRegId (y.coreInputs y.prompt) = Core.ccReg y.zip.cpu.gie
      simp [Core.wrRegId, silent, number, mode]
    · change Core.dozes y.zip.cpu.gie (y.zip.cpu.wrSpregVl (y.coreInputs y.prompt)) = true
      simpa [Core.wrSpregVl, index, value, mode] using dozes

/-! ### One step, and many -/

/-- A step finds something to do: no step and no clearing of the cache is under way, and when the command has arrived an
instruction waits that can be executed at once. -/
structure Finds (b : Build aw) (x : System aw) (e : Inputs aw) : Prop where
  step : x.zip.port.cmdStep = false
  cache : x.zip.port.cmdClearCache = false
  ready : (x.clock b true e).zip.cpu.Ready

/-- What a step finds comes to its end: it has no hazard if it is the first half of a word. -/
structure Prepared (b : Build aw) (x : System aw) (e : Inputs aw) : Prop extends x.Finds b e where
  safe : (x.clock b true e).zip.cpu.opPhase = true → (x.clock b true e).zip.cpu.hazard b = false

theorem Commanded.finds_iff (commanded : x.Commanded b e) :
    x.Finds b e ↔ (x.clock b true e).zip.port.cmdHalt = false ∧ (x.clock b true e).zip.cpu.Ready := by
  constructor
  · intro finds
    exact ⟨(commanded.released_iff finds.ready).mpr ⟨finds.step, finds.cache⟩, finds.ready⟩
  · rintro ⟨released, ready⟩
    obtain ⟨unstepped, uncleared⟩ := (commanded.released_iff ready).mp released
    exact ⟨unstepped, uncleared, ready⟩

theorem Commanded.steps_once_iff (commanded : x.Commanded b e) :
    (x.clock b true e).StepsOnce b true ↔ x.Prepared b e := by
  have go := commanded.letGo
  have out := commanded.out
  constructor
  · intro once
    have finds : x.Finds b e := by
      rw [commanded.finds_iff]
      by_contra held
      obtain ⟨later, always, halted⟩ := once.returns [] trivial
      have word := once.word later always halted
      rw [go.nothing held always] at word
      simp [OneWord] at word
    refine ⟨finds, fun first => ?_⟩
    obtain ⟨released, ready⟩ := commanded.finds_iff.mp finds
    have uncleared := finds.cache
    by_contra hazard
    obtain ⟨y, e', is, waits, stuck⟩ := go.stuck out released ready first (Bool.not_eq_false _ ▸ hazard)
      (commanded.kept uncleared)
    subst is
    obtain ⟨later, always, halted⟩ := once.returns [_, e'] ⟨out.waits, waits, trivial⟩
    have optCis := (go.opens out.waits released ready first).waits.1
    exact stuck_run optCis go.good.clock.clock stuck always halted
  · intro prepared
    have released := (commanded.finds_iff.mp prepared.toFinds).1
    constructor
    · intro es always halted
      exact (go.word released prepared.ready always halted).1
    · intro es always
      obtain ⟨later, both, halted⟩ := go.returns out prepared.safe always
      exact ⟨later, both, (Clocked.run_append _ _ _ _).symm ▸ halted⟩

/-- The instruction words that are executed. -/
def words (b : Build aw) (x : System aw) (es : List (Inputs aw)) : Nat :=
  (Clocked.emitted (clock b true) parts x es).countP (· ≠ .first)

/-- Step commands, each of which comes to a halted CPU and is followed by waiting until the CPU has halted again. -/
def Stepped (b : Build aw) (x : System aw) : List (Inputs aw × List (Inputs aw)) → Prop
  | [] => x.Halted
  | (e, es) :: steps => x.Commands e ∧ Clocked.Always (clock b true) Waits (x.clock b true e) es ∧
      Stepped b (Clocked.run (clock b true) x (e :: es)) steps

def commands (steps : List (Inputs aw × List (Inputs aw))) : List (Inputs aw) := steps.flatMap fun s => s.1 :: s.2

theorem Stepped.halted {steps : List (Inputs aw × List (Inputs aw))} (stepped : Stepped b x steps) : x.Halted := by
  cases steps with
  | nil => exact stepped
  | cons s steps => exact stepped.1.halted

theorem words_cons (e : Inputs aw) (es : List (Inputs aw)) (steps : List (Inputs aw × List (Inputs aw))) :
    words b x (commands ((e, es) :: steps)) =
      words b x (e :: es) + words b (Clocked.run (clock b true) x (e :: es)) (commands steps) := by
  rw [words, commands, List.flatMap_cons, Clocked.emitted_append, List.countP_append]
  rfl

/-- A step executes one word, and leaves the operand stage empty, or none. -/
theorem Commanded.words (commanded : x.Commanded b e) {es : List (Inputs aw)}
    (always : Clocked.Always (clock b true) Waits (x.clock b true e) es)
    (halted : (Clocked.run (clock b true) x (e :: es)).Halted) :
    x.Finds b e ∧ System.words b x (e :: es) = 1 ∧ (Clocked.run (clock b true) x (e :: es)).zip.cpu.Emptied ∨
      ¬x.Finds b e ∧ System.words b x (e :: es) = 0 := by
  have here : x.parts e = [] :=
    Core.parts_halt commanded.halted.halt (commanded.halted.between commanded.good)
  have go := commanded.letGo
  rw [System.words, Clocked.emitted_cons, here, List.nil_append]
  by_cases finds : x.Finds b e
  · obtain ⟨released, ready⟩ := commanded.finds_iff.mp finds
    obtain ⟨word, emptied⟩ := go.word released ready always halted
    refine .inl ⟨finds, ?_, emptied⟩
    rcases word with is | is | is <;> rw [is] <;> rfl
  · rw [go.nothing (fun held => finds (commanded.finds_iff.mpr held)) always]
    exact .inr ⟨finds, rfl⟩

/-- Nothing is found behind a word that has been executed. -/
theorem Commands.finds_nothing (commands : x.Commands e) (good : x.Good b) (emptied : x.zip.cpu.Emptied) :
    ¬x.Finds b e := by
  intro finds
  have empty : (x.clock b true e).zip.cpu.Emptied := emptied.halt commands.halted.halt (commands.halted.between good)
  exact Bool.false_ne_true (empty.op.symm.trans finds.ready.valid)

theorem Stepped.words_le (good : x.Good b) {steps : List (Inputs aw × List (Inputs aw))}
    (stepped : Stepped b x steps) : words b x (commands steps) ≤ steps.length := by
  induction steps generalizing x with
  | nil => exact Nat.le_refl 0
  | cons s steps ih =>
    obtain ⟨commands, always, rest⟩ := stepped
    have more := ih (good.run _) rest
    rw [words_cons, List.length_cons]
    rcases Commanded.words ⟨commands, good⟩ always rest.halted with ⟨-, one, -⟩ | ⟨-, none⟩ <;> omega

/-- Not every one of several steps executes a word. -/
theorem Stepped.words_iff (good : x.Good b) {steps : List (Inputs aw × List (Inputs aw))}
    (stepped : Stepped b x steps) :
    words b x (commands steps) = steps.length ↔ steps = [] ∨ ∃ e es, steps = [(e, es)] ∧ x.Finds b e := by
  cases steps with
  | nil => exact ⟨fun _ => .inl rfl, fun _ => rfl⟩
  | cons s steps =>
    obtain ⟨e, es⟩ := s
    obtain ⟨command, always, rest⟩ := stepped
    have one := Commanded.words ⟨command, good⟩ always rest.halted
    rw [words_cons, List.length_cons]
    cases steps with
    | nil =>
      have none : words b (Clocked.run (clock b true) x (e :: es)) (commands []) = 0 := rfl
      rw [none]
      constructor
      · intro all
        rcases one with ⟨finds, -, -⟩ | ⟨-, zero⟩
        · exact .inr ⟨e, es, rfl, finds⟩
        · simp [zero] at all
      · rintro (absurd | ⟨e', es', is, finds⟩)
        · cases absurd
        · cases is
          rcases one with ⟨-, word, -⟩ | ⟨lost, -⟩
          · rw [word]
            rfl
          · exact absurd finds lost
    | cons s steps =>
      obtain ⟨e', es'⟩ := s
      have good₁ : (Clocked.run (clock b true) x (e :: es)).Good b := good.run (e :: es)
      have most := rest.words_le good₁
      refine ⟨fun all => ?_, fun some => by simp at some⟩
      rcases one with ⟨-, word, emptied⟩ | ⟨-, zero⟩
      · obtain ⟨command', always', rest'⟩ := rest
        have later := rest'.words_le (good₁.run _)
        rcases Commanded.words ⟨command', good₁⟩ always' rest'.halted with ⟨finds, -, -⟩ | ⟨-, none⟩
        · exact absurd finds (command'.finds_nothing good₁ emptied)
        · rw [words_cons] at all
          simp only [List.length_cons] at all
          omega
      · simp only [List.length_cons] at all most
        omega

/-- Whatever has happened since power-up, a step executes one instruction word and comes back by itself just where it
finds the CPU prepared, and of several steps not every one executes a word. -/
theorem steps_iff {mpy : Mpyop} (idle : mpy.pending = false) (regset : BitVec 5 → BitVec 32)
    (before : List (Inputs aw)) {x : System aw}
    (reached : x = Clocked.run (clock b true) (powerUp b true mpy regset) before) :
    (∀ e, x.Commands e → ((x.clock b true e).StepsOnce b true ↔ x.Prepared b e)) ∧
      ∀ steps, Stepped b x steps → (words b x (commands steps) = steps.length ↔
        steps = [] ∨ ∃ e es, steps = [(e, es)] ∧ x.Finds b e) := by
  have good : x.Good b := reached ▸ (good_powerUp idle regset).run before
  refine ⟨fun e commands => ?_, fun steps stepped => stepped.words_iff good⟩
  exact Commanded.steps_once_iff ⟨commands, good⟩

/-- A clock of the debugger's bus, with or without a command to step, and with a fetch unit that has an instruction. -/
def served (command : Bool) : Inputs 24 :=
  ⟨⟨false, true, command, command, 32, 0x100, 0xf#4, false⟩, ⟨true, false, 0, 0, false, false, false, 0, 0⟩⟩

section Served
variable {x : System 24} (hold : x.zip.port.resetHold = false) (core : x.zip.port.cmdReset = false)
  (idle : x.mem = .nothing)
include hold core idle

theorem commands_served (halted : x.Halted) : x.Commands (served true) :=
  ⟨halted, ⟨rfl, hold, core⟩, answers_idle idle rfl rfl rfl, rfl, rfl, rfl, rfl⟩

theorem waits_served : x.Waits (served false) := ⟨⟨rfl, hold, core⟩, answers_idle idle rfl rfl rfl, rfl⟩

end Served

/-- As it is built here: the second step after power-up executes a word. -/
theorem steps_iff_built :
    let x := Clocked.run (clock built true) (powerUp built true .absent fun _ => 9#32)
      (List.replicate 12 (served false) ++ served true :: List.replicate 3 (served false))
    (x.clock built true (served true)).StepsOnce built true ∧
      words built x (commands [(served true, List.replicate 3 (served false))]) = 1 := by
  intro x
  obtain ⟨once, several⟩ := @steps_iff _ built .absent rfl (fun _ => 9#32)
    (List.replicate 12 (served false) ++ served true :: List.replicate 3 (served false)) x rfl
  have commands : x.Commands (served true) :=
    commands_served (by decide +kernel) (by decide +kernel) (by decide +kernel) ⟨⟨by decide +kernel, by decide +kernel⟩,
      by decide +kernel⟩
  have finds : x.Finds built (served true) := by
    refine ⟨by decide +kernel, by decide +kernel, ?_⟩
    constructor <;> decide +kernel
  refine ⟨(once _ commands).mpr ⟨finds, fun first => absurd first (by decide +kernel)⟩, ?_⟩
  refine (several [(served true, List.replicate 3 (served false))] ⟨commands, ?_, ⟨⟨?_, ?_⟩, ?_⟩⟩).mpr
    (.inr ⟨_, _, rfl, finds⟩)
  · refine ⟨waits_served ?_ ?_ ?_, waits_served ?_ ?_ ?_, waits_served ?_ ?_ ?_, trivial⟩ <;> decide +kernel
  · decide +kernel
  · decide +kernel
  · decide +kernel

/-- The first step after power-up only decodes: the CPU halts again, and nothing has been executed. -/
theorem step_decodes :
    let x := Clocked.run (clock built true) (powerUp built true .absent fun _ => 9#32)
      (List.replicate 12 (served false))
    let es := served true :: List.replicate 3 (served false)
    x.Commands (served true) ∧ ¬(x.clock built true (served true)).StepsOnce built true ∧
      (Clocked.run (clock built true) x es).Halted ∧ Clocked.emitted (clock built true) parts x es = [] := by
  intro x es
  have good : x.Good built := (good_powerUp rfl _).run _
  have commands : x.Commands (served true) :=
    commands_served (by decide +kernel) (by decide +kernel) (by decide +kernel) ⟨⟨by decide +kernel, by decide +kernel⟩,
      by decide +kernel⟩
  refine ⟨commands, fun once => ?_, ⟨⟨?_, ?_⟩, ?_⟩, ?_⟩
  · have prepared := (Commanded.steps_once_iff ⟨commands, good⟩).mp once
    have empty : (x.clock built true (served true)).zip.cpu.opValid = false := by decide +kernel
    exact Bool.false_ne_true (empty.symm.trans prepared.ready.valid)
  · decide +kernel
  · decide +kernel
  · decide +kernel
  · decide +kernel

end System

end IcoZip.Zipcore
