import IcoZip.Zipcore.RegisterFile
import IcoZip.Zipcore.Stages

/-! Stepping the CPU through the debug port.

A step lets go of the core for one clock. What the core does with it depends on its
operand stage: an instruction that waits there is executed, and so is the second half
of its word, which holds off the halt.
-/

set_option autoImplicit false

namespace IcoZip.Zipcore

namespace Core
variable {aw : Nat} (b : Build aw) (s : Core aw) (i : Inputs aw)

/-- What is seen of the instruction words that the core gets through: an instruction or the last half of a word is
executed, the first half of one is, or the second half is left out, since the program goes on elsewhere. -/
inductive Part where
  | last
  | first
  | leaves
  deriving DecidableEq, Repr

/-- An instruction is executed. One that is illegal or thrown away in the same clock is not. -/
def executes : Bool := s.adfCe i && !s.newPc && !s.opIllegal || s.memCe i

def parts : List Part :=
  if s.executes i then [if s.opPhase then .first else .last]
  else if s.aluPhase && s.newPc then [.leaves]
  else []

variable {b s i}

theorem adfCe_opValid (ce : s.adfCe i = true) : s.opValid = true := by
  simp only [adfCe, Bool.and_eq_true] at ce
  exact ce.1.2

theorem memCe_opValid (ce : s.memCe i = true) : s.opValid = true := by
  by_contra empty
  simp [memCe, masterStall, empty] at ce

/-- A halted core between two words does nothing. -/
theorem parts_halt (halt : i.halt = true) (phase : s.aluPhase = false) : s.parts i = [] := by
  simp [parts, executes, adfCe_halt halt phase, memCe_halt halt phase, phase]

theorem aluPhase_halt (halt : i.halt = true) (phase : s.aluPhase = false) : (s.zipcore b i).aluPhase = false := by
  simp [Core.zipcore, nextAluPhase, adfCe_halt halt phase, memCe_halt halt phase, phase]

/-- Nothing waits in the decoder or in the operand stage. -/
structure Emptied (s : Core aw) : Prop where
  op : s.opValid = false
  dcd : s.dcd.valid = false

theorem Emptied.halt (emptied : s.Emptied) (halt : i.halt = true) (phase : s.aluPhase = false) :
    (s.zipcore b i).Emptied where
  op := by simp [Core.zipcore, nextOpValid, emptied.op, emptied.dcd]
  dcd := dcdValid_stalled (dcdStalled_halt halt phase)

/-- What has been executed leaves nothing behind it. -/
theorem emptied_ce (valid : s.opValid = true) (empty : s.dcd.valid = false) (ce : (s.adfCe i || s.memCe i) = true) :
    (s.zipcore b i).Emptied where
  op := by simp [opValid_waits valid empty, ce]
  dcd := dcdValid_stalled (dcdStalled_full (.inr valid))

theorem emptied_leaves (new : s.newPc = true) : (s.zipcore b i).Emptied where
  op := by simp [Core.zipcore, nextOpValid, new]
  dcd := by simp [Core.zipcore, Idecode.idecode, Idecode.nextValid, dcdInputs, new]

/-! ### The second half of a word -/

/-- Where the second half of a word is, once the first one has been executed. -/
inductive Second (s : Core aw) : Prop where
  | leaving (new : s.newPc = true)
  | waiting (decoder : s.dcd.valid = false) (empty : s.opValid = false) (phase : s.dcd.phase = true)
      (legal : s.dcd.illegal = false)
  | decoded (decoder : s.dcd.valid = true) (phase : s.dcd.phase = false) (legal : s.dcd.illegal = false)
      (half : s.dcd.dcd.Half)
  | ready (valid : s.opValid = true) (phase : s.dcd.phase = false) (legal : s.dcd.illegal = false)
      (half : s.dcd.dcd.Half)

/-- Nothing goes on from an empty operand stage. -/
theorem unasked_empty (empty : s.opValid = false) : s.adfCe i = false ∧ s.memCe i = false := by
  constructor
  · by_contra ce
    simp [adfCe_opValid (Bool.not_eq_false _ ▸ ce)] at empty
  · by_contra ce
    simp [memCe_opValid (Bool.not_eq_false _ ▸ ce)] at empty

theorem executes_empty (empty : s.opValid = false) : s.executes i = false := by
  simp [executes, unasked_empty (i := i) empty]

theorem executes_ce (executes : s.executes i = true) :
    s.opValid = true ∧ s.newPc = false ∧ (s.adfCe i || s.memCe i) = true := by
  refine ⟨?_, ?_, ?_⟩
  · by_contra empty
    simp [executes_empty (i := i) (Bool.eq_false_of_not_eq_true empty)] at executes
  · by_contra new
    simp [Core.executes, memCe, Bool.not_eq_false _ ▸ new] at executes
  · cases adf : s.adfCe i
    · simpa [Core.executes, adf] using executes
    · rfl

theorem parts_leaves (phase : s.aluPhase = true) (new : s.newPc = true) :
    s.parts i = [.leaves] ∧ (s.zipcore b i).aluPhase = false := by
  have none : s.executes i = false := by simp [executes, memCe, new]
  simp [parts, none, phase, new, Core.zipcore, nextAluPhase]

theorem parts_none (none : s.executes i = false) (same : s.newPc = false) : s.parts i = [] := by
  simp [parts, none, same]

/-- The second half of a word stays what is to come while nothing is executed. -/
theorem aluPhase_waits (optCis : b.optCis = true) (reset : i.reset = false) (same : s.newPc = false)
    (empty : s.opValid = false) : (s.zipcore b i).aluPhase = s.aluPhase := by
  simp [Core.zipcore, nextAluPhase, optCis, reset, same, unasked_empty (i := i) empty]

theorem waiting_clock (optCis : b.optCis = true) (staged : s.Staged b) (same : s.newPc = false)
    (decoder : s.dcd.valid = false) (empty : s.opValid = false) (phase : s.dcd.phase = true)
    (legal : s.dcd.illegal = false) : (s.zipcore b i).Second := by
  cases new : s.nextNewPc i with
  | true => exact .leaving new
  | false =>
    have free := dcd_unreset new same
    have op : (s.zipcore b i).opValid = false := by simp [Core.zipcore, nextOpValid, decoder, empty]
    cases stalled : s.dcdStalled i with
    | true =>
      refine .waiting ?_ op ?_ ?_
      · exact dcdValid_stalled stalled
      · rw [phase_stalled staged.ljmp free stalled, optCis, phase]
        rfl
      · rw [illegal_stalled free stalled, legal]
    | false =>
      have ce : (s.dcdInputs i).ce = true := by simp [dcdInputs, stalled]
      have goes : (s.dcdInputs i).stalled = false := stalled
      refine .decoded ?_ ?_ ?_ ?_
      · change s.dcd.nextValid b.options (s.dcdInputs i) = true
        simp [Idecode.nextValid, free, Build.options, goes, phase, staged.ljmp]
      · change s.dcd.nextPhase b.options (s.dcdInputs i) = false
        simp [Idecode.nextPhase, free, ce, phase, staged.ljmp]
      · change s.dcd.nextIllegal b.options (s.dcdInputs i) = false
        simp [Idecode.nextIllegal, free, ce, phase, legal]
      · change (if (s.dcdInputs i).ce = true then Idecode.decode b.options (s.dcd.iword b.options (s.dcdInputs i))
          (s.dcdInputs i).gie else s.dcd.dcd).Half
        rw [if_pos ce]
        exact Idecode.half_decode b.options optCis _ _ (Idecode.cis_second optCis phase)

theorem decoded_clock (staged : s.Staged b) (reset : i.reset = false) (same : s.newPc = false)
    (decoder : s.dcd.valid = true) (phase : s.dcd.phase = false) (legal : s.dcd.illegal = false)
    (half : s.dcd.dcd.Half) : (s.zipcore b i).Second := by
  cases new : s.nextNewPc i with
  | true => exact .leaving new
  | false =>
    have free := dcd_unreset new same
    have stalled := dcdStalled_full (i := i) (.inl decoder)
    refine .ready ?_ ?_ ?_ ?_
    · simp [Core.zipcore, nextOpValid, wOpValid, reset, same, decoder, staged.apart decoder]
    · rw [phase_stalled staged.ljmp free stalled, phase]
      simp
    · rw [illegal_stalled free stalled, legal]
    · rw [dcd_stalled stalled]
      exact half

/-- One clock of a core that has executed the first half of a word: it executes the second half, or leaves it out, and
is between two words then, or it is still about to. -/
theorem Second.clock (optCis : b.optCis = true) (staged : s.Staged b) (reset : i.reset = false) (second : s.Second)
    (phase : s.aluPhase = true) :
    (s.parts i = [.last] ∨ s.parts i = [.leaves]) ∧ (s.zipcore b i).aluPhase = false ∧ (s.zipcore b i).Emptied ∨
      s.parts i = [] ∧ (s.zipcore b i).aluPhase = true ∧ (s.zipcore b i).Second := by
  cases same : s.newPc with
  | true => exact .inl ⟨.inr (parts_leaves (b := b) phase same).1, (parts_leaves phase same).2, emptied_leaves same⟩
  | false =>
    cases second with
    | leaving new => exact absurd (same.symm.trans new) Bool.false_ne_true
    | waiting decoder empty first legal =>
      refine .inr ⟨parts_none (executes_empty empty) same, ?_, ?_⟩
      · rw [aluPhase_waits optCis reset same empty, phase]
      · exact waiting_clock optCis staged same decoder empty first legal
    | decoded decoder first legal half =>
      have empty := staged.apart decoder
      refine .inr ⟨parts_none (executes_empty empty) same, ?_, ?_⟩
      · rw [aluPhase_waits optCis reset same empty, phase]
      · exact decoded_clock staged reset same decoder first legal half
    | ready valid first legal half =>
      have fetched := staged.fetched valid same
      have alone : s.opPhase = false := by rw [fetched.phase, first]; simp
      have opLegal : s.opIllegal = false := by rw [fetched.illegal, legal]
      have empty : s.dcd.valid = false := by
        by_contra both
        simp [staged.apart (Bool.not_eq_false _ ▸ both)] at valid
      cases ce : s.adfCe i || s.memCe i with
      | true =>
        have executes : s.executes i = true := by
          cases adf : s.adfCe i <;> simp_all [executes]
        refine .inl ⟨.inl (by simp [parts, executes, alone]), ?_, emptied_ce valid empty ce⟩
        simp [Core.zipcore, nextAluPhase, reset, same, ce, alone, valid]
      | false =>
        have none : s.executes i = false := by
          simp only [Bool.or_eq_false_iff] at ce
          simp [executes, ce]
        refine .inr ⟨parts_none none same, ?_, ?_⟩
        · simp [Core.zipcore, nextAluPhase, optCis, reset, same, ce, phase]
        · cases new : s.nextNewPc i with
          | true => exact .leaving new
          | false =>
            have free := dcd_unreset new same
            have stalled := dcdStalled_full (i := i) (.inr valid)
            refine .ready ?_ ?_ ?_ ?_
            · rw [opValid_waits valid empty, reset, same, ce]
              rfl
            · rw [phase_stalled staged.ljmp free stalled, first]
              simp
            · rw [illegal_stalled free stalled, legal]
            · rw [dcd_stalled stalled]
              exact half

/-! ### A clock of its own -/

/-- An instruction waits that can be executed at once. -/
structure Ready (s : Core aw) : Prop where
  valid : s.opValid = true
  legal : s.opIllegal = false
  brk : s.opBreak = false
  same : s.newPc = false
  awake : s.sleep = false
  illErr : s.illErrI = false
  busErr : s.ibusErr = false
  divErr : s.idivErr = false
  interrupt : s.rPendingInterrupt = true → s.oBusLock = true

/-- The core has come to its stop, with nothing outstanding and no write of the debugger coming. -/
structure Stopped (s : Core aw) (p : Pending) : Prop where
  calm : s.Calm
  nothing : p = .nothing
  untaken : s.dbgv = false
  flags : s.lastWriteToCc = false

section Stopped
variable {p : Pending} (stopped : s.Stopped p) (answers : p.Answers i)
include stopped answers

theorem Stopped.wrRegCe : s.wrRegCe i = false := by
  simp [Core.wrRegCe, stopped.untaken, (answers.quiet stopped.nothing).1, stopped.calm.alu.valid,
    stopped.calm.div.valid]

theorem Stopped.ccWriteHold : s.ccWriteHold i = false := by
  simp [Core.ccWriteHold, stopped.wrRegCe answers, stopped.flags]

/-- A stopped core that is let go executes what waits in it, if it can be executed. -/
theorem Stopped.executing_iff (staged : s.Staged b) (released : i.halt = false) : s.executes i = true ↔ s.Ready := by
  obtain ⟨-, busErr, memBusy⟩ := answers.quiet stopped.nothing
  have goes : s.masterCe i = (!s.oBreak i && !s.sleep) := by
    simp [masterCe, released, stopped.ccWriteHold answers]
  constructor
  · intro executes
    obtain ⟨valid, same, -⟩ := executes_ce executes
    have free : s.masterStall i = false := by
      by_contra stall
      simp [Core.executes, adfCe, memCe, Bool.not_eq_false _ ▸ stall] at executes
    have legal : s.opIllegal = false := by
      by_contra illegal
      rw [Bool.not_eq_false] at illegal
      have fetched := staged.fetched valid same
      have mem : s.opValidMem = false := by simp [fetched.mem, ← fetched.illegal, illegal]
      simp [Core.executes, memCe, illegal, mem] at executes
    simp only [masterStall, goes, Bool.or_eq_false_iff, Bool.not_eq_false', Bool.and_eq_true, Bool.not_eq_true',
      stopped.calm.aluPhase] at free
    obtain ⟨⟨⟨⟨⟨⟨⟨⟨⟨-, awake⟩, -⟩, illErr⟩, busErr⟩, divErr⟩, interrupt⟩, -⟩, -⟩, brk⟩ := free
    refine ⟨valid, legal, brk, same, awake, illErr, busErr, divErr, fun pending => ?_⟩
    simpa [pendingInterrupt, pending, released] using interrupt
  · intro ready
    have brk : s.oBreak i = false := by
      simp [oBreak, ready.brk, ready.illErr, busErr, stopped.calm.div.err, ready.legal]
    have free : s.masterStall i = false := by
      cases pending : s.rPendingInterrupt with
      | false =>
        simp [masterStall, goes, brk, ready.awake, ready.valid, ready.illErr, ready.busErr, ready.divErr,
          pendingInterrupt, pending, stopped.calm.alu.busy, stopped.calm.div.busy, ready.brk]
      | true =>
        simp [masterStall, goes, brk, ready.awake, ready.valid, ready.illErr, ready.busErr, ready.divErr,
          ready.interrupt pending, stopped.calm.alu.busy, stopped.calm.div.busy, ready.brk]
    cases mem : s.opValidMem <;>
      simp [Core.executes, adfCe, memCe, goes, brk, ready.awake, free, ready.valid, mem, memBusy, ready.same,
        ready.legal]

end Stopped

/-- What is executed leaves the core between two words, or with the second half of a word to come. -/
theorem Stopped.executes_clock {p : Pending} (stopped : s.Stopped p) (staged : s.Staged b) (reset : i.reset = false)
    (executes : s.executes i = true) :
    (s.zipcore b i).aluPhase = s.opPhase ∧ (s.opPhase = true → (s.zipcore b i).Second) ∧
      (s.zipcore b i).Emptied := by
  obtain ⟨valid, same, ce⟩ := executes_ce executes
  have fetched := staged.fetched valid same
  refine ⟨?_, ?_, emptied_ce valid stopped.calm.dcd ce⟩
  · cases optCis : b.optCis with
    | true => simp [Core.zipcore, nextAluPhase, optCis, reset, same, ce, valid]
    | false => simp [Core.zipcore, nextAluPhase, optCis, fetched.phase]
  · intro first
    have first : b.optCis = true ∧ s.dcd.phase = true := by
      rw [fetched.phase, Bool.and_eq_true, Bool.and_eq_true] at first
      exact ⟨first.1, first.2.1⟩
    cases new : s.nextNewPc i with
    | true => exact .leaving new
    | false =>
      have free := dcd_unreset new same
      have stalled := dcdStalled_full (i := i) (.inr valid)
      refine .waiting ?_ ?_ ?_ ?_
      · exact dcdValid_stalled stalled
      · rw [opValid_waits valid stopped.calm.dcd, ce]
        simp
      · rw [phase_stalled staged.ljmp free stalled, first.1, first.2]
        rfl
      · rw [illegal_stalled free stalled]
        exact staged.legal first.2

theorem Stopped.nothing_clock {p : Pending} (stopped : s.Stopped p) (staged : s.Staged b)
    (nothing : s.executes i = false) : s.parts i = [] ∧ (s.zipcore b i).aluPhase = false := by
  refine ⟨by simp [parts, nothing, stopped.calm.aluPhase], ?_⟩
  simp only [executes, Bool.or_eq_false_iff] at nothing
  obtain ⟨thrown, mem⟩ := nothing
  by_cases adf : s.adfCe i = true
  · have valid := adfCe_opValid adf
    cases new : s.newPc with
    | true => simp [Core.zipcore, nextAluPhase, new]
    | false =>
      have illegal : s.opIllegal = true := by simpa [adf, new] using thrown
      have fetched := staged.fetched valid new
      have alone : s.opPhase = false := by
        rw [fetched.phase]
        by_contra first
        rw [Bool.not_eq_false, Bool.and_eq_true, Bool.and_eq_true] at first
        rw [fetched.illegal, staged.legal first.2.1] at illegal
        exact Bool.false_ne_true illegal
      simp [Core.zipcore, nextAluPhase, alone, adf, valid]
  · simp [Core.zipcore, nextAluPhase, adf, mem, stopped.calm.aluPhase]

end Core

/-! ### A step -/

namespace System
variable {aw : Nat} (b : Build aw) (startHalted : Bool)

/-- The CPU reports that it has halted. -/
structure Halted (x : System aw) : Prop extends x.Resting where
  halt : x.zip.port.cmdHalt = true

/-- A clock in which the debugger waits. -/
structure Waits (x : System aw) (e : Inputs aw) : Prop where
  up : x.Up e
  answers : x.Answers e
  silent : e.dbg.dbgStb = false

/-- A command to step: whether `HALT` is set with it does not matter. -/
structure Steps (e : Inputs aw) : Prop where
  command : Port.dbgCmdWrite e.dbg = true
  step : e.dbg.dbgData.getLsbD Port.STEP_BIT = true
  cache : e.dbg.dbgData.getLsbD Port.CLEAR_CACHE_BIT = false
  reset : e.dbg.dbgData.getLsbD Port.RESET_BIT = false

def parts (x : System aw) (e : Inputs aw) : List Core.Part := x.zip.cpu.parts (x.coreInputs e)

/-- The parts of one instruction word. The second half is left out where the first one sends the program elsewhere. -/
def OneWord (parts : List Core.Part) : Prop := parts = [.last] ∨ parts = [.first, .last] ∨ parts = [.first, .leaves]

/-- Behind a step the CPU executes one instruction word by the time it reports that it has halted, and it can come to
that whatever has happened. -/
structure StepsOnce (x : System aw) : Prop where
  word : ∀ es, Clocked.Always (clock b startHalted) Waits x es → (Clocked.run (clock b startHalted) x es).Halted →
    OneWord (Clocked.emitted (clock b startHalted) parts x es)
  returns : ∀ es, Clocked.Always (clock b startHalted) Waits x es →
    ∃ later, Clocked.Always (clock b startHalted) Waits (Clocked.run (clock b startHalted) x es) later ∧
      (Clocked.run (clock b startHalted) x (es ++ later)).Halted

/-- What holds in every clock. -/
structure Good (x : System aw) : Prop where
  sound : x.Sound
  staged : x.zip.cpu.Staged b
  counted : x.zip.port.Counted

variable {b startHalted} {x : System aw} {e : Inputs aw}

theorem good_powerUp {mpy : Mpyop} (idle : mpy.pending = false) (regset : BitVec 5 → BitVec 32) :
    (powerUp b startHalted mpy regset).Good b :=
  ⟨sound_powerUp idle regset, Core.staged_powerUp b mpy regset, fun _ => rfl⟩

theorem Good.clock (good : x.Good b) : (x.clock b startHalted e).Good b :=
  ⟨good.sound.clock, good.staged.zipcore, x.zip.port.counted_clock startHalted e.dbg (x.seen e)⟩

theorem Good.run (good : x.Good b) (es : List (Inputs aw)) :
    (Clocked.run (System.clock b startHalted) x es).Good b := by
  induction es generalizing x with
  | nil => exact good
  | cons e es ih => exact ih good.clock

theorem Waits.halt (waits : x.Waits e) (halt : x.zip.port.cmdHalt = true) :
    (x.clock b startHalted e).zip.port.cmdHalt = true :=
  halt_silent waits.up waits.silent halt

/-- A halted CPU between two words executes nothing any more. -/
theorem between_run (halt : x.zip.port.cmdHalt = true) (phase : x.zip.cpu.aluPhase = false) {es : List (Inputs aw)}
    (always : Clocked.Always (clock b startHalted) Waits x es) :
    Clocked.emitted (clock b startHalted) parts x es = [] ∧
      (Clocked.run (clock b startHalted) x es).zip.port.cmdHalt = true ∧
        (Clocked.run (clock b startHalted) x es).zip.cpu.aluPhase = false := by
  induction es generalizing x with
  | nil => exact ⟨rfl, halt, phase⟩
  | cons e es ih =>
    have rest := ih (always.1.halt halt) (Core.aluPhase_halt halt phase) always.2
    refine ⟨?_, rest.2⟩
    rw [Clocked.emitted_cons, rest.1, List.append_nil]
    exact Core.parts_halt halt phase

theorem emptied_run (halt : x.zip.port.cmdHalt = true) (phase : x.zip.cpu.aluPhase = false)
    (emptied : x.zip.cpu.Emptied) {es : List (Inputs aw)} (always : Clocked.Always (clock b startHalted) Waits x es) :
    (Clocked.run (clock b startHalted) x es).zip.cpu.Emptied := by
  induction es generalizing x with
  | nil => exact emptied
  | cons e es ih =>
    exact ih (always.1.halt halt) (Core.aluPhase_halt halt phase) (emptied.halt halt phase) always.2

/-- In the middle of a word the rest of it is executed, or left out, and nothing more. -/
theorem middle_run (optCis : b.optCis = true) (good : x.Good b) (halt : x.zip.port.cmdHalt = true)
    (phase : x.zip.cpu.aluPhase = true) (second : x.zip.cpu.Second) {es : List (Inputs aw)}
    (always : Clocked.Always (clock b startHalted) Waits x es) :
    Clocked.emitted (clock b startHalted) parts x es = [] ∧
        (Clocked.run (clock b startHalted) x es).zip.cpu.aluPhase = true ∨
      (Clocked.emitted (clock b startHalted) parts x es = [.last] ∨
          Clocked.emitted (clock b startHalted) parts x es = [.leaves]) ∧
        (Clocked.run (clock b startHalted) x es).zip.cpu.Emptied := by
  induction es generalizing x with
  | nil => exact .inl ⟨rfl, phase⟩
  | cons e es ih =>
    have reset : (x.coreInputs e).reset = false := always.1.up.core
    rw [Clocked.emitted_cons, Clocked.run_cons]
    rcases second.clock optCis good.staged reset phase with
      ⟨one, past, emptied⟩ | ⟨none, more, second⟩
    · have rest := (between_run (always.1.halt halt) past always.2).1
      change x.parts e = _ ∨ x.parts e = _ at one
      rw [rest, List.append_nil]
      exact .inr ⟨one, emptied_run (always.1.halt halt) past emptied always.2⟩
    · change x.parts e = _ at none
      rw [none, List.nil_append]
      exact ih good.clock (always.1.halt halt) more second always.2

theorem Halted.between (halted : x.Halted) (good : x.Good b) : x.zip.cpu.aluPhase = false :=
  (good.sound.core.calm (stopped_iff.mp halted.stopped).1).1.aluPhase

theorem Halted.stopped_clock (halted : x.Halted) (good : x.Good b) (up : x.Up e) (answers : x.Answers e) :
    (x.clock b startHalted e).zip.cpu.Stopped (x.clock b startHalted e).mem := by
  have here := (stopped_iff.mp halted.stopped).1
  have next : (x.clock b startHalted e).zip.cpu.halted = true := Core.nextHalted_halted here halted.halt
  have ce : x.zip.cpu.wrRegCe (x.coreInputs e) = x.zip.cpu.dbgv := Core.wrRegCe_halted good.sound.core here answers
  have untaken := halted.untaken good.sound
  have good₁ : (x.clock b startHalted e).Good b := good.clock
  obtain ⟨calm, nothing⟩ := good₁.sound.core.calm next
  refine ⟨calm, nothing, ?_, ?_⟩
  · rw [taken_clock up, halted.empty]
    rfl
  · change (!(x.coreInputs e).reset && (x.zip.cpu.wrRegCe (x.coreInputs e) && _)) = false
    rw [ce, untaken]
    simp

/-- Right behind the command: the core is still at its stop, and the halt will be back after one clock. -/
structure LetGo (b : Build aw) (x : System aw) : Prop where
  good : x.Good b
  stopped : x.zip.cpu.Stopped x.mem
  empty : x.zip.port.cmdWrite = false
  step : x.zip.port.cmdStep = true

theorem LetGo.halt (go : x.LetGo b) (waits : x.Waits e) : (x.clock b startHalted e).zip.port.cmdHalt = true := by
  change x.zip.port.nextCmdHalt startHalted e.dbg (x.seen e) = true
  simp [Port.nextCmdHalt, waits.up.port, waits.up.core, Port.halts, go.step]

theorem LetGo.executing_iff (go : x.LetGo b) (waits : x.Waits e) :
    x.zip.cpu.executes (x.coreInputs e) = true ↔ x.zip.port.cmdHalt = false ∧ x.zip.cpu.Ready := by
  cases halt : x.zip.port.cmdHalt with
  | true =>
    have held : (x.coreInputs e).halt = true := halt
    have phase := go.stopped.calm.aluPhase
    simp [Core.executes, Core.adfCe_halt held phase, Core.memCe_halt held phase]
  | false =>
    have released : (x.coreInputs e).halt = false := halt
    rw [go.stopped.executing_iff waits.answers go.good.staged released]
    exact ⟨fun ready => ⟨rfl, ready⟩, fun ready => ready.2⟩

theorem LetGo.word (go : x.LetGo b) (released : x.zip.port.cmdHalt = false) (ready : x.zip.cpu.Ready)
    {es : List (Inputs aw)} (always : Clocked.Always (clock b startHalted) Waits x es)
    (halted : (Clocked.run (clock b startHalted) x es).Halted) :
    OneWord (Clocked.emitted (clock b startHalted) parts x es) ∧
      (Clocked.run (clock b startHalted) x es).zip.cpu.Emptied := by
  cases es with
  | nil => exact absurd (released.symm.trans halted.halt) Bool.false_ne_true
  | cons e es =>
    have reset : (x.coreInputs e).reset = false := always.1.up.core
    have executes := (go.executing_iff always.1).mpr ⟨released, ready⟩
    have here : x.parts e = [if x.zip.cpu.opPhase then .first else .last] := by
      simp [parts, Core.parts, executes]
    obtain ⟨phase, second, emptied⟩ := go.stopped.executes_clock go.good.staged reset executes
    rw [Clocked.emitted_cons, here]
    cases first : x.zip.cpu.opPhase with
    | false =>
      refine ⟨?_, emptied_run (go.halt always.1) (phase.trans first) emptied always.2⟩
      rw [(between_run (go.halt always.1) (phase.trans first) always.2).1]
      exact .inl rfl
    | true =>
      have optCis : b.optCis = true := by
        have fetched := go.good.staged.fetched ready.valid ready.same
        rw [fetched.phase, Bool.and_eq_true] at first
        exact first.1
      rcases middle_run optCis go.good.clock (go.halt always.1) (phase.trans first) (second first) always.2 with
        more | ⟨one | left, emptied⟩
      · exact absurd ((halted.between (go.good.run (e :: es))).symm.trans more.2) Bool.false_ne_true
      · exact ⟨.inr (.inl (by rw [one]; rfl)), emptied⟩
      · exact ⟨.inr (.inr (by rw [left]; rfl)), emptied⟩

theorem LetGo.nothing (go : x.LetGo b) (held : ¬(x.zip.port.cmdHalt = false ∧ x.zip.cpu.Ready))
    {es : List (Inputs aw)} (always : Clocked.Always (clock b startHalted) Waits x es) :
    Clocked.emitted (clock b startHalted) parts x es = [] := by
  cases es with
  | nil => rfl
  | cons e es =>
    have none : x.zip.cpu.executes (x.coreInputs e) = false :=
      Bool.eq_false_of_not_eq_true fun executes => held ((go.executing_iff always.1).mp executes)
    obtain ⟨here, phase⟩ := go.stopped.nothing_clock (b := b) go.good.staged none
    rw [Clocked.emitted_cons, (between_run (go.halt always.1) phase always.2).1, List.append_nil]
    exact here

end System

end IcoZip.Zipcore
