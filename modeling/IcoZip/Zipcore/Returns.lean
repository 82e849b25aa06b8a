import IcoZip.Zipcore.Stepping

/-! How a step comes to its end.

A core that has been halted between two words comes to its stop as soon as its units
have. The second half of a word comes first, and may never come: when the first half
has ended in an error of the supervisor, or has put the mode to sleep.
-/

set_option autoImplicit false

namespace IcoZip.Zipcore

namespace Core
variable {aw : Nat} {b : Build aw} {s : Core aw} {i : Inputs aw} {p : Pending}

/-! ### The second half of a word to come -/

/-- The condition codes of a mode. -/
def ccReg (gie : Bool) : BitVec 5 := BitVec.ofBool gie ++ Idecode.CPU_CC_REG

/-- Condition codes with which a mode that writes them falls asleep, and nothing else happens. -/
def dozes (gie : Bool) (v : BitVec 32) : Bool :=
  v.getLsbD CPU_SLEEP_BIT && (v.getLsbD CPU_GIE_BIT == gie) && (gie || !v.getLsbD CPU_CLRICACHE_BIT)

/-- Nothing that the first half has left behind keeps the second one from being executed. -/
structure Lively (s : Core aw) (p : Pending) : Prop where
  div : s.div.Idle
  alu : s.alu.busy = false
  brk : s.opBreak = false
  illegal : s.opIllegal = false
  illErr : s.illErrI = false
  busErr : s.ibusErr = false
  divErr : s.idivErr = false
  untaken : s.dbgv = false
  awake : s.sleep = true → s.clearIcache = true
  mem : p ≠ .nothing → s.gie = true
  load : ∀ reg, p = .load reg → reg.extractLsb' 0 4 ≠ Idecode.CPU_CC_REG
  result : s.alu.valid = true → s.aluWR = true → s.aluReg.extractLsb' 0 4 = Idecode.CPU_CC_REG →
    s.aluReg = ccReg s.gie ∧ dozes s.gie s.alu.oC = false

/-- What is written to the condition codes in the middle of a word is the first half's result. -/
theorem Lively.writes_cc (lively : s.Lively p) (answers : p.Answers i)
    (write : (s.wrRegCe i && s.wrWriteCc i) = true) :
    s.wrIndex = 0b10#2 ∧ s.alu.valid = true ∧ s.wrRegId i = ccReg s.gie ∧ dozes s.gie s.alu.oC = false := by
  simp only [Bool.and_eq_true] at write
  obtain ⟨ce, cc⟩ := write
  have other : ¬i.memValid = true := by
    intro valid
    have apart := lively.load i.memWreg (answers.valid valid)
    simp [wrWriteCc, wrRegId, valid, apart] at cc
  have indices : ∀ n : BitVec 2, n = 0b00#2 ∨ n = 0b01#2 ∨ n = 0b11#2 ∨ n = 0b10#2 := by decide
  rcases indices s.wrIndex with index | index | index | index
  · simp [wrRegCe, index, lively.untaken] at ce
  · simp [wrRegCe, index, other] at ce
  · simp [wrRegCe, index, lively.div.valid] at ce
  · have out : !s.wrDiscard = true ∧ s.aluWR = true ∧ s.alu.valid = true := by simpa [wrRegCe, index] using ce
    replace out := out.2
    have id : s.wrRegId i = s.aluReg := by simp [wrRegId, other]
    have number : s.aluReg.extractLsb' 0 4 = Idecode.CPU_CC_REG := by simpa [wrWriteCc, id] using cc
    obtain ⟨own, wakes⟩ := lively.result out.2 out.1 number
    exact ⟨index, out.2, id.trans own, wakes⟩

/-- A core that falls asleep in the middle of a word is about to forget it. -/
theorem Lively.sleep_clock (lively : s.Lively p) (answers : p.Answers i) (same : s.nextNewPc i = false)
    (sleeps : s.nextSleep i = true) : s.nextClearIcache i = true := by
  simp only [nextNewPc, Bool.or_eq_false_iff] at same
  obtain ⟨⟨⟨⟨⟨reset, clear⟩, -⟩, switch⟩, release⟩, -⟩ := same
  have awake : s.sleep = false := by
    by_contra asleep
    simp [lively.awake (Bool.not_eq_false _ ▸ asleep)] at clear
  cases write : s.wrRegCe i && s.wrWriteCc i with
  | false => simp [nextSleep, reset, switch, write, awake] at sleeps
  | true =>
    obtain ⟨index, valid, id, wakes⟩ := lively.writes_cc answers write
    have value : s.wrSpregVl i = s.alu.oC := by simp [wrSpregVl, index]
    rw [Bool.and_eq_true] at write
    cases gie : s.gie with
    | false =>
      rw [gie] at id wakes
      have own : s.wrWriteScc i = true := by rw [wrWriteScc, id]; rfl
      have kept : i.interrupt = false → s.alu.oC.getLsbD CPU_GIE_BIT = false := by
        simpa [wReleaseFromInterrupt, gie, write, own, value] using release
      have asleep : s.alu.oC.getLsbD CPU_SLEEP_BIT = true ∧
          (i.interrupt = false ∨ s.alu.oC.getLsbD CPU_GIE_BIT = false) := by
        simpa [nextSleep, reset, switch, write, gie, value] using sleeps
      have stays : s.alu.oC.getLsbD CPU_GIE_BIT = false := by
        rcases asleep.2 with quiet | stays
        · exact kept quiet
        · exact stays
      have clears : s.alu.oC.getLsbD CPU_CLRICACHE_BIT = true := by
        simpa [dozes, asleep.1, stays] using wakes
      simp [nextClearIcache, reset, writesScc, write, own, value, clears]
    | true =>
      rw [gie] at id wakes
      have user : s.wrUser i = true := by rw [wrUser, id]; rfl
      have stays : s.alu.oC.getLsbD CPU_GIE_BIT = true := by
        simp only [wSwitchToInterrupt, gie, Bool.true_and, Bool.or_eq_false_iff, write, user, value] at switch
        simpa using switch.2
      have asleep : s.alu.oC.getLsbD CPU_SLEEP_BIT = true := by
        simpa [nextSleep, reset, switch, write, gie, value, stays] using sleeps
      simp [dozes, asleep, stays] at wakes

/-- Nothing has been executed in a clock behind which the second half is still to come. -/
theorem Second.idle (second : s.Second) (staged : s.Staged b) (same : s.newPc = false)
    (more : (s.zipcore b i).aluPhase = true) : s.adfCe i = false ∧ s.memCe i = false := by
  rw [← Bool.or_eq_false_iff]
  by_contra ce
  rw [Bool.not_eq_false] at ce
  have valid : s.opValid = true := by
    rw [Bool.or_eq_true] at ce
    exact ce.elim adfCe_opValid memCe_opValid
  cases second with
  | leaving new => exact Bool.false_ne_true (same.symm.trans new)
  | waiting decoder empty => exact Bool.false_ne_true (empty.symm.trans valid)
  | decoded decoder => exact Bool.false_ne_true ((staged.apart decoder).symm.trans valid)
  | ready valid first =>
    have alone : s.opPhase = false := by rw [(staged.fetched valid same).phase, first]; simp
    simp [Core.zipcore, nextAluPhase, ce, alone] at more

/-- What the decoder has in the middle of a word is legal, and no break. -/
theorem Second.harmless (second : s.Second) (same : s.newPc = false) (valid : s.dcd.valid = true) :
    s.dcd.dcd.brk = false ∧ s.dcd.illegal = false := by
  cases second with
  | leaving new => exact absurd (same.symm.trans new) Bool.false_ne_true
  | waiting decoder => exact absurd (decoder.symm.trans valid) Bool.false_ne_true
  | decoded _ _ legal half => exact ⟨half.brk, legal⟩
  | ready _ _ legal half => exact ⟨half.brk, legal⟩

theorem Lively.clock (lively : s.Lively p) (steady : s.Steady) (second : s.Second) (answers : p.Answers i)
    (unasked : i.dbgWe = false) (same : s.newPc = false) (goes : s.nextNewPc i = false)
    (idle : s.adfCe i = false ∧ s.memCe i = false) : (s.zipcore b i).Lively (p.next s i) := by
  have reset : i.reset = false := by
    simp only [nextNewPc, Bool.or_eq_false_iff] at goes
    exact goes.1.1.1.1.1
  have harmless := second.harmless same
  have alu : (s.zipcore b i).alu.Idle :=
    steady.alu.idle b.optShifts _ _ lively.alu (by simp [aluInputs, aluCe, idle])
  have div : (s.zipcore b i).div.Idle := steady.div.idle _ _ lively.div.busy (by simp [divInputs, divCe, idle])
  have mem : ∀ q, p.next s i = q → q ≠ .nothing → p = q := by
    intro q next outstanding
    simp only [Pending.next, reset, oMemCe, idle, Bool.false_and, Bool.false_eq_true, if_false] at next
    by_cases past : (!i.memBusy || i.memValid || i.busErr) = true
    · exact absurd ((if_pos past).symm.trans next).symm outstanding
    · exact (if_neg past).symm.trans next
  have user : i.busErr = true → s.gie = true := fun err => lively.mem (answers.error err)
  have kept : ∀ flag bit raised, flag = false → (raised = true → s.gie = true) →
      s.nextErrI i flag bit raised = false := by
    intro flag bit raised clear raises
    cases raised <;> simp_all [nextErrI]
  constructor
  · exact div
  · exact alu.busy
  · cases valid : s.dcd.valid <;> simp [Core.zipcore, same, valid, lively.brk, harmless]
  · cases valid : s.dcd.valid <;> simp [Core.zipcore, same, reset, valid, lively.illegal, harmless]
  · exact kept _ _ _ lively.illErr (by simp [lively.illegal])
  · exact kept _ _ _ lively.busErr user
  · exact kept _ _ _ lively.divErr (by simp [lively.div.err])
  · simp [Core.zipcore, dbgTaken, unasked]
  · exact lively.sleep_clock answers goes
  · intro outstanding
    rw [gie_same goes]
    exact lively.mem (mem _ rfl outstanding ▸ outstanding)
  · intro reg load
    exact lively.load reg (mem _ load Pending.noConfusion)
  · intro valid
    exact absurd (alu.valid.symm.trans valid) Bool.false_ne_true

/-- The clocks that the second half of a word needs to get through the operand stage. -/
def distance (s : Core aw) : Nat := if s.opValid then 1 else if s.dcd.valid then 2 else 3

/-- The clocks for which it is held up by what the first half may write to the condition codes. -/
def delay (s : Core aw) (p : Pending) : Nat :=
  if s.alu.valid = true ∨ p ≠ .nothing then 2 else if s.lastWriteToCc then 1 else 0

/-- What has been decoded gets to the operand stage, and stays there. -/
theorem Staged.opValid_clock (staged : s.Staged b) (reset : i.reset = false) (same : s.newPc = false)
    (idle : s.adfCe i = false ∧ s.memCe i = false) (full : s.dcd.valid = true ∨ s.opValid = true) :
    (s.zipcore b i).opValid = true := by
  rcases full with decoder | valid
  · simp [Core.zipcore, nextOpValid, wOpValid, reset, same, decoder, staged.apart decoder]
  · have empty : s.dcd.valid = false := by
      by_contra both
      simp [staged.apart (Bool.not_eq_false _ ▸ both)] at valid
    rw [opValid_waits valid empty, reset, same, idle.1, idle.2]
    rfl

theorem Staged.distance_clock (staged : s.Staged b) (reset : i.reset = false) (same : s.newPc = false)
    (idle : s.adfCe i = false ∧ s.memCe i = false) : (s.zipcore b i).distance ≤ s.distance := by
  by_cases full : s.dcd.valid = true ∨ s.opValid = true
  · have here : (s.zipcore b i).distance = 1 := if_pos (staged.opValid_clock reset same idle full)
    rw [here, distance]
    split <;> [skip; split] <;> decide
  · simp only [not_or, Bool.not_eq_true] at full
    have here : s.distance = 3 := by simp [distance, full]
    rw [here, distance]
    split <;> [skip; split] <;> decide

/-- Nothing is written back, where neither the arithmetic unit nor the memory unit has anything left. -/
theorem Lively.unwritten (lively : s.Lively p) (answers : p.Answers i)
    (past : ¬(s.alu.valid = true ∨ p ≠ .nothing)) : s.wrRegCe i = false := by
  simp only [not_or, Bool.not_eq_true, not_not] at past
  simp [wrRegCe, lively.untaken, (answers.quiet past.2).1, lively.div.valid, past.1]

/-- A second half that is not held up comes on, when the memory unit answers at once. -/
theorem Lively.comes (lively : s.Lively p) (steady : s.Steady) (staged : s.Staged b) (second : s.Second)
    (answers : p.Answers i) (prompt : i.memBusy = false ∧ i.busErr = false)
    (phase : s.aluPhase = true) (same : s.newPc = false) (goes : s.nextNewPc i = false)
    (more : (s.zipcore b i).aluPhase = true) :
    (s.zipcore b i).distance + (s.zipcore b i).delay (p.next s i) < s.distance + s.delay p := by
  have idle := second.idle staged same more
  obtain ⟨⟨⟨⟨⟨reset, clear⟩, -⟩, -⟩, -⟩, -⟩ := by simpa only [nextNewPc, Bool.or_eq_false_iff] using goes
  have closer := staged.distance_clock (b := b) reset same idle
  have quiet : (s.zipcore b i).alu.valid = false :=
    (steady.alu.idle b.optShifts _ _ lively.alu (by simp [aluInputs, aluCe, idle])).valid
  have answered : p.next s i = .nothing := by simp [Pending.next, oMemCe, idle, prompt]
  have later : (s.zipcore b i).delay (p.next s i) = if (s.zipcore b i).lastWriteToCc then 1 else 0 := by
    simp [delay, quiet, answered]
  rw [later]
  -- Either a result is still to be written, and the delay falls, or the word itself comes closer.
  by_cases writes : s.alu.valid = true ∨ p ≠ .nothing
  · have here : s.delay p = 2 := if_pos writes
    rw [here]
    split <;> omega
  · have here : s.delay p = if s.lastWriteToCc then 1 else 0 := if_neg writes
    have unwritten := lively.unwritten answers writes
    have written : (s.zipcore b i).lastWriteToCc = false := by simp [Core.zipcore, unwritten]
    rw [here, written]
    cases last : s.lastWriteToCc with
    | true => exact Nat.lt_succ_of_le closer
    | false =>
      have awake : s.sleep = false := by
        by_contra asleep
        simp [lively.awake (Bool.not_eq_false _ ▸ asleep)] at clear
      have master : s.masterCe i = true := by
        simp [masterCe, phase, ccWriteHold, unwritten, last, oBreak, lively.brk, lively.illErr, prompt,
          lively.div.err, lively.illegal, awake]
      -- Nothing holds the pipeline up now: each stage hands on what it has.
      cases second with
      | leaving new => exact absurd (same.symm.trans new) Bool.false_ne_true
      | waiting decoder empty first =>
        have free : s.dcdStalled i = false := by
          simp [dcdStalled, master, lively.illErr, lively.busErr, lively.divErr, decoder, empty, lively.alu,
            lively.div.busy, prompt]
        have decoded : (s.zipcore b i).dcd.valid = true := by
          change s.dcd.nextValid b.options (s.dcdInputs i) = true
          have unreset := dcd_unreset goes same
          have goes : (s.dcdInputs i).stalled = false := free
          simp [Idecode.nextValid, unreset, Build.options, goes, first, staged.ljmp]
        have there : s.distance = 3 := by simp [distance, decoder, empty]
        rw [there, distance, decoded]
        split <;> decide
      | decoded decoder =>
        have there : s.distance = 2 := by simp [distance, decoder, staged.apart decoder]
        have ready : (s.zipcore b i).distance = 1 := if_pos (staged.opValid_clock reset same idle (.inl decoder))
        rw [there, ready]
        decide
      | ready valid =>
        have free : s.masterStall i = false := by
          simp [masterStall, master, valid, lively.illErr, lively.busErr, lively.divErr, phase, lively.alu,
            lively.div.busy, lively.brk]
        cases mem : s.opValidMem with
        | false => simp [adfCe, free, valid, mem] at idle
        | true => simp [memCe, master, free, mem, prompt, same] at idle

end Core

namespace System
variable {aw : Nat} {b : Build aw} {x : System aw} {e : Inputs aw}

/-- The port is out of its reset, and the core is not in one. -/
structure Out (x : System aw) : Prop where
  hold : x.zip.port.resetHold = false
  core : x.zip.port.cmdReset = false

theorem Waits.out (waits : x.Waits e) : x.Out := ⟨waits.up.hold, waits.up.core⟩

theorem resetHold_clock (up : x.Up e) (counted : x.zip.port.Counted) :
    (x.clock b true e).zip.port.resetHold = false := by
  have past : x.zip.port.resetCounter = 0 := by
    by_contra counts
    exact Bool.false_ne_true (up.hold.symm.trans (counted counts))
  simp [clock, Zipbones.zipbones, Port.clock, up.port, past]

theorem Waits.out_clock (waits : x.Waits e) (counted : x.zip.port.Counted) : (x.clock b true e).Out := by
  have silent : Port.dbgCmdWrite e.dbg = false := by simp [Port.dbgCmdWrite, waits.silent]
  refine ⟨resetHold_clock waits.up counted, ?_⟩
  change x.zip.port.nextCmdReset true e.dbg (x.seen e) = false
  simp [Port.nextCmdReset, waits.up.port, waits.up.hold, silent]

/-- Units that answer at once, and a debugger that waits. -/
def prompt (x : System aw) : Inputs aw where
  dbg := ⟨false, true, false, false, 0, 0, 0, false⟩
  units :=
    { pfValid := true
      pfIllegal := false
      pfInstruction := 0
      pfInstructionPc := 0
      memBusy := false
      memValid := match x.mem with | .load _ => true | _ => false
      busErr := false
      memWreg := match x.mem with | .load reg => reg | _ => 0
      memResult := 0 }

theorem Out.waits (out : x.Out) : x.Waits x.prompt where
  up := ⟨rfl, out.hold, out.core⟩
  silent := rfl
  answers := by
    constructor
    · intro _
      rfl
    · intro valid
      cases mem : x.mem <;> simp_all [coreInputs, Zipbones.coreInputs, prompt]
    · intro err
      exact absurd err Bool.false_ne_true
    · intro _
      cases mem : x.mem <;> simp_all [coreInputs, Zipbones.coreInputs, prompt]

/-- The CPU can come to report that it has halted, without anybody asking for anything. -/
def Returns (b : Build aw) (x : System aw) : Prop :=
  ∃ later, Clocked.Always (clock b true) Waits x later ∧ (Clocked.run (clock b true) x later).Halted

theorem Returns.step (waits : x.Waits e) (returns : (x.clock b true e).Returns b) : x.Returns b := by
  obtain ⟨later, always, halted⟩ := returns
  exact ⟨e :: later, ⟨waits, always⟩, halted⟩

/-- The clocks that the arithmetic unit and the divider still need. -/
def busyLeft (x : System aw) : Nat := x.zip.cpu.alu.left + x.zip.cpu.div.left

theorem busyLeft_clock (good : x.Good b) (halt : x.zip.port.cmdHalt = true) (phase : x.zip.cpu.aluPhase = false)
    (busy : x.zip.cpu.alu.busy = true ∨ x.zip.cpu.div.busy = true) : (x.clock b true e).busyLeft < x.busyLeft := by
  have adf : x.zip.cpu.adfCe (x.coreInputs e) = false := Core.adfCe_halt halt phase
  have alu : (x.zip.cpu.aluInputs (x.coreInputs e)).stb = false := by simp [Core.aluInputs, Core.aluCe, adf]
  have div : (x.zip.cpu.divInputs (x.coreInputs e)).wr = false := by simp [Core.divInputs, Core.divCe, adf]
  have aluLeft := good.sound.core.steady.alu.left_cpuops b.optShifts
    ((x.coreInputs e).reset || x.zip.cpu.newPc) _ alu
  have divLeft := good.sound.core.steady.div.left_div ((x.coreInputs e).reset || x.zip.cpu.newPc) _ div
  rcases busy with busy | busy
  · exact Nat.add_lt_add_of_lt_of_le (Cpuops.left_cpuops b.optShifts _ _ alu busy) divLeft
  · exact Nat.add_lt_add_of_le_of_lt aluLeft (Div.left_div _ _ div busy)

theorem between_returns (good : x.Good b) (out : x.Out) (halt : x.zip.port.cmdHalt = true)
    (empty : x.zip.port.cmdWrite = false) (phase : x.zip.cpu.aluPhase = false) : x.Returns b := by
  induction left : x.busyLeft using Nat.strong_induction_on generalizing x with
  | _ n ih =>
    have waits := out.waits
    have good₁ : (x.clock b true x.prompt).Good b := good.clock
    have out₁ := waits.out_clock (b := b) good.counted
    have halt₁ : (x.clock b true x.prompt).zip.port.cmdHalt = true := waits.halt halt
    have empty₁ : (x.clock b true x.prompt).zip.port.cmdWrite = false := unasked_clock waits.up (.inl empty) rfl
    by_cases busy : x.zip.cpu.alu.busy = true ∨ x.zip.cpu.div.busy = true
    · have less := busyLeft_clock (e := x.prompt) good halt phase busy
      exact .step waits (ih _ (left ▸ less) good₁ out₁ halt₁ empty₁ (Core.aluPhase_halt halt phase) rfl)
    · simp only [not_or, Bool.not_eq_true] at busy
      have halted₁ : (x.clock b true x.prompt).zip.cpu.halted = true := by
        change x.zip.cpu.nextHalted (x.coreInputs x.prompt) = true
        cases before : x.zip.cpu.halted <;>
          simp [Core.nextHalted, coreInputs, Zipbones.coreInputs, prompt, halt, out.core, phase, busy, before]
      have untaken₁ : (x.clock b true x.prompt).zip.cpu.dbgv = false := by rw [taken_clock waits.up, empty]; rfl
      have waits₁ := out₁.waits
      have stopped₂ := @oDbgStall_clock _ b true _ _ good₁.sound waits₁.up waits₁.answers halt₁ halted₁
      rw [untaken₁, empty₁] at stopped₂
      refine ⟨[x.prompt, (x.clock b true x.prompt).prompt], ⟨waits, waits₁, trivial⟩, ⟨?_, stopped₂⟩, ?_⟩
      · exact unasked_clock waits₁.up (.inl empty₁) rfl
      · exact waits₁.halt halt₁

/-- In the middle of a word the CPU comes to its stop, unless the first half has left something behind. -/
theorem middle_returns (optCis : b.optCis = true) (good : x.Good b) (out : x.Out) (halt : x.zip.port.cmdHalt = true)
    (empty : x.zip.port.cmdWrite = false) (phase : x.zip.cpu.aluPhase = true) (second : x.zip.cpu.Second)
    (lively : x.zip.cpu.Lively x.mem) : x.Returns b := by
  induction left : x.zip.cpu.distance + x.zip.cpu.delay x.mem using Nat.strong_induction_on generalizing x with
  | _ n ih =>
    have waits := out.waits
    have good₁ : (x.clock b true x.prompt).Good b := good.clock
    have out₁ := waits.out_clock (b := b) good.counted
    have halt₁ : (x.clock b true x.prompt).zip.port.cmdHalt = true := waits.halt halt
    have empty₁ : (x.clock b true x.prompt).zip.port.cmdWrite = false := unasked_clock waits.up (.inl empty) rfl
    refine .step waits ?_
    cases more : (x.clock b true x.prompt).zip.cpu.aluPhase with
    | false => exact between_returns good₁ out₁ halt₁ empty₁ more
    | true =>
      have same : x.zip.cpu.newPc = false := by
        by_contra new
        have past := (Core.parts_leaves (b := b) (i := x.coreInputs x.prompt) phase (Bool.not_eq_false _ ▸ new)).2
        exact Bool.false_ne_true (past.symm.trans more)
      cases goes : x.zip.cpu.nextNewPc (x.coreInputs x.prompt) with
      | true =>
        have waits₁ := out₁.waits
        refine .step waits₁ (between_returns good₁.clock (waits₁.out_clock good₁.counted) (waits₁.halt halt₁) ?_ ?_)
        · exact unasked_clock waits₁.up (.inl empty₁) rfl
        · exact (Core.parts_leaves more goes).2
      | false =>
        have idle := second.idle good.staged same more
        have less := lively.comes good.sound.core.steady good.staged second waits.answers ⟨rfl, rfl⟩ phase same goes
          more
        rcases second.clock (i := x.coreInputs x.prompt) optCis good.staged waits.up.core phase with
          ⟨-, past, -⟩ | ⟨-, -, second₁⟩
        · exact absurd (past.symm.trans more) Bool.false_ne_true
        · have lively₁ := lively.clock (b := b) good.sound.core.steady second waits.answers empty same goes idle
          exact ih _ (left ▸ less) good₁ out₁ halt₁ empty₁ more second₁ lively₁ rfl

/-- The halt is back, and the CPU is between two words or on its way there. -/
structure Ending (b : Build aw) (x : System aw) : Prop where
  good : x.Good b
  out : x.Out
  halt : x.zip.port.cmdHalt = true
  empty : x.zip.port.cmdWrite = false
  finishes : x.zip.cpu.aluPhase = true →
    b.optCis = true ∧ x.zip.cpu.Second ∧ (x.zip.cpu.newPc = true ∨ x.zip.cpu.Lively x.mem)

theorem Ending.clock (ending : x.Ending b) (waits : x.Waits e) : (x.clock b true e).Ending b where
  good := ending.good.clock
  out := waits.out_clock ending.good.counted
  halt := waits.halt ending.halt
  empty := unasked_clock waits.up (.inl ending.empty) waits.silent
  finishes := by
    intro more
    have phase : x.zip.cpu.aluPhase = true := by
      by_contra past
      have still : (x.clock b true e).zip.cpu.aluPhase = false :=
        Core.aluPhase_halt ending.halt (Bool.eq_false_of_not_eq_true past)
      exact Bool.false_ne_true (still.symm.trans more)
    obtain ⟨optCis, second, goes⟩ := ending.finishes phase
    have same : x.zip.cpu.newPc = false := by
      by_contra new
      have past := (Core.parts_leaves (b := b) (i := x.coreInputs e) phase (Bool.not_eq_false _ ▸ new)).2
      exact Bool.false_ne_true (past.symm.trans more)
    have lively := goes.resolve_left (by simp [same])
    rcases second.clock (i := x.coreInputs e) optCis ending.good.staged waits.up.core phase with
      ⟨-, past, -⟩ | ⟨-, -, second₁⟩
    · exact absurd (past.symm.trans more) Bool.false_ne_true
    · refine ⟨optCis, second₁, ?_⟩
      cases new : x.zip.cpu.nextNewPc (x.coreInputs e) with
      | true => exact .inl new
      | false =>
        have idle := second.idle ending.good.staged same more
        exact .inr (lively.clock ending.good.sound.core.steady second waits.answers ending.empty same new idle)

theorem Ending.run (ending : x.Ending b) {es : List (Inputs aw)}
    (always : Clocked.Always (System.clock b true) Waits x es) :
    (Clocked.run (System.clock b true) x es).Ending b :=
  Clocked.run_invariant (fun _ _ ending waits => ending.clock waits) ending always

theorem Ending.returns (ending : x.Ending b) : x.Returns b := by
  cases phase : x.zip.cpu.aluPhase with
  | false => exact between_returns ending.good ending.out ending.halt ending.empty phase
  | true =>
    obtain ⟨optCis, second, new | lively⟩ := ending.finishes phase
    · have waits := ending.out.waits
      have next := ending.clock waits
      refine .step waits (between_returns next.good next.out next.halt next.empty ?_)
      exact (Core.parts_leaves phase new).2
    · exact middle_returns optCis ending.good ending.out ending.halt ending.empty phase second lively

end System

end IcoZip.Zipcore
