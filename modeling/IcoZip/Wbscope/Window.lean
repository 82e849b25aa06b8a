import IcoZip.Wbscope.Recorder

/-! What the stopped scope holds, and what is read from it.
-/

set_option autoImplicit false

namespace IcoZip.Wbscope

variable {lgmem : Nat}

namespace Registers

variable {s : Registers lgmem} {i : Inputs}

/-- A clock outside a reset. -/
theorem clock_running (running : s.dwReset = false) :
    (s.clock i).drTriggered = (s.drTriggered || i.ce && s.dwTrigger i) ∧
    (s.clock i).counter = (if i.ce && s.drTriggered && !s.drStopped then s.counter + 1 else s.counter) ∧
    (s.clock i).drStopped = (s.drTriggered && (s.drStopped || decide (s.brHoldoff ≤ s.counter))) ∧
    (s.clock i).waddr = (if i.ce && !s.drStopped then s.waddr + 1 else s.waddr) ∧
    (s.clock i).drPrimed = (s.drPrimed || i.ce && !s.drStopped && s.waddr == BitVec.allOnes lgmem) := by
  refine ⟨?_, ?_, ?_, ?_, ?_⟩
  · cases ce : i.ce <;> cases trigger : s.dwTrigger i <;> cases triggered : s.drTriggered <;>
      simp [clock, running, ce, trigger, triggered]
  · simp [clock, running]
  · cases triggered : s.drTriggered <;> cases stopped : s.drStopped <;> simp [clock, running, triggered, stopped]
  · simp [clock, running]
  · cases ce : i.ce <;> cases primed : s.drPrimed <;> cases stopped : s.drStopped <;>
      simp [clock, running, ce, primed, stopped]

/-- The holdoff stays until the next reset. -/
theorem clock_holdoff (running : (s.clock i).dwReset = false) : (s.clock i).brHoldoff = s.brHoldoff := by
  have set_ : s.brConfig.getLsbD 2 = true → i.writeToControl = true → i.wbData.getLsbD 31 = true := by
    intro idle write
    have request : (s.clock i).dwReset = !s.resetRequest i := by
      rw [dwReset, clock, BitVec.getLsbD_append]
      simp
    rw [request, resetRequest, dwReset, idle, write] at running
    simpa using running
  rw [clock]
  simp only
  cases idle : s.brConfig.getLsbD 2 <;> cases write : i.writeToControl <;> simp_all

end Registers

/-! ### The recording -/

/-- The record of a scope that is not being reset. -/
structure Recording (x : Scope lgmem) : Prop where
  pipe : ∀ k, k + 1 = x.samples.length → x.samples[k]? = some x.core.dataPipe
  waddr : x.core.waddr = BitVec.ofNat lgmem x.written
  /-- The sample before the first write is the one of before the reset. -/
  mem : ∀ j, j + 1 < x.written → x.written ≤ j + 1 + 2 ^ lgmem →
    x.samples[j]? = some (x.core.mem (BitVec.ofNat lgmem (j + 1)))
  primed : x.core.drPrimed = decide (2 ^ lgmem ≤ x.written)
  triggered : x.core.drTriggered = x.trigger.isSome
  stopped : x.core.drStopped = true → x.trigger.isSome = true
  waits : x.trigger = none → x.core.counter = 0
  running : x.core.drStopped = false → x.written = x.samples.length
  late : ∀ t, x.trigger = some t → 2 ^ lgmem ≤ t ∧ t < x.samples.length
  counts : ∀ t, x.trigger = some t → x.core.drStopped = false →
    x.core.counter.toNat + t + 1 = x.samples.length ∧ x.core.counter.toNat ≤ x.core.brHoldoff.toNat
  ends : ∀ t, x.trigger = some t → x.core.drStopped = true →
    x.written = t + x.core.brHoldoff.toNat + 2 ∧ x.written ≤ x.samples.length
  raddr : x.core.raddr = BitVec.ofNat lgmem x.reads
  fresh : x.reads = 0 → x.begun = false ∧ x.due = false ∧ x.returned = []

section
variable {x : Scope lgmem} {i : Inputs}

theorem step_reset (reset : x.core.dwReset = true) : Recording (x.step i) := by
  constructor <;> simp [Scope.step, Registers.clock, reset, Scope.rewinds]

theorem waddr_last (recording : Recording x) (short : x.written < 2 ^ lgmem) :
    (x.core.waddr == BitVec.allOnes lgmem) = decide (x.written + 1 = 2 ^ lgmem) := by
  have place : x.core.waddr.toNat = x.written := by
    rw [recording.waddr, BitVec.toNat_ofNat, Nat.mod_eq_of_lt short]
  rw [Bool.eq_iff_iff, beq_iff_eq, decide_eq_true_iff, ← BitVec.toNat_inj, place, BitVec.toNat_allOnes]
  omega

/-- The record's part of a clock outside a reset. -/
theorem step_running (running : x.core.dwReset = false) :
    (x.step i).samples = (if i.ce then x.samples ++ [i.data] else x.samples) ∧
    (x.step i).trigger =
      (if i.ce && x.core.dwTrigger i && x.trigger.isNone then some x.samples.length else x.trigger) ∧
    (x.step i).written = (if i.ce && !x.core.drStopped then x.written + 1 else x.written) := by
  simp [Scope.step, running]

/-- The scope stops only with the sample behind the holdoff. -/
theorem Recording.stops (recording : Recording x) (running : x.core.dwReset = false) (prompt : x.prompt i) {t : Nat}
    (trigger : x.trigger = some t) (before : x.core.drStopped = false) (stopped : (x.step i).core.drStopped = true) :
    i.ce = true ∧ x.samples.length = t + 1 + x.core.brHoldoff.toNat := by
  obtain ⟨-, -, stop, -, -⟩ := Registers.clock_running (i := i) running
  obtain ⟨count, bound⟩ := recording.counts t trigger before
  have reached : x.core.brHoldoff ≤ x.core.counter := by
    change (x.core.clock i).drStopped = true at stopped
    simpa [stop, before, recording.triggered, trigger] using stopped
  have least : x.core.brHoldoff.toNat ≤ x.core.counter.toNat := reached
  have length : x.samples.length = t + 1 + x.core.brHoldoff.toNat := by omega
  exact ⟨prompt before (by rw [trigger, length]; rfl), length⟩

/-- Samples and the trigger stay where they are. -/
theorem sample_kept (running : x.core.dwReset = false) {j : Nat} {v : BitVec 32} (found : x.samples[j]? = some v) :
    (x.step i).samples[j]? = some v := by
  rw [(step_running running).1]
  split_ifs
  · rw [List.getElem?_append_left (List.getElem?_eq_some_iff.mp found).1, found]
  · exact found

theorem trigger_kept (running : x.core.dwReset = false) {t : Nat} (trigger : x.trigger = some t) :
    (x.step i).trigger = some t := by
  rw [(step_running running).2.1, trigger]
  simp

/-- Where the trigger of the next clock comes from. -/
theorem Recording.trigger_cases (recording : Recording x) (running : x.core.dwReset = false) {t : Nat}
    (trigger : (x.step i).trigger = some t) :
    x.trigger = some t ∨ x.trigger = none ∧ x.core.drStopped = false ∧ i.ce = true ∧ t = x.samples.length ∧
      2 ^ lgmem ≤ x.samples.length := by
  cases before : x.trigger with
  | some t' =>
    rw [trigger_kept running before] at trigger
    exact .inl trigger
  | none =>
    right
    have going : x.core.drStopped = false := by
      cases stopped : x.core.drStopped with
      | false => rfl
      | true => simpa [before] using recording.stopped stopped
    rw [(step_running running).2.1, before] at trigger
    split_ifs at trigger with now
    simp only [Option.isNone_none, Bool.and_true, Bool.and_eq_true, Registers.dwTrigger] at now
    have filled : 2 ^ lgmem ≤ x.written := by simpa [recording.primed] using now.2.1
    rw [recording.running going] at filled
    exact ⟨rfl, going, now.1, (Option.some.inj trigger).symm, filled⟩

theorem place_ne {j k : Nat} (less : j < k) (near : k < j + 2 ^ lgmem) :
    BitVec.ofNat lgmem j ≠ BitVec.ofNat lgmem k := by
  intro same
  have equal := congrArg BitVec.toNat same
  rw [BitVec.toNat_ofNat, BitVec.toNat_ofNat] at equal
  have divides : 2 ^ lgmem ∣ k - j := (Nat.modEq_iff_dvd' less.le).mp equal
  exact absurd (Nat.le_of_dvd (by omega) divides) (by omega)

theorem Recording.mem_step (recording : Recording x) (running : x.core.dwReset = false) (j : Nat)
    (below : j + 1 < (x.step i).written) (within : (x.step i).written ≤ j + 1 + 2 ^ lgmem) :
    (x.step i).samples[j]? = some ((x.step i).core.mem (BitVec.ofNat lgmem (j + 1))) := by
  have mem : (x.step i).core.mem =
      if i.ce && !x.core.drStopped then Function.update x.core.mem x.core.waddr x.core.dataPipe else x.core.mem := rfl
  rw [(step_running running).2.2] at below within
  cases writes : i.ce && !x.core.drStopped with
  | false =>
    rw [writes, if_neg Bool.false_ne_true] at below within mem
    rw [mem]
    exact sample_kept running (recording.mem j below within)
  | true =>
    rw [writes, if_pos rfl] at below within mem
    rw [mem, recording.waddr]
    rcases Nat.lt_or_eq_of_le (Nat.le_of_lt_succ below) with older | newest
    · -- An older sample lies within one round of the memory, so it is not the one that is overwritten.
      rw [Function.update_of_ne (place_ne older (by omega))]
      exact sample_kept running (recording.mem j older (by omega))
    · have going : x.core.drStopped = false := by simpa using (Bool.and_eq_true_iff.mp writes).2
      rw [newest, Function.update_self]
      exact sample_kept running (recording.pipe j (newest.trans (recording.running going)))

theorem Recording.step (recording : Recording x) (running : x.core.dwReset = false) (prompt : x.prompt i)
    (again : (x.step i).core.dwReset = false) : Recording (x.step i) := by
  have holdoff : (x.step i).core.brHoldoff = x.core.brHoldoff := Registers.clock_holdoff again
  obtain ⟨triggered, counter, stopped, waddr, primed⟩ := Registers.clock_running (i := i) running
  obtain ⟨samples, trigger, written⟩ := step_running (i := i) running
  have core : (x.step i).core = x.core.clock i := rfl
  rw [← core] at triggered counter stopped waddr primed
  have kept : x.core.drStopped = true → (x.step i).core.drStopped = true := by
    intro before
    rw [stopped, before, recording.triggered, recording.stopped before]
    rfl
  have length : x.samples.length ≤ (x.step i).samples.length := by
    rw [samples]
    split_ifs <;> simp
  constructor
  case pipe =>
    -- A sample goes through `dataPipe` first, so the memory is one behind.
    intro k last
    cases ce : i.ce with
    | false =>
      have same : (x.step i).samples = x.samples := by simp [samples, ce]
      rw [same] at last ⊢
      rw [recording.pipe k last, core]
      simp [Registers.clock, ce]
    | true =>
      have more : (x.step i).samples = x.samples ++ [i.data] := by simp [samples, ce]
      rw [more, List.length_append, List.length_singleton, Nat.add_right_cancel_iff] at last
      rw [more, last, List.getElem?_concat_length, core]
      simp [Registers.clock, ce]
  case waddr =>
    rw [waddr, written, recording.waddr]
    split_ifs
    · rw [BitVec.ofNat_add]
      rfl
    · rfl
  case mem => exact recording.mem_step running
  case primed =>
    rw [primed, written, recording.primed, Bool.and_assoc]
    cases writes : i.ce && !x.core.drStopped with
    | false => simp [← Bool.and_assoc, writes]
    | true =>
      rw [← Bool.and_assoc, writes, Bool.true_and, if_pos rfl]
      by_cases full : 2 ^ lgmem ≤ x.written
      · have still : 2 ^ lgmem ≤ x.written + 1 := by omega
        simp [full, still]
      · -- The memory is full from the clock on in which the address comes round.
        rw [waddr_last recording (by omega)]
        simp only [full, decide_false, Bool.false_or, decide_eq_decide]
        omega
  case triggered =>
    rw [triggered, trigger, recording.triggered]
    cases before : x.trigger <;> cases ce : i.ce <;> cases now : x.core.dwTrigger i <;> simp
  case stopped =>
    intro after
    rw [stopped, recording.triggered] at after
    obtain ⟨t, some_⟩ := Option.isSome_iff_exists.mp (Bool.and_eq_true_iff.mp after).1
    rw [trigger_kept running some_]
    rfl
  case waits =>
    intro none_
    cases before : x.trigger with
    | some t => rw [trigger_kept running before] at none_; exact absurd none_ (by simp)
    | none =>
      have off : x.core.drTriggered = false := by rw [recording.triggered, before]; rfl
      rw [counter, off, Bool.and_false, Bool.false_and, if_neg Bool.false_ne_true]
      exact recording.waits before
  case running =>
    intro going
    have before : x.core.drStopped = false := by
      cases stop : x.core.drStopped with
      | false => rfl
      | true => rw [kept stop] at going; exact going
    rw [written, samples, before, recording.running before]
    cases ce : i.ce <;> simp
  case late =>
    intro t after
    rcases recording.trigger_cases running after with same | ⟨-, -, ce, here, filled⟩
    · obtain ⟨full, place⟩ := recording.late t same
      exact ⟨full, by omega⟩
    · rw [here, samples, ce, if_pos rfl, List.length_append, List.length_singleton]
      exact ⟨filled, by omega⟩
  case counts =>
    intro t after going
    rw [holdoff]
    rcases recording.trigger_cases running after with same | ⟨none_, going', ce, here, -⟩
    · have on : x.core.drTriggered = true := by rw [recording.triggered, same]; rfl
      rw [stopped, on, Bool.true_and, Bool.or_eq_false_iff, decide_eq_false_iff_not] at going
      obtain ⟨count, -⟩ := recording.counts t same going.1
      have more : x.core.counter.toNat < x.core.brHoldoff.toNat := by
        rw [← BitVec.lt_def]
        exact BitVec.not_le.mp going.2
      have bound := x.core.brHoldoff.isLt
      rw [counter, samples, on, going.1]
      cases ce : i.ce with
      | false => simp; omega
      | true => simp; omega
    · -- The trigger itself: the counter has not begun.
      have off : x.core.drTriggered = false := by rw [recording.triggered, none_]; rfl
      rw [counter, off, Bool.and_false, Bool.false_and, if_neg Bool.false_ne_true, recording.waits none_, here, samples,
        ce, if_pos rfl]
      simp
  case ends =>
    -- What has been recorded when the scope stops stays: a stopped scope takes samples but writes none.
    intro t after stop
    rw [holdoff, written, samples]
    cases before : x.core.drStopped with
    | true =>
      rcases recording.trigger_cases running after with same | ⟨-, going, -⟩
      · obtain ⟨place, inside⟩ := recording.ends t same before
        rw [Bool.not_true, Bool.and_false, if_neg Bool.false_ne_true]
        refine ⟨place, ?_⟩
        split_ifs
        · rw [List.length_append]
          omega
        · exact inside
      · rw [going] at before
        exact absurd before (by decide)
    | false =>
      have on : x.core.drTriggered = true := (Bool.and_eq_true_iff.mp (stopped ▸ stop)).1
      rw [recording.triggered] at on
      obtain ⟨t', same⟩ := Option.isSome_iff_exists.mp on
      obtain rfl : t' = t := Option.some.inj ((trigger_kept running same).symm.trans after)
      obtain ⟨ce, last⟩ := recording.stops running prompt same before stop
      have all := recording.running before
      rw [ce, Bool.not_false, Bool.and_true, if_pos rfl, if_pos rfl, List.length_append, List.length_singleton]
      omega
  case raddr =>
    have raddr : (x.step i).core.raddr =
        if x.rewinds i then 0 else if x.takes i then x.core.raddr + 1 else x.core.raddr := rfl
    have reads : (x.step i).reads = if x.rewinds i then 0 else if x.takes i then x.reads + 1 else x.reads := rfl
    rw [raddr, reads, recording.raddr]
    split_ifs
    · rfl
    · rw [BitVec.ofNat_add]
      rfl
    · rfl
  case fresh =>
    intro none_
    cases rewinds : x.rewinds i with
    | true => simp [Scope.step, rewinds]
    | false =>
      have reads : (x.step i).reads = if x.takes i then x.reads + 1 else x.reads := by simp [Scope.step, rewinds]
      rw [reads] at none_
      split_ifs at none_ with takes
      obtain ⟨begun, due, returned⟩ := recording.fresh none_
      simp [Scope.step, rewinds, takes, begun, due, returned]

/-- The record of a running scope, or a reset. -/
def Sound (x : Scope lgmem) : Prop := x.core.dwReset = false → Recording x

theorem sound_powerUp (free : Registers lgmem) : Sound (.powerUp free) := by
  intro running
  simp [Scope.powerUp, Registers.powerUp, Registers.dwReset] at running

theorem Sound.step (sound : Sound x) (prompt : x.prompt i) : Sound (x.step i) := by
  intro again
  cases reset : x.core.dwReset with
  | true => exact step_reset reset
  | false => exact (sound reset).step reset prompt again

/-- The stopped memory holds the samples up to the one of the holdoff. -/
theorem Recording.window (recording : Recording x) {t : Nat} (trigger : x.trigger = some t)
    (stopped : x.core.drStopped = true) :
    x.core.window = (x.samples.drop (t + x.core.brHoldoff.toNat + 1 - 2 ^ lgmem)).take (2 ^ lgmem) := by
  obtain ⟨filled, -⟩ := recording.late t trigger
  obtain ⟨place, inside⟩ := recording.ends t trigger stopped
  apply List.ext_getElem?
  intro k
  by_cases small : k < 2 ^ lgmem
  · have around : BitVec.ofNat lgmem x.written + BitVec.ofNat lgmem k =
        BitVec.ofNat lgmem (t + x.core.brHoldoff.toNat + 1 - 2 ^ lgmem + k + 1) := by
      rw [← BitVec.ofNat_add]
      have turn : x.written + k = t + x.core.brHoldoff.toNat + 1 - 2 ^ lgmem + k + 1 + 2 ^ lgmem := by omega
      apply BitVec.eq_of_toNat_eq
      rw [BitVec.toNat_ofNat, BitVec.toNat_ofNat, turn, Nat.add_mod_right]
    rw [List.getElem?_take_of_lt small, List.getElem?_drop, recording.mem _ (by omega) (by omega), ← around,
      ← recording.waddr]
    simp [Registers.window, small]
  · rw [List.getElem?_eq_none (by simp [Registers.window]; omega), List.getElem?_eq_none (by simp; omega)]

/-! ### The reads -/

/-- Reading the stopped memory: where the reads that are on their way find their words. -/
structure Reading (x : Scope lgmem) : Prop where
  stopped : x.core.drStopped = true
  triggered : x.core.drTriggered = true
  running : x.core.dwReset = false
  raddr : x.core.raddr = BitVec.ofNat lgmem x.reads
  thisAddr : x.core.thisAddr = x.core.waddr + BitVec.ofNat lgmem x.reads
  begun : x.begun = true → 1 ≤ x.reads ∧ x.core.readAddress = true ∧ x.core.brPreWbAck = true ∧
    x.core.nxtMem = x.core.mem (x.core.waddr + BitVec.ofNat lgmem (x.reads - 1))
  due : x.due = true → x.begun.toNat + 1 ≤ x.reads ∧ x.core.brWbAck = true ∧
    x.core.busData = x.core.mem (x.core.waddr + BitVec.ofNat lgmem (x.reads - x.begun.toNat - 1))
  returned : x.returned = (List.range (x.reads - x.begun.toNat - x.due.toNat)).map fun k =>
    x.core.mem (x.core.waddr + BitVec.ofNat lgmem k)

/-- Nothing of the recording moves in a stopped scope. -/
theorem step_stopped (running : x.core.dwReset = false) (stopped : x.core.drStopped = true)
    (triggered : x.core.drTriggered = true) (idle : i.writeToControl = false) :
    (x.step i).core.drStopped = true ∧ (x.step i).core.drTriggered = true ∧ (x.step i).core.dwReset = false ∧
    (x.step i).core.waddr = x.core.waddr ∧ (x.step i).core.mem = x.core.mem := by
  have pending : (x.core.clock i).dwReset = !x.core.resetRequest i := by
    rw [Registers.dwReset, Registers.clock, BitVec.getLsbD_append]
    simp
  refine ⟨?_, ?_, ?_, ?_, ?_⟩
  · simp [Scope.step, Registers.clock, running, stopped, triggered]
  · simp [Scope.step, Registers.clock, running, triggered]
  · change (x.core.clock i).dwReset = false
    rw [pending, Registers.resetRequest, idle]
    rw [Registers.dwReset] at running ⊢
    cases bit : x.core.brConfig.getLsbD 2 <;> simp_all
  · simp [Scope.step, Registers.clock, running, stopped]
  · simp [Scope.step, Registers.clock, stopped]

/-- One clock after the stop the first read can begin. -/
theorem Recording.reading (recording : Recording x) (running : x.core.dwReset = false)
    (stopped : x.core.drStopped = true) (none_ : x.reads = 0) (quiet : i.readFromData = false)
    (idle : i.writeToControl = false) : Reading (x.step i) := by
  have triggered : x.core.drTriggered = true := by rw [recording.triggered, recording.stopped stopped]
  obtain ⟨begun, due, returned⟩ := recording.fresh none_
  obtain ⟨stopped', triggered', running', waddr, -⟩ := step_stopped running stopped triggered idle
  have stays : x.rewinds i = false := by simp [Scope.rewinds, running, idle]
  have takes : x.takes i = false := by simp [Scope.takes, quiet]
  have reads : (x.step i).reads = 0 := by simp [Scope.step, stays, takes, none_]
  have begun' : (x.step i).begun = false := by simp [Scope.step, takes]
  have due' : (x.step i).due = false := by simp [Scope.step, begun]
  have start : x.core.raddr = BitVec.ofNat lgmem 0 := by rw [recording.raddr, none_]
  constructor
  case stopped => exact stopped'
  case triggered => exact triggered'
  case running => exact running'
  case raddr =>
    rw [reads]
    simp only [Scope.step, Registers.clock, running, idle, quiet, start, Bool.or_self, Bool.false_and,
      Bool.false_eq_true,
      if_false]
  case thisAddr =>
    rw [reads, waddr]
    simp [Scope.step, Registers.clock, quiet, start]
  case begun => simp [begun']
  case due => simp [due']
  case returned =>
    rw [reads]
    simp [Scope.step, stays, due, returned]

theorem Reading.step (reading : Reading x) (idle : i.writeToControl = false) (keeps : x.keeps i) :
    Reading (x.step i) := by
  obtain ⟨stopped, triggered, running, waddr, mem⟩ :=
    step_stopped reading.running reading.stopped reading.triggered idle
  have stays : x.rewinds i = false := by simp [Scope.rewinds, reading.running, idle]
  have takes : x.takes i = i.readFromData := by simp [Scope.takes, reading.stopped]
  have reads : (x.step i).reads = x.reads + i.readFromData.toNat := by
    cases read : i.readFromData <;> simp [Scope.step, stays, takes, read]
  have begun : (x.step i).begun = i.readFromData := by simp [Scope.step, stays, takes]
  have due : (x.step i).due = x.begun := by simp [Scope.step, stays]
  constructor
  case stopped => exact stopped
  case triggered => exact triggered
  case running => exact running
  case raddr =>
    have raddr : (x.step i).core.raddr = if i.readFromData then x.core.raddr + 1 else x.core.raddr := by
      simp [Scope.step, Registers.clock, reading.running, idle, reading.stopped]
    rw [raddr, reads, reading.raddr]
    cases i.readFromData with
    | false => rfl
    | true => exact (BitVec.ofNat_add x.reads 1).symm
  case thisAddr =>
    have thisAddr : (x.step i).core.thisAddr =
        if i.readFromData then x.core.raddr + x.core.waddr + 1 else x.core.raddr + x.core.waddr := rfl
    rw [thisAddr, reads, waddr, reading.raddr, BitVec.add_comm _ x.core.waddr]
    cases i.readFromData with
    | false => rfl
    | true =>
      rw [if_pos rfl, BitVec.add_assoc]
      exact congrArg _ (BitVec.ofNat_add x.reads 1).symm
  case begun =>
    intro now
    rw [begun] at now
    have nxtMem : (x.step i).core.nxtMem = x.core.mem x.core.thisAddr := rfl
    have shape : i.wbStb = true ∧ i.wbAddr = true := by
      simp only [Inputs.readFromData, Bool.and_eq_true] at now
      exact ⟨now.1.1, now.2⟩
    rw [reads, now, nxtMem, mem, waddr, reading.thisAddr]
    exact ⟨Nat.le_add_left 1 x.reads, shape.2, shape.1, rfl⟩
  case due =>
    intro later
    rw [due] at later
    obtain ⟨some_, readAddress, ack, word⟩ := reading.begun later
    have cyc : i.wbCyc = true := keeps (by rw [later]; simp)
    have busData : (x.step i).core.busData = x.core.nxtMem := by
      simp [Scope.step, Registers.clock, readAddress, reading.stopped]
    rw [reads, begun, busData, word, mem, waddr, Nat.add_sub_cancel]
    exact ⟨by omega, by simp [Scope.step, Registers.clock, ack, cyc], rfl⟩
  case returned =>
    -- A word that has been asked for comes two clocks later: one in which it is begun and one in which it is due.
    have left : x.reads + i.readFromData.toNat - i.readFromData.toNat - x.begun.toNat = x.reads - x.begun.toNat := by
      omega
    rw [reads, begun, due, left, mem, waddr]
    cases answered : x.due with
    | false =>
      have same : (x.step i).returned = x.returned := by simp [Scope.step, stays, answered]
      rw [same, reading.returned, answered]
      rfl
    | true =>
      obtain ⟨some_, ack, word⟩ := reading.due answered
      have cyc : i.wbCyc = true := keeps (by rw [answered]; simp)
      have more : (x.step i).returned = x.returned ++ [x.core.busData] := by
        simp [Scope.step, stays, answered, Registers.wbAck, ack, cyc]
      have last : x.reads - x.begun.toNat = x.reads - x.begun.toNat - 1 + 1 := by omega
      rw [more, reading.returned, answered, word, last, List.range_succ, List.map_append, Nat.add_sub_cancel]
      rfl

theorem Reading.run (reading : Reading x) {is : List Inputs} (idle : ∀ i ∈ is, i.writeToControl = false)
    (keeps : Clocked.Always Scope.step Scope.keeps x is) :
    Reading (x.run is) ∧ (x.run is).core.waddr = x.core.waddr ∧ (x.run is).core.mem = x.core.mem ∧
      (x.run is).reads = x.reads + is.countP Inputs.readFromData := by
  induction is generalizing x with
  | nil => exact ⟨reading, rfl, rfl, rfl⟩
  | cons i is ih =>
    obtain ⟨now, later⟩ := List.forall_mem_cons.mp idle
    obtain ⟨-, -, -, waddr, mem⟩ := step_stopped reading.running reading.stopped reading.triggered now
    obtain ⟨rest, waddr', mem', reads⟩ := ih (reading.step now keeps.1) later keeps.2
    have count : (x.step i).reads = x.reads + i.readFromData.toNat := by
      cases read : i.readFromData <;>
        simp [Scope.step, Scope.rewinds, Scope.takes, reading.running, reading.stopped, now, read]
    refine ⟨rest, waddr'.trans waddr, mem'.trans mem, reads.trans ?_⟩
    rw [count, List.countP_cons]
    cases i.readFromData <;> simp
    omega

/-- What has been returned so far is the beginning of the window. -/
theorem Reading.window (reading : Reading x) (few : x.reads ≤ 2 ^ lgmem) :
    x.returned.length + x.begun.toNat + x.due.toNat = x.reads ∧
      x.returned = x.core.window.take x.returned.length := by
  have length : x.returned.length = x.reads - x.begun.toNat - x.due.toNat := by
    rw [reading.returned, List.length_map, List.length_range]
  have pending : x.begun.toNat + x.due.toNat ≤ x.reads := by
    cases due : x.due with
    | false =>
      cases begun : x.begun with
      | false => exact Nat.zero_le _
      | true => exact (reading.begun begun).1
    | true => exact (reading.due due).1
  refine ⟨by omega, ?_⟩
  rw [length, Registers.window, ← List.map_take, List.take_range, Nat.min_eq_left (by omega)]
  exact reading.returned

end

/-- What a stopped scope promises: the samples that end with the one of the holdoff behind the trigger's, and that
reads begun one clock later return them, the oldest first. -/
structure Scope.Promise (x : Scope lgmem) (t : Nat) : Prop where
  trigger : x.trigger = some t
  filled : 2 ^ lgmem ≤ t
  reached : t + x.core.brHoldoff.toNat < x.samples.length
  window : x.core.window = (x.samples.drop (t + x.core.brHoldoff.toNat + 1 - 2 ^ lgmem)).take (2 ^ lgmem)
  returns : ∀ (pause : Inputs) (js : List Inputs), x.reads = 0 → pause.readFromData = false →
    (∀ j ∈ pause :: js, j.writeToControl = false) → Clocked.Always Scope.step Scope.keeps x (pause :: js) →
    js.countP Inputs.readFromData ≤ 2 ^ lgmem →
    (x.run (pause :: js)).returned.length + (x.run (pause :: js)).begun.toNat + (x.run (pause :: js)).due.toNat =
        js.countP Inputs.readFromData ∧
      (x.run (pause :: js)).returned = x.core.window.take (x.run (pause :: js)).returned.length

/-- The scope keeps its promise as long as a sample comes in the clock behind the holdoff's last one. -/
theorem records_window (free : Registers lgmem) (is : List Inputs)
    (prompt : Clocked.Always Scope.step Scope.prompt (.powerUp free) is)
    (running : ((Scope.powerUp free).run is).core.dwReset = false)
    (stopped : ((Scope.powerUp free).run is).core.drStopped = true) :
    ∃ t, ((Scope.powerUp free).run is).Promise t := by
  have recording : Recording ((Scope.powerUp free).run is) :=
    Clocked.run_invariant (fun _ _ sound now => Sound.step sound now) (sound_powerUp free) prompt running
  obtain ⟨t, trigger⟩ := Option.isSome_iff_exists.mp (recording.stopped stopped)
  obtain ⟨filled, -⟩ := recording.late t trigger
  obtain ⟨place, inside⟩ := recording.ends t trigger stopped
  refine ⟨t, trigger, filled, by omega, recording.window trigger stopped, ?_⟩
  intro pause js none_ quiet idle keeps few
  obtain ⟨now, later⟩ := List.forall_mem_cons.mp idle
  have triggered : ((Scope.powerUp free).run is).core.drTriggered = true := by
    rw [recording.triggered, recording.stopped stopped]
  obtain ⟨-, -, -, waddr, mem⟩ := step_stopped running stopped triggered now
  have first := recording.reading running stopped none_ quiet now
  have zero : (((Scope.powerUp free).run is).step pause).reads = 0 := by
    simp [Scope.step, Scope.rewinds, Scope.takes, running, now, quiet, none_]
  obtain ⟨reading, waddr', mem', reads⟩ := first.run later keeps.2
  rw [zero, Nat.zero_add] at reads
  have window := reading.window (reads ▸ few)
  have same : ((((Scope.powerUp free).run is).step pause).run js).core.window =
      ((Scope.powerUp free).run is).core.window := by
    rw [Registers.window, Registers.window, waddr', waddr, mem', mem]
  rwa [reads, same] at window

/-- A clock of the data side with the bus at rest. -/
def sampling (ce trigger : Bool) (data : BitVec 32) : Inputs := ⟨ce, trigger, data, false, false, false, false, 0⟩

/-- A holdoff of zero, then the samples 1 to 4, which fill the memory, and 5 with the trigger. -/
def filling : List Inputs :=
  [sampling false false 0, ⟨false, false, 0, true, true, true, false, 0⟩, sampling false false 0,
    sampling true false 1, sampling true false 2, sampling true false 3, sampling true false 4, sampling true true 5]

/-- The memory of a scope that has not been used. -/
def blank : Registers 2 :=
  ⟨0, 0, false, 0, false, 0, false, 0, fun _ => 0, 0, 0, 0, false, 0, false, false⟩

theorem records_window_zero :
    ∃ t, ((Scope.powerUp blank).run (filling ++ [sampling true false 6])).Promise t :=
  records_window blank (filling ++ [sampling true false 6]) (by decide) (by decide) (by decide)

/-- Without a sample in the clock behind the trigger's, the trigger's sample is left out. -/
theorem stops_early :
    ((Scope.powerUp blank).run (filling ++ [sampling false false 6])).core.dwReset = false ∧
      ((Scope.powerUp blank).run (filling ++ [sampling false false 6])).core.drStopped = true ∧
      ¬∃ t, ((Scope.powerUp blank).run (filling ++ [sampling false false 6])).Promise t := by
  refine ⟨by decide, by decide, ?_⟩
  rintro ⟨t, promise⟩
  have place : ((Scope.powerUp blank).run (filling ++ [sampling false false 6])).trigger = some 4 := by decide
  obtain rfl := Option.some.inj (place.symm.trans promise.trigger)
  exact absurd promise.window (by decide)

end IcoZip.Wbscope
