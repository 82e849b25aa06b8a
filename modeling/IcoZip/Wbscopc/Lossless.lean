import IcoZip.Library.Clocked
import IcoZip.Wbscopc.Recorder
import IcoZip.Wbscopc.Words

/-! What the scope writes to its memory are its samples.

Beside the registers runs a record of the samples since the last reset and of
the words that have gone to the memory. `record_ce` is not part of the reset: a
word of the run before may go to the memory behind it.
-/

set_option autoImplicit false

namespace IcoZip.Wbscopc

open RunLength (expand lastOf)

variable {lgmem : Nat}

/-- An entry of the pipeline as a word of the memory. -/
def word (adr : Bool) (val : BitVec 31) : BitVec 32 := BitVec.ofBool adr ++ val

theorem isAddress_word (adr : Bool) (val : BitVec 31) : isAddress (word adr val) = adr := by
  have top : (BitVec.ofBool adr ++ val).getLsbD 31 = adr := by
    rw [BitVec.getLsbD_append]
    simp
  exact top

theorem item_word_data (val : BitVec 31) : item (word false val) = .sample (word false val) :=
  item_data (isAddress_word false val)

theorem item_word_address (val : BitVec 31) : item (word true val) = .again (val.toNat + 1) := by
  have small := val.isLt
  have value : (run (word true val)).toNat = val.toNat := by
    rw [run, BitVec.toNat_and, word]
    have mask := Nat.and_two_pow_sub_one_eq_mod (BitVec.ofBool true ++ val).toNat 31
    refine mask.trans ?_
    rw [BitVec.toNat_append, Nat.shiftLeft_eq, Nat.or_mod_two_pow]
    simp [Nat.mod_eq_of_lt small]
  rw [item_address (isAddress_word true val), value]

/-- The samples that a sequence of words stands for; lengths without a sample before them are skipped. -/
def decoded (words : List (BitVec 32)) : List (BitVec 32) := expand none (words.map item)

theorem decoded_append (words more : List (BitVec 32)) : decoded words <+: decoded (words ++ more) := by
  rw [decoded, decoded, List.map_append, RunLength.expand_append]
  exact List.prefix_append _ _

structure Record where
  /-- The words that have gone to the memory. -/
  written : List (BitVec 32)
  /-- The first sample is the one that the reset has found or left in `qd_data`. -/
  samples : List (BitVec 31)
  deriving DecidableEq, Repr

namespace Registers

variable (s : Registers lgmem)

/-- The word on its way to the memory. -/
def recording : List (BitVec 32) := if s.recordCe then [s.rData] else []

/-- The word that leaves the pipeline at the next sample. -/
def leaving : List (BitVec 32) := if s.apart then [word s.lstAdr s.lstVal] else []

def newest : BitVec 32 := word s.immAdr s.immVal

/-- What enters the pipeline at the next sample. -/
def entry : BitVec 32 := if s.restarts then word false s.qdData else word true s.ckAddr

/-- The recording has stopped. -/
def ended : Bool := s.drStopPipe.getLsbD 2

/-- Once the recording is stopped it stays so. -/
structure Stopping : Prop where
  third : s.drStopPipe.getLsbD 2 = true → s.drStopPipe.getLsbD 1 = true
  second : s.drStopPipe.getLsbD 1 = true → s.drStopPipe.getLsbD 0 = true
  first : s.drStopPipe.getLsbD 0 = true → s.drStopped = true
  triggered : s.drStopped = true → s.drTriggered = true

section
variable {s} {i : Inputs} {maxStep : BitVec 31}

theorem drStopPipe_clock (running : s.dwReset = false) {k : Nat} (small : k < 5) :
    (s.clock i maxStep).drStopPipe.getLsbD k =
      if i.ce then if k = 0 then s.drStopped else s.drStopPipe.getLsbD (k - 1) else s.drStopPipe.getLsbD k := by
  cases ce : i.ce with
  | false => simp [clock, running, ce]
  | true =>
    have shifted : (s.drStopPipe.extractLsb' 0 4 ++ BitVec.ofBool s.drStopped).getLsbD k =
        if k = 0 then s.drStopped else s.drStopPipe.getLsbD (k - 1) := by
      rw [BitVec.getLsbD_append]
      rcases k with - | k
      · simp
      · have inside : k < 4 := by omega
        simp [inside]
    simp only [clock, running, ce, if_true, Bool.false_eq_true, if_false]
    exact shifted

theorem drStopped_clock (running : s.dwReset = false) (stopped : s.drStopped = true)
    (triggered : s.drTriggered = true) : (s.clock i maxStep).drStopped = true := by
  simp [clock, running, stopped, triggered]

end

theorem Stopping.clock {s : Registers lgmem} (stopping : Stopping s) (running : s.dwReset = false) (i : Inputs)
    (maxStep : BitVec 31) : Stopping (s.clock i maxStep) := by
  have stays (stopped : s.drStopped = true) : (s.clock i maxStep).drStopped = true :=
    drStopped_clock running stopped (stopping.triggered stopped)
  constructor
  case triggered =>
    have before := stopping.triggered
    cases triggered : s.drTriggered <;> simp_all [Registers.clock]
  all_goals rw [drStopPipe_clock running (by decide)]
  case first =>
    cases i.ce
    · exact fun bit => stays (stopping.first bit)
    · exact stays
  all_goals rw [drStopPipe_clock running (by decide)]
  case third =>
    cases i.ce
    · exact stopping.third
    · exact stopping.second
  case second =>
    cases i.ce
    · exact stopping.second
    · exact stopping.first

section
variable {s : Registers lgmem} {i : Inputs} {maxStep : BitVec 31}

theorem recording_clock : (s.clock i maxStep).recording = if i.ce && !s.ended then s.leaving else [] := by
  cases ce : i.ce <;> cases apart : s.apart <;> cases ended : s.drStopPipe.getLsbD 2 <;>
    simp [recording, leaving, word, Registers.ended, clock, ce, apart]

theorem leaving_clock (running : s.dwReset = false) (ce : i.ce = true) :
    (s.clock i maxStep).leaving = if s.restarts || !s.immAdr then [s.newest] else [] := by
  cases restarts : s.restarts <;> cases adr : s.immAdr <;>
    simp [leaving, newest, Registers.apart, clock, running, ce, restarts, adr]

theorem newest_clock (running : s.dwReset = false) (ce : i.ce = true) : (s.clock i maxStep).newest = s.entry := by
  cases restarts : s.restarts <;> simp [newest, entry, clock, running, ce, restarts]

/-- Without a sample only the word on its way moves on. -/
theorem pipeline_idle (maxStep : BitVec 31) (running : s.dwReset = false) (ce : i.ce = false) :
    (s.clock i maxStep).leaving = s.leaving ∧ (s.clock i maxStep).newest = s.newest ∧
    (s.clock i maxStep).qdData = s.qdData ∧ (s.clock i maxStep).newData = s.newData ∧
    (s.clock i maxStep).ended = s.ended ∧ (s.clock i maxStep).recording = [] := by
  simp [leaving, newest, Registers.apart, Registers.ended, recording, clock, running, ce]

end

end Registers

abbrev Recorded (lgmem : Nat) := Registers lgmem × Record

namespace Recorded

variable (maxStep : BitVec 31)

def step (x : Recorded lgmem) (i : Inputs) : Recorded lgmem :=
  (x.1.clock i maxStep,
    if x.1.dwReset then ⟨[], [if i.ce then i.data else x.1.qdData]⟩
    else ⟨x.2.written ++ x.1.recording, x.2.samples ++ if i.ce then [i.data] else []⟩)

def powerUp (free : Registers lgmem) : Recorded lgmem := (free.powerUp, ⟨[], [free.qdData]⟩)

/-- No data word is being recorded in the clock of a reset. -/
def Clean (x : Recorded lgmem) (i : Inputs) : Prop :=
  x.1.dwReset = true → i.ce = false ∨ x.1.ended = true ∨ x.1.lstAdr = true

instance (x : Recorded lgmem) (i : Inputs) : Decidable (Clean x i) := inferInstanceAs (Decidable (_ → _))

/-- The memory has the samples from the first one on, and until the recording stops the pipeline has the others. -/
structure Lossless (x : Recorded lgmem) : Prop where
  decodes : decoded x.2.written <+: x.2.samples.map (word false)
  complete : x.1.ended = false →
    decoded (x.2.written ++ x.1.recording ++ x.1.leaving ++ [x.1.newest]) ++ [word false x.1.qdData] =
      x.2.samples.map (word false)

/-- The last run has been going on for `c` samples. -/
structure Tidy (c : Nat) (x : Recorded lgmem) : Prop where
  count : x.1.ckAddr = BitVec.ofNat 31 c
  bound : c ≤ maxStep.toNat + 1
  cut : c = maxStep.toNat + 1 → x.1.drForceWrite = true
  timeout : c = maxStep.toNat → x.1.drRunTimeout = true
  free : 0 < c → x.1.drForceInhibit = false
  paced : x.1.newData = true ∨ if x.1.immAdr then x.1.immVal.toNat + 1 = c else c = 0
  repeated : x.1.ended = false → x.1.newData = false →
    lastOf none ((x.2.written ++ x.1.recording ++ x.1.leaving ++ [x.1.newest]).map item) = some (word false x.1.qdData)
  pending : decoded (x.2.written ++ x.1.recording) <+: x.2.samples.map (word false)
  stopping : x.1.Stopping

section
variable {maxStep : BitVec 31} {c : Nat} {x : Recorded lgmem} {i : Inputs}

theorem step_running (running : x.1.dwReset = false) :
    x.step maxStep i = (x.1.clock i maxStep,
      ⟨x.2.written ++ x.1.recording, x.2.samples ++ if i.ce then [i.data] else []⟩) := by
  simp [step, running]

/-- The words of the memory and of the pipeline after a sample: the oldest entry has left it, the newest has
come in, and has taken the place of the one before it if both are lengths. -/
theorem words_sample (running : x.1.dwReset = false) (ce : i.ce = true) (going : x.1.ended = false) :
    (x.step maxStep i).2.written ++ (x.step maxStep i).1.recording ++ (x.step maxStep i).1.leaving ++
        [(x.step maxStep i).1.newest] =
      x.2.written ++ x.1.recording ++ x.1.leaving ++
        ((if x.1.restarts || !x.1.immAdr then [x.1.newest] else []) ++ [x.1.entry]) := by
  simp only [step_running running, Registers.recording_clock, Registers.leaving_clock running ce,
    Registers.newest_clock running ce, ce, going, Bool.not_false, Bool.and_self, if_true, List.append_assoc]

/-- A run that goes on has not reached the point where it is cut. -/
theorem Tidy.low (tidy : Tidy maxStep c x) (on : x.1.restarts = false) : c ≤ maxStep.toNat := by
  simp only [Registers.restarts, Bool.or_eq_false_iff] at on
  by_contra high
  have cut := tidy.cut (by have := tidy.bound; omega)
  exact absurd (on.1.2.symm.trans cut) (by decide)

theorem Tidy.ckAddr_toNat (tidy : Tidy maxStep c x) (on : x.1.restarts = false) : x.1.ckAddr.toNat = c := by
  have low := tidy.low on
  have small := maxStep.isLt
  rw [tidy.count, BitVec.toNat_ofNat]
  exact Nat.mod_eq_of_lt (by omega)

/-- What the newest sample adds to what the words stand for. -/
theorem Tidy.enters (tidy : Tidy maxStep c x) (going : x.1.ended = false) :
    let words := x.2.written ++ x.1.recording ++ x.1.leaving
    let more := (if x.1.restarts || !x.1.immAdr then [x.1.newest] else []) ++ [x.1.entry]
    decoded (words ++ more) = decoded (words ++ [x.1.newest]) ++ [word false x.1.qdData] ∧
      lastOf none ((words ++ more).map item) = some (word false x.1.qdData) := by
  intro words more
  cases restarts : x.1.restarts with
  | true =>
    have shape : words ++ more = words ++ [x.1.newest] ++ [word false x.1.qdData] := by
      simp [more, Registers.entry, restarts]
    simp only [shape, decoded, List.map_append, List.map_singleton, item_word_data]
    exact ⟨RunLength.expand_sample _ _ _, RunLength.lastOf_sample _ _ _⟩
  | false =>
    have old : x.1.newData = false := by
      simp only [Registers.restarts, Bool.or_eq_false_iff] at restarts
      exact restarts.1.1
    have repeated := tidy.repeated going old
    have paced := tidy.paced.resolve_left (by simp [old])
    have entry : item x.1.entry = .again (c + 1) := by
      rw [Registers.entry, restarts, if_neg (by decide), item_word_address, tidy.ckAddr_toNat restarts]
    have last : lastOf none (words.map item ++ [item x.1.newest]) = some (word false x.1.qdData) := by
      simpa only [words, List.map_append, List.map_singleton] using repeated
    cases adr : x.1.immAdr with
    | false =>
      -- the first repetition
      simp only [adr, Bool.false_eq_true, if_false] at paced
      have shape : words ++ more = words ++ [x.1.newest] ++ [x.1.entry] := by simp [more, restarts, adr]
      simp only [shape, decoded, List.map_append, List.map_singleton, entry, paced]
      rw [RunLength.expand_again, RunLength.expand_again_zero, RunLength.lastOf_again, last]
      exact ⟨rfl, rfl⟩
    | true =>
      -- one more
      simp only [adr, if_true] at paced
      have shape : words ++ more = words ++ [x.1.entry] := by simp [more, restarts, adr]
      have newest : item x.1.newest = .again c := by
        rw [Registers.newest, adr, item_word_address, paced]
      rw [newest, RunLength.lastOf_again] at last
      simp only [shape, decoded, List.map_append, List.map_singleton, entry, newest]
      rw [RunLength.expand_again, RunLength.lastOf_again, last]
      exact ⟨rfl, rfl⟩

/-- The clocks of the last run, after a sample. -/
def counted (c : Nat) (s : Registers lgmem) : Nat := if s.restarts then 0 else c + 1

/-- What a sample does to the length of the run. -/
theorem counters_sample (tidy : Tidy maxStep c x) (running : x.1.dwReset = false) (ce : i.ce = true)
    (positive : 0 < maxStep.toNat) :
    let s := x.1.clock i maxStep
    let c' := counted c x.1
    s.ckAddr = BitVec.ofNat 31 c' ∧ c' ≤ maxStep.toNat + 1 ∧ (c' = maxStep.toNat + 1 → s.drForceWrite = true) ∧
      (c' = maxStep.toNat → s.drRunTimeout = true) ∧ (0 < c' → s.drForceInhibit = false) ∧
      if s.immAdr then s.immVal.toNat + 1 = c' else c' = 0 := by
  intro s c'
  cases restarts : x.1.restarts with
  | true =>
    have zero : c' = 0 := by simp [c', counted, restarts]
    have adr : s.immAdr = false := by simp [s, Registers.clock, running, ce, restarts]
    rw [zero, adr]
    exact ⟨by simp [s, Registers.clock, running, ce, restarts], by omega, by omega, by omega, by omega, rfl⟩
  | false =>
    have more : c' = c + 1 := by simp [c', counted, restarts]
    have low := tidy.low restarts
    have value := tidy.ckAddr_toNat restarts
    have unforced : x.1.drForceWrite = false := by
      simp only [Registers.restarts, Bool.or_eq_false_iff] at restarts
      exact restarts.1.2
    rw [more]
    refine ⟨?_, by omega, fun end_ => ?_, fun near => ?_, fun _ => ?_, ?_⟩
    · simp [s, Registers.clock, running, ce, restarts, tidy.count, BitVec.ofNat_add]
    · have full : c = maxStep.toNat := by omega
      have timeout := tidy.timeout full
      have free := tidy.free (by omega)
      simp [s, Registers.clock, running, ce, timeout, free, unforced]
    · have reached : maxStep - 1#31 ≤ x.1.ckAddr := by
        have one : 1#31 ≤ maxStep := by
          rw [BitVec.le_def]
          exact positive
        rw [BitVec.le_def, BitVec.toNat_sub_of_le one, value]
        simp
        omega
      simp [s, Registers.clock, running, ce, reached]
    · simp [s, Registers.clock, running, ce, unforced]
    · simp [s, Registers.clock, running, ce, restarts, value]

theorem step_sample (tidy : Tidy maxStep c x) (running : x.1.dwReset = false) (ce : i.ce = true)
    (positive : 0 < maxStep.toNat) (losslessly : Lossless x) :
    Lossless (x.step maxStep i) ∧ Tidy maxStep (counted c x.1) (x.step maxStep i) := by
  have next : (x.step maxStep i).1 = x.1.clock i maxStep := rfl
  have samples : (x.step maxStep i).2.samples = x.2.samples ++ [i.data] := by simp [step_running running, ce]
  have written : (x.step maxStep i).2.written = x.2.written ++ x.1.recording := by simp [step_running running]
  have going : (x.step maxStep i).1.ended = false → x.1.ended = false := by
    intro later
    rw [Registers.ended, next, Registers.drStopPipe_clock running (by decide), ce] at later
    by_contra ended
    rw [Bool.not_eq_false] at ended
    exact absurd (later.symm.trans (tidy.stopping.third ended)) (by decide)
  refine ⟨⟨?_, ?_⟩, ?_⟩
  · rw [written, samples, List.map_append]
    exact tidy.pending.trans (List.prefix_append _ _)
  · intro later
    have data : (x.step maxStep i).1.qdData = i.data := by simp [next, Registers.clock, ce]
    rw [words_sample running ce (going later), (tidy.enters (going later)).1, losslessly.complete (going later), data,
      samples, List.map_append]
    rfl
  · obtain ⟨count, bound, cut, timeout, free, paced⟩ := counters_sample tidy running ce positive
    refine ⟨count, bound, cut, timeout, free, .inr paced, ?_, ?_, tidy.stopping.clock running i maxStep⟩
    · intro later old
      rw [words_sample running ce (going later), (tidy.enters (going later)).2]
      have same : i.data = x.1.qdData := by simpa [next, Registers.clock, running, ce] using old
      simp [next, Registers.clock, ce, same]
    · rw [written, samples, List.map_append, next, Registers.recording_clock]
      refine List.IsPrefix.trans ?_ (List.prefix_append _ _)
      cases ended : x.1.ended with
      | true => simpa using tidy.pending
      | false =>
        rw [← losslessly.complete ended, ce]
        exact (decoded_append _ _).trans (List.prefix_append _ _)

theorem step_idle (tidy : Tidy maxStep c x) (running : x.1.dwReset = false) (ce : i.ce = false)
    (losslessly : Lossless x) : Lossless (x.step maxStep i) ∧ Tidy maxStep c (x.step maxStep i) := by
  have next : (x.step maxStep i).1 = x.1.clock i maxStep := rfl
  have samples : (x.step maxStep i).2.samples = x.2.samples := by simp [step_running running, ce]
  have written : (x.step maxStep i).2.written = x.2.written ++ x.1.recording := by simp [step_running running]
  obtain ⟨leaving, newest, data, new, ended, recording⟩ := Registers.pipeline_idle maxStep running ce
  rw [← next] at leaving newest data new ended recording
  have words : (x.step maxStep i).2.written ++ (x.step maxStep i).1.recording = x.2.written ++ x.1.recording := by
    rw [written, recording, List.append_nil]
  refine ⟨⟨?_, ?_⟩, ?_⟩
  · rw [written, samples]
    exact tidy.pending
  · rw [words, leaving, newest, data, samples, ended]
    exact losslessly.complete
  · constructor
    case repeated =>
      rw [words, leaving, newest, data, ended, new]
      exact tidy.repeated
    case pending =>
      rw [words, samples]
      exact tidy.pending
    case stopping => exact tidy.stopping.clock running i maxStep
    case bound => exact tidy.bound
    all_goals simp only [next, Registers.clock, running, ce, Bool.false_eq_true, if_false]
    case count => exact tidy.count
    case cut => exact tidy.cut
    case timeout => exact tidy.timeout
    case free => exact tidy.free
    case paced => exact tidy.paced

/-- A reset that finds no data word at the head of the pipeline starts a record of its own. -/
theorem step_reset (reset : x.1.dwReset = true) (clean : Clean x i) :
    Lossless (x.step maxStep i) ∧ Tidy maxStep 0 (x.step maxStep i) := by
  have next : (x.step maxStep i).1 = x.1.clock i maxStep := rfl
  have ledger : (x.step maxStep i).2 = ⟨[], [(x.step maxStep i).1.qdData]⟩ := by
    simp [step, reset, Registers.clock]
  have recording : (x.step maxStep i).1.recording = [] ∨ ∃ val, (x.step maxStep i).1.recording = [word true val] := by
    rw [next, Registers.recording_clock]
    split_ifs with late
    · simp only [Bool.and_eq_true, Bool.not_eq_true'] at late
      have adr : x.1.lstAdr = true := by
        rcases clean reset with ce | ended | adr
        · exact absurd (ce.symm.trans late.1) (by decide)
        · exact absurd (ended.symm.trans late.2) (by decide)
        · exact adr
      cases apart : x.1.apart <;> simp [Registers.leaving, apart, adr]
    · exact .inl rfl
  have leaving : (x.step maxStep i).1.leaving = [] := by
    simp [next, Registers.leaving, Registers.apart, Registers.clock, reset]
  have newest : (x.step maxStep i).1.newest = word true 0 := by
    simp [next, Registers.newest, Registers.clock, reset]
  have empty : decoded ((x.step maxStep i).1.recording ++ [word true 0]) = [] := by
    obtain none | ⟨val, one⟩ := recording
    · simp [none, decoded, item_word_address, expand]
    · simp [one, decoded, item_word_address, expand]
  refine ⟨⟨?_, fun _ => ?_⟩, ?_⟩
  · rw [ledger]
    exact List.nil_prefix
  · rw [ledger, List.nil_append, leaving, List.append_nil, newest, empty]
    rfl
  · constructor
    case pending =>
      have head := decoded_append (x.step maxStep i).1.recording [word true 0]
      rw [empty] at head
      rw [ledger, List.nil_append, List.prefix_nil.mp head]
      exact List.nil_prefix
    case stopping => constructor <;> simp [next, Registers.clock, reset]
    case paced => exact .inl (by simp [next, Registers.clock, reset])
    case repeated => simp [next, Registers.clock, reset]
    all_goals simp [next, Registers.clock, reset]

end

theorem lossless_powerUp (free : Registers lgmem) : Lossless (powerUp free) := by
  constructor
  · exact List.nil_prefix
  · intro _
    have words : decoded ([] ++ (powerUp free).1.recording ++ (powerUp free).1.leaving ++ [(powerUp free).1.newest]) =
        [] := by
      simp [powerUp, Registers.powerUp, Registers.recording, Registers.leaving, Registers.apart, Registers.newest,
        decoded, item_word_address, expand]
    exact congrArg (· ++ [word false (powerUp free).1.qdData]) words

/-- The words in the memory stand for the samples from the first one on, none lost, doubled or miscounted, for
all samples, triggers and resets, as long as no reset finds a data word on its way to the memory. -/
theorem records_losslessly (free : Registers lgmem) (is : List Inputs) (positive : maxStep ≠ 0)
    (clean : Clocked.Always (step maxStep) Clean (powerUp free) is) :
    Lossless (Clocked.run (step maxStep) (powerUp free) is) := by
  have steps : 0 < maxStep.toNat := Nat.pos_of_ne_zero fun zero => positive (BitVec.eq_of_toNat_eq zero)
  let inv (x : Recorded lgmem) : Prop := Lossless x ∧ (x.1.dwReset = true ∨ ∃ c, Tidy maxStep c x)
  have kept (x : Recorded lgmem) (i : Inputs) (sound : inv x) (clean : Clean x i) : inv (x.step maxStep i) := by
    obtain ⟨losslessly, tidy⟩ := sound
    cases running : x.1.dwReset with
    | true =>
      obtain ⟨after, tidy⟩ := step_reset running clean
      exact ⟨after, .inr ⟨0, tidy⟩⟩
    | false =>
      obtain ⟨c, tidy⟩ := tidy.resolve_left (by simp [running])
      cases ce : i.ce with
      | true =>
        obtain ⟨after, tidy⟩ := step_sample tidy running ce steps losslessly
        exact ⟨after, .inr ⟨_, tidy⟩⟩
      | false =>
        obtain ⟨after, tidy⟩ := step_idle tidy running ce losslessly
        exact ⟨after, .inr ⟨c, tidy⟩⟩
  have start : inv (powerUp free) :=
    ⟨lossless_powerUp free, .inl (by simp [powerUp, Registers.powerUp, Registers.dwReset])⟩
  exact (Clocked.run_invariant kept start clean).1

/-- Four words of memory. -/
def blank : Registers 2 :=
  { brConfig := 0, brHoldoff := 4, drTriggered := false, drPrimed := false, drStopped := false, holdoffCounter := 0
    drStopPipe := 0, drForceWrite := false, drForceInhibit := false, ckAddr := 0, drRunTimeout := false
    newData := false, qdData := 0, immVal := 0, immAdr := true, lstVal := 0, lstAdr := true, recordCe := false
    rData := 0, waddr := 0, mem := fun _ => 0 }

def sample (data : BitVec 31) : Inputs := ⟨true, false, data, false, false, false, 0⟩

/-- A write of 0 to the control register, which asks for a reset. -/
def asking (data : BitVec 31) : Inputs := { sample data with wbStb := true, wbWe := true }

/-- Samples, a request for a reset in a clock without one, and samples again. -/
def paused : List Inputs :=
  [sample 1, sample 2, sample 3, { asking 0 with ce := false }, { sample 0 with ce := false }] ++
    [sample 4, sample 5, sample 5, sample 5, sample 5, sample 6, sample 6, sample 7, sample 8, sample 9, sample 9]

theorem records_losslessly_paused : Lossless (Clocked.run (step 2) (powerUp blank) paused) :=
  records_losslessly 2 blank paused (by decide) (by decide)

/-- Samples that go on through a reset: the memory begins with the sample 2 of the run before, twice. -/
theorem reset_keeps_word :
    (Clocked.run (step 2) (powerUp blank)
      [sample 1, sample 2, sample 3, asking 4, sample 5, sample 6, sample 7, sample 8, sample 9]).2 =
      ⟨[2, word true 0, 5], [5, 6, 7, 8, 9]⟩ ∧
    ¬ Lossless (Clocked.run (step 2) (powerUp blank)
      [sample 1, sample 2, sample 3, asking 4, sample 5, sample 6, sample 7, sample 8, sample 9]) := by
  have record : (Clocked.run (step 2) (powerUp blank)
      [sample 1, sample 2, sample 3, asking 4, sample 5, sample 6, sample 7, sample 8, sample 9]).2 =
      ⟨[2, word true 0, 5], [5, 6, 7, 8, 9]⟩ := by decide +kernel
  refine ⟨record, fun losslessly => ?_⟩
  have wrong := losslessly.decodes
  rw [record] at wrong
  exact absurd wrong (by decide +kernel)

end Recorded

end IcoZip.Wbscopc
