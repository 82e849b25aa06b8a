import IcoZip.Busdelay.Delay
import IcoZip.Library.Clocked

/-! `busdelay` hands on what it is given.

The delay stands between a master and a slave, and what has passed on either
side since the master's cycle began is written down. A clock in which the cycle
line is low, or a reset, ends the cycle and clears the record.
-/

set_option autoImplicit false

namespace IcoZip.Busdelay

/-- How a request is answered: with data, or with an error. -/
abbrev Response (dw : Nat) := Option (BitVec dw)

/-- What an answering side shows in a clock. -/
def response {dw : Nat} (ack err : Bool) (data : BitVec dw) : List (Response dw) :=
  if err then [none] else if ack then [some data] else []

variable {aw dw : Nat}

/-- The clock ends the cycle, if there was one. -/
def Inputs.ends (i : Inputs aw dw) : Bool := i.reset || !i.wbCyc

namespace Delay

variable (delayStall : Bool) (s : Delay aw dw) (i : Inputs aw dw)

/-- The request accepted from the master. -/
def accepts : List (Request aw dw) := if i.wbCyc && i.wbStb && !s.wbStall delayStall i then [i.wb] else []

/-- The request that the slave accepts. -/
def passes : List (Request aw dw) := if s.dlyCyc && s.dlyStb && !i.dlyStall then [s.dly] else []

/-- The requests that wait in the registers. -/
def held : List (Request aw dw) := (if s.dlyStb then [s.dly] else []) ++ (if s.rStb then [s.r] else [])

def shows : List (Response dw) := response s.wbAck s.wbErr s.wbData

end Delay

/-- The delay, and what has happened in the master's cycle. -/
structure Bench (aw dw : Nat) where
  core : Delay aw dw
  /-- Requests accepted from the master, and by the slave. -/
  up : List (Request aw dw)
  down : List (Request aw dw)
  /-- Responses given by the slave, and heard by the master. -/
  said : List (Response dw)
  heard : List (Response dw)

namespace Bench

def powerUp : Bench aw dw := ⟨.powerUp, [], [], [], []⟩

variable (delayStall lowpower : Bool) (x : Bench aw dw) (i : Inputs aw dw)

/-- The requests of the cycle, this clock included. -/
def accepted : List (Request aw dw) := x.up ++ x.core.accepts delayStall i

def passed : List (Request aw dw) := x.down ++ x.core.passes i

def step : Bench aw dw where
  core := x.core.clock delayStall lowpower i
  up := if i.ends then [] else x.accepted delayStall i
  down := if i.ends then [] else x.passed i
  said := if i.ends then [] else x.said ++ response i.dlyAck i.dlyErr i.dlyData
  heard := if i.ends then [] else x.heard ++ x.core.shows

/-- What the bus asks of both sides: the master drops its cycle when it has heard of an error,
the slave answers requests of the current cycle that it has not answered yet. -/
structure Obeys : Prop where
  drops : none ∈ x.heard → i.ends
  answers : i.dlyAck || i.dlyErr → x.core.dlyCyc ∧ x.said.length < (x.passed i).length

/-- One clock of a transparent delay. -/
structure Transparent : Prop where
  /-- The slave gets what the master has sent, in order. -/
  inOrder : x.passed i <+: x.accepted delayStall i
  /-- Nothing is lost or altered on the way, -/
  whole : none ∉ x.said → x.up = x.down ++ x.core.held
  /-- and what is on its way is offered to the slave. -/
  offered : x.core.held ≠ [] → x.core.dlyCyc ∧ x.core.dlyStb
  /-- The master is shown what the slave has said in this cycle and the master has not heard yet:
  each response one clock later, in the clock that ends the cycle at the latest, and none of another
  cycle. -/
  answered : x.heard ++ x.core.shows = x.said
  /-- Each response belongs to a request of the cycle. -/
  due : x.said.length ≤ x.down.length
  /-- An error is the last response, and the slave is left alone behind it. -/
  once : none ∉ x.said.dropLast
  ended : none ∈ x.said → x.core.dlyCyc = false ∧ x.core.dlyStb = false

end Bench

/-! ### What a clock does -/

namespace Delay

/-- What holds of the registers at any time. -/
structure Ordered (delayStall : Bool) (s : Delay aw dw) : Prop where
  skid : s.rStb → s.dlyStb
  strobe : s.dlyStb → s.dlyCyc
  error : s.wbErr → s.dlyCyc = false
  absent : delayStall = false → s.rStb = false

/-- The slave is left alone, and nothing is waiting. -/
structure Quiet (s : Delay aw dw) : Prop where
  cyc : s.dlyCyc = false
  stb : s.dlyStb = false
  skid : s.rStb = false

theorem Quiet.held {s : Delay aw dw} (quiet : s.Quiet) : s.held = [] := by
  simp [Delay.held, quiet.stb, quiet.skid]

theorem Quiet.passes {s : Delay aw dw} (quiet : s.Quiet) (i : Inputs aw dw) : s.passes i = [] := by
  simp [Delay.passes, quiet.stb]

theorem Quiet.ordered {s : Delay aw dw} (quiet : s.Quiet) (delayStall : Bool) : s.Ordered delayStall where
  skid skid := by rw [quiet.skid] at skid; contradiction
  strobe strobe := by rw [quiet.stb] at strobe; contradiction
  error _ := quiet.cyc
  absent _ := quiet.skid

theorem Ordered.quiet {delayStall : Bool} {s : Delay aw dw} (ordered : s.Ordered delayStall)
    (low : s.dlyCyc = false) : s.Quiet := by
  have stb : s.dlyStb = false := by
    cases stb : s.dlyStb with
    | false => rfl
    | true => rw [ordered.strobe stb] at low; exact low
  refine ⟨low, stb, ?_⟩
  cases skid : s.rStb with
  | false => rfl
  | true => rw [ordered.skid skid] at stb; exact stb

variable {delayStall : Bool} (lowpower : Bool) {s : Delay aw dw} {i : Inputs aw dw}

theorem clock_ends (ordered : s.Ordered delayStall) (ends : i.ends) :
    (s.clock delayStall lowpower i).Quiet ∧ (s.clock delayStall lowpower i).shows = [] := by
  have last : i.reset = true ∨ i.wbCyc = false := by simpa [Inputs.ends] using ends
  have error := ordered.error
  cases delayStall with
  | true =>
    rcases last with reset | low
    · refine ⟨⟨?_, ?_, ?_⟩, ?_⟩ <;> simp [clock, skidbuffer, shows, response, reset]
    · refine ⟨⟨?_, ?_, ?_⟩, ?_⟩ <;> simp [clock, skidbuffer, shows, response, low]
  | false =>
    have absent := ordered.absent rfl
    rcases last with reset | low
    · refine ⟨⟨?_, ?_, ?_⟩, ?_⟩ <;> simp [clock, unregistered, shows, response, reset, absent]
    · refine ⟨⟨?_, ?_, ?_⟩, ?_⟩ <;> simp [clock, unregistered, shows, response, low, absent]
      grind

/-- The clock in which the master is shown the error, and those behind it. -/
theorem clock_failed (quiet : s.Quiet) (goes : i.ends = false) (error : s.wbErr) :
    (s.clock delayStall lowpower i).Quiet ∧ (s.clock delayStall lowpower i).shows = [] := by
  obtain ⟨reset, cyc⟩ : i.reset = false ∧ i.wbCyc = true := by simpa [Inputs.ends] using goes
  cases delayStall with
  | true =>
    refine ⟨⟨?_, ?_, ?_⟩, ?_⟩ <;> simp [clock, skidbuffer, shows, response, error, quiet.cyc]
  | false =>
    refine ⟨⟨?_, ?_, ?_⟩, ?_⟩ <;>
      simp [clock, unregistered, shows, response, reset, cyc, error, quiet.cyc, quiet.skid]

/-- The slave reports an error. -/
theorem clock_errs (ordered : s.Ordered delayStall) (goes : i.ends = false) (cyc : s.dlyCyc) (err : i.dlyErr) :
    (s.clock delayStall lowpower i).Quiet ∧ (s.clock delayStall lowpower i).shows = [none] := by
  obtain ⟨reset, wbCyc⟩ : i.reset = false ∧ i.wbCyc = true := by simpa [Inputs.ends] using goes
  cases delayStall with
  | true =>
    refine ⟨⟨?_, ?_, ?_⟩, ?_⟩ <;> simp [clock, skidbuffer, shows, response, reset, wbCyc, cyc, err]
  | false =>
    have absent := ordered.absent rfl
    refine ⟨⟨?_, ?_, ?_⟩, ?_⟩ <;> simp [clock, unregistered, shows, response, reset, wbCyc, cyc, err, absent]

/-- Any other clock within the cycle. -/
theorem clock_goes (ordered : s.Ordered delayStall) (goes : i.ends = false) (noError : s.wbErr = false)
    (noErr : i.dlyErr = false) (answers : i.dlyAck → s.dlyCyc) :
    (s.clock delayStall lowpower i).Ordered delayStall ∧ (s.clock delayStall lowpower i).dlyCyc ∧
      (s.clock delayStall lowpower i).shows = response i.dlyAck i.dlyErr i.dlyData ∧
      s.passes i ++ (s.clock delayStall lowpower i).held = s.held ++ s.accepts delayStall i := by
  obtain ⟨reset, wbCyc⟩ : i.reset = false ∧ i.wbCyc = true := by simpa [Inputs.ends] using goes
  obtain ⟨skid, strobe, -, absent⟩ := ordered
  have acked : (s.dlyCyc && i.dlyAck) = i.dlyAck := by
    cases ack : i.dlyAck with
    | false => simp
    | true => simp [answers ack]
  cases delayStall with
  | true =>
    refine ⟨⟨?_, ?_, ?_, by simp⟩, ?_, ?_, ?_⟩
    · simp only [clock, skidbuffer, wbStall]
      grind
    · simp [clock, skidbuffer, reset, wbCyc, noError, noErr]
    · simp [clock, skidbuffer, reset, wbCyc, noErr]
    · simp [clock, skidbuffer, reset, wbCyc, noError, noErr]
    · simp [clock, skidbuffer, shows, response, reset, wbCyc, noError, noErr]
      grind
    · -- the request goes past the skid buffer, into it, or out of it
      cases stb : s.dlyStb <;> cases r : s.rStb <;> cases stall : i.dlyStall <;> cases new : i.wbStb <;>
        simp_all [clock, skidbuffer, passes, held, accepts, wbStall]
  | false =>
    have empty := absent rfl
    refine ⟨⟨?_, ?_, ?_, ?_⟩, ?_, ?_, ?_⟩
    · simp [clock, unregistered, empty]
    · simp [clock, unregistered, reset, wbCyc, noError, noErr]
    · simp [clock, unregistered, reset, noError, noErr]
    · intro _
      simp [clock, unregistered, empty]
    · simp [clock, unregistered, reset, wbCyc, noError, noErr]
    · simp [clock, unregistered, shows, response, reset, wbCyc, noError, noErr]
      grind
    · cases stb : s.dlyStb <;> cases stall : i.dlyStall <;> cases new : i.wbStb <;>
        simp_all [clock, unregistered, passes, held, accepts, wbStall]

end Delay

/-! ### Runs -/

/-- An error comes last, and only one does. -/
theorem response_dropLast {ack err : Bool} {data : BitVec dw} {said : List (Response dw)}
    (clean : none ∉ said) : none ∉ (said ++ response ack err data).dropLast := by
  cases err with
  | true => simpa [response] using clean
  | false =>
    cases ack with
    | true => simpa [response] using clean
    | false =>
      intro member
      exact clean (List.mem_of_mem_dropLast (by simpa [response] using member))

theorem response_length {ack err : Bool} {data : BitVec dw} : (response ack err data).length = (ack || err).toNat := by
  cases ack <;> cases err <;> rfl

namespace Bench

/-- What holds between two clocks. -/
structure Sound (delayStall : Bool) (x : Bench aw dw) : Prop where
  ordered : x.core.Ordered delayStall
  inOrder : x.down <+: x.up
  whole : none ∉ x.said → x.up = x.down ++ x.core.held
  answered : x.heard ++ x.core.shows = x.said
  due : x.said.length ≤ x.down.length
  once : none ∉ x.said.dropLast
  ended : none ∈ x.said → x.core.dlyCyc = false

theorem sound_powerUp (delayStall : Bool) : (powerUp : Bench aw dw).Sound delayStall where
  ordered := ⟨by simp [powerUp, Delay.powerUp], by simp [powerUp, Delay.powerUp],
    by simp [powerUp, Delay.powerUp], by simp [powerUp, Delay.powerUp]⟩
  inOrder := List.prefix_refl []
  whole _ := rfl
  answered := rfl
  due := Nat.le_refl 0
  once := by simp [powerUp]
  ended _ := rfl

section
variable {delayStall : Bool} (lowpower : Bool) {x : Bench aw dw} {i : Inputs aw dw}

/-- An error in the record has been heard, or it is on the lines. -/
theorem Sound.failed (sound : x.Sound delayStall) (failed : none ∈ x.said) :
    none ∈ x.heard ∨ x.core.wbErr := by
  rw [← sound.answered, List.mem_append] at failed
  refine failed.imp_right fun shown => ?_
  cases error : x.core.wbErr with
  | true => rfl
  | false => cases ack : x.core.wbAck <;> simp [Delay.shows, response, error, ack] at shown

theorem Sound.clean (sound : x.Sound delayStall) (clean : none ∉ x.said) : x.core.wbErr = false := by
  cases error : x.core.wbErr with
  | false => rfl
  | true =>
    refine (clean ?_).elim
    rw [← sound.answered]
    simp [Delay.shows, response, error]

theorem Sound.now (sound : x.Sound delayStall) : x.Transparent delayStall i where
  inOrder := by
    by_cases failed : none ∈ x.said
    · rw [passed, accepted, (sound.ordered.quiet (sound.ended failed)).passes, List.append_nil]
      exact sound.inOrder.trans (List.prefix_append ..)
    · rw [passed, accepted, sound.whole failed, List.append_assoc, List.prefix_append_right_inj]
      refine List.IsPrefix.trans ?_ (List.prefix_append ..)
      simp only [Delay.passes, Delay.held]
      cases stb : x.core.dlyStb with
      | false => simp
      | true =>
        simp only [if_true]
        split_ifs <;> simp
  whole := sound.whole
  offered some := by
    have stb : x.core.dlyStb = true := by
      by_contra low
      have skid : x.core.rStb = false := Bool.eq_false_iff.mpr fun skid => low (sound.ordered.skid skid)
      exact some (by simp [Delay.held, low, skid])
    exact ⟨sound.ordered.strobe stb, stb⟩
  answered := sound.answered
  due := sound.due
  once := sound.once
  ended failed := ⟨sound.ended failed, (sound.ordered.quiet (sound.ended failed)).stb⟩

/-- The cycle is over, and nothing is left of it. -/
theorem Sound.step_ends (sound : x.Sound delayStall) (ends : i.ends) :
    (x.step delayStall lowpower i).Sound delayStall := by
  obtain ⟨quiet, shows⟩ := Delay.clock_ends lowpower sound.ordered ends
  constructor <;> simp only [step, ends, if_true]
  · exact quiet.ordered delayStall
  · exact List.prefix_refl []
  · simp [quiet.held]
  · simp [shows]
  · exact Nat.le_refl 0
  · simp
  · simp

/-- The cycle goes on behind an error. -/
theorem Sound.step_failed (sound : x.Sound delayStall) (obeys : x.Obeys i) (goes : i.ends = false)
    (failed : none ∈ x.said) : (x.step delayStall lowpower i).Sound delayStall := by
  have quiet := sound.ordered.quiet (sound.ended failed)
  have error : x.core.wbErr = true := by
    refine (sound.failed failed).resolve_left fun heard => ?_
    rw [obeys.drops heard] at goes
    contradiction
  have silent : response i.dlyAck i.dlyErr i.dlyData = [] := by
    rw [← List.length_eq_zero_iff, response_length]
    cases answers : i.dlyAck || i.dlyErr with
    | false => rfl
    | true =>
      have cyc := (obeys.answers answers).1
      rw [quiet.cyc] at cyc
      contradiction
  obtain ⟨after, shows⟩ := Delay.clock_failed lowpower quiet goes error
  constructor <;> simp only [step, goes, if_false, Bool.false_eq_true, silent, List.append_nil]
  · exact after.ordered delayStall
  · rw [passed, quiet.passes, List.append_nil]
    exact sound.inOrder.trans (List.prefix_append ..)
  · exact fun clean => absurd failed clean
  · rw [shows, List.append_nil]
    exact sound.answered
  · rw [passed, quiet.passes, List.append_nil]
    exact sound.due
  · exact sound.once
  · exact fun _ => after.cyc

/-- The cycle goes on, and no error has been reported yet. -/
theorem Sound.step_goes (sound : x.Sound delayStall) (obeys : x.Obeys i) (goes : i.ends = false)
    (clean : none ∉ x.said) : (x.step delayStall lowpower i).Sound delayStall := by
  have due : (x.said ++ response i.dlyAck i.dlyErr i.dlyData).length ≤ (x.passed i).length := by
    rw [List.length_append, response_length]
    cases answers : i.dlyAck || i.dlyErr with
    | true => exact (obeys.answers answers).2
    | false =>
      rw [passed, List.length_append]
      exact Nat.le_add_right_of_le sound.due
  have inOrder : x.passed i <+: x.accepted delayStall i := sound.now.inOrder
  cases err : i.dlyErr with
  | true =>
    have cyc := (obeys.answers (by simp [err])).1
    obtain ⟨quiet, shows⟩ := Delay.clock_errs lowpower sound.ordered goes cyc err
    have said : response i.dlyAck i.dlyErr i.dlyData = [none] := by simp [response, err]
    constructor <;> simp only [step, goes, if_false, Bool.false_eq_true]
    · exact quiet.ordered delayStall
    · exact inOrder
    · simp [said]
    · rw [shows, said, sound.answered]
    · exact due
    · exact response_dropLast clean
    · exact fun _ => quiet.cyc
  | false =>
    obtain ⟨ordered, cyc, shows, law⟩ := Delay.clock_goes lowpower sound.ordered goes (sound.clean clean) err
      fun ack => (obeys.answers (by simp [ack])).1
    constructor <;> simp only [step, goes, if_false, Bool.false_eq_true]
    · exact ordered
    · exact inOrder
    · intro _
      rw [passed, accepted, sound.whole clean, List.append_assoc, List.append_assoc, law]
    · rw [shows, sound.answered]
    · exact due
    · exact response_dropLast clean
    · intro failed
      cases ack : i.dlyAck <;> simp [response, err, ack, clean] at failed

theorem Sound.step (sound : x.Sound delayStall) (obeys : x.Obeys i) :
    (x.step delayStall lowpower i).Sound delayStall := by
  cases ends : i.ends with
  | true => exact sound.step_ends lowpower ends
  | false =>
    by_cases failed : none ∈ x.said
    · exact sound.step_failed lowpower obeys ends failed
    · exact sound.step_goes lowpower obeys ends failed

end

/-- Every clock of every run, for both settings of both options. -/
theorem transparent (delayStall lowpower : Bool) (is : List (Inputs aw dw))
    (obeys : Clocked.Always (step delayStall lowpower) Obeys powerUp is) :
    Clocked.Always (step delayStall lowpower) (Transparent delayStall) powerUp is := by
  have always := obeys.with_invariant (fun _ _ sound obeys => sound.step lowpower obeys) (sound_powerUp delayStall)
  exact always.mono fun _ _ clock => clock.1.now

instance (x : Bench aw dw) (i : Inputs aw dw) : Decidable (x.Obeys i) :=
  decidable_of_iff
    ((none ∈ x.heard → i.ends) ∧ (i.dlyAck || i.dlyErr → x.core.dlyCyc ∧ x.said.length < (x.passed i).length))
    ⟨fun obeys => ⟨obeys.1, obeys.2⟩, fun obeys => ⟨obeys.drops, obeys.answers⟩⟩

/-- Three writes against a stalled slave that takes two of them and fails the second, the cycle
dropped behind the error, and a read. -/
def failing : List (Inputs 8 8) :=
  let ask (cyc : Bool) (n : Nat) : Inputs 8 8 :=
    ⟨false, cyc, n != 0, ⟨n != 9, BitVec.ofNat 8 n, BitVec.ofNat 8 (n + 1), 1⟩, true, false, 0, false⟩
  [ask true 1, ask true 2, { ask true 3 with dlyStall := false },
    { ask true 3 with dlyStall := false, dlyAck := true, dlyData := 7 }, { ask true 3 with dlyErr := true },
    ask true 0, ask false 0, ask true 9, { ask true 0 with dlyStall := false, dlyAck := true, dlyData := 5 },
    ask true 0]

theorem transparent_failing :
    Clocked.Always (step true false) Obeys powerUp failing ∧
      Clocked.Always (step true false) (Transparent true) powerUp failing := by
  have obeys : Clocked.Always (step true false) Obeys powerUp failing := by decide +kernel
  exact ⟨obeys, transparent true false failing obeys⟩

end Bench

end IcoZip.Busdelay
