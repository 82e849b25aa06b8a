import IcoZip.Library.Counter
import IcoZip.Library.Serial

/-! The timer `ziptimer`, with values of `w` bits (`VW`).

What it does is known from the value that was written last and the clocks with `i_ce` since then.
A timer that reloads has a period of one more than its value.
-/

set_option autoImplicit false

namespace IcoZip.Interrupts

structure Ziptimer (w : Nat) where
  running : Bool
  zero : Bool
  value : BitVec w
  autoReload : Bool
  intervalCount : BitVec w
  int : Bool
  wbAck : Bool
  deriving DecidableEq, Repr

namespace Ziptimer

structure Inputs where
  reset : Bool
  ce : Bool
  wbStb : Bool
  wbWe : Bool
  wbData : BitVec 32
  deriving DecidableEq, Repr

def Inputs.wbWrite (i : Inputs) : Bool := i.wbStb && i.wbWe

variable {w : Nat}

/-- The register with the interval has no value yet. -/
def powerUp (interval : BitVec w) : Ziptimer w where
  running := false
  zero := true
  value := 0
  autoReload := false
  intervalCount := interval
  int := false
  wbAck := false

/-- `i_wb_data[(VW-1):0]` -/
def loaded (w : Nat) (i : Inputs) : BitVec w := i.wbData.extractLsb' 0 w

section
variable (reloadable : Bool) (s : Ziptimer w) (i : Inputs)

def clock : Ziptimer w where
  running :=
    if i.reset then false
    else if i.wbWrite then loaded w i != 0#w
    -- A timer that does not reload stops at zero, also without i_ce.
    else if s.zero && !s.autoReload then false
    else s.running
  autoReload :=
    if !reloadable || i.reset then false
    else if i.wbWrite then i.wbData.getLsbD 31 && loaded w i != 0#w
    else s.autoReload
  intervalCount :=
    if !reloadable || i.reset then 0
    else if i.wbWrite then loaded w i
    else s.intervalCount
  value :=
    if i.reset then 0
    else if i.wbWrite then loaded w i
    else if i.ce && s.running then
      if !s.zero then s.value - 1#w
      else if s.autoReload then s.intervalCount
      else s.value
    else s.value
  zero :=
    if i.reset then true
    else if i.wbWrite then loaded w i == 0#w
    else if s.running && i.ce then
      if s.value == 1#w then true
      else if s.zero && s.autoReload then false
      else s.zero
    else s.zero
  -- The interrupt is high for one clock, the first one that shows zero.
  int := if i.reset || i.wbWrite || !i.ce then false else s.value == 1#w
  wbAck := !i.reset && i.wbStb

/-- `o_wb_data` -/
def wbData : BitVec 32 := BitVec.ofBool s.autoReload ++ s.value.setWidth 31

end

/-! ### What has been asked for -/

/-- A value that was written, whether it is to be loaded again, and the clocks that have been counted since. -/
structure Setting where
  value : Nat
  reload : Bool
  since : Nat
  deriving DecidableEq, Repr

def Setting.off : Setting := ⟨0, false, 0⟩

namespace Setting

/-- The clocks that are left. -/
def left (c : Setting) : Nat := c.value - if c.reload then c.since % (c.value + 1) else c.since

/-- The last clock has been the one that was asked for. -/
def rings (c : Setting) : Bool :=
  decide (0 < c.value ∧ (if c.reload then c.since % (c.value + 1) else c.since) = c.value)

def tick (c : Setting) : Setting := { c with since := c.since + 1 }

def next (reloadable : Bool) (w : Nat) (c : Setting) (i : Inputs) : Setting :=
  if i.reset then .off
  else if i.wbWrite then ⟨(loaded w i).toNat, reloadable && (i.wbData.getLsbD 31 && loaded w i != 0#w), 0⟩
  else if i.ce then c.tick else c

end Setting

/-- The timer does what has been asked for; `ticks` says whether the last clock was counted. -/
structure Follows (reloadable : Bool) (s : Ziptimer w) (c : Setting) (ticks : Bool) : Prop where
  value : s.value.toNat = c.left
  zero : s.zero = decide (c.left = 0)
  reload : s.autoReload = c.reload
  interval : c.reload = true → reloadable = true ∧ s.intervalCount.toNat = c.value
  positive : c.reload = true → c.value ≠ 0
  running : 0 < c.left ∨ c.reload = true → s.running = true
  int : s.int = (ticks && c.rings)

namespace Setting

variable {c : Setting}

/-- One more clock. -/
theorem tick_left (c : Setting) : c.tick.left =
    if c.left = 0 then if c.reload then c.value else 0 else c.left - 1 := by
  obtain ⟨value, reload, since⟩ := c
  simp only [tick, left]
  cases reload with
  | false =>
    simp only [Bool.false_eq_true, if_false]
    split <;> omega
  | true =>
    simp only [if_true]
    have small : since % (value + 1) < value + 1 := Nat.mod_lt since (Nat.succ_pos value)
    rcases Serial.next_bit (n := value + 1) (Nat.succ_pos value) since with ⟨inside, -, rest⟩ | ⟨full, -, rest⟩
    · rw [rest]
      split <;> omega
    · rw [rest]
      split <;> omega

theorem tick_rings (c : Setting) : c.tick.rings = decide (c.left = 1) := by
  obtain ⟨value, reload, since⟩ := c
  rw [rings, decide_eq_decide]
  simp only [tick, left]
  cases reload with
  | false =>
    simp only [Bool.false_eq_true, if_false]
    omega
  | true =>
    simp only [if_true]
    have small : since % (value + 1) < value + 1 := Nat.mod_lt since (Nat.succ_pos value)
    rcases Serial.next_bit (n := value + 1) (Nat.succ_pos value) since with ⟨inside, -, rest⟩ | ⟨full, -, rest⟩
    · rw [rest]
      omega
    · rw [rest]
      omega

theorem left_fresh (value : Nat) (reload : Bool) : (⟨value, reload, 0⟩ : Setting).left = value := by
  simp [left]

end Setting

section Clock
variable {reloadable : Bool} {s : Ziptimer w} {c : Setting} {ticks : Bool} {i : Inputs}

theorem Follows.restarts (reset : i.reset = true) : Follows reloadable (s.clock reloadable i) .off false where
  value := by simp [clock, reset, Setting.off, Setting.left]
  zero := by simp [clock, reset, Setting.off, Setting.left]
  reload := by simp [clock, reset, Setting.off]
  interval reload := absurd reload (by decide)
  positive reload := absurd reload (by decide)
  running some := absurd some (by decide)
  int := by simp [clock, reset]

theorem Follows.loads (reset : i.reset = false) (write : i.wbWrite = true) :
    Follows reloadable (s.clock reloadable i) (c.next reloadable w i) false := by
  have next : c.next reloadable w i =
      ⟨(loaded w i).toNat, reloadable && (i.wbData.getLsbD 31 && loaded w i != 0#w), 0⟩ := by
    simp [Setting.next, reset, write]
  rw [next]
  constructor
  · rw [Setting.left_fresh]
    simp [clock, reset, write]
  · rw [Setting.left_fresh, ← Counter.beq_zero]
    simp [clock, reset, write]
  · cases reloadable <;> simp [clock, reset, write]
  · intro reload
    simp only [Bool.and_eq_true] at reload
    exact ⟨reload.1, by simp [clock, reset, write, reload.1]⟩
  · intro reload none
    simp only [Bool.and_eq_true, bne_iff_ne] at reload
    exact reload.2.2 (BitVec.eq_of_toNat_eq none)
  · intro some
    have full : (loaded w i != 0#w) = true := by
      rcases some with some | reload
      · rw [Setting.left_fresh] at some
        rw [bne, Counter.beq_zero, decide_eq_false (Nat.ne_of_gt some)]
        rfl
      · simp only [Bool.and_eq_true] at reload
        exact reload.2.2
    simp [clock, reset, write, full]
  · simp [clock, reset, write]

section Counts
variable (follows : Follows reloadable s c ticks) (reset : i.reset = false) (write : i.wbWrite = false)
include follows reset write

theorem Follows.reload_next : (s.clock reloadable i).autoReload = c.reload := by
  cases able : reloadable with
  | true => simp [clock, reset, write, follows.reload]
  | false =>
    have single : c.reload = false := by
      by_contra reload
      have none := (follows.interval (Bool.eq_true_of_not_eq_false reload)).1
      exact absurd (none.symm.trans able) (by decide)
    simp [clock, single]

theorem Follows.interval_next (reload : c.reload = true) :
    reloadable = true ∧ (s.clock reloadable i).intervalCount.toNat = c.value := by
  obtain ⟨able, interval⟩ := follows.interval reload
  exact ⟨able, by simp [clock, able, reset, write, interval]⟩

/-- A timer that still has something to count goes on. -/
theorem Follows.running_next (some : 0 < c.left ∨ c.reload = true) : (s.clock reloadable i).running = true := by
  have runs := follows.running some
  have goes : (s.zero && !s.autoReload) = false := by
    rw [follows.zero, follows.reload]
    rcases some with some | reload
    · rw [decide_eq_false (Nat.ne_of_gt some), Bool.false_and]
    · rw [reload, Bool.not_true, Bool.and_false]
  simp [clock, reset, write, goes, runs]

theorem Follows.running_tick (more : 0 < c.tick.left ∨ c.tick.reload = true) :
    (s.clock reloadable i).running = true := by
  apply follows.running_next reset write
  rcases more with more | reload
  · cases reload : c.reload with
    | true => exact .inr rfl
    | false =>
      -- A timer that has run out and does not reload has nothing left in the next clock either.
      left
      rw [c.tick_left, reload] at more
      by_contra none
      rw [if_pos (Nat.eq_zero_of_not_pos none)] at more
      contradiction
  · exact .inr reload

end Counts

theorem Follows.pauses (follows : Follows reloadable s c ticks) (reset : i.reset = false) (write : i.wbWrite = false)
    (ce : i.ce = false) : Follows reloadable (s.clock reloadable i) (c.next reloadable w i) false := by
  have next : c.next reloadable w i = c := by simp [Setting.next, reset, write, ce]
  rw [next]
  constructor
  · simp [clock, reset, write, ce, follows.value]
  · simp [clock, reset, write, ce, follows.zero]
  · exact follows.reload_next reset write
  · exact follows.interval_next reset write
  · exact follows.positive
  · exact follows.running_next reset write
  · simp [clock, ce]

section Ticks
variable (follows : Follows reloadable s c ticks) (reset : i.reset = false) (write : i.wbWrite = false)
  (ce : i.ce = true)
include follows reset write ce

theorem Follows.value_tick : (s.clock reloadable i).value.toNat = c.tick.left := by
  rw [c.tick_left]
  by_cases none : c.left = 0
  · have zero : s.zero = true := by rw [follows.zero, decide_eq_true none]
    rw [if_pos none]
    cases reload : c.reload with
    | true =>
      -- The clock that shows zero is one of the period: the interval is taken behind it.
      have runs := follows.running (.inr reload)
      have again := follows.reload.trans reload
      simp [clock, reset, write, ce, zero, runs, again, (follows.interval reload).2]
    | false =>
      have single := follows.reload.trans reload
      simp [clock, reset, write, zero, single, follows.value, none]
  · have some : 0 < c.left := Nat.pos_of_ne_zero none
    have zero : s.zero = false := by rw [follows.zero, decide_eq_false none]
    have runs := follows.running (.inl some)
    have less : (s.value - 1#w).toNat = s.value.toNat - 1 := Counter.sub_one_toNat (follows.value ▸ some)
    rw [if_neg none, ← follows.value, ← less]
    simp [clock, reset, write, ce, zero, runs]

theorem Follows.zero_tick (last : (s.value == 1#w) = decide (c.left = 1)) :
    (s.clock reloadable i).zero = decide (c.tick.left = 0) := by
  rw [c.tick_left]
  by_cases none : c.left = 0
  · have before : s.zero = true := by rw [follows.zero, decide_eq_true none]
    have other : (s.value == 1#w) = false := by rw [last, none, decide_eq_false Nat.zero_ne_one]
    rw [if_pos none]
    cases reload : c.reload with
    | true =>
      have runs := follows.running (.inr reload)
      have again := follows.reload.trans reload
      have some : c.value ≠ 0 := follows.positive reload
      simp [clock, reset, write, ce, before, other, runs, again, some]
    | false =>
      have single := follows.reload.trans reload
      simp [clock, reset, write, before, other, single]
  · have some : 0 < c.left := Nat.pos_of_ne_zero none
    have before : s.zero = false := by rw [follows.zero, decide_eq_false none]
    have runs := follows.running (.inl some)
    have ends : (s.clock reloadable i).zero = (s.value == 1#w) := by
      cases one : s.value == 1#w <;> simp [clock, reset, write, ce, before, runs, one]
    rw [if_neg none, ends, last, decide_eq_decide]
    omega

/-- The value can be 1 only where it has a bit. -/
theorem Follows.counts (wide : 1 < 2 ^ w) :
    Follows reloadable (s.clock reloadable i) (c.next reloadable w i) true := by
  have next : c.next reloadable w i = c.tick := by simp [Setting.next, reset, write, ce]
  have last : (s.value == 1#w) = decide (c.left = 1) := by rw [Counter.beq_one wide, follows.value]
  rw [next]
  constructor
  · exact follows.value_tick reset write ce
  · exact follows.zero_tick reset write ce last
  · exact follows.reload_next reset write
  · exact follows.interval_next reset write
  · exact follows.positive
  · exact follows.running_tick reset write
  · rw [Bool.true_and, c.tick_rings, ← last]
    simp [clock, reset, write, ce]

end Ticks

/-- Any clock. -/
theorem Follows.next (wide : 1 < 2 ^ w) (follows : Follows reloadable s c ticks) :
    Follows reloadable (s.clock reloadable i) (c.next reloadable w i) (!i.reset && !i.wbWrite && i.ce) := by
  cases reset : i.reset with
  | true =>
    have next : c.next reloadable w i = .off := by simp [Setting.next, reset]
    rw [next]
    exact restarts reset
  | false =>
    cases write : i.wbWrite with
    | true => exact loads reset write
    | false =>
      cases ce : i.ce with
      | true => exact follows.counts reset write ce wide
      | false => exact follows.pauses reset write ce

theorem follows_powerUp (interval : BitVec w) : Follows reloadable (powerUp interval) .off false where
  value := by simp [powerUp, Setting.off, Setting.left]
  zero := by simp [powerUp, Setting.off, Setting.left]
  reload := rfl
  interval reload := absurd reload (by decide)
  positive reload := absurd reload (by decide)
  running some := absurd some (by decide)
  int := rfl

end Clock

end Ziptimer

end IcoZip.Interrupts
