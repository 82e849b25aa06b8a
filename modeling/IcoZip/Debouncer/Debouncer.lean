import IcoZip.Library.Clocked
import Mathlib.Data.BitVec

/-! The button debouncer `debouncer`.

The inputs go through two synchronizing registers and a third one that is a clock
behind. A timer runs after each change of the output, and holds it.
-/

set_option autoImplicit false

namespace IcoZip

/-- The registers, for `NIN` inputs and a timer of `LGWAIT` bits. -/
structure Debouncer (nin lgwait : Nat) where
  different : Bool
  ztimer : Bool
  rIn : BitVec nin
  qIn : BitVec nin
  rLast : BitVec nin
  timer : BitVec lgwait
  /-- `o_debounced` -/
  debounced : BitVec nin
  trigger : Bool
  deriving DecidableEq, Repr

namespace Debouncer
variable {nin lgwait : Nat}

def powerUp (nin lgwait : Nat) : Debouncer nin lgwait where
  different := false
  ztimer := true
  rIn := 0#(nin)
  qIn := 0#(nin)
  rLast := 0#(nin)
  timer := 0#(lgwait)
  debounced := 0#(nin)
  trigger := false

section
variable (s : Debouncer nin lgwait) (i : BitVec nin)

/-- One clock. -/
def clock : Debouncer nin lgwait where
  qIn := i
  rIn := s.qIn
  rLast := s.rIn
  -- a timer that has expired starts again in the same clock, if something differs
  timer :=
    if s.ztimer && s.different then BitVec.allOnes lgwait
    else if !s.ztimer then s.timer - 1#(lgwait)
    else 0#(lgwait)
  ztimer :=
    if s.ztimer && s.different then false
    else if !s.ztimer then s.timer.extractLsb' 1 (lgwait - 1) == 0#(lgwait - 1)
    else true
  -- kept until the timer has expired
  different := s.different && !s.ztimer || s.rIn != s.debounced
  debounced := if s.ztimer then s.rLast else s.debounced
  trigger :=
    !s.ztimer && !s.different && i == 0#(nin) && s.timer.extractLsb' 2 (lgwait - 2) == 0#(lgwait - 2) &&
      s.timer.getLsbD 1

/-- `o_debug`; inputs beyond the fourteenth are not shown. -/
def debug : BitVec 31 :=
  BitVec.ofBool s.ztimer ++ BitVec.ofBool s.trigger ++ 0#1 ++ s.debounced.setWidth 14 ++ s.rIn.setWidth 14

end

/-- The registers at each clock. -/
def state (lgwait : Nat) (wave : Nat → BitVec nin) (t : Nat) : Debouncer nin lgwait :=
  Clocked.trace clock (powerUp nin lgwait) wave t

/-- The output changes at the end of this clock. -/
def Changes (lgwait : Nat) (wave : Nat → BitVec nin) (t : Nat) : Prop :=
  (state lgwait wave (t + 1)).debounced ≠ (state lgwait wave t).debounced

/-- What is expected of the output; `idle` says which states have an idle timer. -/
structure Debounces (lgwait : Nat) (idle : Debouncer nin lgwait → Prop) (wave : Nat → BitVec nin) : Prop where
  apart : ∀ t u, t < u → Changes lgwait wave t → Changes lgwait wave u → 2 ^ lgwait - 1 ≤ u - t
  earlier : ∀ t, Changes lgwait wave t → ∃ u ≤ t, (state lgwait wave (t + 1)).debounced = wave u
  prompt : ∀ t, idle (state lgwait wave t) → (∀ u < t, t ≤ u + 4 → wave u = (state lgwait wave u).debounced) →
    wave t ≠ (state lgwait wave t).debounced →
      ∃ u, t < u ∧ u ≤ t + 6 ∧ (state lgwait wave u).debounced = wave t
  settles : ∀ c t, c + (2 ^ (lgwait + 1) + 8) ≤ t → (∀ u, c ≤ u → u < t → wave u = wave c) →
    (state lgwait wave t).debounced = wave c

/-- The timer does not count. -/
def Stopped (s : Debouncer nin lgwait) : Prop := s.ztimer = true ∧ s.timer = 0#(lgwait)

/-- The timer does not count, and nothing has asked for it. -/
def Idle (s : Debouncer nin lgwait) : Prop := s.ztimer = true ∧ s.different = false

/-! ### One clock -/

/-- The flag says that the timer is zero, and a value that differs from the output starts it. -/
structure Regular (s : Debouncer nin lgwait) : Prop where
  zero : s.ztimer = decide (s.timer.toNat = 0)
  pending : s.ztimer = true → s.rLast ≠ s.debounced → s.different = true

theorem Regular.stopped {s : Debouncer nin lgwait} (regular : Regular s) (stopped : s.ztimer = true) :
    s.timer.toNat = 0 :=
  of_decide_eq_true (regular.zero.symm.trans stopped)

theorem Regular.counts {s : Debouncer nin lgwait} (regular : Regular s) (running : s.ztimer = false) :
    s.timer.toNat ≠ 0 :=
  of_decide_eq_false (regular.zero.symm.trans running)

theorem regular_powerUp : Regular (powerUp nin lgwait) where
  zero := by simp [powerUp]
  pending _ differs := absurd rfl differs

/-- The bits above the lowest say whether the timer is at its last count. -/
theorem upper_zero {timer : BitVec lgwait} (counts : timer.toNat ≠ 0) :
    (timer.extractLsb' 1 (lgwait - 1) == 0#(lgwait - 1)) = decide (timer.toNat = 1) := by
  have bound := timer.isLt
  have wide : 2 ^ lgwait = 2 * 2 ^ (lgwait - 1) := by
    cases lgwait with
    | zero => omega
    | succ n => rw [Nat.pow_succ', Nat.add_sub_cancel]
  rw [Bool.eq_iff_iff, beq_iff_eq, decide_eq_true_iff, ← BitVec.toNat_inj, BitVec.extractLsb'_toNat,
    Nat.shiftRight_eq_div_pow, Nat.mod_eq_of_lt (by omega), BitVec.toNat_ofNat, Nat.zero_mod]
  omega

section
variable {s : Debouncer nin lgwait} {i : BitVec nin}

/-- The output follows where no timer holds it. -/
theorem clock_follows (stopped : s.ztimer = true) : (s.clock i).debounced = s.rLast := by
  simp [clock, stopped]

/-- A stopped timer without a difference. -/
theorem clock_idle (stopped : s.ztimer = true) (same : s.different = false) :
    (s.clock i).ztimer = true ∧ (s.clock i).timer.toNat = 0 ∧
      (s.clock i).different = (s.rIn != s.debounced) := by
  simp [clock, stopped, same]

/-- A stopped timer with one. -/
theorem clock_start (stopped : s.ztimer = true) (differs : s.different = true) :
    (s.clock i).ztimer = false ∧ (s.clock i).timer.toNat = 2 ^ lgwait - 1 := by
  simp [clock, stopped, differs]

/-- A timer that counts. -/
theorem clock_count (regular : Regular s) (counts : s.timer.toNat ≠ 0) :
    (s.clock i).ztimer = decide (s.timer.toNat = 1) ∧ (s.clock i).timer.toNat = s.timer.toNat - 1 ∧
      (s.clock i).debounced = s.debounced := by
  have running : s.ztimer = false := by rw [regular.zero, decide_eq_false counts]
  have bound := s.timer.isLt
  have one : (1#(lgwait)).toNat = 1 := by
    rw [BitVec.toNat_ofNat, Nat.mod_eq_of_lt (by omega)]
  refine ⟨?_, ?_, ?_⟩
  · simp only [clock, running, Bool.false_and, Bool.not_false, if_true, Bool.false_eq_true, if_false]
    exact upper_zero counts
  · simp only [clock, running, Bool.false_and, Bool.not_false, if_true, Bool.false_eq_true, if_false]
    rw [BitVec.toNat_sub_of_le (by rw [BitVec.le_def, one]; omega), one]
  · simp [clock, running]

theorem Regular.clock (regular : Regular s) (wide : lgwait ≠ 0) (i : BitVec nin) : Regular (s.clock i) := by
  -- in each case the output is what it was, or the timer starts and nothing need be pending
  cases stopped : s.ztimer with
  | false =>
    have counts : s.timer.toNat ≠ 0 := regular.counts stopped
    obtain ⟨flag, next, output⟩ := @clock_count nin lgwait s i regular counts
    refine ⟨?_, fun _ differs => ?_⟩
    · rw [flag, next, decide_eq_decide]
      omega
    · rw [output] at differs
      simpa [Debouncer.clock, stopped] using Or.inr differs
  | true =>
    cases different : s.different with
    | false =>
      obtain ⟨flag, next, follows⟩ := @clock_idle nin lgwait s i stopped different
      have same : s.rLast = s.debounced := by
        by_contra differs
        rw [regular.pending stopped differs] at different
        contradiction
      refine ⟨by rw [flag, next]; rfl, fun _ differs => ?_⟩
      rw [clock_follows stopped, same] at differs
      rw [follows]
      exact bne_iff_ne.mpr differs
    | true =>
      obtain ⟨flag, next⟩ := @clock_start nin lgwait s i stopped different
      have large := Nat.pow_le_pow_right (by decide : 0 < 2) (Nat.one_le_iff_ne_zero.mpr wide)
      refine ⟨?_, fun stopped' => ?_⟩
      · rw [flag, next, eq_comm, decide_eq_false_iff_not]
        omega
      · rw [flag] at stopped'
        contradiction

end

/-! ### Every clock -/

section
variable {wave : Nat → BitVec nin}

theorem state_succ (t : Nat) : state lgwait wave (t + 1) = (state lgwait wave t).clock (wave t) :=
  Clocked.trace_succ wave t

theorem state_regular (wide : lgwait ≠ 0) (t : Nat) : Regular (state lgwait wave t) :=
  Clocked.trace_invariant wave (fun _ i regular => regular.clock wide i) regular_powerUp t

/-- While the timer counts down, the output is held. -/
theorem held (wide : lgwait ≠ 0) {t k : Nat} (within : k ≤ (state lgwait wave t).timer.toNat) :
    (state lgwait wave (t + k)).timer.toNat = (state lgwait wave t).timer.toNat - k ∧
      (state lgwait wave (t + k)).debounced = (state lgwait wave t).debounced := by
  induction k with
  | zero => exact ⟨rfl, rfl⟩
  | succ k ih =>
    obtain ⟨count, output⟩ := ih (by omega)
    obtain ⟨-, next, same⟩ :=
      @clock_count nin lgwait _ (wave (t + k)) (state_regular wide (t + k)) (by rw [count]; omega)
    rw [← Nat.add_assoc, state_succ, next, same, count, output]
    exact ⟨by omega, rfl⟩

/-- The output changes only by starting the timer. -/
theorem Changes.start (wide : lgwait ≠ 0) {t : Nat} (changes : Changes lgwait wave t) :
    (state lgwait wave t).rLast ≠ (state lgwait wave t).debounced ∧
      (state lgwait wave (t + 1)).debounced = (state lgwait wave t).rLast ∧
      (state lgwait wave (t + 1)).timer.toNat = 2 ^ lgwait - 1 := by
  have regular := @state_regular nin lgwait wave wide t
  unfold Changes at changes
  rw [state_succ] at changes ⊢
  cases stopped : (state lgwait wave t).ztimer with
  | false =>
    exact absurd (clock_count regular (regular.counts stopped)).2.2 changes
  | true =>
    rw [clock_follows stopped] at changes
    exact ⟨changes, clock_follows stopped, (clock_start stopped (regular.pending stopped changes)).2⟩

/-- After a change the timer counts for its whole length. -/
theorem Changes.counts (wide : lgwait ≠ 0) {t u : Nat} (changes : Changes lgwait wave t) (after : t < u)
    (before : u < t + 2 ^ lgwait) : (state lgwait wave u).timer.toNat ≠ 0 := by
  obtain ⟨-, -, start⟩ := changes.start wide
  obtain ⟨k, rfl⟩ := Nat.exists_eq_add_of_le after
  rw [(held wide (by rw [start]; omega)).1, start]
  omega

theorem Changes.stopped (wide : lgwait ≠ 0) {t : Nat} (changes : Changes lgwait wave t) :
    (state lgwait wave t).timer.toNat = 0 := by
  have regular := @state_regular nin lgwait wave wide t
  by_contra counts
  exact changes (clock_count regular counts).2.2

/-- Two changes are a whole count of the timer apart. -/
theorem changes_apart (wide : lgwait ≠ 0) {t u : Nat} (later : t < u) (first : Changes lgwait wave t)
    (second : Changes lgwait wave u) : t + 2 ^ lgwait ≤ u := by
  by_contra early
  exact first.counts wide later (by omega) (second.stopped wide)

/-- The last of the three registers has the input of three clocks ago. -/
theorem rLast_input (t : Nat) : (state lgwait wave (t + 3)).rLast = wave t := rfl

/-- The registers are zero until the inputs have come through. -/
theorem nothing_yet {t : Nat} (early : t < 3) : (state lgwait wave t).rLast = (state lgwait wave t).debounced := by
  obtain rfl | rfl | rfl : t = 0 ∨ t = 1 ∨ t = 2 := by omega
  all_goals rfl

theorem changes_earlier (wide : lgwait ≠ 0) {t : Nat} (changes : Changes lgwait wave t) :
    3 ≤ t ∧ (state lgwait wave (t + 1)).debounced = wave (t - 3) := by
  obtain ⟨differs, output, -⟩ := changes.start wide
  have late : 3 ≤ t := by
    by_contra early
    exact differs (nothing_yet (by omega))
  obtain ⟨u, rfl⟩ := Nat.exists_eq_add_of_le' late
  exact ⟨late, by rw [output, rLast_input, Nat.add_sub_cancel]⟩

/-- Where the timer is idle, the output has not changed for as long as it would have counted. -/
theorem Idle.unchanged (wide : lgwait ≠ 0) {t : Nat} (idle : Idle (state lgwait wave t)) :
    ∀ k ≤ t, k < 2 ^ lgwait → (state lgwait wave (t - k)).debounced = (state lgwait wave t).debounced := by
  intro k
  induction k with
  | zero => exact fun _ _ => rfl
  | succ k ih =>
    intro since short
    have later := ih (by omega) (by omega)
    by_contra changed
    -- that change would still have the timer count
    have changes : Changes lgwait wave (t - (k + 1)) := by
      rw [Changes, show t - (k + 1) + 1 = t - k by omega, later]
      exact Ne.symm changed
    exact changes.counts wide (by omega) (by omega) ((state_regular wide t).stopped idle.1)

/-- An idle timer lets the input through, in four clocks. -/
theorem Idle.passes {t : Nat} (regular : Regular (state lgwait wave t)) (idle : Idle (state lgwait wave t))
    (qIn : (state lgwait wave t).qIn = (state lgwait wave t).debounced)
    (rIn : (state lgwait wave t).rIn = (state lgwait wave t).debounced) :
    (state lgwait wave (t + 4)).debounced = wave t := by
  -- nothing in the registers differs, so the timer is not started before the input has come to the last of them
  have rLast : (state lgwait wave t).rLast = (state lgwait wave t).debounced := by
    by_contra other
    have asked := regular.pending idle.1 other
    rw [idle.2] at asked
    contradiction
  obtain ⟨stopped₁, -, differs₁⟩ := @clock_idle nin lgwait _ (wave t) idle.1 idle.2
  rw [rIn, bne_self_eq_false] at differs₁
  obtain ⟨stopped₂, -, differs₂⟩ := @clock_idle nin lgwait _ (wave (t + 1)) stopped₁ differs₁
  have second : ((state lgwait wave t).clock (wave t)).rIn = (state lgwait wave t).debounced := qIn
  rw [clock_follows idle.1, rLast, second, bne_self_eq_false] at differs₂
  obtain ⟨stopped₃, -⟩ := @clock_idle nin lgwait _ (wave (t + 2)) stopped₂ differs₂
  exact @clock_follows nin lgwait _ (wave (t + 3)) stopped₃

theorem passes_quiet (wide : 2 ≤ lgwait) {t : Nat} (idle : Idle (state lgwait wave t))
    (quiet : ∀ u < t, t ≤ u + 4 → wave u = (state lgwait wave u).debounced) :
    (state lgwait wave (t + 4)).debounced = wave t := by
  have wide' : lgwait ≠ 0 := by omega
  have long : 4 ≤ 2 ^ lgwait := Nat.pow_le_pow_right (by decide : 0 < 2) wide
  have unchanged := @Idle.unchanged nin lgwait wave wide' t idle
  refine idle.passes (state_regular wide' t) ?_ ?_
  · cases t with
    | zero => rfl
    | succ t => exact (quiet t (by omega) (by omega)).trans (unchanged 1 (by omega) (by omega))
  · match t with
    | 0 => rfl
    | 1 => exact unchanged 1 (by decide) (by omega)
    | t + 2 => exact (quiet t (by omega) (by omega)).trans (unchanged 2 (by omega) (by omega))

/-- What the output has taken from constant inputs stays. -/
theorem stays {c t : Nat} (constant : ∀ u, c ≤ u → u < t → wave u = wave c) {u : Nat} (through : c + 3 ≤ u)
    (taken : (state lgwait wave u).debounced = wave c) {k : Nat} (within : u + k ≤ t) :
    (state lgwait wave (u + k)).debounced = wave c := by
  induction k with
  | zero => exact taken
  | succ k ih =>
    have before := ih (by omega)
    obtain ⟨v, same⟩ := Nat.exists_eq_add_of_le' (show 3 ≤ u + k by omega)
    have last : (state lgwait wave (u + k)).rLast = wave c := by
      rw [same, rLast_input]
      exact constant v (by omega) (by omega)
    rw [← Nat.add_assoc, state_succ]
    cases stopped : (state lgwait wave (u + k)).ztimer with
    | false => simpa [clock, stopped] using before
    | true => rw [clock_follows stopped, last]

/-- The timer expires, and the output is what the inputs have been since before. -/
theorem settled (wide : lgwait ≠ 0) {c t : Nat} (long : c + 3 + 2 ^ lgwait ≤ t)
    (constant : ∀ u, c ≤ u → u < t → wave u = wave c) : (state lgwait wave t).debounced = wave c := by
  generalize count : (state lgwait wave (c + 3)).timer.toNat = n
  have short : n < 2 ^ lgwait := count ▸ (state lgwait wave (c + 3)).timer.isLt
  obtain ⟨expired, -⟩ := @held nin lgwait wave wide (c + 3) n (by rw [count])
  have stopped : (state lgwait wave (c + 3 + n)).ztimer = true := by
    rw [(state_regular wide _).zero, expired, count, Nat.sub_self]
    rfl
  have taken : (state lgwait wave (c + 3 + n + 1)).debounced = wave c := by
    rw [state_succ, clock_follows stopped, show c + 3 + n = c + n + 3 by omega, rLast_input]
    exact constant (c + n) (by omega) (by omega)
  obtain ⟨k, rfl⟩ := Nat.exists_eq_add_of_le (show c + 3 + n + 1 ≤ t by omega)
  exact stays constant (by omega) taken le_rfl

end

/-! ### Every waveform -/

/-- The debouncer holds its output while the timer counts, and follows the inputs else. -/
theorem debounces (nin lgwait : Nat) (wide : 2 ≤ lgwait) (wave : Nat → BitVec nin) :
    Debounces lgwait Idle wave := by
  have wide' : lgwait ≠ 0 := by omega
  constructor
  · intro t u later first second
    have apart := changes_apart wide' later first second
    omega
  · intro t changes
    obtain ⟨late, output⟩ := changes_earlier wide' changes
    exact ⟨t - 3, by omega, output⟩
  · intro t idle quiet _
    exact ⟨t + 4, by omega, by omega, passes_quiet wide idle quiet⟩
  · intro c t long constant
    have double := Nat.pow_succ 2 lgwait
    exact settled wide' (by omega) constant

/-- One button that bounces while the timer counts, and is let go when the timer is zero again. -/
def bounce (t : Nat) : BitVec 1 := if t < 11 ∧ t ≠ 1 ∧ t ≠ 5 then 1 else 0

theorem debounces_bounce : Debounces 3 Idle bounce := debounces 1 3 (by decide) bounce

/-- The bounce has the timer started again, in the clock in which it does not count. -/
theorem restarted_late : ¬ ∀ (nin lgwait : Nat), 2 ≤ lgwait → ∀ wave : Nat → BitVec nin,
    Debounces lgwait Stopped wave := by
  intro all
  have late : ∀ u ≤ 17, 11 < u → (state 3 bounce u).debounced ≠ bounce 11 := by decide
  have stopped : (state 3 bounce 11).ztimer = true ∧ (state 3 bounce 11).timer = 0#(3) := by decide
  obtain ⟨u, after, within, same⟩ := (all 1 3 (by decide) bounce).prompt 11 stopped (by decide) (by decide)
  exact late u within after same

end Debouncer

end IcoZip
