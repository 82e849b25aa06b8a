import IcoZip.Sdram.Chip

/-! Refreshes.

A refresh is due when `refresh_clk` has run out. From then on nothing is opened
or accessed until it has been given, and it is given within sixteen clocks. It
comes twice, in one clock and the next, as `in_refresh` is up only a clock after
the command is on the pins; then the pins are quiet.
-/

set_option autoImplicit false

namespace IcoZip.Sdram

open Wbsdram

/-! ### The counters -/

/-- The counters run whether maintenance goes on or not. -/
structure Counters (s : Wbsdram) : Prop where
  window : s.inRefreshClk ≠ 0 → s.inRefresh = true
  count : s.inRefresh = true → s.refreshClk.toNat = 619 + s.inRefreshClk.toNat
  bound : s.refreshClk.toNat ≤ 625
  need : s.needRefresh = true → s.refreshClk = 0

theorem Counters.step {s : Wbsdram} (counters : Counters s) (i : Wb) (x : BitVec 16) : Counters (s.step i x) := by
  obtain ⟨window, count, bound, need⟩ := counters
  cases given : s.refreshCmd with
  | true => refine ⟨?_, ?_, ?_, ?_⟩ <;> simp [Wbsdram.step, given]
  | false =>
    have due : (s.step i x).needRefresh = true → (s.step i x).refreshClk = 0 := by
      simp +contextual [Wbsdram.step, given]
    have less : (s.step i x).refreshClk.toNat = s.refreshClk.toNat - 1 := by
      by_cases out : s.refreshClk = 0#10
      · simp [Wbsdram.step, given, out]
      · have next : (s.step i x).refreshClk = s.refreshClk - 1#10 := by simp [Wbsdram.step, given, out]
        rw [next, toNat_pred out]
    by_cases out : s.inRefreshClk = 0#3
    · refine ⟨?_, ?_, by omega, due⟩
      · simp [Wbsdram.step, given, out]
      · simp [Wbsdram.step, given, out]
    · have counting := count (window out)
      have next : (s.step i x).inRefreshClk = s.inRefreshClk - 1#3 := by simp [Wbsdram.step, given, out]
      have inner := toNat_pred out
      have some : s.inRefreshClk.toNat ≠ 0 := fun zero => out (BitVec.eq_of_toNat_eq (by simpa using zero))
      refine ⟨?_, ?_, by omega, due⟩
      · simp [Wbsdram.step, given, out]
      · intro _
        rw [next, inner]
        omega

/-! ### Around a refresh -/

theorem refreshCmd_pins' {s : Wbsdram} {i : Wb} {x : BitVec 16} :
    (s.step i x).refreshCmd = true ↔ s.command i = .refresh := by
  have pins : (s.step i x).pins = s.pins' i (s.command i) := rfl
  rw [refreshCmd, pins]
  cases given : s.command i <;> simp [pins']

/-- While a refresh is on the pins or under way the banks are closed, and a request can only be there
if the second refresh is still to come. -/
structure Refreshing (s : Wbsdram) : Prop extends Counters s where
  closed : s.inRefresh = true ∨ s.refreshCmd = true → s.nxtDmod = false ∧ ∀ b, s.bankActive b = 0
  second : s.refreshCmd = true → s.inRefresh = false → s.needRefresh = true ∨ s.rPending = false

namespace Refreshing

variable {s : Wbsdram} (refreshing : Refreshing s)

include refreshing

/-- Around a refresh nothing is given but a second one, while `in_refresh` is still low. -/
theorem command_around (around : s.inRefresh = true ∨ s.refreshCmd = true) (i : Wb) :
    s.command i = .noop ∨ s.command i = .refresh ∧ s.inRefresh = false := by
  obtain ⟨-, banks⟩ := refreshing.closed around
  have guard := guard_command s i
  have nobody (serving : s.Serving i) : False := by
    rcases around with inside | pins
    · rw [serving.rest] at inside
      exact absurd inside (by decide)
    · rcases refreshing.second pins serving.rest with need | idle
      · rw [serving.calm] at need
        exact absurd need (by decide)
      · rw [serving.pending] at idle
        exact absurd idle (by decide)
  cases given : s.command i with
  | noop => exact .inl rfl
  | refresh =>
    rw [given] at guard
    exact .inr ⟨rfl, guard.2.1⟩
  | prechargeAll =>
    rw [given] at guard
    obtain ⟨-, -, b, opened⟩ := guard
    rw [banks] at opened
    exact absurd opened (by decide)
  | activate bs row => rw [given] at guard; exact (nobody guard.1).elim
  | precharge bs => rw [given] at guard; exact (nobody guard.1).elim
  | read => rw [given] at guard; exact (nobody guard.1.1).elim
  | write => rw [given] at guard; exact (nobody guard.1.1).elim

theorem step (i : Wb) (x : BitVec 16) : Refreshing (s.step i x) := by
  refine ⟨refreshing.toCounters.step i x, ?_, ?_⟩
  · intro around
    have quiet (banks : ∀ b, s.bankActive b = 0) (given : s.command i = .noop ∨ s.command i = .refresh) :
        (s.step i x).nxtDmod = false ∧ ∀ b, (s.step i x).bankActive b = 0 := by
      rcases given with given | given <;>
        exact ⟨by simp [Wbsdram.step, given], fun b => by simp [Wbsdram.step, given, bankActive', banks,
          continued_zero]⟩
    rcases around with inside | pins
    · have before : s.inRefresh = true ∨ s.refreshCmd = true := by
        simp only [Wbsdram.step, Bool.or_eq_true, bne_iff_ne] at inside
        exact inside.imp_left refreshing.window
      refine quiet (refreshing.closed before).2 ?_
      exact (refreshing.command_around before i).imp_right And.left
    · have given := refreshCmd_pins'.mp pins
      have guard := guard_command s i
      rw [given] at guard
      exact quiet guard.2.2 (.inr given)
  · intro pins outside
    have given := refreshCmd_pins'.mp pins
    have guard := guard_command s i
    rw [given] at guard
    simp only [Wbsdram.step, Bool.or_eq_false_iff] at outside
    rcases guard.1.idle with idle | need
    · right
      simp [Wbsdram.step, busCyc, idle]
    · left
      simp [Wbsdram.step, refreshing.need need, outside.2]

end Refreshing

/-- From power-up, as soon as maintenance has ended. -/
theorem refreshing_run (r : Wbsdram) (is : List Inputs)
    (ended : (Clocked.run Powered.step (Powered.powerUp r) is).maintenance.maintenanceMode = false) :
    Refreshing (Clocked.run Powered.step (Powered.powerUp r) is).core := by
  have asleep (s : Wbsdram) (i : Inputs) (m : Maintenance) (g : Unit) (_ : m.maintenanceMode = true) (_ : m.Orderly)
      (_ : Quiet s) (counters : Counters s) : Counters (s.maintain i.1 i.2 m) := by
    obtain ⟨window, count, bound, need⟩ := counters.step i.1 i.2
    exact ⟨window, count, bound, need⟩
  have start (s : Wbsdram) (g : Unit) (quiet : Quiet s) (_ : s.pins.csN = true) (counters : Counters s) :
      Refreshing s :=
    ⟨counters, fun _ => ⟨quiet.nxtDmod, quiet.bankActive⟩, fun _ _ => .inr quiet.rPending⟩
  have first : Counters (Powered.powerUp r).core := by
    refine ⟨?_, ?_, ?_, ?_⟩ <;> simp [Powered.powerUp]
  have inv := @powered_invariant Unit (fun _ _ g => g) (fun s _ => Refreshing s) (fun s _ => Counters s) asleep start
    (fun _ i _ _ _ refreshing => refreshing.step i.1 i.2) r () first is
  have same := Clocked.run_fst Powered.step (fun (_ : Powered) (_ : Inputs) (g : Unit) => g) (Powered.powerUp r) () is
  simp only [Staged, same, ended, Bool.false_eq_true, if_false] at inv
  exact inv.2

/-! ### Spacing -/

theorem order_step_noop {s : Wbsdram} {i : Wb} (given : s.command i = .noop) (x : BitVec 16) :
    (s.step i x).pins.order = .nop := by
  have pins : (s.step i x).pins = s.pins' i (s.command i) := rfl
  rw [pins, given, order_pins']

theorem order_step_refresh {s : Wbsdram} {i : Wb} (given : s.command i = .refresh) (x : BitVec 16) :
    (s.step i x).pins.order = .refresh := by
  have pins : (s.step i x).pins = s.pins' i (s.command i) := rfl
  rw [pins, given, order_pins']

theorem refreshCmd_iff (s : Wbsdram) : s.refreshCmd = true ↔ s.pins.order = .refresh := by
  rw [refreshCmd, Pins.order]
  cases s.pins.csN <;> cases s.pins.rasN <;> cases s.pins.casN <;> cases s.pins.weN <;> simp
  all_goals split_ifs <;> simp

/-- Inside the window of a refresh the pins stay quiet for as long as its counter says, and a clock more. -/
theorem quiet_window {s : Wbsdram} (refreshing : Refreshing s) (inside : s.inRefresh = true) (js : List Inputs)
    (positive : js ≠ []) (short : js.length ≤ s.inRefreshClk.toNat + 1) :
    (Clocked.run (fun s i => s.step i.1 i.2) s js).pins.order = .nop := by
  -- on the clocks of the window, which `in_refresh_clk` counts down
  induction js generalizing s with
  | nil => exact absurd rfl positive
  | cons i js ih =>
    have given : s.command i.1 = .noop := by
      rcases refreshing.command_around (.inl inside) i.1 with given | ⟨-, outside⟩
      · exact given
      · rw [inside] at outside
        exact absurd outside (by decide)
    cases js with
    | nil => exact order_step_noop given i.2
    | cons j js =>
      have some : s.inRefreshClk ≠ 0#3 := by
        intro zero
        simp [zero] at short
      have next : (s.step i.1 i.2).inRefresh = true := by simp [Wbsdram.step, some]
      refine ih (refreshing.step i.1 i.2) next (by simp) ?_
      cases pins : s.refreshCmd with
      | true =>
        have full : (s.step i.1 i.2).inRefreshClk.toNat = 6 := by simp [Wbsdram.step, pins]
        have bound := s.inRefreshClk.isLt
        simp only [List.length_cons] at short ⊢
        omega
      | false =>
        have less : (s.step i.1 i.2).inRefreshClk = s.inRefreshClk - 1#3 := by simp [Wbsdram.step, pins, some]
        rw [less, toNat_pred some]
        simp only [List.length_cons] at short ⊢
        omega

/-- After an AUTO-REFRESH the pins are quiet for six clocks, not counting the one directly behind it: there
a second AUTO-REFRESH may be. -/
theorem refresh_spacing (r : Wbsdram) (is : List Inputs) (i : Inputs)
    (ended : (Clocked.run Powered.step (Powered.powerUp r) is).maintenance.maintenanceMode = false)
    (refresh : (Clocked.run Powered.step (Powered.powerUp r) is).core.pins.order = .refresh) :
    let next := (Clocked.run Powered.step (Powered.powerUp r) is).step i
    (next.core.pins.order = .nop ∨ next.core.pins.order = .refresh) ∧
      ∀ js, js ≠ [] → js.length ≤ 6 → (Clocked.run Powered.step next js).core.pins.order = .nop := by
  have refreshing := refreshing_run r is ended
  generalize Clocked.run Powered.step (Powered.powerUp r) is = s at ended refresh refreshing ⊢
  have pins := (refreshCmd_iff s.core).mpr refresh
  have core : (s.step i).core = s.core.step i.1 i.2 := if_neg (by simp [ended])
  refine ⟨?_, fun js positive short => ?_⟩
  · rw [core]
    rcases refreshing.command_around (.inr pins) i.1 with given | ⟨given, -⟩
    · exact .inl (order_step_noop given i.2)
    · exact .inr (order_step_refresh given i.2)
  · have inside : (s.core.step i.1 i.2).inRefresh = true := by simp [Wbsdram.step, pins]
    have full : (s.core.step i.1 i.2).inRefreshClk.toNat = 6 := by simp [Wbsdram.step, pins]
    rw [ended_run (Maintenance.stays_ended ended), core]
    exact quiet_window (refreshing.step i.1 i.2) inside js positive (by omega)

theorem refresh_spacing_standstill :
    let next := (Clocked.run Powered.step (Powered.powerUp blank) (standstill ++ [hold, hold])).step hold
    (next.core.pins.order = .nop ∨ next.core.pins.order = .refresh) ∧
      ∀ js, js ≠ [] → js.length ≤ 6 → (Clocked.run Powered.step next js).core.pins.order = .nop :=
  refresh_spacing blank (standstill ++ [hold, hold]) hold
    (by rw [Clocked.run_append, standstill_run]; decide) (by rw [Clocked.run_append, standstill_run]; decide)

/-- Two clocks after the refresh period of a held bus has run out the command is on the pins, and in the
next clock it is there again. -/
theorem refreshes_twice :
    let s := Clocked.run Powered.step (Powered.powerUp blank) (standstill ++ [hold, hold])
    s.maintenance.maintenanceMode = false ∧ s.core.pins.order = .refresh ∧
      (s.step hold).core.pins.order = .refresh := by
  rw [Clocked.run_append, standstill_run]
  decide

/-! ### Deadline -/

/-- How much of its history a bank still has to shed, an open bank most. -/
def level (active : BitVec 3) : Nat :=
  if active.getLsbD 2 then 3 else if active.getLsbD 1 then 2 else if active.getLsbD 0 then 1 else 0

theorem level_continued : ∀ active : BitVec 3, active.getLsbD 2 = false →
    level (continued active) = level active - 1 := by decide

theorem level_open : ∀ active : BitVec 3, level (continued active) ≤ level active := by decide

theorem level_closed : ∀ active, level (closed active) ≤ 2 := by decide

theorem level_zero : ∀ active, level active = 0 ↔ active = 0#3 := by decide

theorem level_three : ∀ active, level active = 3 ↔ active.getLsbD 2 = true := by decide

theorem level_bound : ∀ active, level active ≤ 3 := by decide

theorem continued_settled : ∀ active : BitVec 3, (continued active).extractLsb' 1 2 ≠ 0b10#2 := by decide

theorem closed_settled : ∀ active : BitVec 3, (closed active).extractLsb' 1 2 ≠ 0b10#2 := by decide

/-- When a refresh is needed nothing is opened or accessed. -/
theorem command_needed {s : Wbsdram} (need : s.needRefresh = true) (i : Wb) :
    s.command i = .noop ∨ s.command i = .prechargeAll ∨ s.command i = .refresh := by
  have guard := guard_command s i
  have nobody (serving : s.Serving i) : False := by
    rw [serving.calm] at need
    exact absurd need (by decide)
  cases given : s.command i with
  | noop => exact .inl rfl
  | prechargeAll => exact .inr (.inl rfl)
  | refresh => exact .inr (.inr rfl)
  | activate bs row => rw [given] at guard; exact (nobody guard.1).elim
  | precharge bs => rw [given] at guard; exact (nobody guard.1).elim
  | read => rw [given] at guard; exact (nobody guard.1.1).elim
  | write => rw [given] at guard; exact (nobody guard.1.1).elim

/-- A refresh is due, and no bank has just been opened. -/
structure Due (s : Wbsdram) : Prop where
  refreshing : Refreshing s
  clk : s.refreshClk = 0#10
  need : s.needRefresh = true
  pins : s.refreshCmd = false
  dmod : s.nxtDmod = false
  settled : ∀ b, (s.bankActive b).extractLsb' 1 2 ≠ 0b10#2

/-- With the period over and neither a refresh nor anything but one more precharge given, it is due in the next
clock. -/
theorem due_next {s : Wbsdram} (refreshing : Refreshing s) (clk : s.refreshClk = 0#10) (idle : s.refreshCmd = false)
    {i : Wb} (x : BitVec 16) (given : s.command i = .noop ∨ s.command i = .prechargeAll) : Due (s.step i x) := by
  have pins : (s.step i x).refreshCmd = false := by
    rw [Bool.eq_false_iff, ne_eq, refreshCmd_pins']
    rcases given with given | given <;> simp [given]
  refine ⟨refreshing.step i x, ?_, ?_, pins, ?_, fun b => ?_⟩
  · simp [Wbsdram.step, clk, idle]
  · simp [Wbsdram.step, clk, idle]
  · rcases given with given | given <;> simp [Wbsdram.step, given]
  · rcases given with given | given
    · simp only [Wbsdram.step, given]
      exact continued_settled _
    · simp only [Wbsdram.step, given]
      exact closed_settled _

namespace Due

variable {s : Wbsdram}

theorem outside (due : Due s) : s.inRefresh = false := by
  cases inside : s.inRefresh with
  | false => rfl
  | true =>
    have count := due.refreshing.count inside
    rw [due.clk] at count
    exact absurd count (by simp; omega)

/-- It is given unless `clocks_til_idle` has to run out, a bank to be closed or its history to empty. -/
theorem command (due : Due s) (i : Wb) :
    s.command i = .refresh ∨ s.command i = .noop ∧ s.clocksTilIdle ≠ 0#3 ∨
      s.command i = .prechargeAll ∧ s.clocksTilIdle = 0#3 ∧ (∃ b, level (s.bankActive b) = 3) ∨
      s.command i = .noop ∧ s.clocksTilIdle = 0#3 ∧ (∀ b, (s.bankActive b).getLsbD 2 = false) ∧
        ∃ b, s.bankActive b ≠ 0#3 := by
  rw [Wbsdram.command, if_neg (by simp [due.dmod]), if_pos (by simp [due.need])]
  have settled : (banks.any fun b => (s.bankActive b).extractLsb' 1 2 == 0b10#2) = false := by
    simp [due.settled]
  rw [settled, Bool.false_or]
  split_ifs with waits active history ready
  · exact .inr (.inl ⟨rfl, by simpa using waits⟩)
  · obtain ⟨b, -, opened⟩ := List.any_eq_true.mp active
    exact .inr (.inr (.inl ⟨rfl, by simpa using waits, b, (level_three _).mpr opened⟩))
  · obtain ⟨b, -, full⟩ := List.any_eq_true.mp history
    have shut := of_banks_any s (fun active => active.getLsbD 2) active
    exact .inr (.inr (.inr ⟨rfl, by simpa using waits, shut, b, by simpa using full⟩))
  · exact .inl rfl
  · simp [due.outside, due.need] at ready

/-- Every clock brings it nearer. -/
theorem step (due : Due s) {c n : Nat} (idle : s.clocksTilIdle.toNat ≤ c) (banks : ∀ b, level (s.bankActive b) ≤ n)
    (i : Wb) (x : BitVec 16) :
    (s.step i x).refreshCmd = true ∨ Due (s.step i x) ∧ ∃ c' n', c' + n' < c + n ∧
      (s.step i x).clocksTilIdle.toNat ≤ c' ∧ ∀ b, level ((s.step i x).bankActive b) ≤ n' := by
  rcases due.command i with given | ⟨given, waits⟩ | ⟨given, ready, b, opened⟩ | ⟨given, ready, shut, b, full⟩
  · exact .inl (refreshCmd_pins'.mpr given)
  · refine .inr ⟨due_next due.refreshing due.clk due.pins x (.inl given), c - 1, n, ?_, ?_, fun b => ?_⟩
    · have some : s.clocksTilIdle.toNat ≠ 0 := fun zero => waits (BitVec.eq_of_toNat_eq (by simpa using zero))
      omega
    · have less : (s.step i x).clocksTilIdle = s.clocksTilIdle - 1#3 := by simp [Wbsdram.step, given, waits]
      rw [less, toNat_pred waits]
      omega
    · simp only [Wbsdram.step, given]
      exact (level_open _).trans (banks b)
  · refine .inr ⟨due_next due.refreshing due.clk due.pins x (.inr given), 0, 2, ?_, ?_, fun b => ?_⟩
    · have top := banks b
      omega
    · simp [Wbsdram.step, given, ready]
    · simp only [Wbsdram.step, given]
      exact level_closed _
  · refine .inr ⟨due_next due.refreshing due.clk due.pins x (.inl given), 0, n - 1, ?_, ?_, fun b => ?_⟩
    · have some : level (s.bankActive b) ≠ 0 := fun zero => full ((level_zero _).mp zero)
      have top := banks b
      omega
    · simp [Wbsdram.step, given, ready]
    · have less := level_continued _ (shut b)
      have top := banks b
      simp only [Wbsdram.step, given, bankActive']
      omega

theorem run (due : Due s) {c n : Nat} (idle : s.clocksTilIdle.toNat ≤ c) (banks : ∀ b, level (s.bankActive b) ≤ n)
    (js : List Inputs) (long : c + n < js.length) :
    ∃ k ≤ c + n + 1, (Clocked.run (fun s i => s.step i.1 i.2) s (js.take k)).refreshCmd = true := by
  induction js generalizing s c n with
  | nil => exact absurd long (by simp)
  | cons i js ih =>
    rcases due.step idle banks i.1 i.2 with given | ⟨due', c', n', less, idle', banks'⟩
    · exact ⟨1, by omega, given⟩
    · obtain ⟨k, early, given⟩ := ih due' idle' banks' (by simp only [List.length_cons] at long; omega)
      exact ⟨k + 1, by omega, given⟩

end Due

/-- Sixteen clocks from the end of the refresh period. -/
theorem refresh_after_zero {s : Wbsdram} (refreshing : Refreshing s) (zero : s.refreshClk = 0#10) (js : List Inputs)
    (long : 16 ≤ js.length) :
    ∃ k ≤ 16, (Clocked.run (fun s i => s.step i.1 i.2) s (js.take k)).refreshCmd = true := by
  obtain ⟨i, j, js, rfl⟩ : ∃ i j rest, js = i :: j :: rest := by
    match js, long with
    | i :: j :: rest, _ => exact ⟨i, j, rest, rfl⟩
  cases pins₀ : s.refreshCmd with
  | true => exact ⟨0, by omega, pins₀⟩
  | false =>
    have clk₁ : (s.step i.1 i.2).refreshClk = 0#10 := by simp [Wbsdram.step, zero, pins₀]
    have need₁ : (s.step i.1 i.2).needRefresh = true := by simp [Wbsdram.step, zero, pins₀]
    have refreshing₁ := refreshing.step i.1 i.2
    generalize step₁ : s.step i.1 i.2 = s₁ at clk₁ need₁ refreshing₁
    cases pins₁ : s₁.refreshCmd with
    | true => exact ⟨1, by omega, by simpa [Clocked.run, step₁] using pins₁⟩
    | false =>
      have late (given : s₁.command j.1 = .noop ∨ s₁.command j.1 = .prechargeAll) :
          ∃ k ≤ 16, (Clocked.run (fun s i => s.step i.1 i.2) s ((i :: j :: js).take k)).refreshCmd = true := by
        have due := due_next refreshing₁ clk₁ pins₁ j.2 given
        have idle : (s₁.step j.1 j.2).clocksTilIdle.toNat ≤ 7 := Nat.le_of_lt_succ (s₁.step j.1 j.2).clocksTilIdle.isLt
        obtain ⟨k, early, pins⟩ := due.run idle (fun b => level_bound _) js
          (by simp only [List.length_cons] at long; omega)
        exact ⟨k + 2, by omega, by simpa [Clocked.run, step₁] using pins⟩
      rcases command_needed need₁ j.1 with given | given | given
      · exact late (.inl given)
      · exact late (.inr given)
      · exact ⟨2, by omega, by simpa [Clocked.run, step₁] using refreshCmd_pins'.mpr given⟩

/-- At most 625 clocks to the end of the period, and sixteen from there. -/
theorem refresh_within {s : Wbsdram} (refreshing : Refreshing s) {n : Nat} (clk : s.refreshClk.toNat ≤ n)
    (js : List Inputs) (long : n + 16 ≤ js.length) :
    ∃ k ≤ n + 16, (Clocked.run (fun s i => s.step i.1 i.2) s (js.take k)).refreshCmd = true := by
  induction n generalizing s js with
  | zero =>
    have zero : s.refreshClk = 0#10 := BitVec.eq_of_toNat_eq (by simpa using clk)
    exact (refresh_after_zero refreshing zero js (by omega)).imp fun k found => ⟨by omega, found.2⟩
  | succ n ih =>
    by_cases zero : s.refreshClk = 0#10
    · exact (refresh_after_zero refreshing zero js (by omega)).imp fun k found => ⟨by omega, found.2⟩
    · match js, long with
      | i :: js, long =>
        cases pins : s.refreshCmd with
        | true => exact ⟨0, by omega, pins⟩
        | false =>
          have less : (s.step i.1 i.2).refreshClk = s.refreshClk - 1#10 := by simp [Wbsdram.step, pins, zero]
          have count := toNat_pred zero
          obtain ⟨k, early, found⟩ := ih (refreshing.step i.1 i.2) (by rw [less, count]; omega) js
            (by simp only [List.length_cons] at long; omega)
          exact ⟨k + 1, by omega, found⟩

/-- Whatever the bus does, the clocks between two refreshes are bounded, and once the period is over a
refresh comes within sixteen clocks. -/
theorem refresh_deadline (r : Wbsdram) (is : List Inputs)
    (ended : (Clocked.run Powered.step (Powered.powerUp r) is).maintenance.maintenanceMode = false) :
    let s := Clocked.run Powered.step (Powered.powerUp r) is
    (∀ js : List Inputs, js.length = 641 →
      ∃ k ≤ 641, (Clocked.run Powered.step s (js.take k)).core.pins.order = .refresh) ∧
    (s.core.refreshClk = 0 → ∀ js : List Inputs, js.length = 16 →
      ∃ k ≤ 16, (Clocked.run Powered.step s (js.take k)).core.pins.order = .refresh) := by
  have refreshing := refreshing_run r is ended
  generalize Clocked.run Powered.step (Powered.powerUp r) is = s at ended refreshing ⊢
  simp only [ended_run ended, ← refreshCmd_iff]
  refine ⟨fun js long => ?_, fun zero js long => ?_⟩
  · exact refresh_within refreshing refreshing.bound js (by omega)
  · exact refresh_after_zero refreshing zero js (by omega)

theorem refresh_deadline_standstill :
    (∀ js : List Inputs, js.length = 641 →
      ∃ k ≤ 641, (Clocked.run Powered.step (Clocked.run Powered.step (Powered.powerUp blank) standstill)
        (js.take k)).core.pins.order = .refresh) ∧
    ∀ js : List Inputs, js.length = 16 →
      ∃ k ≤ 16, (Clocked.run Powered.step (Clocked.run Powered.step (Powered.powerUp blank) standstill)
        (js.take k)).core.pins.order = .refresh := by
  obtain ⟨period, zero⟩ := refresh_deadline blank standstill (by rw [standstill_run]; rfl)
  exact ⟨period, zero (by rw [standstill_run]; rfl)⟩

end IcoZip.Sdram
