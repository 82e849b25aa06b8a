import IcoZip.Library.Clocked
import IcoZip.Sdram.Commands

/-! The controller from power-up: the maintenance state machine that brings the
memory up holds the rest of the controller still until it ends. -/

set_option autoImplicit false

namespace IcoZip.Sdram

inductive RamState where
  | powerUp
  | setMode
  | initialRefresh
  deriving DecidableEq, Repr

/-- The registers of the start-up sequence. -/
structure Maintenance where
  startupIdle : BitVec 16
  startupHold : Bool
  maintenanceMode : Bool
  maintenanceClocks : BitVec 4
  maintenanceClocksZero : Bool
  mState : RamState
  mCsN : Bool
  mRasN : Bool
  mCasN : Bool
  mWeN : Bool
  mDmod : Bool
  mAddr : BitVec 12
  deriving DecidableEq, Repr

namespace Maintenance

def initial : Maintenance :=
  { startupIdle := 20500, startupHold := true, maintenanceMode := true
    maintenanceClocks := 0xf, maintenanceClocksZero := false, mState := .powerUp
    mCsN := true, mRasN := true, mCasN := true, mWeN := true, mDmod := false, mAddr := 0x021 }

/-- One clock. -/
def step (m : Maintenance) : Maintenance :=
  let m' := { m with
    startupIdle := if m.startupIdle != 0 then m.startupIdle - 1 else m.startupIdle
    startupHold := m.startupIdle != 0
    maintenanceClocks := if !m.maintenanceClocksZero then m.maintenanceClocks - 1 else m.maintenanceClocks
    maintenanceClocksZero := if !m.maintenanceClocksZero then m.maintenanceClocks == 1 else m.maintenanceClocksZero
    mAddr := 0x021 }
  match m.mState with
  | .powerUp =>
    if !m.startupHold then
      -- precharge all
      { m' with
        mState := .setMode, maintenanceClocks := 3, maintenanceClocksZero := false
        mCsN := false, mRasN := false, mCasN := true, mWeN := false, mDmod := false, mAddr := 0x421 }
    else { m' with mCsN := true, mRasN := true, mCasN := true, mWeN := true, mDmod := false }
  | .setMode =>
    if m.maintenanceClocksZero then
      { m' with
        mState := .initialRefresh, maintenanceClocks := 0xc, maintenanceClocksZero := false
        mCsN := false, mRasN := false, mCasN := false, mWeN := false, mDmod := false }
    else { m' with mCsN := true, mRasN := true, mCasN := true, mWeN := true, mAddr := 0x421 }
  | .initialRefresh =>
    { m' with
      mCsN := if 0xa < m.maintenanceClocks then true else !decide (2 < m.maintenanceClocks)
      mRasN := false, mCasN := false, mWeN := true, mDmod := false
      maintenanceMode := if m.maintenanceClocksZero then false else m.maintenanceMode }

end Maintenance

/-- One clock while `maintenance_mode` is set: the requests, the refresh counters and the data
registers go on, everything the state machine drives is held. -/
def Wbsdram.maintain (s : Wbsdram) (i : Wb) (iRamData : BitVec 16) (m : Maintenance) : Wbsdram :=
  { s.step i iRamData with
    bankActive := fun _ => 0
    bankRow := s.bankRow
    barrellAck := 0
    clocksTilIdle := s.clocksTilIdle
    nxtDmod := false
    stall := true
    pins :=
      { csN := m.mCsN, rasN := m.mRasN, casN := m.mCasN, weN := m.mWeN, bs := 0, addr := m.mAddr, dmod := m.mDmod
        data := if s.nxtDmod then s.rData.extractLsb' 0 16 else s.rData.extractLsb' 16 16
        dqm := 3 } }

/-- All registers of `wbsdram`. -/
@[ext]
structure Powered where
  core : Wbsdram
  maintenance : Maintenance

/-- The inputs of a clock: the bus and the data pins. -/
abbrev Inputs := Wb × BitVec 16

namespace Powered

def step (s : Powered) (i : Inputs) : Powered :=
  { core := if s.maintenance.maintenanceMode then s.core.maintain i.1 i.2 s.maintenance else s.core.step i.1 i.2
    maintenance := s.maintenance.step }

/-- The registers at power-up; those without an initial value are those of `r`. -/
def powerUp (r : Wbsdram) : Powered where
  core := { r with
    needRefresh := false, refreshClk := 0, inRefresh := false, inRefreshClk := 0
    bankActive := fun _ => 0, barrellAck := 0, rPending := false, rAddr := 0, fwdAddr := 0x80
    rBankValid := false, fwdBankValid := false, clocksTilIdle := 0, nxtDmod := false, stall := true
    pins := { r.pins with csN := false, rasN := true, casN := true, weN := true, dmod := false, dqm := 3 } }
  maintenance := .initial

end Powered

/-! ### What maintenance leaves behind -/

/-- Nothing is under way in the controller. -/
structure Quiet (s : Wbsdram) : Prop where
  bankActive : ∀ b, s.bankActive b = 0
  barrellAck : s.barrellAck = 0
  stall : s.stall = true
  rPending : s.rPending = false
  clocksTilIdle : s.clocksTilIdle = 0
  nxtDmod : s.nxtDmod = false
  rBankValid : s.rBankValid = false
  access : s.accessCmd = false

/-- The commands of the start-up sequence neither open a bank nor read or write one, and when it ends
the memory is not selected. -/
structure Maintenance.Orderly (m : Maintenance) : Prop where
  counted : m.maintenanceClocksZero = true → m.maintenanceClocks = 0
  access : m.mRasN = true ∧ m.mCasN = true ∨ m.mRasN = false ∧ (m.mCasN = false ∨ m.mWeN = false)
  last : m.mState = .initialRefresh → m.maintenanceClocksZero = true → m.mCsN = true

theorem Maintenance.orderly_initial : initial.Orderly := ⟨by decide, .inl ⟨rfl, rfl⟩, by decide⟩

theorem Maintenance.Orderly.orderly_step {m : Maintenance} (orderly : m.Orderly) : m.step.Orderly := by
  obtain ⟨idle, hold, mode, clocks, zero, state, csN, rasN, casN, weN, dmod, addr⟩ := m
  obtain ⟨counted, access, last⟩ := orderly
  simp only at counted access last
  cases state with
  | powerUp => cases hold <;> cases zero <;> refine ⟨?_, ?_, ?_⟩ <;> simp_all [step]
  | setMode => cases zero <;> refine ⟨?_, ?_, ?_⟩ <;> simp_all [step]
  | initialRefresh =>
    -- the last clocks of the sequence are counted 1 and 0
    cases zero with
    | false => refine ⟨?_, .inr ⟨rfl, .inl rfl⟩, ?_⟩ <;> simp_all [step]
    | true => refine ⟨?_, .inr ⟨rfl, .inl rfl⟩, ?_⟩ <;> simp_all [step]

theorem Maintenance.Orderly.off_of_ended {m : Maintenance} (orderly : m.Orderly) (on : m.maintenanceMode = true)
    (ended : m.step.maintenanceMode = false) : m.mCsN = true := by
  obtain ⟨idle, hold, mode, clocks, zero, state, csN, rasN, casN, weN, dmod, addr⟩ := m
  obtain ⟨counted, access, last⟩ := orderly
  cases state with
  | powerUp => cases hold <;> simp_all [step]
  | setMode => cases zero <;> simp_all [step]
  | initialRefresh => cases zero <;> simp_all [step]

theorem Maintenance.stays_ended {m : Maintenance} (off : m.maintenanceMode = false) :
    m.step.maintenanceMode = false := by
  obtain ⟨idle, hold, mode, clocks, zero, state, csN, rasN, casN, weN, dmod, addr⟩ := m
  cases state <;> cases hold <;> cases zero <;> simp_all [step]

theorem quiet_powerUp (r : Wbsdram) : Quiet (Powered.powerUp r).core :=
    ⟨fun _ => rfl, rfl, rfl, rfl, rfl, rfl, rfl, rfl⟩

theorem Quiet.maintain {s : Wbsdram} (quiet : Quiet s) (i : Wb) (x : BitVec 16) {m : Maintenance}
    (orderly : m.Orderly) : Quiet (s.maintain i x m) := by
  have idle : s.busCyc i = false := by simp [Wbsdram.busCyc, quiet.stall]
  refine ⟨fun _ => rfl, rfl, rfl, ?_, quiet.clocksTilIdle, rfl, ?_, ?_⟩
  · simp [Wbsdram.maintain, Wbsdram.step, idle, quiet.access, quiet.rPending]
  · simp [Wbsdram.maintain, Wbsdram.step, idle, quiet.bankActive]
  · rcases orderly.access with ⟨-, cas⟩ | ⟨ras, -⟩
    · simp [Wbsdram.accessCmd, Wbsdram.maintain, cas]
    · simp [Wbsdram.accessCmd, Wbsdram.maintain, ras]

section Staged
variable {G : Type} {follow : Powered → Inputs → G → G} {P Q : Wbsdram → G → Prop}

/-- Of the registers and a ghost that follows them: `Q` while maintenance goes on, `P` once it has ended. -/
def Staged (P Q : Wbsdram → G → Prop) (x : Powered × G) : Prop :=
  x.1.maintenance.Orderly ∧
    if x.1.maintenance.maintenanceMode then Quiet x.1.core ∧ Q x.1.core x.2 else P x.1.core x.2

theorem Staged.step
    (quiet : ∀ s i m g, m.maintenanceMode = true → m.Orderly → Quiet s → Q s g →
      Q (s.maintain i.1 i.2 m) (follow ⟨s, m⟩ i g))
    (start : ∀ s g, Quiet s → s.pins.csN = true → Q s g → P s g)
    (kept : ∀ s i m g, m.maintenanceMode = false → P s g → P (s.step i.1 i.2) (follow ⟨s, m⟩ i g))
    {x : Powered × G} (staged : Staged P Q x) (i : Inputs) : Staged P Q (x.1.step i, follow x.1 i x.2) := by
  obtain ⟨⟨s, m⟩, g⟩ := x
  obtain ⟨orderly, holds⟩ := staged
  refine ⟨orderly.orderly_step, ?_⟩
  cases on : m.maintenanceMode with
  | false =>
    have off := Maintenance.stays_ended on
    simp only [on] at holds
    simp only [Powered.step, on, off]
    exact kept s i m g on holds
  | true =>
    simp only [on, if_true] at holds
    have next := quiet s i m g on orderly holds.1 holds.2
    have still := holds.1.maintain i.1 i.2 orderly
    simp only [Powered.step, on, if_true]
    cases ended : m.step.maintenanceMode with
    | true => exact ⟨still, next⟩
    | false => exact start _ _ still (orderly.off_of_ended on ended) next

theorem staged_powerUp (r : Wbsdram) {g : G} (first : Q (Powered.powerUp r).core g) :
    Staged P Q (Powered.powerUp r, g) :=
  ⟨Maintenance.orderly_initial, quiet_powerUp r, first⟩

/-- An invariant of all runs from power-up. -/
theorem powered_invariant
    (quiet : ∀ s i m g, m.maintenanceMode = true → m.Orderly → Quiet s → Q s g →
      Q (s.maintain i.1 i.2 m) (follow ⟨s, m⟩ i g))
    (start : ∀ s g, Quiet s → s.pins.csN = true → Q s g → P s g)
    (kept : ∀ s i m g, m.maintenanceMode = false → P s g → P (s.step i.1 i.2) (follow ⟨s, m⟩ i g))
    (r : Wbsdram) {g : G} (first : Q (Powered.powerUp r).core g) (is : List Inputs) :
    Staged P Q
      (Clocked.run (fun (x : Powered × G) i => (x.1.step i, follow x.1 i x.2)) (Powered.powerUp r, g) is) := by
  let step (x : Powered × G) (i : Inputs) : Powered × G := (x.1.step i, follow x.1 i x.2)
  have one (x : Powered × G) (i : Inputs) (staged : Staged P Q x) (_ : True) : Staged P Q (step x i) :=
    staged.step quiet start kept i
  exact Clocked.run_invariant one (staged_powerUp r first) (Clocked.always_of_forall (fun _ _ => trivial) _ is)

end Staged

/-- Once maintenance has ended the controller is on its own. -/
theorem ended_run {s : Powered} (ended : s.maintenance.maintenanceMode = false) (is : List Inputs) :
    (Clocked.run Powered.step s is).core = Clocked.run (fun s i => s.step i.1 i.2) s.core is := by
  induction is generalizing s with
  | nil => rfl
  | cons i is ih =>
    have next : (s.step i).core = s.core.step i.1 i.2 := if_neg (by simp [ended])
    rw [Clocked.run_cons, Clocked.run_cons, ih (Maintenance.stays_ended ended), next]

/-! ### The start-up sequence with the bus held and no request -/

/-- Registers with nothing in them. -/
def blank : Wbsdram :=
  { needRefresh := false, refreshClk := 0, inRefresh := false, inRefreshClk := 0
    bankActive := fun _ => 0, bankRow := fun _ => 0, barrellAck := 0
    rPending := false, rWe := false, rAddr := 0, rData := 0, rSel := 0, fwdAddr := 0x80
    rBankValid := false, fwdBankValid := false, clocksTilIdle := 0, nxtDmod := false, stall := true
    pins :=
      { csN := true, rasN := true, casN := true, weN := true, bs := 0, addr := 0x021, dmod := false,
        data := 0, dqm := 3 }
    ramDataIn := 0, lastRamData := 0 }

def hold : Inputs := (⟨true, false, false, 0, 0, 0⟩, 0)

/-- The start-up delay has `n` clocks to go. -/
def sleeping (n : Nat) : Powered where
  core := { blank with needRefresh := true }
  maintenance :=
    { Maintenance.initial with
      startupIdle := BitVec.ofNat 16 n, maintenanceClocks := 0, maintenanceClocksZero := true }

/-- Maintenance has ended and the next refresh is due in `n` clocks. -/
def woken (n : Nat) : Powered where
  core := { blank with
    refreshClk := BitVec.ofNat 10 n, stall := false
    pins := { blank.pins with csN := false, dqm := 0 } }
  maintenance :=
    { Maintenance.initial with
      startupIdle := 0, startupHold := false, maintenanceMode := false, maintenanceClocks := 0
      maintenanceClocksZero := true, mState := .initialRefresh, mRasN := false, mCasN := false }

theorem ofNat_pos {w n : Nat} (small : n + 1 < 2 ^ w) : BitVec.ofNat w (n + 1) ≠ 0#w := by
  intro zero
  have value := congrArg BitVec.toNat zero
  rw [BitVec.toNat_ofNat, Nat.mod_eq_of_lt small] at value
  exact absurd value (by simp)

theorem ofNat_pred (w n : Nat) : BitVec.ofNat w (n + 1) - 1#w = BitVec.ofNat w n := by
  rw [BitVec.ofNat_add]
  exact BitVec.add_sub_cancel _ _

theorem sleeping_step {n : Nat} (small : n + 1 < 2 ^ 16) : (sleeping (n + 1)).step hold = sleeping n := by
  have waits : (sleeping (n + 1)).maintenance.step = (sleeping n).maintenance := by
    have pos : BitVec.ofNat 16 (n + 1) ≠ 0#16 := ofNat_pos small
    have pred : BitVec.ofNat 16 (n + 1) - 1#16 = BitVec.ofNat 16 n := ofNat_pred 16 n
    simp [sleeping, Maintenance.step, Maintenance.initial, pos, pred]
  have core : (sleeping (n + 1)).core.maintain hold.1 hold.2 (sleeping (n + 1)).maintenance = (sleeping n).core := by
    simp [sleeping, blank, hold, Maintenance.initial, Wbsdram.maintain, Wbsdram.step, Wbsdram.busCyc,
      Wbsdram.refreshCmd,
      Wbsdram.accessCmd]
  have on : (sleeping (n + 1)).maintenance.maintenanceMode = true := rfl
  rw [Powered.step, waits, if_pos on, core]

theorem sleeping_run (n : Nat) (small : n < 2 ^ 16) :
    Clocked.run Powered.step (sleeping n) (List.replicate n hold) = sleeping 0 := by
  induction n with
  | zero => rfl
  | succ n ih => rw [List.replicate_succ, Clocked.run_cons, sleeping_step small, ih (by omega)]

theorem woken_step {n : Nat} (small : n + 1 < 2 ^ 10) : (woken (n + 1)).step hold = woken n := by
  have pos : BitVec.ofNat 10 (n + 1) ≠ 0#10 := ofNat_pos small
  have pred : BitVec.ofNat 10 (n + 1) - 1#10 = BitVec.ofNat 10 n := ofNat_pred 10 n
  have noop : (woken (n + 1)).core.command hold.1 = .noop := by
    simp [woken, blank, hold, Wbsdram.command, Wbsdram.pending]
  have core : (woken (n + 1)).core.step hold.1 hold.2 = (woken n).core := by
    rw [Wbsdram.step, noop]
    simp [woken, blank, hold, Wbsdram.busCyc, Wbsdram.refreshCmd, Wbsdram.accessCmd, Wbsdram.pins', pos, pred]
    exact funext fun _ => Wbsdram.continued_zero
  have off : ¬ (woken (n + 1)).maintenance.maintenanceMode = true := Bool.false_ne_true
  rw [Powered.step, if_neg off, core]
  rfl

theorem woken_run (n : Nat) (small : n < 2 ^ 10) :
    Clocked.run Powered.step (woken n) (List.replicate n hold) = woken 0 := by
  induction n with
  | zero => rfl
  | succ n ih => rw [List.replicate_succ, Clocked.run_cons, woken_step small, ih (by omega)]

theorem maintenance_run : Clocked.run Powered.step (sleeping 0) (List.replicate 30 hold) = woken 613 := by
  apply Powered.ext
  · apply Wbsdram.ext
    case bankActive | bankRow =>
      funext b
      revert b
      decide +kernel
    all_goals decide +kernel
  · decide +kernel

/-- The clocks from power-up to the end of maintenance. -/
def awake : List Inputs := List.replicate 20 hold ++ List.replicate 20480 hold ++ List.replicate 30 hold

theorem awake_run : Clocked.run Powered.step (Powered.powerUp blank) awake = woken 613 := by
  have delay : Clocked.run Powered.step (Powered.powerUp blank) (List.replicate 20 hold) = sleeping 20480 := rfl
  rw [awake, Clocked.run_append, Clocked.run_append, delay, sleeping_run 20480 (by decide), maintenance_run]

/-- These, and those of the first refresh period. -/
def standstill : List Inputs := awake ++ List.replicate 613 hold

theorem standstill_run : Clocked.run Powered.step (Powered.powerUp blank) standstill = woken 0 := by
  rw [standstill, Clocked.run_append, awake_run, woken_run 613 (by decide)]

end IcoZip.Sdram
