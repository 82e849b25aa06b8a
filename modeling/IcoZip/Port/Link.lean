import IcoZip.Library.Clocked
import Mathlib.Data.BitVec

/-! The parallel port and a host in its four-phase handshake: `pport`.

Between two edges the host makes any number of moves, each of which needs the
feedback clock it can see. The synchroniser then only ever holds a ramp of ones
or its complement, and how far the ramp has come tells what the other registers
hold.
-/

set_option autoImplicit false

namespace IcoZip.Port

/-! ### The module -/

/-- The registers of `pport`. -/
structure Pport where
  rxStb : Bool
  rxData : BitVec 8
  txBusy : Bool
  ppData : BitVec 8
  ppClkfb : Bool
  stbPpDir : Bool
  ckPpDir : Bool
  ppStb : Bool
  ppClkTransfer : BitVec 6
  ckPpData : BitVec 8
  loaded : Bool
  deriving DecidableEq, Repr

/-- `&pp_clk_transfer[5:1]`. -/
def allSet (transfer : BitVec 6) : Bool := transfer.extractLsb' 1 5 == 0b11111#5

/-- `pp_clk_transfer[5:1] == 0`. -/
def noneSet (transfer : BitVec 6) : Bool := transfer.extractLsb' 1 5 == 0#5

def shiftIn (transfer : BitVec 6) (clk : Bool) : BitVec 6 := transfer.extractLsb' 0 5 ++ BitVec.ofBool clk

/-- One clock of `pport`. -/
def pport (s : Pport) (iTxWr : Bool) (iTxData : BitVec 8) (iPpDir iPpClk : Bool)
    (iPpData : BitVec 8) : Pport :=
  { ppClkTransfer := shiftIn s.ppClkTransfer iPpClk
    ppClkfb := if allSet s.ppClkTransfer then true else if noneSet s.ppClkTransfer then false else s.ppClkfb
    ppStb := allSet s.ppClkTransfer && !s.ppClkfb
    ckPpData := if !s.ppClkfb then iPpData else s.ckPpData
    stbPpDir := if !s.ppClkfb then iPpDir else s.stbPpDir
    ckPpDir := s.stbPpDir
    rxStb := s.ppStb && s.stbPpDir
    rxData := if s.ppStb then s.ckPpData else s.rxData
    loaded :=
      if iTxWr && !s.txBusy then true
      else if s.ppStb && !s.stbPpDir then false
      else s.loaded
    txBusy :=
      s.loaded || (iTxWr && !s.txBusy) || ((!noneSet s.ppClkTransfer || s.ppClkfb) && !s.ckPpDir)
    ppData := if !s.txBusy then (if iTxWr then iTxData else 0xff) else s.ppData }

/-- The values at power-up; the registers without one are arbitrary. -/
structure PowerUp (s : Pport) : Prop where
  transfer : s.ppClkTransfer = 0
  stb : s.ppStb = false
  clkfb : s.ppClkfb = false
  rx : s.rxStb = false
  loaded : s.loaded = false
  busy : s.txBusy = false
  data : s.ppData = 0xff

/-! ### The host -/

/-- What the host does with one pulse of its clock. -/
inductive Transfer where
  | write (byte : BitVec 8)
  | read
  deriving DecidableEq, Repr

/-- The direction line: high while the host writes. -/
def Transfer.dir : Transfer → Bool
  | .write _ => true
  | .read => false

/-- The host's clock is low, or high for a transfer whose byte may have been sampled. -/
inductive Phase where
  | low
  | high (transfer : Transfer) (sampled : Bool)
  deriving DecidableEq, Repr

def Phase.clk : Phase → Bool
  | .low => false
  | .high _ _ => true

inductive Move where
  | raise (transfer : Transfer)
  | sample
  | lower
  deriving DecidableEq, Repr

/-- A move has an effect only in its phase and with the feedback clock it waits for. -/
def Phase.move (clkfb : Bool) : Phase → Move → Phase
  | .low, .raise transfer => if clkfb then .low else .high transfer false
  | .high .read false, .sample => .high .read clkfb
  | .high (.write byte) sampled, .lower => if clkfb then .low else .high (.write byte) sampled
  | .high .read true, .lower => if clkfb then .low else .high .read true
  | phase, _ => phase

/-- The byte that a move starts to write. -/
def Phase.writes (clkfb : Bool) : Phase → Move → List (BitVec 8)
  | .low, .raise (.write byte) => if clkfb then [] else [byte]
  | _, _ => []

/-- The byte that a move samples. -/
def Phase.samples (clkfb : Bool) (ppData : BitVec 8) : Phase → Move → List (BitVec 8)
  | .high .read false, .sample => if clkfb then [ppData] else []
  | _, _ => []

/-! ### The link -/

structure Link where
  phase : Phase
  port : Pport
  deriving DecidableEq, Repr

/-- The host's moves before the edge, the lines it leaves free, the transmit side. -/
structure LinkIn where
  moves : List Move
  freeDir : Bool
  freeData : BitVec 8
  txWr : Bool
  txData : BitVec 8
  deriving DecidableEq, Repr

namespace Link

/-- The host after its moves. -/
def phaseAt (s : Link) (i : LinkIn) : Phase := Clocked.run (Phase.move s.port.ppClkfb) s.phase i.moves

/-- Direction and data are held from the rise of the clock to that of the feedback clock. -/
def dirLine (phase : Phase) (clkfb freeDir : Bool) : Bool :=
  match phase with
  | .high transfer _ => if clkfb then freeDir else transfer.dir
  | .low => freeDir

def dataLine (phase : Phase) (clkfb : Bool) (freeData : BitVec 8) : BitVec 8 :=
  match phase with
  | .high (.write byte) _ => if clkfb then freeData else byte
  | _ => freeData

def step (s : Link) (i : LinkIn) : Link :=
  let phase := s.phaseAt i
  { phase
    port := pport s.port i.txWr i.txData (dirLine phase s.port.ppClkfb i.freeDir) phase.clk
      (dataLine phase s.port.ppClkfb i.freeData) }

/-- The bytes that the host starts to write. -/
def written (s : Link) (i : LinkIn) : List (BitVec 8) :=
  Clocked.emitted (Phase.move s.port.ppClkfb) (Phase.writes s.port.ppClkfb) s.phase i.moves

/-- The bytes that the host samples. -/
def sampled (s : Link) (i : LinkIn) : List (BitVec 8) :=
  Clocked.emitted (Phase.move s.port.ppClkfb) (Phase.samples s.port.ppClkfb s.port.ppData) s.phase i.moves

/-- The byte strobed by `o_rx_stb`. -/
def received (s : Link) (_ : LinkIn) : List (BitVec 8) := if s.port.rxStb then [s.port.rxData] else []

/-- The byte accepted on the transmit side. -/
def accepted (s : Link) (i : LinkIn) : List (BitVec 8) :=
  if i.txWr && !s.port.txBusy then [i.txData] else []

/-- Requests to transmit carry bytes other than 0xff. -/
def Transmits (_ : Link) (i : LinkIn) : Prop := i.txWr = true → i.txData ≠ 0xff

instance (s : Link) (i : LinkIn) : Decidable (Transmits s i) :=
  inferInstanceAs (Decidable (i.txWr = true → i.txData ≠ 0xff))

end Link

/-! ### Ramps -/

/-- The synchroniser after `k` clocks of a high clock. -/
def ramp (k : Nat) : BitVec 6 := BitVec.ofNat 6 (2 ^ k - 1)

theorem ramp_rises : ∀ k : Fin 6,
    shiftIn (ramp k) true = ramp (k + 1) ∧ noneSet (ramp k) = decide (k.val ≤ 1) ∧ allSet (ramp k) = false := by
  decide

theorem ramp_falls : ∀ k : Fin 6,
    shiftIn (~~~ramp k) false = ~~~ramp (k + 1) ∧ noneSet (~~~ramp k) = false := by
  decide

theorem ramp_full :
    shiftIn (ramp 6) true = ramp 6 ∧ shiftIn (ramp 6) false = ~~~ramp 1 ∧ noneSet (ramp 6) = false ∧
      allSet (ramp 6) = true := by
  decide

theorem ramp_empty :
    shiftIn 0#6 true = ramp 1 ∧ shiftIn 0#6 false = 0#6 ∧ noneSet 0#6 = true ∧ allSet 0#6 = false ∧
      ~~~ramp 6 = 0#6 := by
  decide

/-! ### What the host can do between two edges -/

/-- The byte that a transfer writes. -/
def Transfer.bytes : Transfer → List (BitVec 8)
  | .write byte => [byte]
  | .read => []

section Moves
attribute [local simp] Phase.move Phase.writes Phase.samples
variable (ms : List Move) (ppData : BitVec 8)

theorem moves_low_waiting :
    Clocked.run (Phase.move true) .low ms = .low ∧
      Clocked.emitted (Phase.move true) (Phase.samples true ppData) .low ms = [] := by
  induction ms with
  | nil => exact ⟨rfl, rfl⟩
  | cons m ms ih => cases m with
    | raise t => cases t <;> simpa [Phase.move, Phase.samples] using ih
    | _ => simpa [Phase.move, Phase.samples] using ih

theorem moves_high_waiting (t : Transfer) :
    Clocked.run (Phase.move false) (.high t false) ms = .high t false ∧
      Clocked.emitted (Phase.move false) (Phase.writes false) (.high t false) ms = [] := by
  induction ms with
  | nil => exact ⟨rfl, rfl⟩
  | cons m ms ih => cases m <;> cases t <;> simpa [Phase.move, Phase.writes] using ih

theorem moves_low :
    (Clocked.run (Phase.move false) .low ms = .low ∧
      Clocked.emitted (Phase.move false) (Phase.writes false) .low ms = []) ∨
    ∃ t, Clocked.run (Phase.move false) .low ms = .high t false ∧
      Clocked.emitted (Phase.move false) (Phase.writes false) .low ms = t.bytes := by
  induction ms with
  | nil => exact .inl ⟨rfl, rfl⟩
  | cons m ms ih => cases m with
    | raise t =>
      obtain ⟨run, writes⟩ := moves_high_waiting ms t
      refine .inr ⟨t, ?_⟩
      cases t <;> simp_all [Phase.move, Phase.writes, Transfer.bytes]
    | _ => simpa [Phase.move, Phase.writes] using ih

theorem moves_write (byte : BitVec 8) (sampled : Bool) :
    (Clocked.run (Phase.move true) (.high (.write byte) sampled) ms = .high (.write byte) sampled ∨
      Clocked.run (Phase.move true) (.high (.write byte) sampled) ms = .low) ∧
    Clocked.emitted (Phase.move true) (Phase.samples true ppData) (.high (.write byte) sampled) ms = [] := by
  induction ms with
  | nil => exact ⟨.inl rfl, rfl⟩
  | cons m ms ih => cases m with
    | lower =>
      obtain ⟨run, samples⟩ := moves_low_waiting ms ppData
      simp [Phase.move, Phase.samples, run, samples]
    | _ => simpa [Phase.move, Phase.samples] using ih

theorem moves_sampled :
    (Clocked.run (Phase.move true) (.high .read true) ms = .high .read true ∨
      Clocked.run (Phase.move true) (.high .read true) ms = .low) ∧
    Clocked.emitted (Phase.move true) (Phase.samples true ppData) (.high .read true) ms = [] := by
  induction ms with
  | nil => exact ⟨.inl rfl, rfl⟩
  | cons m ms ih => cases m with
    | lower =>
      obtain ⟨run, samples⟩ := moves_low_waiting ms ppData
      simp [Phase.move, Phase.samples, run, samples]
    | _ => simpa [Phase.move, Phase.samples] using ih

theorem moves_read :
    (Clocked.run (Phase.move true) (.high .read false) ms = .high .read false ∧
      Clocked.emitted (Phase.move true) (Phase.samples true ppData) (.high .read false) ms = []) ∨
    ((Clocked.run (Phase.move true) (.high .read false) ms = .high .read true ∨
        Clocked.run (Phase.move true) (.high .read false) ms = .low) ∧
      Clocked.emitted (Phase.move true) (Phase.samples true ppData) (.high .read false) ms = [ppData]) := by
  induction ms with
  | nil => exact .inl ⟨rfl, rfl⟩
  | cons m ms ih => cases m with
    | sample =>
      obtain ⟨run, samples⟩ := moves_sampled ms ppData
      simp [Phase.move, Phase.samples, run, samples]
    | _ => simpa [Phase.move, Phase.samples] using ih

end Moves

/-! ### Where a transfer stands -/

/-- Direction and data of the transfer are in their registers. -/
def Latched (t : Transfer) (p : Pport) : Prop :=
  p.stbPpDir = t.dir ∧ ∀ byte, t = .write byte → p.ckPpData = byte

/-- While the port is read its transmit side is busy. -/
def ReadBusy (t : Transfer) (p : Pport) : Prop := t = .read → p.txBusy = true

inductive Situation : Phase → Pport → Prop where
  | rest {p : Pport} : p.ppClkTransfer = 0#6 → p.ppClkfb = false → p.ppStb = false → Situation .low p
  | rising {p : Pport} (t : Transfer) (k : Nat) : 1 ≤ k → k ≤ 6 → p.ppClkTransfer = ramp k →
      p.ppClkfb = false → p.ppStb = false → Latched t p → (2 ≤ k → p.ckPpDir = t.dir) →
      (3 ≤ k → ReadBusy t p) → Situation (.high t false) p
  | recognised {p : Pport} (t : Transfer) : p.ppClkTransfer = ramp 6 → p.ppClkfb = true → p.ppStb = true →
      Latched t p → p.ckPpDir = t.dir → ReadBusy t p → Situation (.high t false) p
  | top {p : Pport} (t : Transfer) (sampled : Bool) : p.ppClkTransfer = ramp 6 → p.ppClkfb = true →
      p.ppStb = false → p.stbPpDir = t.dir → p.ckPpDir = t.dir →
      (t = .read → p.txBusy = true ∧ p.loaded = false) → Situation (.high t sampled) p
  | falling {p : Pport} (k : Nat) : 1 ≤ k → k ≤ 6 → p.ppClkTransfer = ~~~ramp k → p.ppClkfb = true →
      p.ppStb = false → p.ckPpDir = p.stbPpDir →
      (p.stbPpDir = false → p.txBusy = true ∧ p.loaded = false) → Situation .low p

namespace Link

/-- A loaded byte stands in `o_pp_data`; a byte that stays there when it has been read is gone
before the next transfer is recognised. -/
structure Sound (s : Link) : Prop where
  situation : Situation s.phase s.port
  busy : s.port.loaded = true → s.port.txBusy = true
  data : s.port.loaded = true → s.port.ppData ≠ 0xff
  stale : s.port.loaded = false → s.port.ppData = 0xff ∨
    (s.port.ppClkfb = true ∧ s.port.ppStb = false ∧ s.port.stbPpDir = false) ∨
    (s.port.ppClkfb = false ∧ s.port.ppClkTransfer = 0#6) ∨
    (s.port.ppClkfb = false ∧ s.port.ppClkTransfer = ramp 1 ∧ s.port.txBusy = false)

section Steps
variable {s : Link} {i : LinkIn}

/-- The link after a clock, by the host's phase at the edge. -/
theorem step_eq {phase : Phase} (at_ : s.phaseAt i = phase) :
    s.step i = ⟨phase, pport s.port i.txWr i.txData (dirLine phase s.port.ppClkfb i.freeDir) phase.clk
      (dataLine phase s.port.ppClkfb i.freeData)⟩ := by
  rw [step, at_]

/-- With the feedback clock up, a transfer stays or ends. -/
theorem phaseAt_top {t : Transfer} {sampled : Bool} (phase : s.phase = .high t sampled)
    (clkfb : s.port.ppClkfb = true) : (∃ sampled', s.phaseAt i = .high t sampled') ∨ s.phaseAt i = .low := by
  rw [phaseAt, phase, clkfb]
  cases t with
  | write byte =>
    rcases (moves_write i.moves 0 byte sampled).1 with run | run
    · exact .inl ⟨sampled, run⟩
    · exact .inr run
  | read =>
    cases sampled with
    | true =>
      rcases (moves_sampled i.moves 0).1 with run | run
      · exact .inl ⟨true, run⟩
      · exact .inr run
    | false =>
      rcases moves_read i.moves 0 with ⟨run, -⟩ | ⟨run | run, -⟩
      · exact .inl ⟨false, run⟩
      · exact .inl ⟨true, run⟩
      · exact .inr run

theorem phaseAt_rising {t : Transfer} (phase : s.phase = .high t false) (clkfb : s.port.ppClkfb = false) :
    s.phaseAt i = .high t false := by
  rw [phaseAt, phase, clkfb]
  exact (moves_high_waiting i.moves t).1

theorem phaseAt_falling (phase : s.phase = .low) (clkfb : s.port.ppClkfb = true) : s.phaseAt i = .low := by
  rw [phaseAt, phase, clkfb]
  exact (moves_low_waiting i.moves 0).1

theorem phaseAt_rest (phase : s.phase = .low) (clkfb : s.port.ppClkfb = false) :
    s.phaseAt i = .low ∨ ∃ t, s.phaseAt i = .high t false := by
  rw [phaseAt, phase, clkfb]
  rcases moves_low i.moves with ⟨run, -⟩ | ⟨t, run, -⟩
  · exact .inl run
  · exact .inr ⟨t, run⟩

/-- What the lines carry into the registers while the feedback clock is down. -/
theorem latched_lines (t : Transfer) (p : Pport) (clkfb : p.ppClkfb = false) (i : LinkIn) (clk : Bool) :
    Latched t (pport p i.txWr i.txData (dirLine (.high t false) p.ppClkfb i.freeDir) clk
      (dataLine (.high t false) p.ppClkfb i.freeData)) := by
  refine ⟨by simp [pport, dirLine, clkfb], ?_⟩
  rintro byte rfl
  simp [pport, dataLine, clkfb]

/-- With the synchroniser full and the feedback clock up, the transfer goes on or starts to fall. -/
theorem situation_full {t : Transfer} {sampled : Bool} (phase : s.phase = .high t sampled)
    (transfer : s.port.ppClkTransfer = ramp 6) (clkfb : s.port.ppClkfb = true)
    (dir : s.port.stbPpDir = t.dir) (ck : s.port.ckPpDir = t.dir)
    (read : t = .read → s.port.txBusy = true ∧ (s.port.ppStb = true ∨ s.port.loaded = false)) :
    Situation (s.step i).phase (s.step i).port := by
  obtain ⟨stay, fall, none, all⟩ := ramp_full
  have still : t.dir = false → s.port.txBusy = true ∧ (s.port.ppStb = true ∨ s.port.loaded = false) := by
    cases t with
    | write byte => simp [Transfer.dir]
    | read => exact fun _ => read rfl
  rcases phaseAt_top (i := i) phase clkfb with ⟨sampled, high⟩ | low
  · rw [step_eq high]
    refine .top t sampled ?_ ?_ ?_ ?_ dir ?_
    · simp [pport, transfer, Phase.clk, stay]
    · simp [pport, transfer, all]
    · simp [pport, clkfb]
    · simp [pport, clkfb, dir]
    · rintro rfl
      obtain ⟨busy, gone⟩ := read rfl
      rcases gone with stb | empty
      · simp [pport, clkfb, ck, dir, Transfer.dir, busy, stb]
      · simp [pport, clkfb, ck, dir, Transfer.dir, busy, empty]
  · rw [step_eq low]
    refine .falling 1 (Nat.le_refl 1) (by decide) ?_ ?_ ?_ ?_ ?_
    · simp [pport, transfer, Phase.clk, fall]
    · simp [pport, transfer, all]
    · simp [pport, clkfb]
    · simp [pport, clkfb]
    · intro reading
      have low : t.dir = false := by simpa [pport, clkfb, dir] using reading
      obtain ⟨busy, gone⟩ := still low
      rcases gone with stb | empty
      · simp [pport, clkfb, ck, dir, low, busy, stb]
      · simp [pport, clkfb, ck, dir, low, busy, empty]

theorem situation_step (sound : s.Sound) : Situation (s.step i).phase (s.step i).port := by
  obtain ⟨phase, p⟩ := s
  obtain ⟨situation, busy, data, stale⟩ := sound
  simp only at situation busy data stale
  cases situation with
  | rest transfer clkfb stb =>
    -- the FPGA is at rest; the clock line may rise with the lines of a transfer
    obtain ⟨rise, stay, none, notAll, -⟩ := ramp_empty
    rcases phaseAt_rest (s := ⟨.low, p⟩) (i := i) rfl clkfb with low | ⟨t, high⟩
    · rw [step_eq low]
      refine .rest ?_ ?_ ?_ <;> simp [pport, transfer, Phase.clk, stay, none, notAll]
    · rw [step_eq high]
      refine .rising t 1 (Nat.le_refl 1) (by decide) ?_ ?_ ?_ (latched_lines t p clkfb i _) (by omega) (by omega) <;>
        simp [pport, transfer, Phase.clk, rise, none, notAll]
  | rising t k low high transfer clkfb stb latched ck readBusy =>
    rw [step_eq (phaseAt_rising rfl clkfb)]
    -- the debouncer counts seven equal samples before it takes the level
    by_cases full : k = 6
    · subst full
      obtain ⟨rise, -, none, all⟩ := ramp_full
      refine .recognised t ?_ ?_ ?_ (latched_lines t p clkfb i _) latched.1 ?_
      · simp [pport, transfer, Phase.clk, rise]
      · simp [pport, transfer, all]
      · simp [pport, transfer, all, clkfb]
      · rintro rfl
        simp [pport, transfer, none, ck (by decide), Transfer.dir]
    · obtain ⟨rise, none, notAll⟩ := ramp_rises ⟨k, by omega⟩
      refine .rising t (k + 1) (by omega) (by omega) ?_ ?_ ?_ (latched_lines t p clkfb i _) (fun _ => latched.1) ?_
      · simp [pport, transfer, Phase.clk, rise]
      · simp [pport, transfer, notAll, clkfb]
      · simp [pport, transfer, notAll]
      · rintro two rfl
        have passed : ¬ k ≤ 1 := by omega
        simp [pport, transfer, none, passed, ck (by omega), Transfer.dir]
  | recognised t transfer clkfb stb latched ck readBusy =>
    exact situation_full rfl transfer clkfb latched.1 ck fun reading => ⟨readBusy reading, .inl stb⟩
  | top t sampled transfer clkfb stb dir ck read =>
    exact situation_full rfl transfer clkfb dir ck fun reading => ⟨(read reading).1, .inr (read reading).2⟩
  | falling k low high transfer clkfb stb ck read =>
    rw [step_eq (phaseAt_falling rfl clkfb)]
    -- the debouncer lets go after seven low samples
    by_cases empty : k = 6
    · subst empty
      obtain ⟨-, stay, none, notAll, last⟩ := ramp_empty
      rw [last] at transfer
      refine .rest ?_ ?_ ?_ <;> simp [pport, transfer, Phase.clk, stay, none, notAll]
    · obtain ⟨fall, some⟩ := ramp_falls ⟨k, by omega⟩
      refine .falling (k + 1) (by omega) (by omega) ?_ ?_ ?_ ?_ ?_
      · simp [pport, transfer, Phase.clk, fall]
      · simp [pport, transfer, some, clkfb]
      · simp [pport, clkfb]
      · simp [pport, clkfb]
      · intro low
        have dir : p.stbPpDir = false := by simpa [pport, clkfb] using low
        obtain ⟨busy, empty⟩ := read dir
        simp [pport, clkfb, stb, ck, dir, busy, empty]

/-- The feedback clock only comes down when the synchroniser is empty. -/
theorem clkfb_step (situation : Situation s.phase s.port) (clkfb : s.port.ppClkfb = true) :
    (s.step i).port.ppClkfb = true ∨
      ((s.step i).port.ppClkfb = false ∧ (s.step i).port.ppClkTransfer = 0#6) := by
  obtain ⟨phase, p⟩ := s
  simp only at situation clkfb
  cases situation with
  | rest transfer down stb => simp [down] at clkfb
  | rising t k low high transfer down stb latched ck readBusy => simp [down] at clkfb
  | recognised t transfer up stb latched ck readBusy =>
    exact .inl (by simp [step, pport, transfer, ramp_full.2.2.2])
  | top t sampled transfer up stb dir ck read =>
    exact .inl (by simp [step, pport, transfer, ramp_full.2.2.2])
  | falling k low high transfer up stb ck read =>
    rw [step_eq (phaseAt_falling rfl up)]
    by_cases empty : k = 6
    · subst empty
      obtain ⟨-, stay, none, notAll, last⟩ := ramp_empty
      rw [last] at transfer
      exact .inr ⟨by simp [pport, transfer, none, notAll], by simp [pport, transfer, Phase.clk, stay]⟩
    · obtain ⟨-, some⟩ := ramp_falls ⟨k, by omega⟩
      exact .inl (by simp [pport, transfer, some, clkfb])

/-- A byte is only cleared when a read is recognised. -/
theorem clkfb_of_stb (situation : Situation s.phase s.port) (stb : s.port.ppStb = true) :
    s.port.ppClkfb = true ∧ s.port.ppClkTransfer = ramp 6 := by
  obtain ⟨phase, p⟩ := s
  simp only at situation stb ⊢
  cases situation with
  | recognised t transfer up _ latched ck readBusy => exact ⟨up, transfer⟩
  | rest _ _ down => simp [down] at stb
  | rising _ _ _ _ _ _ down => simp [down] at stb
  | top _ _ _ _ down => simp [down] at stb
  | falling _ _ _ _ _ down => simp [down] at stb

theorem sound_step (sound : s.Sound) (transmits : s.Transmits i) : (s.step i).Sound := by
  obtain ⟨situation, busy, data, stale⟩ := sound
  refine ⟨situation_step ⟨situation, busy, data, stale⟩, ?_, ?_, ?_⟩
  · intro loaded
    simp only [step, pport] at loaded ⊢
    split at loaded
    · simp_all
    · split at loaded <;> simp_all
  · intro loaded
    simp only [step, pport] at loaded ⊢
    by_cases accept : (i.txWr && !s.port.txBusy) = true
    · obtain ⟨wr, free⟩ : i.txWr = true ∧ s.port.txBusy = false := by simpa using accept
      simpa [wr, free] using transmits wr
    · have kept : s.port.loaded = true := by
        rw [if_neg accept] at loaded
        split at loaded
        · contradiction
        · exact loaded
      simpa [busy kept] using data kept
  · intro empty
    cases free : s.port.txBusy with
    | false =>
      have wr : i.txWr = false := by
        cases wr : i.txWr with
        | false => rfl
        | true => simp [step, pport, wr, free] at empty
      exact .inl (by simp [step, pport, wr, free])
    | true =>
      have held : (s.step i).port.ppData = s.port.ppData := by simp [step, pport, free]
      have frozen (clkfb : s.port.ppClkfb = true) : (s.step i).port.ppStb = false ∧
          (s.step i).port.stbPpDir = s.port.stbPpDir := by simp [step, pport, clkfb]
      rw [held]
      cases full : s.port.loaded with
      | true =>
        -- the byte has just been cleared
        have cleared : s.port.ppStb = true ∧ s.port.stbPpDir = false := by
          simpa [step, pport, free, full] using empty
        obtain ⟨clkfb, transfer⟩ := clkfb_of_stb situation cleared.1
        refine .inr (.inl ⟨?_, (frozen clkfb).1, (frozen clkfb).2.trans cleared.2⟩)
        simp [step, pport, transfer, ramp_full.2.2.2]
      | false =>
        rcases stale full with idle | ⟨clkfb, -, dir⟩ | ⟨clkfb, transfer⟩ | ⟨-, -, busy⟩
        · exact .inl idle
        · rcases clkfb_step (i := i) situation clkfb with up | down
          · exact .inr (.inl ⟨up, (frozen clkfb).1, (frozen clkfb).2.trans dir⟩)
          · exact .inr (.inr (.inl down))
        · obtain ⟨rise, stay, none, notAll, -⟩ := ramp_empty
          cases clk : (s.phaseAt i).clk with
          | false =>
            refine .inr (.inr (.inl ⟨?_, ?_⟩)) <;> simp [step, pport, transfer, none, notAll, clk, stay]
          | true =>
            refine .inr (.inr (.inr ⟨?_, ?_, ?_⟩)) <;>
              simp [step, pport, transfer, none, notAll, clk, rise, clkfb, full, free]
        · simp [free] at busy

end Steps

/-! ### The three channels -/

/-- The writes that have not been strobed. -/
def underWay (s : Link) : List (BitVec 8) :=
  (if s.port.rxStb then [s.port.rxData] else []) ++
    ((if s.port.ppStb && s.port.stbPpDir then [s.port.ckPpData] else []) ++
      match s.phase with
      | .high (.write byte) _ => if s.port.ppClkfb then [] else [byte]
      | _ => [])

/-- A read has been recognised and the host has not sampled yet. -/
def unsampled (s : Link) : Bool := s.phase == .high .read false && s.port.ppClkfb

/-- The accepted byte that no read has returned. -/
def waiting (s : Link) : List (BitVec 8) :=
  if s.port.loaded then [s.port.ppData]
  else if s.unsampled && s.port.ppData != 0xff then [s.port.ppData]
  else []

/-- In the clock in which a read is recognised: the byte that waits then, if any. -/
def recognised (s : Link) (_ : LinkIn) : List (Option (BitVec 8)) :=
  if s.port.ppStb && !s.port.stbPpDir then [s.waiting.head?] else []

/-- The read that was recognised earlier and is still to be sampled. -/
def owed (s : Link) : List (BitVec 8) := if s.unsampled && !s.port.ppStb then [s.port.ppData] else []

section Channels
variable {s : Link} {i : LinkIn}

theorem written_up (clkfb : s.port.ppClkfb = true) : s.written i = [] := by
  rw [written, clkfb]
  refine Clocked.emitted_nothing _ (fun phase m => ?_) s.phase i.moves
  unfold Phase.writes
  split <;> rfl

theorem sampled_down (clkfb : s.port.ppClkfb = false) : s.sampled i = [] := by
  rw [sampled, clkfb]
  refine Clocked.emitted_nothing _ (fun phase m => ?_) s.phase i.moves
  unfold Phase.samples
  split <;> rfl

theorem written_step (sound : s.Sound) :
    s.received i ++ (s.step i).underWay = s.underWay ++ s.written i := by
  obtain ⟨phase, p⟩ := s
  obtain ⟨situation, -, -, -⟩ := sound
  simp only at situation
  cases situation with
  | rest transfer clkfb stb =>
    obtain ⟨-, -, none, notAll, -⟩ := ramp_empty
    rcases moves_low i.moves with ⟨run, writes⟩ | ⟨t, run, writes⟩
    · have low : phaseAt ⟨.low, p⟩ i = .low := by rw [phaseAt, clkfb, run]
      rw [step_eq low]
      simp [received, underWay, written, pport, transfer, none, notAll, stb, clkfb, writes]
    · have high : phaseAt ⟨.low, p⟩ i = .high t false := by rw [phaseAt, clkfb, run]
      rw [step_eq high]
      cases t <;>
        simp [received, underWay, written, pport, transfer, none, notAll, stb, clkfb, writes, Transfer.bytes]
  | rising t k low high transfer clkfb stb latched ck readBusy =>
    have writes := (moves_high_waiting i.moves t).2
    rw [step_eq (phaseAt_rising rfl clkfb)]
    by_cases full : k = 6
    · subst full
      obtain ⟨-, -, -, all⟩ := ramp_full
      cases t <;>
        simp [received, underWay, written, pport, transfer, all, stb, clkfb, writes, dirLine, dataLine,
          Transfer.dir]
    · obtain ⟨-, -, notAll⟩ := ramp_rises ⟨k, by omega⟩
      cases t <;> simp [received, underWay, written, pport, transfer, notAll, stb, clkfb, writes]
  | recognised t transfer clkfb stb latched ck readBusy =>
    -- the byte that was under way is the one the port takes in this clock
    obtain ⟨-, -, -, all⟩ := ramp_full
    rcases phaseAt_top (s := ⟨.high t false, p⟩) (i := i) rfl clkfb with ⟨sampled, high⟩ | low
    · rw [step_eq high, written_up clkfb]
      cases t <;> simp [received, underWay, pport, transfer, all, stb, clkfb]
    · rw [step_eq low, written_up clkfb]
      cases t <;> simp [received, underWay, pport, stb, clkfb]
  | top t sampled transfer clkfb stb dir ck read =>
    obtain ⟨-, -, -, all⟩ := ramp_full
    rcases phaseAt_top (s := ⟨.high t sampled, p⟩) (i := i) rfl clkfb with ⟨sampled', high⟩ | low
    · rw [step_eq high, written_up clkfb]
      cases t <;> simp [received, underWay, pport, transfer, all, stb, clkfb]
    · rw [step_eq low, written_up clkfb]
      cases t <;> simp [received, underWay, pport, stb, clkfb]
  | falling k low high transfer clkfb stb ck read =>
    rw [step_eq (phaseAt_falling rfl clkfb), written_up clkfb]
    simp [received, underWay, pport, stb, clkfb]

/-- A read that has just been recognised finds the waiting byte, or 0xff if there is none. -/
theorem idle_of_stb (sound : s.Sound) (stb : s.port.ppStb = true) (empty : s.port.loaded = false) :
    s.port.ppData = 0xff := by
  obtain ⟨clkfb, -⟩ := clkfb_of_stb sound.situation stb
  simpa [stb, clkfb] using sound.stale empty

/-- A clock in which no read is open: bytes only come in. -/
theorem accepted_step (busy : s.port.loaded = true → s.port.txBusy = true) (after : (s.step i).Sound)
    (quiet : s.sampled i = []) (before : s.unsampled = false) (kept : (s.port.ppStb && !s.port.stbPpDir) = false)
    (fresh : (s.step i).unsampled = true → (s.step i).port.ppStb = true) :
    (s.sampled i).filter (· != 0xff) ++ (s.step i).waiting = s.waiting ++ s.accepted i ∧
      s.sampled i ++ (s.step i).owed = s.owed ++ (s.recognised i).map (·.getD 0xff) := by
  have loaded : (s.step i).port.loaded = ((i.txWr && !s.port.txBusy) || s.port.loaded) := by
    simp only [step, pport, kept]
    cases i.txWr && !s.port.txBusy <;> simp
  have data : (s.step i).port.ppData =
      if s.port.txBusy then s.port.ppData else if i.txWr then i.txData else 0xff := by
    simp only [step, pport]
    cases s.port.txBusy <;> simp
  constructor
  · rw [quiet, waiting, waiting, accepted, before]
    -- a byte enters only while nothing is loaded, and 0xff stands for none
    cases full : s.port.loaded with
    | true => simp [loaded, data, full, busy full]
    | false =>
      cases accept : i.txWr && !s.port.txBusy with
      | true =>
        obtain ⟨wr, free⟩ : i.txWr = true ∧ s.port.txBusy = false := by simpa using accept
        simp [loaded, data, wr, free]
      | false =>
        have empty : (s.step i).port.loaded = false := by rw [loaded, accept, full]; rfl
        have idle : (s.step i).unsampled = true → (s.step i).port.ppData = 0xff#8 :=
          fun up => idle_of_stb after (fresh up) empty
        simpa [empty] using idle
  · rw [quiet, owed, owed, recognised, before, kept]
    cases up : (s.step i).unsampled with
    | false => simp
    | true => simp [fresh up]

/-- A clock of a read that has been recognised. -/
theorem read_step {sampled : Bool} (sound : s.Sound) (phase : s.phase = .high .read sampled)
    (transfer : s.port.ppClkTransfer = ramp 6) (clkfb : s.port.ppClkfb = true)
    (dir : s.port.stbPpDir = false) (busy : s.port.txBusy = true)
    (open_ : s.port.ppStb = true ∧ sampled = false ∨ s.port.ppStb = false ∧ s.port.loaded = false) :
    (s.sampled i).filter (· != 0xff) ++ (s.step i).waiting = s.waiting ++ s.accepted i ∧
      s.sampled i ++ (s.step i).owed = s.owed ++ (s.recognised i).map (·.getD 0xff) := by
  have loaded : (s.step i).port.loaded = false := by
    rcases open_ with ⟨stb, -⟩ | ⟨-, empty⟩
    · simp [step, pport, busy, stb, dir]
    · simp [step, pport, busy, empty]
  have data : (s.step i).port.ppData = s.port.ppData := by simp [step, pport, busy]
  have up : (s.step i).port.ppClkfb = true ∧ (s.step i).port.ppStb = false := by
    simp [step, pport, transfer, ramp_full.2.2.2, clkfb]
  have next : (s.step i).phase = s.phaseAt i := rfl
  have quiet : s.accepted i = [] := by simp [accepted, busy]
  rw [quiet, List.append_nil]
  cases sampled with
  | true =>
    obtain ⟨stb, empty⟩ : s.port.ppStb = false ∧ s.port.loaded = false := by simpa using open_
    obtain ⟨run, samples⟩ := moves_sampled i.moves s.port.ppData
    have now : s.sampled i = [] := by rw [Link.sampled, phase, clkfb, samples]
    have later : (s.step i).unsampled = false := by
      rcases run with run | run <;> simp [unsampled, next, phaseAt, phase, clkfb, run]
    have before : s.unsampled = false := by simp [unsampled, phase]
    simp [waiting, owed, recognised, now, later, before, loaded, empty, stb]
  | false =>
    have before : s.unsampled = true := by simp [unsampled, phase, clkfb]
    -- what waits is the byte on the lines, and a sample of it is due
    have wait : s.waiting = [s.port.ppData].filter (· != 0xff) := by
      cases full : s.port.loaded with
      | true =>
        have some : (s.port.ppData != 0xff#8) = true := by simpa using sound.data full
        simp [waiting, full, some]
      | false => cases idle : s.port.ppData != 0xff#8 <;> simp [waiting, full, before, idle]
    have due : s.owed ++ (s.recognised i).map (·.getD 0xff) = [s.port.ppData] := by
      rcases open_ with ⟨stb, -⟩ | ⟨stb, -⟩
      · cases idle : s.port.ppData != 0xff#8 with
        | true => simp [owed, recognised, stb, dir, wait, idle]
        | false =>
          have same : s.port.ppData = 0xff#8 := by simpa using idle
          simp [owed, recognised, stb, dir, wait, same]
      · simp [owed, recognised, stb, before]
    rcases moves_read i.moves s.port.ppData with ⟨run, samples⟩ | ⟨run, samples⟩
    · have now : s.sampled i = [] := by rw [Link.sampled, phase, clkfb, samples]
      have later : (s.step i).unsampled = true := by
        simp [unsampled, next, phaseAt, phase, clkfb, run, up.1]
      rw [wait, due, now]
      cases idle : s.port.ppData != 0xff#8 <;> simp [waiting, owed, later, loaded, data, up.2, idle]
    · have now : s.sampled i = [s.port.ppData] := by rw [Link.sampled, phase, clkfb, samples]
      have later : (s.step i).unsampled = false := by
        rcases run with run | run <;> simp [unsampled, next, phaseAt, phase, clkfb, run]
      rw [wait, due, now]
      simp [waiting, owed, later, loaded]

/-- The byte that waits is not 0xff. -/
theorem recognised_byte (sound : s.Sound) : ∀ r ∈ s.recognised i, r ≠ some 0xff := by
  intro r member
  have value : r = s.waiting.head? := by
    simp only [recognised] at member
    split at member
    · simpa using member
    · simp at member
  rw [value, waiting]
  cases full : s.port.loaded with
  | true =>
    have some : s.port.ppData ≠ 0xff#8 := sound.data full
    simpa using some
  | false => cases open_ : s.unsampled <;> by_cases idle : s.port.ppData = 0xff#8 <;> simp [idle]

theorem sampled_step (sound : s.Sound) (transmits : s.Transmits i) :
    (s.sampled i).filter (· != 0xff) ++ (s.step i).waiting = s.waiting ++ s.accepted i ∧
      s.sampled i ++ (s.step i).owed = s.owed ++ (s.recognised i).map (·.getD 0xff) := by
  have after := sound_step sound transmits
  have all := sound
  obtain ⟨phase, p⟩ := s
  obtain ⟨situation, busy, -, -⟩ := sound
  simp only at situation busy
  cases situation with
  | rest transfer clkfb stb =>
    refine accepted_step busy after (sampled_down clkfb) (by simp [unsampled]) (by simp [stb]) fun up => ?_
    obtain ⟨-, -, none, notAll, -⟩ := ramp_empty
    simp [unsampled, step, pport, transfer, none, notAll] at up
  | rising t k low high transfer clkfb stb latched ck readBusy =>
    refine accepted_step busy after (sampled_down clkfb) (by simp [unsampled, clkfb]) (by simp [stb]) fun up => ?_
    -- the feedback clock comes up together with the strobe
    cases all : allSet p.ppClkTransfer with
    | true => simp [step, pport, all, clkfb]
    | false => simp [unsampled, step, pport, all, clkfb] at up
  | recognised t transfer clkfb stb latched ck readBusy =>
    cases t with
    | read => exact read_step all rfl transfer clkfb latched.1 (readBusy rfl) (.inl ⟨stb, rfl⟩)
    | write byte =>
      obtain ⟨run, samples⟩ := moves_write i.moves p.ppData byte false
      refine accepted_step busy after ?_ (by simp [unsampled]) ?_ fun up => ?_
      · rw [Link.sampled, clkfb, samples]
      · simp [latched.1, Transfer.dir]
      · rcases run with run | run <;> simp [unsampled, step, phaseAt, clkfb, run] at up
  | top t sampled transfer clkfb stb dir ck read =>
    cases t with
    | read => exact read_step all rfl transfer clkfb dir (read rfl).1 (.inr ⟨stb, (read rfl).2⟩)
    | write byte =>
      obtain ⟨run, samples⟩ := moves_write i.moves p.ppData byte sampled
      refine accepted_step busy after ?_ (by simp [unsampled]) (by simp [stb]) fun up => ?_
      · rw [Link.sampled, clkfb, samples]
      · rcases run with run | run <;> simp [unsampled, step, phaseAt, clkfb, run] at up
  | falling k low high transfer clkfb stb ck read =>
    obtain ⟨run, samples⟩ := moves_low_waiting i.moves p.ppData
    refine accepted_step busy after ?_ (by simp [unsampled]) (by simp [stb]) fun up => ?_
    · rw [Link.sampled, clkfb, samples]
    · simp [unsampled, step, phaseAt, clkfb, run] at up

end Channels

/-- The link at power-up, the host's clock low. -/
def start (p : Pport) : Link := ⟨.low, p⟩

theorem start_sound {p : Pport} (power : PowerUp p) : (start p).Sound where
  situation := .rest power.transfer power.clkfb power.stb
  busy loaded := by simp [start, power.loaded] at loaded
  data loaded := by simp [start, power.loaded] at loaded
  stale _ := .inl power.data

/-- Along every run from power-up: the writes of the host are received, each once and in order;
the bytes it samples, without 0xff, are the bytes accepted on the transmit side; and a sample is
0xff only if no accepted byte was waiting when its read was recognised. -/
theorem link_faithful (p : Pport) (power : PowerUp p) (is : List LinkIn)
    (transmits : Clocked.Always step Transmits (start p) is) :
    let final := Clocked.run step (start p) is
    let samples := Clocked.emitted step sampled (start p) is
    Clocked.emitted step received (start p) is ++ final.underWay =
      Clocked.emitted step written (start p) is ∧
    samples.filter (· != 0xff) ++ final.waiting = Clocked.emitted step accepted (start p) is ∧
    samples ++ final.owed = (Clocked.emitted step recognised (start p) is).map (·.getD 0xff) ∧
    ∀ r ∈ Clocked.emitted step recognised (start p) is, r ≠ some 0xff := by
  intro final samples
  have sound := start_sound power
  have keeps (s : Link) (i : LinkIn) (sound : s.Sound) (ok : s.Transmits i) : (s.step i).Sound :=
    sound_step sound ok
  refine ⟨?_, ?_, ?_, Clocked.emitted_forall keeps (fun s i sound _ => recognised_byte sound) sound transmits⟩
  · have run := Clocked.conservation keeps (fun s i sound _ => written_step sound) sound transmits
    have idle : (start p).underWay = [] := by simp [start, underWay, power.rx, power.stb]
    simpa [idle] using run
  · have run := Clocked.conservation keeps (fun s i sound ok => (sampled_step sound ok).1) sound transmits
    have idle : (start p).waiting = [] := by simp [start, waiting, unsampled, power.loaded]
    have filtered : samples.filter (· != 0xff) =
        Clocked.emitted step (fun s i => (s.sampled i).filter (· != 0xff)) (start p) is :=
      Clocked.emitted_hom (f := fun l => l.filter (· != 0xff)) rfl (fun _ _ => List.filter_append ..) ..
    rw [filtered, run, idle, List.nil_append]
  · have run := Clocked.conservation keeps (fun s i sound ok => (sampled_step sound ok).2) sound transmits
    have idle : (start p).owed = [] := by simp [start, owed, unsampled]
    have mapped : (Clocked.emitted step recognised (start p) is).map (·.getD 0xff) =
        Clocked.emitted step (fun s i => (s.recognised i).map (·.getD 0xff)) (start p) is :=
      Clocked.emitted_hom (f := List.map fun b : Option (BitVec 8) => b.getD 0xff) rfl (fun _ _ => List.map_append) ..
    rw [mapped, run, idle, List.nil_append]

def powerUpPort : Pport := ⟨false, 0, false, 0xff, false, false, false, false, 0, 0, false⟩

/-- A clock in which the host makes some moves and nothing is to be transmitted. -/
def clock (moves : List Move) : LinkIn := ⟨moves, false, 0, false, 0⟩

/-- A byte is transmitted, then the host writes one, reads one, and finds nothing more to read. -/
theorem link_write_read_read :
    let waits := List.replicate 8 (clock [])
    let is := { clock [] with txWr := true, txData := 0x41 } ::
      (clock [.raise (.write 0x52)] :: waits ++ clock [.lower] :: waits ++ clock [.raise .read] :: waits ++
        clock [.sample, .lower] :: waits ++ clock [.raise .read] :: waits ++ [clock [.sample, .lower]])
    let final := Clocked.run step (start powerUpPort) is
    let samples := Clocked.emitted step sampled (start powerUpPort) is
    Clocked.emitted step received (start powerUpPort) is ++ final.underWay = [0x52] ∧
    samples.filter (· != 0xff) ++ final.waiting = [0x41] ∧ samples ++ final.owed = [0x41, 0xff] := by
  intro waits is final samples
  have power : PowerUp powerUpPort := ⟨rfl, rfl, rfl, rfl, rfl, rfl, rfl⟩
  obtain ⟨writes, reads, found, -⟩ := link_faithful powerUpPort power is (by decide)
  exact ⟨writes.trans (by decide), reads.trans (by decide), found.trans (by decide)⟩

end Link

end IcoZip.Port
