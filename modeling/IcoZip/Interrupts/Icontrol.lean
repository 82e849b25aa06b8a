import IcoZip.Library.Latch

/-! The interrupt controller `icontrol`, for `n` lines (`IUSED`, at most 15) on a bus of 32 bits.

Every bit it keeps is a latch over the clocks there have been: a line is pending from the clock that raises it
until it is cleared, and a line that is raised while it is being cleared stays pending.
-/

set_option autoImplicit false

namespace IcoZip.Interrupts

structure Icontrol (n : Nat) where
  intState : BitVec n
  intEnable : BitVec n
  mie : Bool
  interrupt : Bool
  wbData : BitVec 32
  deriving DecidableEq, Repr

namespace Icontrol

structure Inputs (n : Nat) where
  reset : Bool
  wbStb : Bool
  wbWe : Bool
  wbData : BitVec 32
  brdInts : BitVec n
  deriving DecidableEq, Repr

variable {n : Nat}

namespace Inputs
variable (i : Inputs n)

def wbWrite : Bool := i.wbStb && i.wbWe
def enableInts : Bool := i.wbWrite && i.wbData.getLsbD 15
def disableInts : Bool := i.wbWrite && !i.wbData.getLsbD 15
def wbAck : Bool := i.wbStb

end Inputs

def powerUp : Icontrol n := ⟨0, 0, false, false, 0⟩

variable (s : Icontrol n) (i : Inputs n)

def any : Bool := s.intState &&& s.intEnable != 0

def clock : Icontrol n where
  intState :=
    if i.reset then 0
    else if i.wbWrite then i.brdInts ||| (s.intState &&& ~~~i.wbData.extractLsb' 0 n)
    else s.intState ||| i.brdInts
  intEnable :=
    if i.reset then 0
    else if i.enableInts then s.intEnable ||| i.wbData.extractLsb' 16 n
    else if i.disableInts then s.intEnable &&& ~~~i.wbData.extractLsb' 16 n
    else s.intEnable
  mie :=
    if i.reset then false
    else if i.enableInts && i.wbData.getLsbD 31 then true
    else if i.disableInts && i.wbData.getLsbD 31 then false
    else s.mie
  interrupt := if i.reset then false else s.mie && s.any
  wbData := BitVec.ofBool s.mie ++ s.intEnable.setWidth 15 ++ BitVec.ofBool s.any ++ s.intState.setWidth 15

/-! ### What one clock does to a bit -/

namespace Inputs
variable (k : Nat)

def Raises : Prop := i.reset = false ∧ i.brdInts.getLsbD k = true
def Acknowledges : Prop := i.reset = true ∨ i.wbWrite = true ∧ i.wbData.getLsbD k = true
def Enables : Prop := i.reset = false ∧ i.enableInts = true ∧ i.wbData.getLsbD k = true
def Disables : Prop := i.reset = true ∨ i.disableInts = true ∧ i.wbData.getLsbD k = true

end Inputs

variable {s i}

theorem pending_clock {k : Nat} (used : k < n) :
    (s.clock i).intState.getLsbD k = true ↔ i.Raises k ∨ ¬i.Acknowledges k ∧ s.intState.getLsbD k = true := by
  cases reset : i.reset with
  | true => simp [clock, reset, Inputs.Raises, Inputs.Acknowledges]
  | false =>
    cases write : i.wbWrite with
    | true => simp [clock, reset, write, Inputs.Raises, Inputs.Acknowledges, used, and_comm]
    | false => simp [clock, reset, write, Inputs.Raises, Inputs.Acknowledges, or_comm]

/-- A clock writes bits to be set, or bits to be cleared, or none. -/
theorem Inputs.writes (i : Inputs n) :
    i.enableInts = true ∧ i.disableInts = false ∨ i.enableInts = false ∧ i.disableInts = true ∨
      i.enableInts = false ∧ i.disableInts = false := by
  rw [enableInts, disableInts]
  cases i.wbWrite <;> cases i.wbData.getLsbD 15 <;> decide

theorem enabled_clock {k : Nat} (used : k < n) :
    (s.clock i).intEnable.getLsbD k = true ↔
      i.Enables (16 + k) ∨ ¬i.Disables (16 + k) ∧ s.intEnable.getLsbD k = true := by
  cases reset : i.reset with
  | true => simp [clock, reset, Inputs.Enables, Inputs.Disables]
  | false =>
    -- Bit 15 tells whether the bits that are written are to be set or to be cleared.
    rcases i.writes with ⟨sets, clears⟩ | ⟨sets, clears⟩ | ⟨sets, clears⟩
    · simp [clock, reset, sets, clears, Inputs.Enables, Inputs.Disables, used, or_comm]
    · simp [clock, reset, sets, clears, Inputs.Enables, Inputs.Disables, used, and_comm]
    · simp [clock, reset, sets, clears, Inputs.Enables, Inputs.Disables]

theorem mie_clock : (s.clock i).mie = true ↔ i.Enables 31 ∨ ¬i.Disables 31 ∧ s.mie = true := by
  cases reset : i.reset with
  | true => simp [clock, reset, Inputs.Enables, Inputs.Disables]
  | false =>
    rcases i.writes with ⟨sets, clears⟩ | ⟨sets, clears⟩ | ⟨sets, clears⟩
    · simp [clock, reset, sets, clears, Inputs.Enables, Inputs.Disables, or_comm]
    · simp [clock, reset, sets, clears, Inputs.Enables, Inputs.Disables, and_comm]
    · simp [clock, reset, sets, clears, Inputs.Enables, Inputs.Disables]

theorem any_iff : s.any = true ↔ ∃ k < n, s.intEnable.getLsbD k = true ∧ s.intState.getLsbD k = true := by
  rw [any, bne_iff_ne, Ne, BitVec.eq_of_getLsbD_eq_iff]
  simp [and_comm]

/-! ### Latches -/

section
variable (k : Nat) (log : List (Inputs n))

/-- The line has been raised and not been acknowledged since. -/
def Pending : Prop := Latch.Stands (fun i _ => i.Raises k) (·.Acknowledges k) log

def Enabled : Prop := Latch.Stands (fun i _ => i.Enables (16 + k)) (·.Disables (16 + k)) log

/-- Interrupts are enabled as a whole. -/
def MasterEnabled : Prop := Latch.Stands (fun i _ => i.Enables 31) (·.Disables 31) log

end

/-- Every bit is the latch that the clocks there have been, the last one first, have made of it. -/
structure Latched (s : Icontrol n) (log : List (Inputs n)) : Prop where
  pending : ∀ k < n, s.intState.getLsbD k = true ↔ Pending k log
  enabled : ∀ k < n, s.intEnable.getLsbD k = true ↔ Enabled k log
  mie : s.mie = true ↔ MasterEnabled log

theorem latched_powerUp : (powerUp : Icontrol n).Latched [] where
  pending k _ := by simp [powerUp, Pending, Latch.stands_nil]
  enabled k _ := by simp [powerUp, Enabled, Latch.stands_nil]
  mie := by simp [powerUp, MasterEnabled, Latch.stands_nil]

theorem Latched.next {log : List (Inputs n)} (latched : s.Latched log) : (s.clock i).Latched (i :: log) where
  pending k used := by rw [pending_clock used, latched.pending k used, Pending, Pending, Latch.stands_cons]
  enabled k used := by rw [enabled_clock used, latched.enabled k used, Enabled, Enabled, Latch.stands_cons]
  mie := by rw [mie_clock, latched.mie, MasterEnabled, MasterEnabled, Latch.stands_cons]

/-- An interrupt is given one clock after it is due. -/
theorem Latched.interrupt_next {log : List (Inputs n)} (latched : s.Latched log) (reset : i.reset = false) :
    (s.clock i).interrupt = true ↔ MasterEnabled log ∧ ∃ k < n, Enabled k log ∧ Pending k log := by
  have given : (s.clock i).interrupt = (s.mie && s.any) := by simp [clock, reset]
  rw [given, Bool.and_eq_true, latched.mie, any_iff]
  constructor
  · rintro ⟨master, k, used, enabled, pending⟩
    exact ⟨master, k, used, (latched.enabled k used).mp enabled, (latched.pending k used).mp pending⟩
  · rintro ⟨master, k, used, enabled, pending⟩
    exact ⟨master, k, used, (latched.enabled k used).mpr enabled, (latched.pending k used).mpr pending⟩

end Icontrol

end IcoZip.Interrupts
