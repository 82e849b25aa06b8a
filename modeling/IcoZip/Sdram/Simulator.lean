import IcoZip.Sdram.Controller

/-! The memory simulator `SDRAMSIM`, powered up.

A call is a beat, which advances the banks, the second half of a write and the
queue of read data, and a command. A failed assertion on a command, or the exit
that follows one, is a failure. The timers of the refresh and of open banks,
which no command depends on, are left out.
-/

set_option autoImplicit false

namespace IcoZip.Sdram

structure Simulator where
  mem : BitVec 23 → BitVec 16
  /-- Only the three low bits of `m_bank_status` are ever set. -/
  bankStatus : BitVec 2 → BitVec 3
  bankRow : BitVec 2 → BitVec 12
  qdata : BitVec 4 → BitVec 16
  qloc : BitVec 4
  wrAddr : BitVec 23
  clocksTillIdle : Nat
  nextWr : Bool

namespace Simulator

/-- A bank in the next clock. -/
def shifted (status : BitVec 3) : BitVec 3 :=
  let status := status >>> 1
  if status &&& 2 ≠ 0 then status ||| 4 else status

/-- `memval`: the bytes that are not masked. -/
def memval (old data : BitVec 16) (dqm : BitVec 2) : BitVec 16 :=
  if dqm &&& 3 = 0 then data
  else if dqm &&& 3 = 3 then old
  else if dqm &&& 2 = 0 then (old &&& 0x00ff) ||| (data &&& 0xff00)
  else (old &&& 0xff00) ||| (data &&& 0x00ff)

/-- The part of a call that does not depend on the command, with the result of the call. -/
def beat (m : Simulator) (p : Pins) : Simulator × BitVec 16 :=
  let m := { m with
    bankStatus := fun b => shifted (m.bankStatus b)
    clocksTillIdle := m.clocksTillIdle - 1 }
  let m :=
    if m.clocksTillIdle > 0 ∧ m.nextWr then
      { m with
        mem := Function.update m.mem m.wrAddr (memval (m.mem m.wrAddr) p.data p.dqm)
        wrAddr := m.wrAddr + 1, nextWr := false }
    else m
  let m := { m with qloc := m.qloc + 1 }
  let result := if p.dmod then p.data else m.qdata m.qloc
  ({ m with qdata := Function.update m.qdata m.qloc 0 }, result)

/-- The place of a column in an open row. -/
def place (m : Simulator) (p : Pins) : BitVec 23 := m.bankRow p.bs ++ (p.bs ++ p.addr.extractLsb' 0 9)

/-- A column command with bit 10 set closes its bank. -/
def autoPrecharge (m : Simulator) (p : Pins) : Simulator :=
  if p.addr.getLsbD 10 then { m with bankStatus := Function.update m.bankStatus p.bs (m.bankStatus p.bs &&& 3) } else m

/-- The command on the pins. The first half of a write computes `memval` and stores `data`. -/
def command (m : Simulator) (p : Pins) : Option Simulator :=
  if !p.csN && !p.rasN && !p.casN && p.weN then
    if (m.bankStatus 0 &&& 6 = 0 ∧ m.bankStatus 1 &&& 6 = 0) ∧ m.bankStatus 2 &&& 6 = 0 ∧ m.bankStatus 3 &&& 6 = 0 then
      some m
    else none
  else if !p.csN && !p.rasN && p.casN && !p.weN then
    if p.addr.getLsbD 10 then some { m with bankStatus := fun b => m.bankStatus b &&& 3 }
    else some { m with bankStatus := Function.update m.bankStatus p.bs (m.bankStatus p.bs &&& 3) }
  else if !p.csN && !p.rasN && p.casN && p.weN then
    if m.bankStatus p.bs ≠ 0 then none
    else
      some { m with
        bankStatus := Function.update m.bankStatus p.bs (m.bankStatus p.bs ||| 4)
        bankRow := Function.update m.bankRow p.bs p.addr }
  else if !p.csN && p.rasN && !p.casN then
    if !p.weN then
      if (m.bankStatus p.bs).getLsbD 0 && p.dmod then
        some (autoPrecharge { m with
          mem := Function.update m.mem (m.place p) p.data
          wrAddr := m.place p + 1, clocksTillIdle := 2, nextWr := true } p)
      else none
    else
      if (m.bankStatus p.bs).getLsbD 0 && !p.dmod then
        some (autoPrecharge { m with
          qdata := Function.update (Function.update m.qdata (m.qloc + 3) (m.mem (m.place p)))
            (m.qloc + 4) (m.mem (m.place p + 1))
          clocksTillIdle := 2 } p)
      else none
  else if p.csN then some m
  else if p.rasN && p.casN && p.weN then some m
  else none

/-- One call, with its result. -/
def call (m : Simulator) (p : Pins) : Option (Simulator × BitVec 16) :=
  let (m, result) := m.beat p
  (m.command p).map fun m => (m, result)

/-! ### The commands, one by one -/

section
variable {m : Simulator} {p : Pins}

theorem command_noop (idle : p.csN = true ∨ p.rasN = true ∧ p.casN = true ∧ p.weN = true) :
    m.command p = some m := by
  rcases idle with csN | ⟨rasN, casN, weN⟩
  · simp [command, csN]
  · simp [command, rasN, casN, weN]

theorem command_refresh (csN : p.csN = false) (rasN : p.rasN = false) (casN : p.casN = false) (weN : p.weN = true)
    (closed : ∀ b, m.bankStatus b &&& 6 = 0) : m.command p = some m := by
  simp only [command, csN, rasN, casN, weN, Bool.not_false, Bool.and_self, if_true]
  exact if_pos ⟨⟨closed 0, closed 1⟩, closed 2, closed 3⟩

theorem command_prechargeAll (csN : p.csN = false) (rasN : p.rasN = false) (casN : p.casN = true)
    (weN : p.weN = false) (all : p.addr.getLsbD 10 = true) :
    m.command p = some { m with bankStatus := fun b => m.bankStatus b &&& 3 } := by
  simp [command, csN, rasN, casN, weN, all]

theorem command_precharge (csN : p.csN = false) (rasN : p.rasN = false) (casN : p.casN = true)
    (weN : p.weN = false) (one : p.addr.getLsbD 10 = false) :
    m.command p = some { m with bankStatus := Function.update m.bankStatus p.bs (m.bankStatus p.bs &&& 3) } := by
  simp [command, csN, rasN, casN, weN, one, -BitVec.getLsbD_eq_getElem]

theorem command_activate (csN : p.csN = false) (rasN : p.rasN = false) (casN : p.casN = true) (weN : p.weN = true)
    (closed : m.bankStatus p.bs = 0) :
    m.command p = some { m with
      bankStatus := Function.update m.bankStatus p.bs (m.bankStatus p.bs ||| 4)
      bankRow := Function.update m.bankRow p.bs p.addr } := by
  simp [command, csN, rasN, casN, weN, closed]

theorem command_write (csN : p.csN = false) (rasN : p.rasN = true) (casN : p.casN = false) (weN : p.weN = false)
    (opened : (m.bankStatus p.bs).getLsbD 0 = true) (driven : p.dmod = true) (keep : p.addr.getLsbD 10 = false) :
    m.command p = some { m with
      mem := Function.update m.mem (m.place p) p.data
      wrAddr := m.place p + 1, clocksTillIdle := 2, nextWr := true } := by
  simp [command, csN, rasN, casN, weN, opened, driven, autoPrecharge, keep, -BitVec.getLsbD_eq_getElem]

theorem command_read (csN : p.csN = false) (rasN : p.rasN = true) (casN : p.casN = false) (weN : p.weN = true)
    (opened : (m.bankStatus p.bs).getLsbD 0 = true) (released : p.dmod = false) (keep : p.addr.getLsbD 10 = false) :
    m.command p = some { m with
      qdata := Function.update (Function.update m.qdata (m.qloc + 3) (m.mem (m.place p)))
        (m.qloc + 4) (m.mem (m.place p + 1))
      clocksTillIdle := 2 } := by
  simp [command, csN, rasN, casN, weN, opened, released, autoPrecharge, keep, -BitVec.getLsbD_eq_getElem]

end

end Simulator

end IcoZip.Sdram
