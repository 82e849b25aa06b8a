import IcoZip.Sdram.Commands
import IcoZip.Sdram.Startup

/-! The memory chip as it sees the pins: which banks are open and at which row,
now and a clock ago.

Every command of the controller is one that the chip may be given, and the table
of the controller is the state of the chip.
-/

set_option autoImplicit false

namespace IcoZip.Sdram

/-- What the pins tell the chip. -/
inductive Order where
  | nop
  | modeSet
  | refresh
  | prechargeAll
  | precharge (bs : BitVec 2)
  | activate (bs : BitVec 2) (row : BitVec 12)
  | read (bs : BitVec 2) (addr : BitVec 12)
  | write (bs : BitVec 2) (addr : BitVec 12)
  | unknown
  deriving DecidableEq, Repr

def Pins.order (p : Pins) : Order :=
  if p.csN then .nop
  else
    match p.rasN, p.casN, p.weN with
    | true, true, true => .nop
    | true, true, false => .unknown
    | true, false, true => .read p.bs p.addr
    | true, false, false => .write p.bs p.addr
    | false, true, true => .activate p.bs p.addr
    | false, true, false => if p.addr.getLsbD 10 then .prechargeAll else .precharge p.bs
    | false, false, true => .refresh
    | false, false, false => .modeSet

structure Chip where
  opened : BitVec 2 → Bool
  /-- Whether a bank was open a clock ago. -/
  before : BitVec 2 → Bool
  rows : BitVec 2 → BitVec 12
  /-- A write is in its second beat. -/
  writing : Bool

namespace Chip

/-- Every bank is closed and has been for long. -/
def idle (rows : BitVec 2 → BitVec 12) : Chip := ⟨fun _ => false, fun _ => false, rows, false⟩

/-- A clock with these pins. -/
def after (c : Chip) (order : Order) : Chip where
  opened :=
    match order with
    | .prechargeAll => fun _ => false
    | .precharge bs => Function.update c.opened bs false
    | .activate bs _ => Function.update c.opened bs true
    | _ => c.opened
  before := c.opened
  rows :=
    match order with
    | .activate bs row => Function.update c.rows bs row
    | _ => c.rows
  writing :=
    match order with
    | .write _ _ => true
    | _ => false

/-- The bank and the column are those of a request, and the bank has been open at its row for two clocks. -/
def Reaches (c : Chip) (s : Wbsdram) (bs : BitVec 2) (addr : BitVec 12) : Prop :=
  (bs = bank s.rAddr ∧ addr = 0#4 ++ (column s.rAddr ++ 0#1)) ∧
    (c.opened bs = true ∧ c.before bs = true) ∧ c.rows bs = row s.rAddr ∧ s.bankRow bs = row s.rAddr

/-- What the chip may be given while the request registers are those of `s`. -/
def Legal (c : Chip) (s : Wbsdram) : Order → Prop
  | .nop => True
  | .modeSet | .unknown => False
  | .refresh => ∀ b, c.opened b = false
  | .prechargeAll => c.writing = false ∧ ∀ b, c.opened b = true → c.before b = true
  | .precharge bs => c.writing = false ∧ c.opened bs = true ∧ c.before bs = true
  | .activate bs _ => c.opened bs = false ∧ c.before bs = false
  | .read bs addr => s.rWe = false ∧ c.Reaches s bs addr
  | .write bs addr => s.rWe = true ∧ c.Reaches s bs addr

/-- The bank table of the controller is the state of the chip. -/
structure Agrees (c : Chip) (s : Wbsdram) : Prop where
  opened : ∀ b, c.opened b = (s.bankActive b).getLsbD 2
  rows : c.rows = s.bankRow

end Chip

/-- What ties the chip to the registers of the controller, from clock to clock. -/
structure Follows (s : Wbsdram) (c : Chip) : Prop where
  agrees : c.Agrees s
  before : ∀ b, c.before b = (s.bankActive b).getLsbD 1
  writing : c.writing = s.nxtDmod
  valid : s.Valid

/-! ### One clock -/

namespace Wbsdram

theorem order_pins' (s : Wbsdram) (i : Wb) (cmd : Command) :
    (s.pins' i cmd).order =
      match cmd with
      | .noop => .nop
      | .prechargeAll => .prechargeAll
      | .refresh => .refresh
      | .activate bs row => .activate bs row
      | .precharge bs => .precharge bs
      | .read => .read s.rBs (0#4 ++ (column s.rAddr ++ 0#1))
      | .write => .write s.rBs (0#4 ++ (column s.rAddr ++ 0#1)) := by
  cases cmd with
  | noop => cases cyc : i.cyc <;> simp [pins', Pins.order, cyc]
  | prechargeAll =>
    have all : (s.pins' i .prechargeAll).addr.getLsbD 10 = true := a10_bit s.pins.addr 1
    simp only [Pins.order, all]
    rfl
  | refresh => rfl
  | activate bs row => rfl
  | precharge bs =>
    have one : (s.pins' i (.precharge bs)).addr.getLsbD 10 = false := a10_bit s.pins.addr 0
    simp only [Pins.order, one]
    rfl
  | read => rfl
  | write => rfl

end Wbsdram

namespace Follows

variable {s : Wbsdram} {c : Chip}

theorem reaches (follows : Follows s c) (stall : s.stall = true) (found : s.rBankValid = true)
    (active : (s.bankActive s.rBs).getLsbD 2 = true) {i : Wb} {x : BitVec 16} {cmd : Command}
    (given : s.command i = cmd)
    (guard : s.Guard i cmd) : c.Reaches (s.step i x) s.rBs (0#4 ++ (column s.rAddr ++ 0#1)) := by
  obtain ⟨second, row⟩ := follows.valid found active
  obtain ⟨-, addr, -⟩ := Wbsdram.step_held stall i x
  have opened : c.opened s.rBs = true := (follows.agrees.opened _).trans active
  have rows : c.rows s.rBs = s.rRow := (congrFun follows.agrees.rows _).trans row
  refine ⟨?_, ⟨opened, (follows.before _).trans second⟩, ?_, ?_⟩
  · rw [addr]
    exact ⟨rfl, rfl⟩
  · rw [addr]
    exact rows
  · rw [addr, Wbsdram.step_bankRow guard given active]
    exact row

/-- What the controller gives next is legal. -/
theorem legal (follows : Follows s c) (i : Wb) (x : BitVec 16) : c.Legal (s.step i x) (s.step i x).pins.order := by
  have guard := Wbsdram.guard_command s i
  generalize given : s.command i = cmd at guard
  have pins : (s.step i x).pins = s.pins' i cmd := by rw [← given]; rfl
  rw [pins, Wbsdram.order_pins']
  have still (dmod : s.nxtDmod = false) : c.writing = false := follows.writing.trans dmod
  cases cmd with
  | noop => trivial
  | prechargeAll =>
    refine ⟨still guard.1.dmod, fun b opened => ?_⟩
    rw [follows.before]
    exact guard.2.1 b ((follows.agrees.opened b).symm.trans opened)
  | refresh =>
    intro b
    rw [follows.agrees.opened, guard.2.2]
    rfl
  | activate bs row =>
    refine ⟨?_, ?_⟩
    · rw [follows.agrees.opened, guard.2.1]
      rfl
    · rw [follows.before, guard.2.1]
      rfl
  | precharge bs =>
    obtain ⟨serving, active, second⟩ := guard
    exact ⟨still serving.dmod, (follows.agrees.opened bs).trans active, (follows.before bs).trans second⟩
  | read =>
    obtain ⟨⟨-, stall⟩, we, active, found, -⟩ := id guard
    exact ⟨(Wbsdram.step_held stall i x).1.trans we, follows.reaches stall found active given guard⟩
  | write =>
    obtain ⟨⟨-, stall⟩, we, active, found, -⟩ := id guard
    exact ⟨(Wbsdram.step_held stall i x).1.trans we, follows.reaches stall found active given guard⟩

theorem step (follows : Follows s c) (i : Wb) (x : BitVec 16) :
    Follows (s.step i x) (c.after (s.step i x).pins.order) := by
  have guard := Wbsdram.guard_command s i
  generalize given : s.command i = cmd at guard
  have pins : (s.step i x).pins = s.pins' i cmd := by rw [← given]; rfl
  have active (b : BitVec 2) : (s.step i x).bankActive b = s.bankActive' cmd b := by rw [← given]; rfl
  rw [pins]
  have table := follows.agrees.opened
  have opened (b : BitVec 2) : (c.after (s.pins' i cmd).order).opened b = (s.bankActive' cmd b).getLsbD 2 := by
    rw [Wbsdram.order_pins', Wbsdram.bankActive'_top]
    cases cmd <;> simp [Chip.after, table, Function.update_apply]
  refine ⟨⟨fun b => ?_, ?_⟩, fun b => ?_, ?_, Wbsdram.valid_step i x⟩
  · rw [opened, active]
  · rw [Wbsdram.order_pins']
    simp only [Wbsdram.step, given, ← follows.agrees.rows]
    cases cmd <;> rfl
  · rw [active, Wbsdram.bankActive'_second]
    exact table b
  · rw [Wbsdram.order_pins']
    simp only [Wbsdram.step, given]
    cases cmd <;> rfl

end Follows

/-! ### From power-up -/

/-- The chip beside the controller. -/
def followed (x : Powered × Chip) (i : Inputs) : Powered × Chip :=
  let s := x.1.step i
  (s, x.2.after s.core.pins.order)

/-- During start-up no bank is opened. -/
structure Asleep (s : Wbsdram) (c : Chip) : Prop where
  opened : ∀ b, c.opened b = false
  before : ∀ b, c.before b = false
  writing : c.writing = false
  rows : c.rows = s.bankRow

theorem Asleep.after {s : Wbsdram} {c : Chip} (asleep : Asleep s c) {p : Pins}
    (orders : p.rasN = true ∧ p.casN = true ∨ p.rasN = false ∧ (p.casN = false ∨ p.weN = false)) :
    Asleep s (c.after p.order) := by
  have shape : (∀ b, (c.after p.order).opened b = false) ∧ (c.after p.order).writing = false ∧
      (c.after p.order).rows = c.rows := by
    cases csN : p.csN with
    | true => simp [Pins.order, csN, Chip.after, asleep.opened]
    | false =>
      rcases orders with ⟨ras, cas⟩ | ⟨ras, cas | we⟩
      · cases we : p.weN <;> simp [Pins.order, csN, ras, cas, we, Chip.after, asleep.opened]
      · cases we : p.weN <;> simp [Pins.order, csN, ras, cas, we, Chip.after, asleep.opened]
      · cases cas : p.casN with
        | false => simp [Pins.order, csN, ras, cas, we, Chip.after, asleep.opened]
        | true =>
          cases all : p.addr.getLsbD 10 <;>
            simp [Pins.order, csN, ras, cas, we, all, Chip.after, asleep.opened, Function.update_apply,
              -BitVec.getLsbD_eq_getElem]
  exact ⟨shape.1, asleep.opened, shape.2.1, shape.2.2.trans asleep.rows⟩

theorem Asleep.follows {s : Wbsdram} {c : Chip} (asleep : Asleep s c) (quiet : Quiet s) : Follows s c := by
  refine ⟨⟨fun b => ?_, asleep.rows⟩, fun b => ?_, ?_, fun found => ?_⟩
  · rw [asleep.opened, quiet.bankActive]
    rfl
  · rw [asleep.before, quiet.bankActive]
    rfl
  · rw [asleep.writing, quiet.nxtDmod]
  · rw [quiet.rBankValid] at found
    exact absurd found (by decide)

theorem followed_invariant (r : Wbsdram) (is : List Inputs) :
    Staged Follows Asleep (Clocked.run followed (Powered.powerUp r, Chip.idle r.bankRow) is) := by
  have asleep (s : Wbsdram) (i : Inputs) (m : Maintenance) (c : Chip) (on : m.maintenanceMode = true)
      (orderly : m.Orderly) (_ : Quiet s) (asleep : Asleep s c) :
      Asleep (s.maintain i.1 i.2 m) (c.after (Powered.step ⟨s, m⟩ i).core.pins.order) := by
    simp only [Powered.step, on, if_true]
    obtain ⟨opened, before, writing, rows⟩ := asleep.after (p := (s.maintain i.1 i.2 m).pins) orderly.access
    exact ⟨opened, before, writing, rows⟩
  have kept (s : Wbsdram) (i : Inputs) (m : Maintenance) (c : Chip) (off : m.maintenanceMode = false)
      (follows : Follows s c) : Follows (s.step i.1 i.2) (c.after (Powered.step ⟨s, m⟩ i).core.pins.order) := by
    simp only [Powered.step, off, Bool.false_eq_true, if_false]
    exact follows.step i.1 i.2
  exact @powered_invariant Chip (fun s i c => c.after (s.step i).core.pins.order) Follows Asleep asleep
    (fun _ _ quiet _ asleep => asleep.follows quiet) kept r (Chip.idle r.bankRow)
    ⟨fun _ => rfl, fun _ => rfl, rfl, rfl⟩ is

/-- Once maintenance has ended, whatever the bus does, every command on the pins is one the chip may be
given, and the bank table agrees with the chip. -/
theorem commands_legal (r : Wbsdram) (is : List Inputs) (i : Inputs)
    (ended : ((Clocked.run followed (Powered.powerUp r, Chip.idle r.bankRow) is).1.step i).maintenance.maintenanceMode
      = false) :
    let x := Clocked.run followed (Powered.powerUp r, Chip.idle r.bankRow) is
    let s := (x.1.step i).core
    x.2.Legal s s.pins.order ∧ (x.2.after s.pins.order).Agrees s := by
  have inv := followed_invariant r is
  generalize Clocked.run followed (Powered.powerUp r, Chip.idle r.bankRow) is = x at ended inv ⊢
  obtain ⟨⟨s, m⟩, c⟩ := x
  obtain ⟨orderly, inv⟩ := inv
  cases on : m.maintenanceMode with
  | true =>
    simp only [on, if_true] at inv
    -- maintenance ends with this clock, and leaves the chip unselected
    have off : m.mCsN = true := orderly.off_of_ended on ended
    have order : (s.maintain i.1 i.2 m).pins.order = .nop := by simp [Pins.order, Wbsdram.maintain, off]
    obtain ⟨opened, before, writing, rows⟩ := inv.2.after (p := (s.maintain i.1 i.2 m).pins) orderly.access
    have asleep : Asleep (s.maintain i.1 i.2 m) (c.after (s.maintain i.1 i.2 m).pins.order) :=
      ⟨opened, before, writing, rows⟩
    simp only [Powered.step, on, if_true]
    refine ⟨?_, (asleep.follows (inv.1.maintain i.1 i.2 orderly)).agrees⟩
    rw [order]
    trivial
  | false =>
    simp only [on, Bool.false_eq_true, if_false] at inv
    simp only [Powered.step, on, Bool.false_eq_true, if_false]
    exact ⟨inv.legal i.1 i.2, (inv.step i.1 i.2).agrees⟩

theorem followed_fst (s : Powered) (c : Chip) (is : List Inputs) :
    (Clocked.run followed (s, c) is).1 = Clocked.run Powered.step s is :=
  Clocked.run_fst Powered.step (fun (s : Powered) i (c : Chip) => c.after (s.step i).core.pins.order) s c is

/-- A read request, up to the clock before its command. -/
def reading : List Inputs := (⟨true, true, false, 0x1234, 0, 0xf⟩, 0) :: List.replicate 2 hold

theorem commands_legal_reading :
    let x := Clocked.run followed (Powered.powerUp blank, Chip.idle blank.bankRow) (awake ++ reading)
    let s := (x.1.step hold).core
    s.pins.order = .read 0 0x068 ∧ x.2.Legal s s.pins.order ∧ (x.2.after s.pins.order).Agrees s := by
  have run : (Clocked.run followed (Powered.powerUp blank, Chip.idle blank.bankRow) (awake ++ reading)).1 =
      Clocked.run Powered.step (woken 613) reading := by
    rw [followed_fst, Clocked.run_append, awake_run]
  refine ⟨?_, commands_legal blank (awake ++ reading) hold ?_⟩
  · rw [run]
    decide
  · rw [run]
    decide

end IcoZip.Sdram
