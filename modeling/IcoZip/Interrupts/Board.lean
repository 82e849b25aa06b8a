import IcoZip.Interrupts.Icontrol
import IcoZip.Interrupts.Ziptimer

/-! The timer `bustimer` and the interrupt controller `buspic`, as `main` connects them to the processor.

The state after any clocks from power-up is told by the clocks themselves: when the timer was written, which
lines were raised, and what was written to the controller.
-/

set_option autoImplicit false

namespace IcoZip.Interrupts

structure Board where
  timer : Ziptimer 16
  pic : Icontrol 15
  deriving DecidableEq, Repr

namespace Board

/-- What the bus has for one of the two. -/
structure Access where
  stb : Bool
  we : Bool
  data : BitVec 32
  deriving DecidableEq, Repr

structure Inputs where
  reset : Bool
  timer : Access
  pic : Access
  /-- `uartrxf_int`, `uarttxf_int` and `gpio_int` -/
  lines : BitVec 3
  deriving DecidableEq, Repr

def busIntVector (bustimerInt : Bool) (lines : BitVec 3) : BitVec 15 := 0#11 ++ BitVec.ofBool bustimerInt ++ lines

namespace Inputs
variable (i : Inputs)

def bustimer : Ziptimer.Inputs := ⟨i.reset, true, i.timer.stb, i.timer.we, i.timer.data⟩

/-- The controller is not reset. -/
def buspic (bustimerInt : Bool) : Icontrol.Inputs 15 :=
  ⟨false, i.pic.stb, i.pic.we, i.pic.data, busIntVector bustimerInt i.lines⟩

/-- What is written to the controller says that a line has been seen. -/
def Acknowledges (k : Nat) : Prop := (i.pic.stb && i.pic.we) = true ∧ i.pic.data.getLsbD k = true

instance (k : Nat) : Decidable (i.Acknowledges k) := inferInstanceAs (Decidable (_ ∧ _))

theorem buspic_acknowledges {i : Inputs} {bustimerInt : Bool} {k : Nat} :
    (i.buspic bustimerInt).Acknowledges k ↔ i.Acknowledges k := by
  simp [buspic, Icontrol.Inputs.Acknowledges, Icontrol.Inputs.wbWrite, Acknowledges]

/-- The timer has line 3. -/
theorem buspic_raises {i : Inputs} : (i.buspic true).Raises 3 := by
  have above : (busIntVector true i.lines).getLsbD 3 = (0#11 ++ BitVec.ofBool true).getLsbD 0 := by
    rw [busIntVector, BitVec.getLsbD_append, if_neg (Nat.lt_irrefl 3)]
  exact ⟨rfl, above⟩

end Inputs

def powerUp (interval : BitVec 16) : Board := ⟨.powerUp interval, .powerUp⟩

def step (b : Board) (i : Inputs) : Board := ⟨b.timer.clock true i.bustimer, b.pic.clock (i.buspic b.timer.int)⟩

/-- The board after the clocks of a log, which has the last clock first. -/
def after (interval : BitVec 16) (log : List Inputs) : Board := log.foldr (fun i b => b.step i) (powerUp interval)

/-! ### What the clocks tell -/

/-- What has been asked of the timer. -/
def setting (log : List Inputs) : Ziptimer.Setting := log.foldr (fun i c => c.next true 16 i.bustimer) .off

/-- The last clock was one that the timer counts. -/
def ticked : List Inputs → Bool
  | [] => false
  | i :: _ => !i.bustimer.reset && !i.bustimer.wbWrite && i.bustimer.ce

/-- The timer has just run out. -/
def rang (log : List Inputs) : Bool := ticked log && (setting log).rings

/-- What the controller has been given. -/
def heard : List Inputs → List (Icontrol.Inputs 15)
  | [] => []
  | i :: log => i.buspic (rang log) :: heard log

/-- Interrupts are enabled, and some line that is enabled is pending. -/
def Due (log : List Inputs) : Prop :=
  Icontrol.MasterEnabled (heard log) ∧ ∃ k < 15, Icontrol.Enabled k (heard log) ∧ Icontrol.Pending k (heard log)

/-- What holds after the clocks of a log. -/
structure Told (b : Board) (log : List Inputs) : Prop where
  timer : b.timer.Follows true (setting log) (ticked log)
  pic : b.pic.Latched (heard log)
  interrupt : b.pic.interrupt = true ↔ Due log.tail

theorem not_due_nil : ¬Due [] := fun due => Latch.stands_nil due.1

theorem told_powerUp (interval : BitVec 16) : (powerUp interval).Told [] where
  timer := Ziptimer.follows_powerUp interval
  pic := Icontrol.latched_powerUp
  interrupt := iff_of_false Bool.false_ne_true not_due_nil

theorem Told.step {b : Board} {log : List Inputs} (told : b.Told log) (i : Inputs) : (b.step i).Told (i :: log) where
  timer := told.timer.next (by decide)
  pic := by
    -- The controller sees the interrupt that the timer has had before this clock.
    have given : i.buspic b.timer.int = i.buspic (rang log) := by rw [told.timer.int, rang]
    rw [Board.step, given]
    exact told.pic.next
  interrupt := told.pic.interrupt_next rfl

theorem told_after (interval : BitVec 16) (log : List Inputs) : (after interval log).Told log := by
  induction log with
  | nil => exact told_powerUp interval
  | cons i log ih => exact ih.step i

/-- After any clocks the timer shows what is left of its setting, and the processor is interrupted exactly if that
was due one clock before. -/
theorem interrupted (interval : BitVec 16) (log : List Inputs) :
    (after interval log).timer.value.toNat = (setting log).left ∧
      ((after interval log).timer.int = true ↔ rang log = true) ∧
        ((after interval log).pic.interrupt = true ↔ Due log.tail) := by
  have told := told_after interval log
  exact ⟨told.timer.value, by rw [told.timer.int, rang], told.interrupt⟩

/-! ### A timer that is set -/

/-- Clocks that leave the setting of the timer as it is. -/
def Waits (log : List Inputs) : Prop := ∀ i ∈ log, i.reset = false ∧ i.bustimer.wbWrite = false

theorem setting_waits {waits log : List Inputs} (leaves : Waits waits) :
    setting (waits ++ log) = { setting log with since := (setting log).since + waits.length } := by
  induction waits with
  | nil => rfl
  | cons i waits ih =>
    obtain ⟨⟨reset, write⟩, rest⟩ := List.forall_mem_cons.mp leaves
    have before := ih rest
    have counted : i.bustimer.reset = false := reset
    rw [setting] at before ⊢
    rw [List.cons_append, List.foldr_cons, before, Ziptimer.Setting.next, counted, write]
    rfl

/-- The timer rings when it has waited for as many clocks as its value says. -/
theorem rang_waits {waits log : List Inputs} {i : Inputs} (reset : i.reset = false) (write : i.bustimer.wbWrite = true)
    (leaves : Waits waits) (some : 0 < waits.length)
    (length : waits.length = (Ziptimer.loaded 16 i.bustimer).toNat) : rang (waits ++ i :: log) = true := by
  have counts : ticked (waits ++ i :: log) = true := by
    cases waits with
    | nil => exact absurd some (Nat.lt_irrefl 0)
    | cons j waits =>
      obtain ⟨quiet, unwritten⟩ := leaves j List.mem_cons_self
      have counted : j.bustimer.reset = false := quiet
      rw [List.cons_append, ticked, counted, unwritten]
      rfl
  have set : setting (i :: log) =
      ⟨waits.length, i.bustimer.wbData.getLsbD 31 && Ziptimer.loaded 16 i.bustimer != 0#16, 0⟩ := by
    have taken : i.bustimer.reset = false := reset
    rw [setting, List.foldr_cons, Ziptimer.Setting.next, taken, write, length]
    rfl
  rw [rang, counts, setting_waits leaves, set, Bool.true_and, Ziptimer.Setting.rings, decide_eq_true_iff]
  refine ⟨some, ?_⟩
  -- Within the first period it does not matter whether the timer reloads.
  split
  · rw [Nat.zero_add, Nat.mod_eq_of_lt (Nat.lt_succ_self waits.length)]
  · exact Nat.zero_add waits.length

/-- A line stays pending as long as nobody acknowledges it. -/
theorem pending_kept {k : Nat} {later log : List Inputs} (kept : ∀ i ∈ later, ¬i.Acknowledges k)
    (pending : Icontrol.Pending k (heard log)) : Icontrol.Pending k (heard (later ++ log)) := by
  induction later with
  | nil => exact pending
  | cons i later ih =>
    obtain ⟨unseen, rest⟩ := List.forall_mem_cons.mp kept
    exact Latch.stands_cons.mpr (.inr ⟨mt Inputs.buspic_acknowledges.mp unseen, ih rest⟩)

/-- The clock after the timer has rung makes its line pending, also when it acknowledges the line. -/
theorem rang_pending {log : List Inputs} (rung : rang log = true) (i : Inputs) :
    Icontrol.Pending 3 (heard (i :: log)) := by
  have raised : (i.buspic (rang log)).Raises 3 := by
    rw [rung]
    exact Inputs.buspic_raises
  exact Latch.stands_cons.mpr (.inl raised)

/-- A timer that is set and left alone interrupts the processor once it has run out, for as long as its line is
enabled and has not been acknowledged since. -/
theorem alarm (interval : BitVec 16) (before waits later : List Inputs) (set seen last : Inputs)
    (reset : set.reset = false) (write : set.bustimer.wbWrite = true) (leaves : Waits waits) (some : 0 < waits.length)
    (length : waits.length = (Ziptimer.loaded 16 set.bustimer).toNat) (kept : ∀ i ∈ later, ¬i.Acknowledges 3)
    (enabled : (after interval (later ++ seen :: (waits ++ set :: before))).pic.intEnable.getLsbD 3 = true)
    (master : (after interval (later ++ seen :: (waits ++ set :: before))).pic.mie = true) :
    (after interval (last :: (later ++ seen :: (waits ++ set :: before)))).pic.interrupt = true := by
  have told := told_after interval (later ++ seen :: (waits ++ set :: before))
  have rung : rang (waits ++ set :: before) = true := rang_waits reset write leaves some length
  have pending := pending_kept kept (rang_pending rung seen)
  have due : Due (later ++ seen :: (waits ++ set :: before)) :=
    ⟨told.pic.mie.mp master, 3, by decide, (told.pic.enabled 3 (by decide)).mp enabled, pending⟩
  exact (told_after interval (last :: (later ++ seen :: (waits ++ set :: before)))).interrupt.mpr due

/-- A clock in which nothing is asked for. -/
def Inputs.idle : Inputs := ⟨false, ⟨false, false, 0⟩, ⟨false, false, 0⟩, 0⟩

/-- The timer is set to two clocks, while its line and the interrupts as a whole are enabled. -/
def Inputs.arms : Inputs := ⟨false, ⟨true, true, 2⟩, ⟨true, true, 0x80088000⟩, 0⟩

theorem alarm_two : (after 0 [.idle, .idle, .idle, .idle, .arms]).pic.interrupt = true :=
  alarm 0 [] [.idle, .idle] [] .arms .idle .idle rfl rfl
    (by simp [Waits, Inputs.idle, Inputs.bustimer, Ziptimer.Inputs.wbWrite]) (by decide) (by decide) (by simp)
    (by decide) (by decide)

end Board

end IcoZip.Interrupts
