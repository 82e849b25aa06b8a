import IcoZip.Library.Bytes
import IcoZip.Sdram.Commands
import IcoZip.Sdram.Simulator

/-! The controller in front of the simulator, clocked once per call.

An invariant relates the two: the simulator's banks are the controller's, its
memory is the abstract one up to a half-written word, and what the next clocks
will deliver is what the acknowledgements under way stand for.
-/

set_option autoImplicit false

namespace IcoZip.Sdram

structure Bench where
  core : Wbsdram
  sdram : Simulator
  iRamData : BitVec 16

namespace Bench

/-- A rising edge, then a call with the new pins. -/
def tick (s : Bench) (i : Wb) : Option Bench :=
  let core := s.core.step i s.iRamData
  (s.sdram.call core.pins).map fun (sdram, result) => { core, sdram, iRamData := result }

end Bench

/-! ### Banks -/

open Wbsdram

theorem shifted_eq : ∀ status, Simulator.shifted status = continued status := by decide

/-! ### Places in the memory -/

def high (w : BitVec 32) : BitVec 16 := w.extractLsb' 16 16
def low (w : BitVec 32) : BitVec 16 := w.extractLsb' 0 16

theorem high_low (w : BitVec 32) : high w ++ low w = w := by
  apply BitVec.eq_of_getLsbD_eq
  intro i bound
  rw [BitVec.getLsbD_append]
  simp only [high, low, BitVec.getLsbD_extractLsb']
  by_cases small : i < 16
  · simp [small]
  · simp [small, show i - 16 < 16 by omega, Nat.add_sub_cancel' (show 16 ≤ i by omega)]

theorem high_append (x y : BitVec 16) : high (x ++ y) = x := by
  apply BitVec.eq_of_getLsbD_eq
  intro i bound
  simp only [high, BitVec.getLsbD_extractLsb', BitVec.getLsbD_append, bound, decide_true, Bool.true_and]
  simp

theorem low_append (x y : BitVec 16) : low (x ++ y) = y := by
  apply BitVec.eq_of_getLsbD_eq
  intro i bound
  simp only [low, BitVec.getLsbD_extractLsb', BitVec.getLsbD_append, bound, decide_true, Bool.true_and, Nat.zero_add,
    if_true]

/-- Where the upper (0) and lower (1) half of a word are kept. -/
def half (a : BitVec 21) (k : BitVec 1) : BitVec 23 := (row a ++ (bank a ++ (0#1 ++ column a))) ++ k

theorem half_succ (a : BitVec 21) : half a 0 + 1 = half a 1 := by
  have even (x : BitVec 22) : (x ++ 0#1 : BitVec 23) + 1 = x ++ 1#1 := by
    apply BitVec.eq_of_toNat_eq
    have bound := x.isLt
    have value (k : BitVec 1) : (x ++ k : BitVec 23).toNat = 2 ^ 1 * x.toNat + k.toNat := by
      rw [BitVec.toNat_append, Nat.shiftLeft_eq, Nat.mul_comm, Nat.two_pow_add_eq_or_of_lt k.isLt]
    have one : (1 : BitVec 23).toNat = 1 := rfl
    rw [BitVec.toNat_add, value, value, one]
    simp only [BitVec.toNat_ofNat]
    omega
  exact even _

theorem half_bit (a : BitVec 21) (k : BitVec 1) {i : Nat} (bound : i < 21) :
    (half a k).getLsbD (if i < 7 then i + 1 else i + 2) = a.getLsbD i := by
  rw [half, row, bank, column]
  simp only [BitVec.getLsbD_append, BitVec.getLsbD_extractLsb']
  interval_cases i <;> simp

theorem half_inj {a b : BitVec 21} {j k : BitVec 1} (same : half a j = half b k) : a = b ∧ j = k := by
  constructor
  · apply BitVec.eq_of_getLsbD_eq
    intro i bound
    rw [← half_bit a j bound, ← half_bit b k bound, same]
  · have lowest (c : BitVec 21) (l : BitVec 1) : (half c l).getLsbD 0 = l.getLsbD 0 := by
      rw [half, BitVec.getLsbD_append, if_pos (by decide)]
    apply BitVec.eq_of_getLsbD_eq
    intro i bound
    obtain rfl : i = 0 := by omega
    rw [← lowest a j, ← lowest b k, same]

/-- The place of a column command. -/
theorem place_half {m : Simulator} {p : Pins} {a : BitVec 21} (row_ : m.bankRow p.bs = row a) (bs : p.bs = bank a)
    (addr : p.addr = 0#4 ++ (column a ++ 0#1)) : m.place p = half a 0 := by
  rw [Simulator.place, row_, bs, addr, half]
  apply BitVec.eq_of_getLsbD_eq
  intro i bound
  simp only [BitVec.getLsbD_append, BitVec.getLsbD_extractLsb', column]
  interval_cases i <;> simp

/-! ### Byte masks -/

/-- A word with the selected bytes replaced. -/
def merge (sel : BitVec 4) (data old : BitVec 32) : BitVec 32 :=
  Bytes.ofBytes fun j => if sel.getLsbD j then Bytes.byte data j else Bytes.byte old j

theorem merge_bit (sel : BitVec 4) (data old : BitVec 32) {i : Nat} (bound : i < 32) :
    (merge sel data old).getLsbD i = if sel.getLsbD (i / 8) then data.getLsbD i else old.getLsbD i := by
  rw [merge, Bytes.getLsbD_ofBytes _ bound]
  split_ifs
  · rw [Bytes.getLsbD_byte]
  · rw [Bytes.getLsbD_byte]

theorem memval_bit (old data : BitVec 16) (dqm : BitVec 2) {i : Nat} (bound : i < 16) :
    (Simulator.memval old data dqm).getLsbD i = if dqm.getLsbD (i / 8) then old.getLsbD i else data.getLsbD i := by
  have masks : ∀ d : BitVec 2, d = 0 ∨ d = 1 ∨ d = 2 ∨ d = 3 := by decide
  rcases masks dqm with rfl | rfl | rfl | rfl <;> interval_cases i <;> simp [Simulator.memval]

theorem memval_merge (sel : BitVec 4) (data old : BitVec 32) (k : Nat) (which : k = 0 ∨ k = 1) :
    Simulator.memval (old.extractLsb' (16 * k) 16) (data.extractLsb' (16 * k) 16) (~~~ sel.extractLsb' (2 * k) 2) =
      (merge sel data old).extractLsb' (16 * k) 16 := by
  apply BitVec.eq_of_getLsbD_eq
  intro i bound
  have lane : i / 8 < 2 := by omega
  have same : (16 * k + i) / 8 = 2 * k + i / 8 := by omega
  rw [memval_bit _ _ _ bound]
  simp only [BitVec.getLsbD_extractLsb', bound, decide_true, Bool.true_and, BitVec.getLsbD_not, lane]
  rw [merge_bit _ _ _ (by omega), same]
  cases sel.getLsbD (2 * k + i / 8) <;> rfl

/-! ### The invariant of the banks -/

/-- The simulator's banks are those of the controller. -/
structure Banks (s : Bench) : Prop where
  status : ∀ b, s.sdram.bankStatus b = s.core.bankActive b
  rows : ∀ b, (s.core.bankActive b).getLsbD 2 = true → s.sdram.bankRow b = s.core.bankRow b
  valid : s.core.Valid

/-- What a command does to the simulator, the banks aside. -/
def issued (m : Simulator) (s : Wbsdram) : Command → Simulator
  | .read => { m with
      qdata := Function.update (Function.update m.qdata (m.qloc + 3) (m.mem (half s.rAddr 0)))
        (m.qloc + 4) (m.mem (half s.rAddr 1))
      clocksTillIdle := 2 }
  | .write => { m with
      mem := Function.update m.mem (half s.rAddr 0) (high s.rData)
      wrAddr := half s.rAddr 1, clocksTillIdle := 2, nextWr := true }
  | _ => m

/-- The rows of the simulator after a command. -/
def activated (rows : BitVec 2 → BitVec 12) : Command → BitVec 2 → BitVec 12
  | .activate bs row => Function.update rows bs row
  | _ => rows

theorem beat_status (m : Simulator) (p : Pins) : (m.beat p).1.bankStatus = fun b => continued (m.bankStatus b) := by
  funext b
  rw [← shifted_eq]
  simp only [Simulator.beat]
  split_ifs <;> rfl

theorem beat_qloc (m : Simulator) (p : Pins) : (m.beat p).1.qloc = m.qloc + 1 := by
  simp only [Simulator.beat]
  split_ifs <;> rfl

theorem beat_qdata (m : Simulator) (p : Pins) : (m.beat p).1.qdata = Function.update m.qdata (m.qloc + 1) 0 := by
  simp only [Simulator.beat]
  split_ifs <;> rfl

theorem beat_result (m : Simulator) (p : Pins) : (m.beat p).2 = if p.dmod then p.data else m.qdata (m.qloc + 1) := by
  simp only [Simulator.beat]
  split_ifs <;> rfl

theorem beat_of_idle {m : Simulator} (idle : m.nextWr = false) (p : Pins) :
    (m.beat p).1.mem = m.mem ∧ (m.beat p).1.nextWr = false := by
  simp [Simulator.beat, idle]

theorem beat_of_write {m : Simulator} (write : m.nextWr = true) (clocks : m.clocksTillIdle = 2) (p : Pins) :
    (m.beat p).1.mem = Function.update m.mem m.wrAddr (Simulator.memval (m.mem m.wrAddr) p.data p.dqm) ∧
      (m.beat p).1.nextWr = false := by
  simp [Simulator.beat, write, clocks]

theorem beat_bankRow (m : Simulator) (p : Pins) : (m.beat p).1.bankRow = m.bankRow := by
  simp only [Simulator.beat]
  split_ifs <;> rfl

theorem update_continued (s : Wbsdram) (bs : BitVec 2) (f : BitVec 3 → BitVec 3) :
    Function.update (fun b => continued (s.bankActive b)) bs (f (s.bankActive bs)) =
      fun b => if b = bs then f (s.bankActive b) else continued (s.bankActive b) := by
  funext b
  by_cases same : b = bs
  · subst same
    rw [Function.update_self, if_pos rfl]
  · rw [Function.update_of_ne same, if_neg same]

/-- No command of the controller fails an assertion. -/
theorem command_spec {s : Bench} (banks : Banks s) {i : Wb} {cmd : Command} (guard : s.core.Guard i cmd) :
    (s.sdram.beat (s.core.pins' i cmd)).1.command (s.core.pins' i cmd) =
      some { issued (s.sdram.beat (s.core.pins' i cmd)).1 s.core cmd with
        bankStatus := s.core.bankActive' cmd
        bankRow := activated s.sdram.bankRow cmd } := by
  have status := beat_status s.sdram (s.core.pins' i cmd)
  have rows := beat_bankRow s.sdram (s.core.pins' i cmd)
  have same : (fun b => continued (s.sdram.bankStatus b)) = fun b => continued (s.core.bankActive b) := by
    funext b
    rw [banks.status]
  rw [same] at status
  generalize (s.sdram.beat (s.core.pins' i cmd)).1 = m at status rows ⊢
  obtain ⟨mem, bankStatus, bankRow, qdata, qloc, wrAddr, clocks, nextWr⟩ := m
  simp only at status rows
  subst status rows
  cases cmd with
  | noop => exact Simulator.command_noop (.inr ⟨rfl, rfl, rfl⟩)
  | prechargeAll =>
    have all : (s.core.pins' i .prechargeAll).addr.getLsbD 10 = true := a10_bit s.core.pins.addr 1
    refine (Simulator.command_prechargeAll rfl rfl rfl rfl all).trans ?_
    simp only [closed_eq]
    rfl
  | refresh =>
    refine Simulator.command_refresh rfl rfl rfl rfl fun b => ?_
    simp only [guard.2.2 b]
    rfl
  | activate bs row =>
    -- the controller activates only a bank whose shift register is empty
    have idle : continued (s.core.bankActive bs) = 0 := by
      rw [guard.2.1]
      exact continued_zero
    have active : continued (s.core.bankActive bs) ||| 4 = opened (s.core.bankActive bs) := by
      rw [guard.2.1]
      exact opened_zero
    refine (Simulator.command_activate rfl rfl rfl rfl idle).trans ?_
    simp only [Wbsdram.pins', active, update_continued]
    rfl
  | precharge bs =>
    have one : (s.core.pins' i (.precharge bs)).addr.getLsbD 10 = false := a10_bit s.core.pins.addr 0
    refine (Simulator.command_precharge rfl rfl rfl rfl one).trans ?_
    simp only [Wbsdram.pins', closed_eq, update_continued]
    rfl
  | read =>
    -- the row that is open is the row that is asked for
    obtain ⟨⟨serving, -⟩, -, active, valid, -⟩ := guard
    obtain ⟨second, row⟩ := banks.valid valid active
    have keep : (s.core.pins' i .read).addr.getLsbD 10 = false := column_bit (column s.core.rAddr)
    refine (Simulator.command_read rfl rfl rfl rfl (continued_valid _ active second) serving.dmod keep).trans ?_
    rw [place_half ((banks.rows _ active).trans row) rfl rfl, half_succ]
    rfl
  | write =>
    obtain ⟨⟨serving, -⟩, -, active, valid, -⟩ := guard
    obtain ⟨second, row⟩ := banks.valid valid active
    have keep : (s.core.pins' i .write).addr.getLsbD 10 = false := column_bit (column s.core.rAddr)
    refine (Simulator.command_write rfl rfl rfl rfl (continued_valid _ active second) rfl keep).trans ?_
    rw [place_half ((banks.rows _ active).trans row) rfl rfl, half_succ]
    simp only [Wbsdram.pins', serving.dmod]
    rfl

namespace Bench

/-- What a clock leaves, when no assertion fails. -/
def next (s : Bench) (i : Wb) : Bench :=
  let cmd := s.core.command i
  let beat := s.sdram.beat (s.core.pins' i cmd)
  { core := s.core.step i s.iRamData
    sdram := { issued beat.1 s.core cmd with
      bankStatus := s.core.bankActive' cmd
      bankRow := activated s.sdram.bankRow cmd }
    iRamData := beat.2 }

theorem tick_eq {s : Bench} (banks : Banks s) (i : Wb) : s.tick i = some (s.next i) := by
  have legal := command_spec banks (guard_command s.core i)
  have call : s.sdram.call (s.core.pins' i (s.core.command i)) =
      ((s.sdram.beat (s.core.pins' i (s.core.command i))).1.command (s.core.pins' i (s.core.command i))).map
        fun m => (m, (s.sdram.beat (s.core.pins' i (s.core.command i))).2) := rfl
  have pins : (s.core.step i s.iRamData).pins = s.core.pins' i (s.core.command i) := rfl
  rw [tick, pins, call, legal]
  rfl

theorem banks_next {s : Bench} (banks : Banks s) (i : Wb) : Banks (s.next i) := by
  refine ⟨fun b => rfl, fun b opened => ?_, valid_step i s.iRamData⟩
  have guard := guard_command s.core i
  have active : (s.core.bankActive' (s.core.command i) b).getLsbD 2 = true := opened
  have same (was : (s.core.bankActive b).getLsbD 2 = true) :
      s.sdram.bankRow b = (s.core.step i s.iRamData).bankRow b := by
    rw [step_bankRow guard rfl was, banks.rows b was]
  rw [bankActive'_top] at active
  simp only [next]
  cases given : s.core.command i with
  | prechargeAll =>
    simp only [given] at active
    exact absurd active Bool.false_ne_true
  | activate bs row =>
    simp only [given] at active
    by_cases here : b = bs
    · subst here
      simp [activated, Wbsdram.step, given]
    · rw [if_neg here] at active
      rw [← same active]
      exact Function.update_of_ne here _ _
  | precharge bs =>
    simp only [given] at active
    split_ifs at active
    exact same active
  | noop | refresh | read | write =>
    simp only [given] at active
    exact same active

end Bench

end IcoZip.Sdram
