import Mathlib.Tactic.Common
import IcoZip.Sdram.Controller

/-! What the state machine of `wbsdram` finds when it gives a command, and what a
command does to the history of a bank.

`bank_active` is a shift register: bit 2 says that the bank is open, the lower
bits whether it was in the two clocks before.
-/

set_option autoImplicit false

namespace IcoZip.Sdram

theorem toNat_pred {w : Nat} {x : BitVec w} (pos : x ≠ 0#w) : (x - 1#w).toNat = x.toNat - 1 := by
  have some : 0 < x.toNat := Nat.pos_of_ne_zero fun zero => pos (BitVec.eq_of_toNat_eq (by simpa using zero))
  have bound := x.isLt
  rcases w with - | w
  · omega
  · have one : (1#(w + 1)).toNat = 1 := by simp
    rw [BitVec.toNat_sub_of_le (by rw [BitVec.le_def, one]; omega), one]

namespace Wbsdram

theorem all_banks {P : BitVec 2 → Prop} (zero : P 0) (one : P 1) (two : P 2) (three : P 3) (b : BitVec 2) : P b := by
  have banks : ∀ c : BitVec 2, c = 0 ∨ c = 1 ∨ c = 2 ∨ c = 3 := by decide
  rcases banks b with rfl | rfl | rfl | rfl
  · exact zero
  · exact one
  · exact two
  · exact three

theorem of_banks_any (s : Wbsdram) (p : BitVec 3 → Bool) (no : ¬ (banks.any fun b => p (s.bankActive b)) = true)
    (b : BitVec 2) : p (s.bankActive b) = false := by
  simp only [banks, List.any_cons, List.any_nil, Bool.or_false, Bool.or_eq_true, not_or, Bool.not_eq_true] at no
  exact all_banks (P := fun b => p (s.bankActive b) = false) no.1 no.2.1 no.2.2.1 no.2.2.2 b

/-! ### The history of a bank -/

theorem continued_second : ∀ active : BitVec 3, (continued active).getLsbD 1 = active.getLsbD 2 := by decide

theorem continued_top : ∀ active : BitVec 3, (continued active).getLsbD 2 = active.getLsbD 2 := by decide

theorem continued_valid : ∀ active : BitVec 3, active.getLsbD 2 = true → active.getLsbD 1 = true →
    (continued active).getLsbD 0 = true := by
  decide

theorem continued_zero : continued 0#3 = 0#3 := by decide

theorem closed_eq : ∀ active, continued active &&& 3 = closed active := by decide

theorem closed_second : ∀ active, (closed active).getLsbD 1 = active.getLsbD 2 := by decide

theorem opened_top : ∀ active, (opened active).getLsbD 2 = true := by decide

theorem opened_second : ∀ active, (opened active).getLsbD 1 = active.getLsbD 2 := by decide

theorem closed_top : ∀ active, (closed active).getLsbD 2 = false := by decide

theorem opened_zero : continued 0 ||| 4 = opened 0 := by decide

/-! ### Bit 10 of the address -/

theorem a10_bit (addr : BitVec 12) (level : BitVec 1) :
    (addr.extractLsb' 11 1 ++ (level ++ addr.extractLsb' 0 10) : BitVec 12).getLsbD 10 = level.getLsbD 0 := by
  rw [BitVec.getLsbD_append, BitVec.getLsbD_append]
  simp

theorem column_bit (c : BitVec 7) : (0#4 ++ (c ++ 0#1) : BitVec 12).getLsbD 10 = false := by
  rw [BitVec.getLsbD_append]
  simp

/-! ### What a command finds -/

/-- A request is being served: no refresh is needed or under way, and no write is in its second beat. -/
structure Serving (s : Wbsdram) (i : Wb) : Prop where
  dmod : s.nxtDmod = false
  cyc : i.cyc = true
  calm : s.needRefresh = false
  rest : s.inRefresh = false
  pending : s.rPending = true

/-- The bus is idle, or has to wait for a refresh. -/
structure Clearing (s : Wbsdram) (i : Wb) : Prop where
  dmod : s.nxtDmod = false
  idle : i.cyc = false ∨ s.needRefresh = true

/-- The conditions under which the state machine reaches a command. -/
def Guard (s : Wbsdram) (i : Wb) : Command → Prop
  | .noop => True
  | .prechargeAll => s.Clearing i ∧ (∀ b, (s.bankActive b).getLsbD 2 = true → (s.bankActive b).getLsbD 1 = true) ∧
      ∃ b, (s.bankActive b).getLsbD 2 = true
  | .refresh => s.Clearing i ∧ s.inRefresh = false ∧ ∀ b, s.bankActive b = 0
  | .activate bs row => s.Serving i ∧ s.bankActive bs = 0 ∧
      (bs = s.rBs ∧ row = s.rRow ∨ bs = s.fwdBs ∧ row = s.fwdRow)
  | .precharge bs => s.Serving i ∧ (s.bankActive bs).getLsbD 2 = true ∧ (s.bankActive bs).getLsbD 1 = true
  | .read => (s.Serving i ∧ s.stall = true) ∧ s.rWe = false ∧
      (s.bankActive s.rBs).getLsbD 2 = true ∧ s.rBankValid = true ∧ s.clocksTilIdle < 4
  | .write => (s.Serving i ∧ s.stall = true) ∧ s.rWe = true ∧
      (s.bankActive s.rBs).getLsbD 2 = true ∧ s.rBankValid = true ∧ s.clocksTilIdle = 0

theorem top_of_upper : ∀ active : BitVec 3, active.extractLsb' 1 2 = 0b11#2 →
    active.getLsbD 2 = true ∧ active.getLsbD 1 = true := by
  decide

theorem second_of_upper : ∀ active : BitVec 3, (active.extractLsb' 1 2 == 0b10#2) = false → active.getLsbD 2 = true →
    active.getLsbD 1 = true := by
  decide

theorem guard_clearing {s : Wbsdram} {i : Wb} (clearing : s.Clearing i) : s.Guard i (s.command i) := by
  rw [command, if_neg (by simp [clearing.dmod]), if_pos (by rcases clearing.idle with h | h <;> simp [h])]
  split_ifs with busy active history ready
  · trivial
  · have settled : ¬ (banks.any fun b => (s.bankActive b).extractLsb' 1 2 == 0b10#2) = true :=
        fun h => busy (by simp [h])
    have upper := of_banks_any s (fun active => active.extractLsb' 1 2 == 0b10#2) settled
    obtain ⟨b, -, open_⟩ := List.any_eq_true.mp active
    exact ⟨clearing, fun b => second_of_upper _ (upper b), b, open_⟩
  · trivial
  · refine ⟨clearing, by simp_all, fun b => ?_⟩
    simpa using of_banks_any s (fun active => active != 0) history b
  · trivial

theorem guard_serving {s : Wbsdram} {i : Wb} (dmod : s.nxtDmod = false) (cyc : i.cyc = true)
    (calm : s.needRefresh = false) : s.Guard i (s.command i) := by
  rw [command, if_neg (by simp [dmod]), if_neg (by simp [cyc, calm])]
  split_ifs with rest activate precharge read write ahead upper idle
  · trivial
  all_goals simp only [Bool.not_eq_true, pending, Bool.and_eq_true, beq_iff_eq, decide_eq_true_eq] at *
  · exact ⟨⟨dmod, cyc, calm, rest, activate.1.1.1⟩, activate.2, .inl ⟨rfl, rfl⟩⟩
  · refine ⟨⟨dmod, cyc, calm, rest, precharge.1.1.1⟩, ?_, ?_⟩ <;> rw [precharge.2] <;> rfl
  · exact ⟨⟨⟨dmod, cyc, calm, rest, read.1.1.1.1.1⟩, read.1.1.1.1.2⟩, by simpa using read.1.1.1.2, read.1.1.2,
      read.1.2, read.2⟩
  · exact ⟨⟨⟨dmod, cyc, calm, rest, write.1.1.1.1.1⟩, write.1.1.1.1.2⟩, write.1.1.1.2, write.1.1.2, write.1.2, write.2⟩
  · exact ⟨⟨dmod, cyc, calm, rest, ahead.1.1⟩, top_of_upper _ upper⟩
  · exact ⟨⟨dmod, cyc, calm, rest, ahead.1.1⟩, idle, .inr ⟨rfl, rfl⟩⟩
  · trivial
  · trivial

theorem command_dmod {s : Wbsdram} {i : Wb} (dmod : s.nxtDmod = true) : s.command i = .noop := by
  rw [command, if_pos dmod]

theorem guard_command (s : Wbsdram) (i : Wb) : s.Guard i (s.command i) := by
  cases dmod : s.nxtDmod with
  | true =>
    rw [command_dmod dmod]
    trivial
  | false =>
    cases cyc : i.cyc with
    | false => exact guard_clearing ⟨dmod, .inl cyc⟩
    | true =>
      cases calm : s.needRefresh with
      | true => exact guard_clearing ⟨dmod, .inr calm⟩
      | false => exact guard_serving dmod cyc calm

/-! ### What a command leaves -/

theorem bankActive'_top (s : Wbsdram) (cmd : Command) (b : BitVec 2) :
    (s.bankActive' cmd b).getLsbD 2 =
      match cmd with
      | .prechargeAll => false
      | .activate bs _ => if b = bs then true else (s.bankActive b).getLsbD 2
      | .precharge bs => if b = bs then false else (s.bankActive b).getLsbD 2
      | _ => (s.bankActive b).getLsbD 2 := by
  cases cmd with
  | activate bs row =>
    simp only [bankActive']
    split_ifs
    · exact opened_top _
    · exact continued_top _
  | precharge bs =>
    simp only [bankActive']
    split_ifs
    · exact closed_top _
    · exact continued_top _
  | prechargeAll => exact closed_top _
  | noop => exact continued_top _
  | refresh => exact continued_top _
  | read => exact continued_top _
  | write => exact continued_top _

/-- A bank's bit 1 is its bit 2 of the clock before, whatever the command. -/
theorem bankActive'_second (s : Wbsdram) (cmd : Command) (b : BitVec 2) :
    (s.bankActive' cmd b).getLsbD 1 = (s.bankActive b).getLsbD 2 := by
  cases cmd with
  | activate bs row =>
    simp only [bankActive']
    split_ifs
    · exact opened_second _
    · exact continued_second _
  | precharge bs =>
    simp only [bankActive']
    split_ifs
    · exact closed_second _
    · exact continued_second _
  | prechargeAll => exact closed_second _
  | noop => exact continued_second _
  | refresh => exact continued_second _
  | read => exact continued_second _
  | write => exact continued_second _

/-- While a request waits its registers do not change. -/
theorem step_held {s : Wbsdram} (stall : s.stall = true) (i : Wb) (x : BitVec 16) :
    (s.step i x).rWe = s.rWe ∧ (s.step i x).rAddr = s.rAddr ∧ (s.step i x).rData = s.rData ∧
      (s.step i x).rSel = s.rSel := by
  have idle : s.busCyc i = false := by simp [busCyc, stall]
  simp [step, idle]

/-- A bank that is open stays at its row. -/
theorem step_bankRow {s : Wbsdram} {i : Wb} {cmd : Command} (guard : s.Guard i cmd) {x : BitVec 16}
    (given : s.command i = cmd) {b : BitVec 2} (active : (s.bankActive b).getLsbD 2 = true) :
    (s.step i x).bankRow b = s.bankRow b := by
  simp only [step, given]
  cases cmd with
  | activate bs row =>
    have other : b ≠ bs := by
      rintro rfl
      rw [guard.2.1] at active
      exact absurd active (by decide)
    exact Function.update_of_ne other _ _
  | _ => rfl

/-- A request whose bank was found open at its row is still served by it, unless the bank was closed since. -/
def Valid (s : Wbsdram) : Prop :=
  s.rBankValid = true → (s.bankActive s.rBs).getLsbD 2 = true →
    (s.bankActive s.rBs).getLsbD 1 = true ∧ s.bankRow s.rBs = s.rRow

theorem valid_step {s : Wbsdram} (i : Wb) (x : BitVec 16) : (s.step i x).Valid := by
  intro found active
  have guard := guard_command s i
  generalize given : s.command i = cmd at guard
  have kept (b : BitVec 2) (was : (s.bankActive b).getLsbD 2 = true) :
      (s.bankActive' cmd b).getLsbD 1 = true ∧ (s.step i x).bankRow b = s.bankRow b := by
    rw [bankActive'_second]
    exact ⟨was, step_bankRow guard given was⟩
  cases taken : s.busCyc i with
  | true =>
    simp only [step, taken, if_true, Bool.and_eq_true, beq_iff_eq] at found
    obtain ⟨second, row⟩ := kept _ found.1
    simp only [rBs, rRow, step, taken, if_true, given] at second row ⊢
    exact ⟨second, row.trans found.2⟩
  | false =>
    simp only [step, taken, Bool.false_eq_true, if_false, Bool.and_eq_true, beq_iff_eq] at found
    obtain ⟨second, row⟩ := kept _ found.1
    simp only [rBs, rRow, step, taken, Bool.false_eq_true, if_false, given] at second row ⊢
    exact ⟨second, row.trans found.2⟩

end Wbsdram

end IcoZip.Sdram
