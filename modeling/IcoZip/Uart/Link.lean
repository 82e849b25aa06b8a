import IcoZip.Library.Clocked
import IcoZip.Uart.Rxuart

/-! A byte that `txuart` takes is given by `rxuart` at the other end of the line, a fixed time later, for
every setup; a parity that is computed is always reported to be wrong.
-/

set_option autoImplicit false

namespace IcoZip.Uart

/-- Both ends of a line, and what the transmitter has taken in each clock since the last reset, the last clock first. -/
structure Link where
  tx : Txuart
  rx : Rxuart
  taken : List (Option (BitVec 8))

namespace Link

def powerUp (setup : BitVec 31) : Link := ⟨.powerUp setup, .powerUp setup, []⟩

variable (setup : BitVec 31) (x : Link) (i : TxInputs)

/-- Both ends are reset together. -/
def step : Link where
  tx := x.tx.clock setup i
  rx := x.rx.clock setup i.reset x.tx.uartTx
  taken := if i.reset then [] else x.tx.begins i :: x.taken

/-- What is heard since the last reset: the bytes that have been taken, as far as a frame has them, each at its
time and without an error but for the parity of a frame that has come. -/
structure Hears : Prop where
  given : x.rx.delivers = x.taken[rate setup / 2 + (format setup).samples * rate setup +
    (if (format setup).dblstop then 4 else 5)]?.join.map (format setup).kept
  calm : x.rx.Calm setup
  misread : ∀ byte age, x.taken[age + 3]? = some (some byte) →
    rate setup / 2 + 1 + ((format setup).bits + 1) * rate setup ≤ age →
      age ≤ rate setup / 2 + 1 + (format setup).samples * rate setup → x.rx.parityErr = (format setup).misread

/-! ### The invariant -/

structure Linked : Prop where
  spaced : Serial.Spaced (((format setup).samples + 1) * rate setup) x.taken
  late : Serial.Late (16 * rate setup + 1) x.taken
  tx : x.tx.At setup (rate setup) x.taken.length (Serial.carried x.taken)
  q : 1 ≤ x.taken.length → x.rx.qUart = Serial.level (format setup).frame (rate setup) (Serial.carried x.taken.tail)
  qq : 2 ≤ x.taken.length →
    x.rx.qqUart = Serial.level (format setup).frame (rate setup) (Serial.carried x.taken.tail.tail)
  rx : x.rx.At setup x.taken.length (Serial.carried x.taken.tail.tail.tail)

variable {setup x i}

theorem reset (resets : i.reset = true) (tx : x.tx.rSetup = setup) (rx : x.rx.rSetup = setup.extractLsb' 0 30)
    (calm : (x.rx.clock setup false x.tx.uartTx).Calm setup) (slow : 3 ≤ rate setup) :
    (x.step setup i).Linked setup := by
  have empty : (x.step setup i).taken = [] := by simp [step, resets]
  have sends : (x.step setup i).tx.At setup (rate setup) 0 none := Txuart.reset resets tx slow
  have hears : (x.step setup i).rx.At setup 0 none := by
    rw [step, resets]
    exact Rxuart.reset_next rx calm
  constructor
  · rw [empty]
    trivial
  · rw [empty]
    trivial
  · rw [empty]
    exact sends
  · intro some
    rw [empty] at some
    contradiction
  · intro some
    rw [empty] at some
    contradiction
  · rw [empty]
    exact hears

theorem Linked.goes (linked : x.Linked setup) (slow : 6 ≤ rate setup) (free : i.breaks = false)
    (resets : i.reset = false) : (x.step setup i).Linked setup := by
  obtain ⟨sends, spaced⟩ : (x.tx.clock setup i).At setup (rate setup) (x.taken.length + 1)
      (Serial.carried (x.tx.begins i :: x.taken)) ∧
        Serial.Spaced (((format setup).samples + 1) * rate setup) (x.tx.begins i :: x.taken) :=
    linked.tx.next rfl (by omega) ⟨resets, free⟩ linked.spaced
  have taken : (x.step setup i).taken = x.tx.begins i :: x.taken := by simp [step, resets]
  have late : Serial.Late (16 * rate setup + 1) (x.tx.begins i :: x.taken) := by
    rw [Txuart.begins]
    cases accepts : x.tx.accepts i with
    | true => exact ⟨linked.late, (linked.tx.begins accepts).2.1⟩
    | false => exact linked.late
  have settled : Serial.carried x.taken.tail.tail ≠ none → 16 * rate setup + 4 ≤ x.taken.length := by
    intro some
    have more := linked.late.tail.tail.length_lt some
    rw [List.length_tail, List.length_tail] at more
    omega
  constructor
  · rw [taken]
    exact spaced
  · rw [taken]
    exact late
  · rw [taken]
    exact sends
  · intro _
    rw [taken]
    exact linked.tx.line (by omega)
  · intro some
    rw [taken] at some ⊢
    exact linked.q (Nat.le_of_succ_le_succ some)
  · rw [taken, step, resets]
    exact linked.rx.next slow linked.spaced.tail.tail.follows linked.qq settled

theorem Linked.next (linked : x.Linked setup) (slow : 6 ≤ rate setup) (free : i.breaks = false) :
    (x.step setup i).Linked setup := by
  cases resets : i.reset with
  | true =>
    -- what the receiver reports in a clock does not depend on its reset line
    have unreset : (x.step setup { i with reset := false }).Linked setup := linked.goes slow free rfl
    exact reset resets linked.tx.kept linked.rx.kept unreset.rx.calm (by omega)
  | false => exact linked.goes slow free resets

/-- A byte that has begun so many clocks ago has come to the receiver three clocks later. -/
theorem Linked.came (linked : x.Linked setup) {age : Nat} (within : age < ((format setup).samples + 1) * rate setup) :
    ((Serial.carried x.taken.tail.tail.tail).bind fun c => if c.2 = age then some c.1 else none) =
      x.taken[age + 3]?.join := by
  rw [linked.spaced.tail.tail.tail.arrives within]
  simp only [List.getElem?_tail]

theorem Linked.given (linked : x.Linked setup) (slow : 6 ≤ rate setup) : x.rx.delivers =
    x.taken[rate setup / 2 + (format setup).samples * rate setup +
      (if (format setup).dblstop then 1 else 2) + 3]?.join.map (format setup).kept := by
  have within : rate setup / 2 + (format setup).samples * rate setup + (if (format setup).dblstop then 1 else 2) <
      ((format setup).samples + 1) * rate setup := by
    rw [Nat.succ_mul]
    split <;> omega
  have rx := linked.rx
  rw [← linked.came within]
  cases here : Serial.carried x.taken.tail.tail.tail with
  | none =>
    rw [here] at rx
    have waits : x.rx.Waits setup x.taken.length := rx
    rw [Rxuart.delivers, waits.wr]
    rfl
  | some c =>
    obtain ⟨byte, age⟩ := c
    rw [here] at rx
    have takes : x.rx.Takes setup byte age := rx
    rw [takes.phase.delivers_eq, Option.bind_some, apply_ite (Option.map _)]
    rfl

theorem Linked.hears (linked : x.Linked setup) (slow : 6 ≤ rate setup) : x.Hears setup := by
  have rx := linked.rx
  have due : (if (format setup).dblstop then 4 else 5) = (if (format setup).dblstop then 1 else 2) + 3 := by
    split <;> rfl
  have given := linked.given slow
  rw [Nat.add_assoc, ← due] at given
  cases here : Serial.carried x.taken.tail.tail.tail with
  | none =>
    rw [here] at rx
    have waits : x.rx.Waits setup x.taken.length := rx
    refine ⟨given, waits.calm, fun byte age begun _ before => ?_⟩
    have within : age < ((format setup).samples + 1) * rate setup := by
      rw [Nat.succ_mul]
      omega
    have came := linked.came within
    rw [here, begun] at came
    contradiction
  | some c =>
    obtain ⟨byte, age⟩ := c
    rw [here] at rx
    have takes : x.rx.Takes setup byte age := rx
    refine ⟨given, takes.calm, fun byte' age' begun behind before => ?_⟩
    have within : age' < ((format setup).samples + 1) * rate setup := by
      rw [Nat.succ_mul]
      omega
    have came := linked.came within
    rw [here, begun, Option.bind_some] at came
    have same : age = age' := by
      by_contra other
      rw [if_neg other] at came
      contradiction
    exact takes.phase.parityErr_misread slow (same ▸ behind) (same ▸ before)

/-- Every clock of every run behind a reset. -/
theorem hears_taken (setup : BitVec 31) (slow : 6 ≤ rate setup) (first : TxInputs) (resets : first.reset = true)
    (is : List TxInputs) (free : ∀ i ∈ is, i.breaks = false) :
    Clocked.Always (step setup) (fun x _ => x.Hears setup) ((powerUp setup).step setup first) is := by
  have started : ((powerUp setup).step setup first).Linked setup :=
    reset resets rfl rfl (Rxuart.calm_powerUp (by omega)) (by omega)
  have kept (x : Link) (i : TxInputs) (linked : x.Linked setup) (free : i.breaks = false) :
      (x.step setup i).Linked setup :=
    linked.next slow free
  have always := (Clocked.always_of_inputs (fun i member _ => free i member) _).with_invariant kept started
  exact always.mono fun _ _ clock => clock.1.hears slow

/-- Six clocks for a bit, eight data bits and a parity: a byte is written when the line has been idle long enough. -/
theorem hears_taken_parity :
    let quiet : TxInputs := ⟨false, false, false, 0, false⟩
    let x := (powerUp 0x4000006).step 0x4000006 ⟨true, false, false, 0, false⟩
    let is := List.replicate 97 quiet ++ ⟨false, false, true, 0x55, false⟩ :: List.replicate 70 quiet
    Clocked.Always (step 0x4000006) (fun x _ => x.Hears 0x4000006) x is ∧
      Clocked.emitted (step 0x4000006) (fun x _ => x.rx.delivers.toList) x is = [0x55] := by
  intro quiet x is
  exact ⟨hears_taken 0x4000006 (by decide) _ rfl is (by decide +kernel), by decide +kernel⟩

end Link

end IcoZip.Uart
