import IcoZip.Library.Clocked
import IcoZip.Uart.Rxuartlite

/-! A byte that `txuartlite` takes is given by `rxuartlite` at the other end of the line, a fixed time later. -/

set_option autoImplicit false

namespace IcoZip.Uart

/-- A transmitter with a receiver, and what the transmitter has taken in each clock, the last clock first. -/
structure Lite (txb rxb : Nat) where
  tx : Txuartlite txb
  rx : Rxuartlite rxb
  taken : List (Option (BitVec 8))

namespace Lite

variable {txb rxb : Nat}

def powerUp : Lite txb rxb := ⟨.powerUp, .powerUp, []⟩

variable (txRate : BitVec txb) (rxRate : BitVec rxb) (x : Lite txb rxb)

/-- An input is `i_wr` with `i_data`. -/
def step (i : Bool × BitVec 8) : Lite txb rxb where
  tx := x.tx.clock txRate i.1 i.2
  rx := x.rx.clock rxRate x.tx.uartTx
  taken := x.tx.begins i.1 i.2 :: x.taken

structure Linked (n m : Nat) : Prop where
  spaced : Serial.Spaced (10 * n) x.taken
  tx : x.tx.At n (Serial.carried x.taken)
  q : x.rx.qUart = Serial.level frame n (Serial.carried x.taken.tail)
  qq : x.rx.qqUart = Serial.level frame n (Serial.carried x.taken.tail.tail)
  rx : x.rx.At n m (Serial.carried x.taken.tail.tail.tail)

variable {txRate rxRate x} {n m : Nat}

theorem linked_powerUp : (powerUp : Lite txb rxb).Linked n m :=
  ⟨trivial, Txuartlite.idle_powerUp, rfl, rfl, rfl, rfl, rfl⟩

theorem Linked.next (linked : x.Linked n m) (tx : txRate.toNat = n) (rx : rxRate.toNat = m)
    (tolerates : Rxuartlite.Tolerates n m) (i : Bool × BitVec 8) : (x.step txRate rxRate i).Linked n m := by
  have slow : 3 ≤ n := by
    obtain ⟨slow, early, late⟩ := tolerates
    omega
  obtain ⟨sends, spaced⟩ : (x.tx.clock txRate i.1 i.2).At n (Serial.carried (x.tx.begins i.1 i.2 :: x.taken)) ∧
      Serial.Spaced (10 * n) (x.tx.begins i.1 i.2 :: x.taken) :=
    linked.tx.next tx slow linked.spaced
  exact ⟨spaced, sends, linked.tx.line slow, linked.q,
    linked.rx.next rx tolerates linked.spaced.tail.tail.follows linked.qq⟩

/-- A byte is given four clocks and the time to the middle of the stop bit after it has been taken. -/
def Prompt (m : Nat) (x : Lite txb rxb) : Prop := x.rx.delivers = x.taken[m / 2 + 9 * m + 3]?.join

theorem Linked.prompt (linked : x.Linked n m) (tolerates : Rxuartlite.Tolerates n m) : x.Prompt m := by
  have arrives := linked.spaced.tail.tail.tail.arrives tolerates.late
  rw [List.getElem?_tail, List.getElem?_tail, List.getElem?_tail] at arrives
  rw [Prompt, ← arrives]
  obtain ⟨-, phase⟩ := linked.rx
  cases here : Serial.carried x.taken.tail.tail.tail with
  | none =>
    rw [here] at phase
    exact phase.2
  | some c =>
    rw [here] at phase
    exact phase.delivers_eq

/-- In every run, every byte that is taken is given at its time, and nothing else is given. -/
theorem gives_taken (txRate : BitVec txb) (rxRate : BitVec rxb)
    (tolerates : Rxuartlite.Tolerates txRate.toNat rxRate.toNat) (is : List (Bool × BitVec 8)) :
    Clocked.Always (step txRate rxRate) (fun x _ => x.Prompt rxRate.toNat) powerUp is := by
  have free : Clocked.Always (step txRate rxRate) (fun _ _ => True) powerUp is :=
    Clocked.always_of_forall (fun _ _ => trivial) _ is
  have kept (x : Lite txb rxb) (i : Bool × BitVec 8) (linked : x.Linked txRate.toNat rxRate.toNat) (_ : True) :
      (x.step txRate rxRate i).Linked txRate.toNat rxRate.toNat :=
    linked.next rfl rfl tolerates i
  have always := free.with_invariant kept linked_powerUp
  exact always.mono fun _ _ clock => clock.1.prompt tolerates

/-- A receiver that is five percent slow gives the byte when the transmitter has just taken another one. -/
theorem gives_taken_slow :
    let is := (false, 0#8) :: (true, 0x55#8) :: List.replicate 203 (true, 0xaa#8)
    Clocked.Always (step (20 : BitVec 5) (21 : BitVec 5)) (fun x _ => x.Prompt (21 : BitVec 5).toNat) powerUp is ∧
      Clocked.emitted (step (20 : BitVec 5) (21 : BitVec 5)) (fun x _ => x.rx.delivers.toList) powerUp is = [0x55] := by
  intro is
  exact ⟨gives_taken 20 21 ⟨by decide, by decide, by decide⟩ is, by decide +kernel⟩

end Lite

end IcoZip.Uart
