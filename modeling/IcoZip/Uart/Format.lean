import IcoZip.Library.Fields
import IcoZip.Library.Serial
import IcoZip.Library.ShiftAdd
import Mathlib.Data.BitVec
import Mathlib.Data.List.OfFn

/-! The frames of `txuart` and `rxuart`: what the setup register says about them, and the states
that both go through in a frame.
-/

set_option autoImplicit false

namespace IcoZip.Uart

/-- `parityBit` is bit 24 of the setup register. -/
structure Format where
  dataBits : BitVec 2
  dblstop : Bool
  useParity : Bool
  fixdParity : Bool
  parityBit : Bool
  deriving DecidableEq, Repr

def format (setup : BitVec 31) : Format where
  dataBits := setup.extractLsb' 28 2
  dblstop := setup.getLsbD 27
  useParity := setup.getLsbD 26
  fixdParity := setup.getLsbD 25
  parityBit := setup.getLsbD 24

def clocksPerBaud (setup : BitVec 31) : BitVec 28 := 0#4 ++ setup.extractLsb' 0 24

def breakCondition (setup : BitVec 31) : BitVec 28 := setup.extractLsb' 0 24 ++ 0#4

/-- The clocks of a bit. -/
def rate (setup : BitVec 31) : Nat := (setup.extractLsb' 0 24).toNat

namespace Format

variable (f : Format)

def bits : Nat := 8 - f.dataBits.toNat

/-- The number of bits behind the start bit. -/
def samples : Nat := f.bits + f.useParity.toNat + 1 + f.dblstop.toNat

/-- The sum of the first data bits, modulo 2. -/
def sum (byte : BitVec 8) (k : Nat) : Bool := (List.range k).foldl (fun p j => p ^^ byte.getLsbD j) false

/-- The parity bit that is sent. -/
def parity (byte : BitVec 8) : Bool :=
  if f.fixdParity then f.parityBit else f.parityBit ^^ sum byte f.bits

/-- The receiver takes a computed parity for the opposite of what the transmitter sends. -/
def misread : Bool := f.useParity && !f.fixdParity

def frame (byte : BitVec 8) : List Bool :=
  false :: (List.ofFn fun j : Fin f.bits => byte.getLsbD j) ++ (if f.useParity then [f.parity byte] else []) ++
    if f.dblstop then [true, true] else [true]

/-- The first state of a frame. -/
def first : BitVec 4 := 0#2 ++ f.dataBits

/-- The state behind another one. -/
def next (state : BitVec 4) : BitVec 4 :=
  if state < 7 then state + 1
  else if state = 7 then if f.useParity then 8 else 9
  else if state = 8 then 9
  else if state = 9 then if f.dblstop then 10 else 15
  else 15

/-- The state in which the bit with a number is sent or waited for. -/
def state : Nat → BitVec 4
  | 0 => f.first
  | k + 1 => f.next (state k)

/-- The byte as far as the frame has it. -/
def kept (byte : BitVec 8) : BitVec 8 := byte <<< f.dataBits.toNat >>> f.dataBits.toNat

end Format

/-- What the states of a frame are. -/
structure Format.Course (f : Format) (k : Nat) : Prop where
  data : f.state k < 8#4 ↔ k < f.bits
  last : f.state k = 7#4 ↔ k + 1 = f.bits
  parity : f.state k = 8#4 ↔ f.useParity = true ∧ k = f.bits
  stop : f.state k = 9#4 ↔ k = f.bits + f.useParity.toNat
  second : f.state k = 10#4 ↔ f.dblstop = true ∧ k = f.bits + f.useParity.toNat + 1
  busy : f.state k ≤ 10#4

theorem courses : ∀ (d : BitVec 2) (dbl par fix bit : Bool) (k : Fin 11),
    let f : Format := ⟨d, dbl, par, fix, bit⟩
    k.val < f.samples → ((f.state k < 8#4 ↔ k < f.bits) ∧ (f.state k = 7#4 ↔ k + 1 = f.bits)) ∧
      ((f.state k = 8#4 ↔ f.useParity = true ∧ k = f.bits) ∧ (f.state k = 9#4 ↔ k = f.bits + f.useParity.toNat)) ∧
        (f.state k = 10#4 ↔ f.dblstop = true ∧ k = f.bits + f.useParity.toNat + 1) ∧ f.state k ≤ 10#4 := by
  decide +kernel

section Rate
variable (setup : BitVec 31)

theorem rate_lt : rate setup < 2 ^ 24 := (setup.extractLsb' 0 24).isLt

theorem clocksPerBaud_toNat : (clocksPerBaud setup).toNat = rate setup := Fields.toNat_zero_append _

theorem breakCondition_toNat : (breakCondition setup).toNat = 16 * rate setup := by
  rw [breakCondition, ShiftAdd.toNat_append, rate, Nat.mul_comm]
  rfl

end Rate

namespace Format

variable (f : Format)

theorem sum_succ (byte : BitVec 8) (k : Nat) : sum byte (k + 1) = (sum byte k ^^ byte.getLsbD k) := by
  rw [sum, List.range_succ, List.foldl_append]
  rfl

/-- A register that has shifted a byte out goes on. -/
theorem shifted (x : BitVec 8) : x >>> 1 = 0#1 ++ x.extractLsb' 1 7 := by
  apply BitVec.eq_of_getLsbD_eq
  intro j small
  rw [BitVec.getLsbD_ushiftRight, BitVec.getLsbD_append, BitVec.getLsbD_extractLsb']
  by_cases inside : j < 7
  · simp [inside]
  · have top : x.getLsbD (1 + j) = false := BitVec.getLsbD_of_ge x (1 + j) (by omega)
    simp [inside, top]

theorem bits_le : 5 ≤ f.bits ∧ f.bits ≤ 8 := by
  have small := f.dataBits.isLt
  rw [bits]
  omega

theorem samples_le : 6 ≤ f.samples ∧ f.samples ≤ 11 := by
  have bits := f.bits_le
  have parity := f.useParity.toNat_le
  have second := f.dblstop.toNat_le
  rw [samples]
  omega

theorem course {k : Nat} (within : k < f.samples) : f.Course k := by
  have small : k < 11 := Nat.lt_of_lt_of_le within f.samples_le.2
  obtain ⟨⟨data, last⟩, ⟨parity, stop⟩, second, busy⟩ :=
    courses f.dataBits f.dblstop f.useParity f.fixdParity f.parityBit ⟨k, small⟩ within
  exact ⟨data, last, parity, stop, second, busy⟩

/-- A frame ends in the state between frames. -/
theorem state_samples : f.state f.samples = 15#4 := by
  have ends : ∀ (d : BitVec 2) (dbl par fix bit : Bool),
      (⟨d, dbl, par, fix, bit⟩ : Format).state (⟨d, dbl, par, fix, bit⟩ : Format).samples = 15#4 := by
    decide +kernel
  exact ends f.dataBits f.dblstop f.useParity f.fixdParity f.parityBit

/-- The states between frames and in a break are none of a frame. -/
theorem Course.active {f : Format} {k : Nat} (course : f.Course k) : f.state k ≠ 14#4 ∧ f.state k ≠ 15#4 := by
  have busy := course.busy
  constructor <;> intro here <;> rw [here] at busy <;> exact absurd busy (by decide)

theorem state_last {k : Nat} (within : k ≤ f.samples) :
    (if f.dblstop then f.state k == 10#4 else f.state k == 9#4) = decide (k + 1 = f.samples) := by
  rcases Nat.lt_or_eq_of_le within with inside | rfl
  · have course := f.course inside
    cases dbl : f.dblstop with
    | true =>
      have second := course.second
      simp only [dbl, true_and] at second
      rw [if_pos rfl, Bool.eq_iff_iff, beq_iff_eq, decide_eq_true_eq, second, samples, dbl, Bool.toNat_true]
      omega
    | false =>
      rw [if_neg Bool.false_ne_true, Bool.eq_iff_iff, beq_iff_eq, decide_eq_true_eq, course.stop, samples, dbl,
        Bool.toNat_false]
      omega
  · rw [f.state_samples, decide_eq_false (Nat.succ_ne_self _)]
    cases f.dblstop <;> rfl

theorem frame_data (byte : BitVec 8) {k : Nat} (data : k < f.bits) :
    (f.frame byte).getD (k + 1) true = byte.getLsbD k := by
  rw [frame, List.cons_append, List.cons_append, List.getD_cons_succ, List.getD_eq_getElem?_getD, List.append_assoc,
    List.getElem?_append_left (by simpa using data), List.getElem?_ofFn, dif_pos data]
  rfl

theorem frame_parity (byte : BitVec 8) (uses : f.useParity = true) :
    (f.frame byte).getD (f.bits + 1) true = f.parity byte := by
  rw [frame, List.cons_append, List.cons_append, List.getD_cons_succ, List.getD_eq_getElem?_getD, List.append_assoc,
    List.getElem?_append_right (by simp), List.length_ofFn, Nat.sub_self, if_pos uses]
  rfl

/-- Behind the data and the parity the line is high. -/
theorem frame_stop (byte : BitVec 8) {k : Nat} (stop : f.bits + f.useParity.toNat < k) :
    (f.frame byte).getD k true = true := by
  obtain ⟨k, rfl⟩ : ∃ j, k = j + 1 := ⟨k - 1, by omega⟩
  have data : (List.ofFn fun j : Fin f.bits => byte.getLsbD j).length ≤ k := by
    rw [List.length_ofFn]
    omega
  rw [frame, List.cons_append, List.cons_append, List.getD_cons_succ, List.getD_eq_getElem?_getD, List.append_assoc,
    List.getElem?_append_right data, List.length_ofFn]
  have high (j : Nat) : ((if f.dblstop then [true, true] else [true])[j]?).getD true = true := by
    cases f.dblstop <;> rcases j with - | - | j <;> rfl
  cases uses : f.useParity with
  | false => exact high _
  | true =>
    rw [uses, Bool.toNat_true] at stop
    obtain ⟨j, past⟩ : ∃ j, k - f.bits = j + 1 := ⟨k - f.bits - 1, by omega⟩
    rw [past]
    exact high j

end Format

end IcoZip.Uart
