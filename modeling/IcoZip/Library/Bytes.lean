import IcoZip.Library.Fields
import Mathlib.Tactic.IntervalCases

/-! The four bytes of a 32-bit word. -/

set_option autoImplicit false

namespace Bytes

/-- The word with the given bytes, byte 0 the least significant. -/
def ofBytes (b : Nat → BitVec 8) : BitVec 32 := b 3 ++ (b 2 ++ (b 1 ++ b 0))

def byte (w : BitVec 32) (j : Nat) : BitVec 8 := w.extractLsb' (8 * j) 8

theorem byte_ofBytes (b : Nat → BitVec 8) {j : Nat} (small : j < 4) : byte (ofBytes b) j = b j := by
  apply BitVec.eq_of_getLsbD_eq
  intro i bit
  simp only [byte, ofBytes, BitVec.getLsbD_extractLsb', BitVec.getLsbD_append]
  interval_cases j <;> interval_cases i <;> simp

theorem getLsbD_ofBytes (b : Nat → BitVec 8) {i : Nat} (small : i < 32) :
    (ofBytes b).getLsbD i = (b (i / 8)).getLsbD (i % 8) := by
  simp only [ofBytes, BitVec.getLsbD_append]
  interval_cases i <;> simp

theorem getLsbD_byte (w : BitVec 32) {i : Nat} : (byte w (i / 8)).getLsbD (i % 8) = w.getLsbD i := by
  have place : 8 * (i / 8) + i % 8 = i := Nat.div_add_mod i 8
  have bound : i % 8 < 8 := Nat.mod_lt i (by decide)
  simp [byte, place, bound]

theorem ofBytes_byte (w : BitVec 32) : ofBytes (byte w) = w := by
  apply BitVec.eq_of_getLsbD_eq
  intro i small
  rw [getLsbD_ofBytes _ small, getLsbD_byte]

theorem ofBytes_congr {b c : Nat → BitVec 8} (same : ∀ j < 4, b j = c j) : ofBytes b = ofBytes c := by
  rw [ofBytes, ofBytes, same 0 (by decide), same 1 (by decide), same 2 (by decide), same 3 (by decide)]

/-! ### Words put together of bytes, halves and zeros -/

/-- The word of four bytes, the most significant one first. -/
def quad (a b c d : BitVec 8) : BitVec 32 := a ++ (b ++ (c ++ d))

section
variable (a b c d : BitVec 8)

theorem quad_eq :
    quad a b c d = ofBytes fun j => if j = 3 then a else if j = 2 then b else if j = 1 then c else d := rfl

@[simp] theorem byte_quad_zero : byte (quad a b c d) 0 = d := by
  rw [quad_eq, byte_ofBytes _ (by decide)]
  rfl

@[simp] theorem byte_quad_one : byte (quad a b c d) 1 = c := by
  rw [quad_eq, byte_ofBytes _ (by decide)]
  rfl

@[simp] theorem byte_quad_two : byte (quad a b c d) 2 = b := by
  rw [quad_eq, byte_ofBytes _ (by decide)]
  rfl

@[simp] theorem byte_quad_three : byte (quad a b c d) 3 = a := by
  rw [quad_eq, byte_ofBytes _ (by decide)]
  rfl

theorem halves : (a ++ b : BitVec 16) ++ (c ++ d : BitVec 16) = quad a b c d := BitVec.append_assoc

theorem upperHalf : (a ++ b : BitVec 16) ++ 0#16 = quad a b 0 0 := halves a b 0 0

theorem lowerHalf : 0#16 ++ (a ++ b : BitVec 16) = quad 0 0 a b := halves 0 0 a b

theorem fourth : a ++ 0#24 = quad a 0 0 0 := rfl

theorem third : 0#8 ++ (a ++ 0#16) = quad 0 a 0 0 := rfl

theorem first : 0#24 ++ a = quad 0 0 0 a := by
  have pair : (0#8 ++ 0#16 : BitVec 24) ++ a = 0#8 ++ (0#16 ++ a) := BitVec.append_assoc
  have rest : (0#8 ++ 0#8 : BitVec 16) ++ a = 0#8 ++ (0#8 ++ a) := BitVec.append_assoc
  exact pair.trans (congrArg (0#8 ++ ·) rest)

end

theorem half_eq (w : BitVec 32) (j : Nat) : w.extractLsb' (8 * j) 16 = byte w (j + 1) ++ byte w j :=
  (@Fields.joined 8 8 32 w (8 * j)).symm

end Bytes
