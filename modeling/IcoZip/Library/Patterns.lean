import IcoZip.Library.Fields

/-! Words of which some bits are known, and patterns of a mask and a value that they match. -/

set_option autoImplicit false

namespace Patterns

variable {w : Nat} {x known value mask val : BitVec w}

/-- A pattern with a known bit that differs does not match. -/
theorem clash (knows : x &&& known = value) (differs : (value ^^^ val) &&& (mask &&& known) ≠ 0#w) : x &&& mask ≠ val := by
  intro matched
  apply differs
  rw [← knows, ← matched]
  apply BitVec.eq_of_getLsbD_eq
  intro p bound
  simp only [BitVec.getLsbD_and, BitVec.getLsbD_xor, BitVec.getLsbD_zero]
  cases x.getLsbD p <;> cases known.getLsbD p <;> cases mask.getLsbD p <;> rfl

/-- A pattern whose bits are all known is matched or not by the known ones. -/
theorem sure (knows : x &&& known = value) (inside : mask &&& known = mask) : x &&& mask = value &&& mask := by
  rw [← knows, BitVec.and_assoc, BitVec.and_comm known, inside]

theorem both {known' value' : BitVec w} (knows : x &&& known = value) (knows' : x &&& known' = value') :
    x &&& (known ||| known') = value ||| value' := by
  rw [BitVec.and_or_distrib_left, knows, knows']

/-- A known field. -/
theorem field {s n : Nat} {f : BitVec n} (eq : x.extractLsb' s n = f) :
    x &&& ((BitVec.allOnes n).setWidth w <<< s) = f.setWidth w <<< s := by
  subst eq
  apply BitVec.eq_of_getLsbD_eq
  intro p bound
  simp only [BitVec.getLsbD_and, BitVec.getLsbD_shiftLeft, BitVec.getLsbD_setWidth, BitVec.getLsbD_allOnes,
    BitVec.getLsbD_extractLsb', bound, decide_true, Bool.true_and]
  by_cases below : p < s
  · simp [below]
  · by_cases inside : p - s < n
    · have place : s + (p - s) = p := by omega
      simp [below, inside, place, show p - s < w by omega]
    · simp [below, inside]

/-- A known bit. -/
theorem bit {s : Nat} {b : Bool} (eq : x.getLsbD s = b) :
    x &&& ((BitVec.allOnes 1).setWidth w <<< s) = (BitVec.ofBool b).setWidth w <<< s :=
  field ((Fields.bit x s).trans (congrArg BitVec.ofBool eq))

/-- A field whose bits are all known. -/
theorem known_field (knows : x &&& known = value) (s n : Nat) (inside : known.extractLsb' s n = BitVec.allOnes n) :
    x.extractLsb' s n = value.extractLsb' s n := by
  rw [← knows, BitVec.extractLsb'_and, inside, BitVec.and_allOnes]

theorem bit_of_known (knows : x &&& known = value) (p : Nat) (inside : known.extractLsb' p 1 = BitVec.allOnes 1) :
    x.getLsbD p = value.getLsbD p := by
  have one := known_field knows p 1 inside
  rw [Fields.bit, Fields.bit] at one
  exact Fields.ofBool_inj one

/-- The low part of a word. -/
theorem low (n : Nat) : x &&& (BitVec.allOnes n).setWidth w = (x.extractLsb' 0 n).setWidth w := by
  apply BitVec.eq_of_getLsbD_eq
  intro p bound
  simp only [BitVec.getLsbD_and, BitVec.getLsbD_setWidth, BitVec.getLsbD_allOnes, BitVec.getLsbD_extractLsb', bound,
    decide_true, Bool.true_and, Nat.zero_add]
  exact Bool.and_comm _ _

end Patterns
