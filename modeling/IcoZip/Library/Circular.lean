import Mathlib.Data.BitVec
import Mathlib.Logic.Function.Basic
import Mathlib.Tactic.Common

/-! A queue in a ring of cells, from the address it is read at to the one it is written at. -/

set_option autoImplicit false

variable {A : Type} {w : Nat}

/-- From `rd` on the cells hold the queue. -/
def Circular (cells : BitVec w → A) : BitVec w → List A → Prop
  | _, [] => True
  | rd, a :: queue => cells rd = a ∧ Circular cells (rd + 1#(w)) queue

namespace Circular
variable {cells : BitVec w → A} {rd : BitVec w} {a : A} {queue : List A}

/-- Where the entry behind `n` others is written. -/
def place (rd : BitVec w) (n : Nat) : BitVec w := rd + BitVec.ofNat w n

@[simp] theorem place_zero (rd : BitVec w) : place rd 0 = rd := by simp [place]

theorem place_succ (rd : BitVec w) (n : Nat) : place rd (n + 1) = place (rd + 1#(w)) n := by
  rw [place, place, Nat.add_comm n 1, BitVec.ofNat_add, BitVec.add_assoc]

@[simp] theorem place_add (rd : BitVec w) (m n : Nat) : place rd n + BitVec.ofNat w m = place rd (n + m) := by
  rw [place, place, BitVec.ofNat_add, BitVec.add_assoc]

theorem place_eq_self (rd : BitVec w) {n : Nat} (positive : 0 < n) (most : n ≤ 2 ^ w) :
    place rd n = rd ↔ n = 2 ^ w := by
  constructor
  · intro same
    by_contra different
    have small : n < 2 ^ w := by omega
    have zero : n % 2 ^ w = 0 := by
      have counts := congrArg (fun a => (a - rd).toNat) same
      simpa [place, BitVec.add_comm rd] using counts
    rw [Nat.mod_eq_of_lt small] at zero
    omega
  · rintro rfl
    have zero : BitVec.ofNat w (2 ^ w) = 0 := by
      apply BitVec.eq_of_toNat_eq
      rw [BitVec.toNat_ofNat, Nat.mod_self]
      exact (Nat.zero_mod _).symm
    rw [place, zero]
    exact BitVec.add_zero rd

/-- How many entries there are. -/
theorem toNat_fill (rd : BitVec w) {n : Nat} (fits : n < 2 ^ w) : (place rd n - rd).toNat = n := by
  rw [place, BitVec.add_comm, BitVec.add_sub_cancel, BitVec.toNat_ofNat, Nat.mod_eq_of_lt fits]

theorem place_inj (rd : BitVec w) {m n : Nat} (small : m < 2 ^ w) (fits : n < 2 ^ w) :
    place rd m = place rd n ↔ m = n := by
  refine ⟨fun same => ?_, fun same => by rw [same]⟩
  rw [← toNat_fill rd small, same, toNat_fill rd fits]

/-- What is written elsewhere leaves the queue alone. -/
theorem update_outside {b : BitVec w} (v : A) (holds : Circular cells rd queue)
    (outside : ∀ k < queue.length, place rd k ≠ b) : Circular (Function.update cells b v) rd queue := by
  induction queue generalizing rd with
  | nil => trivial
  | cons a queue ih =>
    have here : rd ≠ b := by simpa using outside 0 (Nat.succ_pos _)
    refine ⟨by rw [Function.update_of_ne here]; exact holds.1, ih holds.2 fun k inside => ?_⟩
    rw [← place_succ]
    exact outside (k + 1) (Nat.succ_lt_succ inside)

/-- The next cell is free. -/
theorem update_next (v : A) (holds : Circular cells rd queue) (room : queue.length < 2 ^ w) :
    Circular (Function.update cells (place rd queue.length) v) rd queue := by
  refine update_outside v holds fun k inside same => ?_
  have equal := (place_inj rd (Nat.lt_trans inside room) room).mp same
  omega

theorem concat {v : A} (holds : Circular cells rd queue) (next : cells (place rd queue.length) = v) :
    Circular cells rd (queue ++ [v]) := by
  induction queue generalizing rd with
  | nil => exact ⟨by simpa using next, trivial⟩
  | cons a queue ih => exact ⟨holds.1, ih holds.2 (by rw [← place_succ]; exact next)⟩

theorem push (v : A) (holds : Circular cells rd queue) (room : queue.length < 2 ^ w) :
    Circular (Function.update cells (place rd queue.length) v) rd (queue ++ [v]) :=
  (holds.update_next v room).concat (Function.update_self _ _ _)

end Circular
