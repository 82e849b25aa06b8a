import Mathlib.Data.List.Basic
import Mathlib.Data.List.Range
import Mathlib.Tactic.Common

/-! Allocated blocks of memory with checked accesses.

A block has a size and a cell for every offset; loads and stores outside of the
size fail. `window` reads a range as a list and is what the rules are about.
-/

set_option autoImplicit false

/-- An allocated block. -/
structure Block (A : Type) where
  size : Nat
  cell : Nat → A

namespace Block

variable {A : Type}

/-- The cells of a range, whether it is inside the block or not. -/
def window (b : Block A) (pos len : Nat) : List A := (List.range len).map fun k => b.cell (pos + k)

/-- Reading a range. -/
def load (b : Block A) (pos len : Nat) : Option (List A) :=
  if pos + len ≤ b.size then some (b.window pos len) else none

/-- Writing one cell. -/
def store (b : Block A) (pos : Nat) (x : A) : Option (Block A) :=
  if pos < b.size then some { b with cell := fun k => if k = pos then x else b.cell k } else none

/-- Writing a range. -/
def fill (b : Block A) (pos : Nat) (xs : List A) : Option (Block A) :=
  if pos + xs.length ≤ b.size then
    some { b with cell := fun k => if pos ≤ k then (xs[k - pos]?).getD (b.cell k) else b.cell k }
  else none

@[simp] theorem window_zero (b : Block A) (pos : Nat) : b.window pos 0 = [] := rfl

@[simp] theorem length_window (b : Block A) (pos len : Nat) : (b.window pos len).length = len := by
  simp [window]

theorem window_succ (b : Block A) (pos len : Nat) :
    b.window pos (len + 1) = b.window pos len ++ [b.cell (pos + len)] := by
  simp [window, List.range_succ]

theorem window_append (b : Block A) (pos m n : Nat) :
    b.window pos (m + n) = b.window pos m ++ b.window (pos + m) n := by
  induction n with
  | zero => simp
  | succ n ih => rw [← Nat.add_assoc, window_succ, ih, window_succ, List.append_assoc, Nat.add_assoc]

theorem load_eq {b : Block A} {pos len : Nat} (inside : pos + len ≤ b.size) :
    b.load pos len = some (b.window pos len) := by simp [load, inside]

/-- Storing behind a window extends it. -/
theorem store_window (b : Block A) {pos len : Nat} (inside : pos + len < b.size) (x : A) :
    ∃ b', b.store (pos + len) x = some b' ∧ b'.size = b.size ∧
      b'.window pos (len + 1) = b.window pos len ++ [x] := by
  refine ⟨_, if_pos inside, rfl, ?_⟩
  rw [window_succ]
  congr 1
  · refine List.map_congr_left fun k member => ?_
    have before : k < len := List.mem_range.mp member
    exact if_neg (by omega)
  · simp

/-- A range that has been written is read back. -/
theorem fill_window (b : Block A) (pos : Nat) (xs : List A) (inside : pos + xs.length ≤ b.size) :
    ∃ b', b.fill pos xs = some b' ∧ b'.size = b.size ∧ b'.window pos xs.length = xs := by
  refine ⟨_, if_pos inside, rfl, ?_⟩
  apply List.ext_getElem
  · simp
  · intro k _ bound
    simp [window, List.getElem?_eq_getElem bound]

/-- What writing a range does, cell by cell. -/
theorem fill_spec (b : Block A) (pos : Nat) (xs : List A) (inside : pos + xs.length ≤ b.size) :
    ∃ b', b.fill pos xs = some b' ∧ b'.size = b.size ∧
      (∀ k (bound : k < xs.length), b'.cell (pos + k) = xs[k]) ∧
      ∀ k, k < pos ∨ pos + xs.length ≤ k → b'.cell k = b.cell k := by
  refine ⟨_, if_pos inside, rfl, fun k bound => ?_, fun k outside => ?_⟩
  · simp [List.getElem?_eq_getElem bound]
  · rcases outside with before | behind
    · exact if_neg (by omega)
    · have none_ : xs[k - pos]? = none := List.getElem?_eq_none (by omega)
      simp [none_]

end Block
