import Mathlib.Data.BitVec
import Mathlib.Data.List.Basic

/-! Shift registers of flags, with a tag on every flag.

Position 0 leaves in the next clock; a new flag may enter at any depth. The
tags of a register, listed in the order in which they leave, are a queue as long
as nothing enters in front of what is already there.
-/

set_option autoImplicit false

namespace ShiftRegister

variable {τ : Type}

/-- One clock: everything moves down a position and an entry is written over what moves to its own. -/
def shift (tags : Nat → Option τ) (entry : Option (Nat × τ)) (p : Nat) : Option τ :=
  match entry with
  | some (q, t) => if p = q then some t else tags (p + 1)
  | none => tags (p + 1)

/-- The tags below a depth, in the order in which they leave. -/
def line (depth : Nat) (tags : Nat → Option τ) : List τ := (List.range depth).filterMap tags

theorem line_empty {depth : Nat} {tags : Nat → Option τ} (empty : ∀ p, tags p = none) : line depth tags = [] := by
  rw [line, List.filterMap_eq_nil_iff]
  exact fun p _ => empty p

theorem line_concat (depth : Nat) (tags : Nat → Option τ) :
    line (depth + 1) tags = line depth tags ++ (tags depth).toList := by
  rw [line, List.range_succ, List.filterMap_append, ← line]
  rfl

theorem line_head (depth : Nat) (tags : Nat → Option τ) :
    line (depth + 1) tags = (tags 0).toList ++ line depth fun p => tags (p + 1) := by
  rw [line, List.range_succ_eq_map, List.filterMap_cons, List.filterMap_map]
  cases tags 0 <;> rfl

/-- Above the last tag the depth does not matter. -/
theorem line_above {low depth : Nat} {tags : Nat → Option τ} (le : low ≤ depth)
    (above : ∀ p, low ≤ p → tags p = none) : line depth tags = line low tags := by
  induction depth, le using Nat.le_induction with
  | base => rfl
  | succ depth le ih => rw [line_concat, above depth le, ih, Option.toList_none, List.append_nil]

/-- A clock in which nothing enters. -/
theorem line_shift {depth : Nat} {tags : Nat → Option τ} (above : tags depth = none) :
    (tags 0).toList ++ line depth (shift tags none) = line depth tags := by
  have whole := line_head depth tags
  rw [line_concat, above, Option.toList_none, List.append_nil] at whole
  exact whole.symm

/-- A clock in which a tag enters behind every other. -/
theorem line_shift_entry {depth q : Nat} {tags : Nat → Option τ} (t : τ) (inside : q < depth)
    (behind : ∀ p, q < p → tags p = none) :
    (tags 0).toList ++ line depth (shift tags (some (q, t))) = line depth tags ++ [t] := by
  have above (p : Nat) (le : q + 1 ≤ p) : shift tags (some (q, t)) p = none := by
    rw [shift, if_neg (by omega)]
    exact behind (p + 1) (by omega)
  have below : line q (shift tags (some (q, t))) = line q fun p => tags (p + 1) := by
    apply List.filterMap_congr
    intro p member
    rw [shift, if_neg (List.mem_range.mp member).ne]
  rw [line_above inside above, line_above inside behind, line_concat, line_head, below, shift, if_pos rfl,
    Option.toList_some, List.append_assoc]

/-! ### The flags -/

variable {n : Nat}

/-- The flags of the register are up where there are tags. -/
def Marks (flags : BitVec n) (tags : Nat → Option τ) : Prop := ∀ p, (tags p).isSome = flags.getLsbD p

theorem Marks.empty {flags : BitVec n} {tags : Nat → Option τ} (marks : Marks flags tags) {p : Nat}
    (down : flags.getLsbD p = false) : tags p = none := by
  rw [← marks p] at down
  simpa using down

theorem marks_zero : Marks (0 : BitVec n) fun _ => (none : Option τ) := by
  intro p
  exact (BitVec.getLsbD_zero).symm

theorem Marks.shift {flags : BitVec n} {tags : Nat → Option τ} (marks : Marks flags tags) :
    Marks (flags >>> 1) (ShiftRegister.shift tags none) := by
  intro p
  rw [BitVec.getLsbD_ushiftRight, Nat.add_comm 1 p]
  exact marks (p + 1)

theorem Marks.enter {flags : BitVec n} {tags : Nat → Option τ} (marks : Marks flags tags) {q : Nat} (t : τ)
    (inside : q < n) : Marks (flags >>> 1 ||| BitVec.twoPow n q) (ShiftRegister.shift tags (some (q, t))) := by
  intro p
  rw [BitVec.getLsbD_or, BitVec.getLsbD_ushiftRight, Nat.add_comm 1 p, BitVec.getLsbD_twoPow, ShiftRegister.shift]
  by_cases here : p = q
  · subst here
    simp [inside]
  · rw [if_neg here, marks (p + 1)]
    simp [Ne.symm here]

/-- How many flags are up. -/
def count (flags : BitVec n) : Nat := (List.range n).countP flags.getLsbD

theorem Marks.count {flags : BitVec n} {tags : Nat → Option τ} (marks : Marks flags tags) :
    (line n tags).length = ShiftRegister.count flags := by
  rw [line, List.length_filterMap_eq_countP, ShiftRegister.count]
  apply List.countP_congr
  intro p _
  rw [marks p]

end ShiftRegister
