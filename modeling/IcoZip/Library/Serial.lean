import Mathlib.Data.List.Basic
import Mathlib.Tactic.Common

/-! Frames on a serial line.

A line is high between frames. What is on it is known from what has begun on it in each clock
before, the last clock first.
-/

set_option autoImplicit false

namespace Serial

variable {F : Type}

/-- The last frame that has begun, with the clocks since then. -/
def carried : List (Option F) → Option (F × Nat)
  | [] => none
  | some f :: _ => some (f, 0)
  | none :: l => (carried l).map fun c => (c.1, c.2 + 1)

/-- A frame begins when the one before it has had its clocks. -/
def Spaced (length : Nat) : List (Option F) → Prop
  | [] => True
  | none :: l => Spaced length l
  | some _ :: l => Spaced length l ∧ ∀ c, carried l = some c → length ≤ c.2 + 1

/-- What a line carries in two clocks on end. -/
inductive Follows (length : Nat) : Option (F × Nat) → Option (F × Nat) → Prop where
  | idle : Follows length none none
  | goes (f : F) (age : Nat) : Follows length (some (f, age)) (some (f, age + 1))
  | first (f : F) : Follows length none (some (f, 0))
  | next (f g : F) (age : Nat) (elapsed : length ≤ age + 1) : Follows length (some (f, age)) (some (g, 0))

/-- The line, for frames whose bits last `n` clocks. -/
def level (bits : F → List Bool) (n : Nat) : Option (F × Nat) → Bool
  | none => true
  | some (f, age) => (bits f).getD (age / n) true

/-- The first frame comes late. -/
def Late (k : Nat) : List (Option F) → Prop
  | [] => True
  | none :: l => Late k l
  | some _ :: l => Late k l ∧ (carried l = none → k ≤ l.length)

variable {length : Nat} {l : List (Option F)}

theorem Late.tail {k : Nat} (late : Late k l) : Late k l.tail := by
  cases l with
  | nil => trivial
  | cons e l =>
    cases e with
    | none => exact late
    | some f => exact late.1

theorem Late.length_lt {k : Nat} (late : Late k l) (some : carried l ≠ none) : k < l.length := by
  induction l with
  | nil => exact absurd rfl some
  | cons e l ih =>
    rw [List.length_cons]
    cases e with
    | none =>
      have before : carried l ≠ none := fun idle => some (by rw [carried, idle, Option.map_none])
      exact Nat.lt_succ_of_lt (ih late before)
    | some f =>
      by_cases idle : carried l = none
      · exact Nat.lt_succ_of_le (late.2 idle)
      · exact Nat.lt_succ_of_lt (ih late.1 idle)

theorem Spaced.tail (spaced : Spaced length l) : Spaced length l.tail := by
  cases l with
  | nil => trivial
  | cons e l =>
    cases e with
    | none => exact spaced
    | some f => exact spaced.1

theorem Spaced.follows (spaced : Spaced length l) : Follows length (carried l.tail) (carried l) := by
  cases l with
  | nil => exact .idle
  | cons e l =>
    cases e with
    | none =>
      cases before : carried l with
      | none => simpa [carried, before] using Follows.idle
      | some c => simpa [carried, before] using Follows.goes c.1 c.2
    | some f =>
      cases before : carried l with
      | none => simpa [carried, before] using Follows.first f
      | some c => simpa [carried, before] using Follows.next c.1 f c.2 (spaced.2 c before)

/-- Within the clocks of a frame the line carries what has begun at its start. -/
theorem Spaced.carried_iff (spaced : Spaced length l) {f : F} {age : Nat} (within : age < length) :
    carried l = some (f, age) ↔ l[age]? = some (some f) := by
  induction l generalizing age with
  | nil => simp [carried]
  | cons e l ih =>
    cases e with
    | none =>
      cases age with
      | zero => simp [carried]
      | succ age =>
        rw [List.getElem?_cons_succ, ← ih spaced (Nat.lt_of_succ_lt within)]
        simp [carried, Prod.ext_iff]
    | some g =>
      cases age with
      | zero => simp [carried]
      | succ age =>
        rw [List.getElem?_cons_succ, ← ih spaced.1 (Nat.lt_of_succ_lt within)]
        have late : carried l ≠ some (f, age) := fun here =>
          absurd (spaced.2 _ here) (Nat.not_le_of_lt within)
        simp [carried, late]

/-- What has come up so far, if it is as far as `age`. -/
theorem Spaced.arrives (spaced : Spaced length l) {age : Nat} (within : age < length) :
    ((carried l).bind fun c => if c.2 = age then some c.1 else none) = l[age]?.join := by
  cases here : l[age]?.join with
  | some f =>
    have begun : l[age]? = some (some f) := Option.join_eq_some_iff.mp here
    rw [(spaced.carried_iff within).mpr begun]
    simp
  | none =>
    cases before : carried l with
    | none => rfl
    | some c =>
      rw [Option.bind_some, if_neg]
      intro at'
      have begun := (spaced.carried_iff within).mp (before.trans (congrArg some (Prod.ext rfl at')))
      rw [begun] at here
      contradiction

/-- A clock goes on with a bit, or begins the next one. -/
theorem next_bit {n : Nat} (pos : 0 < n) (age : Nat) :
    (age % n + 1 < n ∧ (age + 1) / n = age / n ∧ (age + 1) % n = age % n + 1) ∨
      (age % n + 1 = n ∧ (age + 1) / n = age / n + 1 ∧ (age + 1) % n = 0) := by
  have split := Nat.div_add_mod age n
  rcases Nat.lt_or_eq_of_le (Nat.succ_le_of_lt (Nat.mod_lt age pos)) with less | last
  · left
    have here : age + 1 = (age % n + 1) + n * (age / n) := by omega
    refine ⟨less, ?_, ?_⟩
    · rw [here, Nat.add_mul_div_left _ _ pos, Nat.div_eq_of_lt less, Nat.zero_add]
    · rw [here, Nat.add_mul_mod_self_left, Nat.mod_eq_of_lt less]
  · right
    have here : age + 1 = n * (age / n + 1) := by rw [Nat.mul_succ]; omega
    exact ⟨last, by rw [here, Nat.mul_div_cancel_left _ pos], by rw [here, Nat.mul_mod_right]⟩

/-- The clocks before the last one of `m + 1` bits. -/
theorem within_iff {n : Nat} (pos : 0 < n) (m age : Nat) :
    age + 1 < (m + 1) * n ↔ age / n < m ∨ age / n = m ∧ age % n + 1 < n := by
  have split := Nat.div_add_mod age n
  have less := Nat.mod_lt age pos
  rw [Nat.succ_mul, Nat.mul_comm m n]
  rcases Nat.lt_trichotomy (age / n) m with before | here | past
  · have room : n * (age / n) + n ≤ n * m := by
      rw [← Nat.mul_succ]
      exact Nat.mul_le_mul_left n before
    exact ⟨fun _ => .inl before, fun _ => by omega⟩
  · rw [here] at split ⊢
    omega
  · have room : n * m + n ≤ n * (age / n) := by
      rw [← Nat.mul_succ]
      exact Nat.mul_le_mul_left n past
    omega

section Levels
variable {bits : F → List Bool} {n age k : Nat} {f : F}

theorem level_bit (begun : k * n ≤ age) (within : age < (k + 1) * n) :
    level bits n (some (f, age)) = (bits f).getD k true := by
  rw [level, Nat.div_eq_of_lt_le begun within]

end Levels

end Serial
