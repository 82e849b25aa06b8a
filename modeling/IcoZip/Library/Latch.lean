import Mathlib.Data.List.Basic
import Mathlib.Tactic.Common

/-! Latches: what has been set stays until it is cleared.

What happened is a list, the last event first. An event sets a latch or not, which may depend on
the events before it, and it clears the latch or not; one that does both sets it.
-/

set_option autoImplicit false

namespace Latch

variable {E : Type}

/-- Some event has set the latch, and none has cleared it since then. -/
def Stands (sets : E → List E → Prop) (clears : E → Prop) (events : List E) : Prop :=
  ∃ later e earlier, events = later ++ e :: earlier ∧ sets e earlier ∧ ∀ e' ∈ later, ¬clears e'

variable {sets : E → List E → Prop} {clears : E → Prop}

theorem stands_nil : ¬Stands sets clears [] := by
  rintro ⟨later, e, earlier, split, -⟩
  exact List.append_ne_nil_of_right_ne_nil later (List.cons_ne_nil e earlier) split.symm

theorem stands_cons {e : E} {events : List E} :
    Stands sets clears (e :: events) ↔ sets e events ∨ ¬clears e ∧ Stands sets clears events := by
  constructor
  · rintro ⟨later, e', earlier, split, set, kept⟩
    cases later with
    | nil =>
      obtain ⟨rfl, rfl⟩ := List.cons.inj split
      exact .inl set
    | cons e'' later =>
      obtain ⟨rfl, rfl⟩ := List.cons.inj split
      exact .inr ⟨kept e List.mem_cons_self, later, e', earlier, rfl, set,
        fun other member => kept other (List.mem_cons_of_mem e member)⟩
  · rintro (set | ⟨keeps, later, e', earlier, rfl, set, kept⟩)
    · exact ⟨[], e, events, rfl, set, fun _ member => absurd member List.not_mem_nil⟩
    · exact ⟨e :: later, e', earlier, rfl, set, List.forall_mem_cons.mpr ⟨keeps, kept⟩⟩

end Latch
