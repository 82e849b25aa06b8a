import Mathlib.Data.List.Basic

/-! Memories whose writes cover some of the lanes of a cell.

A lane of a cell holds what the last write that covers it has put there. -/

set_option autoImplicit false

namespace Masked

variable {α ι β : Type}

/-- An access to a cell; a read covers no lane. -/
structure Access (α ι β : Type) where
  addr : α
  lanes : ι → Option β

variable [DecidableEq α]

def Access.covers (x : Access α ι β) (a : α) (lane : ι) : Option β := if x.addr = a then x.lanes lane else none

/-- The value of the latest access that covers a lane, or else the initial one. -/
def latest (initial : α → ι → β) (history : List (Access α ι β)) (a : α) (lane : ι) : β :=
  (history.reverse.findSome? fun x => x.covers a lane).getD (initial a lane)

@[simp] theorem latest_nil (initial : α → ι → β) (a : α) (lane : ι) : latest initial [] a lane = initial a lane := rfl

theorem latest_concat (initial : α → ι → β) (history : List (Access α ι β)) (x : Access α ι β) (a : α) (lane : ι) :
    latest initial (history ++ [x]) a lane = (x.covers a lane).getD (latest initial history a lane) := by
  rw [latest, List.reverse_append, List.reverse_singleton, List.singleton_append, List.findSome?_cons]
  cases x.covers a lane <;> rfl

end Masked
