import Mathlib.Data.BitVec
import Mathlib.Data.List.Basic
import Mathlib.Tactic.Common
import Mathlib.Tactic.SplitIfs

/-! Requests that are answered one at a time, in the order they were accepted,
and blocks of consecutive addresses.
-/

set_option autoImplicit false

namespace Pipelined

variable {A : Type}

/-- The request answered at a clock, out of those that can be. -/
def reply (queue : List A) (answer : Bool) : Option A := if answer then queue.head? else none

/-- The requests still to be answered. -/
def rest (queue : List A) (answer : Bool) : List A := if answer then queue.tail else queue

/-- No request is lost, and none is answered twice. -/
theorem reply_rest (queue : List A) (answer : Bool) : (reply queue answer).toList ++ rest queue answer = queue := by
  cases answer <;> cases queue <;> rfl

theorem rest_of_none {queue : List A} {answer : Bool} (none : reply queue answer = none) :
    rest queue answer = queue := by
  have whole := reply_rest queue answer
  rwa [none] at whole

theorem rest_of_some {queue : List A} {answer : Bool} {a : A} (some : reply queue answer = some a) :
    queue = a :: rest queue answer := by
  have whole := reply_rest queue answer
  rw [some] at whole
  exact whole.symm

@[simp] theorem reply_nil (answer : Bool) : reply ([] : List A) answer = none := by cases answer <;> rfl

@[simp] theorem rest_nil (answer : Bool) : rest ([] : List A) answer = [] := by cases answer <;> rfl

@[simp] theorem reply_false (queue : List A) : reply queue false = none := rfl

@[simp] theorem rest_false (queue : List A) : rest queue false = queue := rfl

@[simp] theorem reply_cons (a : A) (queue : List A) : reply (a :: queue) true = some a := rfl

@[simp] theorem rest_cons (a : A) (queue : List A) : rest (a :: queue) true = queue := rfl

theorem rest_length (queue : List A) (answer : Bool) : (rest queue answer).length = queue.length - answer.toNat := by
  cases answer <;> simp [rest]

theorem rest_append {queue : List A} (more : List A) {answer : Bool} (some : answer = true → queue ≠ []) :
    rest (queue ++ more) answer = rest queue answer ++ more := by
  cases answer with
  | false => rfl
  | true => exact List.tail_append_of_ne_nil (some rfl)

variable {w : Nat}

/-- `n` consecutive addresses. -/
def addresses (a : BitVec w) : Nat → List (BitVec w)
  | 0 => []
  | n + 1 => a :: addresses (a + 1) n

@[simp] theorem addresses_zero (a : BitVec w) : addresses a 0 = [] := rfl

@[simp] theorem addresses_succ (a : BitVec w) (n : Nat) : addresses a (n + 1) = a :: addresses (a + 1) n := rfl

@[simp] theorem addresses_length (a : BitVec w) (n : Nat) : (addresses a n).length = n := by
  induction n generalizing a with
  | zero => rfl
  | succ n ih => simp [ih]

theorem one_add (a : BitVec w) (m : Nat) : a + 1 + BitVec.ofNat w m = a + BitVec.ofNat w (m + 1) := by
  rw [BitVec.add_assoc, Nat.add_comm m 1, BitVec.ofNat_add]
  rfl

theorem addresses_drop (a : BitVec w) (m n : Nat) :
    (addresses a n).drop m = addresses (a + BitVec.ofNat w m) (n - m) := by
  induction m generalizing a n with
  | zero => simp
  | succ m ih =>
    cases n with
    | zero => simp
    | succ n =>
      rw [addresses_succ, List.drop_succ_cons, ih, one_add, Nat.add_sub_add_right]

/-- How many of `n` requests are answered at a clock. -/
def answered (n : Nat) (answer : Bool) : Nat := if answer then min n 1 else 0

theorem answered_le (n : Nat) (answer : Bool) : answered n answer ≤ n ∧ answered n answer ≤ 1 := by
  unfold answered
  split_ifs <;> omega

theorem reply_addresses (a : BitVec w) (n : Nat) (answer : Bool) :
    (reply (addresses a n) answer).toList = addresses a (answered n answer) := by
  cases answer <;> cases n <;> simp [reply, answered]

theorem rest_addresses (a : BitVec w) (n : Nat) (answer : Bool) :
    rest (addresses a n) answer = addresses (a + BitVec.ofNat w (answered n answer)) (n - answered n answer) := by
  cases answer <;> cases n <;> simp [rest, answered]

theorem addresses_append (a : BitVec w) (m n : Nat) :
    addresses a (m + n) = addresses a m ++ addresses (a + BitVec.ofNat w m) n := by
  induction m generalizing a with
  | zero => simp
  | succ m ih =>
    rw [Nat.succ_add, addresses_succ, ih, one_add]
    rfl

end Pipelined
