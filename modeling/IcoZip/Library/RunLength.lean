import Mathlib.Data.List.Basic

/-! Run-length codes: samples, and counts of how often the sample before them
comes again.
-/

set_option autoImplicit false

namespace RunLength

inductive Item (α : Type) where
  | sample (a : α)
  | again (n : Nat)
  deriving DecidableEq, Repr

variable {α : Type}

namespace Item

/-- How many clocks an item stands for. -/
def span : Item α → Nat
  | sample _ => 1
  | again n => n

end Item

def total : List (Item α) → Nat
  | [] => 0
  | item :: rest => item.span + total rest

@[simp] theorem total_nil : total ([] : List (Item α)) = 0 := rfl

@[simp] theorem total_cons (item : Item α) (items : List (Item α)) :
    total (item :: items) = item.span + total items := rfl

theorem total_append (items more : List (Item α)) : total (items ++ more) = total items + total more := by
  induction items with
  | nil => simp
  | cons item rest ih => simp only [List.cons_append, total_cons, ih, Nat.add_assoc]

/-- The samples with the clocks at which they stand. -/
def starts : Nat → List (Item α) → List (Nat × α)
  | _, [] => []
  | t, .sample a :: rest => (t, a) :: starts (t + 1) rest
  | t, .again n :: rest => starts (t + n) rest

theorem starts_shift (d t : Nat) (items : List (Item α)) :
    starts (t + d) items = (starts t items).map fun x => (x.1 + d, x.2) := by
  induction items generalizing t with
  | nil => rfl
  | cons item rest ih =>
    cases item with
    | sample a =>
      have later : t + d + 1 = t + 1 + d := by omega
      simp only [starts, List.map_cons, later, ih]
    | again n =>
      have later : t + d + n = t + n + d := by omega
      simp only [starts, later, ih]

theorem starts_append (t : Nat) (items more : List (Item α)) :
    starts t (items ++ more) = starts t items ++ starts (t + total items) more := by
  induction items generalizing t with
  | nil => rfl
  | cons item rest ih =>
    cases item with
    | sample a => simp only [List.cons_append, starts, ih, total_cons, Item.span, Nat.add_assoc]
    | again n => simp only [List.cons_append, starts, ih, total_cons, Item.span, Nat.add_assoc]

theorem starts_lt {t : Nat} {items : List (Item α)} {x : Nat × α} (member : x ∈ starts t items) :
    x.1 < t + total items := by
  induction items generalizing t with
  | nil => simp [starts] at member
  | cons item rest ih =>
    cases item with
    | sample a =>
      simp only [total_cons, Item.span]
      rcases List.mem_cons.mp member with rfl | later
      · simp only
        omega
      · have := ih later
        omega
    | again n =>
      have := ih member
      simp only [total_cons, Item.span]
      omega

/-- The sample that an item behind these would repeat. -/
def lastOf : Option α → List (Item α) → Option α
  | last, [] => last
  | _, .sample a :: rest => lastOf (some a) rest
  | last, .again _ :: rest => lastOf last rest

/-- The clocks that the items stand for; counts without a sample before them are skipped. -/
def expand : Option α → List (Item α) → List α
  | _, [] => []
  | _, .sample a :: rest => a :: expand (some a) rest
  | last, .again n :: rest => last.elim [] (List.replicate n) ++ expand last rest

theorem lastOf_append (last : Option α) (items more : List (Item α)) :
    lastOf last (items ++ more) = lastOf (lastOf last items) more := by
  induction items generalizing last with
  | nil => rfl
  | cons item rest ih => cases item <;> exact ih _

theorem expand_append (last : Option α) (items more : List (Item α)) :
    expand last (items ++ more) = expand last items ++ expand (lastOf last items) more := by
  induction items generalizing last with
  | nil => rfl
  | cons item rest ih => cases item <;> simp [expand, lastOf, ih]

theorem expand_sample (last : Option α) (items : List (Item α)) (a : α) :
    expand last (items ++ [.sample a]) = expand last items ++ [a] := by
  rw [expand_append]
  rfl

/-- A count that is larger by one repeats the sample before it once more. -/
theorem expand_again (last : Option α) (items : List (Item α)) (n : Nat) :
    expand last (items ++ [.again (n + 1)]) =
      expand last (items ++ [.again n]) ++ (lastOf last items).toList := by
  rw [expand_append, expand_append, List.append_assoc]
  cases lastOf last items <;> simp [expand, List.replicate_succ']

theorem expand_again_zero (last : Option α) (items : List (Item α)) :
    expand last (items ++ [.again 0]) = expand last items := by
  rw [expand_append]
  cases lastOf last items <;> simp [expand]

theorem lastOf_sample (last : Option α) (items : List (Item α)) (a : α) :
    lastOf last (items ++ [.sample a]) = some a := by
  rw [lastOf_append]
  rfl

theorem lastOf_again (last : Option α) (items : List (Item α)) (n : Nat) :
    lastOf last (items ++ [.again n]) = lastOf last items := by
  rw [lastOf_append]
  rfl

end RunLength
