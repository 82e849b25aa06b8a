import Mathlib.Data.Nat.Bitwise
import Mathlib.Tactic.Common

/-! Counted loops with an early exit, and masks that round addresses down.

`forLoop` is `for (x = start; go x; x = next x) body`. The body can leave the
loop by returning false, or fail; running out of fuel is a failure too, so the
first rule below proves termination along with the invariant. The second takes it
for granted.
-/

set_option autoImplicit false

namespace Loop

variable {S : Type}

def forLoop (go : Nat → Bool) (next : Nat → Nat) (body : Nat → S → Option (S × Bool)) :
    Nat → Nat → S → Option (S × Bool)
  | 0, _, _ => none
  | fuel + 1, x, s =>
    if go x then do
      let (s, ok) ← body x s
      if ok then forLoop go next body fuel (next x) s else some (s, false)
    else some (s, true)

/-- The loop rule: an invariant that the body keeps, and a gap that closes. -/
theorem forLoop_rule {go : Nat → Bool} {next : Nat → Nat} {body : Nat → S → Option (S × Bool)}
    (inv : Nat → S → Prop) (gap : Nat → Nat)
    (kept : ∀ x s, inv x s → go x = true → ∃ s', body x s = some (s', true) ∧ inv (next x) s')
    (closes : ∀ x s, inv x s → go x = true → gap (next x) < gap x)
    {fuel x : Nat} {s : S} (start : inv x s) (enough : gap x < fuel) :
    ∃ x' s', forLoop go next body fuel x s = some (s', true) ∧ inv x' s' ∧ go x' = false := by
  induction fuel generalizing x s with
  | zero => omega
  | succ fuel ih =>
    cases more : go x with
    | false => exact ⟨x, s, by simp [forLoop, more], start, more⟩
    | true =>
      obtain ⟨s₁, done, inv₁⟩ := kept x s start more
      have closer := closes x s start more
      obtain ⟨x', s', rest, inv', out⟩ := ih inv₁ (by omega)
      exact ⟨x', s', by simp [forLoop, more, done, rest], inv', out⟩

/-- What a loop that ends well leaves, whether or not it had to. -/
theorem forLoop_sound {go : Nat → Bool} {next : Nat → Nat} {body : Nat → S → Option (S × Bool)} (inv : Nat → S → Prop)
    (kept : ∀ x s s', inv x s → go x = true → body x s = some (s', true) → inv (next x) s')
    {fuel x : Nat} {s s' : S} (start : inv x s) (ended : forLoop go next body fuel x s = some (s', true)) :
    ∃ x', inv x' s' ∧ go x' = false := by
  induction fuel generalizing x s with
  | zero => cases ended
  | succ fuel ih =>
    rw [forLoop] at ended
    cases more : go x with
    | false =>
      simp only [more, Bool.false_eq_true, if_false, Option.some.injEq, Prod.mk.injEq, and_true] at ended
      exact ⟨x, ended ▸ start, more⟩
    | true =>
      simp only [more, if_true] at ended
      obtain ⟨⟨s₁, ok⟩, done, rest⟩ := Option.bind_eq_some_iff.mp ended
      cases ok with
      | false => simp at rest
      | true => exact ih (kept x s s₁ start more done) rest

/-- Masking the low bits of a 32-bit address rounds it down. -/
theorem and_mask {a k : Nat} (small : a < 2 ^ 32) (bits : k ≤ 32) :
    a &&& (2 ^ 32 - 2 ^ k) = a / 2 ^ k * 2 ^ k := by
  have mask : 2 ^ 32 - 2 ^ k = (2 ^ (32 - k) - 1) <<< k := by
    rw [Nat.shiftLeft_eq, Nat.sub_mul, ← Nat.pow_add, Nat.sub_add_cancel bits, Nat.one_mul]
  rw [mask, ← Nat.shiftRight_eq_div_pow, ← Nat.shiftLeft_eq]
  apply Nat.eq_of_testBit_eq
  intro i
  rw [Nat.testBit_and, Nat.testBit_shiftLeft, Nat.testBit_shiftLeft, Nat.testBit_shiftRight,
    Nat.testBit_two_pow_sub_one]
  by_cases low : k ≤ i
  · by_cases high : i < 32
    · have inside : i - k < 32 - k := by omega
      simp [low, inside, Nat.add_sub_cancel' low]
    · have zero : a.testBit i = false :=
        Nat.testBit_lt_two_pow (Nat.lt_of_lt_of_le small (Nat.pow_le_pow_right (by decide) (by omega)))
      simp [zero, Nat.add_sub_cancel' low]
  · simp [low]

end Loop
