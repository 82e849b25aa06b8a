import Mathlib.Algebra.Group.Basic
import Mathlib.Tactic.Common

/-! The lifting scheme: a row is split into its even and odd samples, a predictor
of the even ones is subtracted, and an update is added to the odd ones.

Whatever the predictor and the update compute, running the two steps backwards
undoes them. A synthesis that uses another predictor than the analysis still
recovers the odd samples, and the even ones exactly where the predictors agree.
-/

set_option autoImplicit false

namespace LiftingScheme

variable {G : Type} [AddCommGroup G]

/-- A predictor of the even samples from the odd ones, and an update of the odd
samples from the prediction residues. -/
structure Scheme (G : Type) where
  predict : (Nat → G) → Nat → G
  update : (Nat → G) → Nat → G

namespace Scheme

variable (s t : Scheme G) (n : Nat)

/-- Both steps look at the first `n` entries only, as far as their first `n` results go. -/
structure Local : Prop where
  predict : ∀ {f g : Nat → G}, (∀ j < n, f j = g j) → ∀ k < n, s.predict f k = s.predict g k
  update : ∀ {f g : Nat → G}, (∀ j < n, f j = g j) → ∀ k < n, s.update f k = s.update g k

/-- The high band: what the predictor misses. -/
def high (even odd : Nat → G) (k : Nat) : G := even k - s.predict odd k

/-- The low band: the odd samples, smoothed by the high band. -/
def low (even odd : Nat → G) (k : Nat) : G := odd k + s.update (s.high even odd) k

/-- The odd samples recovered from the two bands. -/
def oddOf (h l : Nat → G) (k : Nat) : G := l k - s.update h k

/-- The even samples recovered from the two bands. -/
def evenOf (h l : Nat → G) (k : Nat) : G := h k + s.predict (s.oddOf h l) k

variable {s t n}

/-- Synthesis recovers the odd samples of an analysis with the same update,
whatever its predictor was. -/
theorem oddOf_analysis (sameUpdate : t.update = s.update) (localT : t.Local n)
    {even odd h l : Nat → G} (hi : ∀ k < n, h k = s.high even odd k)
    (lo : ∀ k < n, l k = s.low even odd k) : ∀ k < n, t.oddOf h l k = odd k := by
  intro k bound
  have update : t.update h k = s.update (s.high even odd) k := by
    rw [localT.update hi k bound, sameUpdate]
  simp only [oddOf, update, lo k bound, low, add_sub_cancel_right]

/-- The even samples come back with the difference of the two predictions. -/
theorem evenOf_analysis (sameUpdate : t.update = s.update) (localT : t.Local n)
    {even odd h l : Nat → G} (hi : ∀ k < n, h k = s.high even odd k)
    (lo : ∀ k < n, l k = s.low even odd k) :
    ∀ k < n, t.evenOf h l k = even k + (t.predict odd k - s.predict odd k) := by
  intro k bound
  have predict := localT.predict (oddOf_analysis sameUpdate localT hi lo) k bound
  simp only [evenOf, predict, hi k bound, high]
  rw [sub_add_eq_add_sub, add_sub_assoc]

/-- Synthesis after analysis is the identity exactly where the predictors agree. -/
theorem evenOf_analysis_iff (sameUpdate : t.update = s.update) (localT : t.Local n)
    {even odd h l : Nat → G} (hi : ∀ k < n, h k = s.high even odd k)
    (lo : ∀ k < n, l k = s.low even odd k) {k : Nat} (bound : k < n) :
    t.evenOf h l k = even k ↔ t.predict odd k = s.predict odd k := by
  rw [evenOf_analysis sameUpdate localT hi lo k bound, add_eq_left, sub_eq_zero]

/-- Analysis after synthesis gives back the high band. -/
theorem high_synthesis (localS : s.Local n) {even odd h l : Nat → G}
    (ev : ∀ k < n, even k = s.evenOf h l k) (od : ∀ k < n, odd k = s.oddOf h l k) :
    ∀ k < n, s.high even odd k = h k := by
  intro k bound
  simp only [high, ev k bound, evenOf, localS.predict od k bound, add_sub_cancel_right]

/-- Analysis after synthesis gives back the low band. -/
theorem low_synthesis (localS : s.Local n) {even odd h l : Nat → G}
    (ev : ∀ k < n, even k = s.evenOf h l k) (od : ∀ k < n, odd k = s.oddOf h l k) :
    ∀ k < n, s.low even odd k = l k := by
  intro k bound
  have update := localS.update (high_synthesis localS ev od) k bound
  simp only [low, update, od k bound, oddOf, sub_add_cancel]

end Scheme

end LiftingScheme
