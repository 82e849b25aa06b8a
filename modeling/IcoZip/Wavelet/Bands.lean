import IcoZip.Wavelet.Blocks

/-! The two bands of a row in closed form, and what the register `b` of `ilift` makes of them.

`ilift` undoes the bands of another row: the last even sample is moved by the
difference of the two predictions, and only that one. Where the bands of the two
rows differ is told entry by entry.
-/

set_option autoImplicit false

namespace IcoZip.Wavelet

open LiftingScheme (Scheme)

/-! ### The bands of `singlelift` -/

/-- The high band of a row. -/
def highPass (x : Nat → Int) : Nat → Int
  | 0 => x 0 - x 1
  | k + 1 => x (2 * (k + 1)) - (x (2 * (k + 1) - 1) + x (2 * (k + 1) + 1)) / 2

/-- The low band of a row of `n` pairs. -/
def lowPass (n : Nat) (x : Nat → Int) (k : Nat) : Int :=
  x (2 * k + 1) +
    if k + 1 < n then (highPass x k + highPass x (k + 1) + 2) / 4 else (highPass x k + 1) / 8

/-- Both of them, the high band in front. -/
def band (n : Nat) (x : Nat → Int) (j : Nat) : Int := if j < n then highPass x j else lowPass n x (j - n)

theorem high_highPass (n : Nat) (x : Nat → Int) (k : Nat) :
    (analysis n).high (fun k => x (2 * k)) (fun k => x (2 * k + 1)) k = highPass x k := by
  cases k with
  | zero => rfl
  | succ k =>
    simp only [Scheme.high, analysis, predictLift, highPass, Int.shiftRight_eq_div_pow]
    rfl

theorem low_lowPass (n : Nat) (x : Nat → Int) (k : Nat) :
    (analysis n).low (fun k => x (2 * k)) (fun k => x (2 * k + 1)) k = lowPass n x k := by
  have high : (analysis n).high (fun k => x (2 * k)) (fun k => x (2 * k + 1)) = highPass x :=
    funext (high_highPass n x)
  rw [Scheme.low, high, lowPass]
  simp only [analysis, updateLift, Int.shiftRight_eq_div_pow]
  rfl

theorem pass_analysis (n : Nat) (X : Image) : pass n (fun _ => analysis n) X = fun j r => band n (X r) j := by
  funext j r
  rw [pass, band, high_highPass n (X r), low_lowPass n (X r)]

/-- A row is known once its bands are. -/
theorem band_inj {n : Nat} {x y : Nat → Int} (same : ∀ j < 2 * n, band n x j = band n y j) :
    ∀ c < 2 * n, x c = y c := by
  have high : ∀ k < n, highPass x k = highPass y k := fun k bound => by
    simpa [band, bound] using same k (by omega)
  have low : ∀ k < n, lowPass n x k = lowPass n y k := fun k bound => by
    simpa [band] using same (n + k) (by omega)
  -- both rows are what the scheme recovers from these bands
  have hx := fun k (_ : k < n) => (high_highPass n x k).symm
  have lx := fun k (_ : k < n) => (low_lowPass n x k).symm
  have hy := fun k (bound : k < n) => (high k bound).trans (high_highPass n y k).symm
  have ly := fun k (bound : k < n) => (low k bound).trans (low_lowPass n y k).symm
  intro c inside
  rcases Nat.even_or_odd' c with ⟨k, rfl | rfl⟩
  · have even := Scheme.evenOf_analysis rfl (analysis_local n) hx lx k (by omega)
    rw [Scheme.evenOf_analysis rfl (analysis_local n) hy ly k (by omega), sub_self, sub_self] at even
    omega
  · have odd := Scheme.oddOf_analysis rfl (analysis_local n) hx lx k (by omega)
    rw [Scheme.oddOf_analysis rfl (analysis_local n) hy ly k (by omega)] at odd
    exact odd.symm

theorem band_congr {n : Nat} {x y : Nat → Int} (same : ∀ c < 2 * n, x c = y c) :
    ∀ j < 2 * n, band n x j = band n y j := by
  have high : ∀ k < n, highPass x k = highPass y k := by
    intro k bound
    cases k with
    | zero => rw [highPass, highPass, same 0 (by omega), same 1 (by omega)]
    | succ k => rw [highPass, highPass, same _ (by omega), same _ (by omega), same _ (by omega)]
  intro j inside
  rw [band, band]
  split_ifs with front
  · exact high j front
  · rw [lowPass, lowPass, same _ (by omega), high _ (by omega)]
    split_ifs with inner
    · rw [high _ inner]
    · rfl

theorem highPass_last {n : Nat} (size : 2 ≤ n) (x : Nat → Int) :
    highPass x (n - 1) = x (2 * n - 2) - (x (2 * n - 3) + x (2 * n - 1)) / 2 := by
  obtain ⟨k, rfl⟩ := Nat.exists_eq_add_of_le' size
  rfl

/-! ### The row that `ilift` stands for -/

/-- How far the prediction of the last even sample of a row is off in `ilift`, which takes the mean with the odd sample
before the right one; a row of four samples has none there, and the register still is what it was. -/
def slip (w : Nat) (b : Int) (x : Nat → Int) : Int :=
  ((if w = 4 then b else x (w - 5)) + x (w - 1)) / 2 - (x (w - 3) + x (w - 1)) / 2

/-- The row with its last even sample moved by as much. -/
def moved (w : Nat) (b : Int) (x : Nat → Int) : Nat → Int := Function.update x (w - 2) (x (w - 2) - slip w b x)

/-- What a last even sample that is lower by `s` does to an entry of the bands. -/
def echo (n : Nat) (s : Int) (x : Nat → Int) (j : Nat) : Int :=
  if j + 1 = n then -s
  else if j + 2 = 2 * n then
    (highPass x (n - 2) + (highPass x (n - 1) - s) + 2) / 4 - (highPass x (n - 2) + highPass x (n - 1) + 2) / 4
  else if j + 1 = 2 * n then (highPass x (n - 1) - s + 1) / 8 - (highPass x (n - 1) + 1) / 8
  else 0

section
variable {n : Nat} {b : Int} {x : Nat → Int}

theorem moved_of_ne {w c : Nat} (other : c ≠ w - 2) : moved w b x c = x c := Function.update_of_ne other _ _

theorem moved_last (w : Nat) : moved w b x (w - 2) = x (w - 2) - slip w b x := Function.update_self _ _ _

theorem moved_of_right {w : Nat} (right : slip w b x = 0) : moved w b x = x := by
  rw [moved, right, sub_zero, Function.update_eq_self]

/-- The slip depends on odd samples only. -/
theorem slip_congr {w : Nat} (size : 4 ≤ w) {y : Nat → Int} (same : ∀ c < w, c ≠ w - 2 → x c = y c) :
    slip w b x = slip w b y := by
  have last := same (w - 1) (by omega) (by omega)
  have right := same (w - 3) (by omega) (by omega)
  have stale : (if w = 4 then b else x (w - 5)) = if w = 4 then b else y (w - 5) := by
    split_ifs
    · rfl
    · exact same (w - 5) (by omega) (by omega)
  rw [slip, slip, stale, right, last]

theorem highPass_moved (size : 2 ≤ n) (k : Nat) :
    highPass (moved (2 * n) b x) k = highPass x k - if k + 1 = n then slip (2 * n) b x else 0 := by
  cases k with
  | zero =>
    have inner : ¬ 0 + 1 = n := by omega
    rw [highPass, highPass, moved_of_ne (by omega), moved_of_ne (by omega), if_neg inner, sub_zero]
  | succ k =>
    rw [highPass, highPass, moved_of_ne (show 2 * (k + 1) - 1 ≠ 2 * n - 2 by omega),
      moved_of_ne (show 2 * (k + 1) + 1 ≠ 2 * n - 2 by omega)]
    by_cases last : k + 1 + 1 = n
    · have here : 2 * (k + 1) = 2 * n - 2 := by omega
      rw [if_pos last, here, moved_last]
      omega
    · rw [if_neg last, moved_of_ne (by omega), sub_zero]

theorem band_moved (size : 2 ≤ n) {j : Nat} (inside : j < 2 * n) :
    band n (moved (2 * n) b x) j = band n x j + echo n (slip (2 * n) b x) x j := by
  rcases Nat.lt_or_ge j n with high | low
  · have low' : ¬ j + 2 = 2 * n := by omega
    have low'' : ¬ j + 1 = 2 * n := by omega
    rw [band, band, if_pos high, if_pos high, highPass_moved size, echo, if_neg low', if_neg low'']
    split_ifs <;> omega
  · obtain ⟨k, rfl⟩ := Nat.exists_eq_add_of_le low
    have high : ¬ n + k < n := by omega
    have front : ¬ n + k + 1 = n := by omega
    rw [band, band, if_neg high, if_neg high, Nat.add_sub_cancel_left, lowPass, lowPass, echo, if_neg front,
      moved_of_ne (show 2 * k + 1 ≠ 2 * n - 2 by omega), highPass_moved size, highPass_moved size]
    by_cases inner : k + 1 < n
    · have here : ¬ k + 1 = n := by omega
      rw [if_pos inner, if_pos inner, if_neg here, sub_zero]
      by_cases next : k + 1 + 1 = n
      · have entry : n + k + 2 = 2 * n := by omega
        have before : n - 2 = k := by omega
        have last : n - 1 = k + 1 := by omega
        rw [if_pos next, if_pos entry, before, last]
        omega
      · have entry : ¬ n + k + 2 = 2 * n := by omega
        have last : ¬ n + k + 1 = 2 * n := by omega
        rw [if_neg next, if_neg entry, if_neg last, sub_zero, add_zero]
    · have here : k + 1 = n := by omega
      have entry : ¬ n + k + 2 = 2 * n := by omega
      have last : n + k + 1 = 2 * n := by omega
      have before : n - 1 = k := by omega
      rw [if_neg inner, if_neg inner, if_pos here, if_neg entry, if_pos last, before]
      omega

end

/-- The two predictions of the last pair of a row. -/
theorem predictIlift_slip {n : Nat} (size : 2 ≤ n) (b : Int) (x : Nat → Int) :
    predictIlift n b (fun k => x (2 * k + 1)) (n - 1) =
      predictLift (fun k => x (2 * k + 1)) (n - 1) + slip (2 * n) b x := by
  obtain ⟨k, rfl⟩ := Nat.exists_eq_add_of_le' size
  have stale : staleB (k + 2) b (fun k => x (2 * k + 1)) = if 2 * (k + 2) = 4 then b else x (2 * (k + 2) - 5) := by
    unfold staleB
    by_cases three : 3 ≤ k + 2
    · rw [if_pos three, if_neg (by omega)]
      exact congrArg x (show 2 * (k + 2 - 3) + 1 = 2 * (k + 2) - 5 by omega)
    · rw [if_neg three, if_pos (by omega)]
  have last : k + 2 - 1 + 1 = k + 2 := rfl
  have right : predictLift (fun k => x (2 * k + 1)) (k + 2 - 1) =
      (x (2 * (k + 2) - 3) + x (2 * (k + 2) - 1)) >>> (1 : Nat) := rfl
  have odd : x (2 * (k + 2 - 1) + 1) = x (2 * (k + 2) - 1) := rfl
  rw [predictIlift, if_pos last, right, stale, odd, slip, Int.shiftRight_eq_div_pow, Int.shiftRight_eq_div_pow]
  omega

/-- What `ilift` undoes are the bands of the moved rows. -/
theorem pass_synthesis {n : Nat} (size : 2 ≤ n) (junk : Nat → Int) (X : Image) :
    pass n (fun r => synthesis n (junk r)) X = fun j r => band n (moved (2 * n) (junk r) (X r)) j := by
  have rows (r : Nat) : (synthesis n (junk r)).high (fun k => X r (2 * k)) (fun k => X r (2 * k + 1)) =
      highPass (moved (2 * n) (junk r) (X r)) := by
    funext k
    rw [highPass_moved size, ← high_highPass n (X r), Scheme.high, Scheme.high]
    by_cases last : k + 1 = n
    · obtain rfl : k = n - 1 := by omega
      have predicted := predictIlift_slip size (junk r) (X r)
      rw [if_pos last]
      simp only [synthesis, analysis]
      omega
    · simp [synthesis, analysis, predictIlift, last]
  funext j r
  rw [pass, band, Scheme.low, rows r]
  split_ifs
  · rfl
  · have odd : moved (2 * n) (junk r) (X r) (2 * (j - n) + 1) = X r (2 * (j - n) + 1) := moved_of_ne (by omega)
    rw [lowPass, odd]
    simp only [synthesis, updateLift, Int.shiftRight_eq_div_pow]
    rfl

end IcoZip.Wavelet
