import IcoZip.Wavelet.Rows

/-! Square blocks of an image: the passes of `singlelift` and `ilift` over all
rows of a block, and what they leave alone.

`unpass_agrees_iff` is the whole relation between a pass and its inverse:
undoing a pass yields an image exactly when the pass over that image yields the
input. Congruence of both directions follows from it.
-/

set_option autoImplicit false

namespace IcoZip.Wavelet

open LiftingScheme (Scheme)

/-- Samples by row and column. -/
abbrev Image := Nat → Nat → Int

/-- The part of a buffer with row length `rb` that starts at `base`. -/
def block (m : Buf) (rb base : Nat) : Image := fun r c => m (base + r * rb + c)

/-- Equality of the first `w` rows and columns. -/
def AgreeOn (w : Nat) (X Y : Image) : Prop := ∀ r < w, ∀ c < w, X r c = Y r c

namespace AgreeOn

variable {w : Nat} {X Y Z : Image}

theorem refl (X : Image) : AgreeOn w X X := fun _ _ _ _ => rfl

theorem symm (same : AgreeOn w X Y) : AgreeOn w Y X := fun r hr c hc => (same r hr c hc).symm

theorem trans (first : AgreeOn w X Y) (second : AgreeOn w Y Z) : AgreeOn w X Z :=
  fun r hr c hc => (first r hr c hc).trans (second r hr c hc)

end AgreeOn

/-- Each row goes through its scheme, its bands end up in a column. -/
def pass (n : Nat) (s : Nat → Scheme Int) (X : Image) : Image := fun j r =>
  if j < n then (s r).high (fun k => X r (2 * k)) (fun k => X r (2 * k + 1)) j
  else (s r).low (fun k => X r (2 * k)) (fun k => X r (2 * k + 1)) (j - n)

/-- Each column goes back through its scheme into a row. -/
def unpass (n : Nat) (s : Nat → Scheme Int) (Y : Image) : Image := fun r c =>
  if c % 2 = 0 then (s r).evenOf (fun k => Y k r) (fun k => Y (n + k) r) (c / 2)
  else (s r).oddOf (fun k => Y k r) (fun k => Y (n + k) r) (c / 2)

section
variable {n : Nat} {s : Nat → Scheme Int} {X Y : Image}

theorem unpass_even (r k : Nat) :
    unpass n s Y r (2 * k) = (s r).evenOf (fun k => Y k r) (fun k => Y (n + k) r) k := by
  simp [unpass]

theorem unpass_odd (r k : Nat) :
    unpass n s Y r (2 * k + 1) = (s r).oddOf (fun k => Y k r) (fun k => Y (n + k) r) k := by
  simp [unpass, Nat.add_mod, show (2 * k + 1) / 2 = k by omega]

theorem pass_high {k : Nat} (bound : k < n) (r : Nat) :
    pass n s X k r = (s r).high (fun k => X r (2 * k)) (fun k => X r (2 * k + 1)) k := by
  simp [pass, bound]

theorem pass_low (k r : Nat) :
    pass n s X (n + k) r = (s r).low (fun k => X r (2 * k)) (fun k => X r (2 * k + 1)) k := by
  simp [pass]

/-- A row is known once its even and odd samples are. -/
theorem agreeOn_pairs : AgreeOn (2 * n) X Y ↔
    ∀ r < 2 * n, (∀ k < n, X r (2 * k) = Y r (2 * k)) ∧ ∀ k < n, X r (2 * k + 1) = Y r (2 * k + 1) := by
  constructor
  · exact fun same r hr => ⟨fun k hk => same r hr _ (by omega), fun k hk => same r hr _ (by omega)⟩
  · intro pairs r hr c hc
    rcases Nat.even_or_odd' c with ⟨k, rfl | rfl⟩
    · exact (pairs r hr).1 k (by omega)
    · exact (pairs r hr).2 k (by omega)

/-- A column is known once its two bands are. -/
theorem agreeOn_bands : AgreeOn (2 * n) X Y ↔
    ∀ r < 2 * n, (∀ k < n, X k r = Y k r) ∧ ∀ k < n, X (n + k) r = Y (n + k) r := by
  constructor
  · exact fun same r hr => ⟨fun k hk => same _ (by omega) r hr, fun k hk => same _ (by omega) r hr⟩
  · intro bands j hj r hr
    rcases Nat.lt_or_ge j n with high | low
    · exact (bands r hr).1 j high
    · obtain ⟨k, rfl⟩ := Nat.exists_eq_add_of_le low
      exact (bands r hr).2 k (by omega)

theorem unpass_agrees_iff (loc : ∀ r, (s r).Local n) :
    AgreeOn (2 * n) (unpass n s Y) X ↔ AgreeOn (2 * n) Y (pass n s X) := by
  rw [agreeOn_pairs, agreeOn_bands]
  refine forall₂_congr fun r hr => ⟨fun ⟨even, odd⟩ => ?_, fun ⟨high, low⟩ => ?_⟩
  · have ev : ∀ k < n, X r (2 * k) = (s r).evenOf (fun k => Y k r) (fun k => Y (n + k) r) k :=
      fun k hk => (even k hk).symm.trans (unpass_even r k)
    have od : ∀ k < n, X r (2 * k + 1) = (s r).oddOf (fun k => Y k r) (fun k => Y (n + k) r) k :=
      fun k hk => (odd k hk).symm.trans (unpass_odd r k)
    constructor
    · intro k hk
      rw [pass_high hk, Scheme.high_synthesis (loc r) ev od k hk]
    · intro k hk
      rw [pass_low, Scheme.low_synthesis (loc r) ev od k hk]
  · have hi : ∀ k < n, Y k r = (s r).high (fun k => X r (2 * k)) (fun k => X r (2 * k + 1)) k :=
      fun k hk => (high k hk).trans (pass_high hk r)
    have lo : ∀ k < n, Y (n + k) r = (s r).low (fun k => X r (2 * k)) (fun k => X r (2 * k + 1)) k :=
      fun k hk => (low k hk).trans (pass_low k r)
    constructor
    · intro k hk
      rw [unpass_even, Scheme.evenOf_analysis rfl (loc r) hi lo k hk, sub_self, add_zero]
    · intro k hk
      rw [unpass_odd, Scheme.oddOf_analysis rfl (loc r) hi lo k hk]

theorem unpass_congr {Y' : Image} (loc : ∀ r, (s r).Local n) (same : AgreeOn (2 * n) Y Y') :
    AgreeOn (2 * n) (unpass n s Y) (unpass n s Y') :=
  (unpass_agrees_iff loc).mpr (same.trans ((unpass_agrees_iff loc).mp (.refl _)))

theorem pass_congr {X' : Image} (loc : ∀ r, (s r).Local n) (same : AgreeOn (2 * n) X X') :
    AgreeOn (2 * n) (pass n s X) (pass n s X') :=
  (unpass_agrees_iff loc).mp (((unpass_agrees_iff loc).mpr (.refl _)).trans same)

end

/-! ### The row loops -/

/-- A loop over rows that own disjoint cells writes every row's cells and nothing else. -/
theorem rowLoop_spec {w width : Nat} (body : Buf → Nat → Buf) (cell : Nat → Nat → Nat)
    (val : Nat → Nat → Int)
    (value : ∀ m, ∀ r < w, ∀ j < width, body m r (cell r j) = val r j)
    (frame : ∀ m, ∀ r < w, ∀ a, (∀ j < width, a ≠ cell r j) → body m r a = m a)
    (apart : ∀ r < w, ∀ r' < w, ∀ j j', j < width → j' < width → cell r j = cell r' j' → r = r')
    (m : Buf) :
    (∀ r < w, ∀ j < width, (List.range w).foldl body m (cell r j) = val r j) ∧
    ∀ a, (∀ r < w, ∀ j < width, a ≠ cell r j) → (List.range w).foldl body m a = m a := by
  -- the rows up to `done` are in place, for every `done` up to `w`
  suffices partway : ∀ done ≤ w,
      (∀ r < done, ∀ j < width, (List.range done).foldl body m (cell r j) = val r j) ∧
      ∀ a, (∀ r < done, ∀ j < width, a ≠ cell r j) → (List.range done).foldl body m a = m a from
    partway w le_rfl
  intro done le
  induction done with
  | zero => simp
  | succ done ih =>
    obtain ⟨values, untouched⟩ := ih (by omega)
    simp only [List.range_succ, List.foldl_append, List.foldl_cons, List.foldl_nil]
    constructor
    · intro r hr j hj
      rcases Nat.lt_or_ge r done with earlier | last
      · rw [frame _ done (by omega) _ fun j' hj' same =>
          absurd (apart r (by omega) done (by omega) j j' hj hj' same) (by omega)]
        exact values r earlier j hj
      · obtain rfl : r = done := by omega
        exact value _ r (by omega) j hj
    · intro a outside
      rw [frame _ done (by omega) a (outside done (by omega))]
      exact untouched a fun r hr => outside r (by omega)

theorem cell_row {rb : Nat} {r r' j j' : Nat} (hr : r < rb) (hr' : r' < rb)
    (same : r + j * rb = r' + j' * rb) : r = r' := by
  have reduced := congrArg (· % rb) same
  simpa [Nat.add_mul_mod_self_right, Nat.mod_eq_of_lt hr, Nat.mod_eq_of_lt hr'] using reduced

section Routines
variable {rb n : Nat} (ibuf obuf : Buf) (ibase obase : Nat)

/-- Outside the block at `base`. -/
def Outside (rb w base a : Nat) : Prop := ∀ r < w, ∀ c < w, a ≠ base + r * rb + c

/-- `singlelift` is a pass over the block, into the block at `obase`. -/
theorem singlelift_block (size : 2 ≤ n) (fits : 2 * n ≤ rb) :
    AgreeOn (2 * n) (block (singlelift rb (2 * n) ibuf ibase obuf obase) rb obase)
      (pass n (fun _ => analysis n) (block ibuf rb ibase)) ∧
    ∀ a, Outside rb (2 * n) obase a → singlelift rb (2 * n) ibuf ibase obuf obase a = obuf a := by
  have positive : 0 < rb := by omega
  have row : ∀ m r, LiftedRow rb n ibuf m (ibase + r * rb) (obase + r)
      (singleliftRow rb (2 * n) ibuf ibase obase m r) :=
    fun _ r => singleliftRow_spec positive size ibase obase r
  obtain ⟨values, untouched⟩ := rowLoop_spec (singleliftRow rb (2 * n) ibuf ibase obase)
    (fun r j => obase + r + j * rb)
    (fun r j => pass n (fun _ => analysis n) (block ibuf rb ibase) j r)
    (fun m r (_ : r < 2 * n) j (hj : j < 2 * n) => by
      rcases Nat.lt_or_ge j n with high | low
      · rw [pass_high high]
        exact (row m r).high j high
      · obtain ⟨k, rfl⟩ := Nat.exists_eq_add_of_le low
        rw [pass_low]
        exact (row m r).low k (by omega))
    (fun m r _ => (row m r).frame)
    (fun r hr r' hr' j j' _ _ same => cell_row (show r < rb by omega) (show r' < rb by omega)
      (by omega : r + j * rb = r' + j' * rb))
    obuf
  constructor
  · intro j hj r hr
    have address : obase + j * rb + r = obase + r + j * rb := by omega
    simp only [block, singlelift, address, values r hr j hj]
  · intro a outside
    exact untouched a fun r hr j hj => by
      have := outside j hj r hr
      omega

/-- `ilift` undoes a pass of its own scheme, into the block at `obase`. -/
theorem ilift_block (size : 2 ≤ n) (fits : 2 * n ≤ rb) (junk : Nat → Int) :
    AgreeOn (2 * n) (block (ilift rb (2 * n) ibuf ibase obuf obase junk) rb obase)
      (unpass n (fun r => synthesis n (junk r)) (block ibuf rb ibase)) ∧
    ∀ a, Outside rb (2 * n) obase a →
      ilift rb (2 * n) ibuf ibase obuf obase junk a = obuf a := by
  have row : ∀ m r, IliftedRow rb n ibuf m (ibase + r) (obase + r * rb) (junk r)
      (iliftRow rb (2 * n) ibuf ibase obase junk m r) :=
    fun _ r => iliftRow_spec size ibase obase junk r
  have high : ∀ r, highAt ibuf rb (ibase + r) = fun k => block ibuf rb ibase k r := fun r => by
    funext k; simp only [highAt, block]; congr 1; omega
  have low : ∀ r, lowAt ibuf rb n (ibase + r) = fun k => block ibuf rb ibase (n + k) r := fun r => by
    funext k; simp only [lowAt, block]; congr 1; omega
  obtain ⟨values, untouched⟩ := rowLoop_spec (iliftRow rb (2 * n) ibuf ibase obase junk)
    (fun r c => obase + r * rb + c)
    (unpass n (fun r => synthesis n (junk r)) (block ibuf rb ibase))
    (fun m r (_ : r < 2 * n) c (hc : c < 2 * n) => by
      rcases Nat.even_or_odd' c with ⟨k, rfl | rfl⟩
      · rw [unpass_even, ← high, ← low]
        exact (row m r).even k (by omega)
      · rw [unpass_odd, ← high, ← low]
        exact (row m r).odd k (by omega))
    (fun m r _ => (row m r).frame)
    (fun r hr r' hr' c c' hc hc' same => by
      have columns := cell_row (show c < rb by omega) (show c' < rb by omega)
        (show c + r * rb = c' + r' * rb by omega)
      subst columns
      exact Nat.eq_of_mul_eq_mul_right (show 0 < rb by omega) (by omega))
    obuf
  exact ⟨fun r hr c hc => values r hr c hc, untouched⟩

end Routines

end IcoZip.Wavelet
