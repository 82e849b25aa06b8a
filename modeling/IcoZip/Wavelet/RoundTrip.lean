import IcoZip.Wavelet.Bands

/-! Forward and inverse transform of `lifting`, one after the other.

The inverse levels of `lifting` undo a transform of their own, in which the last
even sample of a row is predicted from the register `b` as `ilift` has left it.
At each level this does no harm to one kind of block only: no row is mispredicted,
but for the last row but one, whose mistake the second pass may take back.
-/

set_option autoImplicit false

namespace IcoZip.Wavelet

open LiftingScheme (Scheme)

/-- The bottom right quadrant, which the next level works on. -/
def quadrant (n : Nat) (X : Image) : Image := fun r c => X (n + r) (n + c)

/-- A level transform `T` on the whole block, then the remaining levels on its quadrant. -/
def pyramid (T : Nat → Nat → Image → Image) : Nat → Nat → Nat → Image → Image
  | 0, _, _, X => X
  | levels + 1, lvl, w, X =>
    let n := w / 2
    let Z := T lvl n X
    fun r c =>
      if n ≤ r ∧ n ≤ c then pyramid T levels (lvl + 1) n (quadrant n Z) (r - n) (c - n) else Z r c

/-- What a forward level of `lifting` computes: both directions by `singlelift`. -/
def forwardPass (_lvl n : Nat) (X : Image) : Image :=
  pass n (fun _ => analysis n) (pass n (fun _ => analysis n) X)

/-- What an inverse level of `lifting` undoes. -/
def undonePass (junk : Nat → Bool → Nat → Int) (lvl n : Nat) (X : Image) : Image :=
  pass n (fun r => synthesis n (junk lvl false r)) (pass n (fun r => synthesis n (junk lvl true r)) X)

/-- The sides of the blocks at each level are even, at least four, and fit into a row. -/
def Sized (rb : Nat) : Nat → Nat → Prop
  | 0, _ => True
  | levels + 1, w => ∃ n, w = 2 * n ∧ 2 ≤ n ∧ w ≤ rb ∧ Sized rb levels n

/-- A level transform that looks at its block only. -/
def Congruent (T : Nat → Nat → Image → Image) : Prop :=
  ∀ lvl n X Y, AgreeOn (2 * n) X Y → AgreeOn (2 * n) (T lvl n X) (T lvl n Y)

theorem forwardPass_congruent : Congruent forwardPass := fun _ n _ _ same =>
  pass_congr (fun _ => analysis_local n) (pass_congr (fun _ => analysis_local n) same)

theorem agreeOn_quadrant {n : Nat} {X Y : Image} : AgreeOn (2 * n) X Y ↔
    (∀ r < 2 * n, ∀ c < 2 * n, ¬ (n ≤ r ∧ n ≤ c) → X r c = Y r c) ∧
      AgreeOn n (quadrant n X) (quadrant n Y) := by
  constructor
  · exact fun same => ⟨fun r hr c hc _ => same r hr c hc,
      fun r hr c hc => same (n + r) (by omega) (n + c) (by omega)⟩
  · rintro ⟨border, inner⟩ r hr c hc
    by_cases inside : n ≤ r ∧ n ≤ c
    · have same := inner (r - n) (by omega) (c - n) (by omega)
      simpa only [quadrant, Nat.add_sub_cancel' inside.1, Nat.add_sub_cancel' inside.2] using same
    · exact border r hr c hc inside

/-- Two pyramids agree when their top levels agree outside the quadrant and the rest inside. -/
theorem pyramid_agrees_iff {T T' : Nat → Nat → Image → Image} {levels lvl n : Nat} {X Y : Image} :
    AgreeOn (2 * n) (pyramid T (levels + 1) lvl (2 * n) X) (pyramid T' (levels + 1) lvl (2 * n) Y) ↔
    (∀ r < 2 * n, ∀ c < 2 * n, ¬ (n ≤ r ∧ n ≤ c) → T lvl n X r c = T' lvl n Y r c) ∧
      AgreeOn n (pyramid T levels (lvl + 1) n (quadrant n (T lvl n X)))
        (pyramid T' levels (lvl + 1) n (quadrant n (T' lvl n Y))) := by
  have half : 2 * n / 2 = n := by omega
  rw [agreeOn_quadrant]
  refine and_congr ?_ ?_
  · refine forall₂_congr fun r _ => forall₂_congr fun c _ => forall_congr' fun outside => ?_
    simp only [pyramid, half, if_neg outside]
  · simp only [AgreeOn, quadrant, pyramid, half, Nat.le_add_right, and_self, if_true,
      Nat.add_sub_cancel_left]

theorem pyramid_congr {T : Nat → Nat → Image → Image} (congruent : Congruent T) {rb : Nat}
    {levels lvl w : Nat} (sized : Sized rb levels w) {X Y : Image} (same : AgreeOn w X Y) :
    AgreeOn w (pyramid T levels lvl w X) (pyramid T levels lvl w Y) := by
  induction levels generalizing lvl w X Y with
  | zero => exact same
  | succ levels ih =>
    obtain ⟨n, rfl, _, _, rest⟩ := sized
    obtain ⟨border, inner⟩ := agreeOn_quadrant.mp (congruent lvl n X Y same)
    exact pyramid_agrees_iff.mpr ⟨border, ih rest inner⟩

/-! ### The loops of `lifting` -/

section Memory
variable (rb : Nat)

/-- The two calls of `singlelift` at a level: `ibuf` and `tmpbuf` afterwards. -/
def forwardMem (w base : Nat) (m : Buf × Buf) : Buf × Buf :=
  let tmpbuf := singlelift rb w m.1 base m.2 base
  (singlelift rb w tmpbuf base m.1 base, tmpbuf)

/-- The two calls of `ilift` at a level. -/
def inverseMem (w base : Nat) (junk : Bool → Nat → Int) (m : Buf × Buf) : Buf × Buf :=
  let tmpbuf := ilift rb w m.1 base m.2 base (junk false)
  (ilift rb w tmpbuf base m.1 base (junk true), tmpbuf)

/-- The levels nested: each inverse level closes its forward level. -/
def cascade (junk : Nat → Bool → Nat → Int) : Nat → Nat → Nat → Nat → Buf × Buf → Buf × Buf
  | 0, _, _, _, m => m
  | levels + 1, lvl, w, base, m =>
    inverseMem rb w base (junk lvl)
      (cascade junk levels (lvl + 1) (w / 2) (base + (w * rb / 2 + w / 2)) (forwardMem rb w base m))

variable {rb}

theorem forwardMem_spec {n : Nat} (size : 2 ≤ n) (fits : 2 * n ≤ rb) (base : Nat) (m : Buf × Buf) :
    AgreeOn (2 * n) (block (forwardMem rb (2 * n) base m).1 rb base)
      (forwardPass 0 n (block m.1 rb base)) ∧
    ∀ a, Outside rb (2 * n) base a → (forwardMem rb (2 * n) base m).1 a = m.1 a := by
  obtain ⟨first, _⟩ := singlelift_block m.1 m.2 base base size fits
  obtain ⟨second, frame⟩ :=
    singlelift_block (singlelift rb (2 * n) m.1 base m.2 base) m.1 base base size fits
  exact ⟨second.trans (pass_congr (fun _ => analysis_local n) first), frame⟩

theorem inverseMem_agrees_iff {n : Nat} (size : 2 ≤ n) (fits : 2 * n ≤ rb) (base lvl : Nat)
    (junk : Nat → Bool → Nat → Int) (m : Buf × Buf) (Y : Image) :
    (AgreeOn (2 * n) (block (inverseMem rb (2 * n) base (junk lvl) m).1 rb base) Y ↔
      AgreeOn (2 * n) (block m.1 rb base) (undonePass junk lvl n Y)) ∧
    ∀ a, Outside rb (2 * n) base a → (inverseMem rb (2 * n) base (junk lvl) m).1 a = m.1 a := by
  obtain ⟨first, _⟩ := ilift_block m.1 m.2 base base size fits (junk lvl false)
  obtain ⟨second, frame⟩ := ilift_block (ilift rb (2 * n) m.1 base m.2 base (junk lvl false))
    m.1 base base size fits (junk lvl true)
  refine ⟨?_, frame⟩
  have loc : ∀ b r, (synthesis n (junk lvl b r)).Local n := fun b r => synthesis_local n _
  calc AgreeOn (2 * n) (block (inverseMem rb (2 * n) base (junk lvl) m).1 rb base) Y
      ↔ AgreeOn (2 * n) (unpass n (fun r => synthesis n (junk lvl true r))
          (block (ilift rb (2 * n) m.1 base m.2 base (junk lvl false)) rb base)) Y :=
        ⟨second.symm.trans, second.trans⟩
    _ ↔ AgreeOn (2 * n) (block (ilift rb (2 * n) m.1 base m.2 base (junk lvl false)) rb base)
          (pass n (fun r => synthesis n (junk lvl true r)) Y) := unpass_agrees_iff (loc true)
    _ ↔ AgreeOn (2 * n) (unpass n (fun r => synthesis n (junk lvl false r)) (block m.1 rb base))
          (pass n (fun r => synthesis n (junk lvl true r)) Y) := ⟨first.symm.trans, first.trans⟩
    _ ↔ AgreeOn (2 * n) (block m.1 rb base) (undonePass junk lvl n Y) :=
        unpass_agrees_iff (loc false)

theorem block_quadrant (m : Buf) (base n : Nat) :
    block m rb (base + (n * rb + n)) = quadrant n (block m rb base) := by
  funext r c
  simp only [block, quadrant]
  congr 1
  ring

/-- A run of nested levels yields `Y` exactly when the forward pyramid of the image it
starts with is the undone pyramid of `Y`. -/
theorem cascade_agrees_iff (junk : Nat → Bool → Nat → Int) {levels w : Nat}
    (sized : Sized rb levels w) (lvl base : Nat) (m : Buf × Buf) (Y : Image) :
    (AgreeOn w (block (cascade rb junk levels lvl w base m).1 rb base) Y ↔
      AgreeOn w (pyramid forwardPass levels lvl w (block m.1 rb base))
        (pyramid (undonePass junk) levels lvl w Y)) ∧
    ∀ a, Outside rb w base a → (cascade rb junk levels lvl w base m).1 a = m.1 a := by
  induction levels generalizing w lvl base m Y with
  | zero => exact ⟨Iff.rfl, fun _ _ => rfl⟩
  | succ levels ih =>
    obtain ⟨n, rfl, size, fits, rest⟩ := sized
    have half : 2 * n / 2 = n := by omega
    simp only [cascade, half_slots, half]
    obtain ⟨forward, forwardFrame⟩ := forwardMem_spec size fits base m
    generalize forwardMem rb (2 * n) base m = m₁ at forward forwardFrame ⊢
    have deeper := fun V => ih rest (lvl + 1) (base + (n * rb + n)) m₁ V
    generalize cascade rb junk levels (lvl + 1) n (base + (n * rb + n)) m₁ = m₂ at deeper ⊢
    obtain ⟨back, backFrame⟩ := inverseMem_agrees_iff size fits base lvl junk m₂ Y
    -- the deeper levels write inside the quadrant only
    have border : ∀ r < 2 * n, ∀ c < 2 * n, ¬ (n ≤ r ∧ n ≤ c) →
        block m₂.1 rb base r c = block m₁.1 rb base r c := by
      intro r hr c hc outside
      refine (deeper Y).2 _ fun r' hr' c' hc' same => outside ?_
      have columns : c = n + c' := cell_row (show c < rb by omega) (show n + c' < rb by omega)
        (show c + r * rb = n + c' + (n + r') * rb by rw [Nat.add_mul]; omega)
      subst columns
      have rows : r = n + r' := Nat.eq_of_mul_eq_mul_right (show 0 < rb by omega)
        (by rw [Nat.add_mul]; omega)
      omega
    have inner := (deeper (quadrant n (undonePass junk lvl n Y))).1
    simp only [block_quadrant] at inner
    constructor
    · rw [back, agreeOn_quadrant, pyramid_agrees_iff, inner]
      obtain ⟨forwardBorder, forwardInner⟩ := agreeOn_quadrant.mp forward
      refine and_congr ?_ ?_
      · refine forall₂_congr fun r hr => forall₂_congr fun c hc => forall_congr' fun outside => ?_
        rw [border r hr c hc outside, forwardBorder r hr c hc outside]
        rfl
      · have same : AgreeOn n
            (pyramid forwardPass levels (lvl + 1) n (quadrant n (block m₁.1 rb base))) _ :=
          pyramid_congr forwardPass_congruent rest forwardInner
        exact ⟨same.symm.trans, same.trans⟩
    · intro a outside
      rw [backFrame a outside, (deeper Y).2 a ?_, forwardFrame a outside]
      intro r hr c hc same
      exact outside (n + r) (by omega) (n + c) (by omega) (by rw [same, Nat.add_mul]; omega)

end Memory

/-- The two loops of `lifting` are three nested levels. -/
theorem lifting_eq_cascade (m : Nat) (ibuf tmpbuf : Buf) (junk : Nat → Bool → Nat → Int) :
    (lifting (8 * m) ibuf tmpbuf 0 junk).ibuf =
      (cascade (8 * m) junk 3 0 (8 * m) 0 (ibuf, tmpbuf)).1 := by
  have h₁ : 8 * m / 2 / 2 / 2 * 2 = 8 * m / 2 / 2 := by omega
  have h₂ : 8 * m / 2 / 2 * 2 = 8 * m / 2 := by omega
  have h₃ : 8 * m / 2 * 2 = 8 * m := by omega
  simp [lifting, forwardLevel, inverseLevel, cascade, forwardMem, inverseMem, h₁, h₂, h₃, Nat.add_comm]

theorem sized_three {m : Nat} (size : 2 ≤ m) : Sized (8 * m) 3 (8 * m) :=
  ⟨4 * m, by omega, by omega, le_rfl, 2 * m, by omega, by omega, by omega, m, by omega, size,
    by omega, trivial⟩

theorem cell_lt {w r c : Nat} (row : r < w) (column : c < w) : 0 + r * w + c < w * w := by
  have last := Nat.mul_le_mul_right w (show r + 1 ≤ w from row)
  rw [Nat.add_mul, Nat.one_mul] at last
  omega

/-- All of a `w` by `w` image, as a buffer and as a block. -/
theorem image_agrees_iff {w : Nat} {a b : Buf} :
    (∀ i < w * w, a i = b i) ↔ AgreeOn w (block a w 0) (block b w 0) := by
  constructor
  · exact fun same r hr c hc => same _ (cell_lt hr hc)
  · intro same i hi
    have positive : 0 < w := Nat.pos_of_ne_zero fun zero => by simp [zero] at hi
    have cell := same (i / w) (Nat.div_lt_of_lt_mul hi) (i % w) (Nat.mod_lt i positive)
    have address : 0 + i / w * w + i % w = i := by
      rw [Nat.zero_add, Nat.mul_comm, Nat.div_add_mod]
    simpa only [block, address] using cell

/-! ### A level that does no harm -/

/-- Both directions of a level, in closed form. -/
def transform (n : Nat) (X : Image) : Image := fun k j => band n (fun r => band n (X r) j) k

/-- What the register `b` does to a block of `n` pairs of rows: its rows are predicted as they should be, and so are
the rows of the second pass. The even sample that each of these has mispredicted belongs to the last row but one of
the block; where that one has been mispredicted too, the two mistakes have to cancel. -/
structure Harmless (n : Nat) (junk : Bool → Nat → Int) (X : Image) : Prop where
  rows : ∀ r < 2 * n, r ≠ 2 * n - 2 → slip (2 * n) (junk true r) (X r) = 0
  columns : ∀ j < 2 * n, slip (2 * n) (junk false j) (fun r => band n (X r) j) =
    echo n (slip (2 * n) (junk true (2 * n - 2)) (X (2 * n - 2))) (X (2 * n - 2)) j

instance (n : Nat) (junk : Bool → Nat → Int) (X : Image) : Decidable (Harmless n junk X) :=
  decidable_of_iff (_ ∧ _) ⟨fun both => ⟨both.1, both.2⟩, fun harmless => ⟨harmless.rows, harmless.columns⟩⟩

theorem forwardPass_eq (lvl n : Nat) (X : Image) : forwardPass lvl n X = transform n X := by
  rw [forwardPass, pass_analysis, pass_analysis]
  rfl

section Level
variable {n lvl : Nat} {junk : Nat → Bool → Nat → Int} {X : Image}

/-- A row of the second pass, as the inverse has it. -/
def undoneRow (n : Nat) (junk : Bool → Nat → Int) (X : Image) (j : Nat) : Nat → Int :=
  fun r => band n (moved (2 * n) (junk true r) (X r)) j

theorem undonePass_eq (size : 2 ≤ n) :
    undonePass junk lvl n X = fun k j => band n (moved (2 * n) (junk lvl false j) (undoneRow n (junk lvl) X j)) k := by
  rw [undonePass, pass_synthesis size, pass_synthesis size]
  rfl

theorem undonePass_congruent (junk : Nat → Bool → Nat → Int) : Congruent (undonePass junk) := fun _ n _ _ same =>
  pass_congr (fun _ => synthesis_local n _) (pass_congr (fun _ => synthesis_local n _) same)

/-- Where a row has been predicted right, its entry is the same. -/
theorem undoneRow_right {r : Nat} (right : slip (2 * n) (junk lvl true r) (X r) = 0) (j : Nat) :
    undoneRow n (junk lvl) X j r = band n (X r) j := by
  rw [undoneRow, moved_of_right right]

/-- The second pass then finds its odd samples as they should be. -/
theorem slip_undoneRow (size : 2 ≤ n)
    (rows : ∀ r < 2 * n, r ≠ 2 * n - 2 → slip (2 * n) (junk lvl true r) (X r) = 0) (j : Nat) :
    slip (2 * n) (junk lvl false j) (undoneRow n (junk lvl) X j) =
      slip (2 * n) (junk lvl false j) (fun r => band n (X r) j) :=
  slip_congr (by omega) fun r inside other => undoneRow_right (rows r inside other) j

theorem Harmless.passes (size : 2 ≤ n) (harmless : Harmless n (junk lvl) X) :
    AgreeOn (2 * n) (forwardPass lvl n X) (undonePass junk lvl n X) := by
  rw [forwardPass_eq, undonePass_eq size]
  intro k row j column
  refine band_congr (fun r inside => ?_) k row
  by_cases last : r = 2 * n - 2
  · subst last
    rw [moved_last, slip_undoneRow size harmless.rows, harmless.columns j column, undoneRow, band_moved size column,
      add_sub_cancel_right]
  · rw [moved_of_ne last, undoneRow_right (harmless.rows r inside last)]

/-- The two transforms agree around the last quarter only if nothing is wrong in it either. -/
theorem Harmless.of_border (size : 2 ≤ n)
    (border : ∀ k < 2 * n, ∀ j < 2 * n, ¬ (n ≤ k ∧ n ≤ j) → forwardPass lvl n X k j = undonePass junk lvl n X k j) :
    Harmless n (junk lvl) X := by
  rw [forwardPass_eq, undonePass_eq size] at border
  -- the rows of the high band come out as a whole
  have whole (j : Nat) (high : j < n) (r : Nat) (inside : r < 2 * n) :
      band n (X r) j = moved (2 * n) (junk lvl false j) (undoneRow n (junk lvl) X j) r :=
    band_inj (x := fun r => band n (X r) j) (fun k row => border k row j (by omega) (by omega)) r inside
  have rows : ∀ r < 2 * n, r ≠ 2 * n - 2 → slip (2 * n) (junk lvl true r) (X r) = 0 := by
    intro r inside other
    have entry := whole (n - 1) (by omega) r inside
    have last : n - 1 + 1 = n := by omega
    rw [moved_of_ne other, undoneRow, band_moved size (by omega), echo, if_pos last] at entry
    omega
  refine ⟨rows, fun j column => ?_⟩
  have same := @slip_undoneRow n lvl junk X size rows j
  have entry := @band_moved n (junk lvl true (2 * n - 2)) (X (2 * n - 2)) size j column
  rcases Nat.lt_or_ge j n with high | low
  · have sample := whole j high (2 * n - 2) (by omega)
    rw [moved_last, same, undoneRow, entry] at sample
    omega
  · -- of the other rows the last entry of the high band does
    have sample : transform n X (n - 1) j =
        band n (moved (2 * n) (junk lvl false j) (undoneRow n (junk lvl) X j)) (n - 1) :=
      border (n - 1) (by omega) j column (by omega)
    have front : n - 1 < n := by omega
    have odd (r : Nat) (inside : r < 2 * n) (other : r ≠ 2 * n - 2) :
        moved (2 * n) (junk lvl false j) (undoneRow n (junk lvl) X j) r = band n (X r) j := by
      rw [moved_of_ne other, undoneRow_right (rows r inside other)]
    rw [transform, band, if_pos front, band, if_pos front, highPass_last size, highPass_last size, moved_last, same,
      odd (2 * n - 3) (by omega) (by omega), odd (2 * n - 1) (by omega) (by omega), undoneRow, entry] at sample
    omega

/-- A level comes out right exactly if it does no harm, whatever is below; then what is below has to come out right of
the block that it should work on. -/
theorem level_agrees_iff {rb levels : Nat} (size : 2 ≤ n) (rest : Sized rb levels n) :
    AgreeOn (2 * n) (pyramid forwardPass (levels + 1) lvl (2 * n) X)
        (pyramid (undonePass junk) (levels + 1) lvl (2 * n) X) ↔
      Harmless n (junk lvl) X ∧
        AgreeOn n (pyramid forwardPass levels (lvl + 1) n (quadrant n (transform n X)))
          (pyramid (undonePass junk) levels (lvl + 1) n (quadrant n (transform n X))) := by
  have below (harmless : Harmless n (junk lvl) X) :
      AgreeOn n (pyramid (undonePass junk) levels (lvl + 1) n (quadrant n (transform n X)))
        (pyramid (undonePass junk) levels (lvl + 1) n (quadrant n (undonePass junk lvl n X))) := by
    have passes := harmless.passes size
    rw [forwardPass_eq] at passes
    exact pyramid_congr (undonePass_congruent junk) rest (agreeOn_quadrant.mp passes).2
  rw [pyramid_agrees_iff]
  constructor
  · rintro ⟨border, inner⟩
    have harmless := Harmless.of_border size border
    rw [forwardPass_eq] at inner
    exact ⟨harmless, inner.trans (below harmless).symm⟩
  · rintro ⟨harmless, inner⟩
    refine ⟨fun r row c column _ => harmless.passes size r row c column, ?_⟩
    rw [forwardPass_eq]
    exact inner.trans (below harmless)

end Level

/-- The block of a level: the low band of both directions, level after level. -/
def lowLow (w : Nat) : Nat → Image → Image
  | 0, X => X
  | lvl + 1, X => lowLow (w / 2) lvl (quadrant (w / 2) (transform (w / 2) X))

theorem pyramid_restored_iff {rb levels w : Nat} (sized : Sized rb levels w) (junk : Nat → Bool → Nat → Int) (lvl : Nat)
    (X : Image) :
    AgreeOn w (pyramid forwardPass levels lvl w X) (pyramid (undonePass junk) levels lvl w X) ↔
      ∀ level < levels, Harmless (w / 2 ^ (level + 1)) (junk (lvl + level)) (lowLow w level X) := by
  induction levels generalizing w lvl X with
  | zero => exact ⟨fun _ level none => absurd none (Nat.not_lt_zero level), fun _ => AgreeOn.refl X⟩
  | succ levels ih =>
    obtain ⟨n, rfl, size, _, rest⟩ := sized
    have half : 2 * n / 2 = n := Nat.mul_div_cancel_left n (by decide)
    have deeper (level : Nat) : 2 * n / 2 ^ (level + 1 + 1) = n / 2 ^ (level + 1) := by
      rw [Nat.pow_succ', ← Nat.div_div_eq_div_mul, half]
    have next (level : Nat) : lvl + 1 + level = lvl + (level + 1) := by omega
    rw [level_agrees_iff size rest, ih rest, Nat.forall_lt_succ_left]
    simp only [lowLow, half, deeper, next, Nat.zero_add, pow_one, Nat.add_zero]

/-- The image comes back exactly if no level does any harm. -/
theorem lifting_restores_iff {w : Nat} (eighths : 8 ∣ w) (size : 16 ≤ w) (ibuf tmpbuf : Buf)
    (junk : Nat → Bool → Nat → Int) :
    (∀ i < w * w, (lifting w ibuf tmpbuf 0 junk).ibuf i = ibuf i) ↔
      ∀ lvl < 3, Harmless (w / 2 ^ (lvl + 1)) (junk lvl) (lowLow w lvl (block ibuf w 0)) := by
  obtain ⟨m, rfl⟩ := eighths
  have sized := sized_three (m := m) (by omega)
  have levels := pyramid_restored_iff sized junk 0 (block ibuf (8 * m) 0)
  simp only [Nat.zero_add] at levels
  rw [image_agrees_iff, lifting_eq_cascade, ← levels]
  exact (cascade_agrees_iff junk sized 0 0 (ibuf, tmpbuf) _).1

/-- In rows of four samples nothing has been assigned to `b`, and some value of it does harm. -/
theorem lifting_sixteen (ibuf tmpbuf : Buf) :
    ∃ junk, ¬ ∀ i < 16 * 16, (lifting 16 ibuf tmpbuf 0 junk).ibuf i = ibuf i := by
  refine ⟨fun _ _ r => lowLow 16 2 (block ibuf 16 0) r 1 + 2, fun restored => ?_⟩
  have level := (lifting_restores_iff (by decide) le_rfl ibuf tmpbuf _).mp restored 2 (by decide)
  have first : slip 4 _ (lowLow 16 2 (block ibuf 16 0) 0) = 0 := level.rows 0 (by decide) (by decide)
  rw [slip, if_pos rfl] at first
  simp only [Nat.reduceSub] at first
  omega

/-! ### A single pair of passes -/

/-- Where the two predictors part: the last pair of a row. -/
theorem predict_agrees_iff {n : Nat} (size : 2 ≤ n) (junk : Int) (odd : Nat → Int) :
    (∀ k < n, predictIlift n junk odd k = predictLift odd k) ↔
      (staleB n junk odd + odd (n - 1)) >>> (1 : Nat) = (odd (n - 2) + odd (n - 1)) >>> (1 : Nat) := by
  have last : predictLift odd (n - 1) = (odd (n - 2) + odd (n - 1)) >>> (1 : Nat) := by
    obtain ⟨k, rfl⟩ := Nat.exists_eq_add_of_le' size
    rfl
  constructor
  · intro same
    have := same (n - 1) (by omega)
    rwa [predictIlift, if_pos (by omega), last] at this
  · intro same k hk
    unfold predictIlift
    split
    · obtain rfl : k = n - 1 := by omega
      rw [same, last]
    · rfl

/-- Undoing a pass of `singlelift` by the scheme of `ilift` fails only where the predictors part. -/
theorem unpass_pass_agrees_iff {n : Nat} (junk : Nat → Int) (X : Image) :
    AgreeOn (2 * n) (unpass n (fun r => synthesis n (junk r)) (pass n (fun _ => analysis n) X)) X ↔
      ∀ r < 2 * n, ∀ k < n, predictIlift n (junk r) (fun k => X r (2 * k + 1)) k =
        predictLift (fun k => X r (2 * k + 1)) k := by
  rw [agreeOn_pairs]
  refine forall₂_congr fun r _ => ?_
  have sameUpdate : (synthesis n (junk r)).update = (analysis n).update := rfl
  have hi : ∀ k < n, pass n (fun _ => analysis n) X k r =
      (analysis n).high (fun k => X r (2 * k)) (fun k => X r (2 * k + 1)) k :=
    fun k hk => pass_high hk r
  have lo : ∀ k < n, pass n (fun _ => analysis n) X (n + k) r =
      (analysis n).low (fun k => X r (2 * k)) (fun k => X r (2 * k + 1)) k :=
    fun k _ => pass_low k r
  have odd : ∀ k < n, unpass n (fun r => synthesis n (junk r))
      (pass n (fun _ => analysis n) X) r (2 * k + 1) = X r (2 * k + 1) := fun k hk => by
    rw [unpass_odd, Scheme.oddOf_analysis sameUpdate (synthesis_local n _) hi lo k hk]
  rw [and_iff_left odd]
  refine forall₂_congr fun k hk => ?_
  rw [unpass_even]
  exact Scheme.evenOf_analysis_iff sameUpdate (synthesis_local n _) hi lo hk

/-- `ilift` after `singlelift` restores a block exactly when, in every row, the mean of the
last odd sample with the stale one is the mean with the one before it. -/
theorem ilift_singlelift_iff {rb w : Nat} (even : 2 ∣ w) (size : 4 ≤ w) (fits : w ≤ rb)
    (ibuf obuf out : Buf) (ibase obase outbase : Nat) (junk : Nat → Int) :
    AgreeOn w (block (ilift rb w (singlelift rb w ibuf ibase obuf obase) obase out outbase junk)
        rb outbase) (block ibuf rb ibase) ↔
      ∀ r < w,
        ((if w = 4 then junk r else block ibuf rb ibase r (w - 5)) + block ibuf rb ibase r (w - 1)) >>> (1 : Nat) =
          (block ibuf rb ibase r (w - 3) + block ibuf rb ibase r (w - 1)) >>> (1 : Nat) := by
  obtain ⟨n, rfl⟩ := even
  have size' : 2 ≤ n := by omega
  obtain ⟨lifted, _⟩ := singlelift_block ibuf obuf ibase obase size' fits
  obtain ⟨restored, _⟩ := ilift_block (singlelift rb (2 * n) ibuf ibase obuf obase) out obase outbase
    size' fits junk
  have loc : ∀ r, (synthesis n (junk r)).Local n := fun r => synthesis_local n _
  generalize block ibuf rb ibase = X at lifted ⊢
  have undone := restored.trans (unpass_congr loc lifted)
  calc AgreeOn (2 * n) (block (ilift rb (2 * n) (singlelift rb (2 * n) ibuf ibase obuf obase) obase
          out outbase junk) rb outbase) X
      ↔ AgreeOn (2 * n) (unpass n (fun r => synthesis n (junk r)) (pass n (fun _ => analysis n) X)) X :=
        ⟨undone.symm.trans, undone.trans⟩
    _ ↔ ∀ r < 2 * n, ∀ k < n, predictIlift n (junk r) (fun k => X r (2 * k + 1)) k =
          predictLift (fun k => X r (2 * k + 1)) k := unpass_pass_agrees_iff junk X
    _ ↔ _ := by
        refine forall₂_congr fun r _ => ?_
        rw [predict_agrees_iff size', staleB]
        have stale : (if 3 ≤ n then X r (2 * (n - 3) + 1) else junk r) =
            if 2 * n = 4 then junk r else X r (2 * n - 5) := by
          by_cases three : 3 ≤ n
          · rw [if_pos three, if_neg (by omega), show 2 * (n - 3) + 1 = 2 * n - 5 by omega]
          · rw [if_neg three, if_pos (by omega)]
        rw [stale, show 2 * (n - 1) + 1 = 2 * n - 1 by omega, show 2 * (n - 2) + 1 = 2 * n - 3 by omega]

/-! ### When the transform is lossless -/

/-- The exact images that survive `lifting`, and those that survive one pair of passes. With rows of sixteen samples,
which come down to rows of four, no image is sure to survive. -/
theorem round_trip_iff (w : Nat) (ibuf : Buf) :
    (8 ∣ w → 16 ≤ w → ∀ (tmpbuf : Buf) (junk : Nat → Bool → Nat → Int),
      (∀ i < w * w, (lifting w ibuf tmpbuf 0 junk).ibuf i = ibuf i) ↔
        ∀ lvl < 3, Harmless (w / 2 ^ (lvl + 1)) (junk lvl) (lowLow w lvl (block ibuf w 0))) ∧
    (w = 16 → ∀ tmpbuf : Buf, ∃ junk, ¬ ∀ i < w * w, (lifting w ibuf tmpbuf 0 junk).ibuf i = ibuf i) ∧
    ∀ rb, 2 ∣ w → 4 ≤ w → w ≤ rb →
      ∀ (obuf out : Buf) (ibase obase outbase : Nat) (junk : Nat → Int),
        AgreeOn w (block (ilift rb w (singlelift rb w ibuf ibase obuf obase) obase out outbase junk)
            rb outbase) (block ibuf rb ibase) ↔
          ∀ r < w,
            ((if w = 4 then junk r else block ibuf rb ibase r (w - 5)) +
              block ibuf rb ibase r (w - 1)) >>> (1 : Nat) =
            (block ibuf rb ibase r (w - 3) + block ibuf rb ibase r (w - 1)) >>> (1 : Nat) :=
  ⟨fun eighths size tmpbuf junk => lifting_restores_iff eighths size ibuf tmpbuf junk,
    fun sixteen tmpbuf => sixteen ▸ lifting_sixteen ibuf tmpbuf,
    fun _ even size fits obuf out ibase obase outbase junk =>
      ilift_singlelift_iff even size fits ibuf obuf out ibase obase outbase junk⟩

/-- A black image, and a single sample of 2 in it. -/
def black : Buf := fun _ => 0
def spike (position : Nat) : Buf := fun i => if i = position then 2 else 0

/-- A bright sample left of the last pair is lost, in the whole transform and in one pair of
passes; one at the start of a row survives a pair of passes, and in rows of 24 the whole transform. -/
theorem round_trip_at_spikes :
    (¬ ∀ i < 24 * 24, (lifting 24 (spike 21) black 0 (fun _ _ _ => 0)).ibuf i = spike 21 i) ∧
    (∀ i < 24 * 24, (lifting 24 (spike 0) black 0 (fun _ _ _ => 0)).ibuf i = spike 0 i) ∧
    (∃ junk, ¬ ∀ i < 16 * 16, (lifting 16 (spike 0) black 0 junk).ibuf i = spike 0 i) ∧
    (¬ AgreeOn 6 (block (ilift 6 6 (singlelift 6 6 (spike 3) 0 black 0) 0 black 0 (fun _ => 0)) 6 0)
      (block (spike 3) 6 0)) ∧
    AgreeOn 6 (block (ilift 6 6 (singlelift 6 6 (spike 0) 0 black 0) 0 black 0 (fun _ => 0)) 6 0)
      (block (spike 0) 6 0) := by
  have image := fun position =>
    (round_trip_iff 24 (spike position)).1 (by decide) (by decide) black (fun _ _ _ => 0)
  have passes := fun position =>
    (round_trip_iff 6 (spike position)).2.2 6 (by decide) (by decide) le_rfl black black 0 0 0 fun _ => 0
  refine ⟨fun restored => ?_, ?_, (round_trip_iff 16 (spike 0)).2.1 rfl black, fun restored => ?_, ?_⟩
  · exact absurd (((image 21).mp restored 0 (by decide)).rows 0 (by decide) (by decide)) (by decide)
  · exact (image 0).mpr (by decide +kernel)
  · exact absurd ((passes 3).mp restored) (by decide)
  · exact (passes 0).mpr (by decide)

/-- `lifting` loses a single bright sample, and so does one pair of passes. -/
theorem lifting_loses_spike :
    (∀ junk, ¬ ∀ i < 16 * 16, (lifting 16 (spike 13) black 0 junk).ibuf i = spike 13 i) ∧
    ¬ AgreeOn 6 (block (ilift 6 6 (singlelift 6 6 (spike 3) 0 black 0) 0 black 0 (fun _ => 0)) 6 0)
      (block (spike 3) 6 0) := by
  constructor
  · intro junk restored
    have level := (lifting_restores_iff (by decide) le_rfl (spike 13) black junk).mp restored 0 (by decide)
    have first : slip 16 0 (block (spike 13) 16 0 0) = 0 := level.rows 0 (by decide) (by decide)
    exact absurd first (by decide)
  · intro restored
    exact absurd ((ilift_singlelift_iff (by decide) (by decide) le_rfl (spike 3) black black 0 0 0
      fun _ => 0).mp restored) (by decide)

end IcoZip.Wavelet
