import IcoZip.Wavelet.RoundTrip

/-! The forward transform, coefficient by coefficient, and where it is kept.

One pass turns the rows of a block into its columns, the high band in front.
After two passes the low band of both is the last quarter of the block, which is
the block of the next level; what is around it stays for good.
-/

set_option autoImplicit false

namespace IcoZip.Wavelet

open LiftingScheme (Scheme)

/-! ### One pass -/

/-- The rows of a block have become the columns of another, and nothing else has changed. -/
structure Transformed (rb w : Nat) (ibuf : Buf) (ibase : Nat) (obuf : Buf) (obase : Nat) (result : Buf) : Prop where
  high : ∀ r < w, ∀ k < w / 2, result (obase + (k * rb + r)) = highPass (block ibuf rb ibase r) k
  low : ∀ r < w, ∀ k < w / 2, result (obase + ((w / 2 + k) * rb + r)) = lowPass (w / 2) (block ibuf rb ibase r) k
  frame : ∀ a, (∀ r < w, ∀ j < w, a ≠ obase + (j * rb + r)) → result a = obuf a

theorem singlelift_transformed {rb w : Nat} (even : 2 ∣ w) (size : 4 ≤ w) (fits : w ≤ rb) (ibuf obuf : Buf)
    (ibase obase : Nat) : Transformed rb w ibuf ibase obuf obase (singlelift rb w ibuf ibase obuf obase) := by
  obtain ⟨n, rfl⟩ := even
  have half : 2 * n / 2 = n := Nat.mul_div_cancel_left n (by decide)
  obtain ⟨bands, untouched⟩ := @singlelift_block rb n ibuf obuf ibase obase (by omega) fits
  constructor
  · intro r row k bound
    rw [half] at bound
    have value := bands k (by omega) r row
    rw [pass_high bound, high_highPass n (block ibuf rb ibase r) k] at value
    rw [← value, block, Nat.add_assoc]
  · intro r row k bound
    rw [half] at bound ⊢
    have value := bands (n + k) (by omega) r row
    rw [pass_low, low_lowPass n (block ibuf rb ibase r) k] at value
    rw [← value, block, Nat.add_assoc]
  · intro a outside
    refine untouched a fun j column r row => ?_
    rw [Nat.add_assoc]
    exact outside r row j column

/-! ### The levels -/

/-- The variables of `lifting` behind the first levels. -/
def forwardLevels (w : Nat) (ibuf tmpbuf : Buf) (lvls : Nat) : Levels :=
  (List.range lvls).foldl (forwardLevel w) { w, ip := 0, tp := 0, ibuf, tmpbuf, ov := fun _ => 0 }

theorem forwardLevels_succ (w : Nat) (ibuf tmpbuf : Buf) (lvl : Nat) :
    forwardLevels w ibuf tmpbuf (lvl + 1) = forwardLevel w (forwardLevels w ibuf tmpbuf lvl) lvl := by
  rw [forwardLevels, List.range_succ, List.foldl_append]
  rfl

/-- Without the inverse. -/
theorem lifting_forward (w : Nat) (ibuf tmpbuf : Buf) {fwd : Int} (forward : fwd ≠ 0)
    (junk : Nat → Bool → Nat → Int) : lifting w ibuf tmpbuf fwd junk = forwardLevels w ibuf tmpbuf 3 := by
  rw [lifting, if_neg forward]
  rfl

/-- Where the block of a level begins: its last row and column are those of the image. -/
def corner (w lvl : Nat) : Nat := (w - w / 2 ^ lvl) * w + (w - w / 2 ^ lvl)

/-- The side of a block, as twice that of the next. -/
theorem side_succ {w lvl : Nat} (even : 2 ^ (lvl + 1) ∣ w) : w / 2 ^ lvl = 2 * (w / 2 ^ (lvl + 1)) := by
  obtain ⟨n, rfl⟩ := even
  rw [Nat.mul_div_cancel_left n (Nat.two_pow_pos _), Nat.pow_succ, Nat.mul_assoc,
    Nat.mul_div_cancel_left _ (Nat.two_pow_pos _)]

theorem corner_succ {w lvl : Nat} (even : 2 ^ (lvl + 1) ∣ w) :
    corner w (lvl + 1) = corner w lvl + (w / 2 ^ (lvl + 1) * w + w / 2 ^ (lvl + 1)) := by
  have side := side_succ even
  have within : w / 2 ^ lvl ≤ w := Nat.div_le_self w _
  have next : w - w / 2 ^ (lvl + 1) = w - w / 2 ^ lvl + w / 2 ^ (lvl + 1) := by omega
  rw [corner, corner, next]
  ring

/-- The two pointers of a level and the side of its block. -/
theorem forwardLevels_place {w lvl : Nat} (even : 2 ^ lvl ∣ w) (ibuf tmpbuf : Buf) :
    (forwardLevels w ibuf tmpbuf lvl).w = w / 2 ^ lvl ∧ (forwardLevels w ibuf tmpbuf lvl).ip = corner w lvl ∧
      (forwardLevels w ibuf tmpbuf lvl).tp = corner w lvl := by
  induction lvl with
  | zero => simp [forwardLevels, corner]
  | succ lvl ih =>
    obtain ⟨side, ip, tp⟩ := ih (dvd_trans (pow_dvd_pow 2 (Nat.le_succ lvl)) even)
    have half : w / 2 ^ lvl / 2 = w / 2 ^ (lvl + 1) := by rw [side_succ even, Nat.mul_div_cancel_left _ (by decide)]
    have rows : w / 2 ^ lvl * w / 2 = w / 2 ^ (lvl + 1) * w := by
      rw [side_succ even, half_slots]
    simp only [forwardLevels_succ, forwardLevel, side, ip, tp, half, rows, corner_succ even, and_self]

/-- The block of a level, and everything around it. -/
structure LevelStep (w lvl : Nat) (before after : Buf) : Prop where
  /-- The two passes on the block. -/
  passes : AgreeOn (w / 2 ^ lvl) (block after w (corner w lvl))
    (forwardPass lvl (w / 2 ^ (lvl + 1)) (block before w (corner w lvl)))
  /-- The block of the next level is the last quarter, which both passes have left in the low band. -/
  next : block after w (corner w (lvl + 1)) =
    quadrant (w / 2 ^ (lvl + 1)) (block after w (corner w lvl))
  /-- Not only this block but every one before has kept what is around it. -/
  frame : ∀ earlier ≤ lvl, ∀ a, Outside w (w / 2 ^ earlier) (corner w earlier) a → after a = before a

/-- A block is inside the blocks of the levels before. -/
theorem outside_earlier {w lvl earlier : Nat} (even : 2 ^ lvl ∣ w) (before : earlier ≤ lvl) {a : Nat}
    (outside : Outside w (w / 2 ^ earlier) (corner w earlier) a) : Outside w (w / 2 ^ lvl) (corner w lvl) a := by
  induction lvl with
  | zero => rwa [Nat.le_zero.mp before] at outside
  | succ lvl ih =>
    rcases Nat.lt_or_ge lvl earlier with last | more
    · rwa [show earlier = lvl + 1 by omega] at outside
    have larger := ih (dvd_trans (pow_dvd_pow 2 (Nat.le_succ lvl)) even) more
    have side := side_succ even
    intro r row c column same
    refine larger (w / 2 ^ (lvl + 1) + r) (by omega) (w / 2 ^ (lvl + 1) + c) (by omega) ?_
    rw [same, corner_succ even]
    ring

theorem forwardLevels_step {w lvl : Nat} (even : 2 ^ (lvl + 1) ∣ w) (size : 2 ^ (lvl + 2) ≤ w) (ibuf tmpbuf : Buf) :
    LevelStep w lvl (forwardLevels w ibuf tmpbuf lvl).ibuf (forwardLevels w ibuf tmpbuf (lvl + 1)).ibuf := by
  have even' : 2 ^ lvl ∣ w := dvd_trans (pow_dvd_pow 2 (Nat.le_succ lvl)) even
  obtain ⟨side, ip, tp⟩ := forwardLevels_place even' ibuf tmpbuf
  have twice := side_succ even
  have large : 2 ≤ w / 2 ^ (lvl + 1) := by
    rw [Nat.le_div_iff_mul_le (Nat.two_pow_pos _), ← Nat.pow_succ']
    exact size
  have fits : 2 * (w / 2 ^ (lvl + 1)) ≤ w := twice ▸ Nat.div_le_self w _
  let m := ((forwardLevels w ibuf tmpbuf lvl).ibuf, (forwardLevels w ibuf tmpbuf lvl).tmpbuf)
  have level : (forwardLevels w ibuf tmpbuf (lvl + 1)).ibuf =
      (forwardMem w (2 * (w / 2 ^ (lvl + 1))) (corner w lvl) m).1 := by
    simp only [forwardLevels_succ, forwardLevel, forwardMem, side, ip, tp, twice, m]
  obtain ⟨passes, untouched⟩ := forwardMem_spec large fits (corner w lvl) m
  rw [← level, ← twice] at passes
  refine ⟨passes, ?_, fun earlier before a outside => ?_⟩
  · rw [corner_succ even, block_quadrant]
  · have inner := outside_earlier even' before outside
    rw [twice] at inner
    rw [level, untouched a inner]

/-- What is outside the block of a level is as it will be in the end. -/
theorem forwardLevels_keep {w lvl lvls : Nat} (le : lvl ≤ lvls) (even : 2 ^ lvls ∣ w) (size : 2 ^ (lvls + 1) ≤ w)
    (ibuf tmpbuf : Buf) {a : Nat} (outside : Outside w (w / 2 ^ lvl) (corner w lvl) a) :
    (forwardLevels w ibuf tmpbuf lvls).ibuf a = (forwardLevels w ibuf tmpbuf lvl).ibuf a := by
  induction lvls with
  | zero => rw [Nat.le_zero.mp le]
  | succ lvls ih =>
    rcases Nat.lt_or_ge lvls lvl with last | more
    · rw [show lvls + 1 = lvl by omega]
    have smaller : 2 ^ (lvls + 1) ≤ w := le_trans (Nat.pow_le_pow_right (by decide) (Nat.le_succ _)) size
    have rest := ih more (dvd_trans (pow_dvd_pow 2 (Nat.le_succ lvls)) even) smaller
    rw [(forwardLevels_step even size ibuf tmpbuf).frame lvl more a outside, rest]

/-- The transform: each pass gives the two bands of every row, transposed; each level keeps to the last quarter of
the one before, and what it leaves around that quarter is there in the end. -/
theorem forward_transform (w : Nat) (ibuf : Buf) :
    (2 ∣ w → 4 ≤ w → ∀ (rb : Nat), w ≤ rb → ∀ (obuf : Buf) (ibase obase : Nat),
      Transformed rb w ibuf ibase obuf obase (singlelift rb w ibuf ibase obuf obase)) ∧
    (∀ (tmpbuf : Buf) (lvl : Nat), 2 ^ (lvl + 1) ∣ w → 2 ^ (lvl + 2) ≤ w →
      LevelStep w lvl (forwardLevels w ibuf tmpbuf lvl).ibuf (forwardLevels w ibuf tmpbuf (lvl + 1)).ibuf) ∧
    ∀ (tmpbuf : Buf) (fwd : Int) (junk : Nat → Bool → Nat → Int), fwd ≠ 0 →
      lifting w ibuf tmpbuf fwd junk = forwardLevels w ibuf tmpbuf 3 ∧
        (2 ^ 3 ∣ w → 2 ^ 4 ≤ w → ∀ lvl ≤ 3, ∀ a, Outside w (w / 2 ^ lvl) (corner w lvl) a →
          (lifting w ibuf tmpbuf fwd junk).ibuf a = (forwardLevels w ibuf tmpbuf lvl).ibuf a) := by
  refine ⟨fun even size _ fits obuf ibase obase => singlelift_transformed even size fits ibuf obuf ibase obase,
    fun tmpbuf _ even size => forwardLevels_step even size ibuf tmpbuf, fun tmpbuf fwd junk forward => ?_⟩
  have same := lifting_forward w ibuf tmpbuf forward junk
  refine ⟨same, fun even size lvl le a outside => ?_⟩
  rw [same]
  exact forwardLevels_keep le even size ibuf tmpbuf outside

/-- An image of sixteen rows, and a pass on the first six of them. -/
theorem forward_transform_spike :
    Transformed 16 6 (spike 3) 0 black 0 (singlelift 16 6 (spike 3) 0 black 0) ∧
    LevelStep 16 2 (forwardLevels 16 (spike 3) black 2).ibuf (forwardLevels 16 (spike 3) black 3).ibuf ∧
    ∀ a, Outside 16 8 136 a →
      (lifting 16 (spike 3) black 1 fun _ _ _ => 0).ibuf a = (forwardLevels 16 (spike 3) black 1).ibuf a :=
  ⟨(forward_transform 6 (spike 3)).1 (by decide) (by decide) 16 (by decide) black 0 0,
    (forward_transform 16 (spike 3)).2.1 black 2 (by decide) (by decide),
    ((forward_transform 16 (spike 3)).2.2 black 1 (fun _ _ _ => 0) (by decide)).2 (by decide) (by decide) 1 (by decide)⟩

end IcoZip.Wavelet
