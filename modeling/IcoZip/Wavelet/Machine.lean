import IcoZip.Wavelet.Forward
import Mathlib.Algebra.Order.Group.Abs
import Mathlib.Algebra.Order.Group.Int

/-! The forward levels of `lifting` with the `int` of the machine, which has 32 bits.

An operation that overflows has no value. Offsets into the buffers are no values
of the image and stay unbounded.
-/

set_option autoImplicit false

namespace IcoZip.Wavelet

namespace Machine

/-- The outcome of an operation on `int`. -/
def int (x : Int) : Option Int := if -2 ^ 31 ≤ x ∧ x < 2 ^ 31 then some x else none

/-- `cp - ((b+d)>>1)` -/
def hpFilter (cp b d : Int) : Option Int := do
  let sum ← int (b + d)
  int (cp - (sum >>> (1 : Nat)))

/-- `b + ((ap+cp+2)>>2)` -/
def lpFilter (b ap cp : Int) : Option Int := do
  let sum ← int (ap + cp)
  let sum ← int (sum + 2)
  int (b + (sum >>> (2 : Nat)))

/-- `d + ((cp+1)>>3)` -/
def lpLast (d cp : Int) : Option Int := do
  let sum ← int (cp + 1)
  int (d + (sum >>> (3 : Nat)))

def liftPrecharge (ibuf obuf : Buf) (ip op opb : Nat) : Option LiftRegs := do
  let ap := ibuf ip
  let b := ibuf (ip + 1)
  let cp := ibuf (ip + 2)
  let d := ibuf (ip + 3)
  let ap ← int (ap - b)
  let cp ← hpFilter cp b d
  let low ← lpFilter b ap cp
  return { ip := ip + 4, op, opb, ap, b, cp, d, obuf := Function.update (Function.update obuf op ap) opb low }

def liftColumn (rb : Nat) (ibuf : Buf) (s : LiftRegs) : Option LiftRegs := do
  let op := s.op + rb
  let opb := s.opb + rb
  let ap := s.cp
  let b := s.d
  let cp := ibuf s.ip
  let d := ibuf (s.ip + 1)
  let cp ← hpFilter cp b d
  let low ← lpFilter b ap cp
  return { ip := s.ip + 2, op, opb, ap, b, cp, d, obuf := Function.update (Function.update s.obuf op ap) opb low }

/-- The column loop. -/
def liftColumns (rb : Nat) (ibuf : Buf) : Nat → LiftRegs → Option LiftRegs
  | 0, s => some s
  | turns + 1, s => do liftColumns rb ibuf turns (← liftColumn rb ibuf s)

def liftLast (rb : Nat) (s : LiftRegs) : Option Buf := do
  let low ← lpLast s.d s.cp
  return Function.update (Function.update s.obuf (s.op + rb) s.cp) (s.opb + rb) low

def singleliftRow (rb w : Nat) (ibuf : Buf) (ibase obase : Nat) (obuf : Buf) (row : Nat) : Option Buf := do
  let op := obase + row
  let s ← liftPrecharge ibuf obuf (ibase + row * rb) op (op + w * rb / 2)
  let s ← liftColumns rb ibuf (w / 2 - 2) s
  liftLast rb s

def singlelift (rb w : Nat) (ibuf : Buf) (ibase : Nat) (obuf : Buf) (obase : Nat) : Option Buf :=
  (List.range w).foldlM (singleliftRow rb w ibuf ibase obase) obuf

def forwardLevel (rb : Nat) (s : Levels) (lvl : Nat) : Option Levels := do
  let tmpbuf ← singlelift rb s.w s.ibuf s.ip s.tmpbuf s.tp
  let ibuf ← singlelift rb s.w tmpbuf s.tp s.ibuf s.ip
  let offset := s.w * rb / 2 + s.w / 2
  return { w := s.w / 2, ip := s.ip + offset, tp := s.tp + offset, ibuf, tmpbuf
           ov := Function.update s.ov lvl (offset + if lvl = 0 then 0 else s.ov (lvl - 1)) }

/-- The first levels. -/
def forwardLevels (w : Nat) (ibuf tmpbuf : Buf) (lvls : Nat) : Option Levels :=
  (List.range lvls).foldlM (forwardLevel w) { w, ip := 0, tp := 0, ibuf, tmpbuf, ov := fun _ => 0 }

/-! ### The filters -/

/-- A value of at most this magnitude. -/
def Within (bound x : Int) : Prop := -bound ≤ x ∧ x ≤ bound

variable {bound : Int}

theorem Within.mono {larger x : Int} (le : bound ≤ larger) (within : Within bound x) : Within larger x := by
  unfold Within at within ⊢
  omega

theorem int_of_within {x : Int} (within : Within (2 ^ 31 - 1) x) : int x = some x := by
  unfold Within at within
  rw [int, if_pos (by omega)]

theorem shift_one (x : Int) : x >>> (1 : Nat) = x / 2 := Int.shiftRight_eq_div_pow x 1

theorem shift_two (x : Int) : x >>> (2 : Nat) = x / 4 := Int.shiftRight_eq_div_pow x 2

theorem shift_three (x : Int) : x >>> (3 : Nat) = x / 8 := Int.shiftRight_eq_div_pow x 3

section Filters
variable {ap b cp d : Int} (room : 4 * bound + 2 < 2 ^ 31)
include room

theorem difference_within (hap : Within bound ap) (hb : Within bound b) :
    int (ap - b) = some (ap - b) ∧ Within (2 * bound) (ap - b) := by
  unfold Within at hap hb
  have value : Within (2 * bound) (ap - b) := by
    unfold Within
    omega
  exact ⟨int_of_within (value.mono (by omega)), value⟩

theorem hpFilter_within (hcp : Within bound cp) (hb : Within bound b) (hd : Within bound d) :
    hpFilter cp b d = some (cp - ((b + d) >>> (1 : Nat))) ∧ Within (2 * bound) (cp - ((b + d) >>> (1 : Nat))) := by
  unfold Within at hcp hb hd
  have sum : Within (2 * bound) (b + d) := by
    unfold Within
    omega
  have value : Within (2 * bound) (cp - ((b + d) >>> (1 : Nat))) := by
    rw [shift_one]
    unfold Within
    omega
  refine ⟨?_, value⟩
  rw [hpFilter, int_of_within (sum.mono (by omega)), Option.bind_eq_bind, Option.bind_some,
    int_of_within (value.mono (by omega))]

theorem lpFilter_within (hb : Within bound b) (hap : Within (2 * bound) ap) (hcp : Within (2 * bound) cp) :
    lpFilter b ap cp = some (b + ((ap + cp + 2) >>> (2 : Nat))) ∧
      Within (2 * bound) (b + ((ap + cp + 2) >>> (2 : Nat))) := by
  unfold Within at hb hap hcp
  have sum : Within (4 * bound) (ap + cp) := by
    unfold Within
    omega
  have rounded : Within (4 * bound + 2) (ap + cp + 2) := by
    unfold Within
    omega
  have value : Within (2 * bound) (b + ((ap + cp + 2) >>> (2 : Nat))) := by
    rw [shift_two]
    unfold Within
    omega
  refine ⟨?_, value⟩
  rw [lpFilter, int_of_within (sum.mono (by omega)), Option.bind_eq_bind, Option.bind_some,
    int_of_within (rounded.mono (by omega)), Option.bind_some, int_of_within (value.mono (by omega))]

theorem lpLast_within (hd : Within bound d) (hcp : Within (2 * bound) cp) :
    lpLast d cp = some (d + ((cp + 1) >>> (3 : Nat))) ∧ Within (2 * bound) (d + ((cp + 1) >>> (3 : Nat))) := by
  unfold Within at hd hcp
  have rounded : Within (2 * bound + 1) (cp + 1) := by
    unfold Within
    omega
  have value : Within (2 * bound) (d + ((cp + 1) >>> (3 : Nat))) := by
    rw [shift_three]
    unfold Within
    omega
  refine ⟨?_, value⟩
  rw [lpLast, int_of_within (rounded.mono (by omega)), Option.bind_eq_bind, Option.bind_some,
    int_of_within (value.mono (by omega))]

end Filters

example : lpFilter 0 (2 ^ 30) (2 ^ 30) = none := by decide

/-! ### A pass -/

/-- Every cell is as it was, or has been given a value of at most twice the bound. -/
def Grown (bound : Int) (before after : Buf) : Prop := ∀ a, after a = before a ∨ Within (2 * bound) (after a)

theorem Grown.refl (m : Buf) : Grown bound m m := fun _ => .inl rfl

theorem Grown.trans {m m' m'' : Buf} (first : Grown bound m m') (second : Grown bound m' m'') : Grown bound m m'' := by
  intro a
  rcases second a with kept | written
  · rw [kept]
    exact first a
  · exact .inr written

theorem Grown.update {before m : Buf} (grown : Grown bound before m) {x : Int} (within : Within (2 * bound) x)
    (cell : Nat) : Grown bound before (Function.update m cell x) := by
  intro a
  by_cases here : a = cell
  · subst here
    rw [Function.update_self]
    exact .inr within
  · rw [Function.update_of_ne here]
    exact grown a

/-- The registers of `singlelift`, with everything written so far. -/
structure Bounded (bound : Int) (obuf : Buf) (s : LiftRegs) : Prop where
  d : Within bound s.d
  cp : Within (2 * bound) s.cp
  obuf : Grown bound obuf s.obuf

section Pass
variable {rb w ibase obase : Nat} {ibuf obuf : Buf} (room : 4 * bound + 2 < 2 ^ 31)
include room

theorem liftPrecharge_within {ip : Nat} (op opb : Nat) (reads : ∀ j < 4, Within bound (ibuf (ip + j))) :
    liftPrecharge ibuf obuf ip op opb = some (Wavelet.liftPrecharge ibuf obuf ip op opb) ∧
      Bounded bound obuf (Wavelet.liftPrecharge ibuf obuf ip op opb) := by
  have read : Within bound (ibuf ip) := reads 0 (by decide)
  obtain ⟨ap, apWithin⟩ := difference_within room read (reads 1 (by decide))
  obtain ⟨cp, cpWithin⟩ := hpFilter_within room (reads 2 (by decide)) (reads 1 (by decide)) (reads 3 (by decide))
  obtain ⟨low, lowWithin⟩ := lpFilter_within room (reads 1 (by decide)) apWithin cpWithin
  constructor
  · simp only [liftPrecharge, ap, cp, low, Option.bind_eq_bind, Option.bind_some]
    rfl
  · exact ⟨reads 3 (by decide), cpWithin, ((Grown.refl obuf).update apWithin op).update lowWithin opb⟩

theorem liftColumn_within {s : LiftRegs} (bounded : Bounded bound obuf s)
    (reads : ∀ j < 2, Within bound (ibuf (s.ip + j))) :
    liftColumn rb ibuf s = some (Wavelet.liftColumn rb ibuf s) ∧
      Bounded bound obuf (Wavelet.liftColumn rb ibuf s) := by
  obtain ⟨cp, cpWithin⟩ := hpFilter_within room (reads 0 (by decide)) bounded.d (reads 1 (by decide))
  obtain ⟨low, lowWithin⟩ := lpFilter_within room bounded.d bounded.cp cpWithin
  rw [Nat.add_zero] at cp cpWithin low lowWithin
  constructor
  · simp only [liftColumn, cp, low, Option.bind_eq_bind, Option.bind_some]
    rfl
  · exact ⟨reads 1 (by decide), cpWithin, (bounded.obuf.update bounded.cp _).update lowWithin _⟩

theorem liftColumns_within (turns : Nat) {s : LiftRegs} (bounded : Bounded bound obuf s)
    (reads : ∀ j < 2 * turns, Within bound (ibuf (s.ip + j))) :
    liftColumns rb ibuf turns s = some ((Wavelet.liftColumn rb ibuf)^[turns] s) ∧
      Bounded bound obuf ((Wavelet.liftColumn rb ibuf)^[turns] s) := by
  induction turns generalizing s with
  | zero => exact ⟨rfl, bounded⟩
  | succ turns ih =>
    obtain ⟨turn, next⟩ := @liftColumn_within bound rb ibuf obuf room s bounded fun j less => reads j (by omega)
    have further : ∀ j < 2 * turns, Within bound (ibuf ((Wavelet.liftColumn rb ibuf s).ip + j)) := by
      intro j less
      have read := reads (2 + j) (by omega)
      rwa [← Nat.add_assoc] at read
    rw [liftColumns, turn, Function.iterate_succ_apply]
    exact ih next further

theorem liftLast_within {s : LiftRegs} (bounded : Bounded bound obuf s) :
    liftLast rb s = some (Wavelet.liftLast rb s) ∧ Grown bound obuf (Wavelet.liftLast rb s) := by
  obtain ⟨low, lowWithin⟩ := lpLast_within room bounded.d bounded.cp
  constructor
  · rw [liftLast, low]
    rfl
  · exact (bounded.obuf.update bounded.cp _).update lowWithin _

/-- A row of four samples and the pairs behind them. -/
theorem singleliftRow_within (row : Nat)
    (reads : ∀ j < 4 + 2 * (w / 2 - 2), Within bound (ibuf (ibase + row * rb + j))) :
    singleliftRow rb w ibuf ibase obase obuf row = some (Wavelet.singleliftRow rb w ibuf ibase obase obuf row) ∧
      Grown bound obuf (Wavelet.singleliftRow rb w ibuf ibase obase obuf row) := by
  obtain ⟨first, precharged⟩ := @liftPrecharge_within bound ibuf obuf room (ibase + row * rb) (obase + row)
    (obase + row + w * rb / 2) fun j less => reads j (by omega)
  obtain ⟨columns, bounded⟩ := @liftColumns_within bound rb ibuf obuf room (w / 2 - 2) _ precharged fun j less => by
    have read := reads (4 + j) (by omega)
    rwa [← Nat.add_assoc] at read
  obtain ⟨last, grown⟩ := @liftLast_within bound rb obuf room _ bounded
  refine ⟨?_, grown⟩
  simp only [singleliftRow, first, Option.bind_eq_bind, Option.bind_some, columns, last]
  rfl

theorem rows_within (rows : List Nat)
    (reads : ∀ row ∈ rows, ∀ j < 4 + 2 * (w / 2 - 2), Within bound (ibuf (ibase + row * rb + j))) (m : Buf) :
    rows.foldlM (singleliftRow rb w ibuf ibase obase) m =
        some (rows.foldl (Wavelet.singleliftRow rb w ibuf ibase obase) m) ∧
      Grown bound m (rows.foldl (Wavelet.singleliftRow rb w ibuf ibase obase) m) := by
  induction rows generalizing m with
  | nil => exact ⟨rfl, Grown.refl m⟩
  | cons row rows ih =>
    obtain ⟨first, grown⟩ :=
      @singleliftRow_within bound rb w ibase obase ibuf m room row (reads row List.mem_cons_self)
    obtain ⟨rest, further⟩ := ih (fun row member => reads row (List.mem_cons_of_mem _ member))
      (Wavelet.singleliftRow rb w ibuf ibase obase m row)
    rw [List.foldlM_cons, first, List.foldl_cons]
    exact ⟨rest, grown.trans further⟩

theorem singlelift_within
    (reads : ∀ row < w, ∀ j < 4 + 2 * (w / 2 - 2), Within bound (ibuf (ibase + row * rb + j))) :
    singlelift rb w ibuf ibase obuf obase = some (Wavelet.singlelift rb w ibuf ibase obuf obase) ∧
      Grown bound obuf (Wavelet.singlelift rb w ibuf ibase obuf obase) :=
  rows_within room (List.range w) (fun row member => reads row (List.mem_range.mp member)) obuf

end Pass

/-! ### A level -/

/-- The samples of a block. -/
def Bounds (bound : Int) (w : Nat) (X : Image) : Prop := ∀ r < w, ∀ c < w, Within bound (X r c)

section Level
variable {rb n : Nat}

/-- A pass over a block. -/
theorem singlelift_bounds {ibuf : Buf} {ibase : Nat} (room : 4 * bound + 2 < 2 ^ 31) (whole : n ≠ 1)
    (fits : 2 * n ≤ rb) (bounds : Bounds bound (2 * n) (block ibuf rb ibase)) (obuf : Buf) (obase : Nat) :
    singlelift rb (2 * n) ibuf ibase obuf obase = some (Wavelet.singlelift rb (2 * n) ibuf ibase obuf obase) ∧
      Bounds (2 * bound) (2 * n) (block (Wavelet.singlelift rb (2 * n) ibuf ibase obuf obase) rb obase) := by
  have reads : ∀ row < 2 * n, ∀ j < 4 + 2 * (2 * n / 2 - 2), Within bound (ibuf (ibase + row * rb + j)) :=
    fun row inside j less => bounds row inside j (by omega)
  refine ⟨(singlelift_within room reads).1, fun r row c column => ?_⟩
  have size : 2 ≤ n := by omega
  -- what is written does not depend on what was there, so it may be compared with a pass into zeros
  obtain ⟨written, -⟩ := singlelift_block ibuf obuf ibase obase size fits
  obtain ⟨blank, -⟩ := singlelift_block ibuf black ibase obase size fits
  rw [written r row c column, ← blank r row c column]
  rcases (@singlelift_within bound rb (2 * n) ibase obase ibuf black room reads).2 (obase + r * rb + c) with
    kept | within
  · have sample := bounds r row c column
    unfold Within at sample ⊢
    rw [block, kept, black]
    omega
  · exact within

theorem forwardLevel_bounds {s : Levels} (room : 8 * bound + 2 < 2 ^ 31) (whole : n ≠ 1) (fits : 2 * n ≤ rb)
    (side : s.w = 2 * n) (same : s.tp = s.ip) (bounds : Bounds bound (2 * n) (block s.ibuf rb s.ip)) (lvl : Nat) :
    forwardLevel rb s lvl = some (Wavelet.forwardLevel rb s lvl) ∧
      Bounds (4 * bound) n
        (block (Wavelet.forwardLevel rb s lvl).ibuf rb (Wavelet.forwardLevel rb s lvl).ip) := by
  have half : 2 * n / 2 = n := Nat.mul_div_cancel_left n (by decide)
  -- without rows there is nothing to do
  by_cases empty : n = 0
  · subst empty
    exact ⟨by simp [forwardLevel, Wavelet.forwardLevel, side, singlelift, Wavelet.singlelift],
      fun r row => absurd row (Nat.not_lt_zero r)⟩
  obtain ⟨first, columns⟩ := @singlelift_bounds bound rb n s.ibuf s.ip (by omega) whole fits bounds s.tmpbuf s.ip
  obtain ⟨second, rows⟩ := @singlelift_bounds (2 * bound) rb n _ s.ip (by omega) whole fits columns s.ibuf s.ip
  constructor
  · simp only [forwardLevel, side, same, first, Option.bind_eq_bind, Option.bind_some, second]
    simp only [Wavelet.forwardLevel, side, same]
    rfl
  · simp only [Wavelet.forwardLevel, side, same, half_slots, half, block_quadrant]
    intro r row c column
    have sample := rows (n + r) (by omega) (n + c) (by omega)
    rwa [← Int.mul_assoc] at sample

/-- What is in both buffers. -/
def Everywhere (bound : Int) (s : Levels) : Prop := ∀ a, Within bound (s.ibuf a) ∧ Within bound (s.tmpbuf a)

theorem Grown.within {before after : Buf} (grown : Grown bound before after) {larger : Int}
    (old : ∀ a, Within larger (before a)) (le : 2 * bound ≤ larger) (a : Nat) : Within larger (after a) := by
  rcases grown a with kept | written
  · rw [kept]
    exact old a
  · exact written.mono le

theorem forwardLevel_everywhere {s : Levels} (room : 8 * bound + 2 < 2 ^ 31) (bounds : Everywhere bound s)
    (lvl : Nat) :
    forwardLevel rb s lvl = some (Wavelet.forwardLevel rb s lvl) ∧
      Everywhere (4 * bound) (Wavelet.forwardLevel rb s lvl) := by
  have positive : 0 ≤ bound := by
    have sample := (bounds 0).1
    unfold Within at sample
    omega
  obtain ⟨first, columns⟩ := @singlelift_within bound rb s.w s.ip s.tp s.ibuf s.tmpbuf (by omega)
    fun row _ j _ => (bounds _).1
  have middle := columns.within (fun a => (bounds a).2.mono (by omega)) (le_refl (2 * bound))
  obtain ⟨second, rows⟩ := @singlelift_within (2 * bound) rb s.w s.tp s.ip _ s.ibuf (by omega)
    fun row _ j _ => middle _
  constructor
  · simp only [forwardLevel, first, Option.bind_eq_bind, Option.bind_some, second]
    rfl
  · intro a
    exact ⟨rows.within (fun a => (bounds a).1.mono (by omega)) (by omega) a, (middle a).mono (by omega)⟩

end Level

/-! ### All of them -/

theorem forwardLevels_within {inv : Nat → Levels → Prop} {w : Nat} {ibuf tmpbuf : Buf}
    (start : inv 0 { w, ip := 0, tp := 0, ibuf, tmpbuf, ov := fun _ => 0 }) {lvls : Nat}
    (step : ∀ lvl < lvls, ∀ s, inv lvl s →
      forwardLevel w s lvl = some (Wavelet.forwardLevel w s lvl) ∧ inv (lvl + 1) (Wavelet.forwardLevel w s lvl)) :
    forwardLevels w ibuf tmpbuf lvls = some (Wavelet.forwardLevels w ibuf tmpbuf lvls) ∧
      inv lvls (Wavelet.forwardLevels w ibuf tmpbuf lvls) := by
  induction lvls with
  | zero => exact ⟨rfl, start⟩
  | succ lvls ih =>
    obtain ⟨before, held⟩ := ih fun lvl less => step lvl (by omega)
    obtain ⟨level, next⟩ := step lvls (by omega) _ held
    rw [forwardLevels] at before
    rw [forwardLevels, List.range_succ, List.foldlM_append, before, forwardLevels_succ]
    refine ⟨?_, next⟩
    simp only [Option.bind_eq_bind, Option.bind_some, List.foldlM_cons, List.foldlM_nil, level]
    rfl

/-- The magnitude of the samples in front of a level. -/
def magnitude (lvl : Nat) : Int := 2 ^ 23 * 4 ^ lvl

theorem magnitude_succ (lvl : Nat) : magnitude (lvl + 1) = 4 * magnitude lvl := by
  rw [magnitude, magnitude, pow_succ]
  ring

theorem magnitude_room {lvl : Nat} (level : lvl < 3) : 8 * magnitude lvl + 2 < 2 ^ 31 := by
  obtain rfl | rfl | rfl : lvl = 0 ∨ lvl = 1 ∨ lvl = 2 := by omega
  all_goals decide

theorem within_of_abs {x : Int} (small : |x| ≤ bound) : Within bound x := abs_le.mp small

/-- The levels of an image, where no block has rows of two samples. -/
structure Standing (w lvl : Nat) (s : Levels) : Prop where
  side : s.w = w / 2 ^ lvl
  same : s.tp = s.ip
  bounds : Bounds (magnitude lvl) s.w (block s.ibuf w s.ip)

theorem standing_start {w : Nat} {ibuf : Buf} (image : ∀ i < w * w, |ibuf i| ≤ 2 ^ 23) (tmpbuf : Buf) :
    Standing w 0 { w, ip := 0, tp := 0, ibuf, tmpbuf, ov := fun _ => 0 } := by
  exact ⟨(Nat.div_one w).symm, rfl, fun r row c column => within_of_abs (image (0 + r * w + c) (cell_lt row column))⟩

theorem Standing.next {w lvl : Nat} {s : Levels} (standing : Standing w lvl s) (eighths : 8 ∣ w) (large : w ≠ 8)
    (level : lvl < 3) :
    forwardLevel w s lvl = some (Wavelet.forwardLevel w s lvl) ∧
      Standing w (lvl + 1) (Wavelet.forwardLevel w s lvl) := by
  have even : 2 ^ (lvl + 1) ∣ w := dvd_trans (pow_dvd_pow 2 (show lvl + 1 ≤ 3 from level)) eighths
  have twice := side_succ even
  have side : s.w = 2 * (w / 2 ^ (lvl + 1)) := standing.side.trans twice
  have whole : w / 2 ^ (lvl + 1) ≠ 1 := by
    obtain rfl | rfl | rfl : lvl = 0 ∨ lvl = 1 ∨ lvl = 2 := by omega
    all_goals omega
  have bounds := standing.bounds
  rw [side] at bounds
  obtain ⟨runs, after⟩ := forwardLevel_bounds (magnitude_room level) whole (twice ▸ Nat.div_le_self w _) side
    standing.same bounds lvl
  have half : (Wavelet.forwardLevel w s lvl).w = w / 2 ^ (lvl + 1) := by
    rw [Wavelet.forwardLevel, side, Nat.mul_div_cancel_left _ (by decide)]
  refine ⟨runs, half, ?_, ?_⟩
  · simp only [Wavelet.forwardLevel, standing.same]
  · rw [magnitude_succ, half]
    exact after

/-- No operation on samples overflows in the three forward levels, and the machine computes what integers would.
An image of eight rows comes down to a block of two, which is read beyond its end; then this depends on what is there.
-/
theorem no_overflow :
    (∀ (w : Nat) (ibuf tmpbuf : Buf), 8 ∣ w → 16 ≤ w → (∀ i < w * w, |ibuf i| ≤ 2 ^ 23) →
      forwardLevels w ibuf tmpbuf 3 = some (Wavelet.forwardLevels w ibuf tmpbuf 3)) ∧
    ∀ (w : Nat) (ibuf tmpbuf : Buf), (∀ i, |ibuf i| ≤ 2 ^ 23 ∧ |tmpbuf i| ≤ 2 ^ 23) →
      forwardLevels w ibuf tmpbuf 3 = some (Wavelet.forwardLevels w ibuf tmpbuf 3) := by
  constructor
  · intro w ibuf tmpbuf eighths large image
    exact (forwardLevels_within (standing_start image tmpbuf)
      fun lvl level s standing => standing.next eighths (by omega) level).1
  · intro w ibuf tmpbuf small
    have start : Everywhere (magnitude 0) { w, ip := 0, tp := 0, ibuf, tmpbuf, ov := fun _ => 0 } :=
      fun a => ⟨within_of_abs (small a).1, within_of_abs (small a).2⟩
    refine (@forwardLevels_within (fun lvl => Everywhere (magnitude lvl)) w ibuf tmpbuf start 3 ?_).1
    intro lvl level s bounds
    rw [magnitude_succ]
    exact forwardLevel_everywhere (magnitude_room level) bounds lvl

/-- Samples of the largest magnitude. -/
def stripes : Buf := fun i => if i % 2 = 0 then 2 ^ 23 else -2 ^ 23

theorem stripes_small (i : Nat) : |stripes i| ≤ 2 ^ 23 := by
  unfold stripes
  split_ifs <;> decide

theorem no_overflow_stripes :
    forwardLevels 16 stripes black 3 = some (Wavelet.forwardLevels 16 stripes black 3) ∧
      forwardLevels 8 stripes stripes 3 = some (Wavelet.forwardLevels 8 stripes stripes 3) :=
  ⟨no_overflow.1 16 stripes black (by decide) le_rfl fun i _ => stripes_small i,
    no_overflow.2 8 stripes stripes fun i => ⟨stripes_small i, stripes_small i⟩⟩

/-- A black image of eight rows, with two samples behind its end. -/
def followed : Buf := fun i => if i = 64 then -2 ^ 31 else if i = 65 then 2 ^ 31 - 1 else 0

/-- The third level reads them, and overflows. -/
theorem third_level_overflows :
    (∀ i < 8 * 8, |followed i| ≤ 2 ^ 23) ∧ (∀ i, int (followed i) = some (followed i)) ∧
      forwardLevels 8 followed black 3 = none := by
  refine ⟨by decide, fun i => ?_, Option.isNone_iff_eq_none.mp (by decide +kernel)⟩
  unfold followed
  split_ifs <;> rfl

end Machine

end IcoZip.Wavelet
