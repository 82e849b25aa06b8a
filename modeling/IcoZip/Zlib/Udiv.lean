import Mathlib.Data.BitVec
import Mathlib.Tactic.SplitIfs

/-! 64-bit division in C. Shifts by a negative amount or by the width fail, divisions by zero
fail, and negation wraps.
-/

set_option autoImplicit false

namespace IcoZip.Zlib

/-- The loop of `zip_bitrev`, for the iterations that are left. -/
def bitrevLoop : Nat → BitVec 32 → BitVec 32 → BitVec 32
  | 0, r, _ => r
  | n + 1, r, b => bitrevLoop n (r <<< 1 ||| b &&& 1#32) (b >>> 1)

def zipBitrev (a : BitVec 32) : BitVec 32 := bitrevLoop 32 0 a

/-- One line of the cascade. -/
def skip (k : Nat) (x : BitVec 32 × Nat) : BitVec 32 × Nat :=
  if x.1 &&& BitVec.ofNat 32 (2 ^ k - 1) == 0#32 then (x.1 >>> k, x.2 + k) else x

def cltz (v : BitVec 64) : Nat :=
  let hv := (v >>> 32).setWidth 32
  let start := if hv == 0#32 then ((v &&& 0xffffffff#64).setWidth 32, 32) else (hv, 0)
  let x := skip 2 (skip 4 (skip 8 (skip 16 (zipBitrev start.1, start.2))))
  if x.1 &&& 1#32 == 0#32 then x.2 + 1 else x.2

/-- `x << n` -/
def shl (x : BitVec 64) (n : Int) : Option (BitVec 64) :=
  if 0 ≤ n ∧ n < 64 then some (x <<< n.toNat) else none

/-- `ia / ib` -/
def divide32 (ia ib : BitVec 32) : Option (BitVec 32) := if ib = 0 then none else some (ia / ib)

/-- The `while` loop, in at most so many rounds. -/
def subtractLoop : Nat → BitVec 64 → BitVec 64 → BitVec 64 → BitVec 64 → Option (BitVec 64)
  | 0, _, _, _, _ => none
  | fuel + 1, a, b, m, r =>
    if 0 < m then
      if b ≤ a then subtractLoop fuel (a - b) (b >>> 1) (m >>> 1) (r ||| m)
      else subtractLoop fuel a (b >>> 1) (m >>> 1) r
    else some r

def udivdi3 (a b : BitVec 64) : Option (BitVec 64) :=
  if a < b then some 0
  else if b >>> 32 == 0 && a >>> 32 == 0 then do
    let ir ← divide32 (a.setWidth 32) (b.setWidth 32)
    some (ir.setWidth 64)
  else do
    let la : Int := cltz a
    let lb : Int := cltz b
    let a ← shl a la
    let short ← if lb - la < 32 then (shl b la).map (· &&& 0xffffffff#64 == 0) else some false
    if short then
      let b ← shl b la
      let ir ← divide32 ((a >>> 32).setWidth 32) ((b >>> 32).setWidth 32)
      some (ir.setWidth 64)
    else
      let b ← shl b lb
      let m ← shl 1 (lb - la)
      subtractLoop 65 a b m 0

def umoddi3 (a b : BitVec 64) : Option (BitVec 64) := do
  let r ← udivdi3 a b
  some (a - r * b)

def divdi3 (a b : BitVec 64) : Option (BitVec 64) := do
  let (s, a) := if a.slt 0#64 then (true, -a) else (false, a)
  let (s, b) := if b.slt 0#64 then (!s, -b) else (s, b)
  let r ← udivdi3 a b
  some (if s then -r else r)

/-! ### Leading zeros -/

theorem bitrevLoop_bit (n : Nat) (r b : BitVec 32) (i : Nat) (inside : i < 32) :
    (bitrevLoop n r b).getLsbD i = if i < n then b.getLsbD (n - 1 - i) else r.getLsbD (i - n) := by
  induction n generalizing r b with
  | zero => rfl
  | succ n ih =>
    rw [bitrevLoop, ih, BitVec.getLsbD_ushiftRight]
    by_cases before : i < n
    · have same : 1 + (n - 1 - i) = n + 1 - 1 - i := by omega
      rw [if_pos before, if_pos (Nat.lt_succ_of_lt before), same]
    · rw [if_neg before, BitVec.getLsbD_or, BitVec.getLsbD_and, BitVec.getLsbD_shiftLeft]
      by_cases last : i = n
      · have one : (1#32).getLsbD 0 = true := rfl
        have first : n + 1 - 1 - n = 0 := by omega
        rw [if_pos (by omega), last, Nat.sub_self, first, one, Bool.and_true]
        rfl
      · have past : ¬ i - n < 1 := by omega
        have zero : (1#32).getLsbD (i - n) = false := by
          rw [BitVec.getLsbD_one]
          simp only [Bool.and_eq_false_iff, decide_eq_false_iff_not]
          omega
        have room : i - n < 32 := by omega
        have same : i - n - 1 = i - (n + 1) := by omega
        rw [if_neg (by omega), zero, Bool.and_false, Bool.or_false, same]
        simp only [room, past, decide_true, decide_false, Bool.not_false, Bool.true_and]

theorem zipBitrev_bit (a : BitVec 32) (i : Nat) (inside : i < 32) : (zipBitrev a).getLsbD i = a.getLsbD (31 - i) := by
  rw [zipBitrev, bitrevLoop_bit 32 0 a i inside, if_pos inside]

/-- Zeros so far, and a bit set in what comes next. -/
structure Trailing (start : BitVec 32) (k : Nat) (x : BitVec 32 × Nat) (cnt : Nat) : Prop where
  value : start.toNat = x.1.toNat * 2 ^ (x.2 - cnt)
  count : cnt ≤ x.2
  some : x.1.toNat % 2 ^ k ≠ 0

theorem skip_trailing {start : BitVec 32} {k : Nat} {x : BitVec 32 × Nat} {cnt : Nat} (small : k < 32)
    (before : Trailing start (k + k) x cnt) : Trailing start k (skip k x) cnt := by
  obtain ⟨value, count, some⟩ := before
  have low : (x.1 &&& BitVec.ofNat 32 (2 ^ k - 1)).toNat = x.1.toNat % 2 ^ k := by
    have fits : 2 ^ k - 1 < 2 ^ 32 :=
      Nat.lt_of_le_of_lt (Nat.sub_le _ 1) (Nat.pow_lt_pow_right (by decide) small)
    rw [BitVec.toNat_and, BitVec.toNat_ofNat, Nat.mod_eq_of_lt fits, Nat.and_two_pow_sub_one_eq_mod]
  unfold skip
  by_cases zero : x.1 &&& BitVec.ofNat 32 (2 ^ k - 1) = 0#32
  · have divides : x.1.toNat % 2 ^ k = 0 := by
      rw [← low, zero]
      rfl
    have whole : x.1.toNat / 2 ^ k * 2 ^ k = x.1.toNat := Nat.div_mul_cancel (Nat.dvd_of_mod_eq_zero divides)
    have more : x.2 + k - cnt = k + (x.2 - cnt) := by omega
    rw [if_pos (beq_iff_eq.mpr zero)]
    refine ⟨?_, Nat.le_add_right_of_le count, ?_⟩
    · rw [BitVec.toNat_ushiftRight, Nat.shiftRight_eq_div_pow, more, Nat.pow_add, ← Nat.mul_assoc, whole]
      exact value
    · rw [BitVec.toNat_ushiftRight, Nat.shiftRight_eq_div_pow]
      intro none
      apply some
      rw [← whole, Nat.pow_add, Nat.mul_mod_mul_right, none, Nat.zero_mul]
  · rw [if_neg (mt beq_iff_eq.mp zero)]
    refine ⟨value, count, fun none => zero ?_⟩
    apply BitVec.eq_of_toNat_eq
    rw [low]
    exact none

/-- The lowest bit of the reversed word is the highest of the word. -/
theorem leading {h : BitVec 32} {x : BitVec 32 × Nat} {cnt : Nat} (trailing : Trailing (zipBitrev h) 1 x cnt) :
    x.2 - cnt ≤ 31 ∧ 2 ^ (31 - (x.2 - cnt)) ≤ h.toNat ∧ h.toNat < 2 ^ (32 - (x.2 - cnt)) := by
  obtain ⟨value, _, odd⟩ := trailing
  generalize x.2 - cnt = c at value
  have positive : 0 < x.1.toNat := by
    by_contra none
    exact odd (by rw [Nat.eq_zero_of_not_pos none]; rfl)
  have inside : c ≤ 31 := by
    by_contra outside
    have most : 2 ^ 32 ≤ 2 ^ c := Nat.pow_le_pow_right (by decide) (by omega)
    have least : 2 ^ c ≤ x.1.toNat * 2 ^ c := Nat.le_mul_of_pos_left _ positive
    have bound := (zipBitrev h).isLt
    omega
  have bit (i : Nat) (small : i < 32) : h.toNat.testBit (31 - i) = (x.1.toNat * 2 ^ c).testBit i := by
    have reversed := zipBitrev_bit h i small
    rw [BitVec.getLsbD, BitVec.getLsbD, value] at reversed
    exact reversed.symm
  refine ⟨inside, ?_, ?_⟩
  · apply Nat.ge_two_pow_of_testBit
    rw [bit c (by omega), Nat.testBit_mul_two_pow, Nat.sub_self, Nat.testBit_zero]
    simp only [Nat.le_refl, decide_true, Bool.true_and, decide_eq_true_eq]
    omega
  · apply Nat.lt_pow_two_of_testBit
    intro i high
    by_cases small : i < 32
    · have same : 31 - (31 - i) = i := by omega
      have zero := bit (31 - i) (by omega)
      have below : ¬ c ≤ 31 - i := by omega
      rw [same, Nat.testBit_mul_two_pow] at zero
      rw [zero]
      simp only [below, decide_false, Bool.false_and]
    · exact Nat.testBit_lt_two_pow (Nat.lt_of_lt_of_le h.isLt (Nat.pow_le_pow_right (by decide) (by omega)))

theorem zipBitrev_some {h : BitVec 32} (some : h ≠ 0) : zipBitrev h ≠ 0 := by
  intro none
  apply some
  apply BitVec.eq_of_getLsbD_eq
  intro i inside
  have same : 31 - (31 - i) = i := by omega
  have bit := zipBitrev_bit h (31 - i) (by omega)
  rw [none, same] at bit
  exact bit.symm.trans BitVec.getLsbD_zero |>.trans BitVec.getLsbD_zero.symm

/-- The cascade counts the leading zeros of a word. -/
theorem cascade {h : BitVec 32} (some : h ≠ 0) (cnt : Nat) :
    Trailing (zipBitrev h) 1 (skip 1 (skip 2 (skip 4 (skip 8 (skip 16 (zipBitrev h, cnt)))))) cnt := by
  have start : Trailing (zipBitrev h) (16 + 16) (zipBitrev h, cnt) cnt := by
    refine ⟨?_, Nat.le_refl cnt, ?_⟩
    · rw [Nat.sub_self, Nat.pow_zero, Nat.mul_one]
    · rw [Nat.mod_eq_of_lt (zipBitrev h).isLt]
      exact fun none => zipBitrev_some some (BitVec.eq_of_toNat_eq none)
  exact skip_trailing (by decide) (skip_trailing (by decide) (skip_trailing (by decide)
    (skip_trailing (by decide) (skip_trailing (by decide) start))))

theorem cltz_eq (v : BitVec 64) (h : BitVec 32) (cnt : Nat)
    (start : (if (v >>> 32).setWidth 32 == 0#32 then ((v &&& 0xffffffff#64).setWidth 32, 32)
      else ((v >>> 32).setWidth 32, 0)) = (h, cnt)) :
    cltz v = (skip 1 (skip 2 (skip 4 (skip 8 (skip 16 (zipBitrev h, cnt)))))).2 := by
  have last (x : BitVec 32 × Nat) : (if x.1 &&& 1#32 == 0#32 then x.2 + 1 else x.2) = (skip 1 x).2 := by
    change _ = (if x.1 &&& 1#32 == 0#32 then (x.1 >>> 1, x.2 + 1) else x).2
    exact (apply_ite Prod.snd ((x.1 &&& 1#32 == 0#32) = true) (x.1 >>> 1, x.2 + 1) x).symm
  unfold cltz
  simp only [start]
  exact last _

theorem upper_toNat (x : BitVec 64) : ((x >>> 32).setWidth 32 : BitVec 32).toNat = x.toNat / 2 ^ 32 := by
  rw [BitVec.toNat_setWidth, BitVec.toNat_ushiftRight, Nat.shiftRight_eq_div_pow]
  exact Nat.mod_eq_of_lt (by have bound := x.isLt; omega)

/-- The leading zeros of 64 bits. -/
theorem cltz_spec {v : BitVec 64} (some : v ≠ 0) :
    cltz v ≤ 63 ∧ 2 ^ (63 - cltz v) ≤ v.toNat ∧ v.toNat < 2 ^ (64 - cltz v) := by
  have upper := upper_toNat v
  by_cases high : (v >>> 32).setWidth 32 = 0#32
  · have lower : ((v &&& 0xffffffff#64).setWidth 32 : BitVec 32).toNat = v.toNat := by
      rw [high] at upper
      have small : v.toNat / 2 ^ 32 = 0 := upper.symm
      have mask : (0xffffffff#64).toNat = 2 ^ 32 - 1 := rfl
      rw [BitVec.toNat_setWidth, BitVec.toNat_and, mask, Nat.and_two_pow_sub_one_eq_mod, Nat.mod_mod]
      omega
    have bits : (v &&& 0xffffffff#64).setWidth 32 ≠ 0#32 := by
      intro none
      rw [none] at lower
      exact some (BitVec.eq_of_toNat_eq lower.symm)
    have counted := cltz_eq v _ 32 (if_pos (beq_iff_eq.mpr high))
    have trailing := cascade bits 32
    have atLeast := trailing.count
    obtain ⟨inside, least, most⟩ := leading trailing
    rw [← counted] at atLeast inside least most
    rw [lower] at least most
    have first : 31 - (cltz v - 32) = 63 - cltz v := by omega
    have second : 32 - (cltz v - 32) = 64 - cltz v := by omega
    rw [first] at least
    rw [second] at most
    exact ⟨by omega, least, most⟩
  · have bits := high
    have counted := cltz_eq v _ 0 (if_neg (mt beq_iff_eq.mp high))
    have trailing := cascade bits 0
    obtain ⟨inside, least, most⟩ := leading trailing
    rw [← counted, Nat.sub_zero] at inside least most
    rw [upper] at least most
    have first : 63 - cltz v = 31 - cltz v + 32 := by omega
    have second : 64 - cltz v = 32 - cltz v + 32 := by omega
    rw [first, second, Nat.pow_add, Nat.pow_add]
    exact ⟨by omega, (Nat.le_div_iff_mul_le (by decide)).mp least, (Nat.div_lt_iff_lt_mul (by decide)).mp most⟩

/-! ### The loop -/

/-- Restoring division with `k` rounds left: the remainder is below the divisor shifted `k` times, and
the last `k` bits of the quotient are still zero.
-/
theorem subtractLoop_eq (k : Nat) (fuel d : Nat) (a b m r : BitVec 64) (enough : k < fuel)
    (divisor : b.toNat = d * 2 ^ k / 2) (mask : m.toNat = 2 ^ k / 2) (below : a.toNat < d * 2 ^ k)
    (known : 2 ^ k ∣ r.toNat) (room : r.toNat + 2 ^ k ≤ 2 ^ 64) :
    ∃ q, subtractLoop fuel a b m r = some q ∧ q.toNat = r.toNat + a.toNat / d := by
  -- `b` is the divisor shifted by `k - 1`, `m` the bit of the quotient that belongs to it
  induction k generalizing fuel a b m r with
  | zero =>
    have zero : ¬ 0 < m := by
      rw [BitVec.lt_def, mask]
      decide
    cases fuel with
    | zero => exact absurd enough (Nat.not_lt_zero 0)
    | succ fuel =>
      refine ⟨r, if_neg zero, ?_⟩
      rw [Nat.pow_zero, Nat.mul_one] at below
      rw [Nat.div_eq_of_lt below, Nat.add_zero]
  | succ k ih =>
    have divisor : b.toNat = d * 2 ^ k := by
      rw [divisor, Nat.pow_succ, ← Nat.mul_assoc, Nat.mul_div_cancel _ (by decide)]
    have mask : m.toNat = 2 ^ k := by rw [mask, Nat.pow_succ, Nat.mul_div_cancel _ (by decide)]
    have double : d * 2 ^ (k + 1) = d * 2 ^ k + d * 2 ^ k := by rw [Nat.pow_succ, ← Nat.mul_assoc, Nat.mul_two]
    have pair : 2 ^ (k + 1) = 2 ^ k + 2 ^ k := by rw [Nat.pow_succ, Nat.mul_two]
    have positive : 0 < m := by
      rw [BitVec.lt_def, mask]
      exact Nat.two_pow_pos k
    have halfDivisor : (b >>> 1).toNat = d * 2 ^ k / 2 := by rw [BitVec.toNat_ushiftRight, divisor]; rfl
    have halfMask : (m >>> 1).toNat = 2 ^ k / 2 := by rw [BitVec.toNat_ushiftRight, mask]; rfl
    have finer : 2 ^ k ∣ r.toNat := Nat.dvd_trans ⟨2, Nat.pow_succ 2 k⟩ known
    rw [double] at below
    rw [pair] at room
    cases fuel with
    | zero => exact absurd enough (Nat.not_lt_zero _)
    | succ fuel =>
      have rounds : k < fuel := Nat.lt_of_succ_lt_succ enough
      rw [subtractLoop, if_pos positive]
      by_cases fits : b ≤ a
      · have atMost : d * 2 ^ k ≤ a.toNat := by rw [← divisor]; exact fits
        have left : (a - b).toNat = a.toNat - d * 2 ^ k := by rw [BitVec.toNat_sub_of_le fits, divisor]
        have bit : (r ||| m).toNat = r.toNat + 2 ^ k := by
          obtain ⟨high, product⟩ := known
          rw [BitVec.toNat_or, mask, product,
            Nat.two_pow_add_eq_or_of_lt (Nat.pow_lt_pow_right (by decide) (Nat.lt_succ_self k))]
        obtain ⟨q, returned, quotient⟩ := ih fuel (a - b) (b >>> 1) (m >>> 1) (r ||| m) rounds halfDivisor halfMask
          (by omega) (by rw [bit]; exact Nat.dvd_add finer (Nat.dvd_refl _)) (by omega)
        refine ⟨q, (if_pos fits).trans returned, ?_⟩
        have some : 0 < d := by
          by_contra none
          rw [Nat.eq_zero_of_not_pos none, Nat.zero_mul] at below
          exact Nat.not_lt_zero _ below
        have counted : a.toNat / d = (a.toNat - d * 2 ^ k) / d + 2 ^ k := by
          rw [← Nat.add_mul_div_left _ _ some, Nat.sub_add_cancel atMost]
        rw [quotient, bit, left, counted]
        omega
      · have less : a.toNat < d * 2 ^ k := by
          rw [← divisor]
          exact Nat.lt_of_not_le fits
        obtain ⟨q, returned, quotient⟩ := ih fuel a (b >>> 1) (m >>> 1) r rounds halfDivisor halfMask less finer (by omega)
        exact ⟨q, (if_neg fits).trans returned, quotient⟩

/-! ### Division -/

theorem shl_eq {x : BitVec 64} {n : Nat} (small : n < 64) (fits : x.toNat * 2 ^ n < 2 ^ 64) :
    ∃ y, shl x n = some y ∧ y.toNat = x.toNat * 2 ^ n := by
  refine ⟨x <<< n, if_pos ⟨Int.natCast_nonneg n, by omega⟩, ?_⟩
  rw [BitVec.toNat_shiftLeft, Nat.shiftLeft_eq, Nat.mod_eq_of_lt fits]

theorem divide32_eq {ia ib : BitVec 32} (nonzero : ib.toNat ≠ 0) :
    (divide32 ia ib >>= fun ir => some (ir.setWidth 64)) = some (BitVec.ofNat 64 (ia.toNat / ib.toNat)) := by
  have some : ¬ ib = 0 := fun none => nonzero (congrArg BitVec.toNat none)
  rw [divide32, if_neg some]
  refine congrArg Option.some (BitVec.eq_of_toNat_eq ?_)
  rw [BitVec.toNat_setWidth, BitVec.toNat_ofNat, BitVec.toNat_udiv]

theorem lower_toNat {x : BitVec 64} (small : x >>> 32 = 0) : (x.setWidth 32 : BitVec 32).toNat = x.toNat := by
  have upper := congrArg BitVec.toNat small
  rw [BitVec.toNat_ushiftRight, Nat.shiftRight_eq_div_pow] at upper
  have none : x.toNat / 2 ^ 32 = 0 := upper
  rw [BitVec.toNat_setWidth]
  omega

/-- The shortcut: with a divisor of 32 zero bits the low half of the dividend does not count. -/
theorem shortcut {a b : BitVec 64} (nonzero : b.toNat ≠ 0) (low : b &&& 0xffffffff#64 = 0) :
    (divide32 ((a >>> 32).setWidth 32) ((b >>> 32).setWidth 32) >>= fun ir => some (ir.setWidth 64)) =
      some (BitVec.ofNat 64 (a.toNat / b.toNat)) := by
  have zeros : b.toNat % 2 ^ 32 = 0 := by
    have mask : (0xffffffff#64).toNat = 2 ^ 32 - 1 := rfl
    rw [← Nat.and_two_pow_sub_one_eq_mod, ← mask, ← BitVec.toNat_and, low]
    rfl
  have whole : 2 ^ 32 * (b.toNat / 2 ^ 32) = b.toNat := Nat.mul_div_cancel' (Nat.dvd_of_mod_eq_zero zeros)
  have some : ((b >>> 32).setWidth 32 : BitVec 32).toNat ≠ 0 := by
    rw [upper_toNat]
    intro none
    rw [none] at whole
    exact nonzero whole.symm
  rw [divide32_eq some, upper_toNat, upper_toNat, Nat.div_div_eq_div_mul, whole]

theorem scaled {x zeros n : Nat} (most : x < 2 ^ (64 - zeros)) (few : n ≤ zeros) (inside : zeros ≤ 63) :
    x * 2 ^ n < 2 ^ 64 := by
  have product : x * 2 ^ n < 2 ^ (64 - zeros) * 2 ^ n := Nat.mul_lt_mul_of_pos_right most (Nat.two_pow_pos n)
  rw [← Nat.pow_add] at product
  exact Nat.lt_of_lt_of_le product (Nat.pow_le_pow_right (by decide) (by omega))

/-- The loop from the divisor with its highest bit in place. -/
theorem aligned_loop {a b : BitVec 64} {la lb : Nat} (zeros : la ≤ lb) (inside : lb ≤ 63)
    (fitsB : b.toNat * 2 ^ lb < 2 ^ 64) (fits : a.toNat < b.toNat * 2 ^ lb * 2) :
    ∃ q, (do
        let b ← shl b lb
        let m ← shl 1 ((lb : Int) - la)
        subtractLoop 65 a b m 0) = Option.some q ∧ q.toNat = a.toNat / (b.toNat * 2 ^ la) := by
  have one : (1 : BitVec 64).toNat = 1 := rfl
  have zero : (0 : BitVec 64).toNat = 0 := rfl
  have difference : (lb : Int) - la = ((lb - la : Nat) : Int) := by omega
  have fitsOne : (1 : BitVec 64).toNat * 2 ^ (lb - la) < 2 ^ 64 := by
    rw [one, Nat.one_mul]
    exact Nat.pow_lt_pow_right (by decide) (by omega)
  obtain ⟨m, shiftedOne, valueOne⟩ := shl_eq (by omega) fitsOne
  obtain ⟨far, shiftedFar, valueFar⟩ := shl_eq (Nat.lt_succ_of_le inside) fitsB
  rw [one, Nat.one_mul] at valueOne
  have rounds : 2 ^ (lb - la + 1) / 2 = 2 ^ (lb - la) := by rw [Nat.pow_succ, Nat.mul_div_cancel _ (by decide)]
  have twice : b.toNat * 2 ^ la * 2 ^ (lb - la + 1) = b.toNat * 2 ^ lb * 2 := by
    rw [Nat.pow_succ, ← Nat.mul_assoc, Nat.mul_assoc _ (2 ^ la), ← Nat.pow_add, Nat.add_sub_cancel' zeros]
  have most : 2 ^ (lb - la + 1) ≤ 2 ^ 64 := Nat.pow_le_pow_right (by decide) (by omega)
  obtain ⟨q, returned, value⟩ := subtractLoop_eq (lb - la + 1) 65 (b.toNat * 2 ^ la) a far m 0 (by omega)
    (by rw [twice, Nat.mul_div_cancel _ (by decide), valueFar]) (by rw [rounds, valueOne]) (by rw [twice]; exact fits)
    (Nat.dvd_zero _) (by rw [zero]; omega)
  rw [zero, Nat.zero_add] at value
  rw [shiftedFar, difference, shiftedOne]
  exact ⟨q, returned, value⟩

/-- Scaled by the zeros in front of the dividend, both are still words. -/
theorem udivdi3_eq (a b : BitVec 64) (nonzero : b ≠ 0) : udivdi3 a b = some (a / b) := by
  have positive : 0 < b.toNat := by
    by_contra none
    exact nonzero (BitVec.eq_of_toNat_eq (Nat.eq_zero_of_not_pos none))
  have quotient : a / b = BitVec.ofNat 64 (a.toNat / b.toNat) := by
    apply BitVec.eq_of_toNat_eq
    rw [BitVec.toNat_udiv, BitVec.toNat_ofNat]
    exact (Nat.mod_eq_of_lt (Nat.lt_of_le_of_lt (Nat.div_le_self _ _) a.isLt)).symm
  unfold udivdi3
  by_cases less : a < b
  · rw [if_pos less, quotient, Nat.div_eq_of_lt less]
    rfl
  rw [if_neg less]
  by_cases small : (b >>> 32 == 0 && a >>> 32 == 0) = true
  · rw [if_pos small]
    obtain ⟨smallB, smallA⟩ := Bool.and_eq_true_iff.mp small
    have lowB := lower_toNat (beq_iff_eq.mp smallB)
    have some : (b.setWidth 32 : BitVec 32).toNat ≠ 0 := by omega
    rw [divide32_eq some, lowB, lower_toNat (beq_iff_eq.mp smallA), quotient]
  rw [if_neg small]
  have order : b.toNat ≤ a.toNat := Nat.le_of_not_lt less
  have some : a ≠ 0 := by
    rintro rfl
    exact absurd (Nat.lt_of_lt_of_le positive order) (Nat.lt_irrefl 0)
  obtain ⟨insideA, leastA, mostA⟩ := cltz_spec some
  obtain ⟨insideB, leastB, mostB⟩ := cltz_spec nonzero
  generalize cltz a = la at *
  generalize cltz b = lb at *
  have zeros : la ≤ lb := by
    -- the divisor is not above the dividend, so it has no fewer zeros in front
    have powers : 2 ^ (63 - lb) < 2 ^ (64 - la) := Nat.lt_of_le_of_lt (Nat.le_trans leastB order) mostA
    have exponents := (Nat.pow_lt_pow_iff_right (by decide)).mp powers
    omega
  have fitsA : a.toNat * 2 ^ la < 2 ^ 64 := scaled mostA (Nat.le_refl la) insideA
  have fitsB : b.toNat * 2 ^ lb < 2 ^ 64 := scaled mostB (Nat.le_refl lb) insideB
  obtain ⟨a', shiftedA, valueA⟩ := shl_eq (Nat.lt_succ_of_le insideA) fitsA
  obtain ⟨near, shiftedNear, valueNear⟩ := shl_eq (Nat.lt_succ_of_le insideA) (scaled mostB zeros insideB)
  have ratio : a'.toNat / (b.toNat * 2 ^ la) = a.toNat / b.toNat := by
    rw [valueA, Nat.mul_div_mul_right _ _ (Nat.two_pow_pos la)]
  have nearSome : near.toNat ≠ 0 := by
    rw [valueNear]
    exact Nat.ne_of_gt (Nat.mul_pos positive (Nat.two_pow_pos la))
  have loop : (do
      let b ← shl b lb
      let m ← shl 1 ((lb : Int) - la)
      subtractLoop 65 a' b m 0) = Option.some (a / b) := by
    have fits : a'.toNat < b.toNat * 2 ^ lb * 2 := by
      have top : 2 ^ 63 ≤ b.toNat * 2 ^ lb := by
        have split : 2 ^ 63 = 2 ^ (63 - lb) * 2 ^ lb := by rw [← Nat.pow_add, Nat.sub_add_cancel insideB]
        rw [split]
        exact Nat.mul_le_mul_right _ leastB
      have word := a'.isLt
      omega
    obtain ⟨q, returned, value⟩ := aligned_loop zeros insideB fitsB fits
    rw [ratio] at value
    refine returned.trans (congrArg Option.some (BitVec.eq_of_toNat_eq ?_))
    rw [value, BitVec.toNat_udiv]
  simp only [shiftedA, shiftedNear, Option.bind_eq_bind, Option.bind_some, Option.map_some]
  -- the shortcut: the divisor has less than 32 zeros more, and its low half is empty then
  by_cases close : (lb : Int) - la < 32
  · rw [if_pos close]
    change (if (near &&& 0xffffffff#64 == 0) = true then _ else _) = _
    by_cases low : near &&& 0xffffffff#64 = 0
    · rw [if_pos (beq_iff_eq.mpr low)]
      refine (shortcut nearSome low).trans ?_
      rw [valueNear, ratio, quotient]
    · rw [if_neg (mt beq_iff_eq.mp low)]
      exact loop
  · rw [if_neg close]
    exact loop

/-! ### The routines -/

/-- The quotients and the remainder, with shifts below the width only. -/
theorem division :
    (∀ a b : BitVec 64, b ≠ 0 → udivdi3 a b = some (a / b) ∧ umoddi3 a b = some (a % b)) ∧
    ∀ a b : BitVec 64, b ≠ 0 → (a ≠ BitVec.intMin 64 ∨ b ≠ -1#64) →
      ∃ q, divdi3 a b = some q ∧ q.toInt = a.toInt.tdiv b.toInt := by
  constructor
  · intro a b nonzero
    have quotient := udivdi3_eq a b nonzero
    refine ⟨quotient, ?_⟩
    rw [umoddi3, quotient]
    have product : (a / b * b).toNat = a.toNat / b.toNat * b.toNat := by
      rw [BitVec.toNat_mul, BitVec.toNat_udiv]
      exact Nat.mod_eq_of_lt (Nat.lt_of_le_of_lt (Nat.div_mul_le_self _ _) a.isLt)
    have below : a / b * b ≤ a := by
      rw [BitVec.le_def, product]
      exact Nat.div_mul_le_self _ _
    refine congrArg some (BitVec.eq_of_toNat_eq ?_)
    rw [BitVec.toNat_sub_of_le below, product, BitVec.toNat_umod, Nat.mod_eq_sub_div_mul]
  · intro a b nonzero other
    refine ⟨a.sdiv b, ?_, BitVec.toInt_sdiv_of_ne_or_ne a b other⟩
    have opposite : -b ≠ 0 := fun zero => nonzero (BitVec.neg_eq_zero_iff.mp zero)
    rw [divdi3, BitVec.slt_zero_eq_msb, BitVec.slt_zero_eq_msb, BitVec.sdiv]
    cases a.msb <;> cases b.msb
    · exact congrArg (· >>= fun r => some r) (udivdi3_eq a b nonzero)
    · exact congrArg (· >>= fun r => some (-r)) (udivdi3_eq a (-b) opposite)
    · exact congrArg (· >>= fun r => some (-r)) (udivdi3_eq (-a) b nonzero)
    · exact congrArg (· >>= fun r => some r) (udivdi3_eq (-a) (-b) opposite)

theorem division_near : udivdi3 0xfedcba9876543210 0x123456789 = some (0xfedcba9876543210 / 0x123456789) ∧
    umoddi3 0xfedcba9876543210 0x123456789 = some (0xfedcba9876543210 % 0x123456789) ∧
    ∃ q, divdi3 (BitVec.intMin 64) 3 = some q ∧ q.toInt = (BitVec.intMin 64).toInt.tdiv (3 : BitVec 64).toInt :=
  ⟨(division.1 _ _ (by decide)).1, (division.1 _ _ (by decide)).2, division.2 _ _ (by decide) (.inr (by decide))⟩

end IcoZip.Zlib
