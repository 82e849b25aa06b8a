import IcoZip.Wavelet.Code
import IcoZip.Library.LiftingScheme
import Mathlib.Algebra.Ring.Int.Defs
import Mathlib.Tactic.Ring

/-! What the sliding registers of `singlelift` and `ilift` compute.

Both routines run a lifting scheme on the `n` pairs of a row. They share the
update; their predictors differ in the last pair, where `ilift` uses the value
its register `b` has kept from one turn too early.
-/

set_option autoImplicit false

namespace IcoZip.Wavelet

open LiftingScheme (Scheme)

/-- The predictor of `singlelift`: the neighbours' mean, mirrored on the left. -/
def predictLift (odd : Nat → Int) : Nat → Int
  | 0 => odd 0
  | k + 1 => (odd k + odd (k + 1)) >>> (1 : Nat)

/-- The update of both routines, with their boundary form for the last pair. -/
def updateLift (n : Nat) (h : Nat → Int) (k : Nat) : Int :=
  if k + 1 < n then (h k + h (k + 1) + 2) >>> (2 : Nat) else (h k + 1) >>> (3 : Nat)

/-- The register `b` behind the column loop of `ilift`: two pairs back, or never assigned. -/
def staleB (n : Nat) (junk : Int) (odd : Nat → Int) : Int :=
  if 3 ≤ n then odd (n - 3) else junk

/-- The predictor of `ilift`. -/
def predictIlift (n : Nat) (junk : Int) (odd : Nat → Int) (k : Nat) : Int :=
  if k + 1 = n then (staleB n junk odd + odd k) >>> (1 : Nat) else predictLift odd k

/-- The analysis of `singlelift` on rows of `n` pairs. -/
def analysis (n : Nat) : Scheme Int := ⟨predictLift, updateLift n⟩

/-- The scheme that `ilift` inverts. -/
def synthesis (n : Nat) (junk : Int) : Scheme Int := ⟨predictIlift n junk, updateLift n⟩

theorem predictLift_local {n : Nat} {f g : Nat → Int} (same : ∀ j < n, f j = g j) :
    ∀ k < n, predictLift f k = predictLift g k := by
  intro k bound
  cases k with
  | zero => exact same 0 bound
  | succ k => simp only [predictLift, same k (by omega), same (k + 1) bound]

theorem updateLift_local {n : Nat} {f g : Nat → Int} (same : ∀ j < n, f j = g j) :
    ∀ k < n, updateLift n f k = updateLift n g k := by
  intro k bound
  unfold updateLift
  split
  · rw [same k bound, same (k + 1) (by assumption)]
  · rw [same k bound]

theorem analysis_local (n : Nat) : (analysis n).Local n :=
  ⟨predictLift_local, updateLift_local⟩

theorem synthesis_local (n : Nat) (junk : Int) : (synthesis n junk).Local n where
  predict {f g} same k bound := by
    simp only [synthesis, predictIlift, staleB]
    split
    · rw [same k bound]
      split
      · rw [same (n - 3) (by omega)]
      · rfl
    · exact predictLift_local same k bound
  update := updateLift_local

section Row
variable (ibuf : Buf)

/-- Even and odd samples of the row that starts at `ip`. -/
def evenAt (ip : Nat) (k : Nat) : Int := ibuf (ip + 2 * k)
def oddAt (ip : Nat) (k : Nat) : Int := ibuf (ip + 2 * k + 1)

/-- The bands of a column that starts at `ip`: `n` entries of each, one every `rb`. -/
def highAt (rb ip : Nat) (k : Nat) : Int := ibuf (ip + k * rb)
def lowAt (rb n ip : Nat) (k : Nat) : Int := ibuf (ip + (n + k) * rb)

end Row

theorem slot_ne {rb : Nat} (positive : 0 < rb) (op : Nat) {i j : Nat} (ne : i ≠ j) :
    op + i * rb ≠ op + j * rb := fun same =>
  ne (Nat.eq_of_mul_eq_mul_right positive (Nat.add_left_cancel same))

/-! ### `singlelift` -/

section Lift
variable (rb n : Nat) (ibuf obuf : Buf) (ip op : Nat)

/-- The registers of `singlelift` after `k` turns of its column loop. -/
structure LiftInv (k : Nat) (s : LiftRegs) : Prop where
  ip_eq : s.ip = ip + 4 + 2 * k
  op_eq : s.op = op + k * rb
  opb_eq : s.opb = op + (n + k) * rb
  cp : s.cp = (analysis n).high (evenAt ibuf ip) (oddAt ibuf ip) (k + 1)
  d : s.d = oddAt ibuf ip (k + 1)
  high : ∀ j ≤ k, s.obuf (op + j * rb) = (analysis n).high (evenAt ibuf ip) (oddAt ibuf ip) j
  low : ∀ j ≤ k, s.obuf (op + (n + j) * rb) = (analysis n).low (evenAt ibuf ip) (oddAt ibuf ip) j
  frame : ∀ a, (∀ j < 2 * n, a ≠ op + j * rb) → s.obuf a = obuf a

variable {rb n ibuf obuf ip op}

theorem low_inner {even odd : Nat → Int} {k : Nat} (bound : k + 1 < n) :
    (analysis n).low even odd k = odd k +
      (((analysis n).high even odd k + (analysis n).high even odd (k + 1) + 2) >>> (2 : Nat)) := by
  simp [Scheme.low, analysis, updateLift, bound]

theorem low_last {even odd : Nat → Int} {k : Nat} (last : k + 1 = n) :
    (analysis n).low even odd k = odd k + (((analysis n).high even odd k + 1) >>> (3 : Nat)) := by
  simp [Scheme.low, analysis, updateLift, last]

theorem liftPrecharge_inv (positive : 0 < rb) (size : 2 ≤ n) :
    LiftInv rb n ibuf obuf ip op 0 (liftPrecharge ibuf obuf ip op (op + n * rb)) := by
  have apart : op ≠ op + n * rb := by
    have := Nat.mul_pos (show 0 < n by omega) positive
    omega
  refine ⟨rfl, by simp [liftPrecharge], by simp [liftPrecharge], rfl, rfl, ?_, ?_, ?_⟩
  · intro j le
    obtain rfl : j = 0 := by omega
    simp [liftPrecharge, Function.update_of_ne apart, Scheme.high, analysis, predictLift, evenAt, oddAt]
  · intro j le
    obtain rfl : j = 0 := by omega
    rw [low_inner (by omega)]
    simp [liftPrecharge, Scheme.high, analysis, predictLift, evenAt, oddAt]
  · intro a outside
    have first := outside 0 (by omega)
    have second := outside n (by omega)
    simp only [Nat.zero_mul, Nat.add_zero] at first
    simp [liftPrecharge, Function.update_of_ne first, Function.update_of_ne second]

theorem liftColumn_inv (positive : 0 < rb) {k : Nat} (bound : k + 2 < n) {s : LiftRegs}
    (inv : LiftInv rb n ibuf obuf ip op k s) :
    LiftInv rb n ibuf obuf ip op (k + 1) (liftColumn rb ibuf s) := by
  have slot : s.op + rb = op + (k + 1) * rb := by rw [inv.op_eq]; ring
  have slotb : s.opb + rb = op + (n + (k + 1)) * rb := by rw [inv.opb_eq]; ring
  have odd : ibuf (s.ip + 1) = oddAt ibuf ip (k + 2) := by
    rw [inv.ip_eq, oddAt]; congr 1; ring
  have cp : ibuf s.ip - ((s.d + ibuf (s.ip + 1)) >>> (1 : Nat)) =
      (analysis n).high (evenAt ibuf ip) (oddAt ibuf ip) (k + 2) := by
    have even : ibuf s.ip = evenAt ibuf ip (k + 2) := by
      rw [inv.ip_eq, evenAt]; congr 1; ring
    rw [even, inv.d, odd]
    rfl
  refine ⟨by simp only [liftColumn, inv.ip_eq]; ring, slot, slotb, cp, odd, ?_, ?_, ?_⟩
  · intro j le
    have apart := slot_ne positive op (show j ≠ n + (k + 1) by omega)
    simp only [liftColumn, slot, slotb, Function.update_of_ne apart]
    rcases Nat.lt_or_ge k j with new | old
    · obtain rfl : j = k + 1 := by omega
      rw [Function.update_self, inv.cp]
    · rw [Function.update_of_ne (slot_ne positive op (by omega)), inv.high j old]
  · intro j le
    simp only [liftColumn, slot, slotb]
    rcases Nat.lt_or_ge k j with new | old
    · obtain rfl : j = k + 1 := by omega
      rw [Function.update_self, cp, inv.cp, inv.d, low_inner (by omega)]
    · rw [Function.update_of_ne (slot_ne positive op (by omega)),
        Function.update_of_ne (slot_ne positive op (by omega)), inv.low j old]
  · intro a outside
    have first := outside (k + 1) (by omega)
    have second := outside (n + (k + 1)) (by omega)
    simp only [liftColumn, slot, slotb, Function.update_of_ne second, Function.update_of_ne first]
    exact inv.frame a outside

theorem liftColumns_inv (positive : 0 < rb) (size : 2 ≤ n) (k : Nat) (bound : k + 1 < n) :
    LiftInv rb n ibuf obuf ip op k
      ((liftColumn rb ibuf)^[k] (liftPrecharge ibuf obuf ip op (op + n * rb))) := by
  induction k with
  | zero => exact liftPrecharge_inv positive size
  | succ k ih =>
    rw [Function.iterate_succ_apply']
    exact liftColumn_inv positive (by omega) (ih (by omega))

/-- The row that `singlelift` leaves behind: the two bands, spread over a column. -/
structure LiftedRow (rb n : Nat) (ibuf obuf : Buf) (ip op : Nat) (result : Buf) : Prop where
  high : ∀ k < n, highAt result rb op k = (analysis n).high (evenAt ibuf ip) (oddAt ibuf ip) k
  low : ∀ k < n, lowAt result rb n op k = (analysis n).low (evenAt ibuf ip) (oddAt ibuf ip) k
  frame : ∀ a, (∀ j < 2 * n, a ≠ op + j * rb) → result a = obuf a

theorem liftLast_spec (positive : 0 < rb) {k : Nat} (last : k + 2 = n) {s : LiftRegs}
    (inv : LiftInv rb n ibuf obuf ip op k s) : LiftedRow rb n ibuf obuf ip op (liftLast rb s) := by
  have slot : s.op + rb = op + (k + 1) * rb := by rw [inv.op_eq]; ring
  have slotb : s.opb + rb = op + (n + (k + 1)) * rb := by rw [inv.opb_eq]; ring
  refine ⟨?_, ?_, ?_⟩
  · intro j bound
    have apart := slot_ne positive op (show j ≠ n + (k + 1) by omega)
    simp only [highAt, liftLast, slot, slotb, Function.update_of_ne apart]
    rcases Nat.lt_or_ge k j with new | old
    · obtain rfl : j = k + 1 := by omega
      rw [Function.update_self, inv.cp]
    · rw [Function.update_of_ne (slot_ne positive op (by omega)), inv.high j old]
  · intro j bound
    simp only [lowAt, liftLast, slot, slotb]
    rcases Nat.lt_or_ge k j with new | old
    · obtain rfl : j = k + 1 := by omega
      rw [Function.update_self, inv.cp, inv.d, low_last last]
    · rw [Function.update_of_ne (slot_ne positive op (by omega)),
        Function.update_of_ne (slot_ne positive op (by omega)), inv.low j old]
  · intro a outside
    have first := outside (k + 1) (by omega)
    have second := outside (n + (k + 1)) (by omega)
    simp only [liftLast, slot, slotb, Function.update_of_ne second, Function.update_of_ne first]
    exact inv.frame a outside

theorem half_slots (rb n : Nat) : 2 * n * rb / 2 = n * rb := by
  rw [Nat.mul_assoc, Nat.mul_div_cancel_left _ (by omega)]

theorem singleliftRow_spec (positive : 0 < rb) (size : 2 ≤ n) (ibase obase row : Nat) :
    LiftedRow rb n ibuf obuf (ibase + row * rb) (obase + row)
      (singleliftRow rb (2 * n) ibuf ibase obase obuf row) := by
  have turns : 2 * n / 2 - 2 = n - 2 := by omega
  simp only [singleliftRow, half_slots, turns]
  exact liftLast_spec positive (by omega) (liftColumns_inv positive size (n - 2) (by omega))

end Lift

/-! ### `ilift` -/

section Ilift
variable (rb n : Nat) (ibuf obuf : Buf) (ip op : Nat) (junk : Int)

/-- The registers of `ilift` after `k` turns of its column loop. -/
structure IliftInv (k : Nat) (s : IliftRegs) : Prop where
  ip_eq : s.ip = ip + (k + 1) * rb
  ipb_eq : s.ipb = ip + (n + k) * rb
  op_eq : s.op = op + 2 * k
  e : s.e = highAt ibuf rb ip (k + 1)
  d : s.d = (analysis n).oddOf (highAt ibuf rb ip) (lowAt ibuf rb n ip) k
  b : s.b = if k = 0 then junk
    else (analysis n).oddOf (highAt ibuf rb ip) (lowAt ibuf rb n ip) (k - 1)
  even : ∀ j ≤ k, s.obuf (op + 2 * j) = (analysis n).evenOf (highAt ibuf rb ip) (lowAt ibuf rb n ip) j
  odd : ∀ j ≤ k, s.obuf (op + 2 * j + 1) =
    (analysis n).oddOf (highAt ibuf rb ip) (lowAt ibuf rb n ip) j
  frame : ∀ a, (∀ j < 2 * n, a ≠ op + j) → s.obuf a = obuf a

variable {rb n ibuf obuf ip op junk}

theorem oddOf_inner {h l : Nat → Int} {k : Nat} (bound : k + 1 < n) :
    (analysis n).oddOf h l k = l k - ((h k + h (k + 1) + 2) >>> (2 : Nat)) := by
  simp [Scheme.oddOf, analysis, updateLift, bound]

theorem oddOf_last {h l : Nat → Int} {k : Nat} (last : k + 1 = n) :
    (analysis n).oddOf h l k = l k - ((h k + 1) >>> (3 : Nat)) := by
  simp [Scheme.oddOf, analysis, updateLift, last]

theorem iliftPrecharge_inv (size : 2 ≤ n) :
    IliftInv rb n ibuf obuf ip op junk 0
      (iliftPrecharge rb ibuf obuf ip (ip + n * rb) op junk) := by
  have e : ibuf (ip + rb) = highAt ibuf rb ip 1 := by simp [highAt]
  have c : ibuf ip = highAt ibuf rb ip 0 := by simp [highAt]
  have d : ibuf (ip + n * rb) - ((ibuf ip + ibuf (ip + rb) + 2) >>> (2 : Nat)) =
      (analysis n).oddOf (highAt ibuf rb ip) (lowAt ibuf rb n ip) 0 := by
    rw [oddOf_inner (by omega), e, c]
    simp [lowAt]
  refine ⟨by simp [iliftPrecharge], by simp [iliftPrecharge], rfl, e, d, rfl, ?_, ?_, ?_⟩
  · intro j le
    obtain rfl : j = 0 := by omega
    simp only [iliftPrecharge, d, Nat.mul_zero, Nat.add_zero]
    rw [Function.update_of_ne (by omega), Function.update_self, c]
    rfl
  · intro j le
    obtain rfl : j = 0 := by omega
    simp only [iliftPrecharge, d, Nat.mul_zero, Nat.add_zero, Function.update_self]
  · intro a outside
    have first := outside 0 (by omega)
    have second := outside 1 (by omega)
    simp only [Nat.add_zero] at first
    simp [iliftPrecharge, Function.update_of_ne first, Function.update_of_ne second]

theorem iliftColumn_inv {k : Nat} (bound : k + 2 < n) {s : IliftRegs}
    (inv : IliftInv rb n ibuf obuf ip op junk k s) :
    IliftInv rb n ibuf obuf ip op junk (k + 1) (iliftColumn rb ibuf s) := by
  have slot : s.ip + rb = ip + (k + 1 + 1) * rb := by rw [inv.ip_eq]; ring
  have slotb : s.ipb + rb = ip + (n + (k + 1)) * rb := by rw [inv.ipb_eq]; ring
  have op' : s.op + 2 = op + 2 * (k + 1) := by rw [inv.op_eq]; ring
  have d : ibuf (s.ipb + rb) - ((s.e + ibuf (s.ip + rb) + 2) >>> (2 : Nat)) =
      (analysis n).oddOf (highAt ibuf rb ip) (lowAt ibuf rb n ip) (k + 1) := by
    rw [oddOf_inner (by omega), slot, slotb, inv.e]
    rfl
  have c : s.e + ((s.d + (analysis n).oddOf (highAt ibuf rb ip) (lowAt ibuf rb n ip) (k + 1)) >>> (1 : Nat)) =
      (analysis n).evenOf (highAt ibuf rb ip) (lowAt ibuf rb n ip) (k + 1) := by
    rw [inv.e, inv.d]
    rfl
  refine ⟨slot, slotb, op', by simp only [iliftColumn, slot]; rfl, d, by simpa [iliftColumn] using inv.d,
    ?_, ?_, ?_⟩
  · intro j le
    simp only [iliftColumn, d, c, op']
    rw [Function.update_of_ne (by omega)]
    rcases Nat.lt_or_ge k j with new | old
    · obtain rfl : j = k + 1 := by omega
      rw [Function.update_self]
    · rw [Function.update_of_ne (by omega), inv.even j old]
  · intro j le
    simp only [iliftColumn, d, c, op']
    rcases Nat.lt_or_ge k j with new | old
    · obtain rfl : j = k + 1 := by omega
      rw [Function.update_self]
    · rw [Function.update_of_ne (by omega), Function.update_of_ne (by omega), inv.odd j old]
  · intro a outside
    have first := outside (2 * (k + 1)) (by omega)
    have second := outside (2 * (k + 1) + 1) (by omega)
    simp only [iliftColumn, op', Nat.add_assoc, Function.update_of_ne second,
      Function.update_of_ne first]
    exact inv.frame a outside

theorem iliftColumns_inv (size : 2 ≤ n) (k : Nat) (bound : k + 1 < n) :
    IliftInv rb n ibuf obuf ip op junk k
      ((iliftColumn rb ibuf)^[k] (iliftPrecharge rb ibuf obuf ip (ip + n * rb) op junk)) := by
  induction k with
  | zero => exact iliftPrecharge_inv size
  | succ k ih =>
    rw [Function.iterate_succ_apply']
    exact iliftColumn_inv (by omega) (ih (by omega))

/-- The row that `ilift` leaves behind: what its own scheme recovers from a column. -/
structure IliftedRow (rb n : Nat) (ibuf obuf : Buf) (ip op : Nat) (junk : Int) (result : Buf) : Prop where
  even : ∀ k < n, evenAt result op k =
    (synthesis n junk).evenOf (highAt ibuf rb ip) (lowAt ibuf rb n ip) k
  odd : ∀ k < n, oddAt result op k =
    (synthesis n junk).oddOf (highAt ibuf rb ip) (lowAt ibuf rb n ip) k
  frame : ∀ a, (∀ j < 2 * n, a ≠ op + j) → result a = obuf a

/-- Away from the last pair `ilift` predicts as `singlelift` does. -/
theorem synthesis_evenOf_inner {h l : Nat → Int} {k : Nat} (inner : k + 1 ≠ n) :
    (synthesis n junk).evenOf h l k = (analysis n).evenOf h l k := by
  simp only [Scheme.evenOf, synthesis, predictIlift, inner, if_false]
  rfl

theorem synthesis_evenOf_last {h l : Nat → Int} {k : Nat} (last : k + 1 = n) :
    (synthesis n junk).evenOf h l k = h k +
      ((staleB n junk ((analysis n).oddOf h l) + (analysis n).oddOf h l k) >>> (1 : Nat)) := by
  simp only [Scheme.evenOf, synthesis, predictIlift, last, if_true]
  rfl

theorem iliftLast_spec {k : Nat} (last : k + 2 = n) {s : IliftRegs}
    (inv : IliftInv rb n ibuf obuf ip op junk k s) :
    IliftedRow rb n ibuf obuf ip op junk (iliftLast rb ibuf s) := by
  have slotb : s.ipb + rb = ip + (n + (k + 1)) * rb := by rw [inv.ipb_eq]; ring
  have d : ibuf (s.ipb + rb) - ((s.e + 1) >>> (3 : Nat)) =
      (analysis n).oddOf (highAt ibuf rb ip) (lowAt ibuf rb n ip) (k + 1) := by
    rw [oddOf_last last, slotb, inv.e]
    rfl
  -- `b` still holds the pair before the last but one
  have b : s.b = staleB n junk ((analysis n).oddOf (highAt ibuf rb ip) (lowAt ibuf rb n ip)) := by
    rw [inv.b, staleB]
    by_cases first : k = 0
    · rw [if_pos first, if_neg (by omega)]
    · rw [if_neg first, if_pos (by omega), show n - 3 = k - 1 by omega]
  have op2 : s.op + 2 = op + 2 * (k + 1) := by rw [inv.op_eq]; ring
  have op3 : s.op + 3 = op + 2 * (k + 1) + 1 := by rw [inv.op_eq]; ring
  refine ⟨?_, ?_, ?_⟩
  · intro j bound
    simp only [evenAt, iliftLast, d, op2, op3]
    rw [Function.update_of_ne (by omega)]
    rcases Nat.lt_or_ge k j with new | old
    · obtain rfl : j = k + 1 := by omega
      rw [Function.update_self, synthesis_evenOf_last last, b, inv.e]
    · rw [Function.update_of_ne (by omega), inv.even j old, synthesis_evenOf_inner (by omega)]
  · intro j bound
    simp only [oddAt, iliftLast, d, op2, op3]
    rcases Nat.lt_or_ge k j with new | old
    · obtain rfl : j = k + 1 := by omega
      rw [Function.update_self]
      rfl
    · rw [Function.update_of_ne (by omega), Function.update_of_ne (by omega), inv.odd j old]
      rfl
  · intro a outside
    have first := outside (2 * (k + 1)) (by omega)
    have second := outside (2 * (k + 1) + 1) (by omega)
    simp only [iliftLast, op2, op3, Nat.add_assoc, Function.update_of_ne second,
      Function.update_of_ne first]
    exact inv.frame a outside

theorem iliftRow_spec (size : 2 ≤ n) (ibase obase : Nat) (junk : Nat → Int) (row : Nat) :
    IliftedRow rb n ibuf obuf (ibase + row) (obase + row * rb) (junk row)
      (iliftRow rb (2 * n) ibuf ibase obase junk obuf row) := by
  have turns : 2 * n / 2 - 2 = n - 2 := by omega
  simp only [iliftRow, half_slots, turns]
  exact iliftLast_spec (by omega) (iliftColumns_inv size (n - 2) (by omega))

end Ilift

end IcoZip.Wavelet
