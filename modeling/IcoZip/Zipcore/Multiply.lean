import IcoZip.Zipcore.Slowmpy

/-! All multipliers return the exact product.

Whatever its registers hold, a multiplier with nothing on its way answers the
multiplications of any run in order, each once.
-/

set_option autoImplicit false

namespace IcoZip.Zipcore

namespace MpyInputs

variable (i : MpyInputs)

/-- The product in a word of `n` bits: signed, if bit 0 of the operation says so. -/
def exact (n : Nat) : BitVec n :=
  if i.signed then BitVec.ofInt n (i.a.toInt * i.b.toInt) else BitVec.ofNat n (i.a.toNat * i.b.toNat)

/-- What is to be shown: which half is meant, and both. -/
def answer : Bool × BitVec 64 := (i.high, i.exact 64)

/-- 64 bits are enough. -/
theorem exact_spec :
    if i.signed then (i.exact 64).toInt = i.a.toInt * i.b.toInt else (i.exact 64).toNat = i.a.toNat * i.b.toNat := by
  unfold exact
  cases i.signed with
  | true => exact ShiftAdd.toInt_product i.a i.b (by decide)
  | false =>
    have bound : i.a.toNat * i.b.toNat < 2 ^ 32 * 2 ^ 32 := Nat.mul_lt_mul'' i.a.isLt i.b.isLt
    rw [if_neg (by simp), if_neg (by simp), BitVec.toNat_ofNat, Nat.mod_eq_of_lt (by omega)]

theorem widen_mul (n : Nat) : i.widen n i.a * i.widen n i.b = i.exact n := by
  unfold widen exact
  cases i.signed with
  | true => exact (BitVec.ofInt_mul i.a.toInt i.b.toInt).symm
  | false =>
    rw [if_neg (by simp), if_neg (by simp), if_neg (by simp), BitVec.ofNat_mul, BitVec.ofNat_toNat, BitVec.ofNat_toNat]

end MpyInputs

/-! ### Four products of halves -/

theorem toNat_product (x y : BitVec 16) {w : Nat} (fits : 32 ≤ w) :
    (x.setWidth w * y.setWidth w).toNat = x.toNat * y.toNat := by
  have wide : 2 ^ 32 ≤ 2 ^ w := Nat.pow_le_pow_right (by decide) fits
  have small : x.toNat * y.toNat < 2 ^ 16 * 2 ^ 16 := Nat.mul_lt_mul'' x.isLt y.isLt
  rw [BitVec.toNat_mul, BitVec.toNat_setWidth_of_le (by omega), BitVec.toNat_setWidth_of_le (by omega),
    Nat.mod_eq_of_lt (by omega)]

/-- Four products of halves. -/
theorem foil (a b : BitVec 32) (s : BitVec 33) :
    let high (x : BitVec 32) : BitVec 16 := x.extractLsb' 16 16
    let low (x : BitVec 32) : BitVec 16 := x.extractLsb' 0 16
    let f := (high a).setWidth 32 * (high b).setWidth 32
    let oi := (high a).setWidth 33 * (low b).setWidth 33 + (low a).setWidth 33 * (high b).setWidth 33
    let l := (low a).setWidth 32 * (low b).setWidth 32
    ((l.extractLsb' 16 16).setWidth 48 + oi.setWidth 48 + (s ++ 0#15) + (f ++ 0#16)) ++ l.extractLsb' 0 16 =
      BitVec.ofNat 64 (a.toNat * b.toNat + 2 ^ 31 * s.toNat) := by
  intro high low f oi l
  have fEq : f.toNat = (high a).toNat * (high b).toNat := toNat_product _ _ (by decide)
  have lEq : l.toNat = (low a).toNat * (low b).toNat := toNat_product _ _ (by decide)
  have bound (x y : BitVec 16) : x.toNat * y.toNat ≤ 0xffff * 0xffff :=
    Nat.mul_le_mul (Nat.le_of_lt_succ x.isLt) (Nat.le_of_lt_succ y.isLt)
  have oiEq : oi.toNat = (high a).toNat * (low b).toNat + (low a).toNat * (high b).toNat := by
    have first := bound (high a) (low b)
    have second := bound (low a) (high b)
    rw [BitVec.toNat_add, toNat_product _ _ (by decide), toNat_product _ _ (by decide), Nat.mod_eq_of_lt (by omega)]
  have halves (x : BitVec 32) : x.toNat = (high x).toNat * 2 ^ 16 + (low x).toNat := by
    have less := x.isLt
    simp only [high, low, BitVec.extractLsb'_toNat, Nat.shiftRight_eq_div_pow]
    omega
  have whole : a.toNat * b.toNat = 2 ^ 32 * ((high a).toNat * (high b).toNat) +
      2 ^ 16 * ((high a).toNat * (low b).toNat + (low a).toNat * (high b).toNat) +
      (low a).toNat * (low b).toNat := by
    rw [halves a, halves b]
    ring
  apply BitVec.eq_of_toNat_eq
  rw [ShiftAdd.toNat_append, BitVec.toNat_ofNat, whole, ← fEq, ← oiEq, ← lEq]
  have lt := l.isLt
  have ltOi := oi.isLt
  have ltF := f.isLt
  have ltS := s.isLt
  simp only [BitVec.toNat_add, ShiftAdd.toNat_append, BitVec.toNat_setWidth, BitVec.extractLsb'_toNat,
    Nat.shiftRight_eq_div_pow, BitVec.toNat_ofNat]
  omega

/-- The correction of the signed product, in 33 bits. -/
theorem correction_wrapped (a b : BitVec 32) : ∃ q : ℤ,
    ((0x80000000#33 - (a.setWidth 33 + b.setWidth 33)).toNat : ℤ) = 2 ^ 31 - a.toNat - b.toNat + 2 ^ 33 * q := by
  have less := a.isLt
  have less' := b.isLt
  rw [BitVec.toNat_sub, BitVec.toNat_add, BitVec.toNat_setWidth, BitVec.toNat_setWidth, BitVec.toNat_ofNat]
  by_cases large : a.toNat + b.toNat ≤ 2 ^ 31
  · exact ⟨0, by omega⟩
  · exact ⟨1, by omega⟩

namespace Mpyop

/-- Four clocks: what the sum of the partial products is. -/
theorem result_four (s : Mpy4ck) (i j k : MpyInputs) (r r' r'' : Bool) :
    (clock4 (clock4 (clock4 s r i) r' j) r'' k).result = i.exact 64 := by
  refine (foil (clock4 s r i).aInput (clock4 s r i).bInput (clock4 (clock4 s r i) r' j).ppS).trans ?_
  unfold MpyInputs.exact
  cases signed : i.signed with
  | true =>
    have a : ((clock4 s r i).aInput.toNat : ℤ) = i.a.toInt + 2 ^ 31 := by
      simp only [clock4, signed, if_true]
      exact ShiftAdd.signInverted i.a (by decide)
    have b : ((clock4 s r i).bInput.toNat : ℤ) = i.b.toInt + 2 ^ 31 := by
      simp only [clock4, signed, if_true]
      exact ShiftAdd.signInverted i.b (by decide)
    have correction : (clock4 (clock4 s r i) r' j).ppS =
        0x80000000#33 - ((clock4 s r i).aInput.setWidth 33 + (clock4 s r i).bInput.setWidth 33) := by
      rw [clock4, show (clock4 s r i).signed = true from signed, if_pos rfl]
    obtain ⟨q, wrapped⟩ := correction_wrapped (clock4 s r i).aInput (clock4 s r i).bInput
    rw [← correction] at wrapped
    have sum : (((clock4 s r i).aInput.toNat * (clock4 s r i).bInput.toNat +
        2 ^ 31 * (clock4 (clock4 s r i) r' j).ppS.toNat : Nat) : ℤ) = i.a.toInt * i.b.toInt + 2 ^ 64 * q := by
      push_cast
      rw [wrapped, a, b]
      ring
    rw [if_pos rfl, ← BitVec.ofInt_natCast, sum, ShiftAdd.ofInt_wrapped]
  | false => simp [clock4, signed]

end Mpyop

/-! ### The slow multiplier -/

/-- `slowmpy` as `mpyop` has it. -/
def Slowmpy.wide (s : Slowmpy) : SlowmpyN 33 6 :=
  ⟨s.busy, s.done, s.count, s.pA, s.pB, s.product, false, s.almostDone, s.p, false⟩

def MpyInputs.wide (i : MpyInputs) (reset : Bool) : SlowmpyN.Inputs 33 :=
  ⟨reset, i.stb, i.widen 33 i.a, i.widen 33 i.b, false⟩

theorem Slowmpy.addend_wide (s : Slowmpy) : s.wide.addend true = s.addend := by
  have same : s.wide.preDone = s.preDone := rfl
  unfold SlowmpyN.addend Slowmpy.addend
  rw [same]
  cases s.preDone <;> exact BitVec.setWidth_eq _

theorem Slowmpy.wide_slowmpy (s : Slowmpy) (reset : Bool) (i : MpyInputs) :
    (s.slowmpy reset i.stb (i.widen 33 i.a) (i.widen 33 i.b)).wide = s.wide.slowmpy true false (i.wide reset) := by
  obtain ⟨busy, done, count, pA, pB, product, almostDone, p⟩ := s
  simp only [Slowmpy.wide, Slowmpy.slowmpy, SlowmpyN.slowmpy, MpyInputs.wide, SlowmpyN.mk.injEq]
  refine ⟨rfl, ?_, rfl, ?_, ?_, ?_, ?_, rfl, ?_, ?_⟩
  · cases reset <;> cases busy <;> rfl
  · cases busy <;> rfl
  · cases busy <;> rfl
  · cases busy with
    | false => rfl
    | true =>
      rw [← Slowmpy.addend_wide]
      exact (BitVec.setWidth_eq _).symm
  · cases reset <;> cases busy <;> cases i.stb <;> rfl
  · cases almostDone <;> rfl
  · cases almostDone <;> rfl

theorem MpyInputs.toInt_widen (i : MpyInputs) (x : BitVec 32) :
    (i.widen 33 x).toInt = if i.signed then x.toInt else x.toNat := by
  unfold MpyInputs.widen
  cases i.signed with
  | true => exact BitVec.toInt_signExtend_of_le (by decide)
  | false =>
    have less := x.isLt
    rw [if_neg (by simp), if_neg (by simp), BitVec.toInt_eq_toNat_of_lt] <;>
      rw [BitVec.toNat_setWidth_of_le (by decide)]
    omega

theorem MpyInputs.exact_wide (i : MpyInputs) (reset : Bool) :
    ((i.wide reset).exact true).extractLsb' 0 64 = i.exact 64 := by
  have low (x : ℤ) : (BitVec.ofInt (33 + 33) x).extractLsb' 0 64 = BitVec.ofInt 64 x := by
    apply BitVec.eq_of_toNat_eq
    rw [BitVec.extractLsb'_toNat, BitVec.toNat_ofInt, BitVec.toNat_ofInt]
    omega
  rw [SlowmpyN.Inputs.exact, if_pos rfl, low, MpyInputs.wide, toInt_widen, toInt_widen, MpyInputs.exact]
  cases i.signed with
  | true => rfl
  | false =>
    rw [if_neg (by simp), if_neg (by simp), if_neg (by simp), ← BitVec.ofInt_natCast]
    push_cast
    rfl

/-! ### Runs -/

namespace Mpyop

variable (m : Mpyop) (i : MpyInputs)

def shown : List (Bool × BitVec 64) := if m.valid i then [(m.hi i, m.result i)] else []

def asked (_ : Mpyop) : List (Bool × BitVec 64) := if i.stb then [i.answer] else []

/-- The multiplier is asked when it is not busy. -/
def Polite : Prop := i.stb → m.busy = false

/-- What is on its way. -/
def Owes : Mpyop → List (Bool × BitVec 64) → Prop
  | absent, _ => False
  | one, owed => owed = []
  | two s, owed => owed = if s.pipe then [(s.hi, s.aInput * s.bInput)] else []
  | three s, owed =>
    if s.pipe.getLsbD 1 then
      s.pipe.getLsbD 0 = false ∧ owed = [(s.hi, if s.sgn.getLsbD 1 then s.smpyResult else s.umpyResult)]
    else if s.pipe.getLsbD 0 then
      owed = [(s.hi,
        if s.sgn.getLsbD 0 then s.aInput.signExtend 64 * s.bInput.signExtend 64
        else s.aInput.setWidth 64 * s.bInput.setWidth 64)]
    else owed = []
  | four s, owed =>
    if s.pipe.getLsbD 2 then s.pipe.extractLsb' 0 2 = 0 ∧ owed = [(s.hi, s.result)]
    else if s.pipe.getLsbD 1 then
      s.pipe.getLsbD 0 = false ∧ owed = [(s.hi, (clock4 s false ⟨false, 0, 0, 0⟩).result)]
    else if s.pipe.getLsbD 0 then
      owed = [(s.hi, (clock4 (clock4 s false ⟨false, 0, 0, 0⟩) false ⟨false, 0, 0, 0⟩).result)]
    else owed = []
  | slow s, owed =>
    if s.slow.busy then
      ∃ j : MpyInputs, s.hi = j.high ∧ owed = [j.answer] ∧
        ∃ k ≤ 33, s.slow.wide.Working true (j.wide false) k
    else if s.slow.done then owed = [(s.hi, s.slow.p.extractLsb' 0 64)]
    else owed = []

theorem shifted {n : Nat} (pipe : BitVec n) (new : Bool) {m p : Nat} (inside : p < m) :
    (pipe.extractLsb' 0 m ++ BitVec.ofBool new).getLsbD (p + 1) = pipe.getLsbD p := by
  rw [BitVec.getLsbD_append, if_neg (by omega), Nat.add_sub_cancel, BitVec.getLsbD_extractLsb', Nat.zero_add,
    decide_eq_true inside, Bool.true_and]

theorem shifted_zero {n m : Nat} (pipe : BitVec n) (new : Bool) :
    (pipe.extractLsb' 0 m ++ BitVec.ofBool new).getLsbD 0 = new := by
  rw [BitVec.getLsbD_append, if_pos Nat.one_pos, BitVec.getLsbD_ofBool]
  rfl
variable {i} {owed : List (Bool × BitVec 64)}

/-- A multiplier that is busy is not asked. -/
theorem Polite.quiet {m : Mpyop} (polite : m.Polite i) (busy : m.busy = true) : i.stb = false := by
  cases stb : i.stb with
  | false => rfl
  | true => exact absurd busy (by rw [polite stb]; decide)

theorem Owes.two {s : Mpy2ck} (owes : (two s).Owes owed) :
    ∃ later, ((Mpyop.two s).mpyop false i).Owes later ∧ (Mpyop.two s).shown i ++ later = owed ++ asked i (.two s) := by
  obtain rfl : owed = _ := owes
  refine ⟨asked i (.two s), ?_, rfl⟩
  have product := i.widen_mul 64
  cases stb : i.stb with
  | false => simp [Owes, mpyop, clock2, asked, stb]
  | true => simp [Owes, mpyop, clock2, asked, stb, product, MpyInputs.answer]

theorem Owes.three {s : Mpy3ck} (owes : (three s).Owes owed) (polite : (Mpyop.three s).Polite i) :
    ∃ later, ((Mpyop.three s).mpyop false i).Owes later ∧
      (Mpyop.three s).shown i ++ later = owed ++ asked i (.three s) := by
  have first : (clock3 s false i).pipe.getLsbD 0 = i.stb := shifted_zero s.pipe i.stb
  have second : (clock3 s false i).pipe.getLsbD 1 = s.pipe.getLsbD 0 := shifted s.pipe i.stb (by decide)
  have sign : (clock3 s false i).sgn.getLsbD 0 = i.signed := shifted_zero s.sgn i.signed
  have sign' : (clock3 s false i).sgn.getLsbD 1 = s.sgn.getLsbD 0 := shifted s.sgn i.signed (by decide)
  -- what enters, when the first stage is free
  have new (free : s.pipe.getLsbD 0 = false) : (Mpyop.three (clock3 s false i)).Owes (asked i (.three s)) := by
    have product := i.widen_mul 64
    unfold MpyInputs.widen at product
    simp only [Owes, first, second, free, sign, asked, MpyInputs.answer, ← product]
    cases stb : i.stb with
    | false => simp only [Bool.false_eq_true, if_false]
    | true => cases signed : i.signed <;> simp only [clock3, stb, Bool.false_eq_true, if_true, if_false]
  simp only [Owes] at owes
  cases last : s.pipe.getLsbD 1 with
  | true =>
    rw [if_pos last] at owes
    obtain ⟨free, rfl⟩ := owes
    refine ⟨asked i (.three s), new free, ?_⟩
    rw [shown, valid, if_pos last]
    rfl
  | false =>
    rw [if_neg (by rw [last]; decide)] at owes
    have silent : (Mpyop.three s).shown i = [] := if_neg (by rw [valid, last]; decide)
    simp only [silent, List.nil_append]
    cases busy : s.pipe.getLsbD 0 with
    | true =>
      rw [if_pos busy] at owes
      have quiet := polite.quiet busy
      refine ⟨owed, ?_, by simp [asked, quiet]⟩
      subst owed
      simp only [mpyop, Owes, first, second, busy, quiet, sign', if_true]
      simp only [clock3, quiet, Bool.false_eq_true, if_false, true_and]
    | false =>
      rw [if_neg (by rw [busy]; decide)] at owes
      exact ⟨asked i (.three s), new busy, by rw [owes]; rfl⟩

theorem Owes.four {s : Mpy4ck} (owes : (four s).Owes owed) (polite : (Mpyop.four s).Polite i) :
    ∃ later, ((Mpyop.four s).mpyop false i).Owes later ∧
      (Mpyop.four s).shown i ++ later = owed ++ asked i (.four s) := by
  have first : (clock4 s false i).pipe.getLsbD 0 = i.stb := shifted_zero s.pipe i.stb
  have second : (clock4 s false i).pipe.getLsbD 1 = s.pipe.getLsbD 0 := shifted s.pipe i.stb (by decide)
  have third : (clock4 s false i).pipe.getLsbD 2 = s.pipe.getLsbD 1 := shifted s.pipe i.stb (by decide)
  have stages : ∀ pipe : BitVec 3, pipe.extractLsb' 0 2 = 0 ↔ pipe.getLsbD 0 = false ∧ pipe.getLsbD 1 = false := by
    decide
  -- what enters, when the first two stages are free
  have new (free : s.pipe.getLsbD 0 = false) (free' : s.pipe.getLsbD 1 = false) :
      (Mpyop.four (clock4 s false i)).Owes (asked i (.four s)) := by
    simp only [Owes, first, second, third, free, free', asked, MpyInputs.answer, result_four]
    cases stb : i.stb with
    | false => simp only [Bool.false_eq_true, if_false]
    | true => simp only [clock4, stb, Bool.false_eq_true, if_true, if_false]
  simp only [Owes] at owes
  cases last : s.pipe.getLsbD 2 with
  | true =>
    rw [if_pos last] at owes
    obtain ⟨free, rfl⟩ := owes
    refine ⟨asked i (.four s), new ((stages s.pipe).mp free).1 ((stages s.pipe).mp free).2, ?_⟩
    rw [shown, valid, if_pos last]
    rfl
  | false =>
    rw [if_neg (by rw [last]; decide)] at owes
    have silent : (Mpyop.four s).shown i = [] := if_neg (by rw [valid, last]; decide)
    have waits (busy : s.pipe.getLsbD 0 = true ∨ s.pipe.getLsbD 1 = true) : i.stb = false := by
      refine polite.quiet ?_
      rw [Mpyop.busy, bne_iff_ne]
      intro free
      have none := (stages s.pipe).mp free
      rw [none.1, none.2] at busy
      simp at busy
    simp only [silent, List.nil_append]
    cases middle : s.pipe.getLsbD 1 with
    | true =>
      rw [if_pos middle] at owes
      obtain ⟨free, rfl⟩ := owes
      have quiet := waits (.inr middle)
      refine ⟨[(s.hi, (clock4 s false ⟨false, 0, 0, 0⟩).result)], ?_, by simp [asked, quiet]⟩
      simp only [mpyop, Owes, third, middle, if_true]
      refine ⟨(stages _).mpr ⟨first.trans quiet, second.trans free⟩, ?_⟩
      simp only [clock4, quiet, Bool.false_eq_true, if_false]
    | false =>
      rw [if_neg (by rw [middle]; decide)] at owes
      cases early : s.pipe.getLsbD 0 with
      | true =>
        rw [if_pos early] at owes
        have quiet := waits (.inl early)
        refine ⟨owed, ?_, by simp [asked, quiet]⟩
        subst owed
        simp only [mpyop, Owes, first, second, third, middle, early, quiet, Bool.false_eq_true, if_true, if_false,
          true_and]
        simp only [clock4, quiet, Bool.false_eq_true, if_false]
      | false =>
        rw [if_neg (by rw [early]; decide)] at owes
        exact ⟨asked i (.four s), new early middle, by rw [owes]; rfl⟩

theorem Owes.slow {s : MpySlow} (owes : (slow s).Owes owed) (polite : (Mpyop.slow s).Polite i) :
    ∃ later, ((Mpyop.slow s).mpyop false i).Owes later ∧
      (Mpyop.slow s).shown i ++ later = owed ++ asked i (.slow s) := by
  have wide := s.slow.wide_slowmpy false i
  -- what enters, when nothing is being multiplied
  have new (free : s.slow.busy = false) : (Mpyop.slow (clockSlow s false i)).Owes (asked i (.slow s)) := by
    cases stb : i.stb with
    | false => simp [Owes, clockSlow, Slowmpy.slowmpy, asked, stb, free]
    | true =>
      have accepts : s.slow.wide.Accepts (i.wide false) := ⟨free, rfl, stb⟩
      have begun : (s.slow.wide.slowmpy true false (i.wide false)).Working true (i.wide false) 0 :=
        accepts.working (by decide) (by decide)
      rw [← wide] at begun
      have busy : (clockSlow s false i).slow.busy = true := begun.busy
      simp only [Owes, busy, if_true, asked, stb]
      exact ⟨i, by simp [clockSlow, stb], rfl, 0, Nat.zero_le 33, begun⟩
  simp only [Owes] at owes
  cases busy : s.slow.busy with
  | true =>
    rw [if_pos busy] at owes
    obtain ⟨j, hi, rfl, k, within, working⟩ := owes
    have quiet := polite.quiet busy
    have silent : (Mpyop.slow s).shown i = [] :=
      if_neg (by rw [valid, show s.slow.done = false from working.done]; decide)
    have held : (clockSlow s false i).hi = j.high := by simp [clockSlow, quiet, hi]
    refine ⟨[j.answer], ?_, by simp [silent, asked, quiet]⟩
    rcases Nat.lt_or_eq_of_le within with more | rfl
    · have next : (s.slow.wide.slowmpy true false (i.wide false)).Working true (j.wide false) (k + 1) :=
        working.slowmpy more rfl
      rw [← wide] at next
      have still : (clockSlow s false i).slow.busy = true := next.busy
      simp only [mpyop, Owes, still, if_true]
      exact ⟨j, held, rfl, k + 1, more, next⟩
    · have finish : (s.slow.wide.slowmpy true false (i.wide false)).busy = false ∧ _ := working.finish (by decide) rfl
      rw [← wide] at finish
      obtain ⟨free, done, p, -⟩ := finish
      have idle : (clockSlow s false i).slow.busy = false := free
      have past : (clockSlow s false i).slow.done = true := done
      have product : (clockSlow s false i).slow.p.extractLsb' 0 64 = j.exact 64 := by
        rw [← j.exact_wide false, ← p]
        rfl
      simp only [mpyop, Owes, idle, past, Bool.false_eq_true, if_true, if_false, held, product]
      rfl
  | false =>
    rw [if_neg (by rw [busy]; decide)] at owes
    cases done : s.slow.done with
    | true =>
      rw [if_pos done] at owes
      exact ⟨asked i (.slow s), new busy, by rw [owes, shown, valid, if_pos done]; rfl⟩
    | false =>
      rw [if_neg (by rw [done]; decide)] at owes
      exact ⟨asked i (.slow s), new busy, by rw [owes, shown, valid, if_neg (by rw [done]; decide)]⟩

theorem Owes.mpyop {m : Mpyop} (owes : m.Owes owed) (polite : m.Polite i) :
    ∃ later, (m.mpyop false i).Owes later ∧ m.shown i ++ later = owed ++ asked i m := by
  cases m with
  | absent => exact owes.elim
  | one =>
    obtain rfl : owed = [] := owes
    refine ⟨[], rfl, ?_⟩
    rw [List.append_nil, List.nil_append, shown, asked, result, i.widen_mul 64]
    rfl
  | two s => exact owes.two
  | three s => exact owes.three polite
  | four s => exact owes.four polite
  | slow s => exact owes.slow polite

/-- Nothing is on the way in an idle multiplier. -/
theorem owes_idle {m : Mpyop} (some : m ≠ absent) (idle : m.pending = false) : m.Owes owed ↔ owed = [] := by
  cases m with
  | absent => exact absurd rfl some
  | one => exact Iff.rfl
  | two s => rw [Owes, show s.pipe = false from idle, if_neg (by decide)]
  | three s =>
    have empty : s.pipe = 0 := by simpa [pending] using idle
    simp [Owes, empty]
  | four s =>
    have empty : s.pipe = 0 := by simpa [pending] using idle
    simp [Owes, empty]
  | slow s =>
    obtain ⟨busy, done⟩ : s.slow.busy = false ∧ s.slow.done = false := by simpa [pending] using idle
    simp [Owes, busy, done]

theorem pending_left (m : Mpyop) (none : m.left = 0) : m.pending = false := by
  cases m with
  | absent | one => rfl
  | two s => simpa [left, pending] using none
  | three s =>
    have empty : ∀ pipe : BitVec 2, pipe2Left pipe = 0 → (pipe != 0) = false := by decide
    exact empty s.pipe none
  | four s =>
    have empty : ∀ pipe : BitVec 3, pipe3Left pipe = 0 → (pipe != 0) = false := by decide
    exact empty s.pipe none
  | slow s =>
    cases busy : s.slow.busy with
    | true =>
      have some := (slow s).busy_left busy
      omega
    | false => simpa [left, pending, busy] using none

/-- A multiplication takes 35 clocks at most behind the one that asks for it. -/
theorem Owes.left_le {m : Mpyop} (owes : m.Owes owed) : m.left ≤ 35 := by
  cases m with
  | absent | one => simp [left]
  | two s =>
    rw [left]
    split_ifs <;> omega
  | three s =>
    have most : ∀ pipe : BitVec 2, pipe2Left pipe ≤ 35 := by decide
    exact most s.pipe
  | four s =>
    have most : ∀ pipe : BitVec 3, pipe3Left pipe ≤ 35 := by decide
    exact most s.pipe
  | slow s =>
    cases busy : s.slow.busy with
    | false =>
      simp only [left, busy, Bool.false_eq_true, if_false]
      split_ifs <;> omega
    | true =>
      simp only [Owes, busy, if_true] at owes
      obtain ⟨j, -, -, k, within, working⟩ := owes
      simp only [left, busy, if_true]
      split_ifs with almost
      · omega
      · have more : k < 33 := by
          refine Nat.lt_of_le_of_ne within fun last => almost ?_
          have done : s.slow.almostDone = decide (k = 33) := working.almost
          rw [done, last]
          rfl
        have count : s.slow.count.toNat = 33 - 1 - k := working.count more
        omega

def step (m : Mpyop) (i : MpyInputs) : Mpyop := m.mpyop false i

/-- Left alone, a multiplier gets idle. -/
theorem left_run {js : List MpyInputs} (quiet : ∀ j ∈ js, j.stb = false) (m : Mpyop) (enough : m.left ≤ js.length) :
    (Clocked.run step m js).left = 0 := by
  induction js generalizing m with
  | nil => exact Nat.le_zero.mp enough
  | cons j js ih =>
    refine ih (fun k member => quiet k (List.mem_cons_of_mem _ member)) _ ?_
    have shrinks := m.left_mpyop false j (quiet j List.mem_cons_self)
    rw [List.length_cons] at enough
    show (m.mpyop false j).left ≤ js.length
    omega

theorem emitted_asked (m : Mpyop) (is : List MpyInputs) :
    Clocked.emitted step (fun m i => asked i m) m is = (is.filter MpyInputs.stb).map MpyInputs.answer := by
  induction is generalizing m with
  | nil => rfl
  | cons i is ih =>
    rw [Clocked.emitted_cons, ih, asked]
    cases stb : i.stb <;> simp [stb]

/-- Every run from an idle multiplier, whatever its registers hold. -/
theorem owes_run {m : Mpyop} (some : m ≠ absent) (idle : m.pending = false) {is : List MpyInputs}
    (polite : Clocked.Always step Polite m is) :
    ∃ later, (Clocked.run step m is).Owes later ∧
      Clocked.emitted step shown m is ++ later = (is.filter MpyInputs.stb).map MpyInputs.answer := by
  have start : m.Owes [] := (owes_idle some idle).mpr rfl
  obtain ⟨later, owes, law⟩ := @Clocked.conservation_rel _ _ _ step Polite shown (fun m i => asked i m) Owes
    (fun m i _ owes polite => owes.mpyop polite) m is [] start polite
  exact ⟨later, owes, by rw [law, List.nil_append, emitted_asked]⟩

theorem polite_quiet {js : List MpyInputs} (quiet : ∀ j ∈ js, j.stb = false) (m : Mpyop) :
    Clocked.Always step Polite m js := by
  refine Clocked.always_of_inputs (fun j member m stb => ?_) m
  rw [quiet j member] at stb
  contradiction

end Mpyop

/-- Every multiplier answers every run with the exact products, and `slowmpy` does so for operands
of any width. -/
theorem multiplies :
    (∀ (m : Mpyop) (is js : List MpyInputs), m ≠ .absent → m.pending = false →
      Clocked.Always Mpyop.step Mpyop.Polite m is →
      Clocked.emitted Mpyop.step Mpyop.shown m is <+: (is.filter MpyInputs.stb).map MpyInputs.answer ∧
      ((∀ j ∈ js, j.stb = false) → 35 ≤ js.length →
        Clocked.emitted Mpyop.step Mpyop.shown m (is ++ js) = (is.filter MpyInputs.stb).map MpyInputs.answer)) ∧
    (∀ i : MpyInputs, if i.signed then (i.exact 64).toInt = i.a.toInt * i.b.toInt
      else (i.exact 64).toNat = i.a.toNat * i.b.toNat) ∧
    (∀ (na lgna : Nat) (lowpower : Bool) (s : SlowmpyN na lgna) (i : SlowmpyN.Inputs na)
      (js : List (SlowmpyN.Inputs na)), 2 ≤ na → na ≤ 2 ^ lgna → s.Accepts i → (∀ j ∈ js, j.reset = false) →
      (js.length ≤ na → (SlowmpyN.after true lowpower s i js).busy ∧
        (SlowmpyN.after true lowpower s i js).done = false) ∧
      (js.length = na + 1 → (SlowmpyN.after true lowpower s i js).busy = false ∧
        (SlowmpyN.after true lowpower s i js).done ∧
        (SlowmpyN.after true lowpower s i js).p.toInt = i.a.toInt * i.b.toInt) ∧
      (js.length = na + 2 → (SlowmpyN.after true lowpower s i js).done = false)) := by
  refine ⟨fun m is js some idle polite => ?_, MpyInputs.exact_spec,
    fun na lgna lowpower s i js wide fits accepts free => ?_⟩
  · obtain ⟨later, owes, law⟩ := Mpyop.owes_run some idle polite
    refine ⟨⟨later, law⟩, fun quiet enough => ?_⟩
    have whole : Clocked.Always Mpyop.step Mpyop.Polite m (is ++ js) :=
      (Clocked.always_append _ m is js).mpr ⟨polite, Mpyop.polite_quiet quiet _⟩
    obtain ⟨last, owes', law'⟩ := Mpyop.owes_run some idle whole
    have done : (Clocked.run Mpyop.step m (is ++ js)).left = 0 := by
      rw [Clocked.run_append]
      exact Mpyop.left_run quiet _ (owes.left_le.trans enough)
    have still : Clocked.run Mpyop.step m (is ++ js) ≠ .absent := fun absent => by
      rw [absent] at owes'
      exact owes'
    rw [(Mpyop.owes_idle still (Mpyop.pending_left _ done)).mp owes', List.append_nil] at law'
    have none : js.filter MpyInputs.stb = [] := List.filter_eq_nil_iff.mpr fun j member => by simp [quiet j member]
    rw [law', List.filter_append, none, List.append_nil]
  · refine ⟨fun within => ?_, fun all => ?_, fun all => accepts.silent wide fits free all⟩
    · have working : (SlowmpyN.after true lowpower s i js).Working true i js.length :=
        accepts.during (by omega) fits free within
      exact ⟨working.busy, working.done⟩
    · obtain ⟨idle, done, p, -⟩ : (SlowmpyN.after true lowpower s i js).busy = false ∧ _ :=
        accepts.finish wide fits free all
      refine ⟨idle, done, ?_⟩
      rw [p, SlowmpyN.Inputs.exact, if_pos rfl]
      exact ShiftAdd.toInt_product i.a i.b (by omega)

instance (m : Mpyop) (i : MpyInputs) : Decidable (m.Polite i) := inferInstanceAs (Decidable (_ → _))

/-- `-3 * 5` in four clocks, and in `slowmpy` with four bits. -/
theorem multiplies_pair :
    Clocked.emitted Mpyop.step Mpyop.shown (.four default)
        (⟨true, 3, -3, 5⟩ :: List.replicate 35 ⟨false, 0, 7, 7⟩) = [(true, -15)] ∧
      (SlowmpyN.after true false (⟨false, true, 0#2, 1, 1, 1, true, false, 1, true⟩ : SlowmpyN 4 2)
        ⟨false, true, -3, 5, false⟩ (List.replicate 5 ⟨false, true, 7, 7, true⟩)).p.toInt = -15 := by
  have four := (multiplies.1 (.four default) [⟨true, 3, -3, 5⟩] (List.replicate 35 ⟨false, 0, 7, 7⟩) (by decide)
    (by decide) (by decide)).2 (fun j member => by rw [List.eq_of_mem_replicate member]) (by simp)
  have slow := (multiplies.2.2 4 2 false ⟨false, true, 0#2, 1, 1, 1, true, false, 1, true⟩ ⟨false, true, -3, 5, false⟩
    (List.replicate 5 ⟨false, true, 7, 7, true⟩) (by decide) (by decide) ⟨rfl, rfl, rfl⟩
    (fun j member => by rw [List.eq_of_mem_replicate member])).2.1 (by simp)
  exact ⟨four.trans (by decide), slow.2.2.trans (by decide)⟩

end IcoZip.Zipcore
