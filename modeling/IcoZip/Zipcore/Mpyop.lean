import Mathlib.Data.BitVec

/-! The multipliers of `mpyop`: without one, in one to four clocks, and `slowmpy`.

Which of them there is says the parameter `IMPLEMENT_MPY`; here it is the
constructor of the state.
-/

set_option autoImplicit false

namespace IcoZip.Zipcore

structure MpyInputs where
  stb : Bool
  op : BitVec 2
  a : BitVec 32
  b : BitVec 32

namespace MpyInputs

variable (i : MpyInputs)

def signed : Bool := i.op.getLsbD 0

def high : Bool := i.op.getLsbD 1

/-- An operand with its sign in front, where it has one. -/
def widen (n : Nat) (x : BitVec 32) : BitVec n := if i.signed then x.signExtend n else x.setWidth n

end MpyInputs

/-- Two clocks. -/
structure Mpy2ck where
  aInput : BitVec 64
  bInput : BitVec 64
  pipe : Bool
  hi : Bool
  deriving DecidableEq, Repr, Inhabited

/-- Three clocks. -/
structure Mpy3ck where
  aInput : BitVec 32
  bInput : BitVec 32
  smpyResult : BitVec 64
  umpyResult : BitVec 64
  sgn : BitVec 2
  pipe : BitVec 2
  hi : Bool
  deriving DecidableEq, Repr, Inhabited

/-- Four clocks, in partial products. -/
structure Mpy4ck where
  aInput : BitVec 32
  bInput : BitVec 32
  signed : Bool
  ppF : BitVec 32
  ppL : BitVec 32
  ppOi : BitVec 33
  ppS : BitVec 33
  result : BitVec 64
  pipe : BitVec 3
  hi : Bool
  deriving DecidableEq, Repr, Inhabited

/-- `slowmpy` with operands of 33 bits. -/
structure Slowmpy where
  busy : Bool
  done : Bool
  count : BitVec 6
  pA : BitVec 33
  pB : BitVec 33
  product : BitVec 66
  almostDone : Bool
  p : BitVec 66
  deriving DecidableEq, Repr, Inhabited

namespace Slowmpy

variable (s : Slowmpy)

def preDone : Bool := s.count == 0

def pwire : BitVec 33 := if s.pB.getLsbD 0 then s.pA else 0

/-- What is added to the upper part in this clock. -/
def addend : BitVec 34 :=
  if s.preDone then 0b0#1 ++ (s.pwire.extractLsb' 32 1 ++ ~~~s.pwire.extractLsb' 0 32)
  else 0b0#1 ++ (~~~s.pwire.extractLsb' 32 1 ++ s.pwire.extractLsb' 0 32)

/-- One clock of `slowmpy`. -/
def slowmpy (reset stb : Bool) (a b : BitVec 33) : Slowmpy where
  almostDone := !reset && s.busy && s.preDone
  done := !reset && s.busy && s.almostDone
  busy := if reset then false else if !s.busy then stb else !s.almostDone
  count := if !s.busy then 32 else s.count - 1
  pA := if !s.busy then a else s.pA
  pB := if !s.busy then b else s.pB >>> 1
  product :=
    if !s.busy then 0
    else ((0b0#1 ++ s.product.extractLsb' 33 33) + s.addend) ++ s.product.extractLsb' 1 32
  p := if s.almostDone then s.product + (0b1#1 ++ 0#31 ++ 0b1#1 ++ 0#33) else s.p

end Slowmpy

structure MpySlow where
  slow : Slowmpy
  hi : Bool
  deriving DecidableEq, Repr, Inhabited

inductive Mpyop where
  | absent
  | one
  | two (s : Mpy2ck)
  | three (s : Mpy3ck)
  | four (s : Mpy4ck)
  | slow (s : MpySlow)
  deriving DecidableEq, Repr, Inhabited

namespace Mpyop

/-- The multiplier takes clocks of its own: `IMPLEMENT_MPY > 1`. -/
def clocked : Mpyop → Bool
  | absent | one => false
  | _ => true

def valid (i : MpyInputs) : Mpyop → Bool
  | absent | one => i.stb
  | two s => s.pipe
  | three s => s.pipe.getLsbD 1
  | four s => s.pipe.getLsbD 2
  | slow s => s.slow.done

def busy : Mpyop → Bool
  | absent | one | two _ => false
  | three s => s.pipe.getLsbD 0
  | four s => s.pipe.extractLsb' 0 2 != 0
  | slow s => s.slow.busy

def result (i : MpyInputs) : Mpyop → BitVec 64
  | absent => 0
  | one => i.widen 64 i.a * i.widen 64 i.b
  | two s => s.aInput * s.bInput
  | three s => if s.sgn.getLsbD 1 then s.smpyResult else s.umpyResult
  | four s => s.result
  | slow s => s.slow.p.extractLsb' 0 64

def hi (i : MpyInputs) : Mpyop → Bool
  | absent => false
  | one => i.high
  | two s => s.hi
  | three s => s.hi
  | four s => s.hi
  | slow s => s.hi

def clock2 (s : Mpy2ck) (reset : Bool) (i : MpyInputs) : Mpy2ck where
  aInput := i.widen 64 i.a
  bInput := i.widen 64 i.b
  pipe := !reset && i.stb
  hi := if i.stb then i.high else s.hi

def clock3 (s : Mpy3ck) (reset : Bool) (i : MpyInputs) : Mpy3ck where
  aInput := i.a
  bInput := i.b
  smpyResult := s.aInput.signExtend 64 * s.bInput.signExtend 64
  umpyResult := s.aInput.setWidth 64 * s.bInput.setWidth 64
  sgn := s.sgn.extractLsb' 0 1 ++ BitVec.ofBool i.signed
  pipe := if reset then 0 else s.pipe.extractLsb' 0 1 ++ BitVec.ofBool i.stb
  hi := if i.stb then i.high else s.hi

def clock4 (s : Mpy4ck) (reset : Bool) (i : MpyInputs) : Mpy4ck where
  aInput := if i.signed then ~~~i.a.extractLsb' 31 1 ++ i.a.extractLsb' 0 31 else i.a
  bInput := if i.signed then ~~~i.b.extractLsb' 31 1 ++ i.b.extractLsb' 0 31 else i.b
  signed := i.signed
  ppF := (s.aInput.extractLsb' 16 16).setWidth 32 * (s.bInput.extractLsb' 16 16).setWidth 32
  ppOi := (s.aInput.extractLsb' 16 16).setWidth 33 * (s.bInput.extractLsb' 0 16).setWidth 33 +
    (s.aInput.extractLsb' 0 16).setWidth 33 * (s.bInput.extractLsb' 16 16).setWidth 33
  ppL := (s.aInput.extractLsb' 0 16).setWidth 32 * (s.bInput.extractLsb' 0 16).setWidth 32
  ppS := if s.signed then 0x80000000#33 - (s.aInput.setWidth 33 + s.bInput.setWidth 33) else 0
  result := ((s.ppL.extractLsb' 16 16).setWidth 48 + s.ppOi.setWidth 48 + (s.ppS ++ 0#15) + (s.ppF ++ 0#16)) ++
    s.ppL.extractLsb' 0 16
  pipe := if reset then 0 else s.pipe.extractLsb' 0 2 ++ BitVec.ofBool i.stb
  hi := if i.stb then i.high else s.hi

def clockSlow (s : MpySlow) (reset : Bool) (i : MpyInputs) : MpySlow where
  slow := s.slow.slowmpy reset i.stb (i.widen 33 i.a) (i.widen 33 i.b)
  hi := if i.stb then i.high else s.hi

/-- One clock of `mpyop`. -/
def mpyop (reset : Bool) (i : MpyInputs) : Mpyop → Mpyop
  | absent => absent
  | one => one
  | two s => two (clock2 s reset i)
  | three s => three (clock3 s reset i)
  | four s => four (clock4 s reset i)
  | slow s => slow (clockSlow s reset i)

/-- A multiplication is on its way, or its result has just come out. -/
def pending : Mpyop → Bool
  | absent | one => false
  | two s => s.pipe
  | three s => s.pipe != 0
  | four s => s.pipe != 0
  | slow s => s.slow.busy || s.slow.done

theorem busy_pending (m : Mpyop) (busy : m.busy = true) : m.pending = true := by
  cases m with
  | absent | one | two => simp [Mpyop.busy] at busy
  | three s =>
    by_contra none
    simp_all [Mpyop.busy, pending]
  | four s =>
    by_contra none
    simp_all [Mpyop.busy, pending]
  | slow s => simp_all [Mpyop.busy, pending]

theorem valid_pending (m : Mpyop) (i : MpyInputs) (clocked : m.clocked = true) (valid : m.valid i = true) :
    m.pending = true := by
  cases m with
  | absent | one => simp [Mpyop.clocked] at clocked
  | two s => exact valid
  | three s =>
    by_contra none
    simp_all [Mpyop.valid, pending]
  | four s =>
    by_contra none
    simp_all [Mpyop.valid, pending]
  | slow s => simp_all [Mpyop.valid, pending]

/-- What comes out has gone in, or was inside. -/
theorem pending_mpyop (m : Mpyop) (reset : Bool) (i : MpyInputs) (pending : (m.mpyop reset i).pending = true) :
    reset = false ∧ (i.stb || m.busy) = true ∧ m.clocked = true := by
  cases m with
  | absent | one => simp [mpyop, Mpyop.pending] at pending
  | two s => simpa [mpyop, clock2, Mpyop.pending, Mpyop.busy, Mpyop.clocked] using pending
  | three s =>
    have shifts : ∀ (pipe : BitVec 2) (stb reset : Bool),
        ((if reset then 0#2 else pipe.extractLsb' 0 1 ++ BitVec.ofBool stb) != 0) = true →
          reset = false ∧ (stb || pipe.getLsbD 0) = true := by decide
    exact ⟨(shifts _ _ _ pending).1, (shifts _ _ _ pending).2, rfl⟩
  | four s =>
    have shifts : ∀ (pipe : BitVec 3) (stb reset : Bool),
        ((if reset then 0#3 else pipe.extractLsb' 0 2 ++ BitVec.ofBool stb) != 0) = true →
          reset = false ∧ (stb || pipe.extractLsb' 0 2 != 0) = true := by decide
    exact ⟨(shifts _ _ _ pending).1, (shifts _ _ _ pending).2, rfl⟩
  | slow s =>
    cases reset <;> cases stb : i.stb <;> cases busy : s.slow.busy <;>
      simp_all [mpyop, clockSlow, Slowmpy.slowmpy, Mpyop.pending, Mpyop.busy, Mpyop.clocked]

/-- How many clocks a shift register needs to empty. -/
def pipe2Left (pipe : BitVec 2) : Nat := if pipe.getLsbD 0 then 2 else if pipe.getLsbD 1 then 1 else 0

def pipe3Left (pipe : BitVec 3) : Nat :=
  if pipe.getLsbD 0 then 3 else if pipe.getLsbD 1 then 2 else if pipe.getLsbD 2 then 1 else 0

/-- How many clocks are left before the result is out. -/
def left : Mpyop → Nat
  | absent | one => 0
  | two s => if s.pipe then 1 else 0
  | three s => pipe2Left s.pipe
  | four s => pipe3Left s.pipe
  | slow s =>
    if s.slow.busy then if s.slow.almostDone then 2 else s.slow.count.toNat + 3
    else if s.slow.done then 1
    else 0

theorem busy_left (m : Mpyop) (busy : m.busy = true) : 0 < m.left := by
  cases m with
  | absent | one | two => simp [Mpyop.busy] at busy
  | three s =>
    have some : ∀ pipe : BitVec 2, pipe.getLsbD 0 = true → 0 < pipe2Left pipe := by decide
    exact some s.pipe busy
  | four s =>
    have some : ∀ pipe : BitVec 3, (pipe.extractLsb' 0 2 != 0) = true → 0 < pipe3Left pipe := by decide
    exact some s.pipe busy
  | slow s =>
    have on : s.slow.busy = true := busy
    simp only [left, on, if_true]
    split <;> omega

theorem left_mpyop (m : Mpyop) (reset : Bool) (i : MpyInputs) (unasked : i.stb = false) :
    (m.mpyop reset i).left = 0 ∨ (m.mpyop reset i).left < m.left := by
  cases m with
  | absent | one => exact .inl rfl
  | two s => exact .inl (by simp [mpyop, clock2, left, unasked])
  | three s =>
    have shifts : ∀ (pipe : BitVec 2) (reset : Bool),
        pipe2Left (if reset then 0 else pipe.extractLsb' 0 1 ++ BitVec.ofBool false) = 0 ∨
          pipe2Left (if reset then 0 else pipe.extractLsb' 0 1 ++ BitVec.ofBool false) < pipe2Left pipe := by decide
    simpa only [mpyop, clock3, left, unasked] using shifts s.pipe reset
  | four s =>
    have shifts : ∀ (pipe : BitVec 3) (reset : Bool),
        pipe3Left (if reset then 0 else pipe.extractLsb' 0 2 ++ BitVec.ofBool false) = 0 ∨
          pipe3Left (if reset then 0 else pipe.extractLsb' 0 2 ++ BitVec.ofBool false) < pipe3Left pipe := by decide
    simpa only [mpyop, clock4, left, unasked] using shifts s.pipe reset
  | slow s =>
    cases reset with
    | true => exact .inl (by simp [mpyop, clockSlow, Slowmpy.slowmpy, left])
    | false =>
      cases busy : s.slow.busy with
      | false => exact .inl (by simp [mpyop, clockSlow, Slowmpy.slowmpy, left, busy, unasked])
      | true =>
        right
        cases almost : s.slow.almostDone with
        | true => simp [mpyop, clockSlow, Slowmpy.slowmpy, left, busy, almost]
        | false =>
          by_cases last : s.slow.count = 0#6
          · simp [mpyop, clockSlow, Slowmpy.slowmpy, Slowmpy.preDone, left, busy, almost, last]
          · have counts : (s.slow.count - 1).toNat < s.slow.count.toNat := by
              have some : s.slow.count.toNat ≠ 0 := fun zero => last (BitVec.eq_of_toNat_eq zero)
              bv_omega
            simpa [mpyop, clockSlow, Slowmpy.slowmpy, Slowmpy.preDone, left, busy, almost, last] using counts

@[simp] theorem clocked_mpyop (m : Mpyop) (reset : Bool) (i : MpyInputs) : (m.mpyop reset i).clocked = m.clocked := by
  cases m <;> rfl

end Mpyop

end IcoZip.Zipcore
