import IcoZip.Zipcore.Mpyop

/-! The arithmetic unit `cpuops`, around the multiplier. -/

set_option autoImplicit false

namespace IcoZip.Zipcore

structure Cpuops where
  oC : BitVec 32
  c : Bool
  preSign : Bool
  setOvfl : Bool
  keepSgnOnOvfl : Bool
  busy : Bool
  valid : Bool
  mpy : Mpyop
  deriving DecidableEq, Repr, Inhabited

namespace Cpuops

structure Inputs where
  stb : Bool
  op : BitVec 4
  a : BitVec 32
  b : BitVec 32

/-! ### Shifts -/

section Shifts
variable (optShifts : Bool) (a b : BitVec 32)

/-- The upper bits of a shift amount leave nothing of the word. -/
def shiftsOut : Bool := b.extractLsb' 6 26 != 0 || b.getLsbD 5 && b.extractLsb' 0 5 != 0

def wAsrResult : BitVec 33 :=
  if optShifts then
    if b.extractLsb' 5 27 != 0 then (a.extractLsb' 31 1).signExtend 33
    else (a ++ 0b0#1 : BitVec 33).sshiftRight (b.extractLsb' 0 5).toNat
  else (a.extractLsb' 31 1 ++ a : BitVec 33)

def wLsrResult : BitVec 33 :=
  if optShifts then
    if shiftsOut b then 0
    else if b.getLsbD 5 then (0#32 ++ a.extractLsb' 31 1 : BitVec 33)
    else (a ++ 0b0#1 : BitVec 33) >>> (b.extractLsb' 0 5).toNat
  else (0b0#1 ++ a : BitVec 33)

def wLslResult : BitVec 33 :=
  if optShifts then
    if shiftsOut b then 0
    else if b.getLsbD 5 then (a.extractLsb' 0 1 ++ 0#32 : BitVec 33)
    else (0b0#1 ++ a : BitVec 33) <<< (b.extractLsb' 0 5).toNat
  else (a ++ 0b0#1 : BitVec 33)

end Shifts

/-- The carry and the result of an operation, as `{ c, o_c }`. -/
def result (optShifts : Bool) (op : BitVec 4) (a b : BitVec 32) (mpy : BitVec 64) : BitVec 33 :=
  if op = 0x0#4 then (0b0#1 ++ a) - (0b0#1 ++ b)
  else if op = 0x1#4 then 0b0#1 ++ (a &&& b)
  else if op = 0x2#4 then (0b0#1 ++ a) + (0b0#1 ++ b)
  else if op = 0x3#4 then 0b0#1 ++ (a ||| b)
  else if op = 0x4#4 then 0b0#1 ++ (a ^^^ b)
  else if op = 0x5#4 then (wLsrResult optShifts a b).extractLsb' 0 1 ++ (wLsrResult optShifts a b).extractLsb' 1 32
  else if op = 0x6#4 then wLslResult optShifts a b
  else if op = 0x7#4 then (wAsrResult optShifts a b).extractLsb' 0 1 ++ (wAsrResult optShifts a b).extractLsb' 1 32
  else if op = 0x8#4 then 0b0#1 ++ b.reverse
  else if op = 0x9#4 then 0b0#1 ++ (a.extractLsb' 16 16 ++ b.extractLsb' 0 16)
  else if op = 0xa#4 ∨ op = 0xb#4 then 0b0#1 ++ mpy.extractLsb' 32 32
  else if op = 0xc#4 then 0b0#1 ++ mpy.extractLsb' 0 32
  else 0b0#1 ++ b

variable (optShifts : Bool) (s : Cpuops) (reset : Bool) (i : Inputs)

def thisIsAMultiplyOp : Bool := i.stb && (i.op.extractLsb' 1 3 == 0x5#3 || i.op == 0xc#4)

def mpyInputs : MpyInputs := ⟨thisIsAMultiplyOp i, i.op.extractLsb' 0 2, i.a, i.b⟩

/-- An addition or a subtraction that may overflow. -/
def mayOverflow : Bool :=
  i.op == 0x0#4 && i.a.msb != i.b.msb || i.op == 0x2#4 && i.a.msb == i.b.msb

/-- The flags, as `VNCZ`. -/
def flags : BitVec 4 :=
  BitVec.ofBool (s.setOvfl && s.preSign != s.oC.msb) ++
    BitVec.ofBool (s.oC.msb != (s.keepSgnOnOvfl && s.preSign != s.oC.msb)) ++
    BitVec.ofBool s.c ++ BitVec.ofBool (s.oC == 0)

/-- One clock of `cpuops`. -/
def cpuops : Cpuops where
  oC :=
    if i.stb then (result optShifts i.op i.a i.b (s.mpy.result (mpyInputs i))).extractLsb' 0 32
    else if s.mpy.hi (mpyInputs i) then (s.mpy.result (mpyInputs i)).extractLsb' 32 32
    else (s.mpy.result (mpyInputs i)).extractLsb' 0 32
  c := if i.stb then (result optShifts i.op i.a i.b (s.mpy.result (mpyInputs i))).getLsbD 32 else s.c
  preSign := if i.stb then i.a.msb else s.preSign
  setOvfl := if i.stb then mayOverflow i || i.op == 0x6#4 || i.op == 0x5#4 else s.setOvfl
  keepSgnOnOvfl := if i.stb then mayOverflow i else s.keepSgnOnOvfl
  busy := !reset && s.mpy.clocked && (thisIsAMultiplyOp i || s.mpy.busy)
  valid :=
    !reset && if s.mpy.clocked then i.stb && !thisIsAMultiplyOp i || s.mpy.valid (mpyInputs i) else i.stb
  mpy := s.mpy.mpyop reset (mpyInputs i)

/-- While a multiplication is on its way, the unit is busy. -/
def Steady : Prop := s.mpy.clocked = true → s.mpy.pending = true → s.busy = true

/-- Nothing is on its way, and nothing comes out. -/
structure Idle : Prop where
  busy : s.busy = false
  valid : s.valid = false

variable {s}

theorem steady_cpuops : (s.cpuops optShifts reset i).Steady := by
  intro clocked pending
  obtain ⟨free, begun, clocked⟩ := Mpyop.pending_mpyop s.mpy reset (mpyInputs i) pending
  simp only [Cpuops.cpuops, free, clocked, Bool.not_false, Bool.true_and]
  exact begun

theorem cpuops_reset : (s.cpuops optShifts true i).Idle := ⟨rfl, rfl⟩

theorem Steady.unpending (steady : s.Steady) (free : s.busy = false) (clocked : s.mpy.clocked = true) :
    ¬s.mpy.pending = true := by
  intro pending
  simp [steady clocked pending] at free

/-- A unit that is not busy gets busy with a multiplication only. -/
theorem Steady.single (steady : s.Steady) (free : s.busy = false) (single : thisIsAMultiplyOp i = false) :
    (s.cpuops optShifts reset i).busy = false := by
  by_cases clocked : s.mpy.clocked = true
  · have still : s.mpy.busy = false := by
      by_contra busy
      exact steady.unpending free clocked (Mpyop.busy_pending s.mpy (Bool.not_eq_false _ ▸ busy))
    simp [Cpuops.cpuops, single, still]
  · simp [Cpuops.cpuops, clocked]

/-- A unit that is not busy has nothing more to say, unless it is asked. -/
theorem Steady.idle (steady : s.Steady) (free : s.busy = false) (unasked : i.stb = false) :
    (s.cpuops optShifts reset i).Idle := by
  refine ⟨steady.single optShifts reset i free (by simp [thisIsAMultiplyOp, unasked]), ?_⟩
  by_cases clocked : s.mpy.clocked = true
  · have silent : s.mpy.valid (mpyInputs i) = false := by
      by_contra valid
      exact steady.unpending free clocked (Mpyop.valid_pending s.mpy _ clocked (Bool.not_eq_false _ ▸ valid))
    simp [Cpuops.cpuops, clocked, silent, unasked]
  · simp [Cpuops.cpuops, clocked, unasked]

/-- How many clocks are left before the unit is free. -/
def left (s : Cpuops) : Nat := if s.busy then s.mpy.left + 1 else 0

theorem left_cpuops (unasked : i.stb = false) (busy : s.busy = true) : (s.cpuops optShifts reset i).left < s.left := by
  have single : (mpyInputs i).stb = false := by simp [mpyInputs, thisIsAMultiplyOp, unasked]
  have shrinks := s.mpy.left_mpyop reset (mpyInputs i) single
  have here : s.left = s.mpy.left + 1 := by simp [left, busy]
  rw [here]
  cases next : (s.cpuops optShifts reset i).busy with
  | true =>
    have more : 0 < s.mpy.left := by
      refine s.mpy.busy_left ?_
      simp only [mpyInputs] at single
      simp only [Cpuops.cpuops, single, Bool.false_or, Bool.and_eq_true] at next
      exact next.2
    have there : (s.cpuops optShifts reset i).left = (s.mpy.mpyop reset (mpyInputs i)).left + 1 := by
      rw [left, next]
      rfl
    omega
  | false => simp [left, next]

theorem Steady.left_cpuops (steady : s.Steady) (unasked : i.stb = false) :
    (s.cpuops optShifts reset i).left ≤ s.left := by
  cases busy : s.busy with
  | true => exact Nat.le_of_lt (Cpuops.left_cpuops optShifts reset i unasked busy)
  | false => simp [left, (steady.idle optShifts reset i busy unasked).busy]

end Cpuops

end IcoZip.Zipcore
