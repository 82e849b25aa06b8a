import IcoZip.Library.Clocked
import IcoZip.Library.Fields
import IcoZip.Zipcore.Idecode
import Mathlib.Data.List.Forall2
import Mathlib.Data.List.Range

/-! The decoder behind a fetch unit: every word gives its instructions, a compressed one its two halves.

The second half waits in a register of the decoder while the next word may stand at its input already.
-/

set_option autoImplicit false

namespace IcoZip.Zipcore

namespace Idecode

/-! ### The fields of a half -/

/-- A compressed instruction as the upper half of a word. -/
def halfWord (half : BitVec 16) : BitVec 32 := half ++ 0#16

/-- The fields as far as they mean something: the immediate of a simulation instruction is there for these alone. -/
def Fields.told (f : Fields) : Fields := { f with simImmv := if f.sim then f.simImmv else 0 }

section Same
variable {o : Options} {x y : BitVec 32} {gie : Bool}

/-- Two words with one upper half. -/
def SameHalf (x y : BitVec 32) : Prop := x.extractLsb' 16 16 = y.extractLsb' 16 16

theorem SameHalf.field (same : SameHalf x y) (p l : Nat) (inside : p + l ≤ 16) :
    x.extractLsb' (16 + p) l = y.extractLsb' (16 + p) l := by
  rw [← Fields.nested x 16 inside, ← Fields.nested y 16 inside, same]

theorem SameHalf.bit (same : SameHalf x y) (p : Nat) (inside : p < 16) :
    x.getLsbD (16 + p) = y.getLsbD (16 + p) := by
  have bits := congrArg (fun half : BitVec 16 => half.getLsbD p) same
  simpa only [BitVec.getLsbD_extractLsb', inside, decide_true, Bool.true_and] using bits

variable (same : SameHalf x y) (compressed : Idecode.cis x = true)
include same

theorem SameHalf.cis : Idecode.cis x = Idecode.cis y := same.bit 15 (by decide)

theorem SameHalf.wOp : Idecode.wOp x = Idecode.wOp y := same.field 6 5 (by decide)

theorem SameHalf.wCisOp : Idecode.wCisOp o x = Idecode.wCisOp o y := by
  have code : x.extractLsb' 24 3 = y.extractLsb' 24 3 := same.field 8 3 (by decide)
  rw [Idecode.wCisOp, Idecode.wCisOp, same.cis, same.wOp, code]

theorem SameHalf.wDcdR : Idecode.wDcdR o x gie = Idecode.wDcdR o y gie := by
  have user : x.getLsbD 18 = y.getLsbD 18 := same.bit 2 (by decide)
  have reg : x.extractLsb' 27 4 = y.extractLsb' 27 4 := same.field 11 4 (by decide)
  rw [Idecode.wDcdR, Idecode.wDcdR, wMov, wMov, same.cis, same.wCisOp, user, reg]

include compressed

/-- The lower half is nothing to the fields of the upper one. -/
theorem SameHalf.decode (optCis : o.optCis = true) :
    (Idecode.decode o x gie).told = (Idecode.decode o y gie).told := by
  have compressed' : Idecode.cis y = true := same.cis.symm.trans compressed
  have selects : x.getLsbD 23 = y.getLsbD 23 := same.bit 7 (by decide)
  have stack : x.extractLsb' 25 2 = y.extractLsb' 25 2 := same.field 9 2 (by decide)
  have reg : x.extractLsb' 19 4 = y.extractLsb' 19 4 := same.field 3 4 (by decide)
  have code : x.extractLsb' 24 3 = y.extractLsb' 24 3 := same.field 8 3 (by decide)
  have imm8 : x.extractLsb' 16 8 = y.extractLsb' 16 8 := same.field 0 8 (by decide)
  have imm7 : x.extractLsb' 16 7 = y.extractLsb' 16 7 := same.field 0 7 (by decide)
  have imm3 : x.extractLsb' 16 3 = y.extractLsb' 16 3 := same.field 0 3 (by decide)
  have imm : wI o x = wI o y := by
    simp only [wI, wHalfI, compressed, compressed', optCis, code, imm8, imm7, imm3, selects, Bool.and_self, if_true]
  have regB : wDcdB o x gie = wDcdB o y gie := by
    simp only [wDcdB, compressed, compressed', selects, stack, reg, Bool.not_true, Bool.false_and, Bool.false_eq_true,
      if_true, if_false]
  have special (z : BitVec 32) (long : Idecode.cis z = true) : wSpecial o z gie = false := by
    simp only [wSpecial, long, Bool.not_true, Bool.false_and]
  have div (z : BitVec 32) (long : Idecode.cis z = true) : wDiv z = false := by
    rw [wDiv, long, Bool.not_true, Bool.false_and]
  have fpu (z : BitVec 32) (long : Idecode.cis z = true) : wFpu o z gie = false := by
    simp only [wFpu, long, Bool.not_true, Bool.false_and]
  have cond (z : BitVec 32) (long : Idecode.cis z = true) : wCond o z gie = 0x8#4 := by
    simp only [wCond, long, Bool.or_true, if_true]
  have ldi : wLdi o x = wLdi o y := by rw [wLdi, wLdi, same.wCisOp]
  have mov : wMov o x = wMov o y := by rw [wMov, wMov, same.wCisOp]
  have brev : wBrev o x = wBrev o y := by rw [wBrev, wBrev, same.wCisOp]
  have ldilo : wLdilo o x = wLdilo o y := by rw [wLdilo, wLdilo, same.wCisOp]
  have cmptst : wCmptst o x = wCmptst o y := by rw [wCmptst, wCmptst, same.wCisOp]
  have alu : wALU o x = wALU o y := by rw [wALU, wALU, same.wCisOp]
  have mem : wMem o x = wMem o y := by rw [wMem, wMem, same.wCisOp]
  have sto : wSto o x = wSto o y := by rw [wSto, wSto, mem, same.wCisOp]
  have wR : wWR o x gie = wWR o y gie := by
    rw [wWR, wWR, sto, cmptst, special x compressed, special y compressed']
  have rA : wRA o x gie = wRA o y gie := by
    rw [wRA, wRA, fpu x compressed, fpu y compressed', div x compressed, div y compressed', alu, brev, mov, sto, cmptst]
  have rB : wRB o x gie = wRB o y gie := by
    simp only [wRB, mov, compressed, compressed', selects, ldi, mem, Bool.not_true, Bool.false_and]
  have wF : wWF o x gie = wWF o y gie := by
    rw [wWF, wWF, cmptst, cond x compressed, cond y compressed', fpu x compressed, fpu y compressed', div x compressed,
      div y compressed', alu, mov, ldilo, brev, same.wDcdR]
  have pcR : wDcdRPc o x gie = wDcdRPc o y gie := by rw [wDcdRPc, wDcdRPc, same.wDcdR]
  have ccR : wDcdRCc o x gie = wDcdRCc o y gie := by rw [wDcdRCc, wDcdRCc, same.wDcdR]
  have pcB : wDcdBPc o x gie = wDcdBPc o y gie := by rw [wDcdBPc, wDcdBPc, rB, regB]
  have ccB : wDcdBCc o x gie = wDcdBCc o y gie := by rw [wDcdBCc, wDcdBCc, rB, regB]
  have noop (z : BitVec 32) (long : Idecode.cis z = true) : wNoop o z gie = false := by
    rw [wNoop, special z long, Bool.false_and]
  have lock (z : BitVec 32) (long : Idecode.cis z = true) : wLock o z gie = false := by
    rw [wLock, special z long, Bool.false_and]
  have sim (z : BitVec 32) (long : Idecode.cis z = true) : wSim o z gie = false := by
    rw [wSim, special z long, Bool.false_and]
  have brk (z : BitVec 32) (long : Idecode.cis z = true) : wBreak o z gie = false := by
    rw [wBreak, special z long, Bool.false_and]
  rw [Fields.told, Fields.told, Idecode.decode, Idecode.decode]
  simp only [cond x compressed, cond y compressed', wF, ldi, noop x compressed, noop y compressed', lock x compressed,
    lock y compressed', same.wCisOp, same.wDcdR, ccR, pcR, regB, ccB, pcB, wR, rA, rB, imm, alu, cmptst, mem,
    div x compressed, div y compressed', fpu x compressed, fpu y compressed', brk x compressed, brk y compressed',
    sim x compressed, sim y compressed', Bool.or_false, Bool.and_false, Bool.false_eq_true, if_false]

end Same

theorem sameHalf_upper (x : BitVec 32) : SameHalf x (halfWord (x.extractLsb' 16 16)) := (Fields.first _ _).symm

/-- No compressed instruction is illegal by itself. -/
theorem illegalWord_cis {o : Options} (optCis : o.optCis = true) {x : BitVec 32} (compressed : cis x = true)
    (gie : Bool) : illegalWord o x x gie = false := by
  have codes : ∀ code : BitVec 3, ((cisOp code).extractLsb' 1 4 == 0x5#4 || cisOp code == 0x0c#5) = false ∧
      ((cisOp code).extractLsb' 1 4 == 0b1101#4) = false := by decide
  have code : wCisOp o x = cisOp (x.extractLsb' 24 3) := by rw [wCisOp, optCis, compressed]; rfl
  obtain ⟨mpy, special⟩ := codes (x.extractLsb' 24 3)
  simp only [illegalWord, wMpy, wSpecial, wDiv, wFpu, wSim, wLock, code, mpy, special, optCis, compressed,
    Bool.not_true,
    Bool.false_and, Bool.and_false, Bool.or_false]

/-! ### A fetch unit and its decoder -/

/-- A word that the fetch unit has to offer, or the error that came in its place. -/
structure Fetched where
  word : BitVec 32
  illegal : Bool
  deriving DecidableEq, Repr

def Fetched.pair (f : Fetched) : Bool := cis f.word && !f.illegal

/-- An instruction of the program, with the address behind it. -/
structure Instr (aw : Nat) where
  word : BitVec 32
  next : BitVec (aw + 2)
  first : Bool
  illegal : Bool
  deriving DecidableEq, Repr

/-- What a decoder shows of an instruction. -/
structure Output (aw : Nat) where
  fields : Fields
  pc : BitVec (aw + 2)
  illegal : Bool
  phase : Bool
  deriving DecidableEq, Repr

variable {aw : Nat}

def output (s : Idecode aw) : Output aw := ⟨s.dcd.told, s.pc, s.illegal, s.phase⟩

/-- What a clock brings: the enables, whether the fetch unit offers its word, and what stands on its wires if not. -/
structure Drive (aw : Nat) where
  ce : Bool
  stalled : Bool
  offers : Bool
  gie : Bool
  instruction : BitVec 32
  pc : BitVec (aw + 2)
  illegal : Bool

structure Bench (aw : Nat) where
  dcd : Idecode aw
  /-- How many words have been taken. -/
  taken : Nat
  deriving DecidableEq

/-! ### Addresses of words and halves -/

section Addresses
variable (a b : BitVec aw)

theorem toNat_quarter (q : BitVec 2) : (a ++ q).toNat = 4 * a.toNat + q.toNat := by
  rw [BitVec.toNat_append, ← Nat.shiftLeft_add_eq_or_of_lt q.isLt, Nat.shiftLeft_eq]
  omega

theorem four_pow (n : Nat) : 2 ^ (n + 2) = 4 * 2 ^ n := by rw [Nat.pow_add, Nat.mul_comm]

theorem quarter_add : (a ++ 0b00#2) + (b ++ 0b00#2) = (a + b) ++ 0b00#2 := by
  apply BitVec.eq_of_toNat_eq
  simp only [BitVec.toNat_add, toNat_quarter, BitVec.toNat_ofNat, Nat.zero_mod, Nat.add_zero, four_pow]
  rw [← Nat.mul_add, Nat.mul_mod_mul_left]

theorem quarter_ofNat (k : Nat) : BitVec.ofNat (aw + 2) (4 * k) = BitVec.ofNat aw k ++ 0b00#2 := by
  apply BitVec.eq_of_toNat_eq
  rw [toNat_quarter, BitVec.toNat_ofNat, BitVec.toNat_ofNat, four_pow, Nat.mul_mod_mul_left]
  rfl

theorem quarter_two : (a ++ 0b00#2) + 2 = a ++ 0b10#2 := by
  apply BitVec.eq_of_toNat_eq
  have bound := a.isLt
  have small : 2 < 2 ^ (aw + 2) := by
    rw [four_pow]
    omega
  have two : (2 : BitVec (aw + 2)).toNat = 2 := Nat.mod_eq_of_lt small
  rw [BitVec.toNat_add, toNat_quarter, toNat_quarter, two, four_pow]
  exact Nat.mod_eq_of_lt (by simp only [BitVec.toNat_ofNat]; omega)

theorem quarter_four : (a ++ 0b00#2) + 4 = (a + 1) ++ 0b00#2 :=
  (congrArg ((a ++ 0b00#2) + ·) (quarter_ofNat 1)).trans (quarter_add a 1)

/-- The next half, counted in halves. -/
theorem quarter_half : ((a ++ 0b10#2 : BitVec (aw + 2)).extractLsb' 1 (aw + 1) + 1) ++ 0b0#1 = (a + 1) ++ 0b00#2 := by
  apply BitVec.eq_of_toNat_eq
  have bound := a.isLt
  have half : ((a ++ 0b10#2 : BitVec (aw + 2)).extractLsb' 1 (aw + 1)).toNat = 2 * a.toNat + 1 := by
    have small : 2 * a.toNat + 1 < 2 ^ (aw + 1) := by
      rw [Nat.pow_succ]
      omega
    rw [BitVec.extractLsb'_toNat, toNat_quarter, Nat.shiftRight_eq_div_pow]
    have shifted : (4 * a.toNat + (0b10#2).toNat) / 2 ^ 1 = 2 * a.toNat + 1 := by
      simp only [BitVec.toNat_ofNat]
      omega
    rw [shifted, Nat.mod_eq_of_lt small]
  have one : (1 : BitVec (aw + 1)).toNat = 1 := Nat.mod_eq_of_lt (Nat.one_lt_two_pow (Nat.succ_ne_zero aw))
  have unit : (a + 1).toNat = (a.toNat + 1) % 2 ^ aw := by
    rw [BitVec.toNat_add]
    exact Nat.add_mod_mod _ _ _
  have twice : 2 * a.toNat + 1 + 1 = 2 * (a.toNat + 1) := by omega
  rw [BitVec.toNat_append, toNat_quarter, BitVec.toNat_add, half, one, unit, twice, Nat.pow_succ', Nat.mul_mod_mul_left,
    Nat.shiftLeft_eq, BitVec.toNat_ofNat, BitVec.toNat_ofNat, Nat.zero_mod, Nat.or_zero]
  omega

end Addresses

section Fetch
variable (o : Options) (words : Nat → Fetched) (base : BitVec aw)

/-- The words stand at consecutive addresses. -/
def address (k : Nat) : BitVec (aw + 2) := base ++ 0b00#2 + BitVec.ofNat (aw + 2) (4 * k)

/-- One instruction for a word, and two for a compressed one. -/
def instrs (k : Nat) : List (Instr aw) :=
  if (words k).pair then
    [⟨halfWord ((words k).word.extractLsb' 16 16), address base k + 2, true, false⟩,
      ⟨halfWord (0b1#1 ++ (words k).word.extractLsb' 0 15), address base k + 4, false, false⟩]
  else
    [⟨(words k).word, if cis (words k).word then address base k + 2 else address base k + 4, false,
      (words k).illegal⟩]

def program (n : Nat) : List (Instr aw) := (List.range n).flatMap (instrs words base)

/-- A decoder shows an instruction, in the mode of the clock that took it in. -/
structure Presents (ins : Instr aw) (shown : Bool × Output aw) : Prop where
  fields : shown.2.fields = (decode o ins.word shown.1).told
  pc : shown.2.pc = ins.next
  illegal : shown.2.illegal = (illegalWord o ins.word ins.word shown.1 || ins.illegal)
  phase : shown.2.phase = ins.first

namespace Bench

variable (b : Bench aw) (x : Drive aw)

def inputs : Inputs aw where
  reset := false
  ce := x.ce
  stalled := x.stalled
  instruction := if x.offers then (words b.taken).word else x.instruction
  gie := x.gie
  pc := if x.offers then address base b.taken else x.pc
  pfValid := x.offers
  illegal := if x.offers then (words b.taken).illegal else x.illegal

/-- The fetch unit goes on when its word is taken: with `i_ce`, outside the second half of a pair. -/
def takes : Bool := x.ce && !b.dcd.phase && x.offers

def step : Bench aw where
  dcd := b.dcd.idecode o (b.inputs words base x)
  taken := if b.takes x then b.taken + 1 else b.taken

/-- A new output, with the mode it was decoded in. -/
def presented : List (Bool × Output aw) :=
  if x.ce && (b.step o words base x).dcd.valid then [(x.gie, output (b.step o words base x).dcd)] else []

/-- The second half that is still to come. -/
def rest : List (Instr aw) := if b.dcd.phase then (instrs words base (b.taken - 1)).tail else []

structure Fresh : Prop where
  valid : b.dcd.valid = false
  phase : b.dcd.phase = false
  ljmp : b.dcd.ljmp = false
  earlyBranchStb : b.dcd.earlyBranchStb = false
  taken : b.taken = 0

end Bench

theorem address_eq (k : Nat) : address base k = (base + BitVec.ofNat aw k) ++ 0b00#2 := by
  rw [address, quarter_ofNat, quarter_add]

theorem address_first (k : Nat) : (address base k).extractLsb' 2 aw ++ 0b10#2 = address base k + 2 := by
  rw [address_eq, Fields.first, quarter_two]

theorem address_next (k : Nat) : nextWord (address base k) = address base k + 4 := by
  rw [address_eq, nextWord, Fields.first, quarter_four]

/-- The address of a second half, counted from the first one. -/
theorem address_second (k : Nat) :
    ((address base k + 2).extractLsb' 1 (aw + 1) + 1) ++ 0b0#1 = address base k + 4 := by
  rw [address_eq, quarter_two, quarter_half, quarter_four]

/-! ### What a clock does -/

/-- A pipelined decoder of compressed instructions that leaves branches to the core. -/
structure Compressing (o : Options) : Prop where
  cis : o.optCis = true
  pipelined : o.optPipelined = true
  late : o.optEarlyBranching = false

namespace Bench

/-- Between the halves of a pair, the second one waits with all that it needs. -/
structure Halfway (b : Bench aw) : Prop where
  some : 0 < b.taken
  pair : (words (b.taken - 1)).pair = true
  half : b.dcd.nxtHalf = (words (b.taken - 1)).word.extractLsb' 0 15
  pc : b.dcd.pc = address base (b.taken - 1) + 2
  illegal : b.dcd.illegal = false

structure Good (b : Bench aw) : Prop where
  ljmp : b.dcd.ljmp = false
  earlyBranchStb : b.dcd.earlyBranchStb = false
  halfway : b.dcd.phase = true → b.Halfway words base

variable {o words base} {b : Bench aw} {x : Drive aw}

theorem Fresh.good (fresh : b.Fresh) : b.Good words base where
  ljmp := fresh.ljmp
  earlyBranchStb := fresh.earlyBranchStb
  halfway := fun phase => absurd (fresh.phase.symm.trans phase) Bool.false_ne_true

section Clock
variable (good : b.Good words base)
include good

theorem pfValid_eq : b.dcd.pfValid (b.inputs words base x) = x.offers := by
  rw [pfValid, good.earlyBranchStb, Bool.not_false, Bool.and_true]
  rfl

theorem phase_step (compressing : Compressing o) : (b.step o words base x).dcd.phase =
    if x.ce then x.offers && (!b.dcd.phase && (words b.taken).pair) else b.dcd.phase := by
  show b.dcd.nextPhase o (b.inputs words base x) = _
  rw [nextPhase, pfValid_eq good, compressing.cis, good.ljmp]
  cases on : x.ce <;> cases offers : x.offers <;> simp [inputs, Fetched.pair, on, offers]

theorem valid_step (compressing : Compressing o) : (b.step o words base x).dcd.valid =
    if x.ce then x.offers || b.dcd.phase else x.stalled && b.dcd.valid := by
  show b.dcd.nextValid o (b.inputs words base x) = _
  rw [nextValid, pfValid_eq good, compressing.pipelined, good.ljmp]
  cases on : x.ce <;> cases stalled : x.stalled <;> simp [inputs, on, stalled]

omit good in
/-- Without `i_ce`, the output stays. -/
theorem output_step (phase : (b.step o words base x).dcd.phase = b.dcd.phase) (off : x.ce = false) :
    output (b.step o words base x).dcd = output b.dcd := by
  have fields : (b.step o words base x).dcd.dcd = b.dcd.dcd := by
    show (if (b.inputs words base x).ce then _ else b.dcd.dcd) = _
    rw [inputs, off]
    rfl
  have pc : (b.step o words base x).dcd.pc = b.dcd.pc := by
    show b.dcd.nextPc o (b.inputs words base x) = _
    rw [nextPc, inputs, off]
    rfl
  have illegal : (b.step o words base x).dcd.illegal = b.dcd.illegal := by
    show b.dcd.nextIllegal o (b.inputs words base x) = _
    rw [nextIllegal, inputs, off]
    rfl
  rw [output, output, fields, pc, illegal, phase]

omit good in
/-- With `i_ce`, the fields are the ones of the word that is decoded. -/
theorem fields_step (on : x.ce = true) :
    (b.step o words base x).dcd.dcd = decode o (b.dcd.iword o (b.inputs words base x)) x.gie := by
  show (if (b.inputs words base x).ce then decode o (b.dcd.iword o _) x.gie else b.dcd.dcd) = _
  rw [inputs, on, if_pos rfl]

/-- The second half is shown as an instruction of its own. -/
theorem second_step (compressing : Compressing o) (on : x.ce = true) (phase : b.dcd.phase = true) :
    List.Forall₂ (Presents o) (instrs words base (b.taken - 1)).tail
      [(x.gie, output (b.step o words base x).dcd)] := by
  have halfway := good.halfway phase
  have word : b.dcd.iword o (b.inputs words base x) =
      (0b1#1 ++ (words (b.taken - 1)).word.extractLsb' 0 15) ++
        (b.inputs words base x).instruction.extractLsb' 0 16 := by
    rw [iword, compressing.cis, phase, halfway.half]
    rfl
  have compressed (low : BitVec 16) :
      cis ((0b1#1 ++ (words (b.taken - 1)).word.extractLsb' 0 15 : BitVec 16) ++ low) = true := by
    rw [cis, BitVec.getLsbD_append, if_neg (by decide), BitVec.getLsbD_append, if_neg (by decide)]
    rfl
  have same (low : BitVec 16) : SameHalf ((0b1#1 ++ (words (b.taken - 1)).word.extractLsb' 0 15 : BitVec 16) ++ low)
      (halfWord (0b1#1 ++ (words (b.taken - 1)).word.extractLsb' 0 15)) :=
    (Fields.first _ low).trans (Fields.first _ _).symm
  rw [instrs, if_pos halfway.pair]
  refine List.Forall₂.cons ⟨?_, ?_, ?_, ?_⟩ List.Forall₂.nil
  · show Fields.told (b.step o words base x).dcd.dcd = _
    rw [fields_step on, word]
    exact (same _).decode (compressed _) compressing.cis
  · show b.dcd.nextPc o (b.inputs words base x) = address base (b.taken - 1) + 4
    have enabled : ((b.inputs words base x).ce && (b.dcd.phase || (b.inputs words base x).pfValid)) = true := by
      rw [inputs, on, phase]
      rfl
    rw [nextPc, if_pos enabled, compressing.cis, word, compressed, phase, halfway.pc]
    exact address_second base (b.taken - 1)
  · have own := illegalWord_cis compressing.cis (compressed 0#16) x.gie
    refine Eq.trans ?_ (congrArg (· || false) own).symm
    show b.dcd.nextIllegal o (b.inputs words base x) = false
    rw [nextIllegal, inputs, on, phase]
    exact halfway.illegal
  · show (b.step o words base x).dcd.phase = false
    rw [phase_step good compressing, on, phase, Bool.not_true, Bool.false_and, Bool.and_false]
    rfl

/-- A word that is taken in shows its first instruction. -/
theorem first_step (compressing : Compressing o) (on : x.ce = true) (phase : b.dcd.phase = false)
    (offers : x.offers = true) :
    List.Forall₂ (Presents o) ((instrs words base b.taken).take 1)
      [(x.gie, output (b.step o words base x).dcd)] := by
  have word : b.dcd.iword o (b.inputs words base x) = (words b.taken).word := by
    rw [iword, compressing.cis, phase, inputs, offers]
    rfl
  have pc : (b.step o words base x).dcd.pc =
      if cis (words b.taken).word then address base b.taken + 2 else address base b.taken + 4 := by
    show b.dcd.nextPc o (b.inputs words base x) = _
    have enabled : ((b.inputs words base x).ce && (b.dcd.phase || (b.inputs words base x).pfValid)) = true := by
      rw [inputs, on, phase, offers]
      rfl
    have place : (b.inputs words base x).pc = address base b.taken := by
      show (if x.offers then _ else x.pc) = _
      rw [offers, if_pos rfl]
    rw [nextPc, if_pos enabled, compressing.cis, word, phase, place, address_first, address_next]
    rfl
  have illegal : (b.step o words base x).dcd.illegal =
      (illegalWord o (words b.taken).word (words b.taken).word x.gie || (words b.taken).illegal) := by
    show b.dcd.nextIllegal o (b.inputs words base x) = _
    rw [nextIllegal, word, inputs, on, phase, offers]
    rfl
  have next : (b.step o words base x).dcd.phase = (words b.taken).pair := by
    rw [phase_step good compressing, on, phase, offers]
    rfl
  cases pair : (words b.taken).pair with
  | true =>
    obtain ⟨compressed, fine⟩ : cis (words b.taken).word = true ∧ (words b.taken).illegal = false := by
      simpa [Fetched.pair] using pair
    have same := sameHalf_upper (words b.taken).word
    rw [instrs, if_pos pair]
    refine List.Forall₂.cons ⟨?_, ?_, ?_, ?_⟩ List.Forall₂.nil
    · show Fields.told (b.step o words base x).dcd.dcd = _
      rw [fields_step on, word]
      exact same.decode compressed compressing.cis
    · exact pc.trans (if_pos compressed)
    · show (b.step o words base x).dcd.illegal = _
      rw [illegal, fine, illegalWord_cis compressing.cis compressed,
        illegalWord_cis compressing.cis (same.cis.symm.trans compressed)]
    · exact next.trans pair
  | false =>
    rw [instrs, if_neg (by rw [pair]; decide)]
    refine List.Forall₂.cons ⟨?_, pc, illegal, next.trans pair⟩ List.Forall₂.nil
    show Fields.told (b.step o words base x).dcd.dcd = _
    rw [fields_step on, word]

theorem good_step (compressing : Compressing o) : (b.step o words base x).Good words base := by
  refine ⟨?_, ?_, fun phase' => ?_⟩
  · show b.dcd.nextLjmp o (b.inputs words base x) = false
    rw [nextLjmp, compressing.late]
    rfl
  · show b.dcd.nextEarlyBranchStb o (b.inputs words base x) = false
    rw [nextEarlyBranchStb, compressing.late]
    rfl
  · rw [phase_step good compressing] at phase'
    -- A second half waits behind a pair that has just been taken, or one that is held.
    cases on : x.ce with
    | true =>
      obtain ⟨offers, free, pair⟩ : x.offers = true ∧ b.dcd.phase = false ∧ (words b.taken).pair = true := by
        simpa [on] using phase'
      have taken : (b.step o words base x).taken = b.taken + 1 := by
        show (if b.takes x then b.taken + 1 else b.taken) = _
        rw [takes, on, free, offers]
        rfl
      have word : b.dcd.iword o (b.inputs words base x) = (words b.taken).word := by
        rw [iword, compressing.cis, free, inputs, offers]
        rfl
      have shown := first_step good compressing on free offers
      rw [instrs, if_pos pair] at shown
      obtain ⟨presents, -⟩ := List.forall₂_cons.mp shown
      obtain ⟨compressed, -⟩ : cis (words b.taken).word = true ∧ (words b.taken).illegal = false := by
        simpa [Fetched.pair] using pair
      have own := illegalWord_cis compressing.cis ((sameHalf_upper _).cis.symm.trans compressed) x.gie
      refine ⟨by omega, ?_, ?_, ?_, ?_⟩
      · rw [taken]
        exact pair
      · rw [taken]
        show (if (b.inputs words base x).ce then
          if o.optCis then (b.dcd.iword o (b.inputs words base x)).extractLsb' 0 15 else 0 else b.dcd.nxtHalf) = _
        rw [word, inputs, on, compressing.cis]
        rfl
      · rw [taken]
        exact presents.pc
      · exact presents.illegal.trans (congrArg (· || false) own)
    | false =>
      rw [on, if_neg Bool.false_ne_true] at phase'
      have halfway := good.halfway phase'
      have kept : (b.step o words base x).dcd.phase = b.dcd.phase := by
        rw [phase_step good compressing, on]
        rfl
      have still := output_step kept on
      have taken : (b.step o words base x).taken = b.taken := by
        show (if b.takes x then b.taken + 1 else b.taken) = _
        rw [takes, on]
        rfl
      refine ⟨by rw [taken]; exact halfway.some, by rw [taken]; exact halfway.pair, ?_, ?_, ?_⟩
      · rw [taken, ← halfway.half]
        show (if (b.inputs words base x).ce then _ else b.dcd.nxtHalf) = _
        rw [inputs, on]
        rfl
      · rw [taken, ← halfway.pc]
        exact congrArg Output.pc still
      · rw [← halfway.illegal]
        exact congrArg Output.illegal still

end Clock

/-! ### Runs -/

variable (o words base)

/-- The instruction that a clock decodes. -/
def due (b : Bench aw) (x : Drive aw) : List (Instr aw) :=
  if x.ce then
    if b.dcd.phase then (instrs words base (b.taken - 1)).tail
    else if x.offers then (instrs words base b.taken).take 1 else []
  else []

/-- The instructions of a word that is taken. -/
def fetched (b : Bench aw) (x : Drive aw) : List (Instr aw) := if b.takes x then instrs words base b.taken else []

variable {o words base}

theorem presents_due (compressing : Compressing o) (good : b.Good words base) :
    List.Forall₂ (Presents o) (b.due words base x) (b.presented o words base x) := by
  rw [due, presented, valid_step good compressing]
  cases on : x.ce with
  | false => exact List.Forall₂.nil
  | true =>
    cases phase : b.dcd.phase with
    | true =>
      rw [Bool.or_true]
      exact second_step good compressing on phase
    | false =>
      cases offers : x.offers with
      | true => exact first_step good compressing on phase offers
      | false => exact List.Forall₂.nil

/-- What is decoded and what is still to come is what has been fetched. -/
theorem due_rest (compressing : Compressing o) (good : b.Good words base) :
    b.due words base x ++ (b.step o words base x).rest words base = b.rest words base ++ b.fetched words base x := by
  rw [due, rest, rest, fetched, takes, phase_step good compressing]
  show _ ++ (if _ then (instrs words base ((if b.takes x then b.taken + 1 else b.taken) - 1)).tail else []) = _
  rw [takes]
  cases on : x.ce with
  | false => simp
  | true =>
    cases phase : b.dcd.phase with
    | true => simp
    | false =>
      cases offers : x.offers with
      | false => simp
      | true =>
        cases pair : (words b.taken).pair <;> simp [instrs, pair]

theorem program_fetched (b : Bench aw) (xs : List (Drive aw)) :
    program words base b.taken ++ Clocked.emitted (step o words base) (fetched words base) b xs =
      program words base (Clocked.run (step o words base) b xs).taken := by
  induction xs generalizing b with
  | nil => exact List.append_nil _
  | cons x xs ih =>
    rw [Clocked.emitted_cons, Clocked.run_cons, ← ih, ← List.append_assoc]
    congr 1
    rw [fetched]
    show _ = program words base (if b.takes x then b.taken + 1 else b.taken)
    cases b.takes x with
    | true => simp [program, List.range_succ]
    | false => simp

theorem run_good (compressing : Compressing o) (good : b.Good words base) (xs : List (Drive aw)) :
    (Clocked.run (step o words base) b xs).Good words base := by
  induction xs generalizing b with
  | nil => exact good
  | cons x xs ih => exact ih (good_step good compressing)

/-- The output registers hold the last instruction that has been shown, as long as it is valid and, before its second
half, even longer. -/
theorem last_shown (compressing : Compressing o) (fresh : b.Fresh) (xs : List (Drive aw)) :
    (Clocked.run (step o words base) b xs).dcd.valid = true ∨ (Clocked.run (step o words base) b xs).dcd.phase = true →
      ∃ gie, (Clocked.emitted (step o words base) (presented o words base) b xs).getLast? =
        some (gie, output (Clocked.run (step o words base) b xs).dcd) := by
  induction xs using List.reverseRecOn with
  | nil =>
    rintro (valid | phase)
    · exact absurd (fresh.valid.symm.trans valid) Bool.false_ne_true
    · exact absurd (fresh.phase.symm.trans phase) Bool.false_ne_true
  | append_singleton xs x ih =>
    have good : (Clocked.run (step o words base) b xs).Good words base := run_good compressing fresh.good xs
    rw [Clocked.run_append, Clocked.emitted_append, Clocked.run_cons, Clocked.run_nil, Clocked.emitted_cons,
      Clocked.emitted_nil, List.append_nil]
    generalize Clocked.run (step o words base) b xs = c at ih good ⊢
    have phase := phase_step (x := x) good compressing
    have valid := valid_step (x := x) good compressing
    intro shows
    cases on : x.ce with
    | true =>
      rw [on, if_pos rfl] at phase valid
      have valid' : (c.step o words base x).dcd.valid = true := by
        obtain here | here := shows
        · exact here
        · rw [phase, Bool.and_eq_true] at here
          rw [valid, here.1]
          rfl
      refine ⟨x.gie, ?_⟩
      rw [presented, on, valid']
      exact List.getLast?_concat
    | false =>
      rw [on, if_neg Bool.false_ne_true] at phase valid
      have still : c.dcd.valid = true ∨ c.dcd.phase = true := by
        rw [phase, valid, Bool.and_eq_true] at shows
        exact shows.imp_left And.right
      rw [presented, on, output_step phase on]
      simpa using ih still

/-- Where an output that is not stalled is always replaced, the first half of a pair is there until the second one
comes. -/
theorem phase_valid (compressing : Compressing o) (good : b.Good words base)
    (there : b.dcd.phase = true → b.dcd.valid = true) {xs : List (Drive aw)}
    (driven : ∀ x ∈ xs, x.stalled = false → x.ce = true) :
    (Clocked.run (step o words base) b xs).dcd.phase = true →
      (Clocked.run (step o words base) b xs).dcd.valid = true := by
  induction xs generalizing b with
  | nil => exact there
  | cons x xs ih =>
    obtain ⟨now, later⟩ := List.forall_mem_cons.mp driven
    refine ih (good_step good compressing) (fun phase => ?_) later
    rw [phase_step good compressing] at phase
    rw [valid_step good compressing]
    cases on : x.ce with
    | true =>
      rw [on, if_pos rfl, Bool.and_eq_true] at phase
      rw [if_pos rfl, phase.1, Bool.true_or]
    | false =>
      rw [on, if_neg Bool.false_ne_true] at phase
      have stalled : x.stalled = true := by
        by_contra free
        exact Bool.false_ne_true (on.symm.trans (now (Bool.eq_false_iff.mpr free)))
      rw [if_neg Bool.false_ne_true, stalled, there phase, Bool.and_self]

/-- The outputs are the instructions of the words that have been fetched, in order, but for the second half that is to
come while `o_phase` is high; `o_phase` belongs to the first half for as long as that is in the output registers. -/
theorem decodes_in_order (compressing : Compressing o) (fresh : b.Fresh) (xs : List (Drive aw)) :
    (∃ due : List (Instr aw),
      due ++ (Clocked.run (step o words base) b xs).rest words base =
        program words base (Clocked.run (step o words base) b xs).taken ∧
      List.Forall₂ (Presents o) due (Clocked.emitted (step o words base) (presented o words base) b xs)) ∧
    ((Clocked.run (step o words base) b xs).dcd.valid = true ∨
        (Clocked.run (step o words base) b xs).dcd.phase = true →
      ∃ gie, (Clocked.emitted (step o words base) (presented o words base) b xs).getLast? =
        some (gie, output (Clocked.run (step o words base) b xs).dcd)) ∧
    ((∀ x ∈ xs, x.stalled = false → x.ce = true) → (Clocked.run (step o words base) b xs).dcd.phase = true →
      (Clocked.run (step o words base) b xs).dcd.valid = true) := by
  refine ⟨⟨Clocked.emitted (step o words base) (due words base) b xs, ?_, ?_⟩, last_shown compressing fresh xs, ?_⟩
  · have order := @Clocked.conservation _ _ _ (step o words base) (fun _ _ => True) (fun b => b.Good words base)
      (due words base) (fetched words base) (fun b => b.rest words base) (fun _ _ good _ => good_step good compressing)
      (fun _ _ good _ => due_rest compressing good) b xs fresh.good (Clocked.always_of_forall (fun _ _ => trivial) b xs)
    have start : b.rest words base = [] := by
      rw [rest, fresh.phase]
      rfl
    have whole := @program_fetched aw o words base b xs
    have nothing : program words base b.taken = [] := by
      rw [fresh.taken]
      rfl
    rw [nothing, List.nil_append] at whole
    rw [order, start, List.nil_append, whole]
  · exact @Clocked.emitted_forall₂ _ _ _ (step o words base) (fun b => b.Good words base) _ (due words base)
      (presented o words base) (Presents o) (fun _ _ good => good_step good compressing)
      (fun _ _ good => presents_due compressing good) b fresh.good xs
  · intro driven
    have good : b.Good words base := fresh.good
    exact phase_valid compressing good (fun phase => absurd (fresh.phase.symm.trans phase) Bool.false_ne_true) driven

end Bench

end Fetch

/-! ### A pair and a word -/

def cisOptions : Options := ⟨true, false, true, true, false, true, true, false, false, false⟩

/-- A pair of additions, and additions of one instruction each behind it. -/
def cisWords (k : Nat) : Fetched := if k = 0 then ⟨0x82018a02, false⟩ else ⟨0x00800001, false⟩

def cisDrive (ce stalled offers : Bool) : Drive 8 := ⟨ce, stalled, offers, false, 0x7fffffff, 0x3ff, true⟩

/-- The second half is decoded while the fetch unit has nothing to offer. -/
theorem decodes_pair : ∃ due : List (Instr 8), due = program cisWords 0x10#8 2 ∧
    List.Forall₂ (Presents cisOptions) due (Clocked.emitted (Bench.step cisOptions cisWords 0x10#8)
      (Bench.presented cisOptions cisWords 0x10#8) ⟨default, 0⟩
      [cisDrive true false true, cisDrive false true true, cisDrive true false false, cisDrive true false false,
        cisDrive true false true]) := by
  obtain ⟨⟨due, all, presents⟩, -⟩ := @Bench.decodes_in_order 8 cisOptions cisWords 0x10#8 ⟨default, 0⟩ ⟨rfl, rfl, rfl⟩
    ⟨rfl, rfl, rfl, rfl, rfl⟩ [cisDrive true false true, cisDrive false true true, cisDrive true false false,
      cisDrive true false false, cisDrive true false true]
  exact ⟨due, (List.append_nil due).symm.trans all, presents⟩

/-- A clock with both enables low takes the first half from the outputs, and `o_phase` stays. -/
theorem phase_without_output :
    Compressing cisOptions ∧ Bench.Fresh (⟨default, 0⟩ : Bench 8) ∧
      (Clocked.run (Bench.step cisOptions cisWords 0x10#8) ⟨default, 0⟩
        [cisDrive true false true, cisDrive false false true]).dcd.phase = true ∧
      (Clocked.run (Bench.step cisOptions cisWords 0x10#8) ⟨default, 0⟩
        [cisDrive true false true, cisDrive false false true]).dcd.valid = false :=
  ⟨⟨rfl, rfl, rfl⟩, ⟨rfl, rfl, rfl, rfl, rfl⟩, by decide +kernel, by decide +kernel⟩

end Idecode

end IcoZip.Zipcore
