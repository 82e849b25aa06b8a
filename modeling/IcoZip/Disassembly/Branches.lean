import IcoZip.Disassembly.Lookup
import IcoZip.Zipcore.Idecode

/-! Where a branch goes, as the disassembler prints it, as the host expects it and as the decoder computes it. -/

set_option autoImplicit false

namespace IcoZip.Zopcodes

open Zipcore

/-- An unconditional `ADD` of an immediate to the program counter, by a whole number of words. -/
structure Bra (ins : BitVec 32) : Prop where
  long : ins.getLsbD 31 = false
  toPc : ins.extractLsb' 27 4 = 0xf#4
  add : ins.extractLsb' 22 5 = 0x02#5
  unconditional : ins.extractLsb' 19 3 = 0#3
  immediate : ins.getLsbD 18 = false
  aligned : ins.extractLsb' 0 2 = 0#2

def displacement (ins : BitVec 32) : BitVec 32 := (ins.extractLsb' 0 18).signExtend 32

/-- The address after a branch. -/
def branched (addr ins : BitVec 32) : BitVec 32 := addr + 4#32 + displacement ins

/-- A decoder that takes in a word as a first one, with its address. -/
structure Presented {aw : Nat} (o : Options) (s : Idecode aw) (i : Idecode.Inputs aw) (addr ins : BitVec 32) :
    Prop where
  early : o.optEarlyBranching = true
  first : s.phase = false
  word : s.ljmp = false
  ce : i.ce = true
  instruction : i.instruction = ins
  pc : i.pc = addr.setWidth (aw + 2)

/-- The text, the expectation and the decoder name one address. -/
def TargetsAgree {aw : Nat} (o : Options) (s : Idecode aw) (i : Idecode.Inputs aw) (addr ins : BitVec 32) : Prop :=
  zipiToHalfstring addr ins zipOplist = some ("BRA        @0x" ++ hex08 (branched addr ins)) ∧
    zopEarlyBranch addr ins = branched addr ins ∧
    (s.idecode o i).branchPc = (branched addr ins).setWidth (aw + 2)

/-! ### The word -/

theorem zipGetbits_immediate (ins : BitVec 32) : zipGetbits ins (IMMFIELD 18 0) = displacement ins :=
  zipGetbits_signed ins (by decide) rfl rfl (by decide)

namespace Bra

variable {ins : BitVec 32} (bra : Bra ins)
include bra

/-- All of the word but the immediate, which is a number of words. -/
theorem known : ins &&& 0xfffc0003 = 0x78800000 :=
  Patterns.both (Patterns.bit bra.long) (Patterns.both (Patterns.field bra.toPc)
    (Patterns.both (Patterns.field bra.add) (Patterns.both (Patterns.field bra.unconditional)
      (Patterns.both (Patterns.bit bra.immediate) (Patterns.field bra.aligned)))))

theorem zipGetbits_cond : zipGetbits ins (BITFIELD 3 19) = 0 := by
  rw [zipGetbits_unsigned ins (by decide) rfl rfl]
  exact congrArg (fun cond => cond.setWidth 32 + _) bra.unconditional

theorem not_pcMov : offsetPcMov ins = false :=
  beq_eq_false_iff_ne.mpr (Patterns.clash bra.known (by decide))

end Bra

/-! ### The disassembler -/

/-- The entry of a branch. -/
def braEntry : Zopcode :=
  ⟨"BRA", 0xffc40000, 0x78800000, OPUNUSED, OPUNUSED, OPUNUSED, IMMFIELD 18 0, BITFIELD 3 19⟩

theorem isBranch_braEntry (addr : BitVec 32) : braEntry.isBranch addr = (addr != 0) := by
  have named : (braEntry.opstr.toList.head? == some 'B' && !strcasecmp braEntry.opstr "BUSY" &&
      !strcasecmp braEntry.opstr "BREV" && !strcasecmp braEntry.opstr "BRK") = true := by decide
  rw [Zopcode.isBranch, named, Bool.true_and]

section Text
variable {ins : BitVec 32} (bra : Bra ins) (addr : BitVec 32)
include bra

theorem Bra.entry_eq : entry zipOplist ins = some braEntry := entry_of_resolve bra.known (by decide)

theorem Bra.mnemonic : braEntry.mnemonic ins = "BRA        " := by
  have used : braEntry.cf ≠ OPUNUSED := by decide
  have cond : zipGetbits ins braEntry.cf = 0 := bra.zipGetbits_cond
  rw [Zopcode.mnemonic, if_pos used, cond]
  decide

/-- All but the operand of the text. -/
theorem Bra.line : zipiToHalfstring addr ins zipOplist =
    some ("BRA        " ++ (if addr != 0 then "@0x" ++ hex08 (branched addr ins) else braEntry.operands ins)) := by
  have goes : braEntry.target addr ins = branched addr ins := by
    rw [Zopcode.target, branched, BitVec.add_assoc, BitVec.add_comm 4#32]
    exact congrArg (fun offset => addr + (offset + 4)) (zipGetbits_immediate ins)
  have notStore : braEntry.isStore = false := by decide
  have notJump : strncasecmp "LJMP" braEntry.opstr 3 = false := by decide
  rw [zipiToHalfstring, bra.not_pcMov, if_neg Bool.false_ne_true, if_pos consistent, bra.entry_eq, Option.elim_some,
    Zopcode.line, bra.mnemonic, notStore, if_neg Bool.false_ne_true, notJump, if_neg Bool.false_ne_true,
    isBranch_braEntry, goes]

theorem Bra.text {addr : BitVec 32} (somewhere : addr ≠ 0) :
    zipiToHalfstring addr ins zipOplist = some ("BRA        @0x" ++ hex08 (branched addr ins)) := by
  rw [bra.line addr, if_pos (bne_iff_ne.mpr somewhere), ← String.append_assoc]
  rfl

omit bra in
theorem operands_braEntry : braEntry.operands ins = "$" ++ decimal (displacement ins) := by
  have imv : braEntry.imv ins = displacement ins := by
    rw [← zipGetbits_immediate ins]
    rfl
  have alone : braEntry.immediate ins = "$" ++ decimal (displacement ins) := by
    have notMem : braEntry.memop = false := by decide
    have unused : (braEntry.rb == OPUNUSED) = true := by decide
    rw [Zopcode.immediate, notMem, imv, unused, Bool.not_false, Bool.or_true, Bool.true_and, Bool.false_and,
      Bool.false_and, if_neg Bool.false_ne_true, if_neg Bool.false_ne_true, if_pos rfl]
    exact String.append_empty
  have used : braEntry.i ≠ OPUNUSED := by decide
  rw [Zopcode.operands, if_pos used, alone]
  simp [braEntry]

/-- At address zero the displacement is printed by itself. -/
theorem Bra.text_zero : zipiToHalfstring 0 ins zipOplist = some ("BRA        $" ++ decimal (displacement ins)) := by
  rw [bra.line 0, bne_self_eq_false, if_neg Bool.false_ne_true, operands_braEntry, ← String.append_assoc]
  rfl

/-- So it prints a target at all the other addresses alone. -/
theorem Bra.text_iff : zipiToHalfstring addr ins zipOplist = some ("BRA        @0x" ++ hex08 (branched addr ins)) ↔
    addr ≠ 0 := by
  refine ⟨?_, bra.text⟩
  rintro printed rfl
  rw [bra.text_zero, Option.some.injEq] at printed
  have same := congrArg (fun text : String => text.toList.drop 11) printed
  simp at same

end Text

/-! ### The expectation -/

section Expectation
variable {ins : BitVec 32} (bra : Bra ins) (pc : BitVec 32)
include bra

omit bra in
/-- A branch that goes nowhere has nothing in its immediate. -/
theorem displacement_eq_zero : displacement ins = 0 ↔ (ins.extractLsb' 0 18).toNat = 0 := by
  have bound := (ins.extractLsb' 0 18).isLt
  rw [displacement, ← BitVec.toNat_inj, BitVec.toNat_signExtend, BitVec.toNat_setWidth]
  cases sign : (ins.extractLsb' 0 18).msb with
  | false =>
    rw [if_neg Bool.false_ne_true, Nat.add_zero]
    exact (Nat.mod_eq_of_lt (lt_trans bound (by decide))).congr_left
  | true =>
    have large := BitVec.le_toNat_of_msb_true sign
    rw [if_pos rfl]
    exact iff_of_false (by simp) (by omega)

theorem Bra.expected_forward (forward : ins.getLsbD 17 = false) :
    zopEarlyBranch pc ins = pc + 4#32 + (ins.extractLsb' 0 18).setWidth 32 <<< 2 := by
  have known := Patterns.both bra.known (Patterns.bit forward)
  have low : ins &&& 0x3ffff = (ins.extractLsb' 0 18).setWidth 32 := Patterns.low 18
  rw [zopEarlyBranch, if_neg (not_not.mpr ((Patterns.sure bra.known (by decide)).trans (by decide))),
    if_pos ((Patterns.sure known (by decide)).trans (by decide)), low]

theorem Bra.expected_backward (backward : ins.getLsbD 17 = true) :
    zopEarlyBranch pc ins = pc + 4#32 + (0x40000#32 - (ins.extractLsb' 0 18).setWidth 32) <<< 2 := by
  have known := Patterns.both bra.known (Patterns.bit backward)
  have low : ins &&& 0x3ffff = (ins.extractLsb' 0 18).setWidth 32 := Patterns.low 18
  rw [zopEarlyBranch, if_neg (not_not.mpr ((Patterns.sure bra.known (by decide)).trans (by decide))),
    if_neg (Patterns.clash known (by decide)), if_pos ((Patterns.sure known (by decide)).trans (by decide)), low]

/-- The expectation shifts a displacement that is one in bytes. -/
theorem Bra.expected_iff : zopEarlyBranch pc ins = branched pc ins ↔ displacement ins = 0 := by
  have sign : (ins.extractLsb' 0 18).msb = ins.getLsbD 17 := by
    rw [BitVec.msb_eq_getLsbD_last, BitVec.getLsbD_extractLsb']
    rfl
  have bound := (ins.extractLsb' 0 18).isLt
  rw [displacement_eq_zero, branched, displacement]
  cases direction : ins.getLsbD 17 with
  | false =>
    rw [direction] at sign
    have small := BitVec.toNat_lt_of_msb_false sign
    rw [bra.expected_forward pc direction, BitVec.add_right_inj, BitVec.signExtend_eq_setWidth_of_msb_false sign,
      ← BitVec.toNat_inj, BitVec.toNat_shiftLeft, Nat.shiftLeft_eq, BitVec.toNat_setWidth]
    omega
  | true =>
    rw [direction] at sign
    have large := BitVec.le_toNat_of_msb_true sign
    rw [bra.expected_backward pc direction, BitVec.add_right_inj, ← BitVec.toNat_inj, BitVec.toNat_shiftLeft,
      Nat.shiftLeft_eq, BitVec.toNat_sub, BitVec.toNat_setWidth, BitVec.toNat_signExtend, sign, if_pos rfl,
      BitVec.toNat_setWidth, BitVec.toNat_ofNat]
    generalize (ins.extractLsb' 0 18).toNat = d at bound large ⊢
    have whole : d % 2 ^ 32 = d := Nat.mod_eq_of_lt (by omega)
    have back : (2 ^ 32 - d + 262144 % 2 ^ 32) % 2 ^ 32 = 262144 - d := by omega
    have near : (262144 - d) * 2 ^ 2 % 2 ^ 32 < 2 ^ 32 - 2 ^ 18 :=
      lt_of_le_of_lt (Nat.mod_le _ _) (lt_of_le_of_lt (Nat.mul_le_mul_right _ (Nat.sub_le _ _)) (by decide))
    rw [whole, back]
    exact iff_of_false (ne_of_lt (lt_of_lt_of_le near (Nat.le_add_left _ _))) (by omega)

end Expectation

/-! ### The decoder -/

section Decoder
variable {aw : Nat} {o : Options} {s : Idecode aw} {i : Idecode.Inputs aw} {addr ins : BitVec 32}

/-- The decoder sees the word as it is. -/
theorem Presented.iword (given : Presented o s i addr ins) (bra : Bra ins) : s.iword o i = ins := by
  rw [Idecode.iword, given.instruction, given.first]
  cases o.optCis with
  | true => rfl
  | false =>
    have top : 0b0#1 = ins.extractLsb' 31 1 := by rw [Fields.bit, bra.long]; rfl
    rw [if_neg Bool.false_ne_true, top]
    exact (Fields.joined ins 0).trans BitVec.extractLsb'_eq_self

/-- The immediate counts words, and so does the decoder. -/
theorem Bra.words (bra : Bra ins) : displacement ins = BitVec.ofInt 32 (4 * (ins.extractLsb' 2 16).toInt) := by
  have whole : ins.extractLsb' 0 18 = ins.extractLsb' 2 16 ++ 0#2 := by
    rw [← bra.aligned]
    exact (@Fields.joined 16 2 32 ins 0).symm
  have value : (ins.extractLsb' 0 18).toInt = 4 * (ins.extractLsb' 2 16).toInt := by
    rw [whole]
    generalize ins.extractLsb' 2 16 = e
    have bound := e.isLt
    rw [BitVec.toInt_eq_toNat_cond, BitVec.toInt_eq_toNat_cond, BitVec.toNat_append]
    simp only [BitVec.toNat_ofNat, Nat.zero_mod, Nat.or_zero, Nat.shiftLeft_eq]
    split <;> split <;> omega
  rw [displacement, BitVec.signExtend, value]

theorem Presented.branchPc (given : Presented o s i addr ins) (bra : Bra ins) (narrow : aw ≤ 30)
    (aligned : addr.extractLsb' 0 2 = 0#2) :
    (s.idecode o i).branchPc = (branched addr ins).setWidth (aw + 2) := by
  have bound := addr.isLt
  have whole : addr.toNat % 4 = 0 := congrArg BitVec.toNat aligned
  have place : i.pc.extractLsb' 2 aw = BitVec.ofInt aw (addr.toNat / 4 : Nat) := by
    apply BitVec.eq_of_toNat_eq
    rw [given.pc, BitVec.extractLsb'_toNat, BitVec.toNat_setWidth, BitVec.ofInt_natCast, BitVec.toNat_ofNat,
      Nat.shiftRight_eq_div_pow, Nat.pow_add, Nat.mul_comm, Nat.mod_mul_right_div_self, Nat.mod_mod]
  have next : branched addr ins =
      BitVec.ofInt 32 (4 * ((addr.toNat / 4 : Nat) + (ins.extractLsb' 2 16).toInt + 1)) := by
    have here : addr = BitVec.ofInt 32 (4 * (addr.toNat / 4 : Nat)) := by
      have back : (4 * (addr.toNat / 4 : Nat) : Int) = (addr.toNat : Nat) := by omega
      rw [back, BitVec.ofInt_natCast, BitVec.ofNat_toNat, BitVec.setWidth_eq]
    have four : 4#32 = BitVec.ofInt 32 4 := rfl
    have sum : (4 * ((addr.toNat / 4 : Nat) + (ins.extractLsb' 2 16).toInt + 1) : Int) =
        4 * (addr.toNat / 4 : Nat) + 4 + 4 * (ins.extractLsb' 2 16).toInt := by omega
    rw [branched, bra.words, sum, BitVec.ofInt_add, BitVec.ofInt_add, ← here, ← four]
  have computed : (s.idecode o i).branchPc =
      (i.pc.extractLsb' 2 aw + (ins.extractLsb' 2 16).signExtend aw + 1) ++ 0b00#2 := by
    simp only [Idecode.idecode, Idecode.nextBranchPc, given.early, given.word, given.ce, given.iword bra]
    rfl
  have one : (1 : BitVec aw) = BitVec.ofInt aw 1 := (BitVec.ofInt_ofNat aw 1).symm
  rw [computed, place, next, one, BitVec.signExtend, ← BitVec.ofInt_add, ← BitVec.ofInt_add, Fields.ofInt_append_zero,
    Fields.setWidth_ofInt _ (by omega)]
  rfl

end Decoder

/-- The three agree on a branch exactly where it goes nowhere, at an address that the disassembler knows. -/
theorem targetsAgree_iff {aw : Nat} {o : Options} {s : Idecode aw} {i : Idecode.Inputs aw} {addr ins : BitVec 32}
    (given : Presented o s i addr ins) (bra : Bra ins) (narrow : aw ≤ 30) (aligned : addr.extractLsb' 0 2 = 0#2) :
    TargetsAgree o s i addr ins ↔ displacement ins = 0 ∧ addr ≠ 0 := by
  constructor
  · rintro ⟨printed, expected, -⟩
    exact ⟨(bra.expected_iff addr).mp expected, (bra.text_iff addr).mp printed⟩
  · rintro ⟨nowhere, somewhere⟩
    exact ⟨bra.text somewhere, (bra.expected_iff addr).mpr nowhere, given.branchPc bra narrow aligned⟩

/-- A decoder with every option, which takes in a word at address `0x1000`. -/
def braOptions : Options := ⟨true, true, true, true, true, true, true, true, true, true⟩

def braInputs (ins : BitVec 32) : Idecode.Inputs 30 where
  reset := false
  ce := true
  stalled := false
  instruction := ins
  gie := false
  pc := 0x1000
  pfValid := true
  illegal := false

theorem targetsAgree_here : TargetsAgree braOptions default (braInputs 0x78800000) 0x1000 0x78800000 :=
  (targetsAgree_iff ⟨rfl, rfl, rfl, rfl, rfl, rfl⟩ ⟨by decide, by decide, by decide, by decide, by decide, by decide⟩
    (by decide) (by decide)).mpr (by decide)

/-- One word further, the expectation is four words further. -/
theorem targets_disagree :
    Presented braOptions default (braInputs 0x78800004) 0x1000 0x78800004 ∧ Bra 0x78800004 ∧
      zopEarlyBranch 0x1000 0x78800004 = 0x1014 ∧ branched 0x1000 0x78800004 = 0x1008 ∧
      ¬TargetsAgree braOptions default (braInputs 0x78800004) 0x1000 0x78800004 := by
  refine ⟨⟨rfl, rfl, rfl, rfl, rfl, rfl⟩, ⟨by decide, by decide, by decide, by decide, by decide, by decide⟩,
    by decide, by decide, ?_⟩
  rintro ⟨-, expected, -⟩
  exact absurd expected (by decide)

end IcoZip.Zopcodes
