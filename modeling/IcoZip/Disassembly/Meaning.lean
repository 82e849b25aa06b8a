import IcoZip.Disassembly.Lookup
import IcoZip.Zipcore.Idecode

/-! What an entry of the disassembler says of a word, and what the decoder makes of it.

The fields that the decoder takes of a word are put in the codes of the disassembler's tables. An entry that names the
same fields says of its words what the decoder makes of them.
-/

set_option autoImplicit false

namespace IcoZip.Zopcodes

open Zipcore Idecode

/-- Where an instruction goes, and whether it has a result. -/
structure Operation where
  ALU : Bool
  M : Bool
  DV : Bool
  FP : Bool
  op : BitVec 4
  wR : Bool
  deriving DecidableEq, Repr

def Operation.of (f : Fields) : Operation := ⟨f.ALU, f.M, f.DV, f.FP, f.op, f.wR⟩

/-- What a name stands for. A name for an instruction of which a part is fixed leaves that part out of the text. -/
structure Meaning where
  operations : List Operation
  /-- The register of the result, which is also the first one that is read. -/
  reg : Option (BitVec 32)
  rb : Option (BitVec 32)
  imm : Option (BitVec 32)
  cond : BitVec 32
  deriving DecidableEq, Repr

section Names

def alu (op : BitVec 4) : Operation := ⟨true, false, false, false, op, true⟩

def test (op : BitVec 4) : Operation := ⟨true, false, false, false, op, false⟩

def divide (op : BitVec 4) : Operation := ⟨false, false, true, false, op, true⟩

def load (op : BitVec 4) : Operation := ⟨false, true, false, false, op, true⟩

def store (op : BitVec 4) : Operation := ⟨false, true, false, false, op, false⟩

def plain (operation : Operation) : Meaning := ⟨[operation], none, none, none, 0⟩

/-- An `ADD` to the program counter. -/
def branch (cond : BitVec 32) : Meaning := ⟨[alu 0x2], some 15, none, none, cond⟩

/-- An `OR` of a constant to the condition codes. -/
def setting (imm : BitVec 32) : Meaning := ⟨[alu 0x3], some 14, none, some imm, 0⟩

/-- `LDI`, `BREV` and `LDILO` give a register a value; `LDI` is a `MOV` without a register. A `TRAP` is any of them to
the condition codes. -/
def names : List (String × Meaning) :=
  [("SUB", plain (alu 0x0)), ("AND", plain (alu 0x1)), ("ADD", plain (alu 0x2)), ("OR", plain (alu 0x3)),
    ("XOR", plain (alu 0x4)), ("LSR", plain (alu 0x5)), ("LSL", plain (alu 0x6)), ("ASR", plain (alu 0x7)),
    ("BREV", plain (alu 0x8)), ("LDILO", plain (alu 0x9)), ("MPYUHI", plain (alu 0xa)), ("MPYSHI", plain (alu 0xb)),
    ("MPY", plain (alu 0xc)), ("MOV", plain (alu 0xd)), ("LDI", plain (alu 0xd)), ("DIVU", plain (divide 0xe)),
    ("DIVS", plain (divide 0xf)), ("CMP", plain (test 0x0)), ("TST", plain (test 0x1)), ("LW", plain (load 0x2)),
    ("SW", plain (store 0x3)), ("LH", plain (load 0x4)), ("SH", plain (store 0x5)), ("LB", plain (load 0x6)),
    ("SB", plain (store 0x7)), ("BRA", branch 0), ("BZ", branch 1), ("BLT", branch 2), ("BC", branch 3),
    ("BV", branch 4), ("BNZ", branch 5), ("BGE", branch 6), ("BNC", branch 7),
    ("BUSY", { branch 0 with imm := some (-1) }),
    ("TRAP", ⟨[alu 0xd, alu 0x8, alu 0x9], some 14, none, none, 0⟩),
    ("CLR", ⟨[alu 0xd, alu 0x8], none, none, some 0, 0⟩),
    ("HALT", setting 0x10), ("RTU", setting 0x20), ("WAIT", setting 0x30),
    ("RTN", ⟨[alu 0xd], some 15, some 0, some 0, 0⟩), ("JMP", ⟨[alu 0xd], some 15, none, none, 0⟩),
    ("JMPI", ⟨[alu 0xd], some 15, none, none, 0⟩), ("LJMP", ⟨[load 0x2], some 15, some 15, some 0, 0⟩)]

end Names

/-- A number up to 15 is a register of the mode that the processor is in, and the others are those of the user. -/
def register (gie : Bool) (number : BitVec 32) : BitVec 5 :=
  BitVec.ofBool (gie || number.getLsbD 4) ++ number.extractLsb' 0 4

/-- `o_cond` -/
def condition (code : BitVec 32) : BitVec 4 :=
  BitVec.ofBool (code.extractLsb' 0 3 == 0#3) ++ code.extractLsb' 0 3

/-- The field of a word that a code names, or else what goes without saying. -/
def told (ins code : BitVec 32) (implied : Option (BitVec 32)) : Option (BitVec 32) :=
  if code ≠ OPUNUSED then some (zipGetbits ins code) else implied

/-- An entry says of a word what the decoder makes of it. -/
structure Fits (gie : Bool) (op : Zopcode) (m : Meaning) (ins : BitVec 32) (f : Fields) : Prop where
  operation : Operation.of f ∈ m.operations
  result : (told ins op.result m.reg).map (register gie) = if f.wR then some f.dcdR else none
  a : ∀ n ∈ told ins op.ra m.reg, register gie n = f.dcdA
  named : f.rA = true → told ins op.ra m.reg ≠ none
  b : (told ins op.rb m.rb).map (register gie) = if f.rB then some f.dcdB else none
  /-- `TRAP` need not show it. -/
  imm : told ins op.i m.imm = some f.o_I ∨ op.opstr = "TRAP" ∧ op.i = OPUNUSED
  cond : (told ins op.cf (some m.cond)).map condition = some f.cond

def Zopcode.Denotes (op : Zopcode) (gie : Bool) (ins : BitVec 32) (f : Fields) : Prop :=
  ∃ m, names.lookup op.opstr = some m ∧ Fits gie op m ins f

/-! ### Layouts -/

/-- The fields of a word. -/
structure Layout where
  operation : Operation
  rA : Bool
  reg : BitVec 32
  rb : BitVec 32
  imm : BitVec 32
  cond : BitVec 32
  deriving DecidableEq, Repr

/-- The decoder takes these fields. -/
structure Laid (gie : Bool) (l : Layout) (ins : BitVec 32) (f : Fields) : Prop where
  operation : Operation.of f = l.operation
  rA : f.rA = l.rA
  dcdR : f.dcdR = register gie (zipGetbits ins l.reg)
  rB : f.rB = (l.rb != OPUNUSED)
  dcdB : l.rb ≠ OPUNUSED → f.dcdB = register gie (zipGetbits ins l.rb)
  imm : f.o_I = zipGetbits ins l.imm
  cond : (told ins l.cond (some 0)).map condition = some f.cond

/-! ### Entries -/

namespace Zopcode

variable (op : Zopcode)

/-- The bits of a field, moved down. -/
def fieldOnes (code : BitVec 32) : BitVec 64 := 1#64 <<< ((code >>> 8) &&& 0x3f).toNat - 1

def fieldMask (code : BitVec 32) : BitVec 32 := (fieldOnes code).setWidth 32 <<< (code &&& 0x3f).toNat

/-- All words of an entry have the same in this field. -/
def fixes (code : BitVec 32) : Bool := fieldMask code &&& ~~~op.mask == 0

/-- An entry names a field, or it goes without saying what is in it. -/
def shows (code field : BitVec 32) (implied : Option (BitVec 32)) : Bool :=
  code != OPUNUSED && (field == code || field == OPUNUSED && op.fixes code && implied == some (zipGetbits op.val code))

/-- An entry names the fields that the decoder takes. -/
def reads (m : Meaning) (l : Layout) : Bool :=
  m.operations.contains l.operation &&
    (if l.operation.wR then op.shows l.reg op.result m.reg else op.result == OPUNUSED && m.reg == none) &&
    (op.shows l.reg op.ra m.reg || op.ra == OPUNUSED && m.reg == none && !l.rA) &&
    (if l.rb != OPUNUSED then op.shows l.rb op.rb m.rb else op.rb == OPUNUSED && m.rb == none) &&
    (op.shows l.imm op.i m.imm || op.opstr == "TRAP" && op.i == OPUNUSED) &&
    (if l.cond != OPUNUSED then op.shows l.cond op.cf (some m.cond) else op.cf == OPUNUSED && m.cond == 0)

variable {op} {ins code field : BitVec 32} {implied : Option (BitVec 32)}

/-- What is masked out of a field. -/
theorem fixed_field (matched : op.matched ins = true) (fixed : op.fixes code = true) :
    (ins >>> (code &&& 0x3f).toNat).setWidth 64 &&& fieldOnes code =
      (op.val >>> (code &&& 0x3f).toNat).setWidth 64 &&& fieldOnes code := by
  have within : fieldMask code &&& ~~~op.mask = 0 := eq_of_beq fixed
  rw [← op.matched_iff.mp matched]
  unfold fieldMask at within
  generalize (code &&& 0x3f).toNat = place at within ⊢
  generalize fieldOnes code = ones at within ⊢
  apply BitVec.eq_of_getLsbD_eq
  intro p bound
  simp only [BitVec.getLsbD_and, BitVec.getLsbD_setWidth, BitVec.getLsbD_ushiftRight, bound, decide_true,
    Bool.true_and]
  by_cases inside : place + p < 32
  · have bit := congrArg (fun x : BitVec 32 => x.getLsbD (place + p)) within
    have low : p < 32 := by omega
    simp only [BitVec.getLsbD_and, BitVec.getLsbD_shiftLeft, BitVec.getLsbD_setWidth, BitVec.getLsbD_not, inside,
      Nat.not_lt.mpr (Nat.le_add_right place p), Nat.add_sub_cancel_left, low, decide_true, decide_false,
      Bool.not_false, Bool.true_and, BitVec.ofNat_eq_ofNat, BitVec.getLsbD_zero] at bit
    cases set : ones.getLsbD p with
    | false => rw [Bool.and_false, Bool.and_false]
    | true =>
      rw [set, Bool.true_and, Bool.not_eq_false'] at bit
      rw [bit, Bool.and_true, Bool.and_true]
  · rw [BitVec.getLsbD_of_ge ins _ (by omega)]
    rfl

theorem fixed_getbits (matched : op.matched ins = true) (fixed : op.fixes code = true) :
    zipGetbits ins code = zipGetbits op.val code := by
  have same := fixed_field matched fixed
  simp only [fieldOnes] at same
  simp only [zipGetbits, zipSbits, zipUbits, same]

theorem told_of_shows (matched : op.matched ins = true) (shown : op.shows code field implied = true) :
    told ins field implied = some (zipGetbits ins code) := by
  simp only [shows, Bool.and_eq_true, bne_iff_ne, Bool.or_eq_true, beq_iff_eq] at shown
  obtain ⟨used, rfl | ⟨⟨rfl, fixed⟩, rfl⟩⟩ := shown
  · exact if_pos used
  · rw [fixed_getbits matched fixed]
    exact if_neg (not_not.mpr rfl)

/-- An entry that names the fields that the decoder takes says what the decoder makes of them. -/
theorem fits_of_reads {gie : Bool} {m : Meaning} {l : Layout} {f : Fields} (matched : op.matched ins = true)
    (apt : op.reads m l = true) (laid : Laid gie l ins f) : Fits gie op m ins f := by
  simp only [reads, Bool.and_eq_true] at apt
  obtain ⟨⟨⟨⟨⟨operation, result⟩, a⟩, b⟩, imm⟩, cond⟩ := apt
  have wR : f.wR = l.operation.wR := congrArg Operation.wR laid.operation
  have unused {code : BitVec 32} (unused : code = OPUNUSED) {implied : Option (BitVec 32)} (silent : implied = none) :
      told ins code implied = none := by rw [told, if_neg (not_not.mpr unused), silent]
  have first (shown : op.shows l.reg op.ra m.reg = true) : told ins op.ra m.reg = some (zipGetbits ins l.reg) :=
    told_of_shows matched shown
  refine ⟨?_, ?_, ?_, ?_, ?_, ?_, ?_⟩
  · rw [laid.operation]
    exact List.contains_iff_mem.mp operation
  · rw [wR]
    split at result
    · rename_i writes
      rw [told_of_shows matched result, writes, if_pos rfl, laid.dcdR]
      rfl
    · rename_i quiet
      simp only [Bool.and_eq_true, beq_iff_eq] at result
      rw [unused result.1 result.2, if_neg quiet]
      rfl
  · intro n member
    rcases Bool.or_eq_true_iff.mp a with shown | none
    · rw [first shown] at member
      cases member
      exact laid.dcdR.symm
    · simp only [Bool.and_eq_true, beq_iff_eq] at none
      rw [unused none.1.1 none.1.2] at member
      cases member
  · intro needed
    rcases Bool.or_eq_true_iff.mp a with shown | none
    · rw [first shown]
      exact Option.some_ne_none _
    · rw [← laid.rA, needed] at none
      simp at none
  · rw [laid.rB]
    split at b
    · rename_i used
      rw [told_of_shows matched b, if_pos used, laid.dcdB (bne_iff_ne.mp used)]
      rfl
    · rename_i free
      simp only [Bool.and_eq_true, beq_iff_eq] at b
      rw [unused b.1 b.2, if_neg free]
      rfl
  · rcases Bool.or_eq_true_iff.mp imm with shown | hidden
    · rw [told_of_shows matched shown, laid.imm]
      exact .inl rfl
    · simp only [Bool.and_eq_true, beq_iff_eq] at hidden
      exact .inr hidden
  · rw [← laid.cond]
    split at cond
    · rename_i used
      rw [told_of_shows matched cond, told, if_pos (bne_iff_ne.mp used)]
    · rename_i free
      simp only [Bool.and_eq_true, beq_iff_eq] at cond
      rw [told, if_neg (not_not.mpr cond.1), cond.2, told, if_neg (by simpa using free)]

end Zopcode

end IcoZip.Zopcodes
