import IcoZip.Disassembly.Formats

/-! The disassembler and the decoder: for which words the entry says what the decoder makes of them. -/

set_option autoImplicit false

namespace IcoZip.Zopcodes

open Zipcore Idecode

/-- An entry says of its words what the decoder makes of words with a layout. -/
def Zopcode.apt (l : Layout) (op : Zopcode) : Bool := (names.lookup op.opstr).any fun m => op.reads m l

theorem Zopcode.denotes_of_apt {op : Zopcode} {l : Layout} {gie : Bool} {ins : BitVec 32} {f : Fields}
    (apt : op.apt l = true) (matched : op.matched ins = true) (laid : Laid gie l ins f) : op.Denotes gie ins f := by
  obtain ⟨m, named, reads⟩ := Option.any_eq_true _ _ |>.mp apt
  exact ⟨m, named, fits_of_reads matched reads laid⟩

/-! ### Instructions -/

/-- The bits of an instruction that its layout depends on. -/
def controlBits : BitVec 32 := 0x87c42000

def control (k : BitVec 5) (r u : Bool) : BitVec 32 :=
  k.setWidth 32 <<< 22 ||| (BitVec.ofBool r).setWidth 32 <<< 18 ||| (BitVec.ofBool u).setWidth 32 <<< 13

/-- A jump to an address in a register, which does not look whose register it is. -/
def jmpEntry : Zopcode :=
  ⟨"JMP", 0xffc40000, 0x7b400000, OPUNUSED, OPUNUSED, REGFIELD 14, IMMFIELD 13 0, BITFIELD 3 19⟩

theorem long_table : ∀ (k : BitVec 5) (r u : Bool), k < 0x1a#5 →
    (candidates controlBits (control k r u) zipOplist).any (fun ops => ops.all fun op =>
      op.apt (.long k r u) || op == jmpEntry && k == 0x0d#5 && !r && u) = true := by
  decide +kernel

section Long
variable {o : Options} (built : Built o) {w : BitVec 32} {gie : Bool} {k : BitVec 5} {r : Bool}

/-- A `MOV` of a register of the user to the program counter. -/
def userJump (w : BitVec 32) : Bool := w &&& 0xffc42000 == 0x7b402000

theorem Single.of_legal (built : Built o) (alone : cis w = false) (legal : illegalWord o w w gie = false)
    (plain : wSpecial o w gie = false) : Single w (wOp w) (w.getLsbD 18) := by
  refine ⟨alone, rfl, ?_, rfl⟩
  have code : wCisOp o w = wOp w := by simp [wCisOp, alone]
  have high : ∀ k : BitVec 5, ∀ s : Bool, ¬k < 0x1a#5 → (k.extractLsb' 2 3 == 0b111#3) = false →
      (k.extractLsb' 3 2 == 0b11#2 && !s && k.extractLsb' 1 2 != 0b00#2 ||
        s && k.extractLsb' 1 4 == 0b1101#4) = true := by
    decide
  -- without floating point the codes from 0x1a on are special or illegal
  by_contra beyond
  have noSpecial : ((wOp w).extractLsb' 2 3 == 0b111#3) = false := by
    simpa [wSpecial, alone, built.noFpu] using plain
  have wrong := high (wOp w) (special (wDcdR o w gie)) beyond noSpecial
  have bad : illegalWord o w w gie = true := by
    rw [Bool.or_eq_true] at wrong
    rcases wrong with fpu | cc
    · simp only [illegalWord, wFpu, alone, built.noFpu]
      simp only [Bool.not_false, Bool.true_and, fpu, Bool.or_true, Bool.true_or]
    · simp only [illegalWord, code, cc, Bool.or_true, Bool.true_or]
  exact absurd (legal.symm.trans bad) Bool.false_ne_true

theorem Single.controls (single : Single w k r) : w &&& controlBits = control k r (w.getLsbD 13) := by
  have alone : w.getLsbD 31 = false := single.alone
  have knows := Patterns.both (Patterns.bit alone) (Patterns.both (Patterns.field single.op)
    (Patterns.both (Patterns.bit single.imm) (Patterns.bit (rfl : w.getLsbD 13 = w.getLsbD 13))))
  have value : ∀ (k : BitVec 5) (r u : Bool), (BitVec.ofBool false).setWidth 32 <<< 31 ||| (k.setWidth 32 <<< 22 |||
      ((BitVec.ofBool r).setWidth 32 <<< 18 ||| (BitVec.ofBool u).setWidth 32 <<< 13)) = control k r u := by decide
  exact knows.trans (value k r _)

include built in
/-- Where a jump is to an address in a register of the user, the text names another register. -/
theorem Single.jump_differs (single : Single w k r) (jump : userJump w = true) (op : Zopcode)
    (here : entry zipOplist w = some op) : ¬op.Denotes false w (decode o w false) := by
  have knows : w &&& 0xffc42000 = 0x7b402000 := eq_of_beq jump
  have isJmp : entry zipOplist w = some jmpEntry := entry_of_resolve knows (by decide)
  obtain rfl : jmpEntry = op := Option.some.inj (isJmp.symm.trans here)
  rintro ⟨m, named, fits⟩
  obtain rfl : ⟨[alu 0xd], some 15, none, none, 0⟩ = m := Option.some.inj named
  have moves : k = 0x0d#5 := single.op.symm.trans (Patterns.known_field knows 22 5 (by decide))
  have user : w.getLsbD 13 = true := Patterns.bit_of_known knows 13 (by decide)
  have laid : Laid false (.long k r true) w (decode o w false) := single.laid built fun _ => user
  have code : (Layout.long k r true).rb = URGFIELD 14 := if_pos moves
  have used : URGFIELD 14 ≠ OPUNUSED := by decide
  have rB : (decode o w false).rB = true := laid.rB.trans (by rw [code]; rfl)
  have dcdB : (decode o w false).dcdB = 1#1 ++ w.extractLsb' 14 4 := by
    rw [laid.dcdB (by rw [code]; exact used), code, source_user]
  have b := fits.b
  rw [rB, if_pos rfl, dcdB] at b
  have same : BitVec.ofBool false ++ w.extractLsb' 14 4 = 1#1 ++ w.extractLsb' 14 4 := by
    rw [← source_own]
    exact Option.some.inj b
  have top := congrArg (fun x : BitVec 5 => x.extractLsb' 4 1) same
  simp only [Fields.first] at top
  exact absurd top (by decide)

include built in
/-- The entry of an instruction says what the decoder makes of it, but for a jump through a register of the user. -/
theorem Single.denotes_iff (single : Single w k r) :
    (∃ op, entry zipOplist w = some op ∧ op.Denotes gie w (decode o w gie)) ↔ ¬(gie = false ∧ userJump w = true) := by
  constructor
  · rintro ⟨op, here, denotes⟩ ⟨rfl, jump⟩
    exact single.jump_differs built jump op here denotes
  · intro shown
    obtain ⟨op, here, matched, each⟩ := entry_among single.controls (long_table k r (w.getLsbD 13) single.valid)
    refine ⟨op, here, ?_⟩
    rw [Bool.or_eq_true] at each
    rcases each with apt | jump
    · exact Zopcode.denotes_of_apt apt matched (single.laid built fun _ => rfl)
    · simp only [Bool.and_eq_true, beq_iff_eq, Bool.not_eq_true'] at jump
      obtain ⟨⟨⟨rfl, rfl⟩, rfl⟩, user⟩ := jump
      -- for the user, all registers are those of the user
      have mode : gie = true := by
        cases gie with
        | true => rfl
        | false =>
          have whole := Patterns.both (jmpEntry.matched_iff.mp matched) (Patterns.bit user)
          exact absurd ⟨rfl, beq_iff_eq.mpr whole⟩ shown
      exact Zopcode.denotes_of_apt (l := .long 0x0d#5 false false) (by decide) matched
        (single.laid built fun supervisor => absurd (mode.symm.trans supervisor) (by decide))

end Long

/-! ### Halves of compressed pairs -/

/-- The bits of a half that its layout depends on. -/
def halfBits (s : Nat) : BitVec 32 := 0x80000000#32 ||| 0x780#32 <<< s

def halfControl (s : Nat) (c : BitVec 3) (r : Bool) : BitVec 32 :=
  0x80000000#32 ||| (c.setWidth 32 <<< (s + 8) ||| (BitVec.ofBool r).setWidth 32 <<< (s + 7))

/-- The first table is for the upper halves. -/
def tableOf (s : Nat) : List Zopcode := if s = 16 then zipOplist else zipOpbottomlist

/-- The halves whose entries say something else, or may do so. -/
def doubtful (s : Nat) (c : BitVec 3) (r : Bool) : Bool :=
  c == 1#3 && !r || c == 3#3 || c == 5#3 && r && s == 16 || c == 7#3 && !r || c == 7#3 && r && s == 16

theorem half_table : ∀ s ∈ [16, 0], ∀ (c : BitVec 3) (r : Bool), doubtful s c r = false →
    (candidates (halfBits s) (halfControl s c r) (tableOf s)).any
      (fun ops => ops.all (Zopcode.apt (.half (BitVec.ofNat 32 s) c r))) = true := by
  decide +kernel

/-- The halves that the tables have right. -/
structure Shown (ins : BitVec 32) (s : Nat) (c : BitVec 3) (r : Bool) : Prop where
  /-- Not an `AND` of an immediate to the program counter. -/
  and : c = 1#3 → r = false → ins.extractLsb' (s + 11) 4 ≠ 0xf#4
  /-- Not a `CMP`. -/
  cmp : c ≠ 3#3
  /-- In an upper half, not a `SW` to an address that is not on the stack. -/
  sw : c = 5#3 → s = 16 → r = false
  /-- A `MOV` in an upper half is a return, -/
  rtn : c = 7#3 → r = true → s = 16 → ins.extractLsb' (s + 11) 4 = 0xf#4 ∧ ins.extractLsb' s 7 = 0#7
  /-- and a `MOV` without the bit for a register a jump whose register and sign are all zeroes or all ones. -/
  jmp : c = 7#3 → r = false →
    ins.extractLsb' (s + 11) 4 = 0xf#4 ∧ (ins.extractLsb' (s + 2) 5 = 0#5 ∨ ins.extractLsb' (s + 2) 5 = 0x1f#5)

section Halves
variable {o : Options} (built : Built o) {ins w : BitVec 32} {gie : Bool} {s : Nat} {c : BitVec 3} {r : Bool}

theorem Half.controls (half : Half ins w s c r) (pair : cis ins = true) : ins &&& halfBits s = halfControl s c r := by
  have code : ins.extractLsb' (s + 8) 3 = c := by rw [← half.same 8 3 (by decide), half.code]
  have imm : ins.getLsbD (s + 7) = r := by
    have bit := half.same 7 1 (by decide)
    rw [Fields.bit, Fields.bit, half.imm] at bit
    exact (Fields.ofBool_inj bit).symm
  have top : ins.getLsbD 31 = true := pair
  have knows := Patterns.both (Patterns.bit top) (Patterns.both (Patterns.field code) (Patterns.bit imm))
  rcases half.place with rfl | rfl
  · exact knows
  · exact knows

include built in
theorem Half.denotes_plain (half : Half ins w s c r) (pair : cis ins = true) (sure : doubtful s c r = false) :
    ∃ op, entry (tableOf s) ins = some op ∧ op.Denotes gie ins (decode o w gie) := by
  have listed : s ∈ [16, 0] := by
    rcases half.place with rfl | rfl <;> decide
  obtain ⟨op, here, matched, apt⟩ := entry_among (half.controls pair) (half_table s listed c r sure)
  exact ⟨op, here, Zopcode.denotes_of_apt apt matched (half.laid built)⟩

/-- The entry of a `CMP` names a register for a result. -/
theorem cmp_table : ∀ s ∈ [16, 0], ∀ r : Bool, (candidates (halfBits s) (halfControl s 3#3 r) (tableOf s)).any
    (fun ops => ops.all fun op => op.result != OPUNUSED) = true := by
  decide +kernel

include built in
theorem Half.cmp_differs (half : Half ins w s 3#3 r) (pair : cis ins = true) :
    ¬∃ op, entry (tableOf s) ins = some op ∧ op.Denotes gie ins (decode o w gie) := by
  have listed : s ∈ [16, 0] := by
    rcases half.place with rfl | rfl <;> decide
  obtain ⟨op, here, -, named⟩ := entry_among (half.controls pair) (cmp_table s listed r)
  rintro ⟨op', here', m, -, fits⟩
  obtain rfl : op = op' := Option.some.inj (here.symm.trans here')
  have silent : (decode o w gie).wR = false := congrArg Operation.wR (half.operation built)
  have result := fits.result
  rw [silent, told, if_pos (bne_iff_ne.mp named)] at result
  cases result

/-- The first entry for a `SW` in an upper half is the one for the stack. -/
theorem sw_table : (candidates (halfBits 16) (halfControl 16 5#3 true) zipOplist).any
    (fun ops => ops.all fun op => op.rb == SP && op.i == IMMFIELD 7 16 && op.opstr != "TRAP") = true := by
  decide +kernel

include built in
theorem Half.sw_differs (half : Half ins w 16 5#3 true) (pair : cis ins = true) :
    ¬∃ op, entry zipOplist ins = some op ∧ op.Denotes gie ins (decode o w gie) := by
  obtain ⟨op, here, -, stack⟩ := entry_among (half.controls pair) sw_table
  simp only [Bool.and_eq_true, beq_iff_eq, bne_iff_ne] at stack
  obtain ⟨⟨rb, i⟩, notTrap⟩ := stack
  rintro ⟨op', here', m, -, fits⟩
  obtain rfl : op = op' := Option.some.inj (here.symm.trans here')
  have laid : Laid gie (.half 16 5#3 true) ins (decode o w gie) := half.laid built
  have rB : (decode o w gie).rB = true := laid.rB
  have base : (decode o w gie).dcdB = BitVec.ofBool gie ++ ins.extractLsb' 19 4 :=
    (laid.dcdB (by decide)).trans (register_own ins rfl rfl rfl rfl)
  have offset : (decode o w gie).o_I = (ins.extractLsb' 16 3).signExtend 32 :=
    laid.imm.trans (@immediate ins 16 3 16 3 (by decide) rfl rfl (by decide))
  -- the register would have to be the stack pointer, whose number is not a sign
  have sp : ins.extractLsb' 19 4 = CPU_SP_REG := by
    have b := fits.b
    rw [rB, if_pos rfl, base, rb, told, if_pos (by decide), Option.map_some, register_sp] at b
    have low := congrArg (fun x : BitVec 5 => x.extractLsb' 0 4) (Option.some.inj b)
    simpa only [BitVec.extractLsb'_append_eq_right] using low.symm
  have imm := fits.imm.resolve_right fun trap => notTrap trap.1
  rw [offset, i, told, if_pos (by decide), @immediate ins 16 7 16 7 (by decide) rfl rfl (by decide)] at imm
  have low : (ins.extractLsb' 16 7).extractLsb' 0 3 = ins.extractLsb' 16 3 := Fields.nested ins 16 (by decide)
  have high : (ins.extractLsb' 16 7).extractLsb' 3 4 = ins.extractLsb' 19 4 := Fields.nested ins 16 (by decide)
  have differs : ∀ z : BitVec 7, z.extractLsb' 3 4 = CPU_SP_REG →
      z.signExtend 32 ≠ (z.extractLsb' 0 3).signExtend 32 := by decide
  exact differs _ (high.trans sp) (low ▸ Option.some.inj imm)

/-- The bits that tell a register of the upper half, or of the lower one. -/
def ofPc (s : Nat) : BitVec 32 := 0x7800#32 <<< s

/-- An `AND` of an immediate has two entries, one of them for a branch, which is the one of the counter. -/
theorem and_tables : ∀ s ∈ [16, 0],
    (candidates (halfBits s) (halfControl s 1#3 false) (tableOf s)).any
        (fun ops => ops.all fun op => op.apt (.half (BitVec.ofNat 32 s) 1#3 false) || op.opstr == "BRA" &&
          (op.mask.extractLsb' (s + 11) 4 == 0xf#4 && op.val.extractLsb' (s + 11) 4 == 0xf#4)) = true ∧
      (candidates (halfBits s ||| ofPc s) (halfControl s 1#3 false ||| ofPc s) (tableOf s)).any
        (fun ops => ops.all fun op => op.opstr == "BRA") = true := by
  decide +kernel

theorem Half.controls_pc (half : Half ins w s c r) (pair : cis ins = true) (pc : ins.extractLsb' (s + 11) 4 = 0xf#4) :
    ins &&& (halfBits s ||| ofPc s) = halfControl s c r ||| ofPc s := by
  have knows := Patterns.both (half.controls pair) (Patterns.field pc)
  rcases half.place with rfl | rfl
  · exact knows
  · exact knows

include built in
theorem Half.and_iff (half : Half ins w s 1#3 false) (pair : cis ins = true) :
    (∃ op, entry (tableOf s) ins = some op ∧ op.Denotes gie ins (decode o w gie)) ↔
      ins.extractLsb' (s + 11) 4 ≠ 0xf#4 := by
  have listed : s ∈ [16, 0] := by
    rcases half.place with rfl | rfl <;> decide
  constructor
  · rintro ⟨op', here', m, named, fits⟩ pc
    obtain ⟨op, here, -, jump⟩ := entry_among (half.controls_pc pair pc) (and_tables s listed).2
    obtain rfl : op = op' := Option.some.inj (here.symm.trans here')
    rw [beq_iff_eq.mp jump] at named
    obtain rfl : branch 0 = m := Option.some.inj named
    have operation := fits.operation
    rw [half.operation built] at operation
    exact absurd operation (by decide)
  · intro other
    obtain ⟨op, here, matched, either⟩ := entry_among (half.controls pair) (and_tables s listed).1
    refine ⟨op, here, ?_⟩
    rw [Bool.or_eq_true] at either
    rcases either with apt | jump
    · exact Zopcode.denotes_of_apt apt matched (half.laid built)
    · simp only [Bool.and_eq_true, beq_iff_eq] at jump
      exact absurd ((Patterns.known_field (op.matched_iff.mp matched) (s + 11) 4 jump.2.1).trans jump.2.2) other

/-- An entry for a jump to an address in a register, with too short an immediate. -/
def jumps (s : Nat) (op : Zopcode) : Bool :=
  op.opstr == "JMP" && op.i == IMMFIELD 3 (BitVec.ofNat 32 s) &&
    { op with i := IMMFIELD 7 (BitVec.ofNat 32 s) }.apt (.half (BitVec.ofNat 32 s) 7#3 false) &&
    (op.mask.extractLsb' (s + 11) 4 == 0xf#4 && op.val.extractLsb' (s + 11) 4 == 0xf#4)

/-- A `MOV` without the bit for a register is a jump or nothing, and a jump where its register is the counter. -/
theorem jmp_tables : ∀ s ∈ [16, 0],
    (candidates (halfBits s) (halfControl s 7#3 false) (tableOf s)).any
        (fun ops => ops.all fun op => jumps s op || names.lookup op.opstr == none) = true ∧
      (candidates (halfBits s ||| ofPc s) (halfControl s 7#3 false ||| ofPc s) (tableOf s)).any
        (fun ops => ops.all (jumps s)) = true := by
  decide +kernel

include built in
theorem Half.jmp_iff (half : Half ins w s 7#3 false) (pair : cis ins = true) :
    (∃ op, entry (tableOf s) ins = some op ∧ op.Denotes gie ins (decode o w gie)) ↔
      ins.extractLsb' (s + 11) 4 = 0xf#4 ∧
        (ins.extractLsb' (s + 2) 5 = 0#5 ∨ ins.extractLsb' (s + 2) 5 = 0x1f#5) := by
  have listed : s ∈ [16, 0] := by
    rcases half.place with rfl | rfl <;> decide
  have laid : Laid gie (.half (BitVec.ofNat 32 s) 7#3 false) ins (decode o w gie) := half.laid built
  have short (implied : Option (BitVec 32)) :
      told ins (IMMFIELD 3 (BitVec.ofNat 32 s)) implied = some ((ins.extractLsb' s 3).signExtend 32) := by
    rcases half.place with rfl | rfl
    · exact congrArg some (@immediate ins 16 3 16 3 (by decide) rfl rfl (by decide))
    · exact congrArg some (@immediate ins 0 3 0 3 (by decide) rfl rfl (by decide))
  have value : (decode o w gie).o_I = (ins.extractLsb' s 7).signExtend 32 := by
    rw [laid.imm]
    rcases half.place with rfl | rfl
    · exact @immediate ins 16 7 16 7 (by decide) rfl rfl (by decide)
    · exact @immediate ins 0 7 0 7 (by decide) rfl rfl (by decide)
  have low : (ins.extractLsb' s 7).extractLsb' 0 3 = ins.extractLsb' s 3 := Fields.nested ins s (by decide)
  have high : (ins.extractLsb' s 7).extractLsb' 2 5 = ins.extractLsb' (s + 2) 5 := Fields.nested ins s (by decide)
  have extended : ∀ z : BitVec 7, (z.extractLsb' 0 3).signExtend 32 = z.signExtend 32 ↔
      z.extractLsb' 2 5 = 0#5 ∨ z.extractLsb' 2 5 = 0x1f#5 := by decide
  have same : (ins.extractLsb' s 3).signExtend 32 = (decode o w gie).o_I ↔
      ins.extractLsb' (s + 2) 5 = 0#5 ∨ ins.extractLsb' (s + 2) 5 = 0x1f#5 := by
    rw [value, ← low, ← high]
    exact extended _
  constructor
  · rintro ⟨op', here', m, named, fits⟩
    obtain ⟨op, here, matched, either⟩ := entry_among (half.controls pair) (jmp_tables s listed).1
    obtain rfl : op = op' := Option.some.inj (here.symm.trans here')
    rw [Bool.or_eq_true] at either
    rcases either with jump | unnamed
    · simp only [jumps, Bool.and_eq_true, beq_iff_eq] at jump
      obtain ⟨⟨⟨name, i⟩, -⟩, covered, pc⟩ := jump
      refine ⟨(Patterns.known_field (op.matched_iff.mp matched) (s + 11) 4 covered).trans pc, same.mp ?_⟩
      have imm := fits.imm.resolve_right fun trap => absurd (name.symm.trans trap.1) (by decide)
      rw [i, short] at imm
      exact Option.some.inj imm
    · rw [beq_iff_eq.mp unnamed] at named
      cases named
  · rintro ⟨pc, sign⟩
    obtain ⟨op, here, matched, jump⟩ := entry_among (half.controls_pc pair pc) (jmp_tables s listed).2
    simp only [jumps, Bool.and_eq_true, beq_iff_eq] at jump
    obtain ⟨⟨⟨-, i⟩, apt⟩, -, -⟩ := jump
    -- only the immediate is not what the entry with the longer one has
    obtain ⟨m, named, near⟩ := Zopcode.denotes_of_apt apt matched laid
    refine ⟨op, here, m, named, near.operation, near.result, near.a, near.named, near.b, .inl ?_, near.cond⟩
    rw [i, short, same.mpr sign]

/-- A `MOV` with the bit for a register is a return in an upper half, or its entry names no result. -/
theorem mov_tables : (candidates (halfBits 16) (halfControl 16 7#3 true) zipOplist).any (fun ops => ops.all fun op =>
      op.mask.extractLsb' 27 4 == 0xf#4 && op.val.extractLsb' 27 4 == 0xf#4 && op.mask.extractLsb' 16 7 == 0x7f#7 &&
          op.val.extractLsb' 16 7 == 0#7 ||
        op.result == OPUNUSED && (names.lookup op.opstr).all fun m => m.reg == none) = true ∧
    (candidates 0xffff0000 0xff800000 zipOplist).any
      (fun ops => ops.all (Zopcode.apt (.half 16 7#3 true))) = true := by
  decide +kernel

include built in
theorem Half.mov_iff (half : Half ins w 16 7#3 true) (pair : cis ins = true) :
    (∃ op, entry zipOplist ins = some op ∧ op.Denotes gie ins (decode o w gie)) ↔
      ins.extractLsb' 27 4 = 0xf#4 ∧ ins.extractLsb' 16 7 = 0#7 := by
  have laid : Laid gie (.half 16 7#3 true) ins (decode o w gie) := half.laid built
  constructor
  · rintro ⟨op', here', m, named, fits⟩
    obtain ⟨op, here, matched, either⟩ := entry_among (half.controls pair) mov_tables.1
    obtain rfl : op = op' := Option.some.inj (here.symm.trans here')
    rw [Bool.or_eq_true] at either
    have matched := op.matched_iff.mp matched
    rcases either with ret | nothing
    · simp only [Bool.and_eq_true, beq_iff_eq] at ret
      obtain ⟨⟨⟨covered, pc⟩, covered'⟩, zero⟩ := ret
      exact ⟨(Patterns.known_field matched 27 4 covered).trans pc,
        (Patterns.known_field matched 16 7 covered').trans zero⟩
    · simp only [Bool.and_eq_true, beq_iff_eq] at nothing
      obtain ⟨unused, silent⟩ := nothing
      rw [named] at silent
      have wR : (decode o w gie).wR = true := congrArg Operation.wR laid.operation
      have result := fits.result
      rw [wR, told, if_neg (not_not.mpr unused), beq_iff_eq.mp silent] at result
      cases result
  · rintro ⟨pc, zero⟩
    have knows := Patterns.both (half.controls pair) (Patterns.both (Patterns.field pc) (Patterns.field zero))
    obtain ⟨op, here, matched, apt⟩ := entry_among knows mov_tables.2
    exact ⟨op, here, Zopcode.denotes_of_apt apt matched laid⟩

include built in
/-- The entry of a half says what the decoder makes of it if it is one that the tables have right. -/
theorem Half.denotes_iff (half : Half ins w s c r) (pair : cis ins = true) :
    (∃ op, entry (tableOf s) ins = some op ∧ op.Denotes gie ins (decode o w gie)) ↔ Shown ins s c r := by
  cases sure : doubtful s c r with
  | false =>
    refine ⟨fun _ => ?_, fun _ => half.denotes_plain built pair sure⟩
    simp only [doubtful, Bool.or_eq_false_iff, Bool.and_eq_false_imp, beq_iff_eq, beq_eq_false_iff_ne,
      Bool.not_eq_false', Bool.and_eq_true] at sure
    obtain ⟨⟨⟨⟨and, cmp⟩, sw⟩, jmp⟩, mov⟩ := sure
    refine ⟨fun code off => ?_, cmp, fun code upper => ?_, fun code on upper => ?_, fun code off => ?_⟩
    · exact absurd (off.symm.trans (and code)) (by decide)
    · cases set : r with
      | false => rfl
      | true => exact absurd upper (sw ⟨code, set⟩)
    · exact absurd upper (mov ⟨code, on⟩)
    · exact absurd (off.symm.trans (jmp code)) (by decide)
  | true =>
    simp only [doubtful, Bool.or_eq_true, Bool.and_eq_true, beq_iff_eq, Bool.not_eq_true'] at sure
    rcases sure with (((⟨rfl, rfl⟩ | rfl) | ⟨⟨rfl, rfl⟩, rfl⟩) | ⟨rfl, rfl⟩) | ⟨⟨rfl, rfl⟩, rfl⟩
    · refine (half.and_iff built pair).trans
        ⟨fun other => ⟨fun _ _ => other, ?_, ?_, ?_, ?_⟩, fun shown => shown.and rfl rfl⟩
      · decide
      · exact fun code => absurd code (by decide)
      · exact fun code => absurd code (by decide)
      · exact fun code => absurd code (by decide)
    · exact ⟨fun denotes => absurd denotes (half.cmp_differs built pair), fun shown => absurd rfl shown.cmp⟩
    · exact ⟨fun denotes => absurd denotes (half.sw_differs built pair),
        fun shown => absurd (shown.sw rfl rfl) (by decide)⟩
    · refine (half.jmp_iff built pair).trans
        ⟨fun goes => ⟨?_, ?_, fun _ _ => rfl, ?_, fun _ _ => goes⟩, fun shown => shown.jmp rfl rfl⟩
      · exact fun code => absurd code (by decide)
      · decide
      · exact fun _ on => absurd on (by decide)
    · refine (half.mov_iff built pair).trans
        ⟨fun returns => ⟨?_, ?_, ?_, fun _ _ _ => returns, ?_⟩, fun shown => shown.rtn rfl rfl rfl⟩
      · exact fun code => absurd code (by decide)
      · decide
      · exact fun code => absurd code (by decide)
      · exact fun _ off => absurd off (by decide)

end Halves

/-! ### The decoder -/

/-- A decoder that takes in a word as it is fetched. -/
structure Taken {aw : Nat} (s : Idecode aw) (i : Idecode.Inputs aw) (ins : BitVec 32) : Prop where
  first : s.phase = false
  reset : i.reset = false
  ce : i.ce = true
  pfValid : i.pfValid = true
  instruction : i.instruction = ins

/-- What is printed of a `MOV` out of the program counter, for which no entry is looked up. -/
structure PcMov (gie : Bool) (ins : BitVec 32) (f : Fields) : Prop where
  operation : Operation.of f = alu 0xd
  result : register gie (zipGetbits ins (REGFIELD 27)) = f.dcdR
  b : f.rB = true ∧ f.dcdB = BitVec.ofBool gie ++ CPU_PC_REG
  imm : (zipSbits (ins.setWidth 64) 13).setWidth 32 = f.o_I
  cond : condition (zipGetbits ins (BITFIELD 3 19)) = f.cond

section Taken
variable {aw : Nat} {o : Options} {s : Idecode aw} {i : Idecode.Inputs aw} {ins : BitVec 32}

theorem Taken.dcd (taken : Taken s i ins) (built : Built o) : (s.idecode o i).dcd = decode o ins i.gie := by
  simp [idecode, iword, taken.ce, taken.first, built.cis, taken.instruction]

theorem Taken.legal (taken : Taken s i ins) (built : Built o) (legal : (s.idecode o i).illegal = false) :
    illegalWord o ins ins i.gie = false := by
  have flags : (s.idecode o i).illegal = (illegalWord o ins ins i.gie || i.illegal) := by
    simp [idecode, nextIllegal, iword, taken.reset, taken.ce, taken.first, taken.pfValid, built.cis, taken.instruction]
  exact (Bool.or_eq_false_iff.mp (flags.symm.trans legal)).1

/-- Behind a pair its second half is decoded, whatever is fetched. -/
theorem Taken.second (taken : Taken s i ins) (built : Built o) (phase : (s.idecode o i).phase = true)
    {j : Idecode.Inputs aw} (ce : j.ce = true) : ((s.idecode o i).idecode o j).dcd =
      decode o ((0b1#1 ++ ins.extractLsb' 0 15) ++ j.instruction.extractLsb' 0 16) j.gie := by
  have nxtHalf : (s.idecode o i).nxtHalf = ins.extractLsb' 0 15 := by
    simp [idecode, iword, taken.ce, taken.first, built.cis, taken.instruction]
  have upper : (s.idecode o i).iword o j = (0b1#1 ++ ins.extractLsb' 0 15) ++ j.instruction.extractLsb' 0 16 := by
    rw [iword, built.cis, if_pos rfl, phase, if_pos rfl, nxtHalf]
  rw [idecode, ce, if_pos rfl, upper]

theorem half_first (pair : cis ins = true) : Half ins ins 16 (ins.extractLsb' 24 3) (ins.getLsbD 23) :=
  ⟨pair, .inl rfl, fun _ _ _ => rfl, rfl, rfl⟩

theorem half_second (low : BitVec 16) :
    Half ins ((0b1#1 ++ ins.extractLsb' 0 15) ++ low) 0 (ins.extractLsb' 8 3) (ins.getLsbD 7) := by
  have same (p n : Nat) (inside : p + n ≤ 15) :
      ((0b1#1 ++ ins.extractLsb' 0 15) ++ low).extractLsb' (16 + p) n = ins.extractLsb' (0 + p) n := by
    rw [BitVec.extractLsb'_append_eq_of_le (Nat.le_add_right 16 p), Nat.add_sub_cancel_left,
      BitVec.extractLsb'_append_eq_of_add_le inside, Fields.nested ins 0 inside]
  have imm := same 7 1 (by decide)
  rw [Fields.bit, Fields.bit] at imm
  refine ⟨?_, .inr rfl, same, same 8 3 (by decide), Fields.ofBool_inj imm⟩
  rw [cis, BitVec.getLsbD_append, if_neg (by decide), BitVec.getLsbD_append, if_neg (by decide)]
  rfl

theorem pcMov_laid (built : Built o) {gie : Bool} (moves : offsetPcMov ins = true) :
    PcMov gie ins (decode o ins gie) := by
  have knows : ins &&& 0x87c7e000 = 0x0343c000 := eq_of_beq moves
  have single : Single ins 0x0d#5 false :=
    ⟨Patterns.bit_of_known knows 31 (by decide), Patterns.known_field knows 22 5 (by decide), by decide,
      Patterns.bit_of_known knows 18 (by decide)⟩
  have laid : Laid gie (.long 0x0d#5 false false) ins (decode o ins gie) :=
    single.laid built fun _ => Patterns.bit_of_known knows 13 (by decide)
  refine ⟨laid.operation, laid.dcdR.symm, ⟨laid.rB, ?_⟩, ?_, Option.some.inj laid.cond⟩
  · rw [laid.dcdB (by decide)]
    exact source_own.trans (congrArg (BitVec.ofBool gie ++ ·) (Patterns.known_field knows 14 4 (by decide)))
  · rw [laid.imm]
    rfl

/-- The entry of an instruction says what the decoder makes of it unless it is a jump to an address in a register of
the user, by the supervisor; that of a half does if it is one that the tables have right. -/
theorem Taken.shown_as_decoded (taken : Taken s i ins) (built : Built o) :
    (cis ins = false → (s.idecode o i).illegal = false → wSpecial o ins i.gie = false →
      ((∃ op, entry zipOplist ins = some op ∧ op.Denotes i.gie ins (s.idecode o i).dcd) ↔
        ¬(i.gie = false ∧ userJump ins = true))) ∧
    (offsetPcMov ins = true → PcMov i.gie ins (s.idecode o i).dcd) ∧
    (cis ins = true →
      ((∃ op, entry zipOplist ins = some op ∧ op.Denotes i.gie ins (s.idecode o i).dcd) ↔
        Shown ins 16 (ins.extractLsb' 24 3) (ins.getLsbD 23)) ∧
      ((s.idecode o i).phase = true → ∀ j : Idecode.Inputs aw, j.ce = true →
        ((∃ op, entry zipOpbottomlist ins = some op ∧ op.Denotes j.gie ins ((s.idecode o i).idecode o j).dcd) ↔
          Shown ins 0 (ins.extractLsb' 8 3) (ins.getLsbD 7)))) := by
  rw [taken.dcd built]
  refine ⟨fun alone legal plain => ?_, pcMov_laid built, fun pair => ⟨?_, fun phase j ce => ?_⟩⟩
  · exact (Single.of_legal built alone (taken.legal built legal) plain).denotes_iff built
  · exact (half_first pair).denotes_iff built pair
  · rw [taken.second built phase ce]
    exact (half_second _).denotes_iff built pair

end Taken

/-- The decoder with compressed instructions, multiplication and division. -/
def options : Options := ⟨true, false, false, true, false, true, false, false, false, false⟩

def fetched (ins : BitVec 32) : Idecode.Inputs 4 := ⟨false, true, false, ins, false, 0, true, false⟩

def fresh : Idecode 4 := default

/-- `LW $8(SP),R0 | LDI $5,R0` -/
theorem Taken.shown_as_decoded_pair :
    (∃ op, entry zipOplist 0x84080605 = some op ∧
      op.Denotes false 0x84080605 (fresh.idecode options (fetched 0x84080605)).dcd) ∧
    ∃ op, entry zipOpbottomlist 0x84080605 = some op ∧
      op.Denotes false 0x84080605 ((fresh.idecode options (fetched 0x84080605)).idecode options (fetched 0)).dcd := by
  have taken : Taken fresh (fetched 0x84080605) 0x84080605 := ⟨rfl, rfl, rfl, rfl, rfl⟩
  have built : Built options := ⟨rfl, rfl, rfl, rfl, rfl⟩
  obtain ⟨-, -, halves⟩ := taken.shown_as_decoded built
  obtain ⟨first, second⟩ := halves (by decide)
  refine ⟨first.mpr ⟨?_, ?_, ?_, ?_, ?_⟩, (second (by decide) (fetched 0) rfl).mpr ⟨?_, ?_, ?_, ?_, ?_⟩⟩
  all_goals decide

/-- A store to the address in `R1` is shown as one to the stack. -/
theorem stack_shown :
    let s := fresh.idecode options (fetched 0x85888000)
    s.illegal = false ∧ s.dcd.dcdB = 1 ∧ s.dcd.o_I = 0 ∧
      zipiToHalfstring 0 0x85888000 zipOplist = some "SW         R0,$8(SP)" ∧
      ¬∃ op, entry zipOplist 0x85888000 = some op ∧ op.Denotes false 0x85888000 s.dcd := by
  have built : Built options := ⟨rfl, rfl, rfl, rfl, rfl⟩
  have half : Half 0x85888000 0x85888000 16 5#3 true := half_first (by decide)
  refine ⟨by decide, by decide, by decide, by decide +kernel, ?_⟩
  exact half.sw_differs built (by decide)

end IcoZip.Zopcodes
