import IcoZip.Disassembly.Meaning

/-! The layouts that the decoder has for instructions and for the halves of compressed pairs. -/

set_option autoImplicit false

namespace IcoZip.Zopcodes

open Zipcore Idecode

/-- The options that the processor is built with: no floating point, and a user mode. -/
structure Built (o : Options) : Prop where
  cis : o.optCis = true
  mpy : o.optMpy = true
  divide : o.optDivide = true
  noFpu : o.optFpu = false
  user : o.optNoUsermode = false

namespace Layout

section Codes
variable (k : BitVec 5)

def ldi : Bool := k.extractLsb' 1 4 == 0xc#4

def cmptst : Bool := k.extractLsb' 1 4 == 0x8#4

def mem : Bool := k.extractLsb' 3 2 == 0b10#2 && k.extractLsb' 1 2 != 0b00#2

def arithmetic : Bool := !k.getLsbD 4 && k.extractLsb' 1 3 != 0x7#3

def div : Bool := k.extractLsb' 1 4 == 0x7#4

def operationOf : Operation :=
  ⟨arithmetic k || ldi k || cmptst k, mem k, div k, false, if ldi k then 0xd#4 else k.extractLsb' 0 4,
    !(mem k && k.getLsbD 0 || cmptst k)⟩

def readsA : Bool := div k || arithmetic k && k != 0x08#5 && k != 0x0d#5 || mem k && k.getLsbD 0 || cmptst k

end Codes

/-- A 32-bit instruction, with the bit that tells an immediate from a register, and the one for a register of the user
as the source of a `MOV`. -/
def long (k : BitVec 5) (register user : Bool) : Layout where
  operation := operationOf k
  rA := readsA k
  reg := if k == 0x0d#5 && register then URGFIELD 27 else REGFIELD 27
  rb :=
    if k = 0x0d#5 then if user then URGFIELD 14 else REGFIELD 14
    else if register && !ldi k then REGFIELD 14
    else OPUNUSED
  imm :=
    if ldi k then IMMFIELD 23 0
    else if k = 0x0d#5 then IMMFIELD 13 0
    else if register then IMMFIELD 14 0
    else IMMFIELD 18 0
  cond := if ldi k then OPUNUSED else BITFIELD 3 19

/-- A half of a compressed pair, which begins at bit `s`. -/
def half (s : BitVec 32) (c : BitVec 3) (register : Bool) : Layout where
  operation := operationOf (cisOp c)
  rA := readsA (cisOp c)
  reg := REGFIELD (s + 11)
  rb :=
    if c = 7#3 then REGFIELD (s + 3)
    else if c = 6#3 then OPUNUSED
    else if register then REGFIELD (s + 3)
    else if c = 4#3 ∨ c = 5#3 then SP
    else OPUNUSED
  imm := if c = 6#3 then IMMFIELD 8 s else if register then IMMFIELD 3 s else IMMFIELD 7 s
  cond := OPUNUSED

end Layout

/-! ### Instructions -/

section Long
variable {o : Options} (built : Built o) {w : BitVec 32} {gie : Bool} {k : BitVec 5} {r u : Bool}

theorem register_own (ins : BitVec 32) {code : BitVec 32} {s : Nat} (signed : code &&& 0x40000000 = 0)
    (atPlace : (code &&& 0x3f).toNat = s) (ofSize : (code >>> 8 &&& 0x3f).toNat = 4)
    (plain : code >>> 16 &&& 0xff = 0) :
    register gie (zipGetbits ins code) = BitVec.ofBool gie ++ ins.extractLsb' s 4 := by
  have own : ∀ (g : Bool) (x : BitVec 4), register g (x.setWidth 32 + 0) = BitVec.ofBool g ++ x := by decide
  rw [zipGetbits_unsigned ins signed atPlace ofSize, plain]
  exact own gie _

theorem register_user (ins : BitVec 32) {code : BitVec 32} {s : Nat} (signed : code &&& 0x40000000 = 0)
    (atPlace : (code &&& 0x3f).toNat = s) (ofSize : (code >>> 8 &&& 0x3f).toNat = 4)
    (user : code >>> 16 &&& 0xff = 16) :
    register gie (zipGetbits ins code) = 1#1 ++ ins.extractLsb' s 4 := by
  have theirs : ∀ (g : Bool) (x : BitVec 4), register g (x.setWidth 32 + 16) = 1#1 ++ x := by decide
  rw [zipGetbits_unsigned ins signed atPlace ofSize, user]
  exact theirs gie _

theorem condition_field (x : BitVec 3) : condition (x.setWidth 32 + 0) = BitVec.ofBool (x == 0#3) ++ x := by
  revert x
  decide

variable {ins : BitVec 32}

theorem result_own : register gie (zipGetbits ins (REGFIELD 27)) = BitVec.ofBool gie ++ ins.extractLsb' 27 4 :=
  register_own ins rfl rfl rfl rfl

theorem result_user : register gie (zipGetbits ins (URGFIELD 27)) = 1#1 ++ ins.extractLsb' 27 4 :=
  register_user ins rfl rfl rfl rfl

theorem source_own : register gie (zipGetbits ins (REGFIELD 14)) = BitVec.ofBool gie ++ ins.extractLsb' 14 4 :=
  register_own ins rfl rfl rfl rfl

theorem source_user : register gie (zipGetbits ins (URGFIELD 14)) = 1#1 ++ ins.extractLsb' 14 4 :=
  register_user ins rfl rfl rfl rfl

theorem immediate (s n : BitVec 32) {p q : Nat} (signed : IMMFIELD n s &&& 0x40000000 ≠ 0)
    (atPlace : (IMMFIELD n s &&& 0x3f).toNat = p) (ofSize : (IMMFIELD n s >>> 8 &&& 0x3f).toNat = q) (pos : 0 < q) :
    zipGetbits ins (IMMFIELD n s) = (ins.extractLsb' p q).signExtend 32 :=
  zipGetbits_signed ins signed atPlace ofSize pos

/-- A word that is one instruction, and not a special one. -/
structure Single (w : BitVec 32) (k : BitVec 5) (r : Bool) : Prop where
  alone : cis w = false
  op : wOp w = k
  valid : k < 0x1a#5
  imm : w.getLsbD 18 = r

namespace Single

variable (single : Single w k r)
include single

theorem code (o : Options) : wCisOp o w = k := by simp [wCisOp, single.alone, single.op]

theorem mov (o : Options) : wMov o w = (k == 0x0d#5) := by rw [wMov, single.code]

theorem ldi (o : Options) : wLdi o w = Layout.ldi k := by
  rw [wLdi, single.code]
  rfl

theorem not_special (o : Options) : wSpecial o w gie = false := by
  have low : ∀ k : BitVec 5, k < 0x1a#5 → (k.extractLsb' 2 3 == 0b111#3) = false := by decide
  rw [wSpecial, single.op, low k single.valid, Bool.and_false]

include built

theorem operation : Operation.of (decode o w gie) = Layout.operationOf k := by
  simp only [Operation.of, decode, Layout.operationOf, wALU, wLdi, wCmptst, wNoop, wLock, wMem, wDiv, wWR, wSto,
    single.code, single.not_special, built.divide, built.noFpu, single.alone, single.op, Layout.arithmetic, Layout.ldi,
    Layout.cmptst, Layout.mem, Layout.div]
  simp

theorem rA : (decode o w gie).rA = Layout.readsA k := by
  simp only [decode, wRA, wFpu, wDiv, wALU, wBrev, wMov, wSto, wMem, wCmptst, single.code, single.op, single.alone,
    built.noFpu, Layout.readsA, Layout.arithmetic, Layout.div, Layout.mem, Layout.cmptst]
  simp [bne]

theorem dcdR : (decode o w gie).dcdR = register gie (zipGetbits w (Layout.long k r u).reg) := by
  have set : (decode o w gie).dcdR =
      BitVec.ofBool (if k == 0x0d#5 && !gie then r else gie) ++ w.extractLsb' 27 4 := by
    simp only [decode, wDcdR, single.alone, built.user, single.mov, single.imm, Bool.not_false, Bool.true_and]
  rw [set, Layout.long]
  cases k == 0x0d#5 with
  | false => exact result_own.symm
  | true =>
    cases r with
    | false =>
      refine Eq.trans ?_ result_own.symm
      cases gie <;> rfl
    | true =>
      refine Eq.trans ?_ result_user.symm
      cases gie <;> rfl

omit built in
theorem rB : (decode o w gie).rB = ((Layout.long k r u).rb != OPUNUSED) := by
  simp only [decode, wRB, single.mov, single.ldi, single.alone, single.not_special, single.imm, Layout.long,
    Bool.not_false, Bool.true_and, Bool.and_true, Bool.false_and, Bool.or_false]
  by_cases moves : k = 0x0d#5
  · rw [if_pos moves, moves]
    cases u <;> rfl
  · rw [if_neg moves, beq_false_of_ne moves, Bool.false_or]
    cases r && !Layout.ldi k <;> rfl

theorem dcdB (user : gie = false → w.getLsbD 13 = u) (used : (Layout.long k r u).rb ≠ OPUNUSED) :
    (decode o w gie).dcdB = register gie (zipGetbits w (Layout.long k r u).rb) := by
  have set : (decode o w gie).dcdB =
      BitVec.ofBool (if k == 0x0d#5 && !gie then w.getLsbD 13 else gie) ++ w.extractLsb' 14 4 := by
    simp only [decode, wDcdB, single.alone, built.user, single.mov, Bool.not_false, Bool.true_and, Bool.false_eq_true,
      if_false, Bool.and_true]
  rw [set]
  by_cases moves : k = 0x0d#5
  · have code : (Layout.long k r u).rb = if u then URGFIELD 14 else REGFIELD 14 := if_pos moves
    rw [code, moves]
    cases gie with
    | true =>
      cases u with
      | false => exact source_own.symm
      | true => exact source_user.symm
    | false =>
      rw [user rfl]
      cases u with
      | false => exact source_own.symm
      | true => exact source_user.symm
  · have code : (Layout.long k r u).rb = if r && !Layout.ldi k then REGFIELD 14 else OPUNUSED := if_neg moves
    rw [code] at used ⊢
    rw [beq_false_of_ne moves]
    cases reads : r && !Layout.ldi k with
    | false =>
      rw [reads, if_neg Bool.false_ne_true] at used
      exact absurd rfl used
    | true => exact source_own.symm

omit built in
theorem o_I : (decode o w gie).o_I = zipGetbits w (Layout.long k r u).imm := by
  have value : (decode o w gie).o_I = (wFullI o w).signExtend 32 := by
    simp only [decode, Fields.o_I, wI, single.alone, Bool.and_false, Bool.false_eq_true, if_false]
  rw [value, wFullI, single.ldi, single.mov, single.imm]
  simp only [Layout.long, beq_iff_eq]
  split
  · exact (@immediate w 0 23 0 23 (by decide) rfl rfl (by decide)).symm
  · split
    · rw [Fields.signExtend_twice _ 32 (by decide) (by decide)]
      exact (@immediate w 0 13 0 13 (by decide) rfl rfl (by decide)).symm
    · cases r with
      | false =>
        rw [Bool.not_false, if_pos rfl, Fields.signExtend_twice _ 32 (by decide) (by decide)]
        exact (@immediate w 0 18 0 18 (by decide) rfl rfl (by decide)).symm
      | true =>
        rw [Bool.not_true, if_neg Bool.false_ne_true, Fields.signExtend_twice _ 32 (by decide) (by decide)]
        exact (@immediate w 0 14 0 14 (by decide) rfl rfl (by decide)).symm

omit built in
theorem cond : (told w (Layout.long k r u).cond (some 0)).map condition = some (decode o w gie).cond := by
  simp only [decode, wCond, single.ldi, single.not_special, single.alone, Bool.or_false, Layout.long]
  split
  · rfl
  · rw [told, if_pos (by decide), zipGetbits_unsigned w (by decide) rfl rfl]
    exact congrArg some (condition_field _)

theorem laid (user : gie = false → w.getLsbD 13 = u) : Laid gie (.long k r u) w (decode o w gie) :=
  ⟨single.operation built, single.rA built, single.dcdR built, single.rB, single.dcdB built user, single.o_I,
    single.cond⟩

end Single

end Long

/-! ### Halves -/

section Halves
variable {o : Options} (built : Built o) {ins w : BitVec 32} {gie : Bool} {s : Nat} {c : BitVec 3} {r : Bool}

theorem register_sp : register gie (zipGetbits ins SP) = BitVec.ofBool gie ++ CPU_SP_REG := by
  have thirteen : ∀ g : Bool, register g ((0#0).setWidth 32 + 13) = BitVec.ofBool g ++ CPU_SP_REG := by decide
  have empty : ins.extractLsb' 0 0 = 0#0 := Subsingleton.elim _ _
  rw [@zipGetbits_unsigned ins SP 0 0 (by decide) rfl rfl, empty]
  exact thirteen gie

/-- The decoder finds the half of a pair that begins at bit `s` in the upper half of its word. -/
structure Half (ins w : BitVec 32) (s : Nat) (c : BitVec 3) (r : Bool) : Prop where
  pair : cis w = true
  place : s = 16 ∨ s = 0
  same : ∀ p n, p + n ≤ 15 → w.extractLsb' (16 + p) n = ins.extractLsb' (s + p) n
  code : w.extractLsb' 24 3 = c
  imm : w.getLsbD 23 = r

namespace Half

variable (half : Half ins w s c r)
include half built

theorem op : wCisOp o w = cisOp c := by simp [wCisOp, built.cis, half.pair, half.code]

theorem ldi : wLdi o w = (c == 6#3) := by
  have six : ∀ c : BitVec 3, ((cisOp c).extractLsb' 1 4 == 0xc#4) = (c == 6#3) := by decide
  rw [wLdi, half.op built, six]

theorem mov : wMov o w = (c == 7#3) := by
  have seven : ∀ c : BitVec 3, (cisOp c == 0x0d#5) = (c == 7#3) := by decide
  rw [wMov, half.op built, seven]

theorem mem : wMem o w = (c == 4#3 || c == 5#3) := by
  have four : ∀ c : BitVec 3, ((cisOp c).extractLsb' 3 2 == 0b10#2 && (cisOp c).extractLsb' 1 2 != 0b00#2) =
      (c == 4#3 || c == 5#3) := by decide
  rw [wMem, half.op built, four]

theorem operation : Operation.of (decode o w gie) = Layout.operationOf (cisOp c) := by
  have noDiv : ∀ c : BitVec 3, Layout.div (cisOp c) = false := by decide
  simp only [Operation.of, decode, Layout.operationOf, wALU, wLdi, wCmptst, wNoop, wLock, wMem, wDiv, wWR, wSto,
    wSpecial, half.op built, built.noFpu, half.pair, Layout.arithmetic, Layout.ldi, Layout.cmptst, Layout.mem, noDiv]
  simp

theorem rA : (decode o w gie).rA = Layout.readsA (cisOp c) := by
  have noDiv : ∀ c : BitVec 3, Layout.div (cisOp c) = false := by decide
  simp only [decode, wRA, wFpu, wDiv, wALU, wBrev, wMov, wSto, wMem, wCmptst, half.op built, half.pair, built.noFpu,
    Layout.readsA, Layout.arithmetic, noDiv, Layout.mem, Layout.cmptst]
  simp [bne]

omit built in
theorem named {p : Nat} (inside : p + 4 ≤ 15) {code : BitVec 32} (signed : code &&& 0x40000000 = 0)
    (atPlace : (code &&& 0x3f).toNat = s + p) (ofSize : (code >>> 8 &&& 0x3f).toNat = 4)
    (plain : code >>> 16 &&& 0xff = 0) :
    BitVec.ofBool gie ++ w.extractLsb' (16 + p) 4 = register gie (zipGetbits ins code) := by
  rw [register_own ins signed atPlace ofSize plain, half.same p 4 inside]

omit built in
theorem result : BitVec.ofBool gie ++ w.extractLsb' 27 4 =
    register gie (zipGetbits ins (REGFIELD (BitVec.ofNat 32 s + 11))) := by
  rcases half.place with rfl | rfl
  · exact half.named (p := 11) (by decide) rfl rfl rfl rfl
  · exact half.named (p := 11) (by decide) rfl rfl rfl rfl

omit built in
theorem source : BitVec.ofBool gie ++ w.extractLsb' 19 4 =
    register gie (zipGetbits ins (REGFIELD (BitVec.ofNat 32 s + 3))) := by
  rcases half.place with rfl | rfl
  · exact half.named (p := 3) (by decide) rfl rfl rfl rfl
  · exact half.named (p := 3) (by decide) rfl rfl rfl rfl

omit built in
theorem dcdR : (decode o w gie).dcdR = register gie (zipGetbits ins (Layout.half (BitVec.ofNat 32 s) c r).reg) := by
  have set : (decode o w gie).dcdR = BitVec.ofBool gie ++ w.extractLsb' 27 4 := by
    simp only [decode, wDcdR, half.pair, Bool.not_true, Bool.false_and, Bool.false_eq_true, if_false]
  rw [set]
  exact half.result

theorem rB : (decode o w gie).rB = ((Layout.half (BitVec.ofNat 32 s) c r).rb != OPUNUSED) := by
  have reg : (REGFIELD (BitVec.ofNat 32 s + 3) != OPUNUSED) = true := by
    rcases half.place with rfl | rfl <;> rfl
  have sp : (SP != OPUNUSED) = true := rfl
  have sets : (decode o w gie).rB = (c == 7#3 || r && !(c == 6#3) || (c == 4#3 || c == 5#3)) := by
    simp only [decode, wRB, half.mov built, half.ldi built, half.mem built, half.pair, half.imm, Bool.not_true,
      Bool.false_and, Bool.or_false, Bool.true_and]
  rw [sets, Layout.half]
  by_cases moves : c = 7#3
  · rw [if_pos moves, reg, moves]
    rfl
  · rw [if_neg moves]
    by_cases loads : c = 6#3
    · rw [if_pos loads, loads, beq_self_eq_true, Bool.not_true, Bool.and_false]
      rfl
    · rw [if_neg loads, beq_false_of_ne moves, beq_false_of_ne loads]
      cases r with
      | true => exact reg.symm
      | false =>
        simp only [Bool.false_eq_true, if_false]
        split
        · rename_i memory
          rw [sp]
          rcases memory with rfl | rfl <;> rfl
        · rename_i other
          obtain ⟨load, store⟩ := not_or.mp other
          rw [beq_false_of_ne load, beq_false_of_ne store]
          rfl

omit built in
theorem dcdB (used : (Layout.half (BitVec.ofNat 32 s) c r).rb ≠ OPUNUSED) :
    (decode o w gie).dcdB = register gie (zipGetbits ins (Layout.half (BitVec.ofNat 32 s) c r).rb) := by
  have upper : w.extractLsb' 25 2 = c.extractLsb' 1 2 := by
    rw [← half.code, Fields.nested w 24 (by decide)]
  have set : (decode o w gie).dcdB = BitVec.ofBool gie ++
      (if !r && c.extractLsb' 1 2 == 0b10#2 then CPU_SP_REG else w.extractLsb' 19 4) := by
    simp only [decode, wDcdB, half.pair, half.imm, upper, Bool.not_true, Bool.false_and, Bool.false_eq_true, if_false,
      if_true]
  have memory : ∀ c : BitVec 3, (c.extractLsb' 1 2 == 0b10#2) = (c == 4#3 || c == 5#3) := by decide
  rw [set, memory]
  unfold Layout.half at used ⊢
  by_cases moves : c = 7#3
  · rw [if_pos moves, moves, ← half.source]
    cases r <;> rfl
  · rw [if_neg moves] at used ⊢
    by_cases loads : c = 6#3
    · rw [if_pos loads] at used
      exact absurd rfl used
    · rw [if_neg loads] at used ⊢
      cases r with
      | true => exact half.source
      | false =>
        rw [if_neg Bool.false_ne_true] at used ⊢
        by_cases memory : c = 4#3 ∨ c = 5#3
        · rw [if_pos memory, register_sp]
          rcases memory with rfl | rfl <;> rfl
        · rw [if_neg memory] at used
          exact absurd rfl used

theorem o_I : (decode o w gie).o_I = zipGetbits ins (Layout.half (BitVec.ofNat 32 s) c r).imm := by
  have set : (decode o w gie).o_I = ((wHalfI w).signExtend 23).signExtend 32 := by
    simp only [decode, Fields.o_I, wI, half.pair, built.cis, Bool.and_self, if_true]
  have low (n : Nat) (inside : n ≤ 15) : w.extractLsb' 16 n = ins.extractLsb' s n := half.same 0 n (by omega)
  rw [set, Fields.signExtend_twice _ 32 (by decide) (by decide), wHalfI, half.code, half.imm, low 8 (by decide),
    low 3 (by decide), low 7 (by decide)]
  have code : (Layout.half (BitVec.ofNat 32 s) c r).imm =
      if c = 6#3 then IMMFIELD 8 (BitVec.ofNat 32 s)
      else if r then IMMFIELD 3 (BitVec.ofNat 32 s)
      else IMMFIELD 7 (BitVec.ofNat 32 s) := rfl
  rw [code]
  by_cases loads : c = 6#3
  · rw [if_pos loads, if_pos loads]
    rcases half.place with rfl | rfl
    · exact (@immediate ins 16 8 16 8 (by decide) rfl rfl (by decide)).symm
    · exact (@immediate ins 0 8 0 8 (by decide) rfl rfl (by decide)).symm
  · rw [if_neg loads, if_neg loads]
    cases r with
    | true =>
      rw [if_pos rfl, if_pos rfl, Fields.signExtend_twice _ 32 (by decide) (by decide)]
      rcases half.place with rfl | rfl
      · exact (@immediate ins 16 3 16 3 (by decide) rfl rfl (by decide)).symm
      · exact (@immediate ins 0 3 0 3 (by decide) rfl rfl (by decide)).symm
    | false =>
      rw [if_neg Bool.false_ne_true, if_neg Bool.false_ne_true, Fields.signExtend_twice _ 32 (by decide) (by decide)]
      rcases half.place with rfl | rfl
      · exact (@immediate ins 16 7 16 7 (by decide) rfl rfl (by decide)).symm
      · exact (@immediate ins 0 7 0 7 (by decide) rfl rfl (by decide)).symm

omit built in
theorem cond : (decode o w gie).cond = 0x8#4 := by
  simp only [decode, wCond, half.pair, Bool.or_true, if_true]

theorem laid : Laid gie (.half (BitVec.ofNat 32 s) c r) ins (decode o w gie) :=
  ⟨half.operation built, half.rA built, half.dcdR, half.rB built, half.dcdB, half.o_I built,
    congrArg some half.cond.symm⟩

end Half

end Halves

end IcoZip.Zopcodes
