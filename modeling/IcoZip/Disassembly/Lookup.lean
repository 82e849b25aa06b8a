import IcoZip.Disassembly.Zopcodes
import IcoZip.Library.Patterns

/-! What the known bits of a word say about its entry, and the fields that an entry reads. -/

set_option autoImplicit false

namespace IcoZip.Zopcodes

/-! ### The entry of a word -/

theorem Zopcode.matched_iff (op : Zopcode) {ins : BitVec 32} :
    op.matched ins = true ↔ ins &&& op.mask = op.val := beq_iff_eq

/-- The entry is one of a word with these bits, and these alone decide it. -/
def Zopcode.certain (op : Zopcode) (known value : BitVec 32) : Bool :=
  op.mask &&& known == op.mask && value &&& op.mask == op.val

/-- The entry is one of no word with these bits. -/
def Zopcode.excluded (op : Zopcode) (known value : BitVec 32) : Bool :=
  (value ^^^ op.val) &&& (op.mask &&& known) != 0#32

/-- The first entry, where the known bits are enough to tell. -/
def resolve : List Zopcode → BitVec 32 → BitVec 32 → Option Zopcode
  | [], _, _ => none
  | op :: rest, known, value =>
    if op.mask = 0 then none
    else if op.certain known value then some op
    else if op.excluded known value then resolve rest known value
    else none

theorem entry_of_resolve {ins known value : BitVec 32} (knows : ins &&& known = value) {table : List Zopcode}
    {op : Zopcode} (resolved : resolve table known value = some op) : entry table ins = some op := by
  induction table with
  | nil => exact nomatch resolved
  | cons first rest ih =>
    simp only [resolve] at resolved
    simp only [entry]
    split at resolved
    · exact nomatch resolved
    · rename_i masked
      rw [if_neg masked]
      split at resolved
      · rename_i certain
        simp only [Zopcode.certain, Bool.and_eq_true, beq_iff_eq] at certain
        rw [if_pos (first.matched_iff.mpr ((Patterns.sure knows certain.1).trans certain.2))]
        exact resolved
      · split at resolved
        · rename_i excluded
          have differs := Patterns.clash knows (bne_iff_ne.mp excluded)
          rw [if_neg (fun matched => differs (first.matched_iff.mp matched))]
          exact ih resolved
        · exact nomatch resolved

/-- The entries that may be the first one of a word with these bits, if one of them is certain. -/
def candidates (known value : BitVec 32) : List Zopcode → Option (List Zopcode)
  | [] => none
  | op :: rest =>
    if op.mask = 0 then none
    else if op.certain known value then some [op]
    else if op.excluded known value then candidates known value rest
    else (candidates known value rest).map (op :: ·)

theorem entry_of_candidates {ins known value : BitVec 32} (knows : ins &&& known = value) {table ops : List Zopcode}
    (found : candidates known value table = some ops) :
    ∃ op ∈ ops, entry table ins = some op ∧ op.matched ins = true := by
  induction table generalizing ops with
  | nil => exact nomatch found
  | cons first rest ih =>
    simp only [candidates] at found
    simp only [entry]
    split at found
    · exact nomatch found
    · rename_i masked
      rw [if_neg masked]
      split at found
      · rename_i certain
        cases found
        simp only [Zopcode.certain, Bool.and_eq_true, beq_iff_eq] at certain
        have matched := first.matched_iff.mpr ((Patterns.sure knows certain.1).trans certain.2)
        exact ⟨first, List.mem_singleton_self first, if_pos matched, matched⟩
      · split at found
        · rename_i excluded
          have differs := Patterns.clash knows (bne_iff_ne.mp excluded)
          rw [if_neg (fun matched => differs (first.matched_iff.mp matched))]
          exact ih found
        · obtain ⟨others, later, rfl⟩ := Option.map_eq_some_iff.mp found
          by_cases matched : first.matched ins = true
          · exact ⟨first, List.mem_cons_self, if_pos matched, matched⟩
          · obtain ⟨op, member, here, matched'⟩ := ih later
            rw [if_neg matched]
            exact ⟨op, List.mem_cons_of_mem first member, here, matched'⟩

/-- What holds of all of them holds of the entry of the word. -/
theorem entry_among {ins known value : BitVec 32} (knows : ins &&& known = value) {table : List Zopcode}
    {p : Zopcode → Bool} (all : (candidates known value table).any (fun ops => ops.all p) = true) :
    ∃ op, entry table ins = some op ∧ op.matched ins = true ∧ p op = true := by
  obtain ⟨ops, found, each⟩ := Option.any_eq_true _ _ |>.mp all
  obtain ⟨op, member, here, matched⟩ := entry_of_candidates knows found
  exact ⟨op, here, matched, List.all_eq_true.mp each op member⟩

/-! ### The fields of a word -/

theorem ones {bits : Nat} (bound : bits ≤ 64) : 1#64 <<< bits - 1 = (BitVec.allOnes bits).setWidth 64 := by
  apply BitVec.eq_of_toNat_eq
  have size : 2 ^ bits ≤ 2 ^ 64 := Nat.pow_le_pow_right (by decide) bound
  have pos : 0 < 2 ^ bits := Nat.two_pow_pos bits
  have one : BitVec.toNat (1 : BitVec 64) = 1 := rfl
  simp only [BitVec.toNat_sub, BitVec.toNat_shiftLeft, BitVec.toNat_setWidth, BitVec.toNat_allOnes, BitVec.toNat_ofNat,
    Nat.shiftLeft_eq, one]
  omega

theorem zipUbits_eq (val : BitVec 64) {bits : Nat} (bound : bits ≤ 64) :
    zipUbits val bits = (val.extractLsb' 0 bits).setWidth 64 := by
  rw [zipUbits, ones bound, Patterns.low]

theorem zipSbits_eq (val : BitVec 64) {bits : Nat} (some : 0 < bits) (bound : bits ≤ 64) :
    zipSbits val bits = (val.extractLsb' 0 bits).signExtend 64 := by
  have place : bits - 1 < bits := by omega
  have within : bits - 1 < 64 := by omega
  have msb : (val.extractLsb' 0 bits).msb = val.getLsbD (bits - 1) := by
    rw [BitVec.msb_eq_getLsbD_last, BitVec.getLsbD_extractLsb', decide_eq_true place, Bool.true_and, Nat.zero_add]
  have sign : (val.extractLsb' 0 bits).setWidth 64 &&& 1#64 <<< (bits - 1) =
      if val.getLsbD (bits - 1) then 1#64 <<< (bits - 1) else 0 := by
    rw [← BitVec.twoPow_eq, BitVec.and_twoPow, BitVec.getLsbD_setWidth, BitVec.getLsbD_extractLsb', Nat.zero_add,
      decide_eq_true place, decide_eq_true within, Bool.true_and, Bool.true_and]
    rfl
  simp only [zipSbits, ones bound, Patterns.low, sign]
  cases negative : val.getLsbD (bits - 1)
  · rw [BitVec.signExtend_eq_setWidth_of_msb_false (msb.trans negative)]
    simp
  · have set : (1#64 <<< (bits - 1)).getLsbD (bits - 1) = true := by simp [within]
    rw [if_pos rfl, if_pos (fun zero => by rw [zero] at set; exact absurd set (by simp))]
    have filler : -1#64 = BitVec.allOnes 64 := by decide
    apply BitVec.eq_of_getLsbD_eq
    intro p inside
    rw [filler, BitVec.getLsbD_or, BitVec.getLsbD_signExtend, msb, negative, BitVec.getLsbD_setWidth,
      BitVec.getLsbD_shiftLeft, BitVec.getLsbD_allOnes, decide_eq_true inside]
    by_cases low : p < bits
    · simp [low]
    · have high : p - bits < 64 := by omega
      simp [low, high]

/-- A field of a word that has been moved down. -/
theorem moved (ins : BitVec 32) (place size : Nat) :
    ((ins >>> place).setWidth 64).extractLsb' 0 size = ins.extractLsb' place size := by
  apply BitVec.eq_of_getLsbD_eq
  intro p bound
  simp only [BitVec.getLsbD_extractLsb', BitVec.getLsbD_setWidth, BitVec.getLsbD_ushiftRight, Nat.zero_add, bound,
    decide_true, Bool.true_and]
  by_cases inside : p < 64
  · simp [inside]
  · simp [inside, BitVec.getLsbD_of_ge ins (place + p) (by omega)]

theorem zipGetbits_signed (ins : BitVec 32) {which : BitVec 32} {place size : Nat} (signed : which &&& 0x40000000 ≠ 0)
    (atPlace : (which &&& 0x3f).toNat = place) (ofSize : (which >>> 8 &&& 0x3f).toNat = size) (some : 0 < size) :
    zipGetbits ins which = (ins.extractLsb' place size).signExtend 32 := by
  have bound : size ≤ 64 := by
    subst ofSize
    exact le_trans (BitVec.toNat_and .. ▸ Nat.and_le_right) (by decide)
  simp only [zipGetbits, if_pos signed, atPlace, ofSize]
  rw [zipSbits_eq _ some bound, moved]
  apply BitVec.eq_of_getLsbD_eq
  intro p inside
  have wide : p < 64 := by omega
  rw [BitVec.getLsbD_setWidth, BitVec.getLsbD_signExtend, BitVec.getLsbD_signExtend, decide_eq_true inside,
    decide_eq_true wide]
  rfl

theorem zipGetbits_unsigned (ins : BitVec 32) {which : BitVec 32} {place size : Nat} (signed : which &&& 0x40000000 = 0)
    (atPlace : (which &&& 0x3f).toNat = place) (ofSize : (which >>> 8 &&& 0x3f).toNat = size) :
    zipGetbits ins which = (ins.extractLsb' place size).setWidth 32 + (which >>> 16 &&& 0xff) := by
  have bound : size ≤ 64 := by
    subst ofSize
    exact le_trans (BitVec.toNat_and .. ▸ Nat.and_le_right) (by decide)
  simp only [zipGetbits, if_neg (not_not.mpr signed), atPlace, ofSize]
  rw [zipUbits_eq _ bound, moved, BitVec.setWidth_add _ _ (by decide), BitVec.setWidth_setWidth_of_le _ (by decide),
    BitVec.setWidth_setWidth_of_le _ (by decide), BitVec.setWidth_eq]

theorem consistent : zipOplist.all Zopcode.consistent = true := by decide

end IcoZip.Zopcodes
