import IcoZip.Library.Bytes
import IcoZip.Library.Fields
import IcoZip.Library.Masked
import IcoZip.LoadStore.Memops

/-! Loads and stores of bytes, half words and words, as accesses to a memory of
bytes, and how the tables of `memops` place them in the lanes of a word.
-/

set_option autoImplicit false

namespace IcoZip.LoadStore

inductive Size where
  | word
  | half
  | byte
  deriving DecidableEq, Repr

/-- `i_op[2:1]` -/
def Size.code : Size → BitVec 2
  | word => 0b01
  | half => 0b10
  | byte => 0b11

def Size.bytes : Size → Nat
  | word => 4
  | half => 2
  | byte => 1

structure Access where
  store : Bool
  size : Size
  addr : BitVec 32
  data : BitVec 32
  oreg : BitVec 5
  deriving DecidableEq, Repr

/-- Where byte `j` of a value of `n` bytes, byte 0 the least significant, stands behind its address. -/
def place (little : Bool) (n j : Nat) : Nat := if little then j else n - 1 - j

namespace Access

variable (aw : Nat) (opt : Options) (x : Access)

def op : BitVec 3 := x.size.code ++ BitVec.ofBool x.store

def aligned : Bool := x.addr.toNat % x.size.bytes == 0

/-- The access goes to the local bus. -/
def lcl : Bool := opt.localBus && x.addr.extractLsb' 24 8 == 0xff#8

/-- The bits of the address that there are on the bus. -/
def location : BitVec (aw + 2) := x.addr.setWidth (aw + 2)

/-- What the access leaves in the byte at an address. -/
def stored (b : BitVec (aw + 2)) : Option (BitVec 8) :=
  let k := (b - x.location aw).toNat
  if x.store && k < x.size.bytes then some (Bytes.byte x.data (place opt.littleEndian x.size.bytes k)) else none

def masked : Masked.Access Bool (BitVec (aw + 2)) (BitVec 8) := ⟨x.lcl opt, x.stored aw opt⟩

/-- What a load returns from the bytes at its address and behind it: the value with zeros in front. -/
def loaded (bytes : Nat → BitVec 8) : BitVec 32 :=
  Bytes.ofBytes fun j => if j < x.size.bytes then bytes (place opt.littleEndian x.size.bytes j) else 0

end Access

/-! ### Addresses -/

variable {aw : Nat}

/-- The word an address is in, and the place in it. -/
def word (b : BitVec (aw + 2)) : BitVec aw := b.extractLsb' 2 aw

def offset (b : BitVec (aw + 2)) : BitVec 2 := b.extractLsb' 0 2

theorem toNat_word (b : BitVec (aw + 2)) : (word b).toNat = b.toNat / 4 := by
  have bound := b.isLt
  rw [Nat.pow_add] at bound
  rw [word, BitVec.extractLsb'_toNat, Nat.shiftRight_eq_div_pow, Nat.mod_eq_of_lt (by omega)]

theorem toNat_offset (b : BitVec (aw + 2)) : (offset b).toNat = b.toNat % 4 := by
  rw [offset, BitVec.extractLsb'_toNat, Nat.shiftRight_zero]

theorem Access.word_location (x : Access) : word (x.location aw) = x.addr.extractLsb' 2 aw := by
  apply BitVec.eq_of_getLsbD_eq
  intro p bound
  have within : 2 + p < aw + 2 := by omega
  simp only [word, Access.location, BitVec.getLsbD_extractLsb', BitVec.getLsbD_setWidth, bound, within, decide_true,
    Bool.true_and]

theorem Access.offset_location (x : Access) : offset (x.location aw) = x.addr.extractLsb' 0 2 := by
  apply BitVec.eq_of_getLsbD_eq
  intro p bound
  have within : 0 + p < aw + 2 := by omega
  simp only [offset, Access.location, BitVec.getLsbD_extractLsb', BitVec.getLsbD_setWidth, bound, within, decide_true,
    Bool.true_and]

/-- An aligned access stays within its word. -/
theorem Access.aligned_location {x : Access} (aligned : x.aligned) :
    (offset (x.location aw)).toNat % x.size.bytes = 0 ∧ (offset (x.location aw)).toNat + x.size.bytes ≤ 4 := by
  have even : x.addr.toNat % x.size.bytes = 0 := by simpa [Access.aligned] using aligned
  rw [offset_location, BitVec.extractLsb'_toNat, Nat.shiftRight_zero]
  cases size : x.size <;> rw [size] at even <;> simp only [Size.bytes] at even ⊢ <;> omega

/-- The bytes of an aligned access are those of its word from its place on. -/
theorem Access.behind {x : Access} (aligned : x.aligned) (b : BitVec (aw + 2)) :
    (b - x.location aw).toNat < x.size.bytes ↔
      word b = word (x.location aw) ∧ (offset (x.location aw)).toNat ≤ (offset b).toNat ∧
        (offset b).toNat < (offset (x.location aw)).toNat + x.size.bytes := by
  obtain ⟨-, fits⟩ := @aligned_location aw x aligned
  have bound := b.isLt
  have bound' := (x.location aw).isLt
  rw [← BitVec.toNat_inj, toNat_word, toNat_word]
  rw [toNat_offset] at fits ⊢
  rw [toNat_offset, BitVec.toNat_sub]
  rw [Nat.pow_add] at bound bound' ⊢
  by_cases below : (x.location aw).toNat ≤ b.toNat
  · have around : 2 ^ aw * 2 ^ 2 - (x.location aw).toNat + b.toNat =
        b.toNat - (x.location aw).toNat + 2 ^ aw * 2 ^ 2 := by
      omega
    rw [around, Nat.add_mod_right, Nat.mod_eq_of_lt (by omega)]
    omega
  · rw [Nat.mod_eq_of_lt (by omega)]
    omega

/-- How far behind the address of the access they are. -/
theorem Access.distance {x : Access} {b : BitVec (aw + 2)} (same : word b = word (x.location aw))
    (after : (offset (x.location aw)).toNat ≤ (offset b).toNat) :
    (b - x.location aw).toNat = (offset b).toNat - (offset (x.location aw)).toNat := by
  have words := congrArg BitVec.toNat same
  rw [toNat_word, toNat_word] at words
  rw [toNat_offset, toNat_offset] at after ⊢
  rw [BitVec.toNat_sub_of_le (BitVec.le_def.mpr (by omega))]
  omega

/-! ### The tables -/

theorem Access.op_size (x : Access) : x.op.extractLsb' 1 2 = x.size.code := Fields.first _ _

theorem Access.op_store (x : Access) : x.op.getLsbD 0 = x.store := by
  rw [Access.op, BitVec.getLsbD_append, if_pos Nat.one_pos, BitVec.getLsbD_ofBool]
  rfl

theorem quarter (p : BitVec 2) : p = 0 ∨ p = 1 ∨ p = 2 ∨ p = 3 := by
  revert p
  decide

theorem misaligned_eq (opt : Options) (x : Access) (stb : Bool) :
    misaligned opt x.op x.addr stb = (stb && opt.alignmentErr && !x.aligned) := by
  have low : x.addr.toNat % 4 = (x.addr.extractLsb' 0 2).toNat := by
    rw [BitVec.extractLsb'_toNat, Nat.shiftRight_zero]
  have even : x.aligned = ((x.addr.extractLsb' 0 2).toNat % x.size.bytes == 0) := by
    rw [← low, Access.aligned]
    cases x.size <;> simp only [Size.bytes] <;> congr 1 <;> omega
  unfold misaligned sizeAndOffset
  rw [x.op_size, even]
  cases opt.alignmentErr <;> cases stb <;> cases x.size <;>
    rcases quarter (x.addr.extractLsb' 0 2) with p | p | p | p <;> rw [p] <;> decide

theorem sel_lane (opt : Options) (x : Access) (aligned : x.aligned) {o : Nat} (inside : o < 4) :
    (wbSel opt x.op x.addr).getLsbD (place opt.littleEndian 4 o) =
      decide ((offset (x.location aw)).toNat ≤ o ∧ o < (offset (x.location aw)).toNat + x.size.bytes) := by
  obtain ⟨even, -⟩ := @Access.aligned_location aw x aligned
  rw [Access.offset_location] at even ⊢
  unfold wbSel sizeAndOffset endianKey
  rw [x.op_size]
  cases opt.littleEndian <;> cases size : x.size <;> rw [size] at even <;>
    rcases quarter (x.addr.extractLsb' 0 2) with p | p | p | p <;> rw [p] at even ⊢ <;> revert even <;>
    interval_cases o <;> decide

theorem data_lane (opt : Options) (x : Access) (aligned : x.aligned) {o : Nat}
    (after : (offset (x.location aw)).toNat ≤ o) (before : o < (offset (x.location aw)).toNat + x.size.bytes) :
    Bytes.byte (wbData opt x.op x.addr x.data) (place opt.littleEndian 4 o) =
      Bytes.byte x.data (place opt.littleEndian x.size.bytes (o - (offset (x.location aw)).toNat)) := by
  obtain ⟨even, fits⟩ := @Access.aligned_location aw x aligned
  rw [Access.offset_location] at even after before fits ⊢
  have inside : o < 4 := by omega
  have half : x.data.extractLsb' 0 16 = Bytes.byte x.data 1 ++ Bytes.byte x.data 0 := Bytes.half_eq x.data 0
  have byte : x.data.extractLsb' 0 8 = Bytes.byte x.data 0 := rfl
  have same : ∀ b : BitVec 8, b ++ (b ++ (b ++ b)) = Bytes.quad b b b b := fun _ => rfl
  unfold wbData sizeAndOffset endianKey
  rw [x.op_size, half, byte]
  simp only [Bytes.halves, Bytes.upperHalf, Bytes.lowerHalf, Bytes.fourth, Bytes.third, Bytes.first, same]
  cases opt.littleEndian <;> cases size : x.size <;> rw [size] at even before <;>
    rcases quarter (x.addr.extractLsb' 0 2) with p | p | p | p <;> rw [p] at even after before ⊢ <;>
    simp [Size.bytes] at even after before <;> interval_cases o <;>
    first | omega | (cases opt.lowpower <;> simp [Size.code, Size.bytes, place])

theorem extracted_eq (opt : Options) (x : Access) (aligned : x.aligned) (data : BitVec 32) :
    extracted opt (sizeAndOffset x.op x.addr) data =
      x.loaded opt fun k => Bytes.byte data (place opt.littleEndian 4 ((offset (x.location aw)).toNat + k)) := by
  obtain ⟨even, fits⟩ := @Access.aligned_location aw x aligned
  rw [Access.offset_location] at even fits ⊢
  have low : data.extractLsb' 0 16 = Bytes.byte data 1 ++ Bytes.byte data 0 := Bytes.half_eq data 0
  have high : data.extractLsb' 16 16 = Bytes.byte data 3 ++ Bytes.byte data 2 := Bytes.half_eq data 2
  have byte (j : Nat) : data.extractLsb' (8 * j) 8 = Bytes.byte data j := rfl
  have word : data = Bytes.quad (Bytes.byte data 3) (Bytes.byte data 2) (Bytes.byte data 1) (Bytes.byte data 0) :=
    (Bytes.ofBytes_byte data).symm
  have loaded (f : Nat → BitVec 8) : Bytes.ofBytes f = Bytes.quad (f 3) (f 2) (f 1) (f 0) := rfl
  unfold extracted sizeAndOffset endianKey Access.loaded
  rw [x.op_size, low, high, loaded, show data.extractLsb' 24 8 = Bytes.byte data 3 from byte 3,
    show data.extractLsb' 16 8 = Bytes.byte data 2 from byte 2,
    show data.extractLsb' 8 8 = Bytes.byte data 1 from byte 1,
    show data.extractLsb' 0 8 = Bytes.byte data 0 from byte 0]
  simp only [Bytes.lowerHalf, Bytes.first]
  cases opt.littleEndian <;> cases size : x.size <;> rw [size] at even fits <;>
    rcases quarter (x.addr.extractLsb' 0 2) with p | p | p | p <;> rw [p] at even fits ⊢ <;>
    simp [Size.bytes] at even fits <;> first | exact word | simp [Size.code, Size.bytes, place]

/-! ### The memory -/

/-- Words on the two buses, the local one under `true`. -/
abbrev Words (aw : Nat) := Bool → BitVec aw → BitVec 32

/-- A write with byte selects. -/
def Words.write (mem : Words aw) (lcl : Bool) (a : BitVec aw) (sel : BitVec 4) (data : BitVec 32) :
    Words aw := fun l b =>
  if l = lcl ∧ b = a then
    Bytes.ofBytes fun j => if sel.getLsbD j then Bytes.byte data j else Bytes.byte (mem l b) j
  else mem l b

/-- The memory by its bytes. -/
def Words.byte (little : Bool) (mem : Words aw) (l : Bool) (b : BitVec (aw + 2)) : BitVec 8 :=
  Bytes.byte (mem l (word b)) (place little 4 (offset b).toNat)

theorem place_lt (little : Bool) {n j : Nat} (inside : j < n) : place little n j < n := by
  unfold place
  split_ifs <;> omega

/-- What `memops` has a store write is what the store is there to leave. -/
theorem byte_write (opt : Options) (mem : Words aw) {x : Access} (aligned : x.aligned) (store : x.store) (l : Bool)
    (b : BitVec (aw + 2)) :
    (mem.write (x.lcl opt) (x.addr.extractLsb' 2 aw) (wbSel opt x.op x.addr) (wbData opt x.op x.addr x.data)).byte
        opt.littleEndian l b =
      ((x.masked aw opt).covers l b).getD (mem.byte opt.littleEndian l b) := by
  have inside : (offset b).toNat < 4 := (offset b).isLt
  have names := @Access.behind aw x aligned b
  rw [← x.word_location]
  by_cases bus : l = x.lcl opt
  · subst bus
    have covers : (x.masked aw opt).covers (x.lcl opt) b = x.stored aw opt b := if_pos rfl
    rw [covers]
    by_cases same : word b = word (x.location aw)
    · simp only [Words.byte, Words.write, same, and_self, if_true]
      rw [Bytes.byte_ofBytes _ (place_lt _ inside), @sel_lane aw opt x aligned _ inside]
      by_cases within : (offset (x.location aw)).toNat ≤ (offset b).toNat ∧
          (offset b).toNat < (offset (x.location aw)).toNat + x.size.bytes
      · have stored : x.stored aw opt b = some (Bytes.byte x.data (place opt.littleEndian x.size.bytes
            ((offset b).toNat - (offset (x.location aw)).toNat))) := by
          rw [Access.stored, store, Bool.true_and, if_pos (decide_eq_true (names.mpr ⟨same, within⟩)),
            Access.distance same within.1]
        rw [if_pos (decide_eq_true within), stored]
        exact data_lane opt x aligned within.1 within.2
      · have stored : x.stored aw opt b = none := by
          rw [Access.stored, if_neg]
          simp only [Bool.and_eq_true, decide_eq_true_eq, not_and]
          exact fun _ less => within (names.mp less).2
        rw [if_neg (by simpa using within), stored]
        rfl
    · have stored : x.stored aw opt b = none := by
        rw [Access.stored, if_neg]
        simp only [Bool.and_eq_true, decide_eq_true_eq, not_and]
        exact fun _ less => same (names.mp less).1
      simp only [Words.byte, Words.write, same, and_false, if_false]
      rw [stored]
      rfl
  · have covers : (x.masked aw opt).covers l b = none := if_neg fun other => bus other.symm
    simp only [Words.byte, Words.write, bus, false_and, if_false]
    rw [covers]
    rfl

/-- And a load finds what is at its address. -/
theorem extracted_loaded (opt : Options) (mem : Words aw) {x : Access} (aligned : x.aligned) :
    extracted opt (sizeAndOffset x.op x.addr) (mem (x.lcl opt) (x.addr.extractLsb' 2 aw)) =
      x.loaded opt fun k => mem.byte opt.littleEndian (x.lcl opt) (x.location aw + BitVec.ofNat (aw + 2) k) := by
  obtain ⟨-, fits⟩ := @Access.aligned_location aw x aligned
  rw [@extracted_eq aw opt x aligned]
  refine Bytes.ofBytes_congr fun j _ => ?_
  by_cases part : j < x.size.bytes
  · have near : place opt.littleEndian x.size.bytes j < x.size.bytes := place_lt _ part
    have bound := (x.location aw).isLt
    rw [Nat.pow_add] at bound
    rw [toNat_offset] at fits
    -- no carry out of the place in the word
    have whole : (x.location aw + BitVec.ofNat (aw + 2) (place opt.littleEndian x.size.bytes j)).toNat =
        (x.location aw).toNat + place opt.littleEndian x.size.bytes j := by
      rw [BitVec.toNat_add, BitVec.toNat_ofNat, Nat.pow_add, Nat.add_mod_mod, Nat.mod_eq_of_lt (by omega)]
    have same : word (x.location aw + BitVec.ofNat (aw + 2) (place opt.littleEndian x.size.bytes j)) =
        x.addr.extractLsb' 2 aw := by
      rw [← x.word_location, ← BitVec.toNat_inj, toNat_word, toNat_word, whole]
      omega
    have further : (offset (x.location aw + BitVec.ofNat (aw + 2) (place opt.littleEndian x.size.bytes j))).toNat =
        (offset (x.location aw)).toNat + place opt.littleEndian x.size.bytes j := by
      rw [toNat_offset, toNat_offset, whole]
      omega
    rw [if_pos part, if_pos part]
    simp only [Words.byte, same, further]
  · rw [if_neg part, if_neg part]

end IcoZip.LoadStore
