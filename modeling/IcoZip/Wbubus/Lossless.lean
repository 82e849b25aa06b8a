import IcoZip.Library.Fields
import IcoZip.Wbubus.Compress

/-! What `wbucompress` emits decodes to what it accepted.

The search is pipelined: the distance, the entry read, the comparison and the
encoded distance belong to consecutive clocks. All of them are stated relative to
`dffaddr`, the distance of the entry that is read in this clock.
-/

set_option autoImplicit false

namespace IcoZip.Wbubus

open Elastic (Offer)

/-! ### Codewords -/

theorem firstSymbol_bits (codeword : BitVec 36) {p l : Nat} (inside : p + l ≤ 6) :
    (firstSymbol codeword).extractLsb' p l = codeword.extractLsb' (30 + p) l := Fields.nested codeword 30 inside

theorem isRead_iff (codeword : BitVec 36) :
    isRead codeword = true ↔ (firstSymbol codeword).extractLsb' 3 3 = 0b111#3 := by
  rw [firstSymbol_bits codeword (by decide), isRead, beq_iff_eq]

theorem isAddress_iff (codeword : BitVec 36) :
    isAddress codeword = true ↔ (firstSymbol codeword).extractLsb' 3 3 = 0b001#3 := by
  rw [firstSymbol_bits codeword (by decide), isAddress, beq_iff_eq]

theorem plain_first : ∀ first : BitVec 6, first.extractLsb' 2 4 ≠ 0x3#4 →
    first ≠ 0x0c#6 ∧ first ≠ 0x0d#6 ∧ first ≠ 0x0e#6 ∧ first ≠ 0x0f#6 := by decide

theorem expand_plain {codeword : BitVec 36} (plain : Plain codeword) (t : Table) :
    t.expand codeword = some codeword := by
  obtain ⟨last, near, far, short⟩ := plain
  obtain ⟨c, d, e, f⟩ := plain_first _ short
  simp [Table.expand, last, near, far, c, d, e, f]

theorem read_first : ∀ first : BitVec 6, first.extractLsb' 3 3 = 0b111#3 →
    first.extractLsb' 1 5 ≠ 0x3#5 ∧ first.extractLsb' 4 2 ≠ 0b10#2 ∧ first.extractLsb' 4 2 ≠ 0b01#2 ∧
      first.extractLsb' 2 4 ≠ 0x3#4 := by decide

theorem plain_read {codeword : BitVec 36} (read : isRead codeword = true) : Plain codeword :=
  read_first _ ((isRead_iff codeword).mp read)

theorem ofBool_inc (codeword : BitVec 36) :
    BitVec.ofBool ((firstSymbol codeword).getLsbD 0) = codeword.extractLsb' 30 1 := by
  rw [← Fields.bit, firstSymbol_bits codeword (by decide)]

/-- A read word is its data and its increment bit. -/
theorem readWord_readData {codeword : BitVec 36} (read : isRead codeword = true) :
    readWord (readData codeword) ((firstSymbol codeword).getLsbD 0) = codeword := by
  have top : codeword.extractLsb' 33 3 = 0b111#3 := by simpa [isRead] using read
  have high : (readData codeword).extractLsb' 30 2 = codeword.extractLsb' 31 2 := Fields.first _ _
  have low : (readData codeword).extractLsb' 0 30 = codeword.extractLsb' 0 30 :=
    BitVec.extractLsb'_append_eq_right
  rw [readWord, high, low, ofBool_inc, ← top]
  have five : codeword.extractLsb' 33 3 ++ codeword.extractLsb' 31 2 = codeword.extractLsb' 31 5 :=
      Fields.joined codeword 31
  have six : codeword.extractLsb' 31 5 ++ codeword.extractLsb' 30 1 = codeword.extractLsb' 30 6 :=
      Fields.joined codeword 30
  have all : codeword.extractLsb' 30 6 ++ codeword.extractLsb' 0 30 = codeword.extractLsb' 0 36 :=
      Fields.joined codeword 0
  exact (congrArg (· ++ codeword.extractLsb' 0 30) ((congrArg (· ++ codeword.extractLsb' 30 1) five).trans six)).trans
    (all.trans BitVec.extractLsb'_eq_self)

theorem addressWord_eq {codeword : BitVec 36} (address : codeword.extractLsb' 32 4 = 0x2#4) :
    addressWord (codeword.extractLsb' 0 32) = codeword := by
  rw [addressWord, ← address]
  exact (Fields.joined codeword 0).trans BitVec.extractLsb'_eq_self

/-- A short address word in front of which the decoder finds its size. -/
theorem expand_short (t : Table) (first : BitVec 6) {n m : Nat} (addr : BitVec n) (codeword : BitVec 36)
    (word : firstSymbol codeword = first) (body : codeword.extractLsb' m n = addr)
    (size : first = 0x0c#6 ∧ n = 6 ∧ m = 24 ∨ first = 0x0d#6 ∧ n = 12 ∧ m = 18 ∨ first = 0x0e#6 ∧ n = 18 ∧ m = 12 ∨
      first = 0x0f#6 ∧ n = 24 ∧ m = 6) :
    t.expand codeword = some (addressWord (addr.setWidth 32)) := by
  rcases size with ⟨rfl, rfl, rfl⟩ | ⟨rfl, rfl, rfl⟩ | ⟨rfl, rfl, rfl⟩ | ⟨rfl, rfl, rfl⟩ <;>
    simp [Table.expand, word, body]

theorem expand_shorten {codeword : BitVec 36} (plain : Plain codeword) (t : Table) :
    t.expand (shorten codeword) = some codeword := by
  by_cases address : codeword.extractLsb' 32 4 = 0x2#4
  · have whole := addressWord_eq address
    unfold shorten
    generalize (codeword.extractLsb' 0 32 : BitVec 32) = addr at whole
    have a18 : addr.extractLsb' 24 8 ++ addr.extractLsb' 18 6 = addr.extractLsb' 18 14 := Fields.joined addr 18
    have a12 : addr.extractLsb' 18 14 ++ addr.extractLsb' 12 6 = addr.extractLsb' 12 20 := Fields.joined addr 12
    have a6 : addr.extractLsb' 12 20 ++ addr.extractLsb' 6 6 = addr.extractLsb' 6 26 := Fields.joined addr 6
    simp only [address, ne_eq, not_true_eq_false, if_false, ite_not]
    -- by how many of the top six-bit groups are zero
    split_ifs with z24 z18 z12 z6
    · rw [z24, z18] at a18
      rw [← a18, z12] at a12
      rw [← a12, z6] at a6
      have zero : addr.extractLsb' 6 26 = 0#26 := by rw [← a6]; rfl
      rw [expand_short t 0x0c#6 (addr.extractLsb' 0 6) _ (Fields.first_of_three 0x0c#6 (addr.extractLsb' 0 6) 0#24)
        (Fields.second_of_three 0x0c#6 (addr.extractLsb' 0 6) 0#24) (by decide), Fields.low addr rfl zero, whole]
    · rw [z24, z18] at a18
      rw [← a18, z12] at a12
      have zero : addr.extractLsb' 12 20 = 0#20 := by rw [← a12]; rfl
      rw [expand_short t 0x0d#6 (addr.extractLsb' 0 12) _ (Fields.first_of_three 0x0d#6 (addr.extractLsb' 0 12) 0#18)
        (Fields.second_of_three 0x0d#6 (addr.extractLsb' 0 12) 0#18) (by decide), Fields.low addr rfl zero, whole]
    · rw [z24, z18] at a18
      have zero : addr.extractLsb' 18 14 = 0#14 := by rw [← a18]; rfl
      rw [expand_short t 0x0e#6 (addr.extractLsb' 0 18) _ (Fields.first_of_three 0x0e#6 (addr.extractLsb' 0 18) 0#12)
        (Fields.second_of_three 0x0e#6 (addr.extractLsb' 0 18) 0#12) (by decide), Fields.low addr rfl zero, whole]
    · rw [expand_short t 0x0f#6 (addr.extractLsb' 0 24) _ (Fields.first_of_three 0x0f#6 (addr.extractLsb' 0 24) 0#6)
        (Fields.second_of_three 0x0f#6 (addr.extractLsb' 0 24) 0#6) (by decide), Fields.low addr rfl z24, whole]
    · exact expand_plain plain t
  · rw [shorten, if_pos address]
    exact expand_plain plain t

theorem near_form : ∀ three : BitVec 3, 0b10#2 ++ three ≠ 0x3#5 := by decide

theorem far_form : ∀ three : BitVec 3, 0b01#2 ++ three ≠ 0x3#5 := by decide

/-- The lowest bit of the first symbol of a short form is the increment bit. -/
theorem first_inc (codeword : BitVec 36) (five : BitVec 5) :
    (five ++ codeword.extractLsb' 30 1).getLsbD 0 = (firstSymbol codeword).getLsbD 0 := by
  have last : BitVec.ofBool ((five ++ codeword.extractLsb' 30 1).getLsbD 0) = codeword.extractLsb' 30 1 := by
    rw [← Fields.bit]
    exact BitVec.extractLsb'_append_eq_right
  exact Fields.ofBool_inj (last.trans (ofBool_inc codeword).symm)

section Replaced

variable {s : Compress} {t : Table}

theorem first_last (zmatch : s.zmatch = true) :
    firstSymbol s.replaced = 0x3#5 ++ s.rWord.extractLsb' 30 1 := by
  rw [Compress.replaced, if_pos zmatch]
  exact Fields.first _ _

theorem first_near (zmatch : s.zmatch = false) (hmatch : s.hmatch = true) :
    firstSymbol s.replaced = 0b10#2 ++ s.adrHlfd ++ s.rWord.extractLsb' 30 1 := by
  rw [Compress.replaced, zmatch, if_neg (by decide), if_pos hmatch]
  exact Fields.first _ _

theorem replaced_far (zmatch : s.zmatch = false) (hmatch : s.hmatch = false) :
    s.replaced = 0b01#2 ++ s.adrDbld.extractLsb' 6 3 ++ s.rWord.extractLsb' 30 1 ++ s.adrDbld.extractLsb' 0 6 ++
      s.rWord.extractLsb' 0 24 := by
  rw [Compress.replaced, zmatch, if_neg (by decide), hmatch, if_neg (by decide)]

theorem first_far (zmatch : s.zmatch = false) (hmatch : s.hmatch = false) :
    firstSymbol s.replaced = 0b01#2 ++ s.adrDbld.extractLsb' 6 3 ++ s.rWord.extractLsb' 30 1 := by
  rw [replaced_far zmatch hmatch]
  exact Fields.first_of_three _ _ _

theorem other_last : ∀ one : BitVec 1, (0x3#5 ++ one).extractLsb' 3 3 ≠ 0b111#3 ∧
    (0x3#5 ++ one).extractLsb' 3 3 ≠ 0b001#3 := by
  decide

theorem other_near : ∀ (three : BitVec 3) (one : BitVec 1), (0b10#2 ++ three ++ one).extractLsb' 3 3 ≠ 0b111#3 ∧
    (0b10#2 ++ three ++ one).extractLsb' 3 3 ≠ 0b001#3 := by decide

theorem other_far : ∀ (three : BitVec 3) (one : BitVec 1), (0b01#2 ++ three ++ one).extractLsb' 3 3 ≠ 0b111#3 ∧
    (0b01#2 ++ three ++ one).extractLsb' 3 3 ≠ 0b001#3 := by decide

/-- A replaced word neither empties the table nor enters it. -/
theorem replaced_other (s : Compress) : isRead s.replaced = false ∧ isAddress s.replaced = false := by
  -- the three short forms have prefixes of their own
  have other : (firstSymbol s.replaced).extractLsb' 3 3 ≠ 0b111#3 ∧
      (firstSymbol s.replaced).extractLsb' 3 3 ≠ 0b001#3 := by
    cases zmatch : s.zmatch with
    | true =>
      rw [first_last zmatch]
      exact other_last _
    | false =>
      cases hmatch : s.hmatch with
      | true =>
        rw [first_near zmatch hmatch]
        exact other_near _ _
      | false =>
        rw [first_far zmatch hmatch]
        exact other_far _ _
  rw [← Bool.not_eq_true, ← Bool.not_eq_true, isRead_iff, isAddress_iff]
  exact other

variable (read : isRead s.rWord = true)
include read

theorem expand_last (zmatch : s.zmatch = true) (entry : t[0]? = some (readData s.rWord)) :
    t.expand s.replaced = some s.rWord := by
  have first := first_last zmatch
  have form : (firstSymbol s.replaced).extractLsb' 1 5 = 0x3#5 := by
    rw [first]
    exact Fields.first _ _
  have inc : (firstSymbol s.replaced).getLsbD 0 = (firstSymbol s.rWord).getLsbD 0 := by
    rw [first]
    exact first_inc s.rWord 0x3#5
  unfold Table.expand
  simp only [form, if_true, entry, Option.map_some, inc, readWord_readData read]

theorem expand_near (zmatch : s.zmatch = false) (hmatch : s.hmatch = true)
    (entry : t[s.adrHlfd.toNat + 1]? = some (readData s.rWord)) : t.expand s.replaced = some s.rWord := by
  have first := first_near zmatch hmatch
  have five : (firstSymbol s.replaced).extractLsb' 1 5 = 0b10#2 ++ s.adrHlfd := by
    rw [first]
    exact Fields.first _ _
  have form : (firstSymbol s.replaced).extractLsb' 4 2 = 0b10#2 := by
    rw [first]
    exact Fields.first_of_three _ _ _
  have distance : (firstSymbol s.replaced).extractLsb' 1 3 = s.adrHlfd := by
    rw [first]
    exact Fields.second_of_three _ _ _
  have inc : (firstSymbol s.replaced).getLsbD 0 = (firstSymbol s.rWord).getLsbD 0 := by
    rw [first]
    exact first_inc s.rWord (0b10#2 ++ s.adrHlfd)
  unfold Table.expand
  simp only [five, near_form, form, distance, if_true, if_false, entry, Option.map_some, inc, readWord_readData read]

theorem expand_far (zmatch : s.zmatch = false) (hmatch : s.hmatch = false)
    (entry : t[(s.adrDbld.extractLsb' 0 9).toNat + 9]? = some (readData s.rWord)) :
    t.expand s.replaced = some s.rWord := by
  have first := first_far zmatch hmatch
  have second : s.replaced.extractLsb' 24 6 = s.adrDbld.extractLsb' 0 6 := by
    rw [replaced_far zmatch hmatch]
    exact Fields.second_of_three _ _ _
  have five : (firstSymbol s.replaced).extractLsb' 1 5 = 0b01#2 ++ s.adrDbld.extractLsb' 6 3 := by
    rw [first]
    exact Fields.first _ _
  have form : (firstSymbol s.replaced).extractLsb' 4 2 = 0b01#2 := by
    rw [first]
    exact Fields.first_of_three _ _ _
  have high : (firstSymbol s.replaced).extractLsb' 1 3 = s.adrDbld.extractLsb' 6 3 := by
    rw [first]
    exact Fields.second_of_three _ _ _
  have inc : (firstSymbol s.replaced).getLsbD 0 = (firstSymbol s.rWord).getLsbD 0 := by
    rw [first]
    exact first_inc s.rWord (0b01#2 ++ s.adrDbld.extractLsb' 6 3)
  have distance : s.adrDbld.extractLsb' 6 3 ++ s.adrDbld.extractLsb' 0 6 = s.adrDbld.extractLsb' 0 9 :=
    Fields.joined s.adrDbld 0
  have other : ¬ 0b01#2 = 0b10#2 := by decide
  unfold Table.expand
  simp only [five, far_form, form, other, high, second, distance, if_true, if_false, entry, Option.map_some, inc,
    readWord_readData read]

end Replaced

/-! ### The table -/

/-- The memory holds the decoder's table, except at the address that is written in every clock. -/
structure Recorded (s : Compress) (t : Table) : Prop where
  addr : s.tblAddr = BitVec.ofNat 10 t.length
  full : s.tblFilled = true → 1023 ≤ t.length
  fresh : s.tblFilled = false → t.length ≤ 1023
  entries : ∀ k, 1 ≤ k → k ≤ 1023 → k ≤ t.length →
    t[k - 1]? = some (s.compressionTbl (s.tblAddr - BitVec.ofNat 10 k))

/-- What goes out in a clock. -/
def Compress.emits (s : Compress) (iBusy : Bool) : List (BitVec 36) := if s.stb && !iBusy then [s.rCword] else []

theorem ofNat_sub_ne {T : BitVec 10} {k : Nat} (positive : 1 ≤ k) (bound : k ≤ 1023) :
    T - BitVec.ofNat 10 k ≠ T := by
  intro same
  have value := congrArg BitVec.toNat same
  rw [BitVec.toNat_sub, BitVec.toNat_ofNat] at value
  have small := T.isLt
  omega

/-- A read word that leaves as it is. -/
def Compress.pushes (s : Compress) (iBusy : Bool) : Bool := s.stb && !s.tblBusy iBusy && isRead s.rCword

/-- What a clock does to the decoder's table: it empties it, adds to it, or leaves it. -/
theorem afterAll_emits (s : Compress) (t : Table) (iBusy : Bool) :
    (s.clearTable false iBusy = true ∧ t.afterAll (s.emits iBusy) = []) ∨
    (s.clearTable false iBusy = false ∧ s.pushes iBusy = true ∧ t.afterAll (s.emits iBusy) = readData s.rCword :: t) ∨
    (s.clearTable false iBusy = false ∧ s.pushes iBusy = false ∧ t.afterAll (s.emits iBusy) = t) := by
  simp only [Compress.clearTable, Compress.pushes, Compress.tblBusy, Compress.emits, Table.afterAll]
  cases s.stb <;> cases iBusy <;> cases address : isAddress s.rCword <;> cases read : isRead s.rCword <;>
    simp [Table.after, address, read]

theorem tblFilled_next {s : Compress} (iStb : Bool) (iCodeword : BitVec 36) {iBusy : Bool}
    (clear : s.clearTable false iBusy = false) :
    (s.wbucompress false iStb iCodeword iBusy).tblFilled = (s.tblAddr == 0x3ff#10 || s.tblFilled) := by
  simp only [Compress.wbucompress, clear]
  cases s.tblAddr == 0x3ff#10 <;> rfl

section Record

variable {s : Compress} {t : Table} (recorded : Recorded s t) (iStb : Bool) (iCodeword : BitVec 36) (iBusy : Bool)
include recorded

theorem Recorded.filled (full : (s.tblAddr == 0x3ff#10) = true) : 1023 ≤ t.length := by
  have last := congrArg BitVec.toNat (recorded.addr.symm.trans (beq_iff_eq.mp full))
  rw [BitVec.toNat_ofNat] at last
  simp at last
  omega

/-- The data of the word in the second stage are written at the pointer in every clock. -/
theorem Recorded.kept {k : Nat} (positive : 1 ≤ k) (bound : k ≤ 1023) (inside : k ≤ t.length) :
    t[k - 1]? = some ((s.wbucompress false iStb iCodeword iBusy).compressionTbl (s.tblAddr - BitVec.ofNat 10 k)) := by
  have next : (s.wbucompress false iStb iCodeword iBusy).compressionTbl =
      Function.update s.compressionTbl s.tblAddr (readData s.rWord) := rfl
  rw [recorded.entries k positive bound inside, next, Function.update_of_ne (ofNat_sub_ne positive bound)]

theorem Recorded.step (same : s.pushes iBusy = true → readData s.rCword = readData s.rWord) :
    Recorded (s.wbucompress false iStb iCodeword iBusy) (t.afterAll (s.emits iBusy)) := by
  rcases afterAll_emits s t iBusy with ⟨clear, after⟩ | ⟨clear, push, after⟩ | ⟨clear, push, after⟩
  · rw [after]
    constructor
    case addr => simp [Compress.wbucompress, clear]
    case full => simp [Compress.wbucompress, clear]
    case fresh => simp
    case entries =>
      intro k positive _ inside
      exact absurd (inside.trans_eq rfl) (by simp; omega)
  · rw [after]
    have next : (s.wbucompress false iStb iCodeword iBusy).tblAddr = s.tblAddr + 1#10 := by
      rw [Compress.pushes] at push
      simp [Compress.wbucompress, clear, push]
    have filled := tblFilled_next iStb iCodeword clear
    constructor
    case addr =>
      rw [next, recorded.addr, List.length_cons, BitVec.ofNat_add]
    case full =>
      intro on
      rw [filled, Bool.or_eq_true] at on
      rcases on with full | full
      · exact Nat.le_succ_of_le (recorded.filled full)
      · exact Nat.le_succ_of_le (recorded.full full)
    -- the pointer wraps exactly when the flag is set
    case fresh =>
      intro off
      rw [filled, Bool.or_eq_false_iff] at off
      have few := recorded.fresh off.2
      have more : t.length ≠ 1023 := by
        intro full
        have last := recorded.addr
        rw [full] at last
        simp [last] at off
      rw [List.length_cons]
      omega
    case entries =>
      intro k positive bound inside
      rw [next]
      rcases Nat.lt_or_ge 1 k with old | new
      · -- the older entries are one further back
        have place : s.tblAddr + 1#10 - BitVec.ofNat 10 k = s.tblAddr - BitVec.ofNat 10 (k - 1) := by
          obtain ⟨j, rfl⟩ : ∃ j, k = j + 1 := ⟨k - 1, by omega⟩
          rw [Nat.add_sub_cancel, BitVec.ofNat_add]
          bv_omega
        have entry := recorded.kept iStb iCodeword iBusy (k := k - 1) (by omega) (by omega) (by simpa using inside)
        rw [place, ← entry]
        obtain ⟨j, rfl⟩ : ∃ j, k = j + 2 := ⟨k - 2, by omega⟩
        rfl
      · obtain rfl : k = 1 := by omega
        have place : s.tblAddr + 1#10 - BitVec.ofNat 10 1 = s.tblAddr := by bv_omega
        have written : (s.wbucompress false iStb iCodeword iBusy).compressionTbl s.tblAddr = readData s.rWord :=
          Function.update_self _ _ _
        rw [place, written, ← same push]
        rfl
  · rw [after]
    have next : (s.wbucompress false iStb iCodeword iBusy).tblAddr = s.tblAddr := by
      rw [Compress.pushes] at push
      simp [Compress.wbucompress, clear, push]
    have filled := tblFilled_next iStb iCodeword clear
    constructor
    case addr => rw [next, recorded.addr]
    case full =>
      intro on
      rw [filled, Bool.or_eq_true] at on
      rcases on with full | full
      · exact recorded.filled full
      · exact recorded.full full
    case fresh =>
      intro off
      rw [filled, Bool.or_eq_false_iff] at off
      exact recorded.fresh off.2
    case entries =>
      intro k positive bound inside
      rw [next]
      exact recorded.kept iStb iCodeword iBusy positive bound inside

end Record

/-! ### The search -/

/-- Where the search stands, in terms of the distance `dffaddr` of the entry being read. -/
structure Searching (s : Compress) (t : Table) : Prop where
  position : s.rdAddr = s.tblAddr - s.dffaddr
  start : s.stb = true → s.pmatch = false → s.dffaddr = 1#10
  paired : s.dmatch = true → s.pmatch = true
  near : s.pmatch = true → s.addrWithinTable = true → 2 ≤ s.dffaddr.toNat ∧ s.dffaddr.toNat ≤ 522
  distance : s.pmatch = true → s.maddr = s.dffaddr - 1#10
  fetched : s.pmatch = true → s.addrWithinTable = true → s.vaddr = true → t[s.dffaddr.toNat - 2]? = some s.cword
  found : s.dmatch = true → s.addrWithinTable = true → 3 ≤ s.dffaddr.toNat ∧
    t[s.dffaddr.toNat - 3]? = some (readData s.rWord) ∧ s.zmatch = decide (s.dffaddr.toNat = 3) ∧
      s.hmatch = decide (s.dffaddr.toNat ≤ 11)
  encoded : s.dmatch = true → s.matched = false →
    s.adrDbld = s.dffaddr - 12#10 ∧ s.adrHlfd = (s.dffaddr - 2#10).extractLsb' 0 3 - 2#3

section Search

variable {s : Compress} {t : Table} (iStb : Bool) (iCodeword : BitVec 36)

/-- A new word starts the search at the end of the table. -/
theorem searching_leaves {iBusy : Bool} (leaves : (!s.stb || !iBusy) = true) (t' : Table) :
    Searching (s.wbucompress false iStb iCodeword iBusy) t' := by
  have free : s.tblBusy iBusy = false := by
    rw [Compress.tblBusy]
    revert leaves
    cases s.stb <;> cases iBusy <;> decide
  have one : (s.wbucompress false iStb iCodeword iBusy).dffaddr = 1#10 := by simp [Compress.wbucompress, leaves]
  have idle : (s.wbucompress false iStb iCodeword iBusy).pmatch = false := by simp [Compress.wbucompress, free]
  have none : (s.wbucompress false iStb iCodeword iBusy).dmatch = false := by simp [Compress.wbucompress, leaves]
  constructor
  case position =>
    rw [one]
    simp only [Compress.wbucompress, leaves, free, Bool.not_false, Bool.and_true, if_true]
    cases s.clearTable false iBusy with
    | true => rfl
    | false =>
      cases s.stb && isRead s.rCword with
      | true => simp
      | false => simp
  case start => exact fun _ _ => one
  all_goals simp [idle, none]

/-- The entry that is read belongs to the table if it is addressed below the pointer. -/
theorem Recorded.reads (recorded : Recorded s t) (position : s.rdAddr = s.tblAddr - s.dffaddr)
    (near : 1 ≤ s.dffaddr.toNat ∧ s.dffaddr.toNat ≤ 521)
    (valid : 0#1 ++ s.rdAddr < BitVec.ofBool s.tblFilled ++ s.tblAddr) :
    t[s.dffaddr.toNat - 1]? = some (s.compressionTbl s.rdAddr) := by
  have inside : s.dffaddr.toNat ≤ t.length := by
    cases filled : s.tblFilled with
    | true =>
      have full := recorded.full filled
      omega
    | false =>
      have few := recorded.fresh filled
      have addr := congrArg BitVec.toNat recorded.addr
      have below : (s.tblAddr - s.dffaddr).toNat < s.tblAddr.toNat := by
        have unfilled : BitVec.ofBool false = 0#1 := rfl
        rw [filled, position, unfilled, BitVec.lt_def] at valid
        rwa [Fields.toNat_zero_append, Fields.toNat_zero_append] at valid
      rw [BitVec.toNat_ofNat] at addr
      rw [BitVec.toNat_sub] at below
      omega
  have same : BitVec.ofNat 10 s.dffaddr.toNat = s.dffaddr := by simp
  have entry := recorded.entries s.dffaddr.toNat near.1 (by omega) inside
  rw [same, ← position] at entry
  exact entry

theorem waits_within (next : (s.wbucompress false iStb iCodeword true).addrWithinTable = true) :
    s.addrWithinTable = true ∧ s.dffaddr.toNat ≤ 521 := by
  cases now : s.addrWithinTable with
  | false => simp [Compress.wbucompress, now] at next
  | true => simpa [Compress.wbucompress, now, BitVec.le_def] using next

/-- The two short distances, of the entry that is compared in this clock. -/
theorem waits_short (stb : s.stb = true) (pmatch : s.pmatch = true) :
    (s.wbucompress false iStb iCodeword true).zmatch = decide (s.dffaddr.toNat + 1 = 3) ∧
      (s.wbucompress false iStb iCodeword true).hmatch = decide (s.dffaddr.toNat + 1 ≤ 11) := by
  have zmatch : (s.wbucompress false iStb iCodeword true).zmatch = decide (s.dffaddr = 2#10) := by
    simp only [Compress.wbucompress, stb, pmatch]
    rfl
  have hmatch : (s.wbucompress false iStb iCodeword true).hmatch = decide (s.dffaddr < 11#10) := by
    simp only [Compress.wbucompress, stb, pmatch]
    rfl
  rw [zmatch, hmatch, decide_eq_decide, decide_eq_decide, ← BitVec.toNat_inj, BitVec.lt_def]
  have two : (2#10).toNat = 2 := rfl
  have eleven : (11#10).toNat = 11 := rfl
  omega

theorem waits_dmatch (stb : s.stb = true) : (s.wbucompress false iStb iCodeword true).dmatch =
    (s.cword == readData s.rWord && s.pmatch && !s.matched && s.vaddr) := by
  simp [Compress.wbucompress, stb]

theorem Searching.positive (searching : Searching s t) (stb : s.stb = true) (inside : s.addrWithinTable = true) :
    1 ≤ s.dffaddr.toNat := by
  cases pmatch : s.pmatch with
  | true => exact Nat.le_of_succ_le (searching.near pmatch inside).1
  | false => simp [searching.start stb pmatch]

/-- While the word waits the search goes one entry further back. -/
theorem Searching.waits (searching : Searching s t) (recorded : Recorded s t) (stb : s.stb = true) :
    Searching (s.wbucompress false iStb iCodeword true) t := by
  have busy : s.tblBusy true = true := by simp [Compress.tblBusy, stb]
  have clear : s.clearTable false true = false := by simp [Compress.clearTable]
  have addr : (s.wbucompress false iStb iCodeword true).tblAddr = s.tblAddr := by
    simp [Compress.wbucompress, clear, busy]
  have further : (s.wbucompress false iStb iCodeword true).dffaddr = s.dffaddr + 1#10 := by
    simp [Compress.wbucompress, clear, stb]
  have word : (s.wbucompress false iStb iCodeword true).rWord = s.rWord := by simp [Compress.wbucompress, busy]
  -- no wrap-around within the distance that the encoding reaches
  have depth (inside : s.dffaddr.toNat ≤ 521) : (s.dffaddr + 1#10).toNat = s.dffaddr.toNat + 1 := by bv_omega
  constructor
  case position =>
    have back : (s.wbucompress false iStb iCodeword true).rdAddr = s.rdAddr - 1#10 := by
      simp [Compress.wbucompress, clear, stb]
    rw [addr, further, back, searching.position]
    bv_omega
  case start =>
    intro _ idle
    simp [Compress.wbucompress, busy] at idle
  case paired =>
    intro _
    simp [Compress.wbucompress, busy]
  case near =>
    intro _ next
    obtain ⟨now, inside⟩ := waits_within iStb iCodeword next
    have some := searching.positive stb now
    rw [further, depth inside]
    omega
  case distance =>
    intro _
    have distance : (s.wbucompress false iStb iCodeword true).maddr = s.dffaddr := rfl
    rw [further, distance]
    bv_omega
  case fetched =>
    -- the entry that was addressed in this clock is the one that is compared in the next
    intro _ next valid
    obtain ⟨now, inside⟩ := waits_within iStb iCodeword next
    have below : 0#1 ++ s.rdAddr < BitVec.ofBool s.tblFilled ++ s.tblAddr := by
      simpa [Compress.wbucompress] using valid
    rw [further, depth inside]
    exact recorded.reads searching.position ⟨searching.positive stb now, inside⟩ below
  case found =>
    intro dmatch next
    obtain ⟨now, inside⟩ := waits_within iStb iCodeword next
    rw [waits_dmatch iStb iCodeword stb] at dmatch
    obtain ⟨⟨⟨equal, pmatch⟩, -⟩, vaddr⟩ : ((s.cword = readData s.rWord ∧ s.pmatch = true) ∧ s.matched = false) ∧
      s.vaddr = true := by simpa using dmatch
    have some := (searching.near pmatch now).1
    have entry := searching.fetched pmatch now vaddr
    rw [equal] at entry
    obtain ⟨last, close⟩ := waits_short iStb iCodeword stb pmatch
    rw [further, depth inside, word]
    exact ⟨by omega, entry, last, close⟩
  case encoded =>
    intro dmatch matched
    rw [waits_dmatch iStb iCodeword stb] at dmatch
    have pmatch : s.pmatch = true := by simp at dmatch; exact dmatch.1.1.2
    have none : (!s.matched && !s.wMatch) = true := by
      simpa [Compress.wbucompress, stb] using matched
    have far : s.dffaddr + 1#10 - 12#10 = s.dffaddr - 1#10 - 10#10 := by bv_omega
    have close : s.dffaddr + 1#10 - 2#10 = s.dffaddr - 1#10 := by bv_omega
    rw [further]
    simp only [Compress.wbucompress, none, if_true, searching.distance pmatch]
    rw [far, close]
    exact ⟨rfl, rfl⟩

/-- A word that has been found is replaced by the place of its entry. -/
theorem Searching.expand_replaced (searching : Searching s t) (unmatched : s.matched = false)
    (found : s.wMatch = true) :
    t.expand s.replaced = some s.rWord := by
  obtain ⟨⟨inside, dmatch⟩, read⟩ : (s.addrWithinTable = true ∧ s.dmatch = true) ∧ isRead s.rWord = true := by
    simpa [Compress.wMatch] using found
  obtain ⟨three, entry, last, close⟩ := searching.found dmatch inside
  obtain ⟨dbld, hlfd⟩ := searching.encoded dmatch unmatched
  have far := (searching.near (searching.paired dmatch) inside).2
  cases zmatch : s.zmatch with
  | true =>
    rw [zmatch, eq_comm, decide_eq_true_eq] at last
    rw [last] at entry
    exact expand_last read zmatch entry
  | false =>
    rw [zmatch, eq_comm, decide_eq_false_iff_not] at last
    -- the two short encodings count from the third entry back
    cases hmatch : s.hmatch with
    | true =>
      rw [hmatch, eq_comm, decide_eq_true_eq] at close
      have place : s.adrHlfd.toNat + 1 = s.dffaddr.toNat - 3 := by
        rw [hlfd, BitVec.toNat_sub, BitVec.extractLsb'_toNat, BitVec.toNat_sub]
        simp
        omega
      rw [← place] at entry
      exact expand_near read zmatch hmatch entry
    | false =>
      rw [hmatch, eq_comm, decide_eq_false_iff_not] at close
      have place : (s.adrDbld.extractLsb' 0 9).toNat + 9 = s.dffaddr.toNat - 3 := by
        rw [dbld, BitVec.extractLsb'_toNat, BitVec.toNat_sub]
        simp
        omega
      rw [← place] at entry
      exact expand_far read zmatch hmatch entry

end Search

/-! ### What the stages hold -/

/-- The codeword that a word of the pipeline was made from. -/
def origin (codeword : BitVec 36) : BitVec 36 := (Table.expand [] codeword).getD codeword

theorem origin_shorten {codeword : BitVec 36} (plain : Plain codeword) : origin (shorten codeword) = codeword := by
  rw [origin, expand_shorten plain, Option.getD_some]

def Compress.held (s : Compress) : List (BitVec 36) :=
  (if s.stb then [origin s.rWord] else []) ++ if s.awordValid then [origin s.addrword] else []

/-- What the stages show stands for what they have accepted. -/
structure Presenting (s : Compress) (t : Table) : Prop where
  first : s.awordValid = true → ∃ codeword, Plain codeword ∧ s.addrword = shorten codeword
  second : s.stb = true → ∃ codeword, Plain codeword ∧ s.rWord = shorten codeword
  same : s.stb = true → s.matched = false → s.rCword = s.rWord
  other : s.stb = true → s.matched = true → isRead s.rCword = false ∧ isAddress s.rCword = false ∧
    t.expand s.rCword = some (origin s.rWord)

namespace Compress

structure Inputs where
  up : Offer (BitVec 36)
  busy : Bool
  deriving DecidableEq, Repr

def clock (s : Compress) (i : Inputs) : Compress := s.wbucompress false i.up.stb i.up.data i.busy

def accepts (s : Compress) (i : Inputs) : List (BitVec 36) := i.up.taken (s.busy i.busy)

/-- Whatever is accepted is none of the short forms. -/
def Takes (s : Compress) (i : Inputs) : Prop := ∀ codeword ∈ s.accepts i, Plain codeword

instance (s : Compress) (i : Inputs) : Decidable (Takes s i) :=
  inferInstanceAs (Decidable (∀ codeword ∈ s.accepts i, Plain codeword))

variable {s : Compress} {t : Table} {i : Inputs}

theorem presented (presenting : Presenting s t) (stb : s.stb = true) : t.expand s.rCword = some (origin s.rWord) := by
  cases matched : s.matched with
  | true => exact (presenting.other stb matched).2.2
  | false =>
    obtain ⟨codeword, plain, word⟩ := presenting.second stb
    rw [presenting.same stb matched, word, expand_shorten plain, origin_shorten plain]

theorem awordValid_clock : (s.clock i).awordValid = (i.up.stb || s.busy i.busy) := by
  simp only [clock, wbucompress, busy]
  cases i.up.stb <;> cases s.awordValid <;> cases s.tblBusy i.busy <;> rfl

theorem stb_clock : (s.clock i).stb = (s.awordValid || s.tblBusy i.busy) := by
  simp only [clock, wbucompress, tblBusy]
  cases s.awordValid <;> cases s.stb <;> cases i.busy <;> rfl

theorem addrword_clock : (s.clock i).addrword = if s.busy i.busy then s.addrword else shorten i.up.data := by
  cases full : s.busy i.busy with
  | true =>
    obtain ⟨valid, waits⟩ := Bool.and_eq_true_iff.mp full
    simp [clock, wbucompress, valid, waits]
  | false =>
    have room : (!s.awordValid || !s.tblBusy i.busy) = true := by
      rw [← Bool.not_and, ← busy, full]
      rfl
    simp [clock, wbucompress, room]

theorem rWord_clock : (s.clock i).rWord = if s.tblBusy i.busy then s.rWord else s.addrword := by
  simp only [clock, wbucompress]
  cases s.tblBusy i.busy <;> rfl

theorem matched_clock : (s.clock i).matched = (s.tblBusy i.busy && (s.matched || s.wMatch)) := by
  simp only [clock, wbucompress, tblBusy]
  cases s.stb <;> cases i.busy <;> rfl

theorem rCword_clock : (s.clock i).rCword =
    if s.tblBusy i.busy then if !s.matched && s.wMatch then s.replaced else s.rCword else s.addrword := by
  simp only [clock, wbucompress]
  cases s.tblBusy i.busy <;> rfl

/-- What arrives in the first stage is a codeword that has been accepted. -/
theorem accepts_eq (free : s.busy i.busy = false) : s.accepts i = if i.up.stb then [i.up.data] else [] := by
  rw [accepts, free]
  cases stb : i.up.stb <;> simp [Offer.taken, stb]

theorem accepts_none (full : s.busy i.busy = true) : s.accepts i = [] := by
  rw [accepts, full, Offer.taken_busy]

theorem takes_of_plain (plain : i.up.stb = true → Plain i.up.data) : Takes s i := by
  intro codeword member
  unfold accepts Offer.taken at member
  split_ifs at member with taken
  · rw [List.mem_singleton.mp member]
    exact plain (Bool.and_eq_true_iff.mp taken).1
  · exact absurd member List.not_mem_nil

theorem presenting_clock (presenting : Presenting s t) (searching : Searching s t) (takes : Takes s i) :
    Presenting (s.clock i) (t.afterAll (s.emits i.busy)) := by
  constructor
  case first =>
    intro valid
    rw [awordValid_clock] at valid
    rw [addrword_clock]
    cases full : s.busy i.busy with
    | true => exact presenting.first (Bool.and_eq_true_iff.mp full).1
    | false =>
      have stb : i.up.stb = true := by simpa [full] using valid
      refine ⟨i.up.data, takes _ ?_, rfl⟩
      simp [accepts_eq full, stb]
  case second =>
    intro stb
    rw [stb_clock] at stb
    rw [rWord_clock]
    cases waits : s.tblBusy i.busy with
    | true => exact presenting.second (Bool.and_eq_true_iff.mp waits).1
    | false => exact presenting.first (by simpa [waits] using stb)
  case same =>
    intro _ unmatched
    rw [matched_clock] at unmatched
    rw [rCword_clock, rWord_clock]
    cases waits : s.tblBusy i.busy with
    | true =>
      obtain ⟨matched, wMatch⟩ : s.matched = false ∧ s.wMatch = false := by simpa [waits] using unmatched
      simp only [matched, wMatch, Bool.and_false, if_true]
      exact presenting.same (Bool.and_eq_true_iff.mp waits).1 matched
    | false => rfl
  case other =>
    intro _ hit
    rw [matched_clock, Bool.and_eq_true] at hit
    obtain ⟨stb, busy⟩ := Bool.and_eq_true_iff.mp hit.1
    have silent : t.afterAll (s.emits i.busy) = t := by simp [emits, busy, Table.afterAll]
    rw [silent, rCword_clock, rWord_clock, hit.1]
    -- the word in the second stage is replaced once, and stays replaced
    cases matched : s.matched with
    | true => exact presenting.other stb matched
    | false =>
      have found : s.wMatch = true := by simpa [matched] using hit.2
      have read : isRead s.rWord = true := (Bool.and_eq_true_iff.mp found).2
      obtain ⟨notRead, notAddress⟩ := replaced_other s
      refine ⟨by simpa [found] using notRead, by simpa [found] using notAddress, ?_⟩
      have same : origin s.rWord = s.rWord := by rw [origin, expand_plain (plain_read read), Option.getD_some]
      simpa [found, same] using searching.expand_replaced matched found

/-- What leaves and what is held afterwards is what was held and is accepted. -/
theorem held_clock (takes : Takes s i) :
    (if s.stb && !i.busy then [origin s.rWord] else []) ++ (s.clock i).held = s.held ++ s.accepts i := by
  rw [held, held, awordValid_clock, stb_clock, addrword_clock, rWord_clock]
  cases waits : s.tblBusy i.busy with
  | true =>
    obtain ⟨stb, busy⟩ := Bool.and_eq_true_iff.mp waits
    cases valid : s.awordValid with
    | true =>
      have full : s.busy i.busy = true := by simp [Compress.busy, valid, waits]
      rw [accepts_none full, full]
      simp [stb, busy]
    | false =>
      have free : s.busy i.busy = false := by simp [Compress.busy, valid]
      rw [accepts_eq free, free]
      cases up : i.up.stb with
      | false => simp [stb, busy]
      | true =>
        have plain : Plain i.up.data := takes _ (by simp [accepts_eq free, up])
        simp [stb, busy, origin_shorten plain]
  | false =>
    have free : s.busy i.busy = false := by simp [Compress.busy, waits]
    have leaves : (s.stb && !i.busy) = s.stb := by
      rw [tblBusy] at waits
      revert waits
      cases s.stb <;> cases i.busy <;> decide
    rw [accepts_eq free, leaves, free]
    cases up : i.up.stb with
    | false => simp
    | true =>
      have plain : Plain i.up.data := takes _ (by simp [accepts_eq free, up])
      simp [origin_shorten plain]

/-! ### Runs -/

/-- Everything accepted and everything emitted. -/
structure Traffic where
  accepted : List (BitVec 36)
  emitted : List (BitVec 36)
  deriving DecidableEq, Repr

/-- The compressor with its traffic. -/
abbrev Traced := Compress × Traffic

namespace Traced

def step (x : Traced) (i : Inputs) : Traced :=
  (x.1.clock i, ⟨x.2.accepted ++ x.1.accepts i, x.2.emitted ++ x.1.emits i.busy⟩)

/-- Power-up, with any contents in the registers that have no initial value. -/
def start (s : Compress) : Traced :=
  ({ s with
      awordValid := false
      stb := false
      tblAddr := 0
      tblFilled := false
      compressionTbl := fun _ => 0
      rdAddr := 0
      pmatch := false
      dmatch := false
      vaddr := false
      matched := false
      zmatch := false
      hmatch := false
      dffaddr := 0
      addrWithinTable := true },
    ⟨[], []⟩)

/-- The decoder makes of what has been emitted what has been accepted, but for the words still held. -/
def Decodes (x : Traced) : Prop :=
  ∃ words, Table.decode [] x.2.emitted = some words ∧ words ++ x.1.held = x.2.accepted

structure Sound (x : Traced) : Prop where
  recorded : Recorded x.1 (Table.afterAll [] x.2.emitted)
  searching : Searching x.1 (Table.afterAll [] x.2.emitted)
  presenting : Presenting x.1 (Table.afterAll [] x.2.emitted)
  decodes : Decodes x

theorem sound_start (s : Compress) : Sound (start s) := by
  refine ⟨?_, ?_, ?_, [], rfl, rfl⟩
  · constructor
    case addr => rfl
    case full => simp [start]
    case fresh => simp [start, Table.afterAll]
    case entries =>
      intro k positive _ inside
      exact absurd inside (by simp [start, Table.afterAll]; omega)
  · constructor <;> simp [start]
  · constructor <;> simp [start]

variable {x : Traced} {i : Inputs}

theorem Sound.decodes_step (sound : Sound x) (takes : Takes x.1 i) : Decodes (x.step i) := by
  obtain ⟨words, decoded, held⟩ := sound.decodes
  have law := held_clock takes
  cases leaves : x.1.stb && !i.busy with
  | false =>
    have silent : x.1.emits i.busy = [] := by simp [emits, leaves]
    refine ⟨words, by simpa [step, silent] using decoded, ?_⟩
    rw [leaves, if_neg (by decide), List.nil_append] at law
    simp only [step]
    rw [law, ← List.append_assoc, held]
  | true =>
    have emits : x.1.emits i.busy = [x.1.rCword] := by simp [emits, leaves]
    have stb : x.1.stb = true := (Bool.and_eq_true_iff.mp leaves).1
    refine ⟨words ++ [origin x.1.rWord], ?_, ?_⟩
    · simp only [step, emits]
      rw [Table.decode_append decoded, presented sound.presenting stb, Option.map_some]
    · rw [leaves, if_pos rfl] at law
      simp only [step]
      rw [List.append_assoc, law, ← List.append_assoc, held]

theorem Sound.step (sound : Sound x) (takes : Takes x.1 i) : Sound (x.step i) := by
  have table : Table.afterAll [] (x.step i).2.emitted = (Table.afterAll [] x.2.emitted).afterAll (x.1.emits i.busy) :=
    List.foldl_append
  refine ⟨?_, ?_, ?_, sound.decodes_step takes⟩
  · rw [table]
    refine sound.recorded.step i.up.stb i.up.data i.busy fun push => ?_
    obtain ⟨leaves, read⟩ := Bool.and_eq_true_iff.mp push
    have stb : x.1.stb = true := (Bool.and_eq_true_iff.mp leaves).1
    -- a word that leaves as a read word has not been replaced
    have unmatched : x.1.matched = false := by
      cases matched : x.1.matched with
      | false => rfl
      | true => exact absurd read (by simp [(sound.presenting.other stb matched).1])
    rw [sound.presenting.same stb unmatched]
  · rw [table]
    cases leaves : !x.1.stb || !i.busy with
    | true => exact searching_leaves i.up.stb i.up.data leaves _
    | false =>
      obtain ⟨stb, busy⟩ : x.1.stb = true ∧ i.busy = true := by simpa using leaves
      have next := sound.searching.waits i.up.stb i.up.data sound.recorded stb
      have silent : (Table.afterAll [] x.2.emitted).afterAll (x.1.emits i.busy) = Table.afterAll [] x.2.emitted := by
        simp [emits, busy, Table.afterAll]
      rw [silent]
      rw [← busy] at next
      exact next
  · rw [table]
    exact presenting_clock sound.presenting sound.searching takes

/-- Whatever is accepted, if it is none of the short forms, is what the decoder finds, in order and once,
however long the output is busy and however far the search gets. -/
theorem restores (s : Compress) (is : List Inputs)
    (takes : Clocked.Always step (fun x i => Takes x.1 i) (start s) is) :
    Decodes (Clocked.run step (start s) is) := by
  have kept (x : Traced) (i : Inputs) (sound : Sound x) (takes : Takes x.1 i) : Sound (x.step i) := sound.step takes
  exact (Clocked.run_invariant kept (sound_start s) takes).decodes

def blank : Compress :=
  ⟨false, 0, false, 0, 0, 0, false, fun _ => 0, 0, false, false, false, 0, 0, false, false, false, 0, 0, 0, true⟩

/-- An address, then the same read word twice; the second one waits until it has been found. -/
def twice : List Inputs :=
  [⟨⟨true, 0x200000040⟩, false⟩, ⟨⟨true, 0xe00000007⟩, false⟩, ⟨⟨true, 0xe00000007⟩, false⟩, ⟨⟨false, 0⟩, false⟩,
    ⟨⟨false, 0⟩, true⟩, ⟨⟨false, 0⟩, true⟩, ⟨⟨false, 0⟩, true⟩, ⟨⟨false, 0⟩, true⟩, ⟨⟨false, 0⟩, false⟩]

theorem restores_twice : Decodes (Clocked.run step (start blank) twice) := by
  have plain : ∀ i ∈ twice, i.up.stb = true → Plain i.up.data := by decide
  exact restores blank twice (Clocked.always_of_inputs (fun i member _ => takes_of_plain (plain i member)) _)

/-- A codeword with the prefix of a short address. -/
def short : List Inputs := [⟨⟨true, 0x300000001⟩, false⟩, ⟨⟨false, 0⟩, false⟩, ⟨⟨false, 0⟩, false⟩]

/-- It is passed on as it is, and decoded as an address. -/
theorem short_ambiguous :
    (Clocked.run step (start blank) short).2.accepted = [0x300000001] ∧
    (Clocked.run step (start blank) short).2.emitted = [0x300000001] ∧
    Table.decode [] [0x300000001] = some [0x200000000] ∧ ¬ Decodes (Clocked.run step (start blank) short) := by
  have accepted : (Clocked.run step (start blank) short).2.accepted = [0x300000001] := by decide +kernel
  have emitted : (Clocked.run step (start blank) short).2.emitted = [0x300000001] := by decide +kernel
  have decoded : Table.decode [] [0x300000001] = some [0x200000000] := by decide +kernel
  refine ⟨accepted, emitted, decoded, ?_⟩
  rintro ⟨words, found, held⟩
  rw [emitted, decoded] at found
  cases found
  rw [accepted] at held
  simp at held

end Traced

end Compress

end IcoZip.Wbubus
