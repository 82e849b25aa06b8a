import IcoZip.Loader.Zipload

/-! What `elfread` leaves in its block, and what the loops of `zipload` make of
it.
-/

set_option autoImplicit false

namespace IcoZip.Loader

open Hexbus (Memory)

/-! ### Words of the block -/

/-- The `uint32_t` at a position. -/
def wordAt (b : Heap) (pos : Nat) : BitVec 32 := Bytes.ofBytes fun j => b.cell (pos + j)

theorem loadWord_eq {b : Heap} {pos : Nat} (inside : pos + 4 ≤ b.size) : loadWord b pos = some (wordAt b pos) := by
  rw [loadWord, Block.load_eq inside, Option.map_some]
  refine congrArg some (Bytes.ofBytes_congr fun j small => ?_)
  simp [Block.window, small]

theorem wordAt_congr {b d : Heap} {pos : Nat} (same : ∀ k, pos ≤ k → k < pos + 4 → b.cell k = d.cell k) :
    wordAt b pos = wordAt d pos :=
  Bytes.ofBytes_congr fun j small => same (pos + j) (by omega) (by omega)

theorem fillWord_spec (b : Heap) (pos : Nat) (v : BitVec 32) (inside : pos + 4 ≤ b.size) :
    ∃ b', fillWord b pos v = some b' ∧ b'.size = b.size ∧ wordAt b' pos = v ∧
      ∀ k, k < pos ∨ pos + 4 ≤ k → b'.cell k = b.cell k := by
  have length : ((List.range 4).map (Bytes.byte v)).length = 4 := rfl
  obtain ⟨b', fills, size, written, kept⟩ :=
    b.fill_spec pos ((List.range 4).map (Bytes.byte v)) (by rw [length]; exact inside)
  refine ⟨b', fills, size, ?_, kept⟩
  have bytes : wordAt b' pos = Bytes.ofBytes (Bytes.byte v) := by
    refine Bytes.ofBytes_congr fun j small => ?_
    rw [written j (by rw [length]; exact small), List.getElem_map, List.getElem_range]
  rw [bytes, Bytes.ofBytes_byte]

/-! ### The packed sections -/

/-- The sections of `phdrs` from `pos` on, with their bytes of the file; behind these `d` shows through. -/
def Packed (file : List (BitVec 8)) (b d : Heap) : Nat → List Phdr → List Nat → Prop
  | pos, [], r => r = [pos] ∧ pos + 8 ≤ b.size ∧ wordAt b (pos + 4) = 0
  | pos, phdr :: phdrs, r => ∃ r', r = pos :: r' ∧ pos + (phdr.memsz.toNat + ELFSECTION) ≤ b.size ∧
      wordAt b pos = phdr.paddr ∧ wordAt b (pos + 4) = phdr.filesz ∧
      (∀ k, k < phdr.filesz.toNat → b.cell (pos + 8 + k) = file.getD (phdr.offset.toNat + k) 0) ∧
      (∀ k, phdr.filesz.toNat ≤ k → k < phdr.memsz.toNat + 4 → b.cell (pos + 8 + k) = d.cell (pos + 8 + k)) ∧
      Packed file b d (pos + (phdr.memsz.toNat + ELFSECTION)) phdrs r'

/-- The octets that the sections take. -/
def extent : List Phdr → Nat
  | [] => 0
  | phdr :: phdrs => (phdr.memsz.toNat + ELFSECTION) + extent phdrs

/-- A header whose bytes, if it has any, are in the file. -/
structure Phdr.Within (phdr : Phdr) (file : List (BitVec 8)) : Prop where
  fits : phdr.filesz ≤ phdr.memsz
  present : phdr.filesz.toNat ≤ file.length - phdr.offset.toNat

instance (phdr : Phdr) (file : List (BitVec 8)) : Decidable (phdr.Within file) :=
  decidable_of_iff (_ ∧ _) ⟨fun ⟨fits, present⟩ => ⟨fits, present⟩, fun within => ⟨within.fits, within.present⟩⟩

theorem readFile_spec {file : List (BitVec 8)} {offset len : Nat} (present : len ≤ file.length - offset) :
    readFile file offset len = some ((file.drop offset).take len) := by
  have length : ((file.drop offset).take len).length = len := by simp; omega
  rw [readFile, if_pos length]

theorem readSection_spec {file : List (BitVec 8)} {phdr : Phdr} (within : phdr.Within file) (b : Heap) (pos : Nat)
    (room : pos + (phdr.memsz.toNat + ELFSECTION) ≤ b.size) :
    ∃ b', readSection file phdr pos b = some b' ∧ b'.size = b.size ∧
      wordAt b' pos = phdr.paddr ∧ wordAt b' (pos + 4) = phdr.filesz ∧
      (∀ k, k < phdr.filesz.toNat → b'.cell (pos + 8 + k) = file.getD (phdr.offset.toNat + k) 0) ∧
      ∀ k, k < pos ∨ pos + 8 + phdr.filesz.toNat ≤ k → b'.cell k = b.cell k := by
  have fits : phdr.filesz.toNat ≤ phdr.memsz.toNat := within.fits
  have small : ¬phdr.memsz < phdr.filesz := BitVec.not_lt.mpr within.fits
  have present := within.present
  rw [ELFSECTION] at room
  obtain ⟨b₁, fills₁, size₁, start₁, kept₁⟩ := fillWord_spec b pos phdr.paddr (by omega)
  obtain ⟨b₂, fills₂, size₂, len₂, kept₂⟩ := fillWord_spec b₁ (pos + 4) phdr.filesz (by omega)
  have length : ((file.drop phdr.offset.toNat).take phdr.filesz.toNat).length = phdr.filesz.toNat := by simp; omega
  obtain ⟨b₃, fills₃, size₃, data₃, kept₃⟩ :=
    b₂.fill_spec (pos + 8) ((file.drop phdr.offset.toNat).take phdr.filesz.toNat) (by rw [length]; omega)
  rw [length] at kept₃
  refine ⟨b₃, ?_, by omega, ?_, ?_, fun k bound => ?_, fun k outside => ?_⟩
  · simp only [readSection, fills₁, fills₂, small, if_false, readFile_spec present, fills₃, Option.bind_eq_bind,
      Option.bind_some]
  · rw [wordAt_congr fun k low high => kept₃ k (.inl (by omega)),
      wordAt_congr fun k low high => kept₂ k (.inl (by omega)), start₁]
  · rw [wordAt_congr fun k low high => kept₃ k (.inl (by omega)), len₂]
  · rw [data₃ k (by rw [length]; exact bound), List.getElem_take, List.getElem_drop,
      List.getD_eq_getElem _ _ (by omega)]
  · rw [kept₃ k (by omega), kept₂ k (by omega), kept₁ k (by omega)]

theorem readSections_spec {file : List (BitVec 8)} {phdrs : List Phdr}
    (within : ∀ phdr ∈ phdrs, phdr.Within file) (d b : Heap) (pos : Nat) (room : pos + extent phdrs + 8 ≤ b.size)
    (same : ∀ k, pos ≤ k → b.cell k = d.cell k) :
    ∃ r b', readSections file phdrs pos b = some (r, b') ∧ b'.size = b.size ∧
      (∀ k, k < pos → b'.cell k = b.cell k) ∧ Packed file b' d pos phdrs r := by
  induction phdrs generalizing b pos with
  | nil =>
    obtain ⟨b₁, fills₁, size₁, -, kept₁⟩ := fillWord_spec b pos 0 (by omega)
    obtain ⟨b₂, fills₂, size₂, len₂, kept₂⟩ := fillWord_spec b₁ (pos + 4) 0 (by omega)
    refine ⟨[pos], b₂, ?_, by omega, fun k before => ?_, rfl, by omega, len₂⟩
    · simp only [readSections, fills₁, fills₂, Option.bind_eq_bind, Option.bind_some]
    · rw [kept₂ k (.inl (by omega)), kept₁ k (.inl before)]
  | cons phdr phdrs ih =>
    obtain ⟨head, tail⟩ := List.forall_mem_cons.mp within
    have fits : phdr.filesz.toNat ≤ phdr.memsz.toNat := head.fits
    rw [extent] at room
    obtain ⟨b₁, reads, size₁, start, len, data, kept₁⟩ := readSection_spec head b pos (by omega)
    have behind (k : Nat) (high : pos + (phdr.memsz.toNat + ELFSECTION) ≤ k) : b₁.cell k = d.cell k := by
      rw [ELFSECTION] at high
      rw [kept₁ k (.inr (by omega)), same k (by omega)]
    obtain ⟨r, b₂, rest, size₂, kept₂, packed⟩ := ih tail b₁ _ (by omega) behind
    have here (k : Nat) (low : k < pos + (phdr.memsz.toNat + 12)) : b₂.cell k = b₁.cell k := kept₂ k low
    rw [ELFSECTION] at room
    refine ⟨pos :: r, b₂, ?_, by omega, fun k before => ?_, r, rfl, ?_, ?_, ?_, fun k bound => ?_, fun k low high => ?_,
      packed⟩
    · simp only [readSections, reads, rest, Option.bind_eq_bind, Option.bind_some]
    · rw [here k (by omega), kept₁ k (.inl before)]
    · rw [ELFSECTION]; omega
    · rw [wordAt_congr fun k low high => here k (by omega), start]
    · rw [wordAt_congr fun k low high => here k (by omega), len]
    · rw [here _ (by omega), data k bound]
    · rw [here _ (by omega), kept₁ _ (.inr (by omega)), same _ (by omega)]

theorem totalOctets_eq (pointer : Nat) (phdrs : List Phdr) :
    totalOctets pointer phdrs = phdrs.length * pointer + extent phdrs := by
  induction phdrs with
  | nil => simp [totalOctets, extent]
  | cons phdr phdrs ih =>
    rw [totalOctets, ih, extent, List.length_cons, Nat.succ_mul]
    omega

/-- The block before the sections are read: `memset` leaves the last octets as they were allocated. -/
theorem elfread_spec {file : List (BitVec 8)} {phdrs : List Phdr} (nonempty : phdrs ≠ [])
    (within : ∀ phdr ∈ phdrs, phdr.Within file) (pointer : Nat) (free : Nat → BitVec 8) :
    ∃ r b d, elfread pointer file phdrs free = some (r, b) ∧
      Packed file b d ((phdrs.length + 1) * pointer) phdrs r ∧
      (∀ k, k < totalOctets pointer phdrs → d.cell k = 0) ∧
      ∀ k, totalOctets pointer phdrs ≤ k → d.cell k = free k := by
  have total := totalOctets_eq pointer phdrs
  have length : (List.replicate (totalOctets pointer phdrs) (0 : BitVec 8)).length = totalOctets pointer phdrs :=
    List.length_replicate
  obtain ⟨d, fills, size, zero, kept⟩ :=
    Block.fill_spec ⟨totalOctets pointer phdrs + ELFSECTION + pointer, free⟩ 0
      (List.replicate (totalOctets pointer phdrs) 0) (by rw [length]; simp only [Nat.zero_add]; omega)
  rw [length] at kept
  have room : (phdrs.length + 1) * pointer + extent phdrs + 8 ≤ d.size := by
    rw [size, total, Nat.succ_mul, ELFSECTION]
    simp only
    omega
  obtain ⟨r, b, reads, -, -, packed⟩ := readSections_spec within d d _ room fun _ _ => rfl
  refine ⟨r, b, d, ?_, packed, fun k low => ?_, fun k high => kept k (.inr (by omega))⟩
  · simp only [elfread, if_neg nonempty, fills, reads, Option.bind_eq_bind, Option.bind_some]
  · have cell := zero k (by rw [length]; exact low)
    rwa [Nat.zero_add, List.getElem_replicate] at cell

end IcoZip.Loader
