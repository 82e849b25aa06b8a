import IcoZip.Hexbus.Placement
import IcoZip.Loader.Sections

/-! The program image in memory: the calls that the loader makes of it, and the
memory behind them if each lands where it starts.
-/

set_option autoImplicit false

namespace IcoZip.Loader

open Hexbus (Call Memory Write store_named wordAddr wordAddr_toNat)
open Flash (byteswap byteswap_append)

/-! ### Writing words -/

theorem length_wordsOf (bytes : List (BitVec 8)) (n : Nat) : (wordsOf bytes n).length = n := by
  simp [wordsOf]

theorem getElem_wordsOf (bytes : List (BitVec 8)) (n k : Nat) (bound : k < (wordsOf bytes n).length) :
    (wordsOf bytes n)[k] = Bytes.ofBytes fun j => bytes.getD (4 * k + j) 0 := by
  simp [wordsOf]

/-- The words of an array, swapped, are its bytes in the order of the CPU. -/
theorem byte_byteswap (b : Nat → BitVec 8) {j : Nat} (small : j < 4) :
    Bytes.byte (byteswap (Bytes.ofBytes b)) (3 - j) = b j := by
  have swapped : byteswap (Bytes.ofBytes b) = Bytes.ofBytes fun k => b (3 - k) := by
    rw [Bytes.ofBytes, byteswap_append]
    rfl
  rw [swapped, Bytes.byte_ofBytes _ (by omega), show 3 - (3 - j) = j by omega]

/-- Whole words are written at an aligned address: byte for byte, and nothing else. -/
theorem writei_byte (mem : Memory) (start a : BitVec 32) (data : List (BitVec 8)) (n : Nat)
    (aligned : start.toNat % 4 = 0) (inside : start.toNat + 4 * n ≤ 2 ^ 32) :
    cpuByte (Call.stored mem (.writei start ((wordsOf data n).map byteswap))) a =
      if start.toNat ≤ a.toNat ∧ a.toNat < start.toNat + 4 * n then data.getD (a.toNat - start.toNat) 0
      else cpuByte mem a := by
  have length : ((wordsOf data n).map byteswap).length = n := by rw [List.length_map, length_wordsOf]
  have bound := a.isLt
  have base := wordAddr_toNat start
  have word := wordAddr_toNat a
  have stored : Call.stored mem (.writei start ((wordsOf data n).map byteswap)) (wordAddr a) =
      ((wordsOf data n).map byteswap).getD (wordAddr a - wordAddr start).toNat (mem (wordAddr a)) :=
    store_named mem (wordAddr start) ((wordsOf data n).map byteswap) (by omega) (wordAddr a)
  rw [cpuByte, stored]
  split_ifs with within
  · have place : (wordAddr a - wordAddr start).toNat = (a.toNat - start.toNat) / 4 := by
      rw [BitVec.toNat_sub]
      omega
    have less : (a.toNat - start.toNat) / 4 < n := by omega
    rw [place, List.getD_eq_getElem _ _ (by rw [length]; exact less), List.getElem_map, getElem_wordsOf,
      byte_byteswap _ (Nat.mod_lt _ (by decide))]
    congr 1
    omega
  · have beyond : n ≤ (wordAddr a - wordAddr start).toNat := by
      have top := (wordAddr a).isLt
      rw [BitVec.toNat_sub]
      omega
    rw [List.getD_eq_default _ _ (by rw [length]; exact beyond)]
    rfl

/-! ### The loops -/

/-- A section's length in whole words. -/
def Phdr.padded (phdr : Phdr) : Nat := (phdr.filesz.toNat + 3) / 4 * 4

/-- A header that the claim about the loader is about. -/
structure Phdr.Sane (phdr : Phdr) (file : List (BitVec 8)) : Prop extends phdr.Within file where
  aligned : phdr.paddr.toNat % 4 = 0
  inside : (BKRAMBASE.toNat ≤ phdr.paddr.toNat ∧
      phdr.paddr.toNat + phdr.memsz.toNat ≤ BKRAMBASE.toNat + BKRAMLEN.toNat) ∨
    (SDRAMBASE.toNat ≤ phdr.paddr.toNat ∧
      phdr.paddr.toNat + phdr.memsz.toNat ≤ SDRAMBASE.toNat + SDRAMLEN.toNat)

instance (phdr : Phdr) (file : List (BitVec 8)) : Decidable (phdr.Sane file) :=
  decidable_of_iff (_ ∧ _ ∧ _) ⟨fun ⟨within, aligned, inside⟩ => ⟨within, aligned, inside⟩,
    fun sane => ⟨sane.toWithin, sane.aligned, sane.inside⟩⟩

/-- The bytes that are copied for a section: those of the file, and what follows them in the block. -/
def copied (file : List (BitVec 8)) (d : Heap) (pos : Nat) (phdr : Phdr) : List (BitVec 8) :=
  (List.range phdr.padded).map fun k =>
    if k < phdr.filesz.toNat then file.getD (phdr.offset.toNat + k) 0 else d.cell (pos + 8 + k)

/-- The write of a section. -/
def sectionWrite (file : List (BitVec 8)) (d : Heap) (pos : Nat) (phdr : Phdr) : Write :=
  ⟨phdr.paddr, (wordsOf (copied file d pos phdr) (phdr.padded / 4)).map byteswap⟩

/-- The writes of the loop, which ends at the first section without octets. -/
def sectionWrites (file : List (BitVec 8)) (d : Heap) : Nat → List Phdr → List Write
  | _, [] => []
  | pos, phdr :: phdrs =>
    if phdr.filesz = 0 then []
    else sectionWrite file d pos phdr :: sectionWrites file d (pos + (phdr.memsz.toNat + ELFSECTION)) phdrs

/-- What they make of the memory if each lands where it starts. -/
def loaded (file : List (BitVec 8)) (d : Heap) : Nat → List Phdr → Memory → Memory
  | _, [], mem => mem
  | pos, phdr :: phdrs, mem =>
    if phdr.filesz = 0 then mem
    else loaded file d (pos + (phdr.memsz.toNat + ELFSECTION)) phdrs
      ((sectionWrite file d pos phdr).call.stored mem)

namespace Phdr.Sane

variable {file : List (BitVec 8)} {phdr : Phdr}

theorem fits_toNat (sane : phdr.Sane file) : phdr.filesz.toNat ≤ phdr.memsz.toNat := sane.fits

theorem padded_le (sane : phdr.Sane file) : phdr.padded ≤ phdr.memsz.toNat + 3 := by
  have fits := sane.fits_toNat
  rw [padded]
  omega

theorem top (sane : phdr.Sane file) : phdr.paddr.toNat + phdr.padded ≤ 2 ^ 32 := by
  have fits := sane.fits_toNat
  have inside := sane.inside
  simp only [BKRAMBASE, BKRAMLEN, SDRAMBASE, SDRAMLEN, BitVec.toNat_ofNat] at inside
  rw [padded]
  omega

theorem valid (sane : phdr.Sane file) :
    (inSdram phdr.paddr phdr.filesz || inBkram phdr.paddr phdr.filesz) = true := by
  have fits := sane.fits_toNat
  have inside := sane.inside
  simp only [BKRAMBASE, BKRAMLEN, SDRAMBASE, SDRAMLEN, BitVec.toNat_ofNat] at inside
  simp only [inSdram, inBkram, BKRAMBASE, BKRAMLEN, SDRAMBASE, SDRAMLEN, Bool.or_eq_true, Bool.and_eq_true,
    decide_eq_true_eq, BitVec.le_def, BitVec.toNat_add, BitVec.toNat_ofNat]
  omega

end Phdr.Sane

theorem checkSections_spec {file : List (BitVec 8)} {b d : Heap} {phdrs : List Phdr}
    (sane : ∀ phdr ∈ phdrs, phdr.Sane file) {pos : Nat} {r : List Nat} (packed : Packed file b d pos phdrs r) :
    checkSections b r = some () := by
  induction phdrs generalizing pos r with
  | nil =>
    obtain ⟨rfl, room, len⟩ := packed
    rw [checkSections, loadWord_eq (by omega), loadWord_eq (by omega), len]
    rfl
  | cons phdr phdrs ih =>
    obtain ⟨r', rfl, room, start, len, -, -, rest⟩ := packed
    obtain ⟨head, tail⟩ := List.forall_mem_cons.mp sane
    rw [ELFSECTION] at room
    have valid := head.valid
    rw [Bool.or_comm] at valid
    rw [checkSections, loadWord_eq (by omega), loadWord_eq (by omega), start, len]
    simp only [Option.bind_eq_bind, Option.bind_some, valid, if_true]
    split_ifs
    · rfl
    · exact ih tail rest

theorem sectionWords_spec {file : List (BitVec 8)} {b d : Heap} {phdr : Phdr} (sane : phdr.Sane file) {pos : Nat}
    (room : pos + (phdr.memsz.toNat + ELFSECTION) ≤ b.size)
    (data : ∀ k, k < phdr.filesz.toNat → b.cell (pos + 8 + k) = file.getD (phdr.offset.toNat + k) 0)
    (slack : ∀ k, phdr.filesz.toNat ≤ k → k < phdr.memsz.toNat + 4 → b.cell (pos + 8 + k) = d.cell (pos + 8 + k)) :
    sectionWords b pos phdr.filesz = some (sectionWrite file d pos phdr).buf := by
  have padded := sane.padded_le
  have bound : phdr.filesz.toNat + 3 < 2 ^ 32 := by
    have fits := sane.fits_toNat
    have inside := sane.inside
    simp only [BKRAMBASE, BKRAMLEN, SDRAMBASE, SDRAMLEN, BitVec.toNat_ofNat] at inside
    omega
  have ln : (phdr.filesz.toNat + 3 &&& 0xfffffffc) = phdr.padded := Flash.wordOf_eq bound
  rw [ELFSECTION] at room
  have copy : b.window (pos + 8) phdr.padded = copied file d pos phdr := by
    refine List.map_congr_left fun k member => ?_
    have small := List.mem_range.mp member
    split_ifs with inside
    · exact data k inside
    · exact slack k (by omega) (by omega)
  rw [sectionWords, ln, Block.load_eq (by omega), copy, List.drop_replicate, Nat.sub_self, List.replicate_zero]
  simp only [Option.bind_eq_bind, Option.bind_some, List.append_nil, Nat.shiftRight_eq_div_pow]
  rfl

theorem writeSections_spec {file : List (BitVec 8)} {b d : Heap} {phdrs : List Phdr}
    (sane : ∀ phdr ∈ phdrs, phdr.Sane file) {pos : Nat} {r : List Nat} (packed : Packed file b d pos phdrs r) :
    writeSections b r = some ((sectionWrites file d pos phdrs).map Write.call) := by
  induction phdrs generalizing pos r with
  | nil =>
    obtain ⟨rfl, room, len⟩ := packed
    rw [writeSections, loadWord_eq (by omega), loadWord_eq (by omega), len]
    rfl
  | cons phdr phdrs ih =>
    obtain ⟨r', rfl, room, start, len, data, slack, rest⟩ := packed
    obtain ⟨head, tail⟩ := List.forall_mem_cons.mp sane
    have first := sectionWords_spec head room data slack
    rw [ELFSECTION] at room
    rw [writeSections, loadWord_eq (by omega), loadWord_eq (by omega), start, len, sectionWrites]
    simp only [Option.bind_eq_bind, Option.bind_some, head.valid, if_true]
    split_ifs
    · rfl
    · rw [first, ih tail rest]
      rfl

/-! ### The image -/

/-- The addresses that a section is written to. -/
def Phdr.covers (phdr : Phdr) (a : BitVec 32) : Prop :=
  phdr.paddr.toNat ≤ a.toNat ∧ a.toNat < phdr.paddr.toNat + phdr.padded

/-- No address in the memory of both. -/
def Phdr.Apart (p q : Phdr) : Prop :=
  p.memsz.toNat = 0 ∨ q.memsz.toNat = 0 ∨ p.paddr.toNat + p.memsz.toNat ≤ q.paddr.toNat ∨
    q.paddr.toNat + q.memsz.toNat ≤ p.paddr.toNat

instance (p q : Phdr) : Decidable (p.Apart q) := inferInstanceAs (Decidable (_ ∨ _ ∨ _ ∨ _))

/-- A program image that fits the board. -/
structure Image (file : List (BitVec 8)) (phdrs : List Phdr) : Prop where
  sane : ∀ phdr ∈ phdrs, phdr.Sane file
  apart : phdrs.Pairwise Phdr.Apart

/-- The memory holds the image, and what it held elsewhere. -/
structure Loaded (file : List (BitVec 8)) (phdrs : List Phdr) (mem mem' : Memory) : Prop where
  data : ∀ phdr ∈ phdrs, ∀ k, k < phdr.filesz.toNat →
    cpuByte mem' (phdr.paddr + BitVec.ofNat 32 k) = file.getD (phdr.offset.toNat + k) 0
  padding : ∀ phdr ∈ phdrs, ∀ k, phdr.filesz.toNat ≤ k → k < phdr.padded →
    cpuByte mem' (phdr.paddr + BitVec.ofNat 32 k) = 0
  other : ∀ a, (∀ phdr ∈ phdrs, ¬phdr.covers a) → cpuByte mem' a = cpuByte mem a

section
variable {file : List (BitVec 8)} {d : Heap} {phdr q : Phdr} {phdrs front back : List Phdr} {a : BitVec 32}

theorem Phdr.Apart.not_both (apart : phdr.Apart q) (first : phdr.Sane file) (second : q.Sane file)
    (covers : phdr.covers a) : ¬q.covers a := by
  have fits₁ := first.fits_toNat
  have fits₂ := second.fits_toNat
  have aligned₁ := first.aligned
  have aligned₂ := second.aligned
  unfold Apart at apart
  simp only [Phdr.covers, Phdr.padded] at covers ⊢
  omega

theorem padded_div (phdr : Phdr) : 4 * (phdr.padded / 4) = phdr.padded := by
  rw [Phdr.padded]
  omega

theorem copied_byte {pos : Nat} (mem : Memory) (sane : phdr.Sane file) (a : BitVec 32) :
    cpuByte ((sectionWrite file d pos phdr).call.stored mem) a =
      if phdr.paddr.toNat ≤ a.toNat ∧ a.toNat < phdr.paddr.toNat + phdr.padded then
        (copied file d pos phdr).getD (a.toNat - phdr.paddr.toNat) 0
      else cpuByte mem a := by
  have written := writei_byte mem phdr.paddr a (copied file d pos phdr) (phdr.padded / 4) sane.aligned
    (by rw [padded_div]; exact sane.top)
  rwa [padded_div] at written

theorem loaded_outside (sane : ∀ phdr ∈ phdrs, phdr.Sane file) (outside : ∀ phdr ∈ phdrs, ¬phdr.covers a) (pos : Nat)
    (mem : Memory) : cpuByte (loaded file d pos phdrs mem) a = cpuByte mem a := by
  induction phdrs generalizing pos mem with
  | nil => rfl
  | cons phdr phdrs ih =>
    obtain ⟨head, tail⟩ := List.forall_mem_cons.mp sane
    obtain ⟨here, later⟩ := List.forall_mem_cons.mp outside
    rw [loaded]
    split_ifs
    · rfl
    · rw [ih tail later, copied_byte mem head]
      exact if_neg here

/-- What is behind a section without octets is not looked at. -/
theorem loaded_stops (empty : phdr.filesz = 0) (pos : Nat) (mem : Memory) :
    loaded file d pos (front ++ phdr :: back) mem = loaded file d pos front mem := by
  induction front generalizing pos mem with
  | nil => simp only [List.nil_append, loaded, empty, if_true]
  | cons p front ih => rw [List.cons_append, loaded, ih, loaded]

theorem loaded_inside (sane : ∀ p ∈ front ++ phdr :: back, p.Sane file)
    (before : ∀ p ∈ front, p.filesz ≠ 0) (here : phdr.filesz ≠ 0) (covers : phdr.covers a)
    (behind : ∀ q ∈ back, ¬q.covers a) (pos : Nat) (mem : Memory) :
    cpuByte (loaded file d pos (front ++ phdr :: back) mem) a =
      (copied file d (pos + extent front) phdr).getD (a.toNat - phdr.paddr.toNat) 0 := by
  induction front generalizing pos mem with
  | nil =>
    obtain ⟨head, tail⟩ := List.forall_mem_cons.mp sane
    rw [List.nil_append, loaded, if_neg here, loaded_outside tail behind, copied_byte mem head]
    exact if_pos covers
  | cons p front ih =>
    obtain ⟨-, tail⟩ := List.forall_mem_cons.mp sane
    obtain ⟨first, rest⟩ := List.forall_mem_cons.mp before
    rw [List.cons_append, loaded, if_neg first, ih tail rest, extent, Nat.add_assoc]

theorem toNat_place {k : Nat} (sane : phdr.Sane file) (small : k < phdr.padded) :
    (phdr.paddr + BitVec.ofNat 32 k).toNat = phdr.paddr.toNat + k := by
  have top := sane.top
  rw [BitVec.toNat_add, BitVec.toNat_ofNat]
  omega

theorem copied_getD {pos k : Nat} (small : k < phdr.padded) :
    (copied file d pos phdr).getD k 0 =
      if k < phdr.filesz.toNat then file.getD (phdr.offset.toNat + k) 0 else d.cell (pos + 8 + k) := by
  simp [copied, small]

/-- The octet `k` of a section that is reached. -/
theorem loaded_octet (image : Image file (front ++ phdr :: back)) (before : ∀ p ∈ front, p.filesz ≠ 0) {k : Nat}
    (small : k < phdr.padded) (pos : Nat) (mem : Memory) :
    cpuByte (loaded file d pos (front ++ phdr :: back) mem) (phdr.paddr + BitVec.ofNat 32 k) =
      if k < phdr.filesz.toNat then file.getD (phdr.offset.toNat + k) 0
      else d.cell (pos + extent front + 8 + k) := by
  have sane := image.sane phdr (List.mem_append_right _ List.mem_cons_self)
  have place := toNat_place sane small
  have here : phdr.filesz ≠ 0 := by
    intro empty
    rw [Phdr.padded, empty] at small
    exact absurd small (Nat.not_lt_zero k)
  have covers : phdr.covers (phdr.paddr + BitVec.ofNat 32 k) := by
    rw [Phdr.covers, place]
    omega
  have apart := (List.pairwise_cons.mp (List.pairwise_append.mp image.apart).2.1).1
  have behind (q : Phdr) (member : q ∈ back) : ¬q.covers (phdr.paddr + BitVec.ofNat 32 k) :=
    (apart q member).not_both sane
      (image.sane q (List.mem_append_right _ (List.mem_cons_of_mem _ member))) covers
  rw [loaded_inside image.sane before here covers behind, place, Nat.add_sub_cancel_left, copied_getD small]

end

end IcoZip.Loader
