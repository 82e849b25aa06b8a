import IcoZip.Loader.Image

/-! When the loader writes all of the program image.

A section without octets ends the loops, a last section without room is padded
with what the allocated memory held, and one that starts two lengths behind the
start of the one before lands elsewhere.
-/

set_option autoImplicit false

namespace IcoZip.Loader

open Hexbus (Call Memory Outcome Session Target Write wordAddr wordAddr_toNat)

/-- No section with octets behind one without. -/
def Ordered (phdrs : List Phdr) : Prop := phdrs.Pairwise fun p q => p.filesz = 0 → q.filesz = 0

/-- The last section has whole words, or room behind them. -/
def Roomy (pointer : Nat) (phdrs : List Phdr) : Prop :=
  ∀ phdr, phdrs.getLast? = some phdr →
    phdr.filesz.toNat % 4 = 0 ∨ phdr.padded + pointer ≤ phdr.memsz.toNat + 4

/-- No section starts two padded lengths behind the start of the one before it. -/
def Clear (phdrs : List Phdr) : Prop :=
  phdrs.IsChain fun p q => p.filesz ≠ 0 → q.filesz ≠ 0 → q.paddr.toNat ≠ p.paddr.toNat + 2 * p.padded

theorem extent_append (front back : List Phdr) : extent (front ++ back) = extent front + extent back := by
  induction front with
  | nil => simp [extent]
  | cons p front ih => simp only [List.cons_append, extent, ih, Nat.add_assoc]

theorem not_ordered {phdrs : List Phdr} (disordered : ¬Ordered phdrs) :
    ∃ front p back q, phdrs = front ++ p :: back ∧ p.filesz = 0 ∧ q ∈ back ∧ q.filesz ≠ 0 := by
  induction phdrs with
  | nil => exact absurd List.Pairwise.nil disordered
  | cons p phdrs ih =>
    rw [Ordered, List.pairwise_cons, not_and_or] at disordered
    rcases disordered with here | later
    · simp only [not_forall] at here
      obtain ⟨q, member, empty, octets⟩ := here
      exact ⟨[], p, phdrs, q, rfl, empty, member, octets⟩
    · obtain ⟨front, z, back, q, split, rest⟩ := ih later
      exact ⟨p :: front, z, back, q, by rw [split]; rfl, rest⟩

/-! ### The calls -/

section
variable {file : List (BitVec 8)} {d : Heap} {phdr : Phdr} {phdrs : List Phdr} {pos : Nat} {x : Write}

theorem sectionWrite_length (file : List (BitVec 8)) (d : Heap) (pos : Nat) (phdr : Phdr) :
    4 * (sectionWrite file d pos phdr).buf.length = phdr.padded := by
  rw [sectionWrite, List.length_map, length_wordsOf, padded_div]

theorem sectionWrite_fits (sane : phdr.Sane file) (octets : phdr.filesz ≠ 0) (d : Heap) (pos : Nat) :
    (sectionWrite file d pos phdr).Fits := by
  have length := sectionWrite_length file d pos phdr
  have fits := sane.fits_toNat
  have inside := sane.inside
  have some_ : phdr.filesz.toNat ≠ 0 := fun zero => octets (BitVec.eq_of_toNat_eq zero)
  simp only [BKRAMBASE, BKRAMLEN, SDRAMBASE, SDRAMLEN, BitVec.toNat_ofNat] at inside
  rw [Phdr.padded] at length
  refine ⟨sane.aligned, by omega, ?_⟩
  change phdr.paddr.toNat + _ < _
  omega

/-- Every write is that of a section which is reached. -/
theorem mem_sectionWrites (written : x ∈ sectionWrites file d pos phdrs) :
    ∃ front phdr back, phdrs = front ++ phdr :: back ∧ phdr.filesz ≠ 0 ∧
      x = sectionWrite file d (pos + extent front) phdr := by
  induction phdrs generalizing pos with
  | nil => cases written
  | cons phdr phdrs ih =>
    rw [sectionWrites] at written
    split_ifs at written with empty
    · cases written
    · rcases List.mem_cons.mp written with rfl | later
      · exact ⟨[], phdr, phdrs, rfl, empty, rfl⟩
      · obtain ⟨front, q, back, rfl, octets, rfl⟩ := ih later
        refine ⟨phdr :: front, q, back, rfl, octets, ?_⟩
        rw [extent, Nat.add_assoc]

theorem sectionWrites_fits (sane : ∀ phdr ∈ phdrs, phdr.Sane file) : ∀ x ∈ sectionWrites file d pos phdrs, x.Fits := by
  intro x written
  obtain ⟨front, phdr, back, rfl, octets, rfl⟩ := mem_sectionWrites written
  exact sectionWrite_fits (sane phdr (by simp)) octets d _

theorem sectionWrites_apart (image : Image file phdrs) (pos : Nat) :
    (sectionWrites file d pos phdrs).Pairwise Write.Apart := by
  obtain ⟨sane, apart⟩ := image
  induction phdrs generalizing pos with
  | nil => exact .nil
  | cons phdr phdrs ih =>
    obtain ⟨head, tail⟩ := List.forall_mem_cons.mp sane
    obtain ⟨first, rest⟩ := List.pairwise_cons.mp apart
    rw [sectionWrites]
    split_ifs with empty
    · exact .nil
    · refine List.pairwise_cons.mpr ⟨fun x written => ?_, ih _ tail rest⟩
      obtain ⟨front, q, back, rfl, octets, rfl⟩ := mem_sectionWrites written
      have length := sectionWrite_length file d pos phdr
      have length' := sectionWrite_length file d (pos + (phdr.memsz.toNat + ELFSECTION) + extent front) q
      have away := first q (by simp)
      have sane' := tail q (by simp)
      have fits := head.fits_toNat
      have fits' := sane'.fits_toNat
      have aligned := head.aligned
      have aligned' := sane'.aligned
      have some_ : phdr.filesz.toNat ≠ 0 := fun zero => empty (BitVec.eq_of_toNat_eq zero)
      have some' : q.filesz.toNat ≠ 0 := fun zero => octets (BitVec.eq_of_toNat_eq zero)
      change phdr.paddr.toNat + _ ≤ q.paddr.toNat ∨ q.paddr.toNat + _ ≤ phdr.paddr.toNat
      rw [length, length', Phdr.padded, Phdr.padded]
      unfold Phdr.Apart at away
      omega

/-- What the host may take for the address that it remembers, in terms of the headers. -/
theorem sectionWrites_clear (sane : ∀ phdr ∈ phdrs, phdr.Sane file) (ordered : Ordered phdrs) (pos : Nat) :
    Write.Clear (sectionWrites file d pos phdrs) ↔ Clear phdrs := by
  induction phdrs generalizing pos with
  | nil => exact ⟨fun _ => .nil, fun _ => .nil⟩
  | cons p phdrs ih =>
    obtain ⟨head, tail⟩ := List.forall_mem_cons.mp sane
    obtain ⟨first, rest⟩ := List.pairwise_cons.mp ordered
    rw [sectionWrites]
    split_ifs with empty
    · refine ⟨fun _ => ?_, fun _ => .nil⟩
      refine List.Pairwise.isChain (List.pairwise_of_forall_mem_list fun a member _ _ octets => ?_)
      rcases List.mem_cons.mp member with rfl | member
      · exact absurd empty octets
      · exact absurd (first a member empty) octets
    · have behind := ih tail rest (pos + (p.memsz.toNat + ELFSECTION))
      have length := sectionWrite_length file d pos p
      have fits := Write.next_toNat (sectionWrite_fits head empty d pos)
      rw [Write.Clear] at behind ⊢
      rw [Clear, List.isChain_cons, List.isChain_cons, behind, ← Clear]
      refine and_congr_left fun _ => ?_
      cases phdrs with
      | nil => simp [sectionWrites]
      | cons q phdrs =>
        rw [sectionWrites]
        split_ifs with none_
        · simp [none_]
        · have place : (sectionWrite file d (pos + (p.memsz.toNat + ELFSECTION)) q).start ≠
              (sectionWrite file d pos p).start + BitVec.ofNat 32 (8 * (sectionWrite file d pos p).buf.length) ↔
                q.paddr.toNat ≠ p.paddr.toNat + 2 * p.padded := by
            rw [Ne, ← BitVec.toNat_inj, fits]
            change ¬ q.paddr.toNat = p.paddr.toNat + _ ↔ _
            omega
          simp only [List.head?_cons, Option.mem_some_iff, forall_eq', place, empty, none_, Ne, not_false_eq_true,
            true_imp_iff]

theorem land_sectionWrites (pos : Nat) (mem : Memory) :
    Write.land mem ((sectionWrites file d pos phdrs).map fun x => (wordAddr x.start, x)) =
      loaded file d pos phdrs mem := by
  induction phdrs generalizing pos mem with
  | nil => rfl
  | cons phdr phdrs ih =>
    rw [sectionWrites, loaded]
    split_ifs with empty
    · rfl
    · rw [List.map_cons, Write.land_cons, ih]
      rfl

end

/-! ### The loader -/

/-- Such an image is accepted, and the calls write its sections as packed over the allocated memory. -/
theorem zipload_spec {file : List (BitVec 8)} {phdrs : List Phdr} (image : Image file phdrs) (nonempty : phdrs ≠ [])
    (pointer : Nat) (free : Nat → BitVec 8) :
    ∃ d : Heap, zipload pointer file phdrs free =
        some ((sectionWrites file d ((phdrs.length + 1) * pointer) phdrs).map Write.call) ∧
      (∀ k, k < totalOctets pointer phdrs → d.cell k = 0) ∧
      ∀ k, totalOctets pointer phdrs ≤ k → d.cell k = free k := by
  obtain ⟨r, b, d, reads, packed, zero, junk⟩ :=
    elfread_spec nonempty (fun phdr member => (image.sane phdr member).toWithin) pointer free
  refine ⟨d, ?_, zero, junk⟩
  simp only [zipload, reads, checkSections_spec image.sane packed, writeSections_spec image.sane packed,
    Option.bind_eq_bind, Option.bind_some]

/-- A fresh session is ready for these calls when the CPU has been halted. -/
theorem connect_stands {s : Session Target} (fresh : Call.Fresh s) (undivided : Call.Undivided s connect) :
    ∃ s', Call.runAll s connect = .ok [[s.line.peer.mem (wordAddr R_VERSION)], []] s' ∧ s'.Stands none ∧
      s'.line.peer.mem = Function.update s.line.peer.mem (wordAddr R_ZIPCTRL) (CPU_HALT ||| CPU_RESET) := by
  obtain ⟨whole, later⟩ := undivided
  obtain ⟨-, s₁, reads, settled, mem₁⟩ := Call.run_spec fresh.settled (c := .readio R_VERSION)
    ⟨by decide, by decide, by decide⟩ trivial whole
  obtain ⟨s', writes, stands, mem'⟩ := settled.writeio_stands (a := R_ZIPCTRL) (by decide) (later _ _ reads).1
  refine ⟨s', ?_, stands, by rw [mem', mem₁]; rfl⟩
  simp only [connect, Call.runAll, reads, writes, Outcome.andThen_ok]
  simp [Call.returned, Call.words, Call.addr, Call.inc, Call.count, Session.named]

/-- The loader comes through, and its calls leave the image, whatever was in the allocated memory and in that of the
device; no answer to an address is split by the line. -/
def Loads (pointer : Nat) (file : List (BitVec 8)) (phdrs : List Phdr) : Prop :=
  ∀ free, ∃ calls, zipload pointer file phdrs free = some calls ∧
    ∀ s : Session Target, s.Stands none → Call.Undivided s calls →
      ∃ results s', Call.runAll s calls = .ok results s' ∧ Loaded file phdrs s.line.peer.mem s'.line.peer.mem

/-- A session before its first call, on a line on which nothing is late. -/
def silent (mem : Memory) : Session Target where
  host := Hexbus.Host.init 0 false false
  line := {
    text := []
    owed := false
    peer := { partly := none, addr := 0, inc := false, mem }
    choices := fun _ => false }

theorem silent_stands (mem : Memory) : (silent mem).Stands none :=
  ⟨⟨rfl, .inr rfl, fun _ member => (by cases member)⟩, fun _ addrSet => (by cases addrSet),
    fun _ _ nowhere => (by cases nowhere)⟩

section
variable {file : List (BitVec 8)} {phdrs : List Phdr} {pointer : Nat}

theorem cpuByte_constant (v : BitVec 8) (a : BitVec 32) : cpuByte (fun _ => Bytes.ofBytes fun _ => v) a = v :=
  Bytes.byte_ofBytes _ (by omega)

/-- Where the host would leave an address out, the last word of some section is not written. -/
theorem clear_of_landed (image : Image file phdrs) {d : Heap} {pos : Nat}
    (landed : ∀ mem, Loaded file phdrs mem (Write.land mem (Write.landings none (sectionWrites file d pos phdrs)))) :
    Write.Clear (sectionWrites file d pos phdrs) := by
  by_contra tight
  obtain ⟨x, written, last, place, unwritten⟩ :=
    Write.exists_unwritten (sectionWrites_fits image.sane) (sectionWrites_apart image pos) tight
  obtain ⟨front, phdr, back, split, octets, rfl⟩ := mem_sectionWrites written
  have inside : phdr ∈ phdrs := by simp [split]
  have sane := image.sane phdr inside
  have length := sectionWrite_length file d (pos + extent front) phdr
  have positive := (sectionWrite_fits sane octets d (pos + extent front)).positive
  have aligned := sane.aligned
  rw [Phdr.padded] at length
  change last.toNat + 1 = phdr.paddr.toNat / 4 + _ at place
  have bound : phdr.padded - 4 < phdr.filesz.toNat := by
    rw [Phdr.padded]
    omega
  have here : wordAddr (phdr.paddr + BitVec.ofNat 32 (phdr.padded - 4)) = last := by
    refine BitVec.eq_of_toNat_eq ?_
    rw [wordAddr_toNat, toNat_place sane (by rw [Phdr.padded]; omega), Phdr.padded]
    omega
  -- an old byte that is not the one of the file
  obtain ⟨v, other⟩ : ∃ v : BitVec 8, v ≠ file.getD (phdr.offset.toNat + (phdr.padded - 4)) 0 :=
    ⟨file.getD (phdr.offset.toNat + (phdr.padded - 4)) 0 + 1, by simp⟩
  have found := (landed fun _ => Bytes.ofBytes fun _ => v).data phdr inside (phdr.padded - 4) bound
  rw [cpuByte, here, unwritten] at found
  exact other ((Bytes.byte_ofBytes _ (by omega)).symm.trans found)

theorem Loads.nonempty (loads : Loads pointer file phdrs) : phdrs ≠ [] := by
  rintro rfl
  obtain ⟨calls, refused, -⟩ := loads fun _ => 0
  simp [zipload, elfread] at refused

/-- What a loader that loads makes of the memory. -/
theorem Loads.loaded (loads : Loads pointer file phdrs) (image : Image file phdrs) (free : Nat → BitVec 8) :
    ∃ d : Heap, Write.Clear (sectionWrites file d ((phdrs.length + 1) * pointer) phdrs) ∧
      (∀ k, totalOctets pointer phdrs ≤ k → d.cell k = free k) ∧
      ∀ mem, Loaded file phdrs mem (loaded file d ((phdrs.length + 1) * pointer) phdrs mem) := by
  obtain ⟨d, asks, -, junk⟩ := zipload_spec image loads.nonempty pointer free
  obtain ⟨calls, asks', runs⟩ := loads free
  obtain rfl := Option.some.inj (asks.symm.trans asks')
  have fits : ∀ x ∈ sectionWrites file d ((phdrs.length + 1) * pointer) phdrs, x.Fits := sectionWrites_fits image.sane
  have landed (mem : Memory) : Loaded file phdrs mem
      (Write.land mem (Write.landings none (sectionWrites file d ((phdrs.length + 1) * pointer) phdrs))) := by
    have undivided := Session.undivided_of_prompt (s := silent mem)
      (sectionWrites file d ((phdrs.length + 1) * pointer) phdrs) ⟨fun _ member => (by cases member), fun _ => rfl⟩
    obtain ⟨results, s', ran, written⟩ := runs (silent mem) (silent_stands mem) undivided
    obtain ⟨results', s'', ran', memory⟩ := (silent_stands mem).runs fits undivided
    rw [ran] at ran'
    obtain ⟨-, rfl⟩ := Outcome.ok.inj ran'
    rwa [memory] at written
  have clear := clear_of_landed image landed
  refine ⟨d, clear, junk, fun mem => ?_⟩
  have whole := landed mem
  rwa [Write.landings_own fits clear, land_sectionWrites] at whole

/-- A section behind one without octets is not written, so that the memory shows through. -/
theorem Loads.ordered (loads : Loads pointer file phdrs) (image : Image file phdrs) : Ordered phdrs := by
  by_contra disordered
  obtain ⟨front, p, back, q, rfl, empty, member, octets⟩ := not_ordered disordered
  have inside : q ∈ front ++ p :: back := List.mem_append_right _ (List.mem_cons_of_mem _ member)
  have sane := image.sane q inside
  have some_ : 0 < q.filesz.toNat := Nat.pos_of_ne_zero fun zero => octets (BitVec.eq_of_toNat_eq zero)
  have first : 0 < q.padded := by rw [Phdr.padded]; omega
  have place := toNat_place sane first
  have covers : q.covers (q.paddr + BitVec.ofNat 32 0) := by
    rw [Phdr.covers, place]
    omega
  have untouched (m : Phdr) (earlier : m ∈ front) : ¬m.covers (q.paddr + BitVec.ofNat 32 0) := fun both =>
    ((List.pairwise_append.mp image.apart).2.2 m earlier q (List.mem_cons_of_mem _ member)).not_both
      (image.sane m (List.mem_append_left _ earlier)) sane both covers
  obtain ⟨v, other⟩ : ∃ v : BitVec 8, v ≠ file.getD (q.offset.toNat + 0) 0 :=
    ⟨file.getD (q.offset.toNat + 0) 0 + 1, by simp⟩
  obtain ⟨d, -, -, written⟩ := loads.loaded image fun _ => 0
  have found := (written fun _ => Bytes.ofBytes fun _ => v).data q inside 0 some_
  rw [loaded_stops empty, loaded_outside (fun m earlier => image.sane m (List.mem_append_left _ earlier)) untouched,
    cpuByte_constant] at found
  exact other found

/-- Without room behind the last section its padding comes from memory that nothing has cleared. -/
theorem Loads.roomy (loads : Loads pointer file phdrs) (image : Image file phdrs) : Roomy pointer phdrs := by
  have ordered := loads.ordered image
  intro phdr last
  obtain ⟨front, rfl⟩ : ∃ front, phdrs = front ++ [phdr] := List.getLast?_eq_some_iff.mp last
  by_contra short
  obtain ⟨odd, short⟩ := not_or.mp short
  have behind : phdr.filesz.toNat ≤ phdr.padded - 1 ∧ phdr.padded - 1 < phdr.padded := by
    rw [Phdr.padded]
    omega
  have here : phdr.filesz ≠ 0 := fun empty => odd (by rw [empty]; rfl)
  have before (p : Phdr) (earlier : p ∈ front) : p.filesz ≠ 0 := fun empty =>
    here ((List.pairwise_append.mp ordered).2.2 p earlier phdr (List.mem_singleton_self phdr) empty)
  obtain ⟨d, -, junk, written⟩ := loads.loaded image fun _ => 1
  have zero := (written fun _ => 0).padding phdr (List.mem_append_right _ (List.mem_singleton_self phdr)) _ behind.1
    behind.2
  rw [loaded_octet image before behind.2, if_neg (by omega), junk _ ?_] at zero
  · exact absurd zero (by decide)
  · rw [totalOctets_eq, extent_append, extent, extent, Nat.succ_mul, ELFSECTION]
    omega

theorem Loads.clear (loads : Loads pointer file phdrs) (image : Image file phdrs) : Clear phdrs := by
  obtain ⟨d, clear, -, -⟩ := loads.loaded image fun _ => 0
  exact (sectionWrites_clear image.sane (loads.ordered image) _).mp clear

/-- Where the order, the distances and the room are right, the image is loaded. -/
theorem Image.loads (image : Image file phdrs) (nonempty : phdrs ≠ []) (small : pointer ≤ 8) (ordered : Ordered phdrs)
    (clear : Clear phdrs) (roomy : Roomy pointer phdrs) : Loads pointer file phdrs := by
  intro free
  obtain ⟨d, asks, zero, -⟩ := zipload_spec image nonempty pointer free
  refine ⟨_, asks, fun s stands undivided => ?_⟩
  have fits : ∀ x ∈ sectionWrites file d ((phdrs.length + 1) * pointer) phdrs, x.Fits := sectionWrites_fits image.sane
  obtain ⟨results, s', ran, memory⟩ := stands.runs fits undivided
  rw [Write.landings_own fits ((sectionWrites_clear image.sane ordered _).mpr clear), land_sectionWrites] at memory
  refine ⟨results, s', ran, ?_⟩
  rw [memory]
  have octet (phdr : Phdr) (member : phdr ∈ phdrs) (k : Nat) (bound : k < phdr.padded) :
      ∃ front back, phdrs = front ++ phdr :: back ∧
        cpuByte (IcoZip.Loader.loaded file d ((phdrs.length + 1) * pointer) phdrs s.line.peer.mem)
            (phdr.paddr + BitVec.ofNat 32 k) =
          if k < phdr.filesz.toNat then file.getD (phdr.offset.toNat + k) 0
          else d.cell ((phdrs.length + 1) * pointer + extent front + 8 + k) := by
    obtain ⟨front, back, split⟩ := List.append_of_mem member
    refine ⟨front, back, split, ?_⟩
    have apart := (List.pairwise_append.mp (split ▸ ordered)).2.2
    have here : phdr.filesz ≠ 0 := by
      intro empty
      rw [Phdr.padded, empty] at bound
      exact absurd bound (Nat.not_lt_zero k)
    have before (p : Phdr) (earlier : p ∈ front) : p.filesz ≠ 0 :=
      fun empty => here (apart p earlier phdr List.mem_cons_self empty)
    have place := loaded_octet (d := d) (split ▸ image) before bound ((phdrs.length + 1) * pointer) s.line.peer.mem
    rwa [← split] at place
  constructor
  case data =>
    intro phdr member k bound
    obtain ⟨front, back, -, byte⟩ := octet phdr member k (by rw [Phdr.padded]; omega)
    rw [byte, if_pos bound]
  case padding =>
    intro phdr member k behind bound
    obtain ⟨front, back, split, byte⟩ := octet phdr member k bound
    rw [byte, if_neg (by omega)]
    -- the octet comes from the part of the block that `memset` has cleared
    refine zero _ ?_
    have total := totalOctets_eq pointer phdrs
    have length : extent phdrs = extent front + (phdr.memsz.toNat + ELFSECTION + extent back) := by
      rw [split, extent_append, extent]
    have room := (image.sane phdr member).padded_le
    rw [Nat.succ_mul, total, length, ELFSECTION]
    cases back with
    | nil =>
      have last : phdrs.getLast? = some phdr := by rw [split, List.getLast?_append, List.getLast?_singleton]; rfl
      rcases roomy phdr last with whole | room'
      · rw [Phdr.padded] at bound
        omega
      · rw [extent]
        omega
    | cons q back =>
      rw [extent, ELFSECTION]
      omega
  case other => exact fun a outside => loaded_outside image.sane outside _ s.line.peer.mem

/-- The loader writes the whole image exactly if there is a section, none stands behind one without octets, none starts
two lengths behind the start of the one before it, and the last one has room. -/
theorem loads_iff (host : pointer = 4 ∨ pointer = 8) (image : Image file phdrs) :
    Loads pointer file phdrs ↔ phdrs ≠ [] ∧ Ordered phdrs ∧ Clear phdrs ∧ Roomy pointer phdrs := by
  constructor
  · exact fun loads => ⟨loads.nonempty, loads.ordered image, loads.clear image, loads.roomy image⟩
  · rintro ⟨nonempty, ordered, clear, roomy⟩
    exact image.loads nonempty (by omega) ordered clear roomy

end

/-- Code of five octets and data of three, both with room behind them: a fresh session halts the CPU and loads them. -/
theorem loads_two :
    ∃ calls, zipload 8 [1, 2, 3, 4, 5, 6, 7, 8] [⟨0, 0x01400000, 5, 16⟩, ⟨5, 0x02000000, 3, 8⟩] (fun _ => 0xcc) =
        some calls ∧
      ∀ s : Session Target, Call.Fresh s → Call.Undivided s connect →
        ∃ version s₁, Call.runAll s connect = .ok version s₁ ∧ (Call.Undivided s₁ calls →
          ∃ results s', Call.runAll s₁ calls = .ok results s' ∧
            Loaded [1, 2, 3, 4, 5, 6, 7, 8] [⟨0, 0x01400000, 5, 16⟩, ⟨5, 0x02000000, 3, 8⟩] s₁.line.peer.mem
              s'.line.peer.mem) := by
  have image : Image [1, 2, 3, 4, 5, 6, 7, 8] [⟨0, 0x01400000, 5, 16⟩, ⟨5, 0x02000000, 3, 8⟩] :=
    ⟨by decide, by decide⟩
  have roomy : Roomy 8 [⟨0, 0x01400000, 5, 16⟩, ⟨5, 0x02000000, 3, 8⟩] := by
    intro phdr last
    obtain rfl := Option.some.inj last
    exact .inr (by decide)
  obtain ⟨calls, asks, loads⟩ :=
    (loads_iff (.inr rfl) image).mpr ⟨by decide, by simp [Ordered], by simp [Clear, Phdr.padded], roomy⟩ fun _ => 0xcc
  refine ⟨calls, asks, fun s fresh undivided => ?_⟩
  obtain ⟨s₁, connects, stands, -⟩ := connect_stands fresh undivided
  exact ⟨_, s₁, connects, loads s₁ stands⟩

/-- A bss segment between code and data, so that the data are not written; data eight octets behind the start of four of
code, so that they land right behind these; and five octets without room for the padding. -/
theorem bss_truncates :
    (Image [1, 2, 3, 4, 5, 6, 7, 8] [⟨0, 0x01400000, 4, 4⟩, ⟨4, 0x01400010, 0, 16⟩, ⟨4, 0x02000000, 4, 4⟩] ∧
      ¬ Loads 8 [1, 2, 3, 4, 5, 6, 7, 8] [⟨0, 0x01400000, 4, 4⟩, ⟨4, 0x01400010, 0, 16⟩, ⟨4, 0x02000000, 4, 4⟩]) ∧
    (Image [1, 2, 3, 4, 5, 6, 7, 8] [⟨0, 0x01400000, 4, 4⟩, ⟨4, 0x01400008, 4, 4⟩] ∧
      ¬ Loads 8 [1, 2, 3, 4, 5, 6, 7, 8] [⟨0, 0x01400000, 4, 4⟩, ⟨4, 0x01400008, 4, 4⟩]) ∧
    (Image [1, 2, 3, 4, 5, 6, 7, 8] [⟨0, 0x01400000, 5, 5⟩] ∧
      ¬ Loads 8 [1, 2, 3, 4, 5, 6, 7, 8] [⟨0, 0x01400000, 5, 5⟩]) := by
  have bss : Image [1, 2, 3, 4, 5, 6, 7, 8] [⟨0, 0x01400000, 4, 4⟩, ⟨4, 0x01400010, 0, 16⟩, ⟨4, 0x02000000, 4, 4⟩] :=
    ⟨by decide, by decide⟩
  have near : Image [1, 2, 3, 4, 5, 6, 7, 8] [⟨0, 0x01400000, 4, 4⟩, ⟨4, 0x01400008, 4, 4⟩] := ⟨by decide, by decide⟩
  have odd : Image [1, 2, 3, 4, 5, 6, 7, 8] [⟨0, 0x01400000, 5, 5⟩] := ⟨by decide, by decide⟩
  refine ⟨⟨bss, fun loads => ?_⟩, ⟨near, fun loads => ?_⟩, odd, fun loads => ?_⟩
  · have ordered := loads.ordered bss
    simp [Ordered] at ordered
  · have clear := loads.clear near
    simp [Clear, Phdr.padded] at clear
  · have roomy := loads.roomy odd ⟨0, 0x01400000, 5, 5⟩ rfl
    simp [Phdr.padded] at roomy

end IcoZip.Loader
