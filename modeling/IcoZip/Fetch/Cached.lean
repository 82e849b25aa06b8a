import IcoZip.Fetch.LineFill

/-! `pfcache` hands over what the memory holds.

The memory changes with a clear only, which empties the cache, and the CPU gives a new
address behind it.
-/

set_option autoImplicit false

namespace IcoZip.Fetch

namespace Pfcache

variable {tg lg ls d : Nat}

/-! ### What holds of the registers -/

section
variable (mem : Memory (tg + lg + ls) d) (failed waiting : List (BitVec (tg + lg + ls))) (s : Pfcache tg lg ls d)

/-- It is not known yet whether the instruction can be had. -/
structure Undecided : Prop where
  illegal : s.illegal = false
  rV : s.rV = false
  unrefused : s.illegalValid = true → s.illegalCache ≠ s.lasttag

/-- A line has been loaded, and is about to be marked. -/
structure Masking : Prop where
  cyc : s.cyc = false
  needload : s.needload = false
  delay : s.delay ≠ 0#2
  illegal : s.illegal = false
  complete : ∀ a, index a = s.saddr → s.tags s.saddr = tag a → mem a = some (s.cache (cell a))

/-- Loading a line has failed; nothing of it is in the cache. -/
structure Refused : Prop where
  unmasked : s.validMask (s.illegalCache.extractLsb' 0 lg) = false
  elsewhere : s.svmask = true → s.saddr ≠ s.illegalCache.extractLsb' 0 lg
  known : ∃ a ∈ failed, line a = s.illegalCache

/-- The CPU is told so. -/
structure Failed : Prop where
  rV : s.rV = false
  isrc : s.isrc = false
  rLastpc : s.rLastpc = s.lastpc
  absent : s.validMask (index (word s.lastpc)) = true → s.tags (index (word s.lastpc)) ≠ tag (word s.lastpc)
  known : ∃ a ∈ failed, line a = s.lasttag
  delay : s.delay = 0#2 → s.illegalValid = true ∧ s.illegalCache = s.lasttag

structure Sound : Prop where
  agrees : ∀ a, s.validMask (index a) = true → s.tags (index a) = tag a → mem a = some (s.cache (cell a))
  tagval : s.validMask (index (word s.lastpc)) = true → s.tagval = s.tags (index (word s.lastpc))
  idle : s.cyc = false → s.stb = false
  filling : s.cyc = true → ∃ r n, Fill mem waiting r n s
  masks : s.svmask = true → Masking mem s
  refuses : s.illegalValid = true → Refused failed s
  shown : s.rV = true → s.pins.pc = s.lastpc ∧ mem (word s.lastpc) = some s.pins.insn
  allowed : s.rV = true → s.illegalValid = true → s.illegalCache ≠ s.lasttag
  wanted : s.cyc = true → s.busAbort = false → line s.addr = s.lasttag ∧ Undecided s
  needs : s.needload = true → Undecided s ∧ s.vFromLast = false
  fails : s.illegal = true → Failed failed s

end

section Clock
variable {mem : Memory (tg + lg + ls) d} {failed waiting : List (BitVec (tg + lg + ls))} {s : Pfcache tg lg ls d}
  {c : Cpu (tg + lg + ls)} {b : Bus d}

/-- A reset and a clear leave nothing of what was. -/
theorem sound_cleared (clears : invalidates c = true) : Sound mem failed waiting (s.clock c b) := by
  have either : (c.reset || c.clearCache) = true := clears
  have rV : (s.clock c b).rV = false := by simp [rV, clock, clears]
  have valid : (s.clock c b).validMask = fun _ => false := by simp [clock, either]
  have cyc : (s.clock c b).cyc = false := by simp [clock, either]
  have svmask : (s.clock c b).svmask = false := by simp [clock, either]
  have illegalValid : (s.clock c b).illegalValid = false := by simp [clock, either]
  have illegal : (s.clock c b).illegal = false := by simp [clock, either]
  refine ⟨?_, ?_, ?_, ?_, ?_, ?_, ?_, ?_, ?_, ?_, ?_⟩
  · simp [valid]
  · simp [valid]
  · simp [clock, either]
  · simp [cyc]
  · simp [svmask]
  · simp [illegalValid]
  · simp [rV]
  · simp [rV]
  · simp [cyc]
  · exact fun _ => ⟨⟨illegal, rV, by simp [illegalValid]⟩, by simp [vFromLast, valid]⟩
  · simp [illegal]

/-- Where the tag of the next address was read. -/
theorem tagval_clock : (s.clock c b).tagval = s.tags (index (word (s.clock c b).lastpc)) := by
  cases advance : s.advance c <;> simp [tagval, clock, advance]

theorem lastpc_waits (waits : s.advance c = false) : (s.clock c b).lastpc = s.lastpc := by simp [clock, waits]

theorem lasttag_waits (waits : s.advance c = false) : (s.clock c b).lasttag = s.lasttag := by
  rw [lasttag, lastpc_waits waits, lasttag]

theorem Undecided.waits (undecided : Undecided s) (newPc : c.newPc = false) : s.advance c = false := by
  rw [advance, newPc, undecided.rV]
  rfl

section Quiet
variable (quiet : invalidates c = false)
include quiet

/-- A line is marked when it has been loaded, and not otherwise. -/
theorem mask_clock {k : BitVec lg} (valid : (s.clock c b).validMask k = true) :
    s.validMask k = true ∨ s.svmask = true ∧ s.saddr = k := by
  have either : (c.reset || c.clearCache) = false := quiet
  have loaded : (if s.svmask then Function.update s.validMask s.saddr (!s.busAbort) else s.validMask) k = true := by
    simp only [clock, either] at valid
    cases begins : !s.cyc && s.needload with
    | false =>
      rw [begins] at valid
      exact valid
    | true =>
      rw [begins] at valid
      by_cases here : k = index (word s.lastpc)
      · simp [here] at valid
      · simpa [Function.update_of_ne here] using valid
  cases svmask : s.svmask with
  | false =>
    rw [svmask] at loaded
    exact .inl loaded
  | true =>
    by_cases here : s.saddr = k
    · exact .inr ⟨rfl, here⟩
    · rw [svmask, if_pos rfl, Function.update_of_ne (Ne.symm here)] at loaded
      exact .inl loaded

/-- The flag of a clock without a new address or an instruction taken is that of the latest address. -/
theorem rV_waits (waits : s.advance c = false) : (s.clock c b).rV = s.vFromLast := by
  have either : (c.reset || c.clearCache) = false := quiet
  simp [rV, clock, either, waits, invalidates]

/-- An instruction is shown that is in the cache under its tag. -/
theorem Sound.found (sound : Sound mem failed waiting s) (valid : (s.clock c b).rV = true) :
    s.validMask (index (word (s.clock c b).lastpc)) = true ∧
      s.tags (index (word (s.clock c b).lastpc)) = tag (word (s.clock c b).lastpc) ∧
      (s.clock c b).pins.pc = (s.clock c b).lastpc ∧
      (s.clock c b).pins.insn = s.cache (cell (word (s.clock c b).lastpc)) := by
  have either : (c.reset || c.clearCache) = false := quiet
  cases advance : s.advance c with
  | true =>
    have lastpc : (s.clock c b).lastpc = c.pc := by simp [clock, advance]
    have from_ : s.vFromPc c = true := by
      have flag : (s.clock c b).rV = (s.vFromPc c && !s.illegal) := by simp [rV, clock, either, advance, invalidates]
      rw [flag] at valid
      exact (Bool.and_eq_true _ _ ▸ valid).1
    simp only [vFromPc, Bool.and_eq_true, beq_iff_eq] at from_
    obtain ⟨⟨same, tags⟩, mask⟩ := from_
    have here : index (word c.pc) = index (word s.lastpc) := index_congr same
    rw [lastpc]
    refine ⟨mask, ?_, by simp [pins, clock, advance], by simp [pins, clock, advance]⟩
    rw [← tags, here]
    exact (sound.tagval (by rwa [← here])).symm
  | false =>
    rw [rV_waits quiet advance] at valid
    simp only [vFromLast, Bool.and_eq_true, beq_iff_eq] at valid
    obtain ⟨tags, mask⟩ := valid
    rw [lastpc_waits advance]
    refine ⟨mask, ?_, by simp [pins, clock, advance], by simp [pins, clock, advance]⟩
    rw [← tags]
    exact (sound.tagval mask).symm

/-- Loading a line has failed now, or before. -/
theorem illegalValid_clock (valid : (s.clock c b).illegalValid = true) :
    s.cyc = true ∧ b.err = true ∧ (s.clock c b).illegalCache = line s.addr ∨
      s.illegalValid = true ∧ (s.clock c b).illegalCache = s.illegalCache ∧
        (s.cyc && b.ack && s.lastAck && !s.busAbort &&
          s.wraddr.extractLsb' ls lg == s.illegalCache.extractLsb' 0 lg) = false := by
  have either : (c.reset || c.clearCache) = false := quiet
  cases fails : s.cyc && b.err with
  | true =>
    obtain ⟨cyc, err⟩ := Bool.and_eq_true _ _ ▸ fails
    exact .inl ⟨cyc, err, by simp [clock, either, cyc, err]⟩
  | false =>
    simp only [clock, either, fails] at valid ⊢
    cases loaded : s.cyc && b.ack && s.lastAck && !s.busAbort &&
        s.wraddr.extractLsb' ls lg == s.illegalCache.extractLsb' 0 lg with
    | true => simp [loaded] at valid
    | false =>
      rw [loaded] at valid
      exact .inr ⟨valid, rfl, rfl⟩

/-- Nothing is known later of an instruction that is not in the cache. -/
theorem undecided_clock (illegal : s.illegal = false) (unrefused : s.illegalValid = true → s.illegalCache ≠ s.lasttag)
    (waits : s.advance c = false) (absent : s.vFromLast = false) (noErr : (s.cyc && b.err) = false) :
    Undecided (s.clock c b) := by
  have either : (c.reset || c.clearCache) = false := quiet
  have newPc : c.newPc = false := (Bool.or_eq_false_iff.mp waits).1
  refine ⟨?_, ?_, fun refused => ?_⟩
  · have match_ : (s.illegalValid && s.illegalCache == s.lasttag) = false := by
      cases refused : s.illegalValid with
      | false => rfl
      | true => exact beq_false_of_ne (unrefused refused)
    simp only [clock, either, newPc, illegal, Bool.or_false, Bool.false_eq_true, if_false, Bool.not_false, if_true]
    rw [Bool.and_right_comm, Bool.and_assoc (!b.err), match_, Bool.and_false, Bool.false_and]
  · rw [rV_waits quiet waits, absent]
  · rw [lasttag_waits waits]
    rcases illegalValid_clock quiet refused with ⟨cyc, err, -⟩ | ⟨before, cache, -⟩
    · rw [cyc, err] at noErr
      contradiction
    · rw [cache]
      exact unrefused before

section Sound
variable (sound : Sound mem failed waiting s)
include sound

omit quiet in
/-- While a line is being loaded it is not marked. -/
theorem Sound.unmasked (cyc : s.cyc = true) : s.validMask (index s.addr) = false ∧ s.svmask = false := by
  obtain ⟨r, n, fill⟩ := sound.filling cyc
  refine ⟨fill.unmasked, ?_⟩
  cases svmask : s.svmask with
  | false => rfl
  | true =>
    rw [(sound.masks svmask).cyc] at cyc
    contradiction

/-- What is marked does not change. -/
theorem Sound.marked_clock {k : BitVec lg} (valid : (s.clock c b).validMask k = true) :
    (s.clock c b).tags k = s.tags k ∧
      ∀ a : BitVec (tg + lg + ls), index a = k → (s.clock c b).cache (cell a) = s.cache (cell a) := by
  cases cyc : s.cyc with
  | false => exact ⟨by simp [clock, cyc], fun _ _ => by simp [clock, cyc]⟩
  | true =>
    obtain ⟨r, n, fill⟩ := sound.filling cyc
    obtain ⟨unmasked, svmask⟩ := sound.unmasked cyc
    have other : k ≠ index s.addr := by
      rintro rfl
      rcases mask_clock quiet valid with marked | ⟨marks, -⟩
      · rw [unmasked] at marked
        contradiction
      · rw [svmask] at marks
        contradiction
    refine ⟨?_, fun a place => fill.cache_clock cyc (.inl (place ▸ other))⟩
    cases ack : b.ack
    · simp [clock, cyc, ack]
    · simp [clock, cyc, ack, Function.update_of_ne other]

theorem Sound.agrees_clock (a : BitVec (tg + lg + ls)) (valid : (s.clock c b).validMask (index a) = true)
    (tags : (s.clock c b).tags (index a) = tag a) : mem a = some ((s.clock c b).cache (cell a)) := by
  obtain ⟨same, content⟩ := sound.marked_clock quiet valid
  rw [content a rfl]
  rw [same] at tags
  rcases mask_clock quiet valid with marked | ⟨marks, place⟩
  · exact sound.agrees a marked tags
  · exact (sound.masks marks).complete a place.symm (place ▸ tags)

theorem Sound.tagval_clock (valid : (s.clock c b).validMask (index (word (s.clock c b).lastpc)) = true) :
    (s.clock c b).tagval = (s.clock c b).tags (index (word (s.clock c b).lastpc)) := by
  rw [Pfcache.tagval_clock, (sound.marked_clock quiet valid).1]

theorem Sound.shown_clock (valid : (s.clock c b).rV = true) :
    (s.clock c b).pins.pc = (s.clock c b).lastpc ∧ mem (word (s.clock c b).lastpc) = some (s.clock c b).pins.insn := by
  obtain ⟨mask, tags, pc, insn⟩ := sound.found quiet valid
  rw [insn]
  exact ⟨pc, sound.agrees _ mask tags⟩

theorem Sound.allowed_clock (valid : (s.clock c b).rV = true) (refused : (s.clock c b).illegalValid = true) :
    (s.clock c b).illegalCache ≠ (s.clock c b).lasttag := by
  obtain ⟨mask, -, -, -⟩ := sound.found quiet valid
  intro same
  have place : index (word (s.clock c b).lastpc) = (s.clock c b).illegalCache.extractLsb' 0 lg := by
    rw [same]
    exact index_eq _
  rw [place] at mask
  rcases illegalValid_clock quiet refused with ⟨cyc, -, cache⟩ | ⟨before, cache, -⟩
  · rw [cache, ← index_eq, (sound.unmasked cyc).1] at mask
    contradiction
  · rw [cache, (sound.refuses before).unmasked] at mask
    contradiction

/-- What the registers say of the line that is being loaded, when it stays the one that the CPU waits for. -/
theorem Sound.wanted_clock (some_ : 0 < ls) (cyc' : (s.clock c b).cyc = true) (goes : (s.clock c b).busAbort = false) :
    line (s.clock c b).addr = (s.clock c b).lasttag ∧ Undecided (s.clock c b) := by
  have either : (c.reset || c.clearCache) = false := quiet
  obtain ⟨reset, clear⟩ := Bool.or_eq_false_iff.mp either
  cases cyc : s.cyc with
  | false =>
    have begins : s.needload = true ∧ c.newPc = false := by simpa [clock, either, cyc] using cyc'
    obtain ⟨undecided, absent⟩ := sound.needs begins.1
    have waits := undecided.waits begins.2
    have later := @undecided_clock _ _ _ _ s c b quiet undecided.illegal undecided.unrefused waits absent
      (by rw [cyc]; rfl)
    obtain ⟨-, line_, -⟩ := @clock_begins _ _ _ _ mem s c b cyc (sound.idle cyc) begins.1 reset clear begins.2 some_
    refine ⟨?_, later⟩
    rw [line_, lasttag_waits waits]
  | true =>
    -- an error would have ended the cycle, and a new address would have set `bus_abort`
    have noErr : b.err = false := by
      cases err : b.err with
      | false => rfl
      | true => simp [clock, either, cyc, err] at cyc'
    have kept : c.newPc = false ∧ s.busAbort = false := by simpa [clock, cyc, clear] using goes
    obtain ⟨r, n, fill⟩ := sound.filling cyc
    obtain ⟨wanted, undecided⟩ := sound.wanted cyc kept.2
    have place : index (word s.lastpc) = index s.addr := index_congr wanted.symm
    have absent : s.vFromLast = false := by rw [vFromLast, place, fill.unmasked, Bool.and_false]
    have waits := undecided.waits kept.1
    have later := @undecided_clock _ _ _ _ s c b quiet undecided.illegal undecided.unrefused waits absent
      (by rw [noErr, Bool.and_false])
    refine ⟨?_, later⟩
    rw [(fill.line_clock some_ cyc reset clear noErr).1, wanted, lasttag_waits waits]

/-- A line is loaded that is needed. -/
theorem Sound.needs_clock (needload : (s.clock c b).needload = true) :
    Undecided (s.clock c b) ∧ (s.clock c b).vFromLast = false := by
  have either : (c.reset || c.clearCache) = false := quiet
  have clear := (Bool.or_eq_false_iff.mp either).2
  obtain ⟨cyc, free, delay, absent, unrefused⟩ : s.cyc = false ∧ (s.advance c && !s.illegal) = false ∧
      s.delay = 0#2 ∧ s.vFromLast = false ∧ (s.illegalValid = true → s.illegalCache ≠ s.lasttag) := by
    simp only [clock, clear, Bool.false_or] at needload
    split_ifs at needload with cyc free
    simp only [Bool.and_eq_true, Bool.or_eq_true, Bool.not_eq_true', beq_iff_eq, bne_iff_ne] at needload
    refine ⟨by simpa using cyc, by simpa using free, needload.1.1, needload.1.2, fun refused => ?_⟩
    rw [refused] at needload
    exact fun same => (needload.2.resolve_left (by decide)) same.symm
  -- behind an error the timer runs out only when the line has been refused
  have illegal : s.illegal = false := by
    cases illegal : s.illegal with
    | false => rfl
    | true =>
      obtain ⟨refused, same⟩ := (sound.fails illegal).delay delay
      exact absurd same (unrefused refused)
  rw [illegal, Bool.not_false, Bool.and_true] at free
  refine ⟨undecided_clock quiet illegal unrefused free absent (by rw [cyc]; rfl), ?_⟩
  cases mask : (s.clock c b).validMask (index (word s.lastpc)) with
  | false => rw [vFromLast, lastpc_waits free, mask, Bool.and_false]
  | true =>
    rw [vFromLast, Pfcache.tagval_clock, lastpc_waits free, mask, Bool.and_true]
    rcases mask_clock quiet mask with marked | ⟨marks, -⟩
    · rw [vFromLast, marked, Bool.and_true] at absent
      rwa [← sound.tagval marked]
    · exact absurd delay (sound.masks marks).delay

/-- A line that has been loaded for the CPU is marked. -/
theorem Sound.masks_clock {r n : Nat} (fill : Fill mem waiting r n s) (some_ : 0 < ls) (cyc : s.cyc = true)
    (noErr : b.err = false) (accepted : n < asked s b.stall r) (word_ : mem (nth (line s.addr) n) = some b.data)
    (marks : (s.clock c b).svmask = true) : Masking mem (s.clock c b) := by
  have either : (c.reset || c.clearCache) = false := quiet
  obtain ⟨ack, isLast, goes⟩ : b.ack = true ∧ s.lastAck = true ∧ s.busAbort = false := by
    simpa [clock, either, cyc, and_assoc] using marks
  have last : n + 1 = 2 ^ ls := of_decide_eq_true (fill.lastAck.symm.trans isLast)
  obtain ⟨wanted, undecided⟩ := sound.wanted cyc goes
  obtain ⟨finished, -, saddr, tags, content⟩ :=
    @Fill.clock_last _ _ _ _ _ _ _ c b _ _ fill some_ cyc ack noErr last accepted word_
  have absent : s.vFromLast = false := by rw [vFromLast, index_congr wanted.symm, fill.unmasked, Bool.and_false]
  refine ⟨finished, by simp [clock, cyc], ?_, ?_, fun a place same => ?_⟩
  · cases newPc : s.advance c <;> simp [clock, either, newPc, undecided.rV, undecided.illegal, cyc]
  · cases newPc : c.newPc with
    | true => simp [clock, newPc]
    | false =>
      exact (undecided_clock quiet undecided.illegal undecided.unrefused (undecided.waits newPc) absent
        (by rw [noErr, Bool.and_false])).illegal
  · rw [saddr] at place same
    exact content a (line_inj (same.symm.trans tags) place)

/-- A line that could not be loaded is not marked. -/
theorem Sound.refuses_clock {failed' : List (BitVec (tg + lg + ls))} (one : (b.ack && b.err) = false)
    (errs : s.cyc = true → b.err = true → ∃ a ∈ failed', line a = line s.addr) (more : ∀ a ∈ failed, a ∈ failed')
    (refused : (s.clock c b).illegalValid = true) : Refused failed' (s.clock c b) := by
  have either : (c.reset || c.clearCache) = false := quiet
  rcases illegalValid_clock quiet refused with ⟨cyc, err, cache⟩ | ⟨before, cache, other⟩
  · obtain ⟨unmasked, svmask⟩ := sound.unmasked cyc
    have noAck : b.ack = false := by rwa [err, Bool.and_true] at one
    refine ⟨?_, ?_, ?_⟩
    · rw [cache, ← index_eq, Bool.eq_false_iff]
      intro mask
      rcases mask_clock quiet mask with marked | ⟨marks, -⟩
      · exact absurd (unmasked.symm.trans marked) (by decide)
      · exact absurd (svmask.symm.trans marks) (by decide)
    · simp [clock, noAck]
    · rw [cache]
      exact errs cyc err
  · obtain ⟨unmasked, elsewhere, a, member, known⟩ := sound.refuses before
    refine ⟨?_, fun marks => ?_, a, more a member, by rw [cache, known]⟩
    · rw [cache, Bool.eq_false_iff]
      intro mask
      rcases mask_clock quiet mask with marked | ⟨marks, place⟩
      · exact absurd (unmasked.symm.trans marked) (by decide)
      · exact elsewhere marks place
    · obtain ⟨cyc, ack, isLast, goes⟩ : s.cyc = true ∧ b.ack = true ∧ s.lastAck = true ∧ s.busAbort = false := by
        simpa [clock, either, and_assoc] using marks
      have saddr : (s.clock c b).saddr = s.wraddr.extractLsb' ls lg := by simp [clock, cyc, ack]
      rw [saddr, cache]
      simpa [cyc, ack, isLast, goes] using other

/-- An instruction whose line could not be loaded stays illegal. -/
theorem Sound.fails_clock {failed' : List (BitVec (tg + lg + ls))} (more : ∀ a ∈ failed, a ∈ failed')
    (fails : (s.clock c b).illegal = true) : Failed failed' (s.clock c b) := by
  have either : (c.reset || c.clearCache) = false := quiet
  have newPc : c.newPc = false := by
    cases newPc : c.newPc with
    | false => rfl
    | true => simp [clock, newPc] at fails
  -- as long as it is illegal the CPU gets nothing else, so that the address stays
  have begins (legal : s.illegal = false) : b.err = false ∧ s.illegalValid = true ∧ s.illegalCache = s.lasttag := by
    simp only [clock, either, newPc, legal, Bool.or_false, Bool.false_eq_true, if_false, Bool.not_false, if_true,
      Bool.and_eq_true, Bool.not_eq_true', beq_iff_eq] at fails
    exact ⟨fails.1.1.1, fails.1.1.2, fails.2⟩
  have rV : s.rV = false := by
    cases illegal : s.illegal with
    | true => exact (sound.fails illegal).rV
    | false =>
      cases valid : s.rV with
      | false => rfl
      | true => exact absurd (begins illegal).2.2 (sound.allowed valid (begins illegal).2.1)
  have waits : s.advance c = false := by rw [advance, newPc, rV]; rfl
  have lastpc := @lastpc_waits _ _ _ _ s c b waits
  have lasttag_ := @lasttag_waits _ _ _ _ s c b waits
  have isrc : (s.clock c b).isrc = false := waits
  have rLastpc : (s.clock c b).rLastpc = (s.clock c b).lastpc := by rw [lastpc]; rfl
  cases illegal : s.illegal with
  | true =>
    obtain ⟨-, -, -, absent, ⟨a, member, known⟩, -⟩ := sound.fails illegal
    have notFound : s.vFromLast = false := by
      rw [vFromLast, Bool.and_eq_false_iff]
      cases mask : s.validMask (index (word s.lastpc)) with
      | false => exact .inr rfl
      | true =>
        rw [sound.tagval mask]
        exact .inl (beq_false_of_ne (absent mask))
    refine ⟨by rw [rV_waits quiet waits, notFound], isrc, rLastpc, fun mask => ?_, ⟨a, more a member, ?_⟩, ?_⟩
    · rw [(sound.marked_clock quiet mask).1]
      rw [lastpc] at mask ⊢
      rcases mask_clock quiet mask with marked | ⟨marks, -⟩
      · exact absent marked
      · exact absurd (illegal.symm.trans (sound.masks marks).illegal) (by decide)
    · rw [lasttag_, known]
    · simp [clock, either, waits, rV, illegal]
  | false =>
    obtain ⟨noErr, refused, same⟩ := begins illegal
    obtain ⟨unmasked, elsewhere, a, member, known⟩ := sound.refuses refused
    rw [same, ← show index (word s.lastpc) = s.lasttag.extractLsb' 0 lg from index_eq _] at unmasked elsewhere
    have notFound : s.vFromLast = false := by rw [vFromLast, unmasked, Bool.and_false]
    refine ⟨by rw [rV_waits quiet waits, notFound], isrc, rLastpc, fun mask => ?_, ⟨a, more a member, ?_⟩,
      fun still => ?_⟩
    · rw [lastpc] at mask
      rcases mask_clock quiet mask with marked | ⟨marks, place⟩
      · exact absurd (unmasked.symm.trans marked) (by decide)
      · exact absurd place (elsewhere marks)
    · rw [lasttag_, known, same]
    · have cyc : s.cyc = false := by
        cases cyc : s.cyc with
        | false => rfl
        | true => simp [clock, either, waits, rV, illegal, cyc] at still
      rw [lasttag_]
      exact ⟨by simp [clock, either, cyc, refused], by simp [clock, either, cyc, same]⟩

end Sound

end Quiet

end Clock

/-! ### The slave -/

section Slave
variable {mem : Memory (tg + lg + ls) d} {failed : List (BitVec (tg + lg + ls))} {x : Bench (pfcache tg lg ls d)}
  {i : Inputs (tg + lg + ls) d}

/-- What happens to the line that is being loaded. -/
theorem Sound.loads_step (sound : Sound mem failed x.waiting x.core) (some_ : 0 < ls)
    (quiet : invalidates i.cpu = false) (cyc : x.core.cyc = true) :
    ((x.step mem i).core.cyc = true ∧ ∃ r n, Fill mem (x.step mem i).waiting r n (x.step mem i).core) ∨
      (x.step mem i).core.cyc = false ∧ (x.step mem i).core.stb = false := by
  obtain ⟨reset, clear⟩ := Bool.or_eq_false_iff.mp quiet
  obtain ⟨r, n, fill⟩ := sound.filling cyc
  have still := (sound.unmasked cyc).2
  have stall : (x.bus mem i).stall = i.stall := rfl
  have core : (x.step mem i).core = x.core.clock i.cpu (x.bus mem i) := rfl
  rw [core]
  rcases @Fill.served _ _ _ _ mem x i n r fill cyc with
    ⟨bus, waiting⟩ | ⟨accepted, ⟨v, word_, bus, waiting⟩ | ⟨-, -, bus⟩⟩
  · obtain ⟨goes, later⟩ := @Fill.clock_waits _ _ _ _ _ _ _ i.cpu (x.bus mem i) _ _ fill some_ cyc reset clear
      (congrArg Bus.ack bus) (congrArg Bus.err bus) still
    rw [waiting]
    exact .inl ⟨goes, _, _, later⟩
  · have ack : (x.bus mem i).ack = true := congrArg Bus.ack bus
    have noErr : (x.bus mem i).err = false := congrArg Bus.err bus
    have data : mem (nth (line x.core.addr) n) = some (x.bus mem i).data := by rw [word_, bus]
    by_cases last : n + 1 = 2 ^ ls
    · obtain ⟨finished, stb, -, -, -⟩ :=
        @Fill.clock_last _ _ _ _ _ _ _ i.cpu (x.bus mem i) _ _ fill some_ cyc ack noErr last accepted data
      exact .inr ⟨finished, stb⟩
    · have more := fill.more
      obtain ⟨goes, later⟩ := @Fill.clock_word _ _ _ _ _ _ _ i.cpu (x.bus mem i) _ _ fill some_ cyc reset clear ack
        noErr still (by omega) accepted data
      rw [waiting]
      exact .inl ⟨goes, _, _, later⟩
  · exact .inr (clock_ends cyc (.inr (.inr (congrArg Bus.err bus))))

/-- A clock without a reset or a clear. -/
theorem Sound.quiet_step (sound : Sound mem failed x.waiting x.core) (some_ : 0 < ls)
    (quiet : invalidates i.cpu = false) :
    Sound mem (failed ++ (x.reply i).toList.filter fun a => (mem a).isNone) (x.step mem i).waiting
      (x.step mem i).core := by
  obtain ⟨reset, clear⟩ := Bool.or_eq_false_iff.mp quiet
  -- The bus never answers and fails in one clock.
  have one : ((x.bus mem i).ack && (x.bus mem i).err) = false := by
    cases reply : x.reply i with
    | none => simp [Bench.bus, reply]
    | some a => cases word_ : mem a <;> simp [Bench.bus, reply, word_]
  have errs : x.core.cyc = true → (x.bus mem i).err = true →
      ∃ a ∈ failed ++ (x.reply i).toList.filter fun a => (mem a).isNone, line a = line x.core.addr := by
    intro cyc err
    obtain ⟨r, n, fill⟩ := sound.filling cyc
    rcases @Fill.served _ _ _ _ mem x i n r fill cyc with ⟨bus, -⟩ | ⟨-, ⟨v, -, bus, -⟩ | ⟨missing, reply, -⟩⟩
    · exact absurd ((congrArg Bus.err bus).symm.trans err) Bool.false_ne_true
    · exact absurd ((congrArg Bus.err bus).symm.trans err) Bool.false_ne_true
    · refine ⟨nth (line x.core.addr) n, List.mem_append_right _ ?_, line_nth (line x.core.addr)⟩
      rw [reply]
      simp [missing]
  refine ⟨sound.agrees_clock quiet, sound.tagval_clock quiet, fun idle => ?_, fun goes => ?_, fun marks => ?_,
    sound.refuses_clock quiet one errs fun a => List.mem_append_left _, sound.shown_clock quiet,
    sound.allowed_clock quiet, sound.wanted_clock quiet some_, sound.needs_clock quiet,
    sound.fails_clock quiet fun a => List.mem_append_left _⟩
  · cases cyc : x.core.cyc with
    | true =>
      rcases sound.loads_step some_ quiet cyc with ⟨goes, -⟩ | ⟨-, stb⟩
      · exact absurd (idle.symm.trans goes) (by decide)
      · exact stb
    | false =>
      have stb := sound.idle cyc
      have core : (x.step mem i).core = x.core.clock i.cpu (x.bus mem i) := rfl
      rw [core] at idle ⊢
      cases begins : x.core.needload && !i.cpu.newPc <;> simp [clock, reset, clear, cyc, begins, stb] at idle ⊢
  · cases cyc : x.core.cyc with
    | true =>
      rcases sound.loads_step some_ quiet cyc with ⟨-, later⟩ | ⟨finished, -⟩
      · exact later
      · exact absurd (finished.symm.trans goes) (by decide)
    | false =>
      have core : (x.step mem i).core = x.core.clock i.cpu (x.bus mem i) := rfl
      rw [core] at goes ⊢
      -- A line begins to be filled.
      obtain ⟨needload, newPc⟩ : x.core.needload = true ∧ i.cpu.newPc = false := by
        simpa [clock, reset, clear, cyc] using goes
      rw [(@idle_bus _ _ _ _ mem x i cyc).2]
      exact ⟨0, 0, (clock_begins cyc (sound.idle cyc) needload reset clear newPc some_).2.2⟩
  · have core : (x.step mem i).core = x.core.clock i.cpu (x.bus mem i) := rfl
    rw [core] at marks ⊢
    obtain ⟨cyc, ack, -⟩ : x.core.cyc = true ∧ (x.bus mem i).ack = true ∧ x.core.lastAck = true ∧
        x.core.busAbort = false := by
      simpa [clock, reset, clear, and_assoc] using marks
    obtain ⟨r, n, fill⟩ := sound.filling cyc
    rcases @Fill.served _ _ _ _ mem x i n r fill cyc with ⟨bus, -⟩ | ⟨accepted, ⟨v, word_, bus, -⟩ | ⟨-, -, bus⟩⟩
    · exact absurd ((congrArg Bus.ack bus).symm.trans ack) Bool.false_ne_true
    · exact sound.masks_clock quiet fill some_ cyc (congrArg Bus.err bus) accepted (by rw [word_, bus]) marks
    · exact absurd ((congrArg Bus.ack bus).symm.trans ack) Bool.false_ne_true

end Slave

end Pfcache

/-! ### The bench -/

/-- A clock of the bench: behind a clear the memory may hold something else. -/
structure Tick (w d : Nat) where
  inputs : Inputs w d
  content : Memory w d

/-- The cache with its memory, and the addresses that the slave has answered with an error since the latest reset or
clear. -/
structure Cached (tg lg ls d : Nat) where
  bench : Bench (pfcache tg lg ls d)
  mem : Memory (tg + lg + ls) d
  failed : List (BitVec (tg + lg + ls))

namespace Cached

variable {tg lg ls d : Nat}

open Pfcache

def powerUp (free : Pfcache tg lg ls d) (mem : Memory (tg + lg + ls) d) : Cached tg lg ls d :=
  ⟨.powerUp (pfcache tg lg ls d) free.powerUp, mem, []⟩

section
variable (x : Cached tg lg ls d) (i : Tick (tg + lg + ls) d)

/-- The request that the slave answers with an error. -/
def refused : List (BitVec (tg + lg + ls)) := (x.bench.reply i.inputs).toList.filter fun a => (x.mem a).isNone

def step : Cached tg lg ls d where
  bench := x.bench.step x.mem i.inputs
  mem := if i.inputs.cpu.clearCache then i.content else x.mem
  failed := if invalidates i.inputs.cpu then [] else x.failed ++ x.refused i

def run : List (Tick (tg + lg + ls) d) → Cached tg lg ls d := Clocked.run step x

def pins : Pins (tg + lg + ls) d := x.bench.core.pins

/-- The CPU takes an instruction. -/
def takes : Bool := x.pins.valid && !x.pins.illegal && i.inputs.cpu.ready

end

/-- The address behind `n` instructions. -/
def ahead {n : Nat} (pc : BitVec n) (k : Nat) : BitVec n := pc + BitVec.ofNat n (4 * k)

/-- The instructions that could be loaded. -/
def legal {w : Nat} (xs : List (Insn w d)) : List (Insn w d) := xs.filter fun x => !x.illegal

/-- As it takes an instruction, the CPU gives the address of the next one, or a new one. -/
def Presents (x : Cached tg lg ls d) (i : Tick (tg + lg + ls) d) : Prop :=
  ∀ pc ∈ x.bench.segment, i.inputs.cpu.newPc = false → x.takes i = true →
    i.inputs.cpu.pc = ahead pc (x.bench.taken.length + 1)

instance (x : Cached tg lg ls d) (i : Tick (tg + lg + ls) d) : Decidable (x.Presents i) :=
  inferInstanceAs (Decidable (∀ pc ∈ x.bench.segment, _))

/-- The cache looks for the address that the CPU waits for. -/
structure Stands (x : Cached tg lg ls d) : Prop where
  sound : Sound x.mem x.failed x.bench.waiting x.bench.core
  waits : ∀ pc ∈ x.bench.segment, x.bench.core.lastpc = ahead pc (legal x.bench.taken).length
  goes : ∀ pc ∈ x.bench.segment, x.bench.core.illegal = false → legal x.bench.taken = x.bench.taken

theorem stands_powerUp (free : Pfcache tg lg ls d) (mem : Memory (tg + lg + ls) d) : Stands (powerUp free mem) := by
  have rV : free.powerUp.rV = false := ite_self _
  refine ⟨⟨nofun, nofun, fun _ => rfl, nofun, nofun, nofun, ?_, ?_, nofun, nofun, nofun⟩, nofun, nofun⟩
  · exact fun valid => absurd (rV.symm.trans valid) Bool.false_ne_true
  · exact fun valid => absurd (rV.symm.trans valid) Bool.false_ne_true

section
variable {x : Cached tg lg ls d} {i : Tick (tg + lg + ls) d}

theorem Stands.sound_step (stands : Stands x) (some_ : 0 < ls) :
    Sound (x.step i).mem (x.step i).failed (x.step i).bench.waiting (x.step i).bench.core := by
  cases clears : invalidates i.inputs.cpu with
  | true => exact sound_cleared clears
  | false =>
    have clear : i.inputs.cpu.clearCache = false := (Bool.or_eq_false_iff.mp clears).2
    have mem : (x.step i).mem = x.mem := by simp [step, clear]
    have failed : (x.step i).failed = x.failed ++ x.refused i := by simp [step, clears]
    rw [mem, failed]
    exact stands.sound.quiet_step some_ clears

/-- What a clock does for the address that the CPU waits for. -/
theorem Stands.serves_step (stands : Stands x) (presents : x.Presents i) :
    ∀ pc ∈ (x.step i).bench.segment,
      (x.step i).bench.core.lastpc = ahead pc (legal (x.step i).bench.taken).length ∧
        ((x.step i).bench.core.illegal = false → legal (x.step i).bench.taken = (x.step i).bench.taken) := by
  intro pc current
  have core : (x.step i).bench.core = x.bench.core.clock i.inputs.cpu (x.bench.bus x.mem i.inputs) := rfl
  by_cases quiet : i.inputs.cpu.quiet = true
  · obtain ⟨reset, newPc, clear⟩ := Bench.quiet_iff.mp quiet
    have same : (x.step i).bench.segment = x.bench.segment := Bench.segment_step quiet
    have here : pc ∈ x.bench.segment := same ▸ current
    have lastpc : (x.step i).bench.core.lastpc =
        if x.bench.core.rV && i.inputs.cpu.ready then i.inputs.cpu.pc else x.bench.core.lastpc := by
      rw [core]
      simp [clock, advance, newPc]
    have taken : (x.step i).bench.taken = x.bench.handed i.inputs := Bench.taken_step quiet
    rw [taken, lastpc, Bench.handed]
    cases illegal : x.bench.core.illegal with
    | true =>
      -- what is handed over is illegal, and the address stays
      have rV := (stands.sound.fails illegal).rV
      have nothing : legal (x.bench.hands i.inputs) = [] := by
        simp only [Bench.hands, Pfcache.pins, illegal]
        split_ifs <;> rfl
      have stays : (x.step i).bench.core.illegal = true := by simp [core, clock, reset, newPc, clear, illegal]
      rw [rV, stays, legal, List.filter_append, ← legal, ← legal, nothing, List.append_nil]
      exact ⟨stands.waits pc here, fun legal_ => absurd legal_ (by decide)⟩
    | false =>
      have all := stands.goes pc here illegal
      cases takes : x.bench.core.rV && i.inputs.cpu.ready with
      | true =>
        obtain ⟨rV, ready⟩ := Bool.and_eq_true _ _ ▸ takes
        have given := presents pc here newPc (by simp [Cached.takes, Cached.pins, Pfcache.pins, illegal, rV, ready])
        have one : x.bench.hands i.inputs = [⟨x.pins.pc, x.pins.insn, false⟩] := by
          simp [Bench.hands, Cached.pins, Pfcache.pins, illegal, rV, ready]
        have legal_ : legal (x.bench.taken ++ x.bench.hands i.inputs) = x.bench.taken ++ x.bench.hands i.inputs := by
          rw [legal, List.filter_append, ← legal, all, one]
          rfl
        rw [legal_, if_pos rfl, given, one, List.length_append]
        exact ⟨rfl, fun _ => rfl⟩
      | false =>
        have none : x.bench.hands i.inputs = [] := by simp [Bench.hands, Pfcache.pins, illegal, takes]
        rw [none, List.append_nil]
        exact ⟨stands.waits pc here, fun _ => all⟩
  · rw [Bench.quiet_iff] at quiet
    simp only [step, Bench.step] at current
    split_ifs at current with reset newPc
    · cases current
    · cases current
      have taken : (x.step i).bench.taken = [] := by simp [step, Bench.step, newPc]
      rw [taken, core]
      refine ⟨?_, fun _ => rfl⟩
      simp [clock, advance, newPc, legal, ahead]
    · cases current
    · simp_all

theorem Stands.step (stands : Stands x) (some_ : 0 < ls) (presents : x.Presents i) : Stands (x.step i) :=
  ⟨stands.sound_step some_, fun pc current => (stands.serves_step presents pc current).1,
    fun pc current => (stands.serves_step presents pc current).2⟩

/-- The instruction that is shown. -/
theorem Stands.shows (stands : Stands x) (valid : x.pins.valid = true) (legal_ : x.pins.illegal = false) :
    x.mem (word x.pins.pc) = some x.pins.insn ∧
      ∀ pc ∈ x.bench.segment, x.pins.pc = ahead pc x.bench.taken.length := by
  have illegal : x.bench.core.illegal = false := legal_
  have rV : x.bench.core.rV = true := by
    simpa [pins, Pfcache.pins, illegal] using valid
  obtain ⟨place, read⟩ := stands.sound.shown rV
  have address : x.pins.pc = x.bench.core.lastpc := place
  rw [address]
  refine ⟨read, fun pc current => ?_⟩
  rw [stands.waits pc current, stands.goes pc current illegal]

/-- An instruction that cannot be loaded. -/
theorem Stands.fails (stands : Stands x) (illegal : x.pins.illegal = true) :
    (∃ a ∈ x.failed, line a = line (word x.pins.pc)) ∧
      ∀ pc ∈ x.bench.segment, x.pins.pc = ahead pc (legal x.bench.taken).length := by
  have failed := stands.sound.fails illegal
  have address : x.pins.pc = x.bench.core.lastpc := by simp [pins, Pfcache.pins, failed.isrc, failed.rLastpc]
  rw [address]
  exact ⟨failed.known, stands.waits⟩

end

/-- Along every run the cache shows the word of the memory at the address that the CPU waits for, says that one is
illegal if an error has come from its line, and holds lines of the memory. -/
theorem returns_memory (some_ : 0 < ls) (free : Pfcache tg lg ls d) (mem : Memory (tg + lg + ls) d)
    (is : List (Tick (tg + lg + ls) d)) (presents : Clocked.Always step Presents (powerUp free mem) is) :
    let x := (powerUp free mem).run is
    (x.pins.valid = true → x.pins.illegal = false →
      x.mem (word x.pins.pc) = some x.pins.insn ∧
        ∀ pc ∈ x.bench.segment, x.pins.pc = ahead pc x.bench.taken.length) ∧
    (x.pins.illegal = true →
      (∃ a ∈ x.failed, line a = line (word x.pins.pc)) ∧
        ∀ pc ∈ x.bench.segment, x.pins.pc = ahead pc (legal x.bench.taken).length) ∧
    ∀ a, x.bench.core.validMask (index a) = true → x.bench.core.tags (index a) = tag a →
      x.mem a = some (x.bench.core.cache (cell a)) := by
  have kept (x : Cached tg lg ls d) (i : Tick (tg + lg + ls) d) (stands : Stands x) (ok : x.Presents i) :
      Stands (x.step i) := stands.step some_ ok
  have stands : Stands ((powerUp free mem).run is) :=
    Clocked.run_invariant kept (stands_powerUp free mem) presents
  exact ⟨stands.shows, stands.fails, stands.sound.agrees⟩

/-- The upper quarter of the memory cannot be read. -/
def holed : Memory (1 + 1 + 2) 8 := fun a => if a.toNat < 12 then some (a.setWidth 8 + 0x50) else none

def anyPfcache : Pfcache 1 1 2 8 :=
  ⟨0, 0, 0, 0, false, 0, 0, 0, false, 0, false, false, false, false, false, false, false, false, fun _ => 0, 0, 0,
    fun _ => 0, fun _ => false, false, 0, 0, false, false⟩

def tickOf (newPc : Bool) (pc : BitVec 6) : Tick (1 + 1 + 2) 8 :=
  ⟨⟨⟨false, newPc, false, true, pc⟩, false, true, 0xee⟩, holed⟩

/-- Two instructions are taken. -/
def walks : List (Tick (1 + 1 + 2) 8) := tickOf true 4 :: List.replicate 11 (tickOf false 8) ++ [tickOf false 12]

/-- And a jump that fails. -/
def falls : List (Tick (1 + 1 + 2) 8) := walks ++ tickOf true 52 :: List.replicate 12 (tickOf false 56)

theorem returns_memory_falls :
    let x := (powerUp anyPfcache holed).run walks
    let y := (powerUp anyPfcache holed).run falls
    x.pins.valid = true ∧ x.mem (word x.pins.pc) = some x.pins.insn ∧ x.pins.pc = ahead 4 2 ∧
      y.pins.illegal = true ∧ ∃ a ∈ y.failed, @line 1 1 2 a = @line 1 1 2 (word y.pins.pc) := by
  have presents : Clocked.Always step Presents (powerUp anyPfcache holed) falls := by decide +kernel
  have before : Clocked.Always step Presents (powerUp anyPfcache holed) walks :=
    ((Clocked.always_append _ _ walks _).mp presents).1
  have valid : ((powerUp anyPfcache holed).run walks).pins.valid = true := by decide +kernel
  have illegal : ((powerUp anyPfcache holed).run falls).pins.illegal = true := by decide +kernel
  have current : (4#6) ∈ ((powerUp anyPfcache holed).run walks).bench.segment := by decide +kernel
  have two : ((powerUp anyPfcache holed).run walks).bench.taken.length = 2 := by decide +kernel
  obtain ⟨read, address⟩ :=
    (returns_memory (by decide) anyPfcache holed walks before).1 valid (by decide +kernel)
  refine ⟨valid, read, ?_, illegal, ((returns_memory (by decide) anyPfcache holed falls presents).2.1 illegal).1⟩
  rw [address _ current, two]
  rfl

end Cached

end IcoZip.Fetch
