import IcoZip.Library.Circular
import IcoZip.LoadStore.Pipemem
import IcoZip.LoadStore.Transfers

/-! `pipemem` during a run of loads or of stores. Its tables are those of `memops` with the most
significant byte first, and its ring holds what the slave has not answered.
-/

set_option autoImplicit false

namespace IcoZip.LoadStore

variable {aw : Nat}

namespace Pipemem

/-- The two units have the same bus map and agree on misaligned accesses; bytes are in the order of `pipemem`. -/
structure Options.Matches (opt : Options) (o : LoadStore.Options) : Prop where
  localBus : o.localBus = opt.localBus
  alignmentErr : o.alignmentErr = opt.alignmentErr
  big : o.littleEndian = false

/-! ### The tables -/

section Tables
variable {opt : Options} {o : LoadStore.Options} (a : Access)

theorem lclBus_eq (same : opt.Matches o) : lclBus opt a.addr = a.lcl o := by
  rw [lclBus, Access.lcl, same.localBus, Bool.and_comm]

theorem wbSel_eq (big : o.littleEndian = false) : wbSel a.op a.addr = LoadStore.wbSel o a.op a.addr := by
  unfold wbSel LoadStore.wbSel sizeAndOffset endianKey
  rw [a.op_size, big]
  cases a.size <;> rcases quarter (a.addr.extractLsb' 0 2) with p | p | p | p <;> rw [p] <;> decide

/-- The data on the selected lanes; `memops` may repeat it on the others. -/
theorem wbData_eq (big : o.littleEndian = false) :
    lanes (wbSel a.op a.addr) (wbData a.op a.addr a.data) =
      lanes (LoadStore.wbSel o a.op a.addr) (LoadStore.wbData o a.op a.addr a.data) := by
  rw [← wbSel_eq a big]
  refine lanes_congr fun j inside selected => ?_
  have half : a.data.extractLsb' 0 16 = Bytes.byte a.data 1 ++ Bytes.byte a.data 0 := Bytes.half_eq a.data 0
  have byte : a.data.extractLsb' 0 8 = Bytes.byte a.data 0 := rfl
  have same : ∀ b : BitVec 8, b ++ (b ++ (b ++ b)) = Bytes.quad b b b b := fun _ => rfl
  revert selected
  unfold wbSel wbData LoadStore.wbData sizeAndOffset endianKey
  rw [a.op_size, half, byte, big]
  simp only [Bytes.halves, Bytes.upperHalf, Bytes.lowerHalf, Bytes.fourth, Bytes.third, Bytes.first, same]
  cases a.size <;> rcases quarter (a.addr.extractLsb' 0 2) with p | p | p | p <;> rw [p] <;>
    interval_cases j <;> cases o.lowpower <;> simp [Size.code]

theorem extracted_eq (big : o.littleEndian = false) (data : BitVec 32) :
    extracted (sizeAndOffset a.op a.addr) data = LoadStore.extracted o (sizeAndOffset a.op a.addr) data := by
  unfold extracted LoadStore.extracted sizeAndOffset endianKey
  rw [a.op_size, big]
  cases a.size <;> rcases quarter (a.addr.extractLsb' 0 2) with p | p | p | p <;> rw [p] <;> simp [Size.code]

end Tables

/-! ### A run -/

/-- What the ring keeps of an access. -/
def kept (a : Access) : BitVec 8 := a.oreg.extractLsb' 0 4 ++ sizeAndOffset a.op a.addr

/-- The registers of the cycle and the strobes, and the addresses of the ring, with `n` accesses to be answered. -/
structure Counts (opt : Options) (n : Nat) (strobe : Bool) (s : Pipemem aw) : Prop where
  within : strobe.toNat ≤ n
  cyc : s.cyc = decide (0 < n)
  cycGbl : s.cycGbl = (s.cyc && !s.cycLcl)
  cycLcl : s.cycLcl = (s.cyc && s.cycLcl && opt.localBus)
  stbGbl : s.stbGbl = (strobe && !s.cycLcl)
  stbLcl : s.stbLcl = (strobe && s.cycLcl)
  wraddr : s.wraddr = Circular.place s.rdaddr n
  small : n ≤ 16
  room : opt.maxDepth ≠ 0 → n ≤ opt.maxDepth.toNat ∧ (s.full = false → n < opt.maxDepth.toNat)

/-- What has been remembered of the accesses to be answered, the last of which may be on the lines. -/
structure Keeps (opt : Options) (queue : List Access) (offered : Option Access) (s : Pipemem aw) : Prop where
  ring : Circular s.fifo s.rdaddr (queue.map kept)
  store : ∀ a ∈ queue, a.store = s.we
  lcl : ∀ a ∈ queue, lclBus opt a.addr = s.cycLcl
  gie : ∀ a ∈ queue, a.store = false → a.oreg.getLsbD 4 = s.gie
  addr : ∀ a ∈ offered, s.addr = a.addr.extractLsb' 2 aw
  sel : ∀ a ∈ offered, s.sel = wbSel a.op a.addr
  data : ∀ a ∈ offered, s.data = wbData a.op a.addr a.data

@[simp] theorem cpu_reset (i : Inputs) : i.cpu.reset = false := by
  rw [Inputs.cpu]
  cases i.ask <;> rfl

@[simp] theorem cpu_stb (i : Inputs) : i.cpu.stb = i.ask.isSome := by
  rw [Inputs.cpu]
  cases i.ask <;> rfl

section Clock
variable {opt : Options} {s : Pipemem aw} {i : Inputs} {bus : Bus} {n : Nat} {strobe : Bool}

section Off
variable (off : opt.alignmentErr = false) (op : BitVec 3) (addr : BitVec 32) (stb : Bool)
include off

theorem misaligned_off : misaligned opt op addr stb = false := by
  rw [misaligned, off]
  rfl

theorem lclStb_off : lclStb opt op addr stb = lclBus opt addr := by
  rw [lclStb, misaligned_off off, Bool.not_false, Bool.and_true]

theorem gblStb_off : gblStb opt op addr stb = !lclBus opt addr := by
  rw [gblStb, misaligned_off off, lclBus]
  cases opt.localBus <;> simp

theorem flushes_off (noErr : bus.err = false) : s.flushes opt i.cpu bus = false := by
  rw [flushes, misaligned_off off, noErr, Bool.and_false]
  rfl

theorem strobesEnd_off (noErr : bus.err = false) :
    strobesEnd opt i.cpu bus = (!bus.stall && !i.ask.isSome) := by
  simp [strobesEnd, misaligned_off off, noErr]

theorem cycleEnds_off (noErr : bus.err = false) :
    s.cycleEnds opt i.cpu bus = (bus.ack && s.rdaddr + 1#4 == s.wraddr && !i.ask.isSome) := by
  simp [cycleEnds, misaligned_off off, noErr]

end Off

theorem depth_pos (deep : opt.maxDepth ≠ 0) : 0 < opt.maxDepth.toNat :=
  Nat.pos_of_ne_zero fun zero => deep (BitVec.eq_of_toNat_eq zero)

theorem lclBus_local (addr : BitVec 32) (none : opt.localBus = false) : lclBus opt addr = false := by
  rw [lclBus, none, Bool.and_false]

/-- The slave answers with an error. -/
theorem clock_fail (busy : s.cyc = true) (err : bus.err = true) :
    (s.clock opt i.cpu bus).Counts opt 0 false ∧ (s.clock opt i.cpu bus).wbCycGbl opt = false ∧
      (s.clock opt i.cpu bus).wbCycLcl opt = false := by
  refine ⟨?_, ?_, ?_⟩
  · constructor
    case room =>
      intro deep
      exact ⟨Nat.zero_le _, fun _ => depth_pos deep⟩
    all_goals simp [clock, busy, err, cycleEnds, flushes]
  · simp [wbCycGbl, clock, busy, err, cycleEnds]
  · simp [wbCycLcl, clock, busy, err, cycleEnds]

/-- The strobe stands while the slave stalls, and for what is asked for; `finished` is the end of the cycle. -/
theorem strobe_next {strobe asks stall finished : Bool} (asked : asks = true → strobe = true ∧ stall = false)
    (silent : finished = true → asks = false ∧ (strobe && stall) = false) :
    (strobe && !(!stall && !asks) && !finished) = (asks || strobe && stall) := by
  revert asked silent
  cases asks <;> cases stall <;> cases finished <;> cases strobe <;> decide

namespace Counts
variable (counts : s.Counts opt n strobe)
include counts

theorem toNat_fill (deep : opt.maxDepth ≠ 0) : s.fill.toNat = n := by
  have depth := (counts.room deep).1
  have small := opt.maxDepth.isLt
  rw [fill, counts.wraddr]
  exact Circular.toNat_fill s.rdaddr (by omega)

/-- The flag looks at what there is before an answer is taken out. -/
theorem full (off : opt.alignmentErr = false) (deep : opt.maxDepth ≠ 0) (noErr : bus.err = false) :
    (s.clock opt i.cpu bus).full = decide (opt.maxDepth.toNat ≤ n + i.ask.toList.length) := by
  have fill := counts.toNat_fill deep
  have some := depth_pos deep
  have small := opt.maxDepth.isLt
  have wide : (s.fill.setWidth 32).toNat = n := by rw [BitVec.toNat_setWidth_of_le (by decide), fill]
  have less : (opt.maxDepth.setWidth 32 - 1#32).toNat = opt.maxDepth.toNat - 1 := by
    rw [BitVec.toNat_sub_of_le, BitVec.toNat_setWidth_of_le (by decide)]
    · rfl
    · rw [BitVec.le_def, BitVec.toNat_setWidth_of_le (by decide)]
      exact some
  simp only [clock, flushes_off off noErr, cpu_reset, cpu_stb]
  cases ask : i.ask with
  | none => simp [BitVec.le_def, fill]
  | some a =>
    have limit : opt.maxDepth.setWidth 32 - 1#32 ≤ s.fill.setWidth 32 ↔ opt.maxDepth.toNat ≤ n + 1 := by
      rw [BitVec.le_def, less, wide]
      omega
    simpa using limit

/-- The flag keeps what there is below the depth. -/
theorem room_clock (off : opt.alignmentErr = false) (noErr : bus.err = false)
    (asked : i.ask.isSome = true → n = 0 ∨ s.full = false) (deep : opt.maxDepth ≠ 0) :
    n + i.ask.toList.length ≤ opt.maxDepth.toNat ∧
      ((s.clock opt i.cpu bus).full = false → n + i.ask.toList.length < opt.maxDepth.toNat) := by
  have flag := @full aw opt s i bus n strobe counts off deep noErr
  have some := depth_pos deep
  obtain ⟨most, room⟩ := counts.room deep
  constructor
  · cases ask : i.ask with
    | none => simpa using most
    | some a =>
      rcases asked (by rw [ask]; rfl) with none | open_
      · simp [none]
        omega
      · exact room open_
  · rw [flag]
    intro less
    exact Nat.lt_of_not_le (of_decide_eq_false less)

/-- The cycle ends with the last answer, unless something is asked for. -/
theorem ends (off : opt.alignmentErr = false) (noErr : bus.err = false) :
    s.cycleEnds opt i.cpu bus = (bus.ack && decide (n = 1) && !i.ask.isSome) := by
  have small := counts.small
  have last : (s.rdaddr + 1#4 == s.wraddr) = decide (n = 1) := by
    rw [counts.wraddr, Bool.eq_iff_iff, beq_iff_eq, decide_eq_true_iff]
    rcases Nat.lt_or_ge n 16 with less | all
    · exact (Circular.place_inj s.rdaddr (by decide : 1 < 2 ^ 4) (by omega)).trans eq_comm
    · have whole : n = 16 := by omega
      have around : Circular.place s.rdaddr 16 = s.rdaddr :=
        (Circular.place_eq_self s.rdaddr (by decide) (by decide)).mpr (by decide)
      rw [whole, around]
      exact (Circular.place_eq_self s.rdaddr (n := 1) (by decide) (by decide)).trans (by decide)
  rw [cycleEnds_off off noErr, last]

/-- Where the ring is read and written next. -/
theorem wraddr_clock (off : opt.alignmentErr = false) (noErr : bus.err = false)
    (answers : bus.ack = true → s.cyc = true ∧ 0 < n) :
    (s.clock opt i.cpu bus).wraddr =
      Circular.place (s.clock opt i.cpu bus).rdaddr (n - bus.ack.toNat + i.ask.toList.length) := by
  have next : (s.clock opt i.cpu bus).wraddr = Circular.place s.rdaddr (n + i.ask.toList.length) := by
    cases ask : i.ask with
    | none => simp [Pipemem.clock, flushes_off off noErr, ask, counts.wraddr]
    | some a => simp [Pipemem.clock, flushes_off off noErr, ask, counts.wraddr]
  rw [next]
  cases ack : bus.ack with
  | false => simp [Pipemem.clock, flushes_off off noErr, ack]
  | true =>
    obtain ⟨busy, some_⟩ := answers ack
    have rest : n + i.ask.toList.length = n - 1 + i.ask.toList.length + 1 := by omega
    rw [rest, Circular.place_succ]
    simp [Pipemem.clock, flushes_off off noErr, ack, busy]

/-- Nothing is under way. -/
theorem clock_free (none : n = 0) (off : opt.alignmentErr = false) (noErr : bus.err = false)
    (noAck : bus.ack = false) : (s.clock opt i.cpu bus).Counts opt i.ask.toList.length i.ask.isSome := by
  have wraddr := @wraddr_clock aw opt s i bus n strobe counts off noErr fun ack => by simp [noAck] at ack
  have room := @room_clock aw opt s i bus n strobe counts off noErr fun _ => .inl none
  have quiet : strobe = false := by
    have before := counts.within
    rw [none] at before
    cases strobe <;> simp at before ⊢
  have free : s.cyc = false := by rw [counts.cyc, none]; rfl
  have lcl : s.cycLcl = false := by rw [counts.cycLcl, free, Bool.false_and, Bool.false_and]
  have gbl : s.cycGbl = false := by rw [counts.cycGbl, free, Bool.false_and]
  have stbGbl : s.stbGbl = false := by rw [counts.stbGbl, quiet, Bool.false_and]
  have stbLcl : s.stbLcl = false := by rw [counts.stbLcl, quiet, Bool.false_and]
  rw [none, Nat.zero_sub, Nat.zero_add] at wraddr
  rw [none, Nat.zero_add] at room
  refine ⟨?_, ?_, ?_, ?_, ?_, ?_, wraddr, ?_, room⟩
  · cases i.ask <;> simp
  · cases ask : i.ask <;> simp [Pipemem.clock, free, ask, misaligned_off off]
  · cases map : opt.localBus <;> cases ask : i.ask <;>
      simp [Pipemem.clock, free, ask, map, misaligned_off off, lcl, gbl, lclStb_off off, gblStb_off off, lclBus_local]
  · cases map : opt.localBus <;> cases ask : i.ask <;>
      simp [Pipemem.clock, free, ask, map, misaligned_off off, lcl]
  · cases map : opt.localBus <;> cases ask : i.ask <;>
      simp [Pipemem.clock, free, ask, map, lcl, lclStb_off off, gblStb_off off, stbGbl, lclBus_local]
  · cases map : opt.localBus <;> cases ask : i.ask <;>
      simp [Pipemem.clock, free, ask, map, lcl, lclStb_off off, stbLcl]
  · cases i.ask <;> simp

/-- The registers of the cycle while it is under way. -/
theorem cycle_busy (busy : s.cyc = true) {finished : Bool} (ends : s.cycleEnds opt i.cpu bus = finished) :
    (s.clock opt i.cpu bus).cyc = !finished ∧ (s.clock opt i.cpu bus).cycGbl = (!s.cycLcl && !finished) ∧
      (s.clock opt i.cpu bus).cycLcl = (s.cycLcl && !finished) := by
  have map := counts.cycLcl
  rw [busy, Bool.true_and] at map
  refine ⟨?_, ?_, ?_⟩
  · simp [Pipemem.clock, busy, ends]
  · simp [Pipemem.clock, busy, ends, counts.cycGbl]
  · cases local_ : opt.localBus with
    | false =>
      rw [local_, Bool.and_false] at map
      simp [Pipemem.clock, local_, map]
    | true => simp [Pipemem.clock, local_, busy, ends]

/-- And of the strobes. -/
theorem strobes_busy (busy : s.cyc = true) {finished finished' : Bool} (ends : s.cycleEnds opt i.cpu bus = finished)
    (strobes : strobesEnd opt i.cpu bus = finished') :
    (s.clock opt i.cpu bus).stbGbl = (strobe && !finished' && !finished && !s.cycLcl) ∧
      (s.clock opt i.cpu bus).stbLcl = (strobe && !finished' && !finished && s.cycLcl) := by
  have map := counts.cycLcl
  rw [busy, Bool.true_and] at map
  constructor
  · simp only [Pipemem.clock, busy, ends, strobes, counts.stbGbl, cpu_reset, if_true, if_false, Bool.false_eq_true]
    cases s.cycLcl <;> simp
  · simp only [Pipemem.clock, busy, ends, strobes, counts.stbLcl, cpu_reset, if_true, if_false, Bool.false_eq_true]
    rw [map]
    cases opt.localBus <;> cases s.cycLcl <;> simp

/-- What is asked for takes the place of the request that is accepted. -/
theorem asked_strobe (busy : s.cyc = true) (free : s.pipeStalled bus = false) :
    strobe = true ∧ bus.stall = false ∧ s.full = false := by
  rw [pipeStalled, busy, counts.stbGbl, counts.stbLcl] at free
  cases strobe <;> cases stall : bus.stall <;> cases full_ : s.full <;> cases s.cycLcl <;>
    simp [full_, stall] at free ⊢

/-- A cycle is under way. -/
theorem clock_busy (some_ : 0 < n) (off : opt.alignmentErr = false) (noErr : bus.err = false)
    (answers : bus.ack = true → (strobe && bus.stall).toNat < n) (fits : n - bus.ack.toNat < 16)
    (free : i.ask.isSome = true → s.pipeStalled bus = false) :
    (s.clock opt i.cpu bus).Counts opt (n - bus.ack.toNat + i.ask.toList.length)
      (i.ask.isSome || strobe && bus.stall) := by
  have busy : s.cyc = true := counts.cyc.trans (decide_eq_true some_)
  have wraddr := @wraddr_clock aw opt s i bus n strobe counts off noErr fun _ => ⟨busy, some_⟩
  have ends := @ends aw opt s i bus n strobe counts off noErr
  have asked : i.ask.isSome = true → strobe = true ∧ bus.stall = false ∧ s.full = false :=
    fun ask => counts.asked_strobe busy (free ask)
  have room := @room_clock aw opt s i bus n strobe counts off noErr fun ask => .inr (asked ask).2.2
  generalize finished_eq : (bus.ack && decide (n = 1) && !i.ask.isSome) = finished at ends
  have count : finished = !decide (0 < n - bus.ack.toNat + i.ask.toList.length) := by
    rw [← finished_eq]
    cases ack : bus.ack <;> cases ask : i.ask <;> by_cases one : n = 1 <;> simp [one] <;> omega
  -- The last answer comes only when nothing is asked for and no strobe is held up.
  have silent : finished = true → i.ask.isSome = false ∧ (strobe && bus.stall) = false := by
    intro isOver
    rw [← finished_eq, Bool.and_eq_true, Bool.and_eq_true, decide_eq_true_eq, Bool.not_eq_true'] at isOver
    have before := answers isOver.1.1
    cases waits : strobe && bus.stall with
    | false => exact ⟨isOver.2, rfl⟩
    | true =>
      rw [waits, isOver.1.2] at before
      exact absurd before (by decide)
  obtain ⟨cyc, cycGbl, cycLcl⟩ := counts.cycle_busy busy ends
  obtain ⟨stbGbl, stbLcl⟩ := counts.strobes_busy busy ends (strobesEnd_off off noErr)
  rw [strobe_next (fun ask => ⟨(asked ask).1, (asked ask).2.1⟩) silent] at stbGbl stbLcl
  have map := counts.cycLcl
  rw [busy, Bool.true_and] at map
  refine ⟨?_, ?_, ?_, ?_, ?_, ?_, wraddr, ?_, fun deep => ?_⟩
  · have before := counts.within
    cases ask : i.ask with
    | none =>
      cases ack : bus.ack with
      | false =>
        cases bus.stall with
        | false => simp
        | true =>
          simp
          omega
      | true =>
        have left := answers ack
        simp
        omega
    | some a => simp
  · rw [cyc, count, Bool.not_not]
  · rw [cycGbl, cyc, cycLcl]
    cases finished <;> simp
  · rw [cyc, cycLcl]
    cases finished
    · simpa using map
    · simp
  · rw [stbGbl, cycLcl]
    cases finished with
    | false => simp
    | true =>
      obtain ⟨quiet, done⟩ := silent rfl
      rw [quiet, done]
      rfl
  · rw [stbLcl, cycLcl]
    cases finished with
    | false => simp
    | true =>
      obtain ⟨quiet, done⟩ := silent rfl
      rw [quiet, done]
      rfl
  · have one : i.ask.toList.length ≤ 1 := by cases i.ask <;> simp
    omega
  · obtain ⟨most, less⟩ := room deep
    exact ⟨by omega, fun open_ => by
      have below := less open_
      omega⟩

end Counts

/-! ### What is remembered -/

section Remembered
variable {queue : List Access} {offered : Option Access}

/-- The first access of a run. -/
theorem keeps_free (counts : s.Counts opt n strobe) (none : n = 0) (off : opt.alignmentErr = false)
    (noErr : bus.err = false) (noAck : bus.ack = false) :
    (s.clock opt i.cpu bus).Keeps opt i.ask.toList i.ask := by
  have free : s.cyc = false := by rw [counts.cyc, none]; rfl
  have same : s.wraddr = s.rdaddr := by rw [counts.wraddr, none, Circular.place_zero]
  cases ask : i.ask with
  | none => exact ⟨trivial, by simp, by simp, by simp, by simp, by simp, by simp⟩
  | some a =>
    obtain ⟨-, stb, op, addr, data, oreg⟩ := Bench.cpu_asks ask
    have ring : (s.clock opt i.cpu bus).fifo (s.clock opt i.cpu bus).rdaddr = kept a := by
      simp [clock, flushes_off off noErr, noAck, same, kept, op, addr, oreg]
    have we : (s.clock opt i.cpu bus).we = a.store := by
      simp only [clock, stb, free, Bool.not_false, Bool.and_self, if_true, op, a.op_store]
    have lcl : (s.clock opt i.cpu bus).cycLcl = lclBus opt a.addr := by
      cases map : opt.localBus <;> simp [clock, ask, free, map, addr, lclStb_off off, lclBus_local]
    have gie : (s.clock opt i.cpu bus).gie = a.oreg.getLsbD 4 := by
      simp only [clock, stb, if_true, oreg]
    simp only [Option.toList_some]
    refine ⟨⟨ring, trivial⟩, ?_, ?_, ?_, ?_, ?_, ?_⟩
    · exact List.forall_mem_singleton.mpr we.symm
    · exact List.forall_mem_singleton.mpr lcl.symm
    · exact List.forall_mem_singleton.mpr fun _ => gie.symm
    all_goals
      intro b member
      rw [← Option.mem_some_iff.mp member]
      simp [clock, free, ask, op, addr, data]

variable (keeps : s.Keeps opt queue offered)
include keeps

/-- The ring after an answer, with the cell behind it written. -/
theorem Keeps.ring_clock (counts : s.Counts opt queue.length strobe) (off : opt.alignmentErr = false)
    (noErr : bus.err = false) (busy : s.cyc = true) (answers : bus.ack = true → 0 < queue.length)
    (fits : (Pipelined.rest queue bus.ack).length < 16) :
    Circular (s.clock opt i.cpu bus).fifo (s.clock opt i.cpu bus).rdaddr
      ((Pipelined.rest queue bus.ack ++ i.ask.toList).map kept) := by
  have ring : Circular s.fifo (s.clock opt i.cpu bus).rdaddr ((Pipelined.rest queue bus.ack).map kept) ∧
      s.wraddr = Circular.place (s.clock opt i.cpu bus).rdaddr ((Pipelined.rest queue bus.ack).map kept).length := by
    have whole := keeps.ring
    have wraddr := counts.wraddr
    cases ack : bus.ack with
    | false => exact ⟨by simpa [clock, flushes_off off noErr, ack] using whole,
        by simpa [clock, flushes_off off noErr, ack] using wraddr⟩
    | true =>
      cases queue with
      | nil => exact absurd (answers ack) (Nat.lt_irrefl 0)
      | cons a queue =>
        have next : (s.clock opt i.cpu bus).rdaddr = s.rdaddr + 1#4 := by
          simp [clock, flushes_off off noErr, ack, busy]
        rw [next]
        refine ⟨whole.2, ?_⟩
        rw [wraddr, List.length_cons, Circular.place_succ, Pipelined.rest_cons, List.length_map]
  obtain ⟨holds, place⟩ := ring
  have written : (s.clock opt i.cpu bus).fifo =
      Function.update s.fifo s.wraddr (i.cpu.oreg.extractLsb' 0 4 ++ sizeAndOffset i.cpu.op i.cpu.addr) := rfl
  rw [written, place]
  have kept_ := holds.update_next (i.cpu.oreg.extractLsb' 0 4 ++ sizeAndOffset i.cpu.op i.cpu.addr)
    (by rw [List.length_map]; exact fits)
  cases ask : i.ask with
  | none => simpa using kept_
  | some a =>
    obtain ⟨-, -, op, addr, -, oreg⟩ := Bench.cpu_asks ask
    rw [List.map_append]
    refine kept_.concat ?_
    rw [Function.update_self, op, addr, oreg]
    rfl

/-- The accesses of a run, with one answered and one asked for. -/
theorem Keeps.clock_busy (counts : s.Counts opt queue.length offered.isSome) (some_ : 0 < queue.length)
    (off : opt.alignmentErr = false) (noErr : bus.err = false)
    (answers : bus.ack = true → (offered.isSome && bus.stall).toNat < queue.length)
    (fits : (Pipelined.rest queue bus.ack).length < 16) (free : i.ask.isSome = true → s.pipeStalled bus = false)
    (alike : ∀ a ∈ i.ask, ∀ b ∈ queue, b.store = a.store ∧ lclBus opt b.addr = lclBus opt a.addr)
    (sets : ∀ a ∈ i.ask, ∀ b ∈ Pipelined.rest queue bus.ack, b.store = false →
      b.oreg.getLsbD 4 = a.oreg.getLsbD 4) :
    (s.clock opt i.cpu bus).Keeps opt (Pipelined.rest queue bus.ack ++ i.ask.toList)
      (i.ask.or (if bus.stall then offered else none)) := by
  have busy : s.cyc = true := counts.cyc.trans (decide_eq_true some_)
  have older : ∀ b ∈ Pipelined.rest queue bus.ack, b ∈ queue := by
    intro b member
    rw [← Pipelined.reply_rest queue bus.ack]
    exact List.mem_append_right _ member
  -- Some access of the run is still here; all others agree with it about the kind and the bus.
  obtain ⟨first, among⟩ := List.exists_mem_of_length_pos some_
  have we : (s.clock opt i.cpu bus).we = s.we := by simp [clock, busy]
  have gie : (s.clock opt i.cpu bus).gie = if i.ask.isSome then i.cpu.oreg.getLsbD 4 else s.gie := by simp [clock]
  have lcl : 0 < (Pipelined.rest queue bus.ack ++ i.ask.toList).length →
      (s.clock opt i.cpu bus).cycLcl = s.cycLcl := by
    intro further
    rw [(counts.cycle_busy busy (counts.ends off noErr)).2.2]
    rw [List.length_append, Pipelined.rest_length] at further
    cases ack : bus.ack <;> cases ask : i.ask <;> by_cases one : queue.length = 1 <;>
      simp [ack, ask, one] at further ⊢
  have answered : bus.ack = true → 0 < queue.length := fun ack => Nat.zero_lt_of_lt (answers ack)
  refine ⟨keeps.ring_clock counts off noErr busy answered fits, ?_, ?_, ?_, ?_, ?_, ?_⟩
  · intro b member
    rw [we]
    rcases List.mem_append.mp member with old | new
    · exact keeps.store b (older b old)
    · rw [← keeps.store first among]
      exact ((alike b (Option.mem_toList.mp new) first among).1).symm
  · intro b member
    rw [lcl (List.length_pos_of_mem member)]
    rcases List.mem_append.mp member with old | new
    · exact keeps.lcl b (older b old)
    · rw [← keeps.lcl first among]
      exact ((alike b (Option.mem_toList.mp new) first among).2).symm
  · intro b member load
    rw [gie]
    cases ask : i.ask with
    | none =>
      rw [ask] at member
      simp only [Option.toList_none, List.append_nil] at member
      exact keeps.gie b (older b member) load
    | some a =>
      obtain ⟨-, -, -, -, -, oreg⟩ := Bench.cpu_asks ask
      rw [oreg]
      rw [ask] at member
      rcases List.mem_append.mp member with old | new
      · exact sets a (Option.mem_def.mpr ask) b old load
      · rw [List.mem_singleton.mp new]
        rfl
  -- What is on the bus stays there while it is stalled; otherwise it is what is asked for now.
  all_goals
    intro b member
    cases ask : i.ask with
    | none =>
      rw [ask] at member
      cases stall : bus.stall with
      | false =>
        rw [stall] at member
        cases member
      | true =>
        rw [stall] at member
        first
          | simpa [clock, busy, stall] using keeps.addr b member
          | simpa [clock, busy, stall] using keeps.sel b member
          | simpa [clock, busy, stall] using keeps.data b member
    | some a =>
      obtain ⟨-, -, op, addr, data, -⟩ := Bench.cpu_asks ask
      rw [ask] at member
      cases member
      have stall := (counts.asked_strobe busy (free (by rw [ask]; rfl))).2.1
      simp [clock, busy, stall, ask, op, addr, data]

/-- The answer to the oldest access. -/
theorem Keeps.told {a : Access} {rest : List Access} (whole : queue = a :: rest) (off : opt.alignmentErr = false)
    (busy : s.cyc = true) (ack : bus.ack = true) (noErr : bus.err = false) :
    (s.clock opt i.cpu bus).valid = !a.store ∧ (s.clock opt i.cpu bus).err = false ∧
      (a.store = false → (s.clock opt i.cpu bus).wreg = a.oreg) ∧
      (s.clock opt i.cpu bus).result = extracted (sizeAndOffset a.op a.addr) bus.data := by
  have oldest : a ∈ queue := by rw [whole]; exact List.mem_cons_self
  have entry : s.entry = kept a := by
    have ring := keeps.ring
    rw [whole] at ring
    exact ring.1
  refine ⟨?_, ?_, fun load => ?_, ?_⟩
  · simp [clock, busy, ack, keeps.store a oldest]
  · simp [clock, noErr, misaligned_off off]
  · simp only [clock, entry, kept, ← keeps.gie a oldest load, Fields.first]
    rw [← Fields.bit]
    exact (@Fields.joined 1 4 5 a.oreg 0).trans BitVec.extractLsb'_eq_self
  · have key : (kept a).extractLsb' 0 4 = sizeAndOffset a.op a.addr := BitVec.extractLsb'_append_eq_right
    simp [clock, entry, key, busy, ack]

end Remembered

end Clock

end Pipemem

end IcoZip.LoadStore
