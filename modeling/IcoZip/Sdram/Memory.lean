import IcoZip.Library.Masked
import IcoZip.Sdram.Acks
import IcoZip.Sdram.Bench

/-! The controller and the simulator together are a memory with byte masks.

The requests that have been issued determine the content; what the pipelines of
both still hold is what the acknowledgements under way stand for.
-/

set_option autoImplicit false

namespace IcoZip.Sdram

open ShiftRegister

/-! ### The memory that the requests describe -/

/-- A request as an access to the four bytes of a word. -/
def Request.access (r : Request) : Masked.Access (BitVec 21) Nat (BitVec 8) where
  addr := r.addr
  lanes j := if r.we && r.sel.getLsbD j then some (Bytes.byte r.data j) else none

/-- The word that a history of requests leaves at an address: in each byte the value of the latest write
that selects it. -/
def expected (initial : BitVec 21 → BitVec 32) (history : List Request) (a : BitVec 21) : BitVec 32 :=
  Bytes.ofBytes fun j => Masked.latest (fun a j => Bytes.byte (initial a) j) (history.map Request.access) a j

theorem expected_nil (initial : BitVec 21 → BitVec 32) : expected initial [] = initial := by
  funext a
  exact Bytes.ofBytes_byte (initial a)

/-- What a request makes of a word. -/
def Request.applied (r : Request) (content : BitVec 21 → BitVec 32) : BitVec 21 → BitVec 32 :=
  if r.we then Function.update content r.addr (merge r.sel r.data (content r.addr)) else content

theorem expected_concat (initial : BitVec 21 → BitVec 32) (history : List Request) (r : Request) :
    expected initial (history ++ [r]) = r.applied (expected initial history) := by
  funext a
  rw [expected, List.map_append, List.map_singleton]
  simp only [Masked.latest_concat, Masked.Access.covers, Request.access]
  cases we : r.we with
  | false => simp [Request.applied, we, expected]
  | true =>
    by_cases same : r.addr = a
    · subst same
      rw [Request.applied, if_pos we, Function.update_self]
      refine Bytes.ofBytes_congr fun j small => ?_
      cases chosen : r.sel.getLsbD j
      · rw [expected, Bytes.byte_ofBytes _ small]
        simp
      · simp
    · rw [Request.applied, if_pos we, Function.update_of_ne (Ne.symm same)]
      simp [same, expected]

/-- The requests with the word that each of them finds. -/
def served (initial : BitVec 21 → BitVec 32) (history : List Request) : List Request → List (Request × BitVec 32)
  | [] => []
  | r :: rs => (r, expected initial history r.addr) :: served initial (history ++ [r]) rs

theorem served_append (initial : BitVec 21 → BitVec 32) (history rs ts : List Request) :
    served initial history (rs ++ ts) = served initial history rs ++ served initial (history ++ rs) ts := by
  induction rs generalizing history with
  | nil => simp [served]
  | cons r rs ih => simp [served, ih]

theorem length_served (initial : BitVec 21 → BitVec 32) (history rs : List Request) :
    (served initial history rs).length = rs.length := by
  induction rs generalizing history with
  | nil => rfl
  | cons r rs ih => simp [served, ih]

theorem served_get (initial : BitVec 21 → BitVec 32) (history rs : List Request) (k : Nat) :
    (served initial history rs)[k]? = rs[k]?.map fun r => (r, expected initial (history ++ rs.take k) r.addr) := by
  induction rs generalizing history k with
  | nil => rfl
  | cons r rs ih =>
    cases k with
    | zero => simp [served]
    | succ k => simp [served, ih]

/-! ### What is in the pipelines -/

namespace Bench

/-- The read data that will reach the upper half of `o_wb_data`, by the clocks it still takes. -/
def flow (s : Bench) : Nat → BitVec 16
  | 0 => s.core.lastRamData
  | 1 => s.core.ramDataIn
  | 2 => s.iRamData
  | n + 3 => s.sdram.qdata (s.sdram.qloc + 1 + BitVec.ofNat 4 n)

end Bench

theorem queue_apart : ∀ a : BitVec 4, ∀ n < 12, a + 1 + BitVec.ofNat 4 n ≠ a := by decide

theorem queue_read : ∀ a : BitVec 4, ∀ n < 2, a + 1 + BitVec.ofNat 4 n ≠ a + 3 ∧ a + 1 + BitVec.ofNat 4 n ≠ a + 4 := by
  decide

theorem queue_next : ∀ a : BitVec 4, ∀ n < 12, a + 1 + BitVec.ofNat 4 n = a + BitVec.ofNat 4 (n + 1) := by decide

namespace Bench

variable {s : Bench} {i : Wb}

/-- Read data moves on by a place, unless the data pins carry a write, or it is where a new read enters. -/
theorem flow_next {p : Nat} (bound : p < 15) (released : p = 2 → (s.core.pins' i (s.core.command i)).dmod = false)
    (ahead : s.core.command i = .read → p < 5) : (s.next i).flow p = s.flow (p + 1) := by
  match p with
  | 0 => rfl
  | 1 => rfl
  | 2 =>
    have result : (s.next i).flow 2 = (s.sdram.beat (s.core.pins' i (s.core.command i))).2 := rfl
    rw [result, beat_result, released rfl]
    simp [flow]
  | n + 3 =>
    have place : (s.next i).sdram.qloc = s.sdram.qloc + 1 := by
      have same : (s.next i).sdram.qloc = (s.sdram.beat (s.core.pins' i (s.core.command i))).1.qloc := by
        simp only [next]
        cases s.core.command i <;> rfl
      rw [same, beat_qloc]
    have old (q : BitVec 4) (apart : q ≠ s.sdram.qloc + 1) :
        (s.sdram.beat (s.core.pins' i (s.core.command i))).1.qdata q = s.sdram.qdata q := by
      rw [beat_qdata, Function.update_of_ne apart]
    have entry : (s.next i).sdram.qdata ((s.next i).sdram.qloc + 1 + BitVec.ofNat 4 n) =
        (s.sdram.beat (s.core.pins' i (s.core.command i))).1.qdata (s.sdram.qloc + 1 + 1 + BitVec.ofNat 4 n) := by
      rw [place]
      by_cases read : s.core.command i = .read
      · obtain ⟨third, fourth⟩ := queue_read (s.sdram.qloc + 1) n (by have := ahead read; omega)
        have pins := beat_qloc s.sdram (s.core.pins' i .read)
        simp only [next, read, issued, pins, Function.update_of_ne third, Function.update_of_ne fourth]
      · simp only [next]
        cases given : s.core.command i <;> first | rfl | exact absurd given read
    rw [flow, entry, old _ (queue_apart _ n (by omega)), flow, queue_next _ n (by omega)]

/-- The two halves of the word that a read finds enter the queue. -/
theorem flow_read (read : s.core.command i = .read) (idle : s.sdram.nextWr = false) :
    (s.next i).flow 5 = s.sdram.mem (half s.core.rAddr 0) ∧ (s.next i).flow 6 = s.sdram.mem (half s.core.rAddr 1) := by
  have mem := (beat_of_idle idle (s.core.pins' i .read)).1
  have places : ∀ a : BitVec 4, a + 1 + BitVec.ofNat 4 2 = a + 3 ∧ a + 1 + BitVec.ofNat 4 3 = a + 4 ∧
      a + 3 ≠ a + 4 := by
    decide
  have loc := beat_qloc s.sdram (s.core.pins' i .read)
  obtain ⟨third, fourth, apart⟩ := places (s.sdram.qloc + 1)
  constructor
  · simp only [flow, next, read, issued, loc, third, Function.update_of_ne apart, Function.update_self, mem]
  · simp only [flow, next, read, issued, loc, fourth, Function.update_self, mem]

end Bench

/-- The second half of a write is still to be stored, from the pins of the next clock. -/
structure HalfWritten (content : BitVec 21 → BitVec 32) (s : Bench) : Prop where
  place : s.sdram.wrAddr = half s.core.rAddr 1
  clocks : s.sdram.clocksTillIdle = 2
  we : s.core.rWe = true
  rest : Simulator.memval (s.sdram.mem (half s.core.rAddr 1)) (low s.core.rData) (~~~ s.core.rSel.extractLsb' 0 2) =
    low (content s.core.rAddr)

/-- The state of the two, when the issued requests have left `content` and the tags are those of the
acknowledgements under way. -/
structure Serves (content : BitVec 21 → BitVec 32) (tags : Nat → Option (Request × BitVec 32)) (s : Bench) : Prop where
  banks : Banks s
  paced : Paced s.core tags
  flows : ∀ p t, tags p = some t → t.1.we = false → s.flow p = high t.2 ∧ s.flow (p + 1) = low t.2
  beats : s.sdram.nextWr = s.core.nxtDmod
  upper : ∀ a, s.sdram.mem (half a 0) = high (content a)
  lower : ∀ a, (s.core.nxtDmod = true → a ≠ s.core.rAddr) → s.sdram.mem (half a 1) = low (content a)
  half : s.core.nxtDmod = true → HalfWritten content s
  driven : s.core.nxtDmod = true → ∀ p t, tags p = some t → t.1.we = false → p = 0

namespace Serves

variable {content : BitVec 21 → BitVec 32} {tags : Nat → Option (Request × BitVec 32)} {s : Bench} {i : Wb}

theorem tag_near (serves : Serves content tags s) {p : Nat} {t : Request × BitVec 32} (tag : tags p = some t) :
    p ≤ s.core.clocksTilIdle.toNat + 1 ∧ p < 6 := by
  constructor
  · by_contra far
    rw [serves.paced.near p (by omega)] at tag
    exact absurd tag (by simp)
  · by_contra far
    rw [serves.paced.marks.empty (BitVec.getLsbD_of_ge _ _ (by omega))] at tag
    exact absurd tag (by simp)

/-- What was in the pipeline before the clock. -/
theorem tag_before {t₀ t : Request × BitVec 32} {p : Nat} (unissued : slot (s.core.command i) = none)
    (tag : tagged s.core i t₀ tags p = some t) : tags (p + 1) = some t := by
  rw [tagged] at tag
  split_ifs at tag
  rw [unissued] at tag
  exact tag

theorem nxtDmod_next (s : Bench) (i : Wb) : (s.next i).core.nxtDmod = (s.core.command i == .write) := rfl

/-- The second beat of a write. -/
theorem next_of_half (serves : Serves content tags s) (dmod : s.core.nxtDmod = true) (t : Request × BitVec 32) :
    Serves content (tagged s.core i t tags) (s.next i) := by
  have given := Wbsdram.command_dmod (i := i) dmod
  have write : s.sdram.nextWr = true := serves.beats.trans dmod
  obtain ⟨place, clocks, we, rest⟩ := serves.half dmod
  obtain ⟨mem, done⟩ := beat_of_write write clocks (s.core.pins' i .noop)
  have pins : (s.core.pins' i .noop).data = low s.core.rData ∧
      (s.core.pins' i .noop).dqm = ~~~ s.core.rSel.extractLsb' 0 2 := by
    simp [Wbsdram.pins', dmod, we, low]
  -- the second beat stores the lower half word, masked
  have stored : (s.next i).sdram.mem = Function.update s.sdram.mem (Sdram.half s.core.rAddr 1)
      (low (content s.core.rAddr)) := by
    rw [← rest, ← place, ← pins.1, ← pins.2, ← mem]
    simp only [Bench.next, given, issued]
  have off : (s.next i).core.nxtDmod = false := by rw [nxtDmod_next, given]; rfl
  refine ⟨Bench.banks_next serves.banks i, serves.paced.step i s.iRamData t, ?_, ?_, fun a => ?_, fun a _ => ?_, ?_, ?_⟩
  · intro p t' tag read
    have before := tag_before (by rw [given]; rfl) tag
    exact absurd (serves.driven dmod _ _ before read) (by simp)
  · rw [off]
    simp only [Bench.next, given, issued, done]
  · rw [stored, Function.update_of_ne, serves.upper]
    exact fun same => absurd (half_inj same).2 (by decide)
  · rw [stored]
    by_cases same : a = s.core.rAddr
    · subst same
      rw [Function.update_self]
    · rw [Function.update_of_ne (fun place => same (half_inj place).1), serves.lower a (fun _ => same)]
  · rw [off]
    exact fun wrong => absurd wrong (by decide)
  · rw [off]
    exact fun wrong => absurd wrong (by decide)

/-- A clock in which nothing is issued and nothing half written. -/
theorem next_of_other (serves : Serves content tags s) (dmod : s.core.nxtDmod = false) (read : s.core.command i ≠ .read)
    (write : s.core.command i ≠ .write) (t : Request × BitVec 32) :
    Serves content (tagged s.core i t tags) (s.next i) := by
  obtain ⟨mem, done⟩ := beat_of_idle (serves.beats.trans dmod) (s.core.pins' i (s.core.command i))
  have stored : (s.next i).sdram.mem = s.sdram.mem ∧ (s.next i).sdram.nextWr = false := by
    rw [← mem, ← done]
    simp only [Bench.next]
    cases given : s.core.command i <;> first | exact ⟨rfl, rfl⟩ | exact absurd given read | exact absurd given write
  have released : (s.core.pins' i (s.core.command i)).dmod = false := by
    rw [← dmod]
    cases given : s.core.command i <;> first | rfl | exact absurd given write
  have off : (s.next i).core.nxtDmod = false := by
    rw [nxtDmod_next]
    simpa using write
  refine ⟨Bench.banks_next serves.banks i, serves.paced.step i s.iRamData t, ?_, stored.2.trans off.symm, fun a => ?_,
    fun a _ => ?_, ?_, ?_⟩
  · intro p t' tag is_read
    have before := tag_before (slot_none read write) tag
    obtain ⟨-, bound⟩ := serves.tag_near before
    rw [Bench.flow_next (by omega) (fun _ => released) (fun given => absurd given read),
      Bench.flow_next (by omega) (fun _ => released) (fun given => absurd given read)]
    exact serves.flows _ _ before is_read
  · rw [stored.1, serves.upper]
  · rw [stored.1]
    exact serves.lower a (fun on => absurd (dmod.symm.trans on) (by decide))
  · rw [off]
    exact fun wrong => absurd wrong (by decide)
  · rw [off]
    exact fun wrong => absurd wrong (by decide)

/-- A read takes the word with it. -/
theorem next_of_read (serves : Serves content tags s) (read : s.core.command i = .read) :
    Serves content (tagged s.core i (s.core.request, content s.core.rAddr) tags) (s.next i) := by
  have guard := Wbsdram.guard_command s.core i
  rw [read] at guard
  obtain ⟨⟨serving, -⟩, -, -, -, near⟩ := guard
  have dmod := serving.dmod
  have idle := serves.beats.trans dmod
  have soon : s.core.clocksTilIdle.toNat < 4 := BitVec.lt_def.mp near
  obtain ⟨mem, done⟩ := beat_of_idle idle (s.core.pins' i .read)
  have stored : (s.next i).sdram.mem = s.sdram.mem ∧ (s.next i).sdram.nextWr = false := by
    rw [← mem, ← done]
    simp only [Bench.next, read, issued]
    exact ⟨trivial, trivial⟩
  have released : (s.core.pins' i (s.core.command i)).dmod = false := by
    rw [read]
    exact dmod
  have off : (s.next i).core.nxtDmod = false := by rw [nxtDmod_next, read]; rfl
  have lower (a : BitVec 21) : s.sdram.mem (Sdram.half a 1) = low (content a) :=
    serves.lower a fun on => absurd (dmod.symm.trans on) (by decide)
  refine ⟨Bench.banks_next serves.banks i, serves.paced.step i s.iRamData _, ?_, stored.2.trans off.symm, fun a => ?_,
    fun a _ => ?_, ?_, ?_⟩
  · -- a new tag enters where the read starts, the older ones move one clock on
    intro p t' tag is_read
    simp only [tagged, serving.cyc, if_true, read, slot, Option.map_some, shift] at tag
    split_ifs at tag with entry
    · subst entry
      obtain rfl := Option.some.inj tag
      obtain ⟨five, six⟩ := Bench.flow_read read idle
      rw [five, six, serves.upper, lower]
      exact ⟨rfl, rfl⟩
    · obtain ⟨-, -⟩ := serves.tag_near tag
      have ahead : p + 1 ≤ s.core.clocksTilIdle.toNat + 1 := (serves.tag_near tag).1
      rw [Bench.flow_next (by omega) (fun _ => released) (fun _ => by omega),
        Bench.flow_next (by omega) (fun _ => released) (fun _ => by omega)]
      exact serves.flows _ _ tag is_read
  · rw [stored.1, serves.upper]
  · rw [stored.1, lower]
  · rw [off]
    exact fun wrong => absurd wrong (by decide)
  · rw [off]
    exact fun wrong => absurd wrong (by decide)

/-- The first beat of a write stores the upper half whole, so its unselected bytes must be those of the word. -/
theorem next_of_write (serves : Serves content tags s) (write : s.core.command i = .write)
    (harmless : high s.core.rData = high (merge s.core.rSel s.core.rData (content s.core.rAddr))) :
    Serves (s.core.request.applied content) (tagged s.core i (s.core.request, content s.core.rAddr) tags)
      (s.next i) := by
  have guard := Wbsdram.guard_command s.core i
  rw [write] at guard
  obtain ⟨⟨serving, stall⟩, we, -, -, ready⟩ := guard
  have dmod := serving.dmod
  have zero : s.core.clocksTilIdle.toNat = 0 := congrArg BitVec.toNat ready
  obtain ⟨heldWe, heldAddr, heldData, heldSel⟩ := Wbsdram.step_held stall i s.iRamData
  obtain ⟨mem, -⟩ := beat_of_idle (serves.beats.trans dmod) (s.core.pins' i .write)
  have stored : (s.next i).sdram.mem = Function.update s.sdram.mem (Sdram.half s.core.rAddr 0) (high s.core.rData) := by
    rw [← mem]
    simp only [Bench.next, write, issued]
  have on : (s.next i).core.nxtDmod = true := by rw [nxtDmod_next, write]; rfl
  have applied : s.core.request.applied content =
      Function.update content s.core.rAddr (merge s.core.rSel s.core.rData (content s.core.rAddr)) := if_pos we
  have lower (a : BitVec 21) : s.sdram.mem (Sdram.half a 1) = low (content a) :=
    serves.lower a fun wrong => absurd (dmod.symm.trans wrong) (by decide)
  have beside (a : BitVec 21) : (s.next i).sdram.mem (Sdram.half a 1) = low (content a) := by
    rw [stored, Function.update_of_ne (fun same => absurd (half_inj same).2 (by decide)), lower]
  -- the only tags behind this one's are at the output
  have order {p : Nat} {t' : Request × BitVec 32}
      (tag : tagged s.core i (s.core.request, content s.core.rAddr) tags p = some t') (is_read : t'.1.we = false) :
      p = 0 ∧ tags 1 = some t' := by
    simp only [tagged, serving.cyc, if_true, write, slot, Option.map_some, shift] at tag
    split_ifs at tag with entry
    · obtain rfl := Option.some.inj tag
      exact absurd (we.symm.trans is_read) (by decide)
    · obtain ⟨ahead, -⟩ := serves.tag_near tag
      obtain rfl : p = 0 := by omega
      exact ⟨rfl, tag⟩
  refine ⟨Bench.banks_next serves.banks i, serves.paced.step i s.iRamData _, ?_, ?_, fun a => ?_, fun a other => ?_,
      ?_, ?_⟩
  · intro p t' tag is_read
    obtain ⟨rfl, before⟩ := order tag is_read
    exact serves.flows 1 t' before is_read
  · rw [on]
    simp only [Bench.next, write, issued]
  · rw [stored, applied]
    by_cases same : a = s.core.rAddr
    · subst same
      rw [Function.update_self, Function.update_self, harmless]
    · rw [Function.update_of_ne (fun place => same (half_inj place).1), Function.update_of_ne same, serves.upper]
  · have elsewhere : a ≠ s.core.rAddr := fun same => other on (same.trans heldAddr.symm)
    rw [beside, applied, Function.update_of_ne elsewhere]
  · intro _
    have addr : (s.next i).core.rAddr = s.core.rAddr := heldAddr
    have data : (s.next i).core.rData = s.core.rData := heldData
    have sel : (s.next i).core.rSel = s.core.rSel := heldSel
    refine ⟨?_, ?_, heldWe.trans we, ?_⟩
    · rw [addr]
      simp only [Bench.next, write, issued]
    · simp only [Bench.next, write, issued]
    · rw [addr, data, sel, beside, applied, Function.update_self]
      exact memval_merge s.core.rSel s.core.rData (content s.core.rAddr) 0 (.inl rfl)
  · intro _ p t' tag is_read
    exact (order tag is_read).1

/-- One clock, which no assertion stops. -/
theorem next (serves : Serves content tags s) (i : Wb)
    (harmless : s.core.command i = .write → high s.core.rData = high
      (merge s.core.rSel s.core.rData (content s.core.rAddr))) :
    Serves (if s.core.command i = .read ∨ s.core.command i = .write then s.core.request.applied content else content)
      (tagged s.core i (s.core.request, content s.core.rAddr) tags) (s.next i) := by
  by_cases write : s.core.command i = .write
  · rw [if_pos (.inr write)]
    exact serves.next_of_write write (harmless write)
  · by_cases read : s.core.command i = .read
    · have guard := Wbsdram.guard_command s.core i
      rw [read] at guard
      have same : s.core.request.applied content = content := if_neg (by simp [Wbsdram.request, guard.2.1])
      rw [if_pos (.inl read), same]
      exact serves.next_of_read read
    · rw [if_neg (by simp [read, write])]
      cases dmod : s.core.nxtDmod with
      | true => exact serves.next_of_half dmod _
      | false => exact serves.next_of_other dmod read write _

end Serves

/-! ### Runs -/

/-- The bench with the requests it has accepted and the words it has acknowledged with. -/
structure Log where
  bench : Bench
  requests : List Request
  answers : List (BitVec 32)

namespace Log

/-- A clock, unless an assertion stops it. -/
def tick (log : Option Log) (i : Wb) : Option Log :=
  log.bind fun log => (log.bench.tick i).map fun bench =>
    { bench
      requests := log.requests ++ log.bench.core.accepted i
      answers := log.answers ++ if log.bench.core.wbAck then [log.bench.core.wbData] else [] }

/-- A condition on a clock, as long as no assertion has failed. -/
def Meets (ok : Log → Wb → Prop) (log : Option Log) (i : Wb) : Prop :=
  match log with
  | some log => ok log i
  | none => True

/-- The master holds the cycle as long as an acknowledgement is outstanding. -/
def Polite (log : Log) (i : Wb) : Prop := log.answers.length < log.requests.length → i.cyc = true

/-- In a request for a write, the bytes of the upper half word that are not selected are those of the word. -/
def Harmless (initial : BitVec 21 → BitVec 32) (log : Log) (i : Wb) : Prop :=
  log.bench.core.busCyc i = true → i.we = true → ∀ j ∈ [2, 3], i.sel.getLsbD j = false →
    Bytes.byte i.data j = Bytes.byte (expected initial log.requests i.addr) j

instance (log : Log) (i : Wb) : Decidable (Polite log i) := inferInstanceAs (Decidable (_ → _))

instance (initial : BitVec 21 → BitVec 32) (log : Log) (i : Wb) : Decidable (Harmless initial log i) :=
  inferInstanceAs (Decidable (_ → _))

instance (ok : Log → Wb → Prop) [∀ log i, Decidable (ok log i)] (log : Option Log) (i : Wb) :
    Decidable (Meets ok log i) :=
  match log with
  | some log => inferInstanceAs (Decidable (ok log i))
  | none => inferInstanceAs (Decidable True)

/-- The words in the memory of the simulator. -/
def content (s : Bench) (a : BitVec 21) : BitVec 32 := s.sdram.mem (half a 0) ++ s.sdram.mem (half a 1)

/-- The two after the start-up sequence. -/
structure Started (s : Bench) : Prop where
  quiet : Quiet s.core
  closed : ∀ b, s.sdram.bankStatus b = 0
  nextWr : s.sdram.nextWr = false

/-- What has been acknowledged, in `past`, and what is in the pipeline are the requests that were issued. -/
structure Faithful (initial : BitVec 21 → BitVec 32) (log : Log) (issued : List Request)
    (past : List (Request × BitVec 32)) (tags : Nat → Option (Request × BitVec 32)) : Prop where
  serves : Serves (expected initial issued) tags log.bench
  requests : log.requests = issued ++ log.bench.core.waiting
  line : past ++ line 6 tags = served initial [] issued
  answers : List.Forall₂ (fun t v => t.1.we = false → v = t.2) past log.answers
  harmless : log.bench.core.pending = true → log.bench.core.rWe = true →
    high log.bench.core.rData =
      high (merge log.bench.core.rSel log.bench.core.rData (expected initial issued log.bench.core.rAddr))

theorem high_merge {sel : BitVec 4} {data old : BitVec 32}
    (same : ∀ j ∈ [2, 3], sel.getLsbD j = false → Bytes.byte data j = Bytes.byte old j) :
    high data = high (merge sel data old) := by
  apply BitVec.eq_of_getLsbD_eq
  intro i bound
  simp only [high, BitVec.getLsbD_extractLsb', bound, decide_true, Bool.true_and]
  rw [merge_bit _ _ _ (by omega)]
  split_ifs with chosen
  · rfl
  · have bits := congrArg (fun b => b.getLsbD ((16 + i) % 8)) (same ((16 + i) / 8) (by simp; omega)
      (by simpa using chosen))
    simpa [Bytes.getLsbD_byte] using bits

variable {initial : BitVec 21 → BitVec 32} {log : Log} {issued : List Request}
  {past : List (Request × BitVec 32)} {tags : Nat → Option (Request × BitVec 32)}

theorem faithful_start {s : Bench} (started : Started s) :
    Faithful (content s) ⟨s, [], []⟩ [] [] fun _ => none := by
  have dmod := started.quiet.nxtDmod
  have off {P : Prop} (on : s.core.nxtDmod = true) : P := absurd (dmod.symm.trans on) (by decide)
  have waiting : s.core.pending = false := by simp [Wbsdram.pending, started.quiet.rPending]
  refine ⟨⟨⟨fun b => ?_, fun b active => ?_, fun found => ?_⟩, paced_quiet started.quiet, ?_, ?_, fun a => ?_,
      fun a _ => ?_,
    off, off⟩, ?_, ?_, List.Forall₂.nil, ?_⟩
  · rw [started.closed, started.quiet.bankActive]
  · rw [started.quiet.bankActive] at active
    exact absurd active (by decide)
  · rw [started.quiet.rBankValid] at found
    exact absurd found (by decide)
  · exact fun _ _ wrong => absurd wrong (by simp)
  · rw [started.nextWr, dmod]
  · rw [expected_nil, content, high_append]
  · rw [expected_nil, content, low_append]
  · simp [Wbsdram.waiting, waiting]
  · rw [line_empty fun _ => rfl]
    rfl
  · rw [waiting]
    exact fun wrong => absurd wrong (by decide)

/-- Without a cycle everything accepted has been issued and acknowledged. -/
theorem Faithful.idle (faithful : Faithful initial log issued past tags) {i : Wb} (polite : Polite log i)
    (cyc : i.cyc = false) : log.bench.core.waiting = [] ∧ ShiftRegister.line 6 tags = [] := by
  have settled : ¬ log.answers.length < log.requests.length := fun less => by
    rw [polite less] at cyc
    exact absurd cyc (by decide)
  have total := congrArg List.length faithful.line
  have pairs := faithful.answers.length_eq
  rw [List.length_append, length_served] at total
  rw [faithful.requests, List.length_append] at settled
  constructor
  · exact List.eq_nil_of_length_eq_zero (by omega)
  · exact List.eq_nil_of_length_eq_zero (by omega)

/-- The tag at the output is the request that is acknowledged, and the answer to a read the word it found. -/
theorem Faithful.answer (faithful : Faithful initial log issued past tags) :
    List.Forall₂ (fun t v => t.1.we = false → v = t.2) (past ++ (tags 0).toList)
      (log.answers ++ if log.bench.core.wbAck then [log.bench.core.wbData] else []) := by
  have flag := faithful.serves.paced.marks 0
  have ack : log.bench.core.wbAck = (tags 0).isSome := flag.symm
  refine List.rel_append faithful.answers ?_
  rw [ack]
  cases tag : tags 0 with
  | none => exact List.Forall₂.nil
  | some t =>
    refine List.Forall₂.cons (fun read => ?_) List.Forall₂.nil
    obtain ⟨upper, lower⟩ := faithful.serves.flows 0 t tag read
    have word : log.bench.core.wbData = log.bench.flow 0 ++ log.bench.flow 1 := rfl
    rw [word, upper, lower, high_low]

/-- One clock of a polite master whose writes are harmless. -/
theorem Faithful.step (faithful : Faithful initial log issued past tags) {i : Wb} (polite : Polite log i)
    (harmless : Harmless initial log i) :
    ∃ log' issued' past' tags', tick (some log) i = some log' ∧ Faithful initial log' issued' past' tags' := by
  obtain ⟨serves, requests, pipeline, -, waits⟩ := id faithful
  have serves' := serves.next i fun write => by
    have guard := Wbsdram.guard_command log.bench.core i
    rw [write] at guard
    have pending : log.bench.core.pending = true := by simp [Wbsdram.pending, guard.1.1.pending, guard.1.2]
    exact waits pending guard.2.1
  have ticks : tick (some log) i = some
      { bench := log.bench.next i
        requests := log.requests ++ log.bench.core.accepted i
        answers := log.answers ++ if log.bench.core.wbAck then [log.bench.core.wbData] else [] } := by
    simp [tick, Bench.tick_eq serves.banks i]
  -- what this clock issues
  let now := if log.bench.core.command i = .read ∨ log.bench.core.command i = .write then [log.bench.core.request]
    else []
  refine ⟨_, issued ++ now, past ++ (tags 0).toList,
    tagged log.bench.core i (log.bench.core.request, expected initial issued log.bench.core.rAddr) tags, ticks, ?_⟩
  have paced := serves.paced
  have content : expected initial (issued ++ now) =
      if log.bench.core.command i = .read ∨ log.bench.core.command i = .write then
        log.bench.core.request.applied (expected initial issued) else expected initial issued := by
    simp only [now]
    split_ifs
    · exact expected_concat initial issued _
    · rw [List.append_nil]
  have moves : log.bench.core.waiting ++ log.bench.core.accepted i = now ++ (log.bench.next i).core.waiting ∧
      (tags 0).toList ++ ShiftRegister.line 6 (tagged log.bench.core i
        (log.bench.core.request, expected initial issued log.bench.core.rAddr) tags) =
      ShiftRegister.line 6 tags ++ now.map fun r => (r, expected initial issued r.addr) := by
    cases cyc : i.cyc with
    | true =>
      have issue := issued_step paced.access cyc log.bench.iRamData
      have moved := paced.line_step cyc (log.bench.core.request, expected initial issued log.bench.core.rAddr)
      rw [accessCmd_step] at issue
      simp only [now]
      constructor
      · rw [← issue]
        simp [Bench.next]
      · rw [moved]
        split_ifs <;> rfl
    | false =>
      obtain ⟨waiting, empty⟩ := faithful.idle polite cyc
      have unissued : ¬ (log.bench.core.command i = .read ∨ log.bench.core.command i = .write) := fun given => by
        rw [(waits_of_access given).1] at cyc
        exact absurd cyc (by decide)
      have closed : log.bench.core.busCyc i = false := by simp [Wbsdram.busCyc, cyc]
      have none : (log.bench.next i).core.waiting = [] := by
        rw [waiting_nil, Bool.eq_false_iff]
        intro pending
        obtain ⟨-, taken | ⟨-, waited⟩⟩ := pending_step paced.access pending
        · exact absurd (closed.symm.trans taken) (by decide)
        · exact absurd ((waiting_nil.mp waiting).symm.trans waited) (by decide)
      have out : (tags 0).toList = [] := by
        rw [line_head] at empty
        exact (List.append_eq_nil_iff.mp empty).1
      simp only [now, if_neg unissued]
      constructor
      · rw [waiting, none, Wbsdram.accepted, closed]
        rfl
      · rw [out, empty, tagged, if_neg (by simp [cyc]), line_empty fun _ => rfl]
        rfl
  refine ⟨?_, ?_, ?_, faithful.answer, ?_⟩
  · rw [content]
    exact serves'
  · rw [requests, List.append_assoc, moves.1, List.append_assoc]
  · rw [List.append_assoc, moves.2, ← List.append_assoc, pipeline, served_append, List.nil_append]
    congr 1
    simp only [now]
    split_ifs <;> rfl
  · intro pending we
    obtain ⟨unissued, taken | ⟨free, waited⟩⟩ := pending_step paced.access pending
    · have now_nil : now = [] := if_neg unissued
      have free : log.bench.core.waiting = [] := by
        rw [waiting_nil, Wbsdram.pending]
        have stall : log.bench.core.stall = false := by
          simpa [Wbsdram.busCyc] using (Bool.and_eq_true_iff.mp taken).2
        rw [stall, Bool.and_false]
      have latched : (log.bench.next i).core.request = i.request := by
        simp [Bench.next, Wbsdram.request, Wb.request, Wbsdram.step, taken]
      simp only [Wbsdram.request, Wb.request, Request.mk.injEq] at latched
      obtain ⟨weEq, addrEq, dataEq, selEq⟩ := latched
      rw [now_nil, List.append_nil]
      simp only [weEq, addrEq, dataEq, selEq] at we ⊢
      rw [free, List.append_nil] at requests
      exact high_merge (requests ▸ harmless taken we)
    · have now_nil : now = [] := if_neg unissued
      have held : (log.bench.next i).core.request = log.bench.core.request := by
        simp [Bench.next, Wbsdram.request, Wbsdram.step, free]
      simp only [Wbsdram.request, Request.mk.injEq] at held
      obtain ⟨weEq, addrEq, dataEq, selEq⟩ := held
      rw [now_nil, List.append_nil]
      simp only [weEq, addrEq, dataEq, selEq] at we ⊢
      exact waits waited we

def first (s : Bench) : Option Log := some ⟨s, [], []⟩

/-- No assertion fails, and every acknowledged read returns in each byte what the latest earlier write that
selects it has put there, as long as the bytes of the upper half word that a write does not select are those
the word already holds. -/
theorem reads_latest (s : Bench) (started : Started s) (is : List Wb)
    (polite : Clocked.Always tick (Meets Polite) (first s) is)
    (harmless : Clocked.Always tick (Meets (Harmless (content s))) (first s) is) :
    ∃ log, Clocked.run tick (first s) is = some log ∧ log.answers.length ≤ log.requests.length ∧
      ∀ (k : Nat) (r : Request) (v : BitVec 32), log.requests[k]? = some r → r.we = false → log.answers[k]? = some v →
        v = expected (content s) (log.requests.take k) r.addr := by
  let inv (log : Option Log) : Prop :=
    ∃ found issued past tags, log = some found ∧ Faithful (content s) found issued past tags
  have kept (log : Option Log) (i : Wb) (holds : inv log)
      (meets : Meets Polite log i ∧ Meets (Harmless (content s)) log i) : inv (tick log i) := by
    obtain ⟨found, issued, past, tags, rfl, faithful⟩ := holds
    exact faithful.step meets.1 meets.2
  have start : inv (first s) := ⟨_, _, _, _, rfl, faithful_start started⟩
  obtain ⟨log, issued, past, tags, ends, faithful⟩ := Clocked.run_invariant kept start (polite.and harmless)
  have total := congrArg List.length faithful.line
  have pairs := faithful.answers.length_eq
  rw [List.length_append, length_served] at total
  refine ⟨log, ends, ?_, fun k r v request read answer => ?_⟩
  · rw [faithful.requests, List.length_append]
    omega
  · obtain ⟨inside, value⟩ := List.getElem?_eq_some_iff.mp answer
    have earlier : k < past.length := by omega
    have early : k < issued.length := by omega
    -- the answer is the one to the request that was issued in this place
    have place : past[k]? = issued[k]?.map fun r => (r, expected (content s) (issued.take k) r.addr) := by
      rw [← List.getElem?_append_left earlier, faithful.line, served_get, List.nil_append]
    have same : issued[k]? = some r := by
      rw [← request, faithful.requests, List.getElem?_append_left early]
    have history : log.requests.take k = issued.take k := by
      rw [faithful.requests, List.take_append_of_le_length (by omega)]
    rw [same, Option.map_some] at place
    obtain ⟨_, tag⟩ := List.getElem?_eq_some_iff.mp place
    have word := List.forall₂_iff_get.mp faithful.answers |>.2 k earlier inside
    simp only [List.get_eq_getElem, tag, value] at word
    rw [history]
    exact word read

/-- A memory of zeroes behind a controller that is through its start-up. -/
def zeroes : Bench where
  core := { blank with refreshClk := 600 }
  sdram :=
    { mem := fun _ => 0, bankStatus := fun _ => 0, bankRow := fun _ => 0, qdata := fun _ => 0, qloc := 0, wrAddr := 0
      clocksTillIdle := 0, nextWr := false }
  iRamData := 0

theorem zeroes_started : Started zeroes := ⟨⟨fun _ => rfl, rfl, rfl, rfl, rfl, rfl, rfl, rfl⟩, fun _ => rfl, rfl⟩

/-- A write to word 0, then a read from it, each held until it is accepted. -/
def writeRead (data : BitVec 32) (sel : BitVec 4) : List Wb :=
  let idle : Wb := ⟨true, false, false, 0, 0, 0⟩
  [idle, ⟨true, true, true, 0, data, sel⟩] ++ List.replicate 5
    ⟨true, true, false, 0, 0, 0b1111⟩ ++ List.replicate 12 idle

theorem reads_latest_writeRead :
    ∃ log, Clocked.run tick (first zeroes) (writeRead 0xaabbccdd 0b1101) = some log ∧
      log.answers.length ≤ log.requests.length ∧
      ∀ (k : Nat) (r : Request) (v : BitVec 32), log.requests[k]? = some r → r.we = false → log.answers[k]? = some v →
        v = expected (content zeroes) (log.requests.take k) r.addr :=
  reads_latest zeroes zeroes_started (writeRead 0xaabbccdd 0b1101) (by decide +kernel) (by decide +kernel)

/-- A write that selects only the lowest byte stores the whole upper half word. -/
theorem upper_half_unmasked :
    Clocked.Always tick (Meets Polite) (first zeroes) (writeRead 0xaabbccdd 0b0001) ∧
    ((Clocked.run tick (first zeroes) (writeRead 0xaabbccdd 0b0001)).map fun log =>
      (log.requests, log.answers[1]?, expected (content zeroes) (log.requests.take 1) 0)) =
      some ([⟨true, 0, 0xaabbccdd, 0b0001⟩, ⟨false, 0, 0, 0b1111⟩], some 0xaabb00dd, 0x000000dd) := by
  decide +kernel

end Log

end IcoZip.Sdram
