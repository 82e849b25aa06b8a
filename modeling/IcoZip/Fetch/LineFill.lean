import IcoZip.Fetch.Pfcache
import Mathlib.Data.List.Range

/-! The loading of a line of `pfcache`: its words are requested in order, and each that is
answered is stored in its place.
-/

set_option autoImplicit false

namespace IcoZip.Fetch

namespace Pfcache

variable {tg lg ls d : Nat}

/-- Word `n` of a line. -/
def nth (l : BitVec (tg + lg)) (n : Nat) : BitVec (tg + lg + ls) := l ++ BitVec.ofNat ls n

/-- Words `n` to `r` of a line. -/
def words (ls : Nat) (l : BitVec (tg + lg)) (n r : Nat) : List (BitVec (tg + lg + ls)) :=
  (List.range' n (r - n)).map (nth l)

/-- A line is being loaded: `r` of its words have been requested, and `n` have been answered. -/
structure Fill (mem : Memory (tg + lg + ls) d) (waiting : List (BitVec (tg + lg + ls))) (r n : Nat)
    (s : Pfcache tg lg ls d) : Prop where
  order : n ≤ r
  requests : r ≤ 2 ^ ls
  more : n < 2 ^ ls
  stb : s.stb = decide (r < 2 ^ ls)
  addr : s.addr = nth (line s.addr) (min r (2 ^ ls - 1))
  wraddr : s.wraddr = index s.addr ++ BitVec.ofNat ls n
  lastAddr : s.stb = true → s.lastAddr = decide (r + 1 = 2 ^ ls)
  lastAck : s.lastAck = decide (n + 1 = 2 ^ ls)
  waiting : waiting = words ls (line s.addr) n r
  tags : 0 < n → s.tags (index s.addr) = tag s.addr
  loaded : ∀ a, line a = line s.addr → (offset a).toNat < n → mem a = some (s.cache (cell a))
  unmasked : s.validMask (index s.addr) = false

section
variable (l : BitVec (tg + lg)) {n r : Nat}

@[simp] theorem line_nth : line (@nth tg lg ls l n) = l := line_append l _

theorem offset_nth (inside : n < 2 ^ ls) : (offset (@nth tg lg ls l n)).toNat = n := by
  rw [nth, offset_append, BitVec.toNat_ofNat, Nat.mod_eq_of_lt inside]

theorem eq_nth {a : BitVec (tg + lg + ls)} (place : (offset a).toNat = n) : a = nth (line a) n := by
  rw [nth, ← place, BitVec.ofNat_toNat, BitVec.setWidth_eq, line_offset]

theorem words_cons (some_ : n < r) : words ls l n r = nth l n :: words ls l (n + 1) r := by
  obtain ⟨k, rfl⟩ := Nat.exists_eq_add_of_lt some_
  rw [words, words, show n + k + 1 - n = k + 1 by omega, show n + k + 1 - (n + 1) = k by omega, List.range'_succ]
  rfl

theorem words_concat (order : n ≤ r) : words ls l n (r + 1) = words ls l n r ++ [nth l r] := by
  rw [words, words, show r + 1 - n = r - n + 1 by omega, List.range'_concat, List.map_append, Nat.one_mul,
    Nat.add_sub_cancel' order]
  rfl

end

/-! ### The slave -/

section Slave
variable {mem : Memory (tg + lg + ls) d} {x : Bench (pfcache tg lg ls d)} {i : Inputs (tg + lg + ls) d} {n r : Nat}

/-- How many words have been requested behind this clock. -/
def asked (s : Pfcache tg lg ls d) (stall : Bool) (r : Nat) : Nat := r + (s.stb && !stall).toNat

theorem Fill.outstanding (fill : Fill mem x.waiting r n x.core) (cyc : x.core.cyc = true) :
    x.outstanding i = words ls (line x.core.addr) n (asked x.core i.stall r) := by
  have on : ((pfcache tg lg ls d).pins x.core).cyc = true := cyc
  have accepted : x.accepted i = if x.core.stb && !i.stall then [x.core.addr] else [] := by
    rw [Bench.accepted, on, Bool.true_and]
    rfl
  rw [Bench.outstanding, if_pos on, accepted, fill.waiting, asked]
  cases asks : x.core.stb && !i.stall with
  | false => simp
  | true =>
    have open_ : r < 2 ^ ls := by
      have stb := (Bool.and_eq_true _ _ ▸ asks).1
      rw [fill.stb] at stb
      exact of_decide_eq_true stb
    have addr : x.core.addr = nth (line x.core.addr) r := by
      have whole := fill.addr
      rwa [Nat.min_eq_left (by omega)] at whole
    rw [if_pos rfl, Bool.toNat_true, words_concat _ fill.order, ← addr]

/-- Nothing is answered while the cycle is not on. -/
theorem idle_bus (cyc : x.core.cyc = false) :
    x.bus mem i = ⟨i.stall, false, false, i.float⟩ ∧ (x.step mem i).waiting = [] := by
  have none : x.outstanding i = [] := Bench.outstanding_idle cyc i
  refine ⟨Bench.bus_none (by rw [Bench.reply, none, Pipelined.reply_nil]), ?_⟩
  rw [Bench.step, none]
  exact Pipelined.rest_nil _

/-- The words come in order. -/
theorem Fill.served (fill : Fill mem x.waiting r n x.core) (cyc : x.core.cyc = true) :
    x.bus mem i = ⟨i.stall, false, false, i.float⟩ ∧
        (x.step mem i).waiting = words ls (line x.core.addr) n (asked x.core i.stall r) ∨
      n < asked x.core i.stall r ∧
        ((∃ v, mem (nth (line x.core.addr) n) = some v ∧ x.bus mem i = ⟨i.stall, true, false, v⟩ ∧
            (x.step mem i).waiting = words ls (line x.core.addr) (n + 1) (asked x.core i.stall r)) ∨
          mem (nth (line x.core.addr) n) = none ∧ x.reply i = some (nth (line x.core.addr) n) ∧
            x.bus mem i = ⟨i.stall, false, true, i.float⟩) := by
  have outstanding := @Fill.outstanding tg lg ls d mem x i n r fill cyc
  have waiting : (x.step mem i).waiting =
      Pipelined.rest (words ls (line x.core.addr) n (asked x.core i.stall r)) i.answer := by
    rw [← outstanding]
    rfl
  have reply : x.reply i = Pipelined.reply (words ls (line x.core.addr) n (asked x.core i.stall r)) i.answer := by
    rw [← outstanding]
    rfl
  by_cases some_ : n < asked x.core i.stall r
  · rw [words_cons _ some_] at waiting reply
    cases answer : i.answer with
    | false =>
      rw [answer] at waiting reply
      refine .inl ⟨Bench.bus_none reply, ?_⟩
      rw [waiting, words_cons _ some_]
      rfl
    | true =>
      rw [answer] at waiting reply
      have bus := @Bench.bus_some _ _ _ mem x i _ reply
      refine .inr ⟨some_, ?_⟩
      cases word_ : mem (nth (line x.core.addr) n) with
      | none =>
        rw [word_] at bus
        exact .inr ⟨rfl, reply, bus⟩
      | some v =>
        rw [word_] at bus
        exact .inl ⟨v, rfl, bus, waiting⟩
  · have empty : words ls (line x.core.addr) n (asked x.core i.stall r) = [] := by
      rw [words, Nat.sub_eq_zero_of_le (by omega)]
      rfl
    rw [empty] at waiting reply
    refine .inl ⟨Bench.bus_none (reply.trans (Pipelined.reply_nil _)), ?_⟩
    rw [waiting, empty, Pipelined.rest_nil]

end Slave

/-! ### A clock -/

section Clock
variable {mem : Memory (tg + lg + ls) d} {waiting : List (BitVec (tg + lg + ls))} {s : Pfcache tg lg ls d}
  {c : Cpu (tg + lg + ls)} {b : Bus d} {n r : Nat}

/-- The requests, one after another. -/
theorem Fill.requested (fill : Fill mem waiting r n s) (some_ : 0 < ls) (cyc : s.cyc = true) (reset : c.reset = false)
    (clear : c.clearCache = false) (noErr : b.err = false) :
    asked s b.stall r ≤ 2 ^ ls ∧ (s.clock c b).stb = decide (asked s b.stall r < 2 ^ ls) ∧
      (s.clock c b).addr = nth (line s.addr) (min (asked s b.stall r) (2 ^ ls - 1)) ∧
      ((s.clock c b).stb = true → (s.clock c b).lastAddr = decide (asked s b.stall r + 1 = 2 ^ ls)) := by
  obtain ⟨-, requests, -, strobe, addr, -, lastAddr, -, -, -, -, -⟩ := fill
  have stb : (s.clock c b).stb = (s.stb && !(!b.stall && s.lastAddr)) := by
    simp only [clock, reset, clear, cyc, noErr]
    cases s.stb <;> cases b.stall <;> cases s.lastAddr <;> rfl
  have addr' : (s.clock c b).addr =
      if s.stb && !b.stall && !s.lastAddr then line s.addr ++ (offset s.addr + 1) else s.addr := by
    simp only [clock, cyc]
    rfl
  have near : (s.clock c b).lastAddr = (nearEnd ls s.addr && (!b.stall || s.addr.getLsbD 0) || s.lastAddr) := by
    simp only [clock, cyc]
    cases nearEnd ls s.addr && (!b.stall || s.addr.getLsbD 0) <;> rfl
  rw [stb, addr', near, asked]
  -- the address stays behind the last request
  by_cases open_ : r < 2 ^ ls
  · have on : s.stb = true := strobe.trans (decide_eq_true open_)
    have here : s.addr = nth (line s.addr) r := by
      rwa [Nat.min_eq_left (by omega)] at addr
    have ends := nearEnd_cell (line s.addr) some_ open_ (!b.stall)
    rw [show line s.addr ++ BitVec.ofNat ls r = s.addr from here.symm] at ends
    rw [ends, on, lastAddr on]
    cases b.stall with
    | true =>
      refine ⟨requests, ?_, ?_, fun _ => ?_⟩
      · simp [open_]
      · simpa using addr
      · simp
    | false =>
      by_cases last : r + 1 = 2 ^ ls
      · refine ⟨by simp [last], by simp [last], ?_, by simp [last]⟩
        have here' : s.addr = nth (line s.addr) (2 ^ ls - 1) := by rwa [show 2 ^ ls - 1 = r by omega]
        simpa [last] using here'
      · have next : offset s.addr + 1#(ls) = BitVec.ofNat ls (r + 1) := by
          rw [here, nth, offset_append, BitVec.ofNat_add]
        have inside : min (r + 1) (2 ^ ls - 1) = r + 1 := by omega
        refine ⟨by simp; omega, by simp [last]; omega, ?_, by simp [last]⟩
        simp [last, next, inside, nth]
  · have off : s.stb = false := strobe.trans (decide_eq_false open_)
    refine ⟨by simp [off, requests], by simp [off, open_], ?_, by simp [off]⟩
    simpa [off] using addr

/-- A word that is stored leaves those before it, and the other lines, alone. -/
theorem Fill.cache_clock (fill : Fill mem waiting r n s) (cyc : s.cyc = true) {a : BitVec (tg + lg + ls)}
    (other : index a ≠ index s.addr ∨ (offset a).toNat ≠ n) : (s.clock c b).cache (cell a) = s.cache (cell a) := by
  have written : (s.clock c b).cache = Function.update s.cache s.wraddr b.data := by simp [clock, cyc]
  have place : s.wraddr = cell (nth (line s.addr) n) := by
    rw [fill.wraddr, cell_eq, nth, offset_append, index_eq (line s.addr ++ _), line_append, ← index_eq]
  rw [written, Function.update_of_ne]
  intro same
  rw [place] at same
  obtain ⟨indices, offsets⟩ := cell_inj same
  rcases other with differs | differs
  · exact differs (indices.trans (index_congr (line_nth _)))
  · exact differs (by rw [offsets, offset_nth _ fill.more])

/-- The words that have been answered. -/
theorem Fill.loaded_clock (fill : Fill mem waiting r n s) (cyc : s.cyc = true) {a : BitVec (tg + lg + ls)}
    (same : line a = line s.addr) (before : (offset a).toNat < n) : mem a = some ((s.clock c b).cache (cell a)) := by
  rw [fill.cache_clock cyc (.inr before.ne)]
  exact fill.loaded a same before

/-- And the one that is. -/
theorem Fill.word_clock (fill : Fill mem waiting r n s) (cyc : s.cyc = true)
    (word_ : mem (nth (line s.addr) n) = some b.data) {a : BitVec (tg + lg + ls)}
    (same : line a = line s.addr) (before : (offset a).toNat < n + 1) :
    mem a = some ((s.clock c b).cache (cell a)) := by
  rcases Nat.lt_succ_iff_lt_or_eq.mp before with earlier | now
  · exact fill.loaded_clock cyc same earlier
  · have written : (s.clock c b).cache = Function.update s.cache s.wraddr b.data := by simp [clock, cyc]
    have address : a = nth (line s.addr) n := same ▸ eq_nth now
    have place : cell a = s.wraddr := by
      rw [fill.wraddr, cell_eq, index_congr same, address, nth, offset_append]
    rw [written, place, Function.update_self, address, word_]

/-- What the requests leave alone. -/
theorem Fill.line_clock (fill : Fill mem waiting r n s) (some_ : 0 < ls) (cyc : s.cyc = true) (reset : c.reset = false)
    (clear : c.clearCache = false) (noErr : b.err = false) :
    line (s.clock c b).addr = line s.addr ∧ index (s.clock c b).addr = index s.addr ∧
      tag (s.clock c b).addr = tag s.addr := by
  have same : line (s.clock c b).addr = line s.addr := by
    rw [(fill.requested some_ cyc reset clear noErr).2.2.1, line_nth]
  exact ⟨same, index_congr same, tag_congr same⟩

theorem Fill.lastAck_clock (fill : Fill mem waiting r n s) (some_ : 0 < ls) (cyc : s.cyc = true) :
    (s.clock c b).lastAck = (decide (n + 1 = 2 ^ ls) || decide (n + 2 = 2 ^ ls) && b.ack) := by
  rw [← nearEnd_cell (index s.addr) some_ fill.more b.ack, ← fill.wraddr, Bool.or_comm b.ack]
  simp only [clock, cyc, Bool.true_and]

/-- No word is answered. -/
theorem Fill.clock_waits (fill : Fill mem waiting r n s) (some_ : 0 < ls) (cyc : s.cyc = true) (reset : c.reset = false)
    (clear : c.clearCache = false) (noAck : b.ack = false) (noErr : b.err = false) (still : s.svmask = false) :
    (s.clock c b).cyc = true ∧
      Fill mem (words ls (line s.addr) n (asked s b.stall r)) (asked s b.stall r) n (s.clock c b) := by
  obtain ⟨requests, stb, addr, lastAddr⟩ := @Fill.requested _ _ _ _ _ _ _ c b _ _ fill some_ cyc reset clear noErr
  obtain ⟨line_, index_, tag_⟩ := @Fill.line_clock _ _ _ _ _ _ _ c b _ _ fill some_ cyc reset clear noErr
  refine ⟨by simp [clock, reset, clear, cyc, noAck, noErr], ?_, requests, fill.more, stb, ?_, ?_, lastAddr, ?_, ?_, ?_,
    fun a same before => ?_, ?_⟩
  · exact Nat.le_trans fill.order (Nat.le_add_right _ _)
  · rw [line_]
    exact addr
  · rw [index_, ← fill.wraddr]
    simp [clock, cyc, noAck]
  · rw [fill.lastAck_clock some_ cyc, noAck, Bool.and_false, Bool.or_false]
  · rw [line_]
  · rw [index_, tag_]
    simpa [clock, noAck] using fill.tags
  · exact fill.loaded_clock cyc (same.trans line_) before
  · rw [index_]
    simpa [clock, reset, clear, cyc, still] using fill.unmasked

/-- A word that is not the last one is answered. -/
theorem Fill.clock_word (fill : Fill mem waiting r n s) (some_ : 0 < ls) (cyc : s.cyc = true) (reset : c.reset = false)
    (clear : c.clearCache = false) (ack : b.ack = true) (noErr : b.err = false) (still : s.svmask = false)
    (further : n + 1 < 2 ^ ls) (accepted : n < asked s b.stall r) (word_ : mem (nth (line s.addr) n) = some b.data) :
    (s.clock c b).cyc = true ∧
      Fill mem (words ls (line s.addr) (n + 1) (asked s b.stall r)) (asked s b.stall r) (n + 1) (s.clock c b) := by
  obtain ⟨requests, stb, addr, lastAddr⟩ := @Fill.requested _ _ _ _ _ _ _ c b _ _ fill some_ cyc reset clear noErr
  obtain ⟨line_, index_, tag_⟩ := @Fill.line_clock _ _ _ _ _ _ _ c b _ _ fill some_ cyc reset clear noErr
  have notLast : s.lastAck = false := fill.lastAck.trans (decide_eq_false further.ne)
  refine ⟨by simp [clock, reset, clear, cyc, notLast, noErr], accepted, requests, further, stb, ?_, ?_, lastAddr, ?_,
    ?_, fun _ => ?_, fun a same before => ?_, ?_⟩
  · rw [line_]
    exact addr
  · rw [index_, ← cell_succ _ further, ← fill.wraddr]
    simp [clock, cyc, ack, notLast]
  · rw [fill.lastAck_clock some_ cyc, ack, Bool.and_true, decide_eq_false further.ne, Bool.false_or]
  · rw [line_]
  · rw [index_, tag_]
    simp [clock, cyc, ack]
  · exact fill.word_clock cyc word_ (same.trans line_) before
  · rw [index_]
    simpa [clock, reset, clear, cyc, still] using fill.unmasked

/-- The last word is answered. -/
theorem Fill.clock_last (fill : Fill mem waiting r n s) (some_ : 0 < ls) (cyc : s.cyc = true) (ack : b.ack = true)
    (noErr : b.err = false) (last : n + 1 = 2 ^ ls) (accepted : n < asked s b.stall r)
    (word_ : mem (nth (line s.addr) n) = some b.data) :
    (s.clock c b).cyc = false ∧ (s.clock c b).stb = false ∧ (s.clock c b).saddr = index s.addr ∧
      (s.clock c b).tags (index s.addr) = tag s.addr ∧
      ∀ a, line a = line s.addr → mem a = some ((s.clock c b).cache (cell a)) := by
  have isLast : s.lastAck = true := fill.lastAck.trans (decide_eq_true last)
  refine ⟨by simp [clock, cyc, ack, isLast], ?_, ?_, by simp [clock, cyc, ack], fun a same => ?_⟩
  · cases reset : c.reset with
    | true => simp [clock, reset]
    | false =>
      cases clear : c.clearCache with
      | true => simp [clock, clear]
      | false =>
        rw [(fill.requested some_ cyc reset clear noErr).2.1]
        exact decide_eq_false (by omega)
  · simp only [clock, cyc, ack, Bool.and_self, if_true, fill.wraddr, Fields.first]
  · refine fill.word_clock cyc word_ same ?_
    rw [last]
    exact (offset a).isLt

/-- The cycle ends with an error, with a reset and with a clear. -/
theorem clock_ends (cyc : s.cyc = true) (ends : c.reset = true ∨ c.clearCache = true ∨ b.err = true) :
    (s.clock c b).cyc = false ∧ (s.clock c b).stb = false := by
  rcases ends with reset | clear | err
  · simp [clock, reset]
  · simp [clock, clear]
  · simp [clock, cyc, err]

/-- A line is loaded. -/
theorem clock_begins (idle : s.cyc = false) (stb : s.stb = false) (needload : s.needload = true)
    (reset : c.reset = false) (clear : c.clearCache = false) (newPc : c.newPc = false) (some_ : 0 < ls) :
    (s.clock c b).cyc = true ∧ line (s.clock c b).addr = s.lasttag ∧ Fill mem [] 0 0 (s.clock c b) := by
  have size : 1 < 2 ^ ls := Nat.one_lt_two_pow some_.ne'
  have addr : (s.clock c b).addr = s.lasttag ++ 0#(ls) := by simp [clock, idle, stb]
  have line_ : line (s.clock c b).addr = s.lasttag := by rw [addr, line_append]
  have index_ : index (s.clock c b).addr = index (word s.lastpc) := index_congr line_
  refine ⟨by simp [clock, reset, clear, idle, needload, newPc], line_, Nat.le_refl 0, Nat.zero_le _, by omega, ?_, ?_,
    ?_, ?_, ?_, rfl, fun more => absurd more (Nat.lt_irrefl 0), fun _ _ before => absurd before (Nat.not_lt_zero _), ?_⟩
  · rw [decide_eq_true (by omega)]
    simp [clock, reset, clear, idle, needload, newPc]
  · rw [line_, addr, Nat.zero_min]
    rfl
  · rw [index_]
    simp [clock, idle]
  · intro _
    rw [decide_eq_false (by omega)]
    simp [clock, idle]
  · rw [decide_eq_false (by omega)]
    simp [clock, idle]
  · rw [index_]
    simp [clock, reset, clear, idle, needload]

end Clock

end Pfcache

end IcoZip.Fetch
