import Mathlib.Tactic.FinCases
import IcoZip.Library.Masked
import IcoZip.Sram.Controller

/-! The controller with its memory behind it is a memory of 32-bit words with byte masks.

A request takes eight clocks. What the registers and the memory hold in between
is determined by the request and by the clocks since it was accepted.
-/

set_option autoImplicit false

namespace IcoZip.Sram

variable {w : Nat}

/-- A request as an access to the four bytes of a word. -/
def Wb.access (r : Wb w) : Masked.Access (BitVec w) (Fin 4) (BitVec 8) where
  addr := r.addr
  lanes j := if r.we && r.sel.getLsbD j then some (Bytes.byte r.data j) else none

namespace Sramdev

variable {s : Sramdev w} {i : Wb w} {x : BitVec 16}

/-- The clocks of a request leave its registers alone. -/
theorem clock_kept (busy : s.ramState ≠ 0) :
    (s.clock i x).write = s.write ∧ (s.clock i x).sel = s.sel ∧ (s.clock i x).data = s.data ∧
    (s.clock i x).nextAck = (s.nextAck && i.cyc) ∧ (s.clock i x).ramState = s.ramState + 1 := by
  unfold clock
  split <;> simp_all [access, defaults]

/-- Without one the registers follow the bus. -/
theorem clock_taken (idle : s.ramState = 0) :
    (s.clock i x).write = i.we ∧ (s.clock i x).sel = (if i.we then ~~~i.sel else 0) ∧ (s.clock i x).data = i.data ∧
    (s.clock i x).nextAck = i.stb ∧ (s.clock i x).ramState = if i.stb then 1 else 0 := by
  unfold clock
  split <;> simp_all

theorem strobes_clock (l : Fin 2) :
    (s.clock i x).strobes l = (window s.ramState).elim false fun j => s.write && !s.sel.getLsbD (j + l) := by
  unfold clock strobes window
  split <;> fin_cases l <;> simp_all [access, defaults]

theorem drives_clock (l : Fin 2) :
    (s.clock i x).drives l = (window s.ramState).elim false fun j => !s.write && !s.sel.getLsbD (j + l) := by
  unfold clock drives window
  split <;> fin_cases l <;> simp_all [access, defaults]

/-- The address follows the bus while no request is under way, and is stepped once during a request. -/
theorem ramAddr_clock :
    (s.clock i x).ramAddr =
      if s.ramState = 0 then i.addr ++ BitVec.ofBool false
      else if s.ramState = 3 then s.ramAddr.extractLsb' 1 w ++ BitVec.ofBool true
      else s.ramAddr := by
  unfold clock
  split <;> simp_all [access, defaults]

theorem ramData_clock :
    (s.clock i x).ramData =
      if s.ramState = 0 then i.data.extractLsb' 16 16
      else if s.ramState = 3 then s.data.extractLsb' 0 16
      else s.ramData := by
  unfold clock
  split <;> simp_all [access, defaults]

theorem wbData_clock :
    (s.clock i x).wbData =
      if s.ramState = 0 ∨ s.ramState = 7 then s.wbData.extractLsb' 16 16 ++ x
      else if s.ramState = 3 then x ++ s.wbData.extractLsb' 0 16
      else s.wbData := by
  unfold clock
  split <;> simp_all [access, defaults]

theorem wbStall_clock : (s.clock i x).wbStall = if s.ramState = 0 then i.stb else decide (s.ramState ≠ 7) := by
  unfold clock
  split <;> simp_all [access, defaults]

theorem wbAck_clock : (s.clock i x).wbAck = (decide (s.ramState = 7) && (s.nextAck && i.cyc)) := by
  unfold clock
  split <;> simp_all [access, defaults]

/-- No lane is write-enabled in a clock whose address is new. -/
theorem quiet_of_moved (moved : (s.clock i x).ramAddr ≠ s.ramAddr) (l : Fin 2) : (s.clock i x).strobes l = false := by
  have shut : window s.ramState = none := by
    rw [ramAddr_clock] at moved
    split_ifs at moved with idle third
    · rw [idle]
      rfl
    · rw [third]
      rfl
    · exact absurd rfl moved
  rw [strobes_clock, shut]
  rfl

end Sramdev

/-! ### A request under way -/

/-- No request is under way. -/
structure Idle (x : Bench w) (content : BitVec w → Fin 4 → BitVec 8) : Prop where
  state : x.core.ramState = 0
  stall : x.core.wbStall = false
  quiet : ∀ l, x.core.strobes l = false
  holds : x.mem.byte = content

/-- The request `r` was accepted as many clocks ago as `ram_state` says; `kept` if its cycle was. -/
structure Busy (x : Bench w) (r : Wb w) (kept : Bool) (content : BitVec w → Fin 4 → BitVec 8) : Prop where
  running : x.core.ramState ≠ 0
  stall : x.core.wbStall = true
  ack : x.core.wbAck = false
  write : x.core.write = r.we
  sel : x.core.sel = if r.we then ~~~r.sel else 0
  data : x.core.data = r.data
  nextAck : x.core.nextAck = kept
  strobes : ∀ l, x.core.strobes l = (window (x.core.ramState - 1)).elim false fun j => r.we && r.sel.getLsbD (j + l)
  drives : ∀ l, x.core.drives l = (window (x.core.ramState - 1)).elim false fun _ => !r.we
  address : x.core.ramAddr = r.addr ++ BitVec.ofBool (4 ≤ x.core.ramState)
  half : x.core.ramData = r.data.extractLsb' (if 4 ≤ x.core.ramState then 0 else 16) 16
  holds : ∀ a j, x.mem.byte a j =
    if written x.core.ramState j then (r.access.covers a j).getD (content a j) else content a j
  fetched : 4 ≤ x.core.ramState → r.we = false → ∀ j : Fin 4, 2 ≤ j → Bytes.byte x.core.wbData j = content r.addr j

theorem append_ofBool_inj {a b : BitVec w} {c d : Bool} :
    a ++ BitVec.ofBool c = b ++ BitVec.ofBool d ↔ a = b ∧ c = d := by
  constructor
  · intro same
    have bit : c = d := by
      have low := congrArg (BitVec.getLsbD · 0) same
      simp only [BitVec.getLsbD_append, Nat.zero_lt_one, BitVec.getLsbD_ofBool] at low
      simpa using low
    subst bit
    exact ⟨(BitVec.append_left_inj _).mp same, rfl⟩
  · rintro ⟨rfl, rfl⟩
    rfl

theorem covers_twice (r : Wb w) (a : BitVec w) (j : Fin 4) (b : BitVec 8) :
    (r.access.covers a j).getD ((r.access.covers a j).getD b) = (r.access.covers a j).getD b := by
  cases r.access.covers a j <;> rfl

theorem base_add : ∀ j : Fin 4, (base j : Nat) + (Fin.ofNat 2 j : Fin 2) = j := by decide

theorem window_base : ∀ (k : Fin 8) (b : Fin 4), window (k - 1) = some b → ∀ j, (j < 2 ↔ 4 ≤ k) ↔ b = base j := by
  decide

theorem window_lt : ∀ (k : Fin 8) (b : Fin 4), window k = some b → ∀ l : Fin 2, (b : Nat) + l < 4 := by decide

/-- The second half word comes behind clock 3. -/
theorem half_next : ∀ k : Fin 8, k ≠ 0 → k ≠ 7 → k ≠ 3 → (4 ≤ k + 1 ↔ 4 ≤ k) := by decide

theorem next_ne_zero : ∀ k : Fin 8, k ≠ 7 → k + 1 ≠ 0 := by decide

theorem written_next : ∀ (k : Fin 8), k ≠ 0 → k ≠ 7 → ∀ j : Fin 4,
    written (k + 1) j = (window (k - 1) == some (base j) || written k j) := by
  decide

/-- The half word that is out has the bytes of the request. -/
theorem lane_data (d : BitVec 32) (j : Fin 4) :
    lane (d.extractLsb' (if j < 2 then 0 else 16) 16) (Fin.ofNat 2 j) = Bytes.byte d j := by
  apply BitVec.eq_of_getLsbD_eq
  intro b small
  have place : 16 + (8 + b) = 24 + b := by omega
  fin_cases j <;> simp [lane, Bytes.byte, small, place] <;> omega

theorem lane_append (half : Fin 2 → BitVec 8) (l : Fin 2) : lane (half 1 ++ half 0) l = half l := by
  fin_cases l
  · exact BitVec.extractLsb'_append_eq_right
  · exact BitVec.extractLsb'_append_eq_left

theorem byte_append (u l : BitVec 16) (j : Fin 4) :
    Bytes.byte (u ++ l) j = lane (if j < 2 then l else u) (Fin.ofNat 2 j) := by
  rw [← lane_data]
  split_ifs
  · rw [BitVec.extractLsb'_append_eq_right]
  · rw [BitVec.extractLsb'_append_eq_left]

namespace Busy

variable {x : Bench w} {r : Wb w} {kept : Bool} {content : BitVec w → Fin 4 → BitVec 8}

/-- In a clock in which the enables of a half word are out, the bytes that the request selects are written. -/
theorem stored_byte (busy : Busy x r kept content) (a : BitVec w) (j : Fin 4) :
    x.stored.byte a j =
      if window (x.core.ramState - 1) = some (base j) then (r.access.covers a j).getD (x.mem.byte a j)
      else x.mem.byte a j := by
  have here : (a ++ BitVec.ofBool (j < 2) = x.core.ramAddr) ↔ a = r.addr ∧ (j < 2 ↔ 4 ≤ x.core.ramState) := by
    rw [busy.address, append_ofBool_inj, decide_eq_decide]
  rw [Memory.byte, Bench.stored, busy.strobes]
  simp only [here]
  cases open_ : window (x.core.ramState - 1) with
  | none => simp [Memory.byte]
  | some b =>
    have half := window_base _ b open_ j
    by_cases same : b = base j
    · subst same
      have side := half.mpr rfl
      have data : lane x.core.ramData (Fin.ofNat 2 j) = Bytes.byte r.data j := by
        rw [busy.half, ← lane_data]
        simp only [side]
      have met : (j < 2 ↔ 4 ≤ x.core.ramState) = True := eq_true side
      simp only [met, data, Option.elim_some, base_add, if_true, and_true, Masked.Access.covers, Wb.access]
      by_cases addr : r.addr = a
      · cases selected : r.we && r.sel.getLsbD j <;> simp [addr, Memory.byte]
      · simp [addr, Ne.symm addr, Memory.byte]
    · have side : ¬ (j < 2 ↔ 4 ≤ x.core.ramState) := fun holds => same (half.mp holds)
      simp [side, same, Memory.byte]

/-- What a read finds on the data pins. -/
theorem ramIn_byte (busy : Busy x r kept content) (read : r.we = false) (i : Inputs w) {j : Fin 4}
    (open_ : window (x.core.ramState - 1) = some (base j)) :
    lane (x.ramIn i) (Fin.ofNat 2 j) = x.mem.byte r.addr j := by
  have drives (l : Fin 2) : x.core.drives l = true := by rw [busy.drives, open_, read]; rfl
  have side := (window_base _ _ open_ j).mpr rfl
  have addr : x.core.ramAddr = r.addr ++ BitVec.ofBool (j < 2) := by
    rw [busy.address]
    simp only [side]
  simp only [Bench.ramIn, drives, if_true, Memory.byte, ← addr, lane_append]

/-- A read finds the memory as it was. -/
theorem found (busy : Busy x r kept content) (read : r.we = false) (a : BitVec w) (j : Fin 4) :
    x.mem.byte a j = content a j := by
  have none : r.access.covers a j = none := by simp [Masked.Access.covers, Wb.access, read]
  rw [busy.holds, none]
  simp

theorem step (busy : Busy x r kept content) (more : x.core.ramState ≠ 7) (i : Inputs w) :
    Busy (x.step i) r (kept && i.wb.cyc) content := by
  obtain ⟨write, sel, data, nextAck, state⟩ := Sramdev.clock_kept (i := i.wb) (x := x.ramIn i) busy.running
  have core : (x.step i).core = x.core.clock i.wb (x.ramIn i) := rfl
  have idle : x.core.ramState ≠ 0 := busy.running
  rw [← core] at write sel data nextAck state
  have back : x.core.ramState + 1 - 1 = x.core.ramState := by omega
  constructor
  case running => exact state ▸ next_ne_zero _ more
  case stall => rw [core, Sramdev.wbStall_clock, if_neg idle, decide_eq_true more]
  case ack => rw [core, Sramdev.wbAck_clock, decide_eq_false more, Bool.false_and]
  case write => rw [write, busy.write]
  case sel => rw [sel, busy.sel]
  case data => rw [data, busy.data]
  case nextAck => rw [nextAck, busy.nextAck]
  case strobes =>
    intro l
    rw [core, Sramdev.strobes_clock, ← core, state, back, busy.write, busy.sel]
    cases open_ : window x.core.ramState with
    | none => rfl
    | some b =>
      have small := window_lt _ b open_ l
      cases r.we <;> simp [small]
  case drives =>
    intro l
    rw [core, Sramdev.drives_clock, ← core, state, back, busy.write, busy.sel]
    cases open_ : window x.core.ramState with
    | none => rfl
    | some b => cases r.we <;> simp
  case address =>
    -- State 3 is where the second half of the word takes its turn.
    rw [core, Sramdev.ramAddr_clock, ← core, state, if_neg idle]
    by_cases third : x.core.ramState = 3
    · rw [if_pos third, busy.address, third, BitVec.extractLsb'_append_eq_left]
      rfl
    · rw [if_neg third, busy.address, decide_eq_decide.mpr (half_next _ idle more third)]
  case half =>
    rw [core, Sramdev.ramData_clock, ← core, state, if_neg idle]
    by_cases third : x.core.ramState = 3
    · rw [if_pos third, busy.data, third]
      rfl
    · rw [if_neg third, busy.half]
      simp only [half_next _ idle more third]
  case holds =>
    intro a j
    have stored : (x.step i).mem.byte a j = x.stored.byte a j := rfl
    rw [stored, busy.stored_byte, state, written_next _ idle more, busy.holds]
    by_cases open_ : window (x.core.ramState - 1) = some (base j)
    · cases written x.core.ramState j <;> simp [open_, covers_twice]
    · simp [open_]
  case fetched =>
    -- The upper half has been taken in state 3; the lower one comes with the acknowledgement.
    intro late read j upper
    rw [core, Sramdev.wbData_clock, if_neg (by simp [idle, more])]
    rw [state] at late
    by_cases third : x.core.ramState = 3
    · have open_ : window (x.core.ramState - 1) = some (base j) := by
        rw [third, base, if_neg (Fin.not_lt.mpr upper)]
        rfl
      rw [if_pos third, byte_append, if_neg (Fin.not_lt.mpr upper), busy.ramIn_byte read i open_, busy.found read]
    · rw [if_neg third]
      exact busy.fetched ((half_next _ idle more third).mp late) read j upper

/-- The last clock of a request. -/
theorem ends (busy : Busy x r kept content) (last : x.core.ramState = 7) (i : Inputs w) :
    Idle (x.step i) (fun a j => (r.access.covers a j).getD (content a j)) ∧
    (x.step i).core.wbAck = (kept && i.wb.cyc) ∧
    (r.we = false → ∀ j : Fin 4, Bytes.byte (x.step i).core.wbData j = content r.addr j) := by
  obtain ⟨-, -, -, -, state⟩ := Sramdev.clock_kept (i := i.wb) (x := x.ramIn i) busy.running
  have core : (x.step i).core = x.core.clock i.wb (x.ramIn i) := rfl
  refine ⟨⟨?_, ?_, ?_, ?_⟩, ?_, ?_⟩
  · rw [core, state, last]
    rfl
  · rw [core, Sramdev.wbStall_clock, if_neg busy.running, last]
    rfl
  · intro l
    rw [core, Sramdev.strobes_clock, last]
    rfl
  · funext a j
    have stored : (x.step i).mem.byte a j = x.stored.byte a j := rfl
    have whole : written x.core.ramState j = true := by simp [last, written]
    rw [stored, busy.stored_byte, busy.holds, if_pos whole]
    split_ifs
    · exact covers_twice r a j _
    · rfl
  · rw [core, Sramdev.wbAck_clock, last, busy.nextAck]
    rfl
  · intro read j
    rw [core, Sramdev.wbData_clock, if_pos (.inr last), byte_append]
    rcases Fin.lt_or_le j 2 with lower | upper
    · have open_ : window (x.core.ramState - 1) = some (base j) := by
        rw [last, base, if_pos lower]
        rfl
      rw [if_pos lower, busy.ramIn_byte read i open_, busy.found read]
    · have above := lane_data x.core.wbData j
      rw [if_neg (Fin.not_lt.mpr upper)] at above ⊢
      rw [above]
      exact busy.fetched (by rw [last]; decide) read j upper

end Busy

namespace Idle

variable {x : Bench w} {content : BitVec w → Fin 4 → BitVec 8}

theorem mem_step (idle : Idle x content) (i : Inputs w) : (x.step i).mem.byte = content := by
  have same : x.stored = x.mem := by
    funext a l
    simp [Bench.stored, idle.quiet]
  rw [← idle.holds, ← same]
  rfl

/-- A request is accepted. -/
theorem accept (idle : Idle x content) {i : Inputs w} (stb : i.wb.stb = true) : Busy (x.step i) i.wb true content := by
  obtain ⟨write, sel, data, nextAck, state⟩ := Sramdev.clock_taken (i := i.wb) (x := x.ramIn i) idle.state
  have core : (x.step i).core = x.core.clock i.wb (x.ramIn i) := rfl
  rw [stb] at nextAck
  rw [if_pos stb] at state
  rw [← core] at write sel data nextAck state
  have first : window ((x.step i).core.ramState - 1) = none := by rw [state]; rfl
  constructor
  case running => rw [state]; decide
  case stall => rw [core, Sramdev.wbStall_clock, if_pos idle.state, stb]
  case ack => rw [core, Sramdev.wbAck_clock, idle.state]; rfl
  case write => exact write
  case sel => exact sel
  case data => exact data
  case nextAck => exact nextAck
  case strobes =>
    intro l
    rw [first, core, Sramdev.strobes_clock, idle.state]
    rfl
  case drives =>
    intro l
    rw [first, core, Sramdev.drives_clock, idle.state]
    rfl
  case address =>
    rw [state, core, Sramdev.ramAddr_clock, if_pos idle.state]
    rfl
  case half =>
    rw [state, core, Sramdev.ramData_clock, if_pos idle.state]
    rfl
  case holds =>
    intro a j
    have unwritten : ∀ j, written 1 j = false := by decide
    rw [state, unwritten, idle.mem_step i]
    rfl
  case fetched =>
    intro late
    rw [state] at late
    exact absurd late (by decide)

theorem wait (idle : Idle x content) {i : Inputs w} (stb : i.wb.stb = false) :
    Idle (x.step i) content ∧ (x.step i).core.wbAck = false := by
  obtain ⟨-, -, -, -, state⟩ := Sramdev.clock_taken (i := i.wb) (x := x.ramIn i) idle.state
  have core : (x.step i).core = x.core.clock i.wb (x.ramIn i) := rfl
  refine ⟨⟨?_, ?_, ?_, idle.mem_step i⟩, ?_⟩
  · rw [core, state, stb]
    rfl
  · rw [core, Sramdev.wbStall_clock, if_pos idle.state, stb]
  · intro l
    rw [core, Sramdev.strobes_clock, idle.state]
    rfl
  · rw [core, Sramdev.wbAck_clock, idle.state]
    rfl

end Idle

/-! ### Runs -/

open Clocked (run emitted)

namespace Bench

def taken (x : Bench w) (i : Inputs w) : List (Masked.Access (BitVec w) (Fin 4) (BitVec 8)) :=
  if x.accepts i then [i.wb.access] else []

/-- The accepted requests of a run, in order. -/
def requests (x : Bench w) (is : List (Inputs w)) : List (Masked.Access (BitVec w) (Fin 4) (BitVec 8)) :=
  emitted step taken x is

theorem requests_append (x : Bench w) (is js : List (Inputs w)) :
    x.requests (is ++ js) = x.requests is ++ (run step x is).requests js := Clocked.emitted_append step taken x is js

theorem requests_stalled {x : Bench w} (stall : x.core.wbStall = true) (i : Inputs w) : x.requests [i] = [] := by
  simp [requests, taken, accepts, stall]

/-- What the accepted requests make of the memory: in each byte the value of the latest write that selects it. -/
def expected (x : Bench w) (is : List (Inputs w)) : BitVec w → Fin 4 → BitVec 8 :=
  Masked.latest x.mem.byte (x.requests is)

end Bench

open Bench

namespace Idle

variable {x : Bench w} {content : BitVec w → Fin 4 → BitVec 8} {i : Inputs w}

theorem underway (idle : Idle x content) (stb : i.wb.stb = true) (held : List (Inputs w)) (short : held.length ≤ 6) :
    Busy (run step x (i :: held)) i.wb (held.all fun j => j.wb.cyc) content ∧
    (run step x (i :: held)).core.ramState.val = held.length + 1 ∧ x.requests (i :: held) = [i.wb.access] := by
  induction held using List.reverseRecOn with
  | nil =>
    have state := (Sramdev.clock_taken (i := i.wb) (x := x.ramIn i) idle.state).2.2.2.2
    rw [if_pos stb] at state
    exact ⟨idle.accept stb, congrArg Fin.val state, by simp [requests, taken, accepts, stb, idle.stall]⟩
  | append_singleton held j ih =>
    rw [List.length_append, List.length_singleton] at short
    obtain ⟨busy, state, requests⟩ := ih (by omega)
    have more : (run step x (i :: held)).core.ramState ≠ 7 := fun last => by
      have := congrArg Fin.val last
      omega
    have next := (Sramdev.clock_kept (i := j.wb) (x := (run step x (i :: held)).ramIn j) busy.running).2.2.2.2
    rw [← List.cons_append, Clocked.run_append, requests_append, requests, requests_stalled busy.stall]
    refine ⟨?_, ?_, rfl⟩
    · simpa using busy.step more j
    · have value := congrArg Fin.val next
      simp only [Clocked.run_cons, Clocked.run_nil, List.length_append, List.length_singleton]
      rw [← Clocked.run_cons]
      refine value.trans ?_
      rw [Fin.val_add, state]
      exact Nat.mod_eq_of_lt (by omega)

theorem served (idle : Idle x content) (stb : i.wb.stb = true) (held : List (Inputs w)) (whole : held.length = 7) :
    Idle (run step x (i :: held)) (fun a j => (i.wb.access.covers a j).getD (content a j)) ∧
    (run step x (i :: held)).core.wbAck = (held.all fun j => j.wb.cyc) ∧
    (i.wb.we = false → ∀ j : Fin 4, Bytes.byte (run step x (i :: held)).core.wbData j = content i.wb.addr j) ∧
    x.requests (i :: held) = [i.wb.access] := by
  obtain ⟨front, last, rfl⟩ : ∃ front last, held = front ++ [last] :=
    ⟨_, _, (List.dropLast_append_getLast (List.ne_nil_of_length_eq_add_one whole)).symm⟩
  rw [List.length_append, List.length_singleton] at whole
  obtain ⟨busy, state, requests⟩ := idle.underway stb front (by omega)
  obtain ⟨after, ack, data⟩ := busy.ends (Fin.ext (by rw [state]; omega)) last
  rw [← List.cons_append, Clocked.run_append, requests_append, requests, requests_stalled busy.stall]
  exact ⟨after, by simpa using ack, data, rfl⟩

end Idle

theorem idle_powerUp (free : Bench w) : Idle (powerUp free) free.mem.byte :=
  ⟨rfl, rfl, fun _ => rfl, rfl⟩

namespace Bench

variable (free : Bench w)

theorem expected_request {before : List (Inputs w)} {i : Inputs w} {held : List (Inputs w)} {x : Bench w}
    (one : (run step x before).requests (i :: held) = [i.wb.access]) :
    (fun a j => (i.wb.access.covers a j).getD (x.expected before a j)) = x.expected (before ++ i :: held) := by
  funext a j
  rw [expected, expected, requests_append, one, Masked.latest_concat]

/-- A run ends between two requests or in the middle of one. -/
theorem phases (is : List (Inputs w)) :
    Idle (run step (powerUp free) is) ((powerUp free).expected is) ∨
    ∃ before i held, is = before ++ i :: held ∧ held.length ≤ 6 ∧ i.wb.stb = true ∧
      Idle (run step (powerUp free) before) ((powerUp free).expected before) := by
  induction is using List.reverseRecOn with
  | nil => exact .inl (idle_powerUp free)
  | append_singleton is j ih =>
    rcases ih with idle | ⟨before, i, held, rfl, short, stb, idle⟩
    · cases stb : j.wb.stb with
      | true => exact .inr ⟨is, j, [], rfl, by simp, stb, idle⟩
      | false =>
        left
        have none : (run step (powerUp free) is).requests [j] = [] := by simp [requests, taken, accepts, stb]
        rw [expected, requests_append, none, List.append_nil, Clocked.run_append]
        exact (idle.wait stb).1
    · by_cases more : held.length < 6
      · exact .inr ⟨before, i, held ++ [j], by simp, by simp; omega, stb, idle⟩
      · left
        obtain ⟨after, -, -, one⟩ := idle.served stb (held ++ [j]) (by simp; omega)
        rw [List.append_assoc, List.cons_append, ← expected_request one, Clocked.run_append]
        exact after

theorem idle_of_accepts {before : List (Inputs w)} {i : Inputs w}
    (accepts : (run step (powerUp free) before).accepts i = true) :
    i.wb.stb = true ∧ Idle (run step (powerUp free) before) ((powerUp free).expected before) := by
  rw [Bench.accepts, Bool.and_eq_true, Bool.not_eq_true'] at accepts
  refine ⟨accepts.1, ?_⟩
  rcases phases free before with idle | ⟨past, j, held, rfl, short, stb, idle⟩
  · exact idle
  · have busy := (idle.underway stb held short).1
    rw [← Clocked.run_append] at busy
    exact absurd (busy.stall.symm.trans accepts.2) (by decide)

/-- What the bus and the pins show after a run. -/
structure Serves (start : Bench w) (is : List (Inputs w)) : Prop where
  /-- The acknowledgement of a request comes eight clocks behind it, if its cycle is kept, and there is no other. -/
  acknowledged : (run step start is).core.wbAck = true ↔
    ∃ before i held, is = before ++ i :: held ∧ held.length = 7 ∧ (run step start before).accepts i = true ∧
      ∀ j ∈ held, j.wb.cyc = true
  /-- With it comes the word that the requests before it have left. -/
  reads : ∀ before i held, is = before ++ i :: held → held.length = 7 → (run step start before).accepts i = true →
    i.wb.we = false → ∀ j : Fin 4, Bytes.byte (run step start is).core.wbData j = start.expected before i.wb.addr j
  /-- A byte holds what the latest write that selects it has put there, or, while that request is under way,
  what it held before. -/
  content : ∀ a j, (run step start is).mem.byte a j = start.expected is a j ∨
    ∃ before i held, is = before ++ i :: held ∧ held.length < 7 ∧ (run step start before).accepts i = true ∧
      i.wb.access.covers a j ≠ none ∧ (run step start is).mem.byte a j = start.expected before a j
  /-- No lane is write-enabled in a clock whose address is new. -/
  quiet : ∀ i, ((run step start is).step i).core.ramAddr ≠ (run step start is).core.ramAddr →
    ∀ l, ((run step start is).step i).core.strobes l = false

/-- The controller with its memory is a memory with byte masks, whatever the requests and whenever cycles are
dropped. -/
theorem serves (is : List (Inputs w)) : Serves (powerUp free) is := by
  have accepts {before : List (Inputs w)} {i : Inputs w} (stb : i.wb.stb = true)
      (idle : Idle (run step (powerUp free) before) ((powerUp free).expected before)) :
      (run step (powerUp free) before).accepts i = true := by
    simp [Bench.accepts, stb, idle.stall]
  constructor
  case acknowledged =>
    constructor
    · intro ack
      rcases List.eq_nil_or_concat is with rfl | ⟨front, last, rfl⟩
      · exact absurd ack Bool.false_ne_true
      rw [List.concat_eq_append, Clocked.run_append] at ack
      rw [List.concat_eq_append]
      rcases phases free front with idle | ⟨before, i, held, rfl, short, stb, idle⟩
      · cases stb : last.wb.stb with
        | true => exact absurd ((idle.accept stb).ack.symm.trans ack) (by decide)
        | false => exact absurd ((idle.wait stb).2.symm.trans ack) (by decide)
      · obtain ⟨busy, state, -⟩ := idle.underway stb held short
        rw [← Clocked.run_append] at busy state
        by_cases more : held.length < 6
        · have unfinished : (run step (powerUp free) (before ++ i :: held)).core.ramState ≠ 7 := fun seven => by
            have := congrArg Fin.val seven
            omega
          exact absurd ((busy.step unfinished last).ack.symm.trans ack) (by decide)
        · obtain ⟨-, kept, -, -⟩ := idle.served stb (held ++ [last]) (by simp; omega)
          rw [← Clocked.run_append, List.append_assoc, List.cons_append] at ack
          rw [Clocked.run_append, kept, List.all_eq_true] at ack
          exact ⟨before, i, held ++ [last], by simp, by simp; omega, accepts stb idle, ack⟩
    · rintro ⟨before, i, held, rfl, whole, taken, cyc⟩
      obtain ⟨stb, idle⟩ := idle_of_accepts free taken
      rw [Clocked.run_append, (idle.served stb held whole).2.1]
      exact List.all_eq_true.mpr cyc
  case reads =>
    rintro before i held rfl whole taken read j
    obtain ⟨stb, idle⟩ := idle_of_accepts free taken
    rw [Clocked.run_append]
    exact (idle.served stb held whole).2.2.1 read j
  case content =>
    -- Only while a request is under way can a byte be ahead of what has been acknowledged.
    intro a j
    rcases phases free is with idle | ⟨before, i, held, rfl, short, stb, idle⟩
    · exact .inl (congrFun (congrFun idle.holds a) j)
    · obtain ⟨busy, -, one⟩ := idle.underway stb held short
      rw [← Clocked.run_append] at busy
      have after := congrFun (congrFun (expected_request one) a) j
      rw [← after]
      cases covered : i.wb.access.covers a j with
      | none =>
        left
        rw [busy.holds, covered]
        simp
      | some b =>
        rw [busy.holds, covered]
        split_ifs
        · exact .inl rfl
        · exact .inr ⟨before, i, held, rfl, by omega, accepts stb idle, by simp [covered], rfl⟩
  case quiet => exact fun i moved l => Sramdev.quiet_of_moved moved l

end Bench

end IcoZip.Sram
