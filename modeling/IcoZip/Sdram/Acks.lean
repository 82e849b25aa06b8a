import IcoZip.Library.ShiftRegister
import IcoZip.Sdram.Startup

/-! Acknowledgements.

`r_barrell_ack` is a shift register of flags. Beside it runs one of the requests
that its flags stand for; that the two stay together, and that a request never
enters in front of an earlier one, is what `clocks_til_idle` is for.
-/

set_option autoImplicit false

namespace IcoZip.Sdram

open ShiftRegister

structure Request where
  we : Bool
  addr : BitVec 21
  data : BitVec 32
  sel : BitVec 4
  deriving DecidableEq, Repr

def Wb.request (i : Wb) : Request := ⟨i.we, i.addr, i.data, i.sel⟩

namespace Wbsdram

/-- The request in the registers. -/
def request (s : Wbsdram) : Request := ⟨s.rWe, s.rAddr, s.rData, s.rSel⟩

/-- Requests that have been accepted and not yet issued. -/
def waiting (s : Wbsdram) : List Request := if s.pending then [s.request] else []

def accepted (s : Wbsdram) (i : Wb) : List Request := if s.busCyc i then [i.request] else []

end Wbsdram

/-- Where the acknowledgement of a command enters the shift register. -/
def slot : Command → Option Nat
  | .read => some 5
  | .write => some 1
  | _ => none

section Paced
variable {τ : Type}

/-- The tags in the next clock, when the command of this one has the tag `t`. -/
def tagged (s : Wbsdram) (i : Wb) (t : τ) (tags : Nat → Option τ) : Nat → Option τ :=
  if i.cyc then shift tags ((slot (s.command i)).map fun q => (q, t)) else fun _ => none

/-- The flags are where the tags are, and none is further off than `clocks_til_idle` says. -/
structure Paced (s : Wbsdram) (tags : Nat → Option τ) : Prop where
  access : s.accessCmd = (s.rPending && !s.stall)
  marks : Marks s.barrellAck tags
  near : ∀ p, s.clocksTilIdle.toNat + 1 < p → tags p = none

theorem paced_quiet {s : Wbsdram} (quiet : Quiet s) : Paced s fun _ => (none : Option τ) := by
  refine ⟨?_, ?_, fun _ _ => rfl⟩
  · rw [quiet.access, quiet.rPending]
    rfl
  · rw [quiet.barrellAck]
    exact marks_zero

theorem accessCmd_step (s : Wbsdram) (i : Wb) (x : BitVec 16) :
    (s.step i x).accessCmd = (s.command i == .read || s.command i == .write) := by
  have pins : (s.step i x).pins = s.pins' i (s.command i) := rfl
  rw [Wbsdram.accessCmd, pins]
  cases given : s.command i <;> simp [Wbsdram.pins']

/-- A read or write is given to a request that waits. -/
theorem waits_of_access {s : Wbsdram} {i : Wb} (given : s.command i = .read ∨ s.command i = .write) :
    i.cyc = true ∧ s.rPending = true ∧ s.stall = true := by
  have guard := Wbsdram.guard_command s i
  rcases given with given | given
  · rw [given] at guard
    exact ⟨guard.1.1.cyc, guard.1.1.pending, guard.1.2⟩
  · rw [given] at guard
    exact ⟨guard.1.1.cyc, guard.1.1.pending, guard.1.2⟩

theorem slot_none {cmd : Command} (read : cmd ≠ .read) (write : cmd ≠ .write) : slot cmd = none := by
  cases cmd <;> simp_all [slot]

/-- The issue of a request frees the bus. -/
theorem step_issued {s : Wbsdram} (access : s.accessCmd = (s.rPending && !s.stall)) {i : Wb} {x : BitVec 16}
    (given : s.command i = .read ∨ s.command i = .write) :
    (s.step i x).rPending = true ∧ (s.step i x).stall = false := by
  obtain ⟨cyc, pending, stall⟩ := waits_of_access given
  rw [pending, stall] at access
  rcases given with given | given <;> simp [Wbsdram.step, Wbsdram.busCyc, given, access, cyc, pending, stall]

theorem step_unissued {s : Wbsdram} {i : Wb} {x : BitVec 16} (read : s.command i ≠ .read)
    (write : s.command i ≠ .write) : (s.step i x).stall = (s.rPending || s.busCyc i) := by
  simp only [Wbsdram.step]

/-- `clocks_til_idle` says how far off the flags are that a command leaves behind. -/
theorem near_step {s : Wbsdram} {tags : Nat → Option τ} (near : ∀ p, s.clocksTilIdle.toNat + 1 < p → tags p = none)
    {i : Wb} {x : BitVec 16} {t : τ} {p : Nat} (far : (s.step i x).clocksTilIdle.toNat + 1 < p) :
    tagged s i t tags p = none := by
  have guard := Wbsdram.guard_command s i
  cases cyc : i.cyc with
  | false => simp [tagged, cyc]
  | true =>
    simp only [tagged, cyc, if_true]
    by_cases read : s.command i = .read
    · rw [read] at guard ⊢
      have four : (s.step i x).clocksTilIdle.toNat = 4 := by simp [Wbsdram.step, read]
      have bound : s.clocksTilIdle.toNat < 4 := BitVec.lt_def.mp guard.2.2.2.2
      simp only [slot, Option.map_some, shift]
      rw [if_neg (by omega), near (p + 1) (by omega)]
    · by_cases write : s.command i = .write
      · rw [write] at guard ⊢
        have one : (s.step i x).clocksTilIdle.toNat = 1 := by simp [Wbsdram.step, write]
        have zero : s.clocksTilIdle.toNat = 0 := congrArg BitVec.toNat guard.2.2.2.2
        simp only [slot, Option.map_some, shift]
        rw [if_neg (by omega), near (p + 1) (by omega)]
      · rw [slot_none read write]
        have less : (s.step i x).clocksTilIdle.toNat = s.clocksTilIdle.toNat - 1 := by
          by_cases zero : s.clocksTilIdle = 0#3
          · simp [Wbsdram.step, zero]
          · have next : (s.step i x).clocksTilIdle = s.clocksTilIdle - 1#3 := by simp [Wbsdram.step, zero]
            rw [next, toNat_pred zero]
        simp only [Option.map_none, shift]
        exact near (p + 1) (by omega)

theorem marks_step {s : Wbsdram} {tags : Nat → Option τ} (marks : Marks s.barrellAck tags) (i : Wb) (x : BitVec 16)
    (t : τ) : Marks (s.step i x).barrellAck (tagged s i t tags) := by
  cases cyc : i.cyc with
  | false =>
    simp only [tagged, Wbsdram.step, cyc, Bool.not_false, if_true, Bool.false_eq_true, if_false]
    exact marks_zero
  | true =>
    simp only [tagged, Wbsdram.step, cyc, Bool.not_true, Bool.false_eq_true, if_false, if_true]
    cases s.command i with
    | read => exact marks.enter t (by decide)
    | write => exact marks.enter t (by decide)
    | _ => exact marks.shift

theorem access_step {s : Wbsdram} (access : s.accessCmd = (s.rPending && !s.stall)) (i : Wb) (x : BitVec 16) :
    (s.step i x).accessCmd = ((s.step i x).rPending && !(s.step i x).stall) := by
  rw [accessCmd_step]
  by_cases given : s.command i = .read ∨ s.command i = .write
  · obtain ⟨pending, stall⟩ := step_issued access (x := x) given
    rw [pending, stall]
    rcases given with given | given <;> rw [given] <;> rfl
  · rw [not_or] at given
    rw [step_unissued given.1 given.2]
    have none : (s.command i == .read || s.command i == .write) = false := by simp [given.1, given.2]
    rw [none]
    cases taken : s.busCyc i with
    | true => simp
    | false =>
      -- what stays pending keeps the bus stalled
      cases pending : s.rPending <;> simp [Wbsdram.step, taken, pending]

namespace Paced

variable {s : Wbsdram} {tags : Nat → Option τ}

theorem step (paced : Paced s tags) (i : Wb) (x : BitVec 16) (t : τ) : Paced (s.step i x) (tagged s i t tags) :=
  ⟨access_step paced.access i x, marks_step paced.marks i x t, fun _ far => near_step paced.near far⟩

theorem top (paced : Paced s tags) : tags 6 = none :=
  paced.marks.empty (BitVec.getLsbD_of_ge _ _ (by decide))

/-- In a clock of an open cycle the tags move on in order, and the one that is issued joins them. -/
theorem line_step (paced : Paced s tags) {i : Wb} (cyc : i.cyc = true) (t : τ) :
    (tags 0).toList ++ line 6 (tagged s i t tags) =
      line 6 tags ++ if s.command i = .read ∨ s.command i = .write then [t] else [] := by
  have guard := Wbsdram.guard_command s i
  simp only [tagged, cyc, if_true]
  by_cases read : s.command i = .read
  · rw [read, if_pos (.inl rfl)]
    refine line_shift_entry t (by decide) fun p far => ?_
    exact paced.marks.empty (BitVec.getLsbD_of_ge _ _ (by omega))
  · by_cases write : s.command i = .write
    · rw [write] at guard ⊢
      have zero : s.clocksTilIdle.toNat = 0 := congrArg BitVec.toNat guard.2.2.2.2
      rw [if_pos (.inr rfl)]
      exact line_shift_entry t (by decide) fun p far => paced.near p (by omega)
    · rw [slot_none read write, if_neg (by simp [read, write]), List.append_nil]
      exact line_shift paced.top

end Paced

end Paced

/-- In a clock of an open cycle what waited or came in has been issued or waits. -/
theorem issued_step {s : Wbsdram} (access : s.accessCmd = (s.rPending && !s.stall)) {i : Wb} (cyc : i.cyc = true)
    (x : BitVec 16) :
    (if (s.step i x).accessCmd then [s.request] else []) ++ (s.step i x).waiting = s.waiting ++ s.accepted i := by
  rw [accessCmd_step]
  by_cases given : s.command i = .read ∨ s.command i = .write
  · obtain ⟨-, pending, stall⟩ := waits_of_access given
    obtain ⟨-, free⟩ := step_issued access (x := x) given
    have issue : (s.command i == .read || s.command i == .write) = true := by
      rcases given with given | given <;> rw [given] <;> rfl
    simp [issue, Wbsdram.waiting, Wbsdram.accepted, Wbsdram.pending, Wbsdram.busCyc, pending, stall, free]
  · rw [not_or] at given
    have none : (s.command i == .read || s.command i == .write) = false := by simp [given.1, given.2]
    have held := step_unissued (x := x) given.1 given.2
    rw [none, if_neg (by simp), List.nil_append]
    cases taken : s.busCyc i with
    | true =>
      have free : s.stall = false := by simpa [Wbsdram.busCyc] using (Bool.and_eq_true_iff.mp taken).2
      have pending : (s.step i x).rPending = true := by simp [Wbsdram.step, taken]
      have request : (s.step i x).request = i.request := by simp [Wbsdram.request, Wb.request, Wbsdram.step, taken]
      simp [Wbsdram.waiting, Wbsdram.accepted, Wbsdram.pending, taken, free, held, pending, request]
    | false =>
      have request : (s.step i x).request = s.request := by simp [Wbsdram.request, Wbsdram.step, taken]
      have pending : (s.step i x).rPending = (s.rPending && s.stall) := by
        cases was : s.rPending <;> cases stall : s.stall <;> simp [Wbsdram.step, taken, access, cyc, was, stall]
      have wait : (s.step i x).pending = s.pending := by
        rw [Wbsdram.pending, held, pending, Wbsdram.pending, taken]
        cases s.rPending <;> simp
      simp [Wbsdram.waiting, Wbsdram.accepted, taken, wait, request]

theorem waiting_nil {s : Wbsdram} : s.waiting = [] ↔ s.pending = false := by
  rw [Wbsdram.waiting]
  split_ifs with pending <;> simp [pending]

/-- A request that waits after a clock came in with it or waited before. -/
theorem pending_step {s : Wbsdram} (access : s.accessCmd = (s.rPending && !s.stall)) {i : Wb} {x : BitVec 16}
    (pending : (s.step i x).pending = true) :
    ¬ (s.command i = .read ∨ s.command i = .write) ∧ (s.busCyc i = true ∨ s.busCyc i = false ∧ s.pending = true) := by
  rw [Wbsdram.pending, Bool.and_eq_true] at pending
  have unissued : ¬ (s.command i = .read ∨ s.command i = .write) := by
    intro given
    obtain ⟨-, free⟩ := step_issued access (x := x) given
    rw [free] at pending
    exact absurd pending.2 (by decide)
  refine ⟨unissued, ?_⟩
  cases taken : s.busCyc i with
  | true => exact .inl rfl
  | false =>
    refine .inr ⟨rfl, ?_⟩
    have still := pending.1
    simp only [Wbsdram.step, taken, Bool.false_eq_true, if_false] at still
    split_ifs at still with given
    rw [Bool.not_eq_true] at given
    rw [given, still, Bool.true_and] at access
    rw [Wbsdram.pending, still, Bool.true_and]
    simpa using access

/-! ### From power-up -/

/-- The tags beside the controller: those of the requests. -/
def Powered.tag (s : Powered) (i : Inputs) (tags : Nat → Option Request) : Nat → Option Request :=
  if s.maintenance.maintenanceMode then fun _ => none else tagged s.core i.1 s.core.request tags

/-- The controller with the requests its acknowledgement flags stand for. -/
abbrev Tracked := Powered × (Nat → Option Request)

namespace Tracked

def step (x : Tracked) (i : Inputs) : Tracked := (x.1.step i, x.1.tag i x.2)

def powerUp (r : Wbsdram) : Tracked := (Powered.powerUp r, fun _ => none)

def accepted (x : Tracked) (i : Inputs) : List Request := x.1.core.accepted i.1

/-- The request whose command the pins carry after the clock. -/
def issued (x : Tracked) (i : Inputs) : List Request :=
  if (x.1.step i).core.accessCmd then [x.1.core.request] else []

/-- The request that an acknowledgement is for. -/
def acknowledged (x : Tracked) (_ : Inputs) : List (Option Request) := if x.1.core.wbAck then [x.2 0] else []

/-- Accepted, and not yet acknowledged. -/
def outstanding (x : Tracked) : List Request := line 6 x.2 ++ x.1.core.waiting

/-- What holds of every state from power-up on. -/
abbrev Sound (x : Tracked) : Prop := Staged (fun s tags => Paced s tags) (fun _ tags => tags = fun _ => none) x

theorem sound_step {x : Tracked} (sound : Sound x) (i : Inputs) : Sound (x.step i) := by
  refine @Staged.step _ Powered.tag _ _ ?_ ?_ ?_ x sound i
  · rintro s i m tags on - - -
    simp [Powered.tag, on]
  · rintro s tags quiet - rfl
    exact paced_quiet quiet
  · intro s i m tags off paced
    simp only [Powered.tag, off, Bool.false_eq_true, if_false]
    exact paced.step i.1 i.2 s.request

theorem sound_run (r : Wbsdram) (is : List Inputs) : Sound (Clocked.run step (powerUp r) is) := by
  have one (x : Tracked) (i : Inputs) (sound : Sound x) (_ : True) : Sound (x.step i) := sound_step sound i
  exact Clocked.run_invariant one (staged_powerUp r rfl) (Clocked.always_of_forall (fun _ _ => trivial) _ is)

theorem marks {x : Tracked} (sound : Sound x) : Marks x.1.core.barrellAck x.2 := by
  obtain ⟨-, holds⟩ := sound
  split_ifs at holds
  · rw [holds.1.barrellAck, holds.2]
    exact marks_zero
  · exact holds.marks

/-- Nothing is accepted, issued or acknowledged during maintenance. -/
theorem still {x : Tracked} (sound : Sound x) (on : x.1.maintenance.maintenanceMode = true) (i : Inputs) :
    x.acknowledged i = [] ∧ x.issued i = [] ∧ x.accepted i = [] ∧ x.outstanding = [] ∧ x.1.core.waiting = [] := by
  obtain ⟨orderly, holds⟩ := sound
  rw [if_pos on] at holds
  obtain ⟨quiet, tags⟩ := holds
  have waiting : x.1.core.waiting = [] := by simp [Wbsdram.waiting, Wbsdram.pending, quiet.rPending]
  have next := (quiet.maintain i.1 i.2 orderly).access
  refine ⟨?_, ?_, ?_, ?_, waiting⟩
  · simp [acknowledged, Wbsdram.wbAck, quiet.barrellAck]
  · simp [issued, Powered.step, on, next]
  · simp [accepted, Wbsdram.accepted, Wbsdram.busCyc, quiet.stall]
  · rw [outstanding, waiting, tags, line_empty fun _ => rfl]
    rfl

theorem acknowledged_step {x : Tracked} (sound : Sound x) {i : Inputs} (cyc : i.1.cyc = true) :
    x.acknowledged i ++ (x.step i).outstanding.map some = x.outstanding.map some ++ (x.accepted i).map some := by
  cases on : x.1.maintenance.maintenanceMode with
  | true =>
    obtain ⟨acks, -, taken, idle, -⟩ := still sound on i
    have next : (x.step i).outstanding = [] := by
      obtain ⟨orderly, holds⟩ := sound
      rw [if_pos on] at holds
      have quiet := holds.1.maintain i.1 i.2 orderly
      simp [step, outstanding, Powered.step, Powered.tag, on, line_empty, Wbsdram.waiting, Wbsdram.pending,
        quiet.rPending]
    rw [acks, taken, idle, next]
    rfl
  | false =>
    have paced : Paced x.1.core x.2 := by simpa [on] using sound.2
    have acks : x.acknowledged i = (x.2 0).toList.map some := by
      have flag := paced.marks 0
      rw [acknowledged, Wbsdram.wbAck, ← flag]
      cases x.2 0 <;> rfl
    have core : (x.step i).1.core = x.1.core.step i.1 i.2 := if_neg (by simp [on])
    have tags : (x.step i).2 = tagged x.1.core i.1 x.1.core.request x.2 := if_neg (by simp [on])
    have move := paced.line_step cyc x.1.core.request
    have issue := issued_step paced.access cyc i.2
    rw [accessCmd_step] at issue
    have same : (if x.1.core.command i.1 = .read ∨ x.1.core.command i.1 = .write then [x.1.core.request] else []) =
        if (x.1.core.command i.1 == .read || x.1.core.command i.1 == .write) = true then [x.1.core.request]
        else [] := by
      simp
    rw [acks, outstanding, outstanding, tags, core, accepted, ← List.map_append, ← List.map_append, ← List.append_assoc,
      move, same, List.append_assoc, issue, List.append_assoc]

theorem requests_step {x : Tracked} (sound : Sound x) {i : Inputs} (cyc : i.1.cyc = true) :
    x.issued i ++ (x.step i).1.core.waiting = x.1.core.waiting ++ x.accepted i := by
  cases on : x.1.maintenance.maintenanceMode with
  | true =>
    obtain ⟨-, issue, taken, -, idle⟩ := still sound on i
    have next : (x.step i).1.core.waiting = [] := by
      obtain ⟨orderly, holds⟩ := sound
      rw [if_pos on] at holds
      have quiet := holds.1.maintain i.1 i.2 orderly
      simp [step, Powered.step, on, Wbsdram.waiting, Wbsdram.pending, quiet.rPending]
    rw [issue, taken, idle, next]
  | false =>
    have paced : Paced x.1.core x.2 := by simpa [on] using sound.2
    have core : (x.1.step i).core = x.1.core.step i.1 i.2 := if_neg (by simp [on])
    have law := issued_step paced.access cyc i.2
    rw [issued, step, accepted, core, law]

/-- A clock without a cycle leaves nothing behind. -/
theorem dropped {x : Tracked} (sound : Sound x) {i : Inputs} (cyc : i.1.cyc = false) :
    (x.step i).outstanding = [] ∧ (x.step i).1.core.waiting = [] := by
  have after := sound_step sound i
  have waiting : (x.step i).1.core.waiting = [] := by
    have idle : x.1.core.busCyc i.1 = false := by simp [Wbsdram.busCyc, cyc]
    cases on : x.1.maintenance.maintenanceMode <;>
      simp [step, Powered.step, on, Wbsdram.waiting, Wbsdram.pending, Wbsdram.maintain, Wbsdram.step, idle, cyc]
  have tags : (x.step i).2 = fun _ => none := by
    cases on : x.1.maintenance.maintenanceMode <;> simp [step, Powered.tag, on, tagged, cyc]
  refine ⟨?_, waiting⟩
  rw [outstanding, waiting, tags, line_empty fun _ => rfl]
  rfl

/-- Nothing is outstanding where a period of an open cycle begins: at power-up, or after a clock without one. -/
theorem begins (r : Wbsdram) {is : List Inputs} (fresh : ∀ i, is.getLast? = some i → i.1.cyc = false) :
    (Clocked.run step (powerUp r) is).outstanding = [] ∧ (Clocked.run step (powerUp r) is).1.core.waiting = [] := by
  rcases List.eq_nil_or_concat is with rfl | ⟨before, i, rfl⟩
  · have waiting : (powerUp r).1.core.waiting = [] := rfl
    refine ⟨?_, waiting⟩
    rw [Clocked.run_nil, outstanding, waiting, powerUp, line_empty fun _ => rfl]
    rfl
  · rw [List.concat_eq_append, Clocked.run_append]
    exact dropped (sound_run r before) (fresh i (by simp))

/-- In every period of an open cycle, whatever was accepted has been acknowledged, in order and once, or its
flag is on the way, or it still waits; and it has been issued, in order and once, or still waits. -/
theorem acknowledged_in_order (r : Wbsdram) (is js : List Inputs)
    (fresh : ∀ i, is.getLast? = some i → i.1.cyc = false) (cyc : ∀ j ∈ js, j.1.cyc = true) :
    let x := Clocked.run step (powerUp r) is
    let y := Clocked.run step x js
    let taken := Clocked.emitted step accepted x js
    Clocked.emitted step acknowledged x js ++ (line 6 y.2 ++ y.1.core.waiting).map some = taken.map some ∧
    Clocked.emitted step issued x js ++ y.1.core.waiting = taken ∧
    taken.length = (Clocked.emitted step acknowledged x js).length + count y.1.core.barrellAck +
      if y.1.core.pending then 1 else 0 := by
  have start := sound_run r is
  obtain ⟨idle, waiting⟩ := begins r fresh
  generalize Clocked.run step (powerUp r) is = x at start idle waiting
  have always : Clocked.Always step (fun _ j => j.1.cyc = true) x js :=
    Clocked.always_of_inputs (fun j member _ => cyc j member) x
  have kept (x : Tracked) (j : Inputs) (sound : Sound x) (_ : j.1.cyc = true) : Sound (x.step j) := sound_step sound j
  have acks := @Clocked.conservation Tracked Inputs (Option Request) step (fun _ j => j.1.cyc = true) Sound acknowledged
    (fun x j => (x.accepted j).map some) (fun x => x.outstanding.map some) kept
    (fun x j sound cyc => acknowledged_step sound cyc) x js start always
  have issues := @Clocked.conservation Tracked Inputs Request step (fun _ j => j.1.cyc = true) Sound issued accepted
    (fun x => x.1.core.waiting) kept (fun x j sound cyc => requests_step sound cyc) x js start always
  have hom := @Clocked.emitted_hom Tracked Inputs Request step (Option Request) (List.map some) List.map_nil
    (fun _ _ => List.map_append) accepted x js
  rw [idle, List.map_nil, List.nil_append, ← hom] at acks
  rw [waiting, List.nil_append] at issues
  refine ⟨acks, issues, ?_⟩
  have lengths := congrArg List.length acks
  have flags := (marks (Clocked.run_invariant kept start always)).count
  have one : (Clocked.run step x js).1.core.waiting.length =
      if (Clocked.run step x js).1.core.pending then 1 else 0 := by
    rw [Wbsdram.waiting]
    split_ifs <;> rfl
  rw [List.length_append, List.length_map, List.length_map, outstanding, List.length_append, flags, one] at lengths
  omega

/-- Start-up, and a clock without a cycle. -/
def released : List Inputs := awake ++ [(⟨false, false, false, 0, 0, 0⟩, 0)]

/-- A write, then reads of the same word. -/
def writeReads : List Inputs :=
  (⟨true, true, true, 5, 7, 0b1111⟩, 0) :: List.replicate 13 (⟨true, true, false, 5, 0, 0b1111⟩, 0)

/-- The tags do not act on the controller. -/
theorem run_core (x : Tracked) (is : List Inputs) : (Clocked.run step x is).1 = Clocked.run Powered.step x.1 is :=
  Clocked.run_fst Powered.step (fun s i tags => s.tag i tags) x.1 x.2 is

theorem accepted_core (x : Tracked) (is : List Inputs) :
    Clocked.emitted step accepted x is = Clocked.emitted Powered.step (fun s i => s.core.accepted i.1) x.1 is :=
  @Clocked.emitted_congr Tracked Powered Inputs Request step Powered.step (fun t s => t.1 = s) (fun _ _ => True)
    accepted (fun s i => s.core.accepted i.1) (fun _ _ _ same _ => same ▸ rfl) (fun _ _ _ same _ => same ▸ rfl)
    x x.1 is rfl (Clocked.always_of_forall (fun _ _ => trivial) x is)

theorem released_core :
    (Clocked.run step (powerUp blank) released).1 = (woken 613).step (⟨false, false, false, 0, 0, 0⟩, 0) := by
  rw [run_core, powerUp, released, Clocked.run_append, awake_run]
  rfl

/-- What `writeReads` leaves in a controller out of which the order of its acknowledgements follows. -/
theorem writeReads_core {x : Tracked} (start : x.1 = (woken 613).step (⟨false, false, false, 0, 0, 0⟩, 0)) :
    Clocked.emitted step accepted x writeReads = ⟨true, 5, 7, 0b1111⟩ :: List.replicate 5 ⟨false, 5, 0, 0b1111⟩ ∧
    count (Clocked.run step x writeReads).1.core.barrellAck = 3 ∧
    (Clocked.run step x writeReads).1.core.pending = false := by
  rw [accepted_core, run_core, start]
  decide +kernel

/-- The write and two of the reads are acknowledged, and three more reads are under way. -/
theorem acknowledged_in_order_writeReads :
    Clocked.emitted step acknowledged (Clocked.run step (powerUp blank) released) writeReads =
      [some ⟨true, 5, 7, 0b1111⟩, some ⟨false, 5, 0, 0b1111⟩, some ⟨false, 5, 0, 0b1111⟩] := by
  have fresh (i : Inputs) (last : released.getLast? = some i) : i.1.cyc = false := by
    rw [released, List.getLast?_concat] at last
    cases last
    rfl
  obtain ⟨order, -, number⟩ := acknowledged_in_order blank released writeReads fresh (by decide)
  obtain ⟨taken, flags, pending⟩ := writeReads_core released_core
  rw [taken] at order
  rw [taken, flags, pending] at number
  have three : (Clocked.emitted step acknowledged (Clocked.run step (powerUp blank) released) writeReads).length = 3 :=
    Nat.add_right_cancel (Nat.add_right_cancel number.symm)
  have first := congrArg (List.take 3) order
  rw [List.take_append_of_le_length three.ge, List.take_of_length_le three.le] at first
  exact first

end Tracked

end IcoZip.Sdram
