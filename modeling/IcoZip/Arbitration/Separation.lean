import IcoZip.Arbitration.Arbiters
import IcoZip.Library.Clocked

/-! No arbiter mixes the transactions of its two masters.

An arbiter is followed together with three tallies, one of each master's cycle
and one of the combined cycle. What the arbiters share is `Lawful`; the results
about runs follow from that alone.
-/

set_option autoImplicit false

namespace IcoZip.Arbitration

variable {n aw dw : Nat}

structure Arbiter (n aw dw : Nat) where
  Reg : Type
  powerUp : Reg
  aOwner : Reg → Bool
  clock : Reg → Master n aw dw → Master n aw dw → Reg
  outputs : Reg → Master n aw dw → Master n aw dw → Answer → Outputs n aw dw

abbrev wbarbiter (aw dw : Nat) (scheme : Scheme) (zeroOnIdle : Bool) : Arbiter 1 aw dw :=
  ⟨Wbarbiter, .powerUp, Wbarbiter.rAOwner, Wbarbiter.clock scheme, Wbarbiter.outputs zeroOnIdle⟩

abbrev wbpriarbiter (aw dw : Nat) (zeroOnIdle : Bool) : Arbiter 1 aw dw :=
  ⟨Wbpriarbiter, .powerUp, Wbpriarbiter.rAOwner, Wbpriarbiter.clock, Wbpriarbiter.outputs zeroOnIdle⟩

abbrev wbdblpriarb (aw dw : Nat) (zeroOnIdle : Bool) : Arbiter 2 aw dw :=
  ⟨Wbdblpriarb, .powerUp, Wbdblpriarb.rAOwner, Wbdblpriarb.clock false, Wbdblpriarb.outputs zeroOnIdle⟩

structure Inputs (n aw dw : Nat) where
  a : Master n aw dw
  b : Master n aw dw
  slave : Answer
  deriving DecidableEq, Repr

def Inputs.master (i : Inputs n aw dw) (side : Bool) : Master n aw dw := if side then i.a else i.b

def Outputs.hear (o : Outputs n aw dw) (side : Bool) : Answer := if side then o.a else o.b

/-- Requests accepted and answers received, errors among them, in a cycle. -/
structure Tally where
  requests : Nat
  responses : Nat
  deriving DecidableEq, Repr

/-- Nothing is left of a cycle once its line is low; an answer heard then is an answer too many. -/
def Tally.next (t : Tally) (m : Master n aw dw) (answer : Answer) : Tally where
  requests := (if m.cycle then t.requests else 0) + (m.requests && !answer.stall).toNat
  responses := (if m.cycle then t.responses else 0) + answer.ack.toNat + answer.err.toNat

structure Bench (u : Arbiter n aw dw) where
  core : u.Reg
  tally : Bool → Tally
  combined : Tally

namespace Bench

variable {u : Arbiter n aw dw}

def powerUp (u : Arbiter n aw dw) : Bench u := ⟨u.powerUp, fun _ => ⟨0, 0⟩, ⟨0, 0⟩⟩

variable (x : Bench u) (i : Inputs n aw dw)

def owner : Bool := u.aOwner x.core

def outputs : Outputs n aw dw := u.outputs x.core i.a i.b i.slave

/-- The masters' tallies and that of the combined cycle, this clock included. -/
def tallied (side : Bool) : Tally := (x.tally side).next (i.master side) ((x.outputs i).hear side)

def counted : Tally := x.combined.next (x.outputs i).bus i.slave

def step : Bench u := ⟨u.clock x.core i.a i.b, x.tallied i, x.counted i⟩

def run : List (Inputs n aw dw) → Bench u := Clocked.run step x

/-- The slave answers within the combined cycle only, and each request at most once. -/
def answers : Prop := (x.counted i).responses ≤ (x.counted i).requests

instance : Decidable (x.answers i) := inferInstanceAs (Decidable (_ ≤ _))

/-- A master's request goes downstream. -/
def passes (side : Bool) : Prop := x.owner = side ∧ (x.outputs i).bus.requests = true

end Bench

/-! ### What the arbiters share -/

theorem Master.cycle_of_requests {m : Master n aw dw} (requests : m.requests = true) : m.cycle = true := by
  simp only [Master.requests, Master.cycle, bne_iff_ne, ne_eq] at requests ⊢
  intro zero
  exact requests (by rw [zero]; exact BitVec.zero_and)

theorem Master.strobe_of_requests {m : Master n aw dw} (requests : m.requests = true) : m.strobe = true := by
  simp only [Master.requests, Master.strobe, bne_iff_ne, ne_eq] at requests ⊢
  intro zero
  exact requests (by rw [zero]; exact BitVec.and_zero)

/-- A bus that carries the cycles and the requests of `m`, and these unchanged. -/
structure Carries (bus m : Master n aw dw) : Prop where
  cycle : bus.cycle = m.cycle
  request : bus.requests = m.requests
  unchanged : m.requests = true → bus = m

theorem Carries.refl (m : Master n aw dw) : Carries m m := ⟨rfl, rfl, fun _ => rfl⟩

theorem Carries.idled {bus m : Master n aw dw} (carries : Carries bus m) : Carries bus.idled m where
  cycle := carries.cycle
  request := carries.request
  unchanged requests := by
    have same := carries.unchanged requests
    rw [same]
    simp [Master.idled, Master.strobe_of_requests requests]

/-- Gating the strobe by the cycle takes no request away. -/
theorem Carries.gated (m : Master n aw dw) : Carries { m with stb := if m.cycle then m.stb else 0 } m where
  cycle := rfl
  request := by
    cases cycle : m.cycle with
    | true => rfl
    | false =>
      have none_ : m.requests = false := by
        cases requests : m.requests with
        | false => rfl
        | true => rw [Master.cycle_of_requests requests] at cycle; exact cycle
      rw [none_]
      simp [Master.requests]
  unchanged requests := by simp [Master.cycle_of_requests requests]

theorem Wbarbiter.carries (zeroOnIdle : Bool) (s : Wbarbiter) (a b : Master 1 aw dw) :
    Carries (s.bus zeroOnIdle a b) (select s.rAOwner a b) := by
  cases zeroOnIdle with
  | true => exact (Carries.gated _).idled
  | false => exact .refl _

theorem Wbpriarbiter.carries (zeroOnIdle : Bool) (s : Wbpriarbiter) (a b : Master 1 aw dw) :
    Carries (s.bus zeroOnIdle a b) (select s.rAOwner a b) := by
  cases zeroOnIdle with
  | true => exact (Carries.refl _).idled
  | false => exact .refl _

theorem Wbdblpriarb.carries (zeroOnIdle : Bool) (s : Wbdblpriarb) (a b : Master 2 aw dw) :
    Carries (s.bus zeroOnIdle a b) (select s.rAOwner a b) := by
  cases zeroOnIdle with
  | true => exact (Carries.refl _).idled
  | false => exact .refl _

/-- What a register of ownership has to do for its arbiter to be lawful. -/
structure Owned (aOwner aOwner' : Bool) (a b : Master n aw dw) : Prop where
  a_holds : aOwner = true → a.cycle = true → aOwner' = true
  b_holds : aOwner = false → b.cycle = true → aOwner' = false

theorem Wbarbiter.owned (scheme : Scheme) (s : Wbarbiter) (a b : Master 1 aw dw) :
    Owned s.rAOwner (s.clock scheme a b).rAOwner a b where
  a_holds owner cycle := by cases scheme <;> simp [clock, owner, cycle]
  b_holds owner cycle := by cases scheme <;> simp [clock, owner, cycle]

theorem Wbpriarbiter.owned (s : Wbpriarbiter) (a b : Master 1 aw dw) : Owned s.rAOwner (s.clock a b).rAOwner a b where
  a_holds owner cycle := by simp [clock, owner, cycle]
  b_holds owner cycle := by simp [clock, owner, cycle]

theorem Wbdblpriarb.owned (s : Wbdblpriarb) (a b : Master 2 aw dw) :
    Owned s.rAOwner (s.clock false a b).rAOwner a b where
  a_holds owner cycle := by simp [clock, owner, cycle]
  b_holds owner cycle := by simp [clock, owner, cycle]

/-- The contract of an arbiter: its owner keeps the bus through its cycle, the bus carries the owner's requests, the
owner hears the slave and the other master a stall. -/
structure Lawful (u : Arbiter n aw dw) : Prop where
  owned : ∀ s a b, Owned (u.aOwner s) (u.aOwner (u.clock s a b)) a b
  carries : ∀ s a b slave, Carries (u.outputs s a b slave).bus (select (u.aOwner s) a b)
  hears : ∀ s a b slave, ∃ granted, ((select (u.aOwner s) a b).cycle = true → granted = true) ∧
    (u.outputs s a b slave).a = hears (u.aOwner s && granted) slave ∧
    (u.outputs s a b slave).b = hears (!u.aOwner s && granted) slave

theorem wbarbiter_lawful (scheme : Scheme) (zeroOnIdle : Bool) : Lawful (wbarbiter aw dw scheme zeroOnIdle) where
  owned := Wbarbiter.owned scheme
  carries s a b _ := s.carries zeroOnIdle a b
  hears s a b slave := by
    refine ⟨!zeroOnIdle || (s.bus zeroOnIdle a b).cycle, fun cycle => ?_, rfl, rfl⟩
    rw [(s.carries zeroOnIdle a b).cycle, cycle, Bool.or_true]

theorem wbpriarbiter_lawful (zeroOnIdle : Bool) : Lawful (wbpriarbiter aw dw zeroOnIdle) where
  owned := Wbpriarbiter.owned
  carries s a b _ := s.carries zeroOnIdle a b
  hears s a b slave := by
    refine ⟨!zeroOnIdle || (s.bus zeroOnIdle a b).cycle, fun cycle => ?_, rfl, rfl⟩
    rw [(s.carries zeroOnIdle a b).cycle, cycle, Bool.or_true]

theorem wbdblpriarb_lawful (zeroOnIdle : Bool) : Lawful (wbdblpriarb aw dw zeroOnIdle) where
  owned := Wbdblpriarb.owned
  carries s a b _ := s.carries zeroOnIdle a b
  hears s a b slave := by
    refine ⟨!zeroOnIdle || (s.bus zeroOnIdle a b).cycle, fun cycle => ?_, rfl, rfl⟩
    rw [(s.carries zeroOnIdle a b).cycle, cycle, Bool.or_true]

/-! ### Runs -/

section
variable {u : Arbiter n aw dw} {x : Bench u} {i : Inputs n aw dw} {side : Bool}

theorem Lawful.keeps (lawful : Lawful u) (owner : x.owner = side) (cycle : (i.master side).cycle = true) :
    (x.step i).owner = side := by
  have owned := lawful.owned x.core i.a i.b
  cases side with
  | true => exact owned.a_holds owner cycle
  | false => exact owned.b_holds owner cycle

theorem Lawful.bus (lawful : Lawful u) (x : Bench u) (i : Inputs n aw dw) :
    Carries (x.outputs i).bus (i.master x.owner) := lawful.carries x.core i.a i.b i.slave

theorem Lawful.other (lawful : Lawful u) (other : side ≠ x.owner) :
    (x.outputs i).hear side = ⟨true, false, false⟩ := by
  obtain ⟨granted, -, a, b⟩ := lawful.hears x.core i.a i.b i.slave
  cases side with
  | true =>
    have owner : x.owner = false := by simpa using Ne.symm other
    rw [Bench.owner] at owner
    rw [owner] at a
    exact a
  | false =>
    have owner : x.owner = true := by simpa using Ne.symm other
    rw [Bench.owner] at owner
    rw [owner] at b
    exact b

/-- The owner hears the slave, in its cycle at any rate. -/
theorem Lawful.owner (lawful : Lawful u) (x : Bench u) (i : Inputs n aw dw) :
    ∃ granted, ((i.master x.owner).cycle = true → granted = true) ∧
      (x.outputs i).hear x.owner = Arbitration.hears granted i.slave := by
  obtain ⟨granted, grants, a, b⟩ := lawful.hears x.core i.a i.b i.slave
  refine ⟨granted, grants, ?_⟩
  have hear : (x.outputs i).hear x.owner = if u.aOwner x.core then (x.outputs i).a else (x.outputs i).b := rfl
  cases owner : u.aOwner x.core with
  | true => rw [hear, owner, if_pos rfl, Bench.outputs, a, owner]; rfl
  | false => rw [hear, owner, if_neg Bool.false_ne_true, Bench.outputs, b, owner]; rfl

/-- The owner's tally is that of the combined cycle, the other master's is empty. -/
structure Balanced (x : Bench u) : Prop where
  owner : x.tally x.owner = x.combined
  other : ∀ side, side ≠ x.owner → x.tally side = ⟨0, 0⟩

theorem tally_waits (m : Master n aw dw) : Tally.next ⟨0, 0⟩ m ⟨true, false, false⟩ = ⟨0, 0⟩ := by
  simp [Tally.next]

/-- Outside the combined cycle nothing is accepted, and nothing is left to answer. -/
theorem Lawful.outside (lawful : Lawful u) (low : (i.master x.owner).cycle = false) (answers : x.answers i) :
    (i.slave.ack = false ∧ i.slave.err = false) ∧ x.counted i = ⟨0, 0⟩ := by
  have cycle := (lawful.bus x i).cycle.trans low
  have request : (x.outputs i).bus.requests = false := by
    cases requests : (x.outputs i).bus.requests with
    | false => rfl
    | true => rw [Master.cycle_of_requests requests] at cycle; exact cycle
  simp only [Bench.answers, Bench.counted, Tally.next, cycle, request, Bool.false_and, Bool.toNat_false] at answers ⊢
  cases ack : i.slave.ack <;> cases err : i.slave.err <;> simp [ack, err] at answers ⊢

theorem Lawful.other_step (lawful : Lawful u) (balanced : Balanced x) (other : side ≠ x.owner) :
    x.tallied i side = ⟨0, 0⟩ := by
  rw [Bench.tallied, balanced.other side other, lawful.other other, tally_waits]

theorem Lawful.owner_step (lawful : Lawful u) (balanced : Balanced x) (answers : x.answers i) :
    x.tallied i x.owner = x.counted i := by
  obtain ⟨granted, grants, hear⟩ := lawful.owner x i
  have bus := lawful.bus x i
  cases cycle : (i.master x.owner).cycle with
  | true =>
    have heard : (x.outputs i).hear x.owner = i.slave := by rw [hear, grants cycle]; rfl
    rw [Bench.tallied, Bench.counted, balanced.owner, heard]
    simp only [Tally.next, bus.cycle, bus.request]
  | false =>
    obtain ⟨⟨ack, err⟩, empty⟩ := lawful.outside cycle answers
    have request : (i.master x.owner).requests = false := by
      cases requests : (i.master x.owner).requests with
      | false => rfl
      | true => rw [Master.cycle_of_requests requests] at cycle; exact cycle
    rw [empty, Bench.tallied, hear]
    cases granted <;> simp [Tally.next, Arbitration.hears, cycle, request, ack, err]

theorem Lawful.balanced_step (lawful : Lawful u) (balanced : Balanced x) (answers : x.answers i) :
    Balanced (x.step i) := by
  cases cycle : (i.master x.owner).cycle with
  | true =>
    have same : (x.step i).owner = x.owner := lawful.keeps rfl cycle
    constructor
    case owner => rw [same]; exact lawful.owner_step balanced answers
    case other =>
      intro side other
      rw [same] at other
      exact lawful.other_step balanced other
  | false =>
    -- whoever is the owner now, every tally is empty
    have empty := (lawful.outside cycle answers).2
    have all (side : Bool) : (x.step i).tally side = ⟨0, 0⟩ := by
      by_cases owner : side = x.owner
      · rw [owner]
        exact (lawful.owner_step balanced answers).trans empty
      · exact lawful.other_step balanced owner
    exact ⟨(all _).trans empty.symm, fun side _ => all side⟩

theorem balanced_powerUp : Balanced (Bench.powerUp u) := ⟨rfl, fun _ _ => rfl⟩

theorem Lawful.balanced_run (lawful : Lawful u) {is : List (Inputs n aw dw)}
    (answers : Clocked.Always Bench.step Bench.answers (Bench.powerUp u) is) : Balanced ((Bench.powerUp u).run is) :=
  Clocked.run_invariant (fun _ _ balanced now => lawful.balanced_step balanced now) balanced_powerUp answers

/-- In its current cycle no master hears more answers than it has had requests accepted. -/
theorem Lawful.answered (lawful : Lawful u) (balanced : Balanced x) (answers : x.answers i) (side : Bool) :
    (x.tallied i side).responses ≤ (x.tallied i side).requests := by
  by_cases owner : side = x.owner
  · rw [owner, lawful.owner_step balanced answers]
    exact answers
  · rw [lawful.other_step balanced owner]

/-- The bus is given to the other master in a clock in which the combined cycle is low. -/
theorem Lawful.hands_over (lawful : Lawful u) (moved : (x.step i).owner ≠ x.owner) :
    (x.outputs i).bus.cycle = false := by
  rw [(lawful.bus x i).cycle]
  exact Bool.not_eq_true _ ▸ fun cycle => moved (lawful.keeps rfl cycle)

/-- Where the owner has changed over a run, the combined cycle has been low. -/
theorem Lawful.hands_over_run (lawful : Lawful u) (x : Bench u) (is : List (Inputs n aw dw))
    (moved : (x.run is).owner ≠ x.owner) :
    ∃ front k rest, is = front ++ k :: rest ∧ ((x.run front).outputs k).bus.cycle = false := by
  induction is generalizing x with
  | nil => exact absurd rfl moved
  | cons i is ih =>
    by_cases same : (x.step i).owner = x.owner
    · obtain ⟨front, k, rest, split, low⟩ := ih (x.step i) (by rw [same]; exact moved)
      exact ⟨i :: front, k, rest, by rw [split]; rfl, low⟩
    · exact ⟨[], i, is, rfl, lawful.hands_over same⟩

end

/-- An arbiter never mixes the transactions of its two masters, whatever these do with their lines. -/
structure Separates (u : Arbiter n aw dw) : Prop where
  /-- The owner does not change while it holds its cycle line. -/
  holds : ∀ (is : List (Inputs n aw dw)) (i : Inputs n aw dw),
    (i.master ((Bench.powerUp u).run is).owner).cycle = true →
    ((Bench.powerUp u).run (is ++ [i])).owner = ((Bench.powerUp u).run is).owner
  /-- Between requests of different masters the combined cycle is low. -/
  apart : ∀ (is : List (Inputs n aw dw)) (i : Inputs n aw dw) (js : List (Inputs n aw dw)) (j : Inputs n aw dw)
      (side : Bool),
    ((Bench.powerUp u).run is).passes i side → ((Bench.powerUp u).run (is ++ i :: js)).passes j (!side) →
    ∃ front k rest, js = front ++ k :: rest ∧
      (((Bench.powerUp u).run (is ++ i :: front)).outputs k).bus.cycle = false
  /-- What goes downstream comes from the owner unchanged. -/
  unchanged : ∀ (is : List (Inputs n aw dw)) (i : Inputs n aw dw),
    (((Bench.powerUp u).run is).outputs i).bus.requests = true →
    (((Bench.powerUp u).run is).outputs i).bus = i.master ((Bench.powerUp u).run is).owner
  /-- No master hears more answers than it has had requests accepted in its current cycle. -/
  answered : ∀ (is : List (Inputs n aw dw)) (i : Inputs n aw dw),
    Clocked.Always Bench.step Bench.answers (Bench.powerUp u) (is ++ [i]) → ∀ side,
    (((Bench.powerUp u).run is).tallied i side).responses ≤ (((Bench.powerUp u).run is).tallied i side).requests
  /-- Who is not the owner sees a stall. -/
  stalls : ∀ (is : List (Inputs n aw dw)) (i : Inputs n aw dw) (side : Bool),
    side ≠ ((Bench.powerUp u).run is).owner → ((((Bench.powerUp u).run is).outputs i).hear side).stall = true

theorem Lawful.separates {u : Arbiter n aw dw} (lawful : Lawful u) : Separates u where
  holds is i cycle := by
    rw [Bench.run, Clocked.run_append]
    exact lawful.keeps rfl cycle
  apart is i js j side := by
    rintro ⟨owner, request⟩ ⟨owner', -⟩
    have cycle := Master.cycle_of_requests request
    rw [(lawful.bus _ i).cycle] at cycle
    have kept : (((Bench.powerUp u).run is).step i).owner = side := (lawful.keeps rfl cycle).trans owner
    have split (ks : List (Inputs n aw dw)) :
        (Bench.powerUp u).run (is ++ i :: ks) = (((Bench.powerUp u).run is).step i).run ks :=
      Clocked.run_append Bench.step _ is (i :: ks)
    rw [split] at owner'
    obtain ⟨front, k, rest, parts, low⟩ := lawful.hands_over_run (((Bench.powerUp u).run is).step i) js (by
      rw [owner', kept]
      exact Bool.not_ne_self side)
    exact ⟨front, k, rest, parts, by rw [split]; exact low⟩
  unchanged is i request := by
    have bus := lawful.bus ((Bench.powerUp u).run is) i
    exact bus.unchanged (bus.request ▸ request)
  answered is i answers side := by
    obtain ⟨before, now, -⟩ := (Clocked.always_append Bench.step _ is [i]).mp answers
    exact lawful.answered (lawful.balanced_run before) now side
  stalls is i side other := by rw [lawful.other other]

/-- Every arbiter of the repository keeps its masters apart. -/
theorem masters_apart (aw dw : Nat) (scheme : Scheme) (zeroOnIdle : Bool) :
    Separates (wbarbiter aw dw scheme zeroOnIdle) ∧ Separates (wbpriarbiter aw dw zeroOnIdle) ∧
      Separates (wbdblpriarb aw dw zeroOnIdle) :=
  ⟨(wbarbiter_lawful scheme zeroOnIdle).separates, (wbpriarbiter_lawful zeroOnIdle).separates,
    (wbdblpriarb_lawful zeroOnIdle).separates⟩

/-- A asks first and is answered while B waits; behind A's cycle B is the owner, and A waits until it has ended. -/
theorem masters_apart_in_turn :
    let idle : Master 1 4 8 := ⟨0, 0, false, 0, 0, 0⟩
    let asks (adr : BitVec 4) : Master 1 4 8 := ⟨1, 1, false, adr, 0, 1⟩
    let waits : Master 1 4 8 := ⟨1, 0, false, 0, 0, 0⟩
    let quiet : Answer := ⟨false, false, false⟩
    let acks : Answer := ⟨false, true, false⟩
    let a : Inputs 1 4 8 := ⟨asks 3, asks 5, quiet⟩
    let between : List (Inputs 1 4 8) := [⟨waits, asks 5, acks⟩, ⟨idle, asks 5, quiet⟩]
    let b : Inputs 1 4 8 := ⟨asks 4, asks 5, quiet⟩
    let ends : Inputs 1 4 8 := ⟨asks 4, waits, acks⟩
    let x := Bench.powerUp (wbarbiter 4 8 .alternating false)
    let y := x.run ([] ++ a :: between)
    let z := x.run ([] ++ a :: between ++ [b])
    (∃ front k rest, between = front ++ k :: rest ∧ ((x.run ([] ++ a :: front)).outputs k).bus.cycle = false) ∧
      (y.outputs b).bus = b.b ∧ ((y.outputs b).hear true).stall = true ∧
      (z.tallied ends false).responses = 1 ∧ (z.tallied ends false).responses ≤ (z.tallied ends false).requests := by
  intro idle asks waits quiet acks a between b ends x y z
  obtain ⟨arbiter, -, -⟩ := masters_apart 4 8 .alternating false
  refine ⟨arbiter.apart [] a between b true ⟨rfl, by decide⟩ ⟨rfl, by decide⟩, arbiter.unchanged _ b (by decide),
    arbiter.stalls _ b true nofun, rfl, ?_⟩
  exact arbiter.answered ([] ++ a :: between ++ [b]) ends (by decide +kernel) false

end IcoZip.Arbitration
