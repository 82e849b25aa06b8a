import IcoZip.Library.Clocked
import Mathlib.Data.BitVec
import Mathlib.Data.List.MinMax

/-! The jiffies counter `zipjiffies`, and the wake-ups that are asked for.

Beside the registers stand the times that have been written since the last interrupt. A
time is recorded in the clock in which it is written; the registers follow one clock later.
-/

set_option autoImplicit false

namespace IcoZip.Zipcore

structure Zipjiffies where
  counter : BitVec 32
  intNow : Bool
  newSet : Bool
  newWhen : BitVec 32
  tillWb : BitVec 32
  tillWhen : BitVec 32
  int : Bool
  intSet : Bool
  intWhen : BitVec 32
  wbAck : Bool
  deriving DecidableEq, Repr, Inhabited

namespace Zipjiffies

structure Inputs where
  reset : Bool
  ce : Bool
  wbStb : Bool
  wbWe : Bool
  wbData : BitVec 32
  deriving DecidableEq, Repr

def Inputs.writes (i : Inputs) : Bool := i.wbStb && i.wbWe

/-- `(i_ce ? 1 : 0)` -/
def Inputs.tick (i : Inputs) : BitVec 32 := if i.ce then 1 else 0

/-- A signed number above zero. -/
def positive (x : BitVec 32) : Bool := !x.msb && x != 0

section
variable (s : Zipjiffies) (i : Inputs)

def clock : Zipjiffies where
  counter := if i.reset then 0 else if i.ce then s.counter + 1 else s.counter
  intNow := if i.reset then false else if i.ce then s.counter + 1 == s.intWhen else false
  newSet := if i.reset then false else i.writes
  newWhen := i.wbData
  tillWb := i.wbData - s.counter - i.tick
  tillWhen := s.intWhen - i.wbData
  int :=
    if i.reset then false
    else if i.ce && s.intSet && s.counter == s.intWhen then true
    else s.newSet && !positive s.tillWb
  intSet :=
    if i.reset then false
    else if s.newSet && positive s.tillWb then true
    else if s.intNow then false
    else s.intSet
  intWhen :=
    if s.newSet && positive s.tillWb && (s.tillWhen.msb || !s.intSet) then s.newWhen
    else s.intWhen
  wbAck := if i.reset then false else i.wbStb

/-- `o_wb_data` -/
def wbData : BitVec 32 := s.counter

/-- A time to come is looked at. -/
def taken : Bool := s.newSet && positive s.tillWb

end

/-! ### Wake-ups -/

/-- How far a time is ahead of the counter. -/
def ahead (counter time : BitVec 32) : Nat := (time - counter).toNat

/-- The pending time: the nearest of those written. -/
def nearest (counter : BitVec 32) (written : List (BitVec 32)) : Option (BitVec 32) :=
  written.argmin (ahead counter)

/-- The times written since the last interrupt, and whether the last clock reached one of them or was given one
that was not ahead.
-/
structure Wakeups where
  written : List (BitVec 32)
  hit : Bool

/-- What a clock makes of them. -/
def Wakeups.next (w : Wakeups) (counter : BitVec 32) (i : Inputs) : Wakeups :=
  let reached := i.ce && nearest counter w.written == some (counter + 1)
  let rest := if reached then [] else w.written
  if i.writes then
    if positive (i.wbData - counter) then
      if i.wbData = counter + i.tick then ⟨[], true⟩ else ⟨i.wbData :: rest, reached⟩
    else ⟨rest, true⟩
  else ⟨rest, reached⟩

structure Bench where
  core : Zipjiffies
  wakeups : Wakeups

def step (x : Bench) (i : Inputs) : Bench := ⟨x.core.clock i, x.wakeups.next x.core.counter i⟩

/-- After a clock with `i_reset`. -/
def afterReset (s : Zipjiffies) (i : Inputs) : Bench := ⟨s.clock { i with reset := true }, ⟨[], false⟩⟩

/-- What the registers need of a clock. -/
structure Regular (x : Bench) (i : Inputs) : Prop where
  enabled : x.core.intSet = true → x.core.counter = x.core.intWhen → i.ce = true
  nearer : x.core.taken = true → x.core.intSet = true → x.core.tillWhen.msb = true →
    x.core.counter = x.core.intWhen ∨ ahead x.core.counter x.core.newWhen ≤ ahead x.core.counter x.core.intWhen
  farther : x.core.taken = true → x.core.intSet = true → x.core.tillWhen.msb = false →
    x.core.counter ≠ x.core.intWhen ∧ ahead x.core.counter x.core.intWhen ≤ ahead x.core.counter x.core.newWhen
  noticed : x.core.taken = true → (x.core.tillWhen.msb || !x.core.intSet) = true → i.ce = true →
    (x.core.counter + 1 = x.core.intWhen ↔ x.core.counter + 1 = x.core.newWhen)
  alone : i.writes = true → i.ce = true → i.wbData = x.core.counter + 1 →
    x.wakeups.written = [] ∨ nearest x.core.counter x.wakeups.written = some (x.core.counter + 1)
  signed : i.writes = true → i.ce = true → i.wbData ≠ x.core.counter + BitVec.intMin 32

/-! ### Times ahead -/

theorem ahead_zero {counter time : BitVec 32} : ahead counter time = 0 ↔ counter = time := by
  unfold ahead
  rw [BitVec.toNat_sub]
  have first := counter.isLt
  have second := time.isLt
  constructor
  · intro zero
    apply BitVec.eq_of_toNat_eq
    omega
  · rintro rfl
    omega

theorem ahead_succ {counter time : BitVec 32} (later : counter ≠ time) :
    ahead (counter + 1) time + 1 = ahead counter time := by
  have some := mt ahead_zero.mp later
  unfold ahead at some ⊢
  have first := counter.isLt
  have second := time.isLt
  have one : (1 : BitVec 32).toNat = 1 := rfl
  rw [BitVec.toNat_sub, BitVec.toNat_add, one]
  rw [BitVec.toNat_sub] at some ⊢
  omega

theorem ahead_one (counter : BitVec 32) : ahead counter (counter + 1) = 1 := by
  rw [ahead, BitVec.add_comm, BitVec.add_sub_cancel]
  rfl

theorem ahead_inj {counter a b : BitVec 32} (same : ahead counter a = ahead counter b) : a = b := by
  unfold ahead at same
  rw [BitVec.toNat_sub, BitVec.toNat_sub] at same
  have first := counter.isLt
  have second := a.isLt
  have third := b.isLt
  apply BitVec.eq_of_toNat_eq
  omega

/-- A time is ahead as a signed difference. -/
theorem positive_iff (counter time : BitVec 32) :
    positive (time - counter) = true ↔ 0 < ahead counter time ∧ ahead counter time < 2 ^ 31 := by
  have sign := BitVec.msb_eq_decide (time - counter)
  have zero : time - counter = 0 ↔ ahead counter time = 0 := by
    rw [← BitVec.toNat_inj]
    rfl
  unfold positive
  rw [Bool.and_eq_true, sign, bne_iff_ne, Ne, zero]
  simp only [Bool.not_eq_true', decide_eq_false_iff_not, ahead]
  omega

theorem nearest_iff {counter : BitVec 32} {written : List (BitVec 32)} {time : BitVec 32} :
    nearest counter written = some time ↔
      time ∈ written ∧ ∀ other ∈ written, ahead counter time ≤ ahead counter other := by
  unfold nearest
  rw [List.argmin_eq_some_iff]
  constructor
  · exact fun h => ⟨h.1, h.2.1⟩
  · intro h
    refine ⟨h.1, h.2, fun other member least => ?_⟩
    rw [ahead_inj (Nat.le_antisymm least (h.2 other member))]

/-! ### The pending time -/

/-- A pending time, if there is one, is the nearest of some times, all of them ahead. -/
structure Stands (counter : BitVec 32) (set : Bool) (time : BitVec 32) (times : List (BitVec 32)) : Prop where
  empty : set = false → times = []
  least : set = true → time ∈ times ∧ ∀ other ∈ times, ahead counter time ≤ ahead counter other
  near : ∀ other ∈ times, 0 < ahead counter other ∧ ahead counter other < 2 ^ 31

section
variable {counter time : BitVec 32} {set : Bool} {times : List (BitVec 32)}

theorem Stands.none (counter time : BitVec 32) : Stands counter false time [] where
  empty _ := rfl
  least pending := absurd pending Bool.false_ne_true
  near _ member := absurd member List.not_mem_nil

theorem Stands.single (near : 0 < ahead counter time ∧ ahead counter time < 2 ^ 31) :
    Stands counter true time [time] where
  empty idle := absurd idle.symm Bool.false_ne_true
  least _ := ⟨List.mem_singleton_self _, fun other member => by rw [List.mem_singleton.mp member]⟩
  near other member := by
    rw [List.mem_singleton.mp member]
    exact near

theorem Stands.nearer (stands : Stands counter true time times) {new : BitVec 32}
    (near : 0 < ahead counter new ∧ ahead counter new < 2 ^ 31) (order : ahead counter new ≤ ahead counter time) :
    Stands counter true new (new :: times) where
  empty idle := absurd idle.symm Bool.false_ne_true
  least _ := ⟨List.mem_cons_self, List.forall_mem_cons.mpr
    ⟨Nat.le_refl _, fun other member => Nat.le_trans order ((stands.least rfl).2 other member)⟩⟩
  near := List.forall_mem_cons.mpr ⟨near, stands.near⟩

theorem Stands.farther (stands : Stands counter true time times) {new : BitVec 32}
    (near : 0 < ahead counter new ∧ ahead counter new < 2 ^ 31) (order : ahead counter time ≤ ahead counter new) :
    Stands counter true time (new :: times) where
  empty idle := absurd idle.symm Bool.false_ne_true
  least _ := ⟨List.mem_cons_of_mem _ (stands.least rfl).1, List.forall_mem_cons.mpr ⟨order, (stands.least rfl).2⟩⟩
  near := List.forall_mem_cons.mpr ⟨near, stands.near⟩

theorem Stands.pending (stands : Stands counter set time times) {other : BitVec 32} (member : other ∈ times) :
    set = true := by
  by_contra idle
  rw [stands.empty (eq_false_of_ne_true idle)] at member
  exact List.not_mem_nil member

theorem Stands.elsewhere (stands : Stands counter set time times) {other : BitVec 32} (member : other ∈ times) :
    counter ≠ other := by
  intro here
  have positive := (stands.near other member).1
  rw [ahead_zero.mpr here] at positive
  exact Nat.lt_irrefl 0 positive

/-- The pending time is reached when the nearest one is. -/
theorem Stands.reached (stands : Stands counter set time times) :
    (nearest counter times == some (counter + 1)) = (set && counter + 1 == time) := by
  rw [Bool.eq_iff_iff, beq_iff_eq, nearest_iff, Bool.and_eq_true, beq_iff_eq]
  constructor
  · rintro ⟨member, least⟩
    have pending := stands.pending member
    obtain ⟨own, nearest⟩ := stands.least pending
    exact ⟨pending, ahead_inj (Nat.le_antisymm (least time own) (nearest _ member))⟩
  · rintro ⟨pending, rfl⟩
    exact stands.least pending

/-- What is not reached stays ahead. -/
theorem Stands.tick (stands : Stands counter set time times) (misses : (set && counter + 1 == time) = false) :
    Stands (counter + 1) set time times := by
  refine ⟨stands.empty, fun pending => ?_, fun other member => ?_⟩
  · obtain ⟨own, least⟩ := stands.least pending
    refine ⟨own, fun other member => ?_⟩
    have first := ahead_succ (stands.elsewhere own)
    have second := ahead_succ (stands.elsewhere member)
    have order := least other member
    omega
  · have pending := stands.pending member
    obtain ⟨own, least⟩ := stands.least pending
    have away : counter + 1 ≠ time := by
      intro here
      rw [pending, beq_iff_eq.mpr here] at misses
      exact Bool.false_ne_true misses.symm
    have later := mt ahead_zero.mp away
    have first := ahead_succ (stands.elsewhere own)
    have second := ahead_succ (stands.elsewhere member)
    have order := least other member
    have bound := (stands.near other member).2
    omega

end

/-! ### The registers follow -/

/-- The pending time has just been reached. -/
def expiring (s : Zipjiffies) : Bool := s.intSet && s.counter == s.intWhen

/-- The registers, with the time that they look at now, stand for what has been written. -/
structure Follows (x : Bench) : Prop where
  till : x.core.newSet = true → x.core.tillWb = x.core.newWhen - x.core.counter
  now : x.core.intSet = true → x.core.intNow = (x.core.counter == x.core.intWhen)
  hit : x.wakeups.hit = (x.core.expiring || x.core.newSet && !positive x.core.tillWb)
  written : ∃ older, x.wakeups.written = (if x.core.taken then x.core.newWhen :: older else older) ∧
    (x.core.expiring = true → older = []) ∧
      (x.core.expiring = false → Stands x.core.counter x.core.intSet x.core.intWhen older)

variable {x : Bench} {i : Inputs}

theorem follows_reset (s : Zipjiffies) (i : Inputs) : Follows (afterReset s i) where
  till none := absurd none Bool.false_ne_true
  now none := absurd none Bool.false_ne_true
  hit := rfl
  written := ⟨[], rfl, fun _ => rfl, fun _ => Stands.none _ _⟩

/-- What the registers make of the time that they look at. -/
theorem Follows.digest (follows : Follows x) (regular : Regular x i) (free : i.reset = false) :
    Stands x.core.counter (x.core.clock i).intSet (x.core.clock i).intWhen x.wakeups.written := by
  obtain ⟨older, written, forgotten, stands⟩ := follows.written
  have set : (x.core.clock i).intSet = (x.core.taken || x.core.intSet && !x.core.expiring) := by
    have digested : ∀ fresh pending now here : Bool, (pending = true → now = here) →
        (if fresh then true else if now then false else pending) = (fresh || pending && !(pending && here)) := by
      decide
    simp only [clock, free, Bool.false_eq_true, if_false]
    exact digested _ _ _ _ follows.now
  have time : (x.core.clock i).intWhen =
      if x.core.taken && (x.core.tillWhen.msb || !x.core.intSet) then x.core.newWhen else x.core.intWhen := rfl
  -- a time that was written a clock ago comes into the registers now, or none does
  cases takes : x.core.taken with
  | false =>
    rw [takes, if_neg Bool.false_ne_true] at written
    rw [takes, Bool.false_and, if_neg Bool.false_ne_true] at time
    rw [set, takes, time, written, Bool.false_or]
    cases expires : x.core.expiring with
    | true =>
      rw [forgotten expires, Bool.not_true, Bool.and_false]
      exact Stands.none _ _
    | false =>
      rw [Bool.not_false, Bool.and_true]
      exact stands expires
  | true =>
    rw [takes, if_pos rfl] at written
    rw [takes, Bool.true_and] at time
    rw [set, takes, time, written, Bool.true_or]
    obtain ⟨fresh, near⟩ := Bool.and_eq_true_iff.mp takes
    rw [follows.till fresh, positive_iff] at near
    cases expires : x.core.expiring with
    | true =>
      obtain ⟨pending, here⟩ := Bool.and_eq_true_iff.mp expires
      have sign : x.core.tillWhen.msb = true := by
        by_contra other
        exact (regular.farther takes pending (eq_false_of_ne_true other)).1 (beq_iff_eq.mp here)
      rw [forgotten expires, sign, Bool.true_or, if_pos rfl]
      exact Stands.single near
    | false =>
      have before := stands expires
      cases pending : x.core.intSet with
      | false =>
        rw [before.empty pending, Bool.not_false, Bool.or_true, if_pos rfl]
        exact Stands.single near
      | true =>
        have later : x.core.counter ≠ x.core.intWhen := before.elsewhere (before.least pending).1
        rw [pending] at before
        rw [Bool.not_true, Bool.or_false]
        cases sign : x.core.tillWhen.msb with
        | true => exact before.nearer near ((regular.nearer takes pending sign).resolve_left later)
        | false => exact before.farther near (regular.farther takes pending sign).2

theorem counter_clock (free : i.reset = false) : (x.core.clock i).counter = x.core.counter + i.tick := by
  simp only [clock, free, Inputs.tick, Bool.false_eq_true, if_false]
  cases i.ce with
  | true => rfl
  | false => exact (BitVec.add_zero _).symm

/-- After the clock, before what it writes is counted in. -/
theorem Follows.moves (follows : Follows x) (regular : Regular x i) (free : i.reset = false) :
    (i.ce && nearest x.core.counter x.wakeups.written == some (x.core.counter + 1)) = (x.core.clock i).expiring ∧
      ((x.core.clock i).expiring = false →
        Stands (x.core.counter + i.tick) (x.core.clock i).intSet (x.core.clock i).intWhen x.wakeups.written) ∧
          ((x.core.clock i).intSet = true →
            (x.core.clock i).intNow = ((x.core.clock i).counter == (x.core.clock i).intWhen)) := by
  have stands := follows.digest regular free
  have counter := counter_clock (x := x) free
  have now : (x.core.clock i).intNow = (i.ce && x.core.counter + 1 == x.core.intWhen) := by
    simp only [clock, free, Bool.false_eq_true, if_false]
    cases i.ce <;> rfl
  rw [expiring, counter, now]
  unfold Inputs.tick at *
  cases enabled : i.ce with
  | false =>
    have still : x.core.counter + (if false = true then 1 else 0) = x.core.counter := BitVec.add_zero _
    have misses : ((x.core.clock i).intSet && x.core.counter == (x.core.clock i).intWhen) = false := by
      cases pending : (x.core.clock i).intSet with
      | false => rfl
      | true => exact beq_eq_false_iff_ne.mpr (stands.elsewhere (stands.least pending).1)
    rw [still, misses]
    refine ⟨rfl, fun _ => stands, fun pending => ?_⟩
    rw [pending, Bool.true_and] at misses
    exact misses.symm
  | true =>
    have next : x.core.counter + (if true = true then 1 else 0) = x.core.counter + 1 := rfl
    rw [next, Bool.true_and, Bool.true_and, stands.reached]
    refine ⟨rfl, stands.tick, fun _ => ?_⟩
    have time : (x.core.clock i).intWhen =
        if x.core.taken && (x.core.tillWhen.msb || !x.core.intSet) then x.core.newWhen else x.core.intWhen := rfl
    rw [time]
    cases replaced : x.core.taken && (x.core.tillWhen.msb || !x.core.intSet) with
    | false => rfl
    | true =>
      obtain ⟨takes, anew⟩ := Bool.and_eq_true_iff.mp replaced
      rw [if_pos rfl, Bool.eq_iff_iff, beq_iff_eq, beq_iff_eq]
      exact regular.noticed takes anew enabled

/-- A written time is looked at one clock later, when the counter may have moved on. -/
theorem positive_later (counter time : BitVec 32) (i : Inputs) (signed : i.ce = true → time ≠ counter + BitVec.intMin 32) :
    positive (time - (counter + i.tick)) = (positive (time - counter) && time != counter + i.tick) := by
  cases enabled : i.ce with
  | false =>
    have tick : i.tick = 0 := by rw [Inputs.tick, enabled]; rfl
    have still : counter + 0 = counter := BitVec.add_zero _
    rw [tick, still, Bool.eq_iff_iff, Bool.and_eq_true, bne_iff_ne, positive_iff]
    refine ⟨fun near => ⟨near, fun here => ?_⟩, And.left⟩
    rw [ahead_zero.mpr here.symm] at near
    exact Nat.lt_irrefl 0 near.1
  | true =>
    have tick : i.tick = 1 := by rw [Inputs.tick, enabled]; rfl
    have differs := signed enabled
    rw [tick, Bool.eq_iff_iff, Bool.and_eq_true, bne_iff_ne, positive_iff, positive_iff]
    -- the time itself goes out of the half ahead, and the one half way round comes in
    by_cases here : counter = time
    · subst here
      have far : ahead (counter + 1) counter = 2 ^ 32 - 1 := by
        have one := ahead_one counter
        unfold ahead at one ⊢
        rw [BitVec.toNat_sub] at one ⊢
        have first := counter.isLt
        have second := (counter + 1).isLt
        omega
      rw [far, ahead_zero.mpr rfl]
      omega
    · have next := ahead_succ here
      have half : ahead counter time ≠ 2 ^ 31 := by
        intro half
        apply differs
        have back : time = counter + (time - counter) := by rw [BitVec.add_comm, BitVec.sub_add_cancel]
        rw [back]
        exact congrArg (counter + ·) (BitVec.eq_of_toNat_eq half)
      have reached : ahead (counter + 1) time = 0 ↔ time = counter + 1 := ahead_zero.trans eq_comm
      rw [Ne, ← reached]
      omega

/-- A time ahead is reached by a tick only. -/
theorem ticks {counter time : BitVec 32} (future : positive (time - counter) = true) (reach : time = counter + i.tick) :
    i.ce = true := by
  by_contra off
  have tick : i.tick = 0 := by rw [Inputs.tick, eq_false_of_ne_true off]; rfl
  have still : counter + 0 = counter := BitVec.add_zero _
  rw [reach, tick, still, positive_iff, ahead_zero.mpr rfl] at future
  exact Nat.lt_irrefl 0 future.1

theorem Follows.step (follows : Follows x) (regular : Regular x i) (free : i.reset = false) : Follows (step x i) := by
  obtain ⟨reached, stays, now⟩ := follows.moves regular free
  have stands := follows.digest regular free
  have counter := counter_clock (x := x) free
  have newSet : (x.core.clock i).newSet = i.writes := by simp only [clock, free, Bool.false_eq_true, if_false]
  have till : (x.core.clock i).tillWb = i.wbData - (x.core.counter + i.tick) := BitVec.sub_sub _ _ _
  have newWhen : (x.core.clock i).newWhen = i.wbData := rfl
  have takes : (x.core.clock i).taken = (i.writes && positive (i.wbData - (x.core.counter + i.tick))) := by
    rw [taken, newSet, till]
  have wakeups : (Zipjiffies.step x i).wakeups = x.wakeups.next x.core.counter i := rfl
  have core : (Zipjiffies.step x i).core = x.core.clock i := rfl
  -- the times recorded before this clock, without those that it reaches
  have older (rest : List (BitVec 32)) (same : rest = if (x.core.clock i).expiring then [] else x.wakeups.written) :
      ((x.core.clock i).expiring = true → rest = []) ∧ ((x.core.clock i).expiring = false →
        Stands (x.core.clock i).counter (x.core.clock i).intSet (x.core.clock i).intWhen rest) := by
    rw [counter, same]
    cases expires : (x.core.clock i).expiring with
    | true => exact ⟨fun _ => rfl, fun none => absurd none.symm Bool.false_ne_true⟩
    | false => exact ⟨fun none => absurd none Bool.false_ne_true, fun _ => stays expires⟩
  have next : x.wakeups.next x.core.counter i =
      if i.writes then
        if positive (i.wbData - x.core.counter) then
          if i.wbData = x.core.counter + i.tick then ⟨[], true⟩
          else ⟨i.wbData :: (if (x.core.clock i).expiring then [] else x.wakeups.written), (x.core.clock i).expiring⟩
        else ⟨if (x.core.clock i).expiring then [] else x.wakeups.written, true⟩
      else ⟨if (x.core.clock i).expiring then [] else x.wakeups.written, (x.core.clock i).expiring⟩ := by
    rw [Wakeups.next, ← reached]
  rw [next] at wakeups
  have later : i.writes = true → positive (i.wbData - (x.core.counter + i.tick)) =
      (positive (i.wbData - x.core.counter) && i.wbData != x.core.counter + i.tick) := fun asked =>
    positive_later x.core.counter i.wbData i (regular.signed asked)
  have settled (rest : List (BitVec 32)) (hit : Bool) (same : (Zipjiffies.step x i).wakeups = ⟨rest, hit⟩)
      (flag : hit = ((x.core.clock i).expiring || i.writes && !positive (i.wbData - (x.core.counter + i.tick))))
      (written : ∃ older, rest = (if (x.core.clock i).taken then i.wbData :: older else older) ∧
        ((x.core.clock i).expiring = true → older = []) ∧ ((x.core.clock i).expiring = false →
          Stands (x.core.clock i).counter (x.core.clock i).intSet (x.core.clock i).intWhen older)) :
      Follows (Zipjiffies.step x i) := by
    refine ⟨fun _ => ?_, now, ?_, ?_⟩
    · rw [core, till, newWhen, counter]
    · rw [same, core, newSet, till]
      exact flag
    · rw [same, core, newWhen]
      exact written
  cases asked : i.writes with
  | false =>
    rw [asked, if_neg Bool.false_ne_true] at wakeups
    rw [asked, Bool.false_and] at takes
    refine settled _ _ wakeups ?_ ⟨_, ?_, older _ rfl⟩
    · rw [asked, Bool.false_and, Bool.or_false]
    · rw [takes, if_neg Bool.false_ne_true]
  | true =>
    have later := later asked
    rw [asked, if_pos rfl] at wakeups
    rw [asked, Bool.true_and] at takes
    cases future : positive (i.wbData - x.core.counter) with
    | false =>
      rw [future, Bool.false_and] at later
      rw [future, if_neg Bool.false_ne_true] at wakeups
      rw [later] at takes
      refine settled _ _ wakeups ?_ ⟨_, ?_, older _ rfl⟩
      · rw [asked, later]
        exact (Bool.or_true _).symm
      · rw [takes, if_neg Bool.false_ne_true]
    | true =>
      rw [future, Bool.true_and] at later
      rw [future, if_pos rfl] at wakeups
      -- looked at a clock later, such a time is not ahead any more
      by_cases reach : i.wbData = x.core.counter + i.tick
      · have none : (i.wbData != x.core.counter + i.tick) = false := bne_eq_false_iff_eq.mpr reach
        rw [none] at later
        rw [if_pos reach] at wakeups
        rw [later] at takes
        have enabled : i.ce = true := ticks future reach
        have tick : i.tick = 1 := by rw [Inputs.tick, enabled]; rfl
        refine settled _ _ wakeups ?_ ⟨[], ?_, fun _ => rfl, fun misses => ?_⟩
        · rw [asked, later]
          exact (Bool.or_true _).symm
        · rw [takes, if_neg Bool.false_ne_true]
        · rcases regular.alone asked enabled (by rw [reach, tick]) with empty | near
          · have rest := stays misses
            rw [empty, ← counter] at rest
            exact rest
          · rw [enabled, near, misses, Bool.true_and, beq_self_eq_true] at reached
            exact absurd reached.symm Bool.false_ne_true
      · have other : (i.wbData != x.core.counter + i.tick) = true := bne_iff_ne.mpr reach
        rw [other] at later
        rw [if_neg reach] at wakeups
        rw [later] at takes
        refine settled _ _ wakeups ?_ ⟨_, ?_, older _ rfl⟩
        · rw [asked, later]
          exact (Bool.or_false _).symm
        · rw [takes, if_pos rfl]

/-- In a clock with the conditions the interrupt is what the wake-ups say. -/
theorem Follows.int (follows : Follows x) (regular : Regular x i) (free : i.reset = false) :
    (x.core.clock i).int = x.wakeups.hit := by
  rw [follows.hit]
  have enabled := regular.enabled
  have law : ∀ pending here fresh ce : Bool, (pending = true → here = true → ce = true) →
      (if ce && pending && here then true else fresh) = (pending && here || fresh) := by decide
  simp only [clock, free, Bool.false_eq_true, if_false]
  exact law _ _ _ _ fun pending here => enabled pending (beq_iff_eq.mp here)

/-- `o_int` pulses for the nearest time written, while the clocks meet the conditions. -/
theorem wakes (s : Zipjiffies) (first : Inputs) (is : List Inputs) (free : ∀ i ∈ is, i.reset = false)
    (regular : Clocked.Always step Regular (afterReset s first) is) :
    Clocked.Always step (fun x i => (step x i).core.int = x.wakeups.hit) (afterReset s first) is := by
  have unreset : Clocked.Always step (fun _ i => i.reset = false) (afterReset s first) is :=
    Clocked.always_of_inputs (fun i member _ => free i member) _
  have always := Clocked.Always.with_invariant (fun x i follows ok => Follows.step follows ok.1 ok.2)
    (follows_reset s first) (regular.and unreset)
  exact always.mono fun x i ok => ok.1.int ok.2.1 ok.2.2

/-- A clock that writes a time, or none. -/
def Inputs.asks : Option (BitVec 32) → Inputs
  | some time => ⟨false, true, true, true, time⟩
  | none => ⟨false, true, false, false, 0⟩

theorem wakes_four : Clocked.Always step (fun x i => (step x i).core.int = x.wakeups.hit)
    (afterReset { (default : Zipjiffies) with intWhen := 77 } (.asks none))
    [.asks (some 4), .asks none, .asks none, .asks none, .asks none, .asks none] :=
  wakes _ _ _ (by decide) (by
    refine ⟨?_, ?_, ?_, ?_, ?_, ?_, trivial⟩ <;> constructor <;> decide)

/-- The time five is nearer than six, but is ignored. -/
theorem ignores_nearer : ¬ Clocked.Always step (fun x i => (step x i).core.int = x.wakeups.hit)
    (afterReset default (.asks none))
    [.asks (some 6), .asks none, .asks (some 5), .asks none, .asks none, .asks none] := by
  decide

end Zipjiffies

end IcoZip.Zipcore
