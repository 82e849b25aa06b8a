import IcoZip.LoadStore.Subword
import Mathlib.Data.List.Forall2

/-! Requests on the bus and a slave that answers them in order.

What the slave answers depends on the requests it has accepted, and on nothing
else; when it accepts and when it answers is its own affair. The answers of an
operation done one at a time are the measure for any unit in front of it.
-/

set_option autoImplicit false

namespace IcoZip.LoadStore

variable {aw : Nat}

/-- The bytes of the selected lanes. -/
def lanes (sel : BitVec 4) (data : BitVec 32) : BitVec 32 :=
  Bytes.ofBytes fun j => if sel.getLsbD j then Bytes.byte data j else 0

theorem lanes_congr {sel : BitVec 4} {data data' : BitVec 32}
    (same : ∀ j < 4, sel.getLsbD j = true → Bytes.byte data j = Bytes.byte data' j) :
    lanes sel data = lanes sel data' := by
  refine Bytes.ofBytes_congr fun j inside => ?_
  split_ifs with selected
  · exact same j inside selected
  · rfl

/-- A request; a read has no data. -/
structure Request (aw : Nat) where
  lcl : Bool
  we : Bool
  addr : BitVec aw
  sel : BitVec 4
  data : BitVec 32
  deriving DecidableEq, Repr

/-- What is on the lines. -/
def Request.of (lcl we : Bool) (addr : BitVec aw) (sel : BitVec 4) (data : BitVec 32) : Request aw :=
  { lcl, we, addr, sel, data := if we then lanes sel data else 0 }

inductive Answer where
  | data (value : BitVec 32)
  | err
  deriving DecidableEq, Repr

/-- The answer to a request that follows others. -/
abbrev Respond (aw : Nat) := List (Request aw) → Request aw → Answer

/-! ### The slave -/

/-- The requests the slave has accepted, and the answers it has still to give. -/
structure Slave (aw : Nat) where
  history : List (Request aw)
  waiting : List Answer

namespace Slave
variable (respond : Respond aw) (s : Slave aw) (cyc : Bool) (offer : Option (Request aw)) (i : Inputs)

/-- The request that is accepted. -/
def accepted : List (Request aw) := if cyc && !i.stall then offer.toList else []

/-- The answers that can be given. Ending the cycle withdraws them. -/
def outstanding : List Answer :=
  if cyc then s.waiting ++ (accepted cyc offer i).map (respond s.history) else []

def reply : Option Answer := Pipelined.reply (s.outstanding respond cyc offer i) i.answer

/-- The lines. -/
def bus : Bus :=
  match s.reply respond cyc offer i with
  | none => ⟨i.stall, false, false, i.float⟩
  | some (.data value) => ⟨i.stall, true, false, value⟩
  | some .err => ⟨i.stall, false, true, i.float⟩

def step : Slave aw where
  history := s.history ++ accepted cyc offer i
  waiting := Pipelined.rest (s.outstanding respond cyc offer i) i.answer

variable {respond s cyc offer i}

@[simp] theorem accepted_none : @accepted aw cyc none i = [] := by
  rw [accepted]
  split_ifs <;> rfl

theorem bus_of_none (reply : s.reply respond cyc offer i = none) :
    s.bus respond cyc offer i = ⟨i.stall, false, false, i.float⟩ := by rw [bus, reply]

theorem bus_of_data {value : BitVec 32} (reply : s.reply respond cyc offer i = some (.data value)) :
    s.bus respond cyc offer i = ⟨i.stall, true, false, value⟩ := by rw [bus, reply]

theorem bus_of_err (reply : s.reply respond cyc offer i = some .err) :
    s.bus respond cyc offer i = ⟨i.stall, false, true, i.float⟩ := by rw [bus, reply]

end Slave

/-! ### One at a time -/

/-- The request of an access, as `memops` makes it. -/
def Access.request (aw : Nat) (opt : Options) (a : Access) : Request aw :=
  Request.of (a.lcl opt) a.store (a.addr.extractLsb' 2 aw) (wbSel opt a.op a.addr) (wbData opt a.op a.addr a.data)

/-- The answers to accesses that follow others. -/
def answers (opt : Options) (respond : Respond aw) : List (Request aw) → List Access → List Answer
  | _, [] => []
  | history, a :: as =>
    respond history (a.request aw opt) :: answers opt respond (history ++ [a.request aw opt]) as

/-- What the CPU is told of an access that has been answered. -/
inductive Report where
  | result (wreg : BitVec 5) (value : BitVec 32)
  | err
  deriving DecidableEq, Repr

def Access.report (opt : Options) (a : Access) : Answer → List Report
  | .data value => if a.store then [] else [.result a.oreg (extracted opt (sizeAndOffset a.op a.addr) value)]
  | .err => [.err]

section
variable {opt : Options} {respond : Respond aw}

theorem answers_append (history : List (Request aw)) (as bs : List Access) :
    answers opt respond history (as ++ bs) =
      answers opt respond history as ++ answers opt respond (history ++ as.map (Access.request aw opt)) bs := by
  induction as generalizing history with
  | nil => simp [answers]
  | cons a as ih => simp [answers, ih, List.append_assoc]

@[simp] theorem answers_length (history : List (Request aw)) (as : List Access) :
    (answers opt respond history as).length = as.length := by
  induction as generalizing history with
  | nil => rfl
  | cons a as ih => simp [answers, ih]

end

/-- What is asked for along a run of any unit. -/
theorem emitted_asks {S : Type} (step : S → Inputs → S) (s : S) (is : List Inputs) :
    Clocked.emitted step (fun _ i => i.ask.toList) s is = Bench.asks is := by
  induction is generalizing s with
  | nil => rfl
  | cons i is ih => rw [Clocked.emitted_cons, ih, Bench.asks_cons]

/-! ### `memops` -/

/-- The unit and the slave, the accesses that have been answered, and the one that has not. -/
structure Single (aw : Nat) where
  core : Memops aw
  slave : Slave aw
  log : List (Access × Answer)
  current : Option Access

namespace Single

variable (opt : Options) (respond : Respond aw) (x : Single aw) (i : Inputs)

def cyc : Bool := x.core.wbCycGbl opt || x.core.wbCycLcl opt

/-- The request on the lines. -/
def offer : Option (Request aw) :=
  if x.core.wbCycGbl opt && x.core.stbGbl || x.core.wbCycLcl opt && x.core.stbLcl then
    some (.of (x.core.wbCycLcl opt && x.core.stbLcl) x.core.we x.core.addr x.core.sel x.core.data)
  else none

def reply : Option Answer := x.slave.reply respond (x.cyc opt) (x.offer opt) i

/-- The access that is answered, with its answer. -/
def answered : List (Access × Answer) := x.current.toList.flatMap fun a => (x.reply opt respond i).toList.map (a, ·)

def step : Single aw where
  core := x.core.clock opt i.cpu (x.slave.bus respond (x.cyc opt) (x.offer opt) i)
  slave := x.slave.step respond (x.cyc opt) (x.offer opt) i
  log := x.log ++ x.answered opt respond i
  current := if (x.reply opt respond i).isSome then none else i.ask.or x.current

/-- What the CPU is told. -/
def tells : List Report :=
  (if x.core.valid then [.result x.core.wreg x.core.result] else []) ++ if x.core.err then [.err] else []

/-- The CPU waits until the unit is free. -/
def Polite : Prop := i.ask.isSome = true → x.core.busy = false

end Single

end IcoZip.LoadStore
