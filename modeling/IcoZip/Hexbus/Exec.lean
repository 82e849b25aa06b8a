import IcoZip.Library.Clocked
import Mathlib.Data.BitVec
import Mathlib.Data.List.Basic

/-! Command words to bus requests and response words: `hbexec`.

The specification works on whole commands: `replies` and `requests` say what a
command list amounts to, given how the bus has completed its requests, and
`addressAfter` what the address register holds. The circuit is related to them
through the phase of the one request it can have on the bus.
-/

set_option autoImplicit false

namespace IcoZip.Hexbus

/-! ### The module -/

/-- The registers of `hbexec`. -/
structure Exec where
  wbCyc : Bool
  wbStb : Bool
  wbWe : Bool
  wbAddr : BitVec 30
  wbData : BitVec 32
  newaddr : Bool
  inc : Bool
  rspStb : Bool
  rspWord : BitVec 34
  deriving DecidableEq, Repr

def rspReset : BitVec 34 := 0b11#2 ++ (0#3 ++ 0#29)
def rspBusError : BitVec 34 := 0b11#2 ++ (1#3 ++ 0#29)
def rspWriteAcknowledgement : BitVec 34 := 0b01#2 ++ 0#32
def rspData (data : BitVec 32) : BitVec 34 := 0b00#2 ++ data
/-- The echo of the address register, with the complement of `inc` in bit zero. -/
def rspAddr (addr : BitVec 30) (inc : Bool) : BitVec 34 :=
  0b10#2 ++ (addr ++ (0#1 ++ BitVec.ofBool !inc))

/-- One clock of `hbexec`, the inputs in the order of its ports. -/
def hbexec (s : Exec) (iReset iCmdStb : Bool) (iCmdWord : BitVec 34)
    (iWbStall iWbAck iWbErr : Bool) (iWbData : BitVec 32) : Exec :=
  let cmdAddr := iCmdStb && iCmdWord.extractLsb' 32 2 == 0b10#2
  let cmdWr := iCmdStb && iCmdWord.extractLsb' 32 2 == 0b01#2
  let cmdBus := iCmdStb && !iCmdWord[33]
  let cmdBusy := s.wbCyc
  { wbCyc :=
      if iReset || (iWbErr && s.wbCyc) then false
      else if s.wbStb then (if !iWbStall && iWbAck then false else s.wbCyc)
      else if s.wbCyc then (if iWbAck then false else s.wbCyc)
      else if cmdBus then true
      else s.wbCyc
    wbStb :=
      if iReset || (iWbErr && s.wbCyc) then false
      else if s.wbStb then (if !iWbStall then false else s.wbStb)
      else if s.wbCyc then s.wbStb
      else if cmdBus then true
      else s.wbStb
    wbWe := if !s.wbCyc then cmdWr else s.wbWe
    wbAddr :=
      if cmdAddr && !cmdBusy then
        if !iCmdWord[1] then iCmdWord.extractLsb' 2 30
        else iCmdWord.extractLsb' 2 30 + s.wbAddr
      else if s.wbStb && !iWbStall then s.wbAddr + (BitVec.ofBool s.inc).setWidth 30
      else s.wbAddr
    inc := if cmdAddr && !cmdBusy then !iCmdWord[0] else s.inc
    newaddr := !iReset && cmdAddr && !cmdBusy
    wbData := if !s.wbStb || !iWbStall then iCmdWord.extractLsb' 0 32 else s.wbData
    rspStb :=
      if iReset then true
      else if iWbErr then true
      else if s.wbCyc then iWbAck
      else s.newaddr
    rspWord :=
      if iReset then rspReset
      else if iWbErr then rspBusError
      else if s.wbCyc then
        if s.wbWe then rspWriteAcknowledgement else rspData iWbData
      else rspAddr s.wbAddr s.inc }

/-- What `hbexec` sees in a clock. -/
structure ExecIn where
  reset : Bool
  cmdStb : Bool
  cmdWord : BitVec 34
  wbStall : Bool
  wbAck : Bool
  wbErr : Bool
  wbData : BitVec 32
  deriving DecidableEq, Repr

namespace Exec

def step (s : Exec) (i : ExecIn) : Exec :=
  hbexec s i.reset i.cmdStb i.cmdWord i.wbStall i.wbAck i.wbErr i.wbData

/-- A request on the bus. -/
structure Request where
  we : Bool
  addr : BitVec 30
  data : BitVec 32
  deriving DecidableEq, Repr

def request (s : Exec) : Request := ⟨s.wbWe, s.wbAddr, s.wbData⟩

/-! ### What commands amount to -/

/-- The four kinds of command words. -/
inductive Operation where
  | bus (we : Bool)
  | address
  | special
  deriving DecidableEq, Repr

def operation (word : BitVec 34) : Operation :=
  if word[33] then if word[32] then .special else .address else .bus word[32]

/-- The end of a request: its outcome, and whether the slave had accepted it. -/
structure Completion where
  err : Bool
  accepted : Bool
  data : BitVec 32
  deriving DecidableEq, Repr

/-- The response to a read or write. -/
def reply (we : Bool) (c : Completion) : BitVec 34 :=
  if c.err then rspBusError else if we then rspWriteAcknowledgement else rspData c.data

/-- The address register after an address command, absolute or by difference. -/
def setAddress (addr : BitVec 30) (word : BitVec 34) : BitVec 30 :=
  if word[1] then word.extractLsb' 2 30 + addr else word.extractLsb' 2 30

/-- The address register after a request that was accepted or not. -/
def advance (addr : BitVec 30) (inc accepted : Bool) : BitVec 30 :=
  if accepted && inc then addr + 1 else addr

@[simp] theorem advance_false (addr : BitVec 30) (inc : Bool) : advance addr inc false = addr := rfl

/-- One response for each address, read and write command, in order; none for a read or write
that has not been completed. -/
def replies (addr : BitVec 30) (inc : Bool) : List (BitVec 34) → List Completion → List (BitVec 34)
  | [], _ => []
  | word :: words, done =>
    match operation word with
    | .special => replies addr inc words done
    | .address =>
      rspAddr (setAddress addr word) (!word[0]) ::
        replies (setAddress addr word) (!word[0]) words done
    | .bus we =>
      match done with
      | [] => []
      | c :: done => reply we c :: replies (advance addr inc c.accepted) inc words done

/-- One request for each read and write command, with the address register of its time. -/
def requests (addr : BitVec 30) (inc : Bool) : List (BitVec 34) → List Completion → List Request
  | [], _ => []
  | word :: words, done =>
    match operation word with
    | .special => requests addr inc words done
    | .address => requests (setAddress addr word) (!word[0]) words done
    | .bus we =>
      ⟨we, addr, word.extractLsb' 0 32⟩ ::
        match done with
        | [] => []
        | c :: done => requests (advance addr inc c.accepted) inc words done

/-- What moves the address register. -/
inductive AddrEvent where
  | absolute (addr : BitVec 30)
  | difference (addr : BitVec 30)
  | accepted (inc : Bool)
  deriving DecidableEq, Repr

def AddrEvent.isAbsolute : AddrEvent → Bool
  | .absolute _ => true
  | _ => false

def AddrEvent.offset : AddrEvent → BitVec 30
  | .difference addr => addr
  | _ => 0

def AddrEvent.counts : AddrEvent → Bool
  | .accepted inc => inc
  | _ => false

/-- The last absolute address set, or the register's first value. -/
def lastAbsolute (base : BitVec 30) (events : List AddrEvent) : BitVec 30 :=
  match events.reverse.find? AddrEvent.isAbsolute with
  | some (.absolute addr) => addr
  | _ => base

/-- The events behind the last absolute address. -/
def sinceAbsolute (events : List AddrEvent) : List AddrEvent :=
  events.reverse.takeWhile fun e => !e.isAbsolute

/-- The last absolute address, the differences added to it since, and the number of requests
accepted with increment since. -/
def addressAfter (base : BitVec 30) (events : List AddrEvent) : BitVec 30 :=
  lastAbsolute base events + ((sinceAbsolute events).map AddrEvent.offset).sum +
    BitVec.ofNat 30 ((sinceAbsolute events).countP AddrEvent.counts)

theorem addressAfter_nil (base : BitVec 30) : addressAfter base [] = base := by
  simp [addressAfter, lastAbsolute, sinceAbsolute]

/-- Reading the sum one event at a time. -/
theorem addressAfter_append (base : BitVec 30) (events : List AddrEvent) (e : AddrEvent) :
    addressAfter base (events ++ [e]) =
      match e with
      | .absolute addr => addr
      | .difference addr => addr + addressAfter base events
      | .accepted inc => advance (addressAfter base events) inc true := by
  cases e with
  | absolute addr =>
    simp [addressAfter, lastAbsolute, sinceAbsolute, AddrEvent.isAbsolute, List.find?_cons]
  | difference addr =>
    simp only [addressAfter, lastAbsolute, sinceAbsolute, List.reverse_append, List.reverse_singleton,
      List.singleton_append, List.find?_cons, AddrEvent.isAbsolute, List.takeWhile_cons, Bool.not_false,
      if_true, List.map_cons, List.sum_cons, AddrEvent.offset, List.countP_cons, AddrEvent.counts]
    simp only [Bool.false_eq_true, if_false, Nat.add_zero]
    ac_rfl
  | accepted inc =>
    simp only [addressAfter, lastAbsolute, sinceAbsolute, List.reverse_append, List.reverse_singleton,
      List.singleton_append, List.find?_cons, AddrEvent.isAbsolute, List.takeWhile_cons, Bool.not_false,
      if_true, List.map_cons, List.sum_cons, AddrEvent.offset, List.countP_cons, AddrEvent.counts,
      advance, Bool.true_and]
    cases inc with
    | false => simp
    | true =>
      simp only [if_true, BitVec.ofNat_add]
      ac_rfl

/-! ### Observing a run -/

/-- The response word strobed in a clock. -/
def responded (s : Exec) (_ : ExecIn) : List (BitVec 34) := if s.rspStb then [s.rspWord] else []

/-- The command taken in a clock. -/
def commanded (_ : Exec) (i : ExecIn) : List (BitVec 34) := if i.cmdStb then [i.cmdWord] else []

/-- The completion in a clock. -/
def completed (s : Exec) (i : ExecIn) : List Completion :=
  if s.wbCyc && (i.wbErr || i.wbAck) then [⟨i.wbErr, !(s.wbStb && i.wbStall), i.wbData⟩] else []

/-- The request that leaves the bus in a clock, accepted or dropped on an error. -/
def requested (s : Exec) (i : ExecIn) : List Request :=
  if s.wbStb && (!i.wbStall || i.wbErr) then [s.request] else []

/-- What moves the address register in a clock. -/
def moved (s : Exec) (i : ExecIn) : List AddrEvent :=
  (if i.cmdStb && operation i.cmdWord == .address then
    [if i.cmdWord[1] then .difference (i.cmdWord.extractLsb' 2 30)
      else .absolute (i.cmdWord.extractLsb' 2 30)] else []) ++
  if s.wbStb && !i.wbStall then [.accepted s.inc] else []

/-- No reset, commands only while `o_cmd_busy` is low, and a slave that acknowledges only an
accepted request (perhaps in the clock that accepts it) and raises errors only in a cycle. -/
structure Obeys (s : Exec) (i : ExecIn) : Prop where
  reset : i.reset = false
  command : i.cmdStb = true → s.wbCyc = false
  ack : i.wbAck = true → s.wbCyc = true ∧ (s.wbStb && i.wbStall) = false
  err : i.wbErr = true → s.wbCyc = true

instance (s : Exec) (i : ExecIn) : Decidable (Obeys s i) :=
  decidable_of_iff (i.reset = false ∧ (i.cmdStb = true → s.wbCyc = false) ∧
      (i.wbAck = true → s.wbCyc = true ∧ (s.wbStb && i.wbStall) = false) ∧
      (i.wbErr = true → s.wbCyc = true))
    ⟨fun ⟨a, b, c, d⟩ => ⟨a, b, c, d⟩, fun ⟨a, b, c, d⟩ => ⟨a, b, c, d⟩⟩

/-! ### Phases -/

/-- A request needs a cycle, and an address echo is due only outside of one. -/
structure Consistent (s : Exec) : Prop where
  stb : s.wbStb = true → s.wbCyc = true
  echo : s.newaddr = true → s.wbCyc = false

/-- The state that a reset clock leaves. -/
structure Fresh (s : Exec) : Prop where
  cyc : s.wbCyc = false
  stb : s.wbStb = false
  echo : s.newaddr = false
  rsp : s.rspStb = true ∧ s.rspWord = rspReset

theorem fresh_of_reset (s : Exec) {i : ExecIn} (reset : i.reset = true) : Fresh (s.step i) := by
  constructor <;> simp [step, hbexec, reset]

theorem Fresh.consistent {s : Exec} (fresh : Fresh s) : Consistent s :=
  ⟨by simp [fresh.stb], fun _ => fresh.cyc⟩

theorem operation_address (word : BitVec 34) :
    (word.extractLsb' 32 2 == 0b10#2) = (operation word == .address) := by
  have bits : ∀ kind : BitVec 2, (kind == 0b10#2) = (kind[1] && !kind[0]) := by decide
  rw [bits, operation]
  simp only [BitVec.getElem_extractLsb', Nat.add_zero, BitVec.getLsbD_eq_getElem (show 32 < 34 by decide),
    BitVec.getLsbD_eq_getElem (show 32 + 1 < 34 by decide)]
  cases word[33] <;> cases word[32] <;> rfl

theorem operation_write (word : BitVec 34) :
    (word.extractLsb' 32 2 == 0b01#2) = (operation word == .bus true) := by
  have bits : ∀ kind : BitVec 2, (kind == 0b01#2) = (!kind[1] && kind[0]) := by decide
  rw [bits, operation]
  simp only [BitVec.getElem_extractLsb', Nat.add_zero, BitVec.getLsbD_eq_getElem (show 32 < 34 by decide),
    BitVec.getLsbD_eq_getElem (show 32 + 1 < 34 by decide)]
  cases word[33] <;> cases word[32] <;> rfl

theorem operation_bus_low {word : BitVec 34} {we : Bool} (bus : operation word = .bus we) :
    word[33] = false ∧ word[32] = we := by
  cases high : word[33] <;> cases low : word[32] <;> simp_all [operation]

/-- The address register after the clock of a cycle. -/
def addrNext (s : Exec) (i : ExecIn) : BitVec 30 :=
  if s.wbStb then advance s.wbAddr s.inc (!i.wbStall) else s.wbAddr

/-! ### The five kinds of clocks -/

section Clocks
variable {s : Exec} {i : ExecIn}

theorem stb_of_idle (consistent : Consistent s) (idle : s.wbCyc = false) : s.wbStb = false := by
  cases stb : s.wbStb with
  | false => rfl
  | true => simp [consistent.stb stb] at idle

theorem quiet_of_idle (obeys : Obeys s i) (idle : s.wbCyc = false) :
    i.wbErr = false ∧ i.wbAck = false := by
  constructor
  · cases err : i.wbErr with
    | false => rfl
    | true => simp [obeys.err err] at idle
  · cases ack : i.wbAck with
    | false => rfl
    | true => simp [(obeys.ack ack).1] at idle

theorem echo_of_cycle (consistent : Consistent s) (cycle : s.wbCyc = true) : s.newaddr = false := by
  cases due : s.newaddr with
  | false => rfl
  | true => simp [consistent.echo due] at cycle

theorem silent_of_cycle (obeys : Obeys s i) (cycle : s.wbCyc = true) : i.cmdStb = false := by
  cases stb : i.cmdStb with
  | false => rfl
  | true => simp [obeys.command stb] at cycle

theorem step_other (consistent : Consistent s) (obeys : Obeys s i) (idle : s.wbCyc = false)
    (other : i.cmdStb = false ∨ operation i.cmdWord = .special) :
    s.step i = { s with
      wbWe := false, wbData := i.cmdWord.extractLsb' 0 32, newaddr := false
      rspStb := s.newaddr, rspWord := rspAddr s.wbAddr s.inc } := by
  have stb := stb_of_idle consistent idle
  have quiet := (quiet_of_idle obeys idle).1
  have bus : (i.cmdStb && !i.cmdWord[33]) = false := by
    rcases other with none | special
    · simp [none]
    · cases high : i.cmdWord[33] <;> simp_all [operation]
  have address : (i.cmdStb && operation i.cmdWord == .address) = false := by
    rcases other with none | special
    · simp [none]
    · simp [special]
  have write : (i.cmdStb && operation i.cmdWord == .bus true) = false := by
    rcases other with none | special
    · simp [none]
    · simp [special]
  simp [step, hbexec, operation_address, operation_write, idle, stb, quiet, bus, address, write,
    obeys.reset]

theorem step_address (consistent : Consistent s) (obeys : Obeys s i) (idle : s.wbCyc = false)
    (taken : i.cmdStb = true)
    (address : operation i.cmdWord = .address) :
    s.step i = { s with
      wbWe := false, wbAddr := setAddress s.wbAddr i.cmdWord, inc := !i.cmdWord[0]
      wbData := i.cmdWord.extractLsb' 0 32, newaddr := true
      rspStb := s.newaddr, rspWord := rspAddr s.wbAddr s.inc } := by
  have stb := stb_of_idle consistent idle
  have quiet := (quiet_of_idle obeys idle).1
  have high : i.cmdWord[33] = true := by
    cases high : i.cmdWord[33] <;> simp_all [operation]
  cases diff : i.cmdWord[1] <;>
    simp [step, hbexec, operation_address, operation_write, idle, stb, quiet, address, taken, high,
      obeys.reset, setAddress, diff]

theorem step_bus {we : Bool} (consistent : Consistent s) (obeys : Obeys s i)
    (idle : s.wbCyc = false) (taken : i.cmdStb = true)
    (bus : operation i.cmdWord = .bus we) :
    s.step i = { s with
      wbCyc := true, wbStb := true, wbWe := we
      wbData := i.cmdWord.extractLsb' 0 32, newaddr := false
      rspStb := s.newaddr, rspWord := rspAddr s.wbAddr s.inc } := by
  have stb := stb_of_idle consistent idle
  have quiet := (quiet_of_idle obeys idle).1
  have high := (operation_bus_low bus).1
  cases we <;>
    simp [step, hbexec, operation_address, operation_write, idle, stb, quiet, bus, taken, high,
      obeys.reset]

theorem step_done (obeys : Obeys s i) (cycle : s.wbCyc = true) (done : (i.wbErr || i.wbAck) = true) :
    s.step i = { s with
      wbCyc := false, wbStb := false, wbAddr := addrNext s i, newaddr := false
      wbData := if !s.wbStb || !i.wbStall then i.cmdWord.extractLsb' 0 32 else s.wbData
      rspStb := true
      rspWord := reply s.wbWe ⟨i.wbErr, !(s.wbStb && i.wbStall), i.wbData⟩ } := by
  have noCommand := silent_of_cycle obeys cycle
  cases err : i.wbErr with
  | true =>
    cases stb : s.wbStb <;> cases stall : i.wbStall <;> cases inc : s.inc <;>
      simp [step, hbexec, cycle, noCommand, err, stb, stall, inc, obeys.reset, addrNext, advance, reply]
  | false =>
    have ack : i.wbAck = true := by simpa [err] using done
    have accepting := (obeys.ack ack).2
    cases stb : s.wbStb <;> cases stall : i.wbStall <;> cases inc : s.inc <;>
      simp_all [step, hbexec, obeys.reset, addrNext, advance, reply]

theorem step_open (obeys : Obeys s i) (cycle : s.wbCyc = true) (undone : (i.wbErr || i.wbAck) = false) :
    s.step i = { s with
      wbStb := s.wbStb && i.wbStall, wbAddr := addrNext s i, newaddr := false
      wbData := if !s.wbStb || !i.wbStall then i.cmdWord.extractLsb' 0 32 else s.wbData
      rspStb := false
      rspWord := if s.wbWe then rspWriteAcknowledgement else rspData i.wbData } := by
  have noCommand := silent_of_cycle obeys cycle
  obtain ⟨noErr, noAck⟩ : i.wbErr = false ∧ i.wbAck = false := by simpa using undone
  cases stb : s.wbStb <;> cases stall : i.wbStall <;> cases inc : s.inc <;>
    simp [step, hbexec, cycle, noCommand, noErr, noAck, stb, stall, inc, obeys.reset, addrNext, advance]

/-- Which kind of clock it is. -/
theorem clock_cases (s : Exec) (i : ExecIn) :
    (s.wbCyc = false ∧ (i.cmdStb = false ∨ operation i.cmdWord = .special)) ∨
    (s.wbCyc = false ∧ i.cmdStb = true ∧ operation i.cmdWord = .address) ∨
    (∃ we, s.wbCyc = false ∧ i.cmdStb = true ∧ operation i.cmdWord = .bus we) ∨
    (s.wbCyc = true ∧ (i.wbErr || i.wbAck) = true) ∨
    (s.wbCyc = true ∧ (i.wbErr || i.wbAck) = false) := by
  cases cyc : s.wbCyc with
  | true => cases done : i.wbErr || i.wbAck <;> simp
  | false =>
    cases taken : i.cmdStb with
    | false => simp
    | true => cases op : operation i.cmdWord <;> simp

theorem step_consistent (consistent : Consistent s) (obeys : Obeys s i) : Consistent (s.step i) := by
  rcases clock_cases s i with
    ⟨idle, other⟩ | ⟨idle, taken, address⟩ | ⟨we, idle, taken, bus⟩ | ⟨cycle, done⟩ | ⟨cycle, undone⟩
  · rw [step_other consistent obeys idle other]
    exact ⟨by simp [stb_of_idle consistent idle], by simp⟩
  · rw [step_address consistent obeys idle taken address]
    exact ⟨by simp [stb_of_idle consistent idle], fun _ => idle⟩
  · rw [step_bus consistent obeys idle taken bus]
    exact ⟨fun _ => rfl, by simp⟩
  · rw [step_done obeys cycle done]
    exact ⟨by simp, by simp⟩
  · rw [step_open obeys cycle undone]
    exact ⟨fun _ => cycle, by simp⟩

end Clocks

/-! ### Runs -/

/-- The echo that is due in the next clock. -/
def echo (s : Exec) : List (BitVec 34) := if s.newaddr then [rspAddr s.wbAddr s.inc] else []

/-- The responses of commands that have ended, not strobed yet. -/
def held (s : Exec) : List (BitVec 34) := (if s.rspStb then [s.rspWord] else []) ++ s.echo

/-- The request that is waiting to be accepted. -/
def waiting (s : Exec) : List Request := if s.wbStb then [s.request] else []

/-- The address register once the outstanding request has ended with `c`. -/
def addrDone (s : Exec) (c : Completion) : BitVec 30 :=
  if s.wbStb then advance s.wbAddr s.inc c.accepted else s.wbAddr

/-- The replies to come: the first completion belongs to the request that is on the bus. -/
def repliesFrom (s : Exec) (words : List (BitVec 34)) (done : List Completion) : List (BitVec 34) :=
  if s.wbCyc then
    match done with
    | [] => []
    | c :: done => reply s.wbWe c :: replies (s.addrDone c) s.inc words done
  else replies s.wbAddr s.inc words done

def requestsFrom (s : Exec) (words : List (BitVec 34)) (done : List Completion) : List Request :=
  s.waiting ++
    if s.wbCyc then
      match done with
      | [] => []
      | c :: done => requests (s.addrDone c) s.inc words done
    else requests s.wbAddr s.inc words done

/-- The completions still owed. -/
def outstanding (s : Exec) : Nat := if s.wbCyc then 1 else 0

def isBus (word : BitVec 34) : Bool := !word[33]

section Steps
variable {s : Exec} {i : ExecIn}

/-- What is emitted after a clock that leaves the request accepted and open. -/
def AcceptedFirst (s : Exec) (done : List Completion) : Prop :=
  s.wbCyc = true → s.wbStb = false → ∀ c ∈ done.head?, c.accepted = true

theorem acceptedFirst_of_always {s : Exec} {is : List ExecIn} (always : Clocked.Always step Obeys s is) :
    AcceptedFirst s (Clocked.emitted step completed s is) := by
  induction is generalizing s with
  | nil => simp [AcceptedFirst]
  | cons i is ih =>
    obtain ⟨obeys, rest⟩ := always
    intro cycle stb
    by_cases done : (i.wbErr || i.wbAck) = true
    · simp [completed, cycle, stb, done]
    · have undone : (i.wbErr || i.wbAck) = false := by simpa using done
      have next := step_open obeys cycle undone
      have later := ih rest (by simp [next, cycle]) (by simp [next, stb])
      simpa [completed, cycle, undone] using later

theorem replies_step (consistent : Consistent s) (obeys : Obeys s i) {words : List (BitVec 34)}
    {done : List Completion} (first : AcceptedFirst (s.step i) done) :
    (s.step i).held ++ (s.step i).repliesFrom words done =
      s.echo ++ s.repliesFrom (commanded s i ++ words) (completed s i ++ done) := by
  rcases clock_cases s i with
    ⟨idle, other⟩ | ⟨idle, taken, address⟩ | ⟨we, idle, taken, bus⟩ | ⟨cycle, ended⟩ | ⟨cycle, undone⟩
  · rw [step_other consistent obeys idle other]
    rcases other with none | special
    · simp [held, echo, repliesFrom, idle, commanded, completed, none]
    · cases stb : i.cmdStb <;>
        simp [held, echo, repliesFrom, idle, commanded, completed, stb, replies, special]
  · rw [step_address consistent obeys idle taken address]
    simp [held, echo, repliesFrom, idle, commanded, completed, taken, replies, address]
  · rw [step_bus consistent obeys idle taken bus]
    cases done <;>
      simp [held, echo, repliesFrom, idle, commanded, completed, taken, replies, bus, addrDone]
  · have quiet := echo_of_cycle consistent cycle
    have silent := silent_of_cycle obeys cycle
    rw [step_done obeys cycle ended]
    cases stb : s.wbStb <;>
      simp [held, echo, repliesFrom, cycle, ended, quiet, silent, commanded, completed, addrDone, addrNext, stb]
  · have quiet := echo_of_cycle consistent cycle
    have silent := silent_of_cycle obeys cycle
    rw [step_open obeys cycle undone] at first ⊢
    simp only [held, echo, repliesFrom, cycle, undone, quiet, silent, commanded, completed]
    cases done with
    | nil => simp
    | cons c done =>
      cases stb : s.wbStb <;> cases stall : i.wbStall <;>
        simp_all [addrDone, addrNext, AcceptedFirst]

theorem requests_step (consistent : Consistent s) (obeys : Obeys s i) {words : List (BitVec 34)}
    {done : List Completion} (first : AcceptedFirst (s.step i) done) :
    requested s i ++ (s.step i).requestsFrom words done =
      s.requestsFrom (commanded s i ++ words) (completed s i ++ done) := by
  -- no command or a special one, an address, a request; its end, or another clock of waiting
  rcases clock_cases s i with
    ⟨idle, other⟩ | ⟨idle, taken, address⟩ | ⟨we, idle, taken, bus⟩ | ⟨cycle, ended⟩ | ⟨cycle, undone⟩
  · rw [step_other consistent obeys idle other]
    have stb := stb_of_idle consistent idle
    rcases other with none | special
    · simp [requested, requestsFrom, waiting, idle, stb, commanded, completed, none]
    · cases taken : i.cmdStb <;>
        simp [requested, requestsFrom, waiting, idle, stb, commanded, completed, taken, requests, special]
  · rw [step_address consistent obeys idle taken address]
    have stb := stb_of_idle consistent idle
    simp [requested, requestsFrom, waiting, idle, stb, commanded, completed, taken, requests, address]
  · rw [step_bus consistent obeys idle taken bus]
    have stb := stb_of_idle consistent idle
    cases done <;>
      simp [requested, requestsFrom, waiting, request, idle, stb, commanded, completed, taken, requests,
        bus, addrDone]
  · have silent := silent_of_cycle obeys cycle
    rw [step_done obeys cycle ended]
    cases stb : s.wbStb with
    | false =>
      simp [requested, requestsFrom, waiting, cycle, ended, silent, commanded, completed, addrDone,
        addrNext, stb]
    | true =>
      have leaves : (!i.wbStall || i.wbErr) = true := by
        cases err : i.wbErr with
        | true => simp
        | false =>
          have ack : i.wbAck = true := by simpa [err] using ended
          simpa [stb] using (obeys.ack ack).2
      simp [requested, requestsFrom, waiting, cycle, ended, silent, commanded, completed, addrDone,
        addrNext, stb, leaves]
  · have silent := silent_of_cycle obeys cycle
    have noErr : i.wbErr = false := by simp_all
    rw [step_open obeys cycle undone] at first ⊢
    simp only [requested, requestsFrom, waiting, request, cycle, noErr, silent, commanded, completed]
    cases stb : s.wbStb <;> cases stall : i.wbStall <;> cases done <;>
      simp_all [addrDone, addrNext, AcceptedFirst]

theorem outstanding_step (consistent : Consistent s) (obeys : Obeys s i) :
    (completed s i).length + (s.step i).outstanding =
      s.outstanding + (commanded s i).countP isBus := by
  rcases clock_cases s i with
    ⟨idle, other⟩ | ⟨idle, taken, address⟩ | ⟨we, idle, taken, bus⟩ | ⟨cycle, ended⟩ | ⟨cycle, undone⟩
  · rw [step_other consistent obeys idle other]
    rcases other with none | special
    · simp [outstanding, completed, commanded, idle, none]
    · have high : i.cmdWord[33] = true := by
        cases high : i.cmdWord[33] <;> simp_all [operation]
      cases taken : i.cmdStb <;> simp [outstanding, completed, commanded, idle, taken, isBus, high]
  · have high : i.cmdWord[33] = true := by
      cases high : i.cmdWord[33] <;> simp_all [operation]
    rw [step_address consistent obeys idle taken address]
    simp [outstanding, completed, commanded, idle, taken, isBus, high]
  · rw [step_bus consistent obeys idle taken bus]
    simp [outstanding, completed, commanded, idle, taken, isBus, (operation_bus_low bus).1]
  · rw [step_done obeys cycle ended]
    simp [outstanding, completed, commanded, cycle, ended, silent_of_cycle obeys cycle]
  · rw [step_open obeys cycle undone]
    simp [outstanding, completed, commanded, cycle, undone, silent_of_cycle obeys cycle]

/-- The address register in one clock: at most one event moves it. -/
theorem moved_step (consistent : Consistent s) (obeys : Obeys s i) (base : BitVec 30)
    {events : List AddrEvent} (before : s.wbAddr = addressAfter base events) :
    (s.step i).wbAddr = addressAfter base (events ++ moved s i) := by
  rcases clock_cases s i with
    ⟨idle, other⟩ | ⟨idle, taken, address⟩ | ⟨we, idle, taken, bus⟩ | ⟨cycle, ended⟩ | ⟨cycle, undone⟩
  · rw [step_other consistent obeys idle other]
    have stb := stb_of_idle consistent idle
    rcases other with none | special
    · simp [moved, none, stb, before]
    · simp [moved, special, stb, before]
  · rw [step_address consistent obeys idle taken address]
    have stb := stb_of_idle consistent idle
    cases diff : i.cmdWord[1] <;>
      simp [moved, taken, address, stb, diff, addressAfter_append, setAddress, before]
  · rw [step_bus consistent obeys idle taken bus]
    have stb := stb_of_idle consistent idle
    simp [moved, bus, stb, before]
  all_goals
    have silent := silent_of_cycle obeys cycle
    first
      | rw [step_done obeys cycle ended]
      | rw [step_open obeys cycle undone]
    cases stb : s.wbStb <;> cases stall : i.wbStall <;>
      simp [moved, silent, stb, stall, addrNext, addressAfter_append, before]

theorem request_stable (obeys : Obeys s i) (consistent : Consistent s) (stb : s.wbStb = true)
    (stall : i.wbStall = true) (noErr : i.wbErr = false) :
    (s.step i).wbStb = true ∧ (s.step i).request = s.request := by
  have cycle := consistent.stb stb
  have noAck : i.wbAck = false := by
    cases ack : i.wbAck with
    | false => rfl
    | true => simpa [stb, stall] using (obeys.ack ack).2
  rw [step_open obeys cycle (by simp [noErr, noAck])]
  simp [request, stb, stall, addrNext]

end Steps

section Runs
variable {s : Exec} {is : List ExecIn}

theorem replies_run (consistent : Consistent s) (always : Clocked.Always step Obeys s is) :
    Clocked.emitted step responded s is ++ (Clocked.run step s is).held =
      (if s.rspStb then [s.rspWord] else []) ++ (s.echo ++ s.repliesFrom
        (Clocked.emitted step commanded s is) (Clocked.emitted step completed s is)) := by
  induction is generalizing s with
  | nil =>
    have nothing : s.repliesFrom [] [] = [] := by simp [repliesFrom, replies]
    rw [Clocked.emitted_nil, Clocked.emitted_nil, Clocked.emitted_nil, nothing, List.append_nil]
    rfl
  | cons i is ih =>
    obtain ⟨obeys, rest⟩ := always
    have later := ih (step_consistent consistent obeys) rest
    have first := acceptedFirst_of_always rest
    simp only [Clocked.emitted_cons, Clocked.run_cons, List.append_assoc]
    rw [later, ← replies_step consistent obeys first, held, List.append_assoc]
    rfl

theorem requests_run (consistent : Consistent s) (always : Clocked.Always step Obeys s is) :
    Clocked.emitted step requested s is ++ (Clocked.run step s is).waiting =
      s.requestsFrom (Clocked.emitted step commanded s is) (Clocked.emitted step completed s is) := by
  induction is generalizing s with
  | nil => simp [requestsFrom, requests]
  | cons i is ih =>
    obtain ⟨obeys, rest⟩ := always
    have later := ih (step_consistent consistent obeys) rest
    have first := acceptedFirst_of_always rest
    simp only [Clocked.emitted_cons, Clocked.run_cons, List.append_assoc]
    rw [later, requests_step consistent obeys first]

theorem outstanding_run (consistent : Consistent s) (always : Clocked.Always step Obeys s is) :
    (Clocked.emitted step completed s is).length + (Clocked.run step s is).outstanding =
      s.outstanding + (Clocked.emitted step commanded s is).countP isBus := by
  induction is generalizing s with
  | nil => simp
  | cons i is ih =>
    obtain ⟨obeys, rest⟩ := always
    have later := ih (step_consistent consistent obeys) rest
    have now := outstanding_step consistent obeys
    simp only [Clocked.emitted_cons, Clocked.run_cons, List.length_append, List.countP_append]
    omega

theorem moved_run (consistent : Consistent s) (always : Clocked.Always step Obeys s is)
    (base : BitVec 30) {events : List AddrEvent} (before : s.wbAddr = addressAfter base events) :
    (Clocked.run step s is).wbAddr = addressAfter base (events ++ Clocked.emitted step moved s is) := by
  induction is generalizing s events with
  | nil => simpa using before
  | cons i is ih =>
    obtain ⟨obeys, rest⟩ := always
    have later := ih (step_consistent consistent obeys) rest (moved_step consistent obeys base before)
    rw [Clocked.run_cons, later, Clocked.emitted_cons, List.append_assoc]

end Runs

/-- From any reset on: one response and one request for each command that calls for one, in
command order; a stalled request stands still; the address register is what was set, added and
counted since. -/
theorem executes_commands (before : Exec) {i₀ : ExecIn} (reset : i₀.reset = true) (is : List ExecIn)
    (always : Clocked.Always step Obeys (before.step i₀) is) :
    let s := before.step i₀
    let words := Clocked.emitted step commanded s is
    let done := Clocked.emitted step completed s is
    let final := Clocked.run step s is
    Clocked.emitted step responded s is ++ final.held = rspReset :: replies s.wbAddr s.inc words done ∧
    Clocked.emitted step requested s is ++ final.waiting = requests s.wbAddr s.inc words done ∧
    done.length + final.outstanding = words.countP isBus ∧
    Clocked.Always step (fun s i => s.wbStb = true → i.wbStall = true → i.wbErr = false →
      (s.step i).wbStb = true ∧ (s.step i).request = s.request) s is ∧
    final.wbAddr = addressAfter s.wbAddr (Clocked.emitted step moved s is) := by
  intro s words done final
  have fresh : Fresh s := fresh_of_reset before reset
  have consistent := fresh.consistent
  refine ⟨?_, ?_, ?_, ?_, ?_⟩
  · have run := replies_run consistent always
    simpa [fresh.rsp, echo, fresh.echo, repliesFrom, fresh.cyc] using run
  · have run := requests_run consistent always
    simpa [requestsFrom, waiting, fresh.stb, fresh.cyc] using run
  · have run := outstanding_run consistent always
    simpa [outstanding, fresh.cyc] using run
  · have strong := Clocked.Always.with_invariant (fun _ _ => step_consistent) consistent always
    exact strong.mono fun _ _ ⟨consistent, obeys⟩ stb stall noErr =>
      request_stable obeys consistent stb stall noErr
  · have run := moved_run consistent always s.wbAddr (addressAfter_nil s.wbAddr).symm
    simpa using run

def idleIn : ExecIn :=
  { reset := false, cmdStb := false, cmdWord := 0, wbStall := false, wbAck := false, wbErr := false, wbData := 0 }

/-- Set the address to 4 with increment, read with one stalled clock, then read into a bus error. -/
theorem executes_two_reads :
    let clear : Exec := ⟨false, false, false, 0, 0, false, false, false, 0⟩
    let s := clear.step { idleIn with reset := true }
    let is := [{ idleIn with cmdStb := true, cmdWord := 0x200000010 },
      { idleIn with cmdStb := true, cmdWord := 0 }, { idleIn with wbStall := true },
      idleIn, { idleIn with wbAck := true, wbData := 7 }, { idleIn with cmdStb := true, cmdWord := 0 },
      { idleIn with wbStall := true, wbErr := true }, idleIn]
    Clocked.emitted step responded s is ++ (Clocked.run step s is).held =
      [rspReset, rspAddr 4 true, rspData 7, rspBusError] ∧
    Clocked.emitted step requested s is ++ (Clocked.run step s is).waiting = [⟨false, 4, 0⟩, ⟨false, 5, 0⟩] ∧
    (Clocked.run step s is).wbAddr = 5 := by
  intro clear s is
  have reset : ({ idleIn with reset := true } : ExecIn).reset = true := rfl
  obtain ⟨replied, placed, -, -, moved⟩ := executes_commands clear reset is (by decide)
  exact ⟨replied.trans (by decide), placed.trans (by decide), moved.trans (by decide)⟩

end Exec

end IcoZip.Hexbus
