import IcoZip.Library.Clocked
import IcoZip.Library.Pipelined
import IcoZip.LoadStore.Accesses

/-! Loads and stores of any size through `memops` are those of a memory of bytes.

The unit stands in front of a memory of words with byte selects, which stalls and
answers when it likes. The CPU asks only while the unit is not busy.
-/

set_option autoImplicit false

namespace IcoZip.LoadStore

variable {aw : Nat}

/-- The clock: what the CPU asks for, its lines otherwise, whether the memory stalls, whether it
answers, and what the data lines carry if it does not. -/
structure Inputs where
  ask : Option Access
  lines : Cpu
  stall : Bool
  answer : Bool
  float : BitVec 32

def Inputs.cpu (i : Inputs) : Cpu :=
  match i.ask with
  | some x =>
    { i.lines with reset := false, stb := true, op := x.op, addr := x.addr, data := x.data, oreg := x.oreg }
  | none => { i.lines with reset := false, stb := false }

/-- The access is one that the unit refuses. -/
def Access.errs (opt : Options) (a : Access) : Bool := opt.alignmentErr && !a.aligned

/-- What the CPU is told. -/
inductive Outcome where
  | result (wreg : BitVec 5) (value : BitVec 32)
  | misaligned
  deriving DecidableEq, Repr

/-- The unit, the memory, and the words it still has to answer with; `issued` is a record of the
accesses that were not misaligned. -/
structure Bench (aw : Nat) where
  core : Memops aw
  mem : Words aw
  waiting : List (BitVec 32)
  issued : List Access

namespace Bench

variable (opt : Options) (x : Bench aw) (i : Inputs)

def cyc : Bool := x.core.wbCycGbl opt || x.core.wbCycLcl opt

/-- The request on the local bus. -/
def strobesLcl : Bool := x.core.wbCycLcl opt && x.core.stbLcl

def accepts : Bool := (x.core.wbCycGbl opt && x.core.stbGbl || x.strobesLcl opt) && !i.stall

/-- The words that the memory can answer with. Ending the cycle withdraws them. -/
def outstanding : List (BitVec 32) :=
  if x.cyc opt then x.waiting ++ if x.accepts opt i then [x.mem (x.strobesLcl opt) x.core.addr] else [] else []

def reply : Option (BitVec 32) := Pipelined.reply (x.outstanding opt i) i.answer

def bus : Bus := ⟨i.stall, (x.reply opt i).isSome, false, (x.reply opt i).getD i.float⟩

def step : Bench aw where
  core := x.core.clock opt i.cpu (x.bus opt i)
  mem :=
    if x.accepts opt i && x.core.we then x.mem.write (x.strobesLcl opt) x.core.addr x.core.sel x.core.data else x.mem
  waiting := Pipelined.rest (x.outstanding opt i) i.answer
  issued := x.issued ++ i.ask.toList.filter fun a => !a.errs opt

/-- What the CPU is told in this clock. -/
def tells : List Outcome :=
  (if x.core.valid then [.result x.core.wreg x.core.result] else []) ++ if x.core.err then [.misaligned] else []

/-- The CPU waits until the unit is free, and asks for aligned accesses only unless the unit looks
for that itself. -/
def Polite : Prop := ∀ a ∈ i.ask, x.core.busy = false ∧ (opt.alignmentErr = false → a.aligned)

end Bench

/-! ### What is meant -/

variable (opt : Options) (initial : Bool → BitVec (aw + 2) → BitVec 8)

/-- The byte that the latest of the accesses has left at an address. -/
def latest (issued : List Access) : Bool → BitVec (aw + 2) → BitVec 8 :=
  Masked.latest initial (issued.map fun a => a.masked aw opt)

/-- What the CPU is to be told of an access that follows others. -/
def outcome (issued : List Access) (a : Access) : List Outcome :=
  if a.errs opt then [.misaligned]
  else if a.store then []
  else [.result a.oreg (a.loaded opt fun k =>
    latest opt initial issued (a.lcl opt) (a.location aw + BitVec.ofNat (aw + 2) k))]

/-- And of a list of accesses. -/
def outcomes (issued : List Access) : List Access → List Outcome
  | [] => []
  | a :: rest =>
    outcome opt initial issued a ++ outcomes (issued ++ if a.errs opt then [] else [a]) rest

/-! ### The registers during an access -/

namespace Memops

/-- Nothing is under way. -/
structure Free (s : Memops aw) : Prop where
  cycGbl : s.cycGbl = false
  cycLcl : s.cycLcl = false
  stbGbl : s.stbGbl = false
  stbLcl : s.stbLcl = false

/-- `a` is under way, and `asked` if the memory has still to accept it. -/
structure Serves (opt : Options) (a : Access) (asked : Bool) (s : Memops aw) : Prop where
  cycGbl : s.cycGbl = !a.lcl opt
  cycLcl : s.cycLcl = a.lcl opt
  stbGbl : s.stbGbl = (asked && !a.lcl opt)
  stbLcl : s.stbLcl = (asked && a.lcl opt)
  we : s.we = a.store
  op : s.op = sizeAndOffset a.op a.addr
  wreg : s.wreg = a.oreg
  valid : s.valid = false
  err : s.err = false

/-- The lines of the request for `a`. -/
structure Requests (opt : Options) (a : Access) (s : Memops aw) : Prop where
  addr : s.addr = a.addr.extractLsb' 2 aw
  data : s.data = wbData opt a.op a.addr a.data
  sel : s.sel = wbSel opt a.op a.addr

variable {opt : Options} {s : Memops aw} {i : Cpu} {bus : Bus} {a : Access}

theorem Serves.busy {asked : Bool} (serves : s.Serves opt a asked) : s.busy = true := by
  rw [Memops.busy, serves.cycGbl, serves.cycLcl]
  cases a.lcl opt <;> rfl

/-- The CPU's lines for `a`. -/
structure Asks (i : Cpu) (a : Access) : Prop where
  reset : i.reset = false
  stb : i.stb = true
  op : i.op = a.op
  addr : i.addr = a.addr
  data : i.data = a.data
  oreg : i.oreg = a.oreg

theorem clock_idle (free : s.Free) (quiet : i.stb = false) (noAck : bus.ack = false) :
    (s.clock opt i bus).Free ∧ (s.clock opt i bus).valid = false ∧ (s.clock opt i bus).err = false := by
  obtain ⟨cycGbl, cycLcl, stbGbl, stbLcl⟩ := free
  refine ⟨⟨?_, ?_, ?_, ?_⟩, ?_, ?_⟩ <;>
    simp [clock, busy, gblStb, lclStb, cycGbl, cycLcl, stbGbl, stbLcl, quiet, noAck]

/-- A misaligned access goes no further. -/
theorem clock_errs (free : s.Free) (asks : Asks i a) (errs : a.errs opt) (noAck : bus.ack = false) :
    (s.clock opt i bus).Free ∧ (s.clock opt i bus).valid = false ∧ (s.clock opt i bus).err = true := by
  obtain ⟨cycGbl, cycLcl, stbGbl, stbLcl⟩ := free
  have refused : misaligned opt i.op i.addr i.stb = true := by
    rw [asks.op, asks.addr, asks.stb, misaligned_eq]
    simpa [Access.errs] using errs
  have gbl : gblStb opt i.op i.addr i.stb = false := by simp [gblStb, refused]
  have lcl : lclStb opt i.op i.addr i.stb = false := by simp [lclStb, refused]
  refine ⟨⟨?_, ?_, ?_, ?_⟩, ?_, ?_⟩
  · simp [clock, busy, cycGbl, cycLcl, gbl]
  · simp [clock, busy, cycGbl, cycLcl, lcl]
  · simp [clock, cycGbl, stbGbl, gbl]
  · simp [clock, cycLcl, stbLcl, lcl]
  · simp [clock, noAck]
  · simp only [clock]
    rw [if_neg (by simp [asks.reset]), if_neg (by simp [busy, cycGbl, cycLcl]),
      if_pos (by simp [asks.stb, busy, cycGbl, cycLcl]), refused]

theorem clock_asks (free : s.Free) (asks : Asks i a) (errs : a.errs opt = false) (noAck : bus.ack = false) :
    (s.clock opt i bus).Serves opt a true ∧ (s.clock opt i bus).Requests opt a := by
  obtain ⟨cycGbl, cycLcl, stbGbl, stbLcl⟩ := free
  have goes : misaligned opt a.op a.addr true = false := by
    rw [misaligned_eq]
    simpa [Access.errs] using errs
  have gbl : gblStb opt i.op i.addr i.stb = !a.lcl opt := by
    rw [asks.op, asks.addr, asks.stb, gblStb, goes, Access.lcl]
    cases opt.localBus <;> simp [bne]
  have lcl : lclStb opt i.op i.addr i.stb = a.lcl opt := by
    rw [asks.op, asks.addr, asks.stb, lclStb, goes, Access.lcl]
    simp
  have refused : misaligned opt i.op i.addr i.stb = false := by rw [asks.op, asks.addr, asks.stb, goes]
  refine ⟨⟨?_, ?_, ?_, ?_, ?_, ?_, ?_, ?_, ?_⟩, ⟨?_, ?_, ?_⟩⟩
  · simp [clock, busy, cycGbl, cycLcl, gbl, asks.reset]
  · simp [clock, busy, cycGbl, cycLcl, lcl, asks.reset]
  · simp [clock, cycGbl, stbGbl, gbl, asks.reset]
  · simp [clock, cycLcl, stbLcl, lcl, asks.reset]
  · simp only [clock]
    rw [if_pos asks.stb, asks.op, a.op_store]
  · simp only [clock]
    rw [if_pos asks.stb, asks.op, asks.addr]
  · simp only [clock]
    rw [if_pos asks.stb, asks.oreg]
  · simp [clock, noAck]
  · simp [clock, busy, cycGbl, cycLcl, refused]
  · simp only [clock]
    rw [if_pos asks.stb, asks.addr]
  · simp only [clock]
    rw [if_pos asks.stb, asks.op, asks.addr, asks.data]
  · simp only [clock]
    rw [if_pos asks.stb, asks.op, asks.addr]

variable {asked : Bool}

/-- The strobe stands until the memory accepts. -/
theorem Serves.strobes (serves : s.Serves opt a asked) (reset : i.reset = false) (quiet : i.stb = false)
    (noErr : bus.err = false) :
    (s.clock opt i bus).stbGbl = (asked && bus.stall && !a.lcl opt) ∧
      (s.clock opt i bus).stbLcl = (asked && bus.stall && a.lcl opt) := by
  have gbl : gblStb opt i.op i.addr i.stb = false := by simp [gblStb, quiet]
  have lcl : lclStb opt i.op i.addr i.stb = false := by simp [lclStb, quiet]
  obtain ⟨cycGbl, cycLcl, stbGbl, stbLcl, -, -, -, -, -⟩ := serves
  constructor
  · cases bus_ : a.lcl opt <;> cases asked <;> simp_all [Memops.clock, wbCycGbl]
  · cases bus_ : a.lcl opt <;> cases asked <;> simp_all [Memops.clock, wbCycLcl]

/-- The memory has not answered yet. -/
theorem Serves.clock (serves : s.Serves opt a asked) (reset : i.reset = false) (quiet : i.stb = false)
    (noAck : bus.ack = false) (noErr : bus.err = false) :
    (s.clock opt i bus).Serves opt a (asked && bus.stall) ∧
      (s.Requests opt a → (s.clock opt i bus).Requests opt a) := by
  have busy := serves.busy
  have waits : (s.wbCycGbl opt || s.wbCycLcl opt) = true := by
    simp only [wbCycGbl, wbCycLcl, serves.cycGbl, serves.cycLcl]
    cases a.lcl opt <;> simp
  have held : (opt.lowpower && !s.wbCycGbl opt && !s.wbCycLcl opt) = false := by
    rw [Bool.and_assoc, ← Bool.not_or, waits]
    simp
  refine ⟨⟨?_, ?_, ?_, ?_, ?_, ?_, ?_, ?_, ?_⟩, fun requests => ⟨?_, ?_, ?_⟩⟩
  · simp [Memops.clock, busy, reset, noAck, noErr, serves.cycGbl]
  · simp [Memops.clock, busy, reset, noAck, noErr, serves.cycLcl]
  · exact (serves.strobes reset quiet noErr).1
  · exact (serves.strobes reset quiet noErr).2
  · simp [Memops.clock, quiet, held, serves.we]
  · simp [Memops.clock, quiet, serves.op]
  · simp [Memops.clock, quiet, serves.wreg]
  · simp [Memops.clock, noAck]
  · simp [Memops.clock, busy, noErr]
  · simp [Memops.clock, quiet, held, requests.addr]
  · simp [Memops.clock, quiet, held, requests.data]
  · simp [Memops.clock, quiet, held, requests.sel]

/-- The memory answers. -/
theorem Serves.finish (serves : s.Serves opt a asked) (reset : i.reset = false) (quiet : i.stb = false)
    (ack : bus.ack) (noErr : bus.err = false) (accepted : (asked && bus.stall) = false) :
    (s.clock opt i bus).Free ∧ (s.clock opt i bus).valid = !a.store ∧ (s.clock opt i bus).err = false ∧
      (s.clock opt i bus).wreg = a.oreg ∧
      (s.clock opt i bus).result = extracted opt (sizeAndOffset a.op a.addr) bus.data := by
  have busy := serves.busy
  have waits : (s.wbCycGbl opt || s.wbCycLcl opt) = true := by
    simp only [wbCycGbl, wbCycLcl, serves.cycGbl, serves.cycLcl]
    cases a.lcl opt <;> simp
  refine ⟨⟨?_, ?_, ?_, ?_⟩, ?_, ?_, ?_, ?_⟩
  · simp [Memops.clock, busy, ack]
  · simp [Memops.clock, busy, ack]
  · rw [(serves.strobes reset quiet noErr).1, accepted, Bool.false_and]
  · rw [(serves.strobes reset quiet noErr).2, accepted, Bool.false_and]
  · simp only [Memops.clock, waits, reset, ack, serves.we]
    simp
  · simp [Memops.clock, busy, noErr]
  · simp [Memops.clock, quiet, serves.wreg]
  · simp [Memops.clock, ack, serves.op]

end Memops

/-! ### Runs -/

theorem latest_concat (issued : List Access) (a : Access) (l : Bool) (b : BitVec (aw + 2)) :
    latest opt initial (issued ++ [a]) l b = ((a.masked aw opt).covers l b).getD (latest opt initial issued l b) := by
  rw [latest, List.map_append, List.map_singleton, Masked.latest_concat]
  rfl

/-- A load leaves every byte as it is. -/
theorem latest_load (issued : List Access) {a : Access} (load : a.store = false) :
    latest opt initial (issued ++ [a]) = latest opt initial issued := by
  funext l b
  have none : (a.masked aw opt).covers l b = none := by
    have stored : a.stored aw opt b = none := by rw [Access.stored, load, Bool.false_and, if_neg (by simp)]
    unfold Masked.Access.covers
    split_ifs
    · exact stored
    · rfl
  rw [latest_concat, none]
  rfl

namespace Bench

/-- Where an access stands, and what is still to be told of it. -/
inductive Holds : Bench aw → List Outcome → Prop where
  | free {x : Bench aw} : x.core.Free → x.waiting = [] →
      x.mem.byte opt.littleEndian = latest opt initial x.issued → Holds x x.tells
  | asked {x : Bench aw} {a : Access} {before : List Access} : x.core.Serves opt a true → x.core.Requests opt a →
      x.waiting = [] → x.issued = before ++ [a] → a.aligned = true → a.errs opt = false →
      x.mem.byte opt.littleEndian = latest opt initial before → Holds x (outcome opt initial before a)
  | waits {x : Bench aw} {a : Access} {before : List Access} {w : BitVec 32} : x.core.Serves opt a false →
      x.waiting = [w] → x.issued = before ++ [a] → a.errs opt = false →
      x.mem.byte opt.littleEndian = latest opt initial x.issued →
      (a.store = false → extracted opt (sizeAndOffset a.op a.addr) w =
        a.loaded opt fun k => latest opt initial before (a.lcl opt) (a.location aw + BitVec.ofNat (aw + 2) k)) →
      Holds x (outcome opt initial before a)

variable {opt initial} {x : Bench aw} {i : Inputs}

theorem Polite.quiet (polite : x.Polite opt i) (busy : x.core.busy = true) : i.ask = none := by
  cases ask : i.ask with
  | none => rfl
  | some a =>
    have free := (polite a (by simp [ask])).1
    rw [busy] at free
    contradiction

theorem cpu_quiet (quiet : i.ask = none) : i.cpu.reset = false ∧ i.cpu.stb = false := by
  rw [Inputs.cpu, quiet]
  exact ⟨rfl, rfl⟩

theorem cpu_asks {a : Access} (ask : i.ask = some a) : Memops.Asks i.cpu a := by
  rw [Inputs.cpu, ask]
  exact ⟨rfl, rfl, rfl, rfl, rfl, rfl⟩

variable {a : Access} {asked : Bool}

theorem cyc_serves (serves : x.core.Serves opt a asked) : x.cyc opt = true := by
  simp only [cyc, Memops.wbCycGbl, Memops.wbCycLcl, serves.cycGbl, serves.cycLcl]
  cases a.lcl opt <;> simp

theorem strobesLcl_serves (serves : x.core.Serves opt a asked) : x.strobesLcl opt = (asked && a.lcl opt) := by
  simp only [strobesLcl, Memops.wbCycLcl, serves.cycLcl, serves.stbLcl]
  cases a.lcl opt <;> simp

theorem accepts_serves (serves : x.core.Serves opt a asked) : x.accepts opt i = (asked && !i.stall) := by
  simp only [accepts, strobesLcl_serves serves, Memops.wbCycGbl, serves.cycGbl, serves.stbGbl]
  cases a.lcl opt <;> cases asked <;> simp

theorem tells_serves (serves : x.core.Serves opt a asked) : x.tells = [] := by
  simp [tells, serves.valid, serves.err]

theorem outstanding_free (free : x.core.Free) (empty : x.waiting = []) :
    x.accepts opt i = false ∧ x.outstanding opt i = [] := by
  have accepts : x.accepts opt i = false := by simp [Bench.accepts, strobesLcl, free.stbGbl, free.stbLcl]
  exact ⟨accepts, by simp [Bench.outstanding, accepts, empty]⟩

/-- The unit is free. -/
theorem law_free (free : x.core.Free) (empty : x.waiting = [])
    (content : x.mem.byte opt.littleEndian = latest opt initial x.issued) (polite : x.Polite opt i) :
    ∃ later, Holds opt initial (x.step opt i) later ∧
      x.tells ++ later = x.tells ++ i.ask.toList.flatMap (outcome opt initial x.issued) := by
  obtain ⟨accepts, outstanding⟩ := @outstanding_free aw opt x i free empty
  have noAck : (x.bus opt i).ack = false := by simp [bus, reply, outstanding]
  have mem : (x.step opt i).mem = x.mem := by simp [step, accepts]
  have waiting : (x.step opt i).waiting = [] := by simp [step, outstanding]
  cases ask : i.ask with
  | none =>
    obtain ⟨reset, quiet⟩ := cpu_quiet ask
    obtain ⟨free', valid, err⟩ := Memops.clock_idle free quiet noAck
    have issued : (x.step opt i).issued = x.issued := by simp [step, ask]
    have silent : (x.step opt i).tells = [] := by
      rw [tells, show (x.step opt i).core.valid = false from valid, show (x.step opt i).core.err = false from err]
      rfl
    exact ⟨_, .free free' waiting (by rw [mem, issued, content]), by rw [silent]; rfl⟩
  | some a =>
    cases errs : a.errs opt with
    | true =>
      obtain ⟨free', valid, err⟩ := Memops.clock_errs free (cpu_asks ask) errs noAck
      have issued : (x.step opt i).issued = x.issued := by simp [step, ask, errs]
      have told : (x.step opt i).tells = [.misaligned] := by
        rw [tells, show (x.step opt i).core.valid = false from valid, show (x.step opt i).core.err = true from err]
        rfl
      exact ⟨_, .free free' waiting (by rw [mem, issued, content]), by simp [told, outcome, errs]⟩
    | false =>
      obtain ⟨serves, requests⟩ := Memops.clock_asks free (cpu_asks ask) errs noAck
      have aligned : a.aligned = true := by
        cases alignmentErr : opt.alignmentErr with
        | true => simpa [Access.errs, alignmentErr] using errs
        | false => exact (polite a (by simp [ask])).2 alignmentErr
      have issued : (x.step opt i).issued = x.issued ++ [a] := by simp [step, ask, errs]
      exact ⟨_, .asked serves requests waiting issued aligned errs (by rw [mem, content]), by simp⟩

/-- The memory has accepted the request, in this clock or before, and `w` is what it answers with. -/
theorem law_served {before : List Access} {w : BitVec 32} (serves : x.core.Serves opt a asked)
    (accepted : (asked && i.stall) = false) (queue : x.outstanding opt i = [w])
    (issued : x.issued = before ++ [a]) (errs : a.errs opt = false)
    (content : (x.step opt i).mem.byte opt.littleEndian = latest opt initial x.issued)
    (value : a.store = false → extracted opt (sizeAndOffset a.op a.addr) w =
      a.loaded opt fun k => latest opt initial before (a.lcl opt) (a.location aw + BitVec.ofNat (aw + 2) k))
    (quiet : i.ask = none) : Holds opt initial (x.step opt i) (outcome opt initial before a) := by
  obtain ⟨reset, unasked⟩ := cpu_quiet quiet
  have issued' : (x.step opt i).issued = x.issued := by simp [step, quiet]
  cases answer : i.answer with
  | true =>
    have ack : (x.bus opt i).ack = true := by simp [bus, reply, queue, answer]
    have data : (x.bus opt i).data = w := by simp [bus, reply, queue, answer]
    have waiting : (x.step opt i).waiting = [] := by simp [step, queue, answer]
    obtain ⟨free, valid, err, wreg, result⟩ := serves.finish reset unasked ack rfl accepted
    have told : (x.step opt i).tells = outcome opt initial before a := by
      rw [tells, show (x.step opt i).core.valid = !a.store from valid, show (x.step opt i).core.err = false from err,
        show (x.step opt i).core.wreg = a.oreg from wreg,
        show (x.step opt i).core.result = extracted opt (sizeAndOffset a.op a.addr) w from data ▸ result]
      cases store : a.store with
      | true => simp [outcome, errs, store]
      | false => simp [outcome, errs, store, value store]
    rw [← told]
    exact .free free waiting (by rw [issued', content])
  | false =>
    have noAck : (x.bus opt i).ack = false := by simp [bus, reply, queue, answer]
    have waiting : (x.step opt i).waiting = [w] := by simp [step, queue, answer]
    have still := (serves.clock reset unasked noAck rfl).1
    rw [show (x.bus opt i).stall = i.stall from rfl, accepted] at still
    exact .waits still waiting (issued'.trans issued) errs (by rw [issued', content]) value

/-- The request has not been accepted. -/
theorem law_asked {before : List Access} (serves : x.core.Serves opt a true) (requests : x.core.Requests opt a)
    (empty : x.waiting = []) (issued : x.issued = before ++ [a]) (aligned : a.aligned = true)
    (errs : a.errs opt = false) (content : x.mem.byte opt.littleEndian = latest opt initial before)
    (quiet : i.ask = none) : Holds opt initial (x.step opt i) (outcome opt initial before a) := by
  have cyc := cyc_serves serves
  have accepts : x.accepts opt i = !i.stall := accepts_serves serves
  have lcl : x.strobesLcl opt = a.lcl opt := strobesLcl_serves serves
  cases stall : i.stall with
  | true =>
    rw [stall] at accepts
    obtain ⟨reset, unasked⟩ := cpu_quiet quiet
    have queue : x.outstanding opt i = [] := by simp [outstanding, accepts, empty]
    have noAck : (x.bus opt i).ack = false := by simp [bus, reply, queue]
    obtain ⟨still, lines⟩ := serves.clock reset unasked noAck rfl
    rw [show (x.bus opt i).stall = i.stall from rfl, stall] at still
    refine .asked still (lines requests) ?_ ?_ aligned errs ?_
    · simp [step, queue]
    · simpa [step, quiet] using issued
    · simpa [step, accepts] using content
  | false =>
    rw [stall] at accepts
    have queue : x.outstanding opt i = [x.mem (a.lcl opt) (a.addr.extractLsb' 2 aw)] := by
      simp [outstanding, cyc, accepts, empty, lcl, requests.addr]
    refine law_served serves (by rw [stall]; rfl) queue issued errs ?_ ?_ quiet
    · rw [issued]
      cases store : a.store with
      | true =>
        funext l b
        have written : (x.step opt i).mem = x.mem.write (a.lcl opt) (a.addr.extractLsb' 2 aw) (wbSel opt a.op a.addr)
            (wbData opt a.op a.addr a.data) := by
          simp [step, accepts, serves.we, store, lcl, requests.addr, requests.sel, requests.data]
        rw [written, byte_write opt x.mem aligned store, latest_concat, content]
      | false =>
        have kept : (x.step opt i).mem = x.mem := by simp [step, serves.we, store]
        rw [kept, latest_load opt initial before store, content]
    · intro _
      rw [extracted_loaded opt x.mem aligned, content]

/-- What is told of the accesses of a clock, in the end. -/
def told (opt : Options) (initial : Bool → BitVec (aw + 2) → BitVec 8) (x : Bench aw) (i : Inputs) : List Outcome :=
  i.ask.toList.flatMap (outcome opt initial x.issued)

theorem Holds.step {owed : List Outcome} (holds : Holds opt initial x owed) (polite : x.Polite opt i) :
    ∃ later, Holds opt initial (x.step opt i) later ∧ x.tells ++ later = owed ++ told opt initial x i := by
  cases holds with
  | free free empty content => exact law_free free empty content polite
  | @asked a before serves requests empty issued aligned errs content =>
    have quiet := polite.quiet serves.busy
    refine ⟨_, law_asked serves requests empty issued aligned errs content quiet, ?_⟩
    rw [tells_serves serves, told, quiet]
    simp
  | @waits a before w serves waiting issued errs content value =>
    have quiet := polite.quiet serves.busy
    have accepts : x.accepts opt i = false := accepts_serves serves
    have queue : x.outstanding opt i = [w] := by simp [outstanding, cyc_serves serves, accepts, waiting]
    have kept : (x.step opt i).mem = x.mem := by simp [Bench.step, accepts]
    refine ⟨_, law_served serves rfl queue issued errs (by rw [kept, content]) value quiet, ?_⟩
    rw [tells_serves serves, told, quiet]
    simp

/-- The accesses asked for, in order. -/
def asks (is : List Inputs) : List Access := is.flatMap fun i => i.ask.toList

theorem asks_cons (i : Inputs) (is : List Inputs) : asks (i :: is) = i.ask.toList ++ asks is := List.flatMap_cons

theorem issued_run (is : List Inputs) (x : Bench aw) :
    (Clocked.run (step opt) x is).issued = x.issued ++ (asks is).filter fun a => !a.errs opt := by
  induction is generalizing x with
  | nil => simp [asks]
  | cons i is ih =>
    rw [Clocked.run_cons, ih, asks_cons, List.filter_append, ← List.append_assoc]
    rfl

theorem emitted_told (is : List Inputs) (x : Bench aw) :
    Clocked.emitted (step opt) (told opt initial) x is = outcomes opt initial x.issued (asks is) := by
  induction is generalizing x with
  | nil => rfl
  | cons i is ih =>
    rw [Clocked.emitted_cons, ih, told, asks_cons]
    cases ask : i.ask with
    | none => simp [step, ask]
    | some a => cases errs : a.errs opt <;> simp [step, ask, outcomes, errs]

/-- The request the memory accepts: the bus, the direction and the word. -/
def requested (opt : Options) (x : Bench aw) (i : Inputs) : List (Bool × Bool × BitVec aw) :=
  if x.accepts opt i then [(x.strobesLcl opt, x.core.we, x.core.addr)] else []

/-- The request for an access. -/
def request (aw : Nat) (opt : Options) (a : Access) : Bool × Bool × BitVec aw :=
  (a.lcl opt, a.store, a.addr.extractLsb' 2 aw)

/-- The request on the lines. -/
def offered (opt : Options) (x : Bench aw) : List (Bool × Bool × BitVec aw) :=
  if x.core.stbGbl || x.core.stbLcl then [(x.strobesLcl opt, x.core.we, x.core.addr)] else []

/-- The requests for the accesses of a clock. -/
def wanted (opt : Options) (_ : Bench aw) (i : Inputs) : List (Bool × Bool × BitVec aw) :=
  (i.ask.toList.filter fun a => !a.errs opt).map (request aw opt)

theorem emitted_wanted (is : List Inputs) (x : Bench aw) :
    Clocked.emitted (step opt) (wanted opt) x is = ((asks is).filter fun a => !a.errs opt).map (request aw opt) := by
  induction is generalizing x with
  | nil => rfl
  | cons i is ih => rw [Clocked.emitted_cons, ih, asks_cons, List.filter_append, List.map_append, wanted]

theorem offered_free (free : x.core.Free) : offered opt x = [] := by simp [offered, free.stbGbl, free.stbLcl]

theorem offered_asked (serves : x.core.Serves opt a true) (requests : x.core.Requests opt a) :
    offered opt x = [request aw opt a] := by
  rw [offered, serves.stbGbl, serves.stbLcl, strobesLcl_serves serves, serves.we, requests.addr, request]
  cases a.lcl opt <;> simp

theorem offered_waits (serves : x.core.Serves opt a false) : offered opt x = [] := by
  simp [offered, serves.stbGbl, serves.stbLcl]

theorem requested_law {owed : List Outcome} (holds : Holds opt initial x owed) (polite : x.Polite opt i) :
    requested opt x i ++ offered opt (x.step opt i) =
      offered opt x ++ wanted opt x i := by
  rw [wanted]
  -- A request is offered from the clock behind its access until the bus takes it, and only then.
  cases holds with
  | free free empty content =>
    obtain ⟨accepts, outstanding⟩ := @outstanding_free aw opt x i free empty
    have noAck : (x.bus opt i).ack = false := by simp [bus, reply, outstanding]
    rw [offered_free free, requested, accepts]
    cases ask : i.ask with
    | none =>
      have next : (x.step opt i).core.Free := (Memops.clock_idle free (cpu_quiet ask).2 noAck).1
      rw [offered_free next]
      simp
    | some a =>
      cases errs : a.errs opt with
      | true =>
        have next : (x.step opt i).core.Free := (Memops.clock_errs free (cpu_asks ask) errs noAck).1
        rw [offered_free next]
        simp [errs]
      | false =>
        obtain ⟨serves, requests⟩ := Memops.clock_asks free (cpu_asks ask) errs noAck
        have next : offered opt (x.step opt i) = [request aw opt a] := offered_asked serves requests
        rw [next]
        simp [errs]
  | @asked a before serves requests empty issued aligned errs content =>
    have quiet := polite.quiet serves.busy
    have accepts : x.accepts opt i = !i.stall := accepts_serves serves
    obtain ⟨reset, unasked⟩ := cpu_quiet quiet
    rw [offered_asked serves requests, quiet]
    cases stall : i.stall with
    | true =>
      rw [stall] at accepts
      have queue : x.outstanding opt i = [] := by simp [outstanding, accepts, empty]
      have noAck : (x.bus opt i).ack = false := by simp [bus, reply, queue]
      obtain ⟨still, lines⟩ := serves.clock reset unasked noAck rfl
      rw [show (x.bus opt i).stall = i.stall from rfl, stall] at still
      have next : offered opt (x.step opt i) = [request aw opt a] := offered_asked still (lines requests)
      rw [next, requested, accepts]
      simp
    | false =>
      rw [stall] at accepts
      obtain ⟨gbl, lcl⟩ := @Memops.Serves.strobes aw opt x.core i.cpu (x.bus opt i) a true serves reset unasked rfl
      rw [show (x.bus opt i).stall = i.stall from rfl, stall] at gbl lcl
      have next : offered opt (x.step opt i) = [] := by
        rw [offered, show (x.step opt i).core.stbGbl = false from gbl, show (x.step opt i).core.stbLcl = false from lcl]
        rfl
      rw [next, requested, accepts, strobesLcl_serves serves, serves.we, requests.addr, request]
      simp
  | @waits a before w serves waiting issued errs content value =>
    have quiet := polite.quiet serves.busy
    have accepts : x.accepts opt i = false := accepts_serves serves
    obtain ⟨reset, unasked⟩ := cpu_quiet quiet
    obtain ⟨gbl, lcl⟩ := @Memops.Serves.strobes aw opt x.core i.cpu (x.bus opt i) a false serves reset unasked rfl
    have next : offered opt (x.step opt i) = [] := by
      rw [offered, show (x.step opt i).core.stbGbl = false from gbl, show (x.step opt i).core.stbLcl = false from lcl]
      rfl
    rw [next, offered_waits serves, requested, accepts, quiet]
    simp

theorem Free.busy {s : Memops aw} (free : s.Free) : s.busy = false := by rw [Memops.busy, free.cycGbl, free.cycLcl]; rfl

theorem Holds.free_of {owed : List Outcome} (holds : Holds opt initial x owed) (idle : x.core.busy = false) :
    owed = x.tells ∧ offered opt x = [] ∧ x.mem.byte opt.littleEndian = latest opt initial x.issued := by
  cases holds with
  | free free empty content => exact ⟨rfl, offered_free free, content⟩
  | asked serves =>
    rw [serves.busy] at idle
    contradiction
  | waits serves =>
    rw [serves.busy] at idle
    contradiction

/-- An access is over when the memory has accepted it and answered. -/
theorem Holds.served {owed : List Outcome} (holds : Holds opt initial x owed) (quiet : i.ask = none)
    (stall : i.stall = false) (answer : i.answer = true) : (x.step opt i).core.busy = false := by
  obtain ⟨reset, unasked⟩ := cpu_quiet quiet
  cases holds with
  | free free empty content =>
    obtain ⟨accepts, outstanding⟩ := @outstanding_free aw opt x i free empty
    have noAck : (x.bus opt i).ack = false := by simp [bus, reply, outstanding]
    exact Free.busy (Memops.clock_idle free unasked noAck).1
  | @asked a before serves requests empty =>
    have accepts : x.accepts opt i = true := by rw [accepts_serves serves, stall]; rfl
    have ack : (x.bus opt i).ack = true := by simp [bus, reply, outstanding, cyc_serves serves, accepts, empty, answer]
    have stalled : (x.bus opt i).stall = i.stall := rfl
    exact Free.busy (serves.finish reset unasked ack rfl (by rw [stalled, stall]; rfl)).1
  | @waits a before w serves waiting =>
    have accepts : x.accepts opt i = false := accepts_serves serves
    have ack : (x.bus opt i).ack = true := by
      simp [bus, reply, outstanding, cyc_serves serves, accepts, waiting, answer]
    exact Free.busy (serves.finish reset unasked ack rfl rfl).1

end Bench

/-- Power-up in front of a memory. -/
def Bench.powerUp (free : Memops aw) (mem : Words aw) : Bench aw := ⟨.powerUp free, mem, [], []⟩

/-- In every run, with any stalls and latencies, the CPU is told what the memory of bytes has to say,
and the memory is asked for the accesses that are not misaligned. When the unit is free everything
has been told, or is on its lines, and the words hold what the stores have left. An access under way
takes the memory's consent and its answer, and no more. -/
theorem serves_subword (opt : Options) (free : Memops aw) (mem : Words aw) (is : List Inputs)
    (polite : Clocked.Always (Bench.step opt) (Bench.Polite opt) (.powerUp free mem) is) :
    let x := Bench.powerUp free mem
    let y := Clocked.run (Bench.step opt) x is
    let meant := outcomes opt (mem.byte opt.littleEndian) [] (Bench.asks is)
    let kept := (Bench.asks is).filter fun a => !a.errs opt
    Clocked.emitted (Bench.step opt) (fun x _ => x.tells) x is <+: meant ∧
    Clocked.emitted (Bench.step opt) (Bench.requested opt) x is <+: kept.map (Bench.request aw opt) ∧
    (y.core.busy = false →
      Clocked.emitted (Bench.step opt) (fun x _ => x.tells) x is ++ y.tells = meant ∧
      Clocked.emitted (Bench.step opt) (Bench.requested opt) x is = kept.map (Bench.request aw opt) ∧
      y.mem.byte opt.littleEndian = latest opt (mem.byte opt.littleEndian) kept) ∧
    (∀ i : Inputs, i.ask = none → i.stall = false → i.answer = true → (y.step opt i).core.busy = false) := by
  intro x y meant kept
  have start : Bench.Holds opt (mem.byte opt.littleEndian) x [] := .free ⟨rfl, rfl, rfl, rfl⟩ rfl rfl
  obtain ⟨owed, holds, law⟩ := @Clocked.conservation_rel _ _ _ (Bench.step opt) (Bench.Polite opt)
    (fun x _ => x.tells) (Bench.told opt (mem.byte opt.littleEndian)) (Bench.Holds opt (mem.byte opt.littleEndian))
    (fun _ _ _ holds polite => holds.step polite) x is [] start polite
  rw [List.nil_append, Bench.emitted_told] at law
  have law' := @Clocked.conservation _ _ _ (Bench.step opt) (Bench.Polite opt)
    (fun x => ∃ owed, Bench.Holds opt (mem.byte opt.littleEndian) x owed) (Bench.requested opt) (Bench.wanted opt)
    (Bench.offered opt)
    (fun _ _ holds polite => holds.elim fun _ holds => (holds.step polite).imp fun _ later => later.1)
    (fun _ _ holds polite => holds.elim fun _ holds => Bench.requested_law holds polite) x is ⟨[], start⟩ polite
  rw [Bench.emitted_wanted, show Bench.offered opt x = [] from rfl, List.nil_append] at law'
  refine ⟨⟨owed, law⟩, ⟨_, law'⟩, fun idle => ?_, fun i quiet stall answer => holds.served quiet stall answer⟩
  obtain ⟨told, none, content⟩ := holds.free_of idle
  rw [told] at law
  rw [none, List.append_nil] at law'
  rw [Bench.issued_run] at content
  exact ⟨law, law', content⟩

instance (opt : Options) (x : Bench aw) (i : Inputs) : Decidable (x.Polite opt i) :=
  inferInstanceAs (Decidable (∀ a ∈ i.ask, _))

/-- A word and a byte in it stored, a half word loaded, and a misaligned word asked for. -/
def mixed : List Inputs :=
  let i (ask : Option Access) : Inputs := ⟨ask, ⟨false, false, true, 7, 9, 11, 13⟩, false, true, 17⟩
  [i (some ⟨true, .word, 4, 0x12345678, 0⟩), { i none with stall := true }, { i none with answer := false }, i none,
    i (some ⟨true, .byte, 5, 0xff99, 0⟩), i none, i (some ⟨false, .half, 4, 0, 3⟩), i none,
    i (some ⟨false, .word, 6, 0, 3⟩), i none]

/-- The unit before, with every option but little endian. -/
def mixedBench : Bench 4 :=
  .powerUp ⟨false, false, false, false, false, 0, 0, 0, 0, false, false, false, false, false, 0, 0⟩ fun _ _ => 0

theorem serves_subword_mixed :
    Clocked.emitted (Bench.step ⟨true, true, true, true, false⟩) (fun x _ => x.tells) mixedBench mixed ++
      (Clocked.run (Bench.step ⟨true, true, true, true, false⟩) mixedBench mixed).tells =
        [.result 3 0x1299, .misaligned] := by
  have polite : Clocked.Always (Bench.step ⟨true, true, true, true, false⟩)
      (Bench.Polite ⟨true, true, true, true, false⟩)
      mixedBench mixed := by decide +kernel
  have idle : (Clocked.run (Bench.step ⟨true, true, true, true, false⟩) mixedBench mixed).core.busy = false := by
    decide +kernel
  have served := ((serves_subword ⟨true, true, true, true, false⟩ _ _ mixed polite).2.2.1 idle).1
  exact served.trans (by decide +kernel)

end IcoZip.LoadStore
