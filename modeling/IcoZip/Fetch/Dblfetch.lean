import IcoZip.Fetch.Stream

/-! `dblfetch`: up to two requests in flight, and a second word kept behind the
one that is offered to the CPU.
-/

set_option autoImplicit false

namespace IcoZip.Fetch

structure Dblfetch (w d : Nat) where
  cyc : Bool
  stb : Bool
  invalidBusCycle : Bool
  inflight : BitVec 2
  addr : BitVec w
  valid : Bool
  illegal : Bool
  insn : BitVec d
  pc : BitVec (w + 2)
  cacheWord : BitVec d
  cacheValid : Bool
  cacheIllegal : Bool
  deriving DecidableEq, Repr

variable {w d : Nat}

namespace Dblfetch

/-- The `initial` values. -/
def powerUp (free : Dblfetch w d) : Dblfetch w d :=
  { free with
    cyc := false
    stb := false
    invalidBusCycle := false
    inflight := 0
    addr := BitVec.allOnes w
    valid := false
    illegal := false
    cacheValid := false
    cacheIllegal := false }

/-- The request that is out is the last one. -/
def lastStb (s : Dblfetch w d) (c : Cpu w) : Bool := s.inflight != 0 || s.valid && !c.ready

/-- The bus is released. -/
def releases (s : Dblfetch w d) (c : Cpu w) (b : Bus d) : Bool :=
  b.ack && !s.stb && s.inflight.toNat ≤ 1 || !s.stb && s.inflight == 0 || c.newPc || c.clearCache

/-- `o_wb_cyc` and `o_wb_stb` -/
def cycle (s : Dblfetch w d) (c : Cpu w) (b : Bus d) : Bool × Bool :=
  if c.reset || s.cyc && b.err then (false, false)
  else if s.cyc then
    if s.releases c b then (false, false)
    else (s.cyc, if !s.stb || !b.stall then !s.lastStb c else s.stb)
  else if c.newPc || s.invalidBusCycle || s.valid && c.ready && !s.illegal then (true, true)
  else (s.cyc, s.stb)

def clock (s : Dblfetch w d) (c : Cpu w) (b : Bus d) : Dblfetch w d where
  cyc := (s.cycle c b).1
  stb := (s.cycle c b).2
  invalidBusCycle := if s.cyc && c.newPc then true else if !s.cyc then false else s.invalidBusCycle
  inflight :=
    if !s.cyc then 0
    else if !(s.stb && !b.stall) && b.ack then s.inflight - 1
    else if s.stb && !b.stall && !b.ack then s.inflight + 1
    else s.inflight
  addr := if c.newPc then word c.pc else if s.stb && !b.stall then s.addr + 1 else s.addr
  valid :=
    if c.reset || c.newPc || c.clearCache then false
    else if s.cyc && (b.ack || b.err) then true
    else if c.ready then s.cacheValid
    else s.valid
  illegal :=
    if c.reset || c.newPc || c.clearCache then false
    else if !s.valid || c.ready then
      if s.cacheValid then s.illegal || s.cacheIllegal
      else if s.cyc && b.err then true
      else s.illegal
    else s.illegal
  insn := if !s.valid || c.ready then (if s.cacheValid then s.cacheWord else b.data) else s.insn
  pc := if c.newPc then c.pc else if s.valid && c.ready then (word s.pc + 1) ++ 0#2 else s.pc
  cacheWord := if b.ack then b.data else s.cacheWord
  cacheValid :=
    if c.reset || c.newPc || c.clearCache then false
    else if s.valid && s.cyc && (b.ack || b.err) then !c.ready || s.cacheValid
    else if c.ready then false
    else s.cacheValid
  cacheIllegal :=
    if c.reset || c.clearCache || c.newPc then false
    else if s.valid && (!c.ready || s.cacheValid) && s.cyc && (b.ack || b.err) then b.err
    else s.cacheIllegal

def pins (s : Dblfetch w d) : Pins w d := ⟨s.valid, s.illegal, s.insn, s.pc, s.cyc, s.stb, s.addr⟩

end Dblfetch

abbrev dblfetch (w d : Nat) : Fetcher w d := ⟨Dblfetch w d, Dblfetch.pins, Dblfetch.clock⟩

namespace Dblfetch

section
variable (s : Dblfetch w d)

@[simp] theorem pins_valid : (pins s).valid = s.valid := rfl

@[simp] theorem pins_illegal : (pins s).illegal = s.illegal := rfl

@[simp] theorem pins_insn : (pins s).insn = s.insn := rfl

@[simp] theorem pins_pc : (pins s).pc = s.pc := rfl

@[simp] theorem pins_cyc : (pins s).cyc = s.cyc := rfl

@[simp] theorem pins_stb : (pins s).stb = s.stb := rfl

@[simp] theorem pins_addr : (pins s).addr = s.addr := rfl

end

/-- The words that have been read and not been taken; one that could not be read is missing. -/
def kept (s : Dblfetch w d) : List (Option (BitVec d)) :=
  if s.valid then
    (if s.illegal then none else some s.insn) ::
      if s.cacheValid then [if s.cacheIllegal then none else some s.cacheWord] else []
  else []

section Clock
variable {s : Dblfetch w d} {c : Cpu w} {b : Bus d}

/-- What the bus brings in a clock. -/
def arrives (b : Bus d) : List (Option (BitVec d)) :=
  if b.ack || b.err then [if b.err then none else some b.data] else []

/-- How many words the CPU takes. -/
def takes (s : Dblfetch w d) (c : Cpu w) : Nat := if s.valid && c.ready then 1 else 0

/-- Words leave at the front and arrive at the back. -/
theorem kept_clock (quiet : c.quiet = true) (legal : s.illegal = false) (cache : s.cacheValid = true → s.valid = true)
    (answered : (b.ack || b.err) = true → s.cyc = true) (one : (b.ack && b.err) = false)
    (room : (s.kept.drop (s.takes c)).length + (arrives b).length ≤ 2) :
    (s.clock c b).kept = s.kept.drop (s.takes c) ++ arrives b := by
  obtain ⟨reset, newPc, clear⟩ := Bench.quiet_iff.mp quiet
  cases valid : s.valid <;> cases cached : s.cacheValid <;> cases ready : c.ready <;> cases cyc : s.cyc <;>
    cases ack : b.ack <;> cases err : b.err <;>
    simp_all [kept, arrives, takes, clock]

theorem cache_clock (cache : s.cacheValid = true → s.valid = true) :
    (s.clock c b).cacheValid = true → (s.clock c b).valid = true := by
  simp only [clock]
  split_ifs <;> simp_all

/-- Only what is offered is illegal. -/
theorem illegal_clock (quiet : c.quiet = true) (legal : s.illegal = false)
    (cache : s.cacheValid = true → s.valid = true) :
    (s.clock c b).illegal = true → (s.clock c b).valid = true := by
  obtain ⟨reset, newPc, clear⟩ := Bench.quiet_iff.mp quiet
  cases valid : s.valid <;> cases cached : s.cacheValid <;> cases ready : c.ready <;>
    simp_all [clock]

/-- Off the bus. -/
theorem clock_idle (quiet : c.quiet = true) (legal : s.illegal = false) (idle : s.cyc = false) (stb : s.stb = false) :
    (s.clock c b).cyc = (s.invalidBusCycle || s.valid && c.ready) ∧ (s.clock c b).stb = (s.clock c b).cyc ∧
    (s.clock c b).invalidBusCycle = false ∧ (s.clock c b).inflight = 0 ∧ (s.clock c b).addr = s.addr := by
  obtain ⟨reset, newPc, clear⟩ := Bench.quiet_iff.mp quiet
  cases invalid : s.invalidBusCycle <;> cases valid : s.valid <;> cases ready : c.ready <;>
    simp [clock, cycle, reset, newPc, legal, idle, stb, invalid, valid, ready]

/-- On the bus; an error ends the cycle. -/
theorem clock_failed (quiet : c.quiet = true) (cyc : s.cyc = true) (err : b.err = true) :
    (s.clock c b).cyc = false ∧ (s.clock c b).stb = false ∧ (s.clock c b).invalidBusCycle = s.invalidBusCycle := by
  obtain ⟨reset, newPc, clear⟩ := Bench.quiet_iff.mp quiet
  simp [clock, cycle, newPc, cyc, err]

theorem clock_running (quiet : c.quiet = true) (cyc : s.cyc = true) (fine : b.err = false) :
    (s.clock c b).cyc = !(!s.stb && (b.ack && s.inflight.toNat ≤ 1 || s.inflight == 0)) ∧
    ((s.clock c b).cyc = false → (s.clock c b).stb = false) ∧
    ((s.clock c b).cyc = true → (s.clock c b).stb = if s.stb && b.stall then true else !s.lastStb c) ∧
    (s.clock c b).invalidBusCycle = s.invalidBusCycle ∧
    (s.clock c b).addr = s.addr + BitVec.ofNat w (s.stb && !b.stall).toNat := by
  obtain ⟨reset, newPc, clear⟩ := Bench.quiet_iff.mp quiet
  have release : s.releases c b = (!s.stb && (b.ack && s.inflight.toNat ≤ 1 || s.inflight == 0)) := by
    cases stb : s.stb <;> simp [releases, stb, newPc, clear]
  rw [← release]
  cases released : s.releases c b <;> cases stb : s.stb <;> cases stall : b.stall <;>
    simp [clock, cycle, reset, newPc, cyc, fine, released, stb, stall]

theorem sticky (quiet : c.quiet = true) (illegal : s.illegal = true) : (s.clock c b).illegal = true := by
  obtain ⟨reset, newPc, clear⟩ := Bench.quiet_iff.mp quiet
  simp [clock, reset, newPc, clear, illegal]

theorem waits (quiet : c.quiet = true) (wait : c.ready = false) (valid : s.valid = true) :
    (s.clock c b).valid = true ∧ (s.clock c b).pc = s.pc := by
  obtain ⟨reset, newPc, clear⟩ := Bench.quiet_iff.mp quiet
  simp [clock, reset, newPc, clear, wait, valid]

end Clock

open Bench Pipelined

variable {mem : Memory w d} {x : Bench (dblfetch w d)} {i : Inputs w d} {pc : BitVec (w + 2)}

/-- The word the CPU waits for. -/
def awaited (x : Bench (dblfetch w d)) (pc : BitVec (w + 2)) : BitVec w := word (after pc x.taken.length)

/-- On the bus for `n` further words behind those that are kept. -/
structure Running (x : Bench (dblfetch w d)) (base : BitVec w) : Prop where
  valid_cycle : x.core.invalidBusCycle = false
  inflight : x.core.inflight = BitVec.ofNat 2 x.waiting.length
  waiting : x.waiting = addresses (base + BitVec.ofNat w x.core.kept.length) x.waiting.length
  addr : x.core.addr = base + BitVec.ofNat w (x.core.kept.length + x.waiting.length)
  readable : none ∉ x.core.kept
  room : x.core.kept.length + x.waiting.length + x.core.stb.toNat ≤ 2
  full : x.core.stb = false → x.waiting = [] → x.core.kept.length = 2

/-- Off the bus: about to ask again, or with words that the CPU has to take first. -/
structure Idle (x : Bench (dblfetch w d)) (base : BitVec w) : Prop where
  stb : x.core.stb = false
  invalid : x.core.invalidBusCycle = true ↔ x.core.kept = []
  addr : none ∉ x.core.kept → x.core.addr = base + BitVec.ofNat w x.core.kept.length

/-- The words from the awaited one on are kept, requested, or about to be requested, in this order. -/
structure Busy (mem : Memory w d) (x : Bench (dblfetch w d)) (pc : BitVec (w + 2)) : Prop where
  serving : x.Serving mem pc
  cache : x.core.cacheValid = true → x.core.valid = true
  kept : x.core.kept = (addresses (awaited x pc) x.core.kept.length).map mem
  running : x.core.cyc = true → Running x (awaited x pc)
  idle : x.core.cyc = false → Idle x (awaited x pc)

theorem kept_nil {s : Dblfetch w d} : s.kept = [] ↔ s.valid = false := by
  cases valid : s.valid <;> simp [Dblfetch.kept, valid]

theorem start (x : Bench (dblfetch w d)) (i : Inputs w d) (reset : i.cpu.reset = false)
    (newPc : i.cpu.newPc = true) : Busy mem (x.step mem i) i.cpu.pc := by
  have none : (x.step mem i).taken = [] := by simp [step, newPc]
  have dropped : (x.step mem i).core.valid = false := by simp [step, clock, newPc]
  have empty : (x.step mem i).core.kept = [] := kept_nil.mpr dropped
  have base : awaited (x.step mem i) i.cpu.pc = word i.cpu.pc := by simp [awaited, none, after]
  have addr : (x.step mem i).core.addr = word i.cpu.pc := by simp [step, clock, newPc]
  constructor
  case serving =>
    refine ⟨by rw [none]; trivial, by simp [step, clock, newPc], by rw [none]; simp [step, clock, newPc, after], ?_⟩
    exact fun valid => absurd (dropped.symm.trans valid) Bool.false_ne_true
  case cache => simp [step, clock, newPc]
  case kept => simp [empty]
  case running =>
    intro cyc
    have idle : x.core.cyc = false := by
      by_contra running
      simp only [step, clock, cycle, releases, newPc] at cyc
      split_ifs at cyc <;> simp_all
    have waiting : (x.step mem i).waiting = [] := by simp [step, outstanding_idle (u := dblfetch w d) idle i]
    have stb : (x.step mem i).core.stb = true := by simp [step, clock, cycle, idle, newPc, reset]
    constructor
    case valid_cycle => simp [step, clock, idle]
    case inflight =>
      rw [waiting]
      simp [step, clock, idle]
    case waiting => simp [waiting]
    case addr => simp [base, empty, waiting, addr]
    case readable => simp [empty]
    case room => simp [empty, waiting, stb]
    case full => simp [stb]
  case idle =>
    intro off
    have on : x.core.cyc = true := by
      by_contra idle
      simp [step, clock, cycle, newPc, idle, reset] at off
    constructor
    case stb =>
      simp only [step, clock, cycle, releases, newPc, on]
      split_ifs <;> simp_all
    case invalid =>
      have again : (x.step mem i).core.invalidBusCycle = true := by simp [step, clock, newPc, on]
      simp only [empty, again]
    case addr => simp [base, empty, addr]

theorem taken_length (quiet : i.cpu.quiet = true) :
    (x.step mem i).taken.length = x.taken.length + x.core.takes i.cpu := by
  rcases taken_cases mem x quiet with ⟨taken, more⟩ | ⟨taken, same⟩
  · change (x.core.valid && i.cpu.ready) = true at taken
    simp [more, takes, taken]
  · change (x.core.valid && i.cpu.ready) = false at taken
    simp [same, takes, taken]

theorem after_takes (s : Dblfetch w d) (c : Cpu w) (pc : BitVec (w + 2)) (n : Nat) :
    after pc (n + s.takes c) = if s.valid && c.ready then next (after pc n) else after pc n := by
  unfold takes
  split_ifs <;> rfl

theorem awaited_step (quiet : i.cpu.quiet = true) (pc : BitVec (w + 2)) :
    awaited (x.step mem i) pc = awaited x pc + BitVec.ofNat w (x.core.takes i.cpu) := by
  rw [awaited, taken_length quiet, after_takes, awaited, takes]
  split_ifs <;> simp

namespace Busy

theorem address_step (busy : Busy mem x pc) (quiet : i.cpu.quiet = true) :
    (x.step mem i).core.pc = after pc (x.step mem i).taken.length := by
  have address : x.core.pc = after pc x.taken.length := busy.serving.address
  rw [taken_length quiet, after_takes, ← address]
  simp [step, clock, (quiet_iff.mp quiet).2.1, next]

/-- The word that is offered behind a clock has been read, or could not be read. -/
theorem offers (busy : Busy mem x pc) (quiet : i.cpu.quiet = true)
    (kept : (x.step mem i).core.kept =
      (addresses (awaited (x.step mem i) pc) (x.step mem i).core.kept.length).map mem) :
    (x.step mem i).Serving mem pc ∨ (x.step mem i).Failing mem pc := by
  have follows : Follows mem pc (x.step mem i).taken := (taken_step quiet).symm ▸ busy.serving.handed i
  have address := busy.address_step quiet
  cases valid : (x.step mem i).core.valid with
  | false =>
    have legal : (x.step mem i).core.illegal = false := by
      by_contra illegal
      have here := illegal_clock quiet busy.serving.legal busy.cache (Bool.eq_true_of_not_eq_false illegal)
      exact absurd (valid.symm.trans here) Bool.false_ne_true
    exact .inl ⟨follows, legal, address, fun here => absurd (valid.symm.trans here) Bool.false_ne_true⟩
  | true =>
    have head : (if (x.step mem i).core.illegal then none else some (x.step mem i).core.insn) =
        mem (awaited (x.step mem i) pc) := by
      have first := congrArg List.head? kept
      simp only [Dblfetch.kept, valid, if_true, List.head?_cons, List.length_cons, addresses_succ, List.map_cons,
        Option.some.injEq] at first
      exact first
    cases illegal : (x.step mem i).core.illegal with
    | true =>
      rw [illegal, if_pos rfl] at head
      exact .inr ⟨follows, head.symm, valid, illegal, address⟩
    | false =>
      rw [illegal, if_neg Bool.false_ne_true] at head
      exact .inl ⟨follows, illegal, address, fun _ => head.symm⟩

end Busy

/-- How many requests are accepted at a clock. -/
def asks (x : Bench (dblfetch w d)) (i : Inputs w d) : Nat := (x.core.cyc && x.core.stb && !i.stall).toNat

/-- How many are answered. -/
def answers (x : Bench (dblfetch w d)) (i : Inputs w d) : Nat :=
  if x.core.cyc then answered (x.waiting.length + asks x i) i.answer else 0

namespace Running

variable {base : BitVec w}

theorem outstanding (running : Running x base) (cyc : x.core.cyc = true) (i : Inputs w d) :
    x.outstanding i = addresses (base + BitVec.ofNat w x.core.kept.length) (x.waiting.length + asks x i) := by
  rw [addresses_append, ← running.waiting, Bench.outstanding,
    if_pos (show ((dblfetch w d).pins x.core).cyc = true from cyc), BitVec.add_assoc,
    ← BitVec.ofNat_add, ← running.addr]
  cases stb : x.core.stb <;> cases stall : i.stall <;>
    simp [accepted, asks, pins_cyc, pins_stb, pins_addr, cyc, stb, stall]

theorem waiting_step (running : Running x base) (cyc : x.core.cyc = true) (i : Inputs w d) :
    (x.step mem i).waiting =
      addresses (base + BitVec.ofNat w (x.core.kept.length + answers x i))
        (x.waiting.length + asks x i - answers x i) := by
  change rest (x.outstanding i) i.answer = _
  rw [running.outstanding cyc, rest_addresses, answers, if_pos cyc, BitVec.ofNat_add, BitVec.add_assoc]

theorem reply (running : Running x base) (cyc : x.core.cyc = true) (i : Inputs w d) :
    (x.reply i).toList = addresses (base + BitVec.ofNat w x.core.kept.length) (answers x i) := by
  rw [Bench.reply, running.outstanding cyc, reply_addresses, answers, if_pos cyc]

end Running

theorem arrives_bus (x : Bench (dblfetch w d)) (i : Inputs w d) :
    arrives (x.bus mem i) = (x.reply i).toList.map mem := by
  cases reply : x.reply i with
  | none =>
    rw [bus_none reply]
    rfl
  | some a =>
    rw [bus_some mem reply]
    cases read : mem a <;> simp [arrives, read]

theorem bus_cyc (answered : ((x.bus mem i).ack || (x.bus mem i).err) = true) : x.core.cyc = true := by
  by_contra idle
  have off : ((dblfetch w d).pins x.core).cyc = false := by simpa using idle
  have none : x.reply i = none := by rw [Bench.reply, outstanding_idle off, reply_nil]
  rw [bus_none none] at answered
  exact absurd answered Bool.false_ne_true

theorem bus_one : ((x.bus mem i).ack && (x.bus mem i).err) = false := by
  cases reply : x.reply i with
  | none => rw [bus_none reply]; rfl
  | some a => rw [bus_some mem reply]; cases mem a <;> rfl

/-- An answer is an acknowledgement or an error. -/
theorem answers_bus (busy : Busy mem x pc) : ((x.bus mem i).ack || (x.bus mem i).err).toNat = answers x i := by
  have length : (arrives (x.bus mem i)).length = ((x.bus mem i).ack || (x.bus mem i).err).toNat := by
    unfold arrives
    split_ifs <;> simp_all
  rw [← length, arrives_bus, List.length_map]
  cases cyc : x.core.cyc with
  | false => rw [Bench.reply, outstanding_idle (u := dblfetch w d) cyc, reply_nil, answers, cyc]; rfl
  | true => rw [(busy.running cyc).reply cyc, addresses_length]

theorem answers_le (x : Bench (dblfetch w d)) (i : Inputs w d) :
    answers x i ≤ x.waiting.length + asks x i ∧ answers x i ≤ 1 := by
  unfold answers
  split_ifs
  · exact answered_le _ _
  · omega

namespace Busy

/-- The words kept behind a clock are those not taken and the one that has arrived. -/
theorem kept_split (busy : Busy mem x pc) (quiet : i.cpu.quiet = true) :
    (x.step mem i).core.kept = x.core.kept.drop (x.core.takes i.cpu) ++ arrives (x.bus mem i) := by
  refine kept_clock quiet busy.serving.legal busy.cache bus_cyc bus_one ?_
  have arrived : (arrives (x.bus mem i)).length = answers x i := by
    rw [← answers_bus busy]
    unfold arrives
    split_ifs <;> simp_all
  have most := answers_le x i
  rw [List.length_drop, arrived]
  cases cyc : x.core.cyc with
  | false =>
    have short : x.core.kept.length ≤ 2 := by
      simp only [Dblfetch.kept]
      split_ifs <;> simp
    have none : answers x i = 0 := by simp [answers, cyc]
    omega
  | true =>
    have room := (busy.running cyc).room
    have asked : asks x i ≤ x.core.stb.toNat := by
      unfold asks
      cases x.core.stb <;> cases i.stall <;> simp [cyc]
    omega

theorem takes_le (s : Dblfetch w d) (c : Cpu w) : s.takes c ≤ s.kept.length ∧ s.takes c ≤ 1 := by
  cases valid : s.valid <;> cases ready : c.ready <;> simp [takes, Dblfetch.kept, valid, ready]

theorem kept_step (busy : Busy mem x pc) (quiet : i.cpu.quiet = true) :
    (x.step mem i).core.kept = (addresses (awaited (x.step mem i) pc)
      (x.core.kept.length - x.core.takes i.cpu + answers x i)).map mem := by
  have few := (takes_le x.core i.cpu).1
  have arrived : arrives (x.bus mem i) =
      (addresses (awaited x pc + BitVec.ofNat w x.core.kept.length) (answers x i)).map mem := by
    cases cyc : x.core.cyc with
    | true => rw [arrives_bus, (busy.running cyc).reply cyc]
    | false =>
      have none : x.reply i = none := by simp [Bench.reply, outstanding_idle (u := dblfetch w d) cyc i]
      rw [arrives_bus, none, answers, cyc]
      rfl
  have left : x.core.kept.drop (x.core.takes i.cpu) =
      (addresses (awaited (x.step mem i) pc) (x.core.kept.length - x.core.takes i.cpu)).map mem := by
    rw [awaited_step quiet, ← addresses_drop, List.map_drop, ← busy.kept]
  rw [busy.kept_split quiet, left, arrived, addresses_append, List.map_append, awaited_step quiet, BitVec.add_assoc,
    ← BitVec.ofNat_add, Nat.add_sub_cancel' few]

theorem kept_length (busy : Busy mem x pc) (quiet : i.cpu.quiet = true) :
    (x.step mem i).core.kept.length = x.core.kept.length - x.core.takes i.cpu + answers x i := by
  rw [busy.kept_step quiet, List.length_map, addresses_length]

/-- The numbers of a clock on the bus: what happens to the strobe leaves room for two words in all. -/
theorem counts (busy : Busy mem x pc) (quiet : i.cpu.quiet = true) (cyc : x.core.cyc = true)
    (fine : (x.bus mem i).err = false) (on : (x.step mem i).core.cyc = true) :
    x.core.kept.length - x.core.takes i.cpu + answers x i + (x.waiting.length + asks x i - answers x i) +
        (x.step mem i).core.stb.toNat ≤ 2 ∧
      ((x.step mem i).core.stb = false → x.waiting.length + asks x i - answers x i = 0 →
        x.core.kept.length - x.core.takes i.cpu + answers x i = 2) ∧
      (x.step mem i).core.inflight = BitVec.ofNat 2 (x.waiting.length + asks x i - answers x i) := by
  have core : (x.step mem i).core = x.core.clock i.cpu (x.bus mem i) := rfl
  obtain ⟨invalid, inflight, waiting, addr, readable, room, full⟩ := busy.running cyc
  obtain ⟨released, -, stb, -, -⟩ := clock_running (b := x.bus mem i) quiet cyc fine
  have few : x.waiting.length ≤ 2 := by omega
  have number : x.core.inflight.toNat = x.waiting.length := by
    rw [inflight, BitVec.toNat_ofNat]
    omega
  have zero : (x.core.inflight == 0) = decide (x.waiting.length = 0) := by
    rw [Bool.eq_iff_iff, beq_iff_eq, decide_eq_true_eq, ← number]
    exact BitVec.toNat_eq
  have ack : (x.bus mem i).ack.toNat = answers x i := by
    rw [← answers_bus busy, fine, Bool.or_false]
  have most := answers_le x i
  have nonempty : x.core.valid = true ↔ 0 < x.core.kept.length := by
    rw [List.length_pos_iff, ne_eq, kept_nil, Bool.not_eq_false]
  have stall : (x.bus mem i).stall = i.stall := rfl
  have inflight' : (x.step mem i).core.inflight =
      if !(x.core.stb && !i.stall) && (x.bus mem i).ack then x.core.inflight - 1
      else if x.core.stb && !i.stall && !(x.bus mem i).ack then x.core.inflight + 1
      else x.core.inflight := by
    simp [core, clock, cyc, stall]
  rw [← core] at released stb
  have stb := stb on
  rw [on, zero, number] at released
  simp only [lastStb, stall, bne, zero] at stb
  simp only [asks, takes, cyc] at most ⊢
  rw [stb, inflight', inflight, ← ack]
  rw [← ack] at most
  simp only [← List.length_eq_zero_iff] at full
  generalize x.core.kept.length = k at *
  generalize x.waiting.length = m at *
  -- at most two words are on their way
  obtain rfl | rfl | rfl : m = 0 ∨ m = 1 ∨ m = 2 := by omega
  all_goals
    cases now : x.core.stb <;> cases stalled : i.stall <;> cases acked : (x.bus mem i).ack <;>
      cases valid : x.core.valid <;> cases i.cpu.ready <;>
      simp [now, stalled, acked, valid] at released room full most nonempty ⊢ <;> try omega

/-- The cycle goes on. -/
theorem running_on (busy : Busy mem x pc) (quiet : i.cpu.quiet = true) (cyc : x.core.cyc = true)
    (fine : (x.bus mem i).err = false) (on : (x.step mem i).core.cyc = true) :
    Running (x.step mem i) (awaited (x.step mem i) pc) := by
  have core : (x.step mem i).core = x.core.clock i.cpu (x.bus mem i) := rfl
  have running := busy.running cyc
  obtain ⟨room, full, inflight⟩ := busy.counts quiet cyc fine on
  obtain ⟨-, -, -, valid, addr⟩ := clock_running (b := x.bus mem i) quiet cyc fine
  rw [← core] at valid addr
  have few := takes_le x.core i.cpu
  have most := answers_le x i
  have kept := busy.kept_length (i := i) quiet
  have queue : (x.step mem i).waiting = _ := running.waiting_step cyc i
  have waiting : (x.step mem i).waiting.length = x.waiting.length + asks x i - answers x i := by
    rw [queue, addresses_length]
  have place : awaited x pc + BitVec.ofNat w (x.core.kept.length + answers x i) =
      awaited (x.step mem i) pc + BitVec.ofNat w (x.step mem i).core.kept.length := by
    rw [awaited_step quiet, kept, BitVec.add_assoc, ← BitVec.ofNat_add]
    congr 2
    omega
  have asked : (x.core.stb && !(x.bus mem i).stall).toNat = asks x i := by
    rw [asks, cyc, Bool.true_and]
    rfl
  constructor
  case valid_cycle => exact valid.trans running.valid_cycle
  case inflight => rw [waiting, inflight]
  case waiting => rw [waiting, queue, place]
  case addr =>
    rw [addr, asked, running.addr, waiting, kept, awaited_step quiet, BitVec.add_assoc, BitVec.add_assoc,
      ← BitVec.ofNat_add, ← BitVec.ofNat_add]
    congr 2
    omega
  case readable =>
    rw [busy.kept_split quiet]
    intro member
    rcases List.mem_append.mp member with old | new
    · exact running.readable (List.mem_of_mem_drop old)
    · simp [arrives, fine] at new
  case room => rw [waiting, kept]; exact room
  case full =>
    intro stb empty
    rw [kept]
    exact full stb (by rw [← waiting, empty]; rfl)

/-- The cycle ends. -/
theorem running_off (busy : Busy mem x pc) (quiet : i.cpu.quiet = true) (cyc : x.core.cyc = true)
    (off : (x.step mem i).core.cyc = false) : Idle (x.step mem i) (awaited (x.step mem i) pc) := by
  have core : (x.step mem i).core = x.core.clock i.cpu (x.bus mem i) := rfl
  have running := busy.running cyc
  have few := takes_le x.core i.cpu
  have most := answers_le x i
  have answer := answers_bus (i := i) busy
  have kept := busy.kept_length (i := i) quiet
  have split := busy.kept_split (i := i) quiet
  cases err : (x.bus mem i).err with
  | true =>
    obtain ⟨-, stb, valid⟩ := clock_failed (b := x.bus mem i) quiet cyc err
    rw [← core] at stb valid
    have failed : none ∈ (x.step mem i).core.kept := by
      rw [split]
      exact List.mem_append_right _ (by simp [arrives, err])
    refine ⟨stb, ?_, fun readable => absurd failed readable⟩
    rw [valid, running.valid_cycle]
    simp [List.ne_nil_of_mem failed]
  | false =>
    obtain ⟨released, stb, -, valid, addr⟩ := clock_running (b := x.bus mem i) quiet cyc err
    rw [← core] at released stb valid addr
    rw [off, eq_comm, Bool.not_eq_false', Bool.and_eq_true, Bool.not_eq_true'] at released
    obtain ⟨still, last⟩ := released
    have asked : asks x i = 0 := by simp [asks, still]
    have room := running.room
    have number : x.core.inflight.toNat = x.waiting.length := by
      rw [running.inflight, BitVec.toNat_ofNat]
      omega
    -- everything asked for has been answered
    have all : answers x i = x.waiting.length := by
      rw [err, Bool.or_false] at answer
      rw [Bool.or_eq_true, Bool.and_eq_true, beq_iff_eq, ← BitVec.toNat_inj, number, decide_eq_true_eq] at last
      rcases last with ⟨ack, one⟩ | none
      · rw [ack] at answer
        simp only [Bool.toNat_true] at answer
        omega
      · change x.waiting.length = 0 at none
        omega
    have some_ : 0 < x.core.kept.length - x.core.takes i.cpu + answers x i := by
      rcases Nat.eq_zero_or_pos x.waiting.length with empty | more
      · have full := running.full still (List.length_eq_zero_iff.mp empty)
        omega
      · omega
    refine ⟨stb off, ?_, fun _ => ?_⟩
    · rw [valid, running.valid_cycle, ← List.length_eq_zero_iff, kept]
      simp only [Bool.false_eq_true, false_iff]
      omega
    · have same : (x.step mem i).core.addr = x.core.addr := by
        rw [addr, still]
        simp
      rw [same, running.addr, kept, awaited_step quiet, all, BitVec.add_assoc, ← BitVec.ofNat_add]
      congr 2
      omega

theorem readable_of_legal {s : Dblfetch w d} (legal : s.illegal = false) (few : s.kept.length ≤ 1) : none ∉ s.kept := by
  unfold Dblfetch.kept at few ⊢
  split_ifs at few ⊢ <;> simp_all

/-- A new cycle, or none. -/
theorem idle_step (busy : Busy mem x pc) (quiet : i.cpu.quiet = true) (idle : x.core.cyc = false)
    (serving : (x.step mem i).Serving mem pc) :
    ((x.step mem i).core.cyc = true → Running (x.step mem i) (awaited (x.step mem i) pc)) ∧
      ((x.step mem i).core.cyc = false → Idle (x.step mem i) (awaited (x.step mem i) pc)) := by
  have core : (x.step mem i).core = x.core.clock i.cpu (x.bus mem i) := rfl
  obtain ⟨still, invalid, place⟩ := busy.idle idle
  obtain ⟨cyc, stb, valid, inflight, addr⟩ := clock_idle (b := x.bus mem i) quiet busy.serving.legal idle still
  rw [← core] at cyc stb valid inflight addr
  have none_ : answers x i = 0 := by simp [answers, idle]
  have waiting : (x.step mem i).waiting = [] := by simp [step, outstanding_idle (u := dblfetch w d) idle i]
  have kept := busy.kept_length (i := i) quiet
  rw [none_, Nat.add_zero] at kept
  have left : (x.step mem i).core.kept = x.core.kept.drop (x.core.takes i.cpu) := by
    have silent : arrives (x.bus mem i) = [] := by
      rw [arrives_bus, Bench.reply, outstanding_idle (u := dblfetch w d) idle i, reply_nil]
      rfl
    rw [busy.kept_split quiet, silent, List.append_nil]
  have few := takes_le x.core i.cpu
  have nonempty : x.core.valid = true ↔ 0 < x.core.kept.length := by
    rw [List.length_pos_iff, ne_eq, kept_nil, Bool.not_eq_false]
  have short : x.core.kept.length ≤ 2 := by
    simp only [Dblfetch.kept]
    split_ifs <;> simp
  constructor
  · -- A cycle begins when nothing is kept or a word is taken, so at most one word is left.
    intro on
    rw [on, eq_comm, Bool.or_eq_true, invalid, ← List.length_eq_zero_iff] at cyc
    have one : (x.step mem i).core.kept.length ≤ 1 := by
      rcases cyc with empty | taken
      · omega
      · simp only [takes, taken, if_true] at kept
        omega
    have readable' := readable_of_legal serving.legal one
    have readable : none ∉ x.core.kept := by
      rcases cyc with empty | taken
      · rw [List.length_eq_zero_iff.mp empty]
        exact List.not_mem_nil
      · have head : x.core.kept = some x.core.insn :: x.core.kept.drop 1 := by
          have legal : x.core.illegal = false := busy.serving.legal
          simp [Dblfetch.kept, (Bool.and_eq_true_iff.mp taken).1, legal]
        rw [left, takes, if_pos taken] at readable'
        rw [head, List.mem_cons, not_or]
        exact ⟨(Option.some_ne_none _).symm, readable'⟩
    constructor
    case valid_cycle => exact valid
    case inflight => rw [waiting, inflight]; rfl
    case waiting => rw [waiting]; rfl
    case addr =>
      rw [waiting, addr, place readable, kept, awaited_step quiet, BitVec.add_assoc, ← BitVec.ofNat_add,
        List.length_nil, Nat.add_zero, Nat.add_sub_cancel' few.1]
    case readable => exact readable'
    case room =>
      rw [waiting, stb, on]
      simp only [List.length_nil, Bool.toNat_true]
      omega
    case full => exact fun none => absurd (none.symm.trans (stb.trans on)) Bool.false_ne_true
  · -- Without a new cycle nothing has been taken either.
    intro off
    rw [off, eq_comm, Bool.or_eq_false_iff] at cyc
    have all : x.core.takes i.cpu = 0 := by simp [takes, cyc.2]
    rw [all, Nat.sub_zero] at kept
    refine ⟨stb.trans off, ?_, fun readable => ?_⟩
    · have some_ : x.core.kept ≠ [] := fun empty => Bool.false_ne_true (cyc.1.symm.trans (invalid.mpr empty))
      rw [valid, ← List.length_eq_zero_iff, kept, List.length_eq_zero_iff]
      simp [some_]
    · have same : (x.step mem i).core.kept = x.core.kept := by rw [left, all, List.drop_zero]
      rw [addr, place (same ▸ readable), kept, awaited_step quiet, all]
      simp

theorem goes_on (busy : Busy mem x pc) (quiet : i.cpu.quiet = true) :
    Busy mem (x.step mem i) pc ∨ (x.step mem i).Failing mem pc := by
  have kept : (x.step mem i).core.kept =
      (addresses (awaited (x.step mem i) pc) (x.step mem i).core.kept.length).map mem := by
    rw [busy.kept_length quiet]
    exact busy.kept_step quiet
  have cache := cache_clock (c := i.cpu) (b := x.bus mem i) busy.cache
  refine (busy.offers quiet kept).imp_left fun serving => ?_
  cases cyc : x.core.cyc with
  | false =>
    obtain ⟨on, off⟩ := busy.idle_step quiet cyc serving
    exact ⟨serving, cache, kept, on, off⟩
  | true =>
    refine ⟨serving, cache, kept, fun on => ?_, busy.running_off quiet cyc⟩
    cases err : (x.bus mem i).err with
    | false => exact busy.running_on quiet cyc err on
    | true => exact absurd ((clock_failed quiet cyc err).1.symm.trans on) Bool.false_ne_true

/-- A prompt slave brings the next word nearer. -/
theorem nears (busy : Busy mem x pc) (quiet : i.cpu.quiet = true) (_ : i.cpu.ready = true)
    (none : x.core.valid = false) : (x.step mem i).distance + (if x.prompt i then 1 else 0) ≤ x.distance := by
  have core : (x.step mem i).core = x.core.clock i.cpu (x.bus mem i) := rfl
  have empty : x.core.kept = [] := kept_nil.mpr none
  have arrived : answers x i ≠ 0 → (x.step mem i).distance = 0 := by
    intro some
    have kept := busy.kept_length (i := i) quiet
    have valid : (x.step mem i).core.valid = true := by
      by_contra gone
      rw [kept_nil.mpr (by simpa using gone), List.length_nil] at kept
      omega
    simp [distance, valid]
  cases cyc : x.core.cyc with
  | false =>
    obtain ⟨stb, invalid, -⟩ := busy.idle cyc
    have on := (clock_idle (b := x.bus mem i) quiet busy.serving.legal cyc stb).1
    rw [← core, invalid.mpr empty, Bool.true_or] at on
    have far : x.distance = 3 := by simp [distance, none, cyc]
    have near : (x.step mem i).distance ≤ 2 := by
      simp only [distance, pins_cyc, on]
      split_ifs <;> simp_all
    rw [far]
    split_ifs <;> omega
  | true =>
    have running := busy.running cyc
    have far : x.distance = if x.waiting.length = 0 then 2 else 1 := by
      simp [distance, none, cyc, List.isEmpty_iff]
    rcases Nat.eq_zero_or_pos (answers x i) with silent | some
    · have bus : ((x.bus mem i).ack || (x.bus mem i).err) = false := by
        have answer := answers_bus (i := i) busy
        rw [silent] at answer
        exact Bool.toNat_eq_zero.mp answer
      obtain ⟨ack, err⟩ := Bool.or_eq_false_iff.mp bus
      have asked : x.waiting.length = 0 → x.core.stb = true := by
        intro nothing
        by_contra still
        have full := running.full (by simpa using still) (List.length_eq_zero_iff.mp nothing)
        simp [empty] at full
      have on : (x.step mem i).core.cyc = true := by
        rw [core, (clock_running quiet cyc err).1, ack, running.inflight]
        rcases Nat.eq_zero_or_pos x.waiting.length with nothing | more
        · simp [asked nothing]
        · have few := running.room
          have number : BitVec.ofNat 2 x.waiting.length ≠ 0#2 := by
            rw [ne_eq, ← BitVec.toNat_inj, BitVec.toNat_ofNat, BitVec.toNat_ofNat]
            omega
          simp [number]
      have queue : (x.step mem i).waiting = _ := running.waiting_step cyc i
      have near : (x.step mem i).distance ≤ if x.waiting.length + asks x i = 0 then 2 else 1 := by
        have length : (x.step mem i).waiting.length = x.waiting.length + asks x i := by
          rw [queue, silent, addresses_length, Nat.sub_zero]
        simp only [distance, pins_cyc, on, List.isEmpty_iff, ← List.length_eq_zero_iff, length, Bool.not_true,
          Bool.false_eq_true, if_false]
        split_ifs <;> simp
      -- a prompt slave accepts the first request, or answers
      have slow : x.prompt i = true → x.waiting.length = 0 ∧ asks x i = 1 := by
        intro prompt
        simp only [Bench.prompt, pins_stb, Bool.and_eq_true, Bool.or_eq_true, Bool.not_eq_true', List.isEmpty_iff,
          ← List.length_eq_zero_iff] at prompt
        obtain ⟨moves, first | answer⟩ := prompt
        · have stall : i.stall = false := moves.resolve_left (by simp [asked first])
          exact ⟨first, by simp [asks, cyc, asked first, stall]⟩
        · simp only [answers, cyc, answered, answer, if_true] at silent
          have first : x.waiting.length = 0 := by omega
          have stall : i.stall = false := moves.resolve_left (by simp [asked first])
          exact ⟨first, by simp [asks, cyc, asked first, stall]⟩
      rw [far]
      by_cases prompt : x.prompt i = true
      · obtain ⟨first, one⟩ := slow prompt
        rw [if_pos prompt, if_pos first]
        rw [first, one] at near
        exact Nat.add_le_add_right near 1
      · rw [if_neg prompt]
        refine near.trans ?_
        split_ifs <;> omega
    · rw [arrived (by omega), far]
      split_ifs <;> omega

end Busy

theorem delivery (mem : Memory w d) : Delivers (dblfetch w d) mem id (fun _ => True) (Busy mem) where
  sound_step _ _ _ := trivial
  start := start
  serving _ _ busy := busy.serving
  goes_on _ _ _ busy := busy.goes_on
  sticky _ _ _ illegal quiet := sticky quiet illegal
  waits _ _ _ valid _ quiet wait := waits quiet wait valid
  nears _ _ _ busy := busy.nears

end Dblfetch

end IcoZip.Fetch
