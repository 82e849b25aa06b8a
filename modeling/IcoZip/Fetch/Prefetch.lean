import IcoZip.Fetch.Stream

/-! `prefetch`: one bus cycle for every instruction. -/

set_option autoImplicit false

namespace IcoZip.Fetch

structure Prefetch (w d : Nat) where
  cyc : Bool
  stb : Bool
  invalid : Bool
  addr : BitVec w
  insn : BitVec d
  valid : Bool
  illegal : Bool
  pc : BitVec (w + 2)
  deriving DecidableEq, Repr

variable {w d : Nat}

namespace Prefetch

/-- The `initial` values. -/
def powerUp (free : Prefetch w d) : Prefetch w d :=
  { free with
    cyc := false
    stb := false
    invalid := false
    addr := 0
    valid := false
    illegal := false
    pc := 0 }

/-- `o_wb_cyc` and `o_wb_stb` -/
def cycle (s : Prefetch w d) (c : Cpu w) (b : Bus d) : Bool × Bool :=
  if c.reset || c.clearCache || s.cyc && (b.ack || b.err) then (false, false)
  else if !s.cyc && (c.ready && !s.illegal || s.invalid || c.newPc) then (true, true)
  else if s.cyc then
    if c.newPc then (false, false) else (s.cyc, if b.stall then s.stb else false)
  else (s.cyc, s.stb)

def clock (s : Prefetch w d) (c : Cpu w) (b : Bus d) : Prefetch w d where
  cyc := (s.cycle c b).1
  stb := (s.cycle c b).2
  invalid := if c.reset || !s.cyc then false else if c.newPc then true else s.invalid
  addr :=
    if c.newPc then word c.pc
    else if s.valid && c.ready && !s.illegal then s.addr + 1
    else s.addr
  insn := if s.cyc && b.ack then b.data else s.insn
  valid :=
    if c.reset || c.newPc || c.clearCache then false
    else if s.cyc && (b.ack || b.err) then true
    else if c.ready then false
    else s.valid
  illegal :=
    if c.reset || c.newPc || c.clearCache then false
    else if s.cyc && (b.ack || b.err) then b.err
    else s.illegal
  pc :=
    if c.newPc then c.pc
    else if s.valid && !s.illegal && c.ready then word (s.pc + 4) ++ 0#2
    else s.pc

/-- With `OPT_ALIGNED` the instruction's address is that of its word. -/
def shown (aligned : Bool) (pc : BitVec (w + 2)) : BitVec (w + 2) := if aligned then word pc ++ 0#2 else pc

def pins (aligned : Bool) (s : Prefetch w d) : Pins w d where
  valid := s.valid
  illegal := s.illegal
  insn := s.insn
  pc := if aligned then s.addr ++ 0#2 else s.pc
  cyc := s.cyc
  stb := s.stb
  addr := s.addr

end Prefetch

abbrev prefetch (w d : Nat) (aligned : Bool) : Fetcher w d := ⟨Prefetch w d, Prefetch.pins aligned, Prefetch.clock⟩

theorem word_toNat (pc : BitVec (w + 2)) : (word pc).toNat = pc.toNat / 4 := by
  have size : (2 : Nat) ^ (w + 2) = 4 * 2 ^ w := by rw [Nat.pow_add, Nat.mul_comm]
  have bound := pc.isLt
  rw [word, BitVec.extractLsb'_toNat, Nat.shiftRight_eq_div_pow, Nat.mod_eq_of_lt]
  exact Nat.div_lt_of_lt_mul (size ▸ bound)

theorem word_four (pc : BitVec (w + 2)) : word (pc + 4#(w + 2)) = word pc + 1#w := by
  apply BitVec.eq_of_toNat_eq
  have size : (2 : Nat) ^ (w + 2) = 4 * 2 ^ w := by rw [Nat.pow_add, Nat.mul_comm]
  have four : (pc + 4#(w + 2)).toNat = (pc.toNat + 4) % (4 * 2 ^ w) := by
    rw [BitVec.toNat_add, ← size]
    exact Nat.add_mod_mod _ _ _
  have one : (word pc + 1#w).toNat = ((word pc).toNat + 1) % 2 ^ w := by
    rw [BitVec.toNat_add]
    exact Nat.add_mod_mod _ _ _
  rw [one, word_toNat, word_toNat, four, Nat.mod_mul_right_div_self]
  congr 1
  omega

namespace Prefetch

variable {aligned : Bool}

section
variable (s : Prefetch w d)

@[simp] theorem pins_valid : (pins aligned s).valid = s.valid := rfl

@[simp] theorem pins_illegal : (pins aligned s).illegal = s.illegal := rfl

@[simp] theorem pins_insn : (pins aligned s).insn = s.insn := rfl

@[simp] theorem pins_cyc : (pins aligned s).cyc = s.cyc := rfl

@[simp] theorem pins_stb : (pins aligned s).stb = s.stb := rfl

@[simp] theorem pins_addr : (pins aligned s).addr = s.addr := rfl

end

section Clock
variable {s : Prefetch w d} {c : Cpu w} {b : Bus d}

variable (aligned) in
/-- The address goes on when an instruction is taken. -/
theorem clock_pc (quiet : c.quiet = true) (legal : s.illegal = false) :
    (pins aligned (s.clock c b)).pc =
      if s.valid && c.ready then
        if aligned then (s.addr + 1) ++ 0#2 else next s.pc
      else (pins aligned s).pc := by
  obtain ⟨-, newPc, -⟩ := Bench.quiet_iff.mp quiet
  cases aligned <;> cases valid : s.valid <;> cases ready : c.ready <;>
    simp [pins, clock, next, word_four, newPc, legal, valid, ready]

theorem clock_addr (quiet : c.quiet = true) (legal : s.illegal = false) :
    (s.clock c b).addr = if s.valid && c.ready then s.addr + 1 else s.addr := by
  obtain ⟨-, newPc, -⟩ := Bench.quiet_iff.mp quiet
  simp [clock, newPc, legal]

/-- Off the bus; a request is the next thing, unless an instruction is kept. -/
theorem clock_idle (quiet : c.quiet = true) (idle : s.cyc = false) :
    (s.clock c b).cyc = (c.ready && !s.illegal || s.invalid) ∧
    ((s.clock c b).cyc = true → (s.clock c b).stb = true) ∧ (s.clock c b).invalid = false ∧
    (s.clock c b).valid = (s.valid && !c.ready) ∧ (s.clock c b).illegal = s.illegal ∧
    (s.clock c b).insn = s.insn := by
  obtain ⟨reset, newPc, clear⟩ := Bench.quiet_iff.mp quiet
  cases starts : c.ready && !s.illegal || s.invalid <;> cases ready : c.ready <;>
    simp_all [clock, cycle]

/-- On the bus without an answer. -/
theorem clock_waiting (quiet : c.quiet = true) (cyc : s.cyc = true) (silent : (b.ack || b.err) = false) :
    (s.clock c b).cyc = true ∧ (s.clock c b).stb = (s.stb && b.stall) ∧ (s.clock c b).invalid = s.invalid ∧
    (s.clock c b).valid = (s.valid && !c.ready) ∧ (s.clock c b).illegal = s.illegal := by
  obtain ⟨reset, newPc, clear⟩ := Bench.quiet_iff.mp quiet
  obtain ⟨ack, err⟩ := Bool.or_eq_false_iff.mp silent
  cases ready : c.ready <;> cases stall : b.stall <;>
    simp [clock, cycle, reset, newPc, clear, cyc, ack, err, ready, stall]

theorem clock_answered (quiet : c.quiet = true) (cyc : s.cyc = true) (answer : (b.ack || b.err) = true) :
    (s.clock c b).cyc = false ∧ (s.clock c b).invalid = s.invalid ∧ (s.clock c b).valid = true ∧
    (s.clock c b).illegal = b.err ∧ (b.ack = true → (s.clock c b).insn = b.data) := by
  obtain ⟨reset, newPc, clear⟩ := Bench.quiet_iff.mp quiet
  rw [Bool.or_eq_true] at answer
  simp +contextual [clock, cycle, reset, newPc, clear, cyc, answer]

end Clock

open Bench

variable {mem : Memory w d} {x : Bench (prefetch w d aligned)} {i : Inputs w d} {pc : BitVec (w + 2)}

/-- One instruction is requested, or offered to the CPU, or soon to be requested. -/
structure Busy (mem : Memory w d) (x : Bench (prefetch w d aligned)) (pc : BitVec (w + 2)) : Prop where
  serving : x.Serving mem pc
  addr : x.core.addr = word (after pc x.taken.length)
  offered : x.core.valid = true → x.core.cyc = false ∧ x.core.invalid = false
  running : x.core.cyc = true → x.core.invalid = false ∧ x.waiting = if x.core.stb then [] else [x.core.addr]

theorem start (x : Bench (prefetch w d aligned)) (i : Inputs w d) (_ : i.cpu.reset = false)
    (newPc : i.cpu.newPc = true) : Busy mem (x.step mem i) (shown aligned i.cpu.pc) := by
  have none : (x.step mem i).taken = [] := by simp [step, newPc]
  constructor
  case serving =>
    constructor
    case follows =>
      rw [none]
      trivial
    case legal => simp [step, clock, newPc]
    case address =>
      rw [none]
      cases aligned <;> simp [step, pins, clock, newPc, shown, after]
    case read => simp [step, clock, newPc]
  case addr =>
    rw [none]
    cases aligned <;> simp [step, clock, newPc, shown, after, word_append]
  case offered => simp [step, clock, newPc]
  case running =>
    intro cyc
    have idle : x.core.cyc = false := by
      by_contra running
      simp only [step, clock, cycle, newPc] at cyc
      split_ifs at cyc <;> simp_all
    have empty : x.outstanding i = [] := outstanding_idle idle i
    have stb : (x.step mem i).core.stb = true := by
      simp only [step, clock, cycle, idle, newPc] at cyc ⊢
      split_ifs at cyc ⊢
      simp_all
    rw [stb, if_pos rfl]
    exact ⟨by simp [step, clock, idle], by simp [step, empty]⟩

namespace Busy

theorem core_pc (busy : Busy mem x pc) :
    (if aligned then (x.core.addr + 1) ++ 0#2 else next x.core.pc) = after pc (x.taken.length + 1) := by
  have address := busy.serving.address
  cases aligned with
  | true => rw [if_pos rfl, busy.addr]; rfl
  | false => exact congrArg next address

/-- The instruction's address behind a clock. -/
theorem place (busy : Busy mem x pc) (quiet : i.cpu.quiet = true) :
    (pins aligned (x.step mem i).core).pc = after pc (x.step mem i).taken.length ∧
      (x.step mem i).core.addr = word (after pc (x.step mem i).taken.length) := by
  have legal : x.core.illegal = false := busy.serving.legal
  have pc_ := clock_pc aligned (b := x.bus mem i) quiet legal
  have addr := clock_addr (b := x.bus mem i) quiet legal
  rcases taken_cases mem x quiet with ⟨taken, more⟩ | ⟨taken, same⟩
  · change (x.core.valid && i.cpu.ready) = _ at taken
    rw [taken, if_pos rfl] at pc_ addr
    rw [more, List.length_append, List.length_singleton]
    refine ⟨pc_.trans busy.core_pc, addr.trans ?_⟩
    rw [busy.addr]
    exact (word_next _).symm
  · change (x.core.valid && i.cpu.ready) = _ at taken
    rw [taken, if_neg Bool.false_ne_true] at pc_ addr
    rw [same]
    exact ⟨pc_.trans busy.serving.address, addr.trans busy.addr⟩

/-- The unit asks for its instruction only. -/
theorem outstanding (busy : Busy mem x pc) (cyc : x.core.cyc = true) (i : Inputs w d) :
    x.outstanding i = if x.core.stb && i.stall then [] else [x.core.addr] := by
  cases stb : x.core.stb <;> cases stall : i.stall <;>
    simp [Bench.outstanding, accepted, (busy.running cyc).2, pins_cyc, pins_stb, pins_addr, cyc, stb, stall]

/-- An instruction that is kept is the one that was there. -/
theorem kept (busy : Busy mem x pc) (quiet : i.cpu.quiet = true) (valid : (x.core.valid && !i.cpu.ready) = true) :
    mem (word (after pc (x.step mem i).taken.length)) = some x.core.insn := by
  obtain ⟨here, wait⟩ := Bool.and_eq_true_iff.mp valid
  have same : (x.step mem i).taken = x.taken := by
    rw [taken_step quiet, handed, hands_nothing (.inr (by simpa using wait)), List.append_nil]
  rw [same]
  exact busy.serving.read here

theorem off_bus (busy : Busy mem x pc) (quiet : i.cpu.quiet = true) (idle : x.core.cyc = false) :
    Busy mem (x.step mem i) pc := by
  have core : (x.step mem i).core = x.core.clock i.cpu (x.bus mem i) := rfl
  obtain ⟨cyc, stb, invalid, valid, illegal, insn⟩ := clock_idle (b := x.bus mem i) quiet idle
  rw [← core] at cyc stb invalid valid illegal insn
  obtain ⟨address, addr⟩ := busy.place (i := i) quiet
  constructor
  case serving =>
    refine ⟨(taken_step quiet).symm ▸ busy.serving.handed i, illegal.trans busy.serving.legal, address, fun here => ?_⟩
    exact (busy.kept quiet (valid.symm.trans here)).trans (congrArg some insn.symm)
  case addr => exact addr
  case offered =>
    intro here
    obtain ⟨here, wait⟩ := Bool.and_eq_true_iff.mp (valid.symm.trans here)
    have started : (i.cpu.ready && !x.core.illegal || x.core.invalid) = false := by
      simp [(busy.offered here).2, show i.cpu.ready = false by simpa using wait]
    exact ⟨cyc.trans started, invalid⟩
  case running =>
    intro starts
    have empty : x.outstanding i = [] := outstanding_idle idle i
    rw [stb starts, if_pos rfl]
    exact ⟨invalid, by simp [step, empty]⟩

/-- Nothing is offered while the unit is on the bus. -/
theorem not_valid (busy : Busy mem x pc) (cyc : x.core.cyc = true) : x.core.valid = false := by
  by_contra here
  simpa [cyc] using (busy.offered (by simpa using here)).1

theorem no_answer (busy : Busy mem x pc) (quiet : i.cpu.quiet = true) (cyc : x.core.cyc = true)
    (silent : x.reply i = none) : Busy mem (x.step mem i) pc := by
  have core : (x.step mem i).core = x.core.clock i.cpu (x.bus mem i) := rfl
  have bus : x.bus mem i = ⟨i.stall, false, false, i.float⟩ := bus_none silent
  obtain ⟨on, stb, invalid, valid, illegal⟩ := clock_waiting (b := x.bus mem i) quiet cyc (by rw [bus]; rfl)
  rw [← core] at on stb invalid valid illegal
  rw [busy.not_valid cyc, Bool.false_and] at valid
  obtain ⟨address, addr⟩ := busy.place (i := i) quiet
  constructor
  case serving =>
    refine ⟨(taken_step quiet).symm ▸ busy.serving.handed i, illegal.trans busy.serving.legal, address, fun here => ?_⟩
    exact absurd (valid.symm.trans here) Bool.false_ne_true
  case addr => exact addr
  case offered => exact fun here => absurd (valid.symm.trans here) Bool.false_ne_true
  case running =>
    intro _
    have same : (x.step mem i).core.addr = x.core.addr := by
      rw [core, clock_addr quiet busy.serving.legal, busy.not_valid cyc]
      rfl
    have waiting : (x.step mem i).waiting = x.outstanding i := Pipelined.rest_of_none silent
    rw [waiting, busy.outstanding cyc, stb, same, bus]
    exact ⟨invalid.trans (busy.running cyc).1, rfl⟩

theorem answered (busy : Busy mem x pc) (quiet : i.cpu.quiet = true) (cyc : x.core.cyc = true) {a : BitVec w}
    (reply : x.reply i = some a) : Busy mem (x.step mem i) pc ∨ (x.step mem i).Failing mem pc := by
  have core : (x.step mem i).core = x.core.clock i.cpu (x.bus mem i) := rfl
  have only := Pipelined.rest_of_some reply
  have here : a = x.core.addr := by
    rw [busy.outstanding cyc] at only
    split_ifs at only
    exact (List.cons.inj only).1.symm
  have bus := bus_some mem reply
  obtain ⟨off, invalid, valid, illegal, insn⟩ :=
    clock_answered (b := x.bus mem i) quiet cyc (by rw [bus]; cases mem a <;> rfl)
  rw [← core] at off invalid valid illegal insn
  obtain ⟨address, addr⟩ := busy.place (i := i) quiet
  have follows : Follows mem pc (x.step mem i).taken := (taken_step quiet).symm ▸ busy.serving.handed i
  have same : (x.step mem i).taken = x.taken := by
    rw [taken_step quiet, handed, hands_nothing (.inl (busy.not_valid cyc)), List.append_nil]
  have place : mem (word (after pc (x.step mem i).taken.length)) = mem a := by rw [same, here, busy.addr]
  cases read : mem a with
  | some v =>
    rw [bus, read] at illegal insn
    refine .inl ⟨⟨follows, illegal, address, fun _ => ?_⟩, addr, ?_, ?_⟩
    · exact place.trans (read.trans (congrArg some (insn rfl).symm))
    · exact fun _ => ⟨off, invalid.trans (busy.running cyc).1⟩
    · exact fun on => absurd (off.symm.trans on) Bool.false_ne_true
  | none =>
    rw [bus, read] at illegal
    exact .inr ⟨follows, place.trans read, valid, illegal, address⟩

theorem goes_on (busy : Busy mem x pc) (quiet : i.cpu.quiet = true) :
    Busy mem (x.step mem i) pc ∨ (x.step mem i).Failing mem pc := by
  cases cyc : x.core.cyc with
  | false => exact .inl (busy.off_bus quiet cyc)
  | true =>
    cases reply : x.reply i with
    | none => exact .inl (busy.no_answer quiet cyc reply)
    | some a => exact busy.answered quiet cyc reply

/-- A prompt slave brings the instruction nearer. -/
theorem nears (busy : Busy mem x pc) (quiet : i.cpu.quiet = true) (ready : i.cpu.ready = true)
    (none : x.core.valid = false) : (x.step mem i).distance + (if x.prompt i then 1 else 0) ≤ x.distance := by
  have core : (x.step mem i).core = x.core.clock i.cpu (x.bus mem i) := rfl
  cases cyc : x.core.cyc with
  | false =>
    have far : x.distance = 3 := by simp [distance, pins_valid, pins_cyc, none, cyc]
    obtain ⟨on, -⟩ := clock_idle (b := x.bus mem i) quiet cyc
    rw [← core, ready, show x.core.illegal = false from busy.serving.legal] at on
    have near : (x.step mem i).distance ≤ 2 := by
      simp only [distance, pins_cyc, on]
      split_ifs <;> simp_all
    rw [far]
    split_ifs <;> omega
  | true =>
    have waiting := (busy.running cyc).2
    cases reply : x.reply i with
    | some a =>
      have bus := bus_some mem reply
      obtain ⟨-, -, valid, -⟩ := clock_answered (b := x.bus mem i) quiet cyc (by rw [bus]; cases mem a <;> rfl)
      rw [← core] at valid
      have here : (x.step mem i).distance = 0 := by simp [distance, pins_valid, valid]
      have far : 1 ≤ x.distance := by
        simp only [distance, pins_valid, none, pins_cyc, cyc]
        split_ifs <;> simp_all
      rw [here]
      split_ifs <;> omega
    | none =>
      have bus : x.bus mem i = ⟨i.stall, false, false, i.float⟩ := bus_none reply
      obtain ⟨on, -, -, valid, -⟩ := clock_waiting (b := x.bus mem i) quiet cyc (by rw [bus]; rfl)
      rw [← core] at on valid
      rw [none, Bool.false_and] at valid
      have rest : (x.step mem i).waiting = x.outstanding i := Pipelined.rest_of_none reply
      rw [Bench.reply, busy.outstanding cyc] at reply
      rw [busy.outstanding cyc] at rest
      simp only [distance, pins_valid, pins_cyc, on, valid, none, cyc, rest, waiting, prompt, pins_stb]
      -- what is not answered has been stalled, or the slave is not prompt
      cases stb : x.core.stb <;> cases stall : i.stall <;> cases answer : i.answer <;> simp_all

end Busy

/-- An illegal instruction keeps the unit off the bus. -/
def Sound (s : Prefetch w d) : Prop :=
  (s.cyc = true → s.invalid = false) ∧ (s.illegal = true → s.cyc = false ∧ s.invalid = false)

theorem sound_step (x : Bench (prefetch w d aligned)) (i : Inputs w d) (sound : Sound x.core) :
    Sound (x.step mem i).core := by
  obtain ⟨running, illegal⟩ := sound
  simp only [Sound, step, clock, cycle]
  grind

theorem sticky (x : Bench (prefetch w d aligned)) (i : Inputs w d) (sound : Sound x.core)
    (illegal : x.core.illegal = true) (quiet : i.cpu.quiet = true) : (x.step mem i).core.illegal = true :=
  (clock_idle quiet (sound.2 illegal).1).2.2.2.2.1.trans illegal

theorem waits (x : Bench (prefetch w d aligned)) (i : Inputs w d) (sound : Sound x.core)
    (valid : x.core.valid = true) (illegal : x.core.illegal = true) (quiet : i.cpu.quiet = true)
    (wait : i.cpu.ready = false) :
    (x.step mem i).core.valid = true ∧ (pins aligned (x.step mem i).core).pc = (pins aligned x.core).pc := by
  obtain ⟨-, -, -, still, -⟩ := clock_idle (b := x.bus mem i) quiet (sound.2 illegal).1
  obtain ⟨-, newPc, -⟩ := quiet_iff.mp quiet
  refine ⟨still.trans (by rw [valid, wait]; rfl), ?_⟩
  simp [step, pins, clock, newPc, wait]

theorem delivery (mem : Memory w d) (aligned : Bool) :
    Delivers (prefetch w d aligned) mem (shown aligned) Sound (Busy mem) where
  sound_step := sound_step
  start := start
  serving _ _ busy := busy.serving
  goes_on _ _ _ busy := busy.goes_on
  sticky := sticky
  waits := waits
  nears _ _ _ busy := busy.nears

end Prefetch

end IcoZip.Fetch
