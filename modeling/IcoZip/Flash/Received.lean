import IcoZip.Flash.Shows

/-! A byte that is complete: a command, its address or its data. -/

set_option autoImplicit false

namespace IcoZip.Flash.Flashsim

open SpiNor (address buffered)

section
variable {lglen : Nat} {s : Flashsim} {t : SpiNor}

/-! ### The command byte -/

theorem asleep_iff (s : Flashsim) : s.sreg &&& DEEP_POWER_DOWN ≠ 0#32 ↔ s.sreg.getLsbD 9 = true := by
  have mask (i : Nat) (inside : i < 32) : DEEP_POWER_DOWN.getLsbD i = decide (i = 9) := by
    revert inside
    revert i
    decide
  constructor
  · intro some
    by_contra awake
    apply some
    apply BitVec.eq_of_getLsbD_eq
    intro i inside
    rw [BitVec.getLsbD_and, mask i inside, BitVec.getLsbD_zero]
    by_cases nine : i = 9
    · rw [nine, Bool.eq_false_iff.mpr awake, Bool.false_and]
    · rw [decide_eq_false nine, Bool.and_false]
  · intro asleep zero
    have bit := congrArg (fun x => BitVec.getLsbD x 9) zero
    rw [BitVec.getLsbD_and, asleep] at bit
    exact absurd bit (by decide)

/-- A write is accepted with the latch set and none in progress. -/
theorem guarded_iff (s : Flashsim) : 2#32 = s.sreg &&& 0x203#32 ↔
    s.sreg.getLsbD 0 = false ∧ s.sreg.getLsbD 1 = true ∧ s.sreg.getLsbD 9 = false := by
  have mask (i : Nat) (inside : i < 32) : (0x203#32).getLsbD i = decide (i = 0 ∨ i = 1 ∨ i = 9) := by
    revert inside
    revert i
    decide
  have two (i : Nat) (inside : i < 32) : (2#32).getLsbD i = decide (i = 1) := by
    revert inside
    revert i
    decide
  constructor
  · intro same
    have bit (i : Nat) : (2#32).getLsbD i = (s.sreg.getLsbD i && (0x203#32).getLsbD i) :=
      (congrArg (fun x => BitVec.getLsbD x i) same).trans BitVec.getLsbD_and
    have zero : false = (s.sreg.getLsbD 0 && true) := bit 0
    have one : true = (s.sreg.getLsbD 1 && true) := bit 1
    have nine : false = (s.sreg.getLsbD 9 && true) := bit 9
    rw [Bool.and_true] at zero one nine
    exact ⟨zero.symm, one.symm, nine.symm⟩
  · rintro ⟨zero, one, nine⟩
    apply BitVec.eq_of_getLsbD_eq
    intro i inside
    rw [BitVec.getLsbD_and, mask i inside, two i inside]
    by_cases low : i = 0 ∨ i = 1 ∨ i = 9
    · obtain rfl | rfl | rfl := low
      · rw [zero]
        rfl
      · rw [one]
        rfl
      · rw [nine]
        rfl
    · rw [decide_eq_false low, decide_eq_false fun first => low (Or.inr (Or.inl first)), Bool.and_false]

/-- A command that does not write and leaves the status alone. -/
theorem command_quiet {op : BitVec 8} (wires : Wires s t) (rejected : t.accepted = false) (mode : s.mode = .spi)
    {s' : Flashsim} (next : QspifState) (still : next ∈ harmless)
    (same : s' = { s with state := next, oreg := s'.oreg })
    (other : op ∉ SpiNor.writes ∧ op ≠ 0x04#8 ∧ op ≠ 0x06#8) : Tracks lglen s' (t.command op) := by
  have device : t.command op = t := by
    rw [SpiNor.command, if_neg other.2.2, if_neg other.2.1, if_neg other.1]
  have plain : t.quad = false := by
    rw [SpiNor.quad, rejected]
    rfl
  have phase : Phase lglen next s.addr s.pmem t.accepted t.bytes := by
    rw [rejected]
    exact Phase.quiet still
  have spi : s.mode = if t.quad then .qspi else .spi := by
    rw [plain]
    exact mode
  obtain ⟨mem, timer, wip, wel, awake, partial_, nibbles, count, ireg⟩ := wires
  rw [device, same]
  exact ⟨⟨mem, timer, wip, wel, awake, partial_, nibbles, count, ireg⟩, spi, phase⟩

/-- A command that sets or clears the latch. -/
theorem command_latch {op : BitVec 8} (wires : Wires s t) (rejected : t.accepted = false) (mode : s.mode = .spi)
    (enabled : Bool) (sreg : BitVec 32) (wip : sreg.getLsbD 0 = s.sreg.getLsbD 0) (wel : sreg.getLsbD 1 = enabled)
    (awake : sreg.getLsbD 9 = s.sreg.getLsbD 9) (device : t.command op = { t with enabled }) :
    Tracks lglen { s.qoreg 0xa5#32 with state := .idle, sreg } (t.command op) := by
  have plain : SpiNor.quad { t with enabled } = false := by
    rw [SpiNor.quad, rejected]
    rfl
  have phase : Phase lglen .idle s.addr s.pmem t.accepted t.bytes := by
    rw [rejected]
    exact Phase.quiet (by decide)
  have spi : s.mode = if SpiNor.quad { t with enabled } then .qspi else .spi := by
    rw [plain]
    exact mode
  rw [device]
  exact
    { mem := wires.mem, timer := wires.timer, wip := wip.trans wires.wip, wel, awake := awake.trans wires.awake
      partial_ := wires.partial_, nibbles := wires.nibbles, count := wires.count, ireg := wires.ireg, mode := spi
      phase }

/-- A command that writes is accepted by both or by neither. -/
theorem command_writes {op : BitVec 8} (wires : Wires s t) (mode : s.mode = .spi) (first : t.bytes = [op])
    (among : op ∈ SpiNor.writes) : Tracks lglen ((s.qoreg 0xa5#32).guarded (writing op)) (t.command op) := by
  obtain ⟨mem, timer, wip, wel, awake, partial_, nibbles, count, ireg⟩ := wires
  have guarded := guarded_iff s
  have device : t.command op = { t with accepted := t.enabled && t.busy == 0 } := by
    have plain : op ≠ 0x04#8 ∧ op ≠ 0x06#8 := by
      simp only [SpiNor.writes, List.mem_cons, List.not_mem_nil, or_false] at among
      obtain rfl | rfl | rfl | rfl := among <;> decide
    rw [SpiNor.command, if_neg plain.2, if_neg plain.1, if_pos among]
  have few (accepted : Bool) : SpiNor.quad { t with accepted } = false := by
    rw [SpiNor.quad, first]
    simp
  have aligned (accepted : Bool) (fast : SpiNor.quad { t with accepted } = true) : t.pending.length % 4 = 0 :=
    absurd ((few accepted).symm.trans fast) Bool.false_ne_true
  have spi (accepted : Bool) : s.mode = if SpiNor.quad { t with accepted } then .qspi else .spi := by
    rw [few]
    exact mode
  rw [device]
  -- one test of three bits here, two registers there; the third bit is off
  by_cases taken : 2#32 = s.sreg &&& 0x203#32
  · obtain ⟨free, latched, -⟩ := guarded.mp taken
    have idle : t.busy = 0 := by
      rw [wip] at free
      exact Nat.eq_zero_of_not_pos (of_decide_eq_false free)
    have accepted : (t.enabled && t.busy == 0) = true := by
      rw [← wel, latched, idle]
      rfl
    have decided : (s.qoreg 0xa5#32).guarded (writing op) = { s.qoreg 0xa5#32 with state := writing op } :=
      if_neg (not_not.mpr taken)
    have phase : Phase lglen (writing op) s.addr s.pmem true t.bytes := by
      rw [first]
      simp only [SpiNor.writes, List.mem_cons, List.not_mem_nil, or_false] at among
      obtain rfl | rfl | rfl | rfl := among
      · exact Phase.early (by decide) rfl (by decide)
      · exact Phase.early (by decide) rfl (by decide)
      · exact Phase.bulk rfl
      · exact Phase.early (by decide) rfl (by decide)
    rw [decided, accepted]
    exact ⟨⟨mem, timer, wip, wel, awake, partial_, aligned true, count, ireg⟩, spi true, phase⟩
  · have rejects : (t.enabled && t.busy == 0) = false := by
      by_contra accepts
      rw [Bool.not_eq_false, Bool.and_eq_true, beq_iff_eq] at accepts
      obtain ⟨latched, idle⟩ := accepts
      have free : s.sreg.getLsbD 0 = false := by
        rw [wip, idle]
        rfl
      exact taken (guarded.mpr ⟨free, wel.trans latched, awake⟩)
    have decided : (s.qoreg 0xa5#32).guarded (writing op) = { s.qoreg 0xa5#32 with state := .invalid } := if_pos taken
    have still : QspifState.invalid ∈ harmless := by decide
    rw [decided, rejects]
    exact ⟨⟨mem, timer, wip, wel, awake, partial_, aligned false, count, ireg⟩, spi false, Phase.quiet still⟩

/-- The first byte of a transaction. -/
theorem command_shows {op : BitVec 8} (wires : Wires s t) (rejected : t.accepted = false) (mode : s.mode = .spi)
    (first : t.bytes = [op]) (listed : op ∈ commands) :
    ∃ s', s.command op = some s' ∧ Tracks lglen s' (t.command op) := by
  have asleep : ¬ (s.sreg &&& DEEP_POWER_DOWN ≠ 0#32 ∧ op ≠ 0xab#8) := by
    intro sleeps
    have bit := (asleep_iff s).mp sleeps.1
    rw [wires.awake] at bit
    exact Bool.false_ne_true bit
  have writes (among : op ∈ SpiNor.writes) : Tracks lglen ((s.qoreg 0xa5#32).guarded (writing op)) (t.command op) :=
    command_writes wires mode first among
  simp only [commands, List.mem_cons, List.not_mem_nil, or_false] at listed
  obtain rfl | rfl | rfl | rfl | rfl | rfl | rfl | rfl | rfl | rfl | rfl := listed
  · exact ⟨_, if_neg asleep, writes (by decide)⟩
  · exact ⟨_, if_neg asleep, command_quiet wires rejected mode .slowRead (by decide) rfl (by decide)⟩
  · have bit (i : Nat) : (s.sreg &&& ~~~WEL).getLsbD i = (s.sreg.getLsbD i && (~~~WEL).getLsbD i) := BitVec.getLsbD_and
    exact ⟨_, if_neg asleep, command_latch wires rejected mode false _ ((bit 0).trans (Bool.and_true _))
      ((bit 1).trans (Bool.and_false _)) ((bit 9).trans (Bool.and_true _)) rfl⟩
  · exact ⟨_, if_neg asleep, command_quiet wires rejected mode .rdsr (by decide) rfl (by decide)⟩
  · have bit (i : Nat) : (s.sreg ||| WEL).getLsbD i = (s.sreg.getLsbD i || WEL.getLsbD i) := BitVec.getLsbD_or
    exact ⟨_, if_neg asleep, command_latch wires rejected mode true _ ((bit 0).trans (Bool.or_false _))
      ((bit 1).trans (Bool.or_true _)) ((bit 9).trans (Bool.or_false _)) rfl⟩
  · exact ⟨_, if_neg asleep, command_quiet wires rejected mode .fastRead (by decide) rfl (by decide)⟩
  · exact ⟨_, if_neg asleep, writes (by decide)⟩
  · exact ⟨_, if_neg asleep, command_quiet wires rejected mode .rdcr (by decide) rfl (by decide)⟩
  · exact ⟨_, if_neg asleep, command_quiet wires rejected mode .idle (by decide) rfl (by decide)⟩
  · exact ⟨_, if_neg asleep, writes (by decide)⟩
  · exact ⟨_, if_neg asleep, writes (by decide)⟩

/-! ### Further bytes -/

theorem latchAddr_eq (s : Flashsim) : s.latchAddr lglen = some { s with addr := s.ireg &&& memmask lglen } := by
  have masked : s.ireg &&& memmask lglen &&& ~~~memmask lglen = 0#32 := by
    rw [BitVec.and_assoc, BitVec.and_not_self]
    exact BitVec.and_zero
  unfold latchAddr assert
  simp only [masked, beq_self_eq_true, if_true, Option.bind_eq_bind, Option.bind_some]

theorem readNext_eq (inside : s.addr < membytes lglen) :
    s.readNext lglen = some ({ s with addr := s.addr + 1#32 }.qoreg ((s.mem s.addr).setWidth 32)) := by
  unfold readNext load
  rw [if_pos inside]
  rfl

theorem masked_inside (small : lglen < 32) (a : BitVec 32) : a &&& memmask lglen < membytes lglen := by
  rw [BitVec.lt_def, memmask_toNat small, membytes_toNat small]
  exact Nat.mod_lt _ (Nat.two_pow_pos lglen)

theorem reads_next (inside : s.addr < membytes lglen) : ∃ oreg addr, s.readNext lglen = some { s with oreg, addr } :=
  ⟨_, _, readNext_eq inside⟩

/-- After its address a read goes on with whole bytes, unless a write is in progress. -/
theorem reads_on (inside : 40#32 ≤ s.count → s.sreg &&& 1#32 = 0#32 → s.addr < membytes lglen) :
    ∃ oreg addr, (if 40#32 ≤ s.count ∧ (s.sreg &&& 1#32 == 0#32) = true then s.readNext lglen
      else some { s with oreg := 0#32 }) = some { s with oreg, addr } := by
  by_cases more : 40#32 ≤ s.count ∧ (s.sreg &&& 1#32 == 0#32) = true
  · rw [if_pos more]
    exact reads_next (inside more.1 (beq_iff_eq.mp more.2))
  · rw [if_neg more]
    exact ⟨_, s.addr, rfl⟩

theorem data_slowRead (lglen : Nat) (state : s.state = .slowRead) : s.data lglen =
    if s.count = 32#32 then { s.qoreg 0#32 with addr := s.ireg &&& memmask lglen }.readNext lglen
    else if 40#32 ≤ s.count ∧ (s.sreg &&& 1#32 == 0#32) = true then (s.qoreg 0#32).readNext lglen
    else some { s.qoreg 0#32 with oreg := 0#32 } := by
  change (s.qoreg 0#32).state = .slowRead at state
  unfold data
  simp only [state, latchAddr_eq, Option.bind_eq_bind, Option.bind_some]
  rw [← state]
  rfl

theorem data_fastRead (lglen : Nat) (state : s.state = .fastRead) : s.data lglen =
    if s.count = 32#32 then some { (s.qoreg 0#32).qoreg 0x0c3#32 with addr := s.ireg &&& memmask lglen }
    else if 40#32 ≤ s.count ∧ (s.sreg &&& 1#32 == 0#32) = true then (s.qoreg 0#32).readNext lglen
    else some { s.qoreg 0#32 with oreg := 0#32 } := by
  change (s.qoreg 0#32).state = .fastRead at state
  unfold data
  simp only [state, latchAddr_eq]
  rw [← state]
  rfl

theorem data_answer (lglen : Nat) (state : s.state ∈ [.idle, .rdsr, .rdcr, .invalid]) :
    ∃ oreg, s.data lglen = some { s with oreg } := by
  simp only [List.mem_cons, List.not_mem_nil, or_false] at state
  change (s.qoreg 0#32).state = _ ∨ (s.qoreg 0#32).state = _ ∨ (s.qoreg 0#32).state = _ ∨
    (s.qoreg 0#32).state = _ at state
  unfold data
  obtain state | state | state | state := state
  all_goals simp only [state]
  all_goals exact ⟨_, rfl⟩

/-- Without an accepted command a byte moves the address at most. -/
theorem data_harmless (small : lglen < 32) (still : s.state ∈ harmless)
    (read : 40#32 ≤ s.count → s.state ∈ [.slowRead, .fastRead] → s.sreg &&& 1#32 = 0#32 → s.addr < membytes lglen) :
    ∃ oreg addr, s.data lglen = some { s with oreg, addr } := by
  by_cases reads : s.state ∈ [.slowRead, .fastRead]
  · have next := @reads_on lglen (s.qoreg 0#32) fun many => read many reads
    simp only [List.mem_cons, List.not_mem_nil, or_false] at reads
    obtain state | state := reads
    · rw [data_slowRead lglen state]
      by_cases first : s.count = 32#32
      · rw [if_pos first]
        exact @reads_next lglen { s.qoreg 0#32 with addr := s.ireg &&& memmask lglen } (masked_inside small _)
      · rw [if_neg first]
        exact next
    · rw [data_fastRead lglen state]
      by_cases first : s.count = 32#32
      · rw [if_pos first]
        exact ⟨_, _, rfl⟩
      · rw [if_neg first]
        exact next
  · have answers : s.state ∈ [.idle, .rdsr, .rdcr, .invalid] := by
      simp only [harmless, List.mem_cons, List.not_mem_nil, or_false, not_or] at still reads ⊢
      tauto
    obtain ⟨oreg, answered⟩ := data_answer lglen answers
    exact ⟨oreg, s.addr, answered⟩

/-! ### The address and the data of a write -/

theorem word_four (op a₂ a₁ a₀ : BitVec 8) : word [op, a₂, a₁, a₀] [] = op.toNat * 2 ^ 24 + address a₂ a₁ a₀ := by
  change 256 * (256 * (256 * (256 * 0 + op.toNat) + a₂.toNat) + a₁.toNat) + a₀.toNat = _
  unfold address
  ring

theorem address_lt (a₂ a₁ a₀ : BitVec 8) : address a₂ a₁ a₀ < 2 ^ 24 := by
  have two := a₂.isLt
  have one := a₁.isLt
  have zero := a₀.isLt
  unfold address
  omega

/-- The address register after a program command and its address. -/
theorem latched_toNat {op a₂ a₁ a₀ : BitVec 8} (small : lglen < 32) (fits : lglen ≤ 25)
    (ireg : s.ireg = BitVec.ofNat 32 (word [op, a₂, a₁, a₀] [])) (even : op.toNat % 2 = 0) :
    (s.ireg &&& memmask lglen).toNat = address a₂ a₁ a₀ % 2 ^ lglen := by
  have low := address_lt a₂ a₁ a₀
  have high := op.isLt
  -- the command is even, so that no bit of it is among the 25 lowest
  have split : 2 ^ 25 = 2 ^ (25 - lglen) * 2 ^ lglen := by rw [← Nat.pow_add, Nat.sub_add_cancel fits]
  have value : op.toNat * 2 ^ 24 + address a₂ a₁ a₀ =
      op.toNat / 2 * 2 ^ (25 - lglen) * 2 ^ lglen + address a₂ a₁ a₀ := by
    rw [Nat.mul_assoc, ← split]
    omega
  have whole : op.toNat * 2 ^ 24 + address a₂ a₁ a₀ < 2 ^ 32 := by omega
  rw [memmask_toNat small, ireg, BitVec.toNat_ofNat, word_four, Nat.mod_eq_of_lt whole, value,
    Nat.mul_add_mod_self_right]

theorem fillPage_addr (s : Flashsim) : s.fillPage.addr.toNat = s.addr.toNat / 256 * 256 + (s.addr.toNat + 1) % 256 := by
  have page := page_toNat s.addr
  have offset : ((s.addr + 1#32) &&& 0x0ff#32).toNat = (s.addr.toNat + 1) % 256 := by
    rw [low_toNat, BitVec.toNat_add, Nat.mod_mod_of_dvd _ (by decide)]
    rfl
  have inside : (s.addr.toNat + 1) % 256 < 2 ^ 8 := Nat.mod_lt _ (by decide)
  have apart := Nat.shiftLeft_add_eq_or_of_lt inside (s.addr.toNat / 256)
  rw [Nat.shiftLeft_eq] at apart
  change (s.addr &&& ~~~0x0ff#32 ||| (s.addr + 1#32) &&& 0x0ff#32).toNat = _
  rw [BitVec.toNat_or, page, offset]
  exact apart.symm

/-- A data byte goes where the device puts it. -/
theorem fillPage_buffered {first byte : BitVec 8} {data : List (BitVec 8)}
    (filled : (s.pmem, s.addr.setWidth 8) = buffered first data) (last : s.ireg.setWidth 8 = byte) :
    (s.fillPage.pmem, s.fillPage.addr.setWidth 8) = buffered first (data ++ [byte]) := by
  have low (x : BitVec 32) : (x &&& 0x0ff#32).setWidth 8 = x.setWidth 8 := by
    apply BitVec.eq_of_toNat_eq
    rw [BitVec.toNat_setWidth, BitVec.toNat_setWidth, low_toNat]
    exact Nat.mod_mod _ _
  have offset : s.fillPage.addr.setWidth 8 = s.addr.setWidth 8 + 1#8 := by
    apply BitVec.eq_of_toNat_eq
    rw [BitVec.toNat_setWidth, fillPage_addr, BitVec.toNat_add, BitVec.toNat_setWidth, BitVec.toNat_ofNat]
    omega
  rw [SpiNor.buffered_append, ← filled, offset, fillPage, low, low, last]

/-- What a byte after the command leaves as it is. -/
theorem Wires.data {s' : Flashsim} (wires : Wires s t)
    (same : s' = { s with pmem := s'.pmem, mode := s'.mode, oreg := s'.oreg, addr := s'.addr }) : Wires s' t := by
  obtain ⟨mem, timer, wip, wel, awake, partial_, nibbles, count, ireg⟩ := wires
  rw [same]
  exact ⟨mem, timer, wip, wel, awake, partial_, nibbles, count, ireg⟩

section
variable (lglen)

theorem data_pp (state : s.state = .pp) : s.data lglen =
    if s.count = 32#32 then some { s.qoreg 0#32 with addr := s.ireg &&& memmask lglen, pmem := fun _ => 0xff#8 }
    else some (if 40#32 ≤ s.count then (s.qoreg 0#32).fillPage else s.qoreg 0#32) := by
  change (s.qoreg 0#32).state = .pp at state
  unfold data
  simp only [state, latchAddr_eq]
  rfl

theorem data_qpp (state : s.state = .qpp) : s.data lglen =
    if s.count = 32#32 then
      some { s.qoreg 0#32 with addr := s.ireg &&& memmask lglen, mode := .qspi, pmem := fun _ => 0xff#8 }
    else some (if 40#32 ≤ s.count then (s.qoreg 0#32).fillPage else s.qoreg 0#32) := by
  change (s.qoreg 0#32).state = .qpp at state
  unfold data
  simp only [state, latchAddr_eq]
  rfl

theorem data_sectorErase (state : s.state = .sectorErase) : s.data lglen =
    if s.count = 32#32 then
      (assert (s.ireg &&& 0x0ffc000#32 &&& 0xfc00000#32 == 0#32)).bind fun _ =>
        some { s.qoreg 0#32 with addr := s.ireg &&& 0x0ffc000#32 }
    else some (s.qoreg 0#32) := by
  change (s.qoreg 0#32).state = .sectorErase at state
  unfold data
  simp only [state]
  rfl

theorem data_bulkErase (state : s.state = .bulkErase) : s.data lglen = some (s.qoreg 0#32) := by
  change (s.qoreg 0#32).state = .bulkErase at state
  unfold data
  simp only [state]

end

/-- The last byte of the address of a program. -/
theorem data_program (small : lglen < 32) {op a₂ a₁ a₀ : BitVec 8} (among : op ∈ [0x02#8, 0x32#8])
    (state : s.state = writing op) (first : s.count = 32#32) (fits : lglen ≤ 25)
    (ireg : s.ireg = BitVec.ofNat 32 (word [op, a₂, a₁, a₀] [])) :
    ∃ s', s.data lglen = some s' ∧
      s' = { s with pmem := s'.pmem, mode := s'.mode, oreg := s'.oreg, addr := s'.addr } ∧
      s'.mode = (if op = 0x32#8 then .qspi else s.mode) ∧
      Phase lglen s'.state s'.addr s'.pmem true [op, a₂, a₁, a₀] := by
  have even : op.toNat % 2 = 0 := by
    simp only [List.mem_cons, List.not_mem_nil, or_false] at among
    obtain rfl | rfl := among <;> rfl
  have latched := latched_toNat small fits ireg even
  have offset : (s.ireg &&& memmask lglen).setWidth 8 = BitVec.ofNat 8 (address a₂ a₁ a₀ % 2 ^ lglen) := by
    apply BitVec.eq_of_toNat_eq
    rw [BitVec.toNat_setWidth, BitVec.toNat_ofNat, latched]
  have page : (s.ireg &&& memmask lglen).toNat / 256 = address a₂ a₁ a₀ % 2 ^ lglen / 256 := by rw [latched]
  have filled : (fun _ : BitVec 8 => 0xff#8, (s.ireg &&& memmask lglen).setWidth 8) =
      buffered (BitVec.ofNat 8 (address a₂ a₁ a₀ % 2 ^ lglen)) [] := by
    rw [offset]
    rfl
  have phase : Phase lglen s.state (s.ireg &&& memmask lglen) (fun _ => 0xff#8) true [op, a₂, a₁, a₀] :=
    Phase.program among state page filled
  simp only [List.mem_cons, List.not_mem_nil, or_false] at among
  obtain rfl | rfl := among
  · have decoded := data_pp lglen state
    rw [if_pos first] at decoded
    exact ⟨_, decoded, rfl, rfl, phase⟩
  · have decoded := data_qpp lglen state
    rw [if_pos first] at decoded
    exact ⟨_, decoded, rfl, rfl, phase⟩

/-- The last byte of the address of a sector. -/
theorem data_sector {a₂ a₁ a₀ : BitVec 8} (state : s.state = .sectorErase) (first : s.count = 32#32)
    (inside : s.ireg.toNat % 2 ^ 24 < 2 ^ lglen ∧ s.ireg.toNat % 2 ^ 24 < 2 ^ 22)
    (ireg : s.ireg = BitVec.ofNat 32 (word [0xd8#8, a₂, a₁, a₀] [])) :
    ∃ s', s.data lglen = some s' ∧ s' = { s with oreg := s'.oreg, addr := s'.addr } ∧
      Phase lglen s'.state s'.addr s'.pmem true [0xd8#8, a₂, a₁, a₀] := by
  have low := address_lt a₂ a₁ a₀
  have value : s.ireg.toNat % 2 ^ 24 = address a₂ a₁ a₀ := by
    have high : (0xd8#8).toNat = 0xd8 := rfl
    rw [ireg, BitVec.toNat_ofNat, word_four, high]
    omega
  rw [value] at inside
  have addr : (s.ireg &&& 0x0ffc000#32).toNat = s.ireg.toNat / 2 ^ 14 % 2 ^ 10 * 2 ^ 14 :=
    window_toNat s.ireg 10 14 (by decide)
  have asserted : s.ireg &&& 0x0ffc000#32 &&& 0xfc00000#32 = 0#32 := by
    apply BitVec.eq_of_toNat_eq
    have high := window_toNat (s.ireg &&& 0x0ffc000#32) 6 22 (by decide)
    have mask : BitVec.ofNat 32 ((2 ^ 6 - 1) <<< 22) = 0xfc00000#32 := rfl
    rw [mask] at high
    rw [high, addr, BitVec.toNat_ofNat]
    omega
  have decoded := data_sectorErase lglen state
  rw [if_pos first, asserted] at decoded
  exact ⟨_, decoded, rfl, Phase.sector state inside.1 (by rw [addr]; omega)⟩

/-- Before its address is complete a command waits. -/
theorem data_early {op : BitVec 8} (among : op ∈ [0x02#8, 0x32#8, 0xd8#8]) (state : s.state = writing op)
    (few : s.count.toNat < 32) : s.data lglen = some (s.qoreg 0#32) := by
  have before : s.count ≠ 32#32 := by bv_omega
  have long : ¬ 40#32 ≤ s.count := by bv_omega
  simp only [List.mem_cons, List.not_mem_nil, or_false] at among
  obtain rfl | rfl | rfl := among
  · rw [data_pp lglen state, if_neg before, if_neg long]
  · rw [data_qpp lglen state, if_neg before, if_neg long]
  · rw [data_sectorErase lglen state, if_neg before]

/-- A data byte of a program. -/
theorem data_later {op : BitVec 8} (among : op ∈ [0x02#8, 0x32#8]) (state : s.state = writing op)
    (many : 40 ≤ s.count.toNat) : s.data lglen = some (s.qoreg 0#32).fillPage := by
  have past : s.count ≠ 32#32 := by bv_omega
  have long : 40#32 ≤ s.count := by bv_omega
  simp only [List.mem_cons, List.not_mem_nil, or_false] at among
  obtain rfl | rfl := among
  · rw [data_pp lglen state, if_neg past, if_pos long]
  · rw [data_qpp lglen state, if_neg past, if_pos long]

/-- A further byte does not change how bits are taken, except the last one of an address. -/
theorem quad_byteIn (further : t.bytes ≠ []) (other : t.bytes.head? ≠ some 0x32#8 ∨ t.bytes.length ≠ 3)
    (byte : BitVec 8) : (byteIn t byte).quad = t.quad := by
  obtain ⟨op, rest, bytes⟩ := List.exists_cons_of_ne_nil further
  have head : (byteIn t byte).bytes.head? = t.bytes.head? := by
    change (t.bytes ++ [byte]).head? = _
    rw [bytes]
    rfl
  have length : (byteIn t byte).bytes.length = t.bytes.length + 1 := List.length_append
  have accepts : (byteIn t byte).accepted = t.accepted := rfl
  rw [SpiNor.quad, SpiNor.quad, head, length, accepts]
  obtain other | other := other
  · rw [beq_eq_false_iff_ne.mpr other, Bool.and_false, Bool.false_and, Bool.false_and]
  · have same : (4 ≤ t.bytes.length + 1) ↔ 4 ≤ t.bytes.length := by omega
    rw [decide_eq_decide.mpr same]

/-- A byte after which the bits are taken as before. -/
theorem data_stays {byte : BitVec 8} (wires : Wires s (byteIn t byte)) (mode : s.mode = if t.quad then .qspi else .spi)
    (further : t.bytes ≠ []) {s' : Flashsim} (decoded : s.data lglen = some s')
    (same : s' = { s with pmem := s'.pmem, mode := s.mode, oreg := s'.oreg, addr := s'.addr })
    (other : t.bytes.head? ≠ some 0x32#8 ∨ t.bytes.length ≠ 3)
    (next : Phase lglen s'.state s'.addr s'.pmem t.accepted (t.bytes ++ [byte])) :
    ∃ s', s.data lglen = some s' ∧ Tracks lglen s' (byteIn t byte) := by
  have as_ : s'.mode = s.mode := by rw [same]
  have whole : s' = { s with pmem := s'.pmem, mode := s'.mode, oreg := s'.oreg, addr := s'.addr } := by
    rw [as_]
    exact same
  refine ⟨s', decoded, wires.data whole, ?_, next⟩
  rw [quad_byteIn further other byte, as_]
  exact mode

/-- The last byte of an address. -/
theorem data_address (small : lglen < 32) {byte : BitVec 8} (wires : Wires s (byteIn t byte))
    (mode : s.mode = if t.quad then .qspi else .spi) {op a₂ a₁ : BitVec 8} (bytes : t.bytes = [op, a₂, a₁])
    (accepted : t.accepted = true) (among : op ∈ [0x02#8, 0x32#8, 0xd8#8]) (state : s.state = writing op)
    (program : s.count = 32#32 → s.state ∈ [.pp, .qpp] → lglen ≤ 25)
    (sector : s.count = 32#32 → s.state = .sectorErase →
      s.ireg.toNat % 2 ^ 24 < 2 ^ lglen ∧ s.ireg.toNat % 2 ^ 24 < 2 ^ 22) :
    ∃ s', s.data lglen = some s' ∧ Tracks lglen s' (byteIn t byte) := by
  have total : (byteIn t byte).bytes = [op, a₂, a₁, byte] := congrArg (· ++ [byte]) bytes
  have idle : (byteIn t byte).pending = [] := rfl
  have count := wires.count
  have ireg := wires.ireg
  have further : t.bytes ≠ [] := by
    rw [bytes]
    exact List.cons_ne_nil _ _
  rw [total, idle] at count ireg
  have first : s.count = 32#32 := BitVec.eq_of_toNat_eq count
  by_cases erases : op = 0xd8#8
  · subst erases
    obtain ⟨s', decoded, same, next⟩ := data_sector state first (sector first state) ireg
    have other : t.bytes.head? ≠ some 0x32#8 := by
      rw [bytes]
      exact fun head => absurd (Option.some.inj head) (by decide)
    rw [← total, ← accepted] at next
    exact data_stays wires mode further decoded (by rw [same]) (Or.inl other) next
  · have programs : op ∈ [0x02#8, 0x32#8] := by
      simp only [List.mem_cons, List.not_mem_nil, or_false, erases] at among ⊢
      exact among
    have written : s.state ∈ [QspifState.pp, .qpp] := by
      rw [state]
      simp only [List.mem_cons, List.not_mem_nil, or_false] at programs
      obtain rfl | rfl := programs <;> decide
    obtain ⟨s', decoded, same, taken, next⟩ := data_program small programs state first (program first written) ireg
    rw [← total, ← accepted] at next
    by_cases quad : op = 0x32#8
    · have fast : (byteIn t byte).quad = true := by
        rw [SpiNor.quad, total, quad]
        exact congrArg (fun taken => taken && true && true) accepted
      refine ⟨s', decoded, wires.data same, ?_, next⟩
      rw [fast, taken, if_pos quad]
      rfl
    · have kept : s' = { s with pmem := s'.pmem, mode := s.mode, oreg := s'.oreg, addr := s'.addr } := by
        rw [if_neg quad] at taken
        rw [← taken]
        exact same
      have other : t.bytes.head? ≠ some 0x32#8 := by
        rw [bytes]
        exact fun head => quad (Option.some.inj head)
      exact data_stays wires mode further decoded kept (Or.inl other) next

/-- A byte after the command. -/
theorem data_shows (small : lglen < 32) {byte : BitVec 8}
    (wires : Wires s (byteIn t byte)) (mode : s.mode = if t.quad then .qspi else .spi)
    (phase : Phase lglen s.state s.addr s.pmem t.accepted t.bytes) (further : t.bytes ≠ [])
    (program : s.count = 32#32 → s.state ∈ [.pp, .qpp] → lglen ≤ 25)
    (sector : s.count = 32#32 → s.state = .sectorErase →
      s.ireg.toNat % 2 ^ 24 < 2 ^ lglen ∧ s.ireg.toNat % 2 ^ 24 < 2 ^ 22)
    (read : 40#32 ≤ s.count → s.state ∈ [.slowRead, .fastRead] → s.sreg &&& 1#32 = 0#32 → s.addr < membytes lglen) :
    ∃ s', s.data lglen = some s' ∧ Tracks lglen s' (byteIn t byte) := by
  have count : s.count.toNat = 8 * (t.bytes ++ [byte]).length := wires.count
  have ireg : s.ireg = BitVec.ofNat 32 (word (t.bytes ++ [byte]) []) := wires.ireg
  have accepts : (byteIn t byte).accepted = t.accepted := rfl
  have stays := @data_stays lglen s t byte wires mode further
  generalize bytes : t.bytes = all at phase count ireg stays
  generalize accepted : t.accepted = taken at phase stays
  cases phase with
  | quiet still =>
    obtain ⟨oreg, addr, decoded⟩ := data_harmless small still read
    have plain : t.quad = false := by
      rw [SpiNor.quad, accepted]
      rfl
    have slow : (byteIn t byte).quad = false := by
      rw [SpiNor.quad, accepts, accepted]
      rfl
    refine ⟨_, decoded, wires.data rfl, ?_, ?_⟩
    · rw [slow, mode, plain]
    · rw [accepts, accepted]
      exact Phase.quiet still
  | @early op rest among state short =>
    -- only the third byte of the address is looked at
    by_cases last : rest.length = 2
    · obtain ⟨a₂, a₁, rfl⟩ := List.length_eq_two.mp last
      exact data_address small wires mode bytes accepted among state program sector
    · have few : s.count.toNat < 32 := by
        rw [List.length_append, List.length_cons, List.length_singleton] at count
        omega
      have other : (op :: rest).length ≠ 3 := fun three => last (Nat.succ.inj three)
      have fewer : (rest ++ [byte]).length < 3 := by
        rw [List.length_append, List.length_singleton]
        omega
      exact stays (data_early among state few) rfl (Or.inr other) (Phase.early among state fewer)
  | @bulk rest state =>
    exact stays (data_bulkErase lglen state) rfl (Or.inl (by simp)) (Phase.bulk state)
  | @sector a₂ a₁ a₀ rest state inside same =>
    have past : s.count ≠ 32#32 := by
      simp only [List.length_append, List.length_cons, List.length_nil] at count
      bv_omega
    have decoded := data_sectorErase lglen state
    rw [if_neg past] at decoded
    exact stays decoded rfl (Or.inl (by simp)) (Phase.sector state inside same)
  | @program op a₂ a₁ a₀ data among state page filled =>
    have many : 40 ≤ s.count.toNat := by
      simp only [List.length_append, List.length_cons, List.length_nil] at count
      omega
    have last : (s.qoreg 0#32).ireg.setWidth 8 = byte := by
      change s.ireg.setWidth 8 = byte
      rw [ireg]
      exact word_last _ byte
    have next := @fillPage_buffered (s.qoreg 0#32) _ _ _ filled last
    have addr := fillPage_addr (s.qoreg 0#32)
    change _ = s.addr.toNat / 256 * 256 + (s.addr.toNat + 1) % 256 at addr
    have kept : (s.qoreg 0#32).fillPage.addr.toNat / 256 = address a₂ a₁ a₀ % 2 ^ lglen / 256 := by omega
    exact stays (data_later among state many) rfl (Or.inr (by simp)) (Phase.program among state kept next)

end

end IcoZip.Flash.Flashsim
