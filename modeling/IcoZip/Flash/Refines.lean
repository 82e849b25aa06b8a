import IcoZip.Flash.Received

/-! `FLASHSIM` as a NOR flash: what a call keeps, and runs. -/

set_option autoImplicit false

namespace IcoZip.Flash.Flashsim

open SpiNor (value erased)

section
variable {lglen : Nat} {s : Flashsim} {t : SpiNor}

/-! ### A call -/

theorem Tracks.shows {clock : Bool} (tracks : Tracks lglen s t) (sck : t.sck = clock) :
    Shows lglen { s with lastSck := clock } t :=
  ⟨⟨⟨tracks.mem, tracks.timer, tracks.wip, tracks.wel, tracks.awake, tracks.partial_, tracks.nibbles, tracks.count,
    tracks.ireg⟩, tracks.mode, tracks.phase⟩, sck.symm⟩

theorem command_sck (t : SpiNor) (op : BitVec 8) : (t.command op).sck = t.sck := by
  unfold SpiNor.command
  split_ifs <;> rfl

theorem shift_keeps (s : Flashsim) (dat : BitVec 32) :
    (s.shift dat).state = s.state ∧ (s.shift dat).mode = s.mode ∧ (s.shift dat).addr = s.addr ∧
      (s.shift dat).pmem = s.pmem ∧ (s.shift dat).sreg = s.sreg := by
  rw [shift_eq]
  exact ⟨rfl, rfl, rfl, rfl, rfl⟩

/-- The bit that completes the first byte. -/
theorem clock_command (shows_ : Shows lglen s t) {p : Pins} (falling : s.falls p) (listed : Listed s p)
    {byte : BitVec 8} (wires : Wires (s.shift p.dat) (byteIn t byte)) (first : t.bytes = []) :
    ∃ s', (s.shift p.dat).clocked lglen = some s' ∧
      Shows lglen { s' with lastSck := false } ((byteIn t byte).command byte) := by
  have phase := shows_.phase
  obtain ⟨quad, dual⟩ := phase_state phase
  obtain ⟨state, mode, -⟩ := shift_keeps s p.dat
  have one : (byteIn t byte).bytes = [byte] := congrArg (· ++ [byte]) first
  have idle : (byteIn t byte).pending = [] := rfl
  have count := wires.count
  have ireg := wires.ireg
  rw [one, idle] at count ireg
  have rejected : t.accepted = false := by
    rw [first] at phase
    generalize t.accepted = taken at phase
    cases phase
    rfl
  have plain : t.quad = false := by
    rw [SpiNor.quad, rejected]
    rfl
  have spi : (s.shift p.dat).mode = .spi := by
    rw [mode, shows_.mode, plain]
    rfl
  have eight : (s.shift p.dat).count = 8#32 := BitVec.eq_of_toNat_eq count
  have op : (s.shift p.dat).ireg.setWidth 8 = byte := by
    rw [ireg]
    exact word_last [] byte
  have among : byte ∈ commands := op ▸ listed falling eight
  obtain ⟨s', decoded, tracks⟩ := @command_shows lglen _ _ byte wires rejected spi one among
  unfold clocked
  rw [state, if_neg quad, if_neg dual, if_pos eight, op]
  exact ⟨s', decoded, tracks.shows (command_sck _ _)⟩

/-- The bit that completes a further byte. -/
theorem clock_data (small : lglen < 32) (shows_ : Shows lglen s t) {p : Pins} (falling : s.falls p)
    (clean : Clean lglen s p) {byte : BitVec 8} (wires : Wires (s.shift p.dat) (byteIn t byte))
    (further : t.bytes ≠ []) :
    ∃ s', (s.shift p.dat).clocked lglen = some s' ∧ Shows lglen { s' with lastSck := false } (byteIn t byte) := by
  have phase := shows_.phase
  have mode := shows_.mode
  obtain ⟨quad, dual⟩ := phase_state phase
  obtain ⟨state, sameMode, addr, pmem, sreg⟩ := shift_keeps s p.dat
  have bytes : 0 < t.bytes.length := List.length_pos_iff.mpr further
  have count : (s.shift p.dat).count.toNat = 8 * (t.bytes.length + 1) := by
    rw [wires.count, byteIn, List.length_append, List.length_singleton]
    rfl
  have past : (s.shift p.dat).count ≠ 8#32 := by
    intro eight
    rw [eight] at count
    change 8 = _ at count
    omega
  have started : (s.shift p.dat).count ≠ 0#32 := by
    intro zero
    rw [zero] at count
    change 0 = _ at count
    omega
  have whole : (s.shift p.dat).count &&& 0x07#32 = 0#32 := by
    apply BitVec.eq_of_toNat_eq
    rw [position_toNat, count]
    exact Nat.mul_mod_right 8 _
  have program := clean.program falling
  have sector := clean.sector falling
  have read := fun many => clean.read falling many whole
  rw [← state] at program sector read phase
  rw [← addr] at phase read
  rw [← pmem] at phase
  rw [← sreg] at read
  rw [← sameMode] at mode
  obtain ⟨s', decoded, tracks⟩ := data_shows small wires mode phase further program sector read
  unfold clocked
  rw [state, if_neg quad, if_neg dual, if_neg past, if_pos ⟨whole, started⟩]
  exact ⟨s', decoded, tracks.shows rfl⟩

theorem clock_shows (small : lglen < 32) (shows_ : Shows lglen s t) {p : Pins} (falling : s.falls p)
    (listed : Listed s p) (clean : Clean lglen s p) :
    ∃ s', (s.shift p.dat).clocked lglen = some s' ∧ Shows lglen { s' with lastSck := false } (t.clock p.dat) := by
  have short := clean.short falling
  by_cases full : (t.pending ++ t.bits p.dat).length = 8
  · have wires := clock_byte shows_ p.dat short full
    have device : t.clock p.dat =
        if (t.bytes ++ [BitVec.ofNat 8 (value 0 (t.pending ++ t.bits p.dat))]).length = 1 then
          (byteIn t (BitVec.ofNat 8 (value 0 (t.pending ++ t.bits p.dat)))).command
            (BitVec.ofNat 8 (value 0 (t.pending ++ t.bits p.dat)))
        else byteIn t (BitVec.ofNat 8 (value 0 (t.pending ++ t.bits p.dat))) := if_pos full
    generalize BitVec.ofNat 8 (value 0 (t.pending ++ t.bits p.dat)) = byte at wires device
    rw [device, List.length_append, List.length_singleton]
    by_cases first : t.bytes = []
    · have length : t.bytes.length + 1 = 1 := by
        rw [first]
        rfl
      rw [if_pos length]
      exact clock_command shows_ falling listed wires first
    · have some : 0 < t.bytes.length := List.length_pos_iff.mpr first
      rw [if_neg (by omega)]
      exact clock_data small shows_ falling clean wires first
  · obtain ⟨decoded, next⟩ := clock_part shows_ p.dat short full
    exact ⟨_, decoded, next⟩

/-- A call keeps what the simulator shows of the device. -/
theorem step_shows (large : 16 ≤ lglen) (small : lglen < 32) (shows_ : Shows lglen s t) {p : Pins}
    (listed : Listed s.tick p) (clean : Clean lglen s.tick p) :
    ∃ s' out, s.step lglen p = some (s', out) ∧ Shows lglen s' (t.step (2 ^ lglen) p) := by
  have ticked := tick_shows shows_
  have sck := ticked.sck
  unfold step SpiNor.step
  dsimp only
  by_cases csn : p.csn = true
  · have raised : ∃ s', s.tick.raised lglen = some s' ∧ Shows lglen s' (t.wait.finish (2 ^ lglen)) := by
      cases accepted : t.wait.accepted with
      | false => exact finish_idle ticked accepted
      | true => exact finish_accepted large small ticked accepted (clean.whole csn)
    obtain ⟨s', done, next⟩ := raised
    rw [if_pos csn, if_pos csn, done]
    exact ⟨s', p.dat, rfl, next⟩
  · rw [if_neg csn, if_neg csn]
    by_cases falling : s.tick.falls p
    · obtain ⟨low, last, clock⟩ := falling
      have edge : ¬ (!s.tick.lastSck || p.sck == s.tick.lastSck) = true := by
        rw [last, clock]
        decide
      have seen : (t.wait.sck && !p.sck) = true := by
        rw [← sck, last, clock]
        rfl
      obtain ⟨s', done, next⟩ := clock_shows small ticked ⟨low, last, clock⟩ listed clean
      rw [if_neg edge, if_pos seen, done, clock]
      exact ⟨_, _, rfl, next⟩
    -- between the falling edges only the clock is remembered
    · have none : (!s.tick.lastSck || p.sck == s.tick.lastSck) = true := by
        cases last : s.tick.lastSck <;> cases clock : p.sck
        · rfl
        · rfl
        · exact absurd ⟨Bool.eq_false_iff.mpr csn, last, clock⟩ falling
        · rfl
      have unseen : ¬ (t.wait.sck && !p.sck) = true := by
        rw [← sck]
        intro seen
        rw [Bool.and_eq_true, Bool.not_eq_true'] at seen
        exact falling ⟨Bool.eq_false_iff.mpr csn, seen.1, seen.2⟩
      rw [if_pos none, if_neg unseen]
      obtain ⟨⟨⟨mem, timer, wip, wel, awake, partial_, nibbles, count, ireg⟩, mode, phase⟩, -⟩ := ticked
      exact ⟨_, _, rfl, ⟨⟨⟨mem, timer, wip, wel, awake, partial_, nibbles, count, ireg⟩, mode, phase⟩, rfl⟩⟩

/-! ### Runs -/

theorem run_shows (large : 16 ≤ lglen) (small : lglen < 32) (shows_ : Shows lglen s t) {ps : List Pins}
    (listed : Always lglen Listed s ps) (clean : Always lglen (Clean lglen) s ps) :
    ∃ s', run lglen s ps = some s' ∧ Shows lglen s' (t.run (2 ^ lglen) ps) := by
  induction ps generalizing s t with
  | nil => exact ⟨s, rfl, shows_⟩
  | cons p ps ih =>
    obtain ⟨listed, later⟩ := listed
    obtain ⟨clean, others⟩ := clean
    obtain ⟨s', out, stepped, next⟩ := step_shows large small shows_ listed clean
    rw [stepped] at later others
    obtain ⟨last, rest, shown⟩ := ih next later others
    refine ⟨last, ?_, shown⟩
    rw [run, stepped]
    exact rest

/-- The first call with chip select high. -/
theorem start_shows (mem : Array8) (pmem : BitVec 8 → BitVec 8) (addr count : BitVec 32) {p : Pins}
    (first : p.csn = true) :
    ∃ out, (new mem pmem addr count).step lglen p = some (((new mem pmem addr count).released), out) ∧
      Shows lglen (new mem pmem addr count).released ((SpiNor.new mem).step (2 ^ lglen) p) := by
  have still : (new mem pmem addr count).state ∈ harmless := by
    change QspifState.idle ∈ harmless
    decide
  have wip : (0x01c#32).getLsbD 0 = false := by decide
  have wel : (0x01c#32).getLsbD 1 = false := by decide
  have awake : (0x01c#32).getLsbD 9 = false := by decide
  have raised : Flashsim.raised lglen (new mem pmem addr count) = some (new mem pmem addr count).released :=
    raised_quiet still
  have device : (SpiNor.new mem).step (2 ^ lglen) p = SpiNor.new mem := by
    unfold SpiNor.step
    dsimp only
    rw [if_pos first]
    rfl
  refine ⟨p.dat, ?_, ?_⟩
  · unfold step
    dsimp only
    rw [if_pos first]
    change (Flashsim.raised lglen (new mem pmem addr count)).bind _ = _
    rw [raised]
    rfl
  · rw [device]
    exact
      { mem := rfl, timer := rfl, wip, wel, awake, partial_ := Nat.zero_lt_succ 7
        nibbles := fun _ => rfl, count := rfl, ireg := rfl, mode := rfl, phase := Phase.quiet still, sck := rfl }

end

/-- In every run that begins with chip select high and whose calls are clean, no call fails and the memory is that of
the device. -/
theorem refines_nor {lglen : Nat} (large : 16 ≤ lglen) (small : lglen < 32) (mem : Array8) (pmem : BitVec 8 → BitVec 8)
    (addr count : BitVec 32) {p : Pins} (first : p.csn = true) {ps : List Pins}
    (listed : Always lglen Listed (new mem pmem addr count) (p :: ps))
    (clean : Always lglen (Clean lglen) (new mem pmem addr count) (p :: ps)) :
    ∃ s, run lglen (new mem pmem addr count) (p :: ps) = some s ∧
      s.mem = ((SpiNor.new mem).run (2 ^ lglen) (p :: ps)).mem := by
  obtain ⟨out, stepped, shows_⟩ := @start_shows lglen mem pmem addr count p first
  obtain ⟨-, later⟩ := listed
  obtain ⟨-, others⟩ := clean
  rw [stepped] at later others
  obtain ⟨s, rest, shown⟩ := run_shows large small shows_ later others
  refine ⟨s, ?_, shown.mem⟩
  rw [run, stepped]
  exact rest

/-- A byte on the pins. -/
def clocks (byte : BitVec 8) : List Pins :=
  (List.range 8).flatMap fun i =>
    [⟨false, true, 0#32⟩, ⟨false, false, BitVec.ofNat 32 (byte.getMsbD i).toNat⟩]

def transaction (bytes : List (BitVec 8)) : List Pins := bytes.flatMap clocks ++ [⟨true, true, 0#32⟩]

/-- A byte is programmed. -/
theorem refines_nor_program :
    ∃ s, run 16 (new (fun _ => 0xff#8) (fun _ => 0#8) 0#32 0#32)
        (⟨true, true, 0#32⟩ :: (transaction [0x06#8] ++ transaction [0x02#8, 0x00#8, 0x00#8, 0x05#8, 0xa5#8])) = some s ∧
      s.mem = ((SpiNor.new fun _ => 0xff#8).run (2 ^ 16)
        (⟨true, true, 0#32⟩ :: (transaction [0x06#8] ++ transaction [0x02#8, 0x00#8, 0x00#8, 0x05#8, 0xa5#8]))).mem :=
  refines_nor (by decide) (by decide) _ _ _ _ rfl (by decide +kernel) (by decide +kernel)

theorem run_append (lglen : Nat) (s : Flashsim) (ps qs : List Pins) :
    run lglen s (ps ++ qs) = (run lglen s ps).bind fun s => run lglen s qs := by
  induction ps generalizing s with
  | nil => rfl
  | cons p ps ih =>
    rw [List.cons_append, run, run]
    cases s.step lglen p with
    | none => rfl
    | some next => exact ih next.1

theorem always_append {lglen : Nat} {ok : Flashsim → Pins → Prop} {s s' : Flashsim} {ps qs : List Pins}
    (before : Always lglen ok s ps) (reached : run lglen s ps = some s') (after : Always lglen ok s' qs) :
    Always lglen ok s (ps ++ qs) := by
  induction ps generalizing s with
  | nil =>
    obtain rfl : s = s' := Option.some.inj reached
    exact after
  | cons p ps ih =>
    obtain ⟨now, later⟩ := before
    refine ⟨now, ?_⟩
    rw [run] at reached
    cases stepped : s.step lglen p with
    | none => trivial
    | some next =>
      rw [stepped] at later reached
      exact ih later reached

/-- A read, a write enable and the command byte of a sector erase. -/
def cut : List Pins :=
  ⟨true, true, 0#32⟩ :: (transaction [0x03#8, 0x00#8, 0x00#8, 0x00#8] ++ transaction [0x06#8] ++ clocks 0xd8#8)

/-- A sector erase that ends before its address erases the sector that was read last. -/
theorem cut_erases :
    Always 16 Listed (new (fun _ => 0#8) (fun _ => 0#8) 0#32 0#32) (cut ++ [⟨true, true, 0#32⟩]) ∧
    ¬ ∃ s, run 16 (new (fun _ => 0#8) (fun _ => 0#8) 0#32 0#32) (cut ++ [⟨true, true, 0#32⟩]) = some s ∧
      s.mem = ((SpiNor.new fun _ => 0#8).run (2 ^ 16) (cut ++ [⟨true, true, 0#32⟩])).mem := by
  have before : (run 16 (new (fun _ => 0#8) (fun _ => 0#8) 0#32 0#32) cut).map
      (fun s => (s.state, s.writeCount, s.addr)) = some (.sectorErase, 0#32, 1#32) := by decide +kernel
  have unchanged : ((SpiNor.new fun _ => 0#8).run (2 ^ 16) (cut ++ [⟨true, true, 0#32⟩])).mem 0#32 = 0#8 := by
    decide +kernel
  have listed : Always 16 Listed (new (fun _ => 0#8) (fun _ => 0#8) 0#32 0#32) cut := by decide +kernel
  obtain ⟨last, done, registers⟩ := Option.map_eq_some_iff.mp before
  rw [Prod.mk.injEq, Prod.mk.injEq] at registers
  obtain ⟨state, idle, addr⟩ := registers
  -- no write is in progress, and chip select rises
  have still : last.tick = last := by
    have stopped : ¬ 0#32 < last.writeCount := by
      rw [idle]
      decide
    exact if_neg stopped
  have inside : last.addr.toNat < 2 ^ 16 := by
    rw [addr]
    decide
  have erases : last.step 16 ⟨true, true, 0#32⟩ = some ({ last.released.begins with
      writeCount := tSE, addr := last.addr &&& 0xffff0000#32, mem := erased last.mem last.addr.toNat }, 0#32) := by
    unfold step
    rw [still]
    dsimp only
    rw [if_pos rfl, raised_sector (by decide) (by decide) state inside]
    rfl
  refine ⟨always_append listed done ⟨fun falling => absurd falling.1 (by decide), ?_⟩, ?_⟩
  · rw [erases]
    trivial
  · rintro ⟨s, reached, same⟩
    rw [run_append, done, Option.bind_some, run, erases] at reached
    have byte : s.mem 0#32 = 0xff#8 := by
      rw [← Option.some.inj reached]
      change erased last.mem last.addr.toNat 0#32 = _
      rw [erased, addr]
      rfl
    rw [same, unchanged] at byte
    exact absurd byte (by decide)

end IcoZip.Flash.Flashsim
