import IcoZip.Flash.Arrays
import Mathlib.Tactic.Ring

/-! What the registers of `FLASHSIM` say of the transaction, until a byte is complete and when chip select rises. -/

set_option autoImplicit false

namespace IcoZip.Flash.Flashsim

open SpiNor (value address buffered programmed erased)

/-! ### The shift register -/

/-- What has been clocked in, as a number. -/
def word (bytes : List (BitVec 8)) (pending : List Bool) : Nat :=
  value (bytes.foldl (fun n byte => 256 * n + byte.toNat) 0) pending

theorem value_append (n : Nat) (front back : List Bool) : value n (front ++ back) = value (value n front) back :=
  List.foldl_append

theorem value_eq (n : Nat) (bits : List Bool) : value n bits = n * 2 ^ bits.length + value 0 bits := by
  induction bits generalizing n with
  | nil => rw [List.length_nil, Nat.pow_zero, Nat.mul_one]; rfl
  | cons bit bits ih =>
    have both (m : Nat) : value m (bit :: bits) = value (2 * m + bit.toNat) bits := rfl
    rw [both, both, ih, ih (2 * 0 + bit.toNat), List.length_cons, Nat.pow_succ]
    ring

theorem value_lt (bits : List Bool) : value 0 bits < 2 ^ bits.length := by
  induction bits with
  | nil => exact Nat.one_pos
  | cons bit bits ih =>
    have step : value 0 (bit :: bits) = bit.toNat * 2 ^ bits.length + value 0 bits :=
      (value_eq (2 * 0 + bit.toNat) bits).trans (by rw [Nat.mul_zero, Nat.zero_add])
    have most : bit.toNat * 2 ^ bits.length ≤ 2 ^ bits.length := by
      cases bit <;> simp
    rw [step, List.length_cons, Nat.pow_succ]
    omega

/-- Eight bits are a byte. -/
theorem word_byte (bytes : List (BitVec 8)) (pending : List Bool) (full : pending.length = 8) :
    word bytes pending = word (bytes ++ [BitVec.ofNat 8 (value 0 pending)]) [] := by
  have fits : value 0 pending < 2 ^ 8 := full ▸ value_lt pending
  have byte : (BitVec.ofNat 8 (value 0 pending)).toNat = value 0 pending := by
    rw [BitVec.toNat_ofNat, Nat.mod_eq_of_lt fits]
  rw [word, word, value_eq, full, List.foldl_append, List.foldl_cons, List.foldl_nil, byte, Nat.mul_comm]
  rfl

theorem word_last (bytes : List (BitVec 8)) (byte : BitVec 8) :
    BitVec.setWidth 8 (BitVec.ofNat 32 (word (bytes ++ [byte]) [])) = byte := by
  apply BitVec.eq_of_toNat_eq
  have split : word (bytes ++ [byte]) [] = 256 * word bytes [] + byte.toNat := by
    rw [word, word, List.foldl_append]
    rfl
  have bound := byte.isLt
  rw [BitVec.toNat_setWidth, BitVec.toNat_ofNat, split]
  omega

/-- What is shifted in comes below what was there. -/
theorem shift_low (w k : Nat) (dat : BitVec 32) (few : k ≤ 32) :
    BitVec.ofNat 32 w <<< k ||| dat &&& BitVec.ofNat 32 (2 ^ k - 1) =
      BitVec.ofNat 32 (w * 2 ^ k + dat.toNat % 2 ^ k) := by
  have most : 2 ^ k ≤ 2 ^ 32 := Nat.pow_le_pow_right (by decide) few
  have positive : 0 < 2 ^ k := Nat.two_pow_pos k
  apply BitVec.eq_of_getLsbD_eq
  intro i inside
  have low : (w * 2 ^ k + dat.toNat % 2 ^ k) = w <<< k ||| dat.toNat % 2 ^ k := by
    rw [← Nat.shiftLeft_eq, Nat.shiftLeft_add_eq_or_of_lt (Nat.mod_lt _ positive)]
  have mask : (BitVec.ofNat 32 (2 ^ k - 1)).getLsbD i = decide (i < k) := by
    rw [BitVec.getLsbD_ofNat, Nat.testBit_two_pow_sub_one]
    simp only [inside, decide_true, Bool.true_and]
  rw [low, BitVec.getLsbD_or, BitVec.getLsbD_and, mask, BitVec.getLsbD_shiftLeft, BitVec.getLsbD_ofNat,
    BitVec.getLsbD_ofNat, Nat.testBit_or, Nat.testBit_shiftLeft, Nat.testBit_mod_two_pow]
  by_cases below : i < k
  · simp [below, inside, BitVec.getLsbD]
  · have inner : i - k < 32 := by omega
    simp [below, inside, inner, Nat.not_lt.mp below]

theorem value_bit (n : Nat) (dat : BitVec 32) : value n [dat.getLsbD 0] = n * 2 ^ 1 + dat.toNat % 2 ^ 1 := by
  have bit : (dat.getLsbD 0).toNat = dat.toNat % 2 ^ 1 := by
    rw [BitVec.getLsbD, Nat.pow_one]
    exact Nat.toNat_testBit dat.toNat 0 |>.trans (by rw [Nat.pow_zero, Nat.div_one])
  rw [value_eq, ← bit]
  change n * 2 ^ 1 + (2 * 0 + (dat.getLsbD 0).toNat) = _
  rw [Nat.mul_zero, Nat.zero_add]

theorem value_nibble (n : Nat) (dat : BitVec 32) :
    value n [dat.getLsbD 3, dat.getLsbD 2, dat.getLsbD 1, dat.getLsbD 0] = n * 2 ^ 4 + dat.toNat % 2 ^ 4 := by
  have nibble : ∀ x : BitVec 4, value 0 [x.getLsbD 3, x.getLsbD 2, x.getLsbD 1, x.getLsbD 0] = x.toNat := by decide
  have bit (i : Nat) (inside : i < 4) : (dat.setWidth 4).getLsbD i = dat.getLsbD i := by
    rw [BitVec.getLsbD_setWidth, decide_eq_true inside, Bool.true_and]
  have low := nibble (dat.setWidth 4)
  rw [bit 3 (by decide), bit 2 (by decide), bit 1 (by decide), bit 0 (by decide), BitVec.toNat_setWidth] at low
  rw [value_eq, low]
  rfl

/-! ### What the registers say -/

/-- The states in which chip select can rise without a write. -/
def harmless : List QspifState := [.idle, .rdsr, .rdcr, .slowRead, .fastRead, .invalid]

/-- The state of an accepted command. -/
def writing (op : BitVec 8) : QspifState :=
  if op = 0x02#8 then .pp else if op = 0x32#8 then .qpp else if op = 0xd8#8 then .sectorErase else .bulkErase

/-- How far a command has come, from whether it was accepted and its bytes. -/
inductive Phase (lglen : Nat) (state : QspifState) (addr : BitVec 32) (pmem : BitVec 8 → BitVec 8) :
    Bool → List (BitVec 8) → Prop where
  | quiet {bytes} : state ∈ harmless → Phase lglen state addr pmem false bytes
  | early {op rest} : op ∈ [0x02#8, 0x32#8, 0xd8#8] → state = writing op → rest.length < 3 →
      Phase lglen state addr pmem true (op :: rest)
  | bulk {rest} : state = .bulkErase → Phase lglen state addr pmem true (0xc7#8 :: rest)
  | sector {a₂ a₁ a₀ rest} : state = .sectorErase → address a₂ a₁ a₀ < 2 ^ lglen →
      addr.toNat / 65536 = address a₂ a₁ a₀ / 65536 →
      Phase lglen state addr pmem true (0xd8#8 :: a₂ :: a₁ :: a₀ :: rest)
  | program {op a₂ a₁ a₀ data} : op ∈ [0x02#8, 0x32#8] → state = writing op →
      addr.toNat / 256 = address a₂ a₁ a₀ % 2 ^ lglen / 256 →
      (pmem, addr.setWidth 8) = buffered (BitVec.ofNat 8 (address a₂ a₁ a₀ % 2 ^ lglen)) data →
      Phase lglen state addr pmem true (op :: a₂ :: a₁ :: a₀ :: data)

/-- The memory, the status and the shift register show what the device has seen. -/
structure Wires (s : Flashsim) (t : SpiNor) : Prop where
  mem : s.mem = t.mem
  timer : s.writeCount.toNat = t.busy
  wip : s.sreg.getLsbD 0 = decide (0 < t.busy)
  wel : s.sreg.getLsbD 1 = t.enabled
  awake : s.sreg.getLsbD 9 = false
  partial_ : t.pending.length < 8
  nibbles : t.quad = true → t.pending.length % 4 = 0
  count : s.count.toNat = 8 * t.bytes.length + t.pending.length
  ireg : s.ireg = BitVec.ofNat 32 (word t.bytes t.pending)

/-- So do the mode and the state. -/
structure Tracks (lglen : Nat) (s : Flashsim) (t : SpiNor) : Prop extends Wires s t where
  mode : s.mode = if t.quad then .qspi else .spi
  phase : Phase lglen s.state s.addr s.pmem t.accepted t.bytes

structure Shows (lglen : Nat) (s : Flashsim) (t : SpiNor) : Prop extends Tracks lglen s t where
  sck : s.lastSck = t.sck

/-! ### Conditions on a run -/

/-- The commands that a transaction can be. -/
def commands : List (BitVec 8) :=
  [0x02#8, 0x03#8, 0x04#8, 0x05#8, 0x06#8, 0x0b#8, 0x32#8, 0x35#8, 0x70#8, 0xc7#8, 0xd8#8]

/-- A bit is clocked in. -/
def falls (s : Flashsim) (p : Pins) : Prop := p.csn = false ∧ s.lastSck = true ∧ p.sck = false

instance (s : Flashsim) (p : Pins) : Decidable (s.falls p) :=
  inferInstanceAs (Decidable (p.csn = false ∧ s.lastSck = true ∧ p.sck = false))

def Listed (s : Flashsim) (p : Pins) : Prop :=
  s.falls p → (s.shift p.dat).count = 8#32 → (s.shift p.dat).ireg.setWidth 8 ∈ commands

structure Clean (lglen : Nat) (s : Flashsim) (p : Pins) : Prop where
  /-- Chip select does not rise between the command and the end of its address. -/
  whole : p.csn = true → s.state ∈ [.pp, .qpp, .sectorErase] → 32#32 ≤ s.count
  /-- A transaction has fewer than 2^32 bits. -/
  short : s.falls p → s.count < (s.shift p.dat).count
  /-- No bit of the command is taken for one of the address. -/
  program : s.falls p → (s.shift p.dat).count = 32#32 → s.state ∈ [.pp, .qpp] → lglen ≤ 25
  /-- The sector is in the array and in the first 4 MB. -/
  sector : s.falls p → (s.shift p.dat).count = 32#32 → s.state = .sectorErase →
    (s.shift p.dat).ireg.toNat % 2 ^ 24 < 2 ^ lglen ∧ (s.shift p.dat).ireg.toNat % 2 ^ 24 < 2 ^ 22
  /-- A read ends with the array. -/
  read : s.falls p → 40#32 ≤ (s.shift p.dat).count → (s.shift p.dat).count &&& 7#32 = 0#32 →
    s.state ∈ [.slowRead, .fastRead] → s.sreg &&& 1#32 = 0#32 → s.addr < membytes lglen

instance (s : Flashsim) (p : Pins) : Decidable (Listed s p) :=
  inferInstanceAs (Decidable (s.falls p → (s.shift p.dat).count = 8#32 → (s.shift p.dat).ireg.setWidth 8 ∈ commands))

set_option synthInstance.maxSize 256 in
instance (lglen : Nat) (s : Flashsim) (p : Pins) : Decidable (Clean lglen s p) :=
  decidable_of_iff
    ((p.csn = true → s.state ∈ [QspifState.pp, .qpp, .sectorErase] → 32#32 ≤ s.count) ∧
      (s.falls p → s.count < (s.shift p.dat).count) ∧
      (s.falls p → (s.shift p.dat).count = 32#32 → s.state ∈ [QspifState.pp, .qpp] → lglen ≤ 25) ∧
      (s.falls p → (s.shift p.dat).count = 32#32 → s.state = .sectorErase →
        (s.shift p.dat).ireg.toNat % 2 ^ 24 < 2 ^ lglen ∧ (s.shift p.dat).ireg.toNat % 2 ^ 24 < 2 ^ 22) ∧
      (s.falls p → 40#32 ≤ (s.shift p.dat).count → (s.shift p.dat).count &&& 7#32 = 0#32 →
        s.state ∈ [QspifState.slowRead, .fastRead] → s.sreg &&& 1#32 = 0#32 → s.addr < membytes lglen))
    ⟨fun clean => ⟨clean.1, clean.2.1, clean.2.2.1, clean.2.2.2.1, clean.2.2.2.2⟩,
      fun clean => ⟨clean.whole, clean.short, clean.program, clean.sector, clean.read⟩⟩

/-- Every call of a run meets a condition on the pins and on the simulator after its timer. -/
def Always (lglen : Nat) (ok : Flashsim → Pins → Prop) : Flashsim → List Pins → Prop
  | _, [] => True
  | s, p :: ps => ok s.tick p ∧ (s.step lglen p).elim True fun next => Always lglen ok next.1 ps

instance Always.decidable (lglen : Nat) (ok : Flashsim → Pins → Prop) [∀ s p, Decidable (ok s p)] :
    ∀ (ps : List Pins) (s : Flashsim), Decidable (Always lglen ok s ps)
  | [], _ => .isTrue trivial
  | p :: ps, s =>
    have : Decidable ((s.step lglen p).elim True fun next => Always lglen ok next.1 ps) :=
      match s.step lglen p with
      | some next => Always.decidable lglen ok ps next.1
      | none => .isTrue trivial
    inferInstanceAs (Decidable (ok s.tick p ∧ (s.step lglen p).elim True fun next => Always lglen ok next.1 ps))

/-! ### The status register -/

theorem tick_shows {lglen : Nat} {s : Flashsim} {t : SpiNor} (shows_ : Shows lglen s t) :
    Shows lglen s.tick t.wait := by
  obtain ⟨⟨⟨mem, timer, wip, wel, awake, partial_, nibbles, count, ireg⟩, mode, phase⟩, sck⟩ := shows_
  unfold tick SpiNor.wait
  by_cases zero : t.busy = 0
  · have stopped : ¬ 0#32 < s.writeCount := by bv_omega
    rw [if_neg stopped, if_pos zero]
    exact ⟨⟨⟨mem, timer, wip, wel, awake, partial_, nibbles, count, ireg⟩, mode, phase⟩, sck⟩
  · have running : 0#32 < s.writeCount := by bv_omega
    rw [if_pos running, if_neg zero]
    -- the timer runs out in this call: the mask clears the bits of the write
    by_cases last : t.busy = 1
    · have ends : s.writeCount - 1#32 = 0#32 := by bv_omega
      have cleared (i : Nat) (bit : (0x0fc#32).getLsbD i = false) : (s.sreg &&& 0x0fc#32).getLsbD i = false := by
        rw [BitVec.getLsbD_and, bit, Bool.and_false]
      rw [if_pos last]
      simp only [ends, if_true]
      exact ⟨⟨⟨mem, rfl, cleared 0 rfl, cleared 1 rfl, cleared 9 rfl, partial_, nibbles, count, ireg⟩, mode, phase⟩,
        sck⟩
    · have more : s.writeCount - 1#32 ≠ 0#32 := by bv_omega
      have less : (s.writeCount - 1#32).toNat = t.busy - 1 := by bv_omega
      have still : decide (0 < t.busy) = decide (0 < t.busy - 1) := decide_eq_decide.mpr (by omega)
      rw [if_neg last]
      simp only [more, if_false]
      exact ⟨⟨⟨mem, less, wip.trans still, wel, awake, partial_, nibbles, count, ireg⟩, mode, phase⟩, sck⟩

/-- A write that begins clears the latch and shows that it is in progress. -/
theorem begins_status {s : Flashsim} :
    s.begins.sreg.getLsbD 0 = true ∧ s.begins.sreg.getLsbD 1 = false ∧ s.begins.sreg.getLsbD 9 = s.sreg.getLsbD 9 := by
  have low (i : Nat) : s.begins.sreg.getLsbD i = (s.sreg.getLsbD i && (~~~WEL).getLsbD i || WIP.getLsbD i) := by
    unfold begins
    rw [BitVec.getLsbD_or, BitVec.getLsbD_and]
  refine ⟨?_, ?_, ?_⟩
  · rw [low, show WIP.getLsbD 0 = true from rfl, Bool.or_true]
  · rw [low, show WIP.getLsbD 1 = false from rfl, show (~~~WEL).getLsbD 1 = false from rfl, Bool.and_false,
      Bool.or_false]
  · rw [low, show WIP.getLsbD 9 = false from rfl, show (~~~WEL).getLsbD 9 = true from rfl, Bool.and_true,
      Bool.or_false]

/-! ### Chip select rises -/

section
variable {lglen : Nat} {s : Flashsim} {t : SpiNor}

theorem raised_quiet (still : s.state ∈ harmless) :
    s.raised lglen = some s.released := by
  unfold raised released
  simp only [harmless, List.mem_cons, List.not_mem_nil, or_false] at still
  obtain state | state | state | state | state | state := still <;> rw [state]

/-- Chip select rises without an accepted command. -/
theorem finish_idle (shows_ : Shows lglen s t) (rejected : t.accepted = false) :
    ∃ s', s.raised lglen = some s' ∧ Shows lglen s' (t.finish (2 ^ lglen)) := by
  obtain ⟨⟨⟨mem, timer, wip, wel, awake, partial_, nibbles, count, ireg⟩, mode, phase⟩, sck⟩ := shows_
  have plain : t.quad = false := by
    rw [SpiNor.quad, rejected]
    rfl
  rw [rejected] at phase
  cases phase with
  | quiet still =>
    refine ⟨_, raised_quiet still, ?_⟩
    rw [SpiNor.finish, rejected]
    rw [plain] at mode
    exact
      { mem, sck := rfl, timer, wip, wel, awake, partial_ := Nat.zero_lt_succ 7
        nibbles := fun fast => absurd fast Bool.false_ne_true, count := rfl, ireg := rfl, mode
        phase := Phase.quiet still }

theorem raised_bulk (small : lglen < 32) (state : s.state = .bulkErase) :
    s.raised lglen = some { s.released.begins with
      writeCount := tBE, mem := fun x => if x.toNat < 2 ^ lglen then 0xff#8 else s.mem x } := by
  have room : (0#32).toNat + 2 ^ lglen ≤ 2 ^ lglen := Nat.le_of_eq (Nat.zero_add _)
  have all (x : BitVec 32) : ((0#32).toNat ≤ x.toNat ∧ x.toNat < (0#32).toNat + 2 ^ lglen) ↔ x.toNat < 2 ^ lglen := by
    rw [BitVec.toNat_ofNat]
    omega
  have loop := eraseFrom_eq small room s.mem
  simp only [all] at loop
  unfold raised released
  simp only [state, membytes_toNat small, loop, Option.bind_eq_bind, Option.bind_some]

theorem raised_sector (large : 16 ≤ lglen) (small : lglen < 32) (state : s.state = .sectorErase)
    (inside : s.addr.toNat < 2 ^ lglen) :
    s.raised lglen = some { s.released.begins with
      writeCount := tSE, addr := s.addr &&& 0xffff0000#32, mem := erased s.mem s.addr.toNat } := by
  have loop := eraseFrom_sector large small inside s.mem
  unfold raised released
  simp only [state, loop, Option.bind_eq_bind, Option.bind_some]

theorem raised_program (large : 16 ≤ lglen) (small : lglen < 32) (state : s.state = .pp ∨ s.state = .qpp)
    (inside : s.addr.toNat < 2 ^ lglen) :
    s.raised lglen = some { s.released.begins with
      writeCount := tPP, mode := .spi
      mem := fun x => if x.toNat / 256 = s.addr.toNat / 256 then s.mem x &&& s.pmem (x.setWidth 8) else s.mem x } := by
  have loop := programPage_page large small inside s.pmem s.mem
  unfold raised released
  obtain state | state := state <;>
    simp only [state, loop, Option.bind_eq_bind, Option.bind_some]

/-- A write that begins when chip select rises. -/
theorem finish_write (shows_ : Shows lglen s t) (accepted : t.accepted = true) {s' : Flashsim}
    (effect : t.effect (2 ^ lglen) = some (s'.mem, s'.writeCount.toNat)) (long : 0#32 < s'.writeCount)
    (begun : s' = { s.released.begins with
      writeCount := s'.writeCount, addr := s'.addr, mem := s'.mem, mode := .spi }) :
    Shows lglen s' (t.finish (2 ^ lglen)) := by
  obtain ⟨wip, wel, awake⟩ := begins_status (s := s.released)
  have idle : QspifState.idle ∈ harmless := by decide
  have some : 0 < s'.writeCount.toNat := long
  rw [SpiNor.finish, if_pos accepted, effect]
  refine
    { mem := rfl, timer := rfl, wip := ?_, wel := ?_, awake := ?_, partial_ := Nat.zero_lt_succ 7
      nibbles := fun fast => absurd fast Bool.false_ne_true, count := ?_, ireg := ?_, mode := ?_
      phase := Phase.quiet ?_, sck := ?_ }
  all_goals rw [begun]
  · exact wip.trans (decide_eq_true some).symm
  · exact wel
  · exact awake.trans shows_.awake
  · rfl
  · rfl
  · rfl
  · exact idle
  · rfl

theorem Shows.spi (shows_ : Shows lglen s t) {op : BitVec 8} (head : t.bytes.head? = some op) (other : op ≠ 0x32#8) :
    s.released.begins.mode = .spi := by
  have command : t.bytes.head? ≠ some 0x32#8 := fun same => other (Option.some.inj (head.symm.trans same))
  change s.mode = .spi
  rw [shows_.mode, SpiNor.quad, beq_eq_false_iff_ne.mpr command, Bool.and_false]
  rfl

theorem finish_bulk (small : lglen < 32) (shows_ : Shows lglen s t) (accepted : t.accepted = true)
    {rest : List (BitVec 8)} (bytes : t.bytes = 0xc7#8 :: rest) (state : s.state = .bulkErase) :
    ∃ s', s.raised lglen = some s' ∧ Shows lglen s' (t.finish (2 ^ lglen)) := by
  have long : 0#32 < tBE := by decide
  have head : t.bytes.head? = some 0xc7#8 := congrArg List.head? bytes
  have same : s.released.begins.mode = .spi := shows_.spi head (by decide)
  refine ⟨_, raised_bulk small state, finish_write shows_ accepted ?_ long ?_⟩
  · rw [SpiNor.effect, if_pos head, shows_.mem]
  · rw [← same]

theorem finish_sector (large : 16 ≤ lglen) (small : lglen < 32) (shows_ : Shows lglen s t)
    (accepted : t.accepted = true) {a₂ a₁ a₀ : BitVec 8} {rest : List (BitVec 8)}
    (bytes : t.bytes = 0xd8#8 :: a₂ :: a₁ :: a₀ :: rest) (state : s.state = .sectorErase) (inside : address a₂ a₁ a₀ < 2 ^ lglen)
    (sector : s.addr.toNat / 65536 = address a₂ a₁ a₀ / 65536) :
    ∃ s', s.raised lglen = some s' ∧ Shows lglen s' (t.finish (2 ^ lglen)) := by
  obtain ⟨k, size, -⟩ := sectors large
  have long : 0#32 < tSE := by decide
  have head : t.bytes.head? = some 0xd8#8 := congrArg List.head? bytes
  have same : s.released.begins.mode = .spi := shows_.spi head (by decide)
  have where_ : erased s.mem s.addr.toNat = erased t.mem (address a₂ a₁ a₀ % 2 ^ lglen) := by
    funext x
    rw [erased, erased, sector, Nat.mod_eq_of_lt inside, shows_.mem]
  refine ⟨_, raised_sector large small state (by omega), finish_write shows_ accepted ?_ long ?_⟩
  · rw [SpiNor.effect, if_neg (by rw [head]; decide), bytes, where_]
    rfl
  · rw [← same]

theorem finish_program (large : 16 ≤ lglen) (small : lglen < 32) (shows_ : Shows lglen s t)
    (accepted : t.accepted = true) {op a₂ a₁ a₀ : BitVec 8} {data : List (BitVec 8)}
    (bytes : t.bytes = op :: a₂ :: a₁ :: a₀ :: data) (among : op ∈ [0x02#8, 0x32#8]) (state : s.state = writing op)
    (page : s.addr.toNat / 256 = address a₂ a₁ a₀ % 2 ^ lglen / 256)
    (filled : (s.pmem, s.addr.setWidth 8) = buffered (BitVec.ofNat 8 (address a₂ a₁ a₀ % 2 ^ lglen)) data) :
    ∃ s', s.raised lglen = some s' ∧ Shows lglen s' (t.finish (2 ^ lglen)) := by
  obtain ⟨k, size, -⟩ := sectors large
  have long : 0#32 < tPP := by decide
  have inside : address a₂ a₁ a₀ % 2 ^ lglen < 2 ^ lglen := Nat.mod_lt _ (Nat.two_pow_pos lglen)
  have programs : (s.state = .pp ∨ s.state = .qpp) ∧ op ≠ 0xc7#8 ∧ op ≠ 0xd8#8 := by
    rw [state]
    simp only [List.mem_cons, List.not_mem_nil, or_false] at among
    obtain rfl | rfl := among <;> decide
  obtain ⟨program, bulk, sector⟩ := programs
  have head : t.bytes.head? ≠ some 0xc7#8 := by
    rw [bytes]
    exact fun same => bulk (Option.some.inj same)
  have where_ : (fun x : BitVec 32 => if x.toNat / 256 = s.addr.toNat / 256 then s.mem x &&& s.pmem (x.setWidth 8)
      else s.mem x) = programmed t.mem (address a₂ a₁ a₀ % 2 ^ lglen) data := by
    funext x
    rw [programmed, page, shows_.mem, ← filled]
  refine ⟨_, raised_program large small program (by omega), finish_write shows_ accepted ?_ long rfl⟩
  rw [SpiNor.effect, if_neg head, bytes, where_]
  dsimp only
  rw [if_neg sector]

/-- Chip select rises after an accepted command that has its address. -/
theorem finish_accepted (large : 16 ≤ lglen) (small : lglen < 32) (shows_ : Shows lglen s t)
    (accepted : t.accepted = true) (whole : s.state ∈ [.pp, .qpp, .sectorErase] → 32#32 ≤ s.count) :
    ∃ s', s.raised lglen = some s' ∧ Shows lglen s' (t.finish (2 ^ lglen)) := by
  have count := shows_.count
  have phase := shows_.phase
  have partial_ := shows_.partial_
  rw [accepted] at phase
  generalize bytes : t.bytes = all at phase count
  cases phase with
  | early among state short =>
    -- a command without its address would write at an older one
    have inside : s.state ∈ [QspifState.pp, .qpp, .sectorErase] := by
      rw [state]
      simp only [List.mem_cons, List.not_mem_nil, or_false] at among
      obtain rfl | rfl | rfl := among <;> decide
    have many := whole inside
    have bound : (32#32).toNat = 32 := rfl
    rw [BitVec.le_def] at many
    rw [List.length_cons] at count
    omega
  | bulk state => exact finish_bulk small shows_ accepted bytes state
  | sector state inside sector => exact finish_sector large small shows_ accepted bytes state inside sector
  | program among state page filled => exact finish_program large small shows_ accepted bytes among state page filled

/-! ### A bit is clocked in -/

theorem shift_eq (s : Flashsim) (dat : BitVec 32) : s.shift dat =
    { s with ireg := (s.shift dat).ireg, count := (s.shift dat).count, oreg := (s.shift dat).oreg } := by
  unfold shift
  cases s.mode <;> rfl

theorem shift_ireg (shows_ : Shows lglen s t) (dat : BitVec 32) :
    (s.shift dat).ireg = BitVec.ofNat 32 (word t.bytes (t.pending ++ t.bits dat)) := by
  have mode := shows_.mode
  have next : word t.bytes (t.pending ++ t.bits dat) = value (word t.bytes t.pending) (t.bits dat) :=
    value_append _ _ _
  rw [next, SpiNor.bits]
  unfold shift
  split_ifs at mode ⊢ with fast
  · rw [mode, value_nibble]
    dsimp only
    rw [shows_.ireg]
    exact shift_low _ 4 dat (by decide)
  · rw [mode, value_bit]
    dsimp only
    rw [shows_.ireg]
    exact shift_low _ 1 dat (by decide)

theorem shift_count (shows_ : Shows lglen s t) (dat : BitVec 32) (short : s.count < (s.shift dat).count) :
    (s.shift dat).count.toNat = 8 * t.bytes.length + (t.pending ++ t.bits dat).length := by
  have mode := shows_.mode
  have before := shows_.count
  rw [List.length_append, ← Nat.add_assoc, ← before]
  unfold shift at short ⊢
  unfold SpiNor.bits
  split_ifs at mode ⊢ with fast
  · rw [mode] at short ⊢
    dsimp only at short ⊢
    change _ = s.count.toNat + 4
    bv_omega
  · rw [mode] at short ⊢
    dsimp only at short ⊢
    change _ = s.count.toNat + 1
    bv_omega

theorem bits_length (shows_ : Shows lglen s t) (dat : BitVec 32) :
    0 < (t.pending ++ t.bits dat).length ∧ (t.pending ++ t.bits dat).length ≤ 8 ∧
      (t.quad = true → (t.pending ++ t.bits dat).length % 4 = 0) := by
  have partial_ := shows_.partial_
  have nibbles := shows_.nibbles
  rw [List.length_append]
  unfold SpiNor.bits
  split_ifs with fast
  · have aligned := nibbles fast
    simp only [List.length_cons, List.length_nil]
    omega
  · simp only [List.length_cons, List.length_nil]
    exact ⟨Nat.succ_pos _, partial_, fun quad => absurd quad fast⟩

theorem phase_state {state : QspifState} {addr : BitVec 32} {pmem : BitVec 8 → BitVec 8} {accepted : Bool}
    {bytes : List (BitVec 8)} (phase : Phase lglen state addr pmem accepted bytes) :
    state ≠ .quadReadIdle ∧ state ≠ .dualReadIdle := by
  have written (op : BitVec 8) : writing op ≠ .quadReadIdle ∧ writing op ≠ .dualReadIdle := by
    unfold writing
    split_ifs <;> decide
  cases phase with
  | quiet still =>
    simp only [harmless, List.mem_cons, List.not_mem_nil, or_false] at still
    obtain rfl | rfl | rfl | rfl | rfl | rfl := still <;> decide
  | early _ state => exact state ▸ written _
  | bulk state => exact state ▸ ⟨by decide, by decide⟩
  | sector state => exact state ▸ ⟨by decide, by decide⟩
  | program _ state => exact state ▸ written _

/-- A bit that completes no byte changes nothing else. -/
theorem clock_part (shows_ : Shows lglen s t) (dat : BitVec 32) (short : s.count < (s.shift dat).count)
    (more : (t.pending ++ t.bits dat).length ≠ 8) :
    (s.shift dat).clocked lglen = some (s.shift dat) ∧
      Shows lglen { s.shift dat with lastSck := false } (t.clock dat) := by
  have ireg := shift_ireg shows_ dat
  have count := shift_count shows_ dat short
  obtain ⟨some, most, nibbles⟩ := bits_length shows_ dat
  obtain ⟨⟨⟨mem, timer, wip, wel, awake, partial_, -, -, -⟩, mode, phase⟩, -⟩ := shows_
  obtain ⟨quad, dual⟩ := phase_state phase
  constructor
  -- neither eight bits nor a multiple of them: nothing is decoded
  · have state : (s.shift dat).state = s.state := by rw [shift_eq]
    have seven := position_toNat (s.shift dat).count
    have command : (s.shift dat).count ≠ 8#32 := by bv_omega
    have data : (s.shift dat).count &&& 0x07#32 ≠ 0#32 := by
      intro zero
      rw [zero, count] at seven
      change 0 = _ at seven
      omega
    unfold clocked
    rw [state, if_neg quad, if_neg dual, if_neg command, if_neg fun whole => data whole.1]
  · have device : t.clock dat = { t with sck := false, pending := t.pending ++ t.bits dat } := if_neg more
    have same : t.quad = SpiNor.quad { t with sck := false, pending := t.pending ++ t.bits dat } := rfl
    rw [device]
    rw [same] at mode nibbles
    rw [shift_eq]
    exact
      { mem, sck := rfl, timer, wip, wel, awake, partial_ := Nat.lt_of_le_of_ne most more, nibbles, count, ireg, mode
        phase }

/-- What has been clocked in after a byte. -/
def byteIn (t : SpiNor) (byte : BitVec 8) : SpiNor :=
  { t with sck := false, pending := [], bytes := t.bytes ++ [byte] }

/-- A bit that completes a byte. -/
theorem clock_byte (shows_ : Shows lglen s t) (dat : BitVec 32) (short : s.count < (s.shift dat).count)
    (full : (t.pending ++ t.bits dat).length = 8) :
    Wires (s.shift dat) (byteIn t (BitVec.ofNat 8 (value 0 (t.pending ++ t.bits dat)))) := by
  have ireg := shift_ireg shows_ dat
  have count := shift_count shows_ dat short
  obtain ⟨⟨⟨mem, timer, wip, wel, awake, -, -, -, -⟩, -, -⟩, -⟩ := shows_
  rw [word_byte _ _ full] at ireg
  rw [full] at count
  have total : (s.shift dat).count.toNat =
      8 * (t.bytes ++ [BitVec.ofNat 8 (value 0 (t.pending ++ t.bits dat))]).length + 0 := by
    rw [count, List.length_append]
    rfl
  rw [shift_eq] at total ireg ⊢
  exact
    { mem, timer, wip, wel, awake, partial_ := Nat.zero_lt_succ 7, nibbles := fun _ => rfl, count := total, ireg }

end

end IcoZip.Flash.Flashsim
