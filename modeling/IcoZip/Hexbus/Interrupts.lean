import IcoZip.Hexbus.Respond

/-! Interrupt reporting: what `hbints` latches, accepts and hands over between two resets.

Interrupts are counted and words kept beside the registers. Both always balance.
What can go wrong is that an interrupt is latched while nothing is left to be
sent: `o_int_stb` then waits for `int_loaded` to fall or for `i_busy` to rise.
-/

set_option autoImplicit false

namespace IcoZip.Hexbus

open Elastic (Offer)

namespace Ints

/-- The inputs of one clock. -/
structure Inputs where
  reset : Bool
  interrupt : Bool
  up : Offer (BitVec 34)
  busy : Bool
  deriving DecidableEq, Repr

def powerUp : Ints := ⟨false, false, false, false, true, interruptWord⟩

def clock (s : Ints) (i : Inputs) : Ints := s.hbints i.reset i.interrupt i.up.stb i.up.data i.busy

/-- A rising interrupt. -/
def latches (s : Ints) (i : Inputs) : Bool := i.interrupt && !s.intState

def accepts (s : Ints) (i : Inputs) : Bool := i.up.stb && !s.busy

def hands (s : Ints) (i : Inputs) : Bool := s.intStb && !i.busy

/-- An interrupt is pending, and nothing happens until the predecessor offers a word or the
successor turns busy. -/
def Stuck (s : Ints) : Prop :=
  s.pendingInterrupt = true ∧ ∀ interrupt word, s.hbints false interrupt false word false = s

/-- An interrupt is latched with an ordinary word that comes in, or behind one that is held up. -/
def Covered (s : Ints) (i : Inputs) : Prop :=
  i.reset = true ∨ (s.latches i = true → s.accepts i = true ∨ s.loaded = true ∧ i.busy = true)

instance (s : Ints) (i : Inputs) : Decidable (Covered s i) := inferInstanceAs (Decidable (_ ∨ _))

/-- How the registers stand together. -/
structure Regular (s : Ints) : Prop where
  latched : s.pendingInterrupt = true → s.intState = true
  loaded : s.loaded = true → s.intStb = true ∧ s.intLoaded = false
  offered : s.intStb = true → s.loaded = false → s.intLoaded = true ∧ s.pendingInterrupt = true
  idle : s.pendingInterrupt = true → s.intStb = false → s.intLoaded = true
  word : s.intLoaded = true → s.intWord = interruptWord

theorem regular_powerUp : Regular powerUp := by
  constructor <;> simp [powerUp]

theorem Regular.clock {s : Ints} (regular : Regular s) (i : Inputs) : Regular (s.clock i) := by
  obtain ⟨state, pending, held, stb, loaded, word⟩ := s
  obtain ⟨latched, taken, offered, idle, ordinary⟩ := regular
  obtain ⟨reset, interrupt, ⟨upStb, data⟩, busy⟩ := i
  simp only at latched taken offered idle ordinary
  cases reset with
  | true =>
    constructor
    case word =>
      simp only [Ints.clock, hbints]
      split_ifs <;> simp_all
    all_goals simp [Ints.clock, hbints]
  | false =>
    constructor <;> simp only [Ints.clock, hbints, Ints.busy]
    case latched => cases pending <;> cases state <;> cases interrupt <;> simp_all
    case loaded => cases held <;> cases busy <;> cases upStb <;> simp_all
    case offered => cases held <;> cases stb <;> cases busy <;> cases upStb <;> simp_all
    case idle => cases held <;> cases stb <;> cases busy <;> cases upStb <;> simp_all
    case word => split_ifs <;> simp_all

variable {s : Ints}

/-- A pending interrupt that is offered moves on when the successor is ready. -/
theorem Regular.stuck_iff (regular : Regular s) : Stuck s ↔ s.pendingInterrupt = true ∧ s.intStb = false := by
  constructor
  · rintro ⟨pending, still⟩
    refine ⟨pending, ?_⟩
    cases stb : s.intStb with
    | false => rfl
    | true =>
      have same := still false 0
      cases loaded : s.loaded with
      | true =>
        -- the word in front is handed over and the interrupt word takes its place
        have next := congrArg Ints.loaded same
        simp [hbints, Ints.busy, stb, loaded] at next
      | false =>
        have next := congrArg Ints.pendingInterrupt same
        simp [hbints, Ints.busy, stb, (regular.offered stb loaded).1, pending] at next
  · rintro ⟨pending, stb⟩
    refine ⟨pending, fun interrupt word => ?_⟩
    have state := regular.latched pending
    have loaded : s.loaded = false := by
      cases loaded : s.loaded with
      | false => rfl
      | true => exact absurd (regular.loaded loaded).1 (by simp [stb])
    have int := regular.idle pending stb
    have held := regular.word int
    obtain ⟨_, _, _, _, _, _⟩ := s
    simp_all [hbints, Ints.busy]

/-- From a state that is not stuck only an interrupt that is not covered leads to one that is. -/
theorem Regular.moves_iff (regular : Regular s) (moving : ¬ Stuck s) (i : Inputs) :
    ¬ Stuck (s.clock i) ↔ Covered s i := by
  rw [regular.stuck_iff] at moving
  rw [(regular.clock i).stuck_iff]
  obtain ⟨latched, loaded, offered, idle, -⟩ := regular
  obtain ⟨reset, interrupt, up, busy⟩ := i
  cases reset with
  | true => simp [Covered, Ints.clock, hbints]
  | false =>
    cases pending : s.pendingInterrupt with
    | true =>
      have stb : s.intStb = true := by simpa [pending] using moving
      simp only [Covered, latches, latched pending, Ints.clock, hbints, pending, stb]
      cases held : s.loaded <;> cases busy <;> grind
    | false =>
      simp only [Covered, latches, accepts, Ints.clock, hbints, pending]
      cases held : s.loaded <;> cases busy <;> grind

/-! ### What has been seen -/

/-- Counted and collected since the last reset. -/
structure Ledger where
  latched : Nat
  accepted : List (BitVec 34)
  /-- Every word handed over, with the flag that says whether it was put in for an interrupt. -/
  handed : List (Bool × BitVec 34)
  deriving DecidableEq, Repr

def Ledger.interrupts (l : Ledger) : List (BitVec 34) := (l.handed.filter (·.1)).map (·.2)

def Ledger.words (l : Ledger) : List (BitVec 34) := (l.handed.filter (!·.1)).map (·.2)

/-- `hbints` with its ledger. -/
abbrev Counted := Ints × Ledger

namespace Counted

def step (x : Counted) (i : Inputs) : Counted :=
  (x.1.clock i,
    if i.reset then ⟨0, [], []⟩
    else
      { latched := x.2.latched + if x.1.latches i then 1 else 0
        accepted := x.2.accepted ++ if x.1.accepts i then [i.up.data] else []
        handed := x.2.handed ++ if x.1.hands i then [(x.1.intLoaded, x.1.intWord)] else [] })

def start : Counted := (powerUp, ⟨0, [], []⟩)

/-- Every interrupt has been handed over but the one that is pending, every ordinary word but the one
that is loaded. -/
structure Balanced (x : Counted) : Prop where
  interrupts : x.2.interrupts.length + (if x.1.pendingInterrupt then 1 else 0) = x.2.latched
  marked : ∀ word ∈ x.2.interrupts, word = interruptWord
  words : x.2.words ++ (if x.1.loaded then [x.1.intWord] else []) = x.2.accepted

section Balance

variable {x : Counted} (regular : Regular x.1) {i : Inputs} (running : i.reset = false)

include running

theorem interrupts_step : (x.step i).2.interrupts = x.2.interrupts ++
    if x.1.hands i && x.1.intLoaded then [x.1.intWord] else [] := by
  cases hands : x.1.hands i <;> cases int : x.1.intLoaded <;>
    simp [step, running, Ledger.interrupts, hands, int]

theorem words_step : (x.step i).2.words = x.2.words ++
    if x.1.hands i && !x.1.intLoaded then [x.1.intWord] else [] := by
  cases hands : x.1.hands i <;> cases int : x.1.intLoaded <;>
    simp [step, running, Ledger.words, hands, int]

include regular

/-- Of the interrupts, a clock hands over the pending one, and keeps it pending otherwise. -/
theorem pending_step : (if x.1.hands i && x.1.intLoaded then 1 else 0) +
    (if (x.1.clock i).pendingInterrupt then 1 else 0) =
      (if x.1.pendingInterrupt then 1 else 0) + if x.1.latches i then 1 else 0 := by
  obtain ⟨latched, loaded, offered, -, -⟩ := regular
  cases pending : x.1.pendingInterrupt with
  | true =>
    have state := latched pending
    cases stb : x.1.intStb <;> cases int : x.1.intLoaded <;> cases busy : i.busy <;>
      simp [Ints.clock, hbints, running, hands, latches, pending, state, stb, int, busy]
  | false =>
    -- what is offered without an interrupt is an ordinary word
    have ordinary : x.1.intStb = true → x.1.intLoaded = false := by
      intro stb
      cases held : x.1.loaded with
      | true => exact (loaded held).2
      | false => exact absurd (offered stb held).2 (by simp [pending])
    have next : (x.1.clock i).pendingInterrupt = x.1.latches i := by
      simp [Ints.clock, hbints, running, latches, pending]
    have handed : (x.1.hands i && x.1.intLoaded) = false := by
      cases stb : x.1.intStb <;> simp [hands, stb, ordinary]
    simp [next, handed]

theorem loaded_step : (if x.1.hands i && !x.1.intLoaded then [x.1.intWord] else []) ++
    (if (x.1.clock i).loaded then [(x.1.clock i).intWord] else []) =
      (if x.1.loaded then [x.1.intWord] else []) ++ if x.1.accepts i then [i.up.data] else [] := by
  obtain ⟨-, loaded, offered, -, -⟩ := regular
  cases held : x.1.loaded with
  | true =>
    obtain ⟨stb, int⟩ := loaded held
    cases busy : i.busy <;> simp [Ints.clock, hbints, running, hands, accepts, Ints.busy, held, stb, int, busy]
  | false =>
    have handed : (x.1.hands i && !x.1.intLoaded) = false := by
      cases stb : x.1.intStb <;> simp [hands, stb, offered, held]
    have next : (x.1.clock i).loaded = x.1.accepts i := by
      simp [Ints.clock, hbints, running, accepts, held]
    rw [handed, next]
    cases accepts : x.1.accepts i with
    | false => simp
    | true =>
      have word : (x.1.clock i).intWord = i.up.data := if_pos accepts
      simp [word]

end Balance

theorem balanced_step {x : Counted} (regular : Regular x.1) (balanced : Balanced x) (i : Inputs) :
    Balanced (x.step i) := by
  obtain ⟨interrupts, marked, words⟩ := balanced
  cases running : i.reset with
  | true => constructor <;> simp [step, running, Ledger.interrupts, Ledger.words, Ints.clock, hbints]
  | false =>
    have first : (x.step i).1 = x.1.clock i := rfl
    constructor
    · have one := pending_step regular running
      have latched : (x.step i).2.latched = x.2.latched + if x.1.latches i then 1 else 0 := by
        simp [step, running]
      rw [interrupts_step running, latched, first, List.length_append, apply_ite List.length]
      simp only [List.length_singleton, List.length_nil]
      omega
    · intro word member
      rw [interrupts_step running, List.mem_append] at member
      rcases member with before | now
      · exact marked word before
      · split_ifs at now with handed
        · rw [List.mem_singleton.mp now]
          exact regular.word (Bool.and_eq_true_iff.mp handed).2
        · exact absurd now List.not_mem_nil
    · have accepted : (x.step i).2.accepted = x.2.accepted ++ if x.1.accepts i then [i.up.data] else [] := by
        simp [step, running]
      rw [words_step running, accepted, first, List.append_assoc, loaded_step regular running, ← words,
        List.append_assoc]

/-- Interrupts and words balance and no interrupt is stuck. -/
def Reports (x : Counted) : Prop := Balanced x ∧ ¬ Stuck x.1

/-- Interrupts and words always balance; no interrupt is ever stuck exactly if every interrupt is
latched with an ordinary word that comes in, or behind one that is held up. -/
theorem reports_iff (is : List Inputs) :
    (∀ before, before <+: is → Reports (Clocked.run step start before)) ↔
      Clocked.Always step (fun x i => Covered x.1 i) start is := by
  have kept (x : Counted) (i : Inputs) (sound : Regular x.1 ∧ Balanced x) :
      Regular (x.step i).1 ∧ Balanced (x.step i) :=
    ⟨sound.1.clock i, balanced_step sound.1 sound.2 i⟩
  have exact (x : Counted) (i : Inputs) (sound : Regular x.1 ∧ Balanced x) (good : Reports x) :
      Reports (x.step i) ↔ Covered x.1 i := by
    rw [Reports, and_iff_right (balanced_step sound.1 sound.2 i)]
    exact sound.1.moves_iff good.2 i
  have balanced : Balanced start := by constructor <;> simp [start, Ledger.interrupts, Ledger.words, powerUp]
  exact Clocked.always_iff kept exact is ⟨regular_powerUp, balanced⟩ ⟨balanced, by simp [start, Stuck, powerUp]⟩

/-- An interrupt on an idle line. -/
def lone : List Inputs := [⟨false, true, ⟨false, 0⟩, false⟩]

/-- The interrupt is latched, and neither sent nor moved by any clock with an idle predecessor and a ready
successor. -/
theorem lone_interrupt_stuck : ¬ ∀ before, before <+: lone → Reports (Clocked.run step start before) := by
  intro reports
  have state : (Clocked.run step start lone).1 = ⟨true, true, false, false, true, interruptWord⟩ := by decide
  refine (reports lone (List.prefix_refl lone)).2 ⟨by rw [state], fun interrupt word => ?_⟩
  rw [state]
  simp [hbints, Ints.busy]

end Counted

end Ints

end IcoZip.Hexbus
