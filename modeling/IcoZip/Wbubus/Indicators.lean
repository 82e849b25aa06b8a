import IcoZip.Library.Clocked
import IcoZip.Wbubus.Compress

/-! `wbuidleint`, which puts interrupt, idle and bus-busy codewords between the others.

What is in the output register is told apart beside it: a codeword that came in,
an interrupt, or one that says that nothing happens.
-/

set_option autoImplicit false

namespace IcoZip.Wbubus

/-- With `IDLEBITS` bits to count to. -/
structure Wbuidleint (idlebits : Nat) where
  intRequest : Bool
  idleCounter : BitVec idlebits
  idleState : Bool
  stb : Bool
  codword : BitVec 36
  intSent : Bool
  deriving DecidableEq

def cwInterrupt : BitVec 36 := 0x4#6 ++ 0#30
def cwBusbusy : BitVec 36 := 0x1#6 ++ 0#30
def cwIdle : BitVec 36 := 0x0#6 ++ 0#30

/-- Where a codeword comes from. -/
inductive Source where
  | accepted
  | interrupt
  | idle
  deriving DecidableEq

/-- How a codeword begins that has been inserted. -/
def Source.Begins (codeword : BitVec 36) : Source → Prop
  | .accepted => True
  | .interrupt => firstSymbol codeword = firstSymbol cwInterrupt
  | .idle => firstSymbol codeword = firstSymbol cwIdle ∨ firstSymbol codeword = firstSymbol cwBusbusy

namespace Wbuidleint

structure Inputs where
  stb : Bool
  codword : BitVec 36
  cyc : Bool
  busy : Bool
  int : Bool
  txBusy : Bool

variable {b : Nat}

section
variable (s : Wbuidleint b) (i : Inputs)

def idleExpired : Bool := !s.idleState && s.idleCounter.msb

def oBusy : Bool := s.stb

def clock : Wbuidleint b where
  intRequest :=
    if i.int then true
    else if s.stb && !i.txBusy && firstSymbol s.codword == firstSymbol cwInterrupt then false
    else s.intRequest
  idleCounter :=
    if i.stb || s.stb || i.busy then 0
    else if !s.idleCounter.msb then s.idleCounter + 1
    else s.idleCounter
  idleState :=
    if s.stb && !i.txBusy && firstSymbol s.codword == firstSymbol cwIdle then true
    else if !s.idleCounter.msb then false
    else s.idleState
  stb :=
    if !s.stb || !i.txBusy then if i.stb then true else !s.stb && (s.intRequest || s.idleExpired)
    else s.stb
  codword :=
    if !s.stb || !i.txBusy then
      if i.stb then i.codword
      else if s.intRequest && !s.intSent then firstSymbol cwInterrupt ++ s.codword.extractLsb' 0 30
      else (if i.cyc then firstSymbol cwBusbusy else firstSymbol cwIdle) ++ s.codword.extractLsb' 0 30
    else s.codword
  intSent :=
    if s.intRequest && (!s.stb && !s.oBusy && !i.stb) then true
    else if !i.int then false
    else s.intSent

/-- The codeword that goes into the output register in this clock. -/
def puts : Option Source :=
  if !s.stb || !i.txBusy then
    if i.stb then some .accepted
    else if !s.stb && (s.intRequest || s.idleExpired) then
      if s.intRequest && !s.intSent then some .interrupt else some .idle
    else none
  else none

end

/-- The registers, where the codeword in the output register comes from, and `i_int` of the clock before. -/
structure Bench (b : Nat) where
  core : Wbuidleint b
  source : Source
  int : Bool

def Bench.powerUp (codword : BitVec 36) : Bench b := ⟨⟨false, 0, false, false, codword, false⟩, .accepted, false⟩

variable (x : Bench b) (i : Inputs)

def step : Bench b := ⟨x.core.clock i, (x.core.puts i).getD x.source, i.int⟩

def hands : Bool := x.core.stb && !i.txBusy

/-- An interrupt codeword goes downstream. -/
def tells : Bool := hands x i && x.source == .interrupt

def rises : Bool := i.int && !x.int

/-- The idle timer runs out. -/
def expires : Bool := !x.core.idleCounter.msb && (x.core.clock i).idleCounter.msb

def fills : Bool := x.core.puts i == some .idle

/-- What comes out, with what it is. -/
def downstream : List (Source × BitVec 36) := if hands x i then [(x.source, x.core.codword)] else []

def accepts : List (BitVec 36) := if x.core.puts i = some .accepted then [i.codword] else []

/-- The codewords among them that came in. -/
def passed (words : List (Source × BitVec 36)) : List (BitVec 36) :=
  words.filterMap fun w => if w.1 = .accepted then some w.2 else none

/-- The codeword that came in and is still here. -/
def held : List (BitVec 36) := if x.core.stb = true ∧ x.source = .accepted then [x.core.codword] else []

/-- The number of clocks of a run in which something happens. -/
def count (event : Bench b → Inputs → Bool) : Bench b → List Inputs → Nat
  | _, [] => 0
  | x, i :: is => (event x i).toNat + count event (step x i) is

/-- `i_int` rises only when the codeword of the period before has gone downstream, or goes with it. -/
def Separated : Bool → Bench b → List Inputs → Prop
  | _, _, [] => True
  | due, x, i :: is =>
    (rises x i = true → due = false ∨ tells x i = true) ∧ Separated (rises x i || due && !tells x i) (step x i) is

/-- Codewords come when there is room for them. -/
def Offered : Prop := i.stb = true → x.core.oBusy = false

/-- An interrupt codeword does not go downstream while `i_int` has been high since it was put up, and a
codeword that came in and begins like one does not go while an interrupt is waiting and `i_int` is low.
-/
structure Clear : Prop where
  released : tells x i = true → i.int = true → x.core.intSent = false
  distinct : hands x i = true → x.source = .accepted → firstSymbol x.core.codword = firstSymbol cwInterrupt →
    x.core.intRequest = true → i.int = true

instance (x : Bench b) (i : Inputs) : Decidable (Offered x i) := inferInstanceAs (Decidable (_ → _))

instance (x : Bench b) (i : Inputs) : Decidable (Clear x i) :=
  decidable_of_iff ((tells x i = true → i.int = true → x.core.intSent = false) ∧ (hands x i = true →
    x.source = .accepted → firstSymbol x.core.codword = firstSymbol cwInterrupt → x.core.intRequest = true →
      i.int = true)) ⟨fun h => ⟨h.1, h.2⟩, fun h => ⟨h.released, h.distinct⟩⟩

/-- What is inserted along a run. -/
structure Proper (is : List Inputs) : Prop where
  delivered : passed (Clocked.emitted step downstream x is) ++ held (Clocked.run step x is) =
    Clocked.emitted step accepts x is
  begins : ∀ w ∈ Clocked.emitted step downstream x is, w.1.Begins w.2
  interrupts : ∀ before after, is = before ++ after → (Clocked.run step x before).core.intRequest = false →
    Separated false (Clocked.run step x before) after →
      count tells (Clocked.run step x before) after + (Clocked.run step x is).core.intRequest.toNat =
        count rises (Clocked.run step x before) after
  prompt : Clocked.Always step (fun x i => x.core.intRequest = true → x.core.stb = false → i.stb = false →
    x.core.puts i = some .interrupt) x is
  expired : Clocked.Always step (fun x i => x.core.puts i = some .idle → x.core.idleExpired = true) x is
  once : count fills x is ≤ count expires x is

/-! ### The registers -/

/-- What is known of the output register. -/
structure Regular : Prop where
  sent : x.core.intSent = true → x.core.stb = true ∧ x.source = .interrupt
  waiting : x.core.stb = true → x.source = .interrupt → x.core.intRequest = true
  begins : x.core.stb = true → x.source.Begins x.core.codword
  level : x.int = true → x.core.intRequest = true

variable {x i}

theorem first_append (first : BitVec 6) (rest : BitVec 30) : firstSymbol (first ++ rest) = first :=
  BitVec.extractLsb'_append_eq_left

theorem Regular.powerUp (codword : BitVec 36) : Regular (Bench.powerUp codword : Bench b) := by
  constructor <;> exact fun no => absurd no Bool.false_ne_true

theorem Regular.interrupt (regular : Regular x) (waits : x.core.stb = true) (own : x.source = .interrupt) :
    firstSymbol x.core.codword = firstSymbol cwInterrupt := by
  have begins := regular.begins waits
  rwa [own] at begins

/-- What says that nothing happens is not taken for an interrupt. -/
theorem Regular.idle (regular : Regular x) (waits : x.core.stb = true) (own : x.source = .idle) :
    firstSymbol x.core.codword ≠ firstSymbol cwInterrupt := by
  have begins := regular.begins waits
  rw [own] at begins
  rcases begins with begins | begins <;> rw [begins] <;> decide

/-- A register that has something waits for its successor, or is emptied before it is used again. -/
theorem stb_clock (offered : Offered x i) : (x.core.clock i).stb =
    if x.core.stb then i.txBusy else i.stb || x.core.intRequest || x.core.idleExpired := by
  unfold Offered oBusy at offered
  simp only [clock]
  cases stb : x.core.stb <;> cases i.txBusy <;> cases asked : i.stb <;> simp_all

theorem puts_busy (offered : Offered x i) (busy : x.core.stb = true) : x.core.puts i = none := by
  unfold Offered oBusy at offered
  have quiet : i.stb = false := by
    by_contra asked
    rw [offered (Bool.not_eq_false _ ▸ asked)] at busy
    exact Bool.false_ne_true busy
  simp [puts, busy, quiet]

theorem puts_free (free : x.core.stb = false) : x.core.puts i =
    if i.stb then some .accepted
    else if x.core.intRequest || x.core.idleExpired then
      if x.core.intRequest && !x.core.intSent then some .interrupt else some .idle
    else none := by
  simp [puts, free]

theorem codword_busy (busy : x.core.stb = true) (waits : i.txBusy = true) : (x.core.clock i).codword = x.core.codword := by
  simp [clock, busy, waits]

theorem codword_free (free : x.core.stb = false) : (x.core.clock i).codword =
    if i.stb then i.codword
    else if x.core.intRequest && !x.core.intSent then firstSymbol cwInterrupt ++ x.core.codword.extractLsb' 0 30
    else (if i.cyc then firstSymbol cwBusbusy else firstSymbol cwIdle) ++ x.core.codword.extractLsb' 0 30 := by
  simp [clock, free]

theorem source_busy (offered : Offered x i) (busy : x.core.stb = true) : (step x i).source = x.source := by
  simp [step, puts_busy offered busy]

theorem stb_busy (offered : Offered x i) (busy : x.core.stb = true) : (step x i).core.stb = i.txBusy := by
  simp [step, stb_clock offered, busy]

theorem stb_free (offered : Offered x i) (free : x.core.stb = false) :
    (step x i).core.stb = (i.stb || x.core.intRequest || x.core.idleExpired) := by
  simp [step, stb_clock offered, free]

/-- With nothing in the register no interrupt codeword has been sent. -/
theorem Regular.unsent (regular : Regular x) (free : x.core.stb = false) : x.core.intSent = false := by
  by_contra sent
  rw [(regular.sent (Bool.not_eq_false _ ▸ sent)).1] at free
  exact Bool.false_ne_true free.symm

theorem sent_busy (busy : x.core.stb = true) : (step x i).core.intSent = (i.int && x.core.intSent) := by
  simp only [step, clock, busy, Bool.not_true, Bool.false_and, Bool.and_false, Bool.false_eq_true, if_false]
  cases i.int <;> rfl

theorem Regular.sent_free (regular : Regular x) (free : x.core.stb = false) :
    (Wbuidleint.step x i).core.intSent = (x.core.intRequest && !i.stb) := by
  simp [Wbuidleint.step, clock, oBusy, free, regular.unsent free]

theorem request_clock : (x.core.clock i).intRequest =
    (i.int || x.core.intRequest && !(hands x i && firstSymbol x.core.codword == firstSymbol cwInterrupt)) := by
  simp only [clock, hands]
  cases i.int <;> cases x.core.intRequest <;>
    cases x.core.stb && !i.txBusy && firstSymbol x.core.codword == firstSymbol cwInterrupt <;> rfl

/-- A codeword that stays, or goes. -/
theorem Regular.busy (regular : Regular x) (offered : Offered x i) (clear : Clear x i) (busy : x.core.stb = true) :
    Regular (step x i) := by
  have source := source_busy offered busy
  have stb := stb_busy offered busy
  have sent : (step x i).core.intSent = (i.int && x.core.intSent) := sent_busy busy
  constructor
  · rw [sent, stb, source, Bool.and_eq_true]
    -- a clock without defect: while `i_int` is high, a codeword that is sent stays
    rintro ⟨high, before⟩
    have own := (regular.sent before).2
    refine ⟨?_, own⟩
    by_contra goes
    have tells : tells x i = true := by simp [tells, hands, busy, eq_false_of_ne_true goes, own]
    rw [clear.released tells high] at before
    exact Bool.false_ne_true before
  · rw [stb, source]
    intro waits own
    have stays : hands x i = false := by simp [hands, waits]
    change (x.core.clock i).intRequest = true
    rw [request_clock, stays, regular.waiting busy own]
    simp
  · rw [stb, source]
    intro waits
    have same : (step x i).core.codword = x.core.codword := codword_busy busy waits
    rw [same]
    exact regular.begins busy
  · intro high
    change (x.core.clock i).intRequest = true
    rw [request_clock, show i.int = true from high, Bool.true_or]

/-- A codeword that is put up, or none. -/
theorem Regular.free (regular : Regular x) (offered : Offered x i) (free : x.core.stb = false) : Regular (step x i) := by
  have unsent := regular.unsent free
  have source : (step x i).source = (x.core.puts i).getD x.source := rfl
  have stb := stb_free offered free
  have codword : (step x i).core.codword = (x.core.clock i).codword := rfl
  have request : (step x i).core.intRequest = (i.int || x.core.intRequest) := by
    change (x.core.clock i).intRequest = _
    have stays : hands x i = false := by simp [hands, free]
    rw [request_clock, stays]
    simp
  have sent := regular.sent_free (i := i) free
  rw [puts_free free, unsent] at source
  rw [codword_free free, unsent] at codword
  constructor
  · rw [sent, stb, source, Bool.and_eq_true]
    rintro ⟨asked, quiet⟩
    simp_all
  · rw [stb, source, request]
    cases i.stb <;> cases x.core.intRequest <;> cases x.core.idleExpired <;> simp
  · rw [stb, source, codword]
    cases i.stb <;> cases x.core.intRequest <;> cases x.core.idleExpired <;> cases i.cyc <;>
      simp [Source.Begins, first_append]
  · intro high
    rw [request, show i.int = true from high, Bool.true_or]

theorem Regular.step (regular : Regular x) (offered : Offered x i) (clear : Clear x i) : Regular (step x i) := by
  cases busy : x.core.stb with
  | true => exact regular.busy offered clear busy
  | false => exact regular.free offered busy

/-! ### Codewords -/

theorem passed_append (a b : List (Source × BitVec 36)) : passed (a ++ b) = passed a ++ passed b :=
  List.filterMap_append

theorem begins_downstream (regular : Regular x) : ∀ w ∈ downstream x i, w.1.Begins w.2 := by
  intro w member
  rw [downstream] at member
  split_ifs at member with hands
  · rw [List.mem_singleton.mp member]
    exact regular.begins (Bool.and_eq_true_iff.mp hands).1
  · exact absurd member List.not_mem_nil

/-- What comes in goes out. -/
theorem held_step (offered : Offered x i) :
    passed (downstream x i) ++ held (Wbuidleint.step x i) = held x ++ accepts x i := by
  cases busy : x.core.stb with
  | true =>
    have none := puts_busy offered busy
    have stb := stb_busy offered busy
    have source := source_busy offered busy
    rw [held, held, stb, source]
    cases waits : i.txBusy with
    | true =>
      have codword : (Wbuidleint.step x i).core.codword = x.core.codword := codword_busy busy waits
      simp [downstream, hands, waits, passed, accepts, none, codword, busy]
    | false => by_cases own : x.source = .accepted <;> simp [downstream, hands, waits, passed, accepts, none, own, busy]
  | false =>
    have stb := stb_free offered busy
    have source : (Wbuidleint.step x i).source = (x.core.puts i).getD x.source := rfl
    have codword : (Wbuidleint.step x i).core.codword = (x.core.clock i).codword := rfl
    rw [codword_free busy] at codword
    rw [held, held, stb, source, codword, accepts, puts_free busy]
    cases i.stb <;> cases x.core.intRequest <;> cases x.core.idleExpired <;> cases x.core.intSent <;>
      simp [downstream, hands, busy, passed]

/-! ### Interrupts -/

/-- An interrupt codeword in the register has been there since `i_int` went up, or `i_int` is low. -/
def Fresh (x : Bench b) : Prop :=
  x.core.stb = true → x.source = .interrupt → x.core.intSent = true ∨ x.int = false

theorem Regular.fresh (regular : Regular x) (none : x.core.intRequest = false) : Fresh x := by
  intro busy own
  rw [regular.waiting busy own] at none
  exact absurd none.symm Bool.false_ne_true

theorem Fresh.step (fresh : Fresh x) (regular : Regular x) (offered : Offered x i)
    (separated : rises x i = true → x.core.intRequest = false ∨ tells x i = true) : Fresh (step x i) := by
  cases busy : x.core.stb with
  | true =>
    have source := source_busy offered busy
    have stb := stb_busy offered busy
    have sent : (Wbuidleint.step x i).core.intSent = (i.int && x.core.intSent) := sent_busy busy
    unfold Fresh
    rw [source, stb, sent]
    intro waits own
    cases high : i.int with
    | false => exact .inr high
    | true =>
      have stays : tells x i = false := by simp [tells, hands, waits]
      have waiting := regular.waiting busy own
      -- a rise here would be one before the codeword has gone
      have before : ¬ x.int = false := by
        intro low
        have rise : rises x i = true := by simp [rises, high, low]
        rcases separated rise with none | gone
        · rw [waiting] at none
          exact Bool.false_ne_true none.symm
        · rw [stays] at gone
          exact Bool.false_ne_true gone
      exact .inl ((Bool.true_and _).trans ((fresh busy own).resolve_right before))
  | false =>
    have source : (Wbuidleint.step x i).source = (x.core.puts i).getD x.source := rfl
    have stb := stb_free offered busy
    have sent := regular.sent_free (i := i) busy
    rw [puts_free busy] at source
    unfold Fresh
    rw [source, stb, sent]
    cases i.stb <;> cases x.core.intRequest <;> cases x.core.idleExpired <;> simp

/-- A period of `i_int` is answered by one codeword. -/
theorem tells_once (regular : Regular x) (clear : Clear x i) (fresh : Fresh x)
    (separated : rises x i = true → x.core.intRequest = false ∨ tells x i = true) :
    (step x i).core.intRequest = (rises x i || x.core.intRequest && !tells x i) ∧
      (tells x i).toNat + (step x i).core.intRequest.toNat = x.core.intRequest.toNat + (rises x i).toNat := by
  have request : (step x i).core.intRequest = (i.int || x.core.intRequest &&
      !(hands x i && firstSymbol x.core.codword == firstSymbol cwInterrupt)) := request_clock
  cases goes : hands x i with
  | false =>
    have stays : tells x i = false := by simp [tells, goes]
    have level := regular.level
    rw [request, stays, goes]
    cases high : i.int <;> cases before : x.int <;> cases waiting : x.core.intRequest <;>
      simp_all [rises]
  | true =>
    have busy : x.core.stb = true := by
      unfold hands at goes
      exact (Bool.and_eq_true_iff.mp goes).1
    -- only an interrupt codeword takes the request away
    cases own : x.source with
    | interrupt =>
      have told : tells x i = true := by simp [tells, goes, own]
      have first := regular.interrupt busy own
      have waiting := regular.waiting busy own
      have late : i.int = true → x.int = false := fun high =>
        (fresh busy own).resolve_left (by rw [clear.released told high]; exact Bool.false_ne_true)
      rw [request, told, goes, first, waiting]
      cases high : i.int <;> cases before : x.int <;> simp_all [rises]
    | idle =>
      have stays : tells x i = false := by simp [tells, own]
      have first := regular.idle busy own
      have level := regular.level
      rw [request, stays, goes]
      cases high : i.int <;> cases before : x.int <;> cases waiting : x.core.intRequest <;> simp_all [rises]
    | accepted =>
      have stays : tells x i = false := by simp [tells, own]
      have distinct := clear.distinct goes own
      have level := regular.level
      rw [request, stays, goes]
      by_cases first : firstSymbol x.core.codword = firstSymbol cwInterrupt <;>
        cases high : i.int <;> cases before : x.int <;> cases waiting : x.core.intRequest <;> simp_all [rises]

theorem tells_periods (after : List Inputs) (x : Bench b) (regular : Regular x) (fresh : Fresh x)
    (offered : Clocked.Always step Offered x after) (clear : Clocked.Always step Clear x after)
    (separated : Separated x.core.intRequest x after) :
    count tells x after + (Clocked.run step x after).core.intRequest.toNat =
      x.core.intRequest.toNat + count rises x after := by
  induction after generalizing x with
  | nil => exact Nat.zero_add _
  | cons i is ih =>
    obtain ⟨next, law⟩ := tells_once regular clear.1 fresh separated.1
    have later := separated.2
    rw [← next] at later
    have rest := ih (step x i) (regular.step offered.1 clear.1) (fresh.step regular offered.1 separated.1) offered.2
      clear.2 later
    rw [count, count, Clocked.run_cons]
    omega

/-! ### Idle codewords -/

theorem Regular.idle_expired (regular : Regular x) (offered : Offered x i) (puts : x.core.puts i = some .idle) :
    x.core.stb = false ∧ x.core.idleExpired = true := by
  cases busy : x.core.stb with
  | true =>
    rw [puts_busy offered busy] at puts
    exact absurd puts.symm (Option.some_ne_none _)
  | false =>
    rw [puts_free busy, regular.unsent busy] at puts
    refine ⟨rfl, ?_⟩
    revert puts
    cases i.stb <;> cases x.core.intRequest <;> cases x.core.idleExpired <;> simp

/-- The timer has run out, and the register is free for a codeword that says so. -/
def ready (x : Bench b) : Bool := x.core.idleCounter.msb && !x.core.stb

theorem fills_once (regular : Regular x) (offered : Offered x i) :
    (fills x i).toNat + (ready (step x i)).toNat ≤ (ready x).toNat + (expires x i).toNat := by
  cases busy : x.core.stb with
  | true =>
    have none : fills x i = false := by simp [fills, puts_busy offered busy]
    have counter : (step x i).core.idleCounter = 0 := by simp [step, clock, busy]
    simp [none, ready, counter]
  | false =>
    have stb := stb_free offered busy
    by_cases fills : fills x i = true
    · obtain ⟨_, expired⟩ := regular.idle_expired offered (beq_iff_eq.mp fills)
      have top : x.core.idleCounter.msb = true := (Bool.and_eq_true_iff.mp expired).2
      simp [ready, stb, expired, top, busy, fills]
    · rw [eq_false_of_ne_true fills]
      have counter : (x.core.clock i).idleCounter = (step x i).core.idleCounter := rfl
      simp only [ready, expires, counter, busy]
      cases x.core.idleCounter.msb <;> cases (step x i).core.idleCounter.msb <;> cases (step x i).core.stb <;> decide

theorem fills_expiries (is : List Inputs) (x : Bench b) (regular : Regular x)
    (offered : Clocked.Always step Offered x is) (clear : Clocked.Always step Clear x is) :
    count fills x is + (ready (Clocked.run step x is)).toNat ≤ (ready x).toNat + count expires x is := by
  induction is generalizing x with
  | nil => exact Nat.le_of_eq (Nat.add_comm _ _)
  | cons i is ih =>
    have law := fills_once regular offered.1
    have rest := ih (step x i) (regular.step offered.1 clear.1) offered.2 clear.2
    rw [count, count, Clocked.run_cons]
    omega

/-- `wbuidleint` inserts what it should while each interrupt codeword that goes downstream finds `i_int` low
again, and no codeword that comes in is taken for it.
-/
theorem inserts (codword : BitVec 36) (is : List Inputs)
    (offered : Clocked.Always step Offered (Bench.powerUp codword : Bench b) is)
    (clear : Clocked.Always step Clear (Bench.powerUp codword : Bench b) is) :
    Proper (Bench.powerUp codword : Bench b) is := by
  have start := Regular.powerUp (b := b) codword
  have kept (x : Bench b) (i : Inputs) (regular : Regular x) (ok : Offered x i ∧ Clear x i) : Regular (step x i) :=
    regular.step ok.1 ok.2
  have both := offered.and clear
  have always := Clocked.Always.with_invariant kept start both
  refine ⟨?_, ?_, ?_, ?_, ?_, ?_⟩
  · rw [Clocked.emitted_hom rfl passed_append]
    have law (x : Bench b) (i : Inputs) (_ : Regular x) (ok : Offered x i ∧ Clear x i) :
        passed (downstream x i) ++ held (step x i) = held x ++ accepts x i := held_step ok.1
    exact Clocked.conservation kept law start both
  · exact Clocked.emitted_forall kept (fun x i regular _ => begins_downstream regular) start both
  · rintro before after rfl none separated
    obtain ⟨offered₁, offered₂⟩ := (Clocked.always_append _ _ _ _).mp offered
    obtain ⟨clear₁, clear₂⟩ := (Clocked.always_append _ _ _ _).mp clear
    have regular := Clocked.run_invariant kept start (offered₁.and clear₁)
    have law := tells_periods after _ regular (regular.fresh none) offered₂ clear₂ (by rw [none]; exact separated)
    rw [none] at law
    rw [Clocked.run_append]
    exact law.trans (Nat.zero_add _)
  · refine always.mono fun x i ok asked free quiet => ?_
    rw [puts_free free, quiet, asked, ok.1.unsent free]
    rfl
  · exact always.mono fun x i ok puts => (ok.1.idle_expired ok.2.1 puts).2
  · have law := fills_expiries is _ start offered clear
    have none : ready (Bench.powerUp codword : Bench b) = false := by simp [ready, Bench.powerUp]
    rw [none, Bool.toNat_false, Nat.zero_add] at law
    exact Nat.le_trans (Nat.le_add_right _ _) law

/-- Nothing but `i_int`. -/
def Inputs.only (int : Bool) : Inputs := ⟨false, 0, false, false, int, false⟩

/-- A codeword comes in while an interrupt does, and waits for the transmitter; the interrupt's codeword follows, and
then the timer, of two bits, runs out in a bus cycle. -/
theorem inserts_short :
    let word : BitVec 36 := 0x2#6 ++ 5#30
    let is : List Inputs := [⟨true, word, false, false, true, false⟩, ⟨false, 0, false, false, false, true⟩,
      .only false, .only false, ⟨false, 0, true, false, false, true⟩, ⟨false, 0, true, false, false, false⟩] ++
      List.replicate 4 ⟨false, 0, true, false, false, false⟩
    Proper (Bench.powerUp 0 : Bench 2) is ∧
      (Clocked.emitted step downstream (Bench.powerUp 0 : Bench 2) is).map Prod.fst =
        [.accepted, .interrupt, .idle] := by
  intro word is
  exact ⟨inserts 0 is (by decide) (by decide), by decide⟩

/-- An interrupt that is still there when its codeword goes downstream: a codeword for idle times follows, though
the timer has just started, and another one for the interrupt.
-/
theorem inserts_twice : let is : List Inputs := List.replicate 3 (.only true) ++ List.replicate 4 (.only false)
    Clocked.Always step Offered (Bench.powerUp 0 : Bench 31) is ∧ ¬ Proper (Bench.powerUp 0 : Bench 31) is ∧
      count tells (Bench.powerUp 0 : Bench 31) is = 2 ∧ count rises (Bench.powerUp 0 : Bench 31) is = 1 := by
  refine ⟨by decide, fun proper => ?_, by decide, by decide⟩
  have expired := proper.expired
  revert expired
  decide

end Wbuidleint

end IcoZip.Wbubus
