import IcoZip.Hexbus.Respond

/-! The two tops `hbbus` and `hbconsole`, on a bus whose slave answers from the
requests it has seen.

`hbbus` connects `i_wb_ack` and `i_wb_stall` to `hbexec` in the wrong order. The
tops are compared clock by clock: the relation below survives exactly those
clocks in which the exchange makes no difference.
-/

set_option autoImplicit false

namespace IcoZip.Hexbus

open Elastic (Offer)

/-- The registers of the response path. -/
abbrev Path (w : Nat) := (((Ints × Idle w) × Deword) × Genhex) × Newline

structure HbBus (w : Nat) where
  decoder : Decoder
  exec : Exec
  path : Path w
  deriving DecidableEq, Repr

structure HbConsole (w : Nat) where
  decoder : Decoder
  exec : Exec
  path : Console w
  consoleStb : Bool
  consoleData : BitVec 7
  deriving DecidableEq, Repr

/-- One clock of `hbbus`. -/
def hbbus {w : Nat} (s : HbBus w) (iRxStb : Bool) (iRxByte : BitVec 8) (iWbStall iWbAck : Bool)
    (iWbData : BitVec 32) (iWbErr iInterrupt iTxBusy : Bool) : HbBus w :=
  let reset := s.decoder.dec.reset
  let command := s.decoder.pack
  { decoder := s.decoder.step ⟨iRxStb, iRxByte⟩
    -- the ports of hbexec are i_wb_stall, i_wb_ack, i_wb_err
    exec := hbexec s.exec reset command.pckStb command.pckWord iWbAck iWbStall iWbErr iWbData
    path := (responsePath w reset).step s.path ((((iInterrupt, ()), ()), ()), ())
      ⟨s.exec.rspStb, s.exec.rspWord⟩ iTxBusy }

/-- One clock of `hbconsole`. -/
def hbconsole {w : Nat} (s : HbConsole w) (iRxStb : Bool) (iRxByte : BitVec 8)
    (iWbStall iWbAck iWbErr : Bool) (iWbData : BitVec 32) (iInterrupt iTxBusy iConsoleStb : Bool)
    (iConsoleData : BitVec 7) : HbConsole w :=
  let reset := s.decoder.dec.reset
  let command := s.decoder.pack
  { decoder := s.decoder.step ⟨iRxStb, iRxByte⟩
    exec := hbexec s.exec reset command.pckStb command.pckWord iWbStall iWbAck iWbErr iWbData
    path := (consolePath w reset).step s.path (((((iInterrupt, ()), ()), ()), ()), ⟨iConsoleStb, iConsoleData⟩)
      ⟨s.exec.rspStb, s.exec.rspWord⟩ iTxBusy
    consoleStb := iRxStb && !iRxByte.getLsbD 7
    consoleData := iRxByte.extractLsb' 0 7 }

namespace Tops

/-! ### On a bus -/

/-- What the slave sees in a clock. -/
structure Observation where
  cyc : Bool
  request : Option Exec.Request
  deriving DecidableEq, Repr

def observation (s : Exec) : Observation := ⟨s.wbCyc, if s.wbStb then some s.request else none⟩

structure Answer where
  stall : Bool
  ack : Bool
  err : Bool
  data : BitVec 32
  deriving DecidableEq, Repr

/-- A slave answers from everything it has seen, the clock itself included. -/
abbrev Slave := List Observation → Answer

/-- The inputs of a clock: one byte stream and interrupt for both tops, a transmitter for each. -/
structure Clock where
  rx : Rx
  interrupt : Bool
  busTxBusy : Bool
  consoleTxBusy : Bool
  consoleIn : Offer (BitVec 7)
  deriving DecidableEq, Repr

/-- A top and what its slave has seen. -/
abbrev OnBus (T : Type) := T × List Observation

/-- What the slave has seen once it has seen this clock. -/
def seen {T : Type} (exec : T → Exec) (s : OnBus T) : List Observation := s.2 ++ [observation (exec s.1)]

def busClock {w : Nat} (slave : Slave) (s : OnBus (HbBus w)) (i : Clock) : OnBus (HbBus w) :=
  let answer := slave (seen HbBus.exec s)
  (hbbus s.1 i.rx.stb i.rx.byte answer.stall answer.ack answer.data answer.err i.interrupt i.busTxBusy,
    seen HbBus.exec s)

def consoleClock {w : Nat} (slave : Slave) (s : OnBus (HbConsole w)) (i : Clock) : OnBus (HbConsole w) :=
  let answer := slave (seen HbConsole.exec s)
  (hbconsole s.1 i.rx.stb i.rx.byte answer.stall answer.ack answer.err answer.data i.interrupt
      i.consoleTxBusy i.consoleIn.stb i.consoleIn.data,
    seen HbConsole.exec s)

/-- A clock's share of the transactions: the request that the slave accepts, the completion that
`hbexec` recognises with its error flag and data, the response word. -/
structure Transaction where
  accepted : Option Exec.Request
  recognised : Option (Bool × BitVec 32)
  response : Option (BitVec 34)
  deriving DecidableEq, Repr

/-- The transactions of an `hbexec` whose ports carry `stall` and `ack`. -/
def transaction (s : Exec) (answer : Answer) (stall ack : Bool) : Transaction where
  accepted := if s.wbStb && !answer.stall then some s.request else none
  recognised :=
    if s.wbCyc && (answer.err || (ack && !(s.wbStb && stall))) then some (answer.err, answer.data) else none
  response := if s.rspStb then some s.rspWord else none

def busTransaction {w : Nat} (slave : Slave) (s : OnBus (HbBus w)) (_ : Clock) : List Transaction :=
  let answer := slave (seen HbBus.exec s)
  [transaction s.1.exec answer answer.ack answer.stall]

def consoleTransaction {w : Nat} (slave : Slave) (s : OnBus (HbConsole w)) (_ : Clock) : List Transaction :=
  let answer := slave (seen HbConsole.exec s)
  [transaction s.1.exec answer answer.stall answer.ack]

/-! ### When the exchange makes no difference -/

/-- In an open cycle stall equals ack, or an error ends a request that does not count. -/
def Exchangeable (s : Exec) (answer : Answer) : Prop :=
  s.wbCyc = true →
    answer.stall = answer.ack ∨ (answer.err = true ∧ (s.wbStb = false ∨ s.inc = false))

instance (s : Exec) (answer : Answer) : Decidable (Exchangeable s answer) :=
  inferInstanceAs (Decidable (s.wbCyc = true →
    answer.stall = answer.ack ∨ (answer.err = true ∧ (s.wbStb = false ∨ s.inc = false))))

/-- The registers agree, but for the data of a request that is not on the bus. -/
structure Agree (a b : Exec) : Prop where
  same : b = { a with wbData := b.wbData }
  data : a.wbStb = true → b.wbData = a.wbData
  cyc : a.wbStb = true → a.wbCyc = true

theorem Agree.request {a b : Exec} (agree : Agree a b) (stb : a.wbStb = true) : b.request = a.request := by
  rw [agree.same]
  simp [Exec.request, agree.data stb]

theorem Agree.observation {a b : Exec} (agree : Agree a b) : observation b = observation a := by
  have request := agree.request
  have cyc : b.wbCyc = a.wbCyc := by rw [agree.same]
  have stb : b.wbStb = a.wbStb := by rw [agree.same]
  cases offered : a.wbStb with
  | false => simp [Tops.observation, cyc, stb, offered]
  | true => simp [Tops.observation, cyc, stb, offered, request offered]

/-- One clock of `hbexec` with its stall and ack ports exchanged. -/
theorem Agree.step {a b : Exec} (agree : Agree a b) {answer : Answer} (fits : Exchangeable a answer)
    (reset stb : Bool) (word : BitVec 34) :
    Agree (hbexec a reset stb word answer.stall answer.ack answer.err answer.data)
      (hbexec b reset stb word answer.ack answer.stall answer.err answer.data) := by
  obtain ⟨same, data, cyc⟩ := agree
  obtain ⟨aCyc, aStb, aWe, aAddr, aData, aNew, aInc, aRsp, aWord⟩ := a
  obtain ⟨stall, ack, err, rdata⟩ := answer
  generalize b.wbData = bData at same data
  subst same
  simp only [Exchangeable] at fits data cyc
  constructor
  · cases aCyc <;> cases aStb <;> cases stall <;> cases ack <;> simp_all [hbexec]
  · cases aCyc <;> cases aStb <;> cases stall <;> cases ack <;> simp_all [hbexec]
  · cases aCyc <;> cases aStb <;> cases stall <;> cases ack <;> simp_all [hbexec]

theorem Agree.transaction {a b : Exec} (agree : Agree a b) {answer : Answer} (fits : Exchangeable a answer) :
    transaction a answer answer.stall answer.ack = transaction b answer answer.ack answer.stall := by
  have request := agree.request
  have registers : b.wbCyc = a.wbCyc ∧ b.wbStb = a.wbStb ∧ b.rspStb = a.rspStb ∧ b.rspWord = a.rspWord := by
    rw [agree.same]
    simp
  obtain ⟨cyc, stb, rspStb, rspWord⟩ := registers
  simp only [Tops.transaction, cyc, stb, rspStb, rspWord, Transaction.mk.injEq, and_true]
  constructor
  · cases offered : a.wbStb with
    | false => simp
    | true => simp [request offered]
  · cases cycle : a.wbCyc with
    | false => simp
    | true =>
      rcases fits cycle with equal | ⟨err, -⟩
      · simp [equal]
      · simp [err]

/-! ### Runs -/

/-- The tops agree, and their slaves have seen the same. -/
structure Related {w : Nat} (s : OnBus (HbConsole w)) (t : OnBus (HbBus w)) : Prop where
  decoder : s.1.decoder = t.1.decoder
  exec : Agree s.1.exec t.1.exec
  seen : s.2 = t.2

theorem Related.seen_eq {w : Nat} {s : OnBus (HbConsole w)} {t : OnBus (HbBus w)} (related : Related s t) :
    Tops.seen HbBus.exec t = Tops.seen HbConsole.exec s := by
  rw [Tops.seen, Tops.seen, related.seen, related.exec.observation]

/-- The condition on a clock of a run of `hbconsole`. -/
def Fits {w : Nat} (slave : Slave) (s : OnBus (HbConsole w)) (_ : Clock) : Prop :=
  Exchangeable s.1.exec (slave (seen HbConsole.exec s))

instance {w : Nat} (slave : Slave) (s : OnBus (HbConsole w)) (i : Clock) : Decidable (Fits slave s i) :=
  inferInstanceAs (Decidable (Exchangeable s.1.exec (slave (seen HbConsole.exec s))))

theorem related_step {w : Nat} {slave : Slave} {s : OnBus (HbConsole w)} {t : OnBus (HbBus w)} {i : Clock}
    (related : Related s t) (fits : Fits slave s i) :
    Related (consoleClock slave s i) (busClock slave t i) := by
  have same := related.seen_eq
  refine ⟨?_, ?_, ?_⟩
  · simp [consoleClock, busClock, hbconsole, hbbus, related.decoder]
  · simp only [consoleClock, busClock, hbconsole, hbbus, same, related.decoder]
    exact related.exec.step fits _ _ _
  · exact same.symm

theorem related_transaction {w : Nat} {slave : Slave} {s : OnBus (HbConsole w)} {t : OnBus (HbBus w)}
    {i : Clock} (related : Related s t) (fits : Fits slave s i) :
    consoleTransaction slave s i = busTransaction slave t i := by
  simp only [consoleTransaction, busTransaction, related.seen_eq, related.exec.transaction fits]

/-- Both tops start from the same registers, as at power-up, and neither slave has seen anything. -/
structure StartTogether {w : Nat} (s : OnBus (HbConsole w)) (t : OnBus (HbBus w)) : Prop where
  decoder : s.1.decoder = t.1.decoder
  exec : s.1.exec = t.1.exec
  cyc : s.1.exec.wbStb = true → s.1.exec.wbCyc = true
  seen : s.2 = t.2

/-- Along every run whose open cycles meet the condition the tops perform the same transactions,
clock by clock. -/
theorem tops_agree {w : Nat} (slave : Slave) (s : OnBus (HbConsole w)) (t : OnBus (HbBus w))
    (start : StartTogether s t) (is : List Clock)
    (fits : Clocked.Always (consoleClock slave) (Fits slave) s is) :
    Clocked.emitted (consoleClock slave) (consoleTransaction slave) s is =
      Clocked.emitted (busClock slave) (busTransaction slave) t is := by
  have related : Related s t := by
    refine ⟨start.decoder, ⟨?_, ?_, start.cyc⟩, start.seen⟩
    · rw [← start.exec]
    · rw [← start.exec]
      exact fun _ => rfl
  have kept (s : OnBus (HbConsole w)) (t : OnBus (HbBus w)) (i : Clock) (related : Related s t)
      (fits : Fits slave s i) : Related (consoleClock slave s i) (busClock slave t i) :=
    related_step related fits
  exact Clocked.emitted_congr kept (fun _ _ _ => related_transaction) related fits

/-! ### Slaves that tell them apart, and one that does not -/

/-- The registers at power-up; those without an initial value are zero. -/
def powerUpExec : Exec := ⟨false, false, false, 0, 0, false, false, true, rspReset⟩

def powerUpConsole : OnBus (HbConsole 23) :=
  (⟨Decoder.initial 0, powerUpExec, Console.powerUp, false, 0⟩, [])

def powerUpBus : OnBus (HbBus 23) := (⟨Decoder.initial 0, powerUpExec, Console.powerUp.1⟩, [])

/-- A received byte, or none. -/
def receive (stb : Bool) (byte : BitVec 8) : Clock := ⟨⟨stb, byte⟩, false, false, false, ⟨false, 0⟩⟩

/-- `R` and a newline, then six clocks. -/
def readOnce : List Clock :=
  receive true 0x52 :: receive true 0x0a :: List.replicate 6 (receive false 0)

/-- Whether the slave sees a request in the clock. -/
def requesting (history : List Observation) : Bool :=
  match history.getLast? with
  | some last => last.request.isSome
  | none => false

/-- Never stalls, acknowledges in the clock after the request. -/
def promptSlave : Slave := fun history => ⟨false, requesting history.dropLast, false, 7⟩

/-- Stalls while it acknowledges, in the clocks without a request. -/
def stallingSlave : Slave := fun history => ⟨!requesting history, !requesting history, false, 7⟩

theorem tops_agree_stalling :
    Clocked.emitted (consoleClock stallingSlave) (consoleTransaction stallingSlave) powerUpConsole readOnce =
      Clocked.emitted (busClock stallingSlave) (busTransaction stallingSlave) powerUpBus readOnce :=
  tops_agree stallingSlave powerUpConsole powerUpBus ⟨rfl, rfl, by decide, rfl⟩ readOnce (by decide)

/-- On a slave that never stalls `hbbus` waits forever: it takes the stall line for the
acknowledgement. -/
theorem tops_disagree :
    (Clocked.emitted (consoleClock promptSlave) (consoleTransaction promptSlave) powerUpConsole
      readOnce).filterMap (·.response) = [rspReset, rspReset, rspData 7] ∧
    (Clocked.emitted (busClock promptSlave) (busTransaction promptSlave) powerUpBus
      readOnce).filterMap (·.response) = [rspReset, rspReset] := by
  decide

end Tops

end IcoZip.Hexbus
