import IcoZip.Zipcore.DebugPort

/-! What the host's programs do to stop, read and load the CPU, through the debug
port as `main.v` wires it.

A program of the host is a sequence of accesses, each of which is answered before
the next. When it goes on, and what else is on the lines of the bus while it does
not, is left open, and so is all that happens around the CPU.
-/

set_option autoImplicit false

namespace IcoZip.Zipcore

/-! ### The programs -/

/-- What a program does on the bus, up to where it returns or exits. -/
inductive Script (α : Type) where
  | done (result : α)
  | exit_failure
  | writeio (addr value : BitVec 32) (next : Script α)
  | readio (addr : BitVec 32) (next : BitVec 32 → Script α)

namespace Script
variable {α : Type}

def R_ZIPCTRL : BitVec 32 := 0x04000000

def R_ZIPDATA : BitVec 32 := 0x04000004

def CPU_GO : BitVec 32 := 0x0000

def CPU_STALL : BitVec 32 := 0x0200

def CPU_HALT : BitVec 32 := 0x0400

def CPU_CLRCACHE : BitVec 32 := 0x0800

def CPU_sPC : BitVec 32 := 0x000f

abbrev MAXERR : Nat := 1000

/-- The loop of `cmd_read` and what follows it, with the errors that are left to count. -/
def poll : Nat → Script (BitVec 32)
  | 0 => .readio R_ZIPCTRL fun _ => .exit_failure
  | left + 1 => .readio R_ZIPCTRL fun s =>
      if s &&& CPU_STALL = 0 then poll left else .readio R_ZIPDATA fun v => .done v

/-- `cmd_read` of `zipstate`. -/
def cmd_read (r : BitVec 32) : Script (BitVec 32) :=
  .writeio R_ZIPCTRL (CPU_HALT ||| r &&& 0x03f#32) (poll MAXERR)

/-- The loop that clears the registers from `i` on. -/
def clearRegisters (next : Script α) : Nat → Nat → Script α
  | _, 0 => next
  | i, left + 1 =>
      .writeio R_ZIPCTRL (CPU_HALT ||| BitVec.ofNat 32 i) <| .writeio R_ZIPDATA 0 <| clearRegisters next (i + 1) left

/-- How `zipload` starts the CPU, once the program is in memory. -/
def zipload (entry : BitVec 32) (start_when_finished : Bool) : Script Unit :=
  clearRegisters
    (.writeio R_ZIPCTRL (CPU_HALT ||| CPU_CLRCACHE) <|
      .writeio R_ZIPCTRL (CPU_HALT ||| CPU_sPC) <|
        .writeio R_ZIPDATA entry <|
          if start_when_finished then .writeio R_ZIPCTRL (CPU_GO ||| CPU_sPC) (.done ()) else .done ())
    0 32

/-- The program goes on with what a read has answered. -/
def answered (data : BitVec 32) : Script α → Script α
  | .writeio _ _ next => next
  | .readio _ next => next data
  | p => p

/-- The program has nothing to ask for any more. -/
def ended : Script α → Bool
  | .done _ | .exit_failure => true
  | _ => false

end Script

/-! ### The bus -/

/-- Where the host is with the access that its program comes to. -/
inductive Host (α : Type) where
  | idle (program : Script α)
  | asking (program : Script α)
  | waiting (program : Script α)

/-- What is left open in a clock: whether the host goes on, the lines of the bus where it does not drive
them, and what the CPU gets from outside. -/
structure Around (aw : Nat) where
  go : Bool
  we : Bool
  addr : BitVec 32
  data : BitVec 32
  sel : BitVec 4
  extInt : Bool
  units : Zipbones.Units aw

/-- The one bit of the address that `main.v` hands to `i_dbg_addr`. -/
def debugWord (addr : BitVec 32) : BitVec 6 := (addr.extractLsb' 2 1).setWidth 6

namespace Host
variable {α : Type} {aw : Nat}

/-- The port's inputs. -/
def drives (h : Host α) (e : Around aw) : Port.Inputs :=
  let off : Port.Inputs := ⟨false, false, false, e.we, debugWord e.addr, e.data, e.sel, e.extInt⟩
  match h with
  | .idle _ => off
  | .asking (.writeio addr value _) => ⟨false, true, true, true, debugWord addr, value, 0xf#4, e.extInt⟩
  | .asking (.readio addr _) => ⟨false, true, true, false, debugWord addr, e.data, 0xf#4, e.extInt⟩
  | .asking _ => off
  | .waiting _ => { off with dbgCyc := true }

/-- What the program has returned. -/
def returned : Host α → Option α
  | .idle (.done result) => some result
  | _ => none

/-- One clock of the host. -/
def clock (h : Host α) (stall ack : Bool) (data : BitVec 32) (go : Bool) : Host α :=
  match h with
  | .idle p => if go && !p.ended then .asking p else .idle p
  | .asking p => if stall then .asking p else .waiting p
  | .waiting p => if ack then .idle (p.answered data) else .waiting p

end Host

/-- A program of the host, and the CPU with its debug port. -/
structure Session (α : Type) (aw : Nat) where
  host : Host α
  zip : Zipbones aw

namespace Session
variable {α : Type} {aw : Nat} (b : Build aw) (startHalted : Bool) (x : Session α aw) (e : Around aw)

def inputs : Port.Inputs := x.host.drives e

/-- What the port sees of the core. -/
def seen : Port.Cpu := x.zip.seen (x.inputs e) e.units

/-- One clock of the host and of the CPU. -/
def clock : Session α aw where
  host := x.host.clock (x.zip.port.oDbgStall (x.inputs e) (x.seen e)) x.zip.port.dbgAck x.zip.port.dbgOdata e.go
  zip := x.zip.zipbones b startHalted (x.inputs e) e.units

/-- The registers that are written. -/
def written : List RegWrite := x.zip.port.written (x.inputs e) (x.seen e)

/-- The cache is told to forget. -/
def clears : Bool := x.zip.port.cmdClearCache

/-- The session at the start of a program. -/
def start (program : Script α) (zip : Zipbones aw) : Session α aw := ⟨.idle program, zip⟩

end Session

/-! ### What the wiring leaves of the accesses -/

namespace Host
variable {α : Type} {aw : Nat} (h : Host α) (e : Around aw)

/-- No access is a command. -/
theorem drives_silent : Port.dbgCmdWrite (h.drives e) = false := by
  unfold drives
  split <;> simp [Port.dbgCmdWrite, debugWord]

theorem drives_free : (h.drives e).reset = false := by
  unfold drives
  split <;> rfl

/-- A write to either address is a write to a register. -/
theorem drives_write (addr value : BitVec 32) (next : Script α) :
    Port.regWrite ((Host.asking (.writeio addr value next)).drives e) = true := by
  simp [drives, Port.regWrite, debugWord]

end Host

namespace Session
variable {α : Type} {aw : Nat} {b : Build aw} {startHalted : Bool}

/-- The first access has not been accepted. -/
def Fresh (program : Script α) (x : Session α aw) : Prop := x.host = .idle program ∨ x.host = .asking program

theorem idle_fresh {program : Script α} {x : Session α aw} (idle : x.host = .idle program)
    (more : program.ended = false) (e : Around aw) : (x.clock b startHalted e).Fresh program := by
  cases go : e.go
  · exact .inl (by simp [clock, idle, Host.clock, go])
  · exact .inr (by simp [clock, idle, Host.clock, go, more])

theorem Fresh.unfinished {addr value : BitVec 32} {next : Script α} {x : Session α aw}
    (fresh : x.Fresh (.writeio addr value next)) : x.host.returned = none := by
  rcases fresh with first | first <;> simp [first, Host.returned]

/-- The first access has not been accepted, or the CPU is halted. -/
def Held (program : Script α) (x : Session α aw) : Prop := x.Fresh program ∨ x.zip.port.cmdHalt = true

/-- What begins with a write stops the CPU, and nothing that follows lets it go. -/
theorem Held.clock {addr value : BitVec 32} {next : Script α} {x : Session α aw}
    (held : x.Held (.writeio addr value next)) (e : Around aw) :
    (x.clock b startHalted e).Held (.writeio addr value next) := by
  have free : !(x.inputs e).reset := by simp [inputs, Host.drives_free]
  rcases held with (first | first) | stopped
  · exact .inl (idle_fresh first rfl e)
  · have write : Port.regWrite (x.inputs e) = true := by
      rw [inputs, first]
      exact Host.drives_write e addr value next
    exact .inr (Port.regWrite_halts startHalted x.zip.port (x.inputs e) (x.seen e) write free)
  · have silent : Port.dbgCmdWrite (x.inputs e) = false := Host.drives_silent x.host e
    have kept := x.zip.port.releases_silent (x.inputs e) (x.seen e) silent
    exact .inr (x.zip.port.stays_halted startHalted (x.inputs e) (x.seen e) kept free stopped)

theorem held_run {addr value : BitVec 32} {next : Script α} (zip : Zipbones aw) (es : List (Around aw)) :
    (Clocked.run (clock b startHalted) (start (.writeio addr value next) zip) es).Held (.writeio addr value next) := by
  have free : Clocked.Always (clock b startHalted) (fun _ _ => True) (start (.writeio addr value next) zip) es :=
    Clocked.always_of_forall (fun _ _ => trivial) _ es
  exact Clocked.run_invariant (fun x e held _ => held.clock e) (.inl (.inl rfl)) free

/-- The registers that are written in a run. -/
def Written (b : Build aw) (startHalted : Bool) (x : Session α aw) (es : List (Around aw)) : List RegWrite :=
  Clocked.emitted (clock b startHalted) written x es

end Session

/-! ### A program that only reads -/

/-- The program writes nothing any more. -/
def Script.Reads {α : Type} : Script α → Prop
  | .writeio _ _ _ => False
  | .readio _ next => ∀ data, (next data).Reads
  | _ => True

theorem Script.reads_poll (left : Nat) : (Script.poll left).Reads := by
  induction left with
  | zero => exact fun _ => trivial
  | succ left ih =>
    intro s
    beta_reduce
    split
    · exact ih
    · exact fun _ => trivial

theorem Script.Reads.answered {α : Type} {p : Script α} (reads : p.Reads) (data : BitVec 32) :
    (p.answered data).Reads := by
  cases p with
  | done | exit_failure => trivial
  | writeio => exact reads.elim
  | readio addr next => exact reads data

namespace Host
variable {α : Type} {aw : Nat}

/-- The host writes nothing any more. A write that is being answered is over. -/
def Reads : Host α → Prop
  | .idle p | .asking p => p.Reads
  | .waiting p => ∀ data, (p.answered data).Reads

theorem Reads.clock {h : Host α} (reads : h.Reads) (stall ack : Bool) (data : BitVec 32) (go : Bool) :
    (h.clock stall ack data go).Reads := by
  cases h with
  | idle p =>
    simp only [Host.clock]
    split <;> exact reads
  | asking p =>
    simp only [Host.clock]
    split
    · exact reads
    · exact fun data => Script.Reads.answered reads data
  | waiting p =>
    simp only [Host.clock]
    split
    · exact reads data
    · exact reads

theorem Reads.drives {h : Host α} (reads : h.Reads) (e : Around aw) : Port.regWrite (h.drives e) = false := by
  cases h with
  | idle p | waiting p => rfl
  | asking p =>
    cases p with
    | done | exit_failure => rfl
    | writeio => exact reads.elim
    | readio addr next => rfl

end Host

namespace Session
variable {α : Type} {aw : Nat} {b : Build aw} {startHalted : Bool}

theorem reads_written {x : Session α aw} (reads : x.host.Reads) (es : List (Around aw)) :
    x.Written b startHalted es = [] := by
  induction es generalizing x with
  | nil => rfl
  | cons e es ih =>
    have none : x.written e = [] := by simp [written, Port.written, inputs, reads.drives e]
    have later := ih (x := x.clock b startHalted e) (reads.clock _ _ _ _)
    rw [Written, Clocked.emitted_cons, none, List.nil_append]
    exact later

/-- A program that begins with a write, and then only reads, has written once or is not so far yet. -/
theorem written_once {addr value : BitVec 32} {next : Script α} (reads : next.Reads) {x : Session α aw}
    (fresh : x.Fresh (.writeio addr value next)) (es : List (Around aw)) :
    (Clocked.run (clock b startHalted) x es).Fresh (.writeio addr value next) ∨
      x.Written b startHalted es = [((debugWord addr).extractLsb' 0 5, value)] := by
  induction es generalizing x with
  | nil => exact .inl fresh
  | cons e es ih =>
    rcases fresh with first | first
    · have none : x.written e = [] := by
        have silent : Port.regWrite (x.inputs e) = false := by rw [inputs, first]; rfl
        simp [written, Port.written, silent]
      rw [Written, Clocked.emitted_cons, none, List.nil_append]
      exact ih (idle_fresh first rfl e)
    · have write : Port.regWrite (x.inputs e) = true := by
        rw [inputs, first]
        exact Host.drives_write e addr value next
      cases stall : x.zip.port.oDbgStall (x.inputs e) (x.seen e) with
      | true =>
        have none : x.written e = [] := by simp [written, Port.written, Port.accepts, stall]
        have stays : (x.clock b startHalted e).host = .asking (.writeio addr value next) := by
          simp [clock, first, Host.clock, stall]
        rw [Written, Clocked.emitted_cons, none, List.nil_append]
        exact ih (.inr stays)
      | false =>
        have one : x.written e = [((debugWord addr).extractLsb' 0 5, value)] := by
          simp only [written, Port.written, Port.accepts, stall, write]
          simp [inputs, first, Host.drives]
        have past : (x.clock b startHalted e).host.Reads := by
          simp only [clock, first, Host.clock, stall]
          exact fun _ => reads
        right
        rw [Written, Clocked.emitted_cons, one]
        exact congrArg _ (reads_written past es)

/-! ### What the programs are for -/

/-- `cmd_read` returns what register `r` holds, and the CPU is halted and has no register written. -/
def ReadsRegister (b : Build aw) (startHalted : Bool) (zip : Zipbones aw) (r : BitVec 5) (es : List (Around aw)) :
    Prop :=
  let x := start (Script.cmd_read (r.setWidth 32)) zip
  let y := Clocked.run (clock b startHalted) x es
  y.host.returned = some (y.zip.cpu.debugReg b r) ∧ y.zip.port.cmdHalt = true ∧ x.Written b startHalted es = []

/-- `zipload` returns with the general registers and the caches clear, the program counter set and the CPU
released, and nothing else has been written. -/
def Starts (b : Build aw) (startHalted : Bool) (zip : Zipbones aw) (entry : BitVec 32) (es : List (Around aw)) :
    Prop :=
  let x := start (Script.zipload entry true) zip
  let y := Clocked.run (clock b startHalted) x es
  y.host.returned = some () ∧ (∀ r, Idecode.special r = false → y.zip.cpu.regset r = 0) ∧
    y.zip.cpu.ipc = entry.setWidth (aw + 2) ∧
    true ∈ Clocked.emitted (clock b startHalted) (fun x _ => [x.clears]) x es ∧ y.zip.port.cmdHalt = false ∧
    ∀ w ∈ x.Written b startHalted es,
      w = (0b0#1 ++ Idecode.CPU_PC_REG, entry) ∨ Idecode.special w.1 = false ∧ w.2 = 0

/-- Neither program does what it is for, whatever the CPU is at and when it halts: what is meant as a command is
written to register 0. -/
theorem registers_unreached (b : Build aw) (startHalted : Bool) (zip : Zipbones aw) (r : BitVec 5)
    (entry : BitVec 32) (es : List (Around aw)) :
    ¬ReadsRegister b startHalted zip r es ∧ ¬Starts b startHalted zip entry es := by
  constructor
  · rintro ⟨returned, -, unwritten⟩
    have first : (start (Script.cmd_read (r.setWidth 32)) zip).Fresh (Script.cmd_read (r.setWidth 32)) := .inl rfl
    rcases @written_once _ _ b startHalted _ _ _ (Script.reads_poll Script.MAXERR) _ first es with fresh | once
    · exact Option.some_ne_none _ (returned.symm.trans fresh.unfinished)
    · rw [unwritten] at once
      exact List.cons_ne_nil _ _ once.symm
  · rintro ⟨returned, -, -, -, released, -⟩
    rcases held_run zip es with fresh | halted
    · exact Option.some_ne_none _ (returned.symm.trans fresh.unfinished)
    · exact Bool.false_ne_true (released.symm.trans halted)

/-- A clock in which the host goes on and the CPU waits for an instruction. -/
def fetching : Around 24 := ⟨true, false, 0, 0, 0, false, ⟨false, false, 0, 0, false, false, false, 0, 0⟩⟩

/-- A CPU that has just been told where to go on. -/
def running : Zipbones 24 where
  port := { Port.powerUp true with resetCounter := 0, resetHold := false, cmdReset := false, cmdHalt := false }
  cpu :=
    { Core.powerUp ⟨true, true, true, true, false, 0⟩ .absent
        fun r => if r = 0#5 then 0x200#32 else if r = 1#5 then 7#32 else 9#32 with
      newPc := false
      clearIcache := false }

/-- What `cmd_read` returns for register 2 is register 1, and register 0 is to be written. -/
theorem register_confused :
    let b : Build 24 := ⟨true, true, true, true, false, 0⟩
    let x := start (Script.cmd_read 2) running
    let y := Clocked.run (clock b true) x (List.replicate 12 fetching)
    y.host.returned = some 7#32 ∧ y.zip.cpu.debugReg b 2 = 9#32 ∧
      x.Written b true (List.replicate 12 fetching) = [(0#5, 0x402#32)] := by
  decide +kernel

end Session

end IcoZip.Zipcore
