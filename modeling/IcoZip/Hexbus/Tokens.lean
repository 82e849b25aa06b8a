import IcoZip.Hexbus.Reception

/-! The replies in a stream of characters.

A reply is recognised when the next token begins. Both readers take the same
replies from a stream, and a reply means the same to the registers of the host
whichever of them takes it.
-/

set_option autoImplicit false

namespace IcoZip.Hexbus

/-- What a reply tells the host. -/
inductive Reply where
  | read (value : BitVec 32)
  | addr (value : BitVec 32)
  | ack
  | int
  | reset
  | idle
  deriving DecidableEq, Repr

/-- What the replies change. -/
structure Registers where
  interruptFlag : Bool
  addrSet : Bool
  lastaddr : BitVec 32
  nacks : BitVec 32
  inc : Bool
  deriving DecidableEq, Repr

namespace Registers

def advance (r : Registers) : Registers := if r.inc then { r with lastaddr := r.lastaddr + 4 } else r

def apply (r : Registers) : Reply → Registers
  | .read _ => r.advance
  | .addr value => { r with addrSet := true, inc := !value.getLsbD 0, lastaddr := value &&& -4 }
  | .ack => { r.advance with nacks := r.nacks + 1 }
  | .int => { r with interruptFlag := true }
  | .reset => { r with addrSet := false }
  | .idle => r

end Registers

/-! ### The replies of a text -/

/-- The reply that ends, from its letter and the word behind it. -/
def reply (letter : BitVec 8) (word : BitVec 32) : Option Reply :=
  if letter = HEXB_READ then some (.read word)
  else if letter = HEXB_ADDR then some (.addr word)
  else if letter = HEXB_ACK then some .ack
  else if letter = HEXB_INT then some .int
  else if letter = HEXB_RESET then some .reset
  else if letter = HEXB_IDLE then some .idle
  else none

def Reply.letter : Reply → BitVec 8
  | .read _ => HEXB_READ
  | .addr _ => HEXB_ADDR
  | .ack => HEXB_ACK
  | .int => HEXB_INT
  | .reset => HEXB_RESET
  | .idle => HEXB_IDLE

theorem reply_letter {letter : BitVec 8} {word : BitVec 32} {r : Reply} (ends : reply letter word = some r) :
    letter = r.letter := by
  simp only [reply] at ends
  split_ifs at ends with same same same same same same <;> cases ends <;> exact same

theorem reply_none {letter : BitVec 8} {word : BitVec 32} (unknown : reply letter word = none) :
    letter ≠ HEXB_READ ∧ letter ≠ HEXB_ADDR ∧ letter ≠ HEXB_ACK ∧ letter ≠ HEXB_INT ∧ letter ≠ HEXB_RESET ∧
      letter ≠ HEXB_IDLE := by
  simp only [reply] at unknown
  split_ifs at unknown with read addr ack int reset idle
  exact ⟨read, addr, ack, int, reset, idle⟩

/-- The reply that a character begins. -/
def opens (char : BitVec 8) : Option (BitVec 8) := if isspace char then none else some char

/-- The replies that end in a text. Where the text is interrupted, the digits before are lost. -/
def replies : Option (BitVec 8) → BitVec 32 → Incoming → List Reply
  | _, _, [] => []
  | pending, word, (char, late) :: text =>
    let word := if late then 0 else word
    if isDigit char then replies pending (shiftDigit word char) text
    else (pending.bind (reply · word)).toList ++ replies (opens char) 0 text

theorem replies_none (word word' : BitVec 32) (text : Incoming) : replies none word text = replies none word' text := by
  induction text generalizing word word' with
  | nil => rfl
  | cons x text ih =>
    by_cases digit : isDigit x.1 = true
    · simp only [replies, if_pos digit]
      exact ih _ _
    · simp only [replies, if_neg digit, Option.bind_none]

namespace Host

def registers (h : Host) : Registers :=
  { interruptFlag := h.interruptFlag, addrSet := h.addrSet, lastaddr := h.lastaddr, nacks := h.nacks, inc := h.inc }

/-- What a reply does. -/
def hear (h : Host) : Reply → Host
  | .read _ => h.advance
  | .addr value => h.address value
  | .ack => { h.advance with nacks := h.nacks + 1 }
  | .int => { h with interruptFlag := true }
  | .reset => { h with addrSet := false }
  | .idle => h

/-- The letter of the reply that has not ended. -/
def pending (h : Host) : Option (BitVec 8) := if h.isspace then none else some h.cmd

/-- The registers as soon as the next token begins. -/
def settled (h : Host) (word : BitVec 32) : Registers :=
  (h.pending.bind (reply · word)).toList.foldl Registers.apply h.registers

end Host

section
variable {h : Host}

theorem Host.token_pending (char : BitVec 8) : (h.token char).pending = opens char := by
  rw [Host.token, opens]
  split_ifs <;> simp_all [Host.pending]

theorem Host.token_registers (char : BitVec 8) : (h.token char).registers = h.registers := by
  rw [Host.token]
  split_ifs <;> rfl

theorem Host.hear_registers (r : Reply) : (h.hear r).registers = h.registers.apply r := by
  cases r <;> simp only [Host.hear, Registers.apply, Host.advance, Registers.advance]
  case read => cases inc : h.inc <;> simp [Host.registers, inc]
  case ack => cases inc : h.inc <;> simp [Host.registers, inc]
  all_goals rfl

theorem Host.pending_closed (closed : h.isspace = true) : h.pending = none := if_pos closed

theorem Host.pending_open (open_ : h.isspace = false) : h.pending = some h.cmd := by
  rw [Host.pending, open_]
  rfl

theorem Host.pending_some {letter : BitVec 8} (pending : h.pending = some letter) :
    h.isspace = false ∧ h.cmd = letter := by
  simpa [Host.pending] using pending

theorem Host.settled_closed (closed : h.isspace = true) (word : BitVec 32) : h.settled word = h.registers := by
  rw [Host.settled, Host.pending_closed closed]
  rfl

theorem Host.settled_open (open_ : h.isspace = false) (word : BitVec 32) :
    h.settled word = (reply h.cmd word).elim h.registers h.registers.apply := by
  rw [Host.settled, Host.pending_open open_]
  cases shown : reply h.cmd word <;> simp [shown]

end

section
variable {h : Host} {word : BitVec 32} {char : BitVec 8}

theorem readwordChar_data {countdown : Nat} (next : isDigit char = false) (pending : h.pending = some HEXB_READ) :
    readwordChar h word countdown char = .done (h.advance.token char) word := by
  obtain ⟨open_, letter⟩ := Host.pending_some pending
  have other : (isdigit char || islower char) = false := next
  simp [readwordChar, other, open_, letter]

theorem readwordChar_error {countdown : Nat} (next : isDigit char = false) (pending : h.pending = some HEXB_ERR) :
    readwordChar h word countdown char = .throw ({ h with busErr := true }.token char) h.lastaddr := by
  obtain ⟨open_, letter⟩ := Host.pending_some pending
  have other : (isdigit char || islower char) = false := next
  simp [readwordChar, other, open_, letter, HEXB_READ, HEXB_ACK, HEXB_INT, HEXB_ERR]

/-- `readword` gives up, and stays in the idle reply. -/
theorem readwordChar_idle {countdown : Nat} (next : isDigit char = false) (pending : h.pending = some HEXB_IDLE)
    (last : countdown - 1 = 0) : readwordChar h word countdown char = .throw h 0 := by
  obtain ⟨open_, letter⟩ := Host.pending_some pending
  have other : (isdigit char || islower char) = false := next
  simp [readwordChar, other, open_, letter, last, HEXB_READ, HEXB_ACK, HEXB_INT, HEXB_ERR, HEXB_IDLE]

/-- A character that is no digit ends the reply that `readword` is in. -/
theorem readwordChar_next {countdown : Nat} (next : isDigit char = false) (noData : h.pending ≠ some HEXB_READ)
    (noError : h.pending ≠ some HEXB_ERR) (patient : h.pending = some HEXB_IDLE → 1 < countdown) :
    ∃ h', readwordChar h word countdown char =
        .more h' 0 (if h.pending = some HEXB_IDLE then countdown - 1 else countdown) ∧
      h'.pending = opens char ∧ h'.registers = h.settled word := by
  have other : (isdigit char || islower char) = false := next
  cases closed : h.isspace with
  | true =>
    refine ⟨h.token char, ?_, h.token_pending char, ?_⟩
    · simp [readwordChar, other, closed, Host.pending_closed closed]
    · rw [h.token_registers, Host.settled_closed closed]
  | false =>
    rw [Host.pending_open closed] at noData noError patient ⊢
    rw [Host.settled_open closed]
    simp only [Option.some.injEq, ne_eq] at noData noError patient ⊢
    cases ends : reply h.cmd word with
    | none =>
      obtain ⟨-, addr, ack, int, reset, idle⟩ := reply_none ends
      refine ⟨h.token char, ?_, h.token_pending char, h.token_registers char⟩
      simp [readwordChar, other, closed, noData, noError, addr, ack, int, reset, idle]
    | some r =>
      refine ⟨(h.hear r).token char, ?_, (h.hear r).token_pending char, ?_⟩
      · have letter := reply_letter ends
        cases r with
        | read value => exact absurd letter noData
        | addr value =>
          obtain rfl : word = value := by simpa [reply, letter, Reply.letter, HEXB_ADDR, HEXB_READ] using ends
          simp [readwordChar, other, closed, letter, Host.hear, Reply.letter, HEXB_READ, HEXB_ACK, HEXB_INT,
            HEXB_ERR, HEXB_IDLE, HEXB_ADDR]
        | idle =>
          have wait : countdown - 1 ≠ 0 := by
            have := patient letter
            omega
          simp [readwordChar, other, closed, letter, Host.hear, Reply.letter, wait, HEXB_READ, HEXB_ACK, HEXB_INT,
            HEXB_ERR, HEXB_IDLE]
        | _ =>
          simp [readwordChar, other, closed, letter, Host.hear, Reply.letter, HEXB_READ, HEXB_ACK, HEXB_INT,
            HEXB_ERR, HEXB_IDLE, HEXB_ADDR, HEXB_RESET]
      · rw [Host.token_registers, h.hear_registers]
        rfl

/-- A character that is no digit ends the reply that `readidle` is in. -/
theorem readidleChar_next (next : isDigit char = false) (noError : h.pending ≠ some HEXB_ERR) :
    ∃ h' word', readidleChar h word char = .more h' word' ∧ h'.pending = opens char ∧
      h'.registers = h.settled word ∧ (opens char = none ∨ word' = 0) := by
  have other : (isdigit char || islower char) = false := next
  cases closed : h.isspace with
  | true =>
    rw [Host.settled_closed closed]
    by_cases space : isspace char = true
    · have none_ : opens char = none := if_pos space
      refine ⟨h, word, ?_, ?_, rfl, .inl none_⟩
      · simp [readidleChar, other, closed, space]
      · rw [none_, Host.pending_closed closed]
    · refine ⟨h.token char, 0, ?_, h.token_pending char, h.token_registers char, .inr rfl⟩
      simp [readidleChar, other, closed, space]
  | false =>
    rw [Host.pending_open closed] at noError
    rw [Host.settled_open closed]
    simp only [Option.some.injEq, ne_eq] at noError
    -- `readidle` also forgets an error at a reset, which is none of these registers
    have takes (g : Host) (step : readidleChar h word char = .more (g.token char) 0)
        (same : g.registers = (reply h.cmd word).elim h.registers h.registers.apply) :
        ∃ h' word', readidleChar h word char = .more h' word' ∧ h'.pending = opens char ∧
          h'.registers = (reply h.cmd word).elim h.registers h.registers.apply ∧ (opens char = none ∨ word' = 0) :=
      ⟨g.token char, 0, step, g.token_pending char, (g.token_registers char).trans same, .inr rfl⟩
    cases ends : reply h.cmd word with
    | none =>
      obtain ⟨read, addr, ack, int, reset, -⟩ := reply_none ends
      rw [ends] at takes
      refine takes h ?_ rfl
      simp [readidleChar, other, closed, noError, read, addr, ack, int, reset]
    | some r =>
      have letter := reply_letter ends
      have heard := h.hear_registers r
      rw [ends] at takes
      cases r with
      | addr value =>
        obtain rfl : word = value := by simpa [reply, letter, Reply.letter, HEXB_ADDR, HEXB_READ] using ends
        refine takes (h.address word) ?_ heard
        simp [readidleChar, other, closed, letter, Reply.letter]
      | reset =>
        refine takes { h with addrSet := false, busErr := false } ?_ rfl
        simp [readidleChar, other, closed, letter, Reply.letter, HEXB_READ, HEXB_ACK, HEXB_INT, HEXB_ERR, HEXB_ADDR,
          HEXB_RESET]
      | _ =>
        refine takes _ ?_ heard
        simp [readidleChar, other, closed, letter, Reply.letter, Host.hear, HEXB_READ, HEXB_ACK, HEXB_INT, HEXB_ERR,
          HEXB_ADDR, HEXB_RESET, HEXB_IDLE]

end

end IcoZip.Hexbus
