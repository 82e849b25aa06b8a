import IcoZip.Hexbus.Decode
import IcoZip.Hexbus.Exec
import IcoZip.Hexbus.Reception
import Mathlib.Logic.Function.Basic

/-! The device side of hexbus: the parser of `hbdechex` and `hbpack`, the
commands of `hbexec` and a memory that never fails.
-/

set_option autoImplicit false

namespace IcoZip.Hexbus

open Exec (Operation operation setAddress advance)

abbrev Memory := BitVec 30 → BitVec 32

structure Target where
  partly : Partial
  addr : BitVec 30
  inc : Bool
  mem : Memory

namespace Target

/-- One command word, with the response to it. -/
def execute (d : Target) (word : BitVec 34) : Target × List Response :=
  match operation word with
  | .special => (d, [])
  | .address =>
    ({ d with addr := setAddress d.addr word, inc := !word.getLsbD 0 },
      [.address (setAddress d.addr word) (!word.getLsbD 0)])
  | .bus true =>
    ({ d with mem := Function.update d.mem d.addr (word.extractLsb' 0 32), addr := advance d.addr d.inc true },
      [.acknowledgement])
  | .bus false => ({ d with addr := advance d.addr d.inc true }, [.data (d.mem d.addr)])

def executeAll (d : Target) : List (BitVec 34) → Target × List Response
  | [] => (d, [])
  | word :: words =>
    let (d, first) := d.execute word
    let (d, rest) := d.executeAll words
    (d, first ++ rest)

/-- The characters that the port passes on. -/
def chars (bytes : List (BitVec 8)) : List (BitVec 7) := bytes.map (·.extractLsb' 0 7)

/-- What the port returns for a response. -/
def rendered (r : Response) : List (BitVec 8) := r.chars.map (·.setWidth 8)

instance : Peer Target where
  receive d bytes :=
    let (partly, words) := consumeAll d.partly (chars bytes)
    let (d, responses) := { d with partly }.executeAll words
    (d, responses.map rendered)

/-! ### The responses are those of `hbexec` -/

/-- How the bus completes the requests of a command list. -/
def completions (d : Target) : List (BitVec 34) → List Exec.Completion
  | [] => []
  | word :: words =>
    match operation word with
    | .bus _ => ⟨false, true, d.mem d.addr⟩ :: (d.execute word).1.completions words
    | _ => (d.execute word).1.completions words

theorem executeAll_replies (d : Target) (words : List (BitVec 34)) :
    (d.executeAll words).2.map Response.word = Exec.replies d.addr d.inc words (d.completions words) := by
  induction words generalizing d with
  | nil => rfl
  | cons word words ih =>
    simp only [executeAll, List.map_append, ih, completions, Exec.replies]
    cases kind : operation word with
    | special => simp [execute, kind]
    | address => simp [execute, kind, Response.word]
    | bus we => cases we <;> simp [execute, kind, Response.word, Exec.reply]

/-! ### The messages of the host -/

theorem chars_append (bytes more : List (BitVec 8)) : chars (bytes ++ more) = chars bytes ++ chars more :=
  List.map_append

theorem chars_digits (digits : List (BitVec 4)) : chars (digits.map digitChar) = digits.map hexChar := by
  have table : ∀ d : BitVec 4, (digitChar d).extractLsb' 0 7 = hexChar d := by decide
  simp [chars, table]

theorem hex_eq (value : BitVec 32) : hex value = ((nibbles value).dropWhile (· == 0)).map digitChar := by
  have table : ∀ d : BitVec 4, (digitChar d == 0x30) = (d == 0) := by decide
  rw [hex, hex08_eq, List.dropWhile_map]
  congr 2
  funext d
  exact table d

theorem digitsValue_dropWhile (digits : List (BitVec 4)) :
    digitsValue (digits.dropWhile (· == 0)) = digitsValue digits := by
  induction digits with
  | nil => rfl
  | cons digit digits ih =>
    by_cases zero : digit = 0
    · subst zero
      rw [List.dropWhile_cons_of_pos (by simp), ih]
      rfl
    · rw [List.dropWhile_cons_of_neg (by simpa using zero)]

theorem lastEight_nibbles (value : BitVec 32) : lastEight (nibbles value) = value := by
  rw [← lastEight_eq, digitsValue_nibbles]
  simp

/-- The payload of a write: leading zeroes are left out, all of them. -/
theorem written_digits (value : BitVec 32) :
    ∃ digits, (if value ≠ 0 then hex value else []) = digits.map digitChar ∧ lastEight digits = value := by
  by_cases zero : value = 0
  · subst zero
    exact ⟨[], rfl, rfl⟩
  · refine ⟨(nibbles value).dropWhile (· == 0), by rw [if_pos zero, hex_eq], ?_⟩
    rw [← lastEight_eq, digitsValue_dropWhile, lastEight_eq, lastEight_nibbles]

theorem consumeAll_newline (partly : Partial) (text : List (BitVec 7)) :
    (consumeAll partly (text ++ [0x0a#7])).1 = none := by
  rw [consumeAll_append, consumeAll_cons, consume_other (by decide)]
  rfl

/-- A message that is a text of commands, up to a newline. -/
theorem consumeAll_message {cmds : List Command} {message : List (BitVec 8)}
    (text : Text cmds (chars (message ++ [0x0a]))) :
    consumeAll none (chars (message ++ [0x0a])) = (none, cmds.map Command.word) := by
  have words := consumeAll_text text none fun _ => rfl
  have closed : (consumeAll none (chars (message ++ [0x0a]))).1 = none := by
    rw [chars_append]
    exact consumeAll_newline none (chars message)
  rw [Option.toList_none, List.nil_append] at words
  exact Prod.ext closed words

/-- The word of an address command. -/
def addressWord (w : BitVec 30) (inc : Bool) : BitVec 32 := w ++ (0#1 ++ BitVec.ofBool !inc)

theorem addressWord_mode (w : BitVec 30) (inc : Bool) : (addressWord w inc).getLsbD 0 = !inc := by
  rw [addressWord, BitVec.getLsbD_append]
  cases inc <;> rfl

theorem addressWord_absolute (w : BitVec 30) (inc : Bool) : (addressWord w inc)[1] = false := by
  rw [← BitVec.getLsbD_eq_getElem, addressWord, BitVec.getLsbD_append]
  cases inc <;> rfl

theorem addressWord_addr (w : BitVec 30) (inc : Bool) : (addressWord w inc).extractLsb' 2 30 = w := by
  rw [addressWord, BitVec.extractLsb'_append_eq_of_le (by decide)]
  simp

theorem payload_low (kind : BitVec 2) (payload : BitVec 32) {i : Nat} (low : i < 32) :
    (kind ++ payload)[i] = payload[i] := by
  rw [BitVec.getElem_append, dif_pos low]

theorem payload_extract (kind : BitVec 2) (payload : BitVec 32) {start n : Nat} (low : start + n ≤ 32) :
    (kind ++ payload).extractLsb' start n = payload.extractLsb' start n := by
  rw [BitVec.extractLsb'_append_eq_of_add_le low]

theorem operation_word (c : Command) :
    operation c.word = match c.kind with
      | .R => .bus false
      | .W => .bus true
      | .A => .address
      | .S => .special := by
  obtain ⟨kind, payload⟩ := c
  have high (i : Nat) (bound : i < 2) : (kind.bits ++ payload)[32 + i] = kind.bits[i] := by
    rw [← BitVec.getLsbD_eq_getElem, BitVec.getLsbD_append, if_neg (by omega), Nat.add_sub_cancel_left,
      BitVec.getLsbD_eq_getElem]
  have top := high 1 (by decide)
  have bottom := high 0 (by decide)
  cases kind <;> simp [operation, Command.word, Kind.bits] at top bottom ⊢ <;> simp [top, bottom]

theorem execute_address (d : Target) (w : BitVec 30) (inc : Bool) :
    d.execute (Command.word ⟨.A, addressWord w inc⟩) = ({ d with addr := w, inc }, [.address w inc]) := by
  have kind := operation_word ⟨.A, addressWord w inc⟩
  have mode : (Command.word ⟨.A, addressWord w inc⟩).getLsbD 0 = !inc := by
    rw [Command.word, BitVec.getLsbD_append, if_pos (by decide), addressWord_mode]
  have addr : setAddress d.addr (Command.word ⟨.A, addressWord w inc⟩) = w := by
    rw [setAddress, Command.word, payload_low _ _ (by decide), addressWord_absolute, if_neg (by decide),
      payload_extract _ _ (by decide), addressWord_addr]
  simp only [execute, kind, addr, mode, Bool.not_not]

/-- A write command. -/
def write (d : Target) (value : BitVec 32) : Target :=
  { d with mem := Function.update d.mem d.addr value, addr := advance d.addr d.inc true }

theorem execute_write (d : Target) (value : BitVec 32) :
    d.execute (Command.word ⟨.W, value⟩) = (d.write value, [.acknowledgement]) := by
  have kind := operation_word ⟨.W, value⟩
  have data : (Command.word ⟨.W, value⟩).extractLsb' 0 32 = value := by
    rw [Command.word, payload_extract _ _ (by decide)]
    simp
  simp only [execute, kind, data, write]

/-- A read command. -/
def read (d : Target) : Target := { d with addr := advance d.addr d.inc true }

theorem execute_read (d : Target) (value : BitVec 32) :
    d.execute (Command.word ⟨.R, value⟩) = (d.read, [.data (d.mem d.addr)]) := by
  have kind := operation_word ⟨.R, value⟩
  simp only [execute, kind, read]

/-! ### An address, if it is sent, and a command -/

/-- The device stands at an address, or the message begins with it. -/
def Addressed (d : Target) (ptr : List (BitVec 8)) (w : BitVec 30) (inc : Bool) : Prop :=
  ptr = [] ∧ d.addr = w ∧ d.inc = inc ∨ ptr = HEXB_ADDR :: hex08 (addressWord w inc)

/-- The replies that an address adds. -/
def addressReplies (ptr : List (BitVec 8)) (w : BitVec 30) (inc : Bool) : List (List (BitVec 8)) :=
  if ptr = [] then [] else [HEXB_ADDR :: hex08 (addressWord w inc)]

/-- The command words of a message with one command behind `ptr`. -/
def addressedWords (ptr : List (BitVec 8)) (w : BitVec 30) (inc : Bool) (command : Command) : List (BitVec 34) :=
  (if ptr = [] then [] else [Command.word ⟨.A, addressWord w inc⟩]) ++ [command.word]

theorem consumeAll_addressed {ptr : List (BitVec 8)} {w : BitVec 30} {inc : Bool}
    (sent : ptr = [] ∨ ptr = HEXB_ADDR :: hex08 (addressWord w inc)) (kind : Kind) (digits : List (BitVec 4)) :
    consumeAll none (chars (ptr ++ kind.letter.setWidth 8 :: (digits.map digitChar ++ [0x0a]))) =
      (none, addressedWords ptr w inc ⟨kind, lastEight digits⟩) := by
  have letter : (kind.letter.setWidth 8).extractLsb' 0 7 = kind.letter := by cases kind <;> rfl
  have command : Text [⟨kind, lastEight digits⟩] (kind.letter :: (digits.map hexChar ++ [0x0a])) :=
    .command kind digits (by simp) (.other (by decide) .nil)
  have shown : chars (kind.letter.setWidth 8 :: (digits.map digitChar ++ [0x0a])) =
      kind.letter :: (digits.map hexChar ++ [0x0a]) := by
    rw [← chars_digits, chars, List.map_cons, letter]
    simp [chars]
  rcases sent with rfl | rfl
  · have read := @consumeAll_message [⟨kind, lastEight digits⟩] (kind.letter.setWidth 8 :: digits.map digitChar)
      (by rw [List.cons_append, shown]; exact command)
    exact read
  · have whole : Text [⟨.A, addressWord w inc⟩, ⟨kind, lastEight digits⟩]
        (Kind.letter .A :: ((nibbles (addressWord w inc)).map hexChar ++
          kind.letter :: (digits.map hexChar ++ [0x0a]))) := by
      have text := Text.command .A (nibbles (addressWord w inc)) (by simp) command
      rwa [lastEight_nibbles] at text
    have split : HEXB_ADDR :: hex08 (addressWord w inc) ++ kind.letter.setWidth 8 :: (digits.map digitChar ++ [0x0a]) =
        (HEXB_ADDR :: hex08 (addressWord w inc) ++ kind.letter.setWidth 8 :: digits.map digitChar) ++ [0x0a] := by
      simp
    have all : chars (HEXB_ADDR :: hex08 (addressWord w inc) ++ kind.letter.setWidth 8 ::
        (digits.map digitChar ++ [0x0a])) =
        Kind.letter .A :: ((nibbles (addressWord w inc)).map hexChar ++
          kind.letter :: (digits.map hexChar ++ [0x0a])) := by
      rw [chars_append, shown, hex08_eq, ← chars_digits (nibbles _)]
      rfl
    have read := @consumeAll_message [⟨.A, addressWord w inc⟩, ⟨kind, lastEight digits⟩]
      (HEXB_ADDR :: hex08 (addressWord w inc) ++ kind.letter.setWidth 8 :: digits.map digitChar)
      (by rw [← split, all]; exact whole)
    rw [split]
    exact read

theorem Addressed.sent {d : Target} {ptr : List (BitVec 8)} {w : BitVec 30} {inc : Bool}
    (addressed : d.Addressed ptr w inc) : ptr = [] ∨ ptr = HEXB_ADDR :: hex08 (addressWord w inc) :=
  addressed.imp_left And.left

theorem receive_addressed {d : Target} (idle : d.partly = none) {ptr : List (BitVec 8)} {w : BitVec 30} {inc : Bool}
    (addressed : d.Addressed ptr w inc) (kind : Kind) (digits : List (BitVec 4)) :
    Peer.receive d (ptr ++ kind.letter.setWidth 8 :: (digits.map digitChar ++ [0x0a])) =
      let done := { d with addr := w, inc }.execute (Command.word ⟨kind, lastEight digits⟩)
      (done.1, addressReplies ptr w inc ++ done.2.map rendered) := by
  obtain ⟨partly, addr, mode, mem⟩ := d
  obtain rfl : partly = none := idle
  simp only [Peer.receive, consumeAll_addressed addressed.sent, addressedWords, addressReplies]
  rcases addressed with ⟨rfl, rfl, rfl⟩ | rfl
  · simp [executeAll]
  · simp only [reduceCtorEq, if_false, List.singleton_append, executeAll, execute_address, List.append_nil]
    rfl

end Target

end IcoZip.Hexbus
