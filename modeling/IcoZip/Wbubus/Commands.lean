import IcoZip.Library.Fields
import IcoZip.Wbubus.Characters
import IcoZip.Wbubus.Input
import Mathlib.Tactic.IntervalCases

/-! The commands of the bus, how a host sends them, and what they are as command
words.

Codewords are lists of symbols here. A receiver collects symbols until the first
of them says that they are all there; it stands for `wbureadcw` without its
clocks, as `Dictionary` stands for the table of `wbudecompress`.
-/

set_option autoImplicit false

namespace IcoZip.Wbubus

/-- The symbol `k` of a codeword. -/
def symbolAt (word : BitVec 36) (k : Nat) : BitVec 6 := word.extractLsb' (30 - 6 * k) 6

/-- The symbols that a codeword consists of. -/
def lead (word : BitVec 36) : List (BitVec 6) := (List.range (codeLen (symbolAt word 0)).toNat).map (symbolAt word)

/-- A word spelt out in six symbols. -/
def spell (word : BitVec 36) : List (BitVec 6) := (List.range 6).map (symbolAt word)

inductive Command where
  | address (addr : BitVec 32)
  /-- An address of one to four symbols. -/
  | near (k : Fin 4) (addr : BitVec (6 * (k.val + 1)))
  /-- An address relative to the one before, of one to four symbols. -/
  | offset (k : Fin 4) (off : BitVec (6 * (k.val + 1)))
  | write (data : BitVec 32) (inc : Bool)
  /-- A write of what has been written uncompressed `back` such writes ago. -/
  | again (back : BitVec 8) (inc : Bool)
  | read (length : BitVec 10) (inc : Bool)

/-- What has been written uncompressed, the latest first. -/
abbrev History := List (BitVec 32)

def writeWord (data : BitVec 32) (inc : Bool) : BitVec 36 :=
  0x3#3 ++ (data.extractLsb' 30 2 ++ (BitVec.ofBool inc ++ data.extractLsb' 0 30))

namespace Command

/-- The symbols of a short address, the upper ones first. -/
def chunks (k : Nat) (a : BitVec (6 * (k + 1))) : List (BitVec 6) :=
  (List.range (k + 1)).map fun j => a.extractLsb' (6 * (k - j)) 6

def encode : Command → List (BitVec 6)
  | address addr => spell (0x0#4 ++ addr)
  | near k addr => (0b001#3 ++ (BitVec.ofNat 2 k ++ 0b0#1)) :: chunks k addr
  | offset k off => (0b001#3 ++ (BitVec.ofNat 2 k ++ 0b1#1)) :: chunks k off
  | write data inc => spell (writeWord data inc)
  | again back inc => [0b010#3 ++ (back.extractLsb' 6 2 ++ BitVec.ofBool inc), back.extractLsb' 0 6]
  | read length inc =>
    if length ≤ 8 then [0b10#2 ++ ((length - 1).extractLsb' 0 3 ++ BitVec.ofBool inc)]
    else [0b11#2 ++ ((length - 9).extractLsb' 6 3 ++ BitVec.ofBool inc), (length - 9).extractLsb' 0 6]

/-- The command word. -/
def word (h : History) : Command → BitVec 36
  | address addr => 0x0#4 ++ addr
  | near _ addr => 0x0#4 ++ addr.setWidth 32
  | offset _ off =>
    0x1#3 ++ ((off.signExtend 32).extractLsb' 30 2 ++ (0b1#1 ++ (off.signExtend 32).extractLsb' 0 30))
  | write data inc => writeWord data inc
  | again back inc => writeWord (h.getD (back.toNat - 1) 0) inc
  | read length inc => 0b11000#5 ++ (BitVec.ofBool inc ++ (0x00#20 ++ length))

/-- The commands that can be sent. A read of eight words of one address has no codeword, since its symbol ends
writes. -/
def Valid (h : History) : Command → Prop
  | again back _ => 1 ≤ back.toNat ∧ back.toNat ≤ h.length
  | read length inc => 1 ≤ length ∧ length ≤ 520 ∧ ¬(length = 8 ∧ inc = false)
  | _ => True

def after (h : History) : Command → History
  | write data _ => data :: h
  | _ => h

def isWrite : Command → Bool
  | write _ _ | again _ _ => true
  | _ => false

end Command

inductive Item where
  | command (c : Command)
  | newline

namespace Item

/-- The symbols of a list of commands, and newlines. -/
def symbols : List Item → List (Option (BitVec 6))
  | [] => []
  | command c :: rest => c.encode.map some ++ symbols rest
  | newline :: rest => none :: symbols rest

def Valid : History → List Item → Prop
  | _, [] => True
  | h, command c :: rest => c.Valid h ∧ Valid (c.after h) rest
  | h, newline :: rest => Valid h rest

/-- The command words, `none` for the end of a write; `writing` says that the item before was one. -/
def words : History → Bool → List Item → List (Option (BitVec 36))
  | _, _, [] => []
  | h, _, command c :: rest => some (c.word h) :: words (c.after h) c.isWrite rest
  | h, writing, newline :: rest => (if writing then [none] else []) ++ words h false rest

end Item

/-- The character of a symbol; newlines are `none`. -/
def letter : Option (BitVec 6) → BitVec 8
  | some bits => charOf (0#1 ++ bits)
  | none => newline

/-- The payload of the word that ends a write does not matter. -/
def view (word : BitVec 36) : Option (BitVec 36) := if word.extractLsb' 30 6 = 0x2e#6 then none else some word

/-- The two tables are inverse to each other. -/
theorem remapHex_letter : ∀ bits : BitVec 6,
    remapHex ((letter (some bits)).extractLsb' 0 7) = 0b1#1 ++ bits ∧ (letter (some bits)).getLsbD 7 = false := by
  decide

/-! ### The receiver -/

structure Receiver where
  pending : List (BitVec 6)
  lastWrite : Bool
  deriving DecidableEq, Repr

/-- All symbols are there. -/
def complete (p : List (BitVec 6)) : Bool := p.length == (codeLen (p.headD 0)).toNat

def writes (p : List (BitVec 6)) : Bool := (p.headD 0).extractLsb' 4 2 == 0b01#2

namespace Receiver

def hear (r : Receiver) : Option (BitVec 6) → Receiver
  | none => ⟨[], false⟩
  | some bits =>
    if complete (r.pending ++ [bits]) then ⟨[], writes (r.pending ++ [bits])⟩ else ⟨r.pending ++ [bits], r.lastWrite⟩

/-- The codeword that a symbol completes. -/
def tells (r : Receiver) : Option (BitVec 6) → List (List (BitVec 6))
  | none => if r.lastWrite then [[0x2e#6]] else []
  | some bits => if complete (r.pending ++ [bits]) then [r.pending ++ [bits]] else []

def hearAll (r : Receiver) (symbols : List (Option (BitVec 6))) : Receiver := Clocked.run hear r symbols

def tellsAll (r : Receiver) (symbols : List (Option (BitVec 6))) : List (List (BitVec 6)) :=
  Clocked.emitted hear tells r symbols

end Receiver

theorem codeLen_range (bits : BitVec 6) : 1 ≤ (codeLen bits).toNat ∧ (codeLen bits).toNat ≤ 6 := by
  revert bits
  decide

/-- Where the symbols of a codeword are heard, it is said with the last of them. -/
theorem hear_codeword {p rest : List (BitVec 6)} (whole : complete (p ++ rest) = true) (some_ : rest ≠ [])
    (writing : Bool) :
    Receiver.hearAll ⟨p, writing⟩ (rest.map some) = ⟨[], writes (p ++ rest)⟩ ∧
      Receiver.tellsAll ⟨p, writing⟩ (rest.map some) = [p ++ rest] := by
  induction rest generalizing p with
  | nil => exact absurd rfl some_
  | cons bits rest ih =>
    have split : p ++ bits :: rest = (p ++ [bits]) ++ rest := by simp
    by_cases last : rest = []
    · subst last
      constructor
      · simp [Receiver.hearAll, Receiver.hear, whole]
      · simp [Receiver.tellsAll, Receiver.tells, whole]
    · have short : complete (p ++ [bits]) = false := by
        have more := List.length_pos_iff.mpr last
        simp only [complete, beq_iff_eq, List.length_append, List.length_cons] at whole
        have head : (p ++ bits :: rest).headD 0 = (p ++ [bits]).headD 0 := by cases p <;> rfl
        rw [head] at whole
        rw [complete, ← whole, beq_eq_false_iff_ne, List.length_append, List.length_singleton]
        omega
      rw [split] at whole ⊢
      obtain ⟨heard, said⟩ := ih whole last
      constructor
      · rw [← heard]
        simp [Receiver.hearAll, Receiver.hear, short]
      · rw [← said]
        simp [Receiver.tellsAll, Receiver.tells, Receiver.hear, short]

/-! ### The symbols of a word -/

theorem symbolAt_bit (word : BitVec 36) {k b : Nat} (bit : b < 6) :
    (symbolAt word k).getLsbD b = word.getLsbD (30 - 6 * k + b) := by
  simp [symbolAt, bit]

theorem word_ext {v w : BitVec 36} (same : ∀ k, k < 6 → symbolAt v k = symbolAt w k) : v = w := by
  apply BitVec.eq_of_getLsbD_eq
  intro i small
  have place : 30 - 6 * (5 - i / 6) + i % 6 = i := by omega
  have bits := congrArg (fun s : BitVec 6 => s.getLsbD (i % 6)) (same (5 - i / 6) (by omega))
  simpa only [symbolAt_bit _ (Nat.mod_lt i (show 6 > 0 by decide)), place] using bits

theorem lead_symbol {w : BitVec 36} {p : List (BitVec 6)} (same : lead w = p) {k : Nat} (inside : k < p.length) :
    symbolAt w k = p[k] := by
  subst same
  simp [lead]

theorem lead_length (w : BitVec 36) : (lead w).length = (codeLen (symbolAt w 0)).toNat := by
  simp [lead]

/-- The fields of a codeword's first symbol. -/
theorem first_fields (w : BitVec 36) :
    w.extractLsb' 33 3 = (symbolAt w 0).extractLsb' 3 3 ∧ w.extractLsb' 30 3 = (symbolAt w 0).extractLsb' 0 3 ∧
    w.extractLsb' 31 3 = (symbolAt w 0).extractLsb' 1 3 ∧ w.extractLsb' 31 2 = (symbolAt w 0).extractLsb' 1 2 ∧
    w.extractLsb' 30 1 = (symbolAt w 0).extractLsb' 0 1 ∧ w.getLsbD 30 = (symbolAt w 0).getLsbD 0 ∧
    w.getLsbD 34 = (symbolAt w 0).getLsbD 4 ∧ w.getLsbD 35 = (symbolAt w 0).getLsbD 5 := by
  refine ⟨?_, ?_, ?_, ?_, ?_, ?_, ?_, ?_⟩
  case refine_6 | refine_7 | refine_8 => rw [symbolAt_bit _ (by decide)]
  all_goals
    apply BitVec.eq_of_getLsbD_eq
    intro i small
    rw [BitVec.getLsbD_extractLsb', BitVec.getLsbD_extractLsb', symbolAt_bit _ (by omega), decide_eq_true small,
      Bool.true_and, Bool.true_and]
    congr 1
    omega

/-- The symbols behind the first are the address. -/
theorem field_eq {w : BitVec 36} {k : Nat} (few : k ≤ 4) {a : BitVec (6 * (k + 1))}
    (same : ∀ j, j < k + 1 → symbolAt w (j + 1) = a.extractLsb' (6 * (k - j)) 6) :
    w.extractLsb' (24 - 6 * k) (6 * (k + 1)) = a := by
  apply BitVec.eq_of_getLsbD_eq
  intro i small
  have bit : i % 6 < 6 := Nat.mod_lt i (by decide)
  have bits := congrArg (fun s : BitVec 6 => s.getLsbD (i % 6)) (same (k - i / 6) (by omega))
  simp only [symbolAt_bit _ bit, BitVec.getLsbD_extractLsb', decide_eq_true bit, Bool.true_and] at bits
  have here : 30 - 6 * (k - i / 6 + 1) + i % 6 = 24 - 6 * k + i := by omega
  have there : 6 * (k - (k - i / 6)) + i % 6 = i := by omega
  rw [here, there] at bits
  rw [BitVec.getLsbD_extractLsb', decide_eq_true small, Bool.true_and, bits]

/-! ### The dictionary -/

/-- The table of written words, with the place of the next one. -/
structure Dictionary where
  wrAddr : BitVec 8
  tbl : BitVec 8 → BitVec 32

namespace Dictionary

def accept (t : Dictionary) (w : BitVec 36) : Dictionary where
  wrAddr := if w.extractLsb' 33 3 = 0x3#3 then t.wrAddr + 1 else t.wrAddr
  tbl := Function.update t.tbl t.wrAddr (writeData w)

/-- The command word that a codeword stands for. -/
def meaning (t : Dictionary) (w : BitVec 36) : BitVec 36 :=
  unpack w (shortAddr w) (readLen w) ((t.accept w).tbl (t.wrAddr - distance w))

def acceptAll (t : Dictionary) (ws : List (BitVec 36)) : Dictionary := Clocked.run accept t ws

def meanings (t : Dictionary) (ws : List (BitVec 36)) : List (BitVec 36) :=
  Clocked.emitted accept (fun t w => [t.meaning w]) t ws

/-- It has the last 255 words of the history. -/
def Keeps (t : Dictionary) (h : History) : Prop :=
  ∀ back : BitVec 8, 1 ≤ back.toNat → back.toNat ≤ h.length → t.tbl (t.wrAddr - back) = h.getD (back.toNat - 1) 0

end Dictionary

theorem unpack_first (w : BitVec 36) (a : BitVec 25) (l : BitVec 10) (c : BitVec 32) :
    unpack w a l c =
      if symbolAt w 0 = 0b101110#6 then w
      else if (symbolAt w 0).extractLsb' 3 3 = 0b001#3 ∧ (symbolAt w 0).getLsbD 0 = false then
        0x0#4 ++ a.signExtend 32
      else if (symbolAt w 0).extractLsb' 3 3 = 0b001#3 then
        0x1#3 ++ ((a.signExtend 32).extractLsb' 30 2 ++ (0b1#1 ++ (a.signExtend 32).extractLsb' 0 30))
      else if (symbolAt w 0).extractLsb' 3 3 = 0b010#3 then
        0x3#3 ++ (c.extractLsb' 30 2 ++ ((symbolAt w 0).extractLsb' 0 1 ++ c.extractLsb' 0 30))
      else if (symbolAt w 0).getLsbD 5 then
        0b11000#5 ++ ((symbolAt w 0).extractLsb' 0 1 ++ (0x00#20 ++ l))
      else w := by
  obtain ⟨top, -, -, -, inc, low, -, high⟩ := first_fields w
  rw [unpack, top, inc, low, high]
  rfl

theorem near_first : ∀ k : Fin 4, ∀ first : BitVec 6, first = 0b001#3 ++ (BitVec.ofNat 2 k ++ 0b0#1) →
    first ≠ 0b101110#6 ∧ first.extractLsb' 3 3 = 0b001#3 ∧ first.getLsbD 0 = false ∧
      (codeLen first).toNat = k + 2 ∧ first.extractLsb' 4 2 ≠ 0b01#2 := by
  decide

theorem offset_first : ∀ k : Fin 4, ∀ first : BitVec 6, first = 0b001#3 ++ (BitVec.ofNat 2 k ++ 0b1#1) →
    first ≠ 0b101110#6 ∧ first.extractLsb' 3 3 = 0b001#3 ∧ first.getLsbD 0 = true ∧
      (codeLen first).toNat = k + 2 ∧ first.extractLsb' 4 2 ≠ 0b01#2 := by
  decide

theorem shortAddr_near {w : BitVec 36} (k : Fin 4) (first : symbolAt w 0 = 0b001#3 ++ (BitVec.ofNat 2 k ++ 0b0#1)) :
    shortAddr w = (w.extractLsb' (24 - 6 * k.val) (6 * (k.val + 1))).setWidth 25 := by
  obtain ⟨-, low, -⟩ := first_fields w
  rw [first] at low
  rw [shortAddr, low]
  match k with
  | 0 => rfl
  | 1 => rfl
  | 2 => rfl
  | 3 => rfl

theorem shortAddr_offset {w : BitVec 36} (k : Fin 4) (first : symbolAt w 0 = 0b001#3 ++ (BitVec.ofNat 2 k ++ 0b1#1)) :
    shortAddr w = (w.extractLsb' (24 - 6 * k.val) (6 * (k.val + 1))).signExtend 25 := by
  obtain ⟨-, low, -⟩ := first_fields w
  rw [first] at low
  rw [shortAddr, low]
  match k with
  | 0 => rfl
  | 1 => rfl
  | 2 => rfl
  | 3 => rfl

theorem address_first (addr : BitVec 32) : symbolAt (0x0#4 ++ addr) 0 = 0x0#4 ++ addr.extractLsb' 30 2 := by
  apply BitVec.eq_of_getLsbD_eq
  intro i small
  rw [symbolAt_bit _ small, BitVec.getLsbD_append, BitVec.getLsbD_append, BitVec.getLsbD_extractLsb']
  interval_cases i <;> simp

theorem tagged_first (top : BitVec 3) (data : BitVec 32) (tag : BitVec 1) :
    symbolAt (top ++ (data.extractLsb' 30 2 ++ (tag ++ data.extractLsb' 0 30))) 0 =
      top ++ (data.extractLsb' 30 2 ++ tag) := by
  apply BitVec.eq_of_getLsbD_eq
  intro i small
  simp only [symbolAt_bit _ small, BitVec.getLsbD_append, BitVec.getLsbD_extractLsb']
  interval_cases i <;> simp

theorem read_first_symbol (inc : BitVec 1) (length : BitVec 10) :
    symbolAt (0b11000#5 ++ (inc ++ (0x00#20 ++ length))) 0 = 0b11000#5 ++ inc := by
  apply BitVec.eq_of_getLsbD_eq
  intro i small
  simp only [symbolAt_bit _ small, BitVec.getLsbD_append]
  interval_cases i <;> simp

theorem write_first (data : BitVec 32) (inc : Bool) :
    symbolAt (writeWord data inc) 0 = 0x3#3 ++ (data.extractLsb' 30 2 ++ BitVec.ofBool inc) :=
  tagged_first _ data _

theorem writeData_writeWord (data : BitVec 32) (inc : Bool) : writeData (writeWord data inc) = data := by
  apply BitVec.eq_of_getLsbD_eq
  intro i small
  simp only [writeData, writeWord, BitVec.getLsbD_append, BitVec.getLsbD_extractLsb']
  interval_cases i <;> simp

theorem address_begins : ∀ a : BitVec 2, (codeLen (0x0#4 ++ a)).toNat = 6 ∧ (0x0#4 ++ a).extractLsb' 4 2 ≠ 0b01#2 ∧
    (0x0#4 ++ a).extractLsb' 3 3 = 0x0#3 ∧ (0x0#4 ++ a).getLsbD 5 = false ∧ 0x0#4 ++ a ≠ 0b101110#6 := by
  decide

theorem write_begins : ∀ d : BitVec 2, ∀ inc : Bool, ∀ first : BitVec 6, first = 0x3#3 ++ (d ++ BitVec.ofBool inc) →
    (codeLen first).toNat = 6 ∧ first.extractLsb' 4 2 = 0b01#2 ∧ first.extractLsb' 3 3 = 0x3#3 ∧
      first.getLsbD 5 = false ∧ first ≠ 0b101110#6 := by
  decide

theorem again_begins : ∀ d : BitVec 2, ∀ inc : Bool, ∀ first : BitVec 6, first = 0b010#3 ++ (d ++ BitVec.ofBool inc) →
    (codeLen first).toNat = 2 ∧ first.extractLsb' 4 2 = 0b01#2 ∧ first.extractLsb' 3 3 = 0b010#3 ∧
      first.extractLsb' 0 1 = BitVec.ofBool inc ∧ first.extractLsb' 1 2 = d ∧ first ≠ 0b101110#6 := by
  decide

theorem short_begins : ∀ l : BitVec 3, ∀ inc : Bool, ∀ first : BitVec 6, first = 0b10#2 ++ (l ++ BitVec.ofBool inc) →
    (codeLen first).toNat = 1 ∧ first.extractLsb' 4 2 = 0b10#2 ∧ first.extractLsb' 3 3 ≠ 0b001#3 ∧
      first.extractLsb' 3 3 ≠ 0b010#3 ∧ first.extractLsb' 3 3 ≠ 0x3#3 ∧ first.getLsbD 5 = true ∧
      first.getLsbD 4 = false ∧ first.extractLsb' 0 1 = BitVec.ofBool inc ∧ first.extractLsb' 1 3 = l ∧
      (first = 0b101110#6 → l = 0b111#3 ∧ inc = false) := by
  decide

theorem long_begins : ∀ l : BitVec 3, ∀ inc : Bool, ∀ first : BitVec 6, first = 0b11#2 ++ (l ++ BitVec.ofBool inc) →
    (codeLen first).toNat = 2 ∧ first.extractLsb' 4 2 = 0b11#2 ∧ first.extractLsb' 3 3 ≠ 0b001#3 ∧
      first.extractLsb' 3 3 ≠ 0b010#3 ∧ first.extractLsb' 3 3 ≠ 0x3#3 ∧ first.getLsbD 5 = true ∧
      first.getLsbD 4 = true ∧ first.extractLsb' 0 1 = BitVec.ofBool inc ∧ first.extractLsb' 1 3 = l ∧
      first ≠ 0b101110#6 := by
  decide

theorem length_short : ∀ l : BitVec 10, 1 ≤ l → l ≤ 8 →
    0x01#10 + (0#7 ++ (l - 1).extractLsb' 0 3) = l ∧ ((l - 1).extractLsb' 0 3 = 0b111#3 → l = 8) := by
  decide +kernel

theorem length_long : ∀ l : BitVec 10, ¬l ≤ 8 → l ≤ 520 →
    0x09#10 + (0#1 ++ ((l - 9).extractLsb' 6 3 ++ (l - 9).extractLsb' 0 6)) = l := by
  decide +kernel

namespace Command

theorem encode_short {length : BitVec 10} (inc : Bool) (short : length ≤ 8) :
    (read length inc).encode = [0b10#2 ++ ((length - 1).extractLsb' 0 3 ++ BitVec.ofBool inc)] := if_pos short

theorem encode_long {length : BitVec 10} (inc : Bool) (long : ¬length ≤ 8) :
    (read length inc).encode =
      [0b11#2 ++ ((length - 9).extractLsb' 6 3 ++ BitVec.ofBool inc), (length - 9).extractLsb' 0 6] := if_neg long

end Command

/-- How a command's codeword begins, and what that makes of it. -/
structure Begins (c : Command) (first : BitVec 6) : Prop where
  length : (codeLen first).toNat = c.encode.length
  writes : (first.extractLsb' 4 2 == 0b01#2) = c.isWrite
  enters : first.extractLsb' 3 3 = 0x3#3 ↔ ∃ data inc, c = .write data inc
  ends : first ≠ 0b101110#6

theorem encode_begins (c : Command) {h : History} (valid : c.Valid h) :
    ∃ first rest, c.encode = first :: rest ∧ Begins c first := by
  cases c with
  | address addr =>
    have first := address_first addr
    obtain ⟨six, silent, top, -, ends⟩ := address_begins (addr.extractLsb' 30 2)
    rw [← first] at six silent top ends
    refine ⟨_, _, rfl, six, ?_, ?_, ends⟩
    · simpa [Command.isWrite] using silent
    · simp [top]
  | near k addr =>
    obtain ⟨ends, top, -, long, silent⟩ := near_first k _ rfl
    refine ⟨_, _, rfl, long.trans ?_, ?_, ?_, ends⟩
    · simp [Command.encode, Command.chunks]
    · exact beq_eq_false_iff_ne.mpr silent
    · rw [top]
      simp
  | offset k off =>
    obtain ⟨ends, top, -, long, silent⟩ := offset_first k _ rfl
    refine ⟨_, _, rfl, long.trans ?_, ?_, ?_, ends⟩
    · simp [Command.encode, Command.chunks]
    · exact beq_eq_false_iff_ne.mpr silent
    · rw [top]
      simp
  | write data inc =>
    have first := write_first data inc
    obtain ⟨six, loud, top, -, ends⟩ := write_begins (data.extractLsb' 30 2) inc _ first
    exact ⟨_, _, rfl, six, by simp [loud, Command.isWrite], by simp [top], ends⟩
  | again back inc =>
    obtain ⟨two, loud, top, -, -, ends⟩ := again_begins (back.extractLsb' 6 2) inc _ rfl
    exact ⟨_, _, rfl, two, by simp [loud, Command.isWrite], by simp [top], ends⟩
  | read length inc =>
    obtain ⟨least, most, free⟩ := valid
    -- A short read has its whole length in the first symbol; the one whose symbol ends a write is not sent.
    by_cases short : length ≤ 8
    · obtain ⟨one, silent, -, -, top, -, -, -, -, ends⟩ := short_begins ((length - 1).extractLsb' 0 3) inc _ rfl
      refine ⟨_, _, Command.encode_short inc short, ?_, ?_, ?_, ?_⟩
      · rw [one, Command.encode_short inc short]
        rfl
      · rw [silent]
        rfl
      · exact iff_of_false top (by simp)
      · intro same
        obtain ⟨seven, still⟩ := ends same
        exact free ⟨(length_short length least short).2 seven, still⟩
    · obtain ⟨two, silent, -, -, top, -, -, -, -, ends⟩ := long_begins ((length - 9).extractLsb' 6 3) inc _ rfl
      refine ⟨_, _, Command.encode_long inc short, ?_, ?_, ?_, ends⟩
      · rw [two, Command.encode_long inc short]
        rfl
      · rw [silent]
        rfl
      · exact iff_of_false top (by simp)

/-! ### What a codeword means -/

theorem view_first {w : BitVec 36} {first : BitVec 6} (leads : symbolAt w 0 = first) (other : first ≠ 0x2e#6) :
    view w = some w := by
  rw [← leads] at other
  exact if_neg other

theorem offset_other : ∀ (d : BitVec 2) (tag : BitVec 1), 0x1#3 ++ (d ++ tag) ≠ 0x2e#6 := by decide

theorem write_other : ∀ (d : BitVec 2) (tag : BitVec 1), 0x3#3 ++ (d ++ tag) ≠ 0x2e#6 := by decide

theorem read_other : ∀ inc : BitVec 1, 0b11000#5 ++ inc ≠ 0x2e#6 := by decide

/-- The words of commands never look like the end of a write. -/
theorem view_word (c : Command) (h : History) : view (c.word h) = some (c.word h) := by
  cases c with
  | address addr => exact view_first (address_first addr) (address_begins _).2.2.2.2
  | near k addr => exact view_first (address_first _) (address_begins _).2.2.2.2
  | offset k off => exact view_first (tagged_first _ _ _) (offset_other _ _)
  | write data inc => exact view_first (tagged_first _ _ _) (write_other _ _)
  | again back inc => exact view_first (tagged_first _ _ _) (write_other _ _)
  | read length inc => exact view_first (read_first_symbol _ _) (read_other _)

namespace Dictionary

variable {t : Dictionary} {h : History} {w : BitVec 36}

theorem accept_tbl : (t.accept w).tbl = Function.update t.tbl t.wrAddr (writeData w) := rfl

/-- What has been written is found under its distance, in the clock of a later write too. -/
theorem accept_earlier (keeps : t.Keeps h) {back : BitVec 8} (least : 1 ≤ back.toNat) (most : back.toNat ≤ h.length) :
    (t.accept w).tbl (t.wrAddr - back) = h.getD (back.toNat - 1) 0 := by
  have elsewhere : t.wrAddr - back ≠ t.wrAddr := by bv_omega
  rw [accept_tbl, Function.update_of_ne elsewhere]
  exact keeps back least most

theorem accept_wrAddr (first : BitVec 6) (leads : symbolAt w 0 = first) :
    (t.accept w).wrAddr = if first.extractLsb' 3 3 = 0x3#3 then t.wrAddr + 1 else t.wrAddr := by
  obtain ⟨top, -⟩ := first_fields w
  rw [accept, top, leads]

theorem keeps_other {first : BitVec 6} (leads : symbolAt w 0 = first) (other : first.extractLsb' 3 3 ≠ 0x3#3)
    (keeps : t.Keeps h) : (t.accept w).Keeps h := by
  intro back least most
  rw [accept_wrAddr first leads, if_neg other]
  exact accept_earlier keeps least most

theorem keeps_write {data : BitVec 32} {inc : Bool} (keeps : t.Keeps h) :
    (t.accept (writeWord data inc)).Keeps (data :: h) := by
  intro back least most
  have three := (write_begins _ inc _ (write_first data inc)).2.2.1
  rw [accept_wrAddr _ rfl, if_pos three]
  by_cases one : back.toNat = 1
  · have here : t.wrAddr + 1 - back = t.wrAddr := by bv_omega
    rw [here, accept_tbl, Function.update_self, writeData_writeWord, one]
    rfl
  · have earlier : t.wrAddr + 1 - back = t.wrAddr - (back - 1) := by bv_omega
    have less : (back - 1).toNat = back.toNat - 1 := by bv_omega
    rw [List.length_cons] at most
    rw [earlier, accept_earlier keeps (by omega) (by omega), less]
    obtain ⟨n, size⟩ : ∃ n, back.toNat - 1 = n + 1 := ⟨back.toNat - 2, by omega⟩
    rw [size]
    rfl

end Dictionary

/-- A codeword of six symbols is the whole word. -/
theorem spell_lead {v w : BitVec 36} (same : lead w = spell v) : w = v := by
  apply word_ext
  intro k inside
  have here := lead_symbol same (k := k) (by simpa [spell] using inside)
  simpa [spell] using here

theorem lead_cons {w : BitVec 36} {first : BitVec 6} {rest : List (BitVec 6)} (same : lead w = first :: rest) :
    symbolAt w 0 = first ∧ ∀ (k : Nat) (inside : k < rest.length), symbolAt w (k + 1) = rest[k] :=
  ⟨lead_symbol same (Nat.succ_pos _), fun _ inside => lead_symbol same (Nat.succ_lt_succ inside)⟩

theorem lead_chunks {w : BitVec 36} {first : BitVec 6} (k : Fin 4) {a : BitVec (6 * (k.val + 1))}
    (same : lead w = first :: Command.chunks k a) : w.extractLsb' (24 - 6 * k.val) (6 * (k.val + 1)) = a := by
  apply field_eq (by omega)
  intro j inside
  have here := (lead_cons same).2 j (by simpa [Command.chunks] using inside)
  simpa [Command.chunks] using here

theorem extend_near (k : Fin 4) (a : BitVec (6 * (k.val + 1))) : (a.setWidth 25).signExtend 32 = a.setWidth 32 := by
  apply BitVec.eq_of_getLsbD_eq
  intro i small
  have top : a.getLsbD 24 = false := BitVec.getLsbD_of_ge a 24 (by omega)
  have beyond : 25 ≤ i → a.getLsbD i = false := fun large => BitVec.getLsbD_of_ge a i (by omega)
  rw [BitVec.getLsbD_signExtend, BitVec.msb_eq_getLsbD_last, BitVec.getLsbD_setWidth, BitVec.getLsbD_setWidth,
    BitVec.getLsbD_setWidth, top]
  by_cases inside : i < 25
  · simp [small, inside]
  · simp [inside, beyond (by omega)]

theorem distance_eq {w : BitVec 36} {back : BitVec 8} (high : (symbolAt w 0).extractLsb' 1 2 = back.extractLsb' 6 2)
    (low : symbolAt w 1 = back.extractLsb' 0 6) : distance w = back := by
  obtain ⟨-, -, -, two, -⟩ := first_fields w
  have rest : w.extractLsb' 24 6 = back.extractLsb' 0 6 := low
  have whole : back.extractLsb' 6 2 ++ back.extractLsb' 0 6 = back.extractLsb' 0 8 := Fields.joined back 0
  rw [distance, two, high, rest, whole, BitVec.extractLsb'_eq_self]

/-- A codeword is taken as the command that it was sent for. -/
theorem meaning_command {t : Dictionary} {h : History} {w : BitVec 36} {c : Command} (valid : c.Valid h)
    (keeps : t.Keeps h) (same : lead w = c.encode) :
    t.meaning w = c.word h ∧ (t.accept w).Keeps (c.after h) := by
  cases c with
  | address addr =>
    obtain ⟨-, -, top, low, ends⟩ := address_begins (addr.extractLsb' 30 2)
    rw [← address_first addr] at top low ends
    obtain rfl := spell_lead same
    refine ⟨?_, Dictionary.keeps_other rfl (by simp [top]) keeps⟩
    rw [Dictionary.meaning, unpack_first, if_neg ends, top, low]
    rfl
  | near k addr =>
    obtain ⟨ends, top, low, -, -⟩ := near_first k _ (lead_cons same).1
    refine ⟨?_, Dictionary.keeps_other rfl (by simp [top]) keeps⟩
    rw [Dictionary.meaning, unpack_first, if_neg ends, if_pos ⟨top, low⟩, shortAddr_near k (lead_cons same).1,
      lead_chunks k same, extend_near]
    rfl
  | offset k off =>
    obtain ⟨ends, top, low, -, -⟩ := offset_first k _ (lead_cons same).1
    refine ⟨?_, Dictionary.keeps_other rfl (by simp [top]) keeps⟩
    rw [Dictionary.meaning, unpack_first, if_neg ends, if_neg (by simp [low]), if_pos top,
      shortAddr_offset k (lead_cons same).1, lead_chunks k same,
      Fields.signExtend_twice off 32 (by decide) (by omega)]
    rfl
  | write data inc =>
    obtain ⟨-, -, top, low, ends⟩ := write_begins _ inc _ (write_first data inc)
    obtain rfl := spell_lead same
    refine ⟨?_, Dictionary.keeps_write keeps⟩
    rw [Dictionary.meaning, unpack_first, if_neg ends, top, low]
    rfl
  | again back inc =>
    obtain ⟨first, second⟩ := lead_cons same
    obtain ⟨-, -, top, tag, high, ends⟩ := again_begins _ inc _ first
    have far : distance w = back := distance_eq high (second 0 Nat.one_pos)
    refine ⟨?_, Dictionary.keeps_other rfl (by simp [top]) keeps⟩
    rw [Dictionary.meaning, unpack_first, if_neg ends, if_neg (by simp [top]), if_neg (by simp [top]), if_pos top, far,
      Dictionary.accept_earlier keeps valid.1 valid.2, tag]
    rfl
  | read length inc =>
    obtain ⟨-, -, three, -, -, -, long, -⟩ := first_fields w
    -- Up to eight words are one symbol; a longer read has six more bits in the second.
    by_cases short : length ≤ 8
    · rw [Command.encode_short inc short] at same
      obtain ⟨first, -⟩ := lead_cons same
      obtain ⟨-, -, near, again, top, high, low, tag, l, seven⟩ := short_begins _ inc _ rfl
      rw [← first] at near again top high low tag l seven
      have ends : symbolAt w 0 ≠ 0b101110#6 := fun same =>
        valid.2.2 ⟨(length_short length valid.1 short).2 (seven same).1, (seven same).2⟩
      refine ⟨?_, Dictionary.keeps_other rfl top keeps⟩
      have size : readLen w = length := by
        rw [readLen, long, low, three, l]
        exact (length_short length valid.1 short).1
      rw [Dictionary.meaning, unpack_first, if_neg ends, if_neg (by simp [near]), if_neg near, if_neg again, if_pos high,
        tag, size]
      rfl
    · rw [Command.encode_long inc short] at same
      obtain ⟨first, second⟩ := lead_cons same
      obtain ⟨-, -, near, again, top, high, low, tag, l, ends⟩ := long_begins _ inc _ rfl
      rw [← first] at near again top high low tag l ends
      refine ⟨?_, Dictionary.keeps_other rfl top keeps⟩
      have size : readLen w = length := by
        have rest : w.extractLsb' 24 6 = (length - 9).extractLsb' 0 6 := second 0 Nat.one_pos
        rw [readLen, long, low, three, l, rest]
        exact length_long length short valid.2.1
      rw [Dictionary.meaning, unpack_first, if_neg ends, if_neg (by simp [near]), if_neg near, if_neg again, if_pos high,
        tag, size]
      rfl

end IcoZip.Wbubus
