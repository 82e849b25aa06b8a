import IcoZip.Hexbus.Host
import Mathlib.Tactic.IntervalCases

/-! What the host makes of the replies it receives.

Between replies the host is quiet. `readword` passes over what comes before a
data reply and takes its word; the rounds of `readidle` count acknowledgements,
and it makes no difference to them where the rounds end, as long as no round
ends inside the answer to an address command.
-/

set_option autoImplicit false

namespace IcoZip.Hexbus

/-! ### Characters -/

def isDigit (char : BitVec 8) : Bool := isdigit char || islower char

/-- A character that begins a token. -/
def isLetter (char : BitVec 8) : Bool := !isDigit char && !isspace char

/-- A hexadecimal digit as the host receives it. -/
def digitChar (digit : BitVec 4) : BitVec 8 := (hexChar digit).setWidth 8

theorem shiftDigit_digitChar (word : BitVec 32) (digit : BitVec 4) :
    shiftDigit word (digitChar digit) = (word <<< 4) ||| digit.setWidth 32 := by
  have table : ∀ d : BitVec 4, isdigit (digitChar d) = true ∧ digitChar d &&& 0x0f = d.setWidth 8 ∨
      isdigit (digitChar d) = false ∧ (digitChar d - 0x61 + 10) &&& 0x0f = d.setWidth 8 := by decide
  have widen : ∀ d : BitVec 4, (d.setWidth 8).setWidth 32 = d.setWidth 32 := by decide
  rcases table digit with ⟨decimal, value⟩ | ⟨letter, value⟩
  · rw [shiftDigit, if_pos decimal, value, widen]
  · rw [shiftDigit, letter, value, widen]
    rfl

theorem isDigit_digitChar : ∀ digit : BitVec 4, isDigit (digitChar digit) = true := by decide

/-- The digits of a word, most significant first. -/
def nibbles (value : BitVec 32) : List (BitVec 4) := (List.range 8).map fun k => value.extractLsb' (28 - 4 * k) 4

theorem hex08_eq (value : BitVec 32) : hex08 value = (nibbles value).map digitChar := by
  simp [hex08, hexDigits, nibbles, digitChar]

theorem isDigit_of_mem_hex08 {value : BitVec 32} {char : BitVec 8} (member : char ∈ hex08 value) :
    isDigit char = true := by
  rw [hex08_eq] at member
  obtain ⟨digit, -, rfl⟩ := List.mem_map.mp member
  exact isDigit_digitChar digit

theorem digitsValue_nibbles (value : BitVec 32) : digitsValue (nibbles value) = value.toNat := by
  have bound := value.isLt
  simp only [digitsValue, nibbles, List.range_succ, List.range_zero, List.nil_append, List.map_append, List.map_cons,
    List.map_nil, List.foldl_append, List.foldl_cons, List.foldl_nil, BitVec.extractLsb'_toNat,
    Nat.shiftRight_eq_div_pow]
  omega

theorem shiftDigit_foldl (digits : List (BitVec 4)) (value : Nat) :
    (digits.map digitChar).foldl shiftDigit (BitVec.ofNat 32 value) =
      BitVec.ofNat 32 (digits.foldl (fun value digit => value * 16 + digit.toNat) value) := by
  induction digits generalizing value with
  | nil => rfl
  | cons digit digits ih =>
    have shifted : shiftDigit (BitVec.ofNat 32 value) (digitChar digit) =
        BitVec.ofNat 32 (value * 16 + digit.toNat) := by
      rw [shiftDigit_digitChar]
      apply BitVec.eq_of_toNat_eq
      have small := digit.isLt
      have disjoint : 2 ^ 4 * (value % 2 ^ 28) + digit.toNat = 2 ^ 4 * (value % 2 ^ 28) ||| digit.toNat :=
        Nat.two_pow_add_eq_or_of_lt small _
      have high : (BitVec.ofNat 32 value <<< 4).toNat = 2 ^ 4 * (value % 2 ^ 28) := by
        rw [BitVec.toNat_shiftLeft, BitVec.toNat_ofNat, Nat.shiftLeft_eq]
        omega
      have low : (digit.setWidth 32).toNat = digit.toNat := by
        rw [BitVec.toNat_setWidth]
        omega
      rw [BitVec.toNat_or, high, low, ← disjoint, BitVec.toNat_ofNat]
      omega
    rw [List.map_cons, List.foldl_cons, List.foldl_cons, shifted, ih]

/-- The host reads back what `%08x` prints. -/
theorem shiftDigit_hex08 (value : BitVec 32) : (hex08 value).foldl shiftDigit 0 = value := by
  have read := shiftDigit_foldl (nibbles value) 0
  have total := digitsValue_nibbles value
  rw [digitsValue] at total
  rw [hex08_eq]
  refine Eq.trans read ?_
  rw [total]
  simp

/-! ### Between replies -/

namespace Host

/-- No reply is half read. -/
def Quiet (h : Host) : Prop := h.isspace = true ∨ h.cmd = 0

end Host

theorem letter_parts {char : BitVec 8} (letter : isLetter char = true) :
    (isdigit char || islower char) = false ∧ isspace char = false := by
  simpa [isLetter, isDigit] using letter

theorem space_parts {char : BitVec 8} (space : isspace char = true) : (isdigit char || islower char) = false := by
  have table : ∀ c : BitVec 8, isspace c = true → (isdigit c || islower c) = false := by decide
  exact table char space

/-- Reading a letter, a token begins. -/
def Host.begin_ (h : Host) (letter : BitVec 8) : Host := { h with cmd := letter, isspace := false }

section
variable {h : Host} {word : BitVec 32} {countdown : Nat}

theorem readwordLoop_digits (digits : Incoming) (text : Incoming) (all : ∀ x ∈ digits, isDigit x.1 = true)
    (open_ : h.isspace = false) :
    readwordLoop h word countdown (digits ++ text) =
      readwordLoop h ((digits.map Prod.fst).foldl shiftDigit word) countdown text := by
  induction digits generalizing word with
  | nil => rfl
  | cons x digits ih =>
    have first : (isdigit x.1 || islower x.1) = true := all x (by simp)
    have same : { h with isspace := false } = h := by
      cases h
      simp_all
    rw [List.cons_append, readwordLoop, readwordChar, if_pos first]
    simp only [same]
    rw [ih fun y member => all y (by simp [member])]
    rfl

/-- Space between replies is passed over, up to the letter of the next one. -/
theorem readwordLoop_quiet (quiet : h.Quiet) {spaces : Incoming} (all : ∀ x ∈ spaces, isspace x.1 = true)
    {letter : BitVec 8} (capital : isLetter letter = true) (late : Bool) (text : Incoming) :
    readwordLoop h word countdown (spaces ++ (letter, late) :: text) =
      readwordLoop (h.begin_ letter) 0 countdown text := by
  obtain ⟨notDigit, notSpace⟩ := letter_parts capital
  have settles (c : BitVec 8) (other : (isdigit c || islower c) = false) :
      readwordChar h word countdown c = .more (h.token c) 0 countdown := by
    rcases quiet with space | fresh
    · simp [readwordChar, other, space]
    · simp [readwordChar, other, fresh, HEXB_READ, HEXB_ACK, HEXB_INT, HEXB_ERR, HEXB_IDLE, HEXB_ADDR, HEXB_RESET]
  induction spaces generalizing h word with
  | nil =>
    rw [List.nil_append, readwordLoop, settles letter notDigit]
    simp only [Host.token, notSpace, Bool.false_eq_true, if_false, Host.begin_]
  | cons x spaces ih =>
    have space : isspace x.1 = true := all x (by simp)
    rw [List.cons_append, readwordLoop, settles x.1 (space_parts space)]
    have spaced : (h.token x.1).isspace = true := by simp [Host.token, space]
    have rest := @ih (h.token x.1) 0 (Or.inl spaced) (fun y member => all y (by simp [member]))
      fun c other => by simp [readwordChar, other, spaced]
    simp only [rest]
    simp [Host.token, space, Host.begin_]

/-- An address reply takes effect with the character behind it. -/
theorem readwordLoop_address (pending : h.cmd = HEXB_ADDR) (open_ : h.isspace = false) {spaces : Incoming}
    (all : ∀ x ∈ spaces, isspace x.1 = true) {letter : BitVec 8} (capital : isLetter letter = true) (late : Bool)
    (text : Incoming) :
    readwordLoop h word countdown (spaces ++ (letter, late) :: text) =
      readwordLoop ((h.address word).begin_ letter) 0 countdown text := by
  obtain ⟨notDigit, notSpace⟩ := letter_parts capital
  have takes (c : BitVec 8) (other : (isdigit c || islower c) = false) :
      readwordChar h word countdown c = .more ((h.address word).token c) 0 countdown := by
    simp [readwordChar, other, open_, pending, HEXB_READ, HEXB_ACK, HEXB_INT, HEXB_ERR, HEXB_IDLE, HEXB_ADDR]
  cases spaces with
  | nil =>
    rw [List.nil_append, readwordLoop, takes letter notDigit]
    simp only [Host.token, notSpace, Bool.false_eq_true, if_false, Host.begin_]
  | cons x spaces =>
    have space : isspace x.1 = true := all x (by simp)
    rw [List.cons_append, readwordLoop, takes x.1 (space_parts space)]
    have quiet : ((h.address word).token x.1).Quiet := Or.inl (by simp [Host.token, space])
    have rest : ∀ y ∈ spaces, isspace y.1 = true := fun y member => all y (List.mem_cons_of_mem x member)
    simp only [readwordLoop_quiet quiet rest capital late text]
    simp [Host.token, space, Host.begin_]

end

/-- Characters that, read from `h` on, leave `g` at the next letter. -/
def Leads (h : Host) (pre : Incoming) (g : Host) : Prop :=
  ∀ letter late countdown text, isLetter letter = true →
    readwordLoop h 0 countdown (pre ++ (letter, late) :: text) = readwordLoop (g.begin_ letter) 0 countdown text

theorem leads_quiet {h : Host} (quiet : h.Quiet) {spaces : Incoming} (all : ∀ x ∈ spaces, isspace x.1 = true) :
    Leads h spaces h :=
  fun _ late _ text capital => readwordLoop_quiet quiet all capital late text

theorem leads_address {h : Host} (quiet : h.Quiet) {spaces digits tail : Incoming}
    (all : ∀ x ∈ spaces, isspace x.1 = true) (late : Bool) {value : BitVec 32}
    (shown : digits.map Prod.fst = hex08 value) (ends : ∀ x ∈ tail, isspace x.1 = true) :
    Leads h (spaces ++ (HEXB_ADDR, late) :: (digits ++ tail)) (h.address value) := by
  intro letter late' countdown text capital
  have allDigits : ∀ x ∈ digits, isDigit x.1 = true := fun x member =>
    isDigit_of_mem_hex08 (shown ▸ List.mem_map_of_mem member)
  rw [List.append_assoc, List.cons_append, readwordLoop_quiet quiet all (by decide), List.append_assoc,
    readwordLoop_digits digits _ allDigits rfl, shown, shiftDigit_hex08,
    readwordLoop_address rfl rfl ends capital]
  rfl

theorem newline_shape {tail : Incoming} (shown : tail.map Prod.fst = newline) :
    ∃ x y, tail = [(0x0d, x), (0x0a, y)] := by
  obtain ⟨⟨c, x⟩, rest, rfl, first, line⟩ := List.map_eq_cons_iff.mp shown
  obtain ⟨⟨d, y⟩, none, rfl, second, nil⟩ := List.map_eq_cons_iff.mp line
  rw [List.map_eq_nil_iff] at nil
  subst nil first second
  exact ⟨x, y, rfl⟩

/-- On an empty line the newline that is owed comes. -/
theorem Line.wait_owed {δ : Type} (l : Line δ) (owed : l.owed = true) :
    ({ l with text := [] } : Line δ).wait =
      { l with
        text := [(0x0d, l.choices 0), (0x0a, l.choices 1)], owed := false, choices := fun n => l.choices (n + 2) } := by
  simp [Line.wait, owed, Line.endLine, Line.arrive, newline]

namespace Session
variable {δ : Type}

/-- `readword` takes the word of the next data reply. -/
theorem readword_spec {s : Session δ} {pre digits tail : Incoming} {g : Host} {late : Bool} {value : BitVec 32}
    (text : s.line.text = pre ++ (HEXB_READ, late) :: (digits ++ tail)) (leads : Leads s.host pre g)
    (shown : digits.map Prod.fst = hex08 value)
    (ends : tail = [] ∧ s.line.owed = true ∨ tail.map Prod.fst = newline) :
    ∃ line, s.readword = .ok value ⟨{ g.advance with cmd := HEXB_READ, isspace := true }, line⟩ ∧
      line.peer = s.line.peer ∧ line.text.map Prod.fst = [0x0a] := by
  have allDigits : ∀ x ∈ digits, isDigit x.1 = true := fun x member =>
    isDigit_of_mem_hex08 (shown ▸ List.mem_map_of_mem member)
  have reads (more : Incoming) : readwordLoop s.host 0 3 (pre ++ (HEXB_READ, late) :: (digits ++ more)) =
      readwordLoop (g.begin_ HEXB_READ) value 3 more := by
    rw [leads HEXB_READ late 3 _ (by decide), readwordLoop_digits digits _ allDigits rfl, shown, shiftDigit_hex08]
  have done (x y : Bool) : readwordLoop (g.begin_ HEXB_READ) value 3 [(0x0d, x), (0x0a, y)] =
      .inr (.ok value ({ g.advance with cmd := HEXB_READ, isspace := true }, [(0x0a, y)])) := by
    have step : readwordChar (g.begin_ HEXB_READ) value 3 0x0d =
        .done { g.advance with cmd := HEXB_READ, isspace := true } value := by
      cases inc : g.inc <;>
        simp [readwordChar, Host.begin_, HEXB_READ, Host.advance, inc, Host.token, isdigit, islower, isspace]
    simp only [readwordLoop, step]
  rcases ends with ⟨none, owed⟩ | line
  · -- the digits end the text, so `readword` waits for the newline that is owed
    subst none
    rw [List.append_nil] at text
    have short : readwordLoop s.host 0 3 (pre ++ (HEXB_READ, late) :: digits) =
        .inl (g.begin_ HEXB_READ, value, 3) := by
      have read := reads []
      rwa [List.append_nil] at read
    have ended := s.line.wait_owed owed
    refine ⟨{ s.line with
      text := [(0x0a, s.line.choices 1)], owed := false, choices := fun n => s.line.choices (n + 2) }, ?_, rfl, rfl⟩
    simp only [readword, text, short, ended, done, Outcome.mapState, resume]
  · obtain ⟨x, y, rfl⟩ := newline_shape line
    refine ⟨{ s.line with text := [(0x0a, y)] }, ?_, rfl, rfl⟩
    simp only [readword, text, reads, done, Outcome.mapState, resume]

/-- `readword` throws at the character behind an error reply, and goes on from there. -/
theorem readword_error {s : Session δ} {pre tail : Incoming} {g : Host} {late : Bool}
    (text : s.line.text = pre ++ (HEXB_ERR, late) :: tail) (leads : Leads s.host pre g)
    (ends : tail = [] ∧ s.line.owed = true ∨ tail.map Prod.fst = newline) :
    ∃ line, s.readword = .buserr g.lastaddr ⟨{ g with busErr := true, cmd := HEXB_ERR, isspace := true }, line⟩ ∧
      line.peer = s.line.peer ∧ line.text.map Prod.fst = [0x0a] := by
  have reads (more : Incoming) : readwordLoop s.host 0 3 (pre ++ (HEXB_ERR, late) :: more) =
      readwordLoop (g.begin_ HEXB_ERR) 0 3 more := leads HEXB_ERR late 3 more (by decide)
  have throws (x y : Bool) : readwordLoop (g.begin_ HEXB_ERR) 0 3 [(0x0d, x), (0x0a, y)] =
      .inr (.buserr g.lastaddr ({ g with busErr := true, cmd := HEXB_ERR, isspace := true }, [(0x0a, y)])) := by
    have step : readwordChar (g.begin_ HEXB_ERR) 0 3 0x0d =
        .throw { g with busErr := true, cmd := HEXB_ERR, isspace := true } g.lastaddr := by
      simp [readwordChar, Host.begin_, HEXB_READ, HEXB_ACK, HEXB_INT, HEXB_ERR, Host.token, isdigit, islower, isspace]
    simp only [readwordLoop, step]
  rcases ends with ⟨none, owed⟩ | line
  · subst none
    have short : readwordLoop s.host 0 3 (pre ++ [(HEXB_ERR, late)]) = .inl (g.begin_ HEXB_ERR, 0, 3) := reads []
    have ended := s.line.wait_owed owed
    refine ⟨{ s.line with
      text := [(0x0a, s.line.choices 1)], owed := false, choices := fun n => s.line.choices (n + 2) }, ?_, rfl, rfl⟩
    simp only [readword, text, short, ended, throws, Outcome.mapState, resume]
  · obtain ⟨x, y, rfl⟩ := newline_shape line
    refine ⟨{ s.line with text := [(0x0a, y)] }, ?_, rfl, rfl⟩
    simp only [readword, text, reads, throws, Outcome.mapState, resume]

end Session

/-! ### Counting acknowledgements -/

@[simp] theorem Host.advance_addrSet (h : Host) : h.advance.addrSet = h.addrSet := by
  rw [advance]
  split_ifs <;> rfl

@[simp] theorem Host.advance_inc (h : Host) : h.advance.inc = h.inc := by
  rw [advance]
  split_ifs <;> rfl

@[simp] theorem Host.advance_lastaddr (h : Host) :
    h.advance.lastaddr = h.lastaddr + if h.inc then 4 else 0 := by
  rw [advance]
  split_ifs <;> simp

/-- Acknowledgements that have not been read; behind the last one a newline is there or owed. -/
inductive Acks (owed : Bool) : Nat → Incoming → Prop
  | nil : Acks owed 0 []
  | space {char : BitVec 8} (late : Bool) {left : Nat} {text : Incoming} :
      isspace char = true → Acks owed left text → Acks owed left ((char, late) :: text)
  | ack (late : Bool) {digits : Incoming} {left : Nat} {text : Incoming} :
      (∀ x ∈ digits, isDigit x.1 = true) → (text = [] → owed = true) → Acks owed left text →
      Acks owed (left + 1) ((HEXB_ACK, late) :: (digits ++ text))

/-- The parser between acknowledgements or inside one. -/
inductive Hearing (owed : Bool) (h : Host) : Nat → Incoming → Prop
  | between {left : Nat} {text : Incoming} : h.isspace = true → Acks owed left text → Hearing owed h left text
  | inside {digits : Incoming} {left : Nat} {text : Incoming} :
      h.isspace = false → h.cmd = HEXB_ACK → (∀ x ∈ digits, isDigit x.1 = true) → (text = [] → owed = true) →
      Acks owed left text → Hearing owed h (left + 1) (digits ++ text)

/-- What the host knows when all but `left` of `total` acknowledgements have taken effect. -/
structure Counted (a : BitVec 32) (inc : Bool) (total left : Nat) (h : Host) : Prop where
  addrSet : h.addrSet = true
  mode : h.inc = inc
  le : left ≤ total
  nacks : h.nacks = BitVec.ofNat 32 (total - left)
  lastaddr : h.lastaddr = a + if inc then BitVec.ofNat 32 (4 * (total - left)) else 0

section
variable {owed inc : Bool} {a : BitVec 32} {total left : Nat} {h : Host}

theorem Counted.token (counted : Counted a inc total left h) (char : BitVec 8) :
    Counted a inc total left (h.token char) := by
  obtain ⟨addrSet, mode, le, nacks, lastaddr⟩ := counted
  rw [Host.token]
  split_ifs
  · exact ⟨addrSet, mode, le, nacks, lastaddr⟩
  · exact ⟨addrSet, mode, le, nacks, lastaddr⟩

theorem Counted.acknowledge (counted : Counted a inc total (left + 1) h) :
    Counted a inc total left { h.advance with nacks := h.nacks + 1 } := by
  obtain ⟨addrSet, mode, le, nacks, lastaddr⟩ := counted
  have count : total - left = total - (left + 1) + 1 := by omega
  cases inc with
  | false =>
    refine ⟨?_, ?_, by omega, ?_, ?_⟩
    · simp [addrSet]
    · simp [mode]
    · simp [nacks, count, BitVec.ofNat_add]
    · simpa [mode] using lastaddr
  | true =>
    refine ⟨?_, ?_, by omega, ?_, ?_⟩
    · simp [addrSet]
    · simp [mode]
    · simp [nacks, count, BitVec.ofNat_add]
    · simp [mode, lastaddr, count, Nat.mul_add, BitVec.ofNat_add, BitVec.add_assoc]

/-- One character, whatever digits were read before it. -/
theorem hearing_step {char : BitVec 8} {late : Bool} {text : Incoming} (counted : Counted a inc total left h)
    (hearing : Hearing owed h left ((char, late) :: text)) (word : BitVec 32) :
    ∃ h' word' left', readidleChar h word char = .more h' word' ∧ Counted a inc total left' h' ∧
      Hearing owed h' left' text := by
  generalize whole : (char, late) :: text = incoming at hearing
  cases hearing with
  | between spaced acks =>
    subst whole
    cases acks with
    | space _ space acks =>
      refine ⟨h, word, left, ?_, counted, .between spaced acks⟩
      simp [readidleChar, space_parts space, space, spaced]
    | ack _ digits ends acks =>
      refine ⟨h.token HEXB_ACK, 0, _, ?_, counted.token _, .inside rfl rfl digits ends acks⟩
      simp [readidleChar, spaced, HEXB_ACK, isdigit, islower, isspace]
  | @inside digits rest _ open_ pending all ends acks =>
    cases digits with
    | cons x digits =>
      obtain ⟨rfl, rfl⟩ := List.cons.inj whole
      refine ⟨h, shiftDigit word char, _, ?_, counted,
        .inside open_ pending (fun y member => all y (by simp [member])) ends acks⟩
      have first : (isdigit char || islower char) = true := all (char, late) (by simp)
      rw [readidleChar, if_pos first]
    | nil =>
      rw [List.nil_append] at whole
      subst whole
      have takes (c : BitVec 8) (other : (isdigit c || islower c) = false) :
          readidleChar h word c = .more ({ h.advance with nacks := h.nacks + 1 }.token c) 0 := by
        simp [readidleChar, other, open_, pending, HEXB_READ, HEXB_ACK, HEXB_INT, HEXB_ADDR]
      cases acks with
      | space _ space acks =>
        exact ⟨_, 0, rest, takes char (space_parts space), counted.acknowledge.token char,
          .between (by simp [Host.token, space]) acks⟩
      | ack _ digits ends' acks =>
        exact ⟨_, 0, _, takes HEXB_ACK (by decide), counted.acknowledge.token HEXB_ACK,
          .inside rfl rfl digits ends' acks⟩

theorem Acks.on_time {char : BitVec 8} {late : Bool} {text : Incoming} (acks : Acks owed left ((char, late) :: text)) :
    Acks owed left ((char, false) :: text) := by
  cases acks with
  | space _ space acks => exact .space false space acks
  | ack _ digits ends acks => exact .ack false digits ends acks

theorem Hearing.on_time {char : BitVec 8} {late : Bool} {text : Incoming}
    (hearing : Hearing owed h left ((char, late) :: text)) : Hearing owed h left ((char, false) :: text) := by
  generalize whole : (char, late) :: text = incoming at hearing
  cases hearing with
  | between spaced acks =>
    subst whole
    exact .between spaced acks.on_time
  | @inside digits _ _ open_ pending all ends acks =>
    cases digits with
    | cons x digits =>
      obtain ⟨rfl, rfl⟩ := List.cons.inj whole
      have all' : ∀ y ∈ (char, false) :: digits, isDigit y.1 = true := by
        intro y member
        rcases List.mem_cons.mp member with rfl | member
        · exact all (char, late) (by simp)
        · exact all y (by simp [member])
      exact .inside open_ pending all' ends acks
    | nil =>
      rw [List.nil_append] at whole
      subst whole
      exact @Hearing.inside owed h [] _ _ open_ pending (by simp) (by simp) acks.on_time

/-- What is still to come, late characters counted twice. -/
def delay (text : Incoming) : Nat := (text.map fun x => if x.2 then 2 else 1).sum

@[simp] theorem delay_nil : delay [] = 0 := rfl

@[simp] theorem delay_cons (x : BitVec 8 × Bool) (text : Incoming) :
    delay (x :: text) = (if x.2 then 2 else 1) + delay text := by simp [delay]

theorem delay_append (text more : Incoming) : delay (text ++ more) = delay text + delay more := by
  simp [delay]

theorem delay_le (text : Incoming) : delay text ≤ 2 * text.length := by
  induction text with
  | nil => simp
  | cons x text ih =>
    rw [delay_cons, List.length_cons]
    split_ifs <;> omega

theorem readidleLoop_hearing {text : Incoming} (counted : Counted a inc total left h)
    (hearing : Hearing owed h left text) (word : BitVec 32) :
    ∃ h' text' left', readidleLoop h word text = .ok () (h', text') ∧ Counted a inc total left' h' ∧
      Hearing owed h' left' text' ∧ delay text' ≤ delay text ∧ (text ≠ [] → delay text' < delay text) := by
  induction text generalizing h word left with
  | nil => exact ⟨h, [], left, rfl, counted, hearing, Nat.le_refl _, fun nonempty => absurd rfl nonempty⟩
  | cons x text ih =>
    obtain ⟨char, late⟩ := x
    cases late with
    | true => exact ⟨h, (char, false) :: text, left, rfl, counted, hearing.on_time, by simp, by simp⟩
    | false =>
      obtain ⟨h₁, word₁, left₁, step, counted₁, hearing₁⟩ := hearing_step counted hearing word
      obtain ⟨h', text', left', loop, counted', hearing', shorter, -⟩ := ih counted₁ hearing₁ word₁
      refine ⟨h', text', left', ?_, counted', hearing', ?_, ?_⟩
      · simp [readidleLoop, step, loop]
      · simp only [delay_cons, Bool.false_eq_true, if_false]
        omega
      · simp only [delay_cons, Bool.false_eq_true, if_false]
        omega

/-! ### Behind the answer to an address command -/

/-- The address reply is still to be read, in one piece, or else acknowledgements are counted. -/
inductive Waiting (a : BitVec 32) (inc owed : Bool) (total : Nat) (h : Host) : Incoming → Prop
  | ahead {spaces digits text : Incoming} (late : Bool) {value : BitVec 32} {next : BitVec 8} :
      h.Quiet → (∀ x ∈ spaces, isspace x.1 = true) → digits.map Prod.fst = hex08 value →
      (∀ x ∈ digits, x.2 = false) → Acks owed total ((next, false) :: text) → h.nacks = 0 →
      Counted a inc total total (h.address value) →
      Waiting a inc owed total h (spaces ++ (HEXB_ADDR, late) :: (digits ++ (next, false) :: text))
  | heard {left : Nat} {text : Incoming} : Counted a inc total left h → Hearing owed h left text →
      Waiting a inc owed total h text

theorem readidleLoop_digits {word : BitVec 32} (digits text : Incoming) (all : ∀ x ∈ digits, isDigit x.1 = true)
    (whole : ∀ x ∈ digits, x.2 = false) :
    readidleLoop h word (digits ++ text) = readidleLoop h ((digits.map Prod.fst).foldl shiftDigit word) text := by
  induction digits generalizing word with
  | nil => rfl
  | cons x digits ih =>
    obtain ⟨char, late⟩ := x
    obtain rfl : late = false := whole (char, late) (by simp)
    have first : (isdigit char || islower char) = true := all (char, false) (by simp)
    simp only [List.cons_append, readidleLoop, readidleChar, first, if_true, Bool.false_eq_true, if_false,
      List.map_cons, List.foldl_cons]
    exact ih (fun y member => all y (by simp [member])) fun y member => whole y (by simp [member])

/-- A whole address reply takes effect with the character behind it. -/
theorem readidleLoop_address {digits text : Incoming} {value : BitVec 32} {next : BitVec 8} (quiet : h.Quiet)
    (shown : digits.map Prod.fst = hex08 value) (whole : ∀ x ∈ digits, x.2 = false)
    (acks : Acks owed total ((next, false) :: text)) (counted : Counted a inc total total (h.address value))
    (word : BitVec 32) :
    ∃ h', readidleLoop h word ((HEXB_ADDR, false) :: (digits ++ (next, false) :: text)) = readidleLoop h' 0 text ∧
      Counted a inc total total h' ∧ Hearing owed h' total text := by
  have allDigits : ∀ x ∈ digits, isDigit x.1 = true := fun x member =>
    isDigit_of_mem_hex08 (shown ▸ List.mem_map_of_mem member)
  have begins : readidleChar h word HEXB_ADDR = .more (h.begin_ HEXB_ADDR) 0 := by
    rcases quiet with space | fresh
    · simp [readidleChar, space, HEXB_ADDR, isdigit, islower, isspace, Host.token, Host.begin_]
    · cases spaced : h.isspace <;>
        simp [readidleChar, spaced, fresh, HEXB_ADDR, HEXB_READ, HEXB_INT, HEXB_ACK, HEXB_ERR, HEXB_RESET, isdigit,
          islower, isspace, Host.token, Host.begin_]
  have takes (c : BitVec 8) (other : (isdigit c || islower c) = false) :
      readidleChar (h.begin_ HEXB_ADDR) value c = .more (((h.begin_ HEXB_ADDR).address value).token c) 0 := by
    simp [readidleChar, other, Host.begin_]
  have reads : readidleLoop h word ((HEXB_ADDR, false) :: (digits ++ (next, false) :: text)) =
      readidleLoop (h.begin_ HEXB_ADDR) value ((next, false) :: text) := by
    simp only [readidleLoop, begins, Bool.false_eq_true, if_false]
    rw [readidleLoop_digits digits _ allDigits whole, shown, shiftDigit_hex08]
    simp only [readidleLoop, Bool.false_eq_true, if_false]
  have heard : Counted a inc total total ((h.begin_ HEXB_ADDR).address value) :=
    ⟨counted.addrSet, counted.mode, counted.le, counted.nacks, counted.lastaddr⟩
  cases acks with
  | space _ space acks =>
    refine ⟨_, ?_, heard.token next, .between (by simp [Host.token, space]) acks⟩
    rw [reads]
    simp only [readidleLoop, takes next (space_parts space), Bool.false_eq_true, if_false]
  | ack _ digits ends acks =>
    refine ⟨_, ?_, heard.token HEXB_ACK, .inside rfl rfl digits ends acks⟩
    rw [reads]
    simp only [readidleLoop, takes HEXB_ACK (by decide), Bool.false_eq_true, if_false]

/-- Space is passed over between replies. -/
theorem readidleChar_space (quiet : h.Quiet) {char : BitVec 8} (space : isspace char = true) (word : BitVec 32) :
    ∃ h' word', readidleChar h word char = .more h' word' ∧ h'.isspace = true ∧ h' = { h with isspace := true } := by
  cases spaced : h.isspace with
  | true =>
    refine ⟨h, word, by simp [readidleChar, space_parts space, space, spaced], spaced, ?_⟩
    cases h
    simp_all
  | false =>
    have fresh : h.cmd = 0 := quiet.resolve_left (by simp [spaced])
    have token : h.token char = { h with isspace := true } := by simp [Host.token, space]
    refine ⟨h.token char, 0, ?_, by rw [token], token⟩
    simp [readidleChar, space_parts space, spaced, fresh, HEXB_ADDR, HEXB_READ, HEXB_INT, HEXB_ACK, HEXB_ERR,
      HEXB_RESET]

theorem readidleLoop_waiting {text : Incoming} (waiting : Waiting a inc owed total h text) (word : BitVec 32) :
    ∃ h' text', readidleLoop h word text = .ok () (h', text') ∧ Waiting a inc owed total h' text' ∧
      delay text' ≤ delay text ∧ (text ≠ [] → delay text' < delay text) := by
  cases waiting with
  | heard counted hearing =>
    obtain ⟨h', text', left', loop, counted', hearing', shorter⟩ := readidleLoop_hearing counted hearing word
    exact ⟨h', text', loop, .heard counted' hearing', shorter⟩
  | @ahead spaces digits text late value next quiet all shown whole acks none counted =>
    induction spaces generalizing h word with
    | nil =>
      cases late with
      | true => exact ⟨h, _, rfl, @Waiting.ahead _ _ _ _ _ [] _ _ false _ _ quiet
        (by simp) shown whole acks none counted,
        -- a late character ends the round before it is read
          by simp, by simp⟩
      | false =>
        obtain ⟨h₁, address, counted₁, hearing⟩ := readidleLoop_address quiet shown whole acks counted word
        obtain ⟨h', text', left', loop, counted', hearing', shorter, -⟩ := readidleLoop_hearing counted₁ hearing 0
        have less : delay text' < delay ((HEXB_ADDR, false) :: (digits ++ (next, false) :: text)) := by
          simp only [delay_cons, delay_append, Bool.false_eq_true, if_false]
          omega
        exact ⟨h', text', address.trans loop, .heard counted' hearing', Nat.le_of_lt less, fun _ => less⟩
    | cons x spaces ih =>
      obtain ⟨char, slow⟩ := x
      have space : isspace char = true := all (char, slow) (by simp)
      cases slow with
      | true =>
        have all' : ∀ y ∈ (char, false) :: spaces, isspace y.1 = true := by
          intro y member
          rcases List.mem_cons.mp member with rfl | member
          · exact space
          · exact all y (by simp [member])
        exact ⟨h, _, rfl, @Waiting.ahead _ _ _ _ _ ((char, false) :: spaces) _ _ late _ _ quiet all' shown whole acks
          none counted, by simp, by simp⟩
      | false =>
        obtain ⟨h₁, word₁, step, spaced, same⟩ := readidleChar_space quiet space word
        have none₁ : h₁.nacks = 0 := by
          rw [same]
          exact none
        have counted₁ : Counted a inc total total (h₁.address value) := by
          rw [same]
          exact ⟨counted.addrSet, counted.mode, counted.le, counted.nacks, counted.lastaddr⟩
        obtain ⟨h', text', loop, waiting', shorter, -⟩ :=
          ih word₁ (.inl spaced) (fun y member => all y (List.mem_cons_of_mem _ member)) none₁ counted₁
        refine ⟨h', text', ?_, waiting', ?_, ?_⟩
        · simp [readidleLoop, step, loop]
        · simp only [List.cons_append, delay_cons, Bool.false_eq_true, if_false]
          omega
        · simp only [List.cons_append, delay_cons, Bool.false_eq_true, if_false]
          omega

end

namespace Session
variable {δ : Type} {a : BitVec 32} {inc : Bool} {total : Nat}

/-- The host waits for the acknowledgements of `total` writes from `a` on. -/
def Awaits (s : Session δ) (a : BitVec 32) (inc : Bool) (total : Nat) : Prop :=
  Waiting a inc s.line.owed total s.host s.line.text

/-- Readings that are left before every acknowledgement must have been read. -/
def patience (l : Line δ) : Nat := delay l.text + if l.owed then 5 else 0

/-- A newline that was owed. -/
theorem Awaits.wait {s : Session δ} (awaits : s.Awaits a inc total) :
    ({ s with line := s.line.wait } : Session δ).Awaits a inc total ∧ s.line.wait.peer = s.line.peer ∧
      patience s.line.wait ≤ patience s.line ∧
      (s.line.wait.text = [] → s.line.text = [] ∧ s.line.owed = false ∧ s.line.wait = s.line) := by
  by_cases owes : s.line.text = [] ∧ s.line.owed = true
  · obtain ⟨empty, owed⟩ := owes
    have ended : s.line.wait = { s.line with
        text := [(0x0d, s.line.choices 0), (0x0a, s.line.choices 1)], owed := false
        choices := fun n => s.line.choices (n + 2) } := by
      simp [Line.wait, empty, owed, Line.endLine, Line.arrive, newline]
    rw [ended]
    refine ⟨?_, rfl, ?_, by simp⟩
    · have spaces : Acks false 0 [(0x0d, s.line.choices 0), (0x0a, s.line.choices 1)] :=
        .space _ (by decide) (.space _ (by decide) .nil)
      rw [Awaits, empty] at awaits
      generalize none : ([] : Incoming) = text at awaits
      cases awaits with
      | ahead => simp at none
      | heard counted hearing =>
        cases hearing with
        | between spaced acks =>
          cases acks with
          | nil => exact .heard counted (.between spaced spaces)
          | space => simp at none
          | ack => simp at none
        | inside open_ pending all ends acks =>
          obtain ⟨rfl, rfl⟩ := List.append_eq_nil_iff.mp none.symm
          cases acks with
          | nil => exact .heard counted (@Hearing.inside _ _ [] _ _ open_ pending (by simp) (by simp) spaces)
    · simp only [patience, empty, owed, delay_cons, delay_nil, if_true, Bool.false_eq_true, if_false]
      split_ifs <;> omega
  · have same : s.line.wait = s.line := if_neg owes
    rw [same]
    exact ⟨awaits, rfl, Nat.le_refl _, fun empty => ⟨empty, by simpa [empty] using owes, rfl⟩⟩

theorem Awaits.readidle {s : Session δ} (awaits : s.Awaits a inc total) :
    ∃ s', s.readidle = .ok () s' ∧ s'.Awaits a inc total ∧ s'.line.peer = s.line.peer ∧
      (s.line.text ≠ [] ∨ s.line.owed = true → patience s'.line < patience s.line) := by
  obtain ⟨waiting, peer, bound, dry⟩ := awaits.wait
  obtain ⟨h', text', loop, waiting', -, shorter⟩ := readidleLoop_waiting waiting 0
  refine ⟨({ s with line := s.line.wait } : Session δ).resume (h', text'), ?_, waiting', peer, fun comes => ?_⟩
  · simp only [Session.readidle, loop, Outcome.mapState]
  · have nonempty : s.line.wait.text ≠ [] := fun empty => by
      obtain ⟨none, paid, -⟩ := dry empty
      simp [none, paid] at comes
    have less : delay text' < delay s.line.wait.text := shorter nonempty
    calc delay text' + (if s.line.wait.owed = true then 5 else 0)
        < delay s.line.wait.text + (if s.line.wait.owed = true then 5 else 0) := Nat.add_lt_add_right less _
      _ ≤ patience s.line := bound

/-- The host waits for fewer acknowledgements than are under way, and something comes. -/
theorem Awaits.comes {s : Session δ} (awaits : s.Awaits a inc total) {n : Nat} (enough : n ≤ total)
    (small : total < 2 ^ 32) (fewer : s.host.nacks < BitVec.ofNat 32 n) : s.line.text ≠ [] ∨ s.line.owed = true := by
  rw [Awaits] at awaits
  by_contra never
  obtain ⟨empty, unpaid⟩ : s.line.text = [] ∧ s.line.owed = false := by simpa using never
  rw [empty, unpaid] at awaits
  generalize none : ([] : Incoming) = text at awaits
  cases awaits with
  | ahead => simp at none
  | @heard left _ counted hearing =>
    cases hearing with
    | between spaced acks =>
      cases acks with
      | nil =>
        have count := counted.nacks
        rw [count, BitVec.lt_def, BitVec.toNat_ofNat, BitVec.toNat_ofNat] at fewer
        omega
      | space => simp at none
      | ack => simp at none
    | inside open_ pending all ends acks =>
      have nothing := (List.append_eq_nil_iff.mp none.symm).2
      simpa using ends nothing

theorem waitAcks_spec {s : Session δ} (awaits : s.Awaits a inc total) {n : Nat} (enough : n ≤ total)
    (small : total < 2 ^ 32) {fuel : Nat} (patient : patience s.line < fuel) :
    ∃ s', waitAcks (BitVec.ofNat 32 n) fuel s = .ok () s' ∧ s'.Awaits a inc total ∧ s'.line.peer = s.line.peer ∧
      ¬ s'.host.nacks < BitVec.ofNat 32 n := by
  induction fuel generalizing s with
  | zero => omega
  | succ fuel ih =>
    by_cases fewer : s.host.nacks < BitVec.ofNat 32 n
    · obtain ⟨s₁, idle, awaits₁, peer₁, less⟩ := awaits.readidle
      have patient₁ : patience s₁.line < fuel := by
        have := less (awaits.comes enough small fewer)
        omega
      obtain ⟨s', waited, awaits', peer', all⟩ := ih awaits₁ patient₁
      refine ⟨s', ?_, awaits', peer'.trans peer₁, all⟩
      rw [waitAcks, if_pos fewer, idle, Outcome.andThen_ok, waited]
    · exact ⟨s, by rw [waitAcks, if_neg fewer], awaits, rfl, fewer⟩

theorem patience_rounds (s : Session δ) : patience s.line < s.rounds := by
  have bound := delay_le s.line.text
  simp only [patience, rounds]
  split_ifs <;> omega

/-- When all acknowledgements have been read, only space is left. -/
theorem Awaits.done {s : Session δ} (awaits : s.Awaits a inc total) (positive : 0 < total) (small : total < 2 ^ 32)
    (all : ¬ s.host.nacks < BitVec.ofNat 32 total) :
    Counted a inc total 0 s.host ∧ s.host.isspace = true ∧ ∀ x ∈ s.line.text, isspace x.1 = true := by
  rw [Awaits] at awaits
  generalize incoming : s.line.text = text at awaits
  cases awaits with
  | ahead _ _ _ _ _ _ none _ =>
    rw [none, BitVec.lt_def, BitVec.toNat_ofNat, Nat.mod_eq_of_lt small] at all
    exact absurd positive all
  | @heard left _ counted hearing =>
    have le := counted.le
    have none : left = 0 := by
      rw [counted.nacks, BitVec.lt_def, BitVec.toNat_ofNat, BitVec.toNat_ofNat] at all
      omega
    subst none
    generalize zero : 0 = left at hearing
    cases hearing with
    | between spaced acks =>
      subst zero
      refine ⟨counted, spaced, ?_⟩
      have spaces : ∀ {left : Nat} {text : Incoming}, Acks s.line.owed left text → left = 0 →
          ∀ x ∈ text, isspace x.1 = true := by
        intro left text acks
        induction acks with
        | nil => simp
        | space late space _ ih =>
          intro none x member
          rcases List.mem_cons.mp member with rfl | member
          · exact space
          · exact ih none x member
        | ack => intro none; omega
      exact spaces acks rfl
    | inside => omega

end Session

/-! ### Replies arriving -/

/-- The newline behind a reply is there, or is owed. -/
def Ending (tail : Incoming) (owed : Bool) : Prop := tail = [] ∧ owed = true ∨ tail.map Prod.fst = newline ∧
    owed = false

theorem Ending.spaces {tail : Incoming} {owed : Bool} (ending : Ending tail owed) : ∀ x ∈ tail, isspace x.1 = true := by
  rcases ending with ⟨rfl, -⟩ | ⟨line, -⟩
  · simp
  · obtain ⟨x, y, rfl⟩ := newline_shape line
    simp [isspace]

theorem Line.arrive_spec {δ : Type} (l : Line δ) (chars : List (BitVec 8)) :
    ∃ fresh, (l.arrive chars).text = l.text ++ fresh ∧ fresh.map Prod.fst = chars := by
  refine ⟨chars.mapIdx fun i char => (char, l.choices i), rfl, ?_⟩
  apply List.ext_getElem <;> simp

theorem Line.reply_spec {δ : Type} (l : Line δ) (letter : BitVec 8) (rest : List (BitVec 8)) :
    ∃ late digits tail, (l.reply (letter :: rest)).text = l.text ++ (letter, late) :: (digits ++ tail) ∧
      digits.map Prod.fst = rest ∧ Ending tail (l.reply (letter :: rest)).owed ∧
      (l.reply (letter :: rest)).peer = l.peer := by
  obtain ⟨fresh, text, shown⟩ := l.arrive_spec (letter :: rest)
  obtain ⟨⟨char, late⟩, digits, rfl, rfl, digitsShown⟩ := List.map_eq_cons_iff.mp shown
  let l₁ : Line δ := { l.arrive (char :: rest) with
    owed := true, choices := fun n => (l.arrive (char :: rest)).choices (n + 1) }
  cases choose : (l.arrive (char :: rest)).choices 0 with
  | true =>
    obtain ⟨tail, ended, line⟩ := l₁.arrive_spec newline
    have result : l.reply (char :: rest) = l₁.endLine := if_pos choose
    refine ⟨late, digits, tail, ?_, digitsShown, Or.inr ⟨line, by rw [result]; rfl⟩, by rw [result]; rfl⟩
    rw [result]
    refine Eq.trans ended ?_
    have before : l₁.text = l.text ++ (char, late) :: digits := text
    rw [before, List.append_assoc, List.cons_append]
  | false =>
    have result : l.reply (char :: rest) = l₁ := if_neg (by simp [choose])
    refine ⟨late, digits, [], ?_, digitsShown, Or.inl ⟨rfl, by rw [result]⟩, by rw [result]; rfl⟩
    rw [result, List.append_nil]
    exact text

/-- No character of an address reply behind its letter is late, nor the one behind the reply. -/
def InOnePiece : Incoming → Prop
  | [] => True
  | (char, _) :: text => (char = HEXB_ADDR → ∀ x ∈ text.take 9, x.2 = false) ∧ InOnePiece text

instance decidableInOnePiece : (text : Incoming) → Decidable (InOnePiece text)
  | [] => inferInstanceAs (Decidable True)
  | (char, _) :: text =>
    have := decidableInOnePiece text
    inferInstanceAs (Decidable ((char = HEXB_ADDR → ∀ x ∈ text.take 9, x.2 = false) ∧ InOnePiece text))

theorem InOnePiece.tail {before text : Incoming} (whole : InOnePiece (before ++ text)) : InOnePiece text := by
  induction before with
  | nil => exact whole
  | cons x before ih => exact ih whole.2

section
variable {owed owed' inc : Bool} {a : BitVec 32} {total left : Nat} {h : Host} {text digits tail : Incoming}

theorem acks_spaces (all : ∀ x ∈ text, isspace x.1 = true) : Acks owed 0 text := by
  induction text with
  | nil => exact .nil
  | cons x text ih =>
    exact .space x.2 (all x (by simp)) (ih fun y member => all y (by simp [member]))

theorem Acks.append (acks : Acks owed left text) (late : Bool) (all : ∀ x ∈ digits, isDigit x.1 = true)
    (ending : Ending tail owed') : Acks owed' (left + 1) (text ++ (HEXB_ACK, late) :: (digits ++ tail)) := by
  induction acks with
  | nil =>
    rcases ending with ⟨rfl, owes⟩ | ⟨line, -⟩
    · exact .ack late all (fun _ => owes) .nil
    · have spaces : ∀ x ∈ tail, isspace x.1 = true := Ending.spaces (Or.inr ⟨line, rfl⟩)
      have nonempty : tail ≠ [] := by
        rintro rfl
        simp [newline] at line
      exact .ack late all (fun empty => absurd empty nonempty) (acks_spaces spaces)
  | space late' space _ ih => exact .space late' space ih
  | ack late' all' _ _ ih =>
    rw [List.cons_append, List.append_assoc]
    exact .ack late' all' (by simp) ih

theorem Hearing.append (hearing : Hearing owed h left text) (late : Bool) (all : ∀ x ∈ digits, isDigit x.1 = true)
    (ending : Ending tail owed') : Hearing owed' h (left + 1) (text ++ (HEXB_ACK, late) :: (digits ++ tail)) := by
  cases hearing with
  | between spaced acks => exact .between spaced (acks.append late all ending)
  | inside open_ pending all' _ acks =>
    rw [List.append_assoc]
    exact .inside open_ pending all' (by simp) (acks.append late all ending)

theorem Counted.more (counted : Counted a inc total left h) : Counted a inc (total + 1) (left + 1) h := by
  obtain ⟨addrSet, mode, le, nacks, lastaddr⟩ := counted
  have same : total + 1 - (left + 1) = total - left := by omega
  exact ⟨addrSet, mode, by omega, by rw [same]; exact nacks, by rw [same]; exact lastaddr⟩

/-- One more acknowledgement on its way. -/
theorem Waiting.append (waiting : Waiting a inc owed total h text) (late : Bool)
    (all : ∀ x ∈ digits, isDigit x.1 = true) (ending : Ending tail owed') :
    Waiting a inc owed' (total + 1) h (text ++ (HEXB_ACK, late) :: (digits ++ tail)) := by
  cases waiting with
  | ahead late' quiet spaces shown whole acks none counted =>
    rw [List.append_assoc, List.cons_append, List.append_assoc, List.cons_append]
    exact .ahead late' quiet spaces shown whole (acks.append late all ending) none counted.more
  | heard counted hearing => exact .heard counted.more (hearing.append late all ending)

/-- The answers to an address and a first write. -/
theorem waiting_address {spaces digits' tail' : Incoming} {value : BitVec 32} (quiet : h.Quiet)
    (all : ∀ x ∈ spaces, isspace x.1 = true) (late late' : Bool) (shown : digits.map Prod.fst = hex08 value)
    (ending : Ending tail owed) (shown' : digits'.map Prod.fst = hex08 0) (ending' : Ending tail' owed')
    (whole : InOnePiece (spaces ++ (HEXB_ADDR, late) :: (digits ++ tail) ++ (HEXB_ACK, late') :: (digits' ++ tail')))
    (none : h.nacks = 0) (counted : Counted a inc 0 0 (h.address value)) :
    Waiting a inc owed' 1 h (spaces ++ (HEXB_ADDR, late) :: (digits ++ tail) ++ (HEXB_ACK, late') ::
      (digits' ++ tail')) := by
  have acks : Acks owed' 1 (tail ++ (HEXB_ACK, late') :: (digits' ++ tail')) := by
    have spaced : Acks owed 0 tail := acks_spaces ending.spaces
    exact spaced.append late' (fun x member => isDigit_of_mem_hex08 (shown' ▸ List.mem_map_of_mem member)) ending'
  have length : digits.length = 8 := by
    have count := congrArg List.length shown
    rwa [List.length_map, hex08_eq, List.length_map] at count
  obtain ⟨⟨next, slow⟩, rest, first⟩ : ∃ x rest, tail ++ (HEXB_ACK, late') :: (digits' ++ tail') = x :: rest := by
    cases tail with
    | nil => exact ⟨_, _, rfl⟩
    | cons x tail => exact ⟨x, _, rfl⟩
  rw [List.append_assoc, List.cons_append, List.append_assoc, first] at whole ⊢
  have timely := whole.tail.1 rfl
  have nine : (digits ++ (next, slow) :: rest).take 9 = digits ++ [(next, slow)] := by
    rw [List.take_append, length, List.take_of_length_le (by omega)]
    rfl
  rw [nine] at timely
  obtain rfl : slow = false := timely (next, slow) (by simp)
  rw [first] at acks
  exact .ahead late quiet all shown (fun x member => timely x (by simp [member])) acks none counted.more

end

end IcoZip.Hexbus
