import IcoZip.Library.Clocked
import Mathlib.Data.BitVec
import Mathlib.Data.List.Basic

/-! Incoming characters to command words: `hbdechex` and `hbpack`.

`Text` is the character language of the command port and `consume` its parser.
The two registers stages are shown to compute that parser two clocks late, for
every spacing of the characters.
-/

set_option autoImplicit false

namespace IcoZip.Hexbus

/-! ### The modules -/

/-- The registers of `hbdechex`. -/
structure Dechex where
  dhStb : Bool
  reset : Bool
  dhBits : BitVec 5
  deriving DecidableEq, Repr

/-- The `case` of `hbdechex`: digits with bit 4 clear, anything else out of band. -/
def dhBitsOf (char : BitVec 7) : BitVec 5 :=
  match char.toNat with
  | 0x30 => 0x00
  | 0x31 => 0x01
  | 0x32 => 0x02
  | 0x33 => 0x03
  | 0x34 => 0x04
  | 0x35 => 0x05
  | 0x36 => 0x06
  | 0x37 => 0x07
  | 0x38 => 0x08
  | 0x39 => 0x09
  | 0x61 => 0x0a
  | 0x62 => 0x0b
  | 0x63 => 0x0c
  | 0x64 => 0x0d
  | 0x65 => 0x0e
  | 0x66 => 0x0f
  | 0x52 => 0x10 -- 'R'
  | 0x57 => 0x11 -- 'W'
  | 0x41 => 0x12 -- 'A'
  | 0x53 => 0x13 -- 'S'
  | 0x54 => 0x16 -- 'T', for form only
  | _ => 0x1f

/-- One clock of `hbdechex`. -/
def hbdechex (iStb : Bool) (iByte : BitVec 8) : Dechex :=
  let char := iByte.extractLsb' 0 7
  { reset := iStb && char == 0x54#7
    dhStb := iStb && char != 0x7f#7
    dhBits := dhBitsOf char }

/-- The registers of `hbpack`. -/
structure Pack where
  cmdLoaded : Bool
  pckStb : Bool
  rWord : BitVec 34
  pckWord : BitVec 34
  deriving DecidableEq, Repr

/-- The registers of `hbpack` after a reset, which are also its initial values. -/
def Pack.cleared : Pack := { cmdLoaded := false, pckStb := false, rWord := 0, pckWord := 0 }

/-- One clock of `hbpack`. -/
def hbpack (s : Pack) (iReset iStb : Bool) (iBits : BitVec 5) : Pack :=
  { cmdLoaded :=
      if iReset then false
      else if iStb && iBits.extractLsb' 2 3 == 0b100#3 then true
      else if iStb && iBits[4] then false
      else s.cmdLoaded
    pckStb := !iReset && (iStb && s.cmdLoaded && iBits[4])
    rWord :=
      if iReset then 0
      else if iStb then
        if iBits[4] then iBits.extractLsb' 0 2 ++ 0#32
        else s.rWord.extractLsb' 32 2 ++ (s.rWord.extractLsb' 0 28 ++ iBits.extractLsb' 0 4)
      else s.rWord
    pckWord :=
      if iReset then 0
      else if iStb then s.rWord
      else s.pckWord }

/-- `hbdechex` in front of `hbpack`. -/
structure Decoder where
  dec : Dechex
  pack : Pack
  deriving DecidableEq, Repr

/-- A received byte and its strobe. -/
structure Rx where
  stb : Bool
  byte : BitVec 8
  deriving DecidableEq, Repr

namespace Decoder

def step (s : Decoder) (i : Rx) : Decoder :=
  { dec := hbdechex i.stb i.byte
    pack := hbpack s.pack s.dec.reset s.dec.dhStb s.dec.dhBits }

/-- The command word strobed in a clock. -/
def command (s : Decoder) (_ : Rx) : List (BitVec 34) :=
  if s.pack.pckStb then [s.pack.pckWord] else []

/-- The reset strobe is up and no earlier command is on its way out. -/
def AfterReset (s : Decoder) : Prop := s.dec.reset = true ∧ s.pack.pckStb = false

/-- The power-up values; `o_dh_bits` has none. -/
def initial (dhBits : BitVec 5) : Decoder :=
  { dec := { dhStb := false, reset := true, dhBits }, pack := Pack.cleared }

theorem initial_afterReset (dhBits : BitVec 5) : (initial dhBits).AfterReset := ⟨rfl, rfl⟩

end Decoder

/-! ### The character language -/

inductive Kind where | R | W | A | S
  deriving DecidableEq, Repr

/-- The two command bits. -/
def Kind.bits : Kind → BitVec 2
  | .R => 0
  | .W => 1
  | .A => 2
  | .S => 3

/-- The ASCII letter. -/
def Kind.letter : Kind → BitVec 7
  | .R => 0x52
  | .W => 0x57
  | .A => 0x41
  | .S => 0x53

structure Command where
  kind : Kind
  payload : BitVec 32
  deriving DecidableEq, Repr

def Command.word (c : Command) : BitVec 34 := c.kind.bits ++ c.payload

/-- The lower-case hexadecimal digit of four bits. -/
def hexChar (digit : BitVec 4) : BitVec 7 :=
  if digit.toNat < 10 then 0x30 + digit.setWidth 7 else 0x57 + digit.setWidth 7

/-- The number written by a list of digits, most significant first. -/
def digitsValue (digits : List (BitVec 4)) : Nat :=
  digits.foldl (fun value digit => value * 16 + digit.toNat) 0

/-- The last eight digits, zero-padded on the left. -/
def lastEight (digits : List (BitVec 4)) : BitVec 32 :=
  BitVec.ofNat 32 (digitsValue (digits.drop (digits.length - 8)))

/-- A character that is no digit, no command letter, no reset and no idle. -/
def isOther (char : BitVec 7) : Bool := dhBitsOf char == 0x1f#5 && char != 0x7f#7

/-- Command letters with their digits, each followed by something that ends it: the next
letter or another character, of which there may be more outside of commands. -/
inductive Text : List Command → List (BitVec 7) → Prop where
  | nil : Text [] []
  | other {char : BitVec 7} {cmds : List Command} {text : List (BitVec 7)} :
      isOther char = true → Text cmds text → Text cmds (char :: text)
  | command (kind : Kind) (digits : List (BitVec 4)) {cmds : List Command} {text : List (BitVec 7)} :
      text ≠ [] → Text cmds text →
      Text (⟨kind, lastEight digits⟩ :: cmds) (kind.letter :: (digits.map hexChar ++ text))

/-- A byte stream renders commands when, bit 7 and idle bytes aside, it is a text of them. -/
def Renders (cmds : List Command) (bytes : List (BitVec 8)) : Prop :=
  Text cmds ((bytes.map (·.extractLsb' 0 7)).filter (· != 0x7f#7))

/-! ### The parser -/

/-- A command whose letter has been seen, as the contents of `r_word`. -/
abbrev Partial := Option (BitVec 34)

/-- The shift register of `hbpack`: kind kept, one digit in. -/
def shiftIn (word : BitVec 34) (digit : BitVec 4) : BitVec 34 :=
  word.extractLsb' 32 2 ++ (word.extractLsb' 0 28 ++ digit)

/-- The effect of one character: the command it leaves open and the one it completes. -/
def consume (partly : Partial) (char : BitVec 7) : Partial × List (BitVec 34) :=
  let bits := dhBitsOf char
  if char = 0x7f#7 then (partly, [])
  else if char = 0x54#7 then (none, [])
  else if bits[4] then
    (if bits.extractLsb' 2 3 = 0b100#3 then some (bits.extractLsb' 0 2 ++ 0#32) else none, partly.toList)
  else (partly.map (shiftIn · (bits.extractLsb' 0 4)), [])

/-- Everything completed by a list of characters, and what is left open. -/
def consumeAll : Partial → List (BitVec 7) → Partial × List (BitVec 34)
  | partly, [] => (partly, [])
  | partly, char :: text =>
    let (next, done) := consume partly char
    let (final, rest) := consumeAll next text
    (final, done ++ rest)

theorem consumeAll_cons (partly : Partial) (char : BitVec 7) (text : List (BitVec 7)) :
    consumeAll partly (char :: text) =
      ((consumeAll (consume partly char).1 text).1,
        (consume partly char).2 ++ (consumeAll (consume partly char).1 text).2) := rfl

theorem consumeAll_append (partly : Partial) (text more : List (BitVec 7)) :
    consumeAll partly (text ++ more) =
      ((consumeAll (consumeAll partly text).1 more).1,
        (consumeAll partly text).2 ++ (consumeAll (consumeAll partly text).1 more).2) := by
  induction text generalizing partly with
  | nil => rfl
  | cons char text ih => simp only [List.cons_append, consumeAll_cons, ih, List.append_assoc]

@[simp] theorem consume_idle (partly : Partial) : consume partly 0x7f#7 = (partly, []) := rfl

@[simp] theorem consume_reset (partly : Partial) : consume partly 0x54#7 = (none, []) := rfl

theorem consume_digit (partly : Partial) (digit : BitVec 4) :
    consume partly (hexChar digit) = (partly.map (shiftIn · digit), []) := by
  have table : ∀ d : BitVec 4, hexChar d ≠ 0x7f#7 ∧ hexChar d ≠ 0x54#7 ∧
      (dhBitsOf (hexChar d))[4] = false ∧ (dhBitsOf (hexChar d)).extractLsb' 0 4 = d := by
    decide
  obtain ⟨idle, reset, band, bits⟩ := table digit
  simp [consume, idle, reset, band, bits]

theorem consume_letter (partly : Partial) (kind : Kind) :
    consume partly kind.letter = (some (kind.bits ++ 0#32), partly.toList) := by
  cases kind <;> rfl

theorem consume_other {char : BitVec 7} (other : isOther char = true) (partly : Partial) :
    consume partly char = (none, partly.toList) := by
  have table : ∀ c : BitVec 7, isOther c = true → c ≠ 0x7f#7 ∧ c ≠ 0x54#7 ∧ dhBitsOf c = 0x1f#5 := by
    decide
  obtain ⟨idle, reset, bits⟩ := table char other
  simp [consume, idle, reset, bits]

theorem consumeAll_filter (partly : Partial) (text : List (BitVec 7)) :
    consumeAll partly (text.filter (· != 0x7f#7)) = consumeAll partly text := by
  induction text generalizing partly with
  | nil => rfl
  | cons char text ih =>
    by_cases idle : char = 0x7f#7
    · subst idle
      simp [consumeAll_cons, ih]
    · rw [List.filter_cons_of_pos (by simpa using idle), consumeAll_cons, consumeAll_cons, ih]

/-! ### The parser reads the language -/

/-- Shifting a digit in is multiplying the payload by sixteen, modulo its 32 bits. -/
theorem shiftIn_payload (kind : BitVec 2) (value : Nat) (digit : BitVec 4) :
    shiftIn (kind ++ BitVec.ofNat 32 value) digit =
      kind ++ BitVec.ofNat 32 (value * 16 + digit.toNat) := by
  have high : (kind ++ BitVec.ofNat 32 value).extractLsb' 32 2 = kind := by
    rw [BitVec.extractLsb'_append_eq_of_le (by decide)]
    simp
  have low : (kind ++ BitVec.ofNat 32 value).extractLsb' 0 28 = BitVec.ofNat 28 value := by
    rw [BitVec.extractLsb'_append_eq_of_add_le (by decide)]
    apply BitVec.eq_of_toNat_eq
    simp
  rw [shiftIn, high, low]
  congr 1
  apply BitVec.eq_of_toNat_eq
  have small := digit.isLt
  rw [BitVec.toNat_append, Nat.shiftLeft_eq, Nat.mul_comm, ← Nat.two_pow_add_eq_or_of_lt small]
  simp only [BitVec.toNat_ofNat]
  omega

theorem consumeAll_digits (kind : BitVec 2) (value : Nat) (digits : List (BitVec 4)) :
    consumeAll (some (kind ++ BitVec.ofNat 32 value)) (digits.map hexChar) =
      (some (kind ++ BitVec.ofNat 32
        (digits.foldl (fun value digit => value * 16 + digit.toNat) value)), []) := by
  induction digits generalizing value with
  | nil => rfl
  | cons digit digits ih =>
    simp only [List.map_cons, consumeAll_cons, consume_digit, Option.map_some, shiftIn_payload,
      ih, List.foldl_cons, List.append_nil]

theorem digits_shift (digits : List (BitVec 4)) (value : Nat) :
    digits.foldl (fun value digit => value * 16 + digit.toNat) value =
      value * 16 ^ digits.length + digitsValue digits := by
  induction digits generalizing value with
  | nil => simp [digitsValue]
  | cons digit digits ih =>
    have head : digitsValue (digit :: digits) = digit.toNat * 16 ^ digits.length + digitsValue digits := by
      rw [digitsValue, List.foldl_cons, ih, Nat.zero_mul, Nat.zero_add]
    rw [List.foldl_cons, ih, head, List.length_cons, Nat.pow_succ', Nat.add_mul, Nat.mul_assoc,
      Nat.add_assoc]

/-- Digits in front of the last eight fall out of the shift register. -/
theorem lastEight_eq (digits : List (BitVec 4)) :
    BitVec.ofNat 32 (digitsValue digits) = lastEight digits := by
  have split : digitsValue digits =
      digitsValue (digits.take (digits.length - 8)) * 16 ^ (digits.drop (digits.length - 8)).length +
        digitsValue (digits.drop (digits.length - 8)) := by
    conv_lhs => rw [← List.take_append_drop (digits.length - 8) digits]
    rw [digitsValue, List.foldl_append, digits_shift]
    rfl
  rw [lastEight, split, List.length_drop]
  apply BitVec.eq_of_toNat_eq
  simp only [BitVec.toNat_ofNat]
  by_cases short : digits.length ≤ 8
  · rw [Nat.sub_eq_zero_of_le short]
    simp [digitsValue]
  · rw [show digits.length - (digits.length - 8) = 8 by omega,
      show (16 : Nat) ^ 8 = 2 ^ 32 by decide, Nat.mul_comm, Nat.mul_add_mod]

/-- The parser reads every text: a command left open is completed by the first character. -/
theorem consumeAll_text {cmds : List Command} {text : List (BitVec 7)} (rendered : Text cmds text)
    (partly : Partial) (ends : text = [] → partly = none) :
    (consumeAll partly text).2 = partly.toList ++ cmds.map Command.word := by
  induction rendered generalizing partly with
  | nil => simp [consumeAll, ends rfl]
  | other other _ ih =>
    simp only [consumeAll_cons, consume_other other, ih none fun _ => rfl]
    rfl
  | command kind digits nonempty _ ih =>
    simp only [consumeAll_cons, consume_letter, consumeAll_append, List.map_cons]
    have start : kind.bits ++ (0#32) = kind.bits ++ BitVec.ofNat 32 0 := rfl
    rw [start, consumeAll_digits, ih _ fun empty => absurd empty nonempty]
    have value := lastEight_eq digits
    rw [digitsValue] at value
    simp only [value, List.nil_append, Option.toList_some, Command.word, List.singleton_append]

/-! ### The registers compute the parser -/

namespace Decoder

/-- The open command of `hbpack`. -/
def loaded (p : Pack) : Partial := if p.cmdLoaded then some p.rWord else none

/-- The characters received in a clock. -/
def chars (i : Rx) : List (BitVec 7) := if i.stb then [i.byte.extractLsb' 0 7] else []

/-- The open command once the character inside `hbdechex` has been packed. -/
def content (s : Decoder) : Partial :=
  loaded (hbpack s.pack s.dec.reset s.dec.dhStb s.dec.dhBits)

/-- Completed commands that have not been strobed yet. -/
def held (s : Decoder) : List (BitVec 34) :=
  let next := hbpack s.pack s.dec.reset s.dec.dhStb s.dec.dhBits
  (if s.pack.pckStb then [s.pack.pckWord] else []) ++ if next.pckStb then [next.pckWord] else []

theorem hbpack_char (p : Pack) (char : BitVec 7) :
    let next := hbpack p (char == 0x54#7) (char != 0x7f#7) (dhBitsOf char)
    loaded next = (consume (loaded p) char).1 ∧
      (if next.pckStb then [next.pckWord] else []) = (consume (loaded p) char).2 := by
  by_cases idle : char = 0x7f#7
  · subst idle
    cases hl : p.cmdLoaded <;> simp [loaded, hbpack, hl]
  by_cases reset : char = 0x54#7
  · subst reset
    simp [loaded, hbpack]
  have strobe : (char != 0x7f#7) = true := by simpa using idle
  have quiet : (char == 0x54#7) = false := by simpa using reset
  simp only [hbpack, consume, idle, reset, strobe, quiet]
  by_cases band : (dhBitsOf char)[4] = true
  · by_cases letter : (dhBitsOf char).extractLsb' 2 3 = 0b100#3 <;>
      cases hl : p.cmdLoaded <;> simp [loaded, band, letter, hl]
  · have digit : ¬ (dhBitsOf char).extractLsb' 2 3 = 0b100#3 := by
      have table : ∀ c : BitVec 7, (dhBitsOf c)[4] = false →
          ¬ (dhBitsOf c).extractLsb' 2 3 = 0b100#3 := by decide
      exact table char (by simpa using band)
    cases hl : p.cmdLoaded <;> simp [loaded, band, digit, hl, shiftIn]

/-- Packing the registered form of a clock's character is consuming it. -/
theorem hbpack_consume (p : Pack) (i : Rx) :
    let d := hbdechex i.stb i.byte
    let next := hbpack p d.reset d.dhStb d.dhBits
    loaded next = (consumeAll (loaded p) (chars i)).1 ∧
      (if next.pckStb then [next.pckWord] else []) = (consumeAll (loaded p) (chars i)).2 := by
  obtain ⟨stb, byte⟩ := i
  cases stb with
  | false => simp [hbdechex, hbpack, chars, consumeAll, loaded]
  | true =>
    simpa [hbdechex, chars, consumeAll] using hbpack_char p (byte.extractLsb' 0 7)

theorem content_step (s : Decoder) (i : Rx) :
    (s.step i).content = (consumeAll s.content (chars i)).1 :=
  (hbpack_consume (s.step i).pack i).1

/-- What a clock strobes and what is then still under way: what was, and what the
character of the clock completes. -/
theorem held_step (s : Decoder) (i : Rx) :
    s.command i ++ (s.step i).held = s.held ++ (consumeAll s.content (chars i)).2 := by
  have done := (hbpack_consume (s.step i).pack i).2
  have open_ : loaded (s.step i).pack = s.content := rfl
  rw [open_] at done
  rw [← done, held, ← List.append_assoc]
  rfl

theorem emitted_consumeAll (s : Decoder) (is : List Rx) :
    Clocked.emitted step (fun s i => (consumeAll s.content (chars i)).2) s is =
      (consumeAll s.content (is.flatMap chars)).2 := by
  induction is generalizing s with
  | nil => rfl
  | cons i is ih =>
    rw [Clocked.emitted_cons, ih, content_step, List.flatMap_cons, consumeAll_append]

/-- Strobed and still under way together are what the characters complete. -/
theorem commands_held (s : Decoder) (is : List Rx) :
    Clocked.emitted step command s is ++ (Clocked.run step s is).held =
      s.held ++ (consumeAll s.content (is.flatMap chars)).2 := by
  rw [← emitted_consumeAll]
  exact Clocked.conservation_all held_step s is

/-- A clock without a character. -/
def idle : Rx := ⟨false, 0⟩

/-- Two idle clocks flush the decoder. -/
theorem held_flushed (s : Decoder) : ((s.step idle).step idle).held = [] := by
  simp [held, step, idle, hbdechex, hbpack]

/-- With two idle clocks behind it, a run strobes what the parser completes. -/
theorem commands_flushed (s : Decoder) (is : List Rx) :
    Clocked.emitted step command s (is ++ [idle, idle]) =
      s.held ++ (consumeAll s.content (is.flatMap chars)).2 := by
  have law := commands_held s (is ++ [idle, idle])
  rw [Clocked.run_append] at law
  have flushed : (Clocked.run step (Clocked.run step s is) [idle, idle]).held = [] :=
    held_flushed _
  rw [flushed, List.append_nil, List.flatMap_append] at law
  simpa [chars, idle] using law

theorem AfterReset.held {s : Decoder} (reset : s.AfterReset) : s.held = [] := by
  obtain ⟨reset, quiet⟩ := reset
  simp [Decoder.held, hbpack, reset, quiet]

theorem AfterReset.content {s : Decoder} (reset : s.AfterReset) : s.content = none := by
  simp [Decoder.content, hbpack, loaded, reset.1]

/-- A received 'T'. -/
def IsReset (i : Rx) : Prop := i.stb = true ∧ i.byte.extractLsb' 0 7 = 0x54#7

theorem IsReset.chars {i : Rx} (reset : IsReset i) : chars i = [0x54#7] := by
  simp [Decoder.chars, reset.1, reset.2]

/-- Two clocks after a 'T' the packer is in its reset state. -/
theorem IsReset.pack_cleared {i : Rx} (reset : IsReset i) (s : Decoder) (j : Rx) :
    ((s.step i).step j).pack = Pack.cleared := by
  simp [step, hbdechex, hbpack, reset.1, reset.2, Pack.cleared]

/-- Every rendering of a command list, however its characters are spaced, makes the decoder
strobe exactly these commands; and a 'T' makes it forget the command it was in the middle of. -/
theorem decodes_renderings :
    (∀ s : Decoder, s.AfterReset → ∀ (cmds : List Command) (bytes : List (BitVec 8)),
      Renders cmds bytes → ∀ is : List Rx, is.flatMap (fun i => if i.stb then [i.byte] else []) = bytes →
        Clocked.emitted step command s (is ++ [idle, idle]) = cmds.map Command.word) ∧
    ∀ (s : Decoder) (i : Rx), IsReset i →
      (∀ j, ((s.step i).step j).pack = Pack.cleared) ∧
      (∀ j k, Clocked.emitted step command s [i, j, k] = Clocked.emitted step command s [idle, idle]) ∧
      ∀ (before after : List Rx) (fresh : Decoder), fresh.AfterReset →
        Clocked.emitted step command s (before ++ i :: (after ++ [idle, idle])) =
          Clocked.emitted step command s (before ++ [idle, idle]) ++
            Clocked.emitted step command fresh (after ++ [idle, idle]) := by
  refine ⟨fun s reset cmds bytes rendered is carried => ?_, fun s i reset => ⟨?_, ?_, ?_⟩⟩
  · have received : is.flatMap chars = bytes.map (·.extractLsb' 0 7) := by
      rw [← carried, List.map_flatMap]
      congr 1
      funext i
      cases stb : i.stb <;> simp [chars, stb]
    rw [commands_flushed, reset.held, reset.content, received, ← consumeAll_filter,
      consumeAll_text rendered none fun _ => rfl]
    rfl
  · exact reset.pack_cleared s
  · intro j k
    simp [Clocked.emitted, command, step, hbdechex, hbpack, reset.1, reset.2, idle]
  · intro before after fresh reset'
    have split : before ++ i :: (after ++ [idle, idle]) = (before ++ i :: after) ++ [idle, idle] := by
      simp
    rw [split, commands_flushed, commands_flushed, commands_flushed, reset'.held, reset'.content,
      List.flatMap_append, List.flatMap_cons, reset.chars, consumeAll_append, List.singleton_append,
      consumeAll_cons, consume_reset]
    simp

/-- A received byte with its strobe. -/
def rx (byte : BitVec 8) : Rx := ⟨true, byte⟩

/-- `R12`, an idle byte, `W` and a newline with bit 7 set; then a read cut short by a 'T'. -/
theorem decodes_read_write :
    Clocked.emitted step command (initial 0)
        ([rx 0x52, idle, rx 0x31, rx 0x32, rx 0x7f, rx 0xd7, rx 0x8a] ++ [idle, idle]) =
      [Command.word ⟨.R, 0x12⟩, Command.word ⟨.W, 0⟩] ∧
    Clocked.emitted step command (initial 0) ([rx 0x52] ++ rx 0x54 :: ([rx 0x0a] ++ [idle, idle])) = [] := by
  constructor
  · have text : Text [⟨.R, 0x12⟩, ⟨.W, 0⟩] [0x52, 0x31, 0x32, 0x57, 0x0a] :=
      .command .R [1, 2] (by decide) (.command .W [] (by decide) (.other (by decide) .nil))
    exact decodes_renderings.1 (initial 0) (initial_afterReset 0) [⟨.R, 0x12⟩, ⟨.W, 0⟩]
      [0x52, 0x31, 0x32, 0x7f, 0xd7, 0x8a] text _ rfl
  · rw [(decodes_renderings.2 (initial 0) (rx 0x54) ⟨rfl, rfl⟩).2.2 [rx 0x52] [rx 0x0a] (initial 0)
      (initial_afterReset 0)]
    decide

/-- A newline between a letter and its digits ends the command there, and an idle byte behind
the digits does not end it: neither stream yields the read of 0x12. -/
theorem terminator_inside_command :
    Clocked.emitted step command (initial 0)
        ([rx 0x52, rx 0x0a, rx 0x31, rx 0x32, rx 0x0a] ++ [idle, idle]) ≠ [Command.word ⟨.R, 0x12⟩] ∧
    Clocked.emitted step command (initial 0)
        ([rx 0x52, rx 0x31, rx 0x32, rx 0x7f] ++ [idle, idle]) ≠ [Command.word ⟨.R, 0x12⟩] := by
  decide

end Decoder

end IcoZip.Hexbus
