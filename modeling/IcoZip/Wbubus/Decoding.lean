import IcoZip.Wbubus.Commands

/-! What the chain from characters to command words makes of a list of commands.

Characters are at least five clocks apart, which leaves at most one codeword
between the shift register and the last step of `wbudecompress`.
-/

set_option autoImplicit false

namespace IcoZip.Wbubus

/-! ### Collecting symbols -/

theorem place_bit (word : BitVec 36) {r : BitVec 3} (bits : BitVec 6) (room : r.toNat < 6) {i : Nat} (small : i < 36) :
    (place word r bits).getLsbD i =
      if 30 - 6 * r.toNat ≤ i ∧ i < 36 - 6 * r.toNat then bits.getLsbD (i - (30 - 6 * r.toNat)) else word.getLsbD i := by
  have six : r = 0#3 ∨ r = 1#3 ∨ r = 2#3 ∨ r = 3#3 ∨ r = 4#3 ∨ r = 5#3 := by
    revert r
    decide
  rcases six with rfl | rfl | rfl | rfl | rfl | rfl
  all_goals
    simp only [place, BitVec.reduceEq, if_true, if_false, BitVec.getLsbD_append, BitVec.getLsbD_extractLsb',
      BitVec.toNat_ofNat, Nat.reducePow, Nat.reduceMod, Nat.reduceMul, Nat.reduceSub]
    split_ifs
    all_goals first | omega | skip
    all_goals grind

theorem place_symbol (word : BitVec 36) {r : BitVec 3} (bits : BitVec 6) (room : r.toNat < 6) {k : Nat} (inside : k < 6) :
    symbolAt (place word r bits) k = if k = r.toNat then bits else symbolAt word k := by
  apply BitVec.eq_of_getLsbD_eq
  intro i small
  rw [symbolAt_bit _ small, place_bit word bits room (by omega)]
  by_cases here : k = r.toNat
  · have offset : 30 - 6 * k + i - (30 - 6 * r.toNat) = i := by omega
    rw [if_pos (by omega), if_pos here, offset]
  · rw [if_neg (by omega), if_neg here, symbolAt_bit _ small]

/-- The codeword in the shift register, or what there is of it. -/
structure Holds (s : Readcw) (p : List (BitVec 6)) : Prop where
  length : s.rLen.toNat = p.length
  wanted : s.cwLen = if p = [] then 0#3 else codeLen (p.headD 0)
  short : p.length ≤ (codeLen (p.headD 0)).toNat
  symbols : ∀ (k : Nat) (inside : k < p.length), symbolAt s.shiftreg k = p[k]

namespace Readcw

variable {s : Readcw} {p : List (BitVec 6)} {iStb iValid : Bool} {iHexbits : BitVec 6}

/-- All symbols of a codeword are in the shift register. -/
def full (s : Readcw) : Bool := s.rLen == s.cwLen && s.cwLen != 0

theorem headD_eq {p : List (BitVec 6)} (some_ : 0 < p.length) : p.headD 0 = p[0] := by
  cases p with
  | nil => exact absurd some_ (by decide)
  | cons bits rest => rfl

theorem codeLen_ne : ∀ bits : BitVec 6, codeLen bits ≠ 0#3 := by decide

theorem full_eq (holds : Holds s p) : s.full = complete p := by
  by_cases empty : p = []
  · subst empty
    have none_ : s.cwLen = 0#3 := holds.wanted
    rw [full, none_]
    simp [complete, codeLen]
  · have wanted : s.cwLen = codeLen (p.headD 0) := holds.wanted.trans (if_neg empty)
    have nonzero : (codeLen (p.headD 0) != 0) = true := bne_iff_ne.mpr (codeLen_ne _)
    rw [full, wanted, nonzero, Bool.and_true, complete, ← holds.length, Bool.eq_iff_iff, beq_iff_eq, beq_iff_eq]
    exact BitVec.toNat_inj.symm

theorem complete_pos (whole : complete p = true) : 0 < p.length := by
  rw [complete, beq_iff_eq] at whole
  rw [whole]
  exact (codeLen_range _).1

theorem lead_full (holds : Holds s p) (whole : complete p = true) : lead s.shiftreg = p := by
  have some_ := complete_pos whole
  have first : symbolAt s.shiftreg 0 = p.headD 0 := (holds.symbols 0 some_).trans (headD_eq some_).symm
  rw [complete, beq_iff_eq] at whole
  apply List.ext_getElem
  · rw [lead_length, first, whole]
  · intro k inside inside'
    rw [← holds.symbols k inside']
    simp [lead]

theorem wStb_eq : s.wStb iStb iValid = (s.full || s.endsWrite iStb iValid) := rfl

theorem wStb_idle : s.wStb false iValid = s.full := by
  simp [wStb_eq, endsWrite]

theorem wStb_symbol (short : s.full = false) : s.wStb true true = false := by
  simp [wStb_eq, endsWrite, short]

theorem wStb_newline (short : s.full = false) : s.wStb true false = (s.lastcw == 0b01#2) := by
  simp [wStb_eq, endsWrite, short]

theorem holds_idle (holds : Holds s p) (short : s.full = false) : Holds (s.wbureadcw false iValid iHexbits) p := by
  have same : s.wbureadcw false iValid iHexbits =
      { s.wbureadcw false iValid iHexbits with rLen := s.rLen, cwLen := s.cwLen, shiftreg := s.shiftreg } := by
    simp [wbureadcw, wStb_idle, short]
  rw [same]
  exact ⟨holds.length, holds.wanted, holds.short, holds.symbols⟩

theorem holds_nothing {s : Readcw} (length : s.rLen = 0) (wanted : s.cwLen = 0) : Holds s [] where
  length := by rw [length]; rfl
  wanted := wanted
  short := Nat.zero_le _
  symbols := fun _ inside => absurd inside (Nat.not_lt_zero _)

theorem holds_leaving (whole : s.full = true) : Holds (s.wbureadcw false iValid iHexbits) [] :=
  holds_nothing (by simp [wbureadcw, wStb_idle, whole]) (by simp [wbureadcw, wStb_idle, whole])

theorem holds_newline : Holds (s.wbureadcw true false iHexbits) [] :=
  holds_nothing (by simp [wbureadcw]) (by simp [wbureadcw])

theorem holds_symbol (holds : Holds s p) (short : s.full = false) :
    Holds (s.wbureadcw true true iHexbits) (p ++ [iHexbits]) := by
  have few : p.length < (codeLen (p.headD 0)).toNat := by
    have some_ := full_eq holds ▸ short
    rw [complete, beq_eq_false_iff_ne] at some_
    exact Nat.lt_of_le_of_ne holds.short some_
  have most := (codeLen_range (p.headD 0)).2
  have room : s.rLen.toNat < 6 := by
    rw [holds.length]
    omega
  have head : p ≠ [] → (p ++ [iHexbits]).headD 0 = p.headD 0 := fun some_ => by
    obtain ⟨bits, rest, rfl⟩ := List.exists_cons_of_ne_nil some_
    rfl
  have rLen : (s.wbureadcw true true iHexbits).rLen = s.rLen + 1 := by simp [wbureadcw, wStb_symbol short]
  have cwLen : (s.wbureadcw true true iHexbits).cwLen = if s.cwLen = 0#3 then codeLen iHexbits else s.cwLen := by
    simp [wbureadcw, wStb_symbol short]
  have shiftreg : (s.wbureadcw true true iHexbits).shiftreg = place s.shiftreg s.rLen iHexbits := by
    simp [wbureadcw, wStb_symbol short]
  constructor
  case length =>
    rw [List.length_append, List.length_singleton, ← holds.length, rLen]
    bv_omega
  case wanted =>
    rw [cwLen, holds.wanted, if_neg (by simp : ¬p ++ [iHexbits] = [])]
    by_cases empty : p = []
    · rw [if_pos empty, if_pos rfl, empty]
      rfl
    · rw [if_neg empty, if_neg (codeLen_ne _), head empty]
  case short =>
    by_cases empty : p = []
    · subst empty
      exact (codeLen_range _).1
    · rw [head empty, List.length_append, List.length_singleton]
      exact few
  case symbols =>
    intro k inside
    rw [List.length_append, List.length_singleton] at inside
    rw [shiftreg, place_symbol _ _ room (by omega), List.getElem_append, holds.length]
    by_cases last : k = p.length
    · simp [last]
    · have before : k < p.length := by omega
      rw [if_neg last, dif_pos before, holds.symbols k before]

/-- Whether what came last is a write, once it has reached `lastcw`. -/
def written (s : Readcw) : Bool :=
  if s.full then s.shiftreg.extractLsb' 34 2 == 0b01#2
  else if s.stb then s.codword.extractLsb' 34 2 == 0b01#2
  else s.lastcw == 0b01#2

/-- The codeword that is complete and has not left yet. -/
def saying (s : Readcw) : List (List (BitVec 6)) :=
  if s.full then [lead s.shiftreg] else if s.stb then [lead s.codword] else []

def enters (s : Readcw) : List (BitVec 36) := if s.stb then [s.codword] else []

end Readcw

/-- A symbol or a newline. -/
def Tohex.hears (c : Tohex) : List (Option (BitVec 6)) := if c.stb then [if c.valid then some c.hexbits else none] else []

/-- What the shift register holds is what the receiver has heard. -/
structure Reading (s : Readcw) (r : Receiver) (p : List (BitVec 6)) : Prop where
  holds : Holds s p
  pending : r.pending = if complete p then [] else p
  writing : s.written = r.lastWrite
  alone : s.full = true → s.stb = false

namespace Reading

open Readcw

variable {s : Readcw} {r : Receiver} {p : List (BitVec 6)} {iValid : Bool} {iHexbits : BitVec 6}

theorem top_eq (w : BitVec 36) : (symbolAt w 0).extractLsb' 4 2 = w.extractLsb' 34 2 := Fields.nested w 30 (by decide)

theorem leaving (reading : Reading s r p) (whole : s.full = true) :
    Reading (s.wbureadcw false iValid iHexbits) r [] ∧
      s.enters.map lead ++ (s.wbureadcw false iValid iHexbits).saying = s.saying := by
  have holds : Holds (s.wbureadcw false iValid iHexbits) [] := holds_leaving whole
  have short : (s.wbureadcw false iValid iHexbits).full = false := full_eq holds
  have stb : (s.wbureadcw false iValid iHexbits).stb = true := wStb_idle.trans whole
  have codword : (s.wbureadcw false iValid iHexbits).codword = s.shiftreg := rfl
  have silent := reading.alone whole
  refine ⟨⟨holds, ?_, ?_, fun full => by simp [short] at full⟩, ?_⟩
  · rw [reading.pending, ← full_eq reading.holds, whole]
    rfl
  · rw [← reading.writing, written, written, short, stb, codword, whole]
    rfl
  · rw [saying, saying, enters, short, stb, codword, whole, silent]
    rfl

theorem waiting (reading : Reading s r p) (short : s.full = false) :
    Reading (s.wbureadcw false iValid iHexbits) r p ∧
      s.enters.map lead ++ (s.wbureadcw false iValid iHexbits).saying = s.saying := by
  have holds : Holds (s.wbureadcw false iValid iHexbits) p := holds_idle reading.holds short
  have still : (s.wbureadcw false iValid iHexbits).full = false := by rw [full_eq holds, ← full_eq reading.holds, short]
  have stb : (s.wbureadcw false iValid iHexbits).stb = false := wStb_idle.trans short
  refine ⟨⟨holds, reading.pending, ?_, fun full => by simp [still] at full⟩, ?_⟩
  · rw [← reading.writing, written, written, still, stb, short]
    cases said : s.stb <;> simp [wbureadcw, said]
  · rw [saying, saying, enters, still, stb, short]
    cases s.stb <;> rfl

theorem lead_ends {w : BitVec 36} (ends : symbolAt w 0 = 0x2e#6) : lead w = [0x2e#6] := by
  rw [lead, ends]
  change [symbolAt w 0] = [0x2e#6]
  rw [ends]

theorem lastcw_eq (reading : Reading s r p) (short : s.full = false) (silent : s.stb = false) :
    r.lastWrite = (s.lastcw == 0b01#2) := by
  rw [← reading.writing, written, short, silent]
  rfl

theorem ended (reading : Reading s r p) (short : s.full = false) (silent : s.stb = false) :
    Reading (s.wbureadcw true false iHexbits) (r.hear none) [] ∧
      (s.wbureadcw true false iHexbits).saying = r.tells none := by
  have holds : Holds (s.wbureadcw true false iHexbits) [] := holds_newline
  have still : (s.wbureadcw true false iHexbits).full = false := full_eq holds
  have stb : (s.wbureadcw true false iHexbits).stb = r.lastWrite :=
    (wStb_newline short).trans (lastcw_eq reading short silent).symm
  have lastcw : (s.wbureadcw true false iHexbits).lastcw = s.lastcw := by simp [wbureadcw, silent]
  have ends : r.lastWrite = true → symbolAt (s.wbureadcw true false iHexbits).codword 0 = 0x2e#6 := fun writing => by
    rw [lastcw_eq reading short silent] at writing
    simp only [wbureadcw, endsWrite, writing]
    exact Fields.first 0x2e#6 (s.codword.extractLsb' 0 30)
  refine ⟨⟨holds, rfl, ?_, fun full => by simp [still] at full⟩, ?_⟩
  · rw [written, still, stb, lastcw, ← lastcw_eq reading short silent]
    cases writing : r.lastWrite with
    | false => rfl
    | true =>
      rw [← top_eq (s.wbureadcw true false iHexbits).codword, ends writing]
      rfl
  · rw [saying, still, stb]
    cases writing : r.lastWrite with
    | false => simp [Receiver.tells, writing]
    | true => simp [Receiver.tells, writing, lead_ends (ends writing)]

theorem added (reading : Reading s r p) (short : s.full = false) (silent : s.stb = false) :
    Reading (s.wbureadcw true true iHexbits) (r.hear (some iHexbits)) (p ++ [iHexbits]) ∧
      (s.wbureadcw true true iHexbits).saying = r.tells (some iHexbits) := by
  have holds : Holds (s.wbureadcw true true iHexbits) (p ++ [iHexbits]) := holds_symbol reading.holds short
  have stb : (s.wbureadcw true true iHexbits).stb = false := wStb_symbol short
  have lastcw : (s.wbureadcw true true iHexbits).lastcw = s.lastcw := by simp [wbureadcw, silent]
  have full := full_eq holds
  have pending : r.pending = p := by
    rw [reading.pending, ← full_eq reading.holds, short]
    rfl
  refine ⟨⟨holds, ?_, ?_, fun _ => stb⟩, ?_⟩
  · rw [Receiver.hear, pending]
    cases complete (p ++ [iHexbits]) <;> rfl
  · rw [Receiver.hear, pending, written, full, stb, lastcw, ← lastcw_eq reading short silent]
    cases whole : complete (p ++ [iHexbits]) with
    | false => rfl
    | true =>
      have some_ := complete_pos whole
      have first := (holds.symbols 0 some_).trans (headD_eq some_).symm
      rw [if_pos rfl, if_pos rfl, ← top_eq, first]
      rfl
  · rw [Receiver.tells, pending, saying, full, stb]
    cases whole : complete (p ++ [iHexbits]) with
    | false => rfl
    | true => rw [if_pos rfl, if_pos rfl, lead_full holds whole]

/-- One clock of `wbureadcw` takes in what it hears, and a codeword leaves it in the order in which it was complete. -/
theorem step (reading : Reading s r p) (c : Tohex) (quiet : c.stb = true → s.full = false ∧ s.stb = false) :
    (∃ p', Reading (s.wbureadcw c.stb c.valid c.hexbits) (r.hearAll c.hears) p') ∧
      s.enters.map lead ++ (s.wbureadcw c.stb c.valid c.hexbits).saying = s.saying ++ r.tellsAll c.hears := by
  cases heard : c.stb with
  | false =>
    have nothing : c.hears = [] := by rw [Tohex.hears, heard]; rfl
    rw [nothing, show r.tellsAll [] = [] from rfl, List.append_nil]
    cases whole : s.full with
    | false => exact ⟨⟨p, (waiting reading whole).1⟩, (waiting reading whole).2⟩
    | true => exact ⟨⟨[], (leaving reading whole).1⟩, (leaving reading whole).2⟩
  | true =>
    obtain ⟨short, silent⟩ := quiet heard
    have nothing : s.enters = [] ∧ s.saying = [] := by simp [enters, saying, short, silent]
    rw [nothing.1, nothing.2]
    cases valid : c.valid with
    | false =>
      have one : c.hears = [none] := by simp [Tohex.hears, heard, valid]
      obtain ⟨next, told⟩ := @ended _ _ _ c.hexbits reading short silent
      rw [one]
      exact ⟨⟨[], next⟩, told.trans (List.append_nil _).symm⟩
    | true =>
      have one : c.hears = [some c.hexbits] := by simp [Tohex.hears, heard, valid]
      obtain ⟨next, told⟩ := @added _ _ _ c.hexbits reading short silent
      rw [one]
      exact ⟨⟨_, next⟩, told.trans (List.append_nil _).symm⟩

end Reading

/-! ### Unpacking codewords -/

namespace Decompress

variable (s : Decompress) (iStb : Bool) (iWord : BitVec 36)

def dictionary (s : Decompress) : Dictionary := ⟨s.wrAddr, s.compressionTbl⟩

/-- What is on its way through: a codeword waits for its table entry, then for its word, then to leave. -/
def unpacking (s : Decompress) : List (BitVec 36) :=
  (if s.stb then [s.word] else []) ++
    (if s.rStb.getLsbD 2 then [unpack s.rWord s.rAddr s.rdLen s.cword] else []) ++
    (if s.rStb.getLsbD 0 || s.rStb.getLsbD 1 then
      [unpack s.rWord s.rAddr s.rdLen (s.compressionTbl s.cmdAddr)] else [])

def leaves (s : Decompress) : List (BitVec 36) := if s.stb then [s.word] else []

/-- The codeword that is taken in, as the word that it stands for. -/
def takes : List (BitVec 36) := if iStb then [s.dictionary.meaning iWord] else []

theorem shifted : ∀ (r : BitVec 3) (b : Bool), (r.extractLsb' 0 2 ++ BitVec.ofBool b).getLsbD 0 = b ∧
    (r.extractLsb' 0 2 ++ BitVec.ofBool b).getLsbD 1 = r.getLsbD 0 ∧
    (r.extractLsb' 0 2 ++ BitVec.ofBool b).getLsbD 2 = r.getLsbD 1 := by
  decide

theorem rStb_next : (wbudecompress s iStb iWord).rStb.getLsbD 0 = iStb ∧
    (wbudecompress s iStb iWord).rStb.getLsbD 1 = s.rStb.getLsbD 0 ∧
    (wbudecompress s iStb iWord).rStb.getLsbD 2 = s.rStb.getLsbD 1 :=
  shifted s.rStb iStb

theorem dictionary_next : (wbudecompress s iStb iWord).dictionary =
    if iStb then s.dictionary.accept iWord else s.dictionary := by
  cases iStb with
  | false => rfl
  | true => simp [wbudecompress, dictionary, Dictionary.accept]

variable {s iStb iWord}

/-- Codewords three clocks apart become words in order. -/
theorem unpacks (free : iStb = true → s.rStb.getLsbD 0 = false ∧ s.rStb.getLsbD 1 = false)
    (apart : s.rStb.getLsbD 1 = true → s.rStb.getLsbD 0 = false) :
    s.leaves ++ (wbudecompress s iStb iWord).unpacking = s.unpacking ++ s.takes iStb iWord := by
  obtain ⟨first, second, third⟩ := rStb_next s iStb iWord
  have stb : (wbudecompress s iStb iWord).stb = s.rStb.getLsbD 2 := rfl
  have word : (wbudecompress s iStb iWord).word = unpack s.rWord s.rAddr s.rdLen s.cword := rfl
  have cword : (wbudecompress s iStb iWord).cword = s.compressionTbl s.cmdAddr := rfl
  rw [unpacking, unpacking, leaves, takes, first, second, third, stb, word, cword]
  simp only [List.append_assoc, List.append_cancel_left_eq]
  cases taken : iStb with
  | false =>
    have kept : (wbudecompress s false iWord).rWord = s.rWord ∧ (wbudecompress s false iWord).rAddr = s.rAddr ∧
        (wbudecompress s false iWord).rdLen = s.rdLen ∧ (wbudecompress s false iWord).cmdAddr = s.cmdAddr ∧
        (wbudecompress s false iWord).compressionTbl = s.compressionTbl := ⟨rfl, rfl, rfl, rfl, rfl⟩
    obtain ⟨rWord, rAddr, rdLen, cmdAddr, tbl⟩ := kept
    rw [rWord, rAddr, rdLen, cmdAddr, tbl]
    cases late : s.rStb.getLsbD 1 with
    | false => cases s.rStb.getLsbD 0 <;> simp
    | true =>
      rw [apart late]
      simp
  | true =>
    obtain ⟨none_, none'⟩ := free taken
    have word : unpack (wbudecompress s true iWord).rWord (wbudecompress s true iWord).rAddr
        (wbudecompress s true iWord).rdLen
        ((wbudecompress s true iWord).compressionTbl (wbudecompress s true iWord).cmdAddr) =
          s.dictionary.meaning iWord := rfl
    rw [word, none_, none']
    simp

end Decompress

/-! ### The chain -/

structure Typed where
  stb : Bool
  byte : BitVec 8
  deriving DecidableEq, Repr

/-- The characters that come in. -/
def characters (is : List Typed) : List (BitVec 8) := (is.filter (·.stb)).map (·.byte)

/-- Characters come at least five clocks apart, the first of them after `wait` clocks. -/
def Spaced : Nat → List Typed → Prop
  | _, [] => True
  | wait, i :: is => if i.stb then wait = 0 ∧ Spaced 4 is else Spaced (wait - 1) is

instance Spaced.decidable : (wait : Nat) → (is : List Typed) → Decidable (Spaced wait is)
  | _, [] => .isTrue trivial
  | wait, i :: is =>
      have := Spaced.decidable 4 is
      have := Spaced.decidable (wait - 1) is
      inferInstanceAs (Decidable (if i.stb then wait = 0 ∧ Spaced 4 is else Spaced (wait - 1) is))

namespace Wbuinput

def step (s : Wbuinput) (i : Typed) : Wbuinput := s.clock i.stb i.byte

/-- The command words that a run emits. -/
def commands (s : Wbuinput) (is : List Typed) : List (BitVec 36) :=
  Clocked.emitted step (fun s _ => s.unpacker.leaves) s is

end Wbuinput

/-- The chain, what a receiver would have heard, and the clocks since the last character. -/
structure Watched where
  box : Wbuinput
  receiver : Receiver
  age : Nat

/-- Where a codeword can be at what age of the last character. -/
structure Timed (s : Wbuinput) (age : Nat) : Prop where
  heard : s.tobits.stb = true ↔ age = 0
  whole : s.formcw.full = true → age = 1 ∧ s.formcw.stb = false
  said : s.formcw.stb = true → 1 ≤ age ∧ age ≤ 2
  first : s.unpacker.rStb.getLsbD 0 = true →
    2 ≤ age ∧ age ≤ 3 ∧ s.formcw.stb = false ∧ s.unpacker.rStb.getLsbD 1 = false
  second : s.unpacker.rStb.getLsbD 1 = true → 3 ≤ age ∧ age ≤ 4
  third : s.unpacker.rStb.getLsbD 2 = true → 4 ≤ age ∧ age ≤ 5 ∨ age = 0
  left : s.unpacker.stb = true → 5 ≤ age ∧ age ≤ 6 ∨ age ≤ 1

namespace Watched

variable {x : Watched} {i : Typed}

def step (x : Watched) (i : Typed) : Watched where
  box := x.box.step i
  receiver := x.receiver.hearAll x.box.tobits.hears
  age := if i.stb then 0 else x.age + 1

/-- The character may come. -/
def Due (x : Watched) (i : Typed) : Prop := i.stb = true → 4 ≤ x.age

structure Sound (x : Watched) : Prop where
  reading : ∃ p, Reading x.box.formcw x.receiver p
  timed : Timed x.box x.age

theorem quiet (timed : Timed x.box x.age) (heard : x.box.tobits.stb = true) :
    x.box.formcw.full = false ∧ x.box.formcw.stb = false := by
  have zero := timed.heard.mp heard
  constructor
  · by_contra whole
    have := timed.whole (Bool.not_eq_false _ ▸ whole)
    omega
  · by_contra said
    have := timed.said (Bool.not_eq_false _ ▸ said)
    omega

theorem age_step (due : x.Due i) : (x.step i).age = x.age + 1 ∨ (x.step i).age = 0 ∧ 4 ≤ x.age := by
  cases typed : i.stb with
  | false => exact .inl (by simp [step, typed])
  | true => exact .inr ⟨by simp [step, typed], due typed⟩

/-- A codeword becomes complete with a symbol. -/
theorem full_next {s : Readcw} {r : Receiver} {p : List (BitVec 6)} (reading : Reading s r p) {iStb iValid : Bool}
    {iHexbits : BitVec 6} (full : (s.wbureadcw iStb iValid iHexbits).full = true) : iStb = true ∧ iValid = true := by
  cases iStb with
  | false =>
    cases whole : s.full with
    | false =>
      rw [Readcw.full_eq (Readcw.holds_idle reading.holds whole), ← Readcw.full_eq reading.holds, whole] at full
      cases full
    | true =>
      rw [Readcw.full_eq (Readcw.holds_leaving whole)] at full
      cases full
  | true =>
    cases iValid with
    | false =>
      rw [Readcw.full_eq Readcw.holds_newline] at full
      cases full
    | true => exact ⟨rfl, rfl⟩

theorem Sound.timed_step (sound : Sound x) (due : x.Due i) : Timed (x.step i).box (x.step i).age := by
  obtain ⟨⟨p, reading⟩, timed⟩ := sound
  have age := age_step due
  have stb : (x.step i).box.formcw.stb = (x.box.formcw.full || x.box.formcw.endsWrite x.box.tobits.stb x.box.tobits.valid) :=
    rfl
  have newline : x.box.formcw.endsWrite x.box.tobits.stb x.box.tobits.valid = true → x.age = 0 := fun ends => by
    simp only [Readcw.endsWrite, Bool.and_eq_true] at ends
    exact timed.heard.mp ends.1.1
  obtain ⟨first, second, third⟩ := Decompress.rStb_next x.box.unpacker x.box.formcw.stb x.box.formcw.codword
  constructor
  case heard =>
    cases typed : i.stb <;> simp [step, Wbuinput.step, Wbuinput.clock, wbutohex, typed]
  case whole =>
    intro full
    obtain ⟨heard, valid⟩ := full_next reading full
    have zero := timed.heard.mp heard
    refine ⟨by omega, ?_⟩
    rw [stb, (quiet timed heard).1, heard, valid]
    simp [Readcw.endsWrite]
  case said =>
    intro said
    rw [stb, Bool.or_eq_true] at said
    rcases said with whole | ends
    · have := timed.whole whole
      omega
    · have := newline ends
      omega
  case first =>
    intro said
    have said := first.symm.trans said
    have when := timed.said said
    refine ⟨by omega, by omega, ?_, second.trans ?_⟩
    · rw [stb, Bool.or_eq_false_iff]
      constructor
      · by_contra whole
        have := (timed.whole (Bool.not_eq_false _ ▸ whole)).2
        simp [said] at this
      · by_contra ends
        have := newline (Bool.not_eq_false _ ▸ ends)
        omega
    · by_contra early
      have := (timed.first (Bool.not_eq_false _ ▸ early)).2.2.1
      simp [said] at this
  case second =>
    intro late
    have := timed.first (second.symm.trans late)
    omega
  case third =>
    intro late
    have := timed.second (third.symm.trans late)
    omega
  case left =>
    intro late
    have := timed.third late
    omega

theorem Sound.step (sound : Sound x) (due : x.Due i) : Sound (x.step i) := by
  obtain ⟨p, reading⟩ := sound.reading
  exact ⟨(reading.step x.box.tobits (quiet sound.timed)).1, sound.timed_step due⟩

/-- Everything between the characters and the command words: in `wbudecompress`, in `wbureadcw`, and in `wbutohex`. -/
theorem Sound.reads (sound : Sound x) (i : Typed) :
    x.box.formcw.enters.map lead ++ (x.step i).box.formcw.saying =
      x.box.formcw.saying ++ x.receiver.tellsAll x.box.tobits.hears := by
  obtain ⟨p, reading⟩ := sound.reading
  exact (reading.step x.box.tobits (quiet sound.timed)).2

theorem Sound.unpacks (sound : Sound x) (i : Typed) :
    x.box.unpacker.leaves ++ (x.step i).box.unpacker.unpacking =
      x.box.unpacker.unpacking ++ x.box.unpacker.takes x.box.formcw.stb x.box.formcw.codword := by
  obtain ⟨-, timed⟩ := sound
  apply Decompress.unpacks
  · intro said
    constructor
    · by_contra early
      have := (timed.first (Bool.not_eq_false _ ▸ early)).2.2.1
      simp [said] at this
    · by_contra early
      have := timed.second (Bool.not_eq_false _ ▸ early)
      have := timed.said said
      omega
  · intro late
    by_contra early
    have := (timed.first (Bool.not_eq_false _ ▸ early)).2.2.2
    rw [late] at this
    cases this

/-- Seven clocks behind a character, everything has left. -/
theorem Sound.drained (sound : Sound x) (old : 7 ≤ x.age) :
    x.box.tobits.hears = [] ∧ x.box.formcw.saying = [] ∧ x.box.unpacker.unpacking = [] := by
  obtain ⟨-, timed⟩ := sound
  have heard : x.box.tobits.stb = false := by
    by_contra heard
    have := timed.heard.mp (Bool.not_eq_false _ ▸ heard)
    omega
  have whole : x.box.formcw.full = false := by
    by_contra whole
    have := timed.whole (Bool.not_eq_false _ ▸ whole)
    omega
  have said : x.box.formcw.stb = false := by
    by_contra said
    have := timed.said (Bool.not_eq_false _ ▸ said)
    omega
  have first : x.box.unpacker.rStb.getLsbD 0 = false := by
    by_contra late
    have := timed.first (Bool.not_eq_false _ ▸ late)
    omega
  have second : x.box.unpacker.rStb.getLsbD 1 = false := by
    by_contra late
    have := timed.second (Bool.not_eq_false _ ▸ late)
    omega
  have third : x.box.unpacker.rStb.getLsbD 2 = false := by
    by_contra late
    have := timed.third (Bool.not_eq_false _ ▸ late)
    omega
  have left : x.box.unpacker.stb = false := by
    by_contra late
    have := timed.left (Bool.not_eq_false _ ▸ late)
    omega
  refine ⟨?_, ?_, ?_⟩
  · rw [Tohex.hears, heard]
    rfl
  · rw [Readcw.saying, whole, said]
    rfl
  · rw [Decompress.unpacking, left, third, first, second]
    rfl

theorem always_due {wait : Nat} {is : List Typed} (spaced : Spaced wait is) (enough : 4 ≤ wait + x.age) :
    Clocked.Always step Due x is := by
  induction is generalizing wait x with
  | nil => trivial
  | cons i is ih =>
    cases typed : i.stb with
    | false =>
      have rest : Spaced (wait - 1) is := by simpa [Spaced, typed] using spaced
      refine ⟨fun now => by simp [typed] at now, ih rest ?_⟩
      simp only [step, typed]
      grind
    | true =>
      obtain ⟨now, rest⟩ : wait = 0 ∧ Spaced 4 is := by simpa [Spaced, typed] using spaced
      exact ⟨fun _ => by omega, ih rest (Nat.le_add_right 4 _)⟩

theorem age_idle {idle : List Typed} (silent : ∀ i ∈ idle, i.stb = false) :
    (Clocked.run step x idle).age = x.age + idle.length := by
  induction idle generalizing x with
  | nil => rfl
  | cons i is ih =>
    rw [Clocked.run_cons, ih fun j member => silent j (List.mem_cons_of_mem i member)]
    simp only [step, silent i List.mem_cons_self, List.length_cons]
    grind

end Watched

/-! ### Lists of commands -/

namespace Item

theorem tells_command {c : Command} {h : History} (valid : c.Valid h) (writing : Bool)
    (rest : List (Option (BitVec 6))) :
    Receiver.tellsAll ⟨[], writing⟩ (c.encode.map some ++ rest) = c.encode :: Receiver.tellsAll ⟨[], c.isWrite⟩ rest := by
  obtain ⟨first, others, encoded, begins⟩ := encode_begins c valid
  have whole : complete ([] ++ c.encode) = true := by
    rw [List.nil_append, complete, beq_iff_eq, ← begins.length, encoded]
    rfl
  have writes_eq : writes ([] ++ c.encode) = c.isWrite := by
    rw [List.nil_append, ← begins.writes, encoded]
    rfl
  obtain ⟨heard, told⟩ := hear_codeword whole (by simp [encoded]) writing
  rw [writes_eq] at heard
  rw [Receiver.tellsAll, Clocked.emitted_append]
  exact congrArg₂ (· ++ ·) told (congrArg (fun r => Receiver.tellsAll r rest) heard)

/-- Codewords that begin as a list of commands is sent are taken as these commands. -/
theorem meanings_eq {items : List Item} {h : History} {writing : Bool} {t : Dictionary} {ws : List (BitVec 36)}
    (valid : Item.Valid h items) (keeps : t.Keeps h)
    (same : ws.map lead = Receiver.tellsAll ⟨[], writing⟩ (symbols items)) :
    (t.meanings ws).map view = words h writing items := by
  induction items generalizing h writing t ws with
  | nil =>
    obtain rfl := List.map_eq_nil_iff.mp same
    rfl
  | cons item rest ih =>
    cases item with
    | command c =>
      rw [symbols, tells_command valid.1] at same
      obtain ⟨w, ws, rfl, now, later⟩ := List.map_eq_cons_iff.mp same
      obtain ⟨taken, kept⟩ := meaning_command valid.1 keeps now
      have others := ih valid.2 kept later
      rw [words, ← others, ← view_word, ← taken]
      rfl
    | newline =>
      cases writing with
      | false => exact ih valid keeps same
      | true =>
        obtain ⟨w, ws, rfl, now, later⟩ := List.map_eq_cons_iff.mp same
        have first := (lead_cons now).1
        have ends : view w = none := if_pos first
        have taken : t.meaning w = w := by rw [Dictionary.meaning, unpack_first, if_pos first]
        have others := ih valid (Dictionary.keeps_other first (by decide) keeps) later
        rw [words, ← others]
        change view (t.meaning w) :: _ = _
        rw [taken, ends]
        rfl

end Item

/-! ### The stream -/

namespace Watched

def start (free : Wbuinput) : Watched := ⟨Wbuinput.powerUp free, ⟨[], false⟩, 7⟩

theorem unpacking_start (free : Wbuinput) : (start free).box.unpacker.unpacking = [] := by
  simp [start, Wbuinput.powerUp, Decompress.unpacking]

theorem sound_start (free : Wbuinput) : Sound (start free) where
  reading := ⟨[], Readcw.holds_nothing rfl rfl, rfl, rfl, fun _ => rfl⟩
  timed :=
    { heard := ⟨fun heard => Bool.noConfusion heard, fun zero => Nat.noConfusion zero⟩
      whole := fun whole => Bool.noConfusion whole
      said := fun said => Bool.noConfusion said
      first := fun late => by simp [start, Wbuinput.powerUp] at late
      second := fun late => by simp [start, Wbuinput.powerUp] at late
      third := fun late => by simp [start, Wbuinput.powerUp] at late
      left := fun late => Bool.noConfusion late }

theorem hears_letter (symbol : Option (BitVec 6)) : (wbutohex true (letter symbol)).hears = [symbol] := by
  cases symbol with
  | none => decide
  | some bits =>
    obtain ⟨entry, high⟩ := remapHex_letter bits
    have known : (0b1#1 ++ bits : BitVec 7).getLsbD 6 = true := by
      rw [BitVec.getLsbD_append]
      rfl
    have low : (0b1#1 ++ bits : BitVec 7).extractLsb' 0 6 = bits := BitVec.extractLsb'_append_eq_right
    simp only [Tohex.hears, wbutohex, entry, high, known, low]
    rfl

def hears (x : Watched) (_ : Typed) : List (Option (BitVec 6)) := x.box.tobits.hears

def enters (x : Watched) (_ : Typed) : List (BitVec 36) := x.box.formcw.enters

def leaves (x : Watched) (_ : Typed) : List (BitVec 36) := x.box.unpacker.leaves

def types (_ : Watched) (i : Typed) : List (Option (BitVec 6)) := (wbutohex i.stb i.byte).hears

theorem emitted_types (x : Watched) (is : List Typed) :
    Clocked.emitted step types x is = (characters is).flatMap fun byte => (wbutohex true byte).hears := by
  induction is generalizing x with
  | nil => rfl
  | cons i is ih =>
    rw [Clocked.emitted_cons, ih]
    cases typed : i.stb <;> simp [types, characters, typed, wbutohex, Tohex.hears]

/-- The symbols that `wbureadcw` sees are those of the characters that come in. -/
theorem hears_all {x : Watched} {is : List Typed} {symbols : List (Option (BitVec 6))}
    (quiet : x.box.tobits.hears = []) (drained : (Clocked.run step x is).box.tobits.hears = [])
    (sent : characters is = symbols.map letter) : Clocked.emitted step hears x is = symbols := by
  have law := @Clocked.conservation_all Watched Typed (Option (BitVec 6)) step hears types
    (fun x => x.box.tobits.hears) (fun _ _ => rfl) x is
  rw [quiet, drained, List.append_nil, List.nil_append, emitted_types, sent, List.flatMap_map] at law
  simpa only [hears_letter, List.flatMap_singleton'] using law

theorem dictionary_step (x : Watched) (i : Typed) : (x.step i).box.unpacker.dictionary =
    x.box.unpacker.dictionary.acceptAll x.box.formcw.enters := by
  have next := Decompress.dictionary_next x.box.unpacker x.box.formcw.stb x.box.formcw.codword
  refine Eq.trans next ?_
  cases said : x.box.formcw.stb <;> simp [Readcw.enters, said, Dictionary.acceptAll]

theorem takes_eq (x : Watched) : x.box.unpacker.takes x.box.formcw.stb x.box.formcw.codword =
    x.box.unpacker.dictionary.meanings x.box.formcw.enters := by
  cases said : x.box.formcw.stb <;> simp [Readcw.enters, Decompress.takes, said, Dictionary.meanings]

theorem commands_eq (x : Watched) (is : List Typed) : x.box.commands is = Clocked.emitted step leaves x is := by
  induction is generalizing x with
  | nil => rfl
  | cons i is ih => exact congrArg (x.box.unpacker.leaves ++ ·) (ih (x.step i))

theorem step_sound (x : Watched) (i : Typed) (sound : Sound x) (due : x.Due i) : Sound (x.step i) := sound.step due

/-- The codewords of a run are those that the receiver tells. -/
theorem enters_all {x : Watched} {is : List Typed} (sound : Sound x) (due : Clocked.Always step Due x is)
    (empty : x.box.formcw.saying = []) (drained : (Clocked.run step x is).box.formcw.saying = []) :
    (Clocked.emitted step enters x is).map lead = x.receiver.tellsAll (Clocked.emitted step hears x is) := by
  have law := @Clocked.conservation Watched Typed (List (BitVec 6)) step Due Sound
    (fun x i => (enters x i).map lead) (fun x i => x.receiver.tellsAll (hears x i)) (fun x => x.box.formcw.saying)
    step_sound (fun x i sound _ => sound.reads i) x is sound due
  have fed := Clocked.emitted_fed Receiver.hear Receiver.tells Watched.receiver hears step_sound (fun _ _ _ _ => rfl)
    sound due
  rw [empty, drained, List.append_nil, List.nil_append] at law
  rw [Clocked.emitted_hom List.map_nil fun _ _ => List.map_append]
  exact law.trans fed

/-- The command words of a run are what its codewords mean. -/
theorem leaves_all {x : Watched} {is : List Typed} (sound : Sound x) (due : Clocked.Always step Due x is)
    (empty : x.box.unpacker.unpacking = []) (drained : (Clocked.run step x is).box.unpacker.unpacking = []) :
    Clocked.emitted step leaves x is = x.box.unpacker.dictionary.meanings (Clocked.emitted step enters x is) := by
  have law := @Clocked.conservation Watched Typed (BitVec 36) step Due Sound leaves
    (fun x i => x.box.unpacker.dictionary.meanings (enters x i)) (fun x => x.box.unpacker.unpacking)
    step_sound (fun x i sound _ => takes_eq x ▸ sound.unpacks i) x is sound due
  have fed := Clocked.emitted_fed Dictionary.accept (fun t w => [t.meaning w])
    (fun x : Watched => x.box.unpacker.dictionary) enters step_sound (fun x i _ _ => dictionary_step x i) sound due
  rw [empty, drained, List.append_nil, List.nil_append] at law
  exact law.trans fed

end Watched

theorem characters_idle {idle : List Typed} (silent : ∀ i ∈ idle, i.stb = false) (is : List Typed) :
    characters (is ++ idle) = characters is := by
  have nothing : idle.filter (·.stb) = [] := List.filter_eq_nil_iff.mpr fun i member => by simp [silent i member]
  simp [characters, nothing]

/-- Commands are decoded as they were sent. -/
theorem decodes_commands (free : Wbuinput) (items : List Item) (valid : Item.Valid [] items) (is idle : List Typed)
    (sent : characters is = (Item.symbols items).map letter) (spaced : Spaced 0 is)
    (silent : ∀ i ∈ idle, i.stb = false) (long : 7 ≤ idle.length) :
    ((Wbuinput.powerUp free).commands (is ++ idle)).map view = Item.words [] false items := by
  have sound := Watched.sound_start free
  have due : Clocked.Always Watched.step Watched.Due (Watched.start free) (is ++ idle) := by
    rw [Clocked.always_append]
    refine ⟨Watched.always_due spaced (Nat.le_of_ble_eq_true rfl), Clocked.always_of_inputs (fun i member x typed => ?_) _⟩
    simp [silent i member] at typed
  have later := Clocked.run_invariant Watched.step_sound sound due
  have old : 7 ≤ (Clocked.run Watched.step (Watched.start free) (is ++ idle)).age := by
    rw [Clocked.run_append, Watched.age_idle silent]
    omega
  obtain ⟨heard, said, left⟩ := later.drained old
  have symbols := Watched.hears_all (x := Watched.start free) rfl heard ((characters_idle silent is).trans sent)
  have codewords := Watched.enters_all sound due rfl said
  rw [symbols] at codewords
  have words := Watched.leaves_all sound due (Watched.unpacking_start free) left
  rw [← Watched.commands_eq] at words
  have keeps : (Watched.start free).box.unpacker.dictionary.Keeps [] := fun back least most => by
    have none_ : back.toNat ≤ 0 := most
    omega
  exact (congrArg (List.map view) words).trans (Item.meanings_eq valid keeps codewords)

/-- Characters five clocks apart. -/
def slowly (bytes : List (BitVec 8)) : List Typed := bytes.flatMap fun byte => ⟨true, byte⟩ :: List.replicate 4 ⟨false, 0⟩

/-- A write that is repeated, and a read. -/
def rewriting : List Item :=
  [.command (.write 0x12345678 true), .newline, .command (.again 1 false), .newline, .newline, .command (.read 9 true)]

def blank : Wbuinput where
  tobits := ⟨false, false, 0⟩
  formcw := ⟨0, 0, 0, 0, false, 0⟩
  unpacker := ⟨0, fun _ => 0, 0, 0, 0, 0, 0, 0, false, 0⟩

theorem decodes_rewriting :
    ((Wbuinput.powerUp blank).commands (slowly ((Item.symbols rewriting).map letter) ++
      List.replicate 7 ⟨false, 0⟩)).map view =
    [some (writeWord 0x12345678 true), none, some (writeWord 0x12345678 false), none, some (0x18#5 ++ 0x40000009#31)] :=
  decodes_commands blank rewriting ⟨trivial, ⟨by decide, by decide⟩, ⟨by decide, by decide, by decide⟩, trivial⟩
    (slowly ((Item.symbols rewriting).map letter)) (List.replicate 7 ⟨false, 0⟩) (by decide) (by decide) (by decide)
    (by decide)

end IcoZip.Wbubus
