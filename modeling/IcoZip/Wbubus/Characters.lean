import IcoZip.Library.Elastic

/-! Codewords to characters: `wbudeword`, `wbucompactlines` and `wbusixchar`, as
`wbuoutput` connects them.

The first two are elastic stages that conserve what is left when newlines are
deleted. The last one takes its strobe from its predecessor also in the clock in
which it hands its own character over, although it tells the predecessor that it
is busy: what is offered to it then stays where it is, and the character goes out
again.
-/

set_option autoImplicit false

namespace IcoZip.Wbubus

open Elastic (Offer Stage Conserves)

/-! ### Codewords to symbols -/

structure Deword where
  stb : Bool
  nlHexbits : BitVec 7
  rLen : BitVec 3
  rWord : BitVec 30
  deriving DecidableEq, Repr

/-- The number of six-bit symbols that a codeword is sent as. -/
def wLen (word : BitVec 36) : BitVec 3 :=
  if word.extractLsb' 33 3 = 0b000#3 then 0b001#3
  else if word.extractLsb' 32 4 = 0x2#4 then 0b110#3
  else if word.extractLsb' 32 4 = 0x3#4 then 0b010#3 + (0#1 ++ word.extractLsb' 30 2)
  else if word.extractLsb' 34 2 = 0b01#2 then 0b010#3
  else if word.extractLsb' 34 2 = 0b10#2 then 0b001#3
  else 0b110#3

/-- One clock of `wbudeword`; `o_busy` is `o_stb`. -/
def wbudeword (s : Deword) (iStb : Bool) (iWord : BitVec 36) (iTxBusy : Bool) : Deword :=
  { rWord :=
      if iStb && !s.stb then iWord.extractLsb' 0 30
      else if !iTxBusy then
        if 1 < s.rLen then s.rWord.extractLsb' 0 24 ++ s.rWord.extractLsb' 0 6 else s.rWord
      else s.rWord
    nlHexbits :=
      if iStb && !s.stb then 0#1 ++ iWord.extractLsb' 30 6
      else if !iTxBusy then
        if 1 < s.rLen then 0#1 ++ s.rWord.extractLsb' 24 6
        else if !s.nlHexbits[6] then 0x40#7
        else s.nlHexbits
      else s.nlHexbits
    stb :=
      if iStb && !s.stb then true
      else if s.rLen == 0 && !iTxBusy then false
      else s.stb
    rLen :=
      if iStb && !s.stb then wLen iWord
      else if !iTxBusy && 0 < s.rLen then s.rLen - 1
      else s.rLen }

/-! ### Lines -/

structure Lines where
  stb : Bool
  nlHexbits : BitVec 7
  lastOutNl : Bool
  lastInNl : Bool
  fullLine : Bool
  rBusy : Bool
  linelen : BitVec 7
  deriving DecidableEq, Repr

def triggerLength : BitVec 7 := 79#7 - 6#7

def Lines.busy (s : Lines) : Bool := s.rBusy || s.stb

/-- One clock of `wbucompactlines`. -/
def wbucompactlines (s : Lines) (iStb : Bool) (iNlHexbits : BitVec 7) (iBusBusy iTxBusy : Bool) : Lines :=
  { lastOutNl := if !iTxBusy && s.stb then s.nlHexbits[6] else s.lastOutNl
    lastInNl := if iStb && !s.busy then iNlHexbits[6] else s.lastInNl
    linelen := if !iTxBusy && s.stb then if s.nlHexbits[6] then 0 else s.linelen + 1 else s.linelen
    fullLine :=
      if !iTxBusy && s.stb then if s.nlHexbits[6] then false else triggerLength ≤ s.linelen else s.fullLine
    stb :=
      if iStb && !s.busy then s.fullLine || !iNlHexbits[6]
      else if !s.busy then !iTxBusy && !iBusBusy && !s.lastOutNl && s.lastInNl
      else if !iTxBusy then false
      else s.stb
    nlHexbits :=
      if iStb && !s.busy then iNlHexbits
      else if !s.busy then 0x40#7
      else s.nlHexbits
    rBusy := s.stb && iTxBusy }

/-! ### Symbols to characters -/

structure Sixchar where
  stb : Bool
  char : BitVec 8
  deriving DecidableEq, Repr

/-- An entry of the table in `wbusixchar`. -/
def remap (k : BitVec 7) : BitVec 7 :=
  if 64 ≤ k then 0x0a#7
  else if k ≤ 0x09 then 0x30#7 + (0#3 ++ k.extractLsb' 0 4)
  else if k.extractLsb' 0 6 ≤ 35#6 then 0x41#7 + (0#1 ++ k.extractLsb' 0 6) - 10#7
  else if k.extractLsb' 0 6 ≤ 61#6 then 0x61#7 + (0#1 ++ k.extractLsb' 0 6) - 36#7
  else if k.extractLsb' 0 6 = 62#6 then 0x40#7
  else 0x25#7

def charOf (bits : BitVec 7) : BitVec 8 := 0#1 ++ remap bits

/-- One clock of `wbusixchar`; `o_busy` is `o_stb`. -/
def wbusixchar (s : Sixchar) (iStb : Bool) (iBits : BitVec 7) (iBusy : Bool) : Sixchar :=
  { stb := if !s.stb || !iBusy then iStb else s.stb
    char := if !s.stb then charOf iBits else s.char }

/-! ### The stages in their places -/

def dewordStage : Stage Deword Unit (BitVec 36) (BitVec 7) where
  step s _ up busy := wbudeword s up.stb up.data busy
  busy s _ := s.stb
  out s := ⟨s.stb, s.nlHexbits⟩

/-- `wbucompactlines`; the side input is `i_bus_busy`. -/
def linesStage : Stage Lines Bool (BitVec 7) (BitVec 7) where
  step s busBusy up busy := wbucompactlines s up.stb up.data busBusy busy
  busy s _ := s.busy
  out s := ⟨s.stb, s.nlHexbits⟩

def packStage := dewordStage.series linesStage

/-! ### What an observer sees -/

def newline : BitVec 8 := 0x0a

/-- Newlines are deleted. -/
def charView (char : BitVec 8) : List (BitVec 8) := if char = newline then [] else [char]

def bitsView (bits : BitVec 7) : List (BitVec 8) := charView (charOf bits)

/-- The characters of a codeword: its leading symbols, as many as its length code says. -/
def encoding (word : BitVec 36) : List (BitVec 8) :=
  (List.range (wLen word).toNat).map fun k => charOf (0#1 ++ word.extractLsb' (30 - 6 * k) 6)

/-- The leading `n` symbols of what follows the first. -/
def symbols : Nat → BitVec 30 → List (BitVec 8)
  | 0, _ => []
  | n + 1, word => charOf (0#1 ++ word.extractLsb' 24 6) ::
      symbols n (word.extractLsb' 0 24 ++ word.extractLsb' 0 6)

theorem bitsView_end : bitsView 0x40#7 = [] := by decide

theorem newline_iff : ∀ bits : BitVec 7, charOf bits = newline ↔ bits[6] = true := by decide

theorem bitsView_newline {bits : BitVec 7} (nl : bits[6] = true) : bitsView bits = [] := by
  rw [bitsView, charView, if_pos ((newline_iff bits).mpr nl)]

/-- A shift brings the next symbol to the front. -/
theorem symbol_shift (word : BitVec 30) {k : Nat} (inside : k < 4) :
    (word.extractLsb' 0 24 ++ word.extractLsb' 0 6).extractLsb' (24 - 6 * k) 6 =
      word.extractLsb' (24 - 6 * (k + 1)) 6 := by
  apply BitVec.eq_of_getLsbD_eq
  intro p bound
  simp only [BitVec.getLsbD_extractLsb', BitVec.getLsbD_append]
  have high : ¬ 24 - 6 * k + p < 6 := by omega
  have place : 24 - 6 * k + p - 6 = 24 - 6 * (k + 1) + p := by omega
  have within : 24 - 6 * (k + 1) + p < 24 := by omega
  rw [if_neg high, place, Nat.zero_add, decide_eq_true within, Bool.true_and]

theorem symbols_eq {n : Nat} (word : BitVec 30) (few : n ≤ 5) :
    symbols n word = (List.range n).map fun k => charOf (0#1 ++ word.extractLsb' (24 - 6 * k) 6) := by
  induction n generalizing word with
  | zero => rfl
  | succ n ih =>
    rw [symbols, ih _ (by omega), List.range_succ_eq_map, List.map_cons, List.map_map]
    congr 1
    apply List.map_congr_left
    intro k member
    have inside : k < n := List.mem_range.mp member
    rw [Function.comp_apply, symbol_shift word (by omega)]

theorem wLen_range (word : BitVec 36) : 1 ≤ (wLen word).toNat ∧ (wLen word).toNat ≤ 6 := by
  unfold wLen
  have some (two : BitVec 2) : 1 ≤ (0b010#3 + (0#1 ++ two)).toNat ∧ (0b010#3 + (0#1 ++ two)).toNat ≤ 6 := by
    revert two
    decide
  split_ifs
  · decide
  · decide
  · exact some _
  all_goals decide

theorem encoding_eq (word : BitVec 36) : encoding word =
    charOf (0#1 ++ word.extractLsb' 30 6) :: symbols ((wLen word).toNat - 1) (word.extractLsb' 0 30) := by
  obtain ⟨positive, few⟩ := wLen_range word
  obtain ⟨n, len⟩ : ∃ n, (wLen word).toNat = n + 1 := ⟨(wLen word).toNat - 1, by omega⟩
  rw [encoding, len, Nat.add_sub_cancel, symbols_eq _ (by omega), List.range_succ_eq_map, List.map_cons, List.map_map]
  congr 1
  apply List.map_congr_left
  intro k member
  have inside : k < n := List.mem_range.mp member
  have place : (word.extractLsb' 0 30).extractLsb' (24 - 6 * k) 6 = word.extractLsb' (30 - 6 * (k + 1)) 6 := by
    rw [BitVec.extractLsb'_extractLsb'_of_le (by omega)]
    congr 1
    omega
  rw [Function.comp_apply, place]

/-! ### The first two stages conserve it -/

/-- A symbol is offered as long as the count has not run out, then the newline that ends the word. -/
structure Deword.Sound (s : Deword) : Prop where
  empty : s.stb = false → s.rLen = 0#3
  ended : s.stb = true → s.rLen = 0#3 → s.nlHexbits[6] = true
  symbol : s.rLen ≠ 0#3 → s.nlHexbits[6] = false

def Deword.held (s : Deword) : List (BitVec 8) :=
  if s.rLen = 0#3 then [] else charOf s.nlHexbits :: symbols (s.rLen.toNat - 1) s.rWord

theorem Deword.held_none {s : Deword} (none : s.rLen = 0#3) : s.held = [] := if_pos none

theorem Deword.held_some {s : Deword} (some : s.rLen ≠ 0#3) :
    s.held = charOf s.nlHexbits :: symbols (s.rLen.toNat - 1) s.rWord := if_neg some

theorem wLen_ne_zero (word : BitVec 36) : wLen word ≠ 0#3 := by
  intro zero
  have positive := (wLen_range word).1
  rw [zero] at positive
  exact absurd positive (by decide)

/-- What a clock does with what is offered: a symbol with others behind it, the last symbol, or the newline. -/
theorem wbudeword_advance {s : Deword} (sound : s.Sound) (stb : s.stb = true) (iStb : Bool) (word : BitVec 36) :
    (s.rLen = 0#3 ∧ (wbudeword s iStb word false).stb = false ∧ (wbudeword s iStb word false).rLen = 0#3) ∨
    (s.rLen = 1#3 ∧ wbudeword s iStb word false = { s with nlHexbits := 0x40#7, rLen := 0#3 }) ∨
    (1#3 < s.rLen ∧ wbudeword s iStb word false =
      { s with
        nlHexbits := 0#1 ++ s.rWord.extractLsb' 24 6
        rWord := s.rWord.extractLsb' 0 24 ++ s.rWord.extractLsb' 0 6
        rLen := s.rLen - 1#3 }) := by
  by_cases zero : s.rLen = 0#3
  · exact .inl ⟨zero, by simp [wbudeword, stb, zero], by simp [wbudeword, stb, zero]⟩
  · by_cases one : s.rLen = 1#3
    · have symbol := sound.symbol zero
      refine .inr (.inl ⟨one, ?_⟩)
      obtain ⟨_, _, _, _⟩ := s
      simp_all [wbudeword]
    · have more : 1#3 < s.rLen := by bv_omega
      have some : 0#3 < s.rLen := by bv_omega
      refine .inr (.inr ⟨more, ?_⟩)
      simp [wbudeword, stb, zero, more, some]

theorem wbudeword_load {s : Deword} (empty : s.stb = false) (word : BitVec 36) (busy : Bool) :
    wbudeword s true word busy =
      ⟨true, 0#1 ++ word.extractLsb' 30 6, wLen word, word.extractLsb' 0 30⟩ := by
  simp [wbudeword, empty]

theorem symbol_bit : ∀ symbol : BitVec 6, (0#1 ++ symbol)[6] = false := by decide

theorem bitsView_of_symbol {bits : BitVec 7} (symbol : bits[6] = false) : bitsView bits = [charOf bits] := by
  rw [bitsView, charView, if_neg]
  rw [newline_iff, symbol]
  decide

theorem deword_conserves : Conserves dewordStage Deword.Sound encoding bitsView Deword.held where
  kept s _ up busy sound := by
    obtain ⟨upStb, word⟩ := up
    simp only [dewordStage]
    cases stb : s.stb with
    | false =>
      have empty := sound.empty stb
      cases upStb with
      | false => constructor <;> simp [wbudeword, stb, empty]
      | true =>
        rw [wbudeword_load stb]
        exact ⟨by simp, fun _ none => absurd none (wLen_ne_zero word), fun _ => symbol_bit _⟩
    | true =>
      cases busy with
      | true =>
        have same : wbudeword s upStb word true = s := by
          obtain ⟨_, _, _, _⟩ := s
          simp_all [wbudeword]
        rw [same]
        exact sound
      | false =>
        -- A word ends, or its newline is sent, or its next symbol.
        rcases wbudeword_advance sound stb upStb word with ⟨-, off, none⟩ | ⟨-, next⟩ | ⟨more, next⟩
        · exact ⟨fun _ => none, fun on => absurd on (by simp [off]), fun some => absurd none some⟩
        · rw [next]
          exact ⟨fun _ => rfl, fun _ _ => (by decide : (0x40#7)[6] = true), fun some => absurd rfl some⟩
        · rw [next]
          refine ⟨fun off => absurd off (by simp [stb]), fun _ none => ?_, fun _ => symbol_bit _⟩
          simp only at none
          bv_omega
  law s _ up busy sound := by
    obtain ⟨upStb, word⟩ := up
    simp only [dewordStage]
    cases stb : s.stb with
    | false =>
      have empty := sound.empty stb
      cases upStb with
      | false =>
        have still : (wbudeword s false word busy).rLen = 0#3 := by simp [wbudeword, stb, empty]
        simp [Deword.held_none, empty, still]
      | true =>
        have loaded : (wbudeword s true word busy).held = encoding word := by
          rw [wbudeword_load stb, Deword.held_some (wLen_ne_zero word), encoding_eq]
        simp [Deword.held_none, empty, loaded]
    | true =>
      cases busy with
      | true => simp [wbudeword, stb, Deword.held]
      | false =>
        simp only [Offer.taken_ready, Offer.taken_busy, List.flatMap_nil, List.append_nil, List.flatMap_singleton]
        rcases wbudeword_advance sound stb upStb word with ⟨last, -, none⟩ | ⟨last, next⟩ | ⟨more, next⟩
        · rw [bitsView_newline (sound.ended stb last), Deword.held_none last, Deword.held_none none]
          rfl
        · have some : s.rLen ≠ 0#3 := by rw [last]; decide
          rw [next, Deword.held_none rfl, Deword.held_some some, bitsView_of_symbol (sound.symbol some), last]
          rfl
        · have some : s.rLen ≠ 0#3 := by bv_omega
          have rest : s.rLen - 1#3 ≠ 0#3 := by bv_omega
          have pred : s.rLen.toNat - 1 = (s.rLen - 1#3).toNat - 1 + 1 := by bv_omega
          rw [next, Deword.held_some rest, Deword.held_some some, bitsView_of_symbol (sound.symbol some), pred,
            symbols]
          rfl

/-- The line packer is busy exactly while it offers something. -/
def Lines.Sound (s : Lines) : Prop := s.rBusy = true → s.stb = true

def Lines.held (s : Lines) : List (BitVec 8) := if s.stb then bitsView s.nlHexbits else []

theorem lines_conserves : Conserves linesStage Lines.Sound bitsView bitsView Lines.held where
  kept s busBusy up busy sound := by
    simp only [Lines.Sound] at sound
    cases stb : s.stb <;> cases busy <;> simp_all [linesStage, Lines.Sound, wbucompactlines, Lines.busy]
  law s busBusy up busy sound := by
    simp only [linesStage]
    cases stb : s.stb with
    | false =>
      have free : s.busy = false := by
        cases rBusy : s.rBusy with
        | false => simp [Lines.busy, rBusy, stb]
        | true => exact absurd (sound rBusy) (by simp [stb])
      obtain ⟨upStb, bits⟩ := up
      cases upStb with
      | false =>
        simp [Lines.held, wbucompactlines, stb, free, bitsView_end]
      | true =>
        -- what is not passed on is a newline
        cases nl : bits[6] with
        | false => simp [Lines.held, wbucompactlines, stb, free, nl]
        | true => simp [Lines.held, wbucompactlines, stb, free, bitsView_newline nl]
    | true =>
      have busy' : s.busy = true := by simp [Lines.busy, stb]
      cases busy <;> simp [Lines.held, wbucompactlines, stb, busy']

/-- The first two stages. -/
abbrev Packer := Deword × Lines

theorem pack_conserves : Conserves packStage (fun s => s.1.Sound ∧ s.2.Sound) encoding bitsView
    (fun s => s.2.held ++ s.1.held) :=
  deword_conserves.series lines_conserves

/-! ### The whole path -/

structure Inputs where
  up : Offer (BitVec 36)
  busBusy : Bool
  txBusy : Bool
  deriving DecidableEq, Repr

/-- The registers of `wbuoutput` behind the compressor. -/
abbrev Path := Packer × Sixchar

namespace Path

def powerUp : Path := ((⟨false, 0x40, 0, 0⟩, ⟨false, 0, true, true, false, false, 0⟩), ⟨false, 0⟩)

def clock (s : Path) (i : Inputs) : Path :=
  (packStage.step s.1 ((), i.busBusy) i.up s.2.stb, wbusixchar s.2 s.1.2.stb s.1.2.nlHexbits i.txBusy)

/-- The codeword accepted in a clock. -/
def accepts (s : Path) (i : Inputs) : List (BitVec 36) := i.up.taken s.1.1.stb

/-- The symbol that `wbucompactlines` sees accepted. -/
def hands (s : Path) : List (BitVec 7) := (packStage.out s.1).taken s.2.stb

/-- The character that the transmitter takes. -/
def sends (s : Path) (i : Inputs) : List (BitVec 8) := Offer.taken ⟨s.2.stb, s.2.char⟩ i.txBusy

/-- The transmitter does not take a character while the next one is already offered behind it. -/
def Clear (s : Path) (i : Inputs) : Prop := ¬ (s.2.stb = true ∧ i.txBusy = false ∧ s.1.2.stb = true)

instance (s : Path) (i : Inputs) : Decidable (Clear s i) := inferInstanceAs (Decidable (¬ _))

def offered (s : Path) : List (BitVec 8) := if s.2.stb then [s.2.char] else []

theorem wbusixchar_iff (s : Path) (i : Inputs) :
    s.sends i ++ (s.clock i).offered = s.offered ++ s.hands.map charOf ↔ Clear s i := by
  obtain ⟨⟨deword, lines⟩, stb, char⟩ := s
  simp only [sends, clock, offered, hands, wbusixchar, packStage, Stage.series, linesStage, Clear]
  cases stb with
  | false => cases up : lines.stb <;> simp
  | true => cases busy : i.txBusy <;> cases up : lines.stb <;> simp

/-! ### What has gone through -/

/-- The codewords accepted, the symbols that `wbucompactlines` saw accepted, and the characters sent. -/
structure Ledger where
  accepted : List (BitVec 36)
  handed : List (BitVec 7)
  sent : List (BitVec 8)
  deriving DecidableEq, Repr

abbrev Recorded := Path × Ledger

namespace Recorded

def step (x : Recorded) (i : Inputs) : Recorded :=
  (x.1.clock i,
    { accepted := x.2.accepted ++ x.1.accepts i
      handed := x.2.handed ++ x.1.hands
      sent := x.2.sent ++ x.1.sends i })

def start : Recorded := (powerUp, ⟨[], [], []⟩)

/-- What is in the pipeline, without newlines. -/
def inFlight (x : Recorded) : List (BitVec 8) :=
  x.1.offered.filter (· != newline) ++ (x.1.1.2.held ++ x.1.1.1.held)

/-- Every symbol is sent as one character, and the characters are those of the codewords. -/
structure Lossless (x : Recorded) : Prop where
  once : x.2.sent ++ x.1.offered = x.2.handed.map charOf
  encoded : x.2.sent.filter (· != newline) ++ x.inFlight = x.2.accepted.flatMap encoding

/-- The symbols handed over and those held are those of the codewords. -/
structure Packed (x : Recorded) : Prop where
  deword : x.1.1.1.Sound
  lines : x.1.1.2.Sound
  law : x.2.handed.flatMap bitsView ++ (x.1.1.2.held ++ x.1.1.1.held) = x.2.accepted.flatMap encoding

theorem packed_start : Packed start := by
  refine ⟨?_, ?_, rfl⟩
  · constructor <;> simp [start, powerUp]
  · simp [Lines.Sound, start, powerUp]

variable {x : Recorded}

theorem Packed.step (packed : Packed x) (i : Inputs) : Packed (x.step i) := by
  have kept := pack_conserves.kept x.1.1 ((), i.busBusy) i.up x.1.2.stb ⟨packed.deword, packed.lines⟩
  have law := pack_conserves.law x.1.1 ((), i.busBusy) i.up x.1.2.stb ⟨packed.deword, packed.lines⟩
  refine ⟨kept.1, kept.2, ?_⟩
  simp only [Recorded.step, List.flatMap_append, List.append_assoc]
  -- what the packer holds afterwards and hands over is what it held and accepts
  exact (congrArg _ law).trans (by rw [← List.append_assoc, packed.law]; rfl)

theorem flatMap_charView (chars : List (BitVec 8)) : chars.flatMap charView = chars.filter (· != newline) := by
  induction chars with
  | nil => rfl
  | cons char chars ih =>
    rw [List.flatMap_cons, ih, charView]
    by_cases nl : char = newline <;> simp [nl]

theorem Packed.conserves (packed : Packed x) (once : x.2.sent ++ x.1.offered = x.2.handed.map charOf) : Lossless x := by
  refine ⟨once, ?_⟩
  have view := congrArg (List.flatMap charView) once
  rw [List.flatMap_map, List.flatMap_append, flatMap_charView, flatMap_charView] at view
  rw [inFlight, ← List.append_assoc, view]
  exact packed.law

theorem once_step (once : x.2.sent ++ x.1.offered = x.2.handed.map charOf) (i : Inputs) :
    (x.step i).2.sent ++ (x.step i).1.offered = (x.step i).2.handed.map charOf ↔ Clear x.1 i := by
  rw [← wbusixchar_iff]
  simp only [step, List.append_assoc, List.map_append]
  rw [← once, List.append_assoc, List.append_cancel_left_eq]

/-- Nothing is ever lost or repeated exactly if the transmitter never takes a character while the next one
is already offered behind it. -/
theorem lossless_iff (is : List Inputs) :
    (∀ before, before <+: is → Lossless (Clocked.run step start before)) ↔
      Clocked.Always step (fun x i => Clear x.1 i) start is := by
  refine @Clocked.always_iff _ _ step _ Packed _ (fun x i packed => packed.step i) (fun x i packed good => ?_) _ is
    packed_start (packed_start.conserves rfl)
  rw [← once_step good.once i]
  exact ⟨fun next => next.once, (packed.step i).conserves⟩

/-- A codeword of two symbols, three clocks in which the transmitter is busy, then ready ones. -/
def stalled : List Inputs :=
  let word : Offer (BitVec 36) := ⟨true, 0x400000000⟩
  let none : Offer (BitVec 36) := ⟨false, 0⟩
  [⟨word, true, true⟩, ⟨none, true, true⟩, ⟨none, true, true⟩, ⟨none, true, true⟩, ⟨none, true, false⟩,
    ⟨none, true, false⟩]

/-- The first character is sent twice. -/
theorem stalled_repeats :
    encoding 0x400000000 = [0x47, 0x30] ∧ (Clocked.run step start stalled).2.accepted = [0x400000000] ∧
    (Clocked.run step start stalled).2.sent = [0x47, 0x47] ∧
    ¬ ∀ before, before <+: stalled → Lossless (Clocked.run step start before) := by
  refine ⟨by decide +kernel, by decide +kernel, by decide +kernel, fun conserved => ?_⟩
  have once := (conserved stalled (List.prefix_refl stalled)).once
  revert once
  decide +kernel

end Recorded

end Path

end IcoZip.Wbubus
