import IcoZip.Hexbus.Decode
import IcoZip.Hexbus.Exec
import IcoZip.Library.Elastic

/-! Response words to transmitted bytes: `hbints`, `hbidle`, `hbdeword`,
`hbgenhex`, `hbnewline` and the output register of `hbconsole`.

Every module is an elastic stage. Each conserves what an observer sees who
deletes carriage returns, line feeds and the idle and interrupt letters.
-/

set_option autoImplicit false

namespace IcoZip.Hexbus

open Elastic (Offer Stage Conserves)

/-! ### Interrupts -/

structure Ints where
  intState : Bool
  pendingInterrupt : Bool
  loaded : Bool
  intStb : Bool
  intLoaded : Bool
  intWord : BitVec 34
  deriving DecidableEq, Repr

def interruptWord : BitVec 34 := 0b11010#5 ++ 0#29

namespace Ints

def busy (s : Ints) : Bool := s.intStb && s.loaded

/-- One clock of `hbints`. -/
def hbints (s : Ints) (iReset iInterrupt iStb : Bool) (iWord : BitVec 34) (iBusy : Bool) : Ints :=
  { intState :=
      if iReset then false
      else if iInterrupt && !s.intState then true
      else if !s.pendingInterrupt && !iInterrupt then false
      else s.intState
    pendingInterrupt :=
      if iReset then false
      else if iInterrupt && !s.intState then true
      else if s.intStb && !iBusy && s.intLoaded then false
      else s.pendingInterrupt
    loaded :=
      if iReset then false
      else if iStb && !s.busy then true
      else if s.intStb && !iBusy then false
      else s.loaded
    intStb :=
      if iReset then false
      else if iStb && !s.busy then true
      else if s.pendingInterrupt && (!s.intLoaded || iBusy) then true
      else if !s.loaded || !iBusy then false
      else s.intStb
    intLoaded :=
      if iStb && !s.busy then false
      else if !iBusy || !s.intStb then true
      else s.intLoaded
    intWord :=
      if iStb && !s.busy then iWord
      else if !iBusy || !s.intStb then interruptWord
      else s.intWord }

end Ints

/-! ### Idle words -/

/-- The registers of `hbidle`; the timer has `w` bits. -/
structure Idle (w : Nat) where
  idleStb : Bool
  idleCounter : BitVec w
  idlStb : Bool
  idlWord : BitVec 34
  deriving DecidableEq, Repr

def idleWord : BitVec 34 := 0b11011#5 ++ 0#29

namespace Idle
variable {w : Nat}

def busy (s : Idle w) (iBusy : Bool) : Bool := s.idlStb && iBusy

/-- One clock of `hbidle`. -/
def hbidle (s : Idle w) (iReset iCmdStb : Bool) (iCmdWord : BitVec 34) (iBusy : Bool) : Idle w :=
  let count := s.idleCounter.setWidth (w + 1) + 1
  { idleStb := if iReset || iCmdStb then false else count.msb
    idleCounter := if iReset || iCmdStb then 0 else count.setWidth w
    idlStb :=
      if iReset then false
      else if iCmdStb && !s.busy iBusy then true
      else if s.idleStb && !s.idlStb then true
      else if !iBusy then false
      else s.idlStb
    idlWord :=
      if iCmdStb && !s.busy iBusy then iCmdWord
      else if !iBusy then idleWord
      else s.idlWord }

end Idle

/-! ### Words to digits -/

structure Deword where
  dwStb : Bool
  dwBits : BitVec 5
  rLen : BitVec 4
  rWord : BitVec 32
  deriving DecidableEq, Repr

/-- One clock of `hbdeword`; `o_dw_busy` is `o_dw_stb`. -/
def hbdeword (s : Deword) (iReset iStb : Bool) (iWord : BitVec 34) (iTxBusy : Bool) : Deword :=
  { rLen :=
      if iReset then 0
      else if iStb && !s.dwStb then
        if iWord.extractLsb' 32 2 == 0b11#2 then 0 else 8
      else if !iTxBusy then
        if s.rLen != 0 then s.rLen - 1 else s.rLen
      else s.rLen
    dwStb :=
      if iReset then false
      else if iStb && !s.dwStb then true
      else if !iTxBusy then s.rLen != 0
      else s.dwStb
    rWord :=
      if iStb && !s.dwStb then iWord.extractLsb' 0 32
      else if !iTxBusy then s.rWord.extractLsb' 0 28 ++ 0#4
      else s.rWord
    dwBits :=
      if iStb && !s.dwStb then
        if iWord.extractLsb' 32 2 == 0b11#2 then iWord.extractLsb' 29 5
        else 0b100#3 ++ iWord.extractLsb' 32 2
      else if !iTxBusy then 0#1 ++ s.rWord.extractLsb' 28 4
      else s.dwBits }

/-! ### Digits to characters -/

structure Genhex where
  gxStb : Bool
  gxChar : BitVec 7
  deriving DecidableEq, Repr

/-- The `case` of `hbgenhex`. -/
def gxCharOf (bits : BitVec 5) : BitVec 7 :=
  match bits.toNat with
  | 0x00 => 0x30
  | 0x01 => 0x31
  | 0x02 => 0x32
  | 0x03 => 0x33
  | 0x04 => 0x34
  | 0x05 => 0x35
  | 0x06 => 0x36
  | 0x07 => 0x37
  | 0x08 => 0x38
  | 0x09 => 0x39
  | 0x0a => 0x61
  | 0x0b => 0x62
  | 0x0c => 0x63
  | 0x0d => 0x64
  | 0x0e => 0x65
  | 0x0f => 0x66
  | 0x10 => 0x52 -- 'R'
  | 0x11 => 0x4b -- 'K'
  | 0x12 => 0x41 -- 'A'
  | 0x13 => 0x53 -- 'S'
  | 0x18 => 0x54 -- 'T'
  | 0x19 => 0x45 -- 'E'
  | 0x1a => 0x49 -- 'I'
  | 0x1b => 0x5a -- 'Z'
  | _ => 0x0d

def Genhex.busy (s : Genhex) (iBusy : Bool) : Bool := s.gxStb && iBusy

/-- One clock of `hbgenhex`. -/
def hbgenhex (s : Genhex) (iReset iStb : Bool) (iBits : BitVec 5) (iBusy : Bool) : Genhex :=
  { gxStb := if iReset then false else if !s.busy iBusy then iStb else s.gxStb
    gxChar := if !s.busy iBusy then gxCharOf iBits else s.gxChar }

/-! ### Line ends -/

structure Newline where
  lastCr : Bool
  crState : Bool
  nlStb : Bool
  loaded : Bool
  nlByte : BitVec 7
  deriving DecidableEq, Repr

def Newline.busy (s : Newline) (iBusy : Bool) : Bool :=
  (iBusy && s.nlStb && s.loaded) || (s.crState && !iBusy)

/-- One clock of `hbnewline`. -/
def hbnewline (s : Newline) (iReset iStb : Bool) (iByte : BitVec 7) (iBusy : Bool) : Newline :=
  if iReset then { crState := false, lastCr := true, nlStb := false, loaded := false, nlByte := 0x7f }
  else if iStb && !s.busy iBusy then
    { nlStb := iStb, nlByte := iByte, crState := iByte == 0x0d#7, lastCr := iByte == 0x0d#7, loaded := true }
  else if !iBusy then
    if !s.lastCr then
      -- a command just ended: a carriage return that may still be withdrawn
      { crState := true, nlByte := 0x0d, lastCr := !iStb, nlStb := !iStb, loaded := false }
    else if s.crState then { s with crState := false, nlByte := 0x0a, nlStb := true, loaded := true }
    else { s with loaded := false, nlStb := false, nlByte := 0x7f }
  else s

/-! ### The arbiter -/

/-- The output register of `hbconsole`. -/
structure Arbiter where
  psFull : Bool
  psData : BitVec 8
  deriving DecidableEq, Repr

/-- One clock of the output register. -/
def arbiter (s : Arbiter) (fnlStb : Bool) (fnlByte : BitVec 7) (iConsoleStb : Bool)
    (iConsoleData : BitVec 7) (iTxBusy : Bool) : Arbiter :=
  if !s.psFull then
    if fnlStb then { psFull := true, psData := 1#1 ++ fnlByte }
    else if iConsoleStb then { psFull := true, psData := 0#1 ++ iConsoleData }
    else s
  else if !iTxBusy then { psFull := fnlStb, psData := 1#1 ++ fnlByte }
  else s

/-! ### The stages in their places -/

/-- `hbints`; the side input is the interrupt line. -/
def intsStage (reset : Bool) : Stage Ints Bool (BitVec 34) (BitVec 34) where
  step s interrupt up busy := s.hbints reset interrupt up.stb up.data busy
  busy s _ := s.busy
  out s := ⟨s.intStb, s.intWord⟩

def idleStage (w : Nat) (reset : Bool) : Stage (Idle w) Unit (BitVec 34) (BitVec 34) where
  step s _ up busy := s.hbidle reset up.stb up.data busy
  busy s busy := s.busy busy
  out s := ⟨s.idlStb, s.idlWord⟩

def dewordStage (reset : Bool) : Stage Deword Unit (BitVec 34) (BitVec 5) where
  step s _ up busy := hbdeword s reset up.stb up.data busy
  busy s _ := s.dwStb
  out s := ⟨s.dwStb, s.dwBits⟩

def genhexStage (reset : Bool) : Stage Genhex Unit (BitVec 5) (BitVec 7) where
  step s _ up busy := hbgenhex s reset up.stb up.data busy
  busy s busy := s.busy busy
  out s := ⟨s.gxStb, s.gxChar⟩

def newlineStage (reset : Bool) : Stage Newline Unit (BitVec 7) (BitVec 7) where
  step s _ up busy := hbnewline s reset up.stb up.data busy
  busy s busy := s.busy busy
  out s := ⟨s.nlStb, s.nlByte⟩

/-- The output register, which has no reset; the side input is the console's character. -/
def arbiterStage : Stage Arbiter (Offer (BitVec 7)) (BitVec 7) (BitVec 8) where
  step s console up busy := arbiter s up.stb up.data console.stb console.data busy
  busy s busy := busy && s.psFull
  out s := ⟨s.psFull, s.psData⟩

/-- The response path that both tops share. -/
def responsePath (w : Nat) (reset : Bool) :=
  ((((intsStage reset).series (idleStage w reset)).series (dewordStage reset)).series
    (genhexStage reset)).series (newlineStage reset)

/-- The response path of `hbconsole`. -/
def consolePath (w : Nat) (reset : Bool) := (responsePath w reset).series arbiterStage

/-! ### What an observer sees -/

/-- Carriage return, line feed, 'I' and 'Z' are deleted. -/
def visible (char : BitVec 7) : Bool :=
  char != 0x0d#7 && char != 0x0a#7 && char != 0x49#7 && char != 0x5a#7

def charView (char : BitVec 7) : List (BitVec 7) := if visible char then [char] else []

def bitsView (bits : BitVec 5) : List (BitVec 7) := charView (gxCharOf bits)

/-- The leading `n` digits of a word. -/
def digits : Nat → BitVec 32 → List (BitVec 7)
  | 0, _ => []
  | n + 1, word => bitsView (0#1 ++ word.extractLsb' 28 4) ++ digits n (word.extractLsb' 0 28 ++ 0#4)

@[simp] theorem digits_zero (word : BitVec 32) : digits 0 word = [] := rfl

def wordView (word : BitVec 34) : List (BitVec 7) :=
  if word.extractLsb' 32 2 == 0b11#2 then bitsView (word.extractLsb' 29 5)
  else bitsView (0b100#3 ++ word.extractLsb' 32 2) ++ digits 8 (word.extractLsb' 0 32)

/-- The bytes of the response channel have bit 7 set. -/
def responseView (byte : BitVec 8) : List (BitVec 7) :=
  if byte[7] then charView (byte.extractLsb' 0 7) else []

/-- The bytes of the console channel have it clear. -/
def consoleView (byte : BitVec 8) : List (BitVec 7) :=
  if byte[7] then [] else [byte.extractLsb' 0 7]

/-! ### Every stage conserves it -/

@[simp] theorem wordView_interrupt : wordView interruptWord = [] := by decide

@[simp] theorem wordView_idle : wordView idleWord = [] := by decide

/-- What is loaded is offered, and what is offered without being loaded is the interrupt word. -/
structure Ints.Sound (s : Ints) : Prop where
  offered : s.loaded = true → s.intStb = true
  interrupt : s.intStb = true → s.loaded = false → s.intWord = interruptWord

theorem ints_conserves :
    Conserves (intsStage false) Ints.Sound wordView wordView
      (fun s => if s.loaded then wordView s.intWord else []) where
  kept s interrupt up busy sound := by
    obtain ⟨offered, idle⟩ := sound
    constructor
    · cases stb : s.intStb <;> cases busy <;> grind [intsStage, Ints.hbints, Ints.busy]
    · cases stb : s.intStb <;> cases busy <;> grind [intsStage, Ints.hbints, Ints.busy]
  law s interrupt up busy sound := by
    obtain ⟨offered, idle⟩ := sound
    have out : (Offer.taken ⟨s.intStb, s.intWord⟩ busy).flatMap wordView =
        if s.loaded && !busy then wordView s.intWord else [] := by
      cases loaded : s.loaded with
      | true => cases busy <;> simp [Offer.taken, offered loaded]
      | false =>
        cases stb : s.intStb with
        | false => simp
        | true => cases busy <;> simp [Offer.taken, idle stb loaded]
    simp only [intsStage, Ints.hbints, Bool.false_eq_true, if_false, out]
    by_cases accept : (up.stb && !s.busy) = true
    · have taken : up.taken s.busy = [up.data] := by simp [Offer.taken, accept]
      have unloaded : s.loaded = false := by
        cases loaded : s.loaded with
        | false => rfl
        | true => simp [Ints.busy, loaded, offered loaded] at accept
      simp [accept, taken, unloaded]
    · have taken : up.taken s.busy = [] := by simp [Offer.taken, accept]
      cases loaded : s.loaded <;> cases busy <;> simp [accept, taken, offered, loaded]

/-- The word register of an empty stage holds the idle word. -/
def Idle.Sound {w : Nat} (s : Idle w) : Prop := s.idlStb = false → s.idlWord = idleWord

theorem idle_conserves (w : Nat) :
    Conserves (idleStage w false) Idle.Sound wordView wordView
      (fun s => if s.idlStb then wordView s.idlWord else []) where
  kept s _ up busy sound := by
    obtain ⟨idleStb, counter, stb, word⟩ := s
    obtain ⟨upStb, data⟩ := up
    simp only [Idle.Sound] at sound ⊢
    cases stb <;> cases upStb <;> cases busy <;> simp_all [idleStage, Idle.hbidle, Idle.busy]
  law s _ up busy sound := by
    obtain ⟨idleStb, counter, stb, word⟩ := s
    obtain ⟨upStb, data⟩ := up
    simp only [Idle.Sound] at sound
    cases stb <;> cases upStb <;> cases busy <;> cases idleStb <;>
      simp_all [idleStage, Idle.hbidle, Idle.busy, Offer.taken]

/-- No digits are left once the strobe is down. -/
def Deword.Sound (s : Deword) : Prop := s.dwStb = false → s.rLen = 0

theorem digits_succ {len : BitVec 4} (word : BitVec 32) (more : len ≠ 0) :
    digits len.toNat word =
      bitsView (0#1 ++ word.extractLsb' 28 4) ++
        digits (len - 1).toNat (word.extractLsb' 0 28 ++ 0#4) := by
  have positive : len.toNat ≠ 0 := fun zero => more (BitVec.eq_of_toNat_eq (by simpa using zero))
  have pred : len.toNat = (len - 1).toNat + 1 := by bv_omega
  rw [pred, digits]

theorem hbdeword_load {s : Deword} (word : BitVec 34) (iTxBusy : Bool) (empty : s.dwStb = false) :
    let next := hbdeword s false true word iTxBusy
    (if next.dwStb then bitsView next.dwBits ++ digits next.rLen.toNat next.rWord else []) =
      wordView word := by
  rw [wordView]
  cases special : word.extractLsb' 32 2 == 0b11#2 with
  | true =>
    have next : hbdeword s false true word iTxBusy = ⟨true, word.extractLsb' 29 5, 0, word.extractLsb' 0 32⟩ := by
      simp only [hbdeword, empty, special, Bool.false_eq_true, if_false, Bool.not_false, Bool.and_true, if_true]
    have none : BitVec.toNat (0 : BitVec 4) = 0 := rfl
    rw [next]
    simp only [if_true, none, digits_zero, List.append_nil]
  | false =>
    have next : hbdeword s false true word iTxBusy =
        ⟨true, 0b100#3 ++ word.extractLsb' 32 2, 8, word.extractLsb' 0 32⟩ := by
      simp only [hbdeword, empty, special, Bool.false_eq_true, if_false, Bool.not_false, Bool.and_true, if_true]
    have eight : BitVec.toNat (8 : BitVec 4) = 8 := rfl
    rw [next]
    simp only [if_true, eight, Bool.false_eq_true, if_false]

theorem deword_conserves :
    Conserves (dewordStage false) Deword.Sound wordView bitsView
      (fun s => if s.dwStb then bitsView s.dwBits ++ digits s.rLen.toNat s.rWord else []) where
  kept s _ up busy sound := by
    simp only [Deword.Sound] at sound ⊢
    cases stb : s.dwStb <;> cases busy <;> grind [dewordStage, hbdeword]
  law s _ up busy sound := by
    simp only [dewordStage]
    cases stb : s.dwStb with
    | false =>
      have empty : s.rLen = 0 := sound stb
      obtain ⟨upStb, data⟩ := up
      cases upStb with
      | false => cases busy <;> simp [hbdeword, stb, empty]
      | true =>
        simp only [Offer.taken_idle, List.flatMap_nil, List.nil_append, Offer.taken_ready,
          List.flatMap_singleton, Bool.false_eq_true, if_false]
        exact hbdeword_load data busy stb
    | true =>
      cases busy with
      | true => simp [hbdeword, stb]
      | false =>
        by_cases last : s.rLen = 0
        · simp [hbdeword, stb, last]
        · have more : (s.rLen != 0) = true := by simpa using last
          rw [digits_succ s.rWord last]
          simp only [hbdeword, stb, more, Offer.taken_ready, Offer.taken_busy, Bool.and_false, Bool.not_true,
            Bool.and_false,
            Bool.not_false, if_true, Bool.false_eq_true, if_false, List.flatMap_singleton,
            List.flatMap_nil, List.append_nil]

theorem genhex_conserves :
    Conserves (genhexStage false) (fun _ => True) bitsView charView
      (fun s => if s.gxStb then charView s.gxChar else []) where
  kept _ _ _ _ _ := trivial
  law s _ up busy _ := by
    obtain ⟨stb, char⟩ := s
    obtain ⟨upStb, data⟩ := up
    cases stb <;> cases upStb <;> cases busy <;>
      simp [genhexStage, hbgenhex, Genhex.busy, Offer.taken, bitsView]

/-- What is offered without being loaded is a carriage return. -/
def Newline.Sound (s : Newline) : Prop := s.nlStb = true → s.loaded = false → s.nlByte = 0x0d#7

theorem newline_conserves :
    Conserves (newlineStage false) Newline.Sound charView charView
      (fun s => if s.nlStb then charView s.nlByte else []) where
  kept s _ up busy sound := by
    simp only [newlineStage, hbnewline, Newline.Sound] at sound ⊢
    split_ifs <;> simp_all
  law s _ up busy sound := by
    have blank : charView 0x0d#7 = [] ∧ charView 0x0a#7 = [] := by decide
    obtain ⟨stb, data⟩ := up
    cases busy with
    | true =>
      -- only a carriage return that was not loaded gives way
      by_cases fixed : (s.nlStb && s.loaded) = true
      · simp_all [newlineStage, hbnewline, Newline.busy]
      · have nothing : (if s.nlStb = true then charView s.nlByte else []) = [] := by
          cases offered : s.nlStb with
          | false => simp
          | true =>
            have unloaded : s.loaded = false := by simpa [offered] using fixed
            simp [sound offered unloaded, blank]
        have open_ : s.busy true = false := by simpa [Newline.busy] using fixed
        cases stb <;> simp [newlineStage, hbnewline, open_, nothing, Offer.taken]
    | false =>
      have out : (Offer.taken ⟨s.nlStb, s.nlByte⟩ false).flatMap charView =
          if s.nlStb = true then charView s.nlByte else [] := by
        cases s.nlStb <;> simp [Offer.taken]
      have busy : s.busy false = s.crState := by simp [Newline.busy]
      simp only [newlineStage, out, busy, List.append_cancel_left_eq, hbnewline]
      cases crState : s.crState <;> cases lastCr : s.lastCr <;> cases stb <;> simp [blank, Offer.taken]

theorem response_byte : ∀ char : BitVec 7,
    responseView (1#1 ++ char) = charView char ∧ consoleView (1#1 ++ char) = [] := by decide

theorem console_byte : ∀ char : BitVec 7,
    responseView (0#1 ++ char) = [] ∧ consoleView (0#1 ++ char) = [char] := by decide

theorem arbiter_conserves :
    Conserves arbiterStage (fun _ => True) charView responseView
      (fun s => if s.psFull then responseView s.psData else []) where
  kept _ _ _ _ _ := trivial
  law s console up busy _ := by
    obtain ⟨full, byte⟩ := s
    obtain ⟨upStb, data⟩ := up
    obtain ⟨stb, char⟩ := console
    cases full <;> cases upStb <;> cases busy <;> cases stb <;>
      simp [arbiterStage, arbiter, Offer.taken, response_byte, console_byte]

/-! ### Response words -/

/-- What `hbexec` responds with. -/
inductive Response where
  | data (value : BitVec 32)
  | acknowledgement
  | address (addr : BitVec 30) (inc : Bool)
  | reset
  | busError
  deriving DecidableEq, Repr

def Response.word : Response → BitVec 34
  | .data value => rspData value
  | .acknowledgement => rspWriteAcknowledgement
  | .address addr inc => rspAddr addr inc
  | .reset => rspReset
  | .busError => rspBusError

/-- Eight lower-case hexadecimal digits, most significant first. -/
def hexDigits (value : BitVec 32) : List (BitVec 7) :=
  (List.range 8).map fun k => hexChar (value.extractLsb' (28 - 4 * k) 4)

def Response.chars : Response → List (BitVec 7)
  | .data value => 0x52#7 :: hexDigits value
  | .acknowledgement => 0x4b#7 :: hexDigits 0
  | .address addr inc => 0x41#7 :: hexDigits (addr ++ (0#1 ++ BitVec.ofBool !inc))
  | .reset => [0x54#7]
  | .busError => [0x45#7]

theorem bitsView_digit : ∀ digit : BitVec 4, bitsView (0#1 ++ digit) = [hexChar digit] := by decide

theorem extract_shift (value : BitVec 32) {k : Nat} (bound : k < 7) :
    (value.extractLsb' 0 28 ++ 0#4).extractLsb' (28 - 4 * k) 4 =
      value.extractLsb' (28 - 4 * (k + 1)) 4 := by
  ext i small
  have high : ¬ 28 - 4 * k + i < 4 := by omega
  have low : 28 - 4 * k + i - 4 < 28 := by omega
  have same : 0 + (28 - 4 * k + i - 4) = 28 - 4 * (k + 1) + i := by omega
  simp only [BitVec.getElem_extractLsb', BitVec.getLsbD_append, BitVec.getLsbD_extractLsb', high, low,
    if_false, decide_true, Bool.true_and, same]

theorem digits_range {n : Nat} (few : n ≤ 8) (value : BitVec 32) :
    digits n value = (List.range n).map fun k => hexChar (value.extractLsb' (28 - 4 * k) 4) := by
  induction n generalizing value with
  | zero => rfl
  | succ n ih =>
    rw [digits, bitsView_digit, ih (by omega), List.range_succ_eq_map, List.map_cons, List.map_map]
    refine congrArg (_ :: ·) (List.map_congr_left fun k member => ?_)
    have bound : k < n := List.mem_range.mp member
    simp only [Function.comp_apply, extract_shift value (show k < 7 by omega)]

theorem wordView_payload {kind : BitVec 2} (payload : BitVec 32) (plain : kind ≠ 0b11#2) :
    wordView (kind ++ payload) = bitsView (0b100#3 ++ kind) ++ hexDigits payload := by
  have high : (kind ++ payload).extractLsb' 32 2 = kind := by
    rw [BitVec.extractLsb'_append_eq_of_le (by decide)]
    simp
  have low : (kind ++ payload).extractLsb' 0 32 = payload := by
    rw [BitVec.extractLsb'_append_eq_of_add_le (by decide)]
    simp
  have test : (kind == 0b11#2) = false := by simpa using plain
  rw [wordView, high, low, test, digits_range (Nat.le_refl 8)]
  rfl

/-- On the words of `hbexec` the view is the encoding of the words. -/
theorem wordView_word (r : Response) : wordView r.word = r.chars := by
  cases r with
  | data value => exact wordView_payload value (by decide)
  | acknowledgement => exact wordView_payload 0 (by decide)
  | address addr inc => exact wordView_payload (addr ++ (0#1 ++ BitVec.ofBool !inc)) (by decide)
  | reset => decide
  | busError => decide

/-! ### Runs -/

/-- The registers of the response path of `hbconsole`. -/
abbrev Console (w : Nat) := ((((Ints × Idle w) × Deword) × Genhex) × Newline) × Arbiter

/-- A clock: the interrupt line and the console's character, the word offered to `hbints`, and
whether the transmitter is busy. -/
abbrev ConsoleIn :=
  (((((Bool × Unit) × Unit) × Unit) × Unit) × Offer (BitVec 7)) × Offer (BitVec 34) × Bool

namespace Console
variable {w : Nat}

/-- The byte in the output register, for one of the two channels. -/
def leftover (s : Console w) (view : BitVec 8 → List (BitVec 7)) : List (BitVec 7) :=
  if s.2.psFull then view s.2.psData else []

/-- The characters of the words inside the pipeline, output register first. -/
def inside (s : Console w) : List (BitVec 7) :=
  s.leftover responseView ++
    ((if s.1.2.nlStb then charView s.1.2.nlByte else []) ++
      ((if s.1.1.2.gxStb then charView s.1.1.2.gxChar else []) ++
        ((if s.1.1.1.2.dwStb then
            bitsView s.1.1.1.2.dwBits ++ digits s.1.1.1.2.rLen.toNat s.1.1.1.2.rWord else []) ++
          ((if s.1.1.1.1.2.idlStb then wordView s.1.1.1.1.2.idlWord else []) ++
            if s.1.1.1.1.1.loaded then wordView s.1.1.1.1.1.intWord else []))))

/-- The invariants of all stages. -/
def Sound (s : Console w) : Prop :=
  (((((s.1.1.1.1.1.Sound ∧ s.1.1.1.1.2.Sound) ∧ s.1.1.1.2.Sound) ∧ True) ∧ s.1.2.Sound) ∧ True)

theorem conserves (w : Nat) :
    Conserves (consolePath w false) Sound wordView responseView inside :=
  (((((ints_conserves.series (idle_conserves w)).series deword_conserves).series
    genhex_conserves).series newline_conserves).series arbiter_conserves)

/-- The console's character taken in a clock. -/
def consoleAccepted (s : Console w) (i : ConsoleIn) : List (BitVec 7) :=
  i.1.2.taken (s.1.2.nlStb || s.2.psFull)

/-- The console channel in one clock. -/
theorem console_step (s : Console w) (i : ConsoleIn) :
    ((consolePath w false).delivered s i).flatMap consoleView ++
        leftover ((consolePath w false).clock s i) consoleView =
      s.leftover consoleView ++ consoleAccepted s i := by
  obtain ⟨front, full, byte⟩ := s
  obtain ⟨⟨e, stb, char⟩, up, busy⟩ := i
  simp only [Stage.delivered, Stage.clock, consolePath, Stage.series, leftover, consoleAccepted,
    arbiterStage, arbiter, newlineStage, responsePath]
  cases full <;> cases front.2.nlStb <;> cases stb <;> cases busy <;>
    simp [response_byte, console_byte]

/-- What a reset clock leaves behind: every strobe is down, only the output register stays. -/
structure Fresh (s : Console w) : Prop where
  ints : s.1.1.1.1.1.intStb = false ∧ s.1.1.1.1.1.loaded = false
  idle : s.1.1.1.1.2.idlStb = false
  deword : s.1.1.1.2.dwStb = false ∧ s.1.1.1.2.rLen = 0
  genhex : s.1.1.2.gxStb = false
  newline : s.1.2.nlStb = false

theorem fresh_of_reset (before : Console w) (i : ConsoleIn) :
    Fresh ((consolePath w true).clock before i) where
  ints := ⟨rfl, rfl⟩
  idle := rfl
  deword := ⟨rfl, rfl⟩
  genhex := rfl
  newline := rfl

theorem inside_of_fresh {s : Console w} (fresh : Fresh s) : s.inside = s.leftover responseView := by
  simp [Console.inside, fresh.ints, fresh.idle, fresh.deword, fresh.genhex, fresh.newline]

/-- The word register of `hbidle` is not reset. -/
def withIdleWord (s : Console w) : Console w :=
  (((((s.1.1.1.1.1, { s.1.1.1.1.2 with idlWord := idleWord }), s.1.1.1.2), s.1.1.2), s.1.2), s.2)

theorem Fresh.withIdleWord {s : Console w} (fresh : Fresh s) :
    Fresh s.withIdleWord ∧ Sound s.withIdleWord := by
  refine ⟨⟨fresh.ints, fresh.idle, fresh.deword, fresh.genhex, fresh.newline⟩, ?_⟩
  refine ⟨⟨⟨⟨⟨⟨?_, ?_⟩, ?_⟩, ?_⟩, trivial⟩, ?_⟩, trivial⟩
  · intro loaded
    simp [Console.withIdleWord, fresh.ints] at loaded
  · intro offered
    simp [Console.withIdleWord, fresh.ints] at offered
  · intro _
    rfl
  · intro _
    exact fresh.deword.2
  · intro offered
    simp [Console.withIdleWord, fresh.newline] at offered

/-- Its first clock overwrites it, since `hbdeword` is not busy then. -/
theorem Fresh.clock {s : Console w} (fresh : Fresh s) (i : ConsoleIn) :
    (consolePath w false).clock s i = (consolePath w false).clock s.withIdleWord i := by
  have same (stb : Bool) (word : BitVec 34) :
      s.1.1.1.1.2.hbidle false stb word s.1.1.1.2.dwStb =
        s.withIdleWord.1.1.1.1.2.hbidle false stb word s.1.1.1.2.dwStb := by
    simp [Idle.hbidle, Idle.busy, fresh.deword, Console.withIdleWord]
  have unread (txBusy : Bool) :
      hbdeword s.1.1.1.2 false s.1.1.1.1.2.idlStb s.1.1.1.1.2.idlWord txBusy =
        hbdeword s.1.1.1.2 false s.1.1.1.1.2.idlStb idleWord txBusy := by
    simp [hbdeword, fresh.idle]
  simp only [Stage.clock, consolePath, responsePath, Stage.series, idleStage, dewordStage, same, unread]
  rfl

/-- The response channel from a reset on, whatever words are accepted. -/
theorem responses_of_fresh {s : Console w} (fresh : Fresh s) (is : List ConsoleIn) :
    (Clocked.emitted (consolePath w false).clock (consolePath w false).delivered s is).flatMap responseView ++
        inside (Clocked.run (consolePath w false).clock s is) =
      s.leftover responseView ++
        (Clocked.emitted (consolePath w false).clock (consolePath w false).accepted s is).flatMap wordView := by
  cases is with
  | nil => simp [inside_of_fresh fresh]
  | cons i is =>
    obtain ⟨fresh', sound⟩ := fresh.withIdleWord
    have run := (conserves w).run sound (i :: is)
    rw [inside_of_fresh fresh'] at run
    simp only [Clocked.emitted_cons, Clocked.run_cons, fresh.clock] at run ⊢
    exact run

/-- From any reset on, the response channel carries the encodings of the accepted words, behind
the one byte that the output register may have kept, and the console channel the accepted
characters; whatever is missing is still inside. -/
theorem transmits (before : Console w) (i₀ : ConsoleIn) (is : List ConsoleIn) (rs : List Response)
    (words : Clocked.emitted (consolePath w false).clock (consolePath w false).accepted
      ((consolePath w true).clock before i₀) is = rs.map Response.word) :
    let s := (consolePath w true).clock before i₀
    let path := consolePath w false
    let bytes := Clocked.emitted path.clock path.delivered s is
    let final := Clocked.run path.clock s is
    bytes.flatMap responseView ++ inside final =
      leftover s responseView ++ rs.flatMap Response.chars ∧
    bytes.flatMap consoleView ++ leftover final consoleView =
      leftover s consoleView ++ Clocked.emitted path.clock consoleAccepted s is := by
  intro s path bytes final
  constructor
  · have run := responses_of_fresh (fresh_of_reset before i₀) is
    have encoded : (rs.map Response.word).flatMap wordView = rs.flatMap Response.chars := by
      rw [List.flatMap_map]
      exact List.flatMap_congr fun r _ => wordView_word r
    simp only [words, encoded] at run
    exact run
  · have run := @Clocked.conservation_all (Console w) ConsoleIn (BitVec 7) path.clock
      (fun s i => (path.delivered s i).flatMap consoleView) consoleAccepted
      (fun s => s.leftover consoleView) console_step s is
    rw [← Clocked.emitted_flatMap] at run
    exact run

/-- The power-up values; the registers without one are zero. -/
def powerUp : Console w :=
  ((((({ intState := false, pendingInterrupt := false, loaded := false, intStb := false,
         intLoaded := true, intWord := interruptWord },
       { idleStb := false, idleCounter := 0, idlStb := false, idlWord := idleWord }),
      { dwStb := false, dwBits := 0, rLen := 0, rWord := 0 }),
     { gxStb := false, gxChar := 0 }),
    { lastCr := true, crState := false, nlStb := false, loaded := false, nlByte := 0x7f }),
   { psFull := false, psData := 0 })

/-- A clock with neither an interrupt nor a console character. -/
def clockIn (stb : Bool) (word : BitVec 34) (txBusy : Bool) : ConsoleIn :=
  ((((((false, ()), ()), ()), ()), ⟨false, 0⟩), ⟨stb, word⟩, txBusy)

/-- A read value and the reset word, a console character before them and one between, each offered until it is taken;
the transmitter is ready in every third clock. -/
def dialogue : List ConsoleIn :=
  (List.range 48).map fun k =>
    ((((((false, ()), ()), ()), ()), ⟨k = 0 ∨ 10 ≤ k ∧ k < 41, if k = 0 then 0x68 else 0x69⟩),
      ⟨k < 3, if k = 0 then rspData 0x2a else rspReset⟩, k % 3 ≠ 0)

theorem transmits_dialogue :
    let s := (consolePath 23 true).clock powerUp (clockIn false 0 false)
    let bytes := Clocked.emitted (consolePath 23 false).clock (consolePath 23 false).delivered s dialogue
    let final := Clocked.run (consolePath 23 false).clock s dialogue
    bytes.flatMap responseView ++ inside final =
      [0x52#7, 0x30#7, 0x30#7, 0x30#7, 0x30#7, 0x30#7, 0x30#7, 0x32#7, 0x61#7, 0x54#7] ∧
    bytes.flatMap consoleView ++ leftover final consoleView = [0x68#7, 0x69#7] := by
  intro s bytes final
  have run := transmits (w := 23) powerUp (clockIn false 0 false) dialogue [.data 0x2a, .reset] (by decide)
  exact ⟨run.1.trans (by decide), run.2.trans (by decide)⟩

/-- A reset while a byte waits for the transmitter: the byte is sent afterwards, though no word
has been accepted. -/
theorem leftover_after_reset :
    let busy := Clocked.run (consolePath 23 false).clock powerUp
      (clockIn true (rspData 0) true :: List.replicate 5 (clockIn false 0 true))
    let s := (consolePath 23 true).clock busy (clockIn false 0 true)
    Clocked.emitted (consolePath 23 false).clock (consolePath 23 false).accepted s [clockIn false 0 false] = [] ∧
    (Clocked.emitted (consolePath 23 false).clock (consolePath 23 false).delivered s
      [clockIn false 0 false]).flatMap responseView = [0x52#7] := by
  decide

end Console

end IcoZip.Hexbus
