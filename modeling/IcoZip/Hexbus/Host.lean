import IcoZip.Hexbus.Respond

/-! The host side of hexbus: class `HEXBUS` over its communications device.

The line to the peer holds the characters that are on their way, each with
whether `available()` will first miss it. What the peer sends, and when it ends
a line, is left to the peer and to the line's own choices. A call can return,
throw `BUSERR`, or never come back.
-/

set_option autoImplicit false

namespace IcoZip.Hexbus

/-! ### The line -/

/-- What the device at the other end makes of the characters it receives: a list of replies. -/
class Peer (δ : Type) where
  receive : δ → List (BitVec 8) → δ × List (List (BitVec 8))

/-- Characters that have not been read, and whether `available()` will first miss each. -/
abbrev Incoming := List (BitVec 8 × Bool)

def newline : List (BitVec 8) := [0x0d, 0x0a]

structure Line (δ : Type) where
  text : Incoming
  /-- The peer has sent a reply and no newline behind it. -/
  owed : Bool
  peer : δ
  /-- The choices the line has still to make. -/
  choices : Nat → Bool

namespace Line
variable {δ : Type}

/-- Characters from the peer; each may come late. -/
def arrive (l : Line δ) (chars : List (BitVec 8)) : Line δ :=
  { l with
    text := l.text ++ chars.mapIdx fun i char => (char, l.choices i)
    choices := fun n => l.choices (n + chars.length) }

/-- A newline that the peer owes. -/
def endLine (l : Line δ) : Line δ := { l.arrive newline with owed := false }

/-- One reply. The newline behind it is sent when the peer has nothing else to send. -/
def reply (l : Line δ) (chars : List (BitVec 8)) : Line δ :=
  let l := l.arrive chars
  let choose := l.choices 0
  let l := { l with owed := true, choices := fun n => l.choices (n + 1) }
  if choose then l.endLine else l

/-- `m_dev->write`. -/
def send [Peer δ] (l : Line δ) (chars : List (BitVec 8)) : Line δ :=
  let (peer, replies) := Peer.receive l.peer chars
  replies.foldl reply { l with peer }

/-- The host is waiting for a character. -/
def wait (l : Line δ) : Line δ := if l.text = [] ∧ l.owed then l.endLine else l

end Line

/-! ### The class -/

structure Host where
  interruptFlag : Bool
  addrSet : Bool
  busErr : Bool
  lastaddr : BitVec 32
  nacks : BitVec 32
  inc : Bool
  isspace : Bool
  cmd : BitVec 8
  deriving DecidableEq, Repr

/-- `init`; `m_lastaddr`, `m_inc` and `m_isspace` are not initialised. -/
def Host.init (lastaddr : BitVec 32) (inc isspace : Bool) : Host :=
  { interruptFlag := false, addrSet := false, busErr := false, lastaddr, nacks := 0, inc, isspace, cmd := 0 }

/-- The class and the line of its communications device. -/
structure Session (δ : Type) where
  host : Host
  line : Line δ

/-- How a call ends. -/
inductive Outcome (σ α : Type) where
  | ok (value : α) (s : σ)
  | buserr (addr : BitVec 32) (s : σ)
  /-- It exits the program or waits forever. -/
  | lost

namespace Outcome
variable {σ τ α β : Type}

def andThen : Outcome σ α → (α → σ → Outcome σ β) → Outcome σ β
  | .ok value s, next => next value s
  | .buserr addr s, _ => .buserr addr s
  | .lost, _ => .lost

/-- `catch (BUSERR)` with another `throw`. -/
def rethrow (addr : BitVec 32) : Outcome σ α → Outcome σ α
  | .buserr _ s => .buserr addr s
  | o => o

def mapState (f : σ → τ) : Outcome σ α → Outcome τ α
  | .ok value s => .ok value (f s)
  | .buserr addr s => .buserr addr (f s)
  | .lost => .lost

@[simp] theorem andThen_ok (value : α) (s : σ) (next : α → σ → Outcome σ β) :
    (Outcome.ok value s).andThen next = next value s := rfl

end Outcome

def HEXB_ADDR : BitVec 8 := 0x41
def HEXB_READ : BitVec 8 := 0x52
def HEXB_WRITE : BitVec 8 := 0x57
def HEXB_IDLE : BitVec 8 := 0x5a
def HEXB_ACK : BitVec 8 := 0x4b
def HEXB_RESET : BitVec 8 := 0x54
def HEXB_INT : BitVec 8 := 0x49
def HEXB_ERR : BitVec 8 := 0x45

def isdigit (char : BitVec 8) : Bool := 0x30 ≤ char.toNat && char.toNat ≤ 0x39
def islower (char : BitVec 8) : Bool := 0x61 ≤ char.toNat && char.toNat ≤ 0x66
def isspace (char : BitVec 8) : Bool := char.toNat == 0x20 || (0x09 ≤ char.toNat && char.toNat ≤ 0x0d)

/-- One more digit of a word. -/
def shiftDigit (word : BitVec 32) (char : BitVec 8) : BitVec 32 :=
  if isdigit char then (word <<< 4) ||| (char &&& 0x0f).setWidth 32
  else (word <<< 4) ||| ((char - 0x61 + 10) &&& 0x0f).setWidth 32

namespace Host

/-- An 'A' reply. -/
def address (h : Host) (word : BitVec 32) : Host :=
  { h with addrSet := true, inc := !word.getLsbD 0, lastaddr := word &&& -4 }

/-- The next address, behind an 'R' or 'K' reply. -/
def advance (h : Host) : Host := if h.inc then { h with lastaddr := h.lastaddr + 4 } else h

/-- A character that is no digit begins a token, or is space. -/
def token (h : Host) (char : BitVec 8) : Host :=
  if Hexbus.isspace char then { h with isspace := true } else { h with cmd := char, isspace := false }

end Host

/-- What one character makes of the loop of `readword`. -/
inductive WordStep where
  | more (h : Host) (word : BitVec 32) (countdown : Nat)
  | done (h : Host) (result : BitVec 32)
  | throw (h : Host) (addr : BitVec 32)

/-- The body of the loop of `readword`. `lclreadcode` leaves a single character as it is, also an
idle one. -/
def readwordChar (h : Host) (word : BitVec 32) (countdown : Nat) (char : BitVec 8) : WordStep :=
  if isdigit char || islower char then .more { h with isspace := false } (shiftDigit word char) countdown
  else if h.isspace then .more (h.token char) 0 countdown
  else if h.cmd = HEXB_READ then .done (h.advance.token char) word
  else if h.cmd = HEXB_ACK then .more ({ h.advance with nacks := h.nacks + 1 }.token char) 0 countdown
  else if h.cmd = HEXB_INT then .more ({ h with interruptFlag := true }.token char) 0 countdown
  else if h.cmd = HEXB_ERR then .throw ({ h with busErr := true }.token char) h.lastaddr
  else if h.cmd = HEXB_IDLE then
    if countdown - 1 = 0 then .throw h 0 else .more (h.token char) 0 (countdown - 1)
  else if h.cmd = HEXB_ADDR then .more ((h.address word).token char) 0 countdown
  else if h.cmd = HEXB_RESET then .more ({ h with addrSet := false }.token char) 0 countdown
  else .more (h.token char) 0 countdown

/-- What one character makes of the loop of `readidle`. -/
inductive IdleStep where
  | more (h : Host) (word : BitVec 32)
  | throw (h : Host) (addr : BitVec 32)

/-- The body of the loop of `readidle`. -/
def readidleChar (h : Host) (word : BitVec 32) (char : BitVec 8) : IdleStep :=
  if isdigit char || islower char then .more h (shiftDigit word char)
  else if isspace char && h.isspace then .more h word
  else if h.isspace then .more (h.token char) 0
  else if h.cmd = HEXB_ADDR then .more ((h.address word).token char) 0
  else if h.cmd = HEXB_READ then .more (h.advance.token char) 0
  else if h.cmd = HEXB_INT then .more ({ h with interruptFlag := true }.token char) 0
  else if h.cmd = HEXB_ACK then .more ({ h.advance with nacks := h.nacks + 1 }.token char) 0
  else if h.cmd = HEXB_ERR then .throw { h with busErr := true } h.lastaddr
  else if h.cmd = HEXB_RESET then .more ({ h with addrSet := false, busErr := false }.token char) 0
  else .more (h.token char) 0

/-- `readword` on the characters there are; none when they do not suffice. -/
def readwordLoop : Host → BitVec 32 → Nat → Incoming → (Host × BitVec 32 × Nat) ⊕ Outcome (Host × Incoming) (BitVec 32)
  | h, word, countdown, [] => .inl (h, word, countdown)
  | h, word, countdown, (char, _) :: text =>
    match readwordChar h word countdown char with
    | .more h word countdown => readwordLoop h word countdown text
    | .done h result => .inr (.ok result (h, text))
    | .throw h addr => .inr (.buserr addr (h, text))

def readidleLoop : Host → BitVec 32 → Incoming → Outcome (Host × Incoming) Unit
  | h, _, [] => .ok () (h, [])
  | h, word, (char, late) :: text =>
    if late then .ok () (h, (char, false) :: text)
    else
      match readidleChar h word char with
      | .more h word => readidleLoop h word text
      | .throw h addr => .buserr addr (h, text)

/-- `sprintf("%08x")`. -/
def hex08 (value : BitVec 32) : List (BitVec 8) := (hexDigits value).map (·.setWidth 8)

/-- `sprintf("%x")` of a value that is not zero. -/
def hex (value : BitVec 32) : List (BitVec 8) := (hex08 value).dropWhile (· == 0x30)

/-- `encode_address`. -/
def Host.encodeAddress (h : Host) (a : BitVec 32) : List (BitVec 8) :=
  if h.addrSet ∧ a = h.lastaddr ∧ h.inc = !a.getLsbD 0 then [] else HEXB_ADDR :: hex08 a

namespace Session
variable {δ : Type}

/-- The characters that are left replace those there were. -/
def resume (s : Session δ) (r : Host × Incoming) : Session δ :=
  { s with host := r.1, line := { s.line with text := r.2 } }

/-- `readword`, which waits for the newline if it has to. -/
def readword (s : Session δ) : Outcome (Session δ) (BitVec 32) :=
  match readwordLoop s.host 0 3 s.line.text with
  | .inr o => o.mapState s.resume
  | .inl (h, word, countdown) =>
    let s := { s with line := { s.line with text := [] }.wait }
    match readwordLoop h word countdown s.line.text with
    | .inr o => o.mapState s.resume
    | .inl _ => .lost

/-- `readidle`. -/
def readidle (s : Session δ) : Outcome (Session δ) Unit :=
  let s := { s with line := s.line.wait }
  (readidleLoop s.host 0 s.line.text).mapState s.resume

/-- `while (m_nacks < n) readidle()`. A round reads a character or ends a delay, or else nothing
will ever come. -/
def waitAcks (n : BitVec 32) : Nat → Session δ → Outcome (Session δ) Unit
  | 0, _ => .lost
  | rounds + 1, s =>
    if s.host.nacks < n then s.readidle.andThen fun _ s => waitAcks n rounds s
    else .ok () s

def rounds (s : Session δ) : Nat := 2 * s.line.text.length + 6

variable [Peer δ]

def send (s : Session δ) (chars : List (BitVec 8)) : Session δ := { s with line := s.line.send chars }

/-- One value of `writev`; zero has no digits. -/
def writeMessage (value : BitVec 32) : List (BitVec 8) :=
  HEXB_WRITE :: ((if value ≠ 0 then hex value else []) ++ [0x0a])

/-- The loop of `writev`, from a position on. -/
def writeLoop (ptr : List (BitVec 8)) (nw : Nat) : List (BitVec 32) → Session δ → Outcome (Session δ) Unit
  | [], s => .ok () s
  | value :: buf, s =>
    let s := s.send (ptr ++ writeMessage value)
    (waitAcks (BitVec.ofNat 32 nw) s.rounds s).andThen fun _ s => writeLoop [] (nw + 1) buf s

def writev (a : BitVec 32) (p : Bool) (buf : List (BitVec 32)) (s : Session δ) : Outcome (Session δ) Unit :=
  let ptr := s.host.encodeAddress (a ||| if p then 0 else 1)
  let len := BitVec.ofNat 32 buf.length
  let s := { s with host := { s.host with lastaddr := a, addrSet := true, nacks := 0 } }
  (writeLoop ptr 0 buf s).andThen fun _ s =>
    (waitAcks len s.rounds s).andThen fun _ s =>
      .ok () (if p then { s with host := { s.host with lastaddr := s.host.lastaddr + (len <<< 2) } } else s)

/-- The loop of `readv`, from a position on. -/
def readLoop (a : BitVec 32) (inc : Bool) (ptr : List (BitVec 8)) (nread : Nat) :
    Nat → Session δ → Outcome (Session δ) (List (BitVec 32))
  | 0, s => .ok [] s
  | rest + 1, s =>
    let s := s.send (ptr ++ [HEXB_READ, 0x0a])
    (s.readword.rethrow (a + if inc then BitVec.ofNat 32 nread <<< 2 else 0)).andThen fun word s =>
      (readLoop a inc [] (nread + 1) rest s).andThen fun buf s => .ok (word :: buf) s

def readv (a : BitVec 32) (inc : Bool) (len : Nat) (s : Session δ) : Outcome (Session δ) (List (BitVec 32)) :=
  if len = 0 then .ok [] s
  else
    let ptr := s.host.encodeAddress (a ||| if inc then 0 else 1)
    let s := { s with host := { s.host with lastaddr := a, addrSet := true, inc } }
    (readLoop a inc ptr 0 len s).andThen fun buf s =>
      if s.host.lastaddr = a + (if inc then BitVec.ofNat 32 len <<< 2 else 0) then .ok buf s else .lost

def readio (a : BitVec 32) (s : Session δ) : Outcome (Session δ) (List (BitVec 32)) :=
  ((s.readv a false 1).rethrow a).andThen fun buf s => if s.host.lastaddr = a then .ok buf s else .lost

def readi (a : BitVec 32) (len : Nat) (s : Session δ) : Outcome (Session δ) (List (BitVec 32)) := s.readv a true len

def readz (a : BitVec 32) (len : Nat) (s : Session δ) : Outcome (Session δ) (List (BitVec 32)) := s.readv a false len

def writeio (a v : BitVec 32) (s : Session δ) : Outcome (Session δ) Unit :=
  (s.writev a false [v]).andThen fun _ s =>
    .ok () { s with host := { s.host with lastaddr := a, addrSet := true } }

def writei (a : BitVec 32) (buf : List (BitVec 32)) (s : Session δ) : Outcome (Session δ) Unit := s.writev a true buf

def writez (a : BitVec 32) (buf : List (BitVec 32)) (s : Session δ) : Outcome (Session δ) Unit := s.writev a false buf

end Session

end IcoZip.Hexbus
