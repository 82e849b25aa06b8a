import IcoZip.Hexbus.Target

/-! The host and the device agree on the address.

The host remembers an address and leaves it out of the next message when it
believes that the device stands there. After a write with increments it adds
the length twice, so the belief is wrong; in runs that never act on it, and in
which no address reply is split, every call does what it names.
-/

set_option autoImplicit false

namespace IcoZip.Hexbus

/-! ### Addresses -/

def wordAddr (a : BitVec 32) : BitVec 30 := a.extractLsb' 2 30

def Aligned (a : BitVec 32) : Prop := a.extractLsb' 0 2 = 0

instance (a : BitVec 32) : Decidable (Aligned a) := inferInstanceAs (Decidable (_ = _))

theorem aligned_eq {a : BitVec 32} (aligned : Aligned a) : a = wordAddr a ++ 0#2 := by
  apply BitVec.eq_of_toNat_eq
  have low := congrArg BitVec.toNat aligned
  have bound := a.isLt
  rw [BitVec.toNat_append, Nat.shiftLeft_eq]
  simp only [BitVec.extractLsb'_toNat, wordAddr, BitVec.toNat_ofNat, Nat.shiftRight_eq_div_pow] at low ⊢
  have zero : (0 : BitVec 2).toNat = 0 := rfl
  simp only [Nat.or_zero, Nat.zero_mod]
  omega

theorem toNat_word (w : BitVec 30) : (w ++ 0#2).toNat = 4 * w.toNat := by
  rw [BitVec.toNat_append, Nat.shiftLeft_eq]
  simp [Nat.mul_comm]

theorem wordAddr_word (w : BitVec 30) : wordAddr (w ++ 0#2) = w := by
  rw [wordAddr, BitVec.extractLsb'_append_eq_of_le (by decide)]
  simp

theorem aligned_word (w : BitVec 30) : Aligned (w ++ 0#2) := by
  rw [Aligned, BitVec.extractLsb'_append_eq_of_add_le (by decide)]
  simp

/-- Bytes and words count alike. -/
theorem word_add (w : BitVec 30) (n : Nat) : (w + BitVec.ofNat 30 n) ++ 0#2 = (w ++ 0#2) + BitVec.ofNat 32 (4 * n) := by
  apply BitVec.eq_of_toNat_eq
  rw [toNat_word, BitVec.toNat_add, BitVec.toNat_add, toNat_word, BitVec.toNat_ofNat, BitVec.toNat_ofNat]
  omega

theorem ofNat_shift (n : Nat) : BitVec.ofNat 32 n <<< 2 = BitVec.ofNat 32 (4 * n) := by
  apply BitVec.eq_of_toNat_eq
  rw [BitVec.toNat_shiftLeft, BitVec.toNat_ofNat, BitVec.toNat_ofNat, Nat.shiftLeft_eq]
  omega

theorem or_mode (w : BitVec 30) (inc : Bool) :
    (w ++ 0#2 ||| if inc then 0 else 1) = Target.addressWord w inc := by
  have zero : (if inc then 0 else 1 : BitVec 32) = (0#30 : BitVec 30) ++ (0#1 ++ BitVec.ofBool !inc) := by
    cases inc <;> rfl
  have low : (0#2 : BitVec 2) ||| (0#1 ++ BitVec.ofBool !inc) = 0#1 ++ BitVec.ofBool !inc := by
    cases inc <;> rfl
  rw [zero]
  refine Eq.trans BitVec.or_append ?_
  rw [BitVec.or_zero, low]
  rfl

theorem addressWord_clear (w : BitVec 30) (inc : Bool) : Target.addressWord w inc &&& -4 = w ++ 0#2 := by
  have mask : (-4 : BitVec 32) = BitVec.allOnes 30 ++ 0#2 := by decide
  rw [mask]
  refine Eq.trans BitVec.and_append ?_
  rw [BitVec.and_allOnes, BitVec.and_zero]

/-- The host takes the reply to an address as it was meant. -/
theorem address_addressWord (h : Host) (w : BitVec 30) (inc : Bool) :
    h.address (Target.addressWord w inc) = { h with addrSet := true, inc, lastaddr := w ++ 0#2 } := by
  rw [Host.address, Target.addressWord_mode, addressWord_clear, Bool.not_not]

/-! ### One reading -/

namespace Session

/-- Between calls, or inside one: nothing is half sent or half read. -/
structure Rests (s : Session Target) : Prop where
  idle : s.line.peer.partly = none
  quiet : s.host.Quiet
  spaces : ∀ x ∈ s.line.text, isspace x.1 = true

/-- The next command, with `ptr` in front of it, is executed at `w`, and the host believes so. -/
structure At (s : Session Target) (ptr : List (BitVec 8)) (w : BitVec 30) (inc : Bool) : Prop extends Rests s where
  addressed : s.line.peer.Addressed ptr w inc
  addrSet : s.host.addrSet = true
  mode : s.host.inc = inc
  lastaddr : s.host.lastaddr = w ++ 0#2

/-- What arrives after a message with one command and perhaps an address before it. -/
theorem send_replies {δ : Type} [Peer δ] {s : Session δ} {ptr message : List (BitVec 8)} {w : BitVec 30} {inc : Bool}
    {d : δ} {letter : BitVec 8} {rest : List (BitVec 8)}
    (received : Peer.receive s.line.peer message = (d, Target.addressReplies ptr w inc ++ [letter :: rest])) :
    ∃ before late word tail,
      (s.send message).line.text = before ++ (letter, late) :: (word ++ tail) ∧
      word.map Prod.fst = rest ∧ Ending tail (s.send message).line.owed ∧ (s.send message).line.peer = d ∧
      (ptr = [] ∧ before = s.line.text ∨
        ∃ late digits tail owed, before = s.line.text ++ (HEXB_ADDR, late) :: (digits ++ tail) ∧
          digits.map Prod.fst = hex08 (Target.addressWord w inc) ∧ Ending tail owed) := by
  by_cases sent : ptr = []
  · have one : (s.send message).line = Line.reply { s.line with peer := d } (letter :: rest) := by
      simp only [send, Line.send, received, Target.addressReplies, sent, if_true, List.nil_append, List.foldl_cons,
        List.foldl_nil]
    obtain ⟨late, word, tail, text, wordShown, ending, peer⟩ :=
      ({ s.line with peer := d } : Line δ).reply_spec letter rest
    rw [one]
    exact ⟨s.line.text, late, word, tail, text, wordShown, ending, peer, Or.inl ⟨sent, rfl⟩⟩
  · let address := HEXB_ADDR :: hex08 (Target.addressWord w inc)
    obtain ⟨late, word, tail, text, wordShown, ending, peer⟩ :=
      ({ s.line with peer := d } : Line δ).reply_spec HEXB_ADDR (hex08 (Target.addressWord w inc))
    have two : (s.send message).line = (Line.reply { s.line with peer := d } address).reply (letter :: rest) := by
      simp only [send, Line.send, received, Target.addressReplies, sent, if_false, List.singleton_append,
        List.foldl_cons, List.foldl_nil, address]
    obtain ⟨late', word', tail', text', wordShown', ending', peer'⟩ :=
      (Line.reply { s.line with peer := d } address).reply_spec letter rest
    rw [two]
    exact ⟨_, late', word', tail', text', wordShown', ending', peer'.trans peer,
      Or.inr ⟨late, word, tail, _, text, wordShown, ending⟩⟩

/-- The reply of a device that answers the command of the message. -/
theorem receive_command {s : Session Target} (rests : Rests s) {ptr : List (BitVec 8)} {w : BitVec 30} {inc : Bool}
    (addressed : s.line.peer.Addressed ptr w inc) (kind : Kind) {digits : List (BitVec 4)} {d : Target}
    {response : Response}
    (executes : ({ s.line.peer with addr := w, inc } : Target).execute (Command.word ⟨kind, lastEight digits⟩) =
      (d, [response])) :
    Peer.receive s.line.peer (ptr ++ kind.letter.setWidth 8 :: (digits.map digitChar ++ [0x0a])) =
      (d, Target.addressReplies ptr w inc ++ [Target.rendered response]) := by
  have received := Target.receive_addressed rests.idle addressed kind digits
  rwa [executes] at received

section
variable {δ : Type} {s : Session δ} {ptr message : List (BitVec 8)} {w : BitVec 30} {inc : Bool} {d : δ}

/-- The reply to the address that the host has sent tells it nothing new. -/
theorem leads_prior {before : Incoming} (quiet : s.host.Quiet) (spaces : ∀ x ∈ s.line.text, isspace x.1 = true)
    (known : s.host.address (Target.addressWord w inc) = s.host)
    (prior : ptr = [] ∧ before = s.line.text ∨
      ∃ late digits tail owed, before = s.line.text ++ (HEXB_ADDR, late) :: (digits ++ tail) ∧
        digits.map Prod.fst = hex08 (Target.addressWord w inc) ∧ Ending tail owed) : Leads s.host before s.host := by
  rcases prior with ⟨-, rfl⟩ | ⟨late, digits, tail, owed, rfl, shown, ending⟩
  · exact leads_quiet quiet spaces
  · -- the address comes back as it was sent
    have led := leads_address quiet spaces late shown ending.spaces
    rwa [known] at led

variable [Peer δ]

theorem read_reply {value : BitVec 32} (quiet : s.host.Quiet) (spaces : ∀ x ∈ s.line.text, isspace x.1 = true)
    (known : s.host.address (Target.addressWord w inc) = s.host)
    (received : Peer.receive s.line.peer message = (d, Target.addressReplies ptr w inc ++ [HEXB_READ :: hex08 value])) :
    ∃ line, (s.send message).readword = .ok value ⟨{ s.host.advance with cmd := HEXB_READ, isspace := true }, line⟩ ∧
      line.peer = d ∧ line.text.map Prod.fst = [0x0a] := by
  obtain ⟨before, late, word, tail, text, shown, ending, peer, prior⟩ := send_replies received
  obtain ⟨line, reads, peer', left⟩ := readword_spec (s := s.send message) text
    (leads_prior (s := s) quiet spaces known prior) shown (ending.imp id And.left)
  exact ⟨line, reads, peer'.trans peer, left⟩

theorem read_error (quiet : s.host.Quiet) (spaces : ∀ x ∈ s.line.text, isspace x.1 = true)
    (known : s.host.address (Target.addressWord w inc) = s.host)
    (received : Peer.receive s.line.peer message = (d, Target.addressReplies ptr w inc ++ [[HEXB_ERR]])) :
    ∃ line, (s.send message).readword =
        .buserr s.host.lastaddr ⟨{ s.host with busErr := true, cmd := HEXB_ERR, isspace := true }, line⟩ ∧
      line.peer = d ∧ line.text.map Prod.fst = [0x0a] := by
  obtain ⟨before, late, word, tail, text, shown, ending, peer, prior⟩ := send_replies received
  obtain rfl : word = [] := List.map_eq_nil_iff.mp shown
  obtain ⟨line, throws, peer', left⟩ := readword_error (s := s.send message) text
    (leads_prior (s := s) quiet spaces known prior) (ending.imp id And.left)
  exact ⟨line, throws, peer'.trans peer, left⟩

end

theorem address_known {h : Host} {w : BitVec 30} {inc : Bool} (addrSet : h.addrSet = true) (mode : h.inc = inc)
    (lastaddr : h.lastaddr = w ++ 0#2) : h.address (Target.addressWord w inc) = h := by
  rw [address_addressWord]
  cases h
  simp_all

theorem newline_spaces {text : Incoming} (left : text.map Prod.fst = [0x0a]) : ∀ x ∈ text, isspace x.1 = true := by
  intro x member
  have newline : x.1 ∈ text.map Prod.fst := List.mem_map_of_mem member
  rw [left, List.mem_singleton] at newline
  rw [newline]
  rfl

theorem read_step {s : Session Target} {ptr : List (BitVec 8)} {w : BitVec 30} {inc : Bool} (at_ : s.At ptr w inc) :
    ∃ s', (s.send (ptr ++ [HEXB_READ, 0x0a])).readword = .ok (s.line.peer.mem w) s' ∧
      s'.At [] (w + if inc then 1 else 0) inc ∧ s'.host.isspace = true ∧ s'.line.peer.mem = s.line.peer.mem := by
  obtain ⟨rests, addressed, addrSet, mode, lastaddr⟩ := at_
  have received := receive_command rests addressed .R
    (@Target.execute_read { s.line.peer with addr := w, inc } (lastEight []))
  obtain ⟨line, reads, peer, left⟩ := read_reply rests.quiet rests.spaces (address_known addrSet mode lastaddr) received
  refine ⟨_, reads, ⟨⟨?_, Or.inl rfl, newline_spaces left⟩, Or.inl ⟨rfl, ?_, ?_⟩, ?_, ?_, ?_⟩, rfl, ?_⟩
  · rw [peer]
    exact rests.idle
  · rw [peer]
    cases inc <;> simp [Target.read, Exec.advance]
  · rw [peer]
    rfl
  · simpa using addrSet
  · simpa using mode
  · cases inc with
    | false => simpa [mode] using lastaddr
    | true =>
      have next := word_add w 1
      simpa [mode, lastaddr] using next.symm
  · rw [peer]
    rfl

/-- The word addresses that a call names. -/
def named (w : BitVec 30) (inc : Bool) (n : Nat) : List (BitVec 30) :=
  (List.range n).map fun k => w + if inc then BitVec.ofNat 30 k else 0

theorem next_word (w : BitVec 30) (inc : Bool) (n : Nat) :
    (w + if inc then 1 else 0) + (if inc then BitVec.ofNat 30 n else 0) =
      w + if inc then BitVec.ofNat 30 (n + 1) else 0 := by
  cases inc with
  | false => simp
  | true =>
    simp only [if_true, BitVec.ofNat_add, BitVec.add_assoc, BitVec.add_comm (BitVec.ofNat 30 n)]
    rfl

theorem named_succ (w : BitVec 30) (inc : Bool) (n : Nat) :
    named w inc (n + 1) = w :: named (w + if inc then 1 else 0) inc n := by
  rw [named, List.range_succ_eq_map, List.map_cons, List.map_map, named]
  refine congrArg₂ _ (by cases inc <;> simp) (List.map_congr_left fun k _ => ?_)
  rw [next_word]
  rfl

theorem readLoop_spec {inc : Bool} (a : BitVec 32) (nread n : Nat) {s : Session Target} {ptr : List (BitVec 8)}
    {w : BitVec 30} (at_ : s.At ptr w inc) :
    ∃ s', readLoop a inc ptr nread (n + 1) s = .ok ((named w inc (n + 1)).map s.line.peer.mem) s' ∧
      s'.At [] (w + if inc then BitVec.ofNat 30 (n + 1) else 0) inc ∧ s'.host.isspace = true ∧
      s'.line.peer.mem = s.line.peer.mem := by
  induction n generalizing s ptr w nread with
  | zero =>
    obtain ⟨s₁, word, at₁, spaced, mem⟩ := read_step at_
    refine ⟨s₁, ?_, ?_, spaced, mem⟩
    · rw [readLoop, word]
      cases inc <;> simp [Outcome.rethrow, readLoop, named]
    · cases inc <;> simpa using at₁
  | succ n ih =>
    obtain ⟨s₁, word, at₁, -, mem⟩ := read_step at_
    obtain ⟨s', rest, at', spaced, mem'⟩ := ih (nread + 1) at₁
    refine ⟨s', ?_, ?_, spaced, mem'.trans mem⟩
    · rw [readLoop, word, named_succ]
      simp only [Outcome.rethrow, Outcome.andThen_ok, rest, mem, List.map_cons]
    · rwa [next_word] at at'

/-- The host leaves an address out only where the device stands. -/
def Skips (s : Session Target) (a : BitVec 32) (inc : Bool) : Prop :=
  s.host.encodeAddress (a ||| if inc then 0 else 1) = []

/-- Where an address is left out, the device stands there. -/
def Coherent (s : Session Target) (a : BitVec 32) (inc : Bool) : Prop :=
  s.Skips a inc → s.line.peer.addr = wordAddr a ∧ s.line.peer.inc = inc

theorem encodeAddress_eq (h : Host) (w : BitVec 30) (inc : Bool) :
    h.encodeAddress ((w ++ 0#2) ||| if inc then 0 else 1) = [] ∧
        h.addrSet = true ∧ Target.addressWord w inc = h.lastaddr ∧ h.inc = inc ∨
      h.encodeAddress ((w ++ 0#2) ||| if inc then 0 else 1) = HEXB_ADDR :: hex08 (Target.addressWord w inc) := by
  rw [or_mode, Host.encodeAddress]
  split_ifs with known
  · obtain ⟨addrSet, lastaddr, mode⟩ := known
    rw [Target.addressWord_mode, Bool.not_not] at mode
    exact Or.inl ⟨rfl, addrSet, lastaddr, mode⟩
  · exact Or.inr rfl

theorem skips_mode {h : Host} {w : BitVec 30} {inc : Bool}
    (skips : h.encodeAddress ((w ++ 0#2) ||| if inc then 0 else 1) = []) : h.inc = inc := by
  rcases encodeAddress_eq h w inc with ⟨-, -, -, mode⟩ | sends
  · exact mode
  · rw [skips] at sends
    simp at sends

theorem addressed_of_coherent {s : Session Target} {w : BitVec 30} {inc : Bool} (coherent : s.Coherent (w ++ 0#2) inc) :
    s.line.peer.Addressed (s.host.encodeAddress ((w ++ 0#2) ||| if inc then 0 else 1)) w inc := by
  rcases encodeAddress_eq s.host w inc with ⟨skips, -⟩ | sent
  · obtain ⟨addr, mode⟩ := coherent skips
    rw [wordAddr_word] at addr
    exact Or.inl ⟨skips, addr, mode⟩
  · exact Or.inr sent

theorem readv_spec {s : Session Target} (rests : Rests s) {w : BitVec 30} {inc : Bool} {n : Nat} (positive : 0 < n)
    (coherent : s.Coherent (w ++ 0#2) inc) :
    ∃ s', s.readv (w ++ 0#2) inc n = .ok ((named w inc n).map s.line.peer.mem) s' ∧
      s'.At [] (w + if inc then BitVec.ofNat 30 n else 0) inc ∧ s'.host.isspace = true ∧
      s'.line.peer.mem = s.line.peer.mem := by
  obtain ⟨n, rfl⟩ : ∃ m, n = m + 1 := ⟨n - 1, by omega⟩
  obtain ⟨s', loop, at', spaced, mem⟩ := @readLoop_spec inc (w ++ 0#2) 0 n
    { s with host := { s.host with lastaddr := w ++ 0#2, addrSet := true, inc } }
    (s.host.encodeAddress ((w ++ 0#2) ||| if inc then 0 else 1)) w
    ⟨⟨rests.idle, rests.quiet, rests.spaces⟩, addressed_of_coherent coherent, rfl, rfl, rfl⟩
  refine ⟨s', ?_, at', spaced, mem⟩
  -- the check of `m_lastaddr` at the end of `readv`
  have expected : s'.host.lastaddr = (w ++ 0#2) + if inc then BitVec.ofNat 32 (n + 1) <<< 2 else 0 := by
    rw [at'.lastaddr]
    cases inc with
    | false => simp
    | true =>
      simp only [if_true]
      rw [word_add, ofNat_shift]
  rw [readv, if_neg (by omega)]
  simp only [loop, Outcome.andThen_ok]
  rw [if_pos expected]

/-! ### One writing -/

theorem writeMessage_eq (value : BitVec 32) :
    ∃ digits, writeMessage value = HEXB_WRITE :: (digits.map digitChar ++ [0x0a]) ∧ lastEight digits = value := by
  obtain ⟨digits, shown, read⟩ := Target.written_digits value
  exact ⟨digits, by rw [writeMessage, shown], read⟩

/-- The first message of a write, if the device acknowledges it. -/
theorem write_reply {δ : Type} [Peer δ] {s : Session δ} {ptr message : List (BitVec 8)} {w : BitVec 30} {inc : Bool}
    {d : δ} (quiet : s.host.Quiet) (spaces : ∀ x ∈ s.line.text, isspace x.1 = true) (addrSet : s.host.addrSet = true)
    (lastaddr : s.host.lastaddr = w ++ 0#2) (none : s.host.nacks = 0)
    (skips : ptr = [] → s.host.inc = inc ∧ s.host.isspace = true)
    (received : Peer.receive s.line.peer message = (d, Target.addressReplies ptr w inc ++ [HEXB_ACK :: hex08 0]))
    (whole : InOnePiece (s.send message).line.text) :
    (s.send message).Awaits (w ++ 0#2) inc 1 ∧ (s.send message).line.peer = d := by
  obtain ⟨before, late, word, tail, text, shown, ending, peer, prior⟩ := send_replies received
  have all : ∀ x ∈ word, isDigit x.1 = true := fun x member =>
    isDigit_of_mem_hex08 (shown ▸ List.mem_map_of_mem member)
  refine ⟨?_, peer⟩
  rw [Awaits, text]
  rcases prior with ⟨sent, rfl⟩ | ⟨late', digits', tail', owed, rfl, shown', ending'⟩
  · obtain ⟨mode, spaced⟩ := skips sent
    have counted : Counted (w ++ 0#2) inc 0 0 s.host :=
      ⟨addrSet, mode, Nat.le_refl 0, none, by cases inc <;> simp [lastaddr]⟩
    have waiting : Waiting (w ++ 0#2) inc (s.send message).line.owed 0 s.host s.line.text :=
      .heard counted (.between spaced (acks_spaces spaces))
    exact waiting.append late all ending
  · have counted : Counted (w ++ 0#2) inc 0 0 (s.host.address (Target.addressWord w inc)) := by
      rw [address_addressWord]
      exact ⟨rfl, rfl, Nat.le_refl 0, none, by cases inc <;> simp⟩
    rw [text] at whole
    exact waiting_address quiet spaces late' late shown' ending' shown ending whole none counted

/-- The first message of a write is executed where the device stands, at `v`, if the address is left out. -/
theorem write_first {s : Session Target} (rests : Rests s) {w v : BitVec 30} {inc : Bool} (value : BitVec 32)
    (addressed : s.line.peer.Addressed (s.host.encodeAddress ((w ++ 0#2) ||| if inc then 0 else 1)) v inc)
    (place : ¬ s.Skips (w ++ 0#2) inc → v = w) (spaced : s.Skips (w ++ 0#2) inc → s.host.isspace = true)
    (whole : InOnePiece (s.send (s.host.encodeAddress ((w ++ 0#2) ||| if inc then 0 else 1) ++
      writeMessage value)).line.text) :
    let ready := { s with host := { s.host with lastaddr := w ++ 0#2, addrSet := true, nacks := 0 } }
    let sent := ready.send (s.host.encodeAddress ((w ++ 0#2) ||| if inc then 0 else 1) ++ writeMessage value)
    sent.Awaits (w ++ 0#2) inc 1 ∧
      sent.line.peer = ({ s.line.peer with addr := v, inc } : Target).write value := by
  intro ready sent
  obtain ⟨digits, message, read⟩ := writeMessage_eq value
  have executes := Target.execute_write { s.line.peer with addr := v, inc } value
  rw [← read] at executes
  have received := receive_command rests addressed .W executes
  have letter : (Kind.letter .W).setWidth 8 = HEXB_WRITE := rfl
  have replies : Target.addressReplies (s.host.encodeAddress ((w ++ 0#2) ||| if inc then 0 else 1)) v inc =
      Target.addressReplies (s.host.encodeAddress ((w ++ 0#2) ||| if inc then 0 else 1)) w inc := by
    by_cases skips : s.Skips (w ++ 0#2) inc
    · unfold Skips at skips
      rw [skips, Target.addressReplies, Target.addressReplies, if_pos rfl, if_pos rfl]
    · rw [place skips]
  rw [letter, ← message, read, replies] at received
  exact @write_reply _ _ ready _ _ _ _ _ rests.quiet rests.spaces rfl rfl rfl
    (fun skips => ⟨@skips_mode s.host w inc skips, spaced skips⟩) received whole

/-- Every further message of a write that the device acknowledges. -/
theorem Awaits.reply {δ : Type} [Peer δ] {s : Session δ} {a : BitVec 32} {inc : Bool} {n : Nat}
    (awaits : s.Awaits a inc n)
    {message : List (BitVec 8)} {d : δ} (received : Peer.receive s.line.peer message = (d, [HEXB_ACK :: hex08 0])) :
    (s.send message).Awaits a inc (n + 1) ∧ (s.send message).line.peer = d := by
  have one : (s.send message).line = Line.reply { s.line with peer := d } (HEXB_ACK :: hex08 0) := by
    simp only [Session.send, Line.send, received, List.foldl_cons, List.foldl_nil]
  obtain ⟨late, word, tail, text, shown, ending, peer⟩ :=
    ({ s.line with peer := d } : Line δ).reply_spec HEXB_ACK (hex08 0)
  have all : ∀ x ∈ word, isDigit x.1 = true := fun x member =>
    isDigit_of_mem_hex08 (shown ▸ List.mem_map_of_mem member)
  refine ⟨?_, by rw [one, peer]⟩
  have appended := Waiting.append awaits late all ending
  rw [Awaits, one, text]
  exact appended

theorem Awaits.send {s : Session Target} {a : BitVec 32} {inc : Bool} {n : Nat} (awaits : s.Awaits a inc n)
    (idle : s.line.peer.partly = none) (value : BitVec 32) :
    (s.send (writeMessage value)).Awaits a inc (n + 1) ∧
      (s.send (writeMessage value)).line.peer = s.line.peer.write value := by
  obtain ⟨digits, message, read⟩ := writeMessage_eq value
  have received := Target.receive_addressed idle (Or.inl ⟨rfl, rfl, rfl⟩) .W digits
  rw [read, Target.execute_write] at received
  rw [message]
  exact awaits.reply received

theorem writeLoop_rest {a : BitVec 32} {inc : Bool} (buf : List (BitVec 32)) {n : Nat} {s : Session Target}
    (awaits : s.Awaits a inc n) (idle : s.line.peer.partly = none) (small : n + buf.length < 2 ^ 32) :
    ∃ s', writeLoop [] n buf s = .ok () s' ∧ s'.Awaits a inc (n + buf.length) ∧
      s'.line.peer = buf.foldl Target.write s.line.peer := by
  induction buf generalizing n s with
  | nil => exact ⟨s, rfl, awaits, rfl⟩
  | cons value buf ih =>
    rw [List.length_cons] at small
    obtain ⟨awaits₁, peer₁⟩ := awaits.send idle value
    -- one message is sent ahead of the acknowledgements that are waited for
    obtain ⟨s₂, waited, awaits₂, peer₂, -⟩ := waitAcks_spec awaits₁ (Nat.le_succ n) (by omega)
      (patience_rounds (s.send (writeMessage value)))
    have idle₂ : s₂.line.peer.partly = none := by
      rw [peer₂, peer₁]
      exact idle
    obtain ⟨s', rest, awaits', peer'⟩ := ih awaits₂ idle₂ (by omega)
    refine ⟨s', ?_, ?_, ?_⟩
    · rw [writeLoop, List.nil_append]
      simp only [waited, Outcome.andThen_ok, rest]
    · rw [List.length_cons, show n + (buf.length + 1) = n + 1 + buf.length by omega]
      exact awaits'
    · rw [peer', peer₂, peer₁, List.foldl_cons]

/-- Cells of the memory are written one after the other. -/
def store (mem : Memory) (cells : List (BitVec 30 × BitVec 32)) : Memory :=
  cells.foldl (fun mem cell => Function.update mem cell.1 cell.2) mem

theorem foldl_write (buf : List (BitVec 32)) (d : Target) :
    buf.foldl Target.write d =
      { d with
        addr := d.addr + if d.inc then BitVec.ofNat 30 buf.length else 0
        mem := store d.mem ((named d.addr d.inc buf.length).zip buf) } := by
  induction buf generalizing d with
  | nil =>
    obtain ⟨partly, addr, inc, mem⟩ := d
    cases inc <;> simp [named, store]
  | cons value buf ih =>
    have advanced : (d.write value).addr = d.addr + if d.inc then 1 else 0 := by
      cases mode : d.inc <;> simp [Target.write, Exec.advance, mode]
    rw [List.foldl_cons, ih, List.length_cons, named_succ, advanced]
    have mode : (d.write value).inc = d.inc := rfl
    rw [mode, next_word]
    rfl

/-- The end of a write whose messages have all been acknowledged or will be. -/
theorem writev_returns {δ : Type} [Peer δ] {s s' : Session δ} {w : BitVec 30} {inc : Bool} {buf : List (BitVec 32)}
    (positive : 0 < buf.length) (small : buf.length < 2 ^ 31)
    (loop : writeLoop (s.host.encodeAddress ((w ++ 0#2) ||| if inc then 0 else 1)) 0 buf
      { s with host := { s.host with lastaddr := w ++ 0#2, addrSet := true, nacks := 0 } } = .ok () s')
    (awaits : s'.Awaits (w ++ 0#2) inc buf.length) :
    ∃ s₁, s.writev (w ++ 0#2) inc buf = .ok () s₁ ∧ s₁.host.isspace = true ∧ s₁.host.addrSet = true ∧
      s₁.host.inc = inc ∧ s₁.host.lastaddr = (w ++ 0#2) + (if inc then BitVec.ofNat 32 (8 * buf.length) else 0) ∧
      s₁.line.peer = s'.line.peer ∧ ∀ x ∈ s₁.line.text, isspace x.1 = true := by
  obtain ⟨s₁, waited, awaits₁, peer, all⟩ := waitAcks_spec awaits (Nat.le_refl _) (by omega) (patience_rounds s')
  obtain ⟨counted, spaced, spaces⟩ := awaits₁.done (by omega) (by omega) all
  have lastaddr := counted.lastaddr
  rw [Nat.sub_zero] at lastaddr
  refine ⟨_, by rw [writev]; simp only [loop, waited, Outcome.andThen_ok]; rfl, ?_⟩
  cases inc with
  | false => exact ⟨spaced, counted.addrSet, counted.mode, lastaddr, peer, spaces⟩
  | true =>
    refine ⟨spaced, counted.addrSet, counted.mode, ?_, peer, spaces⟩
    simp only [if_true, lastaddr, ofNat_shift]
    rw [BitVec.add_assoc, ← BitVec.ofNat_add]
    congr 2
    omega

/-- A write goes to where the device stands if the host leaves the address out, else to the address. -/
theorem writev_placed {s : Session Target} (rests : Rests s) {w v : BitVec 30} {inc : Bool} {buf : List (BitVec 32)}
    (positive : 0 < buf.length) (small : buf.length < 2 ^ 31)
    (addressed : s.line.peer.Addressed (s.host.encodeAddress ((w ++ 0#2) ||| if inc then 0 else 1)) v inc)
    (place : ¬ s.Skips (w ++ 0#2) inc → v = w) (spaced : s.Skips (w ++ 0#2) inc → s.host.isspace = true)
    (whole : InOnePiece (s.send (s.host.encodeAddress ((w ++ 0#2) ||| if inc then 0 else 1) ++
      writeMessage (buf.headD 0))).line.text) :
    ∃ s', s.writev (w ++ 0#2) inc buf = .ok () s' ∧ Rests s' ∧ s'.host.isspace = true ∧ s'.host.addrSet = true ∧
      s'.host.inc = inc ∧ s'.host.lastaddr = (w ++ 0#2) + (if inc then BitVec.ofNat 32 (8 * buf.length) else 0) ∧
      s'.line.peer = { s.line.peer with
        addr := v + if inc then BitVec.ofNat 30 buf.length else 0
        inc, mem := store s.line.peer.mem ((named v inc buf.length).zip buf) } := by
  obtain ⟨value, buf, rfl⟩ : ∃ value rest, buf = value :: rest := by
    cases buf with
    | nil => simp at positive
    | cons value buf => exact ⟨value, buf, rfl⟩
  have length : (value :: buf).length = 1 + buf.length := by rw [List.length_cons, Nat.add_comm]
  obtain ⟨awaits₁, peer₁⟩ := write_first rests value addressed place spaced whole
  have idle₁ := congrArg Target.partly peer₁
  obtain ⟨s₂, waited₂, awaits₂, peer₂, -⟩ := waitAcks_spec awaits₁ (Nat.zero_le 1) (by decide) (patience_rounds _)
  obtain ⟨s₃, rest, awaits₃, peer₃⟩ := writeLoop_rest buf awaits₂ (by rw [peer₂, idle₁]; exact rests.idle) (by omega)
  have loop : writeLoop (s.host.encodeAddress ((w ++ 0#2) ||| if inc then 0 else 1)) 0 (value :: buf)
      { s with host := { s.host with lastaddr := w ++ 0#2, addrSet := true, nacks := 0 } } = .ok () s₃ := by
    rw [writeLoop]
    simp only [waited₂, Outcome.andThen_ok, rest]
  rw [← length] at awaits₃
  obtain ⟨s', writes, spaced', addrSet, mode, lastaddr, peer', spaces⟩ := writev_returns positive small loop awaits₃
  have peer : s'.line.peer = { s.line.peer with
      addr := v + if inc then BitVec.ofNat 30 (value :: buf).length else 0
      inc, mem := store s.line.peer.mem ((named v inc (value :: buf).length).zip (value :: buf)) } := by
    rw [peer', peer₃, peer₂, peer₁, ← List.foldl_cons, foldl_write]
  have idle : s'.line.peer.partly = none := by
    rw [peer]
    exact rests.idle
  exact ⟨s', writes, ⟨idle, .inl spaced', spaces⟩, spaced', addrSet, mode, lastaddr, peer⟩

theorem writev_spec {s : Session Target} (rests : Rests s) {w : BitVec 30} {inc : Bool} {buf : List (BitVec 32)}
    (positive : 0 < buf.length) (small : buf.length < 2 ^ 31) (coherent : s.Coherent (w ++ 0#2) inc)
    (spaced : s.Skips (w ++ 0#2) inc → s.host.isspace = true)
    (whole : InOnePiece (s.send (s.host.encodeAddress ((w ++ 0#2) ||| if inc then 0 else 1) ++
      writeMessage (buf.headD 0))).line.text) :
    ∃ s', s.writev (w ++ 0#2) inc buf = .ok () s' ∧ Rests s' ∧ s'.host.isspace = true ∧ s'.host.addrSet = true ∧
      s'.host.inc = inc ∧ s'.host.lastaddr = (w ++ 0#2) + (if inc then BitVec.ofNat 32 (8 * buf.length) else 0) ∧
      s'.line.peer = { s.line.peer with
        addr := w + if inc then BitVec.ofNat 30 buf.length else 0
        inc, mem := store s.line.peer.mem ((named w inc buf.length).zip buf) } :=
  writev_placed rests positive small (addressed_of_coherent coherent) (fun _ => rfl) spaced whole

end Session

/-! ### Calls -/

/-- The calls that use the bus. -/
inductive Call where
  | readio (a : BitVec 32)
  | readi (a : BitVec 32) (len : Nat)
  | readz (a : BitVec 32) (len : Nat)
  | writeio (a v : BitVec 32)
  | writei (a : BitVec 32) (buf : List (BitVec 32))
  | writez (a : BitVec 32) (buf : List (BitVec 32))
  deriving DecidableEq, Repr

namespace Call
open Session (Skips Coherent Rests named store)

def run (s : Session Target) : Call → Outcome (Session Target) (List (BitVec 32))
  | .readio a => s.readio a
  | .readi a len => s.readi a len
  | .readz a len => s.readz a len
  | .writeio a v => (s.writeio a v).andThen fun _ s => .ok [] s
  | .writei a buf => (s.writei a buf).andThen fun _ s => .ok [] s
  | .writez a buf => (s.writez a buf).andThen fun _ s => .ok [] s

def addr : Call → BitVec 32
  | .readio a | .readi a _ | .readz a _ | .writeio a _ | .writei a _ | .writez a _ => a

def inc : Call → Bool
  | .readi _ _ | .writei _ _ => true
  | _ => false

def count : Call → Nat
  | .readio _ | .writeio _ _ => 1
  | .readi _ len | .readz _ len => len
  | .writei _ buf | .writez _ buf => buf.length

/-- Aligned, with a positive length that an `int` can hold. -/
structure Valid (c : Call) : Prop where
  aligned : Aligned c.addr
  positive : 0 < c.count
  small : c.count < 2 ^ 31

/-- The words a call names. -/
def words (c : Call) : List (BitVec 30) := named (wordAddr c.addr) c.inc c.count

/-- What a call has to return. -/
def returned (mem : Memory) (c : Call) : List (BitVec 32) :=
  match c with
  | .readio _ | .readi _ _ | .readz _ _ => c.words.map mem
  | _ => []

/-- What a call has to leave in the memory. -/
def stored (mem : Memory) (c : Call) : Memory :=
  match c with
  | .writeio _ v => store mem (c.words.zip [v])
  | .writei _ buf | .writez _ buf => store mem (c.words.zip buf)
  | _ => mem

/-- The host would not act on the address that a write has left it with, two lengths behind the start. -/
def Follows (previous : Option Call) (c : Call) : Prop :=
  match previous with
  | some (.writei a buf) =>
    c.inc = true → c.addr = a + BitVec.ofNat 32 (8 * buf.length) →
      a + BitVec.ofNat 32 (8 * buf.length) = a + BitVec.ofNat 32 (4 * buf.length)
  | _ => True

/-- The answer to the address of a write is not split by the end of a `readidle`. -/
def Unsplit (s : Session Target) (c : Call) : Prop :=
  let message (v : BitVec 32) := s.host.encodeAddress (c.addr ||| if c.inc then 0 else 1) ++ Session.writeMessage v
  match c with
  | .writeio _ v => InOnePiece (s.send (message v)).line.text
  | .writei _ buf | .writez _ buf => InOnePiece (s.send (message (buf.headD 0))).line.text
  | _ => True

instance (s : Session Target) (c : Call) : Decidable (c.Unsplit s) :=
  match c with
  | .readio _ | .readi _ _ | .readz _ _ => inferInstanceAs (Decidable True)
  | .writeio _ _ | .writei _ _ | .writez _ _ => inferInstanceAs (Decidable (InOnePiece _))

end Call

namespace Session

/-- What holds between calls: the device stands where the host believes, or where a write with increments
has really left it. -/
structure Settled (previous : Option Call) (s : Session Target) : Prop extends Rests s where
  spaced : s.host.addrSet = true → s.host.isspace = true
  aligned : s.host.addrSet = true → Aligned s.host.lastaddr
  cache : s.host.addrSet = true → s.host.inc = true → s.line.peer.inc = true ∧
    (s.host.lastaddr = s.line.peer.addr ++ 0#2 ∨
      ∃ w buf, previous = some (.writei (w ++ 0#2) buf) ∧ s.line.peer.addr = w + BitVec.ofNat 30 buf.length ∧
        s.host.lastaddr = (w ++ 0#2) + BitVec.ofNat 32 (8 * buf.length))

theorem addressWord_inc (w : BitVec 30) : Target.addressWord w true = w ++ 0#2 := by
  have mode := or_mode w true
  rw [if_pos rfl] at mode
  rw [← mode]
  exact BitVec.or_zero

theorem addressWord_fixed (w : BitVec 30) : ¬ Aligned (Target.addressWord w false) := by
  intro aligned
  rw [Aligned, Target.addressWord, BitVec.extractLsb'_append_eq_of_add_le (by decide)] at aligned
  simp at aligned

theorem Settled.coherent {previous : Option Call} {s : Session Target} (settled : Settled previous s) {c : Call}
    (valid : c.Valid) (follows : c.Follows previous) :
    s.Coherent c.addr c.inc ∧ (s.Skips c.addr c.inc → s.host.isspace = true) := by
  obtain ⟨w, aligned⟩ : ∃ w, c.addr = w ++ 0#2 := ⟨_, aligned_eq valid.aligned⟩
  rcases encodeAddress_eq s.host w c.inc with ⟨-, addrSet, known, mode⟩ | sends
  · refine ⟨fun _ => ?_, fun _ => settled.spaced addrSet⟩
    -- with bit 0 set an address never equals the aligned one that is remembered
    cases incs : c.inc with
    | false =>
      rw [incs] at known
      exact absurd (known ▸ settled.aligned addrSet) (addressWord_fixed w)
    | true =>
      rw [incs, addressWord_inc] at known
      obtain ⟨inc, stands⟩ := settled.cache addrSet (mode.trans incs)
      refine ⟨?_, inc⟩
      have there : w ++ 0#2 = s.line.peer.addr ++ 0#2 := by
        rcases stands with believed | ⟨v, buf, rfl, addr, doubled⟩
        · exact known.trans believed
        · rw [addr, word_add, known, doubled]
          exact follows incs (by rw [aligned, known, doubled])
      rw [aligned, there, wordAddr_word]
  · have never : ¬ s.Skips c.addr c.inc := by
      rw [Skips, aligned, sends]
      simp
    exact ⟨fun skips => absurd skips never, fun skips => absurd skips never⟩

theorem At.settled {s : Session Target} {w : BitVec 30} {inc : Bool} (at_ : s.At [] w inc)
    (spaced : s.host.isspace = true) (previous : Option Call) : Settled previous s := by
  refine ⟨at_.toRests, fun _ => spaced, fun _ => ?_, fun _ incs => ?_⟩
  · rw [at_.lastaddr]
    exact aligned_word w
  · rcases at_.addressed with ⟨-, addr, mode⟩ | sent
    · exact ⟨by rw [mode, ← at_.mode, incs], Or.inl (by rw [at_.lastaddr, addr])⟩
    · simp at sent

/-- What a write leaves behind. -/
theorem settled_write {s : Session Target} (rests : Rests s)
    (spaced : s.host.isspace = true) {w : BitVec 30} {inc : Bool}
    {buf : List (BitVec 32)} (mode : s.host.inc = inc)
    (lastaddr : s.host.lastaddr = (w ++ 0#2) + (if inc then BitVec.ofNat 32 (8 * buf.length) else 0))
    (addr : s.line.peer.addr = w + if inc then BitVec.ofNat 30 buf.length else 0) (deviceMode : s.line.peer.inc = inc)
    {c : Call} (same : inc = true → c = .writei (w ++ 0#2) buf) : Settled (some c) s := by
  refine ⟨rests, fun _ => spaced, fun _ => ?_, fun _ incs => ?_⟩
  · rw [lastaddr]
    cases inc with
    | false =>
      have same : (w ++ 0#2) + 0 = w ++ 0#2 := BitVec.add_zero _
      rw [if_neg (by decide), same]
      exact aligned_word w
    | true =>
      rw [if_pos rfl, show 8 * buf.length = 4 * (2 * buf.length) by omega, ← word_add]
      exact aligned_word _
  · obtain rfl : inc = true := mode.symm.trans incs
    rw [if_pos rfl] at lastaddr
    exact ⟨deviceMode, Or.inr ⟨w, buf, congrArg some (same rfl), addr, lastaddr⟩⟩

end Session

namespace Call
open Session (Skips Coherent Rests Settled named store)

variable {s : Session Target} {previous : Option Call}

theorem readv_call (settled : Settled previous s) {a : BitVec 32} {inc : Bool} {n : Nat} (aligned : Aligned a)
    (positive : 0 < n) (coherent : s.Coherent a inc) (c : Call) :
    ∃ s', s.readv a inc n = .ok ((named (wordAddr a) inc n).map s.line.peer.mem) s' ∧ Settled (some c) s' ∧
      s'.line.peer.mem = s.line.peer.mem ∧ (inc = false → s'.host.lastaddr = a) := by
  obtain ⟨w, rfl⟩ : ∃ w, a = w ++ 0#2 := ⟨_, aligned_eq aligned⟩
  obtain ⟨s', reads, at_, spaced, mem⟩ := Session.readv_spec settled.toRests positive coherent
  refine ⟨s', by rw [wordAddr_word, reads], at_.settled spaced _, mem, ?_⟩
  rintro rfl
  simpa using at_.lastaddr

theorem writev_call (settled : Settled previous s) {a : BitVec 32} {inc : Bool} {buf : List (BitVec 32)}
    (aligned : Aligned a) (positive : 0 < buf.length) (small : buf.length < 2 ^ 31) (coherent : s.Coherent a inc)
    (spaced : s.Skips a inc → s.host.isspace = true)
    (whole : InOnePiece (s.send (s.host.encodeAddress (a ||| if inc then 0 else 1) ++
      Session.writeMessage (buf.headD 0))).line.text) {c : Call} (same : inc = true → c = .writei a buf) :
    ∃ s', s.writev a inc buf = .ok () s' ∧ Settled (some c) s' ∧
      s'.line.peer.mem = store s.line.peer.mem ((named (wordAddr a) inc buf.length).zip buf) ∧
      (inc = false → s'.host.lastaddr = a ∧ s'.host.addrSet = true) := by
  obtain ⟨w, rfl⟩ : ∃ w, a = w ++ 0#2 := ⟨_, aligned_eq aligned⟩
  obtain ⟨s', writes, rests, spaced', addrSet, mode, lastaddr, peer⟩ :=
    Session.writev_spec settled.toRests positive small coherent spaced whole
  refine ⟨s', writes, Session.settled_write rests spaced' mode lastaddr (by rw [peer]) (by rw [peer]) same, ?_, ?_⟩
  · rw [peer, wordAddr_word]
  · rintro rfl
    exact ⟨by simpa using lastaddr, addrSet⟩

/-- A call does what it names, and leaves the next one the state it needs. -/
theorem run_spec (settled : Settled previous s) {c : Call} (valid : c.Valid) (follows : c.Follows previous)
    (unsplit : c.Unsplit s) :
    s.Coherent c.addr c.inc ∧
      ∃ s', c.run s = .ok (c.returned s.line.peer.mem) s' ∧ Settled (some c) s' ∧
        s'.line.peer.mem = c.stored s.line.peer.mem := by
  obtain ⟨coherent, spaced⟩ := settled.coherent valid follows
  refine ⟨coherent, ?_⟩
  obtain ⟨aligned, positive, small⟩ := valid
  cases c with
  | readio a =>
    obtain ⟨s', reads, settled', mem, lastaddr⟩ := readv_call settled aligned positive coherent (.readio a)
    refine ⟨s', ?_, settled', mem⟩
    have one : s.readv a false 1 = .ok (returned s.line.peer.mem (.readio a)) s' := reads
    have last : s'.host.lastaddr = a := lastaddr rfl
    simp only [run, Session.readio, one, Outcome.rethrow, Outcome.andThen_ok, last, if_true]
  | readi a len =>
    obtain ⟨s', reads, settled', mem, -⟩ := readv_call settled aligned positive coherent (.readi a len)
    exact ⟨s', reads, settled', mem⟩
  | readz a len =>
    obtain ⟨s', reads, settled', mem, -⟩ := readv_call settled aligned positive coherent (.readz a len)
    exact ⟨s', reads, settled', mem⟩
  | writeio a v =>
    obtain ⟨s', writes, settled', mem, last⟩ := @writev_call s previous settled a false [v] aligned positive small
      coherent spaced unsplit (.writeio a v) (by simp)
    obtain ⟨lastaddr, addrSet⟩ := last rfl
    have same : { s' with host := { s'.host with lastaddr := a, addrSet := true } } = s' := by
      obtain ⟨⟨_, _, _, _, _, _, _, _⟩, _⟩ := s'
      simp_all
    refine ⟨s', ?_, settled', mem⟩
    simp only [run, Session.writeio, writes, Outcome.andThen_ok, same]
    rfl
  | writei a buf =>
    obtain ⟨s', writes, settled', mem, -⟩ := @writev_call s previous settled a true buf aligned positive small
      coherent spaced unsplit (.writei a buf) fun _ => rfl
    refine ⟨s', ?_, settled', mem⟩
    simp only [run, Session.writei, writes, Outcome.andThen_ok]
    rfl
  | writez a buf =>
    obtain ⟨s', writes, settled', mem, -⟩ := @writev_call s previous settled a false buf aligned positive small
      coherent spaced unsplit (.writez a buf) (by simp)
    refine ⟨s', ?_, settled', mem⟩
    simp only [run, Session.writez, writes, Outcome.andThen_ok]
    rfl

/-! ### Runs -/

def runAll (s : Session Target) : List Call → Outcome (Session Target) (List (List (BitVec 32)))
  | [] => .ok [] s
  | c :: calls => (c.run s).andThen fun words s => (runAll s calls).andThen fun rest s => .ok (words :: rest) s

/-- No call acts on an address that a write has left wrong, and no address reply of a write is split. -/
def Careful (previous : Option Call) (s : Session Target) : List Call → Prop
  | [] => True
  | c :: calls =>
    c.Follows previous ∧ c.Unsplit s ∧ ∀ words s', c.run s = .ok words s' → Careful (some c) s' calls

theorem careful_runs {calls : List Call} (settled : Settled previous s) (valid : ∀ c ∈ calls, c.Valid)
    (careful : Careful previous s calls) {before : List Call} {c : Call} {after : List Call}
    (split : calls = before ++ c :: after) :
    ∃ results s₁, runAll s before = .ok results s₁ ∧ s₁.Coherent c.addr c.inc ∧
      ∃ s₂, c.run s₁ = .ok (c.returned s₁.line.peer.mem) s₂ ∧
        s₂.line.peer.mem = c.stored s₁.line.peer.mem := by
  induction calls generalizing s previous before with
  | nil => simp at split
  | cons first calls ih =>
    obtain ⟨follows, unsplit, later⟩ := careful
    obtain ⟨coherent, s', runs, settled', mem⟩ := run_spec settled (valid first (by simp)) follows unsplit
    cases before with
    | nil =>
      obtain ⟨rfl, rfl⟩ := List.cons.inj split
      exact ⟨[], s, rfl, coherent, s', runs, mem⟩
    | cons first' before =>
      obtain ⟨rfl, rfl⟩ := List.cons.inj split
      obtain ⟨results, s₁, ran, rest⟩ := ih settled' (fun c member => valid c (List.mem_cons_of_mem _ member))
          (later _ _ runs) rfl
      refine ⟨returned s.line.peer.mem first :: results, s₁, ?_, rest⟩
      simp only [runAll, runs, Outcome.andThen_ok, ran]

/-- Before the first call: nothing has been read or sent, and the device may stand anywhere. -/
structure Fresh (s : Session Target) : Prop where
  host : ∃ lastaddr inc isspace, s.host = Host.init lastaddr inc isspace
  text : s.line.text = []
  idle : s.line.peer.partly = none

theorem Fresh.settled (fresh : Fresh s) : Settled none s := by
  obtain ⟨⟨lastaddr, inc, isspace, host⟩, text, idle⟩ := fresh
  have unset : s.host.addrSet = false := by rw [host]; rfl
  refine ⟨⟨idle, Or.inr (by rw [host]; rfl), by simp [text]⟩, ?_, ?_, ?_⟩
  · simp [unset]
  · simp [unset]
  · simp [unset]

/-- From a fresh start every careful run is coherent: an address that is left out is where the device
stands, and every call returns and leaves what it names. -/
theorem coherent_runs (fresh : Fresh s) (calls : List Call) (valid : ∀ c ∈ calls, c.Valid)
    (careful : Careful none s calls) (before : List Call) (c : Call) (after : List Call)
    (split : calls = before ++ c :: after) :
    ∃ results s₁, runAll s before = .ok results s₁ ∧ s₁.Coherent c.addr c.inc ∧
      ∃ s₂, c.run s₁ = .ok (c.returned s₁.line.peer.mem) s₂ ∧
        s₂.line.peer.mem = c.stored s₁.line.peer.mem :=
  careful_runs fresh.settled valid careful split

/-- A line on which nothing is late, and a memory of word addresses. -/
def standing : Session Target where
  host := Host.init 0 false false
  line := {
    text := []
    owed := false
    peer := { partly := none, addr := 77, inc := false, mem := fun a => a.setWidth 32 }
    choices := fun _ => false }

theorem coherent_runs_standing :
    ∃ results s₁, runAll standing [.writei 0x1000 [5, 0], .readi 0x1000 2] = .ok results s₁ ∧
      s₁.Coherent 0x1008 true ∧
      ∃ s₂, run s₁ (.readi 0x1008 1) = .ok (returned s₁.line.peer.mem (.readi 0x1008 1)) s₂ ∧
        s₂.line.peer.mem = stored s₁.line.peer.mem (.readi 0x1008 1) :=
  coherent_runs ⟨⟨0, false, false, rfl⟩, rfl, rfl⟩ [.writei 0x1000 [5, 0], .readi 0x1000 2, .readi 0x1008 1]
    (by
      intro c member
      rcases List.mem_cons.mp member with rfl | member
      · exact ⟨by decide, by decide, by decide⟩
      rcases List.mem_cons.mp member with rfl | member
      · exact ⟨by decide, by decide, by decide⟩
      obtain rfl := List.mem_singleton.mp member
      exact ⟨by decide, by decide, by decide⟩)
    ⟨trivial, by decide +kernel, fun _ _ _ => ⟨fun _ same => absurd same (by decide), trivial, fun _ _ _ =>
      ⟨trivial, trivial, fun _ _ _ => trivial⟩⟩⟩
    [.writei 0x1000 [5, 0], .readi 0x1000 2] (.readi 0x1008 1) [] rfl

/-- After one write at 0x1000 the host takes the device to be at 0x1008, and a read from there returns
the word at 0x1004. -/
theorem write_doubles_length :
    ∃ s₁, runAll standing [.writei 0x1000 [5]] = .ok [[]] s₁ ∧ s₁.Skips 0x1008 true ∧
      s₁.line.peer.addr = wordAddr 0x1004 ∧
      ∃ s₂, run s₁ (.readi 0x1008 1) = .ok [0x401] s₂ ∧ returned s₁.line.peer.mem (.readi 0x1008 1) = [0x402] :=
  ⟨_, rfl, rfl, rfl, _, rfl, by decide⟩

end Call

end IcoZip.Hexbus
