import IcoZip.Hexbus.Coherence
import IcoZip.Hexbus.Erring

/-! The device side of hexbus with a bus whose requests can fail.

A failed request moves the address register if the slave had accepted it, and is
answered by an error in place of the data or the acknowledgement. A read that
fails leaves the host one word behind the device. A write that fails leaves the
host in the middle of the error reply, and no call returns from there.
-/

set_option autoImplicit false

namespace IcoZip.Hexbus

open Exec (Operation operation setAddress advance)

structure Faulty where
  target : Target
  /-- The requests to come that fail, each with whether the slave had accepted it. -/
  faults : Nat → Option Bool

namespace Faulty

/-- The device after a request. -/
def after (d : Faulty) (target : Target) : Faulty := { target, faults := fun n => d.faults (n + 1) }

/-- The target after a request that has failed. -/
def failed (d : Target) (accepted : Bool) : Target := { d with addr := advance d.addr d.inc accepted }

/-- One command word, with the response to it. -/
def execute (d : Faulty) (word : BitVec 34) : Faulty × List Response :=
  match operation word with
  | .bus _ =>
    match d.faults 0 with
    | some accepted => (d.after (failed d.target accepted), [.busError])
    | none => (d.after (d.target.execute word).1, (d.target.execute word).2)
  | _ => ({ d with target := (d.target.execute word).1 }, (d.target.execute word).2)

def executeAll (d : Faulty) : List (BitVec 34) → Faulty × List Response
  | [] => (d, [])
  | word :: words =>
    let (d, first) := d.execute word
    let (d, rest) := d.executeAll words
    (d, first ++ rest)

instance : Peer Faulty where
  receive d bytes :=
    let (partly, words) := consumeAll d.target.partly (Target.chars bytes)
    let (d, responses) := { d with target := { d.target with partly } }.executeAll words
    (d, responses.map Target.rendered)

/-- How the bus completes the requests of a command list. -/
def completions (d : Faulty) : List (BitVec 34) → List Exec.Completion
  | [] => []
  | word :: words =>
    match operation word with
    | .bus _ =>
      ⟨(d.faults 0).isSome, (d.faults 0).getD true, d.target.mem d.target.addr⟩ :: (d.execute word).1.completions words
    | _ => (d.execute word).1.completions words

/-- The responses are those of `hbexec`. -/
theorem executeAll_replies (d : Faulty) (words : List (BitVec 34)) :
    (d.executeAll words).2.map Response.word = Exec.replies d.target.addr d.target.inc words (d.completions words) := by
  induction words generalizing d with
  | nil => rfl
  | cons word words ih =>
    simp only [executeAll, List.map_append, ih, completions, Exec.replies]
    cases kind : operation word with
    | special => simp [execute, Target.execute, kind]
    | address => simp [execute, Target.execute, kind, Response.word]
    | bus we =>
      cases fault : d.faults 0 with
      | some accepted => simp [execute, after, failed, kind, fault, Response.word, Exec.reply]
      | none => cases we <;> simp [execute, after, Target.execute, kind, fault, Response.word, Exec.reply]

theorem executeAll_addressed (d : Faulty) {ptr : List (BitVec 8)} {w : BitVec 30} {inc : Bool}
    (addressed : d.target.Addressed ptr w inc) (command : Command) :
    let done := { d with target := { d.target with addr := w, inc } }.execute command.word
    (d.executeAll (Target.addressedWords ptr w inc command)).1 = done.1 ∧
      (d.executeAll (Target.addressedWords ptr w inc command)).2.map Target.rendered =
        Target.addressReplies ptr w inc ++ done.2.map Target.rendered := by
  intro done
  rcases addressed with ⟨rfl, rfl, rfl⟩ | rfl
  · simp [Target.addressedWords, Target.addressReplies, executeAll, done]
  · -- an address command makes no request and cannot fail
    have first : d.execute (Command.word ⟨.A, Target.addressWord w inc⟩) =
        ({ d with target := { d.target with addr := w, inc } }, [.address w inc]) := by
      simp only [execute, Target.operation_word, Target.execute_address]
    simp only [Target.addressedWords, Target.addressReplies, executeAll, first, reduceCtorEq, if_false,
      List.singleton_append, List.append_nil, List.map_cons]
    exact ⟨rfl, rfl⟩

theorem receive_addressed {d : Faulty} (idle : d.target.partly = none) {ptr : List (BitVec 8)} {w : BitVec 30}
    {inc : Bool} (addressed : d.target.Addressed ptr w inc) (kind : Kind) (digits : List (BitVec 4)) :
    Peer.receive d (ptr ++ kind.letter.setWidth 8 :: (digits.map digitChar ++ [0x0a])) =
      let done := { d with target := { d.target with addr := w, inc } }.execute
        (Command.word ⟨kind, lastEight digits⟩)
      (done.1, Target.addressReplies ptr w inc ++ done.2.map Target.rendered) := by
  obtain ⟨⟨partly, addr, mode, mem⟩, faults⟩ := d
  obtain rfl : partly = none := idle
  obtain ⟨device, replies⟩ := executeAll_addressed ⟨⟨none, addr, mode, mem⟩, faults⟩ addressed ⟨kind, lastEight digits⟩
  simp only [Peer.receive, Target.consumeAll_addressed addressed.sent, device, replies]

/-- A message whose request is answered. -/
theorem receive_answered {d : Faulty} (idle : d.target.partly = none) {ptr : List (BitVec 8)} {w : BitVec 30}
    {inc : Bool} (addressed : d.target.Addressed ptr w inc) {kind : Kind} (bus : kind = .R ∨ kind = .W)
    (digits : List (BitVec 4)) (sound : d.faults 0 = none) {t : Target} {response : Response}
    (executes : ({ d.target with addr := w, inc } : Target).execute (Command.word ⟨kind, lastEight digits⟩) =
      (t, [response])) :
    Peer.receive d (ptr ++ kind.letter.setWidth 8 :: (digits.map digitChar ++ [0x0a])) =
      (d.after t, Target.addressReplies ptr w inc ++ [Target.rendered response]) := by
  rw [receive_addressed idle addressed]
  rcases bus with rfl | rfl <;> simp [execute, Target.operation_word, sound, executes, after]

/-- A message whose request fails. -/
theorem receive_failed {d : Faulty} (idle : d.target.partly = none) {ptr : List (BitVec 8)} {w : BitVec 30}
    {inc : Bool} (addressed : d.target.Addressed ptr w inc) {kind : Kind} (bus : kind = .R ∨ kind = .W)
    (digits : List (BitVec 4)) {accepted : Bool} (fault : d.faults 0 = some accepted) :
    Peer.receive d (ptr ++ kind.letter.setWidth 8 :: (digits.map digitChar ++ [0x0a])) =
      (d.after (failed { d.target with addr := w, inc } accepted),
        Target.addressReplies ptr w inc ++ [[HEXB_ERR]]) := by
  have error : Target.rendered .busError = [HEXB_ERR] := rfl
  rw [receive_addressed idle addressed]
  rcases bus with rfl | rfl <;> simp [execute, Target.operation_word, fault, after, error]

end Faulty

namespace Session

/-- The session without the failures that are to come. -/
def sound (s : Session Faulty) : Session Target :=
  { host := s.host
    line := { text := s.line.text, owed := s.line.owed, peer := s.line.peer.target, choices := s.line.choices } }

/-- None of the next `n` requests fails. -/
def Unfailing (s : Session Faulty) (n : Nat) : Prop := ∀ k < n, s.line.peer.faults k = none

theorem Unfailing.rest {s s' : Session Faulty} {n : Nat} {t : Target} (unfailing : s.Unfailing (n + 1))
    (peer : s'.line.peer = s.line.peer.after t) : s'.Unfailing n := by
  intro k small
  rw [peer]
  exact unfailing (k + 1) (by omega)

/-! ### Reads -/

/-- A read has failed: the host stands at `w`, the device there or behind it. -/
structure Stopped (s : Session Faulty) (w : BitVec 30) (inc : Bool) : Prop extends Rests s.sound where
  spaced : s.host.isspace = true
  mode : s.host.inc = inc
  lastaddr : s.host.lastaddr = w ++ 0#2
  deviceMode : s.line.peer.target.inc = inc

theorem read_faulty {s : Session Faulty} {ptr : List (BitVec 8)} {w : BitVec 30} {inc : Bool}
    (at_ : s.sound.At ptr w inc) :
    (∃ s' t, (s.send (ptr ++ [HEXB_READ, 0x0a])).readword = .ok (s.line.peer.target.mem w) s' ∧
        s'.sound.At [] (w + if inc then 1 else 0) inc ∧ s'.host.isspace = true ∧
        s'.line.peer = s.line.peer.after t ∧ t.mem = s.line.peer.target.mem) ∨
      s.line.peer.faults 0 ≠ none ∧
        ∃ s', (s.send (ptr ++ [HEXB_READ, 0x0a])).readword = .buserr (w ++ 0#2) s' ∧ s'.Stopped w inc ∧
          s'.line.peer.target.mem = s.line.peer.target.mem := by
  have idle : s.line.peer.target.partly = none := at_.idle
  have mode : s.host.inc = inc := at_.mode
  have lastaddr : s.host.lastaddr = w ++ 0#2 := at_.lastaddr
  have known := address_known at_.addrSet mode lastaddr
  cases fault : s.line.peer.faults 0 with
  | none =>
    have received := Faulty.receive_answered idle at_.addressed (.inl rfl) [] fault (Target.execute_read _ _)
    obtain ⟨line, reads, peer, left⟩ := @read_reply _ s _ _ _ _ _ _ _ at_.quiet at_.spaces known received
    refine .inl ⟨_, _, reads, ⟨⟨?_, .inl rfl, newline_spaces left⟩, .inl ⟨rfl, ?_, ?_⟩, ?_, ?_, ?_⟩, rfl, peer, rfl⟩
    · simp only [sound, peer]
      exact idle
    · simp only [sound, peer]
      cases inc <;> simp [Faulty.after, Target.read, advance]
    · simp only [sound, peer]
      rfl
    · simpa [sound] using at_.addrSet
    · simpa [sound] using mode
    · cases inc with
      | false => simpa [sound, mode] using lastaddr
      | true =>
        have next := word_add w 1
        simpa [sound, mode, lastaddr] using next.symm
  | some accepted =>
    -- `readword` throws with `m_lastaddr` where it was; the device may have moved
    have received := Faulty.receive_failed idle at_.addressed (.inl rfl) [] fault
    obtain ⟨line, throws, peer, left⟩ := @read_error _ s _ _ _ _ _ _ at_.quiet at_.spaces known received
    rw [lastaddr] at throws
    have spaces := newline_spaces left
    refine .inr ⟨by simp, _, throws, ⟨⟨?_, .inl rfl, spaces⟩, rfl, mode, lastaddr, ?_⟩, ?_⟩
    · simp only [sound, peer]
      exact idle
    · rw [peer]
      rfl
    · rw [peer]
      rfl

theorem readLoop_faulty {inc : Bool} (a : BitVec 32) (nread n : Nat) {s : Session Faulty} {ptr : List (BitVec 8)}
    {w : BitVec 30} (at_ : s.sound.At ptr w inc) :
    (∃ s', readLoop a inc ptr nread (n + 1) s = .ok ((named w inc (n + 1)).map s.line.peer.target.mem) s' ∧
        s'.sound.At [] (w + if inc then BitVec.ofNat 30 (n + 1) else 0) inc ∧ s'.host.isspace = true ∧
        s'.line.peer.target.mem = s.line.peer.target.mem) ∨
      ¬ s.Unfailing (n + 1) ∧
        ∃ k s', readLoop a inc ptr nread (n + 1) s =
            .buserr (a + if inc then BitVec.ofNat 32 (nread + k) <<< 2 else 0) s' ∧
          s'.Stopped (w + if inc then BitVec.ofNat 30 k else 0) inc ∧
          s'.line.peer.target.mem = s.line.peer.target.mem := by
  -- on the words that are left; `k` of them are read before one fails
  induction n generalizing s ptr w nread with
  | zero =>
    rcases read_faulty at_ with ⟨s₁, t, word, at₁, spaced, peer, mem⟩ | ⟨fault, s₁, throws, stopped, mem⟩
    · refine .inl ⟨s₁, ?_, ?_, spaced, by rw [peer]; exact mem⟩
      · rw [readLoop, word]
        cases inc <;> simp [Outcome.rethrow, readLoop, named]
      · cases inc <;> simpa using at₁
    · refine .inr ⟨fun unfailing => fault (unfailing 0 (by omega)), 0, s₁, ?_, ?_, mem⟩
      · rw [readLoop, throws]
        rfl
      · cases inc <;> simpa using stopped
  | succ n ih =>
    rcases read_faulty at_ with ⟨s₁, t, word, at₁, -, peer, mem⟩ | ⟨fault, s₁, throws, stopped, mem⟩
    · have mem₁ : s₁.line.peer.target.mem = s.line.peer.target.mem := by
        rw [peer]
        exact mem
      rcases ih (nread + 1) at₁ with ⟨s', rest, at', spaced, mem'⟩ | ⟨fails, k, s', throws, stopped, mem'⟩
      · refine .inl ⟨s', ?_, ?_, spaced, mem'.trans mem₁⟩
        · rw [readLoop, word, named_succ]
          simp only [Outcome.rethrow, Outcome.andThen_ok, rest, mem₁, List.map_cons]
        · rwa [next_word] at at'
      · refine .inr ⟨fun unfailing => fails (unfailing.rest peer), k + 1, s', ?_, ?_, mem'.trans mem₁⟩
        · rw [readLoop, word]
          simp only [Outcome.rethrow, Outcome.andThen_ok, throws, Nat.add_right_comm nread 1 k]
          rfl
        · rwa [next_word] at stopped
    · refine .inr ⟨fun unfailing => fault (unfailing 0 (by omega)), 0, s₁, ?_, ?_, mem⟩
      · rw [readLoop, throws]
        rfl
      · cases inc <;> simpa using stopped

/-- A read returns what it names or throws where it has stopped. -/
theorem readv_faulty {s : Session Faulty} (rests : Rests s.sound) {w : BitVec 30} {inc : Bool} {n : Nat}
    (positive : 0 < n) (coherent : s.sound.Coherent (w ++ 0#2) inc) :
    (∃ s', s.readv (w ++ 0#2) inc n = .ok ((named w inc n).map s.line.peer.target.mem) s' ∧
        s'.sound.At [] (w + if inc then BitVec.ofNat 30 n else 0) inc ∧ s'.host.isspace = true ∧
        s'.line.peer.target.mem = s.line.peer.target.mem) ∨
      ¬ s.Unfailing n ∧
        ∃ v s', s.readv (w ++ 0#2) inc n = .buserr (v ++ 0#2) s' ∧ s'.Stopped v inc ∧
          s'.line.peer.target.mem = s.line.peer.target.mem := by
  obtain ⟨n, rfl⟩ : ∃ m, n = m + 1 := ⟨n - 1, by omega⟩
  let ready : Session Faulty := { s with host := { s.host with lastaddr := w ++ 0#2, addrSet := true, inc } }
  have at_ : ready.sound.At (s.host.encodeAddress ((w ++ 0#2) ||| if inc then 0 else 1)) w inc :=
    ⟨⟨rests.idle, rests.quiet, rests.spaces⟩, addressed_of_coherent coherent, rfl, rfl, rfl⟩
  have steps (k : Nat) : (w ++ 0#2) + (if inc then BitVec.ofNat 32 k <<< 2 else 0) =
      (w + if inc then BitVec.ofNat 30 k else 0) ++ 0#2 := by
    cases inc with
    | false => simp
    | true =>
      simp only [if_true]
      rw [word_add, ofNat_shift]
  rcases readLoop_faulty (w ++ 0#2) 0 n at_ with ⟨s', loop, at', spaced, mem⟩ | ⟨fails, k, s', throws, stopped, mem⟩
  · refine .inl ⟨s', ?_, at', spaced, mem⟩
    have expected : s'.host.lastaddr = (w ++ 0#2) + if inc then BitVec.ofNat 32 (n + 1) <<< 2 else 0 := by
      rw [steps]
      exact at'.lastaddr
    rw [readv, if_neg (by omega)]
    simp only [ready] at loop
    simp only [loop, Outcome.andThen_ok]
    rw [if_pos expected]
  · refine .inr ⟨fails, _, s', ?_, stopped, mem⟩
    rw [readv, if_neg (by omega), ← steps]
    simp only [ready, Nat.zero_add] at throws
    simp only [throws]
    rfl

/-! ### Writes -/

theorem digits_other {digits : Incoming} (all : ∀ x ∈ digits, isDigit x.1 = true) :
    ∀ x ∈ digits, x.1 ≠ HEXB_ERR ∧ x.1 ≠ HEXB_ACK := by
  intro x member
  have digit := all x member
  constructor <;> intro same <;> simp [same, isDigit, isdigit, islower, HEXB_ERR, HEXB_ACK] at digit

theorem spaces_other {spaces : Incoming} (all : ∀ x ∈ spaces, isspace x.1 = true) :
    ∀ x ∈ spaces, x.1 ≠ HEXB_ERR ∧ x.1 ≠ HEXB_ACK := by
  intro x member
  have space := all x member
  constructor <;> intro same <;> simp [same, isspace, HEXB_ERR, HEXB_ACK] at space

theorem acksAhead_acks {owed : Bool} {left : Nat} {text : Incoming} (acks : Acks owed left text) :
    acksAhead text = left := by
  induction acks with
  | nil => rfl
  | @space char late left text space _ ih =>
    obtain ⟨noError, noAck⟩ := @spaces_other [(char, late)] (by simpa using space) (char, late) (by simp)
    rw [acksAhead, if_neg noError, if_neg noAck, Nat.zero_add, ih]
  | ack late digits _ _ ih =>
    have skips := acksAhead_skip (digits_other digits)
    rw [acksAhead, if_neg (by decide), if_pos rfl, skips, ih, Nat.add_comm]

/-- The acknowledgements of the requests that have been answered, and no others, are under way. -/
theorem acksAhead_waiting {a : BitVec 32} {inc owed : Bool} {total : Nat} {h : Host} {text : Incoming}
    (waiting : Waiting a inc owed total h text) : h.nacks.toNat + h.pendingAck + acksAhead text ≤ total := by
  cases waiting with
  | @ahead spaces digits rest late value next quiet all shown _ acks none _ =>
    have nothing : h.pendingAck = 0 := by
      rcases quiet with spaced | fresh
      · simp [Host.pendingAck, spaced]
      · simp [Host.pendingAck, fresh, HEXB_ACK]
    have count : h.nacks.toNat = 0 := by
      rw [none]
      rfl
    have digit : ∀ x ∈ digits, isDigit x.1 = true := fun x member =>
      isDigit_of_mem_hex08 (shown ▸ List.mem_map_of_mem member)
    rw [acksAhead_skip (spaces_other all), acksAhead, if_neg (by decide), if_neg (by decide),
      acksAhead_skip (digits_other digit), acksAhead_acks acks]
    omega
  | @heard left _ counted hearing =>
    have count : h.nacks.toNat ≤ total - left := by
      rw [counted.nacks, BitVec.toNat_ofNat]
      exact Nat.mod_le _ _
    have le := counted.le
    -- an acknowledgement that is being read counts once, as pending or as ahead
    cases hearing with
    | between spaced acks =>
      rw [acksAhead_acks acks]
      simp only [Host.pendingAck, spaced, Bool.true_eq_false, and_false, if_false]
      omega
    | inside open_ pending all _ acks =>
      rw [acksAhead_skip (digits_other all), acksAhead_acks acks]
      simp only [Host.pendingAck, open_, pending, and_self, if_true]
      omega

theorem Awaits.error {δ : Type} [Peer δ] {s : Session δ} {a : BitVec 32} {inc : Bool} {n : Nat}
    (awaits : s.Awaits a inc n) {message : List (BitVec 8)} {d : δ}
    (received : Peer.receive s.line.peer message = (d, [[HEXB_ERR]])) : (s.send message).Doomed (n + 1) := by
  have one : (s.send message).line = Line.reply { s.line with peer := d } [HEXB_ERR] := by
    simp only [Session.send, Line.send, received, List.foldl_cons, List.foldl_nil]
  obtain ⟨late, word, tail, text, -⟩ := ({ s.line with peer := d } : Line δ).reply_spec HEXB_ERR []
  have count := acksAhead_waiting awaits
  rw [Doomed, one, text]
  refine .inr ⟨by simp, ?_⟩
  rw [acksAhead_error]
  exact Nat.lt_succ_of_le count

theorem write_error {δ : Type} [Peer δ] {s : Session δ} {ptr message : List (BitVec 8)} {w : BitVec 30} {inc : Bool}
    {d : δ} (quiet : s.host.Quiet) (spaces : ∀ x ∈ s.line.text, isspace x.1 = true) (none : s.host.nacks = 0)
    (received : Peer.receive s.line.peer message = (d, Target.addressReplies ptr w inc ++ [[HEXB_ERR]])) :
    (s.send message).Doomed 1 := by
  obtain ⟨before, late, word, tail, text, -, -, -, prior⟩ := send_replies received
  have nothing : acksAhead before = 0 := by
    have spaced := acksAhead_skip (spaces_other spaces)
    -- an address reply before the error holds no acknowledgement either
    rcases prior with ⟨-, rfl⟩ | ⟨late, digits, tail, owed, rfl, shown, ending⟩
    · simpa [acksAhead] using spaced []
    · have digit : ∀ x ∈ digits, isDigit x.1 = true := fun x member =>
        isDigit_of_mem_hex08 (shown ▸ List.mem_map_of_mem member)
      have ends := acksAhead_skip (spaces_other ending.spaces) []
      rw [List.append_nil] at ends
      rw [spaced, acksAhead, if_neg (by decide), if_neg (by decide), acksAhead_skip (digits_other digit), ends]
      rfl
  have idle : s.host.pendingAck = 0 := by
    rcases quiet with spaced | fresh
    · simp [Host.pendingAck, spaced]
    · simp [Host.pendingAck, fresh, HEXB_ACK]
  rw [Doomed, text]
  refine .inr ⟨by simp, ?_⟩
  have same : (s.send message).host = s.host := rfl
  rw [acksAhead_error, nothing, same, idle, none]
  decide

/-- The first message of a write. -/
theorem write_first_faulty {s : Session Faulty} (rests : Rests s.sound) {w : BitVec 30} {inc : Bool} (value : BitVec 32)
    (coherent : s.sound.Coherent (w ++ 0#2) inc) (spaced : s.sound.Skips (w ++ 0#2) inc → s.host.isspace = true)
    (whole : InOnePiece (s.send (s.host.encodeAddress ((w ++ 0#2) ||| if inc then 0 else 1) ++
      writeMessage value)).line.text) :
    let ready := { s with host := { s.host with lastaddr := w ++ 0#2, addrSet := true, nacks := 0 } }
    let sent := ready.send (s.host.encodeAddress ((w ++ 0#2) ||| if inc then 0 else 1) ++ writeMessage value)
    sent.Awaits (w ++ 0#2) inc 1 ∧
        sent.line.peer = s.line.peer.after (({ s.line.peer.target with addr := w, inc } : Target).write value) ∨
      s.line.peer.faults 0 ≠ none ∧ sent.Doomed 1 := by
  intro ready sent
  have idle : s.line.peer.target.partly = none := rests.idle
  obtain ⟨digits, message, read⟩ := writeMessage_eq value
  have addressed : s.line.peer.target.Addressed (s.host.encodeAddress ((w ++ 0#2) ||| if inc then 0 else 1)) w inc :=
    addressed_of_coherent coherent
  have letter : (Kind.letter .W).setWidth 8 = HEXB_WRITE := rfl
  cases fault : s.line.peer.faults 0 with
  | none =>
    have executes := Target.execute_write { s.line.peer.target with addr := w, inc } value
    rw [← read] at executes
    have received := Faulty.receive_answered idle addressed (.inr rfl) digits fault executes
    rw [letter, ← message, read] at received
    exact .inl (@write_reply _ _ ready _ _ _ _ _ rests.quiet rests.spaces rfl rfl rfl
      (fun skips => ⟨@skips_mode s.host w inc skips, spaced skips⟩) received whole)
  | some accepted =>
    have received := Faulty.receive_failed idle addressed (.inr rfl) digits fault
    rw [letter, ← message] at received
    exact .inr ⟨by simp, @write_error _ _ ready _ _ _ _ _ rests.quiet rests.spaces rfl received⟩

/-- Every further message of a write. -/
theorem write_next_faulty {s : Session Faulty} {a : BitVec 32} {inc : Bool} {n : Nat} (awaits : s.Awaits a inc n)
    (idle : s.line.peer.target.partly = none) (value : BitVec 32) :
    (s.send (writeMessage value)).Awaits a inc (n + 1) ∧
        (s.send (writeMessage value)).line.peer = s.line.peer.after (s.line.peer.target.write value) ∨
      s.line.peer.faults 0 ≠ none ∧ (s.send (writeMessage value)).Doomed (n + 1) := by
  obtain ⟨digits, message, read⟩ := writeMessage_eq value
  have addressed : s.line.peer.target.Addressed [] s.line.peer.target.addr s.line.peer.target.inc :=
      .inl ⟨rfl, rfl, rfl⟩
  have letter : (Kind.letter .W).setWidth 8 = HEXB_WRITE := rfl
  cases fault : s.line.peer.faults 0 with
  | none =>
    have executes := Target.execute_write s.line.peer.target value
    rw [← read] at executes
    have received := Faulty.receive_answered idle addressed (.inr rfl) digits fault executes
    rw [List.nil_append, letter, ← message, read] at received
    exact .inl (awaits.reply received)
  | some accepted =>
    have received := Faulty.receive_failed idle addressed (.inr rfl) digits fault
    rw [List.nil_append, letter, ← message] at received
    exact .inr ⟨by simp, awaits.error received⟩

theorem writeLoop_faulty {a : BitVec 32} {inc : Bool} (buf : List (BitVec 32)) {n : Nat} {s : Session Faulty}
    (awaits : s.Awaits a inc n) (idle : s.line.peer.target.partly = none) (small : n + buf.length < 2 ^ 32) :
    (∃ s', writeLoop [] n buf s = .ok () s' ∧ s'.Awaits a inc (n + buf.length) ∧
        s'.line.peer.target = buf.foldl Target.write s.line.peer.target) ∨
      ¬ s.Unfailing buf.length ∧ (writeLoop [] n buf s).Ends (fun _ s' => s'.Doomed (n + buf.length))
        fun s' => s'.host.Erring := by
  induction buf generalizing n s with
  | nil => exact .inl ⟨s, rfl, awaits, rfl⟩
  | cons value buf ih =>
    rw [List.length_cons] at small
    have length : n + (value :: buf).length = n + 1 + buf.length := by
      rw [List.length_cons]
      omega
    rw [length, writeLoop, List.nil_append]
    rcases write_next_faulty awaits idle value with ⟨awaits₁, peer₁⟩ | ⟨fault, doomed⟩
    · obtain ⟨s₂, waited, awaits₂, peer₂, -⟩ := waitAcks_spec awaits₁ (Nat.le_succ n) (by omega)
        (patience_rounds (s.send (writeMessage value)))
      have peer := peer₂.trans peer₁
      simp only [waited, Outcome.andThen_ok]
      rcases ih awaits₂ (by rw [peer]; exact idle) (by omega) with ⟨s', rest, awaits', peer'⟩ | ⟨fails, ends⟩
      · refine .inl ⟨s', rest, awaits', ?_⟩
        rw [peer', peer]
        rfl
      · exact .inr ⟨fun unfailing => fails (unfailing.rest peer), ends⟩
    · -- the loop may send one more message before it meets the error, and that does not help
      have later : (s.send (writeMessage value)).Doomed (n + 1 + buf.length) := doomed.mono (by omega)
      refine .inr ⟨fun unfailing => fault (unfailing 0 (by simp)), ?_⟩
      refine Outcome.Ends.andThen (later.waitAcks (by omega) _ _) ?_
      rintro _ s₂ ⟨doomed₂, -⟩
      exact doomed₂.writeLoop (by omega) buf [] (n + 1)

/-- A write returns when all is written, or fails in the middle of an error reply. -/
theorem writev_faulty {s : Session Faulty} (rests : Rests s.sound) {w : BitVec 30} {inc : Bool}
    {buf : List (BitVec 32)} (positive : 0 < buf.length) (small : buf.length < 2 ^ 31)
    (coherent : s.sound.Coherent (w ++ 0#2) inc) (spaced : s.sound.Skips (w ++ 0#2) inc → s.host.isspace = true)
    (whole : InOnePiece (s.send (s.host.encodeAddress ((w ++ 0#2) ||| if inc then 0 else 1) ++
      writeMessage (buf.headD 0))).line.text) :
    (∃ s', s.writev (w ++ 0#2) inc buf = .ok () s' ∧ Rests s'.sound ∧ s'.host.isspace = true ∧
        s'.host.addrSet = true ∧ s'.host.inc = inc ∧
        s'.host.lastaddr = (w ++ 0#2) + (if inc then BitVec.ofNat 32 (8 * buf.length) else 0) ∧
        s'.line.peer.target = { s.line.peer.target with
          addr := w + if inc then BitVec.ofNat 30 buf.length else 0
          inc, mem := store s.line.peer.target.mem ((named w inc buf.length).zip buf) }) ∨
      ¬ s.Unfailing buf.length ∧
        (s.writev (w ++ 0#2) inc buf).Ends (fun _ _ => False) fun s' => s'.host.Erring := by
  obtain ⟨value, buf, rfl⟩ : ∃ value rest, buf = value :: rest := by
    cases buf with
    | nil => simp at positive
    | cons value buf => exact ⟨value, buf, rfl⟩
  have length : (value :: buf).length = 1 + buf.length := by rw [List.length_cons, Nat.add_comm]
  have idle : s.line.peer.target.partly = none := rests.idle
  rcases write_first_faulty rests value coherent spaced whole with ⟨awaits₁, peer₁⟩ | ⟨fault, doomed⟩
  · obtain ⟨s₂, waited₂, awaits₂, peer₂, -⟩ := waitAcks_spec awaits₁ (Nat.zero_le 1) (by decide) (patience_rounds _)
    have peer := peer₂.trans peer₁
    have first : writeLoop (s.host.encodeAddress ((w ++ 0#2) ||| if inc then 0 else 1)) 0 (value :: buf)
        { s with host := { s.host with lastaddr := w ++ 0#2, addrSet := true, nacks := 0 } } =
          writeLoop [] 1 buf s₂ := by
      rw [writeLoop]
      exact congrArg (Outcome.andThen · _) waited₂
    rcases writeLoop_faulty buf awaits₂ (by rw [peer]; exact idle) (by omega) with
      ⟨s₃, rest, awaits₃, peer₃⟩ | ⟨fails, doomed⟩
    · rw [← length] at awaits₃
      obtain ⟨s', writes, spaced', addrSet, mode, lastaddr, peer', spaces⟩ :=
        writev_returns positive small (first.trans rest) awaits₃
      have target : s'.line.peer.target = { s.line.peer.target with
          addr := w + if inc then BitVec.ofNat 30 (value :: buf).length else 0
          inc, mem := store s.line.peer.target.mem ((named w inc (value :: buf).length).zip (value :: buf)) } := by
        rw [peer', peer₃, peer, Faulty.after, ← List.foldl_cons, foldl_write]
      have idle' : s'.sound.line.peer.partly = none := (congrArg Target.partly target).trans idle
      exact .inl ⟨s', writes, ⟨idle', .inl spaced', spaces⟩, spaced', addrSet, mode, lastaddr, target⟩
    · rw [← length, ← first] at doomed
      refine .inr ⟨fun unfailing => ?_, doomed_writev small doomed⟩
      rw [List.length_cons] at unfailing
      exact fails (unfailing.rest peer)
  · refine .inr ⟨fun unfailing => fault (unfailing 0 (by simp)), doomed_writev small ?_⟩
    rw [writeLoop]
    refine Outcome.Ends.andThen (Doomed.waitAcks (by omega) _ _ (Hexbus.Doomed.mono doomed positive)) ?_
    rintro _ s₂ ⟨doomed₂, -⟩
    exact doomed₂.writeLoop (by omega) buf [] 1

end Session

end IcoZip.Hexbus
