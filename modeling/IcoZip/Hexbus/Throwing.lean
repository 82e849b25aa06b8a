import IcoZip.Hexbus.Erring
import IcoZip.Hexbus.Tokens
import IcoZip.Library.Clocked

/-! Error replies and the calls that throw because of them.

The state of the parser is carried from call to call, so the calls are one run
of characters, each read by one of the two readers. An error reply ends with the
first character behind it that is no digit; this is where it is to be thrown.
-/

set_option autoImplicit false

namespace IcoZip.Hexbus

/-! ### The run of the readers -/

inductive Reader where
  | readword
  | readidle
  deriving DecidableEq, Repr

/-- One character that is read. -/
structure Reading where
  reader : Reader
  /-- It is the first of a call, to which the host came in this state. -/
  starts : Option Host
  char : BitVec 8

/-- The host and the variables of the call. -/
structure Parser where
  host : Host
  word : BitVec 32
  countdown : Nat
  deriving DecidableEq, Repr

namespace Parser

/-- A call begins. Between the calls everything can change but the command and the space. -/
def enter (p : Parser) (i : Reading) : Parser :=
  match i.starts with
  | none => p
  | some h => { host := { h with cmd := p.host.cmd, isspace := p.host.isspace }, word := 0, countdown := 3 }

/-- A character of a call, and what the call throws. -/
def take (p : Parser) (reader : Reader) (char : BitVec 8) : Parser × Option (BitVec 32) :=
  match reader with
  | .readword =>
    match readwordChar p.host p.word p.countdown char with
    | .more host word countdown => ({ host, word, countdown }, none)
    | .done host _ => ({ p with host }, none)
    | .throw host addr => ({ p with host }, some addr)
  | .readidle =>
    match readidleChar p.host p.word char with
    | .more host word => ({ p with host, word }, none)
    | .throw host addr => ({ p with host }, some addr)

def step (p : Parser) (i : Reading) : Parser := ((p.enter i).take i.reader i.char).1

def thrown (p : Parser) (i : Reading) : Option (BitVec 32) := ((p.enter i).take i.reader i.char).2

/-- `readword` has counted three idle replies. -/
def Aborts (p : Parser) (i : Reading) : Prop :=
  i.reader = .readword ∧ isDigit i.char = false ∧ (p.enter i).host.pending = some HEXB_IDLE ∧
    (p.enter i).countdown - 1 = 0

instance (p : Parser) (i : Reading) : Decidable (p.Aborts i) :=
  inferInstanceAs (Decidable (_ ∧ _ ∧ _ ∧ _))

end Parser

/-! ### Calls -/

/-- Characters that one call reads. -/
def through (reader : Reader) (chars : List (BitVec 8)) : List Reading :=
  chars.map fun char => { reader, starts := none, char }

/-- The characters bring the parser to a host, and these addresses are thrown. -/
def Parser.Runs (p : Parser) (reader : Reader) (chars : List (BitVec 8)) (h : Host) (errors : List (BitVec 32)) :
    Prop :=
  (Clocked.run Parser.step p (through reader chars)).host = h ∧
    Clocked.emitted Parser.step (fun p i => (p.thrown i).toList) p (through reader chars) = errors

/-- A call is a run of the characters it takes from the text; it throws if one of them does, and with that ends. -/
def Parser.Calls {α : Type} (p : Parser) (reader : Reader) (text : Incoming) : Outcome (Host × Incoming) α → Prop
  | .ok _ (h, rest) => ∃ chars, text.map Prod.fst = chars ++ rest.map Prod.fst ∧ p.Runs reader chars h []
  | .buserr addr (h, rest) => ∃ chars, text.map Prod.fst = chars ++ rest.map Prod.fst ∧ p.Runs reader chars h [addr]
  | .lost => True

section
variable {α : Type} {p q : Parser} {reader : Reader} {char : BitVec 8} {late : Bool} {text : Incoming}

/-- One more character in front. -/
theorem Parser.Calls.cons {o : Outcome (Host × Incoming) α} (step : p.take reader char = (q, none))
    (calls : q.Calls reader text o) : p.Calls reader ((char, late) :: text) o := by
  have runs {chars : List (BitVec 8)} {h : Host} {errors : List (BitVec 32)} (runs : q.Runs reader chars h errors) :
      p.Runs reader (char :: chars) h errors := by
    have stepped : p.step { reader, starts := none, char } = q := congrArg Prod.fst step
    have silent : p.thrown { reader, starts := none, char } = none := congrArg Prod.snd step
    simpa [Runs, through, stepped, silent] using runs
  cases o with
  | ok value r =>
    obtain ⟨chars, shown, now⟩ := calls
    exact ⟨char :: chars, by simp [shown], runs now⟩
  | buserr addr r =>
    obtain ⟨chars, shown, now⟩ := calls
    exact ⟨char :: chars, by simp [shown], runs now⟩
  | lost => trivial

/-- The last character of a call. -/
theorem Parser.runs_last {o : Option (BitVec 32)} (step : p.take reader char = (q, o)) :
    p.Runs reader [char] q.host o.toList := by
  have stepped : p.step { reader, starts := none, char } = q := congrArg Prod.fst step
  have throws : p.thrown { reader, starts := none, char } = o := congrArg Prod.snd step
  simp [Runs, through, stepped, throws]

theorem readwordLoop_calls {h : Host} {word : BitVec 32} {countdown : Nat} {o : Outcome (Host × Incoming) (BitVec 32)}
    (loop : readwordLoop h word countdown text = .inr o) :
    (Parser.mk h word countdown).Calls .readword text o := by
  induction text generalizing h word countdown with
  | nil => simp [readwordLoop] at loop
  | cons x text ih =>
    obtain ⟨char, late⟩ := x
    rw [readwordLoop] at loop
    cases step : readwordChar h word countdown char with
    | more h' word' countdown' =>
      rw [step] at loop
      exact (ih loop).cons (by simp only [Parser.take, step])
    | done h' result =>
      rw [step] at loop
      obtain rfl : .ok result (h', text) = o := Sum.inr.inj loop
      have taken : (Parser.mk h word countdown).take .readword char = (⟨h', word, countdown⟩, none) := by
        simp only [Parser.take, step]
      exact ⟨[char], rfl, Parser.runs_last taken⟩
    | throw h' addr =>
      rw [step] at loop
      obtain rfl : .buserr addr (h', text) = o := Sum.inr.inj loop
      have taken : (Parser.mk h word countdown).take .readword char = (⟨h', word, countdown⟩, some addr) := by
        simp only [Parser.take, step]
      exact ⟨[char], rfl, Parser.runs_last taken⟩

theorem readidleLoop_calls (h : Host) (word : BitVec 32) (countdown : Nat) (text : Incoming) :
    (Parser.mk h word countdown).Calls .readidle text (readidleLoop h word text) := by
  induction text generalizing h word with
  | nil => exact ⟨[], rfl, rfl, rfl⟩
  | cons x text ih =>
    obtain ⟨char, late⟩ := x
    cases late with
    | true => exact ⟨[], rfl, rfl, rfl⟩
    | false =>
      simp only [readidleLoop, Bool.false_eq_true, if_false]
      cases step : readidleChar h word char with
      | more h' word' => exact (ih h' word').cons (by simp only [Parser.take, step])
      | throw h' addr =>
        have taken : (Parser.mk h word countdown).take .readidle char = (⟨h', word, countdown⟩, some addr) := by
          simp only [Parser.take, step]
        exact ⟨[char], rfl, Parser.runs_last taken⟩

end

/-! ### The error replies of the stream -/

/-- Where a stream is, and which of its characters began the error reply it is in. -/
structure Place where
  index : Nat
  error : Option Nat
  deriving DecidableEq, Repr

namespace Place

def step (s : Place) (char : BitVec 8) : Place :=
  { index := s.index + 1
    error := if isDigit char then s.error else if char = HEXB_ERR then some s.index else none }

/-- The error reply that ends with this character. -/
def ended (s : Place) (char : BitVec 8) : Option Nat := if isDigit char then none else s.error

/-- The error reply that begins with this character. -/
def begun (s : Place) (char : BitVec 8) : Option Nat := if char = HEXB_ERR then some s.index else none

/-- Every error reply that begins ends, or is still there. -/
theorem ended_begun (s : Place) (char : BitVec 8) :
    (s.ended char).toList ++ (s.step char).error.toList = s.error.toList ++ (s.begun char).toList := by
  have letter : isDigit HEXB_ERR = false := rfl
  by_cases digit : isDigit char = true
  · have other : char ≠ HEXB_ERR := fun same => by simp [same, letter] at digit
    simp [ended, step, begun, digit, other]
  · simp [ended, step, begun, digit]

end Place

/-- The readers and the stream they read. -/
def together (x : Parser × Place) (i : Reading) : Parser × Place := (x.1.step i, x.2.step i.char)

/-- The host is in the error reply that the stream is in. -/
def Tracks (x : Parser × Place) : Prop := x.1.host.pending = some HEXB_ERR ↔ x.2.error ≠ none

/-- What is thrown: the address, where an error reply ends, and zero where `readword` gives up. -/
def Reports (x : Parser × Place) (i : Reading) : Prop :=
  x.1.thrown i = if x.2.ended i.char ≠ none then some (x.1.enter i).host.lastaddr
    else if x.1.Aborts i then some 0 else none

/-- The error reply because of which a call throws. -/
def blamed (x : Parser × Place) (i : Reading) : List Nat :=
  if x.1.thrown i = none ∨ x.1.Aborts i then [] else x.2.error.toList

/-- An error reply is ended by a character that `readword` reads, is not taken up again by a digit behind a space,
and does not begin with the character at which `readword` gives up. -/
structure Calm (p : Parser) (i : Reading) : Prop where
  ends : p.host.pending = some HEXB_ERR → isDigit i.char = false → i.reader = .readword
  closed : i.reader = .readword → isDigit i.char = true → p.host.isspace = true → p.host.cmd ≠ HEXB_ERR
  kept : p.Aborts i → i.char ≠ HEXB_ERR

namespace Parser
variable {p : Parser} {i : Reading}

theorem enter_kept : (p.enter i).host.cmd = p.host.cmd ∧ (p.enter i).host.isspace = p.host.isspace := by
  rw [enter]
  cases i.starts <;> exact ⟨rfl, rfl⟩

theorem enter_pending : (p.enter i).host.pending = p.host.pending := by
  rw [Host.pending, enter_kept.1, enter_kept.2, Host.pending]

theorem thrown_eq : p.thrown i = ((p.enter i).take i.reader i.char).2 := rfl

theorem step_eq : p.step i = ((p.enter i).take i.reader i.char).1 := rfl

/-- A digit never throws, and behind a space `readword` takes up the reply again. -/
theorem take_digit (reader : Reader) {char : BitVec 8} (digit : isDigit char = true) :
    (p.take reader char).2 = none ∧ (p.take reader char).1.host.pending =
      if reader = .readword then some p.host.cmd else p.host.pending := by
  have first : (isdigit char || islower char) = true := digit
  cases reader with
  | readword =>
    rw [if_pos rfl, take, readwordChar, if_pos first]
    exact ⟨rfl, Host.pending_open rfl⟩
  | readidle =>
    rw [if_neg (by decide), take, readidleChar, if_pos first]
    exact ⟨rfl, rfl⟩

/-- Where an error reply ends, `readword` throws and is done with it. -/
theorem take_error {char : BitVec 8} (next : isDigit char = false) (pending : p.host.pending = some HEXB_ERR) :
    (p.take .readword char).2 = some p.host.lastaddr ∧ (p.take .readword char).1.host.pending = opens char := by
  rw [take, readwordChar_error next pending]
  exact ⟨rfl, Host.token_pending char⟩

/-- Where another reply ends, neither reader throws but to give up. -/
theorem take_next {reader : Reader} {char : BitVec 8} (next : isDigit char = false)
    (other : p.host.pending ≠ some HEXB_ERR) :
    if reader = .readword ∧ p.host.pending = some HEXB_IDLE ∧ p.countdown - 1 = 0 then
      (p.take reader char).2 = some 0 ∧ (p.take reader char).1.host.pending = some HEXB_IDLE
    else (p.take reader char).2 = none ∧ (p.take reader char).1.host.pending = opens char := by
  cases reader with
  | readidle =>
    obtain ⟨h', word', step, pending, -⟩ := @readidleChar_next p.host p.word char next other
    rw [if_neg (by simp), take, step]
    exact ⟨rfl, pending⟩
  | readword =>
    by_cases data : p.host.pending = some HEXB_READ
    · rw [if_neg (by simp [data, HEXB_READ, HEXB_IDLE]), take, readwordChar_data next data]
      exact ⟨rfl, Host.token_pending char⟩
    split_ifs with gives
    · rw [take, readwordChar_idle next gives.2.1 gives.2.2]
      exact ⟨rfl, gives.2.1⟩
    · have patient : p.host.pending = some HEXB_IDLE → 1 < p.countdown := fun idle => by
        have : ¬ p.countdown - 1 = 0 := fun last => gives ⟨rfl, idle, last⟩
        omega
      obtain ⟨h', step, pending, -⟩ := @readwordChar_next p.host p.word char p.countdown next data other patient
      rw [take, step]
      exact ⟨rfl, pending⟩

end Parser

section
variable {x : Parser × Place} {i : Reading}

theorem opens_error (char : BitVec 8) : opens char = some HEXB_ERR ↔ char = HEXB_ERR := by
  rw [opens]
  split_ifs with space
  · refine iff_of_false (by simp) ?_
    rintro rfl
    exact absurd space (by decide)
  · simp

/-- What one character does: it throws where it is to, and host and stream stay in the same error reply. -/
theorem reports_step (tracks : Tracks x) (calm : Calm x.1 i) : Reports x i ∧ Tracks (together x i) := by
  have pending : (x.1.enter i).host.pending = x.1.host.pending := Parser.enter_pending
  by_cases digit : isDigit i.char = true
  · obtain ⟨silent, goes⟩ := @Parser.take_digit (x.1.enter i) i.reader i.char digit
    have running : ¬ x.1.Aborts i := fun aborts => by simp [aborts.2.1] at digit
    refine ⟨?_, ?_⟩
    · rw [Reports, Parser.thrown_eq, silent]
      simp [Place.ended, digit, running]
    · rw [Tracks, together, Parser.step_eq, goes, pending, Parser.enter_kept.1, Place.step, if_pos digit]
      split_ifs with word
      · cases closed : x.1.host.isspace with
        | false => rwa [← Host.pending_open closed]
        | true =>
          have none_ : x.1.host.pending = none := Host.pending_closed closed
          have other : x.1.host.cmd ≠ HEXB_ERR := calm.closed word digit closed
          rw [Tracks, none_] at tracks
          simpa [other] using tracks
      · exact tracks
  have next : isDigit i.char = false := Bool.not_eq_true _ ▸ digit
  have begins (goes : (x.1.step i).host.pending = opens i.char) : Tracks (together x i) := by
    rw [Tracks, together, goes, opens_error, Place.step, if_neg digit]
    simp
  by_cases error : x.1.host.pending = some HEXB_ERR
  · have word : i.reader = .readword := calm.ends error next
    obtain ⟨throws, goes⟩ := Parser.take_error next (pending.trans error)
    rw [← word] at throws goes
    have open_ : x.2.ended i.char ≠ none := by
      rw [Place.ended, if_neg digit]
      exact tracks.mp error
    exact ⟨by rw [Reports, Parser.thrown_eq, throws, if_pos open_], begins goes⟩
  have ended : ¬ x.2.ended i.char ≠ none := by
    rw [Place.ended, if_neg digit]
    exact fun open_ => error (tracks.mpr open_)
  rw [Reports, if_neg ended]
  have takes := @Parser.take_next (x.1.enter i) i.reader i.char next (pending ▸ error)
  by_cases aborts : x.1.Aborts i
  · rw [if_pos ⟨aborts.1, aborts.2.2⟩] at takes
    refine ⟨by rw [Parser.thrown_eq, takes.1, if_pos aborts], ?_⟩
    rw [Tracks, together, Parser.step_eq, takes.2, Place.step, if_neg digit, if_neg (calm.kept aborts)]
    simp [HEXB_IDLE, HEXB_ERR]
  · rw [if_neg fun gives => aborts ⟨gives.1, next, gives.2⟩] at takes
    exact ⟨by rw [Parser.thrown_eq, takes.1, if_neg aborts], begins takes.2⟩

/-- What is thrown because of error replies are the replies that end. -/
theorem blamed_eq (reports : Reports x i) (tracks : Tracks x) : blamed x i = (x.2.ended i.char).toList := by
  rw [Reports] at reports
  cases ended : x.2.ended i.char with
  | none =>
    rw [ended, if_neg (by simp)] at reports
    rw [blamed, reports]
    split_ifs <;> simp_all
  | some error =>
    rw [ended, if_pos (by simp)] at reports
    have open_ : x.2.error = some error := by
      rw [Place.ended] at ended
      split_ifs at ended
      exact ended
    have running : ¬ x.1.Aborts i := fun aborts => by
      have idle := aborts.2.2.1
      rw [Parser.enter_pending, tracks.mpr (by simp [open_])] at idle
      exact absurd idle (by decide)
    rw [blamed, reports, if_neg (by simp [running]), open_]

end

/-- In a calm run every error reply is thrown where it ends and nowhere else, with the address of that moment, and
nothing is thrown beside but where `readword` gives up. -/
theorem errors_thrown_once {x : Parser × Place} {is : List Reading} (start : Tracks x)
    (calm : Clocked.Always together (fun x i => Calm x.1 i) x is) :
    Clocked.Always together Reports x is ∧
      Clocked.emitted together blamed x is ++ (Clocked.run together x is).2.error.toList =
        x.2.error.toList ++ Clocked.emitted together (fun x i => (x.2.begun i.char).toList) x is := by
  have kept : ∀ x i, Tracks x → Calm x.1 i → Tracks (together x i) := fun x i tracks calm =>
    (reports_step tracks calm).2
  refine ⟨(calm.with_invariant kept start).mono fun x i now => (reports_step now.1 now.2).1, ?_⟩
  have law (x : Parser × Place) (i : Reading) (tracks : Tracks x) (calm : Calm x.1 i) :
      blamed x i ++ (together x i).2.error.toList = x.2.error.toList ++ (x.2.begun i.char).toList := by
    rw [blamed_eq (reports_step tracks calm).1 tracks]
    exact x.2.ended_begun i.char
  exact @Clocked.conservation _ _ _ together (fun x i => Calm x.1 i) Tracks blamed _ (fun x => x.2.error.toList)
    kept law x is start calm

/-- An error reply that `readword` reads to its end, and a call of `readidle` behind it. -/
def readwordError : List Reading :=
  [{ reader := .readword, starts := some (Host.init 0x40 true true), char := HEXB_ERR },
    { reader := .readword, starts := none, char := 0x0d },
    { reader := .readidle, starts := some (Host.init 0x80 true true), char := 0x0a }]

def freshReaders : Parser × Place :=
  ({ host := Host.init 0 true true, word := 0, countdown := 3 }, { index := 0, error := none })

/-- The call of `readword` throws because of it, and the one of `readidle` does not. -/
theorem readwordError_thrown : Clocked.Always together Reports freshReaders readwordError ∧
    Clocked.emitted together blamed freshReaders readwordError = [0] ∧
    ∃ h h', (Parser.mk (Host.init 0x40 true true) 0 3).Runs .readword [HEXB_ERR, 0x0d] h [0x40] ∧
      (Parser.mk { h with lastaddr := 0x80 } 0 3).Runs .readidle [0x0a] h' [] := by
  have calm : Clocked.Always together (fun x i => Calm x.1 i) freshReaders readwordError :=
    ⟨⟨by decide, by decide, by decide⟩, ⟨by decide, by decide, by decide⟩, ⟨by decide, by decide, by decide⟩, trivial⟩
  obtain ⟨reports, once⟩ := errors_thrown_once (by unfold Tracks; decide) calm
  have ends : (Clocked.run together freshReaders readwordError).2.error = none := by decide
  rw [ends] at once
  refine ⟨reports, (List.append_nil _).symm.trans once, ?_⟩
  let h := { Host.init 0x40 true true with busErr := true, cmd := HEXB_ERR }
  obtain ⟨chars, shown, throws⟩ : (Parser.mk (Host.init 0x40 true true) 0 3).Calls .readword
      [(HEXB_ERR, false), (0x0d, false)] (.buserr 0x40 (h, []) : Outcome _ (BitVec 32)) := readwordLoop_calls rfl
  obtain ⟨chars', shown', quiet⟩ := readidleLoop_calls { h with lastaddr := 0x80 } 0 3 [(0x0a, false)]
  obtain rfl : chars = [HEXB_ERR, 0x0d] := (shown.trans (List.append_nil chars)).symm
  obtain rfl : chars' = [0x0a] := (shown'.trans (List.append_nil chars')).symm
  exact ⟨h, _, throws, quiet⟩

/-- `readidle` throws twice, in two calls, because of one error reply. -/
theorem readidle_throws_twice : ∃ h₁ h₂,
    readidleLoop (Host.init 0x40 true true) 0 [(HEXB_ERR, false), (0x0d, false), (0x0a, false)] =
        .buserr 0x40 (h₁, [(0x0a, false)]) ∧
      readidleLoop h₁ 0 [(0x0a, false)] = .buserr 0x40 (h₂, []) :=
  ⟨_, _, rfl, rfl⟩

end IcoZip.Hexbus
