import IcoZip.Hexbus.Faulty

/-! Calls after a call that has failed.

A read with increments that fails leaves the host one word behind the device,
and a retry at the address that `BUSERR` names acts on the next word. After a
write that fails the host throws on every token it meets, and a read that
throws so leaves its own answer on the line. Runs that do neither go on as
if nothing had failed.
-/

set_option autoImplicit false

namespace IcoZip.Hexbus

namespace Call
open Session (Skips Coherent Rests Settled Stopped named store)

def perform (s : Session Faulty) : Call → Outcome (Session Faulty) (List (BitVec 32))
  | .readio a => s.readio a
  | .readi a len => s.readi a len
  | .readz a len => s.readz a len
  | .writeio a v => (s.writeio a v).andThen fun _ s => .ok [] s
  | .writei a buf => (s.writei a buf).andThen fun _ s => .ok [] s
  | .writez a buf => (s.writez a buf).andThen fun _ s => .ok [] s

def writes : Call → Bool
  | .readio _ | .readi _ _ | .readz _ _ => false
  | _ => true

/-- Aligned, with a length that an `int` can hold, and something to write. -/
structure Legal (c : Call) : Prop where
  aligned : Aligned c.addr
  small : c.count < 2 ^ 31
  nonempty : c.writes = true → 0 < c.count

/-- The answer to the address of a write is not split by the end of a `readidle`. -/
def Whole (s : Session Faulty) (c : Call) : Prop :=
  let message (v : BitVec 32) := s.host.encodeAddress (c.addr ||| if c.inc then 0 else 1) ++ Session.writeMessage v
  match c with
  | .writeio _ v => InOnePiece (s.send (message v)).line.text
  | .writei _ buf | .writez _ buf => InOnePiece (s.send (message (buf.headD 0))).line.text
  | _ => True

/-! ### What the calls so far leave behind -/

inductive Wake where
  /-- Nothing, or the last call has returned. -/
  | clean (previous : Option Call)
  /-- A read with increments has failed at an address. -/
  | misread (addr : BitVec 32)
  /-- A write has failed. -/
  | erring
  /-- A read has been made after that. -/
  | stale
  deriving DecidableEq, Repr

namespace Wake

/-- What a call leaves behind that has returned, or has thrown at an address. -/
def after (wake : Wake) (c : Call) (thrown : Option (BitVec 32)) : Wake :=
  if c.count = 0 then wake
  else
    match wake, thrown with
    | .stale, _ => .stale
    | .erring, _ => if c.writes then .erring else .stale
    | _, none => .clean (some c)
    | _, some addr => if c.writes then .erring else if c.inc then .misread addr else .clean none

/-- The calls that may be made next. A read that has failed is not followed by one with increments at the
address that has been named, unless the slave had not accepted the request and the device still stands there. -/
def Admits (wake : Wake) (s : Session Faulty) (c : Call) : Prop :=
  match wake with
  | .clean previous => c.Follows previous ∧ c.Whole s
  | .misread addr =>
    (c.inc = true → c.addr = addr → s.line.peer.target.addr = wordAddr addr) ∧ c.Whole s
  | .erring => True
  | .stale => False

end Wake

/-- The host stands where a read has failed; the device may be behind it. -/
structure Misread (addr : BitVec 32) (s : Session Faulty) : Prop extends Rests s.sound where
  spaced : s.host.isspace = true
  aligned : Aligned addr
  lastaddr : s.host.lastaddr = addr
  deviceMode : s.line.peer.target.inc = true

/-- What is known of the state that is left behind. -/
def Wake.Holds (wake : Wake) (s : Session Faulty) : Prop :=
  match wake with
  | .clean previous => Settled previous s.sound
  | .misread addr => Misread addr s
  | .erring => s.host.Erring
  | .stale => True

section
variable {s : Session Faulty} {c : Call}

theorem Misread.coherent {addr : BitVec 32} (misread : Misread addr s) (aligned : Aligned c.addr)
    (moved : c.inc = true → c.addr = addr → s.line.peer.target.addr = wordAddr addr) :
    s.sound.Coherent c.addr c.inc := by
  intro skips
  obtain ⟨w, there⟩ : ∃ w, c.addr = w ++ 0#2 := ⟨_, aligned_eq aligned⟩
  rw [Skips, there] at skips
  rcases Session.encodeAddress_eq s.host w c.inc with ⟨-, -, known, -⟩ | sends
  · rw [misread.lastaddr] at known
    -- an address without increments is always sent
    cases incs : c.inc with
    | false =>
      rw [incs] at known
      exact absurd (known ▸ misread.aligned) (Session.addressWord_fixed w)
    | true =>
      rw [incs, Session.addressWord_inc] at known
      have same : c.addr = addr := there.trans known
      exact ⟨by rw [same]; exact moved incs same, misread.deviceMode⟩
  · have never : ([] : List (BitVec 8)) = _ := skips.symm.trans sends
    simp at never

/-- A call that is admitted, except after a write that has failed, finds nothing half read, and the device
where it leaves the address out. -/
theorem Wake.ready {wake : Wake} (holds : wake.Holds s) (aligned : Aligned c.addr) (positive : 0 < c.count)
    (small : c.count < 2 ^ 31) (admits : wake.Admits s c) (standing : wake ≠ .erring) :
    Rests s.sound ∧ s.sound.Coherent c.addr c.inc ∧ (s.sound.Skips c.addr c.inc → s.host.isspace = true) ∧
      c.Whole s := by
  cases wake with
  | clean previous =>
    obtain ⟨follows, whole⟩ := admits
    have settled : Settled previous s.sound := holds
    obtain ⟨coherent, spaced⟩ := settled.coherent ⟨aligned, positive, small⟩ follows
    exact ⟨settled.toRests, coherent, spaced, whole⟩
  | misread addr =>
    obtain ⟨moved, whole⟩ := admits
    have misread : Misread addr s := holds
    exact ⟨misread.toRests, misread.coherent aligned moved, fun _ => misread.spaced, whole⟩
  | erring => exact absurd rfl standing
  | stale => exact admits.elim

/-- Behind anything but a failed write, what a call leaves does not depend on what was before. -/
theorem Wake.after_admitted {wake : Wake} {s : Session Faulty} {c : Call} (admits : wake.Admits s c)
    (positive : 0 < c.count) (standing : wake ≠ .erring) :
    wake.after c none = .clean (some c) ∧
      ∀ addr, wake.after c (some addr) =
        if c.writes then .erring else if c.inc then .misread addr else .clean none := by
  have some_ : c.count ≠ 0 := by omega
  cases wake with
  | clean previous => simp [Wake.after, some_]
  | misread addr => simp [Wake.after, some_]
  | erring => exact absurd rfl standing
  | stale => exact admits.elim

end

/-! ### One call -/

theorem stopped_holds {s : Session Faulty} {v : BitVec 30} {inc : Bool} (stopped : s.Stopped v inc) :
    Wake.Holds (if inc then .misread (v ++ 0#2) else .clean none) s := by
  cases inc with
  | false =>
    refine ⟨stopped.toRests, fun _ => stopped.spaced, fun _ => ?_, fun _ incs => ?_⟩
    · rw [show s.sound.host.lastaddr = v ++ 0#2 from stopped.lastaddr]
      exact aligned_word v
    · exact absurd (stopped.mode.symm.trans incs) (by decide)
  | true => exact ⟨stopped.toRests, stopped.spaced, aligned_word v, stopped.lastaddr, stopped.deviceMode⟩

section
variable {s : Session Faulty} {a : BitVec 32} {inc : Bool}

theorem readv_perform (rests : Rests s.sound) {n : Nat} (aligned : Aligned a) (positive : 0 < n)
    (coherent : s.sound.Coherent a inc) (c : Call) :
    (∃ s', s.readv a inc n = .ok ((named (wordAddr a) inc n).map s.line.peer.target.mem) s' ∧
        Settled (some c) s'.sound ∧ s'.line.peer.target.mem = s.line.peer.target.mem ∧
        (inc = false → s'.host.lastaddr = a)) ∨
      ¬ s.Unfailing n ∧ ∃ addr s', s.readv a inc n = .buserr addr s' ∧
        Wake.Holds (if inc then .misread addr else .clean none) s' := by
  obtain ⟨w, rfl⟩ : ∃ w, a = w ++ 0#2 := ⟨_, aligned_eq aligned⟩
  rcases Session.readv_faulty rests positive coherent with ⟨s', reads, at_, spaced, mem⟩
      | ⟨fails, v, s', throws, stopped, -⟩
  · refine .inl ⟨s', by rw [wordAddr_word, reads], at_.settled spaced _, mem, ?_⟩
    rintro rfl
    have lastaddr : s'.host.lastaddr = w + 0 ++ 0#2 := at_.lastaddr
    simpa using lastaddr
  · exact .inr ⟨fails, _, s', throws, stopped_holds stopped⟩

theorem writev_perform (rests : Rests s.sound) {buf : List (BitVec 32)} (aligned : Aligned a)
    (positive : 0 < buf.length) (small : buf.length < 2 ^ 31) (coherent : s.sound.Coherent a inc)
    (spaced : s.sound.Skips a inc → s.host.isspace = true)
    (whole : InOnePiece (s.send (s.host.encodeAddress (a ||| if inc then 0 else 1) ++
      Session.writeMessage (buf.headD 0))).line.text) {c : Call} (same : inc = true → c = .writei a buf) :
    (∃ s', s.writev a inc buf = .ok () s' ∧ Settled (some c) s'.sound ∧
        s'.line.peer.target.mem = store s.line.peer.target.mem ((named (wordAddr a) inc buf.length).zip buf) ∧
        (inc = false → s'.host.lastaddr = a ∧ s'.host.addrSet = true)) ∨
      ¬ s.Unfailing buf.length ∧ (s.writev a inc buf).Ends (fun _ _ => False) fun s' => s'.host.Erring := by
  obtain ⟨w, rfl⟩ : ∃ w, a = w ++ 0#2 := ⟨_, aligned_eq aligned⟩
  refine (Session.writev_faulty rests positive small coherent spaced whole).imp_left ?_
  rintro ⟨s', writes, rests', spaced', addrSet, mode, lastaddr, target⟩
  have addr := congrArg Target.addr target
  have deviceMode := congrArg Target.inc target
  refine ⟨s', writes, Session.settled_write rests' spaced' mode lastaddr addr deviceMode same, ?_, ?_⟩
  · rw [target, wordAddr_word]
  · rintro rfl
    exact ⟨by simpa using lastaddr, addrSet⟩

end

/-- A call that has returned did what it names. -/
structure Exact (s : Session Faulty) (c : Call) (words : List (BitVec 32)) (s' : Session Faulty) : Prop where
  coherent : 0 < c.count → s.sound.Coherent c.addr c.inc
  returned : words = c.returned s.line.peer.target.mem
  stored : s'.line.peer.target.mem = c.stored s.line.peer.target.mem

section
variable {s : Session Faulty} {c : Call} {wake : Wake}

/-- A call that throws does not return. -/
theorem not_returned {σ α : Type} {o : Outcome σ α} {addr : BitVec 32} {s' : σ} (throws : o = .buserr addr s')
    {left : BitVec 32 → σ → Prop} (holds : left addr s') :
    (∀ value s, o ≠ .ok value s) ∧ ∀ addr s, o = .buserr addr s → left addr s := by
  subst throws
  refine ⟨by simp, ?_⟩
  rintro addr' s same
  cases same
  exact holds

theorem never_returned {σ α : Type} {o : Outcome σ α} {left : σ → Prop} (ends : o.Ends (fun _ _ => False) left) :
    (∀ value s, o ≠ .ok value s) ∧ ∀ addr s, o = .buserr addr s → left s := by
  cases o with
  | ok => exact ends.elim
  | buserr addr s =>
    refine ⟨by simp, ?_⟩
    rintro addr' s' same
    cases same
    exact ends
  | lost => simp

theorem perform_read (legal : c.Legal) (read : c.writes = false) (positive : 0 < c.count) (rests : Rests s.sound)
    (coherent : s.sound.Coherent c.addr c.inc) :
    (∃ s', c.perform s = .ok (c.returned s.line.peer.target.mem) s' ∧ Settled (some c) s'.sound ∧
        s'.line.peer.target.mem = c.stored s.line.peer.target.mem) ∨
      ¬ s.Unfailing c.count ∧ ∃ addr s', c.perform s = .buserr addr s' ∧
        Wake.Holds (if c.inc then .misread addr else .clean none) s' := by
  have called := readv_perform rests legal.aligned positive coherent c
  cases c with
  | readio a =>
    rcases called with ⟨s', reads, settled, mem, lastaddr⟩ | ⟨fails, addr, s', throws, holds⟩
    · have one : s.readv a false 1 = .ok (returned s.line.peer.target.mem (.readio a)) s' := reads
      have last : s'.host.lastaddr = a := lastaddr rfl
      refine .inl ⟨s', ?_, settled, mem⟩
      simp only [perform, Session.readio, one, Outcome.rethrow, Outcome.andThen_ok, last, if_true]
    · have one : s.readv a false 1 = .buserr addr s' := throws
      refine .inr ⟨fails, a, s', ?_, holds⟩
      simp only [perform, Session.readio, one]
      rfl
  | readi a len =>
    rcases called with ⟨s', reads, settled, mem, -⟩ | throws
    · exact .inl ⟨s', reads, settled, mem⟩
    · exact .inr throws
  | readz a len =>
    rcases called with ⟨s', reads, settled, mem, -⟩ | throws
    · exact .inl ⟨s', reads, settled, mem⟩
    · exact .inr throws
  | writeio | writei | writez => simp [writes] at read

theorem perform_write (legal : c.Legal) (write : c.writes = true) (rests : Rests s.sound)
    (coherent : s.sound.Coherent c.addr c.inc) (spaced : s.sound.Skips c.addr c.inc → s.host.isspace = true)
    (whole : c.Whole s) :
    (∃ s', c.perform s = .ok [] s' ∧ Settled (some c) s'.sound ∧
        s'.line.peer.target.mem = c.stored s.line.peer.target.mem) ∨
      ¬ s.Unfailing c.count ∧ (c.perform s).Ends (fun _ _ => False) fun s' => s'.host.Erring := by
  obtain ⟨aligned, small, nonempty⟩ := legal
  have positive := nonempty write
  cases c with
  | readio | readi | readz => simp [writes] at write
  | writeio a v =>
    rcases @writev_perform s a false rests [v] aligned positive small coherent spaced whole (.writeio a v)
        (by simp) with
      ⟨s', writes, settled, mem, last⟩ | ⟨fails, ends⟩
    · -- `writeio` sets the address once more, to what it is
      obtain ⟨lastaddr, addrSet⟩ := last rfl
      have same : { s' with host := { s'.host with lastaddr := a, addrSet := true } } = s' := by
        obtain ⟨⟨_, _, _, _, _, _, _, _⟩, _⟩ := s'
        simp_all
      refine .inl ⟨s', ?_, settled, mem⟩
      simp only [perform, Session.writeio, writes, Outcome.andThen_ok, same]
    · exact .inr ⟨fails, (ends.never _).never _⟩
  | writei a buf =>
    rcases @writev_perform s a true rests buf aligned positive small coherent spaced whole (.writei a buf)
        fun _ => rfl with
      ⟨s', writes, settled, mem, -⟩ | ⟨fails, ends⟩
    · refine .inl ⟨s', ?_, settled, mem⟩
      simp only [perform, Session.writei, writes, Outcome.andThen_ok]
    · exact .inr ⟨fails, ends.never _⟩
  | writez a buf =>
    rcases @writev_perform s a false rests buf aligned positive small coherent spaced whole (.writez a buf)
        (by simp) with
      ⟨s', writes, settled, mem, -⟩ | ⟨fails, ends⟩
    · refine .inl ⟨s', ?_, settled, mem⟩
      simp only [perform, Session.writez, writes, Outcome.andThen_ok]
    · exact .inr ⟨fails, ends.never _⟩

/-- Either the call returns, and did what it names, or a request has failed and it does not return. -/
theorem perform_ready (legal : c.Legal) (positive : 0 < c.count) (rests : Rests s.sound)
    (coherent : s.sound.Coherent c.addr c.inc) (spaced : s.sound.Skips c.addr c.inc → s.host.isspace = true)
    (whole : c.Whole s) :
    (∃ words s', c.perform s = .ok words s' ∧ Exact s c words s' ∧ Settled (some c) s'.sound) ∨
      ¬ s.Unfailing c.count ∧ (∀ words s', c.perform s ≠ .ok words s') ∧
        ∀ addr s', c.perform s = .buserr addr s' →
          Wake.Holds (if c.writes then .erring else if c.inc then .misread addr else .clean none) s' := by
  cases write : c.writes with
  | false =>
    rcases perform_read legal write positive rests coherent with ⟨s', reads, settled, mem⟩
        | ⟨fails, addr, s', throws, holds⟩
    · exact .inl ⟨_, s', reads, ⟨fun _ => coherent, rfl, mem⟩, settled⟩
    · exact .inr ⟨fails, @not_returned _ _ _ addr s' throws _ holds⟩
  | true =>
    have nothing : c.returned s.line.peer.target.mem = [] := by
      cases c <;> first | rfl | simp [writes] at write
    rcases perform_write legal write rests coherent spaced whole with ⟨s', writes, settled, mem⟩ | ⟨fails, ends⟩
    · exact .inl ⟨[], s', writes, ⟨fun _ => coherent, nothing.symm, mem⟩, settled⟩
    · exact .inr ⟨fails, never_returned ends⟩

/-- In an error reply no call returns, and a write that throws leaves the host there. -/
theorem perform_erring (erring : s.host.Erring) (small : c.count < 2 ^ 31) (positive : 0 < c.count) :
    (c.perform s).Ends (fun _ _ => False) fun s' => c.writes = true → s'.host.Erring := by
  cases c with
  | readio a =>
    have ends := (Session.Erring.readv erring a false positive).rethrow a
    exact (ends.never _).imp (fun _ _ never => never) fun _ _ write => by simp [writes] at write
  | readi a len =>
    exact (Session.Erring.readv erring a true positive).imp (fun _ _ never => never) fun _ _ write => by
      simp [writes] at write
  | readz a len =>
    exact (Session.Erring.readv erring a false positive).imp (fun _ _ never => never) fun _ _ write => by
      simp [writes] at write
  | writeio a v =>
    have ends := @Session.Erring.writev _ s _ erring a false [v] positive small
    exact ((ends.never _).never _).imp
      (fun _ _ never => never) fun _ erring _ => erring
  | writei a buf =>
    have ends := Session.Erring.writev erring a true positive small
    exact (ends.never _).imp (fun _ _ never => never) fun _ erring _ => erring
  | writez a buf =>
    have ends := Session.Erring.writev erring a false positive small
    exact (ends.never _).imp (fun _ _ never => never) fun _ erring _ => erring

/-- A call of length zero reads nothing. -/
theorem perform_nothing (legal : c.Legal) (nothing : c.count = 0) : c.perform s = .ok [] s ∧ Exact s c [] s := by
  cases c with
  | readio => simp [count] at nothing
  | readi a len =>
    obtain rfl : len = 0 := nothing
    exact ⟨rfl, fun positive => absurd positive (by simp [count]), rfl, rfl⟩
  | readz a len =>
    obtain rfl : len = 0 := nothing
    exact ⟨rfl, fun positive => absurd positive (by simp [count]), rfl, rfl⟩
  | writeio | writei | writez => exact absurd (legal.nonempty rfl) (by omega)

/-- What one call does to the state, and what it leaves behind. -/
theorem perform_spec (holds : wake.Holds s) (legal : c.Legal) (admits : 0 < c.count → wake.Admits s c) :
    (∀ words s', c.perform s = .ok words s' → Exact s c words s' ∧ (wake.after c none).Holds s') ∧
      (∀ addr s', c.perform s = .buserr addr s' → (wake.after c (some addr)).Holds s') ∧
      (¬ s.host.Erring → s.Unfailing c.count → ∃ words s', c.perform s = .ok words s') := by
  rcases Nat.eq_zero_or_pos c.count with nothing | positive
  · obtain ⟨runs, exact_⟩ := @perform_nothing s c legal nothing
    rw [runs]
    refine ⟨?_, by simp, fun _ _ => ⟨[], s, rfl⟩⟩
    rintro words s' same
    cases same
    exact ⟨exact_, by simpa [Wake.after, nothing] using holds⟩
  have some_ : c.count ≠ 0 := by omega
  -- behind a failed write nothing returns, so only what is left matters
  by_cases standing : wake = .erring
  · subst standing
    have erring : s.host.Erring := holds
    obtain ⟨never, throws⟩ := never_returned (perform_erring erring legal.small positive)
    refine ⟨fun words s' returns => absurd returns (never words s'), fun addr s' thrown => ?_,
        fun sound => absurd erring sound⟩
    have left := throws addr s' thrown
    rw [Wake.after, if_neg some_]
    cases write : c.writes with
    | true => exact left write
    | false => trivial
  · obtain ⟨rests, coherent, spaced, whole⟩ := Wake.ready holds legal.aligned positive legal.small
        (admits positive) standing
    obtain ⟨returned, thrown⟩ := Wake.after_admitted (admits positive) positive standing
    rw [returned]
    simp only [thrown]
    rcases perform_ready legal positive rests coherent spaced whole with
      ⟨words, s', runs, exact_, settled⟩ | ⟨fails, never, throws⟩
    · rw [runs]
      refine ⟨?_, by simp, fun _ _ => ⟨words, s', rfl⟩⟩
      rintro words' s'' same
      cases same
      exact ⟨exact_, settled⟩
    · exact ⟨fun words s' returns => absurd returns (never words s'), throws, fun _ unfailing => absurd unfailing fails⟩

end

/-! ### Runs -/

/-- The caller goes on after a `BUSERR`, and not after a lost call. -/
def state {σ α : Type} : Outcome σ α → Option σ
  | .ok _ s | .buserr _ s => some s
  | .lost => none

def continued (s : Session Faulty) : List Call → Option (Session Faulty)
  | [] => some s
  | c :: calls => (state (c.perform s)).bind fun s => continued s calls

/-- Every call is admitted by what the calls before it have left. -/
def Heedful (wake : Wake) (s : Session Faulty) : List Call → Prop
  | [] => True
  | c :: calls =>
    (0 < c.count → wake.Admits s c) ∧
      (∀ words s', c.perform s = .ok words s' → Heedful (wake.after c none) s' calls) ∧
      ∀ addr s', c.perform s = .buserr addr s' → Heedful (wake.after c (some addr)) s' calls

theorem heedful_runs {wake : Wake} {s : Session Faulty} {calls : List Call} (holds : wake.Holds s)
    (legal : ∀ c ∈ calls, c.Legal) (heedful : Heedful wake s calls) {before : List Call} {c : Call}
    {after : List Call} (split : calls = before ++ c :: after) {s₁ : Session Faulty}
    (reached : continued s before = some s₁) :
    (∀ words s₂, c.perform s₁ = .ok words s₂ → Exact s₁ c words s₂) ∧
      (¬ s₁.host.Erring → s₁.Unfailing c.count → ∃ words s₂, c.perform s₁ = .ok words s₂) := by
  induction calls generalizing wake s before with
  | nil => simp at split
  | cons first calls ih =>
    obtain ⟨admits, returned, thrown⟩ := heedful
    obtain ⟨does, throws, completes⟩ := perform_spec holds (legal first (by simp)) admits
    have rest : ∀ c ∈ calls, c.Legal := fun c member => legal c (List.mem_cons_of_mem _ member)
    cases before with
    | nil =>
      obtain ⟨rfl, rfl⟩ := List.cons.inj split
      obtain rfl : s = s₁ := Option.some.inj reached
      exact ⟨fun words s₂ runs => (does words s₂ runs).1, completes⟩
    | cons first' before =>
      obtain ⟨rfl, rfl⟩ := List.cons.inj split
      simp only [continued] at reached
      -- the run goes on from a call that returned and from one that threw
      cases runs : first.perform s with
      | ok words s' =>
        rw [runs] at reached
        exact ih (does words s' runs).2 rest (returned words s' runs) rfl reached
      | buserr addr s' =>
        rw [runs] at reached
        exact ih (throws addr s' runs) rest (thrown addr s' runs) rfl reached
      | lost =>
        rw [runs] at reached
        simp [state] at reached

/-- In a heedful run from a fresh start, whatever requests fail, a call that returns has done what it names. It
returns if its own requests do not fail, unless a write has failed before. -/
theorem recovers {s : Session Faulty} (fresh : Fresh s.sound) (calls : List Call) (legal : ∀ c ∈ calls, c.Legal)
    (heedful : Heedful (.clean none) s calls) (before : List Call) (c : Call) (after : List Call)
    (split : calls = before ++ c :: after) (s₁ : Session Faulty) (reached : continued s before = some s₁) :
    (∀ words s₂, c.perform s₁ = .ok words s₂ → Exact s₁ c words s₂) ∧
      (¬ s₁.host.Erring → s₁.Unfailing c.count → ∃ words s₂, c.perform s₁ = .ok words s₂) :=
  have clean : Wake.Holds (.clean none) s := fresh.settled
  heedful_runs clean legal heedful split reached

/-- A line on which nothing is late, a memory of word addresses, and a second request that fails. -/
def failing : Session Faulty where
  host := Host.init 0 false false
  line := {
    text := []
    owed := false
    peer := {
      target := { partly := none, addr := 77, inc := false, mem := fun a => a.setWidth 32 }
      faults := fun n => if n = 1 then some true else none }
    choices := fun _ => false }

theorem failing_heedful : Heedful (.clean none) failing [.readi 0x1000 2, .readi 0x1000 2] := by
  obtain ⟨s₁, runs⟩ : ∃ s₁, perform failing (.readi 0x1000 2) = .buserr 0x1004 s₁ := ⟨_, rfl⟩
  obtain ⟨never, named⟩ := @not_returned _ _ _ _ _ runs (fun addr _ => addr = 0x1004) rfl
  refine ⟨fun _ => ⟨trivial, trivial⟩, fun words s' returned => absurd returned (never words s'),
      fun addr s' thrown => ?_⟩
  obtain rfl := named addr s' thrown
  exact ⟨fun _ => ⟨fun _ same => absurd same (by decide), trivial⟩, fun _ _ _ => trivial, fun _ _ _ => trivial⟩

/-- The second word of a read fails; the whole read is repeated. -/
theorem recovers_failing :
    ∃ s₁, continued failing [.readi 0x1000 2] = some s₁ ∧
      (∀ words s₂, perform s₁ (.readi 0x1000 2) = .ok words s₂ → Exact s₁ (.readi 0x1000 2) words s₂) ∧
      (¬ s₁.host.Erring → s₁.Unfailing 2 → ∃ words s₂, perform s₁ (.readi 0x1000 2) = .ok words s₂) :=
  have legal : ∀ c ∈ [readi 0x1000 2, readi 0x1000 2], c.Legal := by
    intro c member
    obtain rfl : c = .readi 0x1000 2 := by simpa using member
    exact ⟨by decide, by decide, by decide⟩
  ⟨_, rfl, recovers ⟨⟨0, false, false, rfl⟩, rfl, rfl⟩ _ legal failing_heedful [.readi 0x1000 2] (.readi 0x1000 2) []
    rfl _ rfl⟩

/-- The second word of a read fails and `BUSERR` names 0x1004. A read from there leaves its address out, and
returns the word at 0x1008. -/
theorem failed_read_misplaces :
    ∃ s₁, perform failing (.readi 0x1000 2) = .buserr 0x1004 s₁ ∧ s₁.sound.Skips 0x1004 true ∧
      s₁.line.peer.target.addr = wordAddr 0x1008 ∧
      ∃ s₂, perform s₁ (.readi 0x1004 1) = .ok [0x402] s₂ ∧
        returned s₁.line.peer.target.mem (.readi 0x1004 1) = [0x401] :=
  ⟨_, rfl, rfl, rfl, _, rfl, by decide⟩

end Call

end IcoZip.Hexbus
