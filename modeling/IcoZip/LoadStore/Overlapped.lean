import IcoZip.LoadStore.Pipelining
import IcoZip.LoadStore.Singly

/-! `pipemem` in front of a slave, beside `memops`.

The record keeps the accesses by runs: a run begins when nothing is under way, and
ends when everything has been answered, or with an error.
-/

set_option autoImplicit false

namespace IcoZip.LoadStore

variable {aw : Nat}

/-! ### The record -/

/-- A run that is over: what has been answered, what the slave has accepted without that, and what it has not. -/
structure Run where
  answered : List (Access × Answer)
  unanswered : List Access
  dropped : List Access

def Run.accepted (r : Run) : List Access := r.answered.map Prod.fst ++ r.unanswered

def Run.asked (r : Run) : List Access := r.accepted ++ r.dropped

/-- The runs that are over, and of this one what has been answered, what has not, and what is on the lines. -/
structure Record where
  runs : List Run
  log : List (Access × Answer)
  pending : List Access
  offered : Option Access

namespace Record
variable (r : Record) (stall : Bool) (reply : Option Answer) (ask : Option Access)

/-- What is under way. -/
def queue : List Access := r.pending ++ r.offered.toList

/-- What the slave accepts. -/
def accepts : List Access := if stall then [] else r.offered.toList

/-- What it can answer. -/
def able : List Access := r.pending ++ r.accepts stall

/-- What stays on the lines. -/
def left : Option Access := if stall then r.offered else none

def answered : List (Access × Answer) := (r.able stall).head?.toList.flatMap fun a => reply.toList.map (a, ·)

/-- The record with an answer to the oldest access and with what is asked for. -/
def advance : Record :=
  ⟨r.runs, r.log ++ r.answered stall reply, Pipelined.rest (r.able stall) reply.isSome, ask.or (r.left stall)⟩

/-- The run is over. -/
def close : Record := ⟨r.runs ++ [⟨r.log, r.pending, r.offered.toList⟩], [], [], none⟩

/-- A clock. -/
def next : Record :=
  let after := r.advance stall reply ask
  if reply = some .err ∨ after.queue = [] ∧ after.log ≠ [] then after.close else after

/-- Everything that has been answered. -/
def reported : List (Access × Answer) := r.runs.flatMap Run.answered ++ r.log

/-- Everything the slave has accepted. -/
def accepted : List Access := r.runs.flatMap Run.accepted ++ (r.log.map Prod.fst ++ r.pending)

/-- Everything asked for. -/
def asked : List Access := r.runs.flatMap Run.asked ++ (r.log.map Prod.fst ++ r.queue)

variable {r stall reply ask}

theorem queue_split : r.able stall ++ (r.left stall).toList = r.queue := by
  unfold able left accepts queue
  cases stall <;> simp

/-- An answer is to the oldest access that can be answered. -/
theorem answered_rest (some_ : reply.isSome = true → r.able stall ≠ []) :
    (r.answered stall reply).map Prod.fst ++ Pipelined.rest (r.able stall) reply.isSome = r.able stall := by
  unfold answered
  cases reply with
  | none => simp
  | some answer =>
    cases able : r.able stall with
    | nil => exact absurd able (some_ rfl)
    | cons a rest => simp

/-- What is asked for comes behind what stays on the lines. -/
theorem offered_next (free : ask.isSome = true → r.left stall = none) :
    (ask.or (r.left stall)).toList = (r.left stall).toList ++ ask.toList := by
  cases ask with
  | none => simp
  | some a => simp [free rfl]

theorem advance_reported : (r.advance stall reply ask).reported = r.reported ++ r.answered stall reply := by
  simp [reported, advance]

theorem advance_accepted (some_ : reply.isSome = true → r.able stall ≠ []) :
    (r.advance stall reply ask).accepted = r.accepted ++ r.accepts stall := by
  have order := answered_rest some_
  rw [accepted, advance, List.map_append, List.append_assoc, order, able, accepted]
  simp only [List.append_assoc]

theorem advance_asked (some_ : reply.isSome = true → r.able stall ≠ [])
    (free : ask.isSome = true → r.left stall = none) :
    (r.advance stall reply ask).asked = r.asked ++ ask.toList := by
  have order := answered_rest some_
  have split := @queue_split r stall
  rw [← order] at split
  rw [asked, advance, queue, offered_next free, List.map_append, asked, ← split]
  simp only [List.append_assoc]

theorem close_reported : r.close.reported = r.reported := by simp [close, reported]

theorem close_accepted : r.close.accepted = r.accepted := by simp [close, accepted, Run.accepted]

theorem close_asked : r.close.asked = r.asked := by simp [close, asked, Run.asked, Run.accepted, queue]

/-- What the end of a run leaves alone is what it is after the clock. -/
theorem next_of_close {A : Type} {f : Record → A} (same : ∀ r : Record, f r.close = f r) :
    f (r.next stall reply ask) = f (r.advance stall reply ask) := by
  rw [next]
  split_ifs
  · exact same _
  · rfl

end Record

/-! ### The bench -/

structure Overlapped (aw : Nat) where
  core : Pipemem aw
  slave : Slave aw
  record : Record

namespace Overlapped

variable (opt : Pipemem.Options) (respond : Respond aw) (x : Overlapped aw) (i : Inputs)

def cyc : Bool := x.core.wbCycGbl opt || x.core.wbCycLcl opt

/-- The request on the lines. -/
def offer : Option (Request aw) :=
  if x.core.wbCycGbl opt && x.core.stbGbl || x.core.wbCycLcl opt && x.core.stbLcl then
    some (.of (x.core.wbCycLcl opt && x.core.stbLcl) x.core.we x.core.addr x.core.sel x.core.data)
  else none

def reply : Option Answer := x.slave.reply respond (x.cyc opt) (x.offer opt) i

def bus : Bus := x.slave.bus respond (x.cyc opt) (x.offer opt) i

def step : Overlapped aw where
  core := x.core.clock opt i.cpu (x.bus opt respond i)
  slave := x.slave.step respond (x.cyc opt) (x.offer opt) i
  record := x.record.next i.stall (x.reply opt respond i) i.ask

/-- The record after this clock, while the run goes on. -/
def after : Record := x.record.advance i.stall (x.reply opt respond i) i.ask

/-- What the CPU is told. -/
def tells : List Report :=
  (if x.core.valid then [.result x.core.wreg x.core.result] else []) ++ if x.core.err then [.err] else []

/-- What is still to be answered behind this clock. -/
def following : List Access :=
  if x.reply opt respond i = some .err then []
  else Pipelined.rest x.record.queue (x.reply opt respond i).isSome

/-- The CPU waits while `o_pipe_stalled` is high, and all accesses of a run are loads or stores on one bus. -/
structure Runs : Prop where
  free : i.ask.isSome = true → x.core.pipeStalled (x.bus opt respond i) = false
  alike : ∀ a ∈ i.ask, ∀ b ∈ x.record.queue,
    b.store = a.store ∧ Pipemem.lclBus opt b.addr = Pipemem.lclBus opt a.addr

/-- What the ring and the register beside it need: the loads that wait name registers of the same set, and without
a limit not all the cells are in use.
-/
structure Fits : Prop where
  sets : ∀ a ∈ i.ask, ∀ b ∈ x.following opt respond i, b.store = false → b.oreg.getLsbD 4 = a.oreg.getLsbD 4
  cells : opt.maxDepth = 0 → (x.following opt respond i).length < 16

/-! ### What a run is owed -/

/-- Answers without an error. -/
def Clean (log : List (Access × Answer)) : Prop := ∀ e ∈ log, e.2 ≠ .err

/-- A run that is over has the first answers of its accesses: all of them, or those up to an error. -/
structure Done (o : Options) (respond : Respond aw) (history : List (Request aw)) (r : Run) : Prop where
  prefix_ : r.answered.map Prod.snd <+: answers o respond history r.accepted
  whole : Clean r.answered ∧ r.unanswered = [] ∧ r.dropped = [] ∨
    ∃ before a, r.answered = before ++ [(a, .err)] ∧ Clean before

def AllDone (o : Options) (respond : Respond aw) : List (Request aw) → List Run → Prop
  | _, [] => True
  | history, r :: rs => Done o respond history r ∧
      AllDone o respond (history ++ r.accepted.map (Access.request aw o)) rs

section
variable {opt respond x i} {o : Options}

theorem AllDone.concat {history : List (Request aw)} {rs : List Run} {r : Run} (done : AllDone o respond history rs)
    (last : Done o respond (history ++ (rs.flatMap Run.accepted).map (Access.request aw o)) r) :
    AllDone o respond history (rs ++ [r]) := by
  induction rs generalizing history with
  | nil => exact ⟨by simpa using last, trivial⟩
  | cons first rs ih =>
    refine ⟨done.1, ih done.2 ?_⟩
    rwa [List.flatMap_cons, List.map_append, ← List.append_assoc] at last

/-- The slave and the record. -/
structure Recorded (o : Options) (respond : Respond aw) (slave : Slave aw) (cyc : Bool) (r : Record) : Prop where
  history : slave.history = r.accepted.map (Access.request aw o)
  waiting : cyc = true → slave.waiting = answers o respond
    ((r.runs.flatMap Run.accepted ++ r.log.map Prod.fst).map (Access.request aw o)) r.pending
  logged : r.log.map Prod.snd = answers o respond
    ((r.runs.flatMap Run.accepted).map (Access.request aw o)) (r.log.map Prod.fst)
  done : AllDone o respond [] r.runs

/-- The registers, the slave and the record. -/
structure Stands (opt : Pipemem.Options) (o : Options) (respond : Respond aw) (x : Overlapped aw) : Prop where
  counts : x.core.Counts opt x.record.queue.length x.record.offered.isSome
  keeps : x.core.Keeps opt x.record.queue x.record.offered
  closed : x.record.queue = [] → x.record.log = []
  clean : Clean x.record.log
  recorded : Recorded o respond x.slave (x.cyc opt) x.record

/-- The request of an access is what `pipemem` puts on the lines for it. -/
theorem request_eq (a : Access) (big : o.littleEndian = false) :
    a.request aw o = Request.of (a.lcl o) a.store (a.addr.extractLsb' 2 aw) (Pipemem.wbSel a.op a.addr)
      (Pipemem.wbData a.op a.addr a.data) := by
  rw [Access.request, Request.of, Request.of, Pipemem.wbData_eq a big, Pipemem.wbSel_eq a big]

/-- What is on the lines is the request of the access that is offered. -/
theorem Stands.offer (same : opt.Matches o) (stands : Stands opt o respond x) :
    x.offer opt = x.record.offered.map (Access.request aw o) := by
  have counts := stands.counts
  cases offered : x.record.offered with
  | none =>
    rw [offered] at counts
    have gbl : x.core.stbGbl = false := counts.stbGbl
    have lcl : x.core.stbLcl = false := counts.stbLcl
    simp [Overlapped.offer, gbl, lcl]
  | some a =>
    rw [offered] at counts
    have member : a ∈ x.record.queue := by simp [Record.queue, offered]
    have busy : x.core.cyc = true := counts.cyc.trans (decide_eq_true (List.length_pos_of_mem member))
    have cycGbl : x.core.cycGbl = !x.core.cycLcl := by rw [counts.cycGbl, busy, Bool.true_and]
    have stbGbl : x.core.stbGbl = !x.core.cycLcl := by simpa using counts.stbGbl
    have stbLcl : x.core.stbLcl = x.core.cycLcl := by simpa using counts.stbLcl
    have map : x.core.cycLcl = a.lcl o := by rw [← stands.keeps.lcl a member, Pipemem.lclBus_eq a same]
    have gbl : (x.core.wbCycGbl opt && x.core.stbGbl) = !a.lcl o := by
      rw [Pipemem.wbCycGbl, cycGbl, stbGbl, map]
      cases a.lcl o <;> simp
    have lcl : (x.core.wbCycLcl opt && x.core.stbLcl) = a.lcl o := by
      rw [Pipemem.wbCycLcl, stbLcl, map]
      cases a.lcl o <;> simp
    rw [Overlapped.offer, gbl, lcl, if_pos (by cases a.lcl o <;> rfl), ← stands.keeps.store a member,
      stands.keeps.addr a offered, stands.keeps.sel a offered, stands.keeps.data a offered, Option.map_some,
      request_eq a same.big]

/-- The cycle is on the lines while something is under way. -/
theorem Stands.cyc (stands : Stands opt o respond x) (busy : x.record.queue ≠ []) : x.cyc opt = true := by
  have counts := stands.counts
  have under : x.core.cyc = true := counts.cyc.trans (decide_eq_true (List.length_pos_of_ne_nil busy))
  have cycGbl : x.core.cycGbl = !x.core.cycLcl := by rw [counts.cycGbl, under, Bool.true_and]
  rw [Overlapped.cyc, Pipemem.wbCycGbl, Pipemem.wbCycLcl, cycGbl]
  cases x.core.cycLcl <;> simp

/-- The slave accepts the request of what is offered. -/
theorem Stands.accepts (same : opt.Matches o) (stands : Stands opt o respond x) :
    Slave.accepted (x.cyc opt) (x.offer opt) i = (x.record.accepts i.stall).map (Access.request aw o) := by
  rw [Slave.accepted, Record.accepts, stands.offer same]
  cases offered : x.record.offered with
  | none => cases i.stall <;> simp
  | some a =>
    rw [stands.cyc (by simp [Record.queue, offered])]
    cases i.stall <;> simp

/-- The answers it can give are those to the accesses it has accepted. -/
theorem Stands.outstanding (same : opt.Matches o) (stands : Stands opt o respond x) :
    x.slave.outstanding respond (x.cyc opt) (x.offer opt) i = answers o respond
      ((x.record.runs.flatMap Run.accepted ++ x.record.log.map Prod.fst).map (Access.request aw o))
      (x.record.able i.stall) := by
  rw [Slave.outstanding, stands.accepts same, Record.able, answers_append, ← List.map_append]
  cases cyc : x.cyc opt with
  | false =>
    -- the slave answers nothing, and nothing is under way that it could answer
    have idle : x.record.queue = [] := by
      by_contra busy
      rw [stands.cyc busy] at cyc
      contradiction
    obtain ⟨pending, offered⟩ := List.append_eq_nil_iff.mp idle
    rw [Record.accepts, pending, offered]
    cases i.stall <;> rfl
  | true =>
    rw [if_pos rfl, stands.recorded.waiting cyc, stands.recorded.history, Record.accepted, List.append_assoc]
    congr 1
    rw [Record.accepts]
    cases i.stall
    · cases x.record.offered <;> simp [answers]
    · simp [answers]

/-- The slave has nothing to say, or answers the oldest access. -/
theorem Stands.replies (same : opt.Matches o) (stands : Stands opt o respond x) :
    let history := (x.record.runs.flatMap Run.accepted ++ x.record.log.map Prod.fst).map (Access.request aw o)
    x.reply opt respond i = none ∧
        (x.step opt respond i).slave.waiting = answers o respond history (x.record.able i.stall) ∨
      ∃ a rest, x.record.able i.stall = a :: rest ∧ x.reply opt respond i = some (respond history (a.request aw o)) ∧
        (x.step opt respond i).slave.waiting = answers o respond (history ++ [a.request aw o]) rest := by
  intro history
  have outstanding := @Stands.outstanding aw opt respond x i o same stands
  have waiting : (x.step opt respond i).slave.waiting =
      Pipelined.rest (answers o respond history (x.record.able i.stall)) i.answer := by
    rw [← outstanding]
    rfl
  rw [waiting, Overlapped.reply, Slave.reply, outstanding]
  cases able : x.record.able i.stall with
  | nil => exact .inl ⟨Pipelined.reply_nil _, Pipelined.rest_nil _⟩
  | cons a rest =>
    cases i.answer with
    | false => exact .inl ⟨rfl, rfl⟩
    | true => exact .inr ⟨a, rest, rfl, rfl, rfl⟩

theorem Stands.able_of_reply (same : opt.Matches o) (stands : Stands opt o respond x)
    (some_ : (x.reply opt respond i).isSome = true) : x.record.able i.stall ≠ [] := by
  rcases @Stands.replies aw opt respond x i o same stands with ⟨none, -⟩ | ⟨a, rest, able, -, -⟩
  · rw [none] at some_
    contradiction
  · rw [able]
    exact List.cons_ne_nil a rest

/-- The slave and the record after a clock, while the run goes on. -/
theorem Stands.advance (same : opt.Matches o) (stands : Stands opt o respond x) :
    Recorded o respond (x.step opt respond i).slave true (x.after opt respond i) := by
  obtain ⟨history, -, logged, done⟩ := stands.recorded
  have accepted : (x.step opt respond i).slave.history =
      (x.after opt respond i).accepted.map (Access.request aw o) := by
    rw [after, Record.advance_accepted fun some_ => stands.able_of_reply same some_, List.map_append, ← history,
      ← stands.accepts same]
    rfl
  rcases @Stands.replies aw opt respond x i o same stands with ⟨none, waiting⟩ | ⟨a, rest, able, some_, waiting⟩
  · have log : (x.after opt respond i).log = x.record.log := by
      simp [after, Record.advance, Record.answered, none]
    refine ⟨accepted, fun _ => ?_, ?_, done⟩
    · rw [waiting, log]
      simp [after, Record.advance, none]
    · rw [log]
      exact logged
  · have log : (x.after opt respond i).log = x.record.log ++ [(a, respond
        ((x.record.runs.flatMap Run.accepted ++ x.record.log.map Prod.fst).map (Access.request aw o))
        (a.request aw o))] := by
      simp [after, Record.advance, Record.answered, some_, able]
    refine ⟨accepted, fun _ => ?_, ?_, done⟩
    · rw [waiting, log]
      simp [after, Record.advance, able, some_]
    · rw [log]
      simp only [List.map_append, answers_append, logged]
      rfl

/-- The end of a run. -/
theorem Recorded.close {slave : Slave aw} {cyc : Bool} {r : Record} (recorded : Recorded o respond slave true r)
    (done : Done o respond ((r.runs.flatMap Run.accepted).map (Access.request aw o))
      ⟨r.log, r.pending, r.offered.toList⟩)
    (finished : cyc = true → r.pending = []) : Recorded o respond slave cyc r.close := by
  refine ⟨?_, fun on => ?_, rfl, ?_⟩
  · rw [Record.close_accepted]
    exact recorded.history
  · rw [recorded.waiting rfl, finished on]
    rfl
  · exact recorded.done.concat (by rwa [List.nil_append])

/-! ### A clock -/

theorem bus_stall : (x.bus opt respond i).stall = i.stall := by
  unfold bus Slave.bus
  split <;> rfl

/-- A run that has no error goes on, or is over when everything has been answered. -/
theorem Recorded.stands (advanced : Recorded o respond (x.step opt respond i).slave true
      (x.after opt respond i))
    (counts : (x.step opt respond i).core.Counts opt
      (x.after opt respond i).queue.length
      (x.after opt respond i).offered.isSome)
    (keeps : (x.step opt respond i).core.Keeps opt (x.after opt respond i).queue
      (x.after opt respond i).offered)
    (clean : Clean (x.after opt respond i).log)
    (noErr : x.reply opt respond i ≠ some .err) : Stands opt o respond (x.step opt respond i) := by
  have record : (x.step opt respond i).record =
      if x.reply opt respond i = some .err ∨ (x.after opt respond i).queue = [] ∧ (x.after opt respond i).log ≠ [] then
        (x.after opt respond i).close
      else x.after opt respond i := rfl
  generalize x.after opt respond i = after at record advanced counts keeps clean
  by_cases finished : after.queue = [] ∧ after.log ≠ []
  -- the last access has been answered: the next one begins a run
  · obtain ⟨pending, offered⟩ := List.append_eq_nil_iff.mp finished.1
    rw [if_pos (.inr finished)] at record
    have none : after.offered = none := Option.toList_eq_nil_iff.mp offered
    refine ⟨?_, ?_, ?_, ?_, ?_⟩
    · rw [record]
      rwa [finished.1, none] at counts
    · rw [record]
      rwa [finished.1, none] at keeps
    · rw [record]
      exact fun _ => rfl
    · rw [record]
      exact fun _ member => absurd member List.not_mem_nil
    · rw [record]
      refine advanced.close ⟨?_, .inl ⟨clean, pending, offered⟩⟩ fun _ => pending
      rw [advanced.logged, Run.accepted, pending, List.append_nil]
  · rw [if_neg (by rintro (err | done); exacts [noErr err, finished done])] at record
    refine ⟨?_, ?_, ?_, ?_, ?_⟩
    · rwa [record]
    · rwa [record]
    · rw [record]
      intro empty
      by_contra more
      exact finished ⟨empty, more⟩
    · rwa [record]
    · rw [record]
      exact ⟨advanced.history, fun _ => advanced.waiting rfl, advanced.logged, advanced.done⟩

/-- What the CPU is told when the slave has nothing to say. -/
theorem tells_quiet (off : opt.alignmentErr = false) (none : x.reply opt respond i = none) :
    (x.step opt respond i).tells = [] := by
  have bus : x.bus opt respond i = ⟨i.stall, false, false, i.float⟩ := Slave.bus_of_none none
  have valid : (x.step opt respond i).core.valid = false := by simp [step, Pipemem.clock, bus]
  have err : (x.step opt respond i).core.err = false := by
    simp [step, Pipemem.clock, bus, Pipemem.misaligned_off off]
  rw [tells, valid, err]
  rfl

/-- The next state of a run, and what the CPU is told of the access that has been answered. -/
def Follows (opt : Pipemem.Options) (o : Options) (respond : Respond aw) (x : Overlapped aw) (i : Inputs) : Prop :=
  Stands opt o respond (x.step opt respond i) ∧
    (x.step opt respond i).tells =
      (x.record.answered i.stall (x.reply opt respond i)).flatMap fun e => e.1.report o e.2

/-- Nothing is under way. -/
theorem Stands.idle (same : opt.Matches o) (off : opt.alignmentErr = false) (stands : Stands opt o respond x)
    (idle : x.record.queue = []) : Follows opt o respond x i := by
  obtain ⟨pending, offered⟩ := List.append_eq_nil_iff.mp idle
  have none_ : x.record.offered = none := Option.toList_eq_nil_iff.mp offered
  have able : x.record.able i.stall = [] := by
    rw [Record.able, Record.accepts, pending, none_]
    cases i.stall <;> rfl
  have silent : x.reply opt respond i = none := by
    rcases @Stands.replies aw opt respond x i o same stands with ⟨none, -⟩ | ⟨a, rest, some_, -, -⟩
    · exact none
    · rw [able] at some_
      contradiction
  have answered : x.record.answered i.stall (x.reply opt respond i) = [] := by rw [Record.answered, able]; rfl
  have asks : (x.after opt respond i).offered = i.ask := by
    simp [after, Record.advance, Record.left, none_]
  have queue : (x.after opt respond i).queue = i.ask.toList := by
    rw [Record.queue, asks]
    simp [after, Record.advance, able]
  have log : (x.after opt respond i).log = [] := by
    simp [after, Record.advance, answered, stands.closed idle]
  have bus : x.bus opt respond i = ⟨i.stall, false, false, i.float⟩ := Slave.bus_of_none silent
  have noErr : (x.bus opt respond i).err = false := congrArg Bus.err bus
  have noAck : (x.bus opt respond i).ack = false := congrArg Bus.ack bus
  have none : x.record.queue.length = 0 := by rw [idle]; rfl
  refine ⟨(stands.advance same).stands ?_ ?_ ?_ (by rw [silent]; nofun), ?_⟩
  · rw [queue, asks]
    exact stands.counts.clock_free none off noErr noAck
  · rw [queue, asks]
    exact Pipemem.keeps_free stands.counts none off noErr noAck
  · rw [log]
    exact fun _ member => absurd member List.not_mem_nil
  · rw [tells_quiet off silent, answered]
    rfl

/-- The oldest access fails. -/
theorem Stands.fails (same : opt.Matches o) (stands : Stands opt o respond x)
    (fails : x.reply opt respond i = some .err) : Follows opt o respond x i := by
  have bus : x.bus opt respond i = ⟨i.stall, false, true, i.float⟩ := Slave.bus_of_err fails
  have err : (x.bus opt respond i).err = true := congrArg Bus.err bus
  rcases @Stands.replies aw opt respond x i o same stands with ⟨none, -⟩ | ⟨a, rest, able, -, -⟩
  · rw [fails] at none
    contradiction
  have under : x.record.queue ≠ [] := by
    rw [← @Record.queue_split x.record i.stall, able]
    exact List.cons_ne_nil _ _
  have busy : x.core.cyc = true := stands.counts.cyc.trans (decide_eq_true (List.length_pos_of_ne_nil under))
  obtain ⟨counts, gbl, lcl⟩ := @Pipemem.clock_fail aw opt x.core i (x.bus opt respond i) busy err
  have advanced := @Stands.advance aw opt respond x i o same stands
  have record : (x.step opt respond i).record =
      (x.after opt respond i).close := if_pos (.inl fails)
  have answered : x.record.answered i.stall (x.reply opt respond i) = [(a, .err)] := by
    rw [Record.answered, able, fails]
    rfl
  -- with the cycle go the answers that the slave has still to give
  have off_ : (x.step opt respond i).cyc opt = false := by
    rw [Overlapped.cyc]
    exact Bool.or_eq_false_iff.mpr ⟨gbl, lcl⟩
  have done := advanced.logged
  refine ⟨⟨?_, ?_, ?_, ?_, ?_⟩, ?_⟩
  · rw [record]
    exact counts
  · rw [record]
    exact ⟨trivial, by simp [Record.close, Record.queue], by simp [Record.close, Record.queue],
      by simp [Record.close, Record.queue], by simp [Record.close], by simp [Record.close], by simp [Record.close]⟩
  · rw [record]
    exact fun _ => rfl
  · rw [record]
    exact fun _ member => absurd member List.not_mem_nil
  · rw [record, off_]
    refine advanced.close ⟨?_, .inr ⟨x.record.log, a, ?_, stands.clean⟩⟩ Bool.noConfusion
    · rw [done, Run.accepted, answers_append]
      exact List.prefix_append _ _
    · rw [← answered]
      rfl
  · have valid : (x.step opt respond i).core.valid = false := by simp [step, Pipemem.clock, bus]
    have told : (x.step opt respond i).core.err = true := by simp [step, Pipemem.clock, bus, busy]
    rw [tells, valid, told, answered]
    rfl

theorem bus_noErr (noErr : x.reply opt respond i ≠ some .err) :
    (x.bus opt respond i).err = false ∧ (x.bus opt respond i).ack = (x.reply opt respond i).isSome := by
  cases reply : x.reply opt respond i with
  | none =>
    have bus : x.bus opt respond i = ⟨i.stall, false, false, i.float⟩ := Slave.bus_of_none reply
    exact ⟨congrArg Bus.err bus, congrArg Bus.ack bus⟩
  | some answer =>
    cases answer with
    | data value =>
      have bus : x.bus opt respond i = ⟨i.stall, true, false, value⟩ := Slave.bus_of_data reply
      exact ⟨congrArg Bus.err bus, congrArg Bus.ack bus⟩
    | err => exact absurd reply noErr

/-- What the CPU is told while a run goes on. -/
theorem Stands.told (same : opt.Matches o) (off : opt.alignmentErr = false) (stands : Stands opt o respond x)
    (busy : x.core.cyc = true) (noErr : x.reply opt respond i ≠ some .err) :
    (x.step opt respond i).tells =
      (x.record.answered i.stall (x.reply opt respond i)).flatMap fun e => e.1.report o e.2 := by
  cases reply : x.reply opt respond i with
  | none =>
    rw [tells_quiet off reply]
    simp [Record.answered]
  | some answer =>
    cases answer with
    | err => exact absurd reply noErr
    | data value =>
      have bus : x.bus opt respond i = ⟨i.stall, true, false, value⟩ := Slave.bus_of_data reply
      have some_ : x.record.able i.stall ≠ [] := stands.able_of_reply same (by rw [reply]; rfl)
      obtain ⟨a, rest, able⟩ := List.exists_cons_of_ne_nil some_
      have whole : x.record.queue = a :: (rest ++ (x.record.left i.stall).toList) := by
        rw [← @Record.queue_split x.record i.stall, able]
        rfl
      obtain ⟨valid, err, wreg, result⟩ := stands.keeps.told (i := i) whole off busy (congrArg Bus.ack bus)
        (congrArg Bus.err bus)
      have answered : x.record.answered i.stall (some (.data value)) = [(a, .data value)] := by
        rw [Record.answered, able]
        rfl
      have extracted : (x.step opt respond i).core.result =
          LoadStore.extracted o (sizeAndOffset a.op a.addr) value := by
        refine result.trans ?_
        rw [Pipemem.extracted_eq a same.big, bus]
      rw [tells, show (x.step opt respond i).core.valid = !a.store from valid,
        show (x.step opt respond i).core.err = false from err, extracted, answered]
      cases store : a.store with
      | true => simp [Access.report, store]
      | false =>
        rw [show (x.step opt respond i).core.wreg = a.oreg from wreg store]
        simp [Access.report, store]

/-- A run that goes on, after an answer or without. -/
theorem Stands.busy (same : opt.Matches o) (off : opt.alignmentErr = false) (stands : Stands opt o respond x)
    (under : x.record.queue ≠ []) (runs : x.Runs opt respond i) (fits : x.Fits opt respond i)
    (noErr : x.reply opt respond i ≠ some .err) : Follows opt o respond x i := by
  have counts := stands.counts
  have some_ : 0 < x.record.queue.length := List.length_pos_of_ne_nil under
  have busy : x.core.cyc = true := counts.cyc.trans (decide_eq_true some_)
  obtain ⟨quiet, ack⟩ := bus_noErr noErr
  have stall := @bus_stall aw opt respond x i
  have able : (x.bus opt respond i).ack = true → x.record.able i.stall ≠ [] := fun isAck =>
    stands.able_of_reply same (ack ▸ isAck)
  have left : (x.record.left i.stall).toList.length =
      (x.record.offered.isSome && (x.bus opt respond i).stall).toNat := by
    rw [stall, Record.left]
    cases i.stall <;> cases x.record.offered <;> rfl
  have answers : (x.bus opt respond i).ack = true →
      (x.record.offered.isSome && (x.bus opt respond i).stall).toNat < x.record.queue.length := by
    intro isAck
    rw [← left, ← @Record.queue_split x.record i.stall, List.length_append]
    have more := List.length_pos_of_ne_nil (able isAck)
    omega
  have following : x.following opt respond i = Pipelined.rest x.record.queue (x.bus opt respond i).ack := by
    rw [Overlapped.following, if_neg noErr, ack]
  -- the cell behind the ring is written at every clock, so one of them has to be free
  have room : (Pipelined.rest x.record.queue (x.bus opt respond i).ack).length < 16 := by
    by_cases deep : opt.maxDepth = 0
    · rw [← following]
      exact fits.cells deep
    · have most := (counts.room deep).1
      have small := opt.maxDepth.isLt
      rw [Pipelined.rest_length]
      omega
  have waits : i.ask.isSome = true → x.record.left i.stall = none := by
    intro asks
    have open_ := (counts.asked_strobe busy (runs.free asks)).2.1
    rw [stall] at open_
    rw [Record.left, open_]
    rfl
  have queue : (x.after opt respond i).queue =
      Pipelined.rest x.record.queue (x.bus opt respond i).ack ++ i.ask.toList := by
    rw [Record.queue, after, Record.advance, Record.offered_next waits, ← ack, ← @Record.queue_split x.record i.stall,
      Pipelined.rest_append _ able, List.append_assoc]
  have asks : (x.after opt respond i).offered =
      i.ask.or (if (x.bus opt respond i).stall then x.record.offered else none) := by
    rw [stall]
    rfl
  have length : (x.after opt respond i).queue.length =
      x.record.queue.length - (x.bus opt respond i).ack.toNat + i.ask.toList.length := by
    rw [queue, List.length_append, Pipelined.rest_length]
  refine ⟨(stands.advance same).stands ?_ ?_ ?_ noErr, ?_⟩
  · have strobe : (i.ask.or (if (x.bus opt respond i).stall then x.record.offered else none)).isSome =
        (i.ask.isSome || x.record.offered.isSome && (x.bus opt respond i).stall) := by
      cases i.ask <;> cases (x.bus opt respond i).stall <;> simp
    rw [length, asks, strobe]
    exact counts.clock_busy some_ off quiet answers (by rwa [Pipelined.rest_length] at room) runs.free
  · rw [queue, asks]
    exact stands.keeps.clock_busy counts some_ off quiet answers room runs.free runs.alike
      fun a asked b waits => fits.sets a asked b (following ▸ waits)
  · intro e member
    rcases List.mem_append.mp member with old | new
    · exact stands.clean e old
    · intro err
      obtain ⟨a, -, told⟩ := List.mem_flatMap.mp new
      obtain ⟨answer, replied, rfl⟩ := List.mem_map.mp told
      exact noErr ((Option.mem_toList.mp replied).trans (congrArg some err))
  · exact stands.told same off busy noErr

theorem Stands.step (same : opt.Matches o) (off : opt.alignmentErr = false) (stands : Stands opt o respond x)
    (runs : x.Runs opt respond i) (fits : x.Fits opt respond i) : Follows opt o respond x i := by
  by_cases under : x.record.queue = []
  · exact stands.idle same off under
  · by_cases err : x.reply opt respond i = some .err
    · exact stands.fails same err
    · exact stands.busy same off under runs fits err

/-- What is asked for is answered, under way, or dropped with a run. -/
theorem Stands.asked_step (same : opt.Matches o) (stands : Stands opt o respond x) (runs : x.Runs opt respond i) :
    (x.step opt respond i).record.asked = x.record.asked ++ i.ask.toList := by
  have free : i.ask.isSome = true → x.record.left i.stall = none := by
    intro asks
    rw [Record.left]
    by_cases under : x.record.queue = []
    · rw [Option.toList_eq_nil_iff.mp (List.append_eq_nil_iff.mp under).2, ite_self]
    · have busy := stands.counts.cyc.trans (decide_eq_true (List.length_pos_of_ne_nil under))
      have open_ := (stands.counts.asked_strobe busy (runs.free asks)).2.1
      rw [bus_stall] at open_
      rw [open_]
      rfl
  exact (Record.next_of_close fun r => @Record.close_asked r).trans
    (Record.advance_asked (fun some_ => stands.able_of_reply same some_) free)

/-! ### A whole run -/

/-- Power-up. -/
def powerUp (free : Pipemem aw) : Overlapped aw := ⟨.powerUp free, ⟨[], []⟩, ⟨[], [], [], none⟩⟩

/-- What the CPU has been told. -/
def told (opt : Pipemem.Options) (respond : Respond aw) (x : Overlapped aw) (is : List Inputs) : List Report :=
  Clocked.emitted (step opt respond) (fun x _ => x.tells) x is ++ (Clocked.run (step opt respond) x is).tells

theorem stands_powerUp (opt : Pipemem.Options) (o : Options) (respond : Respond aw) (free : Pipemem aw) :
    Stands opt o respond (.powerUp free) := by
  refine ⟨⟨Nat.zero_le _, rfl, rfl, rfl, rfl, rfl, ?_, Nat.zero_le _, fun deep => ?_⟩, ?_, fun _ => rfl, ?_, ?_⟩
  · exact (Circular.place_zero _).symm
  · exact ⟨Nat.zero_le _, fun _ => Pipemem.depth_pos deep⟩
  · exact ⟨trivial, nofun, nofun, nofun, nofun, nofun, nofun⟩
  · exact nofun
  · exact ⟨rfl, fun _ => rfl, rfl, trivial⟩

/-- In every run everything asked for has its place in the record, and what the CPU is told is what has been
answered.
-/
theorem told_answers (same : opt.Matches o) (off : opt.alignmentErr = false) (free : Pipemem aw) {is : List Inputs}
    (runs : Clocked.Always (step opt respond) (fun x i => x.Runs opt respond i ∧ x.Fits opt respond i)
      (.powerUp free) is) :
    let y := Clocked.run (step opt respond) (.powerUp free) is
    Stands opt o respond y ∧ y.record.asked = Bench.asks is ∧
      told opt respond (.powerUp free) is = y.record.reported.flatMap fun e => e.1.report o e.2 := by
  intro y
  have start := stands_powerUp opt o respond free
  have kept (x : Overlapped aw) (i : Inputs) (stands : Stands opt o respond x)
      (ok : x.Runs opt respond i ∧ x.Fits opt respond i) : Stands opt o respond (x.step opt respond i) :=
    (stands.step same off ok.1 ok.2).1
  have tells := @Clocked.conservation _ _ _ (step opt respond)
    (fun x i => x.Runs opt respond i ∧ x.Fits opt respond i) (Stands opt o respond) (fun x _ => x.tells)
    (fun x i => (x.record.answered i.stall (x.reply opt respond i)).flatMap fun e => e.1.report o e.2) tells kept
    (fun x i stands ok => by rw [(stands.step same off ok.1 ok.2).2]) _ is start runs
  have asked := @Clocked.conservation _ _ _ (step opt respond)
    (fun x i => x.Runs opt respond i ∧ x.Fits opt respond i) (Stands opt o respond) (fun _ _ => [])
    (fun _ i => i.ask.toList) (fun x => x.record.asked) kept
    (fun x i stands ok => stands.asked_step same ok.1) _ is start runs
  have logged := @Clocked.conservation_all _ _ _ (step opt respond) (fun _ _ => [])
    (fun x i => x.record.answered i.stall (x.reply opt respond i)) (fun x => x.record.reported)
    (fun x i => (Record.next_of_close fun r => @Record.close_reported r).trans Record.advance_reported)
    (.powerUp free) is
  rw [Clocked.emitted_nothing _ fun _ _ => rfl, List.nil_append] at asked logged
  rw [emitted_asks] at asked
  rw [← Clocked.emitted_flatMap] at tells
  refine ⟨Clocked.run_invariant kept start runs, asked, ?_⟩
  rw [told, tells, logged]
  rfl

end

end Overlapped

end IcoZip.LoadStore
