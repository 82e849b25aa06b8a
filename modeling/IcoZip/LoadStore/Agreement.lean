import Mathlib.Data.List.SplitLengths
import IcoZip.LoadStore.Overlapped

/-! `pipemem` does what `memops` does with the same accesses one at a time, unless it looks for misaligned ones:
then it refuses them all.
-/

set_option autoImplicit false

namespace IcoZip.LoadStore

variable {aw : Nat} {opt : Pipemem.Options} {o : Options} {respond : Respond aw}

/-! ### Runs and what they show -/

/-- What a run shows of the answers to its accesses: those up to an error. -/
def cut : List (Access × Answer) → List (Access × Answer)
  | [] => []
  | e :: log => if e.2 = .err then [e] else e :: cut log

open Overlapped in
theorem cut_append {log : List (Access × Answer)} (clean : Clean log) (more : List (Access × Answer)) :
    cut (log ++ more) = log ++ cut more := by
  induction log with
  | nil => rfl
  | cons e log ih =>
    have first : e.2 ≠ .err := clean e List.mem_cons_self
    rw [List.cons_append, cut, if_neg first, ih fun e member => clean e (List.mem_cons_of_mem _ member)]
    rfl

open Overlapped in
theorem cut_clean {log : List (Access × Answer)} (clean : Clean log) : cut log = log := by
  simpa [cut] using cut_append clean []

/-- Two lists of accesses with answers, one of which begins with the other. -/
theorem prefix_of {log whole : List (Access × Answer)} (accesses : log.map Prod.fst <+: whole.map Prod.fst)
    (answers : log.map Prod.snd <+: whole.map Prod.snd) : log <+: whole := by
  have first := List.prefix_iff_eq_take.mp accesses
  have second := List.prefix_iff_eq_take.mp answers
  rw [List.length_map, ← List.map_take] at first second
  exact List.prefix_iff_eq_take.mpr ((List.zip_of_prod first second).trans (List.zip_of_prod rfl rfl).symm)

namespace Overlapped

/-- A run that is over shows the answers to its accesses up to an error. -/
theorem Done.shows {history : List (Request aw)} {r : Run} {whole : List (Access × Answer)}
    (done : Done o respond history r) (accesses : whole.map Prod.fst = r.accepted)
    (answered : whole.map Prod.snd = answers o respond history r.accepted) : r.answered = cut whole := by
  obtain ⟨rest, split⟩ : r.answered <+: whole := by
    refine prefix_of ?_ ?_
    · rw [accesses]
      exact List.prefix_append _ _
    · rw [answered]
      exact done.prefix_
  rcases done.whole with ⟨clean, unanswered, -⟩ | ⟨before, a, last, clean⟩
  · have same : r.answered.length = whole.length := by
      have length := congrArg List.length accesses
      rw [Run.accepted, unanswered, List.append_nil, List.length_map, List.length_map] at length
      exact length.symm
    have all : r.answered = whole := List.IsPrefix.eq_of_length ⟨rest, split⟩ same
    rw [← all, cut_clean clean]
  · rw [← split, last, List.append_assoc, cut_append clean]
    rfl

theorem AllDone.of_mem {rs : List Run} {history : List (Request aw)} {r : Run} (done : AllDone o respond history rs)
    (member : r ∈ rs) : ∃ before, Done o respond before r := by
  induction rs generalizing history with
  | nil => exact absurd member List.not_mem_nil
  | cons first rs ih =>
    rcases List.mem_cons.mp member with rfl | later
    · exact ⟨history, done.1⟩
    · exact ih done.2 later

/-- And so for one run after another. -/
theorem AllDone.shows {rs : List Run} {history : List (Request aw)} {whole : List (Access × Answer)}
    {more : List Access} (done : AllDone o respond history rs)
    (accesses : whole.map Prod.fst = rs.flatMap Run.accepted ++ more)
    (answered : whole.map Prod.snd = answers o respond history (rs.flatMap Run.accepted ++ more)) :
    rs.flatMap Run.answered = ((rs.map fun r => r.accepted.length).splitLengths whole).flatMap cut := by
  induction rs generalizing history whole with
  | nil => rfl
  | cons r rs ih =>
    rw [List.flatMap_cons, List.append_assoc] at accesses answered
    rw [answers_append] at answered
    have size : (r.accepted.length : Nat) = (answers o respond history r.accepted).length := (answers_length _ _).symm
    have first : r.answered = cut (whole.take r.accepted.length) := by
      refine done.1.shows ?_ ?_
      · rw [List.map_take, accesses, List.take_left]
      · rw [List.map_take, answered, size, List.take_left]
    have rest := @ih (history ++ r.accepted.map (Access.request aw o)) (whole.drop r.accepted.length) done.2
      (by rw [List.map_drop, accesses, List.drop_left]) (by rw [List.map_drop, answered, size, List.drop_left])
    rw [List.flatMap_cons, List.map_cons, List.splitLengths_cons, List.flatMap_cons, ← first, ← rest]

/-! ### Misaligned accesses -/

/-- Every case of the table is the strobe. -/
theorem Pipemem.misaligned_on (on : opt.alignmentErr = true) (op : BitVec 3) (addr : BitVec 32) (stb : Bool) :
    Pipemem.misaligned opt op addr stb = stb := by
  simp only [Pipemem.misaligned, on, if_true, ite_self]

/-- Nothing has been requested, and nothing is under way. -/
structure Silent (x : Overlapped aw) : Prop where
  cyc : x.core.cyc = false
  cycGbl : x.core.cycGbl = false
  cycLcl : x.core.cycLcl = false
  stbGbl : x.core.stbGbl = false
  stbLcl : x.core.stbLcl = false
  lockGbl : x.core.lockGbl = false
  lockLcl : x.core.lockLcl = false
  empty : x.slave = ⟨[], []⟩

/-- When it looks for misaligned accesses, `pipemem` refuses every access. -/
theorem Silent.step {x : Overlapped aw} {i : Inputs} (on : opt.alignmentErr = true) (silent : x.Silent) :
    (x.step opt respond i).Silent ∧ (x.step opt respond i).tells = i.ask.toList.map fun _ => .err := by
  obtain ⟨cyc, cycGbl, cycLcl, stbGbl, stbLcl, lockGbl, lockLcl, empty⟩ := silent
  have lines : x.cyc opt = false := by
    simp [Overlapped.cyc, Pipemem.wbCycGbl, Pipemem.wbCycLcl, cycGbl, cycLcl, lockGbl, lockLcl]
  have further : Slave.accepted (x.cyc opt) (x.offer opt) i = [] := by rw [Slave.accepted, lines]; rfl
  have outstanding : x.slave.outstanding respond (x.cyc opt) (x.offer opt) i = [] := by
    rw [Slave.outstanding, lines]
    rfl
  have reply : x.reply opt respond i = none := by
    rw [Overlapped.reply, Slave.reply, outstanding, Pipelined.reply_nil]
  have bus : x.bus opt respond i = ⟨i.stall, false, false, i.float⟩ := Slave.bus_of_none reply
  have refused := @Pipemem.misaligned_on opt on i.cpu.op i.cpu.addr i.ask.isSome
  have gbl : i.ask.isSome = true → Pipemem.gblStb opt i.cpu.op i.cpu.addr i.ask.isSome = false := by
    intro asks
    rw [Pipemem.gblStb, refused, asks, Bool.not_true, Bool.and_false]
  have lcl : i.ask.isSome = true → Pipemem.lclStb opt i.cpu.op i.cpu.addr i.ask.isSome = false := by
    intro asks
    rw [Pipemem.lclStb, refused, asks, Bool.not_true, Bool.and_false]
  have valid : (x.step opt respond i).core.valid = false := by simp [Overlapped.step, Pipemem.clock, cyc]
  have err : (x.step opt respond i).core.err = i.ask.isSome := by
    simp [Overlapped.step, Pipemem.clock, cyc, refused]
  refine ⟨⟨?_, ?_, ?_, ?_, ?_, ?_, ?_, ?_⟩, ?_⟩
  · simp [Overlapped.step, Pipemem.clock, cyc, refused]
  · simpa [Overlapped.step, Pipemem.clock, cyc, cycGbl] using gbl
  · simpa [Overlapped.step, Pipemem.clock, cyc, cycLcl] using fun _ => lcl
  · simpa [Overlapped.step, Pipemem.clock, cyc, stbGbl] using gbl
  · simpa [Overlapped.step, Pipemem.clock, cyc, stbLcl] using fun _ => lcl
  · simp [Overlapped.step, Pipemem.clock, cycGbl, lockGbl]
  · simp [Overlapped.step, Pipemem.clock, cycLcl, lockLcl]
  · rw [Overlapped.step, Slave.step, outstanding, further, empty, Pipelined.rest_nil]
    rfl
  · rw [tells, valid, err]
    cases i.ask <;> rfl

end Overlapped

namespace Single

/-- Nothing has been requested, and nothing is under way. -/
structure Silent (x : Single aw) : Prop where
  free : x.core.Free
  empty : x.slave = ⟨[], []⟩

variable {x : Single aw} {i : Inputs}

theorem Silent.lines (silent : x.Silent) :
    x.slave.bus respond (x.cyc o) (x.offer o) i = ⟨i.stall, false, false, i.float⟩ ∧
      (x.step o respond i).slave = ⟨[], []⟩ := by
  obtain ⟨free, empty⟩ := silent
  have further : Slave.accepted (x.cyc o) (x.offer o) i = [] := by rw [offer_free free, Slave.accepted_none]
  have outstanding : x.slave.outstanding respond (x.cyc o) (x.offer o) i = [] := by
    rw [Slave.outstanding, further, empty]
    split_ifs <;> rfl
  have silent : x.reply o respond i = none := by rw [reply, Slave.reply, outstanding, Pipelined.reply_nil]
  refine ⟨Slave.bus_of_none silent, ?_⟩
  rw [Single.step, Slave.step, outstanding, further, empty, Pipelined.rest_nil]
  rfl

/-- `memops` refuses misaligned accesses. -/
theorem Silent.step (on : o.alignmentErr = true) (silent : x.Silent) (odd : ∀ a ∈ i.ask, a.aligned = false) :
    (x.step o respond i).Silent ∧ (x.step o respond i).tells = i.ask.toList.map fun _ => .err := by
  obtain ⟨bus, slave⟩ := @Silent.lines aw o respond x i silent
  have noAck : (x.slave.bus respond (x.cyc o) (x.offer o) i).ack = false := congrArg Bus.ack bus
  cases ask : i.ask with
  | none =>
    obtain ⟨free, valid, err⟩ := @Memops.clock_idle aw o _ _ _ silent.free (Bench.cpu_quiet ask).2 noAck
    refine ⟨⟨free, slave⟩, ?_⟩
    rw [tells_of valid err]
    rfl
  | some a =>
    have errs : a.errs o = true := by rw [Access.errs, on, odd a ask]; rfl
    obtain ⟨free, valid, err⟩ := Memops.clock_errs silent.free (Bench.cpu_asks ask) errs noAck
    refine ⟨⟨free, slave⟩, ?_⟩
    rw [tells_of valid err]
    rfl

/-- Something has been requested, or is on the lines. -/
inductive Requesting (o : Options) (x : Single aw) : Prop where
  | done : x.slave.history ≠ [] → Requesting o x
  | asks {a : Access} : x.core.Serves o a true → x.core.Requests o a → x.slave = ⟨[], []⟩ → Requesting o x

/-- It requests the others. -/
theorem Silent.requests {a : Access} (silent : x.Silent) (ask : i.ask = some a) (even : a.aligned = true) :
    (x.step o respond i).Requesting o := by
  obtain ⟨bus, slave⟩ := @Silent.lines aw o respond x i silent
  have errs : a.errs o = false := by rw [Access.errs, even, Bool.not_true, Bool.and_false]
  obtain ⟨serves, requests⟩ := Memops.clock_asks silent.free (Bench.cpu_asks ask) errs (congrArg Bus.ack bus)
  exact .asks serves requests slave

theorem Requesting.step (requesting : x.Requesting o) (polite : x.Polite i) : (x.step o respond i).Requesting o := by
  cases requesting with
  | done some_ => exact .done (List.append_ne_nil_of_left_ne_nil some_ _)
  | @asks a serves requests empty =>
    obtain ⟨reset, unasked⟩ := Bench.cpu_quiet (polite.quiet serves.busy)
    have offer := offer_asked serves requests
    have cyc := cyc_serves serves
    cases stall : i.stall with
    | true =>
      have further : Slave.accepted (x.cyc o) (x.offer o) i = [] := by rw [Slave.accepted, stall, cyc]; rfl
      have outstanding : x.slave.outstanding respond (x.cyc o) (x.offer o) i = [] := by
        rw [Slave.outstanding, further, empty, cyc]
        rfl
      have silent : x.reply o respond i = none := by rw [reply, Slave.reply, outstanding, Pipelined.reply_nil]
      have bus : x.slave.bus respond (x.cyc o) (x.offer o) i = ⟨true, false, false, i.float⟩ :=
        (Slave.bus_of_none silent).trans (by rw [stall])
      obtain ⟨still, lines⟩ := serves.clock reset unasked (congrArg Bus.ack bus) (congrArg Bus.err bus)
      rw [show (x.slave.bus respond (x.cyc o) (x.offer o) i).stall = true from congrArg Bus.stall bus] at still
      refine .asks still (lines requests) ?_
      rw [Single.step, Slave.step, outstanding, further, empty, Pipelined.rest_nil]
      rfl
    | false =>
      refine .done ?_
      simp [Single.step, Slave.step, Slave.accepted, cyc, stall, offer]

/-- The unit is free again when the request has been accepted. -/
theorem Requesting.history (requesting : x.Requesting o) (idle : x.core.busy = false) : x.slave.history ≠ [] := by
  cases requesting with
  | done some_ => exact some_
  | asks serves =>
    rw [serves.busy] at idle
    contradiction

end Single

/-! ### Whole runs -/

/-- What the CPU has been told by `memops`. -/
def Single.told (o : Options) (respond : Respond aw) (x : Single aw) (is : List Inputs) : List Report :=
  Clocked.emitted (step o respond) (fun x _ => x.tells) x is ++ (Clocked.run (step o respond) x is).tells

/-- What is told at each access that is asked for, along a run. -/
theorem emitted_refused {S : Type} (step : S → Inputs → S) (s : S) (is : List Inputs) :
    Clocked.emitted step (fun _ i => i.ask.toList.map fun _ => Report.err) s is =
      (Bench.asks is).map fun _ => Report.err := by
  rw [← emitted_asks step s is]
  exact (Clocked.emitted_hom rfl (fun _ _ => List.map_append) _ s is).symm

/-- Every access is refused by `pipemem`, and requests nothing. -/
theorem Overlapped.refuses (on : opt.alignmentErr = true) (free : Pipemem aw) (is : List Inputs) :
    (Clocked.run (step opt respond) (.powerUp free) is).slave = ⟨[], []⟩ ∧
      told opt respond (.powerUp free) is = (Bench.asks is).map fun _ => .err := by
  have start : Silent (powerUp free) := ⟨rfl, rfl, rfl, rfl, rfl, rfl, rfl, rfl⟩
  have always := @Clocked.always_of_forall _ _ (step opt respond) (fun _ _ => True) (fun _ _ => trivial)
    (.powerUp free) is
  have kept (x : Overlapped aw) (i : Inputs) (silent : x.Silent) (_ : True) : (x.step opt respond i).Silent :=
    (silent.step on).1
  have law := @Clocked.conservation _ _ _ (step opt respond) (fun _ _ => True) Silent (fun x _ => x.tells)
    (fun _ i => i.ask.toList.map fun _ => .err) tells kept (fun x i silent _ => by rw [(silent.step on).2])
    _ is start always
  rw [emitted_refused] at law
  exact ⟨(Clocked.run_invariant kept start always).empty, law⟩

/-- And every misaligned access by `memops`. -/
theorem Single.refuses (on : o.alignmentErr = true) (free : Memops aw) {is : List Inputs}
    (odd : ∀ a ∈ Bench.asks is, a.aligned = false) :
    (Clocked.run (step o respond) (.powerUp free) is).slave = ⟨[], []⟩ ∧
      told o respond (.powerUp free) is = (Bench.asks is).map fun _ => .err := by
  have start : Silent (powerUp free) := ⟨⟨rfl, rfl, rfl, rfl⟩, rfl⟩
  have always : Clocked.Always (step o respond) (fun _ i => ∀ a ∈ i.ask, a.aligned = false) (.powerUp free) is :=
    Clocked.always_of_inputs (fun i member _ a asks =>
      odd a (List.mem_flatMap.mpr ⟨i, member, Option.mem_toList.mpr asks⟩)) _
  have kept (x : Single aw) (i : Inputs) (silent : x.Silent) (odd : ∀ a ∈ i.ask, a.aligned = false) :
      (x.step o respond i).Silent := (silent.step on odd).1
  have law := @Clocked.conservation _ _ _ (step o respond) (fun _ i => ∀ a ∈ i.ask, a.aligned = false) Silent
    (fun x _ => x.tells) (fun _ i => i.ask.toList.map fun _ => .err) tells kept
    (fun x i silent odd => by rw [(silent.step on odd).2]) _ is start always
  rw [emitted_refused] at law
  exact ⟨(Clocked.run_invariant kept start always).empty, law⟩

/-- With an aligned access among them there is a request. -/
theorem Single.Silent.run_requests (on : o.alignmentErr = true) {x : Single aw} (silent : x.Silent) {is : List Inputs}
    (polite : Clocked.Always (Single.step o respond) Polite x is) {a : Access} (asked : a ∈ Bench.asks is)
    (even : a.aligned = true) : (Clocked.run (Single.step o respond) x is).Requesting o := by
  induction is generalizing x with
  | nil => exact absurd asked List.not_mem_nil
  | cons i is ih =>
    rw [Bench.asks_cons] at asked
    by_cases odd : ∀ b ∈ i.ask, b.aligned = false
    · rcases List.mem_append.mp asked with now | later
      · rw [odd a (Option.mem_toList.mp now)] at even
        contradiction
      · exact ih (silent.step on odd).1 polite.2 later
    -- this one is requested, and from then on there is a request
    · obtain ⟨b, some_⟩ := not_forall.mp odd
      obtain ⟨ask, some_⟩ := Classical.not_imp.mp some_
      have kept (x : Single aw) (i : Inputs) (requesting : x.Requesting o) (polite : x.Polite i) :
          (x.step o respond i).Requesting o := requesting.step polite
      rw [Clocked.run_cons]
      exact Clocked.run_invariant kept (silent.requests ask (by simpa using some_)) polite.2

/-- `pipemem` agrees with `memops` that does, one at a time, the accesses the slave has accepted, unless both look
for misaligned accesses: the requests are the same, and each run shows the answers of `memops` to its accesses up to
an error. If both look for them, they agree when every access is misaligned, and only then.
-/
theorem Overlapped.agrees (same : opt.Matches o) (respond : Respond aw) (free : Pipemem aw) (free' : Memops aw)
    (is js : List Inputs) :
    let y := Clocked.run (step opt respond) (.powerUp free) is
    let z := Clocked.run (Single.step o respond) (.powerUp free') js
    let lengths := y.record.runs.map fun r => r.accepted.length
    (opt.alignmentErr = false →
      Clocked.Always (step opt respond) (fun x i => x.Runs opt respond i ∧ x.Fits opt respond i) (.powerUp free) is →
      Clocked.Always (Single.step o respond) Single.Polite (.powerUp free') js →
      Bench.asks js = y.record.accepted → z.core.busy = false →
      y.slave.history = z.slave.history ∧
      Single.told o respond (.powerUp free') js = z.log.flatMap (fun e => e.1.report o e.2) ∧
      z.log.map Prod.fst = y.record.accepted ∧
      (∃ now, now <+: cut (z.log.drop lengths.sum) ∧ (y.core.cyc = false → now = []) ∧
        told opt respond (.powerUp free) is =
          ((lengths.splitLengths z.log).flatMap cut ++ now).flatMap fun e => e.1.report o e.2) ∧
      y.record.asked = Bench.asks is ∧
      ∀ r ∈ y.record.runs, r.unanswered ++ r.dropped ≠ [] → ∃ e ∈ r.answered, e.2 = .err) ∧
    (opt.alignmentErr = true → Clocked.Always (Single.step o respond) Single.Polite (.powerUp free') js →
      Bench.asks js = Bench.asks is → z.core.busy = false →
      (y.slave.history = z.slave.history ∧
        told opt respond (.powerUp free) is = Single.told o respond (.powerUp free') js ↔
        ∀ a ∈ Bench.asks is, a.aligned = false)) := by
  intro y z lengths
  refine ⟨fun off runs polite accepts idle => ?_, fun on polite asks idle => ?_⟩
  · obtain ⟨stands, asked, told_⟩ := told_answers same off free runs
    obtain ⟨stands', asked', told'⟩ := Single.told_answers (same.alignmentErr.trans off) free' polite
    obtain ⟨none, recorded⟩ := stands'.idle idle
    have accesses : z.log.map Prod.fst = y.record.accepted := by
      have whole : z.log.map Prod.fst ++ z.current.toList = y.record.accepted := asked'.trans accepts
      rwa [show z.current = Option.none from none, Option.toList_none, List.append_nil] at whole
    have answered : z.log.map Prod.snd = answers o respond [] y.record.accepted := by rw [← accesses, recorded.log]
    have history : y.slave.history = z.slave.history := by
      rw [stands.recorded.history, recorded.history, accesses, List.append_nil]
    have shown := stands.recorded.done.shows accesses answered
    have total : lengths.sum = (y.record.runs.flatMap Run.accepted).length := by rw [List.length_flatMap]
    refine ⟨history, told', accesses, ⟨y.record.log, ?_, ?_, ?_⟩, asked, ?_⟩
    -- what has been answered of the present run comes first in what is left of the answers of `memops`
    · have size : lengths.sum = (answers o respond [] (y.record.runs.flatMap Run.accepted)).length := by
        rw [total, answers_length]
      obtain ⟨more, split⟩ : y.record.log <+: z.log.drop lengths.sum := by
        refine prefix_of ?_ ?_
        · rw [List.map_drop, accesses, total, Record.accepted, List.drop_left]
          exact List.prefix_append _ _
        · rw [List.map_drop, answered, size, Record.accepted, answers_append, List.drop_left, answers_append,
            stands.recorded.logged]
          exact List.prefix_append _ _
      rw [← split, cut_append stands.clean]
      exact List.prefix_append _ _
    · intro finished
      refine stands.closed (List.length_eq_zero_iff.mp (Nat.eq_zero_of_not_pos fun some_ => ?_))
      rw [stands.counts.cyc] at finished
      exact absurd some_ (of_decide_eq_false finished)
    · rw [told_, Record.reported, shown]
    · intro r member left
      obtain ⟨_, done⟩ := stands.recorded.done.of_mem member
      rcases done.whole with ⟨-, unanswered, dropped⟩ | ⟨before, a, last, -⟩
      · rw [unanswered, dropped] at left
        exact absurd rfl left
      · exact ⟨(a, .err), by rw [last]; exact List.mem_append_right _ List.mem_cons_self, rfl⟩
  · have on' : o.alignmentErr = true := same.alignmentErr.trans on
    obtain ⟨empty, refused⟩ := @refuses aw opt respond on free is
    refine ⟨fun alike a asked => ?_, fun odd => ?_⟩
    · by_contra even
      have requesting := Single.Silent.run_requests on' ⟨⟨rfl, rfl, rfl, rfl⟩, rfl⟩ polite
        (asks ▸ asked) (by simpa using even)
      exact requesting.history idle (alike.1.symm.trans (congrArg Slave.history empty))
    · obtain ⟨empty', refused'⟩ := @Single.refuses aw o respond on' free' js (by rwa [asks])
      rw [asks] at refused'
      exact ⟨by rw [empty, empty'], refused.trans refused'.symm⟩

instance (opt : Pipemem.Options) (respond : Respond aw) (x : Overlapped aw) (i : Inputs) :
    Decidable (x.Runs opt respond i) :=
  decidable_of_iff ((i.ask.isSome = true → x.core.pipeStalled (x.bus opt respond i) = false) ∧ ∀ a ∈ i.ask,
      ∀ b ∈ x.record.queue, b.store = a.store ∧ Pipemem.lclBus opt b.addr = Pipemem.lclBus opt a.addr)
    ⟨fun h => ⟨h.1, h.2⟩, fun h => ⟨h.free, h.alike⟩⟩

instance (opt : Pipemem.Options) (respond : Respond aw) (x : Overlapped aw) (i : Inputs) :
    Decidable (x.Fits opt respond i) :=
  decidable_of_iff ((∀ a ∈ i.ask, ∀ b ∈ x.following opt respond i, b.store = false →
      b.oreg.getLsbD 4 = a.oreg.getLsbD 4) ∧ (opt.maxDepth = 0 → (x.following opt respond i).length < 16))
    ⟨fun h => ⟨h.1, h.2⟩, fun h => ⟨h.sets, h.cells⟩⟩

instance (x : Single aw) (i : Inputs) : Decidable (x.Polite i) :=
  inferInstanceAs (Decidable (i.ask.isSome = true → x.core.busy = false))

/-- Word 3 fails, and the others count what has been accepted before. -/
def counting : Respond 4 := fun history r =>
  if r.addr = 3 then .err else .data (0x12345600 + BitVec.ofNat 32 history.length)

def clockOf (ask : Option Access) : Inputs := ⟨ask, ⟨false, false, true, 7, 9, 11, 13⟩, false, true, 17⟩

/-- Four loads in a row, the third of which fails, and a store. -/
def inRow : List Inputs :=
  [clockOf (some ⟨false, .word, 0, 0, 1⟩), { clockOf (some ⟨false, .half, 6, 0, 2⟩) with answer := false },
    clockOf (some ⟨false, .byte, 12, 0, 3⟩), clockOf (some ⟨false, .byte, 17, 0, 4⟩), clockOf none, clockOf none,
    clockOf (some ⟨true, .byte, 5, 0xff99, 0⟩), { clockOf none with stall := true }, clockOf none]

/-- One at a time. -/
def oneByOne : List Inputs :=
  [⟨false, .word, 0, 0, 1⟩, ⟨false, .half, 6, 0, 2⟩, ⟨false, .byte, 12, 0, 3⟩, ⟨false, .byte, 17, 0, 4⟩,
    ⟨true, .byte, 5, 0xff99, 0⟩].flatMap fun a => [clockOf (some a), clockOf none]

def anyPipemem : Pipemem 4 :=
  ⟨false, false, false, false, false, false, 0, 0, 0, 0, 0, false, fun _ => 0, false, false, false, false, false, 0, 0⟩

def anyMemops : Memops 4 := ⟨false, false, false, false, false, 0, 0, 0, 0, false, false, false, false, false, 0, 0⟩

/-- `pipemem` with every option but the one for misaligned accesses, and `memops` with the same. -/
def trusting : Pipemem.Options := ⟨true, true, true, false, 13⟩

def trusting' : Options := ⟨true, true, false, false, false⟩

theorem Overlapped.agrees_inRow :
    told trusting counting (.powerUp anyPipemem) inRow = [.result 1 0x12345600, .result 2 0x5601, .err] := by
  have runs : Clocked.Always (step trusting counting)
      (fun x i => x.Runs trusting counting i ∧ x.Fits trusting counting i) (.powerUp anyPipemem) inRow := by
    decide +kernel
  have polite : Clocked.Always (Single.step trusting' counting) Single.Polite (.powerUp anyMemops) oneByOne := by
    decide +kernel
  have accepts : Bench.asks oneByOne =
      (Clocked.run (step trusting counting) (.powerUp anyPipemem) inRow).record.accepted := by decide +kernel
  obtain ⟨-, -, -, ⟨now, -, finished, told⟩, -, -⟩ :=
    (@agrees 4 trusting trusting' ⟨rfl, rfl, rfl⟩ counting anyPipemem anyMemops inRow oneByOne).1 rfl runs polite
      accepts (by decide +kernel)
  rw [told, finished (by decide +kernel)]
  decide +kernel

/-- The options with the one for misaligned accesses. -/
def looking : Pipemem.Options := ⟨true, true, true, true, 13⟩

def looking' : Options := ⟨true, true, true, false, false⟩

/-- A load of a word at a multiple of four. -/
def loadsWord : List Inputs := [clockOf (some ⟨false, .word, 4, 0, 1⟩), clockOf none, clockOf none]

/-- Looking for misaligned accesses, `pipemem` refuses this load, which `memops` does. -/
theorem Overlapped.refuses_aligned :
    (∀ a ∈ Bench.asks loadsWord, a.aligned = true) ∧
      Clocked.Always (step looking counting) (fun x i => x.Runs looking counting i ∧ x.Fits looking counting i)
        (.powerUp anyPipemem) loadsWord ∧
      Clocked.Always (Single.step looking' counting) Single.Polite (.powerUp anyMemops) loadsWord ∧
      told looking counting (.powerUp anyPipemem) loadsWord = [.err] ∧
      (Clocked.run (step looking counting) (.powerUp anyPipemem) loadsWord).slave.history = [] ∧
      Single.told looking' counting (.powerUp anyMemops) loadsWord = [.result 1 0x12345600] ∧
      (Clocked.run (Single.step looking' counting) (.powerUp anyMemops) loadsWord).slave.history =
        [⟨false, false, 1, 0xf, 0⟩] := by
  decide +kernel

end IcoZip.LoadStore
