import IcoZip.LoadStore.Transfers

/-! `memops` in front of a slave that may answer with an error: it requests what it is asked for, one access at a
time, and tells the CPU what the slave has answered.
-/

set_option autoImplicit false

namespace IcoZip.LoadStore

variable {aw : Nat} {opt : Options}

/-- The slave answers with an error. -/
theorem Memops.Serves.fail {s : Memops aw} {i : Cpu} {bus : Bus} {a : Access} {asked : Bool}
    (serves : s.Serves opt a asked) (reset : i.reset = false) (quiet : i.stb = false) (noAck : bus.ack = false)
    (err : bus.err = true) :
    (s.clock opt i bus).Free ∧ (s.clock opt i bus).valid = false ∧ (s.clock opt i bus).err = true := by
  have busy := serves.busy
  have gbl : gblStb opt i.op i.addr i.stb = false := by simp [gblStb, quiet]
  have lcl : lclStb opt i.op i.addr i.stb = false := by simp [lclStb, quiet]
  obtain ⟨cycGbl, cycLcl, stbGbl, stbLcl, -, -, -, -, -⟩ := serves
  refine ⟨⟨?_, ?_, ?_, ?_⟩, ?_, ?_⟩
  · simp [Memops.clock, busy, err]
  · simp [Memops.clock, busy, err]
  · cases bus_ : a.lcl opt <;> cases asked <;> simp_all [Memops.clock, Memops.wbCycGbl]
  · cases bus_ : a.lcl opt <;> cases asked <;> simp_all [Memops.clock, Memops.wbCycLcl]
  · simp [Memops.clock, noAck]
  · simp [Memops.clock, busy, err, reset]

namespace Single

variable {respond : Respond aw} {x : Single aw} {i : Inputs} {a : Access} {asked : Bool}

/-- The requests and answers so far, where these accesses have been accepted but not answered. -/
structure Recorded (opt : Options) (respond : Respond aw) (x : Single aw) (accepted : List Access) : Prop where
  history : x.slave.history = (x.log.map Prod.fst ++ accepted).map (Access.request aw opt)
  waiting : x.slave.waiting = answers opt respond ((x.log.map Prod.fst).map (Access.request aw opt)) accepted
  log : x.log.map Prod.snd = answers opt respond [] (x.log.map Prod.fst)

/-- Where an access stands. -/
inductive Stands (opt : Options) (respond : Respond aw) (x : Single aw) : Prop where
  | free : x.core.Free → x.current = none → x.Recorded opt respond [] → Stands opt respond x
  | asked {a : Access} : x.core.Serves opt a true → x.core.Requests opt a → x.current = some a →
      x.Recorded opt respond [] → Stands opt respond x
  | waits {a : Access} : x.core.Serves opt a false → x.current = some a → x.Recorded opt respond [a] →
      Stands opt respond x

theorem cyc_serves (serves : x.core.Serves opt a asked) : x.cyc opt = true := by
  simp only [cyc, Memops.wbCycGbl, Memops.wbCycLcl, serves.cycGbl, serves.cycLcl]
  cases a.lcl opt <;> simp

theorem offer_free (free : x.core.Free) : x.offer opt = none := by
  simp [offer, free.stbGbl, free.stbLcl]

theorem offer_waits (serves : x.core.Serves opt a false) : x.offer opt = none := by
  simp [offer, serves.stbGbl, serves.stbLcl]

theorem offer_asked (serves : x.core.Serves opt a true) (requests : x.core.Requests opt a) :
    x.offer opt = some (a.request aw opt) := by
  have gbl : (x.core.wbCycGbl opt && x.core.stbGbl) = !a.lcl opt := by
    rw [Memops.wbCycGbl, serves.cycGbl, serves.stbGbl]
    cases a.lcl opt <;> simp
  have lcl : (x.core.wbCycLcl opt && x.core.stbLcl) = a.lcl opt := by
    rw [Memops.wbCycLcl, serves.cycLcl, serves.stbLcl]
    cases a.lcl opt <;> simp
  rw [offer, gbl, lcl, if_pos (by cases a.lcl opt <;> rfl), serves.we, requests.addr, requests.sel, requests.data]
  rfl

theorem Polite.quiet (polite : x.Polite i) (busy : x.core.busy = true) : i.ask = none := by
  cases ask : i.ask with
  | none => rfl
  | some a =>
    have free := polite (by simp [ask])
    rw [busy] at free
    contradiction

theorem tells_of {valid err : Bool} (isValid : x.core.valid = valid) (isErr : x.core.err = err) :
    x.tells = (if valid then [.result x.core.wreg x.core.result] else []) ++ if err then [.err] else [] := by
  rw [tells, isValid, isErr]

/-- Nothing is answered in this clock. -/
theorem Recorded.keep {accepted : List Access} (recorded : x.Recorded opt respond accepted)
    (silent : x.reply opt respond i = none) (further : Slave.accepted (x.cyc opt) (x.offer opt) i = [])
    (outstanding : x.slave.outstanding respond (x.cyc opt) (x.offer opt) i = x.slave.waiting) :
    (x.step opt respond i).Recorded opt respond accepted := by
  have log : (x.step opt respond i).log = x.log := by simp [step, answered, silent]
  refine ⟨?_, ?_, ?_⟩
  · rw [log, ← recorded.history]
    simp [step, Slave.step, further]
  · rw [log, ← recorded.waiting, ← outstanding]
    exact Pipelined.rest_of_none silent
  · rw [log, recorded.log]

/-- The slave has accepted the request, in this clock or before, and may answer. -/
theorem law_served (serves : x.core.Serves opt a asked) (accepted : (asked && i.stall) = false)
    (current : x.current = some a)
    (outstanding : x.slave.outstanding respond (x.cyc opt) (x.offer opt) i =
      [respond ((x.log.map Prod.fst).map (Access.request aw opt)) (a.request aw opt)])
    (history : (x.step opt respond i).slave.history = (x.log.map Prod.fst ++ [a]).map (Access.request aw opt))
    (log : x.log.map Prod.snd = answers opt respond [] (x.log.map Prod.fst)) (quiet : i.ask = none) :
    Stands opt respond (x.step opt respond i) ∧
      (x.step opt respond i).tells = (x.answered opt respond i).flatMap fun e => e.1.report opt e.2 := by
  obtain ⟨reset, unasked⟩ := Bench.cpu_quiet quiet
  generalize answer_ : respond ((x.log.map Prod.fst).map (Access.request aw opt)) (a.request aw opt) = r at outstanding
  have waiting : (x.step opt respond i).slave.waiting = Pipelined.rest [r] i.answer := by
    rw [← outstanding]
    rfl
  -- The slave waits, or it answers with a value or an error.
  cases answer : i.answer with
  | false =>
    have silent : x.reply opt respond i = none := by rw [reply, Slave.reply, outstanding, answer]; rfl
    have bus : x.slave.bus respond (x.cyc opt) (x.offer opt) i = ⟨i.stall, false, false, i.float⟩ :=
      Slave.bus_of_none silent
    have still := (serves.clock reset unasked (congrArg Bus.ack bus) (congrArg Bus.err bus)).1
    rw [show (x.slave.bus respond (x.cyc opt) (x.offer opt) i).stall = i.stall from congrArg Bus.stall bus,
      accepted] at still
    have told : (x.step opt respond i).tells = [] := by
      rw [tells_of still.valid still.err]
      rfl
    have log' : (x.step opt respond i).log = x.log := by simp [step, answered, silent]
    refine ⟨.waits still ?_ ⟨?_, ?_, ?_⟩, ?_⟩
    · simp [step, silent, quiet, current]
    · rw [history, log']
    · rw [waiting, log', answer, ← answer_]
      rfl
    · rw [log', log]
    · rw [told, answered, silent]
      simp
  | true =>
    have replied : x.reply opt respond i = some r := by rw [reply, Slave.reply, outstanding, answer]; rfl
    have log' : (x.step opt respond i).log = x.log ++ [(a, r)] := by simp [step, answered, replied, current]
    have recorded : (x.step opt respond i).Recorded opt respond [] := by
      refine ⟨?_, ?_, ?_⟩
      · rw [history, log']
        simp
      · rw [waiting, answer]
        rfl
      · rw [log', List.map_append, List.map_append, answers_append, log, ← answer_]
        rfl
    have done : (x.step opt respond i).current = none := by simp [step, replied]
    have answered_ : x.answered opt respond i = [(a, r)] := by simp [answered, replied, current]
    rw [answered_]
    cases r with
    | data value =>
      have bus : x.slave.bus respond (x.cyc opt) (x.offer opt) i = ⟨i.stall, true, false, value⟩ :=
      Slave.bus_of_data replied
      obtain ⟨free, valid, err, wreg, result⟩ :=
        serves.finish reset unasked (congrArg Bus.ack bus) (congrArg Bus.err bus) (by rw [bus, accepted])
      refine ⟨.free free done recorded, ?_⟩
      rw [tells_of valid err, show (x.step opt respond i).core.wreg = a.oreg from wreg,
        show (x.step opt respond i).core.result = extracted opt (sizeAndOffset a.op a.addr) value from
          result.trans (by rw [bus])]
      cases store : a.store <;> simp [Access.report, store]
    | err =>
      have bus : x.slave.bus respond (x.cyc opt) (x.offer opt) i = ⟨i.stall, false, true, i.float⟩ :=
      Slave.bus_of_err replied
      obtain ⟨free, valid, err⟩ := serves.fail reset unasked (congrArg Bus.ack bus) (congrArg Bus.err bus)
      refine ⟨.free free done recorded, ?_⟩
      rw [tells_of valid err]
      rfl

/-- The unit is free. -/
theorem law_free (alignment : opt.alignmentErr = false) (free : x.core.Free) (none_ : x.current = none)
    (recorded : x.Recorded opt respond []) :
    Stands opt respond (x.step opt respond i) ∧
      (x.step opt respond i).tells = (x.answered opt respond i).flatMap fun e => e.1.report opt e.2 := by
  have further : Slave.accepted (x.cyc opt) (x.offer opt) i = [] := by rw [offer_free free, Slave.accepted_none]
  have empty : x.slave.waiting = [] := recorded.waiting
  have outstanding : x.slave.outstanding respond (x.cyc opt) (x.offer opt) i = x.slave.waiting := by
    rw [Slave.outstanding, further, empty]
    split_ifs <;> rfl
  have silent : x.reply opt respond i = none := by
    rw [reply, Slave.reply, outstanding, empty, Pipelined.reply_nil]
  have bus : x.slave.bus respond (x.cyc opt) (x.offer opt) i = ⟨i.stall, false, false, i.float⟩ :=
      Slave.bus_of_none silent
  have noAck : (x.slave.bus respond (x.cyc opt) (x.offer opt) i).ack = false := congrArg Bus.ack bus
  have kept := recorded.keep silent further outstanding
  have none' : x.answered opt respond i = [] := by simp [answered, silent]
  rw [none']
  cases ask : i.ask with
  | none =>
    obtain ⟨reset, quiet⟩ := Bench.cpu_quiet ask
    obtain ⟨free', valid, err⟩ := @Memops.clock_idle aw opt _ _ _ free quiet noAck
    refine ⟨.free free' ?_ kept, ?_⟩
    · simp [step, silent, ask, none_]
    · rw [tells_of valid err]
      rfl
  | some a =>
    have errs : a.errs opt = false := by rw [Access.errs, alignment, Bool.false_and]
    obtain ⟨serves, requests⟩ := Memops.clock_asks free (Bench.cpu_asks ask) errs noAck
    refine ⟨.asked serves requests ?_ kept, ?_⟩
    · simp [step, silent, ask]
    · rw [tells_of serves.valid serves.err]
      rfl

theorem Stands.step (alignment : opt.alignmentErr = false) (stands : Stands opt respond x) (polite : x.Polite i) :
    Stands opt respond (x.step opt respond i) ∧
      (x.step opt respond i).tells = (x.answered opt respond i).flatMap fun e => e.1.report opt e.2 := by
  cases stands with
  | free free none recorded => exact law_free alignment free none recorded
  | @asked a serves requests current recorded =>
    have quiet := polite.quiet serves.busy
    have cyc := cyc_serves serves
    have offer := offer_asked serves requests
    have empty : x.slave.waiting = [] := recorded.waiting
    have history : x.slave.history = (x.log.map Prod.fst).map (Access.request aw opt) := by
      simpa using recorded.history
    cases stall : i.stall with
    | true =>
      have further : Slave.accepted (x.cyc opt) (x.offer opt) i = [] := by simp [Slave.accepted, stall]
      have outstanding : x.slave.outstanding respond (x.cyc opt) (x.offer opt) i = x.slave.waiting := by
        rw [Slave.outstanding, further, cyc]
        simp
      have silent : x.reply opt respond i = none := by
        rw [reply, Slave.reply, outstanding, empty, Pipelined.reply_nil]
      have bus : x.slave.bus respond (x.cyc opt) (x.offer opt) i = ⟨i.stall, false, false, i.float⟩ :=
      Slave.bus_of_none silent
      obtain ⟨reset, unasked⟩ := Bench.cpu_quiet quiet
      obtain ⟨still, lines⟩ := serves.clock reset unasked (congrArg Bus.ack bus) (congrArg Bus.err bus)
      rw [show (x.slave.bus respond (x.cyc opt) (x.offer opt) i).stall = true from
        (congrArg Bus.stall bus).trans stall] at still
      have told : (x.step opt respond i).tells = [] := by
        rw [tells_of still.valid still.err]
        rfl
      refine ⟨.asked still (lines requests) ?_ (recorded.keep silent further outstanding), ?_⟩
      · simp [Single.step, silent, quiet, current]
      · rw [told, answered, silent]
        simp
    | false =>
      refine law_served serves (by rw [stall]; rfl) current ?_ ?_ recorded.log quiet
      · simp [Slave.outstanding, Slave.accepted, cyc, stall, offer, empty, history]
      · simp [Single.step, Slave.step, Slave.accepted, cyc, stall, offer, history]
  | @waits a serves current recorded =>
    have quiet := polite.quiet serves.busy
    have further : Slave.accepted (x.cyc opt) (x.offer opt) i = [] := by rw [offer_waits serves, Slave.accepted_none]
    refine law_served serves rfl current ?_ ?_ recorded.log quiet
    · rw [Slave.outstanding, further, cyc_serves serves, recorded.waiting]
      rfl
    · rw [← recorded.history]
      simp [Single.step, Slave.step, further]

/-- The accesses asked for are answered, or under way. -/
theorem Stands.asked_step (stands : Stands opt respond x) (polite : x.Polite i) :
    (x.step opt respond i).log.map Prod.fst ++ (x.step opt respond i).current.toList =
      x.log.map Prod.fst ++ x.current.toList ++ i.ask.toList := by
  have busy_quiet {a : Access} {asked : Bool} (serves : x.core.Serves opt a asked) (current : x.current = some a) :
      (x.step opt respond i).log.map Prod.fst ++ (x.step opt respond i).current.toList =
        x.log.map Prod.fst ++ x.current.toList ++ i.ask.toList := by
    rw [polite.quiet serves.busy]
    cases replied : x.reply opt respond i <;> simp [Single.step, answered, current, replied, polite.quiet serves.busy]
  cases stands with
  | free free none recorded =>
    have empty : x.slave.waiting = [] := recorded.waiting
    have silent : x.reply opt respond i = Option.none := by
      rw [reply, Slave.reply, offer_free free, Slave.outstanding, Slave.accepted_none, empty]
      split_ifs <;> exact Pipelined.reply_nil i.answer
    cases ask : i.ask <;> simp [Single.step, answered, silent, none, ask]
  | asked serves _ current _ => exact busy_quiet serves current
  | waits serves current _ => exact busy_quiet serves current

theorem Stands.idle (stands : Stands opt respond x) (idle : x.core.busy = false) :
    x.current = none ∧ x.Recorded opt respond [] := by
  cases stands with
  | free _ current recorded => exact ⟨current, recorded⟩
  | asked serves =>
    rw [serves.busy] at idle
    contradiction
  | waits serves =>
    rw [serves.busy] at idle
    contradiction

/-- Power-up. -/
def powerUp (free : Memops aw) : Single aw := ⟨.powerUp free, ⟨[], []⟩, [], none⟩

/-- In every run everything asked for is answered or under way, and what the CPU is told is what has been answered. -/
theorem told_answers (alignment : opt.alignmentErr = false) (free : Memops aw) {is : List Inputs}
    (polite : Clocked.Always (step opt respond) Polite (.powerUp free) is) :
    let y := Clocked.run (step opt respond) (.powerUp free) is
    Stands opt respond y ∧ y.log.map Prod.fst ++ y.current.toList = Bench.asks is ∧
      Clocked.emitted (step opt respond) (fun x _ => x.tells) (.powerUp free) is ++ y.tells =
        y.log.flatMap fun e => e.1.report opt e.2 := by
  intro y
  have start : Stands opt respond (.powerUp free) := .free ⟨rfl, rfl, rfl, rfl⟩ rfl ⟨rfl, rfl, rfl⟩
  have kept (x : Single aw) (i : Inputs) (stands : Stands opt respond x) (polite : x.Polite i) :
      Stands opt respond (x.step opt respond i) := (stands.step alignment polite).1
  have told := @Clocked.conservation _ _ _ (step opt respond) Polite (Stands opt respond) (fun x _ => x.tells)
    (fun x i => (x.answered opt respond i).flatMap fun e => e.1.report opt e.2) tells kept
    (fun x i stands polite => by rw [(stands.step alignment polite).2]) _ is start polite
  have asked := @Clocked.conservation _ _ _ (step opt respond) Polite (Stands opt respond) (fun _ _ => [])
    (fun _ i => i.ask.toList) (fun x => x.log.map Prod.fst ++ x.current.toList) kept
    (fun x i stands polite => stands.asked_step polite) _ is start polite
  have logged := @Clocked.conservation_all _ _ _ (step opt respond) (fun _ _ => []) (answered opt respond) log
    (fun _ _ => rfl) (.powerUp free) is
  rw [Clocked.emitted_nothing _ fun _ _ => rfl, List.nil_append] at asked logged
  rw [emitted_asks] at asked
  rw [← Clocked.emitted_flatMap] at told
  refine ⟨Clocked.run_invariant kept start polite, asked, ?_⟩
  rw [told, logged]
  rfl

end Single

end IcoZip.LoadStore
