import IcoZip.Crossbar.Ports
import Mathlib.Data.Fin.VecNotation

/-! The crossbar brings each request to the slave that has its address, and the answers back.

What passes between a master and the slaves in a cycle of the master is written down, each request
and each response with the slave. The slaves are only held to answer no request twice.
-/

set_option autoImplicit false

namespace IcoZip.Crossbar

open Busdelay (Request Response response)

variable {nm ns aw dw lg : Nat}

/-- What has happened in a master's cycle. -/
structure Record (ns aw dw : Nat) where
  /-- Requests accepted from the master, and by the slaves. -/
  up : List (Request aw dw)
  down : List (Fin ns × Request aw dw)
  /-- Responses given, and heard by the master. -/
  said : List (Option (Fin ns) × Response dw)
  heard : List (Response dw)

namespace Record

def empty : Record ns aw dw := ⟨[], [], [], []⟩

/-- No error has been reported. -/
def Clean (r : Record ns aw dw) : Prop := ∀ e ∈ r.said, e.2 ≠ none

end Record

structure Bench (nm ns aw dw lg : Nat) where
  core : Wbxbar nm ns aw dw lg
  log : Fin nm → Record ns aw dw
  /-- The requests that a slave has not answered yet, since its cycle line has been high. -/
  owed : Fin ns → Nat

namespace Bench

def powerUp : Bench nm ns aw dw lg := ⟨.powerUp, fun _ => .empty, fun _ => 0⟩

variable (b : Build ns aw lg) (x : Bench nm ns aw dw lg) (i : Inputs nm ns aw dw)

/-- The requests of a master's cycle, this clock included. -/
def accepted (m : Fin nm) : List (Request aw dw) := (x.log m).up ++ x.core.accepts i m

def passed (m : Fin nm) : List (Fin ns × Request aw dw) := (x.log m).down ++ x.core.passes i m

/-- The requests that a slave has to answer, this clock included. -/
def asked (k : Fin ns) : Nat := x.owed k + (x.core.sstb k && !(i.slave k).stall).toNat

def step : Bench nm ns aw dw lg where
  core := x.core.clock b i
  log m :=
    if i.ends m then .empty
    else
      { up := x.accepted i m
        down := x.passed i m
        said := (x.log m).said ++ x.core.replies i m
        heard := (x.log m).heard ++ x.core.shows m }
  owed k := if x.core.scyc k then x.asked i k - ((i.slave k).ack || (i.slave k).err).toNat else 0

/-- What the crossbar relies on: a master drops its cycle when it has heard of an error, and lets no request for
another slave wait when as many as the counter can hold are unanswered; a slave answers what it has been asked
in its cycle, and once. -/
structure Obeys : Prop where
  drops : ∀ m, none ∈ (x.log m).heard → i.ends m = true
  room : ∀ m, x.core.mfull m = true → x.core.asks i m = true → x.core.grant m (x.core.target b m) = true
  answers : ∀ k, (x.core.sAck i k || x.core.sErr i k) = true → 0 < x.asked i k

/-- One clock of a crossbar that serves its masters. -/
structure Routed : Prop where
  /-- The slaves get what a master has sent, in order and each the requests for its addresses, -/
  inOrder : ∀ m, (x.log m).Clean → (x.passed i m).map tagged <+: (x.accepted i m).map b.route
  /-- and nothing is lost or altered on the way. -/
  whole : ∀ m, (x.log m).Clean → (x.log m).up.map b.route =
    (x.log m).down.map tagged ++ (x.core.port m).map tagged ++ x.core.waiting b m
  /-- A master hears what has been said in its cycle, each response one clock later, -/
  answered : ∀ m, (x.log m).heard ++ x.core.shows m = (x.log m).said.map Prod.snd
  /-- each from the slave that has the address of the request, where there is one. -/
  origin : ∀ m, (x.log m).said.map Prod.fst <+: (x.log m).up.map fun q => b.target q.addr
  /-- An error is the last response. -/
  once : ∀ m, none ∉ ((x.log m).said.map Prod.snd).dropLast
  /-- Nothing is asked of a slave and nothing is said by one that no master has. -/
  served : ∀ k, x.core.sstb k = true ∨ (x.core.sAck i k || x.core.sErr i k) = true → ∃ m, x.core.channel m = some k

end Bench

/-! ### What holds between two clocks -/

/-- A master's cycle in which no error has been reported. -/
structure Flow (b : Build ns aw lg) (s : Wbxbar nm ns aw dw lg) (owed : Fin ns → Nat) (r : Record ns aw dw)
    (m : Fin nm) : Prop where
  whole : r.up.map b.route = r.down.map tagged ++ (s.port m).map tagged ++ s.waiting b m
  count : (s.pending m).toNat + r.heard.length = r.down.length + (s.port m).length
  spoken : r.said.map Prod.fst <+: r.down.map fun e => some e.1
  /-- What has not been answered has been asked of the slave that the master has. -/
  here : ∀ k, s.channel m = some k → ∀ e ∈ r.down.drop r.said.length, e.1 = k
  owes : ∀ k, s.channel m = some k → s.scyc k = true → owed k + r.said.length = r.down.length
  closed : ∀ k, s.channel m = some k → s.scyc k = false → r.said.length = r.down.length
  idle : s.channel m = none → r.said.length = r.down.length
  unmapped : s.grant m none = true → (s.dcd m).valid = true ∧ s.target b m = none

namespace Bench

structure Sound (b : Build ns aw lg) (x : Bench nm ns aw dw lg) : Prop where
  granted : x.core.Granted b
  counted : ∀ m, x.core.Counted m
  flow : ∀ m, (x.log m).Clean → Flow b x.core x.owed (x.log m) m
  answered : ∀ m, (x.log m).heard ++ x.core.shows m = (x.log m).said.map Prod.snd
  origin : ∀ m, (x.log m).said.map Prod.fst <+: (x.log m).up.map fun q => b.target q.addr
  once : ∀ m, none ∉ ((x.log m).said.map Prod.snd).dropLast
  /-- A slave that has reported an error is left alone. -/
  failed : ∀ m k, x.core.merr m = true → x.core.channel m = some k → x.core.scyc k = false
  strobed : ∀ k, x.core.sstb k = true → x.core.sgrant k = true
  released : ∀ k, x.core.scyc k = true → x.core.sgrant k = false → x.owed k = 0

end Bench

/-! ### A cycle without errors -/

namespace Flow

variable {b : Build ns aw lg} {s : Wbxbar nm ns aw dw lg} {i : Inputs nm ns aw dw} {owed : Fin ns → Nat}
  {r : Record ns aw dw} {m : Fin nm} {k : Fin ns}

theorem spoken_le (flow : Flow b s owed r m) : r.said.length ≤ r.down.length := by
  simpa using flow.spoken.length_le

/-- A master that may be given another slave has heard all answers. -/
theorem settled (flow : Flow b s owed r m) (granted : s.Granted b) (counted : s.Counted m)
    (answered : r.heard ++ s.shows m = r.said.map Prod.snd) (free : s.free m) :
    s.Unasked m ∧ r.said.length = r.down.length := by
  rcases free with idle | empty
  · have unowned : s.channel m = none := by
      rw [granted.channel_none]
      intro k
      rw [← Bool.not_eq_true]
      exact fun has => absurd (idle.symm.trans ((granted.granted m).mpr ⟨_, has⟩)) (by decide)
    exact ⟨fun k has => absurd (unowned.symm.trans has) (Option.some_ne_none k).symm, flow.idle unowned⟩
  · have nothing := counted.empty.mp empty
    have count := flow.count
    have heard := congrArg List.length answered
    have said := flow.spoken_le
    rw [List.length_append, List.length_map] at heard
    have port : (s.port m).length = 0 := by omega
    refine ⟨fun k has => ?_, by omega⟩
    simp only [Wbxbar.port, has] at port
    split at port
    · contradiction
    · rename_i off
      simpa using off

end Flow

/-- A list that begins another one still does with what comes next there. -/
theorem prefix_next {A : Type} {l L : List A} {a : A} (begins : l <+: L)
    (next : (L.drop l.length).head? = some a) :
    l ++ [a] <+: L := by
  obtain ⟨rest, rfl⟩ := begins
  rw [List.drop_left] at next
  cases rest with
  | nil => contradiction
  | cons c rest =>
    obtain rfl : c = a := by simpa using next
    exact ⟨rest, by simp⟩

namespace Bench

variable {b : Build ns aw lg} {x : Bench nm ns aw dw lg} {i : Inputs nm ns aw dw} {m : Fin nm} {k : Fin ns}

/-- An error on the lines, or heard, is in the record. -/
theorem Sound.quiet (sound : x.Sound b) (clean : (x.log m).Clean) :
    x.core.merr m = false ∧ none ∉ (x.log m).heard := by
  have said : none ∉ (x.log m).said.map Prod.snd := by
    rw [List.mem_map]
    rintro ⟨e, member, error⟩
    exact clean e member error
  rw [← sound.answered m, List.mem_append, not_or] at said
  refine ⟨?_, said.1⟩
  rw [← Bool.not_eq_true]
  intro err
  exact said.2 (by simp [Wbxbar.shows, response, err])

/-- Within a cycle an error in the record is on the lines. -/
theorem Sound.erring (sound : x.Sound b) (obeys : x.Obeys b i) (goes : i.ends m = false)
    (failed : ¬(x.log m).Clean) : x.core.merr m = true := by
  have said : none ∈ (x.log m).said.map Prod.snd := by
    simpa [Record.Clean, eq_comm] using failed
  rw [← sound.answered m, List.mem_append] at said
  rcases said with heard | shown
  · exact absurd ((obeys.drops m heard).symm.trans goes) (by decide)
  · rw [← Bool.not_eq_false]
    intro quiet
    cases ack : x.core.mack m <;> simp [Wbxbar.shows, response, quiet, ack] at shown

/-- A slave answers the master that has it. -/
theorem Sound.served (sound : x.Sound b) (obeys : x.Obeys b i)
    (used : x.core.sstb k = true ∨ (x.core.sAck i k || x.core.sErr i k) = true) :
    ∃ m, x.core.channel m = some k := by
  have taken : x.core.sgrant k = true := by
    rcases used with strobe | answers
    · exact sound.strobed k strobe
    · have asked := obeys.answers k answers
      have cyc := Wbxbar.answers_cyc answers
      rw [← Bool.not_eq_false]
      intro unowned
      have off : x.core.sstb k = false := by
        rw [← Bool.not_eq_true]
        exact fun strobe => absurd ((sound.strobed k strobe).symm.trans unowned) (by decide)
      simp [Bench.asked, sound.released k cyc unowned, off] at asked
  obtain ⟨m, -, has⟩ := sound.granted.held taken
  exact ⟨m, sound.granted.channel_iff.mpr has⟩

/-- What a slave has been asked, this clock included, and not answered. -/
theorem Sound.owing (sound : x.Sound b) (clean : (x.log m).Clean) (has : x.core.channel m = some k)
    (cyc : x.core.scyc k = true) : x.asked i k + (x.log m).said.length = (x.passed i m).length := by
  have owes := (sound.flow m clean).owes k has cyc
  have passes : (x.core.passes i m).length = (x.core.sstb k && !(i.slave k).stall).toNat := by
    rw [Wbxbar.passes, has]
    cases strobe : x.core.sstb k <;> cases stall : (i.slave k).stall <;> simp [strobe, stall]
  rw [Bench.asked, passed, List.length_append, passes]
  omega

/-- What a slave accepts has been sent by its master. -/
theorem Sound.inOrder (sound : x.Sound b) (clean : (x.log m).Clean) :
    (x.passed i m).map tagged <+: (x.log m).up.map b.route := by
  have passes : x.core.passes i m <+: x.core.port m := by
    rw [Wbxbar.passes, Wbxbar.port]
    cases x.core.channel m with
    | none => exact List.prefix_refl _
    | some k => cases strobe : x.core.sstb k <;> cases stall : (i.slave k).stall <;> simp [strobe, stall]
  rw [(sound.flow m clean).whole, passed, List.map_append, List.append_assoc, List.prefix_append_right_inj]
  exact (passes.map tagged).trans (List.prefix_append _ _)

/-- Only the slave that a master has can be the next to answer it. -/
theorem Sound.pending_here (sound : x.Sound b) (clean : (x.log m).Clean) (has : x.core.channel m = some k)
    {e : Fin ns × Request aw dw} (member : e ∈ (x.passed i m).drop (x.log m).said.length) : e.1 = k := by
  have flow := sound.flow m clean
  rw [passed, List.drop_append_of_le_length flow.spoken_le, List.mem_append] at member
  rcases member with before | now
  · exact flow.here k has e before
  · rw [Wbxbar.passes, has] at now
    simp only [] at now
    split at now
    · rw [List.mem_singleton.mp now]
    · contradiction

/-- A slave answers what it has been asked. -/
theorem Sound.spoken (sound : x.Sound b) (obeys : x.Obeys b i) (clean : (x.log m).Clean)
    (has : x.core.channel m = some k) :
    ((x.log m).said ++ x.core.replies i m).map Prod.fst <+: (x.passed i m).map fun e => some e.1 := by
  have before : (x.log m).said.map Prod.fst <+: (x.passed i m).map fun e => some e.1 := by
    rw [passed, List.map_append]
    exact (sound.flow m clean).spoken.trans (List.prefix_append _ _)
  rw [List.map_append]
  cases answers : (x.core.sAck i k || x.core.sErr i k) with
  | false =>
    obtain ⟨ack, err⟩ := Bool.or_eq_false_iff.mp answers
    simpa [Wbxbar.replies, has, ack, err, response] using before
  | true =>
    have reply : (x.core.replies i m).map Prod.fst = [some k] := by
      rw [Wbxbar.replies, has]
      cases ack : x.core.sAck i k <;> cases err : x.core.sErr i k <;> simp_all [response]
    have owed := obeys.answers k answers
    have cyc := Wbxbar.answers_cyc answers
    have owing := sound.owing (i := i) clean has cyc
    rw [reply]
    apply prefix_next before
    rw [List.length_map, ← List.map_drop, List.head?_map]
    cases next : (x.passed i m).drop (x.log m).said.length with
    | nil =>
      have short := List.drop_eq_nil_iff.mp next
      omega
    | cons e rest =>
      have here := sound.pending_here (i := i) (e := e) clean has (by simp [next])
      simp [here]

/-- Each response is one to the next request that has none, from the slave with its address. -/
theorem Sound.origin_next (sound : x.Sound b) (obeys : x.Obeys b i) (clean : (x.log m).Clean) :
    ((x.log m).said ++ x.core.replies i m).map Prod.fst <+: (x.log m).up.map fun q => b.target q.addr := by
  have targets : (x.log m).up.map (fun q => b.target q.addr) = ((x.log m).up.map b.route).map Prod.fst := by
    rw [List.map_map]
    rfl
  cases has : x.core.channel m with
  | some k =>
    rw [targets]
    have passed := (sound.inOrder (i := i) clean).map Prod.fst
    rw [List.map_map] at passed
    exact (sound.spoken obeys clean has).trans passed
  | none =>
    have flow := sound.flow m clean
    cases refused : x.core.grant m none with
    | false => simpa [Wbxbar.replies, has, refused] using sound.origin m
    | true =>
      obtain ⟨valid, unmapped⟩ := flow.unmapped refused
      have reply : (x.core.replies i m).map Prod.fst = [none] := by
        simp [Wbxbar.replies, has, refused, (sound.quiet clean).1]
      rw [List.map_append, reply]
      apply prefix_next (sound.origin m)
      have port : x.core.port m = [] := by simp [Wbxbar.port, has]
      -- the request in the decoder is the first that has no answer
      have all : (x.log m).said.length = ((x.log m).down.map tagged).length := by
        rw [List.length_map]
        exact flow.idle has
      rw [List.length_map, targets, flow.whole, port, List.map_nil, List.append_nil, ← List.map_drop, all,
        List.drop_left]
      rw [Wbxbar.target] at unmapped
      simp [Wbxbar.waiting, Addrdecode.held, valid, Build.route, unmapped]

/-- The counter has what the master has not heard yet. -/
theorem Sound.owed (sound : x.Sound b) (clean : (x.log m).Clean) :
    x.core.mack m = true → 0 < (x.core.pending m).toNat := by
  intro ack
  have flow := sound.flow m clean
  have heard := congrArg List.length (sound.answered m)
  have spoken := flow.spoken_le
  have count := flow.count
  have shows : (x.core.shows m).length = 1 := by simp [Wbxbar.shows, response, ack, (sound.quiet clean).1]
  rw [List.length_append, List.length_map] at heard
  omega

/-- A clock in which no error is reported to a master. -/
structure Calm (b : Build ns aw lg) (x : Bench nm ns aw dw lg) (i : Inputs nm ns aw dw) (m : Fin nm) : Prop where
  goes : i.ends m = false
  clean : (x.log m).Clean
  quiet : x.core.merr m = false
  mapped : x.core.grant m none = false
  errs : ∀ k, x.core.channel m = some k → x.core.sErr i k = false

theorem Sound.calm (sound : x.Sound b) (goes : i.ends m = false) (clean : (x.log m).Clean)
    (calm : ∀ e ∈ x.core.replies i m, e.2 ≠ none) : Calm b x i m := by
  have quiet := (sound.quiet clean).1
  refine ⟨goes, clean, quiet, ?_, fun k has => ?_⟩
  · rw [← Bool.not_eq_true]
    intro refused
    have idle : x.core.channel m = none := by
      rw [sound.granted.channel_none]
      intro k
      rw [← Bool.not_eq_true]
      exact fun also => absurd (sound.granted.one also refused) (Option.some_ne_none k)
    exact calm (none, none) (by simp [Wbxbar.replies, idle, refused, quiet]) rfl
  · rw [← Bool.not_eq_true]
    intro err
    exact calm (some k, none) (by simp [Wbxbar.replies, has, response, err]) rfl

theorem Sound.calm_of_next (sound : x.Sound b) (goes : i.ends m = false) (clean : ((x.step b i).log m).Clean) :
    Calm b x i m := by
  have log : ((x.step b i).log m).said = (x.log m).said ++ x.core.replies i m := by simp [step, goes]
  have before : (x.log m).Clean := fun e member => clean e (by simp [log, member])
  exact sound.calm goes before fun e member => clean e (by simp [log, member])

namespace Calm

variable (calm : Calm b x i m) (sound : x.Sound b) (obeys : x.Obeys b i)
include calm

theorem replies (has : x.core.channel m = some k) :
    x.core.replies i m = if x.core.sAck i k then [(some k, some (i.slave k).data)] else [] := by
  rw [Wbxbar.replies, has]
  simp only [response, calm.errs k has, Bool.false_eq_true, if_false]
  cases x.core.sAck i k <;> rfl

theorem no_replies (idle : x.core.channel m = none) : x.core.replies i m = [] := by
  simp [Wbxbar.replies, idle, calm.mapped]

theorem log_next : (x.step b i).log m = ⟨x.accepted i m, x.passed i m, (x.log m).said ++ x.core.replies i m,
    (x.log m).heard ++ x.core.shows m⟩ := by
  simp [step, calm.goes]

include sound

theorem flow : Flow b x.core x.owed (x.log m) m := sound.flow m calm.clean

theorem unasked (free : x.core.free m) : x.core.Unasked m ∧ (x.log m).said.length = (x.log m).down.length :=
  (calm.flow sound).settled sound.granted (sound.counted m) (sound.answered m) free

include obeys

/-- The slave of a master that may be given another one has nothing to answer. -/
theorem silent (free : x.core.free m) : x.core.passes i m = [] ∧ x.core.replies i m = [] := by
  obtain ⟨unasked, all⟩ := calm.unasked sound free
  refine ⟨unasked.passes, ?_⟩
  cases has : x.core.channel m with
  | none => exact calm.no_replies has
  | some k =>
    rw [calm.replies has, if_neg]
    intro ack
    obtain ⟨cyc, ack⟩ := Bool.and_eq_true_iff.mp ack
    have owed := obeys.answers k (by simp [Wbxbar.sAck, cyc, ack])
    have owes := (calm.flow sound).owes k has cyc
    simp only [asked, unasked k has, Bool.false_and, Bool.toNat_false] at owed
    omega

theorem whole : (x.accepted i m).map b.route = (x.passed i m).map tagged ++
    ((x.core.clock b i).port m).map tagged ++ (x.core.clock b i).waiting b m := by
  have port := sound.granted.port_next calm.goes calm.quiet (fun free => (calm.unasked sound free).1) calm.errs
  have waiting := sound.granted.waiting_next calm.goes calm.quiet (obeys.room m) calm.mapped
  rw [accepted, passed, List.map_append, List.map_append, (calm.flow sound).whole, List.append_assoc, ← waiting,
    List.append_assoc _ _ (((x.core.clock b i).port m).map tagged), port]
  simp only [List.append_assoc]

omit obeys in
theorem count : ((x.core.clock b i).pending m).toNat + ((x.log m).heard ++ x.core.shows m).length =
    (x.passed i m).length + ((x.core.clock b i).port m).length := by
  have goes : x.core.clears i m = false := by
    have ends := calm.goes
    simp only [Inputs.ends] at ends
    simp [Wbxbar.clears, ends, calm.quiet]
  have pending := (sound.counted m).pending_next b goes (sound.owed calm.clean)
  have port := congrArg List.length (sound.granted.port_next calm.goes calm.quiet
    (fun free => (calm.unasked sound free).1) calm.errs)
  have shows : (x.core.shows m).length = (x.core.mack m).toNat := by
    cases ack : x.core.mack m <;> simp [Wbxbar.shows, response, ack, calm.quiet]
  have leaving : (x.core.leaving b i m).length = (x.core.handsOn i m).toNat := by
    rw [Wbxbar.leaving]
    cases x.core.handsOn i m <;> rfl
  have before := (calm.flow sound).count
  simp only [List.length_append, List.length_map] at port
  rw [List.length_append, passed, List.length_append, shows]
  omega

theorem spoken : ((x.log m).said ++ x.core.replies i m).map Prod.fst <+: (x.passed i m).map fun e => some e.1 := by
  cases has : x.core.channel m with
  | some k => exact sound.spoken obeys calm.clean has
  | none =>
    rw [calm.no_replies has, List.append_nil, passed, List.map_append]
    exact (calm.flow sound).spoken.trans (List.prefix_append _ _)

omit obeys in
/-- A request for an address without a slave waits for the error. -/
theorem refused (asks : x.core.asks i m = true) (free : x.core.free m) (here : x.core.target b m = none) :
    ((x.core.clock b i).dcd m).valid = true ∧ (x.core.clock b i).target b m = none := by
  obtain ⟨reset, cyc⟩ : i.reset = false ∧ (i.master m).cyc = true := by simpa [Inputs.ends] using calm.goes
  have valid : (x.core.dcd m).valid = true := (Bool.and_eq_true_iff.mp asks).2
  have granted := sound.granted
  have stb : x.core.mStb i m = true := Wbxbar.mStb_iff.mpr ⟨asks, granted.full_busy free⟩
  have waits : x.core.mStall i m = true := by
    cases has : x.core.channel m with
    | some k =>
      have given := granted.channel_iff.mp has
      have away : x.core.request i m (some k) = false := by
        rw [← Bool.not_eq_true, granted.request_iff, here]
        exact fun both => absurd both.2 (Option.some_ne_none k)
      rw [granted.mStall_held given calm.quiet, away, if_neg Bool.false_ne_true, stb]
    | none =>
      have unowned : x.core.mgrant m = false := by
        rw [← Bool.not_eq_true, granted.granted]
        rintro ⟨t, given⟩
        cases t with
        | none => exact absurd (calm.mapped.symm.trans given) (by decide)
        | some k => exact absurd ((granted.channel_none.mp has k).symm.trans given) (by decide)
      simp [Wbxbar.mStall, calm.quiet, calm.mapped, unowned, stb]
  have keeps : ((x.core.clock b i).dcd m).valid = true ∧ ((x.core.clock b i).dcd m).req = (x.core.dcd m).req := by
    simp [Wbxbar.clock, Addrdecode.clock, Addrdecode.stall, reset, cyc, valid, waits]
  refine ⟨keeps.1, ?_⟩
  rw [Wbxbar.target, keeps.2]
  exact here

/-- Where a grant changes, all is answered, and a slave that is granted has no cycle yet. -/
theorem moves (free : x.core.free m)
    (closed : ∀ k, (x.core.clock b i).channel m = some k → (x.core.clock b i).scyc k = false)
    (refused : (x.core.clock b i).grant m none = true →
      ((x.core.clock b i).dcd m).valid = true ∧ (x.core.clock b i).target b m = none) :
    Flow b (x.core.clock b i) (x.step b i).owed ((x.step b i).log m) m := by
  obtain ⟨passes, replies⟩ := calm.silent sound obeys free
  have all : ((x.log m).said ++ x.core.replies i m).length = (x.passed i m).length := by
    rw [passed, passes, replies, List.append_nil, List.append_nil]
    exact (calm.unasked sound free).2
  rw [calm.log_next]
  refine ⟨calm.whole sound obeys, calm.count sound, calm.spoken sound obeys, fun k _ e member => ?_,
    fun k has cyc => ?_, fun _ _ _ => all, fun _ => all, refused⟩
  · rw [all, List.drop_length] at member
    contradiction
  · exact absurd ((closed k has).symm.trans cyc) (by decide)

/-- Where a grant is kept, the slave answers within its cycle. -/
theorem stays (same : (x.core.clock b i).channel m = x.core.channel m)
    (mapped : (x.core.clock b i).grant m none = false) :
    Flow b (x.core.clock b i) (x.step b i).owed ((x.step b i).log m) m := by
  have flow := calm.flow sound
  rw [calm.log_next]
  refine ⟨calm.whole sound obeys, calm.count sound, calm.spoken sound obeys, ?_, ?_, ?_, ?_, ?_⟩
  · intro k has e member
    rw [same] at has
    apply sound.pending_here (i := i) calm.clean has
    rw [List.length_append, ← List.drop_drop] at member
    exact List.mem_of_mem_drop member
  · intro k has _
    rw [same] at has
    have clean := calm.errs k has
    rw [List.length_append, calm.replies has]
    cases cyc : x.core.scyc k with
    | true =>
      have owing := sound.owing (i := i) calm.clean has cyc
      have err : (i.slave k).err = false := by simpa [Wbxbar.sErr, cyc] using clean
      simp only [step, cyc, if_true, Wbxbar.sAck, err, Bool.or_false, Bool.true_and]
      cases ack : (i.slave k).ack with
      | true =>
        have owed := obeys.answers k (by simp [Wbxbar.sAck, cyc, ack])
        simp only [if_true, List.length_singleton, Bool.toNat_true]
        omega
      | false => simpa using owing
    | false =>
      have strobe : x.core.sstb k = false := by
        rw [← Bool.not_eq_true]
        exact fun on => absurd ((sound.granted.strobe k on).symm.trans cyc) (by decide)
      have all := flow.closed k has cyc
      simpa [step, cyc, Wbxbar.sAck, passed, Wbxbar.passes, has, strobe] using all
  · intro k has cyc
    rw [same] at has
    have held := (sound.granted.strobe_held calm.goes (sound.granted.channel_iff.mp has) (calm.errs k has)).1
    exact absurd (held.symm.trans cyc) (by decide)
  · intro has
    rw [same] at has
    rw [calm.no_replies has, passed, Wbxbar.passes, has, List.append_nil]
    simpa using flow.idle has
  · intro refused
    exact absurd (mapped.symm.trans refused) (by decide)

/-- The record of a cycle that goes on without errors. -/
theorem next : Flow b (x.core.clock b i) (x.step b i).owed ((x.step b i).log m) m := by
  have channel (k : Fin ns) : (x.core.clock b i).channel m = some k ↔ x.core.nextGrant i m (some k) = true :=
    sound.granted.kept.channel_iff
  cases sound.granted.outcome (i := i) m with
  | dropped ends =>
    have ends : i.ends m = true := by simpa [Inputs.ends] using ends
    exact absurd (ends.symm.trans calm.goes) (by decide)
  | lost _ _ free _ _ grant =>
    apply calm.moves sound obeys free
    · intro k has
      exact absurd (((channel k).mp has).symm.trans (grant _)) (by decide)
    · intro refused
      exact absurd (refused.symm.trans (grant none)) (by decide)
  | opened _ asks free _ opens grant =>
    apply calm.moves sound obeys free
    · intro k has
      have unowned := (opens k ((grant _).mp ((channel k).mp has)).symm).1
      simp [Wbxbar.clock, Wbxbar.nextScyc, unowned]
    · intro refused
      exact calm.refused sound asks free ((grant none).mp refused).symm
  | kept _ _ grant =>
    apply calm.stays sound obeys
    · apply Option.ext
      intro k
      rw [channel, grant, sound.granted.channel_iff]
    · exact (grant none).trans calm.mapped

end Calm

/-! ### The invariant -/

/-- Behind the end of a cycle there is nothing of it left. -/
theorem Sound.ended (sound : x.Sound b) (ends : i.ends m = true) :
    Flow b (x.core.clock b i) (x.step b i).owed ((x.step b i).log m) m := by
  have log : (x.step b i).log m = .empty := by simp [step, ends]
  have given (t : Option (Fin ns)) : (x.core.clock b i).grant m t = false := by
    simp only [Inputs.ends] at ends
    simp [Wbxbar.clock, Wbxbar.nextGrant, ends]
  have idle : (x.core.clock b i).channel m = none :=
    sound.granted.kept.channel_none.mpr fun k => given (some k)
  have away (k : Fin ns) : (x.core.clock b i).channel m ≠ some k := by simp [idle]
  have waiting : (x.core.clock b i).waiting b m = [] := by
    have ends : i.reset = true ∨ (i.master m).cyc = false := by simpa [Inputs.ends] using ends
    rcases ends with reset | cyc
    · simp [Wbxbar.waiting, Addrdecode.held, Skidbuffer.held, Wbxbar.clock, Skidbuffer.clock, Addrdecode.clock, reset]
    · simp [Wbxbar.waiting, Addrdecode.held, Skidbuffer.held, Wbxbar.clock, Skidbuffer.clock, Addrdecode.clock,
        Addrdecode.stall, cyc]
  have port : (x.core.clock b i).port m = [] := by simp [Wbxbar.port, idle]
  have clears : x.core.clears i m = true := by
    rw [Inputs.ends] at ends
    rw [Wbxbar.clears, ends, Bool.true_or]
  have pending : (x.core.clock b i).pending m = 0 := if_pos clears
  rw [log]
  refine ⟨?_, ?_, List.prefix_refl _, fun k has => absurd has (away k), fun k has => absurd has (away k),
    fun _ _ _ => rfl, fun _ => rfl, fun refused => absurd ((given none).symm.trans refused) (by decide)⟩
  · simp [Record.empty, port, waiting]
  · simp [Record.empty, port, pending]

/-- A slave that its master may leave has nothing to do. -/
theorem Sound.still (sound : x.Sound b) (obeys : x.Obeys b i) (goes : i.ends m = false)
    (has : x.core.channel m = some k) (free : x.core.free m) :
    x.core.sstb k = false ∧ (x.core.scyc k = true → x.asked i k = 0) := by
  have strobe : x.core.sstb k = false := by
    by_cases clean : (x.log m).Clean
    · exact ((sound.flow m clean).settled sound.granted (sound.counted m) (sound.answered m) free).1 k has
    · have cyc := sound.failed m k (sound.erring obeys goes clean) has
      rw [← Bool.not_eq_true]
      exact fun on => absurd ((sound.granted.strobe k on).symm.trans cyc) (by decide)
  refine ⟨strobe, fun cyc => ?_⟩
  have clean : (x.log m).Clean := by
    by_contra failed
    exact absurd ((sound.failed m k (sound.erring obeys goes failed) has).symm.trans cyc) (by decide)
  have flow := sound.flow m clean
  have all := (flow.settled sound.granted (sound.counted m) (sound.answered m) free).2
  have owes := flow.owes k has cyc
  simp only [Bench.asked, strobe, Bool.false_and, Bool.toNat_false]
  omega

theorem sound_powerUp : (powerUp : Bench nm ns aw dw lg).Sound b := by
  have idle (m : Fin nm) : (Wbxbar.powerUp : Wbxbar nm ns aw dw lg).channel m = none := by
    simp [Wbxbar.channel, Wbxbar.powerUp, pick]
  have port (m : Fin nm) : (Wbxbar.powerUp : Wbxbar nm ns aw dw lg).port m = [] := by rw [Wbxbar.port, idle]
  have wide : 2 ^ 3 ≤ 2 ^ lg := Nat.pow_le_pow_right (by decide) b.longBursts
  refine ⟨Wbxbar.granted_powerUp b, fun m => ⟨?_, ?_, ?_⟩, fun m _ => ?_, fun m => rfl, fun m => List.prefix_refl _,
    fun m => by simp [powerUp, Record.empty], fun m k err => ?_, fun k on => ?_, fun k on => ?_⟩
  · simp [powerUp, Wbxbar.powerUp]
  · simp [powerUp, Wbxbar.powerUp]
    omega
  · simp [powerUp, Wbxbar.powerUp]
    omega
  · refine ⟨?_, ?_, List.prefix_refl _, fun k has => ?_, fun k has => ?_, fun _ _ _ => rfl, fun _ => rfl, ?_⟩
    · rw [powerUp, port]
      rfl
    · rw [powerUp, port]
      rfl
    · exact absurd ((idle m).symm.trans has) (Option.some_ne_none k).symm
    · exact absurd ((idle m).symm.trans has) (Option.some_ne_none k).symm
    · simp [powerUp, Wbxbar.powerUp]
  · simp [powerUp, Wbxbar.powerUp] at err
  · simp [powerUp, Wbxbar.powerUp] at on
  · simp [powerUp, Wbxbar.powerUp] at on

/-- Nothing is said behind an error. -/
theorem Sound.replies_failed (sound : x.Sound b) (err : x.core.merr m = true) : x.core.replies i m = [] := by
  rw [Wbxbar.replies]
  cases has : x.core.channel m with
  | none => simp [err]
  | some k => simp [Wbxbar.sAck, Wbxbar.sErr, sound.failed m k err has, response]

theorem Sound.answered_next (sound : x.Sound b) : ((x.step b i).log m).heard ++ (x.core.clock b i).shows m =
    ((x.step b i).log m).said.map Prod.snd := by
  cases ends : i.ends m with
  | true =>
    have clears : x.core.clears i m = true := by
      rw [Inputs.ends] at ends
      rw [Wbxbar.clears, ends, Bool.true_or]
    simp [step, ends, Record.empty, Wbxbar.shows_cleared clears]
  | false =>
    simp only [step, ends, Bool.false_eq_true, if_false, List.map_append, sound.answered m]
    cases err : x.core.merr m with
    | true =>
      have clears : x.core.clears i m = true := by rw [Wbxbar.clears, err, Bool.or_true]
      rw [Wbxbar.shows_cleared clears, sound.replies_failed err]
      rfl
    | false => rw [sound.granted.shows_next ends err]

theorem Sound.clean (sound : x.Sound b) (obeys : x.Obeys b i) (goes : i.ends m = false)
    (quiet : x.core.merr m = false) : (x.log m).Clean := by
  by_contra failed
  exact absurd (quiet.symm.trans (sound.erring obeys goes failed)) (by decide)

theorem Sound.once_next (sound : x.Sound b) (obeys : x.Obeys b i) :
    none ∉ (((x.step b i).log m).said.map Prod.snd).dropLast := by
  cases ends : i.ends m with
  | true => simp [step, ends, Record.empty]
  | false =>
    simp only [step, ends, Bool.false_eq_true, if_false]
    cases err : x.core.merr m with
    | true =>
      rw [sound.replies_failed err, List.append_nil]
      exact sound.once m
    | false =>
      -- one response at most is given in a clock, and none before it is an error
      have clean := sound.clean obeys ends err
      have short : (x.core.replies i m).length ≤ 1 := Wbxbar.replies_short
      have before : none ∉ (x.log m).said.map Prod.snd := by
        rw [List.mem_map]
        rintro ⟨e, member, error⟩
        exact clean e member error
      cases replies : x.core.replies i m with
      | nil =>
        rw [List.append_nil]
        exact sound.once m
      | cons e rest =>
        obtain rfl : rest = [] := by simpa [replies] using short
        rw [List.map_append, List.map_singleton, List.dropLast_concat]
        exact before

/-- A slave that reports an error gets no cycle in the next clock. -/
theorem Sound.failed_next (sound : x.Sound b) (err : (x.core.clock b i).merr m = true)
    (has : (x.core.clock b i).channel m = some k) : (x.core.clock b i).scyc k = false := by
  have granted := sound.granted
  have next : x.core.nextGrant i m (some k) = true := granted.kept.channel_iff.mp has
  cases granted.outcome (i := i) m with
  | dropped _ grant => exact absurd ((grant _).symm.trans next) (by decide)
  | lost _ _ _ _ _ grant => exact absurd ((grant _).symm.trans next) (by decide)
  | opened _ _ _ _ opens grant =>
    have unowned := (opens k ((grant _).mp next).symm).1
    simp [Wbxbar.clock, Wbxbar.nextScyc, unowned]
  | kept _ _ grant =>
    have given : x.core.grant m (some k) = true := (grant _).symm.trans next
    have other : x.core.grant m none = false := by
      rw [← Bool.not_eq_true]
      exact fun also => absurd (granted.one also given).symm (Option.some_ne_none k)
    have reported : x.core.sErr i k = true := by
      simp only [Wbxbar.clock, Wbxbar.nextMerr, other, (granted.granted m).mpr ⟨_, given⟩, (granted.owned given).2.1,
        pick_val, Bool.true_and, Bool.false_eq_true, if_false] at err
      split at err
      · contradiction
      · exact err
    simp [Wbxbar.clock, Wbxbar.nextScyc, reported]

/-- A slave with a strobe has a master that goes on. -/
theorem Sound.owner (sound : x.Sound b) (open' : (x.core.clock b i).scyc k = true) :
    ∃ m, i.ends m = false ∧ x.core.grant m (some k) = true := by
  simp only [Wbxbar.clock, Wbxbar.nextScyc] at open'
  split at open'
  · contradiction
  · rename_i goes
    obtain ⟨taken, cyc⟩ := Bool.and_eq_true_iff.mp open'
    obtain ⟨m, index, given⟩ := sound.granted.held taken
    rw [Wbxbar.Granted.owner_eq index] at cyc
    obtain ⟨reset, -⟩ : i.reset = false ∧ x.core.sErr i k = false := by simpa using goes
    exact ⟨m, by simp [Inputs.ends, reset, cyc], given⟩

theorem Sound.strobed_next (sound : x.Sound b) (obeys : x.Obeys b i) (on : (x.core.clock b i).sstb k = true) :
    (x.core.clock b i).sgrant k = true := by
  have granted := sound.granted
  obtain ⟨m, goes, given⟩ := sound.owner (granted.kept.strobe k on)
  obtain ⟨taken, -, index⟩ := granted.owned given
  -- a master that leaves has no request for this slave
  have leaves (free : x.core.free m) (other : x.core.grant m (x.core.target b m) = false) : False := by
    have off := (sound.still obeys goes (granted.channel_iff.mpr given) free).1
    have away : x.core.request i m (some k) = false := by
      rw [← Bool.not_eq_true, granted.request_iff]
      rintro ⟨-, here⟩
      rw [← here, given] at other
      contradiction
    simp only [Wbxbar.clock, Wbxbar.nextSstb, Wbxbar.Granted.owner_eq index, off, away] at on
    split at on <;> simp at on
  have stays : x.core.nextGrant i m (some k) = true := by
    cases granted.outcome (i := i) m with
    | dropped ends =>
      have ends : i.ends m = true := by simpa [Inputs.ends] using ends
      exact absurd (ends.symm.trans goes) (by decide)
    | lost _ _ free other => exact (leaves free other).elim
    | opened _ _ free other => exact (leaves free other).elim
    | kept _ _ grant => exact (grant _).trans given
  exact (granted.given stays).1

theorem Sound.released_next (sound : x.Sound b) (obeys : x.Obeys b i) (open' : (x.core.clock b i).scyc k = true)
    (unowned : (x.core.clock b i).sgrant k = false) : (x.step b i).owed k = 0 := by
  have granted := sound.granted
  obtain ⟨m, goes, given⟩ := sound.owner open'
  have leaves (free : x.core.free m) : (x.step b i).owed k = 0 := by
    have still := (sound.still obeys goes (granted.channel_iff.mpr given) free).2
    simp only [step]
    split
    · rename_i cyc
      rw [still cyc, Nat.zero_sub]
    · rfl
  cases granted.outcome (i := i) m with
  | dropped ends =>
    have ends : i.ends m = true := by simpa [Inputs.ends] using ends
    exact absurd (ends.symm.trans goes) (by decide)
  | lost _ _ free => exact leaves free
  | opened _ _ free => exact leaves free
  | kept _ _ grant =>
    have taken := (granted.given ((grant _).trans given)).1
    exact absurd (unowned.symm.trans taken) (by decide)

theorem Sound.next (sound : x.Sound b) (obeys : x.Obeys b i) : (x.step b i).Sound b where
  granted := sound.granted.kept
  counted m := by
    apply (sound.counted m).next b
    intro goes
    obtain ⟨ends, quiet⟩ : i.ends m = false ∧ x.core.merr m = false := by
      simpa [Wbxbar.clears, Inputs.ends] using goes
    exact sound.owed (sound.clean obeys ends quiet)
  flow m clean := by
    cases ends : i.ends m with
    | true => exact sound.ended ends
    | false => exact (sound.calm_of_next ends clean).next sound obeys
  answered m := sound.answered_next
  origin m := by
    cases ends : i.ends m with
    | true => simp [step, ends, Record.empty]
    | false =>
      simp only [step, ends, Bool.false_eq_true, if_false]
      have goesOn : (x.log m).up.map (fun q => b.target q.addr) <+:
          (x.accepted i m).map fun q => b.target q.addr := by
        rw [accepted, List.map_append]
        exact List.prefix_append _ _
      refine List.IsPrefix.trans ?_ goesOn
      cases err : x.core.merr m with
      | true =>
        rw [sound.replies_failed err, List.append_nil]
        exact sound.origin m
      | false => exact sound.origin_next obeys (sound.clean obeys ends err)
  once m := sound.once_next obeys
  failed m k err has := sound.failed_next err has
  strobed k on := sound.strobed_next obeys on
  released k open' unowned := sound.released_next obeys open' unowned

theorem Sound.connects (sound : x.Sound b) (obeys : x.Obeys b i) : Routed b x i where
  inOrder m clean := by
    refine (sound.inOrder clean).trans ?_
    rw [accepted, List.map_append]
    exact List.prefix_append _ _
  whole m clean := (sound.flow m clean).whole
  answered := sound.answered
  origin := sound.origin
  once := sound.once
  served _ used := sound.served obeys used

/-- Every clock of every run. -/
theorem routed (b : Build ns aw lg) (is : List (Inputs nm ns aw dw))
    (obeys : Clocked.Always (step b) (Obeys b) powerUp is) : Clocked.Always (step b) (Routed b) powerUp is := by
  have always := obeys.with_invariant (fun _ _ sound obeys => sound.next obeys) sound_powerUp
  exact always.mono fun _ _ clock => clock.1.connects clock.2

instance (x : Bench nm ns aw dw lg) (i : Inputs nm ns aw dw) : Decidable (x.Obeys b i) :=
  decidable_of_iff
    ((∀ m, (x.log m).heard.contains none = true → i.ends m = true) ∧
      (∀ m, x.core.mfull m = true → x.core.asks i m = true → x.core.grant m (x.core.target b m) = true) ∧
        ∀ k, (x.core.sAck i k || x.core.sErr i k) = true → 0 < x.asked i k)
    ⟨fun obeys => ⟨fun m failed => obeys.1 m (List.contains_iff_mem.mpr failed), obeys.2.1, obeys.2.2⟩,
      fun obeys => ⟨fun m failed => obeys.drops m (List.contains_iff_mem.mp failed), obeys.room, obeys.answers⟩⟩

end Bench

/-- `wb_xbar` -/
def wbXbar : Build 6 24 6 where
  slaveAddr := ![0x100000, 0x200000, 0x300000, 0x400000, 0x500000, 0x800000]
  slaveMask := ![0xf00000, 0xf00000, 0xf00000, 0xf00000, 0xf00000, 0xc00000]
  lowpower := true
  several := by decide
  longBursts := by decide
  apart := by decide

/-- `hb_xbar` -/
def hbXbar : Build 2 25 6 where
  slaveAddr := ![0, 0x1000000]
  slaveMask := ![0x1000000, 0x1000000]
  lowpower := true
  several := by decide
  longBursts := by decide
  apart := by decide

namespace Bench

/-- The first master reads the block RAM and the memory, the second one the block RAM behind it, and then an address
that no slave has. -/
def sharing : List (Inputs 2 6 24 32) :=
  let idle : MasterIn 24 32 := ⟨false, false, .zero⟩
  let ask (stb : Bool) (addr : Nat) : MasterIn 24 32 := ⟨true, stb, ⟨false, BitVec.ofNat 24 addr, 0, 15⟩⟩
  let at' (first second : MasterIn 24 32) (acks : Option (Fin 6 × Nat)) : Inputs 2 6 24 32 :=
    { reset := false
      master := ![first, second]
      slave k := match acks with
        | some (j, data) => ⟨false, j == k, false, BitVec.ofNat 32 data⟩
        | none => ⟨false, false, false, 0⟩ }
  let waits := at' (ask false 0) (ask false 0) none
  let acks (k : Fin 6) (data : Nat) := at' (ask false 0) (ask false 0) (some (k, data))
  [at' (ask true 0x500001) (ask true 0x500002) none, at' (ask true 0x800003) (ask true 0x600000) none, waits, waits,
    acks 4 7, waits, waits, waits, acks 5 8, acks 4 9, waits, waits, waits, waits, at' (ask false 0) idle none]

theorem routed_sharing : Clocked.Always (step wbXbar) (Obeys wbXbar) powerUp sharing ∧
    Clocked.Always (step wbXbar) (Routed wbXbar) powerUp sharing := by
  have obeys : Clocked.Always (step wbXbar) (Obeys wbXbar) powerUp sharing := by decide +kernel
  exact ⟨obeys, routed wbXbar sharing obeys⟩

end Bench

end IcoZip.Crossbar
