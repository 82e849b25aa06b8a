import IcoZip.Fetch.Bench
import IcoZip.Library.Fields
import Mathlib.Tactic.SplitIfs

/-! What a unit must do to deliver the stream: serve the instructions in order
until one cannot be read, and stay illegal from then on.
-/

set_option autoImplicit false

namespace IcoZip.Fetch

variable {w d : Nat}

theorem word_append (a : BitVec w) (low : BitVec 2) : word (a ++ low) = a := Fields.first a low

@[simp] theorem word_next (pc : BitVec (w + 2)) : word (next pc) = word pc + 1 := word_append _ _

/-- The address of instruction `n`. -/
def after (pc : BitVec (w + 2)) : Nat → BitVec (w + 2)
  | 0 => pc
  | n + 1 => next (after pc n)

theorem after_next (pc : BitVec (w + 2)) (n : Nat) : after (next pc) n = after pc (n + 1) := by
  induction n with
  | zero => rfl
  | succ n ih => exact congrArg next ih

/-- Legal instructions at consecutive addresses. -/
def Follows (mem : Memory w d) : BitVec (w + 2) → List (Insn w d) → Prop
  | _, [] => True
  | pc, x :: xs => x.pc = pc ∧ x.illegal = false ∧ mem (word pc) = some x.insn ∧ Follows mem (next pc) xs

namespace Follows

variable {mem : Memory w d} {pc : BitVec (w + 2)} {xs : List (Insn w d)}

theorem concat (follows : Follows mem pc xs) {insn : BitVec d} (read : mem (word (after pc xs.length)) = some insn) :
    Follows mem pc (xs ++ [⟨after pc xs.length, insn, false⟩]) := by
  induction xs generalizing pc with
  | nil => exact ⟨rfl, rfl, read, trivial⟩
  | cons x xs ih =>
    obtain ⟨first, legal, found, later⟩ := follows
    rw [List.length_cons, ← after_next] at read ⊢
    exact ⟨first, legal, found, ih later read⟩

theorem legal (follows : Follows mem pc xs) : ∀ x ∈ xs, x.illegal = false := by
  induction xs generalizing pc with
  | nil => simp
  | cons x xs ih => exact List.forall_mem_cons.mpr ⟨follows.2.1, ih follows.2.2.2⟩

theorem heard (follows : Follows mem pc xs) : heard xs = stream mem pc xs.length := by
  induction xs generalizing pc with
  | nil => rfl
  | cons x xs ih =>
    obtain ⟨first, legal, found, later⟩ := follows
    simp [Fetch.heard, stream, first, legal, found, ih later]

theorem stops (follows : Follows mem pc xs) : Stops xs :=
  List.pairwise_of_forall_mem_list fun a member b _ illegal => by simp [follows.legal a member] at illegal

/-- An instruction that cannot be read ends the stream. -/
theorem heard_failed (follows : Follows mem pc xs) (failed : mem (word (after pc xs.length)) = none)
    {x : Insn w d} (address : x.pc = after pc xs.length) (illegal : x.illegal = true) (ys : List (Insn w d)) :
    Fetch.heard (xs ++ x :: ys) = stream mem pc (xs ++ x :: ys).length := by
  induction xs generalizing pc with
  | nil =>
    change mem (word pc) = none at failed
    simp only [List.nil_append, List.length_cons, Fetch.heard, stream, failed, illegal, if_true, address]
    rfl
  | cons y xs ih =>
    obtain ⟨first, legal, found, later⟩ := follows
    rw [List.length_cons, ← after_next] at failed address
    simp [Fetch.heard, stream, first, legal, found, ih later failed address]

theorem stops_failed (follows : Follows mem pc xs) {x : Insn w d} {ys : List (Insn w d)}
    (illegal : ∀ y ∈ x :: ys, y.illegal = true) : Stops (xs ++ x :: ys) := by
  refine List.pairwise_append.mpr ⟨follows.stops, ?_, ?_⟩
  · exact List.pairwise_of_forall_mem_list fun _ _ b member _ => illegal b member
  · intro a member b _ wrong
    simp [follows.legal a member] at wrong

end Follows

/-- Neither a reset, nor a new address, nor a clear. -/
def Cpu.quiet (c : Cpu w) : Bool := !c.reset && !c.newPc && !c.clearCache

namespace Bench

variable {u : Fetcher w d} (mem : Memory w d) (x : Bench u) (i : Inputs w d)

/-- The slave does not stall a request, and answers if it has been asked before. -/
def prompt : Bool := (!(u.pins x.core).stb || !i.stall) && (x.waiting.isEmpty || i.answer)

/-- The clocks of a run in which the slave is prompt. -/
def prompts : Bench u → List (Inputs w d) → Nat
  | _, [] => 0
  | x, i :: is => (if x.prompt i then 1 else 0) + prompts (x.step mem i) is

/-- The prompt clocks until an instruction is there, at most. -/
def distance : Nat :=
  if (u.pins x.core).valid then 0 else if !(u.pins x.core).cyc then 3 else if x.waiting.isEmpty then 2 else 1

/-- The instructions of an address are being served. -/
structure Serving (pc : BitVec (w + 2)) : Prop where
  follows : Follows mem pc x.taken
  legal : (u.pins x.core).illegal = false
  address : (u.pins x.core).pc = after pc x.taken.length
  read : (u.pins x.core).valid = true → mem (word (after pc x.taken.length)) = some (u.pins x.core).insn

/-- An instruction that cannot be read is offered to the CPU. -/
structure Failing (pc : BitVec (w + 2)) : Prop where
  follows : Follows mem pc x.taken
  failed : mem (word (after pc x.taken.length)) = none
  valid : (u.pins x.core).valid = true
  illegal : (u.pins x.core).illegal = true
  address : (u.pins x.core).pc = after pc x.taken.length

/-- It has been handed over. -/
structure Over (pc : BitVec (w + 2)) : Prop where
  illegal : (u.pins x.core).illegal = true
  heard : ∀ ys : List (Insn w d), (∀ y ∈ ys, y.illegal = true) →
    heard (x.taken ++ ys) = stream mem pc (x.taken ++ ys).length ∧ Stops (x.taken ++ ys)
  last : ∃ y ∈ x.taken, y.illegal = true

end Bench

/-- How a unit delivers the stream, where `busy` says what it is doing for an address and `sound` what holds
of its registers at any time; `shown` is the form in which it shows a new address. -/
structure Delivers (u : Fetcher w d) (mem : Memory w d) (shown : BitVec (w + 2) → BitVec (w + 2))
    (sound : u.Reg → Prop) (busy : Bench u → BitVec (w + 2) → Prop) : Prop where
  sound_step : ∀ (x : Bench u) (i : Inputs w d), sound x.core → sound (x.step mem i).core
  start : ∀ (x : Bench u) (i : Inputs w d), i.cpu.reset = false → i.cpu.newPc = true →
    busy (x.step mem i) (shown i.cpu.pc)
  serving : ∀ x pc, busy x pc → x.Serving mem pc
  goes_on : ∀ (x : Bench u) (i : Inputs w d) pc, busy x pc → i.cpu.quiet = true →
    busy (x.step mem i) pc ∨ (x.step mem i).Failing mem pc
  sticky : ∀ (x : Bench u) (i : Inputs w d), sound x.core → (u.pins x.core).illegal = true → i.cpu.quiet = true →
    (u.pins (x.step mem i).core).illegal = true
  waits : ∀ (x : Bench u) (i : Inputs w d), sound x.core → (u.pins x.core).valid = true →
    (u.pins x.core).illegal = true → i.cpu.quiet = true → i.cpu.ready = false →
      (u.pins (x.step mem i).core).valid = true ∧ (u.pins (x.step mem i).core).pc = (u.pins x.core).pc
  nears : ∀ (x : Bench u) (i : Inputs w d) pc, busy x pc → i.cpu.quiet = true → i.cpu.ready = true →
    (u.pins x.core).valid = false → (x.step mem i).distance + (if x.prompt i then 1 else 0) ≤ x.distance

namespace Bench

variable {u : Fetcher w d} {mem : Memory w d} {x : Bench u} {i : Inputs w d} {pc : BitVec (w + 2)}

theorem quiet_iff {c : Cpu w} : c.quiet = true ↔ c.reset = false ∧ c.newPc = false ∧ c.clearCache = false := by
  simp [Cpu.quiet, and_assoc]

@[simp] theorem taken_step (quiet : i.cpu.quiet = true) : (x.step mem i).taken = x.handed i := by
  simp [step, (quiet_iff.mp quiet).2.1]

@[simp] theorem segment_step (quiet : i.cpu.quiet = true) : (x.step mem i).segment = x.segment := by
  obtain ⟨reset, newPc, clear⟩ := quiet_iff.mp quiet
  simp [step, reset, newPc, clear]

theorem outstanding_idle (idle : (u.pins x.core).cyc = false) (i : Inputs w d) : x.outstanding i = [] := by
  simp [outstanding, idle]

theorem bus_none (none : x.reply i = none) : x.bus mem i = ⟨i.stall, false, false, i.float⟩ := by
  simp [bus, none]

variable (mem) in
theorem bus_some {a : BitVec w} (some : x.reply i = some a) :
    x.bus mem i = ⟨i.stall, (mem a).isSome, (mem a).isNone, (mem a).getD i.float⟩ := by
  simp [bus, some]

theorem hands_ready (valid : (u.pins x.core).valid = true) (ready : i.cpu.ready = true) :
    x.hands i = [⟨(u.pins x.core).pc, (u.pins x.core).insn, (u.pins x.core).illegal⟩] := by
  simp [hands, valid, ready]

theorem hands_nothing (nothing : (u.pins x.core).valid = false ∨ i.cpu.ready = false) : x.hands i = [] := by
  rcases nothing with none | wait
  · simp [hands, none]
  · simp [hands, wait]

variable (mem x) in
/-- What a clock adds to the instructions handed over. -/
theorem taken_cases (quiet : i.cpu.quiet = true) :
    ((u.pins x.core).valid && i.cpu.ready) = true ∧
        (x.step mem i).taken = x.taken ++ [⟨(u.pins x.core).pc, (u.pins x.core).insn, (u.pins x.core).illegal⟩] ∨
      ((u.pins x.core).valid && i.cpu.ready) = false ∧ (x.step mem i).taken = x.taken := by
  rw [taken_step quiet, handed]
  cases taken : (u.pins x.core).valid && i.cpu.ready <;> simp [hands, taken]

theorem Serving.handed (serving : x.Serving mem pc) (i : Inputs w d) : Follows mem pc (x.handed i) := by
  by_cases taken : (u.pins x.core).valid = true ∧ i.cpu.ready = true
  · rw [Bench.handed, hands_ready taken.1 taken.2, serving.legal, serving.address]
    exact serving.follows.concat (serving.read taken.1)
  · rw [Bench.handed, hands_nothing (by simpa [or_iff_not_imp_left] using taken), List.append_nil]
    exact serving.follows

theorem Failing.hand (failing : x.Failing mem pc) (ready : i.cpu.ready = true) (ys : List (Insn w d))
    (illegal : ∀ y ∈ ys, y.illegal = true) :
    Fetch.heard (x.handed i ++ ys) = stream mem pc (x.handed i ++ ys).length ∧ Stops (x.handed i ++ ys) := by
  rw [Bench.handed, hands_ready failing.valid ready, failing.address, failing.illegal, List.append_assoc]
  exact ⟨failing.follows.heard_failed failing.failed rfl rfl ys,
    failing.follows.stops_failed (List.forall_mem_cons.mpr ⟨rfl, illegal⟩)⟩

theorem Over.handed (ended : x.Over mem pc) (i : Inputs w d) (ys : List (Insn w d))
    (illegal : ∀ y ∈ ys, y.illegal = true) :
    Fetch.heard (x.handed i ++ ys) = stream mem pc (x.handed i ++ ys).length ∧ Stops (x.handed i ++ ys) := by
  rw [Bench.handed, List.append_assoc]
  refine ended.heard _ fun y member => ?_
  rcases List.mem_append.mp member with now | later
  · rw [hands] at now
    split_ifs at now
    · rw [List.mem_singleton.mp now]
      exact ended.illegal
    · exact absurd now List.not_mem_nil
  · exact illegal y later

end Bench

namespace Delivers

variable {u : Fetcher w d} {mem : Memory w d} {shown : BitVec (w + 2) → BitVec (w + 2)}
  {sound : u.Reg → Prop} {busy : Bench u → BitVec (w + 2) → Prop} {x : Bench u} {i : Inputs w d} {pc : BitVec (w + 2)}

open Bench

theorem fail (delivers : Delivers u mem shown sound busy) (sane : sound x.core) (failing : x.Failing mem pc)
    (quiet : i.cpu.quiet = true) :
    (i.cpu.ready = false ∧ (x.step mem i).Failing mem pc) ∨ (i.cpu.ready = true ∧ (x.step mem i).Over mem pc) := by
  have illegal := delivers.sticky x i sane failing.illegal quiet
  cases ready : i.cpu.ready with
  | false =>
    have same : (x.step mem i).taken = x.taken := by
      rw [taken_step quiet, handed, hands_nothing (.inr ready), List.append_nil]
    obtain ⟨valid, address⟩ := delivers.waits x i sane failing.valid failing.illegal quiet ready
    refine .inl ⟨rfl, ⟨?_, ?_, valid, illegal, ?_⟩⟩
    · rw [same]
      exact failing.follows
    · rw [same]
      exact failing.failed
    · rw [same, address]
      exact failing.address
  | true =>
    refine .inr ⟨rfl, illegal, fun ys all => ?_, ?_⟩
    · rw [taken_step quiet]
      exact failing.hand ready ys all
    · rw [taken_step quiet, handed, hands_ready failing.valid ready]
      exact ⟨_, List.mem_append_right _ (List.mem_singleton_self _), failing.illegal⟩

theorem ended (delivers : Delivers u mem shown sound busy) (sane : sound x.core) (ended : x.Over mem pc)
    (quiet : i.cpu.quiet = true) : (x.step mem i).Over mem pc := by
  obtain ⟨y, member, illegal⟩ := ended.last
  refine ⟨delivers.sticky x i sane ended.illegal quiet, fun ys all => ?_, y, ?_, illegal⟩
  · rw [taken_step quiet]
    exact ended.handed i ys all
  · rw [taken_step quiet, handed]
    exact List.mem_append_left _ member

/-- Which of the three it is, for the address the CPU waits for. -/
structure Phase (_ : Delivers u mem shown sound busy) (x : Bench u) : Prop where
  sane : sound x.core
  serves : ∀ pc, x.segment = some pc → busy x (shown pc) ∨ x.Failing mem (shown pc) ∨ x.Over mem (shown pc)

theorem phase_step (delivers : Delivers u mem shown sound busy) (phase : delivers.Phase x) (i : Inputs w d) :
    delivers.Phase (x.step mem i) := by
  refine ⟨delivers.sound_step x i phase.sane, fun pc current => ?_⟩
  by_cases quiet : i.cpu.quiet = true
  · rw [segment_step quiet] at current
    rcases phase.serves pc current with serves | failing | ended
    · rcases delivers.goes_on x i _ serves quiet with on | fails
      · exact .inl on
      · exact .inr (.inl fails)
    · rcases delivers.fail phase.sane failing quiet with ⟨-, failing⟩ | ⟨-, ended⟩
      · exact .inr (.inl failing)
      · exact .inr (.inr ended)
    · exact .inr (.inr (delivers.ended phase.sane ended quiet))
  · rw [quiet_iff] at quiet
    simp only [step] at current
    split_ifs at current with reset newPc
    · cases current
      exact .inl (delivers.start x i (by simpa using reset) newPc)
    · simp_all

theorem phase_run (delivers : Delivers u mem shown sound busy) {core : u.Reg} (sane : sound core)
    (is : List (Inputs w d)) : delivers.Phase ((powerUp u core).run mem is) := by
  have kept (x : Bench u) (i : Inputs w d) (phase : delivers.Phase x) (_ : True) : delivers.Phase (x.step mem i) :=
    delivers.phase_step phase i
  refine Clocked.run_invariant kept ?_ (Clocked.always_of_forall (fun _ _ => trivial) _ is)
  exact ⟨sane, fun pc none => nomatch none⟩

/-- Whatever is handed over for an address is the beginning of its stream. -/
theorem heard_run (delivers : Delivers u mem shown sound busy) {core : u.Reg} (sane : sound core)
    (is : List (Inputs w d)) (i : Inputs w d) (current : ((powerUp u core).run mem is).segment = some pc) :
    heard (((powerUp u core).run mem is).handed i) =
        stream mem (shown pc) (((powerUp u core).run mem is).handed i).length ∧
      Stops (((powerUp u core).run mem is).handed i) := by
  rcases (delivers.phase_run sane is).serves pc current with serves | failing | ended
  · have follows := (delivers.serving _ _ serves).handed i
    exact ⟨follows.heard, follows.stops⟩
  · cases ready : i.cpu.ready with
    | false =>
      rw [handed, hands_nothing (.inr ready), List.append_nil]
      exact ⟨failing.follows.heard, failing.follows.stops⟩
    | true => simpa using failing.hand ready [] (by simp)
  · simpa using ended.handed i [] (by simp)

/-- While the CPU is ready, every prompt clock brings the next instruction nearer. -/
theorem gains (delivers : Delivers u mem shown sound busy) (serves : busy x pc ∨ x.Failing mem pc)
    (quiet : i.cpu.quiet = true) (ready : i.cpu.ready = true) :
    4 * x.taken.length + (if x.prompt i then 1 else 0) + (x.step mem i).distance ≤
      4 * (x.step mem i).taken.length + x.distance := by
  have near (y : Bench u) : y.distance ≤ 3 := by
    unfold distance
    split_ifs <;> decide
  rw [taken_step quiet, handed]
  cases valid : (u.pins x.core).valid with
  | true =>
    have here : x.distance = 0 := by simp [distance, valid]
    have next := near (x.step mem i)
    rw [hands_ready valid ready, List.length_append, List.length_singleton]
    split_ifs <;> omega
  | false =>
    have serves := serves.resolve_right fun failing => by simp [failing.valid] at valid
    have nears := delivers.nears x i pc serves quiet ready valid
    rw [hands_nothing (.inl valid), List.append_nil]
    omega

theorem taken_grows (mem : Memory w d) {is : List (Inputs w d)} (quiet : ∀ i ∈ is, i.cpu.quiet = true) (x : Bench u) :
    x.taken <+: (x.run mem is).taken := by
  induction is generalizing x with
  | nil => exact List.prefix_rfl
  | cons i is ih =>
    obtain ⟨now, later⟩ := List.forall_mem_cons.mp quiet
    refine List.IsPrefix.trans ?_ (ih later (x.step mem i))
    rw [taken_step now]
    exact List.prefix_append _ _

/-- A ready CPU gets an instruction within four prompt clocks, until the stream has ended. -/
theorem progress (delivers : Delivers u mem shown sound busy) (phase : delivers.Phase x) (current : x.segment = some pc)
    (is : List (Inputs w d)) (ready : ∀ i ∈ is, i.cpu.quiet = true ∧ i.cpu.ready = true) :
    (∃ y ∈ (x.run mem is).taken, y.illegal = true) ∨
      4 * x.taken.length + x.prompts mem is + (x.run mem is).distance ≤
        4 * (x.run mem is).taken.length + x.distance := by
  induction is generalizing x with
  | nil => exact .inr (by simp [prompts, run])
  | cons i is ih =>
    obtain ⟨⟨quiet, now⟩, later⟩ := List.forall_mem_cons.mp ready
    have rest := ih (delivers.phase_step phase i) ((segment_step quiet).trans current) later
    have end_ : (x.step mem i).run mem is = x.run mem (i :: is) := rfl
    rw [end_] at rest
    have step (serves : busy x (shown pc) ∨ x.Failing mem (shown pc)) :
        4 * x.taken.length + x.prompts mem (i :: is) + (x.run mem (i :: is)).distance ≤
          4 * (x.run mem (i :: is)).taken.length + x.distance ∨
        ∃ y ∈ (x.run mem (i :: is)).taken, y.illegal = true := by
      have gains := delivers.gains serves quiet now
      rcases rest with illegal | rest
      · exact .inr illegal
      · rw [prompts]
        exact .inl (by omega)
    rcases phase.serves pc current with serves | failing | ended
    · exact (step (.inl serves)).symm
    · exact (step (.inr failing)).symm
    · obtain ⟨y, member, illegal⟩ := ended.last
      have grows := taken_grows mem (fun j member => (ready j member).1) x
      exact .inl ⟨y, grows.subset member, illegal⟩

end Delivers

end IcoZip.Fetch
