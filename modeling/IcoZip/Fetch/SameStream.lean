import IcoZip.Fetch.Dblfetch
import IcoZip.Fetch.Prefetch

/-! `dblfetch` and `prefetch` deliver the same instructions. -/

set_option autoImplicit false

namespace IcoZip.Fetch

variable {w d : Nat}

open Bench

/-- Along every run, what a unit hands over for an address is the beginning of its stream, and there is more of it as
long as the CPU takes it and the slave is prompt now and then. -/
structure Streams (u : Fetcher w d) (mem : Memory w d) (shown : BitVec (w + 2) → BitVec (w + 2)) (core : u.Reg) :
    Prop where
  heard : ∀ (is : List (Inputs w d)) (i : Inputs w d) (pc : BitVec (w + 2)),
    ((powerUp u core).run mem is).segment = some pc →
      heard (((powerUp u core).run mem is).handed i) =
          stream mem (shown pc) (((powerUp u core).run mem is).handed i).length ∧
        Stops (((powerUp u core).run mem is).handed i)
  progress : ∀ (is js : List (Inputs w d)) (pc : BitVec (w + 2)),
    ((powerUp u core).run mem is).segment = some pc → (∀ j ∈ js, j.cpu.quiet = true ∧ j.cpu.ready = true) →
      (∃ x ∈ ((powerUp u core).run mem (is ++ js)).taken, x.illegal = true) ∨
        4 * ((powerUp u core).run mem is).taken.length + ((powerUp u core).run mem is).prompts mem js ≤
          4 * ((powerUp u core).run mem (is ++ js)).taken.length + 3

theorem Delivers.streams {u : Fetcher w d} {mem : Memory w d} {shown : BitVec (w + 2) → BitVec (w + 2)}
    {sound : u.Reg → Prop} {busy : Bench u → BitVec (w + 2) → Prop} (delivers : Delivers u mem shown sound busy)
    {core : u.Reg} (sane : sound core) : Streams u mem shown core where
  heard is i _ current := delivers.heard_run sane is i current
  progress is js pc current ready := by
    have near : ((powerUp u core).run mem is).distance ≤ 3 := by
      unfold distance
      split_ifs <;> decide
    have whole : (powerUp u core).run mem (is ++ js) = ((powerUp u core).run mem is).run mem js :=
      Clocked.run_append _ _ is js
    rw [whole]
    refine (delivers.progress (delivers.phase_run sane is) current js ready).imp_right fun gained => ?_
    omega

theorem heard_take (xs : List (Insn w d)) (n : Nat) : heard (xs.take n) = (heard xs).take n := by
  induction xs generalizing n with
  | nil => simp [heard]
  | cons x xs ih =>
    cases n with
    | zero => rfl
    | succ n =>
      rw [List.take_succ_cons, heard, heard, ih]
      split_ifs <;> simp

theorem stream_take (mem : Memory w d) (pc : BitVec (w + 2)) {m n : Nat} (short : m ≤ n) :
    (stream mem pc n).take m = stream mem pc m := by
  induction m generalizing pc n with
  | zero => rfl
  | succ m ih =>
    cases n with
    | zero => omega
    | succ n =>
      rw [stream, stream, List.take_succ_cons]
      split_ifs
      · rw [ih (next pc) (Nat.le_of_succ_le_succ short)]
      · rw [List.take_nil]

/-- The CPU cannot tell the units apart by what it hears, up to and including the first illegal instruction; only the
word that comes with an illegal instruction is left out. -/
theorem same_stream (mem : Memory w d) (a : Dblfetch w d) (b : Prefetch w d) (aligned : Bool) :
    Streams (dblfetch w d) mem id a.powerUp ∧
    Streams (prefetch w d aligned) mem (Prefetch.shown aligned) b.powerUp ∧
    ∀ (is js : List (Inputs w d)) (i j : Inputs w d) (pc : BitVec (w + 2)) (n : Nat),
      ((powerUp (dblfetch w d) a.powerUp).run mem is).segment = some pc →
      ((powerUp (prefetch w d false) b.powerUp).run mem js).segment = some pc →
      n ≤ (((powerUp (dblfetch w d) a.powerUp).run mem is).handed i).length →
      n ≤ (((powerUp (prefetch w d false) b.powerUp).run mem js).handed j).length →
        heard ((((powerUp (dblfetch w d) a.powerUp).run mem is).handed i).take n) =
          heard ((((powerUp (prefetch w d false) b.powerUp).run mem js).handed j).take n) := by
  have first : Streams (dblfetch w d) mem id a.powerUp := (Dblfetch.delivery mem).streams trivial
  have second (aligned : Bool) : Streams (prefetch w d aligned) mem (Prefetch.shown aligned) b.powerUp :=
    (Prefetch.delivery mem aligned).streams ⟨nofun, nofun⟩
  refine ⟨first, second aligned, fun is js i j pc n here there short short' => ?_⟩
  rw [heard_take, heard_take, (first.heard is i pc here).1, ((second false).heard js j pc there).1,
    stream_take mem _ short, stream_take mem _ short']
  rfl

/-- A clock of a prompt slave and of a CPU that takes what there is, from a new address on if there is one. -/
def goes (newPc : Option (BitVec 4)) : Inputs 2 8 := ⟨⟨false, newPc.isSome, false, true, newPc.getD 0⟩, false, true, 7⟩

/-- The CPU turns to address 8 while the words at 0 are being read. -/
def turns : List (Inputs 2 8) := goes (some 0) :: goes none :: goes (some 8) :: List.replicate 7 (goes none)

/-- Three words; reading the fourth fails. -/
def threeWords : Memory 2 8 := fun a => if a = 3 then none else some (5 + a.setWidth 8)

/-- Both hand over the word at 8, and that there is none behind it. -/
theorem same_stream_turns :
    let a : Dblfetch 2 8 := ⟨true, true, true, 3, 3, true, true, 1, 1, 1, true, true⟩
    let b : Prefetch 2 8 := ⟨true, true, true, 3, 1, true, true, 1⟩
    let x := (powerUp (dblfetch 2 8) a.powerUp).run threeWords turns
    let y := (powerUp (prefetch 2 8 false) b.powerUp).run threeWords turns
    heard ((x.handed (goes none)).take 2) = heard ((y.handed (goes none)).take 2) ∧
      heard ((y.handed (goes none)).take 2) = [(8, some 7), (12, none)] := by
  refine ⟨(same_stream threeWords _ _ false).2.2 turns turns (goes none) (goes none) 8 2 ?_ ?_ ?_ ?_, ?_⟩
  all_goals decide

/-- The word that comes with an illegal instruction: `dblfetch` shows the data lines, `prefetch` the word before. -/
theorem illegal_words_differ :
    let mem : Memory 2 8 := fun a => if a = 0 then some 5 else none
    let start : Inputs 2 8 := ⟨⟨false, true, false, true, 0⟩, false, true, 7⟩
    let goes : Inputs 2 8 := ⟨⟨false, false, false, true, 0⟩, false, true, 7⟩
    let a : Dblfetch 2 8 := ⟨false, false, false, 0, 0, false, false, 0, 0, 0, false, false⟩
    let b : Prefetch 2 8 := ⟨false, false, false, 0, 0, false, false, 0⟩
    let x := (powerUp (dblfetch 2 8) a.powerUp).run mem [start, goes, goes, goes]
    let y := (powerUp (prefetch 2 8 false) b.powerUp).run mem [start, goes, goes, goes]
    x.segment = some 0 ∧ y.segment = some 0 ∧
    x.handed goes = [⟨0, 5, false⟩, ⟨4, 7, true⟩] ∧ y.handed goes = [⟨0, 5, false⟩, ⟨4, 5, true⟩] ∧
      x.handed goes ≠ y.handed goes := by
  decide

end IcoZip.Fetch
