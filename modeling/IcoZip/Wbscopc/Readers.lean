import IcoZip.Wbscopc.Words
import Mathlib.Tactic.Common

/-! The readers of `SCOPE` for a compressed scope.

`print`, `writevcd` and `getaddresslen` each walk over the same words with a
clock of their own. What they write is kept as far as it depends on the words:
the decoded fields of a word, which are the user's, are left out.
-/

set_option autoImplicit false

namespace IcoZip.Wbscopc

/-- `m_data`, with `m_scoplen` words, and `m_holdoff`. -/
structure Scope where
  data : List (BitVec 32)
  holdoff : BitVec 32
  size : data.length < 2 ^ 32

/-- A data word as a reader shows it. -/
structure Reading where
  time : BitVec 64
  word : BitVec 32
  trigger : Bool
  deriving DecidableEq, Repr

inductive Line where
  /-- The run is shown without the increment that it stands for. -/
  | repeated (count : BitVec 32)
  | sample (reading : Reading)
  deriving DecidableEq, Repr

/-- A time stamp and what follows it. The trigger wire is written for a data word if it is raised or was
high before. -/
inductive Change where
  | drop (time : BitVec 64)
  | sample (time : BitVec 64) (trigger : Option Bool) (word : BitVec 32)
  deriving DecidableEq, Repr

def Line.reading : Line → Option Reading
  | .repeated _ => none
  | .sample r => some r

def Change.reading : Change → Option Reading
  | .drop _ => none
  | .sample time trigger word => some ⟨time, word, trigger == some true⟩

namespace Scope

variable (s : Scope)

def scoplen : BitVec 32 := BitVec.ofNat 32 s.data.length

/-- The words that `for(int i=0; i<(int)m_scoplen; i++)` visits. -/
def visited : List (BitVec 32) := s.data.take s.scoplen.toInt.toNat

/-- The loop of `getaddresslen` from a word on, `first` for the word at index 0. -/
def lengthLoop : (first : Bool) → (alen : BitVec 32) → List (BitVec 32) → BitVec 32
  | _, alen, [] => alen
  | first, alen, word :: rest =>
    lengthLoop false (if isAddress word && !first then alen + run word else alen) rest

def getaddresslen : BitVec 32 := lengthLoop true s.scoplen s.visited

def printLoop (offset : BitVec 32) : (addrv : BitVec 64) → List (BitVec 32) → List Line
  | _, [] => []
  | addrv, word :: rest =>
    if isAddress word then
      .repeated (run word) :: printLoop offset (addrv + (run word + 1).setWidth 64) rest
    else
      -- `addrv` is compared with the offset when it has been incremented
      let next := addrv + 1
      .sample ⟨addrv, word, next.setWidth 32 == offset⟩ :: printLoop offset next rest

def print : List Line :=
  let alen : BitVec 64 := s.getaddresslen.setWidth 64
  let offset : BitVec 32 := (alen - s.holdoff.setWidth 64 - 1).setWidth 32
  printLoop offset 0 s.visited

def vcdLoop (alen offset : BitVec 32) :
    (first lastTrigger : Bool) → (addrv : BitVec 64) → List (BitVec 32) → List Change
  | _, _, _, [] => []
  | first, lastTrigger, addrv, word :: rest =>
    if isAddress word then
      if first then vcdLoop alen offset false lastTrigger addrv rest
      else
        let changes := vcdLoop alen offset false lastTrigger (addrv + (run word + 1).setWidth 64) rest
        if lastTrigger then .drop (addrv + 1) :: changes else changes
    else
      let raised := (addrv - alen.setWidth 64).setWidth 32 == offset
      let trigger := if raised then some true else if lastTrigger then some false else none
      .sample addrv trigger word :: vcdLoop alen offset false (raised || lastTrigger) (addrv + 1) rest

def writevcd : List Change :=
  let alen := s.getaddresslen
  let offset := alen - s.holdoff - 1
  vcdLoop alen offset true true 0 s.visited

def printed : List Reading := s.print.filterMap Line.reading

def dumped : List Reading := s.writevcd.filterMap Change.reading

/-- The clock at which the trigger is, if it is in the buffer. -/
def triggerTime : Int := s.getaddresslen.toNat - s.holdoff.toNat - 1

/-- A reader gives the last word, if it is a data word, the last clock, and marks the word at the trigger only. -/
structure Placed (readings : List Reading) : Prop where
  last : ∀ word ∈ s.visited.getLast?, isAddress word = false →
    ∀ r ∈ readings.getLast?, r.time = (s.getaddresslen - 1).setWidth 64
  trigger : ∀ r ∈ readings, r.trigger = true ↔ (r.time.toNat : Int) = s.triggerTime

/-- The two readers show the same words at the same times, and place the end and the trigger alike. -/
structure Agree : Prop where
  times : s.printed.map (fun r => (r.time, r.word)) = s.dumped.map fun r => (r.time, r.word)
  printed : s.Placed s.printed
  dumped : s.Placed s.dumped

/-! ### What the loops compute -/

variable {s}

theorem step_repeated (t : Nat) (word : BitVec 32) :
    BitVec.ofNat 64 t + (run word + 1).setWidth 64 = BitVec.ofNat 64 (t + ((run word).toNat + 1)) := by
  have small := run_lt word
  apply BitVec.eq_of_toNat_eq
  simp [BitVec.toNat_add, BitVec.toNat_setWidth]
  omega

theorem step_sample (t : Nat) : BitVec.ofNat 64 t + 1 = BitVec.ofNat 64 (t + 1) := by simp [BitVec.ofNat_add]

theorem printLoop_readings (offset : BitVec 32) (t : Nat) (words : List (BitVec 32)) :
    (printLoop offset (BitVec.ofNat 64 t) words).filterMap Line.reading =
      (RunLength.starts t (words.map item)).map fun x =>
        ⟨BitVec.ofNat 64 x.1, x.2, BitVec.ofNat 32 (x.1 + 1) == offset⟩ := by
  induction words generalizing t with
  | nil => rfl
  | cons word rest ih =>
    cases address : isAddress word with
    | true =>
      rw [printLoop, if_pos address, step_repeated]
      simp only [List.map_cons, item_address address, RunLength.starts, List.filterMap_cons, Line.reading, ih]
    | false =>
      have next : (BitVec.ofNat 64 (t + 1)).setWidth 32 = BitVec.ofNat 32 (t + 1) :=
        BitVec.setWidth_ofNat_of_le (by decide) _
      rw [printLoop, if_neg (by simp [address]), step_sample]
      simp only [List.map_cons, item_data address, RunLength.starts, List.filterMap_cons, Line.reading, next, ih]

theorem low_sub (x y : BitVec 64) : (x - y).setWidth 32 = x.setWidth 32 - y.setWidth 32 := by
  apply BitVec.eq_of_toNat_eq
  simp only [BitVec.toNat_setWidth, BitVec.toNat_sub]
  omega

theorem vcdLoop_readings (alen offset : BitVec 32) (lastTrigger : Bool) (t : Nat) (words : List (BitVec 32)) :
    (vcdLoop alen offset false lastTrigger (BitVec.ofNat 64 t) words).filterMap Change.reading =
      (RunLength.starts t (words.map item)).map fun x =>
        ⟨BitVec.ofNat 64 x.1, x.2, BitVec.ofNat 32 x.1 - alen == offset⟩ := by
  induction words generalizing t lastTrigger with
  | nil => rfl
  | cons word rest ih =>
    cases address : isAddress word with
    | true =>
      rw [vcdLoop, if_pos address, if_neg (by decide), step_repeated]
      cases lastTrigger <;>
        simp [item_address address, RunLength.starts, List.filterMap_cons, Change.reading, ih]
    | false =>
      have clock : (BitVec.ofNat 64 t - alen.setWidth 64).setWidth 32 = BitVec.ofNat 32 t - alen := by
        rw [low_sub, BitVec.setWidth_ofNat_of_le (by decide)]
        simp
      rw [vcdLoop, if_neg (by simp [address]), step_sample, clock]
      cases raised : BitVec.ofNat 32 t - alen == offset <;> cases lastTrigger <;>
        simp [item_data address, RunLength.starts, Change.reading, raised, ih]

theorem lengthLoop_eq (alen : BitVec 32) (words : List (BitVec 32)) :
    lengthLoop false alen words + BitVec.ofNat 32 words.length =
      alen + BitVec.ofNat 32 (RunLength.total (words.map item)) := by
  induction words generalizing alen with
  | nil => simp [lengthLoop]
  | cons word rest ih =>
    have tail (alen : BitVec 32) : lengthLoop false alen rest = alen +
        BitVec.ofNat 32 (RunLength.total (rest.map item)) - BitVec.ofNat 32 rest.length := by
      rw [← ih alen, BitVec.add_sub_cancel]
    cases address : isAddress word with
    | true =>
      simp only [lengthLoop, address, Bool.not_false, Bool.and_self, if_true, tail, List.map_cons,
        item_address address, RunLength.total_cons, RunLength.Item.span, List.length_cons, BitVec.ofNat_add,
        BitVec.ofNat_toNat, BitVec.setWidth_eq]
      bv_omega
    | false =>
      simp only [lengthLoop, address, Bool.false_and, Bool.false_eq_true, if_false, tail, List.map_cons,
        item_data address, RunLength.total_cons, RunLength.Item.span, List.length_cons, BitVec.ofNat_add]
      bv_omega

theorem scoplen_visited (words : s.visited ≠ []) : s.scoplen = BitVec.ofNat 32 s.visited.length := by
  have bound := s.size
  have scoplen : s.scoplen.toNat = s.data.length := by
    rw [scoplen, BitVec.toNat_ofNat]
    exact Nat.mod_eq_of_lt bound
  have all : s.data.length ≤ s.scoplen.toInt.toNat := by
    by_contra short
    refine words ?_
    rw [BitVec.toInt_eq_toNat_cond, scoplen] at short
    split at short
    · omega
    · rw [visited, BitVec.toInt_eq_toNat_cond, scoplen, if_neg ‹_›]
      have none : ((s.data.length : Int) - (2 ^ 32 : Nat)).toNat = 0 := by omega
      rw [none, List.take_zero]
  rw [visited, List.take_of_length_le all]
  rfl

theorem visited_length_lt : s.visited.length < 2 ^ 31 := by
  have top := BitVec.toInt_lt (x := s.scoplen)
  have taken := List.length_take_le s.scoplen.toInt.toNat s.data
  rw [visited]
  omega

/-- The clocks of the words that are visited, and their number as `getaddresslen` counts it. -/
def clocks (s : Scope) : Nat := RunLength.total (s.visited.map item)

def length (s : Scope) : BitVec 32 := BitVec.ofNat 32 s.clocks

def samples (s : Scope) : List (Nat × BitVec 32) := RunLength.starts 0 (s.visited.map item)

theorem clocks_lt : s.clocks < 2 ^ 64 := by
  have words := visited_length_lt (s := s)
  have total := total_items_le s.visited
  rw [clocks]
  omega

theorem samples_lt {x : Nat × BitVec 32} (member : x ∈ s.samples) : x.1 < 2 ^ 64 := by
  have before := RunLength.starts_lt member
  have all : s.clocks < 2 ^ 64 := clocks_lt
  rw [clocks] at all
  omega

theorem printed_eq : s.printed = s.samples.map fun x =>
    ⟨BitVec.ofNat 64 x.1, x.2, BitVec.ofNat 32 (x.1 + 1) == s.getaddresslen - s.holdoff - 1⟩ := by
  have offset : (s.getaddresslen.setWidth 64 - s.holdoff.setWidth 64 - (1 : BitVec 64)).setWidth 32 =
      s.getaddresslen - s.holdoff - 1 := by
    rw [low_sub, low_sub]
    simp
  rw [printed, print, offset]
  exact printLoop_readings _ 0 s.visited

/-! ### Without a run at the front -/

section
variable {word : BitVec 32} {rest : List (BitVec 32)} (visits : s.visited = word :: rest)
include visits

theorem getaddresslen_eq (data : isAddress word = false) : s.getaddresslen = s.length := by
  have rest_ := lengthLoop_eq s.scoplen rest
  have scoplen := scoplen_visited (s := s) (by simp [visits])
  have one : BitVec.ofNat 32 (word :: rest).length = BitVec.ofNat 32 rest.length + 1 := by
    simp [BitVec.ofNat_add]
  have counted : s.length = BitVec.ofNat 32 (RunLength.total (rest.map item)) + 1 := by
    simp [length, clocks, visits, item_data data, RunLength.Item.span, BitVec.ofNat_add, BitVec.add_comm]
  rw [getaddresslen, visits, lengthLoop, if_neg (by simp [data]), counted]
  rw [scoplen, visits, one] at rest_ ⊢
  bv_omega

theorem dumped_eq (data : isAddress word = false) : s.dumped = s.samples.map fun x =>
    ⟨BitVec.ofNat 64 x.1, x.2, BitVec.ofNat 32 x.1 - s.getaddresslen == s.getaddresslen - s.holdoff - 1⟩ := by
  -- a data word is treated alike at index 0 and behind it
  have front (offset : BitVec 32) : vcdLoop s.getaddresslen offset true true 0 (word :: rest) =
      vcdLoop s.getaddresslen offset false true 0 (word :: rest) := by
    simp only [vcdLoop, data, Bool.false_eq_true, if_false]
  rw [dumped, writevcd, samples, visits, front]
  exact vcdLoop_readings _ _ true 0 (word :: rest)

/-- Behind a run at the front `writevcd` is early. -/
theorem dumped_late (address : isAddress word = true) : ∃ mark : Nat → Bool, s.dumped =
    (RunLength.starts 0 (rest.map item)).map fun x => ⟨BitVec.ofNat 64 x.1, x.2, mark x.1⟩ := by
  rw [dumped, writevcd, visits, vcdLoop, if_pos address, if_pos rfl]
  exact ⟨fun t => BitVec.ofNat 32 t - s.getaddresslen == s.getaddresslen - s.holdoff - 1,
    vcdLoop_readings _ _ true 0 rest⟩

/-- The two clocks never meet again. -/
theorem times_differ (address : isAddress word = true) (shows : s.samples ≠ []) :
    s.printed.map (fun r => (r.time, r.word)) ≠ s.dumped.map fun r => (r.time, r.word) := by
  obtain ⟨mark, dumped⟩ := dumped_late visits address
  have small := run_lt word
  have shifted : s.samples = (RunLength.starts 0 (rest.map item)).map fun x => (x.1 + ((run word).toNat + 1), x.2) := by
    rw [samples, visits, List.map_cons, item_address address, RunLength.starts]
    exact RunLength.starts_shift ((run word).toNat + 1) 0 (rest.map item)
  rw [shifted] at shows
  rw [printed_eq, dumped, shifted]
  cases late : RunLength.starts 0 (rest.map item) with
  | nil => simp [late] at shows
  | cons first _ =>
    intro same
    have clock := congrArg BitVec.toNat (congrArg Prod.fst (List.cons.inj same).1)
    simp only [BitVec.toNat_ofNat] at clock
    omega

end

/-! ### When the readers agree -/

/-- The word at clock `t` is neither the trigger nor marked by a reader. -/
structure Unmarked (s : Scope) (t : Nat) : Prop where
  trigger : (t : Int) ≠ s.length.toNat - s.holdoff.toNat - 1
  /-- `print` marks the word before the trigger. -/
  printed : BitVec.ofNat 32 (t + 1) ≠ s.length - s.holdoff - 1
  /-- `writevcd` subtracts the length twice. -/
  dumped : BitVec.ofNat 32 t - s.length ≠ s.length - s.holdoff - 1

/-- The buffer shows no word, or it does not begin with a run, is not too long to be counted if it ends
with a data word, and has none at the trigger or at the places where the readers look for it. -/
def Readable (s : Scope) : Prop :=
  s.samples = [] ∨
    (∀ word ∈ s.visited.head?, isAddress word = false) ∧
      (∀ word ∈ s.visited.getLast?, isAddress word = false → s.clocks ≤ 2 ^ 32) ∧
      ∀ x ∈ s.samples, s.Unmarked x.1

theorem toNat_one : (1 : BitVec 32).toNat = 1 := rfl

theorem placed_iff (mark : Nat → Bool) {readings : List Reading} (counted : s.getaddresslen = s.length)
    (shown : readings = s.samples.map fun x => ⟨BitVec.ofNat 64 x.1, x.2, mark x.1⟩) :
    s.Placed readings ↔ (∀ word ∈ s.visited.getLast?, isAddress word = false → s.clocks ≤ 2 ^ 32) ∧
      ∀ x ∈ s.samples, (mark x.1 = true ↔ (x.1 : Int) = s.length.toNat - s.holdoff.toNat - 1) := by
  have last (word : BitVec 32) (ends : word ∈ s.visited.getLast?) (data : isAddress word = false) :
      (∀ r ∈ readings.getLast?, r.time = (s.getaddresslen - 1).setWidth 64) ↔ s.clocks ≤ 2 ^ 32 := by
    obtain ⟨before, split⟩ := List.getLast?_eq_some_iff.mp ends
    have whole : s.clocks = RunLength.total (before.map item) + 1 := by
      simp [clocks, split, RunLength.total_append, item_data data, RunLength.Item.span]
    have final : s.samples = RunLength.starts 0 (before.map item) ++ [(RunLength.total (before.map item), word)] := by
      rw [samples, split, List.map_append, RunLength.starts_append, Nat.zero_add]
      simp [item_data data, RunLength.starts]
    have bound : s.clocks < 2 ^ 64 := clocks_lt
    rw [shown, final, List.map_append, counted, length]
    simp only [List.map_cons, List.map_nil, List.getLast?_append, List.getLast?_singleton, Option.mem_def,
      Option.some_or, Option.some.injEq, forall_eq']
    rw [← BitVec.toNat_inj, whole]
    simp only [BitVec.toNat_ofNat, BitVec.toNat_setWidth, BitVec.toNat_sub, toNat_one]
    omega
  have marks : (∀ r ∈ readings, r.trigger = true ↔ (r.time.toNat : Int) = s.triggerTime) ↔
      ∀ x ∈ s.samples, (mark x.1 = true ↔ (x.1 : Int) = s.length.toNat - s.holdoff.toNat - 1) := by
    rw [shown, List.forall_mem_map, triggerTime, counted]
    refine forall₂_congr fun x member => ?_
    rw [BitVec.toNat_ofNat, Nat.mod_eq_of_lt (samples_lt member)]
  constructor
  · rintro ⟨ends, triggers⟩
    exact ⟨fun word final data => (last word final data).mp (ends word final data), marks.mp triggers⟩
  · rintro ⟨short, triggers⟩
    exact ⟨fun word final data => (last word final data).mpr (short word final data), marks.mpr triggers⟩

/-- `print` marks no word that is at the trigger. -/
theorem printed_misses {t : Nat} (at_ : (t : Int) = s.length.toNat - s.holdoff.toNat - 1) :
    BitVec.ofNat 32 (t + 1) ≠ s.length - s.holdoff - 1 := by
  intro marked
  have := congrArg BitVec.toNat marked
  simp only [BitVec.toNat_ofNat, BitVec.toNat_sub, toNat_one] at this
  have := s.length.isLt
  have := s.holdoff.isLt
  omega

theorem marks_iff (t : Nat) :
    (((BitVec.ofNat 32 (t + 1) == s.length - s.holdoff - 1) = true ↔
        (t : Int) = s.length.toNat - s.holdoff.toNat - 1) ∧
      ((BitVec.ofNat 32 t - s.length == s.length - s.holdoff - 1) = true ↔
        (t : Int) = s.length.toNat - s.holdoff.toNat - 1)) ↔ s.Unmarked t := by
  rw [beq_iff_eq, beq_iff_eq]
  constructor
  · rintro ⟨print, vcd⟩
    have elsewhere : (t : Int) ≠ s.length.toNat - s.holdoff.toNat - 1 :=
      fun trigger => printed_misses trigger (print.mpr trigger)
    exact ⟨elsewhere, fun marked => elsewhere (print.mp marked), fun marked => elsewhere (vcd.mp marked)⟩
  · rintro ⟨trigger, printed, dumped⟩
    exact ⟨iff_of_false printed trigger, iff_of_false dumped trigger⟩

theorem placed_nil : s.Placed [] := ⟨by simp, by simp⟩

theorem agree_nil (nothing : s.samples = []) : s.Agree := by
  have printed : s.printed = [] := by rw [printed_eq, nothing, List.map_nil]
  have dumped : s.dumped = [] := by
    cases visits : s.visited with
    | nil => simp [dumped, writevcd, visits, vcdLoop]
    | cons word rest =>
      cases address : isAddress word with
      | false => rw [dumped_eq visits address, nothing, List.map_nil]
      | true =>
        obtain ⟨mark, dumped⟩ := dumped_late visits address
        rw [samples, visits, List.map_cons, item_address address, RunLength.starts, RunLength.starts_shift,
          List.map_eq_nil_iff] at nothing
        rw [dumped, nothing, List.map_nil]
  exact ⟨by rw [printed, dumped], printed ▸ placed_nil, dumped ▸ placed_nil⟩

/-- The readers agree exactly on the readable buffers. -/
theorem agree_iff (s : Scope) : s.Agree ↔ s.Readable := by
  by_cases nothing : s.samples = []
  · exact iff_of_true (agree_nil nothing) (.inl nothing)
  cases visits : s.visited with
  | nil => exact absurd (by simp [samples, visits, RunLength.starts]) nothing
  | cons word rest =>
    have head : s.visited.head? = some word := by rw [visits, List.head?_cons]
    cases address : isAddress word with
    | true =>
      refine iff_of_false (fun agree => times_differ visits address nothing agree.times) ?_
      rintro (none | ⟨front, -⟩)
      · exact nothing none
      · exact absurd (front word head) (by simp [address])
    | false =>
      have counted := getaddresslen_eq visits address
      have printed := printed_eq (s := s)
      have dumped := dumped_eq visits address
      rw [counted] at printed dumped
      have times : s.printed.map (fun r => (r.time, r.word)) = s.dumped.map fun r => (r.time, r.word) := by
        rw [printed, dumped, List.map_map, List.map_map]
        rfl
      have placed := placed_iff (fun t => BitVec.ofNat 32 (t + 1) == s.length - s.holdoff - 1) counted printed
      have placed' := placed_iff (fun t => BitVec.ofNat 32 t - s.length == s.length - s.holdoff - 1) counted dumped
      have front : ∀ w ∈ s.visited.head?, isAddress w = false := by
        rintro w member
        rw [head, Option.mem_some] at member
        exact member ▸ address
      constructor
      · rintro ⟨-, first, second⟩
        obtain ⟨short, marks⟩ := placed.mp first
        exact .inr ⟨front, short, fun x member => (marks_iff x.1).mp ⟨marks x member, (placed'.mp second).2 x member⟩⟩
      · rintro (none | ⟨-, short, unmarked⟩)
        · exact absurd none nothing
        · refine ⟨times, placed.mpr ⟨short, fun x member => ?_⟩, placed'.mpr ⟨short, fun x member => ?_⟩⟩
          · exact ((marks_iff x.1).mpr (unmarked x member)).1
          · exact ((marks_iff x.1).mpr (unmarked x member)).2

/-- Data words alone: the trigger is at clock 4. -/
def words : Scope := ⟨[1, 2, 3, 4, 5, 6, 7, 8], 3, by decide⟩

/-- A run at the front: the readers show the words behind it from clock 3 and from clock 0. -/
def runFirst : Scope := ⟨[0x80000002, 2, 3, 4, 5, 6, 7, 8], 20, by decide⟩

/-- `print` marks the word before the trigger and `writevcd` none; behind a run their clocks differ. -/
theorem readers_disagree :
    words.triggerTime = 4 ∧ (words.printed.filter (·.trigger)).map (·.time) = [3] ∧
      (words.dumped.filter (·.trigger)).map (·.time) = [] ∧ ¬ words.Agree ∧
    runFirst.printed.map (·.time) = [3, 4, 5, 6, 7, 8, 9] ∧ runFirst.dumped.map (·.time) = [0, 1, 2, 3, 4, 5, 6] ∧
      ¬ runFirst.Agree := by
  refine ⟨by decide, by decide, by decide, fun agree => ?_, by decide, by decide, fun agree => ?_⟩
  · exact absurd ((agree.printed.trigger ⟨3, 4, true⟩ (by decide)).mp rfl) (by decide)
  · exact absurd agree.times (by decide)

end Scope

end IcoZip.Wbscopc
