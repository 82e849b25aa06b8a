import IcoZip.Hexbus.Coherence
import IcoZip.Hexbus.Erring
import Mathlib.Data.List.GetD
import Mathlib.Data.Set.Finite.Lemmas

/-! Where the writes of a run of `writei` land.

A write that starts two lengths behind the start of the one before is sent without
an address, since the host takes the device to stand there; it lands one length
behind the place where that one landed. Misplaced writes land below their
addresses, so the highest of them leaves its last word to nobody.
-/

set_option autoImplicit false

namespace IcoZip.Hexbus

open Session (Skips Rests named named_succ store addressWord_inc)

/-! ### Lines on which nothing is late -/

/-- Nothing is late, and newlines come when the host waits for them. -/
structure Line.Prompt {δ : Type} (l : Line δ) : Prop where
  text : ∀ x ∈ l.text, x.2 = false
  choices : ∀ n, l.choices n = false

section
variable {δ : Type}

namespace Line.Prompt
variable {l : Line δ}

theorem arrive (prompt : l.Prompt) (chars : List (BitVec 8)) : (l.arrive chars).Prompt := by
  refine ⟨fun x member => ?_, fun n => prompt.choices _⟩
  rcases List.mem_append.mp member with old | new
  · exact prompt.text x old
  · obtain ⟨i, -, rfl⟩ := List.mem_mapIdx.mp new
    exact prompt.choices i

theorem endLine (prompt : l.Prompt) : l.endLine.Prompt :=
  ⟨(prompt.arrive newline).text, (prompt.arrive newline).choices⟩

theorem reply (prompt : l.Prompt) (chars : List (BitVec 8)) : (l.reply chars).Prompt := by
  have arrived := prompt.arrive chars
  have open_ : ({ l.arrive chars with
      owed := true, choices := fun n => (l.arrive chars).choices (n + 1) } : Line δ).Prompt :=
    ⟨arrived.text, fun n => arrived.choices (n + 1)⟩
  simp only [Line.reply]
  split_ifs
  · exact open_.endLine
  · exact open_

theorem send [Peer δ] (prompt : l.Prompt) (chars : List (BitVec 8)) : (l.send chars).Prompt := by
  have replies (rs : List (List (BitVec 8))) {l : Line δ} (prompt : l.Prompt) : (rs.foldl Line.reply l).Prompt := by
    induction rs generalizing l with
    | nil => exact prompt
    | cons r rs ih => exact ih (prompt.reply r)
  exact replies _ ⟨prompt.text, prompt.choices⟩

theorem wait (prompt : l.Prompt) : l.wait.Prompt := by
  rw [Line.wait]
  split_ifs
  · exact prompt.endLine
  · exact prompt

end Line.Prompt

theorem inOnePiece_of_prompt {text : Incoming} (prompt : ∀ x ∈ text, x.2 = false) : InOnePiece text := by
  induction text with
  | nil => trivial
  | cons x text ih =>
    have rest : ∀ y ∈ text, y.2 = false := fun y member => prompt y (List.mem_cons_of_mem _ member)
    exact ⟨fun _ y member => rest y (List.mem_of_mem_take member), ih rest⟩

/-- All characters are read. -/
theorem readidleLoop_prompt {text : Incoming} (prompt : ∀ x ∈ text, x.2 = false) (h : Host) (word : BitVec 32) :
    (readidleLoop h word text).Ends (fun _ r => r.2 = []) fun _ => True := by
  induction text generalizing h word with
  | nil => rfl
  | cons x text ih =>
    obtain ⟨char, late⟩ := x
    obtain rfl : late = false := prompt (char, late) List.mem_cons_self
    simp only [readidleLoop, Bool.false_eq_true, if_false]
    cases readidleChar h word char with
    | more h' word' => exact ih (fun y member => prompt y (List.mem_cons_of_mem _ member)) h' word'
    | throw h' addr => trivial

namespace Session
variable {s : Session δ}

theorem readidle_prompt (prompt : s.line.Prompt) : s.readidle.Ends (fun _ s' => s'.line.Prompt) fun _ => True := by
  have waited := prompt.wait
  refine Outcome.Ends.mapState ((readidleLoop_prompt waited.text s.host 0).imp (fun _ r read => ?_) fun _ _ => trivial)
  exact ⟨by simp [resume, read], waited.choices⟩

theorem waitAcks_prompt (n : BitVec 32) (rounds : Nat) (prompt : s.line.Prompt) :
    (waitAcks n rounds s).Ends (fun _ s' => s'.line.Prompt) fun _ => True := by
  induction rounds generalizing s with
  | zero => trivial
  | succ rounds ih =>
    rw [waitAcks]
    split_ifs
    · exact (readidle_prompt prompt).andThen fun _ _ prompt' => ih prompt'
    · exact prompt

theorem writeLoop_prompt [Peer δ] (ptr : List (BitVec 8)) (nw : Nat) (buf : List (BitVec 32)) (prompt : s.line.Prompt) :
    (writeLoop ptr nw buf s).Ends (fun _ s' => s'.line.Prompt) fun _ => True := by
  induction buf generalizing s ptr nw with
  | nil => exact prompt
  | cons value buf ih =>
    exact (waitAcks_prompt (s := s.send (ptr ++ writeMessage value)) _ _ (prompt.send _)).andThen
      fun _ _ prompt' => ih [] (nw + 1) prompt'

theorem writev_prompt [Peer δ] (a : BitVec 32) (p : Bool) (buf : List (BitVec 32)) (prompt : s.line.Prompt) :
    (s.writev a p buf).Ends (fun _ s' => s'.line.Prompt) fun _ => True := by
  refine (writeLoop_prompt (s := { s with host := { s.host with lastaddr := a, addrSet := true, nacks := 0 } })
    _ 0 buf prompt).andThen fun _ _ prompt' => (waitAcks_prompt _ _ prompt').andThen fun _ _ prompt'' => ?_
  cases p <;> exact prompt''

end Session
end

/-! ### Runs of `writei` -/

/-- A call of `writei`. -/
structure Write where
  start : BitVec 32
  buf : List (BitVec 32)

namespace Write

def call (x : Write) : Call := .writei x.start x.buf

/-- Words inside the address space, two lengths from the start as well. -/
structure Fits (x : Write) : Prop where
  aligned : x.start.toNat % 4 = 0
  positive : 0 < x.buf.length
  inside : x.start.toNat + 8 * x.buf.length < 2 ^ 32

/-- The host's idea of where the device stands, and where it does. -/
abbrev Cursor := Option (BitVec 32 × BitVec 30)

/-- Where a write lands. -/
def landing (cursor : Cursor) (a : BitVec 32) : BitVec 30 :=
  match cursor with
  | some (believed, v) => if a = believed then v else wordAddr a
  | none => wordAddr a

/-- What a write from `a` on that lands at `v` leaves. -/
def next (a : BitVec 32) (v : BitVec 30) (n : Nat) : Cursor :=
  some (a + BitVec.ofNat 32 (8 * n), v + BitVec.ofNat 30 n)

def landings : Cursor → List Write → List (BitVec 30 × Write)
  | _, [] => []
  | cursor, x :: xs =>
    let v := landing cursor x.start
    (v, x) :: landings (next x.start v x.buf.length) xs

/-- The memory behind writes that land somewhere. -/
def land (mem : Memory) (landed : List (BitVec 30 × Write)) : Memory :=
  landed.foldl (fun mem x => store mem ((named x.1 true x.2.buf.length).zip x.2.buf)) mem

@[simp] theorem land_nil (mem : Memory) : land mem [] = mem := rfl

@[simp] theorem land_cons (mem : Memory) (x : BitVec 30 × Write) (landed : List (BitVec 30 × Write)) :
    land mem (x :: landed) = land (store mem ((named x.1 true x.2.buf.length).zip x.2.buf)) landed := rfl

end Write

namespace Call

/-- No address reply of a run is split. -/
def Undivided (s : Session Target) : List Call → Prop
  | [] => True
  | c :: calls => c.Unsplit s ∧ ∀ words s', c.run s = .ok words s' → Undivided s' calls

end Call

theorem aligned_of_toNat {a : BitVec 32} (aligned : a.toNat % 4 = 0) : Aligned a := by
  apply BitVec.eq_of_toNat_eq
  simpa [BitVec.extractLsb'_toNat] using aligned

namespace Session

/-- The host and the device before a write: nothing is remembered that a write could act on, or both addresses. -/
structure Stands (cursor : Write.Cursor) (s : Session Target) : Prop extends Rests s where
  nowhere : cursor = none → s.host.addrSet = true → s.host.inc = false
  somewhere : ∀ believed v, cursor = some (believed, v) → s.host.addrSet = true ∧ s.host.inc = true ∧
    s.host.isspace = true ∧ s.host.lastaddr = believed ∧ s.line.peer.addr = v ∧ s.line.peer.inc = true

variable {cursor : Write.Cursor} {s : Session Target}

/-- An address is left out exactly if the host takes the device to stand there. -/
theorem Stands.skips_iff (stands : s.Stands cursor) (w : BitVec 30) :
    s.Skips (w ++ 0#2) true ↔ ∃ v, cursor = some (w ++ 0#2, v) := by
  constructor
  · intro skips
    rcases encodeAddress_eq s.host w true with ⟨-, addrSet, known, mode⟩ | sends
    · cases cursor with
      | none =>
        rw [stands.nowhere rfl addrSet] at mode
        cases mode
      | some c =>
        obtain ⟨believed, v⟩ := c
        obtain ⟨-, -, -, lastaddr, -⟩ := stands.somewhere believed v rfl
        rw [addressWord_inc, lastaddr] at known
        exact ⟨v, by rw [known]⟩
    · rw [Skips, sends] at skips
      cases skips
  · rintro ⟨v, rfl⟩
    obtain ⟨addrSet, mode, -, lastaddr, -⟩ := stands.somewhere _ v rfl
    have even : (w ++ 0#2).getLsbD 0 = false := by
      rw [BitVec.getLsbD_append]
      rfl
    have same : (w ++ 0#2 ||| if true then 0 else 1) = w ++ 0#2 := BitVec.or_zero
    rw [Skips, same, Host.encodeAddress, if_pos ⟨addrSet, lastaddr.symm, by rw [mode, even]; rfl⟩]

/-- A write lands where the cursor says, and moves it on. -/
theorem Stands.writei (stands : s.Stands cursor) {x : Write} (fits : x.Fits) (unsplit : x.call.Unsplit s) :
    ∃ s', x.call.run s = .ok [] s' ∧
      s'.Stands (Write.next x.start (Write.landing cursor x.start) x.buf.length) ∧
      s'.line.peer.mem =
        store s.line.peer.mem ((named (Write.landing cursor x.start) true x.buf.length).zip x.buf) := by
  obtain ⟨start, buf⟩ := x
  obtain ⟨aligned, positive, inside⟩ := fits
  obtain ⟨w, rfl⟩ : ∃ w, start = w ++ 0#2 := ⟨_, aligned_eq (aligned_of_toNat aligned)⟩
  have place : s.line.peer.Addressed (s.host.encodeAddress ((w ++ 0#2) ||| if true then 0 else 1))
        (Write.landing cursor (w ++ 0#2)) true ∧
      (¬ s.Skips (w ++ 0#2) true → Write.landing cursor (w ++ 0#2) = w) ∧
      (s.Skips (w ++ 0#2) true → s.host.isspace = true) := by
    by_cases skips : s.Skips (w ++ 0#2) true
    · obtain ⟨v, rfl⟩ := (stands.skips_iff w).mp skips
      obtain ⟨-, -, spaced, -, addr, inc⟩ := stands.somewhere _ v rfl
      exact ⟨.inl ⟨skips, by rw [addr, Write.landing, if_pos rfl], inc⟩, fun sends => absurd skips sends,
        fun _ => spaced⟩
    · have there : Write.landing cursor (w ++ 0#2) = w := by
        cases cursor with
        | none => exact wordAddr_word w
        | some c =>
          obtain ⟨believed, v⟩ := c
          have other : w ++ 0#2 ≠ believed := fun same => skips ((stands.skips_iff w).mpr ⟨v, by rw [same]⟩)
          rw [Write.landing, if_neg other, wordAddr_word]
      rw [there]
      rcases encodeAddress_eq s.host w true with ⟨empty, -⟩ | sends
      · exact absurd empty skips
      · exact ⟨.inr sends, fun _ => rfl, fun skips' => absurd skips' skips⟩
  obtain ⟨s', writes, rests, spaced, addrSet, mode, lastaddr, peer⟩ :=
    @writev_placed s stands.toRests w _ true buf positive (by dsimp only at inside; omega) place.1 place.2.1 place.2.2
      unsplit
  refine ⟨s', ?_, ⟨rests, fun none => (by cases none), fun believed v same => ?_⟩, ?_⟩
  · simp only [Write.call, Call.run, Session.writei, writes, Outcome.andThen_ok]
  · obtain ⟨rfl, rfl⟩ := Prod.mk.inj (Option.some.inj same)
    exact ⟨addrSet, mode, spaced, lastaddr, by rw [peer]; rfl, by rw [peer]⟩
  · rw [peer]

/-- A run of writes on a line that splits no address reply. -/
theorem Stands.runs {xs : List Write} (stands : s.Stands cursor) (fits : ∀ x ∈ xs, x.Fits)
    (whole : Call.Undivided s (xs.map Write.call)) :
    ∃ results s', Call.runAll s (xs.map Write.call) = .ok results s' ∧
      s'.line.peer.mem = Write.land s.line.peer.mem (Write.landings cursor xs) := by
  induction xs generalizing s cursor with
  | nil => exact ⟨[], s, rfl, rfl⟩
  | cons x xs ih =>
    obtain ⟨head, tail⟩ := List.forall_mem_cons.mp fits
    obtain ⟨unsplit, later⟩ := whole
    obtain ⟨s₁, ran, stands₁, mem₁⟩ := stands.writei head unsplit
    obtain ⟨results, s', rest, mem'⟩ := ih stands₁ tail (later _ _ ran)
    refine ⟨[] :: results, s', ?_, ?_⟩
    · simp only [List.map_cons, Call.runAll, ran, Outcome.andThen_ok, rest]
    · rw [mem', mem₁]
      rfl

/-- Behind `writeio` there is no address that a write could leave out. -/
theorem Settled.writeio_stands {previous : Option Call} (settled : Settled previous s) {a v : BitVec 32}
    (aligned : Aligned a) (unsplit : Call.Unsplit s (.writeio a v)) :
    ∃ s', Call.run s (.writeio a v) = .ok [] s' ∧ s'.Stands none ∧
      s'.line.peer.mem = Function.update s.line.peer.mem (wordAddr a) v := by
  obtain ⟨w, rfl⟩ : ∃ w, a = w ++ 0#2 := ⟨_, aligned_eq aligned⟩
  have small : 1 < 2 ^ 31 := by decide
  obtain ⟨coherent, spaced⟩ := settled.coherent (c := .writeio (w ++ 0#2) v) ⟨aligned, Nat.one_pos, small⟩ (by
    cases previous with
    | none => trivial
    | some c => cases c <;> first | trivial | exact fun incs => nomatch incs)
  obtain ⟨s', writes, rests, -, -, mode, -, peer⟩ :=
    @writev_spec s settled.toRests w false [v] Nat.one_pos small coherent spaced unsplit
  refine ⟨{ s' with host := { s'.host with lastaddr := w ++ 0#2, addrSet := true } }, ?_,
    ⟨⟨rests.idle, rests.quiet, rests.spaces⟩, fun _ _ => mode, fun _ _ nowhere => (by cases nowhere)⟩, ?_⟩
  · simp only [Call.run, Session.writeio, writes, Outcome.andThen_ok]
  · rw [wordAddr_word]
    simp [peer, named, store]

/-- On a line on which nothing is late no reply is split. -/
theorem undivided_of_prompt (xs : List Write) (prompt : s.line.Prompt) : Call.Undivided s (xs.map Write.call) := by
  induction xs generalizing s with
  | nil => trivial
  | cons x xs ih =>
    refine ⟨inOnePiece_of_prompt (prompt.send _).text, fun words s' ran => ih ?_⟩
    have ended : ((s.writev x.start true x.buf).andThen fun _ s => .ok ([] : List (BitVec 32)) s).Ends
        (fun _ s' => s'.line.Prompt) (fun _ => True) :=
      (writev_prompt x.start true x.buf prompt).andThen fun _ _ prompt' => prompt'
    have same : (s.writev x.start true x.buf).andThen (fun _ s => .ok [] s) = .ok words s' := ran
    rw [same] at ended
    exact ended

end Session

/-! ### Misplaced writes -/

theorem wordAddr_toNat (a : BitVec 32) : (wordAddr a).toNat = a.toNat / 4 := by
  have bound := a.isLt
  rw [wordAddr, BitVec.extractLsb'_toNat, Nat.shiftRight_eq_div_pow]
  omega

theorem store_named (mem : Memory) (w : BitVec 30) (buf : List (BitVec 32)) (short : buf.length ≤ 2 ^ 30)
    (x : BitVec 30) :
    store mem ((named w true buf.length).zip buf) x = buf.getD (x - w).toNat (mem x) := by
  induction buf generalizing mem w with
  | nil => simp [store]
  | cons v buf ih =>
    rw [List.length_cons] at short
    have rest := ih (Function.update mem w v) (w + 1) (by omega)
    rw [List.length_cons, named_succ, if_pos rfl, List.zip_cons_cons]
    change store (Function.update mem w v) _ x = _
    rw [rest]
    have one : (1 : BitVec 30).toNat = 1 := rfl
    have bound := w.isLt
    by_cases here : x = w
    · have last : (w - (w + 1)).toNat = 2 ^ 30 - 1 := by
        simp only [BitVec.toNat_sub, BitVec.toNat_add, one]
        omega
      rw [here, last, List.getD_eq_default _ _ (by omega), Function.update_self, BitVec.sub_self]
      rfl
    · have next : (x - w).toNat = (x - (w + 1)).toNat + 1 := by
        have apart : x.toNat ≠ w.toNat := fun same => here (BitVec.eq_of_toNat_eq same)
        have bound' := x.isLt
        simp only [BitVec.toNat_sub, BitVec.toNat_add, one]
        omega
      rw [next, List.getD_cons_succ, Function.update_of_ne here]

namespace Write

/-- The words from `v` on that a write of `n` covers. -/
def Covers (v : BitVec 30) (n : Nat) (x : BitVec 30) : Prop := v.toNat ≤ x.toNat ∧ x.toNat < v.toNat + n

/-- No word of both. -/
def Apart (x y : Write) : Prop :=
  x.start.toNat + 4 * x.buf.length ≤ y.start.toNat ∨ y.start.toNat + 4 * y.buf.length ≤ x.start.toNat

instance : Std.Symm Apart := ⟨fun _ _ => Or.symm⟩

/-- No write starts two lengths behind the start of the one before. -/
def Clear (xs : List Write) : Prop := xs.IsChain fun x y => y.start ≠ x.start + BitVec.ofNat 32 (8 * x.buf.length)

/-- A write that lands where it starts. -/
def Own (l : BitVec 30 × Write) : Prop := l.1 = wordAddr l.2.start

section
variable {cursor : Cursor} {xs : List Write} {mem : Memory}

theorem landings_writes (cursor : Cursor) (xs : List Write) : (landings cursor xs).map Prod.snd = xs := by
  induction xs generalizing cursor with
  | nil => rfl
  | cons x xs ih => rw [landings, List.map_cons, ih]

/-- The device stands below where the host takes it to be. -/
def Below (cursor : Cursor) : Prop := ∀ believed v, cursor = some (believed, v) → 4 * v.toNat < believed.toNat

theorem below_none : Below none := fun _ _ nowhere => by cases nowhere

theorem landing_le (below : Below cursor) (a : BitVec 32) : 4 * (landing cursor a).toNat ≤ a.toNat := by
  have own := wordAddr_toNat a
  cases cursor with
  | none =>
    rw [landing]
    omega
  | some c =>
    obtain ⟨believed, v⟩ := c
    have lower := below believed v rfl
    rw [landing]
    split_ifs with skips
    · rw [skips]
      omega
    · omega

theorem next_toNat {x : Write} (fits : x.Fits) :
    (x.start + BitVec.ofNat 32 (8 * x.buf.length)).toNat = x.start.toNat + 8 * x.buf.length := by
  have inside := fits.inside
  rw [BitVec.toNat_add, BitVec.toNat_ofNat]
  omega

theorem next_below {x : Write} (fits : x.Fits) {v : BitVec 30} (low : 4 * v.toNat ≤ x.start.toNat) :
    Below (next x.start v x.buf.length) := by
  rintro believed v' same
  obtain ⟨rfl, rfl⟩ := Prod.mk.inj (Option.some.inj same)
  have positive := fits.positive
  have inside := fits.inside
  rw [next_toNat fits, BitVec.toNat_add, BitVec.toNat_ofNat]
  omega

theorem landings_le (below : Below cursor) (fits : ∀ x ∈ xs, x.Fits) :
    ∀ l ∈ landings cursor xs, 4 * l.1.toNat ≤ l.2.start.toNat := by
  induction xs generalizing cursor with
  | nil => simp [landings]
  | cons x xs ih =>
    obtain ⟨head, tail⟩ := List.forall_mem_cons.mp fits
    have low := landing_le below x.start
    exact List.forall_mem_cons.mpr ⟨low, ih (next_below head low) tail⟩

/-- All writes land where they start exactly if none starts where the host takes the device to be. -/
theorem own_iff (below : Below cursor) (fits : ∀ x ∈ xs, x.Fits) :
    (∀ l ∈ landings cursor xs, Own l) ↔
      (∀ believed v, cursor = some (believed, v) → ∀ x ∈ xs.head?, x.start ≠ believed) ∧ Clear xs := by
  induction xs generalizing cursor with
  | nil => simp [landings, Clear]
  | cons x xs ih =>
    obtain ⟨head, tail⟩ := List.forall_mem_cons.mp fits
    have first : Own (landing cursor x.start, x) ↔
        ∀ believed v, cursor = some (believed, v) → ∀ y ∈ (x :: xs).head?, y.start ≠ believed := by
      have place := wordAddr_toNat x.start
      cases cursor with
      | none => simp [Own, landing]
      | some c =>
        obtain ⟨believed, v⟩ := c
        have lower := below believed v rfl
        simp only [Own, landing, List.head?_cons, Option.mem_some_iff, forall_eq', Option.some.injEq, Prod.mk.injEq]
        constructor
        · rintro own believed' v' ⟨rfl, rfl⟩ skips
          rw [if_pos skips] at own
          have aligned := head.aligned
          rw [← skips, own] at lower
          omega
        · intro other
          rw [if_neg (other believed v ⟨rfl, rfl⟩)]
    have behind : (∀ believed v, next x.start (landing cursor x.start) x.buf.length = some (believed, v) →
        ∀ y ∈ xs.head?, y.start ≠ believed) ↔
          ∀ y ∈ xs.head?, y.start ≠ x.start + BitVec.ofNat 32 (8 * x.buf.length) := by
      simp [next]
    rw [landings, List.forall_mem_cons, ih (next_below head (landing_le below x.start)) tail, first, behind, Clear,
      Clear, List.isChain_cons]

/-- What no write lands on stays. -/
theorem land_outside {landed : List (BitVec 30 × Write)} {x : BitVec 30}
    (outside : ∀ l ∈ landed, l.1.toNat + l.2.buf.length ≤ 2 ^ 30 ∧ ¬ Covers l.1 l.2.buf.length x) :
    land mem landed x = mem x := by
  induction landed generalizing mem with
  | nil => rfl
  | cons l landed ih =>
    obtain ⟨⟨inside, none⟩, rest⟩ := List.forall_mem_cons.mp outside
    have beyond : l.2.buf.length ≤ (x - l.1).toNat := by
      have bound := l.1.isLt
      have bound' := x.isLt
      unfold Covers at none
      rw [BitVec.toNat_sub]
      omega
    rw [land_cons, ih rest, store_named _ _ _ (by omega), List.getD_eq_default _ _ beyond]

/-- If some write is misplaced, the last word of some write is not written at all. -/
theorem exists_unwritten (fits : ∀ x ∈ xs, x.Fits) (apart : xs.Pairwise Apart) (tight : ¬ Clear xs) :
    ∃ x ∈ xs, ∃ last : BitVec 30, last.toNat + 1 = x.start.toNat / 4 + x.buf.length ∧
      ∀ mem, land mem (landings none xs) last = mem last := by
  have low := landings_le below_none fits
  have member (l : BitVec 30 × Write) (landed : l ∈ landings none xs) : l.2 ∈ xs :=
    landings_writes none xs ▸ List.mem_map_of_mem landed
  -- the misplaced write that reaches highest
  obtain ⟨l, ⟨landed, moved⟩, highest⟩ := Set.exists_max_image {l | l ∈ landings none xs ∧ ¬ Own l}
    (fun l => l.2.start.toNat + 4 * l.2.buf.length) ((List.finite_toSet _).subset fun _ both => both.1) (by
      by_contra none_
      rw [Set.not_nonempty_iff_eq_empty] at none_
      refine tight ((own_iff below_none fits).mp fun l landed => ?_).2
      by_contra moved
      exact (Set.eq_empty_iff_forall_notMem.mp none_ l) ⟨landed, moved⟩)
  obtain ⟨aligned, positive, inside⟩ := fits l.2 (member l landed)
  have last : (BitVec.ofNat 30 (l.2.start.toNat / 4 + l.2.buf.length - 1)).toNat + 1 =
      l.2.start.toNat / 4 + l.2.buf.length := by
    rw [BitVec.toNat_ofNat]
    omega
  refine ⟨l.2, member l landed, _, last, fun mem => land_outside fun l' landed' => ?_⟩
  obtain ⟨aligned', positive', inside'⟩ := fits l'.2 (member l' landed')
  have low' := low l' landed'
  refine ⟨by omega, fun covers => ?_⟩
  unfold Covers at covers
  have place' := wordAddr_toNat l'.2.start
  by_cases own' : Own l'
  · -- it lands in its own range
    have pairs : (landings none xs).Pairwise fun a b => Apart a.2 b.2 := by
      rw [← List.pairwise_map (f := Prod.snd), landings_writes]
      exact apart
    have : Std.Symm fun a b : BitVec 30 × Write => Apart a.2 b.2 := ⟨fun _ _ => Or.symm⟩
    have away := pairs.forall landed landed' fun same => moved (same ▸ own')
    rw [Own] at own'
    rw [own', place'] at covers
    unfold Apart at away
    omega
  · have reach := highest l' ⟨landed', own'⟩
    have moved' : l'.1.toNat ≠ l'.2.start.toNat / 4 := fun same =>
      own' (BitVec.eq_of_toNat_eq (same.trans place'.symm))
    omega

/-- Where every write lands where it starts. -/
theorem landings_own (fits : ∀ x ∈ xs, x.Fits) (clear : Clear xs) :
    landings none xs = xs.map fun x => (wordAddr x.start, x) := by
  have own := (own_iff below_none fits).mpr ⟨fun _ _ nowhere => (by cases nowhere), clear⟩
  calc landings none xs = (landings none xs).map id := (List.map_id _).symm
    _ = (landings none xs).map ((fun x => (wordAddr x.start, x)) ∘ Prod.snd) :=
        List.map_congr_left fun l landed => Prod.ext (own l landed) rfl
    _ = xs.map fun x => (wordAddr x.start, x) := by rw [← List.map_map, landings_writes]

end

end Write

end IcoZip.Hexbus
