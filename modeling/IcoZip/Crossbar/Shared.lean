import IcoZip.Crossbar.Routed
import IcoZip.Library.Bytes
import IcoZip.Library.Masked

/-! The block RAM `memdev` behind the crossbar.

Whatever the other slaves do, it is to all masters a memory that serves one request at a time, in the
order in which it accepts them.
-/

set_option autoImplicit false

namespace IcoZip.Crossbar

open Busdelay (Request)

/-! ### `memdev`, with `EXTRACLOCK` -/

structure Memdev (w : Nat) where
  lastWstb : Bool
  lastStb : Bool
  lastAddr : BitVec w
  lastData : BitVec 32
  lastSel : BitVec 4
  mem : BitVec w → BitVec 32
  wbAck : Bool
  wbData : BitVec 32

namespace Memdev

variable {w : Nat}

def powerUp (content : BitVec w → BitVec 32) : Memdev w := ⟨false, false, 0, 0, 0, content, false, 0⟩

variable (s : Memdev w)

/-- The memory with the write that is under way. -/
def written (a : BitVec w) : BitVec 32 :=
  if s.lastWstb && a == s.lastAddr then
    Bytes.ofBytes fun j => if s.lastSel.getLsbD j then Bytes.byte s.lastData j else Bytes.byte (s.mem a) j
  else s.mem a

def clock (reset cyc stb we : Bool) (addr : BitVec w) (data : BitVec 32) (sel : BitVec 4) : Memdev w where
  lastWstb := stb && we
  lastStb := if reset then false else stb
  lastAddr := addr
  lastData := data
  lastSel := sel
  mem := s.written
  wbAck := if reset then false else s.lastStb && cyc
  wbData := s.mem s.lastAddr

/-- The words that are still to be given. -/
def due : List (BitVec 32) :=
  (if s.wbAck then [s.wbData] else []) ++ if s.lastStb then [s.mem s.lastAddr] else []

end Memdev

/-! ### Both together -/

variable {nm ns aw w lg : Nat}

section Words

/-- A request as an access to the four bytes of a word. The memory has the low bits of the address. -/
def access (w : Nat) (q : Request aw 32) : Masked.Access (BitVec w) Nat (BitVec 8) where
  addr := q.addr.setWidth w
  lanes j := if q.we && q.sel.getLsbD j then some (Bytes.byte q.data j) else none

/-- The word at an address when the requests of a history have been served. -/
def word (content : BitVec w → BitVec 32) (history : List (Request aw 32)) (a : BitVec w) : BitVec 32 :=
  Bytes.ofBytes fun j => Masked.latest (fun a j => Bytes.byte (content a) j) (history.map (access w)) a j

end Words

structure Shared (nm ns aw w lg : Nat) where
  bench : Bench nm ns aw 32 lg
  mem : Memdev w
  /-- What the memory has accepted, from all masters. -/
  history : List (Request aw 32)
  /-- The requests of a master's cycle that slaves have accepted, and what a memory that serves them at that moment
  finds. -/
  found : Fin nm → List ((Fin ns × Request aw 32) × BitVec 32)

namespace Shared

def powerUp (content : BitVec w → BitVec 32) : Shared nm ns aw w lg := ⟨.powerUp, .powerUp content, [], fun _ => []⟩

variable (content : BitVec w → BitVec 32) (b : Build ns aw lg) (ram : Fin ns) (x : Shared nm ns aw w lg)
  (i : Inputs nm ns aw 32)

/-- The memory in the place of the slave. -/
def wired : Inputs nm ns aw 32 :=
  { i with slave := Function.update i.slave ram ⟨false, x.mem.wbAck, false, x.mem.wbData⟩ }

def step : Shared nm ns aw w lg where
  bench := x.bench.step b (x.wired ram i)
  mem :=
    let q := x.bench.core.sreq ram
    x.mem.clock false (x.bench.core.scyc ram) (x.bench.core.sstb ram) q.we (q.addr.setWidth w) q.data q.sel
  history := x.history ++ if x.bench.core.sstb ram then [x.bench.core.sreq ram] else []
  found m :=
    if i.ends m then []
    else
      x.found m ++ (x.bench.core.passes (x.wired ram i) m).map fun e =>
        (e, word content x.history (e.2.addr.setWidth w))

/-- What is left to the masters and the other slaves. -/
structure Obeys : Prop where
  drops : ∀ m, none ∈ (x.bench.log m).heard → i.ends m = true
  room : ∀ m, x.bench.core.mfull m = true → x.bench.core.asks i m = true →
    x.bench.core.grant m (x.bench.core.target b m) = true
  answers : ∀ k ≠ ram, (x.bench.core.sAck i k || x.bench.core.sErr i k) = true → 0 < x.bench.asked i k

/-- One clock of a memory that all masters share. -/
structure Coherent : Prop where
  connects : Bench.Routed b x.bench (x.wired ram i)
  /-- A request to the memory is answered with the word that it finds when it is accepted. -/
  latest : ∀ m, (x.bench.log m).Clean → ∀ n q d, (x.found m)[n]? = some ((ram, q), d) →
    n < (x.bench.log m).said.length → (x.bench.log m).said[n]? = some (some ram, some d)

/-! ### The invariant -/

structure Sound : Prop where
  bench : x.bench.Sound b
  owed : x.bench.owed ram = x.mem.lastStb.toNat + x.mem.wbAck.toNat
  holds : ∀ a, x.mem.written a = word content x.history a
  found : ∀ m, (x.found m).map Prod.fst = (x.bench.log m).down
  /-- What the memory gives next is what has been found and not been said. -/
  due : ∀ m, (x.bench.log m).Clean → x.bench.core.channel m = some ram → x.bench.core.scyc ram = true →
    ((x.found m).drop (x.bench.log m).said.length).map Prod.snd = x.mem.due
  latest : ∀ m, (x.bench.log m).Clean → ∀ n q d, (x.found m)[n]? = some ((ram, q), d) →
    n < (x.bench.log m).said.length → (x.bench.log m).said[n]? = some (some ram, some d)

variable {content b ram x i} {m : Fin nm}

theorem Sound.obeys (sound : x.Sound content b ram) (obeys : x.Obeys b ram i) : x.bench.Obeys b (x.wired ram i) where
  drops := obeys.drops
  room := obeys.room
  answers k answers := by
    by_cases here : k = ram
    · subst here
      have ack : x.mem.wbAck = true := by
        simp only [wired, Wbxbar.sAck, Wbxbar.sErr, Function.update_self, Bool.and_false, Bool.or_false] at answers
        exact (Bool.and_eq_true_iff.mp answers).2
      rw [Bench.asked, sound.owed, ack]
      exact Nat.lt_of_lt_of_le (Nat.succ_pos _) (Nat.le_add_right _ _)
    · have same : (x.wired ram i).slave k = i.slave k := Function.update_of_ne here _ _
      simp only [Wbxbar.sAck, Wbxbar.sErr, Bench.asked, same] at answers ⊢
      exact obeys.answers k here answers

/-- The write that is under way is the last of the history. -/
theorem word_concat (history : List (Request aw 32)) (q : Request aw 32) (a : BitVec w) :
    word content (history ++ [q]) a = Bytes.ofBytes fun j =>
      if q.we && a == q.addr.setWidth w && q.sel.getLsbD j then Bytes.byte q.data j
      else Bytes.byte (word content history a) j := by
  apply Bytes.ofBytes_congr
  intro j small
  rw [List.map_append, List.map_singleton, Masked.latest_concat, word, Bytes.byte_ofBytes _ small]
  simp only [Masked.Access.covers, access]
  by_cases here : q.addr.setWidth w = a
  · subst here
    cases q.we <;> cases q.sel.getLsbD j <;> simp
  · have other : (a == q.addr.setWidth w) = false := beq_false_of_ne (Ne.symm here)
    simp [here, other]

theorem Sound.holds_next (sound : x.Sound content b ram) (a : BitVec w) :
    (x.step content b ram i).mem.written a = word content (x.step content b ram i).history a := by
  simp only [step]
  cases strobe : x.bench.core.sstb ram with
  | false => simpa [Memdev.clock, Memdev.written] using sound.holds a
  | true =>
    rw [if_pos rfl, word_concat, ← sound.holds a]
    simp only [Memdev.clock, Memdev.written, Bool.true_and]
    split
    · rename_i here
      simp only [here, Bool.true_and]
    · rename_i away
      simp only [Bool.not_eq_true] at away
      simp only [away, Bool.false_and, Bool.false_eq_true, if_false, Bytes.ofBytes_byte]

theorem Sound.owed_next (sound : x.Sound content b ram) : (x.step content b ram i).bench.owed ram =
    (x.step content b ram i).mem.lastStb.toNat + (x.step content b ram i).mem.wbAck.toNat := by
  have owed := sound.owed
  simp only [step, Bench.step, Bench.asked, wired, Function.update_self, Memdev.clock]
  cases cyc : x.bench.core.scyc ram with
  | true =>
    cases strobe : x.bench.core.sstb ram <;> cases ack : x.mem.wbAck <;> cases last : x.mem.lastStb <;>
      simp_all
  | false =>
    have strobe : x.bench.core.sstb ram = false := by
      rw [← Bool.not_eq_true]
      exact fun on => absurd ((sound.bench.granted.strobe ram on).symm.trans cyc) (by decide)
    simp [strobe]

theorem Sound.found_next (sound : x.Sound content b ram) (m : Fin nm) :
    ((x.step content b ram i).found m).map Prod.fst = ((x.step content b ram i).bench.log m).down := by
  have same : (x.wired ram i).ends m = i.ends m := rfl
  simp only [step, Bench.step, same]
  split
  · rfl
  · rw [List.map_append, sound.found, List.map_map, Bench.passed]
    congr 1
    exact List.map_id _

/-- What a master with the memory has passed to it and heard from it in a clock. -/
theorem Sound.exchange (has : x.bench.core.channel m = some ram) (cyc : x.bench.core.scyc ram = true) :
    x.bench.core.passes (x.wired ram i) m =
        (if x.bench.core.sstb ram then [(ram, x.bench.core.sreq ram)] else []) ∧
      x.bench.core.replies (x.wired ram i) m = if x.mem.wbAck then [(some ram, some x.mem.wbData)] else [] := by
  constructor
  · simp [Wbxbar.passes, has, wired]
  · cases ack : x.mem.wbAck <;>
      simp [Wbxbar.replies, has, wired, Wbxbar.sAck, Wbxbar.sErr, cyc, ack, Busdelay.response]

theorem said_next (goes : i.ends m = false) : ((x.step content b ram i).bench.log m).said =
    (x.bench.log m).said ++ x.bench.core.replies (x.wired ram i) m := by
  have same : (x.wired ram i).ends m = i.ends m := rfl
  simp [step, Bench.step, same, goes]

theorem found_goes (goes : i.ends m = false) : (x.step content b ram i).found m = x.found m ++
    (x.bench.core.passes (x.wired ram i) m).map fun e => (e, word content x.history (e.2.addr.setWidth w)) := by
  simp [step, goes]

theorem Sound.said_le (sound : x.Sound content b ram) (clean : (x.bench.log m).Clean) :
    (x.bench.log m).said.length ≤ (x.found m).length := by
  have flow := sound.bench.flow m clean
  have same := congrArg List.length (sound.found m)
  rw [List.length_map] at same
  rw [same]
  exact flow.spoken_le

/-- The memory gives in turn what its requests have found. -/
theorem Sound.due_held (sound : x.Sound content b ram) (calm : Bench.Calm b x.bench (x.wired ram i) m)
    (has : x.bench.core.channel m = some ram) :
    (((x.step content b ram i).found m).drop ((x.step content b ram i).bench.log m).said.length).map Prod.snd =
      (x.step content b ram i).mem.due := by
  have goes : i.ends m = false := calm.goes
  rw [said_next goes, found_goes goes, List.length_append, ← List.drop_drop,
    List.drop_append_of_le_length (sound.said_le calm.clean), List.map_drop, List.map_append, List.map_map]
  cases cyc : x.bench.core.scyc ram with
  | true =>
    obtain ⟨passes, replies⟩ := Sound.exchange (i := i) has cyc
    rw [sound.due m calm.clean has cyc, passes, replies]
    have next := sound.holds ((x.bench.core.sreq ram).addr.setWidth w)
    cases strobe : x.bench.core.sstb ram <;> cases ack : x.mem.wbAck <;> cases last : x.mem.lastStb <;>
      simp [Memdev.due, step, Memdev.clock, cyc, strobe, ack, last, next]
  | false =>
    have flow := calm.flow sound.bench
    have strobe : x.bench.core.sstb ram = false := by
      rw [← Bool.not_eq_true]
      exact fun on => absurd ((sound.bench.granted.strobe ram on).symm.trans cyc) (by decide)
    have all := flow.closed ram has cyc
    have found := congrArg List.length (sound.found m)
    rw [List.length_map] at found
    have passes : x.bench.core.passes (x.wired ram i) m = [] := by simp [Wbxbar.passes, has, strobe]
    have nothing : (x.found m).drop (x.bench.log m).said.length = [] := by
      rw [List.drop_eq_nil_iff]
      omega
    rw [nothing, passes]
    simp [Memdev.due, step, Memdev.clock, cyc, strobe]

theorem Sound.due_next (sound : x.Sound content b ram) (clean : ((x.step content b ram i).bench.log m).Clean)
    (has : (x.step content b ram i).bench.core.channel m = some ram)
    (cyc : (x.step content b ram i).bench.core.scyc ram = true) :
    (((x.step content b ram i).found m).drop ((x.step content b ram i).bench.log m).said.length).map Prod.snd =
      (x.step content b ram i).mem.due := by
  have granted := sound.bench.granted
  have next : x.bench.core.nextGrant (x.wired ram i) m (some ram) = true := granted.kept.channel_iff.mp has
  cases granted.outcome (i := x.wired ram i) m with
  | dropped _ grant => exact absurd ((grant _).symm.trans next) (by decide)
  | lost _ _ _ _ _ grant => exact absurd ((grant _).symm.trans next) (by decide)
  | opened _ _ _ _ opens grant =>
    have unowned := (opens ram ((grant _).mp next).symm).1
    simp [step, Bench.step, Wbxbar.clock, Wbxbar.nextScyc, unowned] at cyc
  | kept goes _ grant =>
    have ends : (x.wired ram i).ends m = false := by simp [Inputs.ends, goes]
    exact sound.due_held (sound.bench.calm_of_next ends clean)
      (granted.channel_iff.mpr ((grant _).symm.trans next))

/-- The answer of a clock is to the request that is next. -/
theorem Sound.answers_next (sound : x.Sound content b ram) (calm : Bench.Calm b x.bench (x.wired ram i) m)
    {q : Request aw 32} {d : BitVec 32}
    (found : ((x.step content b ram i).found m)[(x.bench.log m).said.length]? = some ((ram, q), d))
    (replies : x.bench.core.replies (x.wired ram i) m ≠ []) :
    x.bench.core.replies (x.wired ram i) m = [(some ram, some d)] := by
  have goes : i.ends m = false := calm.goes
  have down : ((x.step content b ram i).bench.log m).down = x.bench.passed (x.wired ram i) m := by
    have same : (x.wired ram i).ends m = i.ends m := rfl
    simp [step, Bench.step, same, goes]
  have passed : (x.bench.passed (x.wired ram i) m)[(x.bench.log m).said.length]? = some (ram, q) := by
    rw [← down, ← sound.found_next m, List.getElem?_map, found]
    rfl
  cases has : x.bench.core.channel m with
  | none => exact absurd (calm.no_replies has) replies
  | some k =>
    have pending : (ram, q) ∈ (x.bench.passed (x.wired ram i) m).drop (x.bench.log m).said.length := by
      rw [List.mem_iff_getElem?]
      exact ⟨0, by rw [List.getElem?_drop, Nat.add_zero, passed]⟩
    obtain rfl : ram = k := sound.bench.pending_here calm.clean has pending
    have answers : x.bench.core.sAck (x.wired ram i) ram = true := by
      rw [← Bool.not_eq_false]
      intro silent
      rw [calm.replies has, silent, if_neg Bool.false_ne_true] at replies
      contradiction
    obtain ⟨cyc, ack⟩ : x.bench.core.scyc ram = true ∧ x.mem.wbAck = true := by
      simpa [Wbxbar.sAck, wired] using answers
    have first : (((x.found m).drop (x.bench.log m).said.length).map Prod.snd)[0]? = some x.mem.wbData := by
      rw [sound.due m calm.clean has cyc, Memdev.due, ack]
      rfl
    rw [List.getElem?_map, List.getElem?_drop, Nat.add_zero] at first
    rw [found_goes goes] at found
    cases next : (x.found m)[(x.bench.log m).said.length]? with
    | none => simp [next] at first
    | some e =>
      rw [List.getElem?_append_left (List.getElem?_eq_some_iff.mp next).1, next] at found
      obtain rfl := Option.some.inj found
      rw [next] at first
      obtain rfl : d = x.mem.wbData := Option.some.inj first
      rw [(Sound.exchange (i := i) has cyc).2, ack, if_pos rfl]

theorem Sound.latest_next (sound : x.Sound content b ram) (clean : ((x.step content b ram i).bench.log m).Clean)
    (n : Nat) (q : Request aw 32) (d : BitVec 32)
    (found : ((x.step content b ram i).found m)[n]? = some ((ram, q), d))
    (spoken : n < ((x.step content b ram i).bench.log m).said.length) :
    ((x.step content b ram i).bench.log m).said[n]? = some (some ram, some d) := by
  cases goes : i.ends m with
  | true => simp [step, goes] at found
  | false =>
    have calm : Bench.Calm b x.bench (x.wired ram i) m := sound.bench.calm_of_next goes clean
    rw [said_next goes] at spoken ⊢
    by_cases before : n < (x.bench.log m).said.length
    · rw [found_goes goes, List.getElem?_append_left (Nat.lt_of_lt_of_le before (sound.said_le calm.clean))] at found
      rw [List.getElem?_append_left before]
      exact sound.latest m calm.clean n q d found before
    · have late := Nat.le_of_not_lt before
      have short : (x.bench.core.replies (x.wired ram i) m).length ≤ 1 := Wbxbar.replies_short
      rw [List.length_append] at spoken
      obtain rfl : n = (x.bench.log m).said.length := by omega
      have replies := sound.answers_next calm found fun nothing => by
        rw [nothing] at spoken
        exact absurd spoken (Nat.lt_irrefl _)
      rw [List.getElem?_append_right (Nat.le_refl _), Nat.sub_self, replies]
      rfl

theorem Sound.next (sound : x.Sound content b ram) (obeys : x.Obeys b ram i) :
    (x.step content b ram i).Sound content b ram where
  bench := sound.bench.next (sound.obeys obeys)
  owed := sound.owed_next
  holds := sound.holds_next
  found := sound.found_next
  due _ clean has cyc := sound.due_next clean has cyc
  latest _ clean := sound.latest_next clean

theorem sound_powerUp : (powerUp content : Shared nm ns aw w lg).Sound content b ram where
  bench := Bench.sound_powerUp
  owed := rfl
  holds a := by
    have empty : word content ([] : List (Request aw 32)) a = content a := Bytes.ofBytes_byte (content a)
    exact empty.symm
  found _ := rfl
  due m _ has := by simp [powerUp, Bench.powerUp, Wbxbar.channel, Wbxbar.powerUp, pick] at has
  latest m _ n q d found := by simp [powerUp] at found

/-- Every clock of every run, from any content of the memory. -/
theorem atomic (content : BitVec w → BitVec 32) (b : Build ns aw lg) (ram : Fin ns) (is : List (Inputs nm ns aw 32))
    (obeys : Clocked.Always (step content b ram) (Obeys b ram) (powerUp content) is) :
    Clocked.Always (step content b ram) (Coherent b ram) (powerUp content) is := by
  have always := obeys.with_invariant (fun _ _ sound obeys => sound.next obeys) sound_powerUp
  exact always.mono fun _ _ clock => ⟨clock.1.bench.connects (clock.1.obeys clock.2), clock.1.latest⟩

instance (x : Shared nm ns aw w lg) (i : Inputs nm ns aw 32) : Decidable (x.Obeys b ram i) :=
  decidable_of_iff
    ((∀ m, none ∈ (x.bench.log m).heard → i.ends m = true) ∧
      (∀ m, x.bench.core.mfull m = true → x.bench.core.asks i m = true →
        x.bench.core.grant m (x.bench.core.target b m) = true) ∧
        ∀ k ≠ ram, (x.bench.core.sAck i k || x.bench.core.sErr i k) = true → 0 < x.bench.asked i k)
    ⟨fun obeys => ⟨obeys.1, obeys.2.1, obeys.2.2⟩, fun obeys => ⟨obeys.drops, obeys.room, obeys.answers⟩⟩

/-- One master writes a byte, and the other one reads the word. -/
def passing : List (Inputs 2 6 24 32) :=
  let idle : MasterIn 24 32 := ⟨false, false, .zero⟩
  let ask (stb we : Bool) : MasterIn 24 32 := ⟨true, stb, ⟨we, 0x500003, 0x07060504, 2⟩⟩
  let quiet : SlaveIn 32 := ⟨false, false, false, 0⟩
  let both (first second : MasterIn 24 32) : Inputs 2 6 24 32 := ⟨false, ![first, second], fun _ => quiet⟩
  [both (ask true true) (ask true false)] ++ List.replicate 6 (both (ask false true) (ask false false)) ++
    List.replicate 8 (both idle (ask false false))

theorem atomic_passing :
    Clocked.Always (step (fun _ : BitVec 11 => 1) wbXbar 4) (Obeys wbXbar 4) (powerUp fun _ => 1) passing ∧
      Clocked.Always (step (fun _ : BitVec 11 => 1) wbXbar 4) (Coherent wbXbar 4) (powerUp fun _ => 1) passing := by
  have obeys : Clocked.Always (step (fun _ : BitVec 11 => 1) wbXbar 4) (Obeys wbXbar 4) (powerUp fun _ => 1)
      passing := by
    decide +kernel
  exact ⟨obeys, atomic _ wbXbar 4 passing obeys⟩

end Shared

end IcoZip.Crossbar
