import IcoZip.Fifo.Ufifo

/-! `wbufifo`, the FIFO behind the bus executor, loses no word that it accepts, and says so when it refuses one.

The word that can be read is in a register in front of the memory, and is fetched as soon as
there is one. The pointers have one bit more than the addresses of the memory.
-/

set_option autoImplicit false

namespace IcoZip.Fifo

/-- `lgflen` is `LGFLEN`. -/
structure Wbufifo (lgflen bw : Nat) where
  fifo : BitVec lgflen → BitVec bw
  wrptr : BitVec (lgflen + 1)
  rdptr : BitVec (lgflen + 1)
  willOverflow : Bool
  willUnderflow : Bool
  data : BitVec bw
  emptyN : Bool

namespace Wbufifo
variable {w bw : Nat} (s : Wbufifo w bw) (reset : Bool) (i : Inputs bw)

/-- `w_write` -/
def write : Bool := i.wr && (!s.willOverflow || i.rd)

/-- `w_read`: the register takes the next word. -/
def read : Bool := (i.rd || !s.emptyN) && !s.willUnderflow

/-- `o_err` -/
def err : Bool := i.wr && s.willOverflow && !i.rd || i.rd && !s.emptyN

/-- One clock. -/
def clock : Wbufifo w bw where
  willOverflow :=
    if reset then false
    else if i.rd then s.willOverflow && i.wr
    else if s.write i then
      (s.wrptr + 1).setWidth w == s.rdptr.setWidth w && (s.wrptr + 1).getLsbD w != s.rdptr.getLsbD w
    else s.willOverflow
  wrptr := if reset then 0 else if s.write i then s.wrptr + 1 else s.wrptr
  fifo := if s.write i then Function.update s.fifo (s.wrptr.setWidth w) i.data else s.fifo
  willUnderflow :=
    if reset then true
    else if i.wr then false
    else if s.read i then s.willUnderflow || s.rdptr + 1 == s.wrptr
    else s.willUnderflow
  rdptr := if reset then 0 else if s.read i && !s.willUnderflow then s.rdptr + 1 else s.rdptr
  data := if s.read i && !s.willUnderflow then s.fifo (s.rdptr.setWidth w) else s.data
  emptyN := if reset then false else if !s.emptyN || i.rd then !s.willUnderflow else s.emptyN

/-- The value that is accepted. -/
def accepted : List (BitVec bw) := if s.write i then [i.data] else []

/-- The value that is read. -/
def delivered : List (BitVec bw) := if i.rd && s.emptyN then [s.data] else []

/-- What is in the memory, and in the register before it. -/
structure Holds (front : Option (BitVec bw)) (queue : List (BitVec bw)) : Prop where
  wrptr : s.wrptr = Circular.place s.rdptr queue.length
  underflow : s.willUnderflow = queue.isEmpty
  stored : Circular s.fifo (s.rdptr.setWidth w) queue
  emptyN : s.emptyN = front.isSome
  data : ∀ a ∈ front, s.data = a
  /-- The flag may come a word early: one that is fetched in that clock is still counted. -/
  full : s.willOverflow = true → front.isSome = true ∧ 2 ^ w ≤ queue.length + 1
  room : s.willOverflow = false → queue.length < 2 ^ w
  fits : queue.length ≤ 2 ^ w

variable {s i} {front : Option (BitVec bw)} {queue : List (BitVec bw)}

/-- The low part of a pointer is the address. -/
theorem place_low (rd : BitVec (w + 1)) (n : Nat) :
    (Circular.place rd n).setWidth w = Circular.place (rd.setWidth w) n := by
  have power : 2 ^ w ∣ 2 ^ (w + 1) := Nat.pow_dvd_pow 2 (Nat.le_succ w)
  apply BitVec.eq_of_toNat_eq
  simp [Circular.place, Nat.mod_mod_of_dvd _ power]

/-- The top bit of a pointer changes when it has gone around once. -/
theorem around (rd : BitVec (w + 1)) {n : Nat} (positive : 0 < n) (most : n ≤ 2 ^ w) :
    ((Circular.place rd n).setWidth w == rd.setWidth w && (Circular.place rd n).getLsbD w != rd.getLsbD w) =
      decide (n = 2 ^ w) := by
  have low : ((Circular.place rd n).setWidth w == rd.setWidth w) = decide (n = 2 ^ w) := by
    rw [place_low, Bool.eq_iff_iff, beq_iff_eq, decide_eq_true_iff, Circular.place_eq_self _ positive most]
  rw [low]
  by_cases all : n = 2 ^ w
  · have top (a : BitVec (w + 1)) : a.getLsbD w = decide (2 ^ w ≤ a.toNat) := by
      have msb := BitVec.msb_eq_decide a
      rwa [BitVec.msb_eq_getLsbD_last, Nat.add_sub_cancel] at msb
    have bound := rd.isLt
    have double : 2 ^ (w + 1) = 2 ^ w + 2 ^ w := by rw [Nat.pow_succ, Nat.mul_two]
    have sum : (Circular.place rd n).toNat = (rd.toNat + 2 ^ w) % 2 ^ (w + 1) := by
      rw [Circular.place, BitVec.toNat_add, BitVec.toNat_ofNat, all, Nat.add_mod_mod]
    rw [top, top, sum]
    by_cases high : 2 ^ w ≤ rd.toNat
    · have wrapped : (rd.toNat + 2 ^ w) % 2 ^ (w + 1) = rd.toNat - 2 ^ w := by
        rw [Nat.mod_eq_sub_mod (by omega), Nat.mod_eq_of_lt (by omega)]
        omega
      have less : ¬ 2 ^ w ≤ rd.toNat - 2 ^ w := by omega
      simp [wrapped, all, high, less]
    · have whole : (rd.toNat + 2 ^ w) % 2 ^ (w + 1) = rd.toNat + 2 ^ w := Nat.mod_eq_of_lt (by omega)
      simp [whole, all, high]
  · simp [all]

/-- What is in the memory after a clock, and in the register. -/
def later (s : Wbufifo w bw) (i : Inputs bw) (queue : List (BitVec bw)) : List (BitVec bw) :=
  (if s.read i then queue.tail else queue) ++ s.accepted i

def shown (i : Inputs bw) (front : Option (BitVec bw)) (queue : List (BitVec bw)) : Option (BitVec bw) :=
  if i.rd || front.isNone then queue.head? else front

/-- A word is fetched only if there is one. -/
theorem fetches (s : Wbufifo w bw) (i : Inputs bw) : (s.read i && !s.willUnderflow) = s.read i := by
  rw [read, Bool.and_assoc, Bool.and_self]

theorem rdptr_clock (s : Wbufifo w bw) (i : Inputs bw) :
    (s.clock false i).rdptr = if s.read i then s.rdptr + 1#(w + 1) else s.rdptr := by
  simp [clock, fetches]

namespace Holds

theorem read (holds : s.Holds front queue) : s.read i = ((i.rd || front.isNone) && !queue.isEmpty) := by
  rw [Wbufifo.read, holds.underflow, holds.emptyN]
  cases front <;> rfl

/-- A word is accepted if there is room behind those that stay. -/
theorem room_write (holds : s.Holds front queue) (write : s.write i = true) :
    (if s.read i then queue.tail else queue).length < 2 ^ w := by
  have readable := holds.read (i := i)
  have fits := holds.fits
  cases full : s.willOverflow with
  | false =>
    have room := holds.room full
    split_ifs
    · rw [List.length_tail]
      omega
    · exact room
  | true =>
    have rd : i.rd = true := by
      rw [Wbufifo.write, full] at write
      simpa using (Bool.and_eq_true_iff.mp write).2
    cases queue with
    | nil => simp
    | cons a rest =>
      rw [readable, rd, Bool.true_or, Bool.true_and, List.isEmpty_cons, Bool.not_false, if_pos rfl, List.tail_cons]
      exact fits

/-- The words that stay begin at the read pointer and end at the write pointer. -/
theorem wrptr_stay (holds : s.Holds front queue) :
    s.wrptr = Circular.place (s.clock false i).rdptr (if s.read i then queue.tail else queue).length := by
  have readable := holds.read (i := i)
  rw [rdptr_clock]
  cases queue with
  | nil =>
    have none : s.read i = false := by simpa using readable
    simp [none, holds.wrptr]
  | cons a rest => cases s.read i <;> simp [holds.wrptr, Circular.place_succ]

theorem wrptr_clock (holds : s.Holds front queue) :
    (s.clock false i).wrptr = Circular.place (s.clock false i).rdptr (later s i queue).length := by
  have stay := holds.wrptr_stay (i := i)
  have next : (s.clock false i).wrptr = s.wrptr + BitVec.ofNat (w + 1) (s.accepted i).length := by
    cases write : s.write i <;> simp [clock, accepted, write]
  rw [next, stay, Circular.place_add, later, List.length_append]

theorem stored_clock (holds : s.Holds front queue) :
    Circular (s.clock false i).fifo ((s.clock false i).rdptr.setWidth w) (later s i queue) := by
  have readable := holds.read (i := i)
  have stay : Circular s.fifo ((s.clock false i).rdptr.setWidth w) (if s.read i then queue.tail else queue) := by
    rw [rdptr_clock]
    cases read : s.read i with
    | false => exact holds.stored
    | true =>
      cases queue with
      | nil => trivial
      | cons a rest =>
        have next : (s.rdptr + 1#(w + 1)).setWidth w = s.rdptr.setWidth w + 1#(w) := place_low s.rdptr 1
        simpa [next] using holds.stored.2
  cases write : s.write i with
  | false => simpa [clock, later, accepted, write] using stay
  | true =>
    have room := holds.room_write write
    have ends := holds.wrptr_stay (i := i)
    generalize rest_eq : (if s.read i then queue.tail else queue) = rest at stay room ends
    have there : (s.wrptr).setWidth w = Circular.place ((s.clock false i).rdptr.setWidth w) rest.length := by
      rw [← place_low, ← ends]
    have pushed := stay.push i.data room
    rw [← there] at pushed
    simpa [clock, later, accepted, write, rest_eq] using pushed

theorem fits_clock (holds : s.Holds front queue) : (later s i queue).length ≤ 2 ^ w := by
  have fits := holds.fits
  have stay : (if s.read i then queue.tail else queue).length ≤ queue.length := by split_ifs <;> simp
  rw [later, accepted, List.length_append]
  cases write : s.write i with
  | false =>
    simp only [Bool.false_eq_true, if_false, List.length_nil]
    omega
  | true =>
    have room := holds.room_write write
    simp only [if_true, List.length_singleton]
    omega

theorem shown_clock (holds : s.Holds front queue) :
    (s.clock false i).emptyN = (shown i front queue).isSome ∧
      ∀ a ∈ shown i front queue, (s.clock false i).data = a := by
  have readable := holds.read (i := i)
  have under := holds.underflow
  have some := holds.emptyN
  cases takes : i.rd || front.isNone with
  | true =>
    have waits : (!s.emptyN || i.rd) = true := by
      rw [some]
      cases front <;> simp_all
    constructor
    · cases queue <;> simp [clock, shown, takes, waits, under]
    · intro a front
      cases queue with
      | nil => simp [shown, takes] at front
      | cons b rest =>
        have read : s.read i = true := by simpa [takes] using readable
        have first : s.fifo (s.rdptr.setWidth w) = b := holds.stored.1
        simp [shown, takes] at front
        simp [clock, read, under, first, front]
  | false =>
    have read : s.read i = false := by rw [readable, takes, Bool.false_and]
    obtain ⟨unread, full⟩ := Bool.or_eq_false_iff.mp takes
    have kept : (!s.emptyN || i.rd) = false := by
      rw [some, unread]
      cases front <;> simp_all
    constructor
    · have stays : (s.clock false i).emptyN = s.emptyN := by
        simp only [clock, kept]
        rfl
      rw [stays, shown, takes, some]
      rfl
    · intro a front
      rw [shown, takes] at front
      simpa [clock, read] using holds.data a front

/-- What is refused finds words in the memory that stay there. -/
theorem refused (wide : 1 ≤ w) (holds : s.Holds front queue) (wr : i.wr = true) (refused : s.write i = false) :
    s.willOverflow = true ∧ i.rd = false ∧ s.read i = false ∧ queue ≠ [] := by
  have readable := holds.read (i := i)
  have big : 2 ^ 1 ≤ 2 ^ w := Nat.pow_le_pow_right (by decide) wide
  rw [write, wr, Bool.true_and, Bool.or_eq_false_iff, Bool.not_eq_false'] at refused
  obtain ⟨some, many⟩ := holds.full refused.1
  refine ⟨refused.1, refused.2, ?_, ?_⟩
  · rw [readable, refused.2]
    cases front <;> simp_all
  · rintro rfl
    simp at many
    omega

theorem underflow_clock (wide : 1 ≤ w) (holds : s.Holds front queue) :
    (s.clock false i).willUnderflow = (later s i queue).isEmpty := by
  have readable := holds.read (i := i)
  have under := holds.underflow
  have fits := holds.fits
  cases wr : i.wr with
  | true =>
    have some : (later s i queue).isEmpty = false := by
      cases write : s.write i with
      | true => simp [later, accepted, write]
      | false =>
        obtain ⟨-, -, read, some⟩ := holds.refused wide wr write
        simp [later, read, some]
    rw [some]
    simp [clock, wr]
  | false =>
    have unwritten : s.write i = false := by rw [write, wr, Bool.false_and]
    cases read : s.read i with
    | false => simp [clock, later, accepted, wr, read, unwritten, under]
    | true =>
      cases queue with
      | nil => simp [read] at readable
      | cons a rest =>
        have double : 2 ^ (w + 1) = 2 ^ w + 2 ^ w := by rw [Nat.pow_succ, Nat.mul_two]
        have positive : 0 < 2 ^ w := Nat.two_pow_pos w
        have one : s.rdptr + 1#(w + 1) = Circular.place s.rdptr 1 := rfl
        have last : (s.rdptr + 1#(w + 1) == s.wrptr) = rest.isEmpty := by
          rw [one, holds.wrptr, Bool.eq_iff_iff, beq_iff_eq, Circular.place_inj s.rdptr (by omega) (by omega)]
          cases rest <;> simp
        simp only [clock, wr, read, under]
        simp [later, accepted, read, unwritten, last]

/-- What the flag says of the memory and of the register before it. -/
def Flagged (w : Nat) (flag : Bool) (front : Option (BitVec bw)) (queue : List (BitVec bw)) : Prop :=
  (flag = true → front.isSome = true ∧ 2 ^ w ≤ queue.length + 1) ∧ (flag = false → queue.length < 2 ^ w)

theorem length_later : (later s i queue).length = queue.length - (s.read i).toNat + (s.write i).toNat := by
  rw [later, accepted, List.length_append]
  cases s.read i <;> cases s.write i <;> simp

/-- With a read the flag stays when a word comes in. -/
theorem flag_read (wide : 1 ≤ w) (holds : s.Holds front queue) (rd : i.rd = true) :
    Flagged w (s.clock false i).willOverflow (shown i front queue) (later s i queue) := by
  have readable := holds.read (i := i)
  have big : 2 ^ 1 ≤ 2 ^ w := Nat.pow_le_pow_right (by decide) wide
  have next : (s.clock false i).willOverflow = (s.willOverflow && i.wr) := by simp [clock, rd]
  have bit := Bool.toNat_le (s.write i)
  rw [rd, Bool.true_or, Bool.true_and] at readable
  rw [Flagged, next, length_later, readable]
  cases queue with
  | nil =>
    -- an empty memory has no flag to keep
    have flag : s.willOverflow = false := by
      cases flag : s.willOverflow with
      | false => rfl
      | true =>
        have many := (holds.full flag).2
        simp at many
        omega
    refine ⟨fun full => by simp [flag] at full, fun _ => ?_⟩
    simp only [List.length_nil, Nat.zero_sub, Nat.zero_add]
    omega
  | cons a rest =>
    have fits := holds.fits
    simp only [List.isEmpty_cons, Bool.not_false, Bool.toNat_true, List.length_cons, Nat.add_sub_cancel] at fits ⊢
    constructor
    · intro full
      obtain ⟨flag, wr⟩ := Bool.and_eq_true_iff.mp full
      have write : s.write i = true := by rw [Wbufifo.write, wr, rd, Bool.or_true]; rfl
      have many := (holds.full flag).2
      refine ⟨by simp [shown, rd], ?_⟩
      rw [write]
      simpa using many
    · intro free
      rcases Bool.and_eq_false_iff.mp free with flag | wr
      · have room := holds.room flag
        rw [List.length_cons] at room
        omega
      · have unwritten : s.write i = false := by rw [Wbufifo.write, wr, Bool.false_and]
        rw [unwritten, Bool.toNat_false]
        omega

/-- A word that comes in without a read finds room. -/
theorem flag_write (wide : 1 ≤ w) (holds : s.Holds front queue) (rd : i.rd = false) (write : s.write i = true) :
    Flagged w (s.clock false i).willOverflow (shown i front queue) (later s i queue) := by
  have readable := holds.read (i := i)
  have big : 2 ^ 1 ≤ 2 ^ w := Nat.pow_le_pow_right (by decide) wide
  have flag : s.willOverflow = false := by
    rw [Wbufifo.write, rd, Bool.or_false] at write
    simpa using (Bool.and_eq_true_iff.mp write).2
  have room := holds.room flag
  have next : (s.clock false i).willOverflow = decide (queue.length + 1 = 2 ^ w) := by
    have ends : s.wrptr + 1#(w + 1) = Circular.place s.rdptr (queue.length + 1) := by
      rw [holds.wrptr, Circular.place_add]
    rw [← around s.rdptr (Nat.succ_pos _) room, ← ends]
    simp [clock, rd, write]
  rw [rd, Bool.false_or] at readable
  rw [Flagged, next, length_later, write, readable, decide_eq_true_eq, decide_eq_false_iff_not]
  cases front with
  | some a =>
    simp only [Option.isNone_some, Bool.false_and, Bool.toNat_false, Bool.toNat_true]
    exact ⟨fun full => ⟨by simp [shown, rd], by omega⟩, fun free => by omega⟩
  | none =>
    cases queue with
    | nil =>
      simp
      omega
    | cons a rest =>
      simp only [List.length_cons] at room ⊢
      simp only [Option.isNone_none, List.isEmpty_cons, Bool.not_false, Bool.and_self, Bool.toNat_true]
      exact ⟨fun full => ⟨by simp [shown], by omega⟩, fun free => by omega⟩

theorem flag_clock (wide : 1 ≤ w) (holds : s.Holds front queue) :
    Flagged w (s.clock false i).willOverflow (shown i front queue) (later s i queue) := by
  cases rd : i.rd with
  | true => exact holds.flag_read wide rd
  | false =>
    cases write : s.write i with
    | true => exact holds.flag_write wide rd write
    | false =>
      have readable := holds.read (i := i)
      have next : (s.clock false i).willOverflow = s.willOverflow := by simp [clock, rd, write]
      rw [rd, Bool.false_or] at readable
      rw [Flagged, next, length_later, write, Bool.toNat_false, Nat.add_zero]
      constructor
      · intro flag
        obtain ⟨some, many⟩ := holds.full flag
        have read : s.read i = false := by
          rw [readable]
          cases front <;> simp_all
        rw [read]
        refine ⟨?_, by simpa using many⟩
        cases front with
        | none => simp at some
        | some a => simp [shown, rd]
      · intro flag
        have room := holds.room flag
        omega

/-- One clock: what is read is at the front, and what is accepted goes to the end. -/
theorem step (wide : 1 ≤ w) (holds : s.Holds front queue) :
    (s.clock false i).Holds (shown i front queue) (later s i queue) ∧
      s.delivered i ++ ((shown i front queue).toList ++ later s i queue) = front.toList ++ queue ++ s.accepted i := by
  have readable := holds.read (i := i)
  obtain ⟨emptyN, data⟩ := holds.shown_clock (i := i)
  obtain ⟨full, room⟩ := holds.flag_clock wide (i := i)
  refine ⟨⟨holds.wrptr_clock, holds.underflow_clock wide, holds.stored_clock, emptyN, data, full, room,
    holds.fits_clock⟩, ?_⟩
  have held := holds.data
  cases front with
  | none => cases queue <;> cases rd : i.rd <;> simp_all [delivered, later, shown, holds.emptyN]
  | some a => cases queue <;> cases rd : i.rd <;> simp_all [delivered, later, shown, holds.emptyN]

end Holds

theorem holds_reset (s : Wbufifo w bw) (i : Inputs bw) : (s.clock true i).Holds none [] := by
  refine ⟨?_, rfl, trivial, rfl, fun a none => by simp at none, fun full => by simp [clock] at full, fun _ => ?_, ?_⟩
  · simp [clock]
  · exact Nat.two_pow_pos w
  · exact Nat.zero_le _

/-- An empty FIFO shows a word two clocks after it has been written. -/
theorem Holds.visible (wide : 1 ≤ w) (holds : s.Holds none []) (wr : i.wr = true) (j : Inputs bw) :
    ((s.clock false i).clock false j).emptyN = true ∧ ((s.clock false i).clock false j).data = i.data := by
  have flag : s.willOverflow = false := by
    cases flag : s.willOverflow with
    | false => rfl
    | true => simpa using (holds.full flag).1
  have write : s.write i = true := by rw [Wbufifo.write, wr, flag]; rfl
  have next := (holds.step wide (i := i)).1
  have front : shown i (none : Option (BitVec bw)) [] = none := by simp [shown]
  have queue : later s i [] = [i.data] := by simp [later, accepted, write]
  rw [front, queue] at next
  obtain ⟨shows_, data⟩ := next.shown_clock (i := j)
  have first : shown j none [i.data] = some i.data := by simp [shown]
  rw [first] at shows_ data
  exact ⟨shows_, data i.data rfl⟩

/-- What is held is shown, now or in the next clock. -/
theorem Holds.soon_shown (holds : s.Holds front queue) (some : front.toList ++ queue ≠ []) :
    s.emptyN = true ∨ ∀ i, (s.clock false i).emptyN = true := by
  cases front with
  | some a => exact .inl holds.emptyN
  | none =>
    refine .inr fun i => ?_
    cases queue with
    | nil => exact absurd rfl some
    | cons a rest => simpa [shown] using (holds.shown_clock (i := i)).1

/-- Reading in every clock brings out what is held, however much is written meanwhile; where nothing is shown yet it
takes a clock more. -/
theorem Holds.drains (wide : 1 ≤ w) (is : List (Inputs bw)) (holds : s.Holds front queue)
    (reading : ∀ i ∈ is, i.rd = true) {first : List (BitVec bw)} (held : first <+: front.toList ++ queue)
    (long : first.length + front.isNone.toNat ≤ is.length) :
    first <+: Clocked.emitted (fun (x : Wbufifo w bw) i => x.clock false i) delivered s is := by
  induction is generalizing s front queue first with
  | nil =>
    obtain rfl : first = [] := List.length_eq_zero_iff.mp (Nat.eq_zero_of_add_eq_zero_right (Nat.le_zero.mp long))
    exact List.nil_prefix
  | cons i is ih =>
    have rd : i.rd = true := reading i List.mem_cons_self
    have rest : ∀ j ∈ is, j.rd = true := fun j member => reading j (List.mem_cons_of_mem i member)
    obtain ⟨next, law⟩ := holds.step wide (i := i)
    have front' : shown i front queue = queue.head? := by rw [shown, rd, Bool.true_or, if_pos rfl]
    rw [front'] at next law
    rw [Clocked.emitted_cons]
    rw [List.length_cons] at long
    cases first with
    | nil => exact List.nil_prefix
    | cons a first =>
      cases front with
      | some b =>
        -- the word that is shown comes out
        have out : s.delivered i = [b] := by rw [delivered, rd, holds.emptyN, holds.data b rfl]; rfl
        obtain ⟨rfl, inner⟩ := List.cons_prefix_cons.mp held
        rw [out, List.singleton_append, Option.toList_some, List.singleton_append, List.cons_append] at law
        have stays := List.tail_eq_of_cons_eq law
        rw [out, List.singleton_append, List.cons_prefix_cons]
        refine ⟨rfl, ?_⟩
        cases queue with
        | nil =>
          rw [List.prefix_nil.mp inner]
          exact List.nil_prefix
        | cons c queue =>
          refine ih next rest ?_ ?_
          · rw [stays]
            exact inner.trans (List.prefix_append (c :: queue) _)
          · exact Nat.le_of_succ_le_succ long
      | none =>
        have out : s.delivered i = [] := by rw [delivered, holds.emptyN, Option.isSome_none, Bool.and_false]; rfl
        rw [out, List.nil_append] at law ⊢
        refine ih next rest ?_ ?_
        · rw [law]
          exact held.trans (List.prefix_append _ _)
        · cases queue with
          | nil => simp at held
          | cons c queue => exact Nat.le_of_succ_le_succ long

/-- In every run after a reset, with any writes and reads: what is read is what was written, in order, up to the words
that are still held, which are shown now or in the next clock and come out when there is a read in every clock; a
write is refused with `o_err` only, and if as many words are held as the memory has; and a word written to an empty
FIFO can be read two clocks later. -/
theorem wbufifo_order (wide : 1 ≤ w) (s : Wbufifo w bw) (j : Inputs bw) (is : List (Inputs bw)) :
    let x := s.clock true j
    let step := fun (x : Wbufifo w bw) i => x.clock false i
    let y := Clocked.run step x is
    ∃ held : List (BitVec bw),
      Clocked.emitted step accepted x is = Clocked.emitted step delivered x is ++ held ∧
      (y.emptyN = true → held.head? = some y.data) ∧
      (held ≠ [] → y.emptyN = true ∨ ∀ i, (step y i).emptyN = true) ∧
      (∀ later : List (Inputs bw), (∀ i ∈ later, i.rd = true) → held.length < later.length →
        held <+: Clocked.emitted step delivered y later) ∧
      (∀ i, i.wr = true → y.write i = false → y.err i = true ∧ 2 ^ w ≤ held.length) ∧
      (held = [] → ∀ i i', i.wr = true → y.write i = true ∧
        (step (step y i) i').emptyN = true ∧ (step (step y i) i').data = i.data) := by
  intro x step y
  obtain ⟨held, ⟨front, queue, rfl, holds⟩, law⟩ := @Clocked.conservation_rel _ _ _ step (fun _ _ => True)
    delivered accepted
    (fun s held => ∃ front queue, held = front.toList ++ queue ∧ s.Holds front queue)
    (fun s i held holds _ => by
      obtain ⟨front, queue, rfl, holds⟩ := holds
      exact ⟨_, ⟨_, _, rfl, (holds.step wide).1⟩, (holds.step wide).2⟩)
    x is [] ⟨none, [], rfl, holds_reset s j⟩ (Clocked.always_of_forall (fun _ _ => trivial) x is)
  refine ⟨front.toList ++ queue, by rw [law, List.nil_append], fun some => ?_, holds.soon_shown,
    fun later reading long => ?_, fun i wr refused => ?_, fun empty i i' wr => ?_⟩
  · rw [holds.emptyN] at some
    obtain ⟨a, rfl⟩ := Option.isSome_iff_exists.mp some
    rw [holds.data a rfl]
    rfl
  · exact holds.drains wide later reading List.prefix_rfl
      (Nat.le_trans (Nat.add_le_add_left (Bool.toNat_le _) _) long)
  · obtain ⟨flag, unread, -, -⟩ := holds.refused wide wr refused
    obtain ⟨some, many⟩ := holds.full flag
    obtain ⟨a, rfl⟩ := Option.isSome_iff_exists.mp some
    refine ⟨by rw [err, wr, flag, unread]; rfl, ?_⟩
    simpa [Nat.add_comm] using many
  · obtain ⟨none_, rfl⟩ := List.append_eq_nil_iff.mp empty
    obtain rfl : front = none := by
      cases front with
      | none => rfl
      | some a => simp at none_
    refine ⟨?_, holds.visible wide wr i'⟩
    cases write : y.write i with
    | true => rfl
    | false => exact absurd rfl (holds.refused wide wr write).2.2.2

/-- The registers before a reset. -/
def blank (w bw : Nat) : Wbufifo w bw := ⟨fun _ => 0, 0, 0, false, false, 0, false⟩

/-- Three words in a row to a memory of two, the third refused, and two reads. -/
def crowded : List (Inputs 36) :=
  [⟨true, 1, false⟩, ⟨true, 2, false⟩, ⟨true, 3, false⟩, ⟨false, 0, true⟩, ⟨false, 0, true⟩]

theorem wbufifo_order_crowded :
    let x := (blank 1 36).clock true ⟨false, 0, false⟩
    let step := fun (x : Wbufifo 1 36) i => x.clock false i
    Clocked.emitted step accepted x crowded = Clocked.emitted step delivered x crowded ∧
      Clocked.emitted step delivered x crowded = [1, 2] := by
  intro x step
  obtain ⟨held, law, -⟩ := wbufifo_order (by decide) (blank 1 36) ⟨false, 0, false⟩ crowded
  have read : Clocked.emitted step delivered x crowded = [1, 2] := by decide +kernel
  have written : Clocked.emitted step accepted x crowded = [1, 2] := by decide +kernel
  have none : held = [] := by
    rw [read, written] at law
    exact (List.self_eq_append_right.mp law)
  refine ⟨?_, read⟩
  rw [law, none, List.append_nil]

end Wbufifo

end IcoZip.Fifo
