import IcoZip.Library.Circular
import IcoZip.Library.Clocked
import IcoZip.Library.Fields
import Mathlib.Tactic.NormNum

/-! `ufifo`, the FIFO between the console's UART and the bus, is one: what is read is what was written, in order.

The word behind the one that is read is fetched from the memory while it is read. A word that is
written then, or into an empty FIFO, is not in the memory yet and is kept in `last_write`.
-/

set_option autoImplicit false

namespace IcoZip.Fifo

structure Inputs (bw : Nat) where
  wr : Bool
  data : BitVec bw
  rd : Bool
  deriving DecidableEq, Repr

/-- `lgflen` is `LGFLEN`. -/
structure Ufifo (lgflen bw : Nat) where
  fifo : BitVec lgflen → BitVec bw
  rData : BitVec bw
  lastWrite : BitVec bw
  wrAddr : BitVec lgflen
  rdAddr : BitVec lgflen
  rNext : BitVec lgflen
  willOverflow : Bool
  willUnderflow : Bool
  osrc : Bool
  rFill : BitVec lgflen

namespace Ufifo
variable {w bw : Nat} (rxfifo : Bool) (s : Ufifo w bw) (reset : Bool) (i : Inputs bw)

/-- `o_empty_n` -/
def emptyN : Bool := !s.willUnderflow

/-- `w_write` -/
def write : Bool := i.wr && (!s.willOverflow || i.rd)

/-- `w_read` -/
def read : Bool := i.rd && s.emptyN

/-- `o_data` -/
def data : BitVec bw := if s.osrc then s.lastWrite else s.rData

/-- `o_err` -/
def err : Bool := i.wr && !s.write i

/-- The word will not be in the memory when it is to be fetched. -/
def bypasses : Bool := i.wr && (!s.emptyN || s.read i && s.rNext == s.wrAddr)

/-- `o_status`: the part of `r_fill` that ten bits have room for. -/
def status : BitVec 16 :=
  BitVec.ofNat 4 w ++ s.rFill.setWidth 10 ++
    (BitVec.ofBool (s.rFill.getLsbD (w - 1)) ++ BitVec.ofBool (if rxfifo then !s.willUnderflow else !s.willOverflow))

/-- One clock. -/
def clock : Ufifo w bw where
  willOverflow :=
    if reset then false
    else if i.rd then s.willOverflow && i.wr
    else if s.write i then s.willOverflow || s.wrAddr + 2 == s.rdAddr
    else if s.wrAddr + 1 == s.rdAddr then true
    else s.willOverflow
  wrAddr := if reset then 0 else if s.write i then s.wrAddr + 1 else s.wrAddr
  fifo := if s.write i then Function.update s.fifo s.wrAddr i.data else s.fifo
  willUnderflow :=
    if reset then true
    else if i.wr then false
    else if s.read i then s.willUnderflow || s.rNext == s.wrAddr
    else s.willUnderflow
  rdAddr := if reset then 0 else if s.read i then s.rdAddr + 1 else s.rdAddr
  rNext := if reset then 1 else if s.read i then s.rdAddr + 2 else s.rNext
  rData := if s.read i then s.fifo s.rNext else s.rData
  lastWrite := if s.bypasses i then i.data else s.lastWrite
  osrc := if reset then false else if s.bypasses i then true else if i.rd then false else s.osrc
  rFill :=
    if rxfifo then
      if reset then 0
      else if !s.write i && s.read i then s.rFill - 1
      else if s.write i && !s.read i then s.rFill + 1
      else s.rFill
    else
      if reset then BitVec.allOnes w
      else if !s.write i && s.read i then s.rFill + 1
      else if s.write i && !s.read i then s.rFill - 1
      else s.rFill

/-- The value that is accepted. -/
def accepted : List (BitVec bw) := if s.write i then [i.data] else []

/-- The value that is read. -/
def delivered : List (BitVec bw) := if s.read i then [s.data] else []

/-! ### The queue -/

/-- What has been accepted and not been read. -/
structure Holds (queue : List (BitVec bw)) : Prop where
  wrAddr : s.wrAddr = Circular.place s.rdAddr queue.length
  next : s.rNext = s.rdAddr + 1
  fits : queue.length < 2 ^ w
  overflow : s.willOverflow = decide (queue.length + 1 = 2 ^ w)
  underflow : s.willUnderflow = queue.isEmpty
  stored : Circular s.fifo s.rdAddr queue
  front : ∀ a ∈ queue.head?, s.data = a
  fill : s.rFill = BitVec.ofNat w (if rxfifo then queue.length else 2 ^ w - 1 - queue.length)

variable {rxfifo s i} {queue : List (BitVec bw)}

namespace Holds

theorem emptyN (holds : s.Holds rxfifo queue) : s.emptyN = !queue.isEmpty := by rw [Ufifo.emptyN, holds.underflow]

/-- A write is accepted if there is room, or if a word is read to make it. -/
theorem write (holds : s.Holds rxfifo queue) :
    s.write i = (i.wr && (!decide (queue.length + 1 = 2 ^ w) || i.rd)) := by rw [Ufifo.write, holds.overflow]

theorem read (holds : s.Holds rxfifo queue) : s.read i = (i.rd && !queue.isEmpty) := by rw [Ufifo.read, holds.emptyN]

/-- Whether the word that is read is the only one. -/
theorem last (holds : s.Holds rxfifo queue) (wide : 2 ≤ w) :
    (s.rNext == s.wrAddr) = decide (queue.length = 1) := by
  have big : 2 ^ 2 ≤ 2 ^ w := Nat.pow_le_pow_right (by decide) wide
  have fits := holds.fits
  have one : s.rdAddr + 1 = Circular.place s.rdAddr 1 := rfl
  rw [holds.next, holds.wrAddr, one, Bool.eq_iff_iff, beq_iff_eq, decide_eq_true_iff,
    Circular.place_inj s.rdAddr (by omega) fits, eq_comm]

/-- What there is after a clock. -/
def after (s : Ufifo w bw) (i : Inputs bw) (queue : List (BitVec bw)) : List (BitVec bw) :=
  (if s.read i then queue.tail else queue) ++ s.accepted i

theorem length_after (holds : s.Holds rxfifo queue) :
    (after s i queue).length + (s.read i).toNat = queue.length + (s.write i).toNat := by
  have readable := holds.read (i := i)
  rw [after, accepted]
  cases queue with
  | nil => cases s.write i <;> simp_all
  | cons a rest => cases s.write i <;> cases s.read i <;> simp

theorem wrAddr_after (holds : s.Holds rxfifo queue) :
    (s.clock rxfifo false i).wrAddr = Circular.place (s.clock rxfifo false i).rdAddr (after s i queue).length := by
  have length := holds.length_after (i := i)
  have next : (s.clock rxfifo false i).wrAddr = Circular.place s.rdAddr (queue.length + (s.write i).toNat) := by
    cases write : s.write i <;> simp [clock, write, holds.wrAddr]
  rw [next, ← length]
  cases read : s.read i <;> simp [clock, read, Circular.place_succ]

theorem stored_after (holds : s.Holds rxfifo queue) :
    Circular (s.clock rxfifo false i).fifo (s.clock rxfifo false i).rdAddr (after s i queue) := by
  have pushed : Circular (s.clock rxfifo false i).fifo s.rdAddr (queue ++ s.accepted i) := by
    cases write : s.write i with
    | false => simpa [clock, accepted, write] using holds.stored
    | true => simpa [clock, accepted, write, holds.wrAddr] using holds.stored.push i.data holds.fits
  have readable := holds.read (i := i)
  cases read : s.read i with
  | false => simpa [clock, after, read] using pushed
  | true =>
    cases queue with
    | nil => simp [read] at readable
    | cons a rest => simpa [clock, after, read] using pushed.2

variable (wide : 2 ≤ w)
include wide

theorem big : 4 ≤ 2 ^ w := Nat.pow_le_pow_right (n := 2) (by decide) wide

theorem overflow_after (holds : s.Holds rxfifo queue) :
    (s.clock rxfifo false i).willOverflow = decide ((after s i queue).length + 1 = 2 ^ w) := by
  have big := big wide
  have fits := holds.fits
  have length := holds.length_after (i := i)
  have readable := holds.read (i := i)
  have writable := holds.write (i := i)
  have behind (m : Nat) (positive : 0 < m) (most : queue.length + m ≤ 2 ^ w) :
      (s.wrAddr + BitVec.ofNat w m == s.rdAddr) = decide (queue.length + m = 2 ^ w) := by
    rw [holds.wrAddr, Circular.place_add, Bool.eq_iff_iff, beq_iff_eq, decide_eq_true_iff]
    exact Circular.place_eq_self s.rdAddr (by omega) most
  cases rd : i.rd with
  | true =>
    -- a word is read, unless there is none
    have next : (s.clock rxfifo false i).willOverflow = (s.willOverflow && i.wr) := by simp [clock, rd]
    rw [next, holds.overflow]
    rw [rd, Bool.true_and] at readable
    rw [rd, Bool.or_true, Bool.and_true] at writable
    rw [readable, writable] at length
    cases queue with
    | nil =>
      have few : (after s i []).length ≤ 1 := by
        simp only [List.isEmpty_nil, Bool.not_true, Bool.toNat_false, List.length_nil] at length
        have bit := Bool.toNat_le i.wr
        omega
      have none : ¬ ([] : List (BitVec bw)).length + 1 = 2 ^ w := by simp; omega
      rw [decide_eq_false none, Bool.false_and, decide_eq_false (by omega)]
    | cons a rest => cases wr : i.wr <;> simp [wr] at length fits ⊢ <;> omega
  | false =>
    rw [rd, Bool.false_and] at readable
    rw [rd, Bool.or_false] at writable
    cases write : s.write i with
    | true =>
      have room : ¬ queue.length + 1 = 2 ^ w := by
        intro full
        simp [write, full] at writable
      have next : (s.clock rxfifo false i).willOverflow = (s.willOverflow || s.wrAddr + BitVec.ofNat w 2 == s.rdAddr) := by
        simp [clock, rd, write]
      rw [next, holds.overflow, behind 2 (by decide) (by omega), decide_eq_false room, Bool.false_or]
      rw [readable, write] at length
      simp at length
      rw [length]
    | false =>
      have next : (s.clock rxfifo false i).willOverflow =
          if s.wrAddr + BitVec.ofNat w 1 == s.rdAddr then true else s.willOverflow := by
        simp [clock, rd, write]
      rw [next, behind 1 (by decide) (by omega), holds.overflow]
      rw [readable, write] at length
      simp at length
      rw [length]
      cases decide (queue.length + 1 = 2 ^ w) <;> rfl

theorem underflow_after (holds : s.Holds rxfifo queue) :
    (s.clock rxfifo false i).willUnderflow = (after s i queue).isEmpty := by
  have big := big wide
  have readable := holds.read (i := i)
  have writable := holds.write (i := i)
  have last := holds.last wide
  cases queue with
  | nil =>
    have none : s.read i = false := by simpa using readable
    cases wr : i.wr with
    | true =>
      have write : s.write i = true := by
        have room : ¬ 1 = 2 ^ w := by omega
        simp [writable, wr, room]
      simp [clock, after, accepted, wr, none, write]
    | false => simp [clock, after, accepted, wr, none, Ufifo.write, holds.underflow]
  | cons a rest =>
    cases wr : i.wr with
    | true =>
      have some : (after s i (a :: rest)).isEmpty = false := by
        cases write : s.write i with
        | true => simp [after, accepted, write]
        | false =>
          -- refused, so nothing is read
          have unread : s.read i = false := by
            cases rd : i.rd <;> simp_all
          simp [after, unread]
      rw [some]
      simp [clock, wr]
    | false =>
      have unwritten : s.write i = false := by simp [writable, wr]
      cases read : s.read i with
      | true => cases rest <;> simp [clock, after, accepted, wr, read, unwritten, holds.underflow, last]
      | false => simp [clock, after, wr, read, holds.underflow]

theorem front_after (holds : s.Holds rxfifo queue) :
    ∀ a ∈ (after s i queue).head?, (s.clock rxfifo false i).data = a := by
  have big := big wide
  have fits := holds.fits
  have readable := holds.read (i := i)
  have writable := holds.write (i := i)
  have last := holds.last wide
  have some := holds.emptyN
  intro a front
  cases read : s.read i with
  | false =>
    cases queue with
    | nil =>
      -- the word goes to `last_write`
      cases write : s.write i with
      | false => simp [after, accepted, read, write] at front
      | true =>
        have wr : i.wr = true := by
          rw [write] at writable
          exact (Bool.and_eq_true_iff.mp writable.symm).1
        have bypasses : s.bypasses i = true := by simp [bypasses, wr, some]
        simp [after, accepted, read, write] at front
        simp [data, clock, bypasses, front]
    | cons b rest =>
      have unread : i.rd = false := by simpa [read] using readable.symm
      have stays : s.bypasses i = false := by simp [bypasses, some, read]
      have same : (s.clock rxfifo false i).data = s.data := by simp [data, clock, stays, unread, read]
      simp [after, read] at front
      rw [same, holds.front b rfl, front]
  | true =>
    cases queue with
    | nil => simp [read] at readable
    | cons b rest =>
      cases rest with
      | nil =>
        cases write : s.write i with
        | false => simp [after, accepted, read, write] at front
        | true =>
          have wr : i.wr = true := by
            rw [write] at writable
            exact (Bool.and_eq_true_iff.mp writable.symm).1
          have bypasses : s.bypasses i = true := by simp [bypasses, wr, read, last]
          simp [after, accepted, read, write] at front
          simp [data, clock, bypasses, front]
      | cons c rest =>
        -- the next word has been in the memory for a clock at least
        have stays : s.bypasses i = false := by simp [bypasses, some, last]
        have rd : i.rd = true := by
          rw [read] at readable
          exact (Bool.and_eq_true_iff.mp readable.symm).1
        have fetched : s.fifo s.rNext = c := by
          rw [holds.next]
          exact holds.stored.2.1
        simp [after, read] at front
        simp [data, clock, stays, rd, read, fetched, front]

theorem fits_after (holds : s.Holds rxfifo queue) : (after s i queue).length < 2 ^ w := by
  have big := big wide
  have fits := holds.fits
  have length := holds.length_after (i := i)
  have readable := holds.read (i := i)
  have writable := holds.write (i := i)
  cases write : s.write i with
  | false =>
    rw [write, Bool.toNat_false] at length
    omega
  | true =>
    rw [write, Bool.toNat_true] at length
    by_cases full : queue.length + 1 = 2 ^ w
    · -- a word is read to make room
      have rd : i.rd = true := by
        rw [write, decide_eq_true full, Bool.not_true, Bool.false_or] at writable
        exact (Bool.and_eq_true_iff.mp writable.symm).2
      have some : queue.isEmpty = false := by
        cases queue with
        | nil => simp at full; omega
        | cons a rest => rfl
      rw [readable, rd, some] at length
      simp at length
      omega
    · omega

theorem fill_after (holds : s.Holds rxfifo queue) :
    (s.clock rxfifo false i).rFill =
      BitVec.ofNat w (if rxfifo then (after s i queue).length else 2 ^ w - 1 - (after s i queue).length) := by
  have length := holds.length_after (i := i)
  have fits := holds.fits
  have fits' := @fits_after _ _ _ s i queue wide holds
  have fill := holds.fill
  have up (n : Nat) : BitVec.ofNat w n + 1#(w) = BitVec.ofNat w (n + 1) := (BitVec.ofNat_add n 1).symm
  have down (n : Nat) : BitVec.ofNat w (n + 1) - 1#(w) = BitVec.ofNat w n := by rw [← up, BitVec.add_sub_cancel]
  cases read : s.read i <;> cases write : s.write i <;> simp only [read, write, Bool.toNat_true, Bool.toNat_false] at length
  · cases rxfifo <;> simp_all [clock]
  · cases rxfifo with
    | true => simpa [clock, read, write, fill, up] using congrArg (BitVec.ofNat w) length.symm
    | false =>
      have less : 2 ^ w - 1 - queue.length = 2 ^ w - 1 - (after s i queue).length + 1 := by omega
      simp [clock, read, write, fill, less, down]
  · cases rxfifo with
    | true =>
      rw [Nat.add_zero] at length
      have before : s.rFill = BitVec.ofNat w ((after s i queue).length + 1) := by rw [length]; exact fill
      simp [clock, read, write, before, down]
    | false =>
      have more : 2 ^ w - 1 - (after s i queue).length = 2 ^ w - 1 - queue.length + 1 := by omega
      simp [clock, read, write, fill, more, up]
  · have same : (after s i queue).length = queue.length := by omega
    cases rxfifo <;> simp [clock, read, write, fill, same]

/-- One clock: what is read is at the front, and what is accepted goes to the end. -/
theorem step (holds : s.Holds rxfifo queue) :
    ∃ later, (s.clock rxfifo false i).Holds rxfifo later ∧ s.delivered i ++ later = queue ++ s.accepted i := by
  refine ⟨after s i queue, ⟨wrAddr_after holds, ?_, fits_after wide holds, overflow_after wide holds,
    underflow_after wide holds, stored_after holds, front_after wide holds, fill_after wide holds⟩, ?_⟩
  · cases read : s.read i with
    | false => simp [clock, read, holds.next]
    | true =>
      have two : BitVec.ofNat w 2 = BitVec.ofNat w 1 + BitVec.ofNat w 1 := BitVec.ofNat_add 1 1
      simp [clock, read, two, BitVec.add_assoc]
  · have readable := holds.read (i := i)
    cases read : s.read i with
    | false => simp [delivered, after, read]
    | true =>
      cases queue with
      | nil => simp [read] at readable
      | cons a rest => simp [delivered, after, read, holds.front a rfl]

end Holds

theorem holds_reset (rxfifo : Bool) (wide : 2 ≤ w) (s : Ufifo w bw) (i : Inputs bw) :
    (s.clock rxfifo true i).Holds rxfifo [] := by
  have big := Holds.big wide
  refine ⟨?_, ?_, ?_, ?_, rfl, trivial, fun a none => by simp at none, ?_⟩
  · simp [clock]
  · simp [clock]
  · simp only [List.length_nil]
    omega
  · have room : ¬ 0 + 1 = 2 ^ w := by omega
    simp [clock, room]
  · cases rxfifo with
    | true => rfl
    | false =>
      apply BitVec.eq_of_toNat_eq
      simp [clock]

/-- The fill field of the status. -/
theorem Holds.status_fill (holds : s.Holds rxfifo queue) :
    ((s.status rxfifo).extractLsb' 2 10).toNat =
      (if rxfifo then queue.length else 2 ^ w - 1 - queue.length) % 2 ^ 10 := by
  have fits := holds.fits
  have field : (s.status rxfifo).extractLsb' 2 10 = s.rFill.setWidth 10 := Fields.second_of_three _ _ _
  have bound : (if rxfifo then queue.length else 2 ^ w - 1 - queue.length) < 2 ^ w := by split_ifs <;> omega
  rw [field, holds.fill, BitVec.toNat_setWidth, BitVec.toNat_ofNat, Nat.mod_eq_of_lt bound]

/-- In every run after a reset, with any writes and reads: what is read is what was written, in order, up to the words that
are still held; a write is refused, with `o_err`, if they fill the memory and none is read; and the status
counts them, or what is free, as far as ten bits go. -/
theorem ufifo_order (rxfifo : Bool) (wide : 2 ≤ w) (s : Ufifo w bw) (j : Inputs bw) (is : List (Inputs bw)) :
    let x := s.clock rxfifo true j
    let step := fun (x : Ufifo w bw) i => x.clock rxfifo false i
    let y := Clocked.run step x is
    ∃ held : List (BitVec bw),
      Clocked.emitted step accepted x is = Clocked.emitted step delivered x is ++ held ∧
      y.emptyN = !held.isEmpty ∧
      (∀ a ∈ held.head?, y.data = a) ∧
      (∀ i, y.err i = (i.wr && !y.write i) ∧ y.err i = (i.wr && !i.rd && decide (held.length = 2 ^ w - 1))) ∧
      ((y.status rxfifo).extractLsb' 2 10).toNat =
        (if rxfifo then held.length else 2 ^ w - 1 - held.length) % 2 ^ 10 := by
  intro x step y
  obtain ⟨held, holds, law⟩ := @Clocked.conservation_rel _ _ _ step (fun _ _ => True) delivered accepted
    (Holds rxfifo) (fun _ _ _ holds _ => holds.step wide) x is [] (holds_reset rxfifo wide s j)
    (Clocked.always_of_forall (fun _ _ => trivial) x is)
  have big := Holds.big wide
  refine ⟨held, by rw [law, List.nil_append], holds.emptyN, holds.front, fun i => ⟨rfl, ?_⟩, holds.status_fill⟩
  have full : decide (held.length + 1 = 2 ^ w) = decide (held.length = 2 ^ w - 1) := by
    rw [decide_eq_decide]
    omega
  rw [err, holds.write, full]
  cases i.wr <;> cases i.rd <;> simp

/-- The registers before a reset. -/
def blank (w bw : Nat) : Ufifo w bw := ⟨fun _ => 0, 0, 0, 0, 0, 0, false, false, false, 0⟩

/-- Four words into a FIFO for three, of which the last finds room because another one is read, one more that does
not, and two reads. -/
def crowded : List (Inputs 8) :=
  [⟨true, 1, true⟩, ⟨true, 2, false⟩, ⟨true, 3, false⟩, ⟨true, 4, true⟩, ⟨true, 5, false⟩, ⟨false, 0, true⟩,
    ⟨false, 0, true⟩]

theorem ufifo_order_crowded :
    let x := (blank 2 8).clock true true ⟨false, 0, false⟩
    let step := fun (x : Ufifo 2 8) i => x.clock true false i
    Clocked.emitted step delivered x crowded ++ [4] = Clocked.emitted step accepted x crowded ∧
      (Clocked.run step x crowded).data = 4 := by
  intro x step
  obtain ⟨held, law, -, front, -⟩ := ufifo_order true (by decide) (blank 2 8) ⟨false, 0, false⟩ crowded
  have read : Clocked.emitted step delivered x crowded = [1, 2, 3] := by decide +kernel
  have written : Clocked.emitted step accepted x crowded = [1, 2, 3] ++ [4] := by decide +kernel
  have last : held = [4] := by
    rw [read, written] at law
    exact (List.append_cancel_left law).symm
  exact ⟨by rw [read, written], front 4 (by rw [last]; rfl)⟩

/-- Words are written while there is room. -/
theorem Holds.writes (wide : 2 ≤ w) (d : BitVec bw) (n : Nat) (holds : s.Holds rxfifo queue)
    (room : queue.length + n < 2 ^ w) :
    let step := fun (x : Ufifo w bw) i => x.clock rxfifo false i
    let is := List.replicate n ⟨true, d, false⟩
    (Clocked.run step s is).Holds rxfifo (queue ++ List.replicate n d) ∧
      Clocked.emitted step accepted s is = List.replicate n d ∧ Clocked.emitted step delivered s is = [] := by
  induction n generalizing s queue with
  | zero => simpa using holds
  | succ n ih =>
    have free : ¬ queue.length + 1 = 2 ^ w := by omega
    have write : s.write ⟨true, d, false⟩ = true := by rw [holds.write]; simp [free]
    have read : s.read ⟨true, d, false⟩ = false := by rw [holds.read]; rfl
    obtain ⟨later, next, law⟩ := holds.step wide (i := ⟨true, d, false⟩)
    have longer : later = queue ++ [d] := by simpa [delivered, accepted, read, write] using law
    rw [longer] at next
    obtain ⟨last, all, none⟩ := ih next (by simp; omega)
    intro step is
    refine ⟨?_, ?_, ?_⟩
    · simpa [step, is, List.replicate_succ] using last
    · simpa [step, is, List.replicate_succ, accepted, write] using all
    · simpa [step, is, List.replicate_succ, delivered, read] using none

/-- With 2048 words of memory the fill field is 0 again after 1024 writes. -/
theorem status_wraps :
    let x := (blank 11 8).clock true true ⟨false, 0, false⟩
    let step := fun (x : Ufifo 11 8) i => x.clock true false i
    let is := List.replicate 1024 ⟨true, 0, false⟩
    (Clocked.emitted step accepted x is).length = 1024 ∧ Clocked.emitted step delivered x is = [] ∧
      ((Clocked.run step x is).status true).extractLsb' 2 10 = 0 := by
  intro x step is
  have start : x.Holds true [] := holds_reset true (by decide) _ _
  obtain ⟨holds, all, none⟩ := start.writes (by decide) 0 1024 (by decide)
  refine ⟨by rw [all, List.length_replicate], none, ?_⟩
  apply BitVec.eq_of_toNat_eq
  rw [holds.status_fill, List.nil_append, List.length_replicate]
  rfl

end Ufifo

end IcoZip.Fifo
