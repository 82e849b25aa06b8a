import IcoZip.Library.Block
import Mathlib.Data.BitVec

/-! The host side of the parallel port: `MUXDCOMMS::read` and `MUXDCOMMS::write`.

A write clocks one byte out of the port for each byte it sends and keeps those
that are not idle in a buffer, from which reads are served first. The buffer is
an allocated block, the counters are 32-bit words, and an access outside of the
block or a growth loop that never ends is a failure.
-/

set_option autoImplicit false

namespace IcoZip.Port

/-! ### The port -/

/-- The bytes that the FPGA presents, clock after clock, and what has been sent to it. -/
structure Pins where
  stream : Nat → BitVec 8
  clocked : Nat
  sent : List (BitVec 8)

/-- One byte to the FPGA. -/
def Pins.send (p : Pins) (datab : BitVec 8) : Pins := { p with sent := p.sent ++ [datab] }

/-- One byte from the FPGA. -/
def Pins.sample (p : Pins) : Pins × BitVec 8 := ({ p with clocked := p.clocked + 1 }, p.stream p.clocked)

/-- The byte that means nothing is available. -/
def idleByte : BitVec 8 := 0xff

/-- The bytes among `n` clocks that are not idle. -/
def heard (stream : Nat → BitVec 8) (start n : Nat) : List (BitVec 8) :=
  ((List.range' start n).map stream).filter (· != idleByte)

/-- `pp_xfer`: `data` out, what comes back to `rdbuf`, which is the buffer behind `pos`. -/
def ppXfer (pos : Nat) : List (BitVec 8) → Pins → Block (BitVec 8) → Nat →
    Option (Pins × Block (BitVec 8) × Nat)
  | [], p, rdbuf, nr => some (p, rdbuf, nr)
  | datab :: data, p, rdbuf, nr =>
    let (p, datab) := (p.send datab).sample
    if datab != idleByte then do
      let rdbuf ← rdbuf.store (pos + nr) datab
      ppXfer pos data p rdbuf (nr + 1)
    else ppXfer pos data p rdbuf nr

/-- `pp_read`: at most `nbytes`, up to the first idle byte. -/
def ppRead : Nat → Pins → Pins × List (BitVec 8)
  | 0, p => (p, [])
  | nbytes + 1, p =>
    let (p, datab) := p.sample
    if datab == idleByte then (p, [])
    else
      let (p, data) := ppRead nbytes p
      (p, datab :: data)

/-! ### The class -/

/-- The members of `MUXDCOMMS`. -/
structure Muxdcomms where
  rdBuf : Block (BitVec 8)
  rdPos : Nat
  rdFill : Nat
  rdSize : Nat
  pins : Pins

/-- Subtraction of `unsigned` values. -/
def sub32 (a b : Nat) : Nat := (a + (2 ^ 32 - b)) % 2 ^ 32

/-- The loop `while(newsz < need) newsz <<= 1`. After 33 doublings the word is zero for good. -/
def grow (need : Nat) : Nat → Nat → Option Nat
  | 0, _ => none
  | fuel + 1, newsz => if newsz < need then grow need fuel ((newsz <<< 1) % 2 ^ 32) else some newsz

namespace Muxdcomms

/-- The constructor; `junk` is what new memory holds. -/
def new (stream junk : Nat → BitVec 8) : Muxdcomms where
  rdBuf := ⟨8192, junk⟩
  rdPos := 0
  rdFill := 0
  rdSize := 8192
  pins := ⟨stream, 0, []⟩

/-- The first half of `read`. -/
def takeBuffered (s : Muxdcomms) (nreq : Nat) : Option (Muxdcomms × List (BitVec 8)) :=
  if s.rdFill > 0 then do
    let ln := if nreq > s.rdFill then s.rdFill else nreq
    let buf ← s.rdBuf.load s.rdPos ln
    let rdFill := s.rdFill - ln
    some ({ s with rdPos := if rdFill = 0 then 0 else (s.rdPos + ln) % 2 ^ 32, rdFill }, buf)
  else some (s, [])

def read (s : Muxdcomms) (nreq : Nat) : Option (Muxdcomms × List (BitVec 8)) := do
  let (s, buf) ← s.takeBuffered nreq
  if buf.length < nreq then
    let (pins, more) := ppRead (nreq - buf.length) s.pins
    some ({ s with pins }, buf ++ more)
  else some (s, buf)

/-- The `memmove` to the front of the buffer. -/
def compact (s : Muxdcomms) : Option Muxdcomms :=
  if s.rdPos > 0 then do
    let kept ← s.rdBuf.load s.rdPos s.rdFill
    let rdBuf ← s.rdBuf.fill 0 kept
    some { s with rdBuf, rdPos := 0 }
  else some s

/-- A new buffer; `m_rd_size` is not updated. -/
def enlarge (s : Muxdcomms) (nreq : Nat) (junk : Nat → BitVec 8) : Option Muxdcomms :=
  if nreq > sub32 s.rdSize s.rdFill then do
    let newsz ← grow ((s.rdFill + nreq) % 2 ^ 32) 33 s.rdSize
    let kept ← s.rdBuf.load 0 s.rdFill
    let alt ← (Block.mk newsz junk).fill 0 kept
    some { s with rdBuf := alt }
  else some s

/-- The first half of `write`. -/
def makeRoom (s : Muxdcomms) (nreq : Nat) (junk : Nat → BitVec 8) : Option Muxdcomms :=
  if nreq > sub32 (sub32 s.rdSize s.rdFill) s.rdPos then do
    let s ← s.compact
    s.enlarge nreq junk
  else some s

/-- `write`; `junk` is what new memory holds. -/
def write (s : Muxdcomms) (data : List (BitVec 8)) (junk : Nat → BitVec 8) : Option Muxdcomms := do
  let s ← s.makeRoom data.length junk
  -- the captured bytes go to m_rd_pos, not behind the m_rd_fill bytes that are there
  let (pins, rdBuf, nr) ← ppXfer s.rdPos data s.pins s.rdBuf 0
  some { s with pins, rdBuf, rdFill := (s.rdFill + nr) % 2 ^ 32 }

end Muxdcomms

/-! ### Bytes heard -/

@[simp] theorem heard_zero (stream : Nat → BitVec 8) (start : Nat) : heard stream start 0 = [] := rfl

theorem heard_succ (stream : Nat → BitVec 8) (start n : Nat) :
    heard stream start (n + 1) =
      (if stream start != idleByte then [stream start] else []) ++ heard stream (start + 1) n := by
  rw [heard, List.range'_succ, List.map_cons, List.filter_cons]
  split <;> rfl

theorem length_heard_le (stream : Nat → BitVec 8) (start n : Nat) : (heard stream start n).length ≤ n := by
  calc (heard stream start n).length
      ≤ ((List.range' start n).map stream).length := List.length_filter_le _ _
    _ = n := by simp

theorem heard_append (stream : Nat → BitVec 8) (start m n : Nat) :
    heard stream start m ++ heard stream (start + m) n = heard stream start (m + n) := by
  rw [heard, heard, heard, ← List.filter_append, ← List.map_append, List.range'_append_1]

/-- A transfer keeps what is behind the position and appends what it hears. -/
theorem ppXfer_spec (pos : Nat) (data : List (BitVec 8)) (p : Pins) (b : Block (BitVec 8)) (nr : Nat)
    (room : pos + nr + data.length ≤ b.size) :
    ∃ b', ppXfer pos data p b nr =
        some (⟨p.stream, p.clocked + data.length, p.sent ++ data⟩, b',
          nr + (heard p.stream p.clocked data.length).length) ∧
      b'.size = b.size ∧
      b'.window pos (nr + (heard p.stream p.clocked data.length).length) =
        b.window pos nr ++ heard p.stream p.clocked data.length := by
  induction data generalizing p b nr with
  | nil => exact ⟨b, by simp [ppXfer], rfl, by simp⟩
  | cons datab data ih =>
    simp only [List.length_cons] at room
    have clocks : p.clocked + (data.length + 1) = p.clocked + 1 + data.length := by omega
    by_cases kept : (p.stream p.clocked != idleByte) = true
    · obtain ⟨b₁, stored, size₁, window₁⟩ :=
        Block.store_window b (show pos + nr < b.size by omega) (p.stream p.clocked)
      obtain ⟨b₂, done, size₂, window₂⟩ := ih ((p.send datab).sample).1 b₁ (nr + 1) (by omega)
      simp only [Pins.send, Pins.sample] at done window₂
      have head : heard p.stream p.clocked (data.length + 1) =
          p.stream p.clocked :: heard p.stream (p.clocked + 1) data.length := by simp [heard_succ, kept]
      have total : nr + (heard p.stream p.clocked (data.length + 1)).length =
          nr + 1 + (heard p.stream (p.clocked + 1) data.length).length := by
        rw [head, List.length_cons]
        omega
      refine ⟨b₂, ?_, size₂.trans size₁, ?_⟩
      · rw [List.length_cons, total, clocks]
        simp [ppXfer, Pins.send, Pins.sample, kept, stored, done]
      · rw [List.length_cons, total, window₂, window₁, head]
        simp
    · obtain ⟨b₂, done, size₂, window₂⟩ := ih ((p.send datab).sample).1 b nr (by omega)
      simp only [Pins.send, Pins.sample] at done window₂
      refine ⟨b₂, ?_, size₂, ?_⟩
      · simp [ppXfer, Pins.send, Pins.sample, kept, heard_succ, done, clocks]
      · simp [heard_succ, kept, window₂]

/-- Without a byte to keep, the buffer is not touched, whatever its size. -/
theorem ppXfer_silent (pos : Nat) (data : List (BitVec 8)) (p : Pins) (b : Block (BitVec 8)) (nr : Nat)
    (silent : heard p.stream p.clocked data.length = []) :
    ppXfer pos data p b nr = some (⟨p.stream, p.clocked + data.length, p.sent ++ data⟩, b, nr) := by
  induction data generalizing p with
  | nil => simp [ppXfer]
  | cons datab data ih =>
    have clocks : p.clocked + (data.length + 1) = p.clocked + 1 + data.length := by omega
    rw [List.length_cons, heard_succ, List.append_eq_nil_iff] at silent
    have idle : (p.stream p.clocked != idleByte) = false := by
      cases kept : p.stream p.clocked != idleByte with
      | false => rfl
      | true => simp [kept] at silent
    have rest := ih ((p.send datab).sample).1 silent.2
    simp only [Pins.send, Pins.sample] at rest
    simp [ppXfer, Pins.send, Pins.sample, idle, rest, clocks]

/-- A read takes what it hears, up to and including the first idle byte. -/
theorem ppRead_spec (nbytes : Nat) (p : Pins) :
    ∃ n, (ppRead nbytes p).1 = { p with clocked := p.clocked + n } ∧
      (ppRead nbytes p).2 = heard p.stream p.clocked n := by
  induction nbytes generalizing p with
  | zero => exact ⟨0, rfl, rfl⟩
  | succ nbytes ih =>
    by_cases kept : (p.stream p.clocked == idleByte) = true
    · refine ⟨1, ?_, ?_⟩
      · simp [ppRead, Pins.sample, kept]
      · simp [ppRead, Pins.sample, kept, heard_succ, bne]
    · obtain ⟨n, pins, data⟩ := ih p.sample.1
      simp only [Pins.sample] at pins data
      have clocks : p.clocked + 1 + n = p.clocked + (n + 1) := by omega
      refine ⟨n + 1, ?_, ?_⟩
      · simp [ppRead, Pins.sample, kept, pins, clocks]
      · simp [ppRead, Pins.sample, kept, data, heard_succ, bne]

/-! ### The growth loop -/

theorem grow_spec {need : Nat} (bound : need ≤ 2 ^ 31) {fuel k : Nat} (start : k ≤ 31)
    (enough : 31 - k < fuel) :
    ∃ m, k ≤ m ∧ m ≤ 31 ∧ grow need fuel (2 ^ k) = some (2 ^ m) ∧ need ≤ 2 ^ m := by
  induction fuel generalizing k with
  | zero => omega
  | succ fuel ih =>
    by_cases small : 2 ^ k < need
    · have less : k < 31 := (Nat.pow_lt_pow_iff_right (by decide)).mp (Nat.lt_of_lt_of_le small bound)
      have next : (2 ^ k <<< 1) % 2 ^ 32 = 2 ^ (k + 1) := by
        rw [Nat.shiftLeft_eq, ← Nat.pow_add]
        exact Nat.mod_eq_of_lt (Nat.pow_lt_pow_right (by decide) (by omega))
      obtain ⟨m, above, below, grown, reached⟩ := ih (show k + 1 ≤ 31 by omega) (by omega)
      exact ⟨m, by omega, below, by rw [grow, if_pos small, next, grown], reached⟩
    · exact ⟨k, Nat.le_refl k, start, by rw [grow, if_neg small], by omega⟩

theorem sub32_of_le {a b : Nat} (le : b ≤ a) (small : a < 2 ^ 32) : sub32 a b = a - b := by
  rw [sub32, show a + (2 ^ 32 - b) = a - b + 2 ^ 32 by omega, Nat.add_mod_right]
  exact Nat.mod_eq_of_lt (by omega)

namespace Muxdcomms

/-! ### The queue in the buffer -/

/-- The bytes that have not been read. -/
def unread (s : Muxdcomms) : List (BitVec 8) := s.rdBuf.window s.rdPos s.rdFill

structure Sound (s : Muxdcomms) : Prop where
  size : s.rdSize = 2 ^ 13
  allocated : 2 ^ 13 ≤ s.rdBuf.size ∧ s.rdBuf.size ≤ 2 ^ 31
  inside : s.rdPos + s.rdFill ≤ s.rdBuf.size
  empty : s.rdFill = 0 → s.rdPos = 0

theorem new_sound (stream junk : Nat → BitVec 8) : (new stream junk).Sound :=
  ⟨rfl, by simp [new], by simp [new], fun _ => rfl⟩

/-- The write allocates a new buffer. -/
def Grows (s : Muxdcomms) (nreq : Nat) : Prop :=
  nreq > sub32 (sub32 s.rdSize s.rdFill) s.rdPos ∧ nreq > sub32 s.rdSize s.rdFill

theorem compact_spec {s : Muxdcomms} (sound : s.Sound) :
    ∃ s', s.compact = some s' ∧ s'.Sound ∧ s'.unread = s.unread ∧ s'.rdFill = s.rdFill ∧
      s'.rdPos = 0 ∧ s'.pins = s.pins := by
  by_cases behind : s.rdPos > 0
  · have kept := Block.load_eq sound.inside
    obtain ⟨b, filled, size, window⟩ := Block.fill_window s.rdBuf 0
      (s.rdBuf.window s.rdPos s.rdFill) (by have := sound.inside; simp; omega)
    rw [Block.length_window] at window
    refine ⟨{ s with rdBuf := b, rdPos := 0 }, ?_, ⟨sound.size, ?_, ?_, fun _ => rfl⟩, window, rfl, rfl, rfl⟩
    · simp [compact, behind, kept, filled]
    · simpa [size] using sound.allocated
    · have := sound.inside
      simp [size]
      omega
  · exact ⟨s, if_neg behind, sound, rfl, rfl, by omega, rfl⟩

theorem enlarge_spec {s : Muxdcomms} (sound : s.Sound) (front : s.rdPos = 0) (nreq : Nat)
    (junk : Nat → BitVec 8) (bound : nreq > sub32 s.rdSize s.rdFill → s.rdFill + nreq ≤ 2 ^ 31) :
    ∃ s', s.enlarge nreq junk = some s' ∧ s'.Sound ∧ s'.unread = s.unread ∧ s'.rdFill = s.rdFill ∧
      s'.rdPos = 0 ∧ s'.pins = s.pins ∧
      (nreq > sub32 s.rdSize s.rdFill → s.rdFill + nreq ≤ s'.rdBuf.size) := by
  by_cases grows : nreq > sub32 s.rdSize s.rdFill
  · have small := bound grows
    obtain ⟨m, above, below, grown, reached⟩ := grow_spec small (show 13 ≤ 31 by decide) (show 31 - 13 < 33 by decide)
    have need : (s.rdFill + nreq) % 2 ^ 32 = s.rdFill + nreq := Nat.mod_eq_of_lt (by omega)
    have inside : 0 + s.rdFill ≤ s.rdBuf.size := by
      have := sound.inside
      omega
    have kept := Block.load_eq inside
    obtain ⟨alt, filled, size, window⟩ := Block.fill_window ⟨2 ^ m, junk⟩ 0
      (s.rdBuf.window 0 s.rdFill) (by simp; omega)
    rw [Block.length_window] at window
    refine ⟨{ s with rdBuf := alt }, ?_, ⟨sound.size, ?_, ?_, fun _ => front⟩, ?_, rfl, front, rfl, ?_⟩
    · rw [enlarge, if_pos grows]
      simp only [need, sound.size, grown, kept, filled, Option.bind_eq_bind, Option.bind_some]
    · simp only [size]
      exact ⟨Nat.pow_le_pow_right (by decide) above, Nat.pow_le_pow_right (by decide) below⟩
    · simp only [size, front]
      omega
    · simp only [unread, front, window]
    · intro _
      simpa only [size] using reached
  · exact ⟨s, if_neg grows, sound, rfl, rfl, front, rfl, fun grows' => absurd grows' grows⟩

/-- Making room keeps the queue, and finds room for everything if the queue is empty. -/
theorem makeRoom_spec {s : Muxdcomms} (sound : s.Sound) (nreq : Nat) (junk : Nat → BitVec 8)
    (bound : s.Grows nreq → s.rdFill + nreq ≤ 2 ^ 31) :
    ∃ s', s.makeRoom nreq junk = some s' ∧ s'.Sound ∧ s'.unread = s.unread ∧ s'.rdFill = s.rdFill ∧
      s'.pins = s.pins ∧ (s.rdFill = 0 → s'.rdPos = 0 ∧ nreq ≤ s'.rdBuf.size) := by
  have allocated := sound.allocated
  by_cases tight : nreq > sub32 (sub32 s.rdSize s.rdFill) s.rdPos
  · obtain ⟨s₁, compacted, sound₁, unread₁, fill₁, pos₁, pins₁⟩ := compact_spec sound
    have size₁ : s₁.rdSize = s.rdSize := by rw [sound₁.size, sound.size]
    obtain ⟨s₂, enlarged, sound₂, unread₂, fill₂, pos₂, pins₂, room₂⟩ :=
      enlarge_spec sound₁ pos₁ nreq junk fun grows => by
        rw [size₁, fill₁] at grows
        rw [fill₁]
        exact bound ⟨tight, grows⟩
    refine ⟨s₂, ?_, sound₂, unread₂.trans unread₁, fill₂.trans fill₁, pins₂.trans pins₁, fun empty => ⟨pos₂, ?_⟩⟩
    · rw [makeRoom, if_pos tight]
      simp only [compacted, Option.bind_eq_bind, Option.bind_some, enlarged]
    · have room := room₂
      rw [size₁, fill₁, empty, sound.size, sub32_of_le (Nat.zero_le _) (by decide)] at room
      have := sound₂.allocated
      omega
  · refine ⟨s, if_neg tight, sound, rfl, rfl, rfl, fun empty => ⟨sound.empty empty, ?_⟩⟩
    rw [empty, sound.empty empty, sound.size, sub32_of_le (Nat.zero_le _) (by decide),
      sub32_of_le (Nat.zero_le _) (by decide)] at tight
    omega

/-! ### One call -/

theorem write_spec {s : Muxdcomms} (sound : s.Sound) (data : List (BitVec 8)) (junk : Nat → BitVec 8)
    (harmless : s.rdFill = 0 ∨ heard s.pins.stream s.pins.clocked data.length = [])
    (bound : s.Grows data.length → s.rdFill + data.length ≤ 2 ^ 31) :
    ∃ s', s.write data junk = some s' ∧ s'.Sound ∧
      s'.pins = ⟨s.pins.stream, s.pins.clocked + data.length, s.pins.sent ++ data⟩ ∧
      s'.unread = s.unread ++ heard s.pins.stream s.pins.clocked data.length := by
  obtain ⟨s₁, made, sound₁, unread₁, fill₁, pins₁, room₁⟩ := makeRoom_spec sound data.length junk bound
  have allocated := sound₁.allocated
  have inside := sound₁.inside
  rcases harmless with empty | silent
  · obtain ⟨pos₁, fits⟩ := room₁ empty
    obtain ⟨b, sent, size, window⟩ := ppXfer_spec s₁.rdPos data s.pins s₁.rdBuf 0 (by omega)
    have few := length_heard_le s.pins.stream s.pins.clocked data.length
    rw [Nat.zero_add, Block.window_zero, List.nil_append] at window
    refine ⟨{ s₁ with
        pins := ⟨s.pins.stream, s.pins.clocked + data.length, s.pins.sent ++ data⟩
        rdBuf := b
        rdFill := (heard s.pins.stream s.pins.clocked data.length).length },
      ?_, ⟨?_, ?_, ?_, ?_⟩, rfl, ?_⟩
    · have total : (s₁.rdFill + (heard s.pins.stream s.pins.clocked data.length).length) % 2 ^ 32 =
          (heard s.pins.stream s.pins.clocked data.length).length := by
        rw [fill₁, empty, Nat.zero_add]
        exact Nat.mod_eq_of_lt (by omega)
      simp only [write, made, Option.bind_eq_bind, Option.bind_some, pins₁, sent, Nat.zero_add, total]
    · exact sound₁.size
    · simpa only [size] using allocated
    · simp only [size]
      omega
    · exact fun _ => pos₁
    · have before : s.unread = [] := by rw [unread, empty, Block.window_zero]
      rw [before, List.nil_append]
      exact window
  · have sent := ppXfer_silent s₁.rdPos data s.pins s₁.rdBuf 0 silent
    refine ⟨{ s₁ with pins := ⟨s.pins.stream, s.pins.clocked + data.length, s.pins.sent ++ data⟩ }, ?_,
      ⟨sound₁.size, allocated, inside, sound₁.empty⟩, rfl, ?_⟩
    · have total : s₁.rdFill % 2 ^ 32 = s₁.rdFill := Nat.mod_eq_of_lt (by omega)
      simp only [write, made, Option.bind_eq_bind, Option.bind_some, pins₁, sent, Nat.add_zero, total]
    · rw [silent, List.append_nil, ← unread₁]
      rfl

/-- The buffer is served from its front, and is empty when it had too little. -/
theorem takeBuffered_spec {s : Muxdcomms} (sound : s.Sound) (nreq : Nat) :
    ∃ s' buf, s.takeBuffered nreq = some (s', buf) ∧ s'.Sound ∧ s'.pins = s.pins ∧
      buf ++ s'.unread = s.unread ∧ (buf.length < nreq → s'.unread = []) := by
  have allocated := sound.allocated
  have inside := sound.inside
  by_cases filled : s.rdFill > 0
  · obtain ⟨ln, length⟩ : ∃ ln, ln = if nreq > s.rdFill then s.rdFill else nreq := ⟨_, rfl⟩
    have few : ln ≤ s.rdFill := by
      rw [length]
      split <;> omega
    have loaded := Block.load_eq (show s.rdPos + ln ≤ s.rdBuf.size by omega)
    have wrap : (s.rdPos + ln) % 2 ^ 32 = s.rdPos + ln := Nat.mod_eq_of_lt (by omega)
    have all : s.unread = s.rdBuf.window s.rdPos ln ++ s.rdBuf.window (s.rdPos + ln) (s.rdFill - ln) := by
      rw [← Block.window_append, Nat.add_sub_cancel' few]
      rfl
    have taken : s.takeBuffered nreq =
        some ({ s with
          rdPos := if s.rdFill - ln = 0 then 0 else s.rdPos + ln
          rdFill := s.rdFill - ln }, s.rdBuf.window s.rdPos ln) := by
      rw [takeBuffered, if_pos filled]
      simp only [← length, loaded, wrap, Option.bind_eq_bind, Option.bind_some]
    refine ⟨_, _, taken, ⟨sound.size, allocated, ?_, ?_⟩, rfl, ?_, ?_⟩
    · simp only
      split <;> omega
    · exact fun empty => if_pos empty
    · rw [all, unread]
      by_cases last : s.rdFill - ln = 0
      · simp [last]
      · simp [last]
    · intro short
      rw [Block.length_window] at short
      have last : s.rdFill - ln = 0 := by
        by_cases more : nreq > s.rdFill
        · rw [length, if_pos more, Nat.sub_self]
        · rw [length, if_neg more] at short
          omega
      simp [unread, last]
  · have empty : s.rdFill = 0 := by omega
    exact ⟨s, [], if_neg filled, sound, rfl, rfl, fun _ => by rw [unread, empty, Block.window_zero]⟩

theorem read_spec {s : Muxdcomms} (sound : s.Sound) (nreq : Nat) :
    ∃ s' out n, s.read nreq = some (s', out) ∧ s'.Sound ∧
      s'.pins = { s.pins with clocked := s.pins.clocked + n } ∧
      out ++ s'.unread = s.unread ++ heard s.pins.stream s.pins.clocked n := by
  obtain ⟨s₁, buf, taken, sound₁, pins₁, law₁, drained⟩ := takeBuffered_spec sound nreq
  obtain ⟨n, pins, more⟩ := ppRead_spec (nreq - buf.length) s₁.pins
  by_cases short : buf.length < nreq
  · refine ⟨{ s₁ with pins := (ppRead (nreq - buf.length) s₁.pins).1 },
      buf ++ (ppRead (nreq - buf.length) s₁.pins).2, n, ?_,
      ⟨sound₁.size, sound₁.allocated, sound₁.inside, sound₁.empty⟩, ?_, ?_⟩
    · simp [read, taken, short]
    · exact pins.trans (by rw [pins₁])
    · have empty := drained short
      rw [← law₁, empty, List.append_nil, more, pins₁]
      simpa [unread] using empty
  · exact ⟨s₁, buf, 0, by simp [read, taken, short], sound₁, by simp [pins₁], by simpa using law₁⟩

/-! ### Runs -/

/-- A call with its arguments; `junk` is what a buffer allocated by it holds. -/
inductive Call where
  | write (data : List (BitVec 8)) (junk : Nat → BitVec 8)
  | read (nreq : Nat)

def call (s : Muxdcomms) : Call → Option (Muxdcomms × List (BitVec 8))
  | .write data junk => do
    let s ← s.write data junk
    some (s, [])
  | .read nreq => s.read nreq

/-- A sequence of calls, with everything that the reads return. -/
def calls (s : Muxdcomms) : List Call → Option (Muxdcomms × List (BitVec 8))
  | [] => some (s, [])
  | c :: cs => do
    let (s, out) ← s.call c
    let (s, rest) ← s.calls cs
    some (s, out ++ rest)

/-- A write finds the buffer empty or hears nothing but idle bytes, and a buffer that it has to
allocate is not beyond the reach of 32 bits. -/
def Harmless (s : Muxdcomms) : Call → Prop
  | .write data _ =>
    (s.rdFill = 0 ∨ heard s.pins.stream s.pins.clocked data.length = []) ∧
      (s.Grows data.length → s.rdFill + data.length ≤ 2 ^ 31)
  | .read _ => True

/-- Every call of the sequence is harmless in the state it finds. -/
def AllHarmless (s : Muxdcomms) : List Call → Prop
  | [] => True
  | c :: cs => s.Harmless c ∧ ∀ s' out, s.call c = some (s', out) → s'.AllHarmless cs

/-- A harmless call does not fail, and the queue gains what is heard and loses what is returned. -/
theorem call_spec {s : Muxdcomms} (sound : s.Sound) {c : Call} (harmless : s.Harmless c) :
    ∃ s' out n, s.call c = some (s', out) ∧ s'.Sound ∧ s'.pins.stream = s.pins.stream ∧
      s'.pins.clocked = s.pins.clocked + n ∧
      out ++ s'.unread = s.unread ++ heard s.pins.stream s.pins.clocked n := by
  cases c with
  | write data junk =>
    obtain ⟨s', written, sound', pins, law⟩ := write_spec sound data junk harmless.1 harmless.2
    exact ⟨s', [], data.length, by simp [call, written], sound', by simp [pins], by simp [pins], law⟩
  | read nreq =>
    obtain ⟨s', out, n, done, sound', pins, law⟩ := read_spec sound nreq
    exact ⟨s', out, n, done, sound', by simp [pins], by simp [pins], law⟩

theorem calls_spec {s : Muxdcomms} (sound : s.Sound) {cs : List Call} (harmless : s.AllHarmless cs) :
    ∃ s' out n, s.calls cs = some (s', out) ∧ s'.pins.stream = s.pins.stream ∧
      s'.pins.clocked = s.pins.clocked + n ∧
      out ++ s'.unread = s.unread ++ heard s.pins.stream s.pins.clocked n := by
  induction cs generalizing s with
  | nil => exact ⟨s, [], 0, rfl, rfl, rfl, by simp⟩
  | cons c cs ih =>
    obtain ⟨s₁, out₁, m, called, sound₁, stream₁, clocked₁, law₁⟩ := call_spec sound harmless.1
    obtain ⟨s₂, out₂, n, rest, stream₂, clocked₂, law₂⟩ := ih sound₁ (harmless.2 s₁ out₁ called)
    refine ⟨s₂, out₁ ++ out₂, m + n, by simp [calls, called, rest], stream₂.trans stream₁, by omega, ?_⟩
    rw [List.append_assoc, law₂, ← List.append_assoc, law₁, List.append_assoc, stream₁, clocked₁,
      heard_append]

/-- Along every sequence of harmless calls nothing fails, and what the reads return, with what is
still in the buffer, are the bytes that were clocked out of the port and are not idle. -/
theorem lossless (stream junk : Nat → BitVec 8) (cs : List Call)
    (harmless : (new stream junk).AllHarmless cs) :
    ∃ s out, (new stream junk).calls cs = some (s, out) ∧
      out ++ s.unread = ((List.range s.pins.clocked).map stream).filter (· != idleByte) := by
  obtain ⟨s, out, n, done, -, clocked, law⟩ := calls_spec (new_sound stream junk) harmless
  refine ⟨s, out, done, ?_⟩
  rw [law, clocked, List.range_eq_range']
  simp [new, unread, heard]

/-- A port that presents the numbers from one on, and is idle from the fourth byte on. -/
def counting (k : Nat) : BitVec 8 := if k < 3 then BitVec.ofNat 8 (k + 1) else idleByte

theorem lossless_write_read :
    ∃ s out, (new counting fun _ => 0).calls [.write [0, 0] fun _ => 0, .read 4] = some (s, out) ∧
      out ++ s.unread = ((List.range s.pins.clocked).map counting).filter (· != idleByte) := by
  refine lossless counting (fun _ => 0) _ ⟨⟨.inl rfl, ?_⟩, fun s out _ => ⟨trivial, fun _ _ _ => trivial⟩⟩
  intro _
  decide

/-- Two bytes are waiting when a third one is written: the byte it hears overwrites the first. -/
theorem write_overwrites :
    ((new counting fun _ => 0).calls [.write [0, 0] fun _ => 0, .write [0] fun _ => 0, .read 2]).map
      (fun final => (final.2, final.1.pins.clocked)) = some ([3, 2], 3) ∧
    ((List.range 3).map counting).filter (· != idleByte) = [1, 2, 3] := by
  decide

end Muxdcomms

end IcoZip.Port
