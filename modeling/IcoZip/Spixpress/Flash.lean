import IcoZip.Library.Bytes
import IcoZip.Spixpress.Controller

/-! A flash that is read through the controller.

After chip select falls the flash takes an 8-bit command and a 24-bit address;
for command 0x03 it then streams the bytes from that address upward.
-/

set_option autoImplicit false

namespace IcoZip.Spixpress

abbrev Memory := BitVec 24 → BitVec 8

namespace Memory

variable (mem : Memory)

/-- The word at an address of the bus, its first byte on top. -/
def word (a : BitVec 22) : BitVec 32 := Bytes.ofBytes fun j => mem (a ++ BitVec.ofNat 2 (3 - j))

/-- Bit `n` of the stream that begins with the byte at `first`. -/
def stream (first : BitVec 24) (n : Nat) : Bool := (mem (first + BitVec.ofNat 24 (n / 8))).getLsbD (7 - n % 8)

end Memory

/-- What the flash has seen since chip select fell. -/
structure Flash where
  clocks : Nat
  /-- The first 32 bits, command and address. -/
  taken : BitVec 32
  deriving DecidableEq, Repr

namespace Flash

variable (f : Flash)

/-- One clock of the controller; with `sck` the flash is clocked in it. -/
def step (csN sck mosi : Bool) : Flash :=
  if csN then ⟨0, 0⟩
  else if sck then
    { clocks := f.clocks + 1
      taken := if f.clocks < 32 then f.taken <<< (1 : Nat) ||| (BitVec.ofBool mosi).setWidth 32 else f.taken }
  else f

/-- The data pin; `float` where the flash does not drive it. -/
def miso (mem : Memory) (float : Bool) : Bool :=
  if 32 ≤ f.clocks ∧ f.taken.extractLsb' 24 8 = 0x03#8 then mem.stream (f.taken.extractLsb' 0 24) (f.clocks - 32)
  else float

end Flash

/-- What a read of a word sends. -/
def command (a : BitVec 22) : BitVec 32 := 0x03#8 ++ (a ++ 0#2)

theorem append_add (b : BitVec 22) (m : Nat) {q : Nat} (small : q < 4) :
    (b ++ 0#2) + BitVec.ofNat 24 (4 * m + q) = (b + BitVec.ofNat 22 m) ++ BitVec.ofNat 2 q := by
  apply BitVec.eq_of_toNat_eq
  have low : (BitVec.ofNat 2 q).toNat = q := by
    rw [BitVec.toNat_ofNat]
    exact Nat.mod_eq_of_lt small
  have join (c : BitVec 22) (d : BitVec 2) : (c ++ d).toNat = c.toNat * 4 + d.toNat := by
    rw [BitVec.toNat_append, ← Nat.shiftLeft_add_eq_or_of_lt d.isLt, Nat.shiftLeft_eq]
  simp only [BitVec.toNat_add, BitVec.toNat_ofNat, join, low]
  omega

/-- The stream behind a read that began `m` words before word `a` comes to bit `d - 1` of that word. -/
theorem stream_word (mem : Memory) (a : BitVec 22) (m : Nat) {d : Nat} (positive : 0 < d) (small : d ≤ 32) :
    mem.stream ((a - BitVec.ofNat 22 m) ++ 0#2) (32 * m + (32 - d)) = (mem.word a).getLsbD (d - 1) := by
  have byte : (32 * m + (32 - d)) / 8 = 4 * m + (32 - d) / 8 := by omega
  have place : 3 - (d - 1) / 8 = (32 - d) / 8 := by omega
  have bit : 7 - (32 * m + (32 - d)) % 8 = (d - 1) % 8 := by omega
  rw [Memory.stream, byte, bit, append_add _ _ (by omega), BitVec.sub_add_cancel, Memory.word,
    Bytes.getLsbD_ofBytes _ (by omega), place]

/-! ### A read as the flash sees it -/

/-- The command and the address are being sent; `d` counts the clocks down as `ack_delay` does. -/
structure Sends (f : Flash) (pipe : BitVec 33) (a : BitVec 22) (d : Nat) : Prop where
  clocks : f.clocks = 64 - d
  taken : f.taken = command a >>> (d - 32)
  pipe : pipe = (0#1 ++ command a) <<< (65 - d)

/-- The word at `a` is being streamed, and its bits above `d` have been shifted in. -/
structure Streams (mem : Memory) (f : Flash) (data : BitVec 32) (a : BitVec 22) (d : Nat) : Prop where
  started : ∃ m, f.clocks = 32 + (32 * m + (32 - d)) ∧ f.taken = command (a - BitVec.ofNat 22 m)
  shifted : ∀ j < 32 - d, data.getLsbD j = (mem.word a).getLsbD (d + j)

theorem command_parts (a : BitVec 22) :
    (command a).extractLsb' 24 8 = 0x03#8 ∧ (command a).extractLsb' 0 24 = a ++ 0#2 :=
  ⟨BitVec.extractLsb'_append_eq_left, BitVec.extractLsb'_append_eq_right⟩

/-- Shifting in the next bit of a word that is sent from the top. -/
theorem shift_in (c : BitVec 32) (n : Nat) :
    c >>> (n + 1) <<< (1 : Nat) ||| (BitVec.ofBool (c.getLsbD n)).setWidth 32 = c >>> n := by
  apply BitVec.eq_of_getLsbD_eq
  intro j small
  rcases j with - | j
  · simp
  · have up : n + 1 + j = n + (j + 1) := by omega
    simp [small, up]

namespace Sends

variable {f : Flash} {pipe : BitVec 33} {a : BitVec 22} {d : Nat}

theorem select (a : BitVec 22) : Sends ⟨0, 0⟩ (0#1 ++ command a) a 65 := by
  exact ⟨rfl, (BitVec.ushiftRight_eq_zero (by decide)).symm, by simp⟩

/-- The clock pin lags behind the controller. -/
theorem first (sends : Sends f pipe a 65) : Sends f (pipe <<< (1 : Nat)) a 64 := by
  refine ⟨sends.clocks, ?_, by rw [sends.pipe]; simp⟩
  rw [sends.taken, BitVec.ushiftRight_eq_zero (by decide), BitVec.ushiftRight_eq_zero (by decide)]

theorem mosi (sends : Sends f pipe a d) (late : 33 ≤ d) (early : d ≤ 64) :
    pipe.getLsbD 32 = (command a).getLsbD (d - 33) := by
  have place : 32 - (65 - d) = d - 33 := by omega
  have wide : ¬ 32 < 65 - d := by omega
  have below : d - 33 < 32 := by omega
  rw [sends.pipe, BitVec.getLsbD_shiftLeft, place, BitVec.getLsbD_append]
  simp [wide, below]

theorem clocked (sends : Sends f pipe a d) (late : 33 ≤ d) (early : d ≤ 64) :
    f.step false true (pipe.getLsbD 32) = ⟨65 - d, command a >>> (d - 33)⟩ := by
  have count : f.clocks + 1 = 65 - d := by
    rw [sends.clocks]
    omega
  have inside : f.clocks < 32 := by omega
  have next : d - 32 = d - 33 + 1 := by omega
  rw [sends.mosi late early, Flash.step, if_neg (by decide), if_pos rfl, count, if_pos inside, sends.taken, next,
    shift_in]

theorem step (sends : Sends f pipe a d) (late : 33 < d) (early : d ≤ 64) :
    Sends (f.step false true (pipe.getLsbD 32)) (pipe <<< (1 : Nat)) a (d - 1) := by
  rw [sends.clocked (by omega) early]
  refine ⟨by simp only; omega, ?_, ?_⟩
  · have same : d - 1 - 32 = d - 33 := by omega
    rw [same]
  · have more : 65 - (d - 1) = 65 - d + 1 := by omega
    rw [sends.pipe, more, BitVec.shiftLeft_add]

/-- Behind the last bit of the address the stream begins. -/
theorem last (mem : Memory) (sends : Sends f pipe a 33) (data : BitVec 32) :
    Streams mem (f.step false true (pipe.getLsbD 32)) data a 32 := by
  rw [sends.clocked (by decide) (by decide)]
  exact ⟨⟨0, by simp⟩, fun j small => absurd small (by omega)⟩

end Sends

namespace Streams

variable {mem : Memory} {f : Flash} {data : BitVec 32} {a : BitVec 22} {d : Nat}

theorem miso (streams : Streams mem f data a d) (positive : 0 < d) (small : d ≤ 32) (float : Bool) :
    f.miso mem float = (mem.word a).getLsbD (d - 1) := by
  obtain ⟨m, clocks, taken⟩ := streams.started
  obtain ⟨read, address⟩ := command_parts (a - BitVec.ofNat 22 m)
  have behind : f.clocks - 32 = 32 * m + (32 - d) := by omega
  rw [Flash.miso, taken, read, address, behind, if_pos ⟨by omega, rfl⟩, stream_word mem a m positive small]

theorem clocked (streams : Streams mem f data a d) (mosi : Bool) :
    f.step false true mosi = ⟨f.clocks + 1, f.taken⟩ := by
  obtain ⟨m, clocks, -⟩ := streams.started
  rw [Flash.step, if_neg (by decide), if_pos rfl, if_neg (by omega)]

theorem shift (streams : Streams mem f data a d) (positive : 0 < d) (small : d ≤ 32) (float : Bool) :
    ∀ j < 32 - (d - 1), (data.extractLsb' 0 31 ++ BitVec.ofBool (f.miso mem float)).getLsbD j =
      (mem.word a).getLsbD (d - 1 + j) := by
  intro j inside
  rw [streams.miso positive small, BitVec.getLsbD_append]
  rcases j with - | j
  · simp
  · have place : d - 1 + (j + 1) = d + j := by omega
    have shifted := streams.shifted j (by omega)
    rw [place, ← shifted]
    simp
    omega

theorem step (streams : Streams mem f data a d) (more : 1 < d) (small : d ≤ 32) (float mosi : Bool) :
    Streams mem (f.step false true mosi) (data.extractLsb' 0 31 ++ BitVec.ofBool (f.miso mem float)) a (d - 1) := by
  refine ⟨?_, streams.shift (by omega) small float⟩
  obtain ⟨m, clocks, taken⟩ := streams.started
  rw [streams.clocked]
  exact ⟨m, by simp only; omega, taken⟩

/-- With its last bit the word is complete. -/
theorem complete (streams : Streams mem f data a 1) (float : Bool) :
    data.extractLsb' 0 31 ++ BitVec.ofBool (f.miso mem float) = mem.word a := by
  apply BitVec.eq_of_getLsbD_eq
  intro j small
  simpa using streams.shift (by decide) (by decide) float j (by omega)

/-- The stream goes on with the next word. -/
theorem next (streams : Streams mem f data a 1) (mosi : Bool) (data' : BitVec 32) :
    Streams mem (f.step false true mosi) data' (a + 1) 32 := by
  refine ⟨?_, fun j small => absurd small (by omega)⟩
  obtain ⟨m, clocks, taken⟩ := streams.started
  have first : a + 1 - BitVec.ofNat 22 (m + 1) = a - BitVec.ofNat 22 m := by
    rw [BitVec.ofNat_add]
    exact add_sub_add_right_eq_sub a _ _
  rw [streams.clocked]
  exact ⟨m + 1, by simp only; omega, by rw [first, taken]⟩

end Streams

end IcoZip.Spixpress
