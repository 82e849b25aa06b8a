import IcoZip.Flash.Device
import IcoZip.Library.Bytes
import IcoZip.Library.Loop
import Mathlib.Tactic.IntervalCases

/-! The flash driver: `FLASHDRVR::write` with `erase_sector` and `page_program`.

A write walks over the sectors it touches. In each it looks for the first word
that has to change and for a bit that only an erase can set, erases the sector
if there is one, and programs page by page from there on. Addresses stay below
2^26, so the 32-bit arithmetic of the source wraps in one place only: the length
of a page is computed from a variable that nothing has been assigned to.
-/

set_option autoImplicit false

namespace IcoZip.Flash

open Loop (forLoop)

/-! ### Words and addresses -/

def byteswap (v : BitVec 32) : BitVec 32 :=
  let r := v &&& 0xff
  let r := r <<< 8
  let v := v >>> 8
  let r := r ||| (v &&& 0xff)
  let r := r <<< 8
  let v := v >>> 8
  let r := r ||| (v &&& 0xff)
  let r := r <<< 8
  let v := v >>> 8
  r ||| (v &&& 0xff)

def buildword (p : Nat → BitVec 8) : BitVec 32 :=
  let r := (p 0).setWidth 32
  let r := r <<< 8
  let r := r ||| (p 1).setWidth 32
  let r := r <<< 8
  let r := r ||| (p 2).setWidth 32
  let r := r <<< 8
  r ||| (p 3).setWidth 32

def sectorOf (a : Nat) : Nat := a &&& 0xffff0000

def pageOf (a : Nat) : Nat := a &&& 0xffffff00

/-- The `char` at an offset of an array of words, on a little-endian host. -/
def charAt (words : List (BitVec 32)) (i : Nat) : BitVec 8 := (words.getD (i / 4) 0).extractLsb' (8 * (i % 4)) 8

namespace Nor

/-! ### The driver -/

/-- The loop of `flwait`. -/
def flwaitLoop : Nat → Nor → Option Nor
  | 0, _ => none
  | fuel + 1, f =>
    let f := f.writeCfg F_EMPTY
    let (sr, f) := f.readCfg
    if sr &&& 1 ≠ 0 then flwaitLoop fuel f else some f

/-- `flwait`; the loop ends when the device is no longer busy. -/
def flwait (f : Nor) : Option Nor := do
  let f := [F_END, F_RDSR1].foldl writeCfg f
  let f ← flwaitLoop (f.busy + 1) f
  some (f.writeCfg F_END)

def eraseSector (f : Nor) (sector : Nat) (verifyErase : Bool) : Option (Nor × Bool) := do
  let flashaddr := sector &&& 0x0ffffff
  let f := [F_END, F_WREN, F_END].foldl writeCfg f
  let f := (F_SE :: addressBytes flashaddr ++ [F_END]).foldl writeCfg f
  let f ← f.flwait
  if verifyErase then
    let erased := (List.range NPAGES).all fun i =>
      (f.readi (FLASHBASE + flashaddr + i * SZPAGEB) SZPAGEW).all (· == 0xffffffff)
    some (f, erased)
  else some (f, true)

/-- The words of a page as the bus shows them. -/
def bswapd (len : Nat) (data : Nat → BitVec 8) : List (BitVec 32) :=
  (List.range ((len + 3) / 4)).map fun k => buildword fun j => data (4 * k + j)

/-- The commands of `page_program`, which leaves an empty page alone. -/
def programPage (f : Nor) (addr len : Nat) (data : Nat → BitVec 8) : Option Nor :=
  let flashaddr := addr &&& 0x0ffffff
  let emptyPage := (bswapd len data).all (· == 0xffffffff)
  if !emptyPage then
    let f := [F_END, F_WREN, F_END, F_END].foldl writeCfg f
    let f := (F_PP :: addressBytes flashaddr).foldl writeCfg f
    let f := ((List.range len).map fun i => (data i).toNat &&& 0xff).foldl writeCfg f
    (f.writeCfg F_END).flwait
  else some f

/-- `page_program`; a failed assertion is a failure. -/
def pageProgram (f : Nor) (addr len : Nat) (data : Nat → BitVec 8) (verifyWrite : Bool) :
    Option (Nor × Bool) :=
  if ¬(0 < len ∧ len ≤ PGLENB ∧ pageOf addr = pageOf (addr + len - 1)) then none
  else do
    let f ← f.programPage addr len data
    if verifyWrite then
      let buf := f.readi addr (len >>> 2)
      some (f, (List.range (len >>> 2)).all fun i => buf.getD i 0 == (bswapd len data).getD i 0)
    else some (f, true)

/-- The comparison of a sector with the desired bytes: whether it must be erased, and the address
from which it must be written, zero for none. -/
def scan (sbuf dp : Nat → BitVec 8) (base : Nat) : Nat → Nat → Nat → Bool × Nat
  | 0, _, newv => (false, newv)
  | rest + 1, i, newv =>
    if sbuf i &&& dp i ≠ dp i then (true, (i &&& 0xfffffffc) + base)
    else if sbuf i ≠ dp i ∧ newv = 0 then scan sbuf dp base rest (i + 1) ((i &&& 0xfffffffc) + base)
    else scan sbuf dp base rest (i + 1) newv

/-- The `len` that is declared for a page. It hides the parameter in its own initialiser already, so it starts from
what the variable happens to hold. -/
def pageLength (addr inner p : Nat) : Nat :=
  let start := p
  let ln := (addr + inner + 2 ^ 32 - start) % 2 ^ 32
  if pageOf ((start + ln + 2 ^ 32 - 1) % 2 ^ 32) ≠ pageOf start then pageOf (start + PGLENB) - start else ln

/-- One page of the innermost loop. -/
def writePage (inner : Nat → Nat) (addr : Nat) (data : Nat → BitVec 8) (verify : Bool) (p : Nat) (f : Nor) :
    Option (Nor × Bool) :=
  f.pageProgram p (pageLength addr (inner p) p) (fun i => data (p - addr + i)) verify

/-- The loop over the pages of a sector. -/
def writePages (inner : Nat → Nat) (addr len : Nat) (data : Nat → BitVec 8) (verify : Bool) (s newv : Nat) (f : Nor) :
    Option (Nor × Bool) :=
  forLoop (fun p => p < s + SECTORSZB && p < addr + len) (fun p => pageOf (p + PGLENB))
    (writePage inner addr data verify) (NPAGES + 1) newv f

/-- One sector of the outer loop. -/
def writeSector (inner : Nat → Nat) (addr len : Nat) (data : Nat → BitVec 8) (verify : Bool) (s : Nat) (f : Nor) :
    Option (Nor × Bool) :=
  let base := if addr > s then addr else s
  let ln := (if addr + len > s + SECTORSZB then s + SECTORSZB else addr + len) - base
  let sbuf := (f.readi base (ln >>> 2)).map byteswap
  let (needErase, newv) := scan (charAt sbuf) (fun i => data (base - addr + i)) base ln 0 0
  if newv = 0 then some (f, true)
  else if needErase then do
    let (f, erased) ← f.eraseSector s verify
    if erased then writePages inner addr len data verify s (if s < addr then addr else s) f else some (f, false)
  else writePages inner addr len data verify s newv f

/-- `write`. What a page's `len` holds before it is initialised is given by `inner`, and what `data` points to goes on
behind the buffer. -/
def write (f : Nor) (inner : Nat → Nat) (addr len : Nat) (data : Nat → BitVec 8) (verify : Bool) :
    Option (Nor × Bool) := do
  let (f, ok) ← forLoop (fun s => s < sectorOf (addr + len + SECTORSZB - 1)) (· + SECTORSZB)
    (writeSector inner addr len data verify) (len / SECTORSZB + 3) (sectorOf addr) f
  if ok then some ([F_WRDI, F_END].foldl writeCfg f, true) else some (f, false)

end Nor

/-! ### Words -/

theorem and_ff (v : BitVec 32) (j : Nat) : (v &&& 0xff).getLsbD j = (decide (j < 8) && v.getLsbD j) := by
  have mask : (0xff : BitVec 32).getLsbD j = decide (j < 8) := by
    rw [show (0xff : BitVec 32) = 255#32 from rfl, BitVec.getLsbD_ofNat, show 255 = 2 ^ 8 - 1 from rfl,
      Nat.testBit_two_pow_sub_one]
    by_cases low : j < 8
    · simp [low, show j < 32 by omega]
    · simp [low]
  rw [BitVec.getLsbD_and, mask, Bool.and_comm]

theorem byteswap_append (b₃ b₂ b₁ b₀ : BitVec 8) :
    byteswap (b₃ ++ (b₂ ++ (b₁ ++ b₀))) = b₀ ++ (b₁ ++ (b₂ ++ b₃)) := by
  apply BitVec.eq_of_getLsbD_eq
  intro i small
  simp only [byteswap, BitVec.getLsbD_or, BitVec.getLsbD_shiftLeft, and_ff, BitVec.getLsbD_ushiftRight,
    BitVec.getLsbD_append]
  interval_cases i <;> simp

theorem buildword_append (p : Nat → BitVec 8) : buildword p = p 0 ++ (p 1 ++ (p 2 ++ p 3)) := by
  apply BitVec.eq_of_getLsbD_eq
  intro i small
  simp only [buildword, BitVec.getLsbD_or, BitVec.getLsbD_shiftLeft, BitVec.getLsbD_setWidth,
    BitVec.getLsbD_append]
  interval_cases i <;> simp

theorem sectorOf_eq {a : Nat} (small : a < 2 ^ 32) : sectorOf a = a / 65536 * 65536 :=
  Loop.and_mask small (show 16 ≤ 32 by decide)

theorem pageOf_eq {a : Nat} (small : a < 2 ^ 32) : pageOf a = a / 256 * 256 :=
  Loop.and_mask small (show 8 ≤ 32 by decide)

theorem wordOf_eq {a : Nat} (small : a < 2 ^ 32) : a &&& 0xfffffffc = a / 4 * 4 :=
  Loop.and_mask small (show 2 ≤ 32 by decide)

theorem offset_eq (a : Nat) : a &&& 0x0ffffff = a % 2 ^ 24 := Nat.and_two_pow_sub_one_eq_mod a 24

namespace Nor

/-! ### Reading -/

section
variable {f : Nor}

theorem word_eq (ready : f.Ready) {addr : Nat} (aligned : addr % 4 = 0) :
    f.word addr = f.byte addr ++ (f.byte (addr + 1) ++ (f.byte (addr + 2) ++ f.byte (addr + 3))) := by
  have same : addr / 4 * 4 = addr := by omega
  simp [word, ready, same]

/-- What the driver compares in a sector are the bytes of the flash. -/
theorem charAt_readi (ready : f.Ready) {base n i : Nat} (aligned : base % 4 = 0) (inside : i < 4 * n) :
    charAt ((f.readi base n).map byteswap) i = f.byte (base + i) := by
  have bound : i / 4 < n := by omega
  have place : base + 4 * (i / 4) + i % 4 = base + i := by omega
  have value : ((f.readi base n).map byteswap).getD (i / 4) 0 = byteswap (f.word (base + 4 * (i / 4))) := by
    simp [readi, bound]
  have byte := Bytes.byte_ofBytes (fun j => f.byte (base + 4 * (i / 4) + j)) (Nat.mod_lt i (show 4 > 0 by decide))
  rw [charAt, value, word_eq ready (by omega), byteswap_append, ← place]
  exact byte

/-! ### Waiting and commands -/

theorem flwaitLoop_spec {fuel : Nat} (status : f.session.head? = some (BitVec.ofNat 8 F_RDSR1))
    (enough : f.busy < fuel) :
    ∃ session, flwaitLoop fuel f = some { f with busy := 0, session } ∧
      session.head? = some (BitVec.ofNat 8 F_RDSR1) := by
  induction fuel generalizing f with
  | zero => omega
  | succ fuel ih =>
    have polled := f.writeCfg_byte (show F_EMPTY < 256 by decide)
    have head : (f.session ++ [BitVec.ofNat 8 F_EMPTY]).head? = some (BitVec.ofNat 8 F_RDSR1) := by
      simp [List.head?_append, status]
    by_cases busy : f.busy = 0
    · refine ⟨f.session ++ [BitVec.ofNat 8 F_EMPTY], ?_, head⟩
      simp [flwaitLoop, polled, readCfg, busy]
    · obtain ⟨session, done, head'⟩ := @ih
        { f with busy := f.busy - 1, session := f.session ++ [BitVec.ofNat 8 F_EMPTY] } head (by simp; omega)
      refine ⟨session, ?_, head'⟩
      simp [flwaitLoop, polled, readCfg, busy, head, done]

/-- Waiting changes nothing but that the device is no longer busy. -/
theorem flwait_spec (session : f.session = []) : f.flwait = some { f with busy := 0 } := by
  have sent : [F_END, F_RDSR1].foldl writeCfg f = { f with session := [BitVec.ofNat 8 F_RDSR1] } := by
    rw [List.foldl_cons, List.foldl_cons, List.foldl_nil, writeCfg_end, session,
      writeCfg_byte _ (show F_RDSR1 < 256 by decide)]
    cases f
    simp_all [execute]
  obtain ⟨polls, done, head⟩ := @flwaitLoop_spec { f with session := [BitVec.ofNat 8 F_RDSR1] } (f.busy + 1)
    rfl (Nat.lt_succ_self _)
  obtain ⟨rest, rfl⟩ : ∃ rest, polls = BitVec.ofNat 8 F_RDSR1 :: rest := by
    cases polls with
    | nil => simp at head
    | cons first rest => exact ⟨rest, by simpa using head⟩
  have idle : { f with busy := 0, session := BitVec.ofNat 8 F_RDSR1 :: rest }.writeCfg F_END =
      { f with busy := 0 } := by
    rw [writeCfg_end]
    cases f
    simp_all [execute, F_RDSR1, F_WREN, F_WRDI, F_SE, F_PP]
  simp only [flwait, sent, done, Option.bind_eq_bind, Option.bind_some, idle]

theorem enable_spec (ready : f.Ready) :
    [F_END, F_WREN, F_END].foldl writeCfg f = { f with enabled := true } := by
  obtain ⟨busy, session⟩ := ready
  simp only [List.foldl_cons, List.foldl_nil]
  rw [writeCfg_end_ready f ⟨busy, session⟩, writeCfg_byte _ (show F_WREN < 256 by decide), writeCfg_end]
  cases f
  simp_all [execute, F_WREN]

theorem execute_erase (idle : f.busy = 0) (enabled : f.enabled = true) (a₂ a₁ a₀ : BitVec 8) :
    ∃ busy, f.execute [BitVec.ofNat 8 F_SE, a₂, a₁, a₀] =
      { f with mem := f.eraseAt (address a₂ a₁ a₀), enabled := false, busy } := by
  refine ⟨f.latency [BitVec.ofNat 8 F_SE, a₂, a₁, a₀], ?_⟩
  simp [execute, idle, enabled, F_SE, F_WREN, F_WRDI]

theorem execute_program (idle : f.busy = 0) (enabled : f.enabled = true) (a₂ a₁ a₀ : BitVec 8)
    (data : List (BitVec 8)) :
    ∃ busy, f.execute (BitVec.ofNat 8 F_PP :: a₂ :: a₁ :: a₀ :: data) =
      { f with mem := f.programAt (address a₂ a₁ a₀) data, enabled := false, busy } := by
  refine ⟨f.latency (BitVec.ofNat 8 F_PP :: a₂ :: a₁ :: a₀ :: data), ?_⟩
  simp [execute, idle, enabled, F_PP, F_SE, F_WREN, F_WRDI]

/-- The erase command, up to the end of the wait. -/
theorem erase_spec (ready : f.Ready) {flashaddr : Nat} (small : flashaddr < 2 ^ 24) :
    ((F_SE :: addressBytes flashaddr ++ [F_END]).foldl writeCfg { f with enabled := true }).flwait =
      some { f with mem := f.eraseAt flashaddr, enabled := false } := by
  obtain ⟨idle, session⟩ := ready
  have bytes : ∀ value ∈ F_SE :: addressBytes flashaddr, value < 256 := by
    simpa [F_SE] using addressBytes_small flashaddr
  obtain ⟨busy, executed⟩ := @execute_erase { f with enabled := true, session := [] } idle rfl
    (BitVec.ofNat 8 ((flashaddr >>> 16) &&& 0xff)) (BitVec.ofNat 8 ((flashaddr >>> 8) &&& 0xff))
    (BitVec.ofNat 8 (flashaddr &&& 0xff))
  rw [List.foldl_append, foldl_writeCfg _ _ bytes, List.foldl_cons, List.foldl_nil, writeCfg_end]
  simp only [session, List.nil_append, addressBytes, List.map_cons, List.map_nil]
  rw [executed, address_bytes small, flwait_spec rfl]
  cases f
  subst idle session
  rfl

/-- The program command, up to the end of the wait. -/
theorem program_spec (ready : f.Ready) {flashaddr : Nat} (small : flashaddr < 2 ^ 24) (len : Nat)
    (data : Nat → BitVec 8) :
    ((((List.range len).map fun i => (data i).toNat &&& 0xff).foldl writeCfg
        ((F_PP :: addressBytes flashaddr).foldl writeCfg { f with enabled := true })).writeCfg F_END).flwait =
      some { f with mem := f.programAt flashaddr ((List.range len).map data), enabled := false } := by
  obtain ⟨idle, session⟩ := ready
  have bytes : ∀ value ∈ F_PP :: addressBytes flashaddr, value < 256 := by
    simpa [F_PP] using addressBytes_small flashaddr
  have mask (n : Nat) : n &&& 0xff = n % 256 := Nat.and_two_pow_sub_one_eq_mod n 8
  have payload : ∀ value ∈ (List.range len).map fun i => (data i).toNat &&& 0xff, value < 256 := by
    intro value member
    obtain ⟨i, -, rfl⟩ := List.mem_map.mp member
    rw [mask]
    exact Nat.mod_lt _ (by decide)
  have sent : ((List.range len).map fun i => (data i).toNat &&& 0xff).map (BitVec.ofNat 8) =
      (List.range len).map data := by
    rw [List.map_map]
    refine List.map_congr_left fun i _ => ?_
    rw [Function.comp_apply, mask, Nat.mod_eq_of_lt (data i).isLt]
    simp
  obtain ⟨busy, executed⟩ := @execute_program { f with enabled := true, session := [] } idle rfl
    (BitVec.ofNat 8 ((flashaddr >>> 16) &&& 0xff)) (BitVec.ofNat 8 ((flashaddr >>> 8) &&& 0xff))
    (BitVec.ofNat 8 (flashaddr &&& 0xff)) ((List.range len).map data)
  rw [foldl_writeCfg _ _ bytes, foldl_writeCfg _ _ payload, writeCfg_end]
  simp only [session, List.nil_append, addressBytes, List.map_cons, List.map_nil, List.cons_append, sent]
  rw [executed, address_bytes small, flwait_spec rfl]
  cases f
  subst idle session
  rfl

end

/-! ### Erasing a sector and programming a page -/

/-- The bus addresses of the flash. -/
def InWindow (a : Nat) : Prop := FLASHBASE ≤ a ∧ a < FLASHBASE + FLASHLEN

section
variable {f : Nor}

/-- `erase_sector` sets the sector, and its verification passes. -/
theorem eraseSector_spec (ready : f.Ready) {s : Nat} (window : InWindow s) (aligned : s % 65536 = 0)
    (verify : Bool) :
    ∃ f', f.eraseSector s verify = some (f', true) ∧ f'.Ready ∧
      ∀ a, InWindow a → f'.byte a = if a / 65536 = s / 65536 then 0xff else f.byte a := by
  simp only [InWindow, FLASHBASE, FLASHLEN] at window ⊢
  have small : s % 2 ^ 24 < 2 ^ 24 := Nat.mod_lt _ (by decide)
  refine ⟨{ f with mem := f.eraseAt (s % 2 ^ 24), enabled := false }, ?_, ready, ?_⟩
  · have erased : { f with mem := f.eraseAt (s % 2 ^ 24), enabled := false }.Ready := ready
    have waited := erase_spec ready small
    have blank : ((List.range NPAGES).all fun i =>
        ({ f with mem := f.eraseAt (s % 2 ^ 24), enabled := false }.readi
          (FLASHBASE + s % 2 ^ 24 + i * SZPAGEB) SZPAGEW).all (· == 0xffffffff)) = true := by
      rw [List.all_eq_true]
      intro i page
      rw [List.all_eq_true]
      intro w member
      obtain ⟨k, inside, rfl⟩ := List.mem_map.mp member
      have page : i < 256 := List.mem_range.mp page
      have inside : k < 64 := List.mem_range.mp inside
      have place (j : Nat) (four : j < 4) :
          { f with mem := f.eraseAt (s % 2 ^ 24), enabled := false }.byte
            (FLASHBASE + s % 2 ^ 24 + i * SZPAGEB + 4 * k + j) = 0xff := by
        simp only [byte, eraseAt, FLASHBASE, SZPAGEB]
        exact if_pos (by omega)
      have zero := place 0 (by decide)
      rw [Nat.add_zero] at zero
      rw [word_eq erased (by simp only [FLASHBASE, SZPAGEB]; omega), zero, place 1 (by decide),
        place 2 (by decide), place 3 (by decide)]
      decide
    rw [eraseSector, offset_eq, enable_spec ready, waited]
    cases verify with
    | false => rfl
    | true => simp only [Option.bind_eq_bind, Option.bind_some, blank, if_true]
  · intro a inside
    simp only [byte, eraseAt]
    have same : a % 2 ^ 24 / 65536 = s % 2 ^ 24 / 65536 ↔ a / 65536 = s / 65536 := by omega
    simp only [same]

theorem buildword_blank {p : Nat → BitVec 8} (blank : buildword p = 0xffffffff) {j : Nat} (small : j < 4) :
    p j = 0xff := by
  have byte := Bytes.byte_ofBytes (fun k => p (3 - k)) (show 3 - j < 4 by omega)
  rw [show 3 - (3 - j) = j by omega] at byte
  rw [← byte]
  have word : Bytes.ofBytes (fun k => p (3 - k)) = 0xffffffff#32 := (buildword_append p).symm.trans blank
  rw [word]
  interval_cases j <;> decide

/-- The bytes that a page program leaves. -/
theorem programAt_byte {addr len : Nat} (window : InWindow addr) (page : addr % 256 + len ≤ 256)
    (data : Nat → BitVec 8) {a : Nat} (inside : InWindow a) :
    f.programAt (addr % 2 ^ 24) ((List.range len).map data) (a % 2 ^ 24) =
      if addr ≤ a ∧ a < addr + len then f.byte a &&& data (a - addr) else f.byte a := by
  simp only [InWindow, FLASHBASE, FLASHLEN] at window inside
  rw [programAt]
  by_cases same : a % 2 ^ 24 / 256 = addr % 2 ^ 24 / 256
  · rw [if_pos same]
    by_cases written : addr ≤ a ∧ a < addr + len
    · have index : (a % 2 ^ 24 + 256 - addr % 2 ^ 24 % 256) % 256 = a - addr := by omega
      have bound : a - addr < len := by omega
      rw [if_pos written, index]
      simp [bound, byte]
    · have index : ¬ (a % 2 ^ 24 + 256 - addr % 2 ^ 24 % 256) % 256 < len := by omega
      rw [if_neg written]
      have none : ((List.range len).map data)[(a % 2 ^ 24 + 256 - addr % 2 ^ 24 % 256) % 256]? = none :=
        List.getElem?_eq_none (by simpa using index)
      rw [none, Option.getD_none, show (0xff : BitVec 8) = BitVec.allOnes 8 from rfl, BitVec.and_allOnes, byte]
  · have outside : ¬ (addr ≤ a ∧ a < addr + len) := by omega
    rw [if_neg same, if_neg outside, byte]

/-- The commands clear bits in their range and do nothing else. -/
theorem programPage_spec (ready : f.Ready) {addr len : Nat} (window : InWindow addr)
    (page : addr % 256 + len ≤ 256) (data : Nat → BitVec 8) :
    ∃ f', f.programPage addr len data = some f' ∧ f'.Ready ∧
      ∀ a, InWindow a → f'.byte a = if addr ≤ a ∧ a < addr + len then f.byte a &&& data (a - addr) else f.byte a := by
  by_cases blank : (bswapd len data).all (· == 0xffffffff) = true
  · refine ⟨f, if_neg (by simp only [blank]; decide), ready, fun a inside => ?_⟩
    by_cases written : addr ≤ a ∧ a < addr + len
    · have all : buildword (fun j => data (4 * ((a - addr) / 4) + j)) = 0xffffffff := by
        rw [List.all_eq_true] at blank
        have member : buildword (fun j => data (4 * ((a - addr) / 4) + j)) ∈ bswapd len data :=
          List.mem_map.mpr ⟨(a - addr) / 4, List.mem_range.mpr (by omega), rfl⟩
        simpa using blank _ member
      have ones := buildword_blank all (Nat.mod_lt (a - addr) (show 4 > 0 by decide))
      rw [Nat.div_add_mod] at ones
      rw [if_pos written, ones, show (0xff : BitVec 8) = BitVec.allOnes 8 from rfl, BitVec.and_allOnes]
    · rw [if_neg written]
  · have small : addr % 2 ^ 24 < 2 ^ 24 := Nat.mod_lt _ (by decide)
    have enabled : [F_END, F_WREN, F_END, F_END].foldl writeCfg f = { f with enabled := true } := by
      have first := enable_spec ready
      simp only [List.foldl_cons, List.foldl_nil] at first ⊢
      rw [first]
      exact writeCfg_end_ready { f with enabled := true } ready
    refine ⟨{ f with mem := f.programAt (addr % 2 ^ 24) ((List.range len).map data), enabled := false }, ?_,
      ready, fun a inside => programAt_byte window page data inside⟩
    rw [programPage, if_pos (by simpa using blank), enabled, offset_eq, program_spec ready small]

/-- `page_program` inside a page clears bits in its range and does nothing else; its verification passes if no bit of
the data had to be set. -/
theorem pageProgram_spec (ready : f.Ready) {addr len : Nat} (window : InWindow addr) (positive : 0 < len)
    (page : addr % 256 + len ≤ 256) (aligned : addr % 4 = 0) (data : Nat → BitVec 8) (verify : Bool) :
    ∃ f' ok, f.pageProgram addr len data verify = some (f', ok) ∧ f'.Ready ∧
      (∀ a, InWindow a →
        f'.byte a = if addr ≤ a ∧ a < addr + len then f.byte a &&& data (a - addr) else f.byte a) ∧
      ((∀ i < len, f.byte (addr + i) &&& data i = data i) → ok = true) := by
  have bounds : FLASHBASE ≤ addr ∧ addr < FLASHBASE + FLASHLEN := window
  simp only [FLASHBASE, FLASHLEN] at bounds
  have asserted : 0 < len ∧ len ≤ PGLENB ∧ pageOf addr = pageOf (addr + len - 1) := by
    rw [pageOf_eq (by omega), pageOf_eq (by omega), PGLENB]
    omega
  obtain ⟨f', programmed, ready', bytes⟩ := programPage_spec ready window page data
  have verified (clears : ∀ i < len, f.byte (addr + i) &&& data i = data i) : ((List.range (len >>> 2)).all fun i =>
      (f'.readi addr (len >>> 2)).getD i 0 == (bswapd len data).getD i 0) = true := by
    rw [List.all_eq_true]
    intro i member
    have bound : i < len / 4 := by simpa [Nat.shiftRight_eq_div_pow] using member
    have place (j : Nat) (four : j < 4) : f'.byte (addr + 4 * i + j) = data (4 * i + j) := by
      have value := clears (4 * i + j) (by omega)
      rw [bytes _ (by simp only [InWindow, FLASHBASE, FLASHLEN]; omega), if_pos (by omega), Nat.add_assoc,
        Nat.add_sub_cancel_left, value]
    have zero := place 0 (by decide)
    rw [Nat.add_zero, Nat.add_zero] at zero
    have read : (f'.readi addr (len >>> 2)).getD i 0 = f'.word (addr + 4 * i) := by
      simp [readi, Nat.shiftRight_eq_div_pow, bound]
    have word : (bswapd len data).getD i 0 = buildword fun j => data (4 * i + j) := by
      simp [bswapd, show i < (len + 3) / 4 by omega]
    rw [read, word, word_eq ready' (by omega), zero, place 1 (by decide), place 2 (by decide),
      place 3 (by decide), buildword_append]
    simp
  cases verify with
  | false =>
    refine ⟨f', true, ?_, ready', bytes, fun _ => rfl⟩
    rw [pageProgram, if_neg (not_not.mpr asserted), programmed]
    rfl
  | true =>
    refine ⟨f', _, ?_, ready', bytes, verified⟩
    rw [pageProgram, if_neg (not_not.mpr asserted), programmed]
    rfl

end

end Nor

end IcoZip.Flash
