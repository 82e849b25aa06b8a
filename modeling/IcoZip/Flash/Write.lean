import IcoZip.Flash.Pages

/-! The contract of `FLASHDRVR::write`.

The driver walks over the sectors of the range. Where one has to change it begins
with the first word that differs, or, if some bit has to be set, erases the sector
and begins with the first word of the range. The rest of an erased sector is not
written back, and a page may be written up to its first byte only, or on behind
the range: which writes can be relied on follows.
-/

set_option autoImplicit false

namespace IcoZip.Flash.Nor

open Loop (forLoop_rule forLoop_sound)

/-! ### The comparison -/

section
variable {sbuf dp : Nat → BitVec 8} {base : Nat}

theorem scan_erase (positive : 0 < base) {rest i : Nat} (newv : Nat)
    (bad : ∃ j, i ≤ j ∧ j < i + rest ∧ sbuf j &&& dp j ≠ dp j) :
    ∃ v, 0 < v ∧ scan sbuf dp base rest i newv = (true, v) := by
  induction rest generalizing i newv with
  | zero =>
    obtain ⟨j, low, high, -⟩ := bad
    omega
  | succ rest ih =>
    by_cases here : sbuf i &&& dp i = dp i
    · have later : ∃ j, i + 1 ≤ j ∧ j < i + 1 + rest ∧ sbuf j &&& dp j ≠ dp j := by
        obtain ⟨j, low, high, wrong⟩ := bad
        have other : i ≠ j := fun same => wrong (same ▸ here)
        exact ⟨j, by omega, by omega, wrong⟩
      simp only [scan, here, ne_eq, not_true, if_false]
      split_ifs <;> exact ih _ later
    · exact ⟨(i &&& 0xfffffffc) + base, by omega, by simp [scan, here]⟩

/-- Once an address has been found it stays. -/
theorem scan_found {rest i newv : Nat} (found : newv ≠ 0)
    (clears : ∀ j, i ≤ j → j < i + rest → sbuf j &&& dp j = dp j) :
    scan sbuf dp base rest i newv = (false, newv) := by
  induction rest generalizing i with
  | zero => rfl
  | succ rest ih =>
    have here := clears i (Nat.le_refl i) (by omega)
    have later := @ih (i + 1) fun j low high => clears j (by omega) (by omega)
    simp [scan, here, found, later]

/-- Without an erase the address found is that of the first word that differs, if there is one. -/
theorem scan_program (positive : 0 < base) {rest i : Nat} (small : i + rest ≤ 2 ^ 32)
    (clears : ∀ j, i ≤ j → j < i + rest → sbuf j &&& dp j = dp j) :
    (scan sbuf dp base rest i 0 = (false, 0) ∧ ∀ j, i ≤ j → j < i + rest → sbuf j = dp j) ∨
    ∃ k, i ≤ k ∧ k < i + rest ∧ scan sbuf dp base rest i 0 = (false, k / 4 * 4 + base) ∧ sbuf k ≠ dp k ∧
      ∀ j, i ≤ j → j < k → sbuf j = dp j := by
  induction rest generalizing i with
  | zero => exact Or.inl ⟨rfl, fun j low high => absurd high (by omega)⟩
  | succ rest ih =>
    have here := clears i (Nat.le_refl i) (by omega)
    by_cases same : sbuf i = dp i
    · have step : scan sbuf dp base (rest + 1) i 0 = scan sbuf dp base rest (i + 1) 0 := by
        simp [scan, same]
      rcases @ih (i + 1) (by omega) fun j low high => clears j (by omega) (by omega) with
        ⟨none, equal⟩ | ⟨k, low, high, found, differs, equal⟩
      · refine Or.inl ⟨step.trans none, fun j low high => ?_⟩
        rcases Nat.eq_or_lt_of_le low with rfl | above
        · exact same
        · exact equal j above (by omega)
      · refine Or.inr ⟨k, by omega, by omega, step.trans found, differs, fun j low high => ?_⟩
        rcases Nat.eq_or_lt_of_le low with rfl | above
        · exact same
        · exact equal j above high
    · refine Or.inr ⟨i, Nat.le_refl i, by omega, ?_, same, fun j low high => absurd high (by omega)⟩
      have later := @scan_found sbuf dp base rest (i + 1) (i / 4 * 4 + base) (by omega)
        fun j low high => clears j (by omega) (by omega)
      simp [scan, here, same, wordOf_eq (show i < 2 ^ 32 by omega), later]

end

/-! ### The sectors of the range -/

/-- Some byte of the range, in the sector of an address, needs a bit that only an erase can set. -/
def NeedsErase (f : Nor) (addr len : Nat) (data : Nat → BitVec 8) (a : Nat) : Prop :=
  ∃ i < len, (addr + i) / 65536 = a / 65536 ∧ f.byte (addr + i) &&& data i ≠ data i

instance (f : Nor) (addr len : Nat) (data : Nat → BitVec 8) (a : Nat) :
    Decidable (f.NeedsErase addr len data a) :=
  inferInstanceAs (Decidable (∃ i < len, (addr + i) / 65536 = a / 65536 ∧ f.byte (addr + i) &&& data i ≠ data i))

/-- What a sector that is written holds before its first page is. -/
def prepared (f : Nor) (addr len : Nat) (data : Nat → BitVec 8) (a : Nat) : BitVec 8 :=
  if f.NeedsErase addr len data a then 0xff else f.byte a

/-- A sector that has to change, and where it is written from: behind an erase from the first byte of the range, else
from the word of the first byte that differs. -/
structure Begins (f : Nor) (addr len : Nat) (data : Nat → BitVec 8) (s v : Nat) : Prop extends From addr len s v where
  erased : f.NeedsErase addr len data s → v = max addr s
  differs : ¬ f.NeedsErase addr len data s →
    ∃ a, v ≤ a ∧ a < v + 4 ∧ f.byte a ≠ data (a - addr) ∧
      ∀ b, addr ≤ b → s ≤ b → b < a → f.byte b = data (b - addr)

section
variable {f : Nor} {inner : Nat → Nat} {addr len : Nat} {data : Nat → BitVec 8} {verify : Bool} {s v : Nat}

/-- Only the sector counts. -/
theorem needsErase_congr {a b : Nat} (same : a / 65536 = b / 65536) :
    f.NeedsErase addr len data a ↔ f.NeedsErase addr len data b := by
  simp only [NeedsErase, same]

/-- A byte of the range can be reached from what its sector holds before its page is written. -/
theorem prepared_clears {a : Nat} (above : addr ≤ a) (below : a < addr + len) :
    f.prepared addr len data a &&& data (a - addr) = data (a - addr) := by
  unfold prepared
  split_ifs with erase
  · rw [show (0xff : BitVec 8) = BitVec.allOnes 8 from rfl, BitVec.allOnes_and]
  · by_contra wrong
    refine erase ⟨a - addr, by omega, by rw [Nat.add_sub_cancel' above], ?_⟩
    rwa [Nat.add_sub_cancel' above]

theorem Begins.unique {v' : Nat} (begins : Begins f addr len data s v) (other : Begins f addr len data s v') :
    v = v' := by
  by_cases erase : f.NeedsErase addr len data s
  · rw [begins.erased erase, other.erased erase]
  · obtain ⟨a, above, below, wrong, before⟩ := begins.differs erase
    obtain ⟨a', above', below', wrong', before'⟩ := other.differs erase
    have low := begins.low
    have inside := begins.inside
    have low' := other.low
    have inside' := other.inside
    have first : ¬ a < a' := fun less => wrong (before' a (by omega) (by omega) less)
    have second : ¬ a' < a := fun less => wrong' (before a' (by omega) (by omega) less)
    have aligned := begins.aligned
    have aligned' := other.aligned
    omega

/-- Before the word that it is written from a sector is as it should be. -/
theorem Begins.before_equal (begins : Begins f addr len data s v) {a : Nat} (above : addr ≤ a) (inside : s ≤ a)
    (early : a < v) : f.prepared addr len data a = data (a - addr) := by
  have before := begins.before
  by_cases erase : f.NeedsErase addr len data s
  · rw [begins.erased erase] at early
    omega
  · obtain ⟨b, below, -, -, equal⟩ := begins.differs erase
    have sector := begins.sector
    have kept : f.prepared addr len data a = f.byte a := if_neg (mt (needsErase_congr (by omega)).mp erase)
    rw [kept]
    exact equal a above inside (by omega)

/-- A sector, where it begins and ends in the range. -/
theorem writeSector_eq {g : Nor} {base top ln : Nat} (clipped : (if addr > s then addr else s) = base)
    (cut : (if addr + len > s + SECTORSZB then s + SECTORSZB else addr + len) = top) (extent : top - base = ln)
    {needErase : Bool} {newv : Nat}
    (scanned : scan (charAt ((g.readi base (ln >>> 2)).map byteswap)) (fun i => data (base - addr + i)) base ln 0 0 =
      (needErase, newv)) :
    writeSector inner addr len data verify s g =
      if newv = 0 then some (g, true)
      else if needErase then
        (g.eraseSector s verify).bind fun r =>
          if r.2 then writePages inner addr len data verify s (if s < addr then addr else s) r.1 else some (r.1, false)
      else writePages inner addr len data verify s newv g := by
  subst clipped cut extent
  simp only [writeSector, scanned]
  rfl

/-- A sector stays as it is if it matches, else it is written page by page, behind an erase where it needs one. -/
theorem writeSector_cases (range : Range addr len) (sector : s % 65536 = 0) (from_ : addr < s + 65536)
    (before : s < addr + len) {g : Nor} (ready : g.Ready)
    (same : ∀ a, InWindow a → a / 65536 = s / 65536 → g.byte a = f.byte a) :
    ((∀ a, addr ≤ a → a < addr + len → a / 65536 = s / 65536 → f.byte a = data (a - addr)) ∧
      writeSector inner addr len data verify s g = some (g, true)) ∨
    ∃ v f₁, Begins f addr len data s v ∧ f₁.Ready ∧
      (∀ a, InWindow a → f₁.byte a = if a / 65536 = s / 65536 then f.prepared addr len data a else g.byte a) ∧
      writeSector inner addr len data verify s g = writePages inner addr len data verify s v f₁ := by
  obtain ⟨low, high, alignedAddr, whole, positive⟩ := range
  simp only [FLASHBASE, FLASHLEN] at low high
  obtain ⟨base, clipped, most, low_base, in_base, base_lt, base_aligned⟩ : ∃ base,
      (if addr > s then addr else s) = base ∧ base = max addr s ∧ addr ≤ base ∧ s ≤ base ∧ base < s + 65536 ∧
        base % 4 = 0 := by
    refine ⟨_, rfl, ?_⟩
    split_ifs <;> omega
  obtain ⟨top, cut, top_eq, base_top, top_aligned⟩ : ∃ top,
      (if addr + len > s + SECTORSZB then s + SECTORSZB else addr + len) = top ∧
      (∀ a, a < top ↔ a < addr + len ∧ a < s + 65536) ∧ base < top ∧ top % 4 = 0 := by
    refine ⟨_, rfl, ?_⟩
    rw [show SECTORSZB = 65536 from rfl]
    split_ifs <;> refine ⟨fun a => ?_, ?_, ?_⟩ <;> omega
  obtain ⟨ln, extent, ln_eq, ln_le, ln_aligned⟩ : ∃ ln, top - base = ln ∧
      (∀ a, base ≤ a ∧ a < base + ln ↔ base ≤ a ∧ a < addr + len ∧ a < s + 65536) ∧ ln ≤ 65536 ∧ ln % 4 = 0 := by
    have limit := (top_eq (top - 1)).mp (by omega)
    refine ⟨_, rfl, fun a => ?_, ?_, ?_⟩
    · rw [Nat.add_sub_cancel' (Nat.le_of_lt base_top), top_eq a]
    · omega
    · omega
  have below : base < addr + len := ((top_eq base).mp base_top).1
  -- a byte of the range in this sector is one of those compared
  have compared (a : Nat) (here : a / 65536 = s / 65536) : addr ≤ a ∧ a < addr + len ↔ base ≤ a ∧ a < base + ln := by
    rw [ln_eq]
    omega
  have char (i : Nat) (inside : i < ln) :
      charAt ((g.readi base (ln >>> 2)).map byteswap) i = f.byte (base + i) := by
    obtain ⟨-, less, inSector⟩ := (ln_eq (base + i)).mp ⟨by omega, by omega⟩
    rw [charAt_readi ready base_aligned (by rw [Nat.shiftRight_eq_div_pow]; omega)]
    exact same _ (by simp only [InWindow, FLASHBASE, FLASHLEN]; omega) (by omega)
  have datum (a : Nat) (above : base ≤ a) : data (base - addr + (a - base)) = data (a - addr) :=
    congrArg data (by omega)
  have scanned_byte (a : Nat) (above : base ≤ a) (less : a < base + ln) :
      charAt ((g.readi base (ln >>> 2)).map byteswap) (a - base) = f.byte a := by
    rw [char (a - base) (by omega), Nat.add_sub_cancel' above]
  by_cases bad : ∃ i < ln, f.byte (base + i) &&& data (base - addr + i) ≠ data (base - addr + i)
  · -- the sector is erased
    obtain ⟨i, inside, wrong⟩ := bad
    obtain ⟨v, nonzero, scanned⟩ := @scan_erase (charAt ((g.readi base (ln >>> 2)).map byteswap))
      (fun i => data (base - addr + i)) base (by omega) ln 0 0
      ⟨i, Nat.zero_le i, by omega, by rw [char i inside]; exact wrong⟩
    obtain ⟨f₁, erased, ready₁, bytes₁⟩ := eraseSector_spec ready
      (show InWindow s by simp only [InWindow, FLASHBASE, FLASHLEN]; omega) sector verify
    have needs : f.NeedsErase addr len data s := by
      obtain ⟨-, less, inSector⟩ := (ln_eq (base + i)).mp ⟨by omega, by omega⟩
      refine ⟨base + i - addr, by omega, by omega, ?_⟩
      rw [show addr + (base + i - addr) = base + i by omega, show base + i - addr = base - addr + i by omega]
      exact wrong
    refine .inr ⟨base, f₁, ⟨⟨sector, low_base, in_base, base_lt, below, base_aligned⟩, fun _ => most,
      fun none => absurd needs none⟩, ready₁, fun a window => ?_, ?_⟩
    · rw [bytes₁ a window]
      split_ifs with here
      · rw [prepared, if_pos ((needsErase_congr here).mpr needs)]
      · rfl
    · have reversed : (if s < addr then addr else s) = base := clipped
      rw [writeSector_eq clipped cut extent scanned, if_neg (Nat.pos_iff_ne_zero.mp nonzero), if_pos rfl, erased,
        Option.bind_some, if_pos rfl, reversed]
  · have fine (a : Nat) (above : base ≤ a) (less : a < base + ln) :
        f.byte a &&& data (a - addr) = data (a - addr) := by
      by_contra wrong
      refine bad ⟨a - base, by omega, ?_⟩
      rwa [datum a above, Nat.add_sub_cancel' above]
    have keeps : ¬ f.NeedsErase addr len data s := by
      rintro ⟨i, inside, here, wrong⟩
      obtain ⟨above, less⟩ := (compared (addr + i) here).mp ⟨by omega, by omega⟩
      have value := fine (addr + i) above less
      rw [Nat.add_sub_cancel_left] at value
      exact wrong value
    rcases @scan_program (charAt ((g.readi base (ln >>> 2)).map byteswap)) (fun i => data (base - addr + i)) base
      (by omega) ln 0 (by omega) (fun j _ inside => by
        have value := fine (base + j) (by omega) (by omega)
        rwa [← datum (base + j) (by omega), Nat.add_sub_cancel_left, ← char j (by omega)] at value) with
      ⟨scanned, equal⟩ | ⟨k, -, inside, scanned, differs, equal⟩
    · -- it already matches
      refine .inl ⟨fun a above less here => ?_, by rw [writeSector_eq clipped cut extent scanned, if_pos rfl]⟩
      obtain ⟨above', less'⟩ := (compared a here).mp ⟨above, less⟩
      have value := equal (a - base) (Nat.zero_le _) (by omega)
      rwa [scanned_byte a above' less', datum a above'] at value
    · -- it is written from the first word that differs
      obtain ⟨-, k_below, k_sector⟩ := (ln_eq (base + k)).mp ⟨by omega, by omega⟩
      have nonzero : k / 4 * 4 + base ≠ 0 := by omega
      refine .inr ⟨k / 4 * 4 + base, g, ⟨⟨sector, by omega, by omega, by omega, by omega, by omega⟩,
        fun needs => absurd needs keeps, fun _ => ⟨base + k, by omega, by omega, ?_, fun b above inSector early => ?_⟩⟩,
        ready, fun a window => ?_, ?_⟩
      · rw [char k (by omega)] at differs
        rwa [← datum (base + k) (by omega), Nat.add_sub_cancel_left]
      · have value := equal (b - base) (Nat.zero_le _) (by omega)
        rwa [scanned_byte b (by omega) (by omega), datum b (by omega)] at value
      · split_ifs with here
        · rw [prepared, if_neg (mt (needsErase_congr here).mp keeps), same a window here]
        · rfl
      · rw [writeSector_eq clipped cut extent scanned, if_neg nonzero, if_neg Bool.false_ne_true]

/-! ### The whole write -/

/-- What a write that succeeds may leave of a byte. -/
inductive Outcome (inner : Nat → Nat) (addr len : Nat) (data : Nat → BitVec 8) (f : Nor) (a : Nat) :
    BitVec 8 → Prop where
  | kept : (∀ c, addr ≤ c → c < addr + len → c / 65536 = a / 65536 → f.byte c = data (c - addr)) →
      Outcome inner addr len data f a (f.byte a)
  | written (v : Nat) : Begins f addr len data (a / 65536 * 65536) v →
      (∀ b, v ≤ b → b / 65536 = a / 65536 → pageStart v b < addr + len →
        Fits (pageStart v b) (pageLength addr (inner (pageStart v b)) (pageStart v b))) →
      Outcome inner addr len data f a (if Reached inner addr len v a
        then f.prepared addr len data a &&& data (a - addr) else f.prepared addr len data a)

/-- Sectors before `s` have been written, the others are as they were. -/
structure Progress (inner : Nat → Nat) (addr len : Nat) (data : Nat → BitVec 8) (f : Nor) (s : Nat) (g : Nor) :
    Prop where
  ready : g.Ready
  sector : s % 65536 = 0
  from_ : addr < s + 65536
  settled : ∀ a, InWindow a → a < s → Outcome inner addr len data f a (g.byte a)
  ahead : ∀ a, InWindow a → s ≤ a → g.byte a = f.byte a

theorem sectorOf_start (range : Range addr len) : sectorOf addr = addr / 65536 * 65536 := by
  have high := range.high
  simp only [FLASHBASE, FLASHLEN] at high
  exact sectorOf_eq (by omega)

theorem sectors_go (range : Range addr len) (sector : s % 65536 = 0) :
    decide (s < sectorOf (addr + len + SECTORSZB - 1)) = true ↔ s < addr + len := by
  have high := range.high
  simp only [FLASHBASE, FLASHLEN] at high
  have size : SECTORSZB = 65536 := rfl
  rw [decide_eq_true_iff, size, sectorOf_eq (by omega)]
  omega

theorem Progress.start (range : Range addr len) (ready : f.Ready) :
    Progress inner addr len data f (sectorOf addr) f := by
  rw [sectorOf_start range]
  refine ⟨ready, by omega, by omega, fun a _ early => .kept fun c above _ same => ?_, fun _ _ _ => rfl⟩
  omega

theorem Progress.same {g : Nor} (progress : Progress inner addr len data f s g) {a : Nat} (window : InWindow a)
    (here : a / 65536 = s / 65536) : g.byte a = f.byte a := by
  have sector := progress.sector
  exact progress.ahead a window (by omega)

theorem Progress.next {g g' : Nor} (progress : Progress inner addr len data f s g) (range : Range addr len)
    (before : s < addr + len) (wrote : writeSector inner addr len data verify s g = some (g', true)) :
    Progress inner addr len data f (s + SECTORSZB) g' := by
  have size : SECTORSZB = 65536 := rfl
  rw [size]
  have sector := progress.sector
  have from_ := progress.from_
  rcases @writeSector_cases f inner addr len data verify s range sector from_ before g progress.ready
    fun a => progress.same with ⟨equal, done⟩ | ⟨v, f₁, begins, ready₁, bytes₁, pages⟩
  · obtain ⟨rfl, -⟩ := Prod.mk.injEq .. ▸ Option.some.inj (done.symm.trans wrote)
    refine ⟨progress.ready, by omega, by omega, fun a window early => ?_, fun a window late =>
      progress.ahead a window (by omega)⟩
    by_cases earlier : a < s
    · exact progress.settled a window earlier
    · rw [progress.ahead a window (by omega)]
      exact .kept fun c above below same => equal c above below (by omega)
  · rw [pages] at wrote
    obtain ⟨ready', bytes, fits⟩ := writePages_sound range begins.toFrom ready₁ wrote
    have inside := begins.inside
    have elsewhere (a : Nat) (window : InWindow a) (other : a / 65536 ≠ s / 65536) : g'.byte a = g.byte a := by
      have outside : ¬ (Reached inner addr len v a ∧ a < s + 65536) := fun both => by
        have above := both.1.1
        omega
      rw [bytes a window, if_neg outside, bytes₁ a window, if_neg other]
    refine ⟨ready', by omega, by omega, fun a window early => ?_, fun a window late => ?_⟩
    · by_cases earlier : a < s
      · rw [elsewhere a window (by omega)]
        exact progress.settled a window earlier
      · have here : a / 65536 = s / 65536 := by omega
        have place : s = a / 65536 * 65536 := by omega
        rw [bytes a window, bytes₁ a window, if_pos here]
        simp only [early, and_true]
        exact .written v (place ▸ begins) fun b above same some => fits b above (by omega) some
    · rw [elsewhere a window (by omega)]
      exact progress.ahead a window (by omega)

/-- The last command takes the write enable back and changes no byte. -/
theorem foldl_disable {g : Nor} (ready : g.Ready) :
    [F_WRDI, F_END].foldl writeCfg g = { g with enabled := false } := by
  obtain ⟨idle, session⟩ := ready
  rw [List.foldl_cons, List.foldl_cons, List.foldl_nil, writeCfg_byte _ (show F_WRDI < 256 by decide), writeCfg_end]
  cases g
  simp_all [execute, F_WRDI, F_WREN]

/-- Every byte of a write that succeeds. -/
theorem write_sound (range : Range addr len) (ready : f.Ready) {f' : Nor}
    (wrote : f.write inner addr len data verify = some (f', true)) {a : Nat} (window : InWindow a) :
    Outcome inner addr len data f a (f'.byte a) := by
  obtain ⟨⟨g, ok⟩, loop, last⟩ := Option.bind_eq_some_iff.mp wrote
  cases ok with
  | false => simp at last
  | true =>
    have kept (s : Nat) (g g' : Nor) (progress : Progress inner addr len data f s g)
        (go : decide (s < sectorOf (addr + len + SECTORSZB - 1)) = true)
        (done : writeSector inner addr len data verify s g = some (g', true)) :
        Progress inner addr len data f (s + SECTORSZB) g' :=
      progress.next range ((sectors_go range progress.sector).mp go) done
    obtain ⟨s, progress, out⟩ := forLoop_sound (Progress inner addr len data f) kept (Progress.start range ready) loop
    have ended : ¬ s < addr + len := fun more => by
      rw [(sectors_go range progress.sector).mpr more] at out
      cases out
    have same : f'.byte a = g.byte a := by
      simp only [if_true, foldl_disable progress.ready, Option.some.injEq, Prod.mk.injEq, and_true] at last
      rw [← last]
      rfl
    rw [same]
    by_cases early : a < s
    · exact progress.settled a window early
    · rw [progress.ahead a window (by omega)]
      have sector := progress.sector
      exact .kept fun c _ below place => by omega

/-- A write succeeds if every page has a length that fits, and zeroes are read where it reaches behind the range. -/
theorem write_returns (range : Range addr len) (ready : f.Ready)
    (fits : ∀ p, addr ≤ p → p < addr + len → Fits p (pageLength addr (inner p) p))
    (behind : ∀ v a, addr ≤ v → addr + len ≤ a → Reached inner addr len v a → data (a - addr) = 0) :
    ∃ f', f.write inner addr len data verify = some (f', true) := by
  have low := range.low
  have high := range.high
  simp only [FLASHBASE, FLASHLEN] at low high
  have size : SECTORSZB = 65536 := rfl
  obtain ⟨s, g, done, -, -⟩ := @forLoop_rule Nor
    (fun s => s < sectorOf (addr + len + SECTORSZB - 1)) (· + SECTORSZB) (writeSector inner addr len data verify)
    (Progress inner addr len data f) (fun s => (addr + len + 65535) / 65536 - s / 65536)
    (fun s g progress go => by
      have before := (sectors_go range progress.sector).mp go
      rcases @writeSector_cases f inner addr len data verify s range progress.sector progress.from_ before g
        progress.ready fun a => progress.same with ⟨-, wrote⟩ | ⟨v, f₁, begins, ready₁, bytes₁, pages⟩
      · exact ⟨g, wrote, progress.next range before wrote⟩
      · have sector := progress.sector
        have first := begins.low
        have inside := begins.inside
        obtain ⟨g', wrote⟩ := @writePages_returns f₁ inner addr len data verify s v range begins.toFrom ready₁ fits
          fun a reached here => by
            have above := reached.1
            have window : InWindow a := by
              simp only [InWindow, FLASHBASE, FLASHLEN]
              omega
            rw [bytes₁ a window, if_pos (by omega)]
            by_cases below : a < addr + len
            · exact prepared_clears (by omega) below
            · rw [behind v a first (by omega) reached]
              exact BitVec.and_zero
        rw [← pages] at wrote
        exact ⟨g', wrote, progress.next range before wrote⟩)
    (fun s g progress go => by
      have before := (sectors_go range progress.sector).mp go
      have sector := progress.sector
      simp only [size]
      omega)
    (len / SECTORSZB + 3) (sectorOf addr) f (Progress.start range ready) (by
      rw [sectorOf_start range, size]
      omega)
  exact ⟨_, by rw [write, done]; rfl⟩

end

end IcoZip.Flash.Nor
