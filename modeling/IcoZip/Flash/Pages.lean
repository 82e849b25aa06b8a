import IcoZip.Flash.Driver

/-! The innermost loop of `FLASHDRVR::write`, over the pages of a sector.

How much of a page is written depends on a variable that nothing has been assigned
to. What holds of every loop that succeeds is told byte by byte, with that length
as it comes out: a page is written from its start, or from where the driver begins
in the sector, as far as the length reaches.
-/

set_option autoImplicit false

namespace IcoZip.Flash.Nor

open Loop (forLoop_rule forLoop_sound)

/-- The range of a write: words inside the window. -/
structure Range (addr len : Nat) : Prop where
  low : FLASHBASE ≤ addr
  high : addr + len ≤ FLASHBASE + FLASHLEN
  aligned : addr % 4 = 0
  whole : len % 4 = 0
  positive : 0 < len

/-- A length that stays inside the page. -/
def Fits (p l : Nat) : Prop := 0 < l ∧ p % 256 + l ≤ 256

/-- Every other length fails the assertions. -/
theorem pageLength_fits {p : Nat} (small : p < 2 ^ 26) (addr inner : Nat) :
    Fits p (pageLength addr inner p) ∨ ¬ (0 < pageLength addr inner p ∧ pageLength addr inner p ≤ 256) := by
  have bound : (addr + inner + 2 ^ 32 - p) % 2 ^ 32 < 2 ^ 32 := Nat.mod_lt _ (by decide)
  have page : (p + (addr + inner + 2 ^ 32 - p) % 2 ^ 32 + 2 ^ 32 - 1) % 2 ^ 32 < 2 ^ 32 := Nat.mod_lt _ (by decide)
  unfold Fits pageLength
  simp only [pageOf_eq page, pageOf_eq (show p < 2 ^ 32 by omega), PGLENB, pageOf_eq (show p + 256 < 2 ^ 32 by omega)]
  generalize (addr + inner + 2 ^ 32 - p) % 2 ^ 32 = ln at *
  split_ifs <;> omega

/-- Every length inside of the page is possible. -/
theorem pageLength_chosen {addr p l : Nat} (small : p < 2 ^ 26) (place : addr < 2 ^ 26) (fits : Fits p l) :
    pageLength addr (p + l + 2 ^ 32 - addr) p = l := by
  unfold Fits at fits
  have start : (addr + (p + l + 2 ^ 32 - addr) + 2 ^ 32 - p) % 2 ^ 32 = l := by omega
  have last : (p + l + 2 ^ 32 - 1) % 2 ^ 32 = p + l - 1 := by omega
  unfold pageLength
  simp only [start, last, pageOf_eq (show p + l - 1 < 2 ^ 32 by omega), pageOf_eq (show p < 2 ^ 32 by omega)]
  exact if_neg (by omega)

/-- If the variable holds what it hides, a page is written to its end or that of the range. -/
theorem pageLength_hidden {addr len p : Nat} (from_ : addr ≤ p) (before : p < addr + len)
    (small : addr + len < 2 ^ 26) : pageLength addr len p = min (addr + len - p) (256 - p % 256) := by
  have start : (addr + len + 2 ^ 32 - p) % 2 ^ 32 = addr + len - p := by omega
  have last : (p + (addr + len - p) + 2 ^ 32 - 1) % 2 ^ 32 = addr + len - 1 := by omega
  unfold pageLength
  simp only [start, last, pageOf_eq (show addr + len - 1 < 2 ^ 32 by omega), pageOf_eq (show p < 2 ^ 32 by omega),
    PGLENB, pageOf_eq (show p + 256 < 2 ^ 32 by omega)]
  split_ifs <;> omega

/-- Where the write begins that a byte belongs to, if the sector is written from `v` on. -/
def pageStart (v a : Nat) : Nat := max v (a / 256 * 256)

/-- A byte that is written, or would be if the assertions held. -/
def Reached (inner : Nat → Nat) (addr len v a : Nat) : Prop :=
  v ≤ a ∧ pageStart v a < addr + len ∧
    a < pageStart v a + pageLength addr (inner (pageStart v a)) (pageStart v a)

instance (inner : Nat → Nat) (addr len v a : Nat) : Decidable (Reached inner addr len v a) :=
  inferInstanceAs (Decidable (_ ∧ _ ∧ _))

section
variable {f : Nor} {inner : Nat → Nat} {addr len : Nat} {data : Nat → BitVec 8} {verify : Bool}

theorem writePage_spec (ready : f.Ready) {p : Nat} (window : InWindow p) (from_ : addr ≤ p) (aligned : p % 4 = 0)
    (fits : Fits p (pageLength addr (inner p) p)) :
    ∃ f' ok, writePage inner addr data verify p f = some (f', ok) ∧ f'.Ready ∧
      (∀ a, InWindow a → f'.byte a =
        if p ≤ a ∧ a < p + pageLength addr (inner p) p then f.byte a &&& data (a - addr) else f.byte a) ∧
      ((∀ a, p ≤ a → a < p + pageLength addr (inner p) p → f.byte a &&& data (a - addr) = data (a - addr)) →
        ok = true) := by
  obtain ⟨f', ok, programmed, ready', bytes, verified⟩ :=
    pageProgram_spec ready window fits.1 fits.2 aligned (fun i => data (p - addr + i)) verify
  have datum (a : Nat) (above : p ≤ a) : data (p - addr + (a - p)) = data (a - addr) := congrArg data (by omega)
  refine ⟨f', ok, programmed, ready', fun a inside => ?_, fun clears => verified fun i inside => ?_⟩
  · rw [bytes a inside]
    split_ifs with written
    · rw [datum a written.1]
    · rfl
  · have value := clears (p + i) (by omega) (by omega)
    rwa [← datum (p + i) (by omega), Nat.add_sub_cancel_left] at value

/-- A page that has been written had a length that fits. -/
theorem writePage_wrote (ready : f.Ready) {p : Nat} (window : InWindow p) (from_ : addr ≤ p) (aligned : p % 4 = 0)
    {f' : Nor} (wrote : writePage inner addr data verify p f = some (f', true)) :
    Fits p (pageLength addr (inner p) p) ∧ f'.Ready ∧ ∀ a, InWindow a → f'.byte a =
      if p ≤ a ∧ a < p + pageLength addr (inner p) p then f.byte a &&& data (a - addr) else f.byte a := by
  have small : p < 2 ^ 26 := by
    simp only [InWindow, FLASHBASE, FLASHLEN] at window
    omega
  rcases pageLength_fits small addr (inner p) with fits | refused
  · obtain ⟨g, ok, done, ready', bytes, -⟩ := @writePage_spec f inner addr data verify ready p window from_ aligned fits
    obtain ⟨rfl, -⟩ := Prod.mk.injEq .. ▸ Option.some.inj (done.symm.trans wrote)
    exact ⟨fits, ready', bytes⟩
  · have asserted : ¬ (0 < pageLength addr (inner p) p ∧ pageLength addr (inner p) p ≤ PGLENB ∧
        pageOf p = pageOf (p + pageLength addr (inner p) p - 1)) := fun all => refused ⟨all.1, all.2.1⟩
    rw [writePage, pageProgram, if_pos asserted] at wrote
    cases wrote

/-- The pages before `p` have been written. -/
structure Written (inner : Nat → Nat) (addr len : Nat) (data : Nat → BitVec 8) (s v : Nat) (f : Nor) (p : Nat)
    (g : Nor) :
    Prop where
  ready : g.Ready
  from_ : v ≤ p
  inside : p ≤ s + 65536
  page : p = v ∨ p % 256 = 0
  bytes : ∀ a, InWindow a → g.byte a =
    if Reached inner addr len v a ∧ a < p then f.byte a &&& data (a - addr) else f.byte a
  fits : ∀ a, v ≤ a → a < p → pageStart v a < addr + len →
    Fits (pageStart v a) (pageLength addr (inner (pageStart v a)) (pageStart v a))

/-- Where a sector is written from. -/
structure From (addr len s v : Nat) : Prop where
  sector : s % 65536 = 0
  low : addr ≤ v
  inside : s ≤ v
  before : v < s + 65536
  below : v < addr + len
  aligned : v % 4 = 0

section
variable {s v : Nat}

theorem Written.start (begins : From addr len s v) (ready : f.Ready) : Written inner addr len data s v f v f := by
  refine ⟨ready, Nat.le_refl v, Nat.le_of_lt begins.before, .inl rfl, fun a _ => ?_, fun a above before => ?_⟩
  · rw [if_neg fun reached => absurd reached.1.1 (Nat.not_le.mpr reached.2)]
  · omega

theorem Written.window (range : Range addr len) (begins : From addr len s v) {p : Nat} {g : Nor}
    (written : Written inner addr len data s v f p g) (more : p < addr + len) : InWindow p := by
  have from_ := written.from_
  have low := begins.low
  have first := range.low
  have high := range.high
  exact ⟨by omega, by omega⟩

theorem Written.aligned (begins : From addr len s v) {p : Nat} {g : Nor}
    (written : Written inner addr len data s v f p g) : p % 4 = 0 := by
  have page := written.page
  have aligned := begins.aligned
  omega

theorem pages_go (addr len s p : Nat) : (decide (p < s + SECTORSZB) && decide (p < addr + len)) = true ↔
    p < s + 65536 ∧ p < addr + len := by
  rw [Bool.and_eq_true, decide_eq_true_iff, decide_eq_true_iff, SECTORSZB, NPAGES, SZPAGEB]

section
variable (range : Range addr len) (begins : From addr len s v)
include range begins

theorem Written.next {p : Nat} {g g' : Nor} (written : Written inner addr len data s v f p g) (more : p < s + 65536)
    (before : p < addr + len) (wrote : writePage inner addr data verify p g = some (g', true)) :
    Written inner addr len data s v f (pageOf (p + PGLENB)) g' := by
  have window := written.window range begins before
  have sector := begins.sector
  have low := begins.low
  have from_ := written.from_
  have page := written.page
  obtain ⟨fits, ready, bytes⟩ := writePage_wrote written.ready window (by omega)
    (written.aligned begins) wrote
  have high := range.high
  simp only [FLASHBASE, FLASHLEN] at high
  have next : pageOf (p + PGLENB) = p / 256 * 256 + 256 := by
    rw [PGLENB, pageOf_eq (by omega)]
    omega
  -- what is on the page that begins here
  have here (a : Nat) (above : p ≤ a) (below : a < p / 256 * 256 + 256) : pageStart v a = p := by
    unfold pageStart
    omega
  rw [next]
  refine ⟨ready, by omega, by omega, .inr (by omega), fun a inside => ?_, fun a above below some => ?_⟩
  · rw [bytes a inside, written.bytes a inside]
    by_cases early : a < p
    · have late : a < p / 256 * 256 + 256 := by omega
      have outside : ¬ (p ≤ a ∧ a < p + pageLength addr (inner p) p) := by omega
      rw [if_neg outside]
      simp only [early, late]
    · have unwritten : ¬ (Reached inner addr len v a ∧ a < p) := fun both => early both.2
      have same : (Reached inner addr len v a ∧ a < p / 256 * 256 + 256) ↔
          p ≤ a ∧ a < p + pageLength addr (inner p) p := by
        unfold Fits at fits
        constructor
        · rintro ⟨⟨-, -, reached⟩, below⟩
          rw [here a (by omega) below] at reached
          omega
        · intro inside
          have below : a < p / 256 * 256 + 256 := by omega
          refine ⟨⟨by omega, ?_, ?_⟩, below⟩
          · rw [here a (by omega) below]
            exact before
          · rw [here a (by omega) below]
            exact inside.2
      rw [if_neg unwritten]
      simp only [same]
  · by_cases early : a < p
    · exact written.fits a above early some
    · rw [here a (by omega) below]
      exact fits

/-- What the loop over the pages leaves where it succeeds. -/
theorem writePages_sound (ready : f.Ready) {f' : Nor}
    (wrote : writePages inner addr len data verify s v f = some (f', true)) :
    f'.Ready ∧
      (∀ a, InWindow a → f'.byte a =
        if Reached inner addr len v a ∧ a < s + 65536 then f.byte a &&& data (a - addr) else f.byte a) ∧
      ∀ a, v ≤ a → a < s + 65536 → pageStart v a < addr + len →
        Fits (pageStart v a) (pageLength addr (inner (pageStart v a)) (pageStart v a)) := by
  obtain ⟨p, written, out⟩ := forLoop_sound (Written inner addr len data s v f)
    (fun p g g' written go done => by
      obtain ⟨more, before⟩ := (pages_go addr len s p).mp go
      exact written.next range begins more before done)
    (Written.start begins ready) wrote
  have ended : ¬ (p < s + 65536 ∧ p < addr + len) := fun more => by
    rw [(pages_go addr len s p).mpr more] at out
    cases out
  have sector := begins.sector
  have inside := written.inside
  have page := written.page
  have below := begins.below
  have before := begins.before
  -- a page that begins in the range and in the sector has been written
  have done (a : Nat) (above : v ≤ a) (here : a < s + 65536) (some : pageStart v a < addr + len) : a < p := by
    unfold pageStart at some
    omega
  refine ⟨written.ready, fun a window => ?_,
    fun a above here some => written.fits a above (done a above here some) some⟩
  have same : (Reached inner addr len v a ∧ a < p) ↔ Reached inner addr len v a ∧ a < s + 65536 := by
    refine and_congr_right fun reached => ⟨fun early => by omega, fun early => done a reached.1 early reached.2.1⟩
  rw [written.bytes a window]
  simp only [same]

/-- The loop succeeds if every page has a length that fits and no bit has to be set. -/
theorem writePages_returns (ready : f.Ready)
    (fits : ∀ p, addr ≤ p → p < addr + len → Fits p (pageLength addr (inner p) p))
    (clears : ∀ a, Reached inner addr len v a → a < s + 65536 → f.byte a &&& data (a - addr) = data (a - addr)) :
    ∃ f', writePages inner addr len data verify s v f = some (f', true) := by
  have high := range.high
  simp only [FLASHBASE, FLASHLEN] at high
  have sector := begins.sector
  have low := begins.low
  have next (p : Nat) (more : p < addr + len) : pageOf (p + PGLENB) = p / 256 * 256 + 256 := by
    rw [PGLENB, pageOf_eq (by omega)]
    omega
  obtain ⟨p, f', done, -, -⟩ := @forLoop_rule Nor
    (fun p => p < s + SECTORSZB && p < addr + len) (fun p => pageOf (p + PGLENB)) (writePage inner addr data verify)
    (Written inner addr len data s v f) (fun p => (s + 65536 - p + 255) / 256)
    (fun p g written go => by
      obtain ⟨more, before⟩ := (pages_go addr len s p).mp go
      have from_ := written.from_
      have page := written.page
      have window := written.window range begins before
      have aligned := written.aligned begins
      have fit := fits p (by omega) before
      obtain ⟨g', ok, wrote, -, -, verified⟩ := @writePage_spec g inner addr data verify written.ready p window
        (by omega) aligned fit
      have right : ok = true := verified fun a above below => by
        unfold Fits at fit
        have inWindow : InWindow a := by
          simp only [InWindow, FLASHBASE, FLASHLEN] at window ⊢
          omega
        have start : pageStart v a = p := by
          unfold pageStart
          omega
        have reached : Reached inner addr len v a := by
          refine ⟨by omega, ?_, ?_⟩ <;> rw [start]
          · exact before
          · exact below
        rw [written.bytes a inWindow, if_neg fun both => absurd both.2 (Nat.not_lt.mpr above)]
        exact clears a reached (by omega)
      subst right
      exact ⟨g', wrote, written.next range begins more before wrote⟩)
    (fun p g written go => by
      obtain ⟨more, before⟩ := (pages_go addr len s p).mp go
      simp only [next p before]
      omega)
    (NPAGES + 1) v f (Written.start begins ready) (by
      have inside := begins.inside
      simp only [NPAGES]
      omega)
  exact ⟨f', done⟩

end
end
end

end IcoZip.Flash.Nor
