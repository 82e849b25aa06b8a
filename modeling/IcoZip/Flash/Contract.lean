import IcoZip.Flash.Write

/-! What can be relied on of `FLASHDRVR::write`.

If the variable from which a page's length is computed held the parameter that it
hides, a write would leave the data in its range, and 0xff in the rest of a sector
that it erases. It holds anything, and so does the memory behind the buffer: a
write is right whatever they hold only where it does not matter.
-/

set_option autoImplicit false

namespace IcoZip.Flash.Nor

section
variable {f : Nor} {inner : Nat → Nat} {addr len : Nat} {data : Nat → BitVec 8} {verify : Bool} {s v : Nat}

/-! ### As it is meant -/

/-- With the parameter in its place a write succeeds and leaves its data in its range, and outside it changes a byte
only in a sector that has to be erased, where it leaves 0xff. -/
theorem write_hidden (ready : f.Ready) (range : Range addr len) :
    ∃ f', f.write (fun _ => len) addr len data verify = some (f', true) ∧
      (∀ i < len, f'.byte (addr + i) = data i) ∧
      ∀ a, InWindow a → ¬ (addr ≤ a ∧ a < addr + len) →
        f'.byte a = if f.NeedsErase addr len data a then 0xff else f.byte a := by
  have low := range.low
  have high := range.high
  simp only [FLASHBASE, FLASHLEN] at low high
  have length (p : Nat) (from_ : addr ≤ p) (before : p < addr + len) :
      pageLength addr len p = min (addr + len - p) (256 - p % 256) :=
    pageLength_hidden from_ before (by omega)
  -- the bytes that are reached are those of the range
  have reached (v a : Nat) (from_ : addr ≤ v) : Reached (fun _ => len) addr len v a ↔ v ≤ a ∧ a < addr + len := by
    unfold Reached
    constructor
    · rintro ⟨above, before, below⟩
      rw [length _ (by unfold pageStart; omega) before] at below
      omega
    · rintro ⟨above, below⟩
      have before : pageStart v a < addr + len := by
        unfold pageStart
        omega
      refine ⟨above, before, ?_⟩
      rw [length _ (by unfold pageStart; omega) before]
      unfold pageStart
      omega
  obtain ⟨f', wrote⟩ := @write_returns f (fun _ => len) addr len data verify range ready
    (fun p from_ before => by
      unfold Fits
      rw [length p from_ before]
      omega)
    (fun v a from_ behind into => absurd ((reached v a from_).mp into).2 (by omega))
  refine ⟨f', wrote, fun i inside => ?_, fun a window outside => ?_⟩
  · have window : InWindow (addr + i) := by
      simp only [InWindow, FLASHBASE, FLASHLEN]
      omega
    have outcome := write_sound range ready wrote window
    generalize f'.byte (addr + i) = b at outcome
    cases outcome with
    | kept equal => rw [equal (addr + i) (by omega) (by omega) rfl, Nat.add_sub_cancel_left]
    | written v begins fits =>
      have clears := @prepared_clears f addr len data (addr + i) (by omega) (by omega)
      have early := @Begins.before_equal f addr len data _ v begins (addr + i) (by omega) (by omega)
      rw [Nat.add_sub_cancel_left] at clears early ⊢
      rw [if_congr (reached v (addr + i) begins.low) rfl rfl]
      split_ifs with into
      · exact clears
      · exact early (by omega)
  · have outcome := write_sound range ready wrote window
    generalize f'.byte a = b at outcome
    cases outcome with
    | kept equal =>
      refine (if_neg ?_).symm
      rintro ⟨i, inside, sector, wrong⟩
      have value := equal (addr + i) (by omega) (by omega) sector
      rw [Nat.add_sub_cancel_left] at value
      rw [value, BitVec.and_self] at wrong
      exact wrong rfl
    | written v begins fits =>
      have from_ := begins.low
      have unreached : ¬ Reached (fun _ => len) addr len v a := fun into => by
        have inside := (reached v a from_).mp into
        omega
      rw [if_neg unreached]
      rfl

/-! ### Whatever the variable holds -/

/-- The bytes of the range are the data and the others are as they were. -/
def Meets (f : Nor) (addr len : Nat) (data : Nat → BitVec 8) (f' : Nor) : Prop :=
  (∀ i < len, f'.byte (addr + i) = data i) ∧
    ∀ a, InWindow a → ¬ (addr ≤ a ∧ a < addr + len) → f'.byte a = f.byte a

/-- A sector written from `v` on where the length of a page does not matter: nothing is lost if it is erased, only the
first byte of what is written of a page has to change, and behind the range the last page holds zeroes. -/
structure Spared (f : Nor) (addr len : Nat) (data : Nat → BitVec 8) (s v : Nat) : Prop where
  around : f.NeedsErase addr len data s →
    ∀ a, InWindow a → a / 65536 = s / 65536 → ¬ (addr ≤ a ∧ a < addr + len) → f.byte a = 0xff
  first : ∀ a, v ≤ a → a < addr + len → a / 65536 = s / 65536 → a ≠ pageStart v a →
    f.prepared addr len data a = data (a - addr)
  behind : ∀ a, addr + len ≤ a → a / 65536 = s / 65536 → a / 256 = (addr + len - 1) / 256 →
    f.prepared addr len data a = 0

/-- All sectors that have to change are so. -/
def Reliable (f : Nor) (addr len : Nat) (data : Nat → BitVec 8) : Prop :=
  ∀ s v, Begins f addr len data s v → Spared f addr len data s v

section
variable {memory : Nat → BitVec 8} (same : ∀ i < len, memory i = data i)
include same

/-- The sectors are judged by the data of the range. -/
theorem needsErase_data (a : Nat) : f.NeedsErase addr len memory a ↔ f.NeedsErase addr len data a := by
  refine exists_congr fun i => and_congr_right fun inside => ?_
  rw [same i inside]

theorem prepared_data (a : Nat) : f.prepared addr len memory a = f.prepared addr len data a :=
  if_congr (needsErase_data same a) rfl rfl

theorem Begins.judged (range : Range addr len) (begins : Begins f addr len memory s v) :
    Begins f addr len data s v := by
  have aligned := begins.aligned
  have before := begins.below
  have whole := range.whole
  have start := range.aligned
  have low := begins.low
  refine ⟨begins.toFrom, fun needs => begins.erased ((needsErase_data same s).mpr needs), fun keeps => ?_⟩
  obtain ⟨a, above, below, wrong, equal⟩ := begins.differs (mt (needsErase_data same s).mp keeps)
  refine ⟨a, above, below, ?_, fun b from_ inside early => ?_⟩
  · rwa [← same (a - addr) (by omega)]
  · rw [← same (b - addr) (by omega)]
    exact equal b from_ inside early

end

/-- A sector that begins somewhere has a byte of the range that has to change. -/
theorem Begins.changes (range : Range addr len) (begins : Begins f addr len data s v) :
    ∃ c, addr ≤ c ∧ c < addr + len ∧ c / 65536 = s / 65536 ∧ f.byte c ≠ data (c - addr) := by
  by_cases needs : f.NeedsErase addr len data s
  · obtain ⟨i, inside, sector, wrong⟩ := needs
    refine ⟨addr + i, by omega, by omega, sector, fun equal => wrong ?_⟩
    rw [equal, Nat.add_sub_cancel_left, BitVec.and_self]
  · obtain ⟨a, above, below, wrong, -⟩ := begins.differs needs
    have aligned := begins.aligned
    have before := begins.below
    have whole := range.whole
    have start := range.aligned
    have low := begins.low
    have inside := begins.inside
    have last := begins.before
    have sector := begins.sector
    exact ⟨a, by omega, by omega, by omega, wrong⟩

/-- What every write that succeeds leaves, from a flash where lengths do not matter. -/
theorem Reliable.meets (range : Range addr len) (ready : f.Ready) (reliable : Reliable f addr len data)
    {memory : Nat → BitVec 8} (same : ∀ i < len, memory i = data i) {f' : Nor}
    (wrote : f.write inner addr len memory verify = some (f', true)) : Meets f addr len data f' := by
  have low := range.low
  have high := range.high
  simp only [FLASHBASE, FLASHLEN] at low high
  constructor
  · intro i inside
    have window : InWindow (addr + i) := by
      simp only [InWindow, FLASHBASE, FLASHLEN]
      omega
    have outcome := write_sound range ready wrote window
    generalize f'.byte (addr + i) = b at outcome
    cases outcome with
    | kept equal => rw [equal (addr + i) (by omega) (by omega) rfl, Nat.add_sub_cancel_left, same i inside]
    | written v begins fits =>
      have spared := reliable _ v (begins.judged same range)
      have clears := @prepared_clears f addr len memory (addr + i) (by omega) (by omega)
      have early := @Begins.before_equal f addr len memory _ v begins (addr + i) (by omega) (by omega)
      rw [Nat.add_sub_cancel_left, same i inside] at clears early
      rw [Nat.add_sub_cancel_left, same i inside]
      split_ifs with reached
      · exact clears
      · rcases Nat.lt_or_ge (addr + i) v with before | after
        · exact early before
        · by_cases start : addr + i = pageStart v (addr + i)
          · -- the first byte of what is written of a page is reached
            have some : pageStart v (addr + i) < addr + len := by omega
            have positive := (fits (addr + i) after rfl some).1
            exact absurd ⟨after, some, by omega⟩ reached
          · have value := spared.first (addr + i) after (by omega) (by omega) start
            rw [Nat.add_sub_cancel_left] at value
            rwa [prepared_data same]
  · intro a window outside
    have outcome := write_sound range ready wrote window
    generalize f'.byte a = b at outcome
    cases outcome with
    | kept equal => rfl
    | written v begins fits =>
      have spared := reliable _ v (begins.judged same range)
      have from_ := begins.low
      have before := begins.below
      have kept : f.prepared addr len data a = f.byte a := by
        unfold prepared
        split_ifs with needs
        · exact (spared.around ((needsErase_congr (by omega)).mp needs) a window (by omega) outside).symm
        · rfl
      rw [prepared_data same]
      split_ifs with reached
      · -- behind the range, on its last page
        obtain ⟨above, some, -⟩ := reached
        have zero := spared.behind a (by omega) (by omega) (by unfold pageStart at some; omega)
        rw [← kept, zero]
        exact BitVec.zero_and
      · exact kept

/-- The data, and zeroes behind them. -/
def padded (len : Nat) (data : Nat → BitVec 8) : Nat → BitVec 8 := fun i => if i < len then data i else 0

theorem padded_inside (len : Nat) (data : Nat → BitVec 8) : ∀ i < len, padded len data i = data i :=
  fun _ inside => if_pos inside

/-- Any length that fits may come out of the variable. -/
theorem write_chosen (range : Range addr len) (ready : f.Ready) {l : Nat → Nat} (fits : ∀ p, Fits p (l p)) :
    ∃ inner f', f.write inner addr len (padded len data) verify = some (f', true) ∧
      ∀ s v, Begins f addr len data s v → ∀ a, InWindow a → a / 65536 = s / 65536 →
        f'.byte a = if v ≤ a ∧ pageStart v a < addr + len ∧ a < pageStart v a + l (pageStart v a)
          then f.prepared addr len data a &&& padded len data (a - addr) else f.prepared addr len data a := by
  have low := range.low
  have high := range.high
  simp only [FLASHBASE, FLASHLEN] at low high
  have length (p : Nat) (before : p < addr + len) : pageLength addr (p + l p + 2 ^ 32 - addr) p = l p :=
    pageLength_chosen (by omega) (by omega) (fits p)
  obtain ⟨f', wrote⟩ :=
    @write_returns f (fun p => p + l p + 2 ^ 32 - addr) addr len (padded len data) verify range ready
    (fun p _ before => by
      rw [length p before]
      exact fits p)
    (fun v a _ behind _ => if_neg (by omega))
  refine ⟨_, f', wrote, fun s v begins a window here => ?_⟩
  have outcome := write_sound range ready wrote window
  have sector := begins.sector
  have place : s = a / 65536 * 65536 := by omega
  generalize f'.byte a = b at outcome
  cases outcome with
  | kept equal =>
    obtain ⟨c, above, below, same, wrong⟩ := begins.changes range
    have value := equal c above below (by omega)
    rw [padded_inside len data (c - addr) (by omega)] at value
    exact absurd value wrong
  | written v' begins' fits' =>
    have data' := begins'.judged (padded_inside len data) range
    rw [← place] at data'
    obtain rfl := begins.unique data'
    rw [prepared_data (padded_inside len data)]
    refine if_congr ?_ rfl rfl
    unfold Reached
    refine and_congr_right fun _ => and_congr_right fun some => ?_
    rw [length _ some]

/-- A write that is right whatever the variable holds finds a flash where lengths do not matter. -/
theorem Reliable.of_meets (range : Range addr len) (ready : f.Ready)
    (meets : ∀ (inner : Nat → Nat) (memory : Nat → BitVec 8), (∀ i < len, memory i = data i) →
      ∀ f', f.write inner addr len memory verify = some (f', true) → Meets f addr len data f') :
    Reliable f addr len data := by
  have low := range.low
  have high := range.high
  simp only [FLASHBASE, FLASHLEN] at low high
  intro s v begins
  have sector := begins.sector
  have from_ := begins.low
  have inside := begins.inside
  have below := begins.below
  have before := begins.before
  -- one byte of each page only
  obtain ⟨_, f₁, wrote₁, short⟩ := @write_chosen f addr len data verify range ready (fun _ => 1)
    fun p => by unfold Fits; omega
  obtain ⟨range₁, others₁⟩ := meets _ _ (padded_inside len data) f₁ wrote₁
  -- each page to its end
  obtain ⟨_, f₂, wrote₂, long⟩ := @write_chosen f addr len data verify range ready (fun p => 256 - p % 256)
    fun p => by unfold Fits; omega
  obtain ⟨-, others₂⟩ := meets _ _ (padded_inside len data) f₂ wrote₂
  have around (needs : f.NeedsErase addr len data s) (a : Nat) (window : InWindow a) (here : a / 65536 = s / 65536)
      (outside : ¬ (addr ≤ a ∧ a < addr + len)) : f.byte a = 0xff := by
    have unreached : ¬ (v ≤ a ∧ pageStart v a < addr + len ∧ a < pageStart v a + 1) := by
      unfold pageStart
      omega
    rw [← others₁ a window outside, short s v begins a window here, if_neg unreached, prepared,
      if_pos ((needsErase_congr here).mpr needs)]
  refine ⟨around, fun a above less here other => ?_, fun a behind here page => ?_⟩
  · have window : InWindow a := by
      simp only [InWindow, FLASHBASE, FLASHLEN]
      omega
    have unreached : ¬ (v ≤ a ∧ pageStart v a < addr + len ∧ a < pageStart v a + 1) := by
      unfold pageStart at other ⊢
      omega
    have value := short s v begins a window here
    rw [if_neg unreached] at value
    rw [← value, ← range₁ (a - addr) (by omega), Nat.add_sub_cancel' (by omega)]
  · have window : InWindow a := by
      simp only [InWindow, FLASHBASE, FLASHLEN]
      omega
    have reached : v ≤ a ∧ pageStart v a < addr + len ∧ a < pageStart v a + (256 - pageStart v a % 256) := by
      unfold pageStart
      omega
    have nothing : padded len data (a - addr) = 0 := if_neg (by omega)
    have value := long s v begins a window here
    rw [if_pos reached, nothing] at value
    have zero : f.byte a = 0 := by
      rw [← others₂ a window (by omega), value]
      exact BitVec.and_zero
    unfold prepared
    split_ifs with needs
    · have ones := around ((needsErase_congr here).mp needs) a window here (by omega)
      rw [zero] at ones
      exact absurd ones (by decide)
    · exact zero

end

/-- Whatever is behind the buffer and in the variable that hides `len`, a write that succeeds has done what it should:
this is so exactly from a flash in which neither matters. -/
theorem write_meets_iff (f : Nor) (addr len : Nat) (data : Nat → BitVec 8) (verify : Bool) (ready : f.Ready)
    (range : Range addr len) :
    (∀ (inner : Nat → Nat) (memory : Nat → BitVec 8), (∀ i < len, memory i = data i) →
      ∀ f', f.write inner addr len memory verify = some (f', true) → Meets f addr len data f') ↔
      Reliable f addr len data :=
  ⟨Reliable.of_meets range ready, fun reliable _ _ same _ wrote => reliable.meets range ready same wrote⟩

/-- An erased flash that takes three status reads for every command. -/
def blank : Nor where
  mem _ := 0xff
  enabled := false
  busy := 0
  session := []
  latency _ := 3

/-- Only the first byte of the last word of a page has to change. -/
theorem write_meets_blank :
    (∀ (inner : Nat → Nat) (memory : Nat → BitVec 8), (∀ i < 4, memory i = if i = 0 then 0 else 0xff) →
      ∀ f', blank.write inner 0x010000fc 4 memory true = some (f', true) →
        Meets blank 0x010000fc 4 (fun i => if i = 0 then 0 else 0xff) f') ∧
      (blank.write (fun _ => 4) 0x010000fc 4 (fun i => if i = 0 then 0 else 0xff) true).map
        (fun r => (r.1.byte 0x010000fc, r.2)) = some (0, true) := by
  refine ⟨(write_meets_iff blank 0x010000fc 4 (fun i => if i = 0 then 0 else 0xff) true ⟨rfl, rfl⟩
    ⟨by decide, by decide, by decide, by decide, by decide⟩).mpr fun s v begins => ?_, by decide⟩
  have keeps (a : Nat) : ¬ blank.NeedsErase 0x010000fc 4 (fun i => if i = 0 then 0 else 0xff) a := by
    rintro ⟨i, -, -, wrong⟩
    exact wrong (BitVec.allOnes_and (w := 8))
  have low := begins.low
  have below := begins.below
  have aligned := begins.aligned
  refine ⟨fun needs => absurd needs (keeps s), fun a above less _ other => ?_, fun a behind _ page => ?_⟩
  · have later : a - 0x010000fc ≠ 0 := by
      unfold pageStart at other
      omega
    rw [prepared, if_neg (keeps a), if_neg later]
    rfl
  · omega

/-- With 4 in the variable a write of 8 bytes leaves the second word out, and reports success; with the parameter it
does not. -/
theorem write_leaves_word :
    blank.Ready ∧ Range 0x01000000 8 ∧
    (∃ f', blank.write (fun _ => 4) 0x01000000 8 (fun _ => 0) true = some (f', true) ∧ f'.byte 0x01000004 = 0xff ∧
      ¬ Meets blank 0x01000000 8 (fun _ => 0) f') ∧
    ∃ f', blank.write (fun _ => 8) 0x01000000 8 (fun _ => 0) true = some (f', true) ∧ f'.byte 0x01000004 = 0 := by
  have ready : blank.Ready := ⟨rfl, rfl⟩
  have range : Range 0x01000000 8 := ⟨by decide, by decide, by decide, by decide, by decide⟩
  have run : (blank.write (fun _ => 4) 0x01000000 8 (fun _ => 0) true).map (fun r => (r.1.byte 0x01000004, r.2)) =
      some (0xff, true) := by decide
  obtain ⟨⟨f', ok⟩, wrote, value⟩ := Option.map_eq_some_iff.mp run
  obtain ⟨left, rfl⟩ := Prod.mk.inj value
  refine ⟨ready, range, ⟨f', wrote, left, fun meets => ?_⟩, ?_⟩
  · have second := meets.1 4 (by decide)
    rw [left] at second
    exact absurd second (by decide)
  · obtain ⟨f', wrote, data, -⟩ := @write_hidden blank 0x01000000 8 (fun _ => 0) true ready range
    exact ⟨f', wrote, data 4 (by decide)⟩

end IcoZip.Flash.Nor
