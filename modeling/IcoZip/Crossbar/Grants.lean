import IcoZip.Crossbar.Wbxbar
import IcoZip.Library.Clocked
import Mathlib.Order.WellFounded

/-! Who has which slave.

What the crossbar does with a master's grant in a clock is `Outcome`; that both sides of a
grant agree follows from it. None of this depends on how masters and slaves behave.
-/

set_option autoImplicit false

namespace IcoZip.Crossbar

/-! ### Arrays -/

section Arrays
variable {A : Type} {n : Nat}

@[simp] theorem pick_val (f : Fin n → A) (other : A) (k : Fin n) : pick f other k.val = f k := dif_pos k.isLt

theorem merge_single {p : Fin n → Bool} {k : Fin n} (chosen : p k = true) (only : ∀ j, p j = true → j = k) :
    merge p = k.val := by
  have fold (l : List (Fin n)) (index : Nat) (within : index = 0 ∨ index = k.val) :
      l.foldl (fun index j => if p j then index ||| j.val else index) index =
        if k ∈ l then k.val else index := by
    induction l generalizing index with
    | nil => rfl
    | cons j l ih =>
      rw [List.foldl_cons]
      by_cases here : p j = true
      · obtain rfl := only j here
        have joined : index ||| j.val = j.val := by
          rcases within with rfl | rfl
          · exact Nat.zero_or j.val
          · exact Nat.or_self _
        rw [if_pos here, joined, ih _ (.inr rfl), if_pos List.mem_cons_self, ite_self]
      · have other : k ≠ j := fun same => here (same ▸ chosen)
        simp only [if_neg here, ih _ within, List.mem_cons, other, false_or]
  rw [merge, fold _ 0 (.inl rfl), if_pos (List.mem_finRange k)]

end Arrays

/-! ### Addresses -/

namespace Build

variable {ns aw lg : Nat} (b : Build ns aw lg)

/-- The slave that has an address. -/
def target (addr : BitVec aw) : Option (Fin ns) := (List.finRange ns).find? fun k => b.request addr (some k)

/-- A request as a slave sees it. -/
def told {dw : Nat} (q : Busdelay.Request aw dw) : Busdelay.Request aw dw :=
  { q with data := if b.lowpower && !q.we then 0 else q.data }

variable {b} {addr : BitVec aw} {j k : Fin ns}

theorem prerequest_apart (first : b.prerequest addr j = true) (second : b.prerequest addr k = true) :
    (b.slaveAddr j ^^^ b.slaveAddr k) &&& (b.slaveMask j &&& b.slaveMask k) = 0 := by
  have atJ : (addr ^^^ b.slaveAddr j) &&& b.slaveMask j = 0 := eq_of_beq first
  have atK : (addr ^^^ b.slaveAddr k) &&& b.slaveMask k = 0 := eq_of_beq second
  apply BitVec.eq_of_getLsbD_eq
  intro p bound
  have bitJ := congrArg (fun x : BitVec aw => x.getLsbD p) atJ
  have bitK := congrArg (fun x : BitVec aw => x.getLsbD p) atK
  simp only [BitVec.ofNat_eq_ofNat, BitVec.getLsbD_and, BitVec.getLsbD_xor, BitVec.getLsbD_zero] at bitJ bitK ⊢
  revert bitJ bitK
  cases addr.getLsbD p <;> cases (b.slaveAddr j).getLsbD p <;> cases (b.slaveAddr k).getLsbD p <;>
    cases (b.slaveMask j).getLsbD p <;> cases (b.slaveMask k).getLsbD p <;> decide

theorem request_some : b.request addr (some k) = true ↔ b.prerequest addr k = true ∧
    (b.noneSel = false → k.val = 0 → ∀ j : Fin ns, j.val ≠ 0 → b.prerequest addr j = false) := by
  simp only [request]
  by_cases left : b.noneSel = false ∧ k.val = 0
  · obtain ⟨noneSel, first⟩ := left
    simp [noneSel, first]
  · have gate : (!b.noneSel && k.val == 0) = false := by simpa using left
    rw [gate, if_neg Bool.false_ne_true]
    exact ⟨fun asked => ⟨asked, fun noneSel first => absurd ⟨noneSel, first⟩ left⟩, fun asked => asked.1⟩

theorem noneSel_first (first : j.val = 0) (free : b.slaveMask j = 0) : b.noneSel = false := by
  rw [noneSel, bne_eq_false_iff_eq, ← free]
  exact congrArg b.slaveMask (Fin.ext first.symm)

theorem request_lt (before : j < k) (first : b.request addr (some j) = true) :
    b.request addr (some k) = false := by
  rw [← Bool.not_eq_true]
  intro second
  obtain ⟨atJ, alone⟩ := request_some.mp first
  obtain ⟨atK, -⟩ := request_some.mp second
  rcases b.apart j k before with ⟨zero, free⟩ | differ
  · have other : k.val ≠ 0 := Nat.ne_zero_of_lt before
    rw [alone (noneSel_first zero free) zero k other] at atK
    contradiction
  · exact differ (prerequest_apart atJ atK)

theorem request_unique (first : b.request addr (some j) = true) (second : b.request addr (some k) = true) : j = k := by
  rcases lt_trichotomy j k with before | same | behind
  · exact absurd second (by rw [request_lt before first]; decide)
  · exact same
  · exact absurd first (by rw [request_lt behind second]; decide)

/-- An address without a slave is one that no slave is asked for at. -/
theorem request_none : b.request addr none = true ↔ ∀ k, b.request addr (some k) = false := by
  have pos : 0 < ns := Nat.zero_lt_of_lt b.several
  have whole : b.request addr none = true ↔ b.noneSel = true ∧ ∀ k, b.prerequest addr k = false := by
    simp [request]
  rw [whole]
  constructor
  · rintro ⟨-, free⟩ k
    rw [← Bool.not_eq_true, request_some, free k]
    exact fun asked => absurd asked.1 (by decide)
  · intro free
    replace free (k : Fin ns) : ¬b.request addr (some k) = true := by simp [free k]
    simp only [request_some] at free
    cases noneSel : b.noneSel with
    | true =>
      refine ⟨rfl, fun k => ?_⟩
      rw [← Bool.not_eq_true]
      exact fun asked => free k ⟨asked, fun off => absurd (noneSel.symm.trans off) (by decide)⟩
    | false =>
      -- without a mask the first slave takes every address that is left
      have mask : b.slaveMask ⟨0, pos⟩ = 0 := by simpa [Build.noneSel] using noneSel
      have others (k : Fin ns) (other : k.val ≠ 0) : b.prerequest addr k = false := by
        rw [← Bool.not_eq_true]
        exact fun asked => free k ⟨asked, fun _ first => absurd first other⟩
      exact absurd ⟨by simp [prerequest, mask], fun _ _ => others⟩ (free ⟨0, pos⟩)

theorem request_iff {t : Option (Fin ns)} : b.request addr t = true ↔ t = b.target addr := by
  cases found : b.target addr with
  | some k =>
    have asked : b.request addr (some k) = true := @List.find?_some _ (fun k => b.request addr (some k)) _ _ found
    cases t with
    | none =>
      refine ⟨fun free => ?_, fun same => absurd same.symm (Option.some_ne_none k)⟩
      rw [request_none.mp free k] at asked
      contradiction
    | some j =>
      exact ⟨fun other => congrArg some (request_unique other asked), fun same => Option.some.inj same ▸ asked⟩
  | none =>
    have free (k : Fin ns) : b.request addr (some k) = false := by
      simpa using List.find?_eq_none.mp found k (List.mem_finRange k)
    cases t with
    | none => simpa using request_none.mpr free
    | some j => simp [free j]

end Build

/-! ### What holds at any time -/

namespace Wbxbar

variable {nm ns aw dw lg : Nat} (b : Build ns aw lg) (s : Wbxbar nm ns aw dw lg) (i : Inputs nm ns aw dw)

/-- The slave that the request in the decoder is for. -/
def target (m : Fin nm) : Option (Fin ns) := b.target (s.dcd m).req.addr

def asks (m : Fin nm) : Bool := (i.master m).cyc && (s.dcd m).valid

/-- The master may be given another slave. -/
def free (m : Fin nm) : Prop := s.mgrant m = false ∨ s.mempty m = true

/-- Both sides of a grant agree. -/
structure Granted : Prop where
  decoded : ∀ m t, (s.dcd m).decode t = true ↔ (s.dcd m).valid = true ∧ t = s.target b m
  owned : ∀ {m k}, s.grant m (some k) = true → s.sgrant k = true ∧ s.mindex m = k.val ∧ s.sindex k = m.val
  held : ∀ {k}, s.sgrant k = true → ∃ m : Fin nm, s.sindex k = m.val ∧ s.grant m (some k) = true
  granted : ∀ m, s.mgrant m = true ↔ ∃ t, s.grant m t = true
  one : ∀ {m t t'}, s.grant m t = true → s.grant m t' = true → t = t'
  room : ∀ m, s.mfull m = true → s.mgrant m = true ∧ s.mempty m = false
  strobe : ∀ k, s.sstb k = true → s.scyc k = true

theorem granted_powerUp : (powerUp : Wbxbar nm ns aw dw lg).Granted b := by
  constructor <;> simp [powerUp]

variable {b s i} {m : Fin nm} {t : Option (Fin ns)} {k : Fin ns}

theorem Granted.request_iff (granted : s.Granted b) :
    s.request i m t = true ↔ s.asks i m = true ∧ t = s.target b m := by
  simp only [request, asks, Bool.and_eq_true, granted.decoded, and_assoc, and_self_left]

theorem Granted.full_busy (granted : s.Granted b) (free : s.free m) : s.mfull m = false := by
  rw [← Bool.not_eq_true]
  intro full
  obtain ⟨has, busy⟩ := granted.room m full
  rcases free with idle | empty
  · exact absurd (has.symm.trans idle) (by decide)
  · exact absurd (empty.symm.trans busy) (by decide)

theorem mStb_iff : s.mStb i m = true ↔ s.asks i m = true ∧ s.mfull m = false := by simp [mStb, asks]

theorem requested_iff : s.requested i m k = true ↔
    ∃ n < m, s.request i n (some k) = true ∧ (s.grant n (some k) = true ∨ s.free n) := by
  simp [requested, free, and_assoc]

theorem Granted.stay_iff (granted : s.Granted b) : s.stayOnChannel i m = true ↔
    s.asks i m = true ∧ s.grant m (s.target b m) = true ∨ ¬s.free m := by
  have kept : (s.request i m none && s.grant m none ||
      (List.finRange ns).any fun k => s.request i m (some k) && s.grant m (some k)) = true ↔
        s.asks i m = true ∧ s.grant m (s.target b m) = true := by
    simp only [Bool.or_eq_true, Bool.and_eq_true, List.any_eq_true, List.mem_finRange, true_and, granted.request_iff]
    constructor
    · rintro (⟨⟨asks, here⟩, has⟩ | ⟨k, ⟨asks, here⟩, has⟩)
      · exact ⟨asks, here ▸ has⟩
      · exact ⟨asks, here ▸ has⟩
    · rintro ⟨asks, has⟩
      cases here : s.target b m with
      | none => exact .inl ⟨⟨asks, rfl⟩, here ▸ has⟩
      | some k => exact .inr ⟨k, ⟨asks, rfl⟩, here ▸ has⟩
  have busy : (s.mgrant m && !s.mempty m) = true ↔ ¬s.free m := by simp [free]
  rw [stayOnChannel, Bool.or_eq_true, kept, busy]

/-- The slave asked for, or the one that is none, can be had. -/
def Open (b : Build ns aw lg) (s : Wbxbar nm ns aw dw lg) (i : Inputs nm ns aw dw) (m : Fin nm) : Prop :=
  ∀ k, s.target b m = some k → s.sgrant k = false ∧ s.requested i m k = false

theorem Granted.available_iff (granted : s.Granted b) (leaves : s.stayOnChannel i m = false) :
    s.available i m = true ↔ s.asks i m = true ∧ Open b s i m := by
  have free : s.free m ∧ ¬(s.asks i m = true ∧ s.grant m (s.target b m) = true) := by
    have stays := (not_congr (granted.stay_iff (i := i) (m := m))).mp (by simp [leaves])
    exact ⟨not_not.mp fun busy => stays (.inr busy), fun kept => stays (.inl kept)⟩
  rw [available]
  split
  · -- a single master finds every slave free that it does not have
    rename_i single
    have alone (n : Fin nm) : n = m := Fin.ext (by omega)
    simp only [mStb_iff, granted.full_busy free.1, and_true]
    refine ⟨fun asks => ⟨asks, fun k here => ⟨?_, ?_⟩⟩, fun opens => opens.1⟩
    · rw [← Bool.not_eq_true]
      intro taken
      obtain ⟨n, -, has⟩ := granted.held taken
      obtain rfl := alone n
      exact free.2 ⟨asks, here ▸ has⟩
    · rw [← Bool.not_eq_true, requested_iff]
      rintro ⟨n, before, -⟩
      exact absurd (alone n) (ne_of_lt before)
  · simp only [Bool.or_eq_true, List.any_eq_true, List.mem_finRange, true_and, Bool.and_eq_true, granted.request_iff,
      Bool.not_eq_true', Open]
    constructor
    · rintro (⟨asks, here⟩ | ⟨k, ⟨⟨asks, here⟩, unowned⟩, unasked⟩)
      · exact ⟨asks, fun k other => absurd (here.trans other) (Option.some_ne_none k).symm⟩
      · refine ⟨asks, fun j other => ?_⟩
        obtain rfl := Option.some.inj (here.trans other)
        exact ⟨unowned, unasked⟩
    · rintro ⟨asks, opens⟩
      cases here : s.target b m with
      | none => exact .inl ⟨asks, rfl⟩
      | some k => exact .inr ⟨k, ⟨⟨asks, rfl⟩, (opens k here).1⟩, (opens k here).2⟩

/-! ### What a clock does with a grant -/

/-- What becomes of a master's grant: it is lost with its cycle, or to a request for another slave
that cannot be had, it is kept, or the slave asked for is granted. -/
inductive Outcome (b : Build ns aw lg) (s : Wbxbar nm ns aw dw lg) (i : Inputs nm ns aw dw) (m : Fin nm) : Prop where
  | dropped (ends : i.reset = true ∨ (i.master m).cyc = false) (grant : ∀ t, s.nextGrant i m t = false)
      (mgrant : s.nextMgrant i m = false)
  | kept (goes : i.reset = false ∧ (i.master m).cyc = true)
      (stays : s.asks i m = false ∨ s.grant m (s.target b m) = true ∨ ¬s.free m)
      (grant : ∀ t, s.nextGrant i m t = s.grant m t) (mgrant : s.nextMgrant i m = s.mgrant m)
  | lost (goes : i.reset = false ∧ (i.master m).cyc = true) (asks : s.asks i m = true) (free : s.free m)
      (other : s.grant m (s.target b m) = false) (shut : ¬Open b s i m) (grant : ∀ t, s.nextGrant i m t = false)
      (mgrant : s.nextMgrant i m = false)
  | opened (goes : i.reset = false ∧ (i.master m).cyc = true) (asks : s.asks i m = true) (free : s.free m)
      (other : s.grant m (s.target b m) = false) (opens : Open b s i m)
      (grant : ∀ t, s.nextGrant i m t = true ↔ t = s.target b m) (mgrant : s.nextMgrant i m = true)

theorem Granted.outcome (granted : s.Granted b) (m : Fin nm) : Outcome b s i m := by
  cases ends : i.reset || !(i.master m).cyc with
  | true =>
    refine .dropped (by simpa using ends) (fun t => ?_) ?_
    · rw [nextGrant, ends, if_pos rfl]
    · rw [nextMgrant, ends, if_pos rfl]
  | false =>
    have goes : i.reset = false ∧ (i.master m).cyc = true := by simpa using ends
    cases stays : s.stayOnChannel i m with
    | true =>
      refine .kept goes ?_ (fun t => by simp [nextGrant, ends, stays]) (by simp [nextMgrant, ends, stays])
      rcases granted.stay_iff.mp stays with ⟨-, has⟩ | busy
      · exact .inr (.inl has)
      · exact .inr (.inr busy)
    | false =>
      have leaves := (not_congr (granted.stay_iff (i := i) (m := m))).mp (by simp [stays])
      have free : s.free m := not_not.mp fun busy => leaves (.inr busy)
      have full := granted.full_busy free
      cases available : s.available i m with
      | true =>
        obtain ⟨asks, opens⟩ := (granted.available_iff stays).mp available
        have other : s.grant m (s.target b m) = false := by
          rw [← Bool.not_eq_true]
          exact fun has => leaves (.inl ⟨asks, has⟩)
        refine .opened goes asks free other opens (fun t => ?_) (by simp [nextMgrant, ends, stays, available])
        simp only [nextGrant, ends, stays, available, if_true, if_false, Bool.false_eq_true, granted.request_iff, asks,
          true_and]
      | false =>
        cases asks : s.asks i m with
        | true =>
          have stb : s.mStb i m = true := mStb_iff.mpr ⟨asks, full⟩
          have other : s.grant m (s.target b m) = false := by
            rw [← Bool.not_eq_true]
            exact fun has => leaves (.inl ⟨asks, has⟩)
          have shut : ¬Open b s i m := fun opens => by
            rw [(granted.available_iff stays).mpr ⟨asks, opens⟩] at available
            contradiction
          exact .lost goes asks free other shut (fun t => by simp [nextGrant, ends, stays, available, stb])
            (by simp [nextMgrant, ends, stays, available, stb])
        | false =>
          have stb : s.mStb i m = false := by
            rw [← Bool.not_eq_true, mStb_iff, asks]
            exact fun both => absurd both.1 (by decide)
          exact .kept goes (.inl asks) (fun t => by simp [nextGrant, ends, stays, available, stb])
            (by simp [nextMgrant, ends, stays, available, stb])

theorem Granted.regrant_iff (granted : s.Granted b) : s.regrant i m (some k) = true ↔
    (s.grant m (some k) = true ∨ s.sgrant k = false ∧ s.requested i m k = false) ∧
      s.asks i m = true ∧ some k = s.target b m ∧ s.free m := by
  have free : (!(s.mgrant m && !s.mempty m)) = true ↔ s.free m := by simp [Wbxbar.free]
  simp only [regrant, Bool.and_eq_true, Bool.or_eq_true, Bool.not_eq_true', granted.request_iff, and_assoc] at free ⊢
  rw [free]

/-- A slave that is granted has the index of its master for as long as it is. -/
theorem Granted.resindex_held (granted : s.Granted b) (taken : s.sgrant k = true) : s.resindex i k = s.sindex k := by
  obtain ⟨m, index, has⟩ := granted.held taken
  have only (n : Fin nm) (again : s.regrant i n (some k) = true) : n = m := by
    rcases (granted.regrant_iff.mp again).1 with also | ⟨unowned, -⟩
    · exact Fin.ext ((granted.owned also).2.2.symm.trans index)
    · rw [taken] at unowned
      contradiction
  rw [resindex]
  split
  · omega
  · split
    · rfl
    · rename_i some
      simp only [List.all_eq_true, List.mem_finRange, true_implies, Bool.not_eq_true', not_forall,
        Bool.not_eq_false] at some
      obtain ⟨n, again⟩ := some
      obtain rfl := only n again
      rw [merge_single again only, index]

/-- A slave that is not granted yet gets the index of the first master that asks for it. -/
theorem Granted.resindex_opened (granted : s.Granted b) (unowned : s.sgrant k = false) (asks : s.asks i m = true)
    (here : some k = s.target b m) (free : s.free m) (unasked : s.requested i m k = false) :
    s.resindex i k = m.val := by
  have again : s.regrant i m (some k) = true := granted.regrant_iff.mpr ⟨.inr ⟨unowned, unasked⟩, asks, here, free⟩
  have only (n : Fin nm) (other : s.regrant i n (some k) = true) : n = m := by
    obtain ⟨first, asks', here', free'⟩ := granted.regrant_iff.mp other
    have unasked' : s.requested i n k = false := by
      rcases first with also | also
      · exact absurd (granted.owned also).1 (by simp [unowned])
      · exact also.2
    rcases lt_trichotomy n m with before | same | behind
    · have before := requested_iff.mpr ⟨n, before, granted.request_iff.mpr ⟨asks', here'⟩, .inr free'⟩
      exact absurd (before.symm.trans unasked) (by decide)
    · exact same
    · have before := requested_iff.mpr ⟨m, behind, granted.request_iff.mpr ⟨asks, here⟩, .inr free⟩
      exact absurd (before.symm.trans unasked') (by decide)
  rw [resindex]
  split
  · omega
  · rw [if_neg, merge_single again only]
    intro all
    have none := List.all_eq_true.mp all m (List.mem_finRange m)
    rw [again] at none
    contradiction

theorem Granted.owner_eq {A : Type} {f : Fin nm → A} {other : A} (index : s.sindex k = m.val) :
    s.owner k f other = f m := by rw [owner, index, pick_val]

/-- A slave is granted for as long as its master has it. -/
theorem Granted.sgrant_held (granted : s.Granted b) (has : s.grant m (some k) = true) :
    s.nextSgrant i k = s.nextGrant i m (some k) := by
  obtain ⟨taken, -, index⟩ := granted.owned has
  -- `dropSgrant` reads the request lines of the owner; said in terms of what the master asks.
  have drops : s.dropSgrant i k = true ↔ i.reset = true ∨ (i.master m).cyc = false ∨
      (s.asks i m = true ∧ s.target b m ≠ some k) ∧ s.mempty m = true := by
    have other : s.request i m (some k) = false ∧ s.mStb i m = true ∧ s.mempty m = true ↔
        (s.asks i m = true ∧ s.target b m ≠ some k) ∧ s.mempty m = true := by
      rw [← Bool.not_eq_true, granted.request_iff, mStb_iff, ne_comm]
      constructor
      · rintro ⟨away, ⟨asks, -⟩, empty⟩
        exact ⟨⟨asks, fun here => away ⟨asks, here⟩⟩, empty⟩
      · rintro ⟨⟨asks, away⟩, empty⟩
        exact ⟨fun here => away here.2, ⟨asks, granted.full_busy (.inr empty)⟩, empty⟩
    simp only [dropSgrant, taken, Bool.not_true, Bool.false_eq_true, if_false, Granted.owner_eq index]
    cases i.reset with
    | true => simp
    | false =>
      simp only [Bool.false_eq_true, if_false, false_or, Bool.or_eq_true, Bool.and_eq_true, Bool.not_eq_true',
        and_assoc]
      rw [and_assoc] at other
      exact or_congr_right other
  have next : s.nextSgrant i k = !s.dropSgrant i k := by
    simp only [nextSgrant, taken, ite_self]
    cases s.dropSgrant i k <;> rfl
  have mgrant : s.mgrant m = true := (granted.granted m).mpr ⟨_, has⟩
  have empty (free : s.free m) : s.mempty m = true := free.resolve_left (by simp [mgrant])
  rw [next]
  -- One case for each way in which the grant of the master can change.
  cases granted.outcome (i := i) m with
  | dropped ends grant =>
    rw [grant, drops.mpr (ends.imp_right .inl)]
    rfl
  | kept goes stays grant =>
    rw [grant, has, Bool.not_eq_true', ← Bool.not_eq_true, drops]
    rintro (reset | cyc | ⟨⟨asks, away⟩, empty⟩)
    · exact absurd (reset.symm.trans goes.1) (by decide)
    · exact absurd (cyc.symm.trans goes.2) (by decide)
    · rcases stays with idle | kept | busy
      · exact absurd (asks.symm.trans idle) (by decide)
      · exact away (granted.one kept has)
      · exact busy (.inr empty)
  | lost _ asks free other _ grant =>
    have away : s.target b m ≠ some k := fun here => by rw [here, has] at other; contradiction
    rw [grant, drops.mpr (.inr (.inr ⟨⟨asks, away⟩, empty free⟩))]
    rfl
  | opened _ asks free other opens grant =>
    have away : s.target b m ≠ some k := fun here => by rw [here, has] at other; contradiction
    have off : s.nextGrant i m (some k) = false := by
      rw [← Bool.not_eq_true, grant]
      exact fun here => away here.symm
    rw [off, drops.mpr (.inr (.inr ⟨⟨asks, away⟩, empty free⟩))]
    rfl

theorem Granted.sgrant_open (granted : s.Granted b) (unowned : s.sgrant k = false) : s.nextSgrant i k = true ↔
    i.reset = false ∧ ∃ m, (s.asks i m = true ∧ some k = s.target b m) ∧ s.free m := by
  have any : ((List.finRange nm).any fun m => s.request i m (some k) && (!s.mgrant m || s.mempty m)) = true ↔
      ∃ m, (s.asks i m = true ∧ some k = s.target b m) ∧ s.free m := by
    simp only [List.any_eq_true, List.mem_finRange, true_and, Bool.and_eq_true, granted.request_iff, Bool.or_eq_true,
      Bool.not_eq_true', free]
  cases reset : i.reset with
  | true => simp [nextSgrant, dropSgrant, reset]
  | false =>
    have stays : s.dropSgrant i k = false := by simp [dropSgrant, reset, unowned]
    rw [nextSgrant, stays, if_neg Bool.false_ne_true, unowned, ← any]
    simp

/-- A slave that is opened is opened for the first of the masters that ask for it. -/
theorem Granted.opens_first (granted : s.Granted b) (unowned : s.sgrant k = false) (next : s.nextSgrant i k = true) :
    ∃ m : Fin nm, s.resindex i k = m.val ∧ s.nextGrant i m (some k) = true := by
  obtain ⟨reset, asked⟩ := (granted.sgrant_open unowned).mp next
  obtain ⟨m, ⟨⟨asks, here⟩, free⟩, least⟩ :=
    wellFounded_lt.has_min {m : Fin nm | (s.asks i m = true ∧ some k = s.target b m) ∧ s.free m} asked
  have unasked : s.requested i m k = false := by
    rw [← Bool.not_eq_true, requested_iff]
    rintro ⟨n, before, asked, also | also⟩
    · exact absurd (granted.owned also).1 (by simp [unowned])
    · exact least n ⟨granted.request_iff.mp asked, also⟩ before
  refine ⟨m, granted.resindex_opened unowned asks here free unasked, ?_⟩
  cases granted.outcome (i := i) m with
  | dropped ends =>
    rcases ends with again | cyc
    · exact absurd (again.symm.trans reset) (by decide)
    · simp [Wbxbar.asks, cyc] at asks
  | kept _ stays =>
    rcases stays with idle | kept | busy
    · exact absurd (asks.symm.trans idle) (by decide)
    · exact absurd (granted.owned (here ▸ kept)).1 (by simp [unowned])
    · exact absurd free busy
  | lost _ _ _ _ shut =>
    refine absurd (fun j other => ?_) shut
    obtain rfl := Option.some.inj (here.trans other)
    exact ⟨unowned, unasked⟩
  | opened _ _ _ _ _ grant => exact (grant _).mpr here

theorem Granted.given (granted : s.Granted b) (next : s.nextGrant i m (some k) = true) :
    s.nextSgrant i k = true ∧ s.resindex i k = m.val := by
  cases granted.outcome (i := i) m with
  | dropped _ grant => exact absurd ((grant _).symm.trans next) (by decide)
  | lost _ _ _ _ _ grant => exact absurd ((grant _).symm.trans next) (by decide)
  | kept _ _ grant =>
    have has : s.grant m (some k) = true := (grant _).symm.trans next
    obtain ⟨taken, -, index⟩ := granted.owned has
    exact ⟨(granted.sgrant_held has).trans next, (granted.resindex_held taken).trans index⟩
  | opened goes asks free _ opens grant =>
    have here := (grant _).mp next
    obtain ⟨unowned, unasked⟩ := opens k here.symm
    exact ⟨(granted.sgrant_open unowned).mpr ⟨goes.1, m, ⟨asks, here⟩, free⟩,
      granted.resindex_opened unowned asks here free unasked⟩

/-- The index of the slave that a master has been given. -/
theorem Granted.reindex_eq (granted : s.Granted b) (next : s.nextGrant i m (some k) = true) :
    s.reindex i m = k.val := by
  have settle (only : ∀ j, s.regrant i m (some j) = true → j = k) (none : s.regrant i m none = false)
      (index : s.regrant i m (some k) = true ∨ s.mindex m = k.val) : s.reindex i m = k.val := by
    rw [reindex, none]
    cases again : s.regrant i m (some k) with
    | true =>
      rw [if_neg, merge_single again only, if_neg Bool.false_ne_true, Nat.or_zero]
      simp only [Bool.not_false, Bool.true_and, List.all_eq_true, List.mem_finRange, true_implies, not_forall]
      exact ⟨k, by simp [again]⟩
    | false =>
      rw [if_pos]
      · exact index.resolve_left (by simp [again])
      · simp only [Bool.not_false, Bool.true_and, List.all_eq_true, List.mem_finRange, true_implies, Bool.not_eq_true']
        intro j
        rw [← Bool.not_eq_true]
        intro chosen
        rw [only j chosen, again] at chosen
        contradiction
  cases granted.outcome (i := i) m with
  | dropped _ grant => exact absurd ((grant _).symm.trans next) (by decide)
  | lost _ _ _ _ _ grant => exact absurd ((grant _).symm.trans next) (by decide)
  | kept _ stays grant =>
    have has : s.grant m (some k) = true := (grant _).symm.trans next
    refine settle (fun j chosen => ?_) ?_ (.inr (granted.owned has).2.1)
    · obtain ⟨-, asks, here, free⟩ := granted.regrant_iff.mp chosen
      rcases stays with idle | kept | busy
      · exact absurd (asks.symm.trans idle) (by decide)
      · exact Option.some.inj (here.trans (granted.one kept has))
      · exact absurd free busy
    · have other : s.grant m none = false := by
        rw [← Bool.not_eq_true]
        exact fun also => absurd (granted.one also has).symm (Option.some_ne_none k)
      simp [regrant, other]
  | opened _ asks free other opens grant =>
    have here := (grant _).mp next
    obtain ⟨unowned, unasked⟩ := opens k here.symm
    refine settle (fun j chosen => ?_) ?_ (.inl (granted.regrant_iff.mpr ⟨.inr ⟨unowned, unasked⟩, asks, here, free⟩))
    · exact Option.some.inj ((granted.regrant_iff.mp chosen).2.2.1.trans here.symm)
    · have away : s.request i m none = false := by
        rw [← Bool.not_eq_true, granted.request_iff, ← here]
        exact fun also => absurd also.2.symm (Option.some_ne_none k)
      simp [regrant, away]

theorem Granted.requestIndexed (granted : s.Granted b) (has : s.grant m (some k) = true) :
    s.requestIndexed i m = s.request i m (some k) := by
  have index := (granted.owned has).2.1
  rw [Wbxbar.requestIndexed, index, if_neg (Nat.ne_of_lt k.isLt), pick_val]

theorem Granted.mStall_held (granted : s.Granted b) (has : s.grant m (some k) = true) (quiet : s.merr m = false) :
    s.mStall i m = if s.request i m (some k) then s.mfull m || s.sStall i k else s.mStb i m := by
  have other : s.grant m none = false := by
    rw [← Bool.not_eq_true]
    exact fun also => absurd (granted.one also has).symm (Option.some_ne_none k)
  rw [mStall, quiet, if_neg Bool.false_ne_true, other, if_neg Bool.false_ne_true, granted.requestIndexed has,
    (granted.granted m).mpr ⟨_, has⟩, Bool.true_and, (granted.owned has).2.1, pick_val]

/-- A request goes on to the slave that its master has. -/
theorem Granted.handsOn_iff (granted : s.Granted b) (quiet : s.merr m = false) : s.handsOn i m = true ↔
    (s.asks i m = true ∧ s.mfull m = false) ∧
      ∃ k, s.target b m = some k ∧ s.grant m (some k) = true ∧ s.sStall i k = false := by
  rw [handsOn, Bool.and_eq_true, mStb_iff, Bool.not_eq_true']
  refine and_congr_right fun ⟨asks, full⟩ => ?_
  have stb : s.mStb i m = true := mStb_iff.mpr ⟨asks, full⟩
  constructor
  · intro goes
    cases mgrant : s.mgrant m with
    | false =>
      have idle (t : Option (Fin ns)) : s.grant m t = false := by
        rw [← Bool.not_eq_true]
        exact fun has => absurd (mgrant.symm.trans ((granted.granted m).mpr ⟨t, has⟩)) (by decide)
      simp [mStall, quiet, idle, mgrant, stb] at goes
    | true =>
      obtain ⟨t, has⟩ := (granted.granted m).mp mgrant
      cases t with
      | none => simp [mStall, quiet, has] at goes
      | some k =>
        rw [granted.mStall_held has quiet] at goes
        cases request : s.request i m (some k) with
        | false => simp [request, stb] at goes
        | true =>
          simp only [request, if_true, full, Bool.false_or] at goes
          exact ⟨k, (granted.request_iff.mp request).2.symm, has, goes⟩
  · rintro ⟨k, here, has, ready⟩
    rw [granted.mStall_held has quiet, granted.request_iff.mpr ⟨asks, here.symm⟩, if_pos rfl, full, ready]
    rfl

/-- A counter that is full is that of a master with a slave. -/
theorem Granted.full_next (granted : s.Granted b) (full : (s.clock b i).mfull m = true) :
    (s.clock b i).mgrant m = true ∧ (s.clock b i).mempty m = false := by
  simp only [clock] at full ⊢
  have goes : s.clears i m = false := by
    rw [← Bool.not_eq_true]
    intro clears
    simp [clears] at full
  obtain ⟨⟨reset, cyc⟩, quiet⟩ : (i.reset = false ∧ (i.master m).cyc = true) ∧ s.merr m = false := by
    simpa [clears] using goes
  -- the grant stays where the counter was full, and where it takes in a request
  have stays (busy : s.handsOn i m = true ∨ ¬s.free m) (has : s.mgrant m = true) : s.nextMgrant i m = true := by
    cases granted.outcome (i := i) m with
    | dropped ends => simp [reset, cyc] at ends
    | kept _ _ _ mgrant => exact mgrant.trans has
    | opened _ _ _ _ _ _ mgrant => exact mgrant
    | lost _ asks free other =>
      rcases busy with on | busy
      · obtain ⟨-, k, here, has, -⟩ := (granted.handsOn_iff quiet).mp on
        rw [here, has] at other
        contradiction
      · exact absurd free busy
  simp only [goes, Bool.false_eq_true, if_false] at full ⊢
  cases on : s.handsOn i m with
  | true =>
    obtain ⟨-, k, -, has, -⟩ := (granted.handsOn_iff quiet).mp on
    refine ⟨stays (.inl on) ((granted.granted m).mpr ⟨_, has⟩), ?_⟩
    cases ack : s.mack m with
    | false => simp
    | true =>
      rw [on, ack] at full
      simpa using (granted.room m (by simpa using full)).2
  | false =>
    rw [on] at full
    cases ack : s.mack m with
    | true => simp [ack] at full
    | false =>
      obtain ⟨has, busy⟩ := granted.room m (by simpa [ack] using full)
      refine ⟨stays (.inr fun free => ?_) has, by simpa using busy⟩
      rcases free with idle | empty
      · exact absurd (has.symm.trans idle) (by decide)
      · exact absurd (empty.symm.trans busy) (by decide)

/-- Both sides of a grant agree in every clock, whatever masters and slaves do. -/
theorem Granted.kept (granted : s.Granted b) : (s.clock b i).Granted b where
  decoded m t := by
    simp only [clock, target, Addrdecode.clock, Addrdecode.stall]
    cases i.reset with
    | true => simp
    | false =>
      cases ready : !(s.dcd m).valid || !(s.mStall i m && (i.master m).cyc) with
      | true =>
        have goes : (!((s.dcd m).valid && (s.mStall i m && (i.master m).cyc))) = true := by simpa using ready
        simp only [goes, if_true, Bool.false_eq_true, if_false, Bool.and_eq_true, Build.request_iff]
      | false =>
        have waits : (!((s.dcd m).valid && (s.mStall i m && (i.master m).cyc))) = false := by simpa using ready
        simp only [waits, if_false, Bool.false_eq_true]
        exact granted.decoded m t
  owned {m k} next := ⟨(granted.given next).1, granted.reindex_eq next, (granted.given next).2⟩
  held {k} next := by
    have next : s.nextSgrant i k = true := next
    cases taken : s.sgrant k with
    | true =>
      obtain ⟨m, index, has⟩ := granted.held taken
      exact ⟨m, (granted.resindex_held taken).trans index, (granted.sgrant_held has).symm.trans next⟩
    | false => exact granted.opens_first taken next
  granted m := by
    simp only [clock]
    cases granted.outcome (i := i) m with
    | dropped _ grant mgrant => simp [grant, mgrant]
    | lost _ _ _ _ _ grant mgrant => simp [grant, mgrant]
    | kept _ _ grant mgrant => simpa [grant, mgrant] using granted.granted m
    | opened _ _ _ _ _ grant mgrant => simp [grant, mgrant]
  one {m t t'} first second := by
    have first : s.nextGrant i m t = true := first
    have second : s.nextGrant i m t' = true := second
    cases granted.outcome (i := i) m with
    | dropped _ grant => exact absurd ((grant _).symm.trans first) (by decide)
    | lost _ _ _ _ _ grant => exact absurd ((grant _).symm.trans first) (by decide)
    | kept _ _ grant => exact granted.one ((grant _).symm.trans first) ((grant _).symm.trans second)
    | opened _ _ _ _ _ grant => exact ((grant _).mp first).trans ((grant _).mp second).symm
  room m := granted.full_next
  strobe k strobe := by
    simp only [clock, nextSstb, nextScyc] at strobe ⊢
    split at strobe
    · contradiction
    · rename_i goes
      rw [if_neg goes]
      split at strobe
      · assumption
      · contradiction

/-! ### Runs -/

/-- What the crossbar never mixes, in one clock. -/
structure Exclusive (b : Build ns aw lg) (s : Wbxbar nm ns aw dw lg) (i : Inputs nm ns aw dw) : Prop where
  /-- A slave is granted to one master, and a master has one slave. -/
  oneMaster : ∀ {m n k}, s.grant m (some k) = true → s.grant n (some k) = true → m = n
  oneSlave : ∀ {m t t'}, s.grant m t = true → s.grant m t' = true → t = t'
  /-- Between two masters the slave's cycle line is low. -/
  separate : ∀ {k}, s.scyc k = true → (s.clock b i).scyc k = true → (s.clock b i).sindex k = s.sindex k
  /-- A strobe is one that the slave has not accepted yet, or the request of the slave's master, for an address of
  this slave. -/
  asked : ∀ {k}, (s.clock b i).sstb k = true → (s.clock b i).scyc k = true ∧
    ((s.sstb k = true ∧ (i.slave k).stall = true ∧ (s.clock b i).sreq k = s.sreq k) ∨
      ∃ m, s.grant m (some k) = true ∧ s.asks i m = true ∧ s.target b m = some k ∧
        (s.clock b i).sreq k = b.told (s.dcd m).req)
  /-- A master hears what the slave that it has been given acknowledges. -/
  heard : ∀ {m}, (s.clock b i).mack m = true → ∃ k, s.grant m (some k) = true ∧ s.sAck i k = true ∧
    (s.clock b i).mdata m = (i.slave k).data

theorem Granted.unmixed (granted : s.Granted b) : Exclusive b s i where
  oneMaster first second := Fin.ext ((granted.owned first).2.2.symm.trans (granted.owned second).2.2)
  oneSlave := granted.one
  separate {k} _ next := by
    have taken : s.sgrant k = true := by
      simp only [clock, nextScyc] at next
      split at next
      · contradiction
      · exact (Bool.and_eq_true_iff.mp next).1
    exact granted.resindex_held taken
  asked {k} next := by
    refine ⟨granted.kept.strobe k next, ?_⟩
    simp only [clock, nextSstb] at next ⊢
    split at next
    · contradiction
    · split at next
      · rename_i open_
        obtain ⟨taken, -⟩ := Bool.and_eq_true_iff.mp open_
        obtain ⟨m, index, has⟩ := granted.held taken
        have gate : (b.lowpower && !s.sgrant k) = false := by simp [taken]
        rw [Granted.owner_eq index] at next
        split at next
        · -- The slave is free for another request: its owner's, if it asks for this slave.
          rename_i ready
          have accepts : s.sStall i k = false := by
            rw [Bool.or_eq_true, Bool.not_eq_true', Bool.not_eq_true'] at ready
            rcases ready with off | ready
            · simp [sStall, off]
            · exact ready
          obtain ⟨asks, here⟩ := granted.request_iff.mp (Bool.and_eq_true_iff.mp next).1
          refine .inr ⟨m, has, asks, here.symm, ?_⟩
          simp only [nextSreq, gate, Bool.false_eq_true, if_false, accepts, Bool.not_false, if_true,
            Granted.owner_eq index]
          rfl
        · -- The slave has not taken its request yet, which stays.
          rename_i waits
          have stalls : s.sStall i k = true := by simpa [next] using waits
          have stall : (i.slave k).stall = true := (Bool.and_eq_true_iff.mp stalls).2
          refine .inl ⟨next, stall, ?_⟩
          simp [nextSreq, gate, stalls]
      · contradiction
  heard {m} next := by
    simp only [clock, nextMack] at next ⊢
    split at next
    · contradiction
    · split at next
      · contradiction
      · rename_i other
        obtain ⟨has, ack⟩ := Bool.and_eq_true_iff.mp next
        obtain ⟨t, granted'⟩ := (granted.granted m).mp has
        cases t with
        | none => exact absurd granted' other
        | some k =>
          have index := (granted.owned granted').2.1
          rw [index, pick_val] at ack
          refine ⟨k, granted', ack, ?_⟩
          simp only [nextMdata, has, Bool.not_true, Bool.and_false, Bool.false_eq_true, if_false, index, pick_val]

/-- No run mixes two masters, whatever masters and slaves do. -/
theorem exclusive (b : Build ns aw lg) (is : List (Inputs nm ns aw dw)) :
    Clocked.Always (clock b) (Exclusive b) powerUp is := by
  have free : Clocked.Always (clock b) (fun _ _ => True) powerUp is :=
    Clocked.always_of_forall (fun _ _ => trivial) _ is
  have always := free.with_invariant (fun _ _ granted _ => granted.kept) (granted_powerUp b)
  exact always.mono fun _ _ clock => clock.1.unmixed

end Wbxbar

end IcoZip.Crossbar
