import IcoZip.Hexbus.Reception

/-! What an error reply does to the host.

`readidle` throws before it has taken the character behind the reply, so the
reply stays the current token and every further token throws again. A write
whose error is on its way can therefore not return.
-/

set_option autoImplicit false

namespace IcoZip.Hexbus

namespace Outcome
variable {σ τ α β : Type} {o : Outcome σ α} {returns : α → σ → Prop} {throws : σ → Prop}

/-- What holds if a call returns, and what holds if it throws. -/
def Ends (o : Outcome σ α) (returns : α → σ → Prop) (throws : σ → Prop) : Prop :=
  match o with
  | .ok value s => returns value s
  | .buserr _ s => throws s
  | .lost => True

theorem Ends.andThen (ends : o.Ends returns throws) {next : α → σ → Outcome σ β} {returns' : β → σ → Prop}
    (continues : ∀ value s, returns value s → (next value s).Ends returns' throws) :
    (o.andThen next).Ends returns' throws := by
  cases o with
  | ok value s => exact continues value s ends
  | buserr addr s => exact ends
  | lost => trivial

/-- What does not return never gets to what follows. -/
theorem Ends.never (ends : o.Ends (fun _ _ => False) throws) (next : α → σ → Outcome σ β) :
    (o.andThen next).Ends (fun _ _ => False) throws :=
  ends.andThen fun _ _ returned => returned.elim

theorem Ends.mapState {f : σ → τ} {returns' : α → τ → Prop} {throws' : τ → Prop}
    (ends : o.Ends (fun value s => returns' value (f s)) fun s => throws' (f s)) :
    (o.mapState f).Ends returns' throws' := by
  cases o <;> exact ends

theorem Ends.rethrow (ends : o.Ends returns throws) (addr : BitVec 32) : (o.rethrow addr).Ends returns throws := by
  cases o <;> exact ends

theorem Ends.imp (ends : o.Ends returns throws) {returns' : α → σ → Prop} {throws' : σ → Prop}
    (returned : ∀ value s, returns value s → returns' value s) (thrown : ∀ s, throws s → throws' s) :
    o.Ends returns' throws' := by
  cases o with
  | ok value s => exact returned value s ends
  | buserr addr s => exact thrown s ends
  | lost => trivial

end Outcome

/-- The current token is an error reply. -/
def Host.Erring (h : Host) : Prop := h.cmd = HEXB_ERR ∧ h.isspace = false

/-- The current token is an acknowledgement, and counts when the next one begins. -/
def Host.pendingAck (h : Host) : Nat := if h.cmd = HEXB_ACK ∧ h.isspace = false then 1 else 0

/-- The acknowledgements before the first error reply. -/
def acksAhead : Incoming → Nat
  | [] => 0
  | (char, _) :: text => if char = HEXB_ERR then 0 else (if char = HEXB_ACK then 1 else 0) + acksAhead text

theorem acksAhead_error (text : Incoming) (late : Bool) (more : Incoming) :
    acksAhead (text ++ (HEXB_ERR, late) :: more) = acksAhead text := by
  induction text with
  | nil => simp [acksAhead]
  | cons x text ih => simp only [List.cons_append, acksAhead, ih]

theorem acksAhead_append {text : Incoming} (error : HEXB_ERR ∈ text.map Prod.fst) (more : Incoming) :
    acksAhead (text ++ more) = acksAhead text := by
  induction text with
  | nil => simp at error
  | cons x text ih =>
    simp only [List.cons_append, acksAhead]
    split_ifs with first
    · rfl
    · rw [ih (by simpa [Ne.symm first] using error)]
    · rw [ih (by simpa [Ne.symm first] using error)]

/-- Digits, spaces and address replies hold no acknowledgement. -/
theorem acksAhead_skip {pre : Incoming} (other : ∀ x ∈ pre, x.1 ≠ HEXB_ERR ∧ x.1 ≠ HEXB_ACK) (text : Incoming) :
    acksAhead (pre ++ text) = acksAhead text := by
  induction pre with
  | nil => rfl
  | cons x pre ih =>
    obtain ⟨noError, noAck⟩ := other x (by simp)
    rw [List.cons_append, acksAhead, if_neg noError, if_neg noAck, Nat.zero_add,
      ih fun y member => other y (by simp [member])]

/-- Fewer than `total` acknowledgements come before an error reply. -/
def Doomed (total : Nat) (h : Host) (text : Incoming) : Prop :=
  h.Erring ∧ h.nacks.toNat < total ∨
    HEXB_ERR ∈ text.map Prod.fst ∧ h.nacks.toNat + h.pendingAck + acksAhead text < total

section
variable {total : Nat} {h : Host} {text : Incoming} {char : BitVec 8}

theorem Doomed.fewer (doomed : Doomed total h text) : h.nacks.toNat < total := by
  rcases doomed with ⟨-, fewer⟩ | ⟨-, fewer⟩ <;> omega

theorem Doomed.append (doomed : Doomed total h text) (more : Incoming) : Doomed total h (text ++ more) := by
  rcases doomed with erring | ⟨error, fewer⟩
  · exact .inl erring
  · refine .inr ⟨by simp [List.map_append, error], ?_⟩
    rwa [acksAhead_append error]

theorem Doomed.mono (doomed : Doomed total h text) {more : Nat} (le : total ≤ more) : Doomed more h text := by
  rcases doomed with ⟨erring, fewer⟩ | ⟨error, fewer⟩
  · exact .inl ⟨erring, by omega⟩
  · exact .inr ⟨error, by omega⟩

/-- The current token has taken effect and the next character is taken. -/
theorem doomed_token (late : Bool) (error : HEXB_ERR ∈ char :: text.map Prod.fst)
    (fewer : h.nacks.toNat + acksAhead ((char, late) :: text) < total) : Doomed total (h.token char) text := by
  simp only [acksAhead] at fewer
  rw [Host.token]
  by_cases space : isspace char = true
  · have noError : char ≠ HEXB_ERR := by rintro rfl; simp [isspace, HEXB_ERR] at space
    have noAck : char ≠ HEXB_ACK := by rintro rfl; simp [isspace, HEXB_ACK] at space
    rw [if_neg noError, if_neg noAck] at fewer
    rw [if_pos space]
    exact .inr ⟨by simpa [noError.symm] using error, by simpa [Host.pendingAck] using fewer⟩
  · rw [if_neg space]
    by_cases ends : char = HEXB_ERR
    · exact .inl ⟨⟨ends, rfl⟩, by simp only; omega⟩
    · rw [if_neg ends] at fewer
      refine .inr ⟨by simpa [Ne.symm ends] using error, ?_⟩
      simpa [Host.pendingAck, Nat.add_assoc] using fewer

/-- One character of a doomed text: it is passed, or the error throws. -/
theorem readidleChar_doomed {late : Bool} (small : total ≤ 2 ^ 32) (doomed : Doomed total h ((char, late) :: text))
    (word : BitVec 32) :
    (∃ h' word', readidleChar h word char = .more h' word' ∧ Doomed total h' text) ∨
      ∃ h' addr, readidleChar h word char = .throw h' addr ∧ h'.Erring := by
  by_cases digit : (isdigit char || islower char) = true
  · refine .inl ⟨h, shiftDigit word char, by rw [readidleChar, if_pos digit], ?_⟩
    have noError : char ≠ HEXB_ERR := by rintro rfl; simp [isdigit, islower, HEXB_ERR] at digit
    have noAck : char ≠ HEXB_ACK := by rintro rfl; simp [isdigit, islower, HEXB_ACK] at digit
    rcases doomed with erring | ⟨error, fewer⟩
    · exact .inl erring
    · refine .inr ⟨by simpa [noError.symm] using error, ?_⟩
      simpa [acksAhead, noError, noAck] using fewer
  -- `readidle` throws here before it takes the character, and stays as it is
  by_cases erring : h.Erring
  · obtain ⟨pending, open_⟩ := erring
    refine .inr ⟨{ h with busErr := true }, h.lastaddr, ?_, pending, open_⟩
    simp [readidleChar, digit, open_, pending, HEXB_ADDR, HEXB_READ, HEXB_INT, HEXB_ACK, HEXB_ERR]
  obtain ⟨error, fewer⟩ := doomed.resolve_left fun now => erring now.1
  have passes (g : Host) (count : g.nacks.toNat ≤ h.nacks.toNat + h.pendingAck) : Doomed total (g.token char) text :=
    doomed_token late error (by omega)
  left
  cases spaced : h.isspace with
  | true =>
    by_cases space : isspace char = true
    · have same : h.token char = h := by
        rw [Host.token, if_pos space]
        cases h
        simp_all
      have passed := passes h (Nat.le_add_right _ _)
      rw [same] at passed
      exact ⟨h, word, by simp [readidleChar, digit, space, spaced], passed⟩
    · exact ⟨h.token char, 0, by simp [readidleChar, digit, space, spaced], passes h (Nat.le_add_right _ _)⟩
  | false =>
    -- the character ends the current token, which counts if it is an acknowledgement
    have open_ : ¬ h.cmd = HEXB_ERR := fun pending => erring ⟨pending, spaced⟩
    by_cases ack : h.cmd = HEXB_ACK
    · have one : h.pendingAck = 1 := by simp [Host.pendingAck, ack, spaced]
      have counted : (h.nacks + 1).toNat = h.nacks.toNat + 1 := by
        rw [BitVec.toNat_add]
        simp
        omega
      refine ⟨({ h.advance with nacks := h.nacks + 1 } : Host).token char, 0, ?_, passes _ ?_⟩
      · simp [readidleChar, digit, spaced, ack, HEXB_ADDR, HEXB_READ, HEXB_INT, HEXB_ACK]
      · simp only [counted, one, Nat.le_refl]
    · simp only [readidleChar, digit, spaced, open_, ack, if_false, Bool.false_eq_true, Bool.and_false]
      split_ifs
      · exact ⟨_, _, rfl, passes (h.address word) (Nat.le_add_right _ _)⟩
      · have same : h.advance.nacks = h.nacks := by
          rw [Host.advance]
          split_ifs <;> rfl
        exact ⟨_, _, rfl, passes h.advance (by simp only [same, Nat.le_add_right])⟩
      · exact ⟨_, _, rfl, passes { h with interruptFlag := true } (Nat.le_add_right _ _)⟩
      · exact ⟨_, _, rfl, passes { h with addrSet := false, busErr := false } (Nat.le_add_right _ _)⟩
      · exact ⟨_, _, rfl, passes h (Nat.le_add_right _ _)⟩

theorem readidleLoop_doomed (small : total ≤ 2 ^ 32) (doomed : Doomed total h text) (word : BitVec 32) :
    (readidleLoop h word text).Ends (fun _ r => Doomed total r.1 r.2) fun r => r.1.Erring := by
  induction text generalizing h word with
  | nil => exact doomed
  | cons x text ih =>
    obtain ⟨char, late⟩ := x
    cases late with
    | true => exact doomed
    | false =>
      rcases readidleChar_doomed small doomed word with ⟨h', word', step, doomed'⟩ | ⟨h', addr, step, erring⟩
      · simpa [readidleLoop, step] using ih doomed' word'
      · simpa [readidleLoop, step, Outcome.Ends] using erring

/-- Reading a word in an error reply, nothing is returned. -/
theorem readwordLoop_erring (erring : h.Erring) (word : BitVec 32) (countdown : Nat) (text : Incoming) :
    (∃ h' word', readwordLoop h word countdown text = .inl (h', word', countdown) ∧ h'.Erring) ∨
      ∃ addr r, readwordLoop h word countdown text = .inr (.buserr addr r) := by
  induction text generalizing h word with
  | nil => exact .inl ⟨h, word, rfl, erring⟩
  | cons x text ih =>
    obtain ⟨char, late⟩ := x
    obtain ⟨pending, open_⟩ := erring
    -- digits are read on, anything else throws
    by_cases digit : (isdigit char || islower char) = true
    · rw [readwordLoop, readwordChar, if_pos digit]
      have stays : ({ h with isspace := false } : Host).Erring := ⟨pending, rfl⟩
      exact ih stays _
    · refine .inr ⟨h.lastaddr, ({ h with busErr := true }.token char, text), ?_⟩
      simp [readwordLoop, readwordChar, digit, open_, pending, HEXB_READ, HEXB_ACK, HEXB_INT, HEXB_ERR]

end

namespace Session
variable {δ : Type} {s : Session δ} {total : Nat}

/-- Fewer than `total` acknowledgements come before an error. -/
def Doomed (total : Nat) (s : Session δ) : Prop := Hexbus.Doomed total s.host s.line.text

theorem Doomed.waits (doomed : s.Doomed total) (small : total < 2 ^ 32) : s.host.nacks < BitVec.ofNat 32 total := by
  have fewer := Hexbus.Doomed.fewer doomed
  rw [BitVec.lt_def, BitVec.toNat_ofNat]
  omega

theorem Doomed.wait (doomed : s.Doomed total) : ({ s with line := s.line.wait } : Session δ).Doomed total := by
  simp only [Doomed, Line.wait]
  split_ifs with empty
  · exact Hexbus.Doomed.append doomed _
  · exact doomed

theorem Doomed.readidle (small : total ≤ 2 ^ 32) (doomed : s.Doomed total) :
    s.readidle.Ends (fun _ s' => s'.Doomed total) fun s' => s'.host.Erring :=
  Outcome.Ends.mapState (readidleLoop_doomed small doomed.wait 0)

theorem Doomed.waitAcks (small : total ≤ 2 ^ 32) (n : BitVec 32) (fuel : Nat) (doomed : s.Doomed total) :
    (waitAcks n fuel s).Ends (fun _ s' => s'.Doomed total ∧ ¬ s'.host.nacks < n) fun s' => s'.host.Erring := by
  -- on the rounds; the count of acknowledgements ahead is the invariant
  induction fuel generalizing s with
  | zero => trivial
  | succ fuel ih =>
    rw [Session.waitAcks]
    split_ifs with fewer
    · exact (doomed.readidle small).andThen fun _ s' doomed' => ih doomed'
    · exact ⟨doomed, fewer⟩

theorem Erring.readword (erring : s.host.Erring) : s.readword.Ends (fun _ _ => False) fun _ => True := by
  rw [Session.readword]
  rcases readwordLoop_erring erring 0 3 s.line.text with ⟨h₁, word, short, erring₁⟩ | ⟨addr, r, throws⟩
  · simp only [short]
    rcases readwordLoop_erring erring₁ word 3 ({ s.line with text := [] } : Line δ).wait.text with
      ⟨h₂, word₂, none, -⟩ | ⟨addr, r, throws⟩
    · rw [none]
      trivial
    · rw [throws]
      trivial
  · rw [throws]
    trivial

variable [Peer δ]

/-- What a message brings is put behind what is there. -/
theorem send_text (s : Session δ) (chars : List (BitVec 8)) :
    ∃ more, (s.send chars).line.text = s.line.text ++ more := by
  have replies (l : Line δ) (rest : List (List (BitVec 8))) :
      ∃ more, (rest.foldl Line.reply l).text = l.text ++ more := by
    induction rest generalizing l with
    | nil => exact ⟨[], by simp⟩
    | cons first rest ih =>
      obtain ⟨more, text⟩ := ih (l.reply first)
      obtain ⟨fresh, reply⟩ : ∃ fresh, (l.reply first).text = l.text ++ fresh := by
        rw [Line.reply]
        split_ifs
        · exact ⟨_, List.append_assoc ..⟩
        · exact ⟨_, rfl⟩
      exact ⟨fresh ++ more, by rw [List.foldl_cons, text, reply, List.append_assoc]⟩
  exact replies _ _

theorem Doomed.send (doomed : s.Doomed total) (chars : List (BitVec 8)) : (s.send chars).Doomed total := by
  obtain ⟨more, text⟩ := s.send_text chars
  rw [Doomed, text]
  exact Hexbus.Doomed.append doomed more

theorem Doomed.writeLoop (small : total ≤ 2 ^ 32) (buf : List (BitVec 32)) (ptr : List (BitVec 8)) (nw : Nat)
    (doomed : s.Doomed total) :
    (writeLoop ptr nw buf s).Ends (fun _ s' => s'.Doomed total) fun s' => s'.host.Erring := by
  induction buf generalizing s ptr nw with
  | nil => exact doomed
  | cons value buf ih =>
    rw [Session.writeLoop]
    exact ((doomed.send _).waitAcks small _ _).andThen fun _ s' ⟨doomed', _⟩ => ih [] (nw + 1) doomed'

/-- Too few acknowledgements come before the error: the write does not return. -/
theorem doomed_writev {a : BitVec 32} {p : Bool} {buf : List (BitVec 32)} (small : buf.length < 2 ^ 31)
    (loop : (writeLoop (s.host.encodeAddress (a ||| if p then 0 else 1)) 0 buf
      { s with host := { s.host with lastaddr := a, addrSet := true, nacks := 0 } }).Ends
        (fun _ s' => s'.Doomed buf.length) fun s' => s'.host.Erring) :
    (s.writev a p buf).Ends (fun _ _ => False) fun s' => s'.host.Erring := by
  rw [Session.writev]
  refine loop.andThen fun _ s₁ doomed₁ => ?_
  refine Outcome.Ends.andThen (doomed₁.waitAcks (by omega) _ _) ?_
  rintro _ s₂ ⟨doomed₂, all⟩
  exact all (doomed₂.waits (by omega))

/-- In an error reply, no write returns. -/
theorem Erring.writev (erring : s.host.Erring) (a : BitVec 32) (p : Bool) {buf : List (BitVec 32)}
    (positive : 0 < buf.length) (small : buf.length < 2 ^ 31) :
    (s.writev a p buf).Ends (fun _ _ => False) fun s' => s'.host.Erring := by
  let ready : Session δ := { s with host := { s.host with lastaddr := a, addrSet := true, nacks := 0 } }
  have doomed : ready.Doomed buf.length := .inl ⟨erring, positive⟩
  exact doomed_writev small (doomed.writeLoop (by omega) buf _ 0)

/-- In an error reply, no read returns. -/
theorem Erring.readv (erring : s.host.Erring) (a : BitVec 32) (inc : Bool) {len : Nat} (positive : 0 < len) :
    (s.readv a inc len).Ends (fun _ _ => False) fun _ => True := by
  obtain ⟨n, rfl⟩ : ∃ n, len = n + 1 := ⟨len - 1, by omega⟩
  let ready : Session δ := { s with host := { s.host with lastaddr := a, addrSet := true, inc } }
  have pending (chars : List (BitVec 8)) : (ready.send chars).host.Erring := erring
  have loop (ptr : List (BitVec 8)) :
      (readLoop a inc ptr 0 (n + 1) ready).Ends (fun _ _ => False) fun _ => True := by
    rw [readLoop]
    exact ((Erring.readword (pending _)).rethrow _).never _
  rw [Session.readv, if_neg (by omega)]
  exact (loop _).never _

end Session

end IcoZip.Hexbus
