import IcoZip.Hexbus.Tokens

/-! `readword` on a stream of replies: it takes what comes before the first data
reply, returns the word of that one, and leaves the rest to the next call.
-/

set_option autoImplicit false

namespace IcoZip.Hexbus

/-- A reply as the device sends it. -/
def Reply.chars : Reply → List (BitVec 8)
  | .read value => HEXB_READ :: hex08 value
  | .addr value => HEXB_ADDR :: hex08 value
  | r => [r.letter]

/-- What may come between replies: the ends of lines, and idle characters. -/
def Filler (char : BitVec 8) : Prop := char = 0x0d ∨ char = 0x0a ∨ char = 0x7f

/-- Characters that spell replies. -/
inductive Spelled : List Reply → List (BitVec 8) → Prop where
  | nil : Spelled [] []
  | filler {rs : List Reply} {chars : List (BitVec 8)} {char : BitVec 8} :
      Filler char → Spelled rs chars → Spelled rs (char :: chars)
  | reply {rs : List Reply} {chars : List (BitVec 8)} (r : Reply) :
      Spelled rs chars → Spelled (r :: rs) (r.chars ++ chars)

theorem Filler.next {char : BitVec 8} (filler : Filler char) : isDigit char = false := by
  rcases filler with rfl | rfl | rfl <;> decide

theorem Filler.opens {char : BitVec 8} (filler : Filler char) :
    Hexbus.opens char = none ∨ Hexbus.opens char = some 0x7f := by
  rcases filler with rfl | rfl | rfl <;> decide

theorem Reply.letter_next (r : Reply) : isDigit r.letter = false := by
  cases r <;> rfl

theorem Reply.letter_opens (r : Reply) : opens r.letter = some r.letter := by
  cases r <;> rfl

theorem Reply.letter_passing (r : Reply) (noData : ∀ value, r ≠ .read value) :
    some r.letter ≠ some HEXB_READ ∧ some r.letter ≠ some HEXB_ERR := by
  cases r with
  | read value => exact absurd rfl (noData value)
  | _ => simp [Reply.letter, HEXB_READ, HEXB_ERR, HEXB_ADDR, HEXB_ACK, HEXB_INT, HEXB_RESET, HEXB_IDLE]

/-- A letter and the digits behind it, which are those of a word. -/
theorem Reply.chars_eq (r : Reply) : ∃ digits, r.chars = r.letter :: digits ∧ (∀ x ∈ digits, isDigit x = true) ∧
    reply r.letter (digits.foldl shiftDigit 0) = some r := by
  have digits (value : BitVec 32) : ∀ x ∈ hex08 value, isDigit x = true := fun x member =>
    isDigit_of_mem_hex08 member
  cases r with
  | read value => exact ⟨hex08 value, rfl, digits value, by rw [shiftDigit_hex08]; rfl⟩
  | addr value => exact ⟨hex08 value, rfl, digits value, by rw [shiftDigit_hex08]; rfl⟩
  | _ => exact ⟨[], rfl, by simp, rfl⟩

namespace Host

/-- An idle reply has not ended. -/
def waiting (h : Host) : Nat := if h.pending = some HEXB_IDLE then 1 else 0

/-- The reply that has not ended is none that is returned or thrown. -/
def Passing (h : Host) : Prop := h.pending ≠ some HEXB_READ ∧ h.pending ≠ some HEXB_ERR

end Host

section
variable {h : Host} {word : BitVec 32} {countdown : Nat}

/-- Between replies nothing is left to take effect. -/
theorem Host.filled {char : BitVec 8} (filler : Filler char) (pending : h.pending = opens char) :
    h.Passing ∧ h.waiting = 0 ∧ ∀ word, h.settled word = h.registers := by
  rcases filler.opens with none_ | idle
  · rw [none_] at pending
    exact ⟨by simp [Host.Passing, pending], by simp [Host.waiting, pending], by simp [Host.settled, pending]⟩
  · rw [idle] at pending
    refine ⟨?_, ?_, fun word => ?_⟩
    · simp [Host.Passing, pending, HEXB_READ, HEXB_ERR]
    · simp [Host.waiting, pending, HEXB_IDLE]
    · rw [Host.settled, pending]
      rfl

/-- What ends the reply there was: a reply begins, or nothing does. -/
theorem readwordLoop_next {char : BitVec 8} (next : isDigit char = false) (passing : h.Passing)
    (few : h.waiting < countdown) (late : Bool) (rest : Incoming) :
    ∃ h', readwordLoop h word countdown ((char, late) :: rest) =
        readwordLoop h' 0 (countdown - h.waiting) rest ∧
      h'.pending = opens char ∧ h'.registers = h.settled word := by
  have patient : h.pending = some HEXB_IDLE → 1 < countdown := fun waits => by
    rwa [Host.waiting, if_pos waits] at few
  obtain ⟨h', step, pending, registers⟩ := @readwordChar_next h word char countdown next passing.1 passing.2 patient
  refine ⟨h', ?_, pending, registers⟩
  have left : (if h.pending = some HEXB_IDLE then countdown - 1 else countdown) = countdown - h.waiting := by
    rw [Host.waiting]
    split_ifs <;> rfl
  rw [readwordLoop, step, left]

/-- A whole reply. -/
theorem readwordLoop_reply (r : Reply) (passing : h.Passing) (few : h.waiting < countdown) {text : Incoming}
    (shown : text.map Prod.fst = r.chars) (rest : Incoming) :
    ∃ h' word', readwordLoop h word countdown (text ++ rest) =
        readwordLoop h' word' (countdown - h.waiting) rest ∧
      h'.pending = some r.letter ∧ reply r.letter word' = some r ∧ h'.registers = h.settled word := by
  obtain ⟨digits, spelled, all, value⟩ := r.chars_eq
  obtain ⟨⟨_, late⟩, tail, rfl, rfl, rfl⟩ := List.map_eq_cons_iff.mp (shown.trans spelled)
  obtain ⟨h', step, pending, registers⟩ := readwordLoop_next r.letter_next passing few late (tail ++ rest)
  rw [r.letter_opens] at pending
  have digitsOnly : ∀ x ∈ tail, isDigit x.1 = true := fun x member => all x.1 (List.mem_map_of_mem member)
  refine ⟨h', _, ?_, pending, value, registers⟩
  rw [List.cons_append, step, readwordLoop_digits tail rest digitsOnly (Host.pending_some pending).1]

/-- Replies that are not returned, with what stands between them. -/
theorem readwordLoop_passes {rs : List Reply} {chars : List (BitVec 8)} (spelled : Spelled rs chars)
    (noData : ∀ value, Reply.read value ∉ rs) (passing : h.Passing)
    (few : h.waiting + rs.count .idle < countdown) {text : Incoming} (shown : text.map Prod.fst = chars)
    (rest : Incoming) :
    ∃ h' word' countdown', readwordLoop h word countdown (text ++ rest) = readwordLoop h' word' countdown' rest ∧
      h'.Passing ∧ h'.waiting < countdown' ∧
      h'.settled word' = rs.foldl Registers.apply (h.settled word) := by
  induction spelled generalizing h word countdown text with
  | nil =>
    obtain rfl : text = [] := by simpa using shown
    exact ⟨h, word, countdown, rfl, passing, by simpa using few, rfl⟩
  | @filler rs chars char filler spelled ih =>
    obtain ⟨⟨_, late⟩, tail, rfl, rfl, tailShown⟩ := List.map_eq_cons_iff.mp shown
    obtain ⟨g, step, pending, registers⟩ :=
      @readwordLoop_next h word countdown _ filler.next passing (by omega) late (tail ++ rest)
    obtain ⟨passing', waits, settled⟩ := Host.filled filler pending
    obtain ⟨h', word', countdown', loop, passing'', few', total⟩ :=
      @ih g 0 (countdown - h.waiting) noData passing' (by omega) tail tailShown
    exact ⟨h', word', countdown', step.trans loop, passing'', few', by rw [total, settled, registers]⟩
  | @reply rs chars r spelled ih =>
    obtain ⟨front, tail, rfl, frontShown, tailShown⟩ := List.map_eq_append_iff.mp shown
    obtain ⟨g, word₁, step, pending, value, registers⟩ :=
      @readwordLoop_reply h word countdown r passing (by omega) front frontShown (tail ++ rest)
    have noData' : ∀ value, Reply.read value ∉ rs := fun value later => noData value (List.mem_cons_of_mem r later)
    have passing' : g.Passing := by
      rw [Host.Passing, pending]
      exact r.letter_passing fun data same => noData data (same ▸ List.mem_cons_self)
    have waits : g.waiting + rs.count .idle = (r :: rs).count .idle := by
      rw [Host.waiting, pending, List.count_cons, Nat.add_comm]
      cases r <;> rfl
    have settled : g.settled word₁ = (h.settled word).apply r := by
      rw [Host.settled, pending, Option.bind_some, value, registers]
      rfl
    obtain ⟨h', word', countdown', loop, passing'', few', total⟩ :=
      @ih g word₁ (countdown - h.waiting) noData' passing' (by omega) tail tailShown
    refine ⟨h', word', countdown', ?_, passing'', few', by rw [total, settled, List.foldl_cons]⟩
    rw [List.append_assoc, step, loop]

theorem Spelled.next {rs : List Reply} {char : BitVec 8} {chars : List (BitVec 8)}
    (spelled : Spelled rs (char :: chars)) : isDigit char = false := by
  generalize shown : char :: chars = all at spelled
  cases spelled with
  | nil => exact absurd shown (List.cons_ne_nil _ _)
  | filler filler _ =>
    obtain ⟨rfl, -⟩ := List.cons.inj shown
    exact filler.next
  | reply r _ =>
    obtain ⟨digits, spelled, -⟩ := r.chars_eq
    rw [spelled, List.cons_append] at shown
    obtain ⟨rfl, -⟩ := List.cons.inj shown
    exact r.letter_next

/-- The character that ends a data reply, and how the call leaves the next one. -/
theorem readwordLoop_data {char : BitVec 8} (next : isDigit char = false) (pending : h.pending = some HEXB_READ)
    (late : Bool) (rest : Incoming) :
    ∃ g : Host, g.isspace = true ∧ g.registers = h.registers.apply (.read word) ∧
      readwordLoop h word countdown ((char, late) :: rest) = .inr (.ok word (g.token char, rest)) := by
  refine ⟨{ h.advance with isspace := true }, rfl, h.hear_registers (.read word), ?_⟩
  have same : h.advance.token char = Host.token { h.advance with isspace := true } char := by
    rw [Host.token, Host.token]
  rw [readwordLoop, readwordChar_data next pending, same]

end

/-- What an earlier call has begun to read is no address, data or error reply. -/
def Host.Plain (h : Host) : Prop :=
  h.pending ≠ some HEXB_ADDR ∧ h.pending ≠ some HEXB_READ ∧ h.pending ≠ some HEXB_ERR

/-- A call that goes on from here finds what it would find if the character before were still to be read, with
nothing begun. -/
def Resumes (h : Host) (char : BitVec 8) (text : Incoming) : Prop :=
  ∃ g : Host, g.pending = none ∧ g.registers = h.registers ∧
    (∀ late, readwordLoop g 0 3 ((char, late) :: text) = readwordLoop h 0 3 text) ∧
    readidleLoop g 0 ((char, false) :: text) = readidleLoop h 0 text

theorem resumes_token {g : Host} (closed : g.isspace = true) {char : BitVec 8} (next : isDigit char = false)
    (text : Incoming) : Resumes (g.token char) char text := by
  have other : (isdigit char || islower char) = false := next
  have same : isspace char = true → g.token char = g := fun space => by
    rw [Host.token, if_pos space]
    cases g
    simp_all
  refine ⟨g, Host.pending_closed closed, (g.token_registers char).symm, fun late => ?_, ?_⟩
  · simp [readwordLoop, readwordChar, other, closed]
  · by_cases space : isspace char = true
    · simp [readidleLoop, readidleChar, other, closed, space, same space]
    · simp [readidleLoop, readidleChar, other, closed, space]

/-- The word of the first data reply is returned, the replies before it have taken effect in order, and so has its
own step to the next address. The rest is left as it is. -/
theorem readword_first {h : Host} {before rest : List Reply} {value : BitVec 32} {front more : List (BitVec 8)}
    {char : BitVec 8} {text : Incoming} (plain : h.Plain) (spelled : Spelled before front)
    (noData : ∀ data, Reply.read data ∉ before) (few : h.waiting + before.count .idle ≤ 2)
    (behind : Spelled rest (char :: more))
    (shown : text.map Prod.fst = front ++ ((Reply.read value).chars ++ char :: more)) :
    ∃ h' text', readwordLoop h 0 3 text = .inr (.ok value (h', text')) ∧ text'.map Prod.fst = more ∧
      h'.registers = (before.foldl Registers.apply (h.settled 0)).apply (.read value) ∧ Resumes h' char text' := by
  obtain ⟨ahead, tail, rfl, aheadShown, tailShown⟩ := List.map_eq_append_iff.mp shown
  obtain ⟨data, behind_, rfl, dataShown, behindShown⟩ := List.map_eq_append_iff.mp tailShown
  obtain ⟨⟨_, late⟩, text', rfl, rfl, moreShown⟩ := List.map_eq_cons_iff.mp behindShown
  obtain ⟨h₁, word₁, countdown₁, passed, passing₁, few₁, total⟩ :=
    readwordLoop_passes spelled noData plain.2 (Nat.lt_succ_of_le few) aheadShown (data ++ (_, late) :: text')
  obtain ⟨h₂, word₂, read, pending, ends, registers⟩ :=
    readwordLoop_reply (.read value) passing₁ few₁ dataShown ((_, late) :: text')
  obtain rfl : word₂ = value := by simpa [reply, Reply.letter] using ends
  obtain ⟨g, closed, after, returned⟩ := readwordLoop_data behind.next pending late text'
  refine ⟨g.token _, text', ?_, moreShown, ?_, resumes_token closed behind.next text'⟩
  · rw [passed, read, returned]
  · rw [Host.token_registers, after, registers, total]

/-- Characters that are there already. -/
def there (chars : List (BitVec 8)) : Incoming := chars.map fun char => (char, false)

/-- An acknowledgement, two lines' ends with an idle character between them, and a word. -/
theorem readword_behind_ack : ∃ h' text',
    readwordLoop (Host.init 0x100 true true) 0 3
        (there (HEXB_ACK :: 0x0a :: 0x7f :: 0x0a :: ((Reply.read 7).chars ++ [0x0d, 0x0a]))) =
      .inr (.ok 7 (h', text')) ∧ text'.map Prod.fst = [0x0a] ∧
      h'.registers = ([Reply.ack].foldl Registers.apply ((Host.init 0x100 true true).settled 0)).apply (.read 7) ∧
      Resumes h' 0x0d text' := by
  have spelled : Spelled [.ack] [HEXB_ACK, 0x0a, 0x7f, 0x0a] :=
    .reply .ack (.filler (.inr (.inl rfl)) (.filler (.inr (.inr rfl)) (.filler (.inr (.inl rfl)) .nil)))
  have behind : Spelled [] [0x0d, 0x0a] := .filler (.inl rfl) (.filler (.inr (.inl rfl)) .nil)
  exact readword_first ⟨by decide, by decide, by decide⟩ spelled (by simp) (by decide) behind rfl

/-- The data reply itself takes the host on to the next address; a third idle reply ends the wait though the first
came before the call; an idle character ends a word that is half read; and the digits of an address that another
call has read are not there any more. -/
theorem readword_strays :
    (∃ h', readwordLoop (Host.init 0x100 true true) 0 3 (there ((Reply.read 7).chars ++ [0x0a])) =
        .inr (.ok 7 (h', [])) ∧ h'.registers.lastaddr = 0x104) ∧
      (∃ h', readwordLoop ((Host.init 0x100 true true).token HEXB_IDLE) 0 3
          (there (HEXB_IDLE :: HEXB_IDLE :: ((Reply.read 7).chars ++ [0x0a]))) =
        .inr (.buserr 0 (h', there (hex08 7 ++ [0x0a])))) ∧
      (∃ h', readwordLoop (Host.init 0x100 false true) 0 3
          (there ([HEXB_READ, 0x31, 0x32, 0x33, 0x34] ++ 0x7f :: [0x35, 0x36, 0x37, 0x38, 0x0a])) =
        .inr (.ok 0x1234 (h', there [0x35, 0x36, 0x37, 0x38, 0x0a]))) ∧
      ∃ h₁ h', readidleLoop (Host.init 0x100 false true) 0 (there (Reply.addr 0x201).chars) = .ok () (h₁, []) ∧
        readwordLoop h₁ 0 3 (there (0x0a :: ((Reply.read 7).chars ++ [0x0a]))) = .inr (.ok 7 (h', [])) ∧
        h'.registers.lastaddr = 4 :=
  ⟨⟨_, rfl, by decide⟩, ⟨_, rfl⟩, ⟨_, rfl⟩, _, _, rfl, rfl, by decide⟩

end IcoZip.Hexbus
