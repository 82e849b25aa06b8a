import IcoZip.Hexbus.Tokens
import Mathlib.Data.List.Forall2

/-! `readidle` on a stream that arrives in pieces.

A call ends where `available()` misses a character, and the word it was reading
ends with it: the next call goes on with the letter, but not with the digits.
-/

set_option autoImplicit false

namespace IcoZip.Hexbus

/-! ### Registers after two readings of one stream -/

/-- Where an address reply leaves the host: whether it goes on from there, and the address. -/
def Reply.place : Reply → Option (Bool × BitVec 32)
  | .addr value => some (!value.getLsbD 0, value &&& -4)
  | _ => none

/-- The last address of a list of replies. -/
def lastAddr : List Reply → Option (Bool × BitVec 32)
  | [] => none
  | r :: rs => (lastAddr rs).or r.place

/-- Two replies of one kind. -/
inductive Reply.Alike : Reply → Reply → Prop where
  | read (value value' : BitVec 32) : Alike (.read value) (.read value')
  | addr (value value' : BitVec 32) : Alike (.addr value) (.addr value')
  | same (r : Reply) : Alike r r

theorem Reply.Alike.place_none {x x' : Reply} (alike : x.Alike x') : x.place = none ↔ x'.place = none := by
  cases alike <;> simp [Reply.place]

theorem lastAddr_none {xs xs' : List Reply} (alike : List.Forall₂ Reply.Alike xs xs') :
    lastAddr xs = none ↔ lastAddr xs' = none := by
  induction alike with
  | nil => simp [lastAddr]
  | cons first rest ih => simp [lastAddr, Option.or_eq_none_iff, ih, first.place_none]

namespace Registers

/-- The registers that do not depend on an address. -/
def Agree (r r' : Registers) : Prop :=
  r.interruptFlag = r'.interruptFlag ∧ r.addrSet = r'.addrSet ∧ r.nacks = r'.nacks

theorem Agree.eq_iff {r r' : Registers} (agree : r.Agree r') :
    r = r' ↔ r.lastaddr = r'.lastaddr ∧ r.inc = r'.inc := by
  obtain ⟨_, _, _, _, _⟩ := r
  obtain ⟨_, _, _, _, _⟩ := r'
  obtain ⟨rfl, rfl, rfl⟩ := agree
  simp

/-- A host that goes on from an address tells where it was. -/
theorem advance_inj {r r' : Registers} (same : r.advance = r'.advance) : r = r' := by
  have mode (q : Registers) : q.advance.inc = q.inc := by
    rw [advance]
    split_ifs <;> rfl
  have inc : r.inc = r'.inc := by rw [← mode r, same, mode]
  simp only [advance, inc] at same
  split_ifs at same with goes
  · obtain ⟨_, _, _, _, _⟩ := r
    obtain ⟨_, _, _, _, _⟩ := r'
    simp_all
  · exact same

theorem Agree.advance {r r' : Registers} (agree : r.Agree r') : r.advance.Agree r'.advance := by
  have same (q : Registers) : q.advance.Agree q := by
    rw [Registers.advance]
    split_ifs <;> exact ⟨rfl, rfl, rfl⟩
  obtain ⟨flag, set, nacks⟩ := same r
  obtain ⟨flag', set', nacks'⟩ := same r'
  exact ⟨flag.trans (agree.1.trans flag'.symm), set.trans (agree.2.1.trans set'.symm),
    nacks.trans (agree.2.2.trans nacks'.symm)⟩

theorem apply_agree {r r' : Registers} {x x' : Reply} (agree : r.Agree r') (alike : x.Alike x') :
    (r.apply x).Agree (r'.apply x') := by
  have onward := agree.advance
  obtain ⟨flag, set, nacks⟩ := agree
  cases alike with
  | read value value' => exact onward
  | addr value value' => exact ⟨flag, rfl, nacks⟩
  | same x =>
    cases x with
    | read value => exact onward
    | addr value => exact ⟨flag, rfl, nacks⟩
    | ack => exact ⟨onward.1, onward.2.1, by simp only [apply, nacks]⟩
    | int => exact ⟨rfl, set, nacks⟩
    | reset => exact ⟨flag, rfl, nacks⟩
    | idle => exact ⟨flag, set, nacks⟩

/-- An address takes two hosts to a place, and all other replies take them on from where they are. -/
theorem apply_eq_iff {r r' : Registers} {x x' : Reply} (agree : r.Agree r') (alike : x.Alike x') :
    r.apply x = r'.apply x' ↔ x.place = x'.place ∧ (x.place = none → r = r') := by
  have goes : r.advance = r'.advance ↔ r = r' := ⟨advance_inj, congrArg advance⟩
  have place (value value' : BitVec 32) : r.apply (.addr value) = r'.apply (.addr value') ↔
      (Reply.addr value).place = (Reply.addr value').place ∧ ((Reply.addr value).place = none → r = r') := by
    rw [(apply_agree agree (.addr value value')).eq_iff]
    simp [apply, Reply.place, and_comm]
  cases alike with
  | read value value' => simp [apply, Reply.place, goes]
  | addr value value' => exact place value value'
  | same x =>
    cases x with
    | addr value => exact place value value
    | read value => simp [apply, Reply.place, goes]
    | ack =>
      rw [(apply_agree agree (.same .ack)).eq_iff]
      simp only [apply, ← agree.advance.eq_iff, goes, Reply.place, true_and, true_imp_iff]
    | int | reset | idle =>
      rw [(apply_agree agree (.same _)).eq_iff, agree.eq_iff]
      simp only [apply, Reply.place, true_and, true_imp_iff]

theorem foldl_eq_iff {r r' : Registers} {xs xs' : List Reply} (agree : r.Agree r')
    (alike : List.Forall₂ Reply.Alike xs xs') :
    xs.foldl apply r = xs'.foldl apply r' ↔ lastAddr xs = lastAddr xs' ∧ (lastAddr xs = none → r = r') := by
  induction alike generalizing r r' with
  | nil => simp [lastAddr]
  | @cons x x' xs xs' first rest ih =>
    rw [List.foldl_cons, List.foldl_cons, ih (apply_agree agree first), apply_eq_iff agree first, lastAddr, lastAddr]
    cases last : lastAddr xs with
    | none =>
      have last' := (lastAddr_none rest).mp last
      simp [last']
    | some place =>
      have later : lastAddr xs' ≠ none := fun last' => by simp [(lastAddr_none rest).mpr last'] at last
      obtain ⟨place', last'⟩ := Option.ne_none_iff_exists'.mp later
      simp [last']

end Registers

/-! ### Calls -/

/-- The same characters, none of them late. -/
def atOnce (text : Incoming) : Incoming := text.map fun x => (x.1, false)

/-- The digits of a reply do not make another kind of it. -/
theorem reply_alike (pending : Option (BitVec 8)) (word word' : BitVec 32) :
    List.Forall₂ Reply.Alike (pending.bind (reply · word)).toList (pending.bind (reply · word')).toList := by
  cases pending with
  | none => exact .nil
  | some letter =>
    simp only [Option.bind_some, reply]
    split_ifs
    · exact .cons (.read word word') .nil
    · exact .cons (.addr word word') .nil
    all_goals first | exact .nil | exact .cons (.same _) .nil

theorem replies_alike (pending : Option (BitVec 8)) (word word' : BitVec 32) (text : Incoming) :
    List.Forall₂ Reply.Alike (replies pending word text) (replies pending word' (atOnce text)) := by
  induction text generalizing pending word word' with
  | nil => exact .nil
  | cons x text ih =>
    obtain ⟨char, late⟩ := x
    simp only [replies, atOnce, List.map_cons]
    by_cases digit : isDigit char = true
    · rw [if_pos digit, if_pos digit]
      exact ih _ _ _
    · rw [if_neg digit, if_neg digit]
      exact List.rel_append (reply_alike _ _ _) (ih _ _ _)

/-- No error reply is in the stream, nor one that has not ended. -/
def NoError (h : Host) (text : Incoming) : Prop := h.pending ≠ some HEXB_ERR ∧ HEXB_ERR ∉ text.map Prod.fst

/-- The characters that `available()` first misses. -/
def pauses (text : Incoming) : Nat := text.countP (·.2)

/-- `readidle`, called until everything has been read. -/
def idleCalls : Nat → Host → Incoming → Outcome (Host × Incoming) Unit
  | 0, _, _ => .lost
  | calls + 1, h, text =>
    (readidleLoop h 0 text).andThen fun _ r => if r.2 = [] then .ok () r else idleCalls calls r.1 r.2

/-- The registers when a stream has been read. -/
def final (h : Host) (word : BitVec 32) (text : Incoming) : Registers :=
  (replies h.pending word text).foldl Registers.apply h.registers

section
variable {h : Host} {text : Incoming}

theorem readidleChar_final {char : BitVec 8} (clean : NoError h ((char, false) :: text)) (word : BitVec 32) :
    ∃ h' word', readidleChar h word char = .more h' word' ∧ NoError h' text ∧
      final h' word' text = final h word ((char, false) :: text) := by
  obtain ⟨quiet, absent⟩ := clean
  rw [List.map_cons, List.mem_cons, not_or] at absent
  by_cases digit : isDigit char = true
  · exact ⟨h, shiftDigit word char, if_pos digit, ⟨quiet, absent.2⟩, by simp [final, replies, digit]⟩
  have next : isDigit char = false := Bool.not_eq_true _ ▸ digit
  obtain ⟨h', word', step, pending, registers, fresh⟩ := @readidleChar_next h word char next quiet
  have opened : opens char ≠ some HEXB_ERR := by
    rw [opens]
    split_ifs
    · simp
    · simpa using Ne.symm absent.1
  refine ⟨h', word', step, ⟨pending ▸ opened, absent.2⟩, ?_⟩
  have same : replies (opens char) word' text = replies (opens char) 0 text := by
    rcases fresh with space | rfl
    · rw [space, replies_none]
    · rfl
  rw [final, pending, registers, same, final, replies]
  simp only [Bool.false_eq_true, if_false, next, List.foldl_append, Host.settled]

/-- One call. What it leaves to read still brings the registers to what they would have been. -/
theorem readidleLoop_final (clean : NoError h text) (word : BitVec 32) :
    ∃ h' text', readidleLoop h word text = .ok () (h', text') ∧ NoError h' text' ∧
      final h' 0 text' = final h word text ∧ (text' = [] ∨ pauses text' < pauses text) := by
  induction text generalizing h word with
  | nil => exact ⟨h, [], rfl, clean, rfl, .inl rfl⟩
  | cons x text ih =>
    obtain ⟨char, late⟩ := x
    cases late with
    | true => exact ⟨h, (char, false) :: text, rfl, clean, rfl, .inr (by simp [pauses])⟩
    | false =>
      obtain ⟨g, word₁, step, clean₁, total⟩ := readidleChar_final clean word
      obtain ⟨h', text', loop, clean', total', fewer⟩ := ih clean₁ word₁
      have same : pauses ((char, false) :: text) = pauses text := by simp [pauses]
      refine ⟨h', text', ?_, clean', total'.trans total, same ▸ fewer⟩
      simp only [readidleLoop, step, Bool.false_eq_true, if_false, loop]

/-- All calls. -/
theorem idleCalls_final (clean : NoError h text) {calls : Nat} (enough : pauses text < calls) :
    ∃ h', idleCalls calls h text = .ok () (h', []) ∧ h'.registers = final h 0 text := by
  induction calls generalizing h text with
  | zero => omega
  | succ calls ih =>
    obtain ⟨h', text', loop, clean', total, fewer⟩ := readidleLoop_final clean 0
    rw [idleCalls, loop, Outcome.andThen_ok]
    by_cases read : text' = []
    · subst read
      exact ⟨h', if_pos rfl, total⟩
    · obtain ⟨h₂, rest, registers⟩ := ih clean' (by have := fewer.resolve_left read; omega)
      exact ⟨h₂, by rw [if_neg read, rest], registers.trans total⟩

end

/-- Read in pieces, a stream leaves the registers as if read by one call, exactly if its last address is the same
without the digits that are cut off. -/
theorem readidle_in_pieces {h : Host} {text : Incoming} (clean : NoError h text) :
    ∃ pieces once, idleCalls (text.length + 1) h text = .ok () (pieces, []) ∧
      readidleLoop h 0 (atOnce text) = .ok () (once, []) ∧
      (pieces.registers = once.registers ↔
        lastAddr (replies h.pending 0 text) = lastAddr (replies h.pending 0 (atOnce text))) := by
  have few : pauses text < text.length + 1 := Nat.lt_succ_of_le List.countP_le_length
  obtain ⟨pieces, calls, registers⟩ := idleCalls_final clean few
  have clean' : NoError h (atOnce text) := ⟨clean.1, by simpa [atOnce, Function.comp_def] using clean.2⟩
  obtain ⟨once, text', call, -, total, all⟩ := readidleLoop_final clean' 0
  have read : text' = [] := all.resolve_right (by simp [pauses, atOnce, List.countP_map, Function.comp_def])
  subst read
  have registers' : once.registers = final h 0 (atOnce text) := total
  refine ⟨pieces, once, calls, call, ?_⟩
  rw [registers, registers', final, final, Registers.foldl_eq_iff ⟨rfl, rfl, rfl⟩ (replies_alike _ _ _ _)]
  simp

/-- An address reply behind an acknowledgement, with a pause after its fifth character. -/
def pausedAddress : Incoming :=
  [(HEXB_ACK, false), (0x0a, false), (HEXB_ADDR, false), (0x31, false), (0x32, false), (0x33, false), (0x34, false),
    (0x35, true), (0x36, false), (0x37, false), (0x38, false), (0x0d, false), (0x0a, false)]

theorem pausedAddress_misread : ∃ pieces once,
    idleCalls 2 (Host.init 0 false true) pausedAddress = .ok () (pieces, []) ∧
      readidleLoop (Host.init 0 false true) 0 (atOnce pausedAddress) = .ok () (once, []) ∧
      pieces.registers.lastaddr = 0x5678 ∧ once.registers.lastaddr = 0x12345678 :=
  ⟨_, _, rfl, rfl, by decide, by decide⟩

/-- The acknowledgement alone, with a pause before it ends. -/
theorem readidle_paused_ack : ∃ pieces once,
    idleCalls 3 (Host.init 0 true true) [(HEXB_ACK, false), (0x0a, true)] = .ok () (pieces, []) ∧
      readidleLoop (Host.init 0 true true) 0 (atOnce [(HEXB_ACK, false), (0x0a, true)]) = .ok () (once, []) ∧
      pieces.registers = once.registers := by
  have clean : NoError (Host.init 0 true true) [(HEXB_ACK, false), (0x0a, true)] := ⟨by decide, by decide⟩
  obtain ⟨pieces, once, calls, call, same⟩ := readidle_in_pieces clean
  exact ⟨pieces, once, calls, call, same.mpr (by decide)⟩

end IcoZip.Hexbus
