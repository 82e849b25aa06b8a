import IcoZip.Library.Clocked
import IcoZip.Zipcore.Core

/-! The decoder and the operand stage.

One instruction is in either of them at a time, and while it waits in the operand
stage the decoder's registers are still its own. The halves of a compressed word
follow each other through the same registers.
-/

set_option autoImplicit false

namespace IcoZip.Zipcore

/-- What the halves of a compressed word have in common. -/
structure Idecode.Fields.Half (f : Idecode.Fields) : Prop where
  brk : f.brk = false
  div : f.DV = false
  single : (f.op.extractLsb' 1 3 == 0x5#3 || f.op == 0xc#4) = false
  always : f.cond.extractLsb' 0 3 = 0#3
  apart : (f.M && f.ALU) = false

namespace Idecode

theorem half_decode (o : Options) (optCis : o.optCis = true) (iword : BitVec 32) (iGie : Bool)
    (compressed : cis iword = true) : (decode o iword iGie).Half := by
  constructor
  · simp [decode, wBreak, wSpecial, compressed]
  · simp [decode, wDiv, compressed]
  · have codes : ∀ code : BitVec 3,
        ((if (cisOp code).extractLsb' 1 4 == 0xc#4 then 0xd#4 else (cisOp code).extractLsb' 0 4).extractLsb' 1 3 ==
            0x5#3 ||
          (if (cisOp code).extractLsb' 1 4 == 0xc#4 then 0xd#4 else (cisOp code).extractLsb' 0 4) == 0xc#4) =
            false := by decide
    simpa [decode, wNoop, wLock, wSpecial, wLdi, wCisOp, optCis, compressed] using codes (iword.extractLsb' 24 3)
  · simp [decode, wCond, compressed]
  · have codes : ∀ code : BitVec 3,
        (((cisOp code).extractLsb' 3 2 == 0b10#2 && (cisOp code).extractLsb' 1 2 != 0b00#2) &&
          (!(cisOp code).getLsbD 4 && (cisOp code).extractLsb' 1 3 != 0x7#3 || (cisOp code).extractLsb' 1 4 == 0xc#4 ||
            (cisOp code).extractLsb' 1 4 == 0x8#4)) = false := by decide
    simpa [decode, wMem, wALU, wLdi, wCmptst, wNoop, wLock, wSpecial, wCisOp, optCis, compressed] using
      codes (iword.extractLsb' 24 3)

/-- No compressed instruction is illegal by itself. -/
theorem legal_compressed (o : Options) (optCis : o.optCis = true) (iInstruction iword : BitVec 32) (iGie : Bool)
    (compressed : cis iword = true) : illegalWord o iInstruction iword iGie = false := by
  have codes : ∀ code : BitVec 3, ((cisOp code).extractLsb' 1 4 == 0x5#4 || cisOp code == 0x0c#5) = false ∧
      ((cisOp code).extractLsb' 1 4 == 0b1101#4) = false := by decide
  obtain ⟨mpy, fpu⟩ := codes (iword.extractLsb' 24 3)
  simp only [illegalWord, wMpy, wDiv, wFpu, wSim, wLock, wSpecial, wCisOp, optCis, compressed, Bool.and_true, if_true,
    Bool.not_true, Bool.false_and, Bool.and_false, Bool.or_false, mpy, fpu]

theorem user_number (user : Bool) (reg : BitVec 4) : (BitVec.ofBool user ++ reg).getLsbD 4 = user := by
  revert user reg
  decide

/-- A compressed instruction names registers of the mode that it is decoded in. -/
theorem user_compressed (o : Options) (iword : BitVec 32) (iGie : Bool) (compressed : cis iword = true) :
    (decode o iword iGie).dcdR.getLsbD 4 = iGie := by
  simp only [decode, wDcdR, compressed, Bool.not_true, Bool.false_and, Bool.false_eq_true, if_false, user_number]

/-- A second half counts as compressed, wherever it comes from. -/
theorem cis_second {aw : Nat} {o : Options} {s : Idecode aw} {i : Inputs aw} (optCis : o.optCis = true)
    (phase : s.phase = true) : cis (s.iword o i) = true := by
  simp only [cis, iword, optCis, phase, if_true, BitVec.getLsbD_append]
  rfl

/-- A first half is waiting for its second one: it has just been fetched, or has waited before. -/
theorem nextPhase_true {aw : Nat} {o : Options} {s : Idecode aw} {i : Inputs aw} (phase : s.nextPhase o i = true) :
    o.optCis = true ∧ i.reset = false ∧
      if i.ce = true then s.phase = false ∧ cis i.instruction = true ∧ i.pfValid = true ∧ i.illegal = false
      else s.phase = true := by
  cases optCis : o.optCis <;> cases reset : i.reset || s.ljmp <;> cases ce : i.ce <;> cases valid : s.pfValid i <;>
    simp_all [nextPhase, pfValid]

end Idecode

namespace Core
variable {aw : Nat}

/-- The operand stage has what the decoder has. -/
structure Fetched (b : Build aw) (s : Core aw) : Prop where
  alu : s.opValidAlu = (s.dcd.dcd.ALU || s.dcd.illegal)
  mem : s.opValidMem = (s.dcd.dcd.M && !s.dcd.illegal)
  div : s.opValidDiv = (b.optDivide && s.dcd.dcd.DV && !s.dcd.illegal)
  brk : s.opBreak = (s.dcd.dcd.brk && !s.dcd.illegal)
  illegal : s.opIllegal = s.dcd.illegal
  phase : s.opPhase = (b.optCis && (s.dcd.phase && (!s.dcd.dcd.wR || !s.dcd.dcd.dcdRPc)))

/-- What holds of the two stages in every clock. -/
structure Staged (b : Build aw) (s : Core aw) : Prop where
  apart : s.dcd.valid = true → s.opValid = false
  half : s.dcd.phase = true → s.dcd.dcd.Half
  legal : s.dcd.phase = true → s.dcd.illegal = false
  mode : s.dcd.phase = true → s.newPc = false → s.dcd.dcd.dcdR.getLsbD 4 = s.gie
  fetched : s.opValid = true → s.newPc = false → s.Fetched b
  ljmp : s.dcd.ljmp = false
  branch : s.dcd.earlyBranchStb = false

theorem staged_powerUp (b : Build aw) (mpy : Mpyop) (regset : BitVec 5 → BitVec 32) :
    (powerUp b mpy regset).Staged b where
  apart valid := absurd valid Bool.false_ne_true
  half phase := absurd phase Bool.false_ne_true
  legal phase := absurd phase Bool.false_ne_true
  mode phase := absurd phase Bool.false_ne_true
  fetched valid := absurd valid Bool.false_ne_true
  ljmp := rfl
  branch := rfl

variable {b : Build aw} {s : Core aw} {i : Inputs aw}

/-- An instruction in either stage keeps the decoder waiting. -/
theorem dcdStalled_full (full : s.dcd.valid = true ∨ s.opValid = true) : s.dcdStalled i = true := by
  rcases full with full | full <;> simp [dcdStalled, full]

/-- The decoder's registers keep while it waits. -/
theorem dcd_stalled (stalled : s.dcdStalled i = true) : (s.zipcore b i).dcd.dcd = s.dcd.dcd := by
  simp [Core.zipcore, Idecode.idecode, dcdInputs, stalled]

/-- Nothing is decoded while the decoder waits. -/
theorem dcdValid_stalled (stalled : s.dcdStalled i = true) : (s.zipcore b i).dcd.valid = false := by
  simp [Core.zipcore, Idecode.idecode, Idecode.nextValid, Build.options, dcdInputs, stalled]

/-- A clock after which the core goes on where it is has no reset for the decoder. -/
theorem dcd_unreset (same : s.nextNewPc i = false) (old : s.newPc = false) : (s.dcdInputs i).reset = false := by
  simp only [nextNewPc, Bool.or_eq_false_iff] at same
  simp [dcdInputs, same, old]

/-- The mode changes only together with the program counter. -/
theorem gie_same (same : s.nextNewPc i = false) : (s.zipcore b i).gie = s.gie := by
  simp only [nextNewPc, Bool.or_eq_false_iff] at same
  simp [Core.zipcore, same]

theorem phase_stalled (ljmp : s.dcd.ljmp = false) (free : (s.dcdInputs i).reset = false)
    (stalled : s.dcdStalled i = true) : (s.zipcore b i).dcd.phase = (b.optCis && s.dcd.phase) := by
  change s.dcd.nextPhase b.options (s.dcdInputs i) = _
  simp only [Idecode.nextPhase, free, ljmp]
  simp [dcdInputs, stalled, Build.options]

theorem illegal_stalled (free : (s.dcdInputs i).reset = false) (stalled : s.dcdStalled i = true) :
    (s.zipcore b i).dcd.illegal = s.dcd.illegal := by
  change s.dcd.nextIllegal b.options (s.dcdInputs i) = _
  simp only [Idecode.nextIllegal, free]
  simp [dcdInputs, stalled]

/-- What waits in the operand stage goes on waiting, or it goes away. -/
theorem opValid_waits (valid : s.opValid = true) (empty : s.dcd.valid = false) :
    (s.zipcore b i).opValid = (!(i.reset || s.newPc) && !(s.adfCe i || s.memCe i)) := by
  simp only [Core.zipcore, nextOpValid, empty, valid]
  cases i.reset <;> cases s.newPc <;> cases s.adfCe i <;> cases s.memCe i <;> rfl

theorem Fetched.stalled (fetched : s.Fetched b) (ljmp : s.dcd.ljmp = false) (valid : s.opValid = true)
    (empty : s.dcd.valid = false) (waits : (s.zipcore b i).opValid = true) (free : (s.dcdInputs i).reset = false) :
    (s.zipcore b i).Fetched b := by
  have stalled := dcdStalled_full (i := i) (.inr valid)
  have same := dcd_stalled (b := b) stalled
  have phase := phase_stalled (b := b) ljmp free stalled
  have illegal := illegal_stalled (b := b) free stalled
  rw [opValid_waits valid empty] at waits
  simp only [Bool.and_eq_true, Bool.not_eq_true', Bool.or_eq_false_iff] at waits
  obtain ⟨⟨reset, new⟩, adf, mem⟩ := waits
  constructor
  · rw [same, illegal, ← fetched.alu]
    simp [Core.zipcore, nextOpValid, reset, new, empty, adf, mem]
  · rw [same, illegal, ← fetched.mem]
    simp [Core.zipcore, nextOpValid, reset, new, empty, adf, mem]
  · rw [same, illegal, ← fetched.div]
    simp [Core.zipcore, nextOpValid, reset, new, empty, adf, mem]
  · rw [same, illegal, ← fetched.brk]
    simp [Core.zipcore, new, empty]
  · rw [illegal, ← fetched.illegal]
    simp [Core.zipcore, reset, new, empty]
  · have next : (s.zipcore b i).opPhase = s.nextOpPhase b i := rfl
    have old := fetched.phase
    rw [next, same, phase]
    cases cis : b.optCis <;> simp_all [nextOpPhase]

/-- What the decoder has goes to the operand stage. -/
theorem fetched_decoded (ljmp : s.dcd.ljmp = false) (valid : s.dcd.valid = true) (empty : s.opValid = false)
    (new : s.newPc = false) (reset : i.reset = false) (free : (s.dcdInputs i).reset = false) :
    (s.zipcore b i).Fetched b := by
  have stalled := dcdStalled_full (i := i) (.inl valid)
  have same := dcd_stalled (b := b) stalled
  have phase := phase_stalled (b := b) ljmp free stalled
  have illegal := illegal_stalled (b := b) free stalled
  constructor
  · rw [same, illegal]
    simp [Core.zipcore, nextOpValid, wOpValid, reset, new, valid, empty]
  · rw [same, illegal]
    simp [Core.zipcore, nextOpValid, wOpValid, reset, new, valid, empty]
  · rw [same, illegal]
    simp [Core.zipcore, nextOpValid, wOpValid, reset, new, valid, empty]
  · rw [same, illegal]
    simp [Core.zipcore, new, valid]
  · rw [illegal]
    simp [Core.zipcore, reset, new, valid]
  · have next : (s.zipcore b i).opPhase = s.nextOpPhase b i := rfl
    rw [next, same, phase]
    cases cis : b.optCis <;> simp [nextOpPhase, reset, new, valid, cis]

theorem Staged.zipcore (staged : s.Staged b) : (s.zipcore b i).Staged b where
  apart := by
    intro valid
    have free : s.dcdStalled i = false := by
      by_contra stalled
      simp [dcdValid_stalled (Bool.not_eq_false _ ▸ stalled)] at valid
    have none : s.dcd.valid = false ∧ s.opValid = false := by
      constructor
      · by_contra full
        simp [dcdStalled_full (i := i) (.inl (Bool.not_eq_false _ ▸ full))] at free
      · by_contra full
        simp [dcdStalled_full (i := i) (.inr (Bool.not_eq_false _ ▸ full))] at free
    simp [Core.zipcore, nextOpValid, none]
  half := by
    intro phase
    change s.dcd.nextPhase b.options (s.dcdInputs i) = true at phase
    obtain ⟨optCis, -, first⟩ := Idecode.nextPhase_true phase
    -- A new word is decoded, or what has been decoded waits.
    by_cases ce : (s.dcdInputs i).ce = true
    · rw [if_pos ce] at first
      have word : s.dcd.iword b.options (s.dcdInputs i) = (s.dcdInputs i).instruction := by
        simp [Idecode.iword, optCis, first.1]
      change (if (s.dcdInputs i).ce = true then Idecode.decode b.options (s.dcd.iword b.options (s.dcdInputs i))
        (s.dcdInputs i).gie else s.dcd.dcd).Half
      rw [if_pos ce, word]
      exact Idecode.half_decode b.options optCis _ _ first.2.1
    · rw [if_neg ce] at first
      change (if (s.dcdInputs i).ce = true then _ else s.dcd.dcd).Half
      rw [if_neg ce]
      exact staged.half first
  legal := by
    intro phase
    change s.dcd.nextPhase b.options (s.dcdInputs i) = true at phase
    obtain ⟨optCis, reset, first⟩ := Idecode.nextPhase_true phase
    change s.dcd.nextIllegal b.options (s.dcdInputs i) = false
    by_cases ce : (s.dcdInputs i).ce = true
    · rw [if_pos ce] at first
      obtain ⟨new, compressed, valid, legal⟩ := first
      have word : s.dcd.iword b.options (s.dcdInputs i) = (s.dcdInputs i).instruction := by
        simp [Idecode.iword, optCis, new]
      have fine := Idecode.legal_compressed b.options optCis (s.dcdInputs i).instruction _ (s.dcdInputs i).gie
        compressed
      simp [Idecode.nextIllegal, reset, ce, new, valid, legal, word, fine]
    · rw [if_neg ce] at first
      simp [Idecode.nextIllegal, reset, ce, staged.legal first]
  mode := by
    intro phase same
    change s.dcd.nextPhase b.options (s.dcdInputs i) = true at phase
    change s.nextNewPc i = false at same
    obtain ⟨optCis, reset, first⟩ := Idecode.nextPhase_true phase
    rw [gie_same same]
    change (if (s.dcdInputs i).ce = true then Idecode.decode b.options (s.dcd.iword b.options (s.dcdInputs i))
      (s.dcdInputs i).gie else s.dcd.dcd).dcdR.getLsbD 4 = s.gie
    by_cases ce : (s.dcdInputs i).ce = true
    · rw [if_pos ce] at first
      have word : s.dcd.iword b.options (s.dcdInputs i) = (s.dcdInputs i).instruction := by
        simp [Idecode.iword, optCis, first.1]
      rw [if_pos ce, word]
      exact Idecode.user_compressed b.options _ _ first.2.1
    · rw [if_neg ce] at first
      have old : s.newPc = false := by
        simp only [dcdInputs, Bool.or_eq_false_iff] at reset
        exact reset.1.2
      rw [if_neg ce]
      exact staged.mode first old
  fetched := by
    intro valid same
    change s.nextNewPc i = false at same
    have new : s.newPc = false := by
      by_contra new
      simp [Core.zipcore, nextOpValid, Bool.not_eq_false _ ▸ new] at valid
    have free := dcd_unreset same new
    have reset : i.reset = false := by
      simp only [nextNewPc, Bool.or_eq_false_iff] at same
      exact same.1.1.1.1.1
    -- The operation that is ready has stayed, or has come from the decoder in this clock.
    cases full : s.opValid with
    | true =>
      have empty : s.dcd.valid = false := by
        by_contra both
        simp [staged.apart (Bool.not_eq_false _ ▸ both)] at full
      exact (staged.fetched full new).stalled staged.ljmp full empty valid free
    | false =>
      have decoded : s.dcd.valid = true := by
        by_contra none
        simp [Core.zipcore, nextOpValid, full, none] at valid
      exact fetched_decoded staged.ljmp decoded full new reset free
  ljmp := by simp [Core.zipcore, Idecode.idecode, Idecode.nextLjmp, Build.options]
  branch := by simp [Core.zipcore, Idecode.idecode, Idecode.nextEarlyBranchStb, Build.options]

end Core

end IcoZip.Zipcore
