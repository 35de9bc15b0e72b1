import TheFirmware.Simulator.AddSub

/-!
# Shifts by a register

ARMv6-M shifts a register by the low byte of another one; the last bit that is shifted out becomes
the carry flag, and an amount of 0 keeps both (`shiftC`). LSLS and LSRS do this for all amounts but
0, for which they set the carry to bit 0 or bit 31. ASRS and RORS are never executed: the table has
the patterns of other instructions at their entries (`lookup16_asr`, `lookup16_ror`).
-/

namespace TheFirmware.Simulator

open AddWithCarry Instr16

/-- The shifts by a register. -/
inductive Shift : Type
  | lsl
  | lsr
  | asr
  | ror
  deriving DecidableEq, Repr

/-- The fixed bits of a shift, behind the mask 0xFFC0. -/
def Shift.pattern : Shift → UInt16
  | lsl => 0x4080
  | lsr => 0x40C0
  | asr => 0x4100
  | ror => 0x41C0

/-- The instruction is the shift. -/
def Shift.Encodes (op : Shift) (instr : UInt16) : Prop := instr &&& 0xFFC0 = op.pattern

/-- A shifted word and the carry, as the architecture defines them. -/
def shiftC {w : Nat} (op : Shift) (x : BitVec w) (amount : Nat) (carry : Bool) : BitVec w × Bool :=
  if amount = 0 then (x, carry)
  else match op with
    | .lsl => (x <<< amount, decide (amount ≤ w) && x.getLsbD (w - amount))
    | .lsr => (x >>> amount, x.getLsbD (amount - 1))
    | .asr => (x.sshiftRight amount, (x.sshiftRight (amount - 1)).getLsbD 0)
    | .ror => (x.rotateRight amount, (x.rotateRight amount).msb)

/-- The amount: the low byte of the second register. -/
def Mcu.amount (mcu : Mcu) (instr : UInt16) : Nat := (mcu.operand instr 3).toNat % 256

/-- The result and the carry of a shift in a state. -/
def Shift.result (op : Shift) (mcu : Mcu) (instr : UInt16) : BitVec 32 × Bool :=
  shiftC op (mcu.operand instr 0) (mcu.amount instr) mcu.flags.c

/-- What a step with a shift has to do. -/
def Shift.Done (op : Shift) (pastTable : UInt32 → Bool) (mcu : Mcu) (instr : UInt16) : Prop :=
  ∃ mcu', mcuStep pastTable mcu = .ok true mcu' ∧
    (mcuReadReg mcu' (bits instr 0 3)).toBitVec = (op.result mcu instr).1 ∧
    mcu.Stepped mcu' [bits instr 0 3] {
      n := (op.result mcu instr).1.msb
      z := (op.result mcu instr).1 == 0
      c := (op.result mcu instr).2
      v := mcu.flags.v }

/-! ## LSLS and LSRS -/

section Shifts

variable {mcu mcu' : Mcu} {instr : UInt16}

/-- Writes to different registers commute. -/
theorem setReg_comm {reg other : Reg} (mcu : Mcu) (val val' : UInt32) (ne : reg ≠ other) :
    (mcu.setReg reg val).setReg other val' = (mcu.setReg other val').setReg reg val := by
  unfold Mcu.setReg
  dsimp only
  rw [Mcu.mk.injEq]
  refine ⟨Function.update_comm ne _ _ _, rfl, rfl, rfl, rfl, rfl, rfl, rfl, rfl, rfl⟩

/-- A flag may be set before the register or behind it. -/
theorem writeReg_setFlag {dest : Reg} (mcu : Mcu) (flag : UInt32) (set : Bool) (val : UInt32)
    (low : dest < 8) : mcuWriteReg (mcu.setFlag flag set) dest val =
      (mcuWriteReg mcu dest val).setFlag flag set := by
  have notXpsr : regXpsr ≠ dest := (low.trans (by decide)).ne'
  have plain : dest < regSp := low.trans (by decide)
  rw [mcuWriteReg_of_plain _ _ plain, mcuWriteReg_of_plain _ _ plain]
  unfold Mcu.setFlag
  rw [mcu.regs_setReg_of_ne val notXpsr]
  exact setReg_comm mcu _ _ notXpsr

/-- A result behind its carry. -/
theorem flagsSet_shift {dest : Reg} (mcu : Mcu) (c : UInt32) (carry : Bool) (low : dest < 8) :
    FlagsSet (mcuWriteReg mcu dest c)
      (((mcuWriteReg (mcu.setFlag cpsrC carry) dest c).setFlag cpsrN c.toBitVec.msb).setFlag cpsrZ
        (c.toBitVec == 0)) ⟨c.toBitVec.msb, c.toBitVec == 0, carry, mcu.flags.v⟩ := by
  have kept := flags_writeReg mcu c low
  have set := (((FlagsSet.refl (mcuWriteReg mcu dest c)).c carry).n c.toBitVec.msb).z
    (c.toBitVec == 0)
  rw [writeReg_setFlag mcu cpsrC carry c low]
  rw [kept] at set
  exact set

/-- What LSLS puts into the carry flag: for an amount of 0, bit 0, since `1 << 32` is 1. -/
theorem lsl_carry (a s : UInt32) :
    ((if s < 32 then a &&& bit (32 - s) else if s = 32 then a &&& 1 else 0) != 0) =
      if s.toNat = 0 then a.toBitVec.getLsbD 0
      else decide (s.toNat ≤ 32) && a.toBitVec.getLsbD (32 - s.toNat) := by
  have size : (32 : UInt32).toNat = 32 := rfl
  have first : (a &&& 1 != 0) = a.toBitVec.getLsbD 0 := and_bit_ne_zero a 0
  by_cases less : s < 32
  · have lt : s.toNat < 32 := less
    have distance : (32 - s).toNat = 32 - s.toNat :=
      UInt32.toNat_sub_of_le _ _ (UInt32.le_of_lt less)
    rw [if_pos less, and_bit_ne_zero, distance]
    by_cases zero : s.toNat = 0
    · have wraps : (32 - s.toNat) % 32 = 0 := by omega
      rw [if_pos zero, wraps]
    · rw [if_neg zero, Nat.mod_eq_of_lt (by omega), decide_eq_true (by omega), Bool.true_and]
  · have ge : ¬ s.toNat < 32 := less
    rw [if_neg less, if_neg (by omega : ¬ s.toNat = 0)]
    by_cases whole : s = 32
    · rw [if_pos whole, first, whole]
      rfl
    · have ne : s.toNat ≠ 32 := fun eq => whole (UInt32.toNat_inj.mp eq)
      rw [if_neg whole, decide_eq_false (by omega), Bool.false_and]
      rfl

/-- What LSRS puts into the carry flag: for an amount of 0, bit 31, since `1 << -1` is `1 << 31`. -/
theorem lsr_carry (a s : UInt32) :
    ((if s < 32 then a &&& bit (s - 1) else if s = 32 then a &&& 0x80000000 else 0) != 0) =
      if s.toNat = 0 then a.toBitVec.getLsbD 31 else a.toBitVec.getLsbD (s.toNat - 1) := by
  have size : (32 : UInt32).toNat = 32 := rfl
  have one : (1 : UInt32).toNat = 1 := rfl
  have last : (a &&& 0x80000000 != 0) = a.toBitVec.getLsbD 31 := and_bit_ne_zero a 31
  have distance : (s - 1).toNat % 32 = if s.toNat = 0 then 31 else (s.toNat - 1) % 32 := by
    rw [UInt32.toNat_sub, one]
    split
    · omega
    · omega
  by_cases less : s < 32
  · have lt : s.toNat < 32 := less
    rw [if_pos less, and_bit_ne_zero, distance]
    by_cases zero : s.toNat = 0
    · rw [if_pos zero, if_pos zero]
    · rw [if_neg zero, if_neg zero, Nat.mod_eq_of_lt (by omega)]
  · have ge : ¬ s.toNat < 32 := less
    rw [if_neg less, if_neg (by omega : ¬ s.toNat = 0)]
    by_cases whole : s = 32
    · rw [if_pos whole, last, whole]
      rfl
    · have ne : s.toNat ≠ 32 := fun eq => whole (UInt32.toNat_inj.mp eq)
      rw [if_neg whole, BitVec.getLsbD_of_ge _ _ (by omega)]
      rfl

theorem toBitVec_lsl (a s : UInt32) :
    (if s < 32 then a <<< s else 0).toBitVec = a.toBitVec <<< s.toNat := by
  by_cases less : s < 32
  · have lt : s.toNat < 32 := less
    have shift : s.toBitVec % 32 = s.toBitVec := BitVec.eq_of_toNat_eq (Nat.mod_eq_of_lt lt)
    rw [if_pos less, UInt32.toBitVec_shiftLeft, shift]
    rfl
  · have ge : ¬ s.toNat < 32 := less
    rw [if_neg less, BitVec.shiftLeft_eq_zero (by omega)]
    rfl

theorem toBitVec_lsr (a s : UInt32) :
    (if s < 32 then a >>> s else 0).toBitVec = a.toBitVec >>> s.toNat := by
  by_cases less : s < 32
  · have lt : s.toNat < 32 := less
    have shift : s.toBitVec % 32 = s.toBitVec := BitVec.eq_of_toNat_eq (Nat.mod_eq_of_lt lt)
    rw [if_pos less, UInt32.toBitVec_shiftRight, shift]
    rfl
  · have ge : ¬ s.toNat < 32 := less
    rw [if_neg less, BitVec.ushiftRight_eq_zero (by omega)]
    rfl

/-- The bit that an amount of 0 puts into the carry flag. -/
def Shift.zeroCarry (op : Shift) (x : BitVec 32) : Bool :=
  match op with
  | lsl => x.getLsbD 0
  | _ => x.getLsbD 31

/-- The carry flag behind LSLS and LSRS. -/
def Shift.sourceCarry (op : Shift) (mcu : Mcu) (instr : UInt16) : Bool :=
  if mcu.amount instr = 0 then op.zeroCarry (mcu.operand instr 0) else (op.result mcu instr).2

/-- What the entries of LSLS and LSRS do. -/
def Shift.SourceDone (op : Shift) (pastTable : UInt32 → Bool) (mcu : Mcu) (instr : UInt16) : Prop :=
  ∃ mcu', mcuStep pastTable mcu = .ok true mcu' ∧
    (mcuReadReg mcu' (bits instr 0 3)).toBitVec = (op.result mcu instr).1 ∧
    mcu.Stepped mcu' [bits instr 0 3] {
      n := (op.result mcu instr).1.msb
      z := (op.result mcu instr).1 == 0
      c := op.sourceCarry mcu instr
      v := mcu.flags.v }

/-- The low byte of a register. -/
theorem toNat_amount (mcu : Mcu) (instr : UInt16) :
    (mcuReadReg mcu.advanced (reg instr 3 0x7) &&& 0xFF).toNat = mcu.amount instr := by
  have mask : (0xFF : UInt32).toNat = 2 ^ 8 - 1 := rfl
  have operand := operand_advanced mcu instr 3 3 rfl
  unfold Mcu.amount
  rw [← operand, UInt32.toNat_toBitVec, UInt32.toNat_and, mask, Nat.and_two_pow_sub_one_eq_mod]

/-- The result of an amount of 0 is not an exception. -/
theorem fst_shiftC_lsl (x : BitVec 32) (amount : Nat) (carry : Bool) :
    (shiftC .lsl x amount carry).1 = x <<< amount := by
  unfold shiftC
  by_cases zero : amount = 0
  · rw [if_pos zero, zero, BitVec.shiftLeft_zero]
  · rw [if_neg zero]

theorem fst_shiftC_lsr (x : BitVec 32) (amount : Nat) (carry : Bool) :
    (shiftC .lsr x amount carry).1 = x >>> amount := by
  unfold shiftC
  by_cases zero : amount = 0
  · rw [if_pos zero, zero, BitVec.ushiftRight_zero]
  · rw [if_neg zero]

/-- The step of an entry that sets the carry, then writes the result. -/
theorem sourceDone_of_run {op : Shift} {n : Nat} {entry : McuInstr16} {c : UInt32} {carry : Bool}
    (pastTable : UInt32 → Bool) (reached : Reached n entry)
    (fetched : mcuFetch16 mcu (mcuReadReg mcu regPc - 2) = some instr)
    (matched : instr &&& entry.mask = entry.instr)
    (ran : (entry.impl instr).run Op.handle mcu.advanced = .ok true mcu')
    (set : FlagsSet (mcuWriteReg mcu.advanced (reg instr 0 0x7) c) mcu'
      ⟨c.toBitVec.msb, c.toBitVec == 0, carry, mcu.advanced.flags.v⟩)
    (result : c.toBitVec = (op.result mcu instr).1) (carries : carry = op.sourceCarry mcu instr) :
    op.SourceDone pastTable mcu instr := by
  obtain ⟨written, stepped⟩ := stepped_of_write (reg_lt instr 0) set
  rw [reg_eq_bits instr 0 0 rfl] at written stepped
  rw [carries, result, flags_advanced] at stepped
  refine ⟨mcu', reached.step pastTable fetched matched ran, ?_, stepped⟩
  rw [written, result]

theorem run_lsl2 (mcu : Mcu) (instr : UInt16) (a s : UInt32)
    (value : mcuReadReg mcu (reg instr 0 0x7) = a)
    (amount : mcuReadReg mcu (reg instr 3 0x7) &&& 0xFF = s) :
    ∃ mcu', (lsl2 instr).run Op.handle mcu = .ok true mcu' ∧
      FlagsSet (mcuWriteReg mcu (reg instr 0 0x7) (if s < 32 then a <<< s else 0)) mcu' {
        n := (if s < 32 then a <<< s else 0).toBitVec.msb
        z := (if s < 32 then a <<< s else 0).toBitVec == 0
        c := (if s < 32 then a &&& bit (32 - s) else if s = 32 then a &&& 1 else 0) != 0
        v := mcu.flags.v } := by
  refine ⟨_, ?_, flagsSet_shift mcu _ _ (reg_lt instr 0)⟩
  unfold lsl2
  dsimp only
  rw [run_readReg, run_readReg, value, amount, run_updateCflagBit, run_writeReg, run_updateNZ]
  rfl

theorem run_lsr2 (mcu : Mcu) (instr : UInt16) (a s : UInt32)
    (value : mcuReadReg mcu (reg instr 0 0x7) = a)
    (amount : mcuReadReg mcu (reg instr 3 0x7) &&& 0xFF = s) :
    ∃ mcu', (lsr2 instr).run Op.handle mcu = .ok true mcu' ∧
      FlagsSet (mcuWriteReg mcu (reg instr 0 0x7) (if s < 32 then a >>> s else 0)) mcu' {
        n := (if s < 32 then a >>> s else 0).toBitVec.msb
        z := (if s < 32 then a >>> s else 0).toBitVec == 0
        c := (if s < 32 then a &&& bit (s - 1) else if s = 32 then a &&& 0x80000000 else 0) != 0
        v := mcu.flags.v } := by
  refine ⟨_, ?_, flagsSet_shift mcu _ _ (reg_lt instr 0)⟩
  unfold lsr2
  dsimp only
  rw [run_readReg, run_readReg, value, amount, run_updateCflagBit, run_writeReg, run_updateNZ]
  rfl

theorem sourceDone_lsl (pastTable : UInt32 → Bool) (encoded : Shift.lsl.Encodes instr)
    (fetched : mcuFetch16 mcu (mcuReadReg mcu regPc - 2) = some instr) :
    Shift.lsl.SourceDone pastTable mcu instr := by
  have reached : Reached 37 ⟨0xFFC0, 0x4080, lsl2⟩ := ⟨rfl, by decide⟩
  have amount := toNat_amount mcu instr
  have operand := operand_advanced mcu instr 0 0 rfl
  obtain ⟨mcu', ran, set⟩ := run_lsl2 mcu.advanced instr _ _ rfl rfl
  refine sourceDone_of_run pastTable reached fetched encoded ran set ?_ ?_
  · rw [toBitVec_lsl, operand, amount]
    exact (fst_shiftC_lsl _ _ _).symm
  · rw [lsl_carry, operand, amount]
    unfold Shift.sourceCarry
    split
    · rfl
    · rename_i nonzero
      simp only [Shift.result, shiftC, if_neg nonzero]

theorem sourceDone_lsr (pastTable : UInt32 → Bool) (encoded : Shift.lsr.Encodes instr)
    (fetched : mcuFetch16 mcu (mcuReadReg mcu regPc - 2) = some instr) :
    Shift.lsr.SourceDone pastTable mcu instr := by
  have reached : Reached 39 ⟨0xFFC0, 0x40C0, lsr2⟩ := ⟨rfl, by decide⟩
  have amount := toNat_amount mcu instr
  have operand := operand_advanced mcu instr 0 0 rfl
  obtain ⟨mcu', ran, set⟩ := run_lsr2 mcu.advanced instr _ _ rfl rfl
  refine sourceDone_of_run pastTable reached fetched encoded ran set ?_ ?_
  · rw [toBitVec_lsr, operand, amount]
    exact (fst_shiftC_lsr _ _ _).symm
  · rw [lsr_carry, operand, amount]
    unfold Shift.sourceCarry
    split
    · rfl
    · rename_i nonzero
      simp only [Shift.result, shiftC, if_neg nonzero]

/-- A step of LSLS or LSRS is right if it leaves the right carry. -/
theorem done_iff_carry {op : Shift} (pastTable : UInt32 → Bool)
    (source : op.SourceDone pastTable mcu instr) :
    op.Done pastTable mcu instr ↔
      mcu.amount instr ≠ 0 ∨ mcu.flags.c = op.zeroCarry (mcu.operand instr 0) := by
  obtain ⟨mcu', step, written, stepped⟩ := source
  have carry : op.Done pastTable mcu instr ↔
      op.sourceCarry mcu instr = (op.result mcu instr).2 := by
    constructor
    · intro done
      rcases done with ⟨mcu'', step', _, stepped'⟩
      rw [step] at step'
      cases step'
      exact congrArg Flags.c (stepped.flags.symm.trans stepped'.flags)
    · intro same
      rw [same] at stepped
      exact ⟨mcu', step, written, stepped⟩
  rw [carry]
  unfold Shift.sourceCarry
  by_cases zero : mcu.amount instr = 0
  · have kept : (op.result mcu instr).2 = mcu.flags.c := congrArg Prod.snd (if_pos zero)
    rw [if_pos zero, kept, or_iff_right (not_not.mpr zero)]
    exact eq_comm
  · rw [if_neg zero]
    exact iff_of_true rfl (.inl zero)

/-- ASRS and RORS are not in the table. -/
theorem not_done_of_unkown {op : Shift} (pastTable : UInt32 → Bool)
    (fetched : mcuFetch16 mcu (mcuReadReg mcu regPc - 2) = some instr)
    (narrow : isThirtytwo instr = false) (looked : lookup16 instr = none) :
    ¬ op.Done pastTable mcu instr := by
  intro done
  rcases done with ⟨mcu', step, _⟩
  rw [mcuStep_of_unkown pastTable fetched narrow looked] at step
  cases step

theorem lookup16_asr (encoded : Shift.asr.Encodes instr) : lookup16 instr = none :=
  lookup16_none (by decide) encoded

theorem lookup16_ror (encoded : Shift.ror.Encodes instr) : lookup16 instr = none :=
  lookup16_none (by decide) encoded

theorem narrow_shift {op : Shift} (encoded : op.Encodes instr) : isThirtytwo instr = false := by
  refine narrow_of_match encoded ?_
  cases op <;> decide

/-- **Register shifts**: for every state with a shift by a register at the PC, a step leaves the
result and the carry of the architecture in the destination and the flags, sets N and Z, keeps V and
all other registers, if and only if the instruction is LSLS or LSRS, and the amount is not 0 or the
carry flag already has the bit that an amount of 0 puts there. -/
theorem shift_done_iff (op : Shift) (pastTable : UInt32 → Bool) (encoded : op.Encodes instr)
    (fetched : mcuFetch16 mcu (mcuReadReg mcu regPc - 2) = some instr) :
    op.Done pastTable mcu instr ↔ (op = .lsl ∨ op = .lsr) ∧
      (mcu.amount instr ≠ 0 ∨ mcu.flags.c = op.zeroCarry (mcu.operand instr 0)) := by
  cases op with
  | lsl =>
    rw [done_iff_carry pastTable (sourceDone_lsl pastTable encoded fetched)]
    exact (and_iff_right (.inl rfl)).symm
  | lsr =>
    rw [done_iff_carry pastTable (sourceDone_lsr pastTable encoded fetched)]
    exact (and_iff_right (.inr rfl)).symm
  | asr =>
    refine iff_of_false
      (not_done_of_unkown pastTable fetched (narrow_shift encoded) (lookup16_asr encoded)) ?_
    rintro ⟨isLsl | isLsr, _⟩
    · cases isLsl
    · cases isLsr
  | ror =>
    refine iff_of_false
      (not_done_of_unkown pastTable fetched (narrow_shift encoded) (lookup16_ror encoded)) ?_
    rintro ⟨isLsl | isLsr, _⟩
    · cases isLsl
    · cases isLsr

end Shifts

/-- The MCU at a shift, with the word 1 in r0 and 0 in the other registers. -/
def shiftMcu (instr : UInt16) : Mcu := programMcu (fun reg => if reg = 0 then 1 else 0) instr 0

/-- `lsls r0, r0` shifts 1 by 1. -/
theorem shift_done_iff_lsls : Shift.lsl.Done (fun _ => false) (shiftMcu 0x4080) 0x4080 := by
  have encoded : Shift.lsl.Encodes 0x4080 := rfl
  have amount : (shiftMcu 0x4080).amount 0x4080 ≠ 0 := by decide
  exact (shift_done_iff .lsl (fun _ => false) encoded (fetched_programMcu _ 0x4080 0)).mpr
    ⟨.inl rfl, .inl amount⟩

/-- `asrs r0, r1` is not executed. -/
theorem not_shift_done_asrs : ¬ Shift.asr.Done (fun _ => false) (shiftMcu 0x4108) 0x4108 := by
  have encoded : Shift.asr.Encodes 0x4108 := rfl
  exact not_done_of_unkown (fun _ => false) (fetched_programMcu _ 0x4108 0) (narrow_shift encoded)
    (lookup16_asr encoded)

end TheFirmware.Simulator
