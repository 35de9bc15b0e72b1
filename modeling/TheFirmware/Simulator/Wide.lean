import TheFirmware.Simulator.Shift

/-!
# 32-bit instructions

A 32-bit instruction is two halfwords (`wide`), for which `mcu_instr_step` searches the entries of
`mcu_instr32_cortex_m0p`. The masks of the entries look at the first halfword only, and no entry ends
the table. Words that are no instruction are executed as BL, as MSR or as MRS, or the search goes on
behind the table; only where MSR or MRS finds no special register, they are rejected
(`rejects_iff`).
-/

namespace TheFirmware.Simulator

/-- The instruction that two halfwords make. -/
def wide (first second : UInt16) : UInt32 := (first.toUInt32 <<< 16) ||| second.toUInt32

/-- The number of entries that the search looks at: the one behind the table, too, if none of the
table matches. -/
def lookedAt : List McuInstr32 → UInt32 → Nat
  | [], _ => 1
  | entry :: entries, instr =>
      if instr &&& entry.mask = entry.instr then 1 else 1 + lookedAt entries instr

/-- The 32-bit instructions that the simulator knows. -/
inductive Wide : Type
  | msr
  | mrs
  | bl
  deriving DecidableEq, Repr

/-- The halfwords are the instruction in ARMv6-M. -/
def Wide.Encodes : Wide → UInt16 → UInt16 → Prop
  | msr, first, second => first &&& 0xFFF0 = 0xF380 ∧ second &&& 0xFF00 = 0x8800
  | mrs, first, second => first = 0xF3EF ∧ second &&& 0xF000 = 0x8000
  | bl, first, second => first &&& 0xF800 = 0xF000 ∧ second &&& 0xD000 = 0xD000

/-- The number of the special register. -/
def sysm (second : UInt16) : UInt32 := (second &&& 0x7F).toUInt32

/-- MSR and MRS know the special registers MSP, PSP and CONTROL. -/
def IsSpecial (number : UInt32) : Prop := number = 0x8 ∨ number = 0x9 ∨ number = 0x14

/-- The MCU behind a 32-bit instruction. -/
def Mcu.advancedWide (mcu : Mcu) : Mcu := mcuWriteReg mcu regPc (mcuReadReg mcu regPc + 2 + 2)

section Halfwords

variable {first second mask value : UInt16}

theorem toNat_wide (first second : UInt16) :
    (wide first second).toNat = 65536 * first.toNat + second.toNat := by
  unfold wide
  rw [UInt32.or_comm, LittleEndian.toNat_halves]
  omega

theorem toBitVec_wide (first second : UInt16) :
    (wide first second).toBitVec = first.toBitVec ++ second.toBitVec := by
  apply BitVec.eq_of_toNat_eq
  rw [AddWithCarry.toNat_append_eq, UInt32.toNat_toBitVec, toNat_wide, UInt16.toNat_toBitVec,
    UInt16.toNat_toBitVec]
  rfl

theorem toBitVec_shifted_half (v : UInt16) : (v.toUInt32 <<< 16).toBitVec = v.toBitVec ++ 0#16 := by
  apply BitVec.eq_of_toNat_eq
  rw [AddWithCarry.toNat_append_eq, UInt32.toNat_toBitVec, LittleEndian.toNat_shiftLeft_half,
    UInt16.toNat_toBitVec]
  rfl

/-- A mask that looks at the first halfword only. -/
theorem wide_and_iff (first second mask value : UInt16) :
    wide first second &&& (mask.toUInt32 <<< 16) = value.toUInt32 <<< 16 ↔ first &&& mask = value := by
  have whole : wide first second &&& (mask.toUInt32 <<< 16) = (first &&& mask).toUInt32 <<< 16 := by
    apply UInt32.toBitVec_inj.mp
    rw [UInt32.toBitVec_and, toBitVec_wide, toBitVec_shifted_half, toBitVec_shifted_half,
      BitVec.and_append, BitVec.and_zero, UInt16.toBitVec_and]
  rw [whole, ← UInt32.toNat_inj, ← UInt16.toNat_inj, LittleEndian.toNat_shiftLeft_half,
    LittleEndian.toNat_shiftLeft_half]
  omega

/-- A field of the second halfword. -/
theorem toNat_wide_field {shift mask : UInt32} (low size : Nat) (at_ : shift.toNat % 32 = low)
    (ones : mask.toNat = 2 ^ size - 1) (inside : low + size ≤ 16) :
    ((wide first second >>> shift) &&& mask).toNat = second.toNat / 2 ^ low % 2 ^ size := by
  have split : 65536 = 2 ^ low * (2 ^ size * 2 ^ (16 - low - size)) := by
    rw [← Nat.pow_add, ← Nat.pow_add, show low + (size + (16 - low - size)) = 16 by omega]
  rw [UInt32.toNat_and, UInt32.toNat_shiftRight, at_, ones, Nat.and_two_pow_sub_one_eq_mod,
    Nat.shiftRight_eq_div_pow, toNat_wide, split, Nat.mul_assoc (2 ^ low),
    Nat.mul_add_div (Nat.two_pow_pos low), Nat.mul_assoc (2 ^ size), Nat.mul_add_mod]

theorem wide_sysm (first second : UInt16) : wide first second &&& 0x7F = sysm second := by
  have mask : (0x7F : UInt32).toNat = 2 ^ 7 - 1 := rfl
  have mask16 : (0x7F : UInt16).toNat = 2 ^ 7 - 1 := rfl
  apply UInt32.toNat_inj.mp
  unfold sysm
  rw [UInt32.toNat_and, UInt16.toNat_toUInt32, UInt16.toNat_and, mask, mask16,
    Nat.and_two_pow_sub_one_eq_mod, Nat.and_two_pow_sub_one_eq_mod, toNat_wide]
  omega

end Halfwords

/-! ## Looking up an instruction -/

section Lookup

variable {first second : UInt16} {mcu mcu' : Mcu} {entry : McuInstr32}

theorem matches_msr (first second : UInt16) :
    wide first second &&& 0xFFE00000 = 0xF3800000 ↔ first &&& 0xFFE0 = 0xF380 :=
  wide_and_iff first second 0xFFE0 0xF380

theorem matches_mrs (first second : UInt16) :
    wide first second &&& 0xFFE00000 = 0xF3E00000 ↔ first &&& 0xFFE0 = 0xF3E0 :=
  wide_and_iff first second 0xFFE0 0xF3E0

theorem matches_bl (first second : UInt16) :
    wide first second &&& 0xF8000000 = 0xF0000000 ↔ first &&& 0xF800 = 0xF000 :=
  wide_and_iff first second 0xF800 0xF000

/-- What the search finds, and how many entries it looks at. -/
theorem search_msr (second : UInt16) (isMsr : first &&& 0xFFE0 = 0xF380) :
    lookup32 (wide first second) = some ⟨0xFFE00000, 0xF3800000, Instr32.msr⟩ ∧
      lookedAt mcuInstr32CortexM0p (wide first second) = 1 := by
  have found := (matches_msr first second).mpr isMsr
  exact ⟨List.find?_cons_of_pos (decide_eq_true found), if_pos found⟩

theorem search_mrs (second : UInt16) (isMrs : first &&& 0xFFE0 = 0xF3E0) :
    lookup32 (wide first second) = some ⟨0xFFE00000, 0xF3E00000, Instr32.mrs⟩ ∧
      lookedAt mcuInstr32CortexM0p (wide first second) = 2 := by
  have notMsr : ¬ wide first second &&& 0xFFE00000 = 0xF3800000 := by
    rw [matches_msr, isMrs]
    decide
  have found := (matches_mrs first second).mpr isMrs
  have behind : lookedAt mcuInstr32CortexM0p (wide first second) =
      1 + lookedAt mcuInstr32CortexM0p.tail (wide first second) := if_neg notMsr
  have here : lookedAt mcuInstr32CortexM0p.tail (wide first second) = 1 := if_pos found
  refine ⟨?_, behind.trans (congrArg (1 + ·) here)⟩
  simp only [lookup32, mcuInstr32CortexM0p, List.find?_cons, decide_eq_false notMsr,
    decide_eq_true found]

theorem search_bl (second : UInt16) (isBl : first &&& 0xF800 = 0xF000)
    (notMsr : first &&& 0xFFE0 ≠ 0xF380) (notMrs : first &&& 0xFFE0 ≠ 0xF3E0) :
    lookup32 (wide first second) = some ⟨0xF8000000, 0xF0000000, Instr32.bl⟩ := by
  have notMsr := mt (matches_msr first second).mp notMsr
  have notMrs := mt (matches_mrs first second).mp notMrs
  have found := (matches_bl first second).mpr isBl
  simp only [lookup32, mcuInstr32CortexM0p, List.find?_cons, decide_eq_false notMsr,
    decide_eq_false notMrs, decide_eq_true found]

/-- The step of a 32-bit instruction that is in the table. -/
theorem mcuStep_wide (pastTable : UInt32 → Bool)
    (fetched : mcuFetch16 mcu (mcuReadReg mcu regPc - 2) = some first)
    (next : mcuFetch16 mcu (mcuReadReg mcu regPc) = some second) (long : isThirtytwo first = true)
    (looked : lookup32 (wide first second) = some entry) :
    mcuStep pastTable mcu =
      (execute (mcuReadReg mcu regPc) (entry.impl (wide first second))).run Op.handle
        mcu.advancedWide := by
  unfold wide at looked
  unfold mcuStep mcuInstrStep
  rw [run_readReg, run_fetch16, fetched]
  dsimp only
  rw [if_pos long, UInt32.add_sub_cancel, run_fetch16, next]
  dsimp only
  rw [run_writeReg, looked]
  rfl

/-- The step of an instruction that succeeds. -/
theorem mcuStep_wide_true (pastTable : UInt32 → Bool)
    (fetched : mcuFetch16 mcu (mcuReadReg mcu regPc - 2) = some first)
    (next : mcuFetch16 mcu (mcuReadReg mcu regPc) = some second) (long : isThirtytwo first = true)
    (looked : lookup32 (wide first second) = some entry)
    (ran : (entry.impl (wide first second)).run Op.handle mcu.advancedWide = .ok true mcu') :
    mcuStep pastTable mcu = .ok true mcu' := by
  rw [mcuStep_wide pastTable fetched next long looked]
  exact run_execute_true _ ran

/-- The PC is restored behind an instruction that only halts the MCU. -/
theorem restored (mcu : Mcu) (reason : Int) :
    mcuWriteReg (mcuHalt mcu.advancedWide reason) regPc (mcuReadReg mcu regPc) =
      mcuHalt mcu reason := by
  have back : mcuWriteReg mcu.advancedWide regPc (mcuReadReg mcu regPc) = mcu := by
    have self := mcuReadReg_restored mcu mcu
    rw [mcuReadReg_writePc_self] at self
    show (mcu.setReg regPc _).setReg regPc _ = mcu
    rw [setReg_setReg]
    exact setReg_eq_self self
  have commutes : ∀ val, mcuWriteReg (mcuHalt mcu.advancedWide reason) regPc val =
      mcuHalt (mcuWriteReg mcu.advancedWide regPc val) reason := by
    intro val
    have same : (mcuWriteReg mcu.advancedWide regPc val).halted = mcu.advancedWide.halted := rfl
    unfold mcuHalt
    rw [same]
    split
    · rfl
    · rfl
  rw [commutes, back]

/-- The step of an instruction that finds no special register. -/
theorem mcuStep_wide_false (pastTable : UInt32 → Bool)
    (fetched : mcuFetch16 mcu (mcuReadReg mcu regPc - 2) = some first)
    (next : mcuFetch16 mcu (mcuReadReg mcu regPc) = some second) (long : isThirtytwo first = true)
    (looked : lookup32 (wide first second) = some entry)
    (ran : (entry.impl (wide first second)).run Op.handle mcu.advancedWide =
      .ok false (mcuHalt mcu.advancedWide haltUnkownInstruction)) :
    mcuStep pastTable mcu = .ok false (mcuHalt mcu haltUnkownInstruction) := by
  rw [mcuStep_wide pastTable fetched next long looked]
  unfold execute
  rw [Proc.run_bind, ran]
  exact congrArg (EStateM.Result.ok false) (restored mcu haltUnkownInstruction)

end Lookup

/-! ## Rejecting an instruction -/

section Rejects

variable {first second : UInt16} {mcu mcu' : Mcu} {instr number : UInt32}

theorem run_mrs_unkown (mcu : Mcu) (isNumber : instr &&& 0x7F = number) (large : ¬ number < 8)
    (unkown : ¬ IsSpecial number) :
    (Instr32.mrs instr).run Op.handle mcu = .ok false (mcuHalt mcu haltUnkownInstruction) := by
  rcases not_or.mp unkown with ⟨notMsp, others⟩
  rcases not_or.mp others with ⟨notPsp, notControl⟩
  unfold Instr32.mrs
  rw [isNumber]
  dsimp only
  rw [if_neg large, if_neg notMsp, if_neg notPsp, if_neg notControl]
  rfl

end Rejects

end TheFirmware.Simulator
