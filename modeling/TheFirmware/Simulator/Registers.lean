import TheFirmware.Simulator.Mcu

/-!
# The banked stack pointer

`REG_SP` stands for `REG_MSP` or `REG_PSP`. Bit 1 of `CONTROL` should select one of them, but
`mcu_read_reg` and `mcu_write_reg` look at bit 1 of `mcu->regs[REG_SP]`, a word that no access ever
changes (`regs_regSp_apply`).
-/

namespace TheFirmware.Simulator

/-! ## Frames -/

/-- The other registers are kept. -/
@[simp] theorem Mcu.regs_setReg_of_ne {reg other : Reg} (mcu : Mcu) (val : UInt32)
    (ne : other ≠ reg) : (mcu.setReg reg val).regs other = mcu.regs other :=
  Function.update_of_ne ne _ _

/-- A register other than the PC holds what was written to it. -/
@[simp] theorem Mcu.regs_setReg_self {reg : Reg} (mcu : Mcu) (val : UInt32) (ne : reg ≠ regPc) :
    (mcu.setReg reg val).regs reg = val := by
  unfold Mcu.setReg
  dsimp only
  rw [Function.update_self, if_neg ne]

/-- Only the last write to a register counts. -/
theorem setReg_setReg {reg : Reg} (mcu : Mcu) (val val' : UInt32) :
    (mcu.setReg reg val).setReg reg val' = mcu.setReg reg val' := by
  unfold Mcu.setReg
  dsimp only
  rw [Mcu.mk.injEq]
  exact ⟨Function.update_idem _ _ _, rfl, rfl, rfl, rfl, rfl, rfl, rfl, rfl, rfl⟩

/-- A register keeps its value when it is written again. -/
theorem setReg_eq_self {mcu : Mcu} {reg : Reg} {val : UInt32}
    (same : (if reg = regPc then val &&& ~~~ 1 else val) = mcu.regs reg) :
    mcu.setReg reg val = mcu := by
  have regs : Function.update mcu.regs reg (if reg = regPc then val &&& ~~~ 1 else val) =
      mcu.regs := by
    rw [same]
    exact Function.update_eq_self _ _
  show _ = Mcu.mk _ _ _ _ _ _ _ _ _ _ _ _
  exact Mcu.mk.injEq .. ▸ ⟨regs, rfl, rfl, rfl, rfl, rfl, rfl, rfl, rfl, rfl⟩

/-- A write to a register that is not mapped to another one. -/
theorem mcuWriteReg_of_plain {reg : Reg} (mcu : Mcu) (val : UInt32) (plain : reg < regSp) :
    mcuWriteReg mcu reg val = mcu.setReg reg val := by
  have ne : ∀ other, regSp ≤ other → reg ≠ other := fun other le => (plain.trans_le le).ne
  unfold mcuWriteReg
  dsimp only
  rw [if_neg (ne regSp (by decide)), if_neg (ne regApsr (by decide)),
    if_neg (ne regIpsr (by decide)), if_neg (ne regEpsr (by decide))]

theorem mcuReadReg_of_plain {reg : Reg} (mcu : Mcu) (plain : reg < regSp) :
    mcuReadReg mcu reg = mcu.regs reg := by
  have ne : ∀ other, regSp ≤ other → reg ≠ other := fun other le => (plain.trans_le le).ne
  unfold mcuReadReg
  rw [if_neg (ne regSp (by decide)), if_neg (ne regApsr (by decide)),
    if_neg (ne regIpsr (by decide)), if_neg (ne regEpsr (by decide))]

/-- The two stack pointers. -/
theorem stackPointer_cases (mcu : Mcu) : mcu.stackPointer = regMsp ∨ mcu.stackPointer = regPsp := by
  unfold Mcu.stackPointer
  split
  · exact .inr rfl
  · exact .inl rfl

theorem mcuReadReg_regSp (mcu : Mcu) : mcuReadReg mcu regSp = mcu.regs mcu.stackPointer :=
  if_pos rfl

theorem mcuWriteReg_regSp (mcu : Mcu) (val : UInt32) :
    mcuWriteReg mcu regSp val = mcu.setReg mcu.stackPointer val := by
  unfold mcuWriteReg
  dsimp only
  rw [if_pos rfl]
  rcases stackPointer_cases mcu with main | process
  · rw [main]
    rfl
  · rw [process]
    rfl

/-- A write to a register changes one of the words behind the registers, but never the one of
`REG_SP`. -/
theorem exists_setReg (mcu : Mcu) (reg : Reg) (val : UInt32) :
    ∃ r v, r ≠ regSp ∧ mcuWriteReg mcu reg val = mcu.setReg r v := by
  by_cases isSp : reg = regSp
  · subst isSp
    refine ⟨mcu.stackPointer, val, ?_, mcuWriteReg_regSp mcu val⟩
    rcases stackPointer_cases mcu with main | process
    · rw [main]
      decide
    · rw [process]
      decide
  · simp only [mcuWriteReg, if_neg isSp, Mcu.setXpsr]
    have xpsr : regXpsr ≠ regSp := by decide
    split
    · exact ⟨_, _, xpsr, rfl⟩
    · split
      · exact ⟨_, _, xpsr, rfl⟩
      · split
        · exact ⟨_, _, xpsr, rfl⟩
        · exact ⟨_, _, isSp, rfl⟩

/-! ## Sequences of accesses -/

/-- An access through `mcu_read_reg` or `mcu_write_reg`. -/
inductive Access : Type
  | read (reg : Reg)
  | write (reg : Reg) (val : UInt32)
  deriving DecidableEq, Repr

/-- The MCU after an access. -/
def Access.apply (mcu : Mcu) : Access → Mcu
  | .read _ => mcu
  | .write reg val => mcuWriteReg mcu reg val

/-- The stack pointer that `CONTROL` selects. -/
def Mcu.selected (mcu : Mcu) : Reg := if mcu.regs regControl &&& 0x2 ≠ 0 then regPsp else regMsp

/-- The stack pointer that `CONTROL` does not select. -/
def Mcu.unselected (mcu : Mcu) : Reg := if mcu.regs regControl &&& 0x2 ≠ 0 then regMsp else regPsp

/-- An access to `REG_SP` reads or writes the selected stack pointer, and leaves the other one. -/
def Access.Banked (mcu : Mcu) : Access → Prop
  | .read reg => reg = regSp → mcuReadReg mcu reg = mcu.regs mcu.selected
  | .write reg val => reg = regSp →
      (mcuWriteReg mcu reg val).regs mcu.selected = val ∧
      (mcuWriteReg mcu reg val).regs mcu.unselected = mcu.regs mcu.unselected

/-- The word that the functions look at has the bit of `CONTROL`. -/
def Mcu.BitsMatch (mcu : Mcu) : Prop :=
  mcu.regs regSp &&& 0x2 ≠ 0 ↔ mcu.regs regControl &&& 0x2 ≠ 0

/-- The accesses to `REG_SP` that go to the right stack pointer, or for which it makes no
difference. -/
def Access.Harmless (mcu : Mcu) : Access → Prop
  | .read reg => reg = regSp → mcu.BitsMatch ∨ mcu.regs regMsp = mcu.regs regPsp
  | .write reg val => reg = regSp →
      mcu.BitsMatch ∨ (mcu.regs regMsp = val ∧ mcu.regs regPsp = val)

/-- Every access of a sequence satisfies `P` in the state in which it is made. -/
def AlongAccesses (P : Mcu → Access → Prop) : Mcu → List Access → Prop
  | _, [] => True
  | mcu, access :: accesses => P mcu access ∧ AlongAccesses P (access.apply mcu) accesses

section Specs

variable {mcu : Mcu} {accesses : List Access}

/-- No access changes the word that the functions look at. -/
theorem regs_regSp_apply (mcu : Mcu) (access : Access) :
    (access.apply mcu).regs regSp = mcu.regs regSp := by
  cases access with
  | read reg => rfl
  | write reg val =>
      obtain ⟨r, v, ne, written⟩ := exists_setReg mcu reg val
      show (mcuWriteReg mcu reg val).regs regSp = mcu.regs regSp
      rw [written]
      exact mcu.regs_setReg_of_ne v ne.symm

theorem selected_of_bitsMatch (bits : mcu.BitsMatch) : mcu.stackPointer = mcu.selected :=
  if_congr bits rfl rfl

theorem unselected_of_not_bitsMatch (differ : ¬ mcu.BitsMatch) :
    mcu.stackPointer = mcu.unselected := by
  unfold Mcu.BitsMatch at differ
  unfold Mcu.stackPointer Mcu.unselected
  by_cases bit : mcu.regs regControl &&& 0x2 ≠ 0
  · have clear : ¬ mcu.regs regSp &&& 0x2 ≠ 0 := fun set => differ ⟨fun _ => bit, fun _ => set⟩
    rw [if_pos bit, if_neg clear]
  · have set : mcu.regs regSp &&& 0x2 ≠ 0 := fun clear =>
      differ ⟨fun set => absurd clear set, fun set => absurd set bit⟩
    rw [if_neg bit, if_pos set]

theorem selected_ne_unselected (mcu : Mcu) : mcu.selected ≠ mcu.unselected := by
  unfold Mcu.selected Mcu.unselected
  split
  · decide
  · decide

theorem selected_ne_pc (mcu : Mcu) : mcu.selected ≠ regPc := by
  unfold Mcu.selected
  split
  · decide
  · decide

theorem unselected_ne_pc (mcu : Mcu) : mcu.unselected ≠ regPc := by
  unfold Mcu.unselected
  split
  · decide
  · decide

/-- What holds of both stack pointers holds of the selected and the other one. -/
theorem both_iff (P : UInt32 → Prop) :
    P (mcu.regs mcu.selected) ∧ P (mcu.regs mcu.unselected) ↔
      P (mcu.regs regMsp) ∧ P (mcu.regs regPsp) := by
  unfold Mcu.selected Mcu.unselected
  split
  · exact And.comm
  · exact Iff.rfl

theorem same_iff :
    mcu.regs mcu.unselected = mcu.regs mcu.selected ↔ mcu.regs regMsp = mcu.regs regPsp := by
  unfold Mcu.selected Mcu.unselected
  split
  · exact Iff.rfl
  · exact eq_comm

/-- An access is banked exactly when it is harmless. -/
theorem banked_iff_harmless (mcu : Mcu) (access : Access) :
    access.Banked mcu ↔ access.Harmless mcu := by
  cases access with
  | read reg =>
      refine forall_congr' fun isSp => ?_
      subst isSp
      rw [mcuReadReg_regSp]
      by_cases bits : mcu.BitsMatch
      · rw [selected_of_bitsMatch bits]
        exact ⟨fun _ => .inl bits, fun _ => rfl⟩
      · rw [unselected_of_not_bitsMatch bits, same_iff, or_iff_right bits]
  | write reg val =>
      refine forall_congr' fun isSp => ?_
      subst isSp
      rw [mcuWriteReg_regSp]
      have ne := selected_ne_unselected mcu
      by_cases bits : mcu.BitsMatch
      · rw [selected_of_bitsMatch bits]
        have stored := mcu.regs_setReg_self val (selected_ne_pc mcu)
        have kept := mcu.regs_setReg_of_ne val ne.symm
        exact ⟨fun _ => .inl bits, fun _ => ⟨stored, kept⟩⟩
      · rw [unselected_of_not_bitsMatch bits, or_iff_right bits]
        have stored := mcu.regs_setReg_self val (unselected_ne_pc mcu)
        have kept := mcu.regs_setReg_of_ne val ne
        rw [stored, kept, ← both_iff (· = val)]
        exact and_congr_right fun _ => eq_comm

/-- **The banked stack pointer**: for every state and every sequence of accesses, all accesses to
`REG_SP` read and write the stack pointer that bit 1 of `CONTROL` selects, and leave the other one
alone, if and only if at each of them `mcu->regs[REG_SP]` has that bit, too, or both stack pointers
hold the value that is read or written. -/
theorem banked_iff (mcu : Mcu) (accesses : List Access) :
    AlongAccesses (fun mcu access => access.Banked mcu) mcu accesses ↔
      AlongAccesses (fun mcu access => access.Harmless mcu) mcu accesses := by
  induction accesses generalizing mcu with
  | nil => exact Iff.rfl
  | cons access accesses ih =>
      exact and_congr (banked_iff_harmless mcu access) (ih (access.apply mcu))

end Specs

/-! ## A concrete MCU -/

/-- The MCU that `mcu_cortex_m0p_create` makes with 8 KiB of RAM, all of it 0. -/
def createdMcu : Mcu where
  regs := fun _ => 0
  pcEven := rfl
  processorMode := .thread
  halted := true
  haltReason := 0
  unlocked := false
  flash := fun _ => 0xDE
  ram := fun _ => 0
  ramLength := 8 * 1024
  ramAligned := by decide
  output := []
  unittest := ⟨-1, 0, 0, 0, none, 0, none⟩

/-- After `msr MSP`, `msr PSP` and `msr CONTROL` with bit 1 set, `REG_SP` still reads `MSP`. -/
theorem stack_pointer_not_banked :
    ¬ AlongAccesses (fun mcu access => access.Banked mcu) createdMcu
      [.write regMsp 0x10001000, .write regPsp 0x10000800, .write regControl 2, .read regSp] := by
  intro banked
  have reads := banked.2.2.2.1 rfl
  exact absurd reads (by decide)

end TheFirmware.Simulator
