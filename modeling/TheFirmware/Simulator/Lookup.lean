import TheFirmware.Simulator.FailsClean

/-!
# Looking up an instruction

`mcu_instr_step` executes the first entry that matches an instruction. An entry is reached by every
instruction that matches it, if no entry before it agrees with its pattern and no first halfword of
a 32-bit instruction does (`Reached`).
-/

namespace TheFirmware.Simulator

section Lookup

variable {instr : UInt16} {entry : McuInstr16}

theorem lookup16_some (looked : lookup16 instr = some entry) :
    entry ∈ mcuInstr16CortexM0p ∧ instr &&& entry.mask = entry.instr := by
  unfold lookup16 at looked
  have holds := List.find?_some looked
  exact ⟨List.mem_of_find?_eq_some looked, of_decide_eq_true holds⟩

/-- Two patterns that match one instruction agree on the bits of both masks. -/
theorem patterns_agree {x mask value mask' value' : UInt16} (first : x &&& mask = value)
    (second : x &&& mask' = value') : value &&& mask' = value' &&& mask := by
  rw [← first, ← second, UInt16.and_assoc, UInt16.and_assoc, UInt16.and_comm mask]

/-- The patterns of the table, in its order. -/
def patterns : List (UInt16 × UInt16) := mcuInstr16CortexM0p.map fun entry => (entry.mask, entry.instr)

/-- No pattern before an index agrees with a pattern, and no first halfword of a 32-bit instruction
does. -/
def alone (n : Nat) (mask value : UInt16) : Bool :=
  (patterns.take n).all (fun other => other.2 &&& mask != value &&& other.1) &&
    ([0xF800, 0xE800, 0xF000] : List UInt16).all fun wide => value &&& 0xF800 != wide &&& mask

/-- An entry is reached by every instruction that matches it. -/
structure Reached (n : Nat) (entry : McuInstr16) : Prop where
  at_ : mcuInstr16CortexM0p[n]? = some entry
  alone : alone n entry.mask entry.instr = true

/-- An instruction finds the entry that it matches. -/
theorem Reached.lookup {n : Nat} (reached : Reached n entry)
    (matched : instr &&& entry.mask = entry.instr) : lookup16 instr = some entry := by
  obtain ⟨lt, get⟩ := List.getElem?_eq_some_iff.mp reached.at_
  obtain ⟨first, _⟩ := Bool.and_eq_true_iff.mp reached.alone
  refine List.find?_eq_some_iff_getElem.mpr ⟨decide_eq_true matched, n, lt, get, ?_⟩
  intro j before
  rw [Bool.not_eq_true', decide_eq_false_iff_not]
  intro other
  have mem : (mcuInstr16CortexM0p[j].mask, mcuInstr16CortexM0p[j].instr) ∈ patterns.take n := by
    unfold patterns
    rw [← List.map_take]
    exact List.mem_map_of_mem (List.mem_take_iff_getElem.mpr ⟨j, by omega, rfl⟩)
  have apart := List.all_eq_true.mp first _ mem
  exact bne_iff_ne.mp apart (patterns_agree other matched)

/-- An instruction with a pattern that agrees with no entry is not found. -/
theorem lookup16_none {mask value : UInt16}
    (alone : patterns.all (fun other => other.2 &&& mask != value &&& other.1) = true)
    (matched : instr &&& mask = value) : lookup16 instr = none := by
  refine List.find?_eq_none.mpr fun entry mem => ?_
  rw [decide_eq_true_iff]
  intro other
  have apart := List.all_eq_true.mp alone _ (List.mem_map_of_mem mem)
  exact bne_iff_ne.mp apart (patterns_agree other matched)

/-- The first halfword of a 32-bit instruction does not match a pattern. -/
theorem narrow_of_match {mask value : UInt16} (matched : instr &&& mask = value)
    (narrow : ([0xF800, 0xE800, 0xF000] : List UInt16).all (fun wide =>
      value &&& 0xF800 != wide &&& mask) = true) : isThirtytwo instr = false := by
  have apart : ∀ wide ∈ ([0xF800, 0xE800, 0xF000] : List UInt16),
      (instr &&& 0xF800 == wide) = false := by
    intro wide mem
    refine beq_false_of_ne fun eq => ?_
    exact bne_iff_ne.mp (List.all_eq_true.mp narrow wide mem) (patterns_agree matched eq)
  unfold isThirtytwo
  rw [apart 0xF800 (by simp), apart 0xE800 (by simp), apart 0xF000 (by simp)]
  rfl

theorem Reached.narrow {n : Nat} (reached : Reached n entry)
    (matched : instr &&& entry.mask = entry.instr) : isThirtytwo instr = false :=
  narrow_of_match matched (Bool.and_eq_true_iff.mp reached.alone).2

open Instr16 in
/-- Most instructions name the low registers only. -/
theorem reg_lt (instr shift : UInt16) : reg instr shift 0x7 < 8 := by
  have le : ((instr >>> shift) &&& 0x7).toNat ≤ 7 := by
    rw [UInt16.toNat_and]
    exact Nat.and_le_right
  unfold reg field
  rw [UInt16.toNat_toUInt32]
  exact Nat.lt_succ_of_le le

end Lookup

/-! ## The step -/

section Step

variable {mcu mcu' : Mcu} {instr : UInt16} {entry : McuInstr16}

/-- The step of a 16-bit instruction that is in the table. -/
theorem mcuStep_of_lookup (pastTable : UInt32 → Bool)
    (fetched : mcuFetch16 mcu (mcuReadReg mcu regPc - 2) = some instr)
    (narrow : isThirtytwo instr = false) (looked : lookup16 instr = some entry) :
    mcuStep pastTable mcu = (execute (mcuReadReg mcu regPc) (entry.impl instr)).run Op.handle
      (mcuWriteReg mcu regPc (mcuReadReg mcu regPc + 2)) := by
  unfold mcuStep mcuInstrStep
  rw [run_readReg, run_fetch16, fetched]
  dsimp only
  rw [narrow, if_neg Bool.false_ne_true, run_writeReg, looked]

/-- The step of a 16-bit instruction that is not in the table. -/
theorem mcuStep_of_unkown (pastTable : UInt32 → Bool)
    (fetched : mcuFetch16 mcu (mcuReadReg mcu regPc - 2) = some instr)
    (narrow : isThirtytwo instr = false) (looked : lookup16 instr = none) :
    mcuStep pastTable mcu = (unkownInstruction (mcuReadReg mcu regPc)).run Op.handle
      (mcuWriteReg mcu regPc (mcuReadReg mcu regPc + 2)) := by
  unfold mcuStep mcuInstrStep
  rw [run_readReg, run_fetch16, fetched]
  dsimp only
  rw [narrow, if_neg Bool.false_ne_true, run_writeReg, looked]

/-- An instruction that succeeds. -/
theorem run_execute_true {impl : Instr Bool} (pc : UInt32)
    (ran : impl.run Op.handle mcu = .ok true mcu') :
    (execute pc impl).run Op.handle mcu = .ok true mcu' := by
  unfold execute
  rw [Proc.run_bind, ran]
  rfl

/-- The step executes the entry that an instruction matches, behind the instruction. -/
theorem Reached.step {n : Nat} (reached : Reached n entry) (pastTable : UInt32 → Bool)
    (fetched : mcuFetch16 mcu (mcuReadReg mcu regPc - 2) = some instr)
    (matched : instr &&& entry.mask = entry.instr)
    (ran : (entry.impl instr).run Op.handle (mcuWriteReg mcu regPc (mcuReadReg mcu regPc + 2)) =
      .ok true mcu') : mcuStep pastTable mcu = .ok true mcu' := by
  rw [mcuStep_of_lookup pastTable fetched (reached.narrow matched) (reached.lookup matched)]
  exact run_execute_true _ ran

end Step

/-! ## Programs in the flash -/

/-- The created MCU with given registers, at the first of two instructions in the flash. -/
def programMcu (regs : Reg → UInt32) (first second : UInt16) : Mcu :=
  { createdMcu with
    regs := fun reg => if reg = regPc then 2 else regs reg
    pcEven := by
      rw [if_pos rfl]
      rfl
    flash := LittleEndian.store16 (LittleEndian.store16 createdMcu.flash 2 second) 0 first }

section Program

variable (regs : Reg → UInt32) (first second : UInt16)

theorem readReg_programMcu_pc : mcuReadReg (programMcu regs first second) regPc = 2 := by
  show (if regPc = regPc then (2 : UInt32) else regs regPc) = 2
  exact if_pos rfl

theorem fetched_programMcu : mcuFetch16 (programMcu regs first second)
    (mcuReadReg (programMcu regs first second) regPc - 2) = some first := by
  have loaded : mcuFetch16 (programMcu regs first second) 0 =
      some (LittleEndian.load16 (programMcu regs first second).flash 0) := rfl
  rw [readReg_programMcu_pc, UInt32.sub_self, loaded]
  exact congrArg some (LittleEndian.load16_store16 _ 0 first)

theorem fetched_programMcu_next : mcuFetch16 (programMcu regs first second)
    (mcuReadReg (programMcu regs first second) regPc) = some second := by
  have loaded : mcuFetch16 (programMcu regs first second) 2 =
      some (LittleEndian.load16 (programMcu regs first second).flash 2) := rfl
  have kept : LittleEndian.load16 (programMcu regs first second).flash 2 =
      LittleEndian.load16 (LittleEndian.store16 createdMcu.flash 2 second) 2 := rfl
  rw [readReg_programMcu_pc, loaded, kept, LittleEndian.load16_store16]

end Program

end TheFirmware.Simulator
