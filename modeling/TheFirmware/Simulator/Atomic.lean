import TheFirmware.Simulator.Lookup
import TheFirmware.Simulator.Multiple

/-!
# Failed steps

`mcu_instr_step` looks an instruction up and executes it, and restores the PC when it fails. Whether
a failed step has left all registers as they were depends on the instruction: most of them fail
clean, and for the four that access several words there is a condition on the state before the step.
-/

namespace TheFirmware.Simulator

open Instr16

/-! ## Looking up an instruction -/

section Lookup

variable {instr : UInt16} {entry : McuInstr16}

/-- The entries of the four instructions. -/
theorem impl_of_instr (mem : entry ∈ mcuInstr16CortexM0p) :
    (entry.instr = 0xC800 → entry.mask = 0xF800 ∧ entry.impl = ldmia) ∧
    (entry.instr = 0xBC00 → entry.mask = 0xFE00 ∧ entry.impl = pop) ∧
    (entry.instr = 0xB400 → entry.mask = 0xFE00 ∧ entry.impl = push) ∧
    (entry.instr = 0xC000 → entry.mask = 0xF800 ∧ entry.impl = stmia) := by
  revert entry
  simp only [mcuInstr16CortexM0p, List.forall_mem_cons]
  simp

theorem reached_ldmia : Reached 25 ⟨0xF800, 0xC800, ldmia⟩ := ⟨rfl, by decide⟩

theorem reached_pop : Reached 47 ⟨0xFE00, 0xBC00, pop⟩ := ⟨rfl, by decide⟩

theorem reached_push : Reached 48 ⟨0xFE00, 0xB400, push⟩ := ⟨rfl, by decide⟩

theorem reached_stmia : Reached 54 ⟨0xF800, 0xC000, stmia⟩ := ⟨rfl, by decide⟩

end Lookup

/-! ## The step -/

/-- When a step fails, all registers, the stack pointer, the PC and the flags are as before. -/
def StepAtomic (pastTable : UInt32 → Bool) (mcu : Mcu) : Prop :=
  ∀ mcu', mcuStep pastTable mcu = .ok false mcu' → mcu.SameRegisters mcu'

/-- The four instructions that access several words do no harm when they fail. -/
def StepHarmless (mcu : Mcu) : Prop :=
  ∀ instr, mcuFetch16 mcu (mcuReadReg mcu regPc - 2) = some instr →
    (instr &&& 0xF800 = 0xC800 →
      LoadFaults mcu (fun _ => False) (regList instr) (mcuReadReg mcu (reg instr 8 0x7)) →
        LoadsSame mcu (regList instr) (mcuReadReg mcu (reg instr 8 0x7))) ∧
    (instr &&& 0xFE00 = 0xBC00 →
      LoadFaults mcu (ReturnFaults mcu instr) (regList instr) (mcuReadReg mcu regSp) →
        LoadsSame mcu (regList instr) (mcuReadReg mcu regSp)) ∧
    (instr &&& 0xFE00 = 0xB400 → PushHarmless mcu (pushList instr) (pushSp mcu instr)) ∧
    (instr &&& 0xF800 = 0xC000 →
      StoresHarmless mcu (regList instr) (mcuReadReg mcu (reg instr 8 0x7)))

section Step

variable {mcu : Mcu} {instr : UInt16} {impl : Instr Bool}

/-- The registers are restored exactly when the instruction has kept them. -/
theorem execute_atomic (mcu : Mcu) (impl : Instr Bool) (pc : UInt32) :
    (∀ mcu', (execute (mcuReadReg mcu regPc) impl).run Op.handle (mcuWriteReg mcu regPc pc) =
      .ok false mcu' → mcu.SameRegisters mcu') ↔ FailsKept impl (mcuWriteReg mcu regPc pc) := by
  have whole : (execute (mcuReadReg mcu regPc) impl).run Op.handle (mcuWriteReg mcu regPc pc) =
      (impl >>= fun done =>
        if done then pure true
        else writeReg regPc (mcuReadReg mcu regPc) >>= fun _ => pure false).run Op.handle
          (mcuWriteReg mcu regPc pc) := rfl
  rw [Proc.run_bind] at whole
  rw [whole]
  unfold FailsKept
  cases ran : impl.run Op.handle (mcuWriteReg mcu regPc pc) with
  | error stop mcu₂ => exact iff_of_true (fun _ failed => nomatch failed) fun _ failed => nomatch failed
  | ok done mcu₂ =>
      cases done with
      | true => exact iff_of_true (fun _ failed => nomatch failed) fun _ failed => nomatch failed
      | false =>
          have restored := sameRegisters_iff mcu mcu₂ pc
          constructor
          · intro same mcu' failed
            cases failed
            exact restored.mp (same _ rfl)
          · intro kept mcu' failed
            cases failed
            exact restored.mpr (kept _ rfl)

/-- A clean instruction keeps the registers when it fails. -/
theorem FailsClean.failsKept (clean : FailsClean impl) (mcu : Mcu) : FailsKept impl mcu :=
  fun _ ran => .of_regs (clean.run ran)

/-- The PC has been moved behind the instruction; this makes no difference to the conditions. -/
theorem failsKept_ldmia_step (mcu : Mcu) (instr : UInt16) (pc : UInt32) :
    FailsKept (ldmia instr) (mcuWriteReg mcu regPc pc) ↔
      (LoadFaults mcu (fun _ => False) (regList instr) (mcuReadReg mcu (reg instr 8 0x7)) →
        LoadsSame mcu (regList instr) (mcuReadReg mcu (reg instr 8 0x7))) := by
  have fetches := fetch32_writeReg mcu regPc pc
  have base : reg instr 8 0x7 ≠ regPc := ((reg_lt instr 8).trans (by decide)).ne
  have read : ∀ r ∈ regList instr, mcuReadReg (mcuWriteReg mcu regPc pc) r = mcuReadReg mcu r :=
    fun r mem => mcuReadReg_writePc mcu pc ((lt_of_mem_regList mem).trans (by decide)).ne
  rw [failsKept_ldmia, mcuReadReg_writePc _ _ base, loadFaults_congr fetches,
    loadsSame_congr fetches read]

theorem failsKept_pop_step (mcu : Mcu) (instr : UInt16) (pc : UInt32) :
    FailsKept (pop instr) (mcuWriteReg mcu regPc pc) ↔
      (LoadFaults mcu (ReturnFaults mcu instr) (regList instr) (mcuReadReg mcu regSp) →
        LoadsSame mcu (regList instr) (mcuReadReg mcu regSp)) := by
  have fetches := fetch32_writeReg mcu regPc pc
  have returns : ReturnFaults (mcuWriteReg mcu regPc pc) instr = ReturnFaults mcu instr := by
    funext sp
    unfold ReturnFaults
    rw [fetches]
  have read : ∀ r ∈ regList instr, mcuReadReg (mcuWriteReg mcu regPc pc) r = mcuReadReg mcu r :=
    fun r mem => mcuReadReg_writePc mcu pc ((lt_of_mem_regList mem).trans (by decide)).ne
  rw [failsKept_pop, mcuReadReg_writePc _ _ (by decide), returns, loadFaults_congr fetches,
    loadsSame_congr fetches read]

theorem failsKept_push_step (mcu : Mcu) (instr : UInt16) (pc : UInt32) :
    FailsKept (push instr) (mcuWriteReg mcu regPc pc) ↔
      PushHarmless mcu (pushList instr) (pushSp mcu instr) := by
  have sp : pushSp (mcuWriteReg mcu regPc pc) instr = pushSp mcu instr := by
    unfold pushSp
    rw [mcuReadReg_writePc _ _ (by decide)]
  rw [failsKept_push, sp]
  cases list : pushList instr with
  | nil => exact Iff.rfl
  | cons first rest =>
      obtain ⟨lt, _⟩ := of_mem_pushList (list ▸ List.mem_cons_self : first ∈ pushList instr)
      rw [pushHarmless_cons, pushHarmless_cons, storeFaults_congr (accepts_writeReg mcu regPc pc),
        mcuReadReg_writePc _ _ lt.ne, mcuReadReg_writePc _ _ (by decide), fetch32_writeReg]
      exact Iff.rfl

theorem failsKept_stmia_step (mcu : Mcu) (instr : UInt16) (pc : UInt32) :
    FailsKept (stmia instr) (mcuWriteReg mcu regPc pc) ↔
      StoresHarmless mcu (regList instr) (mcuReadReg mcu (reg instr 8 0x7)) := by
  have base : reg instr 8 0x7 ≠ regPc := ((reg_lt instr 8).trans (by decide)).ne
  rw [failsKept_stmia, mcuReadReg_writePc _ _ base]
  cases list : regList instr with
  | nil => exact Iff.rfl
  | cons first rest =>
      have low : first < 8 := lt_of_mem_regList (list ▸ List.mem_cons_self : first ∈ regList instr)
      rw [storesHarmless_cons, storesHarmless_cons,
        storeFaults_congr (accepts_writeReg mcu regPc pc),
        mcuReadReg_writePc _ _ (low.trans (by decide)).ne, mcuReadReg_writePc _ _ (by decide),
        fetch32_writeReg]
      exact Iff.rfl

/-- The step executes a 16-bit instruction that is in the table. -/
theorem stepAtomic_of_lookup {entry : McuInstr16} (pastTable : UInt32 → Bool)
    (fetched : mcuFetch16 mcu (mcuReadReg mcu regPc - 2) = some instr)
    (narrow : isThirtytwo instr = false) (looked : lookup16 instr = some entry) :
    StepAtomic pastTable mcu ↔
      FailsKept (entry.impl instr) (mcuWriteReg mcu regPc (mcuReadReg mcu regPc + 2)) := by
  rw [← execute_atomic]
  unfold StepAtomic
  rw [mcuStep_of_lookup pastTable fetched narrow looked]

theorem Reached.stepAtomic {entry : McuInstr16} {n : Nat} (reached : Reached n entry)
    (pastTable : UInt32 → Bool) (fetched : mcuFetch16 mcu (mcuReadReg mcu regPc - 2) = some instr)
    (matched : instr &&& entry.mask = entry.instr) :
    StepAtomic pastTable mcu ↔
      FailsKept (entry.impl instr) (mcuWriteReg mcu regPc (mcuReadReg mcu regPc + 2)) :=
  stepAtomic_of_lookup pastTable fetched (reached.narrow matched) (reached.lookup matched)

/-- No entry matches the instruction. -/
theorem sameRegisters_unkown (mcu : Mcu) (pc : UInt32) :
    ∀ mcu', (unkownInstruction (mcuReadReg mcu regPc)).run Op.handle (mcuWriteReg mcu regPc pc) =
      .ok false mcu' → mcu.SameRegisters mcu' := by
  intro mcu' ran
  have whole : (unkownInstruction (mcuReadReg mcu regPc)).run Op.handle (mcuWriteReg mcu regPc pc) =
      .ok false (mcuHalt (mcuWriteReg (mcuWriteReg mcu regPc pc) regPc (mcuReadReg mcu regPc))
        haltUnkownInstruction) := rfl
  have restored := (sameRegisters_iff mcu (mcuWriteReg mcu regPc pc) pc).mpr (.of_regs rfl)
  rw [whole] at ran
  cases ran
  exact restored.halt haltUnkownInstruction

/-- An instruction cannot be fetched. -/
theorem sameRegisters_fault (mcu : Mcu) :
    ∀ mcu', (halt haltHardFault >>= fun _ => (pure false : Instr Bool)).run Op.handle mcu =
      .ok false mcu' → mcu.SameRegisters mcu' := by
  intro mcu' ran
  have whole : (halt haltHardFault >>= fun _ => (pure false : Instr Bool)).run Op.handle mcu =
      .ok false (mcuHalt mcu haltHardFault) := rfl
  rw [whole] at ran
  cases ran
  exact .of_regs (regs_mcuHalt mcu haltHardFault)

/-- The step of a 32-bit instruction. -/
theorem stepAtomic_of_wide (pastTable : UInt32 → Bool)
    (fetched : mcuFetch16 mcu (mcuReadReg mcu regPc - 2) = some instr)
    (wide : isThirtytwo instr = true) : StepAtomic pastTable mcu := by
  unfold StepAtomic mcuStep mcuInstrStep
  rw [run_readReg, run_fetch16, fetched]
  dsimp only
  rw [wide, if_pos rfl, run_fetch16]
  cases mcuFetch16 mcu (mcuReadReg mcu regPc + 2 - 2) with
  | none => exact sameRegisters_fault mcu
  | some low =>
      dsimp only
      rw [run_writeReg]
      generalize (instr.toUInt32 <<< 16) ||| low.toUInt32 = word
      cases looked : lookup32 word with
      | some entry =>
          have mem : entry ∈ mcuInstr32CortexM0p := by
            unfold lookup32 at looked
            exact List.mem_of_find?_eq_some looked
          exact (execute_atomic mcu _ _).mpr ((failsClean_of_mem32 mem word).failsKept _)
      | none =>
          dsimp only
          split
          · intro mcu' ran
            cases ran
          · exact sameRegisters_unkown mcu _

/-- The step of an instruction with none of the four patterns. -/
theorem stepAtomic_of_single (pastTable : UInt32 → Bool)
    (fetched : mcuFetch16 mcu (mcuReadReg mcu regPc - 2) = some instr)
    (notLdmia : instr &&& 0xF800 ≠ 0xC800) (notPop : instr &&& 0xFE00 ≠ 0xBC00)
    (notPush : instr &&& 0xFE00 ≠ 0xB400) (notStmia : instr &&& 0xF800 ≠ 0xC000) :
    StepAtomic pastTable mcu := by
  cases wide : isThirtytwo instr with
  | true => exact stepAtomic_of_wide pastTable fetched wide
  | false =>
      cases looked : lookup16 instr with
      | some entry =>
          obtain ⟨mem, matched⟩ := lookup16_some looked
          obtain ⟨ofLdmia, ofPop, ofPush, ofStmia⟩ := impl_of_instr mem
          have single : entry.instr ∉ ([0xC800, 0xBC00, 0xB400, 0xC000] : List UInt16) := by
            simp only [List.mem_cons, List.not_mem_nil, or_false, not_or]
            refine ⟨fun eq => notLdmia ?_, fun eq => notPop ?_, fun eq => notPush ?_,
              fun eq => notStmia ?_⟩
            · rw [← (ofLdmia eq).1, matched, eq]
            · rw [← (ofPop eq).1, matched, eq]
            · rw [← (ofPush eq).1, matched, eq]
            · rw [← (ofStmia eq).1, matched, eq]
          rw [stepAtomic_of_lookup pastTable fetched wide looked]
          exact (failsClean_of_mem mem single instr).failsKept _
      | none =>
          unfold StepAtomic
          rw [mcuStep_of_unkown pastTable fetched wide looked]
          exact sameRegisters_unkown mcu _

end Step

/-- **Failed steps**: for every state of the MCU, a step that fails leaves all registers, the stack
pointer, the PC and the flags as they were, if and only if the instruction at the PC is not one of
the four that have changed a register before an access fails. -/
theorem stepAtomic_iff (pastTable : UInt32 → Bool) (mcu : Mcu) :
    StepAtomic pastTable mcu ↔ StepHarmless mcu := by
  unfold StepHarmless
  cases fetched : mcuFetch16 mcu (mcuReadReg mcu regPc - 2) with
  | none =>
      refine iff_of_true ?_ fun instr absent => nomatch absent
      unfold StepAtomic mcuStep mcuInstrStep
      rw [run_readReg, run_fetch16, fetched]
      exact sameRegisters_fault mcu
  | some instr =>
      simp only [Option.some_inj, forall_eq']
      -- at most one of the four patterns matches
      have apart : ∀ {mask value mask' value' : UInt16} {P : Prop}, instr &&& mask = value →
          value &&& mask' ≠ value' &&& mask → instr &&& mask' = value' → P :=
        fun first ne second => absurd (patterns_agree first second) ne
      by_cases isLdmia : instr &&& 0xF800 = 0xC800
      · rw [reached_ldmia.stepAtomic pastTable fetched isLdmia, failsKept_ldmia_step,
          imp_iff_right isLdmia]
        exact (and_iff_left ⟨apart isLdmia (by decide), apart isLdmia (by decide),
          apart isLdmia (by decide)⟩).symm
      rw [and_iff_right fun matched => absurd matched isLdmia]
      by_cases isPop : instr &&& 0xFE00 = 0xBC00
      · rw [reached_pop.stepAtomic pastTable fetched isPop, failsKept_pop_step,
          imp_iff_right isPop]
        exact (and_iff_left ⟨apart isPop (by decide), apart isPop (by decide)⟩).symm
      rw [and_iff_right fun matched => absurd matched isPop]
      by_cases isPush : instr &&& 0xFE00 = 0xB400
      · rw [reached_push.stepAtomic pastTable fetched isPush, failsKept_push_step,
          imp_iff_right isPush]
        exact (and_iff_left (apart isPush (by decide))).symm
      rw [and_iff_right fun matched => absurd matched isPush]
      by_cases isStmia : instr &&& 0xF800 = 0xC000
      · rw [reached_stmia.stepAtomic pastTable fetched isStmia, failsKept_stmia_step,
          imp_iff_right isStmia]
      · exact iff_of_true (stepAtomic_of_single pastTable fetched isLdmia isPop isPush isStmia)
          fun matched => absurd matched isStmia

/-- The MCU at a `push {r0}` at address 0, with the stack pointer 0. -/
def pushMcu : Mcu :=
  { createdMcu with
    regs := fun reg => if reg = regPc then 2 else 0
    pcEven := rfl
    flash := fun addr => if addr = 0 then 0x01 else 0xB4 }

/-- The word at 0xFFFFFFFC cannot be written; PUSH has moved the stack pointer there. -/
theorem push_moves_stack_pointer : ¬ StepAtomic (fun _ => false) pushMcu := by
  intro atomic
  have fetched : mcuFetch16 pushMcu (mcuReadReg pushMcu regPc - 2) = some 0xB401 := rfl
  rw [reached_push.stepAtomic _ fetched rfl, failsKept_push_step] at atomic
  have list : pushList 0xB401 = [0] := by decide
  rw [list, pushHarmless_cons] at atomic
  rcases atomic (.inl rfl) with exits | resets
  · exact absurd exits.1 (by decide)
  · exact absurd (accepts_of_resets resets.1) (by decide)

end TheFirmware.Simulator
