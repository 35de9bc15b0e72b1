import TheFirmware.Simulator.Step

/-!
# Instructions that fail clean

`mcu_instr_step` restores the PC when an instruction fails. For most instructions this is enough,
since they change no other register before they fail (`FailsClean`). This is a property of the
program alone; that a run which fails leaves the registers follows for all such programs at once
(`FailsClean.run`).
-/

namespace TheFirmware.Simulator

/-- A program changes no register before it fails: whatever it does after a change, it succeeds. A
write that succeeds counts as a change, since the device for unit tests may reset the MCU. -/
def FailsClean : Instr Bool → Prop
  | .ret _ => True
  | .call (.readReg _) next => ∀ r, FailsClean (next r)
  | .call (.writeReg _ _) next => (next ()).All (· = true)
  | .call (.fetch16 _) next => ∀ r, FailsClean (next r)
  | .call (.fetch32 _) next => ∀ r, FailsClean (next r)
  | .call (.write16 _ _) next => (next true).All (· = true) ∧ FailsClean (next false)
  | .call (.write32 _ _) next => (next true).All (· = true) ∧ FailsClean (next false)
  | .call (.halt _) next => FailsClean (next ())
  | .call .wildCall next => ∀ r, FailsClean (next r)

section FailsClean

@[simp] theorem failsClean_ret (b : Bool) : FailsClean (.ret b) ↔ True := Iff.rfl

@[simp] theorem failsClean_pure (b : Bool) : FailsClean (pure b) ↔ True := Iff.rfl

@[simp] theorem failsClean_readReg (reg : Reg) (f : UInt32 → Instr Bool) :
    FailsClean (readReg reg >>= f) ↔ ∀ r, FailsClean (f r) := Iff.rfl

@[simp] theorem failsClean_writeReg (reg : Reg) (val : UInt32) (f : Unit → Instr Bool) :
    FailsClean (writeReg reg val >>= f) ↔ (f ()).All (· = true) := Iff.rfl

@[simp] theorem failsClean_fetch16 (addr : UInt32) (f : Option UInt16 → Instr Bool) :
    FailsClean (fetch16 addr >>= f) ↔ ∀ r, FailsClean (f r) := Iff.rfl

@[simp] theorem failsClean_fetch32 (addr : UInt32) (f : Option UInt32 → Instr Bool) :
    FailsClean (fetch32 addr >>= f) ↔ ∀ r, FailsClean (f r) := Iff.rfl

@[simp] theorem failsClean_write16 (addr : UInt32) (value : UInt16) (f : Bool → Instr Bool) :
    FailsClean (write16 addr value >>= f) ↔ (f true).All (· = true) ∧ FailsClean (f false) :=
  Iff.rfl

@[simp] theorem failsClean_write32 (addr value : UInt32) (f : Bool → Instr Bool) :
    FailsClean (write32 addr value >>= f) ↔ (f true).All (· = true) ∧ FailsClean (f false) :=
  Iff.rfl

@[simp] theorem failsClean_halt (reason : Int) (f : Unit → Instr Bool) :
    FailsClean (halt reason >>= f) ↔ FailsClean (f ()) := Iff.rfl

@[simp] theorem failsClean_ite {c : Prop} [Decidable c] (p q : Instr Bool) :
    FailsClean (if c then p else q) ↔ if c then FailsClean p else FailsClean q := by
  split
  · exact Iff.rfl
  · exact Iff.rfl

@[simp] theorem failsClean_updateFlag (flag : UInt32) (set : Bool) (f : Unit → Instr Bool) :
    FailsClean (mcuUpdateFlag flag set >>= f) ↔ (f ()).All (· = true) := by
  show (∀ _ : UInt32, (f ()).All (· = true)) ↔ (f ()).All (· = true)
  exact forall_const UInt32

@[simp] theorem failsClean_updateCflagBit (val : UInt32) (f : Unit → Instr Bool) :
    FailsClean (mcuUpdateCflagBit val >>= f) ↔ (f ()).All (· = true) :=
  failsClean_updateFlag _ _ f

@[simp] theorem failsClean_updateZflag (c : UInt32) (f : Unit → Instr Bool) :
    FailsClean (mcuUpdateZflag c >>= f) ↔ (f ()).All (· = true) :=
  failsClean_updateFlag _ _ f

open Instr16

@[simp] theorem failsClean_updateNZ (c : UInt32) (f : Unit → Instr Bool) :
    FailsClean (updateNZ c >>= f) ↔ (f ()).All (· = true) := by
  have assoc : (updateNZ c >>= f) =
      mcuUpdateFlag cpsrN (c &&& bit 31 != 0) >>= fun _ => mcuUpdateZflag c >>= f := rfl
  have second : (mcuUpdateZflag c >>= f).All (· = true) ↔
      ∀ _ : UInt32, ∀ done : Unit, (f done).All (· = true) := Iff.rfl
  rw [assoc, failsClean_updateFlag, second]
  exact ⟨fun all => all 0 (), fun all _ _ => all⟩

@[simp] theorem failsClean_ldr (dest : Reg) (addr : UInt32) : FailsClean (ldr dest addr) := by
  simp [ldr, mcuFetchError, Option.forall]

@[simp] theorem failsClean_ldrb (dest : Reg) (addr : UInt32) : FailsClean (ldrb dest addr) := by
  simp [ldrb, mcuFetchError, Option.forall]

@[simp] theorem failsClean_ldrh (dest : Reg) (addr : UInt32) : FailsClean (ldrh dest addr) := by
  simp [ldrh, mcuFetchError, Option.forall]

@[simp] theorem failsClean_str (addr shown val : UInt32) : FailsClean (str addr shown val) := by
  simp [str, mcuWriteError]

@[simp] theorem failsClean_strb (dest : Reg) (addr : UInt32) : FailsClean (strb dest addr) := by
  simp [strb, mcuFetchError, Option.forall]

@[simp] theorem failsClean_strh (addr val : UInt32) : FailsClean (strh addr val) := by
  simp [strh, mcuWriteError]

theorem failsClean_ldrsb (instr : UInt16) : FailsClean (ldrsb instr) := by
  simp [ldrsb, mcuFetchError, Option.forall]

theorem failsClean_ldrsh (instr : UInt16) : FailsClean (ldrsh instr) := by
  simp [ldrsh, mcuFetchError, Option.forall]

theorem failsClean_msr (instr : UInt32) : FailsClean (Instr32.msr instr) := by
  simp [Instr32.msr]

theorem failsClean_mrs (instr : UInt32) : FailsClean (Instr32.mrs instr) := by
  unfold Instr32.mrs
  dsimp only
  split
  · split
    · split
      · simp
      · simp
    · split
      · simp
      · simp
  · simp

theorem failsClean_bl (instr : UInt32) : FailsClean (Instr32.bl instr) := by
  simp [Instr32.bl]

end FailsClean

open Instr16 in
/-- All instructions but LDMIA, POP, PUSH and STMIA fail clean. -/
theorem failsClean_of_mem {entry : McuInstr16} (mem : entry ∈ mcuInstr16CortexM0p)
    (single : entry.instr ∉ ([0xC800, 0xBC00, 0xB400, 0xC000] : List UInt16)) (instr : UInt16) :
    FailsClean (entry.impl instr) := by
  revert entry
  simp only [mcuInstr16CortexM0p, List.forall_mem_cons]
  simp [add1, add2, add3, add4, add5, add6, add7, and_, asr1, asr2, b1, b2,
    bic, bkpt, bl10, bl11, bl01, blx2, bx, cmn, cmp1, cmp2, cmp3, cpy, eor, ldr1, ldr2, ldr3, ldr4,
    ldrb1, ldrb2, ldrh1, ldrh2, failsClean_ldrsb, failsClean_ldrsh, lsl1, lsl2, lsr1, lsr2, mov1,
    mov2, mov3, mul, mvn, neg, orr, rev, rev16, revsh, ror, sbc, str1, str2, str3, strb1, strb2,
    strh1, strh2, sub1, sub2, sub3, sub4, swi, sxtb, sxth, tst, uxtb, uxth, wfe, wfi, adds, subs,
    cmps, logic, extend]

theorem failsClean_of_mem32 {entry : McuInstr32} (mem : entry ∈ mcuInstr32CortexM0p)
    (instr : UInt32) : FailsClean (entry.impl instr) := by
  simp only [mcuInstr32CortexM0p, List.mem_cons, List.not_mem_nil, or_false] at mem
  rcases mem with rfl | rfl | rfl
  · exact failsClean_msr instr
  · exact failsClean_mrs instr
  · exact failsClean_bl instr

/-! ## Runs that fail -/

section Runs

variable {mcu mcu' : Mcu} {addr : UInt32}

theorem run_readReg {α : Type} (mcu : Mcu) (reg : Reg) (f : UInt32 → Instr α) :
    (readReg reg >>= f).run Op.handle mcu = (f (mcuReadReg mcu reg)).run Op.handle mcu := rfl

theorem run_writeReg {α : Type} (mcu : Mcu) (reg : Reg) (val : UInt32) (f : Unit → Instr α) :
    (writeReg reg val >>= f).run Op.handle mcu =
      (f ()).run Op.handle (mcuWriteReg mcu reg val) := rfl

theorem run_fetch16 {α : Type} (mcu : Mcu) (addr : UInt32) (f : Option UInt16 → Instr α) :
    (fetch16 addr >>= f).run Op.handle mcu = (f (mcuFetch16 mcu addr)).run Op.handle mcu := rfl

theorem run_fetch32 {α : Type} (mcu : Mcu) (addr : UInt32) (f : Option UInt32 → Instr α) :
    (fetch32 addr >>= f).run Op.handle mcu = (f (mcuFetch32 mcu addr)).run Op.handle mcu := rfl

theorem unittestFinished_ne_false (mcu mcu' : Mcu) (temp : UInt32) :
    unittestFinished mcu temp ≠ .ok false mcu' := by
  unfold unittestFinished
  dsimp only
  intro finished
  split at finished
  · cases finished
  · cases finished

theorem unittestDevWrite32_false {temp : UInt32}
    (written : unittestDevWrite32 mcu addr temp = .ok false mcu') : mcu' = mcu := by
  unfold unittestDevWrite32 at written
  dsimp only at written
  repeat' split at written
  -- the offset of the status, when a test has finished
  case isTrue.isTrue => exact absurd written (unittestFinished_ne_false _ _ _)
  all_goals cases written
  all_goals rfl

/-- A halfword that cannot be written changes nothing. -/
theorem mcuWrite16_false {value : UInt16} (written : mcuWrite16 mcu addr value = .ok false mcu') :
    mcu' = mcu := by
  unfold mcuWrite16 at written
  split at written
  · rename_i dev offset _
    cases dev with
    | unittest =>
        unfold Device.write16 mcuEmuWrite16 at written
        dsimp only at written
        split at written
        · cases written
          rfl
        · exact unittestDevWrite32_false written
    | uart => cases written
    | ram => cases written
    | flash =>
        unfold Device.write16 at written
        dsimp only at written
        split at written
        · cases written
        · cases written
          rfl
  · cases written
    rfl

/-- A word that cannot be written changes nothing. -/
theorem mcuWrite32_false {value : UInt32} (written : mcuWrite32 mcu addr value = .ok false mcu') :
    mcu' = mcu := by
  unfold mcuWrite32 at written
  split at written
  · rename_i dev offset _
    cases dev with
    | unittest => exact unittestDevWrite32_false written
    | uart => cases written
    | ram => cases written
    | flash =>
        unfold Device.write32 at written
        dsimp only at written
        split at written
        · cases written
        · cases written
          rfl
  · cases written
    rfl

@[simp] theorem regs_mcuHalt (mcu : Mcu) (reason : Int) : (mcuHalt mcu reason).regs = mcu.regs := by
  unfold mcuHalt
  split
  · rfl
  · rfl

/-- A program that fails clean leaves the registers when it fails. -/
theorem FailsClean.run {p : Instr Bool} (clean : FailsClean p)
    (ran : p.run Op.handle mcu = .ok false mcu') : mcu'.regs = mcu.regs := by
  -- a run that has changed a register returns true
  have done : ∀ {q : Instr Bool} {s : Mcu}, q.All (· = true) → q.run Op.handle s ≠ .ok false mcu' :=
    fun all ran => Bool.false_ne_true (all.run ran)
  induction p generalizing mcu with
  | ret b =>
      cases ran
      rfl
  | call op next ih =>
      cases op with
      | readReg reg => exact ih _ (clean _) ran
      | writeReg reg val =>
          have all : (next ()).All (· = true) := clean
          have after : (next ()).run Op.handle (mcuWriteReg mcu reg val) = .ok false mcu' := ran
          exact absurd after (done all)
      | fetch16 addr => exact ih _ (clean _) ran
      | fetch32 addr => exact ih _ (clean _) ran
      | write16 addr value =>
          have all : (next true).All (· = true) := clean.1
          cases written : mcuWrite16 mcu addr value with
          | ok succeeded mcu₁ =>
              rw [Proc.run_call_ok next (show Op.handle (.write16 addr value) mcu = _ from written)]
                at ran
              cases succeeded with
              | false =>
                  rw [mcuWrite16_false written] at ran
                  exact ih _ clean.2 ran
              | true => exact absurd ran (done all)
          | error stop mcu₁ =>
              rw [Proc.run_call_error next (show Op.handle (.write16 addr value) mcu = _ from written)]
                at ran
              cases ran
      | write32 addr value =>
          have all : (next true).All (· = true) := clean.1
          cases written : mcuWrite32 mcu addr value with
          | ok succeeded mcu₁ =>
              rw [Proc.run_call_ok next (show Op.handle (.write32 addr value) mcu = _ from written)]
                at ran
              cases succeeded with
              | false =>
                  rw [mcuWrite32_false written] at ran
                  exact ih _ clean.2 ran
              | true => exact absurd ran (done all)
          | error stop mcu₁ =>
              rw [Proc.run_call_error next (show Op.handle (.write32 addr value) mcu = _ from written)]
                at ran
              cases ran
      | halt reason =>
          rw [← regs_mcuHalt mcu reason]
          exact ih _ clean ran
      | wildCall => cases ran

end Runs

end TheFirmware.Simulator
