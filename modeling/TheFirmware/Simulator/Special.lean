import TheFirmware.Simulator.LoadStore
import TheFirmware.Simulator.Wide

/-!
# Special registers

MSR moves a low register to a special register and MRS moves a special register to a low one. The
`switch` statements behind them have no `break` where APSR is handled: MSR goes on to write MSP, and
MRS, which writes its value to the memory at the number of the register and not to the register,
goes on to read MSP. `special_iff` says in which states this is not seen.
-/

namespace TheFirmware.Simulator

open LittleEndian

/-- The special registers that MSR and MRS move. -/
inductive SpecialReg : Type
  | apsr
  | msp
  | psp
  | control
  deriving DecidableEq, Repr

/-- SYSm, the number of the register in an instruction. -/
def SpecialReg.number : SpecialReg → UInt16
  | apsr => 0
  | msp => 8
  | psp => 9
  | control => 0x14

/-- `msr S, Rn` -/
def SpecialReg.EncodesMsr (s : SpecialReg) (rn : Reg) (first second : UInt16) : Prop :=
  rn < 8 ∧ first = (0xF380 : UInt16) ||| UInt16.ofNat rn ∧ second = (0x8800 : UInt16) ||| s.number

/-- `mrs Rd, S` -/
def SpecialReg.EncodesMrs (s : SpecialReg) (rd : Reg) (first second : UInt16) : Prop :=
  rd < 8 ∧ first = 0xF3EF ∧ second = (0x8000 : UInt16) ||| (UInt16.ofNat rd <<< 8) ||| s.number

/-- The MCU with a value in the special register. In APSR, only the flags are set. -/
def SpecialReg.set (s : SpecialReg) (mcu : Mcu) (val : UInt32) : Mcu :=
  match s with
  | apsr => mcu.setXpsr 0xF0000000 val
  | msp => mcu.setReg regMsp val
  | psp => mcu.setReg regPsp val
  | control => mcu.setReg regControl val

/-- The part of a value that the special register takes. -/
def SpecialReg.masked (s : SpecialReg) (val : UInt32) : UInt32 :=
  match s with
  | apsr => val &&& 0xF0000000
  | _ => val

/-- The instruction is at the PC. -/
structure Mcu.At (mcu : Mcu) (first second : UInt16) : Prop where
  first : mcuFetch16 mcu (mcuReadReg mcu regPc - 2) = some first
  second : mcuFetch16 mcu (mcuReadReg mcu regPc) = some second

/-- A step writes a low register to a special register, goes to the next instruction and changes
nothing else. -/
def SpecialReg.MovesTo (s : SpecialReg) (pastTable : UInt32 → Bool) (mcu : Mcu) (rn : Reg) :
    Prop :=
  mcuStep pastTable mcu = .ok true (s.set mcu.advancedWide (mcuReadReg mcu rn))

/-- A step writes a low register, goes to the next instruction and changes nothing else. -/
def MovesFrom (pastTable : UInt32 → Bool) (mcu : Mcu) (rd : Reg) : Prop :=
  ∃ val, mcuStep pastTable mcu = .ok true (mcu.advancedWide.setReg rd val)

/-- Two steps move a low register to a special register, and what the special register takes of it
to a low register. -/
def SpecialReg.Moves (s : SpecialReg) (pastTable : UInt32 → Bool) (mcu : Mcu) (rn rd : Reg) :
    Prop :=
  let val := mcuReadReg mcu rn
  ∃ mcu₁, mcuStep pastTable mcu = .ok true mcu₁ ∧
    mcuStep pastTable mcu₁ =
      .ok true ((s.set mcu.advancedWide val).advancedWide.setReg rd (s.masked val))

/-- The flash is locked, or the word of it that the number of the register lies in is 0. -/
def FlashKept (mcu : Mcu) (rd : Reg) : Prop :=
  mcu.unlocked = true → load32 mcu.flash (4 * (rd / 4)) = 0

/-! ## Encodings -/

section Encodings

variable {s : SpecialReg} {rn rd : Reg} {first second : UInt16}

theorem SpecialReg.EncodesMsr.fields (encodes : s.EncodesMsr rn first second) :
    isThirtytwo first = true ∧ first &&& 0xFFE0 = 0xF380 ∧ sysm second = s.number.toUInt32 ∧
      ((wide first second >>> 16) &&& (0x7 : UInt32)).toNat = rn := by
  rcases encodes with ⟨low, rfl, rfl⟩
  interval_cases rn <;> cases s <;> decide

theorem SpecialReg.EncodesMrs.fields (encodes : s.EncodesMrs rd first second) :
    isThirtytwo first = true ∧ first &&& 0xFFE0 = 0xF3E0 ∧ sysm second = s.number.toUInt32 ∧
      ((wide first second >>> 8) &&& (0xF : UInt32)).toNat = rd := by
  rcases encodes with ⟨low, rfl, rfl⟩
  interval_cases rd <;> cases s <;> decide

end Encodings

/-! ## The moves -/

section Moves

variable {s : SpecialReg} {rn rd : Reg} {first second third fourth : UInt16} {mcu : Mcu}
  {instr : UInt32}

/-- What MSR leaves. -/
def SpecialReg.wrote (s : SpecialReg) (mcu : Mcu) (val : UInt32) : Mcu :=
  match s with
  | apsr => (mcu.setXpsr 0xF0000000 val).setReg regMsp val
  | s => s.set mcu val

/-- The word of the flash that the number of a register lies in, set to 0. -/
def Mcu.cleared (mcu : Mcu) (rd : Reg) : Mcu :=
  { mcu with
    flash := if mcu.unlocked = true then store32 mcu.flash (4 * (rd / 4)) 0 else mcu.flash }

/-- What MRS leaves. -/
def SpecialReg.read (s : SpecialReg) (mcu : Mcu) (rd : Reg) : Mcu :=
  match s with
  | apsr => (mcu.cleared rd).setReg rd (mcu.regs regMsp)
  | msp => mcu.setReg rd (mcu.regs regMsp)
  | psp => mcu.setReg rd (mcu.regs regPsp)
  | control => mcu.setReg rd (mcu.regs regControl)

theorem run_msr (mcu : Mcu) (low : rn < 8) (isNumber : instr &&& 0x7F = s.number.toUInt32)
    (isReg : ((instr >>> 16) &&& (0x7 : UInt32)).toNat = rn) :
    (Instr32.msr instr).run Op.handle mcu = .ok true (s.wrote mcu (mcuReadReg mcu rn)) := by
  have notXpsr : rn ≠ regXpsr := (low.trans (by decide)).ne
  have again : mcuReadReg (mcu.setXpsr 0xF0000000 (mcuReadReg mcu rn)) rn = mcuReadReg mcu rn := by
    rw [mcuReadReg_low _ low, mcuReadReg_low _ low]
    exact mcu.regs_setReg_of_ne _ notXpsr
  unfold Instr32.msr
  rw [isNumber, isReg]
  cases s with
  | apsr =>
    show EStateM.Result.ok true (mcuWriteReg _ regMsp
      (mcuReadReg (mcu.setXpsr 0xF0000000 _) rn)) = _
    rw [again]
    rfl
  | msp => rfl
  | psp => rfl
  | control => rfl

/-- The number of a register is an address in the flash. -/
theorem memDevAt_number (mcu : Mcu) {dest : UInt32} (low : dest.toNat < 16) :
    mcu.memDevAt dest = some (.flash, dest) := by
  have number : dest = .ofNat dest.toNat := UInt32.ofNat_toNat.symm
  generalize dest.toNat = k at low number
  subst number
  interval_cases k
  all_goals rfl

theorem write32_number (mcu : Mcu) {dest : UInt32} (low : dest.toNat < 8) :
    ∃ b, mcuWrite32 mcu dest 0 = .ok b (mcu.cleared dest.toNat) := by
  unfold mcuWrite32 Mcu.cleared
  rw [memDevAt_number mcu (low.trans (by decide)), ← toNat_shiftRight_two]
  dsimp only [Device.write32]
  split
  · exact ⟨true, rfl⟩
  · exact ⟨false, rfl⟩

theorem run_mrs (mcu : Mcu) (low : rd < 8) (isNumber : instr &&& 0x7F = s.number.toUInt32)
    (isReg : ((instr >>> 8) &&& (0xF : UInt32)).toNat = rd) :
    (Instr32.mrs instr).run Op.handle mcu = .ok true (s.read mcu rd) := by
  have plain : rd < regSp := low.trans (by decide)
  unfold Instr32.mrs
  rw [isNumber]
  cases s with
  | apsr =>
    rcases write32_number mcu (isReg.trans_lt low) with ⟨b, written⟩
    rw [isReg] at written
    show (write32 ((instr >>> 8) &&& (0xF : UInt32)) 0 >>= fun _ => readReg regMsp >>= fun val =>
      writeReg ((instr >>> 8) &&& (0xF : UInt32)).toNat val >>= fun _ => pure true).run Op.handle
        mcu = _
    rw [run_write32 _ written, run_readReg, isReg, run_writeReg, mcuWriteReg_of_plain _ _ plain]
    rfl
  | msp =>
    show EStateM.Result.ok true (mcuWriteReg mcu (UInt32.toNat _) (mcu.regs regMsp)) = _
    rw [isReg, mcuWriteReg_of_plain _ _ plain]
    rfl
  | psp =>
    show EStateM.Result.ok true (mcuWriteReg mcu (UInt32.toNat _) (mcu.regs regPsp)) = _
    rw [isReg, mcuWriteReg_of_plain _ _ plain]
    rfl
  | control =>
    show EStateM.Result.ok true (mcuWriteReg mcu (UInt32.toNat _) (mcu.regs regControl)) = _
    rw [isReg, mcuWriteReg_of_plain _ _ plain]
    rfl

theorem flash_cleared_iff (mcu : Mcu) (rd : Reg) :
    (mcu.cleared rd).flash = mcu.flash ↔ FlashKept mcu rd := by
  have zero : store32 mcu.flash (4 * (rd / 4)) 0 = mcu.flash ↔
      load32 mcu.flash (4 * (rd / 4)) = 0 := by
    constructor
    · intro same
      rw [← same, load32_store32]
    · intro same
      rw [← same, store32_load32]
  unfold FlashKept
  show (if mcu.unlocked = true then _ else _) = _ ↔ _
  rw [← zero]
  split
  · rename_i unlocked
    exact (imp_iff_right unlocked).symm
  · rename_i locked
    exact iff_of_true rfl fun unlocked => absurd unlocked locked

theorem FlashKept.cleared (kept : FlashKept mcu rd) : mcu.cleared rd = mcu := by
  have others : mcu.cleared rd = { mcu with flash := (mcu.cleared rd).flash } := rfl
  rw [others, (flash_cleared_iff mcu rd).mpr kept]

theorem readLow_advancedWide (mcu : Mcu) (low : rn < 8) :
    mcuReadReg mcu.advancedWide rn = mcuReadReg mcu rn :=
  mcuReadReg_writePc mcu _ (low.trans (show 8 < regPc by decide)).ne

/-- The PC behind a 32-bit instruction. -/
theorem regs_advancedWide_pc (mcu : Mcu) :
    mcu.advancedWide.regs regPc = mcu.regs regPc + 2 + 2 := by
  have twice : mcu.advanced.advanced = mcu.advancedWide := by
    have read : mcuReadReg mcu.advanced regPc = mcuReadReg mcu regPc + 2 := regs_advanced_pc mcu
    show mcu.advanced.setReg regPc (mcuReadReg mcu.advanced regPc + 2) = _
    rw [read]
    exact setReg_setReg mcu _ _
  rw [← twice, regs_advanced_pc, regs_advanced_pc]

theorem regs_advancedWide_of_ne {reg : Reg} (mcu : Mcu) (ne : reg ≠ regPc) :
    mcu.advancedWide.regs reg = mcu.regs reg := mcu.regs_setReg_of_ne _ ne

theorem mcuStep_msr (pastTable : UInt32 → Bool) (encodes : s.EncodesMsr rn first second)
    (at_ : mcu.At first second) :
    mcuStep pastTable mcu = .ok true (s.wrote mcu.advancedWide (mcuReadReg mcu rn)) := by
  rcases encodes.fields with ⟨long, isMsr, isNumber, isReg⟩
  have ran := run_msr mcu.advancedWide encodes.1 ((wide_sysm first second).trans isNumber) isReg
  rw [readLow_advancedWide mcu encodes.1] at ran
  exact mcuStep_wide_true pastTable at_.first at_.second long (search_msr second isMsr).1 ran

theorem mcuStep_mrs (pastTable : UInt32 → Bool) (encodes : s.EncodesMrs rd first second)
    (at_ : mcu.At first second) :
    mcuStep pastTable mcu = .ok true (s.read mcu.advancedWide rd) := by
  rcases encodes.fields with ⟨long, isMrs, isNumber, isReg⟩
  have ran := run_mrs mcu.advancedWide encodes.1 ((wide_sysm first second).trans isNumber) isReg
  exact mcuStep_wide_true pastTable at_.first at_.second long (search_mrs second isMrs).1 ran

/-- MSR also writes MSP when it writes APSR. -/
theorem movesTo_iff (pastTable : UInt32 → Bool) (encodes : s.EncodesMsr rn first second)
    (at_ : mcu.At first second) :
    s.MovesTo pastTable mcu rn ↔ (s = .apsr → mcu.regs regMsp = mcuReadReg mcu rn) := by
  unfold SpecialReg.MovesTo
  rw [mcuStep_msr pastTable encodes at_]
  cases s with
  | apsr =>
    rw [imp_iff_right rfl]
    constructor
    · intro same
      injection same with _ same
      have msp := congrArg (Mcu.regs · regMsp) same
      rw [show (SpecialReg.wrote .apsr mcu.advancedWide (mcuReadReg mcu rn)).regs regMsp =
        mcuReadReg mcu rn from Mcu.regs_setReg_self _ _ (by decide)] at msp
      exact msp.symm
    · intro same
      refine congrArg (EStateM.Result.ok true) (setReg_eq_self ?_)
      exact same.symm
  | msp => exact iff_of_true rfl nofun
  | psp => exact iff_of_true rfl nofun
  | control => exact iff_of_true rfl nofun

/-- MRS also writes to the memory when it reads APSR. -/
theorem movesFrom_iff (pastTable : UInt32 → Bool) (encodes : s.EncodesMrs rd first second)
    (at_ : mcu.At first second) :
    MovesFrom pastTable mcu rd ↔ (s = .apsr → FlashKept mcu rd) := by
  unfold MovesFrom
  rw [mcuStep_mrs pastTable encodes at_]
  cases s with
  | apsr =>
    rw [imp_iff_right rfl]
    constructor
    · rintro ⟨val, same⟩
      injection same with _ same
      have flash := congrArg Mcu.flash same
      exact (flash_cleared_iff mcu rd).mp flash
    · intro kept
      have advanced : FlashKept mcu.advancedWide rd := kept
      refine ⟨mcu.advancedWide.regs regMsp, ?_⟩
      show EStateM.Result.ok true ((mcu.advancedWide.cleared rd).setReg rd _) = _
      rw [advanced.cleared]
  | msp => exact iff_of_true ⟨_, rfl⟩ nofun
  | psp => exact iff_of_true ⟨_, rfl⟩ nofun
  | control => exact iff_of_true ⟨_, rfl⟩ nofun

/-- The instruction behind an MSR. -/
theorem at_wrote (val : UInt32) (next : mcuFetch16 mcu (mcuReadReg mcu regPc + 2) = some third)
    (last : mcuFetch16 mcu (mcuReadReg mcu regPc + 2 + 2) = some fourth) :
    (s.wrote mcu.advancedWide val).At third fourth := by
  have pc : mcuReadReg (s.wrote mcu.advancedWide val) regPc = mcuReadReg mcu regPc + 2 + 2 := by
    rw [← show mcuReadReg mcu.advancedWide regPc = mcuReadReg mcu regPc + 2 + 2 from
      regs_advancedWide_pc mcu]
    cases s with
    | apsr => rfl
    | msp => rfl
    | psp => rfl
    | control => rfl
  have fetches : mcuFetch16 (s.wrote mcu.advancedWide val) = mcuFetch16 mcu := by
    cases s with
    | apsr => rfl
    | msp => rfl
    | psp => rfl
    | control => rfl
  constructor
  · rw [fetches, pc, UInt32.add_sub_cancel, next]
  · rw [fetches, pc, last]

/-- A register is read as it was written before the PC. -/
theorem read_back {reg : Reg} (mcu : Mcu) (val : UInt32) (notPc : reg ≠ regPc) :
    (mcu.setReg reg val).advancedWide.regs reg = val := by
  rw [regs_advancedWide_of_ne _ notPc]
  exact mcu.regs_setReg_self val notPc

/-- A special register but APSR is moved through. -/
theorem read_wrote (notApsr : s ≠ .apsr) (mcu : Mcu) (val : UInt32) (rd : Reg) :
    s.read (s.wrote mcu val).advancedWide rd =
      (s.set mcu val).advancedWide.setReg rd (s.masked val) := by
  cases s with
  | apsr => exact absurd rfl notApsr
  | msp => exact congrArg (Mcu.setReg _ rd) (read_back mcu val (by decide))
  | psp => exact congrArg (Mcu.setReg _ rd) (read_back mcu val (by decide))
  | control => exact congrArg (Mcu.setReg _ rd) (read_back mcu val (by decide))

/-- What is seen of MSP and of the memory when APSR is moved through. -/
theorem read_wrote_apsr_iff (low : rd < 8) (mcu : Mcu) (val : UInt32) :
    SpecialReg.apsr.read (SpecialReg.apsr.wrote mcu val).advancedWide rd =
        (SpecialReg.apsr.set mcu val).advancedWide.setReg rd (SpecialReg.apsr.masked val) ↔
      mcu.regs regMsp = val ∧ SpecialReg.apsr.masked val = val ∧ FlashKept mcu rd := by
  have notPc : rd ≠ regPc := (low.trans (by decide)).ne
  have notMsp : regMsp ≠ rd := (low.trans (show 8 < regMsp by decide)).ne'
  have msp : (SpecialReg.apsr.wrote mcu val).advancedWide.regs regMsp = val :=
    read_back _ val (by decide)
  have readMsp :
      (SpecialReg.apsr.read (SpecialReg.apsr.wrote mcu val).advancedWide rd).regs regMsp = val :=
    (Mcu.regs_setReg_of_ne _ _ notMsp).trans msp
  have readRd :
      (SpecialReg.apsr.read (SpecialReg.apsr.wrote mcu val).advancedWide rd).regs rd = val :=
    (Mcu.regs_setReg_self _ _ notPc).trans msp
  have kept : (SpecialReg.apsr.set mcu val).regs regMsp = mcu.regs regMsp :=
    mcu.regs_setReg_of_ne _ (by decide)
  constructor
  · intro same
    refine ⟨?_, ?_, ?_⟩
    · rw [same, Mcu.regs_setReg_of_ne _ _ notMsp, regs_advancedWide_of_ne _ (by decide),
        kept] at readMsp
      exact readMsp
    · rw [same, Mcu.regs_setReg_self _ _ notPc] at readRd
      exact readRd
    · have flash := congrArg Mcu.flash same
      exact (flash_cleared_iff mcu rd).mp flash
  · rintro ⟨same, whole, kept⟩
    have wrote : SpecialReg.apsr.wrote mcu val = SpecialReg.apsr.set mcu val :=
      setReg_eq_self same.symm
    have later : FlashKept (SpecialReg.apsr.set mcu val).advancedWide rd := kept
    rw [wrote] at msp ⊢
    show ((SpecialReg.apsr.set mcu val).advancedWide.cleared rd).setReg rd
      ((SpecialReg.apsr.set mcu val).advancedWide.regs regMsp) = _
    rw [later.cleared, msp, whole]

/-- MSR and MRS move a value through a special register. -/
theorem moves_iff (pastTable : UInt32 → Bool) (encodesMsr : s.EncodesMsr rn first second)
    (encodesMrs : s.EncodesMrs rd third fourth) (at_ : mcu.At first second)
    (next : mcuFetch16 mcu (mcuReadReg mcu regPc + 2) = some third)
    (last : mcuFetch16 mcu (mcuReadReg mcu regPc + 2 + 2) = some fourth) :
    s.Moves pastTable mcu rn rd ↔
      (s = .apsr → mcu.regs regMsp = mcuReadReg mcu rn ∧
        s.masked (mcuReadReg mcu rn) = mcuReadReg mcu rn ∧ FlashKept mcu rd) := by
  have step := mcuStep_msr pastTable encodesMsr at_
  have step' := mcuStep_mrs pastTable encodesMrs (at_wrote (s := s) (mcuReadReg mcu rn) next last)
  have whole : s.Moves pastTable mcu rn rd ↔
      s.read (s.wrote mcu.advancedWide (mcuReadReg mcu rn)).advancedWide rd =
        (s.set mcu.advancedWide (mcuReadReg mcu rn)).advancedWide.setReg rd
          (s.masked (mcuReadReg mcu rn)) := by
    constructor
    · rintro ⟨mcu₁, first, second⟩
      rw [step] at first
      cases first
      rw [step'] at second
      injection second
    · intro same
      exact ⟨_, step, step'.trans (congrArg (EStateM.Result.ok true) same)⟩
  rw [whole]
  by_cases isApsr : s = .apsr
  · subst isApsr
    rw [imp_iff_right rfl]
    exact read_wrote_apsr_iff encodesMrs.1 mcu.advancedWide (mcuReadReg mcu rn)
  · exact iff_of_true (read_wrote isApsr _ _ rd) fun eq => absurd eq isApsr

end Moves

/-- **Special registers**: for every state, MSR to a special register changes nothing else if and
only if MSP, when APSR is written, holds the value already; MRS from a special register changes no
more than its register if and only if, when APSR is read, the flash is locked or the word at the
number of the register is 0; and an MSR that an MRS follows moves the value, or the flags of it
through APSR, if and only if, for APSR, the value has no other bits than the flags and both of this
holds. -/
theorem special_iff (pastTable : UInt32 → Bool) :
    (∀ (mcu : Mcu) (s : SpecialReg) (rn : Reg) (first second : UInt16),
      s.EncodesMsr rn first second → mcu.At first second →
      (s.MovesTo pastTable mcu rn ↔ (s = .apsr → mcu.regs regMsp = mcuReadReg mcu rn))) ∧
    (∀ (mcu : Mcu) (s : SpecialReg) (rd : Reg) (first second : UInt16),
      s.EncodesMrs rd first second → mcu.At first second →
      (MovesFrom pastTable mcu rd ↔ (s = .apsr → FlashKept mcu rd))) ∧
    ∀ (mcu : Mcu) (s : SpecialReg) (rn rd : Reg) (first second third fourth : UInt16),
      s.EncodesMsr rn first second → s.EncodesMrs rd third fourth → mcu.At first second →
      mcuFetch16 mcu (mcuReadReg mcu regPc + 2) = some third →
      mcuFetch16 mcu (mcuReadReg mcu regPc + 2 + 2) = some fourth →
      (s.Moves pastTable mcu rn rd ↔
        (s = .apsr → mcu.regs regMsp = mcuReadReg mcu rn ∧
          s.masked (mcuReadReg mcu rn) = mcuReadReg mcu rn ∧ FlashKept mcu rd)) := by
  refine ⟨?_, ?_, ?_⟩
  · intro mcu s rn first second encodes at_
    exact movesTo_iff pastTable encodes at_
  · intro mcu s rd first second encodes at_
    exact movesFrom_iff pastTable encodes at_
  · intro mcu s rn rd first second third fourth encodesMsr encodesMrs at_ next last
    exact moves_iff pastTable encodesMsr encodesMrs at_ next last

/-- The created MCU at the first of four halfwords in the flash. -/
def specialMcu (regs : Reg → UInt32) (first second third fourth : UInt16) : Mcu :=
  { programMcu regs first second with
    flash := store16 (store16 (programMcu regs first second).flash 6 fourth) 4 third }

/-- A value in r0 and MSP. -/
def inBoth (value : UInt32) (reg : Reg) : UInt32 := if reg = 0 ∨ reg = regMsp then value else 0

/-- `msr APSR, r0` and `mrs r1, APSR`. The flags are moved; of a value with other bits the flags are
set, but they are not the value. `msr PSP, r0` and `mrs r1, PSP` move such a value, too. -/
theorem special_iff_apsr :
    SpecialReg.apsr.MovesTo (fun _ => false)
        (specialMcu (inBoth 0x90000005) 0xF380 0x8800 0xF3EF 0x8100) 0 ∧
      MovesFrom (fun _ => false)
        (specialMcu (inBoth 0x90000005) 0xF3EF 0x8100 0xF3EF 0x8100) 1 ∧
      SpecialReg.apsr.Moves (fun _ => false)
        (specialMcu (inBoth 0x90000000) 0xF380 0x8800 0xF3EF 0x8100) 0 1 ∧
      ¬ SpecialReg.apsr.Moves (fun _ => false)
        (specialMcu (inBoth 0x90000005) 0xF380 0x8800 0xF3EF 0x8100) 0 1 ∧
      SpecialReg.psp.Moves (fun _ => false)
        (specialMcu (inBoth 0x90000005) 0xF380 0x8809 0xF3EF 0x8109) 0 1 := by
  have msr : SpecialReg.apsr.EncodesMsr 0 0xF380 0x8800 := ⟨by decide, by decide, by decide⟩
  have mrs : SpecialReg.apsr.EncodesMrs 1 0xF3EF 0x8100 := ⟨by decide, by decide, by decide⟩
  have msrPsp : SpecialReg.psp.EncodesMsr 0 0xF380 0x8809 := ⟨by decide, by decide, by decide⟩
  have mrsPsp : SpecialReg.psp.EncodesMrs 1 0xF3EF 0x8109 := ⟨by decide, by decide, by decide⟩
  rcases special_iff fun _ => false with ⟨movesTo, movesFrom, moves⟩
  refine ⟨(movesTo _ _ 0 _ _ msr ⟨by decide, by decide⟩).mpr fun _ => by decide,
    (movesFrom _ _ 1 _ _ mrs ⟨by decide, by decide⟩).mpr fun _ unlocked => ?_, ?_, ?_, ?_⟩
  · cases unlocked
  · refine (moves _ _ 0 1 _ _ _ _ msr mrs ⟨by decide, by decide⟩ (by decide) (by decide)).mpr
      fun _ => ⟨by decide, by decide, fun unlocked => ?_⟩
    cases unlocked
  · rw [moves _ _ 0 1 _ _ _ _ msr mrs ⟨by decide, by decide⟩ (by decide) (by decide)]
    exact fun holds => absurd (holds rfl).2.1 (by decide)
  · exact (moves _ _ 0 1 _ _ _ _ msrPsp mrsPsp ⟨by decide, by decide⟩ (by decide)
      (by decide)).mpr nofun

/-- `msr APSR, r0` with the flag N in r0 also sets MSP to 0x80000000. -/
theorem not_movesTo_apsr : ¬ SpecialReg.apsr.MovesTo (fun _ => false)
    (programMcu (fun reg => if reg = 0 then 0x80000000 else 0) 0xF380 0x8800) 0 := by
  have encodes : SpecialReg.apsr.EncodesMsr 0 0xF380 0x8800 := ⟨by decide, by decide, by decide⟩
  rw [movesTo_iff (fun _ => false) encodes
    ⟨fetched_programMcu _ _ _, fetched_programMcu_next _ _ _⟩]
  intro same
  exact absurd (same rfl) (by decide)

end TheFirmware.Simulator
