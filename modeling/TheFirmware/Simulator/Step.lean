import TheFirmware.Simulator.Instr16
import TheFirmware.Simulator.Registers

/-!
# The steps of the MCU

The table `mcu_instr32_cortex_m0p` and `mcu_instr_step`, which fetches an instruction, looks it up
and executes it. The 32-bit table has no terminating entry: the loop goes on behind it, and what it
finds there is a parameter (`pastTable`).
-/

namespace TheFirmware.Simulator

namespace Instr32

/-- MSR -/
def msr (instr : UInt32) : Instr Bool := do
  let src : Reg := ((instr >>> 16) &&& (0x7 : UInt32)).toNat
  let sysm : UInt32 := instr &&& 0x7F
  if sysm = 0x0 then
    writeReg regApsr (← readReg src)
    -- there is no `break`
    writeReg regMsp (← readReg src)
    return true
  else if sysm = 0x8 then
    writeReg regMsp (← readReg src)
    return true
  else if sysm = 0x9 then
    writeReg regPsp (← readReg src)
    return true
  else if sysm = 0x14 then
    writeReg regControl (← readReg src)
    return true
  else
    halt haltUnkownInstruction
    return false

/-- MRS -/
def mrs (instr : UInt32) : Instr Bool := do
  let dest : UInt32 := (instr >>> 8) &&& (0xF : UInt32)
  let sysm : UInt32 := instr &&& 0x7F
  if sysm < 0x8 then
    let ipsr ← if sysm &&& bit 0 ≠ 0 then readReg regIpsr else pure 0
    let apsr ← if sysm &&& bit 2 ≠ 0 then readReg regApsr else pure 0
    -- the value goes to the memory and not to the register, and there is no `break`
    let _ ← write32 dest (ipsr ||| apsr)
    writeReg dest.toNat (← readReg regMsp)
    return true
  else if sysm = 0x8 then
    writeReg dest.toNat (← readReg regMsp)
    return true
  else if sysm = 0x9 then
    writeReg dest.toNat (← readReg regPsp)
    return true
  else if sysm = 0x14 then
    writeReg dest.toNat (← readReg regControl)
    return true
  else
    halt haltUnkownInstruction
    return false

/-- BL -/
def bl (instr : UInt32) : Instr Bool := do
  let one : UInt32 := 1
  let sign : UInt32 := (instr >>> 26) &&& one
  let j1 : UInt32 := (instr >>> 13) &&& one
  let j2 : UInt32 := (instr >>> 11) &&& one
  let i1 : UInt32 := if j1 ^^^ sign = 0 then 1 else 0
  let i2 : UInt32 := if j2 ^^^ sign = 0 then 1 else 0
  let high : UInt32 := (instr >>> 16) &&& (0x3FF : UInt32)
  let low : UInt32 := instr &&& 0x7FF
  let imm : UInt32 := (i1 <<< 23) ||| (i2 <<< 22) ||| (high <<< 12) ||| (low <<< 1)
  let imm := if sign ≠ 0 then imm ||| 0xFF000000 else imm
  let addr := imm + (← readReg regPc)
  let pc ← readReg regPc
  writeReg regLr ((pc - 2) ||| 1)
  writeReg regPc addr
  return true

end Instr32

/-- `struct mcu_instr32` -/
structure McuInstr32 : Type where
  mask : UInt32
  instr : UInt32
  impl : UInt32 → Instr Bool

open Instr32 in
/-- `mcu_instr32_cortex_m0p` -/
def mcuInstr32CortexM0p : List McuInstr32 :=
  [⟨0xFFE00000, 0xF3800000, msr⟩, ⟨0xFFE00000, 0xF3E00000, mrs⟩, ⟨0xF8000000, 0xF0000000, bl⟩]

/-- The first entry of the 16-bit table that matches. -/
def lookup16 (instr : UInt16) : Option McuInstr16 :=
  mcuInstr16CortexM0p.find? fun entry => instr &&& entry.mask = entry.instr

/-- The first entry of the 32-bit table that matches. -/
def lookup32 (instr : UInt32) : Option McuInstr32 :=
  mcuInstr32CortexM0p.find? fun entry => instr &&& entry.mask = entry.instr

/-- The first halfword of a 32-bit instruction. -/
def isThirtytwo (instr : UInt16) : Bool :=
  instr &&& 0xF800 == 0xF800 || instr &&& 0xF800 == 0xE800 || instr &&& 0xF800 == 0xF000

/-- An instruction is executed, and the PC is restored when it fails. -/
def execute (oldPc : UInt32) (impl : Instr Bool) : Instr Bool := do
  if ← impl then
    return true
  else
    writeReg regPc oldPc
    return false

/-- No entry matches an instruction. -/
def unkownInstruction (oldPc : UInt32) : Instr Bool := do
  writeReg regPc oldPc
  halt haltUnkownInstruction
  return false

section Step

variable (pastTable : UInt32 → Bool)

/-- `mcu_instr_step` -/
def mcuInstrStep : Instr Bool := do
  let oldPc ← readReg regPc
  match ← fetch16 (oldPc - 2) with
  | none =>
      halt haltHardFault
      return false
  | some instr =>
      if isThirtytwo instr then
        let pc := oldPc + 2
        match ← fetch16 (pc - 2) with
        | none =>
            halt haltHardFault
            return false
        | some low =>
            let instr : UInt32 := (instr.toUInt32 <<< 16) ||| low.toUInt32
            writeReg regPc (pc + 2)
            match lookup32 instr with
            | some entry => execute oldPc (entry.impl instr)
            | none => if pastTable instr then wildCall else unkownInstruction oldPc
      else
        writeReg regPc (oldPc + 2)
        match lookup16 instr with
        | some entry => execute oldPc (entry.impl instr)
        | none => unkownInstruction oldPc

/-- `mcu_step` -/
def mcuStep (mcu : Mcu) : Result Bool := (mcuInstrStep pastTable).run Op.handle mcu

/-- A number of calls of `mcu_step`, of which one may end the simulator. -/
def mcuSteps : Nat → Mcu → Result Unit
  | 0, mcu => .ok () mcu
  | n + 1, mcu =>
      match mcuStep pastTable mcu with
      | .ok _ mcu => mcuSteps n mcu
      | .error stop mcu => .error stop mcu

end Step

/-! ## The lock -/

/-- The flash is locked and holds given bytes. -/
def Mcu.Locked (flash : LittleEndian.Bytes) (mcu : Mcu) : Prop :=
  mcu.unlocked = false ∧ mcu.flash = flash

section Lock

variable {flash : LittleEndian.Bytes} {mcu : Mcu}

theorem Mcu.Locked.thread (locked : mcu.Locked flash) :
    ({ mcu with processorMode := .thread } : Mcu).Locked flash := locked

theorem Mcu.Locked.unittest (locked : mcu.Locked flash) (dev : Unittest) :
    ({ mcu with unittest := dev } : Mcu).Locked flash := locked

theorem Mcu.Locked.writeReg (locked : mcu.Locked flash) (reg : Reg) (val : UInt32) :
    (mcuWriteReg mcu reg val).Locked flash := by
  obtain ⟨r, v, _, written⟩ := exists_setReg mcu reg val
  rw [written]
  exact locked

theorem Mcu.Locked.reset (locked : mcu.Locked flash) : (mcuReset mcu).2.Locked flash := by
  unfold mcuReset
  split
  · exact locked
  · dsimp only
    split
    · exact locked.writeReg _ _
    · split
      · exact locked.writeReg _ _
      · exact ((locked.writeReg _ _).writeReg _ _).thread.writeReg _ _

theorem Mcu.Locked.unittestDevWrite32 (locked : mcu.Locked flash) (addr temp : UInt32) :
    (Proc.final (unittestDevWrite32 mcu addr temp)).Locked flash := by
  unfold Simulator.unittestDevWrite32 unittestFinished
  dsimp only
  split
  · exact locked
  · split
    · exact (locked.unittest _).reset
    · split
      · exact locked.unittest _
      · split
        · split
          · split
            · exact (locked.unittest _).reset
            · exact locked.unittest _
          · exact locked.unittest _
        · split
          · exact locked.unittest _
          · exact locked

theorem Mcu.Locked.write16 (locked : mcu.Locked flash) (addr : UInt32) (value : UInt16) :
    (Proc.final (mcuWrite16 mcu addr value)).Locked flash := by
  unfold mcuWrite16
  split
  · rename_i dev offset _
    cases dev with
    | unittest =>
        unfold Device.write16 mcuEmuWrite16
        dsimp only
        split
        · exact locked
        · exact locked.unittestDevWrite32 _ _
    | uart => exact locked
    | ram => exact locked
    | flash =>
        unfold Device.write16
        dsimp only
        rw [locked.1]
        exact locked
  · exact locked

theorem Mcu.Locked.write32 (locked : mcu.Locked flash) (addr value : UInt32) :
    (Proc.final (mcuWrite32 mcu addr value)).Locked flash := by
  unfold mcuWrite32
  split
  · rename_i dev offset _
    cases dev with
    | unittest => exact locked.unittestDevWrite32 _ _
    | uart =>
        unfold Device.write32 uartDevWrite32
        dsimp only
        split
        · exact locked
        · exact locked
    | ram => exact locked
    | flash =>
        unfold Device.write32
        dsimp only
        rw [locked.1]
        exact locked
  · exact locked

/-- No function that an instruction may call changes the flash or unlocks it. -/
theorem Mcu.Locked.handle (op : Op) (mcu : Mcu) (locked : mcu.Locked flash) :
    (Proc.final (op.handle mcu)).Locked flash := by
  cases op with
  | readReg reg => exact locked
  | writeReg reg val => exact locked.writeReg reg val
  | fetch16 addr => exact locked
  | fetch32 addr => exact locked
  | write16 addr value => exact locked.write16 addr value
  | write32 addr value => exact locked.write32 addr value
  | halt reason =>
      show (mcuHalt mcu reason).Locked flash
      unfold mcuHalt
      split
      · exact locked
      · exact locked
  | wildCall => exact locked

/-- No step changes the flash or unlocks it. -/
theorem Mcu.Locked.step (pastTable : UInt32 → Bool) (locked : mcu.Locked flash) :
    (Proc.final (mcuStep pastTable mcu)).Locked flash :=
  Proc.run_invariant Mcu.Locked.handle (mcuInstrStep pastTable) locked

/-- No run changes the flash or unlocks it, also when it ends the simulator. -/
theorem Mcu.Locked.steps (pastTable : UInt32 → Bool) (n : Nat) (locked : mcu.Locked flash) :
    (Proc.final (mcuSteps pastTable n mcu)).Locked flash := by
  induction n generalizing mcu with
  | zero => exact locked
  | succ n ih =>
      have after := locked.step pastTable
      unfold mcuSteps
      cases stepped : mcuStep pastTable mcu with
      | ok b mcu' =>
          rw [stepped] at after
          exact ih after
      | error stop mcu' =>
          rw [stepped] at after
          exact after

end Lock

end TheFirmware.Simulator
