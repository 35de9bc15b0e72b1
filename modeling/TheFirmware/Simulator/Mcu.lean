import TheFirmware.Lib.LittleEndian

/-!
# The simulated MCU

`tools/simulator/core/mcu.c` with the registers and the reset of `tools/simulator/cortex-m0p/mcu.c`,
and the four memory devices that `mcu_cortex_m0p_create` attaches: flash, RAM, an UART and a device
that unit tests report to.

A function that fetches does not change anything. A function that writes may end the simulator, as
the last unit test does (`Stop.exit`); else it returns whether it succeeded. The host is
little-endian, and a shift on it uses the low five bits of the count.
-/

namespace TheFirmware.Simulator

open LittleEndian

/-- `reg_t` -/
abbrev Reg : Type := Nat

/-- `REG_SP` -/
def regSp : Reg := 13
/-- `REG_LR` -/
def regLr : Reg := 14
/-- `REG_PC` -/
def regPc : Reg := 15
/-- `REG_XPSR` -/
def regXpsr : Reg := 16
/-- `REG_CONTROL` -/
def regControl : Reg := 17
/-- `REG_MSP` -/
def regMsp : Reg := 18
/-- `REG_PSP` -/
def regPsp : Reg := 19
/-- `reg_count` -/
def regCount : Nat := 20
/-- `reg_gdb_count` -/
def regGdbCount : Nat := 17
/-- `REG_APSR` -/
def regApsr : Reg := 25
/-- `REG_IPSR` -/
def regIpsr : Reg := 26
/-- `REG_EPSR` -/
def regEpsr : Reg := 27

/-- `HALT_SLEEP` -/
def haltSleep : Int := -1
/-- `HALT_HARD_FAULT`, the value behind `HALT_SLEEP` -/
def haltHardFault : Int := 0
/-- `HALT_UNKOWN_INSTRUCTION` -/
def haltUnkownInstruction : Int := 1
/-- `HAL_TRAP` -/
def halTrap : Int := 5

/-- `processor_mode_t` -/
inductive ProcessorMode : Type
  | thread
  | handler
  deriving DecidableEq, Repr

/-- `struct unittest_dev` -/
structure Unittest : Type where
  currentTest : Int32
  totalTests : Int32
  testsSkipped : Int32
  testsFailed : Int32
  desc : Option (List UInt8)
  status : UInt32
  statusDesc : Option (List UInt8)

/-- `struct mcu_cortex_m0p` with its memory devices. The PC is even, since `mcu_write_reg` clears its
bit 0, and the size of the RAM is a multiple of 1024, as `ram_dev_create` asserts. `output` is what
the UART has put out. -/
structure Mcu : Type where
  regs : Reg → UInt32
  pcEven : regs regPc &&& 1 = 0
  processorMode : ProcessorMode
  halted : Bool
  haltReason : Int
  unlocked : Bool
  flash : Bytes
  ram : Bytes
  ramLength : UInt32
  ramAligned : ramLength.toNat % 1024 = 0
  output : List UInt8
  unittest : Unittest

/-- The ways in which the simulator ends without returning from a function. -/
inductive Stop : Type
  /-- `exit(status)` -/
  | exit (status : Int)
  /-- a call through an entry behind the end of a table -/
  | wildCall
  /-- a store behind the end of an array -/
  | wildStore
  deriving DecidableEq, Repr

/-- What a function leaves behind that may end the simulator. -/
abbrev Result (α : Type) : Type := EStateM.Result Stop Mcu α

/-! ## Registers -/

/-- The register that `REG_SP` stands for. -/
def Mcu.stackPointer (mcu : Mcu) : Reg := if mcu.regs regSp &&& 0x2 ≠ 0 then regPsp else regMsp

/-- `mcu_read_reg` -/
def mcuReadReg (mcu : Mcu) (reg : Reg) : UInt32 :=
  if reg = regSp then mcu.regs mcu.stackPointer
  else if reg = regApsr then mcu.regs regXpsr &&& 0xF0000000
  else if reg = regIpsr then mcu.regs regXpsr &&& 0x1F
  else if reg = regEpsr then mcu.regs regXpsr &&& 0x1000000
  else mcu.regs reg

/-- `mcu->regs[reg] = val`, where the PC gets `val & ~1`. -/
def Mcu.setReg (mcu : Mcu) (reg : Reg) (val : UInt32) : Mcu :=
  { mcu with
    regs := Function.update mcu.regs reg (if reg = regPc then val &&& ~~~ 1 else val)
    pcEven := by
      rw [Function.update_apply]
      split
      · rename_i eq
        rw [if_pos eq.symm]
        exact and_not_one_and_one val
      · exact mcu.pcEven }

/-- The bits of `mask` in `xPSR` are replaced by those of a value. -/
def Mcu.setXpsr (mcu : Mcu) (mask val : UInt32) : Mcu :=
  mcu.setReg regXpsr ((mcu.regs regXpsr &&& ~~~ mask) ||| (val &&& mask))

/-- `mcu_write_reg` -/
def mcuWriteReg (mcu : Mcu) (reg : Reg) (val : UInt32) : Mcu :=
  let reg := if reg = regSp then mcu.stackPointer else reg
  if reg = regApsr then mcu.setXpsr 0xF0000000 val
  else if reg = regIpsr then mcu.setXpsr 0x1F val
  else if reg = regEpsr then mcu.setXpsr 0x1000000 val
  else mcu.setReg reg val

/-! ## Fetching -/

/-- The memory devices. -/
inductive Device : Type
  | unittest
  | uart
  | ram
  | flash
  deriving DecidableEq, Repr

/-- `struct mem_dev`: the device, its `offset` and its `length`. -/
structure MemDev : Type where
  device : Device
  offset : UInt32
  length : UInt32

/-- `mcu->mem_devs`, where the device that was added last comes first. -/
def Mcu.memDevs (mcu : Mcu) : List MemDev :=
  [⟨.unittest, 0xEE000000, 0x20⟩, ⟨.uart, 0xE0000000, 0x40⟩, ⟨.ram, 0x10000000, mcu.ramLength⟩,
    ⟨.flash, 0x0, 32 * 1024⟩]

/-- The device at an address, and the address in it. -/
def Mcu.memDevAt (mcu : Mcu) (addr : UInt32) : Option (Device × UInt32) :=
  (mcu.memDevs.find? fun dev => dev.offset ≤ addr ∧ addr < dev.offset + dev.length).map
    fun dev => (dev.device, addr - dev.offset)

/-- `unittest_dev_read32` -/
def unittestDevRead32 (dev : Unittest) (addr : UInt32) : Option UInt32 :=
  if addr = 0x0 then some dev.currentTest.toUInt32
  else if addr = 0x4 then some dev.totalTests.toUInt32
  else none

/-- `mcu_emu_fetch16` for a device with the given `fetch32` -/
def mcuEmuFetch16 (fetch32 : UInt32 → Option UInt32) (addr : UInt32) : Option UInt16 :=
  match fetch32 (addr &&& ~~~ 2) with
  | none => none
  | some value =>
      if addr &&& 2 ≠ 0 then some ((value >>> 0) &&& 0xFFFF).toUInt16
      else some ((value >>> 16) &&& 0xFFFF).toUInt16

/-- The functions `fetch16` of the devices. -/
def Device.fetch16 (mcu : Mcu) (addr : UInt32) : Device → Option UInt16
  | .unittest => mcuEmuFetch16 (unittestDevRead32 mcu.unittest) addr
  | .uart => none
  | .ram => some (load16 mcu.ram (2 * (addr >>> 1).toNat))
  | .flash => some (load16 mcu.flash (2 * (addr >>> 1).toNat))

/-- The functions `fetch32` of the devices. -/
def Device.fetch32 (mcu : Mcu) (addr : UInt32) : Device → Option UInt32
  | .unittest => unittestDevRead32 mcu.unittest addr
  | .uart => none
  | .ram => some (load32 mcu.ram (4 * (addr >>> 2).toNat))
  | .flash => some (load32 mcu.flash (4 * (addr >>> 2).toNat))

/-- `mcu_fetch16` -/
def mcuFetch16 (mcu : Mcu) (addr : UInt32) : Option UInt16 :=
  match mcu.memDevAt addr with
  | some (dev, addr) => dev.fetch16 mcu addr
  | none => none

/-- `mcu_fetch32` -/
def mcuFetch32 (mcu : Mcu) (addr : UInt32) : Option UInt32 :=
  match mcu.memDevAt addr with
  | some (dev, addr) => dev.fetch32 mcu addr
  | none => none

/-- `mcu_util_fetch8` -/
def mcuUtilFetch8 (mcu : Mcu) (addr : UInt32) : Option UInt8 :=
  match mcuFetch16 mcu (addr &&& ~~~ 1) with
  | none => none
  | some value =>
      if addr &&& 1 ≠ 0 then some ((value >>> 8) &&& 0xFF).toUInt8
      else some ((value >>> 0) &&& 0xFF).toUInt8

/-! ## The reset -/

/-- `mcu_reset` -/
def mcuReset (mcu : Mcu) : Bool × Mcu :=
  match mcuFetch32 mcu 0x0 with
  | none => (false, mcu)
  | some val =>
      let mcu := mcuWriteReg mcu regSp val
      match mcuFetch32 mcu 0x4 with
      | none => (false, mcu)
      | some val =>
          if val &&& 1 = 0 then (false, mcu)
          else
            let mcu := mcuWriteReg mcu regPc (val + 2)
            let mcu := { mcu with processorMode := .thread }
            (true, mcuWriteReg mcu regEpsr ((1 : UInt32) <<< 24))

/-! ## Writing -/

/-- `STATUS_SKIPPED` -/
def statusSkipped : UInt32 := 0x24924924
/-- `STATUS_PASSED` -/
def statusPassed : UInt32 := 0xBEEFBEEF
/-- `STATUS_FAILED` -/
def statusFailed : UInt32 := 0xDEADBEEF

/-- The loop of `unittest_fetch_str`, with the number of bytes that are left of its buffer. -/
def unittestFetchStrLoop (mcu : Mcu) : Nat → UInt32 → Option (List UInt8)
  | 0, _ => some []
  | left + 1, addr =>
      match mcuUtilFetch8 mcu addr with
      | none => none
      | some c =>
          if c = 0 then some []
          else (unittestFetchStrLoop mcu left (addr + 1)).map fun str => c :: str

/-- `unittest_fetch_str` -/
def unittestFetchStr (mcu : Mcu) (addr : UInt32) : Option (List UInt8) :=
  if addr = 0x0 then none else unittestFetchStrLoop mcu 1024 addr

/-- `unittest_dev_write32` for `STATUS_OFFSET`, when a test has finished: the next test starts with
a reset, and the last one ends the simulator. -/
def unittestFinished (mcu : Mcu) (temp : UInt32) : Result Bool :=
  let dev := mcu.unittest
  let dev := { dev with
    currentTest := dev.currentTest + 1
    testsSkipped := if temp = statusSkipped then dev.testsSkipped + 1 else dev.testsSkipped
    testsFailed := if temp = statusFailed then dev.testsFailed + 1 else dev.testsFailed }
  if dev.currentTest < dev.totalTests then
    .ok true (mcuReset { mcu with unittest := { dev with desc := none } }).2
  else .error (.exit (if dev.testsFailed > 0 then -1 else 0)) { mcu with unittest := dev }

/-- `unittest_dev_write32` -/
def unittestDevWrite32 (mcu : Mcu) (addr temp : UInt32) : Result Bool :=
  let dev := mcu.unittest
  if addr = 0x0 then .ok false mcu
  else if addr = 0x4 then
    let dev := { dev with
      totalTests := temp.toInt32, currentTest := 0, testsFailed := 0, testsSkipped := 0 }
    .ok true (mcuReset { mcu with unittest := dev }).2
  else if addr = 0x8 then
    .ok true { mcu with unittest := { dev with desc := unittestFetchStr mcu temp } }
  else if addr = 0x12 then
    let mcu := { mcu with unittest := { dev with status := temp } }
    if temp = statusSkipped ∨ temp = statusPassed ∨ temp = statusFailed then
      unittestFinished mcu temp
    else .ok true mcu
  else if addr = 0x16 then
    .ok true { mcu with unittest := { dev with statusDesc := unittestFetchStr mcu temp } }
  else .ok false mcu

/-- `uart_dev_write32` -/
def uartDevWrite32 (mcu : Mcu) (addr temp : UInt32) : Mcu :=
  if addr = 0x0 then { mcu with output := mcu.output ++ [(temp &&& 0xFF).toUInt8] } else mcu

/-- `mcu_emu_write16` for the device of the unit tests -/
def mcuEmuWrite16 (mcu : Mcu) (addr : UInt32) (valueIn : UInt16) : Result Bool :=
  match unittestDevRead32 mcu.unittest (addr &&& ~~~ 2) with
  | none => .ok false mcu
  | some value =>
      let value : UInt32 :=
        if addr &&& 2 ≠ 0 then
          (value &&& (~~~ 0xFFFF : UInt32)) ||| ((valueIn.toUInt32 <<< 0) &&& (0xFFFF : UInt32))
        else
          (value &&& (0xFFFF : UInt32)) ||| ((valueIn.toUInt32 <<< 16) &&& (~~~ 0xFFFF : UInt32))
      unittestDevWrite32 mcu (addr &&& ~~~ 2) value

/-- The functions `write16` of the devices. -/
def Device.write16 (mcu : Mcu) (addr : UInt32) (temp : UInt16) : Device → Result Bool
  | .unittest => mcuEmuWrite16 mcu addr temp
  | .uart => .ok true mcu
  | .ram => .ok true { mcu with ram := store16 mcu.ram (2 * (addr >>> 1).toNat) temp }
  | .flash =>
      if mcu.unlocked then
        .ok true { mcu with flash := store16 mcu.flash (2 * (addr >>> 1).toNat) temp }
      else .ok false mcu

/-- The functions `write32` of the devices. -/
def Device.write32 (mcu : Mcu) (addr temp : UInt32) : Device → Result Bool
  | .unittest => unittestDevWrite32 mcu addr temp
  | .uart => .ok true (uartDevWrite32 mcu addr temp)
  | .ram => .ok true { mcu with ram := store32 mcu.ram (4 * (addr >>> 2).toNat) temp }
  | .flash =>
      if mcu.unlocked then
        .ok true { mcu with flash := store32 mcu.flash (4 * (addr >>> 2).toNat) temp }
      else .ok false mcu

/-- `mcu_write16` -/
def mcuWrite16 (mcu : Mcu) (addr : UInt32) (value : UInt16) : Result Bool :=
  match mcu.memDevAt addr with
  | some (dev, addr) => dev.write16 mcu addr value
  | none => .ok false mcu

/-- `mcu_write32` -/
def mcuWrite32 (mcu : Mcu) (addr value : UInt32) : Result Bool :=
  match mcu.memDevAt addr with
  | some (dev, addr) => dev.write32 mcu addr value
  | none => .ok false mcu

/-- `mcu_util_write8` -/
def mcuUtilWrite8 (mcu : Mcu) (addr : UInt32) (valueIn : UInt8) : Result Bool :=
  match mcuFetch16 mcu (addr &&& ~~~ 1) with
  | none => .ok false mcu
  | some value =>
      let value : UInt16 :=
        if addr &&& 1 ≠ 0 then (value &&& (0x00FF : UInt16)) ||| (valueIn.toUInt16 <<< 8)
        else (value &&& (0xFF00 : UInt16)) ||| (valueIn.toUInt16 <<< 0)
      mcuWrite16 mcu (addr &&& ~~~ 1) value

/-! ## Halting and the lock -/

/-- `mcu_halt`, without the callbacks -/
def mcuHalt (mcu : Mcu) (reason : Int) : Mcu :=
  if mcu.halted then mcu else { mcu with halted := true, haltReason := reason }

/-- `mcu_resume` -/
def mcuResume (mcu : Mcu) : Mcu := { mcu with halted := false }

/-- `mcu_unlock` -/
def mcuUnlock (mcu : Mcu) : Mcu := { mcu with unlocked := true }

/-- `mcu_lock` -/
def mcuLock (mcu : Mcu) : Mcu := { mcu with unlocked := false }

end TheFirmware.Simulator
