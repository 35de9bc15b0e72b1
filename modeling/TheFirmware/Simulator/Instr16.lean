import TheFirmware.Lib.Proc
import TheFirmware.Simulator.Mcu

/-!
# The 16-bit instructions

The table `mcu_instr16_cortex_m0p`, in the order of the source. An instruction is a program
(`Proc`) over the functions of the MCU that it may call, and returns whether it succeeded. Where
several entries match, the first one is executed: `asr2`, `mov2`, `ror` and `swi` have the pattern
of an entry before them.
-/

namespace TheFirmware.Simulator

/-- The functions of the MCU that an instruction may call. -/
inductive Op : Type
  | readReg (reg : Reg)
  | writeReg (reg : Reg) (val : UInt32)
  | fetch16 (addr : UInt32)
  | fetch32 (addr : UInt32)
  | write16 (addr : UInt32) (value : UInt16)
  | write32 (addr value : UInt32)
  | halt (reason : Int)
  /-- the call of an entry behind the end of a table -/
  | wildCall

/-- What the functions return. -/
def Op.Res : Op → Type
  | readReg _ => UInt32
  | writeReg _ _ => Unit
  | fetch16 _ => Option UInt16
  | fetch32 _ => Option UInt32
  | write16 _ _ => Bool
  | write32 _ _ => Bool
  | halt _ => Unit
  | wildCall => Bool

/-- What the functions do. -/
def Op.handle : (op : Op) → EStateM Stop Mcu op.Res
  | readReg reg, mcu => .ok (mcuReadReg mcu reg) mcu
  | writeReg reg val, mcu => .ok () (mcuWriteReg mcu reg val)
  | fetch16 addr, mcu => .ok (mcuFetch16 mcu addr) mcu
  | fetch32 addr, mcu => .ok (mcuFetch32 mcu addr) mcu
  | write16 addr value, mcu => mcuWrite16 mcu addr value
  | write32 addr value, mcu => mcuWrite32 mcu addr value
  | halt reason, mcu => .ok () (mcuHalt mcu reason)
  | wildCall, mcu => .error .wildCall mcu

/-- A program that calls functions of the MCU. -/
abbrev Instr : Type → Type := Proc Op Op.Res

def readReg (reg : Reg) : Instr UInt32 := .call (.readReg reg) .ret

def writeReg (reg : Reg) (val : UInt32) : Instr Unit := .call (.writeReg reg val) .ret

def fetch16 (addr : UInt32) : Instr (Option UInt16) := .call (.fetch16 addr) .ret

def fetch32 (addr : UInt32) : Instr (Option UInt32) := .call (.fetch32 addr) .ret

def write16 (addr : UInt32) (value : UInt16) : Instr Bool := .call (.write16 addr value) .ret

def write32 (addr value : UInt32) : Instr Bool := .call (.write32 addr value) .ret

def halt (reason : Int) : Instr Unit := .call (.halt reason) .ret

def wildCall : Instr Bool := .call .wildCall .ret

/-! ## Flags -/

/-- `1 << n` -/
def bit (n : UInt32) : UInt32 := (1 : UInt32) <<< n

/-- `CPSR_N` -/
def cpsrN : UInt32 := bit 31
/-- `CPSR_Z` -/
def cpsrZ : UInt32 := bit 30
/-- `CPSR_C` -/
def cpsrC : UInt32 := bit 29
/-- `CPSR_V` -/
def cpsrV : UInt32 := bit 28

/-- The functions `mcu_update_*flag`: a flag is set or cleared. -/
def mcuUpdateFlag (flag : UInt32) (set : Bool) : Instr Unit := do
  let cpsr ← readReg regApsr
  writeReg regApsr (if set then cpsr ||| flag else cpsr &&& ~~~ flag)

/-- `mcu_update_nflag` -/
def mcuUpdateNflag (c : UInt32) : Instr Unit := mcuUpdateFlag cpsrN (c &&& bit 31 != 0)

/-- `mcu_update_zflag` -/
def mcuUpdateZflag (c : UInt32) : Instr Unit := mcuUpdateFlag cpsrZ (c == 0)

/-- `mcu_update_cflag_bit` -/
def mcuUpdateCflagBit (val : UInt32) : Instr Unit := mcuUpdateFlag cpsrC (val != 0)

/-- `mcu_update_cflag` -/
def mcuUpdateCflag (a b c : UInt32) : Instr Unit :=
  let temp := (a &&& 0x7FFFFFFF) + (b &&& 0x7FFFFFFF) + c
  let temp := (temp >>> 31) + (a >>> 31) + (b >>> 31)
  mcuUpdateCflagBit (temp &&& 2)

/-- `mcu_update_vflag_bit` -/
def mcuUpdateVflagBit (val : UInt32) : Instr Unit := mcuUpdateFlag cpsrV (val != 0)

/-- `mcu_update_vflag` -/
def mcuUpdateVflag (a b c : UInt32) : Instr Unit :=
  let temp1 : UInt32 := (a &&& 0x7FFFFFFF) + (b &&& 0x7FFFFFFF) + c
  let temp1 : UInt32 := temp1 >>> 31
  let one : UInt32 := 1
  let temp2 : UInt32 := (temp1 &&& one) + ((a >>> 31) &&& one) + ((b >>> 31) &&& one)
  let temp2 : UInt32 := temp2 >>> 1
  mcuUpdateVflagBit ((temp1 ^^^ temp2) &&& 1)

/-- `mcu_fetch_error` -/
def mcuFetchError (_addr : UInt32) : Instr Unit := halt haltHardFault

/-- `mcu_write_error` -/
def mcuWriteError (_addr : UInt32) : Instr Unit := halt haltHardFault

namespace Instr16

/-! ## Parts of an instruction -/

/-- `(instr >> shift) & mask` -/
def field (instr shift mask : UInt16) : UInt32 := ((instr >>> shift) &&& mask).toUInt32

/-- `(instr >> shift) & mask`, which is a register. -/
def reg (instr shift mask : UInt16) : Reg := (field instr shift mask).toNat

/-- `((instr >> 0) & 0x7) | ((instr >> 4) & 0x8)` -/
def highReg (instr : UInt16) : Reg :=
  (((instr >>> 0) &&& (0x7 : UInt16)) ||| ((instr >>> 4) &&& (0x8 : UInt16))).toNat

/-- `(instr > 3) & 0x7`, where the source has `>` for `>>`. -/
def slipReg (instr : UInt16) : Reg := if instr > 3 then 1 else 0

/-- The registers that a loop `for (reg_t reg = 0; reg < 8; ++reg) if (instr & (1 << reg))` goes
through. -/
def regList (instr : UInt16) : List Reg :=
  (List.range 8).filter fun reg => instr &&& ((1 : UInt16) <<< UInt16.ofNat reg) ≠ 0

/-- The result `c` of an operation sets N and Z. -/
def updateNZ (c : UInt32) : Instr Unit := do
  mcuUpdateNflag c
  mcuUpdateZflag c

/-! ## Families of instructions -/

/-- ADD with flags -/
def adds (dest : Reg) (a b : UInt32) : Instr Bool := do
  let c := a + b
  writeReg dest c
  updateNZ c
  mcuUpdateCflag a b 0
  mcuUpdateVflag a b 0
  return true

/-- SUB with flags -/
def subs (dest : Reg) (a b : UInt32) : Instr Bool := do
  let c := a - b
  writeReg dest c
  updateNZ c
  mcuUpdateVflag a (~~~ b) 1
  mcuUpdateCflag a (~~~ b) 1
  return true

/-- CMP -/
def cmps (a b : UInt32) : Instr Bool := do
  updateNZ (a - b)
  mcuUpdateCflag a (~~~ b) 1
  mcuUpdateVflag a (~~~ b) 1
  return true

/-- An operation on two registers, of which the first one takes the result. -/
def logic (f : UInt32 → UInt32 → UInt32) (instr : UInt16) : Instr Bool := do
  let dest := reg instr 0 0x7
  let src2 := reg instr 3 0x7
  let a ← readReg dest
  let b ← readReg src2
  let c := f a b
  writeReg dest c
  updateNZ c
  return true

/-- The sign of `a` in the bits that a shift to the right by `shift` frees. -/
def shiftRightSigned (a shift : UInt32) : UInt32 :=
  if a &&& bit 31 ≠ 0 then (a >>> shift) ||| ((0xFFFFFFFF : UInt32) <<< (32 - shift))
  else a >>> shift

/-- LDR from an address -/
def ldr (dest : Reg) (addr : UInt32) : Instr Bool := do
  match ← fetch32 addr with
  | none =>
      mcuFetchError addr
      return false
  | some val =>
      writeReg dest val
      return true

/-- LDRB from an address -/
def ldrb (dest : Reg) (addr : UInt32) : Instr Bool := do
  match ← fetch16 (addr &&& ~~~ 1) with
  | none =>
      mcuFetchError (addr &&& ~~~ 1)
      return false
  | some val =>
      let val := if addr &&& 1 ≠ 0 then val >>> 8 else val
      writeReg dest (val &&& 0xFF).toUInt32
      return true

/-- LDRH from an address -/
def ldrh (dest : Reg) (addr : UInt32) : Instr Bool := do
  match ← fetch16 addr with
  | none =>
      mcuFetchError addr
      return false
  | some val =>
      writeReg dest val.toUInt32
      return true

/-- STR to an address, where `shown` is the address that the error message gives. -/
def str (addr shown val : UInt32) : Instr Bool := do
  if ← write32 addr val then
    return true
  else
    mcuWriteError shown
    return false

/-- STRB to an address: a halfword is read, and written as a word. -/
def strb (dest : Reg) (addr : UInt32) : Instr Bool := do
  match ← fetch16 (addr &&& ~~~ 1) with
  | none =>
      mcuFetchError (addr &&& ~~~ 1)
      return false
  | some val =>
      let byte ← readReg dest
      let val : UInt16 :=
        if addr &&& 1 ≠ 0 then (val &&& (0x00FF : UInt16)) ||| (byte <<< 8).toUInt16
        else (val &&& (0xFF00 : UInt16)) ||| (byte &&& 0xFF).toUInt16
      str (addr &&& ~~~ 1) val.toUInt32 val.toUInt32

/-- STRH to an address -/
def strh (addr val : UInt32) : Instr Bool := do
  if ← write16 addr val.toUInt16 then
    return true
  else
    mcuWriteError val
    return false

/-- The loop of LDMIA and POP, with what happens when a fetch fails: the address behind the last
register, if all are loaded. -/
def loadRegs (fetchError : UInt32 → Instr Unit) : List Reg → UInt32 → Instr (Option UInt32)
  | [], sp => return some sp
  | reg :: regs, sp => do
      match ← fetch32 sp with
      | none =>
          fetchError sp
          return none
      | some val =>
          writeReg reg val
          loadRegs fetchError regs (sp + 4)

/-- The loop of STMIA and PUSH, with what happens when a write fails. -/
def storeRegs (writeError : Reg → UInt32 → Instr Unit) :
    List Reg → UInt32 → Instr (Option UInt32)
  | [], sp => return some sp
  | reg :: regs, sp => do
      let val ← readReg reg
      if ← write32 sp val then
        storeRegs writeError regs (sp + 4)
      else
        writeError reg sp
        return none

/-! ## The instructions -/

/-- ADD(1) small immediate two registers -/
def add1 (instr : UInt16) : Instr Bool := do
  let dest := reg instr 0 0x7
  let src := reg instr 3 0x7
  let b := field instr 6 0x7
  let a ← readReg src
  adds dest a b

/-- ADD(2) big immediate one register -/
def add2 (instr : UInt16) : Instr Bool := do
  let dest := reg instr 8 0x7
  let b := field instr 0 0xFF
  let a ← readReg dest
  adds dest a b

/-- ADD(3) three registers -/
def add3 (instr : UInt16) : Instr Bool := do
  let dest := reg instr 0 0x7
  let src := reg instr 3 0x7
  let src2 := reg instr 6 0x7
  let a ← readReg src
  let b ← readReg src2
  adds dest a b

/-- ADD(4) two registers one or both high no flags -/
def add4 (instr : UInt16) : Instr Bool := do
  let dest := highReg instr
  let src2 := reg instr 3 0xF
  let a ← readReg dest
  let b ← readReg src2
  let c := a + b
  if dest = regPc then
    if c &&& 1 = 0 then
      return false
    else
      writeReg dest ((c &&& ~~~ 1) + 2)
      return true
  else
    writeReg dest c
    return true

/-- ADD(5) rd = pc plus immediate -/
def add5 (instr : UInt16) : Instr Bool := do
  let dest := reg instr 8 0x7
  let imm := field instr 0 0xFF <<< 2
  let a ← readReg regPc
  writeReg dest ((a &&& ~~~ 3) + imm)
  return true

/-- ADD(6) rd = sp plus immediate -/
def add6 (instr : UInt16) : Instr Bool := do
  let dest := reg instr 8 0x7
  let imm := field instr 0 0xFF <<< 2
  let a ← readReg regSp
  writeReg dest (a + imm)
  return true

/-- ADD(7) sp plus immediate -/
def add7 (instr : UInt16) : Instr Bool := do
  let imm := field instr 0 0x7F <<< 2
  let a ← readReg regSp
  writeReg regSp (a + imm)
  return true

/-- AND -/
def and_ : UInt16 → Instr Bool := logic fun a b => a &&& b

/-- ASR(1) two register immediate -/
def asr1 (instr : UInt16) : Instr Bool := do
  let dest := reg instr 0 0x7
  let src := reg instr 3 0x7
  let shift := field instr 6 0x1F
  let a ← readReg src
  let carry : UInt32 :=
    if shift = 0 then (if a &&& bit 31 ≠ 0 then 1 else 0) else a &&& bit (shift - 1)
  let c : UInt32 :=
    if shift = 0 then (if a &&& bit 31 ≠ 0 then ~~~ 0 else 0) else shiftRightSigned a shift
  mcuUpdateCflagBit carry
  writeReg dest c
  updateNZ c
  return true

/-- ASR(2) two register -/
def asr2 (instr : UInt16) : Instr Bool := do
  let dest := reg instr 0 0x7
  let shiftReg := reg instr 3 0x7
  let a ← readReg dest
  let shift := (← readReg shiftReg) &&& 0xFF
  if shift = 0 then
    writeReg dest a
    updateNZ a
    return true
  else if shift < 32 then
    mcuUpdateCflagBit (a &&& bit (shift - 1))
    let a := shiftRightSigned a shift
    writeReg dest a
    updateNZ a
    return true
  else
    mcuUpdateCflagBit (if a &&& bit 31 ≠ 0 then 1 else 0)
    let a : UInt32 := if a &&& bit 31 ≠ 0 then ~~~ 0 else 0
    writeReg dest a
    updateNZ a
    return true

/-- The conditions of B(1), by the flags. The one for `le` is the source's, with `N == V`. -/
def condition (op cpsr : UInt32) : Bool :=
  let n := cpsr &&& cpsrN != 0
  let z := cpsr &&& cpsrZ != 0
  let c := cpsr &&& cpsrC != 0
  let v := cpsr &&& cpsrV != 0
  if op = 0x0 then z
  else if op = 0x1 then !z
  else if op = 0x2 then c
  else if op = 0x3 then !c
  else if op = 0x4 then n
  else if op = 0x5 then !n
  else if op = 0x6 then v
  else if op = 0x7 then !v
  else if op = 0x8 then c && !z
  else if op = 0x9 then z || !c
  else if op = 0xA then (n && v) || (!n && !v)
  else if op = 0xB then (!n && v) || (!v && n)
  else if op = 0xC then !z && ((n && v) || (!n && !v))
  else ((n && v) || (!n && !v)) || z

/-- B(1) conditional branch -/
def b1 (instr : UInt16) : Instr Bool := do
  let op := field instr 8 0xF
  let offset := field instr 0 0xFF
  let offset := if offset &&& 0x80 ≠ 0 then offset ||| ((0xFFFFFFFF : UInt32) <<< 8) else offset
  let newPc := (offset <<< 1) + (← readReg regPc) + 2
  let cpsr ← readReg regApsr
  if op = 0xE ∨ op = 0xF then
    return false
  else if condition op cpsr then
    writeReg regPc newPc
    return true
  else
    return true

/-- B(2) unconditional branch -/
def b2 (instr : UInt16) : Instr Bool := do
  let offset := field instr 0 0x7FF
  let offset := if offset &&& bit 10 ≠ 0 then offset ||| ((0xFFFFFFFF : UInt32) <<< 11) else offset
  let newPc := (offset <<< 1) + (← readReg regPc) + 2
  writeReg regPc newPc
  return true

/-- BIC -/
def bic : UInt16 → Instr Bool := logic fun a b => a &&& ~~~ b

/-- BKPT -/
def bkpt (_instr : UInt16) : Instr Bool := do
  halt halTrap
  return true

/-- BL/BLX(1) H=b10 -/
def bl10 (instr : UInt16) : Instr Bool := do
  let a := field instr 0 0x7FF
  let a := if a &&& bit 10 ≠ 0 then a ||| ~~~ 0x7FF else a
  let pc ← readReg regPc
  writeReg regLr ((a <<< 12) + pc)
  return true

/-- BL/BLX(1) H=b11, branch to thumb -/
def bl11 (instr : UInt16) : Instr Bool := do
  let a := field instr 0 0x7FF <<< 1
  let a := a + (← readReg regLr) + 2
  let pc ← readReg regPc
  writeReg regLr ((pc - 2) ||| 1)
  writeReg regPc a
  return true

/-- BL/BLX(1) H=b01, branch to arm -/
def bl01 (_instr : UInt16) : Instr Bool := return false

/-- BLX(2) -/
def blx2 (instr : UInt16) : Instr Bool := do
  let src := reg instr 3 0xF
  let newPc := (← readReg src) + 2
  if newPc &&& 1 ≠ 0 then
    let pc ← readReg regPc
    writeReg regLr ((pc - 2) ||| 1)
    writeReg regPc (newPc &&& ~~~ 1)
    return true
  else
    return false

/-- BX -/
def bx (instr : UInt16) : Instr Bool := do
  let src := reg instr 3 0xF
  let newPc := (← readReg src) + 2
  if newPc &&& 1 ≠ 0 then
    writeReg regPc (newPc &&& ~~~ 1)
    return true
  else
    return false

/-- CMN -/
def cmn (instr : UInt16) : Instr Bool := do
  let src1 := reg instr 0 0xF
  let src2 := reg instr 3 0xF
  let a ← readReg src1
  let b ← readReg src2
  updateNZ (a + b)
  mcuUpdateCflag a b 0
  mcuUpdateVflag a b 0
  return true

/-- CMP(1) compare immediate -/
def cmp1 (instr : UInt16) : Instr Bool := do
  let src := reg instr 8 0x7
  let imm := field instr 0 0xFF
  let a ← readReg src
  cmps a imm

/-- CMP(2) compare register -/
def cmp2 (instr : UInt16) : Instr Bool := do
  let src1 := reg instr 0 0x7
  let src2 := reg instr 3 0x7
  let a ← readReg src1
  let b ← readReg src2
  cmps a b

/-- CMP(3) compare high register -/
def cmp3 (instr : UInt16) : Instr Bool := do
  if field instr 6 3 = 0x0 then
    return false
  else
    let src1 := highReg instr
    let src2 := reg instr 3 0xF
    if src1 = 0xF then
      return false
    else
      let a ← readReg src1
      let b ← readReg src2
      cmps a b

/-- CPY copy high register -/
def cpy (instr : UInt16) : Instr Bool := do
  let src := reg instr 3 0x7
  let dest := reg instr 0 0x7
  let val ← readReg src
  writeReg dest val
  return true

/-- EOR -/
def eor : UInt16 → Instr Bool := logic fun a b => a ^^^ b

/-- LDMIA -/
def ldmia (instr : UInt16) : Instr Bool := do
  let base := reg instr 8 0x7
  let sp ← readReg base
  match ← loadRegs mcuFetchError (regList instr) sp with
  | none => return false
  | some sp =>
      writeReg base sp
      return true

/-- LDR(1) two register immediate -/
def ldr1 (instr : UInt16) : Instr Bool := do
  let src := reg instr 3 0x7
  let dest := reg instr 0 0x7
  let imm := field instr 6 0x1F <<< 2
  let addr := (← readReg src) + imm
  ldr dest addr

/-- LDR(2) three register -/
def ldr2 (instr : UInt16) : Instr Bool := do
  let src1 := reg instr 3 0x7
  let src2 := reg instr 6 0x7
  let dest := reg instr 0 0x7
  let addr := (← readReg src1) + (← readReg src2)
  ldr dest addr

/-- LDR(3) pc + imm -/
def ldr3 (instr : UInt16) : Instr Bool := do
  let imm := field instr 0 0xFF <<< 2
  let dest := reg instr 8 0x7
  let addr := ((← readReg regPc) &&& ~~~ 3) + imm
  ldr dest addr

/-- LDR(4) sp + imm -/
def ldr4 (instr : UInt16) : Instr Bool := do
  let imm := field instr 0 0xFF <<< 2
  let dest := reg instr 8 0x7
  let addr := (← readReg regSp) + imm
  ldr dest addr

/-- LDRB(1) -/
def ldrb1 (instr : UInt16) : Instr Bool := do
  let imm := field instr 6 0x1F
  let dest := reg instr 0 0x7
  let src := reg instr 3 0x7
  let addr := (← readReg src) + imm
  ldrb dest addr

/-- LDRB(2) -/
def ldrb2 (instr : UInt16) : Instr Bool := do
  let dest := reg instr 0 0x7
  let src1 := reg instr 3 0x7
  let src2 := reg instr 6 0x7
  let addr := (← readReg src1) + (← readReg src2)
  ldrb dest addr

/-- LDRH(1) -/
def ldrh1 (instr : UInt16) : Instr Bool := do
  let imm := field instr 6 0x1F <<< 1
  let dest := reg instr 0 0x7
  let src := reg instr 3 0x7
  let addr := (← readReg src) + imm
  ldrh dest addr

/-- LDRH(2) -/
def ldrh2 (instr : UInt16) : Instr Bool := do
  let dest := reg instr 0 0x7
  let src1 := reg instr 3 0x7
  let src2 := reg instr 6 0x7
  let addr := (← readReg src1) + (← readReg src2)
  ldrh dest addr

/-- LDRSB, where the sign goes into a `uint16_t` only. -/
def ldrsb (instr : UInt16) : Instr Bool := do
  let dest := reg instr 0 0x7
  let src1 := reg instr 3 0x7
  let src2 := reg instr 6 0x7
  let addr := (← readReg src1) + (← readReg src2)
  match ← fetch16 (addr &&& ~~~ 1) with
  | none =>
      mcuFetchError addr
      return false
  | some val =>
      let val := (if addr &&& 1 ≠ 0 then val >>> 8 else val) &&& (0xFF : UInt16)
      let val := if val &&& 0x80 ≠ 0 then val ||| 0xFF00 else val
      writeReg dest val.toUInt32
      return true

/-- LDRSH, where no sign fits into a `uint16_t`. -/
def ldrsh (instr : UInt16) : Instr Bool := do
  let dest := reg instr 0 0x7
  let src1 := reg instr 3 0x7
  let src2 := reg instr 6 0x7
  let addr := (← readReg src1) + (← readReg src2)
  match ← fetch16 addr with
  | none =>
      mcuFetchError addr
      return false
  | some val =>
      writeReg dest (val &&& 0xFFFF).toUInt32
      return true

/-- LSL(1) -/
def lsl1 (instr : UInt16) : Instr Bool := do
  let dest := reg instr 0 0x7
  let src := reg instr 3 0x7
  let imm := field instr 6 0x1F
  let a ← readReg src
  if imm ≠ 0 then
    mcuUpdateCflagBit (a &&& bit (32 - imm))
    writeReg dest (a <<< imm)
    updateNZ (a <<< imm)
    return true
  else
    writeReg dest a
    updateNZ a
    return true

/-- LSL(2) two register -/
def lsl2 (instr : UInt16) : Instr Bool := do
  let dest := reg instr 0 0x7
  let src := reg instr 3 0x7
  let a ← readReg dest
  let shift := (← readReg src) &&& 0xFF
  let carry : UInt32 :=
    if shift < 32 then a &&& bit (32 - shift) else if shift = 32 then a &&& 1 else 0
  let c : UInt32 := if shift < 32 then a <<< shift else 0
  mcuUpdateCflagBit carry
  writeReg dest c
  updateNZ c
  return true

/-- LSR(1) two register immediate -/
def lsr1 (instr : UInt16) : Instr Bool := do
  let dest := reg instr 0 0x7
  let src := reg instr 3 0x7
  let imm := field instr 6 0x1F
  let a ← readReg src
  let carry : UInt32 := if imm = 0 then a &&& 0x80000000 else a &&& bit (imm - 1)
  let c : UInt32 := if imm = 0 then 0 else a >>> imm
  mcuUpdateCflagBit carry
  writeReg dest c
  updateNZ c
  return true

/-- LSR(2) two register -/
def lsr2 (instr : UInt16) : Instr Bool := do
  let dest := reg instr 0 0x7
  let src := reg instr 3 0x7
  let a ← readReg dest
  let shift := (← readReg src) &&& 0xFF
  let carry : UInt32 :=
    if shift < 32 then a &&& bit (shift - 1) else if shift = 32 then a &&& 0x80000000 else 0
  let c : UInt32 := if shift < 32 then a >>> shift else 0
  mcuUpdateCflagBit carry
  writeReg dest c
  updateNZ c
  return true

/-- MOV(1) immediate -/
def mov1 (instr : UInt16) : Instr Bool := do
  let dest := reg instr 8 0x7
  let imm := field instr 0 0xFF
  writeReg dest imm
  updateNZ imm
  return true

/-- MOV(2) two low registers -/
def mov2 (instr : UInt16) : Instr Bool := do
  let dest := reg instr 0 0x7
  let src := reg instr 3 0x7
  let a ← readReg src
  writeReg dest a
  updateNZ a
  mcuUpdateCflagBit 0
  mcuUpdateVflagBit 0
  return true

/-- MOV(3) -/
def mov3 (instr : UInt16) : Instr Bool := do
  let dest := highReg instr
  let src := reg instr 3 0xF
  let a ← readReg src
  writeReg dest (if dest = regPc then (a &&& ~~~ 1) + 2 else a)
  return true

/-- MUL -/
def mul : UInt16 → Instr Bool := logic fun a b => a * b

/-- MVN -/
def mvn (instr : UInt16) : Instr Bool := do
  let dest := reg instr 0 0x7
  let src := reg instr 3 0x7
  let a ← readReg src
  let c := ~~~ a
  writeReg dest c
  updateNZ c
  return true

/-- NEG -/
def neg (instr : UInt16) : Instr Bool := do
  let dest := reg instr 0 0x7
  let src := reg instr 3 0x7
  let a ← readReg src
  let c := 0 - a
  writeReg dest c
  updateNZ c
  mcuUpdateCflag 0 (~~~ a) 1
  mcuUpdateVflag 0 (~~~ a) 1
  return true

/-- ORR -/
def orr : UInt16 → Instr Bool := logic fun a b => a ||| b

/-- POP, which does not halt the MCU when a fetch fails. -/
def pop (instr : UInt16) : Instr Bool := do
  let sp ← readReg regSp
  match ← loadRegs (fun _ => pure ()) (regList instr) sp with
  | none => return false
  | some sp =>
      if instr &&& 0x100 ≠ 0 then
        match ← fetch32 sp with
        | none => return false
        | some val =>
            if val &&& 1 = 0 then
              return false
            else
              writeReg regPc (val + 2)
              writeReg regSp (sp + 4)
              return true
      else
        writeReg regSp sp
        return true

/-- The registers that PUSH stores: those of the list and behind them the link register. -/
def pushList (instr : UInt16) : List Reg :=
  regList instr ++ if instr &&& 0x100 ≠ 0 then [regLr] else []

/-- PUSH, which does not halt the MCU when the link register cannot be written. -/
def push (instr : UInt16) : Instr Bool := do
  let sp ← readReg regSp
  let sp := sp - (UInt32.ofNat (pushList instr).length <<< 2)
  writeReg regSp sp
  let writeError reg sp := if reg = regLr then pure () else mcuWriteError sp
  match ← storeRegs writeError (pushList instr) sp with
  | none => return false
  | some _ => return true

/-- The bytes of a word in the other order. -/
def reversed (a : UInt32) : UInt32 :=
  let byte (shift : UInt32) : UInt32 := (a >>> shift) &&& (0xFF : UInt32)
  (byte 0 <<< 24) ||| (byte 8 <<< 16) ||| (byte 16 <<< 8) ||| (byte 24 <<< 0)

/-- REV -/
def rev (instr : UInt16) : Instr Bool := do
  let dest := reg instr 0 0x7
  let src := reg instr 3 0x7
  let a ← readReg src
  writeReg dest (reversed a)
  return true

/-- REV16, which the source has with the body of REV. -/
def rev16 (instr : UInt16) : Instr Bool := rev instr

/-- REVSH -/
def revsh (instr : UInt16) : Instr Bool := do
  let dest := reg instr 0 0x7
  let src := reg instr 3 0x7
  let a ← readReg src
  let mask : UInt32 := 0xFF
  let c : UInt32 := (((a >>> 0) &&& mask) <<< 8) ||| (((a >>> 8) &&& mask) <<< 0)
  writeReg dest (if c &&& 0x8000 ≠ 0 then c ||| 0xFFFF0000 else c &&& 0x0000FFFF)
  return true

/-- ROR -/
def ror (instr : UInt16) : Instr Bool := do
  let dest := reg instr 0 0x7
  let src2 := reg instr 3 0x7
  let a ← readReg dest
  let b ← readReg src2
  if b = 0 then
    writeReg dest a
    updateNZ a
    return true
  else
    let b := b &&& 0x1F
    let carry : UInt32 := if b = 0 then a &&& 0x80000000 else a &&& bit (b - 1)
    let c : UInt32 := if b = 0 then a else (a >>> b) ||| (a <<< (32 - b))
    mcuUpdateCflagBit carry
    writeReg dest c
    updateNZ c
    return true

/-- SBC -/
def sbc (instr : UInt16) : Instr Bool := do
  let dest := reg instr 0 0x7
  let src2 := reg instr 3 0x7
  let a ← readReg dest
  let b ← readReg src2
  let cpsr ← readReg regApsr
  let c := if cpsr &&& cpsrC = 0 then a - b - 1 else a - b
  writeReg dest c
  updateNZ c
  let cpsr ← readReg regApsr
  let carry : UInt32 := if cpsr &&& cpsrC ≠ 0 then 1 else 0
  mcuUpdateCflag a (~~~ b) carry
  mcuUpdateVflag a (~~~ b) carry
  return true

/-- STMIA -/
def stmia (instr : UInt16) : Instr Bool := do
  let base := reg instr 8 0x7
  let sp ← readReg base
  match ← storeRegs (fun _ => mcuWriteError) (regList instr) sp with
  | none => return false
  | some sp =>
      writeReg base sp
      return true

/-- STR(1) -/
def str1 (instr : UInt16) : Instr Bool := do
  let dest := reg instr 0 0x7
  let src := reg instr 3 0x7
  let imm := field instr 6 0x1F <<< 2
  let addr := (← readReg src) + imm
  let val ← readReg dest
  str addr addr val

/-- STR(2) -/
def str2 (instr : UInt16) : Instr Bool := do
  let dest := reg instr 0 0x7
  let src1 := reg instr 3 0x7
  let src2 := reg instr 6 0x7
  let addr := (← readReg src1) + (← readReg src2)
  let val ← readReg dest
  str addr val val

/-- STR(3) -/
def str3 (instr : UInt16) : Instr Bool := do
  let dest := reg instr 8 0x7
  let imm := field instr 0 0xFF <<< 2
  let addr := (← readReg regSp) + imm
  let val ← readReg dest
  str addr addr val

/-- STRB(1) -/
def strb1 (instr : UInt16) : Instr Bool := do
  let dest := reg instr 0 0x7
  let src := reg instr 3 0x7
  let imm := field instr 6 0x1F
  let addr := (← readReg src) + imm
  strb dest addr

/-- STRB(2) -/
def strb2 (instr : UInt16) : Instr Bool := do
  let dest := reg instr 0 0x7
  let src1 := reg instr 3 0x7
  let src2 := reg instr 6 0x7
  let addr := (← readReg src1) + (← readReg src2)
  strb dest addr

/-- STRH(1) -/
def strh1 (instr : UInt16) : Instr Bool := do
  let dest := reg instr 0 0x7
  let src := reg instr 3 0x7
  let imm := field instr 6 0x1F <<< 1
  let addr := (← readReg src) + imm
  let val ← readReg dest
  strh addr val

/-- STRH(2) -/
def strh2 (instr : UInt16) : Instr Bool := do
  let dest := reg instr 0 0x7
  let src1 := reg instr 3 0x7
  let src2 := reg instr 6 0x7
  let addr := (← readReg src1) + (← readReg src2)
  let val ← readReg dest
  strh addr val

/-- SUB(1) -/
def sub1 (instr : UInt16) : Instr Bool := do
  let dest := reg instr 0 0x7
  let src := reg instr 3 0x7
  let imm := field instr 6 0x7
  let a ← readReg src
  subs dest a imm

/-- SUB(2) -/
def sub2 (instr : UInt16) : Instr Bool := do
  let dest := reg instr 8 0x7
  let imm := field instr 0 0xFF
  let a ← readReg dest
  subs dest a imm

/-- SUB(3) -/
def sub3 (instr : UInt16) : Instr Bool := do
  let dest := reg instr 0 0x7
  let src1 := reg instr 3 0x7
  let src2 := reg instr 6 0x7
  let a ← readReg src1
  let b ← readReg src2
  subs dest a b

/-- SUB(4) -/
def sub4 (instr : UInt16) : Instr Bool := do
  let imm := field instr 0 0x7F <<< 2
  let sp ← readReg regSp
  writeReg regSp (sp - imm)
  return true

/-- SWI -/
def swi (_instr : UInt16) : Instr Bool := return false

/-- SXTB, SXTH, UXTB and UXTH: a part of a register is copied. -/
def extend (f : UInt32 → UInt32) (instr : UInt16) : Instr Bool := do
  let dest := reg instr 0 0x7
  let src := slipReg instr
  let a ← readReg src
  writeReg dest (f a)
  return true

/-- SXTB -/
def sxtb : UInt16 → Instr Bool := extend fun a =>
  let a := a &&& 0xFF
  if a &&& 0x80 ≠ 0 then a ||| ((0xFFFFFFFF : UInt32) <<< 8) else a

/-- SXTH -/
def sxth : UInt16 → Instr Bool := extend fun a =>
  let a := a &&& 0xFFFF
  if a &&& 0x8000 ≠ 0 then a ||| ((0xFFFFFFFF : UInt32) <<< 16) else a

/-- TST -/
def tst (instr : UInt16) : Instr Bool := do
  let src1 := reg instr 0 0x7
  let src2 := slipReg instr
  let a ← readReg src1
  let b ← readReg src2
  let c := a &&& b
  mcuUpdateZflag c
  mcuUpdateNflag c
  return true

/-- UXTB -/
def uxtb : UInt16 → Instr Bool := extend fun a => a &&& 0xFF

/-- UXTH -/
def uxth : UInt16 → Instr Bool := extend fun a => a &&& 0xFFFF

/-- WFE -/
def wfe (_instr : UInt16) : Instr Bool := return true

/-- WFI -/
def wfi (_instr : UInt16) : Instr Bool := do
  halt haltSleep
  return true

end Instr16

/-- `struct mcu_instr16` -/
structure McuInstr16 : Type where
  mask : UInt16
  instr : UInt16
  impl : UInt16 → Instr Bool

open Instr16 in
/-- `mcu_instr16_cortex_m0p` -/
def mcuInstr16CortexM0p : List McuInstr16 :=
  [⟨0xFE00, 0x1C00, add1⟩, ⟨0xF800, 0x3000, add2⟩, ⟨0xFE00, 0x1800, add3⟩, ⟨0xFF00, 0x4400, add4⟩,
    ⟨0xF800, 0xA000, add5⟩, ⟨0xF800, 0xA800, add6⟩, ⟨0xFF80, 0xB000, add7⟩, ⟨0xFFC0, 0x4000, and_⟩,
    ⟨0xF800, 0x1000, asr1⟩, ⟨0xF800, 0x1000, asr2⟩, ⟨0xF000, 0xD000, b1⟩, ⟨0xF800, 0xE000, b2⟩,
    ⟨0xFFC0, 0x4380, bic⟩, ⟨0xFF00, 0xBE00, bkpt⟩, ⟨0xF800, 0xF000, bl10⟩, ⟨0xF800, 0xF800, bl11⟩,
    ⟨0xF800, 0xE800, bl01⟩, ⟨0xFF87, 0x4780, blx2⟩, ⟨0xFF87, 0x4700, bx⟩, ⟨0xFFC0, 0x42C0, cmn⟩,
    ⟨0xF800, 0x2800, cmp1⟩, ⟨0xFFC0, 0x4280, cmp2⟩, ⟨0xFF00, 0x4500, cmp3⟩, ⟨0xFFC0, 0x4600, cpy⟩,
    ⟨0xFFC0, 0x4040, eor⟩, ⟨0xF800, 0xC800, ldmia⟩, ⟨0xF800, 0x6800, ldr1⟩, ⟨0xFE00, 0x5800, ldr2⟩,
    ⟨0xF800, 0x4800, ldr3⟩, ⟨0xF800, 0x9800, ldr4⟩, ⟨0xF800, 0x7800, ldrb1⟩,
    ⟨0xFE00, 0x5C00, ldrb2⟩, ⟨0xF800, 0x8800, ldrh1⟩, ⟨0xFE00, 0x5A00, ldrh2⟩,
    ⟨0xFE00, 0x5600, ldrsb⟩, ⟨0xFE00, 0x5E00, ldrsh⟩, ⟨0xF800, 0x0000, lsl1⟩,
    ⟨0xFFC0, 0x4080, lsl2⟩, ⟨0xF800, 0x0800, lsr1⟩, ⟨0xFFC0, 0x40C0, lsr2⟩, ⟨0xF800, 0x2000, mov1⟩,
    ⟨0xFFC0, 0x1C00, mov2⟩, ⟨0xFF00, 0x4600, mov3⟩, ⟨0xFFC0, 0x4340, mul⟩, ⟨0xFFC0, 0x43C0, mvn⟩,
    ⟨0xFFC0, 0x4240, neg⟩, ⟨0xFFC0, 0x4300, orr⟩, ⟨0xFE00, 0xBC00, pop⟩, ⟨0xFE00, 0xB400, push⟩,
    ⟨0xFFC0, 0xBA00, rev⟩, ⟨0xFFC0, 0xBA40, rev16⟩, ⟨0xFFC0, 0xBAC0, revsh⟩,
    ⟨0xFFC0, 0xBAC0, ror⟩, ⟨0xFFC0, 0x4180, sbc⟩, ⟨0xF800, 0xC000, stmia⟩, ⟨0xF800, 0x6000, str1⟩,
    ⟨0xFE00, 0x5000, str2⟩, ⟨0xF800, 0x9000, str3⟩, ⟨0xF800, 0x7000, strb1⟩,
    ⟨0xFE00, 0x5400, strb2⟩, ⟨0xF800, 0x8000, strh1⟩, ⟨0xFE00, 0x5200, strh2⟩,
    ⟨0xFE00, 0x1E00, sub1⟩, ⟨0xF800, 0x3800, sub2⟩, ⟨0xFE00, 0x1A00, sub3⟩, ⟨0xFF80, 0xB080, sub4⟩,
    ⟨0xFF00, 0xDF00, swi⟩, ⟨0xFFC0, 0xB240, sxtb⟩, ⟨0xFFC0, 0xB200, sxth⟩, ⟨0xFFC0, 0x4200, tst⟩,
    ⟨0xFFC0, 0xB2C0, uxtb⟩, ⟨0xFFC0, 0xB280, uxth⟩, ⟨0xFFFF, 0xBF20, wfe⟩, ⟨0xFFFF, 0xBF30, wfi⟩]

end TheFirmware.Simulator
