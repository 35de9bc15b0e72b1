import Mathlib.Data.Nat.Bitwise
import TheFirmware.Lib.AddWithCarry
import TheFirmware.Simulator.Lookup
import TheFirmware.Simulator.Multiple

/-!
# The flags

The functions `mcu_update_*flag` read APSR, change one bit and write it back. Each of them sets one
flag of the MCU and keeps the others and the rest of xPSR (`FlagsSet`), and the bits that they
compute are the flags of a sum with carry (`carry_eq`, `overflow_eq`).
-/

namespace TheFirmware.Simulator

open AddWithCarry Instr16

/-- The flags: the bits 31 to 28 of xPSR. -/
def Mcu.flags (mcu : Mcu) : Flags where
  n := mcu.regs regXpsr &&& cpsrN != 0
  z := mcu.regs regXpsr &&& cpsrZ != 0
  c := mcu.regs regXpsr &&& cpsrC != 0
  v := mcu.regs regXpsr &&& cpsrV != 0

/-! ## Setting a flag -/

/-- The bits of a flag are set or cleared. -/
def setBits (x flag : UInt32) (set : Bool) : UInt32 := if set then x ||| flag else x &&& ~~~ flag

section SetBits

variable {x flag mask : UInt32} {set : Bool}

theorem getElem_setBits (x flag : UInt32) (set : Bool) {i : Nat} (lt : i < 32) :
    (setBits x flag set).toBitVec[i] = if flag.toBitVec[i] then set else x.toBitVec[i] := by
  cases set with
  | false =>
    show (x.toBitVec &&& ~~~ flag.toBitVec)[i] = _
    rw [BitVec.getElem_and, BitVec.getElem_not]
    cases flag.toBitVec[i] with
    | false => exact Bool.and_true _
    | true => exact Bool.and_false _
  | true =>
    show (x.toBitVec ||| flag.toBitVec)[i] = _
    rw [BitVec.getElem_or]
    cases flag.toBitVec[i] with
    | false => exact Bool.or_false _
    | true => exact Bool.or_true _

/-- The bits of two words that have no bit in common. -/
theorem getElem_disjoint (disjoint : flag &&& mask = 0) {i : Nat} (lt : i < 32) :
    (flag.toBitVec[i] && mask.toBitVec[i]) = false := by
  have bit := congrArg (fun v : UInt32 => v.toBitVec[i]) disjoint
  rw [← BitVec.getElem_and]
  exact bit.trans (BitVec.getElem_zero lt)

/-- Bits that are not of the flag are kept. -/
theorem setBits_of_disjoint (x : UInt32) (set : Bool) (disjoint : flag &&& mask = 0) :
    setBits x flag set &&& mask = x &&& mask := by
  apply UInt32.toBitVec_inj.mp
  ext i lt
  have apart := getElem_disjoint disjoint lt
  rw [UInt32.toBitVec_and, UInt32.toBitVec_and, BitVec.getElem_and, BitVec.getElem_and,
    getElem_setBits]
  cases flagBit : flag.toBitVec[i] with
  | false => rfl
  | true =>
    rw [flagBit, Bool.true_and] at apart
    rw [apart, Bool.and_false, Bool.and_false]

/-- The bits of the flag are as they were set. -/
theorem setBits_self (x flag : UInt32) (set : Bool) :
    setBits x flag set &&& flag = if set then flag else 0 := by
  apply UInt32.toBitVec_inj.mp
  ext i lt
  rw [UInt32.toBitVec_and, BitVec.getElem_and, getElem_setBits]
  cases flagBit : flag.toBitVec[i] with
  | false =>
    rw [Bool.and_false]
    cases set with
    | false => exact (BitVec.getElem_zero lt).symm
    | true => exact flagBit.symm
  | true =>
    rw [if_pos rfl, Bool.and_true]
    cases set with
    | false => exact (BitVec.getElem_zero lt).symm
    | true => exact flagBit.symm

/-- Bits that are read and written back through a mask. -/
theorem setBits_masked (x : UInt32) (set : Bool) (part : flag &&& ~~~ mask = 0) :
    (x &&& ~~~ mask) ||| (setBits (x &&& mask) flag set &&& mask) = setBits x flag set := by
  apply UInt32.toBitVec_inj.mp
  ext i lt
  have inside := getElem_disjoint part lt
  rw [UInt32.toBitVec_not, BitVec.getElem_not] at inside
  rw [UInt32.toBitVec_or, UInt32.toBitVec_and, UInt32.toBitVec_not, UInt32.toBitVec_and,
    BitVec.getElem_or, BitVec.getElem_and, BitVec.getElem_and, BitVec.getElem_not, getElem_setBits,
    getElem_setBits, UInt32.toBitVec_and, BitVec.getElem_and]
  cases maskBit : mask.toBitVec[i] with
  | false =>
    rw [maskBit, Bool.not_false, Bool.and_true] at inside
    rw [inside, Bool.not_false, Bool.and_true, Bool.and_false, Bool.or_false]
    rfl
  | true => rw [Bool.not_true, Bool.and_false, Bool.false_or, Bool.and_true, Bool.and_true]

end SetBits

/-- The MCU when a flag has been set or cleared. -/
def Mcu.setFlag (mcu : Mcu) (flag : UInt32) (set : Bool) : Mcu :=
  mcu.setReg regXpsr (setBits (mcu.regs regXpsr) flag set)

/-- The state of the MCU when flags have been set: nothing else has changed. -/
structure FlagsSet (mcu mcu' : Mcu) (flags : Flags) : Prop where
  flags : mcu'.flags = flags
  xpsr : mcu'.regs regXpsr &&& 0x0FFFFFFF = mcu.regs regXpsr &&& 0x0FFFFFFF
  regs : ∀ reg, reg ≠ regXpsr → mcu'.regs reg = mcu.regs reg
  rest : mcu' = { mcu with regs := mcu'.regs, pcEven := mcu'.pcEven }

section FlagsSet

variable {mcu mcu' : Mcu} {flag : UInt32} {flags : Flags}

/-- The functions `mcu_update_*flag` set a flag. -/
theorem run_updateFlag {α : Type} (mcu : Mcu) (set : Bool) (f : Unit → Instr α)
    (part : flag &&& ~~~ 0xF0000000 = 0) :
    (mcuUpdateFlag flag set >>= f).run Op.handle mcu =
      (f ()).run Op.handle (mcu.setFlag flag set) := by
  have written : (mcuUpdateFlag flag set >>= f).run Op.handle mcu = (f ()).run Op.handle
      (mcu.setXpsr 0xF0000000 (setBits (mcu.regs regXpsr &&& 0xF0000000) flag set)) := rfl
  rw [written]
  unfold Mcu.setXpsr Mcu.setFlag
  rw [setBits_masked _ _ part]

theorem xpsr_setFlag (mcu : Mcu) (flag : UInt32) (set : Bool) :
    (mcu.setFlag flag set).regs regXpsr = setBits (mcu.regs regXpsr) flag set :=
  mcu.regs_setReg_self _ (by decide)

/-- A flag that is one bit. -/
theorem flag_setFlag_self (mcu : Mcu) (set : Bool) (bit : flag ≠ 0) :
    ((mcu.setFlag flag set).regs regXpsr &&& flag != 0) = set := by
  rw [xpsr_setFlag, setBits_self]
  cases set with
  | false => rfl
  | true => exact bne_iff_ne.mpr bit

/-- Another flag is kept. -/
theorem flag_setFlag_of_disjoint {other : UInt32} (mcu : Mcu) (set : Bool)
    (disjoint : flag &&& other = 0) :
    ((mcu.setFlag flag set).regs regXpsr &&& other != 0) = (mcu.regs regXpsr &&& other != 0) := by
  rw [xpsr_setFlag, setBits_of_disjoint _ _ disjoint]

theorem FlagsSet.refl (mcu : Mcu) : FlagsSet mcu mcu mcu.flags := ⟨rfl, rfl, fun _ _ => rfl, rfl⟩

/-- One more flag is set. -/
theorem FlagsSet.setFlag (done : FlagsSet mcu mcu' flags) (set : Bool) {flags' : Flags}
    (part : flag &&& 0x0FFFFFFF = 0) (after : (mcu'.setFlag flag set).flags = flags') :
    FlagsSet mcu (mcu'.setFlag flag set) flags' where
  flags := after
  xpsr := by
    rw [xpsr_setFlag, setBits_of_disjoint _ _ part]
    exact done.xpsr
  regs := fun reg ne => (mcu'.regs_setReg_of_ne _ ne).trans (done.regs reg ne)
  rest := by
    have kept : mcu'.setFlag flag set = { mcu' with
      regs := (mcu'.setFlag flag set).regs, pcEven := (mcu'.setFlag flag set).pcEven } := rfl
    rw [kept, done.rest]

theorem FlagsSet.n (done : FlagsSet mcu mcu' flags) (set : Bool) :
    FlagsSet mcu (mcu'.setFlag cpsrN set) { flags with n := set } := by
  have after : (mcu'.setFlag cpsrN set).flags = { mcu'.flags with n := set } :=
    Flags.ext (flag_setFlag_self _ _ (by decide)) (flag_setFlag_of_disjoint _ _ (by decide))
      (flag_setFlag_of_disjoint _ _ (by decide)) (flag_setFlag_of_disjoint _ _ (by decide))
  rw [done.flags] at after
  exact done.setFlag set (by decide) after

theorem FlagsSet.z (done : FlagsSet mcu mcu' flags) (set : Bool) :
    FlagsSet mcu (mcu'.setFlag cpsrZ set) { flags with z := set } := by
  have after : (mcu'.setFlag cpsrZ set).flags = { mcu'.flags with z := set } :=
    Flags.ext (flag_setFlag_of_disjoint _ _ (by decide)) (flag_setFlag_self _ _ (by decide))
      (flag_setFlag_of_disjoint _ _ (by decide)) (flag_setFlag_of_disjoint _ _ (by decide))
  rw [done.flags] at after
  exact done.setFlag set (by decide) after

theorem FlagsSet.c (done : FlagsSet mcu mcu' flags) (set : Bool) :
    FlagsSet mcu (mcu'.setFlag cpsrC set) { flags with c := set } := by
  have after : (mcu'.setFlag cpsrC set).flags = { mcu'.flags with c := set } :=
    Flags.ext (flag_setFlag_of_disjoint _ _ (by decide)) (flag_setFlag_of_disjoint _ _ (by decide))
      (flag_setFlag_self _ _ (by decide)) (flag_setFlag_of_disjoint _ _ (by decide))
  rw [done.flags] at after
  exact done.setFlag set (by decide) after

theorem FlagsSet.v (done : FlagsSet mcu mcu' flags) (set : Bool) :
    FlagsSet mcu (mcu'.setFlag cpsrV set) { flags with v := set } := by
  have after : (mcu'.setFlag cpsrV set).flags = { mcu'.flags with v := set } :=
    Flags.ext (flag_setFlag_of_disjoint _ _ (by decide)) (flag_setFlag_of_disjoint _ _ (by decide))
      (flag_setFlag_of_disjoint _ _ (by decide)) (flag_setFlag_self _ _ (by decide))
  rw [done.flags] at after
  exact done.setFlag set (by decide) after

end FlagsSet

/-! ## The flags of a sum -/

section Sums

variable {c : UInt32} {carry : Bool}

theorem toNat_low31 (a : UInt32) : (a &&& 0x7FFFFFFF).toNat = a.toNat % 2 ^ 31 := by
  rw [UInt32.toNat_and]
  exact Nat.and_two_pow_sub_one_eq_mod a.toNat 31

theorem toNat_high31 (a : UInt32) : (a >>> 31).toNat = a.toNat / 2 ^ 31 := by
  rw [UInt32.toNat_shiftRight, Nat.shiftRight_eq_div_pow]
  rfl

/-- The carry into bit 31. -/
theorem toNat_partial (a b : UInt32) (small : c.toNat = carry.toNat) :
    (((a &&& 0x7FFFFFFF) + (b &&& 0x7FFFFFFF) + c) >>> 31).toNat =
      (a.toNat % 2 ^ 31 + b.toNat % 2 ^ 31 + carry.toNat) / 2 ^ 31 := by
  have carryLe := carry.toNat_le
  rw [toNat_high31, UInt32.toNat_add, UInt32.toNat_add, toNat_low31, toNat_low31, small]
  omega

theorem and_two_ne_zero {t : Nat} (lt : t < 4) : t &&& 2 ≠ 0 ↔ 2 ≤ t := by
  interval_cases t
  all_goals decide

/-- What `mcu_update_cflag` computes is the carry. -/
theorem carry_eq (a b : UInt32) (small : c.toNat = carry.toNat) :
    ((((((a &&& 0x7FFFFFFF) + (b &&& 0x7FFFFFFF) + c) >>> 31) + (a >>> 31) + (b >>> 31)) &&& 2) !=
      0) = (addWithCarry a.toBitVec b.toBitVec carry).2.c := by
  have carryLe := carry.toNat_le
  have aLt := a.toNat_lt
  have bLt := b.toNat_lt
  have sum : (((((a &&& 0x7FFFFFFF) + (b &&& 0x7FFFFFFF) + c) >>> 31) + (a >>> 31) + (b >>> 31)) :
      UInt32).toNat = (a.toNat % 2 ^ 31 + b.toNat % 2 ^ 31 + carry.toNat) / 2 ^ 31 +
        a.toNat / 2 ^ 31 + b.toNat / 2 ^ 31 := by
    rw [UInt32.toNat_add, UInt32.toNat_add, toNat_partial a b small, toNat_high31, toNat_high31]
    omega
  have two : (2 : UInt32).toNat = 2 := rfl
  have zero : (0 : UInt32).toNat = 0 := rfl
  rw [carry_addWithCarry, Bool.eq_iff_iff, bne_iff_ne, decide_eq_true_iff, ne_eq,
    ← UInt32.toNat_inj, UInt32.toNat_and, sum, two, zero, ← ne_eq, and_two_ne_zero (by omega)]
  show _ ↔ 2 ^ 32 ≤ a.toNat + b.toNat + carry.toNat
  omega

theorem xor_and_one_ne_zero {s t : Nat} (sLt : s < 2) (tLt : t < 2) :
    (s ^^^ t) &&& 1 ≠ 0 ↔ s ≠ t := by
  interval_cases s
  · interval_cases t
    · decide
    · decide
  · interval_cases t
    · decide
    · decide

/-- A sum overflows if the carry into bit 31 is not the carry out of it. -/
theorem overflow_iff (a b : UInt32) :
    (addWithCarry a.toBitVec b.toBitVec carry).2.v = true ↔
      (a.toNat % 2 ^ 31 + b.toNat % 2 ^ 31 + carry.toNat) / 2 ^ 31 ≠
        ((a.toNat % 2 ^ 31 + b.toNat % 2 ^ 31 + carry.toNat) / 2 ^ 31 + a.toNat / 2 ^ 31 +
          b.toNat / 2 ^ 31) / 2 := by
  have carryLe := carry.toNat_le
  have aLt := a.toNat_lt
  have bLt := b.toNat_lt
  show ((BitVec.ofNat 32 (a.toNat + b.toNat + carry.toNat)).toInt !=
    a.toBitVec.toInt + b.toBitVec.toInt + carry.toNat) = true ↔ _
  rw [bne_iff_ne, BitVec.toInt_eq_toNat_cond, BitVec.toInt_eq_toNat_cond a.toBitVec,
    BitVec.toInt_eq_toNat_cond b.toBitVec, BitVec.toNat_ofNat, UInt32.toNat_toBitVec,
    UInt32.toNat_toBitVec]
  split <;> split <;> split <;> omega

/-- What `mcu_update_vflag` computes is the overflow. -/
theorem overflow_eq (a b : UInt32) (small : c.toNat = carry.toNat) :
    (let temp1 : UInt32 := ((a &&& 0x7FFFFFFF) + (b &&& 0x7FFFFFFF) + c) >>> 31
      let one : UInt32 := 1
      let temp2 : UInt32 := ((temp1 &&& one) + ((a >>> 31) &&& one) + ((b >>> 31) &&& one)) >>> 1
      (temp1 ^^^ temp2) &&& 1 != 0) = (addWithCarry a.toBitVec b.toBitVec carry).2.v := by
  have carryLe := carry.toNat_le
  have aLt := a.toNat_lt
  have bLt := b.toNat_lt
  have low := toNat_partial a b small
  have zero : (0 : UInt32).toNat = 0 := rfl
  have one : (1 : UInt32).toNat = 1 := rfl
  have keep : ∀ x : UInt32, x.toNat < 2 → x &&& 1 = x := by
    intro x lt
    apply UInt32.toNat_inj.mp
    rw [LittleEndian.toNat_and_one]
    omega
  have aHigh := toNat_high31 a
  have bHigh := toNat_high31 b
  rw [Bool.eq_iff_iff, overflow_iff, ← aHigh, ← bHigh, ← low]
  generalize ((a &&& 0x7FFFFFFF) + (b &&& 0x7FFFFFFF) + c) >>> 31 = t at low ⊢
  generalize a >>> 31 = s at aHigh ⊢
  generalize b >>> 31 = u at bHigh ⊢
  have sum : ((t + s + u) >>> 1).toNat = (t.toNat + s.toNat + u.toNat) / 2 := by
    have half : 2 ^ (1 % 32) = 2 := rfl
    rw [UInt32.toNat_shiftRight, Nat.shiftRight_eq_div_pow, UInt32.toNat_add, UInt32.toNat_add, one,
      half]
    omega
  dsimp only
  rw [keep t (by omega), keep s (by omega), keep u (by omega), bne_iff_ne, ne_eq,
    ← UInt32.toNat_inj, UInt32.toNat_and, UInt32.toNat_xor, zero, one, sum]
  exact xor_and_one_ne_zero (by omega) (by omega)

end Sums

/-! ## The functions that set flags -/

section Updates

variable {mcu mcu' : Mcu} {α : Type}

/-- A bit is tested with a shifted 1, where a shift takes its count modulo 32. -/
theorem and_bit_ne_zero (a i : UInt32) :
    (a &&& bit i != 0) = a.toBitVec.getLsbD (i.toNat % 32) := by
  have small : 2 ^ (i.toNat % 32) < 2 ^ 32 := Nat.pow_lt_pow_right (by decide) (by omega)
  have one : (1 : UInt32).toNat = 1 := rfl
  have zero : (0 : UInt32).toNat = 0 := rfl
  have shifted : (bit i).toNat = 2 ^ (i.toNat % 32) := by
    unfold bit
    rw [UInt32.toNat_shiftLeft, one, Nat.shiftLeft_eq, Nat.one_mul, Nat.mod_eq_of_lt small]
  rw [Bool.eq_iff_iff, bne_iff_ne, ne_eq, ← UInt32.toNat_inj, UInt32.toNat_and, shifted, zero,
    Nat.and_two_pow]
  show _ ↔ a.toNat.testBit (i.toNat % 32) = true
  cases a.toNat.testBit (i.toNat % 32) with
  | false => simp
  | true => simp

theorem sign_eq (c : UInt32) : (c &&& bit 31 != 0) = c.toBitVec.msb :=
  (and_bit_ne_zero c 31).trans c.toBitVec.msb_eq_getLsbD_last.symm

theorem zero_eq (c : UInt32) : (c == 0) = (c.toBitVec == 0) := by
  rw [Bool.eq_iff_iff, beq_iff_eq, beq_iff_eq]
  exact UInt32.toBitVec_inj.symm

/-- A result sets N and Z. -/
theorem run_updateNZ (mcu : Mcu) (c : UInt32) (f : Unit → Instr α) :
    (updateNZ c >>= f).run Op.handle mcu = (f ()).run Op.handle
      ((mcu.setFlag cpsrN c.toBitVec.msb).setFlag cpsrZ (c.toBitVec == 0)) := by
  have assoc : (updateNZ c >>= f) = mcuUpdateFlag cpsrN (c &&& bit 31 != 0) >>= fun _ =>
    mcuUpdateFlag cpsrZ (c == 0) >>= f := rfl
  rw [assoc, run_updateFlag _ _ _ (by decide), run_updateFlag _ _ _ (by decide), sign_eq, zero_eq]

theorem run_updateCflagBit (mcu : Mcu) (val : UInt32) (f : Unit → Instr α) :
    (mcuUpdateCflagBit val >>= f).run Op.handle mcu =
      (f ()).run Op.handle (mcu.setFlag cpsrC (val != 0)) :=
  run_updateFlag mcu _ f (by decide)

theorem run_updateCflag {c : UInt32} {carry : Bool} (mcu : Mcu) (a b : UInt32)
    (small : c.toNat = carry.toNat) (f : Unit → Instr α) :
    (mcuUpdateCflag a b c >>= f).run Op.handle mcu = (f ()).run Op.handle
      (mcu.setFlag cpsrC (addWithCarry a.toBitVec b.toBitVec carry).2.c) := by
  rw [← carry_eq a b small]
  exact run_updateFlag mcu _ f (by decide)

theorem run_updateVflag {c : UInt32} {carry : Bool} (mcu : Mcu) (a b : UInt32)
    (small : c.toNat = carry.toNat) (f : Unit → Instr α) :
    (mcuUpdateVflag a b c >>= f).run Op.handle mcu = (f ()).run Op.handle
      (mcu.setFlag cpsrV (addWithCarry a.toBitVec b.toBitVec carry).2.v) := by
  rw [← overflow_eq a b small]
  exact run_updateFlag mcu _ f (by decide)

end Updates

/-! ## Steps that set flags -/

/-- A step goes to the next instruction and sets registers and flags; nothing else changes. -/
structure Mcu.Stepped (mcu mcu' : Mcu) (dests : List Reg) (flags : Flags) : Prop where
  flags : mcu'.flags = flags
  pc : mcuReadReg mcu' regPc = mcuReadReg mcu regPc + 2
  regs : ∀ reg, reg ∉ dests → reg ≠ regPc → reg ≠ regXpsr → mcu'.regs reg = mcu.regs reg
  xpsr : mcu'.regs regXpsr &&& 0x0FFFFFFF = mcu.regs regXpsr &&& 0x0FFFFFFF
  rest : mcu' = { mcu with regs := mcu'.regs, pcEven := mcu'.pcEven }

/-- The MCU behind the instruction that it executes. -/
def Mcu.advanced (mcu : Mcu) : Mcu := mcuWriteReg mcu regPc (mcuReadReg mcu regPc + 2)

section Stepped

variable {mcu mcu' : Mcu} {dest : Reg} {val : UInt32} {flags : Flags}

theorem regs_advanced_pc (mcu : Mcu) : mcu.advanced.regs regPc = mcu.regs regPc + 2 := by
  have even := LittleEndian.toNat_and_not_one (mcu.regs regPc + 2)
  have bit := LittleEndian.toNat_and_one (mcu.regs regPc)
  have zero : (0 : UInt32).toNat = 0 := rfl
  have two : (2 : UInt32).toNat = 2 := rfl
  rw [mcu.pcEven, zero] at bit
  refine (mcuReadReg_writePc_self mcu _).trans (UInt32.toNat_inj.mp ?_)
  show ((mcu.regs regPc + 2) &&& ~~~ 1).toNat = (mcu.regs regPc + 2).toNat
  rw [UInt32.toNat_add, two] at even ⊢
  omega

theorem regs_advanced_of_ne {reg : Reg} (mcu : Mcu) (ne : reg ≠ regPc) :
    mcu.advanced.regs reg = mcu.regs reg := mcu.regs_setReg_of_ne _ ne

theorem flags_advanced (mcu : Mcu) : mcu.advanced.flags = mcu.flags := by
  unfold Mcu.flags
  rw [regs_advanced_of_ne mcu (by decide)]

/-- Flags are set behind the instruction. -/
theorem stepped_of_flagsSet (set : FlagsSet mcu.advanced mcu' flags) : mcu.Stepped mcu' [] flags where
  flags := set.flags
  pc := (set.regs regPc (by decide)).trans (regs_advanced_pc mcu)
  regs := fun reg _ notPc notXpsr => (set.regs reg notXpsr).trans (regs_advanced_of_ne mcu notPc)
  xpsr := by rw [set.xpsr, regs_advanced_of_ne mcu (by decide)]
  rest := set.rest

/-- A register and flags are set behind the instruction. -/
theorem stepped_of_write (low : dest < 8)
    (set : FlagsSet (mcuWriteReg mcu.advanced dest val) mcu' flags) :
    mcuReadReg mcu' dest = val ∧ mcu.Stepped mcu' [dest] flags := by
  have notPc : dest ≠ regPc := (low.trans (by decide)).ne
  have notXpsr : dest ≠ regXpsr := (low.trans (by decide)).ne
  have written := mcuWriteReg_of_plain mcu.advanced val (low.trans (by decide) : dest < regSp)
  rw [written] at set
  have kept : ∀ reg, reg ≠ dest → (mcu.advanced.setReg dest val).regs reg = mcu.advanced.regs reg :=
    fun reg ne => mcu.advanced.regs_setReg_of_ne val ne
  refine ⟨?_, ?_⟩
  · rw [mcuReadReg_of_plain _ (low.trans (by decide)), set.regs dest notXpsr]
    exact mcu.advanced.regs_setReg_self val notPc
  · refine ⟨set.flags, ?_, ?_, ?_, set.rest⟩
    · exact (set.regs regPc (by decide)).trans ((kept regPc notPc.symm).trans (regs_advanced_pc mcu))
    · intro reg notDest ne notXpsr
      rw [set.regs reg notXpsr, kept reg fun eq => notDest (List.mem_singleton.mpr eq),
        regs_advanced_of_ne mcu ne]
    · rw [set.xpsr, kept regXpsr notXpsr.symm, regs_advanced_of_ne mcu (by decide)]

/-- Another low register is as before. -/
theorem Mcu.Stepped.read {dests : List Reg} {reg : Reg} (stepped : mcu.Stepped mcu' dests flags)
    (low : reg < 8) (kept : reg ∉ dests) : mcuReadReg mcu' reg = mcuReadReg mcu reg := by
  have notPc : reg ≠ regPc := (low.trans (by decide)).ne
  have notXpsr : reg ≠ regXpsr := (low.trans (by decide)).ne
  rw [mcuReadReg_of_plain _ (low.trans (by decide)), mcuReadReg_of_plain _ (low.trans (by decide))]
  exact stepped.regs reg kept notPc notXpsr

/-- The memory is as before. -/
theorem Mcu.Stepped.fetch16 {dests : List Reg} (stepped : mcu.Stepped mcu' dests flags) :
    mcuFetch16 mcu' = mcuFetch16 mcu := by
  rw [stepped.rest]
  rfl

/-- The next instruction is two bytes behind. -/
theorem Mcu.Stepped.fetched {dests : List Reg} {next : Option UInt16}
    (stepped : mcu.Stepped mcu' dests flags)
    (fetched : mcuFetch16 mcu (mcuReadReg mcu regPc) = next) :
    mcuFetch16 mcu' (mcuReadReg mcu' regPc - 2) = next := by
  rw [stepped.fetch16, stepped.pc, UInt32.add_sub_cancel, fetched]

end Stepped

end TheFirmware.Simulator
