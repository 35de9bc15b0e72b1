import TheFirmware.Simulator.Flags

/-!
# Adding and subtracting

The instructions ADDS, SUBS, RSBS and SBCS of ARMv6-M are sums with carry (`AddSub.sum`). The entries
of the table for them compute the result and the flags separately, from 31-bit partial sums, and a
step with one of them does what the architecture defines (`addSub_step`).
-/

namespace TheFirmware.Simulator

open AddWithCarry Instr16

/-- The bits `[low + size - 1 : low]` of an instruction. -/
def bits (instr : UInt16) (low size : Nat) : Nat := instr.toNat / 2 ^ low % 2 ^ size

/-- The value of the register that an instruction names at a bit. -/
def Mcu.operand (mcu : Mcu) (instr : UInt16) (low : Nat) : BitVec 32 :=
  (mcuReadReg mcu (bits instr low 3)).toBitVec

/-- What an instruction reads from a register: the PC is four bytes behind the instruction. -/
def Mcu.value (mcu : Mcu) (reg : Reg) : BitVec 32 :=
  (if reg = regPc then mcuReadReg mcu regPc + 2 else mcuReadReg mcu reg).toBitVec

/-- The immediate that an instruction holds. -/
def immediate (instr : UInt16) (low size : Nat) : BitVec 32 := .ofNat 32 (bits instr low size)

/-- The add and subtract instructions of ARMv6-M, by their forms. -/
inductive AddSub : Type
  | addsImm3
  | addsImm8
  | addsReg
  | subsImm3
  | subsImm8
  | subsReg
  | rsbs
  | sbcs
  deriving DecidableEq, Repr

/-- The mask and the fixed bits of a form. -/
def AddSub.pattern : AddSub → UInt16 × UInt16
  | addsImm3 => (0xFE00, 0x1C00)
  | addsImm8 => (0xF800, 0x3000)
  | addsReg => (0xFE00, 0x1800)
  | subsImm3 => (0xFE00, 0x1E00)
  | subsImm8 => (0xF800, 0x3800)
  | subsReg => (0xFE00, 0x1A00)
  | rsbs => (0xFFC0, 0x4240)
  | sbcs => (0xFFC0, 0x4180)

/-- The instruction has the form. -/
def AddSub.Encodes (op : AddSub) (instr : UInt16) : Prop := instr &&& op.pattern.1 = op.pattern.2

/-- The destination register. -/
def AddSub.dest (op : AddSub) (instr : UInt16) : Reg :=
  match op with
  | addsImm8 | subsImm8 => bits instr 8 3
  | _ => bits instr 0 3

/-- The two operands: `a` and `b` of `a + b` or `a - b`. -/
def AddSub.operands (op : AddSub) (mcu : Mcu) (instr : UInt16) : BitVec 32 × BitVec 32 :=
  match op with
  | addsImm3 | subsImm3 => (mcu.operand instr 3, immediate instr 6 3)
  | addsImm8 | subsImm8 => (mcu.operand instr 8, immediate instr 0 8)
  | addsReg | subsReg => (mcu.operand instr 3, mcu.operand instr 6)
  | rsbs => (0, mcu.operand instr 3)
  | sbcs => (mcu.operand instr 0, mcu.operand instr 3)

/-- The result and the flags, as the architecture defines them. -/
def AddSub.sum (op : AddSub) (mcu : Mcu) (instr : UInt16) : BitVec 32 × Flags :=
  let (a, b) := op.operands mcu instr
  match op with
  | addsImm3 | addsImm8 | addsReg => addWithCarry a b false
  | subsImm3 | subsImm8 | subsReg => addWithCarry a (~~~ b) true
  | rsbs => addWithCarry (~~~ b) a true
  | sbcs => addWithCarry a (~~~ b) mcu.flags.c

/-- SUBS on low words and SBCS on high words, which are in registers that SUBS does not change. -/
structure Sub64 (op : AddSub) (low high : UInt16) : Prop where
  subs : op = .subsImm3 ∨ op = .subsImm8 ∨ op = .subsReg
  lowEncodes : op.Encodes low
  highEncodes : AddSub.sbcs.Encodes high
  apart : op.dest low ≠ bits high 0 3 ∧ op.dest low ≠ bits high 3 3

/-! ## Fields -/

section Fields

variable {shift mask : UInt16} {low size : Nat}

theorem toNat_field (instr : UInt16) (at_ : shift.toNat % 16 = low)
    (ones : mask.toNat = 2 ^ size - 1) : (field instr shift mask).toNat = bits instr low size := by
  unfold field bits
  rw [UInt16.toNat_toUInt32, UInt16.toNat_and, UInt16.toNat_shiftRight, at_, ones,
    Nat.and_two_pow_sub_one_eq_mod, Nat.shiftRight_eq_div_pow]

theorem reg_eq_bits (instr shift : UInt16) (low : Nat) (at_ : shift.toNat % 16 = low) :
    reg instr shift 0x7 = bits instr low 3 := toNat_field instr at_ rfl

theorem field_eq_immediate (instr shift mask : UInt16) (low size : Nat)
    (at_ : shift.toNat % 16 = low) (ones : mask.toNat = 2 ^ size - 1) :
    (field instr shift mask).toBitVec = immediate instr low size := by
  apply BitVec.eq_of_toNat_eq
  unfold immediate
  rw [UInt32.toNat_toBitVec, BitVec.toNat_ofNat, ← toNat_field instr at_ ones,
    Nat.mod_eq_of_lt (field instr shift mask).toNat_lt]

theorem bits_lt (instr : UInt16) (low : Nat) : bits instr low 3 < 8 := Nat.mod_lt _ (by decide)

/-- The registers that an instruction names are those before the step. -/
theorem operand_advanced (mcu : Mcu) (instr shift : UInt16) (low : Nat)
    (at_ : shift.toNat % 16 = low) :
    (mcuReadReg mcu.advanced (reg instr shift 0x7)).toBitVec = mcu.operand instr low := by
  unfold Mcu.operand Mcu.advanced
  rw [reg_eq_bits instr shift low at_,
    mcuReadReg_writePc _ _ ((bits_lt instr low).trans (by decide)).ne]

theorem value_advanced (mcu : Mcu) (reg : Reg) :
    (mcuReadReg mcu.advanced reg).toBitVec = mcu.value reg := by
  unfold Mcu.value
  by_cases isPc : reg = regPc
  · rw [if_pos isPc, isPc]
    exact congrArg UInt32.toBitVec (regs_advanced_pc mcu)
  · rw [if_neg isPc]
    exact congrArg UInt32.toBitVec (mcuReadReg_writePc mcu _ isPc)

/-- A word below `2 ^ k`, extended with bit `k - 1`. -/
theorem extend_sign {x sign ones : UInt32} {k : Nat} (pos : 0 < k) (le : k ≤ 31)
    (lt : x.toNat < 2 ^ k) (isSign : sign.toNat = 2 ^ (k - 1))
    (isOnes : ones.toNat = 2 ^ k * (2 ^ (32 - k) - 1)) :
    (if x &&& sign ≠ 0 then x ||| ones else x).toBitVec =
      (BitVec.ofNat k x.toNat).signExtend 32 := by
  have high : 2 ^ k = 2 * 2 ^ (k - 1) := by
    rw [← Nat.pow_add_one', Nat.sub_add_cancel pos]
  have whole : 2 ^ k * 2 ^ (32 - k) = 2 ^ 32 := by
    rw [← Nat.pow_add]
    congr 1
    omega
  have fits : 2 ^ k ≤ 2 ^ 31 := Nat.pow_le_pow_right (by decide) le
  have zero : (0 : UInt32).toNat = 0 := rfl
  have tested : (x &&& sign).toNat = (x.toNat.testBit (k - 1)).toNat * 2 ^ (k - 1) := by
    rw [UInt32.toNat_and, isSign, Nat.and_two_pow]
  have value : (BitVec.ofNat k x.toNat).toInt =
      if 2 * x.toNat < 2 ^ k then (x.toNat : Int) else (x.toNat : Int) - (2 ^ k : Nat) := by
    rw [BitVec.toInt_eq_toNat_cond, BitVec.toNat_ofNat, Nat.mod_eq_of_lt lt]
  apply BitVec.eq_of_toNat_eq
  show _ = (BitVec.ofInt 32 (BitVec.ofNat k x.toNat).toInt).toNat
  rw [UInt32.toNat_toBitVec, BitVec.toNat_ofInt, value]
  by_cases small : x.toNat < 2 ^ (k - 1)
  · have clear : x &&& sign = 0 := by
      apply UInt32.toNat_inj.mp
      rw [tested, Nat.testBit_lt_two_pow small, zero]
      exact Nat.zero_mul _
    rw [if_neg (not_not.mpr clear), if_pos (by omega)]
    omega
  · have set : x &&& sign ≠ 0 := by
      have bit : x.toNat.testBit (k - 1) = true := by
        refine Nat.testBit_of_two_pow_le_and_two_pow_add_one_gt (by omega) ?_
        rw [Nat.sub_add_cancel pos]
        exact lt
      intro clear
      rw [clear, bit, zero, Bool.toNat_true] at tested
      have size := Nat.two_pow_pos (k - 1)
      omega
    have extended : (x ||| ones).toNat = ones.toNat + x.toNat := by
      rw [UInt32.toNat_or, isOnes, Nat.or_comm, ← Nat.two_pow_add_eq_or_of_lt lt]
    have onesEq : ones.toNat = 2 ^ 32 - 2 ^ k := by
      rw [isOnes, Nat.mul_sub, whole, Nat.mul_one]
    rw [if_pos set, if_neg (by omega), extended, onesEq]
    omega

end Fields

/-! ## The families -/

section Families

variable {mcu mcu' : Mcu}

/-- Four flags are set, in the order of an addition. -/
theorem flagsSet_sum (mcu : Mcu) (flags : Flags) :
    FlagsSet mcu ((((mcu.setFlag cpsrN flags.n).setFlag cpsrZ flags.z).setFlag cpsrC
      flags.c).setFlag cpsrV flags.v) flags :=
  ((((FlagsSet.refl mcu).n flags.n).z flags.z).c flags.c).v flags.v

/-- Four flags are set, in the order of a subtraction. -/
theorem flagsSet_difference (mcu : Mcu) (flags : Flags) :
    FlagsSet mcu ((((mcu.setFlag cpsrN flags.n).setFlag cpsrZ flags.z).setFlag cpsrV
      flags.v).setFlag cpsrC flags.c) flags :=
  ((((FlagsSet.refl mcu).n flags.n).z flags.z).v flags.v).c flags.c

theorem toBitVec_sum (a b : UInt32) :
    (a + b).toBitVec = (addWithCarry a.toBitVec b.toBitVec false).1 := by
  rw [fst_addWithCarry, UInt32.toBitVec_add]
  exact (BitVec.add_zero _).symm

theorem toBitVec_difference (a b : UInt32) :
    (a - b).toBitVec = (addWithCarry a.toBitVec (~~~ b).toBitVec true).1 := by
  rw [UInt32.toBitVec_not, fst_compare, UInt32.toBitVec_sub]

theorem run_adds (mcu : Mcu) (dest : Reg) (a b : UInt32) :
    ∃ mcu', (adds dest a b).run Op.handle mcu = .ok true mcu' ∧
      FlagsSet (mcuWriteReg mcu dest (a + b)) mcu'
        (addWithCarry a.toBitVec b.toBitVec false).2 := by
  have none : (0 : UInt32).toNat = false.toNat := rfl
  refine ⟨_, ?_, flagsSet_sum _ _⟩
  unfold adds
  dsimp only
  rw [run_writeReg, run_updateNZ, run_updateCflag _ a b none,
    run_updateVflag _ a b none, toBitVec_sum]
  rfl

theorem run_subs (mcu : Mcu) (dest : Reg) (a b : UInt32) :
    ∃ mcu', (subs dest a b).run Op.handle mcu = .ok true mcu' ∧
      FlagsSet (mcuWriteReg mcu dest (a - b)) mcu'
        (addWithCarry a.toBitVec (~~~ b).toBitVec true).2 := by
  have one : (1 : UInt32).toNat = true.toNat := rfl
  refine ⟨_, ?_, flagsSet_difference _ _⟩
  unfold subs
  dsimp only
  rw [run_writeReg, run_updateNZ, run_updateVflag _ a (~~~ b) one,
    run_updateCflag _ a (~~~ b) one, toBitVec_difference]
  rfl

theorem run_cmps (mcu : Mcu) (a b : UInt32) :
    ∃ mcu', (cmps a b).run Op.handle mcu = .ok true mcu' ∧
      FlagsSet mcu mcu' (addWithCarry a.toBitVec (~~~ b).toBitVec true).2 := by
  have one : (1 : UInt32).toNat = true.toNat := rfl
  refine ⟨_, ?_, flagsSet_sum _ _⟩
  unfold cmps
  rw [run_updateNZ, run_updateCflag _ a (~~~ b) one,
    run_updateVflag _ a (~~~ b) one, toBitVec_difference]
  rfl

theorem run_neg (mcu : Mcu) (instr : UInt16) :
    ∃ mcu', (neg instr).run Op.handle mcu = .ok true mcu' ∧
      FlagsSet (mcuWriteReg mcu (reg instr 0 0x7) (0 - mcuReadReg mcu (reg instr 3 0x7))) mcu'
        (addWithCarry (~~~ mcuReadReg mcu (reg instr 3 0x7)).toBitVec 0 true).2 := by
  have one : (1 : UInt32).toNat = true.toNat := rfl
  refine ⟨_, ?_, flagsSet_sum _ _⟩
  unfold neg
  dsimp only
  rw [run_readReg, run_writeReg, run_updateNZ, run_updateCflag _ 0 _ one,
    run_updateVflag _ 0 _ one, toBitVec_difference, addWithCarry_comm]
  rfl

/-- The carry flag, as it is read from APSR. -/
theorem carry_apsr (mcu : Mcu) : (mcuReadReg mcu regApsr &&& cpsrC ≠ 0) ↔ mcu.flags.c = true := by
  have read : mcuReadReg mcu regApsr = mcu.regs regXpsr &&& 0xF0000000 := rfl
  have keeps : (0xF0000000 : UInt32) &&& cpsrC = cpsrC := by decide
  show _ ↔ (mcu.regs regXpsr &&& cpsrC != 0) = true
  rw [read, UInt32.and_assoc, keeps, bne_iff_ne]

/-- A difference that borrows if there is no carry. -/
theorem toBitVec_borrow (a b : UInt32) (carry : Bool) :
    (if carry then a - b else a - b - 1).toBitVec =
      (addWithCarry a.toBitVec (~~~ b).toBitVec carry).1 := by
  cases carry with
  | true => exact toBitVec_difference a b
  | false =>
    have whole := toBitVec_difference a b
    rw [fst_addWithCarry] at whole ⊢
    show (a - b - 1).toBitVec = _
    rw [UInt32.toBitVec_sub, whole]
    exact (BitVec.add_sub_cancel _ _).trans (BitVec.add_zero _).symm

theorem flags_writeReg {dest : Reg} (mcu : Mcu) (val : UInt32) (low : dest < 8) :
    (mcuWriteReg mcu dest val).flags = mcu.flags := by
  have notXpsr : regXpsr ≠ dest := (low.trans (by decide)).ne'
  unfold Mcu.flags
  rw [mcuWriteReg_of_plain mcu val (low.trans (by decide)), mcu.regs_setReg_of_ne val notXpsr]

/-- SBC reads the carry flag again behind the updates of N and Z, which keep it. -/
theorem run_sbc (mcu : Mcu) (instr : UInt16) :
    ∃ mcu' c, (sbc instr).run Op.handle mcu = .ok true mcu' ∧
      c.toBitVec = (addWithCarry (mcuReadReg mcu (reg instr 0 0x7)).toBitVec
        (~~~ mcuReadReg mcu (reg instr 3 0x7)).toBitVec mcu.flags.c).1 ∧
      FlagsSet (mcuWriteReg mcu (reg instr 0 0x7) c) mcu'
        (addWithCarry (mcuReadReg mcu (reg instr 0 0x7)).toBitVec
          (~~~ mcuReadReg mcu (reg instr 3 0x7)).toBitVec mcu.flags.c).2 := by
  generalize dest : reg instr 0 0x7 = d
  have low : d < 8 := dest ▸ reg_lt instr 0
  generalize operand : mcuReadReg mcu (reg instr 3 0x7) = b
  have borrow := toBitVec_borrow (mcuReadReg mcu d) b mcu.flags.c
  generalize difference : (if mcu.flags.c then mcuReadReg mcu d - b else
    mcuReadReg mcu d - b - 1) = c at borrow
  have computed : (if mcuReadReg mcu regApsr &&& cpsrC = 0 then mcuReadReg mcu d - b - 1
      else mcuReadReg mcu d - b) = c := by
    rw [← difference]
    have carry := carry_apsr mcu
    cases set : mcu.flags.c with
    | false =>
      rw [set, ne_eq, iff_false_right Bool.false_ne_true, not_not] at carry
      rw [if_pos carry]
      rfl
    | true =>
      rw [set, ne_eq, iff_true_right rfl] at carry
      rw [if_neg carry]
      rfl
  refine ⟨_, c, ?_, borrow, flagsSet_sum _ _⟩
  -- the carry flag is as before
  have kept := ((FlagsSet.refl (mcuWriteReg mcu d c)).n c.toBitVec.msb).z (c.toBitVec == 0)
  have again := carry_apsr (((mcuWriteReg mcu d c).setFlag cpsrN c.toBitVec.msb).setFlag cpsrZ
    (c.toBitVec == 0))
  rw [kept.flags, flags_writeReg mcu c low] at again
  unfold sbc
  dsimp only
  rw [run_readReg, run_readReg, run_readReg, dest, operand, computed, run_writeReg, run_updateNZ,
    run_readReg]
  generalize carry : (if mcuReadReg (((mcuWriteReg mcu d c).setFlag cpsrN
    c.toBitVec.msb).setFlag cpsrZ (c.toBitVec == 0)) regApsr &&& cpsrC ≠ 0 then (1 : UInt32) else 0) = x
  have small : x.toNat = mcu.flags.c.toNat := by
    rw [← carry]
    cases set : mcu.flags.c with
    | false =>
      rw [set, iff_false_right Bool.false_ne_true] at again
      rw [if_neg again]
      rfl
    | true =>
      rw [set, iff_true_right rfl] at again
      rw [if_pos again]
      rfl
  rw [run_updateCflag _ _ _ small, run_updateVflag _ _ _ small, borrow]
  rfl

end Families

/-! ## The steps -/

section Steps

variable {mcu : Mcu} {instr : UInt16}

/-- What a step of the family has to do. -/
def AddSub.Done (op : AddSub) (pastTable : UInt32 → Bool) (mcu : Mcu) (instr : UInt16) : Prop :=
  ∃ mcu', mcuStep pastTable mcu = .ok true mcu' ∧
    (mcuReadReg mcu' (op.dest instr)).toBitVec = (op.sum mcu instr).1 ∧
    mcu.Stepped mcu' [op.dest instr] (op.sum mcu instr).2

/-- The step of an entry that writes a sum to a low register and sets its flags. -/
theorem AddSub.done_of_run {op : AddSub} {n : Nat} {entry : McuInstr16} {mcu' : Mcu} {dest : Reg}
    {val : UInt32} {sum : BitVec 32 × Flags} (pastTable : UInt32 → Bool)
    (reached : Reached n entry)
    (fetched : mcuFetch16 mcu (mcuReadReg mcu regPc - 2) = some instr)
    (matched : instr &&& entry.mask = entry.instr) (low : dest < 8)
    (ran : (entry.impl instr).run Op.handle mcu.advanced = .ok true mcu')
    (set : FlagsSet (mcuWriteReg mcu.advanced dest val) mcu' sum.2) (result : val.toBitVec = sum.1)
    (toDest : dest = op.dest instr) (isSum : sum = op.sum mcu instr) : op.Done pastTable mcu instr := by
  obtain ⟨written, stepped⟩ := stepped_of_write low set
  subst toDest isSum
  refine ⟨mcu', reached.step pastTable fetched matched ran, ?_, stepped⟩
  rw [written, result]

section Entry

variable {op : AddSub} {n : Nat} {entry : McuInstr16} {dest : Reg} {a b : UInt32}

/-- An entry that adds what it has read. -/
theorem AddSub.done_of_adds (pastTable : UInt32 → Bool) (reached : Reached n entry)
    (fetched : mcuFetch16 mcu (mcuReadReg mcu regPc - 2) = some instr)
    (matched : instr &&& entry.mask = entry.instr) (low : dest < 8)
    (read : (entry.impl instr).run Op.handle mcu.advanced =
      (adds dest a b).run Op.handle mcu.advanced) (toDest : dest = op.dest instr)
    (isSum : addWithCarry a.toBitVec b.toBitVec false = op.sum mcu instr) :
    op.Done pastTable mcu instr := by
  obtain ⟨mcu', ran, set⟩ := run_adds mcu.advanced dest a b
  exact done_of_run pastTable reached fetched matched low (read.trans ran) set (toBitVec_sum a b)
    toDest isSum

/-- An entry that subtracts what it has read. -/
theorem AddSub.done_of_subs (pastTable : UInt32 → Bool) (reached : Reached n entry)
    (fetched : mcuFetch16 mcu (mcuReadReg mcu regPc - 2) = some instr)
    (matched : instr &&& entry.mask = entry.instr) (low : dest < 8)
    (read : (entry.impl instr).run Op.handle mcu.advanced =
      (subs dest a b).run Op.handle mcu.advanced) (toDest : dest = op.dest instr)
    (isSum : addWithCarry a.toBitVec (~~~ b).toBitVec true = op.sum mcu instr) :
    op.Done pastTable mcu instr := by
  obtain ⟨mcu', ran, set⟩ := run_subs mcu.advanced dest a b
  exact done_of_run pastTable reached fetched matched low (read.trans ran) set
    (toBitVec_difference a b) toDest isSum

end Entry

theorem AddSub.done (op : AddSub) (pastTable : UInt32 → Bool) (encoded : op.Encodes instr)
    (fetched : mcuFetch16 mcu (mcuReadReg mcu regPc - 2) = some instr) :
    op.Done pastTable mcu instr := by
  cases op with
  | addsImm3 =>
    have reached : Reached 0 ⟨0xFE00, 0x1C00, add1⟩ := ⟨rfl, by decide⟩
    refine done_of_adds pastTable reached fetched encoded (reg_lt instr 0) (run_readReg ..)
      (reg_eq_bits instr 0 0 rfl) ?_
    rw [operand_advanced mcu instr 3 3 rfl, field_eq_immediate instr 6 0x7 6 3 rfl rfl]
    rfl
  | addsImm8 =>
    have reached : Reached 1 ⟨0xF800, 0x3000, add2⟩ := ⟨rfl, by decide⟩
    refine done_of_adds pastTable reached fetched encoded (reg_lt instr 8) (run_readReg ..)
      (reg_eq_bits instr 8 8 rfl) ?_
    rw [operand_advanced mcu instr 8 8 rfl, field_eq_immediate instr 0 0xFF 0 8 rfl rfl]
    rfl
  | addsReg =>
    have reached : Reached 2 ⟨0xFE00, 0x1800, add3⟩ := ⟨rfl, by decide⟩
    refine done_of_adds pastTable reached fetched encoded (reg_lt instr 0)
      ((run_readReg ..).trans (run_readReg ..)) (reg_eq_bits instr 0 0 rfl) ?_
    rw [operand_advanced mcu instr 3 3 rfl, operand_advanced mcu instr 6 6 rfl]
    rfl
  | subsImm3 =>
    have reached : Reached 62 ⟨0xFE00, 0x1E00, sub1⟩ := ⟨rfl, by decide⟩
    refine done_of_subs pastTable reached fetched encoded (reg_lt instr 0) (run_readReg ..)
      (reg_eq_bits instr 0 0 rfl) ?_
    rw [UInt32.toBitVec_not, operand_advanced mcu instr 3 3 rfl,
      field_eq_immediate instr 6 0x7 6 3 rfl rfl]
    rfl
  | subsImm8 =>
    have reached : Reached 63 ⟨0xF800, 0x3800, sub2⟩ := ⟨rfl, by decide⟩
    refine done_of_subs pastTable reached fetched encoded (reg_lt instr 8) (run_readReg ..)
      (reg_eq_bits instr 8 8 rfl) ?_
    rw [UInt32.toBitVec_not, operand_advanced mcu instr 8 8 rfl,
      field_eq_immediate instr 0 0xFF 0 8 rfl rfl]
    rfl
  | subsReg =>
    have reached : Reached 64 ⟨0xFE00, 0x1A00, sub3⟩ := ⟨rfl, by decide⟩
    refine done_of_subs pastTable reached fetched encoded (reg_lt instr 0)
      ((run_readReg ..).trans (run_readReg ..)) (reg_eq_bits instr 0 0 rfl) ?_
    rw [UInt32.toBitVec_not, operand_advanced mcu instr 3 3 rfl, operand_advanced mcu instr 6 6 rfl]
    rfl
  | rsbs =>
    have reached : Reached 45 ⟨0xFFC0, 0x4240, neg⟩ := ⟨rfl, by decide⟩
    obtain ⟨mcu', ran, set⟩ := run_neg mcu.advanced instr
    refine done_of_run pastTable reached fetched encoded (reg_lt instr 0) ran set
      ?_ (reg_eq_bits instr 0 0 rfl) ?_
    · rw [toBitVec_difference, addWithCarry_comm]
      rfl
    · rw [UInt32.toBitVec_not, operand_advanced mcu instr 3 3 rfl]
      rfl
  | sbcs =>
    have reached : Reached 53 ⟨0xFFC0, 0x4180, sbc⟩ := ⟨rfl, by decide⟩
    obtain ⟨mcu', c, ran, result, set⟩ := run_sbc mcu.advanced instr
    refine done_of_run pastTable reached fetched encoded (reg_lt instr 0) ran set
      result (reg_eq_bits instr 0 0 rfl) ?_
    rw [UInt32.toBitVec_not, operand_advanced mcu instr 0 0 rfl, operand_advanced mcu instr 3 3 rfl,
      flags_advanced]
    rfl

theorem AddSub.dest_lt (op : AddSub) (instr : UInt16) : op.dest instr < 8 := by
  cases op with
  | addsImm8 => exact bits_lt instr 8
  | subsImm8 => exact bits_lt instr 8
  | _ => exact bits_lt instr 0

theorem Sub64.sum {op : AddSub} {low high : UInt16} (sub : Sub64 op low high) (mcu : Mcu) :
    op.sum mcu low =
      addWithCarry (op.operands mcu low).1 (~~~ (op.operands mcu low).2) true := by
  rcases sub.subs with rfl | rfl | rfl
  · rfl
  · rfl
  · rfl

/-- The two steps of a 64-bit difference. -/
def SubtractsWide (pastTable : UInt32 → Bool) (op : AddSub) (mcu : Mcu) (low high : UInt16) : Prop :=
  let a := op.operands mcu low
  let ah := AddSub.sbcs.operands mcu high
  ∃ mcu₁ mcu₂, mcuStep pastTable mcu = .ok true mcu₁ ∧ mcuStep pastTable mcu₁ = .ok true mcu₂ ∧
    (mcuReadReg mcu₂ (AddSub.sbcs.dest high)).toBitVec ++
        (mcuReadReg mcu₂ (op.dest low)).toBitVec = (ah.1 ++ a.1) - (ah.2 ++ a.2) ∧
    mcu₂.flags.c = decide (ah.2 ++ a.2 ≤ ah.1 ++ a.1)

theorem Sub64.subtractsWide {op : AddSub} {low high : UInt16} (sub : Sub64 op low high)
    (pastTable : UInt32 → Bool)
    (fetched : mcuFetch16 mcu (mcuReadReg mcu regPc - 2) = some low)
    (next : mcuFetch16 mcu (mcuReadReg mcu regPc) = some high) :
    SubtractsWide pastTable op mcu low high := by
  obtain ⟨mcu₁, step₁, low₁, stepped₁⟩ := op.done pastTable sub.lowEncodes fetched
  obtain ⟨mcu₂, step₂, high₂, stepped₂⟩ :=
    AddSub.sbcs.done pastTable sub.highEncodes (stepped₁.fetched next)
  have kept : ∀ place, op.dest low ≠ bits high place 3 →
      mcu₁.operand high place = mcu.operand high place := by
    intro place ne
    have same := stepped₁.read (bits_lt high place) fun mem => ne (List.mem_singleton.mp mem).symm
    unfold Mcu.operand
    rw [same]
  have lowKept : mcuReadReg mcu₂ (op.dest low) = mcuReadReg mcu₁ (op.dest low) :=
    stepped₂.read (op.dest_lt low) fun mem => sub.apart.1 (List.mem_singleton.mp mem)
  have highSum : AddSub.sbcs.sum mcu₁ high = addWithCarry (AddSub.sbcs.operands mcu high).1
      (~~~ (AddSub.sbcs.operands mcu high).2) (op.sum mcu low).2.c := by
    show addWithCarry (mcu₁.operand high 0) (~~~ mcu₁.operand high 3) mcu₁.flags.c = _
    rw [kept 0 sub.apart.1, kept 3 sub.apart.2, stepped₁.flags]
    rfl
  have whole := sub_append (AddSub.sbcs.operands mcu high).1 (AddSub.sbcs.operands mcu high).2
    (op.operands mcu low).1 (op.operands mcu low).2
  refine ⟨mcu₁, mcu₂, step₁, step₂, ?_, ?_⟩
  · rw [lowKept, high₂, low₁, highSum, sub.sum]
    exact whole.1
  · rw [stepped₂.flags, highSum, sub.sum]
    exact whole.2

end Steps

/-- **The add and subtract family**: for every state and every encoding of ADDS, SUBS, RSBS and SBCS
at the PC, a step writes the result of the architecture's sum with carry to the destination, sets the
four flags to those of the sum, goes to the next instruction and changes no other register and no
other bit of xPSR. So SUBS on low words and SBCS on high words compute the 64-bit difference, with
the carry set if nothing is borrowed. -/
theorem addSub_step (pastTable : UInt32 → Bool) :
    (∀ (op : AddSub) (mcu : Mcu) (instr : UInt16), op.Encodes instr →
      mcuFetch16 mcu (mcuReadReg mcu regPc - 2) = some instr → op.Done pastTable mcu instr) ∧
    ∀ (op : AddSub) (mcu : Mcu) (low high : UInt16), Sub64 op low high →
      mcuFetch16 mcu (mcuReadReg mcu regPc - 2) = some low →
        mcuFetch16 mcu (mcuReadReg mcu regPc) = some high →
          SubtractsWide pastTable op mcu low high := by
  constructor
  · intro op mcu instr encoded fetched
    exact op.done pastTable encoded fetched
  · intro op mcu low high sub fetched next
    exact sub.subtractsWide pastTable fetched next

/-- The words 0x1_00000000 and 1: `subs r0, r0, r1` borrows, and `sbcs r2, r3` lends. -/
theorem addSub_step_borrow :
    AddSub.subsReg.Done (fun _ => false)
        (programMcu (fun reg => if reg = 1 ∨ reg = 2 then 1 else 0) 0x1A40 0x419A) 0x1A40 ∧
      SubtractsWide (fun _ => false) .subsReg
        (programMcu (fun reg => if reg = 1 ∨ reg = 2 then 1 else 0) 0x1A40 0x419A) 0x1A40 0x419A := by
  have sub : Sub64 .subsReg 0x1A40 0x419A := ⟨.inr (.inr rfl), rfl, rfl, by decide⟩
  have fetched := fetched_programMcu (fun reg => if reg = 1 ∨ reg = 2 then 1 else 0) 0x1A40 0x419A
  have next := fetched_programMcu_next (fun reg => if reg = 1 ∨ reg = 2 then 1 else 0) 0x1A40 0x419A
  have both := addSub_step fun _ => false
  exact ⟨both.1 .subsReg _ 0x1A40 sub.lowEncodes fetched, both.2 _ _ _ _ sub fetched next⟩

end TheFirmware.Simulator
