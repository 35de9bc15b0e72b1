import TheFirmware.Simulator.AddSub

/-!
# Comparing and branching

A CMP sets the flags to those of a difference, and a conditional branch looks at them. The formulas
of B(1) for the fourteen conditions are those of the architecture, except for LE, which has `N == V`
where it should have `N != V` (`condition_eq`). So a branch goes where it should unless it is an LE on
different words (`comparesAndBranches_iff`).
-/

namespace TheFirmware.Simulator

open AddWithCarry Instr16

/-! ## The instructions -/

/-- The forms of CMP: with an immediate, with two low registers, with a high register. -/
inductive Cmp : Type
  | imm8
  | low
  | high
  deriving DecidableEq, Repr

/-- The first register of the form with a high register. -/
def highField (instr : UInt16) : Reg := 8 * bits instr 7 1 + bits instr 0 3

/-- The instruction has the form. With two low registers, or the PC as the first register, the form
with a high register is unpredictable. -/
def Cmp.Encodes (op : Cmp) (instr : UInt16) : Prop :=
  match op with
  | imm8 => instr &&& 0xF800 = 0x2800
  | low => instr &&& 0xFFC0 = 0x4280
  | high => instr &&& 0xFF00 = 0x4500 ∧ (8 ≤ highField instr ∨ 8 ≤ bits instr 3 4) ∧
      highField instr ≠ regPc

/-- The two words that are compared. -/
def Cmp.operands (op : Cmp) (mcu : Mcu) (instr : UInt16) : BitVec 32 × BitVec 32 :=
  match op with
  | imm8 => (mcu.operand instr 8, immediate instr 0 8)
  | low => (mcu.operand instr 0, mcu.operand instr 3)
  | high => (mcu.value (highField instr), mcu.value (bits instr 3 4))

/-- The encoding of a condition. -/
def condCode : Cond → Nat
  | .eq => 0
  | .ne => 1
  | .cs => 2
  | .cc => 3
  | .mi => 4
  | .pl => 5
  | .vs => 6
  | .vc => 7
  | .hi => 8
  | .ls => 9
  | .ge => 10
  | .lt => 11
  | .gt => 12
  | .le => 13

/-- The instruction is a branch with the condition. -/
def IsBranch (cond : Cond) (instr : UInt16) : Prop :=
  instr &&& 0xF000 = 0xD000 ∧ bits instr 8 4 = condCode cond

/-- The offset of a branch, in halfwords. -/
def branchOffset (instr : UInt16) : Int := (BitVec.ofNat 8 (bits instr 0 8)).toInt

/-- The address of the instruction at the PC. -/
def Mcu.fetchAddr (mcu : Mcu) : BitVec 32 := (mcuReadReg mcu regPc - 2).toBitVec

/-- Two steps, a CMP and a branch behind it: the branch is taken exactly when the words that are
compared satisfy the condition. -/
def ComparesAndBranches (pastTable : UInt32 → Bool) (op : Cmp) (cond : Cond) (mcu : Mcu)
    (cmp branch : UInt16) : Prop :=
  let (a, b) := op.operands mcu cmp
  ∃ mcu₁ mcu₂, mcuStep pastTable mcu = .ok true mcu₁ ∧ mcuStep pastTable mcu₁ = .ok true mcu₂ ∧
    (cond.Holds a b →
      mcu₂.fetchAddr = mcu₁.fetchAddr + 4 + BitVec.ofInt 32 (2 * branchOffset branch)) ∧
    (¬ cond.Holds a b → mcu₂.fetchAddr = mcu₁.fetchAddr + 2)

/-! ## CMP -/

section Compare

variable {mcu : Mcu} {instr : UInt16}

theorem highReg_eq (instr : UInt16) : highReg instr = highField instr := by
  have high : instr.toNat / 2 ^ 4 &&& 8 = 8 * (instr.toNat / 2 ^ 7 % 2 ^ 1) := by
    have bit := Nat.and_two_pow (instr.toNat / 2 ^ 4) 3
    rw [Nat.toNat_testBit, Nat.div_div_eq_div_mul] at bit
    rw [Nat.mul_comm 8]
    exact bit
  have zero : (0 : UInt16).toNat % 16 = 0 := rfl
  have four : (4 : UInt16).toNat % 16 = 4 := rfl
  have seven : (7 : UInt16).toNat = 2 ^ 3 - 1 := rfl
  have eight : (8 : UInt16).toNat = 8 := rfl
  unfold highReg highField bits
  rw [UInt16.toNat_or, UInt16.toNat_and, UInt16.toNat_and, UInt16.toNat_shiftRight,
    UInt16.toNat_shiftRight, zero, four, seven, eight, Nat.and_two_pow_sub_one_eq_mod,
    Nat.shiftRight_eq_div_pow, Nat.shiftRight_eq_div_pow, high, Nat.or_comm]
  exact (Nat.two_pow_add_eq_or_of_lt (Nat.mod_lt _ (Nat.two_pow_pos 3)) _).symm

/-- The step of a CMP sets the flags of the difference. -/
theorem Cmp.step (op : Cmp) (pastTable : UInt32 → Bool) (encoded : op.Encodes instr)
    (fetched : mcuFetch16 mcu (mcuReadReg mcu regPc - 2) = some instr) :
    ∃ mcu', mcuStep pastTable mcu = .ok true mcu' ∧ mcu.Stepped mcu' []
      (addWithCarry (op.operands mcu instr).1 (~~~ (op.operands mcu instr).2) true).2 := by
  cases op with
  | imm8 =>
    have reached : Reached 20 ⟨0xF800, 0x2800, cmp1⟩ := ⟨rfl, by decide⟩
    obtain ⟨mcu', ran, set⟩ := run_cmps mcu.advanced (mcuReadReg mcu.advanced (reg instr 8 0x7))
      (field instr 0 0xFF)
    have whole : (cmp1 instr).run Op.handle mcu.advanced = .ok true mcu' := by
      unfold cmp1
      dsimp only
      rw [run_readReg, ran]
    rw [UInt32.toBitVec_not, operand_advanced mcu instr 8 8 rfl,
      field_eq_immediate instr 0 0xFF 0 8 rfl rfl] at set
    exact ⟨mcu', reached.step pastTable fetched encoded whole,
      stepped_of_flagsSet set⟩
  | low =>
    have reached : Reached 21 ⟨0xFFC0, 0x4280, cmp2⟩ := ⟨rfl, by decide⟩
    obtain ⟨mcu', ran, set⟩ := run_cmps mcu.advanced (mcuReadReg mcu.advanced (reg instr 0 0x7))
      (mcuReadReg mcu.advanced (reg instr 3 0x7))
    have whole : (cmp2 instr).run Op.handle mcu.advanced = .ok true mcu' := by
      unfold cmp2
      dsimp only
      rw [run_readReg, run_readReg, ran]
    rw [UInt32.toBitVec_not, operand_advanced mcu instr 0 0 rfl,
      operand_advanced mcu instr 3 3 rfl] at set
    exact ⟨mcu', reached.step pastTable fetched encoded whole,
      stepped_of_flagsSet set⟩
  | high =>
    obtain ⟨matched, isHigh, notPc⟩ := encoded
    have reached : Reached 22 ⟨0xFF00, 0x4500, cmp3⟩ := ⟨rfl, by decide⟩
    obtain ⟨mcu', ran, set⟩ := run_cmps mcu.advanced (mcuReadReg mcu.advanced (highReg instr))
      (mcuReadReg mcu.advanced (reg instr 3 0xF))
    have second : reg instr 3 0xF = bits instr 3 4 := toNat_field instr rfl rfl
    have predictable : field instr 6 3 ≠ 0 := by
      have toNat : (field instr 6 3).toNat = bits instr 6 2 := toNat_field instr rfl rfl
      intro zero
      rw [zero] at toNat
      have none : (0 : UInt32).toNat = 0 := rfl
      have either : 8 ≤ 8 * (instr.toNat / 2 ^ 7 % 2 ^ 1) + instr.toNat / 2 ^ 0 % 2 ^ 3 ∨
        8 ≤ instr.toNat / 2 ^ 3 % 2 ^ 4 := isHigh
      unfold bits at toNat
      omega
    have whole : (cmp3 instr).run Op.handle mcu.advanced = .ok true mcu' := by
      unfold cmp3
      dsimp only
      rw [if_neg predictable, if_neg (highReg_eq instr ▸ notPc : highReg instr ≠ 0xF), run_readReg,
        run_readReg, ran]
    rw [UInt32.toBitVec_not, value_advanced, value_advanced, highReg_eq, second] at set
    exact ⟨mcu', reached.step pastTable fetched matched whole,
      stepped_of_flagsSet set⟩

end Compare

/-! ## B(1) -/

section Branches

variable {mcu : Mcu} {instr : UInt16} {cond : Cond}

/-- A flag, as it is read from APSR. -/
theorem apsr_flag {flag : UInt32} (mcu : Mcu) (part : 0xF0000000 &&& flag = flag) :
    (mcuReadReg mcu regApsr &&& flag != 0) = (mcu.regs regXpsr &&& flag != 0) := by
  have read : mcuReadReg mcu regApsr = mcu.regs regXpsr &&& 0xF0000000 := rfl
  rw [read, UInt32.and_assoc, part]

/-- The conditions are those of the architecture, but for LE, which takes `N == V` for `N != V`. -/
theorem condition_eq (cond : Cond) (mcu : Mcu) :
    condition (.ofNat (condCode cond)) (mcuReadReg mcu regApsr) =
      if cond = .le then mcu.flags.n == mcu.flags.v || mcu.flags.z
      else cond.passed mcu.flags := by
  have n : (mcuReadReg mcu regApsr &&& cpsrN != 0) = mcu.flags.n := apsr_flag mcu (by decide)
  have z : (mcuReadReg mcu regApsr &&& cpsrZ != 0) = mcu.flags.z := apsr_flag mcu (by decide)
  have c : (mcuReadReg mcu regApsr &&& cpsrC != 0) = mcu.flags.c := apsr_flag mcu (by decide)
  have v : (mcuReadReg mcu regApsr &&& cpsrV != 0) = mcu.flags.v := apsr_flag mcu (by decide)
  have same : ∀ x y : Bool, (x && y || !x && !y) = (x == y) := by decide
  have differ : ∀ x y : Bool, (!x && y || !y && x) = (x != y) := by decide
  unfold condition
  dsimp only
  rw [n, z, c, v, same, differ]
  cases cond with
  | ls => exact Bool.or_comm _ _
  | _ => rfl

/-- The offset with its sign, as B(1) extends it. -/
def offsetWord (instr : UInt16) : UInt32 :=
  if field instr 0 0xFF &&& 0x80 ≠ 0 then field instr 0 0xFF ||| ((0xFFFFFFFF : UInt32) <<< 8)
  else field instr 0 0xFF

/-- The offset is extended with its sign and doubled. -/
theorem doubled_offsetWord (instr : UInt16) :
    (offsetWord instr <<< 1).toBitVec = BitVec.ofInt 32 (2 * branchOffset instr) := by
  have imm : (field instr 0 0xFF).toNat = bits instr 0 8 := toNat_field instr rfl rfl
  have lt : (field instr 0 0xFF).toNat < 2 ^ 8 := by
    rw [imm]
    exact Nat.mod_lt _ (Nat.two_pow_pos 8)
  have extended : (offsetWord instr).toBitVec = BitVec.ofInt 32 (branchOffset instr) := by
    unfold branchOffset
    rw [← imm]
    exact extend_sign (by decide) (by decide) lt rfl rfl
  have one : (1 : UInt32).toNat % 32 = 1 := rfl
  have toNat := congrArg BitVec.toNat extended
  rw [UInt32.toNat_toBitVec, BitVec.toNat_ofInt] at toNat
  apply BitVec.eq_of_toNat_eq
  rw [UInt32.toNat_toBitVec, UInt32.toNat_shiftLeft, one, Nat.shiftLeft_eq, BitVec.toNat_ofInt]
  omega

/-- The fetch address behind an instruction. -/
theorem fetchAddr_advanced (mcu : Mcu) : mcu.advanced.fetchAddr = mcu.fetchAddr + 2 := by
  have pc : mcuReadReg mcu.advanced regPc = mcuReadReg mcu regPc + 2 := regs_advanced_pc mcu
  unfold Mcu.fetchAddr
  rw [pc, UInt32.add_sub_cancel, UInt32.toBitVec_sub]
  exact (BitVec.sub_add_cancel _ _).symm

/-- A branch that is taken writes the PC. -/
theorem fetchAddr_branch {offset : UInt32} {o : Int} (mcu : Mcu)
    (doubled : (offset <<< 1).toBitVec = BitVec.ofInt 32 (2 * o)) :
    (mcuWriteReg mcu.advanced regPc
      ((offset <<< 1) + mcuReadReg mcu.advanced regPc + 2)).fetchAddr =
        mcu.fetchAddr + 4 + BitVec.ofInt 32 (2 * o) := by
  have pc : mcuReadReg mcu.advanced regPc = mcuReadReg mcu regPc + 2 := regs_advanced_pc mcu
  have even := LittleEndian.toNat_and_one (mcuReadReg mcu regPc)
  have pcEven : mcuReadReg mcu regPc &&& 1 = 0 := mcu.pcEven
  have one : (1 : UInt32).toNat % 32 = 1 := rfl
  have zero : (0 : UInt32).toNat = 0 := rfl
  have two : (2 : UInt32).toNat = 2 := rfl
  have four : (4 : UInt32).toNat = 4 := rfl
  have double : (offset <<< 1).toNat = offset.toNat * 2 % 2 ^ 32 := by
    rw [UInt32.toNat_shiftLeft, one, Nat.shiftLeft_eq]
  rw [pcEven, zero] at even
  unfold Mcu.fetchAddr
  rw [mcuReadReg_writePc_self, pc, ← doubled]
  generalize mcuReadReg mcu regPc = p at even ⊢
  generalize offset <<< 1 = t at double ⊢
  have kept : (t + (p + 2) + 2) &&& ~~~ 1 = p + 4 + t := by
    apply UInt32.toNat_inj.mp
    rw [LittleEndian.toNat_and_not_one]
    simp only [UInt32.toNat_add, two, four]
    omega
  have moved : p + 4 + t - 2 = p - 2 + 4 + t := by
    apply UInt32.toNat_inj.mp
    simp only [UInt32.toNat_add, UInt32.toNat_sub, two, four]
    omega
  rw [kept, moved, UInt32.toBitVec_add, UInt32.toBitVec_add]
  rfl

/-- A branch whose target is the next instruction. -/
theorem target_next (instr : UInt16) (addr : BitVec 32) :
    addr + 4 + BitVec.ofInt 32 (2 * branchOffset instr) = addr + 2 ↔ bits instr 0 8 = 0xFF := by
  have lt : bits instr 0 8 < 256 := Nat.mod_lt _ (Nat.two_pow_pos 8)
  have offset : branchOffset instr =
      if 2 * bits instr 0 8 < 256 then (bits instr 0 8 : Int) else (bits instr 0 8 : Int) - 256 := by
    unfold branchOffset
    rw [BitVec.toInt_eq_toNat_cond, BitVec.toNat_ofNat, Nat.mod_eq_of_lt lt]
    rfl
  have addrLt := addr.isLt
  have two : (2 : BitVec 32).toNat = 2 := rfl
  have four : (4 : BitVec 32).toNat = 4 := rfl
  rw [← BitVec.toNat_inj, BitVec.toNat_add, BitVec.toNat_add, BitVec.toNat_add, BitVec.toNat_ofInt,
    two, four, offset]
  split
  · omega
  · omega

/-- The step of a branch: where it goes is decided by the formula of B(1). -/
theorem branch_step (pastTable : UInt32 → Bool) (branch : IsBranch cond instr)
    (fetched : mcuFetch16 mcu (mcuReadReg mcu regPc - 2) = some instr) :
    ∃ mcu', mcuStep pastTable mcu = .ok true mcu' ∧ mcu'.fetchAddr =
      if (if cond = .le then mcu.flags.n == mcu.flags.v || mcu.flags.z
        else cond.passed mcu.flags) = true
      then mcu.fetchAddr + 4 + BitVec.ofInt 32 (2 * branchOffset instr)
      else mcu.fetchAddr + 2 := by
  obtain ⟨matched, code⟩ := branch
  have reached : Reached 10 ⟨0xF000, 0xD000, b1⟩ := ⟨rfl, by decide⟩
  have op : field instr 8 0xF = .ofNat (condCode cond) := by
    have toNat : (field instr 8 0xF).toNat = bits instr 8 4 := toNat_field instr rfl rfl
    rw [← UInt32.ofNat_toNat (x := field instr 8 0xF), toNat, code]
  have valid : ¬ (field instr 8 0xF = 0xE ∨ field instr 8 0xF = 0xF) := by
    rw [op]
    cases cond <;> decide
  have tested := condition_eq cond mcu.advanced
  rw [flags_advanced, ← op] at tested
  have ran : (b1 instr).run Op.handle mcu.advanced = .ok true
      (if condition (field instr 8 0xF) (mcuReadReg mcu.advanced regApsr) then
        mcuWriteReg mcu.advanced regPc
          ((offsetWord instr <<< 1) + mcuReadReg mcu.advanced regPc + 2)
      else mcu.advanced) := by
    unfold b1 offsetWord
    dsimp only
    rw [run_readReg, run_readReg, if_neg valid]
    split
    · rfl
    · rfl
  refine ⟨_, reached.step pastTable fetched matched ran, ?_⟩
  rw [← tested]
  by_cases taken : condition (field instr 8 0xF) (mcuReadReg mcu.advanced regApsr) = true
  · rw [if_pos taken, if_pos taken]
    exact fetchAddr_branch mcu (doubled_offsetWord instr)
  · rw [if_neg taken, if_neg taken]
    exact fetchAddr_advanced mcu

/-- The formula of LE is that of GE. -/
theorem le_formula (a b : BitVec 32) :
    ((addWithCarry a (~~~ b) true).2.n == (addWithCarry a (~~~ b) true).2.v ||
      (addWithCarry a (~~~ b) true).2.z) = true ↔ b.toInt ≤ a.toInt := by
  have same := eq_iff_toInt a b
  rw [Bool.or_eq_true, beq_iff_eq, n_eq_v_compare a b (by decide), z_compare, decide_eq_true_iff,
    same]
  omega

/-- When a branch is taken behind a comparison: an LE where a GE would be. -/
def Taken (cond : Cond) (a b : BitVec 32) : Prop :=
  if cond = .le then b.toInt ≤ a.toInt else cond.Holds a b

/-- The formulas of B(1) on the flags of a difference. -/
theorem formula_iff (cond : Cond) (a b : BitVec 32) :
    (if cond = .le then (addWithCarry a (~~~ b) true).2.n == (addWithCarry a (~~~ b) true).2.v ||
        (addWithCarry a (~~~ b) true).2.z
      else cond.passed (addWithCarry a (~~~ b) true).2) = true ↔ Taken cond a b := by
  unfold Taken
  by_cases isLe : cond = .le
  · rw [if_pos isLe, if_pos isLe]
    exact le_formula a b
  · rw [if_neg isLe, if_neg isLe]
    exact passed_compare (by decide) a b cond

/-- The branch is taken when it should be, unless it is an LE on different words. -/
theorem taken_iff_holds {a b : BitVec 32} (right : cond ≠ .le ∨ a = b) :
    Taken cond a b ↔ cond.Holds a b := by
  unfold Taken
  by_cases isLe : cond = .le
  · rcases right with other | same
    · exact absurd isLe other
    · rw [if_pos isLe, isLe, same]
      exact Iff.rfl
  · rw [if_neg isLe]

/-- An LE on different words is taken exactly when it should not be. -/
theorem taken_iff_not_holds {a b : BitVec 32} (differ : a ≠ b) :
    Taken .le a b ↔ ¬ Cond.le.Holds a b := by
  have ne : a.toInt ≠ b.toInt := fun eq => differ ((eq_iff_toInt a b).mpr eq)
  show b.toInt ≤ a.toInt ↔ ¬ a.toInt ≤ b.toInt
  omega

end Branches

section Program

variable {mcu : Mcu} {cmp branch : UInt16} {op : Cmp} {cond : Cond}

/-- Where the second of the two steps goes. -/
theorem exists_steps (pastTable : UInt32 → Bool) (compares : op.Encodes cmp)
    (branches : IsBranch cond branch)
    (fetched : mcuFetch16 mcu (mcuReadReg mcu regPc - 2) = some cmp)
    (next : mcuFetch16 mcu (mcuReadReg mcu regPc) = some branch) :
    ∃ mcu₁ mcu₂, mcuStep pastTable mcu = .ok true mcu₁ ∧ mcuStep pastTable mcu₁ = .ok true mcu₂ ∧
      (Taken cond (op.operands mcu cmp).1 (op.operands mcu cmp).2 →
        mcu₂.fetchAddr = mcu₁.fetchAddr + 4 + BitVec.ofInt 32 (2 * branchOffset branch)) ∧
      (¬ Taken cond (op.operands mcu cmp).1 (op.operands mcu cmp).2 →
        mcu₂.fetchAddr = mcu₁.fetchAddr + 2) := by
  obtain ⟨mcu₁, step₁, stepped⟩ := op.step pastTable compares fetched
  obtain ⟨mcu₂, step₂, goes⟩ := branch_step pastTable branches (stepped.fetched next)
  have formula := formula_iff cond (op.operands mcu cmp).1 (op.operands mcu cmp).2
  rw [stepped.flags] at goes
  refine ⟨mcu₁, mcu₂, step₁, step₂, ?_, ?_⟩
  · intro taken
    rw [goes, if_pos (formula.mpr taken)]
  · intro notTaken
    rw [goes, if_neg fun passed => notTaken (formula.mp passed)]

/-- An LE on different words goes wrong, unless its target is the next instruction. -/
theorem comparesAndBranches_le (pastTable : UInt32 → Bool) (compares : op.Encodes cmp)
    (branches : IsBranch .le branch)
    (fetched : mcuFetch16 mcu (mcuReadReg mcu regPc - 2) = some cmp)
    (next : mcuFetch16 mcu (mcuReadReg mcu regPc) = some branch)
    (differ : (op.operands mcu cmp).1 ≠ (op.operands mcu cmp).2) :
    ComparesAndBranches pastTable op .le mcu cmp branch ↔ bits branch 0 8 = 0xFF := by
  obtain ⟨mcu₁, mcu₂, step₁, step₂, ifTaken, ifNot⟩ :=
    exists_steps pastTable compares branches fetched next
  rw [taken_iff_not_holds differ] at ifTaken ifNot
  rw [← target_next branch mcu₁.fetchAddr]
  constructor
  · rintro ⟨mcu₁', mcu₂', step₁', step₂', holds, fails⟩
    rw [step₁] at step₁'
    cases step₁'
    rw [step₂] at step₂'
    cases step₂'
    by_cases le : Cond.le.Holds (op.operands mcu cmp).1 (op.operands mcu cmp).2
    · rw [← holds le, ifNot (not_not.mpr le)]
    · rw [← fails le, ifTaken le]
  · intro same
    refine ⟨mcu₁, mcu₂, step₁, step₂, ?_, ?_⟩
    · intro le
      rw [same]
      exact ifNot (not_not.mpr le)
    · intro notLe
      rw [← same]
      exact ifTaken notLe

/-- **Compare and branch**: for every state with a CMP at the PC and a conditional branch behind it,
the two steps take the branch exactly when the words that are compared satisfy the condition, and go
to its target then, if and only if the condition is not LE, or the words are equal, or the target is
the next instruction. -/
theorem comparesAndBranches_iff (pastTable : UInt32 → Bool) (compares : op.Encodes cmp)
    (branches : IsBranch cond branch)
    (fetched : mcuFetch16 mcu (mcuReadReg mcu regPc - 2) = some cmp)
    (next : mcuFetch16 mcu (mcuReadReg mcu regPc) = some branch) :
    ComparesAndBranches pastTable op cond mcu cmp branch ↔
      cond ≠ .le ∨ (op.operands mcu cmp).1 = (op.operands mcu cmp).2 ∨ bits branch 0 8 = 0xFF := by
  by_cases right : cond ≠ .le ∨ (op.operands mcu cmp).1 = (op.operands mcu cmp).2
  · obtain ⟨mcu₁, mcu₂, step₁, step₂, goes⟩ := exists_steps pastTable compares branches fetched next
    rw [taken_iff_holds right] at goes
    exact iff_of_true ⟨mcu₁, mcu₂, step₁, step₂, goes⟩ (or_assoc.mp (.inl right))
  · rw [not_or, not_not] at right
    obtain ⟨isLe, differ⟩ := right
    subst isLe
    rw [comparesAndBranches_le pastTable compares branches fetched next differ]
    constructor
    · intro last
      exact .inr (.inr last)
    · rintro (other | same | last)
      · exact absurd rfl other
      · exact absurd same differ
      · exact last

end Program

/-- The MCU at a `cmp r0, r1` with the words 1 and 2, and a branch behind it. -/
def compareMcu (branch : UInt16) : Mcu :=
  programMcu (fun reg => if reg = 0 then 1 else 2) 0x4288 branch

/-- A `bge` behind the comparison is not taken. -/
theorem comparesAndBranches_iff_ge :
    ComparesAndBranches (fun _ => false) .low .ge (compareMcu 0xDA10) 0x4288 0xDA10 := by
  have compares : Cmp.low.Encodes 0x4288 := rfl
  have notLe : Cond.ge ≠ .le := by decide
  exact (comparesAndBranches_iff (fun _ => false) compares ⟨rfl, rfl⟩
    (fetched_programMcu _ 0x4288 0xDA10) (fetched_programMcu_next _ 0x4288 0xDA10)).mpr
    (.inl notLe)

/-- A `ble` behind the comparison is not taken, although 1 is less than 2. -/
theorem not_comparesAndBranches_le :
    ¬ ComparesAndBranches (fun _ => false) .low .le (compareMcu 0xDD10) 0x4288 0xDD10 := by
  intro right
  have compares : Cmp.low.Encodes 0x4288 := rfl
  have differ : (Cmp.low.operands (compareMcu 0xDD10) 0x4288).1 ≠
      (Cmp.low.operands (compareMcu 0xDD10) 0x4288).2 := by decide
  have last := (comparesAndBranches_le (fun _ => false) compares ⟨rfl, rfl⟩
    (fetched_programMcu _ 0x4288 0xDD10) (fetched_programMcu_next _ 0x4288 0xDD10) differ).mp right
  exact absurd last (by decide)

end TheFirmware.Simulator
