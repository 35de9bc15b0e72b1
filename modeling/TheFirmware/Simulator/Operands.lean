import TheFirmware.Simulator.AddSub

/-!
# Operand fields

Nine instructions of ARMv6-M that name a source register in the bits 5 to 3 and a destination, or a
second source, in the bits 2 to 0 (`FieldOp.value`, `FieldOp.flags`). Six of the entries of the table
for them read another register than the one named: CMN takes four bits for each field, and TST and
the extensions compare the instruction with 3 where they should shift it, which makes them read r1.
REV16 has the body of REV. `honoured_iff` says for which encodings this makes no difference.
-/

namespace TheFirmware.Simulator

open AddWithCarry Instr16

/-- The instructions with two register fields. -/
inductive FieldOp : Type
  | tst
  | cmn
  | sxtb
  | sxth
  | uxtb
  | uxth
  | rev
  | rev16
  | revsh
  deriving DecidableEq, Repr

/-- The fixed bits of an instruction, behind the mask 0xFFC0. -/
def FieldOp.pattern : FieldOp → UInt16
  | tst => 0x4200
  | cmn => 0x42C0
  | sxtb => 0xB240
  | sxth => 0xB200
  | uxtb => 0xB2C0
  | uxth => 0xB280
  | rev => 0xBA00
  | rev16 => 0xBA40
  | revsh => 0xBAC0

/-- The instruction is the operation. -/
def FieldOp.Encodes (op : FieldOp) (instr : UInt16) : Prop := instr &&& 0xFFC0 = op.pattern

/-- A byte of a word. -/
def byteOf (x : BitVec 32) (i : Nat) : BitVec 8 := x.extractLsb' (8 * i) 8

/-- The value of the register in the bits 2 to 0 behind an instruction, where `d` was in it and `m`
in the other one. TST and CMN only set flags. -/
def FieldOp.value (op : FieldOp) (d m : BitVec 32) : BitVec 32 :=
  match op with
  | tst | cmn => d
  | sxtb => (m.setWidth 8).signExtend 32
  | sxth => (m.setWidth 16).signExtend 32
  | uxtb => (m.setWidth 8).setWidth 32
  | uxth => (m.setWidth 16).setWidth 32
  | rev => byteOf m 0 ++ byteOf m 1 ++ byteOf m 2 ++ byteOf m 3
  | rev16 => byteOf m 2 ++ byteOf m 3 ++ byteOf m 0 ++ byteOf m 1
  | revsh => (byteOf m 0 ++ byteOf m 1).signExtend 32

/-- The flags behind an instruction. -/
def FieldOp.flags (op : FieldOp) (d m : BitVec 32) (f : Flags) : Flags :=
  match op with
  | tst => { f with n := (d &&& m).msb, z := (d &&& m) == 0 }
  | cmn => (addWithCarry d m false).2
  | _ => f

/-- A step succeeds and leaves a value in the register in the bits 2 to 0, and flags. -/
def Leaves (pastTable : UInt32 → Bool) (mcu : Mcu) (instr : UInt16) (result : BitVec 32 × Flags) :
    Prop :=
  ∃ mcu', mcuStep pastTable mcu = .ok true mcu' ∧
    (mcuReadReg mcu' (bits instr 0 3)).toBitVec = result.1 ∧ mcu'.flags = result.2

/-- What the architecture defines. -/
def FieldOp.result (op : FieldOp) (mcu : Mcu) (instr : UInt16) : BitVec 32 × Flags :=
  (op.value (mcu.operand instr 0) (mcu.operand instr 3),
    op.flags (mcu.operand instr 0) (mcu.operand instr 3) mcu.flags)

/-- Two states agree on the PC, the flags, the memory and the registers that an instruction names. -/
structure Agree (mcu mcu' : Mcu) (instr : UInt16) : Prop where
  pc : mcuReadReg mcu' regPc = mcuReadReg mcu regPc
  flags : mcu'.flags = mcu.flags
  flash : mcu'.flash = mcu.flash
  ram : mcu'.ram = mcu.ram ∧ mcu'.ramLength = mcu.ramLength
  operands : mcu'.operand instr 0 = mcu.operand instr 0 ∧ mcu'.operand instr 3 = mcu.operand instr 3

/-- The fields are honoured: from any two states that agree, the steps leave the same value and the
same flags, those of the architecture. -/
def FieldOp.Honoured (op : FieldOp) (pastTable : UInt32 → Bool) (instr : UInt16) : Prop :=
  ∀ mcu mcu', mcuFetch16 mcu (mcuReadReg mcu regPc - 2) = some instr →
    mcuFetch16 mcu' (mcuReadReg mcu' regPc - 2) = some instr → Agree mcu mcu' instr →
      Leaves pastTable mcu instr (op.result mcu instr) ∧
        Leaves pastTable mcu' instr (op.result mcu instr)

/-- What the entries of the table do. -/
def FieldOp.source (op : FieldOp) (mcu : Mcu) (instr : UInt16) : BitVec 32 × Flags :=
  match op with
  | cmn => (mcu.operand instr 0,
      (addWithCarry (mcu.value (bits instr 0 4)) (mcu.value (bits instr 3 4)) false).2)
  | rev | rev16 => FieldOp.rev.result mcu instr
  | revsh => FieldOp.revsh.result mcu instr
  | op => (op.value (mcu.operand instr 0) (mcu.value 1),
      op.flags (mcu.operand instr 0) (mcu.value 1) mcu.flags)

/-! ## Results -/

section Results

theorem toNat_byteOf (x : BitVec 32) (i : Nat) :
    (byteOf x i).toNat = x.toNat / 2 ^ (8 * i) % 2 ^ 8 := by
  unfold byteOf
  rw [BitVec.extractLsb'_toNat, Nat.shiftRight_eq_div_pow]

/-- A byte of a word, as the source takes it. -/
theorem toNat_shifted (a s : UInt32) (i : Nat) (at_ : s.toNat % 32 = 8 * i) :
    ((a >>> s) &&& (0xFF : UInt32)).toNat = (byteOf a.toBitVec i).toNat := by
  have mask : (0xFF : UInt32).toNat = 2 ^ 8 - 1 := rfl
  rw [toNat_byteOf, UInt32.toNat_and, UInt32.toNat_shiftRight, at_, mask,
    Nat.and_two_pow_sub_one_eq_mod, Nat.shiftRight_eq_div_pow, UInt32.toNat_toBitVec]

theorem toNat_shiftLeft_byte {b : UInt32} (s : UInt32) (k : Nat) (lt : b.toNat < 2 ^ 8)
    (at_ : s.toNat % 32 = k) (le : k ≤ 24) : (b <<< s).toNat = 2 ^ k * b.toNat := by
  have fits : 2 ^ k * b.toNat < 2 ^ 32 := by
    have scale : 2 ^ k ≤ 2 ^ 24 := Nat.pow_le_pow_right (by decide) le
    have bound := Nat.mul_le_mul scale (Nat.le_of_lt_succ lt)
    omega
  rw [UInt32.toNat_shiftLeft, at_, Nat.shiftLeft_eq, Nat.mul_comm, Nat.mod_eq_of_lt fits]

/-- Words without a common bit are put together. -/
theorem toNat_or_add {x y : UInt32} (k n : Nat) (high : x.toNat = 2 ^ k * n)
    (low : y.toNat < 2 ^ k) : (x ||| y).toNat = 2 ^ k * n + y.toNat := by
  rw [UInt32.toNat_or, high, ← Nat.two_pow_add_eq_or_of_lt low]

theorem toBitVec_reversed (a d : UInt32) :
    (reversed a).toBitVec = FieldOp.rev.value d.toBitVec a.toBitVec := by
  have b0 := toNat_shifted a 0 0 rfl
  have b1 := toNat_shifted a 8 1 rfl
  have b2 := toNat_shifted a 16 2 rfl
  have b3 := toNat_shifted a 24 3 rfl
  have lt0 := (byteOf a.toBitVec 0).isLt
  have lt1 := (byteOf a.toBitVec 1).isLt
  have lt2 := (byteOf a.toBitVec 2).isLt
  have lt3 := (byteOf a.toBitVec 3).isLt
  rw [← b0] at lt0
  rw [← b1] at lt1
  rw [← b2] at lt2
  rw [← b3] at lt3
  have first := toNat_shiftLeft_byte 24 24 lt0 rfl (by decide)
  have second := toNat_shiftLeft_byte 16 16 lt1 rfl (by decide)
  have third := toNat_shiftLeft_byte 8 8 lt2 rfl (by decide)
  have last := toNat_shiftLeft_byte 0 0 lt3 rfl (by decide)
  apply BitVec.eq_of_toNat_eq
  show _ = (byteOf a.toBitVec 0 ++ byteOf a.toBitVec 1 ++ byteOf a.toBitVec 2 ++
    byteOf a.toBitVec 3).toNat
  rw [toNat_append_eq, toNat_append_eq, toNat_append_eq, ← b0, ← b1, ← b2, ← b3]
  unfold reversed
  dsimp only
  generalize (a >>> 0) &&& (0xFF : UInt32) = w0 at first lt0 ⊢
  generalize (a >>> 8) &&& (0xFF : UInt32) = w1 at second lt1 ⊢
  generalize (a >>> 16) &&& (0xFF : UInt32) = w2 at third lt2 ⊢
  generalize (a >>> 24) &&& (0xFF : UInt32) = w3 at last lt3 ⊢
  have two : ((w0 <<< 24) ||| (w1 <<< 16)).toNat = 2 ^ 24 * w0.toNat + (w1 <<< 16).toNat :=
    toNat_or_add 24 w0.toNat first (by omega)
  have three : ((w0 <<< 24) ||| (w1 <<< 16) ||| (w2 <<< 8)).toNat =
      2 ^ 16 * (2 ^ 8 * w0.toNat + w1.toNat) + (w2 <<< 8).toNat :=
    toNat_or_add 16 _ (by omega) (by omega)
  have four : ((w0 <<< 24) ||| (w1 <<< 16) ||| (w2 <<< 8) ||| (w3 <<< 0)).toNat =
      2 ^ 8 * (2 ^ 16 * w0.toNat + 2 ^ 8 * w1.toNat + w2.toNat) + (w3 <<< 0).toNat :=
    toNat_or_add 8 _ (by omega) (by omega)
  rw [UInt32.toNat_toBitVec]
  omega

theorem toBitVec_revsh (a d : UInt32) :
    (if ((((a >>> 0) &&& (0xFF : UInt32)) <<< 8) ||| (((a >>> 8) &&& (0xFF : UInt32)) <<< 0)) &&&
          0x8000 ≠ 0 then
        ((((a >>> 0) &&& (0xFF : UInt32)) <<< 8) ||| (((a >>> 8) &&& (0xFF : UInt32)) <<< 0)) |||
          0xFFFF0000
      else ((((a >>> 0) &&& (0xFF : UInt32)) <<< 8) ||| (((a >>> 8) &&& (0xFF : UInt32)) <<< 0)) &&&
        0x0000FFFF).toBitVec = FieldOp.revsh.value d.toBitVec a.toBitVec := by
  have b0 := toNat_shifted a 0 0 rfl
  have b1 := toNat_shifted a 8 1 rfl
  have lt0 := (byteOf a.toBitVec 0).isLt
  have lt1 := (byteOf a.toBitVec 1).isLt
  have halves := toNat_append_eq (byteOf a.toBitVec 0) (byteOf a.toBitVec 1)
  rw [← b0] at lt0
  rw [← b1] at lt1
  rw [← b0, ← b1] at halves
  have high := toNat_shiftLeft_byte 8 8 lt0 rfl (by decide)
  have low := toNat_shiftLeft_byte 0 0 lt1 rfl (by decide)
  have both := toNat_or_add 8 _ high (by omega :
    (((a >>> 8) &&& (0xFF : UInt32)) <<< 0).toNat < 2 ^ 8)
  generalize ((((a >>> 0) &&& (0xFF : UInt32)) <<< 8) |||
    (((a >>> 8) &&& (0xFF : UInt32)) <<< 0)) = c at both ⊢
  have lt : c.toNat < 2 ^ 16 := by omega
  have masked : c &&& 0x0000FFFF = c := by
    apply UInt32.toNat_inj.mp
    have mask : (0x0000FFFF : UInt32).toNat = 2 ^ 16 - 1 := rfl
    rw [UInt32.toNat_and, mask, Nat.and_two_pow_sub_one_eq_mod, Nat.mod_eq_of_lt lt]
  have word : BitVec.ofNat 16 c.toNat = byteOf a.toBitVec 0 ++ byteOf a.toBitVec 1 := by
    apply BitVec.eq_of_toNat_eq
    rw [BitVec.toNat_ofNat, Nat.mod_eq_of_lt lt]
    omega
  rw [masked, extend_sign (k := 16) (by decide) (by decide) lt rfl rfl, word]
  rfl

/-- A part of a word that is extended with its sign. -/
theorem toBitVec_signed {sign ones mask : UInt32} {k : Nat} (a : UInt32) (pos : 0 < k) (le : k ≤ 31)
    (isMask : mask.toNat = 2 ^ k - 1) (isSign : sign.toNat = 2 ^ (k - 1))
    (isOnes : ones.toNat = 2 ^ k * (2 ^ (32 - k) - 1)) :
    (if (a &&& mask) &&& sign ≠ 0 then (a &&& mask) ||| ones else a &&& mask).toBitVec =
      (a.toBitVec.setWidth k).signExtend 32 := by
  have low : (a &&& mask).toNat = a.toNat % 2 ^ k := by
    rw [UInt32.toNat_and, isMask, Nat.and_two_pow_sub_one_eq_mod]
  have lt : (a &&& mask).toNat < 2 ^ k := low ▸ Nat.mod_lt _ (Nat.two_pow_pos k)
  have part : BitVec.ofNat k (a &&& mask).toNat = a.toBitVec.setWidth k := by
    apply BitVec.eq_of_toNat_eq
    rw [BitVec.toNat_ofNat, BitVec.toNat_setWidth, low, Nat.mod_mod, UInt32.toNat_toBitVec]
  rw [extend_sign pos le lt isSign isOnes, part]

/-- A part of a word that is extended with zeros. -/
theorem toBitVec_unsigned {mask : UInt32} {k : Nat} (a : UInt32) (le : k ≤ 32)
    (isMask : mask.toNat = 2 ^ k - 1) :
    (a &&& mask).toBitVec = (a.toBitVec.setWidth k).setWidth 32 := by
  have fits : 2 ^ k ≤ 2 ^ 32 := Nat.pow_le_pow_right (by decide) le
  have lt : a.toNat % 2 ^ k < 2 ^ 32 := (Nat.mod_lt _ (Nat.two_pow_pos k)).trans_le fits
  apply BitVec.eq_of_toNat_eq
  rw [UInt32.toNat_toBitVec, UInt32.toNat_and, isMask, Nat.and_two_pow_sub_one_eq_mod,
    BitVec.toNat_setWidth, BitVec.toNat_setWidth, UInt32.toNat_toBitVec, Nat.mod_eq_of_lt lt]

end Results

/-! ## The steps -/

section Steps

variable {mcu mcu' : Mcu} {instr : UInt16}

/-- The comparison that should be a shift holds for every instruction with a pattern. -/
theorem slipReg_eq {mask value : UInt16} (matched : instr &&& mask = value) (large : 3 < value) :
    slipReg instr = 1 := by
  have le : value.toNat ≤ instr.toNat := by
    rw [← matched, UInt16.toNat_and]
    exact Nat.and_le_left
  have gt : instr > 3 := Nat.lt_of_lt_of_le large le
  unfold slipReg
  rw [if_pos gt]

/-- A step that writes the destination and keeps the flags. -/
theorem leaves_of_write {n : Nat} {entry : McuInstr16} {val : UInt32} {result : BitVec 32 × Flags}
    (pastTable : UInt32 → Bool) (reached : Reached n entry)
    (fetched : mcuFetch16 mcu (mcuReadReg mcu regPc - 2) = some instr)
    (matched : instr &&& entry.mask = entry.instr)
    (ran : (entry.impl instr).run Op.handle mcu.advanced =
      .ok true (mcuWriteReg mcu.advanced (reg instr 0 0x7) val))
    (value : val.toBitVec = result.1) (flags : mcu.flags = result.2) :
    Leaves pastTable mcu instr result := by
  have low := reg_lt instr 0
  obtain ⟨written, stepped⟩ := stepped_of_write low (.refl (mcuWriteReg mcu.advanced _ val))
  rw [reg_eq_bits instr 0 0 rfl] at written
  refine ⟨_, reached.step pastTable fetched matched ran, ?_, ?_⟩
  · rw [reg_eq_bits instr 0 0 rfl, written, value]
  · rw [flags_writeReg _ _ low, flags_advanced, flags]

/-- A step that sets flags. -/
theorem leaves_of_flags {n : Nat} {entry : McuInstr16} {result : BitVec 32 × Flags}
    (pastTable : UInt32 → Bool) (reached : Reached n entry)
    (fetched : mcuFetch16 mcu (mcuReadReg mcu regPc - 2) = some instr)
    (matched : instr &&& entry.mask = entry.instr)
    (ran : (entry.impl instr).run Op.handle mcu.advanced = .ok true mcu')
    (set : FlagsSet mcu.advanced mcu' result.2) (value : mcu.operand instr 0 = result.1) :
    Leaves pastTable mcu instr result := by
  have stepped := stepped_of_flagsSet set
  have kept := stepped.read (bits_lt instr 0) List.not_mem_nil
  refine ⟨mcu', reached.step pastTable fetched matched ran, ?_, stepped.flags⟩
  rw [kept, ← value]
  rfl

theorem run_tst (mcu : Mcu) (instr : UInt16) (a b : UInt32)
    (first : mcuReadReg mcu (reg instr 0 0x7) = a) (second : mcuReadReg mcu (slipReg instr) = b) :
    ∃ mcu', (tst instr).run Op.handle mcu = .ok true mcu' ∧ FlagsSet mcu mcu'
      { mcu.flags with n := (a.toBitVec &&& b.toBitVec).msb, z := a.toBitVec &&& b.toBitVec == 0 } := by
  refine ⟨_, ?_, ((FlagsSet.refl mcu).z (a.toBitVec &&& b.toBitVec == 0)).n
    (a.toBitVec &&& b.toBitVec).msb⟩
  unfold tst mcuUpdateZflag mcuUpdateNflag
  dsimp only
  rw [run_readReg, run_readReg, first, second, run_updateFlag _ _ _ (by decide),
    run_updateFlag _ _ _ (by decide), sign_eq, zero_eq, UInt32.toBitVec_and]
  rfl

theorem run_cmn (mcu : Mcu) (instr : UInt16) :
    ∃ mcu', (cmn instr).run Op.handle mcu = .ok true mcu' ∧ FlagsSet mcu mcu'
      (addWithCarry (mcuReadReg mcu (reg instr 0 0xF)).toBitVec
        (mcuReadReg mcu (reg instr 3 0xF)).toBitVec false).2 := by
  have none : (0 : UInt32).toNat = false.toNat := rfl
  refine ⟨_, ?_, flagsSet_sum _ _⟩
  unfold cmn
  dsimp only
  rw [run_readReg, run_readReg, run_updateNZ, run_updateCflag _ _ _ none,
    run_updateVflag _ _ _ none, toBitVec_sum]
  rfl

/-- What the entries do is what `FieldOp.source` says. -/
theorem leaves_source (op : FieldOp) (pastTable : UInt32 → Bool) (encoded : op.Encodes instr)
    (fetched : mcuFetch16 mcu (mcuReadReg mcu regPc - 2) = some instr) :
    Leaves pastTable mcu instr (op.source mcu instr) := by
  cases op with
  | tst =>
    have reached : Reached 69 ⟨0xFFC0, 0x4200, tst⟩ := ⟨rfl, by decide⟩
    obtain ⟨mcu', ran, set⟩ := run_tst mcu.advanced instr _ _ rfl rfl
    refine leaves_of_flags pastTable reached fetched encoded ran ?_ rfl
    rw [operand_advanced mcu instr 0 0 rfl, slipReg_eq encoded (by decide), value_advanced,
      flags_advanced] at set
    exact set
  | cmn =>
    have reached : Reached 19 ⟨0xFFC0, 0x42C0, cmn⟩ := ⟨rfl, by decide⟩
    have first : reg instr 0 0xF = bits instr 0 4 := toNat_field instr rfl rfl
    have second : reg instr 3 0xF = bits instr 3 4 := toNat_field instr rfl rfl
    obtain ⟨mcu', ran, set⟩ := run_cmn mcu.advanced instr
    rw [first, second, value_advanced, value_advanced] at set
    exact leaves_of_flags pastTable reached fetched encoded ran set rfl
  | sxtb =>
    have reached : Reached 67 ⟨0xFFC0, 0xB240, sxtb⟩ := ⟨rfl, by decide⟩
    refine leaves_of_write pastTable reached fetched encoded rfl ?_ rfl
    rw [toBitVec_signed (k := 8) _ (by decide) (by decide) rfl rfl rfl,
      slipReg_eq encoded (by decide), value_advanced]
    rfl
  | sxth =>
    have reached : Reached 68 ⟨0xFFC0, 0xB200, sxth⟩ := ⟨rfl, by decide⟩
    refine leaves_of_write pastTable reached fetched encoded rfl ?_ rfl
    rw [toBitVec_signed (k := 16) _ (by decide) (by decide) rfl rfl rfl,
      slipReg_eq encoded (by decide), value_advanced]
    rfl
  | uxtb =>
    have reached : Reached 70 ⟨0xFFC0, 0xB2C0, uxtb⟩ := ⟨rfl, by decide⟩
    refine leaves_of_write pastTable reached fetched encoded rfl ?_ rfl
    rw [toBitVec_unsigned (k := 8) _ (by decide) rfl,
      slipReg_eq encoded (by decide), value_advanced]
    rfl
  | uxth =>
    have reached : Reached 71 ⟨0xFFC0, 0xB280, uxth⟩ := ⟨rfl, by decide⟩
    refine leaves_of_write pastTable reached fetched encoded rfl ?_ rfl
    rw [toBitVec_unsigned (k := 16) _ (by decide) rfl,
      slipReg_eq encoded (by decide), value_advanced]
    rfl
  | rev =>
    have reached : Reached 49 ⟨0xFFC0, 0xBA00, rev⟩ := ⟨rfl, by decide⟩
    refine leaves_of_write pastTable reached fetched encoded rfl ?_ rfl
    rw [toBitVec_reversed _ 0, operand_advanced mcu instr 3 3 rfl]
    rfl
  | rev16 =>
    have reached : Reached 50 ⟨0xFFC0, 0xBA40, rev16⟩ := ⟨rfl, by decide⟩
    refine leaves_of_write pastTable reached fetched encoded rfl ?_ rfl
    rw [toBitVec_reversed _ 0, operand_advanced mcu instr 3 3 rfl]
    rfl
  | revsh =>
    have reached : Reached 51 ⟨0xFFC0, 0xBAC0, revsh⟩ := ⟨rfl, by decide⟩
    refine leaves_of_write pastTable reached fetched encoded rfl ?_ rfl
    rw [toBitVec_revsh _ 0, operand_advanced mcu instr 3 3 rfl]
    rfl

/-- A step leaves one value and one set of flags. -/
theorem Leaves.unique {pastTable : UInt32 → Bool} {result result' : BitVec 32 × Flags}
    (leaves : Leaves pastTable mcu instr result) (leaves' : Leaves pastTable mcu instr result') :
    result = result' := by
  rcases leaves with ⟨after, step, value, flags⟩
  rcases leaves' with ⟨after', step', value', flags'⟩
  rw [step] at step'
  cases step'
  exact Prod.ext (value.symm.trans value') (flags.symm.trans flags')

/-- The architecture looks at nothing but the registers that are named. -/
theorem result_of_agree (op : FieldOp) (agree : Agree mcu mcu' instr) :
    op.result mcu' instr = op.result mcu instr := by
  unfold FieldOp.result
  rw [agree.operands.1, agree.operands.2, agree.flags]

/-- The fields are honoured if the entry does what the architecture defines, from every state. -/
theorem honoured_iff_source (op : FieldOp) (pastTable : UInt32 → Bool) (encoded : op.Encodes instr) :
    op.Honoured pastTable instr ↔ ∀ mcu, mcuFetch16 mcu (mcuReadReg mcu regPc - 2) = some instr →
      op.source mcu instr = op.result mcu instr := by
  constructor
  · intro honoured mcu fetched
    have same := honoured mcu mcu fetched fetched ⟨rfl, rfl, rfl, ⟨rfl, rfl⟩, rfl, rfl⟩
    exact (leaves_source op pastTable encoded fetched).unique same.1
  · intro same mcu mcu' fetched fetched' agree
    have here := leaves_source op pastTable encoded fetched
    have there := leaves_source op pastTable encoded fetched'
    rw [same mcu fetched] at here
    rw [same mcu' fetched', result_of_agree op agree] at there
    exact ⟨here, there⟩

end Steps

/-! ## Which encodings are honoured -/

section Honoured

variable {instr : UInt16} {op : FieldOp}

/-- The operations that read r1. -/
def FieldOp.ReadsR1 (op : FieldOp) : Prop :=
  op = .tst ∨ op = .sxtb ∨ op = .sxth ∨ op = .uxtb ∨ op = .uxth

/-- If r1 is named, it makes no difference. -/
theorem source_of_r1 (reads : op.ReadsR1) (named : bits instr 3 3 = 1) (mcu : Mcu) :
    op.source mcu instr = op.result mcu instr := by
  have same : mcu.operand instr 3 = mcu.value 1 := by
    unfold Mcu.operand
    rw [named]
    rfl
  unfold FieldOp.result
  rw [same]
  rcases reads with rfl | rfl | rfl | rfl | rfl
  · rfl
  · rfl
  · rfl
  · rfl
  · rfl

/-- The registers of a program at its start. -/
theorem readReg_programMcu (regs : Reg → UInt32) (first second : UInt16) {reg : Reg}
    (low : reg < 8) : mcuReadReg (programMcu regs first second) reg = regs reg := by
  have notPc : reg ≠ regPc := (low.trans (by decide)).ne
  rw [mcuReadReg_of_plain _ (low.trans (by decide))]
  exact if_neg notPc

theorem operand_programMcu (regs : Reg → UInt32) (instr second : UInt16) (low : Nat) :
    (programMcu regs instr second).operand instr low = (regs (bits instr low 3)).toBitVec := by
  unfold Mcu.operand
  rw [readReg_programMcu regs instr second (bits_lt instr low)]

theorem value_programMcu (regs : Reg → UInt32) (first second : UInt16) :
    (programMcu regs first second).value 1 = (regs 1).toBitVec := by
  have read := readReg_programMcu regs first second (by decide : 1 < 8)
  unfold Mcu.value
  rw [if_neg (by decide), read]

/-- A state in which the entry differs from the architecture. -/
theorem not_honoured_of_ne (pastTable : UInt32 → Bool) (regs : Reg → UInt32)
    (encoded : op.Encodes instr)
    (differ : op.source (programMcu regs instr 0) instr ≠ op.result (programMcu regs instr 0) instr) :
    ¬ op.Honoured pastTable instr := by
  rw [honoured_iff_source op pastTable encoded]
  intro same
  exact differ (same _ (fetched_programMcu regs instr 0))

/-- An extension that names another register than r1 reads 1 for 0. -/
theorem not_honoured_extend (pastTable : UInt32 → Bool) (encoded : op.Encodes instr)
    (extends_ : op = .sxtb ∨ op = .sxth ∨ op = .uxtb ∨ op = .uxth) (other : bits instr 3 3 ≠ 1) :
    ¬ op.Honoured pastTable instr := by
  refine not_honoured_of_ne pastTable (fun reg => if reg = 1 then 1 else 0) encoded ?_
  generalize state : programMcu (fun reg => if reg = 1 then 1 else 0) instr 0 = mcu
  have r1 : mcu.value 1 = 1 := by
    rw [← state, value_programMcu, if_pos rfl]
    rfl
  have m : mcu.operand instr 3 = 0 := by
    rw [← state, operand_programMcu, if_neg other]
    rfl
  intro same
  have value := congrArg Prod.fst same
  unfold FieldOp.source FieldOp.result at value
  rcases extends_ with rfl | rfl | rfl | rfl
  all_goals
    dsimp only at value
    rw [r1, m] at value
    exact absurd value (by simp [FieldOp.value])

/-- A TST that names another register than r1 as its second one. -/
theorem not_honoured_tst (pastTable : UInt32 → Bool) (encoded : FieldOp.tst.Encodes instr)
    (other : bits instr 3 3 ≠ 1) : ¬ FieldOp.tst.Honoured pastTable instr := by
  by_cases first : bits instr 0 3 = 1
  · -- r1 holds 1 and the register that is named holds 0
    refine not_honoured_of_ne pastTable (fun reg => if reg = 1 then 1 else 0) encoded ?_
    intro same
    have z := congrArg (fun result => result.2.z) same
    unfold FieldOp.source FieldOp.result FieldOp.flags at z
    dsimp only at z
    rw [value_programMcu, operand_programMcu, operand_programMcu, first, if_pos rfl,
      if_neg other] at z
    exact absurd z (by decide)
  · -- r1 holds 0 and both registers that are named hold 1
    refine not_honoured_of_ne pastTable (fun reg => if reg = 1 then 0 else 1) encoded ?_
    intro same
    have z := congrArg (fun result => result.2.z) same
    unfold FieldOp.source FieldOp.result FieldOp.flags at z
    dsimp only at z
    rw [value_programMcu, operand_programMcu, operand_programMcu, if_neg first, if_pos rfl,
      if_neg other] at z
    exact absurd z (by decide)

/-- REV16 reverses all bytes. -/
theorem not_honoured_rev16 (pastTable : UInt32 → Bool) (encoded : FieldOp.rev16.Encodes instr) :
    ¬ FieldOp.rev16.Honoured pastTable instr := by
  refine not_honoured_of_ne pastTable (fun _ => 1) encoded ?_
  intro same
  have value := congrArg Prod.fst same
  unfold FieldOp.source FieldOp.result at value
  dsimp only at value
  rw [operand_programMcu, operand_programMcu] at value
  exact absurd value (by decide)

/-- The fixed bits of an instruction. -/
theorem toNat_div_of_match {value : UInt16} (matched : instr &&& 0xFFC0 = value) :
    instr.toNat / 64 = value.toNat / 64 := by
  have lt := instr.toNat_lt
  have shifted := congrArg (fun v : UInt16 => v.toNat >>> 6) matched
  have mask : (0xFFC0 : UInt16).toNat >>> 6 = 2 ^ 10 - 1 := rfl
  rw [UInt16.toNat_and, Nat.shiftRight_and_distrib, mask, Nat.and_two_pow_sub_one_eq_mod,
    Nat.shiftRight_eq_div_pow, Nat.shiftRight_eq_div_pow] at shifted
  omega

/-- The state in which the low registers hold 0 and the others 1. -/
def highMcu (instr : UInt16) : Mcu := programMcu (fun reg => if reg < 8 then 0 else 1) instr 0

theorem value_highMcu (instr : UInt16) {reg : Reg} (lt : reg < 16) :
    (highMcu instr).value reg = if reg = 15 then 4 else if reg < 8 then 0 else 1 := by
  have sp : mcuReadReg (highMcu instr) regSp = 1 := by
    rw [mcuReadReg_regSp]
    rcases stackPointer_cases (highMcu instr) with main | process
    · rw [main]
      rfl
    · rw [process]
      rfl
  by_cases isSp : reg = regSp
  · rw [isSp]
    exact congrArg UInt32.toBitVec sp
  · interval_cases reg
    case «13» => exact absurd rfl isSp
    all_goals rfl

/-- CMN always reads a high register as its second one. -/
theorem not_honoured_cmn (pastTable : UInt32 → Bool) (encoded : FieldOp.cmn.Encodes instr) :
    ¬ FieldOp.cmn.Honoured pastTable instr := by
  refine not_honoured_of_ne pastTable (fun reg => if reg < 8 then 0 else 1) encoded ?_
  intro same
  have z := congrArg (fun result => result.2.z) same
  have high : 8 ≤ bits instr 3 4 := by
    have fixed : instr.toNat / 64 = 267 := toNat_div_of_match encoded
    show 8 ≤ instr.toNat / 2 ^ 3 % 2 ^ 4
    omega
  have lt : ∀ low, bits instr low 4 < 16 := fun low => Nat.mod_lt _ (Nat.two_pow_pos 4)
  have first := value_highMcu instr (lt 0)
  have second := value_highMcu instr (lt 3)
  unfold FieldOp.source FieldOp.result FieldOp.flags at z
  dsimp only at z
  rw [operand_programMcu, operand_programMcu, if_pos (bits_lt instr 0), if_pos (bits_lt instr 3)] at z
  unfold highMcu at first second
  rw [first, second, if_neg (by omega : ¬ bits instr 3 4 < 8)] at z
  revert z
  split
  · split
    · decide
    · decide
  · split
    · split
      · decide
      · decide
    · split
      · decide
      · decide

/-- **Operand fields**: for each of TST, CMN, the extensions and the reversals, and every encoding,
the steps from any two states that agree on the PC, the flags, the memory and the registers that are
named leave the result and the flags of the architecture, if and only if the operation is REV or
REVSH, or it is TST or an extension and the register in the bits 5 to 3 is r1. -/
theorem honoured_iff (op : FieldOp) (pastTable : UInt32 → Bool) (encoded : op.Encodes instr) :
    op.Honoured pastTable instr ↔
      (op = .rev ∨ op = .revsh) ∨ op.ReadsR1 ∧ bits instr 3 3 = 1 := by
  have isR1 : op.ReadsR1 → (op.Honoured pastTable instr ↔ bits instr 3 3 = 1) := by
    intro reads
    constructor
    · intro honoured
      by_contra other
      rcases reads with isTst | extends_
      · subst isTst
        exact not_honoured_tst pastTable encoded other honoured
      · exact not_honoured_extend pastTable encoded extends_ other honoured
    · intro named
      rw [honoured_iff_source op pastTable encoded]
      intro mcu _
      exact source_of_r1 reads named mcu
  cases op with
  | cmn =>
    refine iff_of_false (not_honoured_cmn pastTable encoded) ?_
    simp [FieldOp.ReadsR1]
  | rev16 =>
    refine iff_of_false (not_honoured_rev16 pastTable encoded) ?_
    simp [FieldOp.ReadsR1]
  | rev =>
    refine iff_of_true ?_ (.inl (.inl rfl))
    rw [honoured_iff_source _ pastTable encoded]
    intro mcu _
    rfl
  | revsh =>
    refine iff_of_true ?_ (.inl (.inr rfl))
    rw [honoured_iff_source _ pastTable encoded]
    intro mcu _
    rfl
  | _ =>
    rw [isR1 (by simp [FieldOp.ReadsR1])]
    simp [FieldOp.ReadsR1]

end Honoured

/-- `sxtb r0, r1` -/
theorem honoured_iff_sxtb : FieldOp.sxtb.Honoured (fun _ => false) 0xB248 := by
  have encoded : FieldOp.sxtb.Encodes 0xB248 := rfl
  have named : bits 0xB248 3 3 = 1 := by decide
  exact (honoured_iff .sxtb (fun _ => false) encoded).mpr (.inr ⟨.inr (.inl rfl), named⟩)

/-- `uxtb r0, r2` reads r1. -/
theorem not_honoured_uxtb : ¬ FieldOp.uxtb.Honoured (fun _ => false) 0xB2D0 := by
  have encoded : FieldOp.uxtb.Encodes 0xB2D0 := rfl
  exact not_honoured_extend (fun _ => false) encoded (.inr (.inr (.inl rfl))) (by decide)

end TheFirmware.Simulator
