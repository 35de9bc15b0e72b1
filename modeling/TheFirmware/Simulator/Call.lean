import TheFirmware.Simulator.Block
import TheFirmware.Simulator.Branch
import TheFirmware.Simulator.Special

/-!
# Calls and frames

PUSH stores registers below the stack pointer and POP loads them again; BL calls a function, from
which the link register is the way back. PUSH computes the frame that POP walks over, and the PC is
two bytes ahead of the instruction that is fetched.

BL puts its offset together from five fields. The entries of MSR and MRS, which are looked at before
the one of BL, match some of the first halfwords of BL, too (`calls_iff`).
-/

namespace TheFirmware.Simulator

open Instr16 LittleEndian

/-- A PUSH and a POP have the same list, in which the PC takes the place of the link register. -/
structure Pair (push pop : UInt16) : Prop where
  list : regList pop = regList push
  last : pop &&& 0x100 = push &&& 0x100
  isPush : push &&& 0xFE00 = 0xB400
  isPop : pop &&& 0xFE00 = 0xBC00

/-- Two steps restore the low registers and the stack pointer. If the list ends with the PC, the
next fetch address is the link register without bit 0. -/
def Balances (pastTable : UInt32 → Bool) (mcu : Mcu) (push : UInt16) : Prop :=
  ∃ mcu₁ mcu₂, mcuStep pastTable mcu = .ok true mcu₁ ∧ mcuStep pastTable mcu₁ = .ok true mcu₂ ∧
    (∀ reg < 8, mcuReadReg mcu₂ reg = mcuReadReg mcu reg) ∧
    mcuReadReg mcu₂ regSp = mcuReadReg mcu regSp ∧
    (push &&& 0x100 ≠ 0 → mcuReadReg mcu₂ regPc - 2 = mcuReadReg mcu regLr &&& ~~~ 1)

/-- The 25 bits of an offset. -/
def offsetBits (o : Int) : Nat := (o % 2 ^ 25).toNat

/-- The first halfword of BL: S and imm10. -/
def blFirst (o : Int) : UInt16 :=
  .ofNat (0xF000 + 2 ^ 10 * (offsetBits o / 2 ^ 24) + offsetBits o / 2 ^ 12 % 2 ^ 10)

/-- The bit that says whether a bit of the offset is S. -/
def jBit (o : Int) (n : Nat) : Nat :=
  if offsetBits o / 2 ^ n % 2 = offsetBits o / 2 ^ 24 then 1 else 0

/-- The second halfword of BL: J1, J2 and imm11. -/
def blSecond (o : Int) : UInt16 :=
  .ofNat (0xD000 + 2 ^ 13 * jBit o 23 + 2 ^ 11 * jBit o 22 + offsetBits o / 2 % 2 ^ 11)

/-- A step goes to an offset behind the instruction, and the link register holds the address of the
instruction behind it with bit 0 set, to which a BX goes back from any state. -/
def CallsTarget (pastTable : UInt32 → Bool) (mcu : Mcu) (o : Int) : Prop :=
  ∃ mcu₁, mcuStep pastTable mcu = .ok true mcu₁ ∧
    mcu₁.fetchAddr = mcu.fetchAddr + 4 + BitVec.ofInt 32 o ∧
    (mcuReadReg mcu₁ regLr).toBitVec = (mcu.fetchAddr + 4) ||| 1 ∧
    ∀ mcu₂, mcuReadReg mcu₂ regLr = mcuReadReg mcu₁ regLr →
      mcuFetch16 mcu₂ (mcuReadReg mcu₂ regPc - 2) = some 0x4770 →
      ∃ mcu₃, mcuStep pastTable mcu₂ = .ok true mcu₃ ∧ mcu₃.fetchAddr = mcu.fetchAddr + 4

/-- The bits 21 to 17 of an offset that is not negative. -/
def HasHigh (o : Int) (bits : Int) : Prop := 0 ≤ o ∧ o / 2 ^ 17 % 2 ^ 5 = bits

/-- The register that MRS reads. -/
def mrsSource (number : UInt32) : Reg :=
  if number = 0x9 then regPsp else if number = 0x14 then regControl else regMsp

/-- BL is executed as an MRS that happens to write its target to the PC. -/
structure CallsByMrs (mcu : Mcu) (o : Int) : Prop where
  isMrs : HasHigh o 0b11111
  dest : bits (blSecond o) 8 4 = regPc
  known : sysm (blSecond o) < 8 ∨ IsSpecial (sysm (blSecond o))
  target : ((mcu.regs (mrsSource (sysm (blSecond o))) &&& ~~~ 1) - 2).toBitVec =
    mcu.fetchAddr + 4 + BitVec.ofInt 32 o
  link : (mcuReadReg mcu regLr).toBitVec = (mcu.fetchAddr + 4) ||| 1

/-! ## Frames -/

section Frame

variable {mcu mcu' : Mcu} {push pop : UInt16} {a offset sp : UInt32}

/-- The flash is read in two states that have the same. -/
theorem fetch16_flash (at_ : mcu.memDevAt a = some (.flash, offset))
    (flash : mcu'.flash = mcu.flash) (length : mcu'.ramLength = mcu.ramLength) :
    mcuFetch16 mcu' a = mcuFetch16 mcu a := by
  have at' : mcu'.memDevAt a = some (.flash, offset) := by
    rw [memDevAt_congr length]
    exact at_
  rw [mcuFetch16_bytes at_ rfl, mcuFetch16_bytes at' rfl, flash]

/-- The stack pointer is where PUSH found it, behind the words that it stored. -/
theorem pushSp_behind (mcu : Mcu) (push : UInt16) :
    pushSp mcu push + .ofNat (4 * (pushList push).length) = mcuReadReg mcu regSp := by
  have few := length_pushList push
  have size : UInt32.ofNat (pushList push).length <<< 2 =
      .ofNat (4 * (pushList push).length) := by
    have two : (2 : UInt32).toNat % 32 = 2 := rfl
    apply UInt32.toNat_inj.mp
    rw [UInt32.toNat_shiftLeft, UInt32.toNat_ofNat', UInt32.toNat_ofNat', two, Nat.shiftLeft_eq]
    omega
  unfold pushSp
  rw [size]
  exact UInt32.sub_add_cancel _ _

theorem mcuReadReg_writeSp_self (mcu : Mcu) (val : UInt32) :
    mcuReadReg (mcuWriteReg mcu regSp val) regSp = val := by
  have set := spSet_writeSp mcu val
  have same : (mcuWriteReg mcu regSp val).stackPointer = mcu.stackPointer := by
    unfold Mcu.stackPointer
    rw [set.regs regSp (by decide)]
  rw [mcuReadReg_regSp, same]
  exact set.sp

/-- The stack pointer is no other register. -/
theorem regs_writeSp_of_le {reg : Reg} (mcu : Mcu) (val : UInt32) (le : reg ≤ regPc) :
    (mcuWriteReg mcu regSp val).regs reg = mcu.regs reg := by
  rw [mcuWriteReg_regSp]
  exact mcu.regs_setReg_of_ne val (le.trans_lt (stackPointer_ge mcu).1).ne

/-- The step of a PUSH. -/
theorem step_push (pastTable : UInt32 → Bool) (encoded : push &&& 0xFE00 = 0xB400)
    (fetched : mcuFetch16 mcu (mcuReadReg mcu regPc - 2) = some push)
    (block : mcu.BlockInRam (pushSp mcu push) (pushList push).length) :
    ∃ stored, mcuStep pastTable mcu = .ok true stored ∧
      StoredWords (mcuWriteReg mcu.advanced regSp (pushSp mcu push)) stored (pushList push)
        (pushSp mcu push) := by
  have reached : Reached 48 ⟨0xFE00, 0xB400, Instr16.push⟩ := ⟨rfl, by decide⟩
  have read : mcuReadReg mcu.advanced regSp = mcuReadReg mcu regSp :=
    readReg_advanced mcu (by decide)
  have block' : (mcuWriteReg mcu.advanced regSp (pushSp mcu push)).BlockInRam (pushSp mcu push)
      (pushList push).length := by
    unfold Mcu.BlockInRam
    have length : (mcuWriteReg mcu.advanced regSp (pushSp mcu push)).ramLength = mcu.ramLength := by
      rw [mcuWriteReg_regSp]
      rfl
    rw [memDevAt_congr length]
    exact block
  rcases run_storeRegs_words (fun reg sp => if reg = regLr then pure () else mcuWriteError sp)
    (length_pushList push) _ _ block' with ⟨stored, ran, words⟩
  refine ⟨stored, reached.step pastTable fetched encoded ?_, words⟩
  have same : pushSp mcu.advanced push = pushSp mcu push := by
    unfold pushSp
    rw [read]
  show (storeRegs (fun reg sp => if reg = regLr then pure () else mcuWriteError sp) (pushList push)
    (pushSp mcu.advanced push) >>= _).run Op.handle
      (mcuWriteReg mcu.advanced regSp (pushSp mcu.advanced push)) = _
  rw [same, Proc.run_bind, ran]
  rfl

/-- What POP leaves after it has loaded the low registers. -/
def popped (loaded : Mcu) (pop : UInt16) (sp link : UInt32) : Mcu :=
  if pop &&& 0x100 ≠ 0 then mcuWriteReg (mcuWriteReg loaded regPc (link + 2)) regSp (sp + 4)
  else mcuWriteReg loaded regSp sp

/-- The step of a POP. -/
theorem step_pop {link : UInt32} (pastTable : UInt32 → Bool) (encoded : pop &&& 0xFE00 = 0xBC00)
    (fetched : mcuFetch16 mcu (mcuReadReg mcu regPc - 2) = some pop)
    (readable : ∀ i < (regList pop).length,
      ∃ val, mcuFetch32 mcu (mcuReadReg mcu regSp + .ofNat (4 * i)) = some val)
    (last : pop &&& 0x100 ≠ 0 →
      mcuFetch32 mcu (mcuReadReg mcu regSp + .ofNat (4 * (regList pop).length)) = some link ∧
        link &&& 1 ≠ 0) :
    ∃ loaded, mcuStep pastTable mcu = .ok true
        (popped loaded pop (mcuReadReg mcu regSp + .ofNat (4 * (regList pop).length)) link) ∧
      LoadedWords mcu.advanced loaded (regList pop) (mcuReadReg mcu regSp) := by
  have reached : Reached 47 ⟨0xFE00, 0xBC00, Instr16.pop⟩ := ⟨rfl, by decide⟩
  have read : mcuReadReg mcu.advanced regSp = mcuReadReg mcu regSp :=
    readReg_advanced mcu (by decide)
  have fetches : mcuFetch32 mcu.advanced = mcuFetch32 mcu := fetch32_writeReg mcu regPc _
  rcases run_loadRegs_words (fun _ => pure ()) (nodup_regList pop) (fun _ => lt_of_mem_regList)
    mcu.advanced (mcuReadReg mcu regSp) (by rw [fetches]; exact readable) with ⟨loaded, ran, words⟩
  refine ⟨loaded, reached.step pastTable fetched encoded ?_, words⟩
  have behind : mcuFetch32 loaded = mcuFetch32 mcu := by
    rw [words.rest, ← fetches]
    rfl
  show (Instr16.pop pop).run Op.handle mcu.advanced = _
  unfold Instr16.pop popped
  rw [run_readReg, read, Proc.run_bind, ran]
  dsimp only
  split
  · rename_i withPc
    rcases last withPc with ⟨word, odd⟩
    rw [run_fetch32, behind, word]
    dsimp only
    rw [if_neg odd]
    rfl
  · rfl

/-- A register that POP does not write behind the list. -/
theorem regs_popped {reg : Reg} (loaded : Mcu) (pop : UInt16) (sp link : UInt32)
    (lt : reg < regPc) : (popped loaded pop sp link).regs reg = loaded.regs reg := by
  unfold popped
  split
  · rw [regs_writeSp_of_le _ _ lt.le]
    exact loaded.regs_setReg_of_ne _ lt.ne
  · exact regs_writeSp_of_le _ _ lt.le

/-- The link register is behind the list. -/
theorem getElem_pushList (withLink : push &&& 0x100 ≠ 0) :
    (pushList push)[(regList push).length]? = some regLr := by
  unfold pushList
  rw [if_pos withLink]
  exact List.getElem?_concat_length

theorem length_pushList_eq (push : UInt16) :
    (pushList push).length = (regList push).length + if push &&& 0x100 ≠ 0 then 1 else 0 := by
  unfold pushList
  rw [List.length_append]
  split
  · rfl
  · rfl

/-- The stack pointer behind a POP. -/
theorem popped_sp (pair : Pair push pop) (mcu loaded : Mcu) (link : UInt32) :
    mcuReadReg (popped loaded pop (pushSp mcu push + .ofNat (4 * (regList pop).length)) link)
      regSp = mcuReadReg mcu regSp := by
  have behind := pushSp_behind mcu push
  rw [length_pushList_eq, ← pair.list, ← pair.last] at behind
  unfold popped
  split
  · rename_i withPc
    rw [if_pos withPc, Nat.mul_succ, UInt32.ofNat_add, ← UInt32.add_assoc] at behind
    rw [mcuReadReg_writeSp_self]
    exact behind
  · rename_i withoutPc
    rw [if_neg withoutPc] at behind
    rw [mcuReadReg_writeSp_self]
    exact behind

/-- The next fetch address behind a POP with the PC. -/
theorem popped_pc (loaded : Mcu) (sp link : UInt32) (withPc : pop &&& 0x100 ≠ 0) :
    mcuReadReg (popped loaded pop sp link) regPc - 2 = link &&& ~~~ 1 := by
  have pc : mcuReadReg (popped loaded pop sp link) regPc = (link + 2) &&& ~~~ 1 := by
    unfold popped
    rw [if_pos withPc]
    exact (regs_writeSp_of_le _ _ le_rfl).trans (mcuReadReg_writePc_self loaded (link + 2))
  have two : (2 : UInt32).toNat = 2 := rfl
  have bound := link.toNat_lt
  apply UInt32.toNat_inj.mp
  rw [pc, UInt32.toNat_sub, toNat_and_not_one, toNat_and_not_one, UInt32.toNat_add, two]
  omega

/-- The registers that PUSH stored are loaded again by POP. -/
theorem balances (pastTable : UInt32 → Bool) (pair : Pair push pop)
    (fetched : mcuFetch16 mcu (mcuReadReg mcu regPc - 2) = some push)
    (next : mcuFetch16 mcu (mcuReadReg mcu regPc) = some pop)
    (inFlash : mcu.memDevAt (mcuReadReg mcu regPc) = some (.flash, offset))
    (block : mcu.BlockInRam (pushSp mcu push) (pushList push).length)
    (odd : push &&& 0x100 ≠ 0 → mcuReadReg mcu regLr &&& 1 ≠ 0) :
    Balances pastTable mcu push := by
  rcases step_push pastTable pair.isPush fetched block with ⟨stored, step, words⟩
  have regs : stored.regs = (mcuWriteReg mcu.advanced regSp (pushSp mcu push)).regs := by
    rw [words.rest]
  have kept : ∀ reg < regPc, stored.regs reg = mcu.regs reg := by
    intro reg lt
    rw [regs, regs_writeSp_of_le _ _ lt.le]
    exact regs_advanced_of_ne mcu lt.ne
  have pc : mcuReadReg stored regPc = mcuReadReg mcu regPc + 2 := by
    rw [mcuReadReg_congr regs]
    exact (regs_writeSp_of_le _ _ le_rfl).trans (regs_advanced_pc mcu)
  have sp : mcuReadReg stored regSp = pushSp mcu push := by
    rw [mcuReadReg_congr regs, mcuReadReg_writeSp_self]
  have rest := words.rest
  rw [mcuWriteReg_regSp] at rest
  have flash : stored.flash = mcu.flash := by
    rw [rest]
    rfl
  have length : stored.ramLength = mcu.ramLength := by
    rw [rest]
    rfl
  have fetched₁ : mcuFetch16 stored (mcuReadReg stored regPc - 2) = some pop := by
    rw [pc, UInt32.add_sub_cancel, fetch16_flash inFlash flash length, next]
  -- the words of the frame are the registers before the PUSH
  have word : ∀ i reg, (pushList push)[i]? = some reg →
      mcuFetch32 stored (pushSp mcu push + .ofNat (4 * i)) = some (mcuReadReg mcu reg) := by
    intro i reg here
    rcases List.getElem?_eq_some_iff.mp here with ⟨lt, rfl⟩
    rcases of_mem_pushList (List.getElem_mem lt) with ⟨below, notSp⟩
    rw [words.words i lt, ← mcuReadReg_congr regs, mcuReadReg_of_ne _ below notSp,
      mcuReadReg_of_ne _ below notSp, kept _ below]
  have listed : ∀ i (lt : i < (regList pop).length),
      mcuFetch32 stored (pushSp mcu push + .ofNat (4 * i)) =
        some (mcuReadReg mcu (regList pop)[i]) := by
    intro i lt
    refine word i _ ?_
    unfold pushList
    rw [← pair.list, List.getElem?_append_left lt]
    exact List.getElem?_eq_getElem lt
  have last : pop &&& 0x100 ≠ 0 →
      mcuFetch32 stored (mcuReadReg stored regSp + .ofNat (4 * (regList pop).length)) =
        some (mcuReadReg mcu regLr) ∧ mcuReadReg mcu regLr &&& 1 ≠ 0 := by
    intro withPc
    rw [pair.last] at withPc
    rw [sp, pair.list]
    exact ⟨word _ _ (getElem_pushList withPc), odd withPc⟩
  rcases step_pop pastTable pair.isPop fetched₁
    (fun i lt => ⟨_, by rw [sp]; exact listed i lt⟩) last with ⟨loaded, step₁, loads⟩
  rw [sp] at step₁ loads
  refine ⟨stored, _, step, step₁, ?_, popped_sp pair mcu loaded _, fun withLink => ?_⟩
  · intro reg low
    have below : reg < regPc := low.trans (by decide)
    rw [mcuReadReg_low _ low, mcuReadReg_low _ low, regs_popped _ _ _ _ below]
    by_cases mem : reg ∈ regList pop
    · rcases List.mem_iff_getElem.mp mem with ⟨i, lt, rfl⟩
      have load := loads.words i lt
      have fetches : mcuFetch32 stored.advanced = mcuFetch32 stored :=
        fetch32_writeReg stored regPc _
      rw [fetches, listed i lt, mcuReadReg_low _ low] at load
      exact (Option.some_inj.mp load).symm
    · rw [loads.other reg mem, regs_advanced_of_ne stored below.ne, kept reg below]
  · rw [← pair.last] at withLink
    exact popped_pc loaded _ _ withLink

end Frame

/-! ## Encodings -/

section Encodings

variable {o : Int} {first second : UInt16} {instr : UInt32}

theorem offsetBits_lt (o : Int) : offsetBits o < 2 ^ 25 := by
  unfold offsetBits
  omega

theorem jBit_le (o : Int) (n : Nat) : jBit o n ≤ 1 := by
  unfold jBit
  split
  · exact le_rfl
  · exact Nat.zero_le 1

theorem toNat_blFirst (o : Int) : (blFirst o).toNat =
    0xF000 + 2 ^ 10 * (offsetBits o / 2 ^ 24) + offsetBits o / 2 ^ 12 % 2 ^ 10 := by
  have bound := offsetBits_lt o
  unfold blFirst
  rw [UInt16.toNat_ofNat']
  omega

theorem toNat_blSecond (o : Int) : (blSecond o).toNat =
    0xD000 + 2 ^ 13 * jBit o 23 + 2 ^ 11 * jBit o 22 + offsetBits o / 2 % 2 ^ 11 := by
  have j1 := jBit_le o 23
  have j2 := jBit_le o 22
  unfold blSecond
  rw [UInt16.toNat_ofNat']
  omega

/-- The fields of the first halfword. -/
theorem blFirst_fields (o : Int) :
    (blFirst o).toNat / 2 ^ 10 % 2 ^ 1 = offsetBits o / 2 ^ 24 ∧
      (blFirst o).toNat / 2 ^ 0 % 2 ^ 10 = offsetBits o / 2 ^ 12 % 2 ^ 10 := by
  have bound := offsetBits_lt o
  rw [toNat_blFirst]
  constructor
  · omega
  · omega

/-- The fields of the second halfword. -/
theorem blSecond_fields (o : Int) :
    (blSecond o).toNat / 2 ^ 13 % 2 ^ 1 = jBit o 23 ∧
      (blSecond o).toNat / 2 ^ 11 % 2 ^ 1 = jBit o 22 ∧
      (blSecond o).toNat % 2 ^ 11 = offsetBits o / 2 ^ 1 % 2 ^ 11 := by
  have j1 := jBit_le o 23
  have j2 := jBit_le o 22
  rw [toNat_blSecond]
  refine ⟨?_, ?_, ?_⟩
  · omega
  · omega
  · omega

/-- A mask that looks at the high bits only. -/
theorem toNat_and_high {mask : UInt16} (k : Nat) (a : UInt16) (small : k ≤ 16)
    (ones : mask.toNat = 2 ^ k * (2 ^ (16 - k) - 1)) :
    (a &&& mask).toNat = 2 ^ k * (a.toNat / 2 ^ k) := by
  have high : (a &&& mask).toNat / 2 ^ k = a.toNat / 2 ^ k := by
    have quotient : a.toNat / 2 ^ k < 2 ^ (16 - k) := by
      refine Nat.div_lt_of_lt_mul ?_
      rw [← Nat.pow_add, Nat.add_sub_cancel' small]
      exact a.toNat_lt
    rw [UInt16.toNat_and, Nat.and_div_two_pow, ones, Nat.mul_div_cancel_left _ (Nat.two_pow_pos k),
      Nat.and_two_pow_sub_one_of_lt_two_pow quotient]
  have low : (a &&& mask).toNat % 2 ^ k = 0 := by
    rw [UInt16.toNat_and, Nat.and_mod_two_pow, ones, Nat.mul_mod_right, Nat.and_zero]
  rw [← high]
  exact (Nat.mul_div_cancel' (Nat.dvd_of_mod_eq_zero low)).symm

theorem blFirst_narrow (o : Int) : blFirst o &&& 0xF800 = 0xF000 := by
  have bound := offsetBits_lt o
  have value : (0xF000 : UInt16).toNat = 0xF000 := rfl
  apply UInt16.toNat_inj.mp
  rw [toNat_and_high 11 _ (by decide) rfl, toNat_blFirst, value]
  omega

theorem isThirtytwo_blFirst (o : Int) : isThirtytwo (blFirst o) = true := by
  unfold isThirtytwo
  rw [blFirst_narrow]
  rfl

/-- The offsets for which the entry of MSR or of MRS matches. -/
theorem blFirst_iff {value : UInt16} {bits : Nat} (isValue : value.toNat = 0xF000 + 32 * bits)
    (small : bits < 2 ^ 5) (lower : -2 ^ 24 ≤ o) (upper : o < 2 ^ 24) :
    blFirst o &&& 0xFFE0 = value ↔ HasHigh o bits := by
  have bound := offsetBits_lt o
  unfold HasHigh
  rw [← UInt16.toNat_inj, toNat_and_high 5 _ (by decide) rfl, toNat_blFirst, isValue]
  unfold offsetBits at bound ⊢
  omega

/-- A field of the first halfword. -/
theorem toNat_wide_first {shift mask : UInt32} (low size : Nat) (at_ : shift.toNat % 32 = 16 + low)
    (ones : mask.toNat = 2 ^ size - 1) :
    ((wide first second >>> shift) &&& mask).toNat = first.toNat / 2 ^ low % 2 ^ size := by
  have bound := second.toNat_lt
  have half : (65536 * first.toNat + second.toNat) / 2 ^ 16 = first.toNat := by omega
  rw [UInt32.toNat_and, UInt32.toNat_shiftRight, at_, ones, Nat.and_two_pow_sub_one_eq_mod,
    Nat.shiftRight_eq_div_pow, toNat_wide, Nat.pow_add, ← Nat.div_div_eq_div_mul, half]

/-- The offset that BL puts together. -/
def blOffset (instr : UInt32) : UInt32 :=
  let one : UInt32 := 1
  let sign : UInt32 := (instr >>> 26) &&& one
  let j1 : UInt32 := (instr >>> 13) &&& one
  let j2 : UInt32 := (instr >>> 11) &&& one
  let i1 : UInt32 := if j1 ^^^ sign = 0 then 1 else 0
  let i2 : UInt32 := if j2 ^^^ sign = 0 then 1 else 0
  let high : UInt32 := (instr >>> 16) &&& (0x3FF : UInt32)
  let low : UInt32 := instr &&& 0x7FF
  let imm : UInt32 := (i1 <<< 23) ||| (i2 <<< 22) ||| (high <<< 12) ||| (low <<< 1)
  if sign ≠ 0 then imm ||| 0xFF000000 else imm

theorem toNat_shifted_field {x count : UInt32} (k size : Nat) (isCount : count.toNat % 32 = k)
    (small : x.toNat < 2 ^ size) (inside : k + size ≤ 32) :
    (x <<< count).toNat = 2 ^ k * x.toNat := by
  have whole : 2 ^ k * x.toNat < 2 ^ 32 := by
    calc 2 ^ k * x.toNat < 2 ^ k * 2 ^ size := Nat.mul_lt_mul_of_pos_left small (Nat.two_pow_pos k)
      _ = 2 ^ (k + size) := (Nat.pow_add 2 k size).symm
      _ ≤ 2 ^ 32 := Nat.pow_le_pow_right (by decide) inside
  rw [UInt32.toNat_shiftLeft, isCount, Nat.shiftLeft_eq, Nat.mul_comm, Nat.mod_eq_of_lt whole]

/-- The fields of the offset, put together. -/
theorem toNat_fields {a b h l : UInt32} (aLt : a.toNat < 2 ^ 1) (bLt : b.toNat < 2 ^ 1)
    (hLt : h.toNat < 2 ^ 10) (lLt : l.toNat < 2 ^ 11) :
    ((a <<< 23) ||| (b <<< 22) ||| (h <<< 12) ||| (l <<< 1)).toNat =
      2 ^ 23 * a.toNat + 2 ^ 22 * b.toNat + 2 ^ 12 * h.toNat + 2 ^ 1 * l.toNat := by
  have first : (a <<< 23).toNat = 2 ^ 23 * a.toNat := toNat_shifted_field 23 1 rfl aLt (by decide)
  have second : (b <<< 22).toNat = 2 ^ 22 * b.toNat := toNat_shifted_field 22 1 rfl bLt (by decide)
  have third : (h <<< 12).toNat = 2 ^ 12 * h.toNat := toNat_shifted_field 12 10 rfl hLt (by decide)
  have fourth : (l <<< 1).toNat = 2 ^ 1 * l.toNat := toNat_shifted_field 1 11 rfl lLt (by decide)
  have one := toNat_or_add (y := b <<< 22) 23 a.toNat first (by omega)
  have two := toNat_or_add (x := a <<< 23 ||| b <<< 22) (y := h <<< 12) 22
    (2 * a.toNat + b.toNat) (by omega) (by omega)
  have three := toNat_or_add (x := a <<< 23 ||| b <<< 22 ||| h <<< 12) (y := l <<< 1) 12
    (2 ^ 10 * (2 * a.toNat + b.toNat) + h.toNat) (by omega) (by omega)
  omega

/-- A bit of the offset is read back from its bit in the instruction. -/
theorem toNat_iBit {j sign : UInt32} (n : Nat) (isBit : j.toNat = jBit o n)
    (isSign : sign.toNat = offsetBits o / 2 ^ 24) :
    (if j ^^^ sign = 0 then 1 else 0 : UInt32).toNat = offsetBits o / 2 ^ n % 2 := by
  have bound := offsetBits_lt o
  have same : j ^^^ sign = 0 ↔ jBit o n = offsetBits o / 2 ^ 24 := by
    rw [UInt32.xor_eq_zero_iff, ← UInt32.toNat_inj, isBit, isSign]
  unfold jBit at same
  split
  · rename_i zero
    have eq := same.mp zero
    show 1 = _
    split at eq
    · omega
    · omega
  · rename_i one
    have ne := mt same.mpr one
    show 0 = _
    split at ne
    · omega
    · omega

/-- The fields of an even number of 24 bits. -/
theorem sum_fields {n : Nat} (even : n % 2 = 0) :
    2 ^ 23 * (n / 2 ^ 23 % 2) + 2 ^ 22 * (n / 2 ^ 22 % 2) + 2 ^ 12 * (n / 2 ^ 12 % 2 ^ 10) +
      2 ^ 1 * (n / 2 ^ 1 % 2 ^ 11) = n % 2 ^ 24 := by
  have low : n / 2 ^ 12 = n / 2 ^ 1 / 2 ^ 11 := (Nat.div_div_eq_div_mul n (2 ^ 1) (2 ^ 11)).symm
  have high : n / 2 ^ 22 = n / 2 ^ 12 / 2 ^ 10 := (Nat.div_div_eq_div_mul n (2 ^ 12) (2 ^ 10)).symm
  have top : n / 2 ^ 23 = n / 2 ^ 22 / 2 := (Nat.div_div_eq_div_mul n (2 ^ 22) 2).symm
  rw [top, high, low]
  omega

/-- The offset without its sign. -/
theorem toNat_offset {s a b h l : UInt32} (isJ1 : a.toNat = jBit o 23) (isJ2 : b.toNat = jBit o 22)
    (isSign : s.toNat = offsetBits o / 2 ^ 24) (isHigh : h.toNat = offsetBits o / 2 ^ 12 % 2 ^ 10)
    (isLow : l.toNat = offsetBits o / 2 ^ 1 % 2 ^ 11) (even : o % 2 = 0) :
    (((if a ^^^ s = 0 then 1 else 0 : UInt32) <<< 23) |||
      ((if b ^^^ s = 0 then 1 else 0 : UInt32) <<< 22) ||| (h <<< 12) ||| (l <<< 1)).toNat =
        offsetBits o % 2 ^ 24 := by
  have i1 := toNat_iBit 23 isJ1 isSign
  have i2 := toNat_iBit 22 isJ2 isSign
  have evenBits : offsetBits o % 2 = 0 := by
    unfold offsetBits
    omega
  rw [toNat_fields (i1 ▸ Nat.mod_lt _ Nat.two_pos) (i2 ▸ Nat.mod_lt _ Nat.two_pos)
    (isHigh ▸ Nat.mod_lt _ (Nat.two_pow_pos 10)) (isLow ▸ Nat.mod_lt _ (Nat.two_pow_pos 11)),
    i1, i2, isHigh, isLow]
  exact sum_fields evenBits

/-- BL puts together the offset that was encoded. -/
theorem toBitVec_blOffset (lower : -2 ^ 24 ≤ o) (upper : o < 2 ^ 24) (even : o % 2 = 0) :
    (blOffset (wide (blFirst o) (blSecond o))).toBitVec = BitVec.ofInt 32 o := by
  obtain ⟨firstSign, firstHigh⟩ := blFirst_fields o
  obtain ⟨secondJ1, secondJ2, secondLow⟩ := blSecond_fields o
  have isSign : ((wide (blFirst o) (blSecond o) >>> 26) &&& (1 : UInt32)).toNat =
      offsetBits o / 2 ^ 24 := (toNat_wide_first 10 1 rfl rfl).trans firstSign
  have isJ1 : ((wide (blFirst o) (blSecond o) >>> 13) &&& (1 : UInt32)).toNat = jBit o 23 :=
    (toNat_wide_field 13 1 rfl rfl (by decide)).trans secondJ1
  have isJ2 : ((wide (blFirst o) (blSecond o) >>> 11) &&& (1 : UInt32)).toNat = jBit o 22 :=
    (toNat_wide_field 11 1 rfl rfl (by decide)).trans secondJ2
  have isHigh : ((wide (blFirst o) (blSecond o) >>> 16) &&& (0x3FF : UInt32)).toNat =
      offsetBits o / 2 ^ 12 % 2 ^ 10 := (toNat_wide_first 0 10 rfl rfl).trans firstHigh
  have isLow : (wide (blFirst o) (blSecond o) &&& 0x7FF).toNat =
      offsetBits o / 2 ^ 1 % 2 ^ 11 := by
    have mask : (0x7FF : UInt32).toNat = 2 ^ 11 - 1 := rfl
    rw [UInt32.toNat_and, mask, Nat.and_two_pow_sub_one_eq_mod, toNat_wide, ← secondLow]
    omega
  unfold blOffset
  dsimp only
  generalize (wide (blFirst o) (blSecond o) >>> 26) &&& 1 = s at *
  generalize (wide (blFirst o) (blSecond o) >>> 13) &&& 1 = a at *
  generalize (wide (blFirst o) (blSecond o) >>> 11) &&& 1 = b at *
  generalize (wide (blFirst o) (blSecond o) >>> 16) &&& 0x3FF = h at *
  generalize wide (blFirst o) (blSecond o) &&& 0x7FF = l at *
  clear firstSign firstHigh secondJ1 secondJ2 secondLow
  have whole := toNat_offset isJ1 isJ2 isSign isHigh isLow even
  generalize ((if a ^^^ s = 0 then 1 else 0 : UInt32) <<< 23) |||
    ((if b ^^^ s = 0 then 1 else 0 : UInt32) <<< 22) ||| (h <<< 12) ||| (l <<< 1) = imm at *
  have signed := toNat_or_add (x := 0xFF000000) (y := imm) 24 255 rfl (by omega)
  have isZero : s = 0 ↔ offsetBits o / 2 ^ 24 = 0 := by
    rw [← UInt32.toNat_inj, isSign]
    rfl
  clear isJ1 isJ2 isSign isHigh isLow
  apply BitVec.eq_of_toNat_eq
  rw [UInt32.toNat_toBitVec, BitVec.toNat_ofInt]
  split
  · rename_i negative
    have one := mt isZero.mpr negative
    rw [UInt32.or_comm, signed, whole]
    unfold offsetBits at *
    omega
  · rename_i positive
    have zero := isZero.mp (not_not.mp positive)
    rw [whole]
    unfold offsetBits at *
    omega

end Encodings

/-! ## Calls -/

section Calls

variable {mcu mcu' : Mcu} {o : Int} {instr number val : UInt32} {pastTable : UInt32 → Bool}

theorem run_bl_eq (mcu : Mcu) (instr : UInt32) : (Instr32.bl instr).run Op.handle mcu =
    .ok true (mcuWriteReg (mcuWriteReg mcu regLr ((mcuReadReg mcu regPc - 2) ||| 1)) regPc
      (blOffset instr + mcuReadReg mcu regPc)) := rfl

/-- An instruction whose step succeeds has succeeded. -/
theorem of_execute_true {impl : Instr Bool} {pc : UInt32}
    (ran : (execute pc impl).run Op.handle mcu = .ok true mcu') :
    impl.run Op.handle mcu = .ok true mcu' := by
  unfold execute at ran
  rw [Proc.run_bind] at ran
  cases result : impl.run Op.handle mcu with
  | error stop after =>
    rw [result] at ran
    cases ran
  | ok succeeded after =>
    rw [result] at ran
    cases succeeded with
    | false => cases ran
    | true => exact ran

theorem pc_even (mcu : Mcu) : (mcuReadReg mcu regPc).toNat % 2 = 0 := by
  have even := toNat_and_one (mcuReadReg mcu regPc)
  have pcEven : mcuReadReg mcu regPc &&& 1 = 0 := mcu.pcEven
  rw [pcEven] at even
  exact even.symm

/-- The fetch address behind a 32-bit instruction. -/
theorem fetchAddr_advancedWide (mcu : Mcu) : mcu.advancedWide.fetchAddr = mcu.fetchAddr + 4 := by
  have pc : mcuReadReg mcu.advancedWide regPc = mcuReadReg mcu regPc + 2 + 2 :=
    regs_advancedWide_pc mcu
  unfold Mcu.fetchAddr
  rw [pc, UInt32.add_sub_cancel]
  generalize mcuReadReg mcu regPc = p
  have moved : p + 2 = p - 2 + 4 := by
    have two : (2 : UInt32).toNat = 2 := rfl
    have four : (4 : UInt32).toNat = 4 := rfl
    apply UInt32.toNat_inj.mp
    simp only [UInt32.toNat_add, UInt32.toNat_sub, two, four]
    omega
  rw [moved]
  rfl

/-- The address in the link register. -/
theorem fetchAddr_link (mcu : Mcu) :
    ((mcuReadReg mcu.advancedWide regPc - 2) ||| 1).toBitVec = (mcu.fetchAddr + 4) ||| 1 := by
  rw [← fetchAddr_advancedWide]
  rfl

/-- BX goes back to where the link register points. -/
theorem returns (pastTable : UInt32 → Bool) (link : (mcuReadReg mcu' regLr).toBitVec =
      (mcu.fetchAddr + 4) ||| 1)
    (fetched : mcuFetch16 mcu' (mcuReadReg mcu' regPc - 2) = some 0x4770) :
    ∃ mcu₃, mcuStep pastTable mcu' = .ok true mcu₃ ∧ mcu₃.fetchAddr = mcu.fetchAddr + 4 := by
  have reached : Reached 18 ⟨0xFF87, 0x4700, bx⟩ := ⟨rfl, by decide⟩
  have read : mcuReadReg mcu'.advanced regLr = mcuReadReg mcu' regLr :=
    readReg_advanced mcu' (by decide)
  have even : mcu.fetchAddr.toNat % 2 = 0 := by
    have pc := pc_even mcu
    have two : (2 : UInt32).toNat = 2 := rfl
    unfold Mcu.fetchAddr
    rw [UInt32.toNat_toBitVec, UInt32.toNat_sub, two]
    omega
  generalize mcu.fetchAddr = addr at *
  have sum : (addr + 4).toNat = (addr.toNat + 4) % 2 ^ 32 := BitVec.toNat_add addr 4
  have isLink : (mcuReadReg mcu' regLr).toNat = (addr + 4).toNat + 1 := by
    have one : (1 : BitVec 32).toNat = 1 := rfl
    have half : (addr + 4).toNat = 2 ^ 1 * ((addr + 4).toNat / 2) := by omega
    rw [← UInt32.toNat_toBitVec, link, BitVec.toNat_or, one, half]
    exact (Nat.two_pow_add_eq_or_of_lt (i := 1) (by decide) _).symm
  have bound := (mcuReadReg mcu' regLr).toNat_lt
  have two : (2 : UInt32).toNat = 2 := rfl
  have zero : (0 : UInt32).toNat = 0 := rfl
  have odd : (mcuReadReg mcu' regLr + 2) &&& 1 ≠ 0 := by
    rw [Ne, ← UInt32.toNat_inj, toNat_and_one, UInt32.toNat_add, two, zero]
    omega
  refine ⟨mcuWriteReg mcu'.advanced regPc ((mcuReadReg mcu' regLr + 2) &&& ~~~ 1),
    reached.step pastTable fetched rfl ?_, ?_⟩
  · show (readReg regLr >>= fun val => if (val + 2) &&& 1 ≠ 0 then
      writeReg regPc ((val + 2) &&& ~~~ 1) >>= fun _ => pure true else pure false).run Op.handle
        mcu'.advanced = _
    rw [run_readReg, read, if_pos odd]
    rfl
  · unfold Mcu.fetchAddr
    rw [mcuReadReg_writePc_self]
    apply BitVec.eq_of_toNat_eq
    rw [UInt32.toNat_toBitVec, UInt32.toNat_sub, toNat_and_not_one, toNat_and_not_one,
      UInt32.toNat_add, two]
    omega

/-- The step of a BL that finds its entry. -/
theorem calls_of_bl (pastTable : UInt32 → Bool) (lower : -2 ^ 24 ≤ o) (upper : o < 2 ^ 24)
    (even : o % 2 = 0) (at_ : mcu.At (blFirst o) (blSecond o))
    (notMsr : blFirst o &&& 0xFFE0 ≠ 0xF380) (notMrs : blFirst o &&& 0xFFE0 ≠ 0xF3E0) :
    CallsTarget pastTable mcu o := by
  have looked := search_bl (blSecond o) (blFirst_narrow o) notMsr notMrs
  have step := mcuStep_wide_true pastTable at_.first at_.second (isThirtytwo_blFirst o) looked
    (run_bl_eq mcu.advancedWide _)
  have link : mcuReadReg (mcuWriteReg (mcuWriteReg mcu.advancedWide regLr
      ((mcuReadReg mcu.advancedWide regPc - 2) ||| 1)) regPc
        (blOffset (wide (blFirst o) (blSecond o)) + mcuReadReg mcu.advancedWide regPc)) regLr =
      (mcuReadReg mcu.advancedWide regPc - 2) ||| 1 := by
    rw [mcuReadReg_writePc _ _ (by decide), mcuReadReg_of_ne _ (by decide) (by decide)]
    exact mcu.advancedWide.regs_setReg_self _ (show regLr ≠ regPc by decide)
  have isLink := fetchAddr_link mcu
  rw [← link] at isLink
  refine ⟨_, step, ?_, isLink, fun mcu₂ same fetched => ?_⟩
  · have offset := toBitVec_blOffset lower upper even
    have offsetEven : (blOffset (wide (blFirst o) (blSecond o))).toNat % 2 = 0 := by
      rw [← UInt32.toNat_toBitVec, offset, BitVec.toNat_ofInt]
      omega
    have pcEven := pc_even mcu.advancedWide
    rw [← fetchAddr_advancedWide, ← offset]
    unfold Mcu.fetchAddr
    rw [mcuReadReg_writePc_self]
    generalize mcuReadReg mcu.advancedWide regPc = p at *
    generalize blOffset (wide (blFirst o) (blSecond o)) = t at *
    have two : (2 : UInt32).toNat = 2 := rfl
    have target : ((t + p) &&& ~~~ 1) - 2 = p - 2 + t := by
      apply UInt32.toNat_inj.mp
      simp only [UInt32.toNat_add, UInt32.toNat_sub, toNat_and_not_one, two]
      omega
    rw [target]
    rfl
  · rw [← same] at isLink
    exact returns pastTable isLink fetched

/-- MSR does not write the PC. -/
theorem pc_msr (ran : (Instr32.msr instr).run Op.handle mcu = .ok true mcu') :
    mcu'.fetchAddr = mcu.fetchAddr := by
  have pc : mcu'.regs regPc = mcu.regs regPc := by
    unfold Instr32.msr at ran
    dsimp only at ran
    split at ran
    · cases ran
      rfl
    · split at ran
      · cases ran
        rfl
      · split at ran
        · cases ran
          rfl
        · split at ran
          · cases ran
            rfl
          · cases ran
  unfold Mcu.fetchAddr
  exact congrArg (fun val => (val - 2 : UInt32).toBitVec) pc

/-- A word is written to the number of a register. -/
theorem regs_write32_dest (mcu : Mcu) {dest : UInt32} (low : dest.toNat < 16) (val : UInt32) :
    ∃ b mcu', mcuWrite32 mcu dest val = .ok b mcu' ∧ mcu'.regs = mcu.regs := by
  unfold mcuWrite32
  rw [memDevAt_number mcu low]
  dsimp only [Device.write32]
  split
  · exact ⟨true, _, rfl, rfl⟩
  · exact ⟨false, _, rfl, rfl⟩

/-- MRS moves a special register to the one that it names. -/
theorem run_mrs_dest {dest : Reg} (mcu : Mcu) (isNumber : instr &&& 0x7F = number)
    (isDest : ((instr >>> 8) &&& (0xF : UInt32)).toNat = dest) (low : dest < 16)
    (known : number < 8 ∨ IsSpecial number) :
    ∃ written, written.regs = mcu.regs ∧ (Instr32.mrs instr).run Op.handle mcu =
      .ok true (mcuWriteReg written dest (mcu.regs (mrsSource number))) := by
  unfold Instr32.mrs
  rw [isNumber, ← isDest]
  rcases known with small | rfl | rfl | rfl
  · have source : mrsSource number = regMsp := by
      have lt := UInt32.lt_iff_toNat_lt.mp small
      have eight : (8 : UInt32).toNat = 8 := rfl
      have notPsp : number ≠ 0x9 := fun eq => by
        rw [eq] at lt
        exact absurd lt (by decide)
      have notControl : number ≠ 0x14 := fun eq => by
        rw [eq] at lt
        exact absurd lt (by decide)
      unfold mrsSource
      rw [if_neg notPsp, if_neg notControl]
    have move : ∀ val, ∃ written, written.regs = mcu.regs ∧
        (write32 ((instr >>> 8) &&& (0xF : UInt32)) val >>= fun _ => readReg regMsp >>= fun val =>
          writeReg ((instr >>> 8) &&& (0xF : UInt32)).toNat val >>= fun _ => pure true).run
            Op.handle mcu =
          .ok true (mcuWriteReg written ((instr >>> 8) &&& (0xF : UInt32)).toNat
            (mcu.regs regMsp)) := by
      intro val
      rcases regs_write32_dest mcu (isDest.trans_lt low) val with ⟨b, written, ran, same⟩
      refine ⟨written, same, ?_⟩
      rw [run_write32 _ ran, run_readReg, run_writeReg]
      show EStateM.Result.ok true (mcuWriteReg written _ (written.regs regMsp)) = _
      rw [same]
    dsimp only
    rw [if_pos small, source]
    split
    · split
      · exact move _
      · exact move _
    · split
      · exact move _
      · exact move _
  · exact ⟨mcu, rfl, rfl⟩
  · exact ⟨mcu, rfl, rfl⟩
  · exact ⟨mcu, rfl, rfl⟩

/-- A register that is not the PC is written. -/
theorem fetchAddr_writeReg {dest : Reg} (mcu : Mcu) (val : UInt32) (lt : dest < regPc) :
    (mcuWriteReg mcu dest val).fetchAddr = mcu.fetchAddr := by
  have pc : (mcuWriteReg mcu dest val).regs regPc = mcu.regs regPc := by
    by_cases isSp : dest = regSp
    · rw [isSp]
      exact regs_writeSp_of_le mcu val le_rfl
    · have below : ∀ other, regPc ≤ other → dest ≠ other := fun other le => (lt.trans_le le).ne
      unfold mcuWriteReg
      rw [if_neg isSp]
      dsimp only
      rw [if_neg (below regApsr (by decide)), if_neg (below regIpsr (by decide)),
        if_neg (below regEpsr (by decide))]
      exact mcu.regs_setReg_of_ne val lt.ne'
  exact congrArg (fun val => (val - 2 : UInt32).toBitVec) pc

/-- The target of a BL that the entry of MSR or MRS matches is not the next instruction. -/
theorem HasHigh.target_ne {bits : Int} (high : HasHigh o bits) (pos : 0 < bits) (addr : BitVec 32) :
    addr ≠ addr + BitVec.ofInt 32 o := by
  intro same
  have zero : BitVec.ofInt 32 o = 0#32 := BitVec.self_eq_add_right.mp same
  have toNat := congrArg BitVec.toNat zero
  rcases high with ⟨positive, isBits⟩
  rw [BitVec.toNat_ofInt, BitVec.toNat_ofNat] at toNat
  omega

/-- The register that a BL names when it is taken for an MRS. -/
theorem toNat_dest (first second : UInt16) :
    ((wide first second >>> 8) &&& (0xF : UInt32)).toNat = bits second 8 4 :=
  toNat_wide_field 8 4 rfl rfl (by decide)

theorem mrsSource_ne (number : UInt32) : mrsSource number ≠ regPc := by
  unfold mrsSource
  split
  · decide
  · split
    · decide
    · decide

/-- The step of a BL that finds the entry of MRS. -/
theorem calls_mrs_iff (pastTable : UInt32 → Bool) (isMrs : HasHigh o 0b11111)
    (at_ : mcu.At (blFirst o) (blSecond o)) (found : blFirst o &&& 0xFFE0 = 0xF3E0) :
    CallsTarget pastTable mcu o ↔ CallsByMrs mcu o := by
  have looked := (search_mrs (blSecond o) found).1
  have number := wide_sysm (blFirst o) (blSecond o)
  have low : bits (blSecond o) 8 4 < 16 := Nat.mod_lt _ (by decide)
  have source := regs_advancedWide_of_ne mcu (mrsSource_ne (sysm (blSecond o)))
  -- what is left when MRS knows the special register
  have move : ∀ (_ : sysm (blSecond o) < 8 ∨ IsSpecial (sysm (blSecond o))),
      ∃ written : Mcu, written.regs = mcu.advancedWide.regs ∧ mcuStep pastTable mcu =
        .ok true (mcuWriteReg written (bits (blSecond o) 8 4)
          (mcu.regs (mrsSource (sysm (blSecond o))))) := by
    intro known
    rcases run_mrs_dest mcu.advancedWide number (toNat_dest _ _) low known with ⟨written, same, ran⟩
    rw [source] at ran
    exact ⟨written, same, mcuStep_wide_true pastTable at_.first at_.second (isThirtytwo_blFirst o)
      looked ran⟩
  have link : ∀ (written : Mcu) val, written.regs = mcu.advancedWide.regs →
      mcuReadReg (mcuWriteReg written regPc val) regLr = mcuReadReg mcu regLr := by
    intro written val same
    rw [mcuReadReg_writePc _ _ (by decide), mcuReadReg_congr same]
    exact mcuReadReg_writePc mcu _ (by decide)
  have target : ∀ (written : Mcu) val, (mcuWriteReg written regPc val).fetchAddr =
      ((val &&& ~~~ 1) - 2).toBitVec := by
    intro written val
    unfold Mcu.fetchAddr
    rw [mcuReadReg_writePc_self]
  constructor
  · rintro ⟨mcu₁, step, isTarget, isLink, _⟩
    have known : sysm (blSecond o) < 8 ∨ IsSpecial (sysm (blSecond o)) := by
      by_contra unkown
      rcases not_or.mp unkown with ⟨large, unkown⟩
      rw [mcuStep_wide_false pastTable at_.first at_.second (isThirtytwo_blFirst o) looked
        (run_mrs_unkown _ number large unkown)] at step
      cases step
    rcases move known with ⟨written, same, step'⟩
    rw [step'] at step
    cases step
    have dest : bits (blSecond o) 8 4 = regPc := by
      by_contra notPc
      have lt : bits (blSecond o) 8 4 < regPc := lt_of_le_of_ne (Nat.lt_succ_iff.mp low) notPc
      have still : written.fetchAddr = mcu.fetchAddr + 4 := by
        rw [← fetchAddr_advancedWide]
        exact congrArg (fun regs => (regs regPc - 2 : UInt32).toBitVec) same
      rw [fetchAddr_writeReg _ _ lt, still] at isTarget
      exact isMrs.target_ne (by decide) _ isTarget
    rw [dest] at isTarget isLink
    rw [target] at isTarget
    rw [link _ _ same] at isLink
    exact ⟨isMrs, dest, known, isTarget, isLink⟩
  · intro calls
    rcases move calls.known with ⟨written, same, step⟩
    rw [calls.dest] at step
    refine ⟨_, step, ?_, ?_, fun mcu₂ sameLink fetched => ?_⟩
    · rw [target]
      exact calls.target
    · rw [link _ _ same]
      exact calls.link
    · have isLink := calls.link
      rw [← link written _ same, ← sameLink] at isLink
      exact returns pastTable isLink fetched

/-- BL calls its target exactly when neither the entry of MSR nor the one of MRS matches, or the one
of MRS writes the target to the PC. -/
theorem calls_iff (pastTable : UInt32 → Bool) (lower : -2 ^ 24 ≤ o) (upper : o ≤ 2 ^ 24 - 2)
    (even : o % 2 = 0) (at_ : mcu.At (blFirst o) (blSecond o)) :
    CallsTarget pastTable mcu o ↔
      (¬ HasHigh o 0b11100 ∧ ¬ HasHigh o 0b11111) ∨ CallsByMrs mcu o := by
  have upper : o < 2 ^ 24 := by omega
  have msrIff : blFirst o &&& 0xFFE0 = 0xF380 ↔ HasHigh o 0b11100 :=
    blFirst_iff rfl (by decide) lower upper
  have mrsIff : blFirst o &&& 0xFFE0 = 0xF3E0 ↔ HasHigh o 0b11111 :=
    blFirst_iff rfl (by decide) lower upper
  by_cases isMsr : HasHigh o 0b11100
  · have notMrs : ¬ HasHigh o 0b11111 := fun isMrs =>
      absurd (isMsr.2.symm.trans isMrs.2) (by decide)
    have looked := (search_msr (blSecond o) (msrIff.mpr isMsr)).1
    refine iff_of_false ?_ ?_
    · rintro ⟨mcu₁, step, isTarget, _⟩
      rw [mcuStep_wide pastTable at_.first at_.second (isThirtytwo_blFirst o) looked] at step
      rw [pc_msr (of_execute_true step), fetchAddr_advancedWide] at isTarget
      exact isMsr.target_ne (by decide) _ isTarget
    · rintro (⟨notMsr, _⟩ | calls)
      · exact notMsr isMsr
      · exact notMrs calls.isMrs
  · by_cases isMrs : HasHigh o 0b11111
    · rw [calls_mrs_iff pastTable isMrs at_ (mrsIff.mpr isMrs)]
      exact (or_iff_right fun neither => neither.2 isMrs).symm
    · exact iff_of_true (calls_of_bl pastTable lower upper even at_ (mt msrIff.mp isMsr)
        (mt mrsIff.mp isMrs)) (.inl ⟨isMsr, isMrs⟩)

end Calls

/-- **Calls and frames**: for every state and every list with its frame in the RAM, a PUSH in the
flash and the POP behind it, with the PC for an odd link register, restore r0 to r7 and the stack
pointer and go back to where the link register points. And for every state and every even offset, BL
calls its target, and BX returns from there, if and only if the offset is negative or its bits 21 to
17 are neither 11100 nor 11111, or BL is taken for an MRS that writes the target to the PC. -/
theorem frames_and_calls_iff (pastTable : UInt32 → Bool) :
    (∀ (mcu : Mcu) (push pop : UInt16) (offset : UInt32), Pair push pop →
      mcuFetch16 mcu (mcuReadReg mcu regPc - 2) = some push →
      mcuFetch16 mcu (mcuReadReg mcu regPc) = some pop →
      mcu.memDevAt (mcuReadReg mcu regPc) = some (.flash, offset) →
      mcu.BlockInRam (pushSp mcu push) (pushList push).length →
      (push &&& 0x100 ≠ 0 → mcuReadReg mcu regLr &&& 1 ≠ 0) → Balances pastTable mcu push) ∧
    ∀ (mcu : Mcu) (o : Int), -2 ^ 24 ≤ o → o ≤ 2 ^ 24 - 2 → o % 2 = 0 →
      mcu.At (blFirst o) (blSecond o) →
      (CallsTarget pastTable mcu o ↔
        (¬ HasHigh o 0b11100 ∧ ¬ HasHigh o 0b11111) ∨ CallsByMrs mcu o) := by
  constructor
  · intro mcu push pop offset pair fetched next inFlash block odd
    exact balances pastTable pair fetched next inFlash block odd
  · intro mcu o lower upper even at_
    exact calls_iff pastTable lower upper even at_

/-- The stack pointer in the RAM, and an odd link register. -/
def callMcu (first second : UInt16) : Mcu :=
  programMcu (fun reg => if reg = regMsp then 0x10000010 else if reg = regLr then 0x101 else 0)
    first second

theorem blockInRam_callMcu (first second : UInt16) :
    (callMcu first second).BlockInRam 0x10000008 2 := by
  intro i lt
  have same : (callMcu first second).memDevAt = createdMcu.memDevAt := memDevAt_congr rfl
  rw [same]
  interval_cases i
  · exact ⟨8, by decide⟩
  · exact ⟨12, by decide⟩

/-- `push {r1, lr}` and `pop {r1, pc}`, and `bl` to the instruction behind it. -/
theorem frames_and_calls_iff_next :
    Balances (fun _ => false) (callMcu 0xB502 0xBD02) 0xB502 ∧
      CallsTarget (fun _ => false) (callMcu 0xF000 0xF800) 0 := by
  have both := frames_and_calls_iff fun _ => false
  refine ⟨both.1 _ 0xB502 0xBD02 2 ⟨by decide, by decide, by decide, by decide⟩
    (fetched_programMcu _ _ _) (fetched_programMcu_next _ _ _) ?_ ?_ (by decide), ?_⟩
  · rw [show (callMcu 0xB502 0xBD02).memDevAt = createdMcu.memDevAt from memDevAt_congr rfl]
    decide
  · exact blockInRam_callMcu 0xB502 0xBD02
  · have low : ¬ HasHigh 0 0b11100 ∧ ¬ HasHigh 0 0b11111 := by
      unfold HasHigh
      decide
    exact (both.2 _ 0 (by decide) (by decide) (by decide)
      ⟨fetched_programMcu _ _ _, fetched_programMcu_next _ _ _⟩).mpr (.inl low)

/-- `bl` with the offset 0x380000 is executed as an MSR. -/
theorem not_calls_msr : ¬ CallsTarget (fun _ => false) (callMcu 0xF380 0xF800) 0x380000 := by
  have at_ : (callMcu 0xF380 0xF800).At (blFirst 0x380000) (blSecond 0x380000) :=
    ⟨fetched_programMcu _ _ _, fetched_programMcu_next _ _ _⟩
  have isMsr : HasHigh 0x380000 0b11100 := ⟨by decide, by decide⟩
  rw [calls_iff (fun _ => false) (by decide) (by decide) (by decide) at_]
  rintro (⟨notMsr, _⟩ | calls)
  · exact notMsr isMsr
  · exact absurd calls.isMrs.2 (by decide)

end TheFirmware.Simulator
