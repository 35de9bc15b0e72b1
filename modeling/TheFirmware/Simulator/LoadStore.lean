import TheFirmware.Simulator.Operands

/-!
# Loads and stores

A store should change the byte, halfword or word that it addresses and nothing else
(`Width.stored`), and a load of the same width from the same address should return what was stored,
extended to a word (`Width.extended`). STRB writes the halfword that its byte is in with
`mcu_write32`, at the start of the word, and LDRSB and LDRSH keep what they load in an `uint16_t`.
`store_load_iff` says for which stores, and for which loads behind them, this makes no difference.
-/

namespace TheFirmware.Simulator

open Instr16 LittleEndian

/-- The widths of an access. -/
inductive Width : Type
  | byte
  | half
  | word
  deriving DecidableEq, Repr

/-- The number of bytes. -/
def Width.size : Width → Nat
  | byte => 1
  | half => 2
  | word => 4

/-- The memory, when the bytes of a value have replaced those at an offset. -/
def Width.stored (w : Width) (m : Bytes) (offset : Nat) (val : UInt32) : Bytes := fun x =>
  if offset ≤ x ∧ x < offset + w.size then byte32 val (x - offset) else m x

/-- The part of a word that is stored. -/
def Width.part (w : Width) (val : UInt32) : BitVec (8 * w.size) := val.toBitVec.setWidth _

/-- The part of a word that is stored, extended with its sign or with zeros. -/
def Width.extended (w : Width) (signed : Bool) (val : UInt32) : BitVec 32 :=
  if signed then (w.part val).signExtend 32 else (w.part val).setWidth 32

/-- How an instruction computes an address. -/
inductive Mode : Type
  | immediate
  | registers
  | stack
  | literal
  deriving DecidableEq, Repr

/-- The address. -/
def Mode.addr (mode : Mode) (w : Width) (mcu : Mcu) (instr : UInt16) : UInt32 :=
  match mode with
  | immediate => mcuReadReg mcu (bits instr 3 3) + .ofNat (w.size * bits instr 6 5)
  | registers => mcuReadReg mcu (bits instr 3 3) + mcuReadReg mcu (bits instr 6 3)
  | stack => mcuReadReg mcu regSp + .ofNat (w.size * bits instr 0 8)
  | literal => ((mcuReadReg mcu regPc + 2) &&& ~~~ 3) + .ofNat (w.size * bits instr 0 8)

/-- The register that is stored or loaded. -/
def Mode.reg (mode : Mode) (instr : UInt16) : Reg :=
  match mode with
  | immediate | registers => bits instr 0 3
  | stack | literal => bits instr 8 3

/-- The stores, by their forms. -/
inductive Store : Type
  | str1
  | str2
  | str3
  | strb1
  | strb2
  | strh1
  | strh2
  deriving DecidableEq, Repr

def Store.width : Store → Width
  | str1 | str2 | str3 => .word
  | strb1 | strb2 => .byte
  | strh1 | strh2 => .half

def Store.mode : Store → Mode
  | str1 | strb1 | strh1 => .immediate
  | str2 | strb2 | strh2 => .registers
  | str3 => .stack

/-- The mask and the fixed bits of a form. -/
def Store.pattern : Store → UInt16 × UInt16
  | str1 => (0xF800, 0x6000)
  | str2 => (0xFE00, 0x5000)
  | str3 => (0xF800, 0x9000)
  | strb1 => (0xF800, 0x7000)
  | strb2 => (0xFE00, 0x5400)
  | strh1 => (0xF800, 0x8000)
  | strh2 => (0xFE00, 0x5200)

def Store.Encodes (op : Store) (instr : UInt16) : Prop := instr &&& op.pattern.1 = op.pattern.2

/-- The address that is stored to. -/
def Store.addr (op : Store) (mcu : Mcu) (instr : UInt16) : UInt32 :=
  op.mode.addr op.width mcu instr

/-- The value of the register that is stored. -/
def Store.val (op : Store) (mcu : Mcu) (instr : UInt16) : UInt32 := mcuReadReg mcu (op.mode.reg instr)

/-- The loads, by their forms. -/
inductive Load : Type
  | ldr1
  | ldr2
  | ldr3
  | ldr4
  | ldrb1
  | ldrb2
  | ldrh1
  | ldrh2
  | ldrsb
  | ldrsh
  deriving DecidableEq, Repr

def Load.width : Load → Width
  | ldr1 | ldr2 | ldr3 | ldr4 => .word
  | ldrb1 | ldrb2 | ldrsb => .byte
  | ldrh1 | ldrh2 | ldrsh => .half

def Load.mode : Load → Mode
  | ldr1 | ldrb1 | ldrh1 => .immediate
  | ldr2 | ldrb2 | ldrh2 | ldrsb | ldrsh => .registers
  | ldr3 => .literal
  | ldr4 => .stack

/-- The loads that extend the sign. -/
def Load.signed : Load → Bool
  | ldrsb | ldrsh => true
  | _ => false

/-- The mask and the fixed bits of a form. -/
def Load.pattern : Load → UInt16 × UInt16
  | ldr1 => (0xF800, 0x6800)
  | ldr2 => (0xFE00, 0x5800)
  | ldr3 => (0xF800, 0x4800)
  | ldr4 => (0xF800, 0x9800)
  | ldrb1 => (0xF800, 0x7800)
  | ldrb2 => (0xFE00, 0x5C00)
  | ldrh1 => (0xF800, 0x8800)
  | ldrh2 => (0xFE00, 0x5A00)
  | ldrsb => (0xFE00, 0x5600)
  | ldrsh => (0xFE00, 0x5E00)

def Load.Encodes (op : Load) (instr : UInt16) : Prop := instr &&& op.pattern.1 = op.pattern.2

/-- The address that is loaded from. -/
def Load.addr (op : Load) (mcu : Mcu) (instr : UInt16) : UInt32 :=
  op.mode.addr op.width mcu instr

/-- Two states have the same RAM. -/
structure Mcu.SameRam (mcu mcu' : Mcu) : Prop where
  ram : mcu'.ram = mcu.ram
  length : mcu'.ramLength = mcu.ramLength

/-- The MCU when a store has changed what it addresses and nothing else, and has gone to the next
instruction. -/
def Store.after (op : Store) (mcu : Mcu) (instr : UInt16) (offset : Nat) : Mcu :=
  { mcu.advanced with ram := op.width.stored mcu.ram offset (op.val mcu instr) }

/-- A store to RAM changes exactly what it addresses. -/
def Store.Exact (op : Store) (pastTable : UInt32 → Bool) (mcu : Mcu) (instr : UInt16)
    (offset : Nat) : Prop :=
  mcuStep pastTable mcu = .ok true (op.after mcu instr offset)

/-- In every state with the RAM of `mcu`, the load from an address returns the part of a value,
extended to a word. -/
def Load.Returns (load : Load) (pastTable : UInt32 → Bool) (mcu : Mcu) (addr val : UInt32) : Prop :=
  ∀ (mcu₁ : Mcu) (instr : UInt16), mcu.SameRam mcu₁ → load.Encodes instr →
    mcuFetch16 mcu₁ (mcuReadReg mcu₁ regPc - 2) = some instr → load.addr mcu₁ instr = addr →
    ∃ mcu₂, mcuStep pastTable mcu₁ = .ok true mcu₂ ∧
      (mcuReadReg mcu₂ (load.mode.reg instr)).toBitVec = load.width.extended load.signed val

/-- A store to RAM changes exactly what it addresses, and the load from there returns what was
stored. -/
def Store.Law (op : Store) (load : Load) (pastTable : UInt32 → Bool) (mcu : Mcu) (instr : UInt16)
    (offset : Nat) : Prop :=
  op.Exact pastTable mcu instr offset ∧
    load.Returns pastTable (op.after mcu instr offset) (op.addr mcu instr) (op.val mcu instr)

/-- With the byte stored, the upper half of its word is 0; and if the byte lies there, all of the
word is. Halfwords and words fit everywhere. -/
def Width.Fits (w : Width) (m : Bytes) (offset : Nat) (val : UInt32) : Prop :=
  w = .byte → ∀ x, x / 4 = offset / 4 → (2 ≤ x % 4 ∨ 2 ≤ offset % 4) → w.stored m offset val x = 0

/-- The sign of a stored byte or halfword is clear. -/
def Width.Positive (w : Width) (val : UInt32) : Prop := w = .word ∨ (w.part val).msb = false

/-! ## Addresses -/

section Addresses

variable {mcu mcu' : Mcu} {instr : UInt16} {a : UInt32} {dev : Device} {offset : UInt32}

theorem readReg_advanced {reg : Reg} (mcu : Mcu) (ne : reg ≠ regPc) :
    mcuReadReg mcu.advanced reg = mcuReadReg mcu reg := mcuReadReg_writePc mcu _ ne

theorem readLow_advanced (mcu : Mcu) (instr shift : UInt16) (low : Nat)
    (at_ : shift.toNat % 16 = low) :
    mcuReadReg mcu.advanced (reg instr shift 0x7) = mcuReadReg mcu (bits instr low 3) :=
  UInt32.toBitVec_inj.mp (operand_advanced mcu instr shift low at_)

/-- A field of an instruction that is an offset in halfwords or words. -/
theorem field_shiftLeft {shift mask : UInt16} {low : Nat} {count : UInt32} (k size : Nat)
    (instr : UInt16) (at_ : shift.toNat % 16 = low) (ones : mask.toNat = 2 ^ size - 1)
    (isCount : count.toNat % 32 = k) :
    field instr shift mask <<< count = .ofNat (2 ^ k * bits instr low size) := by
  apply UInt32.toNat_inj.mp
  rw [UInt32.toNat_shiftLeft, toNat_field instr at_ ones, isCount, Nat.shiftLeft_eq,
    UInt32.toNat_ofNat', Nat.mul_comm]

/-- A field of an instruction that is an offset in bytes. -/
theorem field_unit {shift mask : UInt16} {low : Nat} (size : Nat) (instr : UInt16)
    (at_ : shift.toNat % 16 = low) (ones : mask.toNat = 2 ^ size - 1) :
    field instr shift mask = .ofNat (1 * bits instr low size) := by
  rw [Nat.one_mul, ← toNat_field instr at_ ones, UInt32.ofNat_toNat]

theorem addr_immediate {imm : UInt32} (w : Width) (isImm : imm = .ofNat (w.size * bits instr 6 5)) :
    mcuReadReg mcu.advanced (reg instr 3 0x7) + imm = Mode.immediate.addr w mcu instr := by
  rw [readLow_advanced mcu instr 3 3 rfl, isImm]
  rfl

theorem addr_registers (w : Width) :
    mcuReadReg mcu.advanced (reg instr 3 0x7) + mcuReadReg mcu.advanced (reg instr 6 0x7) =
      Mode.registers.addr w mcu instr := by
  rw [readLow_advanced mcu instr 3 3 rfl, readLow_advanced mcu instr 6 6 rfl]
  rfl

theorem addr_stack (mcu : Mcu) (instr : UInt16) :
    mcuReadReg mcu.advanced regSp + (field instr 0 0xFF <<< 2) =
      Mode.stack.addr .word mcu instr := by
  rw [readReg_advanced mcu (by decide), field_shiftLeft 2 8 instr rfl rfl rfl]
  rfl

theorem addr_literal (mcu : Mcu) (instr : UInt16) :
    (mcuReadReg mcu.advanced regPc &&& ~~~ (3 : UInt32)) + (field instr 0 0xFF <<< 2) =
      Mode.literal.addr .word mcu instr := by
  have pc : mcuReadReg mcu.advanced regPc = mcuReadReg mcu regPc + 2 := regs_advanced_pc mcu
  rw [pc, field_shiftLeft 2 8 instr rfl rfl rfl]
  rfl

end Addresses

/-! ## Storing -/

section Storing

variable {mcu mcu' : Mcu} {instr : UInt16} {a : UInt32} {offset : UInt32} {m : Bytes} {x : Nat}

theorem mcuWrite32_ram (at_ : mcu.memDevAt a = some (.ram, offset)) (v : UInt32) :
    mcuWrite32 mcu a v =
      .ok true { mcu with ram := store32 mcu.ram (4 * (offset.toNat / 4)) v } := by
  unfold mcuWrite32
  rw [at_, ← toNat_shiftRight_two]
  rfl

theorem run_write32 {α : Type} {b : Bool} {v : UInt32} (f : Bool → Instr α)
    (written : mcuWrite32 mcu a v = .ok b mcu') :
    (write32 a v >>= f).run Op.handle mcu = (f b).run Op.handle mcu' := by
  have called : Op.handle (.write32 a v) mcu = .ok b mcu' := written
  have whole : (write32 a v >>= f) = .call (.write32 a v) f := rfl
  rw [whole, Proc.run_call_ok f called]

theorem run_write16 {α : Type} {b : Bool} {v : UInt16} (f : Bool → Instr α)
    (written : mcuWrite16 mcu a v = .ok b mcu') :
    (write16 a v >>= f).run Op.handle mcu = (f b).run Op.handle mcu' := by
  have called : Op.handle (.write16 a v) mcu = .ok b mcu' := written
  have whole : (write16 a v >>= f) = .call (.write16 a v) f := rfl
  rw [whole, Proc.run_call_ok f called]

theorem run_str (mcu : Mcu) (at_ : mcu.memDevAt a = some (.ram, offset)) (shown v : UInt32) :
    (str a shown v).run Op.handle mcu =
      .ok true { mcu with ram := store32 mcu.ram (4 * (offset.toNat / 4)) v } :=
  run_write32 _ (mcuWrite32_ram at_ v)

theorem run_strh (mcu : Mcu) (at_ : mcu.memDevAt a = some (.ram, offset)) (v : UInt32) :
    (strh a v).run Op.handle mcu =
      .ok true { mcu with ram := store16 mcu.ram (2 * (offset.toNat / 2)) v.toUInt16 } :=
  run_write16 _ (mcuWrite16_writable at_ (.inl rfl) rfl v.toUInt16)

/-- The halfword that STRB makes of the one that its byte is in. -/
def mergedByte (m : Bytes) (offset : Nat) (val : UInt32) : UInt16 :=
  let old := load16 m (2 * (offset / 2))
  if offset % 2 ≠ 0 then (old &&& (0x00FF : UInt16)) ||| (val.toUInt8.toUInt16 <<< 8)
  else (old &&& (0xFF00 : UInt16)) ||| (val.toUInt8.toUInt16 <<< 0)

theorem toUInt16_shifted (val : UInt32) : (val <<< 8).toUInt16 = val.toUInt8.toUInt16 <<< 8 := by
  apply UInt16.toNat_inj.mp
  have shift : (8 : UInt32).toNat % 32 = 8 := rfl
  have shift16 : (8 : UInt16).toNat % 16 = 8 := rfl
  rw [UInt32.toNat_toUInt16, UInt32.toNat_shiftLeft, UInt16.toNat_shiftLeft, UInt8.toNat_toUInt16,
    UInt32.toNat_toUInt8, shift, shift16, Nat.shiftLeft_eq, Nat.shiftLeft_eq]
  omega

theorem toUInt16_masked (val : UInt32) : (val &&& 0xFF).toUInt16 = val.toUInt8.toUInt16 <<< 0 := by
  apply UInt16.toNat_inj.mp
  have mask : (0xFF : UInt32).toNat = 2 ^ 8 - 1 := rfl
  have shift : (0 : UInt16).toNat % 16 = 0 := rfl
  rw [UInt32.toNat_toUInt16, UInt32.toNat_and, UInt16.toNat_shiftLeft, UInt8.toNat_toUInt16,
    UInt32.toNat_toUInt8, mask, shift, Nat.and_two_pow_sub_one_eq_mod, Nat.shiftLeft_zero]

theorem run_strb (mcu : Mcu) (dest : Reg) (at_ : mcu.memDevAt a = some (.ram, offset)) :
    (strb dest a).run Op.handle mcu = .ok true { mcu with
      ram := store32 mcu.ram (4 * (offset.toNat / 4))
        (mergedByte mcu.ram offset.toNat (mcuReadReg mcu dest)).toUInt32 } := by
  have even := toNat_and_not_one a
  have bit := toNat_and_one a
  have residue := toNat_offset_mod at_
  obtain ⟨near, near_at, near_eq⟩ :=
    memDevAt_near at_ (show (a &&& ~~~ 1).toNat / 4 = a.toNat / 4 by omega)
  have half : 2 * (near.toNat / 2) = 2 * (offset.toNat / 2) := by omega
  have word : 4 * (near.toNat / 4) = 4 * (offset.toNat / 4) := by omega
  have odd : a &&& 1 ≠ 0 ↔ offset.toNat % 2 ≠ 0 := by
    have zero : (0 : UInt32).toNat = 0 := rfl
    rw [ne_eq, ← UInt32.toNat_inj, bit, zero]
    omega
  unfold strb
  rw [run_fetch16, mcuFetch16_bytes near_at rfl, half]
  dsimp only
  rw [run_readReg, toUInt16_shifted, toUInt16_masked, run_str _ near_at, word]
  unfold mergedByte
  simp only [odd]

/-- The bytes of a word that is stored. -/
theorem store32_apply (v : UInt32) (x : Nat) (m : Bytes) (a : Nat) :
    store32 m a v x = if a ≤ x ∧ x < a + 4 then byte32 v (x - a) else m x := by
  unfold store32
  split
  · apply UInt8.toNat_inj.mp
    rw [toNat_byte32 _ (by omega), UInt8.toNat_ofNat']
  · rfl

theorem stored_word {offset : Nat} (val : UInt32) (aligned : offset % 4 = 0) :
    store32 m (4 * (offset / 4)) val = Width.word.stored m offset val := by
  have start : 4 * (offset / 4) = offset := by omega
  rw [start]
  exact funext fun x => store32_apply val x m offset

theorem stored_half {offset : Nat} (val : UInt32) (aligned : offset % 2 = 0) :
    store16 m (2 * (offset / 2)) val.toUInt16 = Width.half.stored m offset val := by
  have start : 2 * (offset / 2) = offset := by omega
  have shift : (8 : UInt16).toNat % 16 = 8 := rfl
  funext x
  rw [start]
  unfold store16
  show _ = if offset ≤ x ∧ x < offset + 2 then byte32 val (x - offset) else m x
  by_cases first : x = offset
  · rw [if_pos first, if_pos (by omega), first, Nat.sub_self]
    apply UInt8.toNat_inj.mp
    rw [toNat_byte32 _ (by decide), UInt16.toNat_toUInt8, UInt32.toNat_toUInt16]
    omega
  · by_cases second : x = offset + 1
    · rw [if_neg first, if_pos second, if_pos (by omega), second, Nat.add_sub_cancel_left]
      apply UInt8.toNat_inj.mp
      rw [toNat_byte32 _ (by decide), UInt16.toNat_toUInt8, UInt16.toNat_shiftRight, shift,
        UInt32.toNat_toUInt16, Nat.shiftRight_eq_div_pow]
      omega
    · rw [if_neg first, if_neg second, if_neg (by omega)]

theorem stored_byte (m : Bytes) (offset : Nat) (val : UInt32) :
    Width.byte.stored m offset val = Function.update m offset val.toUInt8 := by
  funext x
  rw [Function.update_apply]
  show (if offset ≤ x ∧ x < offset + 1 then byte32 val (x - offset) else m x) = _
  by_cases here : x = offset
  · rw [if_pos (by omega), if_pos here, here, Nat.sub_self]
    rfl
  · rw [if_neg (by omega), if_neg here]

/-- The halfword is right, so it would be if it were stored as one. -/
theorem store16_mergedByte (m : Bytes) (offset : Nat) (val : UInt32) :
    store16 m (2 * (offset / 2)) (mergedByte m offset val) = Width.byte.stored m offset val := by
  rw [stored_byte]
  unfold mergedByte
  dsimp only
  by_cases odd : offset % 2 ≠ 0
  · have place : 2 * (offset / 2) + 1 = offset := by omega
    rw [if_pos odd, store16_replace_high, place]
  · have place : 2 * (offset / 2) = offset := by omega
    rw [if_neg odd, store16_replace_low, place]

/-- A halfword that is stored as a word. -/
theorem store32_half (m m' : Bytes) (a b : Nat) (v : UInt16) {i : Nat} (small : i < 4) :
    store32 m a v.toUInt32 (a + i) = if i < 2 then store16 m' b v (b + i) else 0 := by
  have bound := v.toNat_lt
  have shift : (8 : UInt16).toNat % 16 = 8 := rfl
  rw [store32_apply, if_pos (by omega), Nat.add_sub_cancel_left]
  apply UInt8.toNat_inj.mp
  rw [toNat_byte32 _ small, UInt16.toNat_toUInt32]
  obtain rfl | rfl | rfl | rfl : i = 0 ∨ i = 1 ∨ i = 2 ∨ i = 3 := by omega
  · rw [if_pos (by decide), Nat.add_zero, store16_low, UInt16.toNat_toUInt8]
    omega
  · rw [if_pos (by decide), store16_high, UInt16.toNat_toUInt8, UInt16.toNat_shiftRight, shift,
      Nat.shiftRight_eq_div_pow]
    omega
  · rw [if_neg (by decide)]
    show v.toNat / 65536 % 256 = 0
    omega
  · rw [if_neg (by decide)]
    show v.toNat / 16777216 % 256 = 0
    omega

/-- What STRB leaves is what it should leave exactly when the byte fits. -/
theorem store32_mergedByte_iff (m : Bytes) (offset : Nat) (val : UInt32) :
    store32 m (4 * (offset / 4)) (mergedByte m offset val).toUInt32 =
        Width.byte.stored m offset val ↔ Width.byte.Fits m offset val := by
  have word : ∀ i < 4, store32 m (4 * (offset / 4)) (mergedByte m offset val).toUInt32
      (4 * (offset / 4) + i) =
        if i < 2 then Width.byte.stored m offset val (2 * (offset / 2) + i) else 0 := by
    intro i small
    rw [← store16_mergedByte]
    exact store32_half _ _ _ _ _ small
  have outside : ∀ x, x / 4 ≠ offset / 4 → Width.byte.stored m offset val x = m x := by
    intro x away
    rw [stored_byte, Function.update_of_ne (by omega)]
  unfold Width.Fits
  generalize Width.byte.stored m offset val = e at word outside ⊢
  have place : ∀ x, x / 4 = offset / 4 → x = 4 * (offset / 4) + x % 4 := by omega
  constructor
  · intro same _ x here half
    rw [same] at word
    have upper : ∀ i < 4, 2 ≤ i → e (4 * (offset / 4) + i) = 0 := by
      intro i small high
      rw [word i small, if_neg (by omega)]
    rw [place x here]
    rcases Nat.lt_or_ge (x % 4) 2 with low | high
    · have second : 2 * (offset / 2) + x % 4 = 4 * (offset / 4) + (2 + x % 4) := by omega
      rw [word _ (by omega), if_pos low, second]
      exact upper _ (by omega) (by omega)
    · exact upper _ (by omega) high
  · intro fits
    funext x
    by_cases here : x / 4 = offset / 4
    · rw [place x here, word _ (by omega)]
      rcases Nat.lt_or_ge (x % 4) 2 with low | high
      · rw [if_pos low]
        rcases Nat.lt_or_ge (offset % 4) 2 with first | second
        · congr 1
          omega
        · rw [fits rfl _ (by omega) (.inr second), fits rfl _ (by omega) (.inr second)]
      · rw [if_neg (by omega), fits rfl _ (by omega) (.inl (by omega))]
    · rw [outside x here]
      exact store32_outside (by omega)

/-- The memory as the stores leave it. -/
def Width.wrote (w : Width) (m : Bytes) (offset : Nat) (val : UInt32) : Bytes :=
  match w with
  | byte => store32 m (4 * (offset / 4)) (mergedByte m offset val).toUInt32
  | half => store16 m (2 * (offset / 2)) val.toUInt16
  | word => store32 m (4 * (offset / 4)) val

theorem wrote_iff {w : Width} {offset : Nat} (m : Bytes) (val : UInt32)
    (aligned : offset % w.size = 0) :
    w.wrote m offset val = w.stored m offset val ↔ w.Fits m offset val := by
  cases w with
  | byte => exact store32_mergedByte_iff m offset val
  | half => exact iff_of_true (stored_half val aligned) fun isByte => nomatch isByte
  | word => exact iff_of_true (stored_word val aligned) fun isByte => nomatch isByte

/-- The step of a store to RAM. -/
theorem step_store (op : Store) (pastTable : UInt32 → Bool) (encoded : op.Encodes instr)
    (fetched : mcuFetch16 mcu (mcuReadReg mcu regPc - 2) = some instr)
    (at_ : mcu.memDevAt (op.addr mcu instr) = some (.ram, offset)) :
    mcuStep pastTable mcu = .ok true { mcu.advanced with
      ram := op.width.wrote mcu.ram offset.toNat (op.val mcu instr) } := by
  have low := readLow_advanced mcu instr 0 0 rfl
  cases op with
  | str1 =>
    have reached : Reached 55 ⟨0xF800, 0x6000, str1⟩ := ⟨rfl, by decide⟩
    refine reached.step pastTable fetched encoded ?_
    show (str (mcuReadReg mcu.advanced (reg instr 3 0x7) + (field instr 6 0x1F <<< 2)) _
      (mcuReadReg mcu.advanced (reg instr 0 0x7))).run Op.handle mcu.advanced = _
    rw [addr_immediate .word (field_shiftLeft 2 5 instr rfl rfl rfl), low]
    exact run_str mcu.advanced at_ _ _
  | str2 =>
    have reached : Reached 56 ⟨0xFE00, 0x5000, str2⟩ := ⟨rfl, by decide⟩
    refine reached.step pastTable fetched encoded ?_
    show (str (mcuReadReg mcu.advanced (reg instr 3 0x7) + mcuReadReg mcu.advanced (reg instr 6 0x7)) _
      (mcuReadReg mcu.advanced (reg instr 0 0x7))).run Op.handle mcu.advanced = _
    rw [addr_registers .word, low]
    exact run_str mcu.advanced at_ _ _
  | str3 =>
    have reached : Reached 57 ⟨0xF800, 0x9000, str3⟩ := ⟨rfl, by decide⟩
    refine reached.step pastTable fetched encoded ?_
    show (str (mcuReadReg mcu.advanced regSp + (field instr 0 0xFF <<< 2)) _
      (mcuReadReg mcu.advanced (reg instr 8 0x7))).run Op.handle mcu.advanced = _
    rw [addr_stack, readLow_advanced mcu instr 8 8 rfl]
    exact run_str mcu.advanced at_ _ _
  | strb1 =>
    have reached : Reached 58 ⟨0xF800, 0x7000, strb1⟩ := ⟨rfl, by decide⟩
    refine reached.step pastTable fetched encoded ?_
    show (strb _ (mcuReadReg mcu.advanced (reg instr 3 0x7) + field instr 6 0x1F)).run
      Op.handle mcu.advanced = _
    rw [addr_immediate .byte (field_unit 5 instr rfl rfl)]
    have ran := run_strb mcu.advanced (reg instr 0 0x7) at_
    rw [low] at ran
    exact ran
  | strb2 =>
    have reached : Reached 59 ⟨0xFE00, 0x5400, strb2⟩ := ⟨rfl, by decide⟩
    refine reached.step pastTable fetched encoded ?_
    show (strb _ (mcuReadReg mcu.advanced (reg instr 3 0x7) + mcuReadReg mcu.advanced (reg instr 6 0x7))).run
      Op.handle mcu.advanced = _
    rw [addr_registers .byte]
    have ran := run_strb mcu.advanced (reg instr 0 0x7) at_
    rw [low] at ran
    exact ran
  | strh1 =>
    have reached : Reached 60 ⟨0xF800, 0x8000, strh1⟩ := ⟨rfl, by decide⟩
    refine reached.step pastTable fetched encoded ?_
    show (strh (mcuReadReg mcu.advanced (reg instr 3 0x7) + (field instr 6 0x1F <<< 1))
      (mcuReadReg mcu.advanced (reg instr 0 0x7))).run Op.handle mcu.advanced = _
    rw [addr_immediate .half (field_shiftLeft 1 5 instr rfl rfl rfl), low]
    exact run_strh mcu.advanced at_ _
  | strh2 =>
    have reached : Reached 61 ⟨0xFE00, 0x5200, strh2⟩ := ⟨rfl, by decide⟩
    refine reached.step pastTable fetched encoded ?_
    show (strh (mcuReadReg mcu.advanced (reg instr 3 0x7) + mcuReadReg mcu.advanced (reg instr 6 0x7))
      (mcuReadReg mcu.advanced (reg instr 0 0x7))).run Op.handle mcu.advanced = _
    rw [addr_registers .half, low]
    exact run_strh mcu.advanced at_ _

end Storing

/-! ## Loading -/

section Loading

variable {mcu mcu' : Mcu} {instr : UInt16} {a : UInt32} {offset : UInt32} {m : Bytes}

/-- A byte as LDRSB extends it. -/
def signByte (b : UInt8) : UInt32 :=
  (if b.toUInt16 &&& 0x80 ≠ 0 then b.toUInt16 ||| 0xFF00 else b.toUInt16).toUInt32

/-- What is in the memory, extended with zeros. -/
def Width.loaded (w : Width) (m : Bytes) (offset : Nat) : UInt32 :=
  match w with
  | byte => (m offset).toUInt32
  | half => (load16 m (2 * (offset / 2))).toUInt32
  | word => load32 m (4 * (offset / 4))

/-- What a load puts in its register. -/
def Load.value (op : Load) (m : Bytes) (offset : Nat) : UInt32 :=
  if op = ldrsb then signByte (m offset) else op.width.loaded m offset

theorem run_ldr (mcu : Mcu) (dest : Reg) (at_ : mcu.memDevAt a = some (.ram, offset)) :
    (ldr dest a).run Op.handle mcu =
      .ok true (mcuWriteReg mcu dest (Width.word.loaded mcu.ram offset.toNat)) := by
  unfold ldr
  rw [run_fetch32, mcuFetch32_bytes at_ rfl]
  rfl

theorem run_ldrh (mcu : Mcu) (dest : Reg) (at_ : mcu.memDevAt a = some (.ram, offset)) :
    (ldrh dest a).run Op.handle mcu =
      .ok true (mcuWriteReg mcu dest (Width.half.loaded mcu.ram offset.toNat)) := by
  unfold ldrh
  rw [run_fetch16, mcuFetch16_bytes at_ rfl]
  rfl

/-- The byte of the halfword that it is in. -/
theorem fetched_byte (at_ : mcu.memDevAt a = some (.ram, offset)) :
    ∃ val, mcuFetch16 mcu (a &&& ~~~ 1) = some val ∧
      (if a &&& 1 ≠ 0 then val >>> 8 else val) &&& (0xFF : UInt16) =
        (mcu.ram offset.toNat).toUInt16 := by
  have even := toNat_and_not_one a
  have bit := toNat_and_one a
  have residue := toNat_offset_mod at_
  obtain ⟨near, near_at, near_eq⟩ :=
    memDevAt_near at_ (show (a &&& ~~~ 1).toNat / 4 = a.toNat / 4 by omega)
  have narrow : ∀ v : UInt16, v &&& 0xFF = v.toUInt8.toUInt16 := by
    intro v
    have mask : (0xFF : UInt16).toNat = 2 ^ 8 - 1 := rfl
    apply UInt16.toNat_inj.mp
    rw [UInt16.toNat_and, mask, Nat.and_two_pow_sub_one_eq_mod, UInt8.toNat_toUInt16,
      UInt16.toNat_toUInt8]
  refine ⟨_, mcuFetch16_bytes near_at rfl, ?_⟩
  rw [narrow]
  by_cases odd : a &&& 1 = 0
  · have zero : (0 : UInt32).toNat = 0 := rfl
    rw [odd, zero] at bit
    have place : 2 * (near.toNat / 2) = offset.toNat := by omega
    rw [if_neg (not_not.mpr odd), toUInt8_load16, place]
  · have ne : (a &&& 1).toNat ≠ 0 := fun zero => odd (UInt32.toNat_inj.mp zero)
    have place : 2 * (near.toNat / 2) + 1 = offset.toNat := by omega
    rw [if_pos odd, toUInt8_load16_shift, place]

theorem run_ldrb (mcu : Mcu) (dest : Reg) (at_ : mcu.memDevAt a = some (.ram, offset)) :
    (ldrb dest a).run Op.handle mcu =
      .ok true (mcuWriteReg mcu dest (Width.byte.loaded mcu.ram offset.toNat)) := by
  obtain ⟨val, fetched, byte⟩ := fetched_byte at_
  unfold ldrb
  rw [run_fetch16, fetched]
  dsimp only
  rw [byte]
  rfl

theorem run_ldrsb (mcu : Mcu) (instr : UInt16)
    (at_ : mcu.memDevAt (mcuReadReg mcu (reg instr 3 0x7) + mcuReadReg mcu (reg instr 6 0x7)) =
      some (.ram, offset)) :
    (ldrsb instr).run Op.handle mcu =
      .ok true (mcuWriteReg mcu (reg instr 0 0x7) (signByte (mcu.ram offset.toNat))) := by
  obtain ⟨val, fetched, byte⟩ := fetched_byte at_
  unfold ldrsb
  dsimp only
  rw [run_readReg, run_readReg, run_fetch16, fetched]
  dsimp only
  rw [byte]
  rfl

theorem run_ldrsh (mcu : Mcu) (instr : UInt16)
    (at_ : mcu.memDevAt (mcuReadReg mcu (reg instr 3 0x7) + mcuReadReg mcu (reg instr 6 0x7)) =
      some (.ram, offset)) :
    (ldrsh instr).run Op.handle mcu = .ok true
      (mcuWriteReg mcu (reg instr 0 0x7) (Width.half.loaded mcu.ram offset.toNat)) := by
  have whole : ∀ v : UInt16, v &&& 0xFFFF = v := fun v => UInt16.and_neg_one
  unfold ldrsh
  dsimp only
  rw [run_readReg, run_readReg, run_fetch16, mcuFetch16_bytes at_ rfl]
  dsimp only
  rw [whole]
  rfl

/-- The step of a load from RAM. -/
theorem step_load (op : Load) (pastTable : UInt32 → Bool) (encoded : op.Encodes instr)
    (fetched : mcuFetch16 mcu (mcuReadReg mcu regPc - 2) = some instr)
    (at_ : mcu.memDevAt (op.addr mcu instr) = some (.ram, offset)) :
    mcuStep pastTable mcu = .ok true
      (mcuWriteReg mcu.advanced (op.mode.reg instr) (op.value mcu.ram offset.toNat)) := by
  have low := reg_eq_bits instr 0 0 rfl
  have high := reg_eq_bits instr 8 8 rfl
  cases op with
  | ldr1 =>
    have reached : Reached 26 ⟨0xF800, 0x6800, ldr1⟩ := ⟨rfl, by decide⟩
    refine reached.step pastTable fetched encoded ?_
    show (ldr (reg instr 0 0x7)
      (mcuReadReg mcu.advanced (reg instr 3 0x7) + (field instr 6 0x1F <<< 2))).run Op.handle mcu.advanced = _
    rw [addr_immediate .word (field_shiftLeft 2 5 instr rfl rfl rfl), low]
    exact run_ldr mcu.advanced _ at_
  | ldr2 =>
    have reached : Reached 27 ⟨0xFE00, 0x5800, ldr2⟩ := ⟨rfl, by decide⟩
    refine reached.step pastTable fetched encoded ?_
    show (ldr (reg instr 0 0x7)
      (mcuReadReg mcu.advanced (reg instr 3 0x7) + mcuReadReg mcu.advanced (reg instr 6 0x7))).run Op.handle mcu.advanced = _
    rw [addr_registers .word, low]
    exact run_ldr mcu.advanced _ at_
  | ldr3 =>
    have reached : Reached 28 ⟨0xF800, 0x4800, ldr3⟩ := ⟨rfl, by decide⟩
    refine reached.step pastTable fetched encoded ?_
    show (ldr (reg instr 8 0x7)
      ((mcuReadReg mcu.advanced regPc &&& ~~~ (3 : UInt32)) + (field instr 0 0xFF <<< 2))).run Op.handle mcu.advanced = _
    rw [addr_literal, high]
    exact run_ldr mcu.advanced _ at_
  | ldr4 =>
    have reached : Reached 29 ⟨0xF800, 0x9800, ldr4⟩ := ⟨rfl, by decide⟩
    refine reached.step pastTable fetched encoded ?_
    show (ldr (reg instr 8 0x7)
      (mcuReadReg mcu.advanced regSp + (field instr 0 0xFF <<< 2))).run Op.handle mcu.advanced = _
    rw [addr_stack, high]
    exact run_ldr mcu.advanced _ at_
  | ldrb1 =>
    have reached : Reached 30 ⟨0xF800, 0x7800, ldrb1⟩ := ⟨rfl, by decide⟩
    refine reached.step pastTable fetched encoded ?_
    show (ldrb (reg instr 0 0x7)
      (mcuReadReg mcu.advanced (reg instr 3 0x7) + field instr 6 0x1F)).run Op.handle mcu.advanced = _
    rw [addr_immediate .byte (field_unit 5 instr rfl rfl), low]
    exact run_ldrb mcu.advanced _ at_
  | ldrb2 =>
    have reached : Reached 31 ⟨0xFE00, 0x5C00, ldrb2⟩ := ⟨rfl, by decide⟩
    refine reached.step pastTable fetched encoded ?_
    show (ldrb (reg instr 0 0x7)
      (mcuReadReg mcu.advanced (reg instr 3 0x7) + mcuReadReg mcu.advanced (reg instr 6 0x7))).run Op.handle mcu.advanced = _
    rw [addr_registers .byte, low]
    exact run_ldrb mcu.advanced _ at_
  | ldrh1 =>
    have reached : Reached 32 ⟨0xF800, 0x8800, ldrh1⟩ := ⟨rfl, by decide⟩
    refine reached.step pastTable fetched encoded ?_
    show (ldrh (reg instr 0 0x7)
      (mcuReadReg mcu.advanced (reg instr 3 0x7) + (field instr 6 0x1F <<< 1))).run Op.handle mcu.advanced = _
    rw [addr_immediate .half (field_shiftLeft 1 5 instr rfl rfl rfl), low]
    exact run_ldrh mcu.advanced _ at_
  | ldrh2 =>
    have reached : Reached 33 ⟨0xFE00, 0x5A00, ldrh2⟩ := ⟨rfl, by decide⟩
    refine reached.step pastTable fetched encoded ?_
    show (ldrh (reg instr 0 0x7)
      (mcuReadReg mcu.advanced (reg instr 3 0x7) + mcuReadReg mcu.advanced (reg instr 6 0x7))).run Op.handle mcu.advanced = _
    rw [addr_registers .half, low]
    exact run_ldrh mcu.advanced _ at_
  | ldrsb =>
    have reached : Reached 34 ⟨0xFE00, 0x5600, ldrsb⟩ := ⟨rfl, by decide⟩
    refine reached.step pastTable fetched encoded ?_
    have ran := run_ldrsb mcu.advanced instr (by rw [addr_registers .byte]; exact at_)
    rw [low] at ran
    exact ran
  | ldrsh =>
    have reached : Reached 35 ⟨0xFE00, 0x5E00, ldrsh⟩ := ⟨rfl, by decide⟩
    refine reached.step pastTable fetched encoded ?_
    have ran := run_ldrsh mcu.advanced instr (by rw [addr_registers .half]; exact at_)
    rw [low] at ran
    exact ran

/-- What was stored, extended with zeros. -/
theorem loaded_stored {w : Width} {offset : Nat} (m : Bytes) (val : UInt32)
    (aligned : offset % w.size = 0) :
    (w.loaded (w.stored m offset val) offset).toBitVec = w.extended false val := by
  apply BitVec.eq_of_toNat_eq
  show _ = ((val.toBitVec.setWidth (8 * w.size)).setWidth 32).toNat
  have bound := val.toNat_lt
  rw [BitVec.toNat_setWidth, BitVec.toNat_setWidth, UInt32.toNat_toBitVec, UInt32.toNat_toBitVec]
  cases w with
  | byte =>
    show (Width.byte.stored m offset val offset).toUInt32.toNat = val.toNat % 2 ^ 8 % 2 ^ 32
    rw [stored_byte, Function.update_self, UInt8.toNat_toUInt32, UInt32.toNat_toUInt8]
    omega
  | half =>
    have place : 2 * (offset / 2) = offset := Nat.mul_div_cancel' (Nat.dvd_of_mod_eq_zero aligned)
    show (load16 (Width.half.stored m offset val) (2 * (offset / 2))).toUInt32.toNat =
      val.toNat % 2 ^ 16 % 2 ^ 32
    rw [← stored_half val aligned, load16_store16, UInt16.toNat_toUInt32, UInt32.toNat_toUInt16]
    omega
  | word =>
    show (load32 (Width.word.stored m offset val) (4 * (offset / 4))).toNat =
      val.toNat % 2 ^ 32 % 2 ^ 32
    rw [← stored_word val aligned, load32_store32]
    omega

/-- A value whose sign is clear is extended with zeros. -/
theorem extended_of_positive {w : Width} {val : UInt32} (positive : w.Positive val) (signed : Bool) :
    w.extended signed val = w.extended false val := by
  cases signed with
  | false => rfl
  | true =>
    rcases positive with rfl | clear
    · exact (BitVec.signExtend_eq_setWidth_of_le _ (by decide)).trans rfl
    · exact BitVec.signExtend_eq_setWidth_of_msb_false clear

/-- LDRSB extends a byte whose sign is clear with zeros. -/
theorem signByte_of_clear {b : UInt8} (clear : b.toNat < 128) : signByte b = b.toUInt32 := by
  have sign : (0x80 : UInt16).toNat = 2 ^ 7 := rfl
  have none : b.toUInt16 &&& 0x80 = 0 := by
    apply UInt16.toNat_inj.mp
    rw [UInt16.toNat_and, sign, UInt8.toNat_toUInt16, Nat.and_two_pow,
      Nat.testBit_lt_two_pow clear]
    rfl
  unfold signByte
  rw [if_neg (not_not.mpr none), UInt8.toUInt32_toUInt16]

/-- A load returns what was stored, extended to a word, if its sign is clear or the load extends it
with zeros. -/
theorem value_stored {op : Load} {offset : Nat} {val : UInt32} (m : Bytes)
    (aligned : offset % op.width.size = 0) (fine : op.signed = true → op.width.Positive val) :
    (op.value (op.width.stored m offset val) offset).toBitVec = op.width.extended op.signed val := by
  have plain : (op.width.loaded (op.width.stored m offset val) offset).toBitVec =
      op.width.extended op.signed val := by
    rw [loaded_stored m val aligned]
    cases signed : op.signed with
    | false => rfl
    | true => exact (extended_of_positive (fine signed) true).symm
  unfold Load.value
  split
  · rename_i isByte
    subst isByte
    have clear : (Width.byte.part val).msb = false := (fine rfl).resolve_left (by decide)
    rw [BitVec.msb_eq_decide, decide_eq_false_iff_not, not_le] at clear
    rw [signByte_of_clear, ← plain]
    · rfl
    · show (Width.byte.stored m offset val offset).toNat < 128
      rw [stored_byte, Function.update_self, UInt32.toNat_toUInt8]
      exact clear
  · exact plain

/-- The word that a signed load puts in its register has a halfword of zeros. -/
theorem toNat_value_lt {op : Load} (signed : op.signed = true) (m : Bytes) (offset : Nat) :
    (op.value m offset).toNat < 2 ^ 16 := by
  have narrow : ∀ v : UInt16, v.toUInt32.toNat < 2 ^ 16 := by
    intro v
    rw [UInt16.toNat_toUInt32]
    exact v.toNat_lt
  cases op with
  | ldrsb => exact narrow _
  | ldrsh => exact narrow _
  | _ => cases signed

/-- A signed load does not return what was stored if its sign is set. -/
theorem value_ne {op : Load} {val : UInt32} (signed : op.signed = true)
    (negative : ¬ op.width.Positive val) (m : Bytes) (offset : Nat) :
    (op.value m offset).toBitVec ≠ op.width.extended op.signed val := by
  obtain ⟨notWord, set⟩ := not_or.mp negative
  rw [Bool.not_eq_false] at set
  have lt := toNat_value_lt signed m offset
  have small : 8 * op.width.size < 32 := by
    cases op with
    | ldrsb => decide
    | ldrsh => decide
    | _ => cases signed
  intro eq
  have msb := congrArg BitVec.msb eq
  rw [signed] at msb
  have sign : (op.width.extended true val).msb = true := by
    show ((op.width.part val).signExtend 32).msb = true
    rw [BitVec.msb_signExtend, if_neg (by omega), set]
    rfl
  rw [sign, BitVec.msb_eq_decide, decide_eq_true_iff, UInt32.toNat_toBitVec] at msb
  omega

end Loading

/-! ## Loading what was stored -/

section LoadStore

variable {mcu : Mcu} {instr : UInt16} {a : UInt32} {offset : UInt32} {m : Bytes} {w : Width}

theorem Mode.reg_lt (mode : Mode) (instr : UInt16) : mode.reg instr < 8 := by
  cases mode with
  | immediate => exact bits_lt instr 0
  | registers => exact bits_lt instr 0
  | stack => exact bits_lt instr 8
  | literal => exact bits_lt instr 8

theorem mod_size (at_ : mcu.memDevAt a = some (.ram, offset)) (aligned : a.toNat % w.size = 0) :
    offset.toNat % w.size = 0 := by
  have residue := toNat_offset_mod at_
  cases w with
  | byte => exact Nat.mod_one _
  | half =>
    have even : a.toNat % 2 = 0 := aligned
    show offset.toNat % 2 = 0
    omega
  | word => exact residue.trans aligned

/-- The register that was loaded. -/
theorem mcuReadReg_writeReg_self {reg : Reg} (mcu : Mcu) (val : UInt32) (low : reg < 8) :
    mcuReadReg (mcuWriteReg mcu reg val) reg = val := by
  rw [mcuWriteReg_of_plain mcu val (low.trans (by decide)), mcuReadReg_low _ low]
  exact mcu.regs_setReg_self val (low.trans (show 8 < regPc by decide)).ne

/-- The RAM of a state, an address in a register and an instruction in the flash. -/
def loadMcu (mcu : Mcu) (base : Reg) (addr : UInt32) (instr : UInt16) : Mcu :=
  { mcu with
    regs := fun reg => if reg = regPc then 2 else if reg = base then addr else 0
    pcEven := by
      rw [if_pos rfl]
      rfl
    flash := store16 mcu.flash 0 instr }

theorem fetched_loadMcu (mcu : Mcu) (base : Reg) (addr : UInt32) (instr : UInt16) :
    mcuFetch16 (loadMcu mcu base addr instr) (mcuReadReg (loadMcu mcu base addr instr) regPc - 2) =
      some instr := by
  have loaded : mcuFetch16 (loadMcu mcu base addr instr) (2 - 2) =
      some (load16 (store16 mcu.flash 0 instr) 0) := rfl
  exact loaded.trans (congrArg some (load16_store16 _ 0 instr))

/-- A load that extends the sign, from the address in r1 and r2. -/
theorem exists_signed {load : Load} (signed : load.signed = true) :
    ∃ instr : UInt16, load.Encodes instr ∧
      ∀ mcu addr, load.addr (loadMcu mcu 1 addr instr) instr = addr := by
  cases load with
  | ldrsb => exact ⟨0x5688, rfl, fun mcu addr => UInt32.add_zero addr⟩
  | ldrsh => exact ⟨0x5E88, rfl, fun mcu addr => UInt32.add_zero addr⟩
  | _ => cases signed

/-- A load returns what was stored exactly when it extends with zeros or the sign is clear. -/
theorem returns_iff {load : Load} {val : UInt32} (pastTable : UInt32 → Bool)
    (at_ : mcu.memDevAt a = some (.ram, offset)) (aligned : offset.toNat % load.width.size = 0)
    (ram : mcu.ram = load.width.stored m offset.toNat val) :
    load.Returns pastTable mcu a val ↔ (load.signed = true → load.width.Positive val) := by
  constructor
  · intro returns signed
    by_contra negative
    rcases exists_signed signed with ⟨instr, encoded, addr⟩
    have loadAt : (loadMcu mcu 1 a instr).memDevAt (load.addr (loadMcu mcu 1 a instr) instr) =
        some (.ram, offset) := by
      rw [addr]
      exact at_
    rcases returns (loadMcu mcu 1 a instr) instr ⟨rfl, rfl⟩ encoded (fetched_loadMcu mcu 1 a instr)
      (addr mcu a) with ⟨mcu₂, step, value⟩
    rw [step_load load pastTable encoded (fetched_loadMcu mcu 1 a instr) loadAt] at step
    cases step
    rw [mcuReadReg_writeReg_self _ _ (load.mode.reg_lt instr)] at value
    exact value_ne signed negative _ _ value
  · intro positive mcu₁ instr same encoded fetched addr
    have loadAt : mcu₁.memDevAt (load.addr mcu₁ instr) = some (.ram, offset) := by
      rw [addr, memDevAt_congr same.length]
      exact at_
    refine ⟨_, step_load load pastTable encoded fetched loadAt, ?_⟩
    rw [mcuReadReg_writeReg_self _ _ (load.mode.reg_lt instr), same.ram, ram]
    exact value_stored m aligned positive

/-- A store changes exactly what it addresses if it fits there. -/
theorem exact_iff (pastTable : UInt32 → Bool) (op : Store) (encoded : op.Encodes instr)
    (fetched : mcuFetch16 mcu (mcuReadReg mcu regPc - 2) = some instr)
    (at_ : mcu.memDevAt (op.addr mcu instr) = some (.ram, offset))
    (inside : offset.toNat % op.width.size = 0) :
    op.Exact pastTable mcu instr offset.toNat ↔
      op.width.Fits mcu.ram offset.toNat (op.val mcu instr) := by
  unfold Store.Exact
  rw [step_store op pastTable encoded fetched at_, ← wrote_iff mcu.ram (op.val mcu instr) inside]
  constructor
  · intro same
    injection same with _ same
    exact congrArg Mcu.ram same
  · intro same
    rw [same]
    rfl

/-- **Stores and loads**: for every state and every store to an aligned address in RAM, the store
changes exactly the byte, halfword or word that it addresses if and only if the byte of an STRB leaves
the upper half of its word, or all of it if the byte lies there, 0; and so it does and a load of this
width from there returns what was stored, extended to a word, if and only if in addition the load is
not LDRSB or LDRSH or the sign of what was stored is clear. -/
theorem store_load_iff (pastTable : UInt32 → Bool) (op : Store) (mcu : Mcu) (instr : UInt16)
    (offset : UInt32) (encoded : op.Encodes instr)
    (fetched : mcuFetch16 mcu (mcuReadReg mcu regPc - 2) = some instr)
    (at_ : mcu.memDevAt (op.addr mcu instr) = some (.ram, offset))
    (aligned : (op.addr mcu instr).toNat % op.width.size = 0) :
    (op.Exact pastTable mcu instr offset.toNat ↔
      op.width.Fits mcu.ram offset.toNat (op.val mcu instr)) ∧
    ∀ load : Load, load.width = op.width →
      (op.Law load pastTable mcu instr offset.toNat ↔
        op.width.Fits mcu.ram offset.toNat (op.val mcu instr) ∧
          (load.signed = true → load.width.Positive (op.val mcu instr))) := by
  have inside := mod_size at_ aligned
  have exactly := exact_iff pastTable op encoded fetched at_ inside
  refine ⟨exactly, fun load sameWidth => and_congr exactly ?_⟩
  have afterAt : (op.after mcu instr offset.toNat).memDevAt (op.addr mcu instr) =
      some (.ram, offset) := at_
  have stored : (op.after mcu instr offset.toNat).ram =
      load.width.stored mcu.ram offset.toNat (op.val mcu instr) := by
    rw [sameWidth]
    rfl
  rw [← sameWidth] at inside
  exact returns_iff pastTable afterAt inside stored

/-- A store of r0 to the address in r1, the first one of the RAM. -/
def storeMcu (instr : UInt16) (val : UInt32) (ram : Bytes) : Mcu :=
  { programMcu (fun reg => if reg = 1 then 0x10000000 else val) instr 0 with ram := ram }

theorem fetched_storeMcu (instr : UInt16) (val : UInt32) (ram : Bytes) :
    mcuFetch16 (storeMcu instr val ram) (mcuReadReg (storeMcu instr val ram) regPc - 2) =
      some instr := by
  have loaded : mcuFetch16 (storeMcu instr val ram) (2 - 2) =
      some (load16 (store16 (store16 createdMcu.flash 2 0) 0 instr) 0) := rfl
  exact loaded.trans (congrArg some (load16_store16 _ 0 instr))

/-- `strh r0, [r1]` stores a halfword whose sign is set. LDRH returns it, and LDRSH does not. -/
theorem store_load_iff_first :
    Store.strh1.Law .ldrh1 (fun _ => false) (storeMcu 0x8008 0x8000 fun _ => 1) 0x8008 0 ∧
      ¬ Store.strh1.Law .ldrsh (fun _ => false) (storeMcu 0x8008 0x8000 fun _ => 1) 0x8008 0 := by
  have law := (store_load_iff (fun _ => false) .strh1 (storeMcu 0x8008 0x8000 fun _ => 1) 0x8008 0
    rfl (fetched_storeMcu 0x8008 0x8000 fun _ => 1) rfl rfl).2
  have fits : Width.half.Fits (fun _ => 1) 0 0x8000 := fun isByte => nomatch isByte
  refine ⟨(law .ldrh1 rfl).mpr ⟨fits, fun signed => nomatch signed⟩, fun holds => ?_⟩
  rcases ((law .ldrsh rfl).mp holds).2 rfl with isWord | clear
  · cases isWord
  · cases clear

/-- Storing 0 into the first of the bytes 1, 1, 1, 1 leaves 0, 1, 0, 0. -/
theorem not_store_load_neighbours :
    ¬ Store.strb1.Exact (fun _ => false) (storeMcu 0x7008 0 fun _ => 1) 0x7008 0 := by
  intro law
  have at_ : (storeMcu 0x7008 0 fun _ => 1).memDevAt
      (Store.strb1.addr (storeMcu 0x7008 0 fun _ => 1) 0x7008) = some (.ram, 0) := rfl
  have encoded : Store.strb1.Encodes 0x7008 := rfl
  have step := step_store .strb1 (fun _ => false) encoded (fetched_storeMcu 0x7008 0 fun _ => 1) at_
  unfold Store.Exact at law
  rw [law] at step
  injection step with _ same
  have third := congrFun (congrArg Mcu.ram same) 2
  exact absurd third (by decide)

end LoadStore

end TheFirmware.Simulator
