import TheFirmware.Simulator.Download
import TheFirmware.Simulator.Operands

/-!
# Register packets

The packet `p` asks gdb's server for a register, which is answered in the byte order of the target.
The packet `P` sets a register to what `strtol` reads, one big number, so that the bytes arrive in
the other order. It does not check the number of the register: only the low 32 bits of it are taken,
and a number behind the last register is an element behind the array (`register_packets_iff`).
-/

namespace TheFirmware.Simulator

open Instr16 CString Cells

/-- The packet has the body, and a checksum. -/
def IsPacket (body packet : List UInt8) : Prop :=
  ∃ checksum : List UInt8, checksum.length = 2 ∧ IsNumber checksum body.sum.toNat ∧
    packet = 0x24 :: body ++ 0x23 :: checksum

/-- A server for the MCU has received the packet for a body. -/
structure Gdb.Received (gdb : Gdb) (mcu : Mcu) (p : Nat) (body packet : List UInt8) : Prop where
  mcu : gdb.mcu = mcu
  isPacket : IsPacket body packet
  held : Holds gdb.revBuffer p packet
  inside : p + packet.length ≤ gdb.revBufferLength

/-- What is sent arrives. -/
structure Gdb.Works (gdb : Gdb) : Prop where
  connected : gdb.connected = true
  accepts : ∀ sent, gdb.accepts sent = true

/-- What a server sends when it answers with a text: an acknowledgement and a packet. -/
def answer (text : List UInt8) : List UInt8 :=
  ascii "+\n" ++ ascii "$" ++ text ++ ascii "#" ++ hexText text.sum.toUInt32 1

/-- A packet `p` with the number of a register is answered with a text. -/
def Answers (pastTable : UInt32 → Bool) (mcu : Mcu) (n : Nat) (text : List UInt8) : Prop :=
  ∀ (gdb : Gdb) (p : Nat) (digits packet : List UInt8), IsNumber digits n →
    gdb.Received mcu p (0x70 :: digits) packet → gdb.Works →
    ∃ gdb', gdbHandlePacket pastTable gdb p packet.length = .ok true gdb' ∧ gdb'.mcu = mcu ∧
      gdb'.sent = gdb.sent ++ answer text

/-- A packet `P` with the number of a register and a text leaves the MCU `mcu'`. -/
def Writes (pastTable : UInt32 → Bool) (mcu mcu' : Mcu) (n : Nat) (text : List UInt8) : Prop :=
  ∀ (gdb : Gdb) (p : Nat) (digits packet : List UInt8), IsNumber digits n →
    gdb.Received mcu p (0x50 :: (digits ++ 0x3D :: text)) packet →
    ∃ gdb', gdbHandlePacket pastTable gdb p packet.length = .ok true gdb' ∧ gdb'.mcu = mcu'

/-- The hexadecimal text of a value is written and is then the answer. -/
def WritesThrough (pastTable : UInt32 → Bool) (mcu : Mcu) (n : Nat) (val : UInt32) : Prop :=
  ∃ mcu', Writes pastTable mcu mcu' n (hexText val 4) ∧ Answers pastTable mcu' n (hexText val 4)

/-- The elements of `regs` that `mcu_write_reg` accesses. -/
def accessed (mcu : Mcu) (reg : Reg) : List Reg :=
  if reg = regSp then [regSp, mcu.stackPointer]
  else if reg = regApsr ∨ reg = regIpsr ∨ reg = regEpsr then [regXpsr]
  else [reg]

/-- The elements that the packet `P` accesses: those that a reset writes when the PC is set to 0. -/
def accessedBy (mcu : Mcu) (reg : Reg) (val : UInt32) : List Reg :=
  if reg = regPc ∧ val = 0 then accessed mcu regSp ++ accessed mcu regPc ++ accessed mcu regEpsr
  else accessed mcu reg

/-- A packet `P` with two numbers leaves the MCU as it is, and accesses no element outside of the
array. -/
def LeavesAlone (pastTable : UInt32 → Bool) (mcu : Mcu) (n k : Nat) : Prop :=
  (∀ text, IsNumber text k → Writes pastTable mcu mcu n text) ∧
    ∀ i ∈ accessedBy mcu (strtolWord n).toNat (strtolWord k), i < regCount

/-- The bits that a register takes of a value. -/
def regMask (reg : Reg) : UInt32 :=
  if reg = regPc then ~~~ 1
  else if reg = regApsr then 0xF0000000
  else if reg = regIpsr then 0x1F
  else if reg = regEpsr then 0x1000000
  else 0xFFFFFFFF

/-- A register holds a value that is written to it. Where the PC is set to 0, the MCU is as a reset
leaves it. -/
def HoldsAlready (mcu : Mcu) (reg : Reg) (val : UInt32) : Prop :=
  if reg = regPc ∧ val = 0 then (mcuReset mcu).2 = mcu
  else mcuReadReg mcu reg = val &&& regMask reg

/-! ## Hexadecimal texts -/

section Texts

theorem hexDigit_toHex {x : UInt32} (small : x.toNat < 16) : hexDigit (toHex x) = some x.toNat := by
  have number : x = .ofNat x.toNat := UInt32.ofNat_toNat.symm
  generalize x.toNat = k at small number
  subst number
  interval_cases k
  all_goals decide

theorem isxdigit_toHex {x : UInt32} (small : x.toNat < 16) : isxdigit (toHex x) = true := by
  unfold isxdigit
  rw [hexDigit_toHex small]
  rfl

theorem hexValue_append (front : List UInt8) (c : UInt8) :
    hexValue (front ++ [c]) = 16 * hexValue front + (hexDigit c).getD 0 := by
  unfold hexValue
  rw [List.foldl_append]
  rfl

/-- The two digits of the byte that is shown at an index. -/
def byteDigits (number : UInt32) (i : Nat) : List UInt8 :=
  let c : UInt32 := (number >>> .ofNat (i * 8)) &&& (0xFF : UInt32)
  [toHex ((c >>> 4) &&& (0xF : UInt32)), toHex (c &&& (0xF : UInt32))]

theorem hexText_succ (number : UInt32) (n : Nat) :
    hexText number (n + 1) = hexText number n ++ byteDigits number n := by
  unfold hexText
  rw [List.range_succ, List.flatMap_append, List.flatMap_singleton]
  rfl

theorem toNat_nibble (c : UInt32) : (c &&& (0xF : UInt32)).toNat = c.toNat % 16 := by
  have mask : (0xF : UInt32).toNat = 2 ^ 4 - 1 := rfl
  rw [UInt32.toNat_and, mask, Nat.and_two_pow_sub_one_eq_mod]

theorem isxdigit_hexText (number : UInt32) (n : Nat) :
    ∀ c ∈ hexText number n, isxdigit c = true := by
  have nibble : ∀ c : UInt32, (c &&& (0xF : UInt32)).toNat < 16 := fun c => by
    rw [toNat_nibble]
    exact Nat.mod_lt _ (by decide)
  induction n with
  | zero => exact nofun
  | succ n ih =>
    intro c mem
    rw [hexText_succ, List.mem_append] at mem
    rcases mem with mem | mem
    · exact ih c mem
    · rcases List.mem_pair.mp mem with rfl | rfl
      · exact isxdigit_toHex (nibble _)
      · exact isxdigit_toHex (nibble _)

/-- The bytes are shown from the lowest one on. -/
theorem hexValue_hexText_succ (number : UInt32) {n : Nat} (small : n < 4) :
    hexValue (hexText number (n + 1)) =
      256 * hexValue (hexText number n) + number.toNat / 2 ^ (8 * n) % 2 ^ 8 := by
  have byte : ((number >>> .ofNat (n * 8)) &&& (0xFF : UInt32)).toNat =
      number.toNat / 2 ^ (8 * n) % 2 ^ 8 := by
    have mask : (0xFF : UInt32).toNat = 2 ^ 8 - 1 := rfl
    have shift : (UInt32.ofNat (n * 8)).toNat % 32 = 8 * n := by
      rw [UInt32.toNat_ofNat']
      omega
    rw [UInt32.toNat_and, UInt32.toNat_shiftRight, shift, mask, Nat.and_two_pow_sub_one_eq_mod,
      Nat.shiftRight_eq_div_pow]
  have high : ∀ c : UInt32, c.toNat < 2 ^ 8 →
      ((c >>> 4) &&& (0xF : UInt32)).toNat = c.toNat / 16 := by
    intro c lt
    have four : (4 : UInt32).toNat % 32 = 4 := rfl
    rw [toNat_nibble, UInt32.toNat_shiftRight, four, Nat.shiftRight_eq_div_pow]
    omega
  have lt : number.toNat / 2 ^ (8 * n) % 2 ^ 8 < 2 ^ 8 := Nat.mod_lt _ (by decide)
  rw [← byte] at lt ⊢
  have pair : ∀ a b : UInt8, hexText number n ++ [a, b] = hexText number n ++ [a] ++ [b] := by
    intro a b
    rw [List.append_assoc]
    rfl
  rw [hexText_succ, byteDigits]
  generalize (number >>> .ofNat (n * 8)) &&& (0xFF : UInt32) = c at lt ⊢
  have first := hexDigit_toHex (x := (c >>> 4) &&& (0xF : UInt32)) (by rw [high c lt]; omega)
  have second := hexDigit_toHex (x := c &&& (0xF : UInt32)) (by rw [toNat_nibble]; omega)
  rw [pair, hexValue_append, hexValue_append, first, second, high c lt, toNat_nibble]
  show 16 * (16 * _ + c.toNat / 16) + c.toNat % 16 = _
  omega

/-- The text of a byte reads as the byte. -/
theorem isNumber_byte (c : UInt8) : IsNumber (hexText c.toUInt32 1) c.toNat := by
  have bound := c.toNat_lt
  refine ⟨List.cons_ne_nil _ _, isxdigit_hexText _ _, ?_⟩
  rw [hexValue_hexText_succ _ (by decide), UInt8.toNat_toUInt32]
  show 256 * 0 + c.toNat / 2 ^ 0 % 2 ^ 8 = c.toNat
  omega

/-- The higher bytes of a word, one after the other. -/
theorem div_bytes (n : Nat) :
    n / 2 ^ 16 = n / 2 ^ 8 / 2 ^ 8 ∧ n / 2 ^ 24 = n / 2 ^ 8 / 2 ^ 8 / 2 ^ 8 := by
  rw [Nat.div_div_eq_div_mul, Nat.div_div_eq_div_mul]
  exact ⟨rfl, rfl⟩

theorem toNat_reversed (v : UInt32) : (reversed v).toNat =
    2 ^ 24 * (v.toNat % 2 ^ 8) + 2 ^ 16 * (v.toNat / 2 ^ 8 % 2 ^ 8) +
      2 ^ 8 * (v.toNat / 2 ^ 8 / 2 ^ 8 % 2 ^ 8) + v.toNat / 2 ^ 8 / 2 ^ 8 / 2 ^ 8 % 2 ^ 8 := by
  have bytes := congrArg BitVec.toNat (toBitVec_reversed v v)
  have shown : (FieldOp.rev.value v.toBitVec v.toBitVec).toNat = (byteOf v.toBitVec 0 ++
    byteOf v.toBitVec 1 ++ byteOf v.toBitVec 2 ++ byteOf v.toBitVec 3).toNat := rfl
  rw [shown, AddWithCarry.toNat_append_eq, AddWithCarry.toNat_append_eq,
    AddWithCarry.toNat_append_eq, toNat_byteOf, toNat_byteOf, toNat_byteOf, toNat_byteOf,
    UInt32.toNat_toBitVec, UInt32.toNat_toBitVec] at bytes
  have literal : (reversed v).toNat = 2 ^ 8 * (2 ^ 8 * (2 ^ 8 * (v.toNat / 2 ^ 0 % 2 ^ 8) +
    v.toNat / 2 ^ 8 % 2 ^ 8) + v.toNat / 2 ^ 16 % 2 ^ 8) + v.toNat / 2 ^ 24 % 2 ^ 8 := bytes
  rw [(div_bytes _).1, (div_bytes _).2] at literal
  omega

/-- The text of a word reads as the word with its bytes in the other order. -/
theorem isNumber_word (v : UInt32) : IsNumber (hexText v 4) (reversed v).toNat := by
  refine ⟨List.cons_ne_nil _ _, isxdigit_hexText _ _, ?_⟩
  rw [hexValue_hexText_succ _ (by decide), hexValue_hexText_succ _ (by decide),
    hexValue_hexText_succ _ (by decide), hexValue_hexText_succ _ (by decide), toNat_reversed]
  show 256 * (256 * (256 * (256 * 0 + v.toNat / 2 ^ 0 % 2 ^ 8) + v.toNat / 2 ^ 8 % 2 ^ 8) +
    v.toNat / 2 ^ 16 % 2 ^ 8) + v.toNat / 2 ^ 24 % 2 ^ 8 = _
  rw [(div_bytes _).1, (div_bytes _).2]
  omega

theorem reversed_reversed (v : UInt32) : reversed (reversed v) = v := by
  have bound := v.toNat_lt
  have value := toNat_reversed v
  generalize reversed v = w at value ⊢
  have first : w.toNat / 2 ^ 8 = 2 ^ 16 * (v.toNat % 2 ^ 8) + 2 ^ 8 * (v.toNat / 2 ^ 8 % 2 ^ 8) +
      v.toNat / 2 ^ 8 / 2 ^ 8 % 2 ^ 8 := by omega
  have second : w.toNat / 2 ^ 8 / 2 ^ 8 = 2 ^ 8 * (v.toNat % 2 ^ 8) + v.toNat / 2 ^ 8 % 2 ^ 8 := by
    omega
  have byte₀ : w.toNat % 2 ^ 8 = v.toNat / 2 ^ 8 / 2 ^ 8 / 2 ^ 8 := by omega
  have byte₁ : w.toNat / 2 ^ 8 % 2 ^ 8 = v.toNat / 2 ^ 8 / 2 ^ 8 % 2 ^ 8 := by omega
  have byte₂ : w.toNat / 2 ^ 8 / 2 ^ 8 % 2 ^ 8 = v.toNat / 2 ^ 8 % 2 ^ 8 := by omega
  have byte₃ : w.toNat / 2 ^ 8 / 2 ^ 8 / 2 ^ 8 % 2 ^ 8 = v.toNat % 2 ^ 8 := by omega
  apply UInt32.toNat_inj.mp
  rw [toNat_reversed, byte₀, byte₁, byte₂, byte₃]
  omega

theorem hexText_inj {v w : UInt32} (same : hexText v 4 = hexText w 4) : v = w := by
  have value : (reversed v).toNat = (reversed w).toNat := by
    rw [← (isNumber_word v).value, same, (isNumber_word w).value]
  rw [← reversed_reversed v, UInt32.toNat_inj.mp value, reversed_reversed]

/-- Every number has a text. -/
theorem exists_digits (n : Nat) : ∃ digits, IsNumber digits n := by
  induction n using Nat.strong_induction_on with
  | h n ih =>
    have low : (UInt32.ofNat (n % 16)).toNat = n % 16 := by
      rw [UInt32.toNat_ofNat']
      omega
    have small : (UInt32.ofNat (n % 16)).toNat < 16 := by omega
    have last : (hexDigit (toHex (.ofNat (n % 16)))).getD 0 = n % 16 := by
      rw [hexDigit_toHex small, low]
      rfl
    by_cases one : n < 16
    · refine ⟨[toHex (.ofNat (n % 16))], List.cons_ne_nil _ _, ?_, ?_⟩
      · intro c mem
        rw [List.mem_singleton.mp mem]
        exact isxdigit_toHex small
      · show 16 * 0 + (hexDigit _).getD 0 = n
        rw [last]
        omega
    · rcases ih (n / 16) (by omega) with ⟨digits, number⟩
      refine ⟨digits ++ [toHex (.ofNat (n % 16))], by simp, ?_, ?_⟩
      · intro c mem
        rcases List.mem_append.mp mem with mem | mem
        · exact number.digit c mem
        · rw [List.mem_singleton.mp mem]
          exact isxdigit_toHex small
      · rw [hexValue_append, number.value, last]
        omega

end Texts

/-! ## Sending -/

section Sending

variable {gdb : Gdb} {text : List UInt8}

theorem Gdb.Works.write (works : gdb.Works) (bytes : List UInt8) :
    gdbWrite gdb bytes = (true, { gdb with sent := gdb.sent ++ bytes }) :=
  if_pos ⟨works.connected, works.accepts gdb.sent⟩

/-- A text without bytes that are escaped is sent as it is. -/
theorem Gdb.Works.sendStr (works : gdb.Works) (plain : Plain text) :
    gdbSendPacketStr gdb text = (true, { gdb with
      packetChecksum := gdb.packetChecksum + text.sum
      sent := gdb.sent ++ text }) := by
  induction text generalizing gdb with
  | nil =>
    rw [List.sum_nil, List.append_nil]
    unfold gdbSendPacketStr
    rw [UInt8.add_zero]
  | cons c text ih =>
    rcases plain_cons.mp plain with ⟨notSpecial, plain⟩
    have works' : Gdb.Works { gdb with packetChecksum := gdb.packetChecksum + c } :=
      ⟨works.connected, works.accepts⟩
    have sent : gdbSendPacketChar gdb c = (true, { gdb with
        packetChecksum := gdb.packetChecksum + c
        sent := gdb.sent ++ [c] }) := by
      unfold gdbSendPacketChar
      exact (if_neg notSpecial).trans (works'.write [c])
    have works₁ : Gdb.Works { gdb with
        packetChecksum := gdb.packetChecksum + c
        sent := gdb.sent ++ [c] } := ⟨works.connected, works.accepts⟩
    unfold gdbSendPacketStr
    rw [sent]
    dsimp only
    rw [ih works₁ plain, List.sum_cons, UInt8.add_assoc, List.append_assoc]
    rfl

/-- Digits are not escaped. -/
theorem plain_hexText (number : UInt32) (n : Nat) : Plain (hexText number n) := by
  intro c mem
  have digit := isxdigit_hexText number n c mem
  rintro (eq | eq | eq)
  · exact ne_of_isxdigit digit (by decide) eq
  · exact ne_of_isxdigit digit (by decide) eq
  · exact ne_of_isxdigit digit (by decide) eq

/-- What is sent for a packet with one text. -/
theorem Gdb.Works.sendPacket (works : gdb.Works) (plain : Plain text) :
    (gdbSendPacket gdb [text]).sent =
      gdb.sent ++ ascii "$" ++ text ++ ascii "#" ++ hexText text.sum.toUInt32 1 := by
  have works₀ : Gdb.Works { gdb with packetChecksum := 0 } := ⟨works.connected, works.accepts⟩
  have works₁ : Gdb.Works { gdb with
      packetChecksum := 0
      sent := gdb.sent ++ ascii "$" } := ⟨works.connected, works.accepts⟩
  have works₂ : Gdb.Works { gdb with
      packetChecksum := 0 + text.sum
      sent := gdb.sent ++ ascii "$" ++ text } := ⟨works.connected, works.accepts⟩
  have works₃ : Gdb.Works { gdb with
      packetChecksum := 0 + text.sum
      sent := gdb.sent ++ ascii "$" ++ text ++ ascii "#" } := ⟨works.connected, works.accepts⟩
  have begun : gdbSendPacketBegin gdb = (true, { gdb with
      packetChecksum := 0
      sent := gdb.sent ++ ascii "$" }) := works₀.write _
  have body := works₁.sendStr plain
  have ended := works₂.write (ascii "#")
  have checksum := works₃.sendStr (plain_hexText (0 + text.sum).toUInt32 1)
  unfold gdbSendPacket
  dsimp only
  rw [begun]
  dsimp only [List.foldl]
  rw [body]
  dsimp only
  unfold gdbSendPacketEnd
  rw [ended]
  dsimp only
  rw [checksum, UInt8.zero_add]

end Sending

/-! ## Receiving -/

section Receiving

variable {gdb : Gdb} {mcu : Mcu} {p : Nat} {body packet text digits : List UInt8} {n : Nat}

/-- A packet without escapes is acknowledged and dispatched. -/
theorem Gdb.Received.dispatched (pastTable : UInt32 → Bool)
    (received : gdb.Received mcu p body packet) (plain : ∀ c ∈ body, c ≠ 0 ∧ c ≠ 0x7D ∧ c ≠ 0x23) :
    ∃ gdb', gdbHandlePacket pastTable gdb p packet.length = gdbDispatch pastTable gdb' (p + 1) ∧
      gdb'.mcu = mcu ∧ Holds gdb'.revBuffer (p + 1) (body ++ [0]) ∧
      p + 1 + body.length < gdb'.revBufferLength ∧
      (gdb.Works → gdb'.Works ∧ gdb'.sent = gdb.sent ++ ascii "+\n") := by
  rcases received with ⟨rfl, ⟨checksum, two, number, rfl⟩, held, inside⟩
  have noHash : 0x23 ∉ body := fun mem => (plain _ mem).2.2 rfl
  rcases gdbHandlePacket_accepts pastTable held noHash two number with
    ⟨gdb₁, accepted, mcu₁, length₁, held₁, revBuffer, acknowledged⟩
  simp only [List.length_append, List.length_cons, List.cons_append] at inside
  have short : p + 1 + body.length < gdb₁.revBufferLength := by
    rw [length₁]
    omega
  have text : Holds gdb₁.revBuffer (p + 1) (body ++ escape [] ++ [0]) := by
    rw [show escape [] = [] from rfl, List.append_nil]
    exact held₁
  rcases decoded_string (fun c mem => ⟨(plain c mem).1, (plain c mem).2.1⟩) List.not_mem_nil text
    (show _ < gdb₁.revBufferLength - (p + 1) by
      rw [show escape [] = [] from rfl, List.append_nil]
      omega) with ⟨l, _, decoded, after⟩
  refine ⟨gdbUnescape gdb₁ (p + 1), accepted, mcu₁, ?_, short, fun works => ?_⟩
  · rw [holds_append_iff] at held₁ decoded
    rw [holds_append_iff]
    refine ⟨decoded.1, held₁.2.congr fun i _ => ?_⟩
    refine after _ ?_
    rw [show escape [] = [] from rfl, List.append_nil]
    omega
  · have works' : Gdb.Works { gdb with revBuffer } := ⟨works.connected, works.accepts⟩
    have sent : gdb₁ = { gdb with
        revBuffer
        sent := gdb.sent ++ ascii "+\n" } :=
      acknowledged.trans (congrArg Prod.snd (works'.write _))
    rw [sent]
    exact ⟨⟨works.connected, works.accepts⟩, rfl⟩

theorem plain_digits (number : IsNumber digits n) {c : UInt8} (mem : c ∈ digits) :
    c ≠ 0 ∧ c ≠ 0x7D ∧ c ≠ 0x23 := by
  have digit := number.digit c mem
  exact ⟨ne_of_isxdigit digit (by decide), ne_of_isxdigit digit (by decide),
    ne_of_isxdigit digit (by decide)⟩

theorem gdbDispatch_readReg (pastTable : UInt32 → Bool) (command : gdb.revBuffer p = 0x70) :
    gdbDispatch pastTable gdb p = .ok true (gdbReadReg gdb (p + 1)) := by
  unfold gdbDispatch
  dsimp only
  rw [command]
  iterate 4 rw [if_neg (by decide)]
  exact if_pos rfl

theorem gdbDispatch_writeReg (pastTable : UInt32 → Bool) (command : gdb.revBuffer p = 0x50) :
    gdbDispatch pastTable gdb p = gdbWriteReg gdb (p + 1) := by
  unfold gdbDispatch
  dsimp only
  rw [command]
  iterate 5 rw [if_neg (by decide)]
  exact if_pos rfl

/-- The packet `p` is answered with the text of a register. -/
theorem answers_hexText (pastTable : UInt32 → Bool) (mcu : Mcu) (inside : n < regCount) :
    Answers pastTable mcu n (hexText (mcuReadReg mcu n) 4) := by
  intro gdb p digits packet number received works
  have plain : ∀ c ∈ (0x70 : UInt8) :: digits, c ≠ 0 ∧ c ≠ 0x7D ∧ c ≠ 0x23 := by
    intro c mem
    rcases List.mem_cons.mp mem with rfl | mem
    · decide
    · exact plain_digits number mem
  rcases received.dispatched pastTable plain with ⟨gdb', handled, same, held, short, sent⟩
  rw [List.cons_append, holds_cons_iff] at held
  rw [List.length_cons] at short
  have small : n < 2 ^ 32 := inside.trans (by decide)
  have read : gdb'.strtol (p + 1 + 1) = (.ofNat n, p + 1 + 1 + digits.length) :=
    Gdb.strtol_number held.2 (by omega) number small (by decide) (by decide)
  have toNat : (UInt32.ofNat n).toNat = n := by
    rw [UInt32.toNat_ofNat']
    omega
  have answered : gdbReadReg gdb' (p + 1 + 1) =
      gdbSendPacket gdb' [hexText (mcuReadReg mcu n) 4] := by
    unfold gdbReadReg
    rw [read]
    dsimp only
    rw [toNat, if_pos inside, same]
  refine ⟨_, handled.trans (gdbDispatch_readReg pastTable held.1), ?_, ?_⟩
  · rw [answered, (sends_gdbSendPacket gdb' _).mcu, same]
  · rw [answered, (sent works).1.sendPacket (plain_hexText _ 4), (sent works).2]
    unfold answer
    simp only [List.append_assoc]

/-- What the packet `P` leaves. -/
def written (mcu : Mcu) (reg : Reg) (val : UInt32) : Mcu :=
  if reg = regPc ∧ val = 0 then (mcuReset mcu).2 else mcuWriteReg mcu reg val

/-- What happens to a packet `P` with two numbers: it is carried out if the first one names a
register. -/
theorem handled_writeReg {k : Nat} (pastTable : UInt32 → Bool) (number : IsNumber digits n)
    (value : IsNumber text k) (received : gdb.Received mcu p (0x50 :: (digits ++ 0x3D :: text)) packet) :
    ∃ gdb', gdb'.mcu = mcu ∧ gdbHandlePacket pastTable gdb p packet.length =
      if ¬ Names (strtolWord n).toNat then .error .wildStore gdb'
      else .ok true (gdbSendPacket { gdb' with
        mcu := written mcu (strtolWord n).toNat (strtolWord k) } [ascii "OK"]) := by
  have plain : ∀ c ∈ (0x50 : UInt8) :: (digits ++ 0x3D :: text), c ≠ 0 ∧ c ≠ 0x7D ∧ c ≠ 0x23 := by
    intro c mem
    rcases List.mem_cons.mp mem with rfl | mem
    · decide
    · rcases List.mem_append.mp mem with mem | mem
      · exact plain_digits number mem
      · rcases List.mem_cons.mp mem with rfl | mem
        · decide
        · exact plain_digits value mem
  rcases received.dispatched pastTable plain with ⟨gdb', handled, same, held, short, _⟩
  have parts : (0x50 :: (digits ++ 0x3D :: text)) ++ [0] =
      0x50 :: ((digits ++ [0x3D]) ++ (text ++ [0])) := by simp
  rw [parts, holds_cons_iff, holds_append_iff, List.length_append, List.length_singleton] at held
  rw [List.length_cons, List.length_append, List.length_cons] at short
  have reg : gdb'.strtol (p + 1 + 1) = (strtolWord n, p + 1 + 1 + digits.length) :=
    Gdb.strtol_word held.2.1 (by omega) number (by decide) (by decide)
  have val : gdb'.strtol (p + 1 + 1 + digits.length + 1) =
      (strtolWord k, p + 1 + 1 + digits.length + 1 + text.length) :=
    Gdb.strtol_word held.2.2 (by omega) value (by decide) (by decide)
  refine ⟨gdb', same, (handled.trans (gdbDispatch_writeReg pastTable held.1)).trans ?_⟩
  unfold gdbWriteReg
  rw [reg]
  dsimp only
  rw [val]
  dsimp only
  rw [same]
  rfl

theorem writes_written {k : Nat} (pastTable : UInt32 → Bool) (mcu : Mcu)
    (names : Names (strtolWord n).toNat) (value : IsNumber text k) :
    Writes pastTable mcu (written mcu (strtolWord n).toNat (strtolWord k)) n text := by
  intro gdb p digits packet number received
  rcases handled_writeReg pastTable number value received with ⟨gdb', -, handled⟩
  rw [if_neg (not_not.mpr names)] at handled
  exact ⟨_, handled, (sends_gdbSendPacket _ _).mcu⟩

end Receiving

/-! ## One server that asks -/

section Asking

variable {mcu mcu' : Mcu} {text text' : List UInt8} {n k : Nat} {pastTable : UInt32 → Bool}

/-- The packet for a body. -/
def packetOf (body : List UInt8) : List UInt8 :=
  0x24 :: body ++ 0x23 :: hexText body.sum.toUInt32 1

/-- A server for the MCU that has received the packet for a body. -/
def askedGdb (mcu : Mcu) (body : List UInt8) : Gdb :=
  { receivedGdb (packetOf body) with
    mcu
    revBufferLength := (packetOf body).length }

theorem received_askedGdb (mcu : Mcu) (body : List UInt8) :
    (askedGdb mcu body).Received mcu 0 body (packetOf body) where
  mcu := rfl
  isPacket := ⟨_, rfl, isNumber_byte _, rfl⟩
  held := holds_receivedGdb (packetOf body)
  inside := (Nat.zero_add _).le

/-- A packet `P` leaves one MCU only, if its number names a register. -/
theorem writes_iff (value : IsNumber text k) :
    Writes pastTable mcu mcu' n text ↔
      Names (strtolWord n).toNat ∧ mcu' = written mcu (strtolWord n).toNat (strtolWord k) := by
  constructor
  · intro writes
    rcases exists_digits n with ⟨digits, number⟩
    have received := received_askedGdb mcu (0x50 :: (digits ++ 0x3D :: text))
    rcases writes _ 0 digits _ number received with ⟨gdb₁, handled, rfl⟩
    rcases handled_writeReg pastTable number value received with ⟨gdb₂, -, handled'⟩
    rw [handled] at handled'
    split_ifs at handled' with names
    cases handled'
    exact ⟨names, (sends_gdbSendPacket _ _).mcu⟩
  · rintro ⟨names, rfl⟩
    exact writes_written pastTable mcu names value

/-- An answer says which text it is for. -/
theorem answer_inj (same : answer text = answer text') : text = text' := by
  unfold answer at same
  simp only [List.append_assoc, List.append_cancel_left_eq] at same
  have length := congrArg List.length same
  simp only [List.length_append] at length
  have pair : ∀ c : UInt8, (hexText c.toUInt32 1).length = 2 := fun c => rfl
  rw [pair, pair] at length
  exact (List.append_inj same (by omega)).1

/-- A packet `p` has one answer only. -/
theorem answers_iff (inside : n < regCount) :
    Answers pastTable mcu n text ↔ text = hexText (mcuReadReg mcu n) 4 := by
  constructor
  · intro answers
    rcases exists_digits n with ⟨digits, number⟩
    have received := received_askedGdb mcu (0x70 :: digits)
    have works : (askedGdb mcu (0x70 :: digits)).Works := ⟨rfl, fun _ => rfl⟩
    rcases answers _ 0 digits _ number received works with ⟨gdb₁, handled, _, sent⟩
    rcases answers_hexText pastTable mcu inside _ 0 digits _ number received works with
      ⟨gdb₂, handled', _, sent'⟩
    rw [handled] at handled'
    cases handled'
    rw [sent] at sent'
    exact answer_inj (List.append_cancel_left sent')
  · rintro rfl
    exact answers_hexText pastTable mcu inside

end Asking

/-! ## Registers -/

section Registers

variable {mcu : Mcu} {reg : Reg} {val : UInt32} {pastTable : UInt32 → Bool}

/-- Some bits of a word are replaced by what they are. -/
theorem replace_iff (x mask val : UInt32) :
    (x &&& ~~~ mask) ||| (val &&& mask) = x ↔ x &&& mask = val &&& mask := by
  rw [← UInt32.toBitVec_inj, ← UInt32.toBitVec_inj, BitVec.eq_of_getElem_eq_iff,
    BitVec.eq_of_getElem_eq_iff]
  refine forall_congr' fun i => forall_congr' fun small => ?_
  simp only [UInt32.toBitVec_or, UInt32.toBitVec_and, UInt32.toBitVec_not, BitVec.getElem_or,
    BitVec.getElem_and, BitVec.getElem_not]
  cases x.toBitVec[i] <;> cases mask.toBitVec[i] <;> cases val.toBitVec[i] <;> decide

theorem setReg_iff : mcu.setReg reg val = mcu ↔
    (if reg = regPc then val &&& ~~~ 1 else val) = mcu.regs reg := by
  constructor
  · intro same
    have value := congrFun (congrArg Mcu.regs same) reg
    rw [← value]
    exact (Function.update_self reg _ mcu.regs).symm
  · exact setReg_eq_self

/-- The registers that are not mapped to others. -/
theorem unmapped (notSp : reg ≠ regSp) (notApsr : reg ≠ regApsr) (notIpsr : reg ≠ regIpsr)
    (notEpsr : reg ≠ regEpsr) (mcu : Mcu) (val : UInt32) :
    mcuWriteReg mcu reg val = mcu.setReg reg val ∧ mcuReadReg mcu reg = mcu.regs reg := by
  constructor
  · unfold mcuWriteReg
    rw [if_neg notSp]
    dsimp only
    rw [if_neg notApsr, if_neg notIpsr, if_neg notEpsr]
  · unfold mcuReadReg
    rw [if_neg notSp, if_neg notApsr, if_neg notIpsr, if_neg notEpsr]

/-- A write to a part of `xPSR` changes nothing if the part holds the value. -/
theorem setXpsr_iff (mcu : Mcu) (mask val : UInt32) :
    mcu.setXpsr mask val = mcu ↔ mcu.regs regXpsr &&& mask = val &&& mask := by
  unfold Mcu.setXpsr
  rw [setReg_iff, if_neg (show regXpsr ≠ regPc by decide)]
  exact replace_iff _ mask val

/-- A write to a register changes nothing exactly when it holds the value. -/
theorem writeReg_iff (names : Names reg) (mcu : Mcu) (val : UInt32) :
    mcuWriteReg mcu reg val = mcu ↔ mcuReadReg mcu reg = val &&& regMask reg := by
  have whole : val &&& 0xFFFFFFFF = val := UInt32.and_neg_one
  by_cases isSp : reg = regSp
  · subst isSp
    have notPc : mcu.stackPointer ≠ regPc := (stackPointer_ge mcu).1.ne'
    have mask : regMask regSp = 0xFFFFFFFF := rfl
    rw [mcuWriteReg_regSp, setReg_iff, if_neg notPc, mcuReadReg_regSp, mask, whole]
    exact eq_comm
  · by_cases isApsr : reg = regApsr
    · subst isApsr
      exact setXpsr_iff mcu 0xF0000000 val
    · by_cases isIpsr : reg = regIpsr
      · subst isIpsr
        exact setXpsr_iff mcu 0x1F val
      · by_cases isEpsr : reg = regEpsr
        · subst isEpsr
          exact setXpsr_iff mcu 0x1000000 val
        · rcases unmapped isSp isApsr isIpsr isEpsr mcu val with ⟨writes, reads⟩
          rw [writes, reads, setReg_iff, eq_comm]
          unfold regMask
          rw [if_neg isApsr, if_neg isIpsr, if_neg isEpsr]
          split
          · exact Iff.rfl
          · rw [whole]

/-- A write changes no element but those that are accessed. -/
theorem writeReg_accessed (mcu : Mcu) (reg : Reg) (val : UInt32) :
    ∃ r ∈ accessed mcu reg, ∃ v, mcuWriteReg mcu reg val = mcu.setReg r v := by
  unfold accessed
  by_cases isSp : reg = regSp
  · subst isSp
    exact ⟨mcu.stackPointer, by simp, val, mcuWriteReg_regSp mcu val⟩
  · rw [if_neg isSp]
    by_cases isApsr : reg = regApsr
    · subst isApsr
      exact ⟨regXpsr, by simp, _, rfl⟩
    · by_cases isIpsr : reg = regIpsr
      · subst isIpsr
        exact ⟨regXpsr, by simp, _, rfl⟩
      · by_cases isEpsr : reg = regEpsr
        · subst isEpsr
          exact ⟨regXpsr, by simp, _, rfl⟩
        · have plain : ¬ (reg = regApsr ∨ reg = regIpsr ∨ reg = regEpsr) := by tauto
          rw [if_neg plain]
          exact ⟨reg, by simp, val, (unmapped isSp isApsr isIpsr isEpsr mcu val).1⟩

/-- The elements that are accessed lie in the array exactly for the registers. -/
theorem accessed_inside_iff (mcu : Mcu) (reg : Reg) :
    (∀ i ∈ accessed mcu reg, i < regCount) ↔ Names reg := by
  have sp : mcu.stackPointer < regCount := by
    rcases stackPointer_cases mcu with main | process
    · rw [main]
      decide
    · rw [process]
      decide
  unfold accessed Names
  by_cases isSp : reg = regSp
  · subst isSp
    refine iff_of_true ?_ (.inl (by decide))
    rw [if_pos rfl]
    intro i mem
    rcases List.mem_pair.mp mem with rfl | rfl
    · decide
    · exact sp
  · rw [if_neg isSp]
    by_cases part : reg = regApsr ∨ reg = regIpsr ∨ reg = regEpsr
    · rw [if_pos part]
      refine iff_of_true ?_ (.inr part)
      intro i mem
      rw [List.mem_singleton.mp mem]
      decide
    · rw [if_neg part, or_iff_left part, List.forall_mem_singleton]

theorem accessedBy_inside_iff (mcu : Mcu) (reg : Reg) (val : UInt32) :
    (∀ i ∈ accessedBy mcu reg val, i < regCount) ↔ Names reg := by
  unfold accessedBy
  split
  · rename_i reset
    rw [reset.1, List.forall_mem_append, List.forall_mem_append, accessed_inside_iff,
      accessed_inside_iff, accessed_inside_iff]
    exact iff_of_true ⟨⟨.inl (by decide), .inl (by decide)⟩, .inr (by decide)⟩ (.inl (by decide))
  · exact accessed_inside_iff mcu reg

theorem written_iff (names : Names reg) (mcu : Mcu) (val : UInt32) :
    mcu = written mcu reg val ↔ HoldsAlready mcu reg val := by
  unfold written HoldsAlready
  split
  · exact eq_comm
  · rw [eq_comm]
    exact writeReg_iff names mcu val

/-- A register but the PC takes all bits of a value. -/
theorem written_plain {n : Nat} (inside : n < regCount) (notPc : n ≠ regPc) (mcu : Mcu)
    (val : UInt32) :
    (mcu = written mcu n val ↔ val = mcuReadReg mcu n) ∧
      mcuReadReg (written mcu n val) n = val := by
  have mask : val &&& regMask n = val := by
    unfold regMask
    rw [if_neg notPc, if_neg (inside.trans (by decide)).ne, if_neg (inside.trans (by decide)).ne,
      if_neg (inside.trans (by decide)).ne]
    exact UInt32.and_neg_one
  have direct : written mcu n val = mcuWriteReg mcu n val := if_neg fun reset => notPc reset.1
  rw [direct]
  constructor
  · rw [eq_comm, writeReg_iff (.inl inside), mask, eq_comm]
  · by_cases isSp : n = regSp
    · subst isSp
      have same : (mcuWriteReg mcu regSp val).stackPointer = mcu.stackPointer := by
        unfold Mcu.stackPointer
        rw [(spSet_writeSp mcu val).regs regSp (by decide)]
      rw [mcuReadReg_regSp, same]
      exact (spSet_writeSp mcu val).sp
    · have others : ∀ mcu : Mcu, mcuWriteReg mcu n val = mcu.setReg n val ∧
          mcuReadReg mcu n = mcu.regs n := fun mcu =>
        unmapped isSp (inside.trans (by decide)).ne (inside.trans (by decide)).ne
          (inside.trans (by decide)).ne mcu val
      rw [(others mcu).1, (others (mcu.setReg n val)).2]
      exact mcu.regs_setReg_self val notPc

end Registers

section Packets

variable {mcu : Mcu} {n k : Nat} {text : List UInt8} {pastTable : UInt32 → Bool}

theorem strtolWord_toNat (inside : n < regCount) : (strtolWord n).toNat = n := by
  have small : n < 2 ^ 32 := inside.trans (by decide)
  rw [strtolWord_eq small, UInt32.toNat_ofNat', Nat.mod_eq_of_lt small]

theorem strtolWord_word (v : UInt32) : strtolWord v.toNat = v := by
  rw [strtolWord_eq v.toNat_lt, UInt32.ofNat_toNat]

/-- The answer, sent back, changes nothing exactly when the bytes of the register are the same in
both orders. -/
theorem writes_back_iff (inside : n < regCount) (notPc : n ≠ regPc)
    (answers : Answers pastTable mcu n text) :
    Writes pastTable mcu mcu n text ↔ reversed (mcuReadReg mcu n) = mcuReadReg mcu n := by
  rw [(answers_iff inside).mp answers, writes_iff (isNumber_word _), strtolWord_toNat inside,
    strtolWord_word, and_iff_right (.inl inside)]
  exact (written_plain inside notPc mcu _).1

/-- A value that is written is the answer exactly when its bytes are the same in both orders. -/
theorem writesThrough_iff (inside : n < regCount) (notPc : n ≠ regPc) (val : UInt32) :
    WritesThrough pastTable mcu n val ↔ reversed val = val := by
  have read := (written_plain inside notPc mcu (reversed val)).2
  have whole : WritesThrough pastTable mcu n val ↔
      Answers pastTable (written mcu n (reversed val)) n (hexText val 4) := by
    have writes : ∀ mcu', Writes pastTable mcu mcu' n (hexText val 4) ↔
        mcu' = written mcu n (reversed val) := by
      intro mcu'
      rw [writes_iff (isNumber_word val), strtolWord_toNat inside, strtolWord_word,
        and_iff_right (.inl inside)]
    constructor
    · rintro ⟨mcu', wrote, answers⟩
      rw [(writes mcu').mp wrote] at answers
      exact answers
    · intro answers
      exact ⟨_, (writes _).mpr rfl, answers⟩
  rw [whole, answers_iff inside, read]
  constructor
  · intro same
    exact (hexText_inj same).symm
  · intro same
    rw [same]

/-- What a packet `P` with any two numbers leaves alone. -/
theorem leavesAlone_iff : LeavesAlone pastTable mcu n k ↔
    Names (strtolWord n).toNat ∧ HoldsAlready mcu (strtolWord n).toNat (strtolWord k) := by
  have writes : (∀ text, IsNumber text k → Writes pastTable mcu mcu n text) ↔
      Names (strtolWord n).toNat ∧ mcu = written mcu (strtolWord n).toNat (strtolWord k) := by
    constructor
    · intro all
      rcases exists_digits k with ⟨text, number⟩
      exact (writes_iff number).mp (all text number)
    · intro same text number
      exact (writes_iff number).mpr same
  unfold LeavesAlone
  rw [writes, accessedBy_inside_iff, and_right_comm, and_self]
  refine and_congr_right fun names => ?_
  exact written_iff names mcu _

end Packets

/-- **Register packets**: for every state and every register but the PC that the packet `p` answers
with a text, the packet `P` with this text leaves the MCU as it is if and only if the bytes of the
register are the same in both orders, and the packet `P` with the text of a value makes it the
answer if and only if the bytes of the value are. A packet `P` whose number names no register leaves
the MCU as it is and accesses no other element if and only if the low 32 bits of the number name a
register that holds the value already, which is false for every number of 32 bits. -/
theorem register_packets_iff (pastTable : UInt32 → Bool) :
    (∀ (mcu : Mcu) (n : Nat) (text : List UInt8), n < regCount → n ≠ regPc →
      Answers pastTable mcu n text →
      (Writes pastTable mcu mcu n text ↔ reversed (mcuReadReg mcu n) = mcuReadReg mcu n) ∧
        ∀ val, WritesThrough pastTable mcu n val ↔ reversed val = val) ∧
    ∀ (mcu : Mcu) (n k : Nat), ¬ Names n →
      (LeavesAlone pastTable mcu n k ↔
        Names (strtolWord n).toNat ∧ HoldsAlready mcu (strtolWord n).toNat (strtolWord k)) := by
  constructor
  · intro mcu n text inside notPc answers
    exact ⟨writes_back_iff inside notPc answers, fun val => writesThrough_iff inside notPc val⟩
  · intro mcu n k _
    exact leavesAlone_iff

/-- The register 0 of the created MCU, the value 0x12343412, and the number 20, which names no
register. -/
theorem register_packets_iff_zero :
    Writes (fun _ => false) createdMcu createdMcu 0 (hexText 0 4) ∧
      WritesThrough (fun _ => false) createdMcu 0 0x12343412 ∧
      ¬ LeavesAlone (fun _ => false) createdMcu 20 0 := by
  have all := register_packets_iff fun _ => false
  have zero := all.1 createdMcu 0 _ (by decide) (by decide)
    (answers_hexText _ createdMcu (by decide))
  have unnamed : ¬ Names 20 := by
    unfold Names
    decide
  refine ⟨zero.1.mpr (by decide), (zero.2 0x12343412).mpr (by decide), fun leaves => ?_⟩
  exact unnamed ((all.2 createdMcu 20 0 unnamed).mp leaves).1

/-- The text `01000000` of the value 1 sets register 0 to 0x01000000. -/
theorem not_writesThrough_one : ¬ WritesThrough (fun _ => false) createdMcu 0 1 := by
  rw [writesThrough_iff (by decide) (by decide)]
  decide

end TheFirmware.Simulator
