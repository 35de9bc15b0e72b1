import Mathlib.Data.UInt
import TheFirmware.Simulator.Elf
import TheFirmware.Lib.CString

/-!
# The server for gdb

`tools/simulator/core/gdb.c`: the packets that are sent, the packets that are handled, and the
callback for bytes that have arrived. `char` is signed, and a pointer is an index of the receive
buffer. The socket is what the writes to it return (`accepts`); a write that fails closes the
connection. Texts that go to the terminal are left out.
-/

namespace TheFirmware.Simulator

open LittleEndian CString Cells

/-- `struct gdb`. `connected` is whether there is a `gdb_fd`, `sent` is what was written to it, and
`accepts` says whether the next write succeeds. -/
structure Gdb : Type where
  mcu : Mcu
  connected : Bool
  revBuffer : Bytes
  revBufferFilled : Nat
  revBufferLength : Nat
  packetChecksum : UInt8
  sent : List UInt8
  accepts : List UInt8 → Bool

/-! ## Sending -/

/-- `gdb_client_close`, also at the end of `gdb_client_error` -/
def gdbClientClose (gdb : Gdb) : Gdb := { gdb with connected := false, revBufferFilled := 0 }

/-- `write` to `gdb_fd`, with `gdb_client_error` when it fails. -/
def gdbWrite (gdb : Gdb) (bytes : List UInt8) : Bool × Gdb :=
  if gdb.connected ∧ gdb.accepts gdb.sent then (true, { gdb with sent := gdb.sent ++ bytes })
  else (false, gdbClientClose gdb)

/-- `gdb_send_ack` -/
def gdbSendAck (gdb : Gdb) : Bool × Gdb := gdbWrite gdb (ascii "+\n")

/-- `gdb_send_nack` -/
def gdbSendNack (gdb : Gdb) : Bool × Gdb := gdbWrite gdb (ascii "-\n")

/-- `gdb_send_packet_begin` -/
def gdbSendPacketBegin (gdb : Gdb) : Bool × Gdb :=
  gdbWrite { gdb with packetChecksum := 0 } (ascii "$")

/-- A byte of a packet, which the checksum includes. -/
def gdbSendPacketRaw (gdb : Gdb) (c : UInt8) : Bool × Gdb :=
  gdbWrite { gdb with packetChecksum := gdb.packetChecksum + c } [c]

/-- `gdb_send_packet_char` -/
def gdbSendPacketChar (gdb : Gdb) (c : UInt8) : Bool × Gdb :=
  if c = 0x24 ∨ c = 0x23 ∨ c = 0x7D then
    match gdbSendPacketRaw gdb 0x7D with
    | (true, gdb) => gdbSendPacketRaw gdb (c ^^^ 0x20)
    | (false, gdb) => (false, gdb)
  else gdbSendPacketRaw gdb c

/-- `gdb_send_packet_str` -/
def gdbSendPacketStr (gdb : Gdb) : List UInt8 → Bool × Gdb
  | [] => (true, gdb)
  | c :: str =>
      match gdbSendPacketChar gdb c with
      | (true, gdb) => gdbSendPacketStr gdb str
      | (false, gdb) => (false, gdb)

/-- `TO_HEX` -/
def toHex (i : UInt32) : UInt8 := if i ≤ 9 then 0x30 + i.toUInt8 else 0x61 - 10 + i.toUInt8

/-- The text that `gdb_send_packet_hex` sends. -/
def hexText (number : UInt32) (length : Nat) : List UInt8 :=
  (List.range length).flatMap fun i =>
    let c : UInt32 := (number >>> .ofNat (i * 8)) &&& (0xFF : UInt32)
    [toHex ((c >>> 4) &&& (0xF : UInt32)), toHex (c &&& (0xF : UInt32))]

/-- `gdb_send_packet_end` -/
def gdbSendPacketEnd (gdb : Gdb) : Bool × Gdb :=
  match gdbWrite gdb (ascii "#") with
  | (true, gdb) => gdbSendPacketStr gdb (hexText gdb.packetChecksum.toUInt32 1)
  | (false, gdb) => (false, gdb)

/-- A packet from its begin to its end, whose strings are sent whether or not the one before it could
be sent. -/
def gdbSendPacket (gdb : Gdb) (strs : List (List UInt8)) : Gdb :=
  let gdb := (gdbSendPacketBegin gdb).2
  let gdb := strs.foldl (fun gdb str => (gdbSendPacketStr gdb str).2) gdb
  (gdbSendPacketEnd gdb).2

/-- `gdb_mcu_did_halt` -/
def gdbMcuDidHalt (gdb : Gdb) (reason : Int) : Gdb :=
  if 0 ≤ reason ∧ gdb.connected then
    gdbSendPacket gdb [ascii "S", hexText (.ofInt reason) 1]
  else gdb

/-- `mcu_halt` with the callback of the server -/
def gdbHalt (gdb : Gdb) (reason : Int) : Gdb :=
  if gdb.mcu.halted then gdb
  else gdbMcuDidHalt { gdb with mcu := mcuHalt gdb.mcu reason } reason

/-! ## The memory -/

/-- A `char` as a halfword, with its sign. -/
def signExtend (c : UInt8) : UInt16 := c.toInt8.toInt16.toUInt16

/-- `gdb_mcu_write_byte` -/
def gdbMcuWriteByte (mcu : Mcu) (addr : UInt32) (c : UInt8) : Result Bool :=
  match mcuFetch16 mcu (addr &&& ~~~ 1) with
  | none => .ok false mcu
  | some val =>
      let val : UInt16 :=
        if addr &&& 1 ≠ 0 then (val &&& (0x00FF : UInt16)) ||| (signExtend c <<< 8)
        else (val &&& (0xFF00 : UInt16)) ||| signExtend c
      mcuWrite16 mcu (addr &&& ~~~ 1) val

/-- `gdb_mcu_fetch_byte` -/
def gdbMcuFetchByte (mcu : Mcu) (addr : UInt32) : Option UInt8 :=
  match mcuFetch16 mcu (addr &&& ~~~ 1) with
  | none => none
  | some val =>
      if addr &&& 1 ≠ 0 then some ((val &&& (0xFF00 : UInt16)) >>> 8).toUInt8
      else some (val &&& (0x00FF : UInt16)).toUInt8

/-- The loop of the packet `m`: the bytes until one cannot be fetched. -/
def gdbFetchBytes (mcu : Mcu) : UInt32 → Nat → List UInt8
  | _, 0 => []
  | addr, length + 1 =>
      match gdbMcuFetchByte mcu addr with
      | some c => c :: gdbFetchBytes mcu (addr + 1) length
      | none => []

/-- The loop of the packet `X`: the bytes from `packet` on, until one cannot be written. -/
def gdbWriteBytes (buffer : Bytes) (mcu : Mcu) (addr : UInt32) (packet : Nat) : Nat → Result Bool
  | 0 => .ok true mcu
  | length + 1 =>
      match gdbMcuWriteByte mcu addr (buffer packet) with
      | .ok true mcu => gdbWriteBytes buffer mcu (addr + 1) (packet + 1) length
      | .ok false mcu => .ok false mcu
      | .error stop mcu => .error stop mcu

/-! ## Handling a packet -/

/-- `strtol(packet, &packet, 16)`, with where it ends -/
def Gdb.strtol (gdb : Gdb) (packet : Nat) : UInt32 × Nat :=
  let (value, length) := CString.strtol (read gdb.revBuffer packet (gdb.revBufferLength - packet))
  (.ofInt value, packet + length)

/-- `strncmp(packet, str, strlen(str)) == 0` -/
def Gdb.startsWith (gdb : Gdb) (packet : Nat) (str : List UInt8) : Bool :=
  read gdb.revBuffer packet str.length = str

/-- The packet `q` -/
def gdbQuery (gdb : Gdb) (packet : Nat) : Gdb :=
  gdbSendPacket gdb
    (if gdb.startsWith packet (ascii "Supported") then [ascii "PacketSize=119"]
    else if gdb.startsWith packet (ascii "C") then [[]]
    else if gdb.startsWith packet (ascii "Offsets") then [ascii "Text=0;Data=0;Bss=0"]
    else [])

/-- The packet `p` -/
def gdbReadReg (gdb : Gdb) (packet : Nat) : Gdb :=
  let reg := (gdb.strtol packet).1.toNat
  gdbSendPacket gdb (if reg < regCount then [hexText (mcuReadReg gdb.mcu reg) 4] else [])

/-- The packet `m` -/
def gdbReadMemory (gdb : Gdb) (packet : Nat) : Gdb :=
  let (addr, packet) := gdb.strtol packet
  let (length, _) := gdb.strtol (packet + 1)
  gdbSendPacket gdb ((gdbFetchBytes gdb.mcu addr length.toNat).map fun c => hexText c.toUInt32 1)

/-- What a function of the server leaves behind that may end the simulator. -/
abbrev GdbResult (α : Type) : Type := EStateM.Result Stop Gdb α

/-- The number names a register. -/
def Names (n : Nat) : Prop := n < regCount ∨ n = regApsr ∨ n = regIpsr ∨ n = regEpsr

instance (n : Nat) : Decidable (Names n) := inferInstanceAs (Decidable (_ ∨ _ ∨ _ ∨ _))

/-- The packet `P`, which resets the MCU when the PC is set to 0. Where the number names no register,
`mcu_write_reg` stores behind `regs`. -/
def gdbWriteReg (gdb : Gdb) (packet : Nat) : GdbResult Bool :=
  let (reg, packet) := gdb.strtol packet
  let (val, _) := gdb.strtol (packet + 1)
  if ¬ Names reg.toNat then .error .wildStore gdb
  else
    let mcu :=
      if reg.toNat = regPc ∧ val = 0 then (mcuReset gdb.mcu).2
      else mcuWriteReg gdb.mcu reg.toNat val
    .ok true (gdbSendPacket { gdb with mcu } [ascii "OK"])

/-- The packet `X` -/
def gdbDownload (gdb : Gdb) (packet : Nat) : GdbResult Bool :=
  let (addr, packet) := gdb.strtol packet
  let (length, packet) := gdb.strtol (packet + 1)
  match gdbWriteBytes gdb.revBuffer (mcuUnlock gdb.mcu) addr (packet + 1) length.toNat with
  | .ok success mcu =>
      .ok true (gdbSendPacket { gdb with mcu := mcuLock mcu }
        [if success then ascii "OK" else ascii "EFF"])
  | .error stop mcu => .error stop { gdb with mcu }

section Handle

variable (pastTable : UInt32 → Bool)

/-- The packet `s`, in which the MCU may call back when it halts -/
def gdbStep (gdb : Gdb) : GdbResult Bool :=
  match mcuStep pastTable gdb.mcu with
  | .ok _ mcu =>
      let stepped := { gdb with mcu }
      let stepped :=
        if mcu.halted ∧ ¬ gdb.mcu.halted then gdbMcuDidHalt stepped mcu.haltReason else stepped
      .ok true (gdbSendPacket stepped [ascii "S05"])
  | .error stop mcu => .error stop { gdb with mcu }

/-- The loop of `gdb_handle_packet` that removes escapes, where `left` bytes are left of the string
that starts at `packet`. -/
def gdbDecode (buffer : Bytes) (packet : Nat) : Nat → Bytes
  | 0 => buffer
  | left + 1 =>
      if buffer packet = 0 then buffer
      else if buffer packet = 0x7D then
        let moved := memmove buffer packet (packet + 1) left
        gdbDecode (Function.update moved packet (moved packet ^^^ 0x20)) (packet + 1) left
      else gdbDecode buffer (packet + 1) left

/-- The packet without its escapes -/
def gdbUnescape (gdb : Gdb) (packet : Nat) : Gdb :=
  let len := strlen gdb.revBuffer packet (gdb.revBufferLength - packet)
  { gdb with revBuffer := gdbDecode gdb.revBuffer packet len }

/-- The `switch` of `gdb_handle_packet` -/
def gdbDispatch (gdb : Gdb) (packet : Nat) : GdbResult Bool :=
  let command := gdb.revBuffer packet
  let packet := packet + 1
  if command = 0x71 then .ok true (gdbQuery gdb packet)
  else if command = 0x3F then
    .ok true (gdbSendPacket gdb [ascii "S", hexText (.ofInt gdb.mcu.haltReason) 1])
  else if command = 0x48 then .ok true (gdbSendPacket gdb [ascii "OK"])
  else if command = 0x67 then
    .ok true (gdbSendPacket gdb
      ((List.range regGdbCount).map fun reg => hexText (mcuReadReg gdb.mcu reg) 4))
  else if command = 0x70 then .ok true (gdbReadReg gdb packet)
  else if command = 0x50 then gdbWriteReg gdb packet
  else if command = 0x6D then .ok true (gdbReadMemory gdb packet)
  else if command = 0x76 then .ok true (gdbSendPacket gdb [])
  else if command = 0x73 then gdbStep pastTable gdb
  else if command = 0x63 then .ok true { gdb with mcu := mcuResume gdb.mcu }
  else if command = 0x58 then gdbDownload gdb packet
  else .ok true (gdbSendPacket gdb [])

/-- The bytes of a packet in front of its checksum. -/
def Gdb.packetBody (gdb : Gdb) (packet len : Nat) : List UInt8 :=
  (read gdb.revBuffer packet len).takeWhile (· ≠ 0x23)

/-- `*buf = '\0'` -/
def Gdb.endMessage (gdb : Gdb) (buf : Nat) : Gdb :=
  { gdb with revBuffer := Function.update gdb.revBuffer buf 0 }

@[simp] theorem Gdb.endMessage_mcu (gdb : Gdb) (buf : Nat) : (gdb.endMessage buf).mcu = gdb.mcu := rfl

@[simp] theorem Gdb.endMessage_revBufferLength (gdb : Gdb) (buf : Nat) :
    (gdb.endMessage buf).revBufferLength = gdb.revBufferLength := rfl

/-- `gdb_handle_packet` -/
def gdbHandlePacket (gdb : Gdb) (packet len : Nat) : GdbResult Bool :=
  let packet := packet + 1
  let len := len - 1
  let body := gdb.packetBody packet len
  let buf := packet + body.length
  if packet + len ≤ buf then .ok false (gdbSendNack gdb).2
  else
    -- the end of the message
    let gdb := gdb.endMessage buf
    let recvChecksum := CString.strtol [gdb.revBuffer (buf + 1), gdb.revBuffer (buf + 2), 0]
    if UInt8.ofInt recvChecksum.1 ≠ body.sum then .ok false (gdbSendNack gdb).2
    else
      gdbDispatch pastTable (gdbUnescape (gdbSendAck gdb).2 packet) packet

end Handle

/-! ## What sending leaves -/

/-- What happens between two states when something is sent: only the connection may be lost, and with
it what was received. -/
structure Gdb.Sends (gdb gdb' : Gdb) : Prop where
  mcu : gdb'.mcu = gdb.mcu
  revBuffer : gdb'.revBuffer = gdb.revBuffer
  revBufferLength : gdb'.revBufferLength = gdb.revBufferLength
  lasts : gdb'.connected = true →
    gdb.connected = true ∧ gdb'.revBufferFilled = gdb.revBufferFilled

section Sends

variable {gdb gdb₁ gdb₂ : Gdb}

theorem Gdb.Sends.refl (gdb : Gdb) : gdb.Sends gdb := ⟨rfl, rfl, rfl, fun lasts => ⟨lasts, rfl⟩⟩

theorem Gdb.Sends.trans (first : gdb.Sends gdb₁) (second : gdb₁.Sends gdb₂) : gdb.Sends gdb₂ where
  mcu := second.mcu.trans first.mcu
  revBuffer := second.revBuffer.trans first.revBuffer
  revBufferLength := second.revBufferLength.trans first.revBufferLength
  lasts := by
    intro connected
    obtain ⟨between, filled₂⟩ := second.lasts connected
    obtain ⟨before, filled₁⟩ := first.lasts between
    exact ⟨before, filled₂.trans filled₁⟩

theorem sends_gdbWrite (gdb : Gdb) (bytes : List UInt8) : gdb.Sends (gdbWrite gdb bytes).2 := by
  unfold gdbWrite
  split
  · exact ⟨rfl, rfl, rfl, fun lasts => ⟨lasts, rfl⟩⟩
  · exact ⟨rfl, rfl, rfl, nofun⟩

/-- The checksum of the packet is not part of what sending leaves. -/
theorem sends_gdbWrite_checksum (gdb : Gdb) (checksum : UInt8) (bytes : List UInt8) :
    gdb.Sends (gdbWrite { gdb with packetChecksum := checksum } bytes).2 :=
  have start : gdb.Sends { gdb with packetChecksum := checksum } :=
    ⟨rfl, rfl, rfl, fun lasts => ⟨lasts, rfl⟩⟩
  start.trans (sends_gdbWrite _ _)

theorem sends_gdbSendPacketChar (gdb : Gdb) (c : UInt8) :
    gdb.Sends (gdbSendPacketChar gdb c).2 := by
  unfold gdbSendPacketChar
  split
  · have escaped := sends_gdbWrite_checksum gdb (gdb.packetChecksum + 0x7D) [0x7D]
    unfold gdbSendPacketRaw
    split
    · rename_i gdb₁ sent
      rw [sent] at escaped
      exact escaped.trans (sends_gdbWrite_checksum gdb₁ _ _)
    · rename_i gdb₁ sent
      rw [sent] at escaped
      exact escaped
  · exact sends_gdbWrite_checksum gdb _ _

theorem sends_gdbSendPacketStr (gdb : Gdb) (str : List UInt8) :
    gdb.Sends (gdbSendPacketStr gdb str).2 := by
  induction str generalizing gdb with
  | nil => exact .refl gdb
  | cons c str ih =>
      have sent := sends_gdbSendPacketChar gdb c
      unfold gdbSendPacketStr
      split
      · rename_i gdb₁ eq
        rw [eq] at sent
        exact sent.trans (ih gdb₁)
      · rename_i gdb₁ eq
        rw [eq] at sent
        exact sent

theorem sends_gdbSendPacketEnd (gdb : Gdb) : gdb.Sends (gdbSendPacketEnd gdb).2 := by
  have sent := sends_gdbWrite gdb (ascii "#")
  unfold gdbSendPacketEnd
  split
  · rename_i gdb₁ eq
    rw [eq] at sent
    exact sent.trans (sends_gdbSendPacketStr gdb₁ _)
  · rename_i gdb₁ eq
    rw [eq] at sent
    exact sent

theorem sends_gdbSendPacket (gdb : Gdb) (strs : List (List UInt8)) :
    gdb.Sends (gdbSendPacket gdb strs) := by
  have body : ∀ gdb : Gdb,
      gdb.Sends (strs.foldl (fun gdb str => (gdbSendPacketStr gdb str).2) gdb) := by
    induction strs with
    | nil => exact .refl
    | cons str strs ih => exact fun gdb => (sends_gdbSendPacketStr gdb str).trans (ih _)
  exact ((sends_gdbWrite_checksum gdb 0 _).trans (body _)).trans (sends_gdbSendPacketEnd _)

theorem sends_gdbMcuDidHalt (gdb : Gdb) (reason : Int) : gdb.Sends (gdbMcuDidHalt gdb reason) := by
  unfold gdbMcuDidHalt
  split
  · exact sends_gdbSendPacket gdb _
  · exact .refl gdb

end Sends

/-! ## What handling a packet leaves -/

/-- Removing escapes changes nothing outside the string. -/
theorem gdbDecode_outside {x : Nat} (buffer : Bytes) (packet left : Nat)
    (outside : x < packet ∨ packet + left ≤ x) :
    gdbDecode buffer packet left x = buffer x := by
  induction left generalizing buffer packet with
  | zero => rfl
  | succ left ih =>
      unfold gdbDecode
      split
      · rfl
      · split
        · rw [ih _ _ (by omega), Function.update_of_ne (by omega), memmove,
            write_outside (by rw [length_read]; omega)]
        · exact ih _ _ (by omega)

theorem gdbMcuWriteByte_returns (mcu : Mcu) (addr : UInt32) (c : UInt8) :
    ∃ b mcu', gdbMcuWriteByte mcu addr c = .ok b mcu' := by
  unfold gdbMcuWriteByte
  split
  · exact ⟨false, mcu, rfl⟩
  · dsimp only
    obtain ⟨b, mcu', wrote, _⟩ := mcuWrite16_returns mcu (addr &&& ~~~ 1) _
    exact ⟨b, mcu', wrote⟩

theorem gdbWriteBytes_returns (buffer : Bytes) (mcu : Mcu) (addr : UInt32) (packet length : Nat) :
    ∃ b mcu', gdbWriteBytes buffer mcu addr packet length = .ok b mcu' := by
  induction length generalizing mcu addr packet with
  | zero => exact ⟨true, mcu, rfl⟩
  | succ length ih =>
      obtain ⟨b, mcu₁, wrote⟩ := gdbMcuWriteByte_returns mcu addr (buffer packet)
      unfold gdbWriteBytes
      rw [wrote]
      cases b with
      | true => exact ih mcu₁ _ _
      | false => exact ⟨false, mcu₁, rfl⟩

/-- What the handling of a packet leaves: the bytes behind it, what was received unless the
connection is lost, and a locked flash. -/
structure Gdb.Handles (behind : Nat) (gdb gdb' : Gdb) : Prop where
  revBuffer : ∀ x, behind ≤ x → gdb'.revBuffer x = gdb.revBuffer x
  revBufferLength : gdb'.revBufferLength = gdb.revBufferLength
  lasts : gdb'.connected = true →
    gdb.connected = true ∧ gdb'.revBufferFilled = gdb.revBufferFilled
  locked : gdb.mcu.unlocked = false → gdb'.mcu.unlocked = false

section Handles

variable {gdb gdb₁ gdb₂ : Gdb} {behind : Nat}

theorem Gdb.Handles.trans (first : gdb.Handles behind gdb₁) (second : gdb₁.Handles behind gdb₂) :
    gdb.Handles behind gdb₂ where
  revBuffer := fun x after => (second.revBuffer x after).trans (first.revBuffer x after)
  revBufferLength := second.revBufferLength.trans first.revBufferLength
  lasts := by
    intro connected
    obtain ⟨between, filled₂⟩ := second.lasts connected
    obtain ⟨before, filled₁⟩ := first.lasts between
    exact ⟨before, filled₂.trans filled₁⟩
  locked := fun locked => second.locked (first.locked locked)

theorem Gdb.Sends.handles (sends : gdb.Sends gdb₁) : gdb.Handles behind gdb₁ where
  revBuffer := fun x _ => congrFun sends.revBuffer x
  revBufferLength := sends.revBufferLength
  lasts := sends.lasts
  locked := fun locked => by rw [sends.mcu, locked]

theorem handles_mcu {mcu : Mcu} (locked : gdb.mcu.unlocked = false → mcu.unlocked = false) :
    gdb.Handles behind { gdb with mcu } :=
  ⟨fun _ _ => rfl, rfl, fun lasts => ⟨lasts, rfl⟩, locked⟩

theorem handles_buffer {buffer : Bytes} (same : ∀ x, behind ≤ x → buffer x = gdb.revBuffer x) :
    gdb.Handles behind { gdb with revBuffer := buffer } :=
  ⟨same, rfl, fun lasts => ⟨lasts, rfl⟩, id⟩

/-- An answer that is sent after the MCU has changed. -/
theorem handles_answer {mcu : Mcu} (locked : gdb.mcu.unlocked = false → mcu.unlocked = false)
    (strs : List (List UInt8)) : gdb.Handles behind (gdbSendPacket { gdb with mcu } strs) :=
  (handles_mcu locked).trans (sends_gdbSendPacket _ strs).handles

theorem handles_gdbWriteReg (gdb : Gdb) (packet : Nat) :
    gdb.Handles behind (Proc.final (gdbWriteReg gdb packet)) := by
  unfold gdbWriteReg
  dsimp only
  split
  · exact handles_mcu id
  · refine handles_answer (fun locked => ?_) _
    have locked : gdb.mcu.Locked gdb.mcu.flash := ⟨locked, rfl⟩
    split
    · exact locked.reset.1
    · exact (locked.writeReg _ _).1

/-- A download locks the flash, whether it succeeds or fails. -/
theorem gdbDownload_locks (gdb : Gdb) (packet : Nat) :
    ∃ gdb', gdbDownload gdb packet = .ok true gdb' ∧ (∀ behind, gdb.Handles behind gdb') ∧
      gdb'.mcu.unlocked = false := by
  unfold gdbDownload
  dsimp only
  obtain ⟨success, mcu, wrote⟩ := gdbWriteBytes_returns gdb.revBuffer (mcuUnlock gdb.mcu)
    (gdb.strtol packet).1 ((gdb.strtol ((gdb.strtol packet).2 + 1)).2 + 1)
    (gdb.strtol ((gdb.strtol packet).2 + 1)).1.toNat
  rw [wrote]
  refine ⟨_, rfl, fun _ => handles_answer (fun _ => rfl) _, ?_⟩
  rw [(sends_gdbSendPacket _ _).mcu]
  rfl

theorem handles_gdbStep (pastTable : UInt32 → Bool) (gdb : Gdb) :
    gdb.Handles behind (Proc.final (gdbStep pastTable gdb)) := by
  have kept : gdb.mcu.unlocked = false →
      (Proc.final (mcuStep pastTable gdb.mcu)).unlocked = false := fun locked =>
    (Mcu.Locked.step pastTable (⟨locked, rfl⟩ : gdb.mcu.Locked gdb.mcu.flash)).1
  unfold gdbStep
  cases stepped : mcuStep pastTable gdb.mcu with
  | ok b mcu =>
      rw [stepped] at kept
      dsimp only [Proc.final]
      split
      · exact ((handles_mcu kept).trans (sends_gdbMcuDidHalt _ _).handles).trans
          (sends_gdbSendPacket _ _).handles
      · exact handles_answer kept _
  | error stop mcu =>
      rw [stepped] at kept
      exact handles_mcu kept

theorem sends_gdbReadMemory (gdb : Gdb) (packet : Nat) :
    gdb.Sends (gdbReadMemory gdb packet) := by
  unfold gdbReadMemory
  dsimp only
  exact sends_gdbSendPacket gdb _

theorem handles_gdbDispatch (pastTable : UInt32 → Bool) (gdb : Gdb) (packet : Nat) :
    gdb.Handles behind (Proc.final (gdbDispatch pastTable gdb packet)) := by
  have answer : ∀ strs, gdb.Handles behind (gdbSendPacket gdb strs) := fun strs =>
    (sends_gdbSendPacket gdb strs).handles
  -- `split` would go through the whole chain of comparisons at each of them
  have branch : ∀ {c : Prop} [Decidable c] {yes no : GdbResult Bool},
      gdb.Handles behind (Proc.final yes) → gdb.Handles behind (Proc.final no) →
      gdb.Handles behind (Proc.final (if c then yes else no)) := fun yes no => by
    split
    · exact yes
    · exact no
  have ok : ∀ {gdb' : Gdb}, gdb.Handles behind gdb' →
      gdb.Handles behind (Proc.final (.ok true gdb' : GdbResult Bool)) := fun handles => handles
  refine branch (answer _) (branch (answer _) (branch (answer _) (branch (answer _) ?_)))
  refine branch (answer _) (branch (handles_gdbWriteReg gdb _) (branch ?_ ?_))
  · exact ok (sends_gdbReadMemory gdb _).handles
  refine branch (answer _) (branch (handles_gdbStep pastTable gdb) (branch (handles_mcu id) ?_))
  refine branch ?_ (answer _)
  obtain ⟨gdb', downloaded, handles, _⟩ := gdbDownload_locks gdb (packet + 1)
  rw [downloaded]
  exact handles behind

theorem handles_gdbUnescape {packet n : Nat} (zero : gdb.revBuffer (packet + n) = 0)
    (inside : packet + n ≤ behind) : gdb.Handles behind (gdbUnescape gdb packet) := by
  refine handles_buffer fun x after => gdbDecode_outside _ _ _ (.inr ?_)
  have short := strlen_le zero (gdb.revBufferLength - packet)
  omega

/-- Handling a packet keeps the lock and the bytes behind the packet. -/
theorem handles_gdbHandlePacket (pastTable : UInt32 → Bool) (gdb : Gdb) (packet len : Nat) :
    gdb.Handles (packet + len) (Proc.final (gdbHandlePacket pastTable gdb packet len)) := by
  unfold gdbHandlePacket
  dsimp only
  split
  · exact (sends_gdbWrite gdb _).handles
  · rename_i found
    generalize (gdb.packetBody (packet + 1) (len - 1)).length = n at found ⊢
    have ended : gdb.Handles (packet + len) (gdb.endMessage (packet + 1 + n)) :=
      handles_buffer fun x after => Function.update_of_ne (by omega) _ _
    split
    · exact ended.trans (sends_gdbWrite _ _).handles
    · have ack : (gdb.endMessage (packet + 1 + n)).Sends
          (gdbSendAck (gdb.endMessage (packet + 1 + n))).2 := sends_gdbWrite _ _
      have zero : (gdbSendAck (gdb.endMessage (packet + 1 + n))).2.revBuffer (packet + 1 + n) = 0 := by
        rw [ack.revBuffer]
        exact Function.update_self _ _ _
      exact ((ended.trans ack.handles).trans (handles_gdbUnescape zero (by omega))).trans
        (handles_gdbDispatch pastTable _ _)

end Handles

/-! ## The lock -/

/-- **The lock**: from every state with a locked flash, no number of steps changes the flash or
unlocks it, whatever program they execute. The loader returns with a locked flash for every file and
all failures of system calls, and so do the packet `X`, whether it succeeds or fails, and every other
packet but a packet `P` whose number names no register, where the simulator stops. -/
theorem flash_stays_locked {mcu : Mcu} (locked : mcu.unlocked = false) :
    (∀ pastTable n, (Proc.final (mcuSteps pastTable n mcu)).flash = mcu.flash ∧
      (Proc.final (mcuSteps pastTable n mcu)).unlocked = false) ∧
    (∀ file, ∃ loaded mcu' n, elfLoadFd.run (ElfOp.handle file) (mcu, 0) = .ok loaded (mcu', n) ∧
      mcu'.unlocked = false) ∧
    (∀ (gdb : Gdb) packet, gdb.mcu = mcu →
      ∃ gdb', gdbDownload gdb packet = .ok true gdb' ∧ gdb'.mcu.unlocked = false) ∧
    (∀ pastTable (gdb : Gdb) packet len, gdb.mcu = mcu →
      (Proc.final (gdbHandlePacket pastTable gdb packet len)).mcu.unlocked = false) := by
  refine ⟨fun pastTable n => ?_, fun file => elfLoadFd_locks file locked, ?_, ?_⟩
  · have after := Mcu.Locked.steps pastTable n (⟨locked, rfl⟩ : mcu.Locked mcu.flash)
    exact ⟨after.2, after.1⟩
  · intro gdb packet _
    obtain ⟨gdb', downloaded, _, relocked⟩ := gdbDownload_locks gdb packet
    exact ⟨gdb', downloaded, relocked⟩
  · intro pastTable gdb packet len eq
    rw [← eq] at locked
    exact (handles_gdbHandlePacket pastTable gdb packet len).locked locked

/-- The program `movs r2, #7`, `str r0, [r1]`, which stores to the flash. -/
def flashStoreMcu : Mcu :=
  { createdMcu with
    regs := fun reg =>
      if reg = 0 then 0x55 else if reg = 1 then 0x100 else if reg = regPc then 2 else 0
    pcEven := rfl
    flash := LittleEndian.store16 (LittleEndian.store16 createdMcu.flash 0 0x2207) 2 0x6008 }

/-- The first instruction is executed, and the store fails however often it is tried. -/
theorem flash_stays_locked_store :
    (Proc.final (mcuSteps (fun _ => false) 1 flashStoreMcu)).regs 2 = 7 ∧
      (Proc.final (mcuSteps (fun _ => false) 2 flashStoreMcu)).regs regPc = 4 ∧
      (Proc.final (mcuSteps (fun _ => false) 1000 flashStoreMcu)).flash = flashStoreMcu.flash ∧
      (Proc.final (mcuSteps (fun _ => false) 1000 flashStoreMcu)).unlocked = false := by
  have locked : flashStoreMcu.unlocked = false := rfl
  exact ⟨by decide +kernel, by decide +kernel, (flash_stays_locked locked).1 _ 1000⟩

end TheFirmware.Simulator
