import TheFirmware.Simulator.Debugger
import TheFirmware.Simulator.Receive

/-!
# A session with gdb

The simulator as a whole: its main loop calls `mcu_runloop` when nothing else is to do, and the
callbacks of the server when a connection is made or bytes arrive. What the debugger gets back are
acknowledgements and packets. Whatever happens in between, it can read the stream, and finds one reply
to each packet (`session_received`).

The debugger knows whether the MCU runs from these packets only. It sets the MCU going with the packet
`c` and takes it for halted when it is told so. As long as it waits for that, it is right whenever
nothing is on the way (`session_view`).
-/

namespace TheFirmware.Simulator

open LittleEndian CString Cells

/-! ## The MCU stays halted -/

section Halted

theorem halted_mcuWriteReg (mcu : Mcu) (reg : Reg) (val : UInt32) :
    (mcuWriteReg mcu reg val).halted = mcu.halted := by
  obtain ⟨r, v, -, written⟩ := exists_setReg mcu reg val
  rw [written]
  rfl

theorem halted_mcuReset (mcu : Mcu) : (mcuReset mcu).2.halted = mcu.halted := by
  unfold mcuReset
  split
  · rfl
  · dsimp only
    split
    · exact halted_mcuWriteReg _ _ _
    · split
      · exact halted_mcuWriteReg _ _ _
      · refine (halted_mcuWriteReg _ _ _).trans ?_
        exact (halted_mcuWriteReg _ _ _).trans (halted_mcuWriteReg _ _ _)

theorem halted_unittestDevWrite32 (mcu : Mcu) (addr temp : UInt32) :
    (Proc.final (unittestDevWrite32 mcu addr temp)).halted = mcu.halted := by
  unfold unittestDevWrite32 unittestFinished
  dsimp only
  split_ifs <;> first | rfl | exact halted_mcuReset _

theorem halted_mcuWrite16 (mcu : Mcu) (addr : UInt32) (value : UInt16) :
    (Proc.final (mcuWrite16 mcu addr value)).halted = mcu.halted := by
  unfold mcuWrite16
  split
  · rename_i dev offset _
    cases dev with
    | unittest =>
        unfold Device.write16 mcuEmuWrite16
        dsimp only
        split
        · rfl
        · exact halted_unittestDevWrite32 _ _ _
    | uart => rfl
    | ram => rfl
    | flash =>
        unfold Device.write16
        dsimp only
        split_ifs <;> rfl
  · rfl

theorem halted_mcuWrite32 (mcu : Mcu) (addr value : UInt32) :
    (Proc.final (mcuWrite32 mcu addr value)).halted = mcu.halted := by
  unfold mcuWrite32
  split
  · rename_i dev offset _
    cases dev with
    | unittest => exact halted_unittestDevWrite32 _ _ _
    | uart =>
        unfold Device.write32 uartDevWrite32
        dsimp only
        split_ifs <;> rfl
    | ram => rfl
    | flash =>
        unfold Device.write32
        dsimp only
        split_ifs <;> rfl
  · rfl

/-- No function that an instruction may call resumes the MCU. -/
theorem halted_handle (op : Op) (mcu : Mcu) (halted : mcu.halted = true) :
    (Proc.final (op.handle mcu)).halted = true := by
  cases op with
  | readReg reg => exact halted
  | writeReg reg val => exact (halted_mcuWriteReg mcu reg val).trans halted
  | fetch16 addr => exact halted
  | fetch32 addr => exact halted
  | write16 addr value => exact (halted_mcuWrite16 mcu addr value).trans halted
  | write32 addr value => exact (halted_mcuWrite32 mcu addr value).trans halted
  | halt reason =>
      show (mcuHalt mcu reason).halted = true
      rw [mcuHalt, if_pos halted, halted]
  | wildCall => exact halted

/-- No step resumes the MCU. -/
theorem halted_mcuStep (pastTable : UInt32 → Bool) {mcu : Mcu} (halted : mcu.halted = true) :
    (Proc.final (mcuStep pastTable mcu)).halted = true :=
  Proc.run_invariant halted_handle (mcuInstrStep pastTable) halted

theorem halted_gdbWriteBytes (buffer : Bytes) (mcu : Mcu) (addr : UInt32) (packet length : Nat) :
    (Proc.final (gdbWriteBytes buffer mcu addr packet length)).halted = mcu.halted := by
  induction length generalizing mcu addr packet with
  | zero => rfl
  | succ length ih =>
      have byte : (Proc.final (gdbMcuWriteByte mcu addr (buffer packet))).halted = mcu.halted := by
        unfold gdbMcuWriteByte
        split
        · rfl
        · exact halted_mcuWrite16 _ _ _
      unfold gdbWriteBytes
      cases wrote : gdbMcuWriteByte mcu addr (buffer packet) with
      | ok works mcu₁ =>
          rw [wrote] at byte
          cases works with
          | true => exact (ih mcu₁ _ _).trans byte
          | false => exact byte
      | error stop mcu₁ =>
          rw [wrote] at byte
          exact byte

end Halted

/-! ## What the server says -/

/-- The packet for a halt. -/
def stopPacket (reason : Int) : Item := .packet (ascii "S" ++ hexText (.ofInt reason) 1)

/-- What the server says to a packet: that it has not arrived as it was sent, that it has, or an answer
in addition, where a packet that halts the MCU makes the server tell that first. -/
inductive Reply : Type
  | refused
  | resumed
  | answered (stop : Option Int) (payload : List UInt8)

/-- The items of a reply. -/
def Reply.items : Reply → List Item
  | .refused => [.nack]
  | .resumed => [.ack]
  | .answered stop payload => .ack :: (stop.toList.map stopPacket ++ [.packet payload])

/-- What the server says. -/
inductive Told : Type
  | reply (said : Reply)
  | stop (reason : Int)

/-- The items of what the server says. -/
def Told.items : Told → List Item
  | .reply said => said.items
  | .stop reason => [stopPacket reason]

/-- What the server says, when that is a reply. -/
def Told.reply? : Told → Option Reply
  | .reply said => some said
  | .stop _ => none

/-- The bytes of what the server says. -/
def spoken (told : List Told) : List UInt8 := (told.flatMap Told.items).flatMap Item.bytes

/-- What is in a packet between `$` and `#`. -/
def packetText (packet : List UInt8) : List UInt8 := packet.tail.takeWhile (· ≠ 0x23)

/-- The checksum of a packet is right. -/
def Intact (packet : List UInt8) : Prop :=
  UInt8.ofInt (CString.strtol (packet.drop ((packetText packet).length + 2) ++ [0])).1 =
    (packetText packet).sum

instance (packet : List UInt8) : Decidable (Intact packet) := inferInstanceAs (Decidable (_ = _))

/-- The first byte of a text without its escapes. Of an escape at the end of a string only the mark
is left. -/
def commandOf : List UInt8 → UInt8
  | [] => 0
  | [c] => if c = 0x7D then 0x7D ^^^ 0x20 else c
  | c :: d :: _ => if c = 0x7D then (if d = 0 then 0x7D else d) ^^^ 0x20 else c

/-- The command of a packet. -/
def command (packet : List UInt8) : UInt8 := commandOf (packetText packet)

/-- A reply to a packet: only the packet `c` gets no answer, and only in the packet `s` the MCU may
halt. -/
def Replies (packet : List UInt8) : Reply → Prop
  | .refused => ¬ Intact packet
  | .resumed => Intact packet ∧ command packet = 0x63
  | .answered stop _ =>
      Intact packet ∧ command packet ≠ 0x63 ∧ (stop ≠ none → command packet = 0x73)

/-! ### The debugger's view -/

/-- Whether the debugger takes the MCU for running or halted. -/
inductive View : Type
  | running
  | halted
  deriving DecidableEq, Repr

/-- The debugger hears an item, where the packets are those to which it has not heard a sign yet: it
sets the MCU going with `c`, and takes it for halted when it gets a packet. -/
def View.hear : View × List (List UInt8) → Item → View × List (List UInt8)
  | (view, packet :: packets), .ack => (if command packet = 0x63 then running else view, packets)
  | (view, []), .ack => (view, [])
  | (view, packets), .nack => (view, packets.tail)
  | (_, packets), .packet _ => (halted, packets)

/-- The debugger's view when it has sent packets and heard items. -/
def View.after (view : View) (packets : List (List UInt8)) (items : List Item) : View :=
  (items.foldl View.hear (view, packets)).1

/-- The view is right. A running MCU may sleep, which the debugger is not told. -/
def View.Right (mcu : Mcu) : View → Prop
  | .running => mcu.halted = true → mcu.haltReason < 0
  | .halted => mcu.halted = true

/-! ## The commands -/

section Command

variable {buffer : Bytes} {text rest : List UInt8} {c d : UInt8} {p left limit : Nat}

theorem gdbDecode_first (plain : buffer p ≠ 0x7D) (left : Nat) :
    gdbDecode buffer p left p = buffer p := by
  cases left with
  | zero => rfl
  | succ left =>
      by_cases zero : buffer p = 0
      · rw [gdbDecode, if_pos zero]
      · rw [gdbDecode_pass zero plain, gdbDecode_outside _ _ _ (.inl (Nat.lt_succ_self p))]

theorem gdbDecode_mark (mark : buffer p = 0x7D) (left : Nat) :
    gdbDecode buffer p (left + 1) p = (if left = 0 then 0x7D else buffer (p + 1)) ^^^ 0x20 := by
  have nonzero : buffer p ≠ 0 := by
    rw [mark]
    decide
  rw [gdbDecode, if_neg nonzero, if_pos mark, gdbDecode_outside _ _ _ (.inl (Nat.lt_succ_self p)),
    Function.update_self]
  cases left with
  | zero =>
      rw [if_pos rfl, ← mark]
      rfl
  | succ left =>
      have moved : Holds (memmove buffer p (p + 1) (left + 1)) p (read buffer (p + 1) (left + 1)) :=
        holds_write _ _ _
      rw [read_succ] at moved
      rw [if_neg (Nat.succ_ne_zero left), (holds_cons_iff.mp moved).1]

theorem strlen_zero (zero : buffer p = 0) (limit : Nat) : strlen buffer p (limit + 1) = 0 := by
  rw [strlen, read_succ, zero]
  rfl

theorem strlen_succ (nonzero : buffer p ≠ 0) (limit : Nat) :
    strlen buffer p (limit + 1) = strlen buffer (p + 1) limit + 1 := by
  have first : decide (buffer p ≠ 0) = true := decide_eq_true nonzero
  simp only [strlen, read_succ, List.takeWhile_cons, first, if_true, List.length_cons]

/-- The first byte of a string when its escapes are removed. -/
theorem gdbDecode_command (held : Holds buffer p (text ++ [0])) (short : text.length < limit) :
    gdbDecode buffer p (strlen buffer p limit) p = commandOf text := by
  cases text with
  | nil =>
      have zero : buffer p = 0 := (holds_cons_iff.mp held).1
      rw [gdbDecode_first (by rw [zero]; decide), zero]
      rfl
  | cons c text =>
      obtain ⟨first, tail⟩ := holds_cons_iff.mp held
      by_cases mark : c = 0x7D
      · obtain ⟨k, rfl⟩ : ∃ k, limit = k + 1 + 1 := by
          rw [List.length_cons] at short
          exact ⟨limit - 2, by omega⟩
        have next : commandOf (0x7D :: text) =
            (if buffer (p + 1) = 0 then 0x7D else buffer (p + 1)) ^^^ 0x20 := by
          cases text with
          | nil => rw [(holds_cons_iff.mp tail).1]; rfl
          | cons d text => rw [(holds_cons_iff.mp tail).1]; rfl
        rw [mark] at first
        rw [strlen_succ (by rw [first]; decide), gdbDecode_mark first, mark, next]
        by_cases zero : buffer (p + 1) = 0
        · rw [strlen_zero zero, if_pos rfl, if_pos zero]
        · rw [strlen_succ zero, if_neg (Nat.succ_ne_zero _), if_neg zero]
      · have plain : buffer p ≠ 0x7D := by
          rw [first]
          exact mark
        rw [gdbDecode_first plain, first]
        cases text with
        | nil => exact (if_neg mark).symm
        | cons d text => exact (if_neg mark).symm

end Command

/-! ## One packet -/

section Packet

variable {pastTable : UInt32 → Bool} {gdb gdb' gdb₁ : Gdb} {packet : List UInt8} {n : Nat} {b : Bool}

/-- The packet is found in the buffer. -/
structure Gdb.Finds (gdb : Gdb) (n : Nat) (packet : List UInt8) : Prop where
  start : gdb.revBuffer 0 = 0x24
  found : packetEnd gdb.received = some n
  packet : packet = gdb.received.take n
  fits : gdb.revBufferFilled < gdb.revBufferLength

theorem packetText_eq {text rest : List UInt8} (plain : 0x23 ∉ text) (c : UInt8) :
    packetText (c :: text ++ 0x23 :: rest) = text := by
  have inside : ∀ d ∈ text, decide (d ≠ 0x23) = true := by
    intro d mem
    refine decide_eq_true fun eq => plain ?_
    rw [← eq]
    exact mem
  show (text ++ 0x23 :: rest).takeWhile (· ≠ 0x23) = text
  rw [List.takeWhile_append_of_pos inside]
  simp

/-- The text of a packet and its checksum. -/
theorem Gdb.Finds.shape (finds : gdb.Finds n packet) :
    ∃ first second, packet = 0x24 :: packetText packet ++ 0x23 :: [first, second] ∧
      n = (packetText packet).length + 4 ∧ Holds gdb.revBuffer 0 packet ∧
      n < gdb.revBufferLength := by
  obtain ⟨start, found, rfl, fits⟩ := finds
  have held := holds_received gdb
  have size := le_of_packetEnd found
  have filled := length_received gdb
  unfold packetEnd at found
  dsimp only at found
  generalize gdb.received = bytes at found held size filled ⊢
  split at found
  · rename_i enough
    cases found
    have whole : bytes.takeWhile (· ≠ 0x23) ++ bytes.dropWhile (· ≠ 0x23) = bytes :=
      List.takeWhile_append_dropWhile
    have lengths := congrArg List.length whole
    rw [List.length_append] at lengths
    have some : bytes.dropWhile (· ≠ 0x23) ≠ [] := by
      intro none
      rw [none, List.length_nil] at lengths
      omega
    obtain ⟨c, tail, behind, stop⟩ := exists_dropWhile some
    have hash : c = 0x23 := by simpa using stop
    rw [behind, List.length_cons] at lengths
    obtain ⟨first, second, more, rfl⟩ : ∃ first second more, tail = first :: second :: more := by
      match tail with
      | [] | [_] => simp only [List.length_nil, List.length_singleton] at lengths; omega
      | first :: second :: more => exact ⟨first, second, more, rfl⟩
    obtain ⟨text, front⟩ : ∃ text, bytes.takeWhile (· ≠ 0x23) = 0x24 :: text := by
      rw [← whole] at held
      cases front : bytes.takeWhile (· ≠ 0x23) with
      | nil =>
          rw [front, behind, hash] at held
          rw [(holds_cons_iff.mp held).1] at start
          cases start
      | cons d text =>
          rw [front] at held
          exact ⟨text, by rw [← start, (holds_cons_iff.mp held).1]⟩
    have plain : 0x23 ∉ text := by
      intro mem
      have inside : (0x23 : UInt8) ∈ bytes.takeWhile (· ≠ 0x23) := by
        rw [front]
        exact List.mem_cons_of_mem _ mem
      simpa using List.mem_takeWhile_imp inside
    have packet : bytes.take ((bytes.takeWhile (· ≠ 0x23)).length + 3) =
        0x24 :: text ++ 0x23 :: [first, second] := by
      rw [front, behind, hash] at whole
      rw [front, ← whole]
      show List.take ((0x24 :: text).length + 3) ((0x24 :: text) ++ _) = _
      rw [List.take_length_add_append]
      rfl
    rw [packet, packetText_eq plain, front]
    refine ⟨first, second, rfl, rfl, ?_, ?_⟩
    · rw [← List.take_append_drop ((bytes.takeWhile (· ≠ 0x23)).length + 3) bytes, packet,
        holds_append_iff] at held
      exact held.1
    · rw [front] at size
      omega
  · cases found

/-- A packet whose checksum is wrong is refused, and any other is acknowledged and dispatched. -/
theorem gdbHandlePacket_cases (pastTable : UInt32 → Bool) (finds : gdb.Finds n packet) :
    (¬ Intact packet ∧ ∃ gdb₁, gdbHandlePacket pastTable gdb 0 n = .ok false gdb₁ ∧
      gdb.Puts gdb₁ Item.nack.bytes ∧ gdb₁.mcu = gdb.mcu) ∨
    (Intact packet ∧ ∃ gdb₁, gdbHandlePacket pastTable gdb 0 n = gdbDispatch pastTable gdb₁ 1 ∧
      gdb.Puts gdb₁ Item.ack.bytes ∧ gdb₁.mcu = gdb.mcu ∧ gdb₁.revBuffer 1 = command packet) := by
  obtain ⟨first, second, whole, rfl, held, fits⟩ := finds.shape
  have body : gdb.packetBody 1 ((packetText packet).length + 3) = packetText packet := by
    have tail : read gdb.revBuffer 1 ((packetText packet).length + 3) = packet.tail := by
      rw [whole, List.cons_append, holds_cons_iff] at held
      rw [held.2.read_eq (by simp)]
      nth_rewrite 2 [whole]
      rfl
    rw [Gdb.packetBody, tail]
    rfl
  have given : ∀ text, packetText packet = text → (Intact packet ↔ UInt8.ofInt
      (CString.strtol [first, second, 0]).1 = text.sum) := by
    intro text eq
    rw [eq, List.append_cons] at whole
    have digits : packet.drop (text.length + 2) = [first, second] := by
      rw [whole]
      exact List.drop_left' (by simp)
    rw [Intact, eq, digits]
    rfl
  rw [command]
  generalize packetText packet = text at *
  have intact := given text rfl
  rw [whole] at held
  rw [List.cons_append, holds_cons_iff, Nat.zero_add, holds_append_iff, holds_cons_iff,
    holds_cons_iff, holds_singleton_iff] at held
  generalize ended : gdb.endMessage (1 + text.length) = gdb₁
  have outside : ∀ x, x ≠ 1 + text.length → gdb₁.revBuffer x = gdb.revBuffer x := by
    intro x ne
    rw [← ended]
    exact Function.update_of_ne ne _ _
  have handled : gdbHandlePacket pastTable gdb 0 (text.length + 4) =
      if ¬ Intact packet then .ok false (gdbSendNack gdb₁).2
      else gdbDispatch pastTable (gdbUnescape (gdbSendAck gdb₁).2 1) 1 := by
    unfold gdbHandlePacket
    dsimp only
    rw [Nat.zero_add, Nat.add_sub_assoc (by decide), body, ended, if_neg (by omega),
      outside _ (by omega), outside _ (by omega), held.2.2.2.1, held.2.2.2.2]
    simp only [intact, ne_eq]
  obtain ⟨nack, -⟩ := puts_gdbWrite gdb₁ Item.nack.bytes
  obtain ⟨ack, -⟩ := puts_gdbWrite gdb₁ Item.ack.bytes
  have sends : gdb₁.Sends (gdbSendAck gdb₁).2 := sends_gdbWrite _ _
  by_cases right : Intact packet
  · rw [handled, if_neg (not_not.mpr right)]
    refine .inr ⟨right, _, rfl, ?_, sends.mcu.trans ?_, ?_⟩
    · rw [← ended] at ack ⊢
      exact ⟨ack.part, ack.all, ack.closed⟩
    · rw [← ended]
      rfl
    · have string : Holds (gdbSendAck gdb₁).2.revBuffer 1 (text ++ [0]) := by
        rw [sends.revBuffer, holds_append_iff, holds_singleton_iff]
        refine ⟨held.2.1.congr fun i small => outside _ (by omega), ?_⟩
        rw [← ended]
        exact Function.update_self _ _ _
      have room : text.length < (gdbSendAck gdb₁).2.revBufferLength - 1 := by
        rw [sends.revBufferLength, ← ended]
        show text.length < gdb.revBufferLength - 1
        omega
      exact gdbDecode_command string room
  · rw [handled, if_pos right]
    refine .inl ⟨right, _, rfl, ?_, ?_⟩
    · rw [← ended] at nack ⊢
      exact ⟨nack.part, nack.all, nack.closed⟩
    · rw [gdbSendNack, (sends_gdbWrite _ _).mcu, ← ended]
      rfl

/-- A packet is answered, after it was told that the MCU halts in it. -/
def Gdb.Answers (command : UInt8) (gdb gdb' : Gdb) : Prop :=
  ∃ stop payload, gdb.Puts gdb' ((stop.toList.map stopPacket ++ [.packet payload]).flatMap Item.bytes) ∧
    (stop ≠ none → command = 0x73) ∧ (gdb.mcu.halted = true → gdb'.mcu.halted = true)

theorem answers_gdbSendPacket {mcu : Mcu} {command : UInt8}
    (kept : gdb.mcu.halted = true → mcu.halted = true) (strs : List (List UInt8)) :
    gdb.Answers command (gdbSendPacket { gdb with mcu } strs) := by
  have puts := puts_gdbSendPacket { gdb with mcu } strs
  refine ⟨none, strs.flatten, ?_, fun some => absurd rfl some, ?_⟩
  · simp only [Option.toList_none, List.map_nil, List.nil_append, List.flatMap_singleton]
    exact ⟨puts.part, puts.all, puts.closed⟩
  · rw [(sends_gdbSendPacket _ strs).mcu]
    exact kept

theorem puts_gdbMcuDidHalt (gdb : Gdb) (reason : Int) :
    ∃ stop : Option Int, gdb.Puts (gdbMcuDidHalt gdb reason)
        ((stop.toList.map stopPacket).flatMap Item.bytes) ∧
      (gdb.connected = true → (stop = none ↔ reason < 0)) := by
  unfold gdbMcuDidHalt
  split_ifs with told
  · refine ⟨some reason, ?_, fun _ => ?_⟩
    · have puts := puts_gdbSendPacket gdb [ascii "S", hexText (.ofInt reason) 1]
      simp only [List.flatten_cons, List.flatten_nil, List.append_nil] at puts
      simpa [stopPacket] using puts
    · exact ⟨nofun, fun negative => absurd told.1 (by omega)⟩
  · refine ⟨none, .none rfl rfl, fun connected => ?_⟩
    exact ⟨fun _ => by by_contra; exact told ⟨by omega, connected⟩, fun _ => rfl⟩

theorem answers_gdbStep (stepped : gdbStep pastTable gdb = .ok b gdb') :
    gdb.Answers 0x73 gdb' := by
  have kept : gdb.mcu.halted = true → (Proc.final (mcuStep pastTable gdb.mcu)).halted = true :=
    halted_mcuStep pastTable
  unfold gdbStep at stepped
  cases ran : mcuStep pastTable gdb.mcu with
  | error stop mcu =>
      rw [ran] at stepped
      cases stepped
  | ok works mcu =>
      rw [ran] at stepped kept
      dsimp only at stepped
      by_cases halts : mcu.halted = true ∧ ¬ gdb.mcu.halted = true
      · rw [if_pos halts] at stepped
        cases stepped
        obtain ⟨stop, first, -⟩ := puts_gdbMcuDidHalt { gdb with mcu } mcu.haltReason
        have second := puts_gdbSendPacket (gdbMcuDidHalt { gdb with mcu } mcu.haltReason) [ascii "S05"]
        have both := first.trans second
        refine ⟨stop, ascii "S05", ?_, fun _ => rfl, ?_⟩
        · rw [List.flatMap_append]
          exact ⟨both.part, both.all, both.closed⟩
        · intro already
          exact absurd already halts.2
      · rw [if_neg halts] at stepped
        cases stepped
        exact answers_gdbSendPacket kept _

theorem answers_gdbDownload {packet : Nat} (command : UInt8)
    (downloaded : gdbDownload gdb packet = .ok b gdb') : gdb.Answers command gdb' := by
  unfold gdbDownload at downloaded
  dsimp only at downloaded
  generalize (gdb.strtol packet).1 = addr at downloaded
  generalize (gdb.strtol ((gdb.strtol packet).2 + 1)).2 + 1 = data at downloaded
  generalize (gdb.strtol ((gdb.strtol packet).2 + 1)).1.toNat = length at downloaded
  have kept := halted_gdbWriteBytes gdb.revBuffer (mcuUnlock gdb.mcu) addr data length
  cases wrote : gdbWriteBytes gdb.revBuffer (mcuUnlock gdb.mcu) addr data length with
  | error stop mcu =>
      rw [wrote] at downloaded
      cases downloaded
  | ok works mcu =>
      rw [wrote] at downloaded kept
      have locked : gdb.mcu.halted = true → (mcuLock mcu).halted = true := fun halted =>
        kept.trans halted
      cases downloaded
      exact answers_gdbSendPacket locked _

/-- Every packet but `c` is answered, and leaves a halted MCU halted. -/
theorem answers_gdbDispatch {packet : Nat} (other : gdb.revBuffer packet ≠ 0x63)
    (dispatched : gdbDispatch pastTable gdb packet = .ok b gdb') :
    gdb.Answers (gdb.revBuffer packet) gdb' := by
  have branch : ∀ {c : Prop} [Decidable c] {yes no : GdbResult Bool},
      (c → ∀ gdb', yes = .ok b gdb' → gdb.Answers (gdb.revBuffer packet) gdb') →
      (¬ c → ∀ gdb', no = .ok b gdb' → gdb.Answers (gdb.revBuffer packet) gdb') →
      ∀ gdb', (if c then yes else no) = .ok b gdb' → gdb.Answers (gdb.revBuffer packet) gdb' := by
    intro c _ yes no first second gdb' eq
    split_ifs at eq with holds
    · exact first holds gdb' eq
    · exact second holds gdb' eq
  have answer : ∀ strs gdb', (.ok true (gdbSendPacket gdb strs) : GdbResult Bool) = .ok b gdb' →
      gdb.Answers (gdb.revBuffer packet) gdb' := by
    intro strs gdb' eq
    cases eq
    exact answers_gdbSendPacket id strs
  have write : ∀ gdb', gdbWriteReg gdb (packet + 1) = .ok b gdb' →
      gdb.Answers (gdb.revBuffer packet) gdb' := by
    intro gdb' eq
    unfold gdbWriteReg at eq
    dsimp only at eq
    split at eq
    · cases eq
    · cases eq
      refine answers_gdbSendPacket (fun halted => ?_) _
      split_ifs
      · exact (halted_mcuReset _).trans halted
      · exact (halted_mcuWriteReg _ _ _).trans halted
  have memory : ∀ gdb', (.ok true (gdbReadMemory gdb (packet + 1)) : GdbResult Bool) = .ok b gdb' →
      gdb.Answers (gdb.revBuffer packet) gdb' := by
    intro gdb' eq
    unfold gdbReadMemory at eq
    dsimp only at eq
    exact answer _ gdb' eq
  have step : gdb.revBuffer packet = 0x73 → ∀ gdb', gdbStep pastTable gdb = .ok b gdb' →
      gdb.Answers (gdb.revBuffer packet) gdb' := by
    intro command gdb' eq
    rw [command]
    exact answers_gdbStep eq
  revert dispatched
  refine branch (fun _ => answer _) (fun _ => branch (fun _ => answer _) fun _ => ?_) gdb'
  refine branch (fun _ => answer _) fun _ => branch (fun _ => answer _) fun _ => ?_
  refine branch (fun _ => answer _) fun _ => branch (fun _ => write) fun _ => ?_
  refine branch (fun _ => memory) fun _ => branch (fun _ => answer _) fun _ => ?_
  refine branch step fun _ => branch (fun command => absurd command other) fun _ => ?_
  exact branch (fun _ gdb' eq => answers_gdbDownload _ eq) fun _ => answer _

end Packet

/-! ## One callback -/

section Heard

variable {packets : List (List UInt8)} {told : List Told}

theorem hear_ack (view : View) (packet : List UInt8) (packets : List (List UInt8)) :
    View.hear (view, packet :: packets) .ack =
      (if command packet = 0x63 then .running else view, packets) := rfl

theorem hear_packet (view : View) (packets : List (List UInt8)) (payload : List UInt8) :
    View.hear (view, packets) (.packet payload) = (.halted, packets) := by
  cases packets <;> rfl

/-- What the debugger takes the MCU for when it has heard a reply. -/
def Reply.view (view : View) : Reply → View
  | .refused => view
  | .resumed => .running
  | .answered _ _ => .halted

theorem heard_reply {packet : List UInt8} {said : Reply} (replies : Replies packet said) (view : View)
    (more : List (List UInt8)) :
    said.items.foldl View.hear (view, packet :: more) = (said.view view, more) := by
  cases said with
  | refused => rfl
  | resumed =>
      show View.hear (view, packet :: more) .ack = _
      rw [hear_ack, if_pos replies.2]
      rfl
  | answered stop payload =>
      show (stop.toList.map stopPacket ++ [Item.packet payload]).foldl View.hear
        (View.hear (view, packet :: more) .ack) = _
      rw [hear_ack, if_neg replies.2.1]
      cases stop with
      | none => exact hear_packet _ _ _
      | some reason =>
          show View.hear (View.hear (view, more) (stopPacket reason)) (.packet payload) = _
          rw [hear_packet, stopPacket, hear_packet]
          rfl

/-- The debugger hears a reply to each packet, so no packet is left over. -/
theorem heard (replies : List.Forall₂ Replies packets (told.filterMap Told.reply?)) (view : View)
    (more : List (List UInt8)) :
    (told.flatMap Told.items).foldl View.hear (view, packets ++ more) =
      (view.after packets (told.flatMap Told.items), more) := by
  obtain ⟨view', all⟩ : ∃ view', ∀ more, (told.flatMap Told.items).foldl View.hear
      (view, packets ++ more) = (view', more) := by
    clear more
    induction told generalizing packets view with
    | nil =>
        cases replies
        exact ⟨view, fun more => rfl⟩
    | cons first told ih =>
        cases first with
        | stop reason =>
            obtain ⟨view', all⟩ := ih replies .halted
            refine ⟨view', fun more => ?_⟩
            rw [← all more, List.flatMap_cons, List.foldl_append]
            show (told.flatMap Told.items).foldl View.hear
              (View.hear (view, packets ++ more) (stopPacket reason)) = _
            rw [stopPacket, hear_packet]
        | reply said =>
            have both : List.Forall₂ Replies packets (said :: told.filterMap Told.reply?) := replies
            obtain ⟨packet, packets, first, rest, rfl⟩ := List.forall₂_cons_right_iff.mp both
            obtain ⟨view', all⟩ := ih rest (said.view view)
            refine ⟨view', fun more => ?_⟩
            rw [← all more, List.flatMap_cons, List.foldl_append, List.cons_append]
            show (told.flatMap Told.items).foldl View.hear
              (said.items.foldl View.hear (view, packet :: (packets ++ more))) = _
            rw [heard_reply first]
  have whole := all []
  rw [List.append_nil] at whole
  rw [all more, View.after, whole]

end Heard

/-- What the server says and does between two states, when it handles packets: each gets a reply, and
a right view of the debugger stays right, as long as the debugger sends packets only when it takes
the MCU for halted. -/
structure Gdb.Tells (gdb gdb' : Gdb) (packets : List (List UInt8)) (told : List Told) : Prop where
  puts : gdb.Puts gdb' (spoken told)
  replies : List.Forall₂ Replies packets (told.filterMap Told.reply?)
  right : gdb'.connected = true → ∀ view : View, view.Right gdb.mcu →
    (packets = [] ∨ view = .halted) →
    (view.after packets (told.flatMap Told.items)).Right gdb'.mcu

section Tells

variable {pastTable : UInt32 → Bool} {gdb gdb' gdb₁ : Gdb} {packet : List UInt8} {n : Nat} {b : Bool}
  {packets : List (List UInt8)} {told more : List Told}

theorem spoken_append (told more : List Told) : spoken (told ++ more) = spoken told ++ spoken more := by
  rw [spoken, List.flatMap_append, List.flatMap_append]
  rfl

theorem View.after_append (replies : List.Forall₂ Replies packets (told.filterMap Told.reply?))
    (view : View) (packets' : List (List UInt8)) (items : List Item) :
    view.after (packets ++ packets') (told.flatMap Told.items ++ items) =
      (view.after packets (told.flatMap Told.items)).after packets' items := by
  rw [View.after, List.foldl_append, heard replies]
  rfl

/-- What is said after the packets. -/
theorem Gdb.Tells.trans (first : gdb.Tells gdb₁ packets told) (second : gdb₁.Tells gdb' [] more) :
    gdb.Tells gdb' packets (told ++ more) where
  puts := by
    rw [spoken_append]
    exact first.puts.trans second.puts
  replies := by
    rw [List.filterMap_append, ← List.append_nil packets]
    exact List.rel_append first.replies second.replies
  right := by
    intro connected view right halted
    have before := first.right (second.puts.all connected).1 view right halted
    rw [List.flatMap_append, ← List.append_nil packets, View.after_append first.replies]
    exact second.right connected _ before (.inl rfl)

/-- What the connection and the MCU do not depend on may change before. -/
theorem Gdb.Tells.congr (tells : gdb₁.Tells gdb' packets told) (sent : gdb₁.sent = gdb.sent)
    (connected : gdb₁.connected = gdb.connected) (mcu : gdb₁.mcu = gdb.mcu) :
    gdb.Tells gdb' packets told where
  puts := by
    obtain ⟨part, all, closed⟩ := tells.puts
    rw [sent, connected] at *
    exact ⟨part, all, closed⟩
  replies := tells.replies
  right := by
    rw [← mcu]
    exact tells.right

theorem tells_nothing (sent : gdb'.sent = gdb.sent) (connected : gdb'.connected = gdb.connected)
    (mcu : gdb'.mcu = gdb.mcu) : gdb.Tells gdb' [] [] where
  puts := .none sent connected
  replies := .nil
  right := by
    intro _ view right _
    rw [mcu]
    exact right

/-- The connection is closed. -/
theorem tells_gdbClientClose (gdb : Gdb) : gdb.Tells (gdbClientClose gdb) [] [] where
  puts := .lost rfl rfl
  replies := .nil
  right := nofun

/-- A packet is handled, which the debugger sends when it takes the MCU for halted. -/
theorem tells_gdbHandlePacket (finds : gdb.Finds n packet)
    (handled : gdbHandlePacket pastTable gdb 0 n = .ok b gdb') :
    ∃ said, gdb.Tells gdb' [packet] [.reply said] := by
  have after : ∀ {said : Reply}, Replies packet said → ∀ view : View,
      view.after [packet] ([Told.reply said].flatMap Told.items) = said.view view := by
    intro said replies view
    rw [List.flatMap_singleton, View.after]
    exact congrArg Prod.fst (heard_reply replies view [])
  have told : ∀ said : Reply, spoken [.reply said] = said.items.flatMap Item.bytes := fun said => by
    rw [spoken, List.flatMap_singleton]
    rfl
  rcases gdbHandlePacket_cases pastTable finds with ⟨bad, gdb₁, refused, puts, mcu⟩ | ⟨intact, gdb₁,
    dispatched, puts, mcu, first⟩
  · rw [refused] at handled
    cases handled
    have replies : Replies packet .refused := bad
    refine ⟨.refused, ⟨?_, .cons replies .nil, fun _ view right _ => ?_⟩⟩
    · rw [told]
      simpa [Reply.items] using puts
    · rw [after replies, mcu]
      exact right
  · rw [dispatched] at handled
    by_cases resumes : command packet = 0x63
    · have resumed : gdbDispatch pastTable gdb₁ 1 = .ok true { gdb₁ with mcu := mcuResume gdb₁.mcu } := by
        unfold gdbDispatch
        rw [first, resumes]
        rfl
      rw [resumed] at handled
      cases handled
      have replies : Replies packet .resumed := ⟨intact, resumes⟩
      refine ⟨.resumed, ⟨?_, .cons replies .nil, fun _ view right _ => ?_⟩⟩
      · rw [told]
        simpa [Reply.items] using (⟨puts.part, puts.all, puts.closed⟩ :
          gdb.Puts { gdb₁ with mcu := mcuResume gdb₁.mcu } Item.ack.bytes)
      · rw [after replies]
        exact fun halted => absurd halted Bool.false_ne_true
    · rw [← first] at resumes
      obtain ⟨stop, payload, answer, halts, kept⟩ := answers_gdbDispatch resumes handled
      rw [first] at resumes halts
      have replies : Replies packet (.answered stop payload) := ⟨intact, resumes, halts⟩
      refine ⟨.answered stop payload, ⟨?_, .cons replies .nil, fun _ view right halted => ?_⟩⟩
      · rw [told]
        exact puts.trans answer
      · rw [after replies]
        rcases halted with none | rfl
        · cases none
        · rw [mcu] at kept
          exact kept right

theorem tells_stop (stop : Option Int)
    (puts : gdb.Puts gdb' ((stop.toList.map stopPacket).flatMap Item.bytes))
    (right : gdb'.connected = true → ∀ view : View, view.Right gdb.mcu →
      (if stop = none then view else .halted).Right gdb'.mcu) :
    gdb.Tells gdb' [] (stop.toList.map Told.stop) := by
  cases stop with
  | none =>
      exact ⟨puts, .nil, fun connected view holds _ => right connected view holds⟩
  | some reason =>
      refine ⟨?_, .nil, fun connected view holds _ => ?_⟩
      · exact puts
      · have heard : view.after [] ([Told.stop reason].flatMap Told.items) = .halted :=
          congrArg Prod.fst (hear_packet view [] (ascii "S" ++ hexText (.ofInt reason) 1))
        rw [Option.toList_some, List.map_singleton, heard]
        exact right connected view holds

/-- A break halts the MCU. -/
theorem tells_gdbHalt (gdb : Gdb) {reason : Int} (told : 0 ≤ reason) :
    ∃ stop : Option Int, gdb.Tells (gdbHalt gdb reason) [] (stop.toList.map Told.stop) := by
  unfold gdbHalt
  split_ifs with already
  · exact ⟨none, tells_nothing rfl rfl rfl⟩
  · have mcu : (mcuHalt gdb.mcu reason).halted = true := by
      rw [mcuHalt, if_neg already]
    generalize mcuHalt gdb.mcu reason = halted at mcu ⊢
    obtain ⟨stop, puts, silent⟩ := puts_gdbMcuDidHalt { gdb with mcu := halted } reason
    refine ⟨stop, tells_stop stop ⟨puts.part, puts.all, puts.closed⟩ fun connected view _ => ?_⟩
    have spoke : stop ≠ none := fun none => by
      have negative := (silent (puts.all connected).1).mp none
      omega
    rw [if_neg spoke, (sends_gdbMcuDidHalt _ _).mcu]
    exact mcu

theorem tells_finish {calls : Calls} {some_ : Option (List UInt8)} {hasBreak : Bool}
    (finished : gdb.finish some_ hasBreak = .ok calls gdb') :
    ∃ stop : Option Int, gdb.Tells gdb' [] (stop.toList.map Told.stop) ∧ calls.packet = some_ := by
  cases finished
  cases hasBreak with
  | true =>
      obtain ⟨stop, tells⟩ := tells_gdbHalt gdb (show 0 ≤ halTrap by decide)
      exact ⟨stop, tells, rfl⟩
  | false => exact ⟨none, tells_nothing rfl rfl rfl, rfl⟩

theorem findStart_keeps (gdb : Gdb) :
    gdb.findStart.sent = gdb.sent ∧ gdb.findStart.connected = gdb.connected ∧
      gdb.findStart.mcu = gdb.mcu ∧ gdb.findStart.revBufferLength = gdb.revBufferLength ∧
      gdb.findStart.revBufferFilled ≤ gdb.revBufferFilled := by
  unfold Gdb.findStart
  dsimp only
  split_ifs with inside
  · refine ⟨rfl, rfl, rfl, rfl, ?_⟩
    show sizeSub _ _ ≤ _
    rw [sizeSub_eq inside.le]
    exact Nat.sub_le _ _
  · exact ⟨rfl, rfl, rfl, rfl, le_rfl⟩

/-- The callback finds the end of the connection. -/
theorem gdbReadCallback_closed (pastTable : UInt32 → Bool) (gdb : Gdb) :
    gdbReadCallback pastTable gdb (.bytes []) = .ok ⟨none, false⟩ (gdb.receive []) := by
  have first : (gdb.receive []).revBuffer 0 = 0 := by
    rw [Gdb.receive, if_pos rfl]
    show Function.update (write gdb.revBuffer gdb.revBufferFilled []) 0 0 0 = 0
    rw [Function.update_self]
  have start : (gdb.receive []).findStart = gdb.receive [] := rfl
  unfold gdbReadCallback
  dsimp only
  rw [start, first, if_neg (by decide)]
  rfl

theorem tells_gdbReadCallback {received : Received} {calls : Calls}
    (fits : ∀ chunk, received = .bytes chunk →
      gdb.revBufferFilled + chunk.length < gdb.revBufferLength)
    (called : gdbReadCallback pastTable gdb received = .ok calls gdb') :
    ∃ told, gdb.Tells gdb' calls.packet.toList told := by
  cases received with
  | again =>
      cases called
      exact ⟨[], tells_nothing rfl rfl rfl⟩
  | error =>
      cases called
      exact ⟨[], tells_gdbClientClose gdb⟩
  | bytes chunk =>
      have fits := fits chunk rfl
      by_cases closed : chunk = []
      · rw [closed, gdbReadCallback_closed] at called
        cases called
        exact ⟨[], ⟨.lost rfl rfl, .nil, nofun⟩⟩
      obtain ⟨sent, connected, mcu, length, filled⟩ := findStart_keeps (gdb.receive chunk)
      have same : (gdb.receive chunk).sent = gdb.sent ∧
          (gdb.receive chunk).connected = gdb.connected ∧ (gdb.receive chunk).mcu = gdb.mcu ∧
          (gdb.receive chunk).revBufferLength = gdb.revBufferLength ∧
          (gdb.receive chunk).revBufferFilled = gdb.revBufferFilled + chunk.length := by
        rw [Gdb.receive, if_neg closed]
        exact ⟨rfl, rfl, rfl, rfl, rfl⟩
      obtain ⟨sent₁, connected₁, mcu₁, length₁, filled₁⟩ := same
      rw [sent₁] at sent
      rw [connected₁] at connected
      rw [mcu₁] at mcu
      rw [length₁] at length
      rw [filled₁] at filled
      unfold gdbReadCallback at called
      dsimp only at called
      generalize decide (0x03 ∈ strays (gdb.receive chunk).received) = hasBreak at called
      generalize (gdb.receive chunk).findStart = start at called sent connected mcu length filled
      split_ifs at called with dollar
      · cases ended : start.findEnd with
        | none =>
            rw [ended] at called
            cases called
            exact ⟨[], tells_nothing sent connected mcu⟩
        | some n =>
            rw [ended] at called
            dsimp only at called
            rw [findEnd_eq] at ended
            have packet : read start.revBuffer 0 n = start.received.take n :=
              (holds_received start).read_take (le_of_packetEnd ended)
            have finds : start.Finds n (read start.revBuffer 0 n) :=
              ⟨dollar, ended, packet, by omega⟩
            cases handled : gdbHandlePacket pastTable start 0 n with
            | error stop gdb₁ =>
                rw [handled] at called
                cases called
            | ok b gdb₁ =>
                rw [handled] at called
                obtain ⟨said, first⟩ := tells_gdbHandlePacket finds handled
                obtain ⟨stop, second, eq⟩ := tells_finish called
                rw [eq]
                have after : gdb₁.Tells gdb' [] (stop.toList.map Told.stop) := second.congr rfl rfl rfl
                exact ⟨_, (first.congr sent connected mcu).trans after⟩
      · obtain ⟨stop, tells, eq⟩ := tells_finish called
        rw [eq]
        exact ⟨_, tells.congr sent connected mcu⟩

end Tells

/-! ## Sessions -/

/-- `mcu_runloop`, with the callback of the server when the MCU halts -/
def gdbRunloop (pastTable : UInt32 → Bool) (gdb : Gdb) : GdbResult Bool :=
  if gdb.mcu.halted then .ok true gdb
  else
    match mcuStep pastTable gdb.mcu with
    | .ok success mcu =>
        let stepped := { gdb with mcu }
        .ok success (if mcu.halted then gdbMcuDidHalt stepped mcu.haltReason else stepped)
    | .error stop mcu => .error stop { gdb with mcu }

/-- `gdb_accept_callback`, which closes a connection when there is another one -/
def gdbAcceptCallback (gdb : Gdb) (accepts : List UInt8 → Bool) : Gdb :=
  if gdb.connected then gdb else { gdb with connected := true, sent := [], accepts }

/-- A session with a debugger, from the callback that accepts its connection: in any order the MCU
runs, others try to connect, and bytes arrive of which the receive buffer has room for. `packets` are
those that have been handled, each of which was sent under a condition. -/
inductive Session (pastTable : UInt32 → Bool) (cond : List (List UInt8) → Gdb → Prop) :
    Gdb → List (List UInt8) → Gdb → Prop
  | accept {gdb : Gdb} (free : gdb.connected = false) (accepts : List UInt8 → Bool) :
      Session pastTable cond gdb [] (gdbAcceptCallback gdb accepts)
  | idle {gdb gdb₁ gdb₂ : Gdb} {packets : List (List UInt8)} {success : Bool}
      (session : Session pastTable cond gdb packets gdb₁)
      (ran : gdbRunloop pastTable gdb₁ = .ok success gdb₂) : Session pastTable cond gdb packets gdb₂
  | reject {gdb gdb₁ : Gdb} {packets : List (List UInt8)}
      (session : Session pastTable cond gdb packets gdb₁) (taken : gdb₁.connected = true)
      (accepts : List UInt8 → Bool) :
      Session pastTable cond gdb packets (gdbAcceptCallback gdb₁ accepts)
  | read {gdb gdb₁ gdb₂ : Gdb} {packets : List (List UInt8)} {received : Received} {calls : Calls}
      (session : Session pastTable cond gdb packets gdb₁) (connected : gdb₁.connected = true)
      (fits : ∀ chunk, received = .bytes chunk →
        gdb₁.revBufferFilled + chunk.length < gdb₁.revBufferLength)
      (called : gdbReadCallback pastTable gdb₁ received = .ok calls gdb₂)
      (satisfies : calls.packet = none ∨ cond packets gdb₁) :
      Session pastTable cond gdb (packets ++ calls.packet.toList) gdb₂

/-- The debugger has received all that was sent, and takes the MCU for halted, as it has done in the
beginning. -/
def Patient (packets : List (List UInt8)) (gdb : Gdb) : Prop :=
  ∃ items, received gdb.sent = some (.idle, items) ∧ View.halted.after packets items = .halted

section Sessions

variable {pastTable : UInt32 → Bool} {cond : List (List UInt8) → Gdb → Prop} {gdb gdb' : Gdb}
  {packets : List (List UInt8)} {b : Bool}

/-- The MCU runs. -/
theorem tells_gdbRunloop (ran : gdbRunloop pastTable gdb = .ok b gdb') :
    ∃ stop : Option Int, gdb.Tells gdb' [] (stop.toList.map Told.stop) := by
  unfold gdbRunloop at ran
  split_ifs at ran with already
  · cases ran
    exact ⟨none, tells_nothing rfl rfl rfl⟩
  · cases stepped : mcuStep pastTable gdb.mcu with
    | error stop mcu =>
        rw [stepped] at ran
        cases ran
    | ok success mcu =>
        rw [stepped] at ran
        dsimp only at ran
        -- the debugger has been right, so it takes the MCU for running
        have running : ∀ view : View, view.Right gdb.mcu → view = .running := by
          intro view right
          cases view with
          | running => rfl
          | halted => exact absurd right already
        split_ifs at ran with halts
        · cases ran
          obtain ⟨stop, puts, silent⟩ := puts_gdbMcuDidHalt { gdb with mcu } mcu.haltReason
          refine ⟨stop, tells_stop stop ⟨puts.part, puts.all, puts.closed⟩ fun connected view right => ?_⟩
          rw [running view right, (sends_gdbMcuDidHalt _ _).mcu]
          split_ifs with none
          · exact fun _ => (silent (puts.all connected).1).mp none
          · exact halts
        · cases ran
          refine ⟨none, tells_stop none (.none rfl rfl) fun _ view right => ?_⟩
          rw [running view right]
          exact fun halted => absurd halted halts

/-- What the server has said to packets: each has got a reply, all of it was sent while the connection
lasts, and the debugger's view is right then if `right` holds. -/
structure Gdb.HasTold (gdb : Gdb) (packets : List (List UInt8)) (told : List Told) (right : Prop) :
    Prop where
  replies : List.Forall₂ Replies packets (told.filterMap Told.reply?)
  part : gdb.sent <+: spoken told
  all : gdb.connected = true → gdb.sent = spoken told
  view : gdb.connected = true → right →
    (View.halted.after packets (told.flatMap Told.items)).Right gdb.mcu

theorem received_spoken (told : List Told) :
    received (spoken told) = some (.idle, told.flatMap Told.items) :=
  received_items _

/-- What the server says in addition. -/
theorem Gdb.HasTold.tells {right : Prop} {packets' : List (List UInt8)} {told more : List Told}
    (before : gdb.HasTold packets told right) (tells : gdb.Tells gdb' packets' more)
    (patient : packets' = [] ∨ (right → Patient packets gdb)) :
    gdb'.HasTold (packets ++ packets') (told ++ more) right where
  replies := by
    rw [List.filterMap_append]
    exact List.rel_append before.replies tells.replies
  part := by
    rw [spoken_append]
    cases connected : gdb.connected with
    | true =>
        obtain ⟨part, cut, sent⟩ := tells.puts.part
        rw [sent, before.all connected]
        exact (List.prefix_append_right_inj _).mpr cut
    | false =>
        rw [(tells.puts.closed connected).2]
        exact before.part.trans (List.prefix_append ..)
  all := by
    intro lasts
    obtain ⟨connected, sent⟩ := tells.puts.all lasts
    rw [sent, before.all connected, spoken_append]
  view := by
    intro lasts holds
    obtain ⟨connected, -⟩ := tells.puts.all lasts
    rw [List.flatMap_append, View.after_append before.replies]
    refine tells.right lasts _ (before.view connected holds) (patient.imp id fun patient => ?_)
    obtain ⟨items, heard, halted⟩ := patient holds
    rw [before.all connected, received_spoken] at heard
    cases heard
    exact halted

theorem Session.told (session : Session pastTable cond gdb packets gdb') :
    ∃ told, gdb'.HasTold packets told
      (gdb.mcu.halted = true ∧ ∀ packets gdb, cond packets gdb → Patient packets gdb) := by
  induction session with
  | accept free accepts =>
      have accepted : gdbAcceptCallback gdb accepts =
          { gdb with connected := true, sent := [], accepts } := by
        rw [gdbAcceptCallback, free, if_neg Bool.false_ne_true]
      rw [accepted]
      exact ⟨[], .nil, List.nil_prefix, fun _ => rfl, fun _ holds => holds.1⟩
  | idle session ran ih =>
      obtain ⟨told, before⟩ := ih
      obtain ⟨stop, tells⟩ := tells_gdbRunloop ran
      have after := before.tells tells (.inl rfl)
      rw [List.append_nil] at after
      exact ⟨_, after⟩
  | reject session taken accepts ih =>
      rw [gdbAcceptCallback, if_pos taken]
      exact ih
  | read session connected fits called satisfies ih =>
      obtain ⟨told, before⟩ := ih
      obtain ⟨more, tells⟩ := tells_gdbReadCallback fits called
      refine ⟨told ++ more, before.tells tells ?_⟩
      rcases satisfies with none | satisfies
      · rw [none]
        exact .inl rfl
      · exact .inr fun holds => holds.2 _ _ satisfies

end Sessions

/-- A server that nobody is connected to. -/
def freeGdb : Gdb := { newGdb 16 with connected := false }

/-- A debugger sends `c` when it has connected, and a break. -/
theorem session_break :
    ∃ packets gdb', Session (fun _ => false) Patient freeGdb packets gdb' ∧
      gdb'.sent = ascii "+\n$S05#b8" ∧ gdb'.connected = true := by
  have accepted : Session (fun _ => false) Patient freeGdb [] _ := .accept rfl fun _ => true
  have resumed := @Session.read _ _ _ _ _ _ (.bytes (ascii "$c#63")) _ accepted rfl
    (fun chunk eq => by cases eq; decide) rfl (.inr ⟨[], rfl, rfl⟩)
  have stopped := @Session.read _ _ _ _ _ _ (.bytes [3]) _ resumed rfl
    (fun chunk eq => by cases eq; decide) rfl (.inl rfl)
  exact ⟨_, _, stopped, rfl, rfl⟩

/-- **The stream**: in every session, whatever the MCU executes and however the bytes of the debugger
arrive, the debugger can read what was sent. It finds a reply to each packet that was handled, in
their order: a refusal if the checksum is wrong, and else an acknowledgement, with an answer unless
the packet is `c`. Between the replies it finds packets that tell that the MCU has halted. When the
connection is lost it finds the first of all this, and while it lasts there is nothing else. -/
theorem session_received {pastTable : UInt32 → Bool} {cond : List (List UInt8) → Gdb → Prop}
    {gdb gdb' : Gdb} {packets : List (List UInt8)}
    (session : Session pastTable cond gdb packets gdb') :
    ∃ told : List Told, List.Forall₂ Replies packets (told.filterMap Told.reply?) ∧
      (∃ rx items, received gdb'.sent = some (rx, items) ∧ items <+: told.flatMap Told.items) ∧
      (gdb'.connected = true → received gdb'.sent = some (.idle, told.flatMap Told.items)) := by
  obtain ⟨told, replies, part, all, -⟩ := session.told
  refine ⟨told, replies, Receiver.run_prefix part (received_spoken told), fun connected => ?_⟩
  rw [all connected, received_spoken]

/-- The debugger that sends `c` and a break hears an acknowledgement, and that the MCU has halted. -/
theorem session_received_break :
    ∃ packets gdb', ∃ told : List Told, Session (fun _ => false) Patient freeGdb packets gdb' ∧
      gdb'.sent = ascii "+\n$S05#b8" ∧ List.Forall₂ Replies packets (told.filterMap Told.reply?) ∧
      received gdb'.sent = some (.idle, told.flatMap Told.items) := by
  obtain ⟨packets, gdb', session, sent, connected⟩ := session_break
  obtain ⟨told, replies, -, all⟩ := session_received session
  exact ⟨packets, gdb', told, session, sent, replies, all connected⟩

/-- **The view**: a debugger that connects when the MCU is halted, and from then on sends packets only
when it takes the MCU for halted, is right in every session whenever it has received all that was
sent: the MCU is halted when the debugger takes it for halted, and when the debugger waits for it the
MCU runs or sleeps. -/
theorem session_view {pastTable : UInt32 → Bool} {gdb gdb' : Gdb} {packets : List (List UInt8)}
    (halted : gdb.mcu.halted = true) (session : Session pastTable Patient gdb packets gdb')
    (connected : gdb'.connected = true) :
    ∃ items, received gdb'.sent = some (.idle, items) ∧
      (View.halted.after packets items).Right gdb'.mcu := by
  obtain ⟨told, -, -, all, view⟩ := session.told
  refine ⟨_, ?_, view connected ⟨halted, fun _ _ patient => patient⟩⟩
  rw [all connected, received_spoken]

/-- The debugger that sends `c` and a break is right. -/
theorem session_view_break :
    ∃ packets gdb' items, Session (fun _ => false) Patient freeGdb packets gdb' ∧
      received gdb'.sent = some (.idle, items) ∧
      (View.halted.after packets items).Right gdb'.mcu := by
  obtain ⟨packets, gdb', session, -, connected⟩ := session_break
  obtain ⟨items, heard, right⟩ := session_view rfl session connected
  exact ⟨packets, gdb', items, session, heard, right⟩

end TheFirmware.Simulator
