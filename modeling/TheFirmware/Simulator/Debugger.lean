import TheFirmware.Lib.Receiver
import TheFirmware.Simulator.RegisterPackets

/-!
# The stream to the debugger

The server sends byte by byte, and the functions that send a packet do not look at whether the one
before could send. Over them stands what is meant, a list of items (`Item`), and a debugger that reads
the bytes one by one (`Rx.step`). It reads the items as they were meant (`received_items`), and each
function of the server sends the bytes of its items, or when the connection is lost the first of them
(`puts_gdbSendPacket`).
-/

namespace TheFirmware.Simulator

open LittleEndian CString Cells

/-! ## What the debugger receives -/

/-- What the server sends: that a packet has arrived, or not as it was sent, or a packet. -/
inductive Item : Type
  | ack
  | nack
  | packet (payload : List UInt8)
  deriving DecidableEq, Repr

/-- The bytes of an item. -/
def Item.bytes : Item → List UInt8
  | .ack => ascii "+\n"
  | .nack => ascii "-\n"
  | .packet payload =>
      ascii "$" ++ escape payload ++ ascii "#" ++ hexText (escape payload).sum.toUInt32 1

/-- Where the debugger is in the stream. -/
inductive Rx : Type
  | idle
  /-- Behind `+` or `-`. -/
  | sign (item : Item)
  /-- In a packet, behind an escape or not. -/
  | body (payload : List UInt8) (sum : UInt8) (escaped : Bool)
  /-- Behind the `#`. -/
  | high (payload : List UInt8) (sum : UInt8)
  /-- Behind the first digit of the checksum. -/
  | low (payload : List UInt8) (sum : UInt8) (digit : Nat)
  deriving DecidableEq, Repr

/-- The debugger reads a byte. -/
def Rx.step : Rx → UInt8 → Option (Rx × Option Item)
  | .idle, c =>
      if c = 0x2B then some (.sign .ack, none)
      else if c = 0x2D then some (.sign .nack, none)
      else if c = 0x24 then some (.body [] 0 false, none)
      else none
  | .sign item, c => if c = 0x0A then some (.idle, some item) else none
  | .body payload sum true, c => some (.body (payload ++ [c ^^^ 0x20]) (sum + c) false, none)
  | .body payload sum false, c =>
      if c = 0x7D then some (.body payload (sum + c) true, none)
      else if c = 0x23 then some (.high payload sum, none)
      else if c = 0x24 then none
      else some (.body (payload ++ [c]) (sum + c) false, none)
  | .high payload sum, c => (hexDigit c).map fun digit => (.low payload sum digit, none)
  | .low payload sum first, c =>
      (hexDigit c).bind fun second =>
        if 16 * first + second = sum.toNat then some (.idle, some (.packet payload)) else none

/-- What the debugger reads in a stream. -/
def received (stream : List UInt8) : Option (Rx × List Item) :=
  Receiver.run Rx.step .idle stream

section Debugger

variable {payload data : List UInt8} {sum : UInt8} {item : Item} {items : List Item}

theorem body_escape (payload : List UInt8) (sum : UInt8) :
    Rx.step (.body payload sum false) 0x7D = some (.body payload (sum + 0x7D) true, none) := rfl

theorem body_escaped (payload : List UInt8) (sum c : UInt8) :
    Rx.step (.body payload sum true) (c ^^^ 0x20) =
      some (.body (payload ++ [c]) (sum + (c ^^^ 0x20)) false, none) := by
  have back : (c ^^^ 0x20) ^^^ 0x20 = c := by
    rw [UInt8.xor_assoc, UInt8.xor_self, UInt8.xor_zero]
  rw [Rx.step, back]

theorem body_plain {c : UInt8} (plain : ¬ Special c) (payload : List UInt8) (sum : UInt8) :
    Rx.step (.body payload sum false) c = some (.body (payload ++ [c]) (sum + c) false, none) := by
  obtain ⟨start, hash, mark⟩ := not_or.mp plain |>.imp id not_or.mp
  simp only [Rx.step, start, hash, mark, if_false]

/-- The debugger undoes the escapes. -/
theorem run_escape (payload data : List UInt8) (sum : UInt8) :
    Receiver.run Rx.step (.body payload sum false) (escape data) =
      some (.body (payload ++ data) (sum + (escape data).sum) false, []) := by
  induction data generalizing payload sum with
  | nil =>
      show some (Rx.body payload sum false, []) = some (Rx.body (payload ++ []) (sum + 0) false, [])
      rw [List.append_nil, UInt8.add_zero]
  | cons c data ih =>
      by_cases special : Special c
      · rw [escape_special special, Receiver.run_cons_none (body_escape payload sum),
          Receiver.run_cons_none (body_escaped payload (sum + 0x7D) c), ih, List.sum_cons,
          List.sum_cons, List.append_assoc, UInt8.add_assoc, UInt8.add_assoc]
        rfl
      · rw [escape_plain special, Receiver.run_cons_none (body_plain special payload sum), ih,
          List.sum_cons, List.append_assoc, UInt8.add_assoc]
        rfl

/-- The debugger checks the checksum. -/
theorem run_checksum (payload : List UInt8) (sum : UInt8) :
    Receiver.run Rx.step (.high payload sum) (hexText sum.toUInt32 1) =
      some (.idle, [.packet payload]) := by
  obtain ⟨a, b, text⟩ : ∃ a b, hexText sum.toUInt32 1 = [a, b] := ⟨_, _, rfl⟩
  have number := isNumber_byte sum
  rw [text] at number ⊢
  obtain ⟨x, first⟩ := Option.isSome_iff_exists.mp (number.digit a (List.mem_cons_self ..))
  obtain ⟨y, second⟩ := Option.isSome_iff_exists.mp
    (number.digit b (List.mem_cons_of_mem _ (List.mem_cons_self ..)))
  have value := number.value
  simp only [hexValue, List.foldl_cons, List.foldl_nil, first, second, Option.getD_some] at value
  have atHigh : Rx.step (.high payload sum) a = some (.low payload sum x, none) := by
    simp only [Rx.step, first, Option.map_some]
  have atLow : Rx.step (.low payload sum x) b = some (.idle, some (.packet payload)) := by
    simp only [Rx.step, second, Option.bind_some]
    exact if_pos (by omega)
  rw [Receiver.run_cons_none atHigh, Receiver.run_cons atLow]
  rfl

theorem received_item (item : Item) :
    Receiver.run Rx.step .idle item.bytes = some (.idle, [item]) := by
  cases item with
  | ack => rfl
  | nack => rfl
  | packet payload =>
      have start : Receiver.run Rx.step .idle (ascii "$") = some (.body [] 0 false, []) := rfl
      have body := run_escape [] payload 0
      have hash : Receiver.run Rx.step (.body payload (escape payload).sum false) (ascii "#") =
          some (.high payload (escape payload).sum, []) := rfl
      rw [List.nil_append, UInt8.zero_add] at body
      exact Receiver.run_append_of (Receiver.run_append_of (Receiver.run_append_of start body) hash)
        (run_checksum payload _)

/-- The debugger receives what is sent. -/
theorem received_items (items : List Item) :
    received (items.flatMap Item.bytes) = some (.idle, items) :=
  Receiver.run_flatMap fun item _ => received_item item

end Debugger

/-! ## Sending -/

/-- Bytes are sent, all of them or, when the connection is lost, the first of them. -/
structure Gdb.Puts (gdb gdb' : Gdb) (bytes : List UInt8) : Prop where
  part : ∃ part, part <+: bytes ∧ gdb'.sent = gdb.sent ++ part
  all : gdb'.connected = true → gdb.connected = true ∧ gdb'.sent = gdb.sent ++ bytes
  closed : gdb.connected = false → gdb'.connected = false ∧ gdb'.sent = gdb.sent

section Sending

variable {gdb gdb₁ gdb₂ : Gdb} {bytes rest : List UInt8}

theorem Gdb.Puts.none (sent : gdb₁.sent = gdb.sent) (connected : gdb₁.connected = gdb.connected) :
    gdb.Puts gdb₁ [] := by
  refine ⟨⟨[], List.prefix_rfl, ?_⟩, fun lasts => ⟨?_, ?_⟩, fun lost => ⟨?_, sent⟩⟩
  · rw [List.append_nil, sent]
  · rw [← connected, lasts]
  · rw [List.append_nil, sent]
  · rw [connected, lost]

/-- The bytes that follow are those that are right as long as the connection lasts. -/
theorem Gdb.Puts.append (first : gdb.Puts gdb₁ bytes)
    (second : gdb₁.connected = true → gdb₁.Puts gdb₂ rest)
    (closed : gdb₁.connected = false → gdb₂.connected = false ∧ gdb₂.sent = gdb₁.sent) :
    gdb.Puts gdb₂ (bytes ++ rest) := by
  cases connected : gdb₁.connected with
  | true =>
      obtain ⟨before, sent⟩ := first.all connected
      have second := second connected
      refine ⟨?_, fun lasts => ⟨before, ?_⟩, fun lost => ?_⟩
      · obtain ⟨part, cut, more⟩ := second.part
        refine ⟨bytes ++ part, (List.prefix_append_right_inj bytes).mpr cut, ?_⟩
        rw [more, sent, List.append_assoc]
      · rw [(second.all lasts).2, sent, List.append_assoc]
      · rw [before] at lost
        cases lost
  | false =>
      obtain ⟨lost, sent⟩ := closed connected
      refine ⟨?_, fun lasts => ?_, fun before => ⟨lost, sent.trans (first.closed before).2⟩⟩
      · obtain ⟨part, cut, more⟩ := first.part
        exact ⟨part, cut.trans (List.prefix_append ..), sent.trans more⟩
      · rw [lost] at lasts
        cases lasts

theorem Gdb.Puts.trans (first : gdb.Puts gdb₁ bytes) (second : gdb₁.Puts gdb₂ rest) :
    gdb.Puts gdb₂ (bytes ++ rest) :=
  first.append (fun _ => second) second.closed

theorem puts_gdbWrite (gdb : Gdb) (bytes : List UInt8) :
    gdb.Puts (gdbWrite gdb bytes).2 bytes ∧
      ((gdbWrite gdb bytes).1 = false → (gdbWrite gdb bytes).2.connected = false) := by
  unfold gdbWrite
  split_ifs with works
  · refine ⟨⟨⟨bytes, List.prefix_rfl, rfl⟩, fun _ => ⟨works.1, rfl⟩, fun lost => ?_⟩, fun failed => ?_⟩
    · rw [works.1] at lost
      cases lost
    · cases failed
  · refine ⟨⟨⟨[], List.nil_prefix, ?_⟩, fun lasts => ?_, fun _ => ⟨rfl, rfl⟩⟩, fun _ => rfl⟩
    · rw [List.append_nil]
      rfl
    · cases lasts

theorem packetChecksum_gdbWrite (gdb : Gdb) (bytes : List UInt8) :
    (gdbWrite gdb bytes).2.packetChecksum = gdb.packetChecksum := by
  unfold gdbWrite
  split_ifs
  · rfl
  · rfl

/-- Bytes of a packet are sent, which the checksum includes. -/
structure Gdb.PutsSummed (gdb gdb' : Gdb) (bytes : List UInt8) : Prop where
  puts : gdb.Puts gdb' bytes
  sum : gdb'.connected = true → gdb'.packetChecksum = gdb.packetChecksum + bytes.sum

theorem Gdb.PutsSummed.trans (first : gdb.PutsSummed gdb₁ bytes)
    (second : gdb₁.PutsSummed gdb₂ rest) : gdb.PutsSummed gdb₂ (bytes ++ rest) where
  puts := first.puts.trans second.puts
  sum := by
    intro connected
    rw [second.sum connected, first.sum (second.puts.all connected).1, List.sum_append,
      UInt8.add_assoc]

/-- Of two strings the second one is not sent if the first one could not be. -/
theorem Gdb.PutsSummed.cut (first : gdb.PutsSummed gdb₁ bytes) (lost : gdb₁.connected = false) :
    gdb.PutsSummed gdb₁ (bytes ++ rest) where
  puts := first.puts.append (fun connected => by rw [lost] at connected; cases connected)
    fun _ => ⟨lost, rfl⟩
  sum := by
    intro connected
    rw [lost] at connected
    cases connected

theorem puts_gdbSendPacketRaw (gdb : Gdb) (c : UInt8) :
    gdb.PutsSummed (gdbSendPacketRaw gdb c).2 [c] ∧
      ((gdbSendPacketRaw gdb c).1 = false → (gdbSendPacketRaw gdb c).2.connected = false) := by
  obtain ⟨puts, failed⟩ := puts_gdbWrite { gdb with packetChecksum := gdb.packetChecksum + c } [c]
  refine ⟨⟨⟨puts.part, puts.all, puts.closed⟩, fun _ => ?_⟩, failed⟩
  unfold gdbSendPacketRaw
  rw [packetChecksum_gdbWrite, List.sum_singleton]

theorem puts_gdbSendPacketChar (gdb : Gdb) (c : UInt8) :
    gdb.PutsSummed (gdbSendPacketChar gdb c).2 (escape [c]) ∧
      ((gdbSendPacketChar gdb c).1 = false → (gdbSendPacketChar gdb c).2.connected = false) := by
  unfold gdbSendPacketChar
  by_cases special : Special c
  · have mustEscape : c = 0x24 ∨ c = 0x23 ∨ c = 0x7D := special
    rw [if_pos mustEscape, escape_special special]
    obtain ⟨mark, lost⟩ := puts_gdbSendPacketRaw gdb 0x7D
    cases raw : gdbSendPacketRaw gdb 0x7D with
    | mk works gdb₁ =>
        rw [raw] at mark lost
        cases works with
        | true =>
            obtain ⟨puts, failed⟩ := puts_gdbSendPacketRaw gdb₁ (c ^^^ 0x20)
            exact ⟨mark.trans puts, failed⟩
        | false => exact ⟨mark.cut (lost rfl), fun _ => lost rfl⟩
  · have asItIs : ¬ (c = 0x24 ∨ c = 0x23 ∨ c = 0x7D) := special
    rw [if_neg asItIs, escape_plain special]
    exact puts_gdbSendPacketRaw gdb c

theorem puts_gdbSendPacketStr (gdb : Gdb) (str : List UInt8) :
    gdb.PutsSummed (gdbSendPacketStr gdb str).2 (escape str) := by
  induction str generalizing gdb with
  | nil =>
      refine ⟨.none rfl rfl, fun _ => ?_⟩
      show gdb.packetChecksum = gdb.packetChecksum + 0
      rw [UInt8.add_zero]
  | cons c str ih =>
      obtain ⟨char, lost⟩ := puts_gdbSendPacketChar gdb c
      have text : escape (c :: str) = escape [c] ++ escape str := escape_append [c] str
      rw [text]
      unfold gdbSendPacketStr
      cases sent : gdbSendPacketChar gdb c with
      | mk works gdb₁ =>
          rw [sent] at char lost
          cases works with
          | true => exact char.trans (ih gdb₁)
          | false => exact char.cut (lost rfl)

theorem puts_strings (gdb : Gdb) (strs : List (List UInt8)) :
    gdb.PutsSummed (strs.foldl (fun gdb str => (gdbSendPacketStr gdb str).2) gdb)
      (escape strs.flatten) := by
  induction strs generalizing gdb with
  | nil => exact puts_gdbSendPacketStr gdb []
  | cons str strs ih =>
      rw [List.flatten_cons, escape_append]
      exact (puts_gdbSendPacketStr gdb str).trans (ih _)

/-- The end of a packet, with the checksum of what was sent. -/
theorem puts_gdbSendPacketEnd (gdb : Gdb) :
    gdb.Puts (gdbSendPacketEnd gdb).2
      (ascii "#" ++ hexText gdb.packetChecksum.toUInt32 1) := by
  obtain ⟨hash, failed⟩ := puts_gdbWrite gdb (ascii "#")
  have checksum := packetChecksum_gdbWrite gdb (ascii "#")
  unfold gdbSendPacketEnd
  cases wrote : gdbWrite gdb (ascii "#") with
  | mk works gdb₁ =>
      rw [wrote] at hash failed checksum
      cases works with
      | true =>
          obtain ⟨digits, -⟩ := puts_gdbSendPacketStr gdb₁ (hexText gdb₁.packetChecksum.toUInt32 1)
          rw [escape_of_plain (plain_hexText _ 1)] at digits
          have same : gdb₁.packetChecksum = gdb.packetChecksum := checksum
          rw [← same]
          exact hash.trans digits
      | false =>
          exact hash.append (fun lasts => by rw [failed rfl] at lasts; cases lasts)
            fun lost => ⟨lost, rfl⟩

/-- A packet is sent as a whole, or the first bytes of it. -/
theorem puts_gdbSendPacket (gdb : Gdb) (strs : List (List UInt8)) :
    gdb.Puts (gdbSendPacket gdb strs) (Item.packet strs.flatten).bytes := by
  unfold gdbSendPacket gdbSendPacketBegin
  dsimp only
  obtain ⟨start, -⟩ := puts_gdbWrite { gdb with packetChecksum := 0 } (ascii "$")
  have zero := packetChecksum_gdbWrite { gdb with packetChecksum := 0 } (ascii "$")
  generalize (gdbWrite { gdb with packetChecksum := 0 } (ascii "$")).2 = begun at start zero ⊢
  obtain ⟨body, sum⟩ := puts_strings begun strs
  generalize strs.foldl (fun gdb str => (gdbSendPacketStr gdb str).2) begun = filled at body sum ⊢
  have front : gdb.Puts filled (ascii "$" ++ escape strs.flatten) :=
    Gdb.Puts.trans ⟨start.part, start.all, start.closed⟩ body
  have back := puts_gdbSendPacketEnd filled
  rw [Item.bytes, List.append_assoc]
  refine front.append (fun lasts => ?_) back.closed
  have whole := sum lasts
  rw [zero, UInt8.zero_add] at whole
  rw [whole] at back
  exact back

/-- Nothing that was sent is wrong when the connection is lost. -/
theorem Gdb.Puts.lost (sent : gdb₁.sent = gdb.sent) (lost : gdb₁.connected = false) :
    gdb.Puts gdb₁ bytes := by
  refine ⟨⟨[], List.nil_prefix, ?_⟩, fun lasts => ?_, fun _ => ⟨lost, sent⟩⟩
  · rw [List.append_nil, sent]
  · rw [lost] at lasts
    cases lasts

end Sending

end TheFirmware.Simulator
