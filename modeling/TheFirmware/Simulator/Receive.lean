import TheFirmware.Simulator.Gdb

/-!
# Receiving from gdb

`gdb_read_callback` appends the bytes that a read has returned to the receive buffer, and handles
what it finds there. `feed` is what the bytes mean, one after the other: a packet goes from `$` to
the second byte behind `#`, a byte 0x03 outside packets is a break, and all other bytes outside
packets are ignored. So `feed` does not depend on how the bytes are divided into reads (`feed_append`).

One call of the callback handles at most one packet, and halts the MCU at most once. `CleanRead` says
when that is enough: for such a read the callback does what the new bytes mean (`read_iff`), and so it
is for a run of them (`reads_feed`).
-/

namespace TheFirmware.Simulator

open LittleEndian CString Cells

/-! ## The meaning of the bytes -/

/-- Where the packet ends that starts with the first byte, if it does. -/
def packetEnd (bytes : List UInt8) : Option Nat :=
  let hash := (bytes.takeWhile (· ≠ 0x23)).length
  if hash + 3 ≤ bytes.length then some (hash + 3) else none

/-- What bytes mean: packets, breaks, and the bytes that are left. -/
structure Parsed : Type where
  packets : List (List UInt8)
  breaks : Nat
  rest : List UInt8

/-- First some bytes, then further ones. -/
def Parsed.andThen (first second : Parsed) : Parsed :=
  ⟨first.packets ++ second.packets, first.breaks + second.breaks, second.rest⟩

/-- One more byte. -/
def feedByte (rest : List UInt8) (c : UInt8) : Parsed :=
  if rest.head? = some 0x24 then
    if packetEnd (rest ++ [c]) = none then ⟨[], 0, rest ++ [c]⟩ else ⟨[rest ++ [c]], 0, []⟩
  else if c = 0x24 then ⟨[], 0, [c]⟩
  else ⟨[], if c = 0x03 then 1 else 0, rest ++ [c]⟩

/-- What further bytes mean when there are bytes that are left. -/
def feed : List UInt8 → List UInt8 → Parsed
  | rest, [] => ⟨[], 0, rest⟩
  | rest, c :: bytes => (feedByte rest c).andThen (feed (feedByte rest c).rest bytes)

/-- The bytes in front of the first packet. -/
def strays (bytes : List UInt8) : List UInt8 := bytes.takeWhile (· ≠ 0x24)

/-- The bytes from the first packet on. -/
def fromStart (bytes : List UInt8) : List UInt8 := bytes.dropWhile (· ≠ 0x24)

/-- The number of breaks in front of the first packet. -/
def breaks (bytes : List UInt8) : Nat := (strays bytes).count 0x03

section Feed

variable {rest bytes more : List UInt8} {c : UInt8} {m n : Nat}

theorem Parsed.andThen_assoc (first second third : Parsed) :
    (first.andThen second).andThen third = first.andThen (second.andThen third) := by
  simp only [Parsed.andThen, List.append_assoc, Nat.add_assoc]

/-- The meaning does not depend on how the bytes are divided. -/
theorem feed_append (rest bytes more : List UInt8) :
    feed rest (bytes ++ more) = (feed rest bytes).andThen (feed (feed rest bytes).rest more) := by
  induction bytes generalizing rest with
  | nil =>
      show feed rest more = _
      simp [feed, Parsed.andThen]
  | cons c bytes ih =>
      rw [List.cons_append, feed, feed, ih, Parsed.andThen_assoc]
      rfl

/-! ### The end of a packet -/

theorem takeWhile_of_short {p : UInt8 → Bool}
    (short : ((bytes ++ more).takeWhile p).length < bytes.length) :
    (bytes ++ more).takeWhile p = bytes.takeWhile p := by
  rw [List.takeWhile_append] at short ⊢
  split
  · rename_i all
    rw [if_pos all, List.length_append] at short
    omega
  · rfl

theorem packetEnd_append (ended : packetEnd bytes = some n) (more : List UInt8) :
    packetEnd (bytes ++ more) = some n := by
  unfold packetEnd at *
  dsimp only at *
  split at ended
  · rename_i enough
    have same : (bytes ++ more).takeWhile (· ≠ 0x23) = bytes.takeWhile (· ≠ 0x23) := by
      rw [List.takeWhile_append, if_neg (by omega)]
    rw [same, List.length_append, if_pos (by omega)]
    exact ended
  · cases ended

/-- A packet ends with the byte that makes it complete. -/
theorem packetEnd_snoc (before : packetEnd bytes = none) (ended : packetEnd (bytes ++ [c]) = some n) :
    n = bytes.length + 1 := by
  unfold packetEnd at *
  dsimp only at *
  split at ended
  · rename_i enough
    cases ended
    rw [List.length_append, List.length_singleton] at enough
    by_contra early
    have same : (bytes ++ [c]).takeWhile (· ≠ 0x23) = bytes.takeWhile (· ≠ 0x23) :=
      takeWhile_of_short (by omega)
    rw [same] at early enough
    rw [if_pos (by omega)] at before
    cases before
  · cases ended

theorem le_of_packetEnd (ended : packetEnd bytes = some n) : n ≤ bytes.length := by
  unfold packetEnd at ended
  dsimp only at ended
  split at ended
  · cases ended
    assumption
  · cases ended

/-! ### Bytes of one kind -/

theorem head?_append_of_start (start : rest.head? = some 0x24) (more : List UInt8) :
    (rest ++ more).head? = some 0x24 := by
  rw [List.head?_append, start]
  rfl

/-- Bytes outside packets. -/
theorem feed_strays (outside : rest.head? ≠ some 0x24) (none : 0x24 ∉ bytes) :
    feed rest bytes = ⟨[], bytes.count 0x03, rest ++ bytes⟩ := by
  induction bytes generalizing rest with
  | nil => rw [feed, List.count_nil, List.append_nil]
  | cons c bytes ih =>
      have first : c ≠ 0x24 := fun eq => none (eq ▸ List.mem_cons_self)
      have still : (rest ++ [c]).head? ≠ some 0x24 := by
        cases rest with
        | nil => simpa using first
        | cons d rest => exact outside
      have byte : feedByte rest c = ⟨[], if c = 0x03 then 1 else 0, rest ++ [c]⟩ := by
        rw [feedByte, if_neg outside, if_neg first]
      rw [feed, byte, ih still fun mem => none (List.mem_cons_of_mem c mem)]
      simp [Parsed.andThen, List.count_cons, Nat.add_comm]

/-- Bytes of a packet that is not complete. -/
theorem feed_partial (start : rest.head? = some 0x24) (open_ : packetEnd (rest ++ bytes) = none) :
    feed rest bytes = ⟨[], 0, rest ++ bytes⟩ := by
  induction bytes generalizing rest with
  | nil => rw [feed, List.append_nil]
  | cons c bytes ih =>
      rw [List.append_cons] at open_
      have still : packetEnd (rest ++ [c]) = none := by
        cases ended : packetEnd (rest ++ [c]) with
        | none => rfl
        | some n =>
            rw [packetEnd_append ended] at open_
            cases open_
      have byte : feedByte rest c = ⟨[], 0, rest ++ [c]⟩ := by
        rw [feedByte, if_pos start, if_pos still]
      rw [feed, byte, ih (head?_append_of_start start _) open_, ← List.append_cons]
      rfl

/-- Bytes that complete a packet, and those behind it. -/
theorem feed_complete (start : rest.head? = some 0x24) (open_ : packetEnd rest = none)
    (ended : packetEnd (rest ++ bytes) = some n) :
    feed rest bytes = Parsed.andThen ⟨[(rest ++ bytes).take n], 0, []⟩
      (feed [] ((rest ++ bytes).drop n)) := by
  induction bytes generalizing rest with
  | nil =>
      rw [List.append_nil, open_] at ended
      cases ended
  | cons c bytes ih =>
      rw [List.append_cons] at ended ⊢
      cases here : packetEnd (rest ++ [c]) with
      | none =>
          have byte : feedByte rest c = ⟨[], 0, rest ++ [c]⟩ := by
            rw [feedByte, if_pos start, if_pos here]
          rw [feed, byte, ih (head?_append_of_start start _) here ended]
          simp [Parsed.andThen]
      | some k =>
          have byte : feedByte rest c = ⟨[rest ++ [c]], 0, []⟩ := by
            rw [feedByte, if_pos start, if_neg (by rw [here]; exact nofun)]
          have eq : n = (rest ++ [c]).length := by
            rw [packetEnd_append here] at ended
            rw [← Option.some.inj ended, packetEnd_snoc open_ here, List.length_append,
              List.length_singleton]
          rw [feed, byte, eq, List.take_left, List.drop_left]

/-! ### All bytes -/

theorem strays_append_fromStart (bytes : List UInt8) : strays bytes ++ fromStart bytes = bytes :=
  List.takeWhile_append_dropWhile

theorem not_mem_strays (bytes : List UInt8) : 0x24 ∉ strays bytes := by
  intro mem
  have other := List.mem_takeWhile_imp mem
  simp at other

theorem fromStart_eq_nil_iff : fromStart bytes = [] ↔ 0x24 ∉ bytes := by
  unfold fromStart
  rw [List.dropWhile_eq_nil_iff]
  constructor
  · intro all mem
    simpa using all _ mem
  · intro none c mem
    refine decide_eq_true fun eq => none ?_
    rw [← eq]
    exact mem

theorem strays_of_not_mem (none : 0x24 ∉ bytes) : strays bytes = bytes := by
  have whole := strays_append_fromStart bytes
  rwa [fromStart_eq_nil_iff.mpr none, List.append_nil] at whole

theorem exists_dropWhile {p : UInt8 → Bool} (some : bytes.dropWhile p ≠ []) :
    ∃ c tail, bytes.dropWhile p = c :: tail ∧ p c = false := by
  obtain ⟨c, tail, eq⟩ := List.exists_cons_of_ne_nil some
  have first := List.head?_dropWhile_not p bytes
  rw [eq] at first
  refine ⟨c, tail, eq, ?_⟩
  simpa using first

theorem exists_fromStart (some : fromStart bytes ≠ []) : ∃ tail, fromStart bytes = 0x24 :: tail := by
  obtain ⟨c, tail, eq, stop⟩ := exists_dropWhile some
  have c_eq : c = 0x24 := by simpa using stop
  rw [c_eq] at eq
  exact ⟨tail, eq⟩

theorem head?_strays (bytes : List UInt8) : (strays bytes).head? ≠ some 0x24 := fun eq =>
  not_mem_strays bytes (List.mem_of_mem_head? eq)

theorem feed_nil (bytes : List UInt8) :
    feed [] bytes =
      Parsed.andThen ⟨[], breaks bytes, strays bytes⟩ (feed (strays bytes) (fromStart bytes)) := by
  have front : feed [] (strays bytes) = ⟨[], breaks bytes, strays bytes⟩ :=
    feed_strays nofun (not_mem_strays bytes)
  have whole := feed_append [] (strays bytes) (fromStart bytes)
  rwa [strays_append_fromStart, front] at whole

theorem feed_start (outside : rest.head? ≠ some 0x24) (bytes : List UInt8) :
    feed rest (0x24 :: bytes) = feed [0x24] bytes := by
  have byte : feedByte rest 0x24 = ⟨[], 0, [0x24]⟩ := by
    rw [feedByte, if_neg outside, if_pos rfl]
  rw [feed, byte]
  simp [Parsed.andThen]

/-- The bytes that are left when there is no complete packet. -/
def waiting (bytes : List UInt8) : List UInt8 :=
  if fromStart bytes = [] then bytes else fromStart bytes

/-- Bytes without a complete packet. -/
theorem feed_nil_none (open_ : packetEnd (fromStart bytes) = none) :
    feed [] bytes = ⟨[], breaks bytes, waiting bytes⟩ := by
  rw [feed_nil]
  unfold waiting
  split
  · rename_i none
    rw [none, feed, strays_of_not_mem (fromStart_eq_nil_iff.mp none)]
    rfl
  · rename_i some
    obtain ⟨tail, eq⟩ := exists_fromStart some
    rw [eq] at open_ ⊢
    rw [feed_start (head?_strays bytes), feed_partial rfl open_]
    rfl

/-- Bytes with a complete packet. -/
theorem feed_nil_some (ended : packetEnd (fromStart bytes) = some n) :
    feed [] bytes = Parsed.andThen ⟨[(fromStart bytes).take n], breaks bytes, []⟩
      (feed [] ((fromStart bytes).drop n)) := by
  have some : fromStart bytes ≠ [] := by
    intro none
    rw [none] at ended
    cases ended
  obtain ⟨tail, eq⟩ := exists_fromStart some
  rw [feed_nil, eq]
  rw [eq] at ended
  rw [feed_start (head?_strays bytes), feed_complete rfl rfl ended]
  simp [Parsed.andThen]

end Feed

/-! ## The callback -/

/-- What `read` returns: bytes, of which none are the end of the connection, or an error, of which
`EAGAIN` is one. -/
inductive Received : Type
  | bytes (chunk : List UInt8)
  | again
  | error

/-- What a call of the callback has called: `gdb_handle_packet` for a packet, and `mcu_halt`. -/
structure Calls : Type where
  packet : Option (List UInt8)
  halt : Bool

/-- The difference of two values of type `size_t`. -/
def sizeSub (a b : Nat) : Nat := if b ≤ a then a - b else a + 2 ^ 64 - b

/-- The bytes in the receive buffer. -/
def Gdb.received (gdb : Gdb) : List UInt8 := read gdb.revBuffer 0 gdb.revBufferFilled

/-- The buffer after a read, which has put the bytes into it. -/
def Gdb.receive (gdb : Gdb) (chunk : List UInt8) : Gdb :=
  let buffer := write gdb.revBuffer gdb.revBufferFilled chunk
  let gdb := if chunk = [] then gdbClientClose gdb else gdb
  let filled := gdb.revBufferFilled + chunk.length
  { gdb with revBuffer := Function.update buffer filled 0, revBufferFilled := filled }

/-- The bytes of the buffer from `n` on are moved to its beginning. -/
def Gdb.removeFront (gdb : Gdb) (n : Nat) : Gdb :=
  let filled := sizeSub gdb.revBufferFilled n
  { gdb with revBuffer := memmove gdb.revBuffer 0 n filled, revBufferFilled := filled }

/-- The beginning of the packet is moved to the beginning of the buffer. -/
def Gdb.findStart (gdb : Gdb) : Gdb :=
  let n := (strays gdb.received).length
  if n < gdb.revBufferFilled then gdb.removeFront n else gdb

/-- The end of the packet at the beginning of the buffer, if all of it is there. -/
def Gdb.findEnd (gdb : Gdb) : Option Nat :=
  let hash := (gdb.received.takeWhile (· ≠ 0x23)).length
  if gdb.revBuffer hash ≠ 0x23 then none
  else if gdb.revBufferFilled < hash + 3 then none
  else some (hash + 3)

/-- The end of the callback. -/
def Gdb.finish (gdb : Gdb) (packet : Option (List UInt8)) (hasBreak : Bool) : GdbResult Calls :=
  .ok ⟨packet, hasBreak⟩ (if hasBreak then gdbHalt gdb halTrap else gdb)

/-- `gdb_read_callback` -/
def gdbReadCallback (pastTable : UInt32 → Bool) (gdb : Gdb) : Received → GdbResult Calls
  | .again => .ok ⟨none, false⟩ gdb
  | .error => .ok ⟨none, false⟩ (gdbClientClose gdb)
  | .bytes chunk =>
      let gdb := gdb.receive chunk
      let hasBreak := decide (0x03 ∈ strays gdb.received)
      let gdb := gdb.findStart
      if gdb.revBuffer 0 = 0x24 then
        match gdb.findEnd with
        | none => .ok ⟨none, false⟩ gdb
        | some n =>
            match gdbHandlePacket pastTable gdb 0 n with
            | .error stop gdb => .error stop gdb
            | .ok _ handled =>
                let handled := handled.removeFront n
                handled.finish (some (read gdb.revBuffer 0 n))
                  (hasBreak || decide (0x03 ∈ strays handled.received))
      else gdb.finish none hasBreak

/-! ## The buffer as a list -/

section Buffer

variable {gdb gdb' : Gdb} {chunk bytes : List UInt8} {n : Nat}

theorem sizeSub_eq {a b : Nat} (le : b ≤ a) : sizeSub a b = a - b := if_pos le

theorem length_received (gdb : Gdb) : gdb.received.length = gdb.revBufferFilled :=
  length_read _ _ _

theorem holds_received (gdb : Gdb) : Holds gdb.revBuffer 0 gdb.received := holds_read _ _ _

theorem received_eq (held : Holds gdb.revBuffer 0 bytes) (filled : gdb.revBufferFilled = bytes.length) :
    gdb.received = bytes := held.read_eq filled

theorem received_receive (nonempty : chunk ≠ []) :
    (gdb.receive chunk).received = gdb.received ++ chunk := by
  have filled : (gdb.receive chunk).revBufferFilled = (gdb.received ++ chunk).length := by
    rw [List.length_append, length_received, Gdb.receive, if_neg nonempty]
  refine received_eq ?_ filled
  have there : Holds (write gdb.revBuffer gdb.revBufferFilled chunk) 0 (gdb.received ++ chunk) := by
    rw [holds_append_iff, length_received, Nat.zero_add]
    refine ⟨(holds_received gdb).write ?_, holds_write _ _ _⟩
    rw [length_received]
    omega
  refine there.congr fun i small => ?_
  rw [List.length_append, length_received] at small
  rw [Gdb.receive, if_neg nonempty]
  exact Function.update_of_ne (by omega) _ _

theorem drop_received (gdb : Gdb) (n : Nat) :
    gdb.received.drop n = read gdb.revBuffer n (gdb.revBufferFilled - n) := by
  by_cases inside : n ≤ gdb.revBufferFilled
  · have split := holds_received gdb
    rw [← List.take_append_drop n gdb.received, holds_append_iff, List.length_take,
      length_received, Nat.min_eq_left inside, Nat.zero_add] at split
    exact (split.2.read_eq (by rw [List.length_drop, length_received])).symm
  · rw [List.drop_eq_nil_of_le (by rw [length_received]; omega), Nat.sub_eq_zero_of_le (by omega)]
    rfl

theorem received_removeFront (le : n ≤ gdb.revBufferFilled) :
    (gdb.removeFront n).received = gdb.received.drop n := by
  have size := sizeSub_eq le
  refine received_eq ?_ ?_
  · rw [Gdb.removeFront, size]
    dsimp only
    rw [memmove, ← drop_received]
    exact holds_write _ _ _
  · rw [Gdb.removeFront, size, List.length_drop, length_received]

/-- The bytes from the first packet on are moved to the beginning, if there is one. -/
theorem received_findStart (gdb : Gdb) :
    gdb.findStart.received = waiting gdb.received := by
  have whole := strays_append_fromStart gdb.received
  have lengths := congrArg List.length whole
  rw [List.length_append, length_received] at lengths
  unfold Gdb.findStart waiting
  dsimp only
  by_cases none : fromStart gdb.received = []
  · rw [none, List.length_nil] at lengths
    rw [if_neg (by omega), if_pos none]
  · have some := List.length_pos_of_ne_nil none
    rw [if_pos (by omega), if_neg none, received_removeFront (by omega)]
    nth_rewrite 2 [← whole]
    rw [List.drop_left]

/-- The end of a packet is found if it is in the buffer. -/
theorem findEnd_eq (gdb : Gdb) : gdb.findEnd = packetEnd gdb.received := by
  have held := holds_received gdb
  have length := length_received gdb
  have whole : gdb.received.takeWhile (· ≠ 0x23) ++ gdb.received.dropWhile (· ≠ 0x23) =
      gdb.received := List.takeWhile_append_dropWhile
  have lengths := congrArg List.length whole
  rw [List.length_append, length] at lengths
  unfold Gdb.findEnd packetEnd
  dsimp only
  rw [length]
  by_cases none : gdb.received.dropWhile (· ≠ 0x23) = []
  · rw [none, List.length_nil] at lengths
    split
    · rw [if_neg (by omega)]
    · rw [if_pos (by omega), if_neg (by omega)]
  · obtain ⟨c, tail, eq, stop⟩ := exists_dropWhile none
    have c_eq : c = 0x23 := by simpa using stop
    rw [← whole, holds_append_iff, eq, holds_cons_iff, Nat.zero_add] at held
    rw [if_neg (not_not.mpr (held.2.1.trans c_eq))]
    split
    · rw [if_neg (by omega)]
    · rw [if_pos (by omega)]

theorem handles_gdbHalt (gdb : Gdb) (reason : Int) : gdb.Handles n (gdbHalt gdb reason) := by
  unfold gdbHalt
  split
  · exact (Gdb.Sends.refl gdb).handles
  · rename_i running
    have locked : gdb.mcu.unlocked = false → (mcuHalt gdb.mcu reason).unlocked = false := by
      intro locked
      rw [mcuHalt, if_neg running]
      exact locked
    exact (handles_mcu locked).trans (sends_gdbMcuDidHalt _ reason).handles

/-- The bytes of the buffer, when the callback has come to its end and the connection has lasted. -/
theorem finish_received {packet : Option (List UInt8)} {hasBreak : Bool} {calls : Calls}
    (finished : gdb.finish packet hasBreak = .ok calls gdb') (lasts : gdb'.connected = true) :
    calls = ⟨packet, hasBreak⟩ ∧ gdb.connected = true ∧ gdb'.received = gdb.received := by
  cases finished
  refine ⟨rfl, ?_⟩
  cases hasBreak with
  | false => exact ⟨lasts, rfl⟩
  | true =>
      have handles : gdb.Handles 0 (gdbHalt gdb halTrap) := handles_gdbHalt gdb halTrap
      obtain ⟨connected, filled⟩ := handles.lasts lasts
      refine ⟨connected, ?_⟩
      unfold Gdb.received
      rw [if_pos rfl, filled]
      exact read_congr fun i _ => handles.revBuffer _ (Nat.zero_le _)

/-- The bytes behind a packet that has been handled, when the connection has lasted. -/
theorem handled_received {pastTable : UInt32 → Bool} {b : Bool} (le : n ≤ gdb.revBufferFilled)
    (handled : gdbHandlePacket pastTable gdb 0 n = .ok b gdb')
    (lasts : (gdb'.removeFront n).connected = true) :
    (gdb'.removeFront n).received = gdb.received.drop n := by
  have handles : gdb.Handles n gdb' := by
    have all := handles_gdbHandlePacket pastTable gdb 0 n
    rw [handled, Nat.zero_add] at all
    exact all
  obtain ⟨_, filled⟩ := handles.lasts lasts
  rw [received_removeFront (by rw [filled]; exact le), drop_received, drop_received, filled]
  exact read_congr fun i _ => handles.revBuffer _ (Nat.le_add_right n i)

/-- What the callback has called, and the bytes that are left, when these bytes are in the buffer. -/
def readResult (bytes : List UInt8) : Calls × List UInt8 :=
  match packetEnd (fromStart bytes) with
  | none => (⟨none, fromStart bytes = [] ∧ breaks bytes ≠ 0⟩, waiting bytes)
  | some n =>
      let behind := (fromStart bytes).drop n
      (⟨some ((fromStart bytes).take n), breaks bytes + breaks behind ≠ 0⟩, behind)

theorem decide_mem_strays (bytes : List UInt8) :
    decide (0x03 ∈ strays bytes) = decide (breaks bytes ≠ 0) := by
  unfold breaks
  simp [List.count_eq_zero]

theorem revBuffer_zero {c : UInt8} {tail : List UInt8} (eq : gdb.received = c :: tail) :
    gdb.revBuffer 0 = c := by
  have held := holds_received gdb
  rw [eq] at held
  exact (holds_cons_iff.mp held).1

/-- A packet is at the beginning of the buffer if there is a start of one. -/
theorem starts_iff (nonempty : bytes ≠ []) (eq : gdb.received = waiting bytes) :
    gdb.revBuffer 0 = 0x24 ↔ fromStart bytes ≠ [] := by
  unfold waiting at eq
  split at eq
  · rename_i none
    obtain ⟨c, tail, rfl⟩ := List.exists_cons_of_ne_nil nonempty
    rw [revBuffer_zero eq]
    have ne : c ≠ 0x24 := fun same =>
      fromStart_eq_nil_iff.mp none (by rw [same]; exact List.mem_cons_self)
    exact ⟨fun same => absurd same ne, fun some => absurd none some⟩
  · rename_i some
    obtain ⟨tail, start⟩ := exists_fromStart some
    rw [start] at eq
    exact ⟨fun _ => some, fun _ => revBuffer_zero eq⟩

/-- **One call of the callback**, when the connection has lasted. -/
theorem gdbReadCallback_result {pastTable : UInt32 → Bool} {calls : Calls} (nonempty : chunk ≠ [])
    (called : gdbReadCallback pastTable gdb (.bytes chunk) = .ok calls gdb')
    (lasts : gdb'.connected = true) :
    (calls, gdb'.received) = readResult (gdb.received ++ chunk) := by
  have received : (gdb.receive chunk).received = gdb.received ++ chunk := received_receive nonempty
  have found := received_findStart (gdb.receive chunk)
  have some_bytes : gdb.received ++ chunk ≠ [] := by
    intro empty
    exact nonempty (List.append_eq_nil_iff.mp empty).2
  unfold gdbReadCallback at called
  dsimp only at called
  rw [received] at called found
  rw [decide_mem_strays, findEnd_eq, found] at called
  generalize (gdb.receive chunk).findStart = start at called found
  generalize gdb.received ++ chunk = bytes at called found some_bytes ⊢
  unfold readResult
  by_cases none : fromStart bytes = []
  · rw [if_neg (fun here => (starts_iff some_bytes found).mp here none)] at called
    obtain ⟨rfl, _, kept⟩ := finish_received called lasts
    have empty : packetEnd [] = Option.none := rfl
    rw [none, empty]
    refine Prod.ext ?_ (kept.trans found)
    simp
  · rw [if_pos ((starts_iff some_bytes found).mpr none)] at called
    have waits : waiting bytes = fromStart bytes := if_neg none
    rw [waits] at called found
    cases ended : packetEnd (fromStart bytes) with
    | none =>
        rw [ended] at called
        cases called
        refine Prod.ext ?_ (found.trans waits.symm)
        simp [none]
    | some n =>
        rw [ended] at called
        dsimp only at called
        have le : n ≤ start.revBufferFilled := by
          rw [← length_received, found]
          exact le_of_packetEnd ended
        cases handled : gdbHandlePacket pastTable start 0 n with
        | error stop gdb₁ =>
            rw [handled] at called
            cases called
        | ok b gdb₁ =>
            rw [handled] at called
            obtain ⟨rfl, connected, kept⟩ := finish_received called lasts
            have behind := handled_received le handled connected
            rw [found] at behind
            have packet : read start.revBuffer 0 n = (fromStart bytes).take n := by
              have held := holds_received start
              rw [found] at held
              exact held.read_take (le_of_packetEnd ended)
            refine Prod.ext ?_ (kept.trans behind)
            rw [behind, packet, decide_mem_strays]
            simp

end Buffer

/-! ## Clean reads -/

/-- What the callback has done, as what bytes mean. -/
def Calls.parsed (calls : Calls) (rest : List UInt8) : Parsed :=
  ⟨calls.packet.toList, if calls.halt then 1 else 0, rest⟩

/-- The bytes that may be left: they hold no complete packet, and nothing is in front of the start of
one. -/
def Left (bytes : List UInt8) : Prop := packetEnd (fromStart bytes) = none ∧ waiting bytes = bytes

/-- The reads that one call of the callback is enough for. If the bytes in the buffer hold a complete
packet, there is no second one behind it, and nothing between it and the start of one. The breaks
among the new bytes are as many as the call halts the MCU: none if a packet has been started and is
not complete, else one if there is any break in the buffer, be it new or old. -/
def CleanRead (old chunk : List UInt8) : Prop :=
  let bytes := old ++ chunk
  match packetEnd (fromStart bytes) with
  | none =>
      if fromStart bytes = [] then breaks bytes = breaks old + min 1 (breaks bytes)
      else breaks bytes = breaks old
  | some n =>
      let behind := (fromStart bytes).drop n
      Left behind ∧ breaks bytes + breaks behind = breaks old + min 1 (breaks bytes + breaks behind)

section Clean

variable {old chunk bytes : List UInt8}

theorem Left.feed (left : Left bytes) : feed [] bytes = ⟨[], breaks bytes, bytes⟩ := by
  rw [feed_nil_none left.1, left.2]

theorem left_nil : Left [] := ⟨rfl, rfl⟩

theorem fromStart_fromStart (bytes : List UInt8) : fromStart (fromStart bytes) = fromStart bytes := by
  by_cases none : fromStart bytes = []
  · rw [none]
    rfl
  · obtain ⟨tail, eq⟩ := exists_fromStart none
    rw [eq]
    rfl

theorem left_waiting (open_ : packetEnd (fromStart bytes) = none) : Left (waiting bytes) := by
  unfold Left waiting
  split
  · exact ⟨open_, rfl⟩
  · rename_i some
    rw [fromStart_fromStart]
    refine ⟨open_, ?_⟩
    split
    · rfl
    · rfl

/-- The bytes that are left mean nothing but breaks, so the new bytes mean what all mean besides. -/
theorem feed_left (left : Left old) (chunk : List UInt8) :
    (feed [] (old ++ chunk)).packets = (feed old chunk).packets ∧
      (feed [] (old ++ chunk)).breaks = breaks old + (feed old chunk).breaks ∧
      (feed [] (old ++ chunk)).rest = (feed old chunk).rest := by
  rw [feed_append, left.feed]
  exact ⟨rfl, rfl, rfl⟩

theorem parsed_eq_iff {a b : Parsed} :
    a = b ↔ a.packets = b.packets ∧ a.breaks = b.breaks ∧ a.rest = b.rest := by
  constructor
  · intro eq
    rw [eq]
    exact ⟨rfl, rfl, rfl⟩
  · intro ⟨packets, breaks, rest⟩
    cases a
    cases b
    simp only [Parsed.mk.injEq]
    exact ⟨packets, breaks, rest⟩

theorem left_iff : Left bytes ↔ (feed [] bytes).packets = [] ∧ (feed [] bytes).rest = bytes := by
  constructor
  · intro left
    rw [left.feed]
    exact ⟨rfl, rfl⟩
  · intro ⟨packets, rest⟩
    cases ended : packetEnd (fromStart bytes) with
    | none =>
        rw [feed_nil_none ended] at rest
        exact ⟨ended, rest⟩
    | some n =>
        rw [feed_nil_some ended] at packets
        cases packets

/-- **One read**: the callback does what the new bytes mean if and only if the read is clean. -/
theorem read_iff (left : Left old) :
    (readResult (old ++ chunk)).1.parsed (readResult (old ++ chunk)).2 = feed old chunk ↔
      CleanRead old chunk := by
  obtain ⟨packets, breaks_eq, rest⟩ := feed_left left chunk
  rw [parsed_eq_iff, ← packets, ← rest]
  have shift : ∀ n, n = (feed old chunk).breaks ↔ (feed [] (old ++ chunk)).breaks = breaks old + n := by
    intro n
    omega
  rw [shift]
  unfold readResult CleanRead
  dsimp only
  cases ended : packetEnd (fromStart (old ++ chunk)) with
  | none =>
      rw [feed_nil_none ended]
      by_cases none : fromStart (old ++ chunk) = []
      · by_cases zero : breaks (old ++ chunk) = 0
        · simp [Calls.parsed, none, zero]
        · have one : min 1 (breaks (old ++ chunk)) = 1 := by omega
          simp [Calls.parsed, none, zero, one]
      · simp [Calls.parsed, none]
  | some n =>
      rw [feed_nil_some ended]
      dsimp only [Parsed.andThen, Calls.parsed]
      generalize (fromStart (old ++ chunk)).drop n = behind
      have halts : (if decide (breaks (old ++ chunk) + breaks behind ≠ 0) = true then 1 else 0) =
          min 1 (breaks (old ++ chunk) + breaks behind) := by
        by_cases zero : breaks (old ++ chunk) + breaks behind = 0
        · simp [zero]
        · rw [if_pos (decide_eq_true zero)]
          omega
      rw [halts]
      constructor
      · intro ⟨packets, halted, rest⟩
        have left : Left behind := left_iff.mpr ⟨by simpa using packets, rest.symm⟩
        rw [left.feed] at halted
        exact ⟨left, halted⟩
      · intro ⟨left, halted⟩
        rw [left.feed]
        exact ⟨rfl, halted, rfl⟩

end Clean

/-! ## Runs -/

/-- What happens between two reads: the MCU runs and may send, but the connection lasts. -/
structure Gdb.Idles (gdb gdb' : Gdb) : Prop where
  revBuffer : gdb'.revBuffer = gdb.revBuffer
  revBufferFilled : gdb'.revBufferFilled = gdb.revBufferFilled
  revBufferLength : gdb'.revBufferLength = gdb.revBufferLength
  connected : gdb'.connected = true

/-- A run of reads that all return some bytes and fit into the receive buffer, while the connection
lasts: the packets that are handled, and the number of times that the MCU is halted for a break. Each
read satisfies `cond` with what is in the buffer before it. -/
inductive Reads (pastTable : UInt32 → Bool) (cond : List UInt8 → List UInt8 → Prop) :
    Gdb → List (List UInt8) → List (List UInt8) → Nat → Gdb → Prop
  | done (gdb : Gdb) : Reads pastTable cond gdb [] [] 0 gdb
  | read {gdb gdb₁ gdb₂ gdb' : Gdb} {chunk : List UInt8} {chunks packets : List (List UInt8)}
      {calls : Calls} {halts : Nat} (idles : gdb.Idles gdb₁) (nonempty : chunk ≠ [])
      (fits : gdb₁.revBufferFilled + chunk.length < gdb₁.revBufferLength)
      (satisfies : cond gdb₁.received chunk)
      (called : gdbReadCallback pastTable gdb₁ (.bytes chunk) = .ok calls gdb₂)
      (lasts : gdb₂.connected = true) (more : Reads pastTable cond gdb₂ chunks packets halts gdb') :
      Reads pastTable cond gdb (chunk :: chunks) (calls.packet.toList ++ packets)
        ((if calls.halt then 1 else 0) + halts) gdb'

section Runs

variable {pastTable : UInt32 → Bool} {gdb gdb' : Gdb} {chunks packets : List (List UInt8)}
  {halts : Nat}

/-- What a clean read leaves in the buffer. -/
theorem CleanRead.left {old chunk : List UInt8} (clean : CleanRead old chunk) :
    Left (readResult (old ++ chunk)).2 := by
  unfold readResult
  unfold CleanRead at clean
  dsimp only at clean ⊢
  cases ended : packetEnd (fromStart (old ++ chunk)) with
  | none => exact left_waiting ended
  | some n =>
      rw [ended] at clean
      exact clean.1

/-- **A run of clean reads** does what its bytes mean. -/
theorem reads_feed (left : Left gdb.received)
    (reads : Reads pastTable CleanRead gdb chunks packets halts gdb') :
    feed gdb.received chunks.flatten = ⟨packets, halts, gdb'.received⟩ := by
  induction reads with
  | done gdb => rfl
  | @read gdb gdb₁ gdb₂ gdb' chunk chunks packets calls halts idles nonempty fits clean called
      lasts more ih =>
      have same : gdb₁.received = gdb.received := by
        unfold Gdb.received
        rw [idles.revBuffer, idles.revBufferFilled]
      rw [same] at clean
      have result := gdbReadCallback_result nonempty called lasts
      rw [same] at result
      have meant := (read_iff left).mpr clean
      rw [← result] at meant
      have left₂ : Left gdb₂.received := by
        have after := clean.left
        rwa [← result] at after
      have rest := ih left₂
      rw [List.flatten_cons, feed_append, ← meant]
      dsimp only [Calls.parsed, Parsed.andThen]
      rw [rest]

end Runs

/-- **Chunks**: two runs on new connections that receive the same bytes in clean reads, however these
are divided, handle the same packets, halt the MCU for as many breaks and leave the same bytes in the
buffer. -/
theorem chunks_agree {pastTable₁ pastTable₂ : UInt32 → Bool} {gdb₁ gdb₂ gdb₁' gdb₂' : Gdb}
    {chunks₁ chunks₂ packets₁ packets₂ : List (List UInt8)} {halts₁ halts₂ : Nat}
    (new₁ : gdb₁.revBufferFilled = 0) (new₂ : gdb₂.revBufferFilled = 0)
    (same : chunks₁.flatten = chunks₂.flatten)
    (reads₁ : Reads pastTable₁ CleanRead gdb₁ chunks₁ packets₁ halts₁ gdb₁')
    (reads₂ : Reads pastTable₂ CleanRead gdb₂ chunks₂ packets₂ halts₂ gdb₂') :
    packets₁ = packets₂ ∧ halts₁ = halts₂ ∧ gdb₁'.received = gdb₂'.received := by
  have empty : ∀ gdb : Gdb, gdb.revBufferFilled = 0 → gdb.received = [] := by
    intro gdb new
    unfold Gdb.received
    rw [new]
    rfl
  have first := reads_feed (by rw [empty _ new₁]; exact left_nil) reads₁
  have second := reads_feed (by rw [empty _ new₂]; exact left_nil) reads₂
  rw [empty _ new₁, same] at first
  rw [empty _ new₂, first] at second
  exact parsed_eq_iff.mp second

/-- A new connection with a receive buffer of the given length, of which the simulator has one of
4 KiB. -/
def newGdb (length : Nat) : Gdb where
  mcu := createdMcu
  connected := true
  revBuffer := fun _ => 0
  revBufferFilled := 0
  revBufferLength := length
  packetChecksum := 0
  sent := []
  accepts := fun _ => true

theorem Gdb.Idles.refl {gdb : Gdb} (connected : gdb.connected = true) : gdb.Idles gdb :=
  ⟨rfl, rfl, rfl, connected⟩

/-- The packet `v` in one read, and in two. -/
theorem chunks_agree_packet :
    ∃ packets₁ packets₂ halts₁ halts₂ gdb₁ gdb₂,
      Reads (fun _ => false) CleanRead (newGdb 16) [ascii "$v#76"] packets₁ halts₁ gdb₁ ∧
      Reads (fun _ => false) CleanRead (newGdb 16) [ascii "$v", ascii "#76"] packets₂ halts₂ gdb₂ ∧
      packets₁ = packets₂ ∧ halts₁ = halts₂ ∧ gdb₁.received = gdb₂.received := by
  have whole : Reads (fun _ => false) CleanRead (newGdb 16) [ascii "$v#76"] _ _ _ :=
    .read (.refl rfl) (by decide) (by decide) ⟨⟨rfl, rfl⟩, rfl⟩ rfl rfl (.done _)
  have two : Reads (fun _ => false) CleanRead (newGdb 16) [ascii "$v", ascii "#76"] _ _ _ :=
    .read (.refl rfl) (by decide) (by decide) rfl rfl rfl
      (.read (.refl rfl) (by decide) (by decide) ⟨⟨rfl, rfl⟩, rfl⟩ rfl rfl (.done _))
  exact ⟨_, _, _, _, _, _, whole, two, chunks_agree (by rfl) (by rfl) (by rfl) whole two⟩

/-- All ways to divide a stream into reads on a new connection have the same outcome. -/
def ChunkIndependent (pastTable : UInt32 → Bool) (gdb : Gdb) (stream : List UInt8) : Prop :=
  ∀ chunks₁ chunks₂ packets₁ packets₂ halts₁ halts₂ gdb₁ gdb₂,
    chunks₁.flatten = stream → chunks₂.flatten = stream →
    Reads pastTable (fun _ _ => True) gdb chunks₁ packets₁ halts₁ gdb₁ →
    Reads pastTable (fun _ _ => True) gdb chunks₂ packets₂ halts₂ gdb₂ →
    packets₁ = packets₂ ∧ halts₁ = halts₂ ∧ gdb₁.received = gdb₂.received

/-- A break and a `+` halt the MCU once if they arrive together, and twice if they do not: the break
is still in the buffer when the `+` arrives. -/
theorem break_halts_again : ¬ ChunkIndependent (fun _ => false) (newGdb (4 * 1024)) [0x03, 0x2B] := by
  intro independent
  have together : Reads (fun _ => false) (fun _ _ => True) (newGdb (4 * 1024)) [[0x03, 0x2B]] _ _ _ :=
    .read (.refl rfl) (by decide) (by decide) trivial rfl rfl (.done _)
  have apart : Reads (fun _ => false) (fun _ _ => True) (newGdb (4 * 1024)) [[0x03], [0x2B]] _ _ _ :=
    .read (.refl rfl) (by decide) (by decide) trivial rfl rfl
      (.read (.refl rfl) (by decide) (by decide) trivial rfl rfl (.done _))
  have halts := (independent _ _ _ _ _ _ _ _ (by rfl) (by rfl) together apart).2.1
  exact absurd halts (by decide)

end TheFirmware.Simulator
