import TheFirmware.Config.Config

/-!
# Loading over a failing bus

`mcp24xx64_read` stores what it receives into the live configuration, page by page. When a transfer
fails, `config_load` returns without the defaults, and what has been received until then stays. The
status of the transfer of the CRC is not looked at: when it fails, the CRC is compared with what was
on the stack.

The bus fails by a pattern: transfer `i` fails after `failures i` bytes, or does not fail. The last
byte of a transfer ends it (state `0x58` of the I2C interrupt), so that a transfer that fails has
not stored it.
-/

namespace TheFirmware.Config

open Mcp24xx64

/-- An entry of the record of a bus: the address that was read or written, the status, and the bytes
that were stored. -/
structure Transfer : Type where
  address : Nat
  status : Status
  received : List UInt8
  deriving DecidableEq, Repr

/-- A 24xx64 on a bus that fails, with the transfers so far. -/
structure FailingEeprom : Type where
  cells : Nat → UInt8
  record : List Transfer

/-- What a transfer answers that reads at an address. -/
def FailingEeprom.answer (failures : Nat → Option Nat) (dev : FailingEeprom) (a n : Nat) :
    Status × List UInt8 :=
  match failures dev.record.length with
  | some received => (statusErr 0, (sequentialRead dev.cells a n).take (min received (n - 1)))
  | none => (statusOk, sequentialRead dev.cells a n)

/-- The device after a transfer. -/
def FailingEeprom.after (dev : FailingEeprom) (a : Nat) (answer : Status × List UInt8) :
    FailingEeprom :=
  { dev with record := dev.record ++ [⟨a, answer.1, answer.2⟩] }

/-- The end of a transfer. -/
def FailingEeprom.ends (dev : FailingEeprom) (a : Nat) (answer : Status × List UInt8) :
    Status × List UInt8 × FailingEeprom :=
  (answer.1, answer.2, dev.after a answer)

/-- A transfer with the device: an address, and either data to be written or a read. -/
def FailingEeprom.transfer (failures : Nat → Option Nat) (dev : FailingEeprom) (addr : UInt8)
    (writeBuffer : List UInt8) (readBufferLength : Nat) : Status × List UInt8 × FailingEeprom :=
  if addr ≠ mcp24xx64Address then dev.ends 0 (statusErr 0, [])
  else match writeBuffer with
    | high :: low :: data =>
        let a := (high.toNat * 256 + low.toNat) % eepromSize
        let answer := dev.answer failures a readBufferLength
        if data = [] ∨ answer.1 ≠ statusOk then dev.ends a answer
        else FailingEeprom.ends { dev with cells := pageWrite dev.cells a data } a answer
    | _ => dev.ends 0 (statusErr 0, [])

/-- The bus with the device on it. -/
def failingBus (failures : Nat → Option Nat) : I2cBus FailingEeprom where
  transfer := FailingEeprom.transfer failures

/-- The configuration that is stored in the cells. -/
def storedConfig (cells : Nat → UInt8) (length : Nat) : List UInt8 := sequentialRead cells 0 length

/-- The configuration when `m` bytes of the stored one have been received. -/
def partlyRead (stored ram : List UInt8) (m : Nat) : List UInt8 := stored.take m ++ ram.drop m

/-- The number of bytes that are received when transfer `i` of a configuration of `n` bytes fails
after `received` bytes, and those before it do not. -/
def receivedUntil (n i received : Nat) : Nat :=
  pageSize * i + min received (min pageSize (n - pageSize * i) - 1)

/-- What may be in memory after `config_load`: what was there before, the stored configuration with
a CRC that was read and is right, or the defaults. -/
def Intact (ram stored defaults : List UInt8) (loaded : Loaded FailingEeprom) : Prop :=
  loaded.config = ram ∨
  (loaded.config = stored ∧ loaded.dev.record.getLast? =
    some ⟨stored.length % eepromSize, statusOk, [crc8Maxim stored]⟩) ∨
  loaded.config = defaults

/-- The failures that do no harm. What has been received of the configuration when its transfer
fails is what was in memory before, or makes up the defaults; and when the transfer of the CRC
fails, the CRC is not on the stack by chance, unless the stored configuration was in memory before
or is the defaults. -/
structure Harmless (failures : Nat → Option Nat) (ram stored defaults : List UInt8)
    (stack : UInt8) : Prop where
  content : ∀ i received, i < pageCount ram → (∀ j < i, failures j = none) →
    failures i = some received →
    stored.take (receivedUntil ram.length i received) =
      ram.take (receivedUntil ram.length i received) ∨
    partlyRead stored ram (receivedUntil ram.length i received) = defaults
  crc : (∀ j < pageCount ram, failures j = none) → failures (pageCount ram) ≠ none →
    stack = crc8Maxim stored → stored = ram ∨ stored = defaults

section Specs

variable {failures : Nat → Option Nat} {cells : Nat → UInt8} {dev : FailingEeprom}
  {ram stored defaults : List UInt8} {stack : UInt8} {a b m n i offset : Nat} {address : UInt16}

/-! ## Reads -/

theorem length_sequentialRead : (sequentialRead cells a n).length = n := by
  unfold sequentialRead
  rw [List.length_map, List.length_range]

theorem sequentialRead_congr (same : a % eepromSize = b % eepromSize) :
    sequentialRead cells a n = sequentialRead cells b n := by
  refine List.map_congr_left fun i _ => ?_
  rw [Nat.add_mod, same, ← Nat.add_mod]

/-- A part of the stored configuration. -/
theorem sequentialRead_part (inside : a + m ≤ n) :
    sequentialRead cells a m = ((storedConfig cells n).drop a).take m := by
  refine List.ext_getElem ?_ fun j _ _ => ?_
  · rw [List.length_take, List.length_drop, storedConfig, length_sequentialRead,
      length_sequentialRead]
    omega
  · simp [storedConfig, sequentialRead]

/-- A transfer of an address reads there. -/
theorem transfer_address (address : UInt16) (n : Nat) :
    (failingBus failures).transfer dev mcp24xx64Address (addressBytes address) n =
      dev.ends (address.toNat % eepromSize) (dev.answer failures address.toNat n) := by
  obtain ⟨high, low, bytes, value⟩ := addressBytes_eq address
  have same : dev.answer failures (address.toNat % eepromSize) n =
      dev.answer failures address.toNat n := by
    unfold FailingEeprom.answer
    rw [sequentialRead_congr (Nat.mod_mod _ _)]
  simp only [failingBus, FailingEeprom.transfer, bytes]
  rw [if_neg (not_not.mpr rfl), if_pos (.inl trivial), value, same]

theorem overwrite_partlyRead (inside : offset + m ≤ stored.length) :
    overwrite (partlyRead stored ram offset) offset ((stored.drop offset).take m) =
      partlyRead stored ram (offset + m) := by
  have front : (stored.take offset).length = offset := by
    rw [List.length_take]
    omega
  have part : ((stored.drop offset).take m).length = m := by
    rw [List.length_take, List.length_drop]
    omega
  unfold overwrite partlyRead
  have behind : (stored.take offset).drop (offset + m) = [] :=
    List.drop_eq_nil_of_le (by rw [front]; omega)
  rw [part, List.take_append_of_le_length (Nat.le_of_eq front.symm), List.take_take, Nat.min_self,
    List.drop_append, front, behind, List.nil_append, List.drop_drop, Nat.add_sub_cancel_left,
    List.take_add]

/-! ## The loop -/

/-- The length of the transfer of page `i`. -/
def pageLength (n i : Nat) : Nat := min pageSize (n - pageSize * i)

theorem chunkLength_eq (inside : pageSize * i < n) :
    chunkLength ((n : Int) - (pageSize * i : Nat)) = pageLength n i := by
  unfold chunkLength pageLength
  unfold pageSize at *
  split
  · omega
  · omega

theorem address_mod (a : Nat) : a.toUInt16.toNat % eepromSize = a % eepromSize := by
  unfold eepromSize
  show a % 65536 % 8192 = _
  omega

/-- A transfer that fails. -/
theorem transfer_failed {received : Nat} (a m : Nat)
    (failed : failures dev.record.length = some received) :
    (failingBus failures).transfer dev mcp24xx64Address (addressBytes a.toUInt16) m =
      dev.ends (a % eepromSize)
        (statusErr 0, (sequentialRead dev.cells a m).take (min received (m - 1))) := by
  rw [transfer_address, address_mod, FailingEeprom.answer, failed,
    sequentialRead_congr (address_mod a)]

/-- A transfer that does not fail. -/
theorem transfer_fine (a m : Nat) (fine : failures dev.record.length = none) :
    (failingBus failures).transfer dev mcp24xx64Address (addressBytes a.toUInt16) m =
      dev.ends (a % eepromSize) (statusOk, sequentialRead dev.cells a m) := by
  rw [transfer_address, address_mod, FailingEeprom.answer, fine,
    sequentialRead_congr (address_mod a)]

@[simp] theorem length_after_record (answer : Status × List UInt8) :
    (dev.after a answer).record.length = dev.record.length + 1 := by
  simp [FailingEeprom.after]

/-- The last transfer has failed. -/
def FailingEeprom.Failed (dev : FailingEeprom) : Prop :=
  ∃ a status received, dev.record.getLast? = some ⟨a, status, received⟩ ∧ status ≠ statusOk

theorem failed_after {answer : Status × List UInt8} (error : answer.1 ≠ statusOk) :
    (dev.after a answer).Failed :=
  ⟨a, answer.1, answer.2, List.getLast?_concat, error⟩

theorem FailingEeprom.Failed.not_read {crc : List UInt8} (failed : dev.Failed) :
    dev.record.getLast? ≠ some ⟨a, statusOk, crc⟩ := by
  obtain ⟨b, status, received, last, error⟩ := failed
  rw [last]
  intro same
  cases same
  exact error rfl

/-- No CRC was read when the last transfer has failed. -/
theorem FailingEeprom.Failed.intact_iff {loaded : Loaded FailingEeprom}
    (failed : loaded.dev.Failed) :
    Intact ram stored defaults loaded ↔ loaded.config = ram ∨ loaded.config = defaults := by
  unfold Intact
  simp only [failed.not_read, and_false, false_or]

theorem length_storedConfig : (storedConfig cells n).length = n := length_sequentialRead

/-- A page that is received. -/
theorem readLoop_next (ram : List UInt8) (inside : pageSize * i < n) (content : dev.cells = cells)
    (page : dev.record.length = i) (fine : failures i = none) :
    ∃ dev', dev'.cells = cells ∧ dev'.record.length = i + 1 ∧
      ∀ fuel, readLoop (failingBus failures) (fuel + 1) ((n : Int) - (pageSize * i : Nat))
        (pageSize * i).toUInt16 (pageSize * i)
        (partlyRead (storedConfig cells n) ram (pageSize * i)) dev =
      readLoop (failingBus failures) fuel ((n : Int) - (pageSize * (i + 1) : Nat))
        (pageSize * (i + 1)).toUInt16 (pageSize * i + pageLength n i)
        (partlyRead (storedConfig cells n) ram (pageSize * i + pageLength n i)) dev' := by
  have fits : pageSize * i + pageLength n i ≤ n := by
    unfold pageLength
    omega
  have some : (n : Int) - (pageSize * i : Nat) > 0 := by omega
  have address : (pageSize * i).toUInt16 + 32 = (pageSize * (i + 1)).toUInt16 := by
    rw [← UInt16.toNat_inj]
    show (pageSize * i % 65536 + 32) % 65536 = pageSize * (i + 1) % 65536
    unfold pageSize
    omega
  have remaining : (n : Int) - (pageSize * i : Nat) - (pageSize : Nat) =
      (n : Int) - (pageSize * (i + 1) : Nat) := by
    unfold pageSize
    omega
  have answer := transfer_fine (pageSize * i) (pageLength n i) (page.symm ▸ fine)
  refine ⟨dev.after (pageSize * i % eepromSize)
    (statusOk, sequentialRead dev.cells (pageSize * i) (pageLength n i)), content, ?_, ?_⟩
  · rw [length_after_record, page]
  · intro fuel
    rw [readLoop, if_pos some, chunkLength_eq inside]
    simp only [answer, FailingEeprom.ends, ne_eq, not_true_eq_false, if_false]
    rw [remaining, address, content, sequentialRead_part fits,
      overwrite_partlyRead (length_storedConfig.symm ▸ fits)]

/-- A page whose transfer fails. -/
theorem readLoop_failed {received : Nat} (ram : List UInt8) (inside : pageSize * i < n)
    (content : dev.cells = cells) (page : dev.record.length = i)
    (failed : failures i = some received) :
    ∃ dev', dev'.Failed ∧
      ∀ fuel, readLoop (failingBus failures) (fuel + 1) ((n : Int) - (pageSize * i : Nat))
        (pageSize * i).toUInt16 (pageSize * i)
        (partlyRead (storedConfig cells n) ram (pageSize * i)) dev =
      .ok (statusErr 0, partlyRead (storedConfig cells n) ram (receivedUntil n i received),
        dev') := by
  have fits : pageSize * i + pageLength n i ≤ n := by
    unfold pageLength
    omega
  have some : (n : Int) - (pageSize * i : Nat) > 0 := by omega
  have answer := transfer_failed (pageSize * i) (pageLength n i) (page.symm ▸ failed)
  have error : statusErr 0 ≠ statusOk := by decide
  have inside' : pageSize * i + min received (pageLength n i - 1) ≤ n := by omega
  have part : (sequentialRead cells (pageSize * i) (pageLength n i)).take
      (min received (pageLength n i - 1)) =
      ((storedConfig cells n).drop (pageSize * i)).take (min received (pageLength n i - 1)) := by
    rw [sequentialRead_part fits, List.take_take, Nat.min_eq_left (by omega)]
  rw [content, part] at answer
  refine ⟨dev.after (pageSize * i % eepromSize) (statusErr 0,
    ((storedConfig cells n).drop (pageSize * i)).take (min received (pageLength n i - 1))),
    failed_after error, ?_⟩
  intro fuel
  rw [readLoop, if_pos some, chunkLength_eq inside]
  simp only [answer, FailingEeprom.ends]
  rw [if_pos error, overwrite_partlyRead (length_storedConfig.symm ▸ inside')]
  rfl

/-- The pages before the first one whose transfer fails. -/
theorem readLoop_pages (cells : Nat → UInt8) (i : Nat) (fine : ∀ j < i, failures j = none)
    (inside : pageSize * i ≤ ram.length) :
    ∃ dev : FailingEeprom, dev.cells = cells ∧ dev.record.length = i ∧
      ∀ fuel, mcp24xx64Read (failingBus failures) (fuel + i) 0 ram ⟨cells, []⟩ =
        readLoop (failingBus failures) fuel ((ram.length : Int) - (pageSize * i : Nat))
          (pageSize * i).toUInt16 (pageSize * i)
          (partlyRead (storedConfig cells ram.length) ram (pageSize * i)) dev := by
  induction i with
  | zero => exact ⟨⟨cells, []⟩, rfl, rfl, fun fuel => rfl⟩
  | succ i ih =>
      have before : pageSize * i < ram.length := by
        unfold pageSize at *
        omega
      have full : pageLength ram.length i = pageSize := by
        unfold pageLength
        unfold pageSize at *
        omega
      obtain ⟨dev, content, page, run⟩ := ih (fun j less => fine j (by omega)) (by omega)
      obtain ⟨dev', content', page', next⟩ :=
        readLoop_next ram before content page (fine i (Nat.lt_succ_self i))
      refine ⟨dev', content', page', fun fuel => ?_⟩
      rw [← Nat.succ_add_eq_add_succ, run, next, full, ← Nat.mul_succ]

/-! ## `config_load` -/

theorem returns_of_add {β : Type} {f : Nat → Except Fault β} {r : β} (bound : Nat)
    (run : ∀ fuel, f (fuel + bound) = .ok r) : Returns f r := by
  refine ⟨bound, fun fuel enough => ?_⟩
  obtain ⟨left, rfl⟩ := Nat.exists_eq_add_of_le' enough
  exact run left

/-- The read of the configuration when a transfer fails. -/
theorem mcp24xx64Read_failed {received : Nat} (cells : Nat → UInt8) (inside : i < pageCount ram)
    (fine : ∀ j < i, failures j = none) (failed : failures i = some received) :
    ∃ dev', dev'.Failed ∧
      Returns (fun fuel => mcp24xx64Read (failingBus failures) fuel 0 ram ⟨cells, []⟩)
      (statusErr 0, partlyRead (storedConfig cells ram.length) ram
        (receivedUntil ram.length i received), dev') := by
  have before : pageSize * i < ram.length := by
    unfold pageCount at inside
    unfold pageSize at *
    omega
  obtain ⟨dev, content, page, run⟩ := readLoop_pages cells i fine (Nat.le_of_lt before)
  obtain ⟨dev', error, last⟩ := readLoop_failed ram before content page failed
  refine ⟨dev', error, returns_of_add (1 + i) fun fuel => ?_⟩
  rw [← Nat.add_assoc, run, last]

theorem partlyRead_all : partlyRead (storedConfig cells ram.length) ram ram.length =
    storedConfig cells ram.length := by
  unfold partlyRead
  rw [List.drop_length, List.append_nil, List.take_of_length_le (Nat.le_of_eq length_storedConfig)]

theorem readLoop_done {bus : I2cBus FailingEeprom} {remaining : Int} (fuel : Nat)
    (buffer : List UInt8) (dev : FailingEeprom) (done : ¬ remaining > 0) :
    readLoop bus (fuel + 1) remaining address offset buffer dev =
      .ok (statusOk, buffer, dev) := by
  rw [readLoop, if_neg done]
  rfl

/-- The read of the configuration when no transfer fails. -/
theorem mcp24xx64Read_fine (cells : Nat → UInt8)
    (fine : ∀ j < pageCount ram, failures j = none) :
    ∃ dev' : FailingEeprom, dev'.cells = cells ∧ dev'.record.length = pageCount ram ∧
      Returns (fun fuel => mcp24xx64Read (failingBus failures) fuel 0 ram ⟨cells, []⟩)
        (statusOk, storedConfig cells ram.length, dev') := by
  have count : pageCount ram = (ram.length + 31) / 32 := rfl
  have full : pageSize * (ram.length / 32) ≤ ram.length := Nat.mul_div_le ram.length 32
  obtain ⟨dev, content, page, run⟩ :=
    readLoop_pages cells (ram.length / 32) (fun j less => fine j (by omega)) full
  by_cases exact_ : ram.length % 32 = 0
  · have all : pageSize * (ram.length / 32) = ram.length := by
      unfold pageSize
      omega
    rw [all] at run
    refine ⟨dev, content, by omega, returns_of_add (1 + ram.length / 32) fun fuel => ?_⟩
    rw [← Nat.add_assoc, run, readLoop_done _ _ _ (by omega), partlyRead_all]
  · have before : pageSize * (ram.length / 32) < ram.length := by
      unfold pageSize
      omega
    have all : pageSize * (ram.length / 32) + pageLength ram.length (ram.length / 32) =
        ram.length := by
      unfold pageLength
      unfold pageSize at *
      omega
    obtain ⟨dev', content', page', next⟩ :=
      readLoop_next ram before content page (fine _ (by omega))
    rw [all] at next
    have done : ¬ (ram.length : Int) - (pageSize * (ram.length / 32 + 1) : Nat) > 0 := by
      unfold pageSize
      omega
    refine ⟨dev', content', by omega, returns_of_add (1 + 1 + ram.length / 32) fun fuel => ?_⟩
    rw [← Nat.add_assoc, run, ← Nat.add_assoc, next, readLoop_done _ _ _ done, partlyRead_all]

/-- The read of the CRC. -/
theorem mcp24xx64Read_crc (failures : Nat → Option Nat) (dev : FailingEeprom) (n : Nat)
    (stack : UInt8) :
    ∃ status, Returns (fun fuel => mcp24xx64Read (failingBus failures) fuel n.toUInt16 [stack] dev)
      (if failures dev.record.length = none then (statusOk, [dev.cells (n % eepromSize)],
        dev.after (n % eepromSize) (statusOk, [dev.cells (n % eepromSize)]))
      else (status, [stack], dev.after (n % eepromSize) (status, []))) ∧ status ≠ statusOk := by
  refine ⟨statusErr 0, returns_of_add 2 fun fuel => ?_, by decide⟩
  have one : sequentialRead dev.cells n 1 = [dev.cells (n % eepromSize)] := rfl
  have length : chunkLength ([stack].length : Int) = 1 := rfl
  cases failed : failures dev.record.length with
  | none =>
      have answer := transfer_fine n 1 failed
      rw [one] at answer
      rw [mcp24xx64Read, readLoop, if_pos (by simp), length]
      simp only [answer, FailingEeprom.ends, ne_eq, not_true_eq_false, if_false]
      rw [readLoop_done _ _ _ (show ¬ (([stack].length : Int) - (pageSize : Nat) > 0) by
        simp [pageSize])]
      rfl
  | some received =>
      have answer := transfer_failed n 1 failed
      rw [Nat.sub_self, Nat.min_zero, List.take_zero] at answer
      rw [mcp24xx64Read, readLoop, if_pos (by simp), length]
      simp only [answer, FailingEeprom.ends]
      rfl

theorem partlyRead_eq_ram (m : Nat) (sameSize : stored.length = ram.length) :
    partlyRead stored ram m = ram ↔ stored.take m = ram.take m := by
  unfold partlyRead
  constructor
  · intro same
    have front := congrArg (List.take (stored.take m).length) same
    rw [List.take_left, List.length_take, sameSize] at front
    rw [front]
    rcases Nat.le_total m ram.length with le | le
    · rw [Nat.min_eq_left le]
    · rw [Nat.min_eq_right le, List.take_of_length_le le, List.take_length]
  · intro same
    rw [same, List.take_append_drop]

/-- A load in which a transfer of the configuration fails. -/
theorem configLoad_failed {received : Nat} (cells : Nat → UInt8) (defaults : List UInt8)
    (stack : UInt8) (inside : i < pageCount ram) (fine : ∀ j < i, failures j = none)
    (failed : failures i = some received) :
    ∃ loaded, Returns (fun fuel => configLoad (failingBus failures) defaults stack fuel ram
        ⟨cells, []⟩) loaded ∧
      (Intact ram (storedConfig cells ram.length) defaults loaded ↔
        (storedConfig cells ram.length).take (receivedUntil ram.length i received) =
          ram.take (receivedUntil ram.length i received) ∨
        partlyRead (storedConfig cells ram.length) ram (receivedUntil ram.length i received) =
          defaults) := by
  obtain ⟨dev', error, read⟩ := mcp24xx64Read_failed cells inside fine failed
  refine ⟨⟨partlyRead (storedConfig cells ram.length) ram (receivedUntil ram.length i received),
    .readFailed, dev'⟩, read.bind ⟨0, fun _ _ => rfl⟩, ?_⟩
  rw [FailingEeprom.Failed.intact_iff error, partlyRead_eq_ram _ length_storedConfig]

/-- A load in which only the transfer of the CRC may fail. -/
theorem configLoad_received (cells : Nat → UInt8) (defaults : List UInt8) (stack : UInt8)
    (fine : ∀ j < pageCount ram, failures j = none) :
    ∃ loaded, Returns (fun fuel => configLoad (failingBus failures) defaults stack fuel ram
        ⟨cells, []⟩) loaded ∧
      (Intact ram (storedConfig cells ram.length) defaults loaded ↔
        (failures (pageCount ram) ≠ none → stack = crc8Maxim (storedConfig cells ram.length) →
          storedConfig cells ram.length = ram ∨ storedConfig cells ram.length = defaults)) := by
  obtain ⟨dev, content, count, first⟩ := mcp24xx64Read_fine cells fine
  obtain ⟨status, second, error⟩ :=
    mcp24xx64Read_crc failures dev (storedConfig cells ram.length).length stack
  rw [count] at second
  by_cases read : failures (pageCount ram) = none
  · rw [if_pos read] at second
    refine ⟨_, configLoad_compare defaults first second, fun _ failed => absurd read failed, ?_⟩
    intro _
    by_cases same : dev.cells ((storedConfig cells ram.length).length % eepromSize) =
        crc8Maxim (storedConfig cells ram.length)
    · rw [if_pos same, same]
      exact .inr (.inl ⟨rfl, List.getLast?_concat⟩)
    · rw [if_neg same]
      exact .inr (.inr rfl)
  · rw [if_neg read] at second
    refine ⟨_, configLoad_compare defaults first second, ?_⟩
    by_cases same : stack = crc8Maxim (storedConfig cells ram.length)
    · rw [if_pos same]
      rw [FailingEeprom.Failed.intact_iff (failed_after error)]
      exact ⟨fun intact _ _ => intact, fun harmless => harmless read same⟩
    · rw [if_neg same]
      exact ⟨fun _ _ chance => absurd chance same, fun _ => .inr (.inr rfl)⟩

/-- **A failing load and the running configuration**: whatever is in memory and in the EEPROM, and
whichever transfers fail, `config_load` returns. It leaves the configuration as it was, the stored
one with a CRC that was read and is right, or the defaults if and only if the failures are
harmless. -/
theorem configLoad_intact_iff (failures : Nat → Option Nat) (cells : Nat → UInt8)
    (ram defaults : List UInt8) (stack : UInt8) :
    ∃ loaded, Returns (fun fuel => configLoad (failingBus failures) defaults stack fuel ram
        ⟨cells, []⟩) loaded ∧
      (Intact ram (storedConfig cells ram.length) defaults loaded ↔
        Harmless failures ram (storedConfig cells ram.length) defaults stack) := by
  by_cases fails : ∃ i, i < pageCount ram ∧ failures i ≠ none
  · have inside := (Nat.find_spec fails).1
    obtain ⟨received, failed⟩ := Option.ne_none_iff_exists'.mp (Nat.find_spec fails).2
    have fine : ∀ j < Nat.find fails, failures j = none := by
      intro j less
      by_contra failed
      exact Nat.find_min fails less ⟨by omega, failed⟩
    obtain ⟨loaded, returns, intact⟩ := configLoad_failed cells defaults stack inside fine failed
    refine ⟨loaded, returns, intact.trans ⟨fun kept => ⟨?_, ?_⟩, ?_⟩⟩
    · intro i received' _ fine' failed'
      -- there is only one first failure
      obtain same : i = Nat.find fails := by
        rcases Nat.lt_trichotomy i (Nat.find fails) with less | same | less
        · rw [fine i less] at failed'
          cases failed'
        · exact same
        · rw [fine' _ less] at failed
          cases failed
      subst same
      rw [failed] at failed'
      cases failed'
      exact kept
    · intro none
      rw [none _ inside] at failed
      cases failed
    · intro harmless
      exact harmless.content _ _ inside fine failed
  · have fine : ∀ j < pageCount ram, failures j = none := by
      intro j less
      by_contra failed
      exact fails ⟨j, less, failed⟩
    obtain ⟨loaded, returns, intact⟩ := configLoad_received cells defaults stack fine
    refine ⟨loaded, returns, intact.trans ⟨fun crc => ⟨?_, fun _ => crc⟩, ?_⟩⟩
    · intro i received less _ failed
      rw [fine i less] at failed
      cases failed
    · intro harmless
      exact harmless.crc fine

end Specs

/-- The second page of a configuration of a bus fan controller, which has one output, is not
acknowledged: the first page has replaced that of the running configuration, which is neither what
it was, nor what is stored, nor the defaults. -/
theorem partial_load :
    ∃ loaded, configLoad (failingBus fun i => if i = 1 then some 0 else none)
        (configLoadDefaults 64) 0 4 (List.replicate 80 1) ⟨fun _ => 2, []⟩ = .ok loaded ∧
      ¬ Intact (List.replicate 80 1) (storedConfig (fun _ => 2) 80) (configLoadDefaults 64)
        loaded := by
  refine ⟨_, rfl, ?_⟩
  unfold Intact
  decide +kernel

end TheFirmware.Config
