import TheFirmware.Runtime
import TheFirmware.Lib.Cells

/-!
# The EEPROM driver `device/24xx64/24xx64.c`

`mcp24xx64_read` and `mcp24xx64_write` go through the buffer in chunks of a page, and make an I2C
transfer for each. A write is repeated until it is acknowledged; a read is not.

The driver is written over any I2C bus (`I2cBus`): what `i2c_dev_transfer` does to the devices on
it, its status, and the bytes it stores. `Eeprom` is a 24xx64 on the bus: it does not acknowledge
while it is busy with a page write, a page write wraps inside its 32 bytes, and a sequential read
does not.
-/

namespace TheFirmware.Mcp24xx64

variable {δ : Type}

/-- `i2c_dev_transfer(i2c, addr, writeBuffer, writeBufferLength, readBuffer, readBufferLength)`: the
status, the bytes stored to `readBuffer`, and the devices afterwards. -/
structure I2cBus (δ : Type) : Type where
  transfer : δ → (addr : UInt8) → (writeBuffer : List UInt8) → (readBufferLength : Nat) →
    Status × List UInt8 × δ

/-- `kMCP24XX64Address` -/
def mcp24xx64Address : UInt8 := 0xA0

/-- `kPageSize` -/
def pageSize : Nat := 32

/-- `buf[0]` and `buf[1]` -/
def addressBytes (address : UInt16) : List UInt8 :=
  [((address >>> 8) &&& 0xFF).toUInt8, ((address >>> 0) &&& 0xFF).toUInt8]

/-- `remainingLength < kPageSize ? remainingLength : kPageSize` -/
def chunkLength (remaining : Int) : Nat :=
  if remaining < pageSize then remaining.toNat else pageSize

/-- The bytes that a transfer stores from an offset of the buffer on. -/
def overwrite (buffer : List UInt8) (offset : Nat) (bytes : List UInt8) : List UInt8 :=
  buffer.take offset ++ bytes ++ buffer.drop (offset + bytes.length)

/-- The loop of `mcp24xx64_read`. -/
def readLoop (bus : I2cBus δ) :
    Nat → Int → UInt16 → Nat → List UInt8 → δ → Except Fault (Status × List UInt8 × δ)
  | 0, _, _, _, _, _ => .error .outOfFuel
  | fuel + 1, remaining, address, offset, buffer, dev =>
      if remaining > 0 then
        let length := chunkLength remaining
        let (status, bytes, dev) :=
          bus.transfer dev mcp24xx64Address (addressBytes address) length
        let buffer := overwrite buffer offset bytes
        if status ≠ statusOk then return (status, buffer, dev)
        else readLoop bus fuel (remaining - pageSize) (address + 32) (offset + length) buffer dev
      else return (statusOk, buffer, dev)

/-- `mcp24xx64_read`: the status, the buffer, and the devices. -/
def mcp24xx64Read (bus : I2cBus δ) (fuel : Nat) (address : UInt16) (buffer : List UInt8)
    (dev : δ) : Except Fault (Status × List UInt8 × δ) :=
  readLoop bus fuel buffer.length address 0 buffer dev

/-- The transfer of a chunk of `mcp24xx64_write`, repeated until it is acknowledged. -/
def transferUntilOk (bus : I2cBus δ) (buf : List UInt8) : Nat → δ → Except Fault δ
  | 0, _ => .error .outOfFuel
  | fuel + 1, dev =>
      let (status, _, dev) := bus.transfer dev mcp24xx64Address buf 0
      if status ≠ statusOk then transferUntilOk bus buf fuel dev else return dev

/-- The loop of `mcp24xx64_write`. -/
def writeLoop (bus : I2cBus δ) :
    Nat → Int → UInt16 → List UInt8 → δ → Except Fault (Status × δ)
  | 0, _, _, _, _ => .error .outOfFuel
  | fuel + 1, remaining, address, buffer, dev =>
      if remaining > 0 then do
        let length := chunkLength remaining
        let dev ← transferUntilOk bus (addressBytes address ++ buffer.take length) fuel dev
        writeLoop bus fuel (remaining - pageSize) (address + 32) (buffer.drop length) dev
      else return (statusOk, dev)

/-- `mcp24xx64_write` -/
def mcp24xx64Write (bus : I2cBus δ) (fuel : Nat) (address : UInt16) (buffer : List UInt8)
    (dev : δ) : Except Fault (Status × δ) :=
  writeLoop bus fuel buffer.length address buffer dev

/-! ## The device -/

/-- A 24xx64: its cells, the number of transfers it will not acknowledge because it is busy, and the
cells after each page write so far. -/
structure Eeprom : Type where
  cells : Nat → UInt8
  busy : Nat
  history : List (Nat → UInt8)

/-- The number of cells. -/
def eepromSize : Nat := 8192

/-- The cells after a page write. The address counter wraps at the end of the page. -/
def pageWrite (cells : Nat → UInt8) (a : Nat) : List UInt8 → Nat → UInt8
  | [] => cells
  | x :: xs =>
      pageWrite (Function.update cells a x) (a / pageSize * pageSize + (a + 1) % pageSize) xs

/-- A sequential read. The address counter wraps at the end of the device. -/
def sequentialRead (cells : Nat → UInt8) (a n : Nat) : List UInt8 :=
  (List.range n).map fun i => cells ((a + i) % eepromSize)

/-- The device after a page write. `nacks` says for how many transfers each page write keeps it
busy. -/
def Eeprom.written (nacks : Nat → Nat) (dev : Eeprom) (a : Nat) (data : List UInt8) : Eeprom :=
  let cells := pageWrite dev.cells a data
  { cells := cells
    busy := nacks dev.history.length
    history := dev.history ++ [cells] }

/-- A transfer with the device: an address, and either data to be written or a read. -/
def Eeprom.transfer (nacks : Nat → Nat) (dev : Eeprom) (addr : UInt8) (writeBuffer : List UInt8)
    (readBufferLength : Nat) : Status × List UInt8 × Eeprom :=
  if addr ≠ mcp24xx64Address then (statusErr 0, [], dev)
  else if dev.busy ≠ 0 then (statusErr 0, [], { dev with busy := dev.busy - 1 })
  else match writeBuffer with
    | high :: low :: data =>
        let a := (high.toNat * 256 + low.toNat) % eepromSize
        if data = [] then (statusOk, sequentialRead dev.cells a readBufferLength, dev)
        else (statusOk, [], dev.written nacks a data)
    | _ => (statusErr 0, [], dev)

/-- The bus with the device on it. -/
def eepromBus (nacks : Nat → Nat) : I2cBus Eeprom where
  transfer := Eeprom.transfer nacks

/-- The cells after each page of a buffer. -/
def snapshots (cells : Nat → UInt8) (a : Nat) (buffer : List UInt8) : List (Nat → UInt8) :=
  (List.range ((buffer.length + 31) / pageSize)).map fun k =>
    Cells.write cells a (buffer.take (pageSize * (k + 1)))

/-! ## What the device does -/

section Specs

variable {nacks : Nat → Nat} {cells : Nat → UInt8} {dev : Eeprom} {a n : Nat} {address : UInt16}
  {data buffer : List UInt8} {remaining : Int} {offset : Nat}

/-- A page write that stays in its page is a write. -/
theorem pageWrite_eq (fits : a % pageSize + data.length ≤ pageSize) :
    pageWrite cells a data = Cells.write cells a data := by
  induction data generalizing cells a with
  | nil => rfl
  | cons x xs ih =>
      unfold pageSize at fits ih
      rw [List.length_cons] at fits
      cases xs with
      | nil => rfl
      | cons y ys =>
          rw [List.length_cons] at fits
          have next : a / 32 * 32 + (a + 1) % 32 = a + 1 := by omega
          rw [pageWrite, Cells.write, pageSize, next]
          apply ih
          rw [List.length_cons]
          omega

theorem sequentialRead_eq (inside : a + n ≤ eepromSize) :
    sequentialRead cells a n = Cells.read cells a n := by
  refine List.map_congr_left fun i mem => ?_
  have bound := List.mem_range.mp mem
  rw [Nat.mod_eq_of_lt (by omega)]

theorem addressBytes_eq (address : UInt16) :
    ∃ high low, addressBytes address = [high, low] ∧
      high.toNat * 256 + low.toNat = address.toNat := by
  refine ⟨_, _, rfl, ?_⟩
  have bound := address.toNat_lt
  have mask : ∀ x : Nat, x &&& 255 = x % 256 := fun x => Nat.and_two_pow_sub_one_eq_mod x 8
  simp [Nat.shiftRight_eq_div_pow, mask]
  omega

theorem transfer_busy (busy : dev.busy ≠ 0) (buf : List UInt8) (length : Nat) :
    dev.transfer nacks mcp24xx64Address buf length =
      (statusErr 0, [], { dev with busy := dev.busy - 1 }) := by
  unfold Eeprom.transfer
  rw [if_neg (not_not.mpr rfl), if_pos busy]

theorem transfer_write (ready : dev.busy = 0) (inside : address.toNat < eepromSize)
    (nonempty : data ≠ []) :
    dev.transfer nacks mcp24xx64Address (addressBytes address ++ data) 0 =
      (statusOk, [], dev.written nacks address.toNat data) := by
  obtain ⟨high, low, bytes, value⟩ := addressBytes_eq address
  unfold Eeprom.transfer
  rw [if_neg (not_not.mpr rfl), if_neg (not_not.mpr ready), bytes]
  simp only [List.cons_append, List.nil_append]
  rw [if_neg nonempty, value, Nat.mod_eq_of_lt inside]

theorem transfer_read (ready : dev.busy = 0) (inside : address.toNat + n ≤ eepromSize)
    (some : 0 < n) :
    dev.transfer nacks mcp24xx64Address (addressBytes address) n =
      (statusOk, Cells.read dev.cells address.toNat n, dev) := by
  obtain ⟨high, low, bytes, value⟩ := addressBytes_eq address
  unfold Eeprom.transfer
  rw [if_neg (not_not.mpr rfl), if_neg (not_not.mpr ready), bytes]
  simp only [if_true]
  rw [value, Nat.mod_eq_of_lt (by omega), sequentialRead_eq inside]

/-! ## The driver -/

/-- The write of a chunk is made as soon as the device is ready. -/
theorem transferUntilOk_returns (inside : address.toNat < eepromSize) (nonempty : data ≠ []) :
    Returns (fun fuel => transferUntilOk (eepromBus nacks) (addressBytes address ++ data) fuel dev)
      (dev.written nacks address.toNat data) := by
  have loop : ∀ busy dev, dev.busy = busy →
      Returns (fun fuel => transferUntilOk (eepromBus nacks) (addressBytes address ++ data) fuel dev)
        (dev.written nacks address.toNat data) := by
    intro busy
    induction busy with
    | zero =>
        intro dev ready
        refine Returns.succ ⟨0, fun fuel _ => ?_⟩
        simp only [transferUntilOk, eepromBus, transfer_write ready inside nonempty]
        exact if_neg (not_not.mpr rfl)
    | succ busy ih =>
        intro dev isBusy
        have busy : dev.busy ≠ 0 := by omega
        have again : ∀ fuel, transferUntilOk (eepromBus nacks) (addressBytes address ++ data)
            (fuel + 1) dev = transferUntilOk (eepromBus nacks) (addressBytes address ++ data) fuel
              { dev with busy := dev.busy - 1 } := by
          intro fuel
          simp only [transferUntilOk, eepromBus, transfer_busy busy]
          exact if_pos (by decide)
        refine Returns.succ ?_
        simp only [again]
        exact ih { dev with busy := dev.busy - 1 } (by rw [isBusy]; rfl)
  exact loop dev.busy dev rfl

theorem chunkLength_eq (remaining : Int) :
    chunkLength remaining = min pageSize remaining.toNat := by
  unfold chunkLength pageSize
  split_ifs <;> omega

theorem toNat_add_page (inside : address.toNat + 32 ≤ eepromSize) :
    (address + 32).toNat = address.toNat + 32 := by
  unfold eepromSize at inside
  rw [UInt16.toNat_add]
  exact Nat.mod_eq_of_lt (by show address.toNat + 32 < 65536; omega)

theorem snapshots_nil : snapshots cells a [] = [] := rfl

/-- The first page, and then the others. -/
theorem snapshots_cons (nonempty : buffer ≠ []) :
    snapshots cells a buffer =
      Cells.write cells a (buffer.take pageSize) ::
        snapshots (Cells.write cells a (buffer.take pageSize)) (a + pageSize)
          (buffer.drop pageSize) := by
  have positive : 0 < buffer.length := List.length_pos_iff.mpr nonempty
  have pages : (buffer.length + 31) / pageSize =
      ((buffer.drop pageSize).length + 31) / pageSize + 1 := by
    rw [List.length_drop]
    unfold pageSize
    omega
  unfold snapshots
  rw [pages, List.range_succ_eq_map, List.map_cons, List.map_map]
  congr 1
  refine List.map_congr_left fun k mem => ?_
  have full : (buffer.take pageSize).length = pageSize := by
    have more := List.mem_range.mp mem
    rw [List.length_drop] at more
    rw [List.length_take]
    unfold pageSize at more ⊢
    omega
  rw [Function.comp_apply, Cells.write_write full, Nat.mul_add, Nat.mul_one, Nat.add_comm,
    List.take_add]

theorem writeLoop_step (bus : I2cBus δ) (fuel : Nat) (device : δ)
    (size : remaining.toNat = buffer.length) (more : remaining > 0) :
    writeLoop bus (fuel + 1) remaining address buffer device =
      transferUntilOk bus (addressBytes address ++ buffer.take pageSize) fuel device >>=
        fun device => writeLoop bus fuel (remaining - pageSize) (address + 32)
          (buffer.drop pageSize) device := by
  have chunk : buffer.take (chunkLength remaining) = buffer.take pageSize := by
    rw [chunkLength_eq, size, List.take_eq_take_iff]
    omega
  have rest : buffer.drop (chunkLength remaining) = buffer.drop pageSize := by
    rw [chunkLength_eq, size]
    rcases Nat.le_total pageSize buffer.length with full | partly
    · rw [min_eq_left full]
    · rw [min_eq_right partly, List.drop_length, List.drop_eq_nil_of_le partly]
  rw [writeLoop, if_pos more]
  simp only [chunk, rest]

/-- A chunk that begins at the beginning of a page, or ends in the page in which it begins, is
written where it belongs. -/
theorem written_cells (fits : a % pageSize = 0 ∨ a % pageSize + buffer.length ≤ pageSize) :
    (dev.written nacks a (buffer.take pageSize)).cells =
      Cells.write dev.cells a (buffer.take pageSize) := by
  apply pageWrite_eq
  rw [List.length_take]
  unfold pageSize at fits ⊢
  omega

/-- The rest of the buffer goes to the page behind the chunk. -/
theorem next_page (inside : address.toNat + buffer.length ≤ eepromSize) :
    buffer.drop pageSize = [] ∨ (buffer.take pageSize).length = pageSize ∧
      (address + 32).toNat = address.toNat + pageSize := by
  rw [List.drop_eq_nil_iff, List.length_take]
  unfold pageSize
  rcases Nat.lt_or_ge 32 buffer.length with long | short
  · exact .inr ⟨by omega, toNat_add_page (by omega)⟩
  · exact .inl short

/-- The rest of the buffer does not cross a page either: it begins at the beginning of one. -/
theorem fits_next (inside : address.toNat + buffer.length ≤ eepromSize)
    (fits : address.toNat % pageSize = 0 ∨ address.toNat % pageSize + buffer.length ≤ pageSize) :
    (address + 32).toNat % pageSize = 0 ∨
      (address + 32).toNat % pageSize + (buffer.drop pageSize).length ≤ pageSize := by
  have shorter : (buffer.drop pageSize).length = buffer.length - 32 := List.length_drop
  have next := next_page inside
  unfold pageSize at fits next shorter ⊢
  rcases next with last | ⟨-, next⟩
  · rw [last, List.length_nil]
    omega
  · omega

theorem inside_next (inside : address.toNat + buffer.length ≤ eepromSize) :
    buffer.drop pageSize = [] ∨
      (address + 32).toNat + (buffer.drop pageSize).length ≤ eepromSize := by
  have shorter : (buffer.drop pageSize).length = buffer.length - 32 := List.length_drop
  rcases next_page inside with last | ⟨full, next⟩
  · exact .inl last
  · rw [List.length_take] at full
    unfold pageSize at next full shorter ⊢
    omega

/-- The chunk and the rest of the buffer together are the buffer. -/
theorem write_chunks (inside : address.toNat + buffer.length ≤ eepromSize) :
    Cells.write (Cells.write cells address.toNat (buffer.take pageSize)) (address + 32).toNat
        (buffer.drop pageSize) =
      Cells.write cells address.toNat buffer := by
  rcases next_page inside with last | ⟨full, next⟩
  · rw [last, List.take_of_length_le (List.drop_eq_nil_iff.mp last)]
    rfl
  · rw [next, Cells.write_write full, List.take_append_drop]

/-- The states of the cells after the chunk and after each page of the rest. -/
theorem snapshots_chunks (inside : address.toNat + buffer.length ≤ eepromSize)
    (nonempty : buffer ≠ []) :
    Cells.write cells address.toNat (buffer.take pageSize) ::
        snapshots (Cells.write cells address.toNat (buffer.take pageSize)) (address + 32).toNat
          (buffer.drop pageSize) =
      snapshots cells address.toNat buffer := by
  rw [snapshots_cons nonempty]
  rcases next_page inside with last | ⟨-, next⟩
  · rw [last, snapshots_nil, snapshots_nil]
  · rw [next]

theorem toNat_sub_page (size : remaining.toNat = buffer.length) :
    (remaining - pageSize).toNat = (buffer.drop pageSize).length := by
  have shorter : (buffer.drop pageSize).length = buffer.length - 32 := List.length_drop
  rw [shorter]
  unfold pageSize
  omega

/-- One iteration of the loop writes a page, and the others write the rest of the buffer. -/
theorem writeLoop_page {result : Status × Eeprom} (size : remaining.toNat = buffer.length)
    (nonempty : buffer ≠ []) (inside : address.toNat + buffer.length ≤ eepromSize)
    (rest : Returns (fun fuel => writeLoop (eepromBus nacks) fuel (remaining - pageSize)
      (address + 32) (buffer.drop pageSize)
      (dev.written nacks address.toNat (buffer.take pageSize))) result) :
    Returns (fun fuel => writeLoop (eepromBus nacks) fuel remaining address buffer dev) result := by
  have positive : 0 < buffer.length := List.length_pos_iff.mpr nonempty
  have chunk : buffer.take pageSize ≠ [] := by
    intro none
    rcases List.take_eq_nil_iff.mp none with zero | empty
    · exact absurd zero (by decide)
    · exact nonempty empty
  refine Returns.succ ?_
  simp only [writeLoop_step (eepromBus nacks) _ dev size (by omega)]
  refine Returns.bind (transferUntilOk_returns ?_ chunk) rest
  omega

theorem writeLoop_finished (finished : ¬ remaining > 0) :
    Returns (fun fuel => writeLoop (eepromBus nacks) fuel remaining address buffer dev)
      (statusOk, dev) :=
  Returns.succ ⟨0, fun _ _ => if_neg finished⟩

/-- The pages of a buffer are written one after the other, and the last one need not be full. -/
theorem writeLoop_returns (dev : Eeprom) (size : remaining.toNat = buffer.length)
    (fits : address.toNat % pageSize = 0 ∨ address.toNat % pageSize + buffer.length ≤ pageSize)
    (inside : buffer = [] ∨ address.toNat + buffer.length ≤ eepromSize) :
    ∃ dev', Returns (fun fuel => writeLoop (eepromBus nacks) fuel remaining address buffer dev)
        (statusOk, dev') ∧
      dev'.cells = Cells.write dev.cells address.toNat buffer ∧
      dev'.history = dev.history ++ snapshots dev.cells address.toNat buffer := by
  -- The induction is on the length: every iteration takes a page off.
  induction length : buffer.length using Nat.strong_induction_on
    generalizing remaining address buffer dev with
  | _ _ ih =>
  subst length
  by_cases nonempty : buffer = []
  · subst nonempty
    rw [List.length_nil] at size
    refine ⟨dev, writeLoop_finished (by omega), rfl, ?_⟩
    rw [snapshots_nil, List.append_nil]
  · have positive : 0 < buffer.length := List.length_pos_iff.mpr nonempty
    have inside := inside.resolve_left nonempty
    have shorter : (buffer.drop pageSize).length = buffer.length - 32 := List.length_drop
    have stored : (dev.written nacks address.toNat (buffer.take pageSize)).cells =
        Cells.write dev.cells address.toNat (buffer.take pageSize) := written_cells fits
    obtain ⟨dev', returns, cells, history⟩ := ih _ (by omega)
      (dev.written nacks address.toNat (buffer.take pageSize)) (toNat_sub_page size)
      (fits_next inside fits) (inside_next inside) rfl
    refine ⟨dev', writeLoop_page size nonempty inside returns, ?_, ?_⟩
    · rw [cells, stored, write_chunks inside]
    · have page : (dev.written nacks address.toNat (buffer.take pageSize)).history =
          dev.history ++ [Cells.write dev.cells address.toNat (buffer.take pageSize)] :=
        congrArg (fun cells => dev.history ++ [cells]) stored
      rw [history, page, stored, List.append_assoc, List.singleton_append,
        snapshots_chunks inside nonempty]

/-- `mcp24xx64_write` returns, and has written the buffer if no chunk of it crosses a page. -/
theorem mcp24xx64Write_returns (nacks : Nat → Nat) (dev : Eeprom) (address : UInt16)
    (buffer : List UInt8)
    (fits : address.toNat % pageSize = 0 ∨ address.toNat % pageSize + buffer.length ≤ pageSize)
    (inside : address.toNat + buffer.length ≤ eepromSize) :
    ∃ dev', Returns (fun fuel => mcp24xx64Write (eepromBus nacks) fuel address buffer dev)
        (statusOk, dev') ∧
      dev'.cells = Cells.write dev.cells address.toNat buffer ∧
      dev'.history = dev.history ++ snapshots dev.cells address.toNat buffer :=
  writeLoop_returns dev (Int.toNat_natCast _) fits (.inr inside)

theorem overwrite_nil (buffer : List UInt8) (offset : Nat) :
    overwrite buffer offset [] = buffer := by
  unfold overwrite
  rw [List.append_nil, List.length_nil, Nat.add_zero, List.take_append_drop]

theorem take_overwrite {bytes : List UInt8} (room : offset + bytes.length ≤ buffer.length) :
    (overwrite buffer offset bytes).take (offset + bytes.length) = buffer.take offset ++ bytes := by
  have length : (buffer.take offset ++ bytes).length = offset + bytes.length := by
    rw [List.length_append, List.length_take]
    omega
  unfold overwrite
  rw [← length, List.take_left]

theorem length_overwrite {bytes : List UInt8} (room : offset + bytes.length ≤ buffer.length) :
    (overwrite buffer offset bytes).length = buffer.length := by
  unfold overwrite
  rw [List.length_append, List.length_append, List.length_take, List.length_drop]
  omega

/-- The rest of the buffer is read from the page behind the chunk. -/
theorem read_chunks (inside : address.toNat + remaining.toNat ≤ eepromSize) :
    Cells.read cells address.toNat (chunkLength remaining) ++
        Cells.read cells (address + 32).toNat (remaining - pageSize).toNat =
      Cells.read cells address.toNat remaining.toNat := by
  rw [chunkLength_eq]
  unfold pageSize
  rcases Nat.lt_or_ge 32 remaining.toNat with long | short
  · have split : remaining.toNat = 32 + (remaining - (32 : Nat)).toNat := by omega
    rw [min_eq_left long.le, toNat_add_page (by omega), ← Cells.read_add, ← split]
  · have last : (remaining - (32 : Nat)).toNat = 0 := by omega
    rw [min_eq_right short, last]
    exact List.append_nil _

theorem readLoop_step (fuel : Nat) (ready : dev.busy = 0) (more : remaining > 0)
    (inside : address.toNat + remaining.toNat ≤ eepromSize) :
    readLoop (eepromBus nacks) (fuel + 1) remaining address offset buffer dev =
      readLoop (eepromBus nacks) fuel (remaining - pageSize) (address + 32)
        (offset + chunkLength remaining)
        (overwrite buffer offset (Cells.read dev.cells address.toNat (chunkLength remaining)))
        dev := by
  have chunk : (eepromBus nacks).transfer dev mcp24xx64Address (addressBytes address)
      (chunkLength remaining) =
        (statusOk, Cells.read dev.cells address.toNat (chunkLength remaining), dev) := by
    have length := chunkLength_eq remaining
    apply transfer_read ready
    · omega
    · rw [length]
      unfold pageSize
      omega
  rw [readLoop, if_pos more]
  simp only [chunk]
  exact if_neg (not_not.mpr rfl)

theorem remaining_next (inside : address.toNat + remaining.toNat ≤ eepromSize) :
    remaining - pageSize ≤ 0 ∨
      (address + 32).toNat + (remaining - pageSize).toNat ≤ eepromSize := by
  unfold pageSize
  rcases le_or_gt (remaining - (32 : Nat)) 0 with last | long
  · exact .inl last
  · rw [toNat_add_page (by omega)]
    omega

/-- A device that is ready stays so while it is read; the buffer is filled from the offset on. -/
theorem readLoop_returns (ready : dev.busy = 0) (size : offset + remaining.toNat = buffer.length)
    (inside : remaining ≤ 0 ∨ address.toNat + remaining.toNat ≤ eepromSize) :
    Returns (fun fuel => readLoop (eepromBus nacks) fuel remaining address offset buffer dev)
      (statusOk, buffer.take offset ++ Cells.read dev.cells address.toNat remaining.toNat, dev) := by
  -- The induction is on what remains: every iteration reads a page.
  induction rest : remaining.toNat using Nat.strong_induction_on
    generalizing remaining address offset buffer with
  | _ _ ih =>
  subst rest
  refine Returns.succ ?_
  by_cases more : remaining > 0
  · have inside := inside.resolve_left (by omega)
    have length : chunkLength remaining = min pageSize remaining.toNat := chunkLength_eq remaining
    have bytes : (Cells.read dev.cells address.toNat (chunkLength remaining)).length =
        chunkLength remaining := Cells.length_read ..
    have room : offset + (Cells.read dev.cells address.toNat (chunkLength remaining)).length ≤
        buffer.length := by
      rw [bytes, length]
      omega
    have size' : offset + chunkLength remaining + (remaining - pageSize).toNat =
        (overwrite buffer offset
          (Cells.read dev.cells address.toNat (chunkLength remaining))).length := by
      rw [length_overwrite room, ← size, length]
      unfold pageSize
      omega
    have returns := ih _ (by unfold pageSize; omega) size' (remaining_next inside) rfl
    have front := take_overwrite room
    rw [bytes] at front
    rw [front, List.append_assoc, read_chunks inside] at returns
    simp only [readLoop_step _ ready more inside]
    exact returns
  · have none : remaining.toNat = 0 := by omega
    refine ⟨0, fun fuel _ => ?_⟩
    show readLoop _ (fuel + 1) _ _ _ _ _ = _
    rw [readLoop, if_neg more, none, List.take_of_length_le (by omega)]
    show _ = Except.ok (statusOk, buffer ++ [], dev)
    rw [List.append_nil]
    rfl

/-- `mcp24xx64_read` fills the buffer when the device is ready. -/
theorem mcp24xx64Read_ready (ready : dev.busy = 0)
    (inside : address.toNat + buffer.length ≤ eepromSize) :
    Returns (fun fuel => mcp24xx64Read (eepromBus nacks) fuel address buffer dev)
      (statusOk, Cells.read dev.cells address.toNat buffer.length, dev) := by
  have size : 0 + (buffer.length : Int).toNat = buffer.length := by
    rw [Nat.zero_add, Int.toNat_natCast]
  have returns : Returns
      (fun fuel => readLoop (eepromBus nacks) fuel buffer.length address 0 buffer dev) _ :=
    readLoop_returns ready size (.inr inside)
  rwa [List.take_zero, List.nil_append, Int.toNat_natCast] at returns

/-- `mcp24xx64_read` fails at once when the device is busy. -/
theorem mcp24xx64Read_busy (busy : dev.busy ≠ 0) (nonempty : buffer ≠ []) :
    Returns (fun fuel => mcp24xx64Read (eepromBus nacks) fuel address buffer dev)
      (statusErr 0, buffer, { dev with busy := dev.busy - 1 }) := by
  have more : (buffer.length : Int) > 0 := by
    have positive := List.length_pos_iff.mpr nonempty
    omega
  refine Returns.succ ⟨0, fun fuel _ => ?_⟩
  show readLoop _ (fuel + 1) _ _ _ _ _ = _
  rw [readLoop, if_pos more]
  simp only [eepromBus, transfer_busy busy, overwrite_nil]
  exact if_pos (by decide)

end Specs

end TheFirmware.Mcp24xx64
