import TheFirmware.Device.WriteRead
import TheFirmware.Platform.I2cWire

/-!
# The EEPROM on the wire

The driver of `Device/Mcp24xx64.lean` over the I2C master of `platform/lpc11xx/i2c.c`: each transfer
is a run of the interrupt handler and a slave (`wireBus`). The slave is a 24xx64 that hears single
bytes (`chipSlave`): the first two are put into its address counter, the others are kept until the
stop condition starts the page write.

A bus may take the place of another one where their transfers come to the same (`Simulates`). The
wire takes the place of the bus that `mcp24xx64_read` and `mcp24xx64_write` have been proved over
(`wireBus_simulates`), so a buffer gets through all three layers (`mcp24xx64_wire`).
-/

namespace TheFirmware.Mcp24xx64

open I2c (Slave Stored Ended)

/-! ## Buses -/

/-- The transfers that the driver makes: an address, and a page to be written or to be read. -/
structure Asked (bytes : List UInt8) (n : Nat) : Prop where
  address : 2 ≤ bytes.length
  page : bytes.length ≤ 2 + pageSize
  fits : n ≤ pageSize
  either : bytes.length = 2 ∨ n = 0

/-- Seen through `view`, the transfers of the driver come to the same on both buses. -/
def Simulates {δ ε : Type} (bus : I2cBus ε) (bus' : I2cBus δ) (view : ε → δ) (Idle : ε → Prop) :
    Prop :=
  ∀ dev bytes n, Idle dev → Asked bytes n →
    ∃ status data dev', bus.transfer dev mcp24xx64Address bytes n = (status, data, dev') ∧
      bus'.transfer (view dev) mcp24xx64Address bytes n = (status, data, view dev') ∧ Idle dev'

/-- The bytes of such a transfer begin with an address. -/
theorem Asked.split {bytes : List UInt8} {n : Nat} (asked : Asked bytes n) :
    ∃ high low data, bytes = high :: low :: data ∧ (data = [] ∨ n = 0) := by
  have address := asked.address
  have either := asked.either
  match bytes with
  | [] => cases address
  | [_] => exact absurd address (Nat.lt_irrefl 1)
  | high :: low :: data =>
    refine ⟨high, low, data, rfl, either.imp_left fun two => ?_⟩
    rw [List.length_cons, List.length_cons] at two
    exact List.eq_nil_of_length_eq_zero (Nat.add_right_cancel (m := 2) (k := 0) two)

section Simulation

variable {δ ε : Type} {bus : I2cBus ε} {bus' : I2cBus δ} {view : ε → δ} {Idle : ε → Prop}
  {dev : ε} {dev' : δ} {status : Status} {address : UInt16} {data buffer out : List UInt8}
  {remaining : Int} {offset fuel : Nat}

theorem length_addressBytes (address : UInt16) : (addressBytes address).length = 2 := rfl

theorem asked_write (address : UInt16) (chunk : data.length ≤ pageSize) :
    Asked (addressBytes address ++ data) 0 := by
  have length : (addressBytes address ++ data).length = 2 + data.length := by
    rw [List.length_append, length_addressBytes]
  refine ⟨?_, ?_, Nat.zero_le _, .inr rfl⟩
  · omega
  · omega

theorem asked_read (address : UInt16) (remaining : Int) :
    Asked (addressBytes address) (chunkLength remaining) := by
  refine ⟨le_refl 2, Nat.le_add_right 2 _, ?_, .inl rfl⟩
  rw [chunkLength_eq]
  exact Nat.min_le_left _ _

theorem transferUntilOk_simulates (simulates : Simulates bus bus' view Idle) (idle : Idle dev)
    (chunk : data.length ≤ pageSize)
    (ran : transferUntilOk bus' (addressBytes address ++ data) fuel (view dev) = .ok dev') :
    ∃ dev'', Returns (fun fuel => transferUntilOk bus (addressBytes address ++ data) fuel dev)
      dev'' ∧ view dev'' = dev' ∧ Idle dev'' := by
  induction fuel generalizing dev with
  | zero => cases ran
  | succ fuel ih =>
    rcases simulates dev _ 0 idle (asked_write address chunk) with
      ⟨status, bytes, after, transfer, transfer', idle⟩
    unfold transferUntilOk at ran
    simp only [transfer'] at ran
    by_cases failed : status ≠ statusOk
    · rw [if_pos failed] at ran
      rcases ih idle ran with ⟨dev'', returns, same, idle⟩
      refine ⟨dev'', Returns.succ ?_, same, idle⟩
      simp only [transferUntilOk, transfer]
      simp only [if_pos failed]
      exact returns
    · rw [if_neg failed] at ran
      refine ⟨after, Returns.succ ?_, Except.ok.inj ran, idle⟩
      simp only [transferUntilOk, transfer]
      simp only [if_neg failed]
      exact Returns.ok after

theorem writeLoop_simulates (simulates : Simulates bus bus' view Idle) (idle : Idle dev)
    (ran : writeLoop bus' fuel remaining address buffer (view dev) = .ok (status, dev')) :
    ∃ dev'', Returns (fun fuel => writeLoop bus fuel remaining address buffer dev)
      (status, dev'') ∧ view dev'' = dev' ∧ Idle dev'' := by
  induction fuel generalizing dev remaining address buffer with
  | zero => cases ran
  | succ fuel ih =>
    unfold writeLoop at ran
    by_cases more : remaining > 0
    · rw [if_pos more] at ran
      have chunk : (buffer.take (chunkLength remaining)).length ≤ pageSize := by
        rw [List.length_take, chunkLength_eq]
        omega
      rcases Except.bind_eq_ok.mp ran with ⟨between, first, rest⟩
      rcases transferUntilOk_simulates simulates idle chunk first with
        ⟨dev₁, returns, same, idle⟩
      rw [← same] at rest
      rcases ih idle rest with ⟨dev₂, returns', same, idle⟩
      refine ⟨dev₂, Returns.succ ?_, same, idle⟩
      simp only [writeLoop, if_pos more]
      exact returns.bind returns'
    · rw [if_neg more] at ran
      cases ran
      refine ⟨dev, Returns.succ ?_, rfl, idle⟩
      simp only [writeLoop, if_neg more]
      exact Returns.ok _

theorem readLoop_simulates (simulates : Simulates bus bus' view Idle) (idle : Idle dev)
    (ran : readLoop bus' fuel remaining address offset buffer (view dev) =
      .ok (status, out, dev')) :
    ∃ dev'', Returns (fun fuel => readLoop bus fuel remaining address offset buffer dev)
      (status, out, dev'') ∧ view dev'' = dev' ∧ Idle dev'' := by
  induction fuel generalizing dev remaining address offset buffer with
  | zero => cases ran
  | succ fuel ih =>
    unfold readLoop at ran
    by_cases more : remaining > 0
    · rcases simulates dev _ _ idle (asked_read address remaining) with
        ⟨answer, bytes, after, transfer, transfer', idle⟩
      rw [if_pos more] at ran
      simp only [transfer'] at ran
      by_cases failed : answer ≠ statusOk
      · rw [if_pos failed] at ran
        cases ran
        refine ⟨after, Returns.succ ?_, rfl, idle⟩
        simp only [readLoop, if_pos more, transfer]
        simp only [if_pos failed]
        exact Returns.ok _
      · rw [if_neg failed] at ran
        rcases ih idle ran with ⟨dev'', returns, same, idle⟩
        refine ⟨dev'', Returns.succ ?_, same, idle⟩
        simp only [readLoop, if_pos more, transfer]
        simp only [if_neg failed]
        exact returns
    · rw [if_neg more] at ran
      cases ran
      refine ⟨dev, Returns.succ ?_, rfl, idle⟩
      simp only [readLoop, if_neg more]
      exact Returns.ok _

/-- What `mcp24xx64_write` does over a bus, it does over one that takes its place. -/
theorem mcp24xx64Write_simulates (dev : ε) (simulates : Simulates bus bus' view Idle)
    (idle : Idle dev)
    (returns : Returns (fun fuel => mcp24xx64Write bus' fuel address buffer (view dev))
      (status, dev')) :
    ∃ dev'', Returns (fun fuel => mcp24xx64Write bus fuel address buffer dev) (status, dev'') ∧
      view dev'' = dev' ∧ Idle dev'' := by
  rcases returns with ⟨bound, ran⟩
  exact writeLoop_simulates simulates idle (ran bound le_rfl)

theorem mcp24xx64Read_simulates (dev : ε) (simulates : Simulates bus bus' view Idle)
    (idle : Idle dev)
    (returns : Returns (fun fuel => mcp24xx64Read bus' fuel address buffer (view dev))
      (status, out, dev')) :
    ∃ dev'', Returns (fun fuel => mcp24xx64Read bus fuel address buffer dev)
      (status, out, dev'') ∧ view dev'' = dev' ∧ Idle dev'' := by
  rcases returns with ⟨bound, ran⟩
  exact readLoop_simulates simulates idle (ran bound le_rfl)

end Simulation

/-! ## The wire -/

/-- The master and a slave are a bus. There is always fuel for the transfer, and the call returns
(`wireBus_transfer`). -/
def wireBus {δ : Type} (slave : Slave δ) : I2cBus (I2c.State × δ) where
  transfer dev addr bytes n :=
    let t := I2c.transferOf addr bytes (fun _ => 0) n
    match slave.call (bytes.length + n + 5) dev.1 t dev.2 with
    | .ok (s, d) => (s.status, s.stores.map Prod.snd, (s, d))
    | .error _ => (statusErr 0, [], dev)

/-- A transfer on the wire is a transaction with the slave. -/
theorem wireBus_transfer {δ : Type} (slave : Slave δ) (dev : I2c.State × δ) (addr : UInt8)
    {bytes : List UInt8} {n : Nat} (asked : Asked bytes n) :
    ∃ s, (wireBus slave).transfer dev addr bytes n =
      ((slave.transaction dev.2 addr bytes n).1, (slave.transaction dev.2 addr bytes n).2.1,
        (s, (slave.transaction dev.2 addr bytes n).2.2)) := by
  have page := asked.page
  have fits := asked.fits
  unfold pageSize at page fits
  have nonempty : bytes ≠ [] :=
    List.length_pos_iff.mp (Nat.lt_of_lt_of_le Nat.two_pos asked.address)
  have small : 2 + 32 < 2 ^ 32 := Nat.lt_of_sub_eq_succ rfl
  rcases I2c.call_transaction slave dev.1 dev.2 addr bytes (fun _ => 0) n nonempty (by omega)
    (by omega) with ⟨s, ran, ended⟩
  refine ⟨s, ?_⟩
  simp only [wireBus, ran]
  rw [ended.status, ended.stores]

/-! ## The device -/

/-- A 24xx64 on the wire: the device, the number of bytes of the address that it has heard, the
address counter, and the bytes for the next page write. -/
structure Chip : Type where
  eeprom : Eeprom
  heard : Nat
  counter : Nat
  latch : List UInt8

/-- A 24xx64 as a slave. `nacks` says for how many transfers each page write keeps it busy. -/
def chipSlave (nacks : Nat → Nat) : Slave Chip where
  address byte c :=
    if byte &&& 0xFE ≠ mcp24xx64Address then (false, c)
    else if c.eeprom.busy ≠ 0 then
      (false, { c with eeprom := { c.eeprom with busy := c.eeprom.busy - 1 } })
    else if byte &&& 1 = 0 then (true, { c with heard := 0 })
    else (true, c)
  write byte c :=
    match c.heard with
    | 0 => (true, { c with heard := 1, counter := byte.toNat * 256 })
    | 1 => (true, { c with heard := 2, counter := (c.counter + byte.toNat) % eepromSize })
    | _ => (true, { c with latch := c.latch ++ [byte] })
  read c := (c.eeprom.cells c.counter, { c with counter := (c.counter + 1) % eepromSize })
  stop c :=
    if c.latch = [] then c
    else { c with eeprom := c.eeprom.written nacks c.counter c.latch, latch := [] }

section Device

variable {nacks : Nat → Nat} {c : Chip} {data : List UInt8} {n : Nat}

/-- The bytes behind the address are kept, and written at the stop condition. -/
theorem sends_data (heard : c.heard = 2) (data : List UInt8) :
    (chipSlave nacks).sends mcp24xx64Address 0 data c =
      (statusOk, [], (chipSlave nacks).stop { c with latch := c.latch ++ data }) := by
  induction data generalizing c with
  | nil =>
    rw [List.append_nil]
    rfl
  | cons byte data ih =>
    have written : (chipSlave nacks).write byte c =
        (true, { c with latch := c.latch ++ [byte] }) := by
      simp only [chipSlave, heard]
    unfold Slave.sends
    simp only [written, if_true]
    rw [ih (c := { c with latch := c.latch ++ [byte] }) heard, List.append_assoc]
    rfl

/-- The cells are sent from the address counter on. -/
theorem reads_cells (nacks : Nat → Nat) (c : Chip) (inside : c.counter < eepromSize) (n : Nat) :
    ∃ counter, (chipSlave nacks).reads n c =
      (sequentialRead c.eeprom.cells c.counter n, { c with counter := counter }) := by
  induction n generalizing c with
  | zero => exact ⟨c.counter, rfl⟩
  | succ n ih =>
    have positive : 0 < eepromSize := Nat.zero_lt_of_lt inside
    rcases ih { c with counter := (c.counter + 1) % eepromSize } (Nat.mod_lt _ positive) with
      ⟨counter, reads⟩
    refine ⟨counter, ?_⟩
    have cells : c.eeprom.cells c.counter ::
          sequentialRead c.eeprom.cells ((c.counter + 1) % eepromSize) n =
        sequentialRead c.eeprom.cells c.counter (n + 1) := by
      have start : (c.counter + 0) % eepromSize = c.counter := Nat.mod_eq_of_lt inside
      unfold sequentialRead
      rw [List.range_succ_eq_map, List.map_cons, List.map_map, start]
      refine congrArg _ (List.map_congr_left fun i _ => ?_)
      rw [Function.comp_apply, Nat.mod_add_mod, Nat.add_assoc, Nat.add_comm 1]
    rw [← cells]
    exact congrArg (fun rest => (c.eeprom.cells c.counter :: rest.1, rest.2)) reads

/-- The two bytes of the address are put into the address counter. -/
theorem sends_address (high low : UInt8) (data : List UInt8) (n : Nat) (heard : c.heard = 0) :
    (chipSlave nacks).sends mcp24xx64Address n (high :: low :: data) c =
      (chipSlave nacks).sends mcp24xx64Address n data
        { c with
          heard := 2
          counter := (high.toNat * 256 + low.toNat) % eepromSize } := by
  simp only [Slave.sends, chipSlave, heard, if_true]

theorem stop_idle (idle : c.latch = []) : (chipSlave nacks).stop c = c := if_pos idle

theorem address_busy (busy : c.eeprom.busy ≠ 0) :
    (chipSlave nacks).address mcp24xx64Address c =
      (false, { c with eeprom := { c.eeprom with busy := c.eeprom.busy - 1 } }) := if_pos busy

theorem address_ready (ready : c.eeprom.busy = 0) :
    (chipSlave nacks).address mcp24xx64Address c = (true, { c with heard := 0 }) :=
  if_neg (not_not.mpr ready)

theorem address_read (ready : c.eeprom.busy = 0) :
    (chipSlave nacks).address (mcp24xx64Address ||| 0x1) c = (true, c) :=
  if_neg (not_not.mpr ready)

/-- The cells are read, when the device is ready and its address counter is set. -/
theorem receives_cells (nacks : Nat → Nat) (ready : c.eeprom.busy = 0) (idle : c.latch = [])
    (inside : c.counter < eepromSize) (n : Nat) :
    ∃ counter, (chipSlave nacks).receives mcp24xx64Address n c =
      (statusOk, sequentialRead c.eeprom.cells c.counter n, { c with counter := counter }) := by
  unfold Slave.receives
  by_cases none : n = 0
  · refine ⟨c.counter, ?_⟩
    rw [if_pos none, stop_idle idle, none]
    rfl
  · rcases reads_cells nacks c inside n with ⟨counter, reads⟩
    refine ⟨counter, ?_⟩
    rw [if_neg none, address_read ready]
    simp only [if_true, reads]
    rw [stop_idle (c := { c with counter := counter }) idle]

/-- A transfer of the driver with an idle device comes to the same on the wire. -/
theorem chip_transaction (nacks : Nat → Nat) (idle : c.latch = []) (asked : Asked data n) :
    ∃ status bytes c',
      (chipSlave nacks).transaction c mcp24xx64Address data n = (status, bytes, c') ∧
        c.eeprom.transfer nacks mcp24xx64Address data n = (status, bytes, c'.eeprom) ∧
        c'.latch = [] := by
  unfold Slave.transaction
  by_cases busy : c.eeprom.busy ≠ 0
  · let refused : Chip := { c with eeprom := { c.eeprom with busy := c.eeprom.busy - 1 } }
    refine ⟨statusErr 0, [], refused, ?_, transfer_busy busy data n, idle⟩
    rw [address_busy busy]
    exact congrArg (fun c => (statusErr 0, [], c)) (stop_idle (c := refused) idle)
  have ready := not_not.mp busy
  rcases asked.split with ⟨high, low, data, rfl, either⟩
  have inside : (high.toNat * 256 + low.toNat) % eepromSize < eepromSize :=
    Nat.mod_lt _ (Nat.succ_pos _)
  rw [address_ready ready]
  simp only [if_true]
  rw [sends_address high low data n rfl]
  unfold Eeprom.transfer
  rw [if_neg (not_not.mpr rfl), if_neg busy]
  by_cases reading : data = []
  · let addressed : Chip := ⟨c.eeprom, 2, (high.toNat * 256 + low.toNat) % eepromSize, c.latch⟩
    rcases receives_cells nacks (c := addressed) ready idle inside n with
      ⟨counter, receives⟩
    refine ⟨statusOk, _, ⟨c.eeprom, 2, counter, c.latch⟩, ?_, if_pos reading, idle⟩
    rw [reading]
    exact receives
  · have none := either.resolve_left reading
    let a := (high.toNat * 256 + low.toNat) % eepromSize
    let after : Chip := ⟨c.eeprom.written nacks a data, 2, a, []⟩
    have written : (chipSlave nacks).stop ⟨c.eeprom, 2, a, c.latch ++ data⟩ = after := by
      rw [idle]
      exact if_neg reading
    refine ⟨statusOk, [], after, ?_, if_neg reading, rfl⟩
    rw [none, sends_data rfl]
    exact congrArg (fun c => (statusOk, [], c)) written

end Device

/-! ## The driver on the wire -/

section Wire

variable {nacks : Nat → Nat} {c : Chip} {address : UInt16} {buffer out : List UInt8}

/-- The EEPROM that the driver sees. -/
def onWire (dev : I2c.State × Chip) : Eeprom := dev.2.eeprom

/-- No page write is under way on the wire. -/
def Idle (dev : I2c.State × Chip) : Prop := dev.2.latch = []

/-- The wire takes the place of the bus. -/
theorem wireBus_simulates (nacks : Nat → Nat) :
    Simulates (wireBus (chipSlave nacks)) (eepromBus nacks) onWire Idle := by
  intro dev bytes n idle asked
  rcases wireBus_transfer (chipSlave nacks) dev mcp24xx64Address asked with ⟨s, transfer⟩
  rcases chip_transaction nacks idle asked with ⟨status, data, c', same, spec, idle⟩
  rw [same] at transfer
  exact ⟨status, data, (s, c'), transfer, spec, idle⟩

/-- **The EEPROM on the wire**: the driver, the interrupt handler and the device together. Whatever
state the master is in, a buffer that does not cross a page where it must not is written byte by
byte, in the order of the pages, and the driver waits while the device is busy. A read gives it back
when the device is ready, and else fails at once. -/
theorem mcp24xx64_wire (nacks : Nat → Nat) (s : I2c.State) (c : Chip) (address : UInt16)
    (buffer : List UInt8) (idle : c.latch = [])
    (inside : address.toNat + buffer.length ≤ eepromSize) (pages : PagesMatch address buffer) :
    ∃ s₁ c₁, Returns (fun fuel => mcp24xx64Write (wireBus (chipSlave nacks)) fuel address buffer
        (s, c)) (statusOk, (s₁, c₁)) ∧
      c₁.eeprom.cells = Cells.write c.eeprom.cells address.toNat buffer ∧
      c₁.eeprom.history = c.eeprom.history ++ snapshots c.eeprom.cells address.toNat buffer ∧
      ∀ out : List UInt8, out.length = buffer.length → ∃ status bytes s₂ c₂,
        Returns (fun fuel => mcp24xx64Read (wireBus (chipSlave nacks)) fuel address out (s₁, c₁))
          (status, bytes, (s₂, c₂)) ∧
        c₂.eeprom.cells = c₁.eeprom.cells ∧
        if buffer = [] ∨ c₁.eeprom.busy = 0 then status = statusOk ∧ bytes = buffer
        else status = statusErr 0 ∧ bytes = out ∧ c₂.eeprom.busy = c₁.eeprom.busy - 1 := by
  have simulates := wireBus_simulates nacks
  rcases mcp24xx64Write_returns nacks c.eeprom address buffer pages inside with
    ⟨dev, write, cells, history⟩
  rcases mcp24xx64Write_simulates (s, c) simulates idle write with
    ⟨⟨s₁, c₁⟩, wrote, rfl, idle⟩
  refine ⟨s₁, c₁, wrote, cells, history, fun out length => ?_⟩
  by_cases nothing : buffer = [] ∨ c₁.eeprom.busy = 0
  · simp only [if_pos nothing]
    by_cases empty : buffer = []
    · rw [empty] at length
      rcases List.eq_nil_of_length_eq_zero length
      exact ⟨statusOk, [], s₁, c₁, Returns.succ (Returns.ok _), rfl, rfl, empty.symm⟩
    · have spec : Returns (fun fuel => mcp24xx64Read (eepromBus nacks) fuel address out
          c₁.eeprom) _ := mcp24xx64Read_ready (nothing.resolve_left empty) (length ▸ inside)
      rcases mcp24xx64Read_simulates (s₁, c₁) simulates idle spec with ⟨⟨s₂, c₂⟩, read, same, -⟩
      refine ⟨_, _, s₂, c₂, read, congrArg Eeprom.cells same, rfl, ?_⟩
      show Cells.read c₁.eeprom.cells _ _ = _
      have stored : c₁.eeprom.cells = Cells.write c.eeprom.cells address.toNat buffer := cells
      rw [stored, length, Cells.read_write]
  · simp only [if_neg nothing]
    rcases not_or.mp nothing with ⟨nonempty, busy⟩
    have out_nonempty : out ≠ [] := by
      rintro rfl
      exact nonempty (List.eq_nil_of_length_eq_zero length.symm)
    have spec : Returns (fun fuel => mcp24xx64Read (eepromBus nacks) fuel address out
        c₁.eeprom) _ := mcp24xx64Read_busy busy out_nonempty
    rcases mcp24xx64Read_simulates (s₁, c₁) simulates idle spec with ⟨⟨s₂, c₂⟩, read, same, -⟩
    exact ⟨_, _, s₂, c₂, read, (congrArg Eeprom.cells same :), rfl, rfl,
      (congrArg Eeprom.busy same :)⟩

end Wire

/-- Forty bytes are written from the second page on. -/
theorem mcp24xx64_wire_page :
    ∃ s₁ c₁, Returns (fun fuel => mcp24xx64Write (wireBus (chipSlave fun _ => 3)) fuel 32
        (List.replicate 40 7) (I2c.idleDevice, ⟨⟨fun _ => 0, 2, []⟩, 0, 0, []⟩))
        (statusOk, (s₁, c₁)) ∧
      c₁.eeprom.cells 71 = 7 := by
  rcases mcp24xx64_wire (fun _ => 3) I2c.idleDevice ⟨⟨fun _ => 0, 2, []⟩, 0, 0, []⟩ 32
    (List.replicate 40 7) rfl (by decide) (.inl rfl) with ⟨s₁, c₁, wrote, cells, -⟩
  exact ⟨s₁, c₁, wrote, by rw [cells]; decide +kernel⟩

end TheFirmware.Mcp24xx64
