import TheFirmware.Device.Mcp24xx64

/-!
# Saving and loading of `lib/config/config.c`

`config_save` writes the configuration and then its CRC-8 to the EEPROM, and `config_load` takes
what it reads only when the CRC-8 behind it is right; else it falls back to the defaults. The
configuration is a list of bytes, `struct config_t` being packed.

* What has been saved can be loaded again, if the EEPROM answers: `mcp24xx64_read` does not repeat a
  transfer that is not acknowledged, so a load while the last page write is still going on fails and
  leaves the configuration as it is (`configSave_configLoad_iff`).
* When a save is cut off between two page writes, a load finds the first pages of the new and the
  last pages of the old configuration, with the CRC-8 of the old one
  (`configLoad_interrupted`).
-/

namespace TheFirmware.Config

open Mcp24xx64

variable {δ : Type}

/-! ## `lib/crc/crc8_maxim.c` -/

/-- `kCRCPolynomial` -/
def crcPolynomial : UInt8 := 0x31

/-- One of the eight steps for a byte. -/
def crcStep (crc : UInt8) : UInt8 :=
  if crc &&& 0x80 ≠ 0 then (crc <<< 1) ^^^ crcPolynomial else crc <<< 1

/-- The CRC after another byte. -/
def crcByte (crc byte : UInt8) : UInt8 := crcStep^[8] (crc ^^^ byte)

/-- `crc8_maxim` -/
def crc8Maxim (data : List UInt8) : UInt8 := data.foldl crcByte 0

/-! ## `config_save` and `config_load` -/

/-- `config_save` -/
def configSave (bus : I2cBus δ) (fuel : Nat) (config : List UInt8) (dev : δ) : Except Fault δ := do
  let (_, dev) ← mcp24xx64Write bus fuel 0x0 config dev
  let crc := crc8Maxim config
  let (_, dev) ← mcp24xx64Write bus fuel config.length.toUInt16 [crc] dev
  return dev

/-- `config_load_defaults`: `sn` and `node_id` are 0, `speed` is 125000, `sensor_interval` is 30, and
the `outputs` bytes of `config.can_node.outputs` are 0. -/
def configLoadDefaults (outputs : Nat) : List UInt8 :=
  [0, 0, 0, 0] ++ [0, 0, 0, 0] ++ [0x48, 0xE8, 0x01, 0x00] ++ [30, 0, 0, 0] ++
    List.replicate outputs 0

/-- How `config_load` ends. -/
inductive LoadResult : Type
  | readFailed
  | loaded
  | defaults
  deriving DecidableEq, Repr

/-- What `config_load` leaves behind. -/
structure Loaded (δ : Type) : Type where
  config : List UInt8
  result : LoadResult
  dev : δ

/-- `config_load`. `defaults` is what `config_load_defaults` fills the configuration with, and
`stack` what is in `crc_actual` before the CRC is read, the status of which is not looked at. -/
def configLoad (bus : I2cBus δ) (defaults : List UInt8) (stack : UInt8) (fuel : Nat)
    (config : List UInt8) (dev : δ) : Except Fault (Loaded δ) := do
  let (status, config, dev) ← mcp24xx64Read bus fuel 0x0 config dev
  if status ≠ statusOk then return ⟨config, .readFailed, dev⟩
  else
    let crcExpected := crc8Maxim config
    let (_, crcActual, dev) ← mcp24xx64Read bus fuel config.length.toUInt16 [stack] dev
    if crcActual ≠ [crcExpected] then return ⟨defaults, .defaults, dev⟩
    else return ⟨config, .loaded, dev⟩

/-- The cells hold the configuration, with `crc` behind it. -/
structure Holds (cells : Nat → UInt8) (config : List UInt8) (crc : UInt8) : Prop where
  content : Cells.read cells 0 config.length = config
  crc : cells config.length = crc

section Specs

variable {cells : Nat → UInt8} {dev : Eeprom} {content config stored : List UInt8} {crc : UInt8}

theorem toNat_length (size : config.length + 1 ≤ eepromSize) :
    config.length.toUInt16.toNat = config.length := by
  unfold eepromSize at size
  exact Nat.mod_eq_of_lt (by omega)

/-- `config_save` returns, and has written the content and its CRC, the content page by page. -/
theorem configSave_returns (nacks : Nat → Nat) (dev : Eeprom)
    (size : content.length + 1 ≤ eepromSize) :
    ∃ dev', Returns (fun fuel => configSave (eepromBus nacks) fuel content dev) dev' ∧
      dev'.cells = Cells.write dev.cells 0 (content ++ [crc8Maxim content]) ∧
      dev'.history = dev.history ++ (snapshots dev.cells 0 content ++ [dev'.cells]) := by
  have fits : content.length % pageSize + 1 ≤ pageSize := by
    unfold pageSize
    omega
  obtain ⟨dev₁, first, cells₁, history₁⟩ :=
    mcp24xx64Write_returns nacks dev 0 content (.inl rfl) (by show 0 + _ ≤ _; omega)
  obtain ⟨dev₂, second, cells₂, history₂⟩ :=
    mcp24xx64Write_returns nacks dev₁ content.length.toUInt16 [crc8Maxim content]
      (.inr (by rw [toNat_length size]; exact fits)) (by rw [toNat_length size]; exact size)
  have both : dev₂.cells = Cells.write dev.cells 0 (content ++ [crc8Maxim content]) := by
    rw [cells₂, cells₁, toNat_length size, ← Cells.write_write rfl, Nat.zero_add]
    rfl
  refine ⟨dev₂, first.bind (second.bind ⟨0, fun _ _ => rfl⟩), both, ?_⟩
  have last : snapshots dev₁.cells content.length.toUInt16.toNat [crc8Maxim content] =
      [dev₂.cells] := by
    rw [cells₂]
    simp [snapshots, pageSize]
  rw [history₂, history₁, last, List.append_assoc]
  rfl

/-- When the configuration has been read, it is taken or not by what is in `crc_actual` after the
read of the CRC. -/
theorem configLoad_compare {bus : I2cBus δ} {dev₀ dev₁ dev₂ : δ} {status : Status} {stack : UInt8}
    (defaults : List UInt8)
    (first : Returns (fun fuel => mcp24xx64Read bus fuel 0x0 config dev₀) (statusOk, stored, dev₁))
    (second : Returns (fun fuel => mcp24xx64Read bus fuel stored.length.toUInt16 [stack] dev₁)
      (status, [crc], dev₂)) :
    Returns (fun fuel => configLoad bus defaults stack fuel config dev₀)
      (if crc = crc8Maxim stored then ⟨stored, .loaded, dev₂⟩
      else ⟨defaults, .defaults, dev₂⟩) := by
  refine first.bind ?_
  simp only [ne_eq, not_true_eq_false, if_false]
  refine second.bind ⟨0, fun _ _ => ?_⟩
  by_cases same : crc = crc8Maxim stored
  · simp [same]
    rfl
  · simp [same]
    rfl

/-- A load from a device that is ready. -/
theorem configLoad_ready (nacks : Nat → Nat) (defaults : List UInt8) (stack : UInt8)
    (ready : dev.busy = 0) (holds : Holds dev.cells stored crc)
    (size : stored.length + 1 ≤ eepromSize) (sameSize : config.length = stored.length) :
    Returns (fun fuel => configLoad (eepromBus nacks) defaults stack fuel config dev)
      (if crc = crc8Maxim stored then ⟨stored, .loaded, dev⟩
      else ⟨defaults, .defaults, dev⟩) := by
  have first : Returns (fun fuel => mcp24xx64Read (eepromBus nacks) fuel 0x0 config dev)
      (statusOk, stored, dev) := by
    have read := holds.content
    rw [← sameSize] at read
    rw [← read]
    exact mcp24xx64Read_ready ready (by show 0 + _ ≤ _; omega)
  have second : Returns (fun fuel => mcp24xx64Read (eepromBus nacks) fuel
      stored.length.toUInt16 [stack] dev) (statusOk, [crc], dev) := by
    have address := toNat_length size
    have returns : Returns (fun fuel => mcp24xx64Read (eepromBus nacks) fuel
        stored.length.toUInt16 [stack] dev) _ :=
      mcp24xx64Read_ready ready (by rw [address]; exact size)
    rw [address] at returns
    rw [← holds.crc]
    exact returns
  exact configLoad_compare defaults first second

/-- A load from a device that is busy. -/
theorem configLoad_busy (nacks : Nat → Nat) (defaults : List UInt8) (stack : UInt8)
    (busy : dev.busy ≠ 0) (nonempty : config ≠ []) :
    Returns (fun fuel => configLoad (eepromBus nacks) defaults stack fuel config dev)
      ⟨config, .readFailed, { dev with busy := dev.busy - 1 }⟩ := by
  have first : Returns (fun fuel => mcp24xx64Read (eepromBus nacks) fuel 0x0 config dev)
      (statusErr 0, config, { dev with busy := dev.busy - 1 }) :=
    mcp24xx64Read_busy busy nonempty
  exact first.bind ⟨0, fun _ _ => rfl⟩

/-- An empty configuration is read without a transfer, and then the CRC is not read. -/
theorem configLoad_busy_nil (nacks : Nat → Nat) (defaults : List UInt8) (stack : UInt8)
    (busy : dev.busy ≠ 0) :
    Returns (fun fuel => configLoad (eepromBus nacks) defaults stack fuel [] dev)
      (if stack = crc8Maxim [] then ⟨[], .loaded, { dev with busy := dev.busy - 1 }⟩
      else ⟨defaults, .defaults, { dev with busy := dev.busy - 1 }⟩) := by
  have first : Returns (fun fuel => mcp24xx64Read (eepromBus nacks) fuel 0x0 [] dev)
      (statusOk, [], dev) := Returns.succ ⟨0, fun _ _ => rfl⟩
  have second : Returns (fun fuel => mcp24xx64Read (eepromBus nacks) fuel
      ([] : List UInt8).length.toUInt16 [stack] dev)
      (statusErr 0, [stack], { dev with busy := dev.busy - 1 }) :=
    mcp24xx64Read_busy busy (List.cons_ne_nil _ _)
  exact configLoad_compare defaults first second

/-! ## The round trip -/

/-- After a save the device holds the content and its CRC. -/
theorem holds_saved (cells : Nat → UInt8) (content : List UInt8) :
    Holds (Cells.write cells 0 (content ++ [crc8Maxim content])) content (crc8Maxim content) := by
  have read := Cells.read_write cells 0 (content ++ [crc8Maxim content])
  rw [List.length_append, Cells.read_add] at read
  obtain ⟨front, back⟩ := List.append_inj read (Cells.length_read ..)
  have cell : [Cells.write cells 0 (content ++ [crc8Maxim content]) (0 + content.length + 0)] =
      [crc8Maxim content] := back
  rw [Nat.zero_add] at cell
  exact ⟨front, List.cons.inj cell |>.1⟩

/-- **What was saved is loaded exactly when the EEPROM answers**: `config_save` returns, has changed
no cell behind the CRC, and a load of any earlier configuration that finds the device busy for
`left` more transfers leaves the saved content, without falling back to the defaults, if and only if
the device is ready or the configuration in memory is the saved content anyway. -/
theorem configSave_configLoad_iff (nacks : Nat → Nat) (content ram defaults : List UInt8)
    (stack : UInt8) (dev : Eeprom) (size : content.length + 1 ≤ eepromSize)
    (sameSize : ram.length = content.length) :
    ∃ dev', Returns (fun fuel => configSave (eepromBus nacks) fuel content dev) dev' ∧
      (∀ a, content.length < a → dev'.cells a = dev.cells a) ∧
      ∀ left, left ≤ dev'.busy → ∃ loaded,
        Returns (fun fuel => configLoad (eepromBus nacks) defaults stack fuel ram
          { dev' with busy := left }) loaded ∧
        (loaded.config = content ∧ loaded.result ≠ .defaults ↔
          left = 0 ∨ ram = content ∧ (content = [] → stack = crc8Maxim [])) := by
  obtain ⟨dev', saved, cells, -⟩ := configSave_returns nacks dev size
  refine ⟨dev', saved, fun a behind => ?_, fun left _ => ?_⟩
  · rw [cells, Cells.write_outside]
    rw [List.length_append, List.length_singleton]
    omega
  by_cases ready : left = 0
  · have holds : Holds dev'.cells content (crc8Maxim content) := by
      rw [cells]
      exact holds_saved dev.cells content
    have returns : Returns (fun fuel => configLoad (eepromBus nacks) defaults stack fuel ram
        { dev' with busy := left }) _ :=
      configLoad_ready nacks defaults stack ready holds size sameSize
    rw [if_pos rfl] at returns
    exact ⟨_, returns, fun _ => .inl ready, fun _ => ⟨rfl, nofun⟩⟩
  · by_cases empty : ram = []
    · have contentEmpty : content = [] := by
        rw [← List.length_eq_zero_iff, ← sameSize, empty, List.length_nil]
      subst empty contentEmpty
      refine ⟨_, configLoad_busy_nil nacks defaults stack ready, ?_⟩
      by_cases same : stack = crc8Maxim []
      · rw [if_pos same]
        exact ⟨fun _ => .inr ⟨rfl, fun _ => same⟩, fun _ => ⟨rfl, nofun⟩⟩
      · rw [if_neg same]
        refine ⟨fun kept => absurd rfl kept.2, ?_⟩
        rintro (now | ⟨-, same'⟩)
        · exact absurd now ready
        · exact absurd (same' rfl) same
    · have contentNonempty : content ≠ [] := by
        rintro rfl
        exact empty (List.length_eq_zero_iff.mp sameSize)
      refine ⟨_, configLoad_busy nacks defaults stack ready empty, ?_⟩
      refine ⟨fun kept => .inr ⟨kept.1, fun nil => absurd nil contentNonempty⟩, ?_⟩
      rintro (now | ⟨same, -⟩)
      · exact absurd now ready
      · exact ⟨same, nofun⟩

/-! ## An interrupted save -/

/-- The first `k` pages of the new configuration, and the rest of the old one. -/
def mixture (old new : List UInt8) (k : Nat) : List UInt8 :=
  new.take (pageSize * k) ++ old.drop (pageSize * k)

/-- The number of pages of a configuration. -/
def pageCount (config : List UInt8) : Nat := (config.length + 31) / pageSize

variable {old new : List UInt8} {k : Nat}

theorem length_mixture (sameSize : old.length = new.length) :
    (mixture old new k).length = new.length := by
  unfold mixture
  rw [List.length_append, List.length_take, List.length_drop]
  omega

/-- With pages of the new configuration in front, the cells hold a mixture with the old CRC. -/
theorem Holds.pages (holds : Holds cells old crc)
    (sameSize : old.length = new.length) (k : Nat) :
    Holds (Cells.write cells 0 (new.take (pageSize * k))) (mixture old new k) crc := by
  have short : (new.take (pageSize * k)).length ≤ old.length := by
    rw [List.length_take]
    omega
  constructor
  · rw [length_mixture sameSize, ← sameSize, Cells.read_write_le short, holds.content]
    unfold mixture
    rw [List.length_take]
    rcases Nat.le_total (pageSize * k) new.length with before | behind
    · rw [min_eq_left before]
    · rw [min_eq_right behind, ← sameSize, List.drop_length,
        List.drop_eq_nil_of_le (sameSize ▸ behind)]
  · rw [length_mixture sameSize, Cells.write_outside, ← sameSize, holds.crc]
    rw [Nat.zero_add, ← sameSize]
    exact .inr short

theorem mixture_zero (old new : List UInt8) : mixture old new 0 = old := rfl

theorem mixture_pageCount (sameSize : old.length = new.length) (all : pageCount new ≤ k) :
    mixture old new k = new := by
  have behind : new.length ≤ pageSize * k := by
    unfold pageCount at all
    unfold pageSize at *
    omega
  unfold mixture
  rw [List.take_of_length_le behind, List.drop_eq_nil_of_le (sameSize ▸ behind), List.append_nil]

/-- Only between the first page and the last one a mixture need not be one of the two
configurations. -/
theorem mixture_cases (sameSize : old.length = new.length) (k : Nat) :
    mixture old new k = old ∨ mixture old new k = new ∨ (0 < k ∧ k < pageCount new) := by
  rcases Nat.eq_zero_or_pos k with rfl | first
  · exact .inl (mixture_zero old new)
  · rcases Nat.lt_or_ge k (pageCount new) with before | all
    · exact .inr (.inr ⟨first, before⟩)
    · exact .inr (.inl (mixture_pageCount sameSize all))

theorem length_snapshots (cells : Nat → UInt8) (config : List UInt8) :
    (snapshots cells 0 config).length = pageCount config := by
  unfold snapshots pageCount
  rw [List.length_map, List.length_range]

/-- The cells after `k` page writes of a save. -/
theorem holds_cut {cut : Nat → UInt8} (holds : Holds cells old (crc8Maxim old))
    (sameSize : old.length = new.length)
    (at_ : (cells :: (snapshots cells 0 new ++
      [Cells.write cells 0 (new ++ [crc8Maxim new])]))[k]? = some cut) :
    (k ≤ pageCount new ∧ Holds cut (mixture old new k) (crc8Maxim old)) ∨
      (k = pageCount new + 1 ∧ Holds cut new (crc8Maxim new)) := by
  cases k with
  | zero =>
      obtain rfl : cells = cut := by simpa using at_
      exact .inl ⟨Nat.zero_le _, holds⟩
  | succ k =>
      rw [List.getElem?_cons_succ] at at_
      rcases Nat.lt_or_ge k (snapshots cells 0 new).length with before | behind
      · rw [List.getElem?_append_left before] at at_
        rw [length_snapshots] at before
        obtain ⟨bound, rfl⟩ := List.getElem?_eq_some_iff.mp at_
        refine .inl ⟨before, ?_⟩
        simp only [snapshots, List.getElem_map, List.getElem_range]
        exact holds.pages sameSize (k + 1)
      · rw [List.getElem?_append_right behind, List.getElem?_singleton] at at_
        obtain ⟨last, same⟩ := Option.ite_none_right_eq_some.mp at_
        obtain rfl := Option.some.inj same
        rw [length_snapshots] at behind last
        refine .inr ⟨by omega, ?_⟩
        exact holds_saved cells new

/-- A load that finds the device busy ends somehow, and leaves the configuration alone unless it is
empty. -/
theorem exists_load_busy {ram : List UInt8} {left : Nat} (nacks : Nat → Nat)
    (defaults : List UInt8) (stack : UInt8) (cells : Nat → UInt8) (busy : left ≠ 0) :
    ∃ result, Returns (fun fuel => configLoad (eepromBus nacks) defaults stack fuel ram
        ⟨cells, left, []⟩) result ∧
      (ram ≠ [] → result.config = ram ∧ result.result = .readFailed) := by
  by_cases empty : ram = []
  · subst empty
    exact ⟨_, configLoad_busy_nil nacks defaults stack busy, fun nonempty => absurd rfl nonempty⟩
  · exact ⟨_, configLoad_busy nacks defaults stack busy empty, fun _ => ⟨rfl, rfl⟩⟩

/-- **A cut-off save is detected up to the strength of the CRC**: from an EEPROM that holds the old
configuration, a save of a new one goes through `pageCount new` page writes and that of the CRC.
When it is cut off after `k` of them, a load that finds the device ready leaves the old
configuration, the new one or the defaults, or else a mixture whose CRC-8 is that of the old
configuration; and whenever the first `k` pages of the new and the rest of the old configuration
have that CRC-8, it loads them. A load that finds the device busy leaves the configuration in
memory alone. -/
theorem configLoad_interrupted (nacks : Nat → Nat) (old new ram defaults : List UInt8)
    (stack : UInt8) (dev : Eeprom) (size : new.length + 1 ≤ eepromSize)
    (sameSize : old.length = new.length) (ramSize : ram.length = new.length)
    (holds : Holds dev.cells old (crc8Maxim old)) :
    ∃ dev' cuts, Returns (fun fuel => configSave (eepromBus nacks) fuel new dev) dev' ∧
      dev'.history = dev.history ++ cuts ∧ cuts.length = pageCount new + 1 ∧
      ∀ k cut, (dev.cells :: cuts)[k]? = some cut → ∀ left, ∃ loaded,
        Returns (fun fuel => configLoad (eepromBus nacks) defaults stack fuel ram ⟨cut, left, []⟩)
          loaded ∧
        (left = 0 →
          (loaded.config = old ∨ loaded.config = new ∨ loaded.config = defaults ∨
            (0 < k ∧ k < pageCount new ∧ loaded.config = mixture old new k ∧
              crc8Maxim (mixture old new k) = crc8Maxim old)) ∧
          (k ≤ pageCount new → crc8Maxim (mixture old new k) = crc8Maxim old →
            loaded.config = mixture old new k)) ∧
        (left ≠ 0 → new ≠ [] → loaded.config = ram ∧ loaded.result = .readFailed) := by
  obtain ⟨dev', saved, cells, history⟩ := configSave_returns nacks dev size
  rw [cells] at history
  refine ⟨dev', _, saved, history, ?_, fun k cut at_ left => ?_⟩
  · rw [List.length_append, length_snapshots, List.length_singleton]
  · by_cases ready : left = 0
    · subst ready
      rcases holds_cut holds sameSize at_ with ⟨early, holds⟩ | ⟨last, holds⟩
      · have length : (mixture old new k).length = new.length := length_mixture sameSize
        refine ⟨_, configLoad_ready nacks defaults stack rfl holds (length ▸ size)
          (ramSize.trans length.symm), fun _ => ⟨?_, fun _ same => ?_⟩, fun busy => absurd rfl busy⟩
        · by_cases same : crc8Maxim old = crc8Maxim (mixture old new k)
          · rw [if_pos same]
            rcases mixture_cases sameSize k with isOld | isNew | ⟨first, before⟩
            · exact .inl isOld
            · exact .inr (.inl isNew)
            · exact .inr (.inr (.inr ⟨first, before, rfl, same.symm⟩))
          · rw [if_neg same]
            exact .inr (.inr (.inl rfl))
        · rw [if_pos same.symm]
      · refine ⟨_, configLoad_ready nacks defaults stack rfl holds size ramSize,
          fun _ => ⟨?_, fun early => ?_⟩, fun busy => absurd rfl busy⟩
        · rw [if_pos rfl]
          exact .inr (.inl rfl)
        · omega
    · obtain ⟨loaded, returns, kept⟩ := exists_load_busy nacks defaults stack cut ready
      refine ⟨loaded, returns, fun now => absurd now ready, fun _ nonempty => kept ?_⟩
      rintro rfl
      exact nonempty (List.length_eq_zero_iff.mp ramSize.symm)

end Specs

/-! ## Concrete runs -/

/-- An EEPROM that holds a configuration of zeros. -/
def blankEeprom : Eeprom := { cells := fun _ => 0, busy := 0, history := [] }

/-- A content of one byte is loaded once the device is ready. -/
theorem configSave_configLoad_iff_ready :
    ∃ dev', Returns (fun fuel => configSave (eepromBus fun _ => 3) fuel [1] blankEeprom) dev' ∧
      ∃ loaded, Returns (fun fuel => configLoad (eepromBus fun _ => 3) [0] 0 fuel [0]
          { dev' with busy := 0 }) loaded ∧
        loaded.config = [1] ∧ loaded.result ≠ .defaults := by
  obtain ⟨dev', saved, -, load⟩ := configSave_configLoad_iff (fun _ => 3) [1] [0] [0] 0 blankEeprom
    (by decide) rfl
  obtain ⟨loaded, returns, iff⟩ := load 0 (Nat.zero_le _)
  exact ⟨dev', saved, loaded, returns, iff.mpr (.inl rfl)⟩

/-- The device does not acknowledge the transfer behind a page write: a load right behind the save
fails and leaves another configuration in memory. -/
theorem saved_not_loaded :
    ∃ dev' loaded, configSave (eepromBus fun _ => 1) 8 [1] blankEeprom = .ok dev' ∧
      configLoad (eepromBus fun _ => 1) [0] 0 8 [0] dev' = .ok loaded ∧
      loaded.result = .readFailed ∧ loaded.config ≠ [1] :=
  ⟨_, _, rfl, rfl, rfl, by decide⟩

/-- A new configuration of two pages. The first page has the CRC-8 of a page of zeros. -/
def collidingConfig : List UInt8 := [0x01, 0x31] ++ List.replicate 30 0 ++ [7]

theorem blankEeprom_holds :
    Holds blankEeprom.cells (List.replicate 33 0) (crc8Maxim (List.replicate 33 0)) :=
  ⟨rfl, by decide +kernel⟩

/-- The save of the configuration, cut off before any page write. -/
theorem configLoad_interrupted_first :
    ∃ loaded, Returns (fun fuel => configLoad (eepromBus fun _ => 0) (List.replicate 33 0) 0 fuel
        (List.replicate 33 0) ⟨blankEeprom.cells, 0, []⟩) loaded ∧
      loaded.config = List.replicate 33 0 := by
  obtain ⟨dev', cuts, -, -, -, load⟩ := configLoad_interrupted (fun _ => 0) (List.replicate 33 0)
    collidingConfig (List.replicate 33 0) (List.replicate 33 0) 0 blankEeprom (by decide +kernel)
    (by decide +kernel) (by decide +kernel) blankEeprom_holds
  obtain ⟨loaded, returns, ready, -⟩ := load 0 blankEeprom.cells rfl 0
  exact ⟨loaded, returns, (ready rfl).2 (Nat.zero_le _) rfl⟩

/-- When the save of the configuration over zeros is cut off after its first page, the load takes
the mixture: it is neither the old configuration (which the defaults are here, too) nor the new
one. -/
theorem mixture_loaded :
    ∃ dev' cut loaded,
      Returns (fun fuel => configSave (eepromBus fun _ => 0) fuel collidingConfig blankEeprom)
        dev' ∧
      dev'.history[0]? = some cut ∧
      Returns (fun fuel => configLoad (eepromBus fun _ => 0) (List.replicate 33 0) 0 fuel
        (List.replicate 33 0) ⟨cut, 0, []⟩) loaded ∧
      loaded.config ≠ List.replicate 33 0 ∧ loaded.config ≠ collidingConfig := by
  obtain ⟨dev', saved, -, history⟩ := configSave_returns (fun _ => 0) blankEeprom
    (show collidingConfig.length + 1 ≤ eepromSize by decide +kernel)
  have cut : Holds (Cells.write blankEeprom.cells 0 (collidingConfig.take (pageSize * 1)))
      (mixture (List.replicate 33 0) collidingConfig 1) (crc8Maxim (List.replicate 33 0)) :=
    blankEeprom_holds.pages (by decide +kernel) 1
  have loads : Returns (fun fuel => configLoad (eepromBus fun _ => 0) (List.replicate 33 0) 0 fuel
      (List.replicate 33 0) ⟨_, 0, []⟩) _ :=
    configLoad_ready (fun _ => 0) (List.replicate 33 0) 0 rfl cut (by decide +kernel)
      (by decide +kernel)
  rw [if_pos (by decide +kernel)] at loads
  refine ⟨dev', _, _, saved, ?_, loads, ?_, ?_⟩
  · rw [history]
    rfl
  · decide +kernel
  · decide +kernel

end TheFirmware.Config
