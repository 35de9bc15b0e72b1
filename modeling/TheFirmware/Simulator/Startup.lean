import TheFirmware.Runtime
import TheFirmware.Simulator.ElfFile
import TheFirmware.Simulator.LoadStore

/-!
# From the file to `firmware_main`

The simulator loads the file of a firmware and resets the MCU, and the firmware starts with
`do_irq_reset`: it walks the section table that the linker script has put behind the vectors,
copies the sections with data from flash to RAM, and clears the others. The sections are initialised
in whole words.

What is in memory when `firmware_main` is called follows from the file (`startup_memory`), but for
the stack that `do_irq_reset` runs on. The model has no stack: what the functions push there may be
anything, and the sections are apart from it.
-/

namespace TheFirmware.Startup

open Simulator LittleEndian

/-! ## The code -/

/-- `*p` -/
def readWord (mcu : Mcu) (p : UInt32) : Except Fault UInt32 :=
  if p.toNat % 4 = 0 then
    match mcuFetch32 mcu p with
    | some word => .ok word
    | none => .error .outOfBounds
  else .error .outOfBounds

/-- `*p = word` -/
def writeWord (mcu : Mcu) (p word : UInt32) : Except Fault Mcu :=
  if p.toNat % 4 = 0 then
    match mcuWrite32 mcu p word with
    | .ok true mcu => .ok mcu
    | _ => .error .outOfBounds
  else .error .outOfBounds

/-- The loop of `data_init`. -/
def dataInitLoop (len : UInt32) : Nat → UInt32 → UInt32 → UInt32 → Mcu → Except Fault Mcu
  | 0, _, _, _, _ => .error .outOfFuel
  | fuel + 1, loop, pulSrc, pulDest, mcu =>
    if loop < len then do
      let word ← readWord mcu pulSrc
      let mcu ← writeWord mcu pulDest word
      dataInitLoop len fuel (loop + 4) (pulSrc + 4) (pulDest + 4) mcu
    else .ok mcu

/-- `data_init` -/
def dataInit (fuel : Nat) (romstart start len : UInt32) (mcu : Mcu) : Except Fault Mcu :=
  dataInitLoop len fuel 0 romstart start mcu

/-- The loop of `bss_init`. -/
def bssInitLoop (len : UInt32) : Nat → UInt32 → UInt32 → Mcu → Except Fault Mcu
  | 0, _, _, _ => .error .outOfFuel
  | fuel + 1, loop, pulDest, mcu =>
    if loop < len then do
      let mcu ← writeWord mcu pulDest 0
      bssInitLoop len fuel (loop + 4) (pulDest + 4) mcu
    else .ok mcu

/-- `bss_init` -/
def bssInit (fuel : Nat) (start len : UInt32) (mcu : Mcu) : Except Fault Mcu :=
  bssInitLoop len fuel 0 start mcu

/-- The symbols of the linker script. -/
structure Symbols : Type where
  dataSectionTable : UInt32
  dataSectionTableEnd : UInt32
  bssSectionTableEnd : UInt32

/-- The first loop of `do_irq_reset`. -/
def copySections (tableEnd : UInt32) : Nat → UInt32 → Mcu → Except Fault (UInt32 × Mcu)
  | 0, _, _ => .error .outOfFuel
  | fuel + 1, sectionTableAddr, mcu =>
    if sectionTableAddr < tableEnd then do
      let loadAddr ← readWord mcu sectionTableAddr
      let exeAddr ← readWord mcu (sectionTableAddr + 4)
      let sectionLen ← readWord mcu (sectionTableAddr + 8)
      let mcu ← dataInit fuel loadAddr exeAddr sectionLen mcu
      copySections tableEnd fuel (sectionTableAddr + 12) mcu
    else .ok (sectionTableAddr, mcu)

/-- The second loop of `do_irq_reset`. -/
def clearSections (tableEnd : UInt32) : Nat → UInt32 → Mcu → Except Fault Mcu
  | 0, _, _ => .error .outOfFuel
  | fuel + 1, sectionTableAddr, mcu =>
    if sectionTableAddr < tableEnd then do
      let exeAddr ← readWord mcu sectionTableAddr
      let sectionLen ← readWord mcu (sectionTableAddr + 4)
      let mcu ← bssInit fuel exeAddr sectionLen mcu
      clearSections tableEnd fuel (sectionTableAddr + 8) mcu
    else .ok mcu

/-- `do_irq_reset`, up to the call of `firmware_main` -/
def doIrqReset (symbols : Symbols) (fuel : Nat) (mcu : Mcu) : Except Fault Mcu := do
  let (sectionTableAddr, mcu) ←
    copySections symbols.dataSectionTableEnd fuel symbols.dataSectionTable mcu
  clearSections symbols.bssSectionTableEnd fuel sectionTableAddr mcu

/-! ## What it is for -/

/-- `LOADADDR`, `ADDR` and `SIZEOF` of a section with data -/
structure DataSection : Type where
  loadAddr : UInt32
  exeAddr : UInt32
  sectionLen : UInt32

/-- `ADDR` and `SIZEOF` of a section without data -/
structure BssSection : Type where
  exeAddr : UInt32
  sectionLen : UInt32

/-- The bytes of a length in whole words. -/
def wordsSize (len : UInt32) : Nat := 4 * ((len.toNat + 3) / 4)

/-- The address is one of the `n` from `start` on. -/
def Inside (start : UInt32) (n : Nat) (a : UInt32) : Prop :=
  start.toNat ≤ a.toNat ∧ a.toNat < start.toNat + n

instance (start : UInt32) (n : Nat) (a : UInt32) : Decidable (Inside start n a) :=
  inferInstanceAs (Decidable (_ ∧ _))

/-- What is at every address, as far as it can be read. -/
abbrev Contents : Type := UInt32 → Option UInt8

/-- A section has what is at its load address in `source`. -/
def DataSection.copy (source contents : Contents) (s : DataSection) : Contents := fun a =>
  if Inside s.exeAddr (wordsSize s.sectionLen) a then source (s.loadAddr + (a - s.exeAddr))
  else contents a

/-- A section is clear. -/
def BssSection.clear (contents : Contents) (s : BssSection) : Contents := fun a =>
  if Inside s.exeAddr (wordsSize s.sectionLen) a then some 0 else contents a

/-- The sections have their data or are clear, one after the other. -/
def initialised (data : List DataSection) (bss : List BssSection) (contents : Contents) :
    Contents :=
  bss.foldl BssSection.clear (data.foldl (DataSection.copy contents) contents)

/-- The image in a file: what its segments put at every address. -/
def imageOf (content : List UInt8) : Contents := fun a =>
  (sourceOf (segmentsOf content) a).bind fun place => content[place]?

/-- An image has replaced what was there. -/
def loaded (image contents : Contents) : Contents := fun a => (image a).or (contents a)

/-- The words of the section table. -/
def tableWords (data : List DataSection) (bss : List BssSection) : List UInt32 :=
  data.flatMap (fun s => [s.loadAddr, s.exeAddr, s.sectionLen]) ++
    bss.flatMap fun s => [s.exeAddr, s.sectionLen]

/-- Words are in an image, from an address on. -/
def WordsAt (image : Contents) (p : UInt32) (words : List UInt32) : Prop :=
  ∀ i word, words[i]? = some word →
    ∀ j < 4, image (p + .ofNat (4 * i) + .ofNat j) = some (byte32 word j)

/-- `n` bytes in flash, from a word on -/
structure InFlash (start : UInt32) (n : Nat) : Prop where
  aligned : start.toNat % 4 = 0
  high : start.toNat + n ≤ 32 * 1024

/-- `n` bytes in RAM, from a word on -/
structure InRam (length : UInt32) (start : UInt32) (n : Nat) : Prop where
  aligned : start.toNat % 4 = 0
  low : 0x10000000 ≤ start.toNat
  high : start.toNat + n ≤ 0x10000000 + length.toNat

/-- The address is one of the `used` on the stack that begins below `top`. -/
def OnStack (top : UInt32) (used : Nat) (a : UInt32) : Prop :=
  top.toNat ≤ a.toNat + used ∧ a.toNat < top.toNat

/-- A stack with room for `used` bytes in RAM, below a word -/
structure StackInRam (length top : UInt32) (used : Nat) : Prop where
  aligned : top.toNat % 4 = 0
  low : 0x10000000 + used ≤ top.toNat
  high : top.toNat ≤ 0x10000000 + length.toNat

/-- The image is linked like the linker script says: the vectors are at 0, where the address of
`do_irq_reset` is odd, the section table is between the symbols, the sections are in RAM, apart from
the `used` bytes of the stack, and those with data are in flash before. -/
structure Linked (image : Contents) (length : UInt32) (symbols : Symbols) (data : List DataSection)
    (bss : List BssSection) (top : UInt32) (used : Nat) : Prop where
  vectors : ∃ entry, WordsAt image 0 [top, entry] ∧ entry &&& 1 ≠ 0
  stack : StackInRam length top used
  table : WordsAt image symbols.dataSectionTable (tableWords data bss)
  inFlash : InFlash symbols.dataSectionTable (12 * data.length + 8 * bss.length)
  dataEnd : symbols.dataSectionTableEnd = symbols.dataSectionTable + .ofNat (12 * data.length)
  bssEnd : symbols.bssSectionTableEnd = symbols.dataSectionTableEnd + .ofNat (8 * bss.length)
  loads : ∀ s ∈ data, InFlash s.loadAddr (wordsSize s.sectionLen)
  datas : ∀ s ∈ data, InRam length s.exeAddr (wordsSize s.sectionLen)
  clears : ∀ s ∈ bss, InRam length s.exeAddr (wordsSize s.sectionLen)
  datasApart : ∀ s ∈ data, ∀ a, Inside s.exeAddr (wordsSize s.sectionLen) a → ¬ OnStack top used a
  clearsApart : ∀ s ∈ bss, ∀ a, Inside s.exeAddr (wordsSize s.sectionLen) a → ¬ OnStack top used a
  /-- The RAM ends before the UART. -/
  room : length.toNat ≤ 0xD0000000

/-! ## Words -/

section Words

variable {mcu : Mcu} {p a start : UInt32} {n : Nat}

/-- The bytes from a place on are those of `byte`. -/
def fill (m : Bytes) (place n : Nat) (byte : Nat → UInt8) : Bytes := fun x =>
  if place ≤ x ∧ x < place + n then byte (x - place) else m x

theorem fill_zero (m : Bytes) (place : Nat) (byte : Nat → UInt8) : fill m place 0 byte = m := by
  funext x
  exact if_neg (by omega)

theorem fill_fill (m : Bytes) (place k n : Nat) (byte : Nat → UInt8) :
    fill (fill m place k byte) (place + k) n (fun i => byte (k + i)) =
      fill m place (k + n) byte := by
  funext x
  unfold fill
  by_cases first : x < place + k
  · rw [if_neg (by omega)]
    by_cases low : place ≤ x
    · rw [if_pos ⟨low, first⟩, if_pos ⟨low, by omega⟩]
    · rw [if_neg (by omega), if_neg (by omega)]
  · by_cases second : x < place + (k + n)
    · have rest : k + (x - (place + k)) = x - place := by omega
      rw [if_pos (by omega), if_pos (by omega)]
      exact congrArg byte rest
    · rw [if_neg (by omega), if_neg (by omega), if_neg (by omega)]

theorem fill_congr {m : Bytes} {place n : Nat} {byte byte' : Nat → UInt8}
    (same : ∀ i < n, byte i = byte' i) : fill m place n byte = fill m place n byte' := by
  funext x
  unfold fill
  split
  · exact same _ (by omega)
  · rfl

theorem store32_eq_fill (m : Bytes) (place : Nat) (word : UInt32) :
    store32 m place word = fill m place 4 (byte32 word) := by
  funext x
  unfold fill
  split
  · rename_i inside
    obtain ⟨i, small, rfl⟩ : ∃ i < 4, x = place + i := ⟨x - place, by omega, by omega⟩
    have stored := byte32_load32 (store32 m place word) place small
    rw [load32_store32] at stored
    rw [Nat.add_sub_cancel_left, stored]
  · exact store32_outside (by omega)

theorem memDevAt_flash (mcu : Mcu) (inside : a.toNat < 32 * 1024) :
    mcu.memDevAt a = some (.flash, a) := by
  have before : ∀ base : UInt32, 32 * 1024 ≤ base.toNat → ¬ base ≤ a := by
    intro base behind le
    have le := UInt32.le_iff_toNat_le.mp le
    omega
  have first : (0x0 : UInt32) ≤ a := UInt32.le_iff_toNat_le.mpr (Nat.zero_le _)
  have last : a < 0x0 + 32 * 1024 := UInt32.lt_iff_toNat_lt.mpr inside
  have offset : a - 0x0 = a := by grind
  simp only [Mcu.memDevAt, Mcu.memDevs, List.find?_cons, before 0xEE000000 (by decide),
    before 0xE0000000 (by decide), before 0x10000000 (by decide), first, last, and_true, false_and,
    decide_true, decide_false, Option.map_some, offset]

theorem memDevAt_ram (room : mcu.ramLength.toNat ≤ 0xD0000000) (low : 0x10000000 ≤ a.toNat)
    (high : a.toNat < 0x10000000 + mcu.ramLength.toNat) :
    mcu.memDevAt a = some (.ram, a - 0x10000000) := by
  have ram : (0x10000000 : UInt32).toNat = 0x10000000 := rfl
  have before : ∀ base : UInt32, 0xE0000000 ≤ base.toNat → ¬ base ≤ a := by
    intro base behind le
    have le := UInt32.le_iff_toNat_le.mp le
    omega
  have first : (0x10000000 : UInt32) ≤ a := UInt32.le_iff_toNat_le.mpr low
  have last : a < 0x10000000 + mcu.ramLength := by
    rw [UInt32.lt_iff_toNat_lt, UInt32.toNat_add, ram]
    omega
  simp only [Mcu.memDevAt, Mcu.memDevs, List.find?_cons, before 0xEE000000 (by decide),
    before 0xE0000000 (by decide), first, last, and_true, false_and, decide_true, decide_false,
    Option.map_some]

theorem toNat_add_offset {k : Nat} (fits : p.toNat + k < 2 ^ 32) :
    (p + .ofNat k).toNat = p.toNat + k := by
  rw [UInt32.toNat_add, UInt32.toNat_ofNat']
  omega

theorem toNat_add_four (fits : p.toNat + 4 < 2 ^ 32) : (p + 4).toNat = p.toNat + 4 :=
  toNat_add_offset (k := 4) fits

theorem InFlash.part {m : Nat} (inside : InFlash start n) (k : Nat) (words : k % 4 = 0)
    (le : k + m ≤ n) : InFlash (start + .ofNat k) m := by
  have aligned := inside.aligned
  have high := inside.high
  have place : (start + .ofNat k).toNat = start.toNat + k := toNat_add_offset (by omega)
  exact ⟨by omega, by omega⟩

theorem InRam.part {length : UInt32} {m : Nat} (inside : InRam length start n)
    (room : length.toNat ≤ 0xD0000000) (k : Nat) (words : k % 4 = 0) (le : k + m ≤ n) :
    InRam length (start + .ofNat k) m := by
  have aligned := inside.aligned
  have low := inside.low
  have high := inside.high
  have place : (start + .ofNat k).toNat = start.toNat + k := toNat_add_offset (by omega)
  exact ⟨by omega, by omega, by omega⟩

theorem fetch32_flash (mcu : Mcu) (inside : InFlash p 4) :
    mcuFetch32 mcu p = some (load32 mcu.flash p.toNat) := by
  have aligned := inside.aligned
  have high := inside.high
  have whole : 4 * (p.toNat / 4) = p.toNat := by omega
  rw [mcuFetch32_bytes (memDevAt_flash mcu (by omega)) rfl, whole]

/-- A word of the flash is read. -/
theorem readWord_flash (inside : InFlash p 4) :
    readWord mcu p = .ok (load32 mcu.flash p.toNat) := by
  unfold readWord
  rw [if_pos inside.aligned, fetch32_flash mcu inside]

/-- The MCU with other bytes in its RAM. -/
def withRam (mcu : Mcu) (m : Bytes) : Mcu := { mcu with ram := m }

@[simp] theorem withRam_ram (mcu : Mcu) (m : Bytes) : (withRam mcu m).ram = m := rfl

@[simp] theorem withRam_ramLength (mcu : Mcu) (m : Bytes) :
    (withRam mcu m).ramLength = mcu.ramLength := rfl

@[simp] theorem withRam_flash (mcu : Mcu) (m : Bytes) : (withRam mcu m).flash = mcu.flash := rfl

@[simp] theorem withRam_withRam (mcu : Mcu) (m m' : Bytes) :
    withRam (withRam mcu m) m' = withRam mcu m' := rfl

theorem withRam_self (mcu : Mcu) : withRam mcu mcu.ram = mcu := rfl

/-- The place of an address in the RAM. -/
def ramPlace (a : UInt32) : Nat := a.toNat - 0x10000000

/-- A word of the RAM is written. -/
theorem writeWord_ram (room : mcu.ramLength.toNat ≤ 0xD0000000) (inside : InRam mcu.ramLength p 4)
    (word : UInt32) :
    writeWord mcu p word = .ok (withRam mcu (fill mcu.ram (ramPlace p) 4 (byte32 word))) := by
  have aligned := inside.aligned
  have low := inside.low
  have high := inside.high
  have base : (0x10000000 : UInt32) ≤ p := UInt32.le_iff_toNat_le.mpr low
  have start : (0x10000000 : UInt32).toNat = 0x10000000 := rfl
  have place : 4 * ((p - 0x10000000).toNat / 4) = ramPlace p := by
    unfold ramPlace
    rw [UInt32.toNat_sub_of_le _ _ base, start]
    omega
  unfold writeWord
  rw [if_pos aligned, mcuWrite32_ram (memDevAt_ram room low (by omega)), place, store32_eq_fill]
  rfl

end Words

/-! ## Sections -/

/-- What is left to `data_init` or `bss_init`: `n` words, which go to RAM from `dest` on. -/
structure Left (length len loop dest : UInt32) (n : Nat) : Prop where
  small : len.toNat + 3 < 2 ^ 32
  words : (len.toNat - loop.toNat + 3) / 4 = n
  target : InRam length dest (4 * n)

section Left

variable {mcu : Mcu} {length len loop dest : UInt32} {n : Nat}

theorem Left.done (left : Left length len loop dest 0) : ¬ loop < len := by
  have none := left.words
  rw [UInt32.lt_iff_toNat_lt]
  omega

theorem Left.more (left : Left length len loop dest (n + 1)) : loop < len := by
  have some := left.words
  rw [UInt32.lt_iff_toNat_lt]
  omega

theorem Left.cell (left : Left length len loop dest (n + 1)) : InRam length dest 4 := by
  have high := left.target.high
  exact ⟨left.target.aligned, left.target.low, by omega⟩

theorem Left.next (left : Left length len loop dest (n + 1)) (room : length.toNat ≤ 0xD0000000) :
    Left length len (loop + 4) (dest + 4) n := by
  have small := left.small
  have words := left.words
  have more := UInt32.lt_iff_toNat_lt.mp left.more
  have place : (loop + 4).toNat = loop.toNat + 4 := toNat_add_four (by omega)
  exact ⟨small, by omega, left.target.part room 4 rfl (by omega)⟩

theorem Left.fill (left : Left length len loop dest (n + 1)) (room : length.toNat ≤ 0xD0000000)
    (m : Bytes) (byte : Nat → UInt8) : fill m (ramPlace dest) (4 * (n + 1)) byte =
      fill (fill m (ramPlace dest) 4 byte) (ramPlace (dest + 4)) (4 * n) fun i => byte (4 + i) := by
  have low := left.target.low
  have high := left.target.high
  have place : (dest + 4).toNat = dest.toNat + 4 := toNat_add_four (by omega)
  have next : ramPlace (dest + 4) = ramPlace dest + 4 := by
    unfold ramPlace
    omega
  rw [Nat.mul_succ, Nat.add_comm (4 * n), ← fill_fill, next]

end Left

section Sections

variable {mcu : Mcu} {len loop src dest start : UInt32} {n : Nat}

/-- The words that are left to `data_init` are copied. -/
theorem dataInitLoop_returns (room : mcu.ramLength.toNat ≤ 0xD0000000)
    (left : Left mcu.ramLength len loop dest n) (source : InFlash src (4 * n)) :
    Returns (fun fuel => dataInitLoop len fuel loop src dest mcu) (withRam mcu
      (fill mcu.ram (ramPlace dest) (4 * n) fun i => mcu.flash (src.toNat + i))) := by
  induction n generalizing loop src dest mcu with
  | zero =>
    apply Returns.succ
    simp only [dataInitLoop, if_neg left.done, Nat.mul_zero, fill_zero]
    exact Returns.ok mcu
  | succ n ih =>
    have high := source.high
    have word : InFlash src 4 := ⟨source.aligned, by omega⟩
    have source : InFlash (src + 4) (4 * n) := source.part 4 rfl (by omega)
    have shifted : (fun i => mcu.flash ((src + 4).toNat + i)) =
        fun i => mcu.flash (src.toNat + (4 + i)) := by
      have place : (src + 4).toNat = src.toNat + 4 := toNat_add_four (by omega)
      funext i
      rw [place, Nat.add_assoc]
    have bytes : ∀ i < 4, byte32 (load32 mcu.flash src.toNat) i = mcu.flash (src.toNat + i) :=
      fun i small => byte32_load32 _ _ small
    have step : ∀ fuel, dataInitLoop len (fuel + 1) loop src dest mcu =
        dataInitLoop len fuel (loop + 4) (src + 4) (dest + 4) (withRam mcu
          (fill mcu.ram (ramPlace dest) 4 fun i => mcu.flash (src.toNat + i))) := by
      intro fuel
      rw [dataInitLoop, if_pos left.more, readWord_flash word, Except.ok_bind,
        writeWord_ram room left.cell, Except.ok_bind, fill_congr bytes]
    apply Returns.succ
    rw [funext step, left.fill room]
    generalize fill mcu.ram (ramPlace dest) 4 _ = m
    have left := left.next room
    rw [← withRam_ramLength mcu m] at room left
    have rest := ih room left source
    rw [withRam_ram, withRam_flash, withRam_withRam, shifted] at rest
    exact rest

/-- The words that are left to `bss_init` are cleared. -/
theorem bssInitLoop_returns (room : mcu.ramLength.toNat ≤ 0xD0000000)
    (left : Left mcu.ramLength len loop dest n) :
    Returns (fun fuel => bssInitLoop len fuel loop dest mcu)
      (withRam mcu (fill mcu.ram (ramPlace dest) (4 * n) fun _ => 0)) := by
  induction n generalizing loop dest mcu with
  | zero =>
    apply Returns.succ
    simp only [bssInitLoop, if_neg left.done, Nat.mul_zero, fill_zero]
    exact Returns.ok mcu
  | succ n ih =>
    have zero : byte32 0 = fun _ => 0 := by
      funext i
      unfold byte32
      rw [UInt32.zero_shiftRight]
      rfl
    have step : ∀ fuel, bssInitLoop len (fuel + 1) loop dest mcu =
        bssInitLoop len fuel (loop + 4) (dest + 4)
          (withRam mcu (fill mcu.ram (ramPlace dest) 4 fun _ => 0)) := by
      intro fuel
      rw [bssInitLoop, if_pos left.more, writeWord_ram room left.cell, Except.ok_bind, zero]
    apply Returns.succ
    rw [funext step, left.fill room]
    generalize fill mcu.ram (ramPlace dest) 4 _ = m
    have left := left.next room
    rw [← withRam_ramLength mcu m] at room left
    have rest := ih room left
    rw [withRam_ram, withRam_withRam] at rest
    exact rest

/-- All of a section is left. -/
theorem InRam.left {length : UInt32} (target : InRam length start (wordsSize len))
    (room : length.toNat ≤ 0xD0000000) : Left length len 0 start ((len.toNat + 3) / 4) := by
  have low := target.low
  have high := target.high
  unfold wordsSize at high
  refine ⟨by omega, ?_, target⟩
  rw [UInt32.toNat_zero, Nat.sub_zero]

end Sections

/-! ## The section table -/

/-- The RAM after a section was copied. -/
def DataSection.ram (flash m : Bytes) (s : DataSection) : Bytes :=
  fill m (ramPlace s.exeAddr) (wordsSize s.sectionLen) fun i => flash (s.loadAddr.toNat + i)

/-- The RAM after a section was cleared. -/
def BssSection.ram (m : Bytes) (s : BssSection) : Bytes :=
  fill m (ramPlace s.exeAddr) (wordsSize s.sectionLen) fun _ => 0

/-- Words are in an array of bytes, from a place on. -/
def WordsIn (m : Bytes) (place : Nat) (words : List UInt32) : Prop :=
  ∀ i word, words[i]? = some word → load32 m (place + 4 * i) = word

theorem WordsIn.head {m : Bytes} {place : Nat} {word : UInt32} {words : List UInt32}
    (are : WordsIn m place (word :: words)) : load32 m place = word := are 0 word rfl

theorem WordsIn.drop {m : Bytes} {place : Nat} {words : List UInt32} (are : WordsIn m place words)
    (k : Nat) : WordsIn m (place + 4 * k) (words.drop k) := by
  intro i word at_
  have sum : place + 4 * k + 4 * i = place + 4 * (k + i) := by omega
  rw [sum]
  rw [List.getElem?_drop] at at_
  exact are (k + i) word at_

section Table

variable {mcu : Mcu} {p tableEnd : UInt32} {n : Nat} {data : List DataSection}
  {bss : List BssSection} {words : List UInt32}

/-- A word of the table is read. -/
theorem readWord_table {word : UInt32} (inside : InFlash p n)
    (are : WordsIn mcu.flash p.toNat words) (k : Nat) (le : 4 * k + 4 ≤ n) (at_ : words[k]? = some word) :
    readWord mcu (p + .ofNat (4 * k)) = .ok word := by
  have part : InFlash (p + .ofNat (4 * k)) 4 := inside.part (4 * k) (by omega) le
  have high := inside.high
  have place : (p + .ofNat (4 * k)).toNat = p.toNat + 4 * k := toNat_add_offset (by omega)
  rw [readWord_flash part, place, are k word at_]

/-- The sections of the first table are copied. -/
theorem copySections_returns (room : mcu.ramLength.toNat ≤ 0xD0000000)
    (are : WordsIn mcu.flash p.toNat (tableWords data bss))
    (inside : InFlash p (12 * data.length))
    (ends : tableEnd = p + .ofNat (12 * data.length))
    (loads : ∀ s ∈ data, InFlash s.loadAddr (wordsSize s.sectionLen))
    (datas : ∀ s ∈ data, InRam mcu.ramLength s.exeAddr (wordsSize s.sectionLen)) :
    Returns (fun fuel => copySections tableEnd fuel p mcu)
      (tableEnd, withRam mcu (data.foldl (DataSection.ram mcu.flash) mcu.ram)) := by
  have high := inside.high
  have place : tableEnd.toNat = p.toNat + 12 * data.length := by
    rw [ends, toNat_add_offset (by omega)]
  induction data generalizing p mcu with
  | nil =>
    obtain rfl : tableEnd = p := UInt32.toNat_inj.mp place
    have done : ¬ tableEnd < tableEnd := UInt32.lt_irrefl _
    apply Returns.succ
    simp only [copySections, if_neg done]
    exact Returns.ok _
  | cons s data ih =>
    rw [List.length_cons] at inside ends place high
    have more : p < tableEnd := by
      rw [UInt32.lt_iff_toNat_lt]
      omega
    have loadAddr : readWord mcu p = .ok s.loadAddr := by
      have read := readWord_table inside are 0 (by omega) rfl
      rwa [show p + .ofNat (4 * 0) = p by grind] at read
    have exeAddr : readWord mcu (p + 4) = .ok s.exeAddr :=
      readWord_table inside are 1 (by omega) rfl
    have sectionLen : readWord mcu (p + 8) = .ok s.sectionLen :=
      readWord_table inside are 2 (by omega) rfl
    obtain ⟨load, loads⟩ := List.forall_mem_cons.mp loads
    obtain ⟨exe, datas⟩ := List.forall_mem_cons.mp datas
    have first : Returns (fun fuel => dataInit fuel s.loadAddr s.exeAddr s.sectionLen mcu)
        (withRam mcu (s.ram mcu.flash mcu.ram)) := dataInitLoop_returns room (exe.left room) load
    have next : (p + 12).toNat = p.toNat + 12 := toNat_add_offset (k := 12) (by omega)
    have step : ∀ fuel, copySections tableEnd (fuel + 1) p mcu =
        dataInit fuel s.loadAddr s.exeAddr s.sectionLen mcu >>=
          copySections tableEnd fuel (p + 12) := by
      intro fuel
      rw [copySections, if_pos more, loadAddr, Except.ok_bind, exeAddr, Except.ok_bind, sectionLen,
        Except.ok_bind]
    apply Returns.succ
    rw [funext step]
    refine first.bind ?_
    rw [List.foldl_cons]
    generalize DataSection.ram mcu.flash mcu.ram s = m
    have others : WordsIn (withRam mcu m).flash (p + 12).toNat (tableWords data bss) := by
      rw [withRam_flash, next]
      exact are.drop 3
    have behind : InFlash (p + 12) (12 * data.length) := inside.part 12 rfl (by omega)
    have last : tableEnd = p + 12 + .ofNat (12 * data.length) := by
      rw [← UInt32.toNat_inj, toNat_add_offset (by omega)]
      omega
    rw [← withRam_ramLength mcu m] at room datas
    have rest := ih room others behind last loads datas (by omega) (by omega)
    rw [withRam_ram, withRam_flash, withRam_withRam] at rest
    exact rest

/-- The sections of the second table are cleared. -/
theorem clearSections_returns (room : mcu.ramLength.toNat ≤ 0xD0000000)
    (are : WordsIn mcu.flash p.toNat (tableWords [] bss))
    (inside : InFlash p (8 * bss.length)) (ends : tableEnd = p + .ofNat (8 * bss.length))
    (clears : ∀ s ∈ bss, InRam mcu.ramLength s.exeAddr (wordsSize s.sectionLen)) :
    Returns (fun fuel => clearSections tableEnd fuel p mcu)
      (withRam mcu (bss.foldl BssSection.ram mcu.ram)) := by
  have high := inside.high
  have place : tableEnd.toNat = p.toNat + 8 * bss.length := by
    rw [ends, toNat_add_offset (by omega)]
  induction bss generalizing p mcu with
  | nil =>
    obtain rfl : tableEnd = p := UInt32.toNat_inj.mp place
    have done : ¬ tableEnd < tableEnd := UInt32.lt_irrefl _
    apply Returns.succ
    simp only [clearSections, if_neg done]
    exact Returns.ok _
  | cons s bss ih =>
    rw [List.length_cons] at inside ends place high
    have more : p < tableEnd := by
      rw [UInt32.lt_iff_toNat_lt]
      omega
    have exeAddr : readWord mcu p = .ok s.exeAddr := by
      have read := readWord_table inside are 0 (by omega) rfl
      rwa [show p + .ofNat (4 * 0) = p by grind] at read
    have sectionLen : readWord mcu (p + 4) = .ok s.sectionLen :=
      readWord_table inside are 1 (by omega) rfl
    obtain ⟨exe, clears⟩ := List.forall_mem_cons.mp clears
    have first : Returns (fun fuel => bssInit fuel s.exeAddr s.sectionLen mcu)
        (withRam mcu (s.ram mcu.ram)) := bssInitLoop_returns room (exe.left room)
    have next : (p + 8).toNat = p.toNat + 8 := toNat_add_offset (k := 8) (by omega)
    have step : ∀ fuel, clearSections tableEnd (fuel + 1) p mcu =
        bssInit fuel s.exeAddr s.sectionLen mcu >>= clearSections tableEnd fuel (p + 8) := by
      intro fuel
      rw [clearSections, if_pos more, exeAddr, Except.ok_bind, sectionLen, Except.ok_bind]
    apply Returns.succ
    rw [funext step]
    refine first.bind ?_
    rw [List.foldl_cons]
    generalize BssSection.ram mcu.ram s = m
    have others : WordsIn (withRam mcu m).flash (p + 8).toNat (tableWords [] bss) := by
      rw [withRam_flash, next]
      exact are.drop 2
    have behind : InFlash (p + 8) (8 * bss.length) := inside.part 8 rfl (by omega)
    have last : tableEnd = p + 8 + .ofNat (8 * bss.length) := by
      rw [← UInt32.toNat_inj, toNat_add_offset (by omega)]
      omega
    rw [← withRam_ramLength mcu m] at room clears
    have rest := ih room others behind last clears (by omega) (by omega)
    rw [withRam_ram, withRam_withRam] at rest
    exact rest

end Table

/-! ## What is in memory -/

section Memory

variable {mcu mcu' : Mcu} {a p start : UInt32} {n : Nat} {m : Bytes}

theorem fetch8_flash (mcu : Mcu) (inside : a.toNat < 32 * 1024) :
    mcuUtilFetch8 mcu a = some (mcu.flash a.toNat) :=
  mcuUtilFetch8_bytes (memDevAt_flash mcu inside) rfl

/-- Where the RAM is. -/
theorem inside_of_memDevAt {offset : UInt32} (room : mcu.ramLength.toNat ≤ 0xD0000000)
    (at_ : mcu.memDevAt a = some (.ram, offset)) : Inside 0x10000000 mcu.ramLength.toNat a := by
  have base : (0x10000000 : UInt32).toNat = 0x10000000 := rfl
  obtain ⟨mem, attached, eq, _, le, lt⟩ := memDevAt_offset at_
  simp only [Mcu.memDevs, List.mem_cons, List.not_mem_nil, or_false] at attached
  rcases attached with rfl | rfl | rfl | rfl
  · cases eq
  · cases eq
  · dsimp only at lt
    rw [UInt32.lt_iff_toNat_lt, UInt32.toNat_add, base] at lt
    refine ⟨UInt32.le_iff_toNat_le.mp le, ?_⟩
    rw [base]
    omega
  · cases eq

theorem fetch8_ram (room : mcu.ramLength.toNat ≤ 0xD0000000) (m : Bytes)
    (inside : Inside 0x10000000 mcu.ramLength.toNat a) :
    mcuUtilFetch8 (withRam mcu m) a = some (m (ramPlace a)) := by
  have at_ : (withRam mcu m).memDevAt a = some (.ram, a - 0x10000000) :=
    memDevAt_ram room inside.1 inside.2
  have place : (a - 0x10000000).toNat = ramPlace a :=
    UInt32.toNat_sub_of_le _ _ (UInt32.le_iff_toNat_le.mpr inside.1)
  rw [mcuUtilFetch8_bytes at_ rfl, place, withRam_ram]

theorem fetch8_elsewhere (room : mcu.ramLength.toNat ≤ 0xD0000000) (m : Bytes)
    (outside : ¬ Inside 0x10000000 mcu.ramLength.toNat a) :
    mcuUtilFetch8 (withRam mcu m) a = mcuUtilFetch8 mcu a := by
  let written : UInt32 → Option UInt8 := fun b =>
    if Inside 0x10000000 mcu.ramLength.toNat b then some (m (ramPlace b)) else none
  have here : ∀ b offset, mcu.memDevAt b = some (.ram, offset) →
      m offset.toNat = (written b).getD (mcu.ram offset.toNat) := by
    intro b offset at_
    have inside := inside_of_memDevAt room at_
    have found := (memDevAt_ram room inside.1 inside.2).symm.trans at_
    cases found
    have place : (b - 0x10000000).toNat = ramPlace b :=
      UInt32.toNat_sub_of_le _ _ (UInt32.le_iff_toNat_le.mpr inside.1)
    simp only [written, if_pos inside, place, Option.getD_some]
  have elsewhere : ∀ b other offset, mcu.memDevAt b = some (other, offset) → other ≠ .ram →
      written b = none := by
    intro b other offset at_ ne
    refine if_neg fun inside => ne ?_
    rw [memDevAt_ram room inside.1 inside.2] at at_
    cases at_
    rfl
  have reads : ReadsChange mcu (withRam mcu m) written :=
    readsChange_setBytes (rfl : Device.ram.bytes mcu = some mcu.ram) here elsewhere
  have unwritten : written a = none := if_neg outside
  rw [reads.fetch8 a, unwritten]
  exact Option.map_id'

/-- What was filled is seen, and else what was there. -/
theorem fetch8_fill (room : mcu.ramLength.toNat ≤ 0xD0000000) (target : InRam mcu.ramLength start n)
    (m : Bytes) (byte : Nat → UInt8) (a : UInt32) :
    mcuUtilFetch8 (withRam mcu (fill m (ramPlace start) n byte)) a =
      if Inside start n a then some (byte (a - start).toNat)
      else mcuUtilFetch8 (withRam mcu m) a := by
  have low := target.low
  have high := target.high
  have base : (0x10000000 : UInt32).toNat = 0x10000000 := rfl
  by_cases ram : Inside 0x10000000 mcu.ramLength.toNat a
  · have lowRam := ram.1
    rw [fetch8_ram room _ ram, fetch8_ram room _ ram]
    unfold fill
    by_cases inside : Inside start n a
    · have first := inside.1
      have last := inside.2
      have offset : ramPlace a - ramPlace start = (a - start).toNat := by
        rw [UInt32.toNat_sub_of_le _ _ (UInt32.le_iff_toNat_le.mpr first)]
        unfold ramPlace
        omega
      rw [if_pos inside, if_pos (by unfold ramPlace; omega), offset]
    · rw [if_neg inside, if_neg]
      unfold Inside at inside
      unfold ramPlace
      omega
  · have outside : ¬ Inside start n a := fun inside => ram ⟨by have := inside.1; omega,
      by have := inside.2; omega⟩
    rw [if_neg outside, fetch8_elsewhere room _ ram, fetch8_elsewhere room _ ram]

/-- The sections in RAM, as they are seen. -/
theorem fetch8_copied {data : List DataSection} {source : Contents}
    (room : mcu.ramLength.toNat ≤ 0xD0000000)
    (flash : ∀ b, b.toNat < 32 * 1024 → source b = some (mcu.flash b.toNat))
    (loads : ∀ s ∈ data, InFlash s.loadAddr (wordsSize s.sectionLen))
    (datas : ∀ s ∈ data, InRam mcu.ramLength s.exeAddr (wordsSize s.sectionLen)) :
    mcuUtilFetch8 (withRam mcu (data.foldl (DataSection.ram mcu.flash) m)) =
      data.foldl (DataSection.copy source) (mcuUtilFetch8 (withRam mcu m)) := by
  induction data generalizing m with
  | nil => rfl
  | cons s data ih =>
    obtain ⟨load, loads⟩ := List.forall_mem_cons.mp loads
    obtain ⟨exe, datas⟩ := List.forall_mem_cons.mp datas
    rw [List.foldl_cons, List.foldl_cons, ih loads datas]
    congr 1
    funext b
    unfold DataSection.ram DataSection.copy
    rw [fetch8_fill room exe]
    refine ite_congr rfl (fun inside => ?_) fun _ => rfl
    have high := load.high
    have first := inside.1
    have last := inside.2
    have offset : (b - s.exeAddr).toNat = b.toNat - s.exeAddr.toNat :=
      UInt32.toNat_sub_of_le _ _ (UInt32.le_iff_toNat_le.mpr first)
    have place : (s.loadAddr + (b - s.exeAddr)).toNat =
        s.loadAddr.toNat + (b - s.exeAddr).toNat := by
      rw [UInt32.toNat_add]
      omega
    rw [flash _ (by omega), place]

theorem fetch8_cleared {bss : List BssSection} (room : mcu.ramLength.toNat ≤ 0xD0000000)
    (clears : ∀ s ∈ bss, InRam mcu.ramLength s.exeAddr (wordsSize s.sectionLen)) :
    mcuUtilFetch8 (withRam mcu (bss.foldl BssSection.ram m)) =
      bss.foldl BssSection.clear (mcuUtilFetch8 (withRam mcu m)) := by
  induction bss generalizing m with
  | nil => rfl
  | cons s bss ih =>
    obtain ⟨clear, clears⟩ := List.forall_mem_cons.mp clears
    rw [List.foldl_cons, List.foldl_cons, ih clears]
    congr 1
    funext b
    unfold BssSection.ram BssSection.clear
    exact fetch8_fill room clear _ _ b

end Memory

/-! ## From the file -/

section Length

variable {mcu : Mcu} {addr temp : UInt32} {L : UInt32}

theorem ramLength_reset (mcu : Mcu) (dev : Unittest) :
    (Proc.final (.ok true (mcuReset { mcu with unittest := dev }).2 : Result Bool)).ramLength =
      mcu.ramLength := (sameMemory_reset _).length

theorem ramLength_unittestFinished (mcu : Mcu) (temp : UInt32) :
    (Proc.final (unittestFinished mcu temp)).ramLength = mcu.ramLength := by
  unfold unittestFinished
  dsimp only
  rw [apply_ite Proc.final, apply_ite Mcu.ramLength]
  exact ite_eq_iff'.mpr ⟨fun _ => ramLength_reset mcu _, fun _ => rfl⟩

theorem ramLength_unittestDevWrite32 (mcu : Mcu) (addr temp : UInt32) :
    (Proc.final (unittestDevWrite32 mcu addr temp)).ramLength = mcu.ramLength := by
  unfold unittestDevWrite32
  dsimp only
  split_ifs
  · rfl
  · exact ramLength_reset mcu _
  · rfl
  · exact ramLength_unittestFinished _ _
  · rfl
  · rfl
  · rfl

theorem ramLength_mcuWrite16 (mcu : Mcu) (addr : UInt32) (value : UInt16) :
    (Proc.final (mcuWrite16 mcu addr value)).ramLength = mcu.ramLength := by
  unfold mcuWrite16
  split
  · rename_i dev offset _
    cases dev with
    | unittest =>
        unfold Device.write16 mcuEmuWrite16
        dsimp only
        split
        · rfl
        · exact ramLength_unittestDevWrite32 _ _ _
    | uart => rfl
    | ram => rfl
    | flash =>
        unfold Device.write16
        dsimp only
        split_ifs <;> rfl
  · rfl

/-- No call of the loader changes the length of the RAM. -/
theorem ramLength_handle (file : OpenFile) (op : ElfOp) (s : Mcu × Nat × Nat)
    (length : s.1.ramLength = L) : (Proc.final (file.handle op s)).1.ramLength = L := by
  obtain ⟨mcu, n, position⟩ := s
  cases op with
  | lseek offset =>
      unfold OpenFile.handle
      dsimp only
      split_ifs <;> exact length
  | readHeader =>
      unfold OpenFile.handle OpenFile.read
      dsimp only
      split_ifs <;> exact length
  | readProgHeader =>
      unfold OpenFile.handle OpenFile.read
      dsimp only
      split_ifs <;> exact length
  | readByte =>
      unfold OpenFile.handle OpenFile.read
      dsimp only
      split_ifs <;> exact length
  | unlock => exact length
  | lock => exact length
  | write8 addr byte =>
      have kept : (Proc.final (mcuUtilWrite8 mcu addr byte)).ramLength = L := by
        unfold mcuUtilWrite8
        split
        · exact length
        · exact (ramLength_mcuWrite16 _ _ _).trans length
      unfold OpenFile.handle
      dsimp only
      cases wrote : mcuUtilWrite8 mcu addr byte with
      | ok written mcu' =>
          rw [wrote] at kept
          exact kept
      | error stop mcu' =>
          rw [wrote] at kept
          exact kept

end Length

section Startup

variable {file : OpenFile} {mcu mcu' : Mcu} {n n' position position' : Nat} {symbols : Symbols}
  {data : List DataSection} {bss : List BssSection} {top : UInt32} {used : Nat}

/-- The file is in memory when it was loaded. -/
theorem fetch8_loaded
    (ran : elfLoadFd.run file.handle (mcu, n, position) = .ok true (mcu', n', position'))
    (complete : Complete file.content) (apart : ¬ CoversTotalTests (segmentsOf file.content)) :
    mcuUtilFetch8 mcu' = loaded (imageOf file.content) (mcuUtilFetch8 mcu) := by
  rcases run_elfLoadFd ran with ⟨header, isHeader, ran⟩
  have read : header = headerOf file.content := by
    rw [isHeader]
    exact elfHeader_buffer (by rw [Nat.zero_add]; exact complete.headers.header)
  subst read
  obtain ⟨mcu₁, rest, written, eq, loads, from_⟩ :=
    loads_elfLoadSegments rfl (Nat.zero_add _) complete.headers.progHeaders ran
  cases eq
  have there := (loaded_iff loads from_).mpr complete.bytes
  have kept := (kept_iff_tests loads from_).mpr fun covers => absurd covers apart
  funext a
  unfold loaded imageOf
  cases source : sourceOf (segmentsOf file.content) a with
  | none => exact kept a (sourceOf_eq_none_iff.mp source)
  | some place =>
      obtain ⟨k, ph, j, stays, rfl, rfl⟩ := sourceOf_eq_some_iff.mp source
      obtain ⟨byte, has, fetched⟩ := there k ph j stays
      have locked : mcuUtilFetch8 (mcuLock mcu₁) (ph.paddr + j) = some byte := fetched
      rw [locked, Option.bind_some, has, Option.some_or]

/-- What is read does not change with the reset. -/
theorem fetch8_sameMemory (same : mcu.SameMemory mcu') :
    mcuUtilFetch8 mcu' = mcuUtilFetch8 mcu := by
  funext a
  have halves : mcuFetch16 mcu' (a &&& ~~~ 1) = mcuFetch16 mcu (a &&& ~~~ 1) := by
    unfold mcuFetch16
    rw [memDevAt_congr same.length]
    split
    · rename_i dev offset _
      cases dev <;> simp only [Device.fetch16, same.unittest, same.ram, same.flash]
    · rfl
  rw [mcuUtilFetch8_eq, mcuUtilFetch8_eq, halves]

/-- The words of an image are in flash when it was loaded. -/
theorem wordsIn_flash {image contents : Contents} {p : UInt32} {words : List UInt32}
    (fetched : mcuUtilFetch8 mcu = loaded image contents) (are : WordsAt image p words)
    (inside : InFlash p (4 * words.length)) : WordsIn mcu.flash p.toNat words := by
  intro i word at_
  have short := (List.getElem?_eq_some_iff.mp at_).1
  have high := inside.high
  have bytes : ∀ j < 4, byte32 word j = mcu.flash (p.toNat + 4 * i + j) := by
    intro j small
    have first : (p + .ofNat (4 * i)).toNat = p.toNat + 4 * i := toNat_add_offset (by omega)
    have place : (p + .ofNat (4 * i) + .ofNat j).toNat = p.toNat + 4 * i + j := by
      rw [toNat_add_offset (by omega), first]
    have byte := fetch8_flash mcu (a := p + .ofNat (4 * i) + .ofNat j) (by omega)
    rw [fetched, loaded, are i word at_ j small, Option.some_or, place] at byte
    exact Option.some.inj byte
  rw [← load32_byte32 word]
  exact load32_congr fun j small => by rw [Nat.zero_add, bytes j small]

/-- The stack pointer that was written is read. -/
theorem readSp_writeSp (mcu : Mcu) (value : UInt32) :
    mcuReadReg (mcuWriteReg mcu regSp value) regSp = value := by
  have banked : regSp ≠ mcu.stackPointer ∧ mcu.stackPointer ≠ regPc := by
    rcases stackPointer_cases mcu with main | process
    · rw [main]
      decide
    · rw [process]
      decide
  have same : (mcu.setReg mcu.stackPointer value).stackPointer = mcu.stackPointer := by
    rw [Mcu.stackPointer, mcu.regs_setReg_of_ne value banked.1, ← Mcu.stackPointer]
  rw [mcuWriteReg_regSp, mcuReadReg_regSp, same]
  exact mcu.regs_setReg_self value banked.2

/-- The PC and the flags are not the stack pointer. -/
theorem readSp_setReg {reg : Reg} (mcu : Mcu) (value : UInt32) (low : regSp < reg)
    (high : reg < regMsp) : mcuReadReg (mcu.setReg reg value) regSp = mcuReadReg mcu regSp := by
  have same : (mcu.setReg reg value).stackPointer = mcu.stackPointer := by
    unfold Mcu.stackPointer
    rw [mcu.regs_setReg_of_ne value low.ne]
  have other : mcu.stackPointer ≠ reg := by
    rcases stackPointer_cases mcu with main | process
    · rw [main]
      exact high.ne'
    · rw [process]
      exact (high.trans (by decide)).ne'
  rw [mcuReadReg_regSp, mcuReadReg_regSp, same, mcu.regs_setReg_of_ne value other]

/-- The MCU is reset with the vectors in flash, and its stack begins at the first one. -/
theorem mcuReset_vectors {stack entry : UInt32} (are : WordsIn mcu.flash 0 [stack, entry])
    (odd : entry &&& 1 ≠ 0) :
    (mcuReset mcu).1 = true ∧ mcuReadReg (mcuReset mcu).2 regSp = stack := by
  have low : InFlash 0x0 4 := ⟨rfl, show 0 + 4 ≤ 32 * 1024 by decide⟩
  have high : InFlash 0x4 4 := ⟨rfl, show 4 + 4 ≤ 32 * 1024 by decide⟩
  have first : mcuFetch32 mcu 0x0 = some stack := by
    rw [fetch32_flash mcu low, ← are 0 stack rfl]
    rfl
  have same : mcu.SameMemory (mcuWriteReg mcu regSp stack) :=
    Mcu.SameMemory.writeReg ⟨rfl, rfl, rfl, rfl, rfl⟩ _ _
  have second : mcuFetch32 (mcuWriteReg mcu regSp stack) 0x4 = some entry := by
    rw [fetch32_flash _ high, same.flash, ← are 1 entry rfl]
    rfl
  unfold mcuReset
  simp only [first, second, if_neg odd, true_and]
  let started : Mcu :=
    { (mcuWriteReg mcu regSp stack).setReg regPc (entry + 2) with processorMode := .thread }
  have flags : mcuReadReg (mcuWriteReg started regEpsr ((1 : UInt32) <<< 24)) regSp =
      mcuReadReg started regSp := readSp_setReg started _ (by decide) (by decide)
  have pc : mcuReadReg started regSp = mcuReadReg (mcuWriteReg mcu regSp stack) regSp :=
    readSp_setReg (mcuWriteReg mcu regSp stack) (entry + 2) (by decide) (by decide)
  exact flags.trans (pc.trans (readSp_writeSp mcu stack))

/-- The words of the table and how many they are. -/
theorem length_tableWords (data : List DataSection) (bss : List BssSection) :
    4 * (tableWords data bss).length = 12 * data.length + 8 * bss.length := by
  unfold tableWords
  simp only [List.length_append, List.length_flatMap, List.length_cons, List.length_nil,
    List.map_const', List.sum_replicate_nat]
  omega

/-- `do_irq_reset` initialises the sections when the image is in memory. -/
theorem doIrqReset_returns {image contents : Contents}
    (linked : Linked image mcu.ramLength symbols data bss top used)
    (fetched : mcuUtilFetch8 mcu = loaded image contents) :
    ∃ m, Returns (fun fuel => doIrqReset symbols fuel mcu) (withRam mcu m) ∧
      mcuUtilFetch8 (withRam mcu m) = initialised data bss (loaded image contents) := by
  have room := linked.room
  have high := linked.inFlash.high
  have are : WordsIn mcu.flash symbols.dataSectionTable.toNat (tableWords data bss) :=
    wordsIn_flash fetched linked.table (length_tableWords data bss ▸ linked.inFlash)
  have inside : InFlash symbols.dataSectionTable (12 * data.length) :=
    ⟨linked.inFlash.aligned, by omega⟩
  have copied := copySections_returns room are inside linked.dataEnd linked.loads linked.datas
  -- The second table begins where the first one ends.
  have second : symbols.dataSectionTableEnd.toNat =
      symbols.dataSectionTable.toNat + 12 * data.length := by
    rw [linked.dataEnd, toNat_add_offset (by omega)]
  have rest : (tableWords data bss).drop (3 * data.length) = tableWords [] bss := by
    have count : (data.flatMap fun s => [s.loadAddr, s.exeAddr, s.sectionLen]).length =
        3 * data.length := by
      have all := length_tableWords data []
      unfold tableWords at all
      rw [List.flatMap_nil, List.append_nil, List.length_nil] at all
      omega
    exact List.drop_left' count
  generalize firstRam : data.foldl (DataSection.ram mcu.flash) mcu.ram = m at copied
  have others : WordsIn (withRam mcu m).flash symbols.dataSectionTableEnd.toNat
      (tableWords [] bss) := by
    have dropped := are.drop (3 * data.length)
    rw [rest] at dropped
    rw [withRam_flash, second, show 12 * data.length = 4 * (3 * data.length) by omega]
    exact dropped
  have behind : InFlash symbols.dataSectionTableEnd (8 * bss.length) := by
    have aligned := linked.inFlash.aligned
    exact ⟨by omega, by omega⟩
  have cleared : Returns
      (fun fuel => clearSections symbols.bssSectionTableEnd fuel symbols.dataSectionTableEnd
        (withRam mcu m))
      (withRam (withRam mcu m) (bss.foldl BssSection.ram (withRam mcu m).ram)) :=
    clearSections_returns room others behind linked.bssEnd linked.clears
  rw [withRam_ram, withRam_withRam] at cleared
  refine ⟨_, copied.bind cleared, ?_⟩
  have flash : ∀ b, b.toNat < 32 * 1024 → mcuUtilFetch8 mcu b = some (mcu.flash b.toNat) :=
    fun b low => fetch8_flash mcu low
  rw [fetch8_cleared room linked.clears, ← firstRam,
    fetch8_copied room flash linked.loads linked.datas, withRam_self, fetched]
  rfl

/-- What is put on the stack is seen nowhere else. -/
theorem fetch8_onStack {m m' : Bytes} (room : mcu.ramLength.toNat ≤ 0xD0000000)
    (pushed : ∀ a, Inside 0x10000000 mcu.ramLength.toNat a → ¬ OnStack top used a →
      m' (ramPlace a) = m (ramPlace a)) {a : UInt32} (apart : ¬ OnStack top used a) :
    mcuUtilFetch8 (withRam mcu m') a = mcuUtilFetch8 (withRam mcu m) a := by
  by_cases inside : Inside 0x10000000 mcu.ramLength.toNat a
  · rw [fetch8_ram room m' inside, fetch8_ram room m inside, pushed a inside apart]
  · rw [fetch8_elsewhere room m' inside, fetch8_elsewhere room m inside]

/-- **From the file to `firmware_main`**: whatever file the simulator has loaded, with all it needs
and no segment at `total_tests`, and whatever was in memory, if the file was linked like the linker
script says, then the reset succeeds, and `do_irq_reset` calls `firmware_main`. It has only changed
the RAM. Whatever was put on the stack meanwhile, every byte of the memory that is not on the stack is
that of the file or what was there before, but the sections with data are what the file has at their
load addresses, and the others are clear. -/
theorem startup_memory (file : OpenFile) (mcu mcu' : Mcu) (n n' position position' : Nat)
    (symbols : Symbols) (data : List DataSection) (bss : List BssSection) (top : UInt32) (used : Nat)
    (ran : elfLoadFd.run file.handle (mcu, n, position) = .ok true (mcu', n', position'))
    (complete : Complete file.content) (apart : ¬ CoversTotalTests (segmentsOf file.content))
    (linked : Linked (imageOf file.content) mcu.ramLength symbols data bss top used) :
    (mcuReset mcu').1 = true ∧ mcuReadReg (mcuReset mcu').2 regSp = top ∧
      ∃ m, Returns (fun fuel => doIrqReset symbols fuel (mcuReset mcu').2)
          (withRam (mcuReset mcu').2 m) ∧
        ∀ m', (∀ a, Inside 0x10000000 mcu.ramLength.toNat a → ¬ OnStack top used a →
            m' (ramPlace a) = m (ramPlace a)) →
          ∀ a, ¬ OnStack top used a → mcuUtilFetch8 (withRam (mcuReset mcu').2 m') a =
            initialised data bss (loaded (imageOf file.content) (mcuUtilFetch8 mcu)) a := by
  have fetched := fetch8_loaded ran complete apart
  have same := sameMemory_reset mcu'
  have length : mcu'.ramLength = mcu.ramLength := by
    have kept := Proc.run_invariant (I := fun s => s.1.ramLength = mcu.ramLength)
      (fun op s => ramLength_handle file op s) elfLoadFd (s := (mcu, n, position)) rfl
    rw [ran] at kept
    exact kept
  have reset : (mcuReset mcu').1 = true ∧ mcuReadReg (mcuReset mcu').2 regSp = top := by
    rcases linked.vectors with ⟨entry, are, odd⟩
    have start : InFlash 0 (4 * [top, entry].length) := ⟨rfl, show 0 + 8 ≤ 32 * 1024 by decide⟩
    have words : WordsIn mcu'.flash (0 : UInt32).toNat [top, entry] :=
      wordsIn_flash fetched are start
    exact mcuReset_vectors words odd
  have ram : (mcuReset mcu').2.ramLength = mcu.ramLength := same.length.trans length
  rw [← ram] at linked ⊢
  rcases doIrqReset_returns linked ((fetch8_sameMemory same).trans fetched) with ⟨m, returns, memory⟩
  refine ⟨reset.1, reset.2, m, returns, fun m' pushed a apart => ?_⟩
  rw [fetch8_onStack linked.room pushed apart, memory]

end Startup

/-- An ELF file with one segment, of 32 bytes, that goes to the start of the flash: the vectors, the
section table for one section of each kind, and the data. -/
def linkedElf : OpenFile where
  content :=
    [0x7F, 0x45, 0x4C, 0x46, 0, 0, 0, 0, 0, 0, 0, 0, 0, 0, 0, 0, 0, 0, 0, 0, 0, 0, 0, 0, 0, 0, 0, 0,
      52, 0, 0, 0, 0, 0, 0, 0, 0, 0, 0, 0, 0, 0, 32, 0, 1, 0, 0, 0, 0, 0, 0, 0,
      1, 0, 0, 0, 84, 0, 0, 0, 0, 0, 0, 0, 0, 0, 0, 0, 32, 0, 0, 0, 0, 0, 0, 0, 0, 0, 0, 0,
      0, 0, 0, 0, 0, 0x20, 0, 0x10, 0x21, 0, 0, 0, 28, 0, 0, 0, 0, 0, 0, 0x10, 4, 0, 0, 0,
      4, 0, 0, 0x10, 4, 0, 0, 0, 0x2A, 0x2B, 0x2C, 0x2D]
  fails _ := false
  before _ _ := 0

/-- The header of the segment. -/
def linkedHeader : ElfProgHeader where
  type := elfProgTypeLoad
  offset := 84
  paddr := 0
  filesz := 32

theorem segmentsOf_linkedElf : segmentsOf linkedElf.content = [linkedHeader] := rfl

theorem complete_linkedElf : Complete linkedElf.content :=
  complete_of_segment ⟨by decide, by decide +kernel⟩ segmentsOf_linkedElf (by decide)

theorem apart_linkedElf : ¬ CoversTotalTests (segmentsOf linkedElf.content) := by
  rw [segmentsOf_linkedElf]
  exact apart_of_segment (by decide)

/-- Words are in an image when all their bytes are, as far as there are words. -/
theorem wordsAt_of_lt {image : Contents} {p : UInt32} {words : List UInt32}
    (bytes : ∀ i < words.length, ∀ j < 4,
      image (p + .ofNat (4 * i) + .ofNat j) = (words[i]?).map fun word => byte32 word j) :
    WordsAt image p words := by
  intro i word at_ j small
  rw [bytes i (List.getElem?_eq_some_iff.mp at_).1 j small, at_, Option.map_some]

theorem linked_linkedElf : Linked (imageOf linkedElf.content) createdMcu.ramLength ⟨8, 20, 28⟩
    [⟨28, 0x10000000, 4⟩] [⟨0x10000004, 4⟩] 0x10002000 64 where
  vectors := ⟨0x21, wordsAt_of_lt (by decide +kernel), by decide⟩
  stack := ⟨rfl, by decide, by decide⟩
  table := wordsAt_of_lt (by decide +kernel)
  inFlash := ⟨rfl, by decide⟩
  dataEnd := rfl
  bssEnd := rfl
  loads := List.forall_mem_singleton.mpr ⟨rfl, by decide⟩
  datas := List.forall_mem_singleton.mpr ⟨rfl, by decide, by decide⟩
  clears := List.forall_mem_singleton.mpr ⟨rfl, by decide, by decide⟩
  datasApart := List.forall_mem_singleton.mpr fun _ inside stack =>
    absurd (stack.1.trans (Nat.add_le_add_right inside.2.le 64)) (by decide)
  clearsApart := List.forall_mem_singleton.mpr fun _ inside stack =>
    absurd (stack.1.trans (Nat.add_le_add_right inside.2.le 64)) (by decide)
  room := by decide

theorem startup_memory_linkedElf :
    ∃ mcu' n position,
      elfLoadFd.run linkedElf.handle (createdMcu, 0, 0) = .ok true (mcu', n, position) ∧
        (mcuReset mcu').1 = true ∧ mcuReadReg (mcuReset mcu').2 regSp = 0x10002000 ∧
          ∃ m, Returns (fun fuel => doIrqReset ⟨8, 20, 28⟩ fuel (mcuReset mcu').2)
              (withRam (mcuReset mcu').2 m) ∧
            ∀ m', (∀ a, Inside 0x10000000 createdMcu.ramLength.toNat a →
                ¬ OnStack 0x10002000 64 a → m' (ramPlace a) = m (ramPlace a)) →
              ∀ a, ¬ OnStack 0x10002000 64 a → mcuUtilFetch8 (withRam (mcuReset mcu').2 m') a =
                initialised [⟨28, 0x10000000, 4⟩] [⟨0x10000004, 4⟩]
                  (loaded (imageOf linkedElf.content) (mcuUtilFetch8 createdMcu)) a := by
  obtain ⟨mcu', n, position, ran⟩ : ∃ mcu' n position,
      elfLoadFd.run linkedElf.handle (createdMcu, 0, 0) = .ok true (mcu', n, position) :=
    ⟨_, _, _, rfl⟩
  refine ⟨mcu', n, position, ran, ?_⟩
  exact startup_memory linkedElf createdMcu mcu' 0 n 0 position ⟨8, 20, 28⟩ [⟨28, 0x10000000, 4⟩]
    [⟨0x10000004, 4⟩] 0x10002000 64 ran complete_linkedElf apart_linkedElf linked_linkedElf

end TheFirmware.Startup
