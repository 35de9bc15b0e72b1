import Mathlib.Data.List.Find
import TheFirmware.Simulator.Registers

/-!
# The views of the memory

The functions of `core/mcu.c` read the memory in bytes, halfwords and words. For RAM and flash these
are views of one array of bytes (`Device.bytes`), and a write changes the bytes it addresses
(`ReadsChange`). The device of the unit tests has words only; `mcu_emu_fetch16` makes halfwords of
them, with the halves exchanged.
-/

namespace TheFirmware.Simulator

open LittleEndian

/-! ## Addresses -/

section Addresses

variable {mcu : Mcu} {a b : UInt32} {dev : Device} {offset : UInt32}

/-- The devices begin and end at an aligned address. -/
theorem aligned_of_mem_memDevs {mem : MemDev} (attached : mem ∈ mcu.memDevs) :
    mem.offset.toNat % 4 = 0 ∧ (mem.offset + mem.length).toNat % 4 = 0 := by
  have ram := mcu.ramAligned
  simp only [Mcu.memDevs, List.mem_cons, List.not_mem_nil, or_false] at attached
  rcases attached with rfl | rfl | rfl | rfl
  · decide
  · decide
  · have base : (0x10000000 : UInt32).toNat = 0x10000000 := rfl
    dsimp only
    rw [UInt32.toNat_add, base]
    omega
  · decide

/-- The addresses of a word lie in the same device. -/
theorem memDevAt_word (mcu : Mcu) (word : b.toNat / 4 = a.toNat / 4) :
    mcu.memDevAt b = (mcu.memDevAt a).map fun at_ => (at_.1, at_.2 + (b - a)) := by
  have same : (mcu.memDevs.find? fun dev => dev.offset ≤ b ∧ b < dev.offset + dev.length) =
      mcu.memDevs.find? fun dev => dev.offset ≤ a ∧ a < dev.offset + dev.length := by
    apply List.find?_congr
    intro mem attached
    have aligned := aligned_of_mem_memDevs attached
    simp only [UInt32.le_iff_toNat_le, UInt32.lt_iff_toNat_lt, decide_eq_decide]
    omega
  unfold Mcu.memDevAt
  rw [same, Option.map_map]
  congr 1
  funext mem
  have moved : b - mem.offset = a - mem.offset + (b - a) := by grind
  rw [Function.comp_apply, moved]

/-- Where the devices lie. -/
theorem memDevAt_offset (at_ : mcu.memDevAt a = some (dev, offset)) :
    ∃ mem ∈ mcu.memDevs, mem.device = dev ∧ offset = a - mem.offset ∧ mem.offset ≤ a ∧
      a < mem.offset + mem.length := by
  unfold Mcu.memDevAt at at_
  obtain ⟨mem, found, eq⟩ := Option.map_eq_some_iff.mp at_
  have inside := List.find?_some found
  have attached := List.mem_of_find?_eq_some found
  simp only [Prod.mk.injEq] at eq
  simp only [decide_eq_true_eq] at inside
  exact ⟨mem, attached, eq.1, eq.2.symm, inside.1, inside.2⟩

/-- The offset of an address in its device has the residue of the address. -/
theorem toNat_offset_mod (at_ : mcu.memDevAt a = some (dev, offset)) :
    offset.toNat % 4 = a.toNat % 4 := by
  obtain ⟨mem, attached, _, rfl, le, _⟩ := memDevAt_offset at_
  have aligned := aligned_of_mem_memDevs attached
  rw [UInt32.toNat_sub_of_le _ _ le]
  have le := UInt32.le_iff_toNat_le.mp le
  omega

/-- Where an address lies depends on the length of the RAM only. -/
theorem memDevAt_congr {mcu' : Mcu} (same : mcu'.ramLength = mcu.ramLength) :
    mcu'.memDevAt = mcu.memDevAt := by
  unfold Mcu.memDevAt Mcu.memDevs
  rw [same]

theorem memDevAt_unittest (at_ : mcu.memDevAt a = some (.unittest, offset)) :
    offset = a - 0xEE000000 := by
  obtain ⟨mem, attached, eq, rfl, _, _⟩ := memDevAt_offset at_
  simp only [Mcu.memDevs, List.mem_cons, List.not_mem_nil, or_false] at attached
  rcases attached with rfl | rfl | rfl | rfl
  · rfl
  · cases eq
  · cases eq
  · cases eq

theorem offset_eq_iff (at_ : mcu.memDevAt a = some (.unittest, offset)) (o : UInt32) :
    offset = o ↔ a = 0xEE000000 + o := by
  rw [memDevAt_unittest at_]
  constructor
  · intro eq
    grind
  · intro eq
    grind

end Addresses

/-! ## Reading an array of bytes -/

/-- The bytes of a device that is an array of them. -/
def Device.bytes (mcu : Mcu) : Device → Option Bytes
  | .ram => some mcu.ram
  | .flash => some mcu.flash
  | .unittest => none
  | .uart => none

section Reads

variable {mcu : Mcu} {a : UInt32} {dev : Device} {offset : UInt32} {m : Bytes}

theorem Device.fetch16_bytes (array : dev.bytes mcu = some m) :
    dev.fetch16 mcu offset = some (load16 m (2 * (offset.toNat / 2))) := by
  cases dev with
  | unittest => cases array
  | uart => cases array
  | ram =>
      cases array
      rw [← toNat_shiftRight_one]
      rfl
  | flash =>
      cases array
      rw [← toNat_shiftRight_one]
      rfl

theorem Device.fetch32_bytes (array : dev.bytes mcu = some m) :
    dev.fetch32 mcu offset = some (load32 m (4 * (offset.toNat / 4))) := by
  cases dev with
  | unittest => cases array
  | uart => cases array
  | ram =>
      cases array
      rw [← toNat_shiftRight_two]
      rfl
  | flash =>
      cases array
      rw [← toNat_shiftRight_two]
      rfl

theorem mcuFetch16_bytes (at_ : mcu.memDevAt a = some (dev, offset))
    (array : dev.bytes mcu = some m) :
    mcuFetch16 mcu a = some (load16 m (2 * (offset.toNat / 2))) := by
  unfold mcuFetch16
  rw [at_]
  exact dev.fetch16_bytes array

theorem mcuFetch32_bytes (at_ : mcu.memDevAt a = some (dev, offset))
    (array : dev.bytes mcu = some m) :
    mcuFetch32 mcu a = some (load32 m (4 * (offset.toNat / 4))) := by
  unfold mcuFetch32
  rw [at_]
  exact dev.fetch32_bytes array

/-- The device at another address of the same word. -/
theorem memDevAt_near {b : UInt32} (at_ : mcu.memDevAt a = some (dev, offset))
    (word : b.toNat / 4 = a.toNat / 4) :
    ∃ near, mcu.memDevAt b = some (dev, near) ∧
      near.toNat = 4 * (offset.toNat / 4) + b.toNat % 4 := by
  have moved := memDevAt_word mcu word
  rw [at_] at moved
  refine ⟨_, moved, ?_⟩
  obtain ⟨mem, attached, _, rfl, le, _⟩ := memDevAt_offset at_
  have aligned := aligned_of_mem_memDevs attached
  have leNat := UInt32.le_iff_toNat_le.mp le
  have leNear : mem.offset ≤ b := by
    rw [UInt32.le_iff_toNat_le]
    omega
  have sum : a - mem.offset + (b - a) = b - mem.offset := by grind
  rw [sum, UInt32.toNat_sub_of_le _ _ leNear, UInt32.toNat_sub_of_le _ _ le]
  omega

/-- The bytes of a halfword as `mcu_util_fetch8` takes them. -/
theorem mcuUtilFetch8_eq (mcu : Mcu) (a : UInt32) :
    mcuUtilFetch8 mcu a =
      (mcuFetch16 mcu (a &&& ~~~ 1)).map fun value => byte16 value (a.toNat % 2) := by
  have bit := toNat_and_one a
  unfold mcuUtilFetch8
  cases mcuFetch16 mcu (a &&& ~~~ 1) with
  | none => rfl
  | some value =>
      by_cases odd : a &&& 1 = 0
      · have zero : a.toNat % 2 = 0 := by
          rw [← bit, odd]
          rfl
        simp only [odd, zero, Option.map_some, ne_eq, not_true_eq_false, if_false]
        rw [toUInt8_and_mask]
        rfl
      · have one : a.toNat % 2 = 1 := by
          have ne : (a &&& 1).toNat ≠ 0 := fun zero => odd (UInt32.toNat_inj.mp zero)
          omega
        simp only [odd, one, Option.map_some, ne_eq, not_false_eq_true, if_true]
        rw [toUInt8_and_mask]
        rfl

theorem mcuUtilFetch8_bytes (at_ : mcu.memDevAt a = some (dev, offset))
    (array : dev.bytes mcu = some m) : mcuUtilFetch8 mcu a = some (m offset.toNat) := by
  have even := toNat_and_not_one a
  have residue := toNat_offset_mod at_
  obtain ⟨near, near_at, near_eq⟩ :=
    memDevAt_near at_ (show (a &&& ~~~ 1).toNat / 4 = a.toNat / 4 by omega)
  have place : 2 * (near.toNat / 2) + a.toNat % 2 = offset.toNat := by omega
  rw [mcuUtilFetch8_eq, mcuFetch16_bytes near_at array, Option.map_some,
    byte16_load16 _ _ (Nat.mod_lt _ Nat.two_pos), place]

end Reads

/-! ## The views of a word -/

/-- Where the word and the halfwords at an address can be read, the word is its halfwords and its
bytes, the low one first. -/
def ViewsAgreeAt (mcu : Mcu) (a : UInt32) : Prop :=
  ∀ (w : UInt32) (low high : UInt16), mcuFetch32 mcu a = some w → mcuFetch16 mcu a = some low →
    mcuFetch16 mcu (a + 2) = some high →
    w = (low.toUInt32 ||| (high.toUInt32 <<< 16)) ∧
      ∀ i < 4, mcuUtilFetch8 mcu (a + .ofNat i) = some (byte32 w i)

/-- The halves of a word are the same. -/
def SameHalves (w : UInt32) : Prop := w >>> 16 = w &&& 0xFFFF

instance (w : UInt32) : Decidable (SameHalves w) := inferInstanceAs (Decidable (_ = _))

section Views

variable {mcu : Mcu} {a w : UInt32} {low high : UInt16}

theorem toNat_add_ofNat {i : Nat} (aligned : a.toNat % 4 = 0) (small : i < 4) :
    (a + .ofNat i).toNat = a.toNat + i := by
  have bound := a.toNat_lt
  rw [UInt32.toNat_add, UInt32.toNat_ofNat']
  omega

/-- The bytes are those of the halfwords, in every device. -/
theorem mcuUtilFetch8_halves {i : Nat} (aligned : a.toNat % 4 = 0)
    (fetchedLow : mcuFetch16 mcu a = some low) (fetchedHigh : mcuFetch16 mcu (a + 2) = some high)
    (small : i < 4) :
    mcuUtilFetch8 mcu (a + .ofNat i) =
      some (byte32 (low.toUInt32 ||| (high.toUInt32 <<< 16)) i) := by
  have place := toNat_add_ofNat aligned small
  have residue : (a.toNat + i) % 2 = i % 2 := by omega
  rw [mcuUtilFetch8_eq, byte32_halves low high small, place, residue]
  have even := toNat_and_not_one (a + .ofNat i)
  rw [place] at even
  by_cases first : i < 2
  · have base : (a + .ofNat i) &&& ~~~ 1 = a := UInt32.toNat_inj.mp (by omega)
    rw [base, fetchedLow, if_pos first]
    rfl
  · have two := toNat_add_ofNat aligned (show 2 < 4 by decide)
    have base : (a + .ofNat i) &&& ~~~ 1 = a + .ofNat 2 := UInt32.toNat_inj.mp (by omega)
    have second : mcuFetch16 mcu (a + .ofNat 2) = some high := fetchedHigh
    rw [base, second, if_neg first]
    rfl

/-- The halfwords of an array of bytes. -/
theorem halves_of_bytes {dev : Device} {offset : UInt32} {m : Bytes}
    (at_ : mcu.memDevAt a = some (dev, offset)) (array : dev.bytes mcu = some m)
    (aligned : a.toNat % 4 = 0) (fetched : mcuFetch32 mcu a = some w)
    (fetchedLow : mcuFetch16 mcu a = some low) (fetchedHigh : mcuFetch16 mcu (a + 2) = some high) :
    w = (low.toUInt32 ||| (high.toUInt32 <<< 16)) := by
  have residue := toNat_offset_mod at_
  have two : (a + 2).toNat = a.toNat + 2 := toNat_add_ofNat aligned (show 2 < 4 by decide)
  obtain ⟨near, near_at, near_eq⟩ :=
    memDevAt_near at_ (show (a + 2).toNat / 4 = a.toNat / 4 by omega)
  rw [mcuFetch32_bytes at_ array] at fetched
  rw [mcuFetch16_bytes at_ array] at fetchedLow
  rw [mcuFetch16_bytes near_at array] at fetchedHigh
  have word : 4 * (offset.toNat / 4) = 2 * (offset.toNat / 2) := by omega
  have second : 2 * (near.toNat / 2) = 2 * (offset.toNat / 2) + 2 := by omega
  cases fetched
  cases fetchedLow
  cases fetchedHigh
  rw [word, second]
  exact load32_eq m _

/-- `mcu_emu_fetch16` exchanges the halves of a word. -/
theorem exchanged_iff (w : UInt32) :
    w = (((w >>> 16) &&& 0xFFFF).toUInt16.toUInt32 |||
        (((w >>> 0) &&& 0xFFFF).toUInt16.toUInt32 <<< 16)) ↔
      SameHalves w := by
  have bound := w.toNat_lt
  unfold SameHalves
  rw [← UInt32.toNat_inj, ← UInt32.toNat_inj, toNat_halves, toNat_upper, toNat_lower,
    toNat_shiftRight_half, toNat_and_lower]
  omega

/-- The aligned words of the device for unit tests. -/
theorem unittestDevRead32_cases {dev : Unittest} {offset : UInt32}
    (read : unittestDevRead32 dev offset = some w) :
    (offset = 0x0 ∧ w = dev.currentTest.toUInt32) ∨
      (offset = 0x4 ∧ w = dev.totalTests.toUInt32) := by
  unfold unittestDevRead32 at read
  split at read
  · cases read
    exact .inl ⟨‹_›, rfl⟩
  · split at read
    · cases read
      exact .inr ⟨‹_›, rfl⟩
    · cases read

/-- The halfwords that `mcu_emu_fetch16` makes of a word. -/
theorem mcuEmuFetch16_word {fetch32 : UInt32 → Option UInt32} {offset : UInt32}
    (first : offset = 0x0 ∨ offset = 0x4) (fetched : fetch32 offset = some w) :
    mcuEmuFetch16 fetch32 offset = some ((w >>> 16) &&& 0xFFFF).toUInt16 ∧
      mcuEmuFetch16 fetch32 (offset + 2) = some ((w >>> 0) &&& 0xFFFF).toUInt16 := by
  rcases first with rfl | rfl
  · have low : (0x0 : UInt32) &&& ~~~ 2 = 0x0 := by decide
    have high : ((0x0 : UInt32) + 2) &&& ~~~ 2 = 0x0 := by decide
    unfold mcuEmuFetch16
    rw [low, high, fetched]
    exact ⟨rfl, rfl⟩
  · have low : (0x4 : UInt32) &&& ~~~ 2 = 0x4 := by decide
    have high : ((0x4 : UInt32) + 2) &&& ~~~ 2 = 0x4 := by decide
    unfold mcuEmuFetch16
    rw [low, high, fetched]
    exact ⟨rfl, rfl⟩

/-- The three fetches of an aligned word of the device for unit tests. -/
theorem fetch_unittest {offset : UInt32} (at_ : mcu.memDevAt a = some (.unittest, offset))
    (aligned : a.toNat % 4 = 0) (fetched : mcuFetch32 mcu a = some w) :
    mcuFetch16 mcu a = some ((w >>> 16) &&& 0xFFFF).toUInt16 ∧
      mcuFetch16 mcu (a + 2) = some ((w >>> 0) &&& 0xFFFF).toUInt16 := by
  have two : (a + 2).toNat = a.toNat + 2 := toNat_add_ofNat aligned (show 2 < 4 by decide)
  have next := memDevAt_word mcu (show (a + 2).toNat / 4 = a.toNat / 4 by omega)
  have step : a + 2 - a = 2 := by grind
  rw [at_, Option.map_some, step] at next
  have read : unittestDevRead32 mcu.unittest offset = some w := by
    unfold mcuFetch32 at fetched
    rw [at_] at fetched
    exact fetched
  have first : offset = 0x0 ∨ offset = 0x4 :=
    (unittestDevRead32_cases read).imp And.left And.left
  have halves := mcuEmuFetch16_word first read
  unfold mcuFetch16
  rw [at_, next]
  exact halves

/-- The word of the device for unit tests at an address has two same halves. -/
structure SameHalvesAt (mcu : Mcu) (a : UInt32) : Prop where
  current : a = 0xEE000000 → SameHalves mcu.unittest.currentTest.toUInt32
  total : a = 0xEE000004 → SameHalves mcu.unittest.totalTests.toUInt32

/-- The views of a word agree when the word is its halfwords. -/
theorem viewsAgreeAt_of_halves (aligned : a.toNat % 4 = 0)
    (whole : ∀ w low high, mcuFetch32 mcu a = some w → mcuFetch16 mcu a = some low →
      mcuFetch16 mcu (a + 2) = some high → w = (low.toUInt32 ||| (high.toUInt32 <<< 16))) :
    ViewsAgreeAt mcu a := by
  intro w low high fetched fetchedLow fetchedHigh
  have eq := whole w low high fetched fetchedLow fetchedHigh
  refine ⟨eq, fun i small => ?_⟩
  rw [eq]
  exact mcuUtilFetch8_halves aligned fetchedLow fetchedHigh small

/-- The views of RAM and flash agree. -/
theorem viewsAgreeAt_bytes {dev : Device} {offset : UInt32} {m : Bytes}
    (at_ : mcu.memDevAt a = some (dev, offset)) (array : dev.bytes mcu = some m)
    (aligned : a.toNat % 4 = 0) : ViewsAgreeAt mcu a := by
  refine viewsAgreeAt_of_halves aligned fun w low high fetched fetchedLow fetchedHigh => ?_
  exact halves_of_bytes at_ array aligned fetched fetchedLow fetchedHigh

/-- The views of a word of the device for unit tests agree when its halves are the same. -/
theorem viewsAgreeAt_unittest {offset : UInt32}
    (at_ : mcu.memDevAt a = some (.unittest, offset)) (aligned : a.toNat % 4 = 0)
    (fetched : mcuFetch32 mcu a = some w) : ViewsAgreeAt mcu a ↔ SameHalves w := by
  have halves := fetch_unittest at_ aligned fetched
  rw [← exchanged_iff]
  constructor
  · intro agree
    exact (agree w _ _ fetched halves.1 halves.2).1
  · intro eq
    refine viewsAgreeAt_of_halves aligned fun w' low high fetched' fetchedLow fetchedHigh => ?_
    cases fetched.symm.trans fetched'
    cases halves.1.symm.trans fetchedLow
    cases halves.2.symm.trans fetchedHigh
    exact eq

theorem viewsAgreeAt_of_none (none : mcuFetch32 mcu a = none) : ViewsAgreeAt mcu a := by
  intro w low high fetched
  rw [none] at fetched
  cases fetched

/-- The views of a word agree exactly when it is not one of the device for unit tests, or its halves
are the same. -/
theorem viewsAgreeAt_iff (mcu : Mcu) (mask : a &&& 3 = 0) :
    ViewsAgreeAt mcu a ↔ SameHalvesAt mcu a := by
  have aligned : a.toNat % 4 = 0 := by
    rw [← toNat_and_three, mask]
    rfl
  constructor
  · intro agree
    refine ⟨?_, ?_⟩
    · rintro rfl
      have at_ : mcu.memDevAt 0xEE000000 = some (.unittest, 0x0) := rfl
      exact (viewsAgreeAt_unittest at_ aligned rfl).mp agree
    · rintro rfl
      have at_ : mcu.memDevAt 0xEE000004 = some (.unittest, 0x4) := rfl
      exact (viewsAgreeAt_unittest at_ aligned rfl).mp agree
  · intro same
    cases at_ : mcu.memDevAt a with
    | none =>
        refine viewsAgreeAt_of_none ?_
        unfold mcuFetch32
        rw [at_]
    | some found =>
        rcases found with ⟨dev, offset⟩
        cases dev with
        | ram => exact viewsAgreeAt_bytes at_ rfl aligned
        | flash => exact viewsAgreeAt_bytes at_ rfl aligned
        | uart =>
            refine viewsAgreeAt_of_none ?_
            unfold mcuFetch32
            rw [at_]
            rfl
        | unittest =>
            cases fetched : mcuFetch32 mcu a with
            | none => exact viewsAgreeAt_of_none fetched
            | some w =>
                refine (viewsAgreeAt_unittest at_ aligned fetched).mpr ?_
                unfold mcuFetch32 at fetched
                rw [at_] at fetched
                rcases unittestDevRead32_cases fetched with ⟨first, rfl⟩ | ⟨second, rfl⟩
                · exact same.current ((offset_eq_iff at_ 0x0).mp first)
                · exact same.total ((offset_eq_iff at_ 0x4).mp second)

end Views

/-! ## Writing an array of bytes -/

/-- A halfword at `b`, when the bytes of `written` have replaced those that were there. -/
def overlay16 (written : UInt32 → Option UInt8) (b : UInt32) (old : UInt16) : UInt16 :=
  load16 (fun i => (written (b + .ofNat i)).getD (byte16 old i)) 0

/-- A word at `b`, when the bytes of `written` have replaced those that were there. -/
def overlay32 (written : UInt32 → Option UInt8) (b : UInt32) (old : UInt32) : UInt32 :=
  load32 (fun i => (written (b + .ofNat i)).getD (byte32 old i)) 0

/-- Every read of any width sees the bytes of `written`, and else what it saw before. -/
structure ReadsChange (mcu mcu' : Mcu) (written : UInt32 → Option UInt8) : Prop where
  fetch8 : ∀ b, mcuUtilFetch8 mcu' b = (mcuUtilFetch8 mcu b).map fun old => (written b).getD old
  fetch16 : ∀ b, mcuFetch16 mcu' b = (mcuFetch16 mcu b).map (overlay16 written (b &&& ~~~ 1))
  fetch32 : ∀ b, mcuFetch32 mcu' b = (mcuFetch32 mcu b).map (overlay32 written (b &&& ~~~ 3))

/-- The byte that is written at `a`. -/
def written8 (a : UInt32) (v : UInt8) (b : UInt32) : Option UInt8 := if b = a then some v else none

/-- The halfword that is written at `a`. -/
def written16 (a : UInt32) (v : UInt16) (b : UInt32) : Option UInt8 :=
  if b = a &&& ~~~ 1 then some (byte16 v 0)
  else if b = (a &&& ~~~ 1) + 1 then some (byte16 v 1)
  else none

/-- The MCU with other bytes in a device that is an array of them. -/
def Device.setBytes (mcu : Mcu) (m : Bytes) : Device → Mcu
  | .ram => { mcu with ram := m }
  | .flash => { mcu with flash := m }
  | .unittest => mcu
  | .uart => mcu

section Writes

variable {mcu : Mcu} {a b : UInt32} {dev other : Device} {offset : UInt32} {m m' : Bytes}
  {written : UInt32 → Option UInt8}

theorem Device.memDevAt_setBytes (mcu : Mcu) (m : Bytes) (dev : Device) :
    (dev.setBytes mcu m).memDevAt = mcu.memDevAt := by
  cases dev <;> rfl

theorem Device.unittest_setBytes (mcu : Mcu) (m : Bytes) (dev : Device) :
    (dev.setBytes mcu m).unittest = mcu.unittest := by
  cases dev <;> rfl

theorem Device.bytes_setBytes (array : dev.bytes mcu = some m) :
    dev.bytes (dev.setBytes mcu m') = some m' := by
  cases dev with
  | ram => rfl
  | flash => rfl
  | unittest => cases array
  | uart => cases array

theorem overlay16_none (none : ∀ i < 2, written (b + .ofNat i) = none) (old : UInt16) :
    overlay16 written b old = old := by
  refine Eq.trans (load16_congr fun i small => ?_) (load16_byte16 old)
  rw [Nat.zero_add, none i small, Option.getD_none]

theorem overlay32_none (none : ∀ i < 4, written (b + .ofNat i) = none) (old : UInt32) :
    overlay32 written b old = old := by
  refine Eq.trans (load32_congr fun i small => ?_) (load32_byte32 old)
  rw [Nat.zero_add, none i small, Option.getD_none]

/-- The bytes of the halfword that an address is in. -/
theorem memDevAt_half {i : Nat} (at_ : mcu.memDevAt b = some (dev, offset)) (small : i < 2) :
    ∃ near, mcu.memDevAt ((b &&& ~~~ 1) + .ofNat i) = some (dev, near) ∧
      near.toNat = 2 * (offset.toNat / 2) + i := by
  have bound := b.toNat_lt
  have even := toNat_and_not_one b
  have residue := toNat_offset_mod at_
  have place : ((b &&& ~~~ 1) + .ofNat i).toNat = 2 * (b.toNat / 2) + i := by
    rw [UInt32.toNat_add, UInt32.toNat_ofNat', even]
    omega
  obtain ⟨near, near_at, near_eq⟩ := memDevAt_near at_
    (show ((b &&& ~~~ 1) + .ofNat i).toNat / 4 = b.toNat / 4 by omega)
  exact ⟨near, near_at, by omega⟩

/-- The bytes of the word that an address is in. -/
theorem memDevAt_whole {i : Nat} (at_ : mcu.memDevAt b = some (dev, offset)) (small : i < 4) :
    ∃ near, mcu.memDevAt ((b &&& ~~~ 3) + .ofNat i) = some (dev, near) ∧
      near.toNat = 4 * (offset.toNat / 4) + i := by
  have aligned := toNat_and_not_three b
  have place := toNat_add_ofNat (show (b &&& ~~~ 3).toNat % 4 = 0 by omega) small
  obtain ⟨near, near_at, near_eq⟩ := memDevAt_near at_
    (show ((b &&& ~~~ 3) + .ofNat i).toNat / 4 = b.toNat / 4 by omega)
  exact ⟨near, near_at, by omega⟩

theorem Device.fetch16_setBytes_of_ne (ne : other ≠ dev) :
    other.fetch16 (dev.setBytes mcu m) b = other.fetch16 mcu b := by
  cases dev <;> cases other <;> first | rfl | exact absurd rfl ne

theorem Device.fetch32_setBytes_of_ne (ne : other ≠ dev) :
    other.fetch32 (dev.setBytes mcu m) b = other.fetch32 mcu b := by
  cases dev <;> cases other <;> first | rfl | exact absurd rfl ne

/-- The reads of halfwords after the bytes of a device have changed. -/
theorem mcuFetch16_setBytes (array : dev.bytes mcu = some m)
    (here : ∀ b offset, mcu.memDevAt b = some (dev, offset) →
      m' offset.toNat = (written b).getD (m offset.toNat))
    (elsewhere : ∀ b other offset, mcu.memDevAt b = some (other, offset) → other ≠ dev →
      written b = none) (b : UInt32) :
    mcuFetch16 (dev.setBytes mcu m') b =
      (mcuFetch16 mcu b).map (overlay16 written (b &&& ~~~ 1)) := by
  have same := dev.memDevAt_setBytes mcu m'
  cases at_ : mcu.memDevAt b with
  | none =>
      unfold mcuFetch16
      rw [same, at_]
      rfl
  | some found =>
      obtain ⟨other, offset⟩ := found
      by_cases eq : other = dev
      · subst eq
        rw [mcuFetch16_bytes at_ array,
          mcuFetch16_bytes ((congrFun same b).trans at_) (Device.bytes_setBytes array),
          Option.map_some]
        congr 1
        apply load16_congr
        intro i small
        obtain ⟨near, near_at, near_eq⟩ := memDevAt_half at_ small
        rw [Nat.zero_add, byte16_load16 _ _ small, ← near_eq]
        exact here _ _ near_at
      · have kept : ∀ old, overlay16 written (b &&& ~~~ 1) old = old := by
          intro old
          refine overlay16_none (fun i small => ?_) old
          obtain ⟨near, near_at, _⟩ := memDevAt_half at_ small
          exact elsewhere _ _ _ near_at eq
        unfold mcuFetch16
        rw [same, at_, funext kept, Option.map_id']
        exact Device.fetch16_setBytes_of_ne eq

/-- The reads of words after the bytes of a device have changed. -/
theorem mcuFetch32_setBytes (array : dev.bytes mcu = some m)
    (here : ∀ b offset, mcu.memDevAt b = some (dev, offset) →
      m' offset.toNat = (written b).getD (m offset.toNat))
    (elsewhere : ∀ b other offset, mcu.memDevAt b = some (other, offset) → other ≠ dev →
      written b = none) (b : UInt32) :
    mcuFetch32 (dev.setBytes mcu m') b =
      (mcuFetch32 mcu b).map (overlay32 written (b &&& ~~~ 3)) := by
  have same := dev.memDevAt_setBytes mcu m'
  cases at_ : mcu.memDevAt b with
  | none =>
      unfold mcuFetch32
      rw [same, at_]
      rfl
  | some found =>
      obtain ⟨other, offset⟩ := found
      by_cases eq : other = dev
      · subst eq
        rw [mcuFetch32_bytes at_ array,
          mcuFetch32_bytes ((congrFun same b).trans at_) (Device.bytes_setBytes array),
          Option.map_some]
        congr 1
        apply load32_congr
        intro i small
        obtain ⟨near, near_at, near_eq⟩ := memDevAt_whole at_ small
        rw [Nat.zero_add, byte32_load32 _ _ small, ← near_eq]
        exact here _ _ near_at
      · have kept : ∀ old, overlay32 written (b &&& ~~~ 3) old = old := by
          intro old
          refine overlay32_none (fun i small => ?_) old
          obtain ⟨near, near_at, _⟩ := memDevAt_whole at_ small
          exact elsewhere _ _ _ near_at eq
        unfold mcuFetch32
        rw [same, at_, funext kept, Option.map_id']
        exact Device.fetch32_setBytes_of_ne eq

/-- The bytes of a halfword with replaced bytes. -/
theorem byte16_overlay16 {i : Nat} (small : i < 2) (old : UInt16) :
    byte16 (overlay16 written b old) i = (written (b + .ofNat i)).getD (byte16 old i) := by
  unfold overlay16
  rw [byte16_load16 _ _ small, Nat.zero_add]

/-- What all reads see when the bytes of a device have changed. -/
theorem readsChange_setBytes (array : dev.bytes mcu = some m)
    (here : ∀ b offset, mcu.memDevAt b = some (dev, offset) →
      m' offset.toNat = (written b).getD (m offset.toNat))
    (elsewhere : ∀ b other offset, mcu.memDevAt b = some (other, offset) → other ≠ dev →
      written b = none) :
    ReadsChange mcu (dev.setBytes mcu m') written where
  fetch8 b := by
    have even := toNat_and_not_one b
    have again : (b &&& ~~~ 1) &&& ~~~ 1 = b &&& ~~~ 1 := by
      have twice := toNat_and_not_one (b &&& ~~~ 1)
      exact UInt32.toNat_inj.mp (by omega)
    have place : (b &&& ~~~ 1) + .ofNat (b.toNat % 2) = b := by
      have bound := b.toNat_lt
      apply UInt32.toNat_inj.mp
      rw [UInt32.toNat_add, UInt32.toNat_ofNat', even]
      omega
    rw [mcuUtilFetch8_eq, mcuUtilFetch8_eq, mcuFetch16_setBytes array here elsewhere, again,
      Option.map_map, Option.map_map]
    congr 1
    funext old
    simp only [Function.comp_apply]
    rw [byte16_overlay16 (Nat.mod_lt _ Nat.two_pos), place]
  fetch16 b := mcuFetch16_setBytes array here elsewhere b
  fetch32 b := mcuFetch32_setBytes array here elsewhere b

/-- Two addresses of a device are as far apart as their offsets. -/
theorem offset_distance {near : UInt32} (at_ : mcu.memDevAt a = some (dev, offset))
    (near_at : mcu.memDevAt b = some (dev, near)) :
    near.toNat + a.toNat = offset.toNat + b.toNat := by
  have base : ∀ first ∈ mcu.memDevs, ∀ second ∈ mcu.memDevs, first.device = second.device →
      first.offset = second.offset := by
    simp [Mcu.memDevs]
  obtain ⟨first, firstAttached, firstDev, rfl, firstLe, _⟩ := memDevAt_offset at_
  obtain ⟨second, secondAttached, secondDev, rfl, secondLe, _⟩ := memDevAt_offset near_at
  have eq := base first firstAttached second secondAttached (firstDev.trans secondDev.symm)
  rw [← eq] at secondLe ⊢
  rw [UInt32.toNat_sub_of_le _ _ firstLe, UInt32.toNat_sub_of_le _ _ secondLe]
  have firstLe := UInt32.le_iff_toNat_le.mp firstLe
  have secondLe := UInt32.le_iff_toNat_le.mp secondLe
  omega

/-- The device is RAM, or flash while it is unlocked. -/
def Mcu.Writable (mcu : Mcu) (dev : Device) : Prop :=
  dev = .ram ∨ (dev = .flash ∧ mcu.unlocked = true)

theorem Mcu.Writable.array (writable : mcu.Writable dev) : ∃ m, dev.bytes mcu = some m := by
  rcases writable with rfl | ⟨rfl, _⟩
  · exact ⟨_, rfl⟩
  · exact ⟨_, rfl⟩

theorem mcuWrite16_writable (at_ : mcu.memDevAt a = some (dev, offset))
    (writable : mcu.Writable dev) (array : dev.bytes mcu = some m) (v : UInt16) :
    mcuWrite16 mcu a v = .ok true (dev.setBytes mcu (store16 m (2 * (offset.toNat / 2)) v)) := by
  unfold mcuWrite16
  rw [at_, ← toNat_shiftRight_one]
  rcases writable with rfl | ⟨rfl, unlocked⟩
  · cases array
    rfl
  · cases array
    exact if_pos unlocked

/-- Every read sees the halfword that was written. -/
theorem readsChange_write16 (at_ : mcu.memDevAt a = some (dev, offset))
    (writable : mcu.Writable dev) (v : UInt16) :
    ∃ mcu', mcuWrite16 mcu a v = .ok true mcu' ∧ ReadsChange mcu mcu' (written16 a v) := by
  obtain ⟨m, array⟩ := writable.array
  refine ⟨_, mcuWrite16_writable at_ writable array v, readsChange_setBytes array ?_ ?_⟩
  · intro b near near_at
    have distance := offset_distance at_ near_at
    have residue := toNat_offset_mod at_
    have bound := a.toNat_lt
    have even := toNat_and_not_one a
    have next : ((a &&& ~~~ 1) + 1).toNat = 2 * (a.toNat / 2) + 1 := by
      have one : (1 : UInt32).toNat = 1 := rfl
      rw [UInt32.toNat_add, even, one]
      omega
    have first : b = a &&& ~~~ 1 ↔ near.toNat = 2 * (offset.toNat / 2) := by
      rw [← UInt32.toNat_inj, even]
      omega
    have second : b = (a &&& ~~~ 1) + 1 ↔ near.toNat = 2 * (offset.toNat / 2) + 1 := by
      rw [← UInt32.toNat_inj, next]
      omega
    unfold store16 written16
    simp only [first, second]
    split
    · rfl
    · split
      · rfl
      · rfl
  · intro b other near near_at ne
    have away : ∀ i < 2, b ≠ (a &&& ~~~ 1) + .ofNat i := by
      rintro i small rfl
      obtain ⟨inside, inside_at, _⟩ := memDevAt_half at_ small
      rw [inside_at] at near_at
      cases near_at
      exact ne rfl
    have first : b ≠ a &&& ~~~ 1 := by
      have zero : (a &&& ~~~ 1) + .ofNat 0 = a &&& ~~~ 1 := by grind
      rw [← zero]
      exact away 0 (by decide)
    have second : b ≠ (a &&& ~~~ 1) + 1 := away 1 (by decide)
    unfold written16
    rw [if_neg first, if_neg second]

/-- Every read sees the byte that was written. -/
theorem readsChange_write8 (at_ : mcu.memDevAt a = some (dev, offset))
    (writable : mcu.Writable dev) (v : UInt8) :
    ∃ mcu', mcuUtilWrite8 mcu a v = .ok true mcu' ∧ ReadsChange mcu mcu' (written8 a v) := by
  obtain ⟨m, array⟩ := writable.array
  have even := toNat_and_not_one a
  have residue := toNat_offset_mod at_
  have bit := toNat_and_one a
  obtain ⟨near, near_at, near_eq⟩ :=
    memDevAt_near at_ (show (a &&& ~~~ 1).toNat / 4 = a.toNat / 4 by omega)
  have stored : mcuUtilWrite8 mcu a v =
      .ok true (dev.setBytes mcu (Function.update m offset.toNat v)) := by
    unfold mcuUtilWrite8
    rw [mcuFetch16_bytes near_at array]
    dsimp only
    rw [mcuWrite16_writable near_at writable array]
    by_cases odd : a &&& 1 = 0
    · rw [if_neg (not_not.mpr odd), store16_replace_low]
      have place : 2 * (near.toNat / 2) = offset.toNat := by
        rw [odd] at bit
        have zero : (0 : UInt32).toNat = 0 := rfl
        omega
      rw [place]
    · rw [if_pos odd, store16_replace_high]
      have ne : (a &&& 1).toNat ≠ 0 := fun zero => odd (UInt32.toNat_inj.mp zero)
      have place : 2 * (near.toNat / 2) + 1 = offset.toNat := by omega
      rw [place]
  refine ⟨_, stored, readsChange_setBytes array ?_ ?_⟩
  · intro b near near_at
    have distance := offset_distance at_ near_at
    have same : near.toNat = offset.toNat ↔ b = a := by
      rw [← UInt32.toNat_inj]
      omega
    unfold written8
    rw [Function.update_apply]
    simp only [same]
    split
    · rfl
    · rfl
  · intro b other away away_at ne
    refine if_neg fun eq => ?_
    rw [eq, at_] at away_at
    cases away_at
    exact ne rfl

end Writes

/-- Halfwords and bytes that are written to RAM or to unlocked flash change exactly what they
address, in the reads of any width. -/
def WritesExact (mcu : Mcu) : Prop :=
  ∀ (a : UInt32) (dev : Device) (offset : UInt32), mcu.memDevAt a = some (dev, offset) →
    mcu.Writable dev →
    (∀ v, ∃ mcu', mcuWrite16 mcu a v = .ok true mcu' ∧ ReadsChange mcu mcu' (written16 a v)) ∧
    (∀ v, ∃ mcu', mcuUtilWrite8 mcu a v = .ok true mcu' ∧ ReadsChange mcu mcu' (written8 a v))

theorem writesExact (mcu : Mcu) : WritesExact mcu := by
  intro a dev offset at_ writable
  exact ⟨readsChange_write16 at_ writable, readsChange_write8 at_ writable⟩

/-- In every state, all views of all words agree and all writes change exactly what they address. -/
structure MemoryViews (mcu : Mcu) : Prop where
  reads : ∀ a, a &&& 3 = 0 → ViewsAgreeAt mcu a
  writes : WritesExact mcu

/-- **The views of the memory**: in every state, writes change exactly what they address, and the
views of a word agree if and only if it is not one of the device for unit tests (`current_test` at
0xEE000000 and `total_tests` at 0xEE000004), or its halves are the same; so all views agree if and
only if both of these words have two same halves. -/
theorem memory_views_iff (mcu : Mcu) :
    WritesExact mcu ∧
      (∀ a, a &&& 3 = 0 → (ViewsAgreeAt mcu a ↔ SameHalvesAt mcu a)) ∧
      (MemoryViews mcu ↔ SameHalves mcu.unittest.currentTest.toUInt32 ∧
        SameHalves mcu.unittest.totalTests.toUInt32) := by
  refine ⟨writesExact mcu, fun a mask => viewsAgreeAt_iff mcu mask, ?_, ?_⟩
  · intro views
    have current := (viewsAgreeAt_iff mcu (by decide)).mp (views.reads 0xEE000000 (by decide))
    have total := (viewsAgreeAt_iff mcu (by decide)).mp (views.reads 0xEE000004 (by decide))
    exact ⟨current.current rfl, total.total rfl⟩
  · rintro ⟨current, total⟩
    refine ⟨fun a mask => ?_, writesExact mcu⟩
    exact (viewsAgreeAt_iff mcu mask).mpr ⟨fun _ => current, fun _ => total⟩

/-- The MCU in which the first of two unit tests is running. -/
def testingMcu : Mcu := { createdMcu with unittest := ⟨0, 2, 0, 0, none, 0, none⟩ }

/-- `total_tests` is 2 as a word, but its halfwords are 0 at 0xEE000004 and 2 at 0xEE000006. -/
theorem halves_exchanged : ¬ MemoryViews testingMcu := by
  intro views
  have word := (views.reads 0xEE000004 rfl 2 0 2 rfl rfl rfl).1
  exact absurd word (by decide)

end TheFirmware.Simulator
