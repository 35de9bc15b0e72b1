import TheFirmware.Simulator.Elf
import TheFirmware.Simulator.Memory

/-!
# What the loader leaves in memory

A file that is open for reading (`OpenFile`) is its content and the failures of the system calls on
it. When `elf_load_fd` returns true, the memory should hold the segments of the file, and otherwise
be as before (`LoadedFrom`). The loader only looks for errors of `read`: behind the end of the file
it goes on with what its buffer held before, so all that it uses has to be there (`Complete`). A
segment may also lie at the total number of tests of the device for unit tests, of which every write
clears the number of the current test. `elfLoadFd_loads_iff` says that nothing else goes wrong.
-/

namespace TheFirmware.Simulator

open LittleEndian

/-! ## Files -/

/-- A file that is open for reading: its content, which of the system calls fail, and what the
buffer of each of them holds before. -/
structure OpenFile : Type where
  content : List UInt8
  fails : Nat → Bool
  before : Nat → Bytes

/-- The buffer after the `n`-th system call has read from a position. -/
def OpenFile.buffer (file : OpenFile) (n position : Nat) : Bytes :=
  fun i => (file.content[position + i]?).getD (file.before n i)

/-- The position after `size` bytes were asked for. -/
def OpenFile.advance (file : OpenFile) (position size : Nat) : Nat :=
  max position (min (position + size) file.content.length)

/-- `sizeof(struct elf_header)` -/
def elfHeaderSize : Nat := 52

/-- `sizeof(struct elf_prog_header)` -/
def elfProgHeaderSize : Nat := 32

/-- The `struct elf_header` in a buffer. -/
def elfHeader (m : Bytes) : ElfHeader where
  ident i := m i
  phoff := load32 m 28
  phentsize := load16 m 42
  phnum := load16 m 44

/-- The `struct elf_prog_header` in a buffer. -/
def elfProgHeader (m : Bytes) : ElfProgHeader where
  type := load32 m 0
  offset := load32 m 4
  paddr := load32 m 12
  filesz := load32 m 16

/-- `read`, for what a buffer holds. -/
def OpenFile.read {α : Type} (file : OpenFile) (size : Nat) (value : Bytes → α) :
    EStateM Stop (Mcu × Nat × Nat) (Option α)
  | (mcu, n, position) =>
      if file.fails n then .ok none (mcu, n + 1, position)
      else .ok (some (value (file.buffer n position))) (mcu, n + 1, file.advance position size)

/-- What the calls do, with the number of system calls that were made and the position in the
file. -/
def OpenFile.handle (file : OpenFile) : (op : ElfOp) → EStateM Stop (Mcu × Nat × Nat) op.Res
  | .lseek offset, (mcu, n, position) =>
      if file.fails n then .ok false (mcu, n + 1, position)
      else .ok true (mcu, n + 1, offset.toNat)
  | .readHeader, s => file.read elfHeaderSize elfHeader s
  | .readProgHeader, s => file.read elfProgHeaderSize elfProgHeader s
  | .readByte, s => file.read 1 (fun m => m 0) s
  | .unlock, (mcu, s) => .ok () (mcuUnlock mcu, s)
  | .lock, (mcu, s) => .ok () (mcuLock mcu, s)
  | .write8 addr byte, (mcu, s) =>
      match mcuUtilWrite8 mcu addr byte with
      | .ok written mcu => .ok written (mcu, s)
      | .error stop mcu => .error stop (mcu, s)

/-! ## Segments -/

/-- The bytes of a file from a position on. -/
def bytesFrom (content : List UInt8) (position : Nat) : Bytes :=
  fun i => (content[position + i]?).getD 0

/-- Where the program header `i` is. -/
def ElfHeader.place (header : ElfHeader) (i : Nat) : Nat :=
  (header.phoff + UInt32.ofNat i * header.phentsize.toUInt32).toNat

/-- The segments to load of `left` program headers, from the program header `i` on. -/
def segmentsFrom (content : List UInt8) (header : ElfHeader) (i left : Nat) : List ElfProgHeader :=
  ((List.range' i left).map fun i => elfProgHeader (bytesFrom content (header.place i))).filter
    (·.type = elfProgTypeLoad)

/-- The ELF header of a file. -/
def headerOf (content : List UInt8) : ElfHeader := elfHeader (bytesFrom content 0)

/-- The segments to load of a file. -/
def segmentsOf (content : List UInt8) : List ElfProgHeader :=
  segmentsFrom content (headerOf content) 0 (headerOf content).phnum.toNat

/-- A segment goes to the address. -/
def ElfProgHeader.Covers (ph : ElfProgHeader) (a : UInt32) : Prop :=
  ∃ j < ph.filesz, a = ph.paddr + j

/-- The byte `j` of the segment `k` is one that no later segment goes to. -/
structure Stays (segments : List ElfProgHeader) (k : Nat) (ph : ElfProgHeader) (j : UInt32) :
    Prop where
  segment : segments[k]? = some ph
  inside : j < ph.filesz
  last : ∀ later ∈ segments.drop (k + 1), ¬ later.Covers (ph.paddr + j)

/-- The headers are in the file. -/
structure HeadersInside (content : List UInt8) : Prop where
  header : elfHeaderSize ≤ content.length
  progHeaders : ∀ i < (headerOf content).phnum.toNat,
    (headerOf content).place i + elfProgHeaderSize ≤ content.length

/-- The headers were read completely, every segment is in memory where no later one is, and the
other bytes of the memory are unchanged. -/
structure LoadedFrom (content : List UInt8) (mcu mcu' : Mcu) : Prop where
  headers : HeadersInside content
  loaded : ∀ k ph j, Stays (segmentsOf content) k ph j →
    ∃ byte, content[ph.offset.toNat + j.toNat]? = some byte ∧
      mcuUtilFetch8 mcu' (ph.paddr + j) = some byte
  kept : ∀ a, (∀ ph ∈ segmentsOf content, ¬ ph.Covers a) →
    mcuUtilFetch8 mcu' a = mcuUtilFetch8 mcu a

/-- The headers are in the file, and every byte of a segment that no later one goes to. -/
structure Complete (content : List UInt8) : Prop where
  headers : HeadersInside content
  bytes : ∀ k ph j, Stays (segmentsOf content) k ph j →
    ph.offset.toNat + j.toNat < content.length

/-- The address is one of `current_test` of the device for unit tests. -/
def OfCurrentTest (a : UInt32) : Prop := a.toNat / 4 = 0xEE000000 / 4

/-- The address is one of `total_tests` of the device for unit tests. -/
def OfTotalTests (a : UInt32) : Prop := a.toNat / 4 = 0xEE000004 / 4

/-! ## Bytes of the memory -/

section Bytes

variable {mcu mcu' : Mcu} {a b : UInt32} {dev : Device} {offset : UInt32} {v : UInt8}

/-- The bytes of `current_test`, where the halves are exchanged. -/
def currentTestByte (mcu : Mcu) : Nat → UInt8 :=
  byte32 (((mcu.unittest.currentTest.toUInt32 >>> 16) &&& 0xFFFF).toUInt16.toUInt32 |||
    (((mcu.unittest.currentTest.toUInt32 >>> 0) &&& 0xFFFF).toUInt16.toUInt32 <<< 16))

/-- The addresses of `current_test`. -/
theorem OfCurrentTest.eq_add (of : OfCurrentTest a) : a = 0xEE000000 + .ofNat (a.toNat % 4) := by
  have base : (0xEE000000 : UInt32).toNat = 0xEE000000 := rfl
  have place := toNat_add_ofNat (a := 0xEE000000) rfl (Nat.mod_lt a.toNat (by decide : 4 > 0))
  unfold OfCurrentTest at of
  exact UInt32.toNat_inj.mp (by omega)

theorem fetch8_currentTest (of : OfCurrentTest a) :
    mcuUtilFetch8 mcu a = some (currentTestByte mcu (a.toNat % 4)) := by
  have small := Nat.mod_lt a.toNat (by decide : 4 > 0)
  have at_ : mcu.memDevAt 0xEE000000 = some (.unittest, 0x0) := rfl
  rcases fetch_unittest at_ rfl rfl with ⟨low, high⟩
  rw [of.eq_add, mcuUtilFetch8_halves rfl low high small, ← of.eq_add]
  rfl

/-- The bytes of `current_test` tell what it is. -/
theorem currentTest_of_fetch8
    (same : ∀ a, OfCurrentTest a → mcuUtilFetch8 mcu' a = mcuUtilFetch8 mcu a) :
    mcu'.unittest.currentTest = mcu.unittest.currentTest := by
  have bytes : ∀ i < 4, currentTestByte mcu' i = currentTestByte mcu i := by
    intro i small
    have place := toNat_add_ofNat (a := 0xEE000000) (by decide) small
    have base : (0xEE000000 : UInt32).toNat = 0xEE000000 := rfl
    have of : OfCurrentTest (0xEE000000 + .ofNat i) := by
      unfold OfCurrentTest
      omega
    have residue : (0xEE000000 + UInt32.ofNat i).toNat % 4 = i := by omega
    have byte := same _ of
    rw [fetch8_currentTest of, fetch8_currentTest of, residue] at byte
    exact Option.some.inj byte
  have words : load32 (currentTestByte mcu') 0 = load32 (currentTestByte mcu) 0 :=
    load32_congr fun i small => by rw [Nat.zero_add, bytes i small]
  unfold currentTestByte at words
  rw [load32_byte32, load32_byte32, ← UInt32.toNat_inj, toNat_halves, toNat_halves, toNat_upper,
    toNat_upper, toNat_lower, toNat_lower] at words
  have first := mcu.unittest.currentTest.toUInt32.toNat_lt
  have second := mcu'.unittest.currentTest.toUInt32.toNat_lt
  have eq : mcu'.unittest.currentTest.toUInt32 = mcu.unittest.currentTest.toUInt32 :=
    UInt32.toNat_inj.mp (by omega)
  exact congrArg UInt32.toInt32 eq

/-- The device for unit tests has two words. -/
theorem fetch16_unittest (at_ : mcu.memDevAt a = some (.unittest, offset))
    (notCurrent : ¬ OfCurrentTest a) (notTotal : ¬ OfTotalTests a) : mcuFetch16 mcu a = none := by
  have base : (0xEE000000 : UInt32).toNat = 0xEE000000 := rfl
  have sum := congrArg UInt32.toNat ((offset_eq_iff at_ offset).mp rfl)
  rw [UInt32.toNat_add, base] at sum
  have word : ∀ k : UInt32, offset &&& ~~~ 2 = k → offset.toNat / 4 = k.toNat / 4 := by
    rintro k rfl
    have whole : offset &&& ~~~ 3 = (offset &&& ~~~ 2) &&& ~~~ 3 := by
      rw [UInt32.and_assoc]
      rfl
    have aligned := congrArg UInt32.toNat whole
    rw [toNat_and_not_three, toNat_and_not_three] at aligned
    omega
  have first : offset &&& ~~~ 2 ≠ 0x0 := by
    intro eq
    have zero : offset.toNat / 4 = 0 := word _ eq
    unfold OfCurrentTest at notCurrent
    omega
  have second : offset &&& ~~~ 2 ≠ 0x4 := by
    intro eq
    have one : offset.toNat / 4 = 1 := word _ eq
    unfold OfTotalTests at notTotal
    omega
  unfold mcuFetch16
  rw [at_]
  show mcuEmuFetch16 (unittestDevRead32 mcu.unittest) offset = none
  unfold mcuEmuFetch16 unittestDevRead32
  rw [if_neg first, if_neg second]

/-- What a fetch sees of the states that differ in the device for unit tests. -/
theorem fetch16_frame (flash : mcu'.flash = mcu.flash) (ram : mcu'.ram = mcu.ram)
    (same : mcu'.memDevAt = mcu.memDevAt) (notCurrent : ¬ OfCurrentTest a)
    (notTotal : ¬ OfTotalTests a) : mcuFetch16 mcu' a = mcuFetch16 mcu a := by
  cases at_ : mcu.memDevAt a with
  | none =>
      unfold mcuFetch16
      rw [same, at_]
  | some found =>
      rcases found with ⟨dev, offset⟩
      have at' := (congrFun same a).trans at_
      cases dev with
      | unittest =>
          rw [fetch16_unittest at_ notCurrent notTotal, fetch16_unittest at' notCurrent notTotal]
      | uart =>
          unfold mcuFetch16
          rw [at_, at']
          rfl
      | ram => rw [mcuFetch16_bytes at_ rfl, mcuFetch16_bytes at' rfl, ram]
      | flash => rw [mcuFetch16_bytes at_ rfl, mcuFetch16_bytes at' rfl, flash]

/-- A word that is written to `total_tests` clears `current_test`. -/
theorem write32_totalTests (mcu : Mcu) (word : UInt32) :
    ∃ mcu', unittestDevWrite32 mcu 0x4 word = .ok true mcu' ∧ mcu'.unlocked = mcu.unlocked ∧
      mcu'.memDevAt = mcu.memDevAt ∧ mcu'.unittest.currentTest = 0 ∧
      ∀ c, c.toNat % 2 = 0 → ¬ OfCurrentTest c → mcuFetch16 mcu' c =
        if c = 0xEE000004 then some ((word >>> 16) &&& 0xFFFF).toUInt16
        else if c = 0xEE000006 then some ((word >>> 0) &&& 0xFFFF).toUInt16
        else mcuFetch16 mcu c := by
  have same := sameMemory_reset { mcu with unittest := { mcu.unittest with
    totalTests := word.toInt32, currentTest := 0, testsFailed := 0, testsSkipped := 0 } }
  refine ⟨_, rfl, same.unlocked, memDevAt_congr same.length, ?_, fun c even notCurrent => ?_⟩
  · rw [same.unittest]
  · split
    · rename_i first
      rw [first]
      show mcuEmuFetch16 (unittestDevRead32 (Prod.snd (mcuReset _)).unittest) 0x4 = _
      rw [same.unittest]
      rfl
    · rename_i notFirst
      split
      · rename_i second
        rw [second]
        show mcuEmuFetch16 (unittestDevRead32 (Prod.snd (mcuReset _)).unittest) 0x6 = _
        rw [same.unittest]
        rfl
      · rename_i notSecond
        refine fetch16_frame same.flash same.ram (memDevAt_congr same.length) notCurrent ?_
        have firstAt : (0xEE000004 : UInt32).toNat = 0xEE000004 := rfl
        have secondAt : (0xEE000006 : UInt32).toNat = 0xEE000006 := rfl
        rw [← UInt32.toNat_inj] at notFirst notSecond
        unfold OfTotalTests
        omega

/-- A halfword that is written to `total_tests` stays beside the other half. -/
theorem write16_totalTests {half : UInt32} (mcu : Mcu) (of : half = 0xEE000004 ∨ half = 0xEE000006)
    (value : UInt16) :
    ∃ mcu', mcuWrite16 mcu half value = .ok true mcu' ∧ mcu'.unlocked = mcu.unlocked ∧
      mcu'.memDevAt = mcu.memDevAt ∧ mcu'.unittest.currentTest = 0 ∧
      ∀ c, c.toNat % 2 = 0 → ¬ OfCurrentTest c →
        mcuFetch16 mcu' c = if c = half then some value else mcuFetch16 mcu c := by
  have bound := value.toNat_lt
  have wordBound := mcu.unittest.totalTests.toUInt32.toNat_lt
  rcases of with rfl | rfl
  · obtain ⟨mcu', written, unlocked, same, cleared, fetched⟩ := write32_totalTests mcu
      ((mcu.unittest.totalTests.toUInt32 &&& (0xFFFF : UInt32)) |||
        ((value.toUInt32 <<< 16) &&& (~~~ 0xFFFF : UInt32)))
    refine ⟨mcu', written, unlocked, same, cleared, fun c even notCurrent => ?_⟩
    rw [fetched c even notCurrent]
    split
    · congr 1
      apply UInt16.toNat_inj.mp
      rw [toNat_upper, toNat_replace_upper]
      omega
    · split
      · rename_i second
        rw [second]
        show _ = some ((mcu.unittest.totalTests.toUInt32 >>> 0) &&& 0xFFFF).toUInt16
        congr 1
        apply UInt16.toNat_inj.mp
        rw [toNat_lower, toNat_lower, toNat_replace_upper]
        omega
      · rfl
  · obtain ⟨mcu', written, unlocked, same, cleared, fetched⟩ := write32_totalTests mcu
      ((mcu.unittest.totalTests.toUInt32 &&& (~~~ 0xFFFF : UInt32)) |||
        ((value.toUInt32 <<< 0) &&& (0xFFFF : UInt32)))
    refine ⟨mcu', written, unlocked, same, cleared, fun c even notCurrent => ?_⟩
    rw [fetched c even notCurrent]
    split
    · rename_i first
      rw [first, if_neg (by decide)]
      show _ = some ((mcu.unittest.totalTests.toUInt32 >>> 16) &&& 0xFFFF).toUInt16
      congr 1
      apply UInt16.toNat_inj.mp
      rw [toNat_upper, toNat_upper, toNat_replace_lower]
      omega
    · split
      · congr 1
        apply UInt16.toNat_inj.mp
        rw [toNat_lower, toNat_replace_lower]
        omega
      · rfl

/-- The halfword that `mcu_util_write8` writes. -/
theorem mcuUtilWrite8_half {old : UInt16} (fetched : mcuFetch16 mcu (a &&& ~~~ 1) = some old)
    (v : UInt8) :
    ∃ value, mcuUtilWrite8 mcu a v = mcuWrite16 mcu (a &&& ~~~ 1) value ∧
      ∀ i < 2, byte16 value i = if i = a.toNat % 2 then v else byte16 old i := by
  have bit := toNat_and_one a
  have bound := v.toNat_lt
  have oldBound := old.toNat_lt
  refine ⟨_, by unfold mcuUtilWrite8; rw [fetched], fun i small => ?_⟩
  by_cases odd : a &&& 1 ≠ 0
  · have one : a.toNat % 2 = 1 := by
      have ne : (a &&& 1).toNat ≠ 0 := fun zero => odd (UInt32.toNat_inj.mp zero)
      omega
    rw [if_pos odd, one]
    obtain rfl | rfl : i = 0 ∨ i = 1 := by omega
    · rw [if_neg (by decide), ← UInt8.toNat_inj, toNat_byte16 _ small, toNat_byte16 _ small,
        toNat_replace_high]
      omega
    · rw [if_pos rfl, ← UInt8.toNat_inj, toNat_byte16 _ small, toNat_replace_high]
      omega
  · have zero : a.toNat % 2 = 0 := by
      rw [← bit, not_not.mp odd]
      rfl
    rw [if_neg odd, zero]
    obtain rfl | rfl : i = 0 ∨ i = 1 := by omega
    · rw [if_pos rfl, ← UInt8.toNat_inj, toNat_byte16 _ small, toNat_replace_low]
      omega
    · rw [if_neg (by decide), ← UInt8.toNat_inj, toNat_byte16 _ small, toNat_byte16 _ small,
        toNat_replace_low]
      omega

end Bytes

/-- What writing bytes, one after the other, leaves: the bytes are there and the others are as
before, except that `current_test` is cleared with the first byte of `total_tests`. -/
structure Loads (mcu mcu' : Mcu) (written : UInt32 → Option UInt8) : Prop where
  unlocked : mcu'.unlocked = mcu.unlocked
  memDevAt : mcu'.memDevAt = mcu.memDevAt
  there : ∀ a v, written a = some v → ¬ OfCurrentTest a ∧ mcuUtilFetch8 mcu' a = some v
  kept : ∀ a, written a = none → ¬ OfCurrentTest a → mcuUtilFetch8 mcu' a = mcuUtilFetch8 mcu a
  cleared : ∀ a, OfTotalTests a → written a ≠ none → mcu'.unittest.currentTest = 0
  counted : (∀ a, OfTotalTests a → written a = none) →
    mcu'.unittest.currentTest = mcu.unittest.currentTest

section Loads

variable {mcu mcu₁ mcu₂ mcu' : Mcu} {first second : UInt32 → Option UInt8} {a : UInt32} {v : UInt8}

theorem Loads.refl (mcu : Mcu) : Loads mcu mcu fun _ => none where
  unlocked := rfl
  memDevAt := rfl
  there _ _ written := nomatch written
  kept _ _ _ := rfl
  cleared _ _ written := absurd rfl written
  counted _ := rfl

theorem Loads.trans (left : Loads mcu mcu₁ first) (right : Loads mcu₁ mcu₂ second) :
    Loads mcu mcu₂ fun a => (second a).or (first a) where
  unlocked := right.unlocked.trans left.unlocked
  memDevAt := right.memDevAt.trans left.memDevAt
  there a v written := by
    cases last : second a with
    | some v' =>
        rw [last] at written
        cases written
        exact right.there a v last
    | none =>
        rw [last, Option.none_or] at written
        rcases left.there a v written with ⟨notCurrent, there⟩
        exact ⟨notCurrent, (right.kept a last notCurrent).trans there⟩
  kept a written notCurrent := by
    rw [Option.or_eq_none_iff] at written
    exact (right.kept a written.1 notCurrent).trans (left.kept a written.2 notCurrent)
  cleared a ofTotal written := by
    by_cases again : ∀ b, OfTotalTests b → second b = none
    · rw [again a ofTotal, Option.none_or] at written
      exact (right.counted again).trans (left.cleared a ofTotal written)
    · push Not at again
      rcases again with ⟨b, ofTotal, written⟩
      exact right.cleared b ofTotal written
  counted untouched := by
    simp only [Option.or_eq_none_iff] at untouched
    exact (right.counted fun a of => (untouched a of).1).trans
      (left.counted fun a of => (untouched a of).2)

/-- The halfword of an address lies in its word. -/
theorem half_word (a : UInt32) : (a &&& ~~~ 1).toNat / 4 = a.toNat / 4 := by
  rw [toNat_and_not_one]
  omega

theorem written8_eq_some {b : UInt32} {c : UInt8} : written8 a v b = some c ↔ b = a ∧ c = v := by
  unfold written8
  split
  · rename_i eq
    rw [Option.some_inj, and_iff_right eq]
    exact eq_comm
  · rename_i ne
    exact iff_of_false (fun written => nomatch written) fun both => ne both.1

/-- The device for unit tests has these addresses. -/
theorem memDevAt_tests (mcu : Mcu) (of : OfCurrentTest a ∨ OfTotalTests a) :
    ∃ offset, mcu.memDevAt a = some (.unittest, offset) := by
  rcases of with current | total
  · exact ⟨_, memDevAt_word (a := 0xEE000000) mcu current⟩
  · exact ⟨_, memDevAt_word (a := 0xEE000004) mcu total⟩

theorem half_cases {w : UInt32} (aligned : w.toNat % 4 = 0) (of : a.toNat / 4 = w.toNat / 4) :
    a &&& ~~~ 1 = w ∨ a &&& ~~~ 1 = w + .ofNat 2 := by
  have even := toNat_and_not_one a
  have next := toNat_add_ofNat aligned (by decide : 2 < 4)
  rw [← UInt32.toNat_inj, ← UInt32.toNat_inj]
  omega

theorem OfCurrentTest.half (of : OfCurrentTest a) :
    a &&& ~~~ 1 = 0xEE000000 ∨ a &&& ~~~ 1 = 0xEE000002 := half_cases rfl of

theorem OfTotalTests.half (of : OfTotalTests a) :
    a &&& ~~~ 1 = 0xEE000004 ∨ a &&& ~~~ 1 = 0xEE000006 := half_cases rfl of

theorem exists_fetch16_tests (mcu : Mcu) (of : OfCurrentTest a ∨ OfTotalTests a) :
    ∃ old, mcuFetch16 mcu (a &&& ~~~ 1) = some old := by
  obtain (first | second) | (first | second) := of.imp OfCurrentTest.half OfTotalTests.half
  · rw [first]
    exact ⟨_, rfl⟩
  · rw [second]
    exact ⟨_, rfl⟩
  · rw [first]
    exact ⟨_, rfl⟩
  · rw [second]
    exact ⟨_, rfl⟩

theorem loads_totalTests (of : OfTotalTests a) (wrote : mcuUtilWrite8 mcu a v = .ok true mcu') :
    Loads mcu mcu' (written8 a v) := by
  have notCurrent : ¬ OfCurrentTest a := by
    unfold OfTotalTests at of
    unfold OfCurrentTest
    omega
  rcases exists_fetch16_tests mcu (.inr of) with ⟨old, fetched⟩
  rcases mcuUtilWrite8_half fetched v with ⟨value, asHalf, bytes⟩
  obtain ⟨stored, written, unlocked, same, cleared, halves⟩ := write16_totalTests mcu of.half value
  rw [asHalf, written] at wrote
  cases wrote
  -- the reads of bytes after the write
  have reads : ∀ b, ¬ OfCurrentTest b →
      mcuUtilFetch8 mcu' b = if b = a then some v else mcuUtilFetch8 mcu b := by
    intro b away
    have away : ¬ OfCurrentTest (b &&& ~~~ 1) := by
      unfold OfCurrentTest
      rw [half_word]
      exact away
    have even := toNat_and_not_one b
    rw [mcuUtilFetch8_eq, mcuUtilFetch8_eq, halves _ (by omega) away]
    by_cases here : b &&& ~~~ 1 = a &&& ~~~ 1
    · have place := congrArg UInt32.toNat here
      rw [toNat_and_not_one, toNat_and_not_one] at place
      have same : b.toNat % 2 = a.toNat % 2 ↔ b = a := by
        rw [← UInt32.toNat_inj]
        omega
      rw [if_pos here, here, fetched, Option.map_some, Option.map_some,
        bytes _ (Nat.mod_lt _ Nat.two_pos)]
      simp only [same]
      split
      · rfl
      · rfl
    · have ne : b ≠ a := fun eq => here (congrArg (· &&& ~~~ 1) eq)
      rw [if_neg here, if_neg ne]
  refine ⟨unlocked, same, fun b c isWritten => ?_, fun b isWritten away => ?_, fun _ _ _ => cleared,
    fun untouched => ?_⟩
  · rcases written8_eq_some.mp isWritten with ⟨rfl, rfl⟩
    exact ⟨notCurrent, by rw [reads b notCurrent, if_pos rfl]⟩
  · rw [reads b away, if_neg]
    rintro rfl
    rw [written8_eq_some.mpr ⟨rfl, rfl⟩] at isWritten
    cases isWritten
  · have none := untouched a of
    rw [written8_eq_some.mpr ⟨rfl, rfl⟩] at none
    cases none

theorem write8_currentTest (mcu : Mcu) (of : OfCurrentTest a) (v : UInt8) :
    mcuUtilWrite8 mcu a v = .ok false mcu := by
  rcases exists_fetch16_tests mcu (.inl of) with ⟨old, fetched⟩
  rcases mcuUtilWrite8_half fetched v with ⟨value, asHalf, _⟩
  rw [asHalf]
  rcases of.half with eq | eq
  · rw [eq]
    rfl
  · rw [eq]
    rfl

theorem write8_none (none : mcuFetch16 mcu (a &&& ~~~ 1) = none) (v : UInt8) :
    mcuUtilWrite8 mcu a v = .ok false mcu := by
  unfold mcuUtilWrite8
  rw [none]

theorem loads_writable {dev : Device} {offset : UInt32}
    (at_ : mcu.memDevAt a = some (dev, offset)) (writable : mcu.Writable dev)
    (wrote : mcuUtilWrite8 mcu a v = .ok true mcu') : Loads mcu mcu' (written8 a v) := by
  rcases writable.array with ⟨m, array⟩
  rcases readsChange_write8 at_ writable v with ⟨stored, written, reads⟩
  rw [written] at wrote
  cases wrote
  rcases memDevAt_near at_ (half_word a) with ⟨near, near_at, _⟩
  -- it is a write to the array of bytes, so nothing but this has changed
  rcases mcuUtilWrite8_half (mcuFetch16_bytes near_at array) v with ⟨value, asHalf, _⟩
  rw [asHalf, mcuWrite16_writable near_at writable array] at written
  cases written
  have notTests : ¬ OfCurrentTest a ∧ ¬ OfTotalTests a := by
    rw [← not_or]
    intro of
    rcases memDevAt_tests mcu of with ⟨_, tests_at⟩
    rw [at_] at tests_at
    cases tests_at
    cases array
  have here : mcuUtilFetch8 mcu a = some (m offset.toNat) := mcuUtilFetch8_bytes at_ array
  have unlocked : (dev.setBytes mcu (store16 m (2 * (near.toNat / 2)) value)).unlocked =
      mcu.unlocked := by
    cases dev with
    | ram => rfl
    | flash => rfl
    | unittest => rfl
    | uart => rfl
  refine ⟨unlocked, Device.memDevAt_setBytes _ _ _, fun b c isWritten => ?_,
    fun b isWritten _ => ?_, fun b ofTotal isWritten => ?_, fun _ => ?_⟩
  · rcases written8_eq_some.mp isWritten with ⟨rfl, rfl⟩
    refine ⟨notTests.1, ?_⟩
    rw [reads.fetch8, isWritten, here]
    rfl
  · rw [reads.fetch8, isWritten]
    exact congrFun Option.map_id _
  · rcases Option.ne_none_iff_exists'.mp isWritten with ⟨_, isWritten⟩
    rcases written8_eq_some.mp isWritten with ⟨rfl, _⟩
    exact absurd ofTotal notTests.2
  · rw [Device.unittest_setBytes]

/-- A byte that `mcu_util_write8` writes while the flash is unlocked. -/
theorem loads_write8 (unlocked : mcu.unlocked = true)
    (wrote : mcuUtilWrite8 mcu a v = .ok true mcu') : Loads mcu mcu' (written8 a v) := by
  by_cases ofTotal : OfTotalTests a
  · exact loads_totalTests ofTotal wrote
  · cases at_ : mcu.memDevAt a with
    | none =>
        have none : mcuFetch16 mcu (a &&& ~~~ 1) = none := by
          unfold mcuFetch16
          rw [memDevAt_word mcu (half_word a), at_]
          rfl
        rw [write8_none none] at wrote
        cases wrote
    | some found =>
        rcases found with ⟨dev, offset⟩
        rcases memDevAt_near at_ (half_word a) with ⟨near, near_at, _⟩
        cases dev with
        | unittest =>
            by_cases ofCurrent : OfCurrentTest a
            · rw [write8_currentTest mcu ofCurrent] at wrote
              cases wrote
            · have none := fetch16_unittest near_at
                (by unfold OfCurrentTest; rw [half_word]; exact ofCurrent)
                (by unfold OfTotalTests; rw [half_word]; exact ofTotal)
              rw [write8_none none] at wrote
              cases wrote
        | uart =>
            have none : mcuFetch16 mcu (a &&& ~~~ 1) = none := by
              unfold mcuFetch16
              rw [near_at]
              rfl
            rw [write8_none none] at wrote
            cases wrote
        | ram => exact loads_writable at_ (.inl rfl) wrote
        | flash => exact loads_writable at_ (.inr ⟨rfl, unlocked⟩) wrote

end Loads

/-! ## The run of the loader -/

open Loader

/-- Where the file has the byte that a segment puts at an address, from its byte `j` on. -/
def ElfProgHeader.sourceFrom (ph : ElfProgHeader) (j : Nat) (a : UInt32) : Option Nat :=
  if j ≤ (a - ph.paddr).toNat ∧ (a - ph.paddr).toNat < ph.filesz.toNat then
    some (ph.offset.toNat + (a - ph.paddr).toNat)
  else none

/-- Where the file has the byte that the segments put at an address, one after the other. -/
def sourceOf : List ElfProgHeader → UInt32 → Option Nat
  | [], _ => none
  | ph :: segments, a => (sourceOf segments a).or (ph.sourceFrom 0 a)

/-- The bytes that are written come from these places of the file, as far as it has them. -/
structure FromFile (content : List UInt8) (written : UInt32 → Option UInt8)
    (source : UInt32 → Option Nat) : Prop where
  none_iff : ∀ a, written a = none ↔ source a = none
  byte : ∀ a v place, written a = some v → source a = some place → place < content.length →
    content[place]? = some v

theorem FromFile.trans {content : List UInt8} {first second : UInt32 → Option UInt8}
    {source source' : UInt32 → Option Nat} (left : FromFile content first source)
    (right : FromFile content second source') :
    FromFile content (fun a => (second a).or (first a)) fun a => (source' a).or (source a) where
  none_iff a := by
    rw [Option.or_eq_none_iff, Option.or_eq_none_iff, left.none_iff, right.none_iff]
  byte a v place written from_ inside := by
    cases last : second a with
    | none =>
        rw [last, Option.none_or] at written
        rw [(right.none_iff a).mp last, Option.none_or] at from_
        exact left.byte a v place written from_ inside
    | some v' =>
        obtain ⟨place', from'⟩ := Option.ne_none_iff_exists'.mp
          fun none => nomatch last.symm.trans ((right.none_iff a).mpr none)
        rw [last, Option.some_or] at written
        rw [from', Option.some_or] at from_
        cases written
        cases from_
        exact right.byte a v place last from' inside

section Run

variable {file : OpenFile} {mcu mcu' : Mcu} {n position : Nat} {s : Mcu × Nat × Nat}
  {ph : ElfProgHeader} {header : ElfHeader} {rest : Loader Bool} {left : Nat} {i : UInt16}
  {j : UInt32}

/-- The buffer holds the file as far as it goes. -/
theorem OpenFile.buffer_eq {k size : Nat} (inside : position + size ≤ file.content.length)
    (small : k < size) : file.buffer n position k = bytesFrom file.content position k := by
  unfold OpenFile.buffer bytesFrom
  rw [List.getElem?_eq_getElem (by omega), Option.getD_some, Option.getD_some]

theorem elfHeader_buffer (inside : position + elfHeaderSize ≤ file.content.length) :
    elfHeader (file.buffer n position) = elfHeader (bytesFrom file.content position) := by
  have same : ∀ k < 52, file.buffer n position k = bytesFrom file.content position k :=
    fun k small => OpenFile.buffer_eq inside small
  unfold elfHeader
  congr 1
  · funext k
    exact same k (by omega)
  · exact load32_congr fun k small => same _ (by omega)
  · exact load16_congr fun k small => same _ (by omega)
  · exact load16_congr fun k small => same _ (by omega)

theorem elfProgHeader_buffer (inside : position + elfProgHeaderSize ≤ file.content.length) :
    elfProgHeader (file.buffer n position) = elfProgHeader (bytesFrom file.content position) := by
  have same : ∀ k < 32, file.buffer n position k = bytesFrom file.content position k :=
    fun k small => OpenFile.buffer_eq inside small
  unfold elfProgHeader
  congr 1
  · exact load32_congr fun k small => same _ (by omega)
  · exact load32_congr fun k small => same _ (by omega)
  · exact load32_congr fun k small => same _ (by omega)
  · exact load32_congr fun k small => same _ (by omega)

theorem handle_lseek (offset : UInt32) :
    file.handle (.lseek offset) (mcu, n, position) =
      if file.fails n then .ok false (mcu, n + 1, position)
      else .ok true (mcu, n + 1, offset.toNat) := rfl

/-- One byte of a segment is read and written. -/
theorem run_elfLoadBytes_succ
    (ran : (elfLoadBytes ph rest (left + 1) j).run file.handle (mcu, n, position) = .ok true s) :
    ∃ mcu₁, mcuUtilWrite8 mcu (ph.paddr + j) (file.buffer n position 0) = .ok true mcu₁ ∧
      (elfLoadBytes ph rest left (j + 1)).run file.handle
        (mcu₁, n + 1, file.advance position 1) = .ok true s := by
  have read : file.handle .readByte (mcu, n, position) =
      if file.fails n then .ok none (mcu, n + 1, position)
      else .ok (some (file.buffer n position 0)) (mcu, n + 1, file.advance position 1) := rfl
  have ran := Proc.run_call_ite read ran fun stopped => by cases stopped
  obtain ⟨written, mcu₁, wrote, _⟩ :=
    mcuUtilWrite8_returns mcu (ph.paddr + j) (file.buffer n position 0)
  have called : file.handle (.write8 (ph.paddr + j) (file.buffer n position 0))
      (mcu, n + 1, file.advance position 1) =
        .ok written (mcu₁, n + 1, file.advance position 1) := by
    unfold OpenFile.handle
    dsimp only
    rw [wrote]
  have ran := (Proc.run_call_ok _ called).symm.trans ran
  cases written with
  | true => exact ⟨mcu₁, wrote, ran⟩
  | false => cases ran

/-- One program header is read, and its segment, when it is one to load. -/
theorem run_elfLoadSegments_succ
    (ran : (elfLoadSegments header (left + 1) i).run file.handle (mcu, n, position) = .ok true s) :
    ∃ ph, ph = elfProgHeader (file.buffer (n + 1) (header.place i.toNat)) ∧
      if ph.type = elfProgTypeLoad then
        (elfLoadBytes ph (elfLoadSegments header left (i + 1)) ph.filesz.toNat 0).run file.handle
          (mcu, n + 3, ph.offset.toNat) = .ok true s
      else
        (elfLoadSegments header left (i + 1)).run file.handle
          (mcu, n + 2, file.advance (header.place i.toNat) elfProgHeaderSize) = .ok true s := by
  have place : (header.phoff + i.toUInt32 * header.phentsize.toUInt32).toNat =
      header.place i.toNat := by
    have eq : UInt32.ofNat i.toNat = i.toUInt32 := by
      rw [← UInt16.toNat_toUInt32, UInt32.ofNat_toNat]
    unfold ElfHeader.place
    rw [eq]
  refine ⟨_, rfl, ?_⟩
  have ran := Proc.run_call_ite (handle_lseek _) ran fun stopped => by cases stopped
  rw [place] at ran
  have read : file.handle .readProgHeader (mcu, n + 1, header.place i.toNat) =
      if file.fails (n + 1) then .ok none (mcu, n + 2, header.place i.toNat)
      else .ok (some (elfProgHeader (file.buffer (n + 1) (header.place i.toNat))))
        (mcu, n + 2, file.advance (header.place i.toNat) elfProgHeaderSize) := rfl
  have ran := Proc.run_call_ite read ran fun stopped => by cases stopped
  change Proc.run file.handle (if _ then _ else _) _ = _ at ran
  split at ran
  · rename_i load
    rw [if_pos load]
    exact Proc.run_call_ite (handle_lseek _) ran fun stopped => by cases stopped
  · rename_i other
    rw [if_neg other]
    exact ran

/-- The header is read. -/
theorem run_elfLoadFd (ran : elfLoadFd.run file.handle (mcu, n, position) = .ok true s) :
    ∃ header, header = elfHeader (file.buffer (n + 1) 0) ∧
      (elfLoadSegments header header.phnum.toNat 0).run file.handle
        (mcuUnlock mcu, n + 2, file.advance 0 elfHeaderSize) = .ok true s := by
  refine ⟨_, rfl, ?_⟩
  have ran := Proc.run_call_ite (handle_lseek 0) ran fun stopped => by cases stopped
  have read : file.handle .readHeader (mcu, n + 1, 0) =
      if file.fails (n + 1) then .ok none (mcu, n + 2, 0)
      else .ok (some (elfHeader (file.buffer (n + 1) 0)))
        (mcu, n + 2, file.advance 0 elfHeaderSize) := rfl
  have ran := Proc.run_call_ite read ran fun stopped => by cases stopped
  change Proc.run file.handle (if _ then _ else _) _ = _ at ran
  split at ran
  · cases ran
  · exact ran

/-- The bytes of a segment from its byte `j` on, where the position follows them to the end of the
file. -/
theorem loads_elfLoadBytes (unlocked : mcu.unlocked = true)
    (fits : j.toNat + left = ph.filesz.toNat)
    (follows : ph.offset.toNat + j.toNat ≤ file.content.length →
      position = ph.offset.toNat + j.toNat)
    (ran : (elfLoadBytes ph rest left j).run file.handle (mcu, n, position) = .ok true s) :
    ∃ mcu₁ n₁ position₁ written, rest.run file.handle (mcu₁, n₁, position₁) = .ok true s ∧
      Loads mcu mcu₁ written ∧ FromFile file.content written (ph.sourceFrom j.toNat) := by
  induction left generalizing mcu n position j with
  | zero =>
      refine ⟨mcu, n, position, _, ran, .refl mcu, fun a => ?_,
        fun _ _ _ written => nomatch written⟩
      exact iff_of_true rfl (if_neg (by omega))
  | succ left ih =>
      rcases run_elfLoadBytes_succ ran with ⟨mcu₁, wrote, ran⟩
      have first := loads_write8 unlocked wrote
      have bound := ph.filesz.toNat_lt
      have one : (1 : UInt32).toNat = 1 := rfl
      have next : (j + 1).toNat = j.toNat + 1 := by
        rw [UInt32.toNat_add, one]
        omega
      have read : FromFile file.content (written8 (ph.paddr + j) (file.buffer n position 0))
          fun a => if a = ph.paddr + j then some (ph.offset.toNat + j.toNat) else none := by
        refine ⟨fun a => ?_, fun a v place isWritten from_ inside => ?_⟩
        · unfold written8
          split
          · exact iff_of_false (fun none => nomatch none) fun none => nomatch none
          · exact iff_of_true rfl rfl
        · rcases written8_eq_some.mp isWritten with ⟨rfl, rfl⟩
          rw [if_pos rfl] at from_
          cases from_
          unfold OpenFile.buffer
          rw [follows (Nat.le_of_lt inside), Nat.add_zero, List.getElem?_eq_getElem inside]
          rfl
      obtain ⟨mcu₂, n₂, position₂, written, ran, loads, from_⟩ := ih (first.unlocked.trans unlocked)
        (by omega) (by unfold OpenFile.advance; omega) ran
      refine ⟨mcu₂, n₂, position₂, _, ran, first.trans loads, ?_⟩
      have source : ∀ a, (ph.sourceFrom (j + 1).toNat a).or
          (if a = ph.paddr + j then some (ph.offset.toNat + j.toNat) else none) =
            ph.sourceFrom j.toNat a := by
        intro a
        have here : a = ph.paddr + j ↔ (a - ph.paddr).toNat = j.toNat := by
          rw [UInt32.toNat_inj]
          constructor
          · rintro rfl
            grind
          · intro eq
            grind
        simp only [here, next]
        unfold ElfProgHeader.sourceFrom
        by_cases this : (a - ph.paddr).toNat = j.toNat
        · rw [if_neg (by omega), if_pos this, if_pos (by omega), Option.none_or, this]
        · rw [if_neg this, Option.or_none]
          refine if_congr ?_ rfl rfl
          omega
      rw [← funext source]
      exact read.trans from_

theorem loads_elfLoadSegments (unlocked : mcu.unlocked = true)
    (fits : i.toNat + left = header.phnum.toNat)
    (inside : ∀ k < header.phnum.toNat,
      header.place k + elfProgHeaderSize ≤ file.content.length)
    (ran : (elfLoadSegments header left i).run file.handle (mcu, n, position) = .ok true s) :
    ∃ mcu₁ rest written, s = (mcuLock mcu₁, rest) ∧ Loads mcu mcu₁ written ∧
      FromFile file.content written (sourceOf (segmentsFrom file.content header i.toNat left)) := by
  induction left generalizing mcu n position i with
  | zero =>
      cases ran
      exact ⟨mcu, (n, position), _, rfl, .refl mcu, fun _ => iff_of_true rfl rfl,
        fun _ _ _ written => nomatch written⟩
  | succ left ih =>
      rcases run_elfLoadSegments_succ ran with ⟨ph, isPh, ran⟩
      have bound := header.phnum.toNat_lt
      have one : (1 : UInt16).toNat = 1 := rfl
      have next : (i + 1).toNat = i.toNat + 1 := by
        rw [UInt16.toNat_add, one]
        omega
      have read : ph = elfProgHeader (bytesFrom file.content (header.place i.toNat)) := by
        rw [isPh]
        exact elfProgHeader_buffer (inside i.toNat (by omega))
      have segments : segmentsFrom file.content header i.toNat (left + 1) =
          if ph.type = elfProgTypeLoad then
            ph :: segmentsFrom file.content header (i + 1).toNat left
          else segmentsFrom file.content header (i + 1).toNat left := by
        unfold segmentsFrom
        rw [next, List.range'_succ, List.map_cons, ← read, List.filter_cons]
        simp only [decide_eq_true_eq]
      rw [segments]
      split at ran
      · rename_i load
        rw [if_pos load]
        obtain ⟨mcu₁, n₁, position₁, first, ran, loads, from_⟩ := loads_elfLoadBytes unlocked
          (by rw [UInt32.toNat_zero, Nat.zero_add]) (fun _ => rfl) ran
        obtain ⟨mcu₂, rest, second, eq, loads', from'⟩ := ih (loads.unlocked.trans unlocked)
          (by omega) ran
        exact ⟨mcu₂, rest, _, eq, loads.trans loads', from_.trans from'⟩
      · rename_i other
        rw [if_neg other]
        exact ih unlocked (by omega) ran

end Run

/-! ## What is in memory -/

/-- One of the segments goes to `total_tests`. -/
def CoversTotalTests (segments : List ElfProgHeader) : Prop :=
  ∃ ph ∈ segments, ∃ a, OfTotalTests a ∧ ph.Covers a

section Segments

variable {segments : List ElfProgHeader} {ph : ElfProgHeader} {a : UInt32} {place : Nat}

theorem sourceFrom_eq_some_iff : ph.sourceFrom 0 a = some place ↔
    ∃ j < ph.filesz, a = ph.paddr + j ∧ place = ph.offset.toNat + j.toNat := by
  unfold ElfProgHeader.sourceFrom
  constructor
  · intro from_
    split at from_
    · rename_i inside
      cases from_
      refine ⟨a - ph.paddr, UInt32.lt_iff_toNat_lt.mpr inside.2, ?_, rfl⟩
      grind
    · cases from_
  · rintro ⟨j, inside, rfl, rfl⟩
    have distance : ph.paddr + j - ph.paddr = j := by grind
    rw [distance, if_pos ⟨Nat.zero_le _, UInt32.lt_iff_toNat_lt.mp inside⟩]

theorem sourceFrom_eq_none_iff : ph.sourceFrom 0 a = none ↔ ¬ ph.Covers a := by
  rw [Option.eq_none_iff_forall_ne_some]
  constructor
  · rintro none ⟨j, inside, eq⟩
    exact none _ (sourceFrom_eq_some_iff.mpr ⟨j, inside, eq, rfl⟩)
  · intro uncovered place from_
    rcases sourceFrom_eq_some_iff.mp from_ with ⟨j, inside, eq, _⟩
    exact uncovered ⟨j, inside, eq⟩

theorem sourceOf_eq_none_iff : sourceOf segments a = none ↔ ∀ ph ∈ segments, ¬ ph.Covers a := by
  induction segments with
  | nil => exact iff_of_true rfl fun _ member => nomatch member
  | cons ph segments ih =>
      unfold sourceOf
      rw [Option.or_eq_none_iff, ih, sourceFrom_eq_none_iff, List.forall_mem_cons, and_comm]

theorem sourceOf_eq_some_iff : sourceOf segments a = some place ↔
    ∃ k ph j, Stays segments k ph j ∧ a = ph.paddr + j ∧ place = ph.offset.toNat + j.toNat := by
  induction segments with
  | nil => exact iff_of_false (fun from_ => nomatch from_) fun ⟨_, _, _, stays, _⟩ =>
      nomatch stays.segment
  | cons ph segments ih =>
      unfold sourceOf
      rw [Option.or_eq_some_iff, ih, sourceOf_eq_none_iff, sourceFrom_eq_some_iff]
      constructor
      · rintro (⟨k, ph', j, stays, eq⟩ | ⟨last, j, inside, rfl, eq⟩)
        · exact ⟨k + 1, ph', j, ⟨stays.segment, stays.inside, stays.last⟩, eq⟩
        · exact ⟨0, ph, j, ⟨rfl, inside, last⟩, rfl, eq⟩
      · rintro ⟨k, ph', j, stays, rfl, eq⟩
        cases k with
        | zero =>
            cases stays.segment
            exact .inr ⟨stays.last, j, stays.inside, rfl, eq⟩
        | succ k =>
            exact .inl ⟨k, ph', j, ⟨stays.segment, stays.inside, stays.last⟩, rfl, eq⟩

end Segments

section Memory

variable {content : List UInt8} {segments : List ElfProgHeader} {mcu mcu' : Mcu}
  {written : UInt32 → Option UInt8}

/-- The bytes that are written are those of the file exactly where it has them. -/
theorem loaded_iff (loads : Loads mcu mcu' written)
    (from_ : FromFile content written (sourceOf segments)) :
    (∀ k ph j, Stays segments k ph j →
      ∃ byte, content[ph.offset.toNat + j.toNat]? = some byte ∧
        mcuUtilFetch8 mcu' (ph.paddr + j) = some byte) ↔
      ∀ k ph j, Stays segments k ph j → ph.offset.toNat + j.toNat < content.length := by
  constructor
  · intro loaded k ph j stays
    rcases loaded k ph j stays with ⟨byte, has, _⟩
    exact (List.getElem?_eq_some_iff.mp has).1
  · intro complete k ph j stays
    have source := sourceOf_eq_some_iff.mpr ⟨k, ph, j, stays, rfl, rfl⟩
    obtain ⟨v, isWritten⟩ := Option.ne_none_iff_exists'.mp
      fun none => nomatch source.symm.trans ((from_.none_iff _).mp none)
    exact ⟨v, from_.byte _ v _ isWritten source (complete k ph j stays),
      (loads.there _ v isWritten).2⟩

/-- The other bytes are kept exactly when `current_test` is. -/
theorem kept_iff_tests (loads : Loads mcu mcu' written)
    (from_ : FromFile content written (sourceOf segments)) :
    (∀ a, (∀ ph ∈ segments, ¬ ph.Covers a) → mcuUtilFetch8 mcu' a = mcuUtilFetch8 mcu a) ↔
      (CoversTotalTests segments → mcu.unittest.currentTest = 0) := by
  have written_iff : ∀ a, written a = none ↔ ∀ ph ∈ segments, ¬ ph.Covers a :=
    fun a => (from_.none_iff a).trans sourceOf_eq_none_iff
  have cleared : CoversTotalTests segments → mcu'.unittest.currentTest = 0 := by
    rintro ⟨ph, member, a, ofTotal, covers⟩
    exact loads.cleared a ofTotal fun none => (written_iff a).mp none ph member covers
  have counted : ¬ CoversTotalTests segments →
      mcu'.unittest.currentTest = mcu.unittest.currentTest := by
    intro uncovered
    refine loads.counted fun a ofTotal => (written_iff a).mpr fun ph member covers => ?_
    exact uncovered ⟨ph, member, a, ofTotal, covers⟩
  constructor
  · intro kept covered
    rw [← cleared covered]
    refine (currentTest_of_fetch8 fun a ofCurrent => kept a ((written_iff a).mp ?_)).symm
    rw [Option.eq_none_iff_forall_ne_some]
    exact fun v isWritten => (loads.there a v isWritten).1 ofCurrent
  · intro zero a uncovered
    by_cases ofCurrent : OfCurrentTest a
    · have same : mcu'.unittest.currentTest = mcu.unittest.currentTest := by
        by_cases covered : CoversTotalTests segments
        · exact (cleared covered).trans (zero covered).symm
        · exact counted covered
      rw [fetch8_currentTest ofCurrent, fetch8_currentTest ofCurrent]
      unfold currentTestByte
      rw [same]
    · exact loads.kept a ((written_iff a).mpr uncovered) ofCurrent

end Memory

/-- **The loader is faithful** to every file that it accepts, if and only if all that it uses is in
the file and no segment at `total_tests` clears the number of the current test. -/
theorem elfLoadFd_loads_iff (file : OpenFile) (mcu mcu' : Mcu) (n n' position position' : Nat)
    (ran : elfLoadFd.run file.handle (mcu, n, position) = .ok true (mcu', n', position')) :
    LoadedFrom file.content mcu mcu' ↔
      Complete file.content ∧
        (CoversTotalTests (segmentsOf file.content) → mcu.unittest.currentTest = 0) := by
  by_cases headers : HeadersInside file.content
  · rcases run_elfLoadFd ran with ⟨header, isHeader, ran⟩
    have read : header = headerOf file.content := by
      rw [isHeader]
      exact elfHeader_buffer (by rw [Nat.zero_add]; exact headers.header)
    subst read
    obtain ⟨mcu₁, rest, written, eq, loads, from_⟩ :=
      loads_elfLoadSegments rfl (Nat.zero_add _) headers.progHeaders ran
    cases eq
    have loaded := loaded_iff loads from_
    have kept := kept_iff_tests loads from_
    constructor
    · intro faithful
      exact ⟨⟨headers, loaded.mp faithful.loaded⟩, kept.mp faithful.kept⟩
    · rintro ⟨complete, zero⟩
      exact ⟨headers, loaded.mpr complete.bytes, kept.mpr zero⟩
  · exact iff_of_false (fun faithful => headers faithful.headers)
      fun holds => headers holds.1.headers

section OneSegment

variable {content : List UInt8} {ph : ElfProgHeader}

/-- A file with one segment has all bytes if it is long enough. -/
theorem complete_of_segment (headers : HeadersInside content) (one : segmentsOf content = [ph])
    (inside : ph.offset.toNat + ph.filesz.toNat ≤ content.length) : Complete content where
  headers := headers
  bytes k ph' j stays := by
    have segment := stays.segment
    have below := UInt32.lt_iff_toNat_lt.mp stays.inside
    rw [one, List.getElem?_singleton] at segment
    split at segment
    · cases segment
      omega
    · cases segment

/-- A segment in front of `total_tests` does not cover it. -/
theorem apart_of_segment (below : ph.paddr.toNat + ph.filesz.toNat ≤ 0xEE000004) :
    ¬ CoversTotalTests [ph] := by
  rintro ⟨ph', member, a, ofTotal, j, inside, rfl⟩
  rw [List.mem_singleton.mp member] at ofTotal inside
  have small := UInt32.lt_iff_toNat_lt.mp inside
  unfold OfTotalTests at ofTotal
  rw [UInt32.toNat_add] at ofTotal
  omega

end OneSegment

/-- An ELF file with one segment, of one byte, that goes to the start of the RAM. Behind the headers
there is `data`. -/
def oneByteElf (data : List UInt8) : OpenFile where
  content :=
    [0x7F, 0x45, 0x4C, 0x46, 0, 0, 0, 0, 0, 0, 0, 0, 0, 0, 0, 0, 0, 0, 0, 0, 0, 0, 0, 0, 0, 0, 0, 0,
      52, 0, 0, 0, 0, 0, 0, 0, 0, 0, 0, 0, 0, 0, 32, 0, 1, 0, 0, 0, 0, 0, 0, 0,
      1, 0, 0, 0, 84, 0, 0, 0, 0, 0, 0, 0, 0, 0, 0, 0x10, 1, 0, 0, 0, 0, 0, 0, 0, 0, 0, 0, 0,
      0, 0, 0, 0] ++ data
  fails _ := false
  before _ _ := 0

theorem elfLoadFd_loads_byte :
    ∃ mcu' n position,
      elfLoadFd.run (oneByteElf [0x2A]).handle (createdMcu, 0, 0) = .ok true (mcu', n, position) ∧
        LoadedFrom (oneByteElf [0x2A]).content createdMcu mcu' := by
  obtain ⟨mcu', n, position, ran⟩ : ∃ mcu' n position,
      elfLoadFd.run (oneByteElf [0x2A]).handle (createdMcu, 0, 0) = .ok true (mcu', n, position) :=
    ⟨_, _, _, rfl⟩
  have one : segmentsOf (oneByteElf [0x2A]).content =
      [elfProgHeader (bytesFrom (oneByteElf [0x2A]).content 52)] := rfl
  have complete : Complete (oneByteElf [0x2A]).content :=
    complete_of_segment ⟨by decide, by decide +kernel⟩ one (by decide)
  have apart : ¬ CoversTotalTests (segmentsOf (oneByteElf [0x2A]).content) := by
    rw [one]
    exact apart_of_segment (by decide)
  exact ⟨mcu', n, position, ran, (elfLoadFd_loads_iff _ _ _ _ _ _ _ ran).mpr
    ⟨complete, fun covers => absurd covers apart⟩⟩

/-- Without the byte of its segment, the file is loaded all the same. -/
theorem not_loadedFrom_truncated :
    ∃ mcu' n position,
      elfLoadFd.run (oneByteElf []).handle (createdMcu, 0, 0) = .ok true (mcu', n, position) ∧
        ¬ LoadedFrom (oneByteElf []).content createdMcu mcu' := by
  obtain ⟨mcu', n, position, ran⟩ : ∃ mcu' n position,
      elfLoadFd.run (oneByteElf []).handle (createdMcu, 0, 0) = .ok true (mcu', n, position) :=
    ⟨_, _, _, rfl⟩
  refine ⟨mcu', n, position, ran, fun faithful => ?_⟩
  have segment : segmentsOf (oneByteElf []).content =
      [elfProgHeader (bytesFrom (oneByteElf []).content 52)] := rfl
  have stays : Stays (segmentsOf (oneByteElf []).content) 0
      (elfProgHeader (bytesFrom (oneByteElf []).content 52)) 0 := by
    rw [segment]
    exact ⟨rfl, by decide, fun _ member => nomatch member⟩
  rcases faithful.loaded _ _ _ stays with ⟨byte, has, _⟩
  cases has

end TheFirmware.Simulator
