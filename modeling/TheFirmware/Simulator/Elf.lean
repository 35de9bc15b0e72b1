import TheFirmware.Simulator.Step

/-!
# Loading a file

`elf_load_fd` copies the segments of an ELF file to the memory, for which it unlocks the flash. The
file is what the system calls return, in any order of successes and failures (`File`). A read that
returns less than was asked for leaves the rest of its buffer, so what the buffer holds after a read
is any value.
-/

namespace TheFirmware.Simulator

/-- `struct elf_header`, with the fields that are read. -/
structure ElfHeader : Type where
  ident : Fin 16 → UInt8
  phoff : UInt32
  phentsize : UInt16
  phnum : UInt16

/-- `struct elf_prog_header`, with the fields that are read. -/
structure ElfProgHeader : Type where
  type : UInt32
  offset : UInt32
  paddr : UInt32
  filesz : UInt32

/-- The calls that the loader makes. -/
inductive ElfOp : Type
  | lseek (offset : UInt32)
  | readHeader
  | readProgHeader
  | readByte
  | unlock
  | lock
  | write8 (addr : UInt32) (byte : UInt8)

/-- What the calls return: whether a system call fails, and what it has read. -/
def ElfOp.Res : ElfOp → Type
  | lseek _ => Bool
  | readHeader => Option ElfHeader
  | readProgHeader => Option ElfProgHeader
  | readByte => Option UInt8
  | unlock => Unit
  | lock => Unit
  | write8 _ _ => Bool

/-- What the `n`-th system call on a file does. -/
structure File : Type where
  lseek : Nat → UInt32 → Bool
  readHeader : Nat → Option ElfHeader
  readProgHeader : Nat → Option ElfProgHeader
  readByte : Nat → Option UInt8

/-- What the calls do, with the number of system calls that were made. -/
def ElfOp.handle (file : File) : (op : ElfOp) → EStateM Stop (Mcu × Nat) op.Res
  | lseek offset, (mcu, n) => .ok (file.lseek n offset) (mcu, n + 1)
  | readHeader, (mcu, n) => .ok (file.readHeader n) (mcu, n + 1)
  | readProgHeader, (mcu, n) => .ok (file.readProgHeader n) (mcu, n + 1)
  | readByte, (mcu, n) => .ok (file.readByte n) (mcu, n + 1)
  | unlock, (mcu, n) => .ok () (mcuUnlock mcu, n)
  | lock, (mcu, n) => .ok () (mcuLock mcu, n)
  | write8 addr byte, (mcu, n) =>
      match mcuUtilWrite8 mcu addr byte with
      | .ok written mcu => .ok written (mcu, n)
      | .error stop mcu => .error stop (mcu, n)

/-- A part of the loader. -/
abbrev Loader : Type → Type := Proc ElfOp ElfOp.Res

namespace Loader

def lseek (offset : UInt32) : Loader Bool := .call (.lseek offset) .ret

def readHeader : Loader (Option ElfHeader) := .call .readHeader .ret

def readProgHeader : Loader (Option ElfProgHeader) := .call .readProgHeader .ret

def readByte : Loader (Option UInt8) := .call .readByte .ret

def unlock : Loader Unit := .call .unlock .ret

def lock : Loader Unit := .call .lock .ret

def write8 (addr : UInt32) (byte : UInt8) : Loader Bool := .call (.write8 addr byte) .ret

end Loader

open Loader

/-- An error while the flash is unlocked. -/
def relock : Loader Bool := do
  lock
  return false

/-- The loop of `elf_load_fd` over the bytes of a segment, with the number of bytes that are left. -/
def elfLoadBytes (ph : ElfProgHeader) (rest : Loader Bool) : Nat → UInt32 → Loader Bool
  | 0, _ => rest
  | left + 1, j => do
      match ← readByte with
      | none => relock
      | some byte =>
          if ← write8 (ph.paddr + j) byte then elfLoadBytes ph rest left (j + 1)
          else relock

/-- `ELF_PROG_TYPE_LOAD` -/
def elfProgTypeLoad : UInt32 := 1

/-- The loop of `elf_load_fd` over the segments, with the number of segments that are left. -/
def elfLoadSegments (header : ElfHeader) : Nat → UInt16 → Loader Bool
  | 0, _ => do
      lock
      return true
  | left + 1, i => do
      if ← lseek (header.phoff + i.toUInt32 * header.phentsize.toUInt32) then
        match ← readProgHeader with
        | none => relock
        | some ph =>
            if ph.type = elfProgTypeLoad then
              if ← lseek ph.offset then
                elfLoadBytes ph (elfLoadSegments header left (i + 1)) ph.filesz.toNat 0
              else relock
            else elfLoadSegments header left (i + 1)
      else relock

/-- `elf_load_fd` -/
def elfLoadFd : Loader Bool := do
  if ← lseek 0 then
    match ← readHeader with
    | none => return false
    | some header =>
        if header.ident 0 ≠ 0x7F ∨ header.ident 1 ≠ 0x45 ∨ header.ident 2 ≠ 0x4C ∨
            header.ident 3 ≠ 0x46 then
          return false
        else
          unlock
          elfLoadSegments header header.phnum.toNat 0
  else return false

/-! ## The lock -/

/-- What a call does to the lock. -/
def ElfOp.unlocked : ElfOp → Bool → Bool
  | unlock, _ => true
  | lock, _ => false
  | _, unlocked => unlocked

/-- Every path of a program ends with a locked flash. -/
abbrev EndsLocked (unlocked : Bool) (p : Loader Bool) : Prop :=
  p.Ends ElfOp.unlocked (· = false) unlocked

section Lock

variable {unlocked : Bool}

theorem endsLocked_relock : EndsLocked unlocked relock := fun _ => rfl

theorem endsLocked_bytes {rest : Loader Bool} (ph : ElfProgHeader) (after : EndsLocked true rest)
    (left : Nat) (j : UInt32) : EndsLocked true (elfLoadBytes ph rest left j) := by
  induction left generalizing j with
  | zero => exact after
  | succ left ih =>
      intro byte
      cases byte with
      | none => exact endsLocked_relock
      | some byte =>
          intro written
          cases written with
          | true => exact ih _
          | false => exact endsLocked_relock

theorem endsLocked_segments (header : ElfHeader) (left : Nat) (i : UInt16) :
    EndsLocked true (elfLoadSegments header left i) := by
  induction left generalizing i with
  | zero => exact fun _ => rfl
  | succ left ih =>
      intro sought
      cases sought with
      | false => exact endsLocked_relock
      | true =>
          intro ph
          cases ph with
          | none => exact endsLocked_relock
          | some ph =>
              show EndsLocked true (if ph.type = elfProgTypeLoad then _ else _)
              split
              · intro sought
                cases sought with
                | false => exact endsLocked_relock
                | true => exact endsLocked_bytes ph (ih _) _ _
              · exact ih _

/-- Every path of the loader ends with a locked flash, if it is locked before. -/
theorem endsLocked_elfLoadFd : EndsLocked false elfLoadFd := by
  intro sought
  cases sought with
  | false => rfl
  | true =>
      intro header
      cases header with
      | none => rfl
      | some header =>
          show EndsLocked false (if _ then _ else _)
          split
          · rfl
          · intro _
            exact endsLocked_segments header _ _

end Lock

/-! ## What the reset leaves -/

/-- Two states have the same memory and the same lock. -/
structure Mcu.SameMemory (mcu mcu' : Mcu) : Prop where
  flash : mcu'.flash = mcu.flash
  ram : mcu'.ram = mcu.ram
  length : mcu'.ramLength = mcu.ramLength
  unittest : mcu'.unittest = mcu.unittest
  unlocked : mcu'.unlocked = mcu.unlocked

theorem Mcu.SameMemory.writeReg {mcu mcu' : Mcu} (same : mcu.SameMemory mcu') (reg : Reg)
    (val : UInt32) : mcu.SameMemory (mcuWriteReg mcu' reg val) := by
  obtain ⟨r, v, _, written⟩ := exists_setReg mcu' reg val
  rw [written]
  exact ⟨same.flash, same.ram, same.length, same.unittest, same.unlocked⟩

theorem Mcu.SameMemory.thread {mcu mcu' : Mcu} (same : mcu.SameMemory mcu') :
    mcu.SameMemory { mcu' with processorMode := .thread } :=
  ⟨same.flash, same.ram, same.length, same.unittest, same.unlocked⟩

/-- The reset changes registers and the processor mode. -/
theorem sameMemory_reset (mcu : Mcu) : mcu.SameMemory (mcuReset mcu).2 := by
  have here : mcu.SameMemory mcu := ⟨rfl, rfl, rfl, rfl, rfl⟩
  unfold mcuReset
  split
  · exact here
  · dsimp only
    split
    · exact here.writeReg _ _
    · split
      · exact here.writeReg _ _
      · dsimp only
        exact ((here.writeReg _ _).writeReg _ _).thread.writeReg _ _

/-! ## Writing a halfword always returns -/

section Returns

variable {mcu : Mcu}

/-- The device for unit tests fetches only its first two words, of which no write ends the
simulator. -/
theorem mcuEmuWrite16_returns (mcu : Mcu) (addr : UInt32) (value : UInt16) :
    ∃ b mcu', mcuEmuWrite16 mcu addr value = .ok b mcu' ∧ mcu'.unlocked = mcu.unlocked := by
  unfold mcuEmuWrite16 unittestDevRead32
  by_cases first : addr &&& ~~~ 2 = 0x0
  · rw [first]
    exact ⟨false, mcu, rfl, rfl⟩
  · rw [if_neg first]
    by_cases second : addr &&& ~~~ 2 = 0x4
    · rw [second]
      exact ⟨true, _, rfl, (sameMemory_reset _).unlocked⟩
    · rw [if_neg second]
      exact ⟨false, mcu, rfl, rfl⟩

theorem mcuWrite16_returns (mcu : Mcu) (addr : UInt32) (value : UInt16) :
    ∃ b mcu', mcuWrite16 mcu addr value = .ok b mcu' ∧ mcu'.unlocked = mcu.unlocked := by
  unfold mcuWrite16
  split
  · rename_i dev offset _
    cases dev with
    | unittest => exact mcuEmuWrite16_returns mcu offset value
    | uart => exact ⟨true, mcu, rfl, rfl⟩
    | ram => exact ⟨true, _, rfl, rfl⟩
    | flash =>
        unfold Device.write16
        dsimp only
        split
        · exact ⟨true, _, rfl, rfl⟩
        · exact ⟨false, mcu, rfl, rfl⟩
  · exact ⟨false, mcu, rfl, rfl⟩

theorem mcuUtilWrite8_returns (mcu : Mcu) (addr : UInt32) (byte : UInt8) :
    ∃ b mcu', mcuUtilWrite8 mcu addr byte = .ok b mcu' ∧ mcu'.unlocked = mcu.unlocked := by
  unfold mcuUtilWrite8
  split
  · exact ⟨false, mcu, rfl, rfl⟩
  · exact mcuWrite16_returns mcu _ _

end Returns

/-- A call of the loader always returns, and changes the lock as `ElfOp.unlocked` says. -/
theorem ElfOp.handle_returns (file : File) (op : ElfOp) (s : Mcu × Nat) :
    ∃ r s', op.handle file s = .ok r s' ∧ s'.1.unlocked = op.unlocked s.1.unlocked := by
  obtain ⟨mcu, n⟩ := s
  cases op with
  | lseek offset => exact ⟨_, _, rfl, rfl⟩
  | readHeader => exact ⟨_, _, rfl, rfl⟩
  | readProgHeader => exact ⟨_, _, rfl, rfl⟩
  | readByte => exact ⟨_, _, rfl, rfl⟩
  | unlock => exact ⟨_, _, rfl, rfl⟩
  | lock => exact ⟨_, _, rfl, rfl⟩
  | write8 addr byte =>
      obtain ⟨written, mcu', wrote, kept⟩ := mcuUtilWrite8_returns mcu addr byte
      refine ⟨written, (mcu', n), ?_, kept⟩
      unfold ElfOp.handle
      dsimp only
      rw [wrote]

/-- The loader returns with a locked flash, whatever the file is. -/
theorem elfLoadFd_locks (file : File) {mcu : Mcu} (locked : mcu.unlocked = false) :
    ∃ loaded mcu' n, elfLoadFd.run (ElfOp.handle file) (mcu, 0) = .ok loaded (mcu', n) ∧
      mcu'.unlocked = false := by
  have never : ∀ (op : ElfOp) s, ∃ r s', op.handle file s = .ok r s' := fun op s => by
    obtain ⟨r, s', called, _⟩ := op.handle_returns file s
    exact ⟨r, s', called⟩
  have follows : ∀ (op : ElfOp) s r s', op.handle file s = .ok r s' →
      s'.1.unlocked = op.unlocked s.1.unlocked := fun op s r s' called => by
    obtain ⟨r₁, s₁, called₁, kept⟩ := op.handle_returns file s
    rw [called₁] at called
    cases called
    exact kept
  obtain ⟨loaded, ⟨mcu', n⟩, ran⟩ := Proc.exists_run_eq_ok never elfLoadFd (mcu, 0)
  have ends : elfLoadFd.Ends ElfOp.unlocked (· = false) mcu.unlocked := by
    rw [locked]
    exact endsLocked_elfLoadFd
  exact ⟨loaded, mcu', n, ran, Proc.Ends.run (·.1.unlocked) ends follows ran⟩

end TheFirmware.Simulator
