import TheFirmware.Runtime
import TheFirmware.Lib.ByteMemory

/-!
# `core/malloc.c`

The allocator keeps its free blocks on a singly linked list threaded through the blocks
themselves: a free block starts with a `struct free_header`, its size at offset 0 and the address
of the next free block at offset 4. Addresses are numbers below `2 ^ 32` with `NULL = 0`, and
`size_t` arithmetic wraps (`sizeT`).

The three loops of the file (`freeRawLoop`, `mallocRawLoop`, `getFreeSizeLoop`) follow `next`
pointers and take fuel: running out of it means that the loop has not ended after that many
iterations.
-/

namespace TheFirmware.Malloc

/-- `sizeof(struct free_header)`. -/
def sizeofFreeHeader : Nat := 8

/-- Arithmetic in `size_t`. -/
def sizeT (n : Nat) : Nat := n % 2 ^ 32

/-- The memory, and the static variable `free_head`. -/
structure Heap : Type where
  mem : Mem
  freeHead : Nat

/-- `p->size`. -/
def headerSize (m : Mem) (p : Nat) : Nat := (m.load32 p).toNat

/-- `p->next`. -/
def headerNext (m : Mem) (p : Nat) : Nat := (m.load32 (p + 4)).toNat

/-- `p->size = n`. -/
def setHeaderSize (m : Mem) (p n : Nat) : Mem := m.store32 p (BitVec.ofNat 32 n)

/-- `p->next = q`. -/
def setHeaderNext (m : Mem) (p q : Nat) : Mem := m.store32 (p + 4) (BitVec.ofNat 32 q)

/-! ## `free_raw` -/

/-- The first half of the loop body that ends `free_raw`: merge `ptr` into the block it starts
behind, or link it behind `block`. Returns the block `ptr` names afterwards. -/
def freeRawLink (m : Mem) (ptr block : Nat) : Mem × Nat :=
  if sizeT (block + headerSize m block) = ptr then
    (setHeaderSize m block (headerSize m block + headerSize m ptr), block)
  else
    let m := setHeaderNext m ptr (headerNext m block)
    (setHeaderNext m block ptr, ptr)

/-- The second half: merge the block behind `ptr` on the list when it starts where `ptr` stops. -/
def freeRawMergeNext (m : Mem) (ptr : Nat) : Mem :=
  if headerNext m ptr ≠ 0 ∧ sizeT (ptr + headerSize m ptr) = headerNext m ptr then
    let m := setHeaderSize m ptr (headerSize m ptr + headerSize m (headerNext m ptr))
    setHeaderNext m ptr (headerNext m (headerNext m ptr))
  else m

/-- The insertion loop of `free_raw`, at `block`. -/
def freeRawLoop : Nat → Mem → Nat → Nat → Except Fault Mem
  | 0, _, _, _ => .error .outOfFuel
  | fuel + 1, m, ptr, block =>
      if block = 0 then .ok m
      else if block < ptr ∨ headerNext m block = 0 then
        let (m, ptr) := freeRawLink m ptr block
        .ok (freeRawMergeNext m ptr)
      else freeRawLoop fuel m ptr (headerNext m block)

/-- The header `free_raw` puts in front of a block that lies before the current head. The sum
compared with `ptr` starts at `free_head`, as the source has it. -/
def freeRawBeforeHead (m : Mem) (ptr size freeHead : Nat) : Mem :=
  if sizeT (freeHead + size) = ptr then
    let m := setHeaderSize m ptr (headerSize m ptr + headerSize m freeHead)
    setHeaderNext m ptr (headerNext m freeHead)
  else setHeaderNext m ptr freeHead

/-- `free_raw(ptr, size)`. A block before the current head becomes the new head, and the
insertion loop then runs over the list that starts with it. -/
def freeRaw (fuel ptr size : Nat) (h : Heap) : Except Fault Heap := do
  assert (ptr ≠ 0) "cannot free NULL"
  assert (sizeofFreeHeader ≤ size) "free_raw size must be >= sizeof(struct free_header)"
  let m := setHeaderNext (setHeaderSize h.mem ptr size) ptr 0
  if h.freeHead = 0 then
    return ⟨m, ptr⟩
  else if ptr < h.freeHead then
    let m ← freeRawLoop fuel (freeRawBeforeHead m ptr size h.freeHead) ptr ptr
    return ⟨m, ptr⟩
  else
    let m ← freeRawLoop fuel m ptr h.freeHead
    return ⟨m, h.freeHead⟩

/-! ## `malloc_raw` -/

/-- The tail both branches of `malloc_raw` share: give the unused end of the unlinked block `ptr`
back when it can hold a header, and return `ptr`. -/
def mallocRawTake (fuel ptr size : Nat) (h : Heap) : Except Fault (Nat × Heap) :=
  if sizeofFreeHeader ≤ headerSize h.mem ptr - size then do
    let h ← freeRaw fuel (sizeT (ptr + size)) (headerSize h.mem ptr - size) h
    let rest := sizeT (headerSize h.mem ptr + 2 ^ 32 - size)
    return (ptr, ⟨setHeaderSize h.mem ptr rest, h.freeHead⟩)
  else return (ptr, h)

/-- The search loop of `malloc_raw`, at `prev`; `fuel` is for the `free_raw` it may call. -/
def mallocRawLoop (fuel size : Nat) : Nat → Nat → Heap → Except Fault (Nat × Heap)
  | 0, _, _ => .error .outOfFuel
  | steps + 1, prev, h =>
      let ptr := headerNext h.mem prev
      if ptr = 0 then .ok (0, h)
      else if size ≤ headerSize h.mem ptr then
        mallocRawTake fuel ptr size
          ⟨setHeaderNext h.mem prev (headerNext h.mem ptr), h.freeHead⟩
      else mallocRawLoop fuel size steps ptr h

/-- `malloc_raw(size)`; the result `0` is `NULL`. With an empty list the first comparison already
reads `free_head->size` through `NULL`. -/
def mallocRaw (fuel size : Nat) (h : Heap) : Except Fault (Nat × Heap) := do
  assert (sizeofFreeHeader ≤ size) "malloc_raw size must be >= sizeof(struct free_header)"
  if h.freeHead = 0 then
    throw .nullDeref
  else if size ≤ headerSize h.mem h.freeHead then
    mallocRawTake fuel h.freeHead size ⟨h.mem, headerNext h.mem h.freeHead⟩
  else mallocRawLoop fuel size fuel h.freeHead h

/-- `sizeof(struct malloc_header)`. -/
def sizeofMallocHeader : Nat := 4

/-- `malloc(size)`: the size is stored in front of the memory it returns, also when `malloc_raw` has
returned `NULL`. -/
def malloc (fuel size : Nat) (h : Heap) : Except Fault (Nat × Heap) := do
  let (ptr, h) ← mallocRaw fuel (sizeT (sizeofMallocHeader + size)) h
  if ptr = 0 then
    throw .nullDeref
  else return (sizeT (ptr + sizeofMallocHeader), ⟨setHeaderSize h.mem ptr size, h.freeHead⟩)

/-! ## `get_free_size` and `malloc_init` -/

/-- The loop of `get_free_size`, at `ptr`. -/
def getFreeSizeLoop (m : Mem) : Nat → Nat → Nat → Except Fault Nat
  | 0, _, _ => .error .outOfFuel
  | fuel + 1, ptr, size =>
      if ptr = 0 then .ok size
      else getFreeSizeLoop m fuel (headerNext m ptr) (sizeT (size + headerSize m ptr))

/-- `get_free_size()`. -/
def getFreeSize (fuel : Nat) (h : Heap) : Except Fault Nat :=
  getFreeSizeLoop h.mem fuel h.freeHead 0

/-- `malloc_init(start, end)` on the memory `m`, before which `free_head` is `NULL`. -/
def mallocInit (fuel start stop : Nat) (m : Mem) : Except Fault Heap :=
  freeRaw fuel start (sizeT (stop + 2 ^ 32 - start)) ⟨m, 0⟩

/-! ## Field lemmas -/

@[simp] theorem headerSize_setHeaderSize {m : Mem} {p n : Nat} (bound : n < 2 ^ 32) :
    headerSize (setHeaderSize m p n) p = n := by
  rw [headerSize, setHeaderSize, Mem.load32_store32, BitVec.toNat_ofNat, Nat.mod_eq_of_lt bound]

@[simp] theorem headerNext_setHeaderNext {m : Mem} {p q : Nat} (bound : q < 2 ^ 32) :
    headerNext (setHeaderNext m p q) p = q := by
  rw [headerNext, setHeaderNext, Mem.load32_store32, BitVec.toNat_ofNat, Nat.mod_eq_of_lt bound]

@[simp] theorem headerNext_setHeaderSize (m : Mem) (p n : Nat) :
    headerNext (setHeaderSize m p n) p = headerNext m p := by
  simp only [headerNext, setHeaderSize]
  rw [Mem.load32_store32_of_disjoint (by omega)]

@[simp] theorem headerSize_setHeaderNext (m : Mem) (p q : Nat) :
    headerSize (setHeaderNext m p q) p = headerSize m p := by
  simp only [headerSize, setHeaderNext]
  rw [Mem.load32_store32_of_disjoint (by omega)]

theorem headerNext_lt (m : Mem) (p : Nat) : headerNext m p < 2 ^ 32 := (m.load32 (p + 4)).isLt

/-- Setting the size of one header leaves every header that does not overlap it alone. -/
theorem agree_setHeaderSize {m : Mem} {p n b k : Nat} (miss : b + k ≤ p ∨ p + 8 ≤ b) :
    m.Agree (setHeaderSize m p n) b k :=
  Mem.agree_store32 (by omega)

theorem agree_setHeaderNext {m : Mem} {p q b k : Nat} (miss : b + k ≤ p ∨ p + 8 ≤ b) :
    m.Agree (setHeaderNext m p q) b k :=
  Mem.agree_store32 (by omega)

theorem headerSize_agree {m m' : Mem} {p : Nat} (agree : m.Agree m' p 8) :
    headerSize m' p = headerSize m p := by
  rw [headerSize, headerSize, (agree.mono (Nat.le_refl _) (by omega)).load32]

theorem headerNext_agree {m m' : Mem} {p : Nat} (agree : m.Agree m' p 8) :
    headerNext m' p = headerNext m p := by
  rw [headerNext, headerNext, (agree.mono (by omega) (by omega)).load32]

theorem sizeT_of_lt {n : Nat} (bound : n < 2 ^ 32) : sizeT n = n := Nat.mod_eq_of_lt bound

/-! ## More fuel gives the same result -/

section Fuel

variable {fuel fuel' : Nat}

theorem freeRawLoop_mono (le : fuel ≤ fuel') (m : Mem) (ptr block : Nat) :
    ReturnsLe (freeRawLoop fuel m ptr block) (freeRawLoop fuel' m ptr block) := by
  induction fuel generalizing fuel' block with
  | zero => exact .error _ _
  | succ fuel ih =>
      obtain ⟨fuel', rfl⟩ := Nat.exists_eq_add_of_le' le
      exact .ite (.refl _) (.ite (.refl _) (ih (Nat.le_add_left _ _) _))

theorem freeRaw_mono (le : fuel ≤ fuel') (ptr size : Nat) (h : Heap) :
    ReturnsLe (freeRaw fuel ptr size h) (freeRaw fuel' ptr size h) := by
  refine .bind (.refl _) fun _ => .bind (.refl _) fun _ => .ite (.refl _) (.ite ?_ ?_)
  · exact .bind (freeRawLoop_mono le _ _ _) fun _ => .refl _
  · exact .bind (freeRawLoop_mono le _ _ _) fun _ => .refl _

theorem mallocRawTake_mono (le : fuel ≤ fuel') (ptr size : Nat) (h : Heap) :
    ReturnsLe (mallocRawTake fuel ptr size h) (mallocRawTake fuel' ptr size h) :=
  .ite (.bind (freeRaw_mono le _ _ _) fun _ => .refl _) (.refl _)

theorem mallocRawLoop_mono {steps steps' : Nat} (le : fuel ≤ fuel') (leSteps : steps ≤ steps')
    (size prev : Nat) (h : Heap) :
    ReturnsLe (mallocRawLoop fuel size steps prev h) (mallocRawLoop fuel' size steps' prev h) := by
  induction steps generalizing steps' prev with
  | zero => exact .error _ _
  | succ steps ih =>
      obtain ⟨steps', rfl⟩ := Nat.exists_eq_add_of_le' leSteps
      exact .ite (.refl _) (.ite (mallocRawTake_mono le _ _ _) (ih (Nat.le_add_left _ _) _))

theorem mallocRaw_mono (le : fuel ≤ fuel') (size : Nat) (h : Heap) :
    ReturnsLe (mallocRaw fuel size h) (mallocRaw fuel' size h) := by
  refine .bind (.refl _) fun _ => .ite (.refl _) (.ite ?_ ?_)
  · exact mallocRawTake_mono le _ _ _
  · exact mallocRawLoop_mono le le _ _ _

theorem getFreeSizeLoop_mono (le : fuel ≤ fuel') (m : Mem) (ptr size : Nat) :
    ReturnsLe (getFreeSizeLoop m fuel ptr size) (getFreeSizeLoop m fuel' ptr size) := by
  induction fuel generalizing fuel' ptr size with
  | zero => exact .error _ _
  | succ fuel ih =>
      obtain ⟨fuel', rfl⟩ := Nat.exists_eq_add_of_le' le
      exact .ite (.refl _) (ih (Nat.le_add_left _ _) _ _)

end Fuel

end TheFirmware.Malloc
