import TheFirmware.Core.Malloc
import TheFirmware.Lib.Blocks

/-!
# The free list as a list of blocks

`FreeList m a L` reads the chain of `next` pointers from `a` in the memory `m` as the list of
blocks `L`. The operations of `malloc.c` are then functions on such lists:

* `mergeNext` and `insertBehind` are the two halves of the loop body that ends `free_raw`;
* `freeBlock` is `free_raw`. It is what the code computes, not what one would wish for: a block
  that lies before the head takes over the list behind the first block below it and drops
  everything before (`behindScan`);
* `mallocRest` is `malloc_raw` on the first block that fits.

`freeRaw_refines` and `mallocRaw_refines` connect them to the code. They need the layout of the
blocks, and `MergeSafe`: that `free_raw` does not coalesce a block it has already made the head.
-/

namespace TheFirmware.Malloc

/-- The chain of `next` pointers from `a` visits exactly the blocks `L` and ends in `NULL`. -/
def FreeList (m : Mem) : Nat → List Block → Prop
  | a, [] => a = 0
  | a, b :: L => a = b.addr ∧ b.addr ≠ 0 ∧ headerSize m b.addr = b.size ∧
      FreeList m (headerNext m b.addr) L

/-! ## The operations on block lists -/

/-- `p` at the front of `L`, merged with the first block of `L` when that starts where `p`
stops. -/
def mergeNext (p : Block) : List Block → List Block
  | [] => [p]
  | n :: L => if p.stop = n.addr then p.join n :: L else p :: n :: L

/-- `p` merged into the block `b` in front of `L`, or linked behind it. -/
def insertBehind (b p : Block) (L : List Block) : List Block :=
  if b.stop = p.addr then mergeNext (b.join p) L else b :: mergeNext p L

/-- The block at which the insertion loop stops: the first one below `p`, or the last one. -/
def scanStop (p : Nat) : List Block → Option Block
  | [] => none
  | b :: L => if b.addr < p ∨ L = [] then some b else scanStop p L

/-- The list behind that block. -/
def behindScan (p : Nat) : List Block → List Block
  | [] => []
  | b :: L => if b.addr < p ∨ L = [] then L else behindScan p L

/-- What `free_raw` makes of the free list `L`. -/
def freeBlock (p : Block) : List Block → List Block
  | [] => [p]
  | b :: L =>
      if p.addr < b.addr then mergeNext p (behindScan p.addr (b :: L)) else insertBehind b p L

/-- The free list that `malloc_raw` leaves after taking `s` bytes of the block `b`. -/
def mallocRest (s : Nat) (b : Block) (L : List Block) : List Block :=
  if s + sizeofFreeHeader ≤ b.size then freeBlock ⟨b.addr + s, b.size - s⟩ (L.erase b)
  else L.erase b

/-- `free_raw` does not coalesce `p` after it has made `p` the head: when `p` lies below the head,
neither the wrapped sum of `free_head` and the size hits `p`, nor does the first block of the list
below `p` stop at `p`. -/
def MergeSafe (L : List Block) (p : Block) : Prop :=
  ∀ b, L.head? = some b → p.addr < b.addr →
    sizeT (b.addr + p.size) ≠ p.addr ∧
      ∀ c, L.find? (fun c => c.addr < p.addr) = some c → c.stop ≠ p.addr

/-! ## Reading the list -/

namespace FreeList

variable {m m' : Mem} {a : Nat} {L : List Block} {b : Block}

/-- A list survives every change of memory that keeps the headers of its blocks. -/
theorem transport : ∀ {L : List Block} {a : Nat}, FreeList m a L →
    (∀ b ∈ L, m.Agree m' b.addr 8) → FreeList m' a L
  | [], _, list, _ => list
  | b :: L, _, ⟨addr, ne, size, rest⟩, agree => by
      have keep := agree b (by simp)
      refine ⟨addr, ne, ?_, ?_⟩
      · rw [headerSize_agree keep, size]
      · rw [headerNext_agree keep]
        exact rest.transport fun c mem => agree c (by simp [mem])

/-- A `NULL` head is the empty list. -/
theorem eq_nil_of_zero (list : FreeList m 0 L) : L = [] := by
  cases L with
  | nil => rfl
  | cons b L => exact absurd list.1.symm list.2.1

/-- A chain that ends still ends one block earlier. -/
theorem exists_cons {n : Nat} (ne : a ≠ 0) (rest : FreeList m (headerNext m a) L)
    (short : L.length + 1 < n) : ∃ L', FreeList m a L' ∧ L'.length < n :=
  ⟨⟨a, headerSize m a⟩ :: L, ⟨rfl, ne, rfl, rest⟩, short⟩

/-- Memory determines the list. -/
theorem unique : ∀ {L L' : List Block} {a : Nat}, FreeList m a L → FreeList m a L' → L = L'
  | [], _, _, list, list' => by
      cases list
      exact list'.eq_nil_of_zero.symm
  | b :: L, [], _, list, list' => by
      cases list'
      exact list.eq_nil_of_zero
  | b :: L, c :: L', _, list, list' => by
      obtain ⟨addr, _, size, rest⟩ := list
      obtain ⟨addr', _, size', rest'⟩ := list'
      have same : b = c := by
        cases b
        cases c
        simp_all
      subst same
      rw [rest.unique rest']

end FreeList

/-! ## The operations keep the layout -/

section Layouts

variable {lo hi grain : Nat} {L R : List Block} {b p : Block}

theorem exists_scanStop (p : Nat) : ∀ {L : List Block}, L ≠ [] → ∃ b, scanStop p L = some b
  | [], ne => absurd rfl ne
  | b :: L, _ => by
      rw [scanStop]
      split
      · exact ⟨b, rfl⟩
      · exact exists_scanStop p fun nil => ‹¬ (_ ∨ L = [])› (Or.inr nil)

/-- The loop stops inside the list, and `behindScan` is the list behind it. -/
theorem scanStop_sublist {p : Nat} : ∀ {L : List Block} {b : Block}, scanStop p L = some b →
    (b :: behindScan p L).Sublist L
  | [], _, found => by cases found
  | c :: L, b, found => by
      rw [scanStop] at found
      rw [behindScan]
      split at found
      · cases found
        rw [if_pos ‹_›]
      · rw [if_neg ‹_›]
        exact (scanStop_sublist found).trans (List.sublist_cons_self c L)

/-- When the loop stops at a block below `p`, it is the first one. -/
theorem find?_of_scanStop {p : Nat} : ∀ {L : List Block} {b : Block}, scanStop p L = some b →
    b.addr < p → L.find? (fun c => c.addr < p) = some b
  | [], _, found, _ => by cases found
  | c :: L, b, found, below => by
      rw [scanStop] at found
      split at found
      · cases found
        rw [List.find?_cons_of_pos (by simp [below])]
      · have above : ¬ c.addr < p := fun hc => ‹¬ (_ ∨ L = [])› (Or.inl hc)
        rw [List.find?_cons_of_neg (by simp [above])]
        exact find?_of_scanStop found below

theorem mergeNext_layout (pos : 0 < grain) (layout : Layout lo hi grain (p :: L ++ R)) :
    Layout lo hi grain (mergeNext p L ++ R) := by
  cases L with
  | nil => exact layout
  | cons n L =>
      rw [mergeNext]
      split
      · exact layout.join pos ‹_›
      · exact layout

theorem insertBehind_layout (pos : 0 < grain) (layout : Layout lo hi grain (p :: b :: L ++ R)) :
    Layout lo hi grain (insertBehind b p L ++ R) := by
  have swapped : Layout lo hi grain (b :: p :: L ++ R) := layout.perm (List.Perm.swap _ _ _)
  unfold insertBehind
  split
  · exact mergeNext_layout pos (swapped.join pos ‹_›)
  · refine (mergeNext_layout pos (L := L) (p := p) (R := R ++ [b]) ?_).perm ?_
    · rw [← List.append_assoc]
      exact swapped.perm (List.perm_append_singleton b (p :: L ++ R)).symm
    · rw [← List.append_assoc]
      exact List.perm_append_singleton b (mergeNext p L ++ R)

/-- `free_raw` keeps the layout of the free blocks and of everything else (`R`). -/
theorem freeBlock_layout (pos : 0 < grain) (layout : Layout lo hi grain (p :: L ++ R)) :
    Layout lo hi grain (freeBlock p L ++ R) := by
  cases L with
  | nil => exact layout
  | cons b L =>
      rw [freeBlock]
      split
      · obtain ⟨c, found⟩ := exists_scanStop p.addr (List.cons_ne_nil b L)
        have behind : (behindScan p.addr (b :: L)).Sublist (b :: L) :=
          (List.sublist_cons_self c _).trans (scanStop_sublist found)
        exact mergeNext_layout pos
          (layout.sublist ((behind.cons_cons p).append (List.Sublist.refl R)))
      · exact insertBehind_layout pos layout

end Layouts

/-! ## The loop bodies refine the list operations -/

/-- Memory changed at most in the headers at the addresses `A`. -/
def HeaderFrame (m m' : Mem) (A : List Nat) : Prop :=
  ∀ x, (∀ a ∈ A, x < a ∨ a + sizeofFreeHeader ≤ x) → m' x = m x

namespace HeaderFrame

variable {m m₁ m₂ m₃ m' : Mem} {A B : List Nat}

theorem refl (m : Mem) (A : List Nat) : HeaderFrame m m A := fun _ _ => rfl

theorem mono (frame : HeaderFrame m m' A) (sub : A ⊆ B) : HeaderFrame m m' B :=
  fun x miss => frame x fun a mem => miss a (sub mem)

theorem trans (first : HeaderFrame m₁ m₂ A) (second : HeaderFrame m₂ m₃ A) :
    HeaderFrame m₁ m₃ A :=
  fun x miss => (second x miss).trans (first x miss)

theorem setHeaderSize (m : Mem) {p n : Nat} (mem : p ∈ A) :
    HeaderFrame m (setHeaderSize m p n) A := by
  intro x miss
  have far := miss p mem
  simp only [sizeofFreeHeader] at far
  exact Mem.store32_outside (by omega)

theorem setHeaderNext (m : Mem) {p n : Nat} (mem : p ∈ A) :
    HeaderFrame m (setHeaderNext m p n) A := by
  intro x miss
  have far := miss p mem
  simp only [sizeofFreeHeader] at far
  exact Mem.store32_outside (by omega)

theorem agree (frame : HeaderFrame m m' A) {b k : Nat}
    (miss : ∀ a ∈ A, b + k ≤ a ∨ a + sizeofFreeHeader ≤ b) : m.Agree m' b k := by
  intro x low high
  refine frame x fun a mem => ?_
  have far := miss a mem
  omega

end HeaderFrame

section Refinement

variable {lo hi : Nat} {m : Mem} {L R : List Block} {b p : Block}

/-- The header of a block of a layout misses every other block. -/
theorem header_miss (layout : Layout lo hi sizeofFreeHeader (p :: L)) (mem : b ∈ L) :
    b.addr + sizeofFreeHeader ≤ p.addr ∨ p.addr + sizeofFreeHeader ≤ b.addr := by
  have apart := layout.apart_of_mem mem
  have sizeP := layout.grain_le_head
  have sizeB := layout.tail.grain_le b mem
  simp only [Block.Apart, Block.stop] at apart
  omega

theorem sizeT_stop (layout : Layout lo hi sizeofFreeHeader (p :: L)) (high : hi < 2 ^ 32) :
    sizeT (p.addr + p.size) = p.stop := by
  have within := layout.within_head
  simp only [Block.Within, Block.stop] at within
  exact sizeT_of_lt (by omega)

/-- A change confined to the header of one block of a layout keeps a list of the others. -/
theorem FreeList.transport_frame {m' : Mem} {a : Nat} (list : FreeList m a L)
    (layout : Layout lo hi sizeofFreeHeader (p :: L)) (frame : HeaderFrame m m' [p.addr]) :
    FreeList m' a L := by
  refine list.transport fun b mem => frame.agree fun q hq => ?_
  rw [List.mem_singleton.mp hq]
  exact header_miss layout mem

theorem freeRawMergeNext_frame (m : Mem) (p : Nat) :
    HeaderFrame m (freeRawMergeNext m p) [p] := by
  unfold freeRawMergeNext
  split
  · exact (HeaderFrame.setHeaderSize m (by simp)).trans (HeaderFrame.setHeaderNext _ (by simp))
  · exact HeaderFrame.refl m _

/-- The second half of the loop body is `mergeNext`. -/
theorem freeRawMergeNext_refines (list : FreeList m p.addr (p :: L))
    (layout : Layout lo hi sizeofFreeHeader (p :: L)) (high : hi < 2 ^ 32) :
    FreeList (freeRawMergeNext m p.addr) p.addr (mergeNext p L) := by
  obtain ⟨-, ne, size, rest⟩ := list
  cases L with
  | nil =>
      have null : headerNext m p.addr = 0 := rest
      rw [freeRawMergeNext, if_neg (by simp [null])]
      exact ⟨rfl, ne, size, rest⟩
  | cons n L =>
      obtain ⟨next, neN, sizeN, restN⟩ := rest
      have miss := header_miss layout (b := n) (by simp)
      rw [freeRawMergeNext, next, size, sizeT_stop layout high, mergeNext]
      by_cases adjacent : p.stop = n.addr
      · rw [if_pos ⟨neN, adjacent⟩, if_pos adjacent]
        have withinN := layout.tail.within_head
        have bound : p.size + headerSize m n.addr < 2 ^ 32 := by
          simp only [Block.Within, Block.stop] at withinN adjacent
          omega
        simp only [headerNext_setHeaderSize, next]
        have far : headerNext (setHeaderSize m p.addr (p.size + headerSize m n.addr)) n.addr =
            headerNext m n.addr := headerNext_agree (agree_setHeaderSize miss)
        rw [far]
        refine ⟨rfl, ne, ?_, ?_⟩
        · rw [Block.join_addr, headerSize_setHeaderNext, headerSize_setHeaderSize bound, sizeN,
            Block.join_size]
        · rw [Block.join_addr, headerNext_setHeaderNext (headerNext_lt _ _)]
          refine restN.transport_frame (p := p) (layout.sublist ?_)
            ((HeaderFrame.setHeaderSize m (by simp)).trans
              (HeaderFrame.setHeaderNext _ (by simp)))
          exact (List.sublist_cons_self n L).cons_cons p
      · rw [if_neg (fun both => adjacent both.2), if_neg adjacent]
        exact ⟨rfl, ne, size, next, neN, sizeN, restN⟩

/-- The first half of the loop body, at a block that stops at `p`: `p` is merged into it. -/
theorem freeRawLink_of_adjacent (list : FreeList m b.addr (b :: L))
    (header : headerSize m p.addr = p.size)
    (layout : Layout lo hi sizeofFreeHeader (p :: b :: L)) (high : hi < 2 ^ 32)
    (adjacent : b.stop = p.addr) :
    (freeRawLink m p.addr b.addr).2 = b.addr ∧
      FreeList (freeRawLink m p.addr b.addr).1 b.addr (b.join p :: L) := by
  obtain ⟨-, ne, size, rest⟩ := list
  have within := layout.within_head
  have bound : b.size + p.size < 2 ^ 32 := by
    simp only [Block.Within, Block.stop] at within adjacent
    omega
  rw [freeRawLink, size, header, sizeT_stop layout.tail high, if_pos adjacent]
  refine ⟨rfl, rfl, ne, ?_, ?_⟩
  · exact headerSize_setHeaderSize bound
  · rw [Block.join_addr, headerNext_setHeaderSize]
    exact rest.transport_frame layout.tail (HeaderFrame.setHeaderSize m (by simp))

/-- The first half of the loop body, at a block that does not stop at `p`: `p` is linked behind
it, and takes over its rest of the list. -/
theorem freeRawLink_of_not_adjacent (list : FreeList m b.addr (b :: L))
    (header : headerSize m p.addr = p.size)
    (layout : Layout lo hi sizeofFreeHeader (p :: b :: L)) (low : 0 < lo) (high : hi < 2 ^ 32)
    (apart : b.stop ≠ p.addr) :
    (freeRawLink m p.addr b.addr).2 = p.addr ∧
      FreeList (freeRawLink m p.addr b.addr).1 p.addr (p :: L) ∧
      headerNext (freeRawLink m p.addr b.addr).1 b.addr = p.addr ∧
      headerSize (freeRawLink m p.addr b.addr).1 b.addr = b.size := by
  obtain ⟨-, ne, size, rest⟩ := list
  have within := layout.within_head
  simp only [Block.Within, Block.stop] at within
  have miss := header_miss layout (b := b) (by simp)
  have nextB : headerNext (setHeaderNext m p.addr (headerNext m b.addr)) b.addr =
      headerNext m b.addr := headerNext_agree (agree_setHeaderNext miss)
  have sizeB : headerSize (setHeaderNext m p.addr (headerNext m b.addr)) b.addr =
      headerSize m b.addr := headerSize_agree (agree_setHeaderNext miss)
  have keepP : ∀ m' : Mem, m'.Agree (setHeaderNext m' b.addr p.addr) p.addr 8 :=
    fun m' => agree_setHeaderNext (by simp only [sizeofFreeHeader] at miss; omega)
  rw [freeRawLink, size, sizeT_stop layout.tail high, if_neg apart]
  refine ⟨rfl, ⟨rfl, by omega, ?_, ?_⟩, ?_, ?_⟩
  · rw [headerSize_agree (keepP _), headerSize_setHeaderNext, header]
  · rw [headerNext_agree (keepP _), headerNext_setHeaderNext (headerNext_lt _ _)]
    refine FreeList.transport_frame ?_ layout.tail (HeaderFrame.setHeaderNext _ (by simp))
    refine rest.transport_frame (p := p) (layout.sublist ?_)
      (HeaderFrame.setHeaderNext _ (by simp))
    exact (List.sublist_cons_self b L).cons_cons p
  · exact headerNext_setHeaderNext (by omega)
  · rw [headerSize_setHeaderNext, sizeB, size]

theorem freeRawLink_frame (m : Mem) (ptr block : Nat) :
    HeaderFrame m (freeRawLink m ptr block).1 [ptr, block] := by
  unfold freeRawLink
  split
  · exact HeaderFrame.setHeaderSize m (by simp)
  · exact (HeaderFrame.setHeaderNext m (by simp)).trans (HeaderFrame.setHeaderNext _ (by simp))

/-! ## The insertion loop -/

/-- The chain from the block the loop stops at. -/
theorem FreeList.at_scanStop {p : Nat} : ∀ {L : List Block} {a : Nat} {b : Block},
    FreeList m a L → scanStop p L = some b → FreeList m b.addr (b :: behindScan p L)
  | [], _, _, _, found => by cases found
  | c :: L, _, b, list, found => by
      rw [scanStop] at found
      rw [behindScan]
      split at found
      · cases found
        rw [if_pos ‹_›]
        exact ⟨rfl, list.2⟩
      · rw [if_neg ‹_›]
        exact list.2.2.2.at_scanStop found

/-- The loop leaves memory alone until it stops, and then runs its body once. -/
theorem freeRawLoop_eq {p : Nat} : ∀ {L : List Block} {a fuel : Nat} {b : Block},
    FreeList m a L → scanStop p L = some b → L.length < fuel →
    freeRawLoop fuel m p a =
      .ok (freeRawMergeNext (freeRawLink m p b.addr).1 (freeRawLink m p b.addr).2)
  | [], _, _, _, _, found, _ => by cases found
  | c :: L, a, 0, _, _, _, enough => absurd enough (Nat.not_lt_zero _)
  | c :: L, a, fuel + 1, b, list, found, enough => by
      obtain ⟨rfl, ne, size, rest⟩ := list
      have last : headerNext m c.addr = 0 ↔ L = [] := by
        constructor
        · intro null
          rw [null] at rest
          exact rest.eq_nil_of_zero
        · rintro rfl
          exact rest
      rw [freeRawLoop, if_neg ne]
      rw [scanStop] at found
      split at found
      · cases found
        rw [if_pos (by rw [last]; assumption)]
      · rw [if_neg (by rw [last]; assumption)]
        exact freeRawLoop_eq rest found (by simpa using enough)

/-- The insertion loop ends on every chain that ends. -/
theorem freeRawLoop_terminates (fuel : Nat) {p a : Nat} (list : FreeList m a L)
    (enough : L.length < fuel) :
    ∃ m', freeRawLoop fuel m p a = .ok m' := by
  rcases eq_or_ne L [] with rfl | ne
  · obtain ⟨fuel, rfl⟩ := Nat.exists_eq_succ_of_ne_zero (Nat.ne_of_gt enough)
    have null : a = 0 := list
    exact ⟨m, by rw [freeRawLoop, if_pos null]⟩
  · obtain ⟨b, found⟩ := exists_scanStop p ne
    exact ⟨_, freeRawLoop_eq list found enough⟩

/-! ## `free_raw` -/

/-- The memory once `free_raw` has written the header of its block. -/
theorem header_written {a : Nat} (list : FreeList m a L)
    (layout : Layout lo hi sizeofFreeHeader (p :: L)) (high : hi < 2 ^ 32) :
    FreeList (setHeaderNext (setHeaderSize m p.addr p.size) p.addr 0) a L ∧
      headerSize (setHeaderNext (setHeaderSize m p.addr p.size) p.addr 0) p.addr = p.size ∧
      headerNext (setHeaderNext (setHeaderSize m p.addr p.size) p.addr 0) p.addr = 0 := by
  have within := layout.within_head
  simp only [Block.Within, Block.stop] at within
  refine ⟨?_, ?_, headerNext_setHeaderNext (by omega)⟩
  · exact list.transport_frame layout
      ((HeaderFrame.setHeaderSize m (by simp)).trans (HeaderFrame.setHeaderNext _ (by simp)))
  · rw [headerSize_setHeaderNext, headerSize_setHeaderSize (by omega)]

/-- The loop body at the block `b` in front of `L` is `insertBehind`. -/
theorem freeRaw_insertBehind (list : FreeList m b.addr (b :: L))
    (header : headerSize m p.addr = p.size)
    (layout : Layout lo hi sizeofFreeHeader (p :: b :: L)) (low : 0 < lo) (high : hi < 2 ^ 32) :
    FreeList (freeRawMergeNext (freeRawLink m p.addr b.addr).1 (freeRawLink m p.addr b.addr).2)
      b.addr (insertBehind b p L) := by
  have swapped : Layout lo hi sizeofFreeHeader (b :: p :: L) := layout.perm (List.Perm.swap _ _ _)
  rw [insertBehind]
  by_cases adjacent : b.stop = p.addr
  · obtain ⟨target, linked⟩ := freeRawLink_of_adjacent list header layout high adjacent
    rw [if_pos adjacent, target]
    exact freeRawMergeNext_refines (p := b.join p) linked
      (swapped.join (by simp [sizeofFreeHeader]) adjacent) high
  · obtain ⟨target, linked, next, size⟩ :=
      freeRawLink_of_not_adjacent list header layout low high adjacent
    rw [if_neg adjacent, target]
    have keep : (freeRawLink m p.addr b.addr).1.Agree
        (freeRawMergeNext (freeRawLink m p.addr b.addr).1 p.addr) b.addr 8 :=
      (freeRawMergeNext_frame _ _).agree fun a mem => by
        rw [List.mem_singleton.mp mem]
        exact header_miss layout (by simp)
    refine ⟨rfl, list.2.1, ?_, ?_⟩
    · rw [headerSize_agree keep, size]
    · rw [headerNext_agree keep, next]
      exact freeRawMergeNext_refines linked
        (layout.sublist ((List.sublist_cons_self b L).cons_cons p)) high

/-- The loop body at a block that does not stop at `p`, seen from `p`. -/
theorem freeRaw_takeOver (list : FreeList m b.addr (b :: L))
    (header : headerSize m p.addr = p.size)
    (layout : Layout lo hi sizeofFreeHeader (p :: b :: L)) (low : 0 < lo) (high : hi < 2 ^ 32)
    (apart : b.stop ≠ p.addr) :
    FreeList (freeRawMergeNext (freeRawLink m p.addr b.addr).1 (freeRawLink m p.addr b.addr).2)
      p.addr (mergeNext p L) := by
  obtain ⟨target, linked, -, -⟩ :=
    freeRawLink_of_not_adjacent list header layout low high apart
  rw [target]
  exact freeRawMergeNext_refines linked
    (layout.sublist ((List.sublist_cons_self b L).cons_cons p)) high

/-- The frame of the loop body, among the headers it can write. -/
theorem freeRawBody_frame {A : List Nat} (ptr block : Nat) (memPtr : ptr ∈ A)
    (memBlock : block ∈ A) :
    HeaderFrame m (freeRawMergeNext (freeRawLink m ptr block).1 (freeRawLink m ptr block).2) A := by
  have target : (freeRawLink m ptr block).2 ∈ A := by
    unfold freeRawLink
    split
    · exact memBlock
    · exact memPtr
  refine ((freeRawLink_frame m ptr block).mono ?_).trans
    ((freeRawMergeNext_frame _ _).mono ?_)
  · simp [memPtr, memBlock]
  · simp [target]

/-- `free_raw` once its assertions hold. -/
theorem freeRaw_eq (fuel ptr size : Nat) (h : Heap) (ne : ptr ≠ 0)
    (large : sizeofFreeHeader ≤ size) :
    freeRaw fuel ptr size h =
      if h.freeHead = 0 then .ok ⟨setHeaderNext (setHeaderSize h.mem ptr size) ptr 0, ptr⟩
      else if ptr < h.freeHead then
        (freeRawLoop fuel (freeRawBeforeHead
          (setHeaderNext (setHeaderSize h.mem ptr size) ptr 0) ptr size h.freeHead) ptr ptr).map
            fun m => ⟨m, ptr⟩
      else
        (freeRawLoop fuel (setHeaderNext (setHeaderSize h.mem ptr size) ptr 0) ptr h.freeHead).map
          fun m => ⟨m, h.freeHead⟩ := by
  rw [freeRaw, assert_pos ne, assert_pos large]
  rfl

/-- `free_raw` is `freeBlock` on the free list, and writes only headers of free blocks. -/
theorem freeRaw_refines (fuel : Nat) {h : Heap} (list : FreeList h.mem h.freeHead L)
    (layout : Layout lo hi sizeofFreeHeader (p :: L)) (low : 0 < lo) (high : hi < 2 ^ 32)
    (safe : MergeSafe L p) (enough : L.length + 1 < fuel) :
    ∃ h', freeRaw fuel p.addr p.size h = .ok h' ∧
      FreeList h'.mem h'.freeHead (freeBlock p L) ∧
      HeaderFrame h.mem h'.mem (p.addr :: L.map Block.addr) := by
  have within := layout.within_head
  simp only [Block.Within] at within
  have ne : p.addr ≠ 0 := by omega
  obtain ⟨list', header, next⟩ := header_written list layout high
  have written : HeaderFrame h.mem (setHeaderNext (setHeaderSize h.mem p.addr p.size) p.addr 0)
      (p.addr :: L.map Block.addr) :=
    (HeaderFrame.setHeaderSize _ (by simp)).trans (HeaderFrame.setHeaderNext _ (by simp))
  rw [freeRaw_eq _ _ _ _ ne layout.grain_le_head]
  generalize setHeaderNext (setHeaderSize h.mem p.addr p.size) p.addr 0 = m at *
  cases L with
  | nil =>
      have null : h.freeHead = 0 := list
      rw [if_pos null]
      exact ⟨_, rfl, ⟨rfl, ne, header, next⟩, written⟩
  | cons b L =>
      have head : h.freeHead = b.addr := list.1
      rw [head] at list' ⊢
      rw [if_neg list'.2.1, freeBlock]
      by_cases below : p.addr < b.addr
      · -- `p` becomes the head, and the loop then starts at `p` itself
        obtain ⟨noWrap, noMerge⟩ := safe b rfl below
        have withinB := layout.tail.within_head
        simp only [Block.Within, Block.stop] at withinB
        rw [if_pos below, if_pos below, freeRawBeforeHead, if_neg noWrap]
        have frame : HeaderFrame m (setHeaderNext m p.addr b.addr) [p.addr] :=
          HeaderFrame.setHeaderNext m (by simp)
        have moved := list'.transport_frame layout frame
        have sizeP : headerSize (setHeaderNext m p.addr b.addr) p.addr = p.size := by
          rw [headerSize_setHeaderNext, header]
        have whole : FreeList (setHeaderNext m p.addr b.addr) p.addr (p :: b :: L) :=
          ⟨rfl, ne, sizeP, by rw [headerNext_setHeaderNext (by omega)]; exact moved⟩
        obtain ⟨c, found⟩ := exists_scanStop p.addr (List.cons_ne_nil b L)
        have foundP : scanStop p.addr (p :: b :: L) = some c := by
          rw [scanStop, if_neg (by simp), found]
        have sub := scanStop_sublist found
        have layoutC : Layout lo hi sizeofFreeHeader (p :: c :: behindScan p.addr (b :: L)) :=
          layout.sublist (sub.cons_cons p)
        have sizeC := layoutC.tail.grain_le_head
        have apart : c.stop ≠ p.addr := fun adjacent =>
          noMerge c (find?_of_scanStop found (by
            simp only [Block.stop, sizeofFreeHeader] at adjacent sizeC
            omega)) adjacent
        rw [freeRawLoop_eq whole foundP (by simpa using enough)]
        refine ⟨_, rfl, ?_, ?_⟩
        · dsimp only
          exact freeRaw_takeOver (moved.at_scanStop found) sizeP layoutC low high apart
        · dsimp only
          refine written.trans ((frame.mono (by simp)).trans (freeRawBody_frame _ _ (by simp) ?_))
          exact List.mem_cons_of_mem _ (List.mem_map_of_mem (sub.subset (by simp)))
      · -- `p` lies behind the head, so the loop stops at the head
        have sizeB := layout.tail.grain_le_head
        have sizeP := layout.grain_le_head
        have apart := layout.apart_of_mem (c := b) (by simp)
        have above : b.addr < p.addr := by
          simp only [Block.Apart, Block.stop, sizeofFreeHeader] at *
          omega
        have found : scanStop p.addr (b :: L) = some b := by rw [scanStop, if_pos (Or.inl above)]
        rw [if_neg below, if_neg below, freeRawLoop_eq list' found (by simp at enough ⊢; omega)]
        refine ⟨_, rfl, ?_, ?_⟩
        · exact freeRaw_insertBehind list' header layout low high
        · exact written.trans (freeRawBody_frame _ _ (by simp) (by simp))

/-- `free_raw` returns on every chain that ends, whatever it makes of it. -/
theorem freeRaw_terminates (fuel : Nat) {h : Heap} (list : FreeList h.mem h.freeHead L)
    (layout : Layout lo hi sizeofFreeHeader (p :: L)) (low : 0 < lo) (high : hi < 2 ^ 32)
    (enough : L.length + 1 < fuel) : ∃ h', freeRaw fuel p.addr p.size h = .ok h' := by
  have within := layout.within_head
  simp only [Block.Within] at within
  have ne : p.addr ≠ 0 := by omega
  obtain ⟨list', -, -⟩ := header_written list layout high
  rw [freeRaw_eq _ _ _ _ ne layout.grain_le_head]
  generalize setHeaderNext (setHeaderSize h.mem p.addr p.size) p.addr 0 = m at *
  split
  · exact ⟨_, rfl⟩
  · split
    · -- the chain that starts at the new head `p` is at most one block longer
      have chain : ∃ L', FreeList (freeRawBeforeHead m p.addr p.size h.freeHead) p.addr L' ∧
          L'.length < fuel := by
        cases L with
        | nil => exact absurd list' ‹_›
        | cons b L =>
            have head : h.freeHead = b.addr := list.1
            rw [head] at list' ⊢
            have withinB := layout.tail.within_head
            simp only [Block.Within, Block.stop] at withinB
            unfold freeRawBeforeHead
            split
            · refine FreeList.exists_cons ne (L := L) ?_ (by simp at enough ⊢; omega)
              have miss := header_miss layout (b := b) (by simp)
              rw [headerNext_setHeaderNext (headerNext_lt _ _),
                headerNext_agree (agree_setHeaderSize miss)]
              exact list'.2.2.2.transport_frame (p := p)
                (layout.sublist ((List.sublist_cons_self b L).cons_cons p))
                ((HeaderFrame.setHeaderSize m (by simp)).trans
                  (HeaderFrame.setHeaderNext _ (by simp)))
            · refine FreeList.exists_cons ne (L := b :: L) ?_ (by simpa using enough)
              rw [headerNext_setHeaderNext (by omega)]
              exact list'.transport_frame layout (HeaderFrame.setHeaderNext m (by simp))
      obtain ⟨L', chain, short⟩ := chain
      obtain ⟨m', run⟩ := freeRawLoop_terminates fuel (p := p.addr) chain short
      exact ⟨_, by rw [run]; rfl⟩
    · obtain ⟨m', run⟩ := freeRawLoop_terminates fuel (p := p.addr) list' (by omega)
      exact ⟨_, by rw [run]; rfl⟩

/-! ## `malloc_raw` -/

/-- Unlinking the block behind `b`. -/
theorem FreeList.unlink {c : Block} : ∀ {pre : List Block} {a : Nat},
    FreeList m a (pre ++ b :: c :: L) →
    Layout lo hi sizeofFreeHeader (pre ++ b :: c :: L) →
    FreeList (setHeaderNext m b.addr (headerNext m c.addr)) a (pre ++ b :: L)
  | [], _, list, layout => by
      obtain ⟨addr, ne, size, -, -, -, rest⟩ := list
      refine ⟨addr, ne, ?_, ?_⟩
      · rw [headerSize_setHeaderNext, size]
      · rw [headerNext_setHeaderNext (headerNext_lt _ _)]
        exact rest.transport_frame (p := b)
          (layout.sublist ((List.sublist_cons_self c L).cons_cons b))
          (HeaderFrame.setHeaderNext m (by simp))
  | d :: pre, _, list, layout => by
      obtain ⟨addr, ne, size, rest⟩ := list
      have miss := header_miss layout (b := b) (by simp)
      have keep : m.Agree (setHeaderNext m b.addr (headerNext m c.addr)) d.addr 8 :=
        agree_setHeaderNext (by simp only [sizeofFreeHeader] at miss; omega)
      refine ⟨addr, ne, ?_, ?_⟩
      · rw [headerSize_agree keep, size]
      · rw [headerNext_agree keep]
        exact rest.unlink layout.tail

/-- The search loop unlinks the first block that fits, or finds none. -/
theorem mallocRawLoop_eq (fuel : Nat) {s : Nat} {h : Heap} : ∀ (steps : Nat)
    (pre : List Block) {T : List Block} {b : Block}, FreeList h.mem h.freeHead (pre ++ b :: T) →
    FreeList h.mem b.addr (b :: T) →
    Layout lo hi sizeofFreeHeader (pre ++ b :: T) → T.length < steps →
    (T.find? (fun c => s ≤ c.size) = none →
      mallocRawLoop fuel s steps b.addr h = .ok (0, h)) ∧
    (∀ c, T.find? (fun c => s ≤ c.size) = some c → ∃ m a,
      mallocRawLoop fuel s steps b.addr h = mallocRawTake fuel c.addr s ⟨m, a⟩ ∧
      FreeList m a (pre ++ b :: T.erase c) ∧ headerSize m c.addr = c.size ∧
      HeaderFrame h.mem m ((pre ++ b :: T).map Block.addr))
  | 0, _, _, _, _, _, _, enough => absurd enough (Nat.not_lt_zero _)
  | steps + 1, pre, [], b, _, tail, _, _ => by
      have null : headerNext h.mem b.addr = 0 := tail.2.2.2
      refine ⟨fun _ => ?_, fun c found => by cases found⟩
      rw [mallocRawLoop, null, if_pos rfl]
  | steps + 1, pre, d :: T, b, list, tail, layout, enough => by
      obtain ⟨next, ne, size, rest⟩ := tail.2.2.2
      have unfolded : mallocRawLoop fuel s (steps + 1) b.addr h =
          if s ≤ d.size then mallocRawTake fuel d.addr s
            ⟨setHeaderNext h.mem b.addr (headerNext h.mem d.addr), h.freeHead⟩
          else mallocRawLoop fuel s steps d.addr h := by
        rw [mallocRawLoop, next, if_neg ne, size]
      rw [unfolded]
      by_cases fits : s ≤ d.size
      · rw [if_pos fits, List.find?_cons_of_pos (by simpa using fits)]
        refine ⟨fun missing => (Option.some_ne_none _ missing).elim, fun c found => ?_⟩
        cases found
        refine ⟨_, _, rfl, ?_, ?_, HeaderFrame.setHeaderNext _ (by simp)⟩
        · rw [List.erase_cons_head]
          exact list.unlink layout
        · have pair : Layout lo hi sizeofFreeHeader (b :: d :: T) :=
            layout.sublist (List.sublist_append_right pre _)
          have miss := header_miss pair (b := d) (by simp)
          rw [headerSize_agree (agree_setHeaderNext miss), size]
      · rw [if_neg fits, List.find?_cons_of_neg (by simpa using fits)]
        have list' : FreeList h.mem h.freeHead ((pre ++ [b]) ++ d :: T) := by simpa using list
        have layout' : Layout lo hi sizeofFreeHeader ((pre ++ [b]) ++ d :: T) := by
          simpa using layout
        obtain ⟨missing, present⟩ := mallocRawLoop_eq fuel steps (pre ++ [b]) (s := s) list'
          ⟨rfl, ne, size, rest⟩ layout' (by simpa using enough)
        refine ⟨missing, fun c found => ?_⟩
        obtain ⟨m, a, run, taken, header, frame⟩ := present c found
        refine ⟨m, a, run, ?_, header, by simpa using frame⟩
        have large : s ≤ c.size := by simpa using List.find?_some found
        have other : d ≠ c := fun same => fits (same ▸ large)
        rw [List.erase_cons_tail (by simpa using other)]
        simpa using taken

/-- `malloc_raw` unlinks the first block that fits, or finds none and changes nothing. -/
theorem mallocRaw_eq_take (fuel : Nat) {s : Nat} {h : Heap} (list : FreeList h.mem h.freeHead L)
    (layout : Layout lo hi sizeofFreeHeader L) (nonempty : L ≠ []) (large : sizeofFreeHeader ≤ s)
    (enough : L.length < fuel) :
    (L.find? (fun b => s ≤ b.size) = none → mallocRaw fuel s h = .ok (0, h)) ∧
    (∀ b, L.find? (fun b => s ≤ b.size) = some b → ∃ m a,
      mallocRaw fuel s h = mallocRawTake fuel b.addr s ⟨m, a⟩ ∧
      FreeList m a (L.erase b) ∧ headerSize m b.addr = b.size ∧
      HeaderFrame h.mem m (L.map Block.addr)) := by
  cases L with
  | nil => exact absurd rfl nonempty
  | cons b L =>
      obtain ⟨head, ne, size, rest⟩ := list
      have unfolded : mallocRaw fuel s h =
          if s ≤ b.size then mallocRawTake fuel b.addr s ⟨h.mem, headerNext h.mem b.addr⟩
          else mallocRawLoop fuel s fuel b.addr h := by
        rw [mallocRaw, assert_pos large, Except.ok_bind, head, if_neg ne, size]
      rw [unfolded]
      by_cases fits : s ≤ b.size
      · rw [if_pos fits, List.find?_cons_of_pos (by simpa using fits)]
        refine ⟨fun missing => (Option.some_ne_none _ missing).elim, fun c found => ?_⟩
        cases found
        exact ⟨_, _, rfl, by rw [List.erase_cons_head]; exact rest, size, HeaderFrame.refl _ _⟩
      · rw [if_neg fits, List.find?_cons_of_neg (by simpa using fits)]
        obtain ⟨missing, present⟩ := mallocRawLoop_eq fuel fuel [] (s := s) (h := h)
          ⟨head, ne, size, rest⟩ ⟨rfl, ne, size, rest⟩ layout
          (by simp at enough; omega)
        refine ⟨missing, fun c found => ?_⟩
        obtain ⟨m, a, run, taken, header, frame⟩ := present c found
        refine ⟨m, a, run, ?_, header, frame⟩
        have fitsC : s ≤ c.size := by simpa using List.find?_some found
        have other : b ≠ c := fun same => fits (same ▸ fitsC)
        rw [List.erase_cons_tail (by simpa using other)]
        exact taken

/-- Giving back the unused end of the block that `malloc_raw` has unlinked. -/
theorem mallocRawTake_refines (fuel : Nat) {s : Nat} {h : Heap} (list : FreeList h.mem h.freeHead L)
    (header : headerSize h.mem b.addr = b.size)
    (layout : Layout lo hi sizeofFreeHeader (b :: L)) (low : 0 < lo) (high : hi < 2 ^ 32)
    (large : sizeofFreeHeader ≤ s) (enough : L.length + 1 < fuel)
    (safe : s + sizeofFreeHeader ≤ b.size → MergeSafe L ⟨b.addr + s, b.size - s⟩) :
    ∃ h', mallocRawTake fuel b.addr s h = .ok (b.addr, h') ∧
      FreeList h'.mem h'.freeHead (if s + sizeofFreeHeader ≤ b.size
        then freeBlock ⟨b.addr + s, b.size - s⟩ L else L) ∧
      ∀ x, (∀ c ∈ b :: L, x < c.addr ∨ c.stop ≤ x) → h'.mem x = h.mem x := by
  have within := layout.within_head
  simp only [Block.Within, Block.stop] at within
  have positive : 0 < sizeofFreeHeader := by simp [sizeofFreeHeader]
  by_cases room : s + sizeofFreeHeader ≤ b.size
  · have remainder : sizeofFreeHeader ≤ headerSize h.mem b.addr - s := by omega
    have parts := layout.cut large room
    obtain ⟨h', run, list', frame⟩ :=
      freeRaw_refines fuel (p := ⟨b.addr + s, b.size - s⟩) (h := h) list parts.tail
        low high (safe room) enough
    rw [mallocRawTake, if_pos remainder, sizeT_of_lt (by omega), header, if_pos room, run]
    refine ⟨_, rfl, ?_, ?_⟩
    · -- the header of the block handed out lies before every block of the new list
      have rest : Layout lo hi sizeofFreeHeader
          (freeBlock ⟨b.addr + s, b.size - s⟩ L ++ [⟨b.addr, s⟩]) := by
        refine freeBlock_layout positive (parts.perm ?_)
        exact (List.perm_append_singleton _ (_ :: L)).symm
      refine list'.transport_frame (p := ⟨b.addr, s⟩) (rest.perm ?_)
        (HeaderFrame.setHeaderSize _ (by simp))
      exact List.perm_append_singleton _ _
    · intro x outside
      have farB := outside b (by simp)
      simp only [Block.stop] at farB
      have kept : h'.mem x = h.mem x := by
        refine frame x fun a mem => ?_
        rcases List.mem_cons.mp mem with rfl | mem
        · simp only
          omega
        · obtain ⟨c, memC, rfl⟩ := List.mem_map.mp mem
          have far := outside c (by simp [memC])
          have size := layout.tail.grain_le c memC
          simp only [Block.stop] at far
          omega
      rw [← kept]
      refine HeaderFrame.setHeaderSize (A := [b.addr]) _ (by simp) x fun a mem => ?_
      rw [List.mem_singleton.mp mem]
      simp only [sizeofFreeHeader] at room ⊢
      omega
  · have tooSmall : ¬ sizeofFreeHeader ≤ headerSize h.mem b.addr - s := by omega
    rw [mallocRawTake, if_neg tooSmall, if_neg room]
    exact ⟨h, rfl, list, fun _ _ => rfl⟩

/-- `malloc_raw` is first fit: it returns the first block that holds `s` bytes and leaves
`mallocRest`, or returns `NULL` and changes nothing. It writes only inside free blocks. -/
theorem mallocRaw_refines (fuel : Nat) {s : Nat} {h : Heap} (list : FreeList h.mem h.freeHead L)
    (layout : Layout lo hi sizeofFreeHeader L) (low : 0 < lo) (high : hi < 2 ^ 32)
    (nonempty : L ≠ []) (large : sizeofFreeHeader ≤ s) (enough : L.length + 1 < fuel)
    (safe : ∀ b, L.find? (fun b => s ≤ b.size) = some b → s + sizeofFreeHeader ≤ b.size →
      MergeSafe (L.erase b) ⟨b.addr + s, b.size - s⟩) :
    (L.find? (fun b => s ≤ b.size) = none ∧ mallocRaw fuel s h = .ok (0, h)) ∨
    ∃ b h', L.find? (fun b => s ≤ b.size) = some b ∧ mallocRaw fuel s h = .ok (b.addr, h') ∧
      FreeList h'.mem h'.freeHead (mallocRest s b L) ∧
      ∀ x, (∀ c ∈ L, x < c.addr ∨ c.stop ≤ x) → h'.mem x = h.mem x := by
  obtain ⟨missing, present⟩ :=
    mallocRaw_eq_take fuel (s := s) list layout nonempty large (by omega)
  cases found : L.find? (fun b => s ≤ b.size) with
  | none => exact Or.inl ⟨rfl, missing found⟩
  | some b =>
      have mem : b ∈ L := List.mem_of_find?_eq_some found
      have unlinked := List.perm_cons_erase mem
      obtain ⟨m, a, run, list', header, frame⟩ := present b found
      obtain ⟨h', taken, final, kept⟩ := mallocRawTake_refines fuel (h := ⟨m, a⟩)
        list' header (layout.perm unlinked) low high large
        (by have := List.length_erase_of_mem mem; omega) (safe b found)
      refine Or.inr ⟨b, h', rfl, run.trans taken, final, fun x outside => ?_⟩
      rw [kept x fun c memC => outside c (unlinked.mem_iff.mpr memC)]
      refine frame x fun p memP => ?_
      obtain ⟨c, memC, rfl⟩ := List.mem_map.mp memP
      have far := outside c memC
      have size := layout.grain_le c memC
      simp only [Block.stop] at far
      omega

/-- `malloc_raw` returns on every nonempty chain that ends. -/
theorem mallocRaw_terminates (fuel : Nat) {s : Nat} {h : Heap} (list : FreeList h.mem h.freeHead L)
    (layout : Layout lo hi sizeofFreeHeader L) (low : 0 < lo) (high : hi < 2 ^ 32)
    (nonempty : L ≠ []) (large : sizeofFreeHeader ≤ s) (enough : L.length + 1 < fuel) :
    ∃ r, mallocRaw fuel s h = .ok r := by
  obtain ⟨missing, present⟩ :=
    mallocRaw_eq_take fuel (s := s) list layout nonempty large (by omega)
  cases found : L.find? (fun b => s ≤ b.size) with
  | none => exact ⟨_, missing found⟩
  | some b =>
      have mem : b ∈ L := List.mem_of_find?_eq_some found
      obtain ⟨m, a, run, list', header, -⟩ := present b found
      have whole := layout.perm (List.perm_cons_erase mem)
      have within := whole.within_head
      simp only [Block.Within, Block.stop] at within
      have fits : s ≤ b.size := by simpa using List.find?_some found
      rw [run, mallocRawTake]
      split
      · have room : s + sizeofFreeHeader ≤ b.size := by
          simp only [header] at *
          omega
        obtain ⟨h', freed⟩ := freeRaw_terminates fuel (p := ⟨b.addr + s, b.size - s⟩)
          (h := ⟨m, a⟩) list' (whole.cut large room).tail low high
          (by have := List.length_erase_of_mem mem; omega)
        rw [sizeT_of_lt (by omega), header, freed]
        exact ⟨_, rfl⟩
      · exact ⟨_, rfl⟩

/-! ## `get_free_size` -/

/-- `get_free_size` adds up the blocks of the list. -/
theorem getFreeSizeLoop_eq : ∀ {L : List Block} {a fuel acc : Nat}, FreeList m a L →
    L.length < fuel → acc + total L < 2 ^ 32 →
    getFreeSizeLoop m fuel a acc = .ok (acc + total L)
  | _, _, 0, _, _, enough, _ => absurd enough (Nat.not_lt_zero _)
  | [], a, fuel + 1, acc, list, _, _ => by
      have null : a = 0 := list
      rw [getFreeSizeLoop, if_pos null, total_nil, Nat.add_zero]
  | b :: L, a, fuel + 1, acc, list, enough, bound => by
      obtain ⟨rfl, ne, size, rest⟩ := list
      rw [total_cons] at bound ⊢
      rw [getFreeSizeLoop, if_neg ne, size, sizeT_of_lt (by omega),
        getFreeSizeLoop_eq rest (by simpa using enough) (by omega), Nat.add_assoc]

/-- `get_free_size` returns on every chain that ends. -/
theorem getFreeSizeLoop_terminates {a : Nat} (list : FreeList m a L) (acc : Nat) :
    ∃ fuel size, getFreeSizeLoop m fuel a acc = .ok size := by
  induction L generalizing a acc with
  | nil =>
      have null : a = 0 := list
      exact ⟨1, acc, by rw [getFreeSizeLoop, if_pos null]⟩
  | cons b L ih =>
      obtain ⟨rfl, ne, -, rest⟩ := list
      obtain ⟨fuel, size, run⟩ := ih rest (sizeT (acc + headerSize m b.addr))
      exact ⟨fuel + 1, size, by rw [getFreeSizeLoop, if_neg ne, run]⟩

end Refinement

section Layouts

variable {lo hi s : Nat} {L R : List Block} {b : Block}

/-- The block handed out by `malloc_raw` and the list it leaves are again a layout. -/
theorem mallocRest_layout (layout : Layout lo hi sizeofFreeHeader (L ++ R)) (mem : b ∈ L)
    (large : sizeofFreeHeader ≤ s) (fits : s ≤ b.size) :
    Layout lo hi sizeofFreeHeader (mallocRest s b L ++ ⟨b.addr, s⟩ :: R) := by
  have front : Layout lo hi sizeofFreeHeader (b :: (L.erase b ++ R)) :=
    layout.perm ((List.perm_cons_erase mem).append_right R)
  unfold mallocRest
  split
  · refine freeBlock_layout (by simp [sizeofFreeHeader]) ?_
    refine (front.cut large ‹_›).perm ((List.Perm.swap _ _ _).trans ?_)
    exact (List.perm_middle.symm).cons _
  · refine (front.shrink (c := ⟨b.addr, s⟩) ?_ large).perm List.perm_middle.symm
    simp only [Block.Covers, Block.stop]
    omega

end Layouts

end TheFirmware.Malloc
