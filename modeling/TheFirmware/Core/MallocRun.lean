import TheFirmware.Core.MallocList

/-!
# Runs of the allocator

A run starts with `malloc_init` and makes calls of `malloc_raw`, of `free_raw` on live
allocations, and stores of the clients into their own allocations. `Reachable ok start stop` are
the states of the runs on the heap `[start, stop)` all of whose calls satisfy `ok` in the state in
which they are made; a call that faults has no next state.

`free_raw` inserts a block that lies before the head in two places: it makes it the head, and then
falls into the insertion loop, which links it or merges it once more. So the allocator is safe and
its list acyclic only as long as no call coalesces such a block (`MergesSafely`), and it loses
blocks as soon as a call frees below the head (`FreesBehindHead`).

`malloc_raw` looks at the first block before it checks that there is one, and `malloc` stores
through what `malloc_raw` has returned, so that an exhausted heap is not reported
(`noneFits_unreported`).
-/

namespace TheFirmware.Malloc

/-! ## States and calls -/

/-- The heap, the live allocations, and the number of `malloc_raw` calls made so far. -/
structure State : Type where
  heap : Heap
  live : List Block
  calls : Nat

/-- One step of a client. -/
inductive Call : Type
  | malloc (size : Nat)
  | free (b : Block)
  | store (a : Nat) (v : BitVec 8)

/-- The state after a call. A `NULL` result of `malloc_raw` is no allocation. -/
def exec (fuel : Nat) : Call → State → Except Fault State
  | .malloc size, st => do
      let (p, h) ← mallocRaw fuel size st.heap
      return ⟨h, if p = 0 then st.live else ⟨p, size⟩ :: st.live, st.calls + 1⟩
  | .free b, st => do
      let h ← freeRaw fuel b.addr b.size st.heap
      return ⟨h, st.live.erase b, st.calls⟩
  | .store a v, st => return ⟨⟨st.heap.mem.store8 a v, st.heap.freeHead⟩, st.live, st.calls⟩

/-- The calls a client may make: sizes of at least a header, live allocations, and stores into
live allocations. -/
def Legal (st : State) : Call → Prop
  | .malloc size => sizeofFreeHeader ≤ size
  | .free b => b ∈ st.live
  | .store a _ => ∃ b ∈ st.live, b.addr ≤ a ∧ a < b.stop

instance (st : State) : (call : Call) → Decidable (Legal st call)
  | .malloc _ => inferInstanceAs (Decidable (_ ≤ _))
  | .free _ => inferInstanceAs (Decidable (_ ∈ _))
  | .store _ _ => inferInstanceAs (Decidable (∃ b ∈ st.live, _ ∧ _))

/-- The states of the runs on `[start, stop)` all of whose calls satisfy `ok`. -/
inductive Reachable (ok : State → Call → Prop) (start stop : Nat) : State → Prop
  | init {fuel : Nat} {m : Mem} {h : Heap} (run : mallocInit fuel start stop m = .ok h) :
      Reachable ok start stop ⟨h, [], 0⟩
  | step {fuel : Nat} {st st' : State} {call : Call} (before : Reachable ok start stop st)
      (legal : Legal st call) (allowed : ok st call) (run : exec fuel call st = .ok st') :
      Reachable ok start stop st'

/-- `[start, stop)` is a range of addresses. -/
def HeapRange (start stop : Nat) : Prop := start ≤ stop ∧ stop < 2 ^ 32

/-- The calls of `free_raw` that a call makes on the free list `L`: its own, or the one of
`malloc_raw` for the unused end of the block it takes. -/
def FreeCalls (P : List Block → Block → Prop) (L : List Block) : Call → Prop
  | .malloc s => ∀ b, L.find? (fun b => s ≤ b.size) = some b → s + sizeofFreeHeader ≤ b.size →
      P (L.erase b) ⟨b.addr + s, b.size - s⟩
  | .free b => P L b
  | .store _ _ => True

/-- No `free_raw` merges a block after having made it the head. -/
def MergesSafely (st : State) (call : Call) : Prop :=
  ∀ L, FreeList st.heap.mem st.heap.freeHead L → FreeCalls MergeSafe L call

/-- The block lies behind the head of the list, if there is one. -/
def BehindHead (L : List Block) (p : Block) : Prop := ∀ b, L.head? = some b → b.addr < p.addr

/-- No `free_raw` is given a block below the head. -/
def FreesBehindHead (st : State) (call : Call) : Prop :=
  ∀ L, FreeList st.heap.mem st.heap.freeHead L → FreeCalls BehindHead L call

theorem FreeCalls.imp {P Q : List Block → Block → Prop} {L : List Block} {call : Call}
    (implies : ∀ L p, P L p → Q L p) (calls : FreeCalls P L call) : FreeCalls Q L call := by
  cases call with
  | malloc s => exact fun b found room => implies _ _ (calls b found room)
  | free b => exact implies _ _ calls
  | store a v => trivial

theorem BehindHead.mergeSafe {L : List Block} {p : Block} (behind : BehindHead L p) :
    MergeSafe L p := by
  intro b head below
  exact absurd (behind b head) (by omega)

/-! ## The invariant -/

/-- The free list is a chain of blocks, and these and the live allocations are a layout of the
heap. -/
structure Sound (start stop : Nat) (st : State) (L : List Block) : Prop where
  list : FreeList st.heap.mem st.heap.freeHead L
  layout : Layout start stop sizeofFreeHeader (L ++ st.live)

section Invariant

variable {start stop fuel : Nat} {st st' : State} {L : List Block} {call : Call}

theorem mallocInit_sound {m : Mem} {h : Heap} (range : HeapRange start stop)
    (run : mallocInit fuel start stop m = .ok h) :
    0 < start ∧ Sound start stop ⟨h, [], 0⟩ [⟨start, stop - start⟩] := by
  obtain ⟨ordered, high⟩ := range
  have size : sizeT (stop + 2 ^ 32 - start) = stop - start := by
    simp only [sizeT]
    omega
  rw [mallocInit, size] at run
  have checks : start ≠ 0 ∧ sizeofFreeHeader ≤ stop - start := by
    rw [freeRaw, Except.bind_eq_ok] at run
    obtain ⟨_, first, run⟩ := run
    rw [Except.bind_eq_ok] at run
    obtain ⟨_, second, _⟩ := run
    exact ⟨assert_eq_ok.mp first, assert_eq_ok.mp second⟩
  rw [freeRaw_eq _ _ _ _ checks.1 checks.2, if_pos rfl] at run
  cases run
  refine ⟨by omega, ⟨rfl, checks.1, ?_, ?_⟩, ?_⟩
  · simp only
    rw [headerSize_setHeaderNext, headerSize_setHeaderSize (by omega)]
  · exact headerNext_setHeaderNext (by omega)
  · refine Layout.nil.cons ?_ checks.2 (by simp)
    simp only [Block.Within, Block.stop]
    omega

/-- A live allocation next to the free list. -/
theorem Sound.layout_cons {b : Block} (sound : Sound start stop st L) (live : b ∈ st.live) :
    Layout start stop sizeofFreeHeader (b :: L ++ st.live.erase b) :=
  sound.layout.perm (((List.perm_cons_erase live).append_left L).trans List.perm_middle)

theorem Sound.layout_free (sound : Sound start stop st L) :
    Layout start stop sizeofFreeHeader L :=
  sound.layout.sublist (List.sublist_append_left L st.live)

/-- The free list a call leaves. -/
def listAfter (L : List Block) : Call → List Block
  | .malloc s => match L.find? (fun b => s ≤ b.size) with
    | none => L
    | some b => mallocRest s b L
  | .free b => freeBlock b L
  | .store _ _ => L

/-- The live allocations a call leaves. -/
def liveAfter (L live : List Block) : Call → List Block
  | .malloc s => match L.find? (fun b => s ≤ b.size) with
    | none => live
    | some b => ⟨b.addr, s⟩ :: live
  | .free b => live.erase b
  | .store _ _ => live

/-- The number of `malloc_raw` calls after a call. -/
def callsAfter (calls : Nat) : Call → Nat
  | .malloc _ => calls + 1
  | .free _ => calls
  | .store _ _ => calls

theorem exec_mono {fuel' : Nat} (le : fuel ≤ fuel') (call : Call) (st : State) :
    ReturnsLe (exec fuel call st) (exec fuel' call st) := by
  cases call with
  | malloc s => exact .bind (mallocRaw_mono le _ _) fun _ => .refl _
  | free b => exact .bind (freeRaw_mono le _ _ _) fun _ => .refl _
  | store a v => exact .refl _

/-- `malloc_raw` with an empty list reads through `NULL`. -/
theorem mallocRaw_of_null {s : Nat} {h : Heap} (large : sizeofFreeHeader ≤ s)
    (null : h.freeHead = 0) : mallocRaw fuel s h = .error .nullDeref := by
  rw [mallocRaw, assert_pos large, Except.ok_bind, if_pos null]
  rfl

/-- What a call does that returns: the code runs as the functions on block lists. -/
theorem Sound.exec_inv (sound : Sound start stop st L) (low : 0 < start) (high : stop < 2 ^ 32)
    (legal : Legal st call) (safe : FreeCalls MergeSafe L call)
    (run : exec fuel call st = .ok st') :
    FreeList st'.heap.mem st'.heap.freeHead (listAfter L call) ∧
      st'.live = liveAfter L st.live call ∧ st'.calls = callsAfter st.calls call := by
  -- the refinement theorems speak of enough fuel, the run of any fuel that returned
  have more := exec_mono (Nat.le_add_right fuel (L.length + 2)) call st st' run
  have enough : L.length + 1 < fuel + (L.length + 2) := by omega
  clear run
  generalize fuel + (L.length + 2) = fuel at more enough
  cases call with
  | malloc s =>
      have nonempty : L ≠ [] := by
        rintro rfl
        rw [exec, mallocRaw_of_null legal sound.list] at more
        cases more
      rcases mallocRaw_refines fuel sound.list sound.layout_free low high nonempty legal enough
        safe with ⟨missing, ran⟩ | ⟨b, h', found, ran, list, -⟩
      · rw [exec, ran] at more
        cases more
        rw [listAfter, liveAfter, missing]
        exact ⟨sound.list, rfl, rfl⟩
      · have within := sound.layout_free.within b (List.mem_of_find?_eq_some found)
        simp only [Block.Within] at within
        rw [exec, ran] at more
        cases more
        rw [listAfter, liveAfter, found]
        exact ⟨list, if_neg (by omega), rfl⟩
  | free b =>
      have layout := sound.layout_cons legal
      obtain ⟨h', ran, list, -⟩ := freeRaw_refines fuel sound.list
        (layout.sublist (List.sublist_append_left _ _)) low high safe enough
      rw [exec, ran] at more
      cases more
      exact ⟨list, rfl, rfl⟩
  | store a v =>
      cases more
      obtain ⟨owner, mem, inside⟩ := legal
      refine ⟨sound.list.transport fun b memB => Mem.agree_store8 ?_, rfl, rfl⟩
      have apart := (List.pairwise_append.mp sound.layout.apart).2.2 b memB owner mem
      have size := sound.layout_free.grain_le b memB
      simp only [Block.Apart, Block.stop, sizeofFreeHeader] at *
      omega

/-- A call keeps the layout. -/
theorem Sound.layout_after (sound : Sound start stop st L) (legal : Legal st call) :
    Layout start stop sizeofFreeHeader (listAfter L call ++ liveAfter L st.live call) := by
  cases call with
  | malloc s =>
      rw [listAfter, liveAfter]
      cases found : L.find? (fun b => s ≤ b.size) with
      | none => exact sound.layout
      | some b =>
          have fits : s ≤ b.size := by simpa using List.find?_some found
          exact mallocRest_layout sound.layout (List.mem_of_find?_eq_some found) legal fits
  | free b => exact freeBlock_layout (by simp [sizeofFreeHeader]) (sound.layout_cons legal)
  | store a v => exact sound.layout

/-- A call that returns keeps the invariant. -/
theorem Sound.exec (sound : Sound start stop st L) (low : 0 < start) (high : stop < 2 ^ 32)
    (legal : Legal st call) (safe : FreeCalls MergeSafe L call)
    (run : exec fuel call st = .ok st') : Sound start stop st' (listAfter L call) := by
  obtain ⟨list, live, -⟩ := sound.exec_inv low high legal safe run
  exact ⟨list, live ▸ sound.layout_after legal⟩

/-- The invariant holds in every state of a run that merges safely. -/
theorem Reachable.sound {ok : State → Call → Prop}
    (implies : ∀ st call, ok st call → MergesSafely st call) (range : HeapRange start stop)
    (reach : Reachable ok start stop st) : 0 < start ∧ ∃ L, Sound start stop st L := by
  induction reach with
  | init run =>
      obtain ⟨low, sound⟩ := mallocInit_sound range run
      exact ⟨low, _, sound⟩
  | step _ legal allowed run ih =>
      obtain ⟨low, L, sound⟩ := ih
      exact ⟨low, _, sound.exec low range.2 legal (implies _ _ allowed L sound.list) run⟩

/-! ## Blocks on the free list -/

/-- The addresses reachable from `free_head` over `next` pointers. -/
inductive OnFreeList (h : Heap) : Nat → Prop
  | head (ne : h.freeHead ≠ 0) : OnFreeList h h.freeHead
  | next {a : Nat} (before : OnFreeList h a) (ne : headerNext h.mem a ≠ 0) :
      OnFreeList h (headerNext h.mem a)

/-- The block at an address of the free list. -/
def blockAt (h : Heap) (a : Nat) : Block := ⟨a, headerSize h.mem a⟩

theorem FreeList.blockAt_eq {h : Heap} {a : Nat} {b : Block} (list : FreeList h.mem a L)
    (mem : b ∈ L) : blockAt h b.addr = b := by
  induction L generalizing a with
  | nil => cases mem
  | cons c L ih =>
      obtain ⟨-, -, size, rest⟩ := list
      rcases List.mem_cons.mp mem with rfl | mem
      · rw [blockAt, size]
      · exact ih rest mem

/-- The reachable addresses are those of the blocks of the list. -/
theorem FreeList.onFreeList_iff {h : Heap} {a : Nat} (list : FreeList h.mem h.freeHead L) :
    OnFreeList h a ↔ blockAt h a ∈ L := by
  -- a position of the list, with the blocks in front of it reachable and the rest still to come
  have walk : ∀ (T : List Block) (x : Nat), FreeList h.mem x T → (x ≠ 0 → OnFreeList h x) →
      ∀ b ∈ T, OnFreeList h b.addr := by
    intro T
    induction T with
    | nil => intro x _ _ b mem; cases mem
    | cons c T ih =>
        rintro x ⟨rfl, ne, size, rest⟩ reached b mem
        rcases List.mem_cons.mp mem with rfl | mem
        · exact reached ne
        · exact ih _ rest (fun neNext => .next (reached ne) neNext) b mem
  have closed : ∀ (T : List Block) (x : Nat), FreeList h.mem x T → ∀ b ∈ T,
      headerNext h.mem b.addr ≠ 0 → blockAt h (headerNext h.mem b.addr) ∈ T := by
    intro T
    induction T with
    | nil => intro x _ b mem; cases mem
    | cons c T ih =>
        rintro x ⟨rfl, ne, size, rest⟩ b mem neNext
        rcases List.mem_cons.mp mem with rfl | mem
        · cases T with
          | nil => exact absurd rest neNext
          | cons d T =>
              rw [rest.1, blockAt, rest.2.2.1]
              simp
        · exact List.mem_cons_of_mem _ (ih _ rest b mem neNext)
  constructor
  · intro reached
    induction reached with
    | head ne =>
        cases L with
        | nil => exact absurd list ne
        | cons b L =>
            rw [list.1, blockAt, list.2.2.1]
            simp
    | @next a _ ne ih => exact closed L _ list (blockAt h a) ih ne
  · intro mem
    exact walk L _ list .head (blockAt h a) mem

/-! ## Safety -/

/-- Live allocations are pairwise disjoint, inside the heap, and disjoint from the blocks on the
free list, which are pairwise disjoint. -/
structure Safe (start stop : Nat) (st : State) : Prop where
  live_apart : st.live.Pairwise Block.Apart
  live_within : ∀ b ∈ st.live, b.Within start stop
  live_free : ∀ b ∈ st.live, ∀ a, OnFreeList st.heap a → b.Apart (blockAt st.heap a)
  free_apart : ∀ a c, OnFreeList st.heap a → OnFreeList st.heap c → a ≠ c →
    (blockAt st.heap a).Apart (blockAt st.heap c)

theorem Sound.safe (sound : Sound start stop st L) : Safe start stop st := by
  obtain ⟨free, live, between⟩ := List.pairwise_append.mp sound.layout.apart
  have symm : Std.Symm Block.Apart := ⟨fun _ _ => Block.Apart.symm⟩
  refine ⟨live, fun b mem => sound.layout.within b (by simp [mem]), ?_, ?_⟩
  · intro b mem a reached
    exact (between _ (sound.list.onFreeList_iff.mp reached) b mem).symm
  · intro a c reachedA reachedC ne
    refine free.forall (sound.list.onFreeList_iff.mp reachedA)
      (sound.list.onFreeList_iff.mp reachedC) fun same => ne ?_
    exact congrArg Block.addr same

/-- **Allocator safety**, in every run in which no `free_raw` merges a block it has made the
head. -/
theorem reachable_safe (start stop : Nat) (range : HeapRange start stop) (st : State)
    (reach : Reachable MergesSafely start stop st) : Safe start stop st := by
  obtain ⟨-, L, sound⟩ := reach.sound (fun _ _ allowed => allowed) range
  exact sound.safe

/-! ## Concrete runs -/

/-- Make the calls one after the other, as long as they are legal, allowed, and return. -/
def runCalls (allowed : State → Call → Bool) (fuel : Nat) : List Call → State → Option State
  | [], st => some st
  | call :: calls, st =>
      if Legal st call ∧ allowed st call then
        match exec fuel call st with
        | .ok st' => runCalls allowed fuel calls st'
        | .error _ => none
      else none

/-- All calls are allowed. -/
def anyCall (_ : State) (_ : Call) : Bool := true

theorem Reachable.runCalls {ok : State → Call → Prop} {allowed : State → Call → Bool}
    {calls : List Call} (sound : ∀ st call, allowed st call = true → ok st call)
    (reach : Reachable ok start stop st) (run : runCalls allowed fuel calls st = some st') :
    Reachable ok start stop st' := by
  induction calls generalizing st with
  | nil =>
      cases run
      exact reach
  | cons call calls ih =>
      rw [Malloc.runCalls] at run
      split at run
      · split at run
        · rename_i may _ _ ran
          exact ih (reach.step may.1 (sound _ _ may.2) ran) run
        · cases run
      · cases run

/-- A heap of zero bytes with all of `[start, stop)` free. -/
def freshState (start stop : Nat) : State :=
  ⟨⟨setHeaderNext (setHeaderSize (fun _ => 0) start (stop - start)) start 0, start⟩, [], 0⟩

theorem reachable_freshState {ok : State → Call → Prop} (range : HeapRange start stop)
    (low : 0 < start) (size : start + sizeofFreeHeader ≤ stop) :
    Reachable ok start stop (freshState start stop) := by
  obtain ⟨ordered, high⟩ := range
  refine @Reachable.init _ _ _ 0 (fun _ => 0) _ ?_
  have bytes : sizeT (stop + 2 ^ 32 - start) = stop - start := by
    simp only [sizeT]
    omega
  rw [mallocInit, bytes, freeRaw_eq _ _ _ _ (by omega) (by omega), if_pos rfl]

/-- The whole heap is one free block. -/
theorem freeList_freshState (range : HeapRange start stop) (low : 0 < start) :
    FreeList (freshState start stop).heap.mem (freshState start stop).heap.freeHead
      [⟨start, stop - start⟩] := by
  obtain ⟨ordered, high⟩ := range
  refine ⟨rfl, Nat.ne_of_gt low, ?_, headerNext_setHeaderNext (by omega)⟩
  rw [freshState, headerSize_setHeaderNext, headerSize_setHeaderSize (by omega)]

/-- A block is freed behind the head, or into an empty list; `malloc_raw` is called when there is one
block at most. -/
def freesBehind (st : State) : Call → Bool
  | .malloc _ => st.heap.freeHead = 0 ∨ headerNext st.heap.mem st.heap.freeHead = 0
  | .free b => st.heap.freeHead = 0 ∨ st.heap.freeHead < b.addr
  | .store _ _ => true

theorem freesBehindHead_of_freesBehind (st : State) (call : Call)
    (behind : freesBehind st call = true) : FreesBehindHead st call := by
  intro L list
  cases call with
  | malloc s =>
      intro b found room
      have few := of_decide_eq_true behind
      cases L with
      | nil => cases found
      | cons c L =>
          rcases list with ⟨head, nonzero, -, rest⟩
          rw [head] at few
          rw [few.resolve_left nonzero] at rest
          cases L with
          | cons d L => exact absurd rest.1.symm rest.2.1
          | nil =>
              have single : b = c := List.mem_singleton.mp (List.mem_of_find?_eq_some found)
              rw [single, List.erase_cons_head]
              intro d head
              cases head
  | free b =>
      have behind := of_decide_eq_true behind
      intro c first
      cases L with
      | nil => cases first
      | cons d L =>
          cases first
          rcases list with ⟨head, nonzero, -, -⟩
          rw [head] at behind
          exact behind.resolve_left nonzero
  | store a v => trivial

/-- Takes the whole heap in four blocks, stores into the third one, and frees the first two, which are
merged, and the last one. -/
def mergeCalls : List Call :=
  [.malloc 8, .malloc 8, .malloc 8, .malloc 8, .store 24 0xAA,
    .free ⟨8, 8⟩, .free ⟨16, 8⟩, .free ⟨32, 8⟩]

/-- After `mergeCalls` there are two blocks on the free list, on both sides of the third one. -/
theorem exists_reachable_merged {ok : State → Call → Prop}
    (allows : ∀ st call, FreesBehindHead st call → ok st call) :
    ∃ st, runCalls freesBehind 8 mergeCalls (freshState 8 40) = some st ∧
      st.live = [⟨24, 8⟩] ∧
      (st.heap.freeHead = 8 ∧ headerSize st.heap.mem 8 = 16 ∧ headerNext st.heap.mem 8 = 32) ∧
      Reachable ok 8 40 st := by
  have trace : ((runCalls freesBehind 8 mergeCalls (freshState 8 40)).map fun st =>
      (st.live, st.heap.freeHead, headerSize st.heap.mem 8, headerNext st.heap.mem 8)) =
        some ([⟨24, 8⟩], 8, 16, 32) := by
    decide +kernel
  rcases Option.map_eq_some_iff.mp trace with ⟨st, run, shape⟩
  simp only [Prod.mk.injEq] at shape
  refine ⟨st, run, shape.1, shape.2, ?_⟩
  exact (reachable_freshState ⟨by decide, by decide⟩ (by decide) (by decide)).runCalls
    (fun st call behind => allows st call (freesBehindHead_of_freesBehind st call behind)) run

theorem FreesBehindHead.mergesSafely {st : State} {call : Call}
    (behind : FreesBehindHead st call) : MergesSafely st call :=
  fun L list => (behind L list).imp fun _ _ => BehindHead.mergeSafe

theorem reachable_safe_merged :
    ∃ st, runCalls freesBehind 8 mergeCalls (freshState 8 40) = some st ∧
      headerSize st.heap.mem 8 = 16 ∧ Safe 8 40 st := by
  rcases exists_reachable_merged fun _ _ behind => behind.mergesSafely with
    ⟨st, run, -, merged, reach⟩
  exact ⟨st, run, merged.2.1, reachable_safe 8 40 ⟨by decide, by decide⟩ st reach⟩

/-- Frees the third of five neighbours, and then, with the first taken again and so the fifth at
the head, the fourth. -/
def overlapCalls : List Call :=
  [.malloc 8, .malloc 8, .malloc 8, .malloc 8, .malloc 8,
    .free ⟨8, 8⟩, .free ⟨24, 8⟩, .free ⟨40, 8⟩, .malloc 8, .free ⟨32, 8⟩]

/-- After `overlapCalls` the block at 32 is on the free list by itself and inside the block at
24. -/
theorem free_blocks_overlap :
    ¬ ∀ start stop, HeapRange start stop → ∀ st, Reachable (fun _ _ => True) start stop st →
      Safe start stop st := by
  intro claim
  have range : HeapRange 8 72 := ⟨by decide, by decide⟩
  have trace : ((runCalls anyCall 8 overlapCalls (freshState 8 72)).map fun st =>
      (st.heap.freeHead, headerNext st.heap.mem 32, headerNext st.heap.mem 40,
        headerSize st.heap.mem 32, headerSize st.heap.mem 24)) = some (32, 40, 24, 8, 16) := by
    decide +kernel
  obtain ⟨st, run, shape⟩ := Option.map_eq_some_iff.mp trace
  simp only [Prod.mk.injEq] at shape
  obtain ⟨head, next, last, size, joined⟩ := shape
  have safe := claim 8 72 range st
    ((reachable_freshState range (by decide) (by decide)).runCalls (fun _ _ _ => trivial) run)
  have at32 : OnFreeList st.heap 32 := head ▸ OnFreeList.head (by rw [head]; decide)
  have at40 : OnFreeList st.heap 40 := next ▸ OnFreeList.next at32 (by rw [next]; decide)
  have at24 : OnFreeList st.heap 24 := last ▸ OnFreeList.next at40 (by rw [last]; decide)
  have apart := safe.free_apart 32 24 at32 at24 (by decide)
  rw [blockAt, blockAt, size, joined] at apart
  exact absurd apart (by decide)

/-! ## Termination -/

/-- **Allocator termination**, in every run in which no `free_raw` merges a block it has made the
head: the list is finite and acyclic, and every loop over it ends. (With an empty list
`malloc_raw` faults before its loop.) -/
theorem reachable_terminates (start stop : Nat) (range : HeapRange start stop) (st : State)
    (reach : Reachable MergesSafely start stop st) :
    (∃ L, FreeList st.heap.mem st.heap.freeHead L ∧ (L.map Block.addr).Nodup) ∧
    (∃ fuel size, getFreeSize fuel st.heap = .ok size) ∧
    (∀ s, sizeofFreeHeader ≤ s → st.heap.freeHead ≠ 0 →
      ∃ fuel r, mallocRaw fuel s st.heap = .ok r) ∧
    (∀ b ∈ st.live, ∃ fuel h, freeRaw fuel b.addr b.size st.heap = .ok h) := by
  obtain ⟨low, L, sound⟩ := reach.sound (fun _ _ allowed => allowed) range
  have layout := sound.layout_free
  refine ⟨⟨L, sound.list, ?_⟩, ?_, ?_, ?_⟩
  · refine List.pairwise_map.mpr (layout.apart.imp_of_mem ?_)
    intro b c memB memC apart same
    have sizeB := layout.grain_le b memB
    have sizeC := layout.grain_le c memC
    simp only [Block.Apart, Block.stop, sizeofFreeHeader] at *
    omega
  · exact getFreeSizeLoop_terminates sound.list 0
  · intro s large head
    have nonempty : L ≠ [] := by
      rintro rfl
      exact head sound.list
    exact ⟨_, mallocRaw_terminates (L.length + 2) sound.list layout low range.2 nonempty large
      (by omega)⟩
  · intro b mem
    exact ⟨_, freeRaw_terminates (L.length + 2) sound.list
      ((sound.layout_cons mem).sublist (List.sublist_append_left _ _)) low range.2 (by omega)⟩

theorem reachable_terminates_merged :
    ∃ st, runCalls freesBehind 8 mergeCalls (freshState 8 40) = some st ∧
      (∃ fuel size, getFreeSize fuel st.heap = .ok size) ∧
      (∃ fuel r, mallocRaw fuel 16 st.heap = .ok r) ∧
      ∃ fuel h, freeRaw fuel 24 8 st.heap = .ok h := by
  rcases exists_reachable_merged fun _ _ behind => behind.mergesSafely with
    ⟨st, run, live, merged, reach⟩
  rcases reachable_terminates 8 40 ⟨by decide, by decide⟩ st reach with
    ⟨-, sizes, mallocs, frees⟩
  refine ⟨st, run, sizes, mallocs 16 (by decide) ?_, frees ⟨24, 8⟩ ?_⟩
  · rw [merged.1]
    decide
  · rw [live]
    exact List.mem_singleton_self _

/-- The chain from a block that is its own successor does not end. -/
theorem not_freeList_of_self {m : Mem} {a : Nat} (ne : a ≠ 0) (self : headerNext m a = a) :
    ¬ FreeList m a L := by
  induction L with
  | nil => exact ne
  | cons b L ih =>
      rintro ⟨rfl, -, -, rest⟩
      rw [self] at rest
      exact ih rest

/-- Takes the overlapping free blocks of `overlapCalls` as two allocations, gives the outer one
back, takes its front again, and frees the inner one while it is the only free block. -/
def cycleCalls : List Call :=
  overlapCalls ++ [.malloc 8, .malloc 16, .free ⟨24, 16⟩, .malloc 8, .free ⟨32, 8⟩]

/-- After `cycleCalls` the free block at 32 is its own successor. -/
theorem free_list_cycle :
    ¬ ∀ start stop, HeapRange start stop → ∀ st, Reachable (fun _ _ => True) start stop st →
      ∃ L, FreeList st.heap.mem st.heap.freeHead L := by
  intro claim
  have range : HeapRange 8 72 := ⟨by decide, by decide⟩
  have trace : ((runCalls anyCall 8 cycleCalls (freshState 8 72)).map fun st =>
      (st.heap.freeHead, headerNext st.heap.mem 32)) = some (32, 32) := by
    decide +kernel
  obtain ⟨st, run, shape⟩ := Option.map_eq_some_iff.mp trace
  simp only [Prod.mk.injEq] at shape
  obtain ⟨head, self⟩ := shape
  obtain ⟨L, list⟩ := claim 8 72 range st
    ((reachable_freshState range (by decide) (by decide)).runCalls (fun _ _ _ => trivial) run)
  rw [head] at list
  exact not_freeList_of_self (by decide) self list

/-! ## No heap loss -/

theorem total_mergeNext (p : Block) (L : List Block) :
    total (mergeNext p L) = p.size + total L := by
  cases L with
  | nil => rfl
  | cons n L =>
      rw [mergeNext]
      split
      · simp only [total_cons, Block.join_size]
        omega
      · simp only [total_cons]

theorem total_insertBehind (b p : Block) (L : List Block) :
    total (insertBehind b p L) = p.size + total (b :: L) := by
  unfold insertBehind
  split
  · rw [total_mergeNext, Block.join_size, total_cons]
    omega
  · rw [total_cons, total_mergeNext, total_cons]
    omega

/-- Freeing behind the head loses no byte. -/
theorem total_freeBlock {p : Block} (behind : BehindHead L p) :
    total (freeBlock p L) = p.size + total L := by
  cases L with
  | nil => rfl
  | cons b L =>
      have above := behind b rfl
      rw [freeBlock, if_neg (by omega), total_insertBehind]

theorem exists_covers_mergeNext {p b : Block} (mem : b ∈ p :: L) :
    ∃ c ∈ mergeNext p L, c.Covers b := by
  cases L with
  | nil => exact ⟨b, mem, .refl b⟩
  | cons n L =>
      rw [mergeNext]
      split
      · rcases List.mem_cons.mp mem with rfl | mem
        · exact ⟨_, by simp, Block.covers_join_left b n⟩
        · rcases List.mem_cons.mp mem with rfl | mem
          · exact ⟨p.join b, by simp, Block.covers_join_right ‹_›⟩
          · exact ⟨b, by simp [mem], .refl b⟩
      · exact ⟨b, mem, .refl b⟩

/-- Freeing behind the head keeps every free block on the list, possibly as part of a larger
one. -/
theorem exists_covers_freeBlock {p b : Block} (behind : BehindHead L p) (mem : b ∈ L) :
    ∃ c ∈ freeBlock p L, c.Covers b := by
  cases L with
  | nil => cases mem
  | cons d L =>
      have above := behind d rfl
      rw [freeBlock, if_neg (by omega), insertBehind]
      rcases List.mem_cons.mp mem with rfl | mem
      · split
        · obtain ⟨c, memC, cover⟩ :=
            exists_covers_mergeNext (p := b.join p) (L := L) List.mem_cons_self
          exact ⟨c, memC, cover.trans (Block.covers_join_left b p)⟩
        · exact ⟨b, by simp, .refl b⟩
      · split
        · exact exists_covers_mergeNext (by simp [mem])
        · obtain ⟨c, memC, cover⟩ := exists_covers_mergeNext (p := p) (List.mem_cons_of_mem _ mem)
          exact ⟨c, by simp [memC], cover⟩

/-- All bytes of the heap are free, live or lost, and at most seven are lost for each `malloc_raw`
call. -/
def Balanced (start stop : Nat) (st : State) (L : List Block) : Prop :=
  ∃ slack, slack ≤ 7 * st.calls ∧ total L + total st.live + slack = stop - start

/-- The bytes of the list once `malloc_raw` has taken `s` of them from `b`. -/
theorem total_mallocRest {s : Nat} {b : Block} (mem : b ∈ L) (fits : s ≤ b.size)
    (behind : s + sizeofFreeHeader ≤ b.size →
      BehindHead (L.erase b) ⟨b.addr + s, b.size - s⟩) :
    ∃ slack, slack ≤ 7 ∧ total (mallocRest s b L) + s + slack = total L := by
  have whole := total_perm (List.perm_cons_erase mem)
  rw [total_cons] at whole
  unfold mallocRest
  split
  · refine ⟨0, by omega, ?_⟩
    rw [total_freeBlock (behind ‹_›)]
    simp only
    omega
  · refine ⟨b.size - s, ?_, by omega⟩
    simp only [sizeofFreeHeader] at *
    omega

theorem Balanced.after (balanced : Balanced start stop st L) (legal : Legal st call)
    (behind : FreeCalls BehindHead L call) (live : st'.live = liveAfter L st.live call)
    (calls : st'.calls = callsAfter st.calls call) :
    Balanced start stop st' (listAfter L call) := by
  obtain ⟨slack, bound, sum⟩ := balanced
  unfold Balanced
  rw [live, calls]
  cases call with
  | malloc s =>
      rw [listAfter, liveAfter, callsAfter]
      cases found : L.find? (fun b => s ≤ b.size) with
      | none => exact ⟨slack, by omega, sum⟩
      | some b =>
          have fits : s ≤ b.size := by simpa using List.find?_some found
          obtain ⟨lost, few, rest⟩ :=
            total_mallocRest (List.mem_of_find?_eq_some found) fits (behind b found)
          refine ⟨slack + lost, by omega, ?_⟩
          simp only [total_cons]
          omega
  | free b =>
      refine ⟨slack, bound, ?_⟩
      have freed := total_perm (List.perm_cons_erase legal)
      rw [total_cons] at freed
      rw [listAfter, liveAfter, total_freeBlock behind]
      omega
  | store a v => exact ⟨slack, bound, sum⟩

theorem Reachable.balanced (range : HeapRange start stop)
    (reach : Reachable FreesBehindHead start stop st) :
    0 < start ∧ ∃ L, Sound start stop st L ∧ Balanced start stop st L := by
  induction reach with
  | init run =>
      obtain ⟨low, sound⟩ := mallocInit_sound range run
      exact ⟨low, _, sound, 0, by simp, by simp⟩
  | step _ legal allowed run ih =>
      obtain ⟨low, L, sound, balanced⟩ := ih
      have behind := allowed L sound.list
      have safe : FreeCalls MergeSafe L _ := behind.imp fun _ _ => BehindHead.mergeSafe
      obtain ⟨-, live, calls⟩ := sound.exec_inv low range.2 legal safe run
      exact ⟨low, _, sound.exec low range.2 legal safe run,
        balanced.after legal behind live calls⟩

/-- `get_free_size` and the live allocations account for the heap, up to fewer than eight bytes
for each `malloc_raw` call made. -/
def Accounted (start stop : Nat) (st : State) : Prop :=
  ∃ fuel free, getFreeSize fuel st.heap = .ok free ∧
    free + total st.live ≤ stop - start ∧
    stop - start ≤ free + total st.live + 7 * st.calls

/-- A block that was free before a `free_raw` is still part of one afterwards. -/
def KeepsFree (st st' : State) : Prop :=
  ∀ a, OnFreeList st.heap a →
    ∃ c, OnFreeList st'.heap c ∧ (blockAt st'.heap c).Covers (blockAt st.heap a)

/-- **No heap loss**, in every run in which no `free_raw` is given a block below the head. -/
theorem reachable_accounted (start stop : Nat) (range : HeapRange start stop) (st : State)
    (reach : Reachable FreesBehindHead start stop st) :
    Accounted start stop st ∧
      ∀ fuel b st', b ∈ st.live → FreesBehindHead st (.free b) →
        exec fuel (.free b) st = .ok st' → KeepsFree st st' := by
  obtain ⟨low, L, sound, slack, bound, sum⟩ := reach.balanced range
  have small : total L < 2 ^ 32 := by
    have high := range.2
    omega
  refine ⟨⟨L.length + 1, total L, ?_, by omega, by omega⟩, ?_⟩
  · have counted := getFreeSizeLoop_eq (a := st.heap.freeHead) sound.list
      (Nat.lt_succ_self L.length) (by rw [Nat.zero_add]; exact small)
    rw [Nat.zero_add] at counted
    exact counted
  · intro fuel b st' live behind run a reached
    have legal : Legal st (.free b) := live
    have behind' := behind L sound.list
    obtain ⟨list, -, -⟩ :=
      sound.exec_inv low range.2 legal (behind'.imp fun _ _ => BehindHead.mergeSafe) run
    obtain ⟨c, mem, cover⟩ :=
      exists_covers_freeBlock behind' (sound.list.onFreeList_iff.mp reached)
    have same : blockAt st'.heap c.addr = c := list.blockAt_eq mem
    exact ⟨c.addr, list.onFreeList_iff.mpr (by rw [same]; exact mem), by rw [same]; exact cover⟩

theorem reachable_accounted_merged :
    ∃ st, runCalls freesBehind 8 mergeCalls (freshState 8 40) = some st ∧ Accounted 8 40 st ∧
      ∀ st', exec 8 (.free ⟨24, 8⟩) st = .ok st' → KeepsFree st st' := by
  rcases exists_reachable_merged fun _ _ behind => behind with ⟨st, run, live, merged, reach⟩
  rcases reachable_accounted 8 40 ⟨by decide, by decide⟩ st reach with ⟨accounted, keeps⟩
  have behind : FreesBehindHead st (.free ⟨24, 8⟩) := by
    refine freesBehindHead_of_freesBehind st _ (decide_eq_true (.inr ?_))
    rw [merged.1]
    decide
  refine ⟨st, run, accounted, fun st' => keeps 8 ⟨24, 8⟩ st' ?_ behind⟩
  rw [live]
  exact List.mem_singleton_self _

/-- One allocation, given back at once. -/
def lossCalls : List Call := [.malloc 8, .free ⟨8, 8⟩]

/-- After `lossCalls` only the eight bytes given back are free. -/
theorem heap_lost :
    ¬ ∀ start stop, HeapRange start stop → ∀ st, Reachable (fun _ _ => True) start stop st →
      Accounted start stop st := by
  intro claim
  have range : HeapRange 8 72 := ⟨by decide, by decide⟩
  have trace : ((runCalls anyCall 8 lossCalls (freshState 8 72)).map fun st =>
      (st.heap.freeHead, headerSize st.heap.mem 8, headerNext st.heap.mem 8, st.live, st.calls)) =
        some (8, 8, 0, [], 1) := by
    decide +kernel
  obtain ⟨st, run, shape⟩ := Option.map_eq_some_iff.mp trace
  simp only [Prod.mk.injEq] at shape
  obtain ⟨head, size, next, live, calls⟩ := shape
  obtain ⟨fuel, free, counted, -, high⟩ := claim 8 72 range st
    ((reachable_freshState range (by decide) (by decide)).runCalls (fun _ _ _ => trivial) run)
  have list : FreeList st.heap.mem st.heap.freeHead [⟨8, 8⟩] :=
    ⟨head, by decide, size, next⟩
  have more := getFreeSizeLoop_mono (Nat.le_add_right fuel 2) _ _ _ free counted
  rw [getFreeSizeLoop_eq list (by simp) (by simp)] at more
  cases more
  rw [live, calls] at high
  simp at high

/-! ## Exhaustion -/

/-- No block on the free list holds `s` bytes. -/
def NoneFits (h : Heap) (s : Nat) : Prop := ∀ a, OnFreeList h a → headerSize h.mem a < s

/-- `malloc_raw(s)` returns `NULL` and changes nothing, and `malloc`, which asks `malloc_raw` for
`s`, returns `NULL` as well. -/
def ReportsExhaustion (h : Heap) (s : Nat) : Prop :=
  (∃ fuel, mallocRaw fuel s h = .ok (0, h)) ∧
    ∃ fuel h', malloc fuel (s - sizeofMallocHeader) h = .ok (0, h')

section Exhaustion

variable {h : Heap} {s prev steps : Nat}

/-- When no block fits, the search loop that returns has come to the end of the list. -/
theorem mallocRawLoop_of_noneFits (none : NoneFits h s) (reached : OnFreeList h prev)
    (ne : prev ≠ 0) {r : Nat × Heap} (run : mallocRawLoop fuel s steps prev h = .ok r) :
    r = (0, h) ∧ ∃ T, FreeList h.mem prev (blockAt h prev :: T) := by
  induction steps generalizing prev with
  | zero => cases run
  | succ steps ih =>
      rw [mallocRawLoop] at run
      by_cases last : headerNext h.mem prev = 0
      · rw [if_pos last] at run
        cases run
        exact ⟨rfl, [], rfl, ne, rfl, last⟩
      · have next : OnFreeList h (headerNext h.mem prev) := .next reached last
        rw [if_neg last, if_neg (Nat.not_le.mpr (none _ next))] at run
        obtain ⟨same, T, list⟩ := ih next last run
        exact ⟨same, _ :: T, rfl, ne, rfl, list⟩

/-- On a list that ends the loop returns `NULL` when no block fits. -/
theorem mallocRawLoop_returns (none : NoneFits h s) (reached : OnFreeList h prev)
    (list : FreeList h.mem (headerNext h.mem prev) L) (enough : L.length < steps) :
    mallocRawLoop fuel s steps prev h = .ok (0, h) := by
  induction L generalizing prev steps with
  | nil =>
      obtain ⟨steps, rfl⟩ := Nat.exists_eq_add_of_le' (Nat.zero_lt_of_lt enough)
      have last : headerNext h.mem prev = 0 := list
      rw [mallocRawLoop, if_pos last]
  | cons b L ih =>
      obtain ⟨steps, rfl⟩ := Nat.exists_eq_add_of_le' (Nat.zero_lt_of_lt enough)
      obtain ⟨addr, ne, -, rest⟩ := list
      have next : OnFreeList h (headerNext h.mem prev) := .next reached (addr ▸ ne)
      rw [mallocRawLoop, if_neg (addr ▸ ne), if_neg (Nat.not_le.mpr (none _ next)), addr]
      rw [addr] at next
      exact ih next rest (Nat.lt_of_succ_lt_succ enough)

/-- When no block fits, a call of `malloc_raw` that returns has returned `NULL`. -/
theorem mallocRaw_of_noneFits (none : NoneFits h s) {r : Nat × Heap}
    (run : mallocRaw fuel s h = .ok r) :
    r = (0, h) ∧ ∃ L, L ≠ [] ∧ FreeList h.mem h.freeHead L := by
  rw [mallocRaw, Except.bind_eq_ok] at run
  obtain ⟨⟨⟩, -, run⟩ := run
  by_cases empty : h.freeHead = 0
  · rw [if_pos empty] at run
    cases run
  · have head : OnFreeList h h.freeHead := .head empty
    rw [if_neg empty, if_neg (Nat.not_le.mpr (none _ head))] at run
    obtain ⟨same, T, list⟩ := mallocRawLoop_of_noneFits none head empty run
    exact ⟨same, _, List.cons_ne_nil _ T, list⟩

/-- When no block fits, `malloc` does not return: it has stored the size through `NULL`, if
`malloc_raw` has returned at all. -/
theorem malloc_of_noneFits (fits : s < 2 ^ 32) (large : sizeofFreeHeader ≤ s)
    (none : NoneFits h s) (r : Nat × Heap) :
    malloc fuel (s - sizeofMallocHeader) h ≠ .ok r := by
  intro run
  have asked : sizeT (sizeofMallocHeader + (s - sizeofMallocHeader)) = s := by
    simp only [sizeofMallocHeader, sizeofFreeHeader] at large ⊢
    rw [Nat.add_sub_cancel' (by omega), sizeT_of_lt fits]
  rw [malloc, asked, Except.bind_eq_ok] at run
  obtain ⟨⟨ptr, h'⟩, ran, run⟩ := run
  obtain ⟨same, -⟩ := mallocRaw_of_noneFits none ran
  cases same
  cases run

/-- **Heap exhaustion**: when no free block holds `s` bytes, `malloc_raw(s)` returns `NULL` and
changes nothing exactly when the free list ends and is not empty; and `malloc` never returns, so
that no exhausted heap is reported as it should be. -/
theorem noneFits_unreported (h : Heap) (s : Nat) (large : sizeofFreeHeader ≤ s) (fits : s < 2 ^ 32)
    (none : NoneFits h s) :
    ¬ ReportsExhaustion h s ∧
      ((∃ fuel, mallocRaw fuel s h = .ok (0, h)) ↔
        ∃ L, L ≠ [] ∧ FreeList h.mem h.freeHead L) ∧
      ∀ fuel r, malloc fuel (s - sizeofMallocHeader) h ≠ .ok r := by
  refine ⟨?_, ⟨?_, ?_⟩, fun fuel r => malloc_of_noneFits fits large none r⟩
  · intro reported
    obtain ⟨-, fuel, h', run⟩ := reported
    exact malloc_of_noneFits fits large none _ run
  · intro returned
    obtain ⟨fuel, run⟩ := returned
    exact (mallocRaw_of_noneFits none run).2
  · intro finite
    obtain ⟨L, nonempty, list⟩ := finite
    cases L with
    | nil => exact absurd rfl nonempty
    | cons b L =>
        obtain ⟨addr, ne, -, rest⟩ := list
        have empty : h.freeHead ≠ 0 := addr ▸ ne
        have head : OnFreeList h h.freeHead := .head empty
        refine ⟨L.length + 1, ?_⟩
        rw [mallocRaw, assert_pos large, Except.ok_bind, if_neg empty,
          if_neg (Nat.not_le.mpr (none _ head))]
        rw [← addr] at rest
        exact mallocRawLoop_returns none head rest (Nat.lt_succ_self _)

end Exhaustion

/-- The fresh heap has no block of 100 bytes. -/
theorem freshState_noneFits : NoneFits (freshState 8 72).heap 100 := by
  have range : HeapRange 8 72 := ⟨by decide, by decide⟩
  have list := freeList_freshState range (by decide)
  intro a reached
  have only := list.onFreeList_iff.mp reached
  rw [List.mem_singleton] at only
  have size : headerSize (freshState 8 72).heap.mem a = 72 - 8 := congrArg Block.size only
  omega

/-- In a reachable state `malloc_raw` returns `NULL`, and `malloc` stores through it. -/
theorem noneFits_unreported_fresh :
    Reachable (fun _ _ => True) 8 72 (freshState 8 72) ∧
      (∃ fuel, mallocRaw fuel 100 (freshState 8 72).heap = .ok (0, (freshState 8 72).heap)) ∧
      ¬ ReportsExhaustion (freshState 8 72).heap 100 := by
  have range : HeapRange 8 72 := ⟨by decide, by decide⟩
  obtain ⟨unreported, returns, -⟩ := noneFits_unreported (freshState 8 72).heap 100 (by decide)
    (by decide) freshState_noneFits
  exact ⟨reachable_freshState range (by decide) (by decide),
    returns.mpr ⟨_, List.cons_ne_nil _ _, freeList_freshState range (by decide)⟩, unreported⟩

/-- When the whole heap is allocated, `malloc_raw` reads through `NULL`. -/
theorem empty_heap_faults :
    ¬ ∀ start stop, HeapRange start stop → ∀ st, Reachable (fun _ _ => True) start stop st →
      ∀ s, sizeofFreeHeader ≤ s → s < 2 ^ 32 → NoneFits st.heap s →
        ReportsExhaustion st.heap s := by
  intro claim
  have range : HeapRange 8 72 := ⟨by decide, by decide⟩
  have trace : (runCalls anyCall 8 [.malloc 64] (freshState 8 72)).map (fun st => st.heap.freeHead) =
      some 0 := by decide +kernel
  obtain ⟨st, run, null⟩ := Option.map_eq_some_iff.mp trace
  have list : FreeList st.heap.mem st.heap.freeHead [] := null
  have none : NoneFits st.heap 8 := by
    intro a reached
    exact absurd (list.onFreeList_iff.mp reached) List.not_mem_nil
  obtain ⟨⟨fuel, returned⟩, -⟩ := claim 8 72 range st
    ((reachable_freshState range (by decide) (by decide)).runCalls (fun _ _ _ => trivial) run) 8
    (by decide) (by decide)
    none
  rw [mallocRaw_of_null (by decide) null] at returned
  cases returned

end Invariant

end TheFirmware.Malloc
