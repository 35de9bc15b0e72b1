import TheFirmware.Core.List
import TheFirmware.Lib.ByteMemory

/-!
# `core/thread.c`

The state of the kernel, and the functions of `thread.c` that set threads up. A thread is named by
an element of `τ`, the address of its `struct thread`. The fields of the structures are in `thread`;
their two list entries are in the pools of `threadList` and `runningQueue`, and stacks are in `mem`.

`malloc_raw` is not called here: the storage it returned is an argument.
-/

namespace TheFirmware

/-- `thread_state_t`. -/
inductive ThreadState : Type
  | unkown
  | running
  | stopped
  | blocked
  deriving DecidableEq, Repr

/-- `struct thread`, without its list entries. -/
structure Thread : Type where
  tid : BitVec 8
  state : ThreadState
  stack : Word
  stackProtector : Word
  stackSize : Word
  name : String
  deriving DecidableEq, Repr

/-- The static variables of `thread.c` and `scheduler.c`, the threads, the memory with their
stacks, and the two bits of the processor the kernel uses: whether interrupts are enabled, and
whether `PendSV` is pending. -/
structure Kernel (τ : Type) : Type where
  mem : Mem
  thread : τ → Thread
  threadList : ListT τ
  nextTid : BitVec 8
  currentThread : Option τ
  idleThread : Option τ
  runningQueue : ListT τ
  inIsrCount : BitVec 8
  irqs : Bool
  pendSv : Bool

/-- The word at the low end of a stack that no thread should overwrite. -/
def kStackProtector : Word := 0xBADBEEF

/-- A `struct thread` filled with zero bytes. -/
def Thread.zero : Thread := ⟨0, .unkown, 0, 0, 0, ""⟩

variable {τ : Type}

/-- `thread_early_init()`. -/
def threadEarlyInit (k : Kernel τ) : Kernel τ :=
  { k with threadList := listInit k.threadList, nextTid := 1 }

/-- `thread_assert_stack_protection(thread)`. -/
def threadAssertStackProtection (thread : τ) (k : Kernel τ) : Except Fault Unit := do
  let t := k.thread thread
  if t.stackProtector ≠ 0 then
    assert (t.stackProtector < t.stack) "Stack below stack protector"
    assert (k.mem.load32 t.stackProtector.toNat = kStackProtector) "Stack protector is trashed"

/-- Change the memory. -/
def Kernel.setMem (k : Kernel τ) (mem : Mem) : Kernel τ := { k with mem }

/-- The lists, the current and the idle thread, the states of all threads, and the bits of the
processor are the same. -/
structure Kernel.SameQueues (k k' : Kernel τ) : Prop where
  threadList : k'.threadList = k.threadList
  currentThread : k'.currentThread = k.currentThread
  idleThread : k'.idleThread = k.idleThread
  runningQueue : k'.runningQueue = k.runningQueue
  state : ∀ t, (k'.thread t).state = (k.thread t).state
  irqs : k'.irqs = k.irqs
  pendSv : k'.pendSv = k.pendSv

theorem Kernel.SameQueues.refl (k : Kernel τ) : k.SameQueues k :=
  ⟨rfl, rfl, rfl, rfl, fun _ => rfl, rfl, rfl⟩

theorem Kernel.SameQueues.trans {k k' k'' : Kernel τ} (first : k.SameQueues k')
    (second : k'.SameQueues k'') : k.SameQueues k'' where
  threadList := second.threadList.trans first.threadList
  currentThread := second.currentThread.trans first.currentThread
  idleThread := second.idleThread.trans first.idleThread
  runningQueue := second.runningQueue.trans first.runningQueue
  state t := (second.state t).trans (first.state t)
  irqs := second.irqs.trans first.irqs
  pendSv := second.pendSv.trans first.pendSv

theorem Kernel.sameQueues_setMem (k : Kernel τ) (mem : Mem) : k.SameQueues (k.setMem mem) :=
  ⟨rfl, rfl, rfl, rfl, fun _ => rfl, rfl, rfl⟩

variable [DecidableEq τ]

/-- Change the fields of a thread. -/
def Kernel.modify (k : Kernel τ) (thread : τ) (f : Thread → Thread) : Kernel τ :=
  { k with thread := Function.update k.thread thread (f (k.thread thread)) }

/-- `thread_set_stack(thread, stack)`. -/
def threadSetStack (thread : τ) (stack : Word) (k : Kernel τ) : Except Fault (Kernel τ) := do
  assert ((k.thread thread).stackProtector < stack) "Stack overflow while setting the stack"
  return k.modify thread fun t => { t with stack }

/-- The loop of `thread_stack_utilisation_reset`, for `n` words from address `p` on. -/
def stackFill (m : Mem) (p : Nat) : Nat → Mem
  | 0 => m
  | n + 1 => stackFill (m.store32 p kStackProtector) (p + 4) n

/-- `thread_stack_utilisation_reset(thread)`. -/
def threadStackUtilisationReset (thread : τ) (k : Kernel τ) : Kernel τ :=
  if k.currentThread = some thread then k
  else
    let first := (k.thread thread).stackProtector.toNat + 4
    let words := ((k.thread thread).stack.toNat - first + 3) / 4
    k.setMem (stackFill k.mem first words)

/-- The stack of a new thread: the end of the block `block` that `malloc_raw` returned when no
stack is given, or the end of the given one. -/
def threadStackInit (thread : τ) (stackSize stack block : Word) (k : Kernel τ) :
    Except Fault (Kernel τ) :=
  if stack = 0 ∧ 0 < stackSize then
    if block = 0 then .error .nullDeref
    else
      let k := k.modify thread fun t =>
        { t with stack := block + stackSize, stackProtector := block }
      let k := k.setMem (k.mem.store32 block.toNat kStackProtector)
      let k := k.modify thread fun t => { t with stackSize }
      .ok (threadStackUtilisationReset thread k)
  else if 0 < stackSize then
    .ok (k.modify thread fun t => { t with stack := stack + (stackSize - 4) })
  else .ok (k.modify thread fun t => { t with stack })

/-- `memset(thread, 0, sizeof(struct thread))`. -/
def threadClear (thread : τ) (k : Kernel τ) : Kernel τ :=
  { k with
    thread := Function.update k.thread thread Thread.zero
    threadList := listEntryInit k.threadList thread
    runningQueue := listEntryInit k.runningQueue thread }

/-- `thread_struct_init(thread, name, stack_size, stack)`. -/
def threadStructInit (thread : τ) (name : String) (stackSize stack block : Word) (k : Kernel τ) :
    Except Fault (Kernel τ) := do
  let k := threadClear thread k
  let k := k.modify thread fun t =>
    { t with state := .stopped, name, tid := k.nextTid, stackProtector := 0 }
  let k := { k with nextTid := k.nextTid + 1 }
  let k ← threadStackInit thread stackSize stack block k
  let threadList ← listAppend (listEntryInit k.threadList thread) thread
  let k := { k with threadList }
  -- scheduler_thread_data_init(thread)
  return { k with runningQueue := listEntryInit k.runningQueue thread }

/-- `thread_create(name, stack_size, stack)`, where `storage` and `block` are what `malloc_raw`
returned for the structure and for the stack. -/
def threadCreate (storage : Option τ) (name : String) (stackSize stack block : Word)
    (k : Kernel τ) : Except Fault (Option τ × Kernel τ) :=
  match storage with
  | none => .ok (none, k)
  | some thread => do
      let k ← threadStructInit thread name stackSize stack block k
      return (some thread, k)

/-- `*thread->stack = v`. -/
def stackStore (thread : τ) (v : Word) (k : Kernel τ) : Kernel τ :=
  k.setMem (k.mem.store32 (k.thread thread).stack.toNat v)

/-- `thread->stack -= n`, in words. -/
def stackDrop (thread : τ) (n : Nat) (k : Kernel τ) : Kernel τ :=
  k.modify thread fun t => { t with stack := t.stack - BitVec.ofNat 32 (4 * n) }

/-- `thread_set_function_v(thread, func, argc, args)` with `args` the `argc` arguments, of which
only the first is used. -/
def threadSetFunctionV (thread : τ) (func : Word) (args : List Word) (k : Kernel τ) : Kernel τ :=
  let k := stackDrop thread 1 (stackStore thread 0x01000000 k)
  let k := stackDrop thread 1 (stackStore thread func k)
  let k := stackStore thread 0xFFFFFFFE k
  let k := stackDrop thread 5 k
  match args with
  | arg :: _ => stackDrop thread 8 (stackStore thread arg k)
  | [] => stackDrop thread 8 k

/-! ## Frames -/

section Frames

variable {thread : τ} {k k' : Kernel τ}

@[simp] theorem Kernel.modify_thread_self (f : Thread → Thread) :
    (k.modify thread f).thread thread = f (k.thread thread) := by
  simp [Kernel.modify]

@[simp] theorem Kernel.modify_thread_of_ne {other : τ} {f : Thread → Thread}
    (ne : other ≠ thread) : (k.modify thread f).thread other = k.thread other := by
  simp [Kernel.modify, ne]

/-- A change of a thread that keeps its state. -/
theorem Kernel.sameQueues_modify {f : Thread → Thread}
    (keeps : (f (k.thread thread)).state = (k.thread thread).state) :
    k.SameQueues (k.modify thread f) where
  threadList := rfl
  currentThread := rfl
  idleThread := rfl
  runningQueue := rfl
  state t := by
    by_cases same : t = thread
    · subst same
      rw [modify_thread_self, keeps]
    · rw [modify_thread_of_ne same]
  irqs := rfl
  pendSv := rfl

theorem threadStackUtilisationReset_sameQueues :
    k.SameQueues (threadStackUtilisationReset thread k) := by
  unfold threadStackUtilisationReset
  split
  · exact .refl k
  · exact k.sameQueues_setMem _

/-- Setting up a stack touches no queue. -/
theorem threadStackInit_sameQueues {stackSize stack block : Word}
    (run : threadStackInit thread stackSize stack block k = .ok k') : k.SameQueues k' := by
  unfold threadStackInit at run
  split at run
  · split at run
    · cases run
    · cases run
      refine .trans ?_ threadStackUtilisationReset_sameQueues
      refine .trans ?_ (Kernel.sameQueues_modify rfl)
      refine .trans ?_ (Kernel.sameQueues_setMem _ _)
      exact Kernel.sameQueues_modify rfl
  · split at run
    · cases run
      exact Kernel.sameQueues_modify rfl
    · cases run
      exact Kernel.sameQueues_modify rfl

/-- What `thread_set_function(thread, func, 1, arg)` does: four words of the frame are written, and
the stack pointer is moved below it. -/
theorem threadSetFunctionV_eq (thread : τ) (k : Kernel τ) (func arg : Word) :
    (threadSetFunctionV thread func [arg] k).mem =
        (((k.mem.store32 (k.thread thread).stack.toNat 0x01000000).store32
          ((k.thread thread).stack - 4).toNat func).store32
          ((k.thread thread).stack - 4 - 4).toNat 0xFFFFFFFE).store32
          ((k.thread thread).stack - 4 - 4 - 20).toNat arg ∧
      (threadSetFunctionV thread func [arg] k).thread = Function.update k.thread thread
        { k.thread thread with stack := (k.thread thread).stack - 4 - 4 - 20 - 32 } ∧
      (threadSetFunctionV thread func [arg] k).currentThread = k.currentThread := by
  refine ⟨?_, ?_, rfl⟩
  · simp [threadSetFunctionV, stackStore, stackDrop, Kernel.modify, Kernel.setMem]
  · simp [threadSetFunctionV, stackStore, stackDrop, Kernel.modify, Kernel.setMem]

end Frames

end TheFirmware
