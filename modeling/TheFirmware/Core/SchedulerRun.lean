import TheFirmware.Core.Scheduler

/-!
# Runs of the scheduler

A run starts with `thread_early_init` and `scheduler_init` on any memory, and then creates, wakes,
stops and blocks threads and calls `schedule`, each call atomic. `Reachable ok` are the kernels of
the runs all of whose operations satisfy `ok` in the state in which they are carried out. Threads
are created in fresh storage, and only created threads are woken, stopped, or made the idle thread.

In every reachable state the running queue is a ring of exactly the running threads
(`reachable_runQueue`).
-/

namespace TheFirmware.Scheduler

variable {τ : Type}

/-- The thread has been created. -/
def IsThread (k : Kernel τ) (t : τ) : Prop := ∃ C, Represents k.threadList C ∧ t ∈ C

/-- One call into the kernel. -/
inductive Op (τ : Type) : Type
  | create (storage : Option τ) (name : String) (stackSize stack block : Word)
  | structInit (thread : τ) (name : String) (stackSize stack block : Word)
  | setIdleThread (thread : τ)
  | wakeup (thread : τ)
  | stop (thread : τ)
  | block
  | schedule (stack : Word)

/-- The calls the rest of the firmware may make. -/
def Legal (k : Kernel τ) : Op τ → Prop
  | .create storage _ _ _ _ => ∀ t, storage = some t → ¬ IsThread k t
  | .structInit t _ _ _ _ => ¬ IsThread k t
  | .setIdleThread t => IsThread k t
  | .wakeup t => IsThread k t
  | .stop t => IsThread k t
  | .block => True
  | .schedule _ => True

variable [DecidableEq τ]

/-- The kernel after a call. -/
def exec : Op τ → Kernel τ → Except Fault (Kernel τ)
  | .create storage name stackSize stack block, k => do
      let (_, k) ← threadCreate storage name stackSize stack block k
      return k
  | .structInit thread name stackSize stack block, k =>
      threadStructInit thread name stackSize stack block k
  | .setIdleThread thread, k => return schedulerSetIdleThread thread k
  | .wakeup thread, k => threadWakeup thread k
  | .stop thread, k => threadStop thread k
  | .block, k => threadBlock k
  | .schedule stack, k => do
      let (_, k) ← TheFirmware.schedule stack k
      return k

/-- The kernels of the runs all of whose calls satisfy `ok`. -/
inductive Reachable (ok : Kernel τ → Op τ → Prop) : Kernel τ → Prop
  | boot {storage : Option τ} {k k' : Kernel τ} (current : k.currentThread = none)
      (idle : k.idleThread = none)
      (run : schedulerInit storage (threadEarlyInit k) = .ok k') : Reachable ok k'
  | step {k k' : Kernel τ} {op : Op τ} (before : Reachable ok k) (legal : Legal k op)
      (allowed : ok k op) (run : exec op k = .ok k') : Reachable ok k'

/-! ## What a call does to the running queue -/

/-- The threads created so far after a call. -/
def opCreated (C : List τ) : Op τ → List τ
  | .create (some t) _ _ _ _ => C ++ [t]
  | .structInit t _ _ _ _ => C ++ [t]
  | _ => C

/-- The running queue after a call. -/
def opQueue (k : Kernel τ) (Q : List τ) : Op τ → List τ
  | .wakeup t => queueAfter t .running Q
  | .stop t => queueAfter t .stopped Q
  | .block => match k.currentThread with
    | some t => queueAfter t .blocked Q
    | none => Q
  | .schedule _ => Q.rotate 1
  | _ => Q

/-- The current thread after a call. -/
def opCurrent (k : Kernel τ) (Q : List τ) : Op τ → Option τ
  | .schedule _ => if Q = [] then k.idleThread else (Q.rotate 1).head?
  | _ => k.currentThread

/-- The idle thread after a call. -/
def opIdle (k : Kernel τ) : Op τ → Option τ
  | .setIdleThread t => some t
  | _ => k.idleThread

/-- The state of a thread after a call. -/
def opState (k : Kernel τ) (u : τ) : Op τ → ThreadState
  | .wakeup t => if u = t then .running else (k.thread u).state
  | .stop t => if u = t then .stopped else (k.thread u).state
  | .block => if k.currentThread = some u then .blocked else (k.thread u).state
  | _ => (k.thread u).state

section Specs

variable {k k' : Kernel τ} {C Q : List τ} {t : τ} {op : Op τ}

omit [DecidableEq τ] in
theorem isThread_iff (queues : k.Queues C Q) : IsThread k t ↔ t ∈ C := by
  constructor
  · rintro ⟨C', rep, mem⟩
    rwa [queues.created.unique rep]
  · intro mem
    exact ⟨C, queues.created, mem⟩

omit [DecidableEq τ] in
theorem mem_opCreated (mem : t ∈ C) : t ∈ opCreated C op := by
  unfold opCreated
  split
  · exact List.mem_append_left _ mem
  · exact List.mem_append_left _ mem
  · exact mem

/-- What `thread_struct_init` does before it appends the thread to the thread list. -/
theorem threadStructInit_inv {name : String} {stackSize stack block : Word}
    (run : threadStructInit t name stackSize stack block k = .ok k') :
    ∃ threadList, listAppend (listEntryInit (listEntryInit k.threadList t) t) t = .ok threadList ∧
      k'.threadList = threadList ∧
      k'.runningQueue = listEntryInit (listEntryInit k.runningQueue t) t ∧
      k'.currentThread = k.currentThread ∧ k'.idleThread = k.idleThread ∧
      (k'.thread t).state = .stopped ∧ (∀ u, u ≠ t → (k'.thread u).state = (k.thread u).state) ∧
      k'.irqs = k.irqs ∧ k'.pendSv = k.pendSv := by
  simp only [threadStructInit] at run
  rw [Except.bind_eq_ok] at run
  obtain ⟨k₁, stacked, run⟩ := run
  have same := threadStackInit_sameQueues stacked
  rw [Except.bind_eq_ok] at run
  obtain ⟨threadList, appended, run⟩ := run
  cases run
  rw [same.threadList] at appended
  refine ⟨threadList, appended, rfl, ?_, same.currentThread, same.idleThread, ?_, ?_, same.irqs,
    same.pendSv⟩
  · rw [same.runningQueue]
    rfl
  · rw [same.state]
    simp
  · intro u ne
    rw [same.state]
    simp [ne, threadClear]

/-- Creating a thread appends it to the thread list and leaves the running queue alone. -/
theorem threadStructInit_queues {name : String} {stackSize stack block : Word}
    (queues : k.Queues C Q) (fresh : t ∉ C)
    (run : threadStructInit t name stackSize stack block k = .ok k') :
    k'.Queues (C ++ [t]) Q := by
  obtain ⟨threadList, appended, list, queue, current, idle, -⟩ := threadStructInit_inv run
  have freshQ : t ∉ Q := fun mem => fresh (queues.sub t mem)
  have cleared : ∀ (pool : ListT τ),
      ListT.Keeps [t] pool (listEntryInit (listEntryInit pool t) t) :=
    fun pool => (listEntryInit_keeps pool t).trans (listEntryInit_keeps _ t)
  have away : ∀ {L : List τ}, t ∉ L → ∀ u ∈ L, u ∉ [t] := by
    intro L notMem u mem single
    rw [List.mem_singleton.mp single] at mem
    exact notMem mem
  obtain ⟨threadList', ran, rep, -⟩ := listAppend_represents
    (queues.created.congr (fun u mem => cleared _ u (away fresh u mem)) rfl)
    (listEntryInit_unlinked (listEntryInit k.threadList t) t)
  rw [appended] at ran
  cases ran
  refine ⟨list ▸ rep, ?_, fun u mem => List.mem_append_left [t] (queues.sub u mem), ?_, ?_, ?_⟩
  · rw [queue]
    exact queues.queue.congr (fun u mem => cleared _ u (away freshQ u mem)) rfl
  · intro u mem notMem
    rw [queue]
    by_cases same : u = t
    · subst same
      exact listEntryInit_unlinked _ u
    · have memC : u ∈ C := by simpa [same] using mem
      exact (queues.unlinked u memC notMem).transport (cleared _ u (by simpa using same))
  · intro u running
    rw [current] at running
    exact List.mem_append_left [t] (queues.current u running)
  · intro u idling
    rw [idle] at idling
    exact List.mem_append_left [t] (queues.idle u idling)

/-- What `schedule` returns with. -/
theorem schedule_queues {stack r : Word} (queues : k.Queues C Q)
    (run : TheFirmware.schedule stack k = .ok (r, k')) :
    k'.Queues C (Q.rotate 1) ∧ k'.idleThread = k.idleThread ∧
      (∀ u, (k'.thread u).state = (k.thread u).state) ∧
      (k'.currentThread = if Q = [] then k.idleThread else (Q.rotate 1).head?) ∧
      k'.irqs = true ∧ k'.pendSv = k.pendSv := by
  obtain ⟨t, -, -, -, -, rfl⟩ := scheduleWith_inv run
  have same : ∀ u, (((schedulerEnterIsr k).modify t fun s => { s with stack }).thread u).state =
      (k.thread u).state :=
    (Kernel.sameQueues_modify (k := schedulerEnterIsr k) rfl).state
  have before : (schedulerLock ((schedulerEnterIsr k).modify t fun s =>
      { s with stack })).Queues C Q :=
    queues.ofSame rfl rfl rfl rfl
  obtain ⟨after, threads, idle, picked, pending⟩ := schedulePick_queues before
  refine ⟨after.ofSame rfl rfl rfl rfl, idle, ?_, picked, rfl, pending⟩
  intro u
  rw [← same u]
  exact congrArg (fun f => (f u).state) threads

/-- The thread whose state a call changes. -/
def opTarget (k : Kernel τ) : Op τ → Option τ
  | .wakeup t => some t
  | .stop t => some t
  | .block => k.currentThread
  | _ => none

/-- What a call does that returns when the thread it changes is queued if and only if it is
running: the threads, the running queue, the current and the idle thread, and the states of the
threads are as `opCreated`, `opQueue`, `opCurrent`, `opIdle` and `opState` say. -/
theorem exec_queues (queues : k.Queues C Q) (legal : Legal k op)
    (settled : ∀ u, opTarget k op = some u → k.Settled Q u) (run : exec op k = .ok k') :
    k'.Queues (opCreated C op) (opQueue k Q op) ∧ k'.currentThread = opCurrent k Q op ∧
      k'.idleThread = opIdle k op ∧ (∀ u ∈ C, (k'.thread u).state = opState k u op) ∧
      (∀ u ∈ opCreated C op, u ∉ C → (k'.thread u).state = .stopped) ∧
      (k.irqs = true → k'.irqs = true) ∧ (k.pendSv = true → k'.pendSv = true) := by
  have setState : ∀ (t : τ) (s : ThreadState), t ∈ C → k.Settled Q t →
      threadSetState t s k = .ok k' →
      k'.Queues C (queueAfter t s Q) ∧ k'.currentThread = k.currentThread ∧
        k'.idleThread = k.idleThread ∧
        (∀ u, (k'.thread u).state = if u = t then s else (k.thread u).state) ∧
        k'.irqs = true ∧ (k.pendSv = true → k'.pendSv = true) := by
    intro t s mem settled run
    obtain ⟨k'', ran, set, after⟩ := threadSetState_queues (s := s) queues mem
    rw [run] at ran
    cases ran
    rw [queueChanged_eq_queueAfter settled] at after
    refine ⟨after, set.currentThread, set.idleThread, ?_, set.irqs, set.pendSv⟩
    intro u
    split
    · next same => rw [same, set.state_self]
    · next ne => rw [set.state_of_ne ne]
  have structInit : ∀ {t : τ} {name : String} {stackSize stack block : Word}, ¬ IsThread k t →
      threadStructInit t name stackSize stack block k = .ok k' →
      k'.Queues (C ++ [t]) Q ∧ k'.currentThread = k.currentThread ∧
        k'.idleThread = k.idleThread ∧ (∀ u ∈ C, (k'.thread u).state = (k.thread u).state) ∧
        (∀ u ∈ C ++ [t], u ∉ C → (k'.thread u).state = .stopped) ∧
        (k.irqs = true → k'.irqs = true) ∧ (k.pendSv = true → k'.pendSv = true) := by
    intro t name stackSize stack block fresh run
    rw [isThread_iff queues] at fresh
    obtain ⟨-, -, -, -, current, idle, stopped, others, irqs, pendSv⟩ := threadStructInit_inv run
    refine ⟨threadStructInit_queues queues fresh run, current, idle,
      fun u mem => others u fun same => fresh (same ▸ mem), ?_, fun on => irqs.trans on,
      fun on => pendSv.trans on⟩
    intro u mem notMem
    rcases List.mem_append.mp mem with memC | same
    · exact absurd memC notMem
    · rw [List.mem_singleton.mp same, stopped]
  have nobody : ∀ u ∈ C, u ∉ C → (k'.thread u).state = .stopped :=
    fun u mem notMem => absurd mem notMem
  cases op with
  | create storage name stackSize stack block =>
      cases storage with
      | none =>
          cases run
          exact ⟨queues, rfl, rfl, fun _ _ => rfl, nobody, id, id⟩
      | some t =>
          simp only [exec, threadCreate] at run
          rw [Except.bind_eq_ok] at run
          obtain ⟨⟨_, k₁⟩, created, run⟩ := run
          rw [Except.bind_eq_ok] at created
          obtain ⟨k₂, init, created⟩ := created
          cases created
          cases run
          exact structInit (legal t rfl) init
  | structInit t name stackSize stack block => exact structInit legal run
  | setIdleThread t =>
      cases run
      refine ⟨⟨queues.created, queues.queue, queues.sub, queues.unlinked, queues.current, ?_⟩,
        rfl, rfl, fun _ _ => rfl, nobody, id, id⟩
      intro u idle
      cases idle
      exact (isThread_iff queues).mp legal
  | wakeup t =>
      obtain ⟨after, current, idle, states, irqs, pendSv⟩ :=
        setState t .running ((isThread_iff queues).mp legal) (settled t rfl) run
      exact ⟨after, current, idle, fun u _ => states u, nobody, fun _ => irqs, pendSv⟩
  | stop t =>
      obtain ⟨after, current, idle, states, irqs, pendSv⟩ :=
        setState t .stopped ((isThread_iff queues).mp legal) (settled t rfl) run
      exact ⟨after, current, idle, fun u _ => states u, nobody, fun _ => irqs, pendSv⟩
  | block =>
      rw [exec, threadBlock, Except.bind_eq_ok] at run
      obtain ⟨t, current, run⟩ := run
      rw [deref_eq_ok] at current
      obtain ⟨after, current', idle, states, irqs, pendSv⟩ :=
        setState t .blocked (queues.current t current) (settled t current) run
      rw [opQueue, current]
      refine ⟨after, current', idle, fun u _ => ?_, nobody, fun _ => irqs, pendSv⟩
      rw [states u, opState, current]
      simp only [Option.some.injEq, eq_comm]
  | schedule stack =>
      rw [exec, Except.bind_eq_ok] at run
      obtain ⟨⟨r, k₁⟩, scheduled, run⟩ := run
      cases run
      obtain ⟨after, idle, states, picked, irqs, pendSv⟩ := schedule_queues queues scheduled
      exact ⟨after, picked, idle, fun u _ => states u, nobody, fun _ => irqs,
        fun on => pendSv.trans on⟩

/-- A thread that is queued if and only if it is running stays so. -/
theorem settled_opQueue (nodup : Q.Nodup) {u : τ} (settled : k.Settled Q u) :
    u ∈ opQueue k Q op ↔ opState k u op = .running := by
  have after : ∀ (t : τ) (s : ThreadState),
      u ∈ queueAfter t s Q ↔ (if u = t then s else (k.thread u).state) = .running := by
    intro t s
    rw [mem_queueAfter nodup]
    split
    · exact Iff.rfl
    · exact settled
  cases op with
  | wakeup t => exact after t .running
  | stop t => exact after t .stopped
  | block =>
      rw [opQueue, opState]
      cases k.currentThread with
      | none => exact settled
      | some t =>
          simp only [Option.some.injEq, eq_comm (a := t)]
          exact after t .blocked
  | schedule stack =>
      rw [opQueue, List.mem_rotate]
      exact settled
  | create storage name stackSize stack block => exact settled
  | structInit thread name stackSize stack block => exact settled
  | setIdleThread thread => exact settled

/-- A call changes neither the state of a thread that it is not about, nor whether it is queued. -/
theorem opQueue_of_ne (nodup : Q.Nodup) {u : τ} (other : opTarget k op ≠ some u) :
    (u ∈ opQueue k Q op ↔ u ∈ Q) ∧ opState k u op = (k.thread u).state := by
  have after : ∀ (t : τ) (s : ThreadState), u ≠ t → (u ∈ queueAfter t s Q ↔ u ∈ Q) := by
    intro t s ne
    rw [mem_queueAfter nodup, if_neg ne]
  cases op with
  | wakeup t =>
      have ne : u ≠ t := fun same => other (congrArg some same.symm)
      exact ⟨after t .running ne, if_neg ne⟩
  | stop t =>
      have ne : u ≠ t := fun same => other (congrArg some same.symm)
      exact ⟨after t .stopped ne, if_neg ne⟩
  | block =>
      refine ⟨?_, if_neg other⟩
      rw [opQueue]
      cases current : k.currentThread with
      | none => exact Iff.rfl
      | some t => exact after t .blocked fun same => other (current.trans (congrArg some same.symm))
  | schedule stack => exact ⟨List.mem_rotate, rfl⟩
  | create storage name stackSize stack block => exact ⟨Iff.rfl, rfl⟩
  | structInit thread name stackSize stack block => exact ⟨Iff.rfl, rfl⟩
  | setIdleThread thread => exact ⟨Iff.rfl, rfl⟩

/-- A call that creates a thread leaves the queue alone. -/
theorem notMem_opQueue (queues : k.Queues C Q) {u : τ} (mem : u ∈ opCreated C op)
    (fresh : u ∉ C) : u ∉ opQueue k Q op := by
  have notQueued : u ∉ Q := fun memQ => fresh (queues.sub u memQ)
  cases op with
  | create storage name stackSize stack block => exact notQueued
  | structInit thread name stackSize stack block => exact notQueued
  | setIdleThread thread => exact notQueued
  | wakeup t => exact absurd mem fresh
  | stop t => exact absurd mem fresh
  | block => exact absurd mem fresh
  | schedule stack => exact absurd mem fresh

/-- What a call does that returns: it keeps the invariant, and the threads, the running queue, the
current and the idle thread, and the states of the threads are as `opCreated`, `opQueue`,
`opCurrent`, `opIdle` and `opState` say. -/
theorem exec_inv (sound : k.Sound C Q) (legal : Legal k op) (run : exec op k = .ok k') :
    k'.Sound (opCreated C op) (opQueue k Q op) ∧ k'.currentThread = opCurrent k Q op ∧
      k'.idleThread = opIdle k op ∧ ∀ u ∈ C, (k'.thread u).state = opState k u op := by
  have target : ∀ u, opTarget k op = some u → k.Settled Q u := by
    intro u same
    apply sound.settled
    cases op with
    | wakeup t =>
        cases same
        exact (isThread_iff sound.queues).mp legal
    | stop t =>
        cases same
        exact (isThread_iff sound.queues).mp legal
    | block => exact sound.current u same
    | create storage name stackSize stack block => cases same
    | structInit thread name stackSize stack block => cases same
    | setIdleThread thread => cases same
    | schedule stack => cases same
  obtain ⟨after, current, idle, states, fresh, -⟩ := exec_queues sound.queues legal target run
  refine ⟨after.sound ?_, current, idle, states⟩
  intro u memU
  by_cases created : u ∈ C
  · rw [Kernel.Settled, states u created]
    exact settled_opQueue sound.queue.ring.nodup (sound.settled created)
  · rw [Kernel.Settled, fresh u memU created]
    simpa using notMem_opQueue sound.queues memU created

/-- `scheduler_init` leaves the main thread running, alone on the queue. -/
theorem schedulerInit_sound {storage : Option τ} (current : k.currentThread = none)
    (idle : k.idleThread = none)
    (run : schedulerInit storage (threadEarlyInit k) = .ok k') :
    ∃ main, storage = some main ∧ k'.Sound [main] [main] ∧ k'.idleThread = none := by
  simp only [schedulerInit] at run
  rw [Except.bind_eq_ok] at run
  obtain ⟨⟨main, k₁⟩, created, run⟩ := run
  rw [Except.bind_eq_ok] at run
  obtain ⟨main, found, run⟩ := run
  rw [deref_eq_ok] at found
  subst found
  rw [Except.bind_eq_ok] at run
  obtain ⟨k₂, woken, run⟩ := run
  cases run
  cases storage with
  | none => cases created
  | some t =>
      simp only [threadCreate] at created
      rw [Except.bind_eq_ok] at created
      obtain ⟨k₃, init, created⟩ := created
      cases created
      have empty : Kernel.Queues
          { threadEarlyInit k with runningQueue := listInit (threadEarlyInit k).runningQueue }
          [] [] := by
        refine ⟨listInit_represents _, listInit_represents _, by simp, by simp, ?_, ?_⟩
        · intro u running
          have none : k.currentThread = some u := running
          rw [current] at none
          cases none
        · intro u idling
          have none : k.idleThread = some u := idling
          rw [idle] at none
          cases none
      have created := threadStructInit_queues empty (by simp) init
      obtain ⟨-, -, -, -, -, idle', stopped, -⟩ := threadStructInit_inv init
      have started : Kernel.Sound { k₁ with currentThread := some main } [main] [] := by
        refine ⟨created.created, created.queue, ?_, created.unlinked,
          fun u running => by cases running; simp, created.idle⟩
        intro u
        constructor
        · intro mem
          cases mem
        · rintro ⟨mem, running⟩
          rw [List.mem_singleton.mp mem, stopped] at running
          cases running
      obtain ⟨k₄, ran, set, after⟩ :=
        threadSetState_spec (s := .running) started (List.mem_singleton_self main)
      rw [threadWakeup, ran] at woken
      cases woken
      exact ⟨main, rfl, ⟨after.created, after.queue, after.running, after.unlinked, after.current,
        after.idle⟩, set.idleThread.trans (idle'.trans idle)⟩

/-- The invariant holds in every reachable state. -/
theorem Reachable.sound {ok : Kernel τ → Op τ → Prop} (reach : Reachable ok k) :
    ∃ C Q, k.Sound C Q := by
  induction reach with
  | boot current idle run =>
      obtain ⟨main, -, sound, -⟩ := schedulerInit_sound current idle run
      exact ⟨_, _, sound⟩
  | step _ legal _ run ih =>
      obtain ⟨C, Q, sound⟩ := ih
      exact ⟨_, _, (exec_inv sound legal run).1⟩

/-! ## The running queue -/

/-- The idle thread is never woken, nor is a running thread made the idle thread. -/
def IdleNeverWoken (k : Kernel τ) : Op τ → Prop
  | .wakeup t => k.idleThread ≠ some t
  | .setIdleThread t => (k.thread t).state ≠ .running
  | _ => True

/-- The running queue is a circular list without duplicates of exactly the running threads. -/
def RunQueue (k : Kernel τ) : Prop :=
  ∃ C Q, Represents k.threadList C ∧ Represents k.runningQueue Q ∧ Q.Nodup ∧
    ∀ t, t ∈ Q ↔ t ∈ C ∧ (k.thread t).state = .running

/-- The current thread is the head of the running queue, or the idle thread if and only if the
queue is empty. -/
def Selected (k : Kernel τ) : Prop :=
  ∃ Q, Represents k.runningQueue Q ∧ (Q ≠ [] → k.currentThread = Q.head?) ∧
    (k.currentThread = k.idleThread ↔ Q = [])

/-- The idle thread is not on the running queue. -/
def IdleApart (k : Kernel τ) (Q : List τ) : Prop := ∀ t, k.idleThread = some t → t ∉ Q

/-- A call that does not wake the idle thread keeps it off the queue. -/
theorem IdleApart.exec (apart : IdleApart k Q) (sound : k.Sound C Q) (legal : Legal k op)
    (allowed : IdleNeverWoken k op) (run : Scheduler.exec op k = .ok k') :
    IdleApart k' (opQueue k Q op) := by
  obtain ⟨-, -, idle, -⟩ := exec_inv sound legal run
  have setState : ∀ (t : τ) (s : ThreadState), (s = .running → k.idleThread ≠ some t) →
      ∀ u, k.idleThread = some u → u ∉ queueAfter t s Q := by
    intro t s other u idling memU
    rw [mem_queueAfter sound.queue.ring.nodup] at memU
    split at memU
    · subst u
      exact other memU idling
    · exact apart u idling memU
  intro u idling
  rw [idle] at idling
  cases op with
  | create storage name stackSize stack block => exact apart u idling
  | structInit t name stackSize stack block => exact apart u idling
  | setIdleThread t =>
      cases idling
      exact fun memU => allowed ((sound.running u).mp memU).2
  | wakeup t => exact setState t .running (fun _ => allowed) u idling
  | stop t => exact setState t .stopped (by simp) u idling
  | block =>
      rw [opQueue]
      split
      · exact setState _ .blocked (by simp) u idling
      · exact apart u idling
  | schedule stack =>
      rw [opQueue, List.mem_rotate]
      exact apart u idling

/-- The idle thread is off the queue in every state of a run that never wakes it. -/
theorem Reachable.idleApart (reach : Reachable IdleNeverWoken k) :
    ∃ C Q, k.Sound C Q ∧ IdleApart k Q := by
  induction reach with
  | boot current idle run =>
      obtain ⟨main, -, sound, none⟩ := schedulerInit_sound current idle run
      refine ⟨_, _, sound, ?_⟩
      intro t idling
      rw [none] at idling
      cases idling
  | step _ legal allowed run ih =>
      obtain ⟨C, Q, sound, apart⟩ := ih
      exact ⟨_, _, (exec_inv sound legal run).1, apart.exec sound legal allowed run⟩

/-- **Run queue invariant**: in every state of every run in which the idle thread is never woken,
the running queue holds exactly the running threads, and `schedule` selects its head. -/
theorem reachable_runQueue (k : Kernel τ) (reach : Reachable IdleNeverWoken k) :
    RunQueue k ∧ ∀ stack r k', TheFirmware.schedule stack k = .ok (r, k') → Selected k' := by
  obtain ⟨C, Q, sound, apart⟩ := reach.idleApart
  refine ⟨⟨C, Q, sound.created, sound.queue, sound.queue.ring.nodup, sound.running⟩, ?_⟩
  intro stack r k' run
  obtain ⟨after, idle, -, picked, -⟩ := schedule_queues sound.queues run
  refine ⟨Q.rotate 1, after.queue, ?_, ?_⟩
  · intro nonempty
    rw [picked, if_neg]
    rintro rfl
    simp at nonempty
  · rw [idle, picked, List.rotate_eq_nil_iff]
    constructor
    · intro same
      by_contra nonempty
      rw [if_neg nonempty] at same
      cases head : (Q.rotate 1).head? with
      | none =>
          rw [List.head?_eq_none_iff, List.rotate_eq_nil_iff] at head
          exact nonempty head
      | some u =>
          rw [head] at same
          have memU : u ∈ Q := List.mem_rotate.mp (List.mem_of_head? head)
          exact apart u same.symm memU
    · intro empty
      rw [if_pos empty]

end Specs

/-! ## Concrete runs -/

/-- The kernel after a call, or the same kernel when the call faults. -/
def execD (op : Op τ) (k : Kernel τ) : Kernel τ := (exec op k).toOption.getD k

def runD : List (Op τ) → Kernel τ → Kernel τ
  | [], k => k
  | op :: ops, k => runD ops (execD op k)

/-- `Legal`, with the created threads as a list. -/
def LegalIn (C : List τ) : Op τ → Prop
  | .create storage _ _ _ _ => ∀ t ∈ storage, t ∉ C
  | .structInit t _ _ _ _ => t ∉ C
  | .setIdleThread t => t ∈ C
  | .wakeup t => t ∈ C
  | .stop t => t ∈ C
  | .block => True
  | .schedule _ => True

instance (C : List τ) : (op : Op τ) → Decidable (LegalIn C op)
  | .create _ _ _ _ _ => inferInstanceAs (Decidable (∀ t ∈ _, t ∉ C))
  | .structInit _ _ _ _ _ => inferInstanceAs (Decidable (_ ∉ C))
  | .setIdleThread _ => inferInstanceAs (Decidable (_ ∈ C))
  | .wakeup _ => inferInstanceAs (Decidable (_ ∈ C))
  | .stop _ => inferInstanceAs (Decidable (_ ∈ C))
  | .block => inferInstanceAs (Decidable True)
  | .schedule _ => inferInstanceAs (Decidable True)

/-- The calls are legal, satisfy `ok`, and return. -/
def Runs (ok : Kernel τ → Op τ → Prop) : List (Op τ) → List τ → Kernel τ → Prop
  | [], _, _ => True
  | op :: ops, C, k => LegalIn C op ∧ ok k op ∧ (exec op k).isOk = true ∧
      Runs ok ops (opCreated C op) (execD op k)

instance Runs.decidable (ok : Kernel τ → Op τ → Prop) [∀ k op, Decidable (ok k op)] :
    (ops : List (Op τ)) → (C : List τ) → (k : Kernel τ) → Decidable (Runs ok ops C k)
  | [], _, _ => inferInstanceAs (Decidable True)
  | op :: ops, C, k =>
      have := Runs.decidable ok ops (opCreated C op) (execD op k)
      inferInstanceAs (Decidable (_ ∧ _ ∧ _ ∧ Runs ok ops (opCreated C op) (execD op k)))

section Concrete

variable {ok : Kernel τ → Op τ → Prop} {k : Kernel τ} {C Q : List τ}

omit [DecidableEq τ] in
theorem LegalIn.legal {op : Op τ} (sound : k.Sound C Q) (legal : LegalIn C op) : Legal k op := by
  cases op with
  | create storage name stackSize stack block =>
      intro t fresh
      rw [isThread_iff sound.queues]
      exact legal t fresh
  | structInit t name stackSize stack block =>
      intro created
      exact absurd ((isThread_iff sound.queues).mp created) legal
  | setIdleThread t => exact (isThread_iff sound.queues).mpr legal
  | wakeup t => exact (isThread_iff sound.queues).mpr legal
  | stop t => exact (isThread_iff sound.queues).mpr legal
  | block => trivial
  | schedule stack => trivial

theorem exec_eq_execD {op : Op τ} (returns : (exec op k).isOk = true) :
    exec op k = .ok (execD op k) := by
  rw [execD]
  cases run : exec op k with
  | error fault =>
      rw [run] at returns
      cases returns
  | ok k' => rfl

theorem Runs.sound {ops : List (Op τ)} (runs : Runs ok ops C k) (sound : k.Sound C Q) :
    ∃ Q', (runD ops k).Sound (ops.foldl opCreated C) Q' := by
  induction ops generalizing k C Q with
  | nil => exact ⟨Q, sound⟩
  | cons op ops ih =>
      obtain ⟨legal, -, returns, rest⟩ := runs
      exact ih rest (exec_inv sound (legal.legal sound) (exec_eq_execD returns)).1

theorem Runs.reachable {ops : List (Op τ)} (runs : Runs ok ops C k) (sound : k.Sound C Q)
    (reach : Reachable ok k) : Reachable ok (runD ops k) := by
  induction ops generalizing k C Q with
  | nil => exact reach
  | cons op ops ih =>
      rcases runs with ⟨legal, allowed, returns, rest⟩
      have run := exec_eq_execD returns
      have legal := legal.legal sound
      exact ih rest (exec_inv sound legal run).1 (reach.step legal allowed run)

end Concrete

/-- A kernel before `scheduler_init`, all of its memory zero. -/
def blankKernel : Kernel Nat where
  mem := fun _ => 0
  thread := fun _ => Thread.zero
  threadList := ⟨⟨fun _ => none, fun _ => none⟩, none⟩
  nextTid := 0
  currentThread := none
  idleThread := none
  runningQueue := ⟨⟨fun _ => none, fun _ => none⟩, none⟩
  inIsrCount := 0
  irqs := true
  pendSv := false

/-- `scheduler_init` on the blank kernel, with the main thread at address 1. -/
def bootKernel : Kernel Nat :=
  (schedulerInit (some 1) (threadEarlyInit blankKernel)).toOption.getD blankKernel

theorem schedulerInit_bootKernel :
    schedulerInit (some 1) (threadEarlyInit blankKernel) = .ok bootKernel := by
  have returns : (schedulerInit (some 1) (threadEarlyInit blankKernel)).isOk = true := by
    decide +kernel
  rw [bootKernel]
  cases run : schedulerInit (some 1) (threadEarlyInit blankKernel) with
  | error fault =>
      rw [run] at returns
      cases returns
  | ok k => rfl

theorem bootKernel_sound : ∃ Q, bootKernel.Sound [1] Q := by
  obtain ⟨main, same, sound, -⟩ := schedulerInit_sound rfl rfl schedulerInit_bootKernel
  cases same
  exact ⟨_, sound⟩

theorem bootKernel_reachable {ok : Kernel Nat → Op Nat → Prop} : Reachable ok bootKernel :=
  .boot rfl rfl schedulerInit_bootKernel

instance (k : Kernel τ) : (op : Op τ) → Decidable (IdleNeverWoken k op)
  | .wakeup _ => inferInstanceAs (Decidable (_ ≠ _))
  | .setIdleThread _ => inferInstanceAs (Decidable (_ ≠ _))
  | .create _ _ _ _ _ => inferInstanceAs (Decidable True)
  | .structInit _ _ _ _ _ => inferInstanceAs (Decidable True)
  | .stop _ => inferInstanceAs (Decidable True)
  | .block => inferInstanceAs (Decidable True)
  | .schedule _ => inferInstanceAs (Decidable True)

/-- Thread 3 is made the idle thread. Thread 2 is created and woken, is selected and blocks, and is
woken by the main thread. -/
def wakeSetup : List (Op Nat) :=
  [.create (some 2) "second" 0 64 0, .structInit 3 "idle" 0 64 0, .setIdleThread 3, .wakeup 2,
    .schedule 64, .block, .schedule 64, .wakeup 2]

/-- Both threads are on the queue, and `schedule` selects thread 2. -/
theorem reachable_runQueue_woken :
    let k := runD wakeSetup bootKernel
    RunQueue k ∧ ∃ r k', TheFirmware.schedule 64 k = .ok (r, k') ∧
      k'.currentThread = some 2 ∧ k'.idleThread = some 3 ∧ Selected k' := by
  intro k
  rcases bootKernel_sound with ⟨Q, sound⟩
  have runs : Runs IdleNeverWoken wakeSetup [1] bootKernel := by decide +kernel
  rcases reachable_runQueue k (runs.reachable sound bootKernel_reachable) with ⟨queue, selects⟩
  have trace : ((TheFirmware.schedule 64 k).toOption.map fun x =>
      (x.2.currentThread, x.2.idleThread)) = some (some 2, some 3) := by
    decide +kernel
  cases run : TheFirmware.schedule 64 k with
  | error fault =>
      rw [run] at trace
      cases trace
  | ok result =>
      rcases result with ⟨r, k'⟩
      rw [run] at trace
      have same := Option.some.inj trace
      exact ⟨queue, r, k', rfl, congrArg Prod.fst same, congrArg Prod.snd same,
        selects 64 r k' run⟩

end TheFirmware.Scheduler
