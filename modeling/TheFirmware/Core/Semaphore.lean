import TheFirmware.Core.SchedulerRun

/-!
# `core/semaphore.c`

A semaphore is a counter and a list of waitees. A waitee is a `struct semaphore_waitee` on the
stack of the waiting thread, named by an element of `ω`; it records the thread, and its list entry
is in the pool of the queue.

A run makes calls of `semaphore_wait` by running threads, of `semaphore_signal`, and other calls
into the kernel that neither wake nor stop a waiting thread. Waitees are woken in the order they
arrived (`reachable_waiting`).
-/

namespace TheFirmware

/-- `struct semaphore`. -/
structure Semaphore (ω : Type) : Type where
  value : Int8
  queue : ListT ω

namespace Semaphore

variable {τ ω : Type}

/-- The kernel, one semaphore, and the threads recorded in the waitees. -/
structure Sem (τ ω : Type) : Type where
  kernel : Kernel τ
  semaphore : Semaphore ω
  thread : ω → Option τ

/-- `semaphore_init(semaphore, initial_value)`. -/
def semaphoreInit (initialValue : Int8) (s : Sem τ ω) : Sem τ ω :=
  { s with semaphore := ⟨initialValue, listInit s.semaphore.queue⟩ }

variable [DecidableEq τ] [DecidableEq ω]

/-- `semaphore_signal(semaphore)`. -/
def semaphoreSignal (s : Sem τ ω) : Except Fault (Sem τ ω) := do
  let s := { s with semaphore := { s.semaphore with value := s.semaphore.value + 1 } }
  match listFirst s.semaphore.queue with
  | some waitee =>
      let queue := listDelete s.semaphore.queue waitee
      let thread ← deref (s.thread waitee)
      let kernel ← threadWakeup thread s.kernel
      return { s with kernel, semaphore := { s.semaphore with queue } }
  | none => return s

/-- `semaphore_wait(semaphore)` with its waitee stored at `waitee`. -/
def semaphoreWait (waitee : ω) (s : Sem τ ω) : Except Fault (Sem τ ω) := do
  let s := { s with
    thread := Function.update s.thread waitee s.kernel.currentThread
    semaphore := { s.semaphore with queue := listEntryInit s.semaphore.queue waitee } }
  let s := { s with kernel := schedulerLock s.kernel }
  let s := { s with semaphore := { s.semaphore with value := s.semaphore.value - 1 } }
  -- No waiting needed
  if 0 ≤ s.semaphore.value then
    return { s with kernel := schedulerUnlock s.kernel }
  else
    let queue ← listAppend s.semaphore.queue waitee
    let kernel ← threadBlock s.kernel
    return { s with kernel, semaphore := { s.semaphore with queue } }

/-! ## Runs -/

/-- A semaphore with the number of calls made so far, and the number of the call in which each
waitee was last used. -/
structure State (τ ω : Type) : Type extends Sem τ ω where
  calls : Nat
  queuedAt : ω → Nat

/-- The thread has a waitee on the queue. -/
def Waits (s : Sem τ ω) (t : τ) : Prop :=
  ∃ W, Represents s.semaphore.queue W ∧ ∃ w ∈ W, s.thread w = some t

/-- The waitee is on the queue. -/
def Queued (s : Sem τ ω) (w : ω) : Prop := ∃ W, Represents s.semaphore.queue W ∧ w ∈ W

/-- One call. -/
inductive Call (τ ω : Type) : Type
  | wait (waitee : ω)
  | signal
  | kernel (op : Scheduler.Op τ)

/-- Only a running thread waits, in a fresh waitee. The other calls into the kernel neither wake
nor stop a waiting thread. -/
def Legal (s : Sem τ ω) : Call τ ω → Prop
  | .wait waitee => ¬ Queued s waitee ∧
      ∀ t, s.kernel.currentThread = some t → (s.kernel.thread t).state = .running
  | .signal => True
  | .kernel op => Scheduler.Legal s.kernel op ∧
      ∀ t, op = .wakeup t ∨ op = .stop t → ¬ Waits s t

/-- The state after a call. -/
def exec : Call τ ω → State τ ω → Except Fault (State τ ω)
  | .wait waitee, s => do
      let sem ← semaphoreWait waitee s.toSem
      return ⟨sem, s.calls + 1, Function.update s.queuedAt waitee s.calls⟩
  | .signal, s => do
      let sem ← semaphoreSignal s.toSem
      return ⟨sem, s.calls + 1, s.queuedAt⟩
  | .kernel op, s => do
      let kernel ← Scheduler.exec op s.kernel
      return ⟨{ s.toSem with kernel }, s.calls + 1, s.queuedAt⟩

/-- The states of the runs on a semaphore, from `semaphore_init` in some state of the kernel on. -/
inductive Reachable : State τ ω → Prop
  | init {s : Sem τ ω} (initialValue : Int8) (queuedAt : ω → Nat)
      (kernel : Scheduler.Reachable (fun _ _ => True) s.kernel) :
      Reachable ⟨semaphoreInit initialValue s, 0, queuedAt⟩
  | step {s s' : State τ ω} {call : Call τ ω} (before : Reachable s) (legal : Legal s.toSem call)
      (run : exec call s = .ok s') : Reachable s'

/-! ## The invariant -/

/-- The waitees `W` are queued in the order of their calls, and each records another thread, which
is blocked. -/
structure Sound (s : State τ ω) (C Q : List τ) (W : List ω) : Prop where
  kernel : s.kernel.Sound C Q
  queue : Represents s.semaphore.queue W
  waiting : ∀ w ∈ W, ∃ t ∈ C, s.thread w = some t ∧ (s.kernel.thread t).state = .blocked
  distinct : (W.map s.thread).Nodup
  order : W.Pairwise fun w w' => s.queuedAt w < s.queuedAt w'
  past : ∀ w ∈ W, s.queuedAt w < s.calls

section Specs

variable {s s' : State τ ω} {C Q : List τ} {W : List ω} {w : ω} {t : τ}

omit [DecidableEq τ] [DecidableEq ω] in
theorem waits_iff (sound : Sound s C Q W) : Waits s.toSem t ↔ ∃ w ∈ W, s.thread w = some t := by
  constructor
  · rintro ⟨W', rep, found⟩
    rwa [sound.queue.unique rep]
  · intro found
    exact ⟨W, sound.queue, found⟩

omit [DecidableEq τ] [DecidableEq ω] in
theorem queued_iff (sound : Sound s C Q W) : Queued s.toSem w ↔ w ∈ W := by
  constructor
  · rintro ⟨W', rep, mem⟩
    rwa [sound.queue.unique rep]
  · intro mem
    exact ⟨W, sound.queue, mem⟩

omit [DecidableEq τ] [DecidableEq ω] in
/-- A waitee that is not queued may record any thread. -/
theorem map_update_thread [DecidableEq ω] {thread : ω → Option τ} {p : Option τ} (fresh : w ∉ W) :
    W.map (Function.update thread w p) = W.map thread := by
  apply List.map_congr_left
  intro v mem
  rw [Function.update_of_ne]
  exact fun same => fresh (same ▸ mem)

/-- `semaphore_wait` returns at once, or queues the waitee and blocks the current thread. -/
theorem semaphoreWait_inv {sem : Sem τ ω} (sound : Sound s C Q W) (fresh : w ∉ W)
    (run : semaphoreWait w s.toSem = .ok sem) :
    sem.thread = Function.update s.thread w s.kernel.currentThread ∧
      ((sem.kernel = schedulerUnlock (schedulerLock s.kernel) ∧
          Represents sem.semaphore.queue W) ∨
        ∃ t, s.kernel.currentThread = some t ∧ Represents sem.semaphore.queue (W ++ [w]) ∧
          StateSet t .blocked (schedulerLock s.kernel) sem.kernel ∧
          sem.kernel.Sound C (queueAfter t .blocked Q)) := by
  have cleared : Represents (listEntryInit s.semaphore.queue w) W := by
    refine sound.queue.congr (fun v mem => listEntryInit_keeps _ w v ?_) rfl
    rw [List.mem_singleton]
    exact fun same => fresh (same ▸ mem)
  have locked : Kernel.Sound (schedulerLock s.kernel) C Q :=
    ⟨sound.kernel.created, sound.kernel.queue, sound.kernel.running, sound.kernel.unlinked,
      sound.kernel.current, sound.kernel.idle⟩
  simp only [semaphoreWait] at run
  split at run
  · cases run
    exact ⟨rfl, .inl ⟨rfl, cleared⟩⟩
  · obtain ⟨queue, appended, rep, -⟩ :=
      listAppend_represents cleared (listEntryInit_unlinked s.semaphore.queue w)
    rw [appended, Except.ok_bind, threadBlock, Except.bind_eq_ok] at run
    obtain ⟨kernel, blocked, run⟩ := run
    rw [Except.bind_eq_ok] at blocked
    obtain ⟨t, current, blocked⟩ := blocked
    rw [deref_eq_ok] at current
    obtain ⟨kernel', ran, set, after⟩ :=
      threadSetState_spec (s := .blocked) locked (locked.current t current)
    rw [ran] at blocked
    cases blocked
    cases run
    exact ⟨rfl, .inr ⟨t, current, rep, set, after⟩⟩

omit [DecidableEq τ] [DecidableEq ω] in
/-- A waiting thread is neither running nor on the running queue. -/
theorem Sound.waiter (sound : Sound s C Q W) (mem : w ∈ W) (found : s.thread w = some t) :
    t ∈ C ∧ (s.kernel.thread t).state = .blocked ∧ t ∉ Q := by
  obtain ⟨u, created, same, blocked⟩ := sound.waiting w mem
  rw [found] at same
  cases same
  refine ⟨created, blocked, fun memQ => ?_⟩
  have running := ((sound.kernel.running t).mp memQ).2
  rw [blocked] at running
  cases running

theorem Sound.wait (sound : Sound s C Q W) (legal : Legal s.toSem (.wait w))
    (run : exec (.wait w) s = .ok s') : ∃ Q' W', Sound s' C Q' W' := by
  obtain ⟨fresh, running⟩ := legal
  rw [queued_iff sound] at fresh
  rw [exec, Except.bind_eq_ok] at run
  obtain ⟨sem, waited, run⟩ := run
  cases run
  obtain ⟨thread, outcome⟩ := semaphoreWait_inv sound fresh waited
  have other : ∀ v ∈ W, v ≠ w := fun v mem same => fresh (same ▸ mem)
  have order : W.Pairwise fun v v' => Function.update s.queuedAt w s.calls v <
      Function.update s.queuedAt w s.calls v' := by
    refine sound.order.imp_of_mem fun memV memV' lt => ?_
    rwa [Function.update_of_ne (other _ memV), Function.update_of_ne (other _ memV')]
  have past : ∀ v ∈ W, Function.update s.queuedAt w s.calls v < s.calls := by
    intro v mem
    rw [Function.update_of_ne (other v mem)]
    exact sound.past v mem
  have kept : ∀ v ∈ W, Function.update s.thread w s.kernel.currentThread v = s.thread v :=
    fun v mem => Function.update_of_ne (other v mem) _ _
  rcases outcome with ⟨kernel, queue⟩ | ⟨t, current, queue, set, after⟩
  · refine ⟨Q, W, ?_, queue, ?_, ?_, order, fun v mem => Nat.lt_succ_of_lt (past v mem)⟩
    · simp only [kernel]
      exact ⟨sound.kernel.created, sound.kernel.queue, sound.kernel.running,
        sound.kernel.unlinked, sound.kernel.current, sound.kernel.idle⟩
    · intro v mem
      simp only [kernel, thread, kept v mem]
      exact sound.waiting v mem
    · simp only [thread]
      rw [map_update_thread fresh]
      exact sound.distinct
  · have created := sound.kernel.current t current
    -- the current thread was running, so it has no other waitee
    have alone : ∀ v ∈ W, s.thread v ≠ some t := by
      intro v mem found
      have blocked := (sound.waiter mem found).2.1
      rw [running t current] at blocked
      cases blocked
    refine ⟨_, W ++ [w], after, queue, ?_, ?_, ?_, ?_⟩
    · intro v mem
      simp only [thread]
      rcases List.mem_append.mp mem with mem | mem
      · obtain ⟨u, memC, found, blocked⟩ := sound.waiting v mem
        have ne : u ≠ t := fun same => alone v mem (same ▸ found)
        refine ⟨u, memC, (kept v mem).trans found, ?_⟩
        rw [set.state_of_ne ne]
        exact blocked
      · rw [List.mem_singleton.mp mem, Function.update_self]
        exact ⟨t, created, current, set.state_self⟩
    · simp only [thread]
      rw [List.map_append, map_update_thread fresh, List.map_singleton, Function.update_self,
        List.nodup_append]
      refine ⟨sound.distinct, List.nodup_singleton _, ?_⟩
      intro p memP q memQ same
      obtain ⟨v, memV, rfl⟩ := List.mem_map.mp memP
      rw [List.mem_singleton.mp memQ, current] at same
      exact alone v memV same
    · rw [List.pairwise_append]
      refine ⟨order, List.pairwise_singleton _ _, ?_⟩
      intro v mem v' mem'
      rw [List.mem_singleton.mp mem']
      simp only [Function.update_self]
      exact past v mem
    · intro v mem
      rcases List.mem_append.mp mem with mem | mem
      · exact Nat.lt_succ_of_lt (past v mem)
      · rw [List.mem_singleton.mp mem]
        simp only [Function.update_self]
        exact Nat.lt_succ_self _

/-- What `semaphore_signal` does: nothing to the kernel when nobody waits, and otherwise it takes
the first waitee off the queue and wakes its thread. -/
theorem semaphoreSignal_spec (sound : Sound s C Q W) :
    ∃ sem, semaphoreSignal s.toSem = .ok sem ∧ sem.thread = s.thread ∧
      match W with
      | [] => sem.kernel = s.kernel ∧ Represents sem.semaphore.queue []
      | w :: W => Represents sem.semaphore.queue W ∧
          ∃ t ∈ C, s.thread w = some t ∧ StateSet t .running s.kernel sem.kernel ∧
            sem.kernel.Sound C (queueAfter t .running Q) := by
  have head : listFirst s.semaphore.queue = W.head? := listFirst_eq sound.queue
  rw [semaphoreSignal]
  cases W with
  | nil =>
      simp only [head]
      exact ⟨_, rfl, rfl, rfl, sound.queue⟩
  | cons w W =>
      obtain ⟨t, created, found, -⟩ := sound.waiting w List.mem_cons_self
      obtain ⟨kernel, ran, set, after⟩ := threadSetState_spec (s := .running) sound.kernel created
      have rep := listDelete_represents sound.queue (e := w) List.mem_cons_self
      rw [List.erase_cons_head] at rep
      simp only [head, List.head?_cons, found, deref_some, Except.ok_bind, threadWakeup, ran]
      exact ⟨_, rfl, rfl, rep, t, created, rfl, set, after⟩

theorem Sound.signal (sound : Sound s C Q W) (run : exec .signal s = .ok s') :
    ∃ Q', Sound s' C Q' W.tail := by
  rw [exec, Except.bind_eq_ok] at run
  obtain ⟨sem, signalled, run⟩ := run
  cases run
  obtain ⟨sem', ran, thread, effect⟩ := semaphoreSignal_spec sound
  rw [signalled] at ran
  cases ran
  cases W with
  | nil =>
      obtain ⟨kernel, queue⟩ := effect
      exact ⟨Q, kernel ▸ sound.kernel, queue, by simp, by simp, by simp, by simp⟩
  | cons w W =>
      obtain ⟨queue, t, created, found, set, after⟩ := effect
      have distinct := sound.distinct
      rw [List.map_cons, List.nodup_cons] at distinct
      refine ⟨_, after, queue, ?_, ?_, (List.pairwise_cons.mp sound.order).2, ?_⟩
      · intro v mem
        obtain ⟨u, memC, recorded, blocked⟩ := sound.waiting v (List.mem_cons_of_mem w mem)
        have ne : u ≠ t := by
          rintro rfl
          exact distinct.1 (List.mem_map.mpr ⟨v, mem, recorded.trans found.symm⟩)
        refine ⟨u, memC, ?_, ?_⟩
        · simp only [thread]
          exact recorded
        · rw [set.state_of_ne ne]
          exact blocked
      · simp only [thread]
        exact distinct.2
      · intro v mem
        exact Nat.lt_succ_of_lt (sound.past v (List.mem_cons_of_mem w mem))

/-- The other calls leave the waiting threads blocked. -/
theorem Sound.other {op : Scheduler.Op τ} (sound : Sound s C Q W)
    (legal : Legal s.toSem (.kernel op)) (run : exec (.kernel op) s = .ok s') :
    ∃ C' Q', Sound s' C' Q' W := by
  obtain ⟨legal, apart⟩ := legal
  rw [exec, Except.bind_eq_ok] at run
  obtain ⟨kernel, ran, run⟩ := run
  cases run
  obtain ⟨after, -, -, states⟩ := Scheduler.exec_inv sound.kernel legal ran
  refine ⟨_, _, after, sound.queue, ?_, sound.distinct, sound.order,
    fun v mem => Nat.lt_succ_of_lt (sound.past v mem)⟩
  intro v mem
  obtain ⟨t, created, found, blocked⟩ := sound.waiting v mem
  have waits : Waits s.toSem t := (waits_iff sound).mpr ⟨v, mem, found⟩
  refine ⟨t, Scheduler.mem_opCreated created, found, ?_⟩
  rw [states t created]
  cases op with
  | wakeup u =>
      rw [Scheduler.opState, if_neg, blocked]
      rintro rfl
      exact apart t (.inl rfl) waits
  | stop u =>
      rw [Scheduler.opState, if_neg, blocked]
      rintro rfl
      exact apart t (.inr rfl) waits
  | block =>
      rw [Scheduler.opState, blocked, ite_self]
  | create storage name stackSize stack block => exact blocked
  | structInit thread name stackSize stack block => exact blocked
  | setIdleThread thread => exact blocked
  | schedule stack => exact blocked

/-- The invariant holds in every reachable state. -/
theorem Reachable.sound (reach : Reachable s) : ∃ C Q W, Sound s C Q W := by
  induction reach with
  | init initialValue queuedAt kernel =>
      obtain ⟨C, Q, sound⟩ := kernel.sound
      exact ⟨C, Q, [], sound, listInit_represents _, by simp, by simp, by simp, by simp⟩
  | @step s s' call _ legal run ih =>
      obtain ⟨C, Q, W, sound⟩ := ih
      cases call with
      | wait waitee =>
          obtain ⟨Q', W', after⟩ := sound.wait legal run
          exact ⟨C, Q', W', after⟩
      | signal =>
          obtain ⟨Q', after⟩ := sound.signal run
          exact ⟨C, Q', W.tail, after⟩
      | kernel op =>
          obtain ⟨C', Q', after⟩ := sound.other legal run
          exact ⟨C', Q', W, after⟩

/-! ## Wakeup order -/

/-- Every queued waitee's thread is blocked, is in the queue once, and is not on the running
queue. -/
def Waiting (s : State τ ω) (W : List ω) (Q : List τ) : Prop :=
  (W.map s.thread).Nodup ∧
    ∀ w ∈ W, ∃ t, s.thread w = some t ∧ (s.kernel.thread t).state = .blocked ∧ t ∉ Q

/-- The waitee is taken off the queue and its thread is woken, and no other thread is. -/
def Wakes (s : State τ ω) (sem : Sem τ ω) (w : ω) (W : List ω) : Prop :=
  Represents sem.semaphore.queue W ∧
    ∃ t Q, s.thread w = some t ∧ (sem.kernel.thread t).state = .running ∧
      Represents sem.kernel.runningQueue Q ∧ t ∈ Q ∧
      ∀ u, u ≠ t → sem.kernel.thread u = s.kernel.thread u

/-- **Semaphore wakeup order**: in every state of every run the queued threads are blocked, and a
signal wakes exactly the thread that has been queued longest, or nobody when none is queued. -/
theorem reachable_waiting (s : State τ ω) (reach : Reachable s) :
    ∃ W Q, Represents s.semaphore.queue W ∧ Represents s.kernel.runningQueue Q ∧
      Waiting s W Q ∧
      ∃ sem, semaphoreSignal s.toSem = .ok sem ∧
        (W = [] → sem.kernel = s.kernel ∧ Represents sem.semaphore.queue []) ∧
        ∀ w W', W = w :: W' →
          Wakes s sem w W' ∧ ∀ w' ∈ W', s.queuedAt w < s.queuedAt w' := by
  obtain ⟨C, Q, W, sound⟩ := reach.sound
  obtain ⟨sem, run, -, effect⟩ := semaphoreSignal_spec sound
  refine ⟨W, Q, sound.queue, sound.kernel.queue, ⟨sound.distinct, ?_⟩, sem, run, ?_, ?_⟩
  · intro w mem
    obtain ⟨t, -, found, -⟩ := sound.waiting w mem
    exact ⟨t, found, (sound.waiter mem found).2⟩
  · rintro rfl
    exact effect
  · rintro w W' rfl
    obtain ⟨queue, t, created, found, set, after⟩ := effect
    refine ⟨⟨queue, t, _, found, set.state_self, after.queue, ?_, ?_⟩,
      (List.pairwise_cons.mp sound.order).1⟩
    · exact (after.running t).mpr ⟨created, set.state_self⟩
    · intro u ne
      rw [set.thread, Function.update_of_ne ne]

end Specs

/-! ## Two waiting threads -/

/-- A semaphore of value zero, in the kernel `scheduler_init` leaves. -/
def emptyState : State Nat Nat where
  toSem := semaphoreInit 0
    ⟨Scheduler.bootKernel, ⟨0, ⟨⟨fun _ => none, fun _ => none⟩, none⟩⟩, fun _ => none⟩
  calls := 0
  queuedAt := fun _ => 0

/-- The main thread may wait when nobody does. -/
theorem legal_wait_main {s : Sem Nat Nat} (waitee : Nat) (kernel : s.kernel = Scheduler.bootKernel)
    (empty : Represents s.semaphore.queue []) : Legal s (.wait waitee) := by
  constructor
  · rintro ⟨W, rep, mem⟩
    rw [rep.unique empty] at mem
    cases mem
  · intro t current
    have main : Scheduler.bootKernel.currentThread = some 1 := by decide +kernel
    rw [kernel, main] at current
    cases current
    rw [kernel]
    decide +kernel

/-- Threads 2 and 3 have been created and woken. -/
def threeThreads : List (Scheduler.Op Nat) :=
  [.create (some 2) "second" 0 64 0, .create (some 3) "third" 0 64 0, .wakeup 2, .wakeup 3]

/-- A semaphore of value zero. -/
def threeState : State Nat Nat where
  toSem := semaphoreInit 0 ⟨Scheduler.runD threeThreads Scheduler.bootKernel,
    ⟨0, ⟨⟨fun _ => none, fun _ => none⟩, none⟩⟩, fun _ => none⟩
  calls := 0
  queuedAt := fun _ => 0

/-- The state after a call that returns. -/
def execD (call : Call Nat Nat) (s : State Nat Nat) : State Nat Nat :=
  (exec call s).toOption.getD s

/-- A waitee is not linked, and the current thread is running. -/
def mayCall (s : State Nat Nat) : Call Nat Nat → Bool
  | .wait waitee => (s.semaphore.queue.next waitee).isNone &&
      s.kernel.currentThread.all fun t => (s.kernel.thread t).state = .running
  | .signal => true
  | .kernel (.schedule _) => true
  | .kernel _ => false

/-- The call may be made, and returns. -/
def admits (s : State Nat Nat) (call : Call Nat Nat) : Bool :=
  mayCall s call && (exec call s).isOk

/-- The main thread waits. `schedule` skips the second one and selects the third one, which waits,
too. Then the second one runs. -/
def twoWait : List (Call Nat Nat) :=
  [.wait 0, .kernel (.schedule 64), .wait 1, .kernel (.schedule 64)]

/-- All calls are admitted. -/
def admitsAll : List (Call Nat Nat) → State Nat Nat → Bool
  | [], _ => true
  | call :: calls, s => admits s call && admitsAll calls (execD call s)

theorem exec_eq_execD {s : State Nat Nat} {call : Call Nat Nat}
    (returns : (exec call s).isOk = true) : exec call s = .ok (execD call s) := by
  rw [execD]
  cases run : exec call s with
  | error fault =>
      rw [run] at returns
      cases returns
  | ok s' => rfl

theorem not_queued_of_unlinked {s : State Nat Nat} {w : Nat}
    (unlinked : s.semaphore.queue.next w = none) : ¬ Queued s.toSem w := by
  rintro ⟨W, rep, mem⟩
  obtain ⟨y, -, next, -⟩ := rep.ring.linked_of_mem mem
  rw [unlinked] at next
  cases next

theorem legal_of_mayCall {s : State Nat Nat} {call : Call Nat Nat}
    (may : mayCall s call = true) : Legal s.toSem call := by
  cases call with
  | wait waitee =>
      simp only [mayCall, Bool.and_eq_true, Option.isNone_iff_eq_none] at may
      rcases may with ⟨unlinked, running⟩
      refine ⟨not_queued_of_unlinked unlinked, ?_⟩
      intro t current
      rw [current] at running
      simpa using running
  | signal => trivial
  | kernel op =>
      cases op with
      | schedule stack => exact ⟨trivial, by simp⟩
      | _ => cases may

theorem Reachable.admitsAll {calls : List (Call Nat Nat)} {s : State Nat Nat}
    (reach : Reachable s) (admitted : admitsAll calls s = true) :
    Reachable (calls.foldl (fun s call => execD call s) s) := by
  induction calls generalizing s with
  | nil => exact reach
  | cons call calls ih =>
      simp only [Semaphore.admitsAll, admits, Bool.and_eq_true] at admitted
      rcases admitted with ⟨⟨may, returns⟩, rest⟩
      exact ih (reach.step (legal_of_mayCall may) (exec_eq_execD returns)) rest

/-- The main thread and the third one are queued, and the second one is running. -/
def twoWaiting : State Nat Nat := twoWait.foldl (fun s call => execD call s) threeState

theorem twoWaiting_reachable : Reachable twoWaiting := by
  obtain ⟨Q, sound⟩ := Scheduler.bootKernel_sound
  have prepared : Scheduler.Runs (fun _ _ => True) threeThreads [1] Scheduler.bootKernel := by
    decide +kernel
  have start : Reachable threeState :=
    .init 0 _ (prepared.reachable sound Scheduler.bootKernel_reachable)
  exact start.admitsAll (by decide +kernel)

theorem twoWaiting_queue : Represents twoWaiting.semaphore.queue [0, 1] := by
  have linked : ∀ a b : Nat, twoWaiting.semaphore.queue.next a = some b →
      twoWaiting.semaphore.queue.prev b = some a →
      twoWaiting.semaphore.queue.Linked a b := fun _ _ next prev => ⟨next, prev⟩
  refine ⟨⟨by decide, ?_⟩, by decide +kernel⟩
  exact .cons_cons (linked 0 1 (by decide +kernel) (by decide +kernel))
    (.cons_cons (linked 1 0 (by decide +kernel) (by decide +kernel)) (.singleton 0))

/-- The signal wakes the main thread, which was queued first. -/
theorem reachable_waiting_two :
    ∃ sem, semaphoreSignal twoWaiting.toSem = .ok sem ∧ Wakes twoWaiting sem 0 [1] ∧
      twoWaiting.thread 0 = some 1 ∧ twoWaiting.queuedAt 0 < twoWaiting.queuedAt 1 := by
  rcases reachable_waiting twoWaiting twoWaiting_reachable with
    ⟨W, Q, queue, -, -, sem, run, -, wakes⟩
  rcases wakes 0 [1] (queue.unique twoWaiting_queue) with ⟨woken, first⟩
  exact ⟨sem, run, woken, by decide +kernel, first 1 (List.mem_singleton_self 1)⟩

end Semaphore

end TheFirmware
