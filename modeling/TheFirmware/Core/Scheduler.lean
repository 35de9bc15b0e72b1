import TheFirmware.Core.Thread

/-!
# `core/scheduler.c`

`schedule` and the functions that change the state of a thread, whose callee
`scheduler_thread_changed_state` keeps the running queue. `scheduler_lock` and `scheduler_unlock`
disable and enable interrupts (there is no nesting), and `yield` makes `PendSV` pending, whose
handler calls `schedule` as soon as it can be taken.

`Kernel.Sound k C Q` is the invariant of the kernel between calls: the threads created so far are
`C`, the running queue holds `Q`, and these are exactly the threads of `C` in state
`THREAD_STATE_RUNNING`. `Kernel.Queues k C Q` is what is left of it while `thread_set_state` has
stored a state but not yet changed the queue.
-/

namespace TheFirmware

variable {τ : Type}

/-- `scheduler_lock()`. -/
def schedulerLock (k : Kernel τ) : Kernel τ := { k with irqs := false }

/-- `scheduler_unlock()`. -/
def schedulerUnlock (k : Kernel τ) : Kernel τ := { k with irqs := true }

/-- `yield()`. -/
def yield (k : Kernel τ) : Kernel τ := { k with pendSv := true }

/-- `scheduler_enter_isr()`. -/
def schedulerEnterIsr (k : Kernel τ) : Kernel τ := { k with inIsrCount := k.inIsrCount + 1 }

/-- `scheduler_leave_isr()`. -/
def schedulerLeaveIsr (k : Kernel τ) : Kernel τ := { k with inIsrCount := k.inIsrCount - 1 }

/-- The critical section of `schedule`: the idle thread when nothing is queued, and otherwise the
first thread of the rotated queue. -/
def schedulePick (k : Kernel τ) : Kernel τ :=
  if listIsEmpty k.runningQueue then { k with currentThread := k.idleThread }
  else
    let runningQueue := listLrotate k.runningQueue
    { k with runningQueue, currentThread := listFirst runningQueue }

/-- `scheduler_set_idle_thread(thread)`. -/
def schedulerSetIdleThread (thread : τ) (k : Kernel τ) : Kernel τ :=
  { k with idleThread := some thread }

variable [DecidableEq τ]

/-- `schedule(stack)` with the critical section `pick`. -/
def scheduleWith (pick : Kernel τ → Kernel τ) (stack : Word) (k : Kernel τ) :
    Except Fault (Word × Kernel τ) := do
  assert (stack ≠ 0) "Stack can not be NULL"
  let k := schedulerEnterIsr k
  let current ← deref k.currentThread
  let k ← threadSetStack current stack k
  threadAssertStackProtection current k
  let k := schedulerUnlock (pick (schedulerLock k))
  let current ← deref k.currentThread
  return ((k.thread current).stack, schedulerLeaveIsr k)

/-- `schedule(stack)`. -/
def schedule (stack : Word) (k : Kernel τ) : Except Fault (Word × Kernel τ) :=
  scheduleWith schedulePick stack k

/-- `scheduler_thread_changed_state(thread, old_state, new_state)`. -/
def schedulerThreadChangedState (thread : τ) (oldState newState : ThreadState) (k : Kernel τ) :
    Except Fault (Kernel τ) := do
  let k := schedulerLock k
  let k ←
    if oldState = .running ∧ newState ≠ .running then
      let k := { k with runningQueue := listDelete k.runningQueue thread }
      pure (if some thread = k.currentThread then yield k else k)
    else if oldState ≠ .running ∧ newState = .running then do
      let runningQueue ← listAppend k.runningQueue thread
      pure { k with runningQueue }
    else pure k
  let k := if k.currentThread = k.idleThread then yield k else k
  return schedulerUnlock k

/-- `thread_set_state(thread, state)`. -/
def threadSetState (thread : τ) (state : ThreadState) (k : Kernel τ) : Except Fault (Kernel τ) :=
  let oldState := (k.thread thread).state
  let k := k.modify thread fun t => { t with state }
  schedulerThreadChangedState thread oldState state k

/-- `thread_block()`. -/
def threadBlock (k : Kernel τ) : Except Fault (Kernel τ) := do
  let current ← deref k.currentThread
  threadSetState current .blocked k

/-- `thread_stop(thread)`. -/
def threadStop (thread : τ) (k : Kernel τ) : Except Fault (Kernel τ) :=
  threadSetState thread .stopped k

/-- `thread_wakeup(thread)`. -/
def threadWakeup (thread : τ) (k : Kernel τ) : Except Fault (Kernel τ) :=
  threadSetState thread .running k

/-- `scheduler_init()`, where `storage` is what `malloc_raw` returned for the main thread. -/
def schedulerInit (storage : Option τ) (k : Kernel τ) : Except Fault (Kernel τ) := do
  let k := { k with runningQueue := listInit k.runningQueue }
  let (main, k) ← threadCreate storage "main" 0 0 0 k
  let k := { k with currentThread := main }
  let main ← deref main
  let k ← threadWakeup main k
  return yield k

/-! ## The invariant -/

/-- The threads created so far are `C`, and the running queue holds some of them. -/
structure Kernel.Queues (k : Kernel τ) (C Q : List τ) : Prop where
  created : Represents k.threadList C
  queue : Represents k.runningQueue Q
  sub : ∀ t ∈ Q, t ∈ C
  unlinked : ∀ t ∈ C, t ∉ Q → k.runningQueue.Unlinked t
  current : ∀ t, k.currentThread = some t → t ∈ C
  idle : ∀ t, k.idleThread = some t → t ∈ C

/-- The thread is on the running queue if and only if its state is `THREAD_STATE_RUNNING`. -/
def Kernel.Settled (k : Kernel τ) (Q : List τ) (t : τ) : Prop :=
  t ∈ Q ↔ (k.thread t).state = .running

/-- The threads created so far are `C`, and the running queue holds those of them that are
running. -/
structure Kernel.Sound (k : Kernel τ) (C Q : List τ) : Prop where
  created : Represents k.threadList C
  queue : Represents k.runningQueue Q
  running : ∀ t, t ∈ Q ↔ t ∈ C ∧ (k.thread t).state = .running
  unlinked : ∀ t ∈ C, t ∉ Q → k.runningQueue.Unlinked t
  current : ∀ t, k.currentThread = some t → t ∈ C
  idle : ∀ t, k.idleThread = some t → t ∈ C

/-- The running queue after `scheduler_thread_changed_state(t, oldState, newState)`. -/
def queueChanged (t : τ) (oldState newState : ThreadState) (Q : List τ) : List τ :=
  if oldState = .running ∧ newState ≠ .running then Q.erase t
  else if oldState ≠ .running ∧ newState = .running then Q.erase t ++ [t]
  else Q

/-- The running queue after a thread has changed to the state `s`. -/
def queueAfter (t : τ) (s : ThreadState) (Q : List τ) : List τ :=
  if s = .running then (if t ∈ Q then Q else Q ++ [t]) else Q.erase t

/-- What `scheduler_thread_changed_state(t, oldState, newState)` changes besides the running
queue. -/
structure StateChanged (t : τ) (oldState newState : ThreadState) (k k' : Kernel τ) : Prop where
  mem : k'.mem = k.mem
  thread : k'.thread = k.thread
  threadList : k'.threadList = k.threadList
  currentThread : k'.currentThread = k.currentThread
  idleThread : k'.idleThread = k.idleThread
  irqs : k'.irqs = true
  pendSv : k.pendSv = true → k'.pendSv = true
  yields : oldState = .running → newState ≠ .running → k.currentThread = some t → k'.pendSv = true

/-- What setting the state of a thread to `s` changes besides the running queue. -/
structure StateSet (t : τ) (s : ThreadState) (k k' : Kernel τ) : Prop where
  mem : k'.mem = k.mem
  thread : k'.thread = Function.update k.thread t { k.thread t with state := s }
  threadList : k'.threadList = k.threadList
  currentThread : k'.currentThread = k.currentThread
  idleThread : k'.idleThread = k.idleThread
  irqs : k'.irqs = true
  pendSv : k.pendSv = true → k'.pendSv = true

section Invariant

variable {k : Kernel τ} {C Q : List τ} {t : τ}

omit [DecidableEq τ]

theorem Kernel.Sound.queues (sound : k.Sound C Q) : k.Queues C Q where
  created := sound.created
  queue := sound.queue
  sub u mem := ((sound.running u).mp mem).1
  unlinked := sound.unlinked
  current := sound.current
  idle := sound.idle

theorem Kernel.Queues.ofSame {k' : Kernel τ} (queues : k.Queues C Q)
    (threadList : k'.threadList = k.threadList) (runningQueue : k'.runningQueue = k.runningQueue)
    (currentThread : k'.currentThread = k.currentThread)
    (idleThread : k'.idleThread = k.idleThread) : k'.Queues C Q :=
  ⟨threadList ▸ queues.created, runningQueue ▸ queues.queue, queues.sub,
    runningQueue ▸ queues.unlinked, currentThread ▸ queues.current, idleThread ▸ queues.idle⟩

theorem Kernel.Sound.settled (sound : k.Sound C Q) (mem : t ∈ C) : k.Settled Q t := by
  rw [Kernel.Settled, sound.running]
  exact and_iff_right mem

theorem Kernel.Queues.sound (queues : k.Queues C Q) (settled : ∀ t ∈ C, k.Settled Q t) :
    k.Sound C Q where
  created := queues.created
  queue := queues.queue
  running u := by
    constructor
    · intro mem
      have created := queues.sub u mem
      exact ⟨created, (settled u created).mp mem⟩
    · rintro ⟨created, running⟩
      exact (settled u created).mpr running
  unlinked := queues.unlinked
  current := queues.current
  idle := queues.idle

end Invariant

section Specs

variable {k k' : Kernel τ} {C Q : List τ} {t u : τ} {s oldState newState : ThreadState}

theorem StateSet.state_self (set : StateSet t s k k') : (k'.thread t).state = s := by
  rw [set.thread, Function.update_self]

theorem StateSet.state_of_ne (set : StateSet t s k k') (ne : u ≠ t) :
    (k'.thread u).state = (k.thread u).state := by
  rw [set.thread, Function.update_of_ne ne]

/-- What `scheduler_thread_changed_state` does to the running queue. -/
def changedQueue (queue : ListT τ) (t : τ) (oldState newState : ThreadState) :
    Except Fault (ListT τ) :=
  if oldState = .running ∧ newState ≠ .running then .ok (listDelete queue t)
  else if oldState ≠ .running ∧ newState = .running then listAppend queue t
  else .ok queue

omit [DecidableEq τ] in
/-- The end of `scheduler_thread_changed_state`. -/
theorem unlock_yield (p : Prop) [Decidable p] (k : Kernel τ) :
    ∃ pendSv, schedulerUnlock (if p then yield k else k) = { k with irqs := true, pendSv } ∧
      (k.pendSv = true → pendSv = true) := by
  split
  · exact ⟨true, rfl, fun _ => rfl⟩
  · exact ⟨k.pendSv, rfl, id⟩

/-- Besides the running queue, `scheduler_thread_changed_state` enables interrupts, and may make
`PendSV` pending. -/
theorem schedulerThreadChangedState_eq {queue : ListT τ}
    (changed : changedQueue k.runningQueue t oldState newState = .ok queue) :
    ∃ k', schedulerThreadChangedState t oldState newState k = .ok k' ∧
      k'.runningQueue = queue ∧ StateChanged t oldState newState k k' := by
  unfold changedQueue at changed
  simp only [schedulerThreadChangedState]
  split at changed
  · next leaves =>
      cases changed
      rw [if_pos leaves]
      simp only [pure_bind]
      by_cases current : some t = k.currentThread
      · obtain ⟨pendSv, settled, kept⟩ := unlock_yield (k.currentThread = k.idleThread)
          (yield { schedulerLock k with runningQueue := listDelete k.runningQueue t })
        rw [if_pos (show some t = (schedulerLock k).currentThread from current)]
        exact ⟨_, congrArg Except.ok settled, rfl, rfl, rfl, rfl, rfl, rfl, rfl,
          fun _ => kept rfl, fun _ _ _ => kept rfl⟩
      · obtain ⟨pendSv, settled, kept⟩ := unlock_yield (k.currentThread = k.idleThread)
          { schedulerLock k with runningQueue := listDelete k.runningQueue t }
        rw [if_neg (show ¬ some t = (schedulerLock k).currentThread from current)]
        exact ⟨_, congrArg Except.ok settled, rfl, rfl, rfl, rfl, rfl, rfl, rfl, kept,
          fun _ _ same => absurd same.symm current⟩
  · next stays =>
      have yields : oldState = .running → newState ≠ .running → ∀ {p : Prop}, p :=
        fun old new => absurd ⟨old, new⟩ stays
      rw [if_neg stays]
      split at changed
      · next enters =>
          rw [if_pos enters]
          have appended : listAppend (schedulerLock k).runningQueue t = .ok queue := changed
          rw [appended]
          obtain ⟨pendSv, settled, kept⟩ := unlock_yield (k.currentThread = k.idleThread)
            { schedulerLock k with runningQueue := queue }
          exact ⟨_, congrArg Except.ok settled, rfl, rfl, rfl, rfl, rfl, rfl, rfl, kept,
            fun old new _ => yields old new⟩
      · next same =>
          cases changed
          rw [if_neg same]
          obtain ⟨pendSv, settled, kept⟩ := unlock_yield (k.currentThread = k.idleThread)
            (schedulerLock k)
          exact ⟨_, congrArg Except.ok settled, rfl, rfl, rfl, rfl, rfl, rfl, rfl, kept,
            fun old new _ => yields old new⟩

/-- `list_delete` on the running queue. -/
theorem Kernel.Queues.delete (queues : k.Queues C Q) (mem : t ∈ C) :
    Represents (listDelete k.runningQueue t) (Q.erase t) ∧
      ∀ u ∈ C, u ∉ Q.erase t → (listDelete k.runningQueue t).Unlinked u := by
  by_cases memQ : t ∈ Q
  · refine ⟨listDelete_represents queues.queue memQ, ?_⟩
    intro u memU notMem
    by_cases same : u = t
    · subst same
      exact listDelete_unlinked queues.queue memQ
    · have notMemQ : u ∉ Q := fun memQ' => notMem ((List.mem_erase_of_ne same).mpr memQ')
      exact (queues.unlinked u memU notMemQ).transport
        (listDelete_keeps queues.queue memQ u notMemQ)
  · rw [listDelete_of_unlinked (queues.unlinked t mem memQ), List.erase_of_not_mem memQ]
    exact ⟨queues.queue, queues.unlinked⟩

/-- The running queue follows the change of state. -/
theorem Kernel.Queues.changedQueue (queues : k.Queues C Q) (mem : t ∈ C) :
    ∃ queue, changedQueue k.runningQueue t oldState newState = .ok queue ∧
      Represents queue (queueChanged t oldState newState Q) ∧
      ∀ u ∈ C, u ∉ queueChanged t oldState newState Q → queue.Unlinked u := by
  have deleted := queues.delete mem
  unfold TheFirmware.changedQueue queueChanged
  split
  · exact ⟨_, rfl, deleted⟩
  · split
    · have gone : (listDelete k.runningQueue t).Unlinked t :=
        deleted.2 t mem fun again => (queues.queue.ring.nodup.mem_erase_iff.mp again).1 rfl
      obtain ⟨queue, run, rep, keeps⟩ := listAppend_represents deleted.1 gone
      -- `list_append` deletes the entry first, which does nothing the second time
      rw [listAppend, listDelete_of_unlinked gone] at run
      refine ⟨queue, run, rep, ?_⟩
      intro u memU notMem
      rw [List.mem_append, not_or, List.mem_singleton] at notMem
      refine (deleted.2 u memU notMem.1).transport (keeps u ?_)
      rw [List.mem_cons, not_or]
      exact ⟨notMem.2, notMem.1⟩
    · exact ⟨_, rfl, queues.queue, queues.unlinked⟩

theorem mem_queueChanged (nodup : Q.Nodup) :
    u ∈ queueChanged t oldState newState Q ↔
      if u = t ∧ (oldState = .running ↔ newState ≠ .running) then newState = .running
      else u ∈ Q := by
  unfold queueChanged
  by_cases same : u = t
  · subst same
    by_cases old : oldState = .running
    · by_cases new : newState = .running
      · simp [old, new]
      · simp [old, new, nodup.mem_erase_iff]
    · by_cases new : newState = .running
      · simp [old, new]
      · simp [old, new]
  · split
    · simp [same]
    · split
      · simp [same]
      · simp [same]

/-- What `scheduler_thread_changed_state` has done when it returns. -/
theorem schedulerThreadChangedState_inv
    (run : schedulerThreadChangedState t oldState newState k = .ok k') :
    StateChanged t oldState newState k k' := by
  cases changed : changedQueue k.runningQueue t oldState newState with
  | ok queue =>
      obtain ⟨k'', ran, -, kept⟩ := schedulerThreadChangedState_eq changed
      rw [run] at ran
      cases ran
      exact kept
  | error fault =>
      unfold changedQueue at changed
      split at changed
      · cases changed
      · next stays =>
          split at changed
          · next enters =>
              have failed : listAppend (schedulerLock k).runningQueue t = .error fault := changed
              simp only [schedulerThreadChangedState] at run
              rw [if_neg stays, if_pos enters, failed] at run
              cases run
          · cases changed

/-- `scheduler_thread_changed_state` on a created thread returns, and keeps the queues, whatever
the states are. -/
theorem schedulerThreadChangedState_spec (oldState newState : ThreadState)
    (queues : k.Queues C Q) (mem : t ∈ C) :
    ∃ k', schedulerThreadChangedState t oldState newState k = .ok k' ∧
      StateChanged t oldState newState k k' ∧
      k'.Queues C (queueChanged t oldState newState Q) := by
  obtain ⟨queue, changed, rep, unlinked⟩ := queues.changedQueue mem
  obtain ⟨k', run, rfl, kept⟩ := schedulerThreadChangedState_eq changed
  refine ⟨k', run, kept, kept.threadList ▸ queues.created, rep, ?_, unlinked, ?_, ?_⟩
  · intro u memU
    rw [mem_queueChanged queues.queue.ring.nodup] at memU
    split at memU
    · next same => exact same.1 ▸ mem
    · exact queues.sub u memU
  · rw [kept.currentThread]
    exact queues.current
  · rw [kept.idleThread]
    exact queues.idle

/-- On a thread that is queued if and only if it is running, `thread_set_state` leaves it queued if
and only if its new state is running. -/
theorem queueChanged_eq_queueAfter (listed : t ∈ Q ↔ oldState = .running) :
    queueChanged t oldState s Q = queueAfter t s Q := by
  unfold queueChanged queueAfter
  by_cases old : oldState = .running
  · have memQ := listed.mpr old
    by_cases new : s = .running
    · simp [old, new, memQ]
    · simp [old, new]
  · have notMemQ : t ∉ Q := fun memQ => old (listed.mp memQ)
    by_cases new : s = .running
    · simp [old, new, notMemQ]
    · simp [old, new, List.erase_of_not_mem notMemQ]

theorem mem_queueAfter (nodup : Q.Nodup) :
    u ∈ queueAfter t s Q ↔ if u = t then s = .running else u ∈ Q := by
  unfold queueAfter
  by_cases new : s = .running
  · rw [if_pos new]
    by_cases same : u = t
    · subst same
      by_cases memQ : u ∈ Q
      · simp [new, memQ]
      · simp [new, memQ]
    · by_cases memQ : t ∈ Q
      · simp [memQ, same]
      · simp [memQ, same]
  · rw [if_neg new, nodup.mem_erase_iff]
    by_cases same : u = t
    · simp [same, new]
    · simp [same]

/-- `thread_set_state` on a created thread returns, and keeps the queues. -/
theorem threadSetState_queues (queues : k.Queues C Q) (mem : t ∈ C) :
    ∃ k', threadSetState t s k = .ok k' ∧ StateSet t s k k' ∧
      k'.Queues C (queueChanged t (k.thread t).state s Q) := by
  have stored : (k.modify t fun r => { r with state := s }).Queues C Q :=
    queues.ofSame rfl rfl rfl rfl
  obtain ⟨k', run, kept, after⟩ :=
    schedulerThreadChangedState_spec (k.thread t).state s stored mem
  exact ⟨k', run, ⟨kept.mem, kept.thread, kept.threadList, kept.currentThread, kept.idleThread,
    kept.irqs, kept.pendSv⟩, after⟩

/-- `thread_set_state` on a created thread returns, and keeps the invariant. -/
theorem threadSetState_spec (sound : Kernel.Sound k C Q) (mem : t ∈ C) :
    ∃ k', threadSetState t s k = .ok k' ∧ StateSet t s k k' ∧
      Kernel.Sound k' C (queueAfter t s Q) := by
  obtain ⟨k', run, set, after⟩ := threadSetState_queues (s := s) sound.queues mem
  rw [queueChanged_eq_queueAfter (sound.settled mem)] at after
  refine ⟨k', run, set, after.sound ?_⟩
  intro u memU
  rw [Kernel.Settled, mem_queueAfter sound.queue.ring.nodup]
  split
  · next same => rw [same, set.state_self]
  · next ne =>
      rw [set.state_of_ne ne]
      exact sound.settled memU

/-- What `schedule` does around its critical section. -/
theorem scheduleWith_inv {pick : Kernel τ → Kernel τ} {stack r : Word}
    (run : scheduleWith pick stack k = .ok (r, k')) :
    ∃ t u, k.currentThread = some t ∧ k'.currentThread = some u ∧ r = (k'.thread u).stack ∧
      k' = schedulerLeaveIsr (schedulerUnlock (pick (schedulerLock
        ((schedulerEnterIsr k).modify t fun s => { s with stack })))) := by
  simp only [scheduleWith] at run
  rw [Except.bind_eq_ok] at run
  obtain ⟨-, -, run⟩ := run
  rw [Except.bind_eq_ok] at run
  obtain ⟨t, current, run⟩ := run
  rw [deref_eq_ok] at current
  rw [Except.bind_eq_ok] at run
  obtain ⟨k₁, set, run⟩ := run
  rw [Except.bind_eq_ok] at run
  obtain ⟨-, -, run⟩ := run
  rw [Except.bind_eq_ok] at run
  obtain ⟨u, next, run⟩ := run
  rw [deref_eq_ok] at next
  cases run
  rw [threadSetStack, Except.bind_eq_ok] at set
  obtain ⟨-, -, set⟩ := set
  cases set
  exact ⟨t, u, current, next, rfl, rfl⟩

omit [DecidableEq τ] in
/-- The thread `schedule` selects, and the running queue it leaves. -/
theorem schedulePick_queues (queues : k.Queues C Q) :
    (schedulePick k).Queues C (Q.rotate 1) ∧
      (schedulePick k).thread = k.thread ∧ (schedulePick k).idleThread = k.idleThread ∧
      ((schedulePick k).currentThread = if Q = [] then k.idleThread else (Q.rotate 1).head?) ∧
      (schedulePick k).pendSv = k.pendSv := by
  unfold schedulePick
  cases Q with
  | nil =>
      have empty := (listIsEmpty_iff queues.queue).mpr rfl
      rw [if_pos empty]
      exact ⟨⟨queues.created, queues.queue, queues.sub, queues.unlinked, queues.idle,
        queues.idle⟩, rfl, rfl, rfl, rfl⟩
  | cons a T =>
      have full : ¬ listIsEmpty k.runningQueue = true := by
        rw [listIsEmpty_iff queues.queue]
        simp
      have rep := listLrotate_represents queues.queue
      have rotated : (a :: T).rotate 1 = T ++ [a] := by
        rw [List.rotate_cons_succ, List.rotate_zero]
      rw [if_neg full, rotated]
      have same : ∀ u, u ∈ T ++ [a] ↔ u ∈ a :: T := by
        intro u
        rw [List.mem_append, List.mem_singleton, List.mem_cons, or_comm]
      refine ⟨⟨queues.created, rep, ?_, ?_, ?_, queues.idle⟩, rfl, rfl, rep.head, rfl⟩
      · intro u memU
        exact queues.sub u ((same u).mp memU)
      · intro u memU notMem
        rw [same] at notMem
        rw [listLrotate_links]
        exact queues.unlinked u memU notMem
      · intro u current
        have first : (T ++ [a]).head? = some u := rep.head.symm.trans current
        exact queues.sub u ((same u).mp (List.mem_of_head? first))

end Specs

end TheFirmware
