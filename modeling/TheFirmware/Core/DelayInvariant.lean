import TheFirmware.Core.Delay

/-!
# The invariant of the delaying threads

What holds in every state of every run of the system of `Delay`, whatever the interrupts do. The
threads that are not in `delay` are queued if and only if they are running; the others are as
`InStage` says. A timeout with `delay_handler` is pending only for a thread that is as `Waiting`
says, for which waking it has the right effect.
-/

namespace TheFirmware.Delay

variable {τ α η : Type}

/-- A thread in each stage of `delay`, given whether it is queued. Once it has left the running
queue its state need not fit: the interrupt may have been taken between the store of the state and
the change of the queue. -/
def InStage (queued : Prop) (state : ThreadState) : Stage → Prop
  | .outside => queued ↔ state = .running
  | .locked _ => queued ∧ state = .running
  | .scheduled => queued ∧ state = .running
  | .read oldState => queued ∧ state = .running ∧ oldState = .running
  | .stored oldState => queued ∧ oldState = .running
  | .changed => queued → state = .running

/-- A thread whose timeout is pending, in each stage of `delay`. -/
def Waiting (queued : Prop) (state : ThreadState) : Stage → Prop
  | .outside => False
  | .locked _ => False
  | .scheduled => True
  | .read _ => True
  | .stored _ => state = .blocked
  | .changed => ¬ queued ∧ state = .blocked

/-- A timeout that will wake the thread is on the list. -/
def Pending (t : Timer α (Handler η) τ) (L : List α) (u : τ) : Prop :=
  ∃ e ∈ L, (t.timeout e).handler = .delay ∧ (t.timeout e).context = u

/-- The kernel part of the invariant. -/
structure Threads (k : Kernel τ) (phase : Phase) (stage : τ → Stage) (C Q : List τ) : Prop where
  queues : k.Queues C Q
  stages : ∀ t ∈ C, InStage (t ∈ Q) (k.thread t).state (stage t)
  created : ∀ t, stage t ≠ .outside → t ∈ C
  idle : ∀ t, k.idleThread = some t → stage t = .outside
  irqs : k.irqs = false →
    phase = .thread ∧ ∃ t time, k.currentThread = some t ∧ stage t = .locked time
  current : ∀ t, k.currentThread = some t → k.pendSv = false → stage t ≠ .outside → t ∈ Q

/-- The timer part of the invariant: timeouts with `delay_handler` fire once, one for each thread,
and only for threads that satisfy `waits`. -/
structure Waiters (t : Timer α (Handler η) τ) (L : List α) (waits : τ → Prop) : Prop where
  queue : Represents t.managedTimeouts L
  managed : L ≠ [] → t.managed = true
  once : ∀ e ∈ L, (t.timeout e).handler = .delay → (t.timeout e).resetTime = 0
  waits : ∀ e ∈ L, (t.timeout e).handler = .delay → waits (t.timeout e).context
  distinct : ∀ e ∈ L, ∀ e' ∈ L, (t.timeout e).handler = .delay → (t.timeout e').handler = .delay →
    (t.timeout e).context = (t.timeout e').context → e = e'

/-- The threads created so far are `C`, the running queue holds `Q`, and the timeouts are `L`. -/
structure Sound (s : System τ α η) (C Q : List τ) (L : List α) : Prop where
  threads : Threads s.kernel s.phase s.stage C Q
  waiters : Waiters s.timer L fun t => Waiting (t ∈ Q) (s.kernel.thread t).state (s.stage t)

/-! ## Timeouts -/

section Timeouts

variable {t t' : Timer α (Handler η) τ} {L L' A B : List α} {waits waits' : τ → Prop} {e x : α}
  {u : τ} {fuel : Nat}

/-- Timeouts stay pending. -/
theorem Pending.congr (same : ∀ e ∈ L, TimerQueue.SameTimeout (t.timeout e) (t'.timeout e))
    (keeps : ∀ e ∈ L, (t.timeout e).handler = .delay → (t.timeout e).context = u → e ∈ L')
    (pending : Pending t L u) : Pending t' L' u := by
  obtain ⟨e, mem, isDelay, context⟩ := pending
  refine ⟨e, keeps e mem isDelay context, ?_, ?_⟩
  · rw [(same e mem).2.1, isDelay]
  · rw [(same e mem).2.2, context]

theorem Waiters.mono (waiters : Waiters t L waits)
    (imp : ∀ e ∈ L, (t.timeout e).handler = .delay → waits (t.timeout e).context →
      waits' (t.timeout e).context) : Waiters t L waits' where
  queue := waiters.queue
  managed := waiters.managed
  once := waiters.once
  waits e mem isDelay := imp e mem isDelay (waiters.waits e mem isDelay)
  distinct := waiters.distinct

/-- Some timeouts are gone. -/
theorem Waiters.sub (waiters : Waiters t L waits) (queue : Represents t'.managedTimeouts L')
    (managed : t'.managed = t.managed) (sub : ∀ e ∈ L', e ∈ L)
    (same : ∀ e, TimerQueue.SameTimeout (t.timeout e) (t'.timeout e)) : Waiters t' L' waits where
  queue := queue
  managed nonempty := by
    obtain ⟨e, mem⟩ := List.exists_mem_of_ne_nil L' nonempty
    rw [managed]
    exact waiters.managed (List.ne_nil_of_mem (sub e mem))
  once e mem isDelay := by
    rw [(same e).1]
    exact waiters.once e (sub e mem) ((same e).2.1 ▸ isDelay)
  waits e mem isDelay := by
    rw [(same e).2.2]
    exact waiters.waits e (sub e mem) ((same e).2.1 ▸ isDelay)
  distinct e mem e' mem' isDelay isDelay' sameContext := by
    rw [(same e).2.1] at isDelay
    rw [(same e').2.1] at isDelay'
    rw [(same e).2.2, (same e').2.2] at sameContext
    exact waiters.distinct e (sub e mem) e' (sub e' mem') isDelay isDelay' sameContext

/-- A timeout has been inserted. One with `delay_handler` must fire once, and for a thread for which
none is pending. -/
theorem Waiters.insert (waiters : Waiters t (A ++ B) waits)
    (queue : Represents t'.managedTimeouts (A ++ x :: B)) (managed : t'.managed = true)
    (same : ∀ a, a ≠ x → TimerQueue.SameTimeout (t.timeout a) (t'.timeout a))
    (new : (t'.timeout x).handler = .delay →
      (t'.timeout x).resetTime = 0 ∧ waits (t'.timeout x).context ∧
        ∀ e ∈ A ++ B, (t.timeout e).handler = .delay →
          (t.timeout e).context ≠ (t'.timeout x).context) : Waiters t' (A ++ x :: B) waits := by
  have split : ∀ a ∈ A ++ x :: B, a = x ∨ a ≠ x ∧ a ∈ A ++ B := by
    intro a mem
    by_cases isNew : a = x
    · exact .inl isNew
    · right
      refine ⟨isNew, ?_⟩
      simpa [isNew] using mem
  have old : ∀ a, a ≠ x → (t'.timeout a).handler = .delay → (t.timeout a).handler = .delay :=
    fun a ne isDelay => (same a ne).2.1 ▸ isDelay
  refine ⟨queue, fun _ => managed, ?_, ?_, ?_⟩
  · intro a mem isDelay
    rcases split a mem with rfl | ⟨ne, mem⟩
    · exact (new isDelay).1
    · rw [(same a ne).1]
      exact waiters.once a mem (old a ne isDelay)
  · intro a mem isDelay
    rcases split a mem with rfl | ⟨ne, mem⟩
    · exact (new isDelay).2.1
    · rw [(same a ne).2.2]
      exact waiters.waits a mem (old a ne isDelay)
  · intro a mem b mem' isDelay isDelay' sameContext
    rcases split a mem with isNew | ⟨ne, memA⟩
    · rcases split b mem' with isNew' | ⟨ne', memB⟩
      · rw [isNew, isNew']
      · subst isNew
        rw [(same b ne').2.2] at sameContext
        exact absurd sameContext.symm ((new isDelay).2.2 b memB (old b ne' isDelay'))
    · rcases split b mem' with isNew' | ⟨ne', memB⟩
      · subst isNew'
        rw [(same a ne).2.2] at sameContext
        exact absurd sameContext ((new isDelay').2.2 a memA (old a ne isDelay))
      · rw [(same a ne).2.2, (same b ne').2.2] at sameContext
        exact waiters.distinct a memA b memB (old a ne isDelay) (old b ne' isDelay') sameContext

/-- The timer is only set, or time passes. -/
theorem Waiters.setHardware (waiters : Waiters t L waits) (hardware : Hardware) :
    Waiters { t with hardware } L waits :=
  waiters.sub waiters.queue rfl (fun _ mem => mem) fun _ => .refl _

variable [DecidableEq α]

/-- Time is taken off a timeout. -/
theorem Waiters.elapse {elapsedTime : Int} (waiters : Waiters t L waits)
    (run : timerManagedhandlerElapse elapsedTime e t = .ok t') :
    Waiters t' L waits ∧ ∀ u, Pending t L u → Pending t' L u := by
  rw [timerManagedhandlerElapse, Except.bind_eq_ok] at run
  obtain ⟨remaining, -, run⟩ := run
  cases run
  have same := fun a => TimerQueue.sameTimeout_setRemaining t e a remaining
  exact ⟨waiters.sub waiters.queue rfl (fun _ mem => mem) same,
    fun u => Pending.congr (fun a _ => same a) fun _ mem _ _ => mem⟩

/-- Scheduling a timeout. -/
theorem Waiters.schedule {timeout : Int} {again : Bool} {handler : Handler η} {context : τ}
    (waiters : Waiters t L waits) (fresh : x ∉ L)
    (run : timerManagedSchedule fuel x timeout again (some handler) context t = .ok t')
    (new : handler = .delay → again = false ∧ waits context ∧ ¬ Pending t L context) :
    ∃ L', Waiters t' L' waits ∧ (∀ u, Pending t L u → Pending t' L' u) ∧
      (handler = .delay → Pending t' L' context) := by
  obtain ⟨-, t₁, A, B, rfl, inserted, timeouts, managed, -⟩ :=
    TimerQueue.timerManagedSchedule_inv waiters.queue waiters.managed fresh run
  have others : ∀ a, a ≠ x → TimerQueue.SameTimeout (t.timeout a) (t'.timeout a) := by
    intro a ne
    have same := inserted.same a
    rwa [timeouts, Function.update_of_ne ne] at same
  have isNew := inserted.same x
  rw [timeouts, Function.update_self] at isNew
  refine ⟨A ++ x :: B, waiters.insert inserted.queue managed others ?_, ?_, ?_⟩
  · rw [isNew.1, isNew.2.1, isNew.2.2]
    intro isDelay
    obtain ⟨once, waits, notPending⟩ := new isDelay
    rw [once]
    exact ⟨rfl, waits, fun e mem isDelay same => notPending ⟨e, mem, isDelay, same⟩⟩
  · intro u
    refine Pending.congr (fun a mem => others a fun same => fresh (same ▸ mem)) ?_
    intro a mem _ _
    simp only [List.mem_append, List.mem_cons] at mem ⊢
    tauto
  · intro isDelay
    exact ⟨x, by simp, isNew.2.1.trans isDelay, isNew.2.2⟩

/-- The loop body of `timer_managedhandler` takes the first timeout off the list, and may insert it
again when it is not one of `delay`. -/
theorem Waiters.expire (waiters : Waiters t (e :: L) waits)
    (run : timerManagedhandlerExpire fuel e t = .ok t') :
    TimerQueue.SameTimeout (t.timeout e) (t'.timeout e) ∧
      ∃ L', Waiters t' L' waits ∧
        ((t.timeout e).handler = .delay → ¬ Pending t' L' (t.timeout e).context) ∧
        ∀ u, ((t.timeout e).handler = .delay → (t.timeout e).context ≠ u) →
          Pending t (e :: L) u → Pending t' L' u := by
  have keeps : ∀ L', (∀ a ∈ L, a ∈ L') →
      (∀ a, TimerQueue.SameTimeout (t.timeout a) (t'.timeout a)) →
      ∀ u, ((t.timeout e).handler = .delay → (t.timeout e).context ≠ u) →
        Pending t (e :: L) u → Pending t' L' u := by
    intro L' sub same u other
    refine Pending.congr (fun a _ => same a) ?_
    intro a mem isDelay context
    rcases List.mem_cons.mp mem with rfl | mem
    · exact absurd context (other isDelay)
    · exact sub a mem
  rcases TimerQueue.timerManagedhandlerExpire_inv waiters.queue run with
    ⟨-, rep, timeouts, managed, -⟩ | ⟨t₁, A, B, repeats, rfl, inserted, managed, -, timeouts⟩
  · have same : ∀ a, TimerQueue.SameTimeout (t.timeout a) (t'.timeout a) := by
      intro a
      rw [timeouts]
      exact .refl _
    refine ⟨same e, L, waiters.sub rep managed (fun a mem => List.mem_cons_of_mem e mem) same, ?_,
      keeps L (fun _ mem => mem) same⟩
    rintro isDelay ⟨a, mem, isDelay', context⟩
    rw [timeouts] at isDelay' context
    have first := waiters.distinct e List.mem_cons_self a (List.mem_cons_of_mem e mem) isDelay
      isDelay' context.symm
    have nodup := waiters.queue.ring.nodup
    exact (List.nodup_cons.mp nodup).1 (first ▸ mem)
  · have same : ∀ a, TimerQueue.SameTimeout (t.timeout a) (t'.timeout a) := by
      intro a
      have same := inserted.same a
      rw [timeouts] at same
      by_cases first : a = e
      · subst first
        rwa [Function.update_self] at same
      · rwa [Function.update_of_ne first] at same
    have sub : ∀ a ∈ A ++ e :: B, a ∈ e :: (A ++ B) := by
      intro a mem
      simp only [List.mem_append, List.mem_cons] at mem ⊢
      tauto
    have notDelay : (t.timeout e).handler ≠ .delay := by
      intro isDelay
      rw [waiters.once e List.mem_cons_self isDelay] at repeats
      exact Int.lt_irrefl 0 repeats
    refine ⟨same e, A ++ e :: B,
      waiters.sub inserted.queue (inserted.managed.trans managed) sub same,
      fun isDelay => absurd isDelay notDelay, keeps (A ++ e :: B) ?_ same⟩
    intro a mem
    simp only [List.mem_append, List.mem_cons] at mem ⊢
    tauto

variable [DecidableEq τ] [DecidableEq η]

/-- Cancelling a timeout that is not one of `delay`. -/
theorem Waiters.cancel {handler : η} {context : τ} (waiters : Waiters t L waits)
    (run : timerManagedCancel fuel (some (.other handler)) context t = .ok t') :
    ∃ L', Waiters t' L' waits ∧ ∀ u, Pending t L u → Pending t' L' u := by
  rcases TimerQueue.timerManagedCancel_inv waiters.queue run with
    ⟨rfl, -⟩ | ⟨A, e, B, rfl, cancelled, found, -⟩
  · exact ⟨L, waiters, fun _ => id⟩
  · have sub : ∀ a ∈ A ++ B, a ∈ A ++ e :: B := by
      intro a mem
      simp only [List.mem_append, List.mem_cons] at mem ⊢
      tauto
    refine ⟨A ++ B, waiters.sub cancelled.queue cancelled.managed sub cancelled.same, ?_⟩
    intro u
    refine Pending.congr (fun a _ => cancelled.same a) ?_
    intro a mem isDelay _
    have ne : a ≠ e := by
      rintro rfl
      rw [found.1] at isDelay
      cases isDelay
    simpa [ne] using mem

end Timeouts

/-! ## Threads -/

section Threads

variable {k k' : Kernel τ} {phase : Phase} {stage : τ → Stage} {σ : Stage} {C Q Q' : List τ}
  {t u : τ}

theorem Threads.setPhase (threads : Threads k phase stage C Q) (on : k.irqs = true)
    (phase' : Phase) : Threads k phase' stage C Q where
  queues := threads.queues
  stages := threads.stages
  created := threads.created
  idle := threads.idle
  irqs off := by
    rw [on] at off
    cases off
  current := threads.current

/-- Interrupts are enabled unless the current thread is behind the lock of `delay`. -/
theorem Threads.irqs_of_phase (threads : Threads k phase stage C Q) (other : phase ≠ .thread) :
    k.irqs = true := by
  cases on : k.irqs with
  | true => rfl
  | false => exact absurd (threads.irqs on).1 other

theorem Threads.irqs_of_stage (threads : Threads k phase stage C Q)
    (current : k.currentThread = some t) (other : ∀ time, stage t ≠ .locked time) :
    k.irqs = true := by
  cases on : k.irqs with
  | true => rfl
  | false =>
      obtain ⟨-, u, time, same, locked⟩ := threads.irqs on
      rw [current] at same
      cases same
      exact absurd locked (other time)

/-- Besides the kernel's fields the thread `t` depends on, nothing matters to its stage. -/
theorem inStage_congr {state state' : ThreadState} (queued : u ∈ Q' ↔ u ∈ Q)
    (same : state' = state) (inStage : InStage (u ∈ Q) state σ) : InStage (u ∈ Q') state' σ := by
  rw [propext queued, same]
  exact inStage

theorem waiting_congr {state state' : ThreadState} (queued : u ∈ Q' ↔ u ∈ Q)
    (same : state' = state) (waiting : Waiting (u ∈ Q) state σ) : Waiting (u ∈ Q') state' σ := by
  rw [propext queued, same]
  exact waiting

variable [DecidableEq τ]

/-- Only thread `t` changes: its stage, whether it is queued, and its state. -/
theorem Threads.update (threads : Threads k phase stage C Q) (mem : t ∈ C) (queues : k'.Queues C Q')
    (others : ∀ u, u ≠ t → (u ∈ Q' ↔ u ∈ Q) ∧ (k'.thread u).state = (k.thread u).state)
    (here : InStage (t ∈ Q') (k'.thread t).state σ)
    (currentThread : k'.currentThread = k.currentThread)
    (idleThread : k'.idleThread = k.idleThread)
    (pendSv : k.pendSv = true → k'.pendSv = true)
    (idle : σ = .outside ∨ k.idleThread ≠ some t)
    (irqs : k'.irqs = true ∨ phase = .thread ∧ k.currentThread = some t ∧ ∃ time, σ = .locked time)
    (current : k'.pendSv = false → t ∈ Q' ∨ σ = .outside) :
    Threads k' phase (Function.update stage t σ) C Q' := by
  refine ⟨queues, ?_, ?_, ?_, ?_, ?_⟩
  · intro u memU
    by_cases same : u = t
    · subst same
      rwa [Function.update_self]
    · rw [Function.update_of_ne same]
      exact inStage_congr (others u same).1 (others u same).2 (threads.stages u memU)
  · intro u inside
    by_cases same : u = t
    · rwa [same]
    · rw [Function.update_of_ne same] at inside
      exact threads.created u inside
  · intro u idling
    rw [idleThread] at idling
    by_cases same : u = t
    · subst same
      rw [Function.update_self]
      exact idle.resolve_right fun ne => ne idling
    · rw [Function.update_of_ne same]
      exact threads.idle u idling
  · intro off
    rcases irqs with on | ⟨isThread, isCurrent, time, locked⟩
    · rw [on] at off
      cases off
    · refine ⟨isThread, t, time, currentThread.trans isCurrent, ?_⟩
      rw [Function.update_self, locked]
  · intro u isCurrent quiet inside
    rw [currentThread] at isCurrent
    by_cases same : u = t
    · subst same
      rw [Function.update_self] at inside
      exact (current quiet).resolve_right inside
    · rw [Function.update_of_ne same] at inside
      have quiet' : k.pendSv = false := by
        cases on : k.pendSv with
        | false => rfl
        | true =>
            rw [pendSv on] at quiet
            cases quiet
      exact (others u same).1.mpr (threads.current u isCurrent quiet' inside)

/-- Only thread `t` changes, and waits as before. -/
theorem Waiters.update {timer : Timer α (Handler η) τ} {L : List α}
    (waiters : Waiters timer L fun u => Waiting (u ∈ Q) (k.thread u).state (stage u))
    (others : ∀ u, u ≠ t → (u ∈ Q' ↔ u ∈ Q) ∧ (k'.thread u).state = (k.thread u).state)
    (here : Waiting (t ∈ Q) (k.thread t).state (stage t) → Waiting (t ∈ Q') (k'.thread t).state σ) :
    Waiters timer L fun u =>
      Waiting (u ∈ Q') (k'.thread u).state (Function.update stage t σ u) := by
  apply waiters.mono
  intro e mem isDelay waiting
  by_cases same : (timer.timeout e).context = t
  · rw [same] at waiting ⊢
    rw [Function.update_self]
    exact here waiting
  · rw [Function.update_of_ne same]
    exact waiting_congr (others _ same).1 (others _ same).2 waiting

/-- `delay_handler` queues the thread whose timeout has expired. -/
theorem Threads.delayHandler (threads : Threads k phase stage C Q)
    (waiting : Waiting (t ∈ Q) (k.thread t).state (stage t))
    (run : TheFirmware.delayHandler t k = .ok k') :
    ∃ Q', Threads k' phase stage C Q' ∧ t ∈ Q' ∧
      ∀ u, u ≠ t → (u ∈ Q' ↔ u ∈ Q) ∧ (k'.thread u).state = (k.thread u).state := by
  have inside : stage t ≠ .outside := by
    intro outside
    rw [outside] at waiting
    exact waiting
  have mem := threads.created t inside
  have inStage := threads.stages t mem
  obtain ⟨k₁, woken, set, queues⟩ := threadSetState_queues (s := .running) threads.queues mem
  rw [TheFirmware.delayHandler, threadWakeup, woken, Except.ok_bind] at run
  have memQ : ∀ u, u ∈ queueChanged t (k.thread t).state .running Q ↔
      if u = t ∧ (k.thread t).state ≠ .running then True else u ∈ Q := by
    intro u
    rw [mem_queueChanged threads.queues.queue.ring.nodup]
    simp
  -- while the state is still running the thread is still queued
  have queued : t ∈ queueChanged t (k.thread t).state .running Q := by
    rw [memQ]
    split
    · trivial
    · next same =>
        have running : (k.thread t).state = .running := by simpa using same
        cases isStage : stage t with
        | outside => exact absurd isStage inside
        | locked time =>
            rw [isStage] at waiting
            cases waiting
        | scheduled =>
            rw [isStage] at inStage
            exact inStage.1
        | read oldState =>
            rw [isStage] at inStage
            exact inStage.1
        | stored oldState =>
            rw [isStage] at inStage
            exact inStage.1
        | changed =>
            rw [isStage] at waiting
            rw [waiting.2] at running
            cases running
  have others : ∀ u, u ≠ t → (u ∈ queueChanged t (k.thread t).state .running Q ↔ u ∈ Q) ∧
      (k₁.thread u).state = (k.thread u).state := by
    intro u ne
    refine ⟨?_, set.state_of_ne ne⟩
    rw [memQ, if_neg fun both => ne both.1]
  have here : InStage (t ∈ queueChanged t (k.thread t).state .running Q) (k₁.thread t).state
      (stage t) := by
    rw [set.state_self]
    cases isStage : stage t with
    | outside => exact absurd isStage inside
    | locked time => exact ⟨queued, rfl⟩
    | scheduled => exact ⟨queued, rfl⟩
    | read oldState =>
        rw [isStage] at inStage
        exact ⟨queued, rfl, inStage.2.2⟩
    | stored oldState =>
        rw [isStage] at inStage
        exact ⟨queued, inStage.2⟩
    | changed => exact fun _ => rfl
  have after := threads.update mem queues others here set.currentThread set.idleThread set.pendSv
    (.inr fun idling => inside (threads.idle t idling)) (.inl set.irqs) fun _ => .inl queued
  rw [Function.update_eq_self] at after
  refine ⟨_, ?_, queued, ?_⟩
  rotate_left
  · intro u ne
    rw [← (others u ne).2]
    refine ⟨(others u ne).1, ?_⟩
    cases run
    split
    · rfl
    · rfl
  · cases run
    split
    · exact ⟨after.queues.ofSame rfl rfl rfl rfl, after.stages, after.created, after.idle,
        after.irqs, fun u _ quiet => by cases quiet⟩
    · exact after

/-- `PendSV` selects a thread that is queued, or the idle thread. -/
theorem Threads.schedule {stack : Word} (threads : Threads k phase stage C Q)
    (run : Scheduler.exec (.schedule stack) { k with pendSv := false } = .ok k') :
    Threads k' phase stage C (Q.rotate 1) ∧ ∀ u, (k'.thread u).state = (k.thread u).state := by
  rw [Scheduler.exec, Except.bind_eq_ok] at run
  obtain ⟨⟨r, k₁⟩, scheduled, run⟩ := run
  cases run
  have before : Kernel.Queues { k with pendSv := false } C Q :=
    threads.queues.ofSame rfl rfl rfl rfl
  obtain ⟨after, idle, states, picked, irqs, -⟩ := Scheduler.schedule_queues before scheduled
  refine ⟨⟨after, ?_, threads.created, ?_, ?_, ?_⟩, states⟩
  · intro u mem
    exact inStage_congr List.mem_rotate (states u) (threads.stages u mem)
  · intro u idling
    rw [idle] at idling
    exact threads.idle u idling
  · intro off
    rw [irqs] at off
    cases off
  · intro u current _ inside
    rw [picked] at current
    split at current
    · exact absurd (threads.idle u current) inside
    · exact List.mem_of_head? current

/-- The other calls into the kernel leave the threads in `delay` alone. -/
theorem Threads.kernel {op : Scheduler.Op τ} (threads : Threads k phase stage C Q)
    (on : k.irqs = true) (legal : Scheduler.Legal k op)
    (notSchedule : ∀ stack, op ≠ .schedule stack)
    (outside : ∀ t, Scheduler.opTarget k op = some t ∨ op = .setIdleThread t → stage t = .outside)
    (run : Scheduler.exec op k = .ok k') :
    ∃ C' Q', Threads k' phase stage C' Q' ∧
      ∀ u, stage u ≠ .outside → (u ∈ Q' ↔ u ∈ Q) ∧ (k'.thread u).state = (k.thread u).state := by
  have settled : ∀ u, Scheduler.opTarget k op = some u → k.Settled Q u := by
    intro u target
    have created : u ∈ C := by
      cases op with
      | wakeup t =>
          cases target
          exact (Scheduler.isThread_iff threads.queues).mp legal
      | stop t =>
          cases target
          exact (Scheduler.isThread_iff threads.queues).mp legal
      | block => exact threads.queues.current u target
      | create storage name stackSize stack block => cases target
      | structInit thread name stackSize stack block => cases target
      | setIdleThread thread => cases target
      | schedule stack => cases target
    have inStage := threads.stages u created
    rwa [outside u (.inl target)] at inStage
  obtain ⟨after, current, idle, states, fresh, irqs, pendSv⟩ :=
    Scheduler.exec_queues threads.queues legal settled run
  have nodup := threads.queues.queue.ring.nodup
  have others : ∀ u, stage u ≠ .outside →
      (u ∈ Scheduler.opQueue k Q op ↔ u ∈ Q) ∧ (k'.thread u).state = (k.thread u).state := by
    intro u inside
    have other : (u ∈ Scheduler.opQueue k Q op ↔ u ∈ Q) ∧
        Scheduler.opState k u op = (k.thread u).state :=
      Scheduler.opQueue_of_ne nodup fun target => inside (outside u (.inl target))
    exact ⟨other.1, (states u (threads.created u inside)).trans other.2⟩
  refine ⟨_, _, ⟨after, ?_, fun u inside => Scheduler.mem_opCreated (threads.created u inside), ?_,
    ?_, ?_⟩, others⟩
  · intro u mem
    by_cases isOutside : stage u = .outside
    · rw [isOutside]
      by_cases created : u ∈ C
      · have before := threads.stages u created
        rw [isOutside] at before
        rw [states u created]
        exact Scheduler.settled_opQueue nodup before
      · rw [fresh u mem created]
        have notQueued := Scheduler.notMem_opQueue threads.queues mem created
        constructor
        · exact fun queued => absurd queued notQueued
        · intro running
          cases running
    · exact inStage_congr (others u isOutside).1 (others u isOutside).2
        (threads.stages u (threads.created u isOutside))
  · intro u idling
    rw [idle] at idling
    cases op with
    | setIdleThread t =>
        cases idling
        exact outside u (.inr rfl)
    | create storage name stackSize stack block => exact threads.idle u idling
    | structInit thread name stackSize stack block => exact threads.idle u idling
    | wakeup t => exact threads.idle u idling
    | stop t => exact threads.idle u idling
    | block => exact threads.idle u idling
    | schedule stack => exact threads.idle u idling
  · intro off
    rw [irqs on] at off
    cases off
  · intro u isCurrent quiet inside
    have same : Scheduler.opCurrent k Q op = k.currentThread := by
      cases op with
      | schedule stack => exact absurd rfl (notSchedule stack)
      | create storage name stackSize stack block => rfl
      | structInit thread name stackSize stack block => rfl
      | setIdleThread thread => rfl
      | wakeup t => rfl
      | stop t => rfl
      | block => rfl
    rw [current, same] at isCurrent
    have quiet' : k.pendSv = false := by
      cases pending : k.pendSv with
      | false => rfl
      | true =>
          rw [pendSv pending] at quiet
          cases quiet
    exact (others u inside).1.mpr (threads.current u isCurrent quiet' inside)

end Threads

end TheFirmware.Delay
