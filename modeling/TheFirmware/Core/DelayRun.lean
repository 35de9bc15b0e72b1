import TheFirmware.Core.DelayInvariant

/-!
# Steps of the delaying threads

Every step of the system of `Delay` keeps its invariant, and does to the threads in `delay` what
`Effect` says: the thread a statement or a timeout is about moves, and the others stay as they are.
-/

namespace TheFirmware.Delay

variable {τ α η : Type}

/-- The step is one of thread `u`, or wakes it. -/
def Moves (s : System τ α η) : Event τ α η → τ → Prop
  | .expire, u => ∃ e, listFirst s.timer.managedTimeouts = some e ∧
      (s.timer.timeout e).handler = .delay ∧ (s.timer.timeout e).context = u
  | .lock _, u => s.kernel.currentThread = some u
  | .timeout _, u => s.kernel.currentThread = some u
  | .read, u => s.kernel.currentThread = some u
  | .store, u => s.kernel.currentThread = some u
  | .change, u => s.kernel.currentThread = some u
  | .unlock, u => s.kernel.currentThread = some u
  | _, _ => False

/-- What the step has done to the thread it moves. -/
def Moved (s s' : System τ α η) (Q Q' : List τ) (L' : List α) (u : τ) : Event τ α η → Prop
  | .expire => s'.stage u = s.stage u ∧ s'.wakeAt u = s.wakeAt u ∧ u ∈ Q'
  | .lock time => s'.stage u = .locked time ∧ s'.wakeAt u = s.now + time
  | .timeout _ => s'.stage u = .scheduled ∧ s'.wakeAt u = s.wakeAt u ∧ Pending s'.timer L' u
  | .read => s.stage u = .scheduled ∧ (∃ oldState, s'.stage u = .read oldState) ∧
      s'.wakeAt u = s.wakeAt u
  | .store => (∃ oldState, s.stage u = .read oldState ∧ s'.stage u = .stored oldState) ∧
      s'.wakeAt u = s.wakeAt u
  | .change => (∃ oldState, s.stage u = .stored oldState) ∧ s'.stage u = .changed ∧
      s'.wakeAt u = s.wakeAt u ∧ u ∉ Q'
  | .unlock => s.stage u = .changed ∧ u ∈ Q ∧ s'.stage u = .outside
  | _ => False

/-- What a step does besides keeping the invariant. -/
structure Effect (s s' : System τ α η) (event : Event τ α η) (Q Q' : List τ) (L L' : List α) :
    Prop where
  others : ∀ u, ¬ Moves s event u → s'.stage u = s.stage u ∧ s'.wakeAt u = s.wakeAt u ∧
    (s.stage u ≠ .outside → (u ∈ Q' ↔ u ∈ Q))
  pending : ∀ u, ¬ (event = .expire ∧ Moves s event u) → Pending s.timer L u →
    Pending s'.timer L' u
  moved : ∀ u, Moves s event u → Moved s s' Q Q' L' u event

section Steps

variable {s s' : System τ α η} {event : Event τ α η} {C Q Q' : List τ} {L L' : List α} {t : τ}
  {e x : α} {fuel : Nat}

/-- The effect of a step that moves no thread. -/
theorem Effect.ofStill (still : ∀ u, ¬ Moves s event u) (stage : s'.stage = s.stage)
    (wakeAt : s'.wakeAt = s.wakeAt) (queued : ∀ u, s.stage u ≠ .outside → (u ∈ Q' ↔ u ∈ Q))
    (pending : ∀ u, Pending s.timer L u → Pending s'.timer L' u) :
    Effect s s' event Q Q' L L' where
  others u _ := ⟨congrFun stage u, congrFun wakeAt u, queued u⟩
  pending u _ := pending u
  moved u moves := absurd moves (still u)

/-- Only the timer changes. -/
theorem Sound.setTimer {timer : Timer α (Handler η) τ} (sound : Sound s C Q L) (phase : Phase)
    (due : α → Int) (on : phase = s.phase ∨ s.kernel.irqs = true)
    (waiters : Waiters timer L'
      fun t => Waiting (t ∈ Q) (s.kernel.thread t).state (s.stage t)) :
    Sound { s with timer, phase, due } C Q L' := by
  refine ⟨?_, waiters⟩
  rcases on with rfl | on
  · exact sound.threads
  · exact sound.threads.setPhase on phase

variable [DecidableEq τ] [DecidableEq α]

/-- The interrupt of the timer. -/
theorem Sound.tick [DecidableEq η] (sound : Sound s C Q L) (legal : Legal s .tick)
    (run : Delay.exec fuel .tick s = .ok s') :
    Sound s' C Q L ∧ Effect s s' .tick Q Q L L := by
  rw [Delay.exec] at run
  split at run
  · rw [Except.bind_eq_ok] at run
    obtain ⟨timer, elapsed, run⟩ := run
    obtain ⟨waiters, pending⟩ := sound.waiters.elapse elapsed
    cases run
    exact ⟨sound.setTimer .loop s.due (.inr legal.2.1) waiters,
      .ofStill (fun _ => id) rfl rfl (fun _ _ => Iff.rfl) pending⟩
  · cases run
    exact ⟨sound, .ofStill (fun _ => id) rfl rfl (fun _ _ => Iff.rfl) fun _ => id⟩

/-- A call of `timer_managed_schedule` that is not one of `delay`. -/
theorem Sound.schedule [DecidableEq η] {timeout : Int} {again : Bool} {handler : η} {context : τ}
    (sound : Sound s C Q L) (legal : Legal s (.schedule x timeout again handler context))
    (run : Delay.exec fuel (.schedule x timeout again handler context) s = .ok s') :
    ∃ L', Sound s' C Q L' ∧
      Effect s s' (.schedule x timeout again handler context) Q Q L L' := by
  rw [Delay.exec, Except.bind_eq_ok] at run
  obtain ⟨timer, scheduled, run⟩ := run
  have fresh : x ∉ L := fun mem => legal.2 ⟨L, sound.waiters.queue, mem⟩
  obtain ⟨L', waiters, pending, -⟩ := sound.waiters.schedule fresh scheduled
    fun isDelay => by cases isDelay
  cases run
  exact ⟨L', sound.setTimer s.phase _ (.inl rfl) waiters,
    .ofStill (fun _ => id) rfl rfl (fun _ _ => Iff.rfl) pending⟩

/-- The loop body of `timer_managedhandler`. -/
theorem Sound.expire [DecidableEq η] (sound : Sound s C Q L) (legal : Legal s .expire)
    (run : Delay.exec fuel .expire s = .ok s') :
    ∃ Q' L', Sound s' C Q' L' ∧ Effect s s' .expire Q Q' L L' := by
  have on := sound.threads.irqs_of_phase (by rw [legal.1]; simp)
  rw [Delay.exec, Except.bind_eq_ok] at run
  obtain ⟨e, first, run⟩ := run
  rw [deref_eq_ok] at first
  rw [Except.bind_eq_ok] at run
  obtain ⟨timer, expired, run⟩ := run
  rw [Except.bind_eq_ok] at run
  obtain ⟨kernel, called, run⟩ := run
  cases L with
  | nil =>
      rw [listFirst_eq sound.waiters.queue] at first
      cases first
  | cons a L =>
      have same : a = e := by
        rw [listFirst_eq sound.waiters.queue] at first
        cases first
        rfl
      subst same
      obtain ⟨same, L', waiters, gone, pending⟩ := sound.waiters.expire expired
      rw [same.2.1, same.2.2] at called
      have moves : ∀ u, Moves s .expire u ↔
          (s.timer.timeout a).handler = .delay ∧ (s.timer.timeout a).context = u := by
        intro u
        simp only [Moves, first, Option.some.injEq, exists_eq_left']
      cases isDelay : (s.timer.timeout a).handler with
      | other handler =>
          rw [isDelay, callHandler] at called
          cases called
          cases run
          refine ⟨Q, L', ⟨sound.threads.setPhase on .handler, waiters⟩,
            .ofStill ?_ rfl rfl (fun _ _ => Iff.rfl) ?_⟩
          · intro u
            simp [moves, isDelay]
          · intro u
            apply pending u
            simp [isDelay]
      | delay =>
          rw [isDelay, callHandler] at called
          obtain ⟨Q', threads, queued, others⟩ := sound.threads.delayHandler
            (sound.waiters.waits a List.mem_cons_self isDelay) called
          cases run
          refine ⟨Q', L', ⟨threads.setPhase (threads.irqs_of_phase ?_) .handler, ?_⟩, ?_, ?_, ?_⟩
          · rw [legal.1]
            simp
          · apply waiters.mono
            intro b mem isDelay' waiting
            have ne : (timer.timeout b).context ≠ (s.timer.timeout a).context :=
              fun same => gone isDelay ⟨b, mem, isDelay', same⟩
            exact waiting_congr (others _ ne).1 (others _ ne).2 waiting
          · intro u still
            rw [moves] at still
            refine ⟨rfl, rfl, fun _ => (others u ?_).1⟩
            exact fun same => still ⟨isDelay, same.symm⟩
          · intro u still
            rw [moves] at still
            exact pending u fun _ same => still ⟨rfl, isDelay, same⟩
          · intro u moved
            rw [moves] at moved
            exact ⟨rfl, rfl, moved.2 ▸ queued⟩

/-- The call of `timer_managed_schedule` in `delay`. -/
theorem Sound.timeout [DecidableEq η] (sound : Sound s C Q L) (legal : Legal s (.timeout x))
    (run : Delay.exec fuel (.timeout x) s = .ok s') :
    ∃ L', Sound s' C Q L' ∧ Effect s s' (.timeout x) Q Q L L' := by
  obtain ⟨⟨t, time, ⟨phase, current, quiet⟩, locked⟩, fresh⟩ := legal
  have fresh : x ∉ L := fun mem => fresh ⟨L, sound.waiters.queue, mem⟩
  rw [Delay.exec, current, deref_some, Except.ok_bind, delaySchedule, locked] at run
  simp only at run
  rw [Except.bind_eq_ok] at run
  obtain ⟨timer, scheduled, run⟩ := run
  have created := sound.threads.created t (by rw [locked]; simp)
  have inStage := sound.threads.stages t created
  rw [locked] at inStage
  have notPending : ¬ Pending s.timer L t := by
    rintro ⟨e, mem, isDelay, context⟩
    have waiting := sound.waiters.waits e mem isDelay
    rw [context, locked] at waiting
    exact waiting
  have moved : ∀ u, u ≠ t → Function.update s.stage t .scheduled u = s.stage u :=
    fun u ne => Function.update_of_ne ne _ _
  have before : Waiters s.timer L fun u =>
      Waiting (u ∈ Q) (s.kernel.thread u).state (Function.update s.stage t .scheduled u) :=
    sound.waiters.update (fun _ _ => ⟨Iff.rfl, rfl⟩)
      fun waiting => by rw [locked] at waiting; cases waiting
  obtain ⟨L', waiters, pending, isPending⟩ := before.schedule fresh scheduled
    fun _ => ⟨rfl, by rw [Function.update_self]; trivial, notPending⟩
  cases run
  refine ⟨L', ⟨sound.threads.update created
    (sound.threads.queues.ofSame rfl rfl rfl rfl) (fun _ _ => ⟨Iff.rfl, rfl⟩) inStage rfl rfl id ?_
    (.inl rfl) fun _ => .inl inStage.1, waiters⟩, ?_, fun u _ => pending u, ?_⟩
  · right
    intro idling
    have outside := sound.threads.idle t idling
    rw [locked] at outside
    cases outside
  · intro u still
    have ne : u ≠ t := fun same => still (same ▸ current)
    exact ⟨moved u ne, rfl, fun _ => Iff.rfl⟩
  · intro u isCurrent
    obtain rfl : t = u := Option.some.inj (current.symm.trans isCurrent)
    exact ⟨Function.update_self .., rfl, isPending rfl⟩

omit [DecidableEq α] in
/-- What the statements of `delay` have in common: thread `t` goes to stage `σ`. -/
theorem Sound.move {k' : Kernel τ} {σ : Stage} {wakeAt : τ → Int} {returned : List (Int × Int)}
    (sound : Sound s C Q L) (current : s.kernel.currentThread = some t) (created : t ∈ C)
    (queues : k'.Queues C Q')
    (others : ∀ u, u ≠ t → (u ∈ Q' ↔ u ∈ Q) ∧ (k'.thread u).state = (s.kernel.thread u).state)
    (here : InStage (t ∈ Q') (k'.thread t).state σ)
    (waiting : Waiting (t ∈ Q) (s.kernel.thread t).state (s.stage t) →
      Waiting (t ∈ Q') (k'.thread t).state σ)
    (currentThread : k'.currentThread = s.kernel.currentThread)
    (idleThread : k'.idleThread = s.kernel.idleThread)
    (pendSv : s.kernel.pendSv = true → k'.pendSv = true)
    (idle : σ = .outside ∨ s.kernel.idleThread ≠ some t)
    (irqs : k'.irqs = true ∨ s.phase = .thread ∧ ∃ time, σ = .locked time)
    (quiet : k'.pendSv = false → t ∈ Q' ∨ σ = .outside)
    (alone : ∀ u, u ≠ t → wakeAt u = s.wakeAt u)
    (moves : ∀ u, Moves s event u ↔ s.kernel.currentThread = some u)
    (moved : Moved s { s with kernel := k', stage := Function.update s.stage t σ, wakeAt, returned }
      Q Q' L t event) :
    Sound { s with kernel := k', stage := Function.update s.stage t σ, wakeAt, returned } C Q' L ∧
      Effect s { s with kernel := k', stage := Function.update s.stage t σ, wakeAt, returned } event
        Q Q' L L := by
  refine ⟨⟨sound.threads.update created queues others here currentThread idleThread pendSv idle
    (irqs.imp_right fun both => ⟨both.1, current, both.2⟩) quiet,
    sound.waiters.update others waiting⟩, ?_, fun u _ => id, ?_⟩
  · intro u still
    rw [moves] at still
    have ne : u ≠ t := fun same => still (same ▸ current)
    exact ⟨Function.update_of_ne ne _ _, alone u ne, fun _ => (others u ne).1⟩
  · intro u isCurrent
    rw [moves] at isCurrent
    obtain rfl : t = u := Option.some.inj (current.symm.trans isCurrent)
    exact moved

omit [DecidableEq τ] [DecidableEq α] in
theorem Sound.notIdle (sound : Sound s C Q L) (inside : s.stage t ≠ .outside) :
    s.kernel.idleThread ≠ some t :=
  fun idling => inside (sound.threads.idle t idling)

omit [DecidableEq τ] [DecidableEq α] in
/-- A thread that carries out a statement of `delay` other than the first two is queued. -/
theorem Sound.queued (sound : Sound s C Q L) (executes : Executes s t)
    (inside : s.stage t ≠ .outside) (unlocked : ∀ time, s.stage t ≠ .locked time) : t ∈ Q := by
  have on := sound.threads.irqs_of_stage executes.2.1 unlocked
  exact sound.threads.current t executes.2.1 (executes.2.2 on) inside

variable [DecidableEq η]

/-- The call of `delay`. -/
theorem Sound.lock {time : Int} (sound : Sound s C Q L) (legal : Legal s (.lock time))
    (run : Delay.exec fuel (.lock time) s = .ok s') :
    Sound s' C Q L ∧ Effect s s' (.lock time) Q Q L L := by
  obtain ⟨t, ⟨phase, current, -⟩, outside, running, notIdle⟩ := legal
  have created := sound.threads.queues.current t current
  have inStage := sound.threads.stages t created
  rw [outside] at inStage
  have queued := inStage.mpr running
  rw [Delay.exec, current, deref_some, Except.ok_bind] at run
  cases run
  refine sound.move current created (sound.threads.queues.ofSame rfl rfl rfl rfl)
    (fun _ _ => ⟨Iff.rfl, rfl⟩) ⟨queued, running⟩ ?_ rfl rfl id (.inr notIdle)
    (.inr ⟨phase, time, rfl⟩) (fun _ => .inl queued) (fun u ne => Function.update_of_ne ne _ _)
    (fun _ => Iff.rfl) ⟨Function.update_self .., Function.update_self ..⟩
  intro waiting
  rw [outside] at waiting
  cases waiting

/-- `old_state = thread->state`. -/
theorem Sound.read (sound : Sound s C Q L) (legal : Legal s .read)
    (run : Delay.exec fuel .read s = .ok s') :
    Sound s' C Q L ∧ Effect s s' .read Q Q L L := by
  obtain ⟨t, ⟨phase, current, quiet⟩, scheduled⟩ := legal
  have inside : s.stage t ≠ .outside := by simp [scheduled]
  have created := sound.threads.queues.current t current
  have inStage := sound.threads.stages t created
  rw [scheduled] at inStage
  rw [Delay.exec, current, deref_some, Except.ok_bind] at run
  cases run
  exact sound.move current created sound.threads.queues (fun _ _ => ⟨Iff.rfl, rfl⟩)
    ⟨inStage.1, inStage.2, inStage.2⟩ (fun _ => trivial) rfl rfl id (.inr (sound.notIdle inside))
    (.inl (sound.threads.irqs_of_stage current (by simp [scheduled]))) (fun _ => .inl inStage.1)
    (fun _ _ => rfl) (fun _ => Iff.rfl) ⟨scheduled, ⟨_, Function.update_self ..⟩, rfl⟩

/-- `thread->state = THREAD_STATE_BLOCKED`. -/
theorem Sound.store (sound : Sound s C Q L) (legal : Legal s .store)
    (run : Delay.exec fuel .store s = .ok s') :
    Sound s' C Q L ∧ Effect s s' .store Q Q L L := by
  obtain ⟨t, oldState, ⟨phase, current, quiet⟩, read⟩ := legal
  have inside : s.stage t ≠ .outside := by simp [read]
  have created := sound.threads.queues.current t current
  have inStage := sound.threads.stages t created
  rw [read] at inStage
  rw [Delay.exec, current, deref_some, Except.ok_bind, delayStore, read] at run
  cases run
  refine sound.move current created (sound.threads.queues.ofSame rfl rfl rfl rfl)
    (fun u ne => ⟨Iff.rfl, ?_⟩) ⟨inStage.1, inStage.2.2⟩ (fun _ => ?_) rfl rfl id
    (.inr (sound.notIdle inside))
    (.inl (sound.threads.irqs_of_stage current (by simp [read]))) (fun _ => .inl inStage.1)
    (fun _ _ => rfl) (fun _ => Iff.rfl) ⟨⟨oldState, read, Function.update_self ..⟩, rfl⟩
  · rw [Kernel.modify_thread_of_ne ne]
  · simp [Waiting]

/-- `scheduler_thread_changed_state(thread, old_state, THREAD_STATE_BLOCKED)`. -/
theorem Sound.change (sound : Sound s C Q L) (legal : Legal s .change)
    (run : Delay.exec fuel .change s = .ok s') :
    ∃ Q', Sound s' C Q' L ∧ Effect s s' .change Q Q' L L := by
  obtain ⟨t, oldState, ⟨phase, current, quiet⟩, stored⟩ := legal
  have inside : s.stage t ≠ .outside := by simp [stored]
  have created := sound.threads.queues.current t current
  have inStage := sound.threads.stages t created
  rw [stored] at inStage
  rw [Delay.exec, current, deref_some, Except.ok_bind, delayChange, stored] at run
  simp only at run
  obtain ⟨kernel, ran, changed, queues⟩ :=
    schedulerThreadChangedState_spec oldState .blocked sound.threads.queues created
  rw [ran, Except.ok_bind] at run
  cases run
  have nodup := sound.threads.queues.queue.ring.nodup
  have queued : ∀ u, u ∈ queueChanged t oldState .blocked Q ↔ u ≠ t ∧ u ∈ Q := by
    intro u
    rw [mem_queueChanged nodup, inStage.2]
    by_cases same : u = t
    · simp [same]
    · simp [same]
  have gone : t ∉ queueChanged t oldState .blocked Q := fun mem => ((queued t).mp mem).1 rfl
  refine ⟨_, sound.move current created queues (fun u ne => ⟨?_, ?_⟩)
    (fun mem => absurd mem gone) ?_ changed.currentThread changed.idleThread changed.pendSv
    (.inr (sound.notIdle inside)) (.inl changed.irqs) ?_ (fun _ _ => rfl) (fun _ => Iff.rfl)
    ⟨⟨oldState, stored⟩, Function.update_self .., rfl, gone⟩⟩
  · rw [queued]
    exact and_iff_right ne
  · rw [changed.thread]
  · intro waiting
    rw [stored] at waiting
    rw [changed.thread]
    exact ⟨gone, waiting⟩
  · intro off
    rw [changed.yields inStage.2 (by simp) current] at off
    cases off

/-- The return from `delay`. -/
theorem Sound.unlock (sound : Sound s C Q L) (legal : Legal s .unlock)
    (run : Delay.exec fuel .unlock s = .ok s') :
    Sound s' C Q L ∧ Effect s s' .unlock Q Q L L := by
  obtain ⟨t, executes, changed⟩ := legal
  have current := executes.2.1
  have queued := sound.queued executes (by simp [changed]) (by simp [changed])
  have created := sound.threads.queues.current t current
  have inStage := sound.threads.stages t created
  rw [changed] at inStage
  rw [Delay.exec, current, deref_some, Except.ok_bind] at run
  cases run
  refine sound.move current created (sound.threads.queues.ofSame rfl rfl rfl rfl)
    (fun _ _ => ⟨Iff.rfl, rfl⟩) ⟨fun _ => inStage queued, fun _ => queued⟩ ?_ rfl rfl id (.inl rfl)
    (.inl rfl) (fun _ => .inl queued) (fun _ _ => rfl) (fun _ => Iff.rfl)
    ⟨changed, queued, Function.update_self ..⟩
  intro waiting
  rw [changed] at waiting
  exact absurd queued waiting.1

/-- Another call into the kernel. -/
theorem Sound.kernel {op : Scheduler.Op τ} (sound : Sound s C Q L) (legal : Legal s (.kernel op))
    (run : Delay.exec fuel (.kernel op) s = .ok s') :
    ∃ C' Q', Sound s' C' Q' L ∧ Effect s s' (.kernel op) Q Q' L L := by
  obtain ⟨calls, legal, notSchedule, outside⟩ := legal
  have on : s.kernel.irqs = true := by
    rcases calls with phase | ⟨t, executes, outside⟩
    · exact sound.threads.irqs_of_phase (by rw [phase]; simp)
    · exact sound.threads.irqs_of_stage executes.2.1 (by simp [outside])
  rw [Delay.exec, Except.bind_eq_ok] at run
  obtain ⟨kernel, ran, run⟩ := run
  obtain ⟨C', Q', threads, others⟩ := sound.threads.kernel on legal notSchedule outside ran
  cases run
  refine ⟨C', Q', ⟨threads, ?_⟩,
    .ofStill (fun _ => id) rfl rfl (fun u inside => (others u inside).1) fun _ => id⟩
  apply sound.waiters.mono
  intro e mem isDelay waiting
  have inside : s.stage (s.timer.timeout e).context ≠ .outside := by
    intro isOutside
    rw [isOutside] at waiting
    exact waiting
  exact waiting_congr (others _ inside).1 (others _ inside).2 waiting

/-- Every step keeps the invariant. -/
theorem Sound.exec (sound : Sound s C Q L) (legal : Legal s event)
    (run : Delay.exec fuel event s = .ok s') :
    ∃ C' Q' L', Sound s' C' Q' L' ∧ Effect s s' event Q Q' L L' := by
  cases event with
  | pass time =>
      cases run
      exact ⟨C, Q, L, sound.setTimer s.phase s.due (.inl rfl) (sound.waiters.setHardware _),
        .ofStill (fun _ => id) rfl rfl (fun _ _ => Iff.rfl) fun _ => id⟩
  | tick =>
      obtain ⟨after, effect⟩ := sound.tick legal run
      exact ⟨C, Q, L, after, effect⟩
  | expire =>
      obtain ⟨Q', L', after, effect⟩ := sound.expire legal run
      exact ⟨C, Q', L', after, effect⟩
  | finish =>
      cases run
      have on := sound.threads.irqs_of_phase (by rw [legal]; simp)
      exact ⟨C, Q, L, sound.setTimer .loop s.due (.inr on) sound.waiters,
        .ofStill (fun _ => id) rfl rfl (fun _ _ => Iff.rfl) fun _ => id⟩
  | leave =>
      rw [Delay.exec, Except.bind_eq_ok] at run
      obtain ⟨timer, recalculated, run⟩ := run
      obtain ⟨rfl, -⟩ :=
        TimerQueue.timerManagedRecalculate_inv sound.waiters.queue recalculated
      cases run
      have on := sound.threads.irqs_of_phase (by rw [legal.1]; simp)
      exact ⟨C, Q, L, sound.setTimer .thread s.due (.inr on) (sound.waiters.setHardware _),
        .ofStill (fun _ => id) rfl rfl (fun _ _ => Iff.rfl) fun _ => id⟩
  | pendSv stack =>
      rw [Delay.exec, Except.bind_eq_ok] at run
      obtain ⟨kernel, ran, run⟩ := run
      obtain ⟨threads, states⟩ := sound.threads.schedule ran
      cases run
      refine ⟨C, Q.rotate 1, L, ⟨threads, sound.waiters.mono ?_⟩,
        .ofStill (fun _ => id) rfl rfl (fun _ _ => List.mem_rotate) fun _ => id⟩
      exact fun e _ _ waiting => waiting_congr List.mem_rotate (states _) waiting
  | schedule storage timeout again handler context =>
      obtain ⟨L', after, effect⟩ := sound.schedule legal run
      exact ⟨C, Q, L', after, effect⟩
  | cancel handler context =>
      rw [Delay.exec, Except.bind_eq_ok] at run
      obtain ⟨timer, cancelled, run⟩ := run
      obtain ⟨L', waiters, pending⟩ := sound.waiters.cancel cancelled
      cases run
      exact ⟨C, Q, L', sound.setTimer s.phase s.due (.inl rfl) waiters,
        .ofStill (fun _ => id) rfl rfl (fun _ _ => Iff.rfl) pending⟩
  | kernel op =>
      obtain ⟨C', Q', after, effect⟩ := sound.kernel legal run
      exact ⟨C', Q', L, after, effect⟩
  | lock time => exact ⟨C, Q, L, sound.lock legal run⟩
  | timeout storage =>
      obtain ⟨L', after, effect⟩ := sound.timeout legal run
      exact ⟨C, Q, L', after, effect⟩
  | read => exact ⟨C, Q, L, sound.read legal run⟩
  | store => exact ⟨C, Q, L, sound.store legal run⟩
  | change =>
      obtain ⟨Q', after, effect⟩ := sound.change legal run
      exact ⟨C, Q', L, after, effect⟩
  | unlock => exact ⟨C, Q, L, sound.unlock legal run⟩

omit [DecidableEq α] [DecidableEq η] in
/-- The invariant holds at first. -/
theorem sound_init (kernel : Scheduler.Reachable (fun _ _ => True) s.kernel)
    (irqs : s.kernel.irqs = true) (empty : s.timer.managedTimeouts.head = none)
    (stage : ∀ t, s.stage t = .outside) : ∃ C Q, Sound s C Q [] := by
  obtain ⟨C, Q, sound⟩ := kernel.sound
  refine ⟨C, Q, ⟨sound.queues, ?_, ?_, fun t _ => stage t, ?_, ?_⟩, ⟨Ring.nil, empty⟩, ?_, ?_, ?_,
    ?_⟩
  · intro t mem
    rw [stage t]
    exact sound.settled mem
  · exact fun t inside => absurd (stage t) inside
  · intro off
    rw [irqs] at off
    cases off
  · exact fun t _ _ inside => absurd (stage t) inside
  · exact fun nonempty => absurd rfl nonempty
  · intro e mem
    cases mem
  · intro e mem
    cases mem
  · intro e mem
    cases mem

end Steps

end TheFirmware.Delay
