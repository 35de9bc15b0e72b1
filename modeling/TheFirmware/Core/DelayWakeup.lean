import TheFirmware.Core.DelayRun

/-!
# `delay` and its wakeup

A thread that `delay` has taken off the running queue must be woken by its timeout. The timer
interrupt may expire this timeout as soon as `timer_managed_schedule` has enabled interrupts, which
is before `thread_block` has taken the thread off the queue: `delay_handler` then wakes a thread
that is not blocked yet, and the thread goes to sleep for good (`wakeup_lost`). In every run without
such an interrupt no wakeup is lost (`reachable_awaited`).
-/

namespace TheFirmware.Delay

variable {τ α η : Type}

/-- Outside of interrupts, a thread in `delay` is on the running queue, or a timeout that will wake
it is pending. -/
def Awaited (s : System τ α η) : Prop :=
  s.phase = .thread → ∀ t, s.stage t ≠ .outside →
    (∃ Q, Represents s.kernel.runningQueue Q ∧ t ∈ Q) ∨
      ∃ L, Represents s.timer.managedTimeouts L ∧ Pending s.timer L t

/-- The timeout of a call of `delay` expires only once the thread has been blocked. -/
def ExpiresBlocked (s : System τ α η) : Event τ α η → Prop
  | .expire => ∀ t, Moves s .expire t → s.stage t = .changed
  | _ => True

/-- What `Awaited` needs of the threads behind the lock. -/
def Guarded (queued pending : Prop) : Stage → Prop
  | .outside => True
  | .locked _ => True
  | .scheduled => pending
  | .read _ => pending
  | .stored _ => pending
  | .changed => queued ∨ pending

section Specs

variable [DecidableEq τ] [DecidableEq α] [DecidableEq η] {s s' : System τ α η}
  {event : Event τ α η} {C Q Q' : List τ} {L L' : List α} {fuel : Nat}

omit [DecidableEq τ] [DecidableEq α] [DecidableEq η] in
theorem Guarded.imp {queued queued' pending pending' : Prop} {stage : Stage}
    (guarded : Guarded queued pending stage) (queue : stage ≠ .outside → queued → queued')
    (pend : pending → pending') : Guarded queued' pending' stage := by
  cases stage with
  | outside => trivial
  | locked time => trivial
  | scheduled => exact pend guarded
  | read oldState => exact pend guarded
  | stored oldState => exact pend guarded
  | changed => exact Or.imp (queue (by simp)) pend guarded

omit [DecidableEq τ] [DecidableEq α] [DecidableEq η] in
/-- A step keeps the threads guarded when no timeout expires too early. -/
theorem Effect.guarded (effect : Effect s s' event Q Q' L L') (allowed : ExpiresBlocked s event)
    (guarded : ∀ t, Guarded (t ∈ Q) (Pending s.timer L t) (s.stage t)) :
    ∀ t, Guarded (t ∈ Q') (Pending s'.timer L' t) (s'.stage t) := by
  intro t
  by_cases moves : Moves s event t
  · have moved := effect.moved t moves
    have before := guarded t
    have pending : event ≠ .expire → Pending s.timer L t → Pending s'.timer L' t :=
      fun other => effect.pending t fun both => other both.1
    cases event with
    | expire =>
        rw [moved.1, allowed t moves]
        exact .inl moved.2.2
    | lock time =>
        rw [moved.1]
        trivial
    | timeout storage =>
        rw [moved.1]
        exact moved.2.2
    | read =>
        obtain ⟨scheduled, ⟨oldState, read⟩, -⟩ := moved
        rw [scheduled] at before
        rw [read]
        exact pending (by simp) before
    | store =>
        obtain ⟨⟨oldState, read, stored⟩, -⟩ := moved
        rw [read] at before
        rw [stored]
        exact pending (by simp) before
    | change =>
        obtain ⟨⟨oldState, stored⟩, changed, -⟩ := moved
        rw [stored] at before
        rw [changed]
        exact .inr (pending (by simp) before)
    | unlock =>
        rw [moved.2.2]
        trivial
    | pass time => cases moves
    | tick => cases moves
    | finish => cases moves
    | leave => cases moves
    | pendSv stack => cases moves
    | schedule storage timeout again handler context => cases moves
    | cancel handler context => cases moves
    | kernel op => cases moves
  · obtain ⟨stage, -, queued⟩ := effect.others t moves
    rw [stage]
    exact (guarded t).imp (fun inside => (queued inside).mpr)
      (effect.pending t fun both => moves both.2)

/-- The invariant of the runs in which no timeout expires too early. -/
theorem Reachable.guarded (reach : Reachable ExpiresBlocked s) :
    ∃ C Q L, Sound s C Q L ∧ ∀ t, Guarded (t ∈ Q) (Pending s.timer L t) (s.stage t) := by
  induction reach with
  | init kernel irqs empty past phase stage invoked returned =>
      obtain ⟨C, Q, sound⟩ := sound_init kernel irqs empty stage
      refine ⟨C, Q, [], sound, fun t => ?_⟩
      rw [stage t]
      trivial
  | step before legal allowed run ih =>
      obtain ⟨C, Q, L, sound, guarded⟩ := ih
      obtain ⟨C', Q', L', after, effect⟩ := sound.exec legal run
      exact ⟨C', Q', L', after, effect.guarded allowed guarded⟩

/-- **No lost wakeup**: in every state of every run in which the timeout of a call of `delay`
expires only once the thread has been blocked, a thread in `delay` is on the running queue or will
be woken. -/
theorem reachable_awaited (s : System τ α η) (reach : Reachable ExpiresBlocked s) : Awaited s := by
  obtain ⟨C, Q, L, sound, guarded⟩ := reach.guarded
  intro _ t inside
  have inStage := sound.threads.stages t (sound.threads.created t inside)
  have guard := guarded t
  have queue := sound.threads.queues.queue
  have list := sound.waiters.queue
  cases isStage : s.stage t with
  | outside => exact absurd isStage inside
  | locked time =>
      rw [isStage] at inStage
      exact .inl ⟨Q, queue, inStage.1⟩
  | scheduled =>
      rw [isStage] at guard
      exact .inr ⟨L, list, guard⟩
  | read oldState =>
      rw [isStage] at guard
      exact .inr ⟨L, list, guard⟩
  | stored oldState =>
      rw [isStage] at guard
      exact .inr ⟨L, list, guard⟩
  | changed =>
      rw [isStage] at guard
      rcases guard with queued | pending
      · exact .inl ⟨Q, queue, queued⟩
      · exact .inr ⟨L, list, pending⟩

/-- `ExpiresBlocked`, as a test. -/
def expiresBlocked (s : System τ α η) : Event τ α η → Bool
  | .expire => (listFirst s.timer.managedTimeouts).all fun e =>
      decide (s.stage (s.timer.timeout e).context = .changed)
  | _ => true

omit [DecidableEq τ] [DecidableEq α] [DecidableEq η] in
theorem expiresBlocked_of_test (s : System τ α η) (event : Event τ α η)
    (passed : expiresBlocked s event = true) : ExpiresBlocked s event := by
  cases event with
  | expire =>
      rintro t ⟨e, first, -, rfl⟩
      rw [expiresBlocked, Option.all_eq_true] at passed
      exact of_decide_eq_true (passed e first)
  | _ => trivial

end Specs

/-- The main thread calls `delay(10)`, is blocked, and is woken 10 milliseconds later. -/
def wakeup : List (Event Nat Nat Nat) :=
  [.pendSv 0x1000, .lock 10, .timeout 0, .read, .store, .change, .pass 10, .tick, .expire, .finish,
    .leave]

theorem reachable_awaited_wakeup :
    ∃ s, steps 5 expiresBlocked wakeup bootSystem = some s ∧ s.phase = .thread ∧
      s.stage 1 = .changed ∧ Awaited s := by
  have trace : ((steps 5 expiresBlocked wakeup bootSystem).map fun s => (s.phase, s.stage 1)) =
      some (.thread, .changed) := by
    decide +kernel
  obtain ⟨s, run, result⟩ := Option.map_eq_some_iff.mp trace
  simp only [Prod.mk.injEq] at result
  refine ⟨s, run, result.1, result.2, ?_⟩
  exact reachable_awaited s (bootSystem_reachable.steps expiresBlocked_of_test run)

/-! ## The lost wakeup -/

/-- The main thread calls `delay(10)`. The interrupt is taken 10 milliseconds later, before
`thread_block` has read the state of the thread. -/
def lostWakeup : List (Event Nat Nat Nat) :=
  [.pendSv 0x1000, .lock 10, .timeout 0, .pass 10, .tick, .expire, .finish, .leave, .read, .store,
    .change]

/-- The main thread is blocked, nothing is queued, and no timeout is left. -/
theorem wakeup_lost :
    ∃ s : System Nat Nat Nat, Reachable (fun _ _ => True) s ∧ ¬ Awaited s := by
  have trace : ((steps 5 (fun _ _ => true) lostWakeup bootSystem).map fun s =>
      (s.phase, s.stage 1, s.kernel.runningQueue.head, s.timer.managedTimeouts.head)) =
      some (.thread, .changed, none, none) := by
    decide +kernel
  obtain ⟨s, run, result⟩ := Option.map_eq_some_iff.mp trace
  simp only [Prod.mk.injEq] at result
  obtain ⟨phase, changed, noThread, noTimeout⟩ := result
  refine ⟨s, bootSystem_reachable.steps (fun _ _ _ => trivial) run, ?_⟩
  intro awaited
  rcases awaited phase 1 (by simp [changed]) with ⟨Q, rep, mem⟩ | ⟨L, rep, e, mem, -⟩
  · have empty := rep.head.symm.trans noThread
    rw [List.head?_eq_none_iff] at empty
    subst empty
    cases mem
  · have empty := rep.head.symm.trans noTimeout
    rw [List.head?_eq_none_iff] at empty
    subst empty
    cases mem

end TheFirmware.Delay
