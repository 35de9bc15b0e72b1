import TheFirmware.Core.SchedulerRun
import TheFirmware.Core.TimerRefinement
import Mathlib.Logic.Relation

/-!
# `delay` and the timer interrupt

`delay(time)` of `core/scheduler.c`, its statements interleaved with the timer interrupt. The lock
`delay` takes does not last: `timer_managed_schedule` ends with `scheduler_unlock`, and there is no
nesting. From then on an interrupt can be taken between any two statements of `delay` that are
carried out with interrupts enabled.

`System` is the kernel with its default timer, the statement each thread has reached in `delay`
(`Stage`), and the part of the timer interrupt that is being carried out (`Phase`). No exception of
the processor preempts another one, since all have the same priority. An `Event` is one step: a
statement of `delay`, a piece of `timer_managedhandler`, the passage of time, `PendSV`, or any other
call into the timer or the kernel. `Sound` holds in every state of every run.

What a handler other than `delay_handler` does are the calls that are made before it returns.
-/

namespace TheFirmware

/-- The handlers of timeouts: `delay_handler`, and those of the rest of the firmware. -/
inductive Handler (η : Type) : Type
  | delay
  | other (handler : η)
  deriving DecidableEq, Repr

variable {τ α η : Type}

/-- `delay_handler(timer, context)`. -/
def delayHandler [DecidableEq τ] (context : τ) (k : Kernel τ) : Except Fault (Kernel τ) := do
  let k ← threadWakeup context k
  return if k.currentThread = k.idleThread then yield k else k

/-- `delay(time)` when no interrupt is taken. The callee `timer_managed_schedule` enables
interrupts, which its model leaves to the caller. -/
def delay [DecidableEq τ] [DecidableEq α] (fuel : Nat) (storage : α) (time : Int) :
    Timer α (Handler η) τ × Kernel τ → Except Fault (Timer α (Handler η) τ × Kernel τ)
  | (timer, k) => do
      let k := schedulerLock k
      let current ← deref k.currentThread
      let timer ← timerManagedSchedule fuel storage time false (some .delay) current timer
      let k := schedulerUnlock k
      let k ← threadBlock k
      return (timer, schedulerUnlock k)

namespace Delay

/-- Where a thread is in `delay(time)`. -/
inductive Stage : Type
  /-- not in `delay` -/
  | outside
  /-- behind `scheduler_lock()` -/
  | locked (time : Int)
  /-- behind `timer_managed_schedule(...)` -/
  | scheduled
  /-- in `thread_set_state`, behind the read of the old state -/
  | read (oldState : ThreadState)
  /-- in `thread_set_state`, behind the store of the new state -/
  | stored (oldState : ThreadState)
  /-- behind `thread_block()` -/
  | changed
  deriving DecidableEq, Repr

/-- Which code is being carried out: that of a thread, the loop of `timer_managedhandler`, or the
handler of a timeout. -/
inductive Phase : Type
  | thread
  | loop
  | handler
  deriving DecidableEq, Repr

/-- The system. The last four fields only record what happens: when the timeout at an address is
due, when the thread's call of `delay` may return, and for each call of a handler and each return
from `delay` when it was due and when it happened. -/
structure System (τ α η : Type) : Type where
  kernel : Kernel τ
  timer : Timer α (Handler η) τ
  phase : Phase
  stage : τ → Stage
  due : α → Int
  wakeAt : τ → Int
  invoked : List (Int × Int)
  returned : List (Int × Int)

/-- The current time. -/
def System.now (s : System τ α η) : Int := s.timer.hardware.now

/-- One step. -/
inductive Event (τ α η : Type) : Type
  /-- time passes -/
  | pass (time : Int)
  /-- the interrupt of the timer: `timer_managedhandler` up to its loop -/
  | tick
  /-- the loop body of `timer_managedhandler` up to the call of the handler, and `delay_handler` -/
  | expire
  /-- the handler returns -/
  | finish
  /-- the end of `timer_managedhandler` -/
  | leave
  /-- `PendSV`: `schedule(stack)` -/
  | pendSv (stack : Word)
  /-- `timer_managed_schedule(...)`, not by `delay` -/
  | schedule (storage : α) (timeout : Int) (again : Bool) (handler : η) (context : τ)
  /-- `timer_managed_cancel(...)` -/
  | cancel (handler : η) (context : τ)
  /-- a call into the kernel -/
  | kernel (op : Scheduler.Op τ)
  /-- the call of `delay(time)` and its `scheduler_lock()` -/
  | lock (time : Int)
  /-- `timer_managed_schedule(...)` of `delay` -/
  | timeout (storage : α)
  /-- `old_state = thread->state` -/
  | read
  /-- `thread->state = THREAD_STATE_BLOCKED` -/
  | store
  /-- `scheduler_thread_changed_state(...)` -/
  | change
  /-- `scheduler_unlock()` and the return from `delay` -/
  | unlock

/-- The next statement is one of thread `t`: a pending `PendSV` would be taken first. -/
def Executes (s : System τ α η) (t : τ) : Prop :=
  s.phase = .thread ∧ s.kernel.currentThread = some t ∧
    (s.kernel.irqs = true → s.kernel.pendSv = false)

/-- Calls are made by handlers, and by threads that are not in `delay`. -/
def Calls (s : System τ α η) : Prop :=
  s.phase = .handler ∨ ∃ t, Executes s t ∧ s.stage t = .outside

/-- The steps that can be taken. The hardware ticks once the time it was set to has passed. Nobody
but the timer and `delay` changes the state of a thread that is in `delay`, the idle thread does
not call `delay`, and timeouts are allocated in fresh storage. -/
def Legal (s : System τ α η) : Event τ α η → Prop
  | .pass time => 0 ≤ time
  | .tick => s.phase = .thread ∧ s.kernel.irqs = true ∧ s.timer.managed = true ∧
      s.timer.hardware.enabled = true ∧ s.timer.hardware.setAt + timerGet s.timer ≤ s.now
  | .expire => s.phase = .loop ∧
      ∃ e, listFirst s.timer.managedTimeouts = some e ∧ (s.timer.timeout e).remaining ≤ 0
  | .finish => s.phase = .handler
  | .leave => s.phase = .loop ∧
      ∀ e, listFirst s.timer.managedTimeouts = some e → 0 < (s.timer.timeout e).remaining
  | .pendSv _ => s.phase = .thread ∧ s.kernel.irqs = true ∧ s.kernel.pendSv = true
  | .schedule storage _ _ _ _ => Calls s ∧ ¬ TimerQueue.Queued s.timer storage
  | .cancel _ _ => Calls s
  | .kernel op => Calls s ∧ Scheduler.Legal s.kernel op ∧ (∀ stack, op ≠ .schedule stack) ∧
      ∀ t, Scheduler.opTarget s.kernel op = some t ∨ op = .setIdleThread t → s.stage t = .outside
  | .lock _ => ∃ t, Executes s t ∧ s.stage t = .outside ∧
      (s.kernel.thread t).state = .running ∧ s.kernel.idleThread ≠ some t
  | .timeout storage => (∃ t time, Executes s t ∧ s.stage t = .locked time) ∧
      ¬ TimerQueue.Queued s.timer storage
  | .read => ∃ t, Executes s t ∧ s.stage t = .scheduled
  | .store => ∃ t oldState, Executes s t ∧ s.stage t = .read oldState
  | .change => ∃ t oldState, Executes s t ∧ s.stage t = .stored oldState
  | .unlock => ∃ t, Executes s t ∧ s.stage t = .changed

section Exec

variable [DecidableEq τ]

/-- What the call of a handler does at once. -/
def callHandler (handler : Handler η) (context : τ) (k : Kernel τ) : Except Fault (Kernel τ) :=
  match handler with
  | .delay => delayHandler context k
  | .other _ => .ok k

/-- `scheduler_lock()` of `delay(time)`, by thread `t`. -/
def delayLock (t : τ) (time : Int) (s : System τ α η) : System τ α η :=
  { s with
    kernel := schedulerLock s.kernel
    stage := Function.update s.stage t (.locked time)
    wakeAt := Function.update s.wakeAt t (s.now + time) }

/-- `old_state = thread->state` in the `thread_set_state` of `delay`. -/
def delayRead (t : τ) (s : System τ α η) : System τ α η :=
  { s with stage := Function.update s.stage t (.read (s.kernel.thread t).state) }

/-- `thread->state = THREAD_STATE_BLOCKED` in the `thread_set_state` of `delay`. -/
def delayStore (t : τ) (s : System τ α η) : System τ α η :=
  match s.stage t with
  | .read oldState => { s with
      kernel := s.kernel.modify t fun r => { r with state := .blocked }
      stage := Function.update s.stage t (.stored oldState) }
  | _ => s

/-- `scheduler_thread_changed_state(...)` in the `thread_set_state` of `delay`. -/
def delayChange (t : τ) (s : System τ α η) : Except Fault (System τ α η) :=
  match s.stage t with
  | .stored oldState => do
      let kernel ← schedulerThreadChangedState t oldState .blocked s.kernel
      return { s with kernel, stage := Function.update s.stage t .changed }
  | _ => .ok s

/-- `scheduler_unlock()` of `delay`, and the return. -/
def delayUnlock (t : τ) (s : System τ α η) : System τ α η :=
  { s with
    kernel := schedulerUnlock s.kernel
    stage := Function.update s.stage t .outside
    returned := (s.wakeAt t, s.now) :: s.returned }

variable [DecidableEq α] [DecidableEq η]

/-- `timer_managed_schedule(...)` of `delay`, by thread `t`. -/
def delaySchedule (fuel : Nat) (storage : α) (t : τ) (s : System τ α η) :
    Except Fault (System τ α η) :=
  match s.stage t with
  | .locked time => do
      let timer ← timerManagedSchedule fuel storage time false (some .delay) t s.timer
      return { s with
        kernel := schedulerUnlock s.kernel
        timer
        stage := Function.update s.stage t .scheduled
        due := Function.update s.due storage (s.now + time) }
  | _ => .ok s

/-- The system after a step. -/
def exec (fuel : Nat) : Event τ α η → System τ α η → Except Fault (System τ α η)
  | .pass time, s => .ok { s with
      timer := { s.timer with hardware := { s.timer.hardware with now := s.now + time } } }
  | .tick, s =>
      match listFirst s.timer.managedTimeouts with
      | some first => do
          let timer ← timerManagedhandlerElapse (timerGet s.timer) first s.timer
          return { s with timer, phase := .loop }
      | none => .ok s
  | .expire, s => do
      let timeout ← deref (listFirst s.timer.managedTimeouts)
      let timer ← timerManagedhandlerExpire fuel timeout s.timer
      let kernel ← callHandler (timer.timeout timeout).handler (timer.timeout timeout).context
        s.kernel
      return { s with
        kernel, timer, phase := .handler, invoked := (s.due timeout, s.now) :: s.invoked }
  | .finish, s => .ok { s with phase := .loop }
  | .leave, s => do
      let timer ← timerManagedRecalculate s.timer
      return { s with timer, phase := .thread }
  | .pendSv stack, s => do
      let kernel ← Scheduler.exec (.schedule stack) { s.kernel with pendSv := false }
      return { s with kernel }
  | .schedule storage timeout again handler context, s => do
      let timer ← timerManagedSchedule fuel storage timeout again (some (.other handler)) context
        s.timer
      return { s with timer, due := Function.update s.due storage (s.now + timeout) }
  | .cancel handler context, s => do
      let timer ← timerManagedCancel fuel (some (.other handler)) context s.timer
      return { s with timer }
  | .kernel op, s => do
      let kernel ← Scheduler.exec op s.kernel
      return { s with kernel }
  | .lock time, s => do
      let t ← deref s.kernel.currentThread
      return delayLock t time s
  | .timeout storage, s => do
      let t ← deref s.kernel.currentThread
      delaySchedule fuel storage t s
  | .read, s => do
      let t ← deref s.kernel.currentThread
      return delayRead t s
  | .store, s => do
      let t ← deref s.kernel.currentThread
      return delayStore t s
  | .change, s => do
      let t ← deref s.kernel.currentThread
      delayChange t s
  | .unlock, s => do
      let t ← deref s.kernel.currentThread
      return delayUnlock t s

/-- The states of the runs all of whose steps satisfy `ok`. At first nothing is scheduled, and no
thread is in `delay`. -/
inductive Reachable (ok : System τ α η → Event τ α η → Prop) : System τ α η → Prop
  | init {s : System τ α η} (kernel : Scheduler.Reachable (fun _ _ => True) s.kernel)
      (irqs : s.kernel.irqs = true) (empty : s.timer.managedTimeouts.head = none)
      (past : s.timer.hardware.setAt ≤ s.now) (phase : s.phase = .thread)
      (stage : ∀ t, s.stage t = .outside) (invoked : s.invoked = []) (returned : s.returned = []) :
      Reachable ok s
  | step {fuel : Nat} {s s' : System τ α η} {event : Event τ α η} (before : Reachable ok s)
      (legal : Legal s event) (allowed : ok s event) (run : exec fuel event s = .ok s') :
      Reachable ok s'

/-! ## The functions as sequences of steps -/

/-- A legal step. -/
def Step (s s' : System τ α η) : Prop :=
  ∃ fuel event, Legal s event ∧ exec fuel event s = .ok s'

variable {s : System τ α η} {t : τ} {timer : Timer α (Handler η) τ} {kernel : Kernel τ}
  {fuel : Nat}

/-- Without an interrupt, the statements of `delay` carried out one after the other are `delay`. -/
theorem delay_steps {storage : α} {time : Int} (current : s.kernel.currentThread = some t)
    (run : delay fuel storage time (s.timer, s.kernel) = .ok (timer, kernel)) :
    ∃ s', (do
        let s ← exec fuel (.lock time) s
        let s ← exec fuel (.timeout storage) s
        let s ← exec fuel .read s
        let s ← exec fuel .store s
        let s ← exec fuel .change s
        exec fuel .unlock s) = .ok s' ∧ s'.timer = timer ∧ s'.kernel = kernel := by
  have current' : (schedulerLock s.kernel).currentThread = some t := current
  simp only [delay] at run
  rw [current', deref_some, Except.ok_bind, Except.bind_eq_ok] at run
  obtain ⟨timer', scheduled, run⟩ := run
  rw [threadBlock, Except.bind_eq_ok] at run
  obtain ⟨kernel', blocked, run⟩ := run
  cases run
  rw [Except.bind_eq_ok] at blocked
  obtain ⟨t', found, blocked⟩ := blocked
  rw [deref_eq_ok] at found
  obtain rfl : t = t' := Option.some.inj (current.symm.trans found)
  -- the states behind the statements
  let s₂ : System τ α η := { delayLock t time s with
    kernel := schedulerUnlock (schedulerLock s.kernel)
    timer
    stage := Function.update (delayLock t time s).stage t .scheduled
    due := Function.update s.due storage (s.now + time) }
  let s₅ : System τ α η := { delayStore t (delayRead t s₂) with
    kernel := kernel'
    stage := Function.update (delayStore t (delayRead t s₂)).stage t .changed }
  have schedule : exec fuel (.timeout storage) (delayLock t time s) = .ok s₂ := by
    simp only [exec, delayLock, current', deref_some, Except.ok_bind, delaySchedule,
      Function.update_self, scheduled]
    rfl
  have read : (delayRead t s₂).stage t = .read (s.kernel.thread t).state := Function.update_self ..
  have stored : (delayStore t (delayRead t s₂)).stage t = .stored (s.kernel.thread t).state := by
    rw [delayStore, read]
    exact Function.update_self ..
  have kernel₄ : (delayStore t (delayRead t s₂)).kernel =
      (schedulerUnlock (schedulerLock s.kernel)).modify t
        fun r => { r with state := .blocked } := by
    rw [delayStore, read]
    rfl
  have current₄ : (delayStore t (delayRead t s₂)).kernel.currentThread = some t := by
    rw [kernel₄]
    exact current
  have change : exec fuel .change (delayStore t (delayRead t s₂)) = .ok s₅ := by
    rw [exec, current₄, deref_some, Except.ok_bind, delayChange, stored]
    simp only
    rw [kernel₄]
    have changed : schedulerThreadChangedState t (s.kernel.thread t).state .blocked
        ((schedulerUnlock (schedulerLock s.kernel)).modify t
          fun r => { r with state := .blocked }) = .ok kernel' := blocked
    rw [changed]
    rfl
  have current₅ : s₅.kernel.currentThread = some t :=
    (schedulerThreadChangedState_inv blocked).currentThread.trans current
  have timer₅ : s₅.timer = timer := by
    show (delayStore t (delayRead t s₂)).timer = timer
    rw [delayStore, read]
    rfl
  refine ⟨delayUnlock t s₅, ?_, timer₅, rfl⟩
  rw [exec, current, deref_some, Except.ok_bind, pure_bind, schedule, Except.ok_bind, exec,
    show s₂.kernel.currentThread = some t from current, deref_some, Except.ok_bind, pure_bind, exec,
    show (delayRead t s₂).kernel.currentThread = some t from current, deref_some, Except.ok_bind,
    pure_bind, change, Except.ok_bind, exec, current₅]
  rfl

section Handlers

variable {nullRemaining : Int} {call : Handler η → τ → Timer α (Handler η) τ × Kernel τ →
  Except Fault (Timer α (Handler η) τ × Kernel τ)}
  (delays : ∀ context timer kernel, call .delay context (timer, kernel) =
    (delayHandler context kernel).map fun k => (timer, k))
  (others : ∀ (s : System τ α η) handler context timer kernel, s.phase = .handler →
    call (.other handler) context (s.timer, s.kernel) = .ok (timer, kernel) →
    ∃ s', Relation.ReflTransGen Step s s' ∧ s'.phase = .handler ∧ s'.timer = timer ∧
      s'.kernel = kernel)

include delays others

/-- The loop of `timer_managedhandler` is a sequence of steps, when the handlers are. -/
theorem managedhandlerLoop_steps (phase : s.phase = .loop)
    (run : timerManagedhandlerLoop nullRemaining call fuel (s.timer, s.kernel) =
      .ok (timer, kernel)) :
    ∃ s', Relation.ReflTransGen Step s s' ∧ Legal s' .leave ∧ s'.timer = timer ∧
      s'.kernel = kernel := by
  induction fuel generalizing s with
  | zero => cases run
  | succ fuel ih =>
      simp only [timerManagedhandlerLoop] at run
      cases first : listFirst s.timer.managedTimeouts with
      | none =>
          simp only [first] at run
          split at run
          · cases run
          · cases run
            refine ⟨s, .refl, ⟨phase, ?_⟩, rfl, rfl⟩
            intro e found
            rw [first] at found
            cases found
      | some e =>
          simp only [first] at run
          split at run
          · next expired =>
              rw [Except.bind_eq_ok] at run
              obtain ⟨timer₁, ran, run⟩ := run
              rw [Except.bind_eq_ok] at run
              obtain ⟨⟨timer₂, kernel₂⟩, called, run⟩ := run
              have legal : Legal s .expire := ⟨phase, e, first, expired⟩
              -- the state behind `expire`, which carries out `delay_handler` but no other handler
              have expire : ∀ k, callHandler (timer₁.timeout e).handler (timer₁.timeout e).context
                  s.kernel = .ok k → Step s { s with
                    kernel := k, timer := timer₁, phase := .handler
                    invoked := (s.due e, s.now) :: s.invoked } := by
                intro k handled
                refine ⟨fuel, .expire, legal, ?_⟩
                rw [exec, first, deref_some, Except.ok_bind, ran, Except.ok_bind, handled]
                rfl
              obtain ⟨s₂, steps, phase₂, rfl, rfl⟩ : ∃ s₂, Relation.ReflTransGen Step s s₂ ∧
                  s₂.phase = .handler ∧ s₂.timer = timer₂ ∧ s₂.kernel = kernel₂ := by
                cases isDelay : (timer₁.timeout e).handler with
                | delay =>
                    rw [isDelay, delays] at called
                    cases handled : delayHandler (timer₁.timeout e).context s.kernel with
                    | error fault =>
                        rw [handled] at called
                        cases called
                    | ok k =>
                        rw [handled] at called
                        cases called
                        rw [isDelay] at expire
                        exact ⟨_, .single (expire _ handled), rfl, rfl, rfl⟩
                | other handler =>
                    rw [isDelay] at called expire
                    obtain ⟨s₂, steps, phase₂, same, same'⟩ :=
                      others { s with
                        timer := timer₁, phase := .handler
                        invoked := (s.due e, s.now) :: s.invoked }
                      handler _ timer₂ kernel₂ rfl called
                    exact ⟨s₂, .head (expire s.kernel rfl) steps, phase₂, same, same'⟩
              have finish : Step s₂ { s₂ with phase := .loop } := ⟨fuel, .finish, phase₂, rfl⟩
              obtain ⟨s', rest, left, same, same'⟩ := ih (s := { s₂ with phase := .loop }) rfl run
              exact ⟨s', (steps.tail finish).trans rest, left, same, same'⟩
          · next left =>
              cases run
              refine ⟨s, .refl, ⟨phase, ?_⟩, rfl, rfl⟩
              intro e' found
              obtain rfl : e = e' := Option.some.inj (first.symm.trans found)
              exact Int.not_le.mp left

/-- `timer_managedhandler`, called by the interrupt, is a sequence of steps. -/
theorem managedhandler_steps (legal : Legal s .tick)
    (run : timerManagedhandler nullRemaining call fuel (timerGet s.timer) (s.timer, s.kernel) =
      .ok (timer, kernel)) :
    ∃ s', Relation.ReflTransGen Step s s' ∧ s'.phase = .thread ∧ s'.timer = timer ∧
      s'.kernel = kernel := by
  simp only [timerManagedhandler] at run
  cases first : listFirst s.timer.managedTimeouts with
  | none =>
      simp only [first] at run
      cases run
      exact ⟨s, .refl, legal.1, rfl, rfl⟩
  | some e =>
      simp only [first] at run
      rw [Except.bind_eq_ok] at run
      obtain ⟨timer₁, elapsed, run⟩ := run
      rw [Except.bind_eq_ok] at run
      obtain ⟨⟨timer₂, kernel₂⟩, looped, run⟩ := run
      rw [Except.bind_eq_ok] at run
      obtain ⟨timer₃, recalculated, run⟩ := run
      cases run
      have tick : Step s { s with timer := timer₁, phase := .loop } := by
        refine ⟨fuel, .tick, legal, ?_⟩
        simp only [exec, first]
        rw [elapsed]
        rfl
      obtain ⟨s₂, steps, left, rfl, rfl⟩ :=
        managedhandlerLoop_steps delays others (s := { s with timer := timer₁, phase := .loop }) rfl
          looped
      refine ⟨{ s₂ with timer, phase := .thread }, .head tick (steps.tail ?_), rfl, rfl, rfl⟩
      refine ⟨fuel, .leave, left, ?_⟩
      rw [exec, recalculated]
      rfl

end Handlers

end Exec

/-! ## Concrete runs -/

section Runs

variable [DecidableEq τ] {s s' : System τ α η} {t : τ}

/-- The thread whose statement is the next one. -/
def executing (s : System τ α η) : Option τ :=
  if s.phase = .thread ∧ (s.kernel.irqs = true → s.kernel.pendSv = false) then
    s.kernel.currentThread
  else none

/-- `Calls`, as a test. -/
def calls (s : System τ α η) : Bool :=
  decide (s.phase = .handler) || (executing s).any fun t => decide (s.stage t = .outside)

/-- A test that is passed by legal steps only, and fails for calls into the kernel. -/
def admits (s : System τ α η) : Event τ α η → Bool
  | .pass time => decide (0 ≤ time)
  | .tick => decide (s.phase = .thread ∧ s.kernel.irqs = true ∧ s.timer.managed = true ∧
      s.timer.hardware.enabled = true ∧ s.timer.hardware.setAt + timerGet s.timer ≤ s.now)
  | .expire => decide (s.phase = .loop) &&
      (listFirst s.timer.managedTimeouts).any fun e => decide ((s.timer.timeout e).remaining ≤ 0)
  | .finish => decide (s.phase = .handler)
  | .leave => decide (s.phase = .loop) &&
      (listFirst s.timer.managedTimeouts).all fun e => decide (0 < (s.timer.timeout e).remaining)
  | .pendSv _ =>
      decide (s.phase = .thread ∧ s.kernel.irqs = true ∧ s.kernel.pendSv = true)
  | .schedule storage _ _ _ _ => calls s && (s.timer.managedTimeouts.next storage).isNone
  | .cancel _ _ => calls s
  | .kernel _ => false
  | .lock _ => (executing s).any fun t => decide (s.stage t = .outside ∧
      (s.kernel.thread t).state = .running ∧ s.kernel.idleThread ≠ some t)
  | .timeout storage => ((executing s).any fun t => (s.stage t matches .locked _)) &&
      (s.timer.managedTimeouts.next storage).isNone
  | .read => (executing s).any fun t => decide (s.stage t = .scheduled)
  | .store => (executing s).any fun t => (s.stage t matches .read _)
  | .change => (executing s).any fun t => (s.stage t matches .stored _)
  | .unlock => (executing s).any fun t => decide (s.stage t = .changed)

omit [DecidableEq τ] in
theorem executes_of_executing (found : executing s = some t) : Executes s t := by
  unfold executing at found
  split at found
  · next both => exact ⟨both.1, found, both.2⟩
  · cases found

omit [DecidableEq τ] in
theorem calls_of_test (passed : calls s = true) : Calls s := by
  rw [calls, Bool.or_eq_true, decide_eq_true_eq, Option.any_eq_true] at passed
  rcases passed with phase | ⟨t, found, outside⟩
  · exact .inl phase
  · exact .inr ⟨t, executes_of_executing found, of_decide_eq_true outside⟩

omit [DecidableEq τ] in
/-- Storage with a cleared list entry is not on the list. -/
theorem not_queued_of_isNone {timer : Timer α (Handler η) τ} {e : α}
    (cleared : (timer.managedTimeouts.next e).isNone = true) : ¬ TimerQueue.Queued timer e := by
  rintro ⟨L, rep, mem⟩
  obtain ⟨y, z, next, -⟩ := rep.ring.linked_of_mem mem
  rw [next] at cleared
  cases cleared

/-- Steps that pass the test are legal. -/
theorem legal_of_admits {event : Event τ α η} (passed : admits s event = true) :
    Legal s event := by
  cases event with
  | pass time =>
      rw [admits, decide_eq_true_eq] at passed
      exact passed
  | tick =>
      rw [admits, decide_eq_true_eq] at passed
      exact passed
  | expire =>
      rw [admits, Bool.and_eq_true, decide_eq_true_eq, Option.any_eq_true] at passed
      obtain ⟨phase, e, first, expired⟩ := passed
      exact ⟨phase, e, first, of_decide_eq_true expired⟩
  | finish =>
      rw [admits, decide_eq_true_eq] at passed
      exact passed
  | leave =>
      rw [admits, Bool.and_eq_true, decide_eq_true_eq, Option.all_eq_true] at passed
      exact ⟨passed.1, fun e first => of_decide_eq_true (passed.2 e first)⟩
  | pendSv stack =>
      rw [admits, decide_eq_true_eq] at passed
      exact passed
  | schedule storage timeout again handler context =>
      rw [admits, Bool.and_eq_true] at passed
      exact ⟨calls_of_test passed.1, not_queued_of_isNone passed.2⟩
  | cancel handler context => exact calls_of_test passed
  | kernel op => cases passed
  | lock time =>
      rw [admits, Option.any_eq_true] at passed
      obtain ⟨t, found, holds⟩ := passed
      exact ⟨t, executes_of_executing found, of_decide_eq_true holds⟩
  | timeout storage =>
      rw [admits, Bool.and_eq_true, Option.any_eq_true] at passed
      obtain ⟨⟨t, found, holds⟩, cleared⟩ := passed
      refine ⟨⟨t, ?_⟩, not_queued_of_isNone cleared⟩
      split at holds
      · next time locked => exact ⟨time, executes_of_executing found, locked⟩
      · cases holds
  | read =>
      rw [admits, Option.any_eq_true] at passed
      obtain ⟨t, found, holds⟩ := passed
      exact ⟨t, executes_of_executing found, of_decide_eq_true holds⟩
  | store =>
      rw [admits, Option.any_eq_true] at passed
      obtain ⟨t, found, holds⟩ := passed
      refine ⟨t, ?_⟩
      split at holds
      · next oldState read => exact ⟨oldState, executes_of_executing found, read⟩
      · cases holds
  | change =>
      rw [admits, Option.any_eq_true] at passed
      obtain ⟨t, found, holds⟩ := passed
      refine ⟨t, ?_⟩
      split at holds
      · next oldState stored => exact ⟨oldState, executes_of_executing found, stored⟩
      · cases holds
  | unlock =>
      rw [admits, Option.any_eq_true] at passed
      obtain ⟨t, found, holds⟩ := passed
      exact ⟨t, executes_of_executing found, of_decide_eq_true holds⟩

variable [DecidableEq α] [DecidableEq η]

/-- The state after some steps, as long as they pass the test and satisfy `test`. -/
def steps (fuel : Nat) (test : System τ α η → Event τ α η → Bool) :
    List (Event τ α η) → System τ α η → Option (System τ α η)
  | [], s => some s
  | event :: events, s =>
      if admits s event && test s event then
        (exec fuel event s).toOption.bind (steps fuel test events)
      else none

/-- Such steps lead to reachable states. -/
theorem Reachable.steps {fuel : Nat} {ok : System τ α η → Event τ α η → Prop}
    {test : System τ α η → Event τ α η → Bool}
    (sound : ∀ s event, test s event = true → ok s event) {events : List (Event τ α η)}
    (reach : Reachable ok s) (run : Delay.steps fuel test events s = some s') :
    Reachable ok s' := by
  induction events generalizing s with
  | nil =>
      cases run
      exact reach
  | cons event events ih =>
      rw [Delay.steps] at run
      split at run
      · next passed =>
          rw [Bool.and_eq_true] at passed
          cases ran : Delay.exec fuel event s with
          | error fault =>
              rw [ran] at run
              cases run
          | ok s₁ =>
              rw [ran] at run
              exact ih (.step reach (legal_of_admits passed.1) (sound s event passed.2) ran) run
      · cases run

end Runs

/-- The system after `scheduler_init`, with the main thread at address 1 and the default timer not
yet used. -/
def bootSystem : System Nat Nat Nat where
  kernel := Scheduler.bootKernel
  timer :=
    { managed := false
      managedTimeouts := ⟨⟨fun _ => none, fun _ => none⟩, none⟩
      timeout := fun _ => ⟨0, 0, .other 0, 0⟩
      hardware := ⟨0, 0, 0, false, 335544⟩ }
  phase := .thread
  stage := fun _ => .outside
  due := fun _ => 0
  wakeAt := fun _ => 0
  invoked := []
  returned := []

theorem bootSystem_reachable {ok : System Nat Nat Nat → Event Nat Nat Nat → Prop} :
    Reachable ok bootSystem := by
  have on : Scheduler.bootKernel.irqs = true := by decide +kernel
  exact .init Scheduler.bootKernel_reachable on rfl (Int.le_refl 0) rfl (fun _ => rfl) rfl rfl

end Delay

end TheFirmware
