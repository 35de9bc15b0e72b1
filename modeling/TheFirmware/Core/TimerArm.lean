import TheFirmware.Core.TimerTick

/-!
# The assertion of `timer_set`

`timer_managed_recalculate` sets the timer for the first timeout, and `timer_set` asserts that the
time is positive. Between two handlers of one tick the queue may begin with timeouts that have no
time left. Scheduling sets the timer for the new timeout only, but cancelling the first timeout sets
it for the second one, which then has the time of both.

A run is a sequence of single steps here: a handler is entered (`Action.expire`), makes its calls
one after the other, and returns (`Action.handled`). The assertion holds in every run in which no
call cancels the first of two timeouts that have no time left (`reachable_arms`), and such a call
fails.
-/

namespace TheFirmware.TimerQueue

variable {α η κ : Type}

/-- The assertion of `timer_set` has failed. -/
def notPositive : Fault := .assertion "Setting a timers time to a negative ammount makes no sense"

/-- What runs: a thread, the loop of `timer_managedhandler`, or a handler it has called. -/
inductive Phase : Type
  | thread
  | loop
  | handler
  deriving DecidableEq, Repr

/-- A managed timer and what runs. -/
structure Running (α η κ : Type) : Type where
  timer : Timer α η κ
  phase : Phase

/-- One step. The arguments of a call are those of the source, and `storage` is what `malloc_raw`
returns in the call. -/
inductive Action (α η κ : Type) : Type
  | schedule (storage : α) (timeout : Int) (again : Bool) (handler : Option η) (context : κ)
  | cancel (handler : Option η) (context : κ)
  /-- `timer_managedhandler(timer, elapsed_time)` up to its loop -/
  | tick (elapsedTime : Int)
  /-- the loop body of `timer_managedhandler` up to the call of the handler -/
  | expire
  /-- the handler returns -/
  | handled
  /-- the end of `timer_managedhandler` -/
  | leave

section Steps

variable [DecidableEq α] [DecidableEq η] [DecidableEq κ]

/-- The state after a step. -/
def Running.exec (fuel : Nat) : Action α η κ → Running α η κ → Except Fault (Running α η κ)
  | .schedule storage timeout again handler context, s => do
      let timer ← timerManagedSchedule fuel storage timeout again handler context s.timer
      return { s with timer }
  | .cancel handler context, s => do
      let timer ← timerManagedCancel fuel handler context s.timer
      return { s with timer }
  | .tick elapsedTime, s =>
      match listFirst s.timer.managedTimeouts with
      | some first => do
          let timer ← timerManagedhandlerElapse elapsedTime first s.timer
          return ⟨timer, .loop⟩
      | none => return s
  | .expire, s => do
      let timeout ← deref (listFirst s.timer.managedTimeouts)
      let timer ← timerManagedhandlerExpire fuel timeout s.timer
      return ⟨timer, .handler⟩
  | .handled, s => return { s with phase := .loop }
  | .leave, s => do
      let timer ← timerManagedRecalculate s.timer
      return ⟨timer, .thread⟩

/-- When a step is taken. Threads and handlers call with any arguments, `malloc_raw` returns storage
that is not in use, and a tick comes at the latest when the first timeout is due. -/
def Running.Legal (nullRemaining : Int) (s : Running α η κ) : Action α η κ → Prop
  | .schedule storage _ _ _ _ => s.phase ≠ .loop ∧ ¬ Queued s.timer storage
  | .cancel _ _ => s.phase ≠ .loop
  | .tick elapsedTime => s.phase = .thread ∧
      ∀ first, listFirst s.timer.managedTimeouts = some first →
        elapsedTime ≤ (s.timer.timeout first).remaining
  | .expire => s.phase = .loop ∧ ∃ first, listFirst s.timer.managedTimeouts = some first ∧
      (s.timer.timeout first).remaining ≤ 0
  | .handled => s.phase = .handler
  | .leave => s.phase = .loop ∧
      0 < ((listFirst s.timer.managedTimeouts).map fun a => (s.timer.timeout a).remaining).getD
        nullRemaining

/-- A step is taken and returns. -/
def Running.Step (nullRemaining : Int) (s s' : Running α η κ) : Prop :=
  ∃ fuel action, s.Legal nullRemaining action ∧ s.exec fuel action = .ok s'

/-- The states of all runs from an empty list on. -/
def Running.Reachable (nullRemaining : Int) (s : Running α η κ) : Prop :=
  ∃ timer : Timer α η κ, timer.managedTimeouts.head = none ∧
    Relation.ReflTransGen (Running.Step nullRemaining) ⟨timer, .thread⟩ s

/-- Some run from here ends with the failing assertion. -/
def Running.Fails (nullRemaining : Int) (s : Running α η κ) : Prop :=
  ∃ s' fuel action, Relation.ReflTransGen (Running.Step nullRemaining) s s' ∧
    s'.Legal nullRemaining action ∧ s'.exec fuel action = .error notPositive

/-- The step does not cancel the first timeout while neither it nor the second one has time left. -/
def Spares (s : Running α η κ) : Action α η κ → Prop
  | .cancel handler context => ∀ first next, listFirst s.timer.managedTimeouts = some first →
      listNext s.timer.managedTimeouts first = some next →
      some (s.timer.timeout first).handler = handler → (s.timer.timeout first).context = context →
      ¬ ((s.timer.timeout first).remaining = 0 ∧ (s.timer.timeout next).remaining = 0)
  | _ => True

end Steps

/-! ## What fails -/

section Faults

variable {t t' : Timer α η κ} {A B L : List α} {a e x : α} {fuel : Nat}

/-- Setting the timer for the first timeout fails exactly when it has no time left. -/
theorem timerManagedRecalculate_avoids (rep : Represents t.managedTimeouts L)
    (positive : ∀ a, L.head? = some a → 0 < (t.timeout a).remaining) :
    Avoids notPositive (timerManagedRecalculate t) := by
  obtain ⟨t', ran⟩ := timerManagedRecalculate_returns rep positive
  exact .of_ok ran

variable [DecidableEq α]

/-- The loop of `timer_managed_insert` sets the timer for the new timeout at most, which keeps time
left while the loop passes sooner ones. -/
theorem insertLoop_avoids (rep : Represents t.managedTimeouts (A ++ B))
    (unlinked : t.managedTimeouts.Unlinked x) (positive : 0 < (t.timeout x).remaining) :
    Avoids notPositive (timerManagedInsertLoop x fuel B.head? t) := by
  induction B generalizing A t fuel with
  | nil =>
      cases fuel with
      | zero => exact .of_error _ rfl (by decide)
      | succ fuel =>
          obtain ⟨managedTimeouts, appended, -, -⟩ := listAppend_represents rep unlinked
          simp only [List.head?_nil, timerManagedInsertLoop]
          rw [appended]
          exact .of_ok rfl
  | cons e B ih =>
      cases fuel with
      | zero => exact .of_error _ rfl (by decide)
      | succ fuel =>
          have fresh := rep.notMem_of_unlinked unlinked
          simp only [List.head?_cons, timerManagedInsertLoop]
          by_cases here : (t.timeout x).remaining ≤ (t.timeout e).remaining
          · obtain ⟨t₁, inserted⟩ := timerManagedInsertAt_returns rep fresh positive
            rw [if_pos here, inserted, Except.ok_bind]
            exact .bind (.int32 (by decide)) fun _ _ => .of_ok rfl
          · rw [if_neg here]
            refine .bind (.int32 (by decide)) fun remaining checked => ?_
            obtain ⟨-, rfl⟩ := int32_eq_ok.mp checked
            rw [setRemaining_managedTimeouts, listNext_eq rep]
            have rep' : Represents (t.setRemaining x ((t.timeout x).remaining -
                (t.timeout e).remaining)).managedTimeouts (A ++ [e] ++ B) := by
              rw [List.append_assoc]
              exact rep
            apply ih rep' unlinked
            rw [setRemaining_timeout_self]
            simp only
            omega

theorem timerManagedInsert_avoids (rep : Represents t.managedTimeouts L)
    (unlinked : t.managedTimeouts.Unlinked x) (positive : 0 < (t.timeout x).remaining) :
    Avoids notPositive (timerManagedInsert fuel x t) := by
  rw [timerManagedInsert]
  by_cases empty : L = []
  · subst empty
    obtain ⟨managedTimeouts, appended, rep', -⟩ := listAppend_represents rep unlinked
    rw [if_pos ((listIsEmpty_iff rep).mpr rfl), appended, Except.ok_bind]
    apply timerManagedRecalculate_avoids (L := [x]) rep'
    intro a head
    cases head
    exact positive
  · rw [if_neg fun full => empty ((listIsEmpty_iff rep).mp full)]
    simp only [timerManagedUpdateFirst]
    rw [listFirst_eq rep]
    exact insertLoop_avoids (A := []) rep unlinked positive

/-- Scheduling sets the timer for the timeout it has made at most. -/
theorem timerManagedSchedule_avoids {timeout : Int} {again : Bool} {handler : Option η}
    {context : κ} (queue : Queue t L) (fresh : x ∉ L) :
    Avoids notPositive (timerManagedSchedule fuel x timeout again handler context t) := by
  by_cases positive : 0 < timeout
  · cases handler with
    | none =>
        refine .of_error (.assertion "Timeout requires a handler") ?_ (by decide)
        simp only [timerManagedSchedule]
        rw [assert_pos positive]
        rfl
    | some handler =>
        obtain ⟨t₁, prepared, rep, unlinked, timeouts, -, -⟩ := timerManagedSchedule_eq fuel again
          handler context queue.queue queue.managed fresh positive
        rw [prepared]
        apply timerManagedInsert_avoids rep unlinked
        rw [timeouts, Function.update_self]
        exact positive
  · refine .bind (.assert (by decide)) fun u checked => ?_
    exact absurd (assert_eq_ok.mp checked) positive

/-- The loop body of `timer_managedhandler` sets the timer at most for the timeout it inserts
again. -/
theorem timerManagedhandlerExpire_avoids (rep : Represents t.managedTimeouts (e :: L)) :
    Avoids notPositive (timerManagedhandlerExpire fuel e t) := by
  have deleted : Represents (listDelete t.managedTimeouts e) L := listDelete_append (A := []) rep
  rw [timerManagedhandlerExpire]
  split
  · next repeats =>
      apply timerManagedInsert_avoids (t := Timer.setRemaining { t with
        managedTimeouts := listDelete t.managedTimeouts e } e (t.timeout e).resetTime) deleted
        (listDelete_unlinked rep List.mem_cons_self)
      rw [setRemaining_timeout_self]
      exact repeats
  · exact .of_ok rfl

/-- Cancelling an entry sets the timer when it is the first one, for the next one. -/
theorem timerManagedCancelEntry_avoids (rep : Represents t.managedTimeouts (A ++ e :: B))
    (positive : A = [] → ∀ b, B.head? = some b →
      0 < (t.timeout b).remaining + (t.timeout e).remaining) :
    Avoids notPositive (timerManagedCancelEntry e t) := by
  by_cases fits : ∀ b, B.head? = some b →
      Int32Range ((t.timeout b).remaining + (t.timeout e).remaining)
  · obtain ⟨t', ran⟩ := timerManagedCancelEntry_returns rep fits positive
    exact .of_ok ran
  · -- the sum overflows before the timer is set
    obtain ⟨b, head, large⟩ : ∃ b, B.head? = some b ∧
        ¬ Int32Range ((t.timeout b).remaining + (t.timeout e).remaining) := by
      simpa using fits
    refine .of_error .overflow ?_ (by decide)
    simp only [timerManagedCancelEntry, timerManagedUpdateFirst, ite_self, timerManagedCancelNext]
    rw [listNext_eq rep, head]
    simp only [int32, if_neg large]
    rfl

variable [DecidableEq η] [DecidableEq κ]

theorem cancelLoop_avoids {handler : η} {context : κ} (rep : Represents t.managedTimeouts (A ++ B))
    (entries : ∀ B₁ e B₂, B = B₁ ++ e :: B₂ → (t.timeout e).handler = handler →
      (t.timeout e).context = context → Avoids notPositive (timerManagedCancelEntry e t)) :
    Avoids notPositive (timerManagedCancelLoop handler context fuel B.head? t) := by
  induction B generalizing A fuel with
  | nil =>
      cases fuel with
      | zero => exact .of_error _ rfl (by decide)
      | succ fuel => exact .of_ok rfl
  | cons e B ih =>
      cases fuel with
      | zero => exact .of_error _ rfl (by decide)
      | succ fuel =>
          simp only [List.head?_cons, timerManagedCancelLoop]
          split
          · next found => exact entries [] e B rfl found.1 found.2
          · rw [listNext_eq rep]
            have rep' : Represents t.managedTimeouts (A ++ [e] ++ B) := by
              rw [List.append_assoc]
              exact rep
            apply ih rep'
            intro B₁ e' B₂ split
            exact entries (e :: B₁) e' B₂ (congrArg (e :: ·) split)

/-- Cancelling fails when it takes out the first of two timeouts that have no time left. -/
theorem timerManagedCancel_fails {first next : α} {handler : η} {context : κ}
    (rep : Represents t.managedTimeouts (first :: next :: L))
    (found : (t.timeout first).handler = handler ∧ (t.timeout first).context = context)
    (zero : (t.timeout first).remaining = 0 ∧ (t.timeout next).remaining = 0) :
    timerManagedCancel (fuel + 1) (some handler) context t = .error notPositive := by
  have deleted : listFirst (listDelete t.managedTimeouts first) = some next :=
    listFirst_eq (listDelete_append (A := []) rep)
  have isFirst : listFirst t.managedTimeouts = some first := listFirst_eq rep
  have isNext : listNext t.managedTimeouts first = some next := listNext_eq (A := []) rep
  have fits : int32 ((t.timeout next).remaining + (t.timeout first).remaining) = .ok 0 := by
    rw [zero.1, zero.2]
    rfl
  simp only [timerManagedCancel, Option.isSome_some, assert_pos, deref_some, Except.ok_bind,
    isFirst, timerManagedCancelLoop, if_pos found, timerManagedCancelEntry,
    timerManagedUpdateFirst, timerManagedCancelNext, isNext, fits, decide_true, ite_self, pure_bind,
    if_true, setRemaining_managedTimeouts, timerManagedRecalculate, deleted, timerSet]
  rw [setRemaining_timeout_self]
  rfl

end Faults

/-! ## The invariant -/

/-- No time that remains is negative, and the first timeout has time left whenever no tick is being
handled. -/
structure Arming (s : Running α η κ) (L : List α) : Prop where
  queue : Queue s.timer L
  nonneg : ∀ a ∈ L, 0 ≤ (s.timer.timeout a).remaining
  first : s.phase = .thread → ∀ a, L.head? = some a → 0 < (s.timer.timeout a).remaining

section Invariant

variable {s s' : Running α η κ} {t t' : Timer α η κ} {A B L : List α} {a e x : α} {fuel : Nat}
  {nullRemaining : Int}

/-- A timeout that has been inserted has time left when it comes first. -/
theorem Inserted.first_pos (inserted : Inserted t t' x A B) (positive : 0 < (t.timeout x).remaining)
    (first : ∀ a, A.head? = some a → 0 < (t.timeout a).remaining) :
    ∀ a, (A ++ x :: B).head? = some a → 0 < (t'.timeout a).remaining := by
  intro a head
  cases A with
  | nil =>
      cases head
      rw [inserted.remaining]
      simpa [span] using positive
  | cons c A =>
      rw [inserted.timeout_head head]
      exact first a head

theorem Cancelled.nonneg (cancelled : Cancelled t t' e A B)
    (nonneg : ∀ a ∈ A ++ e :: B, 0 ≤ (t.timeout a).remaining) :
    ∀ a ∈ A ++ B, 0 ≤ (t'.timeout a).remaining := by
  intro a mem
  have before : 0 ≤ (t.timeout a).remaining := by
    apply nonneg
    rw [List.mem_append] at mem ⊢
    exact mem.imp_right (List.mem_cons_of_mem e)
  by_cases next : B.head? = some a
  · have cancelledE := nonneg e (by simp)
    rw [cancelled.next a next]
    omega
  · rwa [cancelled.others a next]

variable [DecidableEq α]

theorem Arming.schedule {timeout : Int} {again : Bool} {handler : Option η} {context : κ}
    (arming : Arming s L) (fresh : ¬ Queued s.timer x)
    (run : timerManagedSchedule fuel x timeout again handler context s.timer = .ok t') :
    ∃ L', Arming { s with timer := t' } L' := by
  have notMem : x ∉ L := fun mem => fresh ⟨L, arming.queue.queue, mem⟩
  cases handler with
  | none =>
      obtain ⟨⟨⟩, -, run⟩ := Except.bind_eq_ok.mp run
      cases run
  | some handler =>
      obtain ⟨positive, t₁, A, B, rfl, inserted, timeouts, managed, -⟩ :=
        timerManagedSchedule_inv arming.queue.queue arming.queue.managed notMem run
      have others : ∀ a ∈ A ++ B, t₁.timeout a = s.timer.timeout a := by
        intro a mem
        rw [timeouts, Function.update_of_ne]
        exact fun same => notMem (same ▸ mem)
      have positive₁ : 0 < (t₁.timeout x).remaining := by
        rw [timeouts, Function.update_self]
        exact positive
      refine ⟨A ++ x :: B, ⟨inserted.queue, fun _ => managed⟩, ?_, fun thread => ?_⟩
      · apply inserted.nonneg _ positive₁
        intro a mem
        rw [others a mem]
        exact arming.nonneg a mem
      · apply inserted.first_pos positive₁
        intro a head
        rw [others a (List.mem_append_left B (List.mem_of_head? head))]
        exact arming.first thread a (by rw [List.head?_append, head]; rfl)

theorem Arming.tick {elapsedTime : Int} (arming : Arming s (a :: L))
    (reached : elapsedTime ≤ (s.timer.timeout a).remaining)
    (run : timerManagedhandlerElapse elapsedTime a s.timer = .ok t') :
    Arming ⟨t', .loop⟩ (a :: L) := by
  obtain ⟨remaining, checked, run⟩ := Except.bind_eq_ok.mp run
  obtain ⟨-, rfl⟩ := int32_eq_ok.mp checked
  cases run
  refine ⟨⟨arming.queue.queue, arming.queue.managed⟩, fun b mem => ?_, fun thread => nomatch thread⟩
  by_cases same : b = a
  · subst same
    rw [setRemaining_timeout_self]
    simp only
    omega
  · rw [setRemaining_timeout_of_ne same]
    exact arming.nonneg b mem

theorem Arming.expire (arming : Arming s (e :: L))
    (run : timerManagedhandlerExpire fuel e s.timer = .ok t') : ∃ L', Arming ⟨t', .handler⟩ L' := by
  have notMem : e ∉ L := (List.nodup_cons.mp arming.queue.queue.ring.nodup).1
  obtain ⟨L', queue, -⟩ := arming.queue.expire run
  refine ⟨L', queue, ?_, fun thread => nomatch thread⟩
  rcases timerManagedhandlerExpire_inv arming.queue.queue run with
    ⟨-, rep, timeouts, -, -⟩ | ⟨t₁, A, B, repeats, rfl, inserted, -, -, timeouts⟩
  · intro a mem
    rw [queue.queue.unique rep] at mem
    rw [timeouts]
    exact arming.nonneg a (List.mem_cons_of_mem e mem)
  · rw [queue.queue.unique inserted.queue]
    apply inserted.nonneg
    · intro a mem
      rw [timeouts, Function.update_of_ne]
      · exact arming.nonneg a (List.mem_cons_of_mem e mem)
      · exact fun same => notMem (same ▸ mem)
    · rw [timeouts, Function.update_self]
      exact repeats

variable [DecidableEq η] [DecidableEq κ]

theorem Arming.cancel {handler : Option η} {context : κ} (arming : Arming s L)
    (run : timerManagedCancel fuel handler context s.timer = .ok t') :
    ∃ L', Arming { s with timer := t' } L' := by
  cases handler with
  | none => cases run
  | some handler =>
      rcases timerManagedCancel_inv arming.queue.queue run with
        ⟨rfl, -⟩ | ⟨A, e, B, rfl, cancelled, -, -⟩
      · exact ⟨L, arming⟩
      · refine ⟨A ++ B, ⟨cancelled.queue, fun _ => ?_⟩, cancelled.nonneg arming.nonneg,
          fun thread a head => ?_⟩
        · rw [cancelled.managed]
          exact arming.queue.managed (by simp)
        · cases A with
          | nil =>
              have cancelledE := arming.first thread e rfl
              have before := arming.nonneg a (List.mem_cons_of_mem e (List.mem_of_head? head))
              rw [cancelled.next a head]
              omega
          | cons c A =>
              rw [cancelled.timeout_head head]
              exact arming.first thread a head

/-- A step keeps the invariant. -/
theorem Arming.exec {action : Action α η κ} (arming : Arming s L)
    (legal : s.Legal nullRemaining action) (run : s.exec fuel action = .ok s') :
    ∃ L', Arming s' L' := by
  cases action with
  | schedule storage timeout again handler context =>
      obtain ⟨t', ran, run⟩ := Except.bind_eq_ok.mp run
      cases run
      exact arming.schedule legal.2 ran
  | cancel handler context =>
      obtain ⟨t', ran, run⟩ := Except.bind_eq_ok.mp run
      cases run
      exact arming.cancel ran
  | tick elapsedTime =>
      rw [Running.exec, listFirst_eq arming.queue.queue] at run
      cases L with
      | nil =>
          cases run
          exact ⟨[], arming⟩
      | cons a L =>
          obtain ⟨t', ran, run⟩ := Except.bind_eq_ok.mp run
          cases run
          exact ⟨a :: L, arming.tick (legal.2 a (listFirst_eq arming.queue.queue)) ran⟩
  | expire =>
      obtain ⟨-, first, isFirst, -⟩ := legal
      rw [Running.exec, isFirst, deref_some, Except.ok_bind, Except.bind_eq_ok] at run
      obtain ⟨t', ran, run⟩ := run
      cases run
      rw [listFirst_eq arming.queue.queue] at isFirst
      cases L with
      | nil => cases isFirst
      | cons a L =>
          cases isFirst
          exact arming.expire ran
  | handled =>
      cases run
      exact ⟨L, arming.queue, arming.nonneg, fun thread => nomatch thread⟩
  | leave =>
      obtain ⟨t', ran, run⟩ := Except.bind_eq_ok.mp run
      cases run
      obtain ⟨rfl, positive⟩ := timerManagedRecalculate_inv arming.queue.queue ran
      exact ⟨L, ⟨arming.queue.queue, arming.queue.managed⟩, arming.nonneg, fun _ => positive⟩

theorem Running.Reachable.arming (reach : s.Reachable nullRemaining) : ∃ L, Arming s L := by
  obtain ⟨timer, empty, steps⟩ := reach
  induction steps with
  | refl => exact ⟨[], ⟨⟨Ring.nil, empty⟩, fun full => absurd rfl full⟩, by simp, by simp⟩
  | tail _ step ih =>
      obtain ⟨L, arming⟩ := ih
      obtain ⟨fuel, action, legal, run⟩ := step
      exact arming.exec legal run

/-! ## The assertion -/

/-- A call of `timer_managed_cancel` that spares two timeouts without time left does not fail. -/
theorem Arming.cancel_avoids {handler : Option η} {context : κ} (arming : Arming s L)
    (spares : Spares s (.cancel handler context)) :
    Avoids notPositive (timerManagedCancel fuel handler context s.timer) := by
  cases handler with
  | none => exact .of_error _ rfl (by decide)
  | some handler =>
      simp only [timerManagedCancel]
      rw [assert_pos (by rfl), Except.ok_bind, deref_some, Except.ok_bind,
        listFirst_eq arming.queue.queue]
      apply cancelLoop_avoids (A := []) arming.queue.queue
      intro A e B split sameHandler sameContext
      subst split
      apply timerManagedCancelEntry_avoids arming.queue.queue
      intro isFirst b head
      subst isFirst
      have spared := spares e b (listFirst_eq arming.queue.queue)
        ((listNext_eq (A := []) arming.queue.queue).trans head) (congrArg some sameHandler)
        sameContext
      have nonnegE := arming.nonneg e List.mem_cons_self
      have nonnegB := arming.nonneg b (List.mem_cons_of_mem e (List.mem_of_head? head))
      omega

/-- No other step fails. -/
theorem Arming.avoids {action : Action α η κ} (arming : Arming s L)
    (legal : s.Legal nullRemaining action) (spares : Spares s action) :
    Avoids notPositive (s.exec fuel action) := by
  cases action with
  | schedule storage timeout again handler context =>
      have notMem : storage ∉ L := fun mem => legal.2 ⟨L, arming.queue.queue, mem⟩
      exact .bind (timerManagedSchedule_avoids arming.queue notMem) fun _ _ => .of_ok rfl
  | cancel handler context => exact .bind (arming.cancel_avoids spares) fun _ _ => .of_ok rfl
  | tick elapsedTime =>
      rw [Running.exec]
      split
      · exact .bind (.bind (.int32 (by decide)) fun _ _ => .of_ok rfl) fun _ _ => .of_ok rfl
      · exact .of_ok rfl
  | expire =>
      obtain ⟨-, first, isFirst, -⟩ := legal
      rw [Running.exec, isFirst, deref_some, Except.ok_bind]
      rw [listFirst_eq arming.queue.queue] at isFirst
      cases L with
      | nil => cases isFirst
      | cons a L =>
          cases isFirst
          exact .bind (timerManagedhandlerExpire_avoids arming.queue.queue) fun _ _ => .of_ok rfl
  | handled => exact .of_ok rfl
  | leave =>
      refine .bind (timerManagedRecalculate_avoids arming.queue.queue fun a head => ?_)
        fun _ _ => .of_ok rfl
      have positive := legal.2
      rw [listFirst_eq arming.queue.queue, head] at positive
      exact positive

/-- A step that does not spare them is a call of `timer_managed_cancel`, and fails. -/
theorem Arming.fails {action : Action α η κ} (arming : Arming s L) (spares : ¬ Spares s action) :
    s.exec (fuel + 1) action = .error notPositive := by
  cases action with
  | cancel handler context =>
      obtain ⟨first, next, isFirst, isNext, sameHandler, sameContext, zero⟩ :
          ∃ first next, listFirst s.timer.managedTimeouts = some first ∧
            listNext s.timer.managedTimeouts first = some next ∧
            some (s.timer.timeout first).handler = handler ∧
            (s.timer.timeout first).context = context ∧
            ((s.timer.timeout first).remaining = 0 ∧ (s.timer.timeout next).remaining = 0) := by
        simpa [Spares] using spares
      have rep := arming.queue.queue
      rw [listFirst_eq rep] at isFirst
      cases L with
      | nil => cases isFirst
      | cons a L =>
          cases isFirst
          rw [listNext_eq (A := []) rep] at isNext
          cases L with
          | nil => cases isNext
          | cons b L =>
              cases isNext
              rw [Running.exec, ← sameHandler,
                timerManagedCancel_fails rep ⟨rfl, sameContext⟩ zero]
              rfl
  | schedule storage timeout again handler context => exact absurd trivial spares
  | tick elapsedTime => exact absurd trivial spares
  | expire => exact absurd trivial spares
  | handled => exact absurd trivial spares
  | leave => exact absurd trivial spares

/-- **The timer is set to positive times**: in every state of every run, in which threads and
handlers call with any arguments and no tick comes late, the assertion of `timer_set` holds in the
next step exactly when the step does not cancel the first timeout of the queue while neither it nor
the second one has time left. -/
theorem reachable_arms (nullRemaining : Int) (s : Running α η κ) (reach : s.Reachable nullRemaining)
    (action : Action α η κ) (legal : s.Legal nullRemaining action) :
    (∀ fuel, Avoids notPositive (s.exec fuel action)) ↔ Spares s action := by
  obtain ⟨L, arming⟩ := reach.arming
  constructor
  · intro avoids
    by_contra spares
    exact avoids 1 (arming.fails spares)
  · intro spares fuel
    exact arming.avoids legal spares

/-! ### The steps of `timer_managedhandler` -/

theorem Running.Fails.head (step : s.Step nullRemaining s') (fails : s'.Fails nullRemaining) :
    s.Fails nullRemaining := by
  obtain ⟨s'', fuel, action, steps, legal, run⟩ := fails
  exact ⟨s'', fuel, action, .head step steps, legal, run⟩

theorem Running.Fails.steps (steps : Relation.ReflTransGen (Running.Step nullRemaining) s s')
    (fails : s'.Fails nullRemaining) : s.Fails nullRemaining := by
  induction steps using Relation.ReflTransGen.head_induction_on with
  | refl => exact fails
  | head step _ ih => exact ih.head step

/-- A handler does nothing to the timer but call its functions, and fails as they do. -/
def Performs (nullRemaining : Int)
    (call : η → κ → Timer α η κ × Unit → Except Fault (Timer α η κ × Unit)) : Prop :=
  ∀ handler context t,
    (∀ t', call handler context (t, ()) = .ok (t', ()) →
      Relation.ReflTransGen (Running.Step nullRemaining) ⟨t, .handler⟩ ⟨t', .handler⟩) ∧
    (call handler context (t, ()) = .error notPositive →
      Running.Fails nullRemaining ⟨t, .handler⟩)

/-- An execution that fails has failed in its first half or in its second one. -/
theorem bind_eq_error {β γ : Type} {x : Except Fault β} {f : β → Except Fault γ} {fault : Fault}
    (failed : x >>= f = .error fault) : x = .error fault ∨ ∃ b, x = .ok b ∧ f b = .error fault := by
  cases x with
  | error other => exact .inl (congrArg Except.error (Except.error.inj failed))
  | ok b => exact .inr ⟨b, rfl, failed⟩

variable {call : η → κ → Timer α η κ × Unit → Except Fault (Timer α η κ × Unit)}

/-- The loop of `timer_managedhandler` is a sequence of steps, and fails in one of them. -/
theorem managedhandlerLoop_running (handlers : Performs nullRemaining call) :
    (∀ t', timerManagedhandlerLoop nullRemaining call fuel (t, ()) = .ok (t', ()) →
      Relation.ReflTransGen (Running.Step nullRemaining) ⟨t, .loop⟩ ⟨t', .loop⟩ ∧
        Running.Legal nullRemaining ⟨t', .loop⟩ .leave) ∧
    (timerManagedhandlerLoop nullRemaining call fuel (t, ()) = .error notPositive →
      Running.Fails nullRemaining ⟨t, .loop⟩) := by
  induction fuel generalizing t with
  | zero => exact ⟨fun t' run => (by cases run), fun failed => (by cases failed)⟩
  | succ fuel ih =>
      simp only [timerManagedhandlerLoop]
      cases first : listFirst t.managedTimeouts with
      | none =>
          simp only
          split
          · exact ⟨fun t' run => (by cases run), fun failed => (by cases failed)⟩
          · next positive =>
              refine ⟨fun t' run => ?_, fun failed => (by cases failed)⟩
              cases run
              refine ⟨.refl, rfl, ?_⟩
              rw [first]
              exact Int.not_le.mp positive
      | some e =>
          simp only
          split
          · next expired =>
              have legal : Running.Legal nullRemaining ⟨t, .loop⟩ .expire :=
                ⟨rfl, e, first, expired⟩
              have enter : ∀ t₁, timerManagedhandlerExpire fuel e t = .ok t₁ →
                  Running.Step nullRemaining ⟨t, .loop⟩ ⟨t₁, .handler⟩ := by
                intro t₁ ran
                refine ⟨fuel, .expire, legal, ?_⟩
                simp only [Running.exec, first, deref_some, Except.ok_bind, ran]
                rfl
              have back : ∀ t₂ : Timer α η κ,
                  Running.Step nullRemaining ⟨t₂, .handler⟩ ⟨t₂, .loop⟩ :=
                fun t₂ => ⟨0, .handled, rfl, rfl⟩
              constructor
              · intro t' run
                obtain ⟨t₁, ran, run⟩ := Except.bind_eq_ok.mp run
                obtain ⟨⟨t₂, ⟨⟩⟩, called, run⟩ := Except.bind_eq_ok.mp run
                obtain ⟨steps, leave⟩ := ih.1 t' run
                exact ⟨.head (enter t₁ ran) (((handlers _ _ t₁).1 t₂ called).trans
                  (.head (back t₂) steps)), leave⟩
              · intro failed
                rcases bind_eq_error failed with failed | ⟨t₁, ran, failed⟩
                · refine ⟨_, fuel, .expire, .refl, legal, ?_⟩
                  simp only [Running.exec, first, deref_some, Except.ok_bind, failed]
                  rfl
                · rcases bind_eq_error failed with failed | ⟨⟨t₂, ⟨⟩⟩, called, failed⟩
                  · exact ((handlers _ _ t₁).2 failed).head (enter t₁ ran)
                  · exact (((ih.2 failed).head (back t₂)).steps
                      ((handlers _ _ t₁).1 t₂ called)).head (enter t₁ ran)
          · next left =>
              refine ⟨fun t' run => ?_, fun failed => (by cases failed)⟩
              cases run
              refine ⟨.refl, rfl, ?_⟩
              rw [first]
              exact Int.not_le.mp left

/-- When the assertion fails somewhere in `timer_managedhandler`, it fails in a step of a run, so
that `reachable_arms` is about all of its executions. -/
theorem timerManagedhandler_fails (handlers : Performs nullRemaining call) {elapsed : Int}
    (reached : ∀ first, listFirst t.managedTimeouts = some first →
      elapsed ≤ (t.timeout first).remaining)
    (failed : timerManagedhandler nullRemaining call fuel elapsed (t, ()) = .error notPositive) :
    Running.Fails nullRemaining ⟨t, .thread⟩ := by
  have legal : Running.Legal nullRemaining ⟨t, .thread⟩ (.tick elapsed) := ⟨rfl, reached⟩
  simp only [timerManagedhandler] at failed
  cases first : listFirst t.managedTimeouts with
  | none =>
      rw [first] at failed
      cases failed
  | some e =>
      rw [first] at failed
      simp only at failed
      rcases bind_eq_error failed with failed | ⟨t₁, ran, failed⟩
      · refine ⟨_, fuel, .tick elapsed, .refl, legal, ?_⟩
        simp only [Running.exec, first, failed]
        rfl
      · have tick : Running.Step nullRemaining ⟨t, .thread⟩ ⟨t₁, .loop⟩ := by
          refine ⟨fuel, .tick elapsed, legal, ?_⟩
          simp only [Running.exec, first, ran, Except.ok_bind]
          rfl
        obtain ⟨returns, fails⟩ := @managedhandlerLoop_running _ _ _ t₁ fuel _ _ _ _ call handlers
        rcases bind_eq_error failed with failed | ⟨⟨t₂, ⟨⟩⟩, looped, failed⟩
        · exact (fails failed).head tick
        · obtain ⟨steps, leave⟩ := returns t₂ looped
          refine Running.Fails.head tick
            (Running.Fails.steps steps ⟨_, fuel, .leave, .refl, leave, ?_⟩)
          rcases bind_eq_error failed with failed | ⟨t₃, -, failed⟩
          · simp only [Running.exec, failed]
            rfl
          · cases failed

end Invariant

/-! ## A concrete run -/

/-- A test for steps that are legal. -/
def admits (s : Running Nat Nat Nat) : Action Nat Nat Nat → Bool
  | .schedule storage _ _ _ _ => decide (s.phase ≠ .loop) &&
      (s.timer.managedTimeouts.next storage).isNone && (s.timer.managedTimeouts.prev storage).isNone
  | .tick elapsedTime => decide (s.phase = .thread) &&
      (listFirst s.timer.managedTimeouts).all
        fun first => decide (elapsedTime ≤ (s.timer.timeout first).remaining)
  | .expire => decide (s.phase = .loop) &&
      (listFirst s.timer.managedTimeouts).any
        fun first => decide ((s.timer.timeout first).remaining ≤ 0)
  | _ => false

theorem legal_of_admits {s : Running Nat Nat Nat} {action : Action Nat Nat Nat}
    (admitted : admits s action = true) : s.Legal 0 action := by
  cases action with
  | schedule storage timeout again handler context =>
      simp only [admits, Bool.and_eq_true, decide_eq_true_eq, Option.isNone_iff_eq_none] at admitted
      obtain ⟨⟨phase, next⟩, prev⟩ := admitted
      refine ⟨phase, fun queued => ?_⟩
      obtain ⟨L, rep, mem⟩ := queued
      exact rep.notMem_of_unlinked ⟨next, prev⟩ mem
  | tick elapsedTime =>
      simp only [admits, Bool.and_eq_true, decide_eq_true_eq, Option.all_eq_true] at admitted
      exact admitted
  | expire =>
      simp only [admits, Bool.and_eq_true, decide_eq_true_eq, Option.any_eq_true] at admitted
      exact admitted
  | cancel handler context => cases admitted
  | handled => cases admitted
  | leave => cases admitted

/-- The state after some steps, when all of them are admitted. -/
def runAll : List (Action Nat Nat Nat) → Running Nat Nat Nat → Option (Running Nat Nat Nat)
  | [], s => some s
  | action :: actions, s =>
      if admits s action then
        match s.exec 8 action with
        | .ok s' => runAll actions s'
        | .error _ => none
      else none

theorem runAll_steps {actions : List (Action Nat Nat Nat)} {s s' : Running Nat Nat Nat}
    (run : runAll actions s = some s') : Relation.ReflTransGen (Running.Step 0) s s' := by
  induction actions generalizing s with
  | nil =>
      cases run
      exact .refl
  | cons action actions ih =>
      rw [runAll] at run
      split at run
      · next admitted =>
          split at run
          · next s₁ ran => exact .head ⟨8, action, legal_of_admits admitted, ran⟩ (ih run)
          · cases run
      · cases run

/-- Three timeouts with the same deadline, up to the handler of the one that expires first. -/
def threeDue : Option (Running Nat Nat Nat) :=
  runAll [.schedule 0 100 false (some 7) 0, .schedule 1 100 false (some 8) 0,
    .schedule 2 100 false (some 9) 0, .tick 100, .expire] ⟨blankTimer, .thread⟩

theorem threeDue_reachable : ∃ s, threeDue = some s ∧ s.Reachable 0 ∧ s.phase = .handler := by
  have runs : (threeDue.map Running.phase) = some .handler := by decide +kernel
  obtain ⟨s, run, phase⟩ := Option.map_eq_some_iff.mp runs
  exact ⟨s, run, ⟨blankTimer, rfl, runAll_steps run⟩, phase⟩

/-- The handler may cancel the last of the three timeouts. -/
theorem reachable_arms_last :
    ∃ s, threeDue = some s ∧ s.Legal 0 (.cancel (some 7) 0) ∧
      ∀ fuel, Avoids notPositive (s.exec fuel (.cancel (some 7) 0)) := by
  obtain ⟨s, run, reach, phase⟩ := threeDue_reachable
  have legal : s.Legal 0 (.cancel (some 7) 0) := by
    intro loop
    rw [phase] at loop
    cases loop
  refine ⟨s, run, legal, (reachable_arms 0 s reach _ legal).mpr ?_⟩
  intro first next isFirst isNext sameHandler
  have other : threeDue.map (fun s => (listFirst s.timer.managedTimeouts).map
      fun first => (s.timer.timeout first).handler) = some (some 8) := by decide +kernel
  rw [run, Option.map_some, isFirst, Option.map_some, Option.some.inj sameHandler] at other
  cases other

/-- The assertion fails when the handler cancels the next of the three timeouts. -/
theorem assertion_fails :
    ∃ s : Running Nat Nat Nat, s.Reachable 0 ∧ s.Legal 0 (.cancel (some 8) 0) ∧
      s.exec 8 (.cancel (some 8) 0) = .error notPositive := by
  obtain ⟨s, run, reach, phase⟩ := threeDue_reachable
  have legal : s.Legal 0 (.cancel (some 8) 0) := by
    intro loop
    rw [phase] at loop
    cases loop
  refine ⟨s, reach, legal, ?_⟩
  have fails : threeDue.map (fun s => match s.exec 8 (.cancel (some 8) 0) with
      | .ok _ => none
      | .error fault => some fault) = some (some notPositive) := by decide +kernel
  rw [run, Option.map_some] at fails
  cases cancelled : s.exec 8 (.cancel (some 8) 0) with
  | ok s' =>
      rw [cancelled] at fails
      cases fails
  | error fault =>
      rw [cancelled] at fails
      cases fails
      rfl

end TheFirmware.TimerQueue
