import TheFirmware.Core.DelayRun

/-!
# Timeouts are not early

The list of a managed timer counts from the moment the hardware was last set, not from now: the
function that would take off what has already elapsed, `timer_managed_update_first`, is empty. A
timeout that is put behind the first one while the hardware is counting is therefore due too early
by the time that has passed since it was set (`handler_early`).

`Placed` says that no timeout of the list is counted too short. Every step keeps it in which a
timeout is scheduled by a handler, or becomes the first one, or is scheduled at the very moment the
hardware was set (`InTime`). Then no handler is called and `delay` does not return before its time
(`reachable_punctual`).
-/

namespace TheFirmware.Delay

variable {τ α η : Type}

/-- No handler was called, and no call of `delay` returned, before its time. -/
def Punctual (s : System τ α η) : Prop :=
  (∀ p ∈ s.invoked, p.1 ≤ p.2) ∧ ∀ p ∈ s.returned, p.1 ≤ p.2

/-- A timeout that is scheduled now is counted from now. -/
def CountsFromNow (s : System τ α η) (timeout : Int) : Prop :=
  s.phase = .handler ∨
    (∀ e, listFirst s.timer.managedTimeouts = some e → timeout ≤ (s.timer.timeout e).remaining) ∨
    s.timer.hardware.setAt = s.now

/-- The timeouts that are scheduled are counted from now. -/
def InTime (s : System τ α η) : Event τ α η → Prop
  | .schedule _ timeout _ _ _ => CountsFromNow s timeout
  | .timeout _ => ∀ t time, s.kernel.currentThread = some t → s.stage t = .locked time →
      CountsFromNow s time
  | _ => True

/-- No timeout of `L` is due later than the list says when it counts from `base`. -/
def Placed (t : Timer α (Handler η) τ) (due : α → Int) : Int → List α → Prop
  | _, [] => True
  | base, e :: L => due e ≤ base + (t.timeout e).remaining ∧
      Placed t due (base + (t.timeout e).remaining) L

/-- The moment the list counts from: in the interrupt, time that has elapsed was taken off. -/
def System.base (s : System τ α η) : Int :=
  if s.phase = .thread then s.timer.hardware.setAt else s.now

/-- The timer part of the invariant. -/
structure Timely (s : System τ α η) (L : List α) : Prop where
  past : s.timer.hardware.setAt ≤ s.now
  placed : Placed s.timer s.due s.base L
  wakes : ∀ e ∈ L, (s.timer.timeout e).handler = .delay →
    s.wakeAt (s.timer.timeout e).context ≤ s.due e

/-- The thread part of the invariant. -/
structure OnTime (s : System τ α η) (Q : List τ) : Prop where
  locked : ∀ t time, s.stage t = .locked time → s.wakeAt t ≤ s.now + time
  changed : ∀ t, s.stage t = .changed → t ∈ Q → s.wakeAt t ≤ s.now

/-! ## Placing -/

section Placing

variable {t t' : Timer α (Handler η) τ} {due due' : α → Int} {base base' : Int} {e x : α}
  {A B L : List α}

theorem Placed.mono {b c : Int} (placed : Placed t due b L) (le : b ≤ c) :
    Placed t due c L := by
  induction L generalizing b c with
  | nil => trivial
  | cons e L ih =>
      refine ⟨?_, ih placed.2 (by omega)⟩
      have first := placed.1
      omega

theorem Placed.congr (placed : Placed t due base L)
    (same : ∀ e ∈ L, (t'.timeout e).remaining = (t.timeout e).remaining)
    (sameDue : ∀ e ∈ L, due' e = due e) : Placed t' due' base L := by
  induction L generalizing base with
  | nil => trivial
  | cons e L ih =>
      rw [Placed, same e List.mem_cons_self, sameDue e List.mem_cons_self]
      exact ⟨placed.1, ih placed.2 (fun a mem => same a (List.mem_cons_of_mem e mem))
        fun a mem => sameDue a (List.mem_cons_of_mem e mem)⟩

theorem placed_append :
    Placed t due base (A ++ B) ↔
      Placed t due base A ∧ Placed t due (base + TimerQueue.span t A) B := by
  induction A generalizing base with
  | nil => simp [Placed, TimerQueue.span]
  | cons a A ih =>
      rw [List.cons_append, Placed, Placed, ih, TimerQueue.span, Int.add_assoc, and_assoc]

/-- Only the first timeout of `L` has changed, along with the moment it counts from. -/
theorem Placed.shift (placed : Placed t due base L) (nodup : L.Nodup)
    (first : ∀ e, L.head? = some e →
      base' + (t'.timeout e).remaining = base + (t.timeout e).remaining)
    (others : ∀ e ∈ L, L.head? ≠ some e → (t'.timeout e).remaining = (t.timeout e).remaining) :
    Placed t' due base' L := by
  cases L with
  | nil => trivial
  | cons e L =>
      have sum := first e rfl
      refine ⟨?_, ?_⟩
      · rw [sum]
        exact placed.1
      · rw [sum]
        refine placed.2.congr (fun a mem => others a (List.mem_cons_of_mem e mem) ?_) fun _ _ => rfl
        intro head
        cases head
        exact (List.nodup_cons.mp nodup).1 mem

/-- Inserting keeps the others in place, and counts the new timeout from `base`. -/
theorem Placed.insert (placed : Placed t due base (A ++ B))
    (inserted : TimerQueue.Inserted t t' x A B) (new : due x ≤ base + (t.timeout x).remaining) :
    Placed t' due base (A ++ x :: B) := by
  have nodup := inserted.queue.ring.nodup
  rw [List.nodup_append, List.nodup_cons] at nodup
  obtain ⟨-, ⟨freshB, nodupB⟩, apart⟩ := nodup
  rw [placed_append] at placed ⊢
  obtain ⟨placedA, placedB⟩ := placed
  have keptA : ∀ a ∈ A, t'.timeout a = t.timeout a := by
    intro a mem
    refine inserted.others a (apart a mem x List.mem_cons_self) ?_
    intro head
    exact apart a mem a (List.mem_cons_of_mem x (List.mem_of_head? head)) rfl
  rw [TimerQueue.span_congr keptA]
  refine ⟨placedA.congr (fun a mem => by rw [keptA a mem]) fun _ _ => rfl, ?_, ?_⟩
  · rw [inserted.remaining]
    omega
  · apply placedB.shift nodupB
    · intro b head
      rw [inserted.next b head]
      omega
    · intro b mem notFirst
      rw [inserted.others b _ notFirst]
      rintro rfl
      exact freshB mem

/-- Cancelling keeps the others in place. -/
theorem Placed.cancel (placed : Placed t due base (A ++ e :: B)) (nodup : (A ++ e :: B).Nodup)
    (cancelled : TimerQueue.Cancelled t t' e A B) : Placed t' due base (A ++ B) := by
  rw [List.nodup_append, List.nodup_cons] at nodup
  obtain ⟨-, ⟨-, nodupB⟩, apart⟩ := nodup
  rw [placed_append] at placed ⊢
  obtain ⟨placedA, -, placedB⟩ := placed
  have keptA : ∀ a ∈ A, t'.timeout a = t.timeout a := by
    intro a mem
    apply cancelled.others
    intro head
    exact apart a mem a (List.mem_cons_of_mem e (List.mem_of_head? head)) rfl
  rw [TimerQueue.span_congr keptA]
  refine ⟨placedA.congr (fun a mem => by rw [keptA a mem]) fun _ _ => rfl, ?_⟩
  apply placedB.shift nodupB
  · intro b head
    rw [cancelled.next b head]
    omega
  · intro b _ notFirst
    rw [cancelled.others b notFirst]

end Placing

/-! ## Steps -/

section Steps

variable {s s' : System τ α η} {event : Event τ α η} {C Q Q' : List τ} {L L' : List α} {t : τ}
  {e x : α} {fuel : Nat}

theorem Timely.base_le (timely : Timely s L) : s.base ≤ s.now := by
  unfold System.base
  split
  · exact timely.past
  · exact Int.le_refl _

/-- The hardware after `timer_managed_recalculate` or without a change. -/
theorem rearm_now (h : Hardware) (time : Option Int) : (TimerQueue.rearm h time).now = h.now := by
  cases time with
  | none => rfl
  | some time => rfl

/-- The timer does not change. -/
theorem Timely.setThreads {kernel : Kernel τ} {stage : τ → Stage} {wakeAt : τ → Int}
    {returned : List (Int × Int)} (timely : Timely s L)
    (wakes : ∀ e ∈ L, (s.timer.timeout e).handler = .delay →
      wakeAt (s.timer.timeout e).context = s.wakeAt (s.timer.timeout e).context) :
    Timely { s with kernel, stage, wakeAt, returned } L := by
  refine ⟨timely.past, timely.placed, ?_⟩
  intro e mem isDelay
  show wakeAt (s.timer.timeout e).context ≤ s.due e
  rw [wakes e mem isDelay]
  exact timely.wakes e mem isDelay

/-- A step leaves the threads on time when those it wakes are due. -/
theorem OnTime.exec (onTime : OnTime s Q) (effect : Effect s s' event Q Q' L L')
    (later : s.now ≤ s'.now)
    (due : ∀ u, event = .expire → Moves s event u → s.wakeAt u ≤ s.now) : OnTime s' Q' := by
  constructor
  · intro u time locked
    by_cases moves : Moves s event u
    · have moved := effect.moved u moves
      cases event with
      | expire =>
          rw [moved.1] at locked
          have before := onTime.locked u time locked
          rw [moved.2.1]
          omega
      | lock time' =>
          rw [moved.1] at locked
          cases locked
          rw [moved.2]
          omega
      | timeout storage =>
          rw [moved.1] at locked
          cases locked
      | read =>
          obtain ⟨-, ⟨oldState, read⟩, -⟩ := moved
          rw [read] at locked
          cases locked
      | store =>
          obtain ⟨⟨oldState, -, stored⟩, -⟩ := moved
          rw [stored] at locked
          cases locked
      | change =>
          rw [moved.2.1] at locked
          cases locked
      | unlock =>
          rw [moved.2.2] at locked
          cases locked
      | _ => cases moves
    · obtain ⟨stage, wakeAt, -⟩ := effect.others u moves
      rw [stage] at locked
      have before := onTime.locked u time locked
      rw [wakeAt]
      omega
  · intro u changed queued
    by_cases moves : Moves s event u
    · have moved := effect.moved u moves
      cases event with
      | expire =>
          rw [moved.2.1]
          exact Int.le_trans (due u rfl moves) later
      | lock time' =>
          rw [moved.1] at changed
          cases changed
      | timeout storage =>
          rw [moved.1] at changed
          cases changed
      | read =>
          obtain ⟨-, ⟨oldState, read⟩, -⟩ := moved
          rw [read] at changed
          cases changed
      | store =>
          obtain ⟨⟨oldState, -, stored⟩, -⟩ := moved
          rw [stored] at changed
          cases changed
      | change => exact absurd queued moved.2.2.2
      | unlock =>
          rw [moved.2.2] at changed
          cases changed
      | _ => cases moves
    · obtain ⟨stage, wakeAt, same⟩ := effect.others u moves
      rw [stage] at changed
      have inside : s.stage u ≠ .outside := by simp [changed]
      rw [wakeAt]
      exact Int.le_trans (onTime.changed u changed ((same inside).mp queued)) later

variable [DecidableEq α]

/-- Scheduling a timeout keeps the list in place when it is counted from now. -/
theorem Timely.insert {timeout : Int} {again : Bool} {handler : Handler η} {context : τ}
    {timer : Timer α (Handler η) τ} (timely : Timely s L)
    (queue : Represents s.timer.managedTimeouts L) (managed : L ≠ [] → s.timer.managed = true)
    (fresh : x ∉ L) (counts : CountsFromNow s timeout)
    (run : timerManagedSchedule fuel x timeout again (some handler) context s.timer = .ok timer)
    (kernel : Kernel τ) (stage : τ → Stage)
    (wakes : handler = .delay → s.wakeAt context ≤ s.now + timeout) :
    ∃ L', Represents timer.managedTimeouts L' ∧ timer.hardware.now = s.now ∧
      Timely { s with
        kernel, stage, timer, due := Function.update s.due x (s.now + timeout) } L' := by
  obtain ⟨-, t₁, A, B, rfl, inserted, timeouts, -, hardware⟩ :=
    TimerQueue.timerManagedSchedule_inv queue managed fresh run
  have notX : ∀ a ∈ A ++ B, a ≠ x := fun a mem same => fresh (same ▸ mem)
  have placed : Placed t₁ (Function.update s.due x (s.now + timeout)) s.base (A ++ B) := by
    refine timely.placed.congr (fun a mem => ?_) fun a mem => ?_
    · rw [timeouts, Function.update_of_ne (notX a mem)]
    · rw [Function.update_of_ne (notX a mem)]
  have now : timer.hardware.now = s.now := by
    rw [inserted.hardware, hardware]
    split
    · rfl
    · rfl
  have wakes' : ∀ e ∈ A ++ x :: B, (timer.timeout e).handler = .delay →
      s.wakeAt (timer.timeout e).context ≤ Function.update s.due x (s.now + timeout) e := by
    intro e mem isDelay
    have same := inserted.same e
    by_cases isNew : e = x
    · subst isNew
      rw [timeouts, Function.update_self] at same
      rw [same.2.1] at isDelay
      rw [same.2.2, Function.update_self]
      exact wakes isDelay
    · rw [timeouts, Function.update_of_ne isNew] at same
      rw [same.2.1] at isDelay
      rw [same.2.2, Function.update_of_ne isNew]
      exact timely.wakes e (by simpa [isNew] using mem) isDelay
  have isNew : Function.update s.due x (s.now + timeout) x = s.now + (t₁.timeout x).remaining := by
    rw [Function.update_self, timeouts, Function.update_self]
  have base := timely.base_le
  refine ⟨A ++ x :: B, inserted.queue, now, ?_⟩
  cases A with
  | nil =>
      -- the timer is set for the new timeout, and the whole list counts from now
      have set : timer.hardware.setAt = s.now := by
        rw [inserted.hardware, if_pos rfl, hardware]
        rfl
      refine ⟨?_, ?_, wakes'⟩
      · show timer.hardware.setAt ≤ timer.hardware.now
        rw [set, now]
      · refine ((placed.mono base).insert inserted (by omega)).mono ?_
        show s.now ≤ if s.phase = .thread then timer.hardware.setAt else timer.hardware.now
        rw [set, now, ite_self]
  | cons a A =>
      have kept : timer.hardware = s.timer.hardware := by
        rw [inserted.hardware, if_neg (by simp), hardware]
      have atNow : s.now ≤ s.base := by
        unfold System.base
        rcases counts with phase | first | set
        · rw [if_neg (by rw [phase]; simp)]
        · have passed := inserted.passed a rfl
          have bound := first a (by rw [listFirst_eq queue]; rfl)
          rw [timeouts, Function.update_self, Function.update_of_ne (notX a (by simp))] at passed
          simp only at passed
          omega
        · rw [set, ite_self]
      refine ⟨?_, ?_, wakes'⟩
      · show timer.hardware.setAt ≤ timer.hardware.now
        rw [kept]
        exact timely.past
      · refine (placed.insert inserted (by omega)).mono ?_
        show s.base ≤ if s.phase = .thread then timer.hardware.setAt else timer.hardware.now
        rw [kept]
        exact Int.le_refl _

/-- Time is taken off the first timeout once the hardware has counted it down. -/
theorem Timely.elapse {timer : Timer α (Handler η) τ} (timely : Timely s (e :: L))
    (nodup : (e :: L).Nodup) (phase : s.phase = .thread)
    (ticked : s.timer.hardware.setAt + timerGet s.timer ≤ s.now)
    (run : timerManagedhandlerElapse (timerGet s.timer) e s.timer = .ok timer) :
    timer.hardware.now = s.now ∧ Timely { s with timer, phase := .loop } (e :: L) := by
  rw [timerManagedhandlerElapse, Except.bind_eq_ok] at run
  obtain ⟨remaining, checked, run⟩ := run
  rw [int32_eq_ok] at checked
  obtain ⟨-, rfl⟩ := checked
  cases run
  have placed := timely.placed
  rw [System.base, if_pos phase] at placed
  refine ⟨rfl, timely.past, ?_, ?_⟩
  · refine Placed.mono (b := s.timer.hardware.setAt + timerGet s.timer) ?_ ticked
    apply placed.shift nodup
    · intro a head
      cases head
      rw [setRemaining_timeout_self]
      simp only
      omega
    · intro a _ notFirst
      rw [setRemaining_timeout_of_ne]
      rintro rfl
      exact notFirst rfl
  · intro a mem isDelay
    have same := TimerQueue.sameTimeout_setRemaining s.timer e a
      ((s.timer.timeout e).remaining - timerGet s.timer)
    rw [same.2.1] at isDelay
    rw [same.2.2]
    exact timely.wakes a mem isDelay

omit [DecidableEq α] in
/-- The first timeout of the list has expired, and is due. -/
theorem Timely.due (timely : Timely s (e :: L)) (phase : s.phase = .loop)
    (expired : (s.timer.timeout e).remaining ≤ 0) : s.due e ≤ s.now := by
  have first := timely.placed.1
  rw [System.base, if_neg (by rw [phase]; simp)] at first
  omega

/-- The loop body of `timer_managedhandler` keeps the list in place. -/
theorem Timely.expire {timer : Timer α (Handler η) τ} {kernel : Kernel τ}
    {invoked : List (Int × Int)} (timely : Timely s (e :: L))
    (queue : Represents s.timer.managedTimeouts (e :: L)) (phase : s.phase = .loop)
    (expired : (s.timer.timeout e).remaining ≤ 0)
    (run : timerManagedhandlerExpire fuel e s.timer = .ok timer) :
    ∃ L', Represents timer.managedTimeouts L' ∧ timer.hardware.now = s.now ∧
      Timely { s with kernel, timer, phase := .handler, invoked } L' := by
  have fresh := (List.nodup_cons.mp queue.ring.nodup).1
  have due := timely.due phase expired
  obtain ⟨-, rest⟩ := timely.placed
  rw [System.base, if_neg (by rw [phase]; simp)] at rest
  rcases TimerQueue.timerManagedhandlerExpire_inv queue run with
    ⟨-, rep, timeouts, -, hardware⟩ | ⟨t₁, A, B, repeats, rfl, inserted, -, hardware, timeouts⟩
  · refine ⟨L, rep, by rw [hardware]; rfl, ?_, ?_, ?_⟩
    · show timer.hardware.setAt ≤ timer.hardware.now
      rw [hardware]
      exact timely.past
    · show Placed timer s.due timer.hardware.now L
      rw [hardware]
      refine (rest.mono ?_).congr (fun a _ => by rw [timeouts]) fun _ _ => rfl
      show s.now + _ ≤ s.now
      omega
    · intro a mem isDelay
      have known := timely.wakes a (List.mem_cons_of_mem e mem)
      rw [← timeouts] at known
      exact known isDelay
  · have placed : Placed t₁ s.due s.now (A ++ B) := by
      refine (rest.mono (by omega)).congr (fun a mem => ?_) fun _ _ => rfl
      have ne : a ≠ e := fun same => fresh (same ▸ mem)
      rw [timeouts, Function.update_of_ne ne]
    have isNew : (t₁.timeout e).remaining = (s.timer.timeout e).resetTime := by
      rw [timeouts, Function.update_self]
    have now : timer.hardware.now = s.now := by
      rw [inserted.hardware, hardware]
      split
      · rfl
      · rfl
    refine ⟨A ++ e :: B, inserted.queue, now, ?_, ?_, ?_⟩
    · show timer.hardware.setAt ≤ timer.hardware.now
      rw [now, inserted.hardware, hardware]
      split
      · exact Int.le_refl _
      · exact timely.past
    · show Placed timer s.due timer.hardware.now (A ++ e :: B)
      rw [now]
      exact placed.insert inserted (by omega)
    · intro a mem isDelay
      have same : TimerQueue.SameTimeout (s.timer.timeout a) (timer.timeout a) := by
        have same := inserted.same a
        rw [timeouts] at same
        by_cases first : a = e
        · subst first
          rwa [Function.update_self] at same
        · rwa [Function.update_of_ne first] at same
      have known := timely.wakes a (by simp only [List.mem_append, List.mem_cons] at mem ⊢; tauto)
      rw [same.2.1] at isDelay
      show s.wakeAt (timer.timeout a).context ≤ s.due a
      rw [same.2.2]
      exact known isDelay

omit [DecidableEq α] in
/-- The timer is set anew, for the first timeout. -/
theorem Timely.rearm (timely : Timely s L) (time : Option Int) (armed : time = none → L = [])
    (phase : Phase) :
    Timely { s with timer.hardware := TimerQueue.rearm s.timer.hardware time, phase } L := by
  have base := timely.base_le
  cases time with
  | none =>
      rw [armed rfl]
      exact ⟨timely.past, trivial, by simp⟩
  | some time =>
      refine ⟨Int.le_refl _, ?_, timely.wakes⟩
      show Placed _ s.due (if phase = .thread then s.now else s.now) L
      rw [ite_self]
      exact (timely.placed.mono base).congr (fun _ _ => rfl) fun _ _ => rfl

/-- Cancelling a timeout keeps the list in place. -/
theorem Timely.cancel [DecidableEq τ] [DecidableEq η] {handler : η} {context : τ}
    {timer : Timer α (Handler η) τ} (timely : Timely s L)
    (queue : Represents s.timer.managedTimeouts L)
    (run : timerManagedCancel fuel (some (.other handler)) context s.timer = .ok timer) :
    ∃ L', Represents timer.managedTimeouts L' ∧ timer.hardware.now = s.now ∧
      Timely { s with timer } L' := by
  have base := timely.base_le
  rcases TimerQueue.timerManagedCancel_inv queue run with
    ⟨rfl, -⟩ | ⟨A, e, B, rfl, cancelled, -, -⟩
  · exact ⟨L, queue, rfl, timely⟩
  · have placed := timely.placed.cancel queue.ring.nodup cancelled
    have wakes : ∀ a ∈ A ++ B, (timer.timeout a).handler = .delay →
        s.wakeAt (timer.timeout a).context ≤ s.due a := by
      intro a mem isDelay
      have same := cancelled.same a
      rw [same.2.1] at isDelay
      rw [same.2.2]
      refine timely.wakes a ?_ isDelay
      simp only [List.mem_append, List.mem_cons] at mem ⊢
      tauto
    have now : timer.hardware.now = s.now := by
      rw [cancelled.hardware]
      split
      · exact rearm_now _ _
      · rfl
    refine ⟨A ++ B, cancelled.queue, now, ?_⟩
    cases A with
    | cons a A =>
        have kept : timer.hardware = s.timer.hardware := by
          rw [cancelled.hardware, if_neg (by simp)]
        refine ⟨?_, ?_, wakes⟩
        · show timer.hardware.setAt ≤ timer.hardware.now
          rw [kept]
          exact timely.past
        · refine placed.mono ?_
          show s.base ≤ if s.phase = .thread then timer.hardware.setAt else timer.hardware.now
          rw [kept]
          exact Int.le_refl _
    | nil =>
        have hardware := cancelled.hardware
        rw [if_pos rfl] at hardware
        cases B with
        | nil =>
            refine ⟨?_, trivial, wakes⟩
            show timer.hardware.setAt ≤ timer.hardware.now
            rw [hardware]
            exact timely.past
        | cons b B =>
            have set : timer.hardware.setAt = s.now := by
              rw [hardware]
              rfl
            refine ⟨?_, ?_, wakes⟩
            · show timer.hardware.setAt ≤ timer.hardware.now
              rw [set, now]
            · refine placed.mono ?_
              show s.base ≤ if s.phase = .thread then timer.hardware.setAt else timer.hardware.now
              rw [set, now, ite_self]
              exact base

omit [DecidableEq α] in
/-- Time passes. -/
theorem Timely.pass {time : Int} (timely : Timely s L) (forward : 0 ≤ time) :
    Timely { s with timer.hardware.now := s.now + time } L := by
  refine ⟨?_, ?_, timely.wakes⟩
  · have past := timely.past
    show s.timer.hardware.setAt ≤ s.now + time
    omega
  · refine Placed.congr (t := s.timer) (timely.placed.mono ?_) (fun _ _ => rfl) fun _ _ => rfl
    unfold System.base
    show _ ≤ if s.phase = .thread then s.timer.hardware.setAt else s.now + time
    split
    · exact Int.le_refl _
    · omega

omit [DecidableEq α] in
/-- The thread whose timeout expires is due. -/
theorem Timely.wakes_due (timely : Timely s L) (queue : Represents s.timer.managedTimeouts L)
    (legal : Legal s .expire) (moves : Moves s .expire t) : s.wakeAt t ≤ s.now := by
  obtain ⟨phase, e, first, expired⟩ := legal
  obtain ⟨e', first', isDelay, rfl⟩ := moves
  obtain rfl : e = e' := Option.some.inj (first.symm.trans first')
  rw [listFirst_eq queue] at first
  cases L with
  | nil => cases first
  | cons a L =>
      cases first
      exact Int.le_trans (timely.wakes e List.mem_cons_self isDelay) (timely.due phase expired)

variable [DecidableEq τ] [DecidableEq η]

/-- A tick of the hardware timer keeps the list in place. -/
theorem Timely.tick (timely : Timely s L) (sound : Sound s C Q L) (punctual : Punctual s)
    (legal : Legal s .tick) (run : Delay.exec fuel .tick s = .ok s') :
    ∃ L', Represents s'.timer.managedTimeouts L' ∧ s.now ≤ s'.now ∧ Timely s' L' ∧
      Punctual s' := by
  have queue := sound.waiters.queue
  obtain ⟨phase, -, -, -, ticked⟩ := legal
  rw [Delay.exec, listFirst_eq queue] at run
  cases L with
  | nil =>
      cases run
      exact ⟨[], queue, Int.le_refl _, timely, punctual⟩
  | cons e L =>
      simp only [List.head?_cons] at run
      rw [Except.bind_eq_ok] at run
      obtain ⟨timer, elapsed, run⟩ := run
      cases run
      obtain ⟨now, after⟩ := timely.elapse queue.ring.nodup phase ticked elapsed
      obtain ⟨rep, -⟩ := sound.waiters.elapse elapsed
      exact ⟨e :: L, rep.queue, Int.le_of_eq now.symm, after, punctual⟩

/-- The handler that the timer calls is due. -/
theorem Timely.call (timely : Timely s L) (sound : Sound s C Q L) (punctual : Punctual s)
    (legal : Legal s .expire) (run : Delay.exec fuel .expire s = .ok s') :
    ∃ L', Represents s'.timer.managedTimeouts L' ∧ s.now ≤ s'.now ∧ Timely s' L' ∧
      Punctual s' := by
  have queue := sound.waiters.queue
  obtain ⟨phase, e, first, expired⟩ := legal
  rw [Delay.exec, first, deref_some, Except.ok_bind, Except.bind_eq_ok] at run
  obtain ⟨timer, ran, run⟩ := run
  rw [Except.bind_eq_ok] at run
  obtain ⟨kernel, -, run⟩ := run
  rw [listFirst_eq queue] at first
  cases L with
  | nil => cases first
  | cons a L =>
      cases first
      cases run
      obtain ⟨L', rep, now, after⟩ := timely.expire queue phase expired ran
      refine ⟨L', rep, Int.le_of_eq now.symm, after, ?_, punctual.2⟩
      intro p mem
      rcases List.mem_cons.mp mem with rfl | mem
      · exact timely.due phase expired
      · exact punctual.1 p mem

/-- A thread that takes the lock of its delay waits for no timeout yet. -/
theorem Timely.lock {time : Int} (timely : Timely s L) (sound : Sound s C Q L)
    (punctual : Punctual s) (legal : Legal s (.lock time))
    (run : Delay.exec fuel (.lock time) s = .ok s') :
    ∃ L', Represents s'.timer.managedTimeouts L' ∧ s.now ≤ s'.now ∧ Timely s' L' ∧
      Punctual s' := by
  obtain ⟨t, ⟨-, current, -⟩, outside, -⟩ := legal
  rw [Delay.exec, current, deref_some, Except.ok_bind] at run
  cases run
  refine ⟨L, sound.waiters.queue, Int.le_refl _, timely.setThreads ?_, punctual⟩
  intro e mem isDelay
  apply Function.update_of_ne
  intro same
  have waiting := sound.waiters.waits e mem isDelay
  rw [same, outside] at waiting
  exact waiting

/-- The timeout of a delay goes to its place when the lock was taken in time. -/
theorem Timely.timeout {storage : α} (timely : Timely s L) (sound : Sound s C Q L)
    (onTime : OnTime s Q) (punctual : Punctual s) (legal : Legal s (.timeout storage))
    (allowed : InTime s (.timeout storage))
    (run : Delay.exec fuel (.timeout storage) s = .ok s') :
    ∃ L', Represents s'.timer.managedTimeouts L' ∧ s.now ≤ s'.now ∧ Timely s' L' ∧
      Punctual s' := by
  have queue := sound.waiters.queue
  obtain ⟨⟨t, time, ⟨-, current, -⟩, locked⟩, fresh⟩ := legal
  have fresh : storage ∉ L := fun mem => fresh ⟨L, queue, mem⟩
  rw [Delay.exec, current, deref_some, Except.ok_bind, delaySchedule, locked] at run
  simp only at run
  rw [Except.bind_eq_ok] at run
  obtain ⟨timer, scheduled, run⟩ := run
  cases run
  obtain ⟨L', rep, now, after⟩ := timely.insert queue sound.waiters.managed fresh
    (allowed t time current locked) scheduled (schedulerUnlock s.kernel)
    (Function.update s.stage t .scheduled) (fun _ => onTime.locked t time locked)
  exact ⟨L', rep, Int.le_of_eq now.symm, after, punctual⟩

/-- A step keeps the list in place and is punctual, when the timeouts that are scheduled count from
now. -/
theorem Timely.exec (timely : Timely s L) (sound : Sound s C Q L) (onTime : OnTime s Q)
    (punctual : Punctual s) (legal : Legal s event) (allowed : InTime s event)
    (run : Delay.exec fuel event s = .ok s') :
    ∃ L', Represents s'.timer.managedTimeouts L' ∧ s.now ≤ s'.now ∧ Timely s' L' ∧
      Punctual s' := by
  have queue := sound.waiters.queue
  have managed := sound.waiters.managed
  cases event with
  | pass time =>
      cases run
      have forward : 0 ≤ time := legal
      refine ⟨L, queue, ?_, timely.pass forward, punctual⟩
      show s.now ≤ s.now + time
      omega
  | tick => exact timely.tick sound punctual legal run
  | expire => exact timely.call sound punctual legal run
  | finish =>
      cases run
      refine ⟨L, queue, Int.le_refl _, ⟨timely.past, ?_, timely.wakes⟩, punctual⟩
      have placed := timely.placed
      rw [System.base, if_neg (by rw [legal]; simp)] at placed
      exact placed
  | leave =>
      rw [Delay.exec, Except.bind_eq_ok] at run
      obtain ⟨timer, recalculated, run⟩ := run
      obtain ⟨rfl, -⟩ := TimerQueue.timerManagedRecalculate_inv queue recalculated
      cases run
      refine ⟨L, queue, Int.le_of_eq (rearm_now _ _).symm, timely.rearm _ ?_ .thread, punctual⟩
      intro none
      rw [Option.map_eq_none_iff, List.head?_eq_none_iff] at none
      exact none
  | pendSv stack =>
      rw [Delay.exec, Except.bind_eq_ok] at run
      obtain ⟨kernel, -, run⟩ := run
      cases run
      exact ⟨L, queue, Int.le_refl _, timely.setThreads fun _ _ _ => rfl, punctual⟩
  | schedule storage timeout again handler context =>
      have fresh : storage ∉ L := fun mem => legal.2 ⟨L, queue, mem⟩
      rw [Delay.exec, Except.bind_eq_ok] at run
      obtain ⟨timer, scheduled, run⟩ := run
      cases run
      obtain ⟨L', rep, now, after⟩ := timely.insert queue managed fresh allowed scheduled
        s.kernel s.stage (fun isDelay => by cases isDelay)
      exact ⟨L', rep, Int.le_of_eq now.symm, after, punctual⟩
  | cancel handler context =>
      rw [Delay.exec, Except.bind_eq_ok] at run
      obtain ⟨timer, cancelled, run⟩ := run
      cases run
      obtain ⟨L', rep, now, after⟩ := timely.cancel queue cancelled
      exact ⟨L', rep, Int.le_of_eq now.symm, after, punctual⟩
  | kernel op =>
      rw [Delay.exec, Except.bind_eq_ok] at run
      obtain ⟨kernel, -, run⟩ := run
      cases run
      exact ⟨L, queue, Int.le_refl _, timely.setThreads fun _ _ _ => rfl, punctual⟩
  | lock time => exact timely.lock sound punctual legal run
  | timeout storage => exact timely.timeout sound onTime punctual legal allowed run
  | read =>
      obtain ⟨t, ⟨-, current, -⟩, -⟩ := legal
      rw [Delay.exec, current, deref_some, Except.ok_bind] at run
      cases run
      exact ⟨L, queue, Int.le_refl _, timely.setThreads fun _ _ _ => rfl, punctual⟩
  | store =>
      obtain ⟨t, oldState, ⟨-, current, -⟩, read⟩ := legal
      rw [Delay.exec, current, deref_some, Except.ok_bind, delayStore, read] at run
      cases run
      exact ⟨L, queue, Int.le_refl _, timely.setThreads fun _ _ _ => rfl, punctual⟩
  | change =>
      obtain ⟨t, oldState, ⟨-, current, -⟩, stored⟩ := legal
      rw [Delay.exec, current, deref_some, Except.ok_bind, delayChange, stored] at run
      simp only at run
      rw [Except.bind_eq_ok] at run
      obtain ⟨kernel, -, run⟩ := run
      cases run
      exact ⟨L, queue, Int.le_refl _, timely.setThreads fun _ _ _ => rfl, punctual⟩
  | unlock =>
      obtain ⟨t, executes, changed⟩ := legal
      have queued := sound.queued executes (by simp [changed]) (by simp [changed])
      rw [Delay.exec, executes.2.1, deref_some, Except.ok_bind] at run
      cases run
      refine ⟨L, queue, Int.le_refl _, timely.setThreads fun _ _ _ => rfl, punctual.1, ?_⟩
      intro p mem
      rcases List.mem_cons.mp mem with rfl | mem
      · exact onTime.changed t changed queued
      · exact punctual.2 p mem

/-- The invariant of the runs in which timeouts count from now. -/
theorem Reachable.timely (reach : Reachable InTime s) :
    ∃ C Q L, Sound s C Q L ∧ Timely s L ∧ OnTime s Q ∧ Punctual s := by
  induction reach with
  | init kernel irqs empty past phase stage invoked returned =>
      obtain ⟨C, Q, sound⟩ := sound_init kernel irqs empty stage
      refine ⟨C, Q, [], sound, ⟨past, trivial, by simp⟩, ⟨?_, ?_⟩, ?_, ?_⟩
      · intro t time locked
        rw [stage t] at locked
        cases locked
      · intro t changed
        rw [stage t] at changed
        cases changed
      · rw [invoked]
        simp
      · rw [returned]
        simp
  | step before legal allowed run ih =>
      obtain ⟨C, Q, L, sound, timely, onTime, punctual⟩ := ih
      obtain ⟨C', Q', L', after, effect⟩ := sound.exec legal run
      obtain ⟨L'', rep, later, timely', punctual'⟩ :=
        timely.exec sound onTime punctual legal allowed run
      obtain rfl := after.waiters.queue.unique rep
      refine ⟨C', Q', L', after, timely', onTime.exec effect later ?_, punctual'⟩
      intro u expires moves
      subst expires
      exact timely.wakes_due sound.waiters.queue legal moves

/-- **Timeouts are not early**: in every state of every run in which timeouts count from the moment
they are scheduled, no handler was called and no call of `delay` returned before its time. -/
theorem reachable_punctual (s : System τ α η) (reach : Reachable InTime s) : Punctual s := by
  obtain ⟨C, Q, L, -, -, -, punctual⟩ := reach.timely
  exact punctual

/-- A test for steps in time: a timeout is scheduled by a handler, at the moment for which the timer
was set, or in front of the others, and `delay` schedules into an empty list. -/
def countsFromNow (s : System τ α η) : Event τ α η → Bool
  | .schedule _ timeout _ _ _ => s.phase = .handler || s.timer.hardware.setAt = s.now ||
      (listFirst s.timer.managedTimeouts).all fun e => timeout ≤ (s.timer.timeout e).remaining
  | .timeout _ => (listFirst s.timer.managedTimeouts).isNone
  | _ => true

omit [DecidableEq τ] [DecidableEq α] [DecidableEq η] in
theorem inTime_of_test (s : System τ α η) (event : Event τ α η)
    (passed : countsFromNow s event = true) : InTime s event := by
  cases event with
  | schedule storage timeout again handler context =>
      simp only [countsFromNow, Bool.or_eq_true, decide_eq_true_eq, Option.all_eq_true] at passed
      rcases passed with (handler | now) | before
      · exact .inl handler
      · exact .inr (.inr now)
      · exact .inr (.inl before)
  | timeout storage =>
      intro t time _ _
      refine .inr (.inl fun e first => ?_)
      have none : (listFirst s.timer.managedTimeouts).isNone = true := passed
      rw [first] at none
      cases none
  | _ => trivial

end Steps

/-- The main thread calls `delay(10)`, and returns when it is selected after 10 milliseconds. Then it
schedules a timeout, a later one behind it at the same moment, and 60 milliseconds later one in front
of both. The handler of this one schedules another one behind those that are left. -/
def delayed : List (Event Nat Nat Nat) :=
  [.pendSv 0x1000, .lock 10, .timeout 0, .read, .store, .change, .pass 10, .tick, .expire, .finish,
    .leave, .pendSv 0x1000, .unlock,
    .schedule 0 100 false 0 0, .schedule 1 150 false 1 0, .pass 60, .schedule 2 30 false 2 0,
    .pass 30, .tick, .expire, .schedule 3 200 false 3 0, .finish, .leave,
    .pass 70, .tick, .expire, .finish, .leave, .pass 50, .tick, .expire]

theorem reachable_punctual_delayed :
    ∃ s, steps 5 countsFromNow delayed bootSystem = some s ∧
      s.invoked = [(160, 220), (110, 170), (100, 100), (10, 10)] ∧ s.returned = [(10, 10)] ∧
      Punctual s := by
  have trace : ((steps 5 countsFromNow delayed bootSystem).map fun s =>
      (s.invoked, s.returned)) =
        some ([(160, 220), (110, 170), (100, 100), (10, 10)], [(10, 10)]) := by
    decide +kernel
  obtain ⟨s, run, result⟩ := Option.map_eq_some_iff.mp trace
  simp only [Prod.mk.injEq] at result
  refine ⟨s, run, result.1, result.2, ?_⟩
  exact reachable_punctual s (bootSystem_reachable.steps inTime_of_test run)

/-! ## The early timeout -/

/-- One timeout of 100 milliseconds is scheduled at 0, and one of 150 milliseconds at 60. The second
one is given the 50 milliseconds behind the first one, and expires at 150. -/
def earlyTimeout : List (Event Nat Nat Nat) :=
  [.pendSv 0x1000, .schedule 0 100 false 0 0, .pass 60, .schedule 1 150 false 1 0, .pass 40, .tick,
    .expire, .finish, .leave, .pass 50, .tick, .expire]

/-- The handler of the second timeout is due at 210, and is called at 150. -/
theorem handler_early :
    ∃ s : System Nat Nat Nat, Reachable (fun _ _ => True) s ∧ ¬ Punctual s := by
  have trace : ((steps 5 (fun _ _ => true) earlyTimeout bootSystem).map fun s => s.invoked) =
      some [(210, 150), (100, 100)] := by
    decide +kernel
  obtain ⟨s, run, result⟩ := Option.map_eq_some_iff.mp trace
  refine ⟨s, bootSystem_reachable.steps (fun _ _ _ => trivial) run, ?_⟩
  intro punctual
  have early := punctual.1 (210, 150) (by rw [result]; simp)
  simp at early

end TheFirmware.Delay
