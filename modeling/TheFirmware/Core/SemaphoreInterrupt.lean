import TheFirmware.Core.Semaphore

/-!
# Interrupts in `semaphore_signal`

A thread executes `semaphore_signal` statement by statement, and between any two statements an
interrupt handler makes any number of complete calls of `semaphore_signal` on the same semaphore.

The function reads the head of the queue twice, once for the waitee it wakes and once for the entry
it deletes. A handler that takes a waitee off the queue between the two reads makes them differ:
a thread is then deleted and never woken, or `list_delete` is called on `NULL`. Nothing is lost if
and only if that does not happen (`signalInterrupted_noneLost_iff`).
-/

namespace TheFirmware.Semaphore

variable {τ ω : Type}

/-- The points at which the thread can be interrupted: before each statement of `semaphore_signal`,
and when it has returned. -/
inductive Point : Type
  | increment
  | read
  | test
  | delete
  | wakeup
  | returned
  deriving DecidableEq, Repr

/-- The number of calls from interrupt handlers. -/
def interrupts (irqs : Point → Nat) : Nat :=
  irqs .increment + irqs .read + irqs .test + irqs .delete + irqs .wakeup + irqs .returned

variable [DecidableEq τ] [DecidableEq ω]

/-- An interrupt handler makes `n` calls of `semaphore_signal`. -/
def interrupt : Nat → State τ ω → Except Fault (State τ ω)
  | 0, s => .ok s
  | n + 1, s => do
      let s ← exec .signal s
      interrupt n s

/-- `semaphore_signal(semaphore)` with `irqs p` calls from interrupt handlers at the point `p`. When
there is no waitee, the points of the skipped branch are at the end. -/
def semaphoreSignalInterrupted (irqs : Point → Nat) (s : State τ ω) :
    Except Fault (State τ ω) := do
  let s ← interrupt (irqs .increment) s
  let s := { s with semaphore.value := s.semaphore.value + 1 }
  let s ← interrupt (irqs .read) s
  let waitee := listFirst s.semaphore.queue
  let s ← interrupt (irqs .test) s
  match waitee with
  | some waitee =>
      let s ← interrupt (irqs .delete) s
      let entry ← deref (listFirst s.semaphore.queue)
      let s := { s with semaphore.queue := listDelete s.semaphore.queue entry }
      let s ← interrupt (irqs .wakeup) s
      let thread ← deref (s.thread waitee)
      let kernel ← threadWakeup thread s.kernel
      interrupt (irqs .returned) { s with kernel }
  | none => interrupt (irqs .delete + irqs .wakeup + irqs .returned) s

/-- The thread recorded in the waitee is running. -/
def woken (s : State τ ω) (w : ω) : Bool :=
  match s.thread w with
  | some t => (s.kernel.thread t).state = .running
  | none => false

/-- Of the waitees `W`, those that are off the queue have been woken, one for each signal. -/
structure NoneLost (s : State τ ω) (W : List ω) (signals : Nat) : Prop where
  removed : ∀ w ∈ W, ¬ Queued s.toSem w → woken s w = true
  count : W.countP (woken s) = min signals W.length

/-! ## What has happened to the waitees -/

/-- Of the waitees `W` of `s`, exactly those in `K` have been woken in `s'`, and `R` are queued. -/
structure Progress (s s' : State τ ω) (W K R : List ω) (C Q : List τ) : Prop where
  sound : Sound s' C Q R
  sub : R ⊆ W
  thread : s'.thread = s.thread
  running : ∀ w ∈ K, woken s' w = true
  blocked : ∀ w ∈ W, w ∉ K → ∃ t, s.thread w = some t ∧ (s'.kernel.thread t).state = .blocked

section Specs

variable {s s' : State τ ω} {C Q : List τ} {W K R : List ω} {w : ω} {t : τ} {n : Nat}

omit [DecidableEq τ] [DecidableEq ω] in
theorem progress_start (sound : Sound s C Q W) : Progress s s W [] W C Q where
  sound := sound
  sub := fun _ mem => mem
  thread := rfl
  running := by simp
  blocked := by
    intro w mem _
    obtain ⟨t, -, found, blocked⟩ := sound.waiting w mem
    exact ⟨t, found, blocked⟩

omit [DecidableEq τ] [DecidableEq ω] in
/-- The waitees that have been woken are those in `K`. -/
theorem Progress.woken_iff (progress : Progress s s' W K R C Q) (mem : w ∈ W) :
    woken s' w = true ↔ w ∈ K := by
  constructor
  · intro isWoken
    by_contra notMem
    obtain ⟨t, found, blocked⟩ := progress.blocked w mem notMem
    rw [← progress.thread] at found
    simp [woken, found, blocked] at isWoken
  · exact progress.running w

omit [DecidableEq ω] in
/-- Waking the thread of a waitee that is off the queue. -/
theorem Progress.wake {kernel : Kernel τ} {Q' : List τ} (progress : Progress s s' W K R C Q)
    (distinct : (W.map s.thread).Nodup) (mem : w ∈ W) (off : w ∉ R)
    (found : s.thread w = some t) (set : StateSet t .running s'.kernel kernel)
    (after : kernel.Sound C Q') :
    Progress s { s' with kernel } W (K ++ [w]) R C Q' := by
  have other : ∀ {v u}, v ∈ W → v ≠ w → s.thread v = some u → u ≠ t := by
    rintro v u memV ne recorded rfl
    exact ne (List.inj_on_of_nodup_map distinct memV mem (recorded.trans found.symm))
  constructor
  · refine ⟨after, progress.sound.queue, ?_, progress.sound.distinct, progress.sound.order,
      progress.sound.past⟩
    intro v memR
    obtain ⟨u, created, recorded, blocked⟩ := progress.sound.waiting v memR
    have ne : v ≠ w := fun same => off (same ▸ memR)
    refine ⟨u, created, recorded, ?_⟩
    rw [progress.thread] at recorded
    rw [set.state_of_ne (other (progress.sub memR) ne recorded)]
    exact blocked
  · exact progress.sub
  · exact progress.thread
  · intro v memK
    show woken _ v = true
    rcases List.mem_append.mp memK with memK | single
    · have running := progress.running v memK
      unfold woken at running ⊢
      cases recorded : s'.thread v with
      | none =>
          rw [recorded] at running
          cases running
      | some u =>
          rw [recorded] at running
          simp only
          by_cases same : u = t
          · rw [same, set.state_self]
            rfl
          · rw [set.state_of_ne same]
            exact running
    · rw [List.mem_singleton.mp single]
      simp [woken, progress.thread, found, set.state_self]
  · intro v memW notMem
    rw [List.mem_append, not_or, List.mem_singleton] at notMem
    obtain ⟨u, recorded, blocked⟩ := progress.blocked v memW notMem.1
    refine ⟨u, recorded, ?_⟩
    rw [set.state_of_ne (other memW notMem.2 recorded)]
    exact blocked

omit [DecidableEq τ] [DecidableEq ω] in
/-- Taking waitees off the queue without waking anyone. -/
theorem Progress.dequeue {s'' : State τ ω} {R' : List ω} (progress : Progress s s' W K R C Q)
    (kernel : s''.kernel = s'.kernel) (thread : s''.thread = s'.thread)
    (queuedAt : s''.queuedAt = s'.queuedAt) (calls : s'.calls ≤ s''.calls)
    (rest : R'.Sublist R) (queue : Represents s''.semaphore.queue R') :
    Progress s s'' W K R' C Q := by
  constructor
  · refine ⟨kernel ▸ progress.sound.kernel, queue, ?_, ?_, ?_, ?_⟩
    · intro v mem
      rw [kernel, thread]
      exact progress.sound.waiting v (rest.subset mem)
    · rw [thread]
      exact (rest.map _).nodup progress.sound.distinct
    · rw [queuedAt]
      exact progress.sound.order.sublist rest
    · intro v mem
      rw [queuedAt]
      exact Nat.lt_of_lt_of_le (progress.sound.past v (rest.subset mem)) calls
  · exact fun v mem => progress.sub (rest.subset mem)
  · exact thread.trans progress.thread
  · intro v mem
    have running := progress.running v mem
    rwa [woken, ← thread, ← kernel] at running
  · intro v mem notMem
    rw [kernel]
    exact progress.blocked v mem notMem

omit [DecidableEq τ] [DecidableEq ω] in
theorem Progress.head_off (progress : Progress s s' W K (w :: R) C Q) : w ∉ R :=
  (List.nodup_cons.mp progress.sound.queue.ring.nodup).1

/-- A call of `semaphore_signal` takes the first waitee off the queue and wakes it. -/
theorem Progress.signal (progress : Progress s s' W K R C Q) (distinct : (W.map s.thread).Nodup) :
    ∃ s'' Q', exec .signal s' = .ok s'' ∧
      Progress s s'' W (K ++ R.take 1) (R.drop 1) C Q' := by
  obtain ⟨sem, run, thread, effect⟩ := semaphoreSignal_spec progress.sound
  refine ⟨⟨sem, s'.calls + 1, s'.queuedAt⟩, ?_⟩
  have ran : exec .signal s' = .ok ⟨sem, s'.calls + 1, s'.queuedAt⟩ := by
    rw [exec, run]
    rfl
  cases R with
  | nil =>
      obtain ⟨kernel, queue⟩ := effect
      refine ⟨Q, ran, ?_⟩
      rw [List.take_nil, List.append_nil]
      exact progress.dequeue kernel thread rfl (Nat.le_succ _) (.refl _) queue
  | cons w R =>
      obtain ⟨queue, t, created, found, set, after⟩ := effect
      refine ⟨queueAfter t .running Q, ran, ?_⟩
      have taken : Progress s { s' with semaphore := sem.semaphore, calls := s'.calls + 1 } W K R
          C Q :=
        progress.dequeue rfl rfl rfl (Nat.le_succ _) (List.sublist_cons_self w R) queue
      have found' : s.thread w = some t := by
        rw [← progress.thread]
        exact found
      have woke := taken.wake distinct (progress.sub List.mem_cons_self) progress.head_off
        found' set after
      have same : (⟨sem, s'.calls + 1, s'.queuedAt⟩ : State τ ω) =
          { s' with kernel := sem.kernel, semaphore := sem.semaphore, calls := s'.calls + 1 } := by
        rw [← thread]
      rw [same]
      exact woke

/-- Calls from interrupt handlers wake the waitees in the order of the queue. -/
theorem Progress.interrupt (n : Nat) (progress : Progress s s' W K R C Q)
    (distinct : (W.map s.thread).Nodup) :
    ∃ s'' Q', interrupt n s' = .ok s'' ∧
      Progress s s'' W (K ++ R.take n) (R.drop n) C Q' := by
  induction n generalizing s' K R Q with
  | zero =>
      refine ⟨s', Q, rfl, ?_⟩
      rw [List.take_zero, List.append_nil, List.drop_zero]
      exact progress
  | succ n ih =>
      obtain ⟨s₁, Q₁, first, progress₁⟩ := progress.signal distinct
      obtain ⟨s₂, Q₂, rest, progress₂⟩ := ih progress₁
      refine ⟨s₂, Q₂, ?_, ?_⟩
      · rw [Semaphore.interrupt, first, Except.ok_bind, rest]
      · have split : (K ++ R.take 1) ++ (R.drop 1).take n = K ++ R.take (n + 1) := by
          rw [List.append_assoc, Nat.add_comm n 1, List.take_add]
        rw [split, List.drop_drop, Nat.add_comm 1 n] at progress₂
        exact progress₂

/-! ## The interrupted call -/

omit [DecidableEq τ] [DecidableEq ω] in
/-- Nothing is lost when the waitees were woken in the order of the queue. -/
theorem Progress.noneLost (progress : Progress s s' W K (W.drop n) C Q) (nodup : W.Nodup)
    (mem_iff : ∀ w, w ∈ K ↔ w ∈ W.take n) : NoneLost s' W n := by
  have woken_take : ∀ w ∈ W, woken s' w = true ↔ w ∈ W.take n := by
    intro w mem
    rw [progress.woken_iff mem, mem_iff]
  have split : W.take n ++ W.drop n = W := List.take_append_drop n W
  constructor
  · intro w mem off
    rw [queued_iff progress.sound] at off
    rw [woken_take w mem]
    rw [← split] at mem
    exact (List.mem_append.mp mem).resolve_right off
  · have apart := nodup
    rw [← split, List.nodup_append] at apart
    have taken : (W.take n).countP (woken s') = (W.take n).length := by
      rw [List.countP_eq_length]
      exact fun w mem => (woken_take w (List.mem_of_mem_take mem)).mpr mem
    have left : (W.drop n).countP (woken s') = 0 := by
      rw [List.countP_eq_zero]
      intro w mem isWoken
      rw [woken_take w (List.mem_of_mem_drop mem)] at isWoken
      exact apart.2.2 w isWoken w mem rfl
    calc W.countP (woken s') = (W.take n ++ W.drop n).countP (woken s') := by rw [split]
      _ = min n W.length := by
        rw [List.countP_append, taken, left, Nat.add_zero, List.length_take]

/-- The first half of the call: up to the test of the waitee, the waitees are woken in order, and
the waitee is the one behind those woken before the first read. -/
theorem signalInterrupted_read (irqs : Point → Nat) (sound : Sound s C Q W) :
    ∃ s₁ Q₁, Progress s s₁ W (W.take (irqs .increment + irqs .read + irqs .test))
        (W.drop (irqs .increment + irqs .read + irqs .test)) C Q₁ ∧
      semaphoreSignalInterrupted irqs s =
        match (W.drop (irqs .increment + irqs .read)).head? with
        | some waitee => do
            let s ← interrupt (irqs .delete) s₁
            let entry ← deref (listFirst s.semaphore.queue)
            let s := { s with semaphore.queue := listDelete s.semaphore.queue entry }
            let s ← interrupt (irqs .wakeup) s
            let thread ← deref (s.thread waitee)
            let kernel ← threadWakeup thread s.kernel
            interrupt (irqs .returned) { s with kernel }
        | none => interrupt (irqs .delete + irqs .wakeup + irqs .returned) s₁ := by
  have distinct := sound.distinct
  obtain ⟨s₁, Q₁, first, progress₁⟩ :=
    (progress_start sound).interrupt (irqs .increment) distinct
  have counted : Progress s { s₁ with semaphore.value := s₁.semaphore.value + 1 } W _ _ C Q₁ :=
    progress₁.dequeue rfl rfl rfl (Nat.le_refl _) (.refl _) progress₁.sound.queue
  obtain ⟨s₂, Q₂, second, progress₂⟩ := counted.interrupt (irqs .read) distinct
  obtain ⟨s₃, Q₃, third, progress₃⟩ := progress₂.interrupt (irqs .test) distinct
  have head : listFirst s₂.semaphore.queue = (W.drop (irqs .increment + irqs .read)).head? := by
    rw [listFirst_eq progress₂.sound.queue, List.drop_drop]
  refine ⟨s₃, Q₃, ?_, ?_⟩
  · rw [List.nil_append, ← List.take_add, List.drop_drop, ← List.take_add, List.drop_drop]
      at progress₃
    exact progress₃
  · rw [semaphoreSignalInterrupted, first, Except.ok_bind]
    simp only [second, Except.ok_bind, third, head]

/-- The second half of the call: the entry `v` that is now at the head of the queue is deleted, and
the waitee `w` is woken. -/
theorem Progress.finish (irqs : Point → Nat) {v : ω} (progress : Progress s s' W K (v :: R) C Q)
    (distinct : (W.map s.thread).Nodup) (mem : w ∈ W) (off : w ∉ R)
    (found : s.thread w = some t) (created : t ∈ C) :
    ∃ s₃ Q₃, (do
        let entry ← deref (listFirst s'.semaphore.queue)
        let s := { s' with semaphore.queue := listDelete s'.semaphore.queue entry }
        let s ← Semaphore.interrupt (irqs .wakeup) s
        let thread ← deref (s.thread w)
        let kernel ← threadWakeup thread s.kernel
        Semaphore.interrupt (irqs .returned) { s with kernel }) = .ok s₃ ∧
      Progress s s₃ W
        (K ++ R.take (irqs .wakeup) ++ [w] ++ (R.drop (irqs .wakeup)).take (irqs .returned))
        ((R.drop (irqs .wakeup)).drop (irqs .returned)) C Q₃ := by
  have deleted := listDelete_represents progress.sound.queue (e := v) List.mem_cons_self
  rw [List.erase_cons_head] at deleted
  have taken : Progress s
      { s' with semaphore.queue := listDelete s'.semaphore.queue v } W K R C Q :=
    progress.dequeue rfl rfl rfl (Nat.le_refl _) (List.sublist_cons_self v R) deleted
  obtain ⟨s₁, Q₁, first, progress₁⟩ := taken.interrupt (irqs .wakeup) distinct
  obtain ⟨kernel, wakes, set, after⟩ :=
    threadSetState_spec (s := .running) progress₁.sound.kernel created
  have woke := progress₁.wake distinct mem (fun inside => off (List.mem_of_mem_drop inside))
    found set after
  obtain ⟨s₃, Q₃, last, progress₃⟩ := woke.interrupt (irqs .returned) distinct
  refine ⟨s₃, Q₃, ?_, progress₃⟩
  have head : listFirst s'.semaphore.queue = some v := listFirst_eq progress.sound.queue
  have recorded : s₁.thread w = some t := by
    rw [progress₁.thread]
    exact found
  rw [head, deref_some, Except.ok_bind]
  simp only [first, Except.ok_bind, recorded, deref_some, threadWakeup, wakes, last]

/-- When nobody is left at the first read, everybody has been woken. -/
theorem noneLost_of_few (irqs : Point → Nat) (sound : Sound s C Q W)
    (few : W.length ≤ irqs .increment + irqs .read) :
    ∃ s', semaphoreSignalInterrupted irqs s = .ok s' ∧ NoneLost s' W (interrupts irqs + 1) := by
  obtain ⟨s₁, Q₁, progress₁, run⟩ := signalInterrupted_read irqs sound
  rw [List.drop_eq_nil_of_le few, List.head?_nil] at run
  obtain ⟨s', Q', rest, progress⟩ := progress₁.interrupt
    (irqs .delete + irqs .wakeup + irqs .returned) sound.distinct
  have total : irqs .increment + irqs .read + irqs .test +
      (irqs .delete + irqs .wakeup + irqs .returned) = interrupts irqs := by
    unfold interrupts
    omega
  have enough : W.length ≤ interrupts irqs := by omega
  rw [← List.take_add, List.drop_drop, total, List.take_of_length_le enough,
    List.drop_eq_nil_of_le enough, ← List.drop_eq_nil_of_le (Nat.le_succ_of_le enough)] at progress
  refine ⟨s', run.trans rest, progress.noneLost sound.queue.ring.nodup ?_⟩
  intro w
  rw [List.take_of_length_le (Nat.le_succ_of_le enough)]

/-- When no handler runs between the two reads, they give the same waitee. -/
theorem noneLost_of_undisturbed (irqs : Point → Nat) (sound : Sound s C Q W)
    (rest : W.drop (irqs .increment + irqs .read) = w :: R) (test : irqs .test = 0)
    (delete : irqs .delete = 0) :
    ∃ s', semaphoreSignalInterrupted irqs s = .ok s' ∧ NoneLost s' W (interrupts irqs + 1) := by
  obtain ⟨s₁, Q₁, progress₁, run⟩ := signalInterrupted_read irqs sound
  rw [test, Nat.add_zero, rest] at progress₁
  rw [rest, List.head?_cons] at run
  simp only [delete, interrupt, Except.ok_bind] at run
  have mem : w ∈ W := progress₁.sub List.mem_cons_self
  obtain ⟨t, created, found, -⟩ := sound.waiting w mem
  obtain ⟨s', Q', ends, progress⟩ :=
    progress₁.finish irqs sound.distinct mem progress₁.head_off found created
  have total : interrupts irqs + 1 =
      irqs .increment + irqs .read + ((irqs .wakeup + irqs .returned) + 1) := by
    unfold interrupts
    omega
  have left : (R.drop (irqs .wakeup)).drop (irqs .returned) = W.drop (interrupts irqs + 1) := by
    rw [total, ← List.drop_drop, rest, List.drop_succ_cons, List.drop_drop]
  have woke : W.take (interrupts irqs + 1) = W.take (irqs .increment + irqs .read) ++
      w :: (R.take (irqs .wakeup) ++ (R.drop (irqs .wakeup)).take (irqs .returned)) := by
    generalize irqs .increment + irqs .read = before at rest total
    rw [total, List.take_add, rest, List.take_succ_cons, List.take_add]
  rw [left] at progress
  refine ⟨s', run.trans ends, progress.noneLost sound.queue.ring.nodup ?_⟩
  intro v
  rw [woke]
  simp only [List.mem_append, List.mem_cons, List.not_mem_nil]
  tauto

/-- When a handler takes the waitee between the two reads, the deleted entry is never woken. -/
theorem not_noneLost_of_disturbed (irqs : Point → Nat) (sound : Sound s C Q W)
    (rest : W.drop (irqs .increment + irqs .read) = w :: R)
    (disturbed : 0 < irqs .test + irqs .delete)
    (run : semaphoreSignalInterrupted irqs s = .ok s') (m : Nat) : ¬ NoneLost s' W m := by
  obtain ⟨s₁, Q₁, progress₁, begins⟩ := signalInterrupted_read irqs sound
  rw [rest, List.head?_cons] at begins
  obtain ⟨s₂, Q₂, deletes, progress₂⟩ := progress₁.interrupt (irqs .delete) sound.distinct
  rw [← List.take_add, List.drop_drop, Nat.add_assoc _ (irqs .test)] at progress₂
  rw [run] at begins
  simp only [deletes, Except.ok_bind] at begins
  obtain ⟨m', split⟩ : ∃ m', irqs .test + irqs .delete = m' + 1 :=
    Nat.exists_eq_succ_of_ne_zero (Nat.ne_of_gt disturbed)
  -- `w` has been woken by a handler
  have memK : w ∈ W.take (irqs .increment + irqs .read + (irqs .test + irqs .delete)) := by
    rw [List.take_add, rest, split, List.take_succ_cons]
    simp
  have mem : w ∈ W := List.mem_of_mem_take memK
  obtain ⟨t, created, found, -⟩ := sound.waiting w mem
  generalize irqs .increment + irqs .read + (irqs .test + irqs .delete) = taken at progress₂ memK
  cases left : W.drop taken with
  | nil =>
      rw [left] at progress₂
      have empty : listFirst s₂.semaphore.queue = none := listFirst_eq progress₂.sound.queue
      rw [empty] at begins
      cases begins
  | cons v R₂ =>
      have nodup := sound.queue.ring.nodup
      rw [← List.take_append_drop taken W, left, List.nodup_append, List.nodup_cons] at nodup
      obtain ⟨-, ⟨notMem, -⟩, apart⟩ := nodup
      rw [left] at progress₂
      have memV : v ∈ W := progress₂.sub List.mem_cons_self
      have off : w ∉ R₂ := fun inside => apart w memK w (List.mem_cons_of_mem v inside) rfl
      obtain ⟨s₃, Q₃, ends, progress⟩ :=
        progress₂.finish irqs sound.distinct mem off found created
      obtain rfl : s' = s₃ := Except.ok.inj (begins.trans ends)
      intro noneLost
      have isWoken := noneLost.removed v memV (by
        rw [queued_iff progress.sound]
        exact fun inside => notMem (List.mem_of_mem_drop (List.mem_of_mem_drop inside)))
      rw [progress.woken_iff memV] at isWoken
      simp only [List.mem_append, List.mem_singleton] at isWoken
      rcases isWoken with ((inside | inside) | same) | inside
      · exact apart v inside v List.mem_cons_self rfl
      · exact notMem (List.mem_of_mem_take inside)
      · exact apart w memK v List.mem_cons_self same.symm
      · exact notMem (List.mem_of_mem_drop (List.mem_of_mem_take inside))

/-- **No waiter is lost**, whatever calls of `semaphore_signal` interrupt one, if and only if no
handler runs between the two reads of the queue, or nobody is left when they come. -/
theorem signalInterrupted_noneLost_iff (s : State τ ω) (reach : Reachable s) (W : List ω)
    (queue : Represents s.semaphore.queue W) (irqs : Point → Nat) :
    (∃ s', semaphoreSignalInterrupted irqs s = .ok s' ∧ NoneLost s' W (interrupts irqs + 1)) ↔
      irqs .test + irqs .delete = 0 ∨ W.length ≤ irqs .increment + irqs .read := by
  obtain ⟨C, Q, W', sound⟩ := reach.sound
  obtain rfl := sound.queue.unique queue
  by_cases few : W'.length ≤ irqs .increment + irqs .read
  · exact iff_of_true (noneLost_of_few irqs sound few) (.inr few)
  · obtain ⟨w, R, rest⟩ : ∃ w R, W'.drop (irqs .increment + irqs .read) = w :: R := by
      apply List.exists_cons_of_ne_nil
      rwa [Ne, List.drop_eq_nil_iff]
    by_cases undisturbed : irqs .test + irqs .delete = 0
    · obtain ⟨test, delete⟩ := Nat.add_eq_zero_iff.mp undisturbed
      exact iff_of_true (noneLost_of_undisturbed irqs sound rest test delete) (.inl undisturbed)
    · apply iff_of_false
      · rintro ⟨s', run, noneLost⟩
        exact not_noneLost_of_disturbed irqs sound rest (Nat.pos_of_ne_zero undisturbed) run _
          noneLost
      · exact fun holds => holds.elim undisturbed few

end Specs

/-! ## Interrupts with two waiting threads -/

/-- A handler that runs at one point only. -/
def irqsAt (point : Point) (n : Nat) : Point → Nat := fun p => if p = point then n else 0

/-- A handler runs between the deletion and the wakeup, and both threads are woken. -/
theorem signalInterrupted_noneLost_two :
    ∃ s', semaphoreSignalInterrupted (irqsAt .wakeup 1) twoWaiting = .ok s' ∧
      NoneLost s' [0, 1] 2 :=
  (signalInterrupted_noneLost_iff twoWaiting twoWaiting_reachable [0, 1] twoWaiting_queue
    (irqsAt .wakeup 1)).mpr (.inl rfl)

/-- A handler runs between the two reads: the main thread is woken twice, and the other waiter is
taken off the queue and stays blocked. When the handler signals twice, the entry is `NULL`. -/
theorem waiter_lost :
    Reachable twoWaiting ∧ Represents twoWaiting.semaphore.queue [0, 1] ∧
      ¬ (∃ s', semaphoreSignalInterrupted (irqsAt .delete 1) twoWaiting = .ok s' ∧
        NoneLost s' [0, 1] 2) ∧
      (∃ s', semaphoreSignalInterrupted (irqsAt .delete 1) twoWaiting = .ok s' ∧
        ¬ Queued s'.toSem 1 ∧ woken s' 1 = false) ∧
      ((semaphoreSignalInterrupted (irqsAt .delete 2) twoWaiting).map fun _ => ()) =
        .error .nullDeref := by
  have trace : ((semaphoreSignalInterrupted (irqsAt .delete 1) twoWaiting).map
      fun s' => (woken s' 1, s'.semaphore.queue.next 1)) = .ok (false, none) := by
    decide +kernel
  have faults : ((semaphoreSignalInterrupted (irqsAt .delete 2) twoWaiting).map fun _ => ()) =
      .error .nullDeref := by
    decide +kernel
  cases run : semaphoreSignalInterrupted (irqsAt .delete 1) twoWaiting with
  | error fault =>
      rw [run] at trace
      cases trace
  | ok s' =>
      rw [run] at trace
      obtain ⟨blocked, unlinked⟩ := Prod.mk.inj (Except.ok.inj trace)
      have off : ¬ Queued s'.toSem 1 := not_queued_of_unlinked unlinked
      refine ⟨twoWaiting_reachable, twoWaiting_queue, ?_, ⟨s', rfl, off, blocked⟩, faults⟩
      rintro ⟨s'', same, noneLost⟩
      cases same
      have isWoken := noneLost.removed 1 (by simp) off
      rw [blocked] at isWoken
      cases isWoken

end TheFirmware.Semaphore
