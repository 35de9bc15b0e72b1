import TheFirmware.Core.SchedulerRun

/-!
# The order in which threads are selected

`schedule` rotates the running queue before it takes its first thread, so that the thread that has
just run goes to the back. When that thread has blocked in between, `list_delete` has taken it off
the front already, and the rotation sends the thread that is next to the back instead: it is
skipped, and may be skipped again (`thread_bypassed`).

As long as every `schedule` finds the current thread at the head of the queue, or no second thread
to skip (`SkipsNobody`), the selection is round-robin (`selected_between`).
-/

namespace TheFirmware.Scheduler

variable {τ : Type} [DecidableEq τ]

/-- `Steps ok k tr k'`: the calls in `tr`, each with the kernel it leaves, lead from `k` to `k'`,
and each satisfies `ok`. -/
inductive Steps (ok : Kernel τ → Op τ → Prop) : Kernel τ → List (Op τ × Kernel τ) → Kernel τ → Prop
  | nil (k : Kernel τ) : Steps ok k [] k
  | cons {k k₁ k' : Kernel τ} {op : Op τ} {tr : List (Op τ × Kernel τ)} (legal : Legal k op)
      (allowed : ok k op) (run : exec op k = .ok k₁) (rest : Steps ok k₁ tr k') :
      Steps ok k ((op, k₁) :: tr) k'

def Op.isSchedule : Op τ → Bool
  | .schedule _ => true
  | _ => false

/-- The step is a call of `schedule` that selects the thread. -/
def Selects (step : Op τ × Kernel τ) (t : τ) : Prop :=
  step.1.isSchedule = true ∧ step.2.currentThread = some t

instance (step : Op τ × Kernel τ) (t : τ) : Decidable (Selects step t) :=
  inferInstanceAs (Decidable (_ ∧ _))

/-- A call of `schedule` finds the current thread at the head of the running queue, or at most one
thread on it. -/
def SkipsNobody (k : Kernel τ) : Op τ → Prop
  | .schedule _ => k.runningQueue.head = k.currentThread ∨
      ∀ t, k.runningQueue.head = some t → k.runningQueue.next t = some t
  | _ => True

/-- Between two selections of a thread, every other thread that is running all the time is
selected, in the runs whose calls from the first selection on satisfy `ok`. -/
def WithoutBypass (τ : Type) [DecidableEq τ] (ok : Kernel τ → Op τ → Prop) : Prop :=
  ∀ (k k₁ k₂ : Kernel τ) (first last : Word) (tr : List (Op τ × Kernel τ)) (a b : τ),
    Reachable (fun _ _ => True) k →
    exec (.schedule first) k = .ok k₁ → k₁.currentThread = some b →
    Steps ok k₁ (tr ++ [(.schedule last, k₂)]) k₂ → k₂.currentThread = some b →
    (∀ step ∈ tr, ¬ Selects step b) → a ≠ b →
    IsThread k₁ a → (k₁.thread a).state = .running →
    (∀ step ∈ tr ++ [(.schedule last, k₂)], (step.2.thread a).state = .running) →
    ∃ step ∈ tr, Selects step a

/-! ## The invariant -/

/-- `a` is on the queue, and `b` is not between the first thread and `a`. -/
def Ahead (a b : τ) (Q : List τ) : Prop := ∃ P S, Q = P ++ a :: S ∧ b ∉ P.tail

section Invariant

variable {k k' : Kernel τ} {C Q : List τ} {a b t : τ} {op : Op τ}

omit [DecidableEq τ] in
theorem Ahead.mem (ahead : Ahead a b Q) : a ∈ Q := by
  obtain ⟨P, S, rfl, -⟩ := ahead
  simp

omit [DecidableEq τ] in
theorem Ahead.append (ahead : Ahead a b Q) : Ahead a b (Q ++ [t]) := by
  obtain ⟨P, S, rfl, notMem⟩ := ahead
  exact ⟨P, S ++ [t], by simp, notMem⟩

theorem Ahead.erase (ahead : Ahead a b Q) (ne : a ≠ t) : Ahead a b (Q.erase t) := by
  obtain ⟨P, S, rfl, notMem⟩ := ahead
  by_cases mem : t ∈ P
  · refine ⟨P.erase t, S, List.erase_append_left _ mem, ?_⟩
    cases P with
    | nil => cases mem
    | cons x P =>
        rw [List.tail_cons] at notMem
        rw [List.erase_cons]
        split
        · exact fun memB => notMem (List.mem_of_mem_tail memB)
        · exact fun memB => notMem (List.mem_of_mem_erase memB)
  · refine ⟨P, S.erase t, ?_, notMem⟩
    rw [List.erase_append_right _ mem, List.erase_cons_tail (by simpa using ne)]

/-- Changing the state of a thread keeps the order, as long as `a` stays running. -/
theorem Ahead.queueAfter {s : ThreadState} (ahead : Ahead a b Q) (nodup : Q.Nodup)
    (stays : a ∈ queueAfter t s Q) : Ahead a b (queueAfter t s Q) := by
  rw [mem_queueAfter nodup] at stays
  unfold TheFirmware.queueAfter
  split
  · split
    · exact ahead
    · exact ahead.append
  · apply ahead.erase
    rintro rfl
    rw [if_pos rfl] at stays
    contradiction

omit [DecidableEq τ] in
/-- A `schedule` that skips nobody selects `a` itself, or a thread in front of it other than
`b`. -/
theorem Ahead.rotate (ahead : Ahead a b Q) (queue : Represents k.runningQueue Q)
    (other : k.currentThread ≠ some a) {stack : Word}
    (skips : SkipsNobody k (.schedule stack)) :
    (Q.rotate 1).head? = some a ∨
      ∃ c, (Q.rotate 1).head? = some c ∧ c ≠ a ∧ c ≠ b ∧ Ahead a b (Q.rotate 1) := by
  obtain ⟨P, S, rfl, notMem⟩ := ahead
  have nodup := queue.ring.nodup
  match P with
  | [] =>
      -- `a` is the head and not the current thread, so it is alone
      have head : k.runningQueue.head = some a := queue.head
      rcases skips with current | alone
      · exact absurd (current.symm.trans head) other
      · have next : k.runningQueue.next a = (S ++ [a]).head? := queue.ring.next_head
        rw [alone a head] at next
        cases S with
        | nil => exact .inl (by simp)
        | cons c S =>
            cases next
            simp at nodup
  | [x] =>
      left
      simp
  | x :: y :: P =>
      right
      have neA : y ≠ a := by
        rintro rfl
        simp at nodup
      have neB : y ≠ b := by
        rintro rfl
        simp at notMem
      refine ⟨y, by simp, neA, neB, y :: P, S ++ [x], by simp, ?_⟩
      exact fun memB => notMem (List.mem_cons_of_mem y memB)

/-- One call: either it selects `a`, or it leaves `a` ahead of `b` and does not select `b`. -/
theorem Ahead.exec (ahead : Ahead a b Q) (other : k.currentThread ≠ some a) (sound : k.Sound C Q)
    (legal : Legal k op) (skips : SkipsNobody k op) (run : Scheduler.exec op k = .ok k')
    (stays : (k'.thread a).state = .running) :
    Selects (op, k') a ∨
      Ahead a b (opQueue k Q op) ∧ k'.currentThread ≠ some a ∧ ¬ Selects (op, k') b := by
  obtain ⟨after, current, -⟩ := exec_inv sound legal run
  have nodup := sound.queue.ring.nodup
  have memC := ((sound.running a).mp ahead.mem).1
  have queued : a ∈ opCreated C op → a ∈ opQueue k Q op := fun created =>
    (after.running a).mpr ⟨created, stays⟩
  cases op with
  | create storage name stackSize stack block =>
      exact .inr ⟨ahead, by rwa [current], fun selects => absurd selects.1 Bool.false_ne_true⟩
  | structInit t name stackSize stack block =>
      exact .inr ⟨ahead, by rwa [current], fun selects => absurd selects.1 Bool.false_ne_true⟩
  | setIdleThread t =>
      exact .inr ⟨ahead, by rwa [current], fun selects => absurd selects.1 Bool.false_ne_true⟩
  | wakeup t =>
      exact .inr ⟨ahead.queueAfter nodup (queued memC), by rwa [current],
        fun selects => absurd selects.1 Bool.false_ne_true⟩
  | stop t =>
      exact .inr ⟨ahead.queueAfter nodup (queued memC), by rwa [current],
        fun selects => absurd selects.1 Bool.false_ne_true⟩
  | block =>
      refine .inr ⟨?_, by rwa [current], fun selects => absurd selects.1 Bool.false_ne_true⟩
      have memQ := queued memC
      rw [opQueue] at memQ ⊢
      split
      · next running =>
          rw [running] at memQ
          exact ahead.queueAfter nodup memQ
      · exact ahead
  | schedule stack =>
      have nonempty : Q ≠ [] := List.ne_nil_of_mem ahead.mem
      rw [opCurrent, if_neg nonempty] at current
      rcases ahead.rotate sound.queue other skips with selected | ⟨c, selected, neA, neB, rotated⟩
      · exact .inl ⟨rfl, current.trans selected⟩
      · rw [selected] at current
        refine .inr ⟨rotated, ?_, ?_⟩
        · rw [current]
          simpa using neA
        · rintro ⟨-, again⟩
          have again : k'.currentThread = some b := again
          rw [current] at again
          exact neB (Option.some.inj again)

/-- A run in which `a` is not selected does not select `b` either. -/
theorem Steps.selects {tr : List (Op τ × Kernel τ)} (steps : Steps SkipsNobody k tr k')
    (sound : k.Sound C Q) (ahead : Ahead a b Q) (other : k.currentThread ≠ some a)
    (stays : ∀ step ∈ tr, (step.2.thread a).state = .running) :
    (∃ step ∈ tr, Selects step a) ∨ ∀ step ∈ tr, ¬ Selects step b := by
  induction steps generalizing C Q with
  | nil k => exact .inr (by simp)
  | cons legal skips run rest ih =>
      rcases ahead.exec other sound legal skips run (stays _ List.mem_cons_self) with
        selects | ⟨ahead', other', notB⟩
      · exact .inl ⟨_, List.mem_cons_self, selects⟩
      · have stays' := fun step mem => stays step (List.mem_cons_of_mem _ mem)
        rcases ih (exec_inv sound legal run).1 ahead' other' stays' with
          ⟨step, mem, selects⟩ | notLater
        · exact .inl ⟨step, List.mem_cons_of_mem _ mem, selects⟩
        · right
          intro step mem
          rcases List.mem_cons.mp mem with rfl | later
          · exact notB
          · exact notLater step later

/-- **Round-robin without bypass**, in every run in which no `schedule` between the two selections
skips a thread. -/
theorem selected_between : WithoutBypass τ SkipsNobody := by
  intro k k₁ k₂ first last tr a b reach scheduled selected steps again _ ne created running stays
  obtain ⟨C, Q, sound⟩ := reach.sound
  have legal : Legal k (.schedule first) := trivial
  obtain ⟨after, current, -⟩ := exec_inv sound legal scheduled
  rw [opQueue] at after
  have queued : a ∈ Q.rotate 1 :=
    (after.running a).mpr ⟨(isThread_iff after.queues).mp created, running⟩
  have nonempty : Q ≠ [] := by
    rintro rfl
    simp at queued
  rw [opCurrent, if_neg nonempty, selected] at current
  obtain ⟨T, split⟩ : ∃ T, Q.rotate 1 = b :: T := by
    cases rotated : Q.rotate 1 with
    | nil => simp [rotated] at queued
    | cons c T =>
        rw [rotated] at current
        cases current
        exact ⟨T, rfl⟩
  have ahead : Ahead a b (Q.rotate 1) := by
    rw [split] at queued ⊢
    obtain ⟨P, S, rfl⟩ := List.append_of_mem (List.mem_of_ne_of_mem ne queued)
    refine ⟨b :: P, S, rfl, fun memP => ?_⟩
    have nodup := after.queue.ring.nodup
    rw [split, List.nodup_cons] at nodup
    exact nodup.1 (List.mem_append_left _ memP)
  have other : k₁.currentThread ≠ some a := by
    rw [selected]
    simpa using ne.symm
  rcases steps.selects after ahead other stays with ⟨step, mem, selects⟩ | never
  · rcases List.mem_append.mp mem with mem | mem
    · exact ⟨step, mem, selects⟩
    · rw [List.mem_singleton.mp mem] at selects
      have same : k₂.currentThread = some a := selects.2
      rw [again] at same
      exact absurd (Option.some.inj same).symm ne
  · exact absurd ⟨rfl, again⟩ (never (.schedule last, k₂) (by simp))

end Invariant

/-! ## Concrete runs -/

def traceD : List (Op τ) → Kernel τ → List (Op τ × Kernel τ)
  | [], _ => []
  | op :: ops, k => (op, execD op k) :: traceD ops (execD op k)

instance (k : Kernel τ) : (op : Op τ) → Decidable (SkipsNobody k op)
  | .schedule _ => inferInstanceAs (Decidable (_ ∨ ∀ t ∈ k.runningQueue.head, _))
  | .create _ _ _ _ _ => inferInstanceAs (Decidable True)
  | .structInit _ _ _ _ _ => inferInstanceAs (Decidable True)
  | .setIdleThread _ => inferInstanceAs (Decidable True)
  | .wakeup _ => inferInstanceAs (Decidable True)
  | .stop _ => inferInstanceAs (Decidable True)
  | .block => inferInstanceAs (Decidable True)

section Concrete

variable {ok : Kernel τ → Op τ → Prop} {k k' : Kernel τ} {C Q : List τ}

theorem Runs.steps {ops : List (Op τ)} (runs : Runs ok ops C k) (sound : k.Sound C Q) :
    Steps ok k (traceD ops k) (runD ops k) := by
  induction ops generalizing k C Q with
  | nil => exact .nil k
  | cons op ops ih =>
      obtain ⟨legal, allowed, returns, rest⟩ := runs
      have run := exec_eq_execD returns
      exact .cons (legal.legal sound) allowed run
        (ih rest (exec_inv sound (legal.legal sound) run).1)

theorem Reachable.steps {tr : List (Op τ × Kernel τ)} (reach : Reachable ok k)
    (steps : Steps ok k tr k') : Reachable ok k' := by
  induction steps with
  | nil k => exact reach
  | cons legal allowed run rest ih => exact ih (reach.step legal allowed run)

end Concrete

theorem traceD_concat (ops : List (Op τ)) (op : Op τ) (k : Kernel τ) :
    traceD (ops ++ [op]) k = traceD ops k ++ [(op, runD (ops ++ [op]) k)] := by
  induction ops generalizing k with
  | nil => rfl
  | cons first ops ih => exact congrArg (_ :: ·) (ih (execD first k))

/-- What `WithoutBypass` says of the run that makes the calls `setup` after `scheduler_init`, lets
`schedule` select `b`, makes the calls `calls`, and lets `schedule` select `b` again. -/
theorem WithoutBypass.concrete {ok : Kernel Nat → Op Nat → Prop} {a b : Nat}
    (setup calls : List (Op Nat)) (holds : WithoutBypass Nat ok)
    (prepared : Runs (fun _ _ => True) setup [1] bootKernel)
    (first : (exec (.schedule 64) (runD setup bootKernel)).isOk = true)
    (selected : (execD (.schedule 64) (runD setup bootKernel)).currentThread = some b)
    (runs : Runs ok (calls ++ [.schedule 64]) (setup.foldl opCreated [1])
      (execD (.schedule 64) (runD setup bootKernel)))
    (again : (runD (calls ++ [.schedule 64])
      (execD (.schedule 64) (runD setup bootKernel))).currentThread = some b)
    (others : ∀ step ∈ traceD calls (execD (.schedule 64) (runD setup bootKernel)),
      ¬ Selects step b)
    (ne : a ≠ b) (created : a ∈ setup.foldl opCreated [1])
    (running : ((execD (.schedule 64) (runD setup bootKernel)).thread a).state = .running)
    (stays : ∀ step ∈ traceD (calls ++ [.schedule 64])
      (execD (.schedule 64) (runD setup bootKernel)), (step.2.thread a).state = .running) :
    ∃ step ∈ traceD calls (execD (.schedule 64) (runD setup bootKernel)), Selects step a := by
  obtain ⟨Q, sound⟩ := bootKernel_sound
  have reach := bootKernel_reachable.steps (prepared.steps sound)
  obtain ⟨Q', before⟩ := prepared.sound sound
  have legal : Legal (runD setup bootKernel) (.schedule 64) := trivial
  have run := exec_eq_execD first
  have after := (exec_inv before legal run).1
  have steps := runs.steps after
  rw [traceD_concat] at steps stays
  exact holds _ _ _ 64 64 _ a b reach run selected steps again others ne
    ((isThread_iff after.queues).mpr created) running stays

/-- A second thread is created and woken. -/
def turnSetup : List (Op Nat) := [.create (some 2) "second" 0 64 0, .wakeup 2]

/-- Two threads that do not block take turns. -/
theorem selected_between_turns :
    ∃ step ∈ traceD [.schedule 64] (execD (.schedule 64) (runD turnSetup bootKernel)),
      Selects step 1 := by
  apply WithoutBypass.concrete (a := 1) (b := 2) turnSetup [.schedule 64] selected_between
  all_goals decide +kernel

/-- Threads 2 and 3 are created and woken, and the main thread, 1, blocks. -/
def bypassSetup : List (Op Nat) :=
  [.create (some 2) "second" 0 64 0, .create (some 3) "third" 0 64 0, .wakeup 2, .wakeup 3, .block]

/-- Thread 3 has been selected. It wakes the main thread and blocks, and then the main thread wakes
it and blocks. -/
def bypassCalls : List (Op Nat) := [.wakeup 1, .block, .schedule 64, .wakeup 3, .block]

/-- Thread 3 is selected twice, and thread 2, which is running all the time, is not selected in
between: both times it is at the head of the queue after the current thread has blocked. -/
theorem thread_bypassed : ¬ WithoutBypass Nat (fun _ _ => True) := by
  intro claim
  have selects : ∃ step ∈ traceD bypassCalls (execD (.schedule 64) (runD bypassSetup bootKernel)),
      Selects step 2 := by
    apply claim.concrete (a := 2) (b := 3) bypassSetup bypassCalls
    all_goals decide +kernel
  exact absurd selects (by decide +kernel)

end TheFirmware.Scheduler
