import TheFirmware.Core.Semaphore

/-!
# Counting of a semaphore

The value of a semaphore is an `int8_t`. After `w` calls of `semaphore_wait` and `g` calls of
`semaphore_signal` it is the balance `initial_value + g - w`, reduced to eight bits. A call of
`semaphore_wait` should block exactly when the balance is not positive; it looks at the sign of the
reduced value instead, and the two agree only on every other stretch of 128 balances (`Counts`).
-/

namespace TheFirmware.Semaphore

variable {τ ω : Type} [DecidableEq τ] [DecidableEq ω]

/-- The call is one of `semaphore_wait`. -/
def Call.isWait : Call τ ω → Bool
  | .wait _ => true
  | _ => false

/-- The call is one of `semaphore_signal`. -/
def Call.isSignal : Call τ ω → Bool
  | .signal => true
  | _ => false

/-- The calls lead from `semaphore_init(semaphore, initial_value)` to the state. -/
inductive Run (initialValue : Int8) : List (Call τ ω) → State τ ω → Prop
  | init {s : Sem τ ω} (queuedAt : ω → Nat)
      (kernel : Scheduler.Reachable (fun _ _ => True) s.kernel) :
      Run initialValue [] ⟨semaphoreInit initialValue s, 0, queuedAt⟩
  | step {calls : List (Call τ ω)} {s s' : State τ ω} {call : Call τ ω}
      (before : Run initialValue calls s) (legal : Legal s.toSem call)
      (run : exec call s = .ok s') : Run initialValue (calls ++ [call]) s'

/-- What the semaphore would hold after the calls if its value had no bounds. -/
def balance (initialValue : Int8) (calls : List (Call τ ω)) : Int :=
  initialValue.toInt + calls.countP Call.isSignal - calls.countP Call.isWait

/-- The eight bits of a count one below the balance have the sign of that count. -/
def Counts (balance : Int) : Prop := 1 ≤ balance ↔ (balance - 1) % 256 < 128

instance (balance : Int) : Decidable (Counts balance) := inferInstanceAs (Decidable (_ ↔ _))

section Specs

variable {v : Int8} {calls : List (Call τ ω)} {s s' : State τ ω} {C Q : List τ} {W : List ω}
  {w : ω} {t : τ}

theorem Run.reachable (run : Run v calls s) : Reachable s := by
  induction run with
  | init queuedAt kernel => exact .init v queuedAt kernel
  | step _ legal ran ih => exact .step ih legal ran

omit [DecidableEq τ] [DecidableEq ω] in
theorem balance_append (call : Call τ ω) :
    balance v (calls ++ [call]) =
      balance v calls + (if call.isSignal then 1 else 0) - (if call.isWait then 1 else 0) := by
  simp only [balance, List.countP_append, List.countP_singleton]
  split <;> split <;> omega

/-- A call of `semaphore_signal` adds one to the value, one of `semaphore_wait` takes one off. -/
theorem exec_value {call : Call τ ω} (run : exec call s = .ok s') :
    s'.semaphore.value = s.semaphore.value + (if call.isSignal then 1 else 0) -
      (if call.isWait then 1 else 0) := by
  cases call with
  | wait waitee =>
      rw [exec, Except.bind_eq_ok] at run
      obtain ⟨sem, waited, run⟩ := run
      cases run
      simp only [semaphoreWait] at waited
      split at waited
      · cases waited
        simp [Call.isSignal, Call.isWait]
      · rw [Except.bind_eq_ok] at waited
        obtain ⟨queue, -, waited⟩ := waited
        rw [Except.bind_eq_ok] at waited
        obtain ⟨kernel, -, waited⟩ := waited
        cases waited
        simp [Call.isSignal, Call.isWait]
  | signal =>
      rw [exec, Except.bind_eq_ok] at run
      obtain ⟨sem, signalled, run⟩ := run
      cases run
      simp only [semaphoreSignal] at signalled
      split at signalled
      · rw [Except.bind_eq_ok] at signalled
        obtain ⟨thread, -, signalled⟩ := signalled
        rw [Except.bind_eq_ok] at signalled
        obtain ⟨kernel, -, signalled⟩ := signalled
        cases signalled
        simp [Call.isSignal, Call.isWait]
      · cases signalled
        simp [Call.isSignal, Call.isWait]
  | kernel op =>
      rw [exec, Except.bind_eq_ok] at run
      obtain ⟨kernel, -, run⟩ := run
      cases run
      simp [Call.isSignal, Call.isWait]

/-- The value is the balance, reduced to eight bits. -/
theorem Run.value (run : Run v calls s) :
    s.semaphore.value = Int8.ofInt (balance v calls) := by
  induction run with
  | init queuedAt kernel => simp [semaphoreInit, balance]
  | @step calls s s' call _ _ ran ih =>
      rw [exec_value ran, ih, balance_append, Int8.ofInt_sub, Int8.ofInt_add]
      split <;> split <;> rfl

/-- The reduced value one below the balance is negative exactly when the balance is not positive. -/
theorem counts_iff (balance : Int) :
    Counts balance ↔ (¬ 0 ≤ Int8.ofInt balance - 1 ↔ balance ≤ 0) := by
  have sign : 0 ≤ Int8.ofInt balance - 1 ↔ 0 ≤ (balance - 1).bmod 256 := by
    rw [show (1 : Int8) = Int8.ofInt 1 from rfl, ← Int8.ofInt_sub, Int8.le_iff_toInt_le,
      Int8.toInt_ofInt]
    rfl
  have split : 0 ≤ (balance - 1).bmod 256 ↔ (balance - 1) % 256 < 128 := by
    rw [Int.bmod_def]
    split <;> omega
  rw [sign, split]
  unfold Counts
  omega

/-- `semaphore_wait` returns, and blocks its caller exactly when the value it leaves is negative. -/
theorem semaphoreWait_returns (sound : Sound s C Q W) (fresh : w ∉ W)
    (current : s.kernel.currentThread = some t) (running : (s.kernel.thread t).state = .running) :
    ∃ sem, semaphoreWait w s.toSem = .ok sem ∧
      ((sem.kernel.thread t).state = .blocked ↔ ¬ 0 ≤ s.semaphore.value - 1) := by
  have cleared : Represents (listEntryInit s.semaphore.queue w) W := by
    refine sound.queue.congr (fun v mem => listEntryInit_keeps _ w v ?_) rfl
    rw [List.mem_singleton]
    exact fun same => fresh (same ▸ mem)
  have locked : Kernel.Sound (schedulerLock s.kernel) C Q :=
    ⟨sound.kernel.created, sound.kernel.queue, sound.kernel.running, sound.kernel.unlinked,
      sound.kernel.current, sound.kernel.idle⟩
  simp only [semaphoreWait]
  split
  · next enough =>
      refine ⟨_, rfl, ?_⟩
      simp only [schedulerUnlock, schedulerLock, running, enough, not_true_eq_false, iff_false]
      intro same
      cases same
  · next short =>
      obtain ⟨queue, appended, -, -⟩ :=
        listAppend_represents cleared (listEntryInit_unlinked s.semaphore.queue w)
      obtain ⟨kernel, ran, set, -⟩ :=
        threadSetState_spec (s := .blocked) locked (locked.current t current)
      have blocks : threadBlock (schedulerLock s.kernel) = .ok kernel := by
        rw [threadBlock, show (schedulerLock s.kernel).currentThread = some t from current]
        exact ran
      rw [appended, Except.ok_bind, blocks]
      exact ⟨_, rfl, iff_of_true set.state_self short⟩

/-- **Semaphore counting**: after any calls on a semaphore a call of `semaphore_wait` returns. It
blocks its caller exactly when the earlier waits have used up the initial value and the earlier
signals, if and only if the eight bits of the value have the sign of the count. -/
theorem wait_counts (v : Int8) (calls : List (Call τ ω)) (s : State τ ω)
    (run : Run v calls s) (waitee : ω) (legal : Legal s.toSem (.wait waitee)) (t : τ)
    (current : s.kernel.currentThread = some t) :
    ∃ s', exec (.wait waitee) s = .ok s' ∧
      (((s'.kernel.thread t).state = .blocked ↔
          v.toInt + calls.countP Call.isSignal ≤ calls.countP Call.isWait) ↔
        Counts (v.toInt + calls.countP Call.isSignal - calls.countP Call.isWait)) := by
  obtain ⟨C, Q, W, sound⟩ := run.reachable.sound
  obtain ⟨fresh, running⟩ := legal
  rw [queued_iff sound] at fresh
  obtain ⟨sem, returns, blocked⟩ := semaphoreWait_returns sound fresh current (running t current)
  refine ⟨⟨sem, s.calls + 1, Function.update s.queuedAt waitee s.calls⟩, ?_, ?_⟩
  · rw [exec, returns]
    rfl
  · rw [run.value] at blocked
    have exact := counts_iff (balance v calls)
    rw [← blocked] at exact
    unfold balance at exact
    rw [exact, sub_nonpos]

end Specs

/-! ## Concrete runs -/

theorem Run.admitsAll {v : Int8} {calls more : List (Call Nat Nat)} {s : State Nat Nat}
    (run : Run v calls s) (admitted : admitsAll more s = true) :
    Run v (calls ++ more) (more.foldl (fun s call => execD call s) s) := by
  induction more generalizing calls s with
  | nil =>
      rw [List.append_nil]
      exact run
  | cons call more ih =>
      simp only [Semaphore.admitsAll, admits, Bool.and_eq_true] at admitted
      rcases admitted with ⟨⟨may, returns⟩, rest⟩
      have next := ih (run.step (legal_of_mayCall may) (exec_eq_execD returns)) rest
      rwa [List.append_assoc] at next

/-- The main thread waits, and the third one, which is selected then, makes calls. -/
def afterWait (calls : List (Call Nat Nat)) : List (Call Nat Nat) :=
  [.wait 0, .kernel (.schedule 64)] ++ calls

/-- The third thread blocks when it has signalled once, which has woken the main thread, and does not
block when it has signalled twice. -/
theorem wait_counts_woken :
    (∃ s', exec (.wait 1) ((afterWait [.signal]).foldl (fun s call => execD call s) threeState) =
        .ok s' ∧ (s'.kernel.thread 3).state = .blocked) ∧
      ∃ s', exec (.wait 1)
          ((afterWait [.signal, .signal]).foldl (fun s call => execD call s) threeState) =
        .ok s' ∧ (s'.kernel.thread 3).state ≠ .blocked := by
  rcases Scheduler.bootKernel_sound with ⟨Q, sound⟩
  have prepared : Scheduler.Runs (fun _ _ => True) threeThreads [1] Scheduler.bootKernel := by
    decide +kernel
  have start : Run 0 [] threeState :=
    .init _ (prepared.reachable sound Scheduler.bootKernel_reachable)
  have once : Run 0 ([] ++ afterWait [.signal]) _ := start.admitsAll (by decide +kernel)
  have twice : Run 0 ([] ++ afterWait [.signal, .signal]) _ :=
    start.admitsAll (by decide +kernel)
  rcases wait_counts 0 _ _ once 1 (legal_of_mayCall (by decide +kernel)) 3 (by decide +kernel) with
    ⟨s, run, counts⟩
  rcases wait_counts 0 _ _ twice 1 (legal_of_mayCall (by decide +kernel)) 3 (by decide +kernel) with
    ⟨s', run', counts'⟩
  have blocks := counts.mpr (by decide +kernel)
  have goesOn := counts'.mpr (by decide +kernel)
  exact ⟨⟨s, run, blocks.mpr (by decide +kernel)⟩, s', run', mt goesOn.mp (by decide +kernel)⟩

/-- Signals on a semaphore nobody waits for. -/
theorem run_signals (n : Nat) :
    ∃ s : State Nat Nat, Run 0 (List.replicate n .signal) s ∧ s.kernel = Scheduler.bootKernel ∧
      Represents s.semaphore.queue [] := by
  induction n with
  | zero =>
      exact ⟨emptyState, .init _ Scheduler.bootKernel_reachable, rfl, listInit_represents _⟩
  | succ n ih =>
      obtain ⟨s, run, kernel, empty⟩ := ih
      have signals : exec .signal s = .ok { s with
          semaphore.value := s.semaphore.value + 1
          calls := s.calls + 1 } := by
        rw [exec, semaphoreSignal]
        simp only [listFirst_eq empty]
        rfl
      rw [List.replicate_succ']
      exact ⟨_, .step run trivial signals, kernel, empty⟩

/-- After 129 signals the first wait blocks. -/
theorem wait_blocks_with_signals :
    ∃ (calls : List (Call Nat Nat)) (s s' : State Nat Nat), Run 0 calls s ∧
      Legal s.toSem (.wait 0) ∧ s.kernel.currentThread = some 1 ∧
      exec (.wait 0) s = .ok s' ∧ (s'.kernel.thread 1).state = .blocked ∧
      ¬ (0 : Int8).toInt + calls.countP Call.isSignal ≤ calls.countP Call.isWait := by
  obtain ⟨s, run, kernel, empty⟩ := run_signals 129
  have legal := legal_wait_main 0 kernel empty
  have main : s.kernel.currentThread = some 1 := by
    rw [kernel]
    decide +kernel
  obtain ⟨C, Q, W, sound⟩ := run.reachable.sound
  obtain ⟨sem, returns, blocked⟩ := semaphoreWait_returns sound
    (fun mem => legal.1 ((queued_iff sound).mpr mem)) main (legal.2 1 main)
  refine ⟨_, s, ⟨sem, s.calls + 1, Function.update s.queuedAt 0 s.calls⟩, run, legal, main, ?_,
    ?_, ?_⟩
  · rw [exec, returns]
    rfl
  · rw [blocked, run.value]
    decide +kernel
  · decide +kernel

end TheFirmware.Semaphore
