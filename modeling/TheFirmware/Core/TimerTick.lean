import TheFirmware.Core.TimerRefinement

/-!
# Ticks of a managed timer

`timer_managedhandler` on the queue of deadlines. It takes the elapsed time off the first timeout,
and then expires the first timeout again and again until one has time left. A timeout that repeats
is inserted again before its handler is called, behind everything that expires in the same tick.

* A tick after the time the timer was set for calls the handlers of the timeouts that are due, in
  the order of the queue, and leaves the others with the time taken off
  (`timerManagedhandler_tick`).
* The loop reads the first timeout again after every handler. When the last timeout of the queue is
  gone by then, it reads through `NULL` (`reachable_existing`).
-/

namespace TheFirmware.TimerQueue

variable {α η κ : Type}

/-! ## The tick as a function of deadlines -/

/-- The handler is called in this tick. -/
def IsDue (elapsed : Int) (d : Deadline η κ) : Bool := decide (d.deadline = elapsed)

/-- The deadline when some time has passed. -/
def Deadline.lower (elapsed : Int) (d : Deadline η κ) : Deadline η κ :=
  { d with deadline := d.deadline - elapsed }

/-- The deadline of a repeating timeout that has just expired. -/
def Deadline.again (d : Deadline η κ) : Deadline η κ := { d with deadline := d.resetTime }

/-- A timeout that has expired is dropped, or inserted again if it repeats. -/
def requeue (R : List (Deadline η κ)) (d : Deadline η κ) : List (Deadline η κ) :=
  if 0 < d.resetTime then R.orderedInsert Sooner d.again else R

/-- The queue after a tick: the timeouts that are not due come closer, and those that are due are
dropped or inserted again. -/
def tickQueue (elapsed : Int) (R : List (Deadline η κ)) : List (Deadline η κ) :=
  (R.filter (IsDue elapsed)).foldl requeue
    ((R.filter fun d => !IsDue elapsed d).map (Deadline.lower elapsed))

/-- The handlers that are called, when a handler does `effect` to the rest of the system. -/
def callDue {ρ : Type} (effect : η → κ → ρ → ρ) (elapsed : Int) (R : List (Deadline η κ)) (s : ρ) :
    ρ :=
  (R.filter (IsDue elapsed)).foldl (fun s d => effect d.handler d.context s) s

/-- The call of a handler that does not touch the timer. -/
def quietCall {ρ : Type} (effect : η → κ → ρ → ρ) (handler : η) (context : κ) :
    Timer α η κ × ρ → Except Fault (Timer α η κ × ρ)
  | (t, s) => .ok (t, effect handler context s)

section Specs

variable {t t' : Timer α η κ} {base elapsed bound : Int} {a b e x : α} {A B L : List α}
  {R Q Z : List (Deadline η κ)} {d : Deadline η κ} {fuel : Nat}

/-- Insertion goes past everything that is sooner. -/
theorem orderedInsert_append (sooner : ∀ z ∈ Z, z.deadline < d.deadline) :
    (Z ++ Q).orderedInsert Sooner d = Z ++ Q.orderedInsert Sooner d := by
  induction Z with
  | nil => rfl
  | cons z Z ih =>
      have later : ¬ Sooner d z := Int.not_le.mpr (sooner z List.mem_cons_self)
      rw [List.cons_append, List.orderedInsert_cons, if_neg later,
        ih fun y mem => sooner y (List.mem_cons_of_mem z mem), List.cons_append]

theorem requeue_of_repeats (repeats : 0 < d.resetTime) :
    requeue R d = R.orderedInsert Sooner d.again := if_pos repeats

theorem requeue_of_once (once : ¬ 0 < d.resetTime) : requeue R d = R := if_neg once

/-- A timeout without time left is behind those that have none left either when it is inserted
again. -/
theorem requeue_append (zero : ∀ z ∈ Z, z.deadline = 0) :
    requeue (Z ++ Q) d = Z ++ requeue Q d := by
  by_cases repeats : 0 < d.resetTime
  · rw [requeue_of_repeats repeats, requeue_of_repeats repeats]
    refine orderedInsert_append fun z mem => ?_
    rw [zero z mem]
    exact repeats
  · rw [requeue_of_once repeats, requeue_of_once repeats]

theorem mem_requeue (positive : ∀ q ∈ Q, 0 < q.deadline) :
    ∀ q ∈ requeue Q d, 0 < q.deadline := by
  unfold requeue
  split
  · next repeats =>
      intro q mem
      rcases (List.mem_orderedInsert Sooner).mp mem with rfl | mem
      · exact repeats
      · exact positive q mem
  · exact positive

theorem decode_shift (shift : Int) :
    decode t (base - shift) L = (decode t base L).map (Deadline.lower shift) := by
  induction L generalizing base with
  | nil => rfl
  | cons a L ih =>
      have first : deadlineAt t (base - shift) a = (deadlineAt t base a).lower shift := by
        simp only [deadlineAt, Deadline.lower]
        congr 1
        omega
      have rest : base - shift + (t.timeout a).remaining =
          base + (t.timeout a).remaining - shift := by omega
      rw [decode, decode, List.map_cons, first, rest, ih]

theorem exists_resetTime_of_mem_decode (mem : d ∈ decode t base L) :
    ∃ a ∈ L, (t.timeout a).resetTime = d.resetTime := by
  induction L generalizing base with
  | nil => cases mem
  | cons a L ih =>
      rcases List.mem_cons.mp mem with rfl | mem
      · exact ⟨a, List.mem_cons_self, rfl⟩
      · obtain ⟨b, memB, same⟩ := ih mem
        exact ⟨b, List.mem_cons_of_mem a memB, same⟩

/-- The deadlines are sorted when nothing that remains is negative. -/
theorem decode_sorted (base : Int) (nonneg : ∀ a ∈ L, 0 ≤ (t.timeout a).remaining) :
    (decode t base L).Pairwise Sooner ∧ ∀ d ∈ decode t base L, base ≤ d.deadline := by
  induction L generalizing base with
  | nil => exact ⟨.nil, by simp [decode]⟩
  | cons a L ih =>
      have first := nonneg a List.mem_cons_self
      obtain ⟨sorted, low⟩ := ih (base + (t.timeout a).remaining)
        fun b mem => nonneg b (List.mem_cons_of_mem a mem)
      refine ⟨List.pairwise_cons.mpr ⟨low, sorted⟩, ?_⟩
      intro d mem
      rcases List.mem_cons.mp mem with rfl | mem
      · simp only [deadlineAt]
        omega
      · have := low d mem
        omega

variable [DecidableEq α]

/-! ## Inserting and expiring -/

theorem timerManagedInsertLoop_mono (x : α) (fuel : Nat) (entry : Option α) (t : Timer α η κ) :
    ReturnsLe (timerManagedInsertLoop x fuel entry t)
      (timerManagedInsertLoop x (fuel + 1) entry t) := by
  induction fuel generalizing entry t with
  | zero => exact .error _ _
  | succ fuel ih =>
      cases entry with
      | none => exact .refl _
      | some entry =>
          rw [timerManagedInsertLoop, timerManagedInsertLoop]
          exact .ite (.refl _) (.bind (.refl _) fun _ => ih _ _)

/-- `timer_managed_insert` returns the same with more fuel. -/
theorem timerManagedInsert_mono (x : α) (t : Timer α η κ) {fuel fuel' : Nat} (le : fuel ≤ fuel') :
    ReturnsLe (timerManagedInsert fuel x t) (timerManagedInsert fuel' x t) := by
  induction le with
  | refl => exact .refl _
  | step _ ih =>
      intro r returned
      have returned := ih r returned
      unfold timerManagedInsert at returned ⊢
      split
      · next empty => rwa [if_pos empty] at returned
      · next full =>
          rw [if_neg full] at returned
          exact timerManagedInsertLoop_mono x _ _ _ r returned

/-- No time that remains is negative or above the bound. -/
def Bounded (t : Timer α η κ) (bound : Int) (L : List α) : Prop :=
  ∀ a ∈ L, 0 ≤ (t.timeout a).remaining ∧ (t.timeout a).remaining ≤ bound

omit [DecidableEq α] in
/-- Inserting leaves no time negative. -/
theorem Inserted.nonneg (inserted : Inserted t t' x A B)
    (nonneg : ∀ a ∈ A ++ B, 0 ≤ (t.timeout a).remaining) (positive : 0 < (t.timeout x).remaining) :
    ∀ a ∈ A ++ x :: B, 0 ≤ (t'.timeout a).remaining := by
  obtain ⟨sorted, low⟩ := decode_sorted 0 nonneg
  have sorted' : (decode t' 0 (A ++ x :: B)).Pairwise Sooner := by
    rw [inserted.decode]
    exact sorted.orderedInsert _ _
  have low' : ∀ d ∈ decode t' 0 (A ++ x :: B), 0 ≤ d.deadline := by
    intro d mem
    rw [inserted.decode] at mem
    rcases (List.mem_orderedInsert Sooner).mp mem with rfl | mem
    · simp only [deadlineAt]
      omega
    · exact low d mem
  exact remaining_nonneg sorted' low'

/-- Inserting leaves the times that remain in their bounds: the timeout and the one behind it get
only parts of what they had. -/
theorem Inserted.bounded (inserted : Inserted t t' x A B) (fresh : x ∉ A ++ B)
    (bounded : Bounded t bound (A ++ B))
    (range : 0 < (t.timeout x).remaining ∧ (t.timeout x).remaining ≤ bound) :
    Bounded t' bound (A ++ x :: B) := by
  have nonneg : ∀ a ∈ A ++ x :: B, 0 ≤ (t'.timeout a).remaining :=
    inserted.nonneg (fun a mem => (bounded a mem).1) range.1
  intro a mem
  refine ⟨nonneg a mem, ?_⟩
  have nonnegX := nonneg x (by simp)
  have spanA : 0 ≤ span t A := span_le fun b memB => (bounded b (List.mem_append_left B memB)).1
  by_cases isX : a = x
  · subst isX
    rw [inserted.remaining]
    omega
  · have memL : a ∈ A ++ B := by
      rw [List.mem_append, List.mem_cons] at mem
      rw [List.mem_append]
      exact mem.imp_right fun mem => mem.resolve_left isX
    have before := (bounded a memL).2
    by_cases isNext : B.head? = some a
    · rw [inserted.next a isNext]
      omega
    · rwa [inserted.others a isX isNext]

/-- The loop body of `timer_managedhandler` for a timeout without time left: it is taken off the
front of the queue, and inserted again when it repeats. -/
theorem timerManagedhandlerExpire_returns (rep : Represents t.managedTimeouts (e :: L))
    (bounded : Bounded t 2147483647 (e :: L)) (reset : (t.timeout e).resetTime ≤ 2147483647) :
    ∃ t' L', (∀ fuel, L.length < fuel → timerManagedhandlerExpire fuel e t = .ok t') ∧
      Represents t'.managedTimeouts L' ∧ Bounded t' 2147483647 L' ∧
      decode t' 0 L' = requeue (decode t 0 L) (deadlineAt t 0 e) ∧
      (∀ a, SameTimeout (t.timeout a) (t'.timeout a)) ∧
      ∀ time, rearm t'.hardware (some time) = rearm t.hardware (some time) := by
  have deleted : Represents (listDelete t.managedTimeouts e) L := listDelete_append (A := []) rep
  have fresh : e ∉ L := (List.nodup_cons.mp rep.ring.nodup).1
  have boundedL : Bounded t 2147483647 L := fun a mem => bounded a (List.mem_cons_of_mem e mem)
  by_cases repeats : 0 < (t.timeout e).resetTime
  · let t₁ := Timer.setRemaining { t with managedTimeouts := listDelete t.managedTimeouts e } e
      (t.timeout e).resetTime
    have other : ∀ a ∈ L, t₁.timeout a = t.timeout a := by
      intro a mem
      exact setRemaining_timeout_of_ne fun same => fresh (same ▸ mem)
    have own : t₁.timeout e = { t.timeout e with remaining := (t.timeout e).resetTime } :=
      setRemaining_timeout_self
    have range : 0 < (t₁.timeout e).remaining ∧ (t₁.timeout e).remaining ≤ 2147483647 := by
      rw [own]
      exact ⟨repeats, reset⟩
    have bounded₁ : Bounded t₁ 2147483647 L := by
      intro a mem
      rw [other a mem]
      exact boundedL a mem
    obtain ⟨t', ran⟩ := timerManagedInsert_returns (t := t₁) deleted
      (listDelete_unlinked rep List.mem_cons_self) (Nat.lt_succ_self L.length) range bounded₁
    obtain ⟨A, B, rfl, inserted⟩ := timerManagedInsert_inv (t := t₁) deleted
      (listDelete_unlinked rep List.mem_cons_self) ran
    refine ⟨t', A ++ e :: B, ?_, inserted.queue, inserted.bounded fresh bounded₁ range, ?_, ?_,
      ?_⟩
    · intro fuel enough
      rw [timerManagedhandlerExpire]
      simp only [if_pos repeats]
      exact timerManagedInsert_mono e t₁ enough t' ran
    · rw [inserted.decode, decode_congr other, requeue_of_repeats (d := deadlineAt t 0 e) repeats]
      simp only [deadlineAt, own, Deadline.again]
      rw [Int.zero_add]
    · intro a
      exact (sameTimeout_setRemaining _ e a _).trans (inserted.same a)
    · intro time
      rw [inserted.hardware]
      split <;> rfl
  · refine ⟨{ t with managedTimeouts := listDelete t.managedTimeouts e }, L, ?_, deleted, boundedL,
      ?_, fun a => .refl _, fun _ => rfl⟩
    · intro fuel _
      rw [timerManagedhandlerExpire]
      exact if_neg repeats
    · rw [requeue_of_once (d := deadlineAt t 0 e) repeats]
      exact decode_congr fun _ _ => rfl

/-! ## The loop -/

omit [DecidableEq α] in
/-- The first timeout of a queue is the one with the first deadline. -/
theorem exists_of_decode_cons (decoded : decode t 0 L = d :: R) :
    ∃ a L', L = a :: L' ∧ deadlineAt t 0 a = d ∧ (t.timeout a).remaining = d.deadline ∧
      decode t d.deadline L' = R := by
  cases L with
  | nil => cases decoded
  | cons a L =>
      obtain ⟨first, rest⟩ := List.cons.inj decoded
      have remaining : (t.timeout a).remaining = d.deadline := by
        rw [← first]
        exact (Int.zero_add _).symm
      rw [remaining, Int.zero_add] at rest
      exact ⟨a, L, rfl, first, remaining, rest⟩

/-- The loop of `timer_managedhandler`: the timeouts `Z` have no time left, and the others have. It
expires `Z`, one after the other, and comes to an end because one timeout is left. -/
theorem managedhandlerLoop_returns {ρ : Type} (nullRemaining : Int) (effect : η → κ → ρ → ρ) (s : ρ)
    (rep : Represents t.managedTimeouts L) (bounded : Bounded t 2147483647 L)
    (decoded : decode t 0 L = Z ++ Q) (resets : ∀ d ∈ Z ++ Q, d.resetTime ≤ 2147483647)
    (zero : ∀ z ∈ Z, z.deadline = 0) (positive : ∀ q ∈ Q, 0 < q.deadline)
    (stays : Q ≠ [] ∨ ∃ z ∈ Z, 0 < z.resetTime) :
    ∃ t' first L', Returns (fun fuel => timerManagedhandlerLoop nullRemaining (quietCall effect)
        fuel (t, s)) (t', Z.foldl (fun s d => effect d.handler d.context s) s) ∧
      Represents t'.managedTimeouts (first :: L') ∧ Bounded t' 2147483647 (first :: L') ∧
      decode t' 0 (first :: L') = Z.foldl requeue Q ∧ 0 < (t'.timeout first).remaining ∧
      ∀ time, rearm t'.hardware (some time) = rearm t.hardware (some time) := by
  induction Z generalizing t L Q s with
  | nil =>
      obtain ⟨q, Q, rfl⟩ : ∃ q Q', Q = q :: Q' :=
        List.exists_cons_of_ne_nil (stays.resolve_right (by simp))
      obtain ⟨a, L, rfl, -, remaining, -⟩ := exists_of_decode_cons decoded
      have left : 0 < (t.timeout a).remaining := by
        rw [remaining]
        exact positive q List.mem_cons_self
      refine ⟨t, a, L, Returns.succ ⟨0, fun fuel _ => ?_⟩, rep, bounded, decoded, left,
        fun _ => rfl⟩
      simp only [timerManagedhandlerLoop, listFirst_eq rep, List.head?_cons]
      exact if_neg (Int.not_le.mpr left)
  | cons z Z ih =>
      rw [List.cons_append] at decoded
      obtain ⟨a, L, rfl, first, remaining, rest⟩ := exists_of_decode_cons decoded
      have zeroZ : z.deadline = 0 := zero z List.mem_cons_self
      have zeros : ∀ y ∈ Z, y.deadline = 0 := fun y mem => zero y (List.mem_cons_of_mem z mem)
      have reset : (t.timeout a).resetTime ≤ 2147483647 := by
        rw [show (t.timeout a).resetTime = z.resetTime by rw [← first]; rfl]
        exact resets z List.mem_cons_self
      obtain ⟨t', L', ran, rep', bounded', decoded', same, hardware⟩ :=
        timerManagedhandlerExpire_returns rep bounded reset
      rw [zeroZ] at rest
      rw [rest, first, requeue_append zeros] at decoded'
      have resets' : ∀ d ∈ Z ++ requeue Q z, d.resetTime ≤ 2147483647 := by
        intro d mem
        rw [← requeue_append zeros] at mem
        unfold requeue at mem
        split at mem
        · rcases (List.mem_orderedInsert Sooner).mp mem with rfl | mem
          · exact resets z List.mem_cons_self
          · exact resets d (List.mem_cons_of_mem z mem)
        · exact resets d (List.mem_cons_of_mem z mem)
      have stays' : requeue Q z ≠ [] ∨ ∃ y ∈ Z, 0 < y.resetTime := by
        by_cases repeats : 0 < z.resetTime
        · left
          rw [requeue_of_repeats repeats]
          exact List.ne_nil_of_mem ((List.mem_orderedInsert Sooner).mpr (.inl rfl))
        · rw [requeue_of_once repeats]
          exact stays.imp_right fun ⟨y, mem, repeatsY⟩ =>
            ⟨y, (List.mem_cons.mp mem).resolve_left fun same => repeats (same ▸ repeatsY), repeatsY⟩
      obtain ⟨t'', b, L'', looped, rep'', bounded'', decoded'', left, hardware'⟩ :=
        ih (effect z.handler z.context s) rep' bounded' decoded' resets' zeros
          (mem_requeue positive) stays'
      refine ⟨t'', b, L'', ?_, rep'', bounded'', decoded'', left, fun time =>
        (hardware' time).trans (hardware time)⟩
      have called : ∀ t₁ : Timer α η κ, t₁ = t' → quietCall effect (t₁.timeout a).handler
          (t₁.timeout a).context (t₁, s) = .ok (t', effect z.handler z.context s) := by
        rintro t₁ rfl
        rw [quietCall, (same a).2.1, (same a).2.2, ← first]
        rfl
      obtain ⟨bound, looped⟩ := looped
      refine Returns.succ ⟨max bound (L.length + 1), fun fuel enough => ?_⟩
      have zeroA : (t.timeout a).remaining ≤ 0 := by omega
      simp only [timerManagedhandlerLoop, listFirst_eq rep, List.head?_cons, if_pos zeroA]
      rw [ran fuel (by omega), Except.ok_bind, called t' rfl, Except.ok_bind]
      exact looped fuel (by omega)

/-! ## The tick -/

omit [DecidableEq α] in
/-- In a sorted queue the timeouts that are due come first. -/
theorem filter_due_append (sorted : R.Pairwise Sooner) (low : ∀ d ∈ R, elapsed ≤ d.deadline) :
    R = R.filter (IsDue elapsed) ++ R.filter fun d => !IsDue elapsed d := by
  induction R with
  | nil => rfl
  | cons d R ih =>
      obtain ⟨before, sorted⟩ := List.pairwise_cons.mp sorted
      by_cases due : d.deadline = elapsed
      · have isDue : IsDue elapsed d = true := decide_eq_true due
        rw [List.filter_cons_of_pos isDue, List.filter_cons_of_neg (by simp [isDue]),
          List.cons_append, ← ih sorted fun y mem => low y (List.mem_cons_of_mem d mem)]
      · have later : ∀ y ∈ d :: R, IsDue elapsed y = false := by
          have lowD := low d List.mem_cons_self
          intro y mem
          apply decide_eq_false
          rcases List.mem_cons.mp mem with rfl | mem
          · exact due
          · have le : d.deadline ≤ y.deadline := before y mem
            omega
        rw [List.filter_eq_nil_iff.mpr (by simpa using later),
          List.filter_eq_self.mpr (by simpa using later), List.nil_append]

/-- What has elapsed comes off the deadline of every timeout. -/
theorem decode_elapse (fresh : a ∉ L) :
    decode (t.setRemaining a ((t.timeout a).remaining - elapsed)) 0 (a :: L) =
      (decode t 0 (a :: L)).map (Deadline.lower elapsed) := by
  have others : ∀ b ∈ L, (t.setRemaining a ((t.timeout a).remaining - elapsed)).timeout b =
      t.timeout b := fun b mem => setRemaining_timeout_of_ne fun same => fresh (same ▸ mem)
  rw [decode, decode, List.map_cons, ← decode_shift, decode_congr others]
  congr 1
  · simp only [deadlineAt, setRemaining_timeout_self, Deadline.lower]
    congr 1
    omega
  · congr 1
    rw [setRemaining_timeout_self]
    simp only
    omega

omit [DecidableEq α] in
/-- No deadline is before the first one. -/
theorem le_deadline (nonneg : ∀ b ∈ a :: L, 0 ≤ (t.timeout b).remaining)
    (reached : elapsed ≤ (t.timeout a).remaining) :
    ∀ d ∈ decode t 0 (a :: L), elapsed ≤ d.deadline := by
  have sorted := (decode_sorted 0 nonneg).1
  intro d mem
  rcases List.mem_cons.mp mem with rfl | mem
  · simp only [deadlineAt]
    omega
  · have le : 0 + (t.timeout a).remaining ≤ d.deadline :=
      (List.pairwise_cons.mp sorted).1 d mem
    omega

/-- The times stay in range when what has elapsed comes off the first one. -/
theorem Bounded.elapse (bounded : Bounded t bound (a :: L)) (low : 0 ≤ elapsed)
    (reached : elapsed ≤ (t.timeout a).remaining) :
    Bounded (t.setRemaining a ((t.timeout a).remaining - elapsed)) bound (a :: L) := by
  have range := bounded a List.mem_cons_self
  intro b mem
  by_cases same : b = a
  · subst same
    simp only [setRemaining_timeout_self]
    omega
  · simp only [setRemaining_timeout_of_ne same]
    exact bounded b mem

omit [DecidableEq α] in
/-- What is due has no time left. -/
theorem deadline_of_mem_due (mem : d ∈ (R.filter (IsDue elapsed)).map (Deadline.lower elapsed)) :
    d.deadline = 0 := by
  obtain ⟨d, memD, rfl⟩ := List.mem_map.mp mem
  have due : d.deadline = elapsed := of_decide_eq_true (List.mem_filter.mp memD).2
  simp only [Deadline.lower, due]
  exact Int.sub_self elapsed

omit [DecidableEq α] in
/-- What is not due has time left. -/
theorem deadline_of_mem_rest (low : ∀ d ∈ R, elapsed ≤ d.deadline)
    (mem : d ∈ (R.filter fun d => !IsDue elapsed d).map (Deadline.lower elapsed)) :
    0 < d.deadline := by
  obtain ⟨d, memD, rfl⟩ := List.mem_map.mp mem
  obtain ⟨memR, notDue⟩ := List.mem_filter.mp memD
  have le := low d memR
  have ne : d.deadline ≠ elapsed := by simpa [IsDue] using notDue
  simp only [Deadline.lower]
  omega

omit [DecidableEq α] in
/-- Calls do not depend on the deadlines. -/
theorem foldl_lower {ρ : Type} (f : ρ → Deadline η κ → ρ)
    (same : ∀ x d, f x (d.lower elapsed) = f x d) (s : ρ) :
    (R.map (Deadline.lower elapsed)).foldl f s = R.foldl f s := by
  rw [List.foldl_map]
  exact congrArg (fun f => List.foldl f s R) (funext fun x => funext fun d => same x d)

/-- A tick of a managed timer whose times are in range, which they are afterwards. -/
theorem timerManagedhandler_returns {ρ : Type} (nullRemaining : Int) (effect : η → κ → ρ → ρ) (s : ρ)
    (queue : Represents t.managedTimeouts L) (bounded : Bounded t 2147483647 L)
    (resets : ∀ a ∈ L, (t.timeout a).resetTime ≤ 2147483647)
    (low : 0 ≤ elapsed) (high : ∀ a, L.head? = some a → elapsed ≤ (t.timeout a).remaining)
    (stays : ∃ d ∈ decode t 0 L, d.deadline ≠ elapsed ∨ 0 < d.resetTime) :
    ∃ t' first L', Returns (fun fuel => timerManagedhandler nullRemaining (quietCall effect) fuel
        elapsed (t, s)) (t', callDue effect elapsed (decode t 0 L) s) ∧
      Represents t'.managedTimeouts (first :: L') ∧ Bounded t' 2147483647 (first :: L') ∧
      decode t' 0 (first :: L') = tickQueue elapsed (decode t 0 L) ∧
      0 < (t'.timeout first).remaining ∧
      t'.hardware = rearm t.hardware (some (t'.timeout first).remaining) := by
  have nonneg : ∀ a ∈ L, 0 ≤ (t.timeout a).remaining := fun a mem => (bounded a mem).1
  obtain ⟨a, L, rfl⟩ : ∃ a L', L = a :: L' := by
    obtain ⟨d, mem, -⟩ := stays
    cases L with
    | nil => cases mem
    | cons a L => exact ⟨a, L, rfl⟩
  have fresh : a ∉ L := (List.nodup_cons.mp queue.ring.nodup).1
  have reached := high a rfl
  have rangeA := bounded a List.mem_cons_self
  have sorted := (decode_sorted 0 nonneg).1
  have lowest := le_deadline nonneg reached
  -- the queue when the elapsed time has been taken off
  let t₁ := t.setRemaining a ((t.timeout a).remaining - elapsed)
  let due := (decode t 0 (a :: L)).filter (IsDue elapsed)
  let rest := (decode t 0 (a :: L)).filter fun d => !IsDue elapsed d
  have decoded : decode t₁ 0 (a :: L) =
      due.map (Deadline.lower elapsed) ++ rest.map (Deadline.lower elapsed) := by
    rw [decode_elapse fresh, ← List.map_append, ← filter_due_append sorted lowest]
  have bounded₁ : Bounded t₁ 2147483647 (a :: L) := bounded.elapse low reached
  have resets₁ : ∀ d ∈ due.map (Deadline.lower elapsed) ++ rest.map (Deadline.lower elapsed),
      d.resetTime ≤ 2147483647 := by
    intro d mem
    rw [← List.map_append, ← filter_due_append sorted lowest] at mem
    obtain ⟨d, memD, rfl⟩ := List.mem_map.mp mem
    obtain ⟨b, memB, reset⟩ := exists_resetTime_of_mem_decode memD
    exact reset ▸ resets b memB
  have stays₁ : rest.map (Deadline.lower elapsed) ≠ [] ∨
      ∃ d ∈ due.map (Deadline.lower elapsed), 0 < d.resetTime := by
    obtain ⟨d, mem, stays⟩ := stays
    by_cases isDue : d.deadline = elapsed
    · right
      exact ⟨d.lower elapsed, List.mem_map_of_mem
        (List.mem_filter.mpr ⟨mem, decide_eq_true isDue⟩), stays.resolve_left (not_not.mpr isDue)⟩
    · left
      exact List.ne_nil_of_mem (List.mem_map_of_mem
        (List.mem_filter.mpr ⟨mem, by simp [IsDue, isDue]⟩))
  obtain ⟨t₂, first, L', looped, rep', bounded', decoded', left, hardware⟩ :=
    managedhandlerLoop_returns nullRemaining effect s (t := t₁) queue bounded₁ decoded resets₁
      (fun _ => deadline_of_mem_due) (fun _ => deadline_of_mem_rest lowest) stays₁
  obtain ⟨t', recalculated⟩ := timerManagedRecalculate_returns rep' (by
    intro b head
    cases head
    exact left)
  obtain ⟨rfl, -⟩ := timerManagedRecalculate_inv rep' recalculated
  refine ⟨{ t₂ with hardware := rearm t₂.hardware (some (t₂.timeout first).remaining) }, first, L',
    ?_, rep', bounded', ?_, left, hardware _⟩
  · obtain ⟨bound, looped⟩ := looped
    refine ⟨bound, fun fuel enough => ?_⟩
    have fits : Int32Range ((t.timeout a).remaining - elapsed) := by
      constructor
      · omega
      · omega
    have ran : timerManagedhandlerLoop nullRemaining (quietCall effect) fuel (t₁, s) = _ :=
      looped fuel enough
    rw [foldl_lower _ fun _ _ => rfl] at ran
    simp only [timerManagedhandler, listFirst_eq queue, List.head?_cons, timerManagedhandlerElapse]
    rw [int32_of_range fits, Except.ok_bind, pure_bind, ran, Except.ok_bind]
    simp only [recalculated]
    rfl
  · rw [foldl_lower requeue fun _ _ => rfl] at decoded'
    rw [tickQueue, ← decoded']
    exact decode_congr fun _ _ => rfl

/-- **A tick of a managed timer**: for a queue without negative times and a time that has elapsed up
to what remains of the first timeout, when one timeout stays queued and the handlers do not touch
the timer, `timer_managedhandler` returns. It has called the handlers of the timeouts that are due,
in the order of the queue; these are gone or inserted again, the others have come closer, and the
timer is set to what remains of the first timeout, which is positive. -/
theorem timerManagedhandler_tick {ρ : Type} (nullRemaining : Int) (effect : η → κ → ρ → ρ) (s : ρ)
    (t : Timer α η κ) (L : List α) (elapsed : Int) (queue : Represents t.managedTimeouts L)
    (nonneg : ∀ a ∈ L, 0 ≤ (t.timeout a).remaining)
    (range : ∀ a ∈ L, (t.timeout a).remaining ≤ 2147483647 ∧ (t.timeout a).resetTime ≤ 2147483647)
    (low : 0 ≤ elapsed) (high : ∀ a, L.head? = some a → elapsed ≤ (t.timeout a).remaining)
    (stays : ∃ d ∈ decode t 0 L, d.deadline ≠ elapsed ∨ 0 < d.resetTime) :
    ∃ t' first L', Returns (fun fuel => timerManagedhandler nullRemaining (quietCall effect) fuel
        elapsed (t, s)) (t', callDue effect elapsed (decode t 0 L) s) ∧
      Represents t'.managedTimeouts (first :: L') ∧
      decode t' 0 (first :: L') = tickQueue elapsed (decode t 0 L) ∧
      0 < (t'.timeout first).remaining ∧
      t'.hardware = rearm t.hardware (some (t'.timeout first).remaining) := by
  have bounded : Bounded t 2147483647 L := fun a mem => ⟨nonneg a mem, (range a mem).1⟩
  obtain ⟨t', first, L', ran, rep, -, rest⟩ := timerManagedhandler_returns nullRemaining effect s
    queue bounded (fun a mem => (range a mem).2) low high stays
  exact ⟨t', first, L', ran, rep, rest⟩

end Specs

/-- A timer with a timeout that repeats behind one that does not, at the same time. -/
def twoTimeouts : Timer Nat Nat Nat where
  managed := true
  managedTimeouts := ⟨⟨fun a => some (1 - a), fun a => some (1 - a)⟩, some 0⟩
  timeout := fun a => if a = 0 then ⟨100, 0, 7, 8⟩ else ⟨0, 50, 9, 10⟩
  hardware := ⟨0, 0, 100, true, 1000⟩

theorem twoTimeouts_represents : Represents twoTimeouts.managedTimeouts [0, 1] :=
  ⟨⟨by decide, by simp [twoTimeouts, Links.Linked]⟩, rfl⟩

/-- Both handlers are called, and the timer is set for the timeout that repeats. -/
theorem timerManagedhandler_tick_two :
    ∃ t' first L', Returns (fun fuel => timerManagedhandler 0
        (quietCall fun handler _ called => called ++ [handler]) fuel 100 (twoTimeouts, []))
        (t', [7, 9]) ∧
      Represents t'.managedTimeouts (first :: L') ∧
      decode t' 0 (first :: L') = [⟨50, 50, 9, 10⟩] ∧ t'.hardware = ⟨0, 0, 50, true, 1000⟩ := by
  obtain ⟨t', first, L', returns, rep, decoded, -, hardware⟩ := timerManagedhandler_tick 0
    (fun handler (_ : Nat) called => called ++ [handler]) [] twoTimeouts [0, 1] 100
    twoTimeouts_represents (by decide) (by decide) (by decide) (by simp [twoTimeouts]) (by decide)
  have queue : decode t' 0 (first :: L') = [⟨50, 50, 9, 10⟩] := by
    rw [decoded]
    decide
  refine ⟨t', first, L', returns, rep, queue, ?_⟩
  obtain ⟨a, L, same, -, remaining, -⟩ := exists_of_decode_cons queue
  cases same
  rw [hardware, remaining]
  rfl

/-! ## Ticks and calls -/

/-- A managed timer, and whether `timer_managedhandler` is about to evaluate the condition of its
loop. -/
structure Ticking (α η κ : Type) : Type where
  timer : Timer α η κ
  inLoop : Bool

/-- One step of a managed timer. -/
inductive Event (α η κ : Type) : Type
  /-- a call, not by a handler -/
  | call (call : Call α η κ)
  /-- `timer_managedhandler(timer, elapsed_time)` up to its loop -/
  | tick (elapsedTime : Int)
  /-- the loop body of `timer_managedhandler`, whose handler makes `calls` -/
  | fire (calls : List (Call α η κ))
  /-- the end of `timer_managedhandler` -/
  | leave

section Ticks

variable [DecidableEq α] [DecidableEq η] [DecidableEq κ]

/-- The timer after the calls of a handler. -/
def execAll (fuel : Nat) : List (Call α η κ) → Timer α η κ → Except Fault (Timer α η κ)
  | [], t => .ok t
  | call :: calls, t => do
      let t ← exec fuel call t
      execAll fuel calls t

/-- Every call of a handler is legal when it is made. -/
def LegalAll (fuel : Nat) : List (Call α η κ) → Timer α η κ → Prop
  | [], _ => True
  | call :: calls, t => Legal t call ∧ ∀ t', exec fuel call t = .ok t' → LegalAll fuel calls t'

/-- The state after a step. -/
def Ticking.exec (fuel : Nat) : Event α η κ → Ticking α η κ → Except Fault (Ticking α η κ)
  | .call call, s => do
      let timer ← TimerQueue.exec fuel call s.timer
      return { s with timer }
  | .tick elapsedTime, s =>
      match listFirst s.timer.managedTimeouts with
      | some first => do
          let timer ← timerManagedhandlerElapse elapsedTime first s.timer
          return ⟨timer, true⟩
      | none => return s
  | .fire calls, s => do
      let timeout ← deref (listFirst s.timer.managedTimeouts)
      let timer ← timerManagedhandlerExpire fuel timeout s.timer
      let timer ← execAll fuel calls timer
      return { s with timer }
  | .leave, s => do
      let timer ← timerManagedRecalculate s.timer
      return ⟨timer, false⟩

/-- When a step is taken. The loop goes on while the first timeout has no time left; when there is
none, it has read `nullRemaining` through `NULL`. -/
def Ticking.Legal (nullRemaining : Int) (fuel : Nat) (s : Ticking α η κ) : Event α η κ → Prop
  | .call call => s.inLoop = false ∧ TimerQueue.Legal s.timer call
  | .tick _ => s.inLoop = false
  | .fire calls => s.inLoop = true ∧ ∃ first, listFirst s.timer.managedTimeouts = some first ∧
      (s.timer.timeout first).remaining ≤ 0 ∧
      ∀ t, timerManagedhandlerExpire fuel first s.timer = .ok t → LegalAll fuel calls t
  | .leave => s.inLoop = true ∧
      0 < ((listFirst s.timer.managedTimeouts).map fun a => (s.timer.timeout a).remaining).getD
        nullRemaining

/-- The states of the runs all of whose steps satisfy `ok`. -/
inductive Ticking.Reachable (nullRemaining : Int) (ok : Ticking α η κ → Event α η κ → Prop) :
    Ticking α η κ → Prop
  | init {timer : Timer α η κ} (empty : timer.managedTimeouts.head = none) :
      Reachable nullRemaining ok ⟨timer, false⟩
  | step {fuel : Nat} {s s' : Ticking α η κ} {event : Event α η κ}
      (before : Reachable nullRemaining ok s) (legal : s.Legal nullRemaining fuel event)
      (allowed : ok s event) (run : s.exec fuel event = .ok s') : Reachable nullRemaining ok s'

/-- The handlers and contexts of some timeouts. -/
def keys (t : Timer α η κ) (L : List α) : Multiset (η × κ) :=
  L.map fun a => ((t.timeout a).handler, (t.timeout a).context)

/-- What a call does to the handlers and contexts in the queue. -/
def referKeys (M : Multiset (η × κ)) : Call α η κ → Multiset (η × κ)
  | .schedule _ _ _ handler context => (handler, context) ::ₘ M
  | .cancel handler context => M.erase (handler, context)

/-- A timeout is left when the loop body is done: of the other timeouts, the one that expires if it
repeats, and those its handler schedules, the handler does not cancel all. -/
def Leaves (s : Ticking α η κ) : Event α η κ → Prop
  | .fire calls => ∀ first L, Represents s.timer.managedTimeouts (first :: L) →
      calls.foldl referKeys (keys s.timer
        (if 0 < (s.timer.timeout first).resetTime then first :: L else L)) ≠ 0
  | _ => True

variable {t t' : Timer α η κ} {s s' : Ticking α η κ} {L : List α} {e : α} {call : Call α η κ}
  {calls : List (Call α η κ)} {event : Event α η κ} {fuel : Nat} {nullRemaining : Int}

omit [DecidableEq α] [DecidableEq η] [DecidableEq κ] in
theorem keys_congr (same : ∀ a ∈ L, SameTimeout (t.timeout a) (t'.timeout a)) :
    keys t' L = keys t L := by
  unfold keys
  congr 1
  refine List.map_congr_left fun a mem => ?_
  rw [(same a mem).2.1, (same a mem).2.2]

omit [DecidableEq α] [DecidableEq η] [DecidableEq κ] in
theorem keys_eq_zero : keys t L = 0 ↔ L = [] := by
  simp [keys]

omit [DecidableEq α] [DecidableEq η] [DecidableEq κ] in
theorem keys_cons : keys t (e :: L) =
    ((t.timeout e).handler, (t.timeout e).context) ::ₘ keys t L := rfl

omit [DecidableEq α] [DecidableEq η] [DecidableEq κ] in
theorem keys_middle (A B : List α) : keys t (A ++ e :: B) = keys t (e :: (A ++ B)) :=
  Multiset.coe_eq_coe.mpr (List.perm_middle.map _)

/-- What the queue is known to be between any two steps. -/
structure Queue (t : Timer α η κ) (L : List α) : Prop where
  queue : Represents t.managedTimeouts L
  managed : L ≠ [] → t.managed = true

/-- A call adds a timeout with its handler and context, or takes one out. -/
theorem Queue.exec (queue : Queue t L) (legal : TimerQueue.Legal t call)
    (run : TimerQueue.exec fuel call t = .ok t') :
    ∃ L', Queue t' L' ∧ keys t' L' = referKeys (keys t L) call := by
  cases call with
  | schedule storage timeout again handler context =>
      have fresh : storage ∉ L := fun mem => legal.2.2 ⟨L, queue.queue, mem⟩
      obtain ⟨-, t₁, A, B, rfl, inserted, timeouts, managed, -⟩ :=
        timerManagedSchedule_inv queue.queue queue.managed fresh run
      refine ⟨A ++ storage :: B, ⟨inserted.queue, fun _ => managed⟩, ?_⟩
      have others : ∀ a ∈ A ++ B, SameTimeout (t.timeout a) (t₁.timeout a) := by
        intro a mem
        have ne : a ≠ storage := fun same => fresh (same ▸ mem)
        rw [timeouts, Function.update_of_ne ne]
        exact .refl _
      rw [keys_congr fun a _ => inserted.same a, keys_middle, keys_cons, keys_congr others, timeouts,
        Function.update_self]
      rfl
  | cancel handler context =>
      rcases timerManagedCancel_inv queue.queue run with
        ⟨rfl, none⟩ | ⟨A, e, B, rfl, cancelled, found, -⟩
      · refine ⟨L, queue, ?_⟩
        rw [referKeys, Multiset.erase_of_notMem]
        simp only [keys, Multiset.mem_coe, List.mem_map, Prod.mk.injEq, not_exists, not_and]
        exact fun a mem same => (not_and.mp (none a mem)) same
      · refine ⟨A ++ B, ⟨cancelled.queue, fun _ => ?_⟩, ?_⟩
        · rw [cancelled.managed]
          exact queue.managed (by simp)
        · rw [keys_congr fun a _ => cancelled.same a, referKeys, keys_middle, keys_cons, found.1,
            found.2, Multiset.erase_cons_head]

theorem Queue.execAll (queue : Queue t L) (legal : LegalAll fuel calls t)
    (run : TimerQueue.execAll fuel calls t = .ok t') :
    ∃ L', Queue t' L' ∧ keys t' L' = calls.foldl referKeys (keys t L) := by
  induction calls generalizing t L with
  | nil =>
      cases run
      exact ⟨L, queue, rfl⟩
  | cons call calls ih =>
      obtain ⟨t₁, ran, run⟩ := Except.bind_eq_ok.mp run
      obtain ⟨L₁, queue₁, keys₁⟩ := queue.exec legal.1 ran
      obtain ⟨L', queue', keys'⟩ := ih queue₁ (legal.2 t₁ ran) run
      exact ⟨L', queue', by rw [keys', keys₁, List.foldl_cons]⟩

omit [DecidableEq η] [DecidableEq κ] in
/-- A timeout that expires is dropped, or stays when it repeats. -/
theorem Queue.expire (queue : Queue t (e :: L))
    (run : timerManagedhandlerExpire fuel e t = .ok t') :
    ∃ L', Queue t' L' ∧
      keys t' L' = keys t (if 0 < (t.timeout e).resetTime then e :: L else L) := by
  have managed : t.managed = true := queue.managed (List.cons_ne_nil e L)
  rcases timerManagedhandlerExpire_inv queue.queue run with
    ⟨once, rep, timeouts, managed', -⟩ | ⟨t₁, A, B, repeats, rfl, inserted, managed₁, -, timeouts⟩
  · refine ⟨L, ⟨rep, fun _ => managed'.trans managed⟩, ?_⟩
    rw [if_neg (Int.not_lt.mpr once)]
    refine keys_congr fun a _ => ?_
    rw [timeouts]
    exact .refl _
  · refine ⟨A ++ e :: B, ⟨inserted.queue, fun _ => ?_⟩, ?_⟩
    · rw [inserted.managed, managed₁, managed]
    · rw [if_pos repeats, ← keys_middle]
      refine keys_congr fun a _ => SameTimeout.trans ?_ (inserted.same a)
      rw [timeouts]
      by_cases same : a = e
      · subst same
        rw [Function.update_self]
        exact ⟨rfl, rfl, rfl⟩
      · rw [Function.update_of_ne same]
        exact .refl _

/-- The loop body leaves behind the timeouts that its handler has not cancelled. -/
theorem Queue.fire (queue : Queue s.timer L) (legal : s.Legal nullRemaining fuel (.fire calls))
    (run : s.exec fuel (.fire calls) = .ok s') :
    ∃ first rest L', L = first :: rest ∧ Queue s'.timer L' ∧ s'.inLoop = true ∧
      keys s'.timer L' = calls.foldl referKeys (keys s.timer
        (if 0 < (s.timer.timeout first).resetTime then first :: rest else rest)) := by
  obtain ⟨inLoop, first, isFirst, -, legal⟩ := legal
  rw [Ticking.exec, isFirst, deref_some, Except.ok_bind, Except.bind_eq_ok] at run
  obtain ⟨t₁, expired, run⟩ := run
  obtain ⟨t₂, called, run⟩ := Except.bind_eq_ok.mp run
  cases run
  rw [listFirst_eq queue.queue] at isFirst
  cases L with
  | nil => cases isFirst
  | cons a L =>
      cases isFirst
      obtain ⟨L₁, queue₁, keys₁⟩ := queue.expire expired
      obtain ⟨L₂, queue₂, keys₂⟩ := queue₁.execAll (legal t₁ expired) called
      exact ⟨first, L, L₂, rfl, queue₂, inLoop, by rw [keys₂, keys₁]⟩

/-! ### The steps of `timer_managedhandler` -/

theorem timerManagedCancelLoop_mono (handler : η) (context : κ) (fuel : Nat) (entry : Option α)
    (t : Timer α η κ) : ReturnsLe (timerManagedCancelLoop handler context fuel entry t)
      (timerManagedCancelLoop handler context (fuel + 1) entry t) := by
  induction fuel generalizing entry t with
  | zero => exact .error _ _
  | succ fuel ih =>
      cases entry with
      | none => exact .refl _
      | some entry =>
          rw [timerManagedCancelLoop, timerManagedCancelLoop]
          exact .ite (.refl _) (ih _ _)

/-- A call returns the same with more fuel. -/
theorem exec_mono (call : Call α η κ) (t : Timer α η κ) (fuel : Nat) :
    ReturnsLe (TimerQueue.exec fuel call t) (TimerQueue.exec (fuel + 1) call t) := by
  cases call with
  | schedule storage timeout again handler context =>
      refine .bind (.refl _) fun _ => .bind (.refl _) fun _ => .bind (.refl _) fun _ => ?_
      exact .ite (.bind (.refl _) fun _ => timerManagedInsert_mono _ _ (Nat.le_succ fuel))
        (.bind (.refl _) fun _ => timerManagedInsert_mono _ _ (Nat.le_succ fuel))
  | cancel handler context =>
      exact .bind (.refl _) fun _ => .bind (.refl _) fun _ => timerManagedCancelLoop_mono _ _ _ _ _

theorem execAll_succ (legal : LegalAll fuel calls t)
    (run : TimerQueue.execAll fuel calls t = .ok t') :
    LegalAll (fuel + 1) calls t ∧ TimerQueue.execAll (fuel + 1) calls t = .ok t' := by
  induction calls generalizing t with
  | nil => exact ⟨trivial, run⟩
  | cons call calls ih =>
      obtain ⟨t₁, ran, run⟩ := Except.bind_eq_ok.mp run
      have ran' := exec_mono call t fuel t₁ ran
      obtain ⟨legal', run'⟩ := ih (legal.2 t₁ ran) run
      refine ⟨⟨legal.1, fun t₂ other => ?_⟩, ?_⟩
      · obtain rfl : t₁ = t₂ := Except.ok.inj (ran'.symm.trans other)
        exact legal'
      · rw [TimerQueue.execAll, ran', Except.ok_bind]
        exact run'

/-- The calls of a handler are legal and return the same with more fuel. -/
theorem execAll_mono {fuel' : Nat} (le : fuel ≤ fuel') (legal : LegalAll fuel calls t)
    (run : TimerQueue.execAll fuel calls t = .ok t') :
    LegalAll fuel' calls t ∧ TimerQueue.execAll fuel' calls t = .ok t' := by
  induction le with
  | refl => exact ⟨legal, run⟩
  | step _ ih => exact execAll_succ ih.1 ih.2

omit [DecidableEq η] [DecidableEq κ] in
theorem timerManagedhandlerExpire_mono {fuel' : Nat} (le : fuel ≤ fuel') :
    ReturnsLe (timerManagedhandlerExpire fuel e t) (timerManagedhandlerExpire fuel' e t) :=
  .ite (timerManagedInsert_mono _ _ le) (.refl _)

/-- A step of a managed timer. -/
def Ticking.Step (nullRemaining : Int) (s s' : Ticking α η κ) : Prop :=
  ∃ fuel event, s.Legal nullRemaining fuel event ∧ s.exec fuel event = .ok s'

/-- The handlers do nothing to the timer but call its functions. -/
def Calls (call : η → κ → Timer α η κ × Unit → Except Fault (Timer α η κ × Unit)) : Prop :=
  ∀ handler context t t', call handler context (t, ()) = .ok (t', ()) →
    ∃ fuel calls, LegalAll fuel calls t ∧ TimerQueue.execAll fuel calls t = .ok t'

/-- The loop of `timer_managedhandler` is a sequence of steps. -/
theorem managedhandlerLoop_steps
    {call : η → κ → Timer α η κ × Unit → Except Fault (Timer α η κ × Unit)} (handlers : Calls call)
    (run : timerManagedhandlerLoop nullRemaining call fuel (t, ()) = .ok (t', ())) :
    Relation.ReflTransGen (Ticking.Step nullRemaining) ⟨t, true⟩ ⟨t', true⟩ ∧
      ∀ fuel, Ticking.Legal nullRemaining fuel ⟨t', true⟩ .leave := by
  induction fuel generalizing t with
  | zero => cases run
  | succ fuel ih =>
      simp only [timerManagedhandlerLoop] at run
      cases first : listFirst t.managedTimeouts with
      | none =>
          simp only [first] at run
          split at run
          · cases run
          · next positive =>
              cases run
              refine ⟨.refl, fun _ => ⟨rfl, ?_⟩⟩
              rw [first]
              exact Int.not_le.mp positive
      | some e =>
          simp only [first] at run
          split at run
          · next expired =>
              obtain ⟨t₁, ran, run⟩ := Except.bind_eq_ok.mp run
              obtain ⟨⟨t₂, ⟨⟩⟩, called, run⟩ := Except.bind_eq_ok.mp run
              obtain ⟨fuel', calls, legal, made⟩ := handlers _ _ _ _ called
              obtain ⟨steps, leave⟩ := ih run
              -- one amount of fuel for the insertion and for the calls of the handler
              have ran := timerManagedhandlerExpire_mono (Nat.le_max_left fuel fuel') t₁ ran
              obtain ⟨legal, made⟩ := execAll_mono (Nat.le_max_right fuel fuel') legal made
              refine ⟨.head ⟨max fuel fuel', .fire calls, ⟨rfl, e, first, expired, ?_⟩, ?_⟩ steps,
                leave⟩
              · intro t₃ other
                obtain rfl : t₁ = t₃ := Except.ok.inj (ran.symm.trans other)
                exact legal
              · simp only [Ticking.exec, first, deref_some, Except.ok_bind, ran, made]
                rfl
          · next left =>
              cases run
              refine ⟨.refl, fun _ => ⟨rfl, ?_⟩⟩
              rw [first]
              exact Int.not_le.mp left

/-- A run of `timer_managedhandler` is a sequence of steps, so that `Ticking.Reachable` has all
states in which it evaluates the condition of its loop. -/
theorem timerManagedhandler_steps
    {call : η → κ → Timer α η κ × Unit → Except Fault (Timer α η κ × Unit)} (handlers : Calls call)
    {elapsed : Int}
    (run : timerManagedhandler nullRemaining call fuel elapsed (t, ()) = .ok (t', ())) :
    Relation.ReflTransGen (Ticking.Step nullRemaining) ⟨t, false⟩ ⟨t', false⟩ := by
  simp only [timerManagedhandler] at run
  cases first : listFirst t.managedTimeouts with
  | none =>
      simp only [first] at run
      cases run
      exact .refl
  | some e =>
      simp only [first] at run
      obtain ⟨t₁, elapsed', run⟩ := Except.bind_eq_ok.mp run
      obtain ⟨⟨t₂, ⟨⟩⟩, looped, run⟩ := Except.bind_eq_ok.mp run
      obtain ⟨t₃, recalculated, run⟩ := Except.bind_eq_ok.mp run
      cases run
      obtain ⟨steps, leave⟩ := managedhandlerLoop_steps handlers looped
      refine .head ⟨fuel, .tick elapsed, rfl, ?_⟩ (steps.tail ⟨fuel, .leave, leave fuel, ?_⟩)
      · simp only [Ticking.exec, first, elapsed', Except.ok_bind]
        rfl
      · simp only [Ticking.exec, recalculated, Except.ok_bind]
        rfl

/-- The invariant of the runs in which every loop body leaves a timeout. -/
theorem Ticking.Reachable.queue (reach : Reachable nullRemaining Leaves s) :
    ∃ L, Queue s.timer L ∧ (s.inLoop = true → L ≠ []) := by
  induction reach with
  | init empty => exact ⟨[], ⟨⟨Ring.nil, empty⟩, fun full => absurd rfl full⟩, by simp⟩
  | @step fuel s s' event _ legal allowed run ih =>
      obtain ⟨L, queue, nonempty⟩ := ih
      cases event with
      | call call =>
          obtain ⟨t₁, ran, run⟩ := Except.bind_eq_ok.mp run
          cases run
          obtain ⟨L', queue', -⟩ := queue.exec legal.2 ran
          refine ⟨L', queue', fun inLoop => ?_⟩
          rw [legal.1] at inLoop
          cases inLoop
      | tick elapsedTime =>
          rw [Ticking.exec, listFirst_eq queue.queue] at run
          cases L with
          | nil =>
              cases run
              exact ⟨[], queue, nonempty⟩
          | cons a L =>
              simp only [List.head?_cons, timerManagedhandlerElapse] at run
              rw [Except.bind_eq_ok] at run
              obtain ⟨t₁, elapsed, run⟩ := run
              obtain ⟨remaining, -, elapsed⟩ := Except.bind_eq_ok.mp elapsed
              cases elapsed
              cases run
              exact ⟨a :: L, ⟨queue.queue, queue.managed⟩, by simp⟩
      | fire calls =>
          obtain ⟨first, rest, L', rfl, queue', -, left⟩ := queue.fire legal run
          refine ⟨L', queue', fun _ empty => allowed first rest queue.queue ?_⟩
          rw [← left]
          exact keys_eq_zero.mpr empty
      | leave =>
          obtain ⟨t₁, recalculated, run⟩ := Except.bind_eq_ok.mp run
          cases run
          obtain ⟨rfl, -⟩ := timerManagedRecalculate_inv queue.queue recalculated
          exact ⟨L, ⟨queue.queue, queue.managed⟩, by simp⟩

/-- **Ticks and missing timeouts**: in every run in which each loop body leaves a timeout, the loop
condition of `timer_managedhandler` finds an existing timeout whenever it is evaluated; and the
first loop body that does not leave one makes it read through `NULL`. -/
theorem reachable_existing (nullRemaining : Int) (s : Ticking α η κ)
    (reach : s.Reachable nullRemaining Leaves) :
    (s.inLoop = true → ∃ a, listFirst s.timer.managedTimeouts = some a) ∧
      ∀ fuel calls s', s.Legal nullRemaining fuel (.fire calls) → ¬ Leaves s (.fire calls) →
        s.exec fuel (.fire calls) = .ok s' →
        s'.inLoop = true ∧ listFirst s'.timer.managedTimeouts = none := by
  obtain ⟨L, queue, nonempty⟩ := reach.queue
  constructor
  · intro inLoop
    rw [listFirst_eq queue.queue]
    obtain ⟨a, L, rfl⟩ := List.exists_cons_of_ne_nil (nonempty inLoop)
    exact ⟨a, rfl⟩
  · intro fuel calls s' legal leaves run
    obtain ⟨first, rest, L', rfl, queue', inLoop, left⟩ := queue.fire legal run
    refine ⟨inLoop, ?_⟩
    have none : L' = [] := by
      by_contra some
      refine leaves fun first' rest' rep => ?_
      obtain ⟨rfl, rfl⟩ := List.cons.inj (queue.queue.unique rep)
      rw [← left]
      exact fun zero => some (keys_eq_zero.mp zero)
    rw [listFirst_eq queue'.queue, none]
    rfl

end Ticks

/-- A timer with one timeout, up to the loop of the tick in which it expires. -/
def tickOne (again : Bool) : Except Fault (Ticking Nat Nat Nat) := do
  let s ← Ticking.exec 4 (.call (.schedule 0 100 again 7 8)) ⟨blankTimer, false⟩
  Ticking.exec 4 (.tick 100) s

/-- The run up to the loop is allowed whatever is asked of the loop bodies. -/
theorem tickOne_reachable (ok : Ticking Nat Nat Nat → Event Nat Nat Nat → Prop) (again : Bool)
    (free : ∀ s call, ok s (.call call)) (free' : ∀ s elapsed, ok s (.tick elapsed)) :
    ∃ s, tickOne again = .ok s ∧ s.Reachable 0 ok := by
  have legal : Legal blankTimer (.schedule 0 100 again 7 8) := by
    refine ⟨by decide, by decide, ?_⟩
    rintro ⟨L, rep, mem⟩
    rw [rep.unique blankTimer_represents] at mem
    cases mem
  have returns : ∃ s, tickOne again = .ok s := by
    cases again
    · exact ⟨_, rfl⟩
    · exact ⟨_, rfl⟩
  obtain ⟨s, run⟩ := returns
  obtain ⟨s₁, called, ticked⟩ := Except.bind_eq_ok.mp run
  have legal₁ : Ticking.Legal 0 4 ⟨blankTimer, false⟩ (.call (.schedule 0 100 again 7 8)) :=
    ⟨rfl, legal⟩
  have legal₂ : s₁.Legal 0 4 (.tick 100) := by
    obtain ⟨t, -, same⟩ := Except.bind_eq_ok.mp called
    cases same
    rfl
  exact ⟨s, run, .step (.step (.init rfl) legal₁ (free _ _) called) legal₂ (free' _ _) ticked⟩

/-- The loop body of a timeout that has expired is legal, whatever its handler calls. -/
theorem tickOne_fire {s : Ticking Nat Nat Nat} {again : Bool} (run : tickOne again = .ok s) :
    s.Legal 0 4 (.fire []) := by
  cases again
  · cases run
    exact ⟨rfl, 0, rfl, by decide +kernel, fun _ _ => trivial⟩
  · cases run
    exact ⟨rfl, 0, rfl, by decide +kernel, fun _ _ => trivial⟩

/-- A timeout that repeats is in the queue again when its handler has returned. -/
theorem reachable_existing_repeating :
    ∃ s s', tickOne true = .ok s ∧ s.exec 4 (.fire []) = .ok s' ∧ s'.inLoop = true ∧
      ∃ a, listFirst s'.timer.managedTimeouts = some a := by
  obtain ⟨s, run, reach⟩ := tickOne_reachable Leaves true (fun _ _ => trivial)
    fun _ _ => trivial
  have legal := tickOne_fire run
  have returns : ∃ s', s.exec 4 (.fire []) = .ok s' := by
    cases run
    exact ⟨_, rfl⟩
  obtain ⟨s', fired⟩ := returns
  have inLoop : s'.inLoop = true := by
    cases run
    cases fired
    rfl
  have leaves : Leaves s (.fire []) := by
    intro first L rep
    have repeats : 0 < (s.timer.timeout first).resetTime := by
      have isFirst : listFirst s.timer.managedTimeouts = some first := rep.head
      cases run
      cases isFirst
      decide +kernel
    rw [if_pos repeats]
    exact fun none => List.cons_ne_nil _ _ (keys_eq_zero.mp none)
  have after : s'.Reachable 0 Leaves := .step reach legal leaves fired
  exact ⟨s, s', run, fired, inLoop, (reachable_existing 0 s' after).1 inLoop⟩

/-- When the only timeout expires and does not repeat, the condition of the loop reads through
`NULL`. -/
theorem missing_timeout_read :
    ∃ s : Ticking Nat Nat Nat, s.Reachable 0 (fun _ _ => True) ∧ s.inLoop = true ∧
      listFirst s.timer.managedTimeouts = none := by
  obtain ⟨s, run, reach⟩ := tickOne_reachable (fun _ _ => True) false
    (fun _ _ => trivial) fun _ _ => trivial
  have legal := tickOne_fire run
  have returns : ∃ s', s.exec 4 (.fire []) = .ok s' ∧ s'.inLoop = true ∧
      listFirst s'.timer.managedTimeouts = none := by
    cases run
    exact ⟨_, rfl, rfl, rfl⟩
  obtain ⟨s', fired, inLoop, none⟩ := returns
  exact ⟨s', .step reach legal trivial fired, inLoop, none⟩

end TheFirmware.TimerQueue
