import TheFirmware.Core.TimerQueue

/-!
# The managed timer refines a queue of deadlines

Calls of `timer_managed_schedule` and `timer_managed_cancel`, with no time passing between them,
run along with a reference queue of absolute deadlines: a call schedules a timeout in front of the
first one that is due at the same time or later, and cancels the first match. In every state the
list of the timer decodes to the reference queue (`reachable_refines`).
-/

namespace TheFirmware.TimerQueue

variable {α η κ : Type}

/-- One call. `storage` is what `malloc_raw` returns in the call. -/
inductive Call (α η κ : Type) : Type
  | schedule (storage : α) (timeout : Int) (again : Bool) (handler : η) (context : κ)
  | cancel (handler : η) (context : κ)

/-- The timeout is on the list. -/
def Queued (t : Timer α η κ) (a : α) : Prop := ∃ L, Represents t.managedTimeouts L ∧ a ∈ L

/-- Timeouts are positive `int32_t`, and are allocated in fresh storage. -/
def Legal (t : Timer α η κ) : Call α η κ → Prop
  | .schedule storage timeout _ _ _ =>
      0 < timeout ∧ timeout ≤ 2147483647 ∧ ¬ Queued t storage
  | .cancel _ _ => True

section Run

variable [DecidableEq α] [DecidableEq η] [DecidableEq κ]

/-- The timer after a call. -/
def exec (fuel : Nat) : Call α η κ → Timer α η κ → Except Fault (Timer α η κ)
  | .schedule storage timeout again handler context, t =>
      timerManagedSchedule fuel storage timeout again (some handler) context t
  | .cancel handler context, t => timerManagedCancel fuel (some handler) context t

/-- The reference queue after a call. -/
def refer : Call α η κ → List (Deadline η κ) → List (Deadline η κ)
  | .schedule _ timeout again handler context, R =>
      R.orderedInsert Sooner ⟨timeout, if again then timeout else 0, handler, context⟩
  | .cancel handler context, R => R.eraseP (Matches handler context)

/-- The states of a timer with the reference queue, from an empty list on. -/
inductive Reachable : Timer α η κ → List (Deadline η κ) → Prop
  | init {t : Timer α η κ} (empty : t.managedTimeouts.head = none) : Reachable t []
  | step {fuel : Nat} {t t' : Timer α η κ} {R : List (Deadline η κ)} {call : Call α η κ}
      (before : Reachable t R) (legal : Legal t call) (run : exec fuel call t = .ok t') :
      Reachable t' (refer call R)

end Run

/-! ## The invariant -/

/-- The list of the timer decodes to the reference queue, which is sorted and in the range of
`int32_t`, and the timer is set for the first timeout. -/
structure Sound (t : Timer α η κ) (L : List α) (R : List (Deadline η κ)) : Prop where
  queue : Represents t.managedTimeouts L
  decoded : decode t 0 L = R
  sorted : R.Pairwise Sooner
  range : ∀ d ∈ R, 0 < d.deadline ∧ d.deadline ≤ 2147483647
  managed : L ≠ [] → t.managed = true
  armed : ∀ a, L.head? = some a →
    t.hardware.time = (t.timeout a).remaining ∧ t.hardware.enabled = true

/-- The list decodes to the reference queue, nothing that remains is negative, and the timer is
set to what remains of the first timeout. -/
def Refines (t : Timer α η κ) (R : List (Deadline η κ)) : Prop :=
  ∃ L, Represents t.managedTimeouts L ∧ decode t 0 L = R ∧
    (∀ a ∈ L, 0 ≤ (t.timeout a).remaining) ∧
    ∀ a, L.head? = some a →
      t.hardware.time = (t.timeout a).remaining ∧ t.hardware.enabled = true

section Specs

variable {t t' : Timer α η κ} {L A B : List α} {R : List (Deadline η κ)} {a e x : α} {base : Int}
  {fuel : Nat} {call : Call α η κ}

instance : Std.Total (Sooner : Deadline η κ → Deadline η κ → Prop) :=
  ⟨fun d d' => Int.le_total d.deadline d'.deadline⟩

instance : IsTrans (Deadline η κ) Sooner :=
  ⟨fun _ _ _ first second => Int.le_trans first second⟩

/-- The deadlines of a list come from its timeouts. -/
theorem exists_of_mem_decode {d : Deadline η κ} (mem : d ∈ decode t base L) :
    ∃ a ∈ L, d.handler = (t.timeout a).handler ∧ d.context = (t.timeout a).context := by
  induction L generalizing base with
  | nil => cases mem
  | cons a L ih =>
      rcases List.mem_cons.mp mem with rfl | mem
      · exact ⟨a, List.mem_cons_self, rfl, rfl⟩
      · obtain ⟨b, memB, found⟩ := ih mem
        exact ⟨b, List.mem_cons_of_mem a memB, found⟩

/-- Nothing that remains is negative when the deadlines are sorted. -/
theorem remaining_nonneg (sorted : (decode t base L).Pairwise Sooner)
    (low : ∀ d ∈ decode t base L, base ≤ d.deadline) : ∀ a ∈ L, 0 ≤ (t.timeout a).remaining := by
  induction L generalizing base with
  | nil =>
      intro a mem
      cases mem
  | cons a L ih =>
      have first := low (deadlineAt t base a) List.mem_cons_self
      obtain ⟨before, rest⟩ := List.pairwise_cons.mp sorted
      intro b mem
      rcases List.mem_cons.mp mem with rfl | mem
      · simp only [deadlineAt] at first
        omega
      · exact ih rest (fun d memD => before d memD) b mem

/-- A sum of times that remain is at most the largest deadline. -/
theorem span_le (nonneg : ∀ a ∈ L, 0 ≤ (t.timeout a).remaining) : 0 ≤ span t L := by
  induction L with
  | nil => exact Int.le_refl 0
  | cons a L ih =>
      have first := nonneg a List.mem_cons_self
      have rest := ih fun b mem => nonneg b (List.mem_cons_of_mem a mem)
      simp only [span]
      omega

/-- The deadline of a timeout in the middle of the list. -/
theorem mem_decode (t : Timer α η κ) (base : Int) (split : L = A ++ e :: B) :
    deadlineAt t (base + span t A) e ∈ decode t base L := by
  rw [split, decode_append, decode]
  simp

theorem Sound.nonneg (sound : Sound t L R) : ∀ a ∈ L, 0 ≤ (t.timeout a).remaining := by
  obtain ⟨-, rfl, sorted, range, -, -⟩ := sound
  exact remaining_nonneg sorted fun d mem => Int.le_of_lt (range d mem).1

theorem Sound.remaining_le (sound : Sound t L R) :
    ∀ a ∈ L, 0 ≤ (t.timeout a).remaining ∧ (t.timeout a).remaining ≤ 2147483647 := by
  intro a mem
  have nonneg := sound.nonneg
  obtain ⟨A, B, split⟩ := List.append_of_mem mem
  have deadline := mem_decode t 0 split
  rw [sound.decoded] at deadline
  have high := (sound.range _ deadline).2
  have low : 0 ≤ span t A := span_le fun b memB => nonneg b (by rw [split]; simp [memB])
  simp only [deadlineAt] at high
  exact ⟨nonneg a mem, by omega⟩

theorem queued_iff (sound : Sound t L R) : Queued t a ↔ a ∈ L := by
  constructor
  · rintro ⟨L', rep, mem⟩
    rwa [sound.queue.unique rep]
  · intro mem
    exact ⟨L, sound.queue, mem⟩

/-- The deadline of the first timeout is what remains of it. -/
theorem Sound.first_pos (sound : Sound t L R) {a : α} (head : L.head? = some a) :
    0 < (t.timeout a).remaining := by
  cases L with
  | nil => cases head
  | cons b L =>
      cases head
      have first : deadlineAt t 0 a ∈ R := by
        rw [← sound.decoded]
        exact List.mem_cons_self
      have positive := (sound.range _ first).1
      simp only [deadlineAt] at positive
      omega

variable [DecidableEq α] [DecidableEq η] [DecidableEq κ]

/-- Scheduling a timeout inserts its deadline into the reference queue. -/
theorem Sound.schedule {timeout : Int} {again : Bool} {handler : η} {context : κ}
    (sound : Sound t L R) (legal : Legal t (.schedule x timeout again handler context))
    (run : exec fuel (.schedule x timeout again handler context) t = .ok t') :
    ∃ L', Sound t' L' (refer (.schedule x timeout again handler context) R) := by
  obtain ⟨positive, bounded, fresh⟩ := legal
  rw [queued_iff sound] at fresh
  obtain ⟨-, t₁, A, B, rfl, inserted, timeouts, managed, hardware⟩ :=
    timerManagedSchedule_inv sound.queue sound.managed fresh run
  have decoded : decode t' 0 (A ++ x :: B) =
      refer (Call.schedule (α := α) x timeout again handler context) R := by
    rw [inserted.decode, decode_congr (t := t), sound.decoded]
    · simp only [deadlineAt, timeouts, Function.update_self, Int.zero_add]
      rfl
    · intro a mem
      rw [timeouts, Function.update_of_ne]
      exact fun same => fresh (same ▸ mem)
  refine ⟨A ++ x :: B, inserted.queue, decoded, sound.sorted.orderedInsert _ _, ?_,
    fun _ => managed, ?_⟩
  · intro d mem
    rcases (List.mem_orderedInsert _).mp mem with rfl | mem
    · exact ⟨positive, bounded⟩
    · exact sound.range d mem
  · intro a head
    rw [inserted.hardware, hardware]
    cases A with
    | nil =>
        cases head
        exact ⟨rfl, rfl⟩
    | cons c A =>
        cases head
        have kept : t'.timeout a = t.timeout a := by
          rw [inserted.timeout_head rfl, timeouts, Function.update_of_ne]
          exact fun same => fresh (same ▸ List.mem_cons_self)
        rw [if_neg (by simp), kept]
        exact sound.armed a rfl

/-- Scheduling a timeout returns. -/
theorem Sound.schedule_returns {timeout : Int} {again : Bool} {handler : η} {context : κ}
    (sound : Sound t L R) (legal : Legal t (.schedule x timeout again handler context))
    (enough : L.length < fuel) :
    ∃ t', exec fuel (.schedule x timeout again handler context) t = .ok t' := by
  obtain ⟨positive, bounded, fresh⟩ := legal
  rw [queued_iff sound] at fresh
  obtain ⟨t₁, prepared, rep, unlinked, timeouts, -, -⟩ :=
    timerManagedSchedule_eq fuel again handler context sound.queue sound.managed fresh positive
  rw [exec, prepared]
  apply timerManagedInsert_returns rep unlinked enough
  · rw [timeouts, Function.update_self]
    exact ⟨positive, bounded⟩
  · intro b mem
    rw [timeouts, Function.update_of_ne]
    · exact sound.remaining_le b mem
    · exact fun same => fresh (same ▸ mem)

/-- Cancelling takes the first match out of the reference queue, and disables the timer when it was
the last timeout. -/
theorem Sound.cancel {handler : η} {context : κ} (sound : Sound t L R)
    (run : exec fuel (.cancel handler context) t = .ok t') :
    ∃ L', Sound t' L' (refer (.cancel (α := α) handler context) R) ∧
      (R ≠ [] → refer (.cancel (α := α) handler context) R = [] →
        t'.hardware.enabled = false) := by
  rcases timerManagedCancel_inv sound.queue run with
    ⟨rfl, none⟩ | ⟨A, e, B, rfl, cancelled, found, none⟩
  · have same : refer (.cancel (α := α) handler context) R = R := by
      apply List.eraseP_of_forall_not
      intro d mem
      rw [← sound.decoded] at mem
      obtain ⟨a, memA, sameHandler, sameContext⟩ := exists_of_mem_decode mem
      have other := none a memA
      rw [← sameHandler, ← sameContext] at other
      simpa [Matches] using other
    rw [same]
    exact ⟨L, sound, fun nonempty empty => absurd empty nonempty⟩
  · have decoded : decode t' 0 (A ++ B) = refer (.cancel (α := α) handler context) R := by
      rw [refer, ← sound.decoded, cancelled.decode, decode_append, List.eraseP_append_right]
      · rw [decode, List.eraseP_cons_of_pos]
        simpa [Matches, deadlineAt] using found
      · intro d mem
        obtain ⟨a, memA, sameHandler, sameContext⟩ := exists_of_mem_decode mem
        have other := none a memA
        rw [← sameHandler, ← sameContext] at other
        simpa [Matches] using other
    refine ⟨A ++ B, ⟨cancelled.queue, decoded, sound.sorted.sublist (List.eraseP_sublist ..), ?_,
      ?_, ?_⟩, ?_⟩
    · intro d mem
      exact sound.range d (List.mem_of_mem_eraseP mem)
    · intro _
      rw [cancelled.managed]
      exact sound.managed (by simp)
    · intro a head
      rw [cancelled.hardware]
      cases A with
      | nil =>
          rw [List.nil_append] at head
          rw [if_pos rfl, head]
          exact ⟨rfl, rfl⟩
      | cons c A =>
          cases head
          rw [if_neg (by simp), cancelled.timeout_head rfl]
          exact sound.armed a rfl
    · intro _ empty
      rw [← decoded] at empty
      have both : A = [] ∧ B = [] := by
        cases A with
        | cons c A => cases empty
        | nil =>
            cases B with
            | cons b B => cases empty
            | nil => exact ⟨rfl, rfl⟩
      rw [cancelled.hardware, if_pos both.1, both.2]
      rfl

/-- Cancelling a timeout returns. -/
theorem Sound.cancel_returns {handler : η} {context : κ} (sound : Sound t L R)
    (enough : L.length < fuel) : ∃ t', exec fuel (.cancel handler context) t = .ok t' := by
  simp only [exec, timerManagedCancel]
  rw [assert_pos (by rfl), Except.ok_bind, deref_some, Except.ok_bind, listFirst_eq sound.queue]
  apply cancelLoop_returns (A := []) sound.queue enough
  rintro A e B rfl
  have nonneg := sound.nonneg
  have low : 0 ≤ span t A := span_le fun b mem => nonneg b (by simp [mem])
  have rangeE := nonneg e (by simp)
  have sum : ∀ b, B.head? = some b → 0 ≤ (t.timeout b).remaining ∧
      (t.timeout b).remaining + (t.timeout e).remaining ≤ 2147483647 := by
    intro b head
    cases B with
    | nil => cases head
    | cons b' B =>
        cases head
        have split : A ++ e :: b :: B = (A ++ [e]) ++ b :: B := by simp
        have deadline := mem_decode t 0 split
        rw [sound.decoded] at deadline
        have high := (sound.range _ deadline).2
        have total : span t (A ++ [e]) = span t A + (t.timeout e).remaining := by
          rw [span_append]
          simp [span]
        simp only [deadlineAt, total] at high
        exact ⟨nonneg b (by simp), by omega⟩
  apply timerManagedCancelEntry_returns sound.queue
  · intro b head
    have bounds := sum b head
    constructor
    · omega
    · omega
  · rintro rfl b head
    have positive := sound.first_pos (a := e) rfl
    have bounds := sum b head
    omega

/-- A legal call keeps the refinement. -/
theorem Sound.exec (sound : Sound t L R) (legal : Legal t call)
    (run : TimerQueue.exec fuel call t = .ok t') : ∃ L', Sound t' L' (refer call R) := by
  cases call with
  | schedule storage timeout again handler context => exact sound.schedule legal run
  | cancel handler context =>
      obtain ⟨L', after, -⟩ := sound.cancel run
      exact ⟨L', after⟩

theorem Reachable.sound (reach : Reachable t R) : ∃ L, Sound t L R := by
  induction reach with
  | init empty =>
      exact ⟨[], ⟨Ring.nil, empty⟩, rfl, by simp, by simp, by simp, by simp⟩
  | step _ legal run ih =>
      obtain ⟨L, sound⟩ := ih
      exact sound.exec legal run

/-! ## Refinement -/

/-- **Managed timer queue refinement**: in every state the timer refines the reference queue, every
legal call returns (so that no `int32_t` operation overflows), and cancelling the last timeout
disables the timer. -/
theorem reachable_refines (t : Timer α η κ) (R : List (Deadline η κ)) (reach : Reachable t R) :
    Refines t R ∧
      (∀ call, Legal t call → ∃ fuel t', TimerQueue.exec fuel call t = .ok t') ∧
      ∀ fuel handler context t', TimerQueue.exec fuel (.cancel handler context) t = .ok t' →
        R ≠ [] → refer (.cancel (α := α) handler context) R = [] →
        t'.hardware.enabled = false := by
  obtain ⟨L, sound⟩ := reach.sound
  refine ⟨⟨L, sound.queue, sound.decoded, sound.nonneg, sound.armed⟩, ?_, ?_⟩
  · intro call legal
    cases call with
    | schedule storage timeout again handler context =>
        exact ⟨L.length + 1, sound.schedule_returns legal (Nat.lt_succ_self _)⟩
    | cancel handler context =>
        exact ⟨L.length + 1, sound.cancel_returns (Nat.lt_succ_self _)⟩
  · intro fuel handler context t' run
    obtain ⟨-, -, disables⟩ := sound.cancel run
    exact disables

end Specs

/-! ## A concrete run -/

/-- A timer that is not managed yet. -/
def blankTimer : Timer Nat Nat Nat where
  managed := false
  managedTimeouts := ⟨⟨fun _ => none, fun _ => none⟩, none⟩
  timeout := fun _ => ⟨0, 0, 0, 0⟩
  hardware := ⟨0, 0, 0, false, 1000⟩

theorem blankTimer_represents : Represents blankTimer.managedTimeouts [] := ⟨Ring.nil, rfl⟩

/-- A test for calls that are legal. -/
def mayCall (t : Timer Nat Nat Nat) : Call Nat Nat Nat → Bool
  | .schedule storage timeout _ _ _ => decide (0 < timeout) && decide (timeout ≤ 2147483647) &&
      (t.managedTimeouts.next storage).isNone && (t.managedTimeouts.prev storage).isNone
  | .cancel _ _ => true

theorem legal_of_mayCall {t : Timer Nat Nat Nat} {call : Call Nat Nat Nat}
    (may : mayCall t call = true) : Legal t call := by
  cases call with
  | schedule storage timeout again handler context =>
      simp only [mayCall, Bool.and_eq_true, decide_eq_true_eq, Option.isNone_iff_eq_none] at may
      rcases may with ⟨⟨⟨positive, bound⟩, next⟩, prev⟩
      refine ⟨positive, bound, ?_⟩
      rintro ⟨L, rep, mem⟩
      exact rep.notMem_of_unlinked ⟨next, prev⟩ mem
  | cancel handler context => trivial

/-- The timer after some calls, when all of them may be made. -/
def callAll : List (Call Nat Nat Nat) → Timer Nat Nat Nat → Option (Timer Nat Nat Nat)
  | [], t => some t
  | call :: calls, t =>
      if mayCall t call then
        match exec 8 call t with
        | .ok t' => callAll calls t'
        | .error _ => none
      else none

theorem Reachable.callAll {calls : List (Call Nat Nat Nat)} {t t' : Timer Nat Nat Nat}
    {R : List (Deadline Nat Nat)} (reach : Reachable t R)
    (run : TimerQueue.callAll calls t = some t') :
    Reachable t' (calls.foldl (fun R call => refer call R) R) := by
  induction calls generalizing t R with
  | nil =>
      cases run
      exact reach
  | cons call calls ih =>
      rw [TimerQueue.callAll] at run
      split at run
      · next may =>
          split at run
          · next t₁ ran => exact ih (reach.step (legal_of_mayCall may) ran) run
          · cases run
      · cases run

/-- A timeout is put in front of the first one, and one between the two, which is cancelled. -/
def insertCalls : List (Call Nat Nat Nat) :=
  [.schedule 0 100 false 7 0, .schedule 1 50 true 8 0, .schedule 2 70 false 9 0, .cancel 9 0]

/-- The last timeout gets back what the one before it has taken. The two that are left can be
cancelled, and then the timer is disabled. -/
theorem reachable_refines_inserted :
    ∃ t, callAll insertCalls blankTimer = some t ∧ (t.timeout 0).remaining = 50 ∧
      Refines t [⟨50, 50, 8, 0⟩, ⟨100, 0, 7, 0⟩] ∧
      ∃ fuel t₁, exec fuel (.cancel 8 0) t = .ok t₁ ∧ Refines t₁ [⟨100, 0, 7, 0⟩] ∧
        ∃ fuel t₂, exec fuel (.cancel 7 0) t₁ = .ok t₂ ∧ t₂.hardware.enabled = false := by
  have trace : ((callAll insertCalls blankTimer).map fun t => (t.timeout 0).remaining) =
      some 50 := by
    decide +kernel
  rcases Option.map_eq_some_iff.mp trace with ⟨t, run, remaining⟩
  have reach := @Reachable.callAll insertCalls blankTimer t [] (.init rfl) run
  rcases reachable_refines t _ reach with ⟨refines, calls, -⟩
  rcases calls (.cancel 8 0) trivial with ⟨fuel, t₁, ran⟩
  have legal : Legal t (.cancel 8 0) := trivial
  have reach₁ := reach.step legal ran
  rcases reachable_refines t₁ _ reach₁ with ⟨refines₁, calls₁, disables⟩
  rcases calls₁ (.cancel 7 0) trivial with ⟨fuel', t₂, ran'⟩
  exact ⟨t, run, remaining, refines, fuel, t₁, ran, refines₁, fuel', t₂, ran',
    disables fuel' 7 0 t₂ ran' (by decide) (by decide)⟩

end TheFirmware.TimerQueue
