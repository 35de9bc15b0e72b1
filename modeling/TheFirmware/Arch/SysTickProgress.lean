import TheFirmware.Arch.SysTick
import TheFirmware.Core.TimerTick

/-!
# Progress of a managed timer on the SysTick

A tick of the SysTick takes what `systick_get` reports off the first timeout, and sets the SysTick
again for what remains. If a millisecond is a whole number of clocks, every timeout is reached after
finitely many ticks, whatever the other timeouts are (`reached_of_dvd`). If it is not, less is
reported than was programmed, and the last millisecond of a timeout never passes
(`progress_and_reached_iff`).
-/

namespace TheFirmware.SysTick

open TimerQueue

/-- The SysTick, the timer on it, and the rest of the system. -/
structure State (α η κ ρ : Type) : Type where
  regs : Regs
  timer : Timer α η κ
  system : ρ

section Tick

variable {α η κ ρ : Type} [DecidableEq α]

/-- `systick_handle_irq`, when the handler is `timer_managedhandler` and there is a timeout. The last
`timer_set` of the handler has called `systick_set`. -/
def systickHandleIrq (clocks : Clocks) (nullRemaining : Int)
    (call : η → κ → Timer α η κ × ρ → Except Fault (Timer α η κ × ρ)) (fuel : Nat)
    (state : State α η κ ρ) : Except Fault (State α η κ ρ) := do
  let (timer, system) ← timerManagedhandler nullRemaining call fuel (systickGet clocks state.regs)
    (state.timer, state.system)
  return { regs := systickSet clocks state.regs timer.hardware.time, timer, system }

/-- A tick whose handlers do not touch the timer. -/
def Tick (clocks : Clocks) (nullRemaining : Int) (effect : η → κ → ρ → ρ)
    (state state' : State α η κ ρ) : Prop :=
  Returns (fun fuel => systickHandleIrq clocks nullRemaining (quietCall effect) fuel state) state'

/-- The SysTick is set for the first of the timeouts `L`, whose times are in range. -/
structure Armed (clocks : Clocks) (state : State α η κ ρ) (L : List α) : Prop where
  queue : Represents state.timer.managedTimeouts L
  bounded : Bounded state.timer 2147483647 L
  resets : ∀ a ∈ L, (state.timer.timeout a).resetTime ≤ 2147483647
  first : ∀ a ∈ L.head?, 1 ≤ (state.timer.timeout a).remaining
  time : ∀ a ∈ L.head?, state.timer.hardware.time = (state.timer.timeout a).remaining
  regs : ∃ regs, state.regs = systickSet clocks regs state.timer.hardware.time

/-- Ticks one after the other, which have reported that so much time has passed. -/
inductive Ticks (clocks : Clocks) (nullRemaining : Int) (effect : η → κ → ρ → ρ) :
    Int → State α η κ ρ → State α η κ ρ → Prop
  | none (state : State α η κ ρ) : Ticks clocks nullRemaining effect 0 state state
  | tick {passed : Int} {state state' state'' : State α η κ ρ}
      (first : Tick clocks nullRemaining effect state state')
      (rest : Ticks clocks nullRemaining effect passed state' state'') :
      Ticks clocks nullRemaining effect (systickGet clocks state.regs + passed) state state''

/-- After finitely many ticks, what the next tick reports is all that remains of the timeout. -/
def Reached (clocks : Clocks) (nullRemaining : Int) (effect : η → κ → ρ → ρ)
    (state : State α η κ ρ) (d : Deadline η κ) : Prop :=
  ∃ passed state' L, Ticks clocks nullRemaining effect passed state state' ∧
    Represents state'.timer.managedTimeouts L ∧ d.lower passed ∈ decode state'.timer 0 L ∧
    (d.lower passed).deadline ≤ systickGet clocks state'.regs

end Tick

/-! ## One tick -/

section Queue

variable {η κ : Type} {elapsed : Int} {R Q Z : List (Deadline η κ)} {d z : Deadline η κ}

theorem length_decode {α : Type} (t : Timer α η κ) (base : Int) (L : List α) :
    (decode t base L).length = L.length := by
  induction L generalizing base with
  | nil => rfl
  | cons a L ih => rw [decode, List.length_cons, ih, List.length_cons]

theorem mem_requeue_iff : d ∈ requeue Q z ↔ d ∈ Q ∨ (0 < z.resetTime ∧ d = z.again) := by
  rcases Classical.em (0 < z.resetTime) with repeats | once
  · rw [requeue_of_repeats repeats, List.mem_orderedInsert]
    simp only [repeats, true_and]
    exact or_comm
  · rw [requeue_of_once once]
    simp [once]

theorem mem_foldl_requeue_iff :
    d ∈ Z.foldl requeue Q ↔ d ∈ Q ∨ ∃ z ∈ Z, 0 < z.resetTime ∧ d = z.again := by
  induction Z generalizing Q with
  | nil => simp
  | cons z Z ih => rw [List.foldl_cons, ih, mem_requeue_iff, or_assoc, List.exists_mem_cons_iff]

/-- A timeout that is not due comes closer. -/
theorem lower_mem_tickQueue (mem : d ∈ R) (notDue : d.deadline ≠ elapsed) :
    d.lower elapsed ∈ tickQueue elapsed R := by
  refine mem_foldl_requeue_iff.mpr (.inl (List.mem_map_of_mem (List.mem_filter.mpr ⟨mem, ?_⟩)))
  simp [IsDue, notDue]

/-- The timeouts after a tick are those before it. -/
theorem exists_of_mem_tickQueue (mem : d ∈ tickQueue elapsed R) :
    ∃ d' ∈ R, d'.resetTime = d.resetTime := by
  rcases mem_foldl_requeue_iff.mp mem with later | ⟨z, due, -, rfl⟩
  · obtain ⟨d', notDue, rfl⟩ := List.mem_map.mp later
    exact ⟨d', (List.mem_filter.mp notDue).1, rfl⟩
  · exact ⟨z, (List.mem_filter.mp due).1, rfl⟩

end Queue

section Armed

variable {α η κ ρ : Type} [DecidableEq α] {clocks : Clocks} {state : State α η κ ρ} {L : List α}
  {d : Deadline η κ}

omit [DecidableEq α] in
/-- What the next tick reports, by what remains of the first timeout. -/
theorem Armed.get_eq (armed : Armed clocks state L)
    (big : 1000 ≤ (systickClock clocks state.regs).toNat) {a : α} (head : L.head? = some a) :
    systickGet clocks state.regs =
      elapsed (systickClock clocks state.regs) (state.timer.timeout a).remaining := by
  obtain ⟨regs, same⟩ := armed.regs
  have clock := systickClock_systickSet clocks regs state.timer.hardware.time
  rw [← same] at clock
  rw [clock] at big ⊢
  have positive := armed.first a head
  rw [armed.time a head] at same
  rw [same]
  exact systickGet_systickSet big positive

omit [DecidableEq α] in
/-- The next tick reports at most what remains of the first timeout. -/
theorem Armed.get_le (armed : Armed clocks state L)
    (big : 1000 ≤ (systickClock clocks state.regs).toNat) {a : α} (head : L.head? = some a) :
    0 ≤ systickGet clocks state.regs ∧
      systickGet clocks state.regs ≤ (state.timer.timeout a).remaining := by
  have positive := armed.first a head
  have rounded := elapsed_le_programmed (systickClock clocks state.regs)
    (state.timer.timeout a).remaining
  have clamped : programmed (systickClock clocks state.regs) (state.timer.timeout a).remaining ≤
      (state.timer.timeout a).remaining.toNat := Nat.min_le_left ..
  rw [armed.get_eq big head]
  omega

/-- A tick before the timeout is due. -/
theorem Armed.tick (armed : Armed clocks state L)
    (big : 1000 ≤ (systickClock clocks state.regs).toNat) (mem : d ∈ decode state.timer 0 L)
    (notDue : d.deadline ≠ systickGet clocks state.regs) (nullRemaining : Int)
    (effect : η → κ → ρ → ρ) :
    ∃ state' L', Tick clocks nullRemaining effect state state' ∧ Armed clocks state' L' ∧
      systickClock clocks state'.regs = systickClock clocks state.regs ∧
      decode state'.timer 0 L' =
        tickQueue (systickGet clocks state.regs) (decode state.timer 0 L) := by
  have low : 0 ≤ systickGet clocks state.regs := by
    cases L with
    | nil => cases mem
    | cons a L => exact (armed.get_le big rfl).1
  obtain ⟨timer, first, L', ran, rep, bounded, decoded, left, hardware⟩ :=
    timerManagedhandler_returns nullRemaining effect state.system armed.queue armed.bounded
      armed.resets low (fun a head => (armed.get_le big head).2) ⟨d, mem, .inl notDue⟩
  obtain ⟨bound, ran⟩ := ran
  refine ⟨⟨systickSet clocks state.regs timer.hardware.time, timer,
    callDue effect (systickGet clocks state.regs) (decode state.timer 0 L) state.system⟩,
    first :: L', ⟨bound, fun fuel enough => ?_⟩, ?_, systickClock_systickSet .., decoded⟩
  · have ran : timerManagedhandler nullRemaining (quietCall effect) fuel
        (systickGet clocks state.regs) (state.timer, state.system) = _ := ran fuel enough
    simp only [systickHandleIrq, ran]
    rfl
  · have time : timer.hardware.time = (timer.timeout first).remaining := by rw [hardware]; rfl
    refine ⟨rep, bounded, fun a memL => ?_, fun a head => ?_, fun a head => ?_, _, rfl⟩
    · obtain ⟨A, B, split⟩ := List.append_of_mem memL
      have deadline := mem_decode timer 0 split
      rw [decoded] at deadline
      obtain ⟨d', memD, same⟩ := exists_of_mem_tickQueue deadline
      obtain ⟨b, memB, reset⟩ := exists_resetTime_of_mem_decode memD
      have bound := armed.resets b memB
      rw [reset, same] at bound
      exact bound
    · cases head
      exact left
    · cases head
      exact time

omit [DecidableEq α] in
/-- No timeout is due before the next tick. -/
theorem Armed.get_le_deadline (armed : Armed clocks state L)
    (big : 1000 ≤ (systickClock clocks state.regs).toNat) (mem : d ∈ decode state.timer 0 L) :
    systickGet clocks state.regs ≤ d.deadline := by
  cases L with
  | nil => cases mem
  | cons a L =>
    have first := (armed.get_le big rfl).2
    have nonneg : ∀ b ∈ L, 0 ≤ (state.timer.timeout b).remaining := fun b memL =>
      (armed.bounded b (List.mem_cons_of_mem a memL)).1
    rcases List.mem_cons.mp mem with rfl | mem
    · simp only [deadlineAt]
      omega
    · have later := (decode_sorted (0 + (state.timer.timeout a).remaining) nonneg).2 d mem
      omega

/-! ## All ticks -/

omit [DecidableEq α] in
/-- If a millisecond is a whole number of clocks, a tick reports at least a millisecond. -/
theorem Armed.get_pos (armed : Armed clocks state L)
    (big : 1000 ≤ (systickClock clocks state.regs).toNat)
    (whole : 1000 ∣ (systickClock clocks state.regs).toNat)
    (small : (systickClock clocks state.regs).toNat ≤ 3892313112)
    (mem : d ∈ decode state.timer 0 L) : 1 ≤ systickGet clocks state.regs := by
  cases L with
  | nil => cases mem
  | cons a L =>
    have positive := armed.first a rfl
    have limit : 1 ≤ 3892313112 / (systickClock clocks state.regs).toNat :=
      (Nat.one_le_div_iff (by omega)).mpr small
    rw [armed.get_eq big rfl, elapsed_of_dvd big whole, programmed]
    omega

/-- If a millisecond is a whole number of clocks, every timeout is reached: what remains of it
decreases with each tick. -/
theorem reached_of_dvd (nullRemaining : Int) (effect : η → κ → ρ → ρ)
    (armed : Armed clocks state L) (big : 1000 ≤ (systickClock clocks state.regs).toNat)
    (whole : 1000 ∣ (systickClock clocks state.regs).toNat)
    (small : (systickClock clocks state.regs).toNat ≤ 3892313112)
    (mem : d ∈ decode state.timer 0 L) : Reached clocks nullRemaining effect state d := by
  obtain ⟨n, remains⟩ : ∃ n, d.deadline.toNat = n := ⟨_, rfl⟩
  induction n using Nat.strong_induction_on generalizing state L d with
  | _ n ih =>
    have some := armed.get_pos big whole small mem
    have before := armed.get_le_deadline big mem
    rcases Classical.em (d.deadline = systickGet clocks state.regs) with due | notDue
    · refine ⟨0, state, L, .none state, armed.queue, ?_, ?_⟩
      · rwa [Deadline.lower, Int.sub_zero]
      · simp only [Deadline.lower]
        omega
    · obtain ⟨state', L', tick, armed', clock, decoded⟩ :=
        armed.tick big mem notDue nullRemaining effect
      have closer : d.lower (systickGet clocks state.regs) ∈ decode state'.timer 0 L' := by
        rw [decoded]
        exact lower_mem_tickQueue mem notDue
      have less : (d.lower (systickGet clocks state.regs)).deadline.toNat < n := by
        simp only [Deadline.lower]
        omega
      rw [← clock] at big whole small
      obtain ⟨passed, state'', L'', ticks, queue, rest, reached⟩ :=
        ih _ less armed' big whole small closer rfl
      have total : ∀ passed, d.lower (systickGet clocks state.regs + passed) =
          (d.lower (systickGet clocks state.regs)).lower passed := by
        intro passed
        simp only [Deadline.lower, Int.sub_sub]
      refine ⟨_, state'', L'', .tick tick ticks, queue, ?_, ?_⟩
      · rwa [total]
      · rwa [total]

/-- If a tick always reports less than what was set, the only timeout keeps time left. -/
theorem not_reached_of_lt {nullRemaining : Int} {effect : η → κ → ρ → ρ} {clock : UInt32}
    (big : 1000 ≤ clock.toNat) (less : ∀ time : Int, 1 ≤ time → elapsed clock time < time)
    (armed : Armed clocks state L) (same : systickClock clocks state.regs = clock)
    (only : L.length = 1) {passed : Int} {state' : State α η κ ρ}
    (ticks : Ticks clocks nullRemaining effect passed state state') :
    ∃ a, Represents state'.timer.managedTimeouts [a] ∧
      systickGet clocks state'.regs < (state'.timer.timeout a).remaining := by
  induction ticks generalizing L with
  | none state =>
    obtain ⟨a, rfl⟩ := List.length_eq_one_iff.mp only
    subst same
    rw [armed.get_eq big rfl]
    exact ⟨a, armed.queue, less _ (armed.first a rfl)⟩
  | @tick passed state state₁ state' first rest ih =>
    obtain ⟨a, rfl⟩ := List.length_eq_one_iff.mp only
    subst same
    have left : systickGet clocks state.regs < (state.timer.timeout a).remaining := by
      rw [armed.get_eq big rfl]
      exact less _ (armed.first a rfl)
    have notDue : (deadlineAt state.timer 0 a).deadline ≠ systickGet clocks state.regs := by
      simp only [deadlineAt]
      omega
    obtain ⟨state₂, L', ran, armed', clock, decoded⟩ :=
      armed.tick big List.mem_cons_self notDue nullRemaining effect
    obtain rfl := first.unique ran
    have one : tickQueue (systickGet clocks state.regs) (decode state.timer 0 [a]) =
        [(deadlineAt state.timer 0 a).lower (systickGet clocks state.regs)] := by
      simp [decode, tickQueue, IsDue, notDue]
    rw [one] at decoded
    refine ih armed' clock ?_
    have length := congrArg List.length decoded
    rwa [length_decode] at length

end Armed

/-! ## Progress -/

/-- What `systick_get` reports on the tick is at least a millisecond, and neither more than the time
that was set nor more than the time that the clocks take. -/
def Progress (clocks : Clocks) (regs : Regs) (time : Int) : Prop :=
  let regs' := systickSet clocks regs time
  1 ≤ systickGet clocks regs' ∧ systickGet clocks regs' ≤ time ∧
    systickGet clocks regs' * (systickClock clocks regs).toNat ≤ regs'.load.toNat * 1000

/-- Every timeout of this length is reached after finitely many ticks, in any queue. -/
def TimeoutsReached (clocks : Clocks) (clock : UInt32) (time : Int) : Prop :=
  ∀ (α η κ ρ : Type) [DecidableEq α] (nullRemaining : Int) (effect : η → κ → ρ → ρ)
    (state : State α η κ ρ) (L : List α), Armed clocks state L →
    systickClock clocks state.regs = clock → ∀ d ∈ decode state.timer 0 L, d.deadline = time →
    Reached clocks nullRemaining effect state d

section Progress

variable {clocks : Clocks} {regs : Regs} {time : Int}

/-- When a tick of the time makes progress. -/
theorem progress_iff (big : 1000 ≤ (systickClock clocks regs).toNat) (positive : 1 ≤ time) :
    Progress clocks regs time ↔
      (systickClock clocks regs).toNat ≤ clocksFor (systickClock clocks regs) time * 1000 := by
  have get := systickGet_systickSet big positive
  have load := systickSet_load big positive
  have rounded := elapsed_le_programmed (systickClock clocks regs) time
  have clamped : programmed (systickClock clocks regs) time ≤ time.toNat := Nat.min_le_left ..
  have period : elapsed (systickClock clocks regs) time * (systickClock clocks regs).toNat ≤
      clocksFor (systickClock clocks regs) time * 1000 := Nat.div_mul_le_self ..
  unfold Progress
  simp only [get, load]
  have some : 1 ≤ elapsed (systickClock clocks regs) time ↔
      (systickClock clocks regs).toNat ≤ clocksFor (systickClock clocks regs) time * 1000 :=
    Nat.one_le_div_iff (by omega)
  rw [← some]
  constructor
  · intro progress
    omega
  · intro some
    refine ⟨by omega, by omega, ?_⟩
    exact_mod_cast period

/-- A timer with one timeout. -/
def oneTimeout (time : Int) : Timer Nat Unit Unit where
  managed := true
  managedTimeouts := ⟨⟨fun _ => some 0, fun _ => some 0⟩, some 0⟩
  timeout := fun _ => ⟨time, 0, (), ()⟩
  hardware := ⟨0, 0, time, true, 2147483647⟩

theorem oneTimeout_armed (clocks : Clocks) (regs : Regs) (positive : 1 ≤ time)
    (range : time ≤ 2147483647) :
    Armed clocks (⟨systickSet clocks regs time, oneTimeout time, ()⟩ : State Nat Unit Unit Unit)
      [0] := by
  have linked : (oneTimeout time).managedTimeouts.Linked 0 0 := ⟨rfl, rfl⟩
  refine ⟨⟨⟨List.nodup_singleton 0, List.isChain_pair.mpr linked⟩, rfl⟩, fun a mem => ?_,
    fun a mem => ?_, fun a head => positive, fun a head => rfl, regs, rfl⟩
  · exact ⟨by simp only [oneTimeout]; omega, range⟩
  · simp only [oneTimeout]
    decide

/-- If a timeout in a timer with nothing else is reached, a tick reports all of some time. -/
theorem exists_of_timeoutsReached (big : 1000 ≤ (systickClock clocks regs).toNat)
    (positive : 1 ≤ time) (range : time ≤ 2147483647)
    (reached : TimeoutsReached clocks (systickClock clocks regs) time) :
    ∃ time : Int, 1 ≤ time ∧ time ≤ elapsed (systickClock clocks regs) time := by
  by_contra none
  have less : ∀ time : Int, 1 ≤ time → elapsed (systickClock clocks regs) time < time := by
    intro time positive
    by_contra full
    exact none ⟨time, positive, Int.not_lt.mp full⟩
  have armed := oneTimeout_armed clocks regs positive range
  have same : systickClock clocks (systickSet clocks regs time) = systickClock clocks regs :=
    systickClock_systickSet clocks regs time
  obtain ⟨passed, state', L, ticks, queue, mem, due⟩ :=
    reached Nat Unit Unit Unit 0 (fun _ _ system => system) _ [0] armed same
      (deadlineAt (oneTimeout time) 0 0) List.mem_cons_self (by simp [deadlineAt, oneTimeout])
  obtain ⟨a, only, left⟩ := not_reached_of_lt big less armed same rfl ticks
  rw [queue.unique only, decode, decode, List.mem_singleton] at mem
  rw [mem] at due
  simp only [deadlineAt] at due
  omega

end Progress

/-- **Progress of the SysTick**: for a clock of at least 1 kHz and a time of at least 1 ms, a tick
makes progress and a managed timeout of this length is reached after finitely many ticks, if and only
if a millisecond is a whole number of clocks and the clock is not above what
`1000 * kMaxLoadValue` has left in 32 bits. -/
theorem progress_and_reached_iff (clocks : Clocks) (regs : Regs) (time : Int)
    (big : 1000 ≤ (systickClock clocks regs).toNat) (positive : 1 ≤ time)
    (range : time ≤ 2147483647) :
    Progress clocks regs time ∧ TimeoutsReached clocks (systickClock clocks regs) time ↔
      1000 ∣ (systickClock clocks regs).toNat ∧
        (systickClock clocks regs).toNat ≤ 3892313112 := by
  constructor
  · intro both
    obtain ⟨time', positive', full⟩ := exists_of_timeoutsReached big positive range both.2
    have rounded := elapsed_le_programmed (systickClock clocks regs) time'
    constructor
    · by_contra rounds
      have lost := elapsed_lt_of_not_dvd big rounds time' (by omega)
      have clamped : programmed (systickClock clocks regs) time' ≤ time'.toNat :=
        Nat.min_le_left ..
      omega
    · by_contra fast
      have limit : 3892313112 / (systickClock clocks regs).toNat = 0 :=
        Nat.div_eq_of_lt (Nat.not_le.mp fast)
      rw [programmed, limit] at rounded
      omega
  · intro clock
    obtain ⟨whole, small⟩ := clock
    constructor
    · have limit : 1 ≤ 3892313112 / (systickClock clocks regs).toNat :=
        (Nat.one_le_div_iff (by omega)).mpr small
      have some : 1 ≤ programmed (systickClock clocks regs) time := Nat.le_min.mpr ⟨by omega, limit⟩
      rw [progress_iff big positive, clocksFor, Nat.mul_right_comm, Nat.div_mul_cancel whole]
      exact Nat.le_mul_of_pos_right _ some
    · intro α η κ ρ _ nullRemaining effect state L armed same d mem _
      rw [← same] at big whole small
      exact reached_of_dvd nullRemaining effect armed big whole small mem

theorem progress_and_reached_iff_8MHz :
    Progress ⟨8000000, 8000000⟩ onMainClock 250 ∧
      TimeoutsReached ⟨8000000, 8000000⟩ (systickClock ⟨8000000, 8000000⟩ onMainClock) 250 := by
  have whole : 1000 ∣ (systickClock ⟨8000000, 8000000⟩ onMainClock).toNat := by decide
  have small : (systickClock ⟨8000000, 8000000⟩ onMainClock).toNat ≤ 3892313112 := by decide
  exact (progress_and_reached_iff ⟨8000000, 8000000⟩ onMainClock 250 (by decide) (by decide)
    (by decide)).mpr ⟨whole, small⟩

/-- With 48 MHz divided by 7, a tick of 1 ms reports nothing. -/
theorem not_progress_divided :
    ¬ (Progress ⟨6857142, 6857142⟩ onMainClock 1 ∧
      TimeoutsReached ⟨6857142, 6857142⟩ (systickClock ⟨6857142, 6857142⟩ onMainClock) 1) := by
  intro both
  exact absurd both.1.1 (by decide)

end TheFirmware.SysTick
