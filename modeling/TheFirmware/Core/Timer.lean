import TheFirmware.Core.List

/-!
# `core/timer.c`

A managed timer keeps its timeouts on a list, each with the time that is left after the timeout in
front of it, and sets the hardware timer for the first one. A timeout is named by an element of
`α`, the address of its `struct timer_managed_timeout`; its list entry is in the pool of
`managedTimeouts`. Times are `int32_t`, and an overflow is a fault.

The hardware timer is modelled by what the functions of `struct timer_ops` do to it: `Hardware` has
the current time, when the timer was set and to which time, and whether it is enabled. A timer may
not support all times and then clamps the time it is set to (`maxTime`). `scheduler_lock` and
`scheduler_unlock` have no effect here, and the storage `malloc_raw` returned is an argument.
-/

namespace TheFirmware

/-- The hardware behind a `struct timer`. -/
structure Hardware : Type where
  now : Int
  setAt : Int
  time : Int
  enabled : Bool
  maxTime : Int
  deriving DecidableEq, Repr

/-- `struct timer_managed_timeout`, without its list entry. -/
structure Timeout (η κ : Type) : Type where
  remaining : Int
  resetTime : Int
  handler : η
  context : κ
  deriving DecidableEq, Repr

/-- `struct timer`: whether its handler is `timer_managedhandler`, the list of managed timeouts with
the timeouts, and the hardware. -/
structure Timer (α η κ : Type) : Type where
  managed : Bool
  managedTimeouts : ListT α
  timeout : α → Timeout η κ
  hardware : Hardware

variable {α η κ : Type}

/-- `timer_set(timer, time)`. -/
def timerSet (time : Int) (t : Timer α η κ) : Except Fault (Timer α η κ) := do
  assert (0 < time) "Setting a timers time to a negative ammount makes no sense"
  return { t with hardware := { t.hardware with setAt := t.hardware.now, time, enabled := true } }

/-- `timer_get(timer)`: the time the hardware was set to, as far as it supports it. -/
def timerGet (t : Timer α η κ) : Int := min t.hardware.time t.hardware.maxTime

/-- `timer_disable(timer)`. -/
def timerDisable (t : Timer α η κ) : Timer α η κ :=
  { t with hardware := { t.hardware with enabled := false } }

/-- `timer_set_handler(timer, timer_managedhandler)`. -/
def timerSetManagedhandler (t : Timer α η κ) : Except Fault (Timer α η κ) := do
  assert (t.managed = false) "Attempt to change timer handler while it is beeing managed"
  return { t with managed := true }

/-- `timer_managed_recalculate(timer)`. -/
def timerManagedRecalculate (t : Timer α η κ) : Except Fault (Timer α η κ) :=
  match listFirst t.managedTimeouts with
  | some first => timerSet (t.timeout first).remaining t
  | none => .ok (timerDisable t)

/-- `timer_managed_update_first(timer)`, whose body is commented out. -/
def timerManagedUpdateFirst (t : Timer α η κ) : Timer α η κ := t

variable [DecidableEq α]

/-- `timeout->remaining = remaining`. -/
def Timer.setRemaining (t : Timer α η κ) (timeout : α) (remaining : Int) : Timer α η κ :=
  { t with timeout := Function.update t.timeout timeout { t.timeout timeout with remaining } }

/-- The branches of the loop of `timer_managed_insert` that put `timeout` in front of `entry`. -/
def timerManagedInsertAt (timeout entry : α) (t : Timer α η κ) : Except Fault (Timer α η κ) := do
  let managedTimeouts ← listInsertBefore t.managedTimeouts entry timeout
  if some entry = listFirst t.managedTimeouts then
    timerManagedRecalculate { t with managedTimeouts := listRrotate managedTimeouts }
  else return { t with managedTimeouts }

/-- The loop of `timer_managed_insert`, at `entry`. -/
def timerManagedInsertLoop (timeout : α) :
    Nat → Option α → Timer α η κ → Except Fault (Timer α η κ)
  | 0, _, _ => .error .outOfFuel
  | _ + 1, none, t => do
      let managedTimeouts ← listAppend t.managedTimeouts timeout
      return { t with managedTimeouts }
  | fuel + 1, some entry, t => do
      if (t.timeout timeout).remaining ≤ (t.timeout entry).remaining then
        let t ← timerManagedInsertAt timeout entry t
        let remaining ← int32 ((t.timeout entry).remaining - (t.timeout timeout).remaining)
        return t.setRemaining entry remaining
      else
        let remaining ← int32 ((t.timeout timeout).remaining - (t.timeout entry).remaining)
        let t := t.setRemaining timeout remaining
        timerManagedInsertLoop timeout fuel (listNext t.managedTimeouts entry) t

/-- `timer_managed_insert(timer, timeout)`. -/
def timerManagedInsert (fuel : Nat) (timeout : α) (t : Timer α η κ) :
    Except Fault (Timer α η κ) :=
  if listIsEmpty t.managedTimeouts then do
    let managedTimeouts ← listAppend t.managedTimeouts timeout
    timerManagedRecalculate { t with managedTimeouts }
  else
    let t := timerManagedUpdateFirst t
    timerManagedInsertLoop timeout fuel (listFirst t.managedTimeouts) t

/-- `timer_managed_schedule(timer, timeout, repeat, handler, context)`, where `storage` is what
`malloc_raw` returned. -/
def timerManagedSchedule (fuel : Nat) (storage : α) (timeout : Int) (again : Bool)
    (handler : Option η) (context : κ) (t : Timer α η κ) : Except Fault (Timer α η κ) := do
  assert (0 < timeout) "Timeout can not be negative"
  assert (handler.isSome = true) "Timeout requires a handler"
  let handler ← deref handler
  let t ←
    if t.managed = false then
      timerSetManagedhandler { t with managedTimeouts := listInit t.managedTimeouts }
    else pure t
  let resetTime := if again then timeout else 0
  let t := { t with
    managedTimeouts := listEntryInit t.managedTimeouts storage
    timeout := Function.update t.timeout storage ⟨timeout, resetTime, handler, context⟩ }
  timerManagedInsert fuel storage t

/-- `next->remaining += entry->remaining` for the timeout behind `entry`, if there is one. -/
def timerManagedCancelNext (entry : α) (t : Timer α η κ) : Except Fault (Timer α η κ) :=
  match listNext t.managedTimeouts entry with
  | some next => do
      let remaining ← int32 ((t.timeout next).remaining + (t.timeout entry).remaining)
      return t.setRemaining next remaining
  | none => .ok t

/-- The body of the loop of `timer_managed_cancel` for the entry it cancels. -/
def timerManagedCancelEntry (entry : α) (t : Timer α η κ) : Except Fault (Timer α η κ) := do
  let first := decide (some entry = listFirst t.managedTimeouts)
  let t := if first then timerManagedUpdateFirst t else t
  let t ← timerManagedCancelNext entry t
  let t := { t with managedTimeouts := listDelete t.managedTimeouts entry }
  if first then timerManagedRecalculate t else return t

/-- The start of `timer_managedhandler(timer, elapsed_time)`: the time that has elapsed is taken off
the first timeout. -/
def timerManagedhandlerElapse (elapsedTime : Int) (first : α) (t : Timer α η κ) :
    Except Fault (Timer α η κ) := do
  let remaining ← int32 ((t.timeout first).remaining - elapsedTime)
  return t.setRemaining first remaining

/-- The loop body of `timer_managedhandler` up to the call of the handler: the timeout is deleted,
and inserted again when it repeats. -/
def timerManagedhandlerExpire (fuel : Nat) (timeout : α) (t : Timer α η κ) :
    Except Fault (Timer α η κ) :=
  let t := { t with managedTimeouts := listDelete t.managedTimeouts timeout }
  if 0 < (t.timeout timeout).resetTime then
    timerManagedInsert fuel timeout (t.setRemaining timeout (t.timeout timeout).resetTime)
  else .ok t

/-- The loop of `timer_managedhandler` in a system whose other parts are `ρ`. A handler may change
the whole system. When the list has become empty, the condition of the loop reads `remaining`
through `NULL`: on the targets this reads the vector table, where it finds `nullRemaining`. -/
def timerManagedhandlerLoop {ρ : Type} (nullRemaining : Int)
    (call : η → κ → Timer α η κ × ρ → Except Fault (Timer α η κ × ρ)) :
    Nat → Timer α η κ × ρ → Except Fault (Timer α η κ × ρ)
  | 0, _ => .error .outOfFuel
  | fuel + 1, (t, s) =>
      match listFirst t.managedTimeouts with
      | some timeout =>
          if (t.timeout timeout).remaining ≤ 0 then do
            let t ← timerManagedhandlerExpire fuel timeout t
            let (t, s) ← call (t.timeout timeout).handler (t.timeout timeout).context (t, s)
            timerManagedhandlerLoop nullRemaining call fuel (t, s)
          else .ok (t, s)
      | none => if nullRemaining ≤ 0 then .error .nullDeref else .ok (t, s)

/-- `timer_managedhandler(timer, elapsed_time)`. -/
def timerManagedhandler {ρ : Type} (nullRemaining : Int)
    (call : η → κ → Timer α η κ × ρ → Except Fault (Timer α η κ × ρ)) (fuel : Nat)
    (elapsedTime : Int) : Timer α η κ × ρ → Except Fault (Timer α η κ × ρ)
  | (t, s) =>
      match listFirst t.managedTimeouts with
      | some first => do
          let t ← timerManagedhandlerElapse elapsedTime first t
          let (t, s) ← timerManagedhandlerLoop nullRemaining call fuel (t, s)
          let t ← timerManagedRecalculate t
          return (t, s)
      | none => .ok (t, s)

variable [DecidableEq η] [DecidableEq κ]

/-- The loop of `timer_managed_cancel`, at `entry`. -/
def timerManagedCancelLoop (handler : η) (context : κ) :
    Nat → Option α → Timer α η κ → Except Fault (Timer α η κ)
  | 0, _, _ => .error .outOfFuel
  | _ + 1, none, t => .ok t
  | fuel + 1, some entry, t =>
      if (t.timeout entry).handler = handler ∧ (t.timeout entry).context = context then
        timerManagedCancelEntry entry t
      else timerManagedCancelLoop handler context fuel (listNext t.managedTimeouts entry) t

/-- `timer_managed_cancel(timer, handler, context)`. -/
def timerManagedCancel (fuel : Nat) (handler : Option η) (context : κ) (t : Timer α η κ) :
    Except Fault (Timer α η κ) := do
  assert (handler.isSome = true) "Handler can not be NULL"
  let handler ← deref handler
  timerManagedCancelLoop handler context fuel (listFirst t.managedTimeouts) t

/-! ## Field lemmas -/

section Fields

variable {t : Timer α η κ} {timeout other : α} {remaining : Int}

omit [DecidableEq η] [DecidableEq κ]

@[simp] theorem setRemaining_managedTimeouts :
    (t.setRemaining timeout remaining).managedTimeouts = t.managedTimeouts := rfl

@[simp] theorem setRemaining_timeout_self :
    (t.setRemaining timeout remaining).timeout timeout = { t.timeout timeout with remaining } := by
  simp [Timer.setRemaining]

@[simp] theorem setRemaining_timeout_of_ne (ne : other ≠ timeout) :
    (t.setRemaining timeout remaining).timeout other = t.timeout other := by
  simp [Timer.setRemaining, ne]

end Fields

end TheFirmware
