import TheFirmware.Runtime

/-!
# Sending of `platform/lpc11xx/net/can/can_rom.c`

`can_send` calls of any number of threads, statement by statement, and the callback the driver makes
for every frame once it has been transmitted. `send_lock` and `send_done` are ideal counting
semaphores: a wait goes on when the count is positive, and takes one off.

`send_lock` is held from the beginning of a call until its frame has been transmitted. A call
without `CAN_FLAG_NOWAIT` waits for `send_done` and gives the lock back itself; for a call with the
flag the callback gives it back. The callback signals `send_done` for both kinds, but nobody takes
the signal of a call with the flag: it is left over for a later call without the flag, which then
goes on before its frame has been transmitted. Up to that point frames do not overtake each other
(`reachable_exclusive`).
-/

namespace TheFirmware.CanSend

variable {τ : Type}

/-- Where a thread is in `can_send`. `frame` is the number of its frame. -/
inductive Pc : Type
  /-- Not in `can_send`. -/
  | outside
  /-- At `semaphore_wait(&can.send_lock)`. -/
  | lock (nowait : Bool)
  /-- At the assignment to `can.send_async`. -/
  | async (nowait : Bool)
  /-- At `can_rom_driver->can_transmit(&send)`. -/
  | transmit (nowait : Bool)
  /-- At `semaphore_wait(&can.send_done)`. -/
  | wait (frame : Nat)
  /-- At `semaphore_signal(&can.send_lock)`, before the return. -/
  | finish (frame : Nat)
  deriving DecidableEq, Repr

/-- `struct _can`, the threads, and the driver: the number of frames handed to it, and those it has
made no callback for. `leftover` counts the callbacks that found `send_async` set. -/
structure State (τ : Type) : Type where
  sendLock : Nat
  sendDone : Nat
  sendAsync : Bool
  pc : τ → Pc
  frames : Nat
  outstanding : List Nat
  leftover : Nat

/-- A statement of a thread in `can_send`, or `can_rom_callback_tx` for a frame. -/
inductive Event (τ : Type) : Type
  | call (thread : τ) (nowait : Bool)
  | takeLock (thread : τ)
  | setAsync (thread : τ)
  | transmit (thread : τ)
  | takeDone (thread : τ)
  | giveLock (thread : τ)
  | callback (frame : Nat)

/-- The statements that can be executed. -/
def Legal (s : State τ) : Event τ → Prop
  | .call t _ => s.pc t = .outside
  | .takeLock t => (∃ nowait, s.pc t = .lock nowait) ∧ 0 < s.sendLock
  | .setAsync t => ∃ nowait, s.pc t = .async nowait
  | .transmit t => ∃ nowait, s.pc t = .transmit nowait
  | .takeDone t => (∃ frame, s.pc t = .wait frame) ∧ 0 < s.sendDone
  | .giveLock t => ∃ frame, s.pc t = .finish frame
  | .callback frame => frame ∈ s.outstanding

variable [DecidableEq τ]

/-- The thread goes to another statement. -/
def State.goto (s : State τ) (t : τ) (pc : Pc) : State τ :=
  { s with pc := Function.update s.pc t pc }

/-- The state after a statement. -/
def exec (s : State τ) : Event τ → State τ
  | .call t nowait => s.goto t (.lock nowait)
  | .takeLock t =>
      match s.pc t with
      | .lock nowait => { s with sendLock := s.sendLock - 1 }.goto t (.async nowait)
      | _ => s
  | .setAsync t =>
      match s.pc t with
      | .async nowait => { s with sendAsync := nowait }.goto t (.transmit nowait)
      | _ => s
  | .transmit t =>
      match s.pc t with
      | .transmit nowait =>
          { s with frames := s.frames + 1, outstanding := s.outstanding ++ [s.frames] }.goto t
            (if nowait then .outside else .wait s.frames)
      | _ => s
  | .takeDone t =>
      match s.pc t with
      | .wait frame => { s with sendDone := s.sendDone - 1 }.goto t (.finish frame)
      | _ => s
  | .giveLock t => { s with sendLock := s.sendLock + 1 }.goto t .outside
  | .callback frame =>
      let s := { s with outstanding := s.outstanding.erase frame, sendDone := s.sendDone + 1 }
      if s.sendAsync then { s with sendLock := s.sendLock + 1, leftover := s.leftover + 1 } else s

/-- The state after `can_init`. -/
structure Initial (s : State τ) : Prop where
  sendLock : s.sendLock = 1
  sendDone : s.sendDone = 0
  pc : ∀ t, s.pc t = .outside
  outstanding : s.outstanding = []
  leftover : s.leftover = 0

/-- The states of the runs all of whose statements satisfy `ok`. -/
inductive Reachable (ok : State τ → Event τ → Prop) : State τ → Prop
  | init {s : State τ} (initial : Initial s) : Reachable ok s
  | step {s : State τ} {event : Event τ} (before : Reachable ok s) (legal : Legal s event)
      (allowed : ok s event) : Reachable ok (exec s event)

/-- A thread that is about to transmit finds no callback outstanding, and a thread that is about to
return has had the callback for its frame. -/
structure Exclusive (s : State τ) : Prop where
  transmit : ∀ t nowait, s.pc t = .transmit nowait → s.outstanding = []
  finish : ∀ t frame, s.pc t = .finish frame → frame ∉ s.outstanding

/-- A call takes `send_done` only when it counts more signals than the callbacks for frames with
`CAN_FLAG_NOWAIT` have left there. -/
def OwnSignal (s : State τ) : Event τ → Prop
  | .takeDone _ => s.leftover < s.sendDone
  | _ => True

/-! ## The invariant -/

/-- The thread holds `send_lock`. -/
def Pc.Holds : Pc → Prop
  | .outside => False
  | .lock _ => False
  | _ => True

/-- `send_lock` is free, or held by one thread, or by a frame that was sent with `CAN_FLAG_NOWAIT`.
Only the frame of the thread or of that call can be outstanding, and `send_done` counts what is left
over, and the callback for the frame a thread is waiting for. -/
inductive Sound (s : State τ) : Prop
  | free (lock : s.sendLock = 1) (nobody : ∀ u, ¬ (s.pc u).Holds) (flight : s.outstanding = [])
      (done : s.sendDone = s.leftover) : Sound s
  | sending (t : τ) (lock : s.sendLock = 0) (alone : ∀ u, u ≠ t → ¬ (s.pc u).Holds)
      (nowait : Bool)
      (pc : s.pc t = .async nowait ∨ s.pc t = .transmit nowait ∧ s.sendAsync = nowait)
      (flight : s.outstanding = []) (done : s.sendDone = s.leftover) : Sound s
  | waiting (t : τ) (frame : Nat) (lock : s.sendLock = 0)
      (alone : ∀ u, u ≠ t → ¬ (s.pc u).Holds) (pc : s.pc t = .wait frame)
      (sync : s.sendAsync = false)
      (flight : s.outstanding = [frame] ∧ s.sendDone = s.leftover ∨
        s.outstanding = [] ∧ s.sendDone = s.leftover + 1) : Sound s
  | finishing (t : τ) (frame : Nat) (lock : s.sendLock = 0)
      (alone : ∀ u, u ≠ t → ¬ (s.pc u).Holds) (pc : s.pc t = .finish frame)
      (flight : s.outstanding = []) (done : s.sendDone = s.leftover) : Sound s
  | async (frame : Nat) (lock : s.sendLock = 0) (nobody : ∀ u, ¬ (s.pc u).Holds)
      (async : s.sendAsync = true) (flight : s.outstanding = [frame])
      (done : s.sendDone = s.leftover) : Sound s

section Specs

variable {s : State τ} {t u : τ} {event : Event τ}

omit [DecidableEq τ] in
/-- A thread that holds the lock is the one of the invariant. -/
theorem Sound.of_holds (sound : Sound s) (holds : (s.pc t).Holds) :
    s.sendLock = 0 ∧ (∀ u, u ≠ t → ¬ (s.pc u).Holds) ∧
      ((∃ nowait, (s.pc t = .async nowait ∨ s.pc t = .transmit nowait ∧ s.sendAsync = nowait) ∧
          s.outstanding = [] ∧ s.sendDone = s.leftover) ∨
        (∃ frame, s.pc t = .wait frame ∧ s.sendAsync = false ∧
          (s.outstanding = [frame] ∧ s.sendDone = s.leftover ∨
            s.outstanding = [] ∧ s.sendDone = s.leftover + 1)) ∨
        ∃ frame, s.pc t = .finish frame ∧ s.outstanding = [] ∧ s.sendDone = s.leftover) := by
  have same : ∀ {v}, (∀ u, u ≠ v → ¬ (s.pc u).Holds) → v = t := by
    intro v alone
    by_contra ne
    exact alone t (Ne.symm ne) holds
  cases sound with
  | free lock nobody => exact absurd holds (nobody t)
  | sending v lock alone nowait pc flight done =>
      obtain rfl := same alone
      exact ⟨lock, alone, .inl ⟨nowait, pc, flight, done⟩⟩
  | waiting v frame lock alone pc sync flight =>
      obtain rfl := same alone
      exact ⟨lock, alone, .inr (.inl ⟨frame, pc, sync, flight⟩)⟩
  | finishing v frame lock alone pc flight done =>
      obtain rfl := same alone
      exact ⟨lock, alone, .inr (.inr ⟨frame, pc, flight, done⟩)⟩
  | async frame lock nobody => exact absurd holds (nobody t)

omit [DecidableEq τ] in
theorem Sound.of_sending {nowait : Bool} (sound : Sound s)
    (pc : s.pc t = .async nowait ∨ s.pc t = .transmit nowait) :
    s.sendLock = 0 ∧ (∀ u, u ≠ t → ¬ (s.pc u).Holds) ∧ s.outstanding = [] ∧
      s.sendDone = s.leftover ∧ (s.pc t = .transmit nowait → s.sendAsync = nowait) := by
  have holds : (s.pc t).Holds := by
    rcases pc with pc | pc
    · rw [pc]
      trivial
    · rw [pc]
      trivial
  obtain ⟨lock, alone, ⟨_, at_, flight, done⟩ | ⟨_, at_, -⟩ | ⟨_, at_, -⟩⟩ := sound.of_holds holds
  · refine ⟨lock, alone, flight, done, ?_⟩
    intro pc
    rcases at_ with at_ | ⟨at_, isAsync⟩
    · rw [pc] at at_
      cases at_
    · rw [pc] at at_
      cases at_
      exact isAsync
  · rw [at_] at pc
    rcases pc with pc | pc
    · cases pc
    · cases pc
  · rw [at_] at pc
    rcases pc with pc | pc
    · cases pc
    · cases pc

omit [DecidableEq τ] in
theorem Sound.of_wait {frame : Nat} (sound : Sound s) (pc : s.pc t = .wait frame) :
    s.sendLock = 0 ∧ (∀ u, u ≠ t → ¬ (s.pc u).Holds) ∧ s.sendAsync = false ∧
      (s.outstanding = [frame] ∧ s.sendDone = s.leftover ∨
        s.outstanding = [] ∧ s.sendDone = s.leftover + 1) := by
  obtain ⟨lock, alone, ⟨_, at_, -⟩ | ⟨_, at_, sync, flight⟩ | ⟨_, at_, -⟩⟩ :=
    sound.of_holds (by rw [pc]; trivial)
  · rw [pc] at at_
    rcases at_ with at_ | ⟨at_, -⟩
    · cases at_
    · cases at_
  · rw [pc] at at_
    cases at_
    exact ⟨lock, alone, sync, flight⟩
  · rw [pc] at at_
    cases at_

omit [DecidableEq τ] in
theorem Sound.of_finish {frame : Nat} (sound : Sound s) (pc : s.pc t = .finish frame) :
    s.sendLock = 0 ∧ (∀ u, u ≠ t → ¬ (s.pc u).Holds) ∧ s.outstanding = [] ∧
      s.sendDone = s.leftover := by
  obtain ⟨lock, alone, ⟨_, at_, -⟩ | ⟨_, at_, -⟩ | ⟨_, at_, flight, done⟩⟩ :=
    sound.of_holds (by rw [pc]; trivial)
  · rw [pc] at at_
    rcases at_ with at_ | ⟨at_, -⟩
    · cases at_
    · cases at_
  · rw [pc] at at_
    cases at_
  · exact ⟨lock, alone, flight, done⟩

theorem goto_pc_self (s : State τ) (t : τ) (pc : Pc) : (s.goto t pc).pc t = pc :=
  Function.update_self ..

theorem goto_pc_of_ne (ne : u ≠ t) (pc : Pc) : (s.goto t pc).pc u = s.pc u :=
  Function.update_of_ne ne ..

/-- Moving a thread that does not hold the lock. -/
theorem Sound.goto {pc : Pc} (sound : Sound s) (before : ¬ (s.pc t).Holds) (after : ¬ pc.Holds) :
    Sound (s.goto t pc) := by
  have nobody : ∀ {u}, ¬ (s.pc u).Holds → ¬ ((s.goto t pc).pc u).Holds := by
    intro u idle
    by_cases same : u = t
    · rw [same, goto_pc_self]
      exact after
    · rwa [goto_pc_of_ne same]
  have kept : ∀ {u}, (s.pc u).Holds → (s.goto t pc).pc u = s.pc u := by
    intro u holds
    apply goto_pc_of_ne
    rintro rfl
    exact before holds
  cases sound with
  | free lock idle flight done => exact .free lock (fun u => nobody (idle u)) flight done
  | sending v lock alone nowait at_ flight done =>
      have same : (s.goto t pc).pc v = s.pc v := by
        apply kept
        rcases at_ with at_ | ⟨at_, -⟩
        · rw [at_]
          trivial
        · rw [at_]
          trivial
      refine .sending v lock (fun u ne => nobody (alone u ne)) nowait ?_ flight done
      rw [same]
      exact at_
  | waiting v frame lock alone at_ sync flight =>
      refine .waiting v frame lock (fun u ne => nobody (alone u ne)) ?_ sync flight
      rw [kept (by rw [at_]; trivial), at_]
  | finishing v frame lock alone at_ flight done =>
      refine .finishing v frame lock (fun u ne => nobody (alone u ne)) ?_ flight done
      rw [kept (by rw [at_]; trivial), at_]
  | async frame lock idle isAsync flight done =>
      exact .async frame lock (fun u => nobody (idle u)) isAsync flight done

/-- When nobody else holds the lock, nobody else holds it after the thread has moved on. -/
theorem alone_goto (pc : Pc) (alone : ∀ u, u ≠ t → ¬ (s.pc u).Holds) :
    ∀ u, u ≠ t → ¬ ((s.goto t pc).pc u).Holds := by
  intro u ne
  rw [goto_pc_of_ne ne]
  exact alone u ne

/-- When the thread lets go of the lock, nobody holds it. -/
theorem nobody_goto {pc : Pc} (idle : ¬ pc.Holds) (alone : ∀ u, u ≠ t → ¬ (s.pc u).Holds) :
    ∀ u, ¬ ((s.goto t pc).pc u).Holds := by
  intro u
  by_cases same : u = t
  · rw [same, goto_pc_self]
    exact idle
  · exact alone_goto pc alone u same

theorem Sound.takeLock (sound : Sound s) (legal : Legal s (.takeLock t)) :
    Sound (exec s (.takeLock t)) := by
  obtain ⟨⟨nowait, pc⟩, positive⟩ := legal
  rw [exec, pc]
  cases sound with
  | free lock nobody flight done =>
      refine .sending t ?_ (alone_goto _ fun u _ => nobody u) nowait (.inl (goto_pc_self _ t _))
        flight done
      show s.sendLock - 1 = 0
      rw [lock]
  | sending _ lock => omega
  | waiting _ _ lock => omega
  | finishing _ _ lock => omega
  | async _ lock => omega

theorem Sound.setAsync (sound : Sound s) (legal : Legal s (.setAsync t)) :
    Sound (exec s (.setAsync t)) := by
  obtain ⟨nowait, pc⟩ := legal
  obtain ⟨lock, alone, flight, done, -⟩ := sound.of_sending (.inl pc)
  rw [exec, pc]
  exact .sending t lock (alone_goto _ alone) nowait (.inr ⟨goto_pc_self _ t _, rfl⟩) flight done

theorem Sound.transmit (sound : Sound s) (legal : Legal s (.transmit t)) :
    Sound (exec s (.transmit t)) := by
  obtain ⟨nowait, pc⟩ := legal
  obtain ⟨lock, alone, flight, done, isAsync⟩ := sound.of_sending (.inr pc)
  have sent : s.outstanding ++ [s.frames] = [s.frames] := by
    rw [flight]
    rfl
  rw [exec, pc]
  cases nowait with
  | true => exact .async s.frames lock (nobody_goto id alone) (isAsync pc) sent done
  | false =>
      exact .waiting t s.frames lock (alone_goto _ alone) (goto_pc_self _ t _) (isAsync pc)
        (.inl ⟨sent, done⟩)

/-- A signal that is not left over is that of the callback for the frame. -/
theorem Sound.takeDone (sound : Sound s) (legal : Legal s (.takeDone t))
    (own : OwnSignal s (.takeDone t)) : Sound (exec s (.takeDone t)) := by
  obtain ⟨⟨frame, pc⟩, -⟩ := legal
  obtain ⟨lock, alone, -, flight⟩ := sound.of_wait pc
  have more : s.leftover < s.sendDone := own
  rw [exec, pc]
  rcases flight with ⟨flight, done⟩ | ⟨flight, done⟩
  · omega
  · refine .finishing t frame lock (alone_goto _ alone) (goto_pc_self _ t _) flight ?_
    show s.sendDone - 1 = s.leftover
    omega

theorem Sound.giveLock (sound : Sound s) (legal : Legal s (.giveLock t)) :
    Sound (exec s (.giveLock t)) := by
  obtain ⟨frame, pc⟩ := legal
  obtain ⟨lock, alone, flight, done⟩ := sound.of_finish pc
  refine .free ?_ (nobody_goto id alone) flight done
  show s.sendLock + 1 = 1
  rw [lock]

omit [DecidableEq τ] in
theorem erase_flight {frame frame' : Nat} (flight : s.outstanding = [frame'])
    (mem : frame ∈ s.outstanding) : s.outstanding.erase frame = [] := by
  rw [flight] at mem ⊢
  rw [List.mem_singleton.mp mem, List.erase_cons_head]

theorem Sound.callback {frame : Nat} (sound : Sound s) (legal : Legal s (.callback frame)) :
    Sound (exec s (.callback frame)) := by
  have mem : frame ∈ s.outstanding := legal
  cases sound with
  | free lock nobody flight =>
      rw [flight] at mem
      cases mem
  | sending v lock alone nowait at_ flight =>
      rw [flight] at mem
      cases mem
  | waiting v frame' lock alone at_ sync flight =>
      rcases flight with ⟨flight, done⟩ | ⟨flight, -⟩
      · simp only [exec, sync, Bool.false_eq_true, if_false]
        refine .waiting v frame' lock alone at_ rfl (.inr ⟨erase_flight flight mem, ?_⟩)
        show s.sendDone + 1 = s.leftover + 1
        rw [done]
      · rw [flight] at mem
        cases mem
  | finishing v frame' lock alone at_ flight =>
      rw [flight] at mem
      cases mem
  | async frame' lock nobody isAsync flight done =>
      simp only [exec, isAsync, if_true]
      refine .free ?_ nobody (erase_flight flight mem) ?_
      · show s.sendLock + 1 = 1
        rw [lock]
      · show s.sendDone + 1 = s.leftover + 1
        rw [done]

/-- Every statement keeps the invariant. -/
theorem Sound.exec (sound : Sound s) (legal : Legal s event) (own : OwnSignal s event) :
    Sound (exec s event) := by
  cases event with
  | call t nowait =>
      have outside : s.pc t = .outside := legal
      exact sound.goto (by rw [outside]; exact id) id
  | takeLock t => exact sound.takeLock legal
  | setAsync t => exact sound.setAsync legal
  | transmit t => exact sound.transmit legal
  | takeDone t => exact sound.takeDone legal own
  | giveLock t => exact sound.giveLock legal
  | callback frame => exact sound.callback legal

theorem Reachable.sound (reach : Reachable OwnSignal s) : Sound s := by
  induction reach with
  | init initial =>
      refine .free initial.sendLock ?_ initial.outstanding ?_
      · intro u
        rw [initial.pc u]
        exact id
      · rw [initial.sendDone, initial.leftover]
  | step _ legal own ih => exact ih.exec legal own

omit [DecidableEq τ] in
theorem Sound.exclusive (sound : Sound s) : Exclusive s := by
  constructor
  · intro t nowait pc
    obtain ⟨-, -, flight, -⟩ := sound.of_sending (.inr pc)
    exact flight
  · intro t frame pc
    obtain ⟨-, -, flight, -⟩ := sound.of_finish pc
    rw [flight]
    simp

/-- A call that takes a signal that was left over goes on while its frame is outstanding. -/
theorem Sound.not_exclusive_exec (sound : Sound s) (legal : Legal s event)
    (other : ¬ OwnSignal s event) : ¬ Exclusive (CanSend.exec s event) := by
  cases event with
  | takeDone t =>
      obtain ⟨⟨frame, pc⟩, -⟩ := legal
      obtain ⟨-, -, -, flight⟩ := sound.of_wait pc
      have few : ¬ s.leftover < s.sendDone := other
      intro exclusive
      have called : frame ∉ (CanSend.exec s (.takeDone t)).outstanding := by
        apply exclusive.finish t
        rw [CanSend.exec, pc]
        exact goto_pc_self _ t _
      rw [CanSend.exec, pc] at called
      rcases flight with ⟨flight, -⟩ | ⟨-, done⟩
      · exact called (flight ▸ List.mem_singleton_self frame)
      · omega
  | call => exact absurd trivial other
  | takeLock => exact absurd trivial other
  | setAsync => exact absurd trivial other
  | transmit => exact absurd trivial other
  | giveLock => exact absurd trivial other
  | callback => exact absurd trivial other

/-- **Transmissions are exclusive**: in every state of every run in which no call takes a signal of
`send_done` that was left over, `can_transmit` is called only when no callback is outstanding, and a
call without `CAN_FLAG_NOWAIT` returns only after the callback for its frame. The first call that
takes a signal that was left over is on its way to return while its frame is outstanding. -/
theorem reachable_exclusive (s : State τ) (reach : Reachable OwnSignal s) :
    Exclusive s ∧
      ∀ event, Legal s event → ¬ OwnSignal s event → ¬ Exclusive (exec s event) :=
  ⟨reach.sound.exclusive, fun _ => reach.sound.not_exclusive_exec⟩

end Specs

/-! ## A run of one thread -/

/-- The state after `can_init`, with one thread. -/
def oneThread : State Unit :=
  { sendLock := 1, sendDone := 0, sendAsync := false, pc := fun _ => .outside, frames := 0,
    outstanding := [], leftover := 0 }

/-- The events that can be executed one after the other, all of them allowed. -/
def Legals (ok : State τ → Event τ → Prop) : State τ → List (Event τ) → Prop
  | _, [] => True
  | s, event :: events => (Legal s event ∧ ok s event) ∧ Legals ok (exec s event) events

theorem Reachable.run {ok : State τ → Event τ → Prop} {events : List (Event τ)} {s : State τ}
    (reach : Reachable ok s) (legals : Legals ok s events) :
    Reachable ok (events.foldl exec s) := by
  induction events generalizing s with
  | nil => exact reach
  | cons event events ih =>
      obtain ⟨⟨legal, allowed⟩, rest⟩ := legals
      exact ih (reach.step legal allowed) rest

/-- The call of frame 0 is not made to wait: its callback leaves a signal. The call of frame 1 takes
it at once, and the third call gets to `can_transmit` while frame 1 is outstanding. -/
def overtaking : List (Event Unit) :=
  [.call () true, .takeLock (), .setAsync (), .transmit (), .callback 0,
    .call () false, .takeLock (), .setAsync (), .transmit (), .takeDone (), .giveLock (),
    .call () true, .takeLock (), .setAsync ()]

/-- Without the condition on the signals the third call of the run transmits its frame while frame 1
is outstanding, and the call of frame 1 is about to return without the callback for its frame. -/
theorem not_exclusive_overtaking :
    ¬ (∀ s : State Unit, Reachable (fun _ _ => True) s →
        ∀ nowait, s.pc () = .transmit nowait → s.outstanding = []) ∧
      ¬ (∀ s : State Unit, Reachable (fun _ _ => True) s →
        ∀ frame, s.pc () = .finish frame → frame ∉ s.outstanding) := by
  have initial : Initial oneThread := ⟨rfl, rfl, fun _ => rfl, rfl, rfl⟩
  have start : Reachable (fun _ _ => True) oneThread := .init initial
  have returning : Reachable (fun _ _ => True) ((overtaking.take 10).foldl exec oneThread) := by
    apply start.run
    simp [overtaking, Legals, Legal, exec, State.goto, oneThread]
  have transmitting : Reachable (fun _ _ => True) (overtaking.foldl exec oneThread) := by
    apply start.run
    simp [overtaking, Legals, Legal, exec, State.goto, oneThread]
  constructor
  · intro exclusive
    exact absurd (exclusive _ transmitting true rfl) (by decide)
  · intro exclusive
    exact exclusive _ returning 1 rfl (by decide)

/-- A call without the flag that takes the signal of its own frame. -/
theorem reachable_exclusive_oneThread :
    Exclusive (([.call () false, .takeLock (), .setAsync (), .transmit (), .callback 0,
      .takeDone ()] : List (Event Unit)).foldl exec oneThread) := by
  refine (reachable_exclusive _ (Reachable.run (.init ⟨rfl, rfl, fun _ => rfl, rfl, rfl⟩) ?_)).1
  simp [Legals, Legal, exec, State.goto, oneThread, OwnSignal]

end TheFirmware.CanSend
