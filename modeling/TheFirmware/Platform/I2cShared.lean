import TheFirmware.Lib.Lock
import TheFirmware.Platform.I2cWire

/-!
# Threads that share an I2C master

`i2c_dev_transfer` calls of any number of threads, statement by statement, and between the
statements the hardware with a slave, whose status codes interrupt whatever thread is running. The
semaphores are ideal counting semaphores, as in `TheFirmware.Platform.Uart`; `done` is counted in
the state of the master.

A thread may be given the lock while the stop condition of the transfer before is still to be sent:
the hardware then sends it first. Whatever the order is in which all this happens, each call gets
the answer of its own transaction, and the transactions come one after the other in the order in
which the calls return (`reachable_shared`).
-/

namespace TheFirmware.I2c.Shared

variable {τ δ : Type}

/-- A statement of `i2c_dev_transfer` between the two waits. -/
inductive Statement : Type
  | addr
  | writeBuffer
  | writeBufferLength
  | readBuffer
  | readBufferLength
  | start
  deriving DecidableEq, Repr

/-- Where a thread is. -/
inductive Pc : Type
  | outside
  /-- At `semaphore_wait(&dev->lock)`. -/
  | lock (q : Request)
  | configure (q : Request) (statement : Statement)
  /-- At `semaphore_wait(&dev->done)`. -/
  | wait (q : Request)
  /-- At `status_t status = dev->status`. -/
  | status (q : Request)
  /-- At `semaphore_signal(&dev->lock)`, with what the caller gets. -/
  | signal (q : Request) (answer : Answer)

/-- `struct i2c_dev` with the master, the slave, the threads, and the calls that have returned. -/
structure Device (τ δ : Type) : Type where
  master : State
  slave : δ
  lock : Nat
  pc : τ → Pc
  returned : List (τ × Request × Answer)

/-- The state after `i2c_dev_create`. -/
structure Initial (d : δ) (s : Device τ δ) : Prop where
  activity : s.master.activity = .stop
  sto : s.master.con.sto = false
  sta : s.master.con.sta = false
  done : s.master.done = 0
  slave : s.slave = d
  lock : s.lock = 1
  pc : ∀ t, s.pc t = .outside
  returned : s.returned = []

/-- A call or a statement of a thread, or a step of the hardware. -/
inductive Event (τ : Type) : Type
  | call (thread : τ) (q : Request)
  | step (thread : τ)
  | wire

/-- The semaphore a thread waits for can be taken. -/
def Device.Ready (s : Device τ δ) : Pc → Prop
  | .outside => False
  | .lock _ => 0 < s.lock
  | .wait _ => 0 < s.master.done
  | _ => True

/-- What can happen. The hardware does nothing when there is no transfer and no condition is asked
for. -/
def Legal (s : Device τ δ) : Event τ → Prop
  | .call t _ => s.pc t = .outside
  | .step t => s.Ready (s.pc t)
  | .wire => s.master.activity = .stop → s.master.con.sto = true ∨ s.master.con.sta = true

/-- The transfer that is asked for. -/
def Request.transfer (q : Request) : Transfer := transferOf q.addr q.bytes q.buffer q.n

/-- A store to a field of `dev`. `LPC_I2C->CONSET = kCONSET_STA` begins the logs of the transfer. -/
def Statement.exec (t : Transfer) (m : State) : Statement → State
  | .addr => { m with addr := t.addr }
  | .writeBuffer => { m with writeBuffer := t.writeBuffer }
  | .writeBufferLength => { m with writeBufferLength := t.writeBufferLength }
  | .readBuffer => { m with readBuffer := t.readBuffer }
  | .readBufferLength => { m with readBufferLength := t.readBufferLength }
  | .start => { m.conset consetSta with sent := [], stores := [] }

/-- Where the thread goes from a statement. -/
def Statement.next (q : Request) : Statement → Pc
  | .addr => .configure q .writeBuffer
  | .writeBuffer => .configure q .writeBufferLength
  | .writeBufferLength => .configure q .readBuffer
  | .readBuffer => .configure q .readBufferLength
  | .readBufferLength => .configure q .start
  | .start => .wait q

/-- A step of the hardware: a status code with the handler, or a stop or start condition that is
asked for when there is no transfer. -/
def wire (slave : Slave δ) (m : State) (d : δ) : State × δ :=
  match slave.answer m d with
  | some (r, d) => (m.report r, d)
  | none =>
      if m.con.sto then ({ m with con := { m.con with sto := false } }, slave.stop d)
      else if m.con.sta then ({ m with activity := .start }, d)
      else (m, d)

section Steps

variable [DecidableEq τ]

/-- The thread goes to another statement. -/
def Device.goto (s : Device τ δ) (t : τ) (pc : Pc) : Device τ δ :=
  { s with pc := Function.update s.pc t pc }

/-- The next statement of a thread. -/
def step (s : Device τ δ) (t : τ) : Device τ δ :=
  match s.pc t with
  | .outside => s
  | .lock q => { s with lock := s.lock - 1 }.goto t (.configure q .addr)
  | .configure q statement =>
      { s with master := statement.exec (Request.transfer q) s.master }.goto t (statement.next q)
  | .wait q => { s with master := { s.master with done := s.master.done - 1 } }.goto t (.status q)
  | .status q => s.goto t (.signal q (s.master.status, s.master.readBuffer))
  | .signal q answer =>
      { s with lock := s.lock + 1, returned := s.returned ++ [(t, q, answer)] }.goto t .outside

/-- The state after an event. -/
def exec (slave : Slave δ) (s : Device τ δ) : Event τ → Device τ δ
  | .call t q => s.goto t (.lock q)
  | .step t => step s t
  | .wire => { s with master := (wire slave s.master s.slave).1
                      slave := (wire slave s.master s.slave).2 }

/-- The states that a slave and its master can get into. -/
inductive Reachable (slave : Slave δ) (d : δ) : Device τ δ → Prop
  | init {s : Device τ δ} (initial : Initial d s) : Reachable slave d s
  | step {s : Device τ δ} {event : Event τ} (before : Reachable slave d s)
      (legal : Legal s event) : Reachable slave d (exec slave s event)

/-- A run in which no calls are made. -/
inductive Continues (slave : Slave δ) : Device τ δ → Device τ δ → Prop
  | refl (s : Device τ δ) : Continues slave s s
  | step {s s' : Device τ δ} {t : τ} (ready : s.Ready (s.pc t))
      (rest : Continues slave (Shared.step s t) s') : Continues slave s s'
  | wire {s s' : Device τ δ} (legal : Legal s .wire)
      (rest : Continues slave (exec slave s .wire) s') : Continues slave s s'

end Steps

/-! ## The section between the semaphores -/

/-- A thread that holds the lock. -/
def Pc.inside : Pc → Option Pc
  | .outside => none
  | .lock _ => none
  | pc => some pc

/-- There is no transfer. -/
structure Quiet (m : State) : Prop where
  activity : m.activity = .stop
  sta : m.con.sta = false
  done : m.done = 0

/-- The slave once a stop condition that is asked for has been sent. -/
def settled (slave : Slave δ) (m : State) (d : δ) : δ := if m.con.sto then slave.stop d else d

/-- The fields that have been stored when a thread is at a statement. -/
def Configured (t : Transfer) (m : State) : Statement → Prop
  | .addr => True
  | .writeBuffer => m.addr = t.addr
  | .writeBufferLength => m.addr = t.addr ∧ m.writeBuffer = t.writeBuffer
  | .readBuffer => (m.addr = t.addr ∧ m.writeBuffer = t.writeBuffer) ∧
      m.writeBufferLength = t.writeBufferLength
  | .readBufferLength => ((m.addr = t.addr ∧ m.writeBuffer = t.writeBuffer) ∧
      m.writeBufferLength = t.writeBufferLength) ∧ m.readBuffer = t.readBuffer
  | .start => (((m.addr = t.addr ∧ m.writeBuffer = t.writeBuffer) ∧
      m.writeBufferLength = t.writeBufferLength) ∧ m.readBuffer = t.readBuffer) ∧
      m.readBufferLength = t.readBufferLength

/-- What the transfer of a request comes to with a slave. -/
def outcomeOf (slave : Slave δ) (q : Request) (d : δ) : Outcome δ :=
  slave.transaction d q.addr q.bytes q.n

/-- What the caller gets. -/
def answerOf (q : Request) (outcome : Outcome δ) : Answer :=
  (outcome.1, fun i => (outcome.2.1[i]?).getD (q.buffer i))

/-- The transfer has ended, and the slave with it. -/
structure Finished (slave : Slave δ) (q : Request) (outcome : Outcome δ) (m : State) (d : δ) :
    Prop where
  status : m.status = outcome.1
  buffer : m.readBuffer = (answerOf q outcome).2
  slave : settled slave m d = outcome.2.2

/-- How far the owner of the lock is: `d₀` is the slave after the calls that have returned. -/
inductive Progress (slave : Slave δ) (d₀ : δ) (m : State) (d : δ) : Option (τ × Pc) → Prop
  | free (quiet : Quiet m) (same : settled slave m d = d₀) : Progress slave d₀ m d none
  | configure {t : τ} {q : Request} {statement : Statement} (quiet : Quiet m)
      (configured : Configured (Request.transfer q) m statement) (same : settled slave m d = d₀) :
      Progress slave d₀ m d (some (t, .configure q statement))
  | asked {t : τ} {q : Request} (activity : m.activity = .stop) (sta : m.con.sta = true)
      (done : m.done = 0) (configured : Configured (Request.transfer q) m .start)
      (sent : m.sent = []) (stores : m.stores = []) (same : settled slave m d = d₀) :
      Progress slave d₀ m d (some (t, .wait q))
  | going {t : τ} {q : Request} (activity : m.activity ≠ .stop) (done : m.done = 0)
      (reaches : slave.Reaches (Request.transfer q) m d (outcomeOf slave q d₀)) :
      Progress slave d₀ m d (some (t, .wait q))
  | ended {t : τ} {q : Request} (activity : m.activity = .stop) (sta : m.con.sta = false)
      (done : m.done = 1) (finished : Finished slave q (outcomeOf slave q d₀) m d) :
      Progress slave d₀ m d (some (t, .wait q))
  | status {t : τ} {q : Request} (quiet : Quiet m)
      (finished : Finished slave q (outcomeOf slave q d₀) m d) :
      Progress slave d₀ m d (some (t, .status q))
  | signal {t : τ} {q : Request} (quiet : Quiet m)
      (same : settled slave m d = (outcomeOf slave q d₀).2.2) :
      Progress slave d₀ m d (some (t, .signal q (answerOf q (outcomeOf slave q d₀))))

/-- The calls that have returned. -/
def Device.calls (s : Device τ δ) : List Request := s.returned.map fun entry => entry.2.1

/-- The invariant, with the owner of the lock. -/
structure Sound (slave : Slave δ) (d : δ) (s : Device τ δ) (owner : Option (τ × Pc)) : Prop where
  lock : Owner (Pc.inside ∘ s.pc) s.lock owner
  progress : Progress slave (slave.transactions s.calls d).2 s.master s.slave owner
  answers : s.returned.map (fun entry => entry.2.2) = (slave.transactions s.calls d).1

/-! ## The hardware -/

section Wire

variable {slave : Slave δ} {m : State} {d d₀ d' : δ} {q : Request} {t : Transfer} {r : Report}
  {owner : Option (τ × Pc)} {outcome : Outcome δ}

theorem answer_stop (activity : m.activity = .stop) : slave.answer m d = none := by
  unfold Slave.answer
  rw [activity]

theorem answer_going (slave : Slave δ) (d : δ) (going : m.activity ≠ .stop) :
    ∃ r d', slave.answer m d = some (r, d') := by
  unfold Slave.answer
  cases activity : m.activity with
  | stop => exact absurd activity going
  | start => exact ⟨_, _, rfl⟩
  | repeatedStart => exact ⟨_, _, rfl⟩
  | addressWrite => exact ⟨_, _, rfl⟩
  | addressRead => exact ⟨_, _, rfl⟩
  | sendData => exact ⟨_, _, rfl⟩
  | receive ack => exact ⟨_, _, rfl⟩

theorem wire_sto (slave : Slave δ) (d : δ) (activity : m.activity = .stop)
    (sto : m.con.sto = true) :
    wire slave m d = ({ m with con := { m.con with sto := false } }, slave.stop d) := by
  unfold wire
  rw [answer_stop activity]
  exact if_pos sto

theorem wire_sta (slave : Slave δ) (d : δ) (activity : m.activity = .stop) (sto : m.con.sto = false)
    (sta : m.con.sta = true) : wire slave m d = ({ m with activity := .start }, d) := by
  unfold wire
  rw [answer_stop activity, sto, sta]
  rfl

theorem wire_answer (answered : slave.answer m d = some (r, d')) :
    wire slave m d = (m.report r, d') := by
  unfold wire
  rw [answered]

/-- The stop condition is sent at last. -/
theorem settled_wire (slave : Slave δ) (d : δ) (activity : m.activity = .stop)
    (sto : m.con.sto = true) :
    settled slave (wire slave m d).1 (wire slave m d).2 = settled slave m d := by
  rw [wire_sto slave d activity sto]
  unfold settled
  rw [if_pos sto]
  rfl

/-- A run that is going on goes on. -/
theorem reaches_report (answered : slave.answer m d = some (r, d'))
    (reaches : slave.Reaches t m d outcome) : slave.Reaches t (m.report r) d' outcome := by
  rcases reaches with ⟨s', ⟨bound, ran⟩, ended⟩
  refine ⟨s', ⟨bound, fun fuel enough => ?_⟩, ended⟩
  have more := ran (fuel + 1) (Nat.le_succ_of_le enough)
  simp only [Slave.run, answered] at more
  exact more

/-- A run that is at its end is over. -/
theorem ended_of_reaches (activity : m.activity = .stop) (reaches : slave.Reaches t m d outcome) :
    Ended t outcome.1 outcome.2.1 m ∧ slave.stop d = outcome.2.2 := by
  rcases reaches with ⟨s', ⟨bound, ran⟩, ended⟩
  have last := ran (bound + 1) (Nat.le_succ bound)
  simp only [Slave.run, answer_stop activity, Except.ok.injEq, Prod.mk.injEq] at last
  rcases last with ⟨rfl, slave⟩
  exact ⟨ended, slave⟩

/-- A start condition that is sent with all fields stored begins the transfer. -/
theorem i2cDevTransfer_eq {q : Request} (sto : m.con.sto = false) (sta : m.con.sta = true)
    (done : m.done = 0) (configured : Configured (Request.transfer q) m .start)
    (sent : m.sent = []) (stores : m.stores = []) :
    { m with activity := .start } = i2cDevTransfer m (Request.transfer q) := by
  rcases configured with ⟨⟨⟨⟨addr, writeBuffer⟩, writeBufferLength⟩, readBuffer⟩, readBufferLength⟩
  have con : m.con = { m.con with sto := false }.conset consetSta := by
    cases con : m.con with
    | mk aa si sto' sta' =>
      rw [con] at sto sta
      simp only [Con.conset, consetSta, Bool.or_false, Bool.or_true]
      exact congrArg₂ (Con.mk aa si) sto sta
  unfold i2cDevTransfer
  rw [← con, ← addr, ← writeBuffer, ← writeBufferLength, ← readBuffer, ← readBufferLength, ← done,
    ← sent, ← stores]

/-- The handler signals `done` only with a stop condition. -/
theorem isr_done (state : UInt8) (m : State) :
    (i2cDevIsr state m).done = m.done ∨ (i2cDevIsr state m).con.sto = true := by
  unfold i2cDevIsr
  split
  · exact .inl rfl
  · exact .inl rfl
  · by_cases more : m.writeBufferIndex < m.writeBufferLength
    · simp [more]
    · simp [more]
  · by_cases more : m.writeBufferIndex < m.writeBufferLength
    · simp [more]
    · by_cases reading : 0 < m.readBufferLength
      · simp [more, reading]
      · simp [more, reading]
  · by_cases more : m.readBufferIndex + 1 < m.readBufferLength
    · simp [more]
    · simp [more]
  · by_cases more : m.readBufferIndex + 1 + 1 < m.readBufferLength
    · simp [more]
    · simp [more]
  · exact .inr (by simp)
  · exact .inr (by simp)
  · exact .inr (by simp)
  · exact .inr (by simp)

theorem report_done (going : (m.report r).activity ≠ .stop) : (m.report r).done = m.done := by
  rcases isr_done r.state (m.raise r) with same | sto
  · have raised : (m.raise r).done = m.done := rfl
    rw [← raised, ← same]
    unfold State.report State.proceed
    split
    · rfl
    · rfl
  · refine absurd ?_ going
    have stop : next r.state (i2cDevIsr r.state (m.raise r)).con = .stop := if_pos sto
    unfold State.report State.proceed
    rw [stop]

theorem Configured.con {statement : Statement} (configured : Configured t m statement) (con : Con) :
    Configured t { m with con := con } statement := by
  cases statement with
  | addr => trivial
  | writeBuffer => exact configured
  | writeBufferLength => exact configured
  | readBuffer => exact configured
  | readBufferLength => exact configured
  | start => exact configured

/-- The stop condition of a transfer is sent when there is no transfer. -/
theorem Quiet.wire (quiet : Quiet m) (sto : m.con.sto = true) : Quiet (wire slave m d).1 := by
  rw [wire_sto slave d quiet.activity sto]
  exact ⟨quiet.activity, quiet.sta, quiet.done⟩

theorem Finished.wire (finished : Finished slave q outcome m d) (activity : m.activity = .stop)
    (sto : m.con.sto = true) : Finished slave q outcome (wire slave m d).1 (wire slave m d).2 := by
  refine ⟨?_, ?_, (settled_wire slave d activity sto).trans finished.slave⟩
  · rw [wire_sto slave d activity sto]
    exact finished.status
  · rw [wire_sto slave d activity sto]
    exact finished.buffer

/-- The hardware begins the transfer that is asked for. -/
theorem Progress.start {u : τ} (activity : m.activity = .stop) (sto : m.con.sto = false)
    (sta : m.con.sta = true) (done : m.done = 0)
    (configured : Configured (Request.transfer q) m .start) (sent : m.sent = [])
    (stores : m.stores = []) (same : settled slave m d = d₀) :
    Progress slave d₀ (Shared.wire slave m d).1 (Shared.wire slave m d).2 (some (u, .wait q)) := by
  have slave_same : d = d₀ := by
    unfold settled at same
    rwa [sto] at same
  rw [wire_sta slave d activity sto sta, slave_same]
  refine .going (fun stop => nomatch stop) done ?_
  rw [i2cDevTransfer_eq sto sta done configured sent stores]
  exact reaches_transaction slave m d₀ q.nonempty q.short q.fits

/-- A status code, and the handler. -/
theorem Progress.report {u : τ} (going : m.activity ≠ .stop) (done : m.done = 0)
    (reaches : slave.Reaches (Request.transfer q) m d (outcomeOf slave q d₀)) :
    Progress slave d₀ (Shared.wire slave m d).1 (Shared.wire slave m d).2 (some (u, .wait q)) := by
  rcases answer_going slave d going with ⟨r, d', answered⟩
  rw [wire_answer answered]
  have reaches := reaches_report answered reaches
  by_cases activity : (m.report r).activity = .stop
  · rcases ended_of_reaches activity reaches with ⟨ended, last⟩
    refine .ended activity ended.sta ended.done ⟨ended.status, funext ended.readBuffer, ?_⟩
    unfold settled
    rw [if_pos ended.sto]
    exact last
  · exact .going activity ((report_done activity).trans done) reaches

/-- A step of the hardware. -/
theorem Progress.wire (progress : Progress slave d₀ m d owner)
    (legal : m.activity = .stop → m.con.sto = true ∨ m.con.sta = true) :
    Progress slave d₀ (wire slave m d).1 (wire slave m d).2 owner := by
  have stops : m.activity = .stop → m.con.sta = false → m.con.sto = true := by
    intro activity sta
    rcases legal activity with sto | asked
    · exact sto
    · rw [sta] at asked
      cases asked
  cases progress with
  | free quiet same =>
    have sto := stops quiet.activity quiet.sta
    exact .free (quiet.wire sto) ((settled_wire slave d quiet.activity sto).trans same)
  | configure quiet configured same =>
    have sto := stops quiet.activity quiet.sta
    refine .configure (quiet.wire sto) ?_ ((settled_wire slave d quiet.activity sto).trans same)
    rw [wire_sto slave d quiet.activity sto]
    exact configured.con _
  | asked activity sta done configured sent stores same =>
    cases sto : m.con.sto with
    | true =>
      have kept := (settled_wire slave d activity sto).trans same
      rw [wire_sto slave d activity sto] at kept ⊢
      exact .asked activity sta done (configured.con _) sent stores kept
    | false => exact .start activity sto sta done configured sent stores same
  | going activity done reaches => exact .report activity done reaches
  | ended activity sta done finished =>
    have sto := stops activity sta
    have finished := finished.wire activity sto
    rw [wire_sto slave d activity sto] at finished ⊢
    exact .ended activity sta done finished
  | status quiet finished =>
    have sto := stops quiet.activity quiet.sta
    exact .status (quiet.wire sto) (finished.wire quiet.activity sto)
  | signal quiet same =>
    have sto := stops quiet.activity quiet.sta
    exact .signal (quiet.wire sto) ((settled_wire slave d quiet.activity sto).trans same)

end Wire

/-! ## The threads -/

section Threads

variable {slave : Slave δ} {s s' : Device τ δ} {d d₀ : δ} {t : τ} {q : Request} {m : State}
  {owner : Option (τ × Pc)} {event : Event τ}

/-- A store to a field. -/
theorem Progress.statement {u : τ} {statement : Statement} (quiet : Quiet m)
    (configured : Configured (Request.transfer q) m statement) (same : settled slave m d = d₀) :
    Progress slave d₀ (statement.exec (Request.transfer q) m) d (some (u, statement.next q)) := by
  cases statement with
  | addr => exact .configure ⟨quiet.activity, quiet.sta, quiet.done⟩ rfl same
  | writeBuffer =>
    exact .configure ⟨quiet.activity, quiet.sta, quiet.done⟩ ⟨configured, rfl⟩ same
  | writeBufferLength =>
    exact .configure ⟨quiet.activity, quiet.sta, quiet.done⟩ ⟨configured, rfl⟩ same
  | readBuffer =>
    exact .configure ⟨quiet.activity, quiet.sta, quiet.done⟩ ⟨configured, rfl⟩ same
  | readBufferLength =>
    exact .configure ⟨quiet.activity, quiet.sta, quiet.done⟩ ⟨configured, rfl⟩ same
  | start =>
    refine .asked quiet.activity (Bool.or_true _) quiet.done configured rfl rfl ?_
    have sto : (Statement.start.exec (Request.transfer q) m).con.sto = m.con.sto :=
      Bool.or_false _
    unfold settled at same ⊢
    rw [sto]
    exact same

/-- The transfer that a thread has been woken up for has ended. -/
theorem Progress.woken (progress : Progress slave d₀ m d (some (t, .wait q)))
    (signalled : 0 < m.done) :
    m.activity = .stop ∧ m.con.sta = false ∧ m.done = 1 ∧
      Finished slave q (outcomeOf slave q d₀) m d := by
  cases progress with
  | asked _ _ done =>
    rw [done] at signalled
    cases signalled
  | going _ done =>
    rw [done] at signalled
    cases signalled
  | ended activity sta done finished => exact ⟨activity, sta, done, finished⟩

/-- One more call. -/
theorem transactions_append (slave : Slave δ) (requests : List Request) (q : Request) (d : δ) :
    slave.transactions (requests ++ [q]) d =
      ((slave.transactions requests d).1 ++
          [answerOf q (outcomeOf slave q (slave.transactions requests d).2)],
        (outcomeOf slave q (slave.transactions requests d).2).2.2) := by
  induction requests generalizing d with
  | nil => rfl
  | cons r requests ih =>
    simp only [List.cons_append, Slave.transactions, ih]

variable [DecidableEq τ]

theorem inside_goto (s : Device τ δ) (t : τ) (pc : Pc) :
    Pc.inside ∘ (s.goto t pc).pc = Function.update (Pc.inside ∘ s.pc) t pc.inside :=
  Function.comp_update ..

theorem Sound.step (sound : Sound slave d s owner) (ready : s.Ready (s.pc t)) :
    ∃ owner, Sound slave d (step s t) owner := by
  unfold Shared.step
  cases here : s.pc t with
  | outside => exact ⟨owner, sound⟩
  | lock q =>
    rw [here] at ready
    rcases sound.lock.of_pos ready with ⟨-, rfl⟩
    refine ⟨some (t, .configure q .addr), ?_, ?_, sound.answers⟩
    · rw [inside_goto]
      exact sound.lock.acquire ready t _
    · cases sound.progress with
      | free quiet same => exact .configure quiet trivial same
  | configure q statement =>
    have view : (Pc.inside ∘ s.pc) t = some (.configure q statement) := congrArg Pc.inside here
    rcases sound.lock.eq_of_holds view with ⟨-, rfl⟩
    refine ⟨some (t, statement.next q), ?_, ?_, sound.answers⟩
    · rw [inside_goto]
      have inside : (statement.next q).inside = some (statement.next q) := by
        cases statement <;> rfl
      rw [inside]
      exact sound.lock.advance view _
    · cases sound.progress with
      | configure quiet configured same => exact .statement quiet configured same
  | wait q =>
    rw [here] at ready
    have view : (Pc.inside ∘ s.pc) t = some (.wait q) := congrArg Pc.inside here
    rcases sound.lock.eq_of_holds view with ⟨-, rfl⟩
    rcases sound.progress.woken ready with ⟨activity, sta, done, finished⟩
    refine ⟨some (t, .status q), ?_, ?_, sound.answers⟩
    · rw [inside_goto]
      exact sound.lock.advance view _
    · refine .status ⟨activity, sta, ?_⟩ ⟨finished.status, finished.buffer, finished.slave⟩
      exact congrArg (· - 1) done
  | status q =>
    have view : (Pc.inside ∘ s.pc) t = some (.status q) := congrArg Pc.inside here
    rcases sound.lock.eq_of_holds view with ⟨-, rfl⟩
    refine ⟨some (t, .signal q (s.master.status, s.master.readBuffer)), ?_, ?_, sound.answers⟩
    · rw [inside_goto]
      exact sound.lock.advance view _
    · cases sound.progress with
      | status quiet finished =>
        rw [finished.status, finished.buffer]
        exact .signal quiet finished.slave
  | signal q answer =>
    have view : (Pc.inside ∘ s.pc) t = some (.signal q answer) := congrArg Pc.inside here
    rcases sound.lock.eq_of_holds view with ⟨-, rfl⟩
    have calls : ({ s with
        lock := s.lock + 1, returned := s.returned ++ [(t, q, answer)] }.goto t .outside).calls =
        s.calls ++ [q] := List.map_append ..
    refine ⟨none, ?_, ?_, ?_⟩
    · rw [inside_goto]
      exact sound.lock.release view
    · rw [calls, transactions_append]
      cases sound.progress with
      | signal quiet same => exact .free quiet same
    · rw [calls, transactions_append]
      cases sound.progress with
      | signal quiet same =>
        have answers := sound.answers
        show (s.returned ++ [_]).map _ = _
        rw [List.map_append, answers]
        rfl

theorem Sound.exec (sound : Sound slave d s owner) (legal : Legal s event) :
    ∃ owner, Sound slave d (exec slave s event) owner := by
  cases event with
  | call t q =>
    have outside : s.pc t = .outside := legal
    refine ⟨owner, ?_, sound.progress, sound.answers⟩
    show Owner (Pc.inside ∘ (s.goto t (.lock q)).pc) s.lock owner
    rw [inside_goto]
    refine sound.lock.stay ?_
    show none = (s.pc t).inside
    rw [outside]
    rfl
  | step t => exact sound.step legal
  | wire => exact ⟨owner, sound.lock, sound.progress.wire legal, sound.answers⟩

omit [DecidableEq τ] in
theorem Initial.sound (initial : Initial d s) : Sound slave d s none := by
  have idle : ∀ t, (Pc.inside ∘ s.pc) t = none := by
    intro t
    show (s.pc t).inside = none
    rw [initial.pc t]
    rfl
  have calls : s.calls = [] := congrArg (List.map _) initial.returned
  refine ⟨?_, ?_, ?_⟩
  · rw [initial.lock]
    exact .free idle
  · rw [calls]
    refine .free ⟨initial.activity, initial.sta, initial.done⟩ ?_
    unfold settled
    rw [initial.sto]
    exact initial.slave
  · rw [calls, initial.returned]
    rfl

theorem Reachable.sound (reach : Reachable slave d s) : ∃ owner, Sound slave d s owner := by
  induction reach with
  | init initial => exact ⟨none, initial.sound⟩
  | step _ legal ih =>
    rcases ih with ⟨owner, sound⟩
    exact sound.exec legal

/-! ## Every call can return -/

theorem Continues.trans {s'' : Device τ δ} (first : Continues slave s s')
    (rest : Continues slave s' s'') : Continues slave s s'' := by
  induction first with
  | refl => exact rest
  | step ready _ ih => exact .step ready (ih rest)
  | wire legal _ ih => exact .wire legal (ih rest)

/-- The thread can give the lock back, while the others stay where they are. -/
def Frees (slave : Slave δ) (d : δ) (s : Device τ δ) (t : τ) : Prop :=
  ∃ s', Continues slave s s' ∧ Sound slave d s' none ∧ s'.pc = Function.update s.pc t .outside

theorem Frees.wire (legal : Legal s .wire) (rest : Frees slave d (Shared.exec slave s .wire) t) :
    Frees slave d s t := by
  rcases rest with ⟨s', continues, sound, pc⟩
  exact ⟨s', .wire legal continues, sound, pc⟩

/-- The thread goes on to its next statement, and there frees the lock. -/
theorem Frees.step (pc : Pc) (sound : Sound slave d s owner) (ready : s.Ready (s.pc t))
    (next : (Shared.step s t).pc = Function.update s.pc t pc)
    (rest : ∀ {s : Device τ δ} {owner}, Sound slave d s owner → s.pc t = pc → Frees slave d s t) :
    Frees slave d s t := by
  rcases sound.step ready with ⟨owner, sound⟩
  have here : (Shared.step s t).pc t = pc := by rw [next, Function.update_self]
  rcases rest sound here with ⟨s', continues, sound, moved⟩
  refine ⟨s', .step ready continues, sound, ?_⟩
  rw [moved, next, Function.update_idem]

omit [DecidableEq τ] in
theorem Sound.reaches (sound : Sound slave d s owner) (here : s.pc t = .wait q)
    (going : s.master.activity ≠ .stop) :
    slave.Reaches (Request.transfer q) s.master s.slave
      (outcomeOf slave q (slave.transactions s.calls d).2) := by
  have view : (Pc.inside ∘ s.pc) t = some (.wait q) := congrArg Pc.inside here
  rcases sound.lock.eq_of_holds view with ⟨-, rfl⟩
  cases sound.progress with
  | asked activity => exact absurd activity going
  | ended activity => exact absurd activity going
  | going _ _ reaches => exact reaches

theorem Sound.wire (sound : Sound slave d s owner) (legal : Legal s .wire) :
    Sound slave d (Shared.exec slave s .wire) owner :=
  ⟨sound.lock, sound.progress.wire legal, sound.answers⟩

end Threads

end TheFirmware.I2c.Shared
