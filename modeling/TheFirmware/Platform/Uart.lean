import Mathlib.Data.List.GetD
import TheFirmware.Lib.Lock
import TheFirmware.Runtime

/-!
# The console of `platform/lpc11xx/printk.c`

`write_op` and `read_op` calls of any number of threads, statement by statement, and the interrupts
between the statements: those of the UART, and those whose handlers call `write_op` themselves.
`|=` and `&=` on `LPC_UART->IER` are a load and a store. The semaphores are ideal counting
semaphores, as in `TheFirmware.Platform.CanSend`. The UART raises an interrupt only when its enable
bit is set.

A writer enables the interrupt, waits for it, and puts one byte into `THR`; a reader enables the
other one, waits, and takes the byte out of `read_buf`. `write_lock` and `read_lock` keep writers and
readers apart: the bytes of a `write_op` are put into `THR` one after the other, and each after an
interrupt of its own (`reachable_written`).

But writers, readers and the handler all change `IER`. When the handler clears `IER_RBR` between the
load and the store of a writer, the store sets the bit again: the next byte then overwrites
`read_buf`. In runs in which no store of `IER` is torn in this way, readers get every byte the
handler has received, once and in order, and who waits will be called (`reachable_delivered`).
-/

namespace TheFirmware.Uart

variable {τ : Type}

/-- The bits of `LPC_UART->IER` that the driver uses, `IER_RBR` and `IER_THRE`. -/
structure Ier : Type where
  rbr : Bool
  thre : Bool
  deriving DecidableEq, Repr

def iirRbr : UInt32 := 0x4

def iirThre : UInt32 := 0x2

/-- Where a writer is in the loop of `write_op`. `set` and `clear` have loaded `IER`. -/
inductive WriteAt : Type
  /-- At the condition `i < nbytes`, and then the load for `IER |= IER_THRE`. -/
  | loop
  | set (ier : Ier)
  /-- At `semaphore_wait(&uart.write_sem)`. -/
  | wait
  /-- At the store to `LPC_UART->THR`. -/
  | put
  /-- At the load for `IER &= ~IER_THRE`. -/
  | load
  | clear (ier : Ier)
  deriving DecidableEq, Repr

/-- Where a reader is in the loop of `read_op`. `set` has loaded `IER`. -/
inductive ReadAt : Type
  /-- At the condition `n < nbytes`, and then the load for `IER |= IER_RBR`. -/
  | loop
  | set (ier : Ier)
  /-- At `semaphore_wait(&uart.read_sem)`. -/
  | wait
  /-- At `*(char *)buf = uart.read_buf`. -/
  | take
  deriving DecidableEq, Repr

/-- Where a thread is. `buf` is the buffer of a writer and `i` its counter; `got` is what a reader
has stored to its buffer. -/
inductive Pc : Type
  | outside
  /-- At `semaphore_wait(&uart.write_lock)`. -/
  | writeLock (buf : List UInt8)
  | write (buf : List UInt8) (i : Nat) (at_ : WriteAt)
  /-- At `semaphore_wait(&uart.read_lock)`. -/
  | readLock (nbytes : Nat)
  | read (nbytes : Nat) (got : List UInt8) (at_ : ReadAt)
  deriving DecidableEq, Repr

/-- `struct uart`, the threads, the register, and what has happened: the bytes put into `THR` with
the threads that put them, if no interrupt did, the buffers of the `write_op` calls that have
returned, the number of interrupts for `THR`, the bytes received by the handler, and the buffers of
the `read_op` calls that have returned, with their `nbytes`. -/
structure State (τ : Type) : Type where
  readBuf : UInt8
  readSem : Nat
  readLock : Nat
  writeSem : Nat
  writeLock : Nat
  ier : Ier
  pc : τ → Pc
  thr : List (Option τ × UInt8)
  written : List (τ × List UInt8)
  empties : Nat
  received : List UInt8
  reads : List (Nat × List UInt8)

/-- The state after `printk_init`. -/
structure Initial (s : State τ) : Prop where
  readSem : s.readSem = 0
  readLock : s.readLock = 1
  writeSem : s.writeSem = 0
  writeLock : s.writeLock = 1
  ier : s.ier = ⟨false, false⟩
  pc : ∀ t, s.pc t = .outside
  thr : s.thr = []
  written : s.written = []
  empties : s.empties = 0
  received : s.received = []
  reads : s.reads = []

/-- A call or a statement of a thread, an interrupt of the UART with the values of `IIR` and `RBR`,
or `write_op` in a handler. -/
inductive Event (τ : Type) : Type
  | write (thread : τ) (buf : List UInt8)
  | read (thread : τ) (nbytes : Nat)
  | step (thread : τ)
  | irq (iir : UInt32) (rbr : UInt8)
  | writeInIsr (buf : List UInt8)

/-- The semaphore a thread waits for can be taken. -/
def State.Ready (s : State τ) : Pc → Prop
  | .outside => False
  | .writeLock _ => 0 < s.writeLock
  | .write _ _ .wait => 0 < s.writeSem
  | .readLock _ => 0 < s.readLock
  | .read _ _ .wait => 0 < s.readSem
  | _ => True

/-- What can happen: a thread can go on, and the UART raises the interrupts that are enabled. -/
def Legal (s : State τ) : Event τ → Prop
  | .write t _ => s.pc t = .outside
  | .read t _ => s.pc t = .outside
  | .step t => s.Ready (s.pc t)
  | .irq iir _ => (iir &&& iirRbr = iirRbr → s.ier.rbr) ∧ (iir &&& iirThre = iirThre → s.ier.thre)
  | .writeInIsr _ => True

section Steps

variable [DecidableEq τ]

/-- The thread goes to another statement. -/
def State.goto (s : State τ) (t : τ) (pc : Pc) : State τ :=
  { s with pc := Function.update s.pc t pc }

/-- A statement of `write_op`, in the loop. -/
def writeOp (s : State τ) (t : τ) (buf : List UInt8) (i : Nat) : WriteAt → State τ
  | .loop =>
      if i < buf.length then s.goto t (.write buf i (.set s.ier))
      else
        { s with writeLock := s.writeLock + 1, written := s.written ++ [(t, buf)] }.goto t .outside
  | .set ier => { s with ier := { ier with thre := true } }.goto t (.write buf i .wait)
  | .wait => { s with writeSem := s.writeSem - 1 }.goto t (.write buf i .put)
  | .put => { s with thr := s.thr ++ [(some t, buf.getD i 0)] }.goto t (.write buf i .load)
  | .load => s.goto t (.write buf i (.clear s.ier))
  | .clear ier => { s with ier := { ier with thre := false } }.goto t (.write buf (i + 1) .loop)

/-- A statement of `read_op`, in the loop. -/
def readOp (s : State τ) (t : τ) (nbytes : Nat) (got : List UInt8) : ReadAt → State τ
  | .loop =>
      if got.length < nbytes then s.goto t (.read nbytes got (.set s.ier))
      else
        { s with readLock := s.readLock + 1, reads := s.reads ++ [(nbytes, got)] }.goto t .outside
  | .set ier => { s with ier := { ier with rbr := true } }.goto t (.read nbytes got .wait)
  | .wait => { s with readSem := s.readSem - 1 }.goto t (.read nbytes got .take)
  | .take => s.goto t (.read nbytes (got ++ [s.readBuf]) .loop)

/-- The next statement of a thread. -/
def step (s : State τ) (t : τ) : State τ :=
  match s.pc t with
  | .outside => s
  | .writeLock buf => { s with writeLock := s.writeLock - 1 }.goto t (.write buf 0 .loop)
  | .write buf i at_ => writeOp s t buf i at_
  | .readLock nbytes => { s with readLock := s.readLock - 1 }.goto t (.read nbytes [] .loop)
  | .read nbytes got at_ => readOp s t nbytes got at_

/-- The handler takes the byte out of `RBR`. -/
def State.receive (s : State τ) (rbr : UInt8) : State τ :=
  { s with
    ier := { s.ier with rbr := false }
    readBuf := rbr
    received := s.received ++ [rbr]
    readSem := s.readSem + 1 }

/-- `semaphore_signal(&uart.write_sem)` in the handler. -/
def State.empty (s : State τ) : State τ :=
  { s with empties := s.empties + 1, writeSem := s.writeSem + 1 }

/-- `uart_isr` -/
def uartIsr (iir : UInt32) (rbr : UInt8) (s : State τ) : State τ :=
  let s := if iir &&& iirRbr = iirRbr then s.receive rbr else s
  if iir &&& iirThre = iirThre then s.empty else s

/-- The state after an event. -/
def exec (s : State τ) : Event τ → State τ
  | .write t buf => s.goto t (.writeLock buf)
  | .read t nbytes => s.goto t (.readLock nbytes)
  | .step t => step s t
  | .irq iir rbr => uartIsr iir rbr s
  | .writeInIsr buf => { s with thr := s.thr ++ buf.map (none, ·) }

/-- The states of the runs all of whose events satisfy `ok`. -/
inductive Reachable (ok : State τ → Event τ → Prop) : State τ → Prop
  | init {s : State τ} (initial : Initial s) : Reachable ok s
  | step {s : State τ} {event : Event τ} (before : Reachable ok s) (legal : Legal s event)
      (allowed : ok s event) : Reachable ok (exec s event)

end Steps

/-- The value of `IER` a thread is about to change and to store. -/
def Pc.loaded : Pc → Option Ier
  | .write _ _ (.set ier) => some ier
  | .write _ _ (.clear ier) => some ier
  | .read _ _ (.set ier) => some ier
  | _ => none

/-- A thread stores to `IER` only when it still has the value the thread has loaded. -/
def NotTorn (s : State τ) : Event τ → Prop
  | .step t => ∀ ier, (s.pc t).loaded = some ier → ier = s.ier
  | _ => True

/-! ## The sections of writers and readers -/

/-- What the owner of a section is doing: nothing yet, waiting for the semaphore, having been called,
or having used the call. -/
inductive Phase : Type
  | idle
  | waiting
  | called
  | done
  deriving DecidableEq, Repr

/-- A writer: its buffer, the number of bytes it has put, and its phase. -/
structure Writing : Type where
  buf : List UInt8
  put : Nat
  phase : Phase

/-- A reader: its `nbytes`, the bytes it has got, and its phase. -/
structure Reading : Type where
  nbytes : Nat
  got : List UInt8
  phase : Phase

def Pc.writing : Pc → Option Writing
  | .write buf i .loop => some ⟨buf, i, .idle⟩
  | .write buf i (.set _) => some ⟨buf, i, .idle⟩
  | .write buf i .wait => some ⟨buf, i, .waiting⟩
  | .write buf i .put => some ⟨buf, i, .called⟩
  | .write buf i .load => some ⟨buf, i + 1, .done⟩
  | .write buf i (.clear _) => some ⟨buf, i + 1, .done⟩
  | _ => none

def Pc.reading : Pc → Option Reading
  | .read nbytes got .loop => some ⟨nbytes, got, .idle⟩
  | .read nbytes got (.set _) => some ⟨nbytes, got, .idle⟩
  | .read nbytes got .wait => some ⟨nbytes, got, .waiting⟩
  | .read nbytes got .take => some ⟨nbytes, got, .called⟩
  | _ => none

/-- A loop is left at the end of its buffer, and its body is inside. -/
def Pc.InBuffer : Pc → Prop
  | .write buf i .loop => i ≤ buf.length
  | .write buf i _ => i < buf.length
  | .read nbytes got .loop => got.length ≤ nbytes
  | .read nbytes got _ => got.length < nbytes
  | _ => True

/-- The bytes put into `THR` by threads. -/
def threadBytes (thr : List (Option τ × UInt8)) : List (Option τ × UInt8) :=
  thr.filter (·.1.isSome)

/-- The bytes a thread puts into `THR` for a buffer. -/
def ofThread (t : τ) (buf : List UInt8) : List (Option τ × UInt8) := buf.map (some t, ·)

/-- The bytes of the `write_op` that is going on. -/
def begun : Option (τ × Writing) → List (Option τ × UInt8)
  | none => []
  | some (t, w) => ofThread t (w.buf.take w.put)

/-- The interrupt for the next byte has been taken. -/
def callsTaken : Option (τ × Writing) → Nat
  | some (_, ⟨_, _, .called⟩) => 1
  | _ => 0

/-- The bytes of the `read_op` that is going on. -/
def gotten : Option (τ × Reading) → List UInt8
  | none => []
  | some (_, r) => r.got

/-- What has been put into `THR` for the calls of `write_op`, and for how many interrupts. -/
structure Sent (view : τ → Option Writing) (lock sem empties : Nat)
    (thr : List (Option τ × UInt8)) (written : List (τ × List UInt8))
    (owner : Option (τ × Writing)) : Prop where
  lock : Owner view lock owner
  bytes : threadBytes thr = written.flatMap (fun w => ofThread w.1 w.2) ++ begun owner
  calls : (threadBytes thr).length + sem + callsTaken owner = empties

/-- The byte in `read_buf` that no reader has got yet, by the phase of the reader, `read_sem` and
`IER_RBR`. -/
inductive Pending (buf : UInt8) : Phase → Nat → Bool → List UInt8 → Prop
  | idle : Pending buf .idle 0 false []
  | armed : Pending buf .waiting 0 true []
  | full : Pending buf .waiting 1 false [buf]
  | called : Pending buf .called 0 false [buf]

def phaseOf : Option (τ × Reading) → Phase
  | none => .idle
  | some (_, r) => r.phase

/-- What the calls of `read_op` have got of the received bytes. -/
structure Received (view : τ → Option Reading) (lock sem : Nat) (rbr : Bool) (buf : UInt8)
    (received : List UInt8) (reads : List (Nat × List UInt8)) (owner : Option (τ × Reading)) :
    Prop where
  lock : Owner view lock owner
  bytes : ∃ pending, received = reads.flatMap (·.2) ++ gotten owner ++ pending ∧
    Pending buf (phaseOf owner) sem rbr pending
  whole : ∀ r ∈ reads, r.2.length = r.1

def State.Sent (s : State τ) : Prop :=
  ∃ owner, Uart.Sent (Pc.writing ∘ s.pc) s.writeLock s.writeSem s.empties s.thr s.written owner

/-- `read_lock` keeps readers apart. -/
def State.Readers (s : State τ) : Prop := ∃ owner, Owner (Pc.reading ∘ s.pc) s.readLock owner

def State.Received (s : State τ) : Prop :=
  ∃ owner, Uart.Received (Pc.reading ∘ s.pc) s.readLock s.readSem s.ier.rbr s.readBuf s.received
    s.reads owner

/-- A writer that waits, or has been called, has its interrupt enabled. -/
def State.Enabled (s : State τ) : Prop :=
  ∀ t w, (s.pc t).writing = some w → w.phase ≠ .idle → s.ier.thre = true

/-- What readers have got: one reader is at work at a time, the bytes received are those of the calls
that have returned, in their order, those the reader has got so far, and at most the one in
`read_buf`. Each call has got as many bytes as it was to, and the interrupt a thread waits for is
enabled or has happened. -/
structure Delivered (s : State τ) : Prop where
  alone : ∀ t u r r', (s.pc t).reading = some r → (s.pc u).reading = some r' → t = u
  idle : (∀ t, (s.pc t).reading = none) → s.received = s.reads.flatMap (·.2)
  busy : ∀ t r, (s.pc t).reading = some r → ∃ pending,
    s.received = s.reads.flatMap (·.2) ++ r.got ++ pending ∧
      (pending = [] ∨ pending = [s.readBuf] ∧ r.phase ≠ .idle)
  whole : ∀ r ∈ s.reads, r.2.length = r.1
  armed : ∀ t r, (s.pc t).reading = some r → r.phase = .waiting →
    s.ier.rbr = true ∨ 0 < s.readSem
  enabled : ∀ t w, (s.pc t).writing = some w → w.phase = .waiting → s.ier.thre = true

section Specs

variable {s : State τ} {t u : τ} {event : Event τ} {buf got : List UInt8} {i nbytes : Nat}

theorem threadBytes_append (thr more : List (Option τ × UInt8)) :
    threadBytes (thr ++ more) = threadBytes thr ++ threadBytes more :=
  List.filter_append ..

/-- Bytes put by interrupts are none of a thread. -/
theorem threadBytes_isr (thr : List (Option τ × UInt8)) (buf : List UInt8) :
    threadBytes (thr ++ buf.map (none, ·)) = threadBytes thr := by
  rw [threadBytes_append]
  simp [threadBytes]

theorem threadBytes_put (thr : List (Option τ × UInt8)) (t : τ) (c : UInt8) :
    threadBytes (thr ++ [(some t, c)]) = threadBytes thr ++ [(some t, c)] := by
  rw [threadBytes_append]
  rfl

theorem ofThread_take_succ (t : τ) (inside : i < buf.length) :
    ofThread t (buf.take (i + 1)) = ofThread t (buf.take i) ++ [(some t, buf.getD i 0)] := by
  rw [List.take_succ_eq_append_getElem inside, List.getD_eq_getElem _ _ inside]
  exact List.map_append ..

variable [DecidableEq τ]

namespace Sent

variable {view : τ → Option Writing} {lock sem empties : Nat} {thr : List (Option τ × UInt8)}
  {written : List (τ × List UInt8)} {owner : Option (τ × Writing)}

theorem stay (sent : Sent view lock sem empties thr written owner) {x : Option Writing}
    (same : x = view t) : Sent (Function.update view t x) lock sem empties thr written owner :=
  ⟨sent.lock.stay same, sent.bytes, sent.calls⟩

theorem acquire (sent : Sent view lock sem empties thr written owner) (positive : 0 < lock) (t : τ)
    (buf : List UInt8) :
    Sent (Function.update view t (some ⟨buf, 0, .idle⟩)) (lock - 1) sem empties thr written
      (some (t, ⟨buf, 0, .idle⟩)) := by
  obtain ⟨-, rfl⟩ := sent.lock.of_pos positive
  exact ⟨sent.lock.acquire positive t _, sent.bytes, sent.calls⟩

/-- A step in the section that neither takes an interrupt nor uses one. -/
theorem advance (sent : Sent view lock sem empties thr written owner) {put : Nat} {a b : Phase}
    (at_ : view t = some ⟨buf, put, a⟩) (before : a ≠ .called) (after : b ≠ .called) :
    Sent (Function.update view t (some ⟨buf, put, b⟩)) lock sem empties thr written
      (some (t, ⟨buf, put, b⟩)) := by
  obtain ⟨-, rfl⟩ := sent.lock.eq_of_holds at_
  refine ⟨sent.lock.advance at_ _, sent.bytes, ?_⟩
  have calls := sent.calls
  have none : ∀ c, c ≠ Phase.called → callsTaken (some (t, ⟨buf, put, c⟩)) = 0 := by
    intro c other
    cases c with
    | called => exact absurd rfl other
    | idle => rfl
    | waiting => rfl
    | done => rfl
  rw [none a before] at calls
  rw [none b after]
  exact calls

/-- The writer takes the signal of an interrupt. -/
theorem take (sent : Sent view lock sem empties thr written owner) {put : Nat}
    (at_ : view t = some ⟨buf, put, .waiting⟩) (positive : 0 < sem) :
    Sent (Function.update view t (some ⟨buf, put, .called⟩)) lock (sem - 1) empties thr written
      (some (t, ⟨buf, put, .called⟩)) := by
  obtain ⟨-, rfl⟩ := sent.lock.eq_of_holds at_
  refine ⟨sent.lock.advance at_ _, sent.bytes, ?_⟩
  have calls : (threadBytes thr).length + sem + 0 = empties := sent.calls
  show (threadBytes thr).length + (sem - 1) + 1 = empties
  omega

/-- The writer puts its next byte into `THR`. -/
theorem put (sent : Sent view lock sem empties thr written owner) (inside : i < buf.length)
    (at_ : view t = some ⟨buf, i, .called⟩) :
    Sent (Function.update view t (some ⟨buf, i + 1, .done⟩)) lock sem empties
      (thr ++ [(some t, buf.getD i 0)]) written (some (t, ⟨buf, i + 1, .done⟩)) := by
  obtain ⟨-, rfl⟩ := sent.lock.eq_of_holds at_
  refine ⟨sent.lock.advance at_ _, ?_, ?_⟩
  · have bytes : threadBytes thr =
        written.flatMap (fun w => ofThread w.1 w.2) ++ ofThread t (buf.take i) := sent.bytes
    rw [threadBytes_put, bytes, List.append_assoc, ← ofThread_take_succ t inside]
    rfl
  · have calls : (threadBytes thr).length + sem + 1 = empties := sent.calls
    rw [threadBytes_put, List.length_append, List.length_singleton]
    show (threadBytes thr).length + 1 + sem + 0 = empties
    omega

/-- The writer has put its whole buffer. -/
theorem release (sent : Sent view lock sem empties thr written owner) {put : Nat}
    (all : buf.length ≤ put) (at_ : view t = some ⟨buf, put, .idle⟩) :
    Sent (Function.update view t none) (lock + 1) sem empties thr (written ++ [(t, buf)]) none := by
  obtain ⟨-, rfl⟩ := sent.lock.eq_of_holds at_
  refine ⟨sent.lock.release at_, ?_, sent.calls⟩
  have bytes : threadBytes thr =
      written.flatMap (fun w => ofThread w.1 w.2) ++ ofThread t (buf.take put) := sent.bytes
  rw [bytes, List.take_of_length_le all, List.flatMap_append]
  simp [begun]

omit [DecidableEq τ] in
theorem irq (sent : Sent view lock sem empties thr written owner) :
    Sent view lock (sem + 1) (empties + 1) thr written owner := by
  refine ⟨sent.lock, sent.bytes, ?_⟩
  have calls := sent.calls
  omega

omit [DecidableEq τ] in
theorem isr (sent : Sent view lock sem empties thr written owner) (buf : List UInt8) :
    Sent view lock sem empties (thr ++ buf.map (none, ·)) written owner :=
  ⟨sent.lock, (threadBytes_isr thr buf).trans sent.bytes, by
    rw [threadBytes_isr]
    exact sent.calls⟩

end Sent

namespace Received

variable {view : τ → Option Reading} {lock sem : Nat} {rbr : Bool} {readBuf : UInt8}
  {received : List UInt8} {reads : List (Nat × List UInt8)} {owner : Option (τ × Reading)}

theorem stay (rec : Received view lock sem rbr readBuf received reads owner) {x : Option Reading}
    (same : x = view t) :
    Received (Function.update view t x) lock sem rbr readBuf received reads owner :=
  ⟨rec.lock.stay same, rec.bytes, rec.whole⟩

theorem acquire (rec : Received view lock sem rbr readBuf received reads owner)
    (positive : 0 < lock) (t : τ) (nbytes : Nat) :
    Received (Function.update view t (some ⟨nbytes, [], .idle⟩)) (lock - 1) sem rbr readBuf
      received reads (some (t, ⟨nbytes, [], .idle⟩)) := by
  obtain ⟨-, rfl⟩ := rec.lock.of_pos positive
  exact ⟨rec.lock.acquire positive t _, rec.bytes, rec.whole⟩

/-- What is pending changes with the phase of the reader. -/
theorem advance (rec : Received view lock sem rbr readBuf received reads owner) {a b : Phase}
    {sem' : Nat} {rbr' : Bool} (at_ : view t = some ⟨nbytes, got, a⟩)
    (pending : ∀ {l}, Pending readBuf a sem rbr l → Pending readBuf b sem' rbr' l) :
    Received (Function.update view t (some ⟨nbytes, got, b⟩)) lock sem' rbr' readBuf received reads
      (some (t, ⟨nbytes, got, b⟩)) := by
  obtain ⟨-, rfl⟩ := rec.lock.eq_of_holds at_
  obtain ⟨left, bytes, phase⟩ := rec.bytes
  exact ⟨rec.lock.advance at_ _, ⟨left, bytes, pending phase⟩, rec.whole⟩

/-- The reader gets the byte in `read_buf`. -/
theorem get (rec : Received view lock sem rbr readBuf received reads owner)
    (at_ : view t = some ⟨nbytes, got, .called⟩) :
    Received (Function.update view t (some ⟨nbytes, got ++ [readBuf], .idle⟩)) lock sem rbr readBuf
      received reads (some (t, ⟨nbytes, got ++ [readBuf], .idle⟩)) := by
  obtain ⟨-, rfl⟩ := rec.lock.eq_of_holds at_
  obtain ⟨left, bytes, phase⟩ := rec.bytes
  have phase : Pending readBuf .called sem rbr left := phase
  cases phase with
  | called =>
      refine ⟨rec.lock.advance at_ _, ⟨[], ?_, .idle⟩, rec.whole⟩
      rw [bytes, List.append_nil, List.append_assoc]
      rfl

/-- The reader has filled its buffer. -/
theorem release (rec : Received view lock sem rbr readBuf received reads owner)
    (all : got.length = nbytes) (at_ : view t = some ⟨nbytes, got, .idle⟩) :
    Received (Function.update view t none) (lock + 1) sem rbr readBuf received
      (reads ++ [(nbytes, got)]) none := by
  obtain ⟨-, rfl⟩ := rec.lock.eq_of_holds at_
  obtain ⟨left, bytes, phase⟩ := rec.bytes
  refine ⟨rec.lock.release at_, ⟨left, ?_, phase⟩, ?_⟩
  · rw [bytes, List.flatMap_append]
    simp [gotten]
  · intro r mem
    rcases List.mem_append.mp mem with mem | mem
    · exact rec.whole r mem
    · rw [List.mem_singleton.mp mem]
      exact all

omit [DecidableEq τ] in
/-- The handler is called for a byte only when the reader waits for it. -/
theorem irq (rec : Received view lock sem true readBuf received reads owner) (c : UInt8) :
    Received view lock (sem + 1) false c (received ++ [c]) reads owner := by
  obtain ⟨left, bytes, phase⟩ := rec.bytes
  refine ⟨rec.lock, ⟨[c], ?_, ?_⟩, rec.whole⟩
  · generalize phaseOf owner = p at phase
    cases phase with
    | armed => rw [bytes, List.append_nil]
  · generalize phaseOf owner = p at phase
    cases phase with
    | armed => exact .full

end Received

theorem writing_goto (s : State τ) (t : τ) (pc : Pc) :
    Pc.writing ∘ (s.goto t pc).pc = Function.update (Pc.writing ∘ s.pc) t pc.writing :=
  Function.comp_update ..

theorem reading_goto (s : State τ) (t : τ) (pc : Pc) :
    Pc.reading ∘ (s.goto t pc).pc = Function.update (Pc.reading ∘ s.pc) t pc.reading :=
  Function.comp_update ..

/-- A statement moves its thread, and keeps the counters of the loops in their buffers. -/
theorem step_pc (s : State τ) (t : τ) : ∃ pc, (step s t).pc = Function.update s.pc t pc ∧
    ((s.pc t).InBuffer → pc.InBuffer) := by
  unfold step
  cases here : s.pc t with
  | outside =>
      refine ⟨s.pc t, (Function.update_eq_self t s.pc).symm, fun _ => ?_⟩
      rw [here]
      trivial
  | writeLock buf => exact ⟨_, rfl, fun _ => Nat.zero_le _⟩
  | readLock nbytes => exact ⟨_, rfl, fun _ => Nat.zero_le _⟩
  | write buf i at_ =>
      cases at_ with
      | loop =>
          by_cases more : i < buf.length
          · exact ⟨.write buf i (.set s.ier), by simp [writeOp, more, State.goto], fun _ => more⟩
          · exact ⟨.outside, by simp [writeOp, more, State.goto], fun _ => trivial⟩
      | set ier => exact ⟨_, rfl, id⟩
      | wait => exact ⟨_, rfl, id⟩
      | put => exact ⟨_, rfl, id⟩
      | load => exact ⟨_, rfl, id⟩
      | clear ier => exact ⟨_, rfl, id⟩
  | read nbytes got at_ =>
      cases at_ with
      | loop =>
          by_cases more : got.length < nbytes
          · exact ⟨.read nbytes got (.set s.ier), by simp [readOp, more, State.goto], fun _ => more⟩
          · exact ⟨.outside, by simp [readOp, more, State.goto], fun _ => trivial⟩
      | set ier => exact ⟨_, rfl, id⟩
      | wait => exact ⟨_, rfl, id⟩
      | take =>
          refine ⟨_, rfl, fun inside => ?_⟩
          show (got ++ [s.readBuf]).length ≤ nbytes
          rw [List.length_append, List.length_singleton]
          exact inside

theorem inBuffer_step (inside : ∀ u, (s.pc u).InBuffer) (u : τ) : ((step s t).pc u).InBuffer := by
  obtain ⟨pc, moved, kept⟩ := step_pc s t
  rw [moved]
  by_cases same : u = t
  · rw [same, Function.update_self]
    exact kept (inside t)
  · rw [Function.update_of_ne same]
    exact inside u

theorem inBuffer_exec (inside : ∀ u, (s.pc u).InBuffer) (event : Event τ) (u : τ) :
    ((exec s event).pc u).InBuffer := by
  have moved : ∀ t pc, pc.InBuffer → ((s.goto t pc).pc u).InBuffer := by
    intro t pc free
    show (Function.update s.pc t pc u).InBuffer
    by_cases same : u = t
    · rw [same, Function.update_self]
      exact free
    · rw [Function.update_of_ne same]
      exact inside u
  cases event with
  | write t buf => exact moved t _ trivial
  | read t nbytes => exact moved t _ trivial
  | step t => exact inBuffer_step inside u
  | irq iir rbr =>
      show ((uartIsr iir rbr s).pc u).InBuffer
      unfold uartIsr
      split_ifs
      · exact inside u
      · exact inside u
      · exact inside u
      · exact inside u
  | writeInIsr buf => exact inside u

/-! ## What writers put -/

/-- A step of a thread that is not writing, or of a writer between its bytes. -/
theorem State.Sent.goto {pc : Pc} (sent : s.Sent) (same : pc.writing = (s.pc t).writing) :
    (s.goto t pc).Sent := by
  obtain ⟨owner, sent⟩ := sent
  refine ⟨owner, ?_⟩
  rw [writing_goto]
  exact sent.stay same

theorem State.Sent.writeOp {buf : List UInt8} {i : Nat} {at_ : WriteAt} (sent : s.Sent)
    (pc : s.pc t = .write buf i at_) (inside : (s.pc t).InBuffer) (ready : s.Ready (s.pc t)) :
    (writeOp s t buf i at_).Sent := by
  have view : (Pc.writing ∘ s.pc) t = (Pc.write buf i at_).writing := congrArg Pc.writing pc
  rw [pc] at inside ready
  obtain ⟨owner, sent⟩ := sent
  cases at_ with
  | loop =>
      by_cases more : i < buf.length
      · refine ⟨owner, ?_⟩
        simp only [Uart.writeOp, if_pos more, writing_goto]
        exact sent.stay view.symm
      · refine ⟨none, ?_⟩
        simp only [Uart.writeOp, if_neg more, writing_goto]
        exact sent.release (Nat.le_of_not_lt more) view
  | set ier =>
      refine ⟨some (t, ⟨buf, i, .waiting⟩), ?_⟩
      rw [Uart.writeOp, writing_goto]
      exact sent.advance view (by decide) (by decide)
  | wait =>
      refine ⟨some (t, ⟨buf, i, .called⟩), ?_⟩
      rw [Uart.writeOp, writing_goto]
      exact sent.take view ready
  | put =>
      refine ⟨some (t, ⟨buf, i + 1, .done⟩), ?_⟩
      rw [Uart.writeOp, writing_goto]
      exact sent.put inside view
  | load =>
      refine ⟨owner, ?_⟩
      rw [Uart.writeOp, writing_goto]
      exact sent.stay view.symm
  | clear ier =>
      refine ⟨some (t, ⟨buf, i + 1, .idle⟩), ?_⟩
      rw [Uart.writeOp, writing_goto]
      exact sent.advance view (by decide) (by decide)

theorem State.Sent.step (sent : s.Sent) (inside : (s.pc t).InBuffer) (ready : s.Ready (s.pc t)) :
    (step s t).Sent := by
  unfold Uart.step
  cases here : s.pc t with
  | outside => exact sent
  | writeLock buf =>
      rw [here] at ready
      obtain ⟨owner, sent⟩ := sent
      refine ⟨some (t, ⟨buf, 0, .idle⟩), ?_⟩
      rw [writing_goto]
      exact sent.acquire ready t buf
  | write buf i at_ => exact sent.writeOp here inside ready
  | readLock nbytes =>
      have same : (Pc.read nbytes [] .loop).writing = (s.pc t).writing := by
        rw [here]
        rfl
      exact sent.goto same
  | read nbytes got at_ =>
      have none : (s.pc t).writing = none := by
        rw [here]
        rfl
      cases at_ with
      | loop =>
          show (readOp s t nbytes got .loop).Sent
          rw [readOp]
          split_ifs
          · exact sent.goto none.symm
          · exact sent.goto none.symm
      | set ier => exact sent.goto none.symm
      | wait => exact sent.goto none.symm
      | take => exact sent.goto none.symm

omit [DecidableEq τ] in
theorem State.Sent.empty (sent : s.Sent) : s.empty.Sent := by
  obtain ⟨owner, sent⟩ := sent
  exact ⟨owner, sent.irq⟩

theorem State.Sent.exec (sent : s.Sent) (inside : ∀ u, (s.pc u).InBuffer) (legal : Legal s event) :
    (exec s event).Sent := by
  cases event with
  | write t buf =>
      have outside : s.pc t = .outside := legal
      refine sent.goto ?_
      rw [outside]
      rfl
  | read t nbytes =>
      have outside : s.pc t = .outside := legal
      refine sent.goto ?_
      rw [outside]
      rfl
  | step t => exact sent.step (inside t) legal
  | irq iir rbr =>
      have received : (s.receive rbr).Sent := sent
      show (uartIsr iir rbr s).Sent
      unfold uartIsr
      split_ifs
      · exact received.empty
      · exact received
      · exact sent.empty
      · exact sent
  | writeInIsr buf =>
      obtain ⟨owner, sent⟩ := sent
      exact ⟨owner, sent.isr buf⟩

omit [DecidableEq τ] in
theorem Initial.sent (initial : Initial s) : s.Sent := by
  have idle : ∀ t, (Pc.writing ∘ s.pc) t = none := by
    intro t
    show (s.pc t).writing = none
    rw [initial.pc t]
    rfl
  refine ⟨none, ?_⟩
  rw [initial.writeLock, initial.writeSem, initial.empties, initial.thr, initial.written]
  exact ⟨.free idle, rfl, rfl⟩

theorem Reachable.sent {ok : State τ → Event τ → Prop} (reach : Reachable ok s) :
    s.Sent ∧ ∀ u, (s.pc u).InBuffer := by
  induction reach with
  | init initial =>
      refine ⟨initial.sent, fun u => ?_⟩
      rw [initial.pc u]
      trivial
  | step _ legal _ ih => exact ⟨ih.1.exec ih.2 legal, inBuffer_exec ih.2 _⟩

/-! ## Readers are alone -/

/-- A statement of a thread that stays in the section of readers, or outside of it. -/
theorem State.Readers.goto {s' : State τ} {pc : Pc} (readers : s.Readers)
    (moved : s'.pc = Function.update s.pc t pc) (lock : s'.readLock = s.readLock)
    (kept : pc.reading.isSome = (s.pc t).reading.isSome) : s'.Readers := by
  obtain ⟨owner, held⟩ := readers
  have view : Pc.reading ∘ s'.pc = Function.update (Pc.reading ∘ s.pc) t pc.reading := by
    rw [moved]
    exact Function.comp_update ..
  unfold State.Readers
  rw [view, lock]
  cases before : (s.pc t).reading with
  | none =>
      have same : pc.reading = (Pc.reading ∘ s.pc) t := by
        rw [before, Option.isSome_none, Option.isSome_eq_false_iff, Option.isNone_iff_eq_none] at kept
        exact kept.trans before.symm
      exact ⟨owner, held.stay same⟩
  | some r =>
      rw [before, Option.isSome_some, Option.isSome_iff_exists] at kept
      obtain ⟨r', after⟩ := kept
      rw [after]
      exact ⟨_, held.advance before r'⟩

theorem State.Readers.step (readers : s.Readers) (ready : s.Ready (s.pc t)) :
    (step s t).Readers := by
  unfold Uart.step
  cases here : s.pc t with
  | outside => exact readers
  | writeLock buf => exact readers.goto rfl rfl (by rw [here]; rfl)
  | readLock nbytes =>
      rw [here] at ready
      obtain ⟨owner, lock⟩ := readers
      refine ⟨some (t, ⟨nbytes, [], .idle⟩), ?_⟩
      rw [reading_goto]
      exact lock.acquire ready t _
  | write buf i at_ =>
      cases at_ with
      | loop =>
          show (writeOp s t buf i .loop).Readers
          rw [writeOp]
          split_ifs
          · exact readers.goto rfl rfl (by rw [here]; rfl)
          · exact readers.goto rfl rfl (by rw [here]; rfl)
      | set ier => exact readers.goto rfl rfl (by rw [here]; rfl)
      | wait => exact readers.goto rfl rfl (by rw [here]; rfl)
      | put => exact readers.goto rfl rfl (by rw [here]; rfl)
      | load => exact readers.goto rfl rfl (by rw [here]; rfl)
      | clear ier => exact readers.goto rfl rfl (by rw [here]; rfl)
  | read nbytes got at_ =>
      cases at_ with
      | loop =>
          show (readOp s t nbytes got .loop).Readers
          rw [readOp]
          split_ifs
          · exact readers.goto rfl rfl (by rw [here]; rfl)
          · obtain ⟨owner, lock⟩ := readers
            refine ⟨none, ?_⟩
            rw [reading_goto]
            exact lock.release (congrArg Pc.reading here)
      | set ier => exact readers.goto rfl rfl (by rw [here]; rfl)
      | wait => exact readers.goto rfl rfl (by rw [here]; rfl)
      | take => exact readers.goto rfl rfl (by rw [here]; rfl)

theorem State.Readers.exec (readers : s.Readers) (legal : Legal s event) :
    (exec s event).Readers := by
  cases event with
  | write t buf =>
      have outside : s.pc t = .outside := legal
      exact readers.goto rfl rfl (by rw [outside]; rfl)
  | read t nbytes =>
      have outside : s.pc t = .outside := legal
      exact readers.goto rfl rfl (by rw [outside]; rfl)
  | step t => exact readers.step legal
  | irq iir rbr =>
      show (uartIsr iir rbr s).Readers
      unfold uartIsr
      split_ifs
      · exact readers
      · exact readers
      · exact readers
      · exact readers
  | writeInIsr buf => exact readers

omit [DecidableEq τ] in
theorem Initial.reading (initial : Initial s) (t : τ) : (Pc.reading ∘ s.pc) t = none := by
  show (s.pc t).reading = none
  rw [initial.pc t]
  rfl

theorem Reachable.readers {ok : State τ → Event τ → Prop} (reach : Reachable ok s) : s.Readers := by
  induction reach with
  | init initial =>
      refine ⟨none, ?_⟩
      rw [initial.readLock]
      exact .free initial.reading
  | step _ legal _ ih => exact ih.exec legal

/-! ## What readers get -/

theorem State.Received.goto {pc : Pc} (rec : s.Received) (same : pc.reading = (s.pc t).reading) :
    (s.goto t pc).Received := by
  obtain ⟨owner, rec⟩ := rec
  refine ⟨owner, ?_⟩
  rw [reading_goto]
  exact rec.stay same

theorem Pending.arm {b : UInt8} {sem : Nat} {rbr : Bool} {l : List UInt8}
    (pending : Pending b .idle sem rbr l) : Pending b .waiting sem true l := by
  cases pending with
  | idle => exact .armed

theorem Pending.take {b : UInt8} {sem : Nat} {rbr : Bool} {l : List UInt8}
    (pending : Pending b .waiting sem rbr l) (positive : 0 < sem) :
    Pending b .called (sem - 1) rbr l := by
  cases pending with
  | armed => exact absurd positive (Nat.lt_irrefl 0)
  | full => exact .called

theorem Pending.cases {b : UInt8} {phase : Phase} {sem : Nat} {rbr : Bool} {l : List UInt8}
    (pending : Pending b phase sem rbr l) :
    (l = [] ∨ l = [b] ∧ phase ≠ .idle) ∧ (phase = .waiting → rbr = true ∨ 0 < sem) := by
  cases pending with
  | idle => exact ⟨.inl rfl, fun h => Phase.noConfusion h⟩
  | armed => exact ⟨.inl rfl, fun _ => .inl rfl⟩
  | full => exact ⟨.inr ⟨rfl, fun h => Phase.noConfusion h⟩, fun _ => .inr Nat.one_pos⟩
  | called =>
      exact ⟨.inr ⟨rfl, fun h => Phase.noConfusion h⟩, fun h => Phase.noConfusion h⟩

theorem State.Received.readOp {at_ : ReadAt} (rec : s.Received)
    (pc : s.pc t = .read nbytes got at_) (inside : (s.pc t).InBuffer) (ready : s.Ready (s.pc t)) :
    (readOp s t nbytes got at_).Received := by
  have view : (Pc.reading ∘ s.pc) t = (Pc.read nbytes got at_).reading := congrArg Pc.reading pc
  rw [pc] at inside ready
  obtain ⟨owner, rec⟩ := rec
  cases at_ with
  | loop =>
      by_cases more : got.length < nbytes
      · refine ⟨owner, ?_⟩
        simp only [Uart.readOp, if_pos more, reading_goto]
        exact rec.stay view.symm
      · refine ⟨none, ?_⟩
        simp only [Uart.readOp, if_neg more, reading_goto]
        exact rec.release (Nat.le_antisymm inside (Nat.le_of_not_lt more)) view
  | set ier =>
      refine ⟨some (t, ⟨nbytes, got, .waiting⟩), ?_⟩
      rw [Uart.readOp, reading_goto]
      exact rec.advance view fun pending => pending.arm
  | wait =>
      refine ⟨some (t, ⟨nbytes, got, .called⟩), ?_⟩
      rw [Uart.readOp, reading_goto]
      exact rec.advance view fun pending => pending.take ready
  | take =>
      refine ⟨some (t, ⟨nbytes, got ++ [s.readBuf], .idle⟩), ?_⟩
      rw [Uart.readOp, reading_goto]
      exact rec.get view

theorem State.Received.step (rec : s.Received) (inside : (s.pc t).InBuffer)
    (ready : s.Ready (s.pc t)) (whole : NotTorn s (.step t)) : (step s t).Received := by
  unfold Uart.step
  cases here : s.pc t with
  | outside => exact rec
  | readLock nbytes =>
      rw [here] at ready
      obtain ⟨owner, rec⟩ := rec
      refine ⟨some (t, ⟨nbytes, [], .idle⟩), ?_⟩
      rw [reading_goto]
      exact rec.acquire ready t nbytes
  | read nbytes got at_ => exact rec.readOp here inside ready
  | writeLock buf =>
      have same : (Pc.write buf 0 .loop).reading = (s.pc t).reading := by
        rw [here]
        rfl
      exact rec.goto same
  | write buf i at_ =>
      have none : (s.pc t).reading = none := by
        rw [here]
        rfl
      have loaded : ∀ ier, (Pc.write buf i at_).loaded = some ier → ier = s.ier := by
        rw [← here]
        exact whole
      cases at_ with
      | loop =>
          show (writeOp s t buf i .loop).Received
          rw [writeOp]
          split_ifs
          · exact rec.goto none.symm
          · exact rec.goto none.symm
      | set ier =>
          obtain rfl := loaded ier rfl
          exact rec.goto none.symm
      | wait => exact rec.goto none.symm
      | put => exact rec.goto none.symm
      | load => exact rec.goto none.symm
      | clear ier =>
          obtain rfl := loaded ier rfl
          exact rec.goto none.symm

omit [DecidableEq τ] in
theorem State.Received.receive (rec : s.Received) (armed : s.ier.rbr = true) (c : UInt8) :
    (s.receive c).Received := by
  obtain ⟨owner, rec⟩ := rec
  rw [armed] at rec
  exact ⟨owner, rec.irq c⟩

theorem State.Received.exec (rec : s.Received) (inside : ∀ u, (s.pc u).InBuffer)
    (legal : Legal s event) (whole : NotTorn s event) : (exec s event).Received := by
  cases event with
  | write t buf =>
      have outside : s.pc t = .outside := legal
      refine rec.goto ?_
      rw [outside]
      rfl
  | read t nbytes =>
      have outside : s.pc t = .outside := legal
      refine rec.goto ?_
      rw [outside]
      rfl
  | step t => exact rec.step (inside t) legal whole
  | irq iir rbr =>
      have same : ∀ {s' : State τ}, s'.Received → s'.empty.Received := fun rec => rec
      show (uartIsr iir rbr s).Received
      unfold uartIsr
      split_ifs with byte
      · exact same (rec.receive (legal.1 byte) rbr)
      · exact rec.receive (legal.1 byte) rbr
      · exact same rec
      · exact rec
  | writeInIsr buf => exact rec

omit [DecidableEq τ] in
theorem Initial.readersIdle (initial : Initial s) : s.Received := by
  refine ⟨none, ?_⟩
  rw [initial.readLock, initial.readSem, initial.ier, initial.received, initial.reads]
  exact ⟨.free initial.reading, ⟨[], rfl, .idle⟩, fun r mem => absurd mem List.not_mem_nil⟩

/-! ## Who waits has the interrupt enabled -/

/-- A statement that leaves `IER_THRE` alone, of a thread whose interrupt is needed only if it was
before. -/
theorem State.Enabled.goto {s' : State τ} {pc : Pc} (enabled : s.Enabled)
    (moved : s'.pc = Function.update s.pc t pc) (same : s'.ier.thre = s.ier.thre)
    (needed : ∀ w, pc.writing = some w → w.phase ≠ .idle →
      ∃ w', (s.pc t).writing = some w' ∧ w'.phase ≠ .idle) : s'.Enabled := by
  intro u w at_ busy
  rw [same]
  rw [moved] at at_
  by_cases here : u = t
  · rw [here, Function.update_self] at at_
    obtain ⟨w', before, busy'⟩ := needed w at_ busy
    exact enabled t w' before busy'
  · rw [Function.update_of_ne here] at at_
    exact enabled u w at_ busy

theorem State.Enabled.quiet {s' : State τ} {pc : Pc} (enabled : s.Enabled)
    (moved : s'.pc = Function.update s.pc t pc) (same : s'.ier.thre = s.ier.thre)
    (idle : ∀ w, pc.writing = some w → w.phase = .idle) : s'.Enabled :=
  enabled.goto moved same fun w at_ busy => absurd (idle w at_) busy

theorem State.Enabled.writeOp {at_ : WriteAt} (enabled : s.Enabled) (sent : s.Sent)
    (pc : s.pc t = .write buf i at_) (whole : NotTorn s (.step t)) :
    (writeOp s t buf i at_).Enabled := by
  have loaded : ∀ ier, (Pc.write buf i at_).loaded = some ier → ier = s.ier := by
    rw [← pc]
    exact whole
  have writing : (s.pc t).writing = (Pc.write buf i at_).writing := congrArg Pc.writing pc
  cases at_ with
  | loop =>
      rw [Uart.writeOp]
      split_ifs
      · refine enabled.quiet rfl rfl fun w at_ => ?_
        cases at_
        rfl
      · exact enabled.quiet rfl rfl fun w at_ => by cases at_
  | set ier => exact fun _ _ _ _ => rfl
  | wait =>
      exact enabled.goto rfl rfl fun w _ _ => ⟨_, writing, fun h => Phase.noConfusion h⟩
  | put =>
      exact enabled.goto rfl rfl fun w _ _ => ⟨_, writing, fun h => Phase.noConfusion h⟩
  | load =>
      exact enabled.goto rfl rfl fun w _ _ => ⟨_, writing, fun h => Phase.noConfusion h⟩
  | clear ier =>
      -- nobody else is writing
      obtain ⟨owner, sent⟩ := sent
      intro u w view busy
      by_cases here : u = t
      · subst here
        have view : (Function.update s.pc u (.write buf (i + 1) .loop) u).writing = some w := view
        rw [Function.update_self] at view
        cases view
        exact absurd rfl busy
      · have view : (Function.update s.pc t (.write buf (i + 1) .loop) u).writing = some w := view
        rw [Function.update_of_ne here] at view
        exact absurd (sent.lock.eq_of_holds_both view writing) here

theorem State.Enabled.step (enabled : s.Enabled) (sent : s.Sent) (whole : NotTorn s (.step t)) :
    (step s t).Enabled := by
  unfold Uart.step
  cases here : s.pc t with
  | outside => exact enabled
  | writeLock buf =>
      refine enabled.quiet rfl rfl fun w at_ => ?_
      cases at_
      rfl
  | write buf i at_ => exact enabled.writeOp sent here whole
  | readLock nbytes => exact enabled.quiet rfl rfl fun w at_ => by cases at_
  | read nbytes got at_ =>
      have loaded : ∀ ier, (Pc.read nbytes got at_).loaded = some ier → ier = s.ier := by
        rw [← here]
        exact whole
      cases at_ with
      | loop =>
          show (Uart.readOp s t nbytes got .loop).Enabled
          rw [Uart.readOp]
          split_ifs
          · exact enabled.quiet rfl rfl fun w at_ => by cases at_
          · exact enabled.quiet rfl rfl fun w at_ => by cases at_
      | set ier =>
          obtain rfl := loaded ier rfl
          exact enabled.quiet rfl rfl fun w at_ => by cases at_
      | wait => exact enabled.quiet rfl rfl fun w at_ => by cases at_
      | take => exact enabled.quiet rfl rfl fun w at_ => by cases at_

theorem State.Enabled.exec (enabled : s.Enabled) (sent : s.Sent) (whole : NotTorn s event) :
    (exec s event).Enabled := by
  cases event with
  | write t buf => exact enabled.quiet rfl rfl fun w at_ => by cases at_
  | read t nbytes => exact enabled.quiet rfl rfl fun w at_ => by cases at_
  | step t => exact enabled.step sent whole
  | irq iir rbr =>
      have received : (s.receive rbr).Enabled := enabled
      have same : ∀ {s' : State τ}, s'.Enabled → s'.empty.Enabled := fun enabled => enabled
      show (uartIsr iir rbr s).Enabled
      unfold uartIsr
      split_ifs
      · exact same received
      · exact received
      · exact same enabled
      · exact enabled
  | writeInIsr buf => exact enabled

theorem Reachable.calm (reach : Reachable NotTorn s) : s.Received ∧ s.Enabled := by
  induction reach with
  | init initial =>
      refine ⟨initial.readersIdle, fun t w at_ _ => ?_⟩
      rw [initial.pc t] at at_
      cases at_
  | step before legal whole ih =>
      obtain ⟨sent, inside⟩ := before.sent
      exact ⟨ih.1.exec inside legal whole, ih.2.exec sent whole⟩

/-- **Readers lose no byte and get none twice**: in every run in which no store to `IER` is torn, the
bytes the handler has received are those that readers have got, in their order, and at most the one
in `read_buf`; and the interrupt a thread waits for is enabled or has happened. -/
theorem reachable_delivered (s : State τ) (reach : Reachable NotTorn s) : Delivered s := by
  obtain ⟨⟨owner, rec⟩, enabled⟩ := reach.calm
  obtain ⟨pending, bytes, phase⟩ := rec.bytes
  obtain ⟨left, armed⟩ := phase.cases
  have of_reading : ∀ {t r}, (s.pc t).reading = some r → owner = some (t, r) :=
    fun at_ => (rec.lock.eq_of_holds at_).2
  constructor
  · intro t u r r' first second
    exact rec.lock.eq_of_holds_both first second
  · intro idle
    have none : owner = none := by
      rcases owner with _ | ⟨t, r⟩
      · rfl
      · exact absurd (rec.lock.holds.symm.trans (idle t)) (by simp)
    subst none
    rcases left with rfl | ⟨-, busy⟩
    · rw [bytes, List.append_nil]
      exact List.append_nil _
    · exact absurd rfl busy
  · intro t r at_
    obtain rfl := of_reading at_
    exact ⟨pending, bytes, left⟩
  · exact rec.whole
  · intro t r at_ waits
    obtain rfl := of_reading at_
    exact armed waits
  · intro t w at_ waits
    refine enabled t w at_ ?_
    rw [waits]
    exact fun h => Phase.noConfusion h

end Specs

/-! ## Runs of two threads -/

/-- The state after `printk_init`, with two threads. -/
def twoThreads : State Bool :=
  { readBuf := 0, readSem := 0, readLock := 1, writeSem := 0, writeLock := 1, ier := ⟨false, false⟩,
    pc := fun _ => .outside, thr := [], written := [], empties := 0, received := [], reads := [] }

/-- The events that can happen one after the other, all of them allowed. -/
def Legals (ok : State τ → Event τ → Prop) [DecidableEq τ] : State τ → List (Event τ) → Prop
  | _, [] => True
  | s, event :: events => (Legal s event ∧ ok s event) ∧ Legals ok (exec s event) events

theorem Reachable.run [DecidableEq τ] {ok : State τ → Event τ → Prop} {events : List (Event τ)}
    {s : State τ} (reach : Reachable ok s) (legals : Legals ok s events) :
    Reachable ok (events.foldl exec s) := by
  induction events generalizing s with
  | nil => exact reach
  | cons event events ih =>
      obtain ⟨⟨legal, allowed⟩, rest⟩ := legals
      exact ih (reach.step legal allowed) rest

theorem Initial.twoThreads : Initial twoThreads :=
  ⟨rfl, rfl, rfl, rfl, rfl, fun _ => rfl, rfl, rfl, rfl, rfl, rfl⟩

/-- A thread reads two bytes. -/
def readTwo : List (Event Bool) :=
  [.read false 2, .step false, .step false, .step false, .irq 0x4 0x41, .step false, .step false,
    .step false, .step false, .irq 0x4 0x42, .step false, .step false, .step false]

theorem reachable_delivered_readTwo :
    (readTwo.foldl exec twoThreads).reads = [(2, [0x41, 0x42])] ∧
      Delivered (readTwo.foldl exec twoThreads) := by
  refine ⟨rfl, reachable_delivered _ (Reachable.run (.init .twoThreads) ?_)⟩
  simp +decide [readTwo, Legals, Legal, NotTorn, State.Ready, exec, step, readOp,
    State.goto, twoThreads, uartIsr, State.receive]

/-- The other thread loads `IER` while the first waits for a byte, and stores it after the handler
has cleared `IER_RBR`. -/
def torn : List (Event Bool) :=
  [.read false 2, .step false, .step false, .step false, .write true [0x61], .step true, .step true,
    .irq 0x4 0x41, .step true, .irq 0x4 0x42, .step false, .step false, .step false, .step false,
    .step false, .step false, .step false]

/-- After a store to `IER` that is torn, the reader gets the second byte twice. -/
theorem not_delivered_torn :
    ¬ ∀ s : State Bool, Reachable (fun _ _ => True) s → (∀ t, (s.pc t).reading = none) →
      s.received = s.reads.flatMap (·.2) := by
  intro lossless
  have reach : Reachable (fun _ _ => True) (torn.foldl exec twoThreads) := by
    refine Reachable.run (.init .twoThreads) ?_
    simp +decide [torn, Legals, Legal, State.Ready, exec, step, readOp, writeOp, State.goto,
      twoThreads, uartIsr, State.receive]
  exact absurd (lossless _ reach (by decide)) (by decide)

end TheFirmware.Uart
