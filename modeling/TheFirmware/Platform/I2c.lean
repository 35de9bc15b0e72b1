import TheFirmware.Runtime

/-!
# The I2C master of `platform/lpc11xx/i2c.c`

`i2c_dev_transfer` sets the start flag and waits for `done`; everything else happens in
`i2c_dev_isr`, which is called with a status code whenever the hardware has set `SI`. The model has
the registers the handler writes, and what the hardware does once `SI` is cleared: it sends a start
or a stop condition, or else shifts a byte out or in, depending on the last status code
(`proceed`). `Allowed` is the automaton of the hardware: the codes that can be reported after each
of these activities.
-/

namespace TheFirmware.I2c

/-- The flags of the control register. -/
structure Con : Type where
  aa : Bool := false
  si : Bool := false
  sto : Bool := false
  sta : Bool := false
  deriving DecidableEq, Repr

/-- A write to `LPC_I2C->CONSET`. -/
@[simp] def Con.conset (con flags : Con) : Con :=
  { aa := con.aa || flags.aa, si := con.si || flags.si, sto := con.sto || flags.sto,
    sta := con.sta || flags.sta }

/-- A write to `LPC_I2C->CONCLR`. -/
@[simp] def Con.conclr (con flags : Con) : Con :=
  { aa := con.aa && !flags.aa, si := con.si && !flags.si, sto := con.sto && !flags.sto,
    sta := con.sta && !flags.sta }

@[simp] def consetAa : Con := { aa := true }
@[simp] def consetSto : Con := { sto := true }
@[simp] def consetSta : Con := { sta := true }
@[simp] def conclrAac : Con := { aa := true }
@[simp] def conclrSic : Con := { si := true }
@[simp] def conclrSicStac : Con := { si := true, sta := true }

/-- What the hardware does while `SI` is clear. -/
inductive Activity : Type
  | start
  | repeatedStart
  | addressWrite
  | addressRead
  | sendData
  | receive (ack : Bool)
  | stop
  deriving DecidableEq, Repr

/-- The transfer of `struct i2c_dev`, the registers, and what has happened since the transfer was
started: the data bytes shifted out, the stores to `readBuffer` with their indices, and the number
of signals to `done`. -/
structure State : Type where
  status : Status
  addr : UInt8
  writeBuffer : Nat → UInt8
  writeBufferIndex : UInt32
  writeBufferLength : UInt32
  readBuffer : Nat → UInt8
  readBufferIndex : UInt32
  readBufferLength : UInt32
  dat : UInt8
  con : Con
  activity : Activity
  sent : List UInt8
  stores : List (Nat × UInt8)
  done : Nat

/-- `LPC_I2C->CONSET = flags` -/
@[simp] def State.conset (s : State) (flags : Con) : State := { s with con := s.con.conset flags }

/-- `LPC_I2C->CONCLR = flags` -/
@[simp] def State.conclr (s : State) (flags : Con) : State := { s with con := s.con.conclr flags }

/-- `semaphore_signal(&global_dev->done)` after the status has been set. -/
@[simp] def State.finish (s : State) (status : Status) : State :=
  { s with status := status, done := s.done + 1 }

/-- `LPC_I2C->DAT = global_dev->writeBuffer[global_dev->writeBufferIndex++]` -/
@[simp] def State.writeNext (s : State) : State :=
  { s with
    dat := s.writeBuffer s.writeBufferIndex.toNat
    writeBufferIndex := s.writeBufferIndex + 1 }

/-- `global_dev->readBuffer[global_dev->readBufferIndex++] = LPC_I2C->DAT` -/
@[simp] def State.readNext (s : State) : State :=
  { s with
    readBuffer := Function.update s.readBuffer s.readBufferIndex.toNat s.dat
    stores := s.stores ++ [(s.readBufferIndex.toNat, s.dat)]
    readBufferIndex := s.readBufferIndex + 1 }

/-- The acknowledge for the byte that is received next. -/
@[simp] def State.acknowledge (s : State) : State :=
  if s.readBufferIndex + 1 < s.readBufferLength then s.conset consetAa else s.conclr conclrAac

/-- The error cases of the handler. They also log the first two bytes of `writeBuffer`. -/
@[simp] def State.fail (s : State) : State :=
  ((s.conset consetSto).conclr conclrSic).finish (statusErr 0)

/-- `i2c_dev_isr` -/
def i2cDevIsr (state : UInt8) (s : State) : State :=
  match state with
  | 0x08 => { s with writeBufferIndex := 0, dat := s.addr }.conclr conclrSicStac
  | 0x10 => { s with readBufferIndex := 0, dat := s.addr ||| 0x1 }.conclr conclrSicStac
  | 0x18 =>
      (if s.writeBufferIndex < s.writeBufferLength then s.writeNext
        else s.conset consetSto).conclr conclrSic
  | 0x28 =>
      (if s.writeBufferIndex < s.writeBufferLength then s.writeNext
        else if 0 < s.readBufferLength then s.conset consetSta
        else (s.conset consetSto).finish statusOk).conclr conclrSic
  | 0x40 => s.acknowledge.conclr conclrSic
  | 0x50 => s.readNext.acknowledge.conclr conclrSic
  | 0x58 => ((s.readNext.finish statusOk).conset consetSto).conclr conclrSic
  | 0x20 => s.fail
  | 0x48 => s.fail
  | _ => s.fail

/-- What the hardware does when the handler has cleared `SI` after a status code: a stop or start
condition when the flags ask for it, and else the next byte. -/
@[simp] def next (state : UInt8) (con : Con) : Activity :=
  if con.sto then .stop
  else if con.sta then .repeatedStart
  else match state with
    | 0x08 => .addressWrite
    | 0x10 => .addressRead
    | 0x18 => .sendData
    | 0x28 => .sendData
    | 0x40 => .receive con.aa
    | 0x50 => .receive con.aa
    | _ => .stop

/-- The hardware goes on. A data byte is taken from `DAT`. -/
@[simp] def State.proceed (s : State) (state : UInt8) : State :=
  match next state s.con with
  | .sendData => { s with activity := .sendData, sent := s.sent ++ [s.dat] }
  | activity => { s with activity := activity }

/-- A status code of the hardware, and the byte received when it reports one. -/
structure Report : Type where
  state : UInt8
  byte : UInt8
  deriving DecidableEq, Repr

/-- The code reports a byte in `DAT`. -/
def Report.receives (r : Report) : Bool := r.state = 0x50 || r.state = 0x58

/-- The hardware sets `SI`, with the byte received in `DAT`. -/
@[simp] def State.raise (s : State) (r : Report) : State :=
  { s with
    con := { s.con with si := true }
    dat := if r.receives then r.byte else s.dat }

/-- The hardware reports a code, the handler runs, and the hardware goes on. -/
def State.report (s : State) (r : Report) : State :=
  (i2cDevIsr r.state (s.raise r)).proceed r.state

/-- The codes that do not stand for a failure. -/
def expected : List UInt8 := [0x08, 0x10, 0x18, 0x28, 0x40, 0x50, 0x58]

/-- The automaton: the codes that can be reported after an activity. Every code that is not one of
the expected ones can be reported in every phase, but nothing after a stop condition. -/
def Allowed (activity : Activity) (state : UInt8) : Prop :=
  match activity with
  | .stop => False
  | .start => state = 0x08 ∨ state ∉ expected
  | .repeatedStart => state = 0x10 ∨ state ∉ expected
  | .addressWrite => state = 0x18 ∨ state ∉ expected
  | .addressRead => state = 0x40 ∨ state ∉ expected
  | .sendData => state = 0x28 ∨ state ∉ expected
  | .receive ack => state = (if ack then 0x50 else 0x58) ∨ state ∉ expected

instance : ∀ activity state, Decidable (Allowed activity state)
  | .stop, _ => inferInstanceAs (Decidable False)
  | .start, _ => inferInstanceAs (Decidable (_ ∨ _))
  | .repeatedStart, _ => inferInstanceAs (Decidable (_ ∨ _))
  | .addressWrite, _ => inferInstanceAs (Decidable (_ ∨ _))
  | .addressRead, _ => inferInstanceAs (Decidable (_ ∨ _))
  | .sendData, _ => inferInstanceAs (Decidable (_ ∨ _))
  | .receive _, _ => inferInstanceAs (Decidable (_ ∨ _))

/-- The arguments of `i2c_dev_transfer`. -/
structure Transfer : Type where
  addr : UInt8
  writeBuffer : Nat → UInt8
  writeBufferLength : UInt32
  readBuffer : Nat → UInt8
  readBufferLength : UInt32

/-- `i2c_dev_transfer` up to the wait for `done`, with the stop condition of an earlier transfer
sent. The indices, the status and the other flags are as they were left. -/
def i2cDevTransfer (s : State) (t : Transfer) : State :=
  { s with
    addr := t.addr
    writeBuffer := t.writeBuffer
    writeBufferLength := t.writeBufferLength
    readBuffer := t.readBuffer
    readBufferLength := t.readBufferLength
    con := { s.con with sto := false }.conset consetSta
    activity := .start
    sent := []
    stores := []
    done := 0 }

/-- The reports come one after the other as the automaton allows. -/
def Follows : State → List Report → Prop
  | _, [] => True
  | s, r :: reports => Allowed s.activity r.state ∧ Follows (s.report r) reports

instance : ∀ s reports, Decidable (Follows s reports)
  | _, [] => inferInstanceAs (Decidable True)
  | s, r :: reports =>
      have : Decidable (Follows (s.report r) reports) := instDecidableFollows (s.report r) reports
      inferInstanceAs (Decidable (_ ∧ _))

/-- The number of data bytes the slave has acknowledged. -/
def acknowledged (reports : List Report) : Nat := reports.countP fun r => r.state = 0x28

/-- The bytes the slave has sent. -/
def received (reports : List Report) : List UInt8 :=
  (reports.filter Report.receives).map Report.byte

/-- What the transfer has done by the time of the reports, and how it ends: the bytes on the bus are
the first ones of `writeBuffer`, the bytes received are stored to the first places of `readBuffer`
in order, and when the stop condition is sent `done` has been signalled once, with `STATUS_OK`
exactly when every byte was acknowledged and `readBuffer` is full. The transfer cannot go on for
ever. -/
structure Correct (t : Transfer) (reports : List Report) (s : State) : Prop where
  sent : s.sent = (List.range s.sent.length).map t.writeBuffer
  sent_le : s.sent.length ≤ t.writeBufferLength.toNat
  indices : s.stores.map Prod.fst = List.range s.stores.length
  bytes : s.stores.map Prod.snd = received reports
  stores_le : s.stores.length ≤ t.readBufferLength.toNat
  buffer : ∀ i, s.readBuffer i = ((received reports)[i]?).getD (t.readBuffer i)
  done : s.done = if s.activity = .stop then 1 else 0
  status : s.activity = .stop → (s.status = statusOk ↔
    acknowledged reports = t.writeBufferLength.toNat ∧
      s.stores.length = t.readBufferLength.toNat)
  bounded : reports.length ≤ t.writeBufferLength.toNat + t.readBufferLength.toNat + 4

/-! ## The invariant -/

/-- The arguments of the transfer are kept, and the logs are those of the reports. -/
structure Log (t : Transfer) (reports : List Report) (s : State) : Prop where
  writeBuffer : s.writeBuffer = t.writeBuffer
  writeBufferLength : s.writeBufferLength = t.writeBufferLength
  readBufferLength : s.readBufferLength = t.readBufferLength
  sent : s.sent = (List.range s.sent.length).map t.writeBuffer
  indices : s.stores.map Prod.fst = List.range s.stores.length
  bytes : s.stores.map Prod.snd = received reports
  buffer : ∀ i, s.readBuffer i = ((received reports)[i]?).getD (t.readBuffer i)

/-- How far the transfer is, by what the hardware does: `acked` bytes have been acknowledged, and
`count` codes reported. -/
inductive Phase (t : Transfer) (acked count : Nat) (s : State) : Prop
  | start (activity : s.activity = .start) (sto : s.con.sto = false) (done : s.done = 0)
      (sent : s.sent.length = 0) (acks : acked = 0) (stored : s.stores.length = 0)
      (reported : count = 0) : Phase t acked count s
  | addressWrite (activity : s.activity = .addressWrite) (sto : s.con.sto = false)
      (sta : s.con.sta = false) (done : s.done = 0) (index : s.writeBufferIndex = 0)
      (sent : s.sent.length = 0) (acks : acked = 0) (stored : s.stores.length = 0)
      (reported : count = 1) : Phase t acked count s
  | sendData (activity : s.activity = .sendData) (sto : s.con.sto = false)
      (sta : s.con.sta = false) (done : s.done = 0)
      (index : s.writeBufferIndex.toNat = s.sent.length) (sent : s.sent.length = acked + 1)
      (more : acked < t.writeBufferLength.toNat) (stored : s.stores.length = 0)
      (reported : count = acked + 2) : Phase t acked count s
  | repeatedStart (activity : s.activity = .repeatedStart) (sto : s.con.sto = false)
      (done : s.done = 0) (sent : s.sent.length = t.writeBufferLength.toNat)
      (acks : acked = t.writeBufferLength.toNat) (stored : s.stores.length = 0)
      (more : 0 < t.readBufferLength.toNat)
      (reported : count = t.writeBufferLength.toNat + 2) : Phase t acked count s
  | addressRead (activity : s.activity = .addressRead) (sto : s.con.sto = false)
      (sta : s.con.sta = false) (done : s.done = 0) (index : s.readBufferIndex = 0)
      (sent : s.sent.length = t.writeBufferLength.toNat)
      (acks : acked = t.writeBufferLength.toNat) (stored : s.stores.length = 0)
      (more : 0 < t.readBufferLength.toNat)
      (reported : count = t.writeBufferLength.toNat + 3) : Phase t acked count s
  | receive (activity : s.activity = .receive (s.stores.length + 1 < t.readBufferLength.toNat))
      (sto : s.con.sto = false) (sta : s.con.sta = false) (done : s.done = 0)
      (index : s.readBufferIndex.toNat = s.stores.length)
      (sent : s.sent.length = t.writeBufferLength.toNat)
      (acks : acked = t.writeBufferLength.toNat)
      (more : s.stores.length < t.readBufferLength.toNat)
      (reported : count = t.writeBufferLength.toNat + 4 + s.stores.length) : Phase t acked count s
  | stop (activity : s.activity = .stop) (done : s.done = 1)
      (sent : s.sent.length ≤ t.writeBufferLength.toNat)
      (stored : s.stores.length ≤ t.readBufferLength.toNat)
      (status : s.status = statusOk ↔
        acked = t.writeBufferLength.toNat ∧ s.stores.length = t.readBufferLength.toNat)
      (reported : count ≤ t.writeBufferLength.toNat + t.readBufferLength.toNat + 4) :
      Phase t acked count s

section Specs

variable {t : Transfer} {reports : List Report} {r : Report} {s s' : State} {acked count : Nat}

theorem acknowledged_append (reports : List Report) (r : Report) :
    acknowledged (reports ++ [r]) = acknowledged reports + if r.state = 0x28 then 1 else 0 := by
  simp [acknowledged, List.countP_append, List.countP_singleton]

theorem acknowledged_of_ne {state b : UInt8} (other : state ≠ 0x28) :
    acknowledged (reports ++ [⟨state, b⟩]) = acknowledged reports := by
  rw [acknowledged_append, if_neg other, Nat.add_zero]

theorem received_append (reports : List Report) (r : Report) :
    received (reports ++ [r]) = received reports ++ if r.receives then [r.byte] else [] := by
  unfold received
  rw [List.filter_append, List.map_append]
  cases receives : r.receives with
  | true => simp [receives]
  | false => simp [receives]

/-- A code that reports no byte, after which at most one more data byte is on the bus. -/
theorem Log.quiet (log : Log t reports s) (quiet : r.receives = false)
    (args : s'.writeBuffer = s.writeBuffer ∧ s'.writeBufferLength = s.writeBufferLength ∧
      s'.readBufferLength = s.readBufferLength)
    (sent : s'.sent = s.sent ∨ s'.sent = s.sent ++ [t.writeBuffer s.sent.length])
    (stores : s'.stores = s.stores) (buffer : s'.readBuffer = s.readBuffer) :
    Log t (reports ++ [r]) s' := by
  have same : received (reports ++ [r]) = received reports := by
    rw [received_append, quiet]
    simp
  refine ⟨args.1.trans log.writeBuffer, args.2.1.trans log.writeBufferLength,
    args.2.2.trans log.readBufferLength, ?_, ?_, ?_, ?_⟩
  · rcases sent with sent | sent
    · rw [sent]
      exact log.sent
    · rw [sent, List.length_append, List.length_singleton, List.range_succ, List.map_append,
        ← log.sent]
      rfl
  · rw [stores]
    exact log.indices
  · rw [stores, same]
    exact log.bytes
  · rw [buffer, same]
    exact log.buffer

/-- A byte that is stored behind the earlier ones. -/
theorem Log.store (log : Log t reports s) (receives : r.receives = true)
    (args : s'.writeBuffer = s.writeBuffer ∧ s'.writeBufferLength = s.writeBufferLength ∧
      s'.readBufferLength = s.readBufferLength)
    (sent : s'.sent = s.sent) (stores : s'.stores = s.stores ++ [(s.stores.length, r.byte)])
    (buffer : s'.readBuffer = Function.update s.readBuffer s.stores.length r.byte) :
    Log t (reports ++ [r]) s' := by
  have more : received (reports ++ [r]) = received reports ++ [r.byte] := by
    rw [received_append, receives]
    rfl
  have count : s.stores.length = (received reports).length := by
    rw [← log.bytes, List.length_map]
  refine ⟨args.1.trans log.writeBuffer, args.2.1.trans log.writeBufferLength,
    args.2.2.trans log.readBufferLength, ?_, ?_, ?_, ?_⟩
  · rw [sent]
    exact log.sent
  · rw [stores, List.map_append, List.length_append, List.length_singleton, List.range_succ,
      log.indices]
    rfl
  · rw [stores, more, List.map_append, log.bytes]
    rfl
  · intro i
    rw [buffer, more, count]
    by_cases same : i = (received reports).length
    · rw [same, Function.update_self, List.getElem?_concat_length]
      rfl
    · rw [Function.update_of_ne same, log.buffer i]
      rcases Nat.lt_or_ge i (received reports).length with before | behind
      · rw [List.getElem?_append_left before]
      · rw [List.getElem?_eq_none behind, List.getElem?_eq_none]
        rw [List.length_append, List.length_singleton]
        omega

/-- As long as the transfer is going on it is neither signalled nor complete. -/
theorem Phase.unfinished (phase : Phase t acked count s) (goingOn : s.activity ≠ .stop) :
    s.done = 0 ∧ s.con.sto = false ∧ s.sent.length ≤ t.writeBufferLength.toNat ∧
      s.stores.length ≤ t.readBufferLength.toNat ∧
      (1 ≤ t.writeBufferLength.toNat →
        ¬ (acked = t.writeBufferLength.toNat ∧ s.stores.length = t.readBufferLength.toNat)) ∧
      count < t.writeBufferLength.toNat + t.readBufferLength.toNat + 4 := by
  cases phase with
  | stop activity => exact absurd activity goingOn
  | _ => refine ⟨by assumption, by assumption, ?_, ?_, ?_, ?_⟩ <;> omega

theorem i2cDevIsr_error {state : UInt8} (error : state ∉ expected) (s : State) :
    i2cDevIsr state s = s.fail := by
  unfold i2cDevIsr
  split
  all_goals first
    | rfl
    | exact absurd (by decide) error

theorem Report.receives_error (error : r.state ∉ expected) : r.receives = false := by
  unfold Report.receives
  by_contra received
  rw [Bool.not_eq_false, Bool.or_eq_true, decide_eq_true_eq, decide_eq_true_eq] at received
  rcases received with same | same
  · exact error (by rw [same]; decide)
  · exact error (by rw [same]; decide)

/-- Every other code ends the transfer with an error. -/
theorem report_error (error : r.state ∉ expected) (s : State) :
    s.report r =
      { s with
        con := { s.con with si := false, sto := true }
        status := statusErr 0
        done := s.done + 1
        activity := .stop } := by
  unfold State.report State.raise
  rw [Report.receives_error error, i2cDevIsr_error error]
  simp

theorem Phase.error (phase : Phase t (acknowledged reports) reports.length s)
    (nonempty : 1 ≤ t.writeBufferLength.toNat) (goingOn : s.activity ≠ .stop)
    (error : r.state ∉ expected) :
    Phase t (acknowledged (reports ++ [r])) (reports ++ [r]).length (s.report r) := by
  obtain ⟨done, -, sent, stored, incomplete, reported⟩ := phase.unfinished goingOn
  have noAck : acknowledged (reports ++ [r]) = acknowledged reports := by
    apply acknowledged_of_ne
    intro same
    exact error (by rw [same]; decide)
  rw [report_error error, noAck]
  refine .stop rfl ?_ sent stored ?_ ?_
  · show s.done + 1 = 1
    rw [done]
  · show statusErr 0 = statusOk ↔ _
    exact ⟨fun ok => absurd ok (by decide), fun complete => absurd complete (incomplete nonempty)⟩
  · rw [List.length_append, List.length_singleton]
    omega

/-! ## The expected codes -/

theorem report_start (b : UInt8) (sto : s.con.sto = false) :
    s.report ⟨0x08, b⟩ =
      { s with
        writeBufferIndex := 0
        dat := s.addr
        con := { s.con with si := false, sta := false }
        activity := .addressWrite } := by
  simp [State.report, i2cDevIsr, Report.receives, sto]

theorem report_repeatedStart (b : UInt8) (sto : s.con.sto = false) :
    s.report ⟨0x10, b⟩ =
      { s with
        readBufferIndex := 0
        dat := s.addr ||| 0x1
        con := { s.con with si := false, sta := false }
        activity := .addressRead } := by
  simp [State.report, i2cDevIsr, Report.receives, sto]

theorem report_write {state : UInt8} (b : UInt8) (acknowledge : state = 0x18 ∨ state = 0x28)
    (sto : s.con.sto = false) (sta : s.con.sta = false)
    (more : s.writeBufferIndex < s.writeBufferLength) :
    s.report ⟨state, b⟩ =
      { s with
        dat := s.writeBuffer s.writeBufferIndex.toNat
        writeBufferIndex := s.writeBufferIndex + 1
        con := { s.con with si := false }
        activity := .sendData
        sent := s.sent ++ [s.writeBuffer s.writeBufferIndex.toNat] } := by
  rcases acknowledge with rfl | rfl
  · simp [State.report, i2cDevIsr, sto, sta, more]
  · simp [State.report, i2cDevIsr, sto, sta, more]

theorem report_allSent (b : UInt8) (sto : s.con.sto = false)
    (all : ¬ s.writeBufferIndex < s.writeBufferLength) :
    s.report ⟨0x28, b⟩ =
      if 0 < s.readBufferLength then
        { s with con := { s.con with si := false, sta := true }, activity := .repeatedStart }
      else
        { s with
          con := { s.con with si := false, sto := true }
          status := statusOk
          done := s.done + 1
          activity := .stop } := by
  by_cases read : 0 < s.readBufferLength
  · simp [State.report, i2cDevIsr, Report.receives, sto, all, read]
  · simp [State.report, i2cDevIsr, Report.receives, all, read]

theorem report_addressed (b : UInt8) (sto : s.con.sto = false) (sta : s.con.sta = false) :
    s.report ⟨0x40, b⟩ =
      { s with
        con := { s.con with si := false, aa := s.readBufferIndex + 1 < s.readBufferLength }
        activity := .receive (s.readBufferIndex + 1 < s.readBufferLength) } := by
  by_cases more : s.readBufferIndex + 1 < s.readBufferLength
  · simp [State.report, i2cDevIsr, Report.receives, sto, sta, more]
  · simp [State.report, i2cDevIsr, Report.receives, sto, sta, more]

theorem report_received (b : UInt8) (sto : s.con.sto = false) (sta : s.con.sta = false) :
    s.report ⟨0x50, b⟩ =
      { s with
        dat := b
        readBuffer := Function.update s.readBuffer s.readBufferIndex.toNat b
        stores := s.stores ++ [(s.readBufferIndex.toNat, b)]
        readBufferIndex := s.readBufferIndex + 1
        con := { s.con with si := false, aa := s.readBufferIndex + 1 + 1 < s.readBufferLength }
        activity := .receive (s.readBufferIndex + 1 + 1 < s.readBufferLength) } := by
  by_cases more : s.readBufferIndex + 1 + 1 < s.readBufferLength
  · simp [State.report, i2cDevIsr, Report.receives, sto, sta, more]
  · simp [State.report, i2cDevIsr, Report.receives, sto, sta, more]

theorem report_last (b : UInt8) (s : State) :
    s.report ⟨0x58, b⟩ =
      { s with
        dat := b
        readBuffer := Function.update s.readBuffer s.readBufferIndex.toNat b
        stores := s.stores ++ [(s.readBufferIndex.toNat, b)]
        readBufferIndex := s.readBufferIndex + 1
        con := { s.con with si := false, sto := true }
        status := statusOk
        done := s.done + 1
        activity := .stop } := by
  simp [State.report, i2cDevIsr, Report.receives]

theorem toNat_succ {x y : UInt32} (bound : x < y) : (x + 1).toNat = x.toNat + 1 := by
  have lt := UInt32.lt_iff_toNat_lt.mp bound
  have range := y.toNat_lt
  rw [UInt32.toNat_add, Nat.mod_eq_of_lt]
  · rfl
  · show x.toNat + 1 < 2 ^ 32
    omega

/-- The logs are those of the reports, and the phase goes with them. -/
structure Sound (t : Transfer) (reports : List Report) (s : State) : Prop where
  log : Log t reports s
  phase : Phase t (acknowledged reports) reports.length s

theorem length_concat (reports : List Report) (r : Report) :
    (reports ++ [r]).length = reports.length + 1 := by
  rw [List.length_append, List.length_singleton]

theorem Sound.error (sound : Sound t reports s) (nonempty : 1 ≤ t.writeBufferLength.toNat)
    (goingOn : s.activity ≠ .stop) (error : r.state ∉ expected) :
    Sound t (reports ++ [r]) (s.report r) := by
  refine ⟨?_, sound.phase.error nonempty goingOn error⟩
  rw [report_error error]
  exact sound.log.quiet (Report.receives_error error) ⟨rfl, rfl, rfl⟩ (.inl rfl) rfl rfl

/-- The next byte of `writeBuffer` is put on the bus. -/
theorem Sound.write {state b : UInt8} (sound : Sound t reports s)
    (acknowledge : state = 0x18 ∨ state = 0x28) (sto : s.con.sto = false)
    (sta : s.con.sta = false) (done : s.done = 0)
    (index : s.writeBufferIndex.toNat = s.sent.length) (stored : s.stores.length = 0)
    (more : s.sent.length < t.writeBufferLength.toNat)
    (acks : acknowledged (reports ++ [⟨state, b⟩]) = s.sent.length)
    (reported : reports.length = s.sent.length + 1) :
    Sound t (reports ++ [⟨state, b⟩]) (s.report ⟨state, b⟩) := by
  have room : s.writeBufferIndex < s.writeBufferLength := by
    rw [UInt32.lt_iff_toNat_lt, index, sound.log.writeBufferLength]
    exact more
  have quiet : Report.receives ⟨state, b⟩ = false := by
    rcases acknowledge with rfl | rfl
    · rfl
    · rfl
  rw [report_write b acknowledge sto sta room]
  constructor
  · refine sound.log.quiet quiet ⟨rfl, rfl, rfl⟩ (.inr ?_) rfl rfl
    show _ ++ [s.writeBuffer s.writeBufferIndex.toNat] = _
    rw [sound.log.writeBuffer, index]
  · rw [acks, length_concat]
    refine .sendData rfl sto sta done ?_ ?_ more stored ?_
    · show (s.writeBufferIndex + 1).toNat = (s.sent ++ [_]).length
      rw [toNat_succ room, index, List.length_append, List.length_singleton]
    · exact List.length_append
    · rw [reported]

/-- Everything has been sent and acknowledged. -/
theorem Sound.allSent {b : UInt8} (sound : Sound t reports s) (sto : s.con.sto = false)
    (done : s.done = 0) (index : s.writeBufferIndex.toNat = s.sent.length)
    (stored : s.stores.length = 0) (all : s.sent.length = t.writeBufferLength.toNat)
    (acks : acknowledged (reports ++ [⟨0x28, b⟩]) = t.writeBufferLength.toNat)
    (reported : reports.length = t.writeBufferLength.toNat + 1) :
    Sound t (reports ++ [⟨0x28, b⟩]) (s.report ⟨0x28, b⟩) := by
  have full : ¬ s.writeBufferIndex < s.writeBufferLength := by
    rw [UInt32.lt_iff_toNat_lt, index, sound.log.writeBufferLength, all]
    exact lt_irrefl _
  have read : 0 < s.readBufferLength ↔ 0 < t.readBufferLength.toNat := by
    rw [UInt32.lt_iff_toNat_lt, sound.log.readBufferLength]
    rfl
  rw [report_allSent b sto full]
  by_cases more : 0 < s.readBufferLength
  · rw [if_pos more]
    constructor
    · exact sound.log.quiet rfl ⟨rfl, rfl, rfl⟩ (.inl rfl) rfl rfl
    · rw [acks, length_concat]
      refine .repeatedStart rfl sto done all rfl stored (read.mp more) ?_
      rw [reported]
  · rw [if_neg more]
    constructor
    · exact sound.log.quiet rfl ⟨rfl, rfl, rfl⟩ (.inl rfl) rfl rfl
    · have nothing : t.readBufferLength.toNat = 0 := by
        rw [read] at more
        omega
      rw [acks, length_concat]
      refine .stop rfl ?_ all.le ?_ ?_ ?_
      · show s.done + 1 = 1
        rw [done]
      · show s.stores.length ≤ _
        omega
      · show statusOk = statusOk ↔ _
        refine ⟨fun _ => ⟨rfl, ?_⟩, fun _ => rfl⟩
        show s.stores.length = _
        omega
      · omega

/-- The acknowledge is given as long as another byte is to follow. -/
theorem acknowledge_iff {x : UInt32} {n : Nat} (index : x.toNat = n)
    (more : n < t.readBufferLength.toNat) :
    decide (x + 1 < t.readBufferLength) = decide (n + 1 < t.readBufferLength.toNat) := by
  have bound : x < t.readBufferLength := by
    rw [UInt32.lt_iff_toNat_lt, index]
    exact more
  rw [decide_eq_decide, UInt32.lt_iff_toNat_lt, toNat_succ bound, index]

theorem Sound.addressed {b : UInt8} (sound : Sound t reports s) (sto : s.con.sto = false)
    (sta : s.con.sta = false) (done : s.done = 0) (index : s.readBufferIndex = 0)
    (sent : s.sent.length = t.writeBufferLength.toNat)
    (acks : acknowledged reports = t.writeBufferLength.toNat) (stored : s.stores.length = 0)
    (more : 0 < t.readBufferLength.toNat)
    (reported : reports.length = t.writeBufferLength.toNat + 3) :
    Sound t (reports ++ [⟨0x40, b⟩]) (s.report ⟨0x40, b⟩) := by
  have zero : s.readBufferIndex.toNat = s.stores.length := by
    rw [index, stored]
    rfl
  rw [report_addressed b sto sta, sound.log.readBufferLength, acknowledge_iff zero (stored ▸ more)]
  constructor
  · exact sound.log.quiet rfl ⟨rfl, rfl, sound.log.readBufferLength.symm⟩ (.inl rfl) rfl rfl
  · rw [acknowledged_of_ne (by decide), length_concat]
    refine .receive rfl sto sta done zero sent acks (stored ▸ more) ?_
    show _ = _ + s.stores.length
    omega

/-- A byte that is not the last is stored, and the next one acknowledged if it is not the last. -/
theorem Sound.received {b : UInt8} (sound : Sound t reports s) (sto : s.con.sto = false)
    (sta : s.con.sta = false) (done : s.done = 0)
    (index : s.readBufferIndex.toNat = s.stores.length)
    (sent : s.sent.length = t.writeBufferLength.toNat)
    (acks : acknowledged reports = t.writeBufferLength.toNat)
    (more : s.stores.length + 1 < t.readBufferLength.toNat)
    (reported : reports.length = t.writeBufferLength.toNat + 4 + s.stores.length) :
    Sound t (reports ++ [⟨0x50, b⟩]) (s.report ⟨0x50, b⟩) := by
  have succ : (s.readBufferIndex + 1).toNat = s.stores.length + 1 := by
    have bound : s.readBufferIndex < t.readBufferLength := by
      rw [UInt32.lt_iff_toNat_lt, index]
      omega
    rw [toNat_succ bound, index]
  rw [report_received b sto sta, sound.log.readBufferLength, acknowledge_iff succ more]
  constructor
  · refine sound.log.store rfl ⟨rfl, rfl, sound.log.readBufferLength.symm⟩ rfl ?_ ?_
    · show _ ++ [(s.readBufferIndex.toNat, b)] = _
      rw [index]
    · show Function.update s.readBuffer s.readBufferIndex.toNat b = _
      rw [index]
  · have stored : (s.stores ++ [(s.readBufferIndex.toNat, b)]).length = s.stores.length + 1 :=
      List.length_append
    rw [acknowledged_of_ne (by decide), length_concat, ← stored]
    refine .receive rfl sto sta done ?_ sent acks ?_ ?_
    · rw [stored]
      exact succ
    · rw [stored]
      exact more
    · rw [stored, reported]
      rfl

/-- The last byte is stored, and the transfer is complete. -/
theorem Sound.last {b : UInt8} (sound : Sound t reports s) (done : s.done = 0)
    (index : s.readBufferIndex.toNat = s.stores.length)
    (sent : s.sent.length = t.writeBufferLength.toNat)
    (acks : acknowledged reports = t.writeBufferLength.toNat)
    (last : s.stores.length + 1 = t.readBufferLength.toNat)
    (reported : reports.length = t.writeBufferLength.toNat + 4 + s.stores.length) :
    Sound t (reports ++ [⟨0x58, b⟩]) (s.report ⟨0x58, b⟩) := by
  have stored : (s.stores ++ [(s.readBufferIndex.toNat, b)]).length = t.readBufferLength.toNat := by
    rw [List.length_append, List.length_singleton, last]
  rw [report_last b]
  constructor
  · refine sound.log.store rfl ⟨rfl, rfl, rfl⟩ rfl ?_ ?_
    · show _ ++ [(s.readBufferIndex.toNat, b)] = _
      rw [index]
    · show Function.update s.readBuffer s.readBufferIndex.toNat b = _
      rw [index]
  · rw [acknowledged_of_ne (by decide), length_concat]
    refine .stop rfl ?_ sent.le stored.le ?_ ?_
    · show s.done + 1 = 1
      rw [done]
    · show statusOk = statusOk ↔ _
      exact ⟨fun _ => ⟨acks, stored⟩, fun _ => rfl⟩
    · omega

/-- Every code the automaton allows keeps the invariant. -/
theorem Sound.report (sound : Sound t reports s) (nonempty : 1 ≤ t.writeBufferLength.toNat)
    (allowed : Allowed s.activity r.state) : Sound t (reports ++ [r]) (s.report r) := by
  have orError : ∀ {state : UInt8}, s.activity ≠ .stop →
      (r.state = state → Sound t (reports ++ [r]) (s.report r)) →
      r.state = state ∨ r.state ∉ expected → Sound t (reports ++ [r]) (s.report r) := by
    intro state goingOn good allowed
    rcases allowed with same | error
    · exact good same
    · exact sound.error nonempty goingOn error
  obtain ⟨state, b⟩ := r
  cases sound.phase with
  | start activity sto done sent acks stored reported =>
      rw [activity] at allowed
      refine orError (by rw [activity]; decide) ?_ allowed
      rintro rfl
      rw [report_start b sto]
      constructor
      · exact sound.log.quiet rfl ⟨rfl, rfl, rfl⟩ (.inl rfl) rfl rfl
      · rw [acknowledged_of_ne (by decide), length_concat]
        refine .addressWrite rfl sto rfl done rfl sent acks stored ?_
        rw [reported]
  | addressWrite activity sto sta done index sent acks stored reported =>
      rw [activity] at allowed
      refine orError (by rw [activity]; decide) ?_ allowed
      rintro rfl
      refine sound.write (.inl rfl) sto sta done ?_ stored (sent ▸ nonempty) ?_ (sent ▸ reported)
      · rw [index, sent]
        rfl
      · rw [acknowledged_of_ne (by decide), acks, sent]
  | sendData activity sto sta done index sent more stored reported =>
      rw [activity] at allowed
      refine orError (by rw [activity]; decide) ?_ allowed
      rintro rfl
      have acks : acknowledged (reports ++ [⟨0x28, b⟩]) = s.sent.length := by
        rw [acknowledged_append, if_pos rfl, sent]
      by_cases last : s.sent.length = t.writeBufferLength.toNat
      · exact sound.allSent sto done index stored last (acks.trans last) (by omega)
      · exact sound.write (.inr rfl) sto sta done index stored (by omega) acks (by omega)
  | repeatedStart activity sto done sent acks stored more reported =>
      rw [activity] at allowed
      refine orError (by rw [activity]; decide) ?_ allowed
      rintro rfl
      rw [report_repeatedStart b sto]
      constructor
      · exact sound.log.quiet rfl ⟨rfl, rfl, rfl⟩ (.inl rfl) rfl rfl
      · rw [acknowledged_of_ne (by decide), length_concat]
        refine .addressRead rfl sto rfl done rfl sent acks stored more ?_
        rw [reported]
  | addressRead activity sto sta done index sent acks stored more reported =>
      rw [activity] at allowed
      refine orError (by rw [activity]; decide) ?_ allowed
      rintro rfl
      exact sound.addressed sto sta done index sent acks stored more reported
  | receive activity sto sta done index sent acks more reported =>
      rw [activity] at allowed
      refine orError (by rw [activity]; exact nofun) ?_ allowed
      rintro rfl
      by_cases follows : s.stores.length + 1 < t.readBufferLength.toNat
      · rw [decide_eq_true follows]
        exact sound.received sto sta done index sent acks follows reported
      · rw [decide_eq_false follows]
        exact sound.last done index sent acks (by omega) reported
  | stop activity =>
      rw [activity] at allowed
      exact allowed.elim

theorem sound_i2cDevTransfer (s : State) (t : Transfer) : Sound t [] (i2cDevTransfer s t) :=
  ⟨⟨rfl, rfl, rfl, rfl, rfl, rfl, fun _ => rfl⟩, .start rfl rfl rfl rfl rfl rfl rfl⟩

/-- Along any further reports the invariant stays. -/
theorem Sound.run {more : List Report} (sound : Sound t reports s)
    (nonempty : 1 ≤ t.writeBufferLength.toNat) (follows : Follows s more) :
    Sound t (reports ++ more) (more.foldl State.report s) := by
  induction more generalizing reports s with
  | nil => rwa [List.append_nil]
  | cons r more ih =>
      obtain ⟨allowed, follows⟩ := follows
      rw [List.append_cons]
      exact ih (sound.report nonempty allowed) follows

theorem Sound.correct (sound : Sound t reports s) : Correct t reports s := by
  obtain ⟨log, phase⟩ := sound
  by_cases stopped : s.activity = .stop
  · cases phase with
    | stop activity done sent stored status reported =>
        refine ⟨log.sent, sent, log.indices, log.bytes, stored, log.buffer, ?_, fun _ => status,
          reported⟩
        rw [if_pos stopped, done]
    | _ => simp_all
  · obtain ⟨done, -, sent, stored, -, reported⟩ := phase.unfinished stopped
    refine ⟨log.sent, sent, log.indices, log.bytes, stored, log.buffer, ?_,
      fun stop => absurd stop stopped, reported.le⟩
    rw [if_neg stopped, done]

end Specs

/-- **The transfer is correct**: whatever state earlier transfers have left, and whichever codes the
hardware reports, a transfer with at least one byte to write does what `Correct` says at every point
of it. -/
theorem i2cDevTransfer_correct (s : State) (t : Transfer) (reports : List Report)
    (nonempty : 1 ≤ t.writeBufferLength) (follows : Follows (i2cDevTransfer s t) reports) :
    Correct t reports (reports.foldl State.report (i2cDevTransfer s t)) := by
  have atLeast : 1 ≤ t.writeBufferLength.toNat := UInt32.le_iff_toNat_le.mp nonempty
  exact ((sound_i2cDevTransfer s t).run atLeast follows).correct

/-- The device before its first transfer. -/
def idleDevice : State :=
  { status := statusOk, addr := 0, writeBuffer := fun _ => 0, writeBufferIndex := 0,
    writeBufferLength := 0, readBuffer := fun _ => 0, readBufferIndex := 0, readBufferLength := 0,
    dat := 0, con := {}, activity := .stop, sent := [], stores := [], done := 0 }

/-- One byte is written and two are read, without an error: the read bytes are in the buffer, and
the status is `STATUS_OK`. -/
theorem i2cDevTransfer_correct_read :
    let t : Transfer := ⟨0xA0, fun _ => 7, 1, fun _ => 0, 2⟩
    let reports : List Report :=
      [⟨0x08, 0⟩, ⟨0x18, 0⟩, ⟨0x28, 0⟩, ⟨0x10, 0⟩, ⟨0x40, 0⟩, ⟨0x50, 11⟩, ⟨0x58, 12⟩]
    let s := reports.foldl State.report (i2cDevTransfer idleDevice t)
    Follows (i2cDevTransfer idleDevice t) reports ∧ Correct t reports s ∧
      s.sent = [7] ∧ s.stores = [(0, 11), (1, 12)] ∧ s.status = statusOk := by
  intro t reports s
  have follows : Follows (i2cDevTransfer idleDevice t) reports := by decide +kernel
  have read : s.sent = [7] ∧ s.stores = [(0, 11), (1, 12)] ∧ s.status = statusOk := by
    decide +kernel
  exact ⟨follows, i2cDevTransfer_correct idleDevice t reports (by decide) follows, read⟩

end TheFirmware.I2c
