import TheFirmware.Platform.I2c

/-!
# A transfer with a slave

The other side of the automaton of the hardware: a slave acknowledges addresses and data bytes, and
sends bytes. It decides which code is reported after each activity (`Slave.answer`), so the handler
and the slave run together until the stop condition (`Slave.run`).

`Slave.transaction` is a transfer as a driver sees it, where the slave gets the bytes to write and
gives those to read. The handler and the slave bring about just that and signal `done`, so the call
returns (`call_transaction`), for one transfer after the other (`session_transactions`).
-/

namespace TheFirmware.I2c

variable {δ : Type}

/-- A slave: whether it acknowledges the byte of an address, with the bit that asks for data,
whether it acknowledges a data byte, the data byte that it sends, and the stop condition. -/
structure Slave (δ : Type) : Type where
  address : UInt8 → δ → Bool × δ
  write : UInt8 → δ → Bool × δ
  read : δ → UInt8 × δ
  stop : δ → δ

/-! ## On the wire -/

/-- The code that is reported after an activity with a slave, none after a stop condition. -/
def Slave.answer (slave : Slave δ) (s : State) (d : δ) : Option (Report × δ) :=
  match s.activity with
  | .start => some (⟨0x08, 0⟩, d)
  | .repeatedStart => some (⟨0x10, 0⟩, d)
  | .addressWrite =>
      let (ack, d) := slave.address s.dat d
      some (⟨if ack then 0x18 else 0x20, 0⟩, d)
  | .addressRead =>
      let (ack, d) := slave.address s.dat d
      some (⟨if ack then 0x40 else 0x48, 0⟩, d)
  | .sendData =>
      let (ack, d) := slave.write s.dat d
      some (⟨if ack then 0x28 else 0x30, 0⟩, d)
  | .receive ack =>
      let (byte, d) := slave.read d
      some (⟨if ack then 0x50 else 0x58, byte⟩, d)
  | .stop => none

/-- The handler and a slave, until the stop condition. -/
def Slave.run (slave : Slave δ) : Nat → State → δ → Except Fault (State × δ)
  | 0, _, _ => .error .outOfFuel
  | fuel + 1, s, d =>
      match slave.answer s d with
      | none => .ok (s, slave.stop d)
      | some (r, d) => slave.run fuel (s.report r) d

/-! ## What it is for -/

/-- Bytes that are read from a slave. -/
def Slave.reads (slave : Slave δ) : Nat → δ → List UInt8 × δ
  | 0, d => ([], d)
  | n + 1, d =>
      let (byte, d) := slave.read d
      let (bytes, d) := slave.reads n d
      (byte :: bytes, d)

/-- What a transfer has come to: its status, the bytes that were read, and the slave. -/
abbrev Outcome (δ : Type) : Type := Status × List UInt8 × δ

/-- The transfer is given up. -/
def Slave.refused (slave : Slave δ) (d : δ) : Outcome δ := (statusErr 0, [], slave.stop d)

/-- The part of a transfer that reads. -/
def Slave.receives (slave : Slave δ) (addr : UInt8) (n : Nat) (d : δ) : Outcome δ :=
  if n = 0 then (statusOk, [], slave.stop d)
  else
    let (ack, d) := slave.address (addr ||| 0x1) d
    if ack then
      let (bytes, d) := slave.reads n d
      (statusOk, bytes, slave.stop d)
    else slave.refused d

/-- The part of a transfer that writes, and the rest. -/
def Slave.sends (slave : Slave δ) (addr : UInt8) (n : Nat) : List UInt8 → δ → Outcome δ
  | [], d => slave.receives addr n d
  | byte :: bytes, d =>
      let (ack, d) := slave.write byte d
      if ack then slave.sends addr n bytes d else slave.refused d

/-- A transfer with a slave, as a driver sees it. -/
def Slave.transaction (slave : Slave δ) (d : δ) (addr : UInt8) (bytes : List UInt8) (n : Nat) :
    Outcome δ :=
  let (ack, d) := slave.address addr d
  if ack then slave.sends addr n bytes d else slave.refused d

/-! ## The run -/

/-- The transfer is going on, and nothing is stored. -/
structure Going (t : Transfer) (s : State) : Prop where
  addr : s.addr = t.addr
  writeBuffer : s.writeBuffer = t.writeBuffer
  writeBufferLength : s.writeBufferLength = t.writeBufferLength
  readBufferLength : s.readBufferLength = t.readBufferLength
  sto : s.con.sto = false
  done : s.done = 0

/-- The bytes are stored to the start of the buffer. -/
structure Stored (t : Transfer) (bytes : List UInt8) (s : State) : Prop where
  stores : s.stores.map Prod.snd = bytes
  readBuffer : ∀ i, s.readBuffer i = (bytes[i]?).getD (t.readBuffer i)

/-- The transfer has ended, and only the stop condition is asked for. -/
structure Ended (t : Transfer) (status : Status) (bytes : List UInt8) (s : State) : Prop
    extends Stored t bytes s where
  status : s.status = status
  done : s.done = 1
  activity : s.activity = .stop
  sto : s.con.sto = true
  sta : s.con.sta = false

/-- The bytes are left to be written. -/
structure Writing (t : Transfer) (bytes : List UInt8) (s : State) : Prop extends Going t s where
  sta : s.con.sta = false
  count : s.writeBufferIndex.toNat + bytes.length = t.writeBufferLength.toNat
  content : ∀ i byte, bytes[i]? = some byte → t.writeBuffer (s.writeBufferIndex.toNat + i) = byte
  unread : Stored t [] s

/-- The handler and a slave come to an outcome. -/
def Slave.Reaches (slave : Slave δ) (t : Transfer) (s : State) (d : δ) (outcome : Outcome δ) :
    Prop :=
  ∃ s', Returns (fun fuel => slave.run fuel s d) (s', outcome.2.2) ∧
    Ended t outcome.1 outcome.2.1 s'

section Run

variable {slave : Slave δ} {t : Transfer} {s : State} {d d' : δ} {r : Report} {outcome : Outcome δ}

theorem Slave.Reaches.step (answered : slave.answer s d = some (r, d'))
    (reaches : slave.Reaches t (s.report r) d' outcome) : slave.Reaches t s d outcome := by
  obtain ⟨s', returns, ended⟩ := reaches
  refine ⟨s', Returns.succ ?_, ended⟩
  simp only [Slave.run, answered]
  exact returns

theorem Slave.Reaches.stop (ended : Ended t outcome.1 outcome.2.1 s)
    (last : outcome.2.2 = slave.stop d) : slave.Reaches t s d outcome := by
  have answered : slave.answer s d = none := by
    unfold Slave.answer
    rw [ended.activity]
  refine ⟨s, Returns.succ ?_, ended⟩
  simp only [Slave.run, answered, last]
  exact Returns.ok _

/-- A code for a byte that was not acknowledged. -/
theorem reaches_refused {state : UInt8} (error : state ∉ expected) (going : Going t s)
    (sta : s.con.sta = false) (unread : Stored t [] s)
    (answered : slave.answer s d = some (⟨state, 0⟩, d')) :
    slave.Reaches t s d (slave.refused d') := by
  apply Slave.Reaches.step answered
  rw [report_error error]
  exact .stop ⟨⟨unread.stores, unread.readBuffer⟩, rfl, congrArg (· + 1) going.done, rfl, rfl, sta⟩
    rfl

/-- One more byte is stored. -/
theorem Stored.store {front : List UInt8} {byte : UInt8} (stored : Stored t front s)
    (index : s.readBufferIndex.toNat = front.length) {s' : State}
    (stores : s'.stores = s.stores ++ [(s.readBufferIndex.toNat, byte)])
    (buffer : s'.readBuffer = Function.update s.readBuffer s.readBufferIndex.toNat byte) :
    Stored t (front ++ [byte]) s' := by
  refine ⟨?_, fun i => ?_⟩
  · rw [stores, List.map_append, stored.stores]
    rfl
  rw [buffer, index]
  by_cases last : i = front.length
  · rw [last, Function.update_self, List.getElem?_concat_length, Option.getD_some]
  · rw [Function.update_of_ne last, stored.readBuffer i]
    rcases Nat.lt_or_ge i front.length with before | behind
    · rw [List.getElem?_append_left before]
    · have outside : (front ++ [byte]).length ≤ i := by
        rw [List.length_append, List.length_singleton]
        omega
      rw [List.getElem?_eq_none behind, List.getElem?_eq_none outside]

theorem answer_receive {ack : Bool} (activity : s.activity = .receive ack) :
    slave.answer s d =
      some (⟨if ack then 0x50 else 0x58, (slave.read d).1⟩, (slave.read d).2) := by
  unfold Slave.answer
  rw [activity]

/-- The slave is read, from the byte behind `front` on. -/
theorem reaches_reads {front : List UInt8} {m : Nat} (going : Going t s)
    (index : s.readBufferIndex.toNat = front.length)
    (left : front.length + (m + 1) = t.readBufferLength.toNat)
    (stored : Stored t front s) (sta : s.con.sta = false)
    (activity : s.activity = .receive (s.readBufferIndex + 1 < s.readBufferLength)) :
    slave.Reaches t s d
      (statusOk, front ++ (slave.reads (m + 1) d).1, slave.stop (slave.reads (m + 1) d).2) := by
  induction m generalizing s d front with
  | zero =>
    have before : s.readBufferIndex < t.readBufferLength := by
      rw [UInt32.lt_iff_toNat_lt]
      omega
    have last : ¬ s.readBufferIndex + 1 < s.readBufferLength := by
      rw [UInt32.lt_iff_toNat_lt, going.readBufferLength, toNat_succ before]
      omega
    rw [decide_eq_false last] at activity
    apply Slave.Reaches.step (answer_receive activity)
    rw [if_neg Bool.false_ne_true, report_last]
    exact .stop ⟨stored.store index rfl rfl, rfl, congrArg (· + 1) going.done, rfl, rfl, sta⟩ rfl
  | succ m ih =>
    have before : s.readBufferIndex < t.readBufferLength := by
      rw [UInt32.lt_iff_toNat_lt]
      omega
    have next := toNat_succ before
    have more : s.readBufferIndex + 1 < s.readBufferLength := by
      rw [UInt32.lt_iff_toNat_lt, going.readBufferLength, next]
      omega
    have behind : (front ++ [(slave.read d).1]).length = front.length + 1 := by
      rw [List.length_append, List.length_singleton]
    have whole : front ++ (slave.reads (m + 1 + 1) d).1 =
        (front ++ [(slave.read d).1]) ++ (slave.reads (m + 1) (slave.read d).2).1 := by
      rw [List.append_assoc]
      rfl
    rw [decide_eq_true more] at activity
    apply Slave.Reaches.step (answer_receive activity)
    rw [if_pos rfl, report_received _ going.sto sta, whole]
    refine ih ⟨going.addr, going.writeBuffer, going.writeBufferLength, going.readBufferLength,
      going.sto, going.done⟩ ?_ ?_ ?_ sta rfl
    · rw [behind, ← index]
      exact next
    · rw [behind]
      omega
    · exact stored.store index rfl rfl

/-- The slave is addressed to be read. -/
theorem reaches_addressRead (going : Going t s) (activity : s.activity = .addressRead)
    (dat : s.dat = t.addr ||| 0x1) (sta : s.con.sta = false) (index : s.readBufferIndex = 0)
    (reading : t.readBufferLength.toNat ≠ 0) (unread : Stored t [] s) :
    slave.Reaches t s d (slave.receives t.addr t.readBufferLength.toNat d) := by
  have answered : ∀ {ack d'}, slave.address (t.addr ||| 0x1) d = (ack, d') →
      slave.answer s d = some (⟨if ack then 0x40 else 0x48, 0⟩, d') := by
    intro ack d' acked
    unfold Slave.answer
    rw [activity, dat, acked]
  unfold Slave.receives
  rw [if_neg reading]
  generalize slave.address (t.addr ||| 0x1) d = acked at answered ⊢
  rcases acked with ⟨ack, d'⟩
  cases ack with
  | true =>
    rcases Nat.exists_eq_succ_of_ne_zero reading with ⟨m, count⟩
    apply Slave.Reaches.step (answered rfl)
    rw [if_pos rfl, report_addressed _ going.sto sta, count]
    show slave.Reaches t _ d' (statusOk, [] ++ (slave.reads (m + 1) d').1, _)
    refine reaches_reads ⟨going.addr, going.writeBuffer, going.writeBufferLength,
      going.readBufferLength, going.sto, going.done⟩ ?_ ?_ ?_ ?_ rfl
    · exact congrArg UInt32.toNat index
    · rw [count, List.length_nil, Nat.zero_add]
    · exact ⟨unread.stores, unread.readBuffer⟩
    · exact sta
  | false => exact reaches_refused (by decide) going sta unread (answered rfl)

theorem reaches_repeatedStart (going : Going t s) (activity : s.activity = .repeatedStart)
    (reading : t.readBufferLength.toNat ≠ 0) (unread : Stored t [] s) :
    slave.Reaches t s d (slave.receives t.addr t.readBufferLength.toNat d) := by
  have answered : slave.answer s d = some (⟨0x10, 0⟩, d) := by
    unfold Slave.answer
    rw [activity]
  apply Slave.Reaches.step answered
  rw [report_repeatedStart 0 going.sto]
  exact reaches_addressRead ⟨going.addr, going.writeBuffer, going.writeBufferLength,
    going.readBufferLength, going.sto, going.done⟩ rfl (congrArg (· ||| 0x1) going.addr) rfl rfl
    reading ⟨unread.stores, unread.readBuffer⟩

/-- All bytes are written. -/
theorem reaches_receives (going : Going t s) (sta : s.con.sta = false)
    (all : ¬ s.writeBufferIndex < s.writeBufferLength) (unread : Stored t [] s) :
    slave.Reaches t (s.report ⟨0x28, 0⟩) d
      (slave.receives t.addr t.readBufferLength.toNat d) := by
  have positive : 0 < s.readBufferLength ↔ t.readBufferLength.toNat ≠ 0 := by
    rw [going.readBufferLength, UInt32.lt_iff_toNat_lt, UInt32.toNat_zero]
    omega
  rw [report_allSent _ going.sto all]
  by_cases reading : 0 < s.readBufferLength
  · rw [if_pos reading]
    exact reaches_repeatedStart ⟨going.addr, going.writeBuffer, going.writeBufferLength,
      going.readBufferLength, going.sto, going.done⟩ rfl (positive.mp reading)
      ⟨unread.stores, unread.readBuffer⟩
  · unfold Slave.receives
    rw [if_neg reading, if_pos (not_not.mp (positive.not.mp reading))]
    exact .stop
      ⟨⟨unread.stores, unread.readBuffer⟩, rfl, congrArg (· + 1) going.done, rfl, rfl, sta⟩ rfl

/-- The next byte is put on the bus. -/
theorem Writing.report {state byte : UInt8} {bytes : List UInt8}
    (writing : Writing t (byte :: bytes) s) (acknowledge : state = 0x18 ∨ state = 0x28) :
    Writing t bytes (s.report ⟨state, 0⟩) ∧ (s.report ⟨state, 0⟩).activity = .sendData ∧
      (s.report ⟨state, 0⟩).dat = byte := by
  have count := writing.count
  rw [List.length_cons] at count
  have more : s.writeBufferIndex < s.writeBufferLength := by
    rw [UInt32.lt_iff_toNat_lt, writing.writeBufferLength]
    omega
  have next := toNat_succ more
  have first : s.writeBuffer s.writeBufferIndex.toNat = byte := by
    rw [writing.writeBuffer]
    exact writing.content 0 byte rfl
  rw [report_write 0 acknowledge writing.sto writing.sta more]
  refine ⟨⟨⟨writing.addr, writing.writeBuffer, writing.writeBufferLength,
    writing.readBufferLength, writing.sto, writing.done⟩, writing.sta, ?_, fun i b at_ => ?_,
    ⟨writing.unread.stores, writing.unread.readBuffer⟩⟩, rfl, first⟩
  · dsimp only
    omega
  · dsimp only
    rw [next, Nat.add_assoc, Nat.add_comm 1]
    exact writing.content (i + 1) b at_

theorem Writing.step {state byte : UInt8} {bytes : List UInt8}
    (writing : Writing t (byte :: bytes) s) (acknowledge : state = 0x18 ∨ state = 0x28)
    (rest : ∀ s d, Writing t bytes s → slave.Reaches t (s.report ⟨0x28, 0⟩) d
      (slave.sends t.addr t.readBufferLength.toNat bytes d)) :
    slave.Reaches t (s.report ⟨state, 0⟩) d
      (slave.sends t.addr t.readBufferLength.toNat (byte :: bytes) d) := by
  rcases writing.report acknowledge with ⟨after, activity, dat⟩
  generalize s.report ⟨state, 0⟩ = s' at after activity dat ⊢
  have answered : ∀ {ack d'}, slave.write byte d = (ack, d') →
      slave.answer s' d = some (⟨if ack then 0x28 else 0x30, 0⟩, d') := by
    intro ack d' acked
    unfold Slave.answer
    rw [activity, dat, acked]
  unfold Slave.sends
  generalize slave.write byte d = acked at answered ⊢
  rcases acked with ⟨ack, d'⟩
  cases ack with
  | true =>
    apply Slave.Reaches.step (answered rfl)
    exact rest s' d' after
  | false => exact reaches_refused (by decide) after.toGoing after.sta after.unread (answered rfl)

/-- The slave gets the bytes that are left, when it has acknowledged the one before. -/
theorem Writing.reaches {bytes : List UInt8} (writing : Writing t bytes s) :
    slave.Reaches t (s.report ⟨0x28, 0⟩) d
      (slave.sends t.addr t.readBufferLength.toNat bytes d) := by
  induction bytes generalizing s d with
  | nil =>
    have all : ¬ s.writeBufferIndex < s.writeBufferLength := by
      have count := writing.count
      rw [List.length_nil] at count
      rw [UInt32.lt_iff_toNat_lt, writing.writeBufferLength]
      omega
    exact reaches_receives writing.toGoing writing.sta all writing.unread
  | cons byte bytes ih => exact writing.step (.inr rfl) fun s d writing => ih writing

/-- The slave is addressed to be written. -/
theorem Writing.addressed {bytes : List UInt8} (writing : Writing t bytes s)
    (activity : s.activity = .addressWrite) (dat : s.dat = t.addr) (nonempty : bytes ≠ []) :
    slave.Reaches t s d (slave.transaction d t.addr bytes t.readBufferLength.toNat) := by
  have answered : ∀ {ack d'}, slave.address t.addr d = (ack, d') →
      slave.answer s d = some (⟨if ack then 0x18 else 0x20, 0⟩, d') := by
    intro ack d' acked
    unfold Slave.answer
    rw [activity, dat, acked]
  unfold Slave.transaction
  generalize slave.address t.addr d = acked at answered ⊢
  rcases acked with ⟨ack, d'⟩
  cases ack with
  | true =>
    rcases List.exists_cons_of_ne_nil nonempty with ⟨byte, bytes, rfl⟩
    apply Slave.Reaches.step (answered rfl)
    exact writing.step (.inl rfl) fun s d writing => writing.reaches
  | false =>
    exact reaches_refused (by decide) writing.toGoing writing.sta writing.unread (answered rfl)

end Run

/-- The arguments of `i2c_dev_transfer` for bytes to write, and a buffer to read into. -/
def transferOf (addr : UInt8) (bytes : List UInt8) (buffer : Nat → UInt8) (n : Nat) : Transfer where
  addr
  writeBuffer i := bytes.getD i 0
  writeBufferLength := .ofNat bytes.length
  readBuffer := buffer
  readBufferLength := .ofNat n

section Whole

variable {addr : UInt8} {bytes : List UInt8} {buffer : Nat → UInt8} {n : Nat}

theorem transferOf_written (addr : UInt8) (buffer : Nat → UInt8) (n : Nat)
    (short : bytes.length < 2 ^ 32) :
    (transferOf addr bytes buffer n).writeBufferLength.toNat = bytes.length :=
  UInt32.toNat_ofNat_of_lt' short

theorem transferOf_read (addr : UInt8) (bytes : List UInt8) (buffer : Nat → UInt8)
    (fits : n < 2 ^ 32) :
    (transferOf addr bytes buffer n).readBufferLength.toNat = n :=
  UInt32.toNat_ofNat_of_lt' fits

/-- The handler and the slave come to the outcome of the transaction. -/
theorem reaches_transaction (slave : Slave δ) (s : State) (d : δ) (nonempty : bytes ≠ [])
    (short : bytes.length < 2 ^ 32) (fits : n < 2 ^ 32) :
    slave.Reaches (transferOf addr bytes buffer n)
      (i2cDevTransfer s (transferOf addr bytes buffer n)) d (slave.transaction d addr bytes n) := by
  have content : ∀ i byte, bytes[i]? = some byte → bytes.getD (0 + i) 0 = byte := by
    intro i byte at_
    rw [Nat.zero_add, List.getD_eq_getElem?_getD, at_, Option.getD_some]
  have count : 0 + bytes.length = (transferOf addr bytes buffer n).writeBufferLength.toNat := by
    rw [transferOf_written addr buffer n short, Nat.zero_add]
  -- The start condition, and the address on the bus.
  refine .step rfl ?_
  rw [report_start 0 rfl]
  suffices slave.Reaches (transferOf addr bytes buffer n) _ d
      (slave.transaction d addr bytes (transferOf addr bytes buffer n).readBufferLength.toNat) by
    rwa [transferOf_read addr bytes buffer fits] at this
  refine Writing.addressed ⟨⟨?_, ?_, ?_, ?_, ?_, ?_⟩, ?_, ?_, ?_, ?_⟩ ?_ ?_ nonempty
  any_goals rfl
  · exact count
  · exact content
  · exact ⟨rfl, fun _ => rfl⟩

end Whole

/-! ## Enough fuel -/

section Fuel

variable {slave : Slave δ} {s : State} {d d' : δ} {r : Report} {fuel : Nat}

/-- A slave is one of the ways in which the hardware can behave. -/
theorem allowed_answer (answered : slave.answer s d = some (r, d')) :
    Allowed s.activity r.state := by
  unfold Slave.answer at answered
  cases activity : s.activity with
  | stop =>
    rw [activity] at answered
    cases answered
  | start =>
    rw [activity] at answered
    cases answered
    exact .inl rfl
  | repeatedStart =>
    rw [activity] at answered
    cases answered
    exact .inl rfl
  | addressWrite =>
    rw [activity] at answered
    cases answered
    cases (slave.address s.dat d).1 with
    | true => exact .inl rfl
    | false => exact .inr (by decide)
  | addressRead =>
    rw [activity] at answered
    cases answered
    cases (slave.address s.dat d).1 with
    | true => exact .inl rfl
    | false => exact .inr (by decide)
  | sendData =>
    rw [activity] at answered
    cases answered
    cases (slave.write s.dat d).1 with
    | true => exact .inl rfl
    | false => exact .inr (by decide)
  | receive ack =>
    rw [activity] at answered
    cases answered
    exact .inl rfl

/-- A run that has not come to its end has taken as many codes as it has got fuel. -/
theorem run_cases (slave : Slave δ) (fuel : Nat) (s : State) (d : δ) :
    (∃ result, slave.run fuel s d = .ok result) ∨
      ∃ reports, reports.length = fuel ∧ Follows s reports := by
  induction fuel generalizing s d with
  | zero => exact .inr ⟨[], rfl, trivial⟩
  | succ fuel ih =>
    unfold Slave.run
    cases answered : slave.answer s d with
    | none => exact .inl ⟨_, rfl⟩
    | some answer =>
      rcases answer with ⟨r, d'⟩
      rcases ih (s.report r) d' with ends | ⟨reports, length, follows⟩
      · exact .inl ends
      · exact .inr ⟨r :: reports, congrArg (· + 1) length, allowed_answer answered, follows⟩

theorem returns_of_run {result : State × δ} (ran : slave.run fuel s d = .ok result) :
    Returns (fun fuel => slave.run fuel s d) result := by
  induction fuel generalizing s d with
  | zero => cases ran
  | succ fuel ih =>
    apply Returns.succ
    simp only [Slave.run] at ran ⊢
    cases answered : slave.answer s d with
    | none =>
      rw [answered] at ran
      cases ran
      exact Returns.ok _
    | some answer =>
      rw [answered] at ran
      exact ih ran

/-- No transfer takes more codes than bytes, and a few for the conditions and the addresses. -/
theorem run_enough (slave : Slave δ) (s : State) (d : δ) (t : Transfer)
    (nonempty : 1 ≤ t.writeBufferLength.toNat) :
    ∃ result, slave.run (t.writeBufferLength.toNat + t.readBufferLength.toNat + 5)
      (i2cDevTransfer s t) d = .ok result := by
  rcases run_cases slave (t.writeBufferLength.toNat + t.readBufferLength.toNat + 5)
    (i2cDevTransfer s t) d with ends | ⟨reports, length, follows⟩
  · exact ends
  · have sound := (sound_i2cDevTransfer s t).run nonempty follows
    have bounded := sound.correct.bounded
    rw [List.nil_append] at bounded
    omega

end Fuel

/-- A run that is given the fuel ends in the outcome of the transaction. -/
theorem run_transaction (slave : Slave δ) (s : State) (d : δ) (addr : UInt8) (bytes : List UInt8)
    (buffer : Nat → UInt8) (n : Nat) (nonempty : bytes ≠ []) (short : bytes.length < 2 ^ 32)
    (fits : n < 2 ^ 32) :
    ∃ s', slave.run (bytes.length + n + 5)
        (i2cDevTransfer s (transferOf addr bytes buffer n)) d =
        .ok (s', (slave.transaction d addr bytes n).2.2) ∧
      Ended (transferOf addr bytes buffer n) (slave.transaction d addr bytes n).1
        (slave.transaction d addr bytes n).2.1 s' := by
  have written := transferOf_written addr buffer n short
  have read := transferOf_read addr bytes buffer fits
  have positive : 1 ≤ (transferOf addr bytes buffer n).writeBufferLength.toNat := by
    rw [written]
    exact List.length_pos_iff.mpr nonempty
  rcases run_enough slave s d _ positive with ⟨result, ran⟩
  rw [written, read] at ran
  rcases reaches_transaction slave s d nonempty short fits with ⟨s', returns, ended⟩
  have same := (returns_of_run ran).unique returns
  exact ⟨s', same ▸ ran, ended⟩

/-! ## One transfer after the other -/

/-- A call of `i2c_dev_transfer`. Without a byte to write the handler would not signal `done`. -/
structure Request : Type where
  addr : UInt8
  bytes : List UInt8
  buffer : Nat → UInt8
  n : Nat
  nonempty : bytes ≠ []
  short : bytes.length < 2 ^ 32
  fits : n < 2 ^ 32

/-- What the caller gets: the status, and the buffer. -/
abbrev Answer : Type := Status × (Nat → UInt8)

/-- `i2c_dev_transfer` with a slave, until the stop condition. When `done` has not been signalled by
then, the call waits for ever. -/
def Slave.call (slave : Slave δ) (fuel : Nat) (s : State) (t : Transfer) (d : δ) :
    Except Fault (State × δ) := do
  let (s, d) ← slave.run fuel (i2cDevTransfer s t) d
  if s.done = 0 then .error .outOfFuel else .ok (s, d)

/-- A call returns with the outcome of the transaction. -/
theorem call_transaction (slave : Slave δ) (s : State) (d : δ) (addr : UInt8) (bytes : List UInt8)
    (buffer : Nat → UInt8) (n : Nat) (nonempty : bytes ≠ []) (short : bytes.length < 2 ^ 32)
    (fits : n < 2 ^ 32) :
    ∃ s', slave.call (bytes.length + n + 5) s (transferOf addr bytes buffer n) d =
        .ok (s', (slave.transaction d addr bytes n).2.2) ∧
      Ended (transferOf addr bytes buffer n) (slave.transaction d addr bytes n).1
        (slave.transaction d addr bytes n).2.1 s' := by
  rcases run_transaction slave s d addr bytes buffer n nonempty short fits with ⟨s', ran, ended⟩
  have signalled : s'.done ≠ 0 := by
    rw [ended.done]
    exact Nat.one_ne_zero
  refine ⟨s', ?_, ended⟩
  unfold Slave.call
  rw [ran, Except.ok_bind]
  exact if_neg signalled

/-- The calls are made one after the other, each in the state that the one before has left. -/
def Slave.session (slave : Slave δ) :
    List Request → State → δ → Except Fault (List Answer × State × δ)
  | [], s, d => .ok ([], s, d)
  | q :: requests, s, d => do
      let t := transferOf q.addr q.bytes q.buffer q.n
      let (s, d) ← slave.call (q.bytes.length + q.n + 5) s t d
      let (answers, s', d) ← slave.session requests s d
      return ((s.status, s.readBuffer) :: answers, s', d)

/-- The transactions that the calls stand for. -/
def Slave.transactions (slave : Slave δ) : List Request → δ → List Answer × δ
  | [], d => ([], d)
  | q :: requests, d =>
      let (status, bytes, d) := slave.transaction d q.addr q.bytes q.n
      let (answers, d) := slave.transactions requests d
      ((status, fun i => (bytes[i]?).getD (q.buffer i)) :: answers, d)

/-- **The handler and the slave**: whatever slave there is, and whatever state the master is in, the
calls return, and the answers and the slave are those of the transactions. -/
theorem session_transactions (slave : Slave δ) (requests : List Request) (s : State) (d : δ) :
    ∃ s', slave.session requests s d =
      .ok ((slave.transactions requests d).1, s', (slave.transactions requests d).2) := by
  induction requests generalizing s d with
  | nil => exact ⟨s, rfl⟩
  | cons q requests ih =>
    rcases call_transaction slave s d q.addr q.bytes q.buffer q.n q.nonempty q.short q.fits with
      ⟨s₁, ran, ended⟩
    rcases ih s₁ (slave.transaction d q.addr q.bytes q.n).2.2 with ⟨s₂, rest⟩
    have buffer : s₁.readBuffer = fun i =>
        ((slave.transaction d q.addr q.bytes q.n).2.1[i]?).getD (q.buffer i) :=
      funext ended.readBuffer
    refine ⟨s₂, ?_⟩
    unfold Slave.session
    simp only [ran, rest, Except.ok_bind]
    rw [ended.status, buffer]
    rfl

end TheFirmware.I2c
