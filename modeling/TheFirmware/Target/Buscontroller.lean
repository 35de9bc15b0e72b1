import TheFirmware.Config.Config
import TheFirmware.CanNode.Frame
import TheFirmware.Core.TimerTick

/-!
# Booting `target/buscontroller`

From `config_load` in `target_init` through `target_main`, `can_node_init` and `can_init` to the
start of `can_node_loop`, for a configuration that comes out of the EEPROM. `target_main` checks the
identifier of the node before it uses it. The speed and the interval are used as they are: `can_init`
asserts that there is an entry for the speed, and `timer_managed_schedule` that the interval is
positive (`boot_returns_iff`).

The configuration is the bytes of `struct config_t`, little-endian, with the two bytes of padding
behind `node_id`. `can_send` returns when its frame has been transmitted, which leaves its
semaphores as they were; what it transmits is recorded.
-/

namespace TheFirmware.Buscontroller

open Mcp24xx64 Config CanNode

/-! ## `struct config_t` -/

/-- A byte of the configuration. -/
def byteAt (config : List UInt8) (offset : Nat) : UInt32 := (config.getD offset 0).toUInt32

/-- Four bytes of the configuration. -/
def wordAt (config : List UInt8) (offset : Nat) : UInt32 :=
  byteAt config offset ||| (byteAt config (offset + 1) <<< 8) |||
    (byteAt config (offset + 2) <<< 16) ||| (byteAt config (offset + 3) <<< 24)

/-- `config.sn` -/
def sn (config : List UInt8) : UInt32 := wordAt config 0

/-- `config.can_node.node_id` -/
def nodeId (config : List UInt8) : UInt16 := (wordAt config 4).toUInt16

/-- `config.can_node.speed` -/
def speed (config : List UInt8) : UInt32 := wordAt config 8

/-- `config.can_node.sensor_interval` -/
def sensorInterval (config : List UInt8) : Int := (wordAt config 12).toInt32.toInt

/-! ## The CAN driver -/

/-- `struct can_speed_table_entry` -/
structure CanSpeedTableEntry : Type where
  clock : UInt32
  can : UInt32
  div : UInt32
  btr : UInt32
  deriving DecidableEq, Repr

/-- `can_speed_table` -/
def canSpeedTable : List CanSpeedTableEntry :=
  [⟨12000000, 50000, 2, 0x1c0e⟩, ⟨12000000, 125000, 2, 0x1c02⟩, ⟨16000000, 125000, 8 - 7, 0x1c07⟩]

/-- The functions that receive frames. -/
inductive Callback : Type
  | discovery
  | sensor
  | output
  deriving DecidableEq, Repr

/-- What `config_rxmsgobj` is given for a message object. -/
structure RxMsgobj : Type where
  msgobj : Nat
  modeId : UInt32
  mask : UInt32
  deriving DecidableEq, Repr

/-- `struct _can`, with what the driver in ROM was given: the clock table, the message objects and
the messages to transmit. -/
structure Can : Type where
  clkInitTable : Option (UInt32 × UInt32)
  receiveConf : Vector (Option Callback) 31
  sendLock : Nat
  sendDone : Nat
  rxmsgobjs : List RxMsgobj
  transmitted : List CanRomMsg

variable {α η κ : Type}

/-- The board: the configuration in RAM and the EEPROM behind it, the interrupts that have a
handler, the CAN driver, `can_node`, and `default_timer`. -/
structure Board (α η κ : Type) : Type where
  config : List UInt8
  eeprom : Eeprom
  irqs : Nat → Bool
  can : Can
  canNodeId : UInt16
  canNodeSem : Nat
  timer : Timer α η κ

/-- `NUMBER_OF_IRQS` -/
def numberOfIrqs : Nat := 39

/-- `IRQ13` -/
def irq13 : Nat := 20

/-- `irq_register` -/
def irqRegister (irqNumber : Nat) (board : Board α η κ) : Bool × Board α η κ :=
  if numberOfIrqs ≤ irqNumber ∨ board.irqs irqNumber = true then (false, board)
  else (true, { board with irqs := Function.update board.irqs irqNumber true })

/-- `can_init(speed)`, when `clock_get_main()` is `clock`. -/
def canInit (clock canSpeed : UInt32) (board : Board α η κ) :
    Except Fault (Status × Board α η κ) := do
  let (registered, board) := irqRegister irq13 board
  assert (registered = true) "Could not register can irq"
  let entry := canSpeedTable.find? fun entry => entry.clock = clock ∧ entry.can = canSpeed
  assert (entry.isSome = true) "Could not find a can speed entry for clock and speed requested"
  let entry ← deref entry
  let can := { board.can with
    clkInitTable := some (entry.div - 1, entry.btr)
    sendLock := 1
    sendDone := 0 }
  return (statusOk, { board with can })

/-- `can_send(frame, 0)`: the message is transmitted. -/
def canSend (frame : CanFrame) (board : Board α η κ) : Board α η κ :=
  { board with can := { board.can with
    transmitted := board.can.transmitted ++ [canSendMsg frame] } }

/-- The first entry of `can.receive_conf` without a callback. -/
def freeReceiveConf (can : Can) : Option (Fin 31) :=
  (List.finRange 31).find? fun i => can.receiveConf[i].isNone

/-- `can_set_receive_callback(id, id_mask, CAN_FRAME_FLAG_EXT, callback, NULL)` -/
def canSetReceiveCallback (id mask : UInt32) (callback : Callback) (board : Board α η κ) :
    Status × Board α η κ :=
  match freeReceiveConf board.can with
  | none => (statusErr 0, board)
  | some idx =>
      let can := { board.can with
        receiveConf := board.can.receiveConf.set idx (some callback)
        rxmsgobjs := board.can.rxmsgobjs ++ [⟨idx + 1, id ||| lpc11CanExtFlag, mask⟩] }
      (statusOk, { board with can })

/-! ## The node -/

/-- `can_node_send_discovery_response` -/
def canNodeSendDiscoveryResponse (receiver : UInt16) (stack : Vector UInt8 8)
    (board : Board α η κ) : Except Fault (Board α η κ) := do
  let number := sn board.config
  let data : List UInt8 := [((1 : UInt8) <<< 1) ||| ((1 : UInt8) <<< 0),
    (number >>> 24).toUInt8, (number >>> 16).toUInt8, (number >>> 8).toUInt8, (number >>> 0).toUInt8]
  let frame ← canNodeSend board.canNodeId 511 receiver data stack
  return canSend frame board

/-- `can_node_init(node_id, speed)`, where `outputs` is `CAN_NODE_NUM_OUTPUT`. -/
def canNodeInit (clock : UInt32) (outputs : Nat) (stack : Vector UInt8 8) (id : UInt16)
    (canSpeed : UInt32) (board : Board α η κ) : Except Fault (Status × Board α η κ) := do
  assert (canNodeValidId id) "Can node id can only be 10 bit."
  let (err, board) ← canInit clock canSpeed board
  if err ≠ statusOk then return (err, board)
  else
    let board := { board with canNodeId := id, canNodeSem := 0 }
    let board ← canNodeSendDiscoveryResponse canNodeBroadcastId stack board
    let (_, board) := canSetReceiveCallback
      (canIdBuild canNodeBroadcastId canNodeBroadcastId 511)
      (canIdBuild canNodeBroadcastId canNodeBroadcastId 0x1FF) .discovery board
    if outputs > 0 then
      let (_, board) := canSetReceiveCallback
        (canIdBuild canNodeBroadcastId canNodeBroadcastId 500)
        (canIdBuild canNodeBroadcastId 0x3FF 0x1FF) .sensor board
      let (_, board) := canSetReceiveCallback
        (canIdBuild canNodeBroadcastId board.canNodeId 499)
        (canIdBuild canNodeBroadcastId 0x3FF 0x1FF) .output board
      return (statusOk, board)
    else return (statusOk, board)

/-! ### What the functions assert -/

/-- The configuration and the timer stay as they are. -/
structure SameInputs (board board' : Board α η κ) : Prop where
  config : board'.config = board.config
  timer : board'.timer = board.timer

theorem SameInputs.trans {board board' board'' : Board α η κ} (first : SameInputs board board')
    (second : SameInputs board' board'') : SameInputs board board'' :=
  ⟨second.config.trans first.config, second.timer.trans first.timer⟩

section Asserts

variable {board : Board α η κ} {id : UInt16} {canSpeed : UInt32}

/-- With a clock of 16 MHz the only speed in the table is 125000. -/
theorem find_canSpeedTable (canSpeed : UInt32) :
    canSpeedTable.find? (fun entry => entry.clock = 16000000 ∧ entry.can = canSpeed) =
      if canSpeed = 125000 then some ⟨16000000, 125000, 8 - 7, 0x1c07⟩ else none := by
  by_cases same : canSpeed = 125000
  · subst same
    rfl
  · have other : ¬ (125000 : UInt32) = canSpeed := fun eq => same eq.symm
    simp [canSpeedTable, List.find?, same, other]

theorem canInit_of_free (canSpeed : UInt32) (free : board.irqs irq13 = false) :
    ∃ board', SameInputs board board' ∧
      canInit 16000000 canSpeed board = if canSpeed = 125000 then .ok (statusOk, board') else
        .error (.assertion "Could not find a can speed entry for clock and speed requested") := by
  have registers : irqRegister irq13 board =
      (true, { board with irqs := Function.update board.irqs irq13 true }) := by
    rw [irqRegister, if_neg]
    rw [free]
    decide
  simp only [canInit, registers, find_canSpeedTable]
  by_cases same : canSpeed = 125000
  · simp only [if_pos same]
    refine ⟨_, ?_, rfl⟩
    exact ⟨rfl, rfl⟩
  · simp only [if_neg same]
    exact ⟨board, ⟨rfl, rfl⟩, rfl⟩

theorem canNodeSendDiscoveryResponse_returns (stack : Vector UInt8 8) (board : Board α η κ) :
    ∃ board', SameInputs board board' ∧
      canNodeSendDiscoveryResponse canNodeBroadcastId stack board = .ok board' := by
  refine ⟨_, ?_, rfl⟩
  exact ⟨rfl, rfl⟩

theorem sameInputs_canSetReceiveCallback (ident mask : UInt32) (callback : Callback)
    (board : Board α η κ) :
    SameInputs board (canSetReceiveCallback ident mask callback board).2 := by
  unfold canSetReceiveCallback
  split
  · exact ⟨rfl, rfl⟩
  · exact ⟨rfl, rfl⟩

/-- `can_node_init` asserts the speed. -/
theorem canNodeInit_of_valid (outputs : Nat) (stack : Vector UInt8 8)
    (free : board.irqs irq13 = false) (valid : canNodeValidId id) :
    ∃ board', SameInputs board board' ∧
      canNodeInit 16000000 outputs stack id canSpeed board =
        if canSpeed = 125000 then .ok (statusOk, board') else
          .error (.assertion "Could not find a can speed entry for clock and speed requested") := by
  obtain ⟨board₁, same₁, init⟩ := canInit_of_free canSpeed free
  simp only [canNodeInit]
  rw [assert_pos valid, Except.ok_bind, init]
  by_cases found : canSpeed = 125000
  · simp only [if_pos found, Except.ok_bind]
    obtain ⟨board₂, same₂, sent⟩ := canNodeSendDiscoveryResponse_returns stack
      { board₁ with canNodeId := id, canNodeSem := 0 }
    have same : SameInputs board board₂ := same₁.trans ⟨same₂.config, same₂.timer⟩
    simp only [ne_eq, not_true_eq_false, if_false, sent, Except.ok_bind]
    have called := fun ident mask callback board =>
      sameInputs_canSetReceiveCallback (α := α) (η := η) (κ := κ) ident mask callback board
    split
    · exact ⟨_, same.trans ((called ..).trans ((called ..).trans (called ..))), rfl⟩
    · exact ⟨_, same.trans (called ..), rfl⟩
  · simp only [if_neg found]
    exact ⟨board, ⟨rfl, rfl⟩, rfl⟩

end Asserts

/-! ## The boot -/

section Boot

variable [DecidableEq α]

/-- The start of `can_node_loop`, where `postSensorReq` is `can_node_post_sensor_req`, `null` the
`NULL` pointer, and `storage` what `malloc_raw` returns. -/
def canNodeLoopStart (postSensorReq : η) (null : κ) (storage : α) (fuel : Nat)
    (board : Board α η κ) : Except Fault (Board α η κ) := do
  let timer ← timerManagedSchedule fuel storage (sensorInterval board.config) true
    (some postSensorReq) null board.timer
  return { board with timer }

/-- `target_main` up to the loop in `can_node_loop`. -/
def targetMain (clock : UInt32) (outputs : Nat) (stack : Vector UInt8 8) (postSensorReq : η)
    (null : κ) (storage : α) (fuel : Nat) (board : Board α η κ) : Except Fault (Board α η κ) :=
  if canNodeValidId (nodeId board.config) ∧ nodeId board.config ≠ 0 then do
    let (_, board) ← canNodeInit clock outputs stack (nodeId board.config) (speed board.config)
      board
    canNodeLoopStart postSensorReq null storage fuel board
  else return board

/-- `config_load` and then `target_main`. -/
def boot (nacks : Nat → Nat) (defaults : List UInt8) (crcStack : UInt8) (clock : UInt32)
    (outputs : Nat) (stack : Vector UInt8 8) (postSensorReq : η) (null : κ) (storage : α)
    (fuel : Nat) (board : Board α η κ) : Except Fault (Board α η κ) := do
  let loaded ← configLoad (eepromBus nacks) defaults crcStack fuel board.config board.eeprom
  targetMain clock outputs stack postSensorReq null storage fuel
    { board with config := loaded.config, eeprom := loaded.dev }

/-- The configurations that boot: without a valid identifier the CAN bus is not used, and with one
the speed is the only one there is and the interval is positive. -/
def Bootable (config : List UInt8) : Prop :=
  ¬ canNodeValidId (nodeId config) ∨ nodeId config = 0 ∨
    (speed config = 125000 ∧ 0 < sensorInterval config)

instance (config : List UInt8) : Decidable (Bootable config) :=
  inferInstanceAs (Decidable (_ ∨ _ ∨ (_ ∧ _)))

section Specs

variable {board : Board α η κ} {storage : α} {stored : List UInt8}
  {R : List (TimerQueue.Deadline η κ)}

theorem sensorInterval_le (config : List UInt8) : sensorInterval config ≤ 2147483647 :=
  Int32.toInt_le _

/-- A function that returns with some fuel, and the same with more, returns. -/
theorem returns_of_mono {β : Type} {f : Nat → Except Fault β} {fuel : Nat} {r : β}
    (mono : ∀ fuel, ReturnsLe (f fuel) (f (fuel + 1))) (run : f fuel = .ok r) : Returns f r := by
  refine ⟨fuel, fun more enough => ?_⟩
  induction enough with
  | refl => exact run
  | step _ ih => exact mono _ r ih

variable [DecidableEq η] [DecidableEq κ]

/-- The start of `can_node_loop` asserts the interval. -/
theorem canNodeLoopStart_returns (postSensorReq : η) (null : κ)
    (reach : TimerQueue.Reachable board.timer R) (fresh : ¬ TimerQueue.Queued board.timer storage)
    (positive : 0 < sensorInterval board.config) :
    ∃ board', Returns (fun fuel => canNodeLoopStart postSensorReq null storage fuel board)
      board' := by
  obtain ⟨L, sound⟩ := reach.sound
  let call := TimerQueue.Call.schedule storage (sensorInterval board.config) true postSensorReq null
  have legal : TimerQueue.Legal board.timer call :=
    ⟨positive, sensorInterval_le board.config, fresh⟩
  obtain ⟨timer, run⟩ := sound.schedule_returns legal (Nat.lt_succ_self L.length)
  have returns : Returns (fun fuel => TimerQueue.exec fuel call board.timer) timer :=
    returns_of_mono (TimerQueue.exec_mono call board.timer) run
  exact ⟨{ board with timer }, returns.bind ⟨0, fun _ _ => rfl⟩⟩

omit [DecidableEq η] [DecidableEq κ] in
theorem canNodeLoopStart_asserts (postSensorReq : η) (null : κ) (fuel : Nat)
    (negative : ¬ 0 < sensorInterval board.config) :
    canNodeLoopStart postSensorReq null storage fuel board =
      .error (.assertion "Timeout can not be negative") := by
  simp only [canNodeLoopStart, timerManagedSchedule, assert, if_neg negative]
  rfl

omit [DecidableEq α] [DecidableEq η] [DecidableEq κ] in
theorem bootable_of_unused
    (unused : ¬ (canNodeValidId (nodeId stored) ∧ nodeId stored ≠ 0)) : Bootable stored := by
  rcases not_and_or.mp unused with invalid | zero
  · exact .inl invalid
  · exact .inr (.inl (not_not.mp zero))

omit [DecidableEq α] [DecidableEq η] [DecidableEq κ] in
theorem bootable_iff_of_used (used : canNodeValidId (nodeId stored) ∧ nodeId stored ≠ 0) :
    Bootable stored ↔ speed stored = 125000 ∧ 0 < sensorInterval stored := by
  unfold Bootable
  simp only [used.1, used.2, not_true_eq_false, false_or]

theorem targetMain_returns (board : Board α η κ) (outputs : Nat) (stack : Vector UInt8 8)
    (postSensorReq : η) (null : κ) (free : board.irqs irq13 = false)
    (reach : TimerQueue.Reachable board.timer R)
    (fresh : ¬ TimerQueue.Queued board.timer storage) (bootable : Bootable board.config) :
    ∃ board', Returns (fun fuel => targetMain 16000000 outputs stack postSensorReq null storage fuel
      board) board' := by
  unfold targetMain
  by_cases used : canNodeValidId (nodeId board.config) ∧ nodeId board.config ≠ 0
  · obtain ⟨found, positive⟩ := (bootable_iff_of_used used).mp bootable
    obtain ⟨board₁, same, init⟩ := canNodeInit_of_valid outputs stack free used.1
    rw [if_pos found] at init
    have reach₁ : TimerQueue.Reachable board₁.timer R := same.timer.symm ▸ reach
    have fresh₁ : ¬ TimerQueue.Queued board₁.timer storage := same.timer.symm ▸ fresh
    have positive₁ : 0 < sensorInterval board₁.config := same.config.symm ▸ positive
    obtain ⟨board₂, started⟩ := canNodeLoopStart_returns postSensorReq null reach₁ fresh₁ positive₁
    refine ⟨board₂, ?_⟩
    simp only [if_pos used, init, Except.ok_bind]
    exact started
  · refine ⟨board, 0, fun _ _ => ?_⟩
    simp only [if_neg used]
    rfl

omit [DecidableEq η] [DecidableEq κ] in
theorem targetMain_asserts (board : Board α η κ) (outputs : Nat) (stack : Vector UInt8 8)
    (postSensorReq : η) (null : κ) (storage : α) (free : board.irqs irq13 = false)
    (not : ¬ Bootable board.config) :
    ∃ msg, ∀ fuel, targetMain 16000000 outputs stack postSensorReq null storage fuel board =
      .error (.assertion msg) := by
  by_cases used : canNodeValidId (nodeId board.config) ∧ nodeId board.config ≠ 0
  · rw [bootable_iff_of_used used] at not
    obtain ⟨board₁, same, init⟩ := canNodeInit_of_valid outputs stack free used.1
    by_cases found : speed board.config = 125000
    · rw [if_pos found] at init
      have negative : ¬ 0 < sensorInterval board₁.config := by
        rw [same.config]
        exact fun positive => not ⟨found, positive⟩
      refine ⟨"Timeout can not be negative", fun fuel => ?_⟩
      rw [targetMain, if_pos used, init, Except.ok_bind]
      exact canNodeLoopStart_asserts postSensorReq null fuel negative
    · rw [if_neg found] at init
      refine ⟨"Could not find a can speed entry for clock and speed requested", fun fuel => ?_⟩
      rw [targetMain, if_pos used, init]
      rfl
  · exact absurd (bootable_of_unused used) not

section Load

variable {nacks : Nat → Nat} {defaults config : List UInt8} {crcStack : UInt8} {clock : UInt32}
  {outputs : Nat} {stack : Vector UInt8 8} {postSensorReq : η} {null : κ} {result : LoadResult}
  {dev : Eeprom} {board' : Board α η κ} {msg : String}

omit [DecidableEq η] [DecidableEq κ] in
theorem boot_returns
    (load : Returns (fun fuel => configLoad (eepromBus nacks) defaults crcStack fuel board.config
      board.eeprom) ⟨config, result, dev⟩)
    (main : Returns (fun fuel => targetMain clock outputs stack postSensorReq null storage fuel
      { board with config, eeprom := dev }) board') :
    Returns (fun fuel => boot nacks defaults crcStack clock outputs stack postSensorReq null storage
      fuel board) board' := by
  obtain ⟨bound, load⟩ := load
  obtain ⟨bound', main⟩ := main
  refine ⟨max bound bound', fun fuel enough => ?_⟩
  have loaded : configLoad (eepromBus nacks) defaults crcStack fuel board.config board.eeprom =
      .ok ⟨config, result, dev⟩ := load fuel (le_of_max_le_left enough)
  show boot nacks defaults crcStack clock outputs stack postSensorReq null storage fuel board = _
  rw [boot, loaded, Except.ok_bind]
  exact main fuel (le_of_max_le_right enough)

omit [DecidableEq η] [DecidableEq κ] in
theorem boot_asserts
    (load : Returns (fun fuel => configLoad (eepromBus nacks) defaults crcStack fuel board.config
      board.eeprom) ⟨config, result, dev⟩)
    (main : ∀ fuel, targetMain clock outputs stack postSensorReq null storage fuel
      { board with config, eeprom := dev } = .error (.assertion msg)) :
    ∃ bound, ∀ fuel, bound ≤ fuel → boot nacks defaults crcStack clock outputs stack postSensorReq
      null storage fuel board = .error (.assertion msg) := by
  obtain ⟨bound, load⟩ := load
  refine ⟨bound, fun fuel enough => ?_⟩
  have loaded : configLoad (eepromBus nacks) defaults crcStack fuel board.config board.eeprom =
      .ok ⟨config, result, dev⟩ := load fuel enough
  rw [boot, loaded, Except.ok_bind]
  exact main fuel

end Load

omit [DecidableEq α] [DecidableEq η] [DecidableEq κ] in
/-- The configuration in RAM before `config_load` boots. -/
theorem bootable_blank (n : Nat) : Bootable (List.replicate n 0) := by
  have zero : ∀ offset, byteAt (List.replicate n 0) offset = 0 := by
    intro offset
    unfold byteAt
    rw [List.getD_eq_getElem?_getD, List.getElem?_replicate]
    split
    · rfl
    · rfl
  refine .inr (.inl ?_)
  simp only [nodeId, wordAt, zero]
  rfl

/-- **Which stored configurations boot**: for every configuration that is stored with its CRC-8, the
boot up to the loop of `can_node_loop` returns if and only if the EEPROM does not answer, so that
the configuration stays blank, or the configuration is bootable. Else it ends in a failed
assertion. -/
theorem boot_returns_iff (nacks : Nat → Nat) (defaults : List UInt8) (crcStack : UInt8)
    (outputs : Nat) (stack : Vector UInt8 8) (postSensorReq : η) (null : κ) (storage : α)
    (board : Board α η κ) (stored : List UInt8) (R : List (TimerQueue.Deadline η κ))
    (holds : Holds board.eeprom.cells stored (crc8Maxim stored)) (low : 16 ≤ stored.length)
    (size : stored.length + 1 ≤ eepromSize)
    (blank : board.config = List.replicate stored.length 0) (free : board.irqs irq13 = false)
    (reach : TimerQueue.Reachable board.timer R)
    (fresh : ¬ TimerQueue.Queued board.timer storage) :
    ((∃ board', Returns (fun fuel => boot nacks defaults crcStack 16000000 outputs stack
        postSensorReq null storage fuel board) board') ↔
      board.eeprom.busy ≠ 0 ∨ Bootable stored) ∧
    (¬ (board.eeprom.busy ≠ 0 ∨ Bootable stored) → ∃ msg bound, ∀ fuel, bound ≤ fuel →
      boot nacks defaults crcStack 16000000 outputs stack postSensorReq null storage fuel board =
        .error (.assertion msg)) := by
  have sameSize : board.config.length = stored.length := by
    rw [blank, List.length_replicate]
  have nonempty : board.config ≠ [] := by
    intro empty
    rw [empty] at sameSize
    rw [← sameSize] at low
    cases low
  by_cases busy : board.eeprom.busy ≠ 0
  · -- the load leaves the blank configuration
    have bootable : Bootable board.config := blank ▸ bootable_blank stored.length
    obtain ⟨board', main⟩ := targetMain_returns { board with
        eeprom := { board.eeprom with busy := board.eeprom.busy - 1 } } outputs stack postSensorReq
      null free reach fresh bootable
    have load := configLoad_busy nacks defaults crcStack busy nonempty
    exact ⟨⟨fun _ => .inl busy, fun _ => ⟨board', boot_returns load main⟩⟩,
      fun not => absurd (.inl busy) not⟩
  · have load := configLoad_ready nacks defaults crcStack (not_not.mp busy) holds size sameSize
    rw [if_pos rfl] at load
    by_cases bootable : Bootable stored
    · obtain ⟨board', main⟩ := targetMain_returns { board with config := stored } outputs stack
        postSensorReq null free reach fresh bootable
      exact ⟨⟨fun _ => .inr bootable, fun _ => ⟨board', boot_returns load main⟩⟩,
        fun not => absurd (.inr bootable) not⟩
    · have not : ¬ (board.eeprom.busy ≠ 0 ∨ Bootable stored) :=
        fun either => either.elim busy bootable
      obtain ⟨msg, main⟩ := targetMain_asserts { board with config := stored } outputs stack
        postSensorReq null storage free bootable
      obtain ⟨bound, asserts⟩ := boot_asserts load main
      refine ⟨⟨?_, fun either => absurd either not⟩, fun _ => ⟨msg, bound, asserts⟩⟩
      rintro ⟨board', bound', returns⟩
      have returned : Except.error (Fault.assertion msg) = Except.ok board' :=
        (asserts (max bound bound') (Nat.le_max_left ..)).symm.trans
          (returns (max bound bound') (Nat.le_max_right ..))
      cases returned

end Specs

end Boot

/-! ## Concrete boots -/

/-- The configuration of a bus fan controller with the identifier 5. -/
def fanConfig (speedBytes : List UInt8) : List UInt8 :=
  [0, 0, 0, 0] ++ [5, 0, 0, 0] ++ speedBytes ++ [30, 0, 0, 0] ++ List.replicate 64 0

/-- A board on which a configuration has been saved. -/
def savedBoard (stored : List UInt8) : Board Nat Nat Nat where
  config := List.replicate stored.length 0
  eeprom :=
    { cells := Cells.write (fun _ => 0) 0 (stored ++ [crc8Maxim stored])
      busy := 0
      history := [] }
  irqs := fun _ => false
  can := ⟨none, Vector.replicate 31 none, 0, 0, [], []⟩
  canNodeId := 0
  canNodeSem := 0
  timer := TimerQueue.blankTimer

theorem savedBoard_fresh (stored : List UInt8) (storage : Nat) :
    ¬ TimerQueue.Queued (savedBoard stored).timer storage := by
  rintro ⟨L, rep, mem⟩
  rw [rep.unique TimerQueue.blankTimer_represents] at mem
  cases mem

/-- The default speed boots. -/
theorem boot_returns_default_speed :
    ∃ board', Returns (fun fuel => boot (fun _ => 0) (configLoadDefaults 64) 0 16000000 1
      (Vector.replicate 8 0) 7 0 0 fuel (savedBoard (fanConfig [0x48, 0xE8, 0x01, 0x00])))
      board' := by
  refine (boot_returns_iff (fun _ => 0) (configLoadDefaults 64) 0 1 (Vector.replicate 8 0) 7 0 0
    (savedBoard (fanConfig [0x48, 0xE8, 0x01, 0x00])) (fanConfig [0x48, 0xE8, 0x01, 0x00]) []
    (holds_saved _ _) (by decide) (by decide) rfl rfl (.init rfl)
    (savedBoard_fresh _ _)).1.mpr (.inr ?_)
  decide +kernel

/-- A speed of 50000, which is in the table for another clock, does not boot. -/
theorem slow_speed_asserts :
    Holds (savedBoard (fanConfig [0x50, 0xC3, 0x00, 0x00])).eeprom.cells
      (fanConfig [0x50, 0xC3, 0x00, 0x00]) (crc8Maxim (fanConfig [0x50, 0xC3, 0x00, 0x00])) ∧
    ∃ msg bound, ∀ fuel, bound ≤ fuel →
      boot (fun _ => 0) (configLoadDefaults 64) 0 16000000 1 (Vector.replicate 8 0) 7 0 0 fuel
        (savedBoard (fanConfig [0x50, 0xC3, 0x00, 0x00])) = .error (.assertion msg) := by
  have holds : Holds (savedBoard (fanConfig [0x50, 0xC3, 0x00, 0x00])).eeprom.cells
      (fanConfig [0x50, 0xC3, 0x00, 0x00]) (crc8Maxim (fanConfig [0x50, 0xC3, 0x00, 0x00])) :=
    holds_saved _ _
  have load := configLoad_ready (fun _ => 0) (configLoadDefaults 64) 0 rfl holds (by decide)
    (List.length_replicate (n := 80) (a := (0 : UInt8)))
  rw [if_pos rfl] at load
  have not : ¬ Bootable (fanConfig [0x50, 0xC3, 0x00, 0x00]) := by decide +kernel
  obtain ⟨msg, main⟩ := targetMain_asserts { savedBoard (fanConfig [0x50, 0xC3, 0x00, 0x00]) with
    config := fanConfig [0x50, 0xC3, 0x00, 0x00] } 1 (Vector.replicate 8 0) 7 0 0 rfl not
  exact ⟨holds, msg, boot_asserts load main⟩

end TheFirmware.Buscontroller
