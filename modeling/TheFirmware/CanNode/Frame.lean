import TheFirmware.Runtime

/-!
# Frames of `lib/can_node/can_node.c`

The 29-bit identifiers of a CAN node, `can_node_send`, the frames a node publishes its sensors in,
and the way of a frame through `can_send` and `can_rom_callback_rx`.

`can_node_send` and `can_rom_callback_rx` copy only as many data bytes as the frame has. The others
keep what was on the stack, which is an argument of the model (`stack`).
-/

namespace TheFirmware.CanNode

/-- `can_frame_t` -/
structure CanFrame : Type where
  id : UInt32
  flags : UInt8
  dataLength : UInt8
  data : Vector UInt8 8
  deriving DecidableEq

/-- `CAN_FRAME_FLAG_EXT` -/
def canFrameFlagExt : UInt8 := 1

/-- `CAN_NODE_BROADCAST_ID` -/
def canNodeBroadcastId : UInt16 := 0x0

/-- `can_node_valid_id` -/
def canNodeValidId (id : UInt16) : Bool := id &&& 0xFC00 = 0

/-- `can_id_build` -/
def canIdBuild (sender receiver topic : UInt16) : UInt32 :=
  ((topic &&& 0x1FF).toUInt32 <<< 20) ||| ((sender &&& 0x3FF).toUInt32 <<< 10) |||
    (receiver &&& 0x3FF).toUInt32

/-- `can_id_extract_to` -/
def canIdExtractTo (id : UInt32) : UInt16 := (id &&& 0x3FF).toUInt16

/-- `can_id_extract_from` -/
def canIdExtractFrom (id : UInt32) : UInt16 := ((id >>> 10) &&& 0x3FF).toUInt16

/-- `can_id_extract_topic` -/
def canIdExtractTopic (id : UInt32) : UInt16 := ((id >>> 20) &&& 0x1FF).toUInt16

/-- `memcpy(buffer, data, len)` -/
def memcpy8 (buffer : Vector UInt8 8) (data : Nat → UInt8) (len : Nat) : Vector UInt8 8 :=
  Vector.ofFn fun i => if i.val < len then data i.val else buffer[i]

/-- `can_node_send` up to `can_send`: the frame of the node with the identifier `nodeId`. -/
def canNodeSend (nodeId topic receiver : UInt16) (data : List UInt8) (stack : Vector UInt8 8) :
    Except Fault CanFrame := do
  assert (canNodeValidId receiver) "Can node id can only be 10 bit."
  assert (data.length ≤ 8) "Can node send length must be less than 9"
  return {
    id := canIdBuild nodeId receiver topic
    flags := canFrameFlagExt
    dataLength := data.length.toUInt8
    data := memcpy8 stack (data.getD · 0) data.length }

/-! ## Sensors -/

/-- What a sensor can measure. -/
inductive Quantity : Type
  | temp
  | humidity
  | voltage
  deriving DecidableEq, Repr

/-- The first byte of a frame. -/
def Quantity.code : Quantity → UInt8
  | .temp => 0x0
  | .humidity => 0x1
  | .voltage => 0x2

/-- What `sensor_get_capabilities` and the functions `sensor_get_*` give for a sensor. There is no
value where they fail. -/
structure Sensor : Type where
  capabilities : Quantity → Bool
  get : Quantity → Option Int32

/-- The data of a reading. -/
def readingData (q : Quantity) (idx : UInt8) (value : Int32) : List UInt8 :=
  [q.code, idx, (value >>> 24).toUInt32.toUInt8, (value >>> 16).toUInt32.toUInt8,
    (value >>> 8).toUInt32.toUInt8, (value >>> 0).toUInt32.toUInt8]

/-- One of the three parts of `can_node_loop_publish_sensor`. -/
def publishQuantity (nodeId : UInt16) (sensor : Sensor) (idx : UInt8) (stack : Vector UInt8 8)
    (q : Quantity) : Except Fault (List CanFrame) :=
  if sensor.capabilities q then
    match sensor.get q with
    | some value => do
        let frame ← canNodeSend nodeId 500 canNodeBroadcastId (readingData q idx value) stack
        return [frame]
    | none => return []
  else return []

/-- `can_node_loop_publish_sensor`: the frames that are sent, and the next index. -/
def canNodeLoopPublishSensor (nodeId : UInt16) (sensor : Sensor) (idx : UInt8)
    (stack : Vector UInt8 8) : Except Fault (List CanFrame × UInt8) := do
  let temp ← publishQuantity nodeId sensor idx stack .temp
  let humidity ← publishQuantity nodeId sensor idx stack .humidity
  let voltage ← publishQuantity nodeId sensor idx stack .voltage
  return (temp ++ humidity ++ voltage, idx + 1)

/-- `sensors_for_each(can_node_loop_publish_sensor, &idx)` -/
def publishSensors (nodeId : UInt16) (stack : Vector UInt8 8) :
    List Sensor → UInt8 → Except Fault (List CanFrame)
  | [], _ => return []
  | sensor :: sensors, idx => do
      let (frames, idx) ← canNodeLoopPublishSensor nodeId sensor idx stack
      let rest ← publishSensors nodeId stack sensors idx
      return frames ++ rest

/-! ## The way over the bus -/

/-- `can_rom_msg_t` -/
structure CanRomMsg : Type where
  modeId : UInt32
  dlc : UInt8
  data : Vector UInt8 8
  deriving DecidableEq

/-- `LPC11_CAN_EXT_FLAG` -/
def lpc11CanExtFlag : UInt32 := 0x20000000

/-- The message `can_send` hands to `can_transmit`. -/
def canSendMsg (frame : CanFrame) : CanRomMsg :=
  { modeId :=
      if frame.flags &&& canFrameFlagExt ≠ 0 then frame.id ||| lpc11CanExtFlag else frame.id
    dlc := frame.dataLength
    data := frame.data }

/-- The frame `can_rom_callback_rx` hands to the callback. -/
def canRomCallbackRx (msg : CanRomMsg) (flags : UInt8) (stack : Vector UInt8 8) : CanFrame :=
  let ext := msg.modeId &&& lpc11CanExtFlag ≠ 0
  { id := if ext then msg.modeId &&& ~~~ lpc11CanExtFlag else msg.modeId
    flags := if ext then canFrameFlagExt else flags
    dataLength := msg.dlc
    data := memcpy8 stack (msg.data.toList.getD · 0) msg.dlc.toNat }

/-- The value in a frame, as `can_node_sensor_callback` puts it together. -/
def CanFrame.value (frame : CanFrame) : Int32 :=
  ((frame.data[2].toUInt32 <<< 24) ||| (frame.data[3].toUInt32 <<< 16) |||
    (frame.data[4].toUInt32 <<< 8) ||| (frame.data[5].toUInt32 <<< 0)).toInt32

/-! ## What is received is what was sent -/

/-- The sender of an identifier can be read from it, also with the flag of the driver set and
cleared again. -/
theorem canIdExtractFrom_canIdBuild (sender receiver topic : UInt16) :
    canIdExtractFrom ((canIdBuild sender receiver topic ||| lpc11CanExtFlag) &&&
      ~~~ lpc11CanExtFlag) = sender &&& 0x3FF := by
  apply UInt16.toBitVec_inj.mp
  apply BitVec.eq_of_getLsbD_eq
  intro i bound
  simp only [canIdExtractFrom, canIdBuild, lpc11CanExtFlag]
  simp
  interval_cases i <;> simp

theorem and_of_canNodeValidId {id : UInt16} (valid : canNodeValidId id) : id &&& 0x3FF = id := by
  have high : (id &&& 0xFC00).toBitVec = (0 : UInt16).toBitVec :=
    congrArg UInt16.toBitVec (decide_eq_true_eq.mp valid)
  apply UInt16.toBitVec_inj.mp
  apply BitVec.eq_of_getLsbD_eq
  intro i bound
  have bit := congrArg (fun bits : BitVec 16 => bits.getLsbD i) high
  simp at bit ⊢
  interval_cases i <;> simp_all

theorem or_and_flag (id : UInt32) : (id ||| lpc11CanExtFlag) &&& lpc11CanExtFlag ≠ 0 := by
  have same : (id ||| lpc11CanExtFlag) &&& lpc11CanExtFlag = lpc11CanExtFlag := by
    apply UInt32.toBitVec_inj.mp
    apply BitVec.eq_of_getLsbD_eq
    intro i bound
    simp only [UInt32.toBitVec_and, UInt32.toBitVec_or, BitVec.getLsbD_and, BitVec.getLsbD_or]
    cases lpc11CanExtFlag.toBitVec.getLsbD i with
    | true => simp
    | false => simp
  rw [same]
  decide

/-- The four bytes of a value give the value again. -/
theorem value_bytes (value : Int32) :
    (((value >>> 24).toUInt32.toUInt8.toUInt32 <<< 24) |||
      ((value >>> 16).toUInt32.toUInt8.toUInt32 <<< 16) |||
      ((value >>> 8).toUInt32.toUInt8.toUInt32 <<< 8) |||
      ((value >>> 0).toUInt32.toUInt8.toUInt32 <<< 0)).toInt32 = value := by
  apply Int32.toBitVec_inj.mp
  apply BitVec.eq_of_getLsbD_eq
  intro i bound
  simp [-UInt32.toUInt32_toUInt8, BitVec.getLsbD_sshiftRight]
  interval_cases i <;> simp

/-- A frame that carries the reading of a node. -/
structure CarriesReading (sender : UInt16) (q : Quantity) (idx : UInt8) (value : Int32)
    (frame : CanFrame) : Prop where
  sender : canIdExtractFrom frame.id = sender
  length : frame.dataLength = 6
  type : frame.data.get 0 = q.code
  index : frame.data.get 1 = idx
  value : frame.value = value

/-- The frame of a reading. -/
def readingFrame (nodeId : UInt16) (q : Quantity) (idx : UInt8) (value : Int32)
    (stack : Vector UInt8 8) : CanFrame :=
  { id := canIdBuild nodeId canNodeBroadcastId 500
    flags := canFrameFlagExt
    dataLength := 6
    data := memcpy8 stack ((readingData q idx value).getD · 0) 6 }

section Specs

variable {nodeId : UInt16} {sensor : Sensor} {q : Quantity} {idx idx' flags : UInt8}
  {value : Int32} {stack stack' : Vector UInt8 8} {frames : List CanFrame} {frame : CanFrame}

theorem canNodeSend_reading :
    canNodeSend nodeId 500 canNodeBroadcastId (readingData q idx value) stack =
      .ok (readingFrame nodeId q idx value stack) := by
  have short : (readingData q idx value).length ≤ 8 := by simp [readingData]
  rw [canNodeSend, assert_pos (by decide), Except.ok_bind, assert_pos short]
  rfl

theorem publishQuantity_eq :
    publishQuantity nodeId sensor idx stack q =
      .ok (if sensor.capabilities q then
        (sensor.get q).toList.map fun value => readingFrame nodeId q idx value stack else []) := by
  unfold publishQuantity
  split
  · cases sensor.get q with
    | none => rfl
    | some value =>
        simp only [canNodeSend_reading, Except.ok_bind]
        rfl
  · rfl

/-- The frames a sensor publishes are those of its readings. -/
theorem mem_canNodeLoopPublishSensor
    (published : canNodeLoopPublishSensor nodeId sensor idx stack = .ok (frames, idx')) :
    frame ∈ frames ↔ ∃ q value, sensor.capabilities q ∧ sensor.get q = some value ∧
      frame = readingFrame nodeId q idx value stack := by
  have mem : ∀ q, (frame ∈ if sensor.capabilities q then
      (sensor.get q).toList.map fun value => readingFrame nodeId q idx value stack else []) ↔
      ∃ value, sensor.capabilities q ∧ sensor.get q = some value ∧
        frame = readingFrame nodeId q idx value stack := by
    intro q
    cases sensor.capabilities q with
    | true =>
        cases sensor.get q with
        | none => simp
        | some value => simp
    | false => simp
  simp only [canNodeLoopPublishSensor, publishQuantity_eq, Except.ok_bind] at published
  cases published
  rw [List.mem_append, List.mem_append, mem, mem, mem]
  constructor
  · rintro ((found | found) | found)
    · exact ⟨.temp, found⟩
    · exact ⟨.humidity, found⟩
    · exact ⟨.voltage, found⟩
  · rintro ⟨q, found⟩
    cases q with
    | temp => exact .inl (.inl found)
    | humidity => exact .inl (.inr found)
    | voltage => exact .inr found

theorem Quantity.code_injective : Function.Injective Quantity.code := by
  intro q q' same
  cases q <;> cases q' <;> first | rfl | exact absurd same (by decide)

theorem code_readingFrame : (readingFrame nodeId q idx value stack).data.get 0 = q.code := by
  show (readingFrame nodeId q idx value stack).data[0] = q.code
  simp [readingFrame, memcpy8, readingData]

/-- A reading arrives as it was sent. -/
theorem carriesReading_delivered (valid : canNodeValidId nodeId) :
    CarriesReading nodeId q idx value
      (canRomCallbackRx (canSendMsg (readingFrame nodeId q idx value stack)) flags stack') := by
  have modeId : (canSendMsg (readingFrame nodeId q idx value stack)).modeId =
      canIdBuild nodeId canNodeBroadcastId 500 ||| lpc11CanExtFlag :=
    if_pos (by show canFrameFlagExt &&& canFrameFlagExt ≠ 0; decide)
  constructor
  · show canIdExtractFrom (if (canSendMsg _).modeId &&& _ ≠ 0 then _ else _) = nodeId
    rw [modeId, if_pos (or_and_flag _), canIdExtractFrom_canIdBuild]
    exact and_of_canNodeValidId valid
  · rfl
  · show (canRomCallbackRx _ _ _).data[0] = q.code
    simp [canRomCallbackRx, canSendMsg, memcpy8, readingFrame, readingData]
  · show (canRomCallbackRx _ _ _).data[1] = idx
    simp [canRomCallbackRx, canSendMsg, memcpy8, readingFrame, readingData]
  · have bytes := value_bytes value
    simp [canRomCallbackRx, canSendMsg, memcpy8, readingFrame, readingData, CanFrame.value]
      at bytes ⊢
    exact bytes

end Specs

end TheFirmware.CanNode
