import TheFirmware.CanNode.Announce
import TheFirmware.Target.Buscontroller

/-!
# Nodes on a bus

Any number of nodes that run `can_node_init` and then `can_node_loop`, each from some moment on, and
other devices, which send what they like. A message goes to every node but its sender; it waits there
for the interrupt, or is lost. The callbacks that `can_node_init` sets are called for the messages
that the filters of their message objects let through.

What a node sends comes from its loop, or is a discovery response: the one of `can_node_init`, or the
answer to a request. None of it is a command: responses of outputs are sent to
`CAN_NODE_BROADCAST_ID`, which `target_main` does not allow as the identifier of a node. So when a
node has switched an output on, another device has told it to, or a sensor has measured a value above
the threshold of one of its sources (`output_has_cause`).
-/

namespace TheFirmware.CanNode

variable {κ : Type} {n m : Nat}

/-! ## The filters and the callbacks -/

/-- The identifier and the mask of a message object. -/
structure Filter : Type where
  id : UInt32
  mask : UInt32

/-- The filter of `can_node_discovery_callback`. -/
def discoveryFilter : Filter :=
  ⟨canIdBuild canNodeBroadcastId canNodeBroadcastId 511,
    canIdBuild canNodeBroadcastId canNodeBroadcastId 0x1FF⟩

/-- The filter of `can_node_sensor_callback`. -/
def sensorFilter : Filter :=
  ⟨canIdBuild canNodeBroadcastId canNodeBroadcastId 500,
    canIdBuild canNodeBroadcastId 0x3FF 0x1FF⟩

/-- The filter of `can_node_output_callback`. -/
def outputFilter (nodeId : UInt16) : Filter :=
  ⟨canIdBuild canNodeBroadcastId nodeId 499, canIdBuild canNodeBroadcastId 0x3FF 0x1FF⟩

/-- The message object takes a message whose identifier has the bits of the mask. -/
def Filter.accepts (filter : Filter) (msg : CanRomMsg) : Bool :=
  msg.modeId &&& filter.mask = filter.id &&& filter.mask

/-- The data of a discovery response: sensor capability and response, and the serial number. -/
def discoveryData (sn : UInt32) : List UInt8 :=
  [((1 : UInt8) <<< 1) ||| ((1 : UInt8) <<< 0), (sn >>> 24).toUInt8, (sn >>> 16).toUInt8,
    (sn >>> 8).toUInt8, (sn >>> 0).toUInt8]

/-- `can_node_send_discovery_response`, for a node with the serial number `sn`. -/
def canNodeSendDiscoveryResponse (nodeId : UInt16) (sn : UInt32) (receiver : UInt16)
    (stack : Vector UInt8 8) : Except Fault CanFrame :=
  canNodeSend nodeId 511 receiver (discoveryData sn) stack

/-- `can_node_discovery_callback`, with the frame it sends. -/
def canNodeDiscoveryCallback (nodeId : UInt16) (sn : UInt32) (frame : CanFrame)
    (stack : Vector UInt8 8) : Except Fault (List CanFrame) :=
  if frame.data.get 0 &&& 0x1 = 0 ∧ (canIdExtractTo frame.id = canNodeBroadcastId ∨
      canIdExtractTo frame.id = nodeId) then do
    let response ← canNodeSendDiscoveryResponse nodeId sn (canIdExtractFrom frame.id) stack
    return [response]
  else return []

/-! ## The network -/

/-- What a sensor has measured: the quantity, the index of the sensor at its node, and the value. -/
structure Reading : Type where
  quantity : Quantity
  idx : UInt8
  value : Int32

/-- The readings of the sensors of a node, counted from `idx` on. -/
def readings : List Sensor → UInt8 → List Reading
  | [], _ => []
  | sensor :: sensors, idx =>
      ([Quantity.temp, .humidity, .voltage].flatMap fun q =>
        if sensor.capabilities q then (sensor.get q).toList.map (⟨q, idx, ·⟩) else []) ++
        readings sensors (idx + 1)

/-- The nodes with their serial numbers, which of them have run `can_node_init`, the messages that
wait for the interrupt of each, the messages sent so far with the nodes that have sent them, if it was
no other device, and what the nodes have measured. -/
structure Net (κ : Type) (n m : Nat) : Type where
  node : κ → LoopState n m
  sn : κ → UInt32
  started : κ → Bool
  inbox : κ → List CanRomMsg
  log : List (Option κ × CanRomMsg)
  measured : List (κ × Reading)

/-- A node starts, a statement of its loop, its timer, the interrupt for the first message that
waits, a message that is lost, or a message of another device. -/
inductive NetEvent (κ : Type) : Type
  | init (k : κ) (stack : Vector UInt8 8)
  | loop (k : κ) (sensors : List Sensor) (stack : Vector UInt8 8)
  | timer (k : κ)
  | receive (k : κ) (flags : UInt8) (stack stack' : Vector UInt8 8)
  | lose (k : κ) (i : Nat)
  | device (msg : CanRomMsg)

/-- A node starts once. Its loop and its interrupts run from then on. -/
def Net.Legal (net : Net κ n m) : NetEvent κ → Prop
  | .init k _ => net.started k = false
  | .loop k sensors stack =>
      net.started k = true ∧ CanNode.Legal (net.node k) (.loop sensors stack)
  | .timer k => net.started k = true
  | .receive k _ _ _ => net.started k = true
  | .lose _ _ => True
  | .device _ => True

section Steps

variable [DecidableEq κ]

/-- The messages go to every node but their sender. -/
def Net.send (net : Net κ n m) (origin : Option κ) (msgs : List CanRomMsg) : Net κ n m :=
  { net with
    inbox := fun u => if some u = origin then net.inbox u else net.inbox u ++ msgs
    log := net.log ++ msgs.map (origin, ·) }

/-- `can_node_init` on node `k`, which sends a discovery response. The node receives no message of
before. -/
def Net.init (net : Net κ n m) (k : κ) (stack : Vector UInt8 8) : Except Fault (Net κ n m) := do
  let frame ← canNodeSendDiscoveryResponse (net.node k).node.nodeId (net.sn k) canNodeBroadcastId
    stack
  let net := { net with
    started := Function.update net.started k true
    inbox := Function.update net.inbox k [] }
  return net.send (some k) [canSendMsg frame]

/-- A statement of `can_node_loop` on node `k`, with the frames it sends. -/
def Net.loop (net : Net κ n m) (k : κ) (sensors : List Sensor) (stack : Vector UInt8 8) :
    Except Fault (Net κ n m) := do
  let s := net.node k
  let s' ← s.step sensors stack
  let measured := match s.pc with
    | .sensors reqs => if reqs.sensors then (readings sensors 0).map (k, ·) else []
    | _ => []
  let net := { net with
    node := Function.update net.node k s'
    measured := net.measured ++ measured }
  return net.send (some k) ((s'.sent.drop s.sent.length).map canSendMsg)

/-- `can_rom_callback_rx` on node `k`, with the callback that takes the message. -/
def Net.receive (net : Net κ n m) (k : κ) (msg : CanRomMsg) (flags : UInt8)
    (stack stack' : Vector UInt8 8) : Except Fault (Net κ n m) := do
  let s := net.node k
  let frame := canRomCallbackRx msg flags stack
  if discoveryFilter.accepts msg then
    let frames ← canNodeDiscoveryCallback s.node.nodeId (net.sn k) frame stack'
    return net.send (some k) (frames.map canSendMsg)
  else if sensorFilter.accepts msg then
    let s := { s with node := canNodeSensorCallback frame s.node }
    return { net with node := Function.update net.node k s }
  else if (outputFilter s.node.nodeId).accepts msg then
    let s := { s with node := canNodeOutputCallback frame s.node }
    return { net with node := Function.update net.node k s }
  else return net

/-- The state after an event. -/
def Net.exec (net : Net κ n m) : NetEvent κ → Except Fault (Net κ n m)
  | .init k stack => net.init k stack
  | .loop k sensors stack => net.loop k sensors stack
  | .timer k =>
      let s := net.node k
      let s := { s with node := canNodePostSensorReq s.node }
      return { net with node := Function.update net.node k s }
  | .receive k flags stack stack' =>
      match net.inbox k with
      | [] => return net
      | msg :: msgs =>
          { net with inbox := Function.update net.inbox k msgs }.receive k msg flags stack stack'
  | .lose k i =>
      return { net with inbox := Function.update net.inbox k ((net.inbox k).eraseIdx i) }
  | .device msg => return net.send none [msg]

end Steps

/-- No node has been started and nothing has been sent. The nodes are as `can_node_init` is going to
leave them, with identifiers that `target_main` allows. -/
structure Net.Initial (net : Net κ n m) : Prop where
  started : ∀ k, net.started k = false
  node : ∀ k, CanNode.Initial (net.node k)
  valid : ∀ k, canNodeValidId (net.node k).node.nodeId
  nonzero : ∀ k, (net.node k).node.nodeId ≠ canNodeBroadcastId
  sent : ∀ k, (net.node k).sent = []
  inbox : ∀ k, net.inbox k = []
  log : net.log = []
  measured : net.measured = []

/-- The states of the runs of a network. -/
inductive Net.Reachable [DecidableEq κ] : Net κ n m → Prop
  | init {net : Net κ n m} (initial : net.Initial) : Reachable net
  | step {net net' : Net κ n m} {event : NetEvent κ} (before : Reachable net)
      (legal : net.Legal event) (run : net.exec event = .ok net') : Reachable net'

/-! ## What a node sends -/

/-- The frame of a discovery response. -/
def discoveryFrame (nodeId : UInt16) (sn : UInt32) (receiver : UInt16) (stack : Vector UInt8 8) :
    CanFrame :=
  { id := canIdBuild nodeId receiver 511
    flags := canFrameFlagExt
    dataLength := 5
    data := memcpy8 stack ((discoveryData sn).getD · 0) 5 }

/-- A message of node `k`: a reading it has measured, the state of an output, or a discovery
response. -/
inductive Net.Sends (net : Net κ n m) (k : κ) : CanRomMsg → Prop
  | reading {r : Reading} (stack : Vector UInt8 8) (measured : (k, r) ∈ net.measured) :
      Sends net k (canSendMsg
        (readingFrame (net.node k).node.nodeId r.quantity r.idx r.value stack))
  | output (i : Fin n) (status : UInt8) (stack : Vector UInt8 8) :
      Sends net k (canSendMsg (outputFrame (net.node k).node.nodeId i status stack))
  | discovery (receiver : UInt16) (stack : Vector UInt8 8) :
      Sends net k (canSendMsg (discoveryFrame (net.node k).node.nodeId (net.sn k) receiver stack))

/-- `can_node_sensor_callback` takes a frame for a reading of a sensor above a threshold. -/
structure CanFrame.ReadsAbove (frame : CanFrame) (sender : UInt16) (type idx : UInt8)
    (threshold : Int32) : Prop where
  sender : canIdExtractFrom frame.id = sender
  length : 6 ≤ frame.dataLength
  type : frame.data.get 0 = type
  idx : frame.data.get 1 = idx
  above : frame.value > threshold

/-- `can_node_output_callback` takes a frame for a command to switch output `i` on. -/
structure CanFrame.SwitchesOn (frame : CanFrame) (nodeId : UInt16) (i : Fin n) : Prop where
  receiver : canIdExtractTo frame.id = nodeId
  length : frame.dataLength = 2
  output : (frame.data.get 0).toNat = i.val
  manual : frame.data.get 1 &&& 0x2 ≠ 0
  state : frame.data.get 1 &&& 0x1 ≠ 0

/-- A message is a reading of a sensor above a threshold, whatever the callback finds on the
stack. -/
structure IsReadingAbove (sender : UInt16) (type idx : UInt8) (threshold : Int32)
    (msg : CanRomMsg) : Prop where
  accepted : sensorFilter.accepts msg = true
  reads : ∀ flags stack,
    (canRomCallbackRx msg flags stack).ReadsAbove sender type idx threshold

/-- A message tells a node to switch output `i` on, whatever the callback finds on the stack. -/
structure IsCommandOn (nodeId : UInt16) (i : Fin n) (msg : CanRomMsg) : Prop where
  accepted : (outputFilter nodeId).accepts msg = true
  switches : ∀ flags stack, (canRomCallbackRx msg flags stack).SwitchesOn nodeId i

/-- Why a source may be on: a node has measured a value above the threshold, with the sensor the
source is configured for, or another device has said so. -/
inductive Net.SourceCause (net : Net κ n m) (conf : OutputSrcConfig) : Prop
  | measured (k : κ) (r : Reading) (mem : (k, r) ∈ net.measured)
      (sender : (net.node k).node.nodeId = conf.nodeId) (type : r.quantity.code = conf.sensorType)
      (idx : r.idx = conf.sensorIdx) (above : r.value > conf.onValue)
  | device (msg : CanRomMsg) (mem : (none, msg) ∈ net.log)
      (reading : IsReadingAbove conf.nodeId conf.sensorType conf.sensorIdx conf.onValue msg)

section Frames

variable {nodeId receiver : UInt16} {sn : UInt32} {stack stack' : Vector UInt8 8} {flags : UInt8}
  {frame : CanFrame} {frames : List CanFrame} {sensors : List Sensor} {idx : UInt8}

theorem publishSensors_eq (nodeId : UInt16) (stack : Vector UInt8 8) (sensors : List Sensor)
    (idx : UInt8) : publishSensors nodeId stack sensors idx = .ok ((readings sensors idx).map
      fun r => readingFrame nodeId r.quantity r.idx r.value stack) := by
  induction sensors generalizing idx with
  | nil => rfl
  | cons sensor sensors ih =>
      have quantity : ∀ q, (if sensor.capabilities q then
          (sensor.get q).toList.map fun value => readingFrame nodeId q idx value stack else []) =
          (if sensor.capabilities q then (sensor.get q).toList.map (Reading.mk q idx ·) else []).map
            fun r => readingFrame nodeId r.quantity r.idx r.value stack := by
        intro q
        split_ifs
        · rw [List.map_map]
          rfl
        · rfl
      have published : canNodeLoopPublishSensor nodeId sensor idx stack =
          .ok (([Quantity.temp, .humidity, .voltage].flatMap fun q =>
            if sensor.capabilities q then (sensor.get q).toList.map (Reading.mk q idx ·)
            else []).map fun r => readingFrame nodeId r.quantity r.idx r.value stack, idx + 1) := by
        simp only [canNodeLoopPublishSensor, publishQuantity_eq, Except.ok_bind, quantity,
          List.flatMap_cons, List.flatMap_nil, List.append_nil, List.map_append, List.append_assoc]
        rfl
      rw [publishSensors, published, Except.ok_bind]
      simp only [ih, Except.ok_bind, readings, List.map_append]
      rfl

/-- It is the response that `can_node_init` sends, too. -/
theorem canNodeSendDiscoveryResponse_init {α η ι : Type} (receiver : UInt16)
    (stack : Vector UInt8 8) (board : Buscontroller.Board α η ι) :
    Buscontroller.canNodeSendDiscoveryResponse receiver stack board = (do
      let frame ← canNodeSendDiscoveryResponse board.canNodeId (Buscontroller.sn board.config)
        receiver stack
      return Buscontroller.canSend frame board) := rfl

theorem canNodeSendDiscoveryResponse_eq_ok
    (sent : canNodeSendDiscoveryResponse nodeId sn receiver stack = .ok frame) :
    frame = discoveryFrame nodeId sn receiver stack := by
  unfold canNodeSendDiscoveryResponse canNodeSend at sent
  rcases Except.bind_eq_ok.mp sent with ⟨-, -, sent⟩
  rcases Except.bind_eq_ok.mp sent with ⟨-, -, sent⟩
  cases sent
  rfl

/-- What the callback sends is the answer to a request. -/
theorem canNodeDiscoveryCallback_eq_ok
    (ran : canNodeDiscoveryCallback nodeId sn frame stack = .ok frames) :
    frames = [] ∨ frame.data.get 0 &&& 0x1 = 0 ∧
      frames = [discoveryFrame nodeId sn (canIdExtractFrom frame.id) stack] := by
  unfold canNodeDiscoveryCallback at ran
  split_ifs at ran with request
  · rcases Except.bind_eq_ok.mp ran with ⟨response, sent, ran⟩
    cases ran
    rw [canNodeSendDiscoveryResponse_eq_ok sent]
    exact .inr ⟨request.1, rfl⟩
  · cases ran
    exact .inl rfl

/-- The bytes that a message has are read from it, and not from the stack. -/
theorem canRomCallbackRx_get (msg : CanRomMsg) (flags : UInt8) (stack : Vector UInt8 8) (i : Fin 8)
    (sent : i.val < msg.dlc.toNat) :
    (canRomCallbackRx msg flags stack).data.get i = msg.data.get i := by
  show (canRomCallbackRx msg flags stack).data[i.val] = msg.data[i.val]
  simp [canRomCallbackRx, memcpy8, sent]

/-- The value of a reading is read from its message. -/
theorem canRomCallbackRx_value (msg : CanRomMsg) (flags : UInt8) (stack : Vector UInt8 8)
    (sent : 6 ≤ msg.dlc) : (canRomCallbackRx msg flags stack).value =
      (canRomCallbackRx msg 0 (Vector.replicate 8 0)).value := by
  have bound : 6 ≤ msg.dlc.toNat := UInt8.le_iff_toNat_le.mp sent
  have byte : ∀ i : Fin 8, i.val < 6 → (canRomCallbackRx msg flags stack).data.get i =
      (canRomCallbackRx msg 0 (Vector.replicate 8 0)).data.get i := by
    intro i lt
    rw [canRomCallbackRx_get msg _ _ i (by omega), canRomCallbackRx_get msg _ _ i (by omega)]
  have two := byte 2 (by decide)
  have three := byte 3 (by decide)
  have four := byte 4 (by decide)
  have five := byte 5 (by decide)
  unfold CanFrame.value
  exact congrArg UInt32.toInt32 (congrArg₂ _ (congrArg₂ _ (congrArg₂ _
    (congrArg (UInt8.toUInt32 · <<< 24) two) (congrArg (UInt8.toUInt32 · <<< 16) three))
    (congrArg (UInt8.toUInt32 · <<< 8) four)) (congrArg (UInt8.toUInt32 · <<< 0) five))

/-- A reading that one callback takes is one for every callback. -/
theorem CanFrame.ReadsAbove.isReadingAbove {msg : CanRomMsg} {sender : UInt16} {type i : UInt8}
    {threshold : Int32} (accepted : sensorFilter.accepts msg = true)
    (reads : (canRomCallbackRx msg flags stack).ReadsAbove sender type i threshold) :
    IsReadingAbove sender type i threshold msg := by
  have sent : 6 ≤ msg.dlc := reads.length
  have bound : 6 ≤ msg.dlc.toNat := UInt8.le_iff_toNat_le.mp sent
  refine ⟨accepted, fun flags' stack' => ⟨reads.sender, sent, ?_, ?_, ?_⟩⟩
  · rw [canRomCallbackRx_get msg _ _ 0 (by show 0 < _; omega), ← reads.type,
      canRomCallbackRx_get msg _ _ 0 (by show 0 < _; omega)]
  · rw [canRomCallbackRx_get msg _ _ 1 (by show 1 < _; omega), ← reads.idx,
      canRomCallbackRx_get msg _ _ 1 (by show 1 < _; omega)]
  · have above := reads.above
    rw [canRomCallbackRx_value msg _ _ sent] at above ⊢
    exact above

/-- A command that one callback takes is one for every callback. -/
theorem CanFrame.SwitchesOn.isCommandOn {msg : CanRomMsg} {i : Fin n}
    (accepted : (outputFilter nodeId).accepts msg = true)
    (switches : (canRomCallbackRx msg flags stack).SwitchesOn nodeId i) :
    IsCommandOn nodeId i msg := by
  have sent : msg.dlc = 2 := switches.length
  have bytes : ∀ flags' stack' (k : Fin 8), k.val < 2 →
      (canRomCallbackRx msg flags' stack').data.get k =
        (canRomCallbackRx msg flags stack).data.get k := by
    intro flags' stack' k lt
    have has : k.val < msg.dlc.toNat := by rwa [sent]
    rw [canRomCallbackRx_get msg _ _ k has, canRomCallbackRx_get msg _ _ k has]
  refine ⟨accepted, fun flags' stack' => ⟨switches.receiver, sent, ?_, ?_, ?_⟩⟩
  · rw [bytes _ _ 0 (by decide)]
    exact switches.output
  · rw [bytes _ _ 1 (by decide)]
    exact switches.manual
  · rw [bytes _ _ 1 (by decide)]
    exact switches.state

end Frames

section Loop

variable {s s' : LoopState n m} {sensors : List Sensor} {stack : Vector UInt8 8}

/-- A statement of the loop sends nothing, or the readings of the sensors, or the state of an
output. -/
theorem step_sent (run : s.step sensors stack = .ok s') :
    s'.sent = s.sent ∨
    (∃ reqs, s.pc = .sensors reqs ∧ reqs.sensors = true ∧
      s'.sent = s.sent ++ (readings sensors 0).map
        fun r => readingFrame s.node.nodeId r.quantity r.idx r.value stack) ∨
    ∃ reqs i status, s.pc = .send reqs i status ∧
      s'.sent = s.sent ++ [outputFrame s.node.nodeId i status stack] := by
  cases pc : s.pc with
  | sensors reqs =>
      simp only [LoopState.step, pc] at run
      split_ifs at run with wanted
      · rw [publishSensors_eq, Except.ok_bind] at run
        cases run
        exact .inr (.inl ⟨reqs, rfl, wanted, rfl⟩)
      · cases run
        exact .inl rfl
  | send reqs i status =>
      simp only [LoopState.step, pc] at run
      rw [canNodeSend_output, Except.ok_bind] at run
      cases run
      exact .inr (.inr ⟨reqs, i, status, rfl, rfl⟩)
  | wait =>
      simp only [LoopState.step, pc, LoopState.semWait] at run
      cases run
      split_ifs
      · exact .inl rfl
      · exact .inl rfl
  | _ =>
      simp only [LoopState.step, pc] at run
      (try split_ifs at run) <;> (cases run; exact .inl rfl)

end Loop

/-! ## What changes at a node -/

/-- What a node is configured for. -/
structure SameConfig (node node' : Node n m) : Prop where
  nodeId : node'.nodeId = node.nodeId
  sources : ∀ i, (node'.config i).sources = (node.config i).sources

/-- Neither a source nor a manual state has been switched on. -/
structure NotOn (node node' : Node n m) : Prop where
  srcs : ∀ i j, (node'.outputs i).srcs j = true → (node.outputs i).srcs j = true
  manualState : ∀ i, (node'.outputs i).manualState = true → (node.outputs i).manualState = true

theorem SameConfig.refl (node : Node n m) : SameConfig node node := ⟨rfl, fun _ => rfl⟩

theorem SameConfig.trans {node node' node'' : Node n m} (first : SameConfig node node')
    (second : SameConfig node' node'') : SameConfig node node'' :=
  ⟨second.nodeId.trans first.nodeId, fun i => (second.sources i).trans (first.sources i)⟩

theorem SameConfig.post {node node' : Node n m} (same : SameConfig node node') (bits : Reqs) :
    SameConfig node (node'.post bits) := ⟨same.nodeId, same.sources⟩

theorem NotOn.refl (node : Node n m) : NotOn node node := ⟨fun _ _ => id, fun _ => id⟩

section Changes

variable {s s' : LoopState n m} {node : Node n m} {sensors : List Sensor} {stack : Vector UInt8 8}
  {frame : CanFrame} {i : Fin n} {j : Fin m}

theorem setState_kept (s : LoopState n m) (i : Fin n) (state : Bool) :
    SameConfig s.node (s.setState i state).node ∧ NotOn s.node (s.setState i state).node := by
  have outputs : ∀ k, ((s.setState i state).node.outputs k).srcs = (s.node.outputs k).srcs ∧
      ((s.setState i state).node.outputs k).manualState = (s.node.outputs k).manualState := by
    intro k
    unfold LoopState.setState
    by_cases same : k = i
    · subst same
      simp
    · simp [same]
  refine ⟨⟨rfl, fun _ => rfl⟩, fun k j on => ?_, fun k on => ?_⟩
  · rwa [(outputs k).1] at on
  · rwa [(outputs k).2] at on

/-- The loop switches outputs only. -/
theorem step_kept (run : s.step sensors stack = .ok s') :
    SameConfig s.node s'.node ∧ NotOn s.node s'.node := by
  cases pc : s.pc with
  | sensors reqs =>
      simp only [LoopState.step, pc] at run
      split_ifs at run
      · rw [publishSensors_eq, Except.ok_bind] at run
        cases run
        exact ⟨.refl _, .refl _⟩
      · cases run
        exact ⟨.refl _, .refl _⟩
  | send reqs i status =>
      simp only [LoopState.step, pc] at run
      rw [canNodeSend_output, Except.ok_bind] at run
      cases run
      exact ⟨.refl _, .refl _⟩
  | wait =>
      simp only [LoopState.step, pc, LoopState.semWait] at run
      cases run
      split_ifs
      · exact ⟨⟨rfl, fun _ => rfl⟩, fun _ _ => id, fun _ => id⟩
      · exact ⟨⟨rfl, fun _ => rfl⟩, fun _ _ => id, fun _ => id⟩
  | fetch =>
      simp only [LoopState.step, pc] at run
      cases run
      exact ⟨⟨rfl, fun _ => rfl⟩, fun _ _ => id, fun _ => id⟩
  | assign reqs i state =>
      simp only [LoopState.step, pc] at run
      cases run
      exact setState_kept s i state
  | drive reqs i state =>
      simp only [LoopState.step, pc] at run
      cases run
      exact ⟨.refl _, .refl _⟩
  | _ =>
      simp only [LoopState.step, pc] at run
      (try split_ifs at run) <;> (cases run; exact ⟨.refl _, .refl _⟩)

theorem setSrc_kept (node : Node n m) (i : Fin n) (j : Fin m) (state : Bool) (k : Fin n) :
    ((node.setSrc i j state).outputs k).manualState = (node.outputs k).manualState := by
  unfold Node.setSrc
  by_cases same : k = i
  · subst same
    simp
  · simp [same]

/-- What `can_node_sensor_callback` does at the source it stops at. -/
theorem switchSrc_effect (frame : CanFrame) (i : Fin n) (j : Fin m) (node : Node n m) :
    SameConfig node (switchSrc frame i j node) ∧
      (∀ k, ((switchSrc frame i j node).outputs k).manualState = (node.outputs k).manualState) ∧
      ∀ k l, ((switchSrc frame i j node).outputs k).srcs l = true →
        (node.outputs k).srcs l = true ∨ (k = i ∧ l = j) ∧
          frame.ReadsAbove (canIdExtractFrom frame.id) ((node.config i).sources j).sensorType
            ((node.config i).sources j).sensorIdx ((node.config i).sources j).onValue := by
  have same : SameConfig node node ∧
      (∀ k, (node.outputs k).manualState = (node.outputs k).manualState) ∧
      ∀ k l, (node.outputs k).srcs l = true → (node.outputs k).srcs l = true ∨ (k = i ∧ l = j) ∧
        frame.ReadsAbove (canIdExtractFrom frame.id) ((node.config i).sources j).sensorType
          ((node.config i).sources j).sensorIdx ((node.config i).sources j).onValue :=
    ⟨.refl node, fun _ => rfl, fun _ _ => .inl⟩
  simp only [switchSrc]
  split_ifs with short sensor off on
  · exact same
  · refine ⟨⟨rfl, fun _ => rfl⟩, setSrc_kept node i j false, fun k l now => .inl ?_⟩
    have now : ((node.setSrc i j false).outputs k).srcs l = true := now
    rw [setSrc_srcs] at now
    split_ifs at now
    exact now
  · refine ⟨⟨rfl, fun _ => rfl⟩, setSrc_kept node i j true, fun k l now => ?_⟩
    have now : ((node.setSrc i j true).outputs k).srcs l = true := now
    rw [setSrc_srcs] at now
    split_ifs at now with here
    · exact .inr ⟨here, rfl, UInt8.not_lt.mp short, sensor.1, sensor.2, on.2⟩
    · exact .inl now
  · exact same
  · exact same

theorem sensorCallback_kept (frame : CanFrame) (node : Node n m) :
    SameConfig node (canNodeSensorCallback frame node) ∧
      ∀ i, ((canNodeSensorCallback frame node).outputs i).manualState =
        (node.outputs i).manualState := by
  unfold canNodeSensorCallback
  rcases sensorLoop_cases frame (canIdExtractFrom frame.id) node (sources n m) with
    ⟨same, -⟩ | ⟨-, x, -, -, -, -, stopped⟩
  · rw [same]
    exact ⟨.refl node, fun _ => rfl⟩
  · rw [stopped]
    obtain ⟨config, manual, -⟩ := switchSrc_effect frame x.1 x.2 node
    exact ⟨config, manual⟩

/-- A source is switched on by a reading of its sensor above its threshold. -/
theorem sensorCallback_srcs (on : ((canNodeSensorCallback frame node).outputs i).srcs j = true) :
    (node.outputs i).srcs j = true ∨
      frame.ReadsAbove ((node.config i).sources j).nodeId ((node.config i).sources j).sensorType
        ((node.config i).sources j).sensorIdx ((node.config i).sources j).onValue := by
  unfold canNodeSensorCallback at on
  rcases sensorLoop_cases frame (canIdExtractFrom frame.id) node (sources n m) with
    ⟨same, -⟩ | ⟨-, x, -, -, -, sender, stopped⟩
  · rw [same] at on
    exact .inl on
  · rw [stopped] at on
    obtain ⟨-, -, switched⟩ := switchSrc_effect frame x.1 x.2 node
    rcases switched i j on with before | ⟨⟨rfl, rfl⟩, reading⟩
    · exact .inl before
    · exact .inr { reading with sender := sender.symm }

theorem setMode_kept (node : Node n m) (i : Fin n) (mode : UInt8) :
    SameConfig node (node.setMode i mode) := by
  unfold Node.setMode
  split_ifs
  · refine ⟨rfl, fun k => ?_⟩
    by_cases same : k = i
    · subst same
      simp
    · simp [same]
  · exact .refl node

theorem setManualState_manualState (node : Node n m) (i : Fin n) (state : Bool) (k : Fin n) :
    ((node.setManualState i state).outputs k).manualState =
        (if k = i then state else (node.outputs k).manualState) ∧
      ((node.setManualState i state).outputs k).srcs = (node.outputs k).srcs := by
  unfold Node.setManualState
  by_cases same : k = i
  · subst same
    simp
  · simp [same]

theorem outputCallback_kept (frame : CanFrame) (node : Node n m) :
    SameConfig node (canNodeOutputCallback frame node) ∧
      ∀ i, ((canNodeOutputCallback frame node).outputs i).srcs = (node.outputs i).srcs := by
  unfold canNodeOutputCallback
  split_ifs with receiver length bound manual
  · exact ⟨.refl node, fun _ => rfl⟩
  · exact ⟨.refl node, fun _ => rfl⟩
  · constructor
    · have set : ∀ state, SameConfig node (node.setManualState ⟨frame.data[0].toNat, bound⟩ state) :=
        fun _ => ⟨rfl, fun _ => rfl⟩
      exact ((set _).trans (setMode_kept ..)).post _
    · intro k
      show (((node.setManualState _ _).setMode _ _).outputs k).srcs = _
      rw [setMode_outputs]
      exact (setManualState_manualState ..).2
  · constructor
    · exact (setMode_kept ..).post _
    · intro k
      show ((node.setMode _ _).outputs k).srcs = _
      rw [setMode_outputs]
  · exact ⟨.refl node, fun _ => rfl⟩

/-- A manual state is switched on by a command to the node. -/
theorem outputCallback_manualState
    (on : ((canNodeOutputCallback frame node).outputs i).manualState = true) :
    (node.outputs i).manualState = true ∨ frame.SwitchesOn node.nodeId i := by
  unfold canNodeOutputCallback at on
  split_ifs at on with receiver length bound manual
  · exact .inl on
  · exact .inl on
  · have on : (((node.setManualState _ _).setMode _ _).outputs i).manualState = true := on
    rw [setMode_outputs, (setManualState_manualState ..).1] at on
    split_ifs at on with here
    · refine .inr ⟨not_not.mp receiver, not_not.mp length, ?_, manual, of_decide_eq_true on⟩
      rw [here]
      rfl
    · exact .inl on
  · have on : ((node.setMode _ _).outputs i).manualState = true := on
    rw [setMode_outputs] at on
    exact .inl on
  · exact .inl on

end Changes

/-! ## Which messages the filters let through -/

section Filters

variable {sender receiver topic : UInt16} {msg : CanRomMsg} {frame : CanFrame}

theorem canSendMsg_modeId (ext : frame.flags = canFrameFlagExt) :
    (canSendMsg frame).modeId = frame.id ||| lpc11CanExtFlag :=
  if_pos (by rw [ext]; decide)

/-- The mask has the bits of the receiver and the topic. -/
theorem accepts_receiver_topic {receiver' topic' : UInt16}
    (accepted : Filter.accepts ⟨canIdBuild canNodeBroadcastId receiver' topic',
      canIdBuild canNodeBroadcastId 0x3FF 0x1FF⟩ msg = true)
    (sent : msg.modeId = canIdBuild sender receiver topic ||| lpc11CanExtFlag) :
    topic &&& 0x1FF = topic' &&& 0x1FF ∧ receiver &&& 0x3FF = receiver' &&& 0x3FF := by
  have same := of_decide_eq_true accepted
  simp only [sent] at same
  have bit : ∀ i < 32, ((canIdBuild sender receiver topic ||| lpc11CanExtFlag) &&&
      canIdBuild canNodeBroadcastId 0x3FF 0x1FF).toBitVec.getLsbD i =
      (canIdBuild canNodeBroadcastId receiver' topic' &&&
        canIdBuild canNodeBroadcastId 0x3FF 0x1FF).toBitVec.getLsbD i := by
    intro i _
    rw [same]
  constructor
  · apply UInt16.toBitVec_inj.mp
    apply BitVec.eq_of_getLsbD_eq
    intro i bound
    have high := bit (i + 20)
    simp only [canIdBuild, canNodeBroadcastId, lpc11CanExtFlag] at high
    simp at high ⊢
    interval_cases i <;> simp_all
  · apply UInt16.toBitVec_inj.mp
    apply BitVec.eq_of_getLsbD_eq
    intro i bound
    have low := bit i
    simp only [canIdBuild, canNodeBroadcastId, lpc11CanExtFlag] at low
    simp at low ⊢
    interval_cases i <;> simp_all

/-- A message that the filter for sensors lets through is none of an output or a discovery. -/
theorem Net.Sends.reading_of_accepts {net : Net κ n m} {k : κ} (sends : net.Sends k msg)
    (accepted : sensorFilter.accepts msg = true) : ∃ r stack, (k, r) ∈ net.measured ∧
      msg = canSendMsg (readingFrame (net.node k).node.nodeId r.quantity r.idx r.value stack) := by
  cases sends with
  | reading stack measured => exact ⟨_, stack, measured, rfl⟩
  | output i status stack =>
      exact absurd (accepts_receiver_topic accepted (canSendMsg_modeId rfl)).1 (by decide)
  | discovery receiver stack =>
      exact absurd (accepts_receiver_topic accepted (canSendMsg_modeId rfl)).1 (by decide)

/-- The filter for commands lets nothing through that a node sends. -/
theorem Net.Sends.not_accepts {net : Net κ n m} {k : κ} {nodeId : UInt16}
    (sends : net.Sends k msg) (valid : canNodeValidId nodeId)
    (nonzero : nodeId ≠ canNodeBroadcastId) : ¬ (outputFilter nodeId).accepts msg = true := by
  intro accepted
  cases sends with
  | reading stack measured =>
      exact absurd (accepts_receiver_topic accepted (canSendMsg_modeId rfl)).1 (by decide)
  | output i status stack =>
      have same := (accepts_receiver_topic accepted (canSendMsg_modeId rfl)).2
      rw [and_of_canNodeValidId valid] at same
      exact nonzero same.symm
  | discovery receiver stack =>
      exact absurd (accepts_receiver_topic accepted (canSendMsg_modeId rfl)).1 (by decide)

end Filters

/-! ## Runs -/

/-- What has been sent and measured stays, and nobody is configured anew. -/
structure Net.Grows (net net' : Net κ n m) : Prop where
  config : ∀ k, SameConfig (net.node k).node (net'.node k).node
  sn : net'.sn = net.sn
  log : ∀ x ∈ net.log, x ∈ net'.log
  measured : ∀ x ∈ net.measured, x ∈ net'.measured

/-- Every message comes from where it says, every message that waits has been sent, and there is a
cause for everything that is on. -/
structure Net.Sound (net : Net κ n m) : Prop where
  loops : ∀ k, CanNode.Reachable (net.node k)
  valid : ∀ k, canNodeValidId (net.node k).node.nodeId
  nonzero : ∀ k, (net.node k).node.nodeId ≠ canNodeBroadcastId
  log : ∀ k msg, (some k, msg) ∈ net.log → net.Sends k msg
  inbox : ∀ k msg, msg ∈ net.inbox k → ∃ origin, (origin, msg) ∈ net.log
  sources : ∀ k i j, ((net.node k).node.outputs i).srcs j = true →
    net.SourceCause (((net.node k).node.config i).sources j)
  manual : ∀ k i, ((net.node k).node.outputs i).manualState = true →
    ∃ msg, (none, msg) ∈ net.log ∧ IsCommandOn (net.node k).node.nodeId i msg

section Runs

variable {net net' : Net κ n m} {k : κ} {i : Fin n} {j : Fin m} {msg : CanRomMsg}

theorem Net.Sends.mono (grows : net.Grows net') (sends : net.Sends k msg) : net'.Sends k msg := by
  have same := (grows.config k).nodeId
  cases sends with
  | reading stack measured =>
      rw [← same]
      exact .reading stack (grows.measured _ measured)
  | output i status stack =>
      rw [← same]
      exact .output i status stack
  | discovery receiver stack =>
      rw [← same, ← grows.sn]
      exact .discovery receiver stack

theorem Net.SourceCause.mono {conf : OutputSrcConfig} (grows : net.Grows net')
    (cause : net.SourceCause conf) : net'.SourceCause conf := by
  cases cause with
  | measured k r mem sender type idx above =>
      exact .measured k r (grows.measured _ mem) ((grows.config k).nodeId.trans sender) type idx above
  | device msg mem reading => exact .device msg (grows.log _ mem) reading

/-- An event that gives a reason for everything that it switches on. -/
theorem Net.Sound.of_grows (sound : net.Sound) (grows : net.Grows net')
    (loops : ∀ k, CanNode.Reachable (net'.node k))
    (log : ∀ k msg, (some k, msg) ∈ net'.log → (some k, msg) ∈ net.log ∨ net'.Sends k msg)
    (inbox : ∀ k msg, msg ∈ net'.inbox k →
      msg ∈ net.inbox k ∨ ∃ origin, (origin, msg) ∈ net'.log)
    (sources : ∀ k i j, ((net'.node k).node.outputs i).srcs j = true →
      ((net.node k).node.outputs i).srcs j = true ∨
        net'.SourceCause (((net'.node k).node.config i).sources j))
    (manual : ∀ k i, ((net'.node k).node.outputs i).manualState = true →
      ((net.node k).node.outputs i).manualState = true ∨
        ∃ msg, (none, msg) ∈ net'.log ∧ IsCommandOn (net'.node k).node.nodeId i msg) :
    net'.Sound := by
  constructor
  · exact loops
  · intro k
    rw [(grows.config k).nodeId]
    exact sound.valid k
  · intro k
    rw [(grows.config k).nodeId]
    exact sound.nonzero k
  · intro k msg mem
    rcases log k msg mem with before | sends
    · exact (sound.log k msg before).mono grows
    · exact sends
  · intro k msg mem
    rcases inbox k msg mem with before | sent
    · obtain ⟨origin, sent⟩ := sound.inbox k msg before
      exact ⟨origin, grows.log _ sent⟩
    · exact sent
  · intro k i j on
    rcases sources k i j on with before | cause
    · rw [(grows.config k).sources i]
      exact (sound.sources k i j before).mono grows
    · exact cause
  · intro k i on
    rcases manual k i on with before | cause
    · obtain ⟨msg, mem, command⟩ := sound.manual k i before
      rw [(grows.config k).nodeId]
      exact ⟨msg, grows.log _ mem, command⟩
    · exact cause

variable [DecidableEq κ]

/-- Messages that are put on the bus. -/
theorem Net.Sound.send {origin : Option κ} {msgs : List CanRomMsg} (sound : net.Sound)
    (sends : ∀ k, origin = some k → ∀ msg ∈ msgs, net.Sends k msg) :
    (net.send origin msgs).Sound := by
  have grows : net.Grows (net.send origin msgs) :=
    ⟨fun k => .refl _, rfl, fun x mem => List.mem_append_left _ mem, fun x mem => mem⟩
  refine sound.of_grows grows sound.loops ?_ ?_ (fun _ _ _ => .inl) (fun _ _ => .inl)
  · intro k msg mem
    rcases List.mem_append.mp mem with mem | mem
    · exact .inl mem
    · obtain ⟨msg', mem', same⟩ := List.mem_map.mp mem
      cases same
      exact .inr ((sends k rfl msg mem').mono grows)
  · intro k msg mem
    have mem : msg ∈ if some k = origin then net.inbox k else net.inbox k ++ msgs := mem
    split_ifs at mem
    · exact .inl mem
    · rcases List.mem_append.mp mem with mem | mem
      · exact .inl mem
      · exact .inr ⟨origin, List.mem_append_right _ (List.mem_map_of_mem mem)⟩

/-- Node `k` goes on to another state. What it has measured meanwhile is added. -/
theorem Net.Sound.update {s : LoopState n m} {more : List (κ × Reading)} (sound : net.Sound)
    (reach : CanNode.Reachable s) (config : SameConfig (net.node k).node s.node)
    (sources : ∀ i j, (s.node.outputs i).srcs j = true →
      ((net.node k).node.outputs i).srcs j = true ∨
        net.SourceCause (((net.node k).node.config i).sources j))
    (manual : ∀ i, (s.node.outputs i).manualState = true →
      ((net.node k).node.outputs i).manualState = true ∨
        ∃ msg, (none, msg) ∈ net.log ∧ IsCommandOn (net.node k).node.nodeId i msg) :
    { net with
      node := Function.update net.node k s
      measured := net.measured ++ more : Net κ n m }.Sound := by
  have at_ : ∀ u, Function.update net.node k s u = if u = k then s else net.node u :=
    fun u => Function.update_apply ..
  have grows : net.Grows { net with
      node := Function.update net.node k s
      measured := net.measured ++ more } := by
    refine ⟨fun u => ?_, rfl, fun x mem => mem, fun x mem => List.mem_append_left _ mem⟩
    show SameConfig (net.node u).node (Function.update net.node k s u).node
    rw [at_]
    split_ifs with same
    · rw [same]
      exact config
    · exact .refl _
  refine sound.of_grows grows ?_ (fun _ _ => .inl) (fun _ _ => .inl) ?_ ?_
  · intro u
    show CanNode.Reachable (Function.update net.node k s u)
    rw [at_]
    split_ifs
    · exact reach
    · exact sound.loops u
  · intro u i j switched
    have on : ((Function.update net.node k s u).node.outputs i).srcs j = true := switched
    have same := (grows.config u).sources i
    rw [same]
    rw [at_] at on
    split_ifs at on with here
    · subst here
      exact (sources i j on).imp id fun cause => cause.mono grows
    · exact .inl on
  · intro u i switched
    have on : ((Function.update net.node k s u).node.outputs i).manualState = true := switched
    have same := (grows.config u).nodeId
    rw [same]
    rw [at_] at on
    split_ifs at on with here
    · subst here
      exact manual i on
    · exact .inl on

/-- A statement of a loop. -/
theorem Net.Sound.loop {sensors : List Sensor} {stack : Vector UInt8 8} (sound : net.Sound)
    (legal : net.Legal (.loop k sensors stack)) (run : net.loop k sensors stack = .ok net') :
    net'.Sound := by
  unfold Net.loop at run
  obtain ⟨s', step, run⟩ := Except.bind_eq_ok.mp run
  cases run
  obtain ⟨config, off⟩ := step_kept step
  have reach : CanNode.Reachable s' :=
    @CanNode.Reachable.step _ _ _ _ (.loop sensors stack) (sound.loops k) legal.2 step
  have moved := fun more => @Net.Sound.update _ _ _ _ k _ _ more sound reach config
    (fun i j on => .inl (off.srcs i j on)) (fun i on => .inl (off.manualState i on))
  refine (moved _).send ?_
  rintro k' ⟨⟩ msg mem
  obtain ⟨frame, sent, rfl⟩ := List.mem_map.mp mem
  have here : ∀ more, ({ net with
      node := Function.update net.node k s'
      measured := net.measured ++ more : Net κ n m }.node k).node.nodeId =
      (net.node k).node.nodeId := by
    intro more
    show (Function.update net.node k s' k).node.nodeId = _
    rw [Function.update_self]
    exact config.nodeId
  rcases step_sent step with same | ⟨reqs, pc, wanted, same⟩ | ⟨reqs, i, status, -, same⟩
  · rw [same, List.drop_length] at sent
    cases sent
  · rw [same, List.drop_left] at sent
    obtain ⟨r, isReading, rfl⟩ := List.mem_map.mp sent
    rw [← here]
    refine .reading stack (List.mem_append_right _ ?_)
    simp only [pc, wanted, if_true]
    exact List.mem_map_of_mem isReading
  · rw [same, List.drop_left] at sent
    rw [List.mem_singleton.mp sent, ← here]
    exact .output i status stack

omit [DecidableEq κ] in
/-- A reading that a node has sent arrives as it was measured. -/
theorem Net.Sound.sourceCause {conf : OutputSrcConfig} {origin : Option κ} {flags : UInt8}
    {stack : Vector UInt8 8} (sound : net.Sound) (mem : (origin, msg) ∈ net.log)
    (accepted : sensorFilter.accepts msg = true)
    (reads : (canRomCallbackRx msg flags stack).ReadsAbove conf.nodeId conf.sensorType
      conf.sensorIdx conf.onValue) :
    net.SourceCause conf := by
  cases origin with
  | none => exact .device msg mem (reads.isReadingAbove accepted)
  | some k' =>
      obtain ⟨r, stack', measured, rfl⟩ := (sound.log k' msg mem).reading_of_accepts accepted
      have carries : CarriesReading (net.node k').node.nodeId r.quantity r.idx r.value _ :=
        @carriesReading_delivered _ _ _ flags _ stack' stack (sound.valid k')
      refine .measured k' r measured (carries.sender.symm.trans reads.sender)
        (carries.type.symm.trans reads.type) (carries.index.symm.trans reads.idx) ?_
      rw [← carries.value]
      exact reads.above

/-- A node starts. -/
theorem Net.Sound.init {stack : Vector UInt8 8} (sound : net.Sound)
    (run : net.init k stack = .ok net') : net'.Sound := by
  unfold Net.init at run
  rcases Except.bind_eq_ok.mp run with ⟨frame, sent, run⟩
  cases run
  have fresh : { net with
      started := Function.update net.started k true
      inbox := Function.update net.inbox k [] : Net κ n m }.Sound := by
    refine sound.of_grows ⟨fun _ => .refl _, rfl, fun _ => id, fun _ => id⟩ sound.loops
      (fun _ _ => .inl) (fun u msg mem => .inl ?_) (fun _ _ _ => .inl) (fun _ _ => .inl)
    have mem : msg ∈ Function.update net.inbox k [] u := mem
    rw [Function.update_apply] at mem
    split_ifs at mem
    · cases mem
    · exact mem
  refine fresh.send ?_
  rintro k' ⟨⟩ msg mem
  rw [List.mem_singleton.mp mem, canNodeSendDiscoveryResponse_eq_ok sent]
  exact .discovery _ stack

/-- The interrupt for a message. -/
theorem Net.Sound.receive {flags : UInt8} {stack stack' : Vector UInt8 8} (sound : net.Sound)
    {origin : Option κ} (sent : (origin, msg) ∈ net.log)
    (run : net.receive k msg flags stack stack' = .ok net') : net'.Sound := by
  unfold Net.receive at run
  simp only at run
  split_ifs at run with discovery sensor output
  · obtain ⟨frames, called, run⟩ := Except.bind_eq_ok.mp run
    cases run
    refine sound.send ?_
    rintro k' ⟨⟩ msg' mem
    obtain ⟨frame, answer, rfl⟩ := List.mem_map.mp mem
    rcases canNodeDiscoveryCallback_eq_ok called with none | ⟨-, one⟩
    · rw [none] at answer
      cases answer
    · rw [one] at answer
      rw [List.mem_singleton.mp answer]
      exact .discovery _ stack'
  · cases run
    obtain ⟨config, manual⟩ := sensorCallback_kept (canRomCallbackRx msg flags stack)
      (net.node k).node
    have reach := @CanNode.Reachable.step _ _ _ _
      (.sensorCallback (canRomCallbackRx msg flags stack)) (sound.loops k) trivial rfl
    have moved := @Net.Sound.update _ _ _ _ k _ _ [] sound reach config (fun i j on => ?_) (fun i on => ?_)
    · rwa [List.append_nil] at moved
    · rcases sensorCallback_srcs on with before | reads
      · exact .inl before
      · exact .inr (sound.sourceCause sent sensor reads)
    · rw [manual i] at on
      exact .inl on
  · cases run
    obtain ⟨config, srcs⟩ := outputCallback_kept (canRomCallbackRx msg flags stack)
      (net.node k).node
    have reach := @CanNode.Reachable.step _ _ _ _
      (.outputCallback (canRomCallbackRx msg flags stack)) (sound.loops k) trivial rfl
    have moved := @Net.Sound.update _ _ _ _ k _ _ [] sound reach config (fun i j on => ?_) (fun i on => ?_)
    · rwa [List.append_nil] at moved
    · rw [srcs i] at on
      exact .inl on
    · rcases outputCallback_manualState on with before | command
      · exact .inl before
      · cases origin with
        | none => exact .inr ⟨msg, sent, command.isCommandOn output⟩
        | some k' =>
            exact absurd output ((sound.log k' msg sent).not_accepts (sound.valid k)
              (sound.nonzero k))
  · cases run
    exact sound

/-- Every event keeps the invariant. -/
theorem Net.Sound.exec {event : NetEvent κ} (sound : net.Sound) (legal : net.Legal event)
    (run : net.exec event = .ok net') : net'.Sound := by
  -- fewer messages may wait
  have waits : ∀ inbox : κ → List CanRomMsg, (∀ u, ∀ msg ∈ inbox u, msg ∈ net.inbox u) →
      { net with inbox := inbox }.Sound := by
    intro inbox fewer
    exact sound.of_grows ⟨fun _ => .refl _, rfl, fun _ => id, fun _ => id⟩ sound.loops
      (fun _ _ => .inl) (fun u msg mem => .inl (fewer u msg mem)) (fun _ _ _ => .inl)
      (fun _ _ => .inl)
  cases event with
  | init k stack => exact sound.init run
  | loop k sensors stack => exact sound.loop legal run
  | timer k =>
      cases run
      have moved := @Net.Sound.update _ _ _ _ k _ _ [] sound
        (@CanNode.Reachable.step _ _ _ _ .postSensorReq (sound.loops k) trivial rfl)
        ⟨rfl, fun _ => rfl⟩
        (fun _ _ => .inl) (fun _ => .inl)
      rwa [List.append_nil] at moved
  | receive k flags stack stack' =>
      cases waiting : net.inbox k with
      | nil =>
          simp only [Net.exec, waiting] at run
          cases run
          exact sound
      | cons msg msgs =>
          simp only [Net.exec, waiting] at run
          obtain ⟨origin, sent⟩ := sound.inbox k msg (waiting ▸ List.mem_cons_self ..)
          have left := waits (Function.update net.inbox k msgs) fun u msg' mem => ?_
          · exact left.receive sent run
          by_cases here : u = k
          · subst here
            rw [Function.update_self] at mem
            rw [waiting]
            exact List.mem_cons_of_mem _ mem
          · rwa [Function.update_of_ne here] at mem
  | lose k i =>
      cases run
      refine waits _ fun u msg mem => ?_
      by_cases here : u = k
      · subst here
        rw [Function.update_self] at mem
        exact List.mem_of_mem_eraseIdx mem
      · rwa [Function.update_of_ne here] at mem
  | device msg =>
      cases run
      exact sound.send nofun

omit [DecidableEq κ] in
theorem Net.Initial.sound (initial : net.Initial) : net.Sound := by
  constructor
  · exact fun k => .init (initial.node k)
  · exact initial.valid
  · exact initial.nonzero
  · intro k msg mem
    rw [initial.log] at mem
    cases mem
  · intro k msg mem
    rw [initial.inbox] at mem
    cases mem
  · intro k i j on
    rw [(initial.node k).srcs i j] at on
    cases on
  · intro k i on
    rw [(initial.node k).manualState i] at on
    cases on

theorem Net.Reachable.sound (reach : net.Reachable) : net.Sound := by
  induction reach with
  | init initial => exact initial.sound
  | step _ legal run ih => exact ih.exec legal run

end Runs

/-! ## A thermometer and a fan -/

/-- The state after an event that does not fail. -/
def Net.execD [DecidableEq κ] (net : Net κ n m) (event : NetEvent κ) : Net κ n m :=
  match net.exec event with
  | .ok net' => net'
  | .error _ => net

/-- The events can happen one after the other. -/
def Net.legalAll [DecidableEq κ] : Net κ n m → List (NetEvent κ) → Bool
  | _, [] => true
  | net, event :: events =>
      (match event with
        | .init k _ => !net.started k
        | .loop k _ _ => net.started k && ((net.node k).pc ≠ .blocked || !(net.node k).node.waiting)
        | .timer k => net.started k
        | .receive k _ _ _ => net.started k
        | .lose _ _ => true
        | .device _ => true) && (net.execD event).legalAll events

theorem Net.Reachable.execAll [DecidableEq κ] {net : Net κ n m} {events : List (NetEvent κ)}
    (reach : net.Reachable) (legal : net.legalAll events) :
    (events.foldl Net.execD net).Reachable := by
  induction events generalizing net with
  | nil => exact reach
  | cons event events ih =>
      obtain ⟨first, rest⟩ := Bool.and_eq_true_iff.mp legal
      refine ih ?_ rest
      unfold Net.execD
      cases run : net.exec event with
      | error fault => exact reach
      | ok net' =>
          refine reach.step ?_ run
          cases event with
          | init k stack => simpa [Net.Legal] using first
          | loop k sensors stack =>
              rcases Bool.and_eq_true_iff.mp first with ⟨started, awake⟩
              refine ⟨started, fun blocked => ?_⟩
              simpa [blocked] using awake
          | timer k => exact first
          | receive k flags stack stack' => exact first
          | lose k i => trivial
          | device msg => trivial

end TheFirmware.CanNode
