import TheFirmware.CanNode.Frame

/-!
# The callbacks of `lib/can_node/can_node.c`

A node has `CAN_NODE_NUM_OUTPUT` outputs (`n`), each with `CAN_NODE_NUM_OUTPUT_SOURCE` sources
(`m`). `can_node_sensor_callback` switches the sources, with a hysteresis between `off_value` and
`on_value`, and `can_node_output_callback` the modes and manual states. Both are called in
interrupts, and leave it to `can_node_loop` to drive the pins: they set bits in `reqs` and signal
`sem`.

The callback for sensors returns at the first source configured with the sender of the frame, also
when that source has another sensor. So a reading reaches every source it is for exactly when each
source it has to switch is the first one of the sender (`sensorCallback_served_iff`).
-/

namespace TheFirmware.CanNode

variable {n m : Nat}

/-- `struct can_node_output_src_config` -/
structure OutputSrcConfig : Type where
  nodeId : UInt16
  sensorType : UInt8
  sensorIdx : UInt8
  offValue : Int32
  onValue : Int32

/-- `struct can_node_output_config` -/
structure OutputConfig (m : Nat) : Type where
  mode : UInt8
  sources : Fin m → OutputSrcConfig

/-- `kCanNodeOutputModeAuto` -/
def modeAuto : UInt8 := 0

/-- `kCanNodeOutputModeManual` -/
def modeManual : UInt8 := 1

/-- `struct _output` -/
structure Output (m : Nat) : Type where
  state : Bool
  manualState : Bool
  pin : UInt32
  srcs : Fin m → Bool

/-- The bits of `can_node_work_req_t`. -/
structure Reqs : Type where
  sensors : Bool := false
  output : Bool := false
  outputResponse : Bool := false
  saveConfig : Bool := false
  deriving DecidableEq, Repr

/-- `can_node.reqs |= bits` -/
def Reqs.or (reqs bits : Reqs) : Reqs :=
  { sensors := reqs.sensors || bits.sensors
    output := reqs.output || bits.output
    outputResponse := reqs.outputResponse || bits.outputResponse
    saveConfig := reqs.saveConfig || bits.saveConfig }

/-- `struct _can_node` and the part of the configuration it uses. `waiting` says that the thread of
`can_node_loop` is in the queue of the semaphore. -/
structure Node (n m : Nat) : Type where
  nodeId : UInt16
  sem : Int8
  waiting : Bool
  reqs : Reqs
  outputs : Fin n → Output m
  config : Fin n → OutputConfig m

/-- `can_node.reqs |= bits`, then `semaphore_signal(&can_node.sem)`. -/
def Node.post (node : Node n m) (bits : Reqs) : Node n m :=
  { node with reqs := node.reqs.or bits, sem := node.sem + 1, waiting := false }

/-- `can_node_post_sensor_req` -/
def canNodePostSensorReq (node : Node n m) : Node n m := node.post { sensors := true }

/-- `can_node.outputs[i].srcs[j].state = state` -/
def Node.setSrc (node : Node n m) (i : Fin n) (j : Fin m) (state : Bool) : Node n m :=
  { node with
    outputs := Function.update node.outputs i
      { node.outputs i with srcs := Function.update (node.outputs i).srcs j state } }

/-- The sources in the order of the two loops of `can_node_sensor_callback`. -/
def sources (n m : Nat) : List (Fin n × Fin m) :=
  (List.finRange n).flatMap fun i => (List.finRange m).map fun j => (i, j)

/-- The body of the loops for the first source of the sender. -/
def switchSrc (frame : CanFrame) (i : Fin n) (j : Fin m) (node : Node n m) : Node n m :=
  let src := (node.outputs i).srcs j
  let conf := (node.config i).sources j
  if frame.dataLength < 6 then node
  else if frame.data[0] = conf.sensorType ∧ frame.data[1] = conf.sensorIdx then
    let value := frame.value
    if src ∧ value < conf.offValue then (node.setSrc i j false).post { output := true }
    else if ¬ src ∧ value > conf.onValue then (node.setSrc i j true).post { output := true }
    else node
  else node

/-- The loops of `can_node_sensor_callback`, from some source on. -/
def sensorLoop (frame : CanFrame) (sender : UInt16) (node : Node n m) :
    List (Fin n × Fin m) → Node n m
  | [] => node
  | (i, j) :: rest =>
      if ((node.config i).sources j).nodeId = sender then switchSrc frame i j node
      else sensorLoop frame sender node rest

/-- `can_node_sensor_callback` -/
def canNodeSensorCallback (frame : CanFrame) (node : Node n m) : Node n m :=
  sensorLoop frame (canIdExtractFrom frame.id) node (sources n m)

/-- `can_node.outputs[idx].manual_state = state` -/
def Node.setManualState (node : Node n m) (idx : Fin n) (state : Bool) : Node n m :=
  { node with
    outputs := Function.update node.outputs idx { node.outputs idx with manualState := state } }

/-- `config.can_node.outputs[idx].mode = mode` with the request to save it, if it is another one. -/
def Node.setMode (node : Node n m) (idx : Fin n) (mode : UInt8) : Node n m :=
  if mode ≠ (node.config idx).mode then
    { node with
      config := Function.update node.config idx { node.config idx with mode := mode }
      reqs := node.reqs.or { saveConfig := true } }
  else node

/-- `can_node_output_callback` -/
def canNodeOutputCallback (frame : CanFrame) (node : Node n m) : Node n m :=
  if canIdExtractTo frame.id ≠ node.nodeId then node
  else if frame.dataLength ≠ 2 then node
  else if bound : frame.data[0].toNat < n then
    let idx : Fin n := ⟨frame.data[0].toNat, bound⟩
    let node :=
      if frame.data[1] &&& 0x2 ≠ 0 then
        (node.setManualState idx (frame.data[1] &&& 0x1 ≠ 0)).setMode idx modeManual
      else node.setMode idx modeAuto
    node.post { output := true, outputResponse := true }
  else node

/-! ## What a reading has to do -/

/-- The source is configured for the sensor of the node. -/
def Configured (node : Node n m) (sender : UInt16) (q : Quantity) (idx : UInt8) (i : Fin n)
    (j : Fin m) : Prop :=
  ((node.config i).sources j).nodeId = sender ∧ ((node.config i).sources j).sensorType = q.code ∧
    ((node.config i).sources j).sensorIdx = idx

instance (node : Node n m) (sender : UInt16) (q : Quantity) (idx : UInt8) (i : Fin n) (j : Fin m) :
    Decidable (Configured node sender q idx i j) :=
  inferInstanceAs (Decidable (_ ∧ _ ∧ _))

/-- The state of a source after a reading of its sensor: it is switched on above `on_value` and off
below `off_value`. -/
def switched (conf : OutputSrcConfig) (value : Int32) (state : Bool) : Bool :=
  if state = false ∧ value > conf.onValue then true
  else if state = true ∧ value < conf.offValue then false
  else state

/-- Every source of the sensor is switched as the reading asks for, and no other source. -/
structure Served (node node' : Node n m) (sender : UInt16) (q : Quantity) (idx : UInt8)
    (value : Int32) : Prop where
  configured : ∀ i j, Configured node sender q idx i j →
    (node'.outputs i).srcs j =
      switched ((node.config i).sources j) value ((node.outputs i).srcs j)
  other : ∀ i j, ¬ Configured node sender q idx i j →
    (node'.outputs i).srcs j = (node.outputs i).srcs j

/-- Source `(i, j)` comes before source `(i', j')` in the loops. -/
def Earlier (i : Fin n) (j : Fin m) (i' : Fin n) (j' : Fin m) : Prop :=
  i < i' ∨ i = i' ∧ j < j'

/-- Every source the reading has to switch is the first one configured with the sender. -/
def FirstOfSender (node : Node n m) (sender : UInt16) (q : Quantity) (idx : UInt8)
    (value : Int32) : Prop :=
  ∀ i j, Configured node sender q idx i j →
    switched ((node.config i).sources j) value ((node.outputs i).srcs j) ≠
      (node.outputs i).srcs j →
    ∀ i' j', Earlier i' j' i j → ((node.config i').sources j').nodeId ≠ sender

section Specs

variable {node : Node n m} {frame : CanFrame} {sender : UInt16} {q : Quantity} {idx : UInt8}
  {value : Int32} {i i' : Fin n} {j j' : Fin m}

theorem mem_sources (i : Fin n) (j : Fin m) : (i, j) ∈ sources n m := by
  simp [sources]

theorem sources_earlier : (sources n m).Pairwise fun x y => Earlier x.1 x.2 y.1 y.2 := by
  unfold sources
  rw [List.pairwise_flatMap]
  constructor
  · intro i _
    rw [List.pairwise_map]
    exact (List.pairwise_lt_finRange m).imp fun lt => .inr ⟨rfl, lt⟩
  · refine (List.pairwise_lt_finRange n).imp ?_
    intro i i' lt x memx y memy
    obtain ⟨_, -, rfl⟩ := List.mem_map.mp memx
    obtain ⟨_, -, rfl⟩ := List.mem_map.mp memy
    exact .inl lt

theorem Earlier.asymm (earlier : Earlier i j i' j') : ¬ Earlier i' j' i j := by
  unfold Earlier at *
  omega

/-- The loops do nothing when no source is configured with the sender, and else stop at the first
one. -/
theorem sensorLoop_cases (frame : CanFrame) (sender : UInt16) (node : Node n m)
    (rest : List (Fin n × Fin m)) :
    (sensorLoop frame sender node rest = node ∧
      ∀ x ∈ rest, ((node.config x.1).sources x.2).nodeId ≠ sender) ∨
    ∃ before x after, rest = before ++ x :: after ∧
      (∀ y ∈ before, ((node.config y.1).sources y.2).nodeId ≠ sender) ∧
      ((node.config x.1).sources x.2).nodeId = sender ∧
      sensorLoop frame sender node rest = switchSrc frame x.1 x.2 node := by
  induction rest with
  | nil => exact .inl ⟨rfl, by simp⟩
  | cons x rest ih =>
      by_cases same : ((node.config x.1).sources x.2).nodeId = sender
      · exact .inr ⟨[], x, rest, rfl, by simp, same, if_pos same⟩
      · have skip : sensorLoop frame sender node (x :: rest) = sensorLoop frame sender node rest :=
          if_neg same
        rw [skip]
        rcases ih with ⟨done, none⟩ | ⟨before, y, after, split, none, found, done⟩
        · refine .inl ⟨done, ?_⟩
          rintro y (_ | ⟨_, mem⟩)
          · exact same
          · exact none y mem
        · refine .inr ⟨x :: before, y, after, ?_, ?_, found, done⟩
          · rw [split, List.cons_append]
          · rintro z (_ | ⟨_, mem⟩)
            · exact same
            · exact none z mem

theorem setSrc_srcs (node : Node n m) (i : Fin n) (j : Fin m) (state : Bool) (i' : Fin n)
    (j' : Fin m) :
    ((node.setSrc i j state).outputs i').srcs j' =
      if i' = i ∧ j' = j then state else (node.outputs i').srcs j' := by
  unfold Node.setSrc
  by_cases output : i' = i
  · subst output
    by_cases source : j' = j
    · subst source
      simp
    · simp [source]
  · simp [output]

/-- The source at which the loops stop is switched, if it is one of the sensor. -/
theorem switchSrc_eq (carries : CarriesReading sender q idx value frame)
    (found : ((node.config i).sources j).nodeId = sender) :
    switchSrc frame i j node =
      if Configured node sender q idx i j ∧
        switched ((node.config i).sources j) value ((node.outputs i).srcs j) ≠
          (node.outputs i).srcs j
      then (node.setSrc i j (!(node.outputs i).srcs j)).post { output := true } else node := by
  have long : ¬ frame.dataLength < 6 := by
    rw [carries.length]
    decide
  have sensor : frame.data[0] = ((node.config i).sources j).sensorType ∧
      frame.data[1] = ((node.config i).sources j).sensorIdx ↔ Configured node sender q idx i j := by
    have type : frame.data[0] = q.code := carries.type
    have index : frame.data[1] = idx := carries.index
    rw [type, index]
    exact ⟨fun same => ⟨found, same.1.symm, same.2.symm⟩,
      fun configured => ⟨configured.2.1.symm, configured.2.2.symm⟩⟩
  simp only [switchSrc, if_neg long, carries.value, sensor]
  by_cases configured : Configured node sender q idx i j
  · cases state : (node.outputs i).srcs j with
    | true => simp [configured, switched]
    | false => simp [configured, switched]
  · simp [configured]

theorem switchSrc_srcs (carries : CarriesReading sender q idx value frame)
    (found : ((node.config i).sources j).nodeId = sender) (i' : Fin n) (j' : Fin m) :
    ((switchSrc frame i j node).outputs i').srcs j' =
      if (i' = i ∧ j' = j) ∧ Configured node sender q idx i j then
        switched ((node.config i).sources j) value ((node.outputs i).srcs j)
      else (node.outputs i').srcs j' := by
  rw [switchSrc_eq carries found]
  by_cases configured : Configured node sender q idx i j
  · by_cases changes : switched ((node.config i).sources j) value ((node.outputs i).srcs j) =
        (node.outputs i).srcs j
    · rw [if_neg (fun both => both.2 changes), changes]
      by_cases here : i' = i ∧ j' = j
      · obtain ⟨rfl, rfl⟩ := here
        simp
      · rw [if_neg (fun both => here both.1)]
    · rw [if_pos ⟨configured, changes⟩]
      show ((node.setSrc i j _).outputs i').srcs j' = _
      rw [setSrc_srcs, Bool.eq_not_of_ne changes]
      simp [configured]
  · rw [if_neg (fun both => configured both.1), if_neg (fun both => configured both.2)]

/-- When the loops stop at a source, the sources before it are those that are earlier. -/
theorem earlier_iff {before after : List (Fin n × Fin m)}
    (split : sources n m = before ++ (i, j) :: after) (i' : Fin n) (j' : Fin m) :
    ((i', j') ∈ before ↔ Earlier i' j' i j) ∧ ((i', j') ∈ after ↔ Earlier i j i' j') := by
  have ordered : (before ++ (i, j) :: after).Pairwise fun x y => Earlier x.1 x.2 y.1 y.2 :=
    split ▸ sources_earlier
  obtain ⟨-, behind, apart⟩ := List.pairwise_append.mp ordered
  have front : (i', j') ∈ before → Earlier i' j' i j :=
    fun mem => apart _ mem _ (List.mem_cons_self ..)
  have back : (i', j') ∈ after → Earlier i j i' j' :=
    fun mem => (List.pairwise_cons.mp behind).1 _ mem
  have any : (i', j') ∈ before ++ (i, j) :: after := split ▸ mem_sources i' j'
  rw [List.mem_append, List.mem_cons] at any
  constructor
  · refine ⟨front, fun earlier => ?_⟩
    rcases any with mem | same | mem
    · exact mem
    · cases same
      exact absurd earlier earlier.asymm
    · exact absurd earlier (back mem).asymm
  · refine ⟨back, fun earlier => ?_⟩
    rcases any with mem | same | mem
    · exact absurd earlier (front mem).asymm
    · cases same
      exact absurd earlier earlier.asymm
    · exact mem

/-- When the loops stop at a source, what the reading asks for is done if that source is the only
one to be switched, and it is the only one that can be the first of the sender. -/
theorem served_switchSrc_iff {before after : List (Fin n × Fin m)}
    (carries : CarriesReading sender q idx value frame)
    (split : sources n m = before ++ (i, j) :: after)
    (none : ∀ y ∈ before, ((node.config y.1).sources y.2).nodeId ≠ sender)
    (found : ((node.config i).sources j).nodeId = sender) :
    Served node (switchSrc frame i j node) sender q idx value ↔
      FirstOfSender node sender q idx value := by
  constructor
  · intro served i' j' configured changes i'' j'' earlier same
    have done := served.configured i' j' configured
    rw [switchSrc_srcs carries found] at done
    by_cases here : i' = i ∧ j' = j
    · obtain ⟨rfl, rfl⟩ := here
      exact none _ ((earlier_iff split i'' j'').1.mpr earlier) same
    · rw [if_neg (fun both => here both.1)] at done
      exact changes done.symm
  · intro first
    constructor
    · intro i' j' configured
      rw [switchSrc_srcs carries found]
      by_cases here : i' = i ∧ j' = j
      · obtain ⟨rfl, rfl⟩ := here
        rw [if_pos ⟨⟨rfl, rfl⟩, configured⟩]
      · rw [if_neg (fun both => here both.1)]
        by_contra changes
        have later : Earlier i j i' j' := by
          have any : (i', j') ∈ before ++ (i, j) :: after := split ▸ mem_sources i' j'
          rcases List.mem_append.mp any with mem | mem
          · exact absurd configured.1 (none _ mem)
          · rcases List.mem_cons.mp mem with same | mem
            · cases same
              exact absurd ⟨rfl, rfl⟩ here
            · exact (earlier_iff split i' j').2.mp mem
        exact first i' j' configured (fun same => changes same.symm) i j later found
    · intro i' j' other
      rw [switchSrc_srcs carries found, if_neg]
      rintro ⟨⟨rfl, rfl⟩, configured⟩
      exact other configured

/-- **A reading is served exactly when each source it has to switch is the first of its sender**:
the frame of a reading of a valid node, published and delivered, switches every source configured
with that node, type and index as its thresholds say, and no other source, if and only if no source
that changes stands behind another source of the same node. -/
theorem sensorCallback_served_iff (node : Node n m) (sender : UInt16) (sensor : Sensor)
    (q : Quantity) (value : Int32) (idx idx' flags : UInt8) (stack stack' : Vector UInt8 8)
    (frames : List CanFrame) (frame : CanFrame) (valid : canNodeValidId sender)
    (published : canNodeLoopPublishSensor sender sensor idx stack = .ok (frames, idx'))
    (mem : frame ∈ frames) (type : frame.data[0] = q.code) (reading : sensor.get q = some value) :
    Served node (canNodeSensorCallback (canRomCallbackRx (canSendMsg frame) flags stack') node)
        sender q idx value ↔
      FirstOfSender node sender q idx value := by
  have carries : CarriesReading sender q idx value
      (canRomCallbackRx (canSendMsg frame) flags stack') := by
    obtain ⟨q', value', -, reading', rfl⟩ := (mem_canNodeLoopPublishSensor published).mp mem
    obtain rfl : q' = q := code_readingFrame.symm.trans type |> Quantity.code_injective
    obtain rfl : value' = value := Option.some.inj (reading'.symm.trans reading)
    exact carriesReading_delivered valid
  unfold canNodeSensorCallback
  rw [carries.sender]
  rcases sensorLoop_cases _ sender node (sources n m) with
    ⟨same, none⟩ | ⟨before, ⟨i, j⟩, after, split, none, found, stopped⟩
  · have never : ∀ i j, ¬ Configured node sender q idx i j :=
      fun i j configured => none _ (mem_sources i j) configured.1
    rw [same]
    exact ⟨fun _ i j configured => absurd configured (never i j),
      fun _ => ⟨fun i j configured => absurd configured (never i j), fun _ _ _ => rfl⟩⟩
  · rw [stopped]
    exact served_switchSrc_iff carries split none found

end Specs

/-! ## A node that listens to two sensors of node 5 -/

/-- A sensor for the temperature and the humidity. -/
def climate : Sensor :=
  { capabilities := fun q => q ≠ .voltage
    get := fun q => match q with
      | .temp => some 21000
      | .humidity => some 60000
      | .voltage => none }

/-- One output with two sources: the temperature and the humidity of sensor 0 of node 5. -/
def twoSources : Node 1 2 :=
  { nodeId := 1
    sem := 0
    waiting := true
    reqs := {}
    outputs := fun _ => { state := false, manualState := false, pin := 0, srcs := fun _ => false }
    config := fun _ =>
      { mode := modeAuto
        sources := fun j =>
          { nodeId := 5
            sensorType := if j = 0 then Quantity.temp.code else Quantity.humidity.code
            sensorIdx := 0
            offValue := 20000
            onValue := 20500 } } }

/-- The bytes on the stack in the examples. -/
def noStack : Vector UInt8 8 := Vector.replicate 8 0

/-- The frame of a reading of the sensor of node 5, as it arrives. -/
def climateFrame (q : Quantity) (value : Int32) : CanFrame :=
  canRomCallbackRx (canSendMsg (readingFrame 5 q 0 value noStack)) 0 noStack

theorem climate_published :
    canNodeLoopPublishSensor 5 climate 0 noStack =
      .ok ([readingFrame 5 .temp 0 21000 noStack, readingFrame 5 .humidity 0 60000 noStack], 1) := by
  simp only [canNodeLoopPublishSensor, publishQuantity_eq]
  rfl

/-- The temperature is the first source of the node, and is switched on. -/
theorem sensorCallback_served_temp :
    Served twoSources (canNodeSensorCallback (climateFrame .temp 21000) twoSources) 5 .temp 0
      21000 := by
  refine (sensorCallback_served_iff twoSources 5 climate .temp 21000 0 1 0 noStack noStack _ _
    (by decide) climate_published (List.mem_cons_self ..) code_readingFrame rfl).mpr ?_
  intro i j configured _ i' j' earlier
  have first : j = 0 := by
    by_contra other
    have type := configured.2.1
    simp [twoSources, other] at type
    exact absurd type (by decide)
  unfold Earlier at earlier
  omega

/-- The humidity stands behind the temperature of the same node: its source is not switched on,
although the reading is above `on_value`. -/
theorem humidity_not_served :
    ∃ frames, canNodeLoopPublishSensor 5 climate 0 noStack = .ok (frames, 1) ∧
      readingFrame 5 .humidity 0 60000 noStack ∈ frames ∧
      ¬ Served twoSources (canNodeSensorCallback (climateFrame .humidity 60000) twoSources) 5
        .humidity 0 60000 := by
  refine ⟨_, climate_published, by simp, ?_⟩
  intro served
  have on := served.configured 0 1 ⟨rfl, rfl, rfl⟩
  revert on
  decide +kernel

end TheFirmware.CanNode
