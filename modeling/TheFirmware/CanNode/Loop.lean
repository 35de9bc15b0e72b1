import TheFirmware.CanNode.Node

/-!
# The loop of `lib/can_node/can_node.c`

`can_node_loop` statement by statement, with the callbacks of `CanNode/Node.lean` at any point
between two statements. The callbacks change modes, manual states and sources, and the loop reads
them one after the other, so what it drives may be out of date at once; but every change sets
`kCanNodeWorkReqOutput`, and the bit stays set until the loop fetches it and looks at every output
again. So the outputs are right whenever the loop waits and the bit is clear (`reachable_idle`).

Sensors and sent frames have no influence on the outputs. Saving the configuration does not change
it.
-/

namespace TheFirmware.CanNode

variable {n m : Nat}

/-- The statements of `can_node_loop`, with its local variables. -/
inductive Pc (n : Nat) : Type
  /-- At `semaphore_wait(&can_node.sem)`. -/
  | wait
  /-- In the queue of the semaphore. -/
  | blocked
  /-- At `can_node_fetch_clear_reqs()`, which runs with the interrupts disabled. -/
  | fetch
  /-- At the publishing of the sensors. -/
  | sensors (reqs : Reqs)
  /-- At the test of the bits for the outputs. -/
  | check (reqs : Reqs)
  /-- At `i < CAN_NODE_NUM_OUTPUT`. -/
  | output (reqs : Reqs) (i : Nat)
  /-- At the test of the mode, with `state` false. -/
  | mode (reqs : Reqs) (i : Fin n)
  /-- At `state = can_node.outputs[i].manual_state`. -/
  | manual (reqs : Reqs) (i : Fin n)
  /-- At `j < CAN_NODE_NUM_OUTPUT_SOURCE` and the test of source `j`. -/
  | source (reqs : Reqs) (i : Fin n) (j : Nat)
  /-- At `can_node.outputs[i].state != state`. -/
  | compare (reqs : Reqs) (i : Fin n) (state : Bool)
  /-- At `can_node.outputs[i].state = state`. -/
  | assign (reqs : Reqs) (i : Fin n) (state : Bool)
  /-- At `gpio_set(can_node.outputs[i].pin, state)`. -/
  | drive (reqs : Reqs) (i : Fin n) (state : Bool)
  /-- At the test for a response. -/
  | respond (reqs : Reqs) (i : Fin n) (state : Bool)
  /-- At the test of the mode for `payload[1]`. -/
  | payload (reqs : Reqs) (i : Fin n) (state : Bool)
  /-- At `can_node_send(499, ...)`. -/
  | send (reqs : Reqs) (i : Fin n) (status : UInt8)
  /-- At the test of the bit for the configuration. -/
  | save (reqs : Reqs)
  deriving DecidableEq

/-- The node, where its loop is, the levels driven on the pins, the level each output has driven on
its pin last, and the frames sent. -/
structure LoopState (n m : Nat) : Type where
  node : Node n m
  pc : Pc n
  pins : UInt32 → Bool
  driven : Fin n → Bool
  sent : List CanFrame

/-- A statement of the loop, with the sensors there are and the bytes on the stack, or an
interrupt. -/
inductive Event : Type
  | loop (sensors : List Sensor) (stack : Vector UInt8 8)
  | sensorCallback (frame : CanFrame)
  | outputCallback (frame : CanFrame)
  | postSensorReq

/-- A thread in the queue of the semaphore executes nothing. -/
def Legal (s : LoopState n m) : Event → Prop
  | .loop _ _ => s.pc = .blocked → s.node.waiting = false
  | _ => True

/-- The loop goes to another statement. -/
def LoopState.goto (s : LoopState n m) (pc : Pc n) : LoopState n m := { s with pc := pc }

/-- `semaphore_wait(&can_node.sem)` -/
def LoopState.semWait (s : LoopState n m) : LoopState n m :=
  let s := { s with node := { s.node with sem := s.node.sem - 1 } }
  if 0 ≤ s.node.sem then s.goto .fetch
  else { s with node := { s.node with waiting := true } }.goto .blocked

/-- `can_node_fetch_clear_reqs()` -/
def LoopState.fetchClearReqs (s : LoopState n m) : LoopState n m :=
  { s with node := { s.node with reqs := {} } }.goto (.sensors s.node.reqs)

/-- `can_node.outputs[i].state = state` -/
def LoopState.setState (s : LoopState n m) (i : Fin n) (state : Bool) : LoopState n m :=
  { s with
    node := { s.node with
      outputs := Function.update s.node.outputs i { s.node.outputs i with state := state } } }

/-- `gpio_set(can_node.outputs[i].pin, state)` -/
def LoopState.gpioSet (s : LoopState n m) (i : Fin n) (state : Bool) : LoopState n m :=
  { s with
    pins := Function.update s.pins (s.node.outputs i).pin state
    driven := Function.update s.driven i state }

/-- `payload[1]` -/
def payloadStatus (state : Bool) (mode : UInt8) : UInt8 :=
  (if state then 0x1 else 0) ||| (if mode = modeManual then 0x2 else 0)

/-- The next statement of the loop. -/
def LoopState.step (s : LoopState n m) (sensors : List Sensor) (stack : Vector UInt8 8) :
    Except Fault (LoopState n m) :=
  match s.pc with
  | .wait => return s.semWait
  | .blocked => return s.goto .fetch
  | .fetch => return s.fetchClearReqs
  | .sensors reqs =>
      if reqs.sensors then do
        let frames ← publishSensors s.node.nodeId stack sensors 0
        return { s with sent := s.sent ++ frames }.goto (.check reqs)
      else return s.goto (.check reqs)
  | .check reqs =>
      if reqs.output || reqs.outputResponse then return s.goto (.output reqs 0)
      else return s.goto (.save reqs)
  | .output reqs i =>
      if bound : i < n then return s.goto (.mode reqs ⟨i, bound⟩) else return s.goto (.save reqs)
  | .mode reqs i =>
      if (s.node.config i).mode = modeManual then return s.goto (.manual reqs i)
      else return s.goto (.source reqs i 0)
  | .manual reqs i => return s.goto (.compare reqs i (s.node.outputs i).manualState)
  | .source reqs i j =>
      if bound : j < m then
        if (s.node.outputs i).srcs ⟨j, bound⟩ then return s.goto (.compare reqs i true)
        else return s.goto (.source reqs i (j + 1))
      else return s.goto (.compare reqs i false)
  | .compare reqs i state =>
      if (s.node.outputs i).state ≠ state then return s.goto (.assign reqs i state)
      else return s.goto (.respond reqs i state)
  | .assign reqs i state => return (s.setState i state).goto (.drive reqs i state)
  | .drive reqs i state => return (s.gpioSet i state).goto (.respond reqs i state)
  | .respond reqs i state =>
      if (s.node.outputs i).state ≠ state ∨ reqs.outputResponse then
        return s.goto (.payload reqs i state)
      else return s.goto (.output reqs (i + 1))
  | .payload reqs i state =>
      return s.goto (.send reqs i (payloadStatus state (s.node.config i).mode))
  | .send reqs i status => do
      let frame ← canNodeSend s.node.nodeId 499 canNodeBroadcastId [i.val.toUInt8, status] stack
      return { s with sent := s.sent ++ [frame] }.goto (.output reqs (i + 1))
  | .save _ => return s.goto .wait

/-- The state after a statement or an interrupt. -/
def exec : Event → LoopState n m → Except Fault (LoopState n m)
  | .loop sensors stack, s => s.step sensors stack
  | .sensorCallback frame, s => return { s with node := canNodeSensorCallback frame s.node }
  | .outputCallback frame, s => return { s with node := canNodeOutputCallback frame s.node }
  | .postSensorReq, s => return { s with node := canNodePostSensorReq s.node }

/-- Nothing has been requested yet, and every output, source and pin is off. -/
structure Initial (s : LoopState n m) : Prop where
  pc : s.pc = .wait
  sem : s.node.sem = 0
  waiting : s.node.waiting = false
  reqs : s.node.reqs = {}
  state : ∀ i, (s.node.outputs i).state = false
  manualState : ∀ i, (s.node.outputs i).manualState = false
  srcs : ∀ i j, (s.node.outputs i).srcs j = false
  pins : ∀ pin, s.pins pin = false
  driven : ∀ i, s.driven i = false

/-- The states of the runs of the loop and its interrupts. -/
inductive Reachable : LoopState n m → Prop
  | init {s : LoopState n m} (initial : Initial s) : Reachable s
  | step {s s' : LoopState n m} {event : Event} (before : Reachable s) (legal : Legal s event)
      (run : exec event s = .ok s') : Reachable s'

/-- What an output should be: its manual state in the manual mode, and else whether one of its
sources is on. -/
def expected (node : Node n m) (i : Fin n) : Bool :=
  if (node.config i).mode = modeManual then (node.outputs i).manualState
  else (List.finRange m).any (node.outputs i).srcs

/-! ## The invariant -/

/-- The loop is done with the output, or does not have to look at it. -/
def Pc.Done (k : Fin n) : Pc n → Prop
  | .sensors reqs => reqs.output = false
  | .check reqs => reqs.output = false
  | .output reqs i => k < i ∨ reqs.output = false
  | .mode reqs i => k < i ∨ reqs.output = false
  | .manual reqs i => k < i ∨ reqs.output = false
  | .source reqs i _ => k < i ∨ reqs.output = false
  | .compare reqs i _ => k < i ∨ reqs.output = false
  | .assign reqs i _ => k ≠ i ∧ (k < i ∨ reqs.output = false)
  | .drive reqs i _ => k ≠ i ∧ (k < i ∨ reqs.output = false)
  | .respond reqs i _ => k ≤ i ∨ reqs.output = false
  | .payload reqs i _ => k ≤ i ∨ reqs.output = false
  | .send reqs i _ => k ≤ i ∨ reqs.output = false
  | _ => True

/-- The loop has found out how far the output it looks at is on. -/
def Pc.Known (node : Node n m) : Pc n → Prop
  | .manual _ i => (node.config i).mode = modeManual
  | .source _ i j => (node.config i).mode ≠ modeManual ∧
      ∀ j' : Fin m, j' < j → (node.outputs i).srcs j' = false
  | .compare _ i state => state = expected node i
  | .assign _ i state => state = expected node i
  | .drive _ i state => state = expected node i
  | _ => True

/-- The loop has assigned the state of the output, but not driven the pin. -/
def Pc.Drives (k : Fin n) : Pc n → Prop
  | .drive _ i _ => k = i
  | _ => False

/-- As long as no change has been reported, the outputs the loop is done with are right. The pins
follow the states. -/
structure Sound (s : LoopState n m) : Prop where
  settled : s.node.reqs.output = false → ∀ k, s.pc.Done k →
    (s.node.outputs k).state = expected s.node k
  known : s.node.reqs.output = false → s.pc.Known s.node
  driving : ∀ reqs i state, s.pc = .drive reqs i state → (s.node.outputs i).state = state
  driven : ∀ k, ¬ s.pc.Drives k → s.driven k = (s.node.outputs k).state
  pins : ∀ k, ¬ s.pc.Drives k →
    (∀ l, (s.node.outputs l).pin = (s.node.outputs k).pin → l = k) →
    s.pins (s.node.outputs k).pin = (s.node.outputs k).state

/-- What an interrupt does to the node: it leaves the states and the pins alone, and where it
changes what an output should be it sets the bit. -/
structure Interrupted (node node' : Node n m) : Prop where
  state : ∀ k, (node'.outputs k).state = (node.outputs k).state
  pin : ∀ k, (node'.outputs k).pin = (node.outputs k).pin
  clean : node'.reqs.output = false → node.reqs.output = false ∧
    ∀ k, (node'.config k).mode = (node.config k).mode ∧
      (node'.outputs k).manualState = (node.outputs k).manualState ∧
      (node'.outputs k).srcs = (node.outputs k).srcs

section Specs

variable {node node' : Node n m} {s s' : LoopState n m}

/-! ## Interrupts -/

theorem Interrupted.refl (node : Node n m) : Interrupted node node :=
  ⟨fun _ => rfl, fun _ => rfl, fun clean => ⟨clean, fun _ => ⟨rfl, rfl, rfl⟩⟩⟩

/-- A change that sets the bit. -/
theorem Interrupted.post (state : ∀ k, (node'.outputs k).state = (node.outputs k).state)
    (pin : ∀ k, (node'.outputs k).pin = (node.outputs k).pin) (bits : Reqs)
    (sets : bits.output = true) : Interrupted node (node'.post bits) := by
  refine ⟨state, pin, fun clean => ?_⟩
  have set : (node'.reqs.output || bits.output) = false := clean
  rw [sets, Bool.or_true] at set
  cases set

theorem setSrc_same (node : Node n m) (i : Fin n) (j : Fin m) (state : Bool) (k : Fin n) :
    ((node.setSrc i j state).outputs k).state = (node.outputs k).state ∧
      ((node.setSrc i j state).outputs k).pin = (node.outputs k).pin := by
  unfold Node.setSrc
  by_cases same : k = i
  · subst same
    simp
  · simp [same]

theorem interrupted_sensorCallback (frame : CanFrame) (node : Node n m) :
    Interrupted node (canNodeSensorCallback frame node) := by
  have switched : ∀ i j, Interrupted node (switchSrc frame i j node) := by
    intro i j
    have posted : ∀ state, Interrupted node ((node.setSrc i j state).post { output := true }) :=
      fun state => .post (fun k => (setSrc_same node i j state k).1)
        (fun k => (setSrc_same node i j state k).2) _ rfl
    simp only [switchSrc]
    split_ifs
    · exact .refl node
    · exact posted false
    · exact posted true
    · exact .refl node
    · exact .refl node
  unfold canNodeSensorCallback
  rcases sensorLoop_cases frame (canIdExtractFrom frame.id) node (sources n m) with
    ⟨same, -⟩ | ⟨-, x, -, -, -, -, stopped⟩
  · rw [same]
    exact .refl node
  · rw [stopped]
    exact switched x.1 x.2

theorem setManualState_same (node : Node n m) (i : Fin n) (state : Bool) (k : Fin n) :
    ((node.setManualState i state).outputs k).state = (node.outputs k).state ∧
      ((node.setManualState i state).outputs k).pin = (node.outputs k).pin := by
  unfold Node.setManualState
  by_cases same : k = i
  · subst same
    simp
  · simp [same]

theorem setMode_outputs (node : Node n m) (i : Fin n) (mode : UInt8) :
    (node.setMode i mode).outputs = node.outputs := by
  unfold Node.setMode
  split_ifs
  · rfl
  · rfl

theorem interrupted_outputCallback (frame : CanFrame) (node : Node n m) :
    Interrupted node (canNodeOutputCallback frame node) := by
  unfold canNodeOutputCallback
  split_ifs with receiver length bound manual
  · exact .refl node
  · exact .refl node
  · refine .post (fun k => ?_) (fun k => ?_) _ rfl
    · rw [setMode_outputs, (setManualState_same ..).1]
    · rw [setMode_outputs, (setManualState_same ..).2]
  · refine .post (fun k => ?_) (fun k => ?_) _ rfl
    · rw [setMode_outputs]
    · rw [setMode_outputs]
  · exact .refl node

theorem interrupted_postSensorReq (node : Node n m) :
    Interrupted node (canNodePostSensorReq node) := by
  refine ⟨fun _ => rfl, fun _ => rfl, fun clean => ⟨?_, fun _ => ⟨rfl, rfl, rfl⟩⟩⟩
  have set : (node.reqs.output || false) = false := clean
  rwa [Bool.or_false] at set

theorem expected_congr {k : Fin n} (mode : (node'.config k).mode = (node.config k).mode)
    (manualState : (node'.outputs k).manualState = (node.outputs k).manualState)
    (srcs : (node'.outputs k).srcs = (node.outputs k).srcs) :
    expected node' k = expected node k := by
  unfold expected
  rw [mode, manualState, srcs]

/-- An interrupt between two statements keeps the invariant. -/
theorem Sound.interrupted (sound : Sound s) (interrupted : Interrupted s.node node') :
    Sound { s with node := node' } := by
  have same : node'.reqs.output = false → ∀ k, expected node' k = expected s.node k := by
    intro clean k
    obtain ⟨mode, manualState, srcs⟩ := (interrupted.clean clean).2 k
    exact expected_congr mode manualState srcs
  constructor
  · intro clean k done
    show (node'.outputs k).state = expected node' k
    rw [interrupted.state k, same clean k]
    exact sound.settled (interrupted.clean clean).1 k done
  · intro clean
    have known := sound.known (interrupted.clean clean).1
    have data := (interrupted.clean clean).2
    show s.pc.Known node'
    cases pc : s.pc with
    | manual reqs i =>
        rw [pc] at known
        exact (data i).1.trans known
    | source reqs i j =>
        rw [pc] at known
        refine ⟨fun manual => known.1 ((data i).1.symm.trans manual), fun j' before => ?_⟩
        rw [(data i).2.2]
        exact known.2 j' before
    | compare reqs i state =>
        rw [pc] at known
        exact known.trans (same clean i).symm
    | assign reqs i state =>
        rw [pc] at known
        exact known.trans (same clean i).symm
    | drive reqs i state =>
        rw [pc] at known
        exact known.trans (same clean i).symm
    | _ => trivial
  · intro reqs i state pc
    exact (interrupted.state i).trans (sound.driving reqs i state pc)
  · intro k still
    exact (sound.driven k still).trans (interrupted.state k).symm
  · intro k still alone
    show s.pins (node'.outputs k).pin = (node'.outputs k).state
    rw [interrupted.pin k, interrupted.state k]
    refine sound.pins k still fun l shared => alone l ?_
    show (node'.outputs l).pin = (node'.outputs k).pin
    rw [interrupted.pin l, interrupted.pin k]
    exact shared

/-! ## Statements of the loop -/

/-- The loop goes on without changing anything, and without a pin that is still to be driven. -/
theorem Sound.goto {pc : Pc n} (sound : Sound s) (before : ∀ k, ¬ s.pc.Drives k)
    (after : ∀ k, ¬ pc.Drives k)
    (done : s.node.reqs.output = false → ∀ k, pc.Done k →
      s.pc.Done k ∨ (s.node.outputs k).state = expected s.node k)
    (known : s.node.reqs.output = false → pc.Known s.node) : Sound (s.goto pc) := by
  constructor
  · intro clean k isDone
    rcases done clean k isDone with isDone | right
    · exact sound.settled clean k isDone
    · exact right
  · exact known
  · intro reqs i state drive
    have drives : pc.Drives i := by
      rw [show pc = _ from drive]
      rfl
    exact absurd drives (after i)
  · exact fun k _ => sound.driven k (before k)
  · exact fun k _ => sound.pins k (before k)

theorem Sound.semWait (sound : Sound s) (pc : s.pc = .wait) : Sound s.semWait := by
  have same : ∀ node', node'.reqs = s.node.reqs → node'.outputs = s.node.outputs →
      node'.config = s.node.config → Interrupted s.node node' := by
    intro node' reqs outputs config
    refine ⟨fun k => by rw [outputs], fun k => by rw [outputs], fun clean => ⟨?_, fun k => ?_⟩⟩
    · rw [← reqs]
      exact clean
    · rw [outputs, config]
      exact ⟨rfl, rfl, rfl⟩
  have still : ∀ k, ¬ s.pc.Drives k := by
    rw [pc]
    exact fun _ => id
  have done : ∀ k, s.pc.Done k := by
    rw [pc]
    exact fun _ => trivial
  have down : Sound { s with node := { s.node with sem := s.node.sem - 1 } } :=
    sound.interrupted (same _ rfl rfl rfl)
  have queued : Sound
      { s with node := { s.node with sem := s.node.sem - 1, waiting := true } } :=
    sound.interrupted (same _ rfl rfl rfl)
  simp only [LoopState.semWait]
  split_ifs
  · exact down.goto still (fun _ => id) (fun _ k _ => .inl (done k)) (fun _ => trivial)
  · exact queued.goto still (fun _ => id) (fun _ k _ => .inl (done k)) (fun _ => trivial)

/-- The bit is taken over by the local variable. -/
theorem Sound.fetchClearReqs (sound : Sound s) (pc : s.pc = .fetch) :
    Sound s.fetchClearReqs := by
  have still : ∀ k, ¬ s.pc.Drives k := by
    rw [pc]
    exact fun _ => id
  constructor
  · intro _ k clean
    refine sound.settled clean k ?_
    rw [pc]
    trivial
  · exact fun _ => trivial
  · intro reqs i state drive
    cases drive
  · exact fun k _ => sound.driven k (still k)
  · exact fun k _ => sound.pins k (still k)

theorem setState_outputs (s : LoopState n m) (i : Fin n) (state : Bool) (k : Fin n) :
    ((s.setState i state).node.outputs k).state =
        (if k = i then state else (s.node.outputs k).state) ∧
      ((s.setState i state).node.outputs k).pin = (s.node.outputs k).pin ∧
      expected (s.setState i state).node k = expected s.node k := by
  unfold LoopState.setState expected
  by_cases same : k = i
  · subst same
    simp
  · simp [same]

theorem Sound.assign {reqs : Reqs} {i : Fin n} {state : Bool} (sound : Sound s)
    (pc : s.pc = .assign reqs i state) :
    Sound ((s.setState i state).goto (.drive reqs i state)) := by
  have still : ∀ k, ¬ s.pc.Drives k := by
    rw [pc]
    exact fun _ => id
  have states := fun k => (setState_outputs s i state k).1
  have samePins := fun k => (setState_outputs s i state k).2.1
  have same := fun k => (setState_outputs s i state k).2.2
  constructor
  · intro clean k done
    show ((s.setState i state).node.outputs k).state = expected (s.setState i state).node k
    rw [states, if_neg done.1, same]
    refine sound.settled clean k ?_
    rw [pc]
    exact done
  · intro clean
    have known := sound.known clean
    rw [pc] at known
    exact known.trans (same i).symm
  · intro reqs' i' state' drive
    cases drive
    exact (states i).trans (if_pos rfl)
  · intro k other
    refine (sound.driven k (still k)).trans ?_
    exact ((states k).trans (if_neg other)).symm
  · intro k other alone
    have other : k ≠ i := other
    show s.pins ((s.setState i state).node.outputs k).pin =
      ((s.setState i state).node.outputs k).state
    rw [samePins, states, if_neg other]
    refine sound.pins k (still k) fun l shared => alone l ?_
    exact ((samePins l).trans shared).trans (samePins k).symm

theorem Sound.drive {reqs : Reqs} {i : Fin n} {state : Bool} (sound : Sound s)
    (pc : s.pc = .drive reqs i state) :
    Sound ((s.gpioSet i state).goto (.respond reqs i state)) := by
  have assigned := sound.driving reqs i state pc
  have still : ∀ {k}, k ≠ i → ¬ s.pc.Drives k := by
    rw [pc]
    exact id
  constructor
  · intro clean k done
    by_cases same : k = i
    · subst same
      have known := sound.known clean
      rw [pc] at known
      exact assigned.trans known
    · refine sound.settled clean k ?_
      rw [pc]
      refine ⟨same, done.imp (fun le => ?_) id⟩
      exact lt_of_le_of_ne le same
  · exact fun _ => trivial
  · intro reqs' i' state' drive
    cases drive
  · intro k _
    show Function.update s.driven i state k = (s.node.outputs k).state
    by_cases same : k = i
    · subst same
      rw [Function.update_self, assigned]
    · rw [Function.update_of_ne same]
      exact sound.driven k (still same)
  · intro k _ alone
    show Function.update s.pins (s.node.outputs i).pin state (s.node.outputs k).pin =
      (s.node.outputs k).state
    by_cases same : k = i
    · subst same
      rw [Function.update_self, assigned]
    · rw [Function.update_of_ne]
      · exact sound.pins k (still same) alone
      · exact fun shared => same (alone i shared.symm).symm

/-- The source loop has found no source that is on. -/
theorem expected_of_off {i : Fin n} (auto : (node.config i).mode ≠ modeManual)
    (off : ∀ j, (node.outputs i).srcs j = false) : expected node i = false := by
  unfold expected
  rw [if_neg auto, List.any_eq_false]
  intro j _
  rw [off j]
  exact Bool.false_ne_true

theorem expected_of_on {i : Fin n} {j : Fin m} (auto : (node.config i).mode ≠ modeManual)
    (on : (node.outputs i).srcs j = true) : expected node i = true := by
  unfold expected
  rw [if_neg auto, List.any_eq_true]
  exact ⟨j, List.mem_finRange j, on⟩

/-- A statement that changes nothing but the frames sent. What is left to show about the outputs and
the local variables may use what the loop knows before it. -/
theorem Sound.goOn {pc pc' : Pc n} {frames : List CanFrame} (sound : Sound s) (at_ : s.pc = pc)
    (before : ∀ k, ¬ pc.Drives k) (after : ∀ k, ¬ pc'.Drives k)
    (done : s.node.reqs.output = false → pc.Known s.node → ∀ k, pc'.Done k →
      pc.Done k ∨ (s.node.outputs k).state = expected s.node k)
    (known : s.node.reqs.output = false → pc.Known s.node → pc'.Known s.node) :
    Sound ({ s with sent := frames }.goto pc') := by
  subst at_
  have sent : Sound { s with sent := frames } :=
    ⟨sound.settled, sound.known, sound.driving, sound.driven, sound.pins⟩
  exact sent.goto before after (fun clean => done clean (sound.known clean))
    (fun clean => known clean (sound.known clean))

variable {reqs : Reqs} {sensors : List Sensor} {stack : Vector UInt8 8}

theorem Sound.publish (sound : Sound s) (pc : s.pc = .sensors reqs)
    (run : s.step sensors stack = .ok s') : Sound s' := by
  simp only [LoopState.step, pc] at run
  split_ifs at run
  · obtain ⟨frames, -, run⟩ := Except.bind_eq_ok.mp run
    cases run
    exact sound.goOn pc (fun _ => id) (fun _ => id) (fun _ _ _ => .inl) (fun _ _ => trivial)
  · cases run
    exact sound.goOn pc (fun _ => id) (fun _ => id) (fun _ _ _ => .inl) (fun _ _ => trivial)

theorem Sound.check (sound : Sound s) (pc : s.pc = .check reqs)
    (run : s.step sensors stack = .ok s') : Sound s' := by
  simp only [LoopState.step, pc] at run
  split_ifs at run with wanted
  · cases run
    refine sound.goOn pc (fun _ => id) (fun _ => id) (fun _ _ k done => .inl ?_)
      (fun _ _ => trivial)
    exact done.resolve_left (Nat.not_lt_zero _)
  · cases run
    refine sound.goOn pc (fun _ => id) (fun _ => id) (fun _ _ k _ => .inl ?_)
      (fun _ _ => trivial)
    rw [Bool.not_eq_true, Bool.or_eq_false_iff] at wanted
    exact wanted.1

theorem Sound.output {i : Nat} (sound : Sound s) (pc : s.pc = .output reqs i)
    (run : s.step sensors stack = .ok s') : Sound s' := by
  simp only [LoopState.step, pc] at run
  split_ifs at run with bound
  · cases run
    exact sound.goOn pc (fun _ => id) (fun _ => id) (fun _ _ _ => .inl) (fun _ _ => trivial)
  · cases run
    refine sound.goOn pc (fun _ => id) (fun _ => id) (fun _ _ k _ => .inl (.inl ?_))
      (fun _ _ => trivial)
    omega

/-- The mode of the output decides where its state is looked up. -/
theorem Sound.mode {i : Fin n} (sound : Sound s) (pc : s.pc = .mode reqs i)
    (run : s.step sensors stack = .ok s') : Sound s' := by
  simp only [LoopState.step, pc] at run
  split_ifs at run with manual
  · cases run
    exact sound.goOn pc (fun _ => id) (fun _ => id) (fun _ _ _ => .inl) (fun _ _ => manual)
  · cases run
    refine sound.goOn pc (fun _ => id) (fun _ => id) (fun _ _ _ => .inl)
      (fun _ _ => ⟨manual, ?_⟩)
    intro j' before
    exact absurd before (Nat.not_lt_zero _)

/-- The sources are looked at one after the other, up to the first that is on. -/
theorem Sound.source {i : Fin n} {j : Nat} (sound : Sound s) (pc : s.pc = .source reqs i j)
    (run : s.step sensors stack = .ok s') : Sound s' := by
  simp only [LoopState.step, pc] at run
  split_ifs at run with bound on
  · cases run
    refine sound.goOn pc (fun _ => id) (fun _ => id) (fun _ _ _ => .inl) (fun _ known => ?_)
    exact (expected_of_on known.1 on).symm
  · cases run
    refine sound.goOn pc (fun _ => id) (fun _ => id) (fun _ _ _ => .inl)
      (fun _ known => ⟨known.1, fun j' before => ?_⟩)
    rcases Nat.lt_succ_iff_lt_or_eq.mp before with before | same
    · exact known.2 j' before
    · obtain rfl : j' = ⟨j, bound⟩ := Fin.ext same
      exact Bool.eq_false_of_not_eq_true on
  · cases run
    refine sound.goOn pc (fun _ => id) (fun _ => id) (fun _ _ _ => .inl) (fun _ known => ?_)
    refine (expected_of_off known.1 fun j' => known.2 j' ?_).symm
    omega

/-- An output that has the right state already is settled. -/
theorem Sound.compare {i : Fin n} {state : Bool} (sound : Sound s)
    (pc : s.pc = .compare reqs i state) (run : s.step sensors stack = .ok s') : Sound s' := by
  simp only [LoopState.step, pc] at run
  split_ifs at run with differs
  · cases run
    exact sound.goOn pc (fun _ => id) (fun _ => id) (fun _ _ _ done => .inl done.2)
      (fun _ => id)
  · cases run
    refine sound.goOn pc (fun _ => id) (fun _ => id) (fun _ known k done => ?_)
      (fun _ _ => trivial)
    by_cases same : k = i
    · subst same
      exact .inr ((not_not.mp differs).trans known)
    · exact .inl (done.imp_left fun le => lt_of_le_of_ne le same)

theorem Sound.respond {i : Fin n} {state : Bool} (sound : Sound s)
    (pc : s.pc = .respond reqs i state) (run : s.step sensors stack = .ok s') : Sound s' := by
  simp only [LoopState.step, pc] at run
  split_ifs at run
  · cases run
    exact sound.goOn pc (fun _ => id) (fun _ => id) (fun _ _ _ => .inl) (fun _ _ => trivial)
  · cases run
    refine sound.goOn pc (fun _ => id) (fun _ => id) (fun _ _ k done => .inl ?_)
      (fun _ _ => trivial)
    exact done.imp_left Nat.lt_succ_iff.mp

theorem Sound.send {i : Fin n} {status : UInt8} (sound : Sound s) (pc : s.pc = .send reqs i status)
    (run : s.step sensors stack = .ok s') : Sound s' := by
  simp only [LoopState.step, pc] at run
  obtain ⟨frame, -, run⟩ := Except.bind_eq_ok.mp run
  cases run
  refine sound.goOn pc (fun _ => id) (fun _ => id) (fun _ _ k done => .inl ?_)
      (fun _ _ => trivial)
  exact done.imp_left Nat.lt_succ_iff.mp

/-- Every statement of the loop keeps the invariant. -/
theorem Sound.step (sound : Sound s) (run : s.step sensors stack = .ok s') : Sound s' := by
  cases pc : s.pc with
  | wait =>
      simp only [LoopState.step, pc] at run
      cases run
      exact sound.semWait pc
  | blocked =>
      simp only [LoopState.step, pc] at run
      cases run
      exact sound.goOn pc (fun _ => id) (fun _ => id) (fun _ _ _ _ => .inl trivial)
        (fun _ _ => trivial)
  | fetch =>
      simp only [LoopState.step, pc] at run
      cases run
      exact sound.fetchClearReqs pc
  | sensors reqs => exact sound.publish pc run
  | check reqs => exact sound.check pc run
  | output reqs i => exact sound.output pc run
  | mode reqs i => exact sound.mode pc run
  | manual reqs i =>
      simp only [LoopState.step, pc] at run
      cases run
      refine sound.goOn pc (fun _ => id) (fun _ => id) (fun _ _ _ => .inl) (fun _ manual => ?_)
      exact (if_pos manual).symm
  | source reqs i j => exact sound.source pc run
  | compare reqs i state => exact sound.compare pc run
  | assign reqs i state =>
      simp only [LoopState.step, pc] at run
      cases run
      exact sound.assign pc
  | drive reqs i state =>
      simp only [LoopState.step, pc] at run
      cases run
      exact sound.drive pc
  | respond reqs i state => exact sound.respond pc run
  | payload reqs i state =>
      simp only [LoopState.step, pc] at run
      cases run
      exact sound.goOn pc (fun _ => id) (fun _ => id) (fun _ _ _ => .inl) (fun _ _ => trivial)
  | send reqs i status => exact sound.send pc run
  | save reqs =>
      simp only [LoopState.step, pc] at run
      cases run
      exact sound.goOn pc (fun _ => id) (fun _ => id) (fun _ _ _ => .inl) (fun _ _ => trivial)

theorem Sound.exec {event : Event} (sound : Sound s) (run : exec event s = .ok s') : Sound s' := by
  cases event with
  | loop sensors stack => exact sound.step run
  | sensorCallback frame =>
      cases run
      exact sound.interrupted (interrupted_sensorCallback frame s.node)
  | outputCallback frame =>
      cases run
      exact sound.interrupted (interrupted_outputCallback frame s.node)
  | postSensorReq =>
      cases run
      exact sound.interrupted (interrupted_postSensorReq s.node)

theorem Initial.sound (initial : Initial s) : Sound s := by
  have off : ∀ k, expected s.node k = false := by
    intro k
    by_cases manual : (s.node.config k).mode = modeManual
    · exact (if_pos manual).trans (initial.manualState k)
    · exact expected_of_off manual (initial.srcs k)
  constructor
  · intro _ k _
    rw [initial.state k, off k]
  · intro _
    rw [initial.pc]
    trivial
  · intro reqs i state drive
    rw [initial.pc] at drive
    cases drive
  · intro k _
    rw [initial.driven k, initial.state k]
  · intro k _ _
    rw [initial.pins, initial.state k]

theorem Reachable.sound (reach : Reachable s) : Sound s := by
  induction reach with
  | init initial => exact initial.sound
  | step _ _ run ih => exact ih.exec run

/-- **The outputs are right when the loop is idle**: in every reachable state in which the loop
waits for the semaphore and `kCanNodeWorkReqOutput` is not set, every output has the state it
should have, this is the level it has driven on its pin last, and it is the level of the pin if no
other output has the same pin. -/
theorem reachable_idle (s : LoopState n m) (reach : Reachable s)
    (waits : s.pc = .wait ∨ s.pc = .blocked) (clear : s.node.reqs.output = false) (i : Fin n) :
    (s.node.outputs i).state = expected s.node i ∧ s.driven i = expected s.node i ∧
      ((∀ k, (s.node.outputs k).pin = (s.node.outputs i).pin → k = i) →
        s.pins (s.node.outputs i).pin = expected s.node i) := by
  have sound := reach.sound
  have done : s.pc.Done i := by
    rcases waits with pc | pc
    · rw [pc]
      trivial
    · rw [pc]
      trivial
  have still : ¬ s.pc.Drives i := by
    rcases waits with pc | pc
    · rw [pc]
      exact id
    · rw [pc]
      exact id
  have right := sound.settled clear i done
  refine ⟨right, (sound.driven i still).trans right, fun alone => ?_⟩
  exact (sound.pins i still alone).trans right

end Specs

/-! ## A request for a manual state -/

/-- The state after an event that does not fail. -/
def execD (s : LoopState n m) (event : Event) : LoopState n m :=
  match exec event s with
  | .ok s' => s'
  | .error _ => s

/-- The events can happen one after the other. -/
def legalAll : LoopState n m → List Event → Bool
  | _, [] => true
  | s, event :: events =>
      (match event with
        | .loop _ _ => s.pc ≠ .blocked || !s.node.waiting
        | _ => true) && legalAll (execD s event) events

theorem Reachable.execAll {s : LoopState n m} {events : List Event} (reach : Reachable s)
    (legal : legalAll s events) : Reachable (events.foldl execD s) := by
  induction events generalizing s with
  | nil => exact reach
  | cons event events ih =>
      obtain ⟨first, rest⟩ := Bool.and_eq_true_iff.mp legal
      refine ih ?_ rest
      unfold execD
      cases run : exec event s with
      | error fault => exact reach
      | ok s' =>
          refine reach.step ?_ run
          cases event with
          | loop sensors stack =>
              intro blocked
              simpa [blocked] using first
          | _ => trivial

/-- One output on pin 7, without a source, after `can_node_init`. -/
def oneOutput : LoopState 1 0 :=
  { node :=
      { nodeId := 1
        sem := 0
        waiting := false
        reqs := {}
        outputs := fun _ => { state := false, manualState := false, pin := 7, srcs := fun _ => false }
        config := fun _ => { mode := modeAuto, sources := fun j => j.elim0 } }
    pc := .wait
    pins := fun _ => false
    driven := fun _ => false
    sent := [] }

/-- The frame that asks node 1 to switch its output 0 on. -/
def manualOn : CanFrame :=
  { id := canIdBuild 5 1 499
    flags := canFrameFlagExt
    dataLength := 2
    data := #v[0, 3, 0, 0, 0, 0, 0, 0] }

/-- The loop blocks, the request wakes it up, and it goes through an iteration. -/
def manualOnEvents : List Event :=
  .loop [] noStack :: .outputCallback manualOn :: List.replicate 15 (.loop [] noStack)

/-- After the iteration the output is on, and so is its pin. -/
theorem reachable_idle_manualOn :
    let s := manualOnEvents.foldl execD oneOutput
    s.pc = .wait ∧ expected s.node 0 = true ∧ (s.node.outputs 0).state = true ∧
      s.pins 7 = true := by
  intro s
  have initial : Initial oneOutput :=
    ⟨rfl, rfl, rfl, rfl, fun _ => rfl, fun _ => rfl, fun _ _ => rfl, fun _ => rfl, fun _ => rfl⟩
  have reach : Reachable s := (Reachable.init initial).execAll (by decide +kernel)
  have idle : s.pc = .wait ∧ s.node.reqs.output = false ∧ expected s.node 0 = true ∧
      (s.node.outputs 0).pin = 7 := by
    decide +kernel
  obtain ⟨pc, clear, on, pin⟩ := idle
  obtain ⟨state, -, level⟩ := reachable_idle s reach (.inl pc) clear 0
  refine ⟨pc, on, state.trans on, ?_⟩
  rw [← pin]
  exact (level fun k _ => Subsingleton.elim k 0).trans on

end TheFirmware.CanNode
