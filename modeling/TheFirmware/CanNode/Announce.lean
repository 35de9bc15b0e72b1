import TheFirmware.CanNode.Loop

/-!
# The frames of an iteration of `can_node_loop`

An iteration of the loop that no callback interrupts, from `can_node_fetch_clear_reqs` to the next
`semaphore_wait`. It switches every output to the state it should have (`expected`) and then
compares the two to find out whether the output has changed. They are equal by then, so that only a
request for a response makes it send a frame (`iteration_announces_iff`).
-/

namespace TheFirmware.CanNode

variable {n m : Nat}

/-- The loop up to the next `semaphore_wait`. `stack` gives the bytes on the stack at each
statement. -/
def LoopState.iterate (sensors : List Sensor) (stack : Pc n → Vector UInt8 8) :
    Nat → LoopState n m → Except Fault (LoopState n m)
  | 0, _ => .error .outOfFuel
  | fuel + 1, s => do
      let s ← s.step sensors (stack s.pc)
      if s.pc = .wait then return s else s.iterate sensors stack fuel

/-- A frame on the topic of the outputs tells every node the state and the mode of output `i`. -/
structure Announces (i : Fin n) (state : Bool) (mode : UInt8) (frame : CanFrame) : Prop where
  topic : canIdExtractTopic frame.id = 499
  receiver : canIdExtractTo frame.id = canNodeBroadcastId
  length : frame.dataLength = 2
  index : frame.data.get 0 = i.val.toUInt8
  on : (frame.data.get 1 &&& 0x1 ≠ 0) ↔ state = true
  manual : (frame.data.get 1 &&& 0x2 ≠ 0) ↔ mode = modeManual

/-- The frame of an output. -/
def outputFrame (nodeId : UInt16) (i : Fin n) (status : UInt8) (stack : Vector UInt8 8) :
    CanFrame :=
  { id := canIdBuild nodeId canNodeBroadcastId 499
    flags := canFrameFlagExt
    dataLength := 2
    data := memcpy8 stack ([i.val.toUInt8, status].getD · 0) 2 }

/-! ## Frames -/

theorem canIdExtractTopic_canIdBuild (sender receiver topic : UInt16) :
    canIdExtractTopic (canIdBuild sender receiver topic) = topic &&& 0x1FF := by
  apply UInt16.toBitVec_inj.mp
  apply BitVec.eq_of_getLsbD_eq
  intro i bound
  simp only [canIdExtractTopic, canIdBuild]
  simp
  interval_cases i <;> simp

theorem canIdExtractTo_canIdBuild (sender receiver topic : UInt16) :
    canIdExtractTo (canIdBuild sender receiver topic) = receiver &&& 0x3FF := by
  apply UInt16.toBitVec_inj.mp
  apply BitVec.eq_of_getLsbD_eq
  intro i bound
  simp only [canIdExtractTo, canIdBuild]
  simp
  interval_cases i <;> simp

section Frames

variable {nodeId : UInt16} {i : Fin n} {status mode : UInt8} {state : Bool}
  {stack : Vector UInt8 8} {sensor : Sensor} {q : Quantity} {idx : UInt8} {value : Int32}
  {frame : CanFrame}

theorem canNodeSend_output :
    canNodeSend nodeId 499 canNodeBroadcastId [i.val.toUInt8, status] stack =
      .ok (outputFrame nodeId i status stack) := by
  rw [canNodeSend, assert_pos (by decide), Except.ok_bind, assert_pos (by simp)]
  rfl

theorem payloadStatus_bits (state : Bool) (mode : UInt8) :
    (payloadStatus state mode &&& 0x1 ≠ 0 ↔ state = true) ∧
      (payloadStatus state mode &&& 0x2 ≠ 0 ↔ mode = modeManual) := by
  have bits : ∀ state manual : Bool,
      ((((if state then 0x1 else 0) ||| (if manual then 0x2 else 0) : UInt8) &&& 0x1 ≠ 0) ↔
        state = true) ∧
      ((((if state then 0x1 else 0) ||| (if manual then 0x2 else 0) : UInt8) &&& 0x2 ≠ 0) ↔
        manual = true) := by decide
  have both := bits state (decide (mode = modeManual))
  simp only [decide_eq_true_eq] at both
  exact both

theorem announces_outputFrame :
    Announces i state mode (outputFrame nodeId i (payloadStatus state mode) stack) := by
  have first : (outputFrame nodeId i (payloadStatus state mode) stack).data[0] =
      i.val.toUInt8 := by simp [outputFrame, memcpy8]
  have second : (outputFrame nodeId i (payloadStatus state mode) stack).data[1] =
      payloadStatus state mode := by simp [outputFrame, memcpy8]
  obtain ⟨on, manual⟩ := payloadStatus_bits state mode
  rw [← second] at on manual
  exact ⟨canIdExtractTopic_canIdBuild .., canIdExtractTo_canIdBuild .., rfl, first, on, manual⟩

/-- The frames of the sensors are on another topic. -/
theorem publishSensors_returns (nodeId : UInt16) (stack : Vector UInt8 8) (sensors : List Sensor)
    (idx : UInt8) : ∃ frames, publishSensors nodeId stack sensors idx = .ok frames ∧
      ∀ frame ∈ frames, canIdExtractTopic frame.id = 500 := by
  induction sensors generalizing idx with
  | nil => exact ⟨[], rfl, by simp⟩
  | cons sensor sensors ih =>
      obtain ⟨rest, ran, topics⟩ := ih (idx + 1)
      have published : ∃ frames, canNodeLoopPublishSensor nodeId sensor idx stack =
          .ok (frames, idx + 1) := by
        simp only [canNodeLoopPublishSensor, publishQuantity_eq, Except.ok_bind]
        exact ⟨_, rfl⟩
      obtain ⟨frames, published⟩ := published
      refine ⟨frames ++ rest, ?_, ?_⟩
      · rw [publishSensors, published, Except.ok_bind]
        simp only [ran, Except.ok_bind]
        rfl
      · intro frame mem
        rcases List.mem_append.mp mem with mem | mem
        · obtain ⟨q, value, -, -, rfl⟩ := (mem_canNodeLoopPublishSensor published).mp mem
          exact canIdExtractTopic_canIdBuild ..
        · exact topics frame mem

end Frames

/-! ## The iteration -/

/-- The output as the loop leaves it. -/
def LoopState.settle (s : LoopState n m) (i : Fin n) : LoopState n m :=
  if (s.node.outputs i).state ≠ expected s.node i then
    (s.setState i (expected s.node i)).gpioSet i (expected s.node i)
  else s

/-- The frames of the outputs from `i` on. -/
def outputFrames (reqs : Reqs) (stack : Pc n → Vector UInt8 8) (node : Node n m) (i : Nat) :
    List CanFrame :=
  if reqs.outputResponse then
    ((List.finRange n).drop i).map fun k =>
      let status := payloadStatus (expected node k) (node.config k).mode
      outputFrame node.nodeId k status (stack (.send reqs k status))
  else []

section Iteration

variable {s s' : LoopState n m} {reqs : Reqs} {sensors : List Sensor}
  {stack : Pc n → Vector UInt8 8} {i : Fin n} {k : Nat} {state : Bool}

theorem iterate_step (s₁ : LoopState n m) (step : s.step sensors (stack s.pc) = .ok s₁)
    (goesOn : s₁.pc ≠ .wait) (rest : Returns (fun fuel => s₁.iterate sensors stack fuel) s') :
    Returns (fun fuel => s.iterate sensors stack fuel) s' := by
  refine Returns.succ ?_
  simp only [LoopState.iterate, step, Except.ok_bind, if_neg goesOn]
  exact rest

/-- The loop over the sources finds out whether one of them is on. -/
theorem iterate_sources {j : Nat} (pc : s.pc = .source reqs i j) (low : j ≤ m)
    (auto : (s.node.config i).mode ≠ modeManual)
    (off : ∀ j' : Fin m, j' < j → (s.node.outputs i).srcs j' = false)
    (rest : Returns (fun fuel =>
      (s.goto (.compare reqs i (expected s.node i))).iterate sensors stack fuel) s') :
    Returns (fun fuel => s.iterate sensors stack fuel) s' := by
  induction left : m - j generalizing s j with
  | zero =>
      have all : ¬ j < m := by omega
      have known : expected s.node i = false :=
        expected_of_off auto fun j' => off j' (by omega)
      rw [known] at rest
      refine iterate_step (s.goto (.compare reqs i false)) ?_ (by simp [LoopState.goto]) rest
      simp only [LoopState.step, pc, dif_neg all]
      rfl
  | succ left ih =>
      have bound : j < m := by omega
      by_cases on : (s.node.outputs i).srcs ⟨j, bound⟩ = true
      · have known : expected s.node i = true := expected_of_on auto on
        rw [known] at rest
        refine iterate_step (s.goto (.compare reqs i true)) ?_ (by simp [LoopState.goto]) rest
        simp only [LoopState.step, pc, dif_pos bound, if_pos on]
        rfl
      · refine iterate_step (s.goto (.source reqs i (j + 1))) ?_ (by simp [LoopState.goto]) ?_
        · simp only [LoopState.step, pc, dif_pos bound, if_neg on]
          rfl
        · refine ih rfl bound auto (fun j' below => ?_) rest (by omega)
          rcases Nat.lt_succ_iff_lt_or_eq.mp below with below | here
          · exact off j' below
          · have same : j' = ⟨j, bound⟩ := Fin.ext here
            rw [same]
            exact Bool.not_eq_true _ ▸ on

theorem iterate_mode (pc : s.pc = .mode reqs i)
    (rest : Returns (fun fuel =>
      (s.goto (.compare reqs i (expected s.node i))).iterate sensors stack fuel) s') :
    Returns (fun fuel => s.iterate sensors stack fuel) s' := by
  by_cases manual : (s.node.config i).mode = modeManual
  · have known : expected s.node i = (s.node.outputs i).manualState := if_pos manual
    rw [known] at rest
    refine iterate_step (s.goto (.manual reqs i)) ?_ (by simp [LoopState.goto]) ?_
    · simp only [LoopState.step, pc, if_pos manual]
      rfl
    · exact iterate_step _ rfl (by simp [LoopState.goto]) rest
  · refine iterate_step (s.goto (.source reqs i 0)) ?_ (by simp [LoopState.goto]) ?_
    · simp only [LoopState.step, pc, if_neg manual]
      rfl
    · exact iterate_sources rfl (Nat.zero_le m) manual (fun _ below => absurd below (by simp)) rest

theorem iterate_compare (pc : s.pc = .compare reqs i (expected s.node i))
    (rest : Returns (fun fuel => ((s.settle i).goto (.respond reqs i (expected s.node i))).iterate
      sensors stack fuel) s') :
    Returns (fun fuel => s.iterate sensors stack fuel) s' := by
  unfold LoopState.settle at rest
  by_cases changed : (s.node.outputs i).state ≠ expected s.node i
  · rw [if_pos changed] at rest
    refine iterate_step (s.goto (.assign reqs i (expected s.node i))) ?_ (by simp [LoopState.goto])
      ?_
    · simp only [LoopState.step, pc, if_pos changed]
      rfl
    · refine iterate_step _ rfl (by simp [LoopState.goto]) ?_
      exact iterate_step _ rfl (by simp [LoopState.goto]) rest
  · rw [if_neg changed] at rest
    refine iterate_step _ ?_ ?_ rest
    · simp only [LoopState.step, pc, if_neg changed]
      rfl
    · simp [LoopState.goto]

/-- The state of the output has been set by now, so that the comparison finds no difference. -/
theorem iterate_respond (pc : s.pc = .respond reqs i state)
    (same : (s.node.outputs i).state = state)
    (rest : Returns (fun fuel => ({ s with sent := s.sent ++ if reqs.outputResponse then
        [outputFrame s.node.nodeId i (payloadStatus state (s.node.config i).mode)
          (stack (.send reqs i (payloadStatus state (s.node.config i).mode)))] else [] }.goto
      (.output reqs (i + 1))).iterate sensors stack fuel) s') :
    Returns (fun fuel => s.iterate sensors stack fuel) s' := by
  by_cases response : reqs.outputResponse = true
  · rw [if_pos response] at rest
    have responds : (s.node.outputs i).state ≠ state ∨ reqs.outputResponse = true := .inr response
    refine iterate_step (s.goto (.payload reqs i state)) ?_ (by simp [LoopState.goto]) ?_
    · simp only [LoopState.step, pc, if_pos responds]
      rfl
    · refine iterate_step _ rfl (by simp [LoopState.goto]) ?_
      refine iterate_step _ ?_ ?_ rest
      · simp only [LoopState.step, LoopState.goto, canNodeSend_output, Except.ok_bind]
        rfl
      · simp [LoopState.goto]
  · rw [if_neg response, List.append_nil] at rest
    have silent : ¬ ((s.node.outputs i).state ≠ state ∨ reqs.outputResponse = true) := by
      rw [not_or, not_not]
      exact ⟨same, response⟩
    refine iterate_step _ ?_ ?_ rest
    · simp only [LoopState.step, pc, if_neg silent]
      rfl
    · simp [LoopState.goto]

theorem settle_state (k : Fin n) :
    ((s.settle i).node.outputs k).state =
      if k = i then expected s.node i else (s.node.outputs k).state := by
  unfold LoopState.settle
  by_cases changed : (s.node.outputs i).state ≠ expected s.node i
  · rw [if_pos changed]
    by_cases same : k = i
    · subst same
      simp [LoopState.gpioSet, LoopState.setState]
    · simp [LoopState.gpioSet, LoopState.setState, same]
  · rw [if_neg changed]
    split
    · next same =>
        rw [same]
        exact not_not.mp changed
    · rfl

theorem settle_same :
    (s.settle i).node.config = s.node.config ∧ (s.settle i).node.nodeId = s.node.nodeId ∧
      (s.settle i).sent = s.sent ∧ ∀ k, expected (s.settle i).node k = expected s.node k := by
  unfold LoopState.settle
  split
  · refine ⟨rfl, rfl, rfl, fun k => ?_⟩
    by_cases same : k = i
    · subst same
      exact expected_congr rfl (by simp [LoopState.gpioSet, LoopState.setState])
        (by simp [LoopState.gpioSet, LoopState.setState])
    · exact expected_congr rfl (by simp [LoopState.gpioSet, LoopState.setState, same])
        (by simp [LoopState.gpioSet, LoopState.setState, same])
  · exact ⟨rfl, rfl, rfl, fun _ => rfl⟩

theorem settle_goto (pc : Pc n) : (s.goto pc).settle i = (s.settle i).goto pc := by
  unfold LoopState.settle
  by_cases changed : (s.node.outputs i).state ≠ expected s.node i
  · rw [if_pos changed]
    exact if_pos changed
  · rw [if_neg changed]
    exact if_neg changed

theorem outputFrames_of_last (last : n ≤ k) (node : Node n m) :
    outputFrames reqs stack node k = [] := by
  unfold outputFrames
  rw [List.drop_eq_nil_of_le (by simpa using last)]
  simp

theorem outputFrames_succ (i : Fin n) (node : Node n m) :
    outputFrames reqs stack node i =
      (if reqs.outputResponse then
        [outputFrame node.nodeId i (payloadStatus (expected node i) (node.config i).mode)
          (stack (.send reqs i (payloadStatus (expected node i) (node.config i).mode)))]
        else []) ++ outputFrames reqs stack node (i + 1) := by
  have first : (List.finRange n).drop i = i :: (List.finRange n).drop (i + 1) := by
    rw [List.drop_eq_getElem_cons (by simp)]
    simp
  unfold outputFrames
  by_cases response : reqs.outputResponse = true
  · rw [if_pos response, if_pos response, if_pos response, first]
    rfl
  · rw [if_neg response, if_neg response, if_neg response]
    rfl

theorem outputFrames_congr {node node' : Node n m} (config : node'.config = node.config)
    (nodeId : node'.nodeId = node.nodeId) (same : ∀ k, expected node' k = expected node k) :
    outputFrames reqs stack node' k = outputFrames reqs stack node k := by
  unfold outputFrames
  rw [config, nodeId]
  simp only [same]

/-- The loop over the outputs: those from `k` on get the states they should have, and their frames
are sent if a response has been requested. -/
theorem iterate_outputs (sensors : List Sensor) (stack : Pc n → Vector UInt8 8)
    (pc : s.pc = .output reqs k) :
    ∃ s', Returns (fun fuel => s.iterate sensors stack fuel) s' ∧
      (∀ i : Fin n, (s'.node.outputs i).state =
        if k ≤ i then expected s.node i else (s.node.outputs i).state) ∧
      s'.node.config = s.node.config ∧
      s'.sent = s.sent ++ outputFrames reqs stack s.node k := by
  induction left : n - k generalizing s k with
  | zero =>
      have last : ¬ k < n := by omega
      refine ⟨(s.goto (.save reqs)).goto .wait, ?_, fun i => ?_, rfl, ?_⟩
      · refine iterate_step (s.goto (.save reqs)) ?_ (by simp [LoopState.goto]) ?_
        · simp only [LoopState.step, pc, dif_neg last]
          rfl
        · exact Returns.succ ⟨0, fun fuel _ => rfl⟩
      · rw [if_neg (by omega)]
        rfl
      · rw [outputFrames_of_last (by omega), List.append_nil]
        rfl
  | succ left ih =>
      have bound : k < n := by omega
      let i : Fin n := ⟨k, bound⟩
      obtain ⟨config, nodeId, sent, known⟩ := settle_same (s := s) (i := i)
      -- the state in which the body of the loop leaves the node
      let s₁ : LoopState n m := { s.settle i with
        sent := (s.settle i).sent ++ if reqs.outputResponse then
          [outputFrame (s.settle i).node.nodeId i
            (payloadStatus (expected s.node i) ((s.settle i).node.config i).mode)
            (stack (.send reqs i
              (payloadStatus (expected s.node i) ((s.settle i).node.config i).mode)))] else [] }
      obtain ⟨s', returns, states, configs, frames⟩ :=
        ih (s := s₁.goto (.output reqs (i + 1))) (k := k + 1) rfl (by omega)
      refine ⟨s', ?_, fun l => ?_, configs.trans config, ?_⟩
      · refine iterate_step (s.goto (.mode reqs i)) ?_ (by simp [LoopState.goto]) ?_
        · simp only [LoopState.step, pc, dif_pos bound]
          rfl
        · have settled := settle_state (s := s) (i := i) i
          rw [if_pos rfl] at settled
          refine iterate_mode rfl (iterate_compare rfl ?_)
          simp only [settle_goto]
          exact iterate_respond (s := (s.settle i).goto (.respond reqs i (expected s.node i))) rfl
            settled returns
      · rw [states l]
        show (if k + 1 ≤ ↑l then expected (s.settle i).node l
          else ((s.settle i).node.outputs l).state) = _
        rw [known, settle_state]
        by_cases here : l = i
        · have value : (l : Nat) = k := congrArg Fin.val here
          rw [if_pos here, if_neg (by omega), if_pos (by omega), here]
        · have value : (l : Nat) ≠ k := fun same => here (Fin.ext same)
          rw [if_neg here]
          by_cases behind : k ≤ l
          · rw [if_pos behind, if_pos (by omega)]
          · rw [if_neg behind, if_neg (by omega)]
      · rw [frames, outputFrames_succ i s.node]
        show (s.settle i).sent ++ _ ++ outputFrames reqs stack (s.settle i).node (k + 1) = _
        rw [outputFrames_congr config nodeId known, config, nodeId, sent, List.append_assoc]

/-- The requests are fetched, and the sensors are published on another topic. -/
theorem iterate_fetch (sensors : List Sensor) (stack : Pc n → Vector UInt8 8)
    (fetch : s.pc = .fetch) :
    ∃ frames : List CanFrame, (∀ frame ∈ frames, canIdExtractTopic frame.id = 500) ∧
      ∀ s', Returns (fun fuel => ({ s with
          node := { s.node with reqs := {} }
          sent := s.sent ++ frames }.goto (.check s.node.reqs)).iterate sensors stack fuel) s' →
        Returns (fun fuel => s.iterate sensors stack fuel) s' := by
  have fetched : s.step sensors (stack s.pc) = .ok s.fetchClearReqs := by
    simp only [LoopState.step, fetch]
    rfl
  by_cases requested : s.node.reqs.sensors = true
  · obtain ⟨frames, published, topics⟩ :=
      publishSensors_returns s.node.nodeId (stack (.sensors s.node.reqs)) sensors 0
    refine ⟨frames, topics, fun s' rest => ?_⟩
    refine iterate_step _ fetched (by simp [LoopState.fetchClearReqs, LoopState.goto]) ?_
    refine iterate_step _ ?_ ?_ rest
    · simp only [LoopState.step, LoopState.fetchClearReqs, LoopState.goto, if_pos requested,
        published, Except.ok_bind]
      rfl
    · simp [LoopState.goto]
  · refine ⟨[], by simp, fun s' rest => ?_⟩
    rw [List.append_nil] at rest
    refine iterate_step _ fetched (by simp [LoopState.fetchClearReqs, LoopState.goto]) ?_
    refine iterate_step _ ?_ ?_ rest
    · simp only [LoopState.step, LoopState.fetchClearReqs, LoopState.goto, if_neg requested]
      rfl
    · simp [LoopState.goto]

/-- An iteration: the outputs have the states they should have if one of the bits for them was set,
and their frames are sent if a response was requested. -/
theorem iterate_returns (sensors : List Sensor) (stack : Pc n → Vector UInt8 8)
    (fetch : s.pc = .fetch) :
    ∃ s' frames, Returns (fun fuel => s.iterate sensors stack fuel) s' ∧
      (∀ frame ∈ frames, canIdExtractTopic frame.id = 500) ∧
      (∀ i, (s'.node.outputs i).state =
        if s.node.reqs.output || s.node.reqs.outputResponse then expected s.node i
        else (s.node.outputs i).state) ∧
      s'.node.config = s.node.config ∧
      s'.sent = s.sent ++ (frames ++ outputFrames s.node.reqs stack s.node 0) := by
  obtain ⟨frames, topics, continues⟩ := iterate_fetch sensors stack fetch
  by_cases requested : (s.node.reqs.output || s.node.reqs.outputResponse) = true
  · obtain ⟨s', returns, states, config, sent⟩ := iterate_outputs sensors stack
      (s := { s with
        node := { s.node with reqs := {} }
        sent := s.sent ++ frames }.goto (.output s.node.reqs 0)) rfl
    refine ⟨s', frames, continues s' (iterate_step _ ?_ (by simp [LoopState.goto]) returns), topics,
      fun i => ?_, config, ?_⟩
    · simp only [LoopState.step, LoopState.goto, if_pos requested]
      rfl
    · rw [states i, if_pos (Nat.zero_le _), if_pos requested]
      rfl
    · rw [sent, ← List.append_assoc]
      rfl
  · have silent : outputFrames s.node.reqs stack s.node 0 = [] := by
      refine if_neg fun response => requested ?_
      rw [response, Bool.or_true]
    refine ⟨{ s with
        node := { s.node with reqs := {} }
        sent := s.sent ++ frames }.goto .wait, frames, continues _ ?_, topics, fun i => ?_, rfl, ?_⟩
    · refine iterate_step ({ s with
          node := { s.node with reqs := {} }
          sent := s.sent ++ frames }.goto (.save s.node.reqs)) ?_ (by simp [LoopState.goto]) ?_
      · simp only [LoopState.step, LoopState.goto, if_neg requested]
        rfl
      · exact Returns.succ ⟨0, fun fuel _ => rfl⟩
    · rw [if_neg requested]
      rfl
    · rw [silent, List.append_nil]
      rfl

end Iteration

/-! ## Announcing -/

/-- From `s` to `s'` a frame has been sent for every output whose state has changed, and for every
output if a response was requested, with the state and the mode of the output in it. -/
def AnnouncesChanges (s s' : LoopState n m) : Prop :=
  ∀ i, (s'.node.outputs i).state ≠ (s.node.outputs i).state ∨ s.node.reqs.outputResponse = true →
    ∃ frame ∈ s'.sent.drop s.sent.length,
      Announces i (s'.node.outputs i).state (s'.node.config i).mode frame

/-- No output has to be switched unless a response is requested. -/
def SwitchesOnlyWithResponse (s : LoopState n m) : Prop :=
  s.node.reqs.outputResponse = true ∨ s.node.reqs.output = false ∨
    ∀ i, (s.node.outputs i).state = expected s.node i

/-- **Announcing the outputs**: every iteration of `can_node_loop` returns to `semaphore_wait`, and
it sends a frame for every output that it has switched, and for every output when a response was
requested, exactly when a response was requested or no output had to be switched. -/
theorem iteration_announces_iff (sensors : List Sensor) (stack : Pc n → Vector UInt8 8)
    (s : LoopState n m) (fetch : s.pc = .fetch) :
    ∃ s', Returns (fun fuel => s.iterate sensors stack fuel) s' ∧
      (AnnouncesChanges s s' ↔ SwitchesOnlyWithResponse s) := by
  obtain ⟨s', frames, returns, topics, states, config, sent⟩ := iterate_returns sensors stack fetch
  have news : s'.sent.drop s.sent.length =
      frames ++ outputFrames s.node.reqs stack s.node 0 := by
    rw [sent, List.drop_left]
  refine ⟨s', returns, ?_, ?_⟩
  · intro announces
    by_contra switches
    unfold SwitchesOnlyWithResponse at switches
    obtain ⟨response, output, changed⟩ : s.node.reqs.outputResponse = false ∧
        s.node.reqs.output = true ∧ ∃ i, (s.node.outputs i).state ≠ expected s.node i := by
      simpa using switches
    obtain ⟨i, changed⟩ := changed
    have silent : outputFrames s.node.reqs stack s.node 0 = [] := if_neg (by simp [response])
    have switched : (s'.node.outputs i).state ≠ (s.node.outputs i).state := by
      rw [states i, output, Bool.true_or, if_pos rfl]
      exact Ne.symm changed
    obtain ⟨frame, mem, announced⟩ := announces i (.inl switched)
    rw [news, silent, List.append_nil] at mem
    have other := topics frame mem
    rw [announced.topic] at other
    exact absurd other (by decide)
  · intro silently i reason
    have response : s.node.reqs.outputResponse = true := by
      rcases silently with response | output | same
      · exact response
      · rcases reason with switched | response
        · rw [states i, output, Bool.false_or] at switched
          by_contra silent
          exact switched (if_neg silent)
        · exact response
      · rcases reason with switched | response
        · rw [states i, same i, ite_self] at switched
          exact absurd rfl switched
        · exact response
    have state : (s'.node.outputs i).state = expected s.node i := by
      rw [states i, response, Bool.or_true, if_pos rfl]
    let status := payloadStatus (s'.node.outputs i).state (s'.node.config i).mode
    refine ⟨outputFrame s.node.nodeId i status (stack (.send s.node.reqs i status)), ?_,
      announces_outputFrame⟩
    simp only [status, news, state, config]
    refine List.mem_append_right _ ?_
    unfold outputFrames
    rw [if_pos response, List.drop_zero]
    exact List.mem_map.mpr ⟨i, List.mem_finRange i, rfl⟩

/-- The node with one output, which has been switched on manually, at
`can_node_fetch_clear_reqs`. -/
def switchedOn (reqs : Reqs) : LoopState 1 0 :=
  { oneOutput with
    node := { oneOutput.node with
      reqs := reqs
      outputs := fun _ => { oneOutput.node.outputs 0 with manualState := true }
      config := fun _ => { oneOutput.node.config 0 with mode := modeManual } }
    pc := .fetch }

/-- With a request for a response the change is announced. -/
theorem iteration_announces_iff_response :
    ∃ s', Returns (fun fuel => (switchedOn { output := true, outputResponse := true }).iterate []
        (fun _ => noStack) fuel) s' ∧
      AnnouncesChanges (switchedOn { output := true, outputResponse := true }) s' := by
  obtain ⟨s', returns, announces⟩ := iteration_announces_iff [] (fun _ => noStack)
    (switchedOn { output := true, outputResponse := true }) rfl
  exact ⟨s', returns, announces.mpr (.inl rfl)⟩

/-- The output is switched on, and no frame is sent. -/
theorem switched_unannounced :
    ¬ ∀ (s : LoopState 1 0) (sensors : List Sensor) (stack : Pc 1 → Vector UInt8 8), s.pc = .fetch →
      ∃ s', Returns (fun fuel => s.iterate sensors stack fuel) s' ∧ AnnouncesChanges s s' := by
  intro claim
  obtain ⟨s', returns, announces⟩ := claim (switchedOn { output := true }) [] (fun _ => noStack) rfl
  obtain ⟨bound, ran⟩ := returns
  have sent : s'.sent = [] ∧ (s'.node.outputs 0).state = true := by
    have ran := ran (bound + 12) (Nat.le_add_right ..)
    cases ran
    exact ⟨rfl, rfl⟩
  have switched : (s'.node.outputs 0).state ≠
      ((switchedOn { output := true }).node.outputs 0).state := by
    rw [sent.2]
    decide
  obtain ⟨frame, mem, -⟩ := announces 0 (.inl switched)
  rw [sent.1] at mem
  cases mem

end TheFirmware.CanNode
