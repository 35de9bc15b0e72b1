import TheFirmware.CanNode.Network

/-!
# Nodes do not set each other off

Apart from its readings, and the discovery response of `can_node_init`, a node sends only what it is
asked for: the state of each output for a command, and one response for a discovery request. None of
it is a command or a request to another node. So what the nodes send is bounded by what other devices
have asked (`network_quiet`), however many nodes there are and whatever is lost.

The answers a node still owes are those of the iteration of `can_node_loop` that is going on, those
for the bit `kCanNodeWorkReqOutputResponse`, and those for the commands that wait for the interrupt.
-/

namespace TheFirmware.CanNode

variable {κ : Type} {n m : Nat}

/-- The message is on the topic of the outputs. -/
def isOutput (msg : CanRomMsg) : Bool := canIdExtractTopic msg.modeId = 499

/-- The message is on the topic of the discovery. -/
def isDiscovery (msg : CanRomMsg) : Bool := canIdExtractTopic msg.modeId = 511

/-- The callback for the discovery may take the message for a request. -/
def isRequest (msg : CanRomMsg) : Bool :=
  discoveryFilter.accepts msg && !(1 ≤ msg.dlc && msg.data.toList.getD 0 0 &&& 0x1 ≠ 0)

/-- The answers for `k` outputs, if they are requested. -/
def Reqs.answers (reqs : Reqs) (k : Nat) : Nat := if reqs.outputResponse then k else 0

/-- The answers that the iteration can still send. -/
def Pc.remaining : Pc n → Nat
  | .sensors reqs | .check reqs => reqs.answers n
  | .output reqs i => reqs.answers (n - i)
  | .mode reqs i | .manual reqs i => reqs.answers (n - i)
  | .source reqs i _ | .compare reqs i _ | .assign reqs i _ | .drive reqs i _ | .respond reqs i _
  | .payload reqs i _ | .send reqs i _ => reqs.answers (n - i)
  | .wait | .blocked | .fetch | .save _ => 0

/-- The answers that the statement sends. -/
def Pc.sends : Pc n → Nat
  | .send _ _ _ => 1
  | _ => 0

/-- The answers that the node can still send for the commands it has taken. -/
def LoopState.owed (s : LoopState n m) : Nat := s.pc.remaining + s.node.reqs.answers n

/-- The loop answers only where it has been asked to: the state it compares is the one it has
assigned. -/
def LoopState.Answers (s : LoopState n m) : Prop :=
  match s.pc with
  | .drive _ i state => (s.node.outputs i).state = state
  | .respond _ i state => (s.node.outputs i).state = state
  | .payload reqs _ _ => reqs.outputResponse = true
  | .send reqs _ _ => reqs.outputResponse = true
  | _ => True

section Loop

variable {s s' : LoopState n m} {node : Node n m} {sensors : List Sensor} {stack : Vector UInt8 8}
  {frame : CanFrame} {reqs : Reqs} {i : Nat}

theorem LoopState.Answers.step (answers : s.Answers) (run : s.step sensors stack = .ok s') :
    s'.Answers := by
  unfold LoopState.Answers at answers
  cases pc : s.pc with
  | wait =>
      simp only [LoopState.step, pc, LoopState.semWait] at run
      cases run
      split_ifs <;> trivial
  | sensors reqs =>
      simp only [LoopState.step, pc] at run
      split_ifs at run
      · rw [publishSensors_eq, Except.ok_bind] at run
        cases run
        trivial
      · cases run
        trivial
  | compare reqs i state =>
      simp only [LoopState.step, pc] at run
      split_ifs at run with differs
      · cases run
        trivial
      · cases run
        exact not_not.mp differs
  | assign reqs i state =>
      simp only [LoopState.step, pc] at run
      cases run
      show ((s.setState i state).node.outputs i).state = state
      simp [LoopState.setState]
  | drive reqs i state =>
      simp only [LoopState.step, pc] at run
      cases run
      rw [pc] at answers
      exact answers
  | respond reqs i state =>
      simp only [LoopState.step, pc] at run
      rw [pc] at answers
      split_ifs at run with asked
      · cases run
        exact asked.resolve_left fun differs => differs answers
      · cases run
        trivial
  | payload reqs i state =>
      simp only [LoopState.step, pc] at run
      cases run
      rw [pc] at answers
      exact answers
  | send reqs i status =>
      simp only [LoopState.step, pc] at run
      rw [canNodeSend_output, Except.ok_bind] at run
      cases run
      trivial
  | _ =>
      simp only [LoopState.step, pc] at run
      (try split_ifs at run) <;> (cases run; trivial)

/-- Interrupts leave the states of the outputs alone. -/
theorem LoopState.Answers.interrupted (answers : s.Answers) (same : Interrupted s.node node) :
    { s with node := node }.Answers := by
  unfold LoopState.Answers at answers ⊢
  cases pc : s.pc with
  | drive reqs i state =>
      rw [pc] at answers
      exact (same.state i).trans answers
  | respond reqs i state =>
      rw [pc] at answers
      exact (same.state i).trans answers
  | payload reqs i state =>
      rw [pc] at answers
      exact answers
  | send reqs i status =>
      rw [pc] at answers
      exact answers
  | _ => trivial

theorem Reqs.answers_le (reqs : Reqs) (k : Nat) : reqs.answers k ≤ k := by
  unfold Reqs.answers
  split_ifs
  · exact le_rfl
  · exact Nat.zero_le k

theorem Reqs.answers_mono (reqs : Reqs) {k l : Nat} (le : k ≤ l) :
    reqs.answers k ≤ reqs.answers l := by
  unfold Reqs.answers
  split_ifs
  · exact le
  · exact le_rfl

theorem owed_of_remaining (le : s.pc.sends + s'.pc.remaining ≤ s.pc.remaining)
    (same : s'.node.reqs = s.node.reqs) : s.pc.sends + s'.owed ≤ s.owed := by
  unfold LoopState.owed
  rw [same]
  omega

/-- An answer is taken off what the loop owes, and nothing is added. -/
theorem owed_step (answers : s.Answers) (run : s.step sensors stack = .ok s') :
    s.pc.sends + s'.owed ≤ s.owed := by
  cases pc : s.pc with
  | wait =>
      simp only [LoopState.step, pc, LoopState.semWait] at run
      cases run
      unfold LoopState.owed
      split_ifs <;> simp [LoopState.goto, Pc.remaining, Pc.sends]
  | fetch =>
      simp only [LoopState.step, pc] at run
      cases run
      simp [LoopState.owed, LoopState.fetchClearReqs, LoopState.goto, Pc.remaining, Pc.sends,
        Reqs.answers, pc]
  | sensors reqs =>
      simp only [LoopState.step, pc] at run
      rw [← pc]
      split_ifs at run
      · rw [publishSensors_eq, Except.ok_bind] at run
        cases run
        exact owed_of_remaining (by simp [pc, LoopState.goto, Pc.sends, Pc.remaining]) rfl
      · cases run
        exact owed_of_remaining (by simp [pc, LoopState.goto, Pc.sends, Pc.remaining]) rfl
  | send reqs i status =>
      unfold LoopState.Answers at answers
      rw [pc] at answers
      have asked : reqs.outputResponse = true := answers
      simp only [LoopState.step, pc] at run
      rw [canNodeSend_output, Except.ok_bind] at run
      cases run
      rw [← pc]
      refine owed_of_remaining ?_ rfl
      simp only [pc, LoopState.goto, Pc.sends, Pc.remaining, Reqs.answers, asked, if_true]
      omega
  | _ =>
      simp only [LoopState.step, pc] at run
      rw [← pc]
      (try split_ifs at run) <;>
        (cases run; refine owed_of_remaining ?_ rfl
         simp only [pc, LoopState.goto, Pc.sends, Pc.remaining, Nat.zero_add]
         first | exact Nat.zero_le _ | exact Reqs.answers_mono _ (by omega))

theorem sensorCallback_reqs (frame : CanFrame) (node : Node n m) :
    (canNodeSensorCallback frame node).reqs.outputResponse = node.reqs.outputResponse := by
  unfold canNodeSensorCallback
  rcases sensorLoop_cases frame (canIdExtractFrom frame.id) node (sources n m) with
    ⟨same, -⟩ | ⟨-, x, -, -, -, -, stopped⟩
  · rw [same]
  · rw [stopped]
    simp only [switchSrc]
    split_ifs <;> simp [Node.post, Node.setSrc, Reqs.or]

/-- One message asks for the states of all outputs at most. -/
theorem owed_interrupted (s : LoopState n m) (node : Node n m) :
    { s with node := node }.owed ≤ s.owed + n := by
  have := node.reqs.answers_le n
  unfold LoopState.owed
  dsimp only
  omega

theorem owed_of_reqs (same : node.reqs.outputResponse = s.node.reqs.outputResponse) :
    { s with node := node }.owed = s.owed := by
  simp only [LoopState.owed, Reqs.answers, same]

end Loop

/-! ## Topics -/

section Topics

variable {msg : CanRomMsg} {sender receiver topic mask : UInt16}

theorem topic_canIdBuild (sender receiver topic : UInt16) :
    canIdExtractTopic (canIdBuild sender receiver topic ||| lpc11CanExtFlag) = topic &&& 0x1FF := by
  apply UInt16.toBitVec_inj.mp
  apply BitVec.eq_of_getLsbD_eq
  intro i bound
  simp only [canIdExtractTopic, canIdBuild, lpc11CanExtFlag]
  simp
  interval_cases i <;> simp

/-- A message object whose mask has the bits of the topic takes messages of one topic only. -/
theorem topic_of_accepts
    (accepted : Filter.accepts ⟨canIdBuild canNodeBroadcastId receiver topic,
      canIdBuild canNodeBroadcastId mask 0x1FF⟩ msg = true) :
    canIdExtractTopic msg.modeId = topic &&& 0x1FF := by
  have same := of_decide_eq_true accepted
  dsimp only at same
  apply UInt16.toBitVec_inj.mp
  apply BitVec.eq_of_getLsbD_eq
  intro i bound
  have bit : (msg.modeId &&& canIdBuild canNodeBroadcastId mask 0x1FF).toBitVec.getLsbD (i + 20) =
      (canIdBuild canNodeBroadcastId receiver topic &&&
        canIdBuild canNodeBroadcastId mask 0x1FF).toBitVec.getLsbD (i + 20) := by
    rw [same]
  simp only [canIdBuild, canNodeBroadcastId] at bit
  simp only [canIdExtractTopic]
  simp at bit ⊢
  interval_cases i <;> simp_all

/-- What a node sends is no discovery request. -/
theorem Net.Sends.not_isRequest {net : Net κ n m} {k : κ} (sends : net.Sends k msg) :
    isRequest msg = false := by
  have topic : isRequest msg = true → canIdExtractTopic msg.modeId = 511 := by
    intro request
    exact topic_of_accepts (Bool.and_eq_true_iff.mp request).1
  refine Bool.eq_false_iff.mpr fun request => ?_
  have topic := topic request
  cases sends with
  | reading stack measured =>
      rw [canSendMsg_modeId rfl] at topic
      exact absurd ((topic_canIdBuild ..).symm.trans topic) (by decide)
  | output i status stack =>
      rw [canSendMsg_modeId rfl] at topic
      exact absurd ((topic_canIdBuild ..).symm.trans topic) (by decide)
  | discovery receiver stack =>
      have length : (canSendMsg (discoveryFrame (net.node k).node.nodeId (net.sn k) receiver
          stack)).dlc = 5 := rfl
      have byte : (canSendMsg (discoveryFrame (net.node k).node.nodeId (net.sn k) receiver
          stack)).data.toList.getD 0 0 = 3 := by
        simp [canSendMsg, discoveryFrame, memcpy8, discoveryData]
        decide
      have last := (Bool.and_eq_true_iff.mp request).2
      rw [length, byte] at last
      exact absurd last (by decide)

end Topics

/-! ## The books -/

namespace Net

/-- The messages of node `k` on a topic. -/
def sentBy [DecidableEq κ] (net : Net κ n m) (k : κ) (topic : CanRomMsg → Bool) : Nat :=
  net.log.countP fun x => x.1 = some k && topic x.2

/-- The messages of other devices of a kind. -/
def asked (net : Net κ n m) (kind : CanRomMsg → Bool) : Nat :=
  net.log.countP fun x => x.1.isNone && kind x.2

/-- The commands for node `k`. -/
def isCommand (net : Net κ n m) (k : κ) : CanRomMsg → Bool :=
  (outputFilter (net.node k).node.nodeId).accepts

end Net

/-- Every node has sent no more than it has been asked for, what it still owes and what waits
included, and one discovery response if it has been started. `outputs` and `discoveries` are answers
it is about to send. -/
structure Net.Books [DecidableEq κ] (net : Net κ n m) (outputs discoveries : κ → Nat) : Prop where
  answers : ∀ k, (net.node k).Answers
  outputs : ∀ k, outputs k + net.sentBy k isOutput + (net.node k).owed +
    n * (net.inbox k).countP (net.isCommand k) ≤ n * net.asked (net.isCommand k)
  discoveries : ∀ k, discoveries k + net.sentBy k isDiscovery + (net.inbox k).countP isRequest ≤
    net.asked isRequest + (net.started k).toNat

section Runs

variable [DecidableEq κ] {net net' : Net κ n m} {k : κ} {msg : CanRomMsg}

/-- A node sends what it was about to send. -/
theorem Net.Books.send {msgs : List CanRomMsg}
    (books : net.Books (fun u => if u = k then msgs.countP isOutput else 0)
      (fun u => if u = k then msgs.countP isDiscovery else 0))
    (commands : ∀ u, ∀ msg ∈ msgs, net.isCommand u msg = false)
    (requests : ∀ msg ∈ msgs, isRequest msg = false) :
    (net.send (some k) msgs).Books 0 0 := by
  have sentBy : ∀ u topic, (net.send (some k) msgs).sentBy u topic =
      net.sentBy u topic + if u = k then msgs.countP topic else 0 := by
    intro u topic
    unfold Net.sentBy Net.send
    rw [List.countP_append, List.countP_map]
    congr 1
    split_ifs with same
    · subst same
      congr 1
      funext msg
      simp
    · rw [List.countP_eq_zero]
      intro msg _
      have : k ≠ u := fun eq => same eq.symm
      simp [this]
  have asked : ∀ kind, (net.send (some k) msgs).asked kind = net.asked kind := by
    intro kind
    unfold Net.asked Net.send
    rw [List.countP_append, List.countP_map, Nat.add_eq_left, List.countP_eq_zero]
    intro msg _
    simp
  have inbox : ∀ u (kind : CanRomMsg → Bool), (∀ msg ∈ msgs, kind msg = false) →
      ((net.send (some k) msgs).inbox u).countP kind = (net.inbox u).countP kind := by
    intro u kind none
    unfold Net.send
    dsimp only
    split_ifs
    · rfl
    · rw [List.countP_append, Nat.add_eq_left, List.countP_eq_zero]
      intro msg mem
      rw [none msg mem]
      decide
  refine ⟨books.answers, fun u => ?_, fun u => ?_⟩
  · have := books.outputs u
    have waiting := inbox u (net.isCommand u) (commands u)
    have fromOthers := asked (net.isCommand u)
    have fromNode := sentBy u isOutput
    show 0 + _ + (net.node u).owed + n * _ ≤ n * _
    rw [fromNode, show (net.send (some k) msgs).isCommand u = net.isCommand u from rfl, waiting,
      fromOthers]
    omega
  · have := books.discoveries u
    have waiting := inbox u isRequest requests
    have fromOthers := asked isRequest
    have fromNode := sentBy u isDiscovery
    show 0 + _ + _ ≤ _ + (net.started u).toNat
    rw [fromNode, waiting, fromOthers]
    omega

/-- Another device sends. -/
theorem Net.Books.device (books : net.Books 0 0) (msg : CanRomMsg) :
    (net.send none [msg]).Books 0 0 := by
  have sentBy : ∀ u topic, (net.send none [msg]).sentBy u topic = net.sentBy u topic := by
    intro u topic
    unfold Net.sentBy Net.send
    rw [List.countP_append]
    simp
  have asked : ∀ kind, (net.send none [msg]).asked kind =
      net.asked kind + if kind msg then 1 else 0 := by
    intro kind
    unfold Net.asked Net.send
    rw [List.countP_append]
    simp [List.countP_cons]
  have inbox : ∀ u kind, ((net.send none [msg]).inbox u).countP kind =
      (net.inbox u).countP kind + if kind msg then 1 else 0 := by
    intro u kind
    unfold Net.send
    simp [List.countP_append, List.countP_cons]
  refine ⟨books.answers, fun u => ?_, fun u => ?_⟩
  · have := books.outputs u
    show 0 + _ + (net.node u).owed + n * _ ≤ n * _
    rw [sentBy, show (net.send none [msg]).isCommand u = net.isCommand u from rfl, inbox, asked,
      Nat.mul_add, Nat.mul_add]
    have : (0 : κ → Nat) u = 0 := rfl
    omega
  · have := books.discoveries u
    show 0 + _ + _ ≤ _ + (net.started u).toNat
    rw [sentBy, inbox, asked]
    have : (0 : κ → Nat) u = 0 := rfl
    omega

omit [DecidableEq κ] in
theorem asked_congr (log : net'.log = net.log) (kind : CanRomMsg → Bool) :
    net'.asked kind = net.asked kind := by
  unfold Net.asked
  rw [log]

/-- Nothing is sent, and no node owes more than before, its messages included. -/
theorem Net.Books.of_le {outputs discoveries : κ → Nat} (books : net.Books 0 0)
    (log : net'.log = net.log) (started : net'.started = net.started)
    (nodeId : ∀ u, (net'.node u).node.nodeId = (net.node u).node.nodeId)
    (answers : ∀ u, (net'.node u).Answers)
    (owed : ∀ u, outputs u + (net'.node u).owed + n * (net'.inbox u).countP (net.isCommand u) ≤
      (net.node u).owed + n * (net.inbox u).countP (net.isCommand u))
    (requests : ∀ u, discoveries u + (net'.inbox u).countP isRequest ≤
      (net.inbox u).countP isRequest) : net'.Books outputs discoveries := by
  have isCommand : ∀ u, net'.isCommand u = net.isCommand u := by
    intro u
    unfold Net.isCommand
    rw [nodeId u]
  have sentBy : ∀ u topic, net'.sentBy u topic = net.sentBy u topic := by
    intro u topic
    unfold Net.sentBy
    rw [log]
  refine ⟨answers, fun u => ?_, fun u => ?_⟩
  · have before : 0 + _ + _ + _ ≤ _ := books.outputs u
    have := owed u
    rw [isCommand, sentBy, asked_congr log]
    omega
  · have before : 0 + _ + _ ≤ _ := books.discoveries u
    have := requests u
    rw [sentBy, asked_congr log, started]
    omega

/-- The messages of the loop. -/
theorem sent_topics {s s' : LoopState n m} {sensors : List Sensor} {stack : Vector UInt8 8}
    (run : s.step sensors stack = .ok s') :
    (((s'.sent.drop s.sent.length).map canSendMsg).countP isOutput ≤ s.pc.sends) ∧
      ((s'.sent.drop s.sent.length).map canSendMsg).countP isDiscovery = 0 := by
  have topic : ∀ sender receiver topic : UInt16, ∀ frame : CanFrame,
      frame.flags = canFrameFlagExt → frame.id = canIdBuild sender receiver topic →
      canIdExtractTopic (canSendMsg frame).modeId = topic &&& 0x1FF := by
    intro sender receiver topic frame ext id
    rw [canSendMsg_modeId ext, id, topic_canIdBuild]
  rcases step_sent run with same | ⟨reqs, pc, wanted, same⟩ | ⟨reqs, i, status, pc, same⟩
  · rw [same, List.drop_length]
    exact ⟨Nat.zero_le _, rfl⟩
  · rw [same, List.drop_left, List.map_map]
    have none : ∀ kind : CanRomMsg → Bool,
        (∀ msg, canIdExtractTopic msg.modeId = 500 → kind msg = false) →
        ((readings sensors 0).map (canSendMsg ∘ fun r =>
          readingFrame s.node.nodeId r.quantity r.idx r.value stack)).countP kind = 0 := by
      intro kind other
      rw [List.countP_eq_zero]
      intro msg mem
      obtain ⟨r, -, rfl⟩ := List.mem_map.mp mem
      refine Bool.eq_false_iff.mp (other _ ?_)
      exact topic s.node.nodeId canNodeBroadcastId 500
        (readingFrame s.node.nodeId r.quantity r.idx r.value stack) rfl rfl
    refine ⟨?_, none _ fun msg is => ?_⟩
    · rw [none _ fun msg is => ?_]
      · exact Nat.zero_le _
      · unfold isOutput
        rw [is]
        decide
    · unfold isDiscovery
      rw [is]
      decide
  · rw [same, List.drop_left, pc]
    have is := topic s.node.nodeId canNodeBroadcastId 499 (outputFrame s.node.nodeId i status stack)
      rfl rfl
    constructor
    · exact List.countP_le_length
    · simp only [List.map_cons, List.map_nil, List.countP_cons, List.countP_nil, isDiscovery, is]
      decide

/-- A statement of a loop. -/
theorem Net.Books.loop {sensors : List Sensor} {stack : Vector UInt8 8} (books : net.Books 0 0)
    (sound : net'.Sound) (run : net.loop k sensors stack = .ok net') : net'.Books 0 0 := by
  unfold Net.loop at run
  obtain ⟨s', step, run⟩ := Except.bind_eq_ok.mp run
  cases run
  have at_ : ∀ u, Function.update net.node k s' u = if u = k then s' else net.node u :=
    fun u => Function.update_apply ..
  have nodeId : ∀ u, (Function.update net.node k s' u).node.nodeId = (net.node u).node.nodeId := by
    intro u
    rw [at_]
    split_ifs with here
    · rw [here]
      exact (step_kept step).1.nodeId
    · rfl
  obtain ⟨outputs, discoveries⟩ := sent_topics step
  have sends := fun msg mem => sound.log k msg (List.mem_append_right _ (List.mem_map_of_mem mem))
  refine .send (books.of_le rfl rfl nodeId ?_ ?_ ?_) ?_ fun msg mem => (sends msg mem).not_isRequest
  · intro u
    show (Function.update net.node k s' u).Answers
    rw [at_]
    split_ifs
    · exact (books.answers k).step step
    · exact books.answers u
  · intro u
    show _ + (Function.update net.node k s' u).owed + n * (net.inbox u).countP (net.isCommand u) ≤ _
    have owes := owed_step (books.answers k) step
    rw [at_]
    split_ifs with here
    · subst here
      omega
    · omega
  · intro u
    show _ + (net.inbox u).countP isRequest ≤ _
    split_ifs
    · omega
    · omega
  · intro u msg mem
    exact Bool.eq_false_iff.mpr ((sends msg mem).not_accepts (sound.valid u) (sound.nonzero u))

/-- A response is sent for a request only. -/
theorem discoveryCallback_topics {nodeId : UInt16} {sn : UInt32} {flags : UInt8}
    {stack stack' : Vector UInt8 8} {frames : List CanFrame}
    (accepted : discoveryFilter.accepts msg = true)
    (ran : canNodeDiscoveryCallback nodeId sn (canRomCallbackRx msg flags stack) stack' =
      .ok frames) :
    (frames.map canSendMsg).countP isOutput = 0 ∧
      (frames.map canSendMsg).countP isDiscovery ≤ if isRequest msg then 1 else 0 := by
  rcases canNodeDiscoveryCallback_eq_ok ran with rfl | ⟨request, rfl⟩
  · exact ⟨rfl, Nat.zero_le _⟩
  · have asks : isRequest msg = true := by
      refine Bool.and_eq_true_iff.mpr ⟨accepted, ?_⟩
      have first : (canRomCallbackRx msg flags stack).data.get 0 =
          if 0 < msg.dlc.toNat then msg.data.toList.getD 0 0 else stack.get 0 := by
        show (canRomCallbackRx msg flags stack).data[0] =
          if 0 < msg.dlc.toNat then msg.data.toList.getD 0 0 else stack[0]
        simp [canRomCallbackRx, memcpy8]
      rw [first] at request
      by_cases some : 1 ≤ msg.dlc
      · have : 0 < msg.dlc.toNat := UInt8.le_iff_toNat_le.mp some
        rw [if_pos this] at request
        rw [request]
        simp
      · simp [some]
    have is : canIdExtractTopic (canSendMsg (discoveryFrame nodeId sn
        (canIdExtractFrom (canRomCallbackRx msg flags stack).id) stack')).modeId = 511 := by
      rw [canSendMsg_modeId rfl]
      exact topic_canIdBuild ..
    rw [if_pos asks]
    constructor
    · simp only [List.map_cons, List.map_nil, List.countP_cons, List.countP_nil, isOutput, is]
      decide
    · exact List.countP_le_length

/-- A node starts, with a response that nobody has asked for. -/
theorem Net.Books.init {stack : Vector UInt8 8} (books : net.Books 0 0) (sound : net'.Sound)
    (fresh : net.started k = false) (run : net.init k stack = .ok net') : net'.Books 0 0 := by
  unfold Net.init at run
  rcases Except.bind_eq_ok.mp run with ⟨frame, sent, run⟩
  cases run
  have sends := sound.log k (canSendMsg frame) (List.mem_append_right _ (List.mem_singleton_self _))
  have topic : canIdExtractTopic (canSendMsg frame).modeId = 511 := by
    rw [canNodeSendDiscoveryResponse_eq_ok sent, canSendMsg_modeId rfl]
    exact topic_canIdBuild ..
  have fewer : ∀ u (kind : CanRomMsg → Bool),
      (Function.update net.inbox k [] u).countP kind ≤ (net.inbox u).countP kind := by
    intro u kind
    rw [Function.update_apply]
    split_ifs
    · exact Nat.zero_le _
    · exact le_rfl
  refine .send ⟨books.answers, fun u => ?_, fun u => ?_⟩ (fun u msg mem => ?_) fun msg mem => ?_
  · have before : 0 + _ + _ + _ ≤ _ := books.outputs u
    have := Nat.mul_le_mul_left n (fewer u (net.isCommand u))
    have none : [canSendMsg frame].countP isOutput = 0 := by
      simp only [List.countP_cons, List.countP_nil, isOutput, topic]
      decide
    rw [none, ite_self]
    show 0 + net.sentBy u isOutput + (net.node u).owed +
      n * (Function.update net.inbox k [] u).countP (net.isCommand u) ≤
        n * net.asked (net.isCommand u)
    omega
  · have before : 0 + _ + _ ≤ _ := books.discoveries u
    have := fewer u isRequest
    have one : [canSendMsg frame].countP isDiscovery ≤ 1 := List.countP_le_length
    show _ + net.sentBy u isDiscovery + (Function.update net.inbox k [] u).countP isRequest ≤
      net.asked isRequest + (Function.update net.started k true u).toNat
    rw [Function.update_apply net.started]
    split_ifs with here
    · rw [here, fresh] at before
      simp only [Bool.toNat_false, Bool.toNat_true] at before ⊢
      rw [here] at this ⊢
      omega
    · omega
  · rw [List.mem_singleton.mp mem]
    exact Bool.eq_false_iff.mpr (sends.not_accepts (sound.valid u) (sound.nonzero u))
  · rw [List.mem_singleton.mp mem]
    exact sends.not_isRequest

/-- The messages that wait for the nodes when one has been taken from those for node `k`. -/
theorem countP_taken {inbox : κ → List CanRomMsg} {msgs : List CanRomMsg}
    (waiting : inbox k = msg :: msgs) (u : κ) (kind : CanRomMsg → Bool) :
    (Function.update inbox k msgs u).countP kind +
      (if u = k then if kind msg then 1 else 0 else 0) = (inbox u).countP kind := by
  rw [Function.update_apply]
  split_ifs with here kind
  · rw [here, waiting, List.countP_cons_of_pos kind]
  · rw [here, waiting, List.countP_cons_of_neg kind, Nat.add_zero]
  · rfl

theorem countP_taken_le {inbox : κ → List CanRomMsg} {msgs : List CanRomMsg}
    (waiting : inbox k = msg :: msgs) (u : κ) (kind : CanRomMsg → Bool) :
    (Function.update inbox k msgs u).countP kind ≤ (inbox u).countP kind :=
  (Nat.le_add_right ..).trans (countP_taken waiting u kind).le

/-- A callback changes the node, but sends nothing. -/
theorem Net.Books.callback {msgs : List CanRomMsg} (books : net.Books 0 0)
    (waiting : net.inbox k = msg :: msgs) {node : Node n m}
    (nodeId : node.nodeId = (net.node k).node.nodeId)
    (interrupted : Interrupted (net.node k).node node)
    (owed : { net.node k with node := node }.owed +
      n * (Function.update net.inbox k msgs k).countP (net.isCommand k) ≤
        (net.node k).owed + n * (net.inbox k).countP (net.isCommand k)) :
    { net with
      inbox := Function.update net.inbox k msgs
      node := Function.update net.node k { net.node k with node := node } }.Books 0 0 := by
  have at_ : ∀ u, Function.update net.node k { net.node k with node := node } u =
      if u = k then { net.node k with node := node } else net.node u :=
    fun u => Function.update_apply ..
  refine books.of_le rfl rfl (fun u => ?_) (fun u => ?_) (fun u => ?_) (fun u => ?_)
  · show (Function.update net.node k _ u).node.nodeId = _
    rw [at_]
    split_ifs with here
    · rw [here]
      exact nodeId
    · rfl
  · show (Function.update net.node k _ u).Answers
    rw [at_]
    split_ifs with here
    · exact (books.answers k).interrupted interrupted
    · exact books.answers u
  · show 0 + (Function.update net.node k _ u).owed +
      n * (Function.update net.inbox k msgs u).countP (net.isCommand u) ≤ _
    rw [at_, Nat.zero_add]
    split_ifs with here
    · rw [here]
      exact owed
    · exact Nat.add_le_add_left (Nat.mul_le_mul_left n (countP_taken_le waiting u _)) _
  · show 0 + (Function.update net.inbox k msgs u).countP isRequest ≤ _
    rw [Nat.zero_add]
    exact countP_taken_le waiting u _

/-- The interrupt for the message that waits first. -/
theorem Net.Books.receive {msgs : List CanRomMsg} {flags : UInt8} {stack stack' : Vector UInt8 8}
    (books : net.Books 0 0) (waiting : net.inbox k = msg :: msgs) (sound : net'.Sound)
    (run : { net with inbox := Function.update net.inbox k msgs }.receive k msg flags stack stack' =
      .ok net') : net'.Books 0 0 := by
  have fewer : ∀ u (kind : CanRomMsg → Bool),
      (Function.update net.inbox k msgs u).countP kind ≤ (net.inbox u).countP kind :=
    countP_taken_le waiting
  unfold Net.receive at run
  simp only at run
  split_ifs at run with discovery sensor output
  · obtain ⟨frames, called, run⟩ := Except.bind_eq_ok.mp run
    cases run
    obtain ⟨outputs, discoveries⟩ := discoveryCallback_topics discovery called
    have sends := fun msg mem =>
      sound.log k msg (List.mem_append_right _ (List.mem_map_of_mem mem))
    refine .send (books.of_le rfl rfl (fun _ => rfl) books.answers ?_ ?_) (fun u msg' mem => ?_)
      fun msg mem => (sends msg mem).not_isRequest
    · intro u
      show _ + (net.node u).owed + n * (Function.update net.inbox k msgs u).countP _ ≤ _
      have := Nat.mul_le_mul_left n (fewer u (net.isCommand u))
      rw [outputs, ite_self]
      omega
    · intro u
      show _ + (Function.update net.inbox k msgs u).countP isRequest ≤ _
      have := countP_taken waiting u isRequest
      by_cases here : u = k
      · rw [if_pos here] at this ⊢
        omega
      · rw [if_neg here] at this ⊢
        omega
    · exact Bool.eq_false_iff.mpr ((sends msg' mem).not_accepts (sound.valid u) (sound.nonzero u))
  · cases run
    refine books.callback waiting (sensorCallback_kept ..).1.nodeId (interrupted_sensorCallback ..) ?_
    rw [owed_of_reqs (sensorCallback_reqs ..)]
    exact Nat.add_le_add_left (Nat.mul_le_mul_left n (fewer k _)) _
  · cases run
    refine books.callback waiting (outputCallback_kept ..).1.nodeId (interrupted_outputCallback ..) ?_
    -- the command is paid with what it lets the node send
    have paid := countP_taken waiting k (net.isCommand k)
    have command : net.isCommand k msg = true := output
    rw [if_pos rfl, if_pos command] at paid
    rw [← paid, Nat.mul_add, Nat.mul_one]
    refine (Nat.add_le_add_right (owed_interrupted (net.node k) _) _).trans ?_
    omega
  · cases run
    refine books.of_le rfl rfl (fun _ => rfl) books.answers (fun u => ?_) (fun u => ?_)
    · show 0 + (net.node u).owed + n * (Function.update net.inbox k msgs u).countP _ ≤ _
      have := Nat.mul_le_mul_left n (fewer u (net.isCommand u))
      omega
    · show 0 + (Function.update net.inbox k msgs u).countP isRequest ≤ _
      have := fewer u isRequest
      omega

theorem Net.Books.exec {event : NetEvent κ} (books : net.Books 0 0) (sound : net'.Sound)
    (legal : net.Legal event) (run : net.exec event = .ok net') : net'.Books 0 0 := by
  cases event with
  | init k stack => exact books.init sound legal run
  | loop k sensors stack => exact books.loop sound run
  | timer k =>
      cases run
      have at_ : ∀ u, Function.update net.node k
          { net.node k with node := canNodePostSensorReq (net.node k).node } u =
          if u = k then { net.node k with node := canNodePostSensorReq (net.node k).node }
          else net.node u := fun u => Function.update_apply ..
      have owed : { net.node k with node := canNodePostSensorReq (net.node k).node }.owed =
          (net.node k).owed := by
        refine owed_of_reqs ?_
        simp [canNodePostSensorReq, Node.post, Reqs.or]
      refine books.of_le rfl rfl (fun u => ?_) (fun u => ?_) (fun u => ?_) (fun u => ?_)
      · show (Function.update net.node k _ u).node.nodeId = _
        rw [at_]
        split_ifs with here
        · rw [here]
          rfl
        · rfl
      · show (Function.update net.node k _ u).Answers
        rw [at_]
        split_ifs
        · exact (books.answers k).interrupted (interrupted_postSensorReq _)
        · exact books.answers u
      · show 0 + (Function.update net.node k _ u).owed + n * (net.inbox u).countP _ ≤ _
        rw [at_, Nat.zero_add]
        split_ifs with here
        · rw [owed, here]
        · exact le_rfl
      · exact (Nat.zero_add _).le
  | receive k flags stack stack' =>
      cases waiting : net.inbox k with
      | nil =>
          simp only [Net.exec, waiting] at run
          cases run
          exact books
      | cons msg msgs =>
          simp only [Net.exec, waiting] at run
          exact books.receive waiting sound run
  | lose k i =>
      cases run
      have fewer : ∀ u (kind : CanRomMsg → Bool),
          (Function.update net.inbox k ((net.inbox k).eraseIdx i) u).countP kind ≤
            (net.inbox u).countP kind := by
        intro u kind
        rw [Function.update_apply]
        split_ifs with here
        · rw [here]
          exact (List.eraseIdx_sublist ..).countP_le
        · exact le_rfl
      refine books.of_le rfl rfl (fun _ => rfl) books.answers (fun u => ?_) (fun u => ?_)
      · show 0 + (net.node u).owed + n * (Function.update net.inbox k _ u).countP _ ≤ _
        have := Nat.mul_le_mul_left n (fewer u (net.isCommand u))
        omega
      · show 0 + (Function.update net.inbox k _ u).countP isRequest ≤ _
        have := fewer u isRequest
        omega
  | device msg =>
      cases run
      exact books.device msg

theorem Net.Initial.books (initial : net.Initial) : net.Books 0 0 := by
  refine ⟨fun k => ?_, fun k => ?_, fun k => ?_⟩
  · unfold LoopState.Answers
    rw [(initial.node k).pc]
    trivial
  · have owed : (net.node k).owed = 0 := by
      simp [LoopState.owed, (initial.node k).pc, (initial.node k).reqs, Pc.remaining, Reqs.answers]
    simp [Net.sentBy, initial.log, initial.inbox k, owed]
  · simp [Net.sentBy, initial.log, initial.inbox k]

theorem Net.Reachable.books (reach : net.Reachable) : net.Books 0 0 := by
  induction reach with
  | init initial => exact initial.books
  | step before legal run ih => exact ih.exec (before.step legal run).sound legal run

end Runs

end TheFirmware.CanNode
