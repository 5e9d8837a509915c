import Crps.Node.Spin

/-!
# What one call does to a node

Every event of `publish` or `spin_once` is one operation on one endpoint. The
calls are unrolled into such operations once and for all; what holds of each
operation then holds of a call, and nothing here depends on message sizes.
-/

namespace Crps

/-- What `connect` settles about a publisher. -/
structure PublisherInfo where
  topicName : String
  messageTypeName : String
  messageSize : MessageSize
  packetHeaderSize : ℕ
  topicId : TopicId
  messageTypeId : MessageTypeId

structure SubscriberInfo where
  topicName : String
  messageTypeName : String
  messageSize : MessageSize
  topicId : TopicId
  messageTypeId : MessageTypeId

def Publisher.info (p : Publisher) : PublisherInfo :=
  ⟨p.topicName, p.messageTypeName, p.messageSize, p.packetHeaderSize, p.topicId, p.messageTypeId⟩

def Subscriber.info (s : Subscriber) : SubscriberInfo :=
  ⟨s.topicName, s.messageTypeName, s.messageSize, s.topicId, s.messageTypeId⟩

/-- The part of a node that no event changes. -/
structure NodeConfig where
  name : String
  nodeId : BpNodeId
  publishers : List PublisherInfo
  subscribers : List SubscriberInfo
  topics : TopicId → Option TopicInfo
  topicsByPrio : List (TopicPriority × TopicInfo)

namespace Node

variable (n : Node)

def config : NodeConfig :=
  ⟨n.name, n.nodeId, n.publishers.map Publisher.info, n.subscribers.map Subscriber.info, n.topics,
    n.topicsByPrio⟩

/-- One event and the node after it. -/
inductive Does (n : Node) : SpinEvent → Node → Prop
  | publish (k : ℕ) (data : Memory) : Does n (n.publish k data).2 (n.publish k data).1
  | queueMessage (k : ℕ) (data : Memory) :
      Does n (n.queueMessage k data).2 (n.queueMessage k data).1
  | callback {k : ℕ} {sub : Subscriber} {message : Bytes} (left : Bytes) :
      n.subscribers[k]? = some sub → sub.messageQueue.get = some message →
      Does n (.callback k message)
        { n with subscribers := n.subscribers.set k (sub.runCallback left).2 }
  | sendFailed {k : ℕ} {p : Publisher} {message packet : Bytes} :
      n.publishers[k]? = some p → p.getMessage = some message →
      packet = (n.sendData p.topicId p.messageTypeId message p.packetSize).1 →
      Does n (.sendto k packet false)
        { n.nextBpCounter.2 with publishers := n.publishers.set k (p.writeMessage 0 packet) }
  | sent {k : ℕ} {p : Publisher} {message packet : Bytes} :
      n.publishers[k]? = some p → p.getMessage = some message →
      packet = (n.sendData p.topicId p.messageTypeId message p.packetSize).1 →
      Does n (.sendto k packet true)
        { n.nextBpCounter.2 with
          publishers := n.publishers.set k (p.writeMessage 0 packet).popMessage.2 }

/-- A sequence of events; only the receive buffer may change on its own. -/
inductive Performs : Node → List SpinEvent → Node → Prop
  | nil (n : Node) (buffer : Memory) : Performs n [] { n with buffer }
  | cons {n n' n'' : Node} {e : SpinEvent} {es : List SpinEvent} (buffer : Memory) :
      Does { n with buffer } e n' → Performs n' es n'' → Performs n (e :: es) n''

variable {n n' n'' : Node} {e : SpinEvent} {es fs : List SpinEvent}

theorem Performs.refl (n : Node) : n.Performs [] n := .nil n n.buffer

theorem Does.performs (h : n.Does e n') : n.Performs [e] n' := .cons n.buffer h (.refl n')

theorem Performs.trans (h : n.Performs es n') (h' : n'.Performs fs n'') :
    n.Performs (es ++ fs) n'' := by
  induction h with
  | nil n buffer =>
    cases h' with
    | nil _ buffer' => exact .nil n buffer'
    | cons buffer' hdoes hrest => exact .cons buffer' hdoes hrest
  | cons buffer hdoes _ ih => exact .cons buffer hdoes (ih h')

/-! ## Publishing and queueing -/

theorem publish_of_some {k : ℕ} {p : Publisher} (hp : n.publishers[k]? = some p) (data : Memory) :
    n.publish k data = ({ n with publishers := n.publishers.set k (p.publish data).2 },
      .publish k (data.slice 0 p.messageSize.toNat) (p.publish data).1) := by
  simp only [publish, hp]

theorem publish_subscribers (k : ℕ) (data : Memory) :
    (n.publish k data).1.subscribers = n.subscribers := by
  unfold publish
  split <;> rfl

theorem publish_with_subscribers (subs : List Subscriber) (k : ℕ) (data : Memory) :
    ({ n with subscribers := subs } : Node).publish k data =
      ({ (n.publish k data).1 with subscribers := subs }, (n.publish k data).2) := by
  simp only [publish]
  split <;> rfl

theorem performs_publishAll (calls : List (ℕ × Memory)) :
    n.Performs (n.publishAll calls).2 (n.publishAll calls).1 := by
  induction calls generalizing n with
  | nil => exact .refl n
  | cons call calls ih => exact (Does.publish call.1 call.2).performs.trans ih

theorem publishAll_subscribers (calls : List (ℕ × Memory)) :
    (n.publishAll calls).1.subscribers = n.subscribers := by
  induction calls generalizing n with
  | nil => rfl
  | cons call calls ih =>
    simp only [publishAll, ih]
    exact publish_subscribers call.1 call.2

theorem publishAll_with_subscribers (subs : List Subscriber) (calls : List (ℕ × Memory)) :
    ({ n with subscribers := subs } : Node).publishAll calls =
      ({ (n.publishAll calls).1 with subscribers := subs }, (n.publishAll calls).2) := by
  induction calls generalizing n with
  | nil => rfl
  | cons call calls ih => simp only [publishAll, publish_with_subscribers, ih]

theorem queueMessage_of_some {k : ℕ} {s : Subscriber} (hs : n.subscribers[k]? = some s)
    (data : Memory) :
    n.queueMessage k data = ({ n with subscribers := n.subscribers.set k (s.queueMessage data).2 },
      .queueMessage k (data.slice 0 s.messageSize.toNat) (s.queueMessage data).1) := by
  simp only [queueMessage, hs]

/-- Each mention of a subscriber queues the payload there, as long as there is room. -/
theorem queueAll_messages (data : Memory) (ks : List ℕ) (k : ℕ) :
    (n.queueAll data ks).1.subscribers[k]?.map Subscriber.messages =
      n.subscribers[k]?.map fun s => s.messages ++
        List.replicate (min (ks.count k) s.room) (data.slice 0 s.messageSize.toNat) := by
  induction ks generalizing n with
  | nil => simp [queueAll]
  | cons j ks ih =>
    simp only [queueAll, ih]
    cases hj : n.subscribers[j]? with
    | none =>
      have hsame : (n.queueMessage j data).1 = n := by simp only [queueMessage, hj]
      rw [hsame]
      by_cases hjk : j = k
      · subst hjk
        simp [hj]
      · simp [hjk]
    | some s =>
      rw [queueMessage_of_some hj]
      by_cases hjk : j = k
      · subst hjk
        have hlt := (List.getElem?_eq_some_iff.mp hj).1
        simp only [List.getElem?_set_self hlt, hj, Option.map_some, List.count_cons_self,
          Subscriber.queueMessage_room, Subscriber.queueMessage_messageSize, Option.some.injEq]
        cases hroom : s.room with
        | zero =>
          have hrefused : (s.queueMessage data).1 = false := by
            rw [s.queueMessage_fst, hroom]
            rfl
          simp [s.queueMessage_refused hrefused]
        | succ r =>
          have haccepted : (s.queueMessage data).1 = true := by
            rw [s.queueMessage_fst, hroom]
            simp
          rw [s.queueMessage_accepted haccepted, Nat.add_sub_cancel, Nat.add_min_add_right,
            List.replicate_succ, List.append_assoc, List.singleton_append]
      · simp only [List.getElem?_set_ne hjk, List.count_cons_of_ne hjk]

theorem performs_queueAll (data : Memory) (ks : List ℕ) :
    n.Performs (n.queueAll data ks).2 (n.queueAll data ks).1 := by
  induction ks generalizing n with
  | nil => exact .refl n
  | cons k ks ih => exact (Does.queueMessage k data).performs.trans ih

theorem queueAll_publishers (data : Memory) (ks : List ℕ) :
    (n.queueAll data ks).1.publishers = n.publishers := by
  induction ks generalizing n with
  | nil => rfl
  | cons k ks ih =>
    have hfirst : (n.queueMessage k data).1.publishers = n.publishers := by
      unfold queueMessage
      split
      · rfl
      · rfl
    rw [queueAll, ih, hfirst]

/-! ## Receiving -/

variable {text : JsonText}

/-- What `receive_message` can return, and that it changes the receive buffer only. -/
inductive Receives (text : JsonText) (n : Node) : Reception → Node → Received → Prop
  | nothing (reception : Reception) (buffer : Memory) :
      Receives text n reception { n with buffer } .nothing
  | error (reception : Reception) (buffer : Memory) :
      Receives text n reception { n with buffer } .error
  | packet {bytes : Bytes} {decoded : Decoded}
      (hd : decodePacketBuffer text (Memory.load bytes n.buffer) bytes.length = .ok decoded) :
      Receives text n (.datagram bytes) { n with buffer := Memory.load bytes n.buffer }
        (.packet decoded)

theorem receiveMessage_receives {block : Bool} {reception : Reception} {received : Received}
    (h : n.receiveMessage text block reception = .ok (n', received)) :
    Receives text n reception n' received := by
  cases reception with
  | wouldBlock =>
    cases block with
    | true =>
      cases h
      exact .error _ n.buffer
    | false =>
      cases h
      exact .nothing _ n.buffer
  | failed =>
    cases h
    exact .error _ n.buffer
  | datagram bytes =>
    cases hd : decodePacketBuffer text (Memory.load bytes n.buffer) bytes.length with
    | error fault =>
      simp only [receiveMessage, hd] at h
      cases h
    | ok decoded =>
      simp only [receiveMessage, hd, bind, Except.bind] at h
      split at h
      · cases h
        exact .error _ _
      · cases h
        exact .packet hd

/-- What `process_incoming_message` can do: nothing to the queues, or queue the
payload of a data packet at every subscriber of its topic. -/
inductive Processes (text : JsonText) (n : Node) : Reception → Node → List SpinEvent → Prop
  | dropped (reception : Reception) (buffer : Memory) :
      Processes text n reception { n with buffer } []
  | queued {bytes : Bytes} {decoded : Decoded} {info : TopicInfo} {out : Node × List SpinEvent}
      (hd : decodePacketBuffer text (Memory.load bytes n.buffer) bytes.length = .ok decoded)
      (htype : decoded.type = .data)
      (htopic : n.topics decoded.dataHeader.topicId = some info)
      (hout : out = ({ n with buffer := Memory.load bytes n.buffer } : Node).queueAll
        (fun k => Memory.load bytes n.buffer (bpHeaderSize + bpDataHeaderSize + k))
        info.subscribers) :
      Processes text n (.datagram bytes) out.1 out.2

theorem processIncomingMessage_processes {reception : Reception} {result : ℤ}
    (h : n.processIncomingMessage text reception = .ok (n', es, result)) :
    Processes text n reception n' es := by
  cases hr : n.receiveMessage text false reception with
  | error fault =>
    simp only [processIncomingMessage, hr] at h
    cases h
  | ok got =>
    obtain ⟨n₁, received⟩ := got
    simp only [processIncomingMessage, hr, bind, Except.bind] at h
    cases receiveMessage_receives hr with
    | nothing _ buffer =>
      cases h
      exact .dropped _ buffer
    | error _ buffer =>
      cases h
      exact .dropped _ buffer
    | packet hd =>
      rename_i bytes decoded
      by_cases htype : decoded.type = .data
      · cases htopic : n.topics decoded.dataHeader.topicId with
        | none =>
          simp only [htype, ne_eq, not_true_eq_false, if_false, htopic] at h
          cases h
          exact .dropped _ _
        | some info =>
          simp only [htype, ne_eq, not_true_eq_false, if_false, htopic] at h
          split at h
          · cases h
            exact .dropped _ _
          · cases h
            exact .queued hd htype htopic rfl
      · simp only [ne_eq, htype, not_false_eq_true, if_true] at h
        cases h
        exact .dropped _ _

/-- The payload of the packet in a receive buffer. -/
def payloadOf (buffer : Memory) : Memory := fun k => buffer (bpHeaderSize + bpDataHeaderSize + k)

/-- `process_incoming_message` on a datagram that decodes: only a data packet for a topic with
subscribers gets anywhere. -/
theorem processIncomingMessage_of_decode {bytes : Bytes} {decoded : Decoded}
    (hd : decodePacketBuffer text (Memory.load bytes n.buffer) bytes.length = .ok decoded) :
    n.processIncomingMessage text (.datagram bytes) =
      let received : Node := { n with buffer := Memory.load bytes n.buffer }
      let listening := (n.topics decoded.dataHeader.topicId).elim [] TopicInfo.subscribers
      if decoded.type = .data ∧ listening ≠ [] then
        let queued := received.queueAll (payloadOf received.buffer) listening
        .ok (queued.1, queued.2, 1)
      else .ok (received, [], -1) := by
  simp only [processIncomingMessage, receiveMessage, hd, bind, Except.bind, pure, Except.pure]
  cases htype : decoded.type with
  | invalid => simp
  | control => simp [htype]
  | other byte => simp [htype]
  | data =>
    cases htopic : n.topics decoded.dataHeader.topicId with
    | none => simp [htype, htopic]
    | some info =>
      cases hlist : info.subscribers with
      | nil => simp [htype, htopic, hlist]
      | cons k ks =>
        simp only [htype, htopic, hlist, reduceCtorEq, if_false, ne_eq, not_true_eq_false,
          not_false_eq_true, and_self, if_true, Option.elim_some, List.isEmpty_cons,
          Bool.false_eq_true]
        rfl

theorem Processes.performs {reception : Reception} (h : Processes text n reception n' es) :
    n.Performs es n' := by
  cases h with
  | dropped _ buffer => exact .nil n buffer
  | queued hd htype htopic hout =>
    subst hout
    exact (Performs.nil n (Memory.load _ n.buffer)).trans (performs_queueAll _ _)

/-! ## Visiting the endpoints -/

/-- The loop state has moved on by the events it has added. -/
def Continues (s s' : SpinState) : Prop :=
  ∃ es, s'.events = s.events ++ es ∧ s.node.Performs es s'.node

theorem Continues.refl (s : SpinState) : Continues s s := ⟨[], (List.append_nil _).symm, .refl _⟩

theorem Continues.trans {s s' s'' : SpinState} (h : Continues s s') (h' : Continues s' s'') :
    Continues s s'' := by
  obtain ⟨es, he, ha⟩ := h
  obtain ⟨fs, hf, hb⟩ := h'
  exact ⟨es ++ fs, by rw [hf, he, List.append_assoc], ha.trans hb⟩

variable (env : SpinEnvironment) (s : SpinState)

theorem visitSubscriber_continues (k : ℕ) : Continues s (visitSubscriber env s k).2 := by
  cases hs : s.node.subscribers[k]? with
  | none =>
    simp only [visitSubscriber, hs]
    exact Continues.refl s
  | some sub =>
    cases hm : sub.messageQueue.get with
    | none =>
      simp only [visitSubscriber, hs, hm]
      exact Continues.refl s
    | some message =>
      set effect := env.callback s.events k message with heffect
      have hpop := (Does.callback effect.left hs hm).performs
      have hpublish := hpop.trans (performs_publishAll effect.publishes)
      rw [publishAll_with_subscribers] at hpublish
      simp only [visitSubscriber, hs, hm, publishAll_subscribers]
      exact ⟨_, rfl, hpublish⟩

theorem visitPublisher_continues (k : ℕ) : Continues s (visitPublisher env s k).2 := by
  cases hp : s.node.publishers[k]? with
  | none =>
    simp only [visitPublisher, hp]
    exact Continues.refl s
  | some p =>
    cases hm : p.getMessage with
    | none =>
      simp only [visitPublisher, hp, hm]
      exact Continues.refl s
    | some message =>
      simp only [visitPublisher, hp, hm]
      cases hresult : env.sendto s.events
          (s.node.sendData p.topicId p.messageTypeId message p.packetSize).1 with
      | false => exact ⟨_, rfl, (Does.sendFailed hp hm rfl).performs⟩
      | true => exact ⟨_, rfl, (Does.sent hp hm rfl).performs⟩

theorem visit_continues (e : Endpoint) : Continues s (visit env s e).2 := by
  cases e with
  | subscriber k => exact visitSubscriber_continues env s k
  | publisher k => exact visitPublisher_continues env s k

theorem visitAll_continues (order : List Endpoint) : Continues s (visitAll env s order).2 := by
  induction order generalizing s with
  | nil => exact Continues.refl s
  | cons e order ih =>
    have hfirst := visit_continues env s e
    simp only [visitAll]
    split
    · exact hfirst.trans (ih _)
    · exact hfirst

variable {env}

/-- What `spin_once` does when it returns. -/
theorem spinOnce_cases {reception : Reception} {out : SpinOutcome}
    (h : n.spinOnce text reception env = .ok out) :
    ∃ n' events processed ok s,
      n.processIncomingMessage text reception = .ok (n', events, processed) ∧
      visitAll env ⟨n', events, decide (0 < processed)⟩ n'.visitOrder = (ok, s) ∧
      out = ⟨s.node, s.events,
        if !ok then .error else if s.workDone then .success else .noWork⟩ := by
  cases hr : n.processIncomingMessage text reception with
  | error fault =>
    simp only [spinOnce, hr] at h
    cases h
  | ok processed =>
    obtain ⟨n', events, processed⟩ := processed
    simp only [spinOnce, hr, bind, Except.bind] at h
    injection h with h
    exact ⟨n', events, processed, _, _, rfl, rfl, h.symm⟩

theorem spinOnce_of_processed {reception : Reception} {events : List SpinEvent} {processed : ℤ}
    {ok : Bool} {s : SpinState}
    (hprocessed : n.processIncomingMessage text reception = .ok (n', events, processed))
    (hvisited : visitAll env ⟨n', events, decide (0 < processed)⟩ n'.visitOrder = (ok, s)) :
    n.spinOnce text reception env = .ok ⟨s.node, s.events,
      if !ok then .error else if s.workDone then .success else .noWork⟩ := by
  simp only [spinOnce, hprocessed, bind, Except.bind, hvisited]
  rfl

theorem spinOnce_performs {reception : Reception} {out : SpinOutcome}
    (h : n.spinOnce text reception env = .ok out) : n.Performs out.events out.node := by
  obtain ⟨n', events, processed, ok, s, hprocessed, hvisited, rfl⟩ := spinOnce_cases h
  have hreceived := (processIncomingMessage_processes hprocessed).performs
  obtain ⟨es, hevents, hperforms⟩ :=
    visitAll_continues env ⟨n', events, decide (0 < processed)⟩ n'.visitOrder
  rw [hvisited] at hevents hperforms
  rw [hevents]
  exact hreceived.trans hperforms

/-! ## What every event respects -/

theorem map_set_of_eq {α β : Type} {f : α → β} {xs : List α} {k : ℕ} {x x' : α}
    (hx : xs[k]? = some x) (hf : f x' = f x) : (xs.set k x').map f = xs.map f := by
  apply List.ext_getElem?
  intro j
  by_cases hj : k = j
  · subst hj
    have hlt := (List.getElem?_eq_some_iff.mp hx).1
    simp only [List.getElem?_map, hx, List.getElem?_set_self hlt, Option.map_some, hf]
  · simp only [List.getElem?_map, List.getElem?_set_ne hj]

theorem Does.config (h : n.Does e n') : n'.config = n.config := by
  cases h with
  | publish k data =>
    cases hp : n.publishers[k]? with
    | none => simp only [Node.publish, hp]
    | some p =>
      rw [publish_of_some hp]
      simp only [Node.config, map_set_of_eq hp (show (p.publish data).2.info = p.info from rfl)]
  | queueMessage k data =>
    cases hs : n.subscribers[k]? with
    | none => simp only [Node.queueMessage, hs]
    | some s =>
      rw [queueMessage_of_some hs]
      simp only [Node.config,
        map_set_of_eq hs (show (s.queueMessage data).2.info = s.info from rfl)]
  | @callback k sub message left hs =>
    have hinfo : (sub.runCallback left).2.info = sub.info := by
      unfold Subscriber.runCallback
      split <;> rfl
    simp only [Node.config, map_set_of_eq hs hinfo]
  | @sendFailed k p message packet hp =>
    simp only [Node.config, nextBpCounter,
      map_set_of_eq hp (show (p.writeMessage 0 packet).info = p.info from rfl)]
  | @sent k p message packet hp =>
    simp only [Node.config, nextBpCounter,
      map_set_of_eq hp (show (p.writeMessage 0 packet).popMessage.2.info = p.info from rfl)]

theorem Performs.config (h : n.Performs es n') : n'.config = n.config := by
  induction h with
  | nil => rfl
  | cons buffer hdoes _ ih => rw [ih, hdoes.config]; rfl

/-- The capacities of the endpoints' queues. -/
def capacities (n : Node) : List ℕ × List ℕ :=
  (n.publishers.map fun p => p.messageQueue.queueCapacity,
    n.subscribers.map fun s => s.messageQueue.queueCapacity)

theorem Does.capacities (h : n.Does e n') : n'.capacities = n.capacities := by
  cases h with
  | publish k data =>
    cases hp : n.publishers[k]? with
    | none => simp only [Node.publish, hp]
    | some p =>
      rw [publish_of_some hp]
      exact congrArg (·, _) (map_set_of_eq hp (p.messageQueue.push_queueCapacity _ _ _))
  | queueMessage k data =>
    cases hs : n.subscribers[k]? with
    | none => simp only [Node.queueMessage, hs]
    | some s =>
      rw [queueMessage_of_some hs]
      exact congrArg (_, ·) (map_set_of_eq hs (s.messageQueue.push_queueCapacity _ _ _))
  | @callback k sub message left hs =>
    refine congrArg (_, ·) (map_set_of_eq hs ?_)
    unfold Subscriber.runCallback
    split
    · rfl
    · simp
  | @sendFailed k p message packet hp =>
    exact congrArg (·, _) (map_set_of_eq hp (p.messageQueue.writeFront_queueCapacity _ _))
  | @sent k p message packet hp =>
    refine congrArg (·, _) (map_set_of_eq hp ?_)
    simp [Publisher.popMessage, Publisher.writeMessage]

theorem Performs.capacities (h : n.Performs es n') : n'.capacities = n.capacities := by
  induction h with
  | nil => rfl
  | cons buffer hdoes _ ih => rw [ih, hdoes.capacities]; rfl

theorem head?_sendData_ne (topicId : TopicId) (messageTypeId : MessageTypeId) (buffer : Bytes)
    (bufferSize : ℕ) : (n.sendData topicId messageTypeId buffer bufferSize).1.head? ≠ some 1 := by
  cases buffer <;> simp [sendData, bpFillDataHeader, overwrite, dataHeaderBytes]

theorem Does.head?_ne (h : n.Does e n') {k : ℕ} {packet : Bytes} {sent : Bool}
    (he : e = .sendto k packet sent) : packet.head? ≠ some 1 := by
  cases h with
  | publish j data =>
    unfold Node.publish at he
    split at he <;> cases he
  | queueMessage j data =>
    unfold Node.queueMessage at he
    split at he <;> cases he
  | callback => cases he
  | sendFailed _ _ hpacket =>
    cases he
    exact hpacket ▸ head?_sendData_ne _ _ _ _
  | sent _ _ hpacket =>
    cases he
    exact hpacket ▸ head?_sendData_ne _ _ _ _

theorem Performs.head?_ne (h : n.Performs es n') {k : ℕ} {packet : Bytes} {sent : Bool}
    (hmem : .sendto k packet sent ∈ es) : packet.head? ≠ some 1 := by
  induction h with
  | nil => cases hmem
  | cons buffer hdoes _ ih =>
    rcases List.mem_cons.mp hmem with hhead | hmem
    · exact hdoes.head?_ne hhead.symm
    · exact ih hmem

end Node

end Crps
