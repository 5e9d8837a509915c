import Crps.Broker.Registry

/-!
# Where the broker sends what

A run's records are enough to say who is subscribed to a topic and from which
address a node registered. The forwarding loop is compared with that history,
iteration by iteration.
-/

namespace Crps

/-- The request a record granted, if it handled one and answered with success. -/
def Record.granted (r : Record) : Option ControlRequest :=
  match r.iteration.disposal with
  | .control request response =>
    match ControlRequest.ofJson request, response.field "success" with
    | .ok (some c), .ok (.boolean true) => some c
    | _, _ => none
  | _ => none

/-- The node a granted request subscribes to the topic. -/
def ControlRequest.subscriberOf (topicId : TopicId) : ControlRequest → Option BpNodeId
  | .addSubscriber nodeId id _ => if id = topicId then some nodeId else none
  | _ => none

def ControlRequest.isRegisterNode : ControlRequest → Bool
  | .registerNode _ => true
  | _ => false

/-- Node ids of the granted `add_subscriber` requests for a topic, in order. -/
def subscriptions (past : List Record) (topicId : TopicId) : List BpNodeId :=
  past.filterMap fun r => r.granted.bind (ControlRequest.subscriberOf topicId)

/-- Addresses of the granted `register_node` requests; positions are the ids. -/
def registrations (past : List Record) : List String :=
  past.filterMap fun r =>
    if r.granted.any ControlRequest.isRegisterNode then some r.arrival.client else none

def registeredAddress (past : List Record) (id : BpNodeId) : String :=
  (registrations past).getD id.toNat ""

namespace Tables

def subscribersOf (t : Tables) (topicId : TopicId) : List BpNodeId :=
  ((t.topics[topicId.toNat]?).map Topic.subscribers).getD []

theorem Handled.of_none {t t' : Tables} {client : String} {c : ControlRequest}
    (h : Handled t client c t' none) : t' = t := by
  cases h
  rfl

theorem Handled.subscribersOf {t t' : Tables} {client : String} {c : ControlRequest}
    {a : ControlAnswer} (h : Handled t client c t' (some a)) (topicId : TopicId) :
    t'.subscribersOf topicId = t.subscribersOf topicId ++ (c.subscriberOf topicId).toList := by
  unfold Tables.subscribersOf
  cases h with
  | newNode => simp [ControlRequest.subscriberOf]
  | newMessageType => simp [ControlRequest.subscriberOf]
  | knownMessageType => simp [ControlRequest.subscriberOf]
  | knownTopic => simp [ControlRequest.subscriberOf]
  | @newTopic name messageTypeId priority =>
    simp only [ControlRequest.subscriberOf, Option.toList_none, List.append_nil]
    rcases lt_trichotomy topicId.toNat t.topics.length with hlt | heq | hgt
    · rw [List.getElem?_append_left hlt]
    · simp [heq]
    · have hlen : (t.topics ++ [(⟨name, messageTypeId, priority, [], []⟩ : Topic)]).length ≤
          topicId.toNat := by
        rw [List.length_append, List.length_singleton]
        omega
      rw [List.getElem?_eq_none hlen, List.getElem?_eq_none (by omega)]
  | @addedPublisher nodeId id topic =>
    simp only [ControlRequest.subscriberOf, Option.toList_none, List.append_nil,
      List.getElem?_modify]
    cases t.topics[topicId.toNat]? with
    | none => rfl
    | some entry => by_cases hid : id.toNat = topicId.toNat <;> simp [hid, addTopicPublisher]
  | @addedSubscriber nodeId id topic hnode htopic =>
    simp only [ControlRequest.subscriberOf, List.getElem?_modify]
    by_cases hid : id = topicId
    · subst hid
      simp [htopic, addTopicSubscriber]
    · have hne : id.toNat ≠ topicId.toNat := fun he => hid (UInt32.toNat_inj.mp he)
      cases t.topics[topicId.toNat]? <;> simp [hid, hne]

theorem Handled.addresses {t t' : Tables} {client : String} {c : ControlRequest}
    {a : ControlAnswer} (h : Handled t client c t' (some a)) :
    t'.nodes.map NodeInfo.address =
      t.nodes.map NodeInfo.address ++ if c.isRegisterNode then [client] else [] := by
  cases h <;> simp [ControlRequest.isRegisterNode]

theorem Handled.subscriberOf_known {t t' : Tables} {client : String} {c : ControlRequest}
    {a : ControlAnswer} (h : Handled t client c t' (some a)) {topicId : TopicId} {id : BpNodeId}
    (hid : c.subscriberOf topicId = some id) : id.toNat < t.nodes.length := by
  cases h with
  | addedSubscriber hnode =>
    simp only [ControlRequest.subscriberOf] at hid
    split_ifs at hid
    injection hid with hid
    rw [← hid]
    exact hnode
  | _ => cases hid

end Tables

/-- What the broker holds about subscribers and addresses is what the past says. -/
structure Remembers (t : Tables) (past : List Record) : Prop where
  addresses : t.nodes.map NodeInfo.address = registrations past
  subscribers : ∀ topicId : TopicId, t.subscribersOf topicId = subscriptions past topicId
  known : ∀ topicId, ∀ id ∈ subscriptions past topicId, id.toNat < (registrations past).length

theorem remembers_empty : Remembers {} [] :=
  ⟨rfl, fun _ => by simp [Tables.subscribersOf, subscriptions], by simp [subscriptions]⟩

namespace Broker

variable {text : JsonText}

theorem spinIteration_granted {r : Record}
    (h : r.before.spinIteration text r.arrival.sendto r.arrival.client r.arrival.datagram =
      .ok r.iteration) :
    (r.granted = none ∧ r.iteration.broker.tables = r.before.tables) ∨
      ∃ c a, r.granted = some c ∧
        Tables.Handled r.before.tables r.arrival.client c r.iteration.broker.tables (some a) := by
  obtain ⟨d, _, hit⟩ := spinIteration_iterates h
  generalize hiteration : r.iteration = it at hit
  unfold Record.granted
  rw [hiteration]
  cases hit with
  | refused => exact .inl ⟨rfl, rfl⟩
  | invalid => exact .inl ⟨rfl, rfl⟩
  | unknownType => exact .inl ⟨rfl, rfl⟩
  | data =>
    refine .inl ⟨?_, by rw [processData_broker]; rfl⟩
    split
    · rename_i hdisposal
      exact absurd hdisposal (processData_disposal_ne_control _ _ _ _ _ _)
    · rfl
  | control _ _ hcontrol =>
    obtain ⟨reply, hreply, packet, _, rfl⟩ := processControl_ok hcontrol
    rcases Tables.processControlRequest_tables _ hreply with ⟨hnone, rfl⟩ | ⟨c, hc, hrespond⟩
    · exact .inl ⟨by simp [hnone], rfl⟩
    · obtain ⟨htables, _, hresponse⟩ := Tables.respond_ok hrespond
      have hhandled := r.before.tables.handle_handled r.arrival.client c
      have hbefore : (r.before.checked r.arrival.client r.arrival.datagram
          d.header.counter).tables = r.before.tables := rfl
      rw [hbefore] at htables hresponse
      cases hresult : (r.before.tables.handle r.arrival.client c).result with
      | none =>
        rw [hresult] at hresponse hhandled
        obtain ⟨rpcId, hfail⟩ := hresponse
        refine .inl ⟨?_, htables.trans hhandled.of_none⟩
        simp [hfail, rpcFailureResponse_success]
      | some a =>
        rw [hresult] at hresponse hhandled
        obtain ⟨rpcId, _, hok⟩ := hresponse
        refine .inr ⟨c, a, ?_, ?_⟩
        · simp [hok, hc, ControlAnswer.response_success]
        · rw [← htables] at hhandled
          exact hhandled

/-- An iteration keeps the tables and the history in step. -/
theorem remembers_step {past : List Record} {r : Record}
    (h : r.before.spinIteration text r.arrival.sendto r.arrival.client r.arrival.datagram =
      .ok r.iteration) (hr : Remembers r.before.tables past) :
    Remembers r.iteration.broker.tables (past ++ [r]) := by
  have hlen := congrArg List.length hr.addresses
  rw [List.length_map] at hlen
  rcases spinIteration_granted h with ⟨hnone, htables⟩ | ⟨c, a, hgranted, hhandled⟩
  · have hreg : registrations (past ++ [r]) = registrations past := by
      simp [registrations, hnone]
    have hsub : subscriptions (past ++ [r]) = subscriptions past := by
      funext topicId
      simp [subscriptions, hnone]
    rw [htables]
    exact ⟨by rw [hreg, hr.addresses], by rw [hsub]; exact hr.subscribers, by
      rw [hreg, hsub]; exact hr.known⟩
  · have hreg : registrations (past ++ [r]) =
        registrations past ++ if c.isRegisterNode then [r.arrival.client] else [] := by
      by_cases hc : c.isRegisterNode = true <;> simp [registrations, hgranted, hc]
    have hsub : ∀ topicId, subscriptions (past ++ [r]) topicId =
        subscriptions past topicId ++ (c.subscriberOf topicId).toList := fun topicId => by
      cases hs : c.subscriberOf topicId <;> simp [subscriptions, hgranted, hs]
    refine ⟨?_, fun topicId => ?_, fun topicId id hid => ?_⟩
    · rw [hreg, hhandled.addresses, hr.addresses]
    · rw [hsub, hhandled.subscribersOf, hr.subscribers]
    · rw [hreg, List.length_append]
      rw [hsub, List.mem_append] at hid
      rcases hid with hid | hid
      · exact (hr.known topicId id hid).trans_le (Nat.le_add_right _ _)
      · have hknown := hhandled.subscriberOf_known (Option.mem_toList.mp hid)
        omega

variable (text) in
/-- The history of a run is what the broker remembers before each iteration. -/
theorem spin_remembers {past : List Record} {b : Broker} (hb : Remembers b.tables past)
    (as : List Arrival) (i : ℕ) (hi : i < (b.spin text as).length) :
    Remembers (b.spin text as)[i].before.tables (past ++ (b.spin text as).take i) := by
  induction as generalizing past b i with
  | nil => simp [spin] at hi
  | cons a as ih =>
    rw [spin] at hi
    split at hi
    · simp at hi
    · rename_i it hit
      simp only [spin, hit]
      cases i with
      | zero => simpa using hb
      | succ i =>
        simp only [List.length_cons, Nat.add_lt_add_iff_right] at hi
        have hnext := remembers_step (r := ⟨b, a, it⟩) hit hb
        split_ifs at hi ⊢ with hstop
        · simp at hi
        · simpa using ih hnext i hi

end Broker

/-- What an iteration may send, given the records before it. -/
structure Routed (text : JsonText) (past : List Record) (r : Record) : Prop where
  /-- A control packet is answered to its sender. -/
  control : ∀ request response, r.iteration.disposal = .control request response →
    r.iteration.attempts.map SendAttempt.address = [r.arrival.client]
  /-- Whatever does not decode as a control packet, data above all, or does not pass the counter
  check leaves the tables as they are and the loop running. -/
  tables : ∀ d, decodePacketBuffer text (Memory.load r.arrival.datagram r.before.buffer)
        r.arrival.datagram.length = .ok d →
      ¬ (d.type = .control ∧ (verifyAndUpdateClientCounter r.before.clientCounters
        r.arrival.client d.header.counter).1 = true) →
      r.iteration.broker.tables = r.before.tables ∧ r.iteration.stopped = false
  /-- Nothing is sent for a packet that is neither. -/
  silent : (∀ request response, r.iteration.disposal ≠ .control request response) →
    (∀ header, r.iteration.disposal ≠ .forwarded header) → r.iteration.attempts = []
  /-- What is forwarded passed the counter check and decoded as data of a topic
  with its registered type. -/
  sound : ∀ header, r.iteration.disposal = .forwarded header → ∃ d topic,
    decodePacketBuffer text (Memory.load r.arrival.datagram r.before.buffer)
        r.arrival.datagram.length = .ok d ∧
      (verifyAndUpdateClientCounter r.before.clientCounters r.arrival.client
        d.header.counter).1 = true ∧
      d.type = .data ∧ d.dataHeader = header ∧
      r.before.tables.topics[header.topicId.toNat]? = some topic ∧
      topic.messageTypeId = header.messageTypeId ∧
      header.messageTypeId.toNat < r.before.tables.messageTypes.length
  /-- It goes out unchanged, once for each granted subscription, whatever
  becomes of the other attempts. -/
  attempts : ∀ header, r.iteration.disposal = .forwarded header → r.iteration.attempts =
    (subscriptions past header.topicId).mapIdx fun k id =>
      ⟨registeredAddress past id, r.arrival.datagram,
        r.arrival.sendto k (registeredAddress past id) r.arrival.datagram⟩
  /-- The subscribed nodes have registered. -/
  registered : ∀ topicId, ∀ id ∈ subscriptions past topicId,
    id.toNat < (registrations past).length
  /-- Data of a topic with its registered type is forwarded. -/
  complete : ∀ d topic,
    decodePacketBuffer text (Memory.load r.arrival.datagram r.before.buffer)
        r.arrival.datagram.length = .ok d →
      (verifyAndUpdateClientCounter r.before.clientCounters r.arrival.client
        d.header.counter).1 = true →
      d.type = .data → r.before.tables.topics[d.dataHeader.topicId.toNat]? = some topic →
      topic.messageTypeId = d.dataHeader.messageTypeId →
      d.dataHeader.messageTypeId.toNat < r.before.tables.messageTypes.length →
      r.iteration.disposal = .forwarded d.dataHeader

namespace Broker

variable {text : JsonText}

theorem nodeAddress_eq (t : Tables) (id : BpNodeId) :
    nodeAddress t id = (t.nodes.map NodeInfo.address).getD id.toNat "" := by
  unfold nodeAddress
  rw [List.getD_eq_getElem?_getD, List.getElem?_map]
  cases t.nodes[id.toNat]? <;> rfl

theorem processData_quiet (b : Broker) (sendto : Sendto) (packet : Bytes)
    (header : BpDataHeader) :
    (processData b sendto packet header).stopped = false ∧
      ((∀ h, (processData b sendto packet header).disposal ≠ .forwarded h) →
        (processData b sendto packet header).attempts = []) := by
  simp only [processData]
  split
  · exact ⟨rfl, fun _ => rfl⟩
  · split_ifs
    · exact ⟨rfl, fun _ => rfl⟩
    · exact ⟨rfl, fun _ => rfl⟩
    · exact ⟨rfl, fun h => absurd rfl (h header)⟩

theorem processData_forwarded {b : Broker} {sendto : Sendto} {packet : Bytes}
    {header h : BpDataHeader}
    (hd : (processData b sendto packet header).disposal = .forwarded h) :
    h = header ∧ ∃ topic, b.tables.topics[header.topicId.toNat]? = some topic ∧
      topic.messageTypeId = header.messageTypeId ∧
      header.messageTypeId.toNat < b.tables.messageTypes.length ∧
      (processData b sendto packet header).attempts =
        forward b.tables sendto packet topic.subscribers := by
  simp only [processData] at hd ⊢
  cases htopic : b.tables.topics[header.topicId.toNat]? with
  | none => simp [htopic] at hd
  | some topic =>
    simp only [htopic] at hd ⊢
    split_ifs at hd ⊢ with hknown hmatch
    · injection hd with hd
      exact ⟨hd.symm, topic, rfl, by simpa using hmatch, by omega, rfl⟩

theorem processData_complete {b : Broker} {header : BpDataHeader} {topic : Topic}
    (htopic : b.tables.topics[header.topicId.toNat]? = some topic)
    (hmatch : topic.messageTypeId = header.messageTypeId)
    (hknown : header.messageTypeId.toNat < b.tables.messageTypes.length) (sendto : Sendto)
    (packet : Bytes) : (processData b sendto packet header).disposal = .forwarded header := by
  simp only [processData, htopic]
  rw [if_neg (by omega), if_neg (by simpa using hmatch)]

theorem routed_of_dropped {past : List Record} {r : Record} {d : Decoded}
    (hr : Remembers r.before.tables past)
    (hd : decodePacketBuffer text (Memory.load r.arrival.datagram r.before.buffer)
      r.arrival.datagram.length = .ok d)
    (hnot : (verifyAndUpdateClientCounter r.before.clientCounters r.arrival.client
      d.header.counter).1 = true → d.type ≠ .data)
    (hcontrol : ∀ request response, r.iteration.disposal ≠ .control request response)
    (hforwarded : ∀ header, r.iteration.disposal ≠ .forwarded header)
    (hquiet : r.iteration.broker.tables = r.before.tables ∧ r.iteration.stopped = false ∧
      r.iteration.attempts = []) : Routed text past r where
  control _ _ h := absurd h (hcontrol _ _)
  tables _ _ _ := ⟨hquiet.1, hquiet.2.1⟩
  silent _ _ := hquiet.2.2
  sound _ h := absurd h (hforwarded _)
  attempts _ h := absurd h (hforwarded _)
  registered := hr.known
  complete d' _ hd' hv htype _ _ _ := by
    rw [hd] at hd'
    injection hd' with hd'
    subst hd'
    exact absurd htype (hnot hv)

theorem routed_of_remembers {past : List Record} {r : Record}
    (hr : Remembers r.before.tables past)
    (h : r.before.spinIteration text r.arrival.sendto r.arrival.client r.arrival.datagram =
      .ok r.iteration) : Routed text past r := by
  obtain ⟨d, hd, hit⟩ := spinIteration_iterates h
  generalize hiteration : r.iteration = it at hit
  cases hit with
  | refused hv =>
    refine routed_of_dropped hr hd (fun hv' => ?_) ?_ ?_ ?_
    · rw [hv] at hv'
      cases hv'
    all_goals simp [hiteration, checked]
  | invalid _ htype =>
    refine routed_of_dropped hr hd (fun _ => by simp [htype]) ?_ ?_ ?_
    all_goals simp [hiteration, checked]
  | unknownType _ htype =>
    refine routed_of_dropped hr hd (fun _ => by simp [htype]) ?_ ?_ ?_
    all_goals simp [hiteration, checked]
  | control hv htype hcontrol =>
    obtain ⟨reply, _, packet, _, rfl⟩ := processControl_ok hcontrol
    refine ⟨fun _ _ _ => ?_, fun d' hd' hne => ?_, fun hne => ?_, fun _ hf => ?_, fun _ hf => ?_,
      hr.known, fun d' _ hd' _ htype' => ?_⟩
    · rw [hiteration]
      rfl
    · rw [hd] at hd'
      injection hd' with hd'
      subst hd'
      exact absurd ⟨htype, hv⟩ hne
    · exact absurd (by rw [hiteration]) (hne d.controlJson reply.response)
    · rw [hiteration] at hf
      cases hf
    · rw [hiteration] at hf
      cases hf
    · rw [hd] at hd'
      injection hd' with hd'
      rw [← hd', htype] at htype'
      cases htype'
  | data hv htype =>
    have htables : (r.before.checked r.arrival.client r.arrival.datagram
        d.header.counter).tables = r.before.tables := rfl
    refine ⟨fun _ _ hc => ?_, fun _ _ _ => ?_, fun _ hne => ?_, fun header hf => ?_,
      fun header hf => ?_, hr.known, fun d' topic hd' _ _ htopic hmatch hknown => ?_⟩
    · rw [hiteration] at hc
      exact absurd hc (processData_disposal_ne_control _ _ _ _ _ _)
    · rw [hiteration, processData_broker]
      exact ⟨rfl, (processData_quiet _ _ _ _).1⟩
    · rw [hiteration] at hne ⊢
      exact (processData_quiet _ _ _ _).2 hne
    · rw [hiteration] at hf
      obtain ⟨rfl, topic, htopic, hmatch, hknown, _⟩ := processData_forwarded hf
      exact ⟨d, topic, hd, hv, htype, rfl, htopic, hmatch, hknown⟩
    · rw [hiteration] at hf ⊢
      obtain ⟨rfl, topic, htopic, _, _, hattempts⟩ := processData_forwarded hf
      have hsubscribers : topic.subscribers = subscriptions past d.dataHeader.topicId := by
        rw [← hr.subscribers, Tables.subscribersOf, ← htables, htopic]
        rfl
      rw [hattempts, forward, hsubscribers]
      simp only [nodeAddress_eq, htables, hr.addresses]
      rfl
    · rw [hd] at hd'
      injection hd' with hd'
      subst hd'
      rw [hiteration]
      exact processData_complete (b := r.before.checked _ _ _) htopic hmatch hknown _ _

/-- Routing follows the history in every run of the broker. -/
theorem spin_routed (as : List Arrival) (i : Fin (started.spin text as).length) :
    Routed text ((started.spin text as).take i) (started.spin text as)[i] := by
  have hremembers := spin_remembers text (b := started) remembers_empty as i i.isLt
  rw [List.nil_append] at hremembers
  exact routed_of_remembers hremembers (spinIteration_of_mem_spin (List.getElem_mem i.isLt))

end Broker

end Crps
