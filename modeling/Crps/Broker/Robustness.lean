import Crps.Broker.Atomicity
import Crps.Broker.References
import Crps.Broker.Sizes

/-!
# What a datagram can do to the broker

An iteration can leave the loop by an exception of the JSON library or by a
response that could not be sent, and it can read past the end of a table while
it writes its log. The datagrams that do neither are characterized by their
bytes, the tables and the stored counters.
-/

namespace Crps

/-- A response a node takes for a failure: the empty one, or one that says so. -/
def Json.Fails (response : Json) : Prop :=
  response.isEmpty = true ∨ response.field "success" = .ok (.boolean false)

theorem Json.not_fails_of_success {response : Json}
    (h : response.field "success" = .ok (.boolean true)) : ¬ response.Fails := by
  rintro (hempty | hfalse)
  · cases response with
    | null | boolean | number | float | string | array => cases h
    | object fields =>
      cases fields with
      | nil => cases h
      | cons => cases hempty
  · rw [h] at hfalse
    cases hfalse

def ControlRequest.topicOf : ControlRequest → Option TopicId
  | addPublisher _ topicId _ => some topicId
  | addSubscriber _ topicId _ => some topicId
  | _ => none

namespace Tables

variable {t : Tables} {client : String} {request response : Json}

/-- A request without a handler, or about a topic that does not exist. -/
def AsksUnknown (t : Tables) (request : Json) : Prop :=
  ControlRequest.ofJson request = .ok none ∨ ∃ c topicId,
    ControlRequest.ofJson request = .ok (some c) ∧ c.topicOf = some topicId ∧
      t.topics.length ≤ topicId.toNat

/-- The requests that are answered within the tables: every field their handler and the response
take is there and of its type, and a topic is not registered for an unknown message type. -/
inductive Answers (t : Tables) (client : String) (request : Json) : Json → Prop
  | unhandled : ControlRequest.ofJson request = .ok none → Answers t client request .null
  | refused {c : ControlRequest} {rpcId : Json} {id : Int32} :
      ControlRequest.ofJson request = .ok (some c) → t.NamesKnownType c →
      (t.handle client c).result = none → request.field "rpc_id" = .ok rpcId →
      rpcId.toInt32 = .ok id →
      Answers t client request (rpcFailureResponse id 0 c.errorMessage)
  | granted {c : ControlRequest} {rpcId : Json} {a : ControlAnswer} :
      ControlRequest.ofJson request = .ok (some c) → t.NamesKnownType c →
      (t.handle client c).result = some a → request.field "rpc_id" = .ok rpcId →
      Answers t client request (a.response rpcId)

theorem handle_inRange_iff (hi : t.Intact) (client : String) (c : ControlRequest) :
    (∀ x ∈ (t.handle client c).accesses, x.InRange) ↔ t.NamesKnownType c := by
  constructor
  · intro hrange
    cases c with
    | registerTopic name messageTypeId priority =>
      exact (registerTopic_inRange_iff hi name messageTypeId priority).mp hrange
    | registerNode | registerMessageType | addPublisher | addSubscriber => trivial
  · intro hknown
    exact ((handle_good_iff hi client c).mpr hknown).2.2

theorem answers_of_reply (hi : t.Intact) {reply : ControlReply}
    (h : t.processControlRequest client request = .ok reply)
    (hrange : ∀ x ∈ reply.accesses, x.InRange) : t.Answers client request reply.response := by
  rcases processControlRequest_tables _ h with ⟨hc, rfl⟩ | ⟨c, hc, hrespond⟩
  · exact .unhandled hc
  · obtain ⟨_, haccesses, _⟩ := respond_ok hrespond
    have hknown := (handle_inRange_iff hi client c).mp (haccesses ▸ hrange)
    cases hresult : (t.handle client c).result with
    | none =>
      simp only [respond, hresult, bind, Except.bind] at hrespond
      split at hrespond
      · cases hrespond
      · rename_i rpcId hrpc
        split at hrespond
        · cases hrespond
        · rename_i id hid
          injection hrespond with hreply
          rw [← hreply]
          exact .refused hc hknown hresult hrpc hid
    | some a =>
      simp only [respond, hresult, bind, Except.bind] at hrespond
      split at hrespond
      · cases hrespond
      · rename_i rpcId hrpc
        injection hrespond with hreply
        rw [← hreply]
        exact .granted hc hknown hresult hrpc

theorem reply_of_answers (hi : t.Intact) (h : t.Answers client request response) :
    ∃ reply, t.processControlRequest client request = .ok reply ∧ reply.response = response ∧
      ∀ x ∈ reply.accesses, x.InRange := by
  rw [processControlRequest_eq]
  cases h with
  | unhandled hc =>
    rw [hc]
    exact ⟨_, rfl, rfl, by simp⟩
  | refused hc hknown hresult hrpc hid =>
    rw [hc]
    simp only [Except.bind, respond, hresult, hrpc, hid, bind]
    exact ⟨_, rfl, rfl, (handle_inRange_iff hi client _).mpr hknown⟩
  | granted hc hknown hresult hrpc =>
    rw [hc]
    simp only [Except.bind, respond, hresult, hrpc, bind]
    exact ⟨_, rfl, rfl, (handle_inRange_iff hi client _).mpr hknown⟩

theorem fails_of_asksUnknown {reply : ControlReply}
    (h : t.processControlRequest client request = .ok reply) (hunknown : t.AsksUnknown request) :
    reply.response.Fails ∧ reply.tables = t := by
  rcases processControlRequest_tables _ h with ⟨hc, rfl⟩ | ⟨c, hc, hrespond⟩
  · exact ⟨.inl rfl, rfl⟩
  · obtain ⟨htables, _, hresponse⟩ := respond_ok hrespond
    rcases hunknown with hnone | ⟨c', topicId, hc', htopic, hlen⟩
    · rw [hnone] at hc
      cases hc
    · rw [hc'] at hc
      injection hc with hc
      injection hc with hc
      subst hc
      have hadd : ∀ nodeId messageTypeId add,
          (t.addEndpoint nodeId topicId messageTypeId add).result = none ∧
            (t.addEndpoint nodeId topicId messageTypeId add).tables = t := by
        intro nodeId messageTypeId add
        have hinvalid : (t.validateTopicParameters nodeId topicId messageTypeId).1 = false := by
          simp only [validateTopicParameters, List.getElem?_eq_none hlen]
          split_ifs <;> rfl
        simp [addEndpoint, hinvalid]
      have hrefused : (t.handle client c').result = none ∧ (t.handle client c').tables = t := by
        cases c' with
        | addPublisher nodeId topicId' messageTypeId =>
          injection htopic with htopic
          subst htopic
          obtain ⟨hresult, hsame⟩ := hadd nodeId messageTypeId _
          exact ⟨congrArg (Option.map _) hresult, hsame⟩
        | addSubscriber nodeId topicId' messageTypeId =>
          injection htopic with htopic
          subst htopic
          obtain ⟨hresult, hsame⟩ := hadd nodeId messageTypeId _
          exact ⟨congrArg (Option.map _) hresult, hsame⟩
        | registerNode | registerMessageType | registerTopic => cases htopic
      rw [hrefused.1] at hresponse
      obtain ⟨id, hfailure⟩ := hresponse
      rw [hfailure]
      exact ⟨.inr (rpcFailureResponse_success _ _ _), htables.trans hrefused.2⟩

theorem tables_of_fails {reply : ControlReply}
    (h : t.processControlRequest client request = .ok reply) (hfails : reply.response.Fails) :
    reply.tables = t := by
  rcases processControlRequest_tables _ h with ⟨_, rfl⟩ | ⟨c, hc, hrespond⟩
  · rfl
  · obtain ⟨htables, _, hresponse⟩ := respond_ok hrespond
    have hhandled := t.handle_handled client c
    cases hresult : (t.handle client c).result with
    | none =>
      rw [hresult] at hhandled
      exact htables.trans hhandled.tables_of_refused
    | some a =>
      rw [hresult] at hresponse
      obtain ⟨rpcId, _, hgranted⟩ := hresponse
      rw [hgranted] at hfails
      exact absurd hfails (Json.not_fails_of_success (a.response_success rpcId))

end Tables

/-- A control or data packet that holds its headers and all that they announce, in a buffer with
these earlier contents; a control packet's text ends at a 32-bit offset. -/
def WellFormed (packet : Bytes) (old : Memory) : Prop :=
  (packet.head? = some 1 ∧ 9 + controlSize (Memory.load packet old) < 2 ^ 32 ∧
      9 + controlSize (Memory.load packet old) ≤ packet.length) ∨
    packet.head? = some 2 ∧ 17 ≤ packet.length ∧
      17 + dataSize (Memory.load packet old) ≤ packet.length

theorem wellFormed_control_iff {packet : Bytes} (hb : packet.head? = some 1) {old : Memory}
    (hend : endOffset (controlSize (Memory.load packet old)) ≤ packet.length) :
    WellFormed packet old ↔ ¬ endOffset (controlSize (Memory.load packet old)) < 9 := by
  have hlt := controlSize_lt (Memory.load packet old)
  rw [endOffset_eq] at hend ⊢
  simp only [WellFormed, hb, Option.some.injEq, true_and]
  constructor
  · rintro (hframed | ⟨htwo, _⟩)
    · omega
    · exact absurd htwo (by decide)
  · intro hle
    exact .inl (by omega)

namespace Broker

variable (text : JsonText) {b : Broker} {a : Arrival}

/-- The iteration goes back to the loop, has read inside the tables only, and has ignored or
turned down what is malformed or about something unknown. -/
structure Unharmed (b : Broker) (a : Arrival) (it : Iteration) : Prop where
  continues : it.stopped = false
  inRange : ∀ x ∈ it.accesses ++ it.debugAccesses, x.InRange
  ignored : (∀ request response, it.disposal ≠ .control request response) →
    (∀ header, it.disposal ≠ .forwarded header) →
      it.attempts = [] ∧ it.broker.tables = b.tables
  refused : ∀ request response, it.disposal = .control request response →
    ¬ WellFormed a.datagram b.buffer ∨ b.tables.AsksUnknown request →
      response.Fails ∧ it.broker.tables = b.tables
  forwarded : ∀ header, it.disposal = .forwarded header →
    header.topicId.toNat < b.tables.topics.length ∧ it.broker.tables = b.tables ∧
      (it.attempts = [] ∨ WellFormed a.datagram b.buffer)

/-- The control packets the loop gets over: what the parser takes parses, and if the packet is the
client's next, the request is answered and the response goes out; it is a failure if the end offset
has wrapped. -/
def ControlHarmless (b : Broker) (a : Arrival) : Prop :=
  let buffer := Memory.load a.datagram b.buffer
  let last := endOffset (controlSize buffer)
  last ≤ a.datagram.length →
    ∃ request, text.parse (parserInput buffer 9 last) = some request ∧
      (b.Expects a.client (packetCounter a.datagram) →
        ∃ response, b.tables.Answers a.client request response ∧ (last < 9 → response.Fails) ∧
          a.sendto 0 a.client
            (bpControlJsonToPacketBuffer text response (packetCounter a.datagram)) = true)

/-- The data packets the loop gets over: if one is the client's next, its topic exists, and if it
has the topic's type and there are subscribers, it is well-formed. -/
def DataHarmless (b : Broker) (a : Arrival) : Prop :=
  let header := b.dataHeader a.datagram
  endOffset header.size.toNat ≤ a.datagram.length →
    b.Expects a.client (packetCounter a.datagram) →
      ∃ topic, b.tables.topics[header.topicId.toNat]? = some topic ∧
        (topic.messageTypeId = header.messageTypeId →
          topic.subscribers = [] ∨ WellFormed a.datagram b.buffer)

def Harmless (b : Broker) (a : Arrival) : Prop :=
  5 ≤ a.datagram.length →
    (a.datagram.head? = some 1 → b.ControlHarmless text a) ∧
    (a.datagram.head? = some 2 → b.DataHarmless a)

/-- An iteration that only looked at the counter. -/
structure Quiet (b : Broker) (it : Iteration) : Prop where
  continues : it.stopped = false
  accesses : it.accesses ++ it.debugAccesses = []
  attempts : it.attempts = []
  tables : it.broker.tables = b.tables
  control : ∀ request response, it.disposal ≠ .control request response
  forwarded : ∀ header, it.disposal ≠ .forwarded header

theorem Quiet.unharmed {it : Iteration} (h : b.Quiet it) (a : Arrival) : b.Unharmed a it where
  continues := h.continues
  inRange := by
    rw [h.accesses]
    simp
  ignored _ _ := ⟨h.attempts, h.tables⟩
  refused _ _ hdisposal := absurd hdisposal (h.control _ _)
  forwarded _ hdisposal := absurd hdisposal (h.forwarded _)

variable {text} {sendto : Sendto} {client : String} {datagram : Bytes} {d : Decoded}

theorem quiet_of_decode
    (hd : decodePacketBuffer text (Memory.load datagram b.buffer) datagram.length = .ok d)
    (h : (verifyAndUpdateClientCounter b.clientCounters client d.header.counter).1 = false ∨
      (d.type ≠ .control ∧ d.type ≠ .data)) (sendto : Sendto) :
    ∃ it, b.spinIteration text sendto client datagram = .ok it ∧ b.Quiet it := by
  simp only [spinIteration, hd, bind, Except.bind]
  cases hverified : (verifyAndUpdateClientCounter b.clientCounters client d.header.counter).1 with
  | false => exact ⟨_, rfl, rfl, rfl, rfl, rfl, by simp, by simp⟩
  | true =>
    rw [hverified] at h
    obtain ⟨hcontrol, hdata⟩ := h.resolve_left (by simp)
    cases htype : d.type with
    | control => exact absurd htype hcontrol
    | data => exact absurd htype hdata
    | invalid => exact ⟨_, rfl, rfl, rfl, rfl, rfl, by simp, by simp⟩
    | other byte => exact ⟨_, rfl, rfl, rfl, rfl, rfl, by simp, by simp⟩

/-- The loop comes back from the datagram with the broker unharmed. -/
def Survives (text : JsonText) (b : Broker) (a : Arrival) : Prop :=
  ∃ it, b.spinIteration text a.sendto a.client a.datagram = .ok it ∧ b.Unharmed a it

theorem survives_of_quiet
    (hd : decodePacketBuffer text (Memory.load a.datagram b.buffer) a.datagram.length = .ok d)
    (h : (verifyAndUpdateClientCounter b.clientCounters a.client d.header.counter).1 = false ∨
      (d.type ≠ .control ∧ d.type ≠ .data)) : b.Survives text a := by
  obtain ⟨it, hit, hquiet⟩ := quiet_of_decode hd h a.sendto
  exact ⟨it, hit, hquiet.unharmed a⟩

theorem not_survives_of_fault {fault : Fault}
    (hd : decodePacketBuffer text (Memory.load a.datagram b.buffer) a.datagram.length =
      .error fault) : ¬ b.Survives text a := by
  rintro ⟨it, hit, _⟩
  simp only [spinIteration, hd] at hit
  cases hit

/-- The dispatcher's part: an accepted request is survived if it is answered in range, with a
failure unless the packet is well-formed, and the response is sent. -/
theorem request_survives_iff (hi : b.tables.Intact)
    (hd : decodePacketBuffer text (Memory.load a.datagram b.buffer) a.datagram.length = .ok d)
    (htype : d.type = .control)
    (hpass : b.Expects a.client d.header.counter) :
    b.Survives text a ↔ ∃ response, b.tables.Answers a.client d.controlJson response ∧
      (¬ WellFormed a.datagram b.buffer → response.Fails) ∧
      a.sendto 0 a.client (bpControlJsonToPacketBuffer text response d.header.counter) = true := by
  have hverify := verify_of_expects hpass
  have hspin := spinIteration_of_control a.sendto hd (by rw [hverify]) htype
  have hcounter : ((b.checked a.client a.datagram d.header.counter).clientCounters
      a.client).getD 0 = d.header.counter := by
    simp only [checked, hverify, Function.update_self, Option.getD_some]
  unfold Survives
  rw [hspin]
  constructor
  · rintro ⟨it, hit, hunharmed⟩
    obtain ⟨reply, hreply, packet, hpacket, rfl⟩ := processControl_ok hit
    rw [hcounter] at hpacket
    refine ⟨reply.response, Tables.answers_of_reply hi hreply fun x hx => ?_, fun hmalformed => ?_,
      ?_⟩
    · exact hunharmed.inRange x (List.mem_append_left _ hx)
    · exact (hunharmed.refused _ _ rfl (.inl hmalformed)).1
    · rw [← hpacket]
      simpa using hunharmed.continues
  · rintro ⟨response, hanswers, hfails, hsent⟩
    obtain ⟨reply, hreply, rfl, hrange⟩ := Tables.reply_of_answers hi hanswers
    have hchecked : (b.checked a.client a.datagram d.header.counter).tables.processControlRequest
        a.client d.controlJson = .ok reply := hreply
    simp only [processControl, hchecked, bind, Except.bind, pure, Except.pure, hcounter, hsent]
    refine ⟨_, rfl, rfl, fun x hx => ?_, fun hcontrol => ?_, ?_, ?_⟩
    · exact hrange x (by simpa using hx)
    · exact absurd rfl (hcontrol _ _)
    · intro request response hdisposal hcause
      injection hdisposal with hrequest hresponse
      subst hrequest hresponse
      rcases hcause with hmalformed | hunknown
      · exact ⟨hfails hmalformed, Tables.tables_of_fails hreply (hfails hmalformed)⟩
      · exact Tables.fails_of_asksUnknown hreply hunknown
    · intro header hdisposal
      cases hdisposal

theorem control_survives_iff (hi : b.tables.Intact) (hb : a.datagram.head? = some 1)
    (hn : 5 ≤ a.datagram.length) : b.Survives text a ↔ b.ControlHarmless text a := by
  have hdecode : decodePacketBuffer text (Memory.load a.datagram b.buffer) a.datagram.length =
      decodeControl text (Memory.load a.datagram b.buffer) a.datagram.length
        (packetHeader a.datagram) := decode_byType text hb hn b.buffer
  have htype : (packetHeader a.datagram).type = .control := packetHeader_type hb
  simp only [ControlHarmless]
  by_cases hend : endOffset (controlSize (Memory.load a.datagram b.buffer)) > a.datagram.length
  · rw [decodeControl_of_gt text hend] at hdecode
    refine iff_of_true (survives_of_quiet hdecode (.inr ⟨by simp, by simp⟩)) fun hle => ?_
    exact absurd hend (Nat.not_lt.mpr hle)
  · have hle := Nat.not_lt.mp hend
    rw [decodeControl_of_le text hend] at hdecode
    cases hparse : text.parse (parserInput (Memory.load a.datagram b.buffer) 9
        (endOffset (controlSize (Memory.load a.datagram b.buffer)))) with
    | none =>
      have hfault : decodePacketBuffer text (Memory.load a.datagram b.buffer)
          a.datagram.length = .error .parseError := by
        rw [hdecode]
        simp only [bpHeaderSize, bpControlHeaderSize, Nat.reduceAdd, hparse]
      refine iff_of_false (not_survives_of_fault hfault) fun h => ?_
      obtain ⟨request, hrequest, _⟩ := h hle
      cases hrequest
    | some request =>
      have hd : decodePacketBuffer text (Memory.load a.datagram b.buffer)
          a.datagram.length = .ok {
            type := .control
            header := packetHeader a.datagram
            controlHeader := {
              size := readBe32 (Memory.load a.datagram b.buffer) bpHeaderSize }
            controlJson := request } := by
        rw [hdecode, htype]
        simp only [bpHeaderSize, bpControlHeaderSize, Nat.reduceAdd, hparse]
      by_cases hpass : b.Expects a.client (packetCounter a.datagram)
      · rw [request_survives_iff hi hd rfl hpass, wellFormed_control_iff hb hle, not_not]
        constructor
        · intro hanswered _
          exact ⟨request, rfl, fun _ => hanswered⟩
        · intro h
          obtain ⟨request', hrequest, hanswered⟩ := h hle
          injection hrequest with hsame
          exact hsame ▸ hanswered hpass
      · have hrefused : (verifyAndUpdateClientCounter b.clientCounters a.client
            (packetHeader a.datagram).counter).1 = false := by
          rw [Bool.eq_false_iff]
          exact fun htrue => hpass ((verify_iff _ _ _).mp htrue)
        refine iff_of_true (survives_of_quiet hd (.inl hrefused)) fun _ => ?_
        exact ⟨request, rfl, fun h => absurd h hpass⟩

/-- Where the log's access is in range, the others are, too. -/
theorem processData_debugAccesses (sendto : Sendto) (packet : Bytes) (header : BpDataHeader) :
    (processData b sendto packet header).debugAccesses =
      [b.tables.topicAccess header.topicId] := by
  simp only [processData]
  split
  · rfl
  · split_ifs <;> rfl

theorem processData_of_topic (hi : b.tables.Intact) (sendto : Sendto) (packet : Bytes)
    {header : BpDataHeader} {topic : Topic}
    (htopic : b.tables.topics[header.topicId.toNat]? = some topic) :
    if topic.messageTypeId = header.messageTypeId then
      (processData b sendto packet header).disposal = .forwarded header ∧
        (processData b sendto packet header).attempts =
          forward b.tables sendto packet topic.subscribers
    else ∀ header', (processData b sendto packet header).disposal ≠ .forwarded header' := by
  split_ifs with htype
  · have hknown := hi.messageTypes topic (List.mem_of_getElem? htopic)
    rw [htype] at hknown
    simp only [processData, htopic, htype, ne_eq, not_true_eq_false, if_false]
    rw [if_neg (Nat.not_le.mpr hknown)]
    exact ⟨rfl, rfl⟩
  · intro header'
    simp only [processData, htopic, ne_eq, htype, not_false_eq_true, if_true]
    split_ifs <;> simp

/-- The log reads the topic's name before its id is checked, and no size is looked at. -/
theorem processData_unharmed_iff (hi : b.tables.Intact) (client : String) (datagram : Bytes)
    (counter : BpCounter) (sendto : Sendto) (packet : Bytes) (header : BpDataHeader) :
    b.Unharmed a (processData (b.checked client datagram counter) sendto packet header) ↔
      ∃ topic, b.tables.topics[header.topicId.toNat]? = some topic ∧
        (topic.messageTypeId = header.messageTypeId →
          topic.subscribers = [] ∨ WellFormed a.datagram b.buffer) := by
  obtain ⟨b', hb', htables⟩ : ∃ b', b' = b.checked client datagram counter ∧
      b'.tables = b.tables := ⟨_, rfl, rfl⟩
  rw [← hb', ← htables]
  have hi' : b'.tables.Intact := htables ▸ hi
  have hquiet := processData_quiet b' sendto packet header
  have hrange := processData_inRange hi' sendto packet header
  have hlog := processData_debugAccesses (b := b') sendto packet header
  constructor
  · intro hunharmed
    have hknown : header.topicId.toNat < b'.tables.topics.length :=
      hunharmed.inRange (b'.tables.topicAccess header.topicId)
        (List.mem_append_right _ (by rw [hlog]; exact List.mem_cons_self))
    refine ⟨_, List.getElem?_eq_getElem hknown, fun htype => ?_⟩
    have hforward := processData_of_topic hi' sendto packet (List.getElem?_eq_getElem hknown)
    rw [if_pos htype] at hforward
    refine (hunharmed.forwarded header hforward.1).2.2.imp_left fun hnone => ?_
    rw [hforward.2, forward, List.mapIdx_eq_nil_iff] at hnone
    exact hnone
  · rintro ⟨topic, htopic, hframed⟩
    have hknown : header.topicId.toNat < b'.tables.topics.length :=
      (List.getElem?_eq_some_iff.mp htopic).1
    refine ⟨?_, fun x hx => ?_, fun _ hforwarded => ?_, ?_, fun header' hdisposal => ?_⟩
    · exact hquiet.1
    · rw [hlog] at hx
      rcases List.mem_append.mp hx with hx | hx
      · exact hrange x hx
      · rw [List.mem_singleton.mp hx]
        exact hknown
    · rw [processData_broker]
      exact ⟨hquiet.2 hforwarded, htables⟩
    · intro request response hdisposal
      exact absurd hdisposal (processData_disposal_ne_control _ _ _ _ _ _)
    · rw [processData_broker]
      obtain ⟨rfl, _⟩ := processData_forwarded hdisposal
      have hforward := processData_of_topic hi' sendto packet htopic
      refine ⟨htables ▸ hknown, htables, ?_⟩
      split_ifs at hforward with htype
      · refine (hframed htype).imp_left fun hnone => ?_
        rw [hforward.2, hnone]
        rfl
      · exact absurd hdisposal (hforward _)

theorem data_survives_iff (hi : b.tables.Intact) (hb : a.datagram.head? = some 2)
    (hn : 5 ≤ a.datagram.length) : b.Survives text a ↔ b.DataHarmless a := by
  have hd := @decode_dataHeader text b a.datagram hb hn
  by_cases hend : endOffset (b.dataHeader a.datagram).size.toNat > a.datagram.length
  · rw [if_pos hend] at hd
    refine iff_of_true (survives_of_quiet hd (.inr ⟨by simp, by simp⟩)) fun hle => ?_
    exact absurd hle (Nat.not_le.mpr hend)
  · rw [if_neg hend] at hd
    by_cases hpass : b.Expects a.client (packetCounter a.datagram)
    · have hverify := (verify_iff _ _ _).mpr hpass
      have hdata := processData_unharmed_iff (a := a) hi a.client a.datagram
        (packetHeader a.datagram).counter a.sendto a.datagram (b.dataHeader a.datagram)
      have hspin := spinIteration_of_data a.sendto hd hverify rfl
      unfold Survives
      rw [hspin]
      constructor
      · rintro ⟨it, hit, hunharmed⟩
        injection hit with hit
        subst hit
        exact fun _ _ => hdata.mp hunharmed
      · intro h
        exact ⟨_, rfl, hdata.mpr (h (Nat.not_lt.mp hend) hpass)⟩
    · have hrefused : (verifyAndUpdateClientCounter b.clientCounters a.client
          (packetHeader a.datagram).counter).1 = false := by
        rw [Bool.eq_false_iff]
        exact fun htrue => hpass ((verify_iff _ _ _).mp htrue)
      exact iff_of_true (survives_of_quiet hd (.inl hrefused)) fun _ h => absurd h hpass

/-- From intact tables, the datagrams the loop survives are the harmless ones. -/
theorem survives_iff (hi : b.tables.Intact) : b.Survives text a ↔ b.Harmless text a := by
  unfold Harmless
  by_cases hn : a.datagram.length < 5
  · refine iff_of_true ?_ fun h => absurd h (by omega)
    exact survives_of_quiet (decode_short text hn b.buffer) (.inr ⟨by simp, by simp⟩)
  · have hfive : 5 ≤ a.datagram.length := by omega
    obtain ⟨byte, hbyte⟩ : ∃ byte, a.datagram.head? = some byte := by
      cases hdatagram : a.datagram with
      | nil =>
        rw [hdatagram] at hn
        exact absurd (by decide) hn
      | cons byte rest => exact ⟨byte, rfl⟩
    by_cases hcontrol : byte = 1
    · subst hcontrol
      rw [control_survives_iff hi hbyte hfive, hbyte]
      simp [hfive]
    · by_cases hdata : byte = 2
      · subst hdata
        rw [data_survives_iff hi hbyte hfive, hbyte]
        simp [hfive]
      · refine iff_of_true ?_ fun _ => ⟨fun h => ?_, fun h => ?_⟩
        · have hd := decode_byType text hbyte hfive b.buffer
          simp only [BpType.ofByte, if_neg hcontrol, if_neg hdata] at hd
          split_ifs at hd with h3
          · exact survives_of_quiet hd (.inr ⟨by simp, by simp⟩)
          · exact survives_of_quiet hd (.inr ⟨by simp, by simp⟩)
        · rw [hbyte] at h
          exact absurd (Option.some.inj h) hcontrol
        · rw [hbyte] at h
          exact absurd (Option.some.inj h) hdata

/-! ## Runs -/

theorem Unharmed.intact {it : Iteration} (hi : b.tables.Intact)
    (hit : b.spinIteration text a.sendto a.client a.datagram = .ok it) (h : b.Unharmed a it) :
    it.broker.tables.Intact := by
  have hsound : Record.Sound ⟨b, a, it⟩ ↔ Record.RegistersKnownType ⟨b, a, it⟩ :=
    spinIteration_sound_iff (r := ⟨b, a, it⟩) hi hit
  refine (hsound.mpr fun request response c hdisposal hc => ?_).1
  obtain ⟨d, _, hiterates⟩ := spinIteration_iterates hit
  cases hiterates with
  | refused | invalid | unknownType => cases hdisposal
  | data => exact absurd hdisposal (processData_disposal_ne_control _ _ _ _ _ _)
  | control _ _ hcontrol =>
    obtain ⟨reply, hreply, packet, _, rfl⟩ := processControl_ok hcontrol
    injection hdisposal with hrequest _
    subst hrequest
    rcases Tables.processControlRequest_tables _ hreply with ⟨hnone, _⟩ | ⟨c', hc', hrespond⟩
    · rw [hc] at hnone
      cases hnone
    · rw [hc] at hc'
      injection hc' with hc'
      injection hc' with hc'
      subst hc'
      obtain ⟨_, haccesses, _⟩ := Tables.respond_ok hrespond
      apply (Tables.handle_inRange_iff hi a.client c).mp
      intro x hx
      exact h.inRange x (List.mem_append_left _ (haccesses ▸ hx))

/-- The loop gets through all arrivals, and none of them harms the broker. -/
def Served (text : JsonText) (b : Broker) (as : List Arrival) : Prop :=
  (b.spin text as).map Record.arrival = as ∧
    ∀ r ∈ b.spin text as, r.before.Unharmed r.arrival r.iteration

/-- Every arrival is harmless to the broker it finds. -/
def HarmlessAll (text : JsonText) : Broker → List Arrival → Prop
  | _, [] => True
  | b, a :: as => b.Harmless text a ∧
      ∀ it, b.spinIteration text a.sendto a.client a.datagram = .ok it →
        it.broker.HarmlessAll text as

theorem served_cons (as : List Arrival) :
    b.Served text (a :: as) ↔
      ∃ it, b.spinIteration text a.sendto a.client a.datagram = .ok it ∧ b.Unharmed a it ∧
        it.broker.Served text as := by
  constructor
  · rintro ⟨harrivals, hunharmed⟩
    cases hit : b.spinIteration text a.sendto a.client a.datagram with
    | error fault =>
      rw [spin, hit] at harrivals
      cases harrivals
    | ok it =>
      have hfirst : b.Unharmed a it := hunharmed ⟨b, a, it⟩ (by
        rw [spin, hit]
        exact List.mem_cons_self)
      rw [spin_cons_of_ok hit hfirst.continues] at harrivals hunharmed
      refine ⟨it, rfl, hfirst, (List.cons.inj harrivals).2, fun r hr => ?_⟩
      exact hunharmed r (List.mem_cons_of_mem _ hr)
  · rintro ⟨it, hit, hfirst, harrivals, hunharmed⟩
    unfold Served
    rw [spin_cons_of_ok hit hfirst.continues]
    refine ⟨congrArg (a :: ·) harrivals, fun r hr => ?_⟩
    rcases List.mem_cons.mp hr with rfl | hr
    · exact hfirst
    · exact hunharmed r hr

theorem served_iff (hi : b.tables.Intact) (as : List Arrival) :
    b.Served text as ↔ b.HarmlessAll text as := by
  induction as generalizing b with
  | nil => exact iff_of_true ⟨rfl, by simp [spin]⟩ trivial
  | cons a as ih =>
    rw [served_cons]
    constructor
    · rintro ⟨it, hit, hunharmed, hrest⟩
      refine ⟨(survives_iff hi).mp ⟨it, hit, hunharmed⟩, fun it' hit' => ?_⟩
      rw [hit] at hit'
      injection hit' with hit'
      subst hit'
      exact (ih (hunharmed.intact hi hit)).mp hrest
    · rintro ⟨hharmless, hrest⟩
      obtain ⟨it, hit, hunharmed⟩ := (survives_iff hi).mpr hharmless
      exact ⟨it, hit, hunharmed, (ih (hunharmed.intact hi hit)).mpr (hrest it hit)⟩

/-- The broker gets through exactly the runs in which every datagram is harmless to it. -/
theorem spin_served_iff (as : List Arrival) :
    started.Served text as ↔ started.HarmlessAll text as :=
  served_iff Tables.intact_empty as

/-- One control packet whose text is the letter `x` ends the loop. -/
theorem spin_served_fails : ¬ ∀ as : List Arrival, started.Served compactJson as := by
  intro h
  have hharmless := (served_iff Tables.intact_empty _).mp
    (h [⟨"10.0.0.2:40001", [1, 0, 0, 0, 1, 0, 0, 0, 1, 120], fun _ _ _ => true⟩])
  obtain ⟨request, hrequest, _⟩ := (hharmless.1 (by decide)).1 rfl (by decide)
  have hnone : compactJson.parse [120] = none := by decide
  have hinput : parserInput (Memory.load [1, 0, 0, 0, 1, 0, 0, 0, 1, 120] started.buffer) 9 10 =
      ([120] : Bytes) := by decide
  have hend : endOffset (controlSize (Memory.load [1, 0, 0, 0, 1, 0, 0, 0, 1, 120]
      started.buffer)) = 10 := by decide
  rw [hend, hinput, hnone] at hrequest
  cases hrequest

end Broker

end Crps
