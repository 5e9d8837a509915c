import Crps.Broker.Atomicity

/-!
# Responses and the requests they answer

A success response copies the request's `rpc_id`; a failure response takes it
through a signed 32-bit integer. The packet of either carries the counter of the
request's packet, so a node can tell by both which request was answered.
-/

namespace Crps

namespace Tables

/-- The requests the tables allow. -/
def Admits (t : Tables) : ControlRequest → Prop
  | .registerNode name => findNamed NodeInfo.name name t.nodes = none
  | .registerMessageType name size =>
    match findNamed MessageTypeInfo.name name t.messageTypes with
    | none => True
    | some (_, info) => info.size = size
  | .registerTopic name messageTypeId priority =>
    match findNamed Topic.name name t.topics with
    | none => priority ≠ dontcareTopicPriority
    | some (_, topic) =>
      topic.messageTypeId = messageTypeId ∧
        (priority = dontcareTopicPriority ∨ topic.priority = priority)
  | .addPublisher nodeId topicId messageTypeId | .addSubscriber nodeId topicId messageTypeId =>
    nodeId.toNat < t.nodes.length ∧ messageTypeId.toNat < t.messageTypes.length ∧
      ∃ topic, t.topics[topicId.toNat]? = some topic ∧ topic.messageTypeId = messageTypeId

theorem validateTopicParameters_iff (t : Tables) (nodeId : BpNodeId) (topicId : TopicId)
    (messageTypeId : MessageTypeId) :
    (t.validateTopicParameters nodeId topicId messageTypeId).1 = true ↔
      nodeId.toNat < t.nodes.length ∧ messageTypeId.toNat < t.messageTypes.length ∧
        ∃ topic, t.topics[topicId.toNat]? = some topic ∧ topic.messageTypeId = messageTypeId := by
  constructor
  · exact t.validateTopicParameters_true
  · rintro ⟨hnode, htype, topic, htopic, rfl⟩
    simp only [validateTopicParameters, htopic, if_neg (not_le.mpr hnode),
      if_neg (not_le.mpr htype), ne_eq, not_true_eq_false, if_false]

/-- A handler succeeds on the requests the tables admit and on no other. -/
theorem handle_isSome_iff (t : Tables) (client : String) (c : ControlRequest) :
    (t.handle client c).result.isSome = true ↔ t.Admits c := by
  cases c with
  | registerNode name =>
    simp only [handle, registerNode, Reply.map, Admits]
    cases findNamed NodeInfo.name name t.nodes <;> simp
  | registerMessageType name size =>
    simp only [handle, registerMessageType, Reply.map, Admits]
    cases findNamed MessageTypeInfo.name name t.messageTypes with
    | none => simp
    | some found =>
      by_cases hsize : found.2.size = size <;> simp [hsize]
  | registerTopic name messageTypeId priority =>
    simp only [handle, registerTopic, Reply.map, Admits]
    cases findNamed Topic.name name t.topics with
    | none => by_cases hpriority : priority = dontcareTopicPriority <;> simp [hpriority]
    | some found =>
      simp only
      split_ifs with htype hpriority
      · simp [htype]
      · simp only [Option.map_none, Option.isSome_none, Bool.false_eq_true, false_iff]
        tauto
      · simp only [Option.map_some, Option.isSome_some, true_iff]
        tauto
  | addPublisher nodeId topicId messageTypeId =>
    simp only [handle, addPublisher, addEndpoint, Reply.map, Admits,
      ← t.validateTopicParameters_iff]
    split_ifs with hvalid <;> simp [hvalid]
  | addSubscriber nodeId topicId messageTypeId =>
    simp only [handle, addSubscriber, addEndpoint, Reply.map, Admits,
      ← t.validateTopicParameters_iff]
    split_ifs with hvalid <;> simp [hvalid]

end Tables

/-- The responses the dispatcher builds fit into a datagram. -/
structure JsonText.DumpsResponses (text : JsonText) : Prop where
  granted : ∀ (a : ControlAnswer) (rpcId : UInt32),
    9 + (text.dump (a.response (.ofUInt32 rpcId))).length ≤ maxDatagramSize
  refused : ∀ (rpcId : Int32) (c : ControlRequest),
    9 + (text.dump (rpcFailureResponse rpcId 0 c.errorMessage)).length ≤ maxDatagramSize

theorem compactJson_dumpsResponses : compactJson.DumpsResponses := by
  constructor
  · intro a rpcId
    have hlength := Node.length_dump_response_le a rpcId
    simp only [maxDatagramSize]
    omega
  · intro rpcId c
    have hword : (CompactJson.dump (.ofInt32 rpcId)).length ≤ 11 := by
      have hlo := rpcId.le_toInt
      have hhi := rpcId.toInt_lt
      exact CompactJson.length_dumpInt_le (by omega) (by omega)
    have hkey : ∀ key ∈ ["error_code", "error_message", "rpc_id", "success"],
        (CompactJson.dumpString key).length ≤ 15 := by decide
    have herror : ∀ message ∈ ["Failed to register node", "Failed to register message type",
        "Failed to register topic", "Failed to add publisher", "Failed to add subscriber"],
        (CompactJson.dumpString message).length ≤ 33 := by decide
    have hmessage : (CompactJson.dumpString c.errorMessage).length ≤ 33 := by
      apply herror
      cases c <;> simp [ControlRequest.errorMessage]
    have hzero : (CompactJson.dump (.ofInt32 0)).length = 1 := by decide
    simp only [List.forall_mem_cons] at hkey
    obtain ⟨h1, h2, h3, h4, _⟩ := hkey
    rw [rpcFailureResponse_eq]
    simp only [compactJson, CompactJson.dump, CompactJson.dumpMembers, List.length_cons,
      List.length_append, List.length_nil, maxDatagramSize] at *
    omega

/-- A failure response names the request exactly if its id is no larger than a signed
integer can be. -/
theorem failure_rpcId_iff (w : UInt32) (errorMessage : String) :
    (rpcFailureResponse (Int32.ofInt w.toNat) 0 errorMessage).field "rpc_id" =
      .ok (.ofUInt32 w) ↔ w.toNat < 2 ^ 31 := by
  have hw := w.toNat_lt
  have hfield : (rpcFailureResponse (Int32.ofInt w.toNat) 0 errorMessage).field "rpc_id" =
      .ok (.number (Int32.ofInt w.toNat).toInt) := rfl
  rw [hfield, Json.ofUInt32, Except.ok.injEq, Json.number.injEq, Int32.toInt_ofInt, Int.bmod_def,
    Int32.size]
  omega

/-- The packet stands for a response to the request with this `rpc_id` and packet counter. -/
structure Correlated (text : JsonText) (rpcId : UInt32) (counter : BpCounter) (response : Json)
    (packet : Bytes) : Prop where
  rpcId : response.field "rpc_id" = .ok (.ofUInt32 rpcId)
  decoded : ∀ old : Memory, ∃ d,
    decodePacketBuffer text (Memory.load packet old) packet.length = .ok d ∧
      d.type = .control ∧ d.controlJson = response ∧ d.header.counter = counter

theorem response_rpcId (a : ControlAnswer) (rpcId : Json) :
    (a.response rpcId).field "rpc_id" = .ok rpcId := by
  rw [ControlAnswer.response_eq]
  cases a <;> rfl

theorem decoded_controlPacket {text : JsonText} {response : Json} (hplain : response.Plain)
    (hlength : 9 + (text.dump response).length ≤ maxDatagramSize) (counter : BpCounter)
    (old : Memory) :
    ∃ d, decodePacketBuffer text
        (Memory.load (bpControlJsonToPacketBuffer text response counter) old)
        (bpControlJsonToPacketBuffer text response counter).length = .ok d ∧
      d.type = .control ∧ d.controlJson = response ∧ d.header.counter = counter := by
  simp only [maxDatagramSize] at hlength
  exact ⟨_, decode_controlPacket text hplain counter old (by omega), rfl, rfl, rfl⟩

theorem Tables.Replied.response_of_refused {t t' : Tables} {client : String}
    {request response : Json} {c : ControlRequest} {rpcId : UInt32}
    (h : t.Replied client request t' response) (hrefused : (t.handle client c).result = none)
    (hc : ControlRequest.ofJson request = .ok (some c))
    (hrpc : request.field "rpc_id" = .ok (.ofUInt32 rpcId)) :
    response = rpcFailureResponse (Int32.ofInt rpcId.toNat) 0 c.errorMessage := by
  cases h with
  | unhandled hread =>
    rw [hc] at hread
    cases hread
  | refused hread _ hid =>
    rw [hc] at hread
    cases hread
    rw [hrpc] at hid
    injection hid with hid
    injection hid with hid
    rw [hid]
  | granted hread hresult _ =>
    rw [hc] at hread
    cases hread
    rw [hrefused] at hresult
    cases hresult

theorem Tables.Replied.response_of_granted {t t' : Tables} {client : String}
    {request response : Json} {c : ControlRequest} {a : ControlAnswer} {rpcId : UInt32}
    (h : t.Replied client request t' response) (hgranted : (t.handle client c).result = some a)
    (hc : ControlRequest.ofJson request = .ok (some c))
    (hrpc : request.field "rpc_id" = .ok (.ofUInt32 rpcId)) :
    response = a.response (.ofUInt32 rpcId) := by
  cases h with
  | unhandled hread =>
    rw [hc] at hread
    cases hread
  | refused hread hresult _ =>
    rw [hc] at hread
    cases hread
    rw [hgranted] at hresult
    cases hresult
  | granted hread hresult hid =>
    rw [hc] at hread
    cases hread
    rw [hgranted] at hresult
    injection hresult with hresult
    rw [hrpc] at hid
    injection hid with hid
    rw [hresult, hid]

theorem Tables.Replied.correlated_iff {text : JsonText} (htext : text.DumpsResponses)
    {t t' : Tables} {client : String} {request response : Json} {c : ControlRequest}
    {rpcId : UInt32} (h : t.Replied client request t' response)
    (hc : ControlRequest.ofJson request = .ok (some c))
    (hrpc : request.field "rpc_id" = .ok (.ofUInt32 rpcId)) (counter : BpCounter) :
    Correlated text rpcId counter response
        (bpControlJsonToPacketBuffer text response counter) ↔
      rpcId.toNat < 2 ^ 31 ∨ t.Admits c := by
  rw [← t.handle_isSome_iff client c]
  cases hresult : (t.handle client c).result with
  | none =>
    rw [h.response_of_refused hresult hc hrpc, Option.isSome_none, ← failure_rpcId_iff rpcId
      c.errorMessage]
    simp only [Bool.false_eq_true, or_false]
    constructor
    · exact Correlated.rpcId
    · intro hsame
      exact ⟨hsame, decoded_controlPacket (rpcFailureResponse_plain _ _ _)
        (htext.refused _ c) counter⟩
  | some a =>
    rw [h.response_of_granted hresult hc hrpc, Option.isSome_some]
    simp only [or_true, iff_true]
    exact ⟨response_rpcId a _, decoded_controlPacket (Node.response_plain a rpcId)
      (htext.granted a rpcId) counter⟩

namespace Broker

variable {text : JsonText} {b : Broker} {client : String} {datagram : Bytes}

theorem clientCounters_checked (datagram : Bytes) {counter : BpCounter}
    (hpass : (verifyAndUpdateClientCounter b.clientCounters client counter).1 = true) :
    (b.checked client datagram counter).clientCounters client = some counter := by
  simp only [checked, verifyAndUpdateClientCounter] at hpass ⊢
  split
  · exact Function.update_self ..
  · rename_i last hlast
    simp only [hlast] at hpass
    split_ifs at hpass ⊢ with hne
    exact Function.update_self ..

theorem spinIteration_replied (sendto : Sendto) {d : Decoded}
    (hd : decodePacketBuffer text (Memory.load datagram b.buffer) datagram.length = .ok d)
    (hpass : (verifyAndUpdateClientCounter b.clientCounters client d.header.counter).1 = true)
    (htype : d.type = .control) (htyped : d.controlJson.WellTyped) :
    ∃ it response, b.spinIteration text sendto client datagram = .ok it ∧
      it.disposal = .control d.controlJson response ∧
      it.attempts = [⟨client, bpControlJsonToPacketBuffer text response d.header.counter,
        sendto 0 client (bpControlJsonToPacketBuffer text response d.header.counter)⟩] ∧
      b.tables.Replied client d.controlJson it.broker.tables response := by
  have hspin := spinIteration_of_control sendto hd hpass htype
  have hcounter := clientCounters_checked datagram hpass
  obtain ⟨reply, hreply, hreplied⟩ := b.tables.processControlRequest_replied client htyped
  have hchecked : (b.checked client datagram d.header.counter).tables.processControlRequest client
      d.controlJson = .ok reply := hreply
  rw [hspin]
  simp only [processControl, hchecked, hcounter, bind, Except.bind, pure, Except.pure,
    Option.getD_some]
  exact ⟨_, reply.response, rfl, rfl, rfl, hreplied⟩

/-- The response to a control packet is correlated with it exactly if its id is within the
signed range or the tables admit the request. -/
theorem spinIteration_correlated_iff (htext : text.DumpsResponses) (sendto : Sendto)
    {d : Decoded} {c : ControlRequest} {rpcId : UInt32}
    (hd : decodePacketBuffer text (Memory.load datagram b.buffer) datagram.length = .ok d)
    (hpass : (verifyAndUpdateClientCounter b.clientCounters client d.header.counter).1 = true)
    (htype : d.type = .control) (hc : ControlRequest.ofJson d.controlJson = .ok (some c))
    (hrpc : d.controlJson.field "rpc_id" = .ok (.ofUInt32 rpcId)) :
    ∃ it response packet, b.spinIteration text sendto client datagram = .ok it ∧
      it.disposal = .control d.controlJson response ∧
      it.attempts = [⟨client, packet, sendto 0 client packet⟩] ∧
      (Correlated text rpcId d.header.counter response packet ↔
        rpcId.toNat < 2 ^ 31 ∨ b.tables.Admits c) := by
  obtain ⟨it, response, hspin, hdisposal, hattempts, hreplied⟩ :=
    spinIteration_replied sendto hd hpass htype ⟨⟨_, hc⟩, _, hrpc⟩
  exact ⟨it, response, _, hspin, hdisposal, hattempts,
    hreplied.correlated_iff htext hc hrpc d.header.counter⟩

/-- A node registers with the largest id. -/
theorem spinIteration_correlated_talker :
    ∃ it response packet, started.spinIteration compactJson (fun _ _ _ => true)
        "10.0.0.2:40001" (bpControlJsonToPacketBuffer compactJson
          (Node.requestJson 4294967295 (.registerNode "talker")) 7) = .ok it ∧
      it.disposal = .control (Node.requestJson 4294967295 (.registerNode "talker")) response ∧
      it.attempts = [⟨"10.0.0.2:40001", packet, true⟩] ∧
      (Correlated compactJson 4294967295 7 response packet ↔
        (4294967295 : UInt32).toNat < 2 ^ 31 ∨
          Tables.Admits {} (.registerNode "talker")) := by
  have hlength := Node.length_dump_requestJson_le (.registerNode "talker") 4294967295
  have hname : (CompactJson.dumpString (Node.requestName (.registerNode "talker"))).length = 8 := by
    decide
  have hd := decode_controlPacket compactJson
    (Node.requestJson_plain 4294967295 (.registerNode "talker")) 7 started.buffer (by omega)
  exact spinIteration_correlated_iff compactJson_dumpsResponses (fun _ _ _ => true) hd rfl rfl
    (Node.ofJson_requestJson 4294967295 (.registerNode "talker"))
    (Node.requestJson_rpcId 4294967295 (.registerNode "talker"))

theorem exists_secondRegistration (client name : String) (rpcId : UInt32)
    (hlen : ∀ w, 9 + (text.dump (Node.requestJson w (.registerNode name))).length < 2 ^ 32) :
    ∃ as, ∃ r ∈ started.spin text as,
      r.iteration.disposal = .control (Node.requestJson rpcId (.registerNode name))
        (rpcFailureResponse (Int32.ofInt rpcId.toNat) 0 "Failed to register node") := by
  obtain ⟨b, htables, hexpects, hmem⟩ := @spin_requests text started client
    [.registerNode name] 5 (.inl rfl) (by
      intro a ha
      rw [List.mem_singleton.mp ha, length_controlPacket]
      exact hlen 5)
  have hd := decode_controlPacket text (Node.requestJson_plain rpcId (.registerNode name)) 6
    b.buffer (hlen rpcId)
  have hpass : (verifyAndUpdateClientCounter b.clientCounters client 6).1 = true := by
    rw [verify_of_expects (show b.Expects client 6 from hexpects)]
  have hread := Node.ofJson_requestJson rpcId (.registerNode name)
  have hrpc := Node.requestJson_rpcId rpcId (.registerNode name)
  obtain ⟨it, response, hspin, hdisposal, _, hreplied⟩ := spinIteration_replied
    (fun _ _ _ => true) hd hpass rfl ⟨⟨_, hread⟩, _, hrpc⟩
  have hr := hmem [⟨client, _, fun _ _ _ => true⟩] _ (mem_spin_of_ok hspin [])
  refine ⟨_, _, hr, hdisposal.trans (congrArg _ ?_)⟩
  have hregistered : b.tables = ⟨[⟨name, client⟩], [], []⟩ := htables
  apply hreplied.response_of_refused _ hread hrpc
  simp [hregistered, Tables.handle, Tables.registerNode, Reply.map, findNamed]

/-- A second node of the same name is refused with a negative id when its own is `2 ^ 31`. -/
theorem spin_correlated_fails :
    ¬ ∀ (as : List Arrival) (r : Record), r ∈ started.spin compactJson as →
      ∀ (request response : Json) (c : ControlRequest) (rpcId : UInt32),
        r.iteration.disposal = .control request response →
        ControlRequest.ofJson request = .ok (some c) →
        request.field "rpc_id" = .ok (.ofUInt32 rpcId) →
        response.field "rpc_id" = .ok (.ofUInt32 rpcId) := by
  intro hall
  have hname : (CompactJson.dumpString (Node.requestName (.registerNode "talker"))).length = 8 := by
    decide
  obtain ⟨as, r, hr, hdisposal⟩ := @exists_secondRegistration compactJson "10.0.0.2:40001"
    "talker" 2147483648 (by
      intro w
      have hlength := Node.length_dump_requestJson_le (.registerNode "talker") w
      omega)
  have hsame := hall as r hr _ _ _ _ hdisposal (Node.ofJson_requestJson _ _)
    (Node.requestJson_rpcId _ _)
  rw [failure_rpcId_iff] at hsame
  exact absurd hsame (by decide)

end Broker

end Crps
